import Mathlib.Data.UInt
import Snapshot.PageBrokerTasks

/-! Admission in PageBroker, in every run of requests, GPU requests, reaper and destructors: the counters
of the shared resources are exact, and every checkpoint destination has one owner. The bytes that restores
have reserved in the staging file system are counted modulo `2 ^ 64`. -/
namespace PageBroker

open Interleaving

/-- What the tasks have reserved in the staging file system. -/
def World.stagingSum (w : World) : ℕ := (w.staging.map (·.2.toNat)).sum

/-- A run of the broker from its start; no task vanishes. -/
def Reaches (config : Config) (es : List (system config).Event) (q : Pool interface World Task) : Prop :=
  (system config).runWhere (fun _ e => e.lasting) (Pool.idle (World.initial config)) es = some q

theorem coherent_initial (config : Config) : Coherent (World.initial config) := by
  refine ⟨⟨⟨?_, ?_, rfl⟩, rfl, rfl, fun h => ?_, fun o o' h ho => ?_, fun _ _ => rfl⟩, fun o x hx => ?_, fun o ho => ?_,
    fun o t ho => ?_, fun o x hx => ?_, rfl⟩
  · exact UInt64.le_iff_toNat_le.2 (Nat.zero_le _)
  · exact UInt32.le_iff_toNat_le.2 (Nat.zero_le _)
  · constructor
    · intro hmem
      simp [World.initial, Resources.new] at hmem
    · rintro ⟨o, ho⟩
      cases ho
  · cases ho
  · cases hx
  · simp [World.referenced, World.initial] at ho
  · cases ho
  · cases hx

theorem free_initial (config : Config) (t : Task) : Free t [] [] (World.initial config) :=
  ⟨fun _ => nofun, fun _ => rfl, fun _ => rfl⟩

theorem holds_of_reaches {config : Config} {es : List (system config).Event} {q : Pool interface World Task}
    (h : Reaches config es q) : (roster config).Holds q :=
  (roster config).holds_run (fun _ _ he => he)
    ((roster config).holds_idle (coherent_initial config) (free_initial config)) h

/-! ## The counters -/

/-- The accounts of the shared resources. -/
structure Admission (w : World) : Prop where
  reserved : w.resources.reserved.toNat = ∑ o ∈ Finset.range w.allocated, shareOf (w.objects o)
  active : w.resources.active.toNat = ∑ o ∈ Finset.range w.allocated, holdsOf (w.objects o)
  /-- There are no other transactions. -/
  all : ∀ o, w.allocated ≤ o → w.objects o = none
  bytes : w.resources.reserved ≤ w.resources.byteLimit
  transactions : w.resources.active ≤ w.resources.transactionLimit
  wrapped : w.resources.wrapped = false
  once : ∀ o x, w.objects o = some x → x.releases ≤ 1

theorem Coherent.admission {w : World} (h : Coherent w) : Admission w := by
  refine ⟨h.accounts.reserved, h.accounts.active, h.accounts.fresh, h.accounts.bounded.bytes,
    h.accounts.bounded.transactions, h.accounts.bounded.wrapped, fun o x hx => ?_⟩
  rw [h.releases o x hx]
  split <;> omega

/-- The counter of the staging file system is what the tasks have reserved, and no release will wrap. -/
structure StagingExact (w : World) : Prop where
  sum : w.reservedStagingBytes.toNat = w.stagingSum
  covers : ∀ entry ∈ w.staging, entry.2 ≤ w.reservedStagingBytes

theorem Coherent.staging_exact_iff {w : World} (h : Coherent w) : StagingExact w ↔ w.stagingSum < 2 ^ 64 := by
  constructor
  · intro hexact
    rw [← hexact.sum]
    exact w.reservedStagingBytes.toNat_lt
  · intro hsum
    have hcount : w.reservedStagingBytes.toNat = w.stagingSum := h.staging.trans (Nat.mod_eq_of_lt hsum)
    refine ⟨hcount, fun entry hentry => ?_⟩
    rw [UInt64.le_iff_toNat_le, hcount]
    exact List.single_le_sum (by simp) _ (List.mem_map_of_mem hentry)

/-- In every run the accounts of the shared resources are exact and within their limits. Whoever has
reserved staging is running, and the counter of the staging file system is what they have reserved as long
as that is less than `2 ^ 64`. -/
theorem admission_exact {config : Config} {es : List (system config).Event} {q : Pool interface World Task}
    (h : Reaches config es q) :
    Admission q.world ∧ (∀ t bytes, (t, bytes) ∈ q.world.staging → (q.running t).isSome = true) ∧
      (q.world.staging = [] → q.world.reservedStagingBytes = 0) ∧
      (StagingExact q.world ↔ q.world.stagingSum < 2 ^ 64) := by
  have hholds := holds_of_reaches h
  have hcoherent : Coherent q.world := hholds.inv
  refine ⟨hcoherent.admission, fun t bytes hmem => ?_, fun hnone => ?_, hcoherent.staging_exact_iff⟩
  · by_contra hidle
    have hfree : Free t [] [] q.world := hholds.idle t (by simpa using hidle)
    have hcount := hfree.staging bytes
    rw [List.count_nil, List.count_eq_zero] at hcount
    exact hcount hmem
  · have := hcoherent.staging
    rw [hnone] at this
    exact UInt64.toNat_inj.1 this

section Overflow

/-- Without limits on transfers the POSIX engine stages the restores. -/
def posixConfig : Config := ⟨"/staging", none⟩

def restoreTask (n : ℕ) (name : String) : Task := .request n ⟨"request", name, .stagedRestore none true (some .posixCopy)⟩

/-- Everything that is asked succeeds, with this number as the answer. -/
def answering (number : UInt64) : Choice := ⟨none, ⟨false, number, "", ""⟩, [], 0⟩

/-- A restore of this size up to the point where its staging has been reserved. -/
def reserving (t : Task) (bytes : UInt64) : List (system posixConfig).Event :=
  .start t :: List.replicate 12 (.call t (answering bytes))

theorem admission_exact_reserved : ∃ q, Reaches posixConfig (reserving (restoreTask 0 "a") 5) q ∧
    q.world.stagingSum = 5 ∧ StagingExact q.world := by
  have hrun : ((system posixConfig).runWhere (fun _ e => e.lasting) (Pool.idle (World.initial posixConfig))
      (reserving (restoreTask 0 "a") 5)).map (fun q => q.world.stagingSum) = some 5 := by
    decide +kernel
  obtain ⟨q, hq, hsum⟩ := Option.map_eq_some_iff.1 hrun
  refine ⟨q, hq, hsum, (admission_exact hq).2.2.2.2 ?_⟩
  rw [hsum]
  decide

/-- A second restore whose size wraps the addition is admitted. -/
theorem staging_counter_wraps : ∃ q,
    Reaches posixConfig (reserving (restoreTask 0 "a") 5 ++ reserving (restoreTask 1 "b") (2 ^ 64 - 1)) q ∧
    q.world.stagingSum = 2 ^ 64 + 4 ∧ q.world.reservedStagingBytes = 4 ∧ ¬StagingExact q.world := by
  have hrun : ((system posixConfig).runWhere (fun _ e => e.lasting) (Pool.idle (World.initial posixConfig))
      (reserving (restoreTask 0 "a") 5 ++ reserving (restoreTask 1 "b") (2 ^ 64 - 1))).map
        (fun q => (q.world.stagingSum, q.world.reservedStagingBytes)) = some (2 ^ 64 + 4, 4) := by
    decide +kernel
  obtain ⟨q, hq, hboth⟩ := Option.map_eq_some_iff.1 hrun
  obtain ⟨hsum, hcounter⟩ := Prod.mk.inj hboth
  refine ⟨q, hq, hsum, hcounter, fun hexact => ?_⟩
  have := hexact.sum
  rw [hsum, hcounter] at this
  exact absurd this (by decide)

end Overflow

/-! ## Destinations -/

/-- The object that a call works on. -/
def Call.object : Call → Option Object
  | .change o _ | .prepareTransfer o _ _ _ | .reserve o _ | .releaseReservation o | .destroyReservation o
  | .destroyObject o => some o
  | _ => none

/-- The object that is worked on in a step. -/
def worksOn {config : Config} (p : Pool interface World Task) : (system config).Event → Option Object
  | .call t _ => (p.next t).bind Call.object
  | _ => none

/-- Every object but the one that a call works on stays as it is. -/
theorem perform_objects {t : Task} {w w' : World} {c : Call} {x : Choice} {a : c.Answer} {o : Object}
    (h : perform t w c x = some (a, w')) (hother : c.object ≠ some o) (hexists : o < w.allocated) :
    w'.objects o = w.objects o := by
  have hput : ∀ o' next, o' ≠ o → (w.put o' next).objects o = w.objects o := fun o' next hne => by
    simp [World.put, Function.update_of_ne hne.symm]
  cases c with
  | createOrGetTransaction name =>
    simp only [perform] at h
    split at h
    · cases h
      rfl
    · split at h
      · cases h
        rfl
      · cases h
        simp [World.create, Function.update_of_ne (Nat.ne_of_lt hexists)]
  | findTransaction name =>
    simp only [perform] at h
    split at h <;> cases h <;> rfl
  | transactionSnapshot | lock | tryLock =>
    simp only [perform] at h
    split at h <;> cases h <;> rfl
  | eraseTransaction | pushTerminal | popTerminal | drop | unlock | releaseStaging | external =>
    cases h
    rfl
  | get =>
    obtain ⟨_, _, heq⟩ := Option.map_eq_some_iff.1 h
    cases heq
    rfl
  | reserveStaging bytes =>
    simp only [perform] at h
    split at h
    · cases h
      rfl
    · split at h <;> cases h <;> rfl
  | change o' | prepareTransfer o' | reserve o' | releaseReservation o' =>
    obtain ⟨_, _, heq⟩ := Option.map_eq_some_iff.1 h
    cases heq
    exact hput o' _ fun hsame => hother (congrArg some hsame)
  | destroyReservation o' =>
    simp only [perform] at h
    split at h
    · cases h
    · obtain ⟨_, _, heq⟩ := Option.map_eq_some_iff.1 h
      cases heq
      exact hput o' _ fun hsame => hother (congrArg some hsame)
  | destroyObject o' =>
    obtain ⟨_, _, heq⟩ := Option.map_eq_some_iff.1 h
    cases heq
    have hne : o ≠ o' := fun hsame => hother (congrArg some hsame.symm)
    simp [Function.update_of_ne hne]

/-- The claims of every other object stay in place. -/
theorem claims_kept {config : Config} {p q : Pool interface World Task} {e : (system config).Event}
    (hholds : (roster config).Holds p) (hlasting : e.lasting = true) (hstep : (system config).step p e = some q)
    {o : Object} {handle : String} (hclaim : destinationOf (p.world.objects o) = some handle)
    (hother : worksOn p e ≠ some o) :
    handle ∈ q.world.resources.destinations ∧ destinationOf (q.world.objects o) = some handle := by
  have hcoherent : Coherent p.world := hholds.inv
  have hcoherent' : Coherent q.world := ((roster config).holds_step hholds hlasting hstep).inv
  have hexists : o < p.world.allocated := by
    by_contra hge
    rw [hcoherent.accounts.fresh o (not_lt.1 hge)] at hclaim
    cases hclaim
  have hsame : q.world.objects o = p.world.objects o := by
    cases e with
    | disturb d =>
      cases hstep
      rfl
    | start t | finish t =>
      simp only [System.step] at hstep
      split at hstep <;> cases hstep
      rfl
    | crash t => cases hlasting
    | call t choice =>
      simp only [System.step] at hstep
      split at hstep
      · rename_i c k hrun
        obtain ⟨⟨a, w⟩, hperform, rfl⟩ := Option.map_eq_some_iff.1 hstep
        refine perform_objects hperform (fun hobject => hother ?_) hexists
        simp [worksOn, Pool.next, hrun, hobject]
      · cases hstep
  rw [← hsame] at hclaim
  exact ⟨(hcoherent'.accounts.destinations handle).2 ⟨o, hclaim⟩, hclaim⟩

/-- A rejection changes nothing that is shared and gives nothing to the transaction. -/
theorem prepareTransfer_rejected {r : Resources} {x : Transaction} {resources : Bool} {bytes : UInt64}
    {artifact : Option String} {fault : Option Error} {error : Error} (hx : x.resources = false)
    (h : (prepareTransfer r x resources bytes artifact fault).1 = .error error) :
    (prepareTransfer r x resources bytes artifact fault).2.1 = r ∧
      (prepareTransfer r x resources bytes artifact fault).2.2.destination = none := by
  have hnone : ({ x with deadline := true }.announce artifact).destination = none := by
    have hresources : ({ x with deadline := true }.announce artifact).resources = false := by
      cases artifact <;> exact hx
    simp [Transaction.destination, hresources]
  revert h
  simp only [prepareTransfer]
  split
  · intro h
    cases h
  split
  · exact fun _ => ⟨rfl, hnone⟩
  split
  · exact fun _ => ⟨rfl, hnone⟩
  split
  · exact fun _ => ⟨rfl, hnone⟩
  · intro h
    cases h

/-- Whoever asks for a destination that has no owner gets it, if there is room. -/
theorem prepareTransfer_claims {r : Resources} {x : Transaction} {bytes : UInt64} {handle : String}
    (hroom : r.full bytes = false) (hfree : handle ∉ r.destinations) :
    (prepareTransfer r x true bytes (some handle) none).1 = .ok () ∧
      handle ∈ (prepareTransfer r x true bytes (some handle) none).2.1.destinations ∧
      (prepareTransfer r x true bytes (some handle) none).2.2.destination = some handle := by
  simp [prepareTransfer, Transaction.announce, hroom, hfree, Resources.occupy, Transaction.destination]

/-- The assignments that end a cleanup or set the state. -/
def Change.abandoning : Change → Bool
  | .setState _ | .clearDirectory => true
  | _ => false

theorem abandons_apply {c : Change} (hc : c.abandoning = true) (r : Resources) (x : Transaction) :
    Abandons (c.apply r x).2 := by
  cases c with
  | setState => exact abandons_release r _
  | clearDirectory => exact abandons_release r _
  | _ => cases hc

theorem destination_none {x : Transaction} (habandons : Abandons x) (hstate : x.state = .aborted)
    (hclean : x.hasPendingCleanup = false) : x.destination = none := by
  simp only [Transaction.destination]
  split
  · rename_i hresources
    rw [habandons hstate hclean hresources]
    rfl
  · rfl

/-- In every run a handle is a destination if and only if exactly one transaction owns it. A step takes no
claim from a transaction that it does not work on, and a rejected transaction owns nothing. An aborted
transaction whose cleanup is done owns nothing, and a handle without an owner can be claimed. -/
theorem destinations_owned {config : Config} {es : List (system config).Event} {q : Pool interface World Task}
    (h : Reaches config es q) :
    (∀ handle, handle ∈ q.world.resources.destinations ↔ ∃! o, destinationOf (q.world.objects o) = some handle) ∧
    (∀ e q', e.lasting = true → (system config).step q e = some q' → ∀ o handle,
      destinationOf (q.world.objects o) = some handle → worksOn q e ≠ some o →
        handle ∈ q'.world.resources.destinations ∧ destinationOf (q'.world.objects o) = some handle) ∧
    (∀ t o resources bytes artifact choice error w',
      q.next t = some (.prepareTransfer o resources bytes artifact) →
      perform t q.world (.prepareTransfer o resources bytes artifact) choice = some (.error error, w') →
        w'.resources = q.world.resources ∧ destinationOf (w'.objects o) = none) ∧
    (∀ o x, q.world.objects o = some x → q.world.locked o = none → q.world.referenced o = true →
      x.state = .aborted → x.hasPendingCleanup = false → x.destination = none) ∧
    (∀ t o c choice w' x, q.next t = some (.change o c) → c.abandoning = true →
      perform t q.world (.change o c) choice = some ((), w') → w'.objects o = some x →
      x.state = .aborted → x.hasPendingCleanup = false → x.destination = none) ∧
    (∀ handle, (∀ o, destinationOf (q.world.objects o) ≠ some handle) → ∀ x bytes,
      q.world.resources.full bytes = false →
        (prepareTransfer q.world.resources x true bytes (some handle) none).1 = .ok () ∧
        handle ∈ (prepareTransfer q.world.resources x true bytes (some handle) none).2.1.destinations ∧
        (prepareTransfer q.world.resources x true bytes (some handle) none).2.2.destination = some handle) := by
  have hholds := holds_of_reaches h
  have hcoherent : Coherent q.world := hholds.inv
  refine ⟨fun handle => ⟨fun hmem => ?_, fun ⟨o, ho, _⟩ => (hcoherent.accounts.destinations handle).2 ⟨o, ho⟩⟩,
    fun e q' hlasting hstep o handle hclaim hother => claims_kept hholds hlasting hstep hclaim hother,
    fun t o resources bytes artifact choice error w' hnext hperform => ?_,
    fun o x hx hfree href hstate hclean => destination_none (hcoherent.rest o x hx hfree href).aborted hstate hclean,
    fun t o c choice w' x hnext hc hperform hx => ?_, fun handle hfree x bytes hroom => ?_⟩
  · obtain ⟨o, ho⟩ := (hcoherent.accounts.destinations handle).1 hmem
    exact ⟨o, ho, fun o' ho' => hcoherent.accounts.unique o' o handle ho' ho⟩
  · obtain ⟨k, hrun⟩ := Pool.next_eq_some.1 hnext
    obtain ⟨⟨_, hfresh⟩, _⟩ := ((roster config).guarantee_call hholds hrun hperform).1
    obtain ⟨y, hy, heq⟩ := Option.map_eq_some_iff.1 hperform
    obtain ⟨hanswer, rfl⟩ := Prod.mk.inj heq
    obtain ⟨hresources, hnone⟩ := prepareTransfer_rejected (hfresh y hy).resources hanswer
    refine ⟨hresources, ?_⟩
    simpa [World.put, destinationOf] using hnone
  · obtain ⟨y, _, heq⟩ := Option.map_eq_some_iff.1 hperform
    obtain ⟨_, rfl⟩ := Prod.mk.inj heq
    obtain rfl : (c.apply q.world.resources y).2 = x := by simpa [World.put] using hx
    exact destination_none (abandons_apply hc q.world.resources y)
  · refine prepareTransfer_claims hroom fun hmem => ?_
    obtain ⟨o, ho⟩ := (hcoherent.accounts.destinations handle).1 hmem
    exact hfree o ho

/-! ## A broker that is idle -/

/-- In every run what is referred to exists, and only a running task has references, locks or staging. So a
broker without running tasks has nothing locked or staged, and the transactions in its tables are at rest. -/
theorem idle_broker_at_rest {config : Config} {es : List (system config).Event} {q : Pool interface World Task}
    (h : Reaches config es q) :
    (∀ o, q.world.referenced o = true → (q.world.objects o).isSome = true) ∧
    (∀ o t, q.world.locked o = some t → (t, o) ∈ q.world.handles) ∧
    (∀ t o, (t, o) ∈ q.world.handles → (q.running t).isSome = true) ∧
    ((∀ t, q.running t = none) → q.world.handles = [] ∧ (∀ o, q.world.locked o = none) ∧
      q.world.reservedStagingBytes = 0 ∧
      ∀ id o, (id, o) ∈ q.world.transactions ++ q.world.terminal → ∃ x, q.world.objects o = some x ∧ Rest x) := by
  have hholds := holds_of_reaches h
  have hcoherent : Coherent q.world := hholds.inv
  have hfree : ∀ t, q.running t = none → Free t [] [] q.world := hholds.idle
  refine ⟨fun o ho => (hcoherent.exists' o ho).2, hcoherent.locks, fun t o hmem => ?_, fun hidle => ?_⟩
  · by_contra hnone
    have hcount := (hfree t (by simpa using hnone)).handles o
    rw [List.count_nil, List.count_eq_zero] at hcount
    exact hcount hmem
  · have hunlocked : ∀ o, q.world.locked o = none := fun o =>
      Option.eq_none_iff_forall_ne_some.2 fun t => (hfree t (hidle t)).locked o
    have hhandles : q.world.handles = [] := List.eq_nil_iff_forall_not_mem.2 fun x hx =>
      List.count_eq_zero.1 ((hfree x.1 (hidle x.1)).handles x.2) hx
    have hstaging : q.world.staging = [] := List.eq_nil_iff_forall_not_mem.2 fun x hx =>
      List.count_eq_zero.1 ((hfree x.1 (hidle x.1)).staging x.2) hx
    refine ⟨hhandles, hunlocked, UInt64.toNat_inj.1 (by simpa [hstaging] using hcoherent.staging), fun id o hmem => ?_⟩
    have href : q.world.referenced o = true :=
      referenced_iff.2 ((List.mem_append.1 hmem).imp (⟨id, ·⟩) fun hterminal => .inl ⟨id, hterminal⟩)
    obtain ⟨x, hx⟩ := Option.isSome_iff_exists.1 (hcoherent.exists' o href).2
    exact ⟨x, hx, hcoherent.rest o x hx (hunlocked o) href⟩

section Claim

def streamerConfig : Config := ⟨"/staging", some (100, 2)⟩

def checkpointTask : Task := .request 0 ⟨"request", "a", .prepareStagedCheckpoint (some "target") false none⟩

/-- A checkpoint up to the point where it has been admitted. -/
def claiming : List (system streamerConfig).Event :=
  .start checkpointTask :: List.replicate 7 (.call checkpointTask ⟨none, ⟨false, 0, "artifact", ""⟩, [], 0⟩)

theorem destinations_owned_claimed : ∃ q, Reaches streamerConfig claiming q ∧
    ∃! o, destinationOf (q.world.objects o) = some "artifact" := by
  have hrun : ((system streamerConfig).runWhere (fun _ e => e.lasting) (Pool.idle (World.initial streamerConfig))
      claiming).map (fun q => decide ("artifact" ∈ q.world.resources.destinations)) = some true := by
    decide +kernel
  obtain ⟨q, hq, hmem⟩ := Option.map_eq_some_iff.1 hrun
  exact ⟨q, hq, ((destinations_owned hq).1 "artifact").1 (of_decide_eq_true hmem)⟩

theorem idle_broker_at_rest_claiming : ∃ q, Reaches streamerConfig claiming q ∧
    q.world.locked 0 = some checkpointTask ∧ (checkpointTask, 0) ∈ q.world.handles := by
  have hrun : ((system streamerConfig).runWhere (fun _ e => e.lasting) (Pool.idle (World.initial streamerConfig))
      claiming).map (fun q => q.world.locked 0) = some (some checkpointTask) := by
    decide +kernel
  obtain ⟨q, hq, hlocked⟩ := Option.map_eq_some_iff.1 hrun
  exact ⟨q, hq, hlocked, (idle_broker_at_rest hq).2.1 0 checkpointTask hlocked⟩

end Claim

end PageBroker
