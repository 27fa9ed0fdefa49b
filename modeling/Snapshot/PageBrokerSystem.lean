import Mathlib.Algebra.Order.BigOperators.Group.Finset
import Snapshot.IdleThreads
import Snapshot.PageBrokerAccounts
import Snapshot.PageBrokerRequests

/-! The broker that the requests act on, and what every permitted call keeps: a handler changes only the
transaction that it has locked, a transaction that is not locked is at rest, and the counters are exact. -/
namespace PageBroker

open Interleaving

/-! ## The calls -/

/-- What a run decides: the answer or the exception of others, the order of a snapshot and how many
retained transactions have expired. -/
structure Choice where
  error : Option Error
  value : Value
  order : List (String × Object)
  count : ℕ
  deriving DecidableEq, Repr

namespace World

variable (w : World)

def referenced (o : Object) : Bool :=
  w.transactions.any (·.2 = o) || w.terminal.any (·.2 = o) || w.handles.any (·.2 = o)

def put (o : Object) (next : Resources × Transaction) : World :=
  { w with resources := next.1, objects := Function.update w.objects o (some next.2) }

/-- The task gets references to these objects. -/
def hand (t : Task) (items : List (String × Object)) : World :=
  { w with handles := items.map (fun item => (t, item.2)) ++ w.handles }

def create (t : Task) (id : String) : World :=
  { w with
    objects := Function.update w.objects w.allocated (some Transaction.initial)
    allocated := w.allocated + 1
    transactions := (id, w.allocated) :: w.transactions
    handles := (t, w.allocated) :: w.handles }

end World

def perform (t : Task) (w : World) : (c : Call) → Choice → Option (c.Answer × World)
  | .createOrGetTransaction id, _ =>
    if w.stopping then some (.error (.transfer .unavailable "PageBroker is shutting down"), w)
    else match w.transactions.lookup id with
      | some o => some (.ok o, w.hand t [(id, o)])
      | none => some (.ok w.allocated, w.create t id)
  | .findTransaction id, _ =>
    match w.transactions.lookup id with
    | some o => some (some o, w.hand t [(id, o)])
    | none => some (none, w)
  | .transactionSnapshot, x =>
    if x.order.isPerm w.transactions then some (x.order, w.hand t x.order) else none
  | .eraseTransaction id o, _ => some ((), { w with transactions := w.transactions.filter (· ≠ (id, o)) })
  | .pushTerminal id o, _ => some ((), { w with terminal := w.terminal ++ [(id, o)] })
  | .popTerminal, x =>
    some (w.terminal.take x.count, { w.hand t (w.terminal.take x.count) with terminal := w.terminal.drop x.count })
  | .drop o, _ => some ((), { w with handles := w.handles.erase (t, o) })
  | .lock o, _ =>
    if w.locked o = none then some ((), { w with locked := Function.update w.locked o (some t) }) else none
  | .tryLock o, _ =>
    if w.locked o = none then some (true, { w with locked := Function.update w.locked o (some t) })
    else some (false, w)
  | .unlock o, _ => some ((), { w with locked := Function.update w.locked o none })
  | .get o, _ => (w.objects o).map fun x => (x, w)
  | .change o c, _ => (w.objects o).map fun x => ((), w.put o (c.apply w.resources x))
  | .prepareTransfer o resources bytes artifact, c => (w.objects o).map fun x =>
    let next := prepareTransfer w.resources x resources bytes artifact c.error
    (next.1, w.put o next.2)
  | .reserve o bytes, _ => (w.objects o).map fun x =>
    let next := reserve w.resources x bytes
    (next.1, w.put o next.2)
  | .releaseReservation o, _ => (w.objects o).map fun x => ((), w.put o (releaseReservation w.resources x))
  | .reserveStaging bytes, x =>
    match x.error with
    | some error => some (.error error, w)
    | none =>
      -- `HasAvailableSpace`, with the space that the file system reports
      if x.value.number ≥ bytes + w.reservedStagingBytes then
        some (.ok true, { w with
          reservedStagingBytes := w.reservedStagingBytes + bytes
          staging := (t, bytes) :: w.staging })
      else some (.ok false, w)
  | .releaseStaging bytes, _ => some ((), { w with
      reservedStagingBytes := w.reservedStagingBytes - bytes
      staging := w.staging.erase (t, bytes) })
  | .destroyReservation o, _ =>
    if w.referenced o then none
    else (w.objects o).map fun x => ((), w.put o (releaseReservation w.resources x))
  | .destroyObject o, _ => (w.objects o).map fun x => ((), { w with
      resources := eraseDestination w.resources x
      objects := Function.update w.objects o none })
  | .external _, x => some (match x.error with
    | some error => .error error
    | none => .ok x.value, w)

/-- Requests, reaper and destructors on one broker; a disturbance is `Shutdown`. -/
def system (config : Config) : System interface World Task where
  Choice := Choice
  Disturbance := Unit
  perform t w c x := perform t w c x
  disturb w _ := some { w with stopping := true }
  body t := t.body config

/-! ## The accounts of a broker -/

structure Accounts (w : World) : Prop where
  bounded : Bounded w.resources
  reserved : w.resources.reserved.toNat = ∑ o ∈ Finset.range w.allocated, shareOf (w.objects o)
  active : w.resources.active.toNat = ∑ o ∈ Finset.range w.allocated, holdsOf (w.objects o)
  destinations : ∀ h, h ∈ w.resources.destinations ↔ ∃ o, destinationOf (w.objects o) = some h
  unique : ∀ o o' h, destinationOf (w.objects o) = some h → destinationOf (w.objects o') = some h → o = o'
  fresh : ∀ o, w.allocated ≤ o → w.objects o = none

section Accounts

variable {w : World} {o : Object} {r : Resources} {b : Option Transaction}

theorem sum_update (f : Option Transaction → ℕ) (objects : Object → Option Transaction) {n : ℕ} (ho : o < n) :
    ∑ i ∈ Finset.range n, f (Function.update objects o b i) + f (objects o) =
      ∑ i ∈ Finset.range n, f (objects i) + f b := by
  have hmem : o ∈ Finset.range n := Finset.mem_range.2 ho
  have hold : f (objects o) + ∑ i ∈ (Finset.range n).erase o, f (objects i) =
      ∑ i ∈ Finset.range n, f (objects i) := Finset.add_sum_erase _ (fun i => f (objects i)) hmem
  have hnew : f b + ∑ i ∈ (Finset.range n).erase o, f (objects i) =
      ∑ i ∈ Finset.range n, f (Function.update objects o b i) := by
    rw [← Finset.add_sum_erase _ _ hmem, Function.update_self]
    refine congrArg (f b + ·) (Finset.sum_congr rfl fun i hi => ?_)
    rw [Function.update_of_ne (Finset.ne_of_mem_erase hi)]
  omega

theorem Accounts.fits (h : Accounts w) (ho : o < w.allocated) : Fits w.resources (w.objects o) := by
  have hmem : o ∈ Finset.range w.allocated := Finset.mem_range.2 ho
  refine ⟨h.bounded, ?_, ?_, fun handle hh => (h.destinations handle).2 ⟨o, hh⟩⟩
  · rw [h.reserved]
    exact Finset.single_le_sum (f := fun o => shareOf (w.objects o)) (fun _ _ => Nat.zero_le _) hmem
  · rw [h.active]
    exact Finset.single_le_sum (f := fun o => holdsOf (w.objects o)) (fun _ _ => Nat.zero_le _) hmem

/-- One object changes, and the counters with it. -/
theorem Accounts.update (h : Accounts w) (ho : o < w.allocated) (hadjusts : Adjusts w.resources (w.objects o) r b) :
    Accounts { w with resources := r, objects := Function.update w.objects o b } := by
  have hother : ∀ o' handle, o' ≠ o →
      (destinationOf (Function.update w.objects o b o') = some handle ↔ destinationOf (w.objects o') = some handle) := by
    intro o' handle hne
    rw [Function.update_of_ne hne]
  refine ⟨hadjusts.bounded, ?_, ?_, fun handle => ?_, fun o₁ o₂ handle h₁ h₂ => ?_, fun o' ho' => ?_⟩
  · have := sum_update (b := b) shareOf w.objects ho
    have := hadjusts.reserved
    have := h.reserved
    dsimp only
    omega
  · have := sum_update (b := b) holdsOf w.objects ho
    have := hadjusts.active
    have := h.active
    dsimp only
    omega
  · rw [hadjusts.destinations handle, h.destinations handle]
    constructor
    · rintro (⟨⟨o', ho'⟩, hne⟩ | hb)
      · have : o' ≠ o := by
          rintro rfl
          exact hne ho'
        exact ⟨o', (hother o' handle this).2 ho'⟩
      · exact ⟨o, by simpa using hb⟩
    · rintro ⟨o', ho'⟩
      by_cases hsame : o' = o
      · subst hsame
        exact .inr (by simpa using ho')
      · have ho'' := (hother o' handle hsame).1 ho'
        refine .inl ⟨⟨o', ho''⟩, fun hh => hsame (h.unique o' o handle ho'' hh)⟩
  · -- a handle that the object claims was its own or nobody's
    have hclaim : ∀ o', o' ≠ o → destinationOf (w.objects o') = some handle → destinationOf b ≠ some handle := by
      intro o' hne ho' hb
      rcases hadjusts.claimed handle hb with hown | hfree
      · exact hne (h.unique o' o handle ho' hown)
      · exact hfree ((h.destinations handle).2 ⟨o', ho'⟩)
    by_cases hs₁ : o₁ = o <;> by_cases hs₂ : o₂ = o
    · exact hs₁.trans hs₂.symm
    · subst hs₁
      exact absurd (by simpa using h₁) (hclaim o₂ hs₂ ((hother o₂ handle hs₂).1 h₂))
    · subst hs₂
      exact absurd (by simpa using h₂) (hclaim o₁ hs₁ ((hother o₁ handle hs₁).1 h₁))
    · exact h.unique o₁ o₂ handle ((hother o₁ handle hs₁).1 h₁) ((hother o₂ handle hs₂).1 h₂)
  · have hne : o' ≠ o := by
      rintro rfl
      exact absurd ho (Nat.not_lt.2 ho')
    dsimp only
    rw [Function.update_of_ne hne]
    exact h.fresh o' ho'

theorem Accounts.congr {w' : World} (h : Accounts w) (hresources : w'.resources = w.resources)
    (hobjects : w'.objects = w.objects) (hallocated : w'.allocated = w.allocated) : Accounts w' := by
  refine ⟨?_, ?_, ?_, ?_, ?_, ?_⟩
  · rw [hresources]
    exact h.bounded
  · rw [hresources, hobjects, hallocated]
    exact h.reserved
  · rw [hresources, hobjects, hallocated]
    exact h.active
  · rw [hresources, hobjects]
    exact h.destinations
  · rw [hobjects]
    exact h.unique
  · rw [hobjects, hallocated]
    exact h.fresh

/-- A new object holds nothing. -/
theorem Accounts.create (h : Accounts w) (t : Task) (id : String) : Accounts (w.create t id) := by
  have hnone := h.fresh w.allocated (Nat.le_refl _)
  have hgrow : Accounts { w with allocated := w.allocated + 1 } := by
    refine ⟨h.bounded, ?_, ?_, h.destinations, h.unique, fun o ho => h.fresh o (Nat.le_of_succ_le ho)⟩
    · rw [Finset.sum_range_succ, hnone, ← h.reserved]
      rfl
    · rw [Finset.sum_range_succ, hnone, ← h.active]
      rfl
  have hfits : Fits w.resources (w.objects w.allocated) := hgrow.fits (Nat.lt_succ_self _)
  have hadjusts : Adjusts w.resources (w.objects w.allocated) w.resources (some Transaction.initial) := by
    rw [hnone] at hfits ⊢
    exact hfits.unchanged rfl rfl rfl
  exact (hgrow.update (Nat.lt_succ_self _) hadjusts).congr rfl rfl rfl

end Accounts

/-! ## At rest and at work -/

/-- A transaction that nobody works on. -/
structure Rest (x : Transaction) : Prop where
  new : x.state = .new → Fresh x
  released : x.released = true → x.state = .aborting ∨ x.state.terminal = true
  aborted : x.state = .aborted → x.hasPendingCleanup = false → x.resources = true → x.publication = none

structure Coherent (w : World) : Prop where
  accounts : Accounts w
  releases : ∀ o x, w.objects o = some x → x.releases = if x.released then 1 else 0
  exists' : ∀ o, w.referenced o = true → o < w.allocated ∧ (w.objects o).isSome = true
  locks : ∀ o t, w.locked o = some t → (t, o) ∈ w.handles
  rest : ∀ o x, w.objects o = some x → w.locked o = none → w.referenced o = true → Rest x
  staging : w.reservedStagingBytes.toNat = (w.staging.map (·.2.toNat)).sum % 2 ^ 64

/-- What a task may ask of the broker. -/
def Permitted (t : Task) (w : World) : Call → Prop
  | .pushTerminal _ o | .lock o | .tryLock o => (t, o) ∈ w.handles
  | .drop o => w.locked o ≠ some t
  | .unlock o => w.locked o = some t ∧ ∀ x, w.objects o = some x → Rest x
  | .get o | .change o _ | .releaseReservation o => w.locked o = some t
  | .prepareTransfer o _ _ _ => w.locked o = some t ∧ ∀ x, w.objects o = some x → Fresh x
  | .reserve o _ => w.locked o = some t ∧ ∀ x, w.objects o = some x → x.released = false
  | .releaseStaging bytes => (t, bytes) ∈ w.staging
  | .destroyReservation o => t = .destroy o
  | .destroyObject o => t = .destroy o ∧ w.referenced o = false ∧ ∀ x, w.objects o = some x → x.holds = false
  | .createOrGetTransaction _ | .findTransaction _ | .transactionSnapshot | .eraseTransaction _ _ | .popTerminal
  | .reserveStaging _ | .external _ => True

def guarantee (t : Task) (w : World) (c : Call) (a : c.Answer) (w' : World) : Prop :=
  Permitted t w c ∧ ∃ x, perform t w c x = some (a, w')

/-- What the others leave alone. -/
structure Rely (t : Task) (w w' : World) : Prop where
  locked : ∀ o, w'.locked o = some t ↔ w.locked o = some t
  objects : ∀ o, w.locked o = some t → w'.objects o = w.objects o
  handles : ∀ o, w'.handles.count (t, o) = w.handles.count (t, o)
  staging : ∀ b, w'.staging.count (t, b) = w.staging.count (t, b)
  destroyed : ∀ o, t = .destroy o → o < w.allocated → w.referenced o = false →
    w'.referenced o = false ∧ w'.objects o = w.objects o
  allocated : w.allocated ≤ w'.allocated

theorem Rely.refl (t : Task) (w : World) : Rely t w w :=
  ⟨fun _ => .rfl, fun _ _ => rfl, fun _ => rfl, fun _ => rfl, fun _ _ _ h => ⟨h, rfl⟩, Nat.le_refl _⟩

theorem Rely.trans {t : Task} {w₁ w₂ w₃ : World} (h : Rely t w₁ w₂) (h' : Rely t w₂ w₃) : Rely t w₁ w₃ := by
  refine ⟨fun o => (h'.locked o).trans (h.locked o), fun o ho => ?_, fun o => (h'.handles o).trans (h.handles o),
    fun b => (h'.staging b).trans (h.staging b), fun o ht ho hunreferenced => ?_, h.allocated.trans h'.allocated⟩
  · exact (h'.objects o ((h.locked o).2 ho)).trans (h.objects o ho)
  · obtain ⟨h₂, hsame⟩ := h.destroyed o ht ho hunreferenced
    obtain ⟨h₃, hsame'⟩ := h'.destroyed o ht (ho.trans_le h.allocated) h₂
    exact ⟨h₃, hsame'.trans hsame⟩

theorem referenced_iff {w : World} {o : Object} :
    w.referenced o = true ↔ (∃ id, (id, o) ∈ w.transactions) ∨ (∃ id, (id, o) ∈ w.terminal) ∨
      ∃ t, (t, o) ∈ w.handles := by
  simp [World.referenced, or_assoc]

theorem referenced_of_handle {w : World} {t : Task} {o : Object} (h : (t, o) ∈ w.handles) : w.referenced o = true :=
  referenced_iff.2 (.inr (.inr ⟨t, h⟩))

section Keeps

variable {t u : Task} {w w' : World} {o : Object}

theorem Coherent.allocated_of_locked (h : Coherent w) (hlocked : w.locked o = some t) : o < w.allocated :=
  (h.exists' o (referenced_of_handle (h.locks o t hlocked))).1

/-- A task works on the object that it has locked. -/
theorem Coherent.work (h : Coherent w) (hlocked : w.locked o = some t) {x : Transaction} (hx : w.objects o = some x)
    {next : Resources × Transaction} (hadjusts : Adjusts w.resources (some x) next.1 (some next.2))
    (hreleases : next.2.releases = if next.2.released then 1 else 0) : Coherent (w.put o next) := by
  have ho := h.allocated_of_locked hlocked
  rw [← hx] at hadjusts
  refine ⟨(h.accounts.update ho hadjusts).congr rfl rfl rfl, fun o' y hy => ?_, fun o' ho' => ?_, h.locks,
    fun o' y hy hfree href => ?_, h.staging⟩
  · by_cases hsame : o' = o
    · subst hsame
      obtain rfl : next.2 = y := by simpa [World.put] using hy
      exact hreleases
    · exact h.releases o' y (by simpa [World.put, Function.update_of_ne hsame] using hy)
  · obtain ⟨hlt, hsome⟩ := h.exists' o' ho'
    refine ⟨hlt, ?_⟩
    by_cases hsame : o' = o
    · subst hsame
      simp [World.put]
    · simpa [World.put, Function.update_of_ne hsame] using hsome
  · have hsame : o' ≠ o := by
      rintro rfl
      rw [show w.locked o' = none from hfree] at hlocked
      cases hlocked
    exact h.rest o' y (by simpa [World.put, Function.update_of_ne hsame] using hy) hfree href

/-- Others rely on it. -/
theorem Coherent.work_rely (h : Coherent w) (hlocked : w.locked o = some t) (hne : u ≠ t)
    (next : Resources × Transaction) : Rely u w (w.put o next) := by
  have hother : ∀ o', w.locked o' = some u → o' ≠ o := by
    rintro o' ho' rfl
    rw [hlocked] at ho'
    exact hne (Option.some.inj ho').symm
  refine ⟨fun _ => .rfl, fun o' ho' => ?_, fun _ => rfl, fun _ => rfl, fun o' _ _ hunref => ⟨hunref, ?_⟩, Nat.le_refl _⟩
  · simp [World.put, Function.update_of_ne (hother o' ho')]
  · have : o' ≠ o := by
      rintro rfl
      have := referenced_of_handle (h.locks o' t hlocked)
      rw [show w.referenced o' = false from hunref] at this
      cases this
    simp [World.put, Function.update_of_ne this]

/-- Only references change, and none to an object that had none. -/
theorem Coherent.refer (h : Coherent w) {handles : List (Task × Object)} {transactions terminal : List (String × Object)}
    (href : ∀ o, World.referenced { w with handles := handles, transactions := transactions, terminal := terminal } o =
      true → w.referenced o = true)
    (hlocks : ∀ o t, w.locked o = some t → (t, o) ∈ handles) :
    Coherent { w with handles := handles, transactions := transactions, terminal := terminal } :=
  ⟨h.accounts.congr rfl rfl rfl, h.releases, fun o ho => h.exists' o (href o ho), hlocks,
    fun o x hx hfree ho => h.rest o x hx hfree (href o ho), h.staging⟩

theorem Coherent.refer_rely {handles : List (Task × Object)} {transactions terminal : List (String × Object)}
    (href : ∀ o, World.referenced { w with handles := handles, transactions := transactions, terminal := terminal } o =
      true → w.referenced o = true)
    (hcount : ∀ o, handles.count (u, o) = w.handles.count (u, o)) :
    Rely u w { w with handles := handles, transactions := transactions, terminal := terminal } := by
  refine ⟨fun _ => .rfl, fun _ _ => rfl, hcount, fun _ => rfl, fun o _ _ hunref => ⟨?_, rfl⟩, Nat.le_refl _⟩
  by_contra hcontra
  have := href o (by simpa using hcontra)
  rw [hunref] at this
  cases this

theorem referenced_hand {items : List (String × Object)} (hitems : ∀ item ∈ items, w.referenced item.2 = true)
    (ho : (w.hand t items).referenced o = true) : w.referenced o = true := by
  rcases referenced_iff.1 ho with h | h | ⟨t', h⟩
  · exact referenced_iff.2 (.inl h)
  · exact referenced_iff.2 (.inr (.inl h))
  · rcases List.mem_append.1 h with h | h
    · obtain ⟨item, hitem, heq⟩ := List.mem_map.1 h
      obtain ⟨_, rfl⟩ := Prod.mk.inj heq
      exact hitems item hitem
    · exact referenced_of_handle h

theorem Coherent.hand (h : Coherent w) {items : List (String × Object)}
    (hitems : ∀ item ∈ items, w.referenced item.2 = true) : Coherent (w.hand t items) :=
  h.refer (fun _ => referenced_hand hitems) fun o t' ho => List.mem_append_right _ (h.locks o t' ho)

theorem count_hand (hne : u ≠ t) (items : List (String × Object)) :
    (w.hand t items).handles.count (u, o) = w.handles.count (u, o) := by
  have : ((items.map fun item => (t, item.2)).count (u, o)) = 0 := by
    refine List.count_eq_zero.2 fun hmem => ?_
    obtain ⟨item, _, heq⟩ := List.mem_map.1 hmem
    exact hne (Prod.mk.inj heq).1.symm
  rw [World.hand, List.count_append, this, Nat.zero_add]

theorem hand_rely {items : List (String × Object)} (hne : u ≠ t)
    (hitems : ∀ item ∈ items, w.referenced item.2 = true) : Rely u w (w.hand t items) :=
  Coherent.refer_rely (fun _ => referenced_hand hitems) fun _ => count_hand hne items

theorem referenced_of_lookup {id : String} (h : w.transactions.lookup id = some o) : w.referenced o = true := by
  refine referenced_iff.2 (.inl ⟨id, ?_⟩)
  obtain ⟨_, _, heq, _⟩ := List.lookup_eq_some_iff.1 h
  rw [heq]
  simp

theorem referenced_create {id : String} (ho : (w.create t id).referenced o = true) :
    w.referenced o = true ∨ o = w.allocated := by
  simp only [World.referenced, World.create, List.any_cons, Bool.or_eq_true, decide_eq_true_eq] at ho ⊢
  tauto

theorem Coherent.create (h : Coherent w) (id : String) : Coherent (w.create t id) := by
  have hold : ∀ o, w.referenced o = true → o ≠ w.allocated := fun o ho =>
    Nat.ne_of_lt (h.exists' o ho).1
  refine ⟨h.accounts.create t id, fun o x hx => ?_, fun o ho => ?_, fun o t' ho => List.mem_cons_of_mem _ (h.locks o t' ho),
    fun o x hx hfree ho => ?_, h.staging⟩
  · by_cases hsame : o = w.allocated
    · subst hsame
      obtain rfl : Transaction.initial = x := by simpa [World.create] using hx
      rfl
    · exact h.releases o x (by simpa [World.create, Function.update_of_ne hsame] using hx)
  · rcases referenced_create ho with href | rfl
    · obtain ⟨hlt, hsome⟩ := h.exists' o href
      refine ⟨Nat.lt_succ_of_lt hlt, ?_⟩
      simpa [World.create, Function.update_of_ne (hold o href)] using hsome
    · exact ⟨Nat.lt_succ_self _, by simp [World.create]⟩
  · rcases referenced_create ho with href | rfl
    · exact h.rest o x (by simpa [World.create, Function.update_of_ne (hold o href)] using hx) hfree href
    · obtain rfl : Transaction.initial = x := by simpa [World.create] using hx
      exact ⟨fun _ => ⟨rfl, rfl, rfl⟩, nofun, nofun⟩

theorem Coherent.create_rely (h : Coherent w) (hne : u ≠ t) (id : String) : Rely u w (w.create t id) := by
  refine ⟨fun _ => .rfl, fun o ho => ?_, fun o => ?_, fun _ => rfl, fun o _ hlt hunref => ⟨?_, ?_⟩, Nat.le_succ _⟩
  · have := h.allocated_of_locked ho
    simp [World.create, Function.update_of_ne (Nat.ne_of_lt this)]
  · have : (t, w.allocated) ≠ (u, o) := fun heq => hne (Prod.mk.inj heq).1.symm
    simp [World.create, List.count_cons_of_ne this]
  · by_contra hcontra
    rcases referenced_create (t := t) (by simpa using hcontra) with href | rfl
    · rw [hunref] at href
      cases href
    · exact absurd hlt (Nat.lt_irrefl _)
  · simp [World.create, Function.update_of_ne (Nat.ne_of_lt hlt)]

theorem Coherent.lock (h : Coherent w) (hhandle : (t, o) ∈ w.handles) :
    Coherent { w with locked := Function.update w.locked o (some t) } := by
  refine ⟨h.accounts.congr rfl rfl rfl, h.releases, h.exists', fun o' t' ho' => ?_, fun o' x hx hfree ho' => ?_, h.staging⟩
  · by_cases hsame : o' = o
    · subst hsame
      obtain rfl : t = t' := by simpa using ho'
      exact hhandle
    · exact h.locks o' t' (by simpa [Function.update_of_ne hsame] using ho')
  · have hsame : o' ≠ o := by
      rintro rfl
      simp at hfree
    exact h.rest o' x hx (by simpa [Function.update_of_ne hsame] using hfree) ho'

theorem lock_rely (hne : u ≠ t) (hfree : w.locked o = none) :
    Rely u w { w with locked := Function.update w.locked o (some t) } := by
  refine ⟨fun o' => ?_, fun _ _ => rfl, fun _ => rfl, fun _ => rfl, fun _ _ _ h => ⟨h, rfl⟩, Nat.le_refl _⟩
  by_cases hsame : o' = o
  · subst hsame
    simp [hfree, hne.symm]
  · simp [Function.update_of_ne hsame]

theorem Coherent.unlock (h : Coherent w) (hrest : ∀ x, w.objects o = some x → Rest x) :
    Coherent { w with locked := Function.update w.locked o none } := by
  refine ⟨h.accounts.congr rfl rfl rfl, h.releases, h.exists', fun o' t' ho' => ?_, fun o' x hx hfree ho' => ?_, h.staging⟩
  · have hsame : o' ≠ o := by
      rintro rfl
      simp at ho'
    exact h.locks o' t' (by simpa [Function.update_of_ne hsame] using ho')
  · by_cases hsame : o' = o
    · subst hsame
      exact hrest x hx
    · exact h.rest o' x hx (by simpa [Function.update_of_ne hsame] using hfree) ho'

theorem unlock_rely (hne : u ≠ t) (hlocked : w.locked o = some t) :
    Rely u w { w with locked := Function.update w.locked o none } := by
  refine ⟨fun o' => ?_, fun _ _ => rfl, fun _ => rfl, fun _ => rfl, fun _ _ _ h => ⟨h, rfl⟩, Nat.le_refl _⟩
  by_cases hsame : o' = o
  · subst hsame
    simp [hlocked, hne.symm]
  · simp [Function.update_of_ne hsame]

/-- Reservations of staging, modulo the width of the counter. -/
theorem Coherent.stage (h : Coherent w) (bytes : UInt64) : Coherent { w with
    reservedStagingBytes := w.reservedStagingBytes + bytes, staging := (t, bytes) :: w.staging } := by
  refine ⟨h.accounts.congr rfl rfl rfl, h.releases, h.exists', h.locks, h.rest, ?_⟩
  have := h.staging
  simp only [UInt64.toNat_add, List.map_cons, List.sum_cons]
  omega

theorem sum_erase {staging : List (Task × UInt64)} {bytes : UInt64} (h : (t, bytes) ∈ staging) :
    (staging.map (·.2.toNat)).sum = bytes.toNat + ((staging.erase (t, bytes)).map (·.2.toNat)).sum := by
  have hperm := (List.perm_cons_erase h).map fun item : Task × UInt64 => item.2.toNat
  rw [hperm.sum_nat]
  simp

theorem Coherent.unstage (h : Coherent w) {bytes : UInt64} (hbytes : (t, bytes) ∈ w.staging) : Coherent { w with
    reservedStagingBytes := w.reservedStagingBytes - bytes, staging := w.staging.erase (t, bytes) } := by
  refine ⟨h.accounts.congr rfl rfl rfl, h.releases, h.exists', h.locks, h.rest, ?_⟩
  have hstaging := h.staging
  have hsum := sum_erase hbytes
  have hlt := bytes.toNat_lt
  simp only [UInt64.toNat_sub]
  omega

theorem releaseReservation_releases {r : Resources} {x : Transaction}
    (h : x.releases = if x.released then 1 else 0) :
    (releaseReservation r x).2.releases = if (releaseReservation r x).2.released then 1 else 0 := by
  simp only [releaseReservation]
  split
  · exact h
  · rename_i hcond
    have : x.released = false := by simp_all
    simp [h, this]

theorem releaseAbortedDestination_fields (r : Resources) (x : Transaction) :
    (releaseAbortedDestination r x).2.releases = x.releases ∧ (releaseAbortedDestination r x).2.released = x.released ∧
      (releaseAbortedDestination r x).2.state = x.state := by
  simp only [releaseAbortedDestination]
  split
  · exact ⟨rfl, rfl, rfl⟩
  · split <;> exact ⟨rfl, rfl, rfl⟩

theorem change_releases (c : Change) (r : Resources) (x : Transaction) :
    (c.apply r x).2.releases = x.releases ∧ (c.apply r x).2.released = x.released := by
  cases c with
  | setState | expire | clearDirectory =>
    obtain ⟨h₁, h₂, _⟩ := releaseAbortedDestination_fields r _
    exact ⟨h₁, h₂⟩
  | ownDirectory | setDescriptor | retain | setGpu | keepIndex | publish | dropIndex => exact ⟨rfl, rfl⟩

theorem prepareTransfer_releases (r : Resources) (x : Transaction) (resources : Bool) (bytes : UInt64)
    (artifact : Option String) (fault : Option Error) :
    (prepareTransfer r x resources bytes artifact fault).2.2.releases = x.releases ∧
      (prepareTransfer r x resources bytes artifact fault).2.2.released = x.released := by
  have hannounce : ∀ y : Transaction, (y.announce artifact).releases = y.releases ∧
      (y.announce artifact).released = y.released := by
    intro y
    cases artifact <;> exact ⟨rfl, rfl⟩
  simp only [prepareTransfer]
  repeat' split
  all_goals first | exact ⟨rfl, rfl⟩ | exact hannounce _

theorem reserve_releases (r : Resources) (x : Transaction) (bytes : UInt64) :
    (reserve r x bytes).2.2.releases = x.releases ∧ (reserve r x bytes).2.2.released = x.released := by
  simp only [reserve]
  repeat' split
  all_goals exact ⟨rfl, rfl⟩

/-- An object that nobody refers to is destroyed in two steps. -/
theorem Coherent.destroyReservation (h : Coherent w) (href : w.referenced o = false) {x : Transaction}
    (hx : w.objects o = some x) : Coherent (w.put o (releaseReservation w.resources x)) := by
  have ho : o < w.allocated := by
    by_contra hge
    rw [h.accounts.fresh o (Nat.le_of_not_lt hge)] at hx
    cases hx
  have hadjusts := adjusts_releaseReservation (hx ▸ h.accounts.fits ho)
  rw [← hx] at hadjusts
  have hne : ∀ o', w.referenced o' = true → o' ≠ o := by
    rintro o' ho' rfl
    rw [href] at ho'
    cases ho'
  refine ⟨(h.accounts.update ho hadjusts).congr rfl rfl rfl, fun o' y hy => ?_, fun o' ho' => ?_, h.locks,
    fun o' y hy hfree ho' => ?_, h.staging⟩
  · by_cases hsame : o' = o
    · subst hsame
      obtain rfl : (releaseReservation w.resources x).2 = y := by simpa [World.put] using hy
      exact releaseReservation_releases (h.releases o' x hx)
    · exact h.releases o' y (by simpa [World.put, Function.update_of_ne hsame] using hy)
  · obtain ⟨hlt, hsome⟩ := h.exists' o' ho'
    exact ⟨hlt, by simpa [World.put, Function.update_of_ne (hne o' ho')] using hsome⟩
  · exact h.rest o' y (by simpa [World.put, Function.update_of_ne (hne o' ho')] using hy) hfree ho'

theorem Coherent.destroyObject (h : Coherent w) (href : w.referenced o = false) {x : Transaction}
    (hx : w.objects o = some x) (hholds : x.holds = false) : Coherent { w with
      resources := eraseDestination w.resources x, objects := Function.update w.objects o none } := by
  have ho : o < w.allocated := by
    by_contra hge
    rw [h.accounts.fresh o (Nat.le_of_not_lt hge)] at hx
    cases hx
  have hadjusts := adjusts_destroy (hx ▸ h.accounts.fits ho) hholds
  rw [← hx] at hadjusts
  have hne : ∀ o', w.referenced o' = true → o' ≠ o := by
    rintro o' ho' rfl
    rw [href] at ho'
    cases ho'
  refine ⟨h.accounts.update ho hadjusts, fun o' y hy => ?_, fun o' ho' => ?_, h.locks,
    fun o' y hy hfree ho' => ?_, h.staging⟩
  · have hsame : o' ≠ o := by
      rintro rfl
      simp at hy
    exact h.releases o' y (by simpa [Function.update_of_ne hsame] using hy)
  · obtain ⟨hlt, hsome⟩ := h.exists' o' ho'
    exact ⟨hlt, by simpa [Function.update_of_ne (hne o' ho')] using hsome⟩
  · exact h.rest o' y (by simpa [Function.update_of_ne (hne o' ho')] using hy) hfree ho'

/-- An object that is being destroyed concerns its destructor only. -/
theorem destroy_rely (h : Coherent w) (hne : u ≠ .destroy o) (href : w.referenced o = false) {r : Resources}
    {b : Option Transaction} : Rely u w { w with resources := r, objects := Function.update w.objects o b } := by
  refine ⟨fun _ => .rfl, fun o' ho' => ?_, fun _ => rfl, fun _ => rfl, fun o' hu _ hunref => ⟨hunref, ?_⟩, Nat.le_refl _⟩
  · have : o' ≠ o := by
      rintro rfl
      have := referenced_of_handle (h.locks o' u ho')
      rw [href] at this
      cases this
    simp [Function.update_of_ne this]
  · have : o' ≠ o := by
      rintro rfl
      exact hne hu
    simp [Function.update_of_ne this]

/-- A permitted call keeps the broker coherent, and the other tasks rely on what it does. -/
theorem perform_kept {c : Call} {a : c.Answer} (h : Coherent w) (hguarantee : guarantee t w c a w') :
    Coherent w' ∧ ∀ u, u ≠ t → Rely u w w' := by
  obtain ⟨hpermitted, choice, hperform⟩ := hguarantee
  have hsame : Coherent w ∧ ∀ u, u ≠ t → Rely u w w := ⟨h, fun u _ => .refl u w⟩
  cases c with
  | createOrGetTransaction id =>
    simp only [perform] at hperform
    split at hperform
    · cases hperform
      exact hsame
    · split at hperform
      · rename_i o ho
        cases hperform
        have hitems : ∀ item ∈ [(id, o)], w.referenced item.2 = true := by
          simpa using referenced_of_lookup ho
        exact ⟨h.hand hitems, fun u hu => hand_rely hu hitems⟩
      · cases hperform
        exact ⟨h.create id, fun u hu => h.create_rely hu id⟩
  | findTransaction id =>
    simp only [perform] at hperform
    split at hperform
    · rename_i o ho
      cases hperform
      have hitems : ∀ item ∈ [(id, o)], w.referenced item.2 = true := by
        simpa using referenced_of_lookup ho
      exact ⟨h.hand hitems, fun u hu => hand_rely hu hitems⟩
    · cases hperform
      exact hsame
  | transactionSnapshot =>
    simp only [perform] at hperform
    split at hperform
    · rename_i hperm
      cases hperform
      have hitems : ∀ item ∈ choice.order, w.referenced item.2 = true := fun item hitem =>
        referenced_iff.2 (.inl ⟨item.1, (List.isPerm_iff.1 hperm).mem_iff.1 hitem⟩)
      exact ⟨h.hand hitems, fun u hu => hand_rely hu hitems⟩
    · cases hperform
  | eraseTransaction id o =>
    cases hperform
    have href : ∀ o', World.referenced { w with transactions := w.transactions.filter (· ≠ (id, o)) } o' = true →
        w.referenced o' = true := by
      intro o' ho'
      rcases referenced_iff.1 ho' with ⟨id', hid⟩ | hterminal | hhandle
      · exact referenced_iff.2 (.inl ⟨id', List.mem_of_mem_filter hid⟩)
      · exact referenced_iff.2 (.inr (.inl hterminal))
      · exact referenced_iff.2 (.inr (.inr hhandle))
    exact ⟨h.refer href h.locks, fun u _ => Coherent.refer_rely href fun _ => rfl⟩
  | pushTerminal id o =>
    cases hperform
    have href : ∀ o', World.referenced { w with terminal := w.terminal ++ [(id, o)] } o' = true →
        w.referenced o' = true := by
      intro o' ho'
      rcases referenced_iff.1 ho' with hregistry | ⟨id', hid⟩ | hhandle
      · exact referenced_iff.2 (.inl hregistry)
      · rcases List.mem_append.1 hid with hid | hid
        · exact referenced_iff.2 (.inr (.inl ⟨id', hid⟩))
        · obtain ⟨_, rfl⟩ := Prod.mk.inj (List.mem_singleton.1 hid)
          exact referenced_of_handle hpermitted
      · exact referenced_iff.2 (.inr (.inr hhandle))
    exact ⟨h.refer href h.locks, fun u _ => Coherent.refer_rely href fun _ => rfl⟩
  | popTerminal =>
    cases hperform
    have hitems : ∀ item ∈ w.terminal.take choice.count, w.referenced item.2 = true := fun item hitem =>
      referenced_iff.2 (.inr (.inl ⟨item.1, List.mem_of_mem_take hitem⟩))
    have href : ∀ o', World.referenced { w.hand t (w.terminal.take choice.count) with
        terminal := w.terminal.drop choice.count } o' = true → w.referenced o' = true := by
      intro o' ho'
      refine referenced_hand (t := t) hitems ?_
      rcases referenced_iff.1 ho' with hregistry | ⟨id', hid⟩ | hhandle
      · exact referenced_iff.2 (.inl hregistry)
      · exact referenced_iff.2 (.inr (.inl ⟨id', List.mem_of_mem_drop hid⟩))
      · exact referenced_iff.2 (.inr (.inr hhandle))
    exact ⟨h.refer href fun o t' ho => List.mem_append_right _ (h.locks o t' ho), fun u hu =>
      Coherent.refer_rely href fun _ => count_hand hu _⟩
  | drop o =>
    cases hperform
    have href : ∀ o', World.referenced { w with handles := w.handles.erase (t, o) } o' = true →
        w.referenced o' = true := by
      intro o' ho'
      rcases referenced_iff.1 ho' with hregistry | hterminal | ⟨t', hhandle⟩
      · exact referenced_iff.2 (.inl hregistry)
      · exact referenced_iff.2 (.inr (.inl hterminal))
      · exact referenced_of_handle (List.mem_of_mem_erase hhandle)
    refine ⟨h.refer href fun o' t' ho' => ?_, fun u hu => Coherent.refer_rely href fun o' => ?_⟩
    · refine (List.mem_erase_of_ne ?_).2 (h.locks o' t' ho')
      rintro heq
      obtain ⟨rfl, rfl⟩ := Prod.mk.inj heq
      exact hpermitted ho'
    · refine List.count_erase_of_ne ?_
      exact fun heq => hu (Prod.mk.inj heq).1
  | lock o =>
    simp only [perform] at hperform
    split at hperform
    · rename_i hfree
      cases hperform
      exact ⟨h.lock hpermitted, fun u hu => lock_rely hu hfree⟩
    · cases hperform
  | tryLock o =>
    simp only [perform] at hperform
    split at hperform
    · rename_i hfree
      cases hperform
      exact ⟨h.lock hpermitted, fun u hu => lock_rely hu hfree⟩
    · cases hperform
      exact hsame
  | unlock o =>
    cases hperform
    exact ⟨h.unlock hpermitted.2, fun u hu => unlock_rely hu hpermitted.1⟩
  | get o =>
    obtain ⟨x, _, heq⟩ := Option.map_eq_some_iff.1 hperform
    cases heq
    exact hsame
  | change o c =>
    obtain ⟨x, hx, heq⟩ := Option.map_eq_some_iff.1 hperform
    cases heq
    have hfits := hx ▸ h.accounts.fits (h.allocated_of_locked hpermitted)
    refine ⟨h.work hpermitted hx (adjusts_change hfits c) ?_, fun u hu => h.work_rely hpermitted hu _⟩
    rw [(change_releases c _ x).1, (change_releases c _ x).2]
    exact h.releases o x hx
  | prepareTransfer o resources bytes artifact =>
    obtain ⟨x, hx, heq⟩ := Option.map_eq_some_iff.1 hperform
    cases heq
    obtain ⟨hlocked, hfresh⟩ := hpermitted
    have hfits := hx ▸ h.accounts.fits (h.allocated_of_locked hlocked)
    refine ⟨h.work hlocked hx (adjusts_prepareTransfer hfits (hfresh x hx) resources bytes artifact _) ?_,
      fun u hu => h.work_rely hlocked hu _⟩
    rw [(prepareTransfer_releases _ x resources bytes artifact _).1,
      (prepareTransfer_releases _ x resources bytes artifact _).2]
    exact h.releases o x hx
  | reserve o bytes =>
    obtain ⟨x, hx, heq⟩ := Option.map_eq_some_iff.1 hperform
    cases heq
    obtain ⟨hlocked, hreleased⟩ := hpermitted
    have hfits := hx ▸ h.accounts.fits (h.allocated_of_locked hlocked)
    refine ⟨h.work hlocked hx (adjusts_reserve hfits (hreleased x hx) bytes) ?_, fun u hu => h.work_rely hlocked hu _⟩
    rw [(reserve_releases _ x bytes).1, (reserve_releases _ x bytes).2]
    exact h.releases o x hx
  | releaseReservation o =>
    obtain ⟨x, hx, heq⟩ := Option.map_eq_some_iff.1 hperform
    cases heq
    have hfits := hx ▸ h.accounts.fits (h.allocated_of_locked hpermitted)
    exact ⟨h.work hpermitted hx (adjusts_releaseReservation hfits) (releaseReservation_releases (h.releases o x hx)),
      fun u hu => h.work_rely hpermitted hu _⟩
  | reserveStaging bytes =>
    simp only [perform] at hperform
    split at hperform
    · cases hperform
      exact hsame
    · split at hperform
      · cases hperform
        refine ⟨h.stage bytes, fun u hu => ⟨fun _ => .rfl, fun _ _ => rfl, fun _ => rfl, fun b => ?_,
          fun _ _ _ href => ⟨href, rfl⟩, Nat.le_refl _⟩⟩
        exact List.count_cons_of_ne fun heq => hu (Prod.mk.inj heq).1.symm
      · cases hperform
        exact hsame
  | releaseStaging bytes =>
    cases hperform
    refine ⟨h.unstage hpermitted, fun u hu => ⟨fun _ => .rfl, fun _ _ => rfl, fun _ => rfl, fun b => ?_,
      fun _ _ _ href => ⟨href, rfl⟩, Nat.le_refl _⟩⟩
    exact List.count_erase_of_ne fun heq => hu (Prod.mk.inj heq).1
  | destroyReservation o =>
    simp only [perform] at hperform
    split at hperform
    · cases hperform
    · rename_i href
      have href : w.referenced o = false := by simpa using href
      obtain ⟨x, hx, heq⟩ := Option.map_eq_some_iff.1 hperform
      cases heq
      exact ⟨h.destroyReservation href hx, fun u hu => destroy_rely h (hpermitted ▸ hu) href⟩
  | destroyObject o =>
    obtain ⟨x, hx, heq⟩ := Option.map_eq_some_iff.1 hperform
    cases heq
    obtain ⟨rfl, href, hholds⟩ := hpermitted
    exact ⟨h.destroyObject href hx (hholds x hx), fun u hu => destroy_rely h hu href⟩
  | external e =>
    cases hperform
    exact hsame

end Keeps

end PageBroker
