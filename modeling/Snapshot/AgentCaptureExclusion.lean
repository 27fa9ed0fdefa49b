import Snapshot.AgentCapture
import Snapshot.CheckedFold
import Snapshot.GuardedSection

/-! Exclusive capture of a source pod. The goroutines of all contents interleave with the API server,
whose contents and pods anyone may change, and with the informer cache that lags behind it. The
owner of a pod is read once from the cache; the kill of the pod's containers and the dump come
later. They exclude each other in the runs in which the cache leaves a pod with its owner until the
owner is through. -/
namespace AgentCapture

open ApiObjects Interleaving VersionedServer

/-! ## The system -/

structure Cluster where
  contents : Collection ContentBody
  pods : Collection PodBody

/-- The contents are cached; pods are read directly. -/
abbrev World := Server Cluster Unit

/-- How the requests, the node and the dump fare. -/
structure Choice where
  delivery : Delivery
  artifact : Bool
  readiness : Readiness
  container : Except String ℕ
  capacity : Except String Unit
  dump : Except CaptureFailure Unit

/-- Everything goes well. -/
def Choice.well : Choice := ⟨.answered, false, .ready, .ok 1, .ok (), .ok ()⟩

namespace Cluster

variable (x : Cluster)

def withContents (r : Except ApiError (Collection ContentBody)) : Except ApiError Cluster :=
  r.map fun y => { x with contents := y }

def withPods (r : Except ApiError (Collection PodBody)) : Except ApiError Cluster :=
  r.map fun y => { x with pods := y }

end Cluster

namespace World

variable (w : World)

def cache : Collection ContentBody := (w.view ()).contents

def owner (key : String) : String := captureOwner (cache w) key

def patchContent (x : Choice) (name : String) (read : ℕ) (f : ContentBody → ContentBody) :
    Except ApiError Unit × World :=
  deliver w x.delivery (w.current.withContents
    (w.current.contents.update (w.version + 1) name (some read) fun o => (o.finalizers, f o.body)))

def patchLabel (x : Choice) (key : String) (value : Option String) : Except ApiError Unit × World :=
  deliver w x.delivery (w.current.withPods
    (w.current.pods.update (w.version + 1) key none fun o =>
      (o.finalizers, { o.body with eligible := value })))

end World

def perform (w : World) : (c : Call) → Choice → c.Answer × World
  | .cachedContent name, _ => ((w.cache).get name, w)
  | .getPod key, x => (lookup x.delivery (w.current.pods.get key), w)
  | .patchFailed name version reason message, x =>
    w.patchContent x name version fun b => { b with failed := some ⟨true, reason, message⟩ }
  | .patchReady name version, x =>
    w.patchContent x name version fun b =>
      { b with ready := some ⟨true, "Captured", "Checkpoint captured and verified"⟩ }
  | .getContent name, x => (lookup x.delivery (w.current.contents.get name), w)
  | .artifactPresent .., x => (x.artifact, w)
  | .removeCaptureEligibleLabel pod, x => ((), (w.patchLabel x pod.key none).2)
  | .captureOwnerForPod key, _ => (w.owner key, w)
  | .killRunningContainers _, _ => ((), w)
  | .labelCaptureEligible pod, x => w.patchLabel x pod.key (some "true")
  | .runProbeIfDue .., x => (x.readiness, w)
  | .resolveContainer .., x => (x.container, w)
  | .checkStagingCapacity .., x => (x.capacity, w)
  | .beginCheckpoint _, _ => ((), w)
  | .endCheckpoint _, x => (x.dump, w)

inductive Disturbance where
  | createContent (name uid : String) (finalizers : List String) (body : ContentBody)
  | updateContent (name : String) (finalizers : List String) (body : ContentBody)
  | deleteContent (name : String) (time : ℕ)
  | createPod (key uid : String) (finalizers : List String) (body : PodBody)
  | updatePod (key : String) (finalizers : List String) (body : PodBody)
  | deletePod (key : String) (time : ℕ)
  | advance (version : ℕ)

def World.accept (w : World) : Except ApiError Cluster → Option World
  | .error _ => none
  | .ok x => some (w.write x)

def disturb (w : World) : Disturbance → Option World
  | .createContent name uid finalizers body =>
    w.accept (w.current.withContents
      (w.current.contents.create (w.version + 1) name uid finalizers body))
  | .updateContent name finalizers body =>
    w.accept (w.current.withContents
      (w.current.contents.update (w.version + 1) name none fun _ => (finalizers, body)))
  | .deleteContent name time =>
    w.accept (w.current.withContents (w.current.contents.delete (w.version + 1) name none time))
  | .createPod key uid finalizers body =>
    w.accept (w.current.withPods (w.current.pods.create (w.version + 1) key uid finalizers body))
  | .updatePod key finalizers body =>
    w.accept (w.current.withPods
      (w.current.pods.update (w.version + 1) key none fun _ => (finalizers, body)))
  | .deletePod key time =>
    w.accept (w.current.withPods (w.current.pods.delete (w.version + 1) key none time))
  | .advance version => w.advance () version

/-- The queue runs one goroutine for each content name, and never two for the same. -/
def system (cfg : Config) : System interface World String where
  Choice := Choice
  Disturbance := Disturbance
  perform _ w c x := some (perform w c x)
  disturb := disturb
  body name := do
    let _ ← reconcileCapture cfg name
    pure ()

/-! ## The section of the owner -/

/-- From the check to the end of the kill or of the dump. -/
def Call.section? : Call → Option String
  | killRunningContainers pod | labelCaptureEligible pod | runProbeIfDue pod _
  | resolveContainer pod _ | checkStagingCapacity pod _ => some pod.key
  | beginCheckpoint params | endCheckpoint params => some params.pod.key
  | _ => none

/-- The check lets in the content that it names. -/
def Call.grant (name : String) : (c : Call) → c.Answer → Option String
  | captureOwnerForPod key, (chosen : String) => if chosen = name then some key else none
  | _, _ => none

def ownership : Guard interface String String := ⟨Call.section?, Call.grant⟩

section Guarded

variable {name : String} {held : Option String}

abbrev Guarded {α : Type} (name : String) (p : Pass α) (held : Option String) : Prop :=
  p.Guarded ownership name (fun _ _ => True) held

theorem guarded_done {α : Type} (a : α) : Guarded name (pure a : Pass α) held :=
  Process.guarded_pure trivial

theorem guarded_setSnapshotContentFailed (content : Content) (reason message : String) :
    Guarded name (setSnapshotContentFailed name content reason message) held := by
  refine Process.guarded_bind.2 (Process.guarded_outside rfl fun a => ?_)
  cases a <;> exact guarded_done _

theorem guarded_markCheckpointReadyWithSource (attempts : ℕ) (content : Content) :
    Guarded name (markCheckpointReadyWithSource name attempts content) held := by
  induction attempts generalizing content held with
  | zero => exact guarded_done _
  | succ attempts ih =>
    refine Process.guarded_bind.2 (Process.guarded_outside rfl fun a => ?_)
    split
    · exact guarded_done _
    · refine Process.guarded_bind.2 (Process.guarded_outside rfl fun b => ?_)
      split
      · exact guarded_done _
      · split
        · exact guarded_done _
        · split
          · exact guarded_done _
          · exact ih _
    · exact guarded_done _

theorem guarded_recoverCommittedArtifact {content : Content} {containerName artifactPath : String}
    {Q : Option Outcome → Option String → Prop} (h : ∀ a held, Q a held) :
    (recoverCommittedArtifact name content containerName artifactPath).Guarded ownership name Q held := by
  simp only [recoverCommittedArtifact]
  split
  · exact Process.guarded_pure (h _ _)
  · refine Process.guarded_bind.2 (Process.guarded_outside rfl fun a => ?_)
    split
    · exact Process.guarded_pure (h _ _)
    · refine Process.guarded_bind.2 ?_
      exact (guarded_markCheckpointReadyWithSource _ _).mono fun _ _ _ => Process.guarded_pure (h _ _)

theorem guarded_cancelCapture (content : Content) (pod : Pod) (reason message : String) :
    Guarded name (cancelCapture name content pod reason message) held := by
  refine Process.guarded_bind.2 ?_
  refine (guarded_setSnapshotContentFailed content reason message).mono fun outcome held _ => ?_
  refine Process.guarded_bind.2 ?_
  simp only [removeCaptureEligibleLabel]
  split
  · exact Process.guarded_pure (guarded_done _)
  · exact Process.guarded_outside rfl fun _ => guarded_done _

theorem guarded_runCheckpoint (content : Content) (params : CheckpointParams) :
    Guarded name (runCheckpoint name content params) (some params.pod.key) := by
  refine Process.guarded_bind.2 (Process.guarded_inside rfl fun _ => ?_)
  refine Process.guarded_bind.2 (Process.guarded_inside rfl fun a => ?_)
  split
  · exact guarded_setSnapshotContentFailed content _ _
  · exact guarded_markCheckpointReadyWithSource _ _

theorem guarded_captureReadyContainer (content : Content) (pod : Pod)
    (containerName artifactPath : String) (requested : Bool) :
    Guarded name (captureReadyContainer name content pod containerName artifactPath requested)
      (some pod.key) := by
  simp only [captureReadyContainer]
  split
  · exact guarded_setSnapshotContentFailed content _ _
  · refine Process.guarded_bind.2 (Process.guarded_inside rfl fun a => ?_)
    split
    · exact guarded_setSnapshotContentFailed content _ _
    · refine Process.guarded_bind.2 (Process.guarded_inside rfl fun b => ?_)
      split
      · exact guarded_setSnapshotContentFailed content _ _
      · exact guarded_runCheckpoint content _

theorem guarded_captureLivePod (content : Content) (pod : Pod) (containerName artifactPath : String)
    (requested : Bool) :
    Guarded name (captureLivePod name content pod containerName artifactPath requested)
      (some pod.key) := by
  have labelled : ∀ {Q : Except ApiError Unit → Option String → Prop}, (∀ a, Q a (some pod.key)) →
      (labelCaptureEligible pod).Guarded ownership name Q (some pod.key) := by
    intro Q hQ
    simp only [labelCaptureEligible]
    split
    · exact Process.guarded_pure (hQ _)
    · exact Process.guarded_inside rfl hQ
  refine Process.guarded_bind.2 (labelled fun a => ?_)
  split
  · exact guarded_done _
  · refine Process.guarded_bind.2 (Process.guarded_inside rfl fun b => ?_)
    split
    · exact guarded_setSnapshotContentFailed content _ _
    · exact guarded_done _
    · exact guarded_done _
    · exact guarded_captureReadyContainer content pod _ _ _

theorem guarded_captureOwnedPod (cfg : Config) (content : Content) (pod : Pod)
    (containerName artifactPath : String) :
    Guarded name (captureOwnedPod cfg name content pod containerName artifactPath) (some pod.key) := by
  simp only [captureOwnedPod]
  split
  · refine Process.guarded_bind.2 (Process.guarded_inside rfl fun _ => ?_)
    exact guarded_setSnapshotContentFailed content _ _
  · split
    · exact guarded_cancelCapture content pod _ _
    · split
      · exact guarded_setSnapshotContentFailed content _ _
      · exact guarded_captureLivePod content pod _ _ _

theorem guarded_captureFromPod (cfg : Config) (content : Content) (pod : Pod)
    (containerName artifactPath : String) :
    Guarded name (captureFromPod cfg name content pod containerName artifactPath) held := by
  simp only [captureFromPod]
  split
  · exact guarded_cancelCapture content pod _ _
  · refine Process.guarded_bind.2 (guarded_recoverCommittedArtifact fun a held => ?_)
    split
    · exact guarded_done _
    · refine Process.guarded_bind.2 (Process.guarded_outside rfl fun chosen => ?_)
      split
      · rename_i howner
        simp only [ownership, Call.grant, howner, if_true]
        exact guarded_captureOwnedPod cfg content pod _ _
      · exact guarded_done _

theorem guarded_reconcileCapture (cfg : Config) (name : String) :
    Guarded name (reconcileCapture cfg name) none := by
  refine Process.guarded_bind.2 (Process.guarded_outside rfl fun a => ?_)
  split
  · exact guarded_done _
  · split
    · exact guarded_done _
    · split
      · exact guarded_setSnapshotContentFailed _ _ _
      · split
        · exact guarded_setSnapshotContentFailed _ _ _
        · split
          · exact guarded_setSnapshotContentFailed _ _ _
          · refine Process.guarded_bind.2 (Process.guarded_outside rfl fun b => ?_)
            split
            · exact guarded_captureFromPod cfg _ _ _ _
            · refine Process.guarded_bind.2 (guarded_recoverCommittedArtifact fun c held => ?_)
              split
              · exact guarded_done _
              · exact guarded_setSnapshotContentFailed _ _ _
            · exact guarded_done _

end Guarded

/-! ## Exclusion -/

/-- A cache that catches up leaves a pod with its owner while the owner is in its section. -/
def steady (cfg : Config) (p : Pool interface World String) : (system cfg).Event → Bool
  | .disturb (Disturbance.advance version) =>
    match p.world.advance () version with
    | none => true
    | some (w : World) => (p.world.cache.objects.toList ++ w.cache.objects.toList).all fun o =>
        ownership.section? p (p.world.owner (podKey o.2.body)) ≠ some (podKey o.2.body) ||
          w.owner (podKey o.2.body) = p.world.owner (podKey o.2.body)
  | _ => true

theorem captureOwner_eq_empty {cache : Collection ContentBody} {key : String}
    (h : ∀ o ∈ cache.objects.toList, podKey o.2.body ≠ key) : captureOwner cache key = "" := by
  have hnone : cache.objects.toList.filter (fun o => podRefIndexFunc o.2.body = some key) = [] := by
    rw [List.filter_eq_nil_iff]
    intro o ho
    rw [decide_eq_true_eq, podRefIndexFunc]
    split
    · exact nofun
    · exact fun hkey => h o ho (Option.some.inj hkey)
  rw [captureOwner, hnone]
  rfl

/-- An ownership that changes is that of a pod which some content names before or after. -/
theorem mem_of_owner_ne {x y : Collection ContentBody} {key : String}
    (h : captureOwner y key ≠ captureOwner x key) :
    ∃ o ∈ x.objects.toList ++ y.objects.toList, podKey o.2.body = key := by
  by_contra hnone
  push Not at hnone
  have hx := captureOwner_eq_empty fun o ho => hnone o (List.mem_append_left _ ho)
  have hy := captureOwner_eq_empty fun o ho => hnone o (List.mem_append_right _ ho)
  exact h (hy.trans hx.symm)

theorem perform_cases {w w' : World} {c : Call} {x : Choice} {a : c.Answer}
    (h : perform w c x = (a, w')) : w' = w ∨ ∃ y, w' = w.write y := by
  have delivered : ∀ r, (deliver w x.delivery r).2 = w ∨ ∃ y, (deliver w x.delivery r).2 = w.write y := by
    intro r
    rcases deliver_cases w x.delivery r with ⟨e, he⟩ | ⟨y, b, _, he⟩
    · exact .inl (by rw [he])
    · exact .inr ⟨y, by rw [he]⟩
  have hw : (perform w c x).2 = w' := by rw [h]
  rw [← hw]
  cases c with
  | patchFailed | patchReady | removeCaptureEligibleLabel | labelCaptureEligible => exact delivered _
  | _ => exact .inl rfl

theorem disturb_cases {w w' : World} {d : Disturbance} (h : disturb w d = some w') :
    (∃ y, w' = w.write y) ∨ ∃ version, d = .advance version ∧ w.advance () version = some w' := by
  have accepted : ∀ {r}, w.accept r = some w' → ∃ y, w' = w.write y := by
    intro r hr
    cases r with
    | error e => cases hr
    | ok y =>
      cases hr
      exact ⟨y, rfl⟩
  cases d with
  | advance version => exact .inr ⟨version, rfl, h⟩
  | _ => exact .inl (accepted h)

/-- Only a cache that catches up moves an ownership. -/
theorem step_cases {cfg : Config} {p q : Pool interface World String} {e : (system cfg).Event}
    (h : (system cfg).step p e = some q) : q.world = p.world ∨ (∃ y, q.world = p.world.write y) ∨
      ∃ version, e = .disturb (Disturbance.advance version) ∧
        p.world.advance () version = some q.world := by
  rcases System.step_world h with hsame | ⟨d, rfl, hd⟩ | ⟨t, c, k, x, a, _, hperform⟩
  · exact .inl hsame
  · rcases disturb_cases hd with hwrite | ⟨version, rfl, hadvance⟩
    · exact .inr (.inl hwrite)
    · exact .inr (.inr ⟨version, rfl, hadvance⟩)
  · rcases perform_cases (Option.some.inj hperform) with hsame | hwrite
    · exact .inl hsame
    · exact .inr (.inl hwrite)

/-- The cache shows a state that the server has had, and the guard holds. -/
structure Inv (p : Pool interface World String) : Prop where
  seen : ∀ k, p.world.seen k ≤ p.world.version
  guard : ownership.Holds World.owner p

theorem owner_kept {cfg : Config} {p q : Pool interface World String} {e : (system cfg).Event}
    (h : Inv p) (hsteady : steady cfg p e = true) (hstep : (system cfg).step p e = some q)
    (name key : String) (hsection : ownership.section? p name = some key) :
    World.owner q.world key = name := by
  have howns := h.guard.owns name key hsection
  rcases step_cases hstep with hsame | ⟨y, hwrite⟩ | ⟨version, rfl, hadvance⟩
  · rw [hsame]
    exact howns
  · have hview := Server.view_write (h.seen ()) y
    simp only [World.owner, World.cache] at howns ⊢
    rw [hwrite, hview]
    exact howns
  · simp only [steady, hadvance, List.all_eq_true, Bool.or_eq_true, decide_eq_true_eq] at hsteady
    by_contra hmoved
    obtain ⟨o, ho, rfl⟩ := mem_of_owner_ne (fun heq => hmoved (heq.trans howns))
    rcases hsteady o ho with hout | hkept
    · exact hout (by rw [howns]; exact hsection)
    · exact hmoved (hkept.trans howns)

theorem inv_step {cfg : Config} {p q : Pool interface World String} {e : (system cfg).Event}
    (h : Inv p) (hsteady : steady cfg p e = true) (hstep : (system cfg).step p e = some q) : Inv q := by
  constructor
  · rcases step_cases hstep with hsame | ⟨y, hwrite⟩ | ⟨version, _, hadvance⟩
    · rw [hsame]
      exact h.seen
    · intro k
      rw [hwrite, Server.version_write]
      exact Nat.le_succ_of_le (h.seen k)
    · exact Server.seen_le_advance hadvance h.seen
  · refine Guard.holds_step (fun name => ?_) ?_ h.guard hstep (owner_kept h hsteady hstep)
    · refine Process.guarded_bind.2 ((guarded_reconcileCapture cfg name).mono fun _ _ _ => ?_)
      exact Process.guarded_pure trivial
    · intro name w c x a w' key hperform hgrant
      cases c with
      | captureOwnerForPod key' =>
        cases Option.some.inj hperform
        simp only [ownership, Call.grant] at hgrant
        split at hgrant
        · rename_i howner
          cases hgrant
          exact howner
        · cases hgrant
      | _ => cases hgrant

/-- A content's dump of a pod, from its start to its end. -/
def Dumping (p : Pool interface World String) (name : String) (params : CheckpointParams) : Prop :=
  p.next name = some (.endCheckpoint params)

/-- A content is about to kill the containers of a pod. -/
def Killing (p : Pool interface World String) (name : String) (pod : Pod) : Prop :=
  p.next name = some (.killRunningContainers pod)

/-- In every interleaving of the goroutines, of users and of the cache in which the cache leaves a
pod with its owner while the owner is between its check and the end of its kill or dump: no two
contents dump a pod at the same time, and none kills the containers of a pod that another is
dumping. -/
theorem capture_exclusive (cfg : Config) (x : Cluster) {events : List (system cfg).Event}
    {pool : Pool interface World String}
    (hrun : (system cfg).runWhere (steady cfg) (Pool.idle (Server.start x)) events = some pool) :
    (∀ a b p q, Dumping pool a p → Dumping pool b q → p.pod.key = q.pod.key → a = b) ∧
    ∀ a b pod q, Killing pool a pod → Dumping pool b q → pod.key ≠ q.pod.key := by
  have hstart : Inv (Pool.idle (Server.start x)) := ⟨fun _ => Nat.le_refl _, Guard.holds_idle _⟩
  have hinv := System.runWhere_invariant inv_step hstart hrun
  have inside : ∀ {name c key}, pool.next name = some c → c.section? = some key →
      ownership.section? pool name = some key := by
    intro name c key hnext hsection
    exact Option.bind_eq_some_iff.2 ⟨c, hnext, hsection⟩
  constructor
  · intro a b p q hp hq hkey
    exact hinv.guard.exclusive (inside hp rfl) (inside hq (congrArg some hkey.symm))
  · intro a b pod q hpod hq hkey
    obtain rfl := hinv.guard.exclusive (inside hpod rfl) (inside hq (congrArg some hkey.symm))
    cases hpod.symm.trans hq

namespace Sample

def config : Config := ⟨"node", fun uid container => .ok (uid ++ "/" ++ container), fun _ _ => .ok false⟩

/-- A content of the pod, created in the second `created`. -/
def body (created : ℕ) : ContentBody :=
  ⟨created, "ns", "node", "pod", "p1", ["main"], none, none, none⟩

/-- A content whose source pod is running. -/
def cluster : Cluster where
  contents := .single "b" ⟨"u2", 0, none, [], body 10⟩
  pods := .single "ns/pod" ⟨"p1", 0, none, [], ⟨.running, none, [⟨"main", "id", .running⟩]⟩⟩

/-- A second content appears after the first has begun its dump. Its goroutine is not let in. -/
def waiting : List (system config).Event :=
  [.start "b", .call "b" Choice.well, .call "b" Choice.well, .call "b" Choice.well,
    .call "b" Choice.well, .call "b" Choice.well, .call "b" Choice.well, .call "b" Choice.well,
    .call "b" Choice.well, .call "b" Choice.well, .disturb (.createContent "a" "u1" [] (body 11)),
    .disturb (.advance 2), .start "a", .call "a" Choice.well, .call "a" Choice.well,
    .call "a" Choice.well, .call "a" Choice.well, .finish "a"]

/-- A second content of the same second and with a smaller name appears after the first has begun
its dump. -/
def overtaking : List (system config).Event :=
  [.start "b", .call "b" Choice.well, .call "b" Choice.well, .call "b" Choice.well,
    .call "b" Choice.well, .call "b" Choice.well, .call "b" Choice.well, .call "b" Choice.well,
    .call "b" Choice.well, .call "b" Choice.well, .disturb (.createContent "a" "u1" [] (body 10)),
    .disturb (.advance 2), .start "a", .call "a" Choice.well, .call "a" Choice.well,
    .call "a" Choice.well, .call "a" Choice.well, .call "a" Choice.well, .call "a" Choice.well,
    .call "a" Choice.well, .call "a" Choice.well]

def dump? : Option Call → Option CheckpointParams
  | some (.endCheckpoint params) => some params
  | _ => none

theorem dump?_eq_some {c : Option Call} {params : CheckpointParams} (h : dump? c = some params) :
    c = some (.endCheckpoint params) := by
  unfold dump? at h
  split at h
  · cases h
    rfl
  · cases h

end Sample

/-- The content that dumps the pod is the only one. -/
theorem capture_exclusive_sample :
    ∃ pool p, (system Sample.config).runWhere (steady Sample.config)
        (Pool.idle (Server.start Sample.cluster)) Sample.waiting = some pool ∧
      Dumping pool "b" p ∧ p.pod.key = "ns/pod" ∧
      ∀ name q, Dumping pool name q → q.pod.key = "ns/pod" → name = "b" := by
  have hdump : ((system Sample.config).runWhere (steady Sample.config)
      (Pool.idle (Server.start Sample.cluster)) Sample.waiting).any (fun pool =>
        (Sample.dump? (pool.next "b")).any fun p => p.pod.key = "ns/pod") = true := by decide +kernel
  simp only [Option.any_eq_true, decide_eq_true_eq] at hdump
  obtain ⟨pool, hpool, p, hp, hkey⟩ := hdump
  have hdumping : Dumping pool "b" p := Sample.dump?_eq_some hp
  refine ⟨pool, p, hpool, hdumping, hkey, fun name q hq hqkey => ?_⟩
  exact (capture_exclusive Sample.config Sample.cluster hpool).1 name "b" q p hq hdumping
    (hqkey.trans hkey.symm)

/-- Two contents of the same second dump one pod at the same time. -/
theorem concurrent_dumps :
    ∃ pool p q, (system Sample.config).run (Pool.idle (Server.start Sample.cluster)) Sample.overtaking =
        some pool ∧
      Dumping pool "a" p ∧ Dumping pool "b" q ∧ p.pod.key = q.pod.key ∧
      p.pod.object.uid = q.pod.object.uid := by
  have hbad : ((system Sample.config).run (Pool.idle (Server.start Sample.cluster))
      Sample.overtaking).any (fun pool => (Sample.dump? (pool.next "a")).any fun p =>
        (Sample.dump? (pool.next "b")).any fun q =>
          p.pod.key = q.pod.key && p.pod.object.uid = q.pod.object.uid) = true := by decide +kernel
  simp only [Option.any_eq_true, Bool.and_eq_true, decide_eq_true_eq] at hbad
  obtain ⟨pool, hpool, p, hp, q, hq, hkey, huid⟩ := hbad
  exact ⟨pool, p, q, hpool, Sample.dump?_eq_some hp, Sample.dump?_eq_some hq, hkey, huid⟩

end AgentCapture
