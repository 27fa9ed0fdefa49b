import Snapshot.CheckedFold
import Snapshot.SnapshotJobReconciler

/-! The world of a SnapshotJob pass: the API server with the caches of the operator, and what the
Job controller, the PodSnapshot controller and other users do between two calls. Passes over one
request never overlap. -/
namespace SnapshotJob

open ApiObjects Interleaving VersionedServer

structure Cluster where
  snapshotJobs : Collection Body
  jobs : Collection JobBody
  podSnapshots : Collection PodSnapshotBody
  pods : Collection PodBody

inductive Kind where
  | snapshotJobs | jobs | podSnapshots | pods
  deriving DecidableEq

structure World where
  api : Server Cluster Kind
  /-- The SnapshotJob that the last pass read. -/
  pass : Option SJ

structure Choice where
  delivery : Delivery
  time : ℕ
  uid : String

def answered : Choice := ⟨.answered, 0, ""⟩

def emptyStatus : Status := ⟨⟨none, none, none, none⟩, none, none, "", "", ""⟩

namespace Cluster

variable (x : Cluster)

def withSnapshotJobs (r : Except ApiError (Collection Body)) : Except ApiError Cluster :=
  r.map fun y => { x with snapshotJobs := y }

def withJobs (r : Except ApiError (Collection JobBody)) : Except ApiError Cluster :=
  r.map fun y => { x with jobs := y }

def withPodSnapshots (r : Except ApiError (Collection PodSnapshotBody)) : Except ApiError Cluster :=
  r.map fun y => { x with podSnapshots := y }

def withPods (r : Except ApiError (Collection PodBody)) : Except ApiError Cluster :=
  r.map fun y => { x with pods := y }

/-- The server never assigns an empty UID. -/
def createJob (version : ℕ) (name uid : String) (finalizers : List String) (body : JobBody) :
    Except ApiError Cluster :=
  if uid = "" then .error .other
  else x.withJobs (x.jobs.create version name uid finalizers body)

/-- The pods that carry the name of the Job as a label. -/
def podsOf (name : String) : List Pod :=
  (x.pods.objects.toList.filter fun p => p.2.body.jobNameLabel = some name).map fun p => ⟨p.1, p.2⟩

end Cluster

namespace World

variable (cfg : Config) (w : World) (x : Choice)

def nextVersion : ℕ := w.api.version + 1

def snapshotJob : Option SJ := w.api.current.snapshotJobs.get cfg.name

def request (r : Except ApiError Cluster) : Except ApiError Unit × World :=
  ((deliver w.api x.delivery r).1, { w with api := (deliver w.api x.delivery r).2 })

def getSnapshotJob : Except ApiError SJ × World :=
  let r := lookup x.delivery ((w.api.view .snapshotJobs).snapshotJobs.get cfg.name)
  (r, { w with pass := r.toOption })

def getPodSnapshot (direct : Bool) : Except ApiError Snap × World :=
  let shown := if direct then w.api.current else w.api.view .podSnapshots
  (lookup x.delivery (shown.podSnapshots.get cfg.name), w)

def listPods (direct : Bool) : Except ApiError (List Pod) × World :=
  let shown := if direct then w.api.current else w.api.view .pods
  match x.delivery with
  | .answered => (.ok (shown.podsOf cfg.name), w)
  | _ => (.error .other, w)

/-- The answer carries the object with its UID. -/
def createJob (body : JobBody) : Except ApiError Job × World :=
  let r := w.request x (w.api.current.createJob w.nextVersion cfg.name x.uid [] body)
  (r.1.map fun _ => ⟨x.uid, w.nextVersion, none, [], body⟩, r.2)

def createPodSnapshot (body : PodSnapshotBody) : Except ApiError Snap × World :=
  let r := w.request x (w.api.current.withPodSnapshots
    (w.api.current.podSnapshots.create w.nextVersion cfg.name x.uid [] body))
  (r.1.map fun _ => ⟨x.uid, w.nextVersion, none, [], body⟩, r.2)

def deleteJob (uid : String) : Except ApiError Unit × World :=
  w.request x (w.api.current.withJobs (w.api.current.jobs.delete w.nextVersion cfg.name (some uid) x.time))

def patchStatus (patch : StatusPatch) : Except ApiError Unit × World :=
  w.request x (w.api.current.withSnapshotJobs
    (w.api.current.snapshotJobs.update w.nextVersion cfg.name none fun o =>
      (o.finalizers, { o.body with status := patch.apply o.body.status })))

end World

def perform (cfg : Config) (w : World) : (c : Call) → Choice → c.Answer × World
  | .getSnapshotJob, x => w.getSnapshotJob cfg x
  | .getJob, x => (lookup x.delivery ((w.api.view .jobs).jobs.get cfg.name), w)
  | .readJob, x => (lookup x.delivery (w.api.current.jobs.get cfg.name), w)
  | .getPodSnapshot direct, x => w.getPodSnapshot cfg x direct
  | .listPods direct, x => w.listPods cfg x direct
  | .createJob body, x => w.createJob cfg x body
  | .createPodSnapshot body, x => w.createPodSnapshot cfg x body
  | .deleteJob uid, x => w.deleteJob cfg x uid
  | .patchStatus patch, x => w.patchStatus cfg x patch
  | .now, x => (x.time, w)

/-- The calls that write nothing. -/
def Call.reads : Call → Bool
  | getSnapshotJob | getJob | readJob | getPodSnapshot _ | listPods _ | now => true
  | _ => false

theorem perform_reads (cfg : Config) {c : Call} (h : c.reads = true) (w : World) (x : Choice) :
    (perform cfg w c x).2.api = w.api := by
  cases c with
  | listPods direct =>
    simp only [perform, World.listPods]
    split <;> rfl
  | _ => first | rfl | cases h

inductive Disturbance where
  | createSnapshotJob (uid : String) (finalizers : List String) (spec : Spec)
  | deleteSnapshotJob (time : ℕ)
  | updateSnapshotJob (finalizers : List String) (spec : Spec)
  | createJob (uid : String) (finalizers : List String) (body : JobBody)
  | deleteJob (time : ℕ)
  | updateJob (finalizers : List String) (conditions : List JobCondition) (ready : Option ℕ)
  | createPodSnapshot (uid : String) (finalizers : List String) (body : PodSnapshotBody)
  | deletePodSnapshot (time : ℕ)
  | updatePodSnapshot (finalizers : List String) (ready failed : Option PodSnapshot.Condition)
  | createPod (name uid : String) (finalizers : List String) (body : PodBody)
  | deletePod (name : String) (time : ℕ)
  | updatePod (name : String) (finalizers : List String)
      (containerStatuses initContainerStatuses : List ContainerStatus)
  | advance (kind : Kind) (version : ℕ)

def World.accept (w : World) : Except ApiError Cluster → Option World
  | .error _ => none
  | .ok x => some { w with api := w.api.write x }

/-- Users create, update and delete objects of the same names; a controller reference, the labels of
a PodSnapshot and the status of the SnapshotJob are not theirs to change. -/
def disturb (cfg : Config) (w : World) : Disturbance → Option World
  | .createSnapshotJob uid finalizers spec =>
    w.accept (w.api.current.withSnapshotJobs (w.api.current.snapshotJobs.create w.nextVersion cfg.name uid
      finalizers ⟨1, spec, emptyStatus⟩))
  | .deleteSnapshotJob time =>
    w.accept (w.api.current.withSnapshotJobs
      (w.api.current.snapshotJobs.delete w.nextVersion cfg.name none time))
  | .updateSnapshotJob finalizers spec =>
    w.accept (w.api.current.withSnapshotJobs (w.api.current.snapshotJobs.update w.nextVersion cfg.name none
      fun o => (finalizers, { o.body with generation := o.body.generation + 1, spec := spec })))
  | .createJob uid finalizers body =>
    w.accept (w.api.current.createJob w.nextVersion cfg.name uid finalizers body)
  | .deleteJob time =>
    w.accept (w.api.current.withJobs (w.api.current.jobs.delete w.nextVersion cfg.name none time))
  | .updateJob finalizers conditions ready =>
    w.accept (w.api.current.withJobs (w.api.current.jobs.update w.nextVersion cfg.name none
      fun o => (finalizers, { o.body with conditions := conditions, ready := ready })))
  | .createPodSnapshot uid finalizers body =>
    w.accept (w.api.current.withPodSnapshots
      (w.api.current.podSnapshots.create w.nextVersion cfg.name uid finalizers body))
  | .deletePodSnapshot time =>
    w.accept (w.api.current.withPodSnapshots
      (w.api.current.podSnapshots.delete w.nextVersion cfg.name none time))
  | .updatePodSnapshot finalizers ready failed =>
    w.accept (w.api.current.withPodSnapshots (w.api.current.podSnapshots.update w.nextVersion cfg.name none
      fun o => (finalizers, { o.body with ready := ready, failed := failed })))
  | .createPod name uid finalizers body =>
    w.accept (w.api.current.withPods (w.api.current.pods.create w.nextVersion name uid finalizers body))
  | .deletePod name time =>
    w.accept (w.api.current.withPods (w.api.current.pods.delete w.nextVersion name none time))
  | .updatePod name finalizers containerStatuses initContainerStatuses =>
    w.accept (w.api.current.withPods (w.api.current.pods.update w.nextVersion name none
      fun o => (finalizers, { o.body with
        containerStatuses := containerStatuses
        initContainerStatuses := initContainerStatuses })))
  | .advance kind version => (w.api.advance kind version).map fun api => { w with api := api }

def system (cfg : Config) : System interface World Unit where
  Choice := Choice
  Disturbance := Disturbance
  perform _ w c x := some (perform cfg w c x)
  disturb := disturb cfg
  body _ := do
    let _ ← reconcile cfg
    pure ()

/-! ## What a write does -/

def podSnapshotOwner (b : PodSnapshotBody) : Option String × Option String :=
  (b.ownerLabel, b.ownerUIDLabel)

/-- One write, by anyone: one object changes and keeps its immutable part, and a new Job has a UID. -/
structure Move (version : ℕ) (x y : Cluster) : Prop where
  snapshotJobs : Collection.Step version x.snapshotJobs y.snapshotJobs
  jobs : Collection.Step version x.jobs y.jobs
  podSnapshots : Collection.Step version x.podSnapshots y.podSnapshots
  pods : Collection.Step version x.pods y.pods
  jobController : x.jobs.Fixes JobBody.controller y.jobs
  owner : x.podSnapshots.Fixes podSnapshotOwner y.podSnapshots
  podController : x.pods.Fixes PodBody.controller y.pods
  jobUID : (∀ n j, x.jobs.get n = some j → j.uid ≠ "") → ∀ n j, y.jobs.get n = some j → j.uid ≠ ""

section Move

variable {version : ℕ} {x : Cluster}

theorem Move.of_snapshotJobs {y : Collection Body} (h : Collection.Step version x.snapshotJobs y) :
    Move version x { x with snapshotJobs := y } :=
  ⟨h, .same, .same, .same, Collection.fixes_refl _, Collection.fixes_refl _, Collection.fixes_refl _, fun h => h⟩

theorem Move.of_jobs {y : Collection JobBody} (h : Collection.Step version x.jobs y)
    (hkeeps : x.jobs.Fixes JobBody.controller y)
    (huid : (∀ n j, x.jobs.get n = some j → j.uid ≠ "") → ∀ n j, y.get n = some j → j.uid ≠ "") :
    Move version x { x with jobs := y } :=
  ⟨.same, h, .same, .same, hkeeps, Collection.fixes_refl _, Collection.fixes_refl _, huid⟩

theorem Move.of_podSnapshots {y : Collection PodSnapshotBody}
    (h : Collection.Step version x.podSnapshots y) (hkeeps : x.podSnapshots.Fixes podSnapshotOwner y) :
    Move version x { x with podSnapshots := y } :=
  ⟨.same, .same, h, .same, Collection.fixes_refl _, hkeeps, Collection.fixes_refl _, fun h => h⟩

theorem Move.of_pods {y : Collection PodBody} (h : Collection.Step version x.pods y)
    (hkeeps : x.pods.Fixes PodBody.controller y) :
    Move version x { x with pods := y } :=
  ⟨.same, .same, .same, h, Collection.fixes_refl _, Collection.fixes_refl _, hkeeps, fun h => h⟩

theorem Move.of_createJob {y : Cluster} {name uid : String} {finalizers : List String} {body : JobBody}
    (h : x.createJob version name uid finalizers body = .ok y) : Move version x y ∧
      x.jobs.get name = none ∧
      y = { x with jobs := x.jobs.add name ⟨uid, version, none, finalizers, body⟩ } := by
  simp only [Cluster.createJob] at h
  split at h
  · cases h
  · rename_i huid
    obtain ⟨z, hz, rfl⟩ := CheckedFold.map_eq_ok.1 h
    obtain ⟨hfree, hnew, rfl⟩ := Collection.step_create hz
    refine ⟨.of_jobs (.add hfree hnew rfl) (Collection.fixes_add hfree _) ?_, hfree, rfl⟩
    intro hold n j hj
    rcases Collection.get_add hj with ⟨_, rfl⟩ | ⟨_, hj⟩
    · exact huid
    · exact hold n j hj

end Move

/-- A write of another client: the status of the SnapshotJob is what it was, or it is a new one. -/
structure Outside (cfg : Config) (w : World) (x : Cluster) : Prop where
  move : Move w.nextVersion w.api.current x
  status : ∀ t, x.snapshotJobs.get cfg.name = some t →
    (∃ s, w.snapshotJob cfg = some s ∧ s.uid = t.uid ∧ s.body.status = t.body.status) ∨
      w.snapshotJob cfg = none ∧ t.body.status = emptyStatus ∧
        t.uid ∉ w.api.current.snapshotJobs.issued

section Outside

variable {cfg : Config} {w : World}

theorem outside_of_move {x : Cluster} (h : Move w.nextVersion w.api.current x)
    (hsame : x.snapshotJobs = w.api.current.snapshotJobs) : Outside cfg w x := by
  refine ⟨h, fun t ht => .inl ⟨t, ?_, rfl, rfl⟩⟩
  rw [hsame] at ht
  exact ht

theorem outside_putSnapshotJob {s t : SJ} (hs : w.snapshotJob cfg = some s)
    (hstatus : s.body.status = t.body.status) (huid : t.uid = s.uid)
    (hversion : t.version = w.nextVersion) (hdeleting : s.deleting = true → t.deleting = true) :
    Outside cfg w { w.api.current with
      snapshotJobs := w.api.current.snapshotJobs.put cfg.name t } := by
  refine ⟨.of_snapshotJobs (.put hs huid hversion hdeleting), fun r hr => ?_⟩
  rcases Collection.get_put hr with ⟨_, rfl⟩ | ⟨hne, _⟩
  · exact .inl ⟨s, hs, huid.symm, hstatus⟩
  · exact absurd rfl hne

theorem outside_putJob {name : String} {s t : Job} (hs : w.api.current.jobs.get name = some s)
    (hcontroller : s.body.controller = t.body.controller) (huid : t.uid = s.uid)
    (hversion : t.version = w.nextVersion) (hdeleting : s.deleting = true → t.deleting = true) :
    Outside cfg w { w.api.current with jobs := w.api.current.jobs.put name t } := by
  refine outside_of_move (.of_jobs (.put hs huid hversion hdeleting)
    (Collection.fixes_put hs hcontroller) ?_) rfl
  intro hold n j hj
  rcases Collection.get_put hj with ⟨_, rfl⟩ | ⟨_, hj⟩
  · rw [huid]
    exact hold name s hs
  · exact hold n j hj

theorem outside_putPodSnapshot {name : String} {s t : Snap}
    (hs : w.api.current.podSnapshots.get name = some s)
    (howner : podSnapshotOwner s.body = podSnapshotOwner t.body) (huid : t.uid = s.uid)
    (hversion : t.version = w.nextVersion) (hdeleting : s.deleting = true → t.deleting = true) :
    Outside cfg w { w.api.current with podSnapshots := w.api.current.podSnapshots.put name t } :=
  outside_of_move (.of_podSnapshots (.put hs huid hversion hdeleting)
    (Collection.fixes_put hs howner)) rfl

theorem outside_putPod {name : String} {s t : Object PodBody}
    (hs : w.api.current.pods.get name = some s)
    (hcontroller : s.body.controller = t.body.controller) (huid : t.uid = s.uid)
    (hversion : t.version = w.nextVersion) (hdeleting : s.deleting = true → t.deleting = true) :
    Outside cfg w { w.api.current with pods := w.api.current.pods.put name t } :=
  outside_of_move (.of_pods (.put hs huid hversion hdeleting)
    (Collection.fixes_put hs hcontroller)) rfl

/-- A write that leaves everything as it is. -/
theorem outside_same : Outside cfg w w.api.current :=
  outside_of_move (.of_pods .same (Collection.fixes_refl _)) rfl

theorem World.accept_eq_some {w' : World} {r : Except ApiError Cluster} (h : w.accept r = some w') :
    ∃ x, r = .ok x ∧ w' = { w with api := w.api.write x } := by
  cases r with
  | error e => cases h
  | ok x =>
    cases h
    exact ⟨x, rfl, rfl⟩

/-- What other clients do is a write of this kind, or a cache catches up. -/
theorem disturb_cases {w' : World} {d : Disturbance} (h : disturb cfg w d = some w') :
    (∃ x, Outside cfg w x ∧ w' = { w with api := w.api.write x }) ∨
      ∃ kind version api, w.api.advance kind version = some api ∧ w' = { w with api := api } := by
  cases d with
  | createSnapshotJob uid finalizers spec =>
    obtain ⟨x, hx, rfl⟩ := World.accept_eq_some h
    obtain ⟨y, hy, rfl⟩ := CheckedFold.map_eq_ok.1 hx
    obtain ⟨hfree, hnew, rfl⟩ := Collection.step_create hy
    refine .inl ⟨_, ⟨.of_snapshotJobs (.add hfree hnew rfl), fun t ht => ?_⟩, rfl⟩
    rcases Collection.get_add ht with ⟨_, rfl⟩ | ⟨hne, _⟩
    · exact .inr ⟨hfree, rfl, hnew⟩
    · exact absurd rfl hne
  | deleteSnapshotJob time =>
    obtain ⟨x, hx, rfl⟩ := World.accept_eq_some h
    obtain ⟨y, hy, rfl⟩ := CheckedFold.map_eq_ok.1 hx
    obtain ⟨s, hs, _, ⟨_, rfl⟩ | rfl⟩ := Collection.step_delete hy
    · exact .inl ⟨_, outside_same, rfl⟩
    · refine .inl ⟨_, outside_putSnapshotJob hs ?_ ?_ ?_ ?_, rfl⟩
      · rfl
      · rfl
      · rfl
      · exact fun _ => rfl
  | updateSnapshotJob finalizers spec =>
    obtain ⟨x, hx, rfl⟩ := World.accept_eq_some h
    obtain ⟨y, hy, rfl⟩ := CheckedFold.map_eq_ok.1 hx
    obtain ⟨s, hs, _, rfl⟩ := Collection.step_update hy
    refine .inl ⟨_, outside_putSnapshotJob hs ?_ ?_ ?_ ?_, rfl⟩
    · rfl
    · rfl
    · rfl
    · exact fun hdeleting => hdeleting
  | createJob uid finalizers body =>
    obtain ⟨x, hx, rfl⟩ := World.accept_eq_some h
    obtain ⟨hmove, _, rfl⟩ := Move.of_createJob hx
    exact .inl ⟨_, outside_of_move hmove rfl, rfl⟩
  | deleteJob time =>
    obtain ⟨x, hx, rfl⟩ := World.accept_eq_some h
    obtain ⟨y, hy, rfl⟩ := CheckedFold.map_eq_ok.1 hx
    obtain ⟨s, hs, _, ⟨_, rfl⟩ | rfl⟩ := Collection.step_delete hy
    · exact .inl ⟨_, outside_same, rfl⟩
    · refine .inl ⟨_, outside_putJob hs ?_ ?_ ?_ ?_, rfl⟩
      · rfl
      · rfl
      · rfl
      · exact fun _ => rfl
  | updateJob finalizers conditions ready =>
    obtain ⟨x, hx, rfl⟩ := World.accept_eq_some h
    obtain ⟨y, hy, rfl⟩ := CheckedFold.map_eq_ok.1 hx
    obtain ⟨s, hs, _, rfl⟩ := Collection.step_update hy
    refine .inl ⟨_, outside_putJob hs ?_ ?_ ?_ ?_, rfl⟩
    · rfl
    · rfl
    · rfl
    · exact fun hdeleting => hdeleting
  | createPodSnapshot uid finalizers body =>
    obtain ⟨x, hx, rfl⟩ := World.accept_eq_some h
    obtain ⟨y, hy, rfl⟩ := CheckedFold.map_eq_ok.1 hx
    obtain ⟨hfree, hnew, rfl⟩ := Collection.step_create hy
    exact .inl ⟨_, outside_of_move (.of_podSnapshots (.add hfree hnew rfl)
      (Collection.fixes_add hfree _)) rfl, rfl⟩
  | deletePodSnapshot time =>
    obtain ⟨x, hx, rfl⟩ := World.accept_eq_some h
    obtain ⟨y, hy, rfl⟩ := CheckedFold.map_eq_ok.1 hx
    obtain ⟨s, hs, _, ⟨_, rfl⟩ | rfl⟩ := Collection.step_delete hy
    · exact .inl ⟨_, outside_same, rfl⟩
    · refine .inl ⟨_, outside_putPodSnapshot hs ?_ ?_ ?_ ?_, rfl⟩
      · rfl
      · rfl
      · rfl
      · exact fun _ => rfl
  | updatePodSnapshot finalizers ready failed =>
    obtain ⟨x, hx, rfl⟩ := World.accept_eq_some h
    obtain ⟨y, hy, rfl⟩ := CheckedFold.map_eq_ok.1 hx
    obtain ⟨s, hs, _, rfl⟩ := Collection.step_update hy
    refine .inl ⟨_, outside_putPodSnapshot hs ?_ ?_ ?_ ?_, rfl⟩
    · rfl
    · rfl
    · rfl
    · exact fun hdeleting => hdeleting
  | createPod name uid finalizers body =>
    obtain ⟨x, hx, rfl⟩ := World.accept_eq_some h
    obtain ⟨y, hy, rfl⟩ := CheckedFold.map_eq_ok.1 hx
    obtain ⟨hfree, hnew, rfl⟩ := Collection.step_create hy
    exact .inl ⟨_, outside_of_move (.of_pods (.add hfree hnew rfl)
      (Collection.fixes_add hfree _)) rfl, rfl⟩
  | deletePod name time =>
    obtain ⟨x, hx, rfl⟩ := World.accept_eq_some h
    obtain ⟨y, hy, rfl⟩ := CheckedFold.map_eq_ok.1 hx
    obtain ⟨s, hs, _, ⟨_, rfl⟩ | rfl⟩ := Collection.step_delete hy
    · exact .inl ⟨_, outside_same, rfl⟩
    · refine .inl ⟨_, outside_putPod hs ?_ ?_ ?_ ?_, rfl⟩
      · rfl
      · rfl
      · rfl
      · exact fun _ => rfl
  | updatePod name finalizers containerStatuses initContainerStatuses =>
    obtain ⟨x, hx, rfl⟩ := World.accept_eq_some h
    obtain ⟨y, hy, rfl⟩ := CheckedFold.map_eq_ok.1 hx
    obtain ⟨s, hs, _, rfl⟩ := Collection.step_update hy
    refine .inl ⟨_, outside_putPod hs ?_ ?_ ?_ ?_, rfl⟩
    · rfl
    · rfl
    · rfl
    · exact fun hdeleting => hdeleting
  | advance kind version =>
    simp only [disturb, Option.map_eq_some_iff] at h
    obtain ⟨api, hadvance, rfl⟩ := h
    exact .inr ⟨kind, version, api, hadvance, rfl⟩

end Outside

end SnapshotJob
