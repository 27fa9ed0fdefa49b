import Snapshot.PodSnapshotReconciler

/-! The world of a PodSnapshot pass: the API server with the caches of the operator, and what
users, the source pod, the node agent and artifact maintenance do between two calls. Passes over
one request never overlap. -/
namespace PodSnapshot

open ApiObjects Interleaving VersionedServer

structure Cluster where
  snapshots : Collection SnapshotBody
  contents : Collection ContentBody
  pods : Collection PodBody

inductive Kind where
  | snapshots | contents | pods
  deriving DecidableEq

structure World where
  api : Server Cluster Kind
  /-- The UID of the PodSnapshot and of the content, for every content a pass has created. -/
  created : List (String × String)
  /-- The PodSnapshot that the last pass read. -/
  pass : Option Snap
  /-- What the last pass read directly of the source pod. -/
  podRead : Option (Except ApiError Pod)

structure Choice where
  delivery : Delivery
  time : ℕ
  uid : String

def answered : Choice := ⟨.answered, 0, ""⟩

namespace World

variable (cfg : Config) (w : World) (x : Choice)

def nextVersion : ℕ := w.api.version + 1

def snapshot : Option Snap := w.api.current.snapshots.get cfg.name

/-- A write to one kind of objects. -/
def writeSnapshots (r : Except ApiError (Collection SnapshotBody)) : Except ApiError Cluster :=
  r.map fun snapshots => { w.api.current with snapshots := snapshots }

def writeContents (r : Except ApiError (Collection ContentBody)) : Except ApiError Cluster :=
  r.map fun contents => { w.api.current with contents := contents }

def writePods (r : Except ApiError (Collection PodBody)) : Except ApiError Cluster :=
  r.map fun pods => { w.api.current with pods := pods }

def request (r : Except ApiError Cluster) : Except ApiError Unit × World :=
  ((deliver w.api x.delivery r).1, { w with api := (deliver w.api x.delivery r).2 })

def getSnapshot : Except ApiError Snap × World :=
  let r := lookup x.delivery ((w.api.view .snapshots).snapshots.get cfg.name)
  (r, { w with pass := r.toOption, podRead := none })

def readPod (name : String) : Except ApiError Pod × World :=
  let r := lookup x.delivery (w.api.current.pods.get name)
  (r, { w with podRead := some r })

def updateFinalizers (version : ℕ) (finalizers : List String) : Except ApiError Unit × World :=
  w.request x (w.writeSnapshots (w.api.current.snapshots.update w.nextVersion cfg.name (some version)
    fun o => (finalizers, o.body)))

def updateStatus (version : ℕ) (status : Status) : Except ApiError Unit × World :=
  w.request x (w.writeSnapshots (w.api.current.snapshots.update w.nextVersion cfg.name (some version)
    fun o => (o.finalizers, { o.body with status := status })))

def createdContents (name : String) (finalizers : List String) (body : ContentBody) :
    Except ApiError Cluster :=
  w.writeContents (w.api.current.contents.create w.nextVersion name x.uid finalizers body)

def createContent (name : String) (finalizers : List String) (body : ContentBody) :
    Except ApiError Unit × World :=
  let r := w.createdContents x name finalizers body
  ((w.request x r).1,
    { (w.request x r).2 with
      created :=
        match r, x.delivery with
        | .ok _, .answered | .ok _, .lost => (body.snapshotRef.uid, x.uid) :: w.created
        | _, _ => w.created })

def deleteContent (name : String) : Except ApiError Unit × World :=
  w.request x (w.writeContents (w.api.current.contents.delete w.nextVersion name none x.time))

end World

def perform (cfg : Config) (w : World) : (c : Call) → Choice → c.Answer × World
  | .getSnapshot, x => w.getSnapshot cfg x
  | .getContent name, x => (lookup x.delivery ((w.api.view .contents).contents.get name), w)
  | .getPod name, x => (lookup x.delivery ((w.api.view .pods).pods.get name), w)
  | .readContent name, x => (lookup x.delivery (w.api.current.contents.get name), w)
  | .readPod name, x => w.readPod x name
  | .updateFinalizers version finalizers, x => w.updateFinalizers cfg x version finalizers
  | .updateStatus version status, x => w.updateStatus cfg x version status
  | .createContent name finalizers body, x => w.createContent x name finalizers body
  | .deleteContent name, x => w.deleteContent x name
  | .now, x => (x.time, w)

/-- The calls that write nothing. -/
def Call.reads : Call → Bool
  | getSnapshot | getContent _ | getPod _ | readContent _ | readPod _ | now => true
  | _ => false

theorem perform_reads (cfg : Config) {c : Call} (h : c.reads = true) (w : World) (x : Choice) :
    (perform cfg w c x).2.api = w.api ∧ (perform cfg w c x).2.created = w.created := by
  cases c <;> first | exact ⟨rfl, rfl⟩ | cases h

def Pod.terminal (pod : Pod) : Bool := pod.body.phase = .succeeded || pod.body.phase = .failed || pod.deleting

inductive Disturbance where
  | createSnapshot (uid podName podUID : String) (containers finalizers : List String)
  | deleteSnapshot (time : ℕ)
  /-- Any update of metadata; only the operator removes its own finalizer. -/
  | updateSnapshot (finalizers : List String)
  /-- A pod that terminates gracefully is one with a finalizer. -/
  | createPod (name uid : String) (finalizers : List String) (body : PodBody)
  | updatePod (name : String) (finalizers : List String) (body : PodBody)
  | deletePod (name : String) (time : ℕ)
  | contentReady (name reason message : String)
  | contentFailed (name reason message : String)
  /-- Artifact maintenance changes the finalizers of a content. -/
  | updateContent (name : String) (finalizers : List String)
  | advance (kind : Kind) (version : ℕ)

/-- The pod that a content captures, while it can still be captured. -/
def Cluster.sourceAlive (x : Cluster) (content : Content) : Bool :=
  match x.pods.get content.body.podName with
  | some pod => pod.uid = content.body.podUID && !Pod.terminal pod
  | none => false

namespace World

variable (w : World)

def accept : Except ApiError Cluster → Option World
  | .error _ => none
  | .ok x => some { w with api := w.api.write x }

/-- The agent writes Ready before the source pod becomes terminal or is deleted, and never on a
content that has failed. -/
def contentReady (name reason message : String) : Option World :=
  match w.api.current.contents.get name with
  | none => none
  | some content =>
    if isTrue content.body.failed || !w.api.current.sourceAlive content then none
    else w.accept (w.writeContents (w.api.current.contents.update w.nextVersion name none
      fun o => (o.finalizers, { o.body with ready := some ⟨true, reason, message⟩ })))

def contentFailed (name reason message : String) : Option World :=
  match w.api.current.contents.get name with
  | none => none
  | some content =>
    if isTrue content.body.ready || isTrue content.body.failed then none
    else w.accept (w.writeContents (w.api.current.contents.update w.nextVersion name none
      fun o => (o.finalizers, { o.body with failed := some ⟨true, reason, message⟩ })))

/-- A pod does not leave a terminal phase. -/
def updatePod (name : String) (finalizers : List String) (body : PodBody) : Option World :=
  match w.api.current.pods.get name with
  | none => none
  | some pod =>
    if (pod.body.phase = .succeeded ∨ pod.body.phase = .failed) ∧ body.phase ≠ pod.body.phase then none
    else w.accept (w.writePods (w.api.current.pods.update w.nextVersion name none
      fun _ => (finalizers, body)))

end World

def disturb (cfg : Config) (w : World) : Disturbance → Option World
  | .createSnapshot uid podName podUID containers finalizers =>
    w.accept (w.writeSnapshots (w.api.current.snapshots.create w.nextVersion cfg.name uid finalizers
      ⟨podName, podUID, containers, ⟨none, none, none⟩⟩))
  | .deleteSnapshot time =>
    w.accept (w.writeSnapshots (w.api.current.snapshots.delete w.nextVersion cfg.name none time))
  | .updateSnapshot finalizers =>
    w.accept (w.writeSnapshots (w.api.current.snapshots.update w.nextVersion cfg.name none fun o =>
      (if podSnapshotFinalizer ∈ o.finalizers then podSnapshotFinalizer :: finalizers
        else finalizers, o.body)))
  | .createPod name uid finalizers body =>
    w.accept (w.writePods (w.api.current.pods.create w.nextVersion name uid finalizers body))
  | .updatePod name finalizers body => w.updatePod name finalizers body
  | .deletePod name time =>
    w.accept (w.writePods (w.api.current.pods.delete w.nextVersion name none time))
  | .contentReady name reason message => w.contentReady name reason message
  | .contentFailed name reason message => w.contentFailed name reason message
  | .updateContent name finalizers =>
    w.accept (w.writeContents (w.api.current.contents.update w.nextVersion name none
      fun o => (finalizers, o.body)))
  | .advance kind version => (w.api.advance kind version).map fun api => { w with api := api }

def system (cfg : Config) : System interface World Unit where
  Choice := Choice
  Disturbance := Disturbance
  perform _ w c x := some (perform cfg w c x)
  disturb := disturb cfg
  body _ := do
    let _ ← reconcile cfg
    pure ()

/-! ## What the steps of the API server do -/

/-- One write: at most one kind of objects takes a step. -/
structure ClusterStep (version : ℕ) (x y : Cluster) : Prop where
  snapshots : Collection.Step version x.snapshots y.snapshots
  contents : Collection.Step version x.contents y.contents
  pods : Collection.Step version x.pods y.pods

structure Tidied (api : Server Cluster Kind) : Prop where
  snapshots : Tidy Cluster.snapshots api
  contents : Tidy Cluster.contents api
  pods : Tidy Cluster.pods api

theorem Tidied.write {api : Server Cluster Kind} (h : Tidied api) {x : Cluster}
    (hstep : ClusterStep (api.version + 1) api.current x) : Tidied (api.write x) :=
  ⟨h.snapshots.write hstep.snapshots, h.contents.write hstep.contents, h.pods.write hstep.pods⟩

/-- Nothing has been created by a pass, and every object carries an assigned UID and the first
version; a binding that is recorded already is the one the controller records. -/
structure World.Initial (cfg : Config) (w : World) : Prop where
  api : w.api = Server.start w.api.current
  snapshots : Collection.Fresh w.api.current.snapshots
  contents : Collection.Fresh w.api.current.contents
  pods : Collection.Fresh w.api.current.pods
  bound : ∀ s, w.snapshot cfg = some s → s.body.status.boundContentName = none ∨
    s.body.status.boundContentName = some (podSnapshotContentName s.uid)
  created : w.created = []

theorem World.Initial.tidied {cfg : Config} {w : World} (h : w.Initial cfg) : Tidied w.api := by
  rw [h.api]
  exact ⟨tidy_start h.snapshots, tidy_start h.contents, tidy_start h.pods⟩

theorem writeSnapshots_ok {w : World} {r : Except ApiError (Collection SnapshotBody)} {x : Cluster}
    (h : w.writeSnapshots r = .ok x) :
    ∃ y, r = .ok y ∧ x = { w.api.current with snapshots := y } := by
  cases r with
  | error e => cases h
  | ok y =>
    cases h
    exact ⟨y, rfl, rfl⟩

theorem writeContents_ok {w : World} {r : Except ApiError (Collection ContentBody)} {x : Cluster}
    (h : w.writeContents r = .ok x) :
    ∃ y, r = .ok y ∧ x = { w.api.current with contents := y } := by
  cases r with
  | error e => cases h
  | ok y =>
    cases h
    exact ⟨y, rfl, rfl⟩

theorem writePods_ok {w : World} {r : Except ApiError (Collection PodBody)} {x : Cluster}
    (h : w.writePods r = .ok x) : ∃ y, r = .ok y ∧ x = { w.api.current with pods := y } := by
  cases r with
  | error e => cases h
  | ok y =>
    cases h
    exact ⟨y, rfl, rfl⟩

theorem accept_cases {w w' : World} {r : Except ApiError Cluster} (h : w.accept r = some w') :
    ∃ x, r = .ok x ∧ w' = { w with api := w.api.write x } := by
  cases r with
  | error e => cases h
  | ok x =>
    cases h
    exact ⟨x, rfl, rfl⟩

/-- Other clients only write; what passes have done stays on record. -/
theorem disturb_extends {cfg : Config} {w w' : World} {d : Disturbance}
    (h : disturb cfg w d = some w') :
    w.api.Extends w'.api ∧ w'.created = w.created ∧ w'.pass = w.pass ∧ w'.podRead = w.podRead := by
  have accepted : ∀ {r : Except ApiError Cluster}, w.accept r = some w' →
      w.api.Extends w'.api ∧ w'.created = w.created ∧ w'.pass = w.pass ∧ w'.podRead = w.podRead := by
    intro r hr
    obtain ⟨x, _, rfl⟩ := accept_cases hr
    exact ⟨w.api.extends_write x, rfl, rfl, rfl⟩
  cases d with
  | updatePod name finalizers body =>
    simp only [disturb, World.updatePod] at h
    split at h
    · cases h
    · split at h
      · cases h
      · exact accepted h
  | contentReady name reason message =>
    simp only [disturb, World.contentReady] at h
    split at h
    · cases h
    · split at h
      · cases h
      · exact accepted h
  | contentFailed name reason message =>
    simp only [disturb, World.contentFailed] at h
    split at h
    · cases h
    · split at h
      · cases h
      · exact accepted h
  | advance kind version =>
    simp only [disturb, Option.map_eq_some_iff] at h
    obtain ⟨api, hadvance, rfl⟩ := h
    exact ⟨Server.extends_advance hadvance, rfl, rfl, rfl⟩
  | _ => exact accepted h

section Writes

variable {cfg : Config} {w w' : World} {x : Choice}

theorem request_cases {r : Except ApiError Cluster} {a : Except ApiError Unit}
    (h : w.request x r = (a, w')) :
    (∃ e, a = .error e) ∧ w' = w ∨ ∃ y, r = .ok y ∧ w' = { w with api := w.api.write y } := by
  simp only [World.request] at h
  rcases deliver_cases w.api x.delivery r with ⟨e, he⟩ | ⟨y, b, hy, he⟩
  · rw [he] at h
    cases h
    exact .inl ⟨⟨e, rfl⟩, rfl⟩
  · rw [he] at h
    cases h
    exact .inr ⟨y, hy, rfl⟩

/-- A version-checked write meets the object of that version. -/
theorem updateStatus_cases {version : ℕ} {status : Status} {a : Except ApiError Unit}
    (h : w.updateStatus cfg x version status = (a, w')) :
    w' = w ∨ ∃ s, w.snapshot cfg = some s ∧ s.version = version ∧
      w' = { w with api := w.api.write { w.api.current with
        snapshots := w.api.current.snapshots.put cfg.name
          { s with version := w.nextVersion, body := { s.body with status := status } } } } := by
  rcases request_cases h with ⟨_, rfl⟩ | ⟨y, hy, rfl⟩
  · exact .inl rfl
  · obtain ⟨z, hz, rfl⟩ := writeSnapshots_ok hy
    obtain ⟨s, hs, hversion, rfl⟩ := Collection.step_update hz
    refine .inr ⟨s, hs, ?_, rfl⟩
    simpa [eq_comm] using hversion

theorem updateFinalizers_cases {version : ℕ} {finalizers : List String} {a : Except ApiError Unit}
    (h : w.updateFinalizers cfg x version finalizers = (a, w')) :
    w' = w ∨ ∃ s, w.snapshot cfg = some s ∧ s.version = version ∧
      w' = { w with api := w.api.write { w.api.current with
        snapshots := w.api.current.snapshots.put cfg.name
          { s with version := w.nextVersion, finalizers := finalizers } } } := by
  rcases request_cases h with ⟨_, rfl⟩ | ⟨y, hy, rfl⟩
  · exact .inl rfl
  · obtain ⟨z, hz, rfl⟩ := writeSnapshots_ok hy
    obtain ⟨s, hs, hversion, rfl⟩ := Collection.step_update hz
    refine .inr ⟨s, hs, ?_, rfl⟩
    simpa [eq_comm] using hversion

theorem createContent_cases {name : String} {finalizers : List String} {body : ContentBody}
    {a : Except ApiError Unit} (h : w.createContent x name finalizers body = (a, w')) :
    (∃ e, a = .error e) ∧ w' = w ∨
      w.api.current.contents.get name = none ∧ x.uid ∉ w.api.current.contents.issued ∧
      w' = { w with
        api := w.api.write { w.api.current with
          contents := w.api.current.contents.add name ⟨x.uid, w.nextVersion, none, finalizers, body⟩ }
        created := (body.snapshotRef.uid, x.uid) :: w.created } := by
  simp only [World.createContent, World.request] at h
  cases hr : w.createdContents x name finalizers body with
  | error e =>
    rw [hr] at h
    cases hd : x.delivery <;> rw [hd] at h <;> cases h <;> exact .inl ⟨⟨_, rfl⟩, rfl⟩
  | ok y =>
    rw [hr] at h
    obtain ⟨z, hz, rfl⟩ := writeContents_ok hr
    obtain ⟨hfree, hnew, rfl⟩ := Collection.step_create hz
    cases hd : x.delivery <;> rw [hd] at h <;> cases h
    · exact .inr ⟨hfree, hnew, rfl⟩
    · exact .inl ⟨⟨_, rfl⟩, rfl⟩
    · exact .inr ⟨hfree, hnew, rfl⟩

theorem deleteContent_cases {name : String} {a : Except ApiError Unit}
    (h : w.deleteContent x name = (a, w')) :
    w' = w ∧ (a = .error .notFound ∧ w.api.current.contents.get name = none ∨
        ∃ e, a = .error e ∧ e ≠ .notFound) ∨
      ∃ c, w.api.current.contents.get name = some c ∧
        (c.deleting = true ∧ w' = { w with api := w.api.write w.api.current } ∨
          w' = { w with api := w.api.write { w.api.current with
            contents := w.api.current.contents.put name
              { c with version := w.nextVersion, deletionTimestamp := some x.time } } }) := by
  simp only [World.deleteContent, World.request] at h
  cases hy : w.api.current.contents.delete w.nextVersion name none x.time with
  | error e =>
    rw [hy] at h
    have hfree : w.api.current.contents.get name = none ∧ e = .notFound := by
      simp only [Collection.delete] at hy
      split at hy
      · rename_i hnone
        cases hy
        exact ⟨hnone, rfl⟩
      · simp at hy
        split at hy <;> cases hy
    cases hd : x.delivery <;> rw [hd] at h <;> cases h
    · exact .inl ⟨rfl, .inl ⟨congrArg Except.error hfree.2, hfree.1⟩⟩
    · exact .inl ⟨rfl, .inr ⟨_, rfl, by simp⟩⟩
    · exact .inl ⟨rfl, .inl ⟨congrArg Except.error hfree.2, hfree.1⟩⟩
  | ok y =>
    rw [hy] at h
    obtain ⟨c, hc, _, hcases⟩ := Collection.step_delete hy
    cases hd : x.delivery <;> rw [hd] at h <;> cases h
    · refine .inr ⟨c, hc, ?_⟩
      rcases hcases with ⟨hdeleting, rfl⟩ | rfl
      · exact .inl ⟨hdeleting, rfl⟩
      · exact .inr rfl
    · exact .inl ⟨rfl, .inr ⟨_, rfl, by simp⟩⟩
    · refine .inr ⟨c, hc, ?_⟩
      rcases hcases with ⟨hdeleting, rfl⟩ | rfl
      · exact .inl ⟨hdeleting, rfl⟩
      · exact .inr rfl

end Writes

end PodSnapshot
