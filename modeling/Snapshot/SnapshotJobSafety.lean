import Snapshot.SnapshotJobSystem

/-! Finality and identity of a SnapshotJob. A pass decides on the copy of the SnapshotJob that it
read from the cache and patches the difference to what it derived. Where that copy shows a verdict
that has been persisted, the verdict is final; where it shows the UIDs that have been persisted and
the SnapshotJob is not replaced meanwhile, the identity of its children is fixed. A copy that does
not show them breaks both. -/
namespace SnapshotJob

open ApiObjects Interleaving OrderedMap Std VersionedServer

/-! ## History -/

structure History (api : Server Cluster Kind) : Prop where
  snapshotJobs : Chronicle Cluster.snapshotJobs (fun _ => ()) api
  jobs : Chronicle Cluster.jobs JobBody.controller api
  podSnapshots : Chronicle Cluster.podSnapshots podSnapshotOwner api
  pods : Chronicle Cluster.pods PodBody.controller api
  jobUID : api.Always fun x => ∀ n j, x.jobs.get n = some j → j.uid ≠ ""

theorem History.write {api : Server Cluster Kind} (h : History api) {x : Cluster}
    (hmove : Move (api.version + 1) api.current x) : History (api.write x) where
  snapshotJobs := h.snapshotJobs.write hmove.snapshotJobs fun _ _ _ _ _ _ => rfl
  jobs := h.jobs.write hmove.jobs hmove.jobController
  podSnapshots := h.podSnapshots.write hmove.podSnapshots hmove.owner
  pods := h.pods.write hmove.pods hmove.podController
  jobUID := h.jobUID.write (hmove.jobUID h.jobUID.current)

theorem History.of_states {api api' : Server Cluster Kind} (h : History api)
    (hpast : api'.past = api.past) (hcurrent : api'.current = api.current) : History api' where
  snapshotJobs := h.snapshotJobs.of_states hpast hcurrent
  jobs := h.jobs.of_states hpast hcurrent
  podSnapshots := h.podSnapshots.of_states hpast hcurrent
  pods := h.pods.of_states hpast hcurrent
  jobUID := h.jobUID.of_states hpast hcurrent

/-- `IsSnapshotJobTerminal` -/
def terminal (s : Status) : Bool := isSnapshotJobCompleted s || isSnapshotJobFailed s

theorem terminal_eq_false {s : Status} : terminal s = false ↔
    holds s.conditions.completed = false ∧ holds s.conditions.failed = false := by
  simp [terminal, isSnapshotJobCompleted, isSnapshotJobFailed]

theorem StatusPatch.apply_exclusive {old new s : Status}
    (hnew : ¬ (holds new.conditions.completed = true ∧ holds new.conditions.failed = true))
    (hs : terminal s = false) :
    ¬ (isSnapshotJobCompleted ((between old new).apply s) = true ∧
      isSnapshotJobFailed ((between old new).apply s) = true) := by
  simp only [isSnapshotJobCompleted, isSnapshotJobFailed]
  rcases apply_conditions old new s with h | h
  · rw [h]
    exact hnew
  · rw [h, (terminal_eq_false.1 hs).1]
    exact fun hboth => absurd hboth.1 nofun

/-- The two properties are shown together, each for the systems that ask for it. -/
structure Inv (verdicts : Prop) (cfg : Config) (w : World) : Prop where
  history : History w.api
  exclusive : verdicts → ∀ s, w.snapshotJob cfg = some s →
    ¬ (isSnapshotJobCompleted s.body.status = true ∧ isSnapshotJobFailed s.body.status = true)

/-! ## Other clients -/

structure Rely (cfg : Config) (w w' : World) : Prop where
  extend : w.api.Extends w'.api
  issued : ∀ u ∈ w.api.current.snapshotJobs.issued, u ∈ w'.api.current.snapshotJobs.issued
  pass : w'.pass = w.pass
  status : ∀ t, w'.snapshotJob cfg = some t →
    (∃ s, w.snapshotJob cfg = some s ∧ s.uid = t.uid ∧ s.body.status = t.body.status) ∨
      t.body.status = emptyStatus ∧ t.uid ∉ w.api.current.snapshotJobs.issued

theorem Rely.refl (cfg : Config) (w : World) : Rely cfg w w :=
  ⟨.refl _, fun _ h => h, rfl, fun t ht => .inl ⟨t, ht, rfl, rfl⟩⟩

theorem Rely.trans {cfg : Config} {w₁ w₂ w₃ : World} (h : Rely cfg w₁ w₂) (h' : Rely cfg w₂ w₃) :
    Rely cfg w₁ w₃ where
  extend := h.extend.trans h'.extend
  issued u hu := h'.issued u (h.issued u hu)
  pass := h'.pass.trans h.pass
  status t ht := by
    rcases h'.status t ht with ⟨s, hs, hu, hstatus⟩ | ⟨hempty, hnew⟩
    · rcases h.status s hs with ⟨r, hr, hu', hstatus'⟩ | ⟨hempty, hnew⟩
      · exact .inl ⟨r, hr, hu'.trans hu, hstatus'.trans hstatus⟩
      · exact .inr ⟨hstatus ▸ hempty, hu ▸ hnew⟩
    · exact .inr ⟨hempty, fun hu => hnew (h.issued _ hu)⟩

theorem Outside.rely {cfg : Config} {w : World} {x : Cluster} (h : Outside cfg w x) :
    Rely cfg w { w with api := w.api.write x } where
  extend := w.api.extends_write x
  issued := h.move.snapshotJobs.later.issued
  pass := rfl
  status t ht := (h.status t ht).imp_right fun hnew => hnew.2

theorem rely_advance {cfg : Config} {w : World} {api : Server Cluster Kind} {kind : Kind} {version : ℕ}
    (hadvance : w.api.advance kind version = some api) : Rely cfg w { w with api := api } := by
  have hcurrent := (Server.advance_eq_some hadvance).2
  refine ⟨Server.extends_advance hadvance, ?_, rfl, fun t ht => .inl ⟨t, ?_, rfl, rfl⟩⟩
  · rw [hcurrent]
    exact fun _ h => h
  · rw [World.snapshotJob, hcurrent] at ht
    exact ht

/-! ## What a pass guarantees -/

/-- A verdict stays. -/
def VerdictKept (cfg : Config) (w w' : World) : Prop :=
  ∀ s t, w.snapshotJob cfg = some s → w'.snapshotJob cfg = some t → t.uid = s.uid →
    (isSnapshotJobCompleted s.body.status = true → isSnapshotJobCompleted t.body.status = true) ∧
    (isSnapshotJobFailed s.body.status = true → isSnapshotJobFailed t.body.status = true)

/-- A Job of the name that the SnapshotJob controls. -/
def ControlledJob (cfg : Config) (api : Server Cluster Kind) (uid jobUID : String) : Prop :=
  ∃ job, Recorded Cluster.jobs api cfg.name job ∧ job.uid = jobUID ∧ job.body.controller = some uid

/-- A PodSnapshot of the name that is labelled for the SnapshotJob. -/
def LabelledPodSnapshot (cfg : Config) (api : Server Cluster Kind) (uid snapUID : String) : Prop :=
  ∃ snap, Recorded Cluster.podSnapshots api cfg.name snap ∧ snap.uid = snapUID ∧
    podSnapshotOwner snap.body = (some cfg.name, some uid)

/-- A recorded UID stays, and what is newly recorded belongs to the SnapshotJob. -/
def IdentityKept (cfg : Config) (w w' : World) : Prop :=
  ∀ s t, w.snapshotJob cfg = some s → w'.snapshotJob cfg = some t → t.uid = s.uid →
    (t.body.status.sourceJobUID = s.body.status.sourceJobUID ∨ s.body.status.sourceJobUID = "" ∧
      ControlledJob cfg w'.api t.uid t.body.status.sourceJobUID) ∧
    (t.body.status.podSnapshotUID = s.body.status.podSnapshotUID ∨ s.body.status.podSnapshotUID = "" ∧
      LabelledPodSnapshot cfg w'.api t.uid t.body.status.podSnapshotUID)

/-- The SnapshotJob that the pass read has not been replaced. -/
def Unreplaced (cfg : Config) (w : World) : Prop :=
  ∀ s, w.snapshotJob cfg = some s → ∀ p, w.pass = some p → p.uid = s.uid

/-- The PodSnapshot is for a pod of the recorded source Job. -/
def CaptureOfSource (cfg : Config) (w : World) (body : PodSnapshotBody) : Prop :=
  ∀ s, w.snapshotJob cfg = some s → s.body.status.sourceJobUID ≠ "" ∧
    ∃ pod, Recorded Cluster.pods w.api body.podName pod ∧ pod.uid = body.podUID ∧
      pod.body.controller = some s.body.status.sourceJobUID

/-- The Job is controlled by the SnapshotJob and is the recorded one. -/
def DeletionOfSource (cfg : Config) (w : World) (uid : String) : Prop :=
  ∀ s, w.snapshotJob cfg = some s → ControlledJob cfg w.api s.uid uid ∧
    (s.body.status.sourceJobUID = "" ∨ uid = s.body.status.sourceJobUID)

structure Guarantee (verdicts identity : Prop) (cfg : Config) (w : World) (c : Call) (w' : World) :
    Prop where
  inv : Inv verdicts cfg w → Inv verdicts cfg w'
  verdict : verdicts → VerdictKept cfg w w'
  kept : identity → Unreplaced cfg w → IdentityKept cfg w w'
  creates : identity → Unreplaced cfg w → ∀ body, c = .createPodSnapshot body → CaptureOfSource cfg w body
  deletes : identity → Unreplaced cfg w → ∀ uid, c = .deleteJob uid → DeletionOfSource cfg w uid

section Kept

variable {cfg : Config} {w : World}

/-- A step that leaves the status of the SnapshotJob. -/
theorem kept_of_status (cfg : Config) (w w' : World) (h : ∀ s t, w.snapshotJob cfg = some s →
    w'.snapshotJob cfg = some t → t.uid = s.uid → t.body.status = s.body.status) :
    VerdictKept cfg w w' ∧ IdentityKept cfg w w' := by
  constructor
  · intro s t hs ht hu
    rw [h s t hs ht hu]
    exact ⟨fun h => h, fun h => h⟩
  · intro s t hs ht hu
    rw [h s t hs ht hu]
    exact ⟨.inl rfl, .inl rfl⟩

theorem Outside.status_eq {x : Cluster} (h : Outside cfg w x) (s t : SJ)
    (hs : w.snapshotJob cfg = some s) (ht : x.snapshotJobs.get cfg.name = some t) :
    t.body.status = s.body.status := by
  rcases h.status t ht with ⟨r, hr, _, hstatus⟩ | ⟨hnone, _⟩
  · rw [hs] at hr
    cases hr
    exact hstatus.symm
  · rw [hs] at hnone
    cases hnone

theorem Outside.inv {verdicts : Prop} {x : Cluster} (h : Outside cfg w x) (hinv : Inv verdicts cfg w) :
    Inv verdicts cfg { w with api := w.api.write x } := by
  refine ⟨hinv.history.write h.move, fun hv t ht => ?_⟩
  rcases h.status t ht with ⟨s, hs, _, hstatus⟩ | ⟨_, hempty, _⟩
  · rw [← hstatus]
    exact hinv.exclusive hv s hs
  · rw [hempty]
    exact fun hboth => absurd hboth.1 nofun

theorem Inv.advance {verdicts : Prop} (hinv : Inv verdicts cfg w) {api : Server Cluster Kind}
    {kind : Kind} {version : ℕ} (hadvance : w.api.advance kind version = some api) :
    Inv verdicts cfg { w with api := api } := by
  obtain ⟨hpast, hcurrent⟩ := Server.advance_eq_some hadvance
  refine ⟨hinv.history.of_states hpast hcurrent, ?_⟩
  rw [World.snapshotJob, hcurrent]
  exact hinv.exclusive

end Kept

/-! ## Passes that read a copy -/

/-- The calls that a system allows, and what the copy that a pass reads shows there. -/
structure Shows (verdicts identity : Prop) (cfg : Config) (r : World → Call → Choice → Bool) :
    Prop where
  verdict : verdicts → ∀ w x sj, r w .getSnapshotJob x = true →
    (perform cfg w .getSnapshotJob x).1 = .ok sj → terminal sj.body.status = false →
    ∀ o, w.snapshotJob cfg = some o → terminal o.body.status = false
  identity : identity → ∀ w x sj, r w .getSnapshotJob x = true →
    (perform cfg w .getSnapshotJob x).1 = .ok sj → ∀ o, w.snapshotJob cfg = some o → o.uid = sj.uid →
    o.body.status.sourceJobUID = sj.body.status.sourceJobUID ∧
      o.body.status.podSnapshotUID = sj.body.status.podSnapshotUID

/-- The system, kept to the calls that `r` allows. -/
def kept (cfg : Config) (r : World → Call → Choice → Bool) : System interface World Unit :=
  (system cfg).restrict (fun _ w c x => r w c x) fun _ _ => true

section Passes

variable {verdicts identity : Prop} {cfg : Config} {r : World → Call → Choice → Bool} {sj : SJ} {w : World}

variable (verdicts identity cfg r) in
abbrev Sound {α : Type} (Q : α → World → Prop) (p : Pass α) (w : World) : Prop :=
  Process.Sound (kept cfg r) () (Inv verdicts cfg) (Rely cfg)
    (fun w c _ w' => Guarantee verdicts identity cfg w c w') Q p w

theorem perform_kept {w' : World} {c : Call} {x : Choice} {a : c.Answer}
    (h : (kept cfg r).perform () w c x = some (a, w')) :
    r w c x = true ∧ perform cfg w c x = (a, w') := by
  obtain ⟨hallowed, hstep⟩ := System.restrict_perform.1 h
  exact ⟨hallowed, Option.some.inj hstep⟩

/-- A call without effect. -/
theorem guarantee_same {c : Call} {w' : World} (hapi : w'.api = w.api)
    (hcreates : identity → Unreplaced cfg w → ∀ body, c = .createPodSnapshot body →
      CaptureOfSource cfg w body)
    (hdeletes : identity → Unreplaced cfg w → ∀ uid, c = .deleteJob uid → DeletionOfSource cfg w uid) :
    Guarantee verdicts identity cfg w c w' := by
  have hkept := kept_of_status cfg w w' fun s t hs ht _ => by
    rw [World.snapshotJob, hapi] at ht
    cases hs.symm.trans ht
    rfl
  refine ⟨fun hinv => ⟨hapi ▸ hinv.history, ?_⟩, fun _ => hkept.1, fun _ _ => hkept.2, hcreates, hdeletes⟩
  rw [World.snapshotJob, hapi]
  exact hinv.exclusive

theorem guarantee_read {c : Call} (hread : c.reads = true) {w' : World} (hapi : w'.api = w.api) :
    Guarantee verdicts identity cfg w c w' := by
  apply guarantee_same hapi
  · rintro _ _ body rfl
    cases hread
  · rintro _ _ uid rfl
    cases hread

/-- A write that leaves the status of the SnapshotJob. -/
theorem Outside.guarantee {x : Cluster} (h : Outside cfg w x) {c : Call}
    (hcreates : identity → Unreplaced cfg w → ∀ body, c = .createPodSnapshot body →
      CaptureOfSource cfg w body)
    (hdeletes : identity → Unreplaced cfg w → ∀ uid, c = .deleteJob uid → DeletionOfSource cfg w uid) :
    Guarantee verdicts identity cfg w c { w with api := w.api.write x } := by
  have hkept := kept_of_status cfg w { w with api := w.api.write x }
    fun s t hs ht _ => h.status_eq s t hs ht
  exact ⟨h.inv, fun _ => hkept.1, fun _ _ => hkept.2, hcreates, hdeletes⟩

theorem sound_read {c : Call} (hread : c.reads = true) {Q : c.Answer → World → Prop}
    (h : ∀ x w₁, Inv verdicts cfg w₁ → Rely cfg w w₁ → r w₁ c x = true →
      Q (perform cfg w₁ c x).1 (perform cfg w₁ c x).2) :
    Sound verdicts identity cfg r Q (Process.request (I := interface) c) w := by
  intro w₁ hinv hrely x a w₂ hstep
  obtain ⟨hallowed, hstep⟩ := perform_kept hstep
  have hapi := perform_reads cfg hread w₁ x
  have hQ := h x w₁ hinv hrely hallowed
  rw [hstep] at hapi hQ
  exact ⟨guarantee_read hread hapi, hQ⟩

/-- A pass over a SnapshotJob: what it knows of the recorded UIDs is what is persisted. -/
structure Knows (identity : Prop) (cfg : Config) (sj : SJ) (w : World) : Prop where
  pass : ∃ p, w.pass = some p ∧ p.uid = sj.uid
  issued : sj.uid ∈ w.api.current.snapshotJobs.issued
  ids : identity → ∀ o, w.snapshotJob cfg = some o → o.uid = sj.uid →
    o.body.status.sourceJobUID = sj.body.status.sourceJobUID ∧
      o.body.status.podSnapshotUID = sj.body.status.podSnapshotUID

theorem Knows.mono {w' : World} (h : Knows identity cfg sj w) (hrely : Rely cfg w w') :
    Knows identity cfg sj w' := by
  refine ⟨?_, hrely.issued _ h.issued, fun hi o ho hu => ?_⟩
  · rw [hrely.pass]
    exact h.pass
  · rcases hrely.status o ho with ⟨s, hs, hsu, hstatus⟩ | ⟨_, hnew⟩
    · rw [← hstatus]
      exact h.ids hi s hs (hsu.trans hu)
    · rw [hu] at hnew
      exact absurd h.issued hnew

/-- What is persisted for the SnapshotJob of the pass is what the pass knows. -/
theorem Knows.current (h : Knows identity cfg sj w) (hi : identity) (hsame : Unreplaced cfg w) {o : SJ}
    (ho : w.snapshotJob cfg = some o) : o.uid = sj.uid ∧
      o.body.status.sourceJobUID = sj.body.status.sourceJobUID ∧
      o.body.status.podSnapshotUID = sj.body.status.podSnapshotUID := by
  obtain ⟨p, hp, hu⟩ := h.pass
  have huid : o.uid = sj.uid := (hsame o ho p hp).symm.trans hu
  exact ⟨huid, h.ids hi o ho huid⟩

/-- A pass that has read a copy without a verdict, before it patches. -/
structure Holding (verdicts identity : Prop) (cfg : Config) (sj : SJ) (w : World) : Prop
    extends Knows identity cfg sj w where
  undecided : verdicts → ∀ o, w.snapshotJob cfg = some o → terminal o.body.status = false

theorem Holding.mono {w' : World} (h : Holding verdicts identity cfg sj w) (hrely : Rely cfg w w') :
    Holding verdicts identity cfg sj w' := by
  refine ⟨h.toKnows.mono hrely, fun hv o ho => ?_⟩
  rcases hrely.status o ho with ⟨s, hs, _, hstatus⟩ | ⟨hempty, _⟩
  · rw [← hstatus]
    exact h.undecided hv s hs
  · rw [hempty]
    rfl

/-! ## Calls -/

theorem request_cases {w' : World} {x : Choice} {r : Except ApiError Cluster} {a : Except ApiError Unit}
    (h : w.request x r = (a, w')) :
    (∃ e, a = .error e) ∧ w' = w ∨ ∃ y, r = .ok y ∧ w' = { w with api := w.api.write y } := by
  simp only [World.request] at h
  rcases deliver_cases w.api x.delivery r with ⟨e, he⟩ | ⟨y, b, hy, he⟩
  · rw [he] at h
    cases h
    exact .inl ⟨⟨e, rfl⟩, rfl⟩
  · rw [he] at h
    cases h
    exact .inr ⟨y, hy, rfl⟩

/-- The answer is the Job that was created. -/
theorem sound_createJob {body : JobBody} {Q : Except ApiError Job → World → Prop}
    (herror : ∀ e w₁, Rely cfg w w₁ → Q (.error e) w₁)
    (hok : ∀ job w₁, Rely cfg w w₁ → Recorded Cluster.jobs w₁.api cfg.name job → job.body = body →
      Q (.ok job) w₁) :
    Sound verdicts identity cfg r Q (Pass.createJob body) w := by
  intro w₁ hinv hrely x a w₂ hstep
  obtain ⟨_, hstep⟩ := perform_kept hstep
  simp only [perform, World.createJob] at hstep
  generalize hreq : w₁.request x (w₁.api.current.createJob w₁.nextVersion cfg.name x.uid [] body) = b at hstep
  obtain ⟨b, w₃⟩ := b
  cases hstep
  rcases request_cases hreq with ⟨⟨e, rfl⟩, rfl⟩ | ⟨y, hy, rfl⟩
  · exact ⟨guarantee_same rfl (by simp) (by simp), herror e _ hrely⟩
  · obtain ⟨hmove, hfree, rfl⟩ := Move.of_createJob hy
    have hout : Outside cfg w₁ _ := outside_of_move hmove rfl
    refine ⟨hout.guarantee (by simp) (by simp), ?_⟩
    cases b with
    | error e => exact herror e _ (hrely.trans hout.rely)
    | ok _ =>
      refine hok _ _ (hrely.trans hout.rely) ?_ rfl
      exact recorded_current _ (Collection.get_add_self _ _ _)

/-- A PodSnapshot is created for a pod that the recorded source Job controls. -/
theorem sound_createPodSnapshot {body : PodSnapshotBody} (h : Knows identity cfg sj w)
    (hsource : sj.body.status.sourceJobUID ≠ "") {pod : Object PodBody}
    (hpod : Recorded Cluster.pods w.api body.podName pod) (huid : pod.uid = body.podUID)
    (hcontroller : pod.body.controller = some sj.body.status.sourceJobUID)
    {Q : Except ApiError Snap → World → Prop}
    (herror : ∀ e w₁, Rely cfg w w₁ → Q (.error e) w₁)
    (hok : ∀ snap w₁, Rely cfg w w₁ →
      Recorded Cluster.podSnapshots w₁.api cfg.name snap → snap.body = body → Q (.ok snap) w₁) :
    Sound verdicts identity cfg r Q (Pass.createPodSnapshot body) w := by
  intro w₁ hinv hrely x a w₂ hstep
  obtain ⟨_, hstep⟩ := perform_kept hstep
  have hcreates : identity → Unreplaced cfg w₁ → ∀ body', Call.createPodSnapshot body = .createPodSnapshot body' →
      CaptureOfSource cfg w₁ body' := by
    intro hi hsame body' hbody s hs
    cases hbody
    obtain ⟨_, hjob, _⟩ := (h.mono hrely).current hi hsame hs
    rw [hjob]
    exact ⟨hsource, pod, hpod.mono hrely.extend, huid, hcontroller⟩
  simp only [perform, World.createPodSnapshot] at hstep
  generalize hreq : w₁.request x (w₁.api.current.withPodSnapshots
    (w₁.api.current.podSnapshots.create w₁.nextVersion cfg.name x.uid [] body)) = b at hstep
  obtain ⟨b, w₃⟩ := b
  cases hstep
  rcases request_cases hreq with ⟨⟨e, rfl⟩, rfl⟩ | ⟨y, hy, rfl⟩
  · exact ⟨guarantee_same rfl hcreates (by simp), herror e _ hrely⟩
  · obtain ⟨z, hz, rfl⟩ := CheckedFold.map_eq_ok.1 hy
    have hcreated := Collection.Step.of_create hz
    obtain ⟨hfree, _, rfl⟩ := Collection.step_create hz
    have hout : Outside cfg w₁ _ :=
      outside_of_move (.of_podSnapshots hcreated (Collection.fixes_add hfree _)) rfl
    refine ⟨hout.guarantee hcreates (by simp), ?_⟩
    cases b with
    | error e => exact herror e _ (hrely.trans hout.rely)
    | ok _ =>
      refine hok _ _ (hrely.trans hout.rely) ?_ rfl
      exact recorded_current _ (Collection.get_add_self _ _ _)

/-- The Job is deleted that the SnapshotJob controls and has recorded. -/
theorem sound_deleteJob {job : Job} (h : Knows identity cfg sj w)
    (hjob : Recorded Cluster.jobs w.api cfg.name job) (hcontroller : job.body.controller = some sj.uid)
    (huid : sj.body.status.sourceJobUID = "" ∨ job.uid = sj.body.status.sourceJobUID)
    {Q : Except ApiError Unit → World → Prop} (hQ : ∀ a w₁, Q a w₁) :
    Sound verdicts identity cfg r Q (Pass.deleteJob job.uid) w := by
  intro w₁ hinv hrely x a w₂ hstep
  obtain ⟨_, hstep⟩ := perform_kept hstep
  have h₁ := h.mono hrely
  have hdeletes : identity → Unreplaced cfg w₁ → ∀ uid, Call.deleteJob job.uid = .deleteJob uid →
      DeletionOfSource cfg w₁ uid := by
    intro hi hsame uid hu s hs
    cases hu
    obtain ⟨hsu, hrecorded, _⟩ := h₁.current hi hsame hs
    rw [hsu, hrecorded]
    exact ⟨⟨job, hjob.mono hrely.extend, rfl, hcontroller⟩, huid⟩
  refine ⟨?_, hQ a w₂⟩
  rcases request_cases hstep with ⟨_, rfl⟩ | ⟨y, hy, rfl⟩
  · exact guarantee_same rfl nofun hdeletes
  · obtain ⟨z, hz, rfl⟩ := CheckedFold.map_eq_ok.1 hy
    obtain ⟨s, hs, _, ⟨_, rfl⟩ | rfl⟩ := Collection.step_delete hz
    · exact outside_same.guarantee nofun hdeletes
    · refine (outside_putJob hs ?_ ?_ ?_ ?_).guarantee nofun hdeletes
      · rfl
      · rfl
      · rfl
      · exact fun _ => rfl

/-- What the pass observed belongs to the SnapshotJob. -/
structure Observes (cfg : Config) (sj : SJ) (observed : Observation) (w : World) : Prop where
  job : ∀ job, observed.job = some job →
    Recorded Cluster.jobs w.api cfg.name job ∧ job.body.controller = some sj.uid
  podSnapshot : ∀ snap, observed.podSnapshot = some snap →
    Recorded Cluster.podSnapshots w.api cfg.name snap ∧
      podSnapshotOwner snap.body = (some cfg.name, some sj.uid)

theorem Observes.mono {observed : Observation} {w' : World} (h : Observes cfg sj observed w)
    (hextend : w.api.Extends w'.api) : Observes cfg sj observed w' where
  job job hjob := ⟨(h.job job hjob).1.mono hextend, (h.job job hjob).2⟩
  podSnapshot snap hsnap := ⟨(h.podSnapshot snap hsnap).1.mono hextend, (h.podSnapshot snap hsnap).2⟩

/-- The patch of a status that was derived from a copy without a verdict. -/
theorem sound_patchStatus {observed : Observation} {now : ℕ} (h : Holding verdicts identity cfg sj w)
    (hopen : terminal sj.body.status = false) (hobserves : Observes cfg sj observed w)
    {Q : Except ApiError Unit → World → Prop} (herror : ∀ e w₁, Q (.error e) w₁)
    (hok : ∀ w₁, Knows identity cfg
      { sj with body := { sj.body with status := deriveSnapshotJobStatus cfg sj observed now } } w₁ →
      Q (.ok ()) w₁) :
    Sound verdicts identity cfg r Q
      (Pass.patchStatus (.between sj.body.status (deriveSnapshotJobStatus cfg sj observed now))) w := by
  intro w₁ hinv hrely x a w₂ hstep
  obtain ⟨_, hstep⟩ := perform_kept hstep
  have h₁ := h.mono hrely
  have hobserves₁ := hobserves.mono hrely.extend
  obtain ⟨hcompleted, hfailed⟩ := terminal_eq_false.1 hopen
  obtain ⟨hone, hjob, hsnap⟩ := deriveSnapshotJobStatus_spec cfg sj observed now hcompleted hfailed
  generalize deriveSnapshotJobStatus cfg sj observed now = desired at *
  rcases request_cases hstep with ⟨⟨e, rfl⟩, rfl⟩ | ⟨y, hy, rfl⟩
  · exact ⟨guarantee_same rfl nofun nofun, herror e _⟩
  obtain ⟨z, hz, rfl⟩ := CheckedFold.map_eq_ok.1 hy
  have hupdate := Collection.Step.of_update hz
  obtain ⟨o, ho, _, rfl⟩ := Collection.step_update hz
  replace ho : w₁.snapshotJob cfg = some o := ho
  -- what is persisted now is the patched object
  have written : ∀ {t}, (w₁.api.current.snapshotJobs.put cfg.name { o with
      version := w₁.nextVersion
      body := { o.body with
        status := (StatusPatch.between sj.body.status desired).apply o.body.status } }).get cfg.name =
      some t → t.uid = o.uid ∧
        t.body.status = (StatusPatch.between sj.body.status desired).apply o.body.status := by
    intro t ht
    rcases Collection.get_put ht with ⟨_, rfl⟩ | ⟨hne, _⟩
    · exact ⟨rfl, rfl⟩
    · exact absurd rfl hne
  have hmove : Move w₁.nextVersion w₁.api.current _ := .of_snapshotJobs hupdate
  refine ⟨⟨fun _ => ⟨hinv.history.write hmove, fun hv t ht => ?_⟩, fun hv s t hs ht _ => ?_,
    fun hi hsame s t hs ht _ => ?_, nofun, nofun⟩, ?_⟩
  · rw [(written ht).2]
    exact StatusPatch.apply_exclusive hone (h₁.undecided hv o ho)
  · rw [ho] at hs
    cases hs
    have hundecided := terminal_eq_false.1 (h₁.undecided hv o ho)
    exact ⟨fun hc => absurd (hundecided.1.symm.trans hc) nofun,
      fun hf => absurd (hundecided.2.symm.trans hf) nofun⟩
  · rw [ho] at hs
    cases hs
    obtain ⟨huid, hjobUID, hsnapUID⟩ := h₁.current hi hsame ho
    obtain ⟨hu, hstatus⟩ := written ht
    rw [hu, huid, hstatus, StatusPatch.apply_sourceJobUID hjobUID,
      StatusPatch.apply_podSnapshotUID hsnapUID, hjobUID, hsnapUID]
    constructor
    · refine hjob.imp_right fun ⟨hempty, job, hobserved, hrecord⟩ => ⟨hempty, job, ?_, hrecord.symm, ?_⟩
      · exact ((hobserves₁.job job hobserved).1).mono (w₁.api.extends_write _)
      · exact (hobserves₁.job job hobserved).2
    · refine hsnap.imp_right fun ⟨hempty, snap, hobserved, hrecord⟩ =>
        ⟨hempty, snap, ?_, hrecord.symm, ?_⟩
      · exact ((hobserves₁.podSnapshot snap hobserved).1).mono (w₁.api.extends_write _)
      · exact (hobserves₁.podSnapshot snap hobserved).2
  · cases a with
    | error e => exact herror e _
    | ok _ =>
      refine hok _ ⟨h₁.pass, hmove.snapshotJobs.later.issued _ h₁.issued, fun hi t ht hu => ?_⟩
      obtain ⟨huid, hstatus⟩ := written ht
      obtain ⟨hjobUID, hsnapUID⟩ := h₁.ids hi o ho (huid.symm.trans hu)
      rw [hstatus]
      exact ⟨StatusPatch.apply_sourceJobUID hjobUID, StatusPatch.apply_podSnapshotUID hsnapUID⟩

theorem sound_getJob {Q : Except ApiError Job → World → Prop}
    (herror : ∀ e w₁, Rely cfg w w₁ → Q (.error e) w₁)
    (hok : ∀ job w₁, Rely cfg w w₁ → Recorded Cluster.jobs w₁.api cfg.name job → job.uid ≠ "" →
      Q (.ok job) w₁) : Sound verdicts identity cfg r Q Pass.getJob w := by
  refine sound_read rfl fun x w₁ hinv hrely _ => ?_
  simp only [perform]
  generalize hget : lookup x.delivery ((w₁.api.view .jobs).jobs.get cfg.name) = a
  cases a with
  | error e => exact herror e w₁ hrely
  | ok job =>
    have hjob := lookup_ok hget
    exact hok job w₁ hrely (recorded_view _ _ hjob) (hinv.history.jobUID.view .jobs _ job hjob)

theorem sound_readJob {Q : Except ApiError Job → World → Prop}
    (herror : ∀ e w₁, Rely cfg w w₁ → Q (.error e) w₁)
    (hok : ∀ job w₁, Rely cfg w w₁ → Recorded Cluster.jobs w₁.api cfg.name job → job.uid ≠ "" →
      Q (.ok job) w₁) : Sound verdicts identity cfg r Q Pass.readJob w := by
  refine sound_read rfl fun x w₁ hinv hrely _ => ?_
  simp only [perform]
  generalize hget : lookup x.delivery (w₁.api.current.jobs.get cfg.name) = a
  cases a with
  | error e => exact herror e w₁ hrely
  | ok job =>
    have hjob := lookup_ok hget
    exact hok job w₁ hrely (recorded_current _ hjob) (hinv.history.jobUID.current _ job hjob)

theorem sound_getPodSnapshot {direct : Bool} {Q : Except ApiError Snap → World → Prop}
    (h : ∀ a w₁, Rely cfg w w₁ →
      (∀ snap, a = .ok snap → Recorded Cluster.podSnapshots w₁.api cfg.name snap) → Q a w₁) :
    Sound verdicts identity cfg r Q (Pass.getPodSnapshot direct) w := by
  refine sound_read rfl fun x w₁ hinv hrely _ => ?_
  refine h _ w₁ hrely fun snap hsnap => ?_
  have hget := lookup_ok hsnap
  cases direct with
  | true => exact recorded_current _ hget
  | false => exact recorded_view _ _ hget

theorem mem_podsOf {x : Cluster} {name : String} {pod : Pod} (h : pod ∈ x.podsOf name) :
    x.pods.get pod.name = some pod.object := by
  simp only [Cluster.podsOf, List.mem_map, List.mem_filter] at h
  obtain ⟨p, ⟨hp, _⟩, rfl⟩ := h
  exact Std.ExtTreeMap.mem_toList_iff_getElem?_eq_some.1 hp

/-- A pod of the list that the Job controls. -/
def Controls (job : Job) (w : World) (pod : Pod) : Prop :=
  Recorded Cluster.pods w.api pod.name pod.object ∧ pod.object.body.controller = some job.uid

theorem controlledPodForJob_mem {pods : List Pod} {job : Job} {pod : Pod}
    (h : controlledPodForJob cfg pods job = .ok (some pod)) :
    pod ∈ pods ∧ pod.object.body.controller = some job.uid := by
  simp only [controlledPodForJob] at h
  split at h
  · cases h
  · rename_i p hfilter
    cases h
    have hmem : pod ∈ pods.filter fun p => isControlledBy p.object.body.controller job.uid := by
      rw [hfilter]
      exact List.mem_singleton_self pod
    simpa [isControlledBy] using List.mem_filter.1 hmem
  · cases h

theorem sound_listPods {direct : Bool} {Q : Except ApiError (List Pod) → World → Prop}
    (h : ∀ a w₁, Rely cfg w w₁ → (∀ pods, a = .ok pods → ∀ pod ∈ pods,
      Recorded Cluster.pods w₁.api pod.name pod.object) → Q a w₁) :
    Sound verdicts identity cfg r Q (Pass.listPods direct) w := by
  refine sound_read rfl fun x w₁ hinv hrely _ => ?_
  simp only [perform, World.listPods]
  split
  · refine h _ w₁ hrely fun pods hpods pod hpod => ?_
    cases hpods
    cases direct with
    | true => exact recorded_current _ (mem_podsOf hpod)
    | false => exact recorded_view _ _ (mem_podsOf hpod)
  · exact h _ w₁ hrely (by simp)

theorem sound_findSourcePod {direct : Bool} {job : Job} {Q : Except PassError (Option Pod) → World → Prop}
    (h : ∀ a w₁, Rely cfg w w₁ → (∀ pod, a = .ok (some pod) → Controls job w₁ pod) → Q a w₁) :
    Sound verdicts identity cfg r Q (findSourcePod cfg direct job) w := by
  refine Process.sound_bind.2 (sound_listPods fun a w₁ hrely hrecorded => ?_)
  cases a with
  | error e => exact Process.sound_pure (h _ w₁ hrely fun _ he => nomatch he)
  | ok pods =>
    refine Process.sound_pure (h _ w₁ hrely fun pod hpod => ?_)
    obtain ⟨hmem, hcontroller⟩ := controlledPodForJob_mem hpod
    exact ⟨hrecorded pods rfl pod hmem, hcontroller⟩

/-! ## Parts of a pass -/

/-- The PodSnapshot carries the name and is labelled for the SnapshotJob. -/
def Owned (cfg : Config) (sj : SJ) (w : World) (snap : Snap) : Prop :=
  Recorded Cluster.podSnapshots w.api cfg.name snap ∧
    podSnapshotOwner snap.body = (some cfg.name, some sj.uid)

theorem validatePodSnapshotOwnership_owner {snap : Snap}
    (h : validatePodSnapshotOwnership cfg sj snap = .ok ()) :
    podSnapshotOwner snap.body = (some cfg.name, some sj.uid) := by
  simp only [validatePodSnapshotOwnership] at h
  split at h
  · cases h
  · rename_i hbelongs
    simp only [podSnapshotBelongsToSnapshotJob, Bool.not_eq_true', Bool.not_eq_false,
      Bool.and_eq_true, decide_eq_true_eq] at hbelongs
    simp [podSnapshotOwner, hbelongs.1, hbelongs.2]

theorem sound_readOwnedPodSnapshot {direct : Bool} {Q : Except SnapError Snap → World → Prop}
    (h : ∀ a w₁, Rely cfg w w₁ → (∀ snap, a = .ok snap → Owned cfg sj w₁ snap) → Q a w₁) :
    Sound verdicts identity cfg r Q (readOwnedPodSnapshot cfg direct sj) w := by
  refine Process.sound_bind.2 (sound_getPodSnapshot fun a w₁ hrely hrecorded => ?_)
  cases a with
  | error e => exact Process.sound_pure (h _ w₁ hrely fun _ he => nomatch he)
  | ok snap =>
    dsimp only
    split
    · exact Process.sound_pure (h _ w₁ hrely fun _ he => nomatch he)
    · rename_i hvalid
      refine Process.sound_pure (h _ w₁ hrely fun s hs => ?_)
      cases hs
      exact ⟨hrecorded snap rfl, validatePodSnapshotOwnership_owner hvalid⟩

theorem sound_readAuthoritativeOwnedPodSnapshot {Q : Except SnapError Snap → World → Prop}
    (h : ∀ a w₁, Rely cfg w w₁ → (∀ snap, a = .ok snap → Owned cfg sj w₁ snap) → Q a w₁) :
    Sound verdicts identity cfg r Q (readAuthoritativeOwnedPodSnapshot cfg sj) w := by
  refine Process.sound_bind.2 (sound_readOwnedPodSnapshot fun a w₁ hrely howned => ?_)
  split
  · exact Process.sound_pure (h _ w₁ hrely fun _ he => nomatch he)
  · exact Process.sound_pure (h _ w₁ hrely howned)

theorem sound_validatePodSnapshotForAdoption {job : Job} {snap : Snap}
    {Q : Except PassError (Option Failure) → World → Prop} (h : ∀ a w₁, Rely cfg w w₁ → Q a w₁) :
    Sound verdicts identity cfg r Q (validatePodSnapshotForAdoption cfg sj job snap) w := by
  refine Process.sound_bind.2 (sound_findSourcePod fun a w₁ hrely _ => ?_)
  split
  · exact Process.sound_pure (h _ w₁ hrely)
  · exact Process.sound_pure (h _ w₁ hrely)
  · split
    · exact Process.sound_pure (h _ w₁ hrely)
    · split
      · exact Process.sound_pure (h _ w₁ hrely)
      · exact Process.sound_pure (h _ w₁ hrely)

theorem sound_adoptionFailure {job : Job} {snap : Snap}
    {Q : Except PassError (Option Failure) → World → Prop} (h : ∀ a w₁, Rely cfg w w₁ → Q a w₁) :
    Sound verdicts identity cfg r Q (adoptionFailure cfg sj job snap) w := by
  simp only [adoptionFailure]
  split
  · exact sound_validatePodSnapshotForAdoption h
  · exact Process.sound_pure (h _ w (.refl cfg w))

theorem sound_findSourcePodConfirmed {job : Job} {helpers sidecars : List String}
    {Q : Except PassError (Option Pod) → World → Prop} (h : ∀ a w₁, Rely cfg w w₁ → Q a w₁) :
    Sound verdicts identity cfg r Q (findSourcePodConfirmed cfg job helpers sidecars) w := by
  refine Process.sound_bind.2 (sound_findSourcePod fun a w₁ hrely _ => ?_)
  have again : Sound verdicts identity cfg r Q (findSourcePod cfg true job) w₁ :=
    sound_findSourcePod fun a w₂ hrely₂ _ => h a w₂ (hrely.trans hrely₂)
  split
  · exact Process.sound_pure (h _ w₁ hrely)
  · split
    · exact Process.sound_pure (h _ w₁ hrely)
    · exact again
  · exact again

theorem sound_classifyHelperContainers {job : Job}
    {Q : Except PassError (Option Failure × Bool) → World → Prop} (h : ∀ a w₁, Rely cfg w w₁ → Q a w₁) :
    Sound verdicts identity cfg r Q (classifyHelperContainers cfg sj job) w := by
  simp only [classifyHelperContainers]
  split
  · exact Process.sound_pure (h _ w (.refl cfg w))
  · split
    · exact Process.sound_pure (h _ w (.refl cfg w))
    · refine Process.sound_bind.2 (sound_findSourcePodConfirmed fun a w₁ hrely => ?_)
      split
      · exact Process.sound_pure (h _ w₁ hrely)
      · exact Process.sound_pure (h _ w₁ hrely)
      · exact Process.sound_pure (h _ w₁ hrely)

/-- A pass that has accepted a Job as the source of the SnapshotJob. -/
structure Accepted (verdicts identity : Prop) (cfg : Config) (sj : SJ) (job : Job) (w : World) : Prop
    extends Holding verdicts identity cfg sj w where
  recorded : Recorded Cluster.jobs w.api cfg.name job
  controller : job.body.controller = some sj.uid
  uid : job.uid ≠ ""
  bound : sj.body.status.sourceJobUID = "" ∨ job.uid = sj.body.status.sourceJobUID

theorem Accepted.mono {job : Job} {w' : World} (h : Accepted verdicts identity cfg sj job w)
    (hrely : Rely cfg w w') : Accepted verdicts identity cfg sj job w' :=
  ⟨h.toHolding.mono hrely, h.recorded.mono hrely.extend, h.controller, h.uid, h.bound⟩

theorem classifyExistingSourceJob_none {job : Job} (h : classifyExistingSourceJob cfg sj job = none) :
    job.body.controller = some sj.uid ∧
      (sj.body.status.sourceJobUID = "" ∨ job.uid = sj.body.status.sourceJobUID) := by
  simp only [classifyExistingSourceJob] at h
  split at h
  · cases h
  · rename_i hcontrolled
    simp only [isControlledBy, Bool.not_eq_true', Bool.not_eq_false, decide_eq_true_eq] at hcontrolled
    refine ⟨hcontrolled, ?_⟩
    split at h
    · split at h
      · cases h
      · rename_i hsame
        exact .inr (not_not.1 hsame)
    · rename_i hempty
      exact .inl (not_not.1 hempty)

variable (verdicts identity cfg sj) in
/-- How the drive of the children ends: what was observed belongs to the SnapshotJob. -/
def Ends (a : Observed) (w : World) : Prop :=
  Holding verdicts identity cfg sj w ∧
    ∀ observed requeue, a = .ok (observed, requeue) → Observes cfg sj observed w

theorem Holding.ends_error (h : Holding verdicts identity cfg sj w) (e : PassError) :
    Ends verdicts identity cfg sj (.error e) w := ⟨h, fun _ _ he => nomatch he⟩

theorem Holding.ends (h : Holding verdicts identity cfg sj w) {o : Observation} {q : Option ℕ}
    (hobserves : Observes cfg sj o w) : Ends verdicts identity cfg sj (.ok (o, q)) w := by
  refine ⟨h, fun observed requeue ho => ?_⟩
  cases ho
  exact hobserves

/-- Nothing was observed but a failure. -/
theorem Holding.ends_nothing (h : Holding verdicts identity cfg sj w) {o : Observation} {q : Option ℕ}
    (hjob : o.job = none) (hsnap : o.podSnapshot = none) : Ends verdicts identity cfg sj (.ok (o, q)) w :=
  h.ends ⟨fun _ hj => absurd (hjob.symm.trans hj) nofun, fun _ hs => absurd (hsnap.symm.trans hs) nofun⟩

theorem observes_job {job : Job} (hrecorded : Recorded Cluster.jobs w.api cfg.name job)
    (hcontroller : job.body.controller = some sj.uid) {o : Observation} (hjob : o.job = some job)
    (hsnap : ∀ snap, o.podSnapshot = some snap → Owned cfg sj w snap) : Observes cfg sj o w := by
  refine ⟨fun j hj => ?_, hsnap⟩
  rw [hjob] at hj
  cases hj
  exact ⟨hrecorded, hcontroller⟩

theorem Accepted.ends {job : Job} (h : Accepted verdicts identity cfg sj job w) {o : Observation}
    {q : Option ℕ} (hjob : o.job = some job)
    (hsnap : ∀ snap, o.podSnapshot = some snap → Owned cfg sj w snap) :
    Ends verdicts identity cfg sj (.ok (o, q)) w :=
  h.toHolding.ends (observes_job h.recorded h.controller hjob hsnap)

theorem Owned.mono {snap : Snap} {w' : World} (h : Owned cfg sj w snap) (hrely : Rely cfg w w') :
    Owned cfg sj w' snap := ⟨h.1.mono hrely.extend, h.2⟩

theorem owned_some {snap : Snap} (h : Owned cfg sj w snap) :
    ∀ s, some snap = some s → Owned cfg sj w s := by
  intro s hs
  cases hs
  exact h

theorem sound_reconcileCapturedSourceJob {job : Job} {observed : Observation}
    (h : Accepted verdicts identity cfg sj job w) (hjob : observed.job = some job)
    (hsnap : ∀ snap, observed.podSnapshot = some snap → Owned cfg sj w snap) :
    Sound verdicts identity cfg r (Ends verdicts identity cfg sj)
      (reconcileCapturedSourceJob cfg sj job observed) w := by
  simp only [reconcileCapturedSourceJob]
  split
  · exact Process.sound_pure (h.ends hjob hsnap)
  · exact Process.sound_pure (h.ends hjob hsnap)
  · refine Process.sound_bind.2 (sound_classifyHelperContainers fun a w₁ hrely => ?_)
    have h₁ := h.mono hrely
    have hsnap₁ := fun snap hs => (hsnap snap hs).mono hrely
    split
    · exact Process.sound_pure (h₁.ends_error _)
    · exact Process.sound_pure (h₁.ends hjob hsnap₁)
    · exact Process.sound_pure (h₁.ends hjob hsnap₁)
  · exact Process.sound_pure (h.ends hjob hsnap)

theorem sound_reconcileFoundPodSnapshot {job : Job} {snap : Snap}
    (h : Accepted verdicts identity cfg sj job w) (howned : Owned cfg sj w snap) :
    Sound verdicts identity cfg r (Ends verdicts identity cfg sj)
      (reconcileFoundPodSnapshot cfg sj job snap) w := by
  refine Process.sound_bind.2 (sound_adoptionFailure fun a w₁ hrely => ?_)
  have h₁ := h.mono hrely
  have howned₁ := howned.mono hrely
  split
  · exact Process.sound_pure (h₁.ends_error _)
  · exact Process.sound_pure (h₁.ends rfl fun _ hs => nomatch hs)
  · split
    · exact Process.sound_pure (h₁.ends rfl (owned_some howned₁))
    · split
      · exact sound_reconcileCapturedSourceJob h₁ rfl (owned_some howned₁)
      · split
        · exact Process.sound_pure (h₁.ends rfl (owned_some howned₁))
        · exact Process.sound_pure (h₁.ends rfl (owned_some howned₁))

theorem sound_classifyExistingPodSnapshot {desired : PodSnapshotBody}
    {Q : Except (SnapError ⊕ PassError) Snap → World → Prop}
    (h : ∀ a w₁, Rely cfg w w₁ → (∀ snap, a = .ok snap → Owned cfg sj w₁ snap) → Q a w₁) :
    Sound verdicts identity cfg r Q (classifyExistingPodSnapshot cfg sj desired) w := by
  refine Process.sound_bind.2 (sound_getPodSnapshot fun a w₁ hrely hrecorded => ?_)
  split
  · exact Process.sound_pure (h _ w₁ hrely fun _ he => nomatch he)
  · exact Process.sound_pure (h _ w₁ hrely fun _ he => nomatch he)
  · split
    · exact Process.sound_pure (h _ w₁ hrely fun _ he => nomatch he)
    · rename_i hvalid
      split
      · refine Process.sound_pure (h _ w₁ hrely fun s hs => ?_)
        cases hs
        exact ⟨hrecorded _ rfl, validatePodSnapshotOwnership_owner hvalid⟩
      · exact Process.sound_pure (h _ w₁ hrely fun _ he => nomatch he)

/-- What is built pins the pod and is labelled for the SnapshotJob. -/
theorem buildPodSnapshot_spec {pod : Pod} {body : PodSnapshotBody}
    (h : buildPodSnapshot cfg sj pod = .ok body) : body.podName = pod.name ∧
      body.podUID = pod.object.uid ∧ podSnapshotOwner body = (some cfg.name, some sj.uid) := by
  simp only [buildPodSnapshot] at h
  split at h
  · cases h
  · split at h
    · cases h
    · cases h
      exact ⟨rfl, rfl, rfl⟩

theorem sound_createOwnedPodSnapshot {job : Job} {pod : Pod}
    (h : Accepted verdicts identity cfg sj job w) (hsource : job.uid = sj.body.status.sourceJobUID)
    (hpod : Controls job w pod) {Q : Except (SnapError ⊕ PassError) Snap → World → Prop}
    (hQ : ∀ a w₁, Rely cfg w w₁ → (∀ snap, a = .ok snap → Owned cfg sj w₁ snap) → Q a w₁) :
    Sound verdicts identity cfg r Q (createPodSnapshot cfg sj pod) w := by
  simp only [createPodSnapshot]
  split
  · exact Process.sound_pure (hQ _ w (.refl cfg w) fun _ he => nomatch he)
  · rename_i body hbuild
    obtain ⟨hname, huid, howner⟩ := buildPodSnapshot_spec hbuild
    refine Process.sound_bind.2 (sound_createPodSnapshot h.toKnows (hsource ▸ h.uid) (hname ▸ hpod.1)
      huid.symm (hsource ▸ hpod.2) ?_ ?_)
    · intro e w₁ hrely
      split
      · rename_i hok
        cases hok
      · exact sound_classifyExistingPodSnapshot fun a w₂ hrely₂ howned =>
          hQ a w₂ (hrely.trans hrely₂) howned
      · exact Process.sound_pure (hQ _ w₁ hrely fun _ he => nomatch he)
    · intro snap w₁ hrely hrecorded hbody
      refine Process.sound_pure (hQ _ w₁ hrely fun s hs => ?_)
      cases hs
      exact ⟨hrecorded, hbody ▸ howner⟩

theorem sound_createPodSnapshotForSourceJob {job : Job} (h : Accepted verdicts identity cfg sj job w)
    (hsource : job.uid = sj.body.status.sourceJobUID) :
    Sound verdicts identity cfg r (Ends verdicts identity cfg sj)
      (createPodSnapshotForSourceJob cfg sj job) w := by
  refine Process.sound_bind.2 (sound_findSourcePod fun a w₁ hrely hcontrols => ?_)
  have h₁ := h.mono hrely
  split
  · exact Process.sound_pure (h₁.ends_error _)
  · exact Process.sound_pure (h₁.ends rfl fun _ hs => nomatch hs)
  · rename_i pod
    refine Process.sound_bind.2 (sound_createOwnedPodSnapshot h₁ hsource (hcontrols pod rfl)
      fun b w₂ hrely₂ howned => ?_)
    have h₂ := h₁.mono hrely₂
    split
    · exact Process.sound_pure (h₂.ends rfl fun _ hs => nomatch hs)
    · exact Process.sound_pure (h₂.ends_error _)
    · exact Process.sound_pure (h₂.ends_error _)
    · exact Process.sound_pure (h₂.ends rfl (owned_some (howned _ rfl)))

theorem sound_reconcileMissingPodSnapshot {job : Job} (h : Accepted verdicts identity cfg sj job w)
    (hsource : job.uid = sj.body.status.sourceJobUID) :
    Sound verdicts identity cfg r (Ends verdicts identity cfg sj)
      (reconcileMissingPodSnapshot cfg sj job) w := by
  simp only [reconcileMissingPodSnapshot]
  split
  · exact Process.sound_pure (h.ends rfl fun _ hs => nomatch hs)
  · split
    · exact sound_createPodSnapshotForSourceJob h hsource
    · refine Process.sound_bind.2 (sound_readAuthoritativeOwnedPodSnapshot fun a w₁ hrely howned => ?_)
      have h₁ := h.mono hrely
      split
      · exact Process.sound_pure (h₁.ends rfl fun _ hs => nomatch hs)
      · exact Process.sound_pure (h₁.ends rfl fun _ hs => nomatch hs)
      · exact Process.sound_pure (h₁.ends_error _)
      · exact sound_reconcileFoundPodSnapshot h₁ (howned _ rfl)

theorem sound_reconcilePodSnapshotResources {job : Job} (h : Accepted verdicts identity cfg sj job w)
    (hsource : job.uid = sj.body.status.sourceJobUID) :
    Sound verdicts identity cfg r (Ends verdicts identity cfg sj)
      (reconcilePodSnapshotResources cfg sj job) w := by
  refine Process.sound_bind.2 (sound_readOwnedPodSnapshot fun a w₁ hrely howned => ?_)
  have h₁ := h.mono hrely
  split
  · exact sound_reconcileFoundPodSnapshot h₁ (howned _ rfl)
  · exact Process.sound_pure (h₁.ends rfl fun _ hs => nomatch hs)
  · split
    · refine Process.sound_bind.2 (sound_readAuthoritativeOwnedPodSnapshot fun b w₂ hrely₂ howned₂ => ?_)
      have h₂ := h₁.mono hrely₂
      split
      · exact Process.sound_pure (h₂.ends rfl fun _ hs => nomatch hs)
      · exact Process.sound_pure (h₂.ends rfl fun _ hs => nomatch hs)
      · exact Process.sound_pure (h₂.ends_error _)
      · exact sound_reconcileFoundPodSnapshot h₂ (howned₂ _ rfl)
    · exact sound_reconcileMissingPodSnapshot h₁ hsource
  · exact Process.sound_pure (h₁.ends_error _)

theorem sound_reconcileAcceptedSourceJob {job : Job} (h : Accepted verdicts identity cfg sj job w) :
    Sound verdicts identity cfg r (Ends verdicts identity cfg sj)
      (reconcileAcceptedSourceJob cfg sj job) w := by
  simp only [reconcileAcceptedSourceJob]
  split
  · exact Process.sound_pure (h.ends rfl fun _ hs => nomatch hs)
  · rename_i hbound
    refine sound_reconcilePodSnapshotResources h (h.bound.resolve_left fun hempty => ?_)
    exact hbound ⟨hempty, h.uid⟩

/-- A Job that was read, once it passes the checks of the SnapshotJob. -/
theorem Holding.accept {job : Job} (h : Holding verdicts identity cfg sj w)
    (hrecorded : Recorded Cluster.jobs w.api cfg.name job) (huid : job.uid ≠ "")
    (hvalid : classifyExistingSourceJob cfg sj job = none) : Accepted verdicts identity cfg sj job w :=
  ⟨h, hrecorded, (classifyExistingSourceJob_none hvalid).1, huid, (classifyExistingSourceJob_none hvalid).2⟩

theorem sound_reconcileExistingSourceJob {job : Job} (h : Holding verdicts identity cfg sj w)
    (hrecorded : Recorded Cluster.jobs w.api cfg.name job) (huid : job.uid ≠ "") :
    Sound verdicts identity cfg r (Ends verdicts identity cfg sj)
      (reconcileExistingSourceJob cfg sj job) w := by
  simp only [reconcileExistingSourceJob]
  split
  · exact Process.sound_pure (h.ends_nothing rfl rfl)
  · rename_i hvalid
    exact sound_reconcileAcceptedSourceJob (h.accept hrecorded huid hvalid)

theorem sound_readAuthoritativeSourceJob (h : Holding verdicts identity cfg sj w)
    {Q : Except PassError (Failure ⊕ Job) → World → Prop}
    (hQ : ∀ a w₁, Holding verdicts identity cfg sj w₁ →
      (∀ job, a = .ok (.inr job) → Accepted verdicts identity cfg sj job w₁) → Q a w₁) :
    Sound verdicts identity cfg r Q (readAuthoritativeSourceJob cfg sj) w := by
  refine Process.sound_bind.2 (sound_readJob (fun e w₁ hrely => ?_) fun job w₁ hrely hrecorded huid => ?_)
  · have h₁ := h.mono hrely
    cases e with
    | notFound => exact Process.sound_pure (hQ _ w₁ h₁ fun _ he => nomatch he)
    | _ => exact Process.sound_pure (hQ _ w₁ h₁ fun _ he => nomatch he)
  · have h₁ := h.mono hrely
    dsimp only
    split
    · exact Process.sound_pure (hQ _ w₁ h₁ fun _ he => nomatch he)
    · rename_i hvalid
      refine Process.sound_pure (hQ _ w₁ h₁ fun j hj => ?_)
      cases hj
      exact h₁.accept hrecorded huid hvalid

theorem sound_observeExistingSourceJob (h : Holding verdicts identity cfg sj w) :
    Sound verdicts identity cfg r (Ends verdicts identity cfg sj) (observeExistingSourceJob cfg sj) w := by
  refine Process.sound_bind.2 (sound_getJob (fun e w₁ hrely => ?_) fun job w₁ hrely hrecorded huid => ?_)
  · exact Process.sound_pure ((h.mono hrely).ends_error _)
  · exact sound_reconcileExistingSourceJob (h.mono hrely) hrecorded huid

theorem sound_createSourceJob {template : Template} (h : Holding verdicts identity cfg sj w) :
    Sound verdicts identity cfg r (Ends verdicts identity cfg sj) (createSourceJob cfg sj template) w := by
  refine Process.sound_bind.2 (sound_createJob (fun e w₁ hrely => ?_) fun job w₁ hrely hrecorded hbody => ?_)
  · have h₁ := h.mono hrely
    cases e with
    | alreadyExists => exact sound_observeExistingSourceJob h₁
    | _ => exact Process.sound_pure (h₁.ends_error _)
  · exact Process.sound_pure ((h.mono hrely).ends
      (observes_job hrecorded (by rw [hbody]) rfl fun _ hs => nomatch hs))

theorem sound_reconcileResources (h : Holding verdicts identity cfg sj w) :
    Sound verdicts identity cfg r (Ends verdicts identity cfg sj) (reconcileResources cfg sj) w := by
  refine Process.sound_bind.2 (sound_getJob (fun e w₁ hrely => ?_) fun job w₁ hrely hrecorded huid => ?_)
  · have h₁ := h.mono hrely
    split
    · rename_i hok
      cases hok
    · split
      · refine Process.sound_bind.2 (sound_readAuthoritativeSourceJob h₁ fun a w₂ h₂ haccepted => ?_)
        split
        · exact Process.sound_pure (h₂.ends_error _)
        · exact Process.sound_pure (h₂.ends_nothing rfl rfl)
        · exact sound_reconcileAcceptedSourceJob (haccepted _ rfl)
      · split
        · exact Process.sound_pure (h₁.ends_nothing rfl rfl)
        · exact sound_createSourceJob h₁
    · exact Process.sound_pure (h₁.ends_error _)
  · exact sound_reconcileExistingSourceJob (h.mono hrely) hrecorded huid

/-! ## The pass -/

theorem sound_ensureJobDeleted (h : Knows identity cfg sj w) :
    Sound verdicts identity cfg r (fun _ _ => True) (ensureJobDeleted sj) w := by
  refine Process.sound_bind.2 (sound_getJob (fun e w₁ hrely => ?_) fun job w₁ hrely hrecorded _ => ?_)
  · cases e with
    | notFound => exact Process.sound_pure trivial
    | _ => exact Process.sound_pure trivial
  · dsimp only
    split
    · exact Process.sound_pure trivial
    · rename_i hcontrolled
      simp only [isControlledBy, Bool.not_eq_true', Bool.not_eq_false, decide_eq_true_eq] at hcontrolled
      split
      · exact Process.sound_pure trivial
      · rename_i hbound
        have huid : sj.body.status.sourceJobUID = "" ∨ job.uid = sj.body.status.sourceJobUID := by
          by_cases hempty : sj.body.status.sourceJobUID = ""
          · exact .inl hempty
          · exact .inr (by_contra fun hne => hbound ⟨hempty, hne⟩)
        refine Process.sound_bind.2 (sound_deleteJob (h.mono hrely) hrecorded hcontrolled huid
          fun a w₂ => ?_)
        split
        · exact Process.sound_pure trivial
        · exact Process.sound_pure trivial
        · exact Process.sound_pure trivial

theorem sound_patchSnapshotJobStatus {observed : Observation} {now : ℕ}
    (h : Holding verdicts identity cfg sj w) (hopen : terminal sj.body.status = false)
    (hobserves : Observes cfg sj observed w) {Q : Except ApiError Unit → World → Prop}
    (herror : ∀ e w₁, Q (.error e) w₁)
    (hok : ∀ w₁, Knows identity cfg
      { sj with body := { sj.body with status := deriveSnapshotJobStatus cfg sj observed now } } w₁ →
      Q (.ok ()) w₁) :
    Sound verdicts identity cfg r Q
      (patchSnapshotJobStatus sj (deriveSnapshotJobStatus cfg sj observed now)) w := by
  simp only [patchSnapshotJobStatus]
  split
  · rename_i hsame
    refine Process.sound_pure (hok w ?_)
    rw [← hsame]
    exact h.toKnows
  · exact sound_patchStatus h hopen hobserves herror hok

theorem sound_reconcileStatus {observed : Observation} {requeue : Option ℕ}
    (h : Holding verdicts identity cfg sj w) (hopen : terminal sj.body.status = false)
    (hobserves : Observes cfg sj observed w) :
    Sound verdicts identity cfg r (fun _ _ => True) (reconcileStatus cfg sj observed requeue) w := by
  refine Process.sound_bind.2 (sound_read rfl fun x w₁ _ hrely _ => ?_)
  refine Process.sound_bind.2 (sound_patchSnapshotJobStatus (h.mono hrely) hopen
    (hobserves.mono hrely.extend) (fun e w₂ => ?_) fun w₂ h₂ => ?_)
  · exact Process.sound_pure trivial
  · dsimp only
    split
    · exact sound_ensureJobDeleted h₂
    · split
      · exact Process.sound_pure trivial
      · exact Process.sound_pure trivial

/-- What a pass knows once it has read its copy. -/
theorem sound_getSnapshotJob (hshows : Shows verdicts identity cfg r)
    {Q : Except ApiError SJ → World → Prop} (herror : ∀ e w₁, Q (.error e) w₁)
    (hok : ∀ sj w₁, Knows identity cfg sj w₁ →
      (terminal sj.body.status = false → Holding verdicts identity cfg sj w₁) → Q (.ok sj) w₁) :
    Sound verdicts identity cfg r Q Pass.getSnapshotJob w := by
  refine sound_read rfl fun x w₁ hinv hrely hallowed => ?_
  cases hget : (perform cfg w₁ .getSnapshotJob x).1 with
  | error e => exact herror e _
  | ok sj =>
    have hsj := lookup_ok hget
    have hknows : Knows identity cfg sj (perform cfg w₁ .getSnapshotJob x).2 := by
      refine ⟨⟨sj, ?_, rfl⟩, ?_, fun hi o ho hu => hshows.identity hi w₁ x sj hallowed hget o ho hu⟩
      · simp only [perform, World.getSnapshotJob] at hget ⊢
        rw [hget]
        rfl
      · exact hinv.history.snapshotJobs.tidy.issued_of_recorded (recorded_view _ _ hsj)
    exact hok sj _ hknows fun hopen => ⟨hknows, fun hv o ho => hshows.verdict hv w₁ x sj hallowed hget hopen o ho⟩

theorem sound_reconcile (hshows : Shows verdicts identity cfg r) :
    Sound verdicts identity cfg r (fun _ _ => True) (reconcile cfg) w := by
  refine Process.sound_bind.2 (sound_getSnapshotJob hshows (fun e w₁ => ?_) fun sj w₁ hknows hholding => ?_)
  · cases e with
    | notFound => exact Process.sound_pure trivial
    | _ => exact Process.sound_pure trivial
  · dsimp only
    split
    · exact Process.sound_pure trivial
    · split
      · exact Process.sound_pure trivial
      · rename_i hfailed
        split
        · exact sound_ensureJobDeleted hknows
        · rename_i hcompleted
          have hopen : terminal sj.body.status = false := by
            simp only [terminal, Bool.or_eq_false_iff]
            exact ⟨Bool.not_eq_true _ ▸ hcompleted, Bool.not_eq_true _ ▸ hfailed⟩
          refine Process.sound_bind.2 ((sound_reconcileResources (hholding hopen)).mono fun a w₂ hends => ?_)
          split
          · exact Process.sound_pure trivial
          · exact sound_reconcileStatus hends.1 hopen (hends.2 _ _ rfl)

end Passes

def discipline {verdicts identity : Prop} {cfg : Config} {r : World → Call → Choice → Bool}
    (hshows : Shows verdicts identity cfg r) : Discipline (kept cfg r) where
  Inv := Inv verdicts cfg
  rely _ := Rely cfg
  guarantee _ w c _ w' := Guarantee verdicts identity cfg w c w'
  rely_refl _ := Rely.refl cfg
  rely_trans := Rely.trans
  disturb {w d w'} hinv hstep := by
    rcases disturb_cases (System.restrict_disturb.1 hstep).2 with ⟨x, hout, rfl⟩ | ⟨kind, version, api, hadvance, rfl⟩
    · exact ⟨hout.inv hinv, fun _ => hout.rely⟩
    · exact ⟨hinv.advance hadvance, fun _ => rely_advance hadvance⟩
  keeps hinv hg := hg.inv hinv
  others _ _ hne := absurd rfl hne
  body {t w} _ := Process.sound_bind.2 ((sound_reconcile hshows).mono fun _ _ _ => Process.sound_pure trivial)

end SnapshotJob
