import Snapshot.SnapshotJobSafety

/-! Finality and identity over whole runs. The passes that break them act on a copy of the
SnapshotJob that lags behind what an earlier pass persisted, or patch a SnapshotJob that has
replaced the one they read. -/
namespace SnapshotJob

open ApiObjects Interleaving OrderedMap Std VersionedServer

/-- Every UID is used once, Jobs have one, and there is at most one verdict. -/
structure World.Initial (cfg : Config) (w : World) : Prop where
  api : w.api = Server.start w.api.current
  snapshotJobs : w.api.current.snapshotJobs.Fresh ∧ w.api.current.snapshotJobs.Distinct
  jobs : w.api.current.jobs.Fresh ∧ w.api.current.jobs.Distinct
  podSnapshots : w.api.current.podSnapshots.Fresh ∧ w.api.current.podSnapshots.Distinct
  pods : w.api.current.pods.Fresh ∧ w.api.current.pods.Distinct
  jobUID : ∀ n j, w.api.current.jobs.get n = some j → j.uid ≠ ""
  exclusive : ∀ s, w.snapshotJob cfg = some s →
    ¬ (isSnapshotJobCompleted s.body.status = true ∧ isSnapshotJobFailed s.body.status = true)

theorem World.Initial.inv {verdicts : Prop} {cfg : Config} {w : World} (h : w.Initial cfg) :
    Inv verdicts cfg w where
  history := by
    rw [h.api]
    exact ⟨chronicle_start h.snapshotJobs.1 h.snapshotJobs.2, chronicle_start h.jobs.1 h.jobs.2,
      chronicle_start h.podSnapshots.1 h.podSnapshots.2, chronicle_start h.pods.1 h.pods.2,
      Server.always_start h.jobUID⟩
  exclusive _ := h.exclusive

/-- A step of the kept system keeps what its calls guarantee. -/
theorem guarantee_step {verdicts identity : Prop} {cfg : Config} {r : World → Call → Choice → Bool}
    (hshows : Shows verdicts identity cfg r) {pool pool' : Pool interface World Unit}
    {event : (kept cfg r).Event} (hholds : (discipline hshows).Holds pool)
    (hstep : (kept cfg r).step pool event = some pool') :
    (VerdictKept cfg pool.world pool'.world ∧ IdentityKept cfg pool.world pool'.world) ∨
      ∃ c k x a, pool.running () = some (.call c k) ∧ r pool.world c x = true ∧
        perform cfg pool.world c x = (a, pool'.world) ∧
        Guarantee verdicts identity cfg pool.world c pool'.world := by
  rcases System.step_world hstep with hsame | ⟨d, _, hd⟩ | ⟨_, c, k, x, a, hk, hperform⟩
  · left
    apply kept_of_status
    intro s t hs ht _
    rw [hsame, hs] at ht
    cases ht
    rfl
  · left
    apply kept_of_status
    intro s t hs ht _
    rcases disturb_cases (System.restrict_disturb.1 hd).2 with ⟨x, hout, heq⟩ | ⟨_, _, api, hadvance, heq⟩
    · rw [heq] at ht
      exact hout.status_eq s t hs ht
    · rw [heq, World.snapshotJob, (Server.advance_eq_some hadvance).2] at ht
      cases hs.symm.trans ht
      rfl
  · obtain ⟨hallowed, hanswer⟩ := perform_kept hperform
    exact .inr ⟨c, k, x, a, hk, hallowed, hanswer, ((discipline hshows).guarantee_call hholds hk hperform).1⟩

/-! ## Finality -/

/-- A copy without a verdict is read only while none is persisted. -/
def verdictShown (cfg : Config) (w : World) : Call → Choice → Bool
  | .getSnapshotJob, x =>
    match (w.getSnapshotJob cfg x).1 with
    | .ok sj => terminal sj.body.status || !(w.snapshotJob cfg).any fun o => terminal o.body.status
    | .error _ => true
  | _, _ => true

theorem shows_verdict (cfg : Config) : Shows True False cfg (verdictShown cfg) where
  verdict _ w x sj hallowed hget hopen o ho := by
    simp only [perform] at hget
    simp only [verdictShown, hget, hopen, ho, Bool.false_or, Option.any_some, Bool.not_eq_true'] at hallowed
    exact hallowed
  identity hi := hi.elim

/-- The runs in which no pass acts on a copy from before a verdict. -/
def decided (cfg : Config) : System interface World Unit := kept cfg (verdictShown cfg)

/-- In every interleaving of passes, crashes, the Job controller, users and caches in which a pass
that reads a SnapshotJob without a verdict reads it while none is persisted: Completed and Failed
exclude each other, and each is final. -/
theorem outcome_final (cfg : Config) {w₀ : World} (h₀ : w₀.Initial cfg)
    {events : List (decided cfg).Event} {pool : Pool interface World Unit}
    (hrun : (decided cfg).run (Pool.idle w₀) events = some pool) :
    (∀ s, pool.world.snapshotJob cfg = some s →
      ¬ (isSnapshotJobCompleted s.body.status = true ∧ isSnapshotJobFailed s.body.status = true)) ∧
    ∀ event pool', (decided cfg).step pool event = some pool' →
      VerdictKept cfg pool.world pool'.world := by
  have hholds := (discipline (shows_verdict cfg)).holds_run
    ((discipline (shows_verdict cfg)).holds_idle h₀.inv) hrun
  refine ⟨hholds.inv.exclusive trivial, fun event pool' hstep => ?_⟩
  rcases guarantee_step (shows_verdict cfg) hholds hstep with hkept | ⟨c, k, x, a, _, _, _, hg⟩
  · exact hkept.1
  · exact hg.verdict trivial

namespace Sample

def config : Config where
  name := "sj"
  parseCuInterposeAnnotation _ := .ok false
  buildTemplate uid spec := .ok ⟨some "sj", some uid, spec.containers⟩
  shapeCuInterposeCapture template _ := .ok template
  podSnapshotTemplateMetadata _ := .ok ()

def spec : Spec := ⟨["main"], ["main"], []⟩

/-- The source Job is complete and its capture is Ready, and both are recorded. -/
def captured : World where
  api := Server.start
    { snapshotJobs := .single "sj" ⟨"u1", 0, none, [],
        ⟨1, spec, { emptyStatus with sourceJobUID := "j1", podSnapshotName := "sj", podSnapshotUID := "p1" }⟩⟩
      jobs := .single "sj" ⟨"j1", 0, none, [],
        ⟨some "u1", ⟨some "sj", some "u1", ["main"]⟩, [⟨.complete, true, "", ""⟩], none⟩⟩
      podSnapshots := .single "sj" ⟨"p1", 0, none, [],
        ⟨some "sj", some "u1", "pod", "q1", ["main"], some ⟨true, "Captured", ""⟩, none⟩⟩
      pods := .empty }
  pass := none

theorem initial_captured : captured.Initial config where
  api := rfl
  snapshotJobs := ⟨Collection.fresh_single rfl, Collection.distinct_single _ _⟩
  jobs := ⟨Collection.fresh_single rfl, Collection.distinct_single _ _⟩
  podSnapshots := ⟨Collection.fresh_single rfl, Collection.distinct_single _ _⟩
  pods := ⟨Collection.fresh_empty, Collection.distinct_empty⟩
  jobUID n j hj := by
    obtain ⟨_, rfl⟩ := Collection.get_single hj
    decide
  exclusive s hs := by
    obtain ⟨_, rfl⟩ := Collection.get_single hs
    decide

/-- A pass persists Completed and deletes the Job. Both caches catch up and the next pass starts. -/
def completed : List (decided config).Event :=
  [.start (), .call () answered, .call () answered, .call () answered, .call () answered,
    .call () answered, .call () answered, .call () answered, .finish (),
    .disturb (Disturbance.advance .jobs 2), .disturb (Disturbance.advance .snapshotJobs 2), .start ()]

/-- Only the Job cache catches up, and the next pass gets as far as its patch. -/
def overtaken : List (system config).Event :=
  [.start (), .call () answered, .call () answered, .call () answered, .call () answered,
    .call () answered, .call () answered, .call () answered, .finish (),
    .disturb (Disturbance.advance .jobs 2), .start (), .call () answered, .call () answered,
    .call () answered, .call () answered]

end Sample

/-- A verdict that was persisted, and the read of the next pass. -/
theorem outcome_final_sample :
    ∃ pool pool', (decided Sample.config).run (Pool.idle Sample.captured) Sample.completed = some pool ∧
      (decided Sample.config).step pool (.call () answered) = some pool' ∧
      ((pool.world.snapshotJob Sample.config).any fun s => isSnapshotJobCompleted s.body.status) = true ∧
      VerdictKept Sample.config pool.world pool'.world := by
  have hcompleted : (((decided Sample.config).run (Pool.idle Sample.captured) Sample.completed).bind
      fun pool => ((decided Sample.config).step pool (.call () answered)).map fun _ =>
        (pool.world.snapshotJob Sample.config).any fun s => isSnapshotJobCompleted s.body.status) =
      some true := by decide +kernel
  obtain ⟨pool, hpool, hcompleted⟩ := Option.bind_eq_some_iff.1 hcompleted
  obtain ⟨pool', hpool', hcompleted⟩ := Option.map_eq_some_iff.1 hcompleted
  exact ⟨pool, pool', hpool, hpool', hcompleted,
    (outcome_final Sample.config Sample.initial_captured hpool).2 _ pool' hpool'⟩

/-- A pass that still sees the SnapshotJob without its verdict, but not the Job that was deleted for
it, takes Completed back and records JobDeleted as a failure. -/
theorem completed_overturned :
    Sample.captured.Initial Sample.config ∧
    ∃ pool pool' s t, (system Sample.config).run (Pool.idle Sample.captured) Sample.overtaken = some pool ∧
      (system Sample.config).step pool (.call () answered) = some pool' ∧
      pool.world.snapshotJob Sample.config = some s ∧ pool'.world.snapshotJob Sample.config = some t ∧
      t.uid = s.uid ∧ isSnapshotJobCompleted s.body.status = true ∧
      isSnapshotJobCompleted t.body.status = false ∧
      ∃ c, t.body.status.conditions.failed = some c ∧ c.status = true ∧ c.reason = "JobDeleted" := by
  have hbad : ((system Sample.config).run (Pool.idle Sample.captured) Sample.overtaken).any (fun pool =>
      ((system Sample.config).step pool (.call () answered)).any fun pool' =>
        (pool.world.snapshotJob Sample.config).any fun s =>
          (pool'.world.snapshotJob Sample.config).any fun t =>
            t.uid = s.uid && isSnapshotJobCompleted s.body.status &&
            !isSnapshotJobCompleted t.body.status &&
            t.body.status.conditions.failed.any fun c => c.status && c.reason = "JobDeleted") = true := by
    decide +kernel
  simp only [Option.any_eq_true, Bool.and_eq_true, decide_eq_true_eq, Bool.not_eq_true'] at hbad
  obtain ⟨pool, hpool, pool', hpool', s, hs, t, ht, ⟨⟨hu, hsc⟩, htc⟩, c, hc, htrue, hreason⟩ := hbad
  exact ⟨Sample.initial_captured, pool, pool', s, t, hpool, hpool', hs, ht, hu, hsc, htc,
    c, hc, htrue, hreason⟩

/-! ## Identity -/

/-- A copy is read only while it shows the UIDs that are persisted for its SnapshotJob, and a call
that writes is made only while the SnapshotJob of the pass has not been replaced. -/
def identityShown (cfg : Config) (w : World) : Call → Choice → Bool
  | .getSnapshotJob, x =>
    match (w.getSnapshotJob cfg x).1, w.snapshotJob cfg with
    | .ok sj, some o => o.uid ≠ sj.uid ||
        (o.body.status.sourceJobUID = sj.body.status.sourceJobUID &&
          o.body.status.podSnapshotUID = sj.body.status.podSnapshotUID)
    | _, _ => true
  | c, _ => c.reads || (w.snapshotJob cfg).all fun o => w.pass.all fun p => p.uid = o.uid

/-- The runs in which every pass works on the recorded identity. -/
def identified (cfg : Config) : System interface World Unit := kept cfg (identityShown cfg)

namespace Sample

/-- A new SnapshotJob. -/
def created : World where
  api := Server.start
    { snapshotJobs := .single "sj" ⟨"u1", 0, none, [], ⟨1, spec, emptyStatus⟩⟩
      jobs := .empty
      podSnapshots := .empty
      pods := .empty }
  pass := none

/-- A pass creates and records the source Job, the Job controller creates its pod, and the next pass
gets as far as the creation of the PodSnapshot. -/
def bound : List (identified config).Event :=
  [.start (), .call () answered, .call () answered, .call () (Choice.mk .answered 0 "j1"),
    .call () answered, .call () answered, .finish (),
    .disturb (Disturbance.createPod "pod" "q1" [] ⟨some "sj", some "j1", [], []⟩),
    .disturb (Disturbance.advance .snapshotJobs 3), .disturb (Disturbance.advance .jobs 3),
    .disturb (Disturbance.advance .pods 3), .start (), .call () answered, .call () answered,
    .call () answered, .call () answered]

end Sample

end SnapshotJob
