import Mathlib.Data.List.Sort
import Mathlib.Data.String.Basic
import Snapshot.CyclicBatches

/-! The sweep over the non-target artifacts of failed SnapshotJobs, in
`operator/internal/maintenance/non_target_artifacts.go`: the paged listing of the jobs whose artifacts are
stored, which may take several work items, and the batch of jobs that a sweep with a finished listing then
looks at. -/
namespace NonTargetSweep

/-- A configuration that `Validate` accepts. -/
structure Config where
  batchSize : ℕ
  listAttempts : ℕ
  batchSize_pos : 0 < batchSize
  listAttempts_pos : 0 < listAttempts

structure JobKey where
  ns : String
  name : String
  uid : String
  deriving DecidableEq, Repr

structure NonTargetArtifacts where
  /-- `OnFailure` is `Cleanup`. -/
  cleanup : Bool
  containers : List String
  deriving DecidableEq, Repr

structure SnapshotJob where
  uid : String
  nonTargetArtifacts : Option NonTargetArtifacts
  failed : Bool
  completed : Bool
  deriving DecidableEq, Repr

/-- One page of SnapshotJob metadata. -/
structure Page where
  resourceVersion : String
  items : List JobKey
  continue' : String
  deriving DecidableEq, Repr

structure Scan where
  candidates : List String
  jobs : List JobKey := []
  continueToken : String := ""
  resourceVersion : String := ""
  deriving DecidableEq, Repr

/-- What a sweep keeps in the queue for the next one. -/
structure Queue where
  cursor : String := ""
  scan : Option Scan := none
  retentionWarned : List String := []
  deriving DecidableEq, Repr

variable {E : Type}

/-- A failed read: whether the object is not there, and for a list whether its snapshot has expired. -/
structure ReadError (E : Type) where
  error : E
  notFound : Bool := false
  expired : Bool := false

inductive Error (E : Type) where
  | candidates (error : E)
  | list (error : E)
  | resourceVersionChanged
  | noUID (ns name : String)
  | invalidContinuation
  | read (error : E)
  | writers (error : E)
  | delete (error : E)

/-- What a sweep asks for, and what it does to the store and reports. -/
inductive Effect where
  | get (candidate : JobKey)
  | deleteNonTargetArtifacts (uid : String)
  | retainedEvent (uid reason : String)
  | reclaimedEvent (uid : String)
  | addAfter (milliseconds : ℕ)
  deriving DecidableEq, Repr

/-- The answers that one sweep gets. -/
structure World (E : Type) where
  candidates : Except E (List String)
  /-- The `n`-th request for a page. -/
  list : ℕ → String → Except (ReadError E) Page
  /-- The context has ended after the `n`-th request. -/
  ended : ℕ → Bool
  get : JobKey → Except (ReadError E) SnapshotJob
  writersStopped : SnapshotJob → Except E (Bool × String)
  delete : String → Except E Unit

def nonTargetJobPagesPerSweep : ℕ := 4

def permanentNonTargetRetention (reason : String) : Bool :=
  reason ∈ ["source Pod record is absent; writer exit cannot be proven across Kubernetes versions",
    "original source Pod identity or termination is not proven",
    "no source Job UID was recorded",
    "source Job is absent; disappearance is not writer-exit proof",
    "source Job identity or one-shot policy does not match the attempt",
    "source Job writer declaration or attempt binding does not match",
    "declared writer lacks the exact attempt UID and storage subdirectory"]

/-! ## The listing -/

/-- A request for a page is repeated until it succeeds, the context ends or no attempt is left. -/
def listPage (w : World E) (token : String) : ℕ → ℕ → ℕ × Except (ReadError E) Page
  | 0, request => (request + 1, w.list request token)
  | attempts + 1, request =>
    match w.list request token with
    | .ok list => (request + 1, .ok list)
    | .error err => if w.ended request then (request + 1, .error err) else listPage w token attempts (request + 1)

/-- The jobs of a page whose artifacts are stored. -/
def addItems (scan : Scan) : List JobKey → Except (Error E) Scan
  | [] => .ok scan
  | job :: items =>
    if job.uid = "" then .error (.noUID job.ns job.name)
    else if job.uid ∈ scan.candidates then addItems { scan with jobs := scan.jobs ++ [job] } items
    else addItems scan items

/-- A page belongs to the list that the first one was taken from. -/
def addPage (scan : Scan) (list : Page) : Except (Error E) Scan :=
  if scan.continueToken ≠ "" ∧ list.resourceVersion ≠ scan.resourceVersion then
    .error .resourceVersionChanged
  else if scan.resourceVersion = "" then
    addItems { scan with resourceVersion := list.resourceVersion } list.items
  else addItems scan list.items

/-- The pages of one sweep; no list is a listing that goes on with the next sweep. -/
def scanPages (config : Config) (w : World E) :
    ℕ → ℕ → Scan → Option Scan × Except (Error E) (Option (List JobKey))
  | 0, _, scan => (some scan, .ok none)
  | pages + 1, request, scan =>
    match listPage w scan.continueToken (config.listAttempts - 1) request with
    | (_, .error err) => (if err.expired then none else some scan, .error (.list err.error))
    | (request, .ok list) =>
      match addPage scan list with
      | .error err => (none, .error err)
      | .ok scan =>
        if list.continue' = "" then
          (none, .ok (some (scan.jobs.insertionSort fun a b => a.uid ≤ b.uid)))
        else if list.continue' = scan.continueToken ∨ scan.resourceVersion = "" then
          (none, .error .invalidContinuation)
        else scanPages config w pages request { scan with continueToken := list.continue' }

def nonTargetArtifactJobs (config : Config) (w : World E) (q : Queue) (candidates : List String) :
    Queue × Except (Error E) (Option (List JobKey)) :=
  let (scan, jobs) := scanPages config w nonTargetJobPagesPerSweep 0 (q.scan.getD { candidates })
  ({ q with scan }, jobs)

/-! ## The batch -/

/-- What one turn of the loop leaves: the queue, the errors it adds and what it does. -/
structure Turn (E : Type) where
  queue : Queue
  errors : List (Error E) := []
  effects : List Effect

def cleanUp (w : World E) (q : Queue) (candidate : JobKey) (sj : SnapshotJob) : Turn E :=
  match w.writersStopped sj with
  | .error err => { queue := q, errors := [.writers err], effects := [.get candidate] }
  | .ok (false, reason) =>
    if permanentNonTargetRetention reason ∧ sj.uid ∉ q.retentionWarned then
      { queue := { q with retentionWarned := sj.uid :: q.retentionWarned }
        effects := [.get candidate, .retainedEvent sj.uid reason] }
    else { queue := q, effects := [.get candidate] }
  | .ok (true, _) =>
    match w.delete sj.uid with
    | .error err =>
      { queue := q, errors := [.delete err]
        effects := [.get candidate, .deleteNonTargetArtifacts sj.uid] }
    | .ok () =>
      { queue := { q with retentionWarned := q.retentionWarned.filter (· ≠ sj.uid) }
        effects := [.get candidate, .deleteNonTargetArtifacts sj.uid, .reclaimedEvent sj.uid] }

/-- The failed attempt that was listed, and that asks for its artifacts to be removed. -/
def reclaimable (sj : SnapshotJob) (candidate : JobKey) : Bool :=
  sj.uid == candidate.uid &&
    match sj.nonTargetArtifacts with
    | none => false
    | some artifacts =>
      artifacts.cleanup && sj.failed && !sj.completed && !artifacts.containers.isEmpty

/-- One turn of the loop. -/
def consider (w : World E) (q : Queue) (candidate : JobKey) : Turn E :=
  let q := { q with cursor := candidate.uid }
  match w.get candidate with
  | .error err =>
    { queue := q, errors := if err.notFound then [] else [.read err.error], effects := [.get candidate] }
  | .ok sj =>
    if reclaimable sj candidate then cleanUp w q candidate sj
    else { queue := q, effects := [.get candidate] }

/-- The loop, from its turn `i` on. -/
def considerFrom (config : Config) (w : World E) (jobs : List JobKey) (start : ℕ) :
    ℕ → ℕ → Queue → Turn E
  | 0, _, q => { queue := q, effects := [] }
  | turns + 1, i, q =>
    if i < jobs.length ∧ i < config.batchSize then
      match jobs[(start + i) % jobs.length]? with
      | none => { queue := q, effects := [] }
      | some candidate =>
        let turn := consider w q candidate
        let rest := considerFrom config w jobs start turns (i + 1) turn.queue
        ⟨rest.queue, turn.errors ++ rest.errors, turn.effects ++ rest.effects⟩
    else { queue := q, effects := [] }

/-- A sweep, with the list of a finished listing. -/
structure Sweep (E : Type) where
  queue : Queue
  errors : List (Error E) := []
  effects : List Effect := []
  listed : Option (List JobKey) := none

def processNonTargetArtifactSweep (config : Config) (w : World E) (q : Queue) : Sweep E :=
  match w.candidates with
  | .error err => { queue := q, errors := [.candidates err] }
  | .ok [] => { queue := { q with scan := none, retentionWarned := [] } }
  | .ok candidates =>
    let q := { q with retentionWarned := q.retentionWarned.filter (· ∈ candidates) }
    match nonTargetArtifactJobs config w q candidates with
    | (q, .error err) => { queue := q, errors := [err], effects := [.addAfter 5000] }
    | (q, .ok none) => { queue := q, effects := [.addAfter 100] }
    | (q, .ok (some jobs)) =>
      let start := (jobs.takeWhile fun job => decide (job.uid ≤ q.cursor)).length
      let turn := considerFrom config w jobs start jobs.length 0 q
      { queue := turn.queue, errors := turn.errors, effects := turn.effects, listed := some jobs }

/-- Sweeps one after the other. -/
def sweeps (config : Config) : Queue → List (World E) → List (Sweep E)
  | _, [] => []
  | q, w :: worlds =>
    let sweep := processNonTargetArtifactSweep config w q
    sweep :: sweeps config sweep.queue worlds

def gets (effects : List Effect) : List JobKey :=
  effects.filterMap fun
    | .get candidate => some candidate
    | _ => none

/-- The jobs that a sweep considers: those whose SnapshotJob it asks for. -/
def Sweep.considered (s : Sweep E) : List JobKey := gets s.effects

/-! ## What one sweep considers -/

section Sweep

variable {config : Config} {w : World E} {q : Queue} {jobs : List JobKey}

/-- A turn moves the cursor to its job and asks for it, whatever comes of that. -/
theorem consider_spec (w : World E) (q : Queue) (candidate : JobKey) :
    (consider w q candidate).queue.cursor = candidate.uid ∧
      gets (consider w q candidate).effects = [candidate] := by
  have hclean : ∀ (q : Queue) (sj : SnapshotJob), (cleanUp w q candidate sj).queue.cursor = q.cursor ∧
      gets (cleanUp w q candidate sj).effects = [candidate] := by
    intro q sj
    simp only [cleanUp]
    split
    · exact ⟨rfl, rfl⟩
    · split <;> exact ⟨rfl, rfl⟩
    · split <;> exact ⟨rfl, rfl⟩
  simp only [consider]
  split
  · exact ⟨rfl, rfl⟩
  · split
    · exact hclean _ _
    · exact ⟨rfl, rfl⟩

open CyclicBatches in
/-- From turn `i` on the loop asks for the rest of the batch. -/
theorem considerFrom_spec (config : Config) (w : World E) (jobs : List JobKey) (cursor : String)
    (turns i : ℕ) (q : Queue) (hturns : jobs.length ≤ turns + i) :
    let rest := (batch JobKey.uid jobs config.batchSize cursor).drop i
    let turn := considerFrom config w jobs (start JobKey.uid jobs cursor) turns i q
    gets turn.effects = rest ∧ turn.queue.cursor = next JobKey.uid q.cursor rest := by
  have hlength : (batch JobKey.uid jobs config.batchSize cursor).length = min jobs.length config.batchSize := length_batch
  induction turns generalizing i q with
  | zero =>
    rw [considerFrom, List.drop_eq_nil_of_le (by omega)]
    exact ⟨rfl, rfl⟩
  | succ turns ih =>
    simp only [considerFrom]
    split_ifs with hi
    · have hget : (batch JobKey.uid jobs config.batchSize cursor)[i]? = jobs[(start JobKey.uid jobs cursor + i) % jobs.length]? :=
        getElem?_batch (by omega)
      have hlt : i < (batch JobKey.uid jobs config.batchSize cursor).length := by omega
      rw [← hget, List.getElem?_eq_getElem hlt, List.drop_eq_getElem_cons hlt]
      obtain ⟨hcursor, hgets⟩ := consider_spec w q (batch JobKey.uid jobs config.batchSize cursor)[i]
      obtain ⟨hrest, hnext⟩ := ih (i + 1)
        (consider w q (batch JobKey.uid jobs config.batchSize cursor)[i]).queue (by omega)
      refine ⟨?_, ?_⟩
      · rw [gets, List.filterMap_append]
        exact congrArg₂ (· ++ ·) hgets hrest
      · rw [hnext, hcursor, next_cons]
    · rw [List.drop_eq_nil_of_le (by omega)]
      exact ⟨rfl, rfl⟩

/-- The list of a finished listing is in the order of the UIDs. -/
theorem scanPages_sorted (pages request : ℕ) (scan : Scan)
    (h : (scanPages config w pages request scan).2 = .ok (some jobs)) :
    jobs.Pairwise fun a b => a.uid ≤ b.uid := by
  induction pages generalizing request scan with
  | zero => cases h
  | succ pages ih =>
    simp only [scanPages] at h
    split at h
    · cases h
    · split at h
      · cases h
      · split_ifs at h
        · cases h
          have : Std.Total fun a b : JobKey => a.uid ≤ b.uid := ⟨fun a b => le_total a.uid b.uid⟩
          have : IsTrans JobKey fun a b => a.uid ≤ b.uid := ⟨fun a b c => le_trans⟩
          exact List.pairwise_insertionSort _ _
        · exact ih _ _ h

open CyclicBatches in
/-- A sweep without a finished list considers nothing and leaves the cursor. One with a list, which is then
in the order of the UIDs, considers the batch behind the cursor and leaves the cursor at its end. -/
theorem sweep_spec (config : Config) (w : World E) (q : Queue) :
    let s := processNonTargetArtifactSweep config w q
    (s.listed = none → s.considered = [] ∧ s.queue.cursor = q.cursor) ∧
    ∀ jobs, s.listed = some jobs → jobs.Pairwise (fun a b => a.uid ≤ b.uid) ∧
      s.considered = batch JobKey.uid jobs config.batchSize q.cursor ∧
      s.queue.cursor = next JobKey.uid q.cursor s.considered := by
  simp only [processNonTargetArtifactSweep]
  split
  · exact ⟨fun _ => ⟨rfl, rfl⟩, fun jobs h => by cases h⟩
  · exact ⟨fun _ => ⟨rfl, rfl⟩, fun jobs h => by cases h⟩
  · rename_i candidates _ _
    generalize hfiltered : ({ q with retentionWarned := q.retentionWarned.filter (· ∈ candidates) } : Queue) = q₀
    have hcursor : (nonTargetArtifactJobs config w q₀ candidates).1.cursor = q.cursor := by
      rw [← hfiltered]
      rfl
    have hsorted : ∀ jobs, (nonTargetArtifactJobs config w q₀ candidates).2 = .ok (some jobs) →
        jobs.Pairwise fun a b => a.uid ≤ b.uid := by
      intro jobs h
      rw [nonTargetArtifactJobs] at h
      exact scanPages_sorted _ _ _ h
    generalize nonTargetArtifactJobs config w q₀ candidates = result at hcursor hsorted
    obtain ⟨q₁, jobs⟩ := result
    cases jobs with
    | error err => exact ⟨fun _ => ⟨rfl, hcursor⟩, fun jobs h => by cases h⟩
    | ok jobs =>
      cases jobs with
      | none => exact ⟨fun _ => ⟨rfl, hcursor⟩, fun jobs h => by cases h⟩
      | some jobs =>
        refine ⟨fun h => absurd h (by simp), fun jobs' h => ?_⟩
        cases h
        obtain ⟨hgets, hnext⟩ := considerFrom_spec config w jobs q₁.cursor jobs.length 0 q₁ (by omega)
        rw [List.drop_zero] at hgets hnext
        rw [← hcursor]
        exact ⟨hsorted jobs rfl, hgets, hnext.trans (congrArg (next JobKey.uid q₁.cursor) hgets.symm)⟩

end Sweep

/-! ## Sweeps one after the other -/

section Sweeps

variable {config : Config} {jobs : List JobKey} {q : Queue} {worlds : List (World E)}

open CyclicBatches in
/-- The finished sweeps over one list take the rounds of the list, one after the other. -/
theorem considered_sweeps (hsame : ∀ s ∈ sweeps config q worlds, ∀ l, s.listed = some l → l = jobs) :
    ((sweeps config q worlds).filter (·.listed.isSome)).map (·.considered) =
      (List.range ((sweeps config q worlds).filter (·.listed.isSome)).length).map fun n =>
        batch JobKey.uid jobs config.batchSize
          (cursorAfter JobKey.uid jobs config.batchSize q.cursor n) := by
  induction worlds generalizing q with
  | nil => rfl
  | cons w worlds ih =>
    simp only [sweeps] at hsame ⊢
    obtain ⟨hidle, hfinished⟩ := sweep_spec config w q
    have hrest := ih fun s hs => hsame s (List.mem_cons_of_mem _ hs)
    cases hlisted : (processNonTargetArtifactSweep config w q).listed with
    | none =>
      rw [List.filter_cons_of_neg (by simp [hlisted]), hrest, (hidle hlisted).2]
    | some l =>
      have hl := hsame _ List.mem_cons_self l hlisted
      subst hl
      obtain ⟨-, hconsidered, hcursor⟩ := hfinished l hlisted
      rw [List.filter_cons_of_pos (by simp [hlisted]), List.map_cons, hrest, List.length_cons,
        List.range_succ_eq_map, List.map_cons, List.map_map, hcursor, hconsidered]
      rfl

theorem sorted_of_mem_sweeps {s : Sweep E} (hs : s ∈ sweeps config q worlds) (hlisted : s.listed = some jobs) :
    jobs.Pairwise fun a b => a.uid ≤ b.uid := by
  induction worlds generalizing q with
  | nil => cases hs
  | cons w worlds ih =>
    rcases List.mem_cons.1 hs with rfl | hs
    · exact ((sweep_spec config w q).2 jobs hlisted).1
    · exact ih hs

/-- Sweeps over a list of jobs with distinct UIDs, from any cursor, with any answers and with unfinished
listings in between: each finished one considers a full batch of different jobs, and every job is
considered as soon as `⌈n / b⌉` of them have finished. -/
theorem sweeps_fair (config : Config) (q : Queue) (worlds : List (World E)) (jobs : List JobKey)
    (hdistinct : (jobs.map (·.uid)).Nodup)
    (hsame : ∀ s ∈ sweeps config q worlds, ∀ l, s.listed = some l → l = jobs) :
    (∀ s ∈ sweeps config q worlds, s.listed.isSome → s.considered.Nodup ∧
      s.considered.length = min jobs.length config.batchSize ∧ ∀ job ∈ s.considered, job ∈ jobs) ∧
    ((jobs.length + config.batchSize - 1) / config.batchSize ≤
        ((sweeps config q worlds).filter (·.listed.isSome)).length →
      ∀ job ∈ jobs, ∃ s ∈ sweeps config q worlds, s.listed.isSome ∧ job ∈ s.considered) := by
  have hnodup : jobs.Nodup := hdistinct.of_map _
  have hrounds := considered_sweeps hsame
  constructor
  · intro s hs hlisted
    have hmem : s.considered ∈ ((sweeps config q worlds).filter (·.listed.isSome)).map (·.considered) :=
      List.mem_map_of_mem (List.mem_filter.2 ⟨hs, hlisted⟩)
    rw [hrounds] at hmem
    obtain ⟨n, -, heq⟩ := List.mem_map.1 hmem
    rw [← heq]
    exact ⟨CyclicBatches.nodup_batch hnodup, CyclicBatches.length_batch,
      fun job hjob => CyclicBatches.mem_of_mem_batch hjob⟩
  · intro henough job hjob
    have hpos := config.batchSize_pos
    have hfill : jobs.length ≤ ((sweeps config q worlds).filter (·.listed.isSome)).length *
        config.batchSize := by
      rw [Nat.div_le_iff_le_mul hpos] at henough
      omega
    have hstrict : jobs.Pairwise fun a b => a.uid < b.uid := by
      have hne : (sweeps config q worlds).filter (·.listed.isSome) ≠ [] := by
        intro hnil
        rw [hnil, List.length_nil, Nat.zero_mul] at hfill
        have := List.length_pos_of_mem hjob
        omega
      obtain ⟨s, hs⟩ := List.exists_mem_of_ne_nil _ hne
      obtain ⟨hs, hlisted⟩ := List.mem_filter.1 hs
      obtain ⟨l, hl⟩ := Option.isSome_iff_exists.1 hlisted
      have hsorted := sorted_of_mem_sweeps hs hl
      rw [hsame s hs l hl] at hsorted
      exact (hsorted.and (List.pairwise_map.1 hdistinct)).imp fun h => lt_of_le_of_ne h.1 h.2
    obtain ⟨n, hn, hmem⟩ := @CyclicBatches.exists_mem_batch _ _ _ JobKey.uid jobs q.cursor _ _ hstrict hpos _ hfill hjob
    have hround := List.mem_map_of_mem (f := fun n => CyclicBatches.batch JobKey.uid jobs config.batchSize
      (CyclicBatches.cursorAfter JobKey.uid jobs config.batchSize q.cursor n)) (List.mem_range.2 hn)
    rw [← hrounds] at hround
    obtain ⟨s, hs, heq⟩ := List.mem_map.1 hround
    obtain ⟨hs, hlisted⟩ := List.mem_filter.1 hs
    exact ⟨s, hs, hlisted, heq ▸ hmem⟩

/-- Two sweeps of one job each, over two jobs of which the first is retained and the second cannot be read;
the cursor is behind both. -/
def twoJobs : List JobKey := [⟨"ns", "a", "u1"⟩, ⟨"ns", "b", "u2"⟩]

def retainingWorld : World Unit where
  candidates := .ok ["u1", "u2"]
  list := fun _ _ => .ok ⟨"7", twoJobs.reverse, ""⟩
  ended := fun _ => false
  get := fun job => if job.uid = "u1" then .ok ⟨"u1", some ⟨true, ["writer"]⟩, true, false⟩ else
    .error { error := () }
  writersStopped := fun _ => .ok (false, "source Job is not terminal")
  delete := fun _ => .ok ()

theorem sweeps_fair_sample :
    let config : Config := ⟨1, 3, by decide, by decide⟩
    let q : Queue := { cursor := "u9" }
    ∀ job ∈ twoJobs, ∃ s ∈ sweeps config q [retainingWorld, retainingWorld],
      s.listed.isSome ∧ job ∈ s.considered := by
  intro config q
  exact (sweeps_fair config q [retainingWorld, retainingWorld] twoJobs (by decide)
    (by decide +kernel)).2 (by decide +kernel)

end Sweeps

end NonTargetSweep
