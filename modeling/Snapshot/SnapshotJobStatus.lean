import Snapshot.SnapshotJobOutcome

/-! The derivation of a SnapshotJob's status, condition by condition. Each stage rewrites fields that
no other stage reads, Running apart, so the derived status is a record of four conditions, two times and
three references that settle independently of each other. A status that was derived from an observation
is derived from it again, unless Running is first reported True and then settled to False in one pass. -/

namespace SnapshotJob

open PodSnapshot (isTrue)

/-! ## What an observation says -/

/-- A live Job with a ready Pod, the only observation that reports Running. -/
def Observation.podReady (observed : Observation) : Bool :=
  observed.job.any fun job =>
    job.body.ready.any (0 < ·) && (classifySourceJobTerminal job).state = .active

def Observation.captureFailed (observed : Observation) : Bool :=
  observed.podSnapshot.any fun snap => isTrue snap.body.failed

def Observation.captureReady (observed : Observation) : Bool :=
  observed.podSnapshot.any fun snap => isTrue snap.body.ready

/-- The failure that ends the SnapshotJob. -/
def Observation.ending (observed : Observation) : Option Failure :=
  match observed.podSnapshot with
  | none => observed.failure
  | some snap =>
    if isTrue snap.body.failed then
      observed.failure <|> some ⟨(captureFailureReason snap).1, (captureFailureReason snap).2⟩
    else observed.failure

theorem Observation.ending_isSome (observed : Observation) :
    observed.ending.isSome = (observed.failure.isSome || observed.captureFailed) := by
  rcases observed with ⟨job, podSnapshot, missing, finished, failure⟩
  cases podSnapshot with
  | none => exact (Bool.or_false _).symm
  | some snap =>
    simp only [Observation.ending, Observation.captureFailed, Option.any_some]
    by_cases hfailed : isTrue snap.body.failed = true
    · rw [if_pos hfailed, hfailed]
      cases failure <;> rfl
    · rw [if_neg hfailed, Bool.eq_false_iff.mpr hfailed, Bool.or_false]

/-! ## Conditions -/

theorem isSome_setCondition (c : Option Condition) (g now : ℕ) (status : Bool) (reason message : String) :
    (setCondition c g now status reason message).isSome = true := by
  cases c <;> rfl

/-- Setting a status again changes neither it nor the time of its transition. -/
theorem setCondition_setCondition (c : Option Condition) (g now now' : ℕ) (status : Bool)
    (reason message reason' message' : String) :
    setCondition (setCondition c g now status reason message) g now' status reason' message' =
      setCondition c g now status reason' message' := by
  cases c with
  | none => simp only [setCondition, if_true]
  | some c => simp only [setCondition, if_true]

/-- A condition that is True and is set to False makes a transition now. -/
theorem setCondition_of_holds {c : Option Condition} (h : holds c = true) (g now : ℕ)
    (reason message : String) :
    setCondition c g now false reason message = some ⟨false, reason, message, g, now⟩ := by
  cases c with
  | none => exact absurd h nofun
  | some c =>
    have hstatus : c.status = true := h
    simp only [setCondition, hstatus, Bool.true_eq_false, if_false]

/-! ## Where each condition settles -/

section Settle

variable (g now : ℕ) (observed : Observation)

/-- What the source Job reports for Running, if anything. -/
def Observation.runningReport (observed : Observation) : Option (Bool × String × String) :=
  match observed.job with
  | none => observed.failure.map fun f => (false, f.reason, "source pod is unavailable: " ++ f.cause)
  | some job =>
    match (classifySourceJobTerminal job).state, (classifySourceJobTerminal job).failure with
    | .complete, _ => some (false, "JobCompleted", "source Job completed")
    | .failed, some f | .deadlineExceeded, some f => some (false, f.reason, f.cause)
    | _, _ =>
      if job.body.ready.any (0 < ·) then some (true, "PodReady", "source pod is ready")
      else some (false, "PodPending",
        if observed.sourcePodMissing then "waiting for the source Job to create a pod"
        else "waiting for the source pod to become ready")

def reportRunning (c : Option Condition) : Option Condition :=
  match observed.runningReport with
  | none => c
  | some (status, reason, message) => setCondition c g now status reason message

def settleRunning (c : Option Condition) : Option Condition :=
  match observed.ending with
  | some f =>
    if holds c then setCondition c g now false f.reason
      "the SnapshotJob failed terminally; the source Job is preserved for debugging"
    else c
  | none =>
    if !observed.captureReady then c
    else if !observed.sourceJobFinished then setCondition c g now false "WaitingForPodCompletion"
      "snapshot taken; the source pod's remaining containers are finishing"
    else setCondition c g now false "JobCompleted" "source Job finished"

def settleCaptured (c : Option Condition) : Option Condition :=
  match observed.podSnapshot with
  | none =>
    match observed.failure with
    | some f =>
      if holds c then c
      else setCondition c g now false f.reason ("checkpoint did not complete: " ++ f.cause)
    | none => c
  | some snap =>
    if isTrue snap.body.failed then
      setCondition c g now false (captureFailureReason snap).1 (captureFailureReason snap).2
    else if isTrue snap.body.ready then
      setCondition c g now true "CaptureCompleted"
        "the target container's state is saved to the snapshot store"
    else setCondition c g now false "CaptureInProgress" "waiting for the node agent to take the snapshot"

def settleCompleted (c : Option Condition) : Option Condition :=
  match observed.ending with
  | some f =>
    if holds c then c
    else setCondition c g now false f.reason ("the SnapshotJob failed before completing: " ++ f.cause)
  | none =>
    if !observed.captureReady then c
    else if !observed.sourceJobFinished then setCondition c g now false "WaitingForPodCompletion"
      "snapshot taken; waiting for the source pod's remaining containers to finish"
    else setCondition c g now true "JobCompleted"
      "snapshot taken and source workload finished; source Job cleanup initiated"

def settleFailed (c : Option Condition) : Option Condition :=
  match observed.ending with
  | some f => setCondition c g now true f.reason f.cause
  | none => c

/-- The times that a pass records. -/
def startTime : Option ℕ :=
  if observed.job.any fun job => job.body.ready.any (0 < ·) then some now else none

def completionTime : Option ℕ :=
  if observed.ending.isSome || (observed.captureReady && observed.sourceJobFinished) then some now
  else none

def recordedJob (uid : String) : String :=
  match observed.job with
  | some job => if uid = "" then job.uid else uid
  | none => uid

def recordedSnapshot (uid : String) : String :=
  match observed.podSnapshot with
  | some snap => if uid = "" then snap.uid else uid
  | none => uid

def recordedName (cfg : Config) (name : String) : String :=
  if observed.podSnapshot.isSome then cfg.name else name

/-- Every condition and reference of a status, settled on its own. -/
def settle (cfg : Config) (s : Status) : Status where
  conditions :=
    { running := settleRunning g now observed (reportRunning g now observed s.conditions.running)
      captured := settleCaptured g now observed s.conditions.captured
      completed := settleCompleted g now observed s.conditions.completed
      failed := settleFailed g now observed s.conditions.failed }
  startedAt := s.startedAt <|> startTime now observed
  completedAt := s.completedAt <|> completionTime now observed
  sourceJobUID := recordedJob observed s.sourceJobUID
  podSnapshotName := recordedName observed cfg s.podSnapshotName
  podSnapshotUID := recordedSnapshot observed s.podSnapshotUID

end Settle

/-! ## The stages of the derivation -/

section Stages

variable (cfg : Config) (g now : ℕ) (s : Status) (observed : Observation)

theorem deriveRunningStatus_eq : deriveRunningStatus g now s observed =
    { s with
      startedAt := s.startedAt <|> startTime now observed
      conditions := { s.conditions with
        running := reportRunning g now observed s.conditions.running } } := by
  rcases observed with ⟨job, podSnapshot, missing, finished, failure⟩
  cases job with
  | none =>
    have hstarted : (s.startedAt <|> startTime now ⟨none, podSnapshot, missing, finished, failure⟩) =
        s.startedAt := by cases s.startedAt <;> rfl
    rw [hstarted]
    cases failure <;> rfl
  | some job =>
    have hstarted : (if (job.body.ready.any (0 < ·) && s.startedAt.isNone) = true then
        { s with startedAt := some now } else s) =
        { s with startedAt := s.startedAt <|>
          startTime now ⟨some job, podSnapshot, missing, finished, failure⟩ } := by
      rcases s with ⟨conditions, startedAt, completedAt, jobUID, name, uid⟩
      simp only [startTime, Option.any_some]
      by_cases hready : job.body.ready.any (0 < ·) = true
      · simp only [hready, Bool.true_and]
        cases startedAt <;> rfl
      · simp only [hready, Bool.false_and, Bool.false_eq_true, if_false]
        cases startedAt <;> rfl
    simp only [deriveRunningStatus, hstarted, reportRunning, Observation.runningReport]
    cases (classifySourceJobTerminal job).state <;> cases (classifySourceJobTerminal job).failure <;>
      cases job.body.ready.any (0 < ·) <;> rfl

theorem deriveCapturedStatus_eq : deriveCapturedStatus cfg g now s observed =
    ({ s with
      podSnapshotName := recordedName observed cfg s.podSnapshotName
      podSnapshotUID := recordedSnapshot observed s.podSnapshotUID
      conditions := { s.conditions with
        captured := settleCaptured g now observed s.conditions.captured } }, observed.ending) := by
  rcases observed with ⟨job, podSnapshot, missing, finished, failure⟩
  cases podSnapshot with
  | none =>
    cases failure with
    | none => rfl
    | some f =>
      simp only [deriveCapturedStatus, settleCaptured]
      split <;> rfl
  | some snap =>
    simp only [deriveCapturedStatus, settleCaptured, Observation.ending]
    split
    · rfl
    · split <;> rfl

theorem deriveFailureStatus_eq {f : Failure} (hf : observed.ending = some f) :
    deriveFailureStatus g now s f =
    { s with
      completedAt := s.completedAt <|> completionTime now observed
      conditions := { s.conditions with
        running := settleRunning g now observed s.conditions.running
        completed := settleCompleted g now observed s.conditions.completed
        failed := settleFailed g now observed s.conditions.failed } } := by
  have htime : completionTime now observed = some now := by
    rw [completionTime, hf, Option.isSome_some, Bool.true_or, if_pos rfl]
  rw [htime]
  rcases s with ⟨⟨running, captured, completed, failed⟩, startedAt, completedAt, jobUID, name, uid⟩
  simp only [deriveFailureStatus, settleRunning, settleCompleted, settleFailed, hf]
  cases holds running <;> cases hcompleted : holds completed <;>
    simp only [setRunning, setCompleted, setFailed, hcompleted, Bool.false_eq_true, if_true, if_false]

theorem deriveCompletionStatus_eq (hf : observed.ending = none) :
    deriveCompletionStatus g now s observed =
    { s with
      completedAt := s.completedAt <|> completionTime now observed
      conditions := { s.conditions with
        running := settleRunning g now observed s.conditions.running
        completed := settleCompleted g now observed s.conditions.completed
        failed := settleFailed g now observed s.conditions.failed } } := by
  have hready : (observed.podSnapshot.any fun snap => isTrue snap.body.ready) = observed.captureReady := rfl
  rcases s with ⟨⟨running, captured, completed, failed⟩, startedAt, completedAt, jobUID, name, uid⟩
  simp only [deriveCompletionStatus, settleRunning, settleCompleted, settleFailed, completionTime, hf,
    hready, Option.isSome_none, Bool.false_or]
  cases observed.captureReady <;> cases observed.sourceJobFinished <;> cases completedAt <;> rfl

end Stages

/-- The status as it is before the stages. -/
def initialized (g now : ℕ) (s : Status) : Status :=
  { s with conditions := initializeConditions g now s.conditions }

theorem deriveSnapshotJobStatus_eq (cfg : Config) (sj : SJ) (observed : Observation) (now : ℕ) :
    deriveSnapshotJobStatus cfg sj observed now =
      settle sj.body.generation now observed cfg
        (initialized sj.body.generation now sj.body.status) := by
  have hrecord : recordSourceJob sj.body.status observed =
      { sj.body.status with sourceJobUID := recordedJob observed sj.body.status.sourceJobUID } := by
    simp only [recordSourceJob, recordedJob]
    cases observed.job with
    | none => rfl
    | some job => dsimp only; split <;> rfl
  simp only [deriveSnapshotJobStatus, hrecord, deriveRunningStatus_eq, deriveCapturedStatus_eq]
  cases hf : observed.ending with
  | some f =>
    dsimp only
    rw [deriveFailureStatus_eq _ _ _ _ hf]
    rfl
  | none =>
    dsimp only
    rw [deriveCompletionStatus_eq _ _ _ _ hf]
    rfl

/-! ## Settling again -/

section Again

variable (g now now' : ℕ) (observed : Observation) (c : Option Condition)

theorem isSome_settleRunning (h : c.isSome = true) :
    (settleRunning g now observed c).isSome = true := by
  simp only [settleRunning]
  split
  · split
    · exact isSome_setCondition _ _ _ _ _ _
    · exact h
  · split
    · exact h
    · split <;> exact isSome_setCondition _ _ _ _ _ _

theorem isSome_reportRunning (h : c.isSome = true) :
    (reportRunning g now observed c).isSome = true := by
  simp only [reportRunning]
  split
  · exact h
  · exact isSome_setCondition _ _ _ _ _ _

theorem isSome_settleCaptured (h : c.isSome = true) :
    (settleCaptured g now observed c).isSome = true := by
  simp only [settleCaptured]
  split
  · split
    · split
      · exact h
      · exact isSome_setCondition _ _ _ _ _ _
    · exact h
  · split
    · exact isSome_setCondition _ _ _ _ _ _
    · split <;> exact isSome_setCondition _ _ _ _ _ _

theorem isSome_settleCompleted (h : c.isSome = true) :
    (settleCompleted g now observed c).isSome = true := by
  simp only [settleCompleted]
  split
  · split
    · exact h
    · exact isSome_setCondition _ _ _ _ _ _
  · split
    · exact h
    · split <;> exact isSome_setCondition _ _ _ _ _ _

theorem isSome_settleFailed (h : c.isSome = true) :
    (settleFailed g now observed c).isSome = true := by
  simp only [settleFailed]
  split
  · exact isSome_setCondition _ _ _ _ _ _
  · exact h

theorem settleCaptured_again :
    settleCaptured g now' observed (settleCaptured g now observed c) =
      settleCaptured g now observed c := by
  cases hsnap : observed.podSnapshot with
  | none =>
    cases hfailure : observed.failure with
    | none => simp only [settleCaptured, hsnap, hfailure]
    | some f =>
      simp only [settleCaptured, hsnap, hfailure]
      by_cases hholds : holds c = true
      · simp only [if_pos hholds]
      · simp only [if_neg hholds, holds_setCondition, setCondition_setCondition, Bool.false_eq_true,
          if_false]
  | some snap =>
    simp only [settleCaptured, hsnap]
    split
    · exact setCondition_setCondition _ _ _ _ _ _ _ _ _
    · split <;> exact setCondition_setCondition _ _ _ _ _ _ _ _ _

theorem settleCompleted_again :
    settleCompleted g now' observed (settleCompleted g now observed c) =
      settleCompleted g now observed c := by
  cases hending : observed.ending with
  | some f =>
    simp only [settleCompleted, hending]
    by_cases hholds : holds c = true
    · simp only [if_pos hholds]
    · simp only [if_neg hholds, holds_setCondition, setCondition_setCondition, Bool.false_eq_true,
        if_false]
  | none =>
    simp only [settleCompleted, hending]
    split
    · rfl
    · split <;> exact setCondition_setCondition _ _ _ _ _ _ _ _ _

theorem settleFailed_again :
    settleFailed g now' observed (settleFailed g now observed c) = settleFailed g now observed c := by
  cases hending : observed.ending with
  | some f =>
    simp only [settleFailed, hending]
    exact setCondition_setCondition _ _ _ _ _ _ _ _ _
  | none => simp only [settleFailed, hending]

/-- Running is False wherever a SnapshotJob settles, so settling needs no second transition. -/
theorem settleRunning_again :
    settleRunning g now' observed (settleRunning g now observed c) = settleRunning g now observed c := by
  cases hending : observed.ending with
  | some f =>
    simp only [settleRunning, hending]
    by_cases hholds : holds c = true
    · simp only [if_pos hholds, holds_setCondition, Bool.false_eq_true, if_false]
    · simp only [if_neg hholds]
  | none =>
    simp only [settleRunning, hending]
    split
    · rfl
    · split <;> exact setCondition_setCondition _ _ _ _ _ _ _ _ _

theorem settleRunning_of_quiet (hending : observed.ending = none) (hready : observed.captureReady = false) :
    settleRunning g now observed c = c := by
  simp only [settleRunning, hending, hready, Bool.not_false, if_true]

/-- A report of False agrees with every way to settle. -/
theorem settleRunning_report_false (reason message : String) :
    settleRunning g now' observed (setCondition
      (settleRunning g now observed (setCondition c g now false reason message))
      g now' false reason message) =
      settleRunning g now observed (setCondition c g now false reason message) := by
  cases hending : observed.ending with
  | some f =>
    simp only [settleRunning, hending, holds_setCondition, setCondition_setCondition,
      Bool.false_eq_true, if_false]
  | none =>
    simp only [settleRunning, hending]
    split
    · exact setCondition_setCondition _ _ _ _ _ _ _ _ _
    · split <;> simp only [setCondition_setCondition]

end Again

/-- Running is reported True and settles to False. -/
def Observation.flips (observed : Observation) : Bool :=
  observed.podReady && (observed.ending.isSome || observed.captureReady)

/-- A verdict on the Job other than success comes with its failure. -/
theorem classifySourceJobTerminal_failure (job : Job)
    (h : (classifySourceJobTerminal job).state = .failed ∨
      (classifySourceJobTerminal job).state = .deadlineExceeded) :
    (classifySourceJobTerminal job).failure.isSome = true := by
  simp only [classifySourceJobTerminal] at h ⊢
  split
  · rfl
  · split
    · rfl
    · rename_i hdeadline _ hfailed
      rw [hdeadline, hfailed] at h
      dsimp only at h
      split at h <;> rcases h with h | h <;> exact absurd h nofun

theorem runningReport_true (observed : Observation) :
    (observed.runningReport.any fun report => report.1) = observed.podReady := by
  rcases observed with ⟨job, podSnapshot, missing, finished, failure⟩
  cases job with
  | none => cases failure <;> rfl
  | some job =>
    have hfailure := classifySourceJobTerminal_failure job
    simp only [Observation.runningReport, Observation.podReady, Option.any_some]
    cases hstate : (classifySourceJobTerminal job).state with
    | active =>
      dsimp only
      split
      · rename_i hready
        rw [hready]
        rfl
      · rename_i hready
        rw [Bool.eq_false_iff.mpr hready]
        rfl
    | complete => simp
    | failed =>
      obtain ⟨f, hf⟩ := Option.isSome_iff_exists.mp (hfailure (.inl hstate))
      simp [hf]
    | deadlineExceeded =>
      obtain ⟨f, hf⟩ := Option.isSome_iff_exists.mp (hfailure (.inr hstate))
      simp [hf]

/-- Where Running does not flip, it is reported and settled once. -/
theorem running_again {observed : Observation} (h : observed.flips = false) (g now now' : ℕ)
    (c : Option Condition) :
    settleRunning g now' observed (reportRunning g now' observed
      (settleRunning g now observed (reportRunning g now observed c))) =
      settleRunning g now observed (reportRunning g now observed c) := by
  have hreport := runningReport_true observed
  simp only [reportRunning]
  cases hr : observed.runningReport with
  | none => exact settleRunning_again g now now' observed c
  | some report =>
    obtain ⟨status, reason, message⟩ := report
    cases status with
    | false => exact settleRunning_report_false g now now' observed c reason message
    | true =>
      -- a ready Pod of a SnapshotJob that goes on
      rw [hr, Option.any_some] at hreport
      rw [Observation.flips, ← hreport, Bool.true_and, Bool.or_eq_false_iff] at h
      have hending := Option.isSome_eq_false_iff.mp h.1
      rw [Option.isNone_iff_eq_none] at hending
      simp only [settleRunning_of_quiet _ _ _ _ hending h.2]
      exact setCondition_setCondition _ _ _ _ _ _ _ _ _

/-- Where it flips, every pass makes the transition anew. -/
theorem running_flips {observed : Observation} (h : observed.flips = true) (g now : ℕ)
    (c : Option Condition) :
    (settleRunning g now observed (reportRunning g now observed c)).map (·.lastTransitionTime) =
      some now := by
  rw [Observation.flips, Bool.and_eq_true, Bool.or_eq_true] at h
  obtain ⟨hready, hsettles⟩ := h
  rw [← runningReport_true] at hready
  simp only [reportRunning]
  cases hr : observed.runningReport with
  | none => rw [hr] at hready; exact absurd hready nofun
  | some report =>
    obtain ⟨status, reason, message⟩ := report
    rw [hr, Option.any_some] at hready
    have hstatus : status = true := hready
    have hholds : holds (setCondition c g now status reason message) = true := by
      rw [holds_setCondition, hstatus]
    dsimp only
    simp only [settleRunning]
    cases hending : observed.ending with
    | some f =>
      dsimp only
      rw [if_pos hholds, setCondition_of_holds hholds]
      rfl
    | none =>
      have hcaptured : observed.captureReady = true := by
        rcases hsettles with hsome | hcaptured
        · rw [hending] at hsome
          exact absurd hsome nofun
        · exact hcaptured
      dsimp only
      rw [hcaptured, if_neg (by exact nofun)]
      split <;> rw [setCondition_of_holds hholds] <;> rfl

/-! ## Stability -/

/-- A status that has every condition is not initialized again. -/
structure Present (s : Status) : Prop where
  running : s.conditions.running.isSome = true
  captured : s.conditions.captured.isSome = true
  completed : s.conditions.completed.isSome = true
  failed : s.conditions.failed.isSome = true

theorem Present.initialized_eq {s : Status} (h : Present s) (g now : ℕ) : initialized g now s = s := by
  rcases s with ⟨⟨running, captured, completed, failed⟩, startedAt, completedAt, jobUID, name, uid⟩
  obtain ⟨hr, hc, hd, hf⟩ := h
  obtain ⟨running, rfl⟩ := Option.isSome_iff_exists.mp hr
  obtain ⟨captured, rfl⟩ := Option.isSome_iff_exists.mp hc
  obtain ⟨completed, rfl⟩ := Option.isSome_iff_exists.mp hd
  obtain ⟨failed, rfl⟩ := Option.isSome_iff_exists.mp hf
  rfl

theorem present_initialized (g now : ℕ) (s : Status) : Present (initialized g now s) := by
  have hsome : ∀ (c : Option Condition) (d : Condition), (c <|> some d).isSome = true := by
    intro c d
    cases c <;> rfl
  exact ⟨hsome _ _, hsome _ _, hsome _ _, hsome _ _⟩

theorem Present.settle {s : Status} (h : Present s) (g now : ℕ) (observed : Observation) (cfg : Config) :
    Present (settle g now observed cfg s) :=
  ⟨isSome_settleRunning _ _ _ _ (isSome_reportRunning _ _ _ _ h.running),
    isSome_settleCaptured _ _ _ _ h.captured, isSome_settleCompleted _ _ _ _ h.completed,
    isSome_settleFailed _ _ _ _ h.failed⟩

/-- What was recorded once is not recorded again. -/
theorem settle_again {observed : Observation} (h : observed.flips = false) (g now now' : ℕ) (cfg : Config)
    (s : Status) : settle g now' observed cfg (settle g now observed cfg s) = settle g now observed cfg s := by
  have htime : ∀ (old : Option ℕ) (b : Bool),
      ((old <|> if b = true then some now else none) <|> if b = true then some now' else none) =
        (old <|> if b = true then some now else none) := by
    intro old b
    cases old <;> cases b <;> rfl
  have honce : ∀ old new : String, (if (if old = "" then new else old) = "" then new
      else if old = "" then new else old) = if old = "" then new else old := by
    intro old new
    by_cases hold : old = ""
    · simp only [if_pos hold, ite_self]
    · simp only [if_neg hold]
  have hjob : recordedJob observed (recordedJob observed s.sourceJobUID) =
      recordedJob observed s.sourceJobUID := by
    cases hobserved : observed.job with
    | none => simp only [recordedJob, hobserved]
    | some job => simp only [recordedJob, hobserved, honce]
  have hsnapshot : recordedSnapshot observed (recordedSnapshot observed s.podSnapshotUID) =
      recordedSnapshot observed s.podSnapshotUID := by
    cases hobserved : observed.podSnapshot with
    | none => simp only [recordedSnapshot, hobserved]
    | some snap => simp only [recordedSnapshot, hobserved, honce]
  have hname : recordedName observed cfg (recordedName observed cfg s.podSnapshotName) =
      recordedName observed cfg s.podSnapshotName := by
    simp only [recordedName]
    split <;> rfl
  simp only [SnapshotJob.settle, running_again h, settleCaptured_again, settleCompleted_again,
    settleFailed_again, hjob, hsnapshot, hname, startTime, completionTime, htime]

/-- A derived status is consistent, takes nothing back, and is derived again from what it was derived
from. -/
structure Stable (cfg : Config) (sj : SJ) (observed : Observation) (now : ℕ) : Prop where
  present : Present (deriveSnapshotJobStatus cfg sj observed now)
  exclusive : ¬ (holds (deriveSnapshotJobStatus cfg sj observed now).conditions.completed = true ∧
    holds (deriveSnapshotJobStatus cfg sj observed now).conditions.failed = true)
  captured : holds (deriveSnapshotJobStatus cfg sj observed now).conditions.completed = true →
    holds (deriveSnapshotJobStatus cfg sj observed now).conditions.captured = true
  startedAt : sj.body.status.startedAt ≠ none →
    (deriveSnapshotJobStatus cfg sj observed now).startedAt = sj.body.status.startedAt
  completedAt : sj.body.status.completedAt ≠ none →
    (deriveSnapshotJobStatus cfg sj observed now).completedAt = sj.body.status.completedAt
  sourceJobUID : sj.body.status.sourceJobUID ≠ "" →
    (deriveSnapshotJobStatus cfg sj observed now).sourceJobUID = sj.body.status.sourceJobUID
  podSnapshotUID : sj.body.status.podSnapshotUID ≠ "" →
    (deriveSnapshotJobStatus cfg sj observed now).podSnapshotUID = sj.body.status.podSnapshotUID
  kept : holds sj.body.status.conditions.captured = true → observed.captureFailed = false →
    holds (deriveSnapshotJobStatus cfg sj observed now).conditions.captured = true
  again : ∀ later ≥ now, deriveSnapshotJobStatus cfg
    { sj with body := { sj.body with status := deriveSnapshotJobStatus cfg sj observed now } }
    observed later = deriveSnapshotJobStatus cfg sj observed now
  unwritten : ∀ later ≥ now, patchSnapshotJobStatus
    { sj with body := { sj.body with status := deriveSnapshotJobStatus cfg sj observed now } }
    (deriveSnapshotJobStatus cfg
      { sj with body := { sj.body with status := deriveSnapshotJobStatus cfg sj observed now } }
      observed later) = pure (.ok ())

/-- The PodSnapshot is there and has neither failed nor become ready. -/
def Observation.capturing (observed : Observation) : Bool :=
  observed.podSnapshot.any fun snap => !isTrue snap.body.failed && !isTrue snap.body.ready

/-- Captured follows the PodSnapshot wherever there is one. -/
theorem holds_settleCaptured {observed : Observation} (hfailed : observed.captureFailed = false)
    (g now : ℕ) {c : Option Condition} (h : holds c = true) :
    holds (settleCaptured g now observed c) = !observed.capturing := by
  cases hsnap : observed.podSnapshot with
  | none =>
    simp only [settleCaptured, Observation.capturing, hsnap, Option.any_none, Bool.not_false]
    split
    · rw [if_pos h, h]
    · exact h
  | some snap =>
    simp only [Observation.captureFailed, hsnap, Option.any_some] at hfailed
    simp only [settleCaptured, Observation.capturing, hsnap, hfailed, Option.any_some,
      Bool.false_eq_true, if_false, Bool.not_false, Bool.true_and, Bool.not_not]
    split
    · rename_i hready
      rw [holds_setCondition, hready]
    · rename_i hready
      rw [holds_setCondition, Bool.eq_false_iff.mpr hready]

/-- Only a capture that is ready completes. -/
theorem holds_settleCompleted {observed : Observation} {g now : ℕ} {c : Option Condition}
    (h : holds c = false) (hcompleted : holds (settleCompleted g now observed c) = true) :
    observed.ending = none ∧ observed.captureReady = true := by
  cases hending : observed.ending with
  | some f =>
    simp only [settleCompleted, hending, h, Bool.false_eq_true, if_false, holds_setCondition] at hcompleted
  | none =>
    refine ⟨rfl, ?_⟩
    by_contra hready
    rw [Bool.not_eq_true] at hready
    simp only [settleCompleted, hending, hready, Bool.not_false, if_true, h, Bool.false_eq_true]
      at hcompleted

/-- A capture that is ready and has not failed is Captured. -/
theorem holds_captured_of_ready {observed : Observation} (hending : observed.ending = none)
    (hready : observed.captureReady = true) (g now : ℕ) (c : Option Condition) :
    holds (settleCaptured g now observed c) = true := by
  have hfailed : observed.captureFailed = false := by
    have h := observed.ending_isSome
    rw [hending, Option.isSome_none, eq_comm, Bool.or_eq_false_iff] at h
    exact h.2
  cases hsnap : observed.podSnapshot with
  | none =>
    rw [Observation.captureReady, hsnap] at hready
    exact absurd hready nofun
  | some snap =>
    simp only [Observation.captureFailed, Observation.captureReady, hsnap, Option.any_some]
      at hfailed hready
    simp only [settleCaptured, hsnap, hfailed, hready, Bool.false_eq_true, if_false, if_true,
      holds_setCondition]

/-- The derivation of a status that is not terminal is stable exactly when it does not see a capture in
progress under a Captured SnapshotJob and Running is not reported True only to be settled to False. -/
theorem derivation_stable_iff (cfg : Config) (sj : SJ) (observed : Observation) (now : ℕ)
    (hcompleted : holds sj.body.status.conditions.completed = false)
    (hfailed : holds sj.body.status.conditions.failed = false) :
    Stable cfg sj observed now ↔
      ¬ (holds sj.body.status.conditions.captured = true ∧ observed.capturing = true) ∧
      ¬ (observed.podReady = true ∧ (observed.failure.isSome = true ∨ observed.captureFailed = true ∨
        observed.captureReady = true)) := by
  have hpresent : Present (deriveSnapshotJobStatus cfg sj observed now) := by
    rw [deriveSnapshotJobStatus_eq]
    exact (present_initialized _ _ _).settle _ _ _ _
  have hinitial : holds (initialized sj.body.generation now sj.body.status).conditions.completed = false := by
    simp only [initialized, initializeConditions, holds_initialized, hcompleted]
  have hcaptured : holds (initialized sj.body.generation now sj.body.status).conditions.captured =
      holds sj.body.status.conditions.captured := by
    simp only [initialized, initializeConditions, holds_initialized]
  have hflips : (observed.podReady = true ∧ (observed.failure.isSome = true ∨
      observed.captureFailed = true ∨ observed.captureReady = true)) ↔ observed.flips = true := by
    rw [Observation.flips, observed.ending_isSome, Bool.and_eq_true, Bool.or_eq_true, Bool.or_eq_true,
      or_assoc]
  rw [hflips, Bool.not_eq_true]
  have hlater : ∀ later, deriveSnapshotJobStatus cfg
      { sj with body := { sj.body with status := deriveSnapshotJobStatus cfg sj observed now } }
      observed later = settle sj.body.generation later observed cfg
        (deriveSnapshotJobStatus cfg sj observed now) := by
    intro later
    rw [deriveSnapshotJobStatus_eq]
    exact congrArg _ (hpresent.initialized_eq _ _)
  constructor
  · intro h
    constructor
    · rintro ⟨hholds, hcapturing⟩
      have hnotfailed : observed.captureFailed = false := by
        cases hsnap : observed.podSnapshot with
        | none => rw [Observation.captureFailed, hsnap]; rfl
        | some snap =>
          simp only [Observation.capturing, hsnap, Option.any_some, Bool.and_eq_true] at hcapturing
          rw [Observation.captureFailed, hsnap, Option.any_some]
          exact Bool.not_eq_true' _ ▸ hcapturing.1
      have hkept := h.kept hholds hnotfailed
      rw [deriveSnapshotJobStatus_eq] at hkept
      have hsettled := holds_settleCaptured hnotfailed sj.body.generation now (hcaptured.trans hholds)
      rw [hcapturing] at hsettled
      cases hkept.symm.trans hsettled
    · by_contra hflip
      rw [Bool.not_eq_false] at hflip
      -- the next second already makes a transition of its own
      have hagain := h.again (now + 1) (Nat.le_succ now)
      rw [hlater] at hagain
      have hfirst := running_flips hflip sj.body.generation now
        (initialized sj.body.generation now sj.body.status).conditions.running
      have hsecond := running_flips hflip sj.body.generation (now + 1)
        (deriveSnapshotJobStatus cfg sj observed now).conditions.running
      have hsame := congrArg (fun s : Status => s.conditions.running.map (·.lastTransitionTime)) hagain
      have heq : some (now + 1) = some now := by
        refine hsecond.symm.trans (hsame.trans ?_)
        rw [deriveSnapshotJobStatus_eq]
        exact hfirst
      simp at heq
  · rintro ⟨hkeeps, hflip⟩
    obtain ⟨hexclusive, -, -⟩ := deriveSnapshotJobStatus_spec cfg sj observed now hcompleted hfailed
    have hfirst : ∀ (old new : Option ℕ), old ≠ none → (old <|> new) = old := by
      intro old new hold
      cases old with
      | none => exact absurd rfl hold
      | some t => rfl
    have hagain : ∀ later, settle sj.body.generation later observed cfg
        (deriveSnapshotJobStatus cfg sj observed now) = deriveSnapshotJobStatus cfg sj observed now := by
      intro later
      rw [deriveSnapshotJobStatus_eq]
      exact settle_again hflip _ _ _ _ _
    refine ⟨hpresent, hexclusive, ?_, ?_, ?_, ?_, ?_, ?_, ?_, ?_⟩
    · intro hdone
      rw [deriveSnapshotJobStatus_eq] at hdone ⊢
      obtain ⟨hending, hready⟩ := holds_settleCompleted hinitial hdone
      exact holds_captured_of_ready hending hready _ _ _
    · intro hset
      rw [deriveSnapshotJobStatus_eq]
      exact hfirst _ _ hset
    · intro hset
      rw [deriveSnapshotJobStatus_eq]
      exact hfirst _ _ hset
    · intro hset
      rw [deriveSnapshotJobStatus_eq]
      change recordedJob observed sj.body.status.sourceJobUID = _
      simp only [recordedJob, if_neg hset]
      split <;> rfl
    · intro hset
      rw [deriveSnapshotJobStatus_eq]
      change recordedSnapshot observed sj.body.status.podSnapshotUID = _
      simp only [recordedSnapshot, if_neg hset]
      split <;> rfl
    · intro hholds hnotfailed
      rw [deriveSnapshotJobStatus_eq]
      refine (holds_settleCaptured hnotfailed _ _ (hcaptured.trans hholds)).trans ?_
      rw [Bool.not_eq_true']
      exact Bool.eq_false_iff.mpr fun hcapturing => hkeeps ⟨hholds, hcapturing⟩
    · intro later _
      rw [hlater, hagain]
    · intro later _
      rw [hlater, hagain]
      exact if_pos rfl

namespace Sample

def fresh : SJ := ⟨"u1", 0, none, [], ⟨1, spec, emptyStatus⟩⟩

/-- One ready Pod and no verdict. -/
def sourceJob : Job := ⟨"j1", 0, none, [],
  ⟨some "u1", ⟨some "sj", some "u1", ["main", "sidecar"]⟩, [], some 1⟩⟩

def podSnapshot (ready : Option PodSnapshot.Condition) : Snap := ⟨"p1", 0, none, [],
  ⟨some "sj", some "u1", "pod", "q1", ["main"], ready, none⟩⟩

/-- The capture goes on. -/
def capturing : Observation := ⟨some sourceJob, some (podSnapshot none), false, false, none⟩

/-- It is taken, and the sidecar keeps the Pod ready. -/
def taken : Observation :=
  ⟨some sourceJob, some (podSnapshot (some ⟨true, "Captured", ""⟩)), false, false, none⟩

end Sample

/-- A capture in progress under a SnapshotJob that is not captured yet. -/
theorem derivation_stable_capturing : Stable Sample.config Sample.fresh Sample.capturing 10 :=
  (derivation_stable_iff Sample.config Sample.fresh Sample.capturing 10 (by decide) (by decide)).mpr
    (by decide)

/-- While the source Pod of a capture that was taken stays ready, each pass turns Running on and off
again: the status of a pass at 10 is rewritten by the pass at 11. -/
theorem running_rewritten :
    holds Sample.fresh.body.status.conditions.completed = false ∧
    holds Sample.fresh.body.status.conditions.failed = false ∧
    ¬ Stable Sample.config Sample.fresh Sample.taken 10 := by
  refine ⟨by decide, by decide, fun h => ?_⟩
  have hagain := h.again 11 (by decide)
  revert hagain
  decide +kernel

end SnapshotJob
