import Snapshot.PodSnapshotReconciler

/-! Restore passes over one Pod: `processRestoreQueueItem` and the workers that
`restorePodContainers` starts, one for each destination container. The workers of a pass share
nothing: each resolves its own container and reads and writes the sentinels of its own destination.
What they report lives for one pass; the sentinels and the Restored condition are all that the next
pass sees. -/
namespace AgentRestore

open PodSnapshot (Condition Phase)
open ApiObjects (Delivery)

/-! ## The Pod -/

/-- A restore Pod. Its destinations are checked to be distinct before they are restored. -/
structure RestorePod where
  key : String
  snapshotName : String
  destinations : List String
  nonempty : destinations ≠ []
  distinct : destinations.Nodup

def restoreInProgress (c : Option Condition) : Bool :=
  c.any fun c => !c.status && c.reason = "RestoreInProgress"

inductive RestoreOutcome where
  | pending | succeeded | failed | partiallySucceeded | unknown
  deriving DecidableEq, Repr

def RestoreOutcome.terminal : RestoreOutcome → Bool
  | succeeded | failed | partiallySucceeded => true
  | _ => false

def classifyRestoreOutcome : Option Condition → RestoreOutcome
  | none => .pending
  | some c =>
    if c.status then .succeeded
    else if c.reason = "RestoreFailed" ∨ c.reason = "RestoreIncompatible" then .failed
    else if c.reason = "RestorePartiallySucceeded" then .partiallySucceeded
    else if c.reason = "RestoreInProgress" then .pending
    else .unknown

def isRestoreTerminal (c : Option Condition) : Bool := (classifyRestoreOutcome c).terminal

def isRestoreSucceeded (c : Option Condition) : Bool := classifyRestoreOutcome c = .succeeded

def restoreRefused (c : Option Condition) : Bool :=
  c.any fun c => !c.status && c.reason = "RestoreIncompatible"

def isRestorePodActive (phase : Phase) : Bool := phase = .pending || phase = .running

def phaseName : Phase → String
  | .pending => "Pending"
  | .running => "Running"
  | .succeeded => "Succeeded"
  | .failed => "Failed"
  | .unknown => "Unknown"

/-! ## Workers -/

/-- The files of a destination on the control volume of the Pod, which outlives its containers. -/
structure Sentinels where
  complete : Bool
  failed : Bool
  deriving DecidableEq, Repr

/-- How far a failed run got with the removal of stale sentinels. -/
inductive Cleared where
  | nothing | complete | both
  deriving DecidableEq, Repr

def Cleared.apply : Cleared → Sentinels → Sentinels
  | nothing, s => s
  | complete, s => { s with complete := false }
  | both, _ => ⟨false, false⟩

/-- How `executor.Restore` ends. -/
inductive RestoreRun where
  /-- A cleanup error is reported and changes nothing. -/
  | restored (cleanup : Option String)
  | incompatible (reasons : String)
  | failed (message : String) (cleared : Cleared)

/-- What a worker meets: the container, if one is found in time, and how each of its steps fares. -/
structure WorkerEnv where
  panics : Bool
  container : Option String
  resolve : Except String Unit
  readSentinel : Except String Unit
  restore : RestoreRun
  writeComplete : Except String Unit
  /-- A Pod without an action is told at once. -/
  postRestore : Except String Unit
  stopping : Bool
  resolveAgain : Except String Unit
  writeFailed : Bool
  kill : Except String Unit

inductive WorkerError where
  | interrupted
  | incompatible (reasons : String)
  | failed (message : String)
  deriving DecidableEq, Repr

/-- What a worker did: whether it ran `executor.Restore` and which sentinels it wrote. -/
structure Work where
  sentinels : Sentinels
  ran : Bool
  completed : Bool
  marked : Bool
  error : Option WorkerError
  deriving DecidableEq, Repr

def Work.idle (s : Sentinels) : Work := ⟨s, false, false, false, none⟩

variable (env : WorkerEnv)

def markRestoreFailed (w : Work) : Work :=
  if env.writeFailed then { w with sentinels := { w.sentinels with failed := true }, marked := true }
  else w

/-- Without a process to kill the marker goes through the path of the volume on the node. -/
def failRestore (w : Work) (restoreErr : String) : Work :=
  let w := markRestoreFailed env w
  match env.resolveAgain with
  | .error e => { w with error := some (.failed (restoreErr ++ "\n" ++
      "placeholder PID could not be resolved after restore failure: " ++ e)) }
  | .ok () =>
    match env.kill with
    | .error e => { w with error := some (.failed (restoreErr ++ "\n" ++
        "placeholder could not be killed after restore failure: " ++ e)) }
    | .ok () => { w with error := some (.failed restoreErr) }

def completeRestore (w : Work) : Work :=
  match env.writeComplete with
  | .ok () => { w with sentinels := { w.sentinels with complete := true }, completed := true }
  | .error e =>
    let w := markRestoreFailed env w
    match env.kill with
    | .error k => { w with error := some (.failed ("failed to write restore-complete sentinel: " ++ e ++
        "\n" ++ "placeholder could not be killed: " ++ k)) }
    | .ok () => { w with error := some (.failed ("failed to write restore-complete sentinel: " ++ e)) }

/-- An agent that stops leaves the action to the next one. -/
def failPostRestore (w : Work) (e : String) : Work :=
  if env.stopping then { w with error := some .interrupted } else failRestore env w e

def notifyPostRestore (w : Work) : Work :=
  match env.postRestore with
  | .ok () => w
  | .error e => failPostRestore env w e

/-- Whether restore-complete says that the destination was restored before. -/
def recoverCompletedRestore (s : Sentinels) : Except String Bool :=
  match env.resolve with
  | .error e => .error ("resolve restore container before checking completion sentinel: " ++ e)
  | .ok () =>
    match env.readSentinel with
    | .error e => .error ("check restore completion sentinel: " ++ e)
    | .ok () => .ok s.complete

/-- `executor.Restore` and what follows it. Before CRIU runs, both sentinels are removed. -/
def restoreOnce (s : Sentinels) : Work :=
  match env.restore with
  | .incompatible reasons => { Work.idle s with ran := true, error := some (.incompatible reasons) }
  | .failed message cleared => failRestore env { Work.idle (cleared.apply s) with ran := true } message
  | .restored _ =>
    let w := completeRestore env { Work.idle ⟨false, false⟩ with ran := true }
    if w.error.isSome then w else notifyPostRestore env w

def runRestore (recovering : Bool) (s : Sentinels) : Work :=
  if recovering then
    match recoverCompletedRestore env s with
    | .error e => { Work.idle s with error := some (.failed e) }
    | .ok true => notifyPostRestore env (Work.idle s)
    | .ok false => restoreOnce env s
  else restoreOnce env s

inductive ResultState where
  | succeeded | failed | pending | incompatible
  deriving DecidableEq, Repr

structure Result where
  destination : String
  state : ResultState
  reason : String
  deriving DecidableEq, Repr

def Work.result (w : Work) (destination : String) : Result :=
  match w.error with
  | none => ⟨destination, .succeeded, ""⟩
  | some .interrupted => ⟨destination, .pending, ""⟩
  | some (.incompatible reasons) => ⟨destination, .incompatible, reasons⟩
  | some (.failed message) => ⟨destination, .failed, message⟩

/-- A worker that panics before its restore is reported as failed. -/
def restoreDestination (recovering : Bool) (s : Sentinels) (destination : String) : Work × Result :=
  if env.panics then (.idle s, ⟨destination, .failed, "agent panicked restoring this container"⟩)
  else
    match env.container with
    | none => (.idle s, ⟨destination, .pending, ""⟩)
    | some _ =>
      let w := runRestore env recovering s
      (w, w.result destination)

/-! ## The verdict of a pass -/

structure RestoreTally where
  total : ℕ
  succeeded : List String
  failed : List String
  incompatible : List String
  pending : List String
  incompatibilityReasons : List String
  failureReasons : List String

def RestoreTally.add (tally : RestoreTally) (r : Result) : RestoreTally :=
  match r.state with
  | .succeeded => { tally with succeeded := tally.succeeded ++ [r.destination] }
  | .failed => { tally with
      failed := tally.failed ++ [r.destination]
      failureReasons := tally.failureReasons ++
        [if r.reason = "" then r.destination else r.destination ++ ": " ++ r.reason] }
  | .pending => { tally with pending := tally.pending ++ [r.destination] }
  | .incompatible => { tally with
      incompatible := tally.incompatible ++ [r.destination]
      incompatibilityReasons := tally.incompatibilityReasons ++
        [if 1 < tally.total then r.destination ++ ": " ++ r.reason else r.reason] }

def tallyRestoreResults (results : List Result) : RestoreTally :=
  results.foldl RestoreTally.add ⟨results.length, [], [], [], [], [], []⟩

def RestoreTally.progressMessage (t : RestoreTally) (snapshotName : String) : String :=
  let counts := [toString t.succeeded.length ++ " succeeded", toString t.failed.length ++ " failed"] ++
    (if t.incompatible = [] then [] else [toString t.incompatible.length ++ " incompatible"]) ++
    [toString t.pending.length ++ " pending"]
  "Restore from PodSnapshot " ++ snapshotName ++ " remains in progress: " ++
    ", ".intercalate counts ++ " (" ++ ", ".intercalate t.pending ++ ")"

def refusalMessage (reasons : String) : String :=
  "Refused restore; this node cannot run the checkpoint: " ++ reasons

def RestoreTally.verdict (t : RestoreTally) (snapshotName : String) : Condition :=
  if t.pending ≠ [] then ⟨false, "RestoreInProgress", t.progressMessage snapshotName⟩
  else if t.failed = [] ∧ t.incompatible = [] then
    ⟨true, "RestoreSucceeded", "Restored " ++ toString t.succeeded.length ++
      " destination container(s) from PodSnapshot " ++ snapshotName ++ ": " ++
      ", ".intercalate t.succeeded⟩
  else if t.succeeded ≠ [] then
    ⟨false, "RestorePartiallySucceeded", "Restored " ++ toString t.succeeded.length ++ " of " ++
      toString t.total ++ " destination containers from PodSnapshot " ++ snapshotName ++
      "; not restored: " ++ "; ".intercalate (t.failureReasons ++ t.incompatible)⟩
  else if t.failed = [] then
    ⟨false, "RestoreIncompatible", refusalMessage ("; ".intercalate t.incompatibilityReasons)⟩
  else if t.incompatible ≠ [] then
    ⟨false, "RestoreFailed", "Restore failed for " ++ toString t.failed.length ++
      " destination container(s) and refused " ++ toString t.incompatible.length ++
      " incompatible destination(s) from PodSnapshot " ++ snapshotName ++ ": " ++
      "; ".intercalate t.failureReasons⟩
  else
    ⟨false, "RestoreFailed", "Restore failed for all " ++ toString t.failed.length ++
      " destination container(s) from PodSnapshot " ++ snapshotName ++ ": " ++
      "; ".intercalate t.failureReasons⟩

/-! ## Passes -/

inductive Preflight where
  | ready
  | refused (reasons : String)
  | pending (reason message : String)
  | failed (message : String)

/-- What a pass meets: the Pod as it is read, the preflight, how the writes of the condition fare,
and what each worker meets. -/
structure PassEnv where
  skipCompatCheck : Bool
  deleting : Bool
  phase : Phase
  preflight : Preflight
  addFinalizer : Bool
  begin : Delivery
  record : Delivery
  workers : String → WorkerEnv

/-- The persisted Restored condition, the marker of the agent process, and the control volume. -/
structure State where
  condition : Option Condition
  handled : Bool
  sentinels : String → Sentinels

/-- What the workers of a pass did, by destination. -/
abbrev PassLog := String → Option Work

def PassLog.none : PassLog := fun _ => .none

def applyRestoredCondition (s : State) (delivery : Delivery) (c : Condition) : State :=
  match delivery with
  | .failed => s
  | _ => { s with condition := some c }

/-- The marker is set only once the verdict is known to be recorded. -/
def finishRestore (s : State) (delivery : Delivery) (c : Condition) : State :=
  match delivery with
  | .failed => s
  | .lost => { s with condition := some c }
  | .answered => { s with condition := some c, handled := true }

def failRestorePod (s : State) (delivery : Delivery) (cause : String) : State :=
  finishRestore s delivery ⟨false, "RestoreFailed", cause⟩

variable (pod : RestorePod) (env : PassEnv)

def handleRestorePreflightError (s : State) : Preflight → State
  | .ready => s
  | .refused reasons => finishRestore s env.record ⟨false, "RestoreIncompatible", refusalMessage reasons⟩
  | .pending reason message =>
    if restoreInProgress s.condition then s
    else applyRestoredCondition s env.record ⟨false, reason, message⟩
  | .failed message => failRestorePod s env.record message

def recordRestoreResults (s : State) (results : List Result) : State :=
  let tally := tallyRestoreResults results
  let verdict := tally.verdict pod.snapshotName
  if tally.pending ≠ [] then applyRestoredCondition s env.record verdict
  else finishRestore s env.record verdict

def work (s : State) (destination : String) : Work × Result :=
  restoreDestination (env.workers destination) (restoreInProgress s.condition)
    (s.sentinels destination) destination

def restorePodContainers (s : State) : State × PassLog :=
  let started := applyRestoredCondition s env.begin ⟨false, "RestoreInProgress", "Restoring " ++
    toString pod.destinations.length ++ " destination container(s) from PodSnapshot " ++
    pod.snapshotName⟩
  match env.begin with
  | .answered =>
    -- the incoming condition decides whether the workers recover
    let finished := { started with sentinels := fun d =>
      if d ∈ pod.destinations then (work env s d).1.sentinels else s.sentinels d }
    (recordRestoreResults pod env finished (pod.destinations.map fun d => (work env s d).2),
      fun d => if d ∈ pod.destinations then some (work env s d).1 else none)
  | _ => (started, .none)

def reconcileRestorePod (s : State) : State × PassLog :=
  match env.preflight with
  | .ready => if env.addFinalizer then restorePodContainers pod env s else (s, .none)
  | e => (handleRestorePreflightError env s e, .none)

def reconcileActivePod (s : State) : State × PassLog :=
  if env.deleting then (s, .none)
  else if !isRestorePodActive env.phase then
    (failRestorePod s env.record ("Pod " ++ pod.key ++ " is not eligible for restore in phase " ++
      phaseName env.phase ++ "; expected Pending or Running"), .none)
  else reconcileRestorePod pod env s

/-- Only a request to skip the compatibility check reopens a Pod whose restore was refused. -/
def processRestoreQueueItem (s : State) : State × PassLog :=
  if restoreRefused s.condition && env.skipCompatCheck then
    reconcileActivePod pod env { s with handled := false }
  else if s.handled then (s, .none)
  else if isRestoreTerminal s.condition then ({ s with handled := true }, .none)
  else reconcileActivePod pod env s

end AgentRestore
