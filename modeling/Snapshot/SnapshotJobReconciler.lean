import Snapshot.PodSnapshotReconciler

/-! `SnapshotJobReconciler`: one pass over the SnapshotJob of a request. A pass drives the source
Job and its PodSnapshot, derives the status from what it observed and the copy it read, and patches
the difference. The patch is neither checked against a version nor against a UID. -/
namespace SnapshotJob

open ApiObjects Interleaving
open PodSnapshot (quoted isTrue)

/-! ## Objects -/

structure Condition where
  status : Bool
  reason : String
  message : String
  observedGeneration : ℕ
  lastTransitionTime : ℕ
  deriving DecidableEq, Repr

/-- The condition list by type. -/
structure Conditions where
  running : Option Condition
  captured : Option Condition
  completed : Option Condition
  failed : Option Condition
  deriving DecidableEq, Repr

structure Status where
  conditions : Conditions
  startedAt : Option ℕ
  completedAt : Option ℕ
  sourceJobUID : String
  podSnapshotName : String
  podSnapshotUID : String
  deriving DecidableEq, Repr

/-- `restartAlways` is a native sidecar. -/
structure InitContainer where
  name : String
  restartAlways : Bool
  deriving DecidableEq, Repr

structure Spec where
  targetContainers : List String
  containers : List String
  initContainers : List InitContainer
  deriving DecidableEq, Repr

structure Body where
  generation : ℕ
  spec : Spec
  status : Status
  deriving DecidableEq, Repr

/-- What of the pod template of a Job its identity check reads. -/
structure Template where
  ownerLabel : Option String
  ownerUIDLabel : Option String
  containers : List String
  deriving DecidableEq, Repr

inductive JobConditionType where
  | complete | failed | failureTarget | other
  deriving DecidableEq, Repr

structure JobCondition where
  type : JobConditionType
  status : Bool
  reason : String
  message : String
  deriving DecidableEq, Repr

structure JobBody where
  /-- The UID in the controller reference. -/
  controller : Option String
  template : Template
  conditions : List JobCondition
  ready : Option ℕ
  deriving DecidableEq, Repr

/-- The exit code of a terminated container. -/
structure ContainerStatus where
  name : String
  terminated : Option Int
  deriving DecidableEq, Repr

structure PodBody where
  jobNameLabel : Option String
  controller : Option String
  containerStatuses : List ContainerStatus
  initContainerStatuses : List ContainerStatus
  deriving DecidableEq, Repr

structure PodSnapshotBody where
  ownerLabel : Option String
  ownerUIDLabel : Option String
  podName : String
  podUID : String
  containers : List String
  ready : Option PodSnapshot.Condition
  failed : Option PodSnapshot.Condition
  deriving DecidableEq, Repr

abbrev SJ := Object Body

abbrev Job := Object JobBody

abbrev Snap := Object PodSnapshotBody

/-- A pod of a list carries its name. -/
structure Pod where
  name : String
  object : Object PodBody

/-- The names of the request and what the controller takes from the spec: whether the template asks
for the interposer, the template of the source Job, and the metadata of the PodSnapshot. -/
structure Config where
  name : String
  parseCuInterposeAnnotation : Spec → Except String Bool
  buildTemplate : String → Spec → Except String Template
  shapeCuInterposeCapture : Template → String → Except String Template
  podSnapshotTemplateMetadata : Spec → Except String Unit

/-! ## Calls -/

/-- A JSON merge patch of the status: each field that changed, with its new value. -/
structure StatusPatch where
  conditions : Option Conditions
  startedAt : Option (Option ℕ)
  completedAt : Option (Option ℕ)
  sourceJobUID : Option String
  podSnapshotName : Option String
  podSnapshotUID : Option String

/-- `client.MergeFrom` -/
def StatusPatch.between (old new : Status) : StatusPatch where
  conditions := if new.conditions = old.conditions then none else some new.conditions
  startedAt := if new.startedAt = old.startedAt then none else some new.startedAt
  completedAt := if new.completedAt = old.completedAt then none else some new.completedAt
  sourceJobUID := if new.sourceJobUID = old.sourceJobUID then none else some new.sourceJobUID
  podSnapshotName := if new.podSnapshotName = old.podSnapshotName then none else some new.podSnapshotName
  podSnapshotUID := if new.podSnapshotUID = old.podSnapshotUID then none else some new.podSnapshotUID

def StatusPatch.apply (p : StatusPatch) (s : Status) : Status where
  conditions := p.conditions.getD s.conditions
  startedAt := p.startedAt.getD s.startedAt
  completedAt := p.completedAt.getD s.completedAt
  sourceJobUID := p.sourceJobUID.getD s.sourceJobUID
  podSnapshotName := p.podSnapshotName.getD s.podSnapshotName
  podSnapshotUID := p.podSnapshotUID.getD s.podSnapshotUID

theorem getD_ite_eq {α : Type} [DecidableEq α] (a b : α) :
    (if a = b then none else some a).getD b = a := by
  by_cases h : a = b
  · simp [h]
  · simp [h]

/-- A UID that the copy shows is patched to the new one. -/
theorem StatusPatch.apply_sourceJobUID {old new s : Status} (h : s.sourceJobUID = old.sourceJobUID) :
    ((between old new).apply s).sourceJobUID = new.sourceJobUID := by
  simp only [between, apply, h, getD_ite_eq]

theorem StatusPatch.apply_podSnapshotUID {old new s : Status}
    (h : s.podSnapshotUID = old.podSnapshotUID) :
    ((between old new).apply s).podSnapshotUID = new.podSnapshotUID := by
  simp only [between, apply, h, getD_ite_eq]

/-- The condition list is replaced as a whole. -/
theorem StatusPatch.apply_conditions (old new s : Status) :
    ((between old new).apply s).conditions = new.conditions ∨
      ((between old new).apply s).conditions = s.conditions := by
  by_cases h : new.conditions = old.conditions
  · exact .inr (by simp [between, apply, h])
  · exact .inl (by simp [between, apply, h])

inductive Call where
  | getSnapshotJob
  | getJob
  | readJob
  /-- The PodSnapshot of the deterministic name, from the cache or directly. -/
  | getPodSnapshot (direct : Bool)
  /-- The pods that carry the name of the Job as a label, from the cache or directly. -/
  | listPods (direct : Bool)
  | createJob (body : JobBody)
  | createPodSnapshot (body : PodSnapshotBody)
  /-- Deletion with a precondition on the UID. -/
  | deleteJob (uid : String)
  | patchStatus (patch : StatusPatch)
  | now

def Call.Answer : Call → Type
  | getSnapshotJob => Except ApiError SJ
  | getJob | readJob | createJob _ => Except ApiError Job
  | getPodSnapshot _ | createPodSnapshot _ => Except ApiError Snap
  | listPods _ => Except ApiError (List Pod)
  | deleteJob _ | patchStatus _ => Except ApiError Unit
  | now => ℕ

abbrev interface : Interface := ⟨Call, Call.Answer⟩

abbrev Pass := Process interface

namespace Pass

def getSnapshotJob : Pass (Except ApiError SJ) := Process.request (I := interface) .getSnapshotJob

def getJob : Pass (Except ApiError Job) := Process.request (I := interface) .getJob

/-- `NonCacheReadClient.Get` of the Job -/
def readJob : Pass (Except ApiError Job) := Process.request (I := interface) .readJob

def getPodSnapshot (direct : Bool) : Pass (Except ApiError Snap) :=
  Process.request (I := interface) (.getPodSnapshot direct)

def listPods (direct : Bool) : Pass (Except ApiError (List Pod)) :=
  Process.request (I := interface) (.listPods direct)

def createJob (body : JobBody) : Pass (Except ApiError Job) :=
  Process.request (I := interface) (.createJob body)

def createPodSnapshot (body : PodSnapshotBody) : Pass (Except ApiError Snap) :=
  Process.request (I := interface) (.createPodSnapshot body)

def deleteJob (uid : String) : Pass (Except ApiError Unit) :=
  Process.request (I := interface) (.deleteJob uid)

def patchStatus (patch : StatusPatch) : Pass (Except ApiError Unit) :=
  Process.request (I := interface) (.patchStatus patch)

def now : Pass ℕ := Process.request (I := interface) .now

end Pass

/-! ## Observations -/

structure Failure where
  reason : String
  cause : String
  deriving DecidableEq, Repr

structure Observation where
  job : Option Job
  podSnapshot : Option Snap
  sourcePodMissing : Bool
  sourceJobFinished : Bool
  failure : Option Failure

def Observation.empty : Observation := ⟨none, none, false, false, none⟩

/-- Errors that end a pass and are retried. -/
inductive PassError where
  | getSnapshotJob (e : ApiError)
  | getSourceJob (e : ApiError)
  | confirmSourceJob (e : ApiError)
  | createSourceJob (e : ApiError)
  | getExistingSourceJob (e : ApiError)
  | findOwnedPodSnapshot (e : ApiError)
  | readPodSnapshot (e : ApiError)
  | findSourcePod (message : String)
  | listPods (e : ApiError)
  | buildPodSnapshot (message : String)
  | createPodSnapshot (e : ApiError)
  | podSnapshotNotInCache
  | getExistingPodSnapshot (e : ApiError)
  | patchStatus (e : ApiError)
  | getJobToDelete (e : ApiError)
  | deleteJob (e : ApiError)
  deriving DecidableEq

inductive Outcome where
  | done
  | requeueAfter (seconds : ℕ)
  | failed (e : PassError)
  deriving DecidableEq

/-- What a pass observed, and when it wants to look again. -/
abbrev Observed := Except PassError (Observation × Option ℕ)

def captureResolutionBackstop : ℕ := 30

def sourcePodRequeueBackstop : ℕ := 30

def terminalObservation (reason cause : String) : Observation :=
  { Observation.empty with failure := some ⟨reason, cause⟩ }

/-! ## The source Job -/

/-- `metav1.IsControlledBy` -/
def isControlledBy (controller : Option String) (uid : String) : Bool := controller = some uid

def snapshotJobTargetContainer (sj : SJ) : Except String String :=
  match sj.body.spec.targetContainers with
  | [target] => .ok target
  | targets => .error ("spec.podSnapshotTemplate.targetContainers must have exactly one entry, got " ++
      toString targets.length)

inductive TerminalState where
  | active | complete | failed | deadlineExceeded
  deriving DecidableEq, Repr

structure Terminal where
  state : TerminalState
  failure : Option Failure
  deriving DecidableEq, Repr

/-- A deadline comes first, then Failed, FailureTarget and Complete. -/
def classifySourceJobTerminal (job : Job) : Terminal :=
  let conditions := job.body.conditions
  match conditions.find? fun c => c.status && (c.type = .failed || c.type = .failureTarget) &&
      c.reason = "DeadlineExceeded" with
  | some c => ⟨.deadlineExceeded, some ⟨"DeadlineExceeded",
      "source Job exceeded activeDeadlineSeconds: " ++ c.message⟩⟩
  | none =>
    match (conditions.find? fun c => c.type = .failed && c.status) <|>
        conditions.find? fun c => c.type = .failureTarget && c.status with
    | some c => ⟨.failed, some ⟨"JobFailed", "source Job failed: " ++ c.message⟩⟩
    | none =>
      if conditions.any fun c => c.type = .complete && c.status then ⟨.complete, none⟩
      else ⟨.active, none⟩

def sourceJobHasExpectedIdentity (desired actual : Template) (targetContainer : String) : Bool :=
  actual.ownerLabel = desired.ownerLabel && actual.ownerUIDLabel = desired.ownerUIDLabel &&
    targetContainer ∈ actual.containers

/-- Ownership, and the one-shot identity of the Job. -/
def classifyExistingSourceJob (cfg : Config) (sj : SJ) (job : Job) : Option Failure :=
  if !isControlledBy job.body.controller sj.uid then
    some ⟨"JobNameConflict", "an object not controlled by this SnapshotJob already holds the name " ++
      quoted cfg.name⟩
  else if sj.body.status.sourceJobUID ≠ "" then
    if job.uid ≠ sj.body.status.sourceJobUID then
      some ⟨"JobNameConflict", "source Job " ++ quoted cfg.name ++ " was replaced: found uid " ++
        quoted job.uid ++ ", expected " ++ quoted sj.body.status.sourceJobUID⟩
    else none
  else
    match cfg.buildTemplate sj.uid sj.body.spec with
    | .error e => some ⟨"InvalidSpec", e⟩
    | .ok desired =>
      match snapshotJobTargetContainer sj with
      | .error e => some ⟨"InvalidSpec", e⟩
      | .ok target =>
        if sourceJobHasExpectedIdentity desired job.body.template target then none
        else some ⟨"JobNameConflict", "existing source Job " ++ quoted cfg.name ++
          " does not carry the immutable identity expected for this SnapshotJob"⟩

def sourceJobDeletedFailure (cfg : Config) (sj : SJ) : Failure :=
  ⟨"JobDeleted", "source Job " ++ quoted cfg.name ++ " (uid " ++
    quoted sj.body.status.sourceJobUID ++ ") no longer exists"⟩

/-! ## The PodSnapshot -/

/-- `errPodSnapshotNameConflict`, or an error of the API. -/
inductive SnapError where
  | nameConflict (message : String)
  | api (e : ApiError)

def nameConflict (message : String) : String :=
  "existing PodSnapshot is not owned by this SnapshotJob: " ++ message

def podSnapshotBelongsToSnapshotJob (cfg : Config) (sj : SJ) (snap : Snap) : Bool :=
  snap.body.ownerLabel = some cfg.name && snap.body.ownerUIDLabel = some sj.uid

def validatePodSnapshotOwnership (cfg : Config) (sj : SJ) (snap : Snap) : Except SnapError Unit :=
  if !podSnapshotBelongsToSnapshotJob cfg sj snap then
    .error (.nameConflict (nameConflict ("PodSnapshot " ++ quoted cfg.name ++
      " belongs to a different SnapshotJob incarnation")))
  else if sj.body.status.podSnapshotUID ≠ "" ∧ snap.uid ≠ sj.body.status.podSnapshotUID then
    .error (.nameConflict (nameConflict ("PodSnapshot " ++ quoted cfg.name ++
      " was replaced: found uid " ++ quoted snap.uid ++ ", expected " ++
      quoted sj.body.status.podSnapshotUID)))
  else .ok ()

def readOwnedPodSnapshot (cfg : Config) (direct : Bool) (sj : SJ) : Pass (Except SnapError Snap) := do
  match ← Pass.getPodSnapshot direct with
  | .error e => pure (.error (.api e))
  | .ok snap =>
    match validatePodSnapshotOwnership cfg sj snap with
    | .error e => pure (.error e)
    | .ok () => pure (.ok snap)

def findOwnedPodSnapshot (cfg : Config) (sj : SJ) : Pass (Except SnapError Snap) :=
  readOwnedPodSnapshot cfg false sj

def readAuthoritativeOwnedPodSnapshot (cfg : Config) (sj : SJ) : Pass (Except SnapError Snap) := do
  match ← readOwnedPodSnapshot cfg true sj with
  | .error (.nameConflict message) =>
    pure (.error (.nameConflict ("authoritatively read recorded PodSnapshot " ++ quoted cfg.name ++
      ": " ++ message)))
  | r => pure r

/-- The pod that the Job controls; more than one is an error. -/
def controlledPodForJob (cfg : Config) (pods : List Pod) (job : Job) : Except PassError (Option Pod) :=
  match pods.filter fun pod => isControlledBy pod.object.body.controller job.uid with
  | [] => .ok none
  | [pod] => .ok (some pod)
  | controlled => .error (.findSourcePod ("source Job " ++ quoted cfg.name ++ " controls " ++
      toString controlled.length ++ " pods; expected exactly one"))

def findSourcePod (cfg : Config) (direct : Bool) (job : Job) : Pass (Except PassError (Option Pod)) := do
  match ← Pass.listPods direct with
  | .error e => pure (.error (.listPods e))
  | .ok pods => pure (controlledPodForJob cfg pods job)

/-- The source pod is pinned by its UID. -/
def buildPodSnapshot (cfg : Config) (sj : SJ) (pod : Pod) : Except String PodSnapshotBody :=
  match snapshotJobTargetContainer sj with
  | .error e => .error e
  | .ok _ =>
    match cfg.podSnapshotTemplateMetadata sj.body.spec with
    | .error e => .error e
    | .ok () => .ok
      { ownerLabel := some cfg.name
        ownerUIDLabel := some sj.uid
        podName := pod.name
        podUID := pod.object.uid
        containers := sj.body.spec.targetContainers
        ready := none
        failed := none }

def podSnapshotHasExpectedIdentity (actual desired : PodSnapshotBody) : Bool :=
  actual.podName = desired.podName && actual.podUID = desired.podUID &&
    actual.containers = desired.containers

/-- What holds the name after AlreadyExists. -/
def classifyExistingPodSnapshot (cfg : Config) (sj : SJ) (desired : PodSnapshotBody) :
    Pass (Except (SnapError ⊕ PassError) Snap) := do
  match ← Pass.getPodSnapshot false with
  | .error .notFound => pure (.error (.inr .podSnapshotNotInCache))
  | .error e => pure (.error (.inr (.getExistingPodSnapshot e)))
  | .ok existing =>
    match validatePodSnapshotOwnership cfg sj existing with
    | .error e => pure (.error (.inl e))
    | .ok () =>
      if podSnapshotHasExpectedIdentity existing.body desired then pure (.ok existing)
      else pure (.error (.inl (.nameConflict (nameConflict ("PodSnapshot " ++ quoted cfg.name ++
        " does not match the expected source identity")))))

def createPodSnapshot (cfg : Config) (sj : SJ) (pod : Pod) :
    Pass (Except (SnapError ⊕ PassError) Snap) := do
  match buildPodSnapshot cfg sj pod with
  | .error e => pure (.error (.inr (.buildPodSnapshot e)))
  | .ok body =>
    match ← Pass.createPodSnapshot body with
    | .ok snap => pure (.ok snap)
    | .error .alreadyExists => classifyExistingPodSnapshot cfg sj body
    | .error e => pure (.error (.inr (.createPodSnapshot e)))

def createPodSnapshotForSourceJob (cfg : Config) (sj : SJ) (job : Job) : Pass Observed := do
  let observed := { Observation.empty with job := some job }
  match ← findSourcePod cfg false job with
  | .error e => pure (.error e)
  | .ok none => pure (.ok ({ observed with sourcePodMissing := true }, some sourcePodRequeueBackstop))
  | .ok (some pod) =>
    match ← createPodSnapshot cfg sj pod with
    | .error (.inl (.nameConflict message)) =>
      pure (.ok ({ observed with failure := some ⟨"PodSnapshotNameConflict", message⟩ }, none))
    | .error (.inl (.api e)) => pure (.error (.createPodSnapshot e))
    | .error (.inr e) => pure (.error e)
    | .ok snap => pure (.ok ({ observed with podSnapshot := some snap }, none))

/-- Before the UID is recorded the immutable source identity has to match as well. -/
def validatePodSnapshotForAdoption (cfg : Config) (sj : SJ) (job : Job) (snap : Snap) :
    Pass (Except PassError (Option Failure)) := do
  match ← findSourcePod cfg true job with
  | .error e => pure (.error e)
  | .ok none => pure (.ok (some ⟨"PodSnapshotNameConflict", "cannot safely adopt PodSnapshot " ++
      quoted cfg.name ++ " because its source Pod is no longer available"⟩))
  | .ok (some pod) =>
    match buildPodSnapshot cfg sj pod with
    | .error e => pure (.ok (some ⟨"InvalidSpec", e⟩))
    | .ok desired =>
      if podSnapshotHasExpectedIdentity snap.body desired then pure (.ok none)
      else pure (.ok (some ⟨"PodSnapshotNameConflict", "existing PodSnapshot " ++ quoted cfg.name ++
        " does not carry the immutable source identity expected for this SnapshotJob"⟩))

/-- Failures before the capture, and failures the agent reports. -/
def captureFailureReason (snap : Snap) : String × String :=
  match snap.body.failed with
  | none => ("CaptureFailed", "PodSnapshot Failed=True with no condition detail")
  | some c =>
    if c.reason = "ContentConflict" ∨ c.reason = "SourcePodNotFound" ∨ c.reason = "StalePodReference" then
      ("PodSnapshotFailed", c.message)
    else if c.reason = "SourceCompletedWithoutCapture" then ("SourceCompletedWithoutCapture", c.message)
    else ("CaptureFailed", c.message)

/-- A failed capture decides, except that a deadline is its root cause. -/
def snapshotJobTerminalFailure (job : Job) (snap : Snap) : Option Failure :=
  if isTrue snap.body.failed then
    if (classifySourceJobTerminal job).state = .deadlineExceeded then (classifySourceJobTerminal job).failure
    else some ⟨(captureFailureReason snap).1, (captureFailureReason snap).2⟩
  else none

/-! ## Helper containers -/

def containerTerminatedState (statuses : List ContainerStatus) (name : String) : Option Int :=
  (statuses.find? (·.name = name)).bind (·.terminated)

/-- The failure, and whether some helper is still running. -/
def classifyHelperPod (pod : PodBody) : List String → List String → Option Failure × Bool
  | helper :: helpers, sidecars =>
    match containerTerminatedState pod.containerStatuses helper with
    | none => (none, true)
    | some code =>
      if code ≠ 0 then
        (some ⟨"JobFailed", "helper container " ++ quoted helper ++ " exited with code " ++
          toString code ++ " after the checkpoint succeeded"⟩, false)
      else classifyHelperPod pod helpers sidecars
  | [], sidecars =>
    if sidecars.any fun name => (containerTerminatedState pod.initContainerStatuses name).isNone then
      (none, true)
    else (none, false)

/-- The regular helpers and the native sidecars of the template. -/
def expectedHelperContainers (spec : Spec) (targetContainer : String) : List String × List String :=
  (spec.containers.filter (· ≠ targetContainer),
    (spec.initContainers.filter (·.restartAlways)).map (·.name))

/-- The cache is trusted only for helpers that are still running. -/
def findSourcePodConfirmed (cfg : Config) (job : Job) (helpers sidecars : List String) :
    Pass (Except PassError (Option Pod)) := do
  match ← findSourcePod cfg false job with
  | .error e => pure (.error e)
  | .ok (some pod) =>
    if (classifyHelperPod pod.object.body helpers sidecars).2 then pure (.ok (some pod))
    else findSourcePod cfg true job
  | .ok none => findSourcePod cfg true job

def classifyHelperContainers (cfg : Config) (sj : SJ) (job : Job) :
    Pass (Except PassError (Option Failure × Bool)) := do
  match snapshotJobTargetContainer sj with
  | .error e => pure (.ok (some ⟨"InvalidSpec", e⟩, false))
  | .ok target =>
    let (helpers, sidecars) := expectedHelperContainers sj.body.spec target
    if helpers = [] ∧ sidecars = [] then pure (.ok (none, false))
    else do
      match ← findSourcePodConfirmed cfg job helpers sidecars with
      | .error e => pure (.error e)
      | .ok none => pure (.ok (some ⟨"JobFailed",
          "source pod is gone before its helper containers could be verified"⟩, false))
      | .ok (some pod) => pure (.ok (classifyHelperPod pod.object.body helpers sidecars))

/-! ## Resources -/

/-- The second stage of completion: the source Job has to finish. -/
def reconcileCapturedSourceJob (cfg : Config) (sj : SJ) (job : Job) (observed : Observation) :
    Pass Observed := do
  match (classifySourceJobTerminal job).state with
  | .complete => pure (.ok ({ observed with sourceJobFinished := true }, none))
  | .deadlineExceeded =>
    pure (.ok ({ observed with failure := (classifySourceJobTerminal job).failure }, none))
  | .failed =>
    match ← classifyHelperContainers cfg sj job with
    | .error e => pure (.error e)
    | .ok (_, true) => pure (.ok (observed, some captureResolutionBackstop))
    | .ok (failure, false) =>
      pure (.ok ({ observed with failure := failure, sourceJobFinished := failure.isNone }, none))
  | .active => pure (.ok (observed, some captureResolutionBackstop))

/-- Only a PodSnapshot that is not recorded yet has to be adopted. -/
def adoptionFailure (cfg : Config) (sj : SJ) (job : Job) (snap : Snap) :
    Pass (Except PassError (Option Failure)) :=
  if sj.body.status.podSnapshotUID = "" then validatePodSnapshotForAdoption cfg sj job snap
  else pure (.ok none)

/-- What the capture says once a PodSnapshot is found. -/
def reconcileFoundPodSnapshot (cfg : Config) (sj : SJ) (job : Job) (snap : Snap) : Pass Observed := do
  match ← adoptionFailure cfg sj job snap with
  | .error e => pure (.error e)
  | .ok (some failure) =>
    pure (.ok ({ Observation.empty with job := some job, failure := some failure }, none))
  | .ok none =>
    let observed := { Observation.empty with job := some job, podSnapshot := some snap }
    match snapshotJobTerminalFailure job snap with
    | some failure => pure (.ok ({ observed with failure := some failure }, none))
    | none =>
      if isTrue snap.body.ready then reconcileCapturedSourceJob cfg sj job observed
      else if (classifySourceJobTerminal job).state ≠ .active then
        pure (.ok (observed, some captureResolutionBackstop))
      else pure (.ok (observed, none))

/-- No PodSnapshot in sight: create one while the Job runs, and confirm the absence directly once it
is complete. -/
def reconcileMissingPodSnapshot (cfg : Config) (sj : SJ) (job : Job) : Pass Observed := do
  let terminal := classifySourceJobTerminal job
  match terminal.failure with
  | some failure =>
    pure (.ok ({ Observation.empty with job := some job, failure := some failure }, none))
  | none =>
    if terminal.state ≠ .complete then createPodSnapshotForSourceJob cfg sj job
    else do
      match ← readAuthoritativeOwnedPodSnapshot cfg sj with
      | .error (.api .notFound) => pure (.ok ({ Observation.empty with
          job := some job
          failure := some ⟨"SourceCompletedWithoutCapture",
            "source Job completed before a PodSnapshot was created"⟩ }, none))
      | .error (.nameConflict message) => pure (.ok ({ Observation.empty with
          job := some job
          failure := some ⟨"PodSnapshotNameConflict", message⟩ }, none))
      | .error (.api e) => pure (.error (.readPodSnapshot e))
      | .ok snap => reconcileFoundPodSnapshot cfg sj job snap

def podSnapshotDeletedFailure (sj : SJ) : Failure :=
  ⟨"PodSnapshotDeleted", "PodSnapshot " ++ quoted sj.body.status.podSnapshotName ++ " (uid " ++
    quoted sj.body.status.podSnapshotUID ++ ") no longer exists"⟩

def reconcilePodSnapshotResources (cfg : Config) (sj : SJ) (job : Job) : Pass Observed := do
  match ← findOwnedPodSnapshot cfg sj with
  | .ok snap => reconcileFoundPodSnapshot cfg sj job snap
  | .error (.nameConflict message) => pure (.ok ({ Observation.empty with
      job := some job
      failure := some ⟨"PodSnapshotNameConflict", message⟩ }, none))
  | .error (.api .notFound) =>
    if sj.body.status.podSnapshotName ≠ "" ∨ sj.body.status.podSnapshotUID ≠ "" then do
      -- the recorded capture decides, so its absence is confirmed directly
      match ← readAuthoritativeOwnedPodSnapshot cfg sj with
      | .error (.api .notFound) => pure (.ok ({ Observation.empty with
          job := some job
          failure := some (podSnapshotDeletedFailure sj) }, none))
      | .error (.nameConflict message) => pure (.ok ({ Observation.empty with
          job := some job
          failure := some ⟨"PodSnapshotNameConflict", message⟩ }, none))
      | .error (.api e) => pure (.error (.findOwnedPodSnapshot e))
      | .ok snap => reconcileFoundPodSnapshot cfg sj job snap
    else reconcileMissingPodSnapshot cfg sj job
  | .error (.api e) => pure (.error (.findOwnedPodSnapshot e))

/-- The Job is bound before anything is captured from it. -/
def reconcileAcceptedSourceJob (cfg : Config) (sj : SJ) (job : Job) : Pass Observed :=
  if sj.body.status.sourceJobUID = "" ∧ job.uid ≠ "" then
    pure (.ok ({ Observation.empty with job := some job }, none))
  else reconcilePodSnapshotResources cfg sj job

def reconcileExistingSourceJob (cfg : Config) (sj : SJ) (job : Job) : Pass Observed :=
  match classifyExistingSourceJob cfg sj job with
  | some failure => pure (.ok ({ Observation.empty with failure := some failure }, none))
  | none => reconcileAcceptedSourceJob cfg sj job

/-- Without a Job nothing but the failure is observed. -/
def readAuthoritativeSourceJob (cfg : Config) (sj : SJ) : Pass (Except PassError (Failure ⊕ Job)) := do
  match ← Pass.readJob with
  | .error .notFound => pure (.ok (.inl (sourceJobDeletedFailure cfg sj)))
  | .error e => pure (.error (.confirmSourceJob e))
  | .ok job =>
    match classifyExistingSourceJob cfg sj job with
    | some failure => pure (.ok (.inl failure))
    | none => pure (.ok (.inr job))

def observeExistingSourceJob (cfg : Config) (sj : SJ) : Pass Observed := do
  match ← Pass.getJob with
  | .error e => pure (.error (.getExistingSourceJob e))
  | .ok job => reconcileExistingSourceJob cfg sj job

/-- The Job is controlled by the SnapshotJob. -/
def createSourceJob (cfg : Config) (sj : SJ) (template : Template) : Pass Observed := do
  match ← Pass.createJob ⟨some sj.uid, template, [], none⟩ with
  | .ok job => pure (.ok ({ Observation.empty with job := some job }, none))
  | .error .alreadyExists => observeExistingSourceJob cfg sj
  | .error e => pure (.error (.createSourceJob e))

/-- The template that the spec asks for. -/
def desiredTemplate (cfg : Config) (sj : SJ) : Except String Template :=
  match cfg.parseCuInterposeAnnotation sj.body.spec with
  | .error e => .error e
  | .ok cuInterposeEnabled =>
    match cfg.buildTemplate sj.uid sj.body.spec with
    | .error e => .error e
    | .ok template =>
      if cuInterposeEnabled then
        cfg.shapeCuInterposeCapture template (sj.body.spec.targetContainers.headD "")
      else .ok template

def reconcileResources (cfg : Config) (sj : SJ) : Pass Observed := do
  match ← Pass.getJob with
  | .ok job => reconcileExistingSourceJob cfg sj job
  | .error .notFound =>
    if sj.body.status.sourceJobUID ≠ "" ∨ sj.body.status.podSnapshotName ≠ "" then do
      match ← readAuthoritativeSourceJob cfg sj with
      | .error e => pure (.error e)
      | .ok (.inl failure) => pure (.ok ({ Observation.empty with failure := some failure }, none))
      | .ok (.inr job) => reconcileAcceptedSourceJob cfg sj job
    else
      match desiredTemplate cfg sj with
      | .error e => pure (.ok (terminalObservation "InvalidSpec" e, none))
      | .ok template => createSourceJob cfg sj template
  | .error e => pure (.error (.getSourceJob e))

/-! ## Status -/

/-- `meta.SetStatusCondition` -/
def setCondition (old : Option Condition) (generation now : ℕ) (status : Bool) (reason message : String) :
    Option Condition :=
  match old with
  | none => some ⟨status, reason, message, generation, now⟩
  | some c =>
    some ⟨status, reason, message, generation,
      if c.status = status then c.lastTransitionTime else now⟩

/-- `meta.IsStatusConditionTrue` -/
def holds (c : Option Condition) : Bool := c.any (·.status)

def initializeConditions (generation now : ℕ) (c : Conditions) : Conditions where
  running := c.running <|> some ⟨false, "PodPending", "waiting for the source pod to become ready",
    generation, now⟩
  captured := c.captured <|> some ⟨false, "CaptureInProgress", "waiting for the checkpoint to start",
    generation, now⟩
  completed := c.completed <|> some ⟨false, "CaptureInProgress",
    "waiting for the checkpoint to complete", generation, now⟩
  failed := c.failed <|> some ⟨false, "NoFailure", "no failure observed", generation, now⟩

def setRunning (g now : ℕ) (s : Status) (status : Bool) (reason message : String) : Status :=
  { s with conditions := { s.conditions with
      running := setCondition s.conditions.running g now status reason message } }

def setCaptured (g now : ℕ) (s : Status) (status : Bool) (reason message : String) : Status :=
  { s with conditions := { s.conditions with
      captured := setCondition s.conditions.captured g now status reason message } }

def setCompleted (g now : ℕ) (s : Status) (status : Bool) (reason message : String) : Status :=
  { s with conditions := { s.conditions with
      completed := setCondition s.conditions.completed g now status reason message } }

def setFailed (g now : ℕ) (s : Status) (status : Bool) (reason message : String) : Status :=
  { s with conditions := { s.conditions with
      failed := setCondition s.conditions.failed g now status reason message } }

def deriveRunningStatus (g now : ℕ) (s : Status) (observed : Observation) : Status :=
  match observed.job with
  | none =>
    match observed.failure with
    | none => s
    | some f => setRunning g now s false f.reason ("source pod is unavailable: " ++ f.cause)
  | some job =>
    let ready := job.body.ready.any (0 < ·)
    let s := if ready && s.startedAt.isNone then { s with startedAt := some now } else s
    let terminal := classifySourceJobTerminal job
    match terminal.state, terminal.failure with
    | .complete, _ => setRunning g now s false "JobCompleted" "source Job completed"
    | .failed, some f | .deadlineExceeded, some f => setRunning g now s false f.reason f.cause
    | _, _ =>
      if ready then setRunning g now s true "PodReady" "source pod is ready"
      else setRunning g now s false "PodPending"
        (if observed.sourcePodMissing then "waiting for the source Job to create a pod"
          else "waiting for the source pod to become ready")

/-- The only writer of Captured; what is captured is never taken back without a PodSnapshot. -/
def deriveCapturedStatus (cfg : Config) (g now : ℕ) (s : Status) (observed : Observation) :
    Status × Option Failure :=
  match observed.podSnapshot with
  | none =>
    match observed.failure with
    | some f =>
      if holds s.conditions.captured then (s, some f)
      else (setCaptured g now s false f.reason ("checkpoint did not complete: " ++ f.cause), some f)
    | none => (s, none)
  | some snap =>
    let s := { s with
      podSnapshotName := cfg.name
      podSnapshotUID := if s.podSnapshotUID = "" then snap.uid else s.podSnapshotUID }
    if isTrue snap.body.failed then
      let reason := captureFailureReason snap
      (setCaptured g now s false reason.1 reason.2, observed.failure <|> some ⟨reason.1, reason.2⟩)
    else if isTrue snap.body.ready then
      (setCaptured g now s true "CaptureCompleted"
        "the target container's state is saved to the snapshot store", observed.failure)
    else
      (setCaptured g now s false "CaptureInProgress" "waiting for the node agent to take the snapshot",
        observed.failure)

def deriveFailureStatus (g now : ℕ) (s : Status) (f : Failure) : Status :=
  let s := if holds s.conditions.running then
      setRunning g now s false f.reason
        "the SnapshotJob failed terminally; the source Job is preserved for debugging"
    else s
  let s := if holds s.conditions.completed then s
    else setCompleted g now s false f.reason ("the SnapshotJob failed before completing: " ++ f.cause)
  let s := setFailed g now s true f.reason f.cause
  { s with completedAt := s.completedAt <|> some now }

/-- A capture alone does not complete: the source Job has to have finished. -/
def deriveCompletionStatus (g now : ℕ) (s : Status) (observed : Observation) : Status :=
  if !(observed.podSnapshot.any fun snap => isTrue snap.body.ready) then s
  else if !observed.sourceJobFinished then
    let s := setRunning g now s false "WaitingForPodCompletion"
      "snapshot taken; the source pod's remaining containers are finishing"
    setCompleted g now s false "WaitingForPodCompletion"
      "snapshot taken; waiting for the source pod's remaining containers to finish"
  else
    let s := setRunning g now s false "JobCompleted" "source Job finished"
    let s := setCompleted g now s true "JobCompleted"
      "snapshot taken and source workload finished; source Job cleanup initiated"
    { s with completedAt := s.completedAt <|> some now }

/-- The UID of the source Job is recorded once. -/
def recordSourceJob (s : Status) (observed : Observation) : Status :=
  match observed.job with
  | some job => if s.sourceJobUID = "" then { s with sourceJobUID := job.uid } else s
  | none => s

def deriveSnapshotJobStatus (cfg : Config) (sj : SJ) (observed : Observation) (now : ℕ) : Status :=
  let g := sj.body.generation
  let s := recordSourceJob sj.body.status observed
  let s := { s with conditions := initializeConditions g now s.conditions }
  let s := deriveRunningStatus g now s observed
  match deriveCapturedStatus cfg g now s observed with
  | (s, some failure) => deriveFailureStatus g now s failure
  | (s, none) => deriveCompletionStatus g now s observed

/-- The verdicts and the recorded UIDs, which most of the derivation leaves alone. -/
structure Unmoved (s t : Status) : Prop where
  completed : t.conditions.completed = s.conditions.completed
  failed : t.conditions.failed = s.conditions.failed
  sourceJobUID : t.sourceJobUID = s.sourceJobUID
  podSnapshotUID : t.podSnapshotUID = s.podSnapshotUID

theorem Unmoved.refl (s : Status) : Unmoved s s := ⟨rfl, rfl, rfl, rfl⟩

theorem Unmoved.trans {s t u : Status} (h : Unmoved s t) (h' : Unmoved t u) : Unmoved s u :=
  ⟨h'.completed.trans h.completed, h'.failed.trans h.failed, h'.sourceJobUID.trans h.sourceJobUID,
    h'.podSnapshotUID.trans h.podSnapshotUID⟩

section Derivation

variable (cfg : Config) (g now : ℕ) (s : Status) (observed : Observation)

theorem unmoved_setRunning (status : Bool) (reason message : String) :
    Unmoved s (setRunning g now s status reason message) := ⟨rfl, rfl, rfl, rfl⟩

theorem holds_setCondition (old : Option Condition) (status : Bool) (reason message : String) :
    holds (setCondition old g now status reason message) = status := by
  cases old <;> rfl

theorem unmoved_deriveRunningStatus : Unmoved s (deriveRunningStatus g now s observed) := by
  simp only [deriveRunningStatus]
  split
  · split
    · exact .refl s
    · exact unmoved_setRunning g now s _ _ _
  · rename_i job _
    have started : ∀ b : Bool, Unmoved s (if b then { s with startedAt := some now } else s) := by
      intro b
      cases b <;> exact ⟨rfl, rfl, rfl, rfl⟩
    split
    · exact (started _).trans (unmoved_setRunning g now _ _ _ _)
    · exact (started _).trans (unmoved_setRunning g now _ _ _ _)
    · exact (started _).trans (unmoved_setRunning g now _ _ _ _)
    · split
      · exact (started _).trans (unmoved_setRunning g now _ _ _ _)
      · exact (started _).trans (unmoved_setRunning g now _ _ _ _)

/-- The capture moves no verdict, and the UID of a PodSnapshot is recorded once. -/
theorem deriveCapturedStatus_spec :
    let t := (deriveCapturedStatus cfg g now s observed).1
    t.conditions.completed = s.conditions.completed ∧ t.conditions.failed = s.conditions.failed ∧
      t.sourceJobUID = s.sourceJobUID ∧
      (t.podSnapshotUID = s.podSnapshotUID ∨
        s.podSnapshotUID = "" ∧ ∃ snap, observed.podSnapshot = some snap ∧ t.podSnapshotUID = snap.uid) := by
  simp only [deriveCapturedStatus]
  split
  · split
    · split
      · exact ⟨rfl, rfl, rfl, .inl rfl⟩
      · exact ⟨rfl, rfl, rfl, .inl rfl⟩
    · exact ⟨rfl, rfl, rfl, .inl rfl⟩
  · rename_i snap hsnap
    have recorded : (if s.podSnapshotUID = "" then snap.uid else s.podSnapshotUID) = s.podSnapshotUID ∨
        s.podSnapshotUID = "" ∧ ∃ snap', observed.podSnapshot = some snap' ∧
          (if s.podSnapshotUID = "" then snap.uid else s.podSnapshotUID) = snap'.uid := by
      by_cases hempty : s.podSnapshotUID = ""
      · exact .inr ⟨hempty, snap, hsnap, if_pos hempty⟩
      · exact .inl (if_neg hempty)
    split
    · exact ⟨rfl, rfl, rfl, recorded⟩
    · split
      · exact ⟨rfl, rfl, rfl, recorded⟩
      · exact ⟨rfl, rfl, rfl, recorded⟩

theorem deriveFailureStatus_spec (f : Failure) (h : holds s.conditions.completed = false) :
    let t := deriveFailureStatus g now s f
    holds t.conditions.completed = false ∧ t.sourceJobUID = s.sourceJobUID ∧
      t.podSnapshotUID = s.podSnapshotUID := by
  have running : ∀ b : Bool, Unmoved s (if b then setRunning g now s false f.reason
      "the SnapshotJob failed terminally; the source Job is preserved for debugging" else s) := by
    intro b
    cases b
    · exact .refl s
    · exact unmoved_setRunning g now s _ _ _
  have hrunning := running (holds s.conditions.running)
  simp only [deriveFailureStatus]
  rw [if_neg (by rw [hrunning.completed, h]; exact nofun)]
  exact ⟨holds_setCondition g now _ _ _ _, hrunning.sourceJobUID, hrunning.podSnapshotUID⟩

theorem deriveCompletionStatus_spec :
    let t := deriveCompletionStatus g now s observed
    t.conditions.failed = s.conditions.failed ∧ t.sourceJobUID = s.sourceJobUID ∧
      t.podSnapshotUID = s.podSnapshotUID := by
  simp only [deriveCompletionStatus]
  split
  · exact ⟨rfl, rfl, rfl⟩
  · split
    · exact ⟨rfl, rfl, rfl⟩
    · exact ⟨rfl, rfl, rfl⟩

end Derivation

theorem recordSourceJob_spec (s : Status) (observed : Observation) :
    let t := recordSourceJob s observed
    t.conditions = s.conditions ∧ t.podSnapshotUID = s.podSnapshotUID ∧
      (t.sourceJobUID = s.sourceJobUID ∨
        s.sourceJobUID = "" ∧ ∃ job, observed.job = some job ∧ t.sourceJobUID = job.uid) := by
  simp only [recordSourceJob]
  split
  · rename_i job hjob
    split
    · rename_i hempty
      exact ⟨rfl, rfl, .inr ⟨hempty, job, hjob, rfl⟩⟩
    · exact ⟨rfl, rfl, .inl rfl⟩
  · exact ⟨rfl, rfl, .inl rfl⟩

theorem holds_initialized (c : Option Condition) (reason message : String) (g now : ℕ) :
    holds (c <|> some ⟨false, reason, message, g, now⟩) = holds c := by
  cases c <;> rfl

/-- A status derived from a copy without a verdict has at most one, and the UIDs it records are the
recorded ones or those of what was observed. -/
theorem deriveSnapshotJobStatus_spec (cfg : Config) (sj : SJ) (observed : Observation) (now : ℕ)
    (hcompleted : holds sj.body.status.conditions.completed = false)
    (hfailed : holds sj.body.status.conditions.failed = false) :
    let t := deriveSnapshotJobStatus cfg sj observed now
    ¬ (holds t.conditions.completed = true ∧ holds t.conditions.failed = true) ∧
      (t.sourceJobUID = sj.body.status.sourceJobUID ∨ sj.body.status.sourceJobUID = "" ∧
        ∃ job, observed.job = some job ∧ t.sourceJobUID = job.uid) ∧
      (t.podSnapshotUID = sj.body.status.podSnapshotUID ∨ sj.body.status.podSnapshotUID = "" ∧
        ∃ snap, observed.podSnapshot = some snap ∧ t.podSnapshotUID = snap.uid) := by
  obtain ⟨hconditions, hsnap₁, hjob₁⟩ := recordSourceJob_spec sj.body.status observed
  simp only [deriveSnapshotJobStatus]
  generalize recordSourceJob sj.body.status observed = s₁ at *
  -- up to the capture no verdict moves
  have hrunning := unmoved_deriveRunningStatus sj.body.generation now
    { s₁ with conditions := initializeConditions sj.body.generation now s₁.conditions } observed
  have hopen₃ : holds (deriveRunningStatus sj.body.generation now
      { s₁ with conditions := initializeConditions sj.body.generation now s₁.conditions }
      observed).conditions.completed = false ∧ holds (deriveRunningStatus sj.body.generation now
      { s₁ with conditions := initializeConditions sj.body.generation now s₁.conditions }
      observed).conditions.failed = false := by
    rw [hrunning.completed, hrunning.failed]
    simp only [initializeConditions, holds_initialized, hconditions]
    exact ⟨hcompleted, hfailed⟩
  have hjob₃ := hrunning.sourceJobUID
  have hsnap₃ := hrunning.podSnapshotUID
  generalize deriveRunningStatus sj.body.generation now
    { s₁ with conditions := initializeConditions sj.body.generation now s₁.conditions } observed = s₃ at *
  have hcaptured := deriveCapturedStatus_spec cfg sj.body.generation now s₃ observed
  generalize deriveCapturedStatus cfg sj.body.generation now s₃ observed = c at *
  obtain ⟨s₄, failure⟩ := c
  obtain ⟨hcompleted₄, hfailed₄, hjob₄, hsnap₄⟩ := hcaptured
  simp only at hcompleted₄ hfailed₄ hjob₄ hsnap₄ hjob₃ hsnap₃
  rw [hjob₃] at hjob₄
  rw [hsnap₃, hsnap₁] at hsnap₄
  rw [← hjob₄] at hjob₁
  cases failure with
  | some f =>
    obtain ⟨hc, hj, hs⟩ := deriveFailureStatus_spec sj.body.generation now s₄ f
      (by rw [hcompleted₄]; exact hopen₃.1)
    dsimp only
    rw [hj, hs]
    exact ⟨fun hboth => absurd (hc.symm.trans hboth.1) nofun, hjob₁, hsnap₄⟩
  | none =>
    obtain ⟨hf, hj, hs⟩ := deriveCompletionStatus_spec sj.body.generation now s₄ observed
    dsimp only
    rw [hj, hs, hf, hfailed₄, hopen₃.2]
    exact ⟨fun hboth => absurd hboth.2 nofun, hjob₁, hsnap₄⟩

/-! ## The pass -/

def isSnapshotJobCompleted (s : Status) : Bool := holds s.conditions.completed

def isSnapshotJobFailed (s : Status) : Bool := holds s.conditions.failed

/-- Only the Job that the SnapshotJob controls and has recorded is deleted. -/
def ensureJobDeleted (sj : SJ) : Pass Outcome := do
  match ← Pass.getJob with
  | .error .notFound => pure .done
  | .error e => pure (.failed (.getJobToDelete e))
  | .ok job =>
    if !isControlledBy job.body.controller sj.uid then pure .done
    else if sj.body.status.sourceJobUID ≠ "" ∧ job.uid ≠ sj.body.status.sourceJobUID then pure .done
    else do
      match ← Pass.deleteJob job.uid with
      | .ok () | .error .notFound => pure .done
      | .error e => pure (.failed (.deleteJob e))

def patchSnapshotJobStatus (sj : SJ) (desired : Status) : Pass (Except ApiError Unit) :=
  if sj.body.status = desired then pure (.ok ())
  else Pass.patchStatus (.between sj.body.status desired)

/-- The status is derived once, from the resulting observation. -/
def reconcileStatus (cfg : Config) (sj : SJ) (observed : Observation) (requeue : Option ℕ) :
    Pass Outcome := do
  let now ← Pass.now
  let desired := deriveSnapshotJobStatus cfg sj observed now
  match ← patchSnapshotJobStatus sj desired with
  | .error e => pure (.failed (.patchStatus e))
  | .ok () =>
    if isSnapshotJobCompleted desired then
      -- the copy that was read, with the status that was just written
      ensureJobDeleted { sj with body := { sj.body with status := desired } }
    else
      match requeue with
      | some seconds => pure (.requeueAfter seconds)
      | none => pure .done

def reconcile (cfg : Config) : Pass Outcome := do
  match ← Pass.getSnapshotJob with
  | .error .notFound => pure .done
  | .error e => pure (.failed (.getSnapshotJob e))
  | .ok sj =>
    if sj.deleting then pure .done
    else if isSnapshotJobFailed sj.body.status then pure .done
    else if isSnapshotJobCompleted sj.body.status then ensureJobDeleted sj
    else do
      match ← reconcileResources cfg sj with
      | .error e => pure (.failed e)
      | .ok (observed, requeue) => reconcileStatus cfg sj observed requeue

end SnapshotJob
