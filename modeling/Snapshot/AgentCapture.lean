import Mathlib.Data.List.Perm.Basic
import Mathlib.Data.String.Basic
import Snapshot.PodSnapshotReconciler

/-! `NodeController.reconcileCapture`: one pass over a PodSnapshotContent, from the validation of its
source pod to the dump. Each content has a goroutine of its own; all read one informer cache. Which
content may touch a pod that several of them name is decided during the pass, from that cache. -/
namespace AgentCapture

open ApiObjects Interleaving
open PodSnapshot (Condition Phase isTrue quoted)

/-! ## Objects -/

/-- `creationTimestamp` is in seconds. -/
structure ContentBody where
  creationTimestamp : ℕ
  snapshotNamespace : String
  nodeName : String
  podName : String
  podUID : String
  containers : List String
  storage : Option String
  ready : Option Condition
  failed : Option Condition
  deriving DecidableEq, Repr

inductive ContainerState where
  | waiting
  | running
  | terminated (exitCode : Int) (reason : String)
  deriving DecidableEq, Repr

/-- The ID is without the scheme of the runtime. -/
structure ContainerStatus where
  name : String
  containerID : String
  state : ContainerState
  deriving DecidableEq, Repr

/-- `eligible` is the value of the capture-eligible label. -/
structure PodBody where
  phase : Phase
  eligible : Option String
  containerStatuses : List ContainerStatus
  deriving DecidableEq, Repr

abbrev Content := Object ContentBody

/-- A pod under its key, which is `namespace/name`. -/
structure Pod where
  key : String
  name : String
  object : Object PodBody
  deriving DecidableEq

/-- The node of the agent, and what it takes from its settings and from the template of a pod. -/
structure Config where
  nodeName : String
  resolveArtifactPath : String → String → Except String String
  preflightCuInterpose : Object PodBody → String → Except String Bool

def isContentReady (b : ContentBody) : Bool := isTrue b.ready

def isContentFailed (b : ContentBody) : Bool := isTrue b.failed

def isContentTerminal (b : ContentBody) : Bool := isContentReady b || isContentFailed b

def podKey (b : ContentBody) : String := b.snapshotNamespace ++ "/" ++ b.podName

/-- A content without a namespace or a pod is not indexed. -/
def podRefIndexFunc (b : ContentBody) : Option String :=
  if b.snapshotNamespace = "" ∨ b.podName = "" then none else some (podKey b)

/-! ## Ownership -/

/-- One round of the loop: the oldest so far, ties broken by the name. -/
def consider (chosen : Option (ℕ × String)) (o : String × Content) : Option (ℕ × String) :=
  if o.2.deleting || isContentTerminal o.2.body then chosen
  else
    match chosen with
    | none => some (o.2.body.creationTimestamp, o.1)
    | some (time, name) =>
      if o.2.body.creationTimestamp < time ∨ (o.2.body.creationTimestamp = time ∧ o.1 < name) then
        some (o.2.body.creationTimestamp, o.1)
      else some (time, name)

def chooseActiveContent (objs : List (String × Content)) : String :=
  ((objs.foldl consider none).map (·.2)).getD ""

/-- `captureOwnerForPod`, on what the cache holds -/
def captureOwner (cache : Collection ContentBody) (key : String) : String :=
  chooseActiveContent (cache.objects.toList.filter fun o => podRefIndexFunc o.2.body = some key)

/-! ## Calls -/

structure CheckpointParams where
  pod : Pod
  containerName : String
  containerID : String
  containerPID : ℕ
  contentUID : String
  artifactPath : String
  cuInterposeRequested : Bool
  storeID : String
  deriving DecidableEq

/-- What the readiness gate of a content says. -/
inductive Readiness where
  | invalid (message : String)
  /-- When the next check is due; a pod event wakes the content otherwise. -/
  | notReady (next : Option ℕ)
  | ready

/-- The reason and the message of a failed dump, as they are recorded. -/
structure CaptureFailure where
  reason : String
  message : String

inductive Call where
  | cachedContent (name : String)
  | getPod (key : String)
  /-- The status patches carry the version that was read. -/
  | patchFailed (name : String) (version : ℕ) (reason message : String)
  | patchReady (name : String) (version : ℕ)
  | getContent (name : String)
  | artifactPresent (path contentUID containerName : String)
  | removeCaptureEligibleLabel (pod : Pod)
  | captureOwnerForPod (key : String)
  | killRunningContainers (pod : Pod)
  | labelCaptureEligible (pod : Pod)
  | runProbeIfDue (pod : Pod) (containerName : String)
  | resolveContainer (pod : Pod) (containerID : String)
  | checkStagingCapacity (pod : Pod) (pid : ℕ)
  /-- The dump runs from here to the call that ends it. -/
  | beginCheckpoint (params : CheckpointParams)
  | endCheckpoint (params : CheckpointParams)

def Call.Answer : Call → Type
  | cachedContent _ => Option Content
  | getPod _ => Except ApiError (Object PodBody)
  | patchFailed .. | patchReady .. | labelCaptureEligible _ => Except ApiError Unit
  | getContent _ => Except ApiError Content
  | artifactPresent .. => Bool
  | captureOwnerForPod _ => String
  | removeCaptureEligibleLabel _ | killRunningContainers _ | beginCheckpoint _ => Unit
  | runProbeIfDue .. => Readiness
  | resolveContainer .. => Except String ℕ
  | checkStagingCapacity .. => Except String Unit
  | endCheckpoint _ => Except CaptureFailure Unit

abbrev interface : Interface := ⟨Call, Call.Answer⟩

abbrev Pass := Process interface

namespace Pass

def cachedContent (name : String) : Pass (Option Content) :=
  Process.request (I := interface) (.cachedContent name)

def getPod (key : String) : Pass (Except ApiError (Object PodBody)) :=
  Process.request (I := interface) (.getPod key)

def patchFailed (name : String) (version : ℕ) (reason message : String) : Pass (Except ApiError Unit) :=
  Process.request (I := interface) (.patchFailed name version reason message)

def patchReady (name : String) (version : ℕ) : Pass (Except ApiError Unit) :=
  Process.request (I := interface) (.patchReady name version)

def getContent (name : String) : Pass (Except ApiError Content) :=
  Process.request (I := interface) (.getContent name)

def artifactPresent (path contentUID containerName : String) : Pass Bool :=
  Process.request (I := interface) (.artifactPresent path contentUID containerName)

def removeCaptureEligibleLabel (pod : Pod) : Pass Unit :=
  Process.request (I := interface) (.removeCaptureEligibleLabel pod)

def captureOwnerForPod (key : String) : Pass String :=
  Process.request (I := interface) (.captureOwnerForPod key)

def killRunningContainers (pod : Pod) : Pass Unit :=
  Process.request (I := interface) (.killRunningContainers pod)

def labelCaptureEligible (pod : Pod) : Pass (Except ApiError Unit) :=
  Process.request (I := interface) (.labelCaptureEligible pod)

def runProbeIfDue (pod : Pod) (containerName : String) : Pass Readiness :=
  Process.request (I := interface) (.runProbeIfDue pod containerName)

def resolveContainer (pod : Pod) (containerID : String) : Pass (Except String ℕ) :=
  Process.request (I := interface) (.resolveContainer pod containerID)

def checkStagingCapacity (pod : Pod) (pid : ℕ) : Pass (Except String Unit) :=
  Process.request (I := interface) (.checkStagingCapacity pod pid)

def beginCheckpoint (params : CheckpointParams) : Pass Unit :=
  Process.request (I := interface) (.beginCheckpoint params)

def endCheckpoint (params : CheckpointParams) : Pass (Except CaptureFailure Unit) :=
  Process.request (I := interface) (.endCheckpoint params)

end Pass

/-- Errors that end a pass and are retried. -/
inductive PassError where
  | getPod (e : ApiError)
  | writeStatus (e : ApiError)
  | readContent (e : ApiError)
  | conflictRetries
  | markEligible (e : ApiError)
  deriving DecidableEq

inductive Outcome where
  | done
  | requeueAfter (time : ℕ)
  | failed (e : PassError)
  deriving DecidableEq

/-! ## Status -/

def setSnapshotContentFailed (name : String) (content : Content) (reason message : String) :
    Pass Outcome := do
  match ← Pass.patchFailed name content.version reason message with
  | .ok () => pure .done
  | .error e => pure (.failed (.writeStatus e))

def readyStatusConflictLimit : ℕ := 8

/-- A conflict is read again: a failure that was recorded meanwhile wins. -/
def markCheckpointReadyWithSource (name : String) : ℕ → Content → Pass Outcome
  | 0, _ => pure (.failed .conflictRetries)
  | attempts + 1, ready => do
    match ← Pass.patchReady name ready.version with
    | .ok () => pure .done
    | .error .conflict =>
      match ← Pass.getContent name with
      | .error e => pure (.failed (.readContent e))
      | .ok current =>
        if isContentFailed current.body then pure .done
        else if isContentReady current.body then pure .done
        else markCheckpointReadyWithSource name attempts current
    | .error e => pure (.failed (.writeStatus e))

def markCheckpointReady (name : String) (content : Content) : Pass Outcome :=
  markCheckpointReadyWithSource name readyStatusConflictLimit content

/-! ## The pass -/

/-- `unicode.IsSpace` -/
def isSpace (c : Char) : Bool :=
  c ∈ ['\t', '\n', '\x0b', '\x0c', '\r', ' ', '\u0085', '\u00a0', '\u1680', '\u2028', '\u2029', '\u202f',
    '\u205f', '\u3000'] || ('\u2000' ≤ c && c ≤ '\u200a')

def singleTargetContainer (containers : List String) : Except String String :=
  match containers with
  | [container] =>
    if container.toList.all isSpace then .error "source podRef container name must not be empty"
    else .ok container
  | _ => .error ("source podRef must reference exactly one container, got " ++ toString containers.length)

/-- The content is Ready once its artifact is on disk; content that is bound to a store never
recovers this way. -/
def recoverCommittedArtifact (name : String) (content : Content) (containerName artifactPath : String) :
    Pass (Option Outcome) := do
  if content.body.storage.isSome then pure none
  else
    match ← Pass.artifactPresent artifactPath content.uid containerName with
    | false => pure none
    | true => do
      let outcome ← markCheckpointReady name content
      pure (some outcome)

def classifySourcePodIdentity (content : Content) (pod : Pod) : Option (String × String) :=
  if content.body.podUID ≠ "" ∧ pod.object.uid ≠ content.body.podUID then
    some ("StalePodReference", "source pod " ++ quoted pod.name ++ " UID " ++ quoted pod.object.uid ++
      " does not match work order UID " ++ quoted content.body.podUID)
  else none

def phaseName : Phase → String
  | .pending => "Pending"
  | .running => "Running"
  | .succeeded => "Succeeded"
  | .failed => "Failed"
  | .unknown => "Unknown"

def classifySourcePodLiveness (pod : Pod) : Option (String × String) :=
  if pod.object.deleting ∨ pod.object.body.phase = .failed ∨ pod.object.body.phase = .succeeded then
    some ("SourcePodGone", "source pod " ++ quoted pod.name ++ " is no longer running (phase " ++
      phaseName pod.object.body.phase ++ ")")
  else none

/-- The first container that terminated with a failure, and the message for it. -/
def failedCheckpointContainer : List ContainerStatus → Option String
  | [] => none
  | cs :: rest =>
    match cs.state with
    | .terminated exitCode reason =>
      if exitCode ≠ 0 then
        some ("checkpoint container " ++ quoted cs.name ++ " terminated with exit code " ++
          toString exitCode ++ (if reason = "" then "" else ": " ++ reason))
      else failedCheckpointContainer rest
    | _ => failedCheckpointContainer rest

def containerIDForName (pod : Pod) (containerName : String) : String :=
  ((pod.object.body.containerStatuses.find? (·.name = containerName)).map (·.containerID)).getD ""

/-- A pod without the label is not patched. -/
def removeCaptureEligibleLabel (pod : Pod) : Pass Unit :=
  if pod.object.body.eligible.isNone then pure () else Pass.removeCaptureEligibleLabel pod

/-- The source pod stops to drive a content that is cancelled. -/
def cancelCapture (name : String) (content : Content) (pod : Pod) (reason message : String) :
    Pass Outcome := do
  let outcome ← setSnapshotContentFailed name content reason message
  removeCaptureEligibleLabel pod
  pure outcome

def runCheckpoint (name : String) (content : Content) (params : CheckpointParams) : Pass Outcome := do
  Pass.beginCheckpoint params
  match ← Pass.endCheckpoint params with
  | .error failure => setSnapshotContentFailed name content failure.reason failure.message
  | .ok () => markCheckpointReady name content

/-- The container is ready: resolve it and dump it. -/
def captureReadyContainer (name : String) (content : Content) (pod : Pod)
    (containerName artifactPath : String) (cuInterposeRequested : Bool) : Pass Outcome := do
  let containerID := containerIDForName pod containerName
  if containerID = "" then
    setSnapshotContentFailed name content "ContainerNotResolved"
      ("could not resolve container " ++ quoted containerName ++ " ID")
  else
    match ← Pass.resolveContainer pod containerID with
    | .error e =>
      setSnapshotContentFailed name content "ContainerNotResolved"
        ("resolve container " ++ quoted containerName ++ ": " ++ e)
    | .ok pid =>
      match ← Pass.checkStagingCapacity pod pid with
      | .error e => setSnapshotContentFailed name content "ImageTooLarge" e
      | .ok () =>
        runCheckpoint name content
          { pod := pod
            containerName := containerName
            containerID := containerID
            containerPID := pid
            contentUID := content.uid
            artifactPath := artifactPath
            cuInterposeRequested := cuInterposeRequested
            storeID := content.body.storage.getD "" }

/-- Idempotent: a pod that has the label is not patched. -/
def labelCaptureEligible (pod : Pod) : Pass (Except ApiError Unit) :=
  if pod.object.body.eligible = some "true" then pure (.ok ()) else Pass.labelCaptureEligible pod

def captureLivePod (name : String) (content : Content) (pod : Pod)
    (containerName artifactPath : String) (cuInterposeRequested : Bool) : Pass Outcome := do
  match ← labelCaptureEligible pod with
  | .error e => pure (.failed (.markEligible e))
  | .ok () =>
    match ← Pass.runProbeIfDue pod containerName with
    | .invalid e => setSnapshotContentFailed name content "InvalidCheckpointReadinessProbe" e
    | .notReady none => pure .done
    | .notReady (some time) => pure (.requeueAfter time)
    | .ready => captureReadyContainer name content pod containerName artifactPath cuInterposeRequested

/-- What only the owner may do. -/
def captureOwnedPod (cfg : Config) (name : String) (content : Content) (pod : Pod)
    (containerName artifactPath : String) : Pass Outcome :=
  match failedCheckpointContainer pod.object.body.containerStatuses with
  | some message => do
    -- `failCheckpointOnContainerExit`
    Pass.killRunningContainers pod
    setSnapshotContentFailed name content "CheckpointContainerFailed" message
  | none =>
    match classifySourcePodLiveness pod with
    | some (reason, message) => cancelCapture name content pod reason message
    | none =>
      match cfg.preflightCuInterpose pod.object containerName with
      | .error e => setSnapshotContentFailed name content "CuInterposeMisconfigured" e
      | .ok requested => captureLivePod name content pod containerName artifactPath requested

def captureFromPod (cfg : Config) (name : String) (content : Content) (pod : Pod)
    (containerName artifactPath : String) : Pass Outcome :=
  match classifySourcePodIdentity content pod with
  | some (reason, message) => cancelCapture name content pod reason message
  | none => do
    match ← recoverCommittedArtifact name content containerName artifactPath with
    | some outcome => pure outcome
    | none =>
      let chosen ← Pass.captureOwnerForPod pod.key
      if chosen = name then captureOwnedPod cfg name content pod containerName artifactPath
      else pure .done

def reconcileSourcePod (cfg : Config) (name : String) (content : Content)
    (containerName artifactPath : String) : Pass Outcome := do
  match ← Pass.getPod (podKey content.body) with
  | .ok object =>
    captureFromPod cfg name content ⟨podKey content.body, content.body.podName, object⟩ containerName
      artifactPath
  | .error .notFound =>
    match ← recoverCommittedArtifact name content containerName artifactPath with
    | some outcome => pure outcome
    | none =>
      setSnapshotContentFailed name content "SourcePodNotFound"
        ("source pod " ++ quoted (podKey content.body) ++ " not found")
  | .error e => pure (.failed (.getPod e))

def reconcileCapture (cfg : Config) (name : String) : Pass Outcome := do
  match ← Pass.cachedContent name with
  | none => pure .done
  | some content =>
    if content.body.nodeName ≠ cfg.nodeName ∨ content.deleting ∨ isContentTerminal content.body then
      pure .done
    else if content.uid = "" then
      setSnapshotContentFailed name content "MissingContentUID"
        ("PodSnapshotContent " ++ quoted name ++ " has no UID")
    else
      match singleTargetContainer content.body.containers with
      | .error e => setSnapshotContentFailed name content "InvalidTargetContainer" e
      | .ok containerName =>
        match cfg.resolveArtifactPath content.uid containerName with
        | .error e => setSnapshotContentFailed name content "InvalidDestination" e
        | .ok artifactPath => reconcileSourcePod cfg name content containerName artifactPath

end AgentCapture
