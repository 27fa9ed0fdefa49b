import Snapshot.ApiObjects
import Snapshot.Interleaving

/-! `PodSnapshotReconciler`: one pass over the PodSnapshot of a request. A pass reads through the
caches of the operator or directly from the API server; its writes to the PodSnapshot are checked
against the version it read. -/
namespace PodSnapshot

open ApiObjects Interleaving

def podSnapshotFinalizer : String := "nvidia.com/podsnapshotcontent-cleanup"

def artifactCleanupFinalizer : String := "nvidia.com/podsnapshotcontent-artifact-cleanup"

structure Condition where
  status : Bool
  reason : String
  message : String
  deriving DecidableEq, Repr

/-- `meta.IsStatusConditionTrue` -/
def isTrue (c : Option Condition) : Bool := c.any (·.status)

structure Status where
  boundContentName : Option String
  ready : Option Condition
  failed : Option Condition
  deriving DecidableEq, Repr

/-- The spec names the source pod; an empty UID pins none. -/
structure SnapshotBody where
  podName : String
  podUID : String
  containers : List String
  status : Status
  deriving DecidableEq, Repr

structure SnapshotRef where
  ns : String
  name : String
  uid : String
  deriving DecidableEq, Repr

structure ContentBody where
  snapshotRef : SnapshotRef
  podName : String
  podUID : String
  containers : List String
  nodeName : String
  storage : Option String
  ready : Option Condition
  failed : Option Condition
  deriving DecidableEq, Repr

inductive Phase where
  | pending | running | succeeded | failed | unknown
  deriving DecidableEq, Repr

structure ContainerStatus where
  name : String
  ready : Bool
  /-- `State.Terminated.FinishedAt`; a zero time was not recorded. -/
  terminatedAt : Option ℕ
  deriving DecidableEq, Repr

structure PodBody where
  nodeName : String
  phase : Phase
  annotations : List (String × String)
  containerStatuses : List ContainerStatus
  initContainerStatuses : List ContainerStatus
  deriving DecidableEq, Repr

abbrev Snap := Object SnapshotBody

abbrev Content := Object ContentBody

abbrev Pod := Object PodBody

/-- The request, and the fields of `PodSnapshotReconciler`. -/
structure Config where
  ns : String
  name : String
  testFailureAnnotation : String
  storeID : String

inductive Failure where
  | getSnapshot (e : ApiError)
  | addFinalizer (e : ApiError)
  | removeFinalizer (e : ApiError)
  | getBoundContent (name : String) (e : ApiError)
  | getSourcePod (e : ApiError)
  | rereadSourcePod (e : ApiError)
  | rereadContent (name : String) (e : ApiError)
  | contentConflict (message : String)
  | createContent (name : String) (e : ApiError)
  | getExistingContent (name : String) (e : ApiError)
  | bindContent (name : String) (e : ApiError)
  | updateStatus (e : ApiError)
  | deleteContent (name : String) (e : ApiError)
  | confirmDeleted (name : String) (e : ApiError)
  | noTargetContainer

/-- What a pass returns to the controller, in seconds. -/
inductive Outcome where
  | done
  | requeueAfter (seconds : Int)
  | failed (e : Failure)

/-! ## Calls -/

inductive Call where
  | getSnapshot
  | getContent (name : String)
  | getPod (name : String)
  | readContent (name : String)
  | readPod (name : String)
  | updateFinalizers (version : ℕ) (finalizers : List String)
  | updateStatus (version : ℕ) (status : Status)
  | createContent (name : String) (finalizers : List String) (body : ContentBody)
  | deleteContent (name : String)
  | now
  deriving DecidableEq

def Call.Answer : Call → Type
  | getSnapshot => Except ApiError Snap
  | getContent _ => Except ApiError Content
  | getPod _ => Except ApiError Pod
  | readContent _ => Except ApiError Content
  | readPod _ => Except ApiError Pod
  | updateFinalizers _ _ => Except ApiError Unit
  | updateStatus _ _ => Except ApiError Unit
  | createContent _ _ _ => Except ApiError Unit
  | deleteContent _ => Except ApiError Unit
  | now => ℕ

abbrev interface : Interface := ⟨Call, Call.Answer⟩

abbrev Pass (α : Type) := Process interface α

namespace Pass

def getSnapshot : Pass (Except ApiError Snap) := Process.request (I := interface) .getSnapshot

def getContent (name : String) : Pass (Except ApiError Content) :=
  Process.request (I := interface) (.getContent name)

/-- `getSourcePod`, through the cache -/
def getPod (name : String) : Pass (Except ApiError Pod) := Process.request (I := interface) (.getPod name)

/-- `NonCacheReadClient.Get` of a PodSnapshotContent -/
def readContent (name : String) : Pass (Except ApiError Content) :=
  Process.request (I := interface) (.readContent name)

/-- `NonCacheReadClient.Get` of the source pod -/
def readPod (name : String) : Pass (Except ApiError Pod) := Process.request (I := interface) (.readPod name)

/-- `Update`, which writes metadata -/
def updateFinalizers (snap : Snap) (finalizers : List String) : Pass (Except ApiError Unit) :=
  Process.request (I := interface) (.updateFinalizers snap.version finalizers)

/-- `Status().Update` -/
def updateStatus (snap : Snap) (status : Status) : Pass (Except ApiError Unit) :=
  Process.request (I := interface) (.updateStatus snap.version status)

def createContent (name : String) (finalizers : List String) (body : ContentBody) :
    Pass (Except ApiError Unit) :=
  Process.request (I := interface) (.createContent name finalizers body)

def deleteContent (name : String) : Pass (Except ApiError Unit) :=
  Process.request (I := interface) (.deleteContent name)

def now : Pass ℕ := Process.request (I := interface) .now

end Pass

/-! ## Conditions -/

/-- `markReady`: Ready=True, Failed=False -/
def markReady (s : Status) (reason message : String) : Status :=
  { s with ready := some ⟨true, reason, message⟩, failed := some ⟨false, reason, message⟩ }

/-- `markFailed`: Failed=True, Ready=False -/
def markFailed (s : Status) (reason message : String) : Status :=
  { s with failed := some ⟨true, reason, message⟩, ready := some ⟨false, reason, message⟩ }

/-- `markPending`: Ready=False, Failed is left alone -/
def markPending (s : Status) (reason message : String) : Status :=
  { s with ready := some ⟨false, reason, message⟩ }

/-- Write the status only when a condition changed. -/
def writeChanged (snap : Snap) (status : Status) : Pass Outcome := do
  if status = snap.body.status then pure .done
  else
    match ← Pass.updateStatus snap status with
    | .error e => pure (.failed (.updateStatus e))
    | .ok () => pure .done

def recordPendingReason (snap : Snap) (reason message : String) : Pass Outcome :=
  writeChanged snap (markPending snap.body.status reason message)

def failPodSnapshot (snap : Snap) (reason message : String) : Pass Outcome := do
  match ← Pass.updateStatus snap (markFailed snap.body.status reason message) with
  | .error e => pure (.failed (.updateStatus e))
  | .ok () => pure .done

/-- The status that mirrors a content. -/
def mirroredStatus (s : Status) (content : Content) : Status :=
  match content.body.ready, content.body.failed with
  | some ⟨true, reason, message⟩, _ => markReady s reason message
  | _, some ⟨true, reason, message⟩ => markFailed s reason message
  | _, _ => markPending s "Pending" "Waiting for the node agent to take the snapshot"

def propagateStatus (snap : Snap) (content : Content) : Pass Outcome :=
  writeChanged snap (mirroredStatus snap.body.status content)

/-! ## Binding -/

/-- `%q`, for names that need no escape -/
def quoted (s : String) : String := "\"" ++ s ++ "\""

def podSnapshotContentName (uid : String) : String := "podsnapshotcontent-" ++ uid

theorem podSnapshotContentName_ne_empty (uid : String) : podSnapshotContentName uid ≠ "" := by
  have hfixed : "podsnapshotcontent-" ≠ "" := by decide
  exact fun h => hfixed (String.append_eq_empty_iff.1 h).1

theorem boundContentName_getD {snap : Snap}
    (hbinding : snap.body.status.boundContentName = none ∨
      snap.body.status.boundContentName = some (podSnapshotContentName snap.uid))
    (hne : snap.body.status.boundContentName.getD "" ≠ "") :
    snap.body.status.boundContentName.getD "" = podSnapshotContentName snap.uid := by
  rcases hbinding with hnone | hsome
  · rw [hnone] at hne
    exact absurd rfl hne
  · rw [hsome]
    rfl

/-- The complete backref: namespace, name and UID. -/
def verifyContentBacklink (cfg : Config) (snap : Snap) (name : String) (content : Content) :
    Except String Unit :=
  let ref := content.body.snapshotRef
  if ref.ns ≠ cfg.ns ∨ ref.name ≠ cfg.name ∨ ref.uid = "" ∨ ref.uid ≠ snap.uid then
    .error ("PodSnapshotContent " ++ quoted name ++ " is bound to " ++ ref.ns ++ "/" ++ ref.name ++
      " (uid " ++ quoted ref.uid ++ "), not " ++ cfg.ns ++ "/" ++ cfg.name ++
      " (uid " ++ quoted snap.uid ++ ")")
  else .ok ()

inductive SourcePodError where
  | stalePodRef (message : String)
  | podUnscheduled

/-- The UID is checked first: a stale reference is terminal whether or not the replacement is
scheduled. -/
def validateSourcePod (snap : Snap) (pod : Pod) : Except SourcePodError Unit :=
  if snap.body.podUID ≠ "" ∧ pod.uid ≠ snap.body.podUID then
    .error (.stalePodRef ("source pod UID does not match the pinned PodSnapshot source: live pod " ++
      quoted snap.body.podName ++ " UID " ++ quoted pod.uid ++ ", want " ++ quoted snap.body.podUID))
  else if pod.body.nodeName = "" then .error .podUnscheduled
  else .ok ()

def containerReady (pod : Pod) (name : String) : Bool :=
  match pod.body.containerStatuses.find? (·.name = name) with
  | some status => status.ready
  | none => false

def buildPodSnapshotContent (cfg : Config) (snap : Snap) (pod : Pod) : ContentBody where
  snapshotRef := ⟨cfg.ns, cfg.name, snap.uid⟩
  podName := snap.body.podName
  podUID := pod.uid
  containers := snap.body.containers
  nodeName := pod.body.nodeName
  storage := if cfg.storeID = "" then none else some cfg.storeID
  ready := none
  failed := none

/-- Create the content; one that exists already is adopted if it is ours. -/
def ensurePodSnapshotContent (cfg : Config) (snap : Snap) (contentName : String) (pod : Pod) :
    Pass (Except Failure Unit) := do
  match ← Pass.createContent contentName [artifactCleanupFinalizer]
      (buildPodSnapshotContent cfg snap pod) with
  | .ok () => pure (.ok ())
  | .error .alreadyExists =>
    match ← Pass.getContent contentName with
    | .error e => pure (.error (.getExistingContent contentName e))
    | .ok existing =>
      match verifyContentBacklink cfg snap contentName existing with
      | .error message => pure (.error (.contentConflict message))
      | .ok () => pure (.ok ())
  | .error e => pure (.error (.createContent contentName e))

def bindContent (snap : Snap) (contentName : String) : Pass Outcome := do
  match ← Pass.updateStatus snap { snap.body.status with boundContentName := some contentName } with
  | .error e => pure (.failed (.bindContent contentName e))
  | .ok () => pure .done

def contentConflictMessage (message : String) : String :=
  "existing PodSnapshotContent belongs to another PodSnapshot: " ++ message

/-- The path without a binding: a missing or stale pod in the cache fails the snapshot. -/
def captureFromSourcePod (cfg : Config) (snap : Snap) : Pass Outcome := do
  match ← Pass.getPod snap.body.podName with
  | .error .notFound =>
    failPodSnapshot snap "SourcePodNotFound"
      ("source pod " ++ quoted snap.body.podName ++ " no longer exists")
  | .error e => pure (.failed (.getSourcePod e))
  | .ok pod =>
    match validateSourcePod snap pod with
    | .error .podUnscheduled =>
      recordPendingReason snap "SourcePodUnscheduled"
        ("waiting for source pod " ++ quoted snap.body.podName ++ " to be scheduled to a node")
    | .error (.stalePodRef message) => failPodSnapshot snap "StalePodReference" message
    | .ok () =>
      if cfg.testFailureAnnotation ≠ "" ∧
          pod.body.annotations.lookup cfg.testFailureAnnotation = some "true" then
        match snap.body.containers with
        | [] => pure (.failed .noTargetContainer)
        | target :: _ =>
          if containerReady pod target then
            failPodSnapshot snap "TestCaptureFailure"
              ("test-only checkpoint failure requested by source pod annotation " ++
                quoted cfg.testFailureAnnotation)
          else pure (.requeueAfter 1)
      else do
        match ← ensurePodSnapshotContent cfg snap (podSnapshotContentName snap.uid) pod with
        | .error (.contentConflict message) =>
          failPodSnapshot snap "ContentConflict" (contentConflictMessage message)
        | .error e => pure (.failed e)
        | .ok () => bindContent snap (podSnapshotContentName snap.uid)

/-! ## Mirroring a bound content -/

def sourcePodTerminalGrace : Int := 300

/-- The newest container termination, else the deletion stamp; zero is unknown. -/
def podTerminalTime (pod : Pod) : ℕ :=
  let latest := (pod.body.containerStatuses ++ pod.body.initContainerStatuses).foldl
    (fun latest status => max latest (status.terminatedAt.getD 0)) 0
  if latest = 0 then pod.deletionTimestamp.getD 0 else latest

def sourcePodTerminalGraceRemaining (pod : Pod) (now : ℕ) : Int :=
  if podTerminalTime pod = 0 then 0
  else sourcePodTerminalGrace - ((now : Int) - (podTerminalTime pod : Int))

/-- The UID of the pod that is checkpointed, as far as it is pinned. -/
def wantUID (snap : Snap) (content : Content) : String :=
  if snap.body.podUID = "" then content.body.podUID else snap.body.podUID

/-- The reason and the cause for which a pending capture cannot succeed any more. -/
def pendingCaptureSourceFailure (ns : String) (snap : Snap) (contentName : String)
    (content : Content) (pod : Pod) : Option (String × String) :=
  let key := quoted (ns ++ "/" ++ snap.body.podName)
  if wantUID snap content ≠ "" ∧ pod.uid ≠ wantUID snap content then
    some ("StalePodReference", "source pod " ++ key ++ " UID " ++ quoted pod.uid ++
      " does not match the checkpointed pod UID " ++ quoted (wantUID snap content))
  else if pod.body.phase = .succeeded then
    some ("SourceCompletedWithoutCapture", "source pod " ++ key ++ " completed before PodSnapshotContent " ++
      quoted contentName ++ " reported checkpoint success or failure")
  else if pod.body.phase = .failed ∨ pod.deleting then
    some ("SourcePodGone", "source pod " ++ key ++ " became unavailable before PodSnapshotContent " ++
      quoted contentName ++ " reported checkpoint success or failure")
  else none

/-- The pod is read before the content, and both directly. -/
def confirmPendingCaptureTerminal (cfg : Config) (snap : Snap) (contentName : String) :
    Pass Outcome := do
  let podRead ← Pass.readPod snap.body.podName
  match podRead with
  | .error .notFound | .ok _ =>
    match ← Pass.readContent contentName with
    | .error e => pure (.failed (.rereadContent contentName e))
    | .ok content =>
      match verifyContentBacklink cfg snap contentName content with
      | .error message => failPodSnapshot snap "ContentConflict" (contentConflictMessage message)
      | .ok () =>
        if isTrue content.body.ready || isTrue content.body.failed then propagateStatus snap content
        else
          match podRead with
          | .error _ =>
            failPodSnapshot snap "SourcePodNotFound"
              ("source pod " ++ quoted (cfg.ns ++ "/" ++ snap.body.podName) ++
                " disappeared before checkpoint success or failure was recorded")
          | .ok pod =>
            match pendingCaptureSourceFailure cfg.ns snap contentName content pod with
            | none => propagateStatus snap content
            | some (reason, cause) =>
              if reason = "SourcePodGone" then do
                let now ← Pass.now
                if sourcePodTerminalGraceRemaining pod now > 0 then
                  pure (.requeueAfter (sourcePodTerminalGraceRemaining pod now))
                else failPodSnapshot snap reason cause
              else failPodSnapshot snap reason cause
  | .error e => pure (.failed (.rereadSourcePod e))

/-- The cache decides while the source still looks live. -/
def resolvePendingBoundContent (cfg : Config) (snap : Snap) (contentName : String)
    (content : Content) : Pass Outcome := do
  match ← Pass.getPod snap.body.podName with
  | .ok pod =>
    match pendingCaptureSourceFailure cfg.ns snap contentName content pod with
    | none => propagateStatus snap content
    | some _ => confirmPendingCaptureTerminal cfg snap contentName
  | .error .notFound => confirmPendingCaptureTerminal cfg snap contentName
  | .error e => pure (.failed (.getSourcePod e))

def mirrorBoundContent (cfg : Config) (snap : Snap) (boundName : String) : Pass Outcome := do
  match ← Pass.getContent boundName with
  | .error e => pure (.failed (.getBoundContent boundName e))
  | .ok content =>
    match verifyContentBacklink cfg snap boundName content with
    | .error message => failPodSnapshot snap "ContentConflict" message
    | .ok () =>
      if isTrue content.body.ready || isTrue content.body.failed then propagateStatus snap content
      else resolvePendingBoundContent cfg snap boundName content

/-! ## Deletion -/

def removeFinalizer (snap : Snap) : Pass Outcome := do
  match ← Pass.updateFinalizers snap (snap.finalizers.filter (· ≠ podSnapshotFinalizer)) with
  | .error e => pure (.failed (.removeFinalizer e))
  | .ok () => pure .done

/-- The cascade keys off the recorded binding only. -/
def handleDelete (snap : Snap) : Pass Outcome := do
  if podSnapshotFinalizer ∉ snap.finalizers then pure .done
  else
    match snap.body.status.boundContentName.getD "" with
    | "" => removeFinalizer snap
    | contentName => do
      match ← Pass.deleteContent contentName with
      | .ok () | .error .notFound =>
        match ← Pass.getContent contentName with
        | .ok _ => pure (.requeueAfter 1)
        | .error .notFound => removeFinalizer snap
        | .error e => pure (.failed (.confirmDeleted contentName e))
      | .error e => pure (.failed (.deleteContent contentName e))

/-- Only Failed is terminal. -/
def isPodSnapshotTerminal (snap : Snap) : Bool := isTrue snap.body.status.failed

def reconcile (cfg : Config) : Pass Outcome := do
  match ← Pass.getSnapshot with
  | .error .notFound => pure .done
  | .error e => pure (.failed (.getSnapshot e))
  | .ok snap =>
    if snap.deleting then handleDelete snap
    else if podSnapshotFinalizer ∉ snap.finalizers then
      -- ensureFinalizer; the update wakes the controller again
      match ← Pass.updateFinalizers snap (snap.finalizers ++ [podSnapshotFinalizer]) with
      | .error e => pure (.failed (.addFinalizer e))
      | .ok () => pure .done
    else if isPodSnapshotTerminal snap then pure .done
    else
      match snap.body.status.boundContentName.getD "" with
      | "" => captureFromSourcePod cfg snap
      | boundName => mirrorBoundContent cfg snap boundName

end PodSnapshot
