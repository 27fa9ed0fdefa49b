import Mathlib.Data.Int.Notation
import Snapshot.ErrorTree

/-! The errors of a capture: what PageBroker reports, what the transport reports, and the marks that the
executor puts around them. -/
namespace CaptureErrors

/-- `Failure_Code` of the PageBroker protocol. -/
inductive FailureCode where
  | unspecified
  | invalidRequest
  | transactionNotFound
  | transactionConflict
  | insufficientStorage
  | storageError
  | internalError
  | unavailable
  | storeMismatch
  | accessDenied
  | storageUnavailable
  | artifactNotFound
  | artifactCorrupt
  | unsupportedArtifact
  | outcomeUnknown
  | transactionExpired
  deriving DecidableEq, Repr

/-- The steps of a checkpoint that `failStep` names. -/
inductive Step where
  | resolveCheckpointPath
  | inspectSource
  | buildGPUContext
  | prepareCheckpoint
  | inspectCuInterpose
  | stageCUDAJobFile
  | configureCheckpoint
  | checkpointGPU
  | dumpCRIU
  | captureOverlay
  | commitCheckpoint
  deriving DecidableEq, Repr

/-- What a failed capture left behind. -/
structure SuspendedSource where
  gpuPIDs : List ℤ
  cuInterposePrepared : Bool
  customStorageUsed : Bool
  deriving DecidableEq, Repr

/-- An error that wraps no other. -/
inductive Leaf where
  | other (message : String)
  /-- `FailureError`. -/
  | failure (code : FailureCode) (message : String)
  /-- `context.DeadlineExceeded`. -/
  | deadlineExceeded
  /-- `context.Canceled`. -/
  | canceled
  deriving DecidableEq, Repr

/-- What is put around an error. -/
inductive Wrapper where
  /-- `fmt.Errorf` with one `%w`. -/
  | text (message : String)
  /-- `StepError`. -/
  | step (step : Step)
  /-- `transportError`. -/
  | transport (dial : Bool)
  /-- `cleanupFailure`. -/
  | cleanup
  /-- `sourceNeedsRecoveryError`. -/
  | sourceNeedsRecovery (suspended : SuspendedSource)
  deriving DecidableEq, Repr

abbrev Err : Type := ErrorTree Leaf Wrapper

abbrev Value : Type := Leaf ⊕ Wrapper

/-! ## What is looked for in an error -/

def Value.failureCode : Value → Option FailureCode
  | .inl (.failure code _) => some code
  | _ => none

def Value.dial : Value → Option Bool
  | .inr (.transport dial) => some dial
  | _ => none

def Value.suspended : Value → Option SuspendedSource
  | .inr (.sourceNeedsRecovery suspended) => some suspended
  | _ => none

def Value.isCleanup : Value → Bool
  | .inr .cleanup => true
  | _ => false

def isRetryableTransportError (e : Err) : Bool := e.as Value.dial = some false

def isDialError (e : Err) : Bool := e.as Value.dial = some true

def commitWorthRetrying (e : Err) : Bool :=
  if isRetryableTransportError e then true
  else
    match e.as Value.failureCode with
    | some .storageError | some .unavailable | some .storageUnavailable | some .outcomeUnknown => true
    | _ => false

def cleanupFailure (e : Err) : Err := .wrap .cleanup e

def isCleanupFailure (e : Err) : Bool := e.is Value.isCleanup

def failStep (step : Step) (e : Err) : Err := .wrap (.step step) e

end CaptureErrors
