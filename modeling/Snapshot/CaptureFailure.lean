import Snapshot.CaptureErrors

/-! How a failed capture is classified. `captureCause` looks for the part of a joined error that is not
about cleanup; it follows one part of each join, and skips a part that has a cleanup failure anywhere
inside. -/
namespace CaptureFailure

open CaptureErrors

/-! ## The classification -/

inductive Reason where
  | checkpointFailed
  | checkpointTimeout
  | stagingUnavailable
  | stagedDataLost
  | brokerRejected
  deriving DecidableEq, Repr

/-- `captureFailure`. -/
structure Verdict where
  reason : Reason
  retryable : Bool
  deriving DecidableEq, Repr

/-- The switch over the broker's code. -/
def ofCode : FailureCode → Verdict
  | .insufficientStorage => ⟨.stagingUnavailable, true⟩
  | .storageError | .internalError | .unavailable | .storageUnavailable => ⟨.checkpointFailed, true⟩
  | .transactionNotFound | .transactionExpired => ⟨.stagedDataLost, false⟩
  | .invalidRequest | .transactionConflict | .storeMismatch | .accessDenied | .unsupportedArtifact
  | .artifactCorrupt => ⟨.brokerRejected, false⟩
  | .unspecified | .artifactNotFound | .outcomeUnknown => ⟨.checkpointFailed, false⟩

def isDeadlineExceeded : Value → Bool
  | .inl .deadlineExceeded => true
  | _ => false

/-- A deadline anywhere in the error decides, else its first code. -/
def verdict (e : Err) : Verdict :=
  if e.is isDeadlineExceeded then ⟨.checkpointTimeout, false⟩
  else
    match e.as Value.failureCode with
    | some code => ofCode code
    | none => ⟨.checkpointFailed, false⟩

mutual

/-- The loop of `captureCause(err)`, at the error `current` of its chain. -/
def causeFrom (err : Err) : (current : Err) → Err
  | .leaf _ => err
  | .wrap _ cause => causeFrom err cause
  | .join parts => causeAmong err parts

/-- The first part without a cleanup failure; if there is none, the cleanup is the cause. -/
def causeAmong (err : Err) : (parts : List Err) → Err
  | [] => err
  | part :: rest => if isCleanupFailure part then causeAmong err rest else causeFrom part part

end

mutual

/-- What is left of an error without its cleanup failures. -/
def prune : Err → Option Err
  | .leaf value => some (.leaf value)
  | .wrap .cleanup _ => none
  | .wrap value cause => (prune cause).map (.wrap value)
  | .join parts =>
    match pruneAll parts with
    | [] => none
    | kept => some (.join kept)

def pruneAll : List Err → List Err
  | [] => []
  | part :: rest => (prune part).toList ++ pruneAll rest

end

mutual

/-- The leaf that is reached through the first part of every joined error. -/
def firstLeaf : Err → Option Leaf
  | .leaf value => some value
  | .wrap _ cause => firstLeaf cause
  | .join parts => firstLeafAmong parts

def firstLeafAmong : List Err → Option Leaf
  | [] => none
  | part :: _ => firstLeaf part

end

section

variable {e err : Err}

end

end CaptureFailure
