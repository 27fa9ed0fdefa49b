import Snapshot.CaptureErrors
import Snapshot.LockedProgram

/-! `executor.checkpoint`: the steps of a capture through PageBroker, and the deferred function that ends
the broker's transaction. That function looks at flags which the steps have set, and at the error that is
being returned. -/
namespace ExecutorCheckpoint

open LockedProgram Program CaptureErrors

/-! ## The steps -/

structure Request where
  /-- The capture is bound to a configured store. -/
  bound : Bool
  cuInterposeRequested : Bool
  customStorageAvailable : Bool
  /-- The identifier that was drawn for the transaction. -/
  transactionID : String
  deriving DecidableEq, Repr

/-- `PublishedArtifact`. -/
structure Artifact where
  storeID : String
  handle : String
  deriving DecidableEq, Repr

/-- A step that another component carries out. Commit and Abort are those of the broker's client, with the
retries that it makes. -/
inductive Operation where
  | validateBinding
  | resolveArtifactPath
  /-- The GPU processes of the container. -/
  | inspect
  | newGPUContext
  | prepareCheckpointTarget (bound gpu : Bool)
  /-- Whether a coordinator is used. -/
  | inspectCuInterpose (requested : Bool)
  | stageJobFile (directory : String)
  | checkJobFile (jobFile : String) (usesCoordinator : Bool)
  | configureCheckpoint (directory : String) (customStorage : Bool)
  | commitCheckpointArtifact (bound : Bool)
  | abortPageBrokerTransaction
  /-- `CustomStorageExecution.Abort`. -/
  | abortExecution
  deriving DecidableEq, Repr

@[reducible]
def Operation.Value : Operation → Type
  | inspect => List ℤ
  | prepareCheckpointTarget .. => String
  | inspectCuInterpose _ => Bool
  | stageJobFile _ => String
  | commitCheckpointArtifact _ => Option Artifact
  | _ => Unit

/-- The capture. A failed exchange with the broker has aborted the execution. -/
inductive Captured where
  | complete
  | failed (error : Err) (aborted : Bool)

inductive Call where
  | step (operation : Operation)
  | captureCheckpoint (jobFile : String) (gpu : Bool)

@[reducible]
def Call.Answer : Call → Type
  | step operation => Except Err operation.Value
  | captureCheckpoint .. => Captured

abbrev callInterface : LockedProgram.Interface := ⟨Call, Call.Answer⟩

/-- The variables of `checkpoint` that its deferred function looks at. -/
structure Locals where
  committed : Bool
  preparationAttempted : Bool
  dumpComplete : Bool
  gpu : Bool
  /-- The execution has been aborted. -/
  aborted : Bool
  deriving DecidableEq, Repr

def Locals.start : Locals := ⟨false, false, false, false, false⟩

/-- Code inside `checkpoint`; an early return with an error is thrown. -/
abbrev Checkpointing (α : Type) : Type := Program callInterface Locals Err α

/-- `failStep` around a call. -/
def attemptStep (step : Step) (operation : Operation) : Checkpointing operation.Value := do
  match ← call (I := callInterface) (.step operation) with
  | .ok value => return value
  | .error e => throw (failStep step e)

def resolveTarget (req : Request) : Checkpointing Unit := do
  if req.bound then
    match ← call (I := callInterface) (.step .validateBinding) with
    | .ok _ => return ⟨⟩
    | .error e => throw (failStep .resolveCheckpointPath (.wrap (.text "validate storage binding") e))
  else
    attemptStep .resolveCheckpointPath .resolveArtifactPath

/-- A failed preparation counts as attempted unless PageBroker could not be reached. -/
def prepare (bound usePageBrokerGPU : Bool) : Checkpointing String := do
  modify fun s => { s with preparationAttempted := true }
  match ← call (I := callInterface) (.step (.prepareCheckpointTarget bound usePageBrokerGPU)) with
  | .ok directory =>
    modify fun s => { s with gpu := usePageBrokerGPU }
    return directory
  | .error e =>
    modify fun s => { s with preparationAttempted := !isDialError e }
    throw (failStep .prepareCheckpoint e)

/-- The CUDA job file of a capture that stays with the driver. -/
def jobFile (cudaHostPIDs : List ℤ) (usePageBrokerGPU usesCoordinator : Bool) (directory : String) :
    Checkpointing String := do
  if cudaHostPIDs ≠ [] ∧ usePageBrokerGPU = false then do
    let file ← attemptStep .stageCUDAJobFile (.stageJobFile directory)
    attemptStep .stageCUDAJobFile (.checkJobFile file usesCoordinator)
    return file
  else
    return ""

/-- A failure leaves the source suspended. -/
def capture (file : String) (suspended : SuspendedSource) : Checkpointing Unit := do
  let s ← get
  match ← call (I := callInterface) (.captureCheckpoint file s.gpu) with
  | .complete => modify fun s => { s with dumpComplete := true }
  | .failed e aborted => do
    modify fun s => { s with aborted := s.gpu && aborted }
    throw (.wrap (.sourceNeedsRecovery suspended) e)

def commit (bound : Bool) : Checkpointing (Option Artifact) := do
  let artifact ← attemptStep .commitCheckpoint (.commitCheckpointArtifact bound)
  modify fun s => { s with committed := true }
  return artifact

/-- `checkpoint` once the transaction is prepared. -/
def dump (req : Request) (cudaHostPIDs : List ℤ) (usePageBrokerGPU : Bool) (directory : String) :
    Checkpointing (Option Artifact) := do
  let usesCoordinator ← attemptStep .inspectCuInterpose (.inspectCuInterpose req.cuInterposeRequested)
  let file ← jobFile cudaHostPIDs usePageBrokerGPU usesCoordinator directory
  attemptStep .configureCheckpoint (.configureCheckpoint directory usePageBrokerGPU)
  capture file ⟨cudaHostPIDs, usesCoordinator, usePageBrokerGPU⟩
  commit req.bound

/-- `checkpoint` up to its deferred function. -/
def checkpointBody (req : Request) : Checkpointing (Option Artifact) := do
  resolveTarget req
  let cudaHostPIDs ← attemptStep .inspectSource .inspect
  let usePageBrokerGPU := req.customStorageAvailable && !cudaHostPIDs.isEmpty
  when (usePageBrokerGPU = true) (attemptStep .buildGPUContext .newGPUContext)
  let directory ← prepare req.bound usePageBrokerGPU
  dump req cudaHostPIDs usePageBrokerGPU directory

/-! ## The deferred function -/

/-- `errors.Join`. -/
def joinErrors : Option Err → Err → Err
  | none, e => .join [e]
  | some retErr, e => .join [retErr, e]

/-- Abort, and join a failure to the error that is returned. -/
def abortWith (operation : Operation) (text : String) (retErr : Option Err) : Checkpointing (Option Err) := do
  match ← call (I := callInterface) (.step operation) with
  | .ok _ => return retErr
  | .error e => return some (joinErrors retErr (cleanupFailure (.wrap (.text text) e)))

/-- An execution is aborted once. -/
def abortGPU (retErr : Option Err) : Checkpointing (Option Err) := do
  let s ← get
  if s.aborted then return retErr
  else abortWith .abortExecution "abort PageBroker checkpoint" retErr

def abortCheckpointTransaction (transactionID : String) (retErr : Option Err) : Checkpointing (Option Err) :=
  abortWith .abortPageBrokerTransaction ("abort PageBroker checkpoint \"" ++ transactionID ++ "\"") retErr

/-- The transaction ends here unless it was never begun or is committed. A completed dump on the plain
path is kept while its commit may still succeed. -/
def release (transactionID : String) (retErr : Option Err) : Checkpointing (Option Err) := do
  let s ← get
  if s.preparationAttempted = false ∨ s.committed = true then
    return retErr
  else if s.gpu = false ∧ s.dumpComplete = true ∧
      retErr.any (fun e => commitWorthRetrying e || isDialError e) = true then
    return retErr
  else if s.gpu then
    abortGPU retErr
  else
    abortCheckpointTransaction transactionID retErr

/-- The error with which the body returned. -/
def errorOf {α : Type} : Except Err α → Option Err
  | .ok _ => none
  | .error e => some e

def finish (req : Request) (result : Except Err (Option Artifact)) : Checkpointing (Option Artifact) := do
  match ← release req.transactionID (errorOf result) with
  | some e => throw e
  | none => return result.toOption.getD none

def checkpoint (req : Request) : Checkpointing (Option Artifact) := do
  let result ← (checkpointBody req).attempt
  finish req result

end ExecutorCheckpoint
