import Snapshot.Interleaving
import Snapshot.PageBrokerTransaction

/-! The requests of PageBroker's `Broker`, its reaper and the destructors of transactions, as processes
that act on one broker. A handler locks a transaction for as long as it works on it; what several
transactions share changes in critical sections of its own. Engines, the file system, clocks and
cancellation answer anything or throw.

A transaction is destroyed some time after its last reference has gone. -/
namespace PageBroker

open CaptureErrors (FailureCode)
open Interleaving

/-! ## Requests -/

inductive EngineKind where
  | posixCopy | modelStreamer | unset
  deriving DecidableEq, Repr

inductive Subject where
  | target (name : String)
  | artifact (handle : String)
  deriving DecidableEq, Repr

/-- A storage backend goes to the engine only; what counts is whether the request has one. -/
inductive Command where
  | capabilities
  | directRestore (engine : Option EngineKind)
  | prepareDirectCheckpoint (engine : Option EngineKind)
  | stagedRestore (artifact : Option String) (source : Bool) (engine : Option EngineKind)
  | getArtifactMetadata (subject : Option Subject)
  | prepareStagedCheckpoint (target : Option String) (destination : Bool) (engine : Option EngineKind)
  | commit
  | abort
  | unsupported
  deriving DecidableEq, Repr

structure Request where
  requestId : String
  transactionId : String
  command : Command
  deriving DecidableEq, Repr

inductive Response where
  | capabilities
  | directRestoreReady
  | artifactMetadata (manifestDirectory : Path) (artifact : Option String)
  | stagedRestoreDirectory (imageDirectory : Path)
  | directCheckpointDirectory (imageDirectory : Path)
  | stagedCheckpointDirectory (imageDirectory : Path)
  | commitComplete (publishedArtifact : Option String)
  | abortComplete
  | gpuComplete
  | failure (code : FailureCode) (message : String)
  deriving DecidableEq, Repr

structure Config where
  stagingRoot : Path
  /-- `staging_bytes` and `active_transactions` of the S3 configuration, if there is one. -/
  limits : Option (UInt64 × UInt32)
  deriving DecidableEq, Repr

namespace Config

variable (config : Config)

def engineType : IoEngine := if config.limits.isSome then .modelStreamer else .posixCopy

def engine (type : IoEngine) : Except Error IoEngine :=
  if config.engineType = type then .ok type else .error (.invalidArgument "configured I/O engine not found")

def selectEngine : Option EngineKind → Except Error IoEngine
  | some .posixCopy => config.engine .posixCopy
  | some .modelStreamer => config.engine .modelStreamer
  | some .unset | none => .error (.invalidArgument "unsupported I/O engine")

def artifactEngine : Option EngineKind → Except Error IoEngine
  | some .posixCopy | some .unset => .error (.invalidArgument "S3 artifacts require the Model Streamer engine")
  | some .modelStreamer | none => config.engine .modelStreamer

def restoreRoot : Path := config.stagingRoot ++ "/restore"

def checkpointRoot : Path := config.stagingRoot ++ "/checkpoint"

end Config

def isSafePathComponent (value : String) : Bool :=
  value ≠ "" && value ≠ "." && value ≠ ".." && !value.toList.contains '/' && !value.toList.contains '\\' &&
    !value.toList.contains (Char.ofNat 0)

def transactionDirectory (root : Path) (id : String) : Except Error Path :=
  if isSafePathComponent id then .ok (root ++ "/" ++ id)
  else .error (.other "invalid transaction path component")

/-! ## The broker -/

abbrev Object := ℕ

inductive Task where
  | request (n : ℕ) (request : Request)
  | gpu (n : ℕ) (transactionId inputs : String)
  | reap (n : ℕ)
  | destroy (o : Object)
  deriving DecidableEq, Repr

structure World where
  resources : Resources
  /-- The transactions that exist, by the order of their creation. -/
  objects : Object → Option Transaction
  allocated : ℕ
  locked : Object → Option Task
  /-- The references that tasks hold. -/
  handles : List (Task × Object)
  transactions : List (String × Object)
  terminal : List (String × Object)
  stopping : Bool
  reservedStagingBytes : UInt64
  /-- The calls that have reserved staging and not released it yet. -/
  staging : List (Task × UInt64)

def World.initial (config : Config) : World where
  resources := Resources.new (config.limits.elim 0 Prod.fst) (config.limits.elim 0 Prod.snd)
  objects _ := none
  allocated := 0
  locked _ := none
  handles := []
  transactions := []
  terminal := []
  stopping := false
  reservedStagingBytes := 0
  staging := []

/-- What the broker asks of others. -/
inductive External where
  | validateArtifact (handle : String)
  | resolveArtifactTarget (target : String)
  | exists (path : Path)
  | isDirectory (path : Path)
  | createDirectory (path : Path)
  | removeStaging (path : Path)
  | cancellation
  | clock
  | allocate
  | prepareRestore
  | inventorySize
  | stageRestore (path : Path)
  | prepareCheckpoint (path : Path)
  | inspectCheckpoint (path : Path)
  | uploadCheckpoint (path : Path)
  | publishIndex
  | publishFiles (path : Path)
  | decodeGpuRequest
  | validateTargets
  | createGpuArtifact
  | runGpu
  | waitForGpu
  deriving DecidableEq, Repr

/-- An answer; which part of it counts depends on the question. -/
structure Value where
  flag : Bool
  number : UInt64
  text : String
  directory : Path
  deriving DecidableEq, Repr

inductive Call where
  | createOrGetTransaction (id : String)
  | findTransaction (id : String)
  | transactionSnapshot
  | eraseTransaction (id : String) (o : Object)
  | pushTerminal (id : String) (o : Object)
  | popTerminal
  | drop (o : Object)
  | lock (o : Object)
  | tryLock (o : Object)
  | unlock (o : Object)
  | get (o : Object)
  | change (o : Object) (c : Change)
  | prepareTransfer (o : Object) (resources : Bool) (bytes : UInt64) (artifact : Option String)
  | reserve (o : Object) (bytes : UInt64)
  | releaseReservation (o : Object)
  | reserveStaging (bytes : UInt64)
  | releaseStaging (bytes : UInt64)
  | destroyReservation (o : Object)
  | destroyObject (o : Object)
  | external (e : External)
  deriving DecidableEq, Repr

abbrev Call.Answer : Call → Type
  | createOrGetTransaction _ => Except Error Object
  | findTransaction _ => Option Object
  | transactionSnapshot | popTerminal => List (String × Object)
  | tryLock _ => Bool
  | get _ => Transaction
  | prepareTransfer _ _ _ _ | reserve _ _ => Except Error Unit
  | reserveStaging _ => Except Error Bool
  | external _ => Except Error Value
  | eraseTransaction _ _ | pushTerminal _ _ | drop _ | lock _ | unlock _ | change _ _ | releaseReservation _
  | releaseStaging _ | destroyReservation _ | destroyObject _ => Unit

abbrev interface : Interface := ⟨Call, Call.Answer⟩

/-! ## Handlers -/

abbrev Handler := ExceptT Error (Process interface)

def ask (c : Call) : Handler c.Answer := ExceptT.lift (Process.request (I := interface) c)

def external (e : External) : Handler Value := ExceptT.mk (Process.request (I := interface) (.external e))

def change (o : Object) (c : Change) : Handler Unit := ask (.change o c)

def tryLock (o : Object) : Handler Bool := ask (.tryLock o)

def reserveOf (o : Object) (bytes : UInt64) : Handler Unit :=
  ExceptT.mk (Process.request (I := interface) (.reserve o bytes))

def reserveStaging (bytes : UInt64) : Handler Bool :=
  ExceptT.mk (Process.request (I := interface) (.reserveStaging bytes))

def createOrGetTransaction (id : String) : Handler Object :=
  ExceptT.mk (Process.request (I := interface) (.createOrGetTransaction id))

/-- A reference or a lock is given up however the body ends. -/
def finally' (body : Handler α) (last : Call) : Handler α :=
  ExceptT.mk do
    let result ← body.run
    let _ ← Process.request (I := interface) last
    pure result

def withHandle (o : Object) (body : Handler α) : Handler α := finally' body (.drop o)

def withLock (o : Object) (body : Handler α) : Handler α := do
  ask (.lock o)
  finally' body (.unlock o)

def onlyIf (condition : Bool) (h : ExceptT ε (Process interface) Unit) : ExceptT ε (Process interface) Unit :=
  if condition then h else pure ()

/-- `PrepareTransfer`, with a copy of the artifact. -/
def prepareTransferOf (o : Object) (resources : Bool) (bytes : UInt64) (artifact : Option String) : Handler Unit := do
  onlyIf (resources && artifact.isSome) do let _ ← external .allocate
  ExceptT.mk (Process.request (I := interface) (.prepareTransfer o resources bytes artifact))

def throwIfCancelled : Handler Unit := do
  let _ ← external .cancellation

def tryClearDescriptor (o : Object) : Handler Unit := do
  let x ← ask (.get o)
  if x.hasPendingCleanup then pure () else change o (.setDescriptor .none)

/-- The private `RemoveStaging`. -/
def removeRecorded (o : Object) (directory : Path) : Handler Unit := do
  let x ← ask (.get o)
  if directory ≠ x.transferDirectory then pure ()
  else do
    onlyIf (directory ≠ "") do let _ ← external (.removeStaging directory)
    change o .dropIndex
    ask (.releaseReservation o)
    change o .clearDirectory
    onlyIf x.state.terminal (tryClearDescriptor o)

/-- `RemoveStaging`; an error of the file system is returned. -/
def removeStaging (o : Object) (directory : Path) : Handler (Option String) :=
  tryCatch (do removeRecorded o directory; pure none) fun
    | .filesystem message => pure (some message)
    | error => throw error

def cleanupTransfer (o : Object) : Handler (Option String) := do
  let x ← ask (.get o)
  if x.hasPendingCleanup then removeStaging o x.transferDirectory else pure none

def rejectBeforeOwnership (id : String) (o : Object) (code : FailureCode) (message : String) : Handler Response := do
  change o (.setState .aborted)
  match ← cleanupTransfer o with
  | some cleanup => pure (.failure code (message ++ "; cleanup: " ++ cleanup))
  | none =>
    ask (.eraseTransaction id o)
    pure (.failure code message)

def abortStaging (o : Object) (directory : Path) (error : Error) : Handler Response := do
  tryClearDescriptor o
  change o (.setState .aborted)
  match ← removeStaging o directory with
  | some cleanup => pure (.failure error.code (error.what ++ "; cleanup: " ++ cleanup))
  | none => pure (.failure error.code error.what)

/-- `RetainTerminalTransactionLocked`. -/
def retainTerminal (id : String) (o : Object) : Handler Unit := do
  let x ← ask (.get o)
  if x.canRetainTerminal then do
    change o .retain
    let _ ← external .allocate
    ask (.pushTerminal id o)
  else pure ()

def dropAll : List (String × Object) → Process interface Unit
  | [] => pure ()
  | (_, o) :: rest => do
    let _ ← Process.request (I := interface) (.drop o)
    dropAll rest

def eraseAll : List (String × Object) → Handler Unit
  | [] => pure ()
  | (id, o) :: rest => do
    ask (.eraseTransaction id o)
    eraseAll rest

def withHandles (items : List (String × Object)) (body : Handler α) : Handler α :=
  ExceptT.mk do
    let result ← body.run
    dropAll items
    pure result

def reapTerminalTransactions : Handler Unit := do
  let expired ← ask .popTerminal
  withHandles expired do
    -- the list of the expired ones may not grow further
    let _ ← external .allocate
    eraseAll expired

inductive AbortWait where
  | noWait | waitForGpu
  deriving DecidableEq, Repr

/-- Something that takes long, with the lock given up. -/
def yielding (o : Object) (e : External) : Handler (Except Error Value) := do
  ask (.unlock o)
  let result ← ExceptT.lift (external e).run
  ask (.lock o)
  pure result

/-- The GPU work of a transaction that is being aborted is over. Waiting gives up the lock. -/
def gpuDrained (o : Object) (wait : AbortWait) : Handler Bool := do
  let x ← ask (.get o)
  if x.gpuOperation.any (·.state = .running) then
    match wait with
    | .noWait => pure false
    | .waitForGpu => do
      let _ ← yielding o .waitForGpu
      let x ← ask (.get o)
      pure (!x.gpuOperation.any (·.state = .running))
  else pure true

/-- `TryAbortTransactionLocked`, with the error of the cleanup. -/
def tryAbort (o : Object) (wait : AbortWait) : Handler (Bool × Option String) := do
  change o (.setState .aborting)
  let drained ← gpuDrained o wait
  if drained then do
    match ← cleanupTransfer o with
    | some cleanup => pure (false, some cleanup)
    | none => do
      tryClearDescriptor o
      change o (.setState .aborted)
      pure (true, none)
  else pure (false, none)

/-! ### Restore -/

/-- The local variables of `StageRestore` that its handler reads. -/
structure Locals where
  stagingReserved : Bool
  sourcePrepared : Bool
  bytes : UInt64
  owned : Bool
  deriving DecidableEq, Repr

structure Thrown where
  error : Error
  locals : Locals

abbrev Attempt := ExceptT Thrown (Process interface)

/-- A step of the try block that throws with these locals. -/
def trying (locals : Locals) (h : Handler α) : Attempt α := h.adapt fun error => ⟨error, locals⟩

/-- Create the staging directory and record that it is owned. -/
def ownStaging (o : Object) (directory : Path) (locals : Locals) : Attempt Unit := do
  trying locals throwIfCancelled
  trying locals do let _ ← external (.createDirectory directory)
  trying { locals with owned := true } do
    let _ ← external .allocate
    change o (.ownDirectory directory)
    throwIfCancelled

/-- The copy, with everything reserved. -/
def transferRestore (o : Object) (direct : Bool) (directory : Path) (locals : Locals) : Attempt Path := do
  let access ← trying locals (external (.stageRestore directory))
  trying locals throwIfCancelled
  onlyIf locals.stagingReserved (trying locals (ask (.releaseStaging locals.bytes)))
  trying { locals with stagingReserved := false } do
    let _ ← external .allocate
    change o (.setDescriptor (.restore (if direct then "" else access.directory)))
    change o (.setState .staged)
  pure access.text

/-- The try block of `StageRestore`: an early response, or the image directory. -/
def attemptRestore (config : Config) (id : String) (direct : Bool) (o : Object) (directory : Path) :
    Attempt (Response ⊕ Path) := do
  let locals : Locals := ⟨false, false, 0, false⟩
  let existing ← trying locals (external (.exists directory))
  onlyIf existing.flag (trying locals (throw (.transfer .transactionConflict "restore transaction conflicts")))
  trying locals do
    prepareTransferOf o (!direct && config.limits.isSome) 0 none
    change o (.setState .preparing)
    let _ ← external .prepareRestore
    throwIfCancelled
  let locals := { locals with sourcePrepared := true }
  let inventory ← trying locals (external .inventorySize)
  let bytes := inventory.number
  let locals := { locals with bytes := bytes }
  trying locals (reserveOf o bytes)
  if direct then do
    let imageDirectory ← transferRestore o direct directory locals
    pure (.inr imageDirectory)
  else do
    let reserved ← trying locals (reserveStaging bytes)
    if reserved then do
      let locals := { locals with stagingReserved := true }
      ownStaging o directory locals
      let imageDirectory ← transferRestore o direct directory { locals with owned := true }
      pure (.inr imageDirectory)
    else do
      let response ← trying locals
        (rejectBeforeOwnership id o .insufficientStorage "insufficient tmpfs capacity")
      pure (.inl response)

/-- The handler of the try block. -/
def recoverRestore (id : String) (artifact : Option String) (o : Object) (directory : Path) (thrown : Thrown) :
    Handler Response := do
  let ⟨error, locals⟩ := thrown
  onlyIf locals.stagingReserved (ask (.releaseStaging locals.bytes))
  let x ← ask (.get o)
  match error with
  | .transfer .insufficientStorage message =>
    if locals.owned then abortStaging o directory error
    else rejectBeforeOwnership id o .insufficientStorage message
  | .transfer .transactionConflict message =>
    if x.state = .new then rejectBeforeOwnership id o .transactionConflict message
    else abortStaging o (if locals.owned then directory else "") error
  | .invalidArgument message =>
    if artifact.isNone && !locals.sourcePrepared then rejectBeforeOwnership id o .invalidRequest message
    else abortStaging o (if locals.owned then directory else "") error
  | _ => abortStaging o (if locals.owned then directory else "") error

def restoreResponse (direct metadata : Bool) (artifact : Option String) (imageDirectory : Path) : Response :=
  if direct then .directRestoreReady
  else if metadata then .artifactMetadata imageDirectory artifact
  else .stagedRestoreDirectory imageDirectory

/-- `StageRestore`, once it has locked the transaction. -/
def restoreLocked (config : Config) (id : String) (direct metadata : Bool) (artifact : Option String) (o : Object)
    (directory : Path) : Handler Response := do
  let x ← ask (.get o)
  if x.state ≠ .new then pure (.failure .transactionConflict "restore transaction conflicts")
  else do
    match ← ExceptT.lift (attemptRestore config id direct o directory).run with
    | .ok (.inl response) => pure response
    | .ok (.inr imageDirectory) => pure (restoreResponse direct metadata artifact imageDirectory)
    | .error thrown => recoverRestore id artifact o directory thrown

def stageRestore (config : Config) (id : String) (direct metadata : Bool) (artifact : Option String) :
    Handler Response := do
  let directory ← ExceptT.mk (pure (if direct then .ok "" else transactionDirectory config.restoreRoot id))
  let _ ← external .allocate
  let o ← createOrGetTransaction id
  withHandle o (withLock o (restoreLocked config id direct metadata artifact o directory))

/-! ### Checkpoint -/

/-- The try block of `StageCheckpoint`, up to the creation of the output directory. -/
def attemptCheckpoint (config : Config) (direct : Bool) (engine : IoEngine) (artifact : Option String) (o : Object)
    (directory : Path) : ExceptT (Error × Option Path) (Process interface) Path := do
  let output ← ExceptT.adapt (·, none) do
    prepareTransferOf o (!direct && config.limits.isSome) 1 artifact
    change o (.setState .preparing)
    throwIfCancelled
    let prepared ← external (.prepareCheckpoint directory)
    let output := prepared.directory
    throwIfCancelled
    let existing ← external (.exists output)
    onlyIf existing.flag (throw (.transfer .transactionConflict "checkpoint output directory already exists"))
    throwIfCancelled
    let _ ← external (.createDirectory output)
    pure output
  ExceptT.adapt (·, some output) do
    let _ ← external .allocate
    change o (.ownDirectory output)
    throwIfCancelled
    change o (.setDescriptor (.checkpoint output engine (if direct then .direct else .staged)))
    change o (.setState .staged)
  pure output

/-- The handler of that try block; `owned` is the directory that has been created. -/
def recoverCheckpoint (id : String) (artifact : Option String) (o : Object) (error : Error) (owned : Option Path) :
    Handler Response :=
  match owned, error with
  | none, .transfer .insufficientStorage message => rejectBeforeOwnership id o .insufficientStorage message
  | none, .transfer .transactionConflict message =>
    if artifact.isNone then rejectBeforeOwnership id o .transactionConflict message else abortStaging o "" error
  | none, .invalidArgument message =>
    if artifact.isNone then rejectBeforeOwnership id o .invalidRequest message else abortStaging o "" error
  | owned, error => abortStaging o (owned.getD "") error

def checkpointResponse (direct : Bool) (output : Path) : Response :=
  if direct then .directCheckpointDirectory output else .stagedCheckpointDirectory output

/-- A retry of a direct capture that has been prepared. -/
def retryCheckpoint (direct : Bool) (engine : IoEngine) (directory : Path) (x : Transaction) : Handler Response :=
  match x.descriptor with
  | .checkpoint prepared type mode =>
    if direct && x.state = .staged && mode = .direct && type = engine then do
      throwIfCancelled
      let output ← external (.prepareCheckpoint directory)
      throwIfCancelled
      if prepared ≠ output.directory then pure (.failure .transactionConflict "checkpoint transaction conflicts")
      else pure (checkpointResponse direct output.directory)
    else pure (.failure .transactionConflict "checkpoint transaction conflicts")
  | _ => pure (.failure .transactionConflict "checkpoint transaction conflicts")

def checkpointLocked (config : Config) (id : String) (direct : Bool) (engine : IoEngine) (artifact : Option String)
    (o : Object) (directory : Path) : Handler Response := do
  let x ← ask (.get o)
  if x.state ≠ .new then retryCheckpoint direct engine directory x
  else do
    match ← ExceptT.lift (attemptCheckpoint config direct engine artifact o directory).run with
    | .ok output => pure (checkpointResponse direct output)
    | .error (error, owned) => recoverCheckpoint id artifact o error owned

def stageCheckpoint (config : Config) (id : String) (direct : Bool) (engine : IoEngine) (artifact : Option String) :
    Handler Response := do
  let directory ← ExceptT.mk (pure (transactionDirectory config.checkpointRoot id))
  let _ ← external .allocate
  let o ← createOrGetTransaction id
  withHandle o (withLock o (checkpointLocked config id direct engine artifact o directory))

/-! ### Commit and abort -/

def commitSucceeded (publication : Option Publication) : Response :=
  .commitComplete ((publication.filter (·.published)).map Publication.artifact)

def cleanupRestore (o : Object) (stagingDirectory : Path) : Handler Response := do
  onlyIf (stagingDirectory ≠ "") do let _ ← removeStaging o stagingDirectory
  tryClearDescriptor o
  change o (.setState .committed)
  pure (commitSucceeded none)

def inspectAndReserve (o : Object) (stagingDirectory : Path) : Handler Unit := do
  let inventory ← external (.inspectCheckpoint stagingDirectory)
  reserveOf o inventory.number

def uploadCheckpoint (o : Object) (stagingDirectory : Path) : Handler Unit := do
  let index ← external (.uploadCheckpoint stagingDirectory)
  change o (.keepIndex index.text)

/-- The publication by the engine, once the size has been reserved. An index that has been kept is
published again without an upload. -/
def publishWith (o : Object) (stagingDirectory : Path) : Option Publication → Handler Unit
  | some publication => do
    onlyIf (publication.pendingIndex = "") do
      inspectAndReserve o stagingDirectory
      uploadCheckpoint o stagingDirectory
    let _ ← external .publishIndex
    change o .publish
  | none => do
    inspectAndReserve o stagingDirectory
    let _ ← external (.publishFiles stagingDirectory)

/-- The try block of the broker's `PublishCheckpoint`. -/
def attemptPublish (o : Object) (stagingDirectory : Path) (x : Transaction) : Handler Unit := do
  publishWith o stagingDirectory x.publication
  tryClearDescriptor o
  change o (.setState .committed)
  let _ ← removeStaging o stagingDirectory

def publishCheckpoint (config : Config) (o : Object) (stagingDirectory : Path) (engine : IoEngine) (x : Transaction) :
    Handler Response := do
  let found ← external (.isDirectory stagingDirectory)
  if !found.flag then
    pure (.failure .transactionNotFound "checkpoint staging directory not found")
  else do
    let _ ← ExceptT.mk (pure (config.engine engine))
    match ← ExceptT.lift (attemptPublish o stagingDirectory x).run with
    | .error error => pure (.failure error.code error.what)
    | .ok () =>
      let x ← ask (.get o)
      pure (commitSucceeded x.publication)

/-- `Commit` of a transaction that has been staged. -/
def commitStaged (config : Config) (o : Object) (x : Transaction) : Handler Response :=
  if x.gpuOperation.any fun g => g.state ≠ .finished || g.failure.isSome then
    pure (.failure .transactionConflict "GPU operation has not succeeded")
  else match x.descriptor with
  | .restore stagingDirectory => cleanupRestore o stagingDirectory
  | .checkpoint stagingDirectory engine _ => publishCheckpoint config o stagingDirectory engine x
  | .none => pure (.failure .internalError "live transaction has no descriptor")

def commitLocked (config : Config) (o : Object) : Handler Response := do
  let x ← ask (.get o)
  if x.state = .new || x.state = .aborted then pure (.failure .transactionNotFound "transaction not found")
  else do
    let now ← external .clock
    if x.expired now.flag then pure (.failure .transactionExpired "transaction expired")
    else match x.state with
    | .preparing => pure (.failure .transactionConflict "transaction is preparing")
    | .aborting => pure (.failure .transactionConflict "transaction is aborting")
    | .committed => do
      let _ ← cleanupTransfer o
      let x ← ask (.get o)
      pure (commitSucceeded x.publication)
    | _ => commitStaged config o x

def commit (config : Config) (id : String) : Handler Response := do
  match ← ask (.findTransaction id) with
  | none => pure (.failure .transactionNotFound "transaction not found")
  | some o => withHandle o (withLock o (commitLocked config o))

def abortLocked (o : Object) : Handler Response := do
  let x ← ask (.get o)
  match x.state with
  | .committed => pure (.failure .transactionNotFound "transaction not found")
  | .aborted =>
    match ← cleanupTransfer o with
    | some cleanup => pure (.failure .storageError ("remove transaction directory: " ++ cleanup))
    | none => pure .abortComplete
  | _ => do
    let now ← external .clock
    if x.expired now.flag then pure (.failure .transactionExpired "transaction expired")
    else do
      match ← tryAbort o .waitForGpu with
      | (true, _) => pure .abortComplete
      | (false, some cleanup) => pure (.failure .storageError ("remove transaction directory: " ++ cleanup))
      | (false, none) => pure (.failure .internalError "GPU cleanup is still running")

def abort (id : String) : Handler Response := do
  match ← ask (.findTransaction id) with
  | none => pure (.failure .transactionNotFound "transaction not found")
  | some o => withHandle o (withLock o (abortLocked o))

/-! ### Dispatch -/

def subjectHandle : Subject → Handler String
  | .target name => do
    let artifact ← external (.resolveArtifactTarget name)
    pure artifact.text
  | .artifact handle => pure handle

def metadata (config : Config) (id : String) (subject : Subject) : Handler Response := do
  let _ ← ExceptT.mk (pure (config.artifactEngine none))
  let artifact ← subjectHandle subject
  let _ ← external (.validateArtifact artifact)
  stageRestore config id false true (some artifact)

def dispatch (config : Config) (id : String) : Command → Handler Response
  | .directRestore engine => do
    let _ ← ExceptT.mk (pure (config.selectEngine engine))
    stageRestore config id true false none
  | .prepareDirectCheckpoint engine => do
    let engine ← ExceptT.mk (pure (config.selectEngine engine))
    stageCheckpoint config id true engine none
  | .stagedRestore (some artifact) _ engine => do
    let _ ← ExceptT.mk (pure (config.artifactEngine engine))
    let _ ← external (.validateArtifact artifact)
    stageRestore config id false false (some artifact)
  | .stagedRestore none source engine => do
    onlyIf (!source) (throw (.invalidArgument "restore source is required"))
    let _ ← ExceptT.mk (pure (config.selectEngine engine))
    stageRestore config id false false none
  | .getArtifactMetadata none => throw (.invalidArgument "metadata subject is required")
  | .getArtifactMetadata (some subject) => metadata config id subject
  | .prepareStagedCheckpoint (some target) _ engine => do
    let engine ← ExceptT.mk (pure (config.artifactEngine engine))
    let artifact ← external (.resolveArtifactTarget target)
    stageCheckpoint config id false engine (some artifact.text)
  | .prepareStagedCheckpoint none destination engine => do
    onlyIf (!destination) (throw (.invalidArgument "checkpoint destination is required"))
    let engine ← ExceptT.mk (pure (config.selectEngine engine))
    stageCheckpoint config id false engine none
  | .commit => commit config id
  | .abort => abort id
  | .capabilities | .unsupported => pure (.failure .invalidRequest "unsupported operation")

/-- `RetainTerminalTransaction`. -/
def retainTerminalTransaction (id : String) : Handler Unit := do
  match ← ask (.findTransaction id) with
  | none => pure ()
  | some o => withHandle o do
    let locked ← tryLock o
    onlyIf locked (finally' (retainTerminal id o) (.unlock o))

def handleRequest (config : Config) (request : Request) : Handler Response := do
  if request.command = .capabilities && request.requestId ≠ "" then pure .capabilities
  else if request.requestId = "" || !isSafePathComponent request.transactionId then
    pure (.failure .invalidRequest "request and transaction IDs are required")
  else do
    let response ← tryCatch (dispatch config request.transactionId request.command) fun
      | .invalidArgument message => pure (.failure .invalidRequest message)
      | error => pure (.failure error.code error.what)
    retainTerminalTransaction request.transactionId
    reapTerminalTransactions
    pure response

/-! ### GPU requests -/

def gpuResponse (operation : GpuOperation) : Response :=
  match operation.failure with
  | some (code, message) => .failure code message
  | none => .gpuComplete

/-- How the work of the engine ends. -/
def gpuOutcome (inputs : String) : Except Error Value → GpuOperation
  | .ok _ => ⟨inputs, .finished, none⟩
  | .error (.targetConflict message) => ⟨inputs, .ready, some (.transactionConflict, message)⟩
  | .error (.cancellation deadlineExceeded) =>
    ⟨inputs, .finished, some ((Error.cancellation deadlineExceeded).code, (Error.cancellation deadlineExceeded).what)⟩
  | .error error => ⟨inputs, .finished, some (.internalError, error.what)⟩

/-- `ExecuteGpu`: the lock is given up while the engine works. -/
def executeGpu (o : Object) (inputs : String) : Handler Response := do
  change o (.setGpu ⟨inputs, .running, some (.internalError, "GPU operation did not return a result")⟩)
  let result ← yielding o .runGpu
  change o (.setGpu (gpuOutcome inputs result))
  pure (gpuResponse (gpuOutcome inputs result))

def gpuLocked (o : Object) (inputs : String) : Handler Response := do
  let x ← ask (.get o)
  let now ← external .clock
  if x.expired now.flag then do
    change o .expire
    pure (.failure .transactionExpired "transaction expired")
  else if x.state ≠ .staged then pure (.failure .transactionConflict "storage transaction is not ready")
  else match x.gpuOperation with
  | some previous =>
    if previous.state = .running then pure (.failure .transactionConflict "GPU operation is running")
    else do
      let _ ← external .validateTargets
      if previous.request ≠ inputs then
        pure (.failure .transactionConflict "GPU operation already submitted with different inputs")
      else if previous.state = .finished then pure (gpuResponse previous)
      else executeGpu o inputs
  | none => do
    let _ ← external .createGpuArtifact
    executeGpu o inputs

def handleGpuRequest (id inputs : String) : Handler Response :=
  tryCatch (do
    let _ ← external .decodeGpuRequest
    match ← ask (.findTransaction id) with
    | none => pure (.failure .transactionNotFound "transaction not found")
    | some o => withHandle o (withLock o (gpuLocked o inputs))) fun
    | .invalidArgument message => pure (.failure .invalidRequest message)
    | error => pure (.failure .internalError error.what)

/-! ### The reaper -/

def reapLocked (id : String) (o : Object) : Handler Unit := do
  let x ← ask (.get o)
  if x.state.terminal then
    match ← cleanupTransfer o with
    | none => retainTerminal id o
    | some _ => pure ()
  else do
    let now ← external .clock
    if x.expired now.flag then do
      change o .expire
      match ← tryAbort o .noWait with
      | (true, _) => ask (.eraseTransaction id o)
      | (false, _) => pure ()
    else pure ()

def reapEach : List (String × Object) → Handler Unit
  | [] => pure ()
  | (id, o) :: rest => do
    let locked ← tryLock o
    onlyIf locked (finally' (reapLocked id o) (.unlock o))
    reapEach rest

def reapExpiredTransactions : Handler Unit := do
  let _ ← external .allocate
  let items ← ask .transactionSnapshot
  withHandles items (reapEach items)
  reapTerminalTransactions

def destroy (o : Object) : Process interface Unit := do
  let _ ← Process.request (I := interface) (.destroyReservation o)
  let _ ← Process.request (I := interface) (.destroyObject o)
  pure ()

def Task.body (config : Config) : Task → Process interface Unit
  | .request _ input => do
    let _ ← (handleRequest config input).run
  | .gpu _ id inputs => do
    let _ ← (handleGpuRequest id inputs).run
  | .reap _ => do
    let _ ← reapExpiredTransactions.run
  | .destroy o => PageBroker.destroy o

end PageBroker
