import Mathlib.Algebra.Ring.Nat
import Mathlib.Data.Finset.Basic
import Snapshot.CaptureErrors

/-! A transaction of PageBroker and the admission accounting that transactions share. What the code
computes in `uintmax_t` and `unsigned` is computed here in the same widths. -/
namespace PageBroker

open CaptureErrors (FailureCode)

abbrev Path := String

inductive TransferMode where
  | staged | direct
  deriving DecidableEq, Repr

inductive IoEngine where
  | posixCopy | nixl | modelStreamer
  deriving DecidableEq, Repr

/-- What a step throws, as far as the handlers tell exceptions apart. -/
inductive Error where
  | transfer (code : FailureCode) (message : String)
  | cancellation (deadlineExceeded : Bool)
  | invalidArgument (message : String)
  | filesystem (message : String)
  /-- A GPU target is in use; no CUDA work has started. -/
  | targetConflict (message : String)
  | other (message : String)
  deriving DecidableEq, Repr

namespace Error

def what : Error → String
  | transfer _ message | invalidArgument message | filesystem message | targetConflict message | other message => message
  | cancellation true => "operation deadline exceeded"
  | cancellation false => "operation cancelled"

/-- `TransferFailureCode`. -/
def code : Error → FailureCode
  | transfer code _ => code
  | cancellation true => .transactionExpired
  | cancellation false => .internalError
  | invalidArgument _ | filesystem _ | targetConflict _ | other _ => .storageError

end Error

/-- `TransactionResources`; `wrapped` records that an unsigned subtraction has wrapped. -/
structure Resources where
  byteLimit : UInt64
  transactionLimit : UInt32
  reserved : UInt64
  active : UInt32
  destinations : Finset String
  wrapped : Bool
  deriving DecidableEq

def Resources.new (byteLimit : UInt64) (transactionLimit : UInt32) : Resources :=
  ⟨byteLimit, transactionLimit, 0, 0, ∅, false⟩

inductive TransactionState where
  | new | preparing | staged | aborting | committed | aborted
  deriving DecidableEq, Repr

def TransactionState.terminal (s : TransactionState) : Bool := s = .committed || s = .aborted

inductive Descriptor where
  | none
  | restore (stagingDirectory : Path)
  | checkpoint (stagingDirectory : Path) (engine : IoEngine) (mode : TransferMode)
  deriving DecidableEq, Repr

/-- `CheckpointPublication`; of the artifact only its handle is used. -/
structure Publication where
  artifact : String
  pendingIndex : String
  published : Bool
  deriving DecidableEq, Repr

inductive GpuState where
  | ready | running | finished
  deriving DecidableEq, Repr

structure GpuOperation where
  request : String
  state : GpuState
  /-- The failure that `result` holds, if any. -/
  failure : Option (FailureCode × String)
  deriving DecidableEq, Repr

structure Transaction where
  state : TransactionState
  descriptor : Descriptor
  terminalRetained : Bool
  /-- A deadline has been set. -/
  deadline : Bool
  /-- `resources_` is not null. -/
  resources : Bool
  reserved : UInt64
  released : Bool
  publication : Option Publication
  transferDirectory : Path
  transferExpired : Bool
  gpuOperation : Option GpuOperation
  /-- How often the reservation has been released. -/
  releases : ℕ
  deriving DecidableEq, Repr

namespace Transaction

def initial : Transaction := ⟨.new, .none, false, false, false, 0, false, none, "", false, none, 0⟩

def hasPendingCleanup (x : Transaction) : Bool := x.transferDirectory ≠ "" || (x.resources && !x.released)

def canRetainTerminal (x : Transaction) : Bool :=
  !x.terminalRetained && x.state.terminal && !x.hasPendingCleanup

/-- `expired`, where `late` says that the deadline has passed. -/
def expired (x : Transaction) (late : Bool) : Bool :=
  x.deadline && !x.state.terminal && (x.transferExpired || late)

/-- The destination that the transaction owns. -/
def destination (x : Transaction) : Option String :=
  if x.resources then x.publication.map Publication.artifact else none

/-- The transaction holds the resources and has not released them. -/
def holds (x : Transaction) : Bool := x.resources && !x.released

/-- What it contributes to the reserved bytes. -/
def share (x : Transaction) : ℕ := if x.holds then x.reserved.toNat else 0

end Transaction

/-! ## The methods, one critical section each -/

variable (r : Resources) (x : Transaction)

/-- The admission test of `PrepareTransfer`; its subtraction is reached only below the limit. -/
def Resources.full (bytes : UInt64) : Bool :=
  r.active ≥ r.transactionLimit || r.reserved ≥ r.byteLimit || bytes > r.byteLimit - r.reserved

def Resources.occupy (bytes : UInt64) (destination : Option String) : Resources :=
  { r with
    active := r.active + 1
    reserved := r.reserved + bytes
    destinations := match destination with
      | some handle => insert handle r.destinations
      | none => r.destinations }

def Transaction.announce (artifact : Option String) : Transaction :=
  match artifact with
  | some handle => { x with publication := some ⟨handle, "", false⟩ }
  | none => x

/-- `PrepareTransfer`; without resources it only sets the deadline. The publication is set before
the admission test and stays when that fails; the entry of the destination may not be allocated. -/
def prepareTransfer (resources : Bool) (bytes : UInt64) (artifact : Option String) (fault : Option Error) :
    Except Error Unit × Resources × Transaction :=
  if !resources then (.ok (), r, { x with deadline := true })
  else
    let announced := { x with deadline := true }.announce artifact
    if r.full bytes then
      (.error (.transfer .insufficientStorage "staging admission limit reached"), r, announced)
    else match fault.filter fun _ => announced.publication.isSome with
      | some error => (.error error, r, announced)
      | none =>
        if announced.publication.any (·.artifact ∈ r.destinations) then
          (.error (.transfer .transactionConflict "checkpoint ID is already owned by a transaction"), r, announced)
        else
          (.ok (), r.occupy bytes (announced.publication.map Publication.artifact),
            { announced with resources := true, reserved := bytes })

def reserve (bytes : UInt64) : Except Error Unit × Resources × Transaction :=
  if !x.resources || bytes ≤ x.reserved then (.ok (), r, x)
  else
    let additional := bytes - x.reserved
    let r := { r with wrapped := r.wrapped || r.byteLimit < r.reserved }
    if additional > r.byteLimit - r.reserved then
      (.error (.transfer .insufficientStorage "transfer exceeds staging budget"), r, x)
    else (.ok (), { r with reserved := r.reserved + additional }, { x with reserved := bytes })

def releaseReservation : Resources × Transaction :=
  if !x.resources || x.released then (r, x)
  else
    ({ r with
        reserved := r.reserved - x.reserved
        active := r.active - 1
        wrapped := r.wrapped || r.reserved < x.reserved || r.active < 1 },
      { x with reserved := 0, released := true, releases := x.releases + 1 })

def releaseAbortedDestination : Resources × Transaction :=
  match x.publication with
  | none => (r, x)
  | some p =>
    if x.state ≠ .aborted || x.hasPendingCleanup || !x.resources then (r, x)
    else ({ r with destinations := r.destinations.erase p.artifact }, { x with publication := none })

/-- The last part of the destructor. -/
def eraseDestination : Resources :=
  match x.publication with
  | none => r
  | some p => if x.resources then { r with destinations := r.destinations.erase p.artifact } else r

/-- The assignments that a handler makes to a transaction it has locked. -/
inductive Change where
  | setState (state : TransactionState)
  | ownDirectory (directory : Path)
  | setDescriptor (descriptor : Descriptor)
  /-- `ExpireTransfer` of a transaction that has expired. -/
  | expire
  | retain
  | setGpu (operation : GpuOperation)
  /-- The engine keeps the index that it is about to publish. -/
  | keepIndex (index : String)
  | publish
  /-- `RemoveStaging` has removed the directory: the publication needs no retry data. -/
  | dropIndex
  /-- The end of `RemoveStaging`. -/
  | clearDirectory
  deriving DecidableEq, Repr

namespace Transaction

def updatePublication (f : Publication → Publication) : Transaction :=
  { x with publication := x.publication.map f }

end Transaction

def Change.apply : Change → Resources × Transaction
  | setState state => releaseAbortedDestination r { x with state := state }
  | ownDirectory directory => (r, { x with transferDirectory := directory })
  | setDescriptor descriptor => (r, { x with descriptor := descriptor })
  | expire => releaseAbortedDestination r { x with transferExpired := true, state := .aborting }
  | retain => (r, { x with terminalRetained := true })
  | setGpu operation => (r, { x with gpuOperation := some operation })
  | keepIndex index => (r, x.updatePublication fun p => { p with pendingIndex := index })
  | publish => (r, x.updatePublication fun p => { p with published := true })
  | dropIndex => (r, x.updatePublication fun p => { p with pendingIndex := "" })
  | clearDirectory => releaseAbortedDestination r { x with transferDirectory := "" }

end PageBroker
