import Mathlib.Algebra.Ring.Nat
import Mathlib.Data.Finset.Basic

/-! The metadata that cuinterpose processes and the coordinator exchange: allocation
identities, inspection records, lifecycle operations and the manifest. Identifiers, sizes and
addresses are numbers; the additions that the source checks for overflow go through
`checkedAdd`. -/
namespace CuInterpose

open Std (ExtTreeMap)

abbrev NamespacePid := ℕ
abbrev AllocationId := ℕ

/-- `u64::checked_add`, and `usize::checked_add` on the supported 64-bit hosts. -/
def checkedAdd (a b : ℕ) : Option ℕ := if a + b < 2 ^ 64 then some (a + b) else none

@[simp]
theorem checkedAdd_eq_some {a b c : ℕ} : checkedAdd a b = some c ↔ a + b < 2 ^ 64 ∧ a + b = c := by
  unfold checkedAdd
  split <;> simp_all

structure AllocationReference where
  id : AllocationId
  creatorPid : NamespacePid
  deriving DecidableEq, Repr, Ord

/-- `MemoryLocation`: the codes of a `CUmemLocation`. -/
structure MemoryLocation where
  locationType : ℕ
  id : ℤ
  deriving DecidableEq, Repr, Ord

structure MemoryAccess where
  location : MemoryLocation
  flags : ℕ
  deriving DecidableEq, Repr, Ord

structure MulticastProperties where
  devices : ℕ
  size : ℕ
  handleTypes : ℕ
  flags : ℕ
  deriving DecidableEq, Repr, Ord

structure MemberRange where
  allocation : AllocationReference
  offset : ℕ
  deriving DecidableEq, Repr, Ord

inductive BindingSource where
  | memory (range : MemberRange)
  | address (address : ℕ) (trackedMember : Option MemberRange)
  deriving DecidableEq, Repr, Ord

/-- The multicast binding call that recorded a binding and that replays it. -/
inductive BindingVersion where
  | v1
  | v2
  deriving DecidableEq, Repr, Ord

/-- One entry in a participant's persisted CUDA state. -/
inductive Record where
  | allocation (allocation : AllocationReference) (shared peerAccessGranted : Bool)
      (size allocationType handleTypes : ℕ) (location : MemoryLocation)
      (virtualAllocationHandleCount : ℕ)
  | mapping (allocation : AllocationReference) (address size offset : ℕ)
      (access : List MemoryAccess)
  | multicast (allocation : AllocationReference) (properties : MulticastProperties)
      (virtualMulticastHandleCount : ℕ)
  | multicastDevice (allocation : AllocationReference) (device : ℤ)
  | multicastBinding (allocation : AllocationReference) (source : BindingSource)
      (size offset flags : ℕ) (version : BindingVersion) (device : ℤ)
  | multicastMapping (allocation : AllocationReference) (address size offset flags : ℕ)
      (access : List MemoryAccess)
  deriving DecidableEq, Repr, Ord

abbrev Manifest := ExtTreeMap NamespacePid (List Record)

inductive Operation where
  | prepareMulticast
  | saveAllocations
  | prepareUnicast
  | loadAllocations
  | restoreUnicast
  | restoreMulticastCreators
  | restoreMulticastImporters
  | restoreMulticastDevices
  | restoreMulticastBindings
  deriving DecidableEq, Repr

/-- The holder that saves and recreates one shared backing allocation. -/
structure AllocationOwner where
  allocation : AllocationReference
  ownerPid : NamespacePid
  deriving DecidableEq, Repr

inductive Reply where
  | inspection (records : List Record)
  | completed (operation : Operation) (bytes : ℕ)
  | unicastExport (size : ℕ) (location : MemoryLocation)
  | multicastExport (properties : MulticastProperties)
  deriving DecidableEq, Repr

end CuInterpose
