import Mathlib.Data.Finset.Max
import Snapshot.CuInterposeDriver
import Snapshot.OrderedMap

/-! The coordinator's check of a checkpoint group. `validate` first collects definitions, holder
anchors, device attachments and bindings from the records of all participants, whatever their
order, then checks references, bounds and group completeness against what it collected. -/
namespace Coordinator

open Std (ExtTreeMap)
open CuInterpose

structure AllocationSummary where
  reference : AllocationReference
  size : ℕ
  shared : Bool
  /-- Some holder granted another GPU access. -/
  peerAccessGranted : Bool
  ownerPid : NamespacePid
  holders : Finset NamespacePid
  location : MemoryLocation
  deriving DecidableEq

def AllocationSummary.usesHostCarrier (a : AllocationSummary) : Bool :=
  a.shared || a.peerAccessGranted

structure Multicast where
  reference : AllocationReference
  properties : MulticastProperties
  creators : ℕ
  deriving DecidableEq, Repr

/-- Why a group is refused, in the order of the checks. -/
inductive TopologyError where
  | noParticipants
  | unsupportedAllocationProperties (pid : NamespacePid) (allocation : AllocationReference)
  | missingCreatorParticipant (pid : NamespacePid) (allocation : AllocationReference)
  | invalidAllocationExtent (pid : NamespacePid) (allocation : AllocationReference)
  | invalidAllocationCreator (pid : NamespacePid) (allocation : AllocationReference)
  | invalidImportedAllocation (pid : NamespacePid) (allocation : AllocationReference)
  | inconsistentAllocationMetadata (pid : NamespacePid) (allocation : AllocationReference)
  | duplicateAllocationRecord (pid : NamespacePid) (allocation : AllocationReference)
  | invalidMulticastProperties (pid : NamespacePid) (allocation : AllocationReference)
  | inconsistentMulticastProperties (pid : NamespacePid) (allocation : AllocationReference)
  | duplicateMulticastDevice (pid : NamespacePid) (allocation : AllocationReference) (device : ℤ)
  | missingAllocationAnchor (pid : NamespacePid) (allocation : AllocationReference)
  | missingCreator (pid : NamespacePid) (allocation : AllocationReference)
  | inconsistentAllocationCreator (pid : NamespacePid) (allocation : AllocationReference)
  | invalidMapping (pid : NamespacePid) (allocation : AllocationReference)
  | missingMulticastObject (allocation : AllocationReference)
  | inconsistentMulticastCreator (pid : NamespacePid) (allocation : AllocationReference)
  | invalidMulticastMember (pid : NamespacePid) (allocation : AllocationReference)
  | bindingOutOfMemberBounds (pid : NamespacePid) (allocation : AllocationReference)
  | bindingDeviceNotAttached (pid : NamespacePid) (allocation : AllocationReference)
  | multicastCreators (allocation : AllocationReference) (found : ℕ)
  | incompleteMulticastDeviceGroup (allocation : AllocationReference) (expected found : ℕ)
  | incompleteMulticastBindingGroup (allocation : AllocationReference)
  deriving DecidableEq, Repr

def ensure (condition : Bool) (cause : TopologyError) : Except TopologyError Unit :=
  if condition then .ok ⟨⟩ else .error cause

/-- What the first pass knows after some records. -/
structure Collected where
  allocations : ExtTreeMap AllocationId AllocationSummary
  multicasts : ExtTreeMap AllocationId Multicast
  anchors : Finset (AllocationId × NamespacePid)
  devices : ExtTreeMap AllocationId (Finset (NamespacePid × ℤ))
  bindings : Finset (AllocationId × NamespacePid × ℤ)

def Collected.empty : Collected := ⟨∅, ∅, ∅, ∅, ∅⟩

/-- Creators may be nonexportable; CUDA reports no handle types on imports. -/
def knownHandleTypes (handleTypes : ℕ) : Bool :=
  handleTypes = 0 ∨ handleTypes = handleTypePosixFileDescriptor

def supportedAllocation (allocationType : ℕ) (location : MemoryLocation) : Bool :=
  allocationType = MemAllocationType.pinned.code ∧
    (location.locationType = MemLocationType.device.code ∨
      location.locationType = MemLocationType.hostNuma.code)

/-- Device ordinals are per process, while NUMA node identifiers are system-wide. -/
def sameLocation (known location : MemoryLocation) : Bool :=
  known.locationType = location.locationType ∧
    (location.locationType ≠ MemLocationType.hostNuma.code ∨ known.id = location.id)

def collectAllocation (participants : Manifest) (pid : NamespacePid) (c : Collected)
    (allocation : AllocationReference) (shared peerAccessGranted : Bool)
    (size allocationType handleTypes : ℕ) (location : MemoryLocation) (handleCount : ℕ) :
    Except TopologyError Collected := do
  ensure (supportedAllocation allocationType location)
    (.unsupportedAllocationProperties pid allocation)
  ensure (allocation.creatorPid ∈ participants) (.missingCreatorParticipant pid allocation)
  ensure (size > 0) (.invalidAllocationExtent pid allocation)
  if allocation.creatorPid = pid then
    -- Only exportable backing can be shared.
    ensure (knownHandleTypes handleTypes ∧ (handleTypes ≠ 0 ∨ ¬ shared))
      (.invalidAllocationCreator pid allocation)
  else
    ensure (shared ∧ knownHandleTypes handleTypes) (.invalidImportedAllocation pid allocation)
  let known := c.allocations[allocation.id]?.getD
    ⟨allocation, size, shared, false, pid, ∅, location⟩
  ensure (known.reference = allocation ∧ known.size = size ∧ known.shared = shared ∧
      sameLocation known.location location)
    (.inconsistentAllocationMetadata pid allocation)
  ensure (pid ∉ known.holders) (.duplicateAllocationRecord pid allocation)
  let known := { known with
    peerAccessGranted := known.peerAccessGranted || peerAccessGranted
    holders := insert pid known.holders }
  return { c with
    allocations := c.allocations.insert allocation.id known
    anchors := if handleCount ≠ 0 then insert (allocation.id, pid) c.anchors else c.anchors }

def collectMulticast (pid : NamespacePid) (c : Collected) (allocation : AllocationReference)
    (properties : MulticastProperties) : Except TopologyError Collected := do
  ensure (properties.handleTypes = handleTypePosixFileDescriptor ∧ properties.size ≠ 0 ∧
      properties.devices ≠ 0 ∧ properties.flags = 0)
    (.invalidMulticastProperties pid allocation)
  let known := c.multicasts[allocation.id]?.getD ⟨allocation, properties, 0⟩
  ensure (known.reference = allocation ∧ known.properties = properties)
    (.inconsistentMulticastProperties pid allocation)
  let known :=
    if pid = allocation.creatorPid then { known with creators := known.creators + 1 } else known
  return { c with multicasts := c.multicasts.insert allocation.id known }

/-- One record of the first pass. -/
def collectRecord (participants : Manifest) (c : Collected) :
    NamespacePid × Record → Except TopologyError Collected
  | (pid, .allocation allocation shared peerAccessGranted size allocationType handleTypes location
      handleCount) =>
    collectAllocation participants pid c allocation shared peerAccessGranted size allocationType
      handleTypes location handleCount
  | (pid, .multicast allocation properties _) => collectMulticast pid c allocation properties
  | (pid, .mapping allocation ..) =>
    .ok { c with anchors := insert (allocation.id, pid) c.anchors }
  | (pid, .multicastDevice allocation device) => do
    let attached := c.devices[allocation.id]?.getD ∅
    ensure ((pid, device) ∉ attached) (.duplicateMulticastDevice pid allocation device)
    return { c with devices := c.devices.insert allocation.id (insert (pid, device) attached) }
  | (pid, .multicastBinding allocation _ _ _ _ _ device) =>
    .ok { c with bindings := insert (allocation.id, pid, device) c.bindings }
  | (_, .multicastMapping ..) => .ok c

/-- The records in the order of the loops: by participant, then by position. -/
def entries (participants : Manifest) : List (NamespacePid × Record) :=
  participants.toList.flatMap fun (pid, records) => records.map (pid, ·)

/-- Prefer the original creator while it has local state, else the first holder. -/
def AllocationSummary.chooseOwner (a : AllocationSummary) : AllocationSummary :=
  { a with ownerPid :=
      if a.reference.creatorPid ∈ a.holders then a.reference.creatorPid
      else a.holders.min.untopD 0 }

def checkAnchors (c : Collected) (a : AllocationSummary) : Except TopologyError Unit :=
  match (a.holders.filter fun holder => (a.reference.id, holder) ∉ c.anchors).min with
  | some holder => .error (.missingAllocationAnchor holder a.reference)
  | none => .ok ⟨⟩

/-- The tracked allocation behind a binding, if any. -/
def memberOf (pid : NamespacePid) (allocation : AllocationReference) :
    BindingSource → Except TopologyError (Option MemberRange)
  | .memory range => .ok (some range)
  | .address address trackedMember => do
    ensure (address ≠ 0) (.invalidMulticastMember pid allocation)
    return trackedMember

def checkMember (c : Collected) (pid : NamespacePid) (size : ℕ) (range : MemberRange) :
    Except TopologyError Unit := do
  match c.allocations[range.allocation.id]? with
  | none => .error (.invalidMulticastMember pid range.allocation)
  | some known =>
    ensure (known.reference = range.allocation)
      (.inconsistentAllocationCreator pid range.allocation)
    ensure ((checkedAdd range.offset size).any (· ≤ known.size))
      (.bindingOutOfMemberBounds pid range.allocation)

def checkMulticastReference (c : Collected) (pid : NamespacePid)
    (allocation : AllocationReference) : Except TopologyError Unit :=
  match c.multicasts[allocation.id]? with
  | none => .error (.missingMulticastObject allocation)
  | some multicast =>
    ensure (multicast.reference = allocation) (.inconsistentMulticastCreator pid allocation)

/-- One record of the second pass. -/
def checkRecord (c : Collected) : NamespacePid × Record → Except TopologyError Unit
  | (pid, .allocation allocation ..) =>
    ensure (c.allocations[allocation.id]?.any (·.reference = allocation))
      (.missingCreator pid allocation)
  | (pid, .mapping allocation address size offset _) =>
    match c.allocations[allocation.id]? with
    | none => .error (.missingCreator pid allocation)
    | some known => do
      ensure (known.reference = allocation ∧ pid ∈ known.holders)
        (.inconsistentAllocationCreator pid allocation)
      ensure (address ≠ 0 ∧ size ≠ 0 ∧ (checkedAdd offset size).any (· ≤ known.size))
        (.invalidMapping pid allocation)
  | (pid, .multicastBinding allocation source size _ _ _ device) => do
    checkMulticastReference c pid allocation
    match ← memberOf pid allocation source with
    | some range => checkMember c pid size range
    | none => pure ⟨⟩
    ensure (c.devices[allocation.id]?.any ((pid, device) ∈ ·))
      (.bindingDeviceNotAttached pid allocation)
  | (pid, .multicastMapping allocation ..) => checkMulticastReference c pid allocation
  | (pid, .multicastDevice allocation _) => checkMulticastReference c pid allocation
  | (_, .multicast ..) => .ok ⟨⟩

/-- Every object has one creator in the group, all its devices, and a binding on each. -/
def checkMulticast (c : Collected) (multicast : Multicast) : Except TopologyError Unit := do
  ensure (multicast.creators = 1) (.multicastCreators multicast.reference multicast.creators)
  let attached := c.devices[multicast.reference.id]?.getD ∅
  ensure (attached.card = multicast.properties.devices)
    (.incompleteMulticastDeviceGroup multicast.reference multicast.properties.devices
      attached.card)
  ensure (∀ entry ∈ attached, (multicast.reference.id, entry.1, entry.2) ∈ c.bindings)
    (.incompleteMulticastBindingGroup multicast.reference)

def validate (participants : Manifest) : Except TopologyError (List AllocationSummary) := do
  ensure (¬ participants.isEmpty) .noParticipants
  let c ← (entries participants).foldlM (collectRecord participants) .empty
  let allocations := c.allocations.map fun _ a => a.chooseOwner
  (OrderedMap.values allocations).forM (checkAnchors c)
  (entries participants).forM (checkRecord { c with allocations := allocations })
  (OrderedMap.values c.multicasts).forM (checkMulticast c)
  return OrderedMap.values allocations

end Coordinator
