import Mathlib.Data.Option.Basic
import Snapshot.OrderedMap

/-! The registry of the interposition library: memblocks with their handles and mappings, malloc regions, and
the exports that are cached for peers. What a handle or a mapping leaves behind is released here. -/
namespace Interpose

open Std (ExtTreeMap)

/-! ## The registry -/

abbrev AllocationId := ℕ

structure AllocationReference where
  creatorPid : ℕ
  id : AllocationId
  deriving DecidableEq

/-- A virtual handle, by its number under the private tag. -/
abbrev VirtualAllocationHandle := ℕ

structure MemoryLocation where
  locationType : ℕ
  id : ℤ
  deriving DecidableEq

structure MulticastProperties where
  devices : ℕ
  size : ℕ
  handleTypes : ℕ
  flags : ℕ
  deriving DecidableEq

inductive Kind where
  | unicast (size : ℕ) (location : MemoryLocation)
  | multicast (properties : MulticastProperties)
  deriving DecidableEq

/-- The fields that both variants of a memblock have, and the permission of another GPU, which only
unicast backing records. The counters are machine words. Beside them stand the driver object that backs
the memblock, whether or not a driver handle is held, and whether its reference was handed out. -/
structure Memblock where
  kind : Kind
  reference : AllocationReference
  handleEntries : UInt64
  mappings : UInt64
  driver : Option ℕ
  context : ℕ
  shared : Bool
  peerAccessGranted : Bool
  object : Option ℕ
  handedOut : Bool
  deriving DecidableEq

/-- A cached export: the descriptor stands for the object that it was exported from. -/
structure Export where
  reference : AllocationReference
  object : ℕ
  reply : Kind
  deriving DecidableEq

structure HandleEntry where
  id : AllocationId
  references : UInt64
  deriving DecidableEq

structure Mapping where
  id : AllocationId
  handle : VirtualAllocationHandle
  size : ℕ
  offset : ℕ
  deriving DecidableEq

structure MallocRegion where
  virtualAllocationHandle : VirtualAllocationHandle
  requested : ℕ
  extent : ℕ
  context : ℕ
  opens : ℕ
  deriving DecidableEq

inductive DriverCall where
  | cuMemUnmap (address size : ℕ)
  | cuMemAddressFree (address size : ℕ)
  | cuMemRelease (handle : ℕ)
  deriving DecidableEq

inductive Phase where
  | active
  | checkpointing
  | multicastPrepared
  | allocationsSaved
  | unicastPrepared
  | allocationsLoaded
  | unicastRestored
  | multicastCreatorsRestored
  | multicastImportersRestored
  | multicastDevicesRestored
  deriving DecidableEq

/-- The process state, and a record of what was unmapped and which handles were released. -/
structure ProcessState where
  namespacePid : ℕ
  mallocRegions : ExtTreeMap ℕ MallocRegion
  importedMallocs : ExtTreeMap AllocationId ℕ
  mallocPeers : ExtTreeMap ℕ (ExtTreeMap ℕ ℤ)
  memblocks : ExtTreeMap AllocationId Memblock
  virtualAllocationHandles : ExtTreeMap VirtualAllocationHandle HandleEntry
  mappings : ExtTreeMap ℕ Mapping
  exportCache : AllocationId → Option Export
  phase : Phase
  checkpointOwners : AllocationId → Option ℕ
  unlockedDriverCalls : ℕ
  nextVirtualAllocationHandle : ℕ
  unmapped : List (ℕ × ℕ)
  released : List VirtualAllocationHandle

/-! ## Releasing

A failed driver call, an error and a missing entry all end the process here, since every caller must
complete; `none` stands for that. -/

section Release

variable (refuses : DriverCall → Bool)

def call (c : DriverCall) : Option Unit := if refuses c then none else some ()

def ProcessState.modifyMemblock (s : ProcessState) (id : AllocationId) (f : Memblock → Memblock) : ProcessState :=
  { s with memblocks := s.memblocks.modify id f }

def Memblock.dropMapping (b : Memblock) : Memblock := { b with mappings := b.mappings - 1 }

def Memblock.dropHandle (b : Memblock) : Memblock := { b with handleEntries := b.handleEntries - 1 }

def Memblock.dropDriver (b : Memblock) : Memblock := { b with driver := none }

def removeMapping (address : ℕ) (s : ProcessState) : Option (AllocationId × ProcessState) := do
  let mapping ← s.mappings[address]?
  let _ ← s.memblocks[mapping.id]?
  some (mapping.id, { s with mappings := s.mappings.erase address }.modifyMemblock mapping.id .dropMapping)

def removeExport (id : AllocationId) (exports : AllocationId → Option Export) : AllocationId → Option Export :=
  fun i => if i = id then none else exports i

/-- The export goes before the memblock does. -/
def forgetMemblock (id : AllocationId) (s : ProcessState) : ProcessState :=
  { s with exportCache := removeExport id s.exportCache, memblocks := s.memblocks.erase id }

def releaseDriver (b : Memblock) : Option Unit :=
  match b.driver with
  | some handle => call refuses (.cuMemRelease handle)
  | none => some ()

/-- The driver handle of unicast backing goes with the last virtual handle; mappings retain the backing. -/
def releaseUnusedMemblock (id : AllocationId) (s : ProcessState) : Option ProcessState := do
  let b ← s.memblocks[id]?
  match b.kind with
  | .unicast _ _ =>
    if b.handleEntries ≠ 0 then some s
    else do
      releaseDriver refuses b
      if b.mappings ≠ 0 then some (s.modifyMemblock id .dropDriver)
      else some (forgetMemblock id s)
  | .multicast _ =>
    if b.handleEntries ≠ 0 ∨ b.mappings ≠ 0 then some s
    else do
      releaseDriver refuses b
      some (forgetMemblock id s)

/-- The last reference takes the entry with it. -/
def releaseVirtualHandle (handle : VirtualAllocationHandle) (s : ProcessState) : Option ProcessState := do
  let entry ← s.virtualAllocationHandles[handle]?
  let s := { s with released := s.released ++ [handle] }
  if entry.references - 1 = 0 then do
    let _ ← s.memblocks[entry.id]?
    releaseUnusedMemblock refuses entry.id
      ({ s with virtualAllocationHandles := s.virtualAllocationHandles.erase handle }.modifyMemblock entry.id .dropHandle)
  else
    some { s with
      virtualAllocationHandles := s.virtualAllocationHandles.insert handle
        { entry with references := entry.references - 1 } }

def removeRegion (address : ℕ) (region : MallocRegion) (id : AllocationId) (s : ProcessState) : ProcessState :=
  { s with
    mallocRegions := s.mallocRegions.erase address
    importedMallocs := if region.opens ≠ 0 then s.importedMallocs.erase id else s.importedMallocs
    unmapped := s.unmapped ++ [(address, region.extent)] }

def unmapMalloc (address : ℕ) (s : ProcessState) : Option ProcessState := do
  let region ← s.mallocRegions[address]?
  call refuses (.cuMemUnmap address region.extent)
  let (id, s) ← removeMapping address s
  let s ← releaseVirtualHandle refuses region.virtualAllocationHandle (removeRegion address region id s)
  call refuses (.cuMemAddressFree address region.extent)
  some s

end Release

/-- A memblock that is still referred to stays, at most without its driver handle. -/
theorem releaseUnusedMemblock_cases {refuses : DriverCall → Bool} {id : AllocationId} {s t : ProcessState}
    (h : releaseUnusedMemblock refuses id s = some t) :
    t = s ∨ t = s.modifyMemblock id .dropDriver ∨ t = forgetMemblock id s := by
  simp only [releaseUnusedMemblock, Option.bind_eq_bind, Option.bind_eq_some_iff] at h
  obtain ⟨b, -, h⟩ := h
  cases hkind : b.kind with
  | unicast size location =>
    simp only [hkind] at h
    by_cases hlive : b.handleEntries ≠ 0
    · rw [if_pos hlive] at h
      cases h
      exact .inl rfl
    · rw [if_neg hlive, Option.bind_eq_some_iff] at h
      obtain ⟨-, -, h⟩ := h
      split at h
      · cases h
        exact .inr (.inl rfl)
      · cases h
        exact .inr (.inr rfl)
  | multicast properties =>
    simp only [hkind] at h
    by_cases hlive : b.handleEntries ≠ 0 ∨ b.mappings ≠ 0
    · rw [if_pos hlive] at h
      cases h
      exact .inl rfl
    · rw [if_neg hlive, Option.bind_eq_some_iff] at h
      obtain ⟨-, -, h⟩ := h
      cases h
      exact .inr (.inr rfl)

theorem getElem?_modifyMemblock {s : ProcessState} {id : AllocationId} {f : Memblock → Memblock} (i : AllocationId) :
    (s.modifyMemblock id f).memblocks[i]? = if i = id then s.memblocks[i]?.map f else s.memblocks[i]? := by
  by_cases hi : i = id
  · subst hi
    rw [if_pos rfl, ProcessState.modifyMemblock, ExtTreeMap.getElem?_modify_self]
  · rw [if_neg hi, ProcessState.modifyMemblock, ExtTreeMap.getElem?_modify, if_neg (by simpa using Ne.symm hi)]

end Interpose
