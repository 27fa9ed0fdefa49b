import Mathlib.Algebra.Ring.Nat
import Snapshot.ByteText
import Snapshot.CheckedFold
import Snapshot.Utf8
import Mathlib.Data.Finset.Basic
import Mathlib.Data.List.Perm.Basic

/-! Which GPUs a container has, and in which order. The allocation comes from the container's environment, from DRA
claims or from the kubelet, in orders of their own; the order of the result is that of the container's own listing. -/
namespace GpuDiscovery

open LexicalPath (Bytes)
open ByteText (literal)

structure GPUDevice where
  uuid : Bytes
  productName : Bytes
  deriving DecidableEq, Repr

structure GPUInfo where
  driverVersion : Bytes
  devices : List GPUDevice
  deriving DecidableEq, Repr

structure VisibleGPUs where
  gpus : GPUInfo
  unordered : Bool
  deriving DecidableEq, Repr

inductive DiscoverError
  /-- An error of a call to the outside. -/
  | outside (text : String)
  | within (what : String) (e : DiscoverError)
  | unordered
  | unsupportedSelection (selection : Bytes)
  | notOneGPU (selection : Bytes)
  | invalidOrDuplicate (uuid : Bytes)
  | draNoUUIDs
  | draCount (allocated visible : ℕ)
  | draInvalid (uuid : Bytes)
  | draDuplicate (uuid : Bytes)
  | visibleInvalid (uuid : Bytes)
  | visibleDuplicate (uuid : Bytes)
  | visibleNotAllocated (uuid : Bytes)
  /-- The missing UUIDs, which the text lists in order. -/
  | notListed (missing : Finset Bytes)
  deriving DecidableEq

/-- What discovery asks about a container. -/
structure Container where
  env : List Bytes
  /-- `VisibleGPULister`, which gives every caller the same answer. -/
  visible : Except String VisibleGPUs
  /-- `nvidia-smi -i` on the host, parsed. -/
  querySelection : Bytes → Except String GPUInfo
  /-- `GetGPUUUIDsViaDRAAPI`: the UUIDs, whether there is an allocation, and the error. -/
  draUUIDs : List Bytes
  hasNVIDIADRAAllocation : Bool
  draError : Option String
  /-- `GetPodGPUUUIDs` -/
  podResources : Except String (List Bytes)

def hexDigit (b : UInt8) : Bool := (0x30 ≤ b && b ≤ 0x39) || (0x41 ≤ b && b ≤ 0x46) || (0x61 ≤ b && b ≤ 0x66)

def hyphen : UInt8 := 0x2D

def comma : UInt8 := 0x2C

def equals : UInt8 := 0x3D

/-- `^GPU-[a-fA-F0-9]{8}-[a-fA-F0-9]{4}-[a-fA-F0-9]{4}-[a-fA-F0-9]{4}-[a-fA-F0-9]{12}$` -/
def gpuUUIDPattern (s : Bytes) : Bool :=
  match s.splitOn hyphen with
  | [gpu, a, b, c, d, e] =>
    gpu == literal "GPU" && [(a, 8), (b, 4), (c, 4), (d, 4), (e, 12)].all fun (run, n) => run.length == n && run.all hexDigit
  | _ => false

/-- Whether `strconv.ParseUint(s, 10, 32)` succeeds. -/
def parsesUint32 (s : Bytes) : Bool :=
  s != [] && s.all (fun b => 0x30 ≤ b && b ≤ 0x39) && s.foldl (fun n b => 10 * n + (b.toNat - 0x30)) 0 < 2 ^ 32

def environmentName : Bytes := literal "NVIDIA_VISIBLE_DEVICES="

/-- The last assignment wins. -/
def visibleDevicesValue (env : List Bytes) : Option Bytes :=
  (env.reverse.find? (environmentName <+: ·)).map (·.drop environmentName.length)

def listInBusOrder (c : Container) : Except DiscoverError GPUInfo :=
  match c.visible with
  | .error e => .error (.outside e)
  | .ok listed => if listed.unordered then .error .unordered else .ok listed.gpus

def gpuUUIDs (info : GPUInfo) : List Bytes := (info.devices.map GPUDevice.uuid).filter (· ≠ [])

/-- One selection of the environment variable: an index or a UUID, asked for on the host. -/
def resolveSelection (c : Container) (piece : Bytes) : Except DiscoverError (GPUDevice × Bytes) :=
  let selection := Utf8.trimSpace piece
  if !parsesUint32 selection && !gpuUUIDPattern selection then .error (.unsupportedSelection selection)
  else match c.querySelection selection with
  | .error e => .error (.within "resolve NVIDIA_VISIBLE_DEVICES selection" (.outside e))
  | .ok resolved =>
    match resolved.devices with
    | [device] => if gpuUUIDPattern device.uuid then .ok (device, resolved.driverVersion)
      else .error (.invalidOrDuplicate device.uuid)
    | _ => .error (.notOneGPU selection)

/-- The loop of `resolveSelectedGPUs`. -/
def addSelection (c : Container) (gpus : GPUInfo) (piece : Bytes) : Except DiscoverError GPUInfo := do
  let (device, driverVersion) ← resolveSelection c piece
  if device.uuid ∈ gpus.devices.map GPUDevice.uuid then .error (.invalidOrDuplicate device.uuid)
  else .ok ⟨driverVersion, gpus.devices ++ [device]⟩

def resolveSelectedGPUs (c : Container) (value : Bytes) : Except DiscoverError GPUInfo :=
  (value.splitOn comma).foldlM (addSelection c) ⟨[], []⟩

/-- The loop of `describeGPUs` over the listing: a listed GPU is taken when it is still looked for. -/
def takeListed (state : Finset Bytes × List GPUDevice) (device : GPUDevice) : Finset Bytes × List GPUDevice :=
  if device.uuid ∈ state.1 then (state.1.erase device.uuid, state.2 ++ [device]) else state

def describeGPUs (uuids : List Bytes) (listed : GPUInfo) : Except DiscoverError GPUInfo :=
  let (allocated, devices) := listed.devices.foldl takeListed (uuids.toFinset, [])
  if allocated ≠ ∅ then .error (.notListed allocated) else .ok ⟨listed.driverVersion, devices⟩

/-- The first loop of `orderDRAUUIDsByRuntime`. -/
def noteAllocated (allocated : Finset Bytes) (uuid : Bytes) : Except DiscoverError (Finset Bytes) :=
  if gpuUUIDPattern uuid = false then .error (.draInvalid uuid)
  else if uuid ∈ allocated then .error (.draDuplicate uuid)
  else .ok (insert uuid allocated)

/-- The second loop of `orderDRAUUIDsByRuntime`. -/
def noteVisible (allocated seen : Finset Bytes) (uuid : Bytes) : Except DiscoverError (Finset Bytes) :=
  if gpuUUIDPattern uuid = false then .error (.visibleInvalid uuid)
  else if uuid ∈ seen then .error (.visibleDuplicate uuid)
  else if uuid ∉ allocated then .error (.visibleNotAllocated uuid)
  else .ok (insert uuid seen)

def orderDRAUUIDsByRuntime (allocatedUUIDs visibleUUIDs : List Bytes) : Except DiscoverError (List Bytes) :=
  if allocatedUUIDs.length ≠ visibleUUIDs.length then .error (.draCount allocatedUUIDs.length visibleUUIDs.length)
  else do
    let allocated ← allocatedUUIDs.foldlM noteAllocated ∅
    let _ ← visibleUUIDs.foldlM (noteVisible allocated) ∅
    return visibleUUIDs

/-- `discoverGPUs`, without a selection in the environment. -/
def discoverAllocated (c : Container) : Except DiscoverError GPUInfo :=
  match c.draError, c.hasNVIDIADRAAllocation with
  | some e, true => .error (.within "DRA GPU UUID lookup failed" (.outside e))
  | none, true =>
    if c.draUUIDs = [] then .error .draNoUUIDs
    else do
      let listed ← (listInBusOrder c).mapError (.within "discover DRA GPUs in container ordinal order")
      let orderedUUIDs ← orderDRAUUIDsByRuntime c.draUUIDs (gpuUUIDs listed)
      describeGPUs orderedUUIDs listed
  | _, false =>
    match c.podResources with
    | .error e => .error (.within "PodResources GPU UUID lookup failed" (.outside e))
    | .ok uuids =>
      if uuids ≠ [] then do
        let listed ← (listInBusOrder c).mapError (.within "list PodResources GPUs in bus order")
        describeGPUs uuids listed
      else (listInBusOrder c).mapError (.within "nvidia-smi GPU UUID fallback failed")

def discoverGPUs (c : Container) : Except DiscoverError GPUInfo :=
  match visibleDevicesValue c.env with
  | none => discoverAllocated c
  | some value =>
    if value = literal "all" then discoverAllocated c
    else if value = [] ∨ value = literal "none" ∨ value = literal "void" then listInBusOrder c
    else do
      let selected ← resolveSelectedGPUs c value
      let listed ← (listInBusOrder c).mapError (.within "list selected GPUs in bus order")
      describeGPUs (gpuUUIDs selected) listed

/-! ### Device maps -/

inductive DeviceMapError
  | countMismatch (source target : ℕ)
  | empty
  | invalidMapping (pair : Bytes)
  deriving DecidableEq, Repr

def buildDeviceMap (sourceUUIDs targetUUIDs : List Bytes) : Except DeviceMapError Bytes :=
  if sourceUUIDs.length ≠ targetUUIDs.length then .error (.countMismatch sourceUUIDs.length targetUUIDs.length)
  else if sourceUUIDs.length = 0 then .error .empty
  else if ∀ src ∈ sourceUUIDs, src ∈ targetUUIDs then .ok []
  else .ok ([comma].intercalate ((sourceUUIDs.zip targetUUIDs).map fun (src, target) => src ++ [equals] ++ target))

structure GpuDeviceMapping where
  sourceUuid : Bytes
  targetUuid : Bytes
  deriving DecidableEq, Repr

/-- One pair of a device map's text. -/
def parsePair (pair : Bytes) : Except DeviceMapError GpuDeviceMapping :=
  match ByteText.cut [equals] pair with
  | none => .error (.invalidMapping pair)
  | some (source, target) =>
    if source = [] ∨ target = [] ∨ equals ∈ target then .error (.invalidMapping pair) else .ok ⟨source, target⟩

def parseDeviceMap (deviceMap : Bytes) : Except DeviceMapError (List GpuDeviceMapping) :=
  if deviceMap = [] then .ok [] else (deviceMap.splitOn comma).mapM parsePair

/-! ### The listing's order -/

theorem foldl_takeListed {devices : List GPUDevice} (hnodup : (devices.map GPUDevice.uuid).Nodup) (looked : Finset Bytes)
    (taken : List GPUDevice) : devices.foldl takeListed (looked, taken)
      = (looked \ (devices.map GPUDevice.uuid).toFinset, taken ++ devices.filter (·.uuid ∈ looked)) := by
  induction devices generalizing looked taken with
  | nil => simp
  | cons d devices ih =>
    rw [List.map_cons, List.nodup_cons] at hnodup
    obtain ⟨hd, hnodup⟩ := hnodup
    rw [List.foldl_cons, takeListed]
    by_cases hmem : d.uuid ∈ looked
    · -- the UUID is not listed again, so that it is no longer looked for makes no difference
      have hrest : devices.filter (·.uuid ∈ looked.erase d.uuid) = devices.filter (·.uuid ∈ looked) := by
        refine List.filter_congr fun e he => ?_
        have hne : e.uuid ≠ d.uuid := fun h => hd (h ▸ List.mem_map_of_mem he)
        simp [Finset.mem_erase, hne]
      have hleft : looked.erase d.uuid \ (devices.map GPUDevice.uuid).toFinset
          = looked \ ((d :: devices).map GPUDevice.uuid).toFinset := by
        ext u
        simp only [Finset.mem_sdiff, Finset.mem_erase, List.map_cons, List.toFinset_cons, Finset.mem_insert, not_or]
        constructor
        · rintro ⟨⟨hne, hu⟩, hlisted⟩
          exact ⟨hu, hne, hlisted⟩
        · rintro ⟨hu, hne, hlisted⟩
          exact ⟨⟨hne, hu⟩, hlisted⟩
      rw [if_pos hmem, ih hnodup, hrest, hleft, List.filter_cons_of_pos (by simpa using hmem), List.append_assoc,
        List.singleton_append]
    · have hleft : looked \ (devices.map GPUDevice.uuid).toFinset
          = looked \ ((d :: devices).map GPUDevice.uuid).toFinset := by
        ext u
        simp only [Finset.mem_sdiff, List.map_cons, List.toFinset_cons, Finset.mem_insert, not_or]
        constructor
        · rintro ⟨hu, hlisted⟩
          exact ⟨hu, fun h => hmem (h ▸ hu), hlisted⟩
        · rintro ⟨hu, -, hlisted⟩
          exact ⟨hu, hlisted⟩
      rw [if_neg hmem, ih hnodup, hleft, List.filter_cons_of_neg (by simpa using hmem)]

/-- The allocated GPUs of a listing. -/
def GPUInfo.restrict (listed : GPUInfo) (uuids : List Bytes) : GPUInfo :=
  { listed with devices := listed.devices.filter (·.uuid ∈ uuids) }

theorem describeGPUs_eq_ok {uuids : List Bytes} {listed r : GPUInfo}
    (hnodup : (listed.devices.map GPUDevice.uuid).Nodup) : describeGPUs uuids listed = .ok r
      ↔ (∀ u ∈ uuids, u ∈ listed.devices.map GPUDevice.uuid) ∧ r = listed.restrict uuids := by
  rw [describeGPUs, foldl_takeListed hnodup]
  simp only [CheckedFold.guard_eq_ok, not_not, Except.ok.injEq, List.nil_append, List.mem_toFinset]
  rw [Finset.sdiff_eq_empty_iff_subset]
  constructor
  · rintro ⟨hsub, rfl⟩
    exact ⟨fun u hu => List.mem_toFinset.1 (hsub (List.mem_toFinset.2 hu)), rfl⟩
  · rintro ⟨hsub, rfl⟩
    exact ⟨fun u hu => List.mem_toFinset.2 (hsub u (List.mem_toFinset.1 hu)), rfl⟩

theorem noteAllocated_eq_ok (s : Finset Bytes) (u : Bytes) (s' : Finset Bytes) :
    noteAllocated s u = .ok s' ↔ (gpuUUIDPattern u = true ∧ u ∉ s) ∧ s' = insert u s := by
  rw [noteAllocated, CheckedFold.guard_eq_ok, CheckedFold.guard_eq_ok, Bool.not_eq_false, Except.ok.injEq, and_assoc,
    eq_comm (a := s')]

theorem noteVisible_eq_ok (allocated s : Finset Bytes) (u : Bytes) (s' : Finset Bytes) :
    noteVisible allocated s u = .ok s' ↔ ((gpuUUIDPattern u = true ∧ u ∈ allocated) ∧ u ∉ s) ∧ s' = insert u s := by
  rw [noteVisible, CheckedFold.guard_eq_ok, CheckedFold.guard_eq_ok, CheckedFold.guard_eq_ok, Bool.not_eq_false, not_not,
    Except.ok.injEq, eq_comm (a := s')]
  constructor
  · rintro ⟨hpattern, hseen, hallocated, heq⟩
    exact ⟨⟨⟨hpattern, hallocated⟩, hseen⟩, heq⟩
  · rintro ⟨⟨⟨hpattern, hallocated⟩, hseen⟩, heq⟩
    exact ⟨hpattern, hseen, hallocated, heq⟩

/-- DRA's allocation is accepted if it is, up to order, what the container sees. -/
theorem orderDRAUUIDsByRuntime_eq_ok {allocated visible r : List Bytes} :
    orderDRAUUIDsByRuntime allocated visible = .ok r
      ↔ allocated.length = visible.length ∧ ((∀ u ∈ allocated, gpuUUIDPattern u = true) ∧ allocated.Nodup)
        ∧ ((∀ u ∈ visible, gpuUUIDPattern u = true ∧ u ∈ allocated) ∧ visible.Nodup) ∧ r = visible := by
  simp only [orderDRAUUIDsByRuntime, CheckedFold.guard_eq_ok, CheckedFold.bind_eq_ok, not_not,
    CheckedFold.foldlM_collect_eq_ok noteAllocated_eq_ok, CheckedFold.foldlM_collect_eq_ok (noteVisible_eq_ok _),
    List.map_id', pure, Except.pure, Except.ok.injEq, ne_eq]
  constructor
  · rintro ⟨hlen, _, ⟨hallocated, rfl⟩, _, ⟨hvisible, rfl⟩, rfl⟩
    refine ⟨hlen, hallocated, ⟨fun u hu => ?_, hvisible.2⟩, rfl⟩
    exact ⟨(hvisible.1 u hu).1, List.mem_toFinset.1 (hvisible.1 u hu).2⟩
  · rintro ⟨hlen, hallocated, ⟨hvisible, hnodup⟩, rfl⟩
    refine ⟨hlen, _, ⟨hallocated, rfl⟩, _, ⟨⟨fun u hu => ?_, hnodup⟩, rfl⟩, rfl⟩
    exact ⟨(hvisible u hu).1, List.mem_toFinset.2 (hvisible u hu).2⟩

/-! ### Selections -/

/-- The UUID that a selection resolves to. -/
def selectedUUID (c : Container) (piece : Bytes) : Option Bytes :=
  match resolveSelection c piece with
  | .ok (device, _) => some device.uuid
  | .error _ => none

theorem addSelection_eq_ok {c : Container} {gpus r : GPUInfo} {piece : Bytes} : addSelection c gpus piece = .ok r
    ↔ ∃ device driverVersion, resolveSelection c piece = .ok (device, driverVersion)
      ∧ device.uuid ∉ gpus.devices.map GPUDevice.uuid ∧ r = ⟨driverVersion, gpus.devices ++ [device]⟩ := by
  rw [addSelection, CheckedFold.bind_eq_ok]
  constructor
  · rintro ⟨⟨device, driverVersion⟩, hresolve, hadd⟩
    rw [CheckedFold.guard_eq_ok, Except.ok.injEq] at hadd
    exact ⟨device, driverVersion, hresolve, hadd.1, hadd.2.symm⟩
  · rintro ⟨device, driverVersion, hresolve, hnew, rfl⟩
    exact ⟨(device, driverVersion), hresolve, if_neg hnew⟩

/-- What the selections resolve to, in their order, if they resolve to different GPUs. -/
theorem foldlM_addSelection {c : Container} {pieces : List Bytes} {gpus : GPUInfo} :
    (∀ r, pieces.foldlM (addSelection c) gpus = .ok r →
      r.devices.map GPUDevice.uuid = gpus.devices.map GPUDevice.uuid ++ pieces.filterMap (selectedUUID c))
    ∧ ((∃ r, pieces.foldlM (addSelection c) gpus = .ok r) ↔ (∀ p ∈ pieces, ∃ u, selectedUUID c p = some u)
      ∧ (pieces.filterMap (selectedUUID c)).Nodup
      ∧ ∀ u ∈ pieces.filterMap (selectedUUID c), u ∉ gpus.devices.map GPUDevice.uuid) := by
  induction pieces generalizing gpus with
  | nil =>
    constructor
    · intro r h
      cases h
      simp
    · simp [pure, Except.pure]
  | cons p pieces ih =>
    simp only [List.foldlM_cons, CheckedFold.bind_eq_ok, List.forall_mem_cons]
    match hp : resolveSelection c p with
    | .error e =>
      have hnone : selectedUUID c p = none := by rw [selectedUUID, hp]
      simp [addSelection_eq_ok, hp, hnone]
    | .ok (d, v) =>
      have hsome : selectedUUID c p = some d.uuid := by rw [selectedUUID, hp]
      have hstep : ∀ r, addSelection c gpus p = .ok r ↔ d.uuid ∉ gpus.devices.map GPUDevice.uuid
          ∧ r = ⟨v, gpus.devices ++ [d]⟩ := by
        intro r
        rw [addSelection_eq_ok, hp]
        constructor
        · rintro ⟨_, _, ⟨⟩, h⟩
          exact h
        · exact fun h => ⟨d, v, rfl, h⟩
      obtain ⟨hresult, hok⟩ := @ih ⟨v, gpus.devices ++ [d]⟩
      simp only [hstep, List.filterMap_cons, hsome]
      constructor
      · rintro r ⟨_, ⟨-, rfl⟩, hr⟩
        rw [hresult r hr]
        simp
      · constructor
        · rintro ⟨r, _, ⟨hnew, rfl⟩, hr⟩
          obtain ⟨hall, hnodup, hfresh⟩ := hok.1 ⟨r, hr⟩
          simp only [List.map_append, List.map_cons, List.map_nil, List.mem_append, List.mem_singleton, not_or] at hfresh
          refine ⟨⟨⟨_, rfl⟩, hall⟩, List.nodup_cons.2 ⟨fun h => (hfresh _ h).2 rfl, hnodup⟩, ?_⟩
          exact List.forall_mem_cons.2 ⟨hnew, fun u hu => (hfresh u hu).1⟩
        · rintro ⟨⟨-, hall⟩, hnodup, hfresh⟩
          rw [List.nodup_cons] at hnodup
          rw [List.forall_mem_cons] at hfresh
          obtain ⟨r, hr⟩ := hok.2 ⟨hall, hnodup.2, fun u hu => by
            simp only [List.map_append, List.map_cons, List.map_nil, List.mem_append, List.mem_singleton, not_or]
            exact ⟨hfresh.2 u hu, fun h => hnodup.1 (h ▸ hu)⟩⟩
          exact ⟨r, _, ⟨hfresh.1, rfl⟩, hr⟩

/-! ### Discovery -/

/-- The allocation list that discovery is given: by the environment, by DRA or by the kubelet. -/
def allocation (c : Container) : Option (List Bytes) :=
  let allocated := if c.hasNVIDIADRAAllocation then some c.draUUIDs
    else match c.podResources with
    | .ok uuids => if uuids = [] then none else some uuids
    | .error _ => none
  match visibleDevicesValue c.env with
  | none => allocated
  | some value =>
    if value = literal "all" then allocated
    else if value = [] ∨ value = literal "none" ∨ value = literal "void" then none
    else match resolveSelectedGPUs c value with
    | .ok selected => some (gpuUUIDs selected)
    | .error _ => none

/-- The container's listing: in bus order, without repetitions, with UUIDs that a device map can carry. -/
structure WellListed (c : Container) (listed : GPUInfo) : Prop where
  visible : c.visible = .ok ⟨listed, false⟩
  nodup : (listed.devices.map GPUDevice.uuid).Nodup
  plain : ∀ d ∈ listed.devices, d.uuid ≠ [] ∧ comma ∉ d.uuid ∧ equals ∉ d.uuid

theorem gpuUUIDs_eq {info : GPUInfo} (h : ∀ d ∈ info.devices, d.uuid ≠ []) :
    gpuUUIDs info = info.devices.map GPUDevice.uuid := by
  refine List.filter_eq_self.2 fun u hu => ?_
  obtain ⟨d, hd, rfl⟩ := List.mem_map.1 hu
  simpa using h d hd

theorem restrict_congr {listed : GPUInfo} {uuids uuids' : List Bytes} (h : ∀ u, u ∈ uuids ↔ u ∈ uuids') :
    listed.restrict uuids = listed.restrict uuids' := by
  simp only [GPUInfo.restrict, h]

section Discovered

variable {c : Container} {listed r : GPUInfo} (hlisted : WellListed c listed)
include hlisted

theorem listInBusOrder_eq : listInBusOrder c = .ok listed := by
  rw [listInBusOrder, hlisted.visible]
  rfl

theorem discoverAllocated_spec (h : discoverAllocated c = .ok r) :
    (c.hasNVIDIADRAAllocation = true → r = listed.restrict c.draUUIDs)
    ∧ (c.hasNVIDIADRAAllocation = false → ∃ uuids, c.podResources = .ok uuids
      ∧ r = if uuids = [] then listed else listed.restrict uuids) := by
  have hlist := listInBusOrder_eq hlisted
  have huuids := gpuUUIDs_eq fun d hd => (hlisted.plain d hd).1
  rw [discoverAllocated] at h
  split at h
  · cases h
  · rename_i hdra
    refine ⟨fun _ => ?_, fun hno => absurd hno (by simp [hdra])⟩
    rw [CheckedFold.guard_eq_ok] at h
    simp only [hlist, CheckedFold.bind_eq_ok, CheckedFold.mapError_eq_ok] at h
    obtain ⟨-, _, ⟨⟩, ordered, hordered, h⟩ := h
    obtain ⟨hlen, -, ⟨hvisible, hnodup⟩, rfl⟩ := orderDRAUUIDsByRuntime_eq_ok.1 hordered
    obtain ⟨-, rfl⟩ := (describeGPUs_eq_ok hlisted.nodup).1 h
    -- what the container sees is the whole allocation
    have hperm := (List.subperm_of_subset hnodup fun u hu => (hvisible u hu).2).perm_of_length_le (by rw [hlen])
    exact restrict_congr fun u => hperm.mem_iff
  · rename_i hdra
    refine ⟨fun hyes => absurd hyes (by simp [hdra]), fun _ => ?_⟩
    match hpod : c.podResources with
    | .error e =>
      rw [hpod] at h
      cases h
    | .ok uuids =>
      rw [hpod] at h
      refine ⟨uuids, rfl, ?_⟩
      by_cases hnil : uuids = []
      · simp only [hnil, ne_eq, not_true, if_false, hlist, CheckedFold.mapError_eq_ok, Except.ok.injEq] at h
        rw [if_pos hnil, h]
      · simp only [hnil, ne_eq, not_false_eq_true, if_true, hlist, CheckedFold.bind_eq_ok, CheckedFold.mapError_eq_ok] at h
        obtain ⟨_, ⟨⟩, h⟩ := h
        rw [if_neg hnil]
        exact ((describeGPUs_eq_ok hlisted.nodup).1 h).2

/-- Discovery returns the allocated part of the listing, or all of it where nothing was allocated by name. -/
theorem discoverGPUs_spec (h : discoverGPUs c = .ok r) :
    r = match allocation c with
      | some uuids => listed.restrict uuids
      | none => listed := by
  have hallocated : discoverAllocated c = .ok r → r = match (if c.hasNVIDIADRAAllocation then some c.draUUIDs
      else match c.podResources with
      | .ok uuids => if uuids = [] then none else some uuids
      | .error _ => none) with
      | some uuids => listed.restrict uuids
      | none => listed := by
    intro h
    obtain ⟨hdra, hpod⟩ := discoverAllocated_spec hlisted h
    by_cases hhas : c.hasNVIDIADRAAllocation = true
    · rw [if_pos hhas]
      exact hdra hhas
    · rw [if_neg hhas]
      obtain ⟨uuids, huuids, rfl⟩ := hpod (Bool.not_eq_true _ ▸ hhas)
      rw [huuids]
      by_cases hnil : uuids = []
      · simp [hnil]
      · simp [hnil]
  rw [discoverGPUs] at h
  rw [allocation]
  match hvalue : visibleDevicesValue c.env with
  | none =>
    rw [hvalue] at h
    exact hallocated h
  | some value =>
    rw [hvalue] at h
    simp only at h ⊢
    by_cases hall : value = literal "all"
    · rw [if_pos hall] at h ⊢
      exact hallocated h
    · rw [if_neg hall] at h ⊢
      by_cases hoff : value = [] ∨ value = literal "none" ∨ value = literal "void"
      · rw [if_pos hoff, listInBusOrder_eq hlisted] at h
        rw [if_pos hoff]
        exact (Except.ok.inj h).symm
      · rw [if_neg hoff] at h ⊢
        simp only [CheckedFold.bind_eq_ok, CheckedFold.mapError_eq_ok, listInBusOrder_eq hlisted] at h
        obtain ⟨selected, hselected, _, ⟨⟩, h⟩ := h
        rw [hselected]
        exact ((describeGPUs_eq_ok hlisted.nodup).1 h).2

end Discovered

/-! ### The order of the allocation -/

/-- The same container with its allocation list in another order. -/
inductive Reordered (c : Container) : Container → Prop
  | podResources (l l' : List Bytes) (h : c.podResources = .ok l) (hperm : l.Perm l') :
    Reordered c { c with podResources := .ok l' }
  | dra (l' : List Bytes) (hperm : c.draUUIDs.Perm l') : Reordered c { c with draUUIDs := l' }
  | environment (env' : List Bytes) (value value' : Bytes) (h : visibleDevicesValue c.env = some value)
    (h' : visibleDevicesValue env' = some value') (hperm : (value.splitOn comma).Perm (value'.splitOn comma)) :
    Reordered c { c with env := env' }

theorem reordered_symm {c c' : Container} (h : Reordered c c') : Reordered c' c := by
  cases h with
  | podResources l l' h hperm =>
    have := Reordered.podResources (c := { c with podResources := .ok l' }) l' l rfl hperm.symm
    rwa [← h] at this
  | dra l' hperm => exact Reordered.dra (c := { c with draUUIDs := l' }) c.draUUIDs hperm.symm
  | environment env' value value' h h' hperm =>
    exact Reordered.environment (c := { c with env := env' }) c.env value' value h' h hperm.symm

theorem describeGPUs_perm {uuids uuids' : List Bytes} (h : uuids.Perm uuids') (listed : GPUInfo) :
    describeGPUs uuids listed = describeGPUs uuids' listed := by
  rw [describeGPUs, describeGPUs, List.toFinset_eq_of_perm _ _ h]

theorem orderDRA_perm {l l' visible ordered : List Bytes} (hperm : l.Perm l')
    (h : orderDRAUUIDsByRuntime l visible = .ok ordered) : orderDRAUUIDsByRuntime l' visible = .ok ordered := by
  obtain ⟨hlen, ⟨hpattern, hnodup⟩, ⟨hvisible, hnodup'⟩, rfl⟩ := orderDRAUUIDsByRuntime_eq_ok.1 h
  refine orderDRAUUIDsByRuntime_eq_ok.2 ⟨hperm.length_eq ▸ hlen, ⟨?_, hperm.nodup_iff.1 hnodup⟩, ⟨?_, hnodup'⟩, rfl⟩
  · exact fun u hu => hpattern u (hperm.mem_iff.2 hu)
  · exact fun u hu => ⟨(hvisible u hu).1, hperm.mem_iff.1 (hvisible u hu).2⟩

/-- The same selections in another order resolve to the same GPUs. -/
theorem resolveSelectedGPUs_perm {c : Container} {value value' : Bytes} {selected : GPUInfo}
    (hperm : (value.splitOn comma).Perm (value'.splitOn comma)) (h : resolveSelectedGPUs c value = .ok selected) :
    ∃ selected', resolveSelectedGPUs c value' = .ok selected' ∧ (gpuUUIDs selected).Perm (gpuUUIDs selected') := by
  obtain ⟨hresult, hok⟩ := @foldlM_addSelection c (value.splitOn comma) ⟨[], []⟩
  obtain ⟨hresult', hok'⟩ := @foldlM_addSelection c (value'.splitOn comma) ⟨[], []⟩
  have huuids := hperm.filterMap (selectedUUID c)
  obtain ⟨hall, hnodup, -⟩ := hok.1 ⟨selected, h⟩
  obtain ⟨selected', h'⟩ := hok'.2 ⟨fun p hp => hall p (hperm.mem_iff.2 hp), huuids.nodup_iff.1 hnodup, by simp⟩
  refine ⟨selected', h', ?_⟩
  rw [gpuUUIDs, gpuUUIDs, hresult _ h, hresult' _ h']
  exact (huuids.append_left _).filter _

theorem splitOn_perm_eq {value value' : Bytes} (hvalue : comma ∉ value)
    (hperm : (value.splitOn comma).Perm (value'.splitOn comma)) : value' = value := by
  rw [List.splitOn_eq_singleton hvalue, List.singleton_perm] at hperm
  have hjoin : [comma].intercalate (value'.splitOn comma) = value' := List.intercalate_splitOn comma
  rw [← hjoin, ← hperm, List.intercalate_singleton]

theorem discoverGPUs_reordered {c c' : Container} {r : GPUInfo} (hreordered : Reordered c c')
    (h : discoverGPUs c = .ok r) : discoverGPUs c' = .ok r := by
  cases hreordered with
  | podResources l l' hl hperm =>
    have hnil : l = [] ↔ l' = [] := by
      rw [← List.length_eq_zero_iff, ← List.length_eq_zero_iff, hperm.length_eq]
    have hsame : discoverAllocated { c with podResources := .ok l' } = discoverAllocated c := by
      simp only [discoverAllocated, hl, hnil, describeGPUs_perm hperm, ne_eq]
      rfl
    rw [← h]
    simp only [discoverGPUs, hsame]
    rfl
  | dra l' hperm =>
    have hnil : c.draUUIDs = [] ↔ l' = [] := by
      rw [← List.length_eq_zero_iff, ← List.length_eq_zero_iff, hperm.length_eq]
    have hsame : ∀ r, discoverAllocated c = .ok r → discoverAllocated { c with draUUIDs := l' } = .ok r := by
      intro r h
      rw [discoverAllocated] at h ⊢
      split at h
      · cases h
      · rename_i herr hhas
        simp only [herr, hhas]
        rw [CheckedFold.guard_eq_ok] at h ⊢
        simp only [CheckedFold.bind_eq_ok] at h ⊢
        obtain ⟨hne, listed, hlisted, ordered, hordered, h⟩ := h
        exact ⟨fun hl => hne (hnil.2 hl), listed, hlisted, ordered, orderDRA_perm hperm hordered, h⟩
      · rename_i hhas
        simp only [hhas]
        exact h
    rw [discoverGPUs] at h ⊢
    match hvalue : visibleDevicesValue c.env with
    | none =>
      simp only [hvalue] at h ⊢
      exact hsame r h
    | some value =>
      simp only [hvalue] at h ⊢
      by_cases hall : value = literal "all"
      · rw [if_pos hall] at h ⊢
        exact hsame r h
      · rw [if_neg hall] at h ⊢
        exact h
  | environment env' value value' hvalue hvalue' hperm =>
    rw [discoverGPUs, hvalue] at h
    rw [discoverGPUs]
    simp only [hvalue']
    simp only at h
    -- the words that are no lists stand alone
    have hword : ∀ w : Bytes, comma ∉ w → (value = w ↔ value' = w) := by
      intro w hw
      constructor
      · rintro rfl
        exact splitOn_perm_eq hw hperm
      · rintro rfl
        exact splitOn_perm_eq hw hperm.symm
    simp only [← hword (literal "all") (by decide), ← hword [] (by decide), ← hword (literal "none") (by decide),
      ← hword (literal "void") (by decide)]
    by_cases hall : value = literal "all"
    · rw [if_pos hall] at h ⊢
      exact h
    · rw [if_neg hall] at h ⊢
      by_cases hoff : value = [] ∨ value = literal "none" ∨ value = literal "void"
      · rw [if_pos hoff] at h ⊢
        exact h
      · rw [if_neg hoff] at h ⊢
        simp only [CheckedFold.bind_eq_ok] at h ⊢
        obtain ⟨selected, hselected, listed, hlisted, h⟩ := h
        obtain ⟨selected', hselected', hsame⟩ := resolveSelectedGPUs_perm hperm hselected
        exact ⟨selected', hselected', listed, hlisted, by rwa [← describeGPUs_perm hsame]⟩

end GpuDiscovery
