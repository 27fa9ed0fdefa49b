import Mathlib.Algebra.Ring.Nat
import Mathlib.Data.Fintype.EquivFin
import Snapshot.ByteText
import Snapshot.CheckedFold

/-! # Saved GPU extents and the regions they are restored into

A checkpoint saves one extent for each GPU of a process, under the UUID of the GPU. A restore gets
regions from the driver and has to send each to the extent of its source GPU. UUIDs come in several
spellings and are compared by their canonical one, which stands for the 16 bytes. -/
namespace StorageManifest

open LexicalPath (Bytes)
open ByteText (literal)
open CheckedFold

/-! ## UUIDs -/

def dash : UInt8 := 45

def hexValue (c : UInt8) : Option UInt8 :=
  if 48 ≤ c ∧ c ≤ 57 then some (c - 48)
  else if 97 ≤ c ∧ c ≤ 102 then some (c - 87)
  else if 65 ≤ c ∧ c ≤ 70 then some (c - 55)
  else none

def hexByte (high low : UInt8) : Option UInt8 := do
  return 16 * (← hexValue high) + (← hexValue low)

/-- The places of the dashes in the text. -/
def dashes : List ℕ := [8, 13, 18, 23]

/-- The loop of `ParseGPUUUID`, with the number of bytes that are still to be read. -/
def parseBytes (value : Bytes) : ℕ → ℕ → Option (List UInt8)
  | 0, inputIndex => if inputIndex = value.length then some [] else none
  | n + 1, inputIndex => do
    let i := if inputIndex ∈ dashes then inputIndex + 1 else inputIndex
    let byte ← hexByte (← value[i]?) (← value[i + 1]?)
    return byte :: (← parseBytes value n (i + 2))

/-- A UUID without the type in front of it. -/
def parseText (value : Bytes) : Option (List UInt8) :=
  if value.length ≠ 36 ∨ ∃ i ∈ dashes, value[i]? ≠ some dash then none else parseBytes value 16 0

def parseGPUUUID (value : Bytes) : Option (List UInt8) :=
  if value.length = 40 then
    if literal "GPU-" <+: value then parseText (value.drop 4) else none
  else parseText value

def hexChar (d : UInt8) : UInt8 := (literal "0123456789abcdef").getD d.toNat 0

def formatBytes : ℕ → List UInt8 → Bytes
  | _, [] => []
  | index, byte :: bytes =>
    (if index ∈ [4, 6, 8, 10] then [dash] else []) ++ hexChar (byte >>> 4) :: hexChar (byte &&& 0x0f)
      :: formatBytes (index + 1) bytes

def formatGPUUUID (bytes : List UInt8) : Bytes := literal "GPU-" ++ formatBytes 0 bytes

def canonicalizeGPUUUID (value : Bytes) : Option Bytes := (parseGPUUUID value).map formatGPUUUID

theorem hexByte_hexChar (b : UInt8) : hexByte (hexChar (b >>> 4)) (hexChar (b &&& 0x0f)) = some b := by
  have hall : ∀ n : Fin 256, hexByte (hexChar (UInt8.ofNat n >>> 4)) (hexChar (UInt8.ofNat n &&& 0x0f)) =
      some (UInt8.ofNat n) := by decide +kernel
  simpa using hall ⟨b.toNat, b.toNat_lt⟩

theorem length_parseBytes {value : Bytes} {n i : ℕ} {bytes : List UInt8} (h : parseBytes value n i = some bytes) :
    bytes.length = n := by
  induction n generalizing i bytes with
  | zero =>
    rw [parseBytes] at h
    split at h
    · cases h
      rfl
    · cases h
  | succ n ih =>
    simp only [parseBytes, Option.bind_eq_bind, Option.bind_eq_some_iff] at h
    obtain ⟨_, _, _, _, _, _, rest, hrest, heq⟩ := h
    cases heq
    rw [List.length_cons, ih hrest]

theorem length_parseGPUUUID {value : Bytes} {bytes : List UInt8} (h : parseGPUUUID value = some bytes) :
    bytes.length = 16 := by
  have htext : ∀ {value}, parseText value = some bytes → bytes.length = 16 := by
    intro value h
    rw [parseText] at h
    split at h
    · cases h
    · exact length_parseBytes h
  rw [parseGPUUUID] at h
  split at h
  · split at h
    · exact htext h
    · cases h
  · exact htext h

theorem parseText_formatBytes : ∀ {bytes : List UInt8}, bytes.length = 16 → parseText (formatBytes 0 bytes) = some bytes
  | [_, _, _, _, _, _, _, _, _, _, _, _, _, _, _, _], _ => by
    simp [parseText, parseBytes, formatBytes, dashes, hexByte_hexChar, dash]

theorem length_formatBytes : ∀ {bytes : List UInt8}, bytes.length = 16 → (formatBytes 0 bytes).length = 36
  | [_, _, _, _, _, _, _, _, _, _, _, _, _, _, _, _], _ => rfl

/-- Reading the canonical spelling gives the bytes back. -/
theorem parseGPUUUID_formatGPUUUID {bytes : List UInt8} (h : bytes.length = 16) :
    parseGPUUUID (formatGPUUUID bytes) = some bytes := by
  have hlength : (formatGPUUUID bytes).length = 40 := by
    rw [formatGPUUUID, List.length_append, length_formatBytes h]
    rfl
  rw [parseGPUUUID, if_pos hlength, formatGPUUUID, if_pos (List.prefix_append _ _)]
  exact parseText_formatBytes h

/-- Two spellings have one canonical spelling exactly if they stand for the same bytes. -/
theorem canonicalizeGPUUUID_inj {u v : Bytes} :
    canonicalizeGPUUUID u = canonicalizeGPUUUID v ↔ parseGPUUUID u = parseGPUUUID v := by
  refine ⟨fun h => ?_, fun h => by rw [canonicalizeGPUUUID, h, canonicalizeGPUUUID]⟩
  rw [canonicalizeGPUUUID, canonicalizeGPUUUID] at h
  cases hu : parseGPUUUID u with
  | none =>
    rw [hu, Option.map_none] at h
    exact (Option.map_eq_none_iff.1 h.symm).symm
  | some a =>
    cases hv : parseGPUUUID v with
    | none => simp [hu, hv] at h
    | some b =>
      rw [hu, hv, Option.map_some, Option.map_some, Option.some.injEq] at h
      rw [← parseGPUUUID_formatGPUUUID (length_parseGPUUUID hu), h, parseGPUUUID_formatGPUUUID (length_parseGPUUUID hv)]

/-! ## Manifests -/

structure GpuDataFile where
  sourceUuid : Bytes
  size : ℕ
  filename : Bytes
  deriving DecidableEq, Repr

structure GpuDataRegion where
  uuid : Bytes
  size : ℕ
  deriving DecidableEq, Repr

structure DevicePair where
  sourceUuid : Bytes
  destinationUuid : Bytes
  deriving DecidableEq, Repr

structure TransferJob where
  deviceIndex : ℕ
  extentIndex : ℕ
  deriving DecidableEq, Repr

def kMaximumDeviceCount : ℕ := 1024

def deviceFilename (index : ℕ) : Bytes :=
  literal "device-" ++ ((Nat.toDigits 10 index).map fun c => UInt8.ofNat c.toNat).leftpad 4 48 ++ literal ".bin"

def normalizeExtent (extent : GpuDataFile) (index : ℕ) : Except String GpuDataFile :=
  match canonicalizeGPUUUID extent.sourceUuid with
  | none => .error "invalid source GPU UUID in GPU manifest"
  | some sourceUuid =>
    if extent.size = 0 then .error "zero-sized extent in GPU manifest"
    else if extent.filename ≠ deviceFilename index then
      .error "invalid deterministic extent filename in GPU manifest"
    else .ok { extent with sourceUuid }

/-- One round of the loop of `NormalizeManifest`; the UUIDs met before are those of the list. -/
def addExtent (normalized : List GpuDataFile) (entry : GpuDataFile × ℕ) : Except String (List GpuDataFile) := do
  let extent ← normalizeExtent entry.1 entry.2
  if extent.sourceUuid ∈ normalized.map (·.sourceUuid) then
    .error "duplicate source GPU UUID in GPU manifest"
  else .ok (normalized ++ [extent])

def normalizeManifest (extents : List GpuDataFile) : Except String (List GpuDataFile) :=
  if extents.length > kMaximumDeviceCount then .error "GPU manifest has too many device extents"
  else extents.zipIdx.foldlM addExtent []

/-- One round over the device map. The list holds both maps of the source. -/
def addPair (known : List DevicePair) (pair : DevicePair) : Except String (List DevicePair) :=
  match canonicalizeGPUUUID pair.sourceUuid, canonicalizeGPUUUID pair.destinationUuid with
  | some source, some destination =>
    if source ∈ known.map (·.sourceUuid) then .error "duplicate source GPU UUID in CUDA device map"
    else if destination ∈ known.map (·.destinationUuid) then
      .error "ambiguous destination GPU UUID in CUDA device map"
    else .ok (known ++ [⟨source, destination⟩])
  | _, _ => .error "invalid GPU UUID in CUDA device map"

/-- The GPU whose extent belongs to a destination. -/
def findSource (devicePairs known : List DevicePair) (destination : Bytes) : Except String Bytes :=
  if devicePairs = [] then .ok destination
  else
    match known.find? (·.destinationUuid = destination) with
    | none => .error "destination GPU UUID is missing from the CUDA device map"
    | some pair => .ok pair.sourceUuid

structure Placement where
  jobs : List TransferJob
  destinationUuids : List Bytes
  consumedExtents : List ℕ

/-- One round over the regions of the driver. -/
def placeRegion (normalized : List GpuDataFile) (devicePairs known : List DevicePair) (p : Placement)
    (device : GpuDataRegion × ℕ) : Except String Placement :=
  match canonicalizeGPUUUID device.1.uuid with
  | none => .error "CUDA returned an invalid destination GPU UUID"
  | some destination =>
    if destination ∈ p.destinationUuids then .error "CUDA returned duplicate destination GPU UUIDs"
    else if device.1.size = 0 then .error "CUDA returned a zero-sized custom storage extent"
    else do
      let source ← findSource devicePairs known destination
      match normalized.findIdx? (·.sourceUuid = source) with
      | none => .error "no saved extent matches the source GPU UUID"
      | some extentIndex =>
        if extentIndex ∈ p.consumedExtents then .error "saved source GPU extent was matched more than once"
        else if normalized[extentIndex]?.map (·.size) ≠ some device.1.size then
          .error "saved extent size does not match the source GPU UUID"
        else .ok ⟨p.jobs ++ [⟨device.2, extentIndex⟩], p.destinationUuids ++ [destination],
          p.consumedExtents ++ [extentIndex]⟩

def buildTransferJobs (extents : List GpuDataFile) (devices : List GpuDataRegion)
    (devicePairs : List DevicePair) : Except String (List TransferJob) := do
  let normalized ← normalizeManifest extents
  let known ← devicePairs.foldlM addPair []
  let placed ← devices.zipIdx.foldlM (placeRegion normalized devicePairs known) ⟨[], [], []⟩
  if placed.consumedExtents.length ≠ normalized.length then
    .error "one or more saved GPU extents were not consumed"
  else .ok placed.jobs

/-! ## What is accepted -/

/-- The text that stands for a valid UUID. -/
def canonical (u : Bytes) : Bytes := (canonicalizeGPUUUID u).getD []

theorem canonicalizeGPUUUID_eq_some {u s : Bytes} :
    canonicalizeGPUUUID u = some s ↔ (parseGPUUUID u).isSome ∧ s = canonical u := by
  rw [canonical, canonicalizeGPUUUID]
  cases parseGPUUUID u <;> simp [eq_comm]

theorem canonical_inj {u v : Bytes} (hu : (parseGPUUUID u).isSome) (hv : (parseGPUUUID v).isSome) :
    canonical u = canonical v ↔ parseGPUUUID u = parseGPUUUID v := by
  rw [← canonicalizeGPUUUID_inj, canonicalizeGPUUUID_eq_some.2 ⟨hu, rfl⟩, canonicalizeGPUUUID_eq_some.2 ⟨hv, rfl⟩,
    Option.some.injEq]

theorem parseGPUUUID_canonical {u : Bytes} (h : (parseGPUUUID u).isSome) :
    parseGPUUUID (canonical u) = parseGPUUUID u := by
  obtain ⟨bytes, hbytes⟩ := Option.isSome_iff_exists.1 h
  rw [canonical, canonicalizeGPUUUID, hbytes, Option.map_some, Option.getD_some,
    parseGPUUUID_formatGPUUUID (length_parseGPUUUID hbytes)]

/-- Distinct canonical spellings are distinct bytes. -/
theorem nodup_canonical {α : Type} {uuid : α → Bytes} {l : List α} (h : ∀ a ∈ l, (parseGPUUUID (uuid a)).isSome) :
    (l.map fun a => canonical (uuid a)).Nodup ↔ (l.map fun a => parseGPUUUID (uuid a)).Nodup := by
  simp only [List.Nodup, List.pairwise_map]
  constructor
  · intro hp
    exact hp.imp_of_mem fun ha hb hne => mt (canonical_inj (h _ ha) (h _ hb)).2 hne
  · intro hp
    exact hp.imp_of_mem fun ha hb hne => mt (canonical_inj (h _ ha) (h _ hb)).1 hne

/-- The extents form a manifest that can be normalized. -/
structure Saved (extents : List GpuDataFile) : Prop where
  bounded : extents.length ≤ kMaximumDeviceCount
  valid : ∀ e ∈ extents, (parseGPUUUID e.sourceUuid).isSome
  nonempty : ∀ e ∈ extents, e.size ≠ 0
  named : ∀ e i, extents[i]? = some e → e.filename = deviceFilename i
  distinct : (extents.map fun e => parseGPUUUID e.sourceUuid).Nodup

/-- The map is injective in both directions. -/
structure OneToOne (devicePairs : List DevicePair) : Prop where
  valid : ∀ p ∈ devicePairs, (parseGPUUUID p.sourceUuid).isSome ∧ (parseGPUUUID p.destinationUuid).isSome
  sources : (devicePairs.map fun p => parseGPUUUID p.sourceUuid).Nodup
  destinations : (devicePairs.map fun p => parseGPUUUID p.destinationUuid).Nodup

/-- The regions lie on distinct GPUs. -/
structure Placed (devices : List GpuDataRegion) : Prop where
  valid : ∀ d ∈ devices, (parseGPUUUID d.uuid).isSome
  nonempty : ∀ d ∈ devices, d.size ≠ 0
  distinct : (devices.map fun d => parseGPUUUID d.uuid).Nodup

/-- The extent of the source GPU of a region: that of its own GPU if there is no map, and otherwise
that of the GPU the map sends to it. -/
def SourceOf (devicePairs : List DevicePair) (d : GpuDataRegion) (e : GpuDataFile) : Prop :=
  (devicePairs = [] ∧ parseGPUUUID e.sourceUuid = parseGPUUUID d.uuid) ∨
    ∃ p ∈ devicePairs, parseGPUUUID p.destinationUuid = parseGPUUUID d.uuid ∧
      parseGPUUUID p.sourceUuid = parseGPUUUID e.sourceUuid

/-! ## The manifest -/

def GpuDataFile.normal (e : GpuDataFile) : GpuDataFile := { e with sourceUuid := canonical e.sourceUuid }

theorem addExtent_eq_ok {normalized normalized' : List GpuDataFile} {entry : GpuDataFile × ℕ} :
    addExtent normalized entry = .ok normalized' ↔
      (((parseGPUUUID entry.1.sourceUuid).isSome ∧ entry.1.size ≠ 0 ∧ entry.1.filename = deviceFilename entry.2) ∧
        canonical entry.1.sourceUuid ∉ normalized.map (·.sourceUuid)) ∧
      normalized' = normalized ++ [entry.1.normal] := by
  rw [addExtent, bind_eq_ok]
  constructor
  · intro ⟨e, he, h⟩
    rw [normalizeExtent] at he
    split at he
    · cases he
    rename_i s hs
    obtain ⟨hvalid, rfl⟩ := canonicalizeGPUUUID_eq_some.1 hs
    obtain ⟨hsize, he⟩ := guard_eq_ok.1 he
    obtain ⟨hname, he⟩ := guard_eq_ok.1 he
    cases he
    obtain ⟨hfresh, h⟩ := guard_eq_ok.1 h
    cases h
    exact ⟨⟨⟨hvalid, hsize, not_not.1 hname⟩, hfresh⟩, rfl⟩
  · intro ⟨⟨⟨hvalid, hsize, hname⟩, hfresh⟩, hnormal⟩
    refine ⟨entry.1.normal, ?_, ?_⟩
    · rw [normalizeExtent, canonicalizeGPUUUID_eq_some.2 ⟨hvalid, rfl⟩]
      exact guard_eq_ok.2 ⟨hsize, guard_eq_ok.2 ⟨not_not.2 hname, rfl⟩⟩
    · exact guard_eq_ok.2 ⟨hfresh, by rw [hnormal]⟩

theorem map_zipIdx_fst {α β : Type} (g : α → β) (l : List α) : l.zipIdx.map (fun a => g a.1) = l.map g := by
  conv_rhs => rw [← List.zipIdx_map_fst 0 l, List.map_map]
  rfl

/-- A manifest is accepted exactly if it is one, with its UUIDs in canonical spelling. -/
theorem normalizeManifest_eq_ok {extents normalized : List GpuDataFile} :
    normalizeManifest extents = .ok normalized ↔ Saved extents ∧ normalized = extents.map GpuDataFile.normal := by
  have hnormal : extents.zipIdx.foldl (fun l a => l ++ [a.1.normal]) [] = extents.map GpuDataFile.normal :=
    (foldl_extend (fun a : GpuDataFile × ℕ => a.1.normal) id (fun _ _ => rfl) [] _).trans (map_zipIdx_fst _ _)
  rw [normalizeManifest, guard_eq_ok, foldlM_eq_ok (fun _ _ _ => addExtent_eq_ok), admitted_and, admitted_const,
    admitted_fresh (fun a : GpuDataFile × ℕ => canonical a.1.sourceUuid) (fun l : List GpuDataFile =>
      l.map (·.sourceUuid)) (by simp [GpuDataFile.normal]) rfl, hnormal, ← and_assoc]
  refine and_congr_left fun _ => ?_
  rw [map_zipIdx_fst fun e : GpuDataFile => canonical e.sourceUuid]
  constructor
  · intro ⟨hbounded, hall, hfresh⟩
    have hentry : ∀ e i, extents[i]? = some e → (parseGPUUUID e.sourceUuid).isSome ∧ e.size ≠ 0 ∧
        e.filename = deviceFilename i := fun e i h => hall (e, i) (List.mem_zipIdx_iff_getElem?.2 h)
    have hvalid : ∀ e ∈ extents, (parseGPUUUID e.sourceUuid).isSome := by
      intro e he
      obtain ⟨i, hi⟩ := List.mem_iff_getElem?.1 he
      exact (hentry e i hi).1
    refine ⟨not_lt.1 hbounded, hvalid, ?_, fun e i h => (hentry e i h).2.2, (nodup_canonical hvalid).1 hfresh⟩
    intro e he
    obtain ⟨i, hi⟩ := List.mem_iff_getElem?.1 he
    exact (hentry e i hi).2.1
  · intro h
    refine ⟨not_lt.2 h.bounded, ?_, (nodup_canonical h.valid).2 h.distinct⟩
    intro a ha
    have ha' := List.mem_zipIdx_iff_getElem?.1 ha
    have hmem := List.mem_of_getElem? ha'
    exact ⟨h.valid _ hmem, h.nonempty _ hmem, h.named _ _ ha'⟩

/-! ## The device map -/

def DevicePair.normal (p : DevicePair) : DevicePair := ⟨canonical p.sourceUuid, canonical p.destinationUuid⟩

theorem addPair_eq_ok {known known' : List DevicePair} {pair : DevicePair} :
    addPair known pair = .ok known' ↔
      (((parseGPUUUID pair.sourceUuid).isSome ∧ (parseGPUUUID pair.destinationUuid).isSome) ∧
        canonical pair.sourceUuid ∉ known.map (·.sourceUuid) ∧
        canonical pair.destinationUuid ∉ known.map (·.destinationUuid)) ∧ known' = known ++ [pair.normal] := by
  rw [addPair]
  constructor
  · intro h
    split at h
    · rename_i s d hs hd
      obtain ⟨hsource, rfl⟩ := canonicalizeGPUUUID_eq_some.1 hs
      obtain ⟨hdestination, rfl⟩ := canonicalizeGPUUUID_eq_some.1 hd
      obtain ⟨hfresh, h⟩ := guard_eq_ok.1 h
      obtain ⟨hfresh', h⟩ := guard_eq_ok.1 h
      cases h
      exact ⟨⟨⟨hsource, hdestination⟩, hfresh, hfresh'⟩, rfl⟩
    · cases h
  · intro ⟨⟨⟨hsource, hdestination⟩, hfresh, hfresh'⟩, hknown⟩
    rw [canonicalizeGPUUUID_eq_some.2 ⟨hsource, rfl⟩, canonicalizeGPUUUID_eq_some.2 ⟨hdestination, rfl⟩]
    exact guard_eq_ok.2 ⟨hfresh, guard_eq_ok.2 ⟨hfresh', by rw [hknown]; rfl⟩⟩

theorem pairs_eq_ok {devicePairs known : List DevicePair} :
    devicePairs.foldlM addPair [] = .ok known ↔ OneToOne devicePairs ∧ known = devicePairs.map DevicePair.normal := by
  have hnormal : devicePairs.foldl (fun l p => l ++ [p.normal]) [] = devicePairs.map DevicePair.normal :=
    foldl_extend DevicePair.normal id (fun _ _ => rfl) [] _
  rw [foldlM_eq_ok (fun _ _ _ => addPair_eq_ok), hnormal, admitted_and, admitted_const, admitted_and,
    admitted_fresh (fun p : DevicePair => canonical p.sourceUuid) (fun l : List DevicePair => l.map (·.sourceUuid))
      (by simp [DevicePair.normal]) rfl,
    admitted_fresh (fun p : DevicePair => canonical p.destinationUuid)
      (fun l : List DevicePair => l.map (·.destinationUuid)) (by simp [DevicePair.normal]) rfl]
  refine and_congr_left fun _ => ?_
  constructor
  · intro ⟨hvalid, hsources, hdestinations⟩
    exact ⟨hvalid, (nodup_canonical fun p hp => (hvalid p hp).1).1 hsources,
      (nodup_canonical fun p hp => (hvalid p hp).2).1 hdestinations⟩
  · intro h
    exact ⟨h.valid, (nodup_canonical fun p hp => (h.valid p hp).1).2 h.sources,
      (nodup_canonical fun p hp => (h.valid p hp).2).2 h.destinations⟩

/-! ## The extent of a region -/

/-- The position of the extent that a region is sent to. -/
def extentOf (normalized : List GpuDataFile) (devicePairs known : List DevicePair) (d : GpuDataRegion) : Option ℕ :=
  (findSource devicePairs known (canonical d.uuid)).toOption.bind fun source =>
    normalized.findIdx? (·.sourceUuid = source)

theorem eq_of_nodup_map {α β : Type} {f : α → β} {l : List α} (h : (l.map f).Nodup) {i j : ℕ} {a b : α}
    (hi : l[i]? = some a) (hj : l[j]? = some b) (hab : f a = f b) : i = j := by
  have hlt : i < (l.map f).length := by simpa using (List.getElem?_eq_some_iff.1 hi).1
  apply (List.getElem?_inj hlt h).1
  rw [List.getElem?_map, List.getElem?_map, hi, hj, Option.map_some, Option.map_some, hab]

/-- Among entries with distinct keys, the search finds the one with a key. -/
theorem find?_key_eq_some {α κ : Type} [DecidableEq κ] {key : α → κ} {l : List α} (h : (l.map key).Nodup) {k : κ} {a : α} :
    l.find? (fun x => key x = k) = some a ↔ a ∈ l ∧ key a = k := by
  constructor
  · intro hfind
    exact ⟨List.mem_of_find?_eq_some hfind, by simpa using List.find?_some hfind⟩
  · intro ⟨ha, hkey⟩
    cases hfind : l.find? (fun x => key x = k) with
    | none =>
      have hnone := List.find?_eq_none.1 hfind a ha
      exact absurd hkey (by simpa using hnone)
    | some b =>
      have hb : key b = k := by simpa using List.find?_some hfind
      rw [List.inj_on_of_nodup_map h (List.mem_of_find?_eq_some hfind) ha (hb.trans hkey.symm)]

section Matching

variable {extents : List GpuDataFile} {devicePairs : List DevicePair} {d : GpuDataRegion}
  (hsaved : Saved extents) (hmap : OneToOne devicePairs) (hd : (parseGPUUUID d.uuid).isSome)
include hsaved hmap hd

omit hsaved in
/-- The source that the code looks up is the one the map gives. -/
theorem findSource_eq_ok {s : Bytes} :
    findSource devicePairs (devicePairs.map DevicePair.normal) (canonical d.uuid) = .ok s ↔
      (devicePairs = [] ∧ s = canonical d.uuid) ∨ ∃ p ∈ devicePairs,
        parseGPUUUID p.destinationUuid = parseGPUUUID d.uuid ∧ s = canonical p.sourceUuid := by
  have hnodup : ((devicePairs.map DevicePair.normal).map DevicePair.destinationUuid).Nodup := by
    rw [List.map_map]
    exact (nodup_canonical fun p hp => (hmap.valid p hp).2).2 hmap.destinations
  rw [findSource]
  by_cases hempty : devicePairs = []
  · simp [hempty, eq_comm]
  rw [if_neg hempty]
  simp only [hempty, false_and, false_or]
  constructor
  · intro h
    split at h
    · cases h
    · rename_i q hq
      cases h
      obtain ⟨hmem, hdest⟩ := (find?_key_eq_some hnodup).1 hq
      obtain ⟨p, hp, rfl⟩ := List.mem_map.1 hmem
      exact ⟨p, hp, (canonical_inj (hmap.valid p hp).2 hd).1 hdest, rfl⟩
  · intro ⟨p, hp, hdest, hs⟩
    have hfound := (find?_key_eq_some hnodup).2
      ⟨List.mem_map_of_mem hp, (canonical_inj (hmap.valid p hp).2 hd).2 hdest⟩
    rw [hfound, hs]
    rfl

theorem extentOf_eq_some {j : ℕ} :
    extentOf (extents.map GpuDataFile.normal) devicePairs (devicePairs.map DevicePair.normal) d = some j ↔
      ∃ e, extents[j]? = some e ∧ SourceOf devicePairs d e := by
  have hfind : ∀ u, (parseGPUUUID u).isSome →
      ((extents.map GpuDataFile.normal).findIdx? (·.sourceUuid = canonical u) = some j ↔
        ∃ e, extents[j]? = some e ∧ parseGPUUUID u = parseGPUUUID e.sourceUuid) := by
    intro u hu
    rw [List.findIdx?_eq_some_iff_getElem]
    constructor
    · intro ⟨hlt, hsame, _⟩
      rw [List.length_map] at hlt
      have hmem : extents[j] ∈ extents := List.getElem_mem hlt
      refine ⟨extents[j], List.getElem?_eq_getElem hlt, ?_⟩
      have hsame' : canonical extents[j].sourceUuid = canonical u := by simpa [GpuDataFile.normal] using hsame
      exact ((canonical_inj (hsaved.valid _ hmem) hu).1 hsame').symm
    · intro ⟨e, he, hsame⟩
      obtain ⟨hlt, hget⟩ := List.getElem?_eq_some_iff.1 he
      have hmem : e ∈ extents := List.mem_of_getElem? he
      refine ⟨by simpa using hlt, ?_, ?_⟩
      · simpa [GpuDataFile.normal, hget] using ((canonical_inj hu (hsaved.valid _ hmem)).2 hsame).symm
      · intro k hk hearlier
        have hklt : k < extents.length := hk.trans hlt
        have hearlier' : canonical extents[k].sourceUuid = canonical u := by
          simpa [GpuDataFile.normal] using hearlier
        have hbytes := (canonical_inj (hsaved.valid _ (List.getElem_mem hklt)) hu).1 hearlier'
        have hkj := eq_of_nodup_map hsaved.distinct (List.getElem?_eq_getElem hklt) he (hbytes.trans hsame)
        omega
  have hsource : ∀ s, (findSource devicePairs (devicePairs.map DevicePair.normal) (canonical d.uuid)).toOption = some s ↔
      findSource devicePairs (devicePairs.map DevicePair.normal) (canonical d.uuid) = .ok s := by
    intro s
    cases findSource devicePairs (devicePairs.map DevicePair.normal) (canonical d.uuid) <;> simp [Except.toOption]
  rw [extentOf, Option.bind_eq_some_iff]
  simp only [hsource, findSource_eq_ok hmap hd, SourceOf]
  constructor
  · intro ⟨s, hs, hidx⟩
    rcases hs with ⟨hempty, rfl⟩ | ⟨p, hp, hdest, rfl⟩
    · obtain ⟨e, he, hsame⟩ := (hfind _ hd).1 hidx
      exact ⟨e, he, .inl ⟨hempty, hsame.symm⟩⟩
    · obtain ⟨e, he, hsame⟩ := (hfind _ (hmap.valid p hp).1).1 hidx
      exact ⟨e, he, .inr ⟨p, hp, hdest, hsame⟩⟩
  · intro ⟨e, he, hof⟩
    rcases hof with ⟨hempty, hsame⟩ | ⟨p, hp, hdest, hsame⟩
    · exact ⟨_, .inl ⟨hempty, rfl⟩, (hfind _ hd).2 ⟨e, he, hsame.symm⟩⟩
    · exact ⟨_, .inr ⟨p, hp, hdest, rfl⟩, (hfind _ (hmap.valid p hp).1).2 ⟨e, he, hsame⟩⟩

end Matching

/-! ## The jobs -/

/-- The region is sent to the extent at a position. -/
def Placement.add (p : Placement) (device : GpuDataRegion × ℕ) (extentIndex : ℕ) : Placement :=
  ⟨p.jobs ++ [⟨device.2, extentIndex⟩], p.destinationUuids ++ [canonical device.1.uuid],
    p.consumedExtents ++ [extentIndex]⟩

theorem placeRegion_eq_ok {normalized : List GpuDataFile} {devicePairs known : List DevicePair} {p p' : Placement}
    {a : GpuDataRegion × ℕ} :
    placeRegion normalized devicePairs known p a = .ok p' ↔
      (((parseGPUUUID a.1.uuid).isSome ∧ a.1.size ≠ 0 ∧ ∃ j, extentOf normalized devicePairs known a.1 = some j ∧
          normalized[j]?.map (·.size) = some a.1.size) ∧
        canonical a.1.uuid ∉ p.destinationUuids ∧
        (extentOf normalized devicePairs known a.1).getD 0 ∉ p.consumedExtents) ∧
      p' = p.add a ((extentOf normalized devicePairs known a.1).getD 0) := by
  rw [placeRegion]
  constructor
  · intro h
    split at h
    · cases h
    rename_i s hs
    obtain ⟨hvalid, rfl⟩ := canonicalizeGPUUUID_eq_some.1 hs
    obtain ⟨hfresh, h⟩ := guard_eq_ok.1 h
    obtain ⟨hsize, h⟩ := guard_eq_ok.1 h
    obtain ⟨source, hsource, h⟩ := bind_eq_ok.1 h
    split at h
    · cases h
    rename_i j hj
    obtain ⟨hunused, h⟩ := guard_eq_ok.1 h
    obtain ⟨hequal, h⟩ := guard_eq_ok.1 h
    cases h
    have hextent : extentOf normalized devicePairs known a.1 = some j := by
      rw [extentOf, hsource]
      exact hj
    rw [hextent]
    exact ⟨⟨⟨hvalid, hsize, j, rfl, not_not.1 hequal⟩, hfresh, hunused⟩, rfl⟩
  · intro ⟨⟨⟨hvalid, hsize, j, hj, hequal⟩, hfresh, hunused⟩, hp'⟩
    rw [hj, Option.getD_some] at hunused hp'
    rw [canonicalizeGPUUUID_eq_some.2 ⟨hvalid, rfl⟩]
    refine guard_eq_ok.2 ⟨hfresh, guard_eq_ok.2 ⟨hsize, ?_⟩⟩
    rw [extentOf] at hj
    cases hsource : findSource devicePairs known (canonical a.1.uuid) with
    | error e =>
      rw [hsource] at hj
      cases hj
    | ok source =>
      rw [hsource] at hj
      have hj' : normalized.findIdx? (·.sourceUuid = source) = some j := hj
      refine bind_eq_ok.2 ⟨source, rfl, ?_⟩
      rw [hj']
      exact guard_eq_ok.2 ⟨hunused, guard_eq_ok.2 ⟨not_not.2 hequal, by rw [hp']; rfl⟩⟩

/-- The regions are all placed exactly if each has an extent of its size and no GPU and no extent is
met twice. -/
theorem regions_eq_ok {normalized : List GpuDataFile} {devicePairs known : List DevicePair}
    {devices : List GpuDataRegion} {p : Placement} :
    devices.zipIdx.foldlM (placeRegion normalized devicePairs known) ⟨[], [], []⟩ = .ok p ↔
      Placed devices ∧ (∀ d ∈ devices, ∃ j, extentOf normalized devicePairs known d = some j ∧
        normalized[j]?.map (·.size) = some d.size) ∧
      (devices.map fun d => (extentOf normalized devicePairs known d).getD 0).Nodup ∧
      p = devices.zipIdx.foldl (fun p a => p.add a ((extentOf normalized devicePairs known a.1).getD 0)) ⟨[], [], []⟩ := by
  rw [foldlM_eq_ok (fun _ _ _ => placeRegion_eq_ok), admitted_and, admitted_const, admitted_and,
    admitted_fresh (fun a : GpuDataRegion × ℕ => canonical a.1.uuid) Placement.destinationUuids (fun _ _ => rfl) rfl,
    admitted_fresh (fun a : GpuDataRegion × ℕ => (extentOf normalized devicePairs known a.1).getD 0)
      Placement.consumedExtents (fun _ _ => rfl) rfl, ← and_assoc, ← and_assoc, ← and_assoc]
  refine and_congr_left fun _ => ?_
  rw [map_zipIdx_fst fun d : GpuDataRegion => canonical d.uuid, map_zipIdx_fst fun d : GpuDataRegion =>
    (extentOf normalized devicePairs known d).getD 0]
  refine and_congr_left fun _ => ?_
  have hall : ∀ Q : GpuDataRegion → Prop, (∀ a ∈ devices.zipIdx, Q a.1) ↔ ∀ d ∈ devices, Q d := by
    intro Q
    conv_rhs => rw [← List.zipIdx_map_fst 0 devices, List.forall_mem_map]
  rw [hall fun d => (parseGPUUUID d.uuid).isSome ∧ d.size ≠ 0 ∧ ∃ j, extentOf normalized devicePairs known d = some j ∧
    normalized[j]?.map (·.size) = some d.size]
  constructor
  · intro ⟨h, hfresh⟩
    have hvalid : ∀ d ∈ devices, (parseGPUUUID d.uuid).isSome := fun d hd => (h d hd).1
    exact ⟨⟨hvalid, fun d hd => (h d hd).2.1, (nodup_canonical hvalid).1 hfresh⟩, fun d hd => (h d hd).2.2⟩
  · intro ⟨hplaced, h⟩
    exact ⟨fun d hd => ⟨hplaced.valid d hd, hplaced.nonempty d hd, h d hd⟩, (nodup_canonical hplaced.valid).2 hplaced.distinct⟩

/-- A matching sends each region to the extent of its source GPU, which has its size. -/
def Matches (extents : List GpuDataFile) (devices : List GpuDataRegion) (devicePairs : List DevicePair)
    (f : Fin devices.length ≃ Fin extents.length) : Prop :=
  ∀ i, SourceOf devicePairs devices[i] extents[f i] ∧ extents[f i].size = devices[i].size

section Jobs

variable {extents : List GpuDataFile} {devices : List GpuDataRegion} {devicePairs : List DevicePair}

/-- The position that the code finds for each region. -/
def position (extents : List GpuDataFile) (devicePairs : List DevicePair) (d : GpuDataRegion) : ℕ :=
  (extentOf (extents.map GpuDataFile.normal) devicePairs (devicePairs.map DevicePair.normal) d).getD 0

/-- All regions placed at their positions. -/
def placements (extents : List GpuDataFile) (devices : List GpuDataRegion) (devicePairs : List DevicePair) : Placement :=
  devices.zipIdx.foldl (fun p a => p.add a (position extents devicePairs a.1)) ⟨[], [], []⟩

theorem jobs_placements : (placements extents devices devicePairs).jobs =
    devices.zipIdx.map fun a => ⟨a.2, position extents devicePairs a.1⟩ :=
  foldl_extend (fun a : GpuDataRegion × ℕ => TransferJob.mk a.2 (position extents devicePairs a.1))
    Placement.jobs (fun _ _ => rfl) _ _

theorem length_consumedExtents_placements :
    (placements extents devices devicePairs).consumedExtents.length = devices.length := by
  have h := foldl_extend (fun a : GpuDataRegion × ℕ => position extents devicePairs a.1)
    Placement.consumedExtents (fun p a => rfl : ∀ (p : Placement) a, (p.add a _).consumedExtents = _) ⟨[], [], []⟩
    devices.zipIdx
  rw [placements, h, List.nil_append, List.length_map, List.length_zipIdx]

theorem buildTransferJobs_eq_ok_iff {jobs : List TransferJob} :
    buildTransferJobs extents devices devicePairs = .ok jobs ↔ Saved extents ∧ OneToOne devicePairs ∧ Placed devices ∧
      (∀ d ∈ devices, ∃ j, extentOf (extents.map GpuDataFile.normal) devicePairs (devicePairs.map DevicePair.normal) d =
        some j ∧ extents[j]?.map GpuDataFile.size = some d.size) ∧
      (devices.map (position extents devicePairs)).Nodup ∧ devices.length = extents.length ∧
      jobs = devices.zipIdx.map fun a => ⟨a.2, position extents devicePairs a.1⟩ := by
  have hsize : ∀ j : ℕ, (extents.map GpuDataFile.normal)[j]?.map GpuDataFile.size = extents[j]?.map GpuDataFile.size := by
    intro j
    rw [List.getElem?_map, Option.map_map]
    rfl
  simp only [buildTransferJobs, bind_eq_ok, normalizeManifest_eq_ok, pairs_eq_ok, regions_eq_ok, guard_eq_ok, not_not]
  constructor
  · intro ⟨_, ⟨hsaved, rfl⟩, _, ⟨hmap, rfl⟩, p, ⟨hplaced, hall, hnodup, hp⟩, hlength, h⟩
    have hp' : p = placements extents devices devicePairs := hp
    rw [hp', length_consumedExtents_placements, List.length_map] at hlength
    rw [hp', jobs_placements, Except.ok.injEq] at h
    exact ⟨hsaved, hmap, hplaced, fun d hd => by simpa only [hsize] using hall d hd, hnodup, hlength, h.symm⟩
  · intro ⟨hsaved, hmap, hplaced, hall, hnodup, hlength, hjobs⟩
    refine ⟨_, ⟨hsaved, rfl⟩, _, ⟨hmap, rfl⟩, placements extents devices devicePairs,
      ⟨hplaced, fun d hd => by simpa only [hsize] using hall d hd, hnodup, rfl⟩, ?_, ?_⟩
    · rw [length_consumedExtents_placements, List.length_map, hlength]
    · rw [jobs_placements, hjobs]

/-- `BuildTransferJobs` succeeds exactly if the regions are matched with the extents, and its jobs are
the matching in the order of the regions. -/
theorem buildTransferJobs_eq_ok {jobs : List TransferJob} :
    buildTransferJobs extents devices devicePairs = .ok jobs ↔ Saved extents ∧ OneToOne devicePairs ∧ Placed devices ∧
      ∃ f : Fin devices.length ≃ Fin extents.length, Matches extents devices devicePairs f ∧
        jobs = List.ofFn fun i => ⟨i, f i⟩ := by
  rw [buildTransferJobs_eq_ok_iff]
  refine and_congr_right fun hsaved => and_congr_right fun hmap => and_congr_right fun hplaced => ?_
  have hextent : ∀ i : Fin devices.length, ∀ j, extentOf (extents.map GpuDataFile.normal) devicePairs
      (devicePairs.map DevicePair.normal) devices[i] = some j ↔
        ∃ e, extents[j]? = some e ∧ SourceOf devicePairs devices[i] e :=
    fun i j => extentOf_eq_some hsaved hmap (hplaced.valid _ (List.getElem_mem _))
  constructor
  · intro ⟨hall, hnodup, hlength, hjobs⟩
    have hfound : ∀ i : Fin devices.length, ∃ h : position extents devicePairs devices[i] < extents.length,
        SourceOf devicePairs devices[i] extents[position extents devicePairs devices[i]] ∧
          extents[position extents devicePairs devices[i]].size = devices[i].size := by
      intro i
      obtain ⟨j, hj, hequal⟩ := hall devices[i] (List.getElem_mem _)
      obtain ⟨e, he, hof⟩ := (hextent i j).1 hj
      obtain ⟨hlt, hget⟩ := List.getElem?_eq_some_iff.1 he
      have hposition : position extents devicePairs devices[i] = j := by rw [position, hj, Option.getD_some]
      simp only [hposition]
      rw [he, Option.map_some, Option.some.injEq] at hequal
      exact ⟨hlt, hget ▸ hof, hget ▸ hequal⟩
    let f : Fin devices.length → Fin extents.length := fun i => ⟨position extents devicePairs devices[i], (hfound i).1⟩
    have hinjective : Function.Injective f := by
      intro i j hij
      have hsame : position extents devicePairs devices[i] = position extents devicePairs devices[j] :=
        congrArg Fin.val hij
      exact Fin.ext (eq_of_nodup_map hnodup (List.getElem?_eq_getElem i.2) (List.getElem?_eq_getElem j.2) hsame)
    have hbijective : Function.Bijective f :=
      (Fintype.bijective_iff_injective_and_card f).2 ⟨hinjective, by simpa using hlength⟩
    refine ⟨Equiv.ofBijective f hbijective, fun i => (hfound i).2, ?_⟩
    rw [hjobs]
    apply List.ext_getElem
    · simp
    · intro i hi hi'
      simp [f]
  · intro ⟨f, hf, hjobs⟩
    have hfound : ∀ i : Fin devices.length, extentOf (extents.map GpuDataFile.normal) devicePairs
        (devicePairs.map DevicePair.normal) devices[i] = some (f i).val :=
      fun i => (hextent i (f i)).2 ⟨extents[f i], List.getElem?_eq_getElem (f i).2, (hf i).1⟩
    have hposition : ∀ i : Fin devices.length, position extents devicePairs devices[i] = f i := by
      intro i
      rw [position, hfound i, Option.getD_some]
    refine ⟨?_, ?_, ?_, ?_⟩
    · intro d hd
      obtain ⟨i, hi, rfl⟩ := List.getElem_of_mem hd
      refine ⟨_, hfound ⟨i, hi⟩, ?_⟩
      rw [List.getElem?_eq_getElem (f ⟨i, hi⟩).2, Option.map_some]
      exact congrArg some (hf ⟨i, hi⟩).2
    · rw [List.nodup_iff_injective_getElem]
      intro i j hij
      have hi : (i : ℕ) < devices.length := by simpa using i.2
      have hj : (j : ℕ) < devices.length := by simpa using j.2
      have hsame : f ⟨i, hi⟩ = f ⟨j, hj⟩ := by
        apply Fin.ext
        rw [← hposition, ← hposition]
        simpa using hij
      have hval := congrArg Fin.val (f.injective hsame)
      exact Fin.ext hval
    · simpa using Fintype.card_congr f
    · rw [hjobs]
      apply List.ext_getElem
      · simp
      · intro i hi hi'
        simp only [List.length_ofFn] at hi
        simpa using (hposition ⟨i, hi⟩).symm

end Jobs

/-! ## Spellings -/

/-- The same bytes. -/
def SameUUID (u v : Bytes) : Prop := parseGPUUUID u = parseGPUUUID v

instance (u v : Bytes) : Decidable (SameUUID u v) := inferInstanceAs (Decidable (_ = _))

def SameExtent (e e' : GpuDataFile) : Prop :=
  SameUUID e.sourceUuid e'.sourceUuid ∧ e.size = e'.size ∧ e.filename = e'.filename

def SameRegion (d d' : GpuDataRegion) : Prop := SameUUID d.uuid d'.uuid ∧ d.size = d'.size

def SamePair (p p' : DevicePair) : Prop :=
  SameUUID p.sourceUuid p'.sourceUuid ∧ SameUUID p.destinationUuid p'.destinationUuid

section Spellings

variable {extents extents' : List GpuDataFile} {devices devices' : List GpuDataRegion}
  {devicePairs devicePairs' : List DevicePair}

theorem normalizeManifest_congr (h : List.Forall₂ SameExtent extents extents') :
    normalizeManifest extents = normalizeManifest extents' := by
  have hentry : ∀ l (a a' : GpuDataFile × ℕ), SameExtent a.1 a'.1 ∧ a.2 = a'.2 → addExtent l a = addExtent l a' := by
    intro l a a' ⟨⟨huuid, hsize, hname⟩, hindex⟩
    simp only [addExtent, normalizeExtent, canonicalizeGPUUUID_inj.2 huuid, hsize, hname, hindex]
  rw [normalizeManifest, normalizeManifest, h.length_eq, foldlM_congr hentry (forall₂_zipIdx h 0)]

theorem pairs_congr (h : List.Forall₂ SamePair devicePairs devicePairs') :
    devicePairs.foldlM addPair [] = devicePairs'.foldlM addPair [] := by
  have hpair : ∀ l p p', SamePair p p' → addPair l p = addPair l p' := by
    intro l p p' ⟨hsource, hdestination⟩
    simp only [addPair, canonicalizeGPUUUID_inj.2 hsource, canonicalizeGPUUUID_inj.2 hdestination]
  exact foldlM_congr hpair h []

theorem regions_congr (normalized : List GpuDataFile) (known : List DevicePair)
    (hdevices : List.Forall₂ SameRegion devices devices') (hpairs : List.Forall₂ SamePair devicePairs devicePairs')
    (p : Placement) : devices.zipIdx.foldlM (placeRegion normalized devicePairs known) p =
      devices'.zipIdx.foldlM (placeRegion normalized devicePairs' known) p := by
  have hempty : devicePairs = [] ↔ devicePairs' = [] := by
    rw [← List.length_eq_zero_iff, ← List.length_eq_zero_iff, hpairs.length_eq]
  have hsource : findSource devicePairs known = findSource devicePairs' known := by
    funext destination
    simp only [findSource, hempty]
  have hregion : placeRegion normalized devicePairs known = placeRegion normalized devicePairs' known := by
    funext p device
    simp only [placeRegion, hsource]
  have hdevice : ∀ p (a a' : GpuDataRegion × ℕ), SameRegion a.1 a'.1 ∧ a.2 = a'.2 →
      placeRegion normalized devicePairs' known p a = placeRegion normalized devicePairs' known p a' := by
    intro p a a' ⟨⟨huuid, hsize⟩, hindex⟩
    simp only [placeRegion, canonicalizeGPUUUID_inj.2 huuid, hsize, hindex]
  rw [hregion, foldlM_congr hdevice (forall₂_zipIdx hdevices 0)]

theorem buildTransferJobs_congr (hextents : List.Forall₂ SameExtent extents extents')
    (hdevices : List.Forall₂ SameRegion devices devices') (hpairs : List.Forall₂ SamePair devicePairs devicePairs') :
    buildTransferJobs extents devices devicePairs = buildTransferJobs extents' devices' devicePairs' := by
  rw [buildTransferJobs, buildTransferJobs, normalizeManifest_congr hextents, pairs_congr hpairs]
  simp only [regions_congr _ _ hdevices hpairs]

end Spellings

/-- The jobs are exactly the matching of the regions with the extents of their source GPUs, whatever
the spelling of the UUIDs. -/
theorem buildTransferJobs_matching (extents : List GpuDataFile) (devices : List GpuDataRegion)
    (devicePairs : List DevicePair) :
    (∀ jobs, buildTransferJobs extents devices devicePairs = .ok jobs ↔
      Saved extents ∧ OneToOne devicePairs ∧ Placed devices ∧
        ∃ f : Fin devices.length ≃ Fin extents.length, Matches extents devices devicePairs f ∧
          jobs = List.ofFn fun i => ⟨i, f i⟩) ∧
    ∀ extents' devices' devicePairs', List.Forall₂ SameExtent extents extents' →
      List.Forall₂ SameRegion devices devices' → List.Forall₂ SamePair devicePairs devicePairs' →
        buildTransferJobs extents devices devicePairs = buildTransferJobs extents' devices' devicePairs' :=
  ⟨fun _ => buildTransferJobs_eq_ok, fun _ _ _ => buildTransferJobs_congr⟩

end StorageManifest
