import Snapshot.StorageManifest
import Snapshot.WordText

/-! `WriteManifest` and `ReadManifest` of `agent/pagebroker/gpu/storage_manifest.cpp`: the saved extents as
a text of words in a file that is written once and read back. Every call may be interrupted, move a part of
the bytes or fail. -/
namespace StorageManifest

open LexicalPath (Bytes)
open ByteText (literal)
open CheckedFold WordText

def kMaximumManifestSize : ℕ := 256 * 1024

/-- The largest value of `size_t` and of `unsigned int`. -/
def maxSize : ℕ := 2 ^ 64 - 1
def maxUnsigned : ℕ := 2 ^ 32 - 1

/-! ## The text -/

def space : UInt8 := 32
def newline : UInt8 := 10

def deviceLine (index : ℕ) (extent : GpuDataFile) : Bytes :=
  literal "device" ++ space :: (decimal index ++ space :: (extent.sourceUuid ++ space ::
    (decimal extent.size ++ space :: (extent.filename ++ [newline]))))

/-- The lines of the extents, from an index on. -/
def deviceLines : ℕ → List GpuDataFile → Bytes
  | _, [] => []
  | index, extent :: extents => deviceLine index extent ++ deviceLines (index + 1) extents

def serialize (normalized : List GpuDataFile) : Bytes :=
  literal "version" ++ space :: (literal "4" ++ newline :: (literal "device_count" ++ space ::
    (decimal normalized.length ++ newline :: deviceLines 0 normalized)))

/-- `input >> word`, for as many words as are asked for. -/
def readWords : ℕ → Bytes → Option (List Bytes × Bytes)
  | 0, input => some ([], input)
  | n + 1, input => do
    let (word, input) ← readWord input
    let (words, input) ← readWords n input
    return (word :: words, input)

/-- Each of the three parsers returns what is left of the input. -/
def parseVersionHeader (input : Bytes) : Except String Bytes :=
  match readWords 2 input with
  | some ([key, versionText], input) =>
    match parseUnsigned maxUnsigned versionText with
    | some version =>
      if key ≠ literal "version" then .error "invalid GPU manifest version header"
      else if version ≠ 4 then .error "unsupported GPU manifest version"
      else .ok input
    | none => .error "invalid GPU manifest version header"
  | _ => .error "invalid GPU manifest version header"

def parseDeviceCount (input : Bytes) : Except String (ℕ × Bytes) :=
  match readWords 2 input with
  | some ([key, countText], input) =>
    match parseUnsigned maxSize countText with
    | some count =>
      if key ≠ literal "device_count" ∨ count > kMaximumDeviceCount then
        .error "invalid GPU manifest device count"
      else .ok (count, input)
    | none => .error "invalid GPU manifest device count"
  | _ => .error "invalid GPU manifest device count"

def parseDeviceEntry (input : Bytes) (expectedIndex : ℕ) : Except String (GpuDataFile × Bytes) :=
  match readWords 5 input with
  | some ([key, indexText, sourceUuid, sizeText, filename], input) =>
    match parseUnsigned maxSize indexText, parseUnsigned maxSize sizeText with
    | some index, some size =>
      if key ≠ literal "device" ∨ index ≠ expectedIndex then .error "invalid GPU manifest device entry"
      else if canonicalizeGPUUUID sourceUuid ≠ some sourceUuid then
        .error "GPU manifest source GPU UUID is not canonical"
      else .ok (⟨sourceUuid, size, filename⟩, input)
    | _, _ => .error "invalid GPU manifest device entry"
  | _ => .error "invalid GPU manifest device entry"

/-- The loop over the entries, with the number of those that are left. -/
def parseDeviceEntries : ℕ → ℕ → Bytes → Except String (List GpuDataFile × Bytes)
  | 0, _, input => .ok ([], input)
  | n + 1, expectedIndex, input => do
    let (extent, input) ← parseDeviceEntry input expectedIndex
    let (extents, input) ← parseDeviceEntries n (expectedIndex + 1) input
    return (extent :: extents, input)

def parseManifest (contents : Bytes) : Except String (List GpuDataFile) := do
  let input ← parseVersionHeader contents
  let (count, input) ← parseDeviceCount input
  let (parsed, input) ← parseDeviceEntries count 0 input
  if (readWord input).isSome then .error "unexpected GPU manifest data"
  else normalizeManifest parsed

/-! ## The file -/

/-- The answer of one `read` or `write`; a failure comes with the text of its `errno`. -/
inductive Transfer where
  | interrupted
  | failed (error : String)
  | moved (bytes : ℕ)
  deriving DecidableEq, Repr

/-- `WriteAll`, with what is left to write and what the file holds; no result is a call that still waits
for an answer. -/
def writeAll : List Transfer → Bytes → Bytes → Option (Except String Unit × Bytes)
  | _, [], file => some (.ok (), file)
  | [], _ :: _, _ => none
  | .interrupted :: answers, contents@(_ :: _), file => writeAll answers contents file
  | .failed error :: _, _ :: _, file => some (.error error, file)
  | .moved 0 :: _, _ :: _, file => some (.error "Input/output error", file)
  | .moved (n + 1) :: answers, contents@(_ :: _), file =>
    writeAll answers (contents.drop (n + 1)) (file ++ contents.take (n + 1))

/-- The calls that `WriteManifest` makes around `WriteAll`: each with its error, if it fails. -/
structure WriteCalls where
  create : Option String := none
  writes : List Transfer
  sync : Option String := none
  openDirectory : Option String := none
  syncDirectory : Option String := none

/-- The result, and the file that the directory holds then. -/
def writeManifest (calls : WriteCalls) (file : Option Bytes) (extents : List GpuDataFile) :
    Option (Except String Unit × Option Bytes) :=
  match normalizeManifest extents with
  | .error error => some (.error error, file)
  | .ok normalized =>
    match file, calls.create with
    | some file, _ => some (.error "create GPU storage manifest: File exists", some file)
    | none, some error => some (.error ("create GPU storage manifest: " ++ error), none)
    | none, none => (writeAll calls.writes (serialize normalized) []).map fun (written, file) =>
      match written, calls.sync, calls.openDirectory, calls.syncDirectory with
      | .error error, _, _, _ => (.error ("write GPU storage manifest: " ++ error), some file)
      | .ok _, some error, _, _ => (.error ("write GPU storage manifest: " ++ error), some file)
      | .ok _, none, some error, _ => (.error ("open GPU directory for fsync: " ++ error), some file)
      | .ok _, none, none, some error => (.error ("fsync GPU directory: " ++ error), some file)
      | .ok _, none, none, none => (.ok (), some file)

/-- The loop that reads `st_size` bytes, with what is left of the file and of the bytes. -/
def readAll : List Transfer → Bytes → ℕ → Bytes → Option (Except String Bytes × List Transfer)
  | answers, _, 0, contents => some (.ok contents, answers)
  | [], _, _ + 1, _ => none
  | .interrupted :: answers, file, size + 1, contents => readAll answers file (size + 1) contents
  | .failed error :: answers, _, _ + 1, _ => some (.error ("read GPU manifest: " ++ error), answers)
  | .moved n :: answers, file, size + 1, contents =>
    let bytes := file.take (min n (size + 1))
    if bytes = [] then some (.error "read GPU manifest: unexpected end of file", answers)
    else readAll answers (file.drop bytes.length) (size + 1 - bytes.length) (contents ++ bytes)

/-- The read of one byte behind the last one. -/
def readTrailing : List Transfer → Bytes → Option (Except String Unit)
  | [], _ => none
  | .interrupted :: answers, file => readTrailing answers file
  | .failed error :: _, _ => some (.error ("read GPU manifest: " ++ error))
  | .moved n :: _, file =>
    if file.take (min n 1) = [] then some (.ok ()) else some (.error "GPU manifest changed while being read")

/-- What `open` and `fstat` find, and the answers of the reads. -/
structure ReadCalls where
  openError : Option String := none
  statFails : Bool := false
  reads : List Transfer

def readManifestContents (calls : ReadCalls) (file : Option Bytes) : Option (Except String Bytes) :=
  match file, calls.openError with
  | _, some error => some (.error ("open GPU manifest: " ++ error))
  | none, none => some (.error "open GPU manifest: No such file or directory")
  | some file, none =>
    if calls.statFails ∨ file.length > kMaximumManifestSize then
      some (.error "GPU manifest is not a bounded regular file")
    else do
      let (contents, answers) ← readAll calls.reads file file.length []
      match contents with
      | .error error => some (.error error)
      | .ok contents => do
        let trailing ← readTrailing answers (file.drop contents.length)
        some (trailing.map fun _ => contents)

def readManifest (calls : ReadCalls) (file : Option Bytes) : Option (Except String (List GpuDataFile)) :=
  (readManifestContents calls file).map fun contents => contents >>= parseManifest

/-! ## Words of the text -/

section Words

variable {word rest : Bytes} {c : UInt8} {n : ℕ}

theorem readWords_append (h : Word word) (hc : isSpace c = true) : readWords (n + 1) (word ++ c :: rest) =
    (readWords n (c :: rest)).map fun r => (word :: r.1, r.2) := by
  simp only [readWords, readWord_append h hc, Option.bind_eq_bind, Option.bind_some]
  cases readWords n (c :: rest) <;> rfl

theorem readWords_blank (hc : isSpace c = true) : readWords (n + 1) (c :: rest) = readWords (n + 1) rest := by
  simp only [readWords, readWord_blank hc]

theorem isSpace_space : isSpace space = true := rfl
theorem isSpace_newline : isSpace newline = true := rfl

theorem word_formatGPUUUID (bytes : List UInt8) : Word (formatGPUUUID bytes) := by
  have hhex : ∀ b : UInt8, isSpace (hexChar (b >>> 4)) = false ∧ isSpace (hexChar (b &&& 0x0f)) = false := by
    intro b
    have hall : ∀ n : Fin 256, isSpace (hexChar (UInt8.ofNat n >>> 4)) = false ∧
        isSpace (hexChar (UInt8.ofNat n &&& 0x0f)) = false := by decide +kernel
    simpa using hall ⟨b.toNat, b.toNat_lt⟩
  have hformat : ∀ index, ∀ c ∈ formatBytes index bytes, isSpace c = false := by
    induction bytes with
    | nil => intro index c hc; cases hc
    | cons b bytes ih =>
      intro index c hc
      rw [formatBytes] at hc
      rcases List.mem_append.1 hc with hc | hc
      · split at hc
        · rw [List.mem_singleton.1 hc]
          rfl
        · cases hc
      · rcases List.mem_cons.1 hc with rfl | hc
        · exact (hhex b).1
        · rcases List.mem_cons.1 hc with rfl | hc
          · exact (hhex b).2
          · exact ih (index + 1) c hc
  refine ⟨fun h => ?_, fun c hc => ?_⟩
  · have := congrArg List.length h
    rw [formatGPUUUID, List.length_append] at this
    exact absurd this (by simp [literal])
  · rcases List.mem_append.1 hc with hc | hc
    · have hall : Word (literal "GPU-") := word_of_all (by decide)
      exact hall.unbroken c hc
    · exact hformat 0 c hc

theorem word_canonical {u s : Bytes} (h : canonicalizeGPUUUID u = some s) : Word s := by
  obtain ⟨bytes, -, rfl⟩ := Option.map_eq_some_iff.1 h
  exact word_formatGPUUUID bytes

theorem word_deviceFilename (index : ℕ) : Word (deviceFilename index) := by
  constructor
  · simp [deviceFilename, literal]
  · intro c hc
    have hfirst : Word (literal "device-") := word_of_all (by decide)
    have hlast : Word (literal ".bin") := word_of_all (by decide)
    rw [deviceFilename, List.mem_append, List.mem_append] at hc
    rcases hc with (hc | hc) | hc
    · exact hfirst.unbroken c hc
    · rw [List.leftpad, List.mem_append] at hc
      rcases hc with hc | hc
      · rw [List.eq_of_mem_replicate hc]
        rfl
      · exact (word_decimal index).unbroken c hc
    · exact hlast.unbroken c hc

end Words

/-! ## Reading the text back -/

/-- The extents of a normalized manifest, from an index on. -/
def Written (index : ℕ) (extents : List GpuDataFile) : Prop :=
  ∀ i e, extents[i]? = some e → canonicalizeGPUUUID e.sourceUuid = some e.sourceUuid ∧ e.size ≤ maxSize ∧
    e.filename = deviceFilename (index + i) ∧ index + i ≤ maxSize

theorem parseDeviceEntry_line {e : GpuDataFile} {index : ℕ} (rest : Bytes)
    (huuid : canonicalizeGPUUUID e.sourceUuid = some e.sourceUuid) (hsize : e.size ≤ maxSize)
    (hname : Word e.filename) (hindex : index ≤ maxSize) :
    parseDeviceEntry (newline :: (deviceLine index e ++ rest)) index = .ok (e, newline :: rest) := by
  have hwords : readWords 5 (newline :: (deviceLine index e ++ rest)) = some
      ([literal "device", decimal index, e.sourceUuid, decimal e.size, e.filename], newline :: rest) := by
    have hdevice : Word (literal "device") := word_of_all (by decide)
    simp only [deviceLine, List.append_assoc, List.cons_append, List.nil_append]
    rw [readWords_blank isSpace_newline, readWords_append hdevice isSpace_space, readWords_blank isSpace_space,
      readWords_append (word_decimal index) isSpace_space, readWords_blank isSpace_space,
      readWords_append (word_canonical huuid) isSpace_space, readWords_blank isSpace_space,
      readWords_append (word_decimal e.size) isSpace_space, readWords_blank isSpace_space,
      readWords_append hname isSpace_newline]
    rfl
  simp [parseDeviceEntry, hwords, parseUnsigned_decimal hindex, parseUnsigned_decimal hsize, huuid]

theorem parseDeviceEntries_lines {extents : List GpuDataFile} {index : ℕ} (h : Written index extents) :
    parseDeviceEntries extents.length index (newline :: deviceLines index extents) =
      .ok (extents, [newline]) := by
  induction extents generalizing index with
  | nil => rfl
  | cons e extents ih =>
    obtain ⟨huuid, hsize, hname, hindex⟩ := h 0 e rfl
    rw [Nat.add_zero] at hname hindex
    have hrest : Written (index + 1) extents := by
      intro i d hd
      have := h (i + 1) d hd
      rwa [show index + (i + 1) = index + 1 + i by omega] at this
    have hentry := parseDeviceEntry_line (deviceLines (index + 1) extents) huuid hsize
      (hname ▸ word_deviceFilename _) hindex
    simp only [List.length_cons, parseDeviceEntries, deviceLines, hentry, bind, Except.bind, ih hrest]
    rfl

theorem parseVersionHeader_serialize (rest : Bytes) :
    parseVersionHeader (literal "version" ++ space :: (literal "4" ++ newline :: rest)) =
      .ok (newline :: rest) := by
  have hwords : readWords 2 (literal "version" ++ space :: (literal "4" ++ newline :: rest)) =
      some ([literal "version", literal "4"], newline :: rest) := by
    have hversion : Word (literal "version") := word_of_all (by decide)
    have hfour : Word (literal "4") := word_of_all (by decide)
    rw [readWords_append hversion isSpace_space, readWords_blank isSpace_space,
      readWords_append hfour isSpace_newline]
    rfl
  have hparse : parseUnsigned maxUnsigned (literal "4") = some 4 := by decide
  simp [parseVersionHeader, hwords, hparse]

theorem parseDeviceCount_serialize {count : ℕ} (hcount : count ≤ kMaximumDeviceCount) (rest : Bytes) :
    parseDeviceCount (newline :: (literal "device_count" ++ space :: (decimal count ++ newline :: rest))) =
      .ok (count, newline :: rest) := by
  have hwords : readWords 2 (newline :: (literal "device_count" ++ space :: (decimal count ++ newline :: rest))) =
      some ([literal "device_count", decimal count], newline :: rest) := by
    have hkey : Word (literal "device_count") := word_of_all (by decide)
    rw [readWords_blank isSpace_newline, readWords_append hkey isSpace_space, readWords_blank isSpace_space,
      readWords_append (word_decimal count) isSpace_newline]
    rfl
  have hmax : count ≤ maxSize := hcount.trans (by decide)
  have hnot : ¬ count > kMaximumDeviceCount := not_lt.2 hcount
  simp [parseDeviceCount, hwords, parseUnsigned_decimal hmax, hnot]

/-! ## Normalized manifests -/

section Normalized

variable {extents normalized : List GpuDataFile}

theorem canonicalizeGPUUUID_canonical {u : Bytes} (h : (parseGPUUUID u).isSome) :
    canonicalizeGPUUUID (canonical u) = some (canonical u) := by
  rw [canonicalizeGPUUUID, parseGPUUUID_canonical h, ← canonicalizeGPUUUID]
  exact canonicalizeGPUUUID_eq_some.2 ⟨h, rfl⟩

theorem canonical_of_canonical {u : Bytes} (h : canonicalizeGPUUUID u = some u) : canonical u = u := by
  rw [canonical, h, Option.getD_some]

theorem Saved.map_normal (h : Saved extents) : Saved (extents.map GpuDataFile.normal) := by
  have hparse : ∀ e ∈ extents, parseGPUUUID e.normal.sourceUuid = parseGPUUUID e.sourceUuid :=
    fun e he => parseGPUUUID_canonical (h.valid e he)
  refine ⟨by simpa using h.bounded, ?_, ?_, ?_, ?_⟩
  · intro e he
    obtain ⟨d, hd, rfl⟩ := List.mem_map.1 he
    rw [hparse d hd]
    exact h.valid d hd
  · intro e he
    obtain ⟨d, hd, rfl⟩ := List.mem_map.1 he
    exact h.nonempty d hd
  · intro e i he
    rw [List.getElem?_map] at he
    obtain ⟨d, hd, rfl⟩ := Option.map_eq_some_iff.1 he
    exact h.named d i hd
  · rw [List.map_map, List.map_congr_left (g := fun e => parseGPUUUID e.sourceUuid) hparse]
    exact h.distinct

theorem normal_of_canonical {e : GpuDataFile} (h : canonicalizeGPUUUID e.sourceUuid = some e.sourceUuid) :
    e.normal = e := by
  rw [GpuDataFile.normal, canonical_of_canonical h]

/-- A normalized manifest is normal. -/
theorem normalizeManifest_idem (h : normalizeManifest extents = .ok normalized) :
    normalizeManifest normalized = .ok normalized := by
  obtain ⟨hsaved, rfl⟩ := normalizeManifest_eq_ok.1 h
  refine normalizeManifest_eq_ok.2 ⟨hsaved.map_normal, ?_⟩
  rw [List.map_map]
  refine List.map_congr_left fun e he => (normal_of_canonical ?_).symm
  exact canonicalizeGPUUUID_canonical (hsaved.valid e he)

theorem written_of_normalized (h : normalizeManifest extents = .ok normalized)
    (hsizes : ∀ e ∈ extents, e.size ≤ maxSize) : Written 0 normalized ∧ normalized.length ≤ kMaximumDeviceCount := by
  obtain ⟨hsaved, rfl⟩ := normalizeManifest_eq_ok.1 h
  refine ⟨fun i e he => ?_, by simpa using hsaved.bounded⟩
  rw [List.getElem?_map] at he
  obtain ⟨d, hd, rfl⟩ := Option.map_eq_some_iff.1 he
  have hmem := List.mem_of_getElem? hd
  have hi : i < 1024 := ((List.getElem?_eq_some_iff.1 hd).1).trans_le hsaved.bounded
  rw [Nat.zero_add]
  refine ⟨canonicalizeGPUUUID_canonical (hsaved.valid d hmem), hsizes d hmem, hsaved.named d i hd, ?_⟩
  exact hi.le.trans (by decide)

/-- The text of a normalized manifest is read as the manifest. -/
theorem parseManifest_serialize (h : normalizeManifest extents = .ok normalized)
    (hsizes : ∀ e ∈ extents, e.size ≤ maxSize) : parseManifest (serialize normalized) = .ok normalized := by
  obtain ⟨hwritten, hcount⟩ := written_of_normalized h hsizes
  have hend : (readWord [newline]).isSome = false := by decide
  simp only [parseManifest, serialize, parseVersionHeader_serialize, parseDeviceCount_serialize hcount,
    parseDeviceEntries_lines hwritten, bind, Except.bind, hend]
  exact normalizeManifest_idem h

/-- A manifest that is accepted stands in the text as it is returned, and is normal. -/
theorem eq_of_parseManifest {contents : Bytes} (h : parseManifest contents = .ok normalized) :
    normalizeManifest normalized = .ok normalized ∧
      ∃ count input rest, parseDeviceEntries count 0 input = .ok (normalized, rest) := by
  have hentry : ∀ {input rest : Bytes} {index : ℕ} {e : GpuDataFile},
      parseDeviceEntry input index = .ok (e, rest) → e.normal = e := by
    intro input rest index e h
    simp only [parseDeviceEntry] at h
    split at h
    · split at h
      · obtain ⟨-, h⟩ := guard_eq_ok.1 h
        obtain ⟨huuid, h⟩ := guard_eq_ok.1 h
        cases h
        exact normal_of_canonical (not_not.1 huuid)
      · cases h
    · cases h
  have hentries : ∀ {count index : ℕ} {input rest : Bytes} {parsed : List GpuDataFile},
      parseDeviceEntries count index input = .ok (parsed, rest) → parsed.map GpuDataFile.normal = parsed := by
    intro count
    induction count with
    | zero =>
      intro index input rest parsed h
      cases h
      rfl
    | succ count ih =>
      intro index input rest parsed h
      rw [parseDeviceEntries, bind_eq_ok] at h
      obtain ⟨⟨e, input'⟩, he, h⟩ := h
      obtain ⟨⟨es, rest'⟩, hes, h⟩ := bind_eq_ok.1 h
      cases h
      rw [List.map_cons, hentry he, ih hes]
  rw [parseManifest, bind_eq_ok] at h
  obtain ⟨input, -, h⟩ := h
  obtain ⟨⟨count, input'⟩, -, h⟩ := bind_eq_ok.1 h
  obtain ⟨⟨parsed, rest⟩, hparsed, h⟩ := bind_eq_ok.1 h
  obtain ⟨-, h⟩ := guard_eq_ok.1 h
  have hsame : normalized = parsed := (normalizeManifest_eq_ok.1 h).2.trans (hentries hparsed)
  subst hsame
  exact ⟨normalizeManifest_idem h, count, input', rest, hparsed⟩

/-- The text stays below the limit of the reader, since a line has at most 90 bytes. -/
theorem length_serialize_le (h : normalizeManifest extents = .ok normalized)
    (hsizes : ∀ e ∈ extents, e.size ≤ maxSize) : (serialize normalized).length ≤ kMaximumManifestSize := by
  obtain ⟨hwritten, hcount⟩ := written_of_normalized h hsizes
  have hline : ∀ {index : ℕ} {e : GpuDataFile}, index < 1024 → e.size ≤ maxSize →
      e.filename = deviceFilename index → e.sourceUuid.length = 40 → (deviceLine index e).length ≤ 90 := by
    intro index e hindex hsize hname huuid
    have hdigits : (decimal index).length ≤ 4 := length_decimal_le (by decide) (by omega)
    have hsizeDigits : (decimal e.size).length ≤ 20 :=
      length_decimal_le (by decide) (hsize.trans_lt (by decide))
    have hfile : (deviceFilename index).length ≤ 15 := by
      have : (deviceFilename index).length = 7 + max 4 (decimal index).length + 4 := by
        simp only [deviceFilename, List.length_append, List.length_leftpad]
        rfl
      omega
    have hdevice : (literal "device").length = 6 := rfl
    simp only [deviceLine, List.length_append, List.length_cons, List.length_nil, hname, huuid, hdevice]
    omega
  have hlines : ∀ (extents : List GpuDataFile) (index : ℕ), Written index extents →
      index + extents.length ≤ 1024 → (deviceLines index extents).length ≤ 90 * extents.length := by
    intro extents
    induction extents with
    | nil => exact fun _ _ _ => Nat.le_refl _
    | cons e extents ih =>
      intro index hwritten hbound
      rw [List.length_cons] at hbound
      obtain ⟨huuid, hsize, hname, -⟩ := hwritten 0 e rfl
      have hrest := ih (index + 1) (fun i d hd => by
        have := hwritten (i + 1) d hd
        rwa [show index + (i + 1) = index + 1 + i by omega] at this) (by omega)
      have hlength : e.sourceUuid.length = 40 := by
        obtain ⟨bytes, hbytes, heq⟩ := Option.map_eq_some_iff.1 huuid
        rw [← heq, formatGPUUUID, List.length_append, length_formatBytes (length_parseGPUUUID hbytes)]
        rfl
      have := hline (show index < 1024 by omega) hsize hname hlength
      rw [deviceLines, List.length_append, List.length_cons]
      omega
  have hbody := hlines normalized 0 hwritten (by rw [Nat.zero_add]; exact hcount)
  have hdigits : (decimal normalized.length).length ≤ 4 :=
    length_decimal_le (by decide) (hcount.trans_lt (by decide))
  have hlimit : normalized.length ≤ 1024 := hcount
  have hwords : (literal "version").length = 7 ∧ (literal "4").length = 1 ∧
      (literal "device_count").length = 12 := ⟨rfl, rfl, rfl⟩
  simp only [serialize, List.length_append, List.length_cons, hwords, kMaximumManifestSize]
  omega

end Normalized

/-! ## Calls that do not fail -/

/-- Every answer is an interruption or moves some bytes. -/
def Unfailing (answers : List Transfer) : Prop :=
  ∀ a ∈ answers, a = .interrupted ∨ ∃ n, a = .moved (n + 1)

/-- How many answers move bytes. -/
def moves (answers : List Transfer) : ℕ := answers.countP (· ≠ .interrupted)

theorem writeAll_unfailing {answers : List Transfer} {contents file : Bytes} (h : Unfailing answers)
    (hmoves : contents.length ≤ moves answers) :
    writeAll answers contents file = some (.ok (), file ++ contents) := by
  induction answers generalizing contents file with
  | nil =>
    have hnil : contents = [] := List.length_eq_zero_iff.1 (by simpa [moves] using hmoves)
    simp [hnil, writeAll]
  | cons a answers ih =>
    have hrest : Unfailing answers := fun b hb => h b (List.mem_cons_of_mem _ hb)
    cases contents with
    | nil => simp [writeAll]
    | cons c contents =>
      rcases h a List.mem_cons_self with rfl | ⟨n, rfl⟩
      · rw [writeAll]
        exact ih hrest (by simpa [moves] using hmoves)
      · have hcount : contents.length ≤ moves answers := by simpa [moves] using hmoves
        rw [writeAll, ih hrest, List.append_assoc, List.take_append_drop]
        rw [List.length_drop, List.length_cons]
        omega

theorem readAll_unfailing {answers : List Transfer} {file contents : Bytes} (h : Unfailing answers)
    (hmoves : file.length < moves answers) : ∃ rest, Unfailing rest ∧ 0 < moves rest ∧
      readAll answers file file.length contents = some (.ok (contents ++ file), rest) := by
  induction answers generalizing file contents with
  | nil => simp [moves] at hmoves
  | cons a answers ih =>
    have hrest : Unfailing answers := fun b hb => h b (List.mem_cons_of_mem _ hb)
    cases hfile : file with
    | nil =>
      refine ⟨a :: answers, h, by rw [hfile] at hmoves; exact hmoves, ?_⟩
      rw [List.length_nil, readAll, List.append_nil]
    | cons c tail =>
      rw [hfile] at hmoves
      rcases h a List.mem_cons_self with rfl | ⟨n, rfl⟩
      · rw [List.length_cons, readAll, ← List.length_cons]
        exact ih hrest (by simpa [moves] using hmoves)
      · have hcount : tail.length < moves answers := by simpa [moves] using hmoves
        have htaken : ((c :: tail).take (min (n + 1) (tail.length + 1))).length = min (n + 1) (tail.length + 1) := by
          rw [List.length_take, List.length_cons]
          omega
        have hne : (c :: tail).take (min (n + 1) (tail.length + 1)) ≠ [] := by
          rw [← List.length_pos_iff, htaken]
          omega
        rw [List.length_cons, readAll]
        simp only [if_neg hne, htaken]
        obtain ⟨rest, hrest, hpos, heq⟩ := @ih ((c :: tail).drop (min (n + 1) (tail.length + 1)))
          (contents ++ (c :: tail).take (min (n + 1) (tail.length + 1))) hrest (by
            rw [List.length_drop, List.length_cons]
            omega)
        rw [List.length_drop, List.length_cons, List.append_assoc, List.take_append_drop] at heq
        exact ⟨rest, hrest, hpos, heq⟩

theorem readTrailing_unfailing {answers : List Transfer} (h : Unfailing answers) (hmoves : 0 < moves answers) :
    readTrailing answers [] = some (.ok ()) := by
  induction answers with
  | nil => simp [moves] at hmoves
  | cons a answers ih =>
    rcases h a List.mem_cons_self with rfl | ⟨n, rfl⟩
    · rw [readTrailing]
      exact ih (fun b hb => h b (List.mem_cons_of_mem _ hb)) (by simpa [moves] using hmoves)
    · simp [readTrailing]

theorem readManifestContents_unfailing {answers : List Transfer} {file : Bytes} (h : Unfailing answers)
    (hmoves : file.length < moves answers) (hsize : file.length ≤ kMaximumManifestSize) :
    readManifestContents { reads := answers } (some file) = some (.ok file) := by
  obtain ⟨rest, hrest, hpos, heq⟩ := @readAll_unfailing _ _ [] h hmoves
  have hnot : ¬ file.length > kMaximumManifestSize := not_lt.2 hsize
  simp only [readManifestContents, Bool.false_eq_true, false_or, if_neg hnot, heq, List.nil_append,
    Option.bind_eq_bind, Option.bind_some, List.drop_length, readTrailing_unfailing hrest hpos]
  rfl

/-- Saved extents that are accepted are written to an empty directory in a text below the limit of the
reader, and read back in their normal form, whenever no call fails and the calls go on to their end; only
normal manifests are ever read; and the spellings of a UUID stand for its bytes. -/
theorem manifest_round_trip :
    (∀ extents normalized (writes reads : List Transfer), normalizeManifest extents = .ok normalized →
      (∀ e ∈ extents, e.size < 2 ^ 64) → Unfailing writes → Unfailing reads →
      (serialize normalized).length ≤ moves writes → (serialize normalized).length < moves reads →
      (serialize normalized).length ≤ kMaximumManifestSize ∧
      ∃ file, writeManifest { writes } none extents = some (.ok (), some file) ∧
        readManifest { reads } (some file) = some (.ok normalized)) ∧
    (∀ calls file normalized, readManifest calls file = some (.ok normalized) →
      normalizeManifest normalized = .ok normalized ∧
        ∃ count input rest, parseDeviceEntries count 0 input = .ok (normalized, rest)) ∧
    (∀ bytes : List UInt8, bytes.length = 16 → parseGPUUUID (formatGPUUUID bytes) = some bytes) ∧
    (∀ u v, canonicalizeGPUUUID u = some v → canonicalizeGPUUUID v = some v ∧ parseGPUUUID v = parseGPUUUID u) ∧
    ∀ u v, canonicalizeGPUUUID u = canonicalizeGPUUUID v ↔ parseGPUUUID u = parseGPUUUID v := by
  refine ⟨?_, ?_, fun bytes => parseGPUUUID_formatGPUUUID, ?_, fun u v => canonicalizeGPUUUID_inj⟩
  · intro extents normalized writes reads hnormal hsizes hwrites hreads hwritten hread
    have hsizes' : ∀ e ∈ extents, e.size ≤ maxSize := fun e he => Nat.le_sub_one_of_lt (hsizes e he)
    have hlimit := length_serialize_le hnormal hsizes'
    refine ⟨hlimit, serialize normalized, ?_, ?_⟩
    · simp only [writeManifest, hnormal, writeAll_unfailing hwrites hwritten, List.nil_append]
      rfl
    · rw [readManifest, readManifestContents_unfailing hreads hread hlimit]
      exact congrArg some (parseManifest_serialize hnormal hsizes')
  · intro calls file normalized h
    rw [readManifest, Option.map_eq_some_iff] at h
    obtain ⟨contents, -, h⟩ := h
    obtain ⟨text, -, h⟩ := bind_eq_ok.1 h
    exact eq_of_parseManifest h
  · intro u v h
    obtain ⟨hvalid, rfl⟩ := canonicalizeGPUUUID_eq_some.1 h
    exact ⟨canonicalizeGPUUUID_canonical hvalid, parseGPUUUID_canonical hvalid⟩

/-- One extent under an upper-case UUID, written and read a byte at a time. -/
def savedExtent : GpuDataFile :=
  ⟨literal "00112233-4455-6677-8899-AABBCCDDEEFF", 4096, literal "device-0000.bin"⟩

theorem manifest_round_trip_sample : ∃ file,
    writeManifest { writes := List.replicate 150 (.moved 1) } none [savedExtent] = some (.ok (), some file) ∧
      readManifest { reads := List.replicate 150 (.moved 1) } (some file) = some (.ok
        [{ savedExtent with sourceUuid := literal "GPU-00112233-4455-6677-8899-aabbccddeeff" }]) := by
  have hunfailing : Unfailing (List.replicate 150 (.moved 1)) :=
    fun a ha => .inr ⟨0, List.eq_of_mem_replicate ha⟩
  exact (manifest_round_trip.1 [savedExtent] _ _ _ (by decide +kernel) (by decide) hunfailing hunfailing
    (by decide +kernel) (by decide +kernel)).2

end StorageManifest
