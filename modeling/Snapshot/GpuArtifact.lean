import Snapshot.GpuPositions
import Snapshot.StorageManifest

/-! # A stored GPU artifact that is opened for a restore

The artifact is checked against the visible GPUs and the device map before the driver is asked to
restore. After the driver has answered, its regions are matched with the saved extents. Both read the
device map, but not in the same way: the check lets a GPU that the map leaves out stay where it is,
and the matching refuses it. -/
namespace GpuArtifact

open LexicalPath (Bytes)
open ByteText (literal)
open CheckedFold StorageManifest

/-- What the directory of the artifact holds for a participant: the device entries of its manifest, as
far as its text can be read, and whether the extent files are there. -/
structure Directory where
  entries : ℕ → Except String (List GpuDataFile)
  extentFiles : ℕ → List GpuDataFile → Bool

/-- `ReadManifest`, from the entries that were read. -/
def readManifest (entries : List GpuDataFile) : Except String (List GpuDataFile) :=
  if ∃ e ∈ entries, canonicalizeGPUUUID e.sourceUuid ≠ some e.sourceUuid then
    .error "GPU manifest source GPU UUID is not canonical"
  else normalizeManifest entries

def validateExtentFiles (present : List GpuDataFile → Bool) (extents : List GpuDataFile) : Except String Unit := do
  let normalized ← normalizeManifest extents
  if present normalized then .ok () else .error "extent file is missing, invalid, or has the wrong size"

/-- The GPU that an extent is restored on. -/
def target (mapping : List DevicePair) (file : GpuDataFile) : Bytes :=
  match mapping.find? (·.sourceUuid = file.sourceUuid) with
  | none => file.sourceUuid
  | some pair => pair.destinationUuid

structure Participant where
  capturedPid : ℕ
  manifest : List GpuDataFile
  deriving DecidableEq, Repr

/-- `OpenRestoreDirectories` for one process. -/
def openRestoreDirectory (directory : Directory) (visibleDevices : List Bytes) (mapping : List DevicePair)
    (pid : ℕ) : Except String Participant := do
  let manifest ← readManifest (← directory.entries pid)
  validateExtentFiles (directory.extentFiles pid) manifest
  if ∃ file ∈ manifest, target mapping file ∉ visibleDevices then
    .error "GPU artifact refers to an unavailable target GPU"
  else .ok ⟨pid, manifest⟩

def addPid (pids : List ℕ) (pid : ℕ) : Except String (List ℕ) :=
  if 0 < pid ∧ pid < 2 ^ 31 ∧ pid ∉ pids then .ok (pids ++ [pid])
  else .error "invalid or duplicate captured GPU PID"

def addVisible (visible : List Bytes) (uuid : Bytes) : Except String (List Bytes) :=
  match canonicalizeGPUUUID uuid with
  | some canonical =>
    if canonical ∈ visible then .error "invalid or duplicate visible GPU UUID" else .ok (visible ++ [canonical])
  | none => .error "invalid or duplicate visible GPU UUID"

def addMapping (visible : List Bytes) (mapping : List DevicePair) (pair : DevicePair) : Except String (List DevicePair) :=
  match parseGPUUUID pair.sourceUuid, parseGPUUUID pair.destinationUuid with
  | some source, some destination =>
    if formatGPUUUID source ∉ mapping.map (·.sourceUuid) ∧
        formatGPUUUID destination ∉ mapping.map (·.destinationUuid) ∧ formatGPUUUID destination ∈ visible then
      .ok (mapping ++ [⟨formatGPUUUID source, formatGPUUUID destination⟩])
    else .error "GPU device map must be one-to-one and target visible GPUs"
  | _, _ => .error "invalid GPU device map"

structure Artifact where
  visibleDevices : List Bytes
  mapping : List DevicePair
  participants : List Participant
  deriving DecidableEq, Repr

/-- The constructor of `Artifact` for a restore. -/
def restoreArtifact (directory : Directory) (capturedPids : List ℕ) (visibleDevices : List Bytes)
    (deviceMap : List DevicePair) : Except String Artifact := do
  if capturedPids = [] ∨ visibleDevices = [] then .error "GPU artifact requires participants and GPUs"
  else
    let _ ← capturedPids.foldlM addPid []
    let visible ← visibleDevices.foldlM addVisible []
    let mapping ← deviceMap.foldlM (addMapping visible) []
    let participants ← capturedPids.mapM (openRestoreDirectory directory visible mapping)
    return ⟨visible, mapping, participants⟩

/-- The driver returns one region for each saved extent, with its size, on the GPU it is restored on. -/
def Returned (mapping : List DevicePair) (manifest : List GpuDataFile) (regions : List GpuDataRegion) : Prop :=
  ∃ g : Fin regions.length ≃ Fin manifest.length,
    ∀ i, SameUUID (regions.get i).uuid (target mapping (manifest.get (g i))) ∧ (regions.get i).size = (manifest.get (g i)).size

/-- The map says for each saved extent where it is restored. -/
def Covers (deviceMap : List DevicePair) (manifest : List GpuDataFile) : Prop :=
  ∀ file ∈ manifest, ∃ pair ∈ deviceMap, SameUUID pair.sourceUuid file.sourceUuid

/-! ## What the constructor accepts -/

theorem addMapping_eq_ok {visible : List Bytes} {mapping mapping' : List DevicePair} {pair : DevicePair} :
    addMapping visible mapping pair = .ok mapping' ↔
      (((parseGPUUUID pair.sourceUuid).isSome ∧ (parseGPUUUID pair.destinationUuid).isSome ∧
          canonical pair.destinationUuid ∈ visible) ∧
        canonical pair.sourceUuid ∉ mapping.map (·.sourceUuid) ∧
        canonical pair.destinationUuid ∉ mapping.map (·.destinationUuid)) ∧ mapping' = mapping ++ [pair.normal] := by
  simp only [addMapping, DevicePair.normal, canonical, canonicalizeGPUUUID]
  cases hs : parseGPUUUID pair.sourceUuid with
  | none => simp
  | some source =>
    cases hd : parseGPUUUID pair.destinationUuid with
    | none => simp
    | some destination =>
      simp only [Option.map_some, Option.getD_some, Option.isSome_some, true_and]
      split
      · rename_i h
        simp [h.1, h.2.1, h.2.2, eq_comm]
      · rename_i h
        simp only [reduceCtorEq, false_iff]
        tauto

/-- An accepted map is injective in both directions and is kept in canonical spelling. -/
theorem mapping_eq_ok {visible : List Bytes} {deviceMap mapping : List DevicePair}
    (h : deviceMap.foldlM (addMapping visible) [] = .ok mapping) :
    OneToOne deviceMap ∧ mapping = deviceMap.map DevicePair.normal := by
  rw [foldlM_eq_ok (fun _ _ _ => addMapping_eq_ok), admitted_and, admitted_const, admitted_and,
    admitted_fresh (fun p : DevicePair => canonical p.sourceUuid) (fun l : List DevicePair => l.map (·.sourceUuid))
      (by simp [DevicePair.normal]) rfl,
    admitted_fresh (fun p : DevicePair => canonical p.destinationUuid)
      (fun l : List DevicePair => l.map (·.destinationUuid)) (by simp [DevicePair.normal]) rfl] at h
  obtain ⟨⟨hvalid, hsources, hdestinations⟩, hmapping⟩ := h
  refine ⟨⟨fun p hp => ⟨(hvalid p hp).1, (hvalid p hp).2.1⟩, ?_, ?_⟩, ?_⟩
  · exact (nodup_canonical fun p hp => (hvalid p hp).1).1 hsources
  · exact (nodup_canonical fun p hp => (hvalid p hp).2.1).1 hdestinations
  · exact hmapping.trans (foldl_extend DevicePair.normal id (fun _ _ => rfl) [] _)

/-- An accepted manifest, in canonical spelling. -/
structure Stored (manifest : List GpuDataFile) : Prop where
  saved : Saved manifest
  spelled : ∀ file ∈ manifest, canonical file.sourceUuid = file.sourceUuid

theorem stored_of_readManifest {entries manifest : List GpuDataFile} (h : readManifest entries = .ok manifest) :
    Stored manifest := by
  obtain ⟨hcanonical, h⟩ := guard_eq_ok.1 h
  obtain ⟨hsaved, rfl⟩ := normalizeManifest_eq_ok.1 h
  have hspelled : ∀ e ∈ entries, canonical e.sourceUuid = e.sourceUuid := by
    intro e he
    by_contra hne
    apply hcanonical
    refine ⟨e, he, fun hsome => hne ?_⟩
    rw [canonical, hsome, Option.getD_some]
  have hsame : entries.map GpuDataFile.normal = entries := by
    conv_rhs => rw [← List.map_id entries]
    apply List.map_congr_left
    intro e he
    rw [GpuDataFile.normal, hspelled e he]
    rfl
  rw [hsame]
  exact ⟨hsaved, hspelled⟩

theorem stored_of_restoreArtifact {directory : Directory} {capturedPids : List ℕ} {visibleDevices : List Bytes}
    {deviceMap : List DevicePair} {artifact : Artifact}
    (h : restoreArtifact directory capturedPids visibleDevices deviceMap = .ok artifact) :
    OneToOne deviceMap ∧ artifact.mapping = deviceMap.map DevicePair.normal ∧
      ∀ participant ∈ artifact.participants, Stored participant.manifest := by
  obtain ⟨-, h⟩ := guard_eq_ok.1 h
  obtain ⟨_, -, h⟩ := bind_eq_ok.1 h
  obtain ⟨visible, -, h⟩ := bind_eq_ok.1 h
  obtain ⟨mapping, hmapping, h⟩ := bind_eq_ok.1 h
  obtain ⟨participants, hparticipants, h⟩ := bind_eq_ok.1 h
  cases h
  obtain ⟨hmap, hnormal⟩ := mapping_eq_ok hmapping
  refine ⟨hmap, hnormal, fun participant hmem => ?_⟩
  obtain ⟨pid, -, hopen⟩ := exists_of_mapM_eq_ok hparticipants participant hmem
  obtain ⟨entries, -, hopen⟩ := bind_eq_ok.1 hopen
  obtain ⟨manifest, hmanifest, hopen⟩ := bind_eq_ok.1 hopen
  obtain ⟨_, -, hopen⟩ := bind_eq_ok.1 hopen
  obtain ⟨-, hopen⟩ := guard_eq_ok.1 hopen
  cases hopen
  exact stored_of_readManifest hmanifest

/-! ## The two readings of the map -/

section Readings

variable {deviceMap : List DevicePair} {manifest : List GpuDataFile} (hmap : OneToOne deviceMap)
  (hstored : Stored manifest)
include hmap hstored

/-- A file goes where the map sends it, and stays if the map leaves it out. -/
theorem target_cases {file : GpuDataFile} (hfile : file ∈ manifest) :
    (∃ pair ∈ deviceMap, SameUUID pair.sourceUuid file.sourceUuid ∧
        target (deviceMap.map DevicePair.normal) file = canonical pair.destinationUuid) ∨
      ((∀ pair ∈ deviceMap, ¬ SameUUID pair.sourceUuid file.sourceUuid) ∧
        target (deviceMap.map DevicePair.normal) file = file.sourceUuid) := by
  have hvalid := hstored.saved.valid file hfile
  have hsame : ∀ pair ∈ deviceMap,
      (pair.normal.sourceUuid = file.sourceUuid ↔ SameUUID pair.sourceUuid file.sourceUuid) := by
    intro pair hpair
    rw [← hstored.spelled file hfile]
    refine (canonical_inj (hmap.valid pair hpair).1 hvalid).trans ?_
    rw [SameUUID, hstored.spelled file hfile]
  rw [target]
  split
  · rename_i hnone
    refine .inr ⟨fun pair hpair hsource => ?_, rfl⟩
    have hnot := List.find?_eq_none.1 hnone pair.normal (List.mem_map_of_mem hpair)
    exact hnot (decide_eq_true ((hsame pair hpair).2 hsource))
  · rename_i q hq
    obtain ⟨pair, hpair, rfl⟩ := List.mem_map.1 (List.mem_of_find?_eq_some hq)
    have hsource : pair.normal.sourceUuid = file.sourceUuid := by simpa using List.find?_some hq
    exact .inl ⟨pair, hpair, (hsame pair hpair).1 hsource, rfl⟩

/-- Where the map is empty or complete, the two readings agree: distinct extents go to distinct GPUs,
and each is found again from its GPU. -/
theorem readings_agree (hcovers : deviceMap = [] ∨ Covers deviceMap manifest) {file : GpuDataFile} (hfile : file ∈ manifest) :
    (parseGPUUUID (target (deviceMap.map DevicePair.normal) file)).isSome ∧
      (∀ file' ∈ manifest, SameUUID (target (deviceMap.map DevicePair.normal) file)
        (target (deviceMap.map DevicePair.normal) file') → SameUUID file.sourceUuid file'.sourceUuid) ∧
      ∀ d : GpuDataRegion, SameUUID d.uuid (target (deviceMap.map DevicePair.normal) file) →
        SourceOf deviceMap d file := by
  rcases hcovers with rfl | hcovers
  · exact ⟨hstored.saved.valid file hfile, fun file' _ h => h, fun d h => .inl ⟨rfl, h.symm⟩⟩
  have hsent : ∀ file ∈ manifest, ∃ pair ∈ deviceMap, SameUUID pair.sourceUuid file.sourceUuid ∧
      parseGPUUUID (target (deviceMap.map DevicePair.normal) file) = parseGPUUUID pair.destinationUuid := by
    intro file hfile
    rcases target_cases hmap hstored hfile with ⟨pair, hpair, hsource, htarget⟩ | ⟨hnone, -⟩
    · exact ⟨pair, hpair, hsource, by rw [htarget, parseGPUUUID_canonical (hmap.valid pair hpair).2]⟩
    · obtain ⟨pair, hpair, hsource⟩ := hcovers file hfile
      exact absurd hsource (hnone pair hpair)
  obtain ⟨pair, hpair, hsource, htarget⟩ := hsent file hfile
  refine ⟨htarget ▸ (hmap.valid pair hpair).2, fun file' hfile' hsame => ?_, fun d hd => ?_⟩
  · obtain ⟨pair', hpair', hsource', htarget'⟩ := hsent file' hfile'
    have hequal : parseGPUUUID pair.destinationUuid = parseGPUUUID pair'.destinationUuid :=
      htarget.symm.trans (hsame.trans htarget')
    rw [List.inj_on_of_nodup_map hmap.destinations hpair hpair' hequal] at hsource
    exact hsource.symm.trans hsource'
  · exact .inr ⟨pair, hpair, htarget.symm.trans hd.symm, hsource⟩

/-- An empty or complete map is enough for every answer of the driver. -/
theorem jobs_of_covers (hcovers : deviceMap = [] ∨ Covers deviceMap manifest) {regions : List GpuDataRegion}
    (hreturned : Returned (deviceMap.map DevicePair.normal) manifest regions) :
    ∃ jobs, buildTransferJobs manifest regions deviceMap = .ok jobs := by
  obtain ⟨g, hg⟩ := hreturned
  have hagree := fun i => readings_agree hmap hstored hcovers (List.getElem_mem (g i).2)
  have hregion : ∀ d ∈ regions, ∃ i : Fin regions.length, regions.get i = d := by
    intro d hd
    obtain ⟨i, hi, rfl⟩ := List.getElem_of_mem hd
    exact ⟨⟨i, hi⟩, rfl⟩
  refine ⟨_, buildTransferJobs_eq_ok.2 ⟨hstored.saved, hmap, ⟨?_, ?_, ?_⟩, g, fun i => ?_, rfl⟩⟩
  · intro d hd
    obtain ⟨i, rfl⟩ := hregion d hd
    rw [(hg i).1]
    exact (hagree i).1
  · intro d hd
    obtain ⟨i, rfl⟩ := hregion d hd
    rw [(hg i).2]
    exact hstored.saved.nonempty _ (List.getElem_mem _)
  · rw [List.nodup_iff_injective_getElem]
    intro i j hij
    have hi : (i : ℕ) < regions.length := by simpa using i.2
    have hj : (j : ℕ) < regions.length := by simpa using j.2
    have hsame : parseGPUUUID regions[i].uuid = parseGPUUUID regions[j].uuid := by simpa using hij
    have htargets := (hg ⟨i, hi⟩).1.symm.trans (hsame.trans (hg ⟨j, hj⟩).1)
    have hsources := (hagree ⟨i, hi⟩).2.1 _ (List.getElem_mem _) htargets
    have hposition := eq_of_nodup_map hstored.saved.distinct (List.getElem?_eq_getElem (g ⟨i, hi⟩).2)
      (List.getElem?_eq_getElem (g ⟨j, hj⟩).2) hsources
    have hval := congrArg Fin.val (g.injective (Fin.ext hposition))
    exact Fin.ext hval
  · exact ⟨(hagree i).2.2 _ (hg i).1, (hg i).2.symm⟩

/-- A map that leaves out a GPU of the manifest is refused after the driver has answered. -/
theorem covers_of_jobs (hne : deviceMap ≠ []) (hjobs : ∀ regions,
      Returned (deviceMap.map DevicePair.normal) manifest regions →
        ∃ jobs, buildTransferJobs manifest regions deviceMap = .ok jobs) : Covers deviceMap manifest := by
  intro file hfile
  by_contra hout
  have hleft : target (deviceMap.map DevicePair.normal) file = file.sourceUuid := by
    rcases target_cases hmap hstored hfile with ⟨pair, hpair, hsource, -⟩ | ⟨-, htarget⟩
    · exact absurd ⟨pair, hpair, hsource⟩ hout
    · exact htarget
  -- the regions in the order of the manifest
  let region : GpuDataFile → GpuDataRegion := fun e => ⟨target (deviceMap.map DevicePair.normal) e, e.size⟩
  have hlength : (manifest.map region).length = manifest.length := List.length_map _
  obtain ⟨jobs, hok⟩ := hjobs (manifest.map region) ⟨finCongr hlength, fun i => by simp [region, SameUUID]⟩
  obtain ⟨-, -, hplaced, f, hf, -⟩ := buildTransferJobs_eq_ok.1 hok
  obtain ⟨i, hi, rfl⟩ := List.getElem_of_mem hfile
  have hlt : i < (manifest.map region).length := hlength.symm ▸ hi
  have hmatch : ∃ j : Fin manifest.length, SourceOf deviceMap (region manifest[i]) manifest[j] :=
    ⟨f ⟨i, hlt⟩, by simpa using (hf ⟨i, hlt⟩).1⟩
  obtain ⟨j, hof⟩ := hmatch
  rcases hof with ⟨hempty, -⟩ | ⟨pair, hpair, hdest, hsource⟩
  · exact hne hempty
  -- the extent that the region is sent to is mentioned, so its own region lies on the same GPU
  have hdest' : parseGPUUUID pair.destinationUuid = parseGPUUUID manifest[i].sourceUuid := by
    rw [hdest]
    exact congrArg parseGPUUUID hleft
  have hsent : parseGPUUUID (region manifest[j]).uuid = parseGPUUUID pair.destinationUuid := by
    rcases target_cases hmap hstored (List.getElem_mem j.2) with ⟨pair', hpair', hsource', htarget⟩ | ⟨hnone, -⟩
    · have hpairs := List.inj_on_of_nodup_map hmap.sources hpair' hpair (hsource'.trans hsource.symm)
      have htarget' : (region manifest[j]).uuid = canonical pair'.destinationUuid := htarget
      rw [htarget', parseGPUUUID_canonical (hmap.valid pair' hpair').2, hpairs]
    · exact absurd hsource (hnone pair hpair)
  have hposition : i = j := by
    have hregion : ∀ k : ℕ, ∀ hk : k < manifest.length, (manifest.map region)[k]? = some (region manifest[k]) :=
      fun k hk => by rw [List.getElem?_map, List.getElem?_eq_getElem hk, Option.map_some]
    refine eq_of_nodup_map hplaced.distinct (hregion i hi) (hregion j j.2) ?_
    exact (congrArg parseGPUUUID hleft).trans (hdest'.symm.trans hsent.symm)
  refine hout ⟨pair, hpair, ?_⟩
  simp only [hposition]
  exact hsource

end Readings

theorem samePair_normal {deviceMap : List DevicePair} (h : OneToOne deviceMap) :
    List.Forall₂ SamePair deviceMap (deviceMap.map DevicePair.normal) := by
  rw [List.forall₂_map_right_iff, List.forall₂_same]
  intro pair hpair
  exact ⟨(parseGPUUUID_canonical (h.valid pair hpair).1).symm, (parseGPUUUID_canonical (h.valid pair hpair).2).symm⟩

/-- For an accepted artifact the matching succeeds on everything the driver may return exactly if the map
is empty or mentions each GPU that has a saved extent. -/
theorem restore_jobs_iff (directory : Directory) (capturedPids : List ℕ) (visibleDevices : List Bytes)
    (deviceMap : List DevicePair) (artifact : Artifact)
    (h : restoreArtifact directory capturedPids visibleDevices deviceMap = .ok artifact) :
    (∀ participant ∈ artifact.participants, ∀ regions, Returned artifact.mapping participant.manifest regions →
        ∃ jobs, buildTransferJobs participant.manifest regions artifact.mapping = .ok jobs) ↔
      deviceMap = [] ∨ ∀ participant ∈ artifact.participants, Covers deviceMap participant.manifest := by
  obtain ⟨hmap, hmapping, hstored⟩ := stored_of_restoreArtifact h
  have hjobs : ∀ manifest regions, buildTransferJobs manifest regions artifact.mapping =
      buildTransferJobs manifest regions deviceMap := by
    intro manifest regions
    rw [hmapping]
    refine (buildTransferJobs_congr ?_ ?_ (samePair_normal hmap)).symm
    · exact List.forall₂_same.2 fun _ _ => ⟨rfl, rfl, rfl⟩
    · exact List.forall₂_same.2 fun _ _ => ⟨rfl, rfl⟩
  simp only [hjobs]
  rw [hmapping]
  constructor
  · intro hall
    by_cases hempty : deviceMap = []
    · exact .inl hempty
    · exact .inr fun participant hmem => covers_of_jobs hmap (hstored participant hmem) hempty (hall participant hmem)
  · intro hcovers participant hmem regions hreturned
    refine jobs_of_covers hmap (hstored participant hmem) ?_ hreturned
    exact hcovers.imp_right fun hall => hall participant hmem

/-! ## The map that the agent builds -/

open GpuDiscovery

/-- The pairs as they are sent to the broker. -/
def devicePairs (mappings : List GpuDeviceMapping) : List DevicePair :=
  mappings.map fun p => ⟨p.sourceUuid, p.targetUuid⟩

section AgentMap

variable {S T : List Bytes} {text : Bytes} {mappings : List GpuDeviceMapping}
  (hplain : ∀ u ∈ S ++ T, Plain u) (hbuild : buildDeviceMap S T = .ok text)
  (hparse : parseDeviceMap text = .ok mappings)
include hplain hbuild hparse

/-- The agent's map is empty or pairs the two lists by position. -/
theorem devicePairs_cases :
    S.length = T.length ∧ (devicePairs mappings = [] ∨ devicePairs mappings = (S.zip T).map fun p => ⟨p.1, p.2⟩) := by
  obtain ⟨hlength, hne, rfl⟩ := buildDeviceMap_eq_ok.1 hbuild
  refine ⟨hlength, ?_⟩
  split at hparse
  · cases hparse
    exact .inl rfl
  · obtain ⟨hS, hT⟩ := List.forall_mem_append.1 hplain
    rw [parseDeviceMap_text (zip_ne_nil hlength hne) fun p hp =>
      ⟨hS _ (List.of_mem_zip hp).1, hT _ (List.of_mem_zip hp).2⟩] at hparse
    cases hparse
    exact .inr (by simp [devicePairs])

/-- A restore with the agent's own map of the GPUs `S` of the source to the GPUs `T` of the target does not fail
late: every answer of the driver is matched, and each job loads the extent of a GPU into a region on the GPU in
the same place, or on the same GPU if the map is empty. -/
theorem agent_map_restores {directory : Directory} {capturedPids : List ℕ} {artifact : Artifact}
    (h : restoreArtifact directory capturedPids T (devicePairs mappings) = .ok artifact) {participant : Participant}
    (hmem : participant ∈ artifact.participants)
    (hsource : ∀ file ∈ participant.manifest, ∃ u ∈ S, SameUUID u file.sourceUuid)
    {regions : List GpuDataRegion} (hreturned : Returned artifact.mapping participant.manifest regions) :
    ∃ f : Fin regions.length ≃ Fin participant.manifest.length,
      buildTransferJobs participant.manifest regions artifact.mapping = .ok (List.ofFn fun i => ⟨i, f i⟩) ∧
      ∀ i, (participant.manifest.get (f i)).size = (regions.get i).size ∧
        (mappings = [] ∧ SameUUID (participant.manifest.get (f i)).sourceUuid (regions.get i).uuid ∨
          ∃ p ∈ S.zip T, SameUUID p.1 (participant.manifest.get (f i)).sourceUuid ∧
            SameUUID p.2 (regions.get i).uuid) := by
  obtain ⟨hmap, hmapping, hstored⟩ := stored_of_restoreArtifact h
  obtain ⟨hlength, hcases⟩ := devicePairs_cases hplain hbuild hparse
  have hcovers : devicePairs mappings = [] ∨ Covers (devicePairs mappings) participant.manifest := by
    refine hcases.imp_right fun hpairs file hfile => ?_
    obtain ⟨u, hu, hsame⟩ := hsource file hfile
    obtain ⟨i, hi, rfl⟩ := List.getElem_of_mem hu
    refine ⟨⟨S[i], T[i]⟩, ?_, hsame⟩
    rw [hpairs]
    exact List.mem_map.2 ⟨(S[i], T[i]), List.mem_iff_getElem.2 ⟨i, by simp; omega, by simp⟩, rfl⟩
  rw [hmapping] at hreturned ⊢
  obtain ⟨jobs, hjobs⟩ := jobs_of_covers hmap (hstored participant hmem) hcovers hreturned
  obtain ⟨-, -, -, f, hmatches, rfl⟩ := buildTransferJobs_eq_ok.1 hjobs
  refine ⟨f, ?_, fun i => ⟨(hmatches i).2, ?_⟩⟩
  · exact (buildTransferJobs_congr (List.forall₂_same.2 fun _ _ => ⟨rfl, rfl, rfl⟩)
      (List.forall₂_same.2 fun _ _ => ⟨rfl, rfl⟩) (samePair_normal hmap)).symm.trans hjobs
  rcases (hmatches i).1 with ⟨hnil, hsame⟩ | ⟨pair, hpair, htarget, hsame⟩
  · exact .inl ⟨List.map_eq_nil_iff.1 hnil, hsame⟩
  · rcases hcases with hnil | hpairs
    · rw [hnil] at hpair
      cases hpair
    · rw [hpairs] at hpair
      obtain ⟨p, hp, rfl⟩ := List.mem_map.1 hpair
      exact .inr ⟨p, hp, hsame, htarget⟩

end AgentMap

/-! ## A map that leaves out a GPU -/

def gpuA : Bytes := literal "GPU-0a000000-0000-0000-0000-000000000001"

def gpuB : Bytes := literal "GPU-0b000000-0000-0000-0000-000000000002"

def gpuC : Bytes := literal "GPU-0c000000-0000-0000-0000-000000000003"

/-- A process with data on two GPUs. -/
def twoGpus : List GpuDataFile := [⟨gpuA, 8, deviceFilename 0⟩, ⟨gpuB, 16, deviceFilename 1⟩]

def twoGpuDirectory : Directory := ⟨fun _ => .ok twoGpus, fun _ _ => true⟩

theorem agent_map_restores_two : ∃ text jobs, buildDeviceMap [gpuA, gpuB] [gpuC, gpuA] = .ok text ∧
    buildTransferJobs twoGpus [⟨gpuC, 8⟩, ⟨gpuA, 16⟩] [⟨gpuA, gpuC⟩, ⟨gpuB, gpuA⟩] = .ok jobs := by
  have hbuild : buildDeviceMap [gpuA, gpuB] [gpuC, gpuA] =
      .ok (gpuA ++ 61 :: (gpuC ++ 44 :: (gpuB ++ 61 :: gpuA))) := by decide +kernel
  have hparse : parseDeviceMap (gpuA ++ 61 :: (gpuC ++ 44 :: (gpuB ++ 61 :: gpuA))) =
      .ok [⟨gpuA, gpuC⟩, ⟨gpuB, gpuA⟩] := by decide +kernel
  have hartifact : restoreArtifact twoGpuDirectory [1] [gpuC, gpuA] (devicePairs [⟨gpuA, gpuC⟩, ⟨gpuB, gpuA⟩]) =
      .ok ⟨[gpuC, gpuA], [⟨gpuA, gpuC⟩, ⟨gpuB, gpuA⟩], [⟨1, twoGpus⟩]⟩ := by decide +kernel
  have hreturned : Returned [⟨gpuA, gpuC⟩, ⟨gpuB, gpuA⟩] twoGpus [⟨gpuC, 8⟩, ⟨gpuA, 16⟩] :=
    ⟨Equiv.refl _, by decide +kernel⟩
  obtain ⟨f, hjobs, -⟩ := agent_map_restores (by unfold Plain; decide +kernel) hbuild hparse hartifact
    (List.mem_singleton_self _) (by decide +kernel) hreturned
  exact ⟨_, _, hbuild, hjobs⟩

theorem restore_jobs_complete :
    ∃ jobs, buildTransferJobs twoGpus [⟨gpuC, 8⟩, ⟨gpuA, 16⟩] [⟨gpuA, gpuC⟩, ⟨gpuB, gpuA⟩] = .ok jobs := by
  refine (restore_jobs_iff twoGpuDirectory [1] [gpuC, gpuA] [⟨gpuA, gpuC⟩, ⟨gpuB, gpuA⟩]
    ⟨[gpuC, gpuA], [⟨gpuA, gpuC⟩, ⟨gpuB, gpuA⟩], [⟨1, twoGpus⟩]⟩ (by decide +kernel)).2 (.inr ?_) ⟨1, twoGpus⟩ (by simp)
    _ ⟨Equiv.refl _, by decide +kernel⟩
  simp only [List.mem_singleton, forall_eq, Covers]
  decide +kernel

/-- The map mentions one of the two GPUs. The artifact is accepted, the other GPU stays where it is, and
the regions are refused after the driver has prepared the restore. -/
theorem restore_jobs_partial_map :
    restoreArtifact twoGpuDirectory [1] [gpuC, gpuB] [⟨gpuA, gpuC⟩] =
        .ok ⟨[gpuC, gpuB], [⟨gpuA, gpuC⟩], [⟨1, twoGpus⟩]⟩ ∧
      Returned [⟨gpuA, gpuC⟩] twoGpus [⟨gpuC, 8⟩, ⟨gpuB, 16⟩] ∧
      buildTransferJobs twoGpus [⟨gpuC, 8⟩, ⟨gpuB, 16⟩] [⟨gpuA, gpuC⟩] =
        .error "destination GPU UUID is missing from the CUDA device map" :=
  ⟨by decide +kernel, ⟨Equiv.refl _, by decide +kernel⟩, by decide +kernel⟩

end GpuArtifact
