import Mathlib.Algebra.Order.BigOperators.Group.List
import Mathlib.Algebra.Ring.Nat
import Snapshot.ByteText
import Snapshot.CheckedFold
import Snapshot.FileTree
import Snapshot.Utf8

/-! # The entries of a checkpoint

An inventory lists the directories and files of a checkpoint by their relative paths. Before it is
published, and again when it is read back, every path is checked on its own and against the entries
before it. -/
namespace Checkpoint

open LexicalPath
open ByteText (literal)
open CheckedFold

/-! ## Relative paths -/

/-- The components of a relative path, with an empty one at the end for a trailing separator. -/
def components (p : Bytes) : Path :=
  (split p).filter (· ≠ []) ++ if p ≠ [] ∧ (split p).getLast? = some [] then [[]] else []

/-- `lexically_normal` of a relative path. What ends in a dot component ends in a separator. -/
def lexicallyNormal (p : Bytes) : Bytes :=
  let cs := reduce false (split p)
  if p = [] then []
  else if cs = [] then dot
  else if cs.getLast? ≠ some dotdot ∧ (split p).getLast? ∈ [some [], some dot, some dotdot] then
    [sep].intercalate cs ++ [sep]
  else [sep].intercalate cs

def isSafeRelativePath (path : Bytes) : Bool :=
  path ≠ [] && !rooted path && !path.contains 0 && lexicallyNormal path = path &&
    (components path).all fun c => c ≠ [] && c ≠ dot && c ≠ dotdot

/-- Paths are compared component by component. -/
def pathLess (a b : Bytes) : Bool := compare (components a) (components b) = .lt

/-- `parent_path` of a safe path. -/
def parentPath (p : Bytes) : Bytes := [sep].intercalate (split p).dropLast

theorem follow_skip {start cs : Path} (h : ∀ c ∈ cs, c = [] ∨ IsName c) :
    follow false start cs = start ++ cs.filter (· ≠ []) := by
  induction cs generalizing start with
  | nil => simp [follow]
  | cons c cs ih =>
    have hstep : follow false start (c :: cs) = follow false (push false start c) cs := rfl
    rw [hstep, ih fun d hd => h d (List.mem_cons_of_mem _ hd)]
    rcases h c List.mem_cons_self with rfl | hname
    · simp [push]
    · rw [push_name hname.1 hname.2.1 hname.2.2.1, List.filter_cons_of_pos (by simpa using hname.1)]
      simp

theorem filter_of_names {cs : Path} (h : ∀ c ∈ cs, IsName c) : cs.filter (· ≠ []) = cs :=
  List.filter_eq_self.2 fun c hc => by simpa using (h c hc).1

theorem intercalate_split (p : Bytes) : [sep].intercalate (split p) = p := List.intercalate_splitOn sep

theorem getLast?_split_of_names {p : Bytes} (h : ∀ c ∈ split p, IsName c) {c : Bytes} (hc : ¬ IsName c) :
    (split p).getLast? ≠ some c := by
  intro hlast
  exact hc (h c (List.mem_of_getLast? hlast))

theorem components_of_names {p : Bytes} (h : ∀ c ∈ split p, IsName c) : components p = split p := by
  rw [components, filter_of_names h, if_neg fun hlast => getLast?_split_of_names h (by decide) hlast.2, List.append_nil]

theorem lexicallyNormal_of_names {p : Bytes} (h : ∀ c ∈ split p, IsName c) : lexicallyNormal p = p := by
  have hreduce : reduce false (split p) = split p := by
    rw [reduce, follow_names h, List.nil_append]
  have hne : split p ≠ [] := List.splitOn_ne_nil _ _
  have hp : p ≠ [] := by
    rintro rfl
    exact absurd (h [] (by simp [split])) (by decide)
  have hlast : ¬ ((split p).getLast? ∈ [some [], some dot, some dotdot]) := by
    simp only [List.mem_cons, List.not_mem_nil, or_false, not_or]
    exact ⟨getLast?_split_of_names h (by decide), getLast?_split_of_names h (by decide),
      getLast?_split_of_names h (by decide)⟩
  simp only [lexicallyNormal, hreduce]
  rw [if_neg hp, if_neg hne, if_neg fun hend => hlast hend.2, intercalate_split]

/-- A safe path is a sequence of names. -/
theorem isSafeRelativePath_iff {p : Bytes} :
    isSafeRelativePath p = true ↔ 0 ∉ p ∧ ∀ c ∈ split p, IsName c := by
  simp only [isSafeRelativePath, Bool.and_eq_true, decide_eq_true_eq, Bool.not_eq_true', List.all_eq_true,
    List.contains_eq_mem, decide_eq_false_iff_not]
  constructor
  · intro h
    obtain ⟨⟨⟨⟨hne, hroot⟩, hzero⟩, hnormal⟩, hcomponents⟩ := h
    refine ⟨hzero, ?_⟩
    have hnames : ∀ c ∈ split p, c = [] ∨ IsName c := by
      intro c hc
      by_cases hempty : c = []
      · exact .inl hempty
      · have hmem : c ∈ components p :=
          List.mem_append_left _ (List.mem_filter.2 ⟨hc, decide_eq_true hempty⟩)
        have hplain := hcomponents c hmem
        exact .inr ⟨hempty, hplain.1.2, hplain.2, sep_not_mem_split hc⟩
    have htail : (split p).getLast? ≠ some [] := by
      intro hlast
      have hmem : [] ∈ components p := by
        rw [components, if_pos ⟨hne, hlast⟩]
        exact List.mem_append_right _ List.mem_cons_self
      exact absurd rfl (hcomponents [] hmem).1.1
    have hreduce : reduce false (split p) = (split p).filter (· ≠ []) := by
      rw [reduce, follow_skip hnames, List.nil_append]
    have hkept : ∀ c ∈ (split p).filter (· ≠ []), IsName c := by
      intro c hc
      obtain ⟨hc, hempty⟩ := List.mem_filter.1 hc
      exact (hnames c hc).resolve_left (of_decide_eq_true hempty)
    have hsplit : split p = (split p).filter (· ≠ []) := by
      simp only [lexicallyNormal, hreduce] at hnormal
      rw [if_neg hne] at hnormal
      by_cases hnil : (split p).filter (· ≠ []) = []
      · rw [if_pos hnil] at hnormal
        rw [← hnormal] at hnil
        exact absurd hnil (by decide)
      · have hlast : ¬ ((split p).getLast? ∈ [some [], some dot, some dotdot]) := by
          simp only [List.mem_cons, List.not_mem_nil, or_false, not_or]
          refine ⟨htail, fun hdot => ?_, fun hdot => ?_⟩
          · exact absurd (hnames _ (List.mem_of_getLast? hdot)) (by decide)
          · exact absurd (hnames _ (List.mem_of_getLast? hdot)) (by decide)
        rw [if_neg hnil, if_neg fun hend => hlast hend.2] at hnormal
        calc split p = split ([sep].intercalate ((split p).filter (· ≠ []))) := by rw [hnormal]
          _ = _ := split_intercalate (fun c hc => (hkept c hc).2.2.2) hnil
    rw [hsplit]
    exact hkept
  · intro h
    obtain ⟨hzero, hnames⟩ := h
    have hne : p ≠ [] := by
      rintro rfl
      exact absurd (hnames [] (by simp [split])) (by decide)
    refine ⟨⟨⟨⟨hne, ?_⟩, hzero⟩, lexicallyNormal_of_names hnames⟩, ?_⟩
    · by_contra hroot
      cases p with
      | nil => exact hne rfl
      | cons b s =>
        have hb : b = sep := by simpa [rooted] using hroot
        have hmem : [] ∈ split (b :: s) := by
          rw [hb, show sep :: s = [] ++ sep :: s from rfl, split_append]
          exact List.mem_append_left _ (by simp [split])
        exact absurd (hnames [] hmem) (by decide)
    · intro c hc
      rw [components_of_names hnames] at hc
      exact ⟨⟨(hnames c hc).1, (hnames c hc).2.1⟩, (hnames c hc).2.2.1⟩

/-! ## Inventories -/

structure CheckpointDirectory where
  relativePath : Bytes
  permissions : ℕ
  deriving DecidableEq, Repr

structure CheckpointFile where
  sourceLocator : Bytes
  relativePath : Bytes
  sizeBytes : ℕ
  permissions : ℕ
  deriving DecidableEq, Repr

structure CheckpointInventory where
  rootPermissions : ℕ
  directories : List CheckpointDirectory
  files : List CheckpointFile
  deriving DecidableEq, Repr

def kMaxIndexBytes : ℕ := 4 * 1024 * 1024

def kMaxManifestBytes : ℕ := 1024 * 1024

def kMaxCheckpointEntries : ℕ := 10000

def kMaxCheckpointBytes : ℕ := 2 ^ 40

def kCheckpointManifestName : Bytes := literal "manifest.yaml"

def maxMode : ℕ := 0o777

def hasValidInventoryLimits (inventory : CheckpointInventory) : Bool :=
  inventory.files.length + inventory.directories.length ≤ kMaxCheckpointEntries && inventory.rootPermissions ≤ maxMode

/-- The path is added to the paths met before. Safe paths are equal as sets hold them exactly if their
texts are. -/
def registerCheckpointEntry (path : Bytes) (mode : ℕ) (paths directories : List Bytes) : Option (List Bytes) :=
  if !isSafeRelativePath path || path.length > 512 then none
  else if path.contains 92 then none
  else if path.any fun c => c < 32 || c = 127 then none
  else if mode > maxMode || paths.contains path then none
  else if parentPath path ≠ [] && !directories.contains (parentPath path) then none
  else if !Utf8.valid path then none
  else some (paths ++ [path])

def isSorted {α : Type} (less : α → α → Bool) : List α → Bool
  | a :: b :: l => !less b a && isSorted less (b :: l)
  | _ => true

def checkpointEntriesAreOrdered (inventory : CheckpointInventory) : Bool :=
  isSorted pathLess (inventory.directories.map (·.relativePath)) &&
    isSorted pathLess (inventory.files.map (·.relativePath))

/-- What the loops of `ValidateCheckpointInventory` have seen. -/
structure Seen where
  paths : List Bytes
  directories : List Bytes
  bytes : ℕ
  manifest : Bool

def invalidEntry : String := "invalid checkpoint path or permissions"

def addDirectory (seen : Seen) (directory : CheckpointDirectory) : Except String Seen :=
  match registerCheckpointEntry directory.relativePath directory.permissions seen.paths seen.directories with
  | none => .error invalidEntry
  | some paths => .ok { seen with paths, directories := seen.directories ++ [directory.relativePath] }

def addFile (seen : Seen) (file : CheckpointFile) : Except String Seen :=
  match registerCheckpointEntry file.relativePath file.permissions seen.paths seen.directories with
  | none => .error invalidEntry
  | some paths =>
    if file.sizeBytes > kMaxCheckpointBytes - seen.bytes then .error "checkpoint has invalid size"
    else if file.relativePath = kCheckpointManifestName ∧ (file.sizeBytes = 0 ∨ file.sizeBytes > kMaxManifestBytes) then
      .error "invalid checkpoint manifest size"
    else .ok { seen with
      paths, bytes := seen.bytes + file.sizeBytes,
      manifest := seen.manifest || file.relativePath = kCheckpointManifestName }

def validateCheckpointInventory (inventory : CheckpointInventory) : Except String ℕ :=
  if !hasValidInventoryLimits inventory then .error "checkpoint exceeds index limits"
  else do
    let seen ← inventory.directories.foldlM addDirectory ⟨[], [], 0, false⟩
    if !checkpointEntriesAreOrdered inventory then .error "checkpoint entries are not ordered"
    else
      let seen ← inventory.files.foldlM addFile seen
      if !seen.manifest then .error "checkpoint requires manifest.yaml" else .ok seen.bytes

/-! ## What is accepted -/

/-- An entry that is fine on its own. -/
structure Plain (path : Bytes) (mode : ℕ) : Prop where
  safe : isSafeRelativePath path = true
  short : path.length ≤ 512
  noBackslash : 92 ∉ path
  printable : ∀ c ∈ path, ¬ (c < 32 ∨ c = 127)
  mode : mode ≤ maxMode
  utf8 : Utf8.valid path = true

/-- An entry lies at the top or in one of the directories. -/
def Held (directories : List Bytes) (path : Bytes) : Prop := parentPath path = [] ∨ parentPath path ∈ directories

/-- An inventory whose entries are fine on their own, distinct, ordered and held by directories that come
before them, with a manifest. -/
structure Accepted (inventory : CheckpointInventory) : Prop where
  count : inventory.files.length + inventory.directories.length ≤ kMaxCheckpointEntries
  rootMode : inventory.rootPermissions ≤ maxMode
  plainDirectories : ∀ d ∈ inventory.directories, Plain d.relativePath d.permissions
  plainFiles : ∀ f ∈ inventory.files, Plain f.relativePath f.permissions
  distinct : (inventory.directories.map (·.relativePath) ++ inventory.files.map (·.relativePath)).Nodup
  heldDirectories : ∀ before d after, inventory.directories = before ++ d :: after →
    Held (before.map (·.relativePath)) d.relativePath
  heldFiles : ∀ f ∈ inventory.files, Held (inventory.directories.map (·.relativePath)) f.relativePath
  ordered : checkpointEntriesAreOrdered inventory = true
  bytes : (inventory.files.map (·.sizeBytes)).sum ≤ kMaxCheckpointBytes
  manifestSize : ∀ f ∈ inventory.files, f.relativePath = kCheckpointManifestName →
    0 < f.sizeBytes ∧ f.sizeBytes ≤ kMaxManifestBytes
  manifest : ∃ f ∈ inventory.files, f.relativePath = kCheckpointManifestName

theorem registerCheckpointEntry_eq_some {path : Bytes} {mode : ℕ} {paths paths' directories : List Bytes} :
    registerCheckpointEntry path mode paths directories = some paths' ↔
      (Plain path mode ∧ path ∉ paths ∧ Held directories path) ∧ paths' = paths ++ [path] := by
  have hguard : ∀ {c : Bool} {x : Option (List Bytes)}, (if c then none else x) = some paths' ↔ c = false ∧ x = some paths' := by
    intro c x
    cases c <;> simp
  have hheld : (parentPath path ≠ [] && !directories.contains (parentPath path)) = false ↔ Held directories path := by
    simp [Held, or_iff_not_imp_left]
  rw [registerCheckpointEntry, hguard, hguard, hguard, hguard, hguard, hheld, hguard, Option.some.injEq, eq_comm (a := paths ++ [path])]
  simp only [Bool.or_eq_false_iff, Bool.not_eq_false', decide_eq_false_iff_not, not_lt, List.contains_eq_mem,
    List.any_eq_false, Bool.or_eq_true, decide_eq_true_eq, gt_iff_lt]
  constructor
  · intro ⟨⟨hsafe, hshort⟩, hslash, hcontrol, ⟨hmode, hfresh⟩, hparent, hutf8, hpaths⟩
    exact ⟨⟨⟨hsafe, hshort, hslash, hcontrol, hmode, hutf8⟩, hfresh, hparent⟩, hpaths⟩
  · intro ⟨⟨⟨hsafe, hshort, hslash, hcontrol, hmode, hutf8⟩, hfresh, hparent⟩, hpaths⟩
    exact ⟨⟨hsafe, hshort⟩, hslash, hcontrol, ⟨hmode, hfresh⟩, hparent, hutf8, hpaths⟩

def Seen.withDirectory (seen : Seen) (d : CheckpointDirectory) : Seen :=
  { seen with paths := seen.paths ++ [d.relativePath], directories := seen.directories ++ [d.relativePath] }

def Seen.withFile (seen : Seen) (f : CheckpointFile) : Seen :=
  { seen with
    paths := seen.paths ++ [f.relativePath], bytes := seen.bytes + f.sizeBytes,
    manifest := seen.manifest || f.relativePath = kCheckpointManifestName }

theorem addDirectory_eq_ok {seen seen' : Seen} {d : CheckpointDirectory} :
    addDirectory seen d = .ok seen' ↔
      (Plain d.relativePath d.permissions ∧ d.relativePath ∉ seen.paths ∧ Held seen.directories d.relativePath) ∧
        seen' = seen.withDirectory d := by
  rw [addDirectory]
  cases h : registerCheckpointEntry d.relativePath d.permissions seen.paths seen.directories with
  | none =>
    simp only [reduceCtorEq, false_iff]
    intro ⟨hplain, _⟩
    have hsome := registerCheckpointEntry_eq_some.2 ⟨hplain, rfl⟩
    rw [h] at hsome
    cases hsome
  | some paths =>
    obtain ⟨hplain, rfl⟩ := registerCheckpointEntry_eq_some.1 h
    simp [hplain, Seen.withDirectory, eq_comm]

theorem addFile_eq_ok {seen seen' : Seen} {f : CheckpointFile} :
    addFile seen f = .ok seen' ↔
      ((Plain f.relativePath f.permissions ∧ (f.relativePath = kCheckpointManifestName →
          0 < f.sizeBytes ∧ f.sizeBytes ≤ kMaxManifestBytes)) ∧
        f.relativePath ∉ seen.paths ∧ Held seen.directories f.relativePath ∧
        f.sizeBytes ≤ kMaxCheckpointBytes - seen.bytes) ∧ seen' = seen.withFile f := by
  have hmanifest : ¬ (f.relativePath = kCheckpointManifestName ∧ (f.sizeBytes = 0 ∨ f.sizeBytes > kMaxManifestBytes)) ↔
      (f.relativePath = kCheckpointManifestName → 0 < f.sizeBytes ∧ f.sizeBytes ≤ kMaxManifestBytes) := by
    rw [not_and, not_or, not_lt, Nat.pos_iff_ne_zero]
  rw [addFile]
  cases h : registerCheckpointEntry f.relativePath f.permissions seen.paths seen.directories with
  | none =>
    simp only [reduceCtorEq, false_iff]
    intro ⟨⟨⟨hplain, _⟩, hfresh, hheld, _⟩, _⟩
    have hsome := registerCheckpointEntry_eq_some.2 ⟨⟨hplain, hfresh, hheld⟩, rfl⟩
    rw [h] at hsome
    cases hsome
  | some paths =>
    obtain ⟨⟨hplain, hfresh, hheld⟩, rfl⟩ := registerCheckpointEntry_eq_some.1 h
    simp only [guard_eq_ok, hmanifest, not_lt, Except.ok.injEq]
    constructor
    · intro ⟨hsize, hname, heq⟩
      exact ⟨⟨⟨hplain, hname⟩, hfresh, hheld, hsize⟩, heq.symm⟩
    · intro ⟨⟨⟨_, hname⟩, _, _, hsize⟩, heq⟩
      exact ⟨hsize, hname, heq.symm⟩

theorem foldl_withDirectory (directories : List CheckpointDirectory) (seen : Seen) :
    directories.foldl Seen.withDirectory seen =
      { seen with
        paths := seen.paths ++ directories.map (·.relativePath)
        directories := seen.directories ++ directories.map (·.relativePath) } := by
  induction directories generalizing seen with
  | nil => simp
  | cons d directories ih => simp [ih, Seen.withDirectory]

theorem foldl_withFile (files : List CheckpointFile) (seen : Seen) :
    files.foldl Seen.withFile seen =
      { seen with
        paths := seen.paths ++ files.map (·.relativePath)
        bytes := seen.bytes + (files.map (·.sizeBytes)).sum
        manifest := seen.manifest || files.any fun f => f.relativePath = kCheckpointManifestName } := by
  induction files generalizing seen with
  | nil => simp
  | cons f files ih => simp [ih, Seen.withFile, Nat.add_assoc, Bool.or_assoc]

/-- The sizes are admitted one by one exactly if their sum is within the limit. -/
theorem admitted_bytes {files : List CheckpointFile} {seen : Seen} (h : seen.bytes ≤ kMaxCheckpointBytes) :
    Admitted (fun (seen : Seen) (f : CheckpointFile) => f.sizeBytes ≤ kMaxCheckpointBytes - seen.bytes)
      Seen.withFile seen files ↔ seen.bytes + (files.map (·.sizeBytes)).sum ≤ kMaxCheckpointBytes := by
  induction files generalizing seen with
  | nil => simp [Admitted, h]
  | cons f files ih =>
    have hbytes : (seen.withFile f).bytes = seen.bytes + f.sizeBytes := rfl
    rw [Admitted, List.map_cons, List.sum_cons]
    constructor
    · intro h
      obtain ⟨hf, hrest⟩ := h
      have hle : (seen.withFile f).bytes ≤ kMaxCheckpointBytes := by omega
      have hsum := (ih hle).1 hrest
      omega
    · intro hsum
      have hle : (seen.withFile f).bytes ≤ kMaxCheckpointBytes := by omega
      exact ⟨by omega, (ih hle).2 (by omega)⟩

theorem directories_eq_ok {directories : List CheckpointDirectory} {seen : Seen} :
    directories.foldlM addDirectory ⟨[], [], 0, false⟩ = .ok seen ↔
      ((∀ d ∈ directories, Plain d.relativePath d.permissions) ∧ (directories.map (·.relativePath)).Nodup ∧
        ∀ before d after, directories = before ++ d :: after → Held (before.map (·.relativePath)) d.relativePath) ∧
      seen = ⟨directories.map (·.relativePath), directories.map (·.relativePath), 0, false⟩ := by
  rw [foldlM_eq_ok (fun _ _ _ => addDirectory_eq_ok), admitted_and, admitted_const, admitted_and,
    admitted_fresh CheckpointDirectory.relativePath Seen.paths (fun _ _ => rfl) rfl, admitted_iff_split]
  simp only [foldl_withDirectory, List.nil_append]

theorem files_eq_ok {files : List CheckpointFile} {paths : List Bytes} (hpaths : paths.Nodup) {seen : Seen} :
    files.foldlM addFile ⟨paths, paths, 0, false⟩ = .ok seen ↔
      ((∀ f ∈ files, Plain f.relativePath f.permissions ∧ (f.relativePath = kCheckpointManifestName →
          0 < f.sizeBytes ∧ f.sizeBytes ≤ kMaxManifestBytes)) ∧ (paths ++ files.map (·.relativePath)).Nodup ∧
        (∀ f ∈ files, Held paths f.relativePath) ∧ (files.map (·.sizeBytes)).sum ≤ kMaxCheckpointBytes) ∧
      seen = ⟨paths ++ files.map (·.relativePath), paths, (files.map (·.sizeBytes)).sum,
        files.any fun f => f.relativePath = kCheckpointManifestName⟩ := by
  have hkept : ∀ (seen : Seen) (f : CheckpointFile), (seen.withFile f).directories = seen.directories := fun _ _ => rfl
  rw [foldlM_eq_ok (fun _ _ _ => addFile_eq_ok), admitted_and, admitted_const, admitted_and,
    admitted_fresh_append CheckpointFile.relativePath Seen.paths (fun _ _ => rfl) hpaths, admitted_and,
    admitted_unchanged (fun directories (f : CheckpointFile) => Held directories f.relativePath) Seen.directories hkept,
    admitted_bytes (Nat.zero_le _), foldl_withFile]
  simp only [Nat.zero_add, Bool.false_or]

/-- An inventory is accepted exactly if it is one, and its bytes are counted. -/
theorem validateCheckpointInventory_eq_ok {inventory : CheckpointInventory} {bytes : ℕ} :
    validateCheckpointInventory inventory = .ok bytes ↔
      Accepted inventory ∧ bytes = (inventory.files.map (·.sizeBytes)).sum := by
  rw [validateCheckpointInventory, guard_eq_ok, bind_eq_ok]
  simp only [hasValidInventoryLimits, Bool.not_eq_true', Bool.and_eq_false_iff, decide_eq_false_iff_not, not_or, not_not]
  constructor
  · intro ⟨⟨hcount, hroot⟩, seen, hdirectories, h⟩
    obtain ⟨⟨hplain, hnodup, hheld⟩, rfl⟩ := directories_eq_ok.1 hdirectories
    obtain ⟨hordered, h⟩ := guard_eq_ok.1 h
    obtain ⟨seen, hfiles, h⟩ := bind_eq_ok.1 h
    obtain ⟨⟨hfile, hdistinct, hheldFiles, hbytes⟩, rfl⟩ := (files_eq_ok hnodup).1 hfiles
    obtain ⟨hmanifest, h⟩ := guard_eq_ok.1 h
    cases h
    refine ⟨⟨hcount, hroot, hplain, fun f hf => (hfile f hf).1, hdistinct, hheld, hheldFiles, by simpa using hordered,
      hbytes, fun f hf => (hfile f hf).2, ?_⟩, rfl⟩
    simpa using hmanifest
  · intro ⟨h, hbytes⟩
    have hnodup := (List.nodup_append.1 h.distinct).1
    refine ⟨⟨h.count, h.rootMode⟩, _, directories_eq_ok.2 ⟨⟨h.plainDirectories, hnodup, h.heldDirectories⟩, rfl⟩, ?_⟩
    refine guard_eq_ok.2 ⟨by simp [h.ordered], bind_eq_ok.2 ⟨_, (files_eq_ok hnodup).2 ⟨⟨?_, h.distinct, h.heldFiles,
      h.bytes⟩, rfl⟩, guard_eq_ok.2 ⟨by simpa using h.manifest, by rw [hbytes]⟩⟩⟩
    exact fun f hf => ⟨h.plainFiles f hf, h.manifestSize f hf⟩

end Checkpoint
