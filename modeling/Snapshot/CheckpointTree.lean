import Snapshot.CheckpointInventory

/-! # The tree of a checkpoint

A restore creates the destination, the directories of an inventory in their order and then its files, each
where nothing is yet. A checkpoint is read back into an inventory by a walk over its tree. -/
namespace Checkpoint

open LexicalPath
open ByteText (literal)
open CheckedFold

/-! ## Paths as sequences of names -/

theorem split_injective {p q : Bytes} (h : split p = split q) : p = q := by
  rw [← intercalate_split p, h, intercalate_split]

theorem isName_of_safe {p c : Bytes} (h : isSafeRelativePath p = true) (hc : c ∈ split p) : IsName c :=
  (isSafeRelativePath_iff.1 h).2 c hc

theorem resolve_of_safe {at_ : Path} {p : Bytes} (h : isSafeRelativePath p = true) : resolve at_ p = at_ ++ split p := by
  have hroot : rooted p = false := by
    simp only [isSafeRelativePath, Bool.and_eq_true, Bool.not_eq_true'] at h
    exact h.1.1.1.2
  rw [resolve, hroot, follow_names fun c => isName_of_safe h]
  rfl

theorem split_parentPath {p : Bytes} (hne : (split p).dropLast ≠ []) :
    split (parentPath p) = (split p).dropLast :=
  split_intercalate (fun _ hc => sep_not_mem_split (List.mem_of_mem_dropLast hc)) hne

theorem parentPath_eq_nil {p : Bytes} (h : isSafeRelativePath p = true) :
    parentPath p = [] ↔ (split p).dropLast = [] := by
  constructor
  · intro hnil
    by_contra hne
    exact intercalate_ne_nil (fun c hc => (isName_of_safe h (List.mem_of_mem_dropLast hc)).1) hne hnil
  · intro hnil
    rw [parentPath, hnil]
    rfl

/-- The directory that holds an entry, from the destination on. -/
theorem dropLast_of_held (destination : Path) {directories : List Bytes} {p : Bytes} (hsafe : isSafeRelativePath p = true)
    (h : Held directories p) :
    (destination ++ split p).dropLast = destination ∨
      ∃ d ∈ directories, (destination ++ split p).dropLast = destination ++ split d := by
  have hsplit : split p ≠ [] := List.splitOn_ne_nil _ _
  rw [List.dropLast_append_of_ne_nil hsplit]
  by_cases hnil : (split p).dropLast = []
  · exact .inl (by rw [hnil, List.append_nil])
  · have hparent := h.resolve_left fun hempty => hnil ((parentPath_eq_nil hsafe).1 hempty)
    exact .inr ⟨_, hparent, by rw [split_parentPath hnil]⟩

/-! ## Creating the entries of an inventory -/

theorem node_below {γ : Type} {t : FileTree γ} {destination s : Path} (h : t.node destination = none) :
    t.node (destination ++ s) = none := by
  by_contra hnode
  exact FileTree.node_of_prefix (List.prefix_append _ _) hnode h

section Create

variable {γ : Type} [DecidableEq γ] {t : FileTree γ}

def createDirectoryTree (inventory : CheckpointInventory) (destination : Path) (t : FileTree γ) :
    Except FileTree.Errno (FileTree γ) := do
  let t ← t.createDirectory destination
  inventory.directories.foldlM (fun t d => t.createDirectory (resolve destination d.relativePath)) t

/-- A file is opened with `O_CREAT | O_EXCL`. -/
def createFiles (content : CheckpointFile → γ) (inventory : CheckpointInventory) (destination : Path) (t : FileTree γ) :
    Except FileTree.Errno (FileTree γ) :=
  inventory.files.foldlM (fun t f => t.create (.file (content f)) (resolve destination f.relativePath)) t

def materialize (content : CheckpointFile → γ) (inventory : CheckpointInventory) (destination : Path) (t : FileTree γ) :
    Except FileTree.Errno (FileTree γ) :=
  createDirectoryTree inventory destination t >>= createFiles content inventory destination

/-- Exactly the destination and the entries of an inventory below it were added. -/
structure Materialized (content : CheckpointFile → γ) (inventory : CheckpointInventory) (destination : Path)
    (t t' : FileTree γ) : Prop where
  root : t'.node destination = some .directory
  directories : ∀ d ∈ inventory.directories, t'.node (destination ++ split d.relativePath) = some .directory
  files : ∀ f ∈ inventory.files, t'.node (destination ++ split f.relativePath) = some (.file (content f))
  others : ∀ q, q ≠ destination → (∀ d ∈ inventory.directories, q ≠ destination ++ split d.relativePath) →
    (∀ f ∈ inventory.files, q ≠ destination ++ split f.relativePath) → t'.node q = t.node q

theorem append_split_injective (destination : Path) :
    Function.Injective fun p : Bytes => destination ++ split p :=
  fun _ _ h => split_injective (List.append_cancel_left h)

theorem append_split_ne (destination : Path) (p : Bytes) : destination ++ split p ≠ destination := by
  intro h
  exact List.splitOn_ne_nil sep p (List.append_right_eq_self.1 h)

theorem names_below {destination : Path} {p : Bytes} (hdestination : ∀ c ∈ destination, IsName c)
    (hsafe : isSafeRelativePath p = true) : ∀ c ∈ destination ++ split p, IsName c := by
  intro c hc
  rcases List.mem_append.1 hc with hc | hc
  · exact hdestination c hc
  · exact isName_of_safe hsafe hc

/-- The destination and the directories are created, each in a directory that was created before it. -/
theorem exists_createDirectoryTree {inventory : CheckpointInventory} {destination : Path} (h : Accepted inventory)
    (hnames : ∀ c ∈ destination, IsName c) (hfresh : t.node destination = none)
    (hparent : t.node destination.dropLast = some .directory) :
    ∃ t', createDirectoryTree inventory destination t = .ok t' ∧ t'.node destination = some .directory ∧
      (∀ d ∈ inventory.directories, t'.node (destination ++ split d.relativePath) = some .directory) ∧
      ∀ q, q ≠ destination → (∀ d ∈ inventory.directories, q ≠ destination ++ split d.relativePath) →
        t'.node q = t.node q := by
  obtain ⟨t₁, hroot, hnode⟩ := FileTree.exists_create (n := .directory) hnames hfresh hparent
  have hbelow : ∀ p : Bytes, t₁.node (destination ++ split p) = none := by
    intro p
    rw [hnode, if_neg (append_split_ne destination p), node_below hfresh]
  have hdistinct : (inventory.directories.map fun d => destination ++ split d.relativePath).Nodup := by
    have hpaths := (List.nodup_append.1 h.distinct).1
    have hmapped := hpaths.map (append_split_injective destination)
    rwa [List.map_map] at hmapped
  have hpath : ∀ d ∈ inventory.directories, resolve destination d.relativePath = destination ++ split d.relativePath :=
    fun d hd => resolve_of_safe (h.plainDirectories d hd).safe
  have hfold := FileTree.exists_foldlM_create (t := t₁)
    (fun d : CheckpointDirectory => destination ++ split d.relativePath) (fun _ => .directory)
    (fun t d => t.createDirectory (resolve destination d.relativePath))
    (fun t d hd hfree => by rw [hpath d hd, FileTree.createDirectory_of_fresh hfree])
    (fun d hd => names_below hnames (h.plainDirectories d hd).safe) (fun d _ => hbelow d.relativePath) hdistinct <| by
      intro before d after heq
      have hd : d ∈ inventory.directories := by simp [heq]
      obtain htop | ⟨p, hp, hinner⟩ := dropLast_of_held destination (h.plainDirectories d hd).safe
        (h.heldDirectories before d after heq)
      · exact .inl (by rw [htop, hnode, if_pos rfl])
      · obtain ⟨b, hb, rfl⟩ := List.mem_map.1 hp
        exact .inr ⟨b, hb, hinner.symm, rfl⟩
  obtain ⟨t', hrun, hmade, hkept⟩ := hfold
  refine ⟨t', ?_, ?_, hmade, ?_⟩
  · exact bind_eq_ok.2 ⟨t₁, by rw [FileTree.createDirectory_of_fresh hfresh, hroot], hrun⟩
  · rw [hkept, hnode, if_pos rfl]
    intro hmem
    obtain ⟨d, -, heq⟩ := List.mem_map.1 hmem
    exact append_split_ne _ _ heq
  · intro q hq hothers
    rw [hkept, hnode, if_neg hq]
    intro hmem
    obtain ⟨d, hd, heq⟩ := List.mem_map.1 hmem
    exact hothers d hd heq.symm

/-- An accepted inventory is created without a failure at any destination that is free. -/
theorem exists_materialize (content : CheckpointFile → γ) {inventory : CheckpointInventory} {destination : Path}
    (h : Accepted inventory) (hnames : ∀ c ∈ destination, IsName c) (hfresh : t.node destination = none)
    (hparent : t.node destination.dropLast = some .directory) :
    ∃ t', materialize content inventory destination t = .ok t' ∧ Materialized content inventory destination t t' := by
  obtain ⟨t₁, htree, hroot, hdirectories, hothers⟩ := exists_createDirectoryTree h hnames hfresh hparent
  obtain ⟨-, hfiles, hdisjoint⟩ := List.nodup_append.1 h.distinct
  have hother : ∀ f ∈ inventory.files, ∀ d ∈ inventory.directories,
      destination ++ split f.relativePath ≠ destination ++ split d.relativePath := by
    intro f hf d hd heq
    exact hdisjoint _ (List.mem_map_of_mem hd) _ (List.mem_map_of_mem hf) (append_split_injective destination heq).symm
  have hdistinct : (inventory.files.map fun f => destination ++ split f.relativePath).Nodup := by
    have hmapped := hfiles.map (append_split_injective destination)
    rwa [List.map_map] at hmapped
  have hpath : ∀ f ∈ inventory.files, resolve destination f.relativePath = destination ++ split f.relativePath :=
    fun f hf => resolve_of_safe (h.plainFiles f hf).safe
  have hfold := FileTree.exists_foldlM_create (t := t₁)
    (fun f : CheckpointFile => destination ++ split f.relativePath) (fun f => .file (content f))
    (fun t f => t.create (.file (content f)) (resolve destination f.relativePath))
    (fun t f hf _ => by rw [hpath f hf])
    (fun f hf => names_below hnames (h.plainFiles f hf).safe)
    (fun f hf => by rw [hothers _ (append_split_ne _ _) (hother f hf), node_below hfresh]) hdistinct <| by
      intro before f after heq
      have hf : f ∈ inventory.files := by simp [heq]
      obtain htop | ⟨p, hp, hinner⟩ := dropLast_of_held destination (h.plainFiles f hf).safe
        (h.heldFiles f hf)
      · exact .inl (by rw [htop, hroot])
      · obtain ⟨d, hd, rfl⟩ := List.mem_map.1 hp
        exact .inl (by rw [hinner, hdirectories d hd])
  obtain ⟨t', hrun, hmade, hkept⟩ := hfold
  refine ⟨t', bind_eq_ok.2 ⟨t₁, htree, hrun⟩, ?_, ?_, hmade, ?_⟩
  · rw [hkept, hroot]
    intro hmem
    obtain ⟨f, -, heq⟩ := List.mem_map.1 hmem
    exact append_split_ne _ _ heq
  · intro d hd
    rw [hkept, hdirectories d hd]
    intro hmem
    obtain ⟨f, hf, heq⟩ := List.mem_map.1 hmem
    exact hother f hf d hd heq
  · intro q hq hqd hqf
    rw [hkept, hothers q hq hqd]
    intro hmem
    obtain ⟨f, hf, heq⟩ := List.mem_map.1 hmem
    exact hqf f hf heq.symm

end Create

/-! ## Paths of entries -/

/-- The root directory of a path and its names. -/
def stem (p : Bytes) : Path := (if rooted p then [[sep]] else []) ++ (split p).filter (· ≠ [])

/-- The elements of a path, with an empty one for a trailing separator. -/
def elements (p : Bytes) : Path :=
  stem p ++ if (split p).filter (· ≠ []) ≠ [] ∧ (split p).getLast? = some [] then [[]] else []

/-- `operator/` with a name. -/
def appendPath (p name : Bytes) : Bytes := if p = [] ∨ p.getLast? = some sep then p ++ name else p ++ sep :: name

/-- How many directories up the rest of a base leads. -/
def ascent (b : Path) : ℤ :=
  b.foldl (fun n c => if c = dotdot then n - 1 else if c = [] ∨ c = dot then n else n + 1) 0

def lexicallyRelative (p base : Bytes) : Bytes :=
  if rooted p ≠ rooted base then []
  else
    let (a, b) := stripCommon (elements p) (elements base)
    if a = [] ∧ b = [] then dot
    else if ascent b = 0 ∧ (a = [] ∨ a.head? = some []) then dot
    else if 0 ≤ ascent b then [sep].intercalate (List.replicate (ascent b).toNat dotdot ++ a)
    else []

theorem elements_eq (p : Bytes) : elements p = stem p ∨ elements p = stem p ++ [[]] := by
  rw [elements]
  split
  · exact .inr rfl
  · exact .inl (List.append_nil _)

theorem rooted_appendPath {p name : Bytes} (h : p ≠ []) : rooted (appendPath p name) = rooted p := by
  rw [appendPath]
  split
  · exact rooted_append h _
  · exact rooted_append h _

theorem split_appendPath {p name : Bytes} (h : p ≠ []) (hname : IsName name) :
    (split (appendPath p name)).filter (· ≠ []) = (split p).filter (· ≠ []) ++ [name] ∧
      (split (appendPath p name)).getLast? = some name := by
  have hsplit : split name = [name] := split_of_not_mem hname.2.2.2
  have hkept : [name].filter (· ≠ []) = [name] := by simp [hname.1]
  rw [appendPath]
  split
  · rename_i hend
    obtain ⟨q, rfl⟩ := List.getLast?_eq_some_iff.1 (hend.resolve_left h)
    have hq : split (q ++ [sep]) = split q ++ [[]] := split_append q []
    rw [List.append_assoc, List.singleton_append, split_append, hsplit, hq]
    exact ⟨by simp [hname.1], by simp⟩
  · rw [split_append, hsplit, List.filter_append, hkept]
    exact ⟨rfl, by simp⟩

theorem stem_appendPath {p name : Bytes} (h : p ≠ []) (hname : IsName name) :
    stem (appendPath p name) = stem p ++ [name] := by
  rw [stem, stem, rooted_appendPath h, (split_appendPath h hname).1, List.append_assoc]

theorem elements_appendPath {p name : Bytes} (h : p ≠ []) (hname : IsName name) :
    elements (appendPath p name) = stem (appendPath p name) := by
  rw [elements, (split_appendPath h hname).2, if_neg, List.append_nil]
  intro hend
  exact hname.1 (Option.some.inj hend.2)

theorem appendPath_ne_nil {p : Bytes} (name : Bytes) (h : p ≠ []) : appendPath p name ≠ [] := by
  rw [appendPath]
  split <;> simp [h]

/-- The path of an entry below a source. -/
def entryPath (source : Bytes) (names : Path) : Bytes := names.foldl appendPath source

theorem elements_entryPath {source : Bytes} {names : Path} (h : source ≠ []) (hnames : ∀ c ∈ names, IsName c)
    (hne : names ≠ []) :
    elements (entryPath source names) = stem source ++ names ∧ rooted (entryPath source names) = rooted source := by
  have hstem : stem (entryPath source names) = stem source ++ names ∧ rooted (entryPath source names) = rooted source ∧
      elements (entryPath source names) = stem (entryPath source names) := by
    induction names generalizing source with
    | nil => exact absurd rfl hne
    | cons c names ih =>
      have hc := hnames c List.mem_cons_self
      have hentry : entryPath source (c :: names) = entryPath (appendPath source c) names := rfl
      rw [hentry]
      by_cases hnil : names = []
      · subst hnil
        exact ⟨stem_appendPath h hc, rooted_appendPath h, elements_appendPath h hc⟩
      · obtain ⟨hstem, hroot, helements⟩ := ih (appendPath_ne_nil c h) (fun d hd => hnames d (List.mem_cons_of_mem _ hd)) hnil
        refine ⟨?_, by rw [hroot, rooted_appendPath h], helements⟩
        rw [hstem, stem_appendPath h hc, List.append_assoc, List.singleton_append]
  rw [hstem.2.2]
  exact ⟨hstem.1, hstem.2.1⟩

theorem stripCommon_append_right (b p : Path) : stripCommon (b ++ p) b = (p, []) := by
  induction b with
  | nil => cases p <;> rfl
  | cons c b ih => rw [List.cons_append, stripCommon, if_pos rfl, ih]

theorem stripCommon_append_of_ne {b p q : Path} {c d : Bytes} (hne : c ≠ d) :
    stripCommon (b ++ c :: p) (b ++ d :: q) = (c :: p, d :: q) := by
  induction b with
  | nil => exact if_neg hne
  | cons x b ih => rw [List.cons_append, List.cons_append, stripCommon, if_pos rfl, ih]

/-- The path of an entry relative to its source is the names that lead to it. -/
theorem lexicallyRelative_entryPath {source : Bytes} {names : Path} (h : source ≠ []) (hnames : ∀ c ∈ names, IsName c)
    (hne : names ≠ []) : lexicallyRelative (entryPath source names) source = [sep].intercalate names := by
  obtain ⟨helements, hroot⟩ := elements_entryPath h hnames hne
  obtain ⟨c, cs, rfl⟩ := List.exists_cons_of_ne_nil hne
  have hc : c ≠ [] := (hnames c List.mem_cons_self).1
  have hstrip : ∃ b, stripCommon (elements (entryPath source (c :: cs))) (elements source) = (c :: cs, b) ∧ ascent b = 0 := by
    rw [helements]
    rcases elements_eq source with heq | heq
    · exact ⟨[], by rw [heq, stripCommon_append_right], rfl⟩
    · exact ⟨[[]], by rw [heq, stripCommon_append_of_ne hc], by decide⟩
  obtain ⟨b, hstrip, hascent⟩ := hstrip
  rw [lexicallyRelative, if_neg (by simp [hroot]), hstrip]
  simp [hascent, hc]

/-! ## Reading a tree -/

/-- What is not a directory. -/
inductive FileKind where
  | regular (size : ℕ)
  | symlink
  | other
  deriving DecidableEq, Repr

/-- The files, their permissions and the working directory. -/
structure FileSystem where
  tree : FileTree FileKind
  modes : Path → ℕ
  cwd : Path

/-- Where a walk from a directory ends. Links are not followed: a source is refused at the first one. -/
def locate (tree : FileTree FileKind) : Path → Path → Option Path
  | here, [] => some here
  | here, c :: cs => if tree.node here = some .directory then locate tree (push true here c) cs else none

def FileSystem.absolute (fs : FileSystem) (source : Bytes) : Path := (if rooted source then [] else fs.cwd) ++ split source

def FileSystem.status (fs : FileSystem) (cs : Path) : Option (FileNode FileKind) := (locate fs.tree [] cs).bind fs.tree.node

def validateSourceRoot (fs : FileSystem) (source : Bytes) : Except String Unit :=
  if source = [] ∨ 0 ∈ source then .error "checkpoint source must be a directory path"
  else if (fs.absolute source).inits.any fun cs => fs.status cs = some (.file .symlink) then
    .error "checkpoint source contains a symlink"
  else if fs.status (fs.absolute source) ≠ some .directory then .error "checkpoint source must be a directory"
  else .ok ()

/-- One entry of the walk, by the names that lead to it from the root of the source. -/
def addEntry (fs : FileSystem) (source : Bytes) (root : Path) (limit : ℕ) (inventory : CheckpointInventory) (names : Path) :
    Except String CheckpointInventory :=
  let relative := lexicallyRelative (entryPath source names) source
  let mode := fs.modes (root ++ names)
  if inventory.files.length + inventory.directories.length ≥ limit then .error "checkpoint exceeds entry limit"
  else if fs.tree.node (root ++ names) = some (.file .symlink) then .error "checkpoint contains symlink"
  else if !isSafeRelativePath relative then .error "checkpoint contains invalid path"
  else
    match fs.tree.node (root ++ names) with
    | some .directory => .ok { inventory with directories := inventory.directories ++ [⟨relative, mode⟩] }
    | some (.file (.regular size)) =>
      .ok { inventory with files := inventory.files ++ [⟨entryPath source names, relative, size, mode⟩] }
    | _ => .error "checkpoint contains unsupported file type"

def sortedByPath {α : Type} (path : α → Bytes) (l : List α) : List α := l.mergeSort fun a b => !pathLess (path b) (path a)

/-- The inventory of a source whose entries are met in some order. -/
def buildCheckpointInventory (fs : FileSystem) (source : Bytes) (limit : ℕ) (order : List Path) :
    Except String CheckpointInventory := do
  let _ ← validateSourceRoot fs source
  let root := (locate fs.tree [] (fs.absolute source)).getD []
  let inventory ← order.foldlM (addEntry fs source root limit) ⟨fs.modes root, [], []⟩
  return { inventory with
    directories := sortedByPath (·.relativePath) inventory.directories
    files := sortedByPath (·.relativePath) inventory.files }

/-! ### The order of paths -/

theorem compare_append_lt (p : Path) {q : Path} (hq : q ≠ []) : compare p (p ++ q) = .lt := by
  rw [List.compare_eq_compareLex]
  induction p with
  | nil =>
    obtain ⟨c, q, rfl⟩ := List.exists_cons_of_ne_nil hq
    rfl
  | cons c p ih =>
    have hself : compare c c = .eq := Std.ReflCmp.compare_self
    rw [List.cons_append, List.compareLex_cons_cons, hself, ih]
    rfl

theorem pairwise_sortedByPath {α : Type} (path : α → Bytes) (l : List α) :
    (sortedByPath path l).Pairwise fun a b => pathLess (path b) (path a) = false := by
  have hswap : ∀ a b : α, compare (components (path b)) (components (path a)) =
      (compare (components (path a)) (components (path b))).swap := fun _ _ => Std.OrientedCmp.eq_swap
  have hle : ∀ a b : α, (!pathLess (path b) (path a)) = true ↔
      (compare (components (path a)) (components (path b))).isLE = true := by
    intro a b
    rw [pathLess, hswap]
    cases compare (components (path a)) (components (path b)) <;> decide
  have htrans : ∀ a b c : α, !pathLess (path b) (path a) → !pathLess (path c) (path b) →
      !pathLess (path c) (path a) := by
    intro a b c hab hbc
    rw [hle] at hab hbc ⊢
    exact Std.TransCmp.isLE_trans hab hbc
  have htotal : ∀ a b : α, !pathLess (path b) (path a) || !pathLess (path a) (path b) := by
    intro a b
    rw [Bool.or_eq_true, hle, hle, hswap a b]
    cases compare (components (path a)) (components (path b)) <;> decide
  exact (List.pairwise_mergeSort htrans htotal l).imp fun h => by simpa using h

theorem perm_sortedByPath {α : Type} (path : α → Bytes) (l : List α) : (sortedByPath path l).Perm l := List.mergeSort_perm _ _

theorem isSorted_of_pairwise {less : Bytes → Bytes → Bool} {l : List Bytes} (h : l.Pairwise fun a b => less b a = false) :
    isSorted less l = true := by
  induction l with
  | nil => rfl
  | cons a l ih =>
    cases l with
    | nil => rfl
    | cons b l =>
      rw [List.pairwise_cons] at h
      rw [isSorted, h.1 b List.mem_cons_self, ih h.2]
      rfl

/-- In the order of paths a directory comes before what it holds. -/
theorem mem_before_of_parent {α : Type} {path : α → Bytes} {l before after : List α} {a : α} {p : Bytes}
    (hsorted : l.Pairwise fun a b => pathLess (path b) (path a) = false) (hl : l = before ++ a :: after)
    (hp : p ∈ l.map path) (hless : pathLess p (path a) = true) : p ∈ before.map path := by
  subst hl
  rw [List.map_append, List.mem_append] at hp
  refine hp.resolve_right fun hmem => ?_
  rw [List.map_cons, List.mem_cons] at hmem
  obtain rfl | hmem := hmem
  · have hself : pathLess (path a) (path a) = false := by
      have heq : compare (components (path a)) (components (path a)) = .eq := Std.ReflCmp.compare_self
      rw [pathLess, heq]
      rfl
    rw [hself] at hless
    cases hless
  · obtain ⟨b, hb, rfl⟩ := List.mem_map.1 hmem
    have hle := (List.pairwise_cons.1 (List.pairwise_append.1 hsorted).2.1).1 b hb
    rw [hle] at hless
    cases hless

/-! ### The entries of a source -/

/-- The names that lead from a directory to the entries in it and below. -/
def below (tree : FileTree FileKind) (root : Path) : List Path :=
  (tree.paths.filter fun p => root.isPrefixOf p && p ≠ root).map (·.drop root.length)

theorem mem_below {tree : FileTree FileKind} {root names : Path} :
    names ∈ below tree root ↔ names ≠ [] ∧ tree.node (root ++ names) ≠ none := by
  simp only [below, List.mem_map, List.mem_filter, FileTree.mem_paths, Bool.and_eq_true, List.isPrefixOf_iff_prefix,
    decide_eq_true_eq]
  constructor
  · intro ⟨p, ⟨⟨_, hnode⟩, ⟨s, hs⟩, hne⟩, hdrop⟩
    subst hs
    rw [List.drop_left] at hdrop
    subst hdrop
    exact ⟨fun hnil => hne (by rw [hnil, List.append_nil]), hnode⟩
  · intro ⟨hne, hnode⟩
    refine ⟨root ++ names, ⟨⟨by simp [hne], hnode⟩, List.prefix_append _ _, ?_⟩, List.drop_left⟩
    intro heq
    exact hne (List.append_right_eq_self.1 heq)

theorem nodup_below (tree : FileTree FileKind) (root : Path) : (below tree root).Nodup := by
  have hkeys : tree.paths.Nodup := Std.ExtTreeMap.nodup_keys
  refine List.Nodup.map_on ?_ (hkeys.filter _)
  intro p hp q hq heq
  simp only [List.mem_filter, Bool.and_eq_true, List.isPrefixOf_iff_prefix] at hp hq
  obtain ⟨-, ⟨s, rfl⟩, -⟩ := hp
  obtain ⟨-, ⟨s', rfl⟩, -⟩ := hq
  rw [List.drop_left, List.drop_left] at heq
  rw [heq]

variable (fs : FileSystem) (source : Bytes) (root : Path)

def FileSystem.isDirectory (names : Path) : Bool := fs.tree.node (root ++ names) = some .directory

def FileSystem.sizeOf (names : Path) : ℕ :=
  match fs.tree.node (root ++ names) with
  | some (.file (.regular size)) => size
  | _ => 0

/-- The entry of an inventory for a directory of the tree. -/
def FileSystem.directoryAt (names : Path) : CheckpointDirectory := ⟨[sep].intercalate names, fs.modes (root ++ names)⟩

def FileSystem.fileAt (names : Path) : CheckpointFile :=
  ⟨entryPath source names, [sep].intercalate names, fs.sizeOf root names, fs.modes (root ++ names)⟩

/-- A tree of directories and regular files that an index can hold. -/
structure Publishable : Prop where
  count : (below fs.tree root).length ≤ kMaxCheckpointEntries
  rootMode : fs.modes root ≤ maxMode
  kinds : ∀ names ∈ below fs.tree root, fs.tree.node (root ++ names) = some .directory ∨
    ∃ size, fs.tree.node (root ++ names) = some (.file (.regular size))
  short : ∀ names ∈ below fs.tree root, ([sep].intercalate names).length ≤ 512
  utf8 : ∀ names ∈ below fs.tree root, Utf8.valid ([sep].intercalate names) = true
  printable : ∀ names ∈ below fs.tree root, ∀ c ∈ [sep].intercalate names, ¬ (c < 32 ∨ c = 127)
  noBackslash : ∀ names ∈ below fs.tree root, 92 ∉ [sep].intercalate names
  modes : ∀ names ∈ below fs.tree root, fs.modes (root ++ names) ≤ maxMode
  manifest : ∃ size, fs.tree.node (root ++ [kCheckpointManifestName]) = some (.file (.regular size)) ∧
    0 < size ∧ size ≤ kMaxManifestBytes
  bytes : ((below fs.tree root).map (fs.sizeOf root)).sum ≤ kMaxCheckpointBytes

variable {fs source root}

theorem isName_of_below {names : Path} (h : names ∈ below fs.tree root) : ∀ c ∈ names, IsName c := by
  intro c hc
  exact FileTree.isName_of_node (mem_below.1 h).2 c (List.mem_append_right _ hc)

theorem split_of_below {names : Path} (h : names ∈ below fs.tree root) : split ([sep].intercalate names) = names :=
  split_intercalate (fun c hc => (isName_of_below h c hc).2.2.2) (mem_below.1 h).1

theorem Publishable.plain (h : Publishable fs root) {names : Path} (hnames : names ∈ below fs.tree root) :
    Plain ([sep].intercalate names) (fs.modes (root ++ names)) where
  safe := isSafeRelativePath_iff.2 ⟨fun hzero => h.printable names hnames 0 hzero (.inl (by decide)),
    by rw [split_of_below hnames]; exact isName_of_below hnames⟩
  short := h.short names hnames
  noBackslash := h.noBackslash names hnames
  printable := h.printable names hnames
  mode := h.modes names hnames
  utf8 := h.utf8 names hnames

theorem addEntry_of_below (h : Publishable fs root) (hsource : source ≠ []) {names : Path}
    (hnames : names ∈ below fs.tree root) {limit : ℕ} {inventory : CheckpointInventory}
    (hlimit : inventory.files.length + inventory.directories.length < limit) :
    addEntry fs source root limit inventory names = .ok
      (if fs.isDirectory root names then
        { inventory with directories := inventory.directories ++ [fs.directoryAt root names] }
      else { inventory with files := inventory.files ++ [fs.fileAt source root names] }) := by
  have hrelative : lexicallyRelative (entryPath source names) source = [sep].intercalate names :=
    lexicallyRelative_entryPath hsource (isName_of_below hnames) (mem_below.1 hnames).1
  have hsafe := (h.plain hnames).safe
  simp only [addEntry, hrelative, hsafe]
  rw [if_neg (by omega)]
  obtain hnode | ⟨size, hnode⟩ := h.kinds names hnames
  · simp [hnode, FileSystem.isDirectory, FileSystem.directoryAt]
  · simp [hnode, FileSystem.isDirectory, FileSystem.fileAt, FileSystem.sizeOf]

/-- The walk collects every entry. -/
theorem foldlM_addEntry (h : Publishable fs root) (hsource : source ≠ []) {order : List Path}
    (horder : ∀ names ∈ order, names ∈ below fs.tree root) {limit : ℕ} {inventory : CheckpointInventory}
    (hlimit : inventory.files.length + inventory.directories.length + order.length ≤ limit) :
    order.foldlM (addEntry fs source root limit) inventory = .ok { inventory with
      directories := inventory.directories ++ (order.filter (fs.isDirectory root)).map (fs.directoryAt root)
      files := inventory.files ++ (order.filter (!fs.isDirectory root ·)).map (fs.fileAt source root) } := by
  induction order generalizing inventory with
  | nil => simp [pure, Except.pure]
  | cons names order ih =>
    rw [List.length_cons] at hlimit
    rw [List.foldlM_cons, addEntry_of_below h hsource (horder names List.mem_cons_self) (by omega)]
    refine (ih (fun n hn => horder n (List.mem_cons_of_mem _ hn)) ?_).trans ?_
    · split <;> simp <;> omega
    · cases hdir : fs.isDirectory root names <;> simp [hdir]

/-- The entries of a walk, sorted. -/
def FileSystem.inventoryOf (fs : FileSystem) (source : Bytes) (root : Path) (order : List Path) : CheckpointInventory where
  rootPermissions := fs.modes root
  directories := sortedByPath (·.relativePath) ((order.filter (fs.isDirectory root)).map (fs.directoryAt root))
  files := sortedByPath (·.relativePath) ((order.filter (!fs.isDirectory root ·)).map (fs.fileAt source root))

theorem nodup_paths : ((below fs.tree root).map [sep].intercalate).Nodup := by
  refine List.Nodup.map_on ?_ (nodup_below _ _)
  intro p hp q hq heq
  rw [← split_of_below hp, heq, split_of_below hq]

theorem pathLess_parent {names : Path} (hnames : names ∈ below fs.tree root) (hnil : names.dropLast ≠ []) :
    pathLess ([sep].intercalate names.dropLast) ([sep].intercalate names) = true := by
  obtain ⟨hne, -⟩ := mem_below.1 hnames
  have hparts : ∀ c ∈ names.dropLast, IsName c := fun c hc => isName_of_below hnames c (List.mem_of_mem_dropLast hc)
  have hsplit : split ([sep].intercalate names.dropLast) = names.dropLast :=
    split_intercalate (fun c hc => (hparts c hc).2.2.2) hnil
  have hcomponents := components_of_names (p := [sep].intercalate names)
    (by rw [split_of_below hnames]; exact isName_of_below hnames)
  have hparent := components_of_names (p := [sep].intercalate names.dropLast) (by rw [hsplit]; exact hparts)
  have hless := compare_append_lt names.dropLast (List.cons_ne_nil (names.getLast hne) [])
  rw [List.dropLast_append_getLast] at hless
  rw [pathLess, hcomponents, hparent, split_of_below hnames, hsplit, hless]
  rfl

section Order

variable {order : List Path} (horder : order.Perm (below fs.tree root))

include horder

theorem mem_directories {d : CheckpointDirectory} :
    d ∈ (fs.inventoryOf source root order).directories ↔
      ∃ names ∈ below fs.tree root, fs.isDirectory root names = true ∧ fs.directoryAt root names = d := by
  rw [FileSystem.inventoryOf, (perm_sortedByPath _ _).mem_iff, List.mem_map]
  simp only [List.mem_filter, horder.mem_iff, and_assoc]

theorem mem_files {f : CheckpointFile} :
    f ∈ (fs.inventoryOf source root order).files ↔
      ∃ names ∈ below fs.tree root, fs.isDirectory root names = false ∧ fs.fileAt source root names = f := by
  rw [FileSystem.inventoryOf, (perm_sortedByPath _ _).mem_iff, List.mem_map]
  simp only [List.mem_filter, horder.mem_iff, and_assoc, Bool.not_eq_true']

/-- Every entry is listed once. -/
theorem perm_paths (source : Bytes) :
    ((fs.inventoryOf source root order).directories.map (·.relativePath) ++
      (fs.inventoryOf source root order).files.map (·.relativePath)).Perm ((below fs.tree root).map [sep].intercalate) := by
  have hdirectories := (perm_sortedByPath CheckpointDirectory.relativePath
    ((order.filter (fs.isDirectory root)).map (fs.directoryAt root))).map (·.relativePath)
  have hfiles := (perm_sortedByPath CheckpointFile.relativePath
    ((order.filter (!fs.isDirectory root ·)).map (fs.fileAt source root))).map (·.relativePath)
  rw [List.map_map] at hdirectories hfiles
  refine (hdirectories.append hfiles).trans ?_
  refine .trans ?_ (horder.map _)
  have hsplit := (List.filter_append_perm (fs.isDirectory root) order).map [sep].intercalate
  rw [List.map_append] at hsplit
  exact hsplit

/-- The directory that holds an entry was met. -/
theorem held_of_below (source : Bytes) {names : Path} (hnames : names ∈ below fs.tree root) :
    Held ((fs.inventoryOf source root order).directories.map (·.relativePath)) ([sep].intercalate names) := by
  obtain ⟨hne, hnode⟩ := mem_below.1 hnames
  have hparent : parentPath ([sep].intercalate names) = [sep].intercalate names.dropLast := by
    rw [parentPath, split_of_below hnames]
  by_cases hnil : names.dropLast = []
  · exact .inl (by rw [hparent, hnil]; rfl)
  · have hdirectory := FileTree.node_dropLast (p := root ++ names) (by simp [hne]) hnode
    rw [List.dropLast_append_of_ne_nil hne] at hdirectory
    have hmem : names.dropLast ∈ below fs.tree root := mem_below.2 ⟨hnil, by simp [hdirectory]⟩
    refine .inr (List.mem_map.2 ⟨fs.directoryAt root names.dropLast, (mem_directories horder).2 ⟨_, hmem, ?_, rfl⟩, ?_⟩)
    · exact decide_eq_true hdirectory
    · rw [hparent]
      rfl

/-- What a walk over a publishable tree collects is accepted. -/
theorem accepted_inventoryOf (h : Publishable fs root) : Accepted (fs.inventoryOf source root order) := by
  have hperm := perm_paths horder source
  have hlength := hperm.length_eq
  simp only [List.length_append, List.length_map] at hlength
  have hdirectories := pairwise_sortedByPath CheckpointDirectory.relativePath
    ((order.filter (fs.isDirectory root)).map (fs.directoryAt root))
  have hfiles := pairwise_sortedByPath CheckpointFile.relativePath
    ((order.filter (!fs.isDirectory root ·)).map (fs.fileAt source root))
  constructor
  case count =>
    have hcount := h.count
    omega
  case rootMode => exact h.rootMode
  case plainDirectories =>
    intro d hd
    obtain ⟨names, hnames, -, rfl⟩ := (mem_directories horder).1 hd
    exact h.plain hnames
  case plainFiles =>
    intro f hf
    obtain ⟨names, hnames, -, rfl⟩ := (mem_files horder).1 hf
    exact h.plain hnames
  case distinct => exact hperm.nodup_iff.2 nodup_paths
  case heldDirectories =>
    intro before d after heq
    have hd : d ∈ (fs.inventoryOf source root order).directories := by simp [heq]
    obtain ⟨names, hnames, -, rfl⟩ := (mem_directories horder).1 hd
    obtain htop | hmem := held_of_below horder source hnames
    · exact .inl htop
    · by_cases hnil : names.dropLast = []
      · exact .inl (by rw [FileSystem.directoryAt, parentPath, split_of_below hnames, hnil]; rfl)
      · refine .inr (mem_before_of_parent hdirectories heq hmem ?_)
        rw [FileSystem.directoryAt, parentPath, split_of_below hnames]
        exact pathLess_parent hnames hnil
  case heldFiles =>
    intro f hf
    obtain ⟨names, hnames, -, rfl⟩ := (mem_files horder).1 hf
    exact held_of_below horder source hnames
  case ordered =>
    rw [checkpointEntriesAreOrdered, Bool.and_eq_true]
    exact ⟨isSorted_of_pairwise (List.pairwise_map.2 hdirectories), isSorted_of_pairwise (List.pairwise_map.2 hfiles)⟩
  case bytes =>
    have hsizes := (perm_sortedByPath CheckpointFile.relativePath
      ((order.filter (!fs.isDirectory root ·)).map (fs.fileAt source root))).map (·.sizeBytes)
    have hall := ((List.filter_append_perm (fs.isDirectory root) order).trans horder).map (fs.sizeOf root)
    rw [List.map_append] at hall
    have hsum := hall.sum_eq
    rw [List.sum_append] at hsum
    have hbytes := h.bytes
    rw [List.map_map] at hsizes
    refine le_trans (le_of_eq hsizes.sum_eq) (le_trans ?_ hbytes)
    rw [← hsum]
    exact Nat.le_add_left _ _
  case manifestSize =>
    intro f hf hname
    obtain ⟨names, hnames, -, rfl⟩ := (mem_files horder).1 hf
    obtain ⟨size, hnode, hsize⟩ := h.manifest
    have hmanifest : names = [kCheckpointManifestName] := by
      rw [← split_of_below hnames]
      exact (congrArg split hname).trans (by decide)
    rw [FileSystem.fileAt, FileSystem.sizeOf, hmanifest, hnode]
    exact hsize
  case manifest =>
    obtain ⟨size, hnode, -⟩ := h.manifest
    have hmem : [kCheckpointManifestName] ∈ below fs.tree root := mem_below.2 ⟨by simp, by simp [hnode]⟩
    refine ⟨_, (mem_files horder).2 ⟨_, hmem, ?_, rfl⟩, rfl⟩
    simp [FileSystem.isDirectory, hnode]

end Order

/-! ### The source -/

theorem locate_append {tree : FileTree FileKind} {here there : Path} {cs ds : Path}
    (h : locate tree here (cs ++ ds) = some there) :
    ∃ p, locate tree here cs = some p ∧ (ds = [] ∧ p = there ∨ tree.node p = some .directory) := by
  induction cs generalizing here with
  | nil =>
    refine ⟨here, rfl, ?_⟩
    cases ds with
    | nil => exact .inl ⟨rfl, Option.some.inj h⟩
    | cons d ds =>
      rw [List.nil_append, locate, Option.ite_none_right_eq_some] at h
      exact .inr h.1
  | cons c cs ih =>
    rw [List.cons_append, locate, Option.ite_none_right_eq_some] at h
    rw [locate, if_pos h.1]
    exact ih h.2

/-- A source that leads to a directory is accepted: no link is passed on the way. -/
theorem validateSourceRoot_ok (hsource : source ≠ []) (hzero : 0 ∉ source)
    (hroot : locate fs.tree [] (fs.absolute source) = some root) (hnode : fs.tree.node root = some .directory) :
    validateSourceRoot fs source = .ok () := by
  have hstatus : fs.status (fs.absolute source) = some .directory := by
    rw [FileSystem.status, hroot, Option.bind_some, hnode]
  have hlinks : ¬ (fs.absolute source).inits.any (fun cs => fs.status cs = some (.file .symlink)) = true := by
    rw [List.any_eq_true]
    intro ⟨cs, hcs, hlink⟩
    obtain ⟨ds, hds⟩ := (List.mem_inits _ _).1 hcs
    rw [← hds] at hroot
    obtain ⟨p, hlocate, hp⟩ := locate_append hroot
    have hdirectory : fs.tree.node p = some .directory := by
      obtain ⟨-, rfl⟩ | hp := hp
      · exact hnode
      · exact hp
    rw [decide_eq_true_eq, FileSystem.status, hlocate, Option.bind_some, hdirectory] at hlink
    cases hlink
  rw [validateSourceRoot, if_neg (by simp [hsource, hzero]), if_neg hlinks, if_neg (by simp [hstatus])]

/-- The inventory of a publishable tree, whatever the order of the walk. -/
theorem buildCheckpointInventory_ok (h : Publishable fs root) (hsource : source ≠ []) (hzero : 0 ∉ source)
    (hroot : locate fs.tree [] (fs.absolute source) = some root) (hnode : fs.tree.node root = some .directory)
    {order : List Path} (horder : order.Perm (below fs.tree root)) {limit : ℕ} (hlimit : kMaxCheckpointEntries ≤ limit) :
    buildCheckpointInventory fs source limit order = .ok (fs.inventoryOf source root order) := by
  have hcount : order.length ≤ limit := by
    rw [horder.length_eq]
    exact h.count.trans hlimit
  rw [buildCheckpointInventory, validateSourceRoot_ok hsource hzero hroot hnode, hroot]
  refine bind_eq_ok.2 ⟨(), rfl, bind_eq_ok.2 ⟨_, foldlM_addEntry h hsource ?_ ?_, rfl⟩⟩
  · exact fun names hn => horder.mem_iff.1 hn
  · simpa using hcount

/-- An accepted inventory can be created at every free path of a directory, where it adds exactly its
entries; and a publishable tree, reached without a link, has an accepted inventory of all its entries. -/
theorem checkpoint_tree_complete :
    (∀ (γ : Type) [DecidableEq γ] (content : CheckpointFile → γ) (inventory : CheckpointInventory) (bytes : ℕ)
      (t : FileTree γ) (destination : Path), validateCheckpointInventory inventory = .ok bytes →
      (∀ c ∈ destination, IsName c) → t.node destination = none → t.node destination.dropLast = some .directory →
      ∃ t', materialize content inventory destination t = .ok t' ∧ Materialized content inventory destination t t') ∧
    ∀ (fs : FileSystem) (source : Bytes) (root : Path) (order : List Path) (limit : ℕ), source ≠ [] → 0 ∉ source →
      locate fs.tree [] (fs.absolute source) = some root → fs.tree.node root = some .directory → Publishable fs root →
      order.Perm (below fs.tree root) → kMaxCheckpointEntries ≤ limit →
      ∃ inventory bytes, buildCheckpointInventory fs source limit order = .ok inventory ∧
        validateCheckpointInventory inventory = .ok bytes ∧
        inventory.directories.Perm (((below fs.tree root).filter (fs.isDirectory root)).map (fs.directoryAt root)) ∧
        inventory.files.Perm (((below fs.tree root).filter (!fs.isDirectory root ·)).map (fs.fileAt source root)) := by
  constructor
  · intro γ _ content inventory bytes t destination hvalid hnames hfresh hparent
    exact exists_materialize content (validateCheckpointInventory_eq_ok.1 hvalid).1 hnames hfresh hparent
  · intro fs source root order limit hsource hzero hroot hnode h horder hlimit
    refine ⟨_, _, buildCheckpointInventory_ok h hsource hzero hroot hnode horder hlimit,
      validateCheckpointInventory_eq_ok.2 ⟨accepted_inventoryOf horder h, rfl⟩, ?_, ?_⟩
    · exact (perm_sortedByPath _ _).trans ((horder.filter _).map _)
    · exact (perm_sortedByPath _ _).trans ((horder.filter _).map _)

/-- A file system with nothing in its root. -/
def bare (γ : Type) : FileTree γ := ⟨∅, by simp, by simp⟩

/-- A destination in a directory that does not exist is not created. -/
theorem destination_needs_parent :
    ∃ (inventory : CheckpointInventory) (bytes : ℕ) (destination : Path),
      validateCheckpointInventory inventory = .ok bytes ∧ (∀ c ∈ destination, IsName c) ∧
      (bare Unit).node destination = none ∧
      materialize (fun _ => ()) inventory destination (bare Unit) = .error .noEntry := by
  refine ⟨⟨0o755, [], [⟨[], kCheckpointManifestName, 1, 0o644⟩]⟩, 1, [literal "restore", literal "staging"],
    by decide +kernel, by decide +kernel, by decide +kernel, ?_⟩
  have hroot : (bare Unit).createDirectory [literal "restore", literal "staging"] = .error .noEntry := by
    rw [FileTree.createDirectory, if_neg (by decide +kernel), FileTree.create, dif_pos (by decide +kernel),
      dif_neg (by decide +kernel), if_pos (by decide +kernel)]
  rw [materialize, createDirectoryTree, hroot]
  rfl

end Checkpoint
