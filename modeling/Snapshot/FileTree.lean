import Mathlib.Data.Finset.Basic
import Snapshot.LexicalPath

/-! A file system without links: what is found at each path from its root. -/

/-- What a directory holds under a name. -/
inductive FileNode (γ : Type) where
  | directory
  | file (content : γ)
  deriving DecidableEq, Repr

open LexicalPath (Path IsName)

instance : Std.TransOrd Path := inferInstance

/-- Everything below the root, by path; whatever lies in something lies in a directory. -/
structure FileTree (γ : Type) where
  entries : Std.ExtTreeMap Path (FileNode γ)
  named : ∀ p ∈ entries.keys, p ≠ [] ∧ ∀ c ∈ p, IsName c
  closed : ∀ p ∈ entries.keys, p.dropLast = [] ∨ entries[p.dropLast]? = some .directory

namespace FileTree

variable {γ : Type} (t : FileTree γ)

/-- The root is always there. -/
def node (p : Path) : Option (FileNode γ) := if p = [] then some .directory else t.entries[p]?

/-- The paths of a tree, each directory before what it holds, and names in order. -/
def paths : List Path := t.entries.keys

variable {t}

theorem node_nil : t.node [] = some .directory := if_pos rfl

theorem node_of_ne_nil {p : Path} (h : p ≠ []) : t.node p = t.entries[p]? := if_neg h

theorem mem_paths {p : Path} : p ∈ t.paths ↔ p ≠ [] ∧ t.node p ≠ none := by
  rw [paths, Std.ExtTreeMap.mem_keys]
  constructor
  · intro h
    have hne := (t.named p (Std.ExtTreeMap.mem_keys.2 h)).1
    rw [node_of_ne_nil hne]
    exact ⟨hne, by simpa using h⟩
  · rintro ⟨hne, h⟩
    rw [node_of_ne_nil hne] at h
    simpa using h

theorem isName_of_node {p : Path} (h : t.node p ≠ none) : ∀ c ∈ p, IsName c := by
  by_cases hne : p = []
  · simp [hne]
  · exact (t.named p (mem_paths.2 ⟨hne, h⟩)).2

theorem node_dropLast {p : Path} (hne : p ≠ []) (h : t.node p ≠ none) : t.node p.dropLast = some .directory := by
  rcases t.closed p (mem_paths.2 ⟨hne, h⟩) with hnil | hdir
  · rw [hnil, node_nil]
  · by_cases hnil : p.dropLast = []
    · rw [hnil, node_nil]
    · rw [node_of_ne_nil hnil, hdir]

/-- Nothing lies below a path that is not there. -/
theorem node_of_prefix {p q : Path} (hq : q <+: p) (h : t.node p ≠ none) : t.node q ≠ none := by
  obtain ⟨s, rfl⟩ := hq
  induction s using List.reverseRecOn with
  | nil => simpa using h
  | append_singleton s c ih =>
    refine ih fun hnone => ?_
    have hparent := node_dropLast (by simp) h
    rw [← List.append_assoc, List.dropLast_concat, hnone] at hparent
    cases hparent

/-- Whether a removal at a path takes away an entry. The root of the tree stays. -/
def taken (keep : Bool) (q p : Path) : Bool := q.isPrefixOf p && !(keep && p = q) && p ≠ []

theorem taken_iff {keep : Bool} {q p : Path} :
    taken keep q p = true ↔ q <+: p ∧ ¬ (keep = true ∧ p = q) ∧ p ≠ [] := by
  cases keep <;> simp [taken, and_assoc]

/-- What takes a directory away takes its content away. -/
theorem taken_of_dropLast {keep : Bool} {q p : Path} (hne : p ≠ [])
    (h : taken keep q p.dropLast = true) : taken keep q p = true := by
  rw [taken_iff] at h ⊢
  refine ⟨h.1.trans (List.dropLast_prefix p), fun heq => ?_, hne⟩
  have hlen := h.1.length_le
  rw [heq.2, List.length_dropLast] at hlen
  have hpos := List.length_pos_iff.2 (heq.2 ▸ hne)
  omega

variable (t)

/-- Without everything at and below a path, or only below it. -/
def remove (keep : Bool) (q : Path) : FileTree γ where
  entries := t.entries.filter fun p _ => !taken keep q p
  named p hp := by
    rw [Std.ExtTreeMap.mem_keys, Std.ExtTreeMap.mem_filter] at hp
    exact t.named p (Std.ExtTreeMap.mem_keys.2 hp.1)
  closed p hp := by
    rw [Std.ExtTreeMap.mem_keys, Std.ExtTreeMap.mem_filter] at hp
    obtain ⟨hmem, hkept⟩ := hp
    have hkey := Std.ExtTreeMap.mem_keys.2 hmem
    refine (t.closed p hkey).imp_right fun h => ?_
    have hparent : taken keep q p.dropLast = false := by
      by_contra htaken
      simp [taken_of_dropLast (t.named p hkey).1 (by simpa using htaken)] at hkept
    rw [Std.ExtTreeMap.getElem?_filter', h]
    simp [Option.filter, hparent]

variable {t}

theorem node_remove {keep : Bool} {q p : Path} :
    (t.remove keep q).node p = if taken keep q p then none else t.node p := by
  by_cases hne : p = []
  · subst hne
    rw [node_nil, node_nil, if_neg (by simp [taken])]
  · have hfilter : (t.remove keep q).entries[p]? =
        t.entries[p]?.filter fun _ => !taken keep q p := Std.ExtTreeMap.getElem?_filter'
    rw [node_of_ne_nil hne, node_of_ne_nil hne, hfilter]
    cases t.entries[p]? <;> cases htaken : taken keep q p <;> simp [Option.filter]

/-! Creation. -/

theorem node_entries_insert {p q : Path} {n : FileNode γ} (hne : p ≠ []) :
    (if q = [] then some .directory else (t.entries.insert p n)[q]?) = if q = p then some n else t.node q := by
  by_cases hq : q = []
  · subst hq
    rw [if_pos rfl, if_neg hne.symm, node_nil]
  · rw [if_neg hq, Std.ExtTreeMap.getElem?_insert, node_of_ne_nil hq]
    by_cases heq : q = p
    · rw [if_pos heq, if_pos (by rw [heq]; exact Std.ReflCmp.compare_self)]
    · rw [if_neg heq, if_neg fun h => heq (Std.LawfulEqCmp.eq_of_compare h).symm]

/-- A directory holds one entry more. -/
def add (t : FileTree γ) (p : Path) (n : FileNode γ) (hne : p ≠ []) (hnames : ∀ c ∈ p, IsName c)
    (hfresh : t.node p = none) (hparent : t.node p.dropLast = some .directory) : FileTree γ where
  entries := t.entries.insert p n
  named q hq := by
    rw [Std.ExtTreeMap.mem_keys, Std.ExtTreeMap.mem_insert] at hq
    by_cases heq : q = p
    · exact heq ▸ ⟨hne, hnames⟩
    · have hmem := hq.resolve_left fun h => heq (Std.LawfulEqCmp.eq_of_compare h).symm
      exact t.named q (Std.ExtTreeMap.mem_keys.2 hmem)
  closed q hq := by
    rw [Std.ExtTreeMap.mem_keys, Std.ExtTreeMap.mem_insert] at hq
    by_cases hnil : q.dropLast = []
    · exact .inl hnil
    · have hdirectory : t.node q.dropLast = some .directory := by
        by_cases heq : q = p
        · rw [heq, hparent]
        · have hmem := hq.resolve_left fun h => heq (Std.LawfulEqCmp.eq_of_compare h).symm
          obtain ⟨hq, hnode⟩ := mem_paths.1 (Std.ExtTreeMap.mem_keys.2 hmem)
          exact node_dropLast hq hnode
      have hother : q.dropLast ≠ p := by
        intro heq
        rw [heq, hfresh] at hdirectory
        cases hdirectory
      have hinsert := node_entries_insert (t := t) (q := q.dropLast) (n := n) hne
      rw [if_neg hnil, if_neg hother] at hinsert
      exact .inr (hinsert.trans hdirectory)

theorem node_add {p q : Path} {n : FileNode γ} {hne : p ≠ []} {hnames : ∀ c ∈ p, IsName c} {hfresh : t.node p = none}
    {hparent : t.node p.dropLast = some .directory} :
    (t.add p n hne hnames hfresh hparent).node q = if q = p then some n else t.node q := node_entries_insert hne

/-- Why nothing can be created at a path. -/
inductive Errno where
  | alreadyExists
  | noEntry
  | notDirectory
  | invalidName
  deriving DecidableEq, Repr

variable [DecidableEq γ]

/-- An entry is created where there is none, in a directory. -/
def create (t : FileTree γ) (n : FileNode γ) (p : Path) : Except Errno (FileTree γ) :=
  if hfresh : t.node p = none then
    if hparent : t.node p.dropLast = some .directory then
      if hname : p ≠ [] ∧ ∀ c ∈ p, IsName c then .ok (t.add p n hname.1 hname.2 hfresh hparent)
      else .error .invalidName
    else .error (if t.node p.dropLast = none then .noEntry else .notDirectory)
  else .error .alreadyExists

/-- A directory that is there already is left as it is. -/
def createDirectory (t : FileTree γ) (p : Path) : Except Errno (FileTree γ) :=
  if t.node p = some .directory then .ok t else t.create .directory p

theorem createDirectory_of_fresh {p : Path} (h : t.node p = none) : t.createDirectory p = t.create .directory p :=
  if_neg (by simp [h])

theorem exists_create {n : FileNode γ} {p : Path} (hnames : ∀ c ∈ p, IsName c) (hfresh : t.node p = none)
    (hparent : t.node p.dropLast = some .directory) :
    ∃ t', t.create n p = .ok t' ∧ ∀ q, t'.node q = if q = p then some n else t.node q := by
  have hne : p ≠ [] := by
    intro h
    rw [h, node_nil] at hfresh
    cases hfresh
  refine ⟨t.add p n hne hnames hfresh hparent, ?_, fun q => node_add⟩
  rw [create, dif_pos hfresh, dif_pos hparent, dif_pos ⟨hne, hnames⟩]

/-- Entries are created one after the other if their paths are free and distinct and each lies in a directory
that was there or that was created before it. -/
theorem exists_foldlM_create {α : Type} (path : α → Path) (node : α → FileNode γ)
    (step : FileTree γ → α → Except Errno (FileTree γ)) {l : List α}
    (hstep : ∀ t, ∀ a ∈ l, t.node (path a) = none → step t a = t.create (node a) (path a))
    (hnames : ∀ a ∈ l, ∀ c ∈ path a, IsName c) (hfresh : ∀ a ∈ l, t.node (path a) = none)
    (hdistinct : (l.map path).Nodup)
    (hparent : ∀ before a after, l = before ++ a :: after → t.node (path a).dropLast = some .directory ∨
      ∃ b ∈ before, path b = (path a).dropLast ∧ node b = .directory) :
    ∃ t', l.foldlM step t = .ok t' ∧ (∀ a ∈ l, t'.node (path a) = some (node a)) ∧
      ∀ q, q ∉ l.map path → t'.node q = t.node q := by
  induction l generalizing t with
  | nil => exact ⟨t, rfl, by simp, fun _ _ => rfl⟩
  | cons a l ih =>
    have hfirst : t.node (path a).dropLast = some .directory := by
      obtain h | ⟨b, hb, -⟩ := hparent [] a l rfl
      · exact h
      · cases hb
    obtain ⟨t₁, hcreate, hnode⟩ := exists_create (n := node a) (hnames a List.mem_cons_self)
      (hfresh a List.mem_cons_self) hfirst
    rw [List.map_cons, List.nodup_cons] at hdistinct
    have hne : ∀ b ∈ l, path b ≠ path a := by
      intro b hb heq
      exact hdistinct.1 (heq ▸ List.mem_map_of_mem hb)
    obtain ⟨t', hrun, hmade, hkept⟩ := ih (t := t₁) (fun t b hb => hstep t b (List.mem_cons_of_mem _ hb))
      (fun b hb => hnames b (List.mem_cons_of_mem _ hb))
      (fun b hb => by rw [hnode, if_neg (hne b hb), hfresh b (List.mem_cons_of_mem _ hb)]) hdistinct.2 <| by
        intro before b after heq
        obtain h | ⟨d, hd, hpath, hdirectory⟩ := hparent (a :: before) b after (by rw [heq]; rfl)
        · refine .inl ?_
          rw [hnode, if_neg, h]
          intro hsame
          rw [hsame, hfresh a List.mem_cons_self] at h
          cases h
        · rcases List.mem_cons.1 hd with rfl | hd
          · exact .inl (by rw [hnode, if_pos hpath.symm, hdirectory])
          · exact .inr ⟨d, hd, hpath, hdirectory⟩
    refine ⟨t', ?_, ?_, ?_⟩
    · rw [List.foldlM_cons, hstep t a List.mem_cons_self (hfresh a List.mem_cons_self), hcreate]
      exact hrun
    · intro b hb
      rcases List.mem_cons.1 hb with rfl | hb
      · rw [hkept _ hdistinct.1, hnode, if_pos rfl]
      · exact hmade b hb
    · intro q hq
      rw [List.map_cons, List.mem_cons, not_or] at hq
      rw [hkept q hq.2, hnode, if_neg hq.1]

end FileTree
