import Snapshot.RootfsDeletionsExact

/-! Deletions as the kernel keeps them. Overlayfs leaves a character device with number 0:0 at the path
of a deleted lower file, and the workload is free to choose names; `CaptureDeletedFiles` looks for a
prefix of the name and never at the kind of a file. -/
namespace RootfsDeletions

open LexicalPath

variable {γ δ : Type}

/-- What an upper directory holds besides directories. -/
inductive UpperFile (γ : Type) where
  | characterDevice (major minor : ℕ)
  | other (content : γ)
  deriving DecidableEq, Repr

/-- The kernel's whiteout. -/
def Whiteout (u : UpperDir (UpperFile γ)) (p : Path) : Prop :=
  u.tree.node p = some (.file (.characterDevice 0 0))

instance [DecidableEq γ] (u : UpperDir (UpperFile γ)) (p : Path) : Decidable (Whiteout u p) :=
  inferInstanceAs (Decidable (_ = _))

/-- An upper directory over a lower tree. The kernel leaves whiteouts only over what the lower tree has. -/
structure Overlay (γ δ : Type) where
  upper : UpperDir (UpperFile γ)
  lower : FileTree δ
  covers : ∀ p ∈ upper.tree.paths, Whiteout upper p → lower.node p ≠ none

/-- A lower path that the merged tree does not show: it or a directory above it was deleted. -/
def Overlay.Removed (o : Overlay γ δ) (p : Path) : Prop :=
  o.lower.node p ≠ none ∧ ∃ q, Whiteout o.upper q ∧ q <+: p

/-- A deleted lower path under no other deleted path. -/
def Overlay.Topmost (o : Overlay γ δ) (p : Path) : Prop :=
  o.Removed p ∧ ∀ q, o.Removed q → q <+: p → q = p

/-- The list that is written into a new checkpoint; if no file is written, it is empty. -/
def written (u : UpperDir γ) : Option (List Bytes) :=
  (captureDeletedFiles u.path u.tree ⟨none⟩).toOption.map fun r => r.2.deletedFiles.getD []

theorem written_eq (u : UpperDir γ) :
    written u = some (u.records.map fun w => Utf8.coerce w.text) := by
  rw [written, captureDeletedFiles, if_neg u.nonempty, findWhiteoutFiles_eq]
  by_cases hnil : u.records = []
  · rw [hnil]
    rfl
  · have hne : u.records.map Record.text ≠ [] := by simpa using hnil
    simp only [bind, Except.bind, pure, Except.pure, if_neg hne, Except.toOption, Option.map_some,
      Option.getD_some, List.map_map]
    rfl

section Whiteout

variable {u : UpperDir (UpperFile γ)} {p q : Path}

theorem Whiteout.ne_nil (h : Whiteout u p) : p ≠ [] := by
  rintro rfl
  rw [Whiteout, FileTree.node_nil] at h
  cases h

theorem Whiteout.names (h : Whiteout u p) : ∀ c ∈ p, IsName c :=
  FileTree.isName_of_node (by rw [Whiteout] at h; rw [h]; exact nofun)

/-- A device holds nothing. -/
theorem Whiteout.node_below (hq : Whiteout u q) {s : Path} (hs : s ≠ []) : u.tree.node (q ++ s) = none := by
  induction s using List.reverseRecOn with
  | nil => exact absurd rfl hs
  | append_singleton s c ih =>
    by_contra hnode
    have hparent := FileTree.node_dropLast (by simp) hnode
    rw [← List.append_assoc, List.dropLast_concat] at hparent
    by_cases hnil : s = []
    · rw [hnil, List.append_nil, hq] at hparent
      cases hparent
    · rw [ih hnil] at hparent
      cases hparent

theorem Whiteout.eq_of_prefix (hq : Whiteout u q) (hp : Whiteout u p) (h : q <+: p) : q = p := by
  obtain ⟨s, rfl⟩ := h
  by_cases hs : s = []
  · rw [hs, List.append_nil]
  · rw [Whiteout, hq.node_below hs] at hp
    cases hp

end Whiteout

/-- The topmost deleted paths are where the whiteouts are. -/
theorem Overlay.topmost_iff {o : Overlay γ δ} {p : Path} : o.Topmost p ↔ Whiteout o.upper p := by
  have hcovers : ∀ {q}, Whiteout o.upper q → o.lower.node q ≠ none := by
    intro q hq
    refine o.covers q (FileTree.mem_paths.2 ⟨hq.ne_nil, ?_⟩) hq
    rw [hq]
    exact nofun
  constructor
  · rintro ⟨⟨-, q, hq, hle⟩, htop⟩
    rwa [← htop q ⟨hcovers hq, q, hq, List.prefix_refl q⟩ hle]
  · intro hp
    refine ⟨⟨hcovers hp, p, hp, List.prefix_refl p⟩, ?_⟩
    rintro q ⟨-, r, hr, hrq⟩ hqp
    obtain rfl := hr.eq_of_prefix hp (hrq.trans hqp)
    exact hqp.eq_of_length_le hrq.length_le

/-- The list names the topmost deleted paths and nothing else. -/
def Overlay.RecordedExactly (o : Overlay γ δ) : Prop :=
  ∃ list, written o.upper = some list ∧ ∀ s, s ∈ list ↔ ∃ p, o.Topmost p ∧ s = render false p

/-- The names with the prefix mirror the whiteouts: for each whiteout there is such a name, for the same
path, and each such name stands for the path of a whiteout. -/
structure Mirrored (u : UpperDir (UpperFile γ)) : Prop where
  missed : ∀ p, Whiteout u p → ∃ w ∈ u.records, w.points = p
  stray : ∀ w ∈ u.records, ¬ w.silent ∧ Whiteout u w.points

theorem render_false_injective {p q : Path} (hp : ∀ c ∈ p, IsName c) (hne : p ≠ [])
    (hq : ∀ c ∈ q, c ≠ [] ∧ sep ∉ c) (h : render false q = render false p) : q = p := by
  have hp' : ∀ c ∈ p, c ≠ [] ∧ sep ∉ c := fun c hc => ⟨(hp c hc).1, (hp c hc).2.2.2⟩
  by_cases hnil : q = []
  · subst hnil
    exact absurd ((render_eq_dot fun c hc => ⟨(hp c hc).2.1, (hp c hc).2.2.2⟩).1 h.symm) hne
  · rw [render, render, if_neg Bool.false_ne_true, if_neg hnil, if_neg Bool.false_ne_true, if_neg hne] at h
    exact intercalate_injective hq hp' h

/-- A recorded string names a whiteout only if the record points to it. -/
theorem coerce_text_eq_iff {u : UpperDir (UpperFile γ)} {w : Record} {p : Path} (hw : w.Proper)
    (hp : Whiteout u p) : Utf8.coerce w.text = render false p ↔ ¬ w.silent ∧ w.points = p := by
  constructor
  · intro h
    have hloud : ¬ w.silent := by
      rintro ⟨hdir, hname⟩
      rw [Record.text, if_pos hdir, hname] at h
      exact render_false_ne_nil (fun c hc => (hp.names c hc).1) h.symm
    rw [coerce_text hw hloud] at h
    exact ⟨hloud, render_false_injective hp.names hp.ne_nil (mem_points hw) h⟩
  · rintro ⟨hloud, rfl⟩
    exact coerce_text hw hloud

/-- The recorded list is exact only if the names with the prefix mirror the whiteouts. -/
theorem recorded_exactly_iff_mirrored (o : Overlay γ δ) : o.RecordedExactly ↔ Mirrored o.upper := by
  rw [Overlay.RecordedExactly, written_eq]
  simp only [Option.some.injEq, exists_eq_left', Overlay.topmost_iff, List.mem_map]
  constructor
  · intro h
    constructor
    · intro p hp
      obtain ⟨w, hw, htext⟩ := (h (render false p)).2 ⟨p, hp, rfl⟩
      exact ⟨w, hw, ((coerce_text_eq_iff (proper_record hw) hp).1 htext).2⟩
    · intro w hw
      obtain ⟨p, hp, htext⟩ := (h _).1 ⟨w, hw, rfl⟩
      obtain ⟨hloud, rfl⟩ := (coerce_text_eq_iff (proper_record hw) hp).1 htext
      exact ⟨hloud, hp⟩
  · intro h s
    constructor
    · rintro ⟨w, hw, rfl⟩
      obtain ⟨hloud, hp⟩ := h.stray w hw
      exact ⟨w.points, hp, coerce_text (proper_record hw) hloud⟩
    · rintro ⟨p, hp, rfl⟩
      obtain ⟨w, hw, rfl⟩ := h.missed p hp
      exact ⟨w, hw, coerce_text (proper_record hw) (h.stray w hw).1⟩

/-- A whiteout for one file, and a user's file with the prefix over another. -/
def sampleOverlay : Overlay Unit Unit where
  upper :=
    { path := ascii "/overlay/upper"
      nonempty := sampleUpper.nonempty
      tree :=
        { entries := ((∅ : Std.ExtTreeMap Path (FileNode (UpperFile Unit))).insert [ascii "gone"]
            (.file (.characterDevice 0 0))).insert [ascii ".wh.kept"] (.file (.other ()))
          named := by decide +kernel
          closed := by decide +kernel } }
  lower :=
    { entries := ((∅ : Std.ExtTreeMap Path (FileNode Unit)).insert [ascii "gone"] (.file ())).insert
        [ascii "kept"] (.file ())
      named := by decide +kernel
      closed := by decide +kernel }
  covers := by decide +kernel

/-- The deleted file is missing from the list, and the file that was kept is in it. -/
theorem whiteout_unrecorded : sampleOverlay.Topmost [ascii "gone"] ∧ ¬ sampleOverlay.Removed [ascii "kept"] ∧
    written sampleOverlay.upper = some [ascii "kept"] := by
  refine ⟨Overlay.topmost_iff.2 (by decide +kernel), ?_, by decide +kernel⟩
  rintro ⟨-, q, hq, hle⟩
  have hq' : q = [ascii "kept"] := by
    obtain ⟨s, hs⟩ := hle
    cases q with
    | nil => exact absurd rfl hq.ne_nil
    | cons c q =>
      rw [List.cons_append, List.cons.injEq, List.append_eq_nil_iff] at hs
      rw [hs.1, hs.2.1]
  subst hq'
  exact absurd hq (by decide +kernel)

end RootfsDeletions
