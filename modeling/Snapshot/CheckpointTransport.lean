import Snapshot.CheckpointIndex
import Snapshot.CheckpointTree

/-! # A checkpoint from one node to another

A tree is read into an inventory and published as an index; another node reads the index and creates the tree. -/
namespace Checkpoint

open LexicalPath
open ByteText (literal)

section Copy

variable {fs : FileSystem} {source : Bytes} {root destination : Path} {order : List Path}
  (h : Publishable fs root) (hroot : fs.tree.node root = some .directory)
  (horder : order.Perm (below fs.tree root)) {t t' : FileTree FileKind} (hfresh : t.node destination = none)
include h hroot horder hfresh

/-- What was created for the inventory of a tree is a copy of the tree. -/
theorem Materialized.copy
    (ht : Materialized (fun f => .regular f.sizeBytes) (fs.inventoryOf source root order).published destination t t')
    (names : Path) : t'.node (destination ++ names) = fs.tree.node (root ++ names) := by
  have hdirectories := @mem_directories fs source root order horder
  by_cases hne : names = []
  · simp [hne, ht.root, hroot]
  by_cases hnode : fs.tree.node (root ++ names) = none
  · -- no entry leads there, and the place was free
    have hnot : ∀ names' ∈ below fs.tree root,
        destination ++ names ≠ destination ++ split ([sep].intercalate names') := by
      intro names' hnames' heq
      rw [split_of_below hnames', List.append_cancel_left_eq] at heq
      exact (mem_below.1 hnames').2 (heq ▸ hnode)
    rw [hnode, ht.others _ (by simpa using hne)]
    · by_contra hthere
      exact FileTree.node_of_prefix (List.prefix_append ..) hthere hfresh
    · intro d hd
      obtain ⟨names', hnames', -, rfl⟩ := hdirectories.1 hd
      exact hnot names' hnames'
    · intro f hf
      obtain ⟨_, hfile, rfl⟩ := List.mem_map.1 hf
      obtain ⟨names', hnames', -, rfl⟩ := (mem_files horder).1 hfile
      exact hnot names' hnames'
  · have hnames := mem_below.2 ⟨hne, hnode⟩
    rcases h.kinds names hnames with hkind | ⟨size, hkind⟩
    · have hd := ht.directories _ (hdirectories.2 ⟨names, hnames, by simp [FileSystem.isDirectory, hkind], rfl⟩)
      rw [hkind, ← hd, FileSystem.directoryAt, split_of_below hnames]
    · have hf := ht.files _ (List.mem_map_of_mem
        ((mem_files horder).2 ⟨names, hnames, by simp [FileSystem.isDirectory, hkind], rfl⟩))
      simpa [FileSystem.fileAt, FileSystem.sizeOf, split_of_below hnames, hkind] using hf

/-- A tree that is published, read and created at a free place is there again, with its directories and the
sizes of its files, and nothing else has changed. -/
theorem transported_tree_same {Text : Type} (lib : JsonLibrary Text) (hsource : source ≠ []) (hzero : 0 ∉ source)
    (hlocate : locate fs.tree [] (fs.absolute source) = some root) (hnames : ∀ c ∈ destination, IsName c)
    (hparent : t.node destination.dropLast = some .directory) :
    ∃ inventory, buildCheckpointInventory fs source kMaxCheckpointEntries order = .ok inventory ∧
      ∀ text, serializeCheckpointIndex lib inventory = .ok text → ∃ index t',
        parseCheckpointIndex lib text = .ok index ∧
        materialize (fun f => .regular f.sizeBytes) index destination t = .ok t' ∧
        (∀ names, t'.node (destination ++ names) = fs.tree.node (root ++ names)) ∧
        ∀ p, ¬ destination <+: p → t'.node p = t.node p := by
  refine ⟨_, buildCheckpointInventory_ok h hsource hzero hlocate hroot horder le_rfl, fun text htext => ?_⟩
  have haccepted : Accepted (fs.inventoryOf source root order) := accepted_inventoryOf horder h
  have hvalid := (validate_published _).trans (validateCheckpointInventory_eq_ok.2 ⟨haccepted, rfl⟩)
  obtain ⟨t', hmaterialize, ht⟩ := exists_materialize (fun f => FileKind.regular f.sizeBytes)
    (validateCheckpointInventory_eq_ok.1 hvalid).1 hnames hfresh hparent
  refine ⟨_, t', parse_of_serialize lib htext, hmaterialize, ht.copy h hroot horder hfresh, fun p hp => ?_⟩
  apply ht.others
  · rintro rfl
    exact hp List.prefix_rfl
  · rintro d _ rfl
    exact hp (List.prefix_append ..)
  · rintro f _ rfl
    exact hp (List.prefix_append ..)

end Copy

/-- A file system that holds only a manifest. -/
def manifestOnly : FileSystem where
  tree := (bare FileKind).add [kCheckpointManifestName] (.file (.regular 1)) (by simp) (by decide +kernel)
    (by decide +kernel) (by decide +kernel)
  modes _ := 0o644
  cwd := []

theorem transported_tree_same_manifest :
    ∃ inventory index t',
      buildCheckpointInventory manifestOnly [sep] kMaxCheckpointEntries [[kCheckpointManifestName]] = .ok inventory ∧
      parseCheckpointIndex documents (document inventory) = .ok index ∧
      materialize (fun f => .regular f.sizeBytes) index [literal "staging"] (bare FileKind) = .ok t' ∧
      t'.node [literal "staging", kCheckpointManifestName] = some (.file (.regular 1)) := by
  have hbelow : below manifestOnly.tree [] = [[kCheckpointManifestName]] := by decide +kernel
  have hnode : manifestOnly.tree.node [kCheckpointManifestName] = some (.file (.regular 1)) := by decide +kernel
  have hpublishable : Publishable manifestOnly [] := by
    refine ⟨?_, by decide, ?_, ?_, ?_, ?_, ?_, ?_, ⟨1, hnode, by decide⟩, ?_⟩ <;> rw [hbelow]
    case refine_2 => simp [hnode]
    all_goals decide +kernel
  obtain ⟨inventory, hbuild, h⟩ := @transported_tree_same manifestOnly [sep] [] [literal "staging"] _ hpublishable
    FileTree.node_nil (.of_eq hbelow.symm) (bare FileKind) (by decide +kernel) _ documents (by decide) (by decide) rfl
    (by decide +kernel) (by decide +kernel)
  have hinventory : inventory = ⟨0o644, [], [⟨literal "/manifest.yaml", kCheckpointManifestName, 1, 0o644⟩]⟩ :=
    Except.ok.inj (hbuild.symm.trans (by decide +kernel))
  obtain ⟨index, t', hparse, hcreated, hsame, -⟩ := h (document inventory) (by subst hinventory; rfl)
  exact ⟨inventory, index, t', hbuild, hparse, hcreated, (hsame _).trans hnode⟩

end Checkpoint
