import Snapshot.CoordinatorTopologyAccept

/-! The manifest as it is published. Records are sorted before they are written, so that a
checkpoint and its restore can be compared; the order of the records of a participant does not
matter to the check of the group. -/
namespace Coordinator

open Std (ExtTreeMap)
open CuInterpose

/-- `participant.sort()`, by the derived order of records. -/
def sortRecords (records : List Record) : List Record :=
  records.mergeSort fun a b => (compare a b).isLE

/-- What `write_atomic` makes of the manifest before it is encoded. -/
def sorted (m : Manifest) : Manifest := m.map fun _ records => sortRecords records

theorem sortRecords_perm (records : List Record) : (sortRecords records).Perm records :=
  List.mergeSort_perm _ _

section Reordered

variable {m : Manifest} {f : NamespacePid → List Record → List Record}

theorem entries_perm (hf : ∀ x ∈ m.toList, (f x.1 x.2).Perm x.2) : (entries (m.map f)).Perm (entries m) := by
  rw [entries, entries, ExtTreeMap.toList_map, List.flatMap_map]
  exact List.Perm.flatMap_left _ fun x hx => (hf x hx).map _

theorem consistent_symm {x y : Entry} (h : Consistent x y) : Consistent y x where
  allocation d hd e he hid := by
    obtain ⟨h₁, h₂, h₃, h₄, h₅⟩ := h.allocation e he d hd hid.symm
    exact ⟨h₁.symm, h₂.symm, h₃.symm, sameLocation_symm h₄, h₅.symm⟩
  object o ho q hq hid := (h.object q hq o ho hid.symm).symm
  device id a ha b hb := (h.device id b hb a ha).symm

theorem referenced_of_perm {l l' : List Entry} (h : l.Perm l') {x : Entry}
    (hx : Referenced l x) : Referenced l' x := by
  have hdefinitions : ∀ y, y ∈ definitions l ↔ y ∈ definitions l' :=
    fun y => (h.filterMap _).mem_iff
  have hobjects : ∀ y, y ∈ objects l ↔ y ∈ objects l' := fun y => (h.filterMap _).mem_iff
  have hattached : ∀ id, attached l id = attached l' id :=
    fun id => List.toFinset_eq_of_perm _ _ (h.filterMap _)
  obtain ⟨pid, r⟩ := x
  cases r <;> simp only [Referenced, DefinesObject, hdefinitions, hobjects, hattached] at hx ⊢ <;>
    exact hx

theorem complete_of_perm {l l' : List Entry} (h : l.Perm l') {o : ObjectDefinition}
    (ho : Complete l o) : Complete l' o where
  creator := by
    rw [← ho.creator]
    exact (((h.filterMap objectDefinition).filter _).countP_eq _).symm
  devices := by
    rw [← ho.devices]
    exact congrArg Finset.card (List.toFinset_eq_of_perm _ _ (h.filterMap _)).symm
  bindings x hx := by
    have hattached : attached l o.reference.id = attached l' o.reference.id :=
      List.toFinset_eq_of_perm _ _ (h.filterMap _)
    obtain ⟨y, hy, hbound⟩ := ho.bindings x (hattached ▸ hx)
    exact ⟨y, h.mem_iff.mp hy, hbound⟩

theorem acceptable_map (hf : ∀ x ∈ m.toList, (f x.1 x.2).Perm x.2) (h : Acceptable m) :
    Acceptable (m.map f) := by
  have hperm := entries_perm hf
  have hdefinitions : ∀ y, y ∈ definitions (entries (m.map f)) ↔ y ∈ definitions (entries m) :=
    fun y => (hperm.filterMap _).mem_iff
  have hobjects : ∀ y, y ∈ objects (entries (m.map f)) ↔ y ∈ objects (entries m) :=
    fun y => (hperm.filterMap _).mem_iff
  refine ⟨by simpa using h.nonempty, fun x hx => ?_, ?_, fun p d hd => ?_, fun x hx => ?_,
    fun p o ho => ?_⟩
  · have hwell := h.wellFormed x (hperm.mem_iff.mp hx)
    obtain ⟨pid, r⟩ := x
    cases r with
    | allocation => simpa [WellFormed] using hwell
    | multicast => exact hwell
    | _ => trivial
  · exact (hperm.pairwise_iff fun h => consistent_symm h).mpr h.consistent
  · obtain ⟨x, hx, hanchor⟩ := h.anchored p d ((hdefinitions _).mp hd)
    exact ⟨x, hperm.mem_iff.mpr hx, hanchor⟩
  · exact referenced_of_perm hperm.symm (h.referenced x (hperm.mem_iff.mp hx))
  · exact complete_of_perm hperm.symm (h.complete p o ((hobjects _).mp ho))

theorem eq_of_perm_of_length_le_one {α : Type} {l l' : List α} (h : l.Perm l')
    (hlength : l.length ≤ 1) : l = l' := by
  rcases l with _ | ⟨a, _ | ⟨b, rest⟩⟩
  · exact h.nil_eq
  · exact List.singleton_perm.mp h
  · simp at hlength

theorem length_le_one_of_pairwise {α : Type} {l : List α} (h : l.Pairwise fun _ _ => False) :
    l.length ≤ 1 := by
  rcases l with _ | ⟨a, _ | ⟨b, rest⟩⟩
  · simp
  · simp
  · exact ((List.pairwise_cons.mp h).1 b (by simp)).elim

/-- One participant defines an identity at most once. -/
theorem length_definitions_le (h : (entries m).Pairwise Consistent) (id : AllocationId)
    {pid : NamespacePid} {records : List Record} (hmem : (pid, records) ∈ m.toList) :
    ((records.map (pid, ·)).filterMap fun x =>
      (definition x).filter (·.2.reference.id = id)).length ≤ 1 := by
  have hblock := (List.pairwise_flatMap.mp h).1 (pid, records) hmem
  have hpair : ((records.map (pid, ·)).filterMap fun x =>
      (definition x).filter (·.2.reference.id = id)).Pairwise fun _ _ => False := by
    refine List.pairwise_filterMap.mpr (hblock.imp_of_mem fun {x y} hx hy hc d hd e he => ?_)
    obtain ⟨hd, hid⟩ := Option.filter_eq_some_iff.mp hd
    obtain ⟨he, hie⟩ := Option.filter_eq_some_iff.mp he
    simp only [decide_eq_true_eq] at hid hie
    have hne := (hc.allocation d hd e he (hid.trans hie.symm)).2.2.2.2
    obtain ⟨r, -, rfl⟩ := List.mem_map.mp hx
    obtain ⟨r', -, rfl⟩ := List.mem_map.mp hy
    have hpid : ∀ (r : Record) d, definition (pid, r) = some d → d.1 = pid := by
      intro r d hd
      cases r <;> simp only [definition, Option.some.injEq, reduceCtorEq] at hd
      rw [← hd]
    exact hne ((hpid r d hd).trans (hpid r' e he).symm)
  exact length_le_one_of_pairwise hpair

theorem definitions_map (hf : ∀ x ∈ m.toList, (f x.1 x.2).Perm x.2)
    (h : (entries m).Pairwise Consistent) (id : AllocationId) :
    (definitions (entries (m.map f))).filter (·.2.reference.id = id) =
      (definitions (entries m)).filter (·.2.reference.id = id) := by
  have hpick : ∀ l : List Entry, (definitions l).filter (·.2.reference.id = id) =
      l.filterMap fun x => (definition x).filter (·.2.reference.id = id) :=
    fun _ => List.filter_filterMap
  rw [hpick, hpick, entries, entries, ExtTreeMap.toList_map, List.flatMap_map,
    List.filterMap_flatMap, List.filterMap_flatMap]
  refine List.flatMap_congr fun x hx => ?_
  exact (eq_of_perm_of_length_le_one (((hf x hx).symm.map _).filterMap _)
    (length_definitions_le h id hx)).symm

theorem summaries_map (hf : ∀ x ∈ m.toList, (f x.1 x.2).Perm x.2)
    (h : (entries m).Pairwise Consistent) : summaries (m.map f) = summaries m := by
  refine congrArg OrderedMap.values (ExtTreeMap.ext_getElem? fun id => ?_)
  rw [chosen_allocations, chosen_allocations, summary, summary, definitions_map hf h]

/-- The check does not depend on the order of the records of a participant. -/
theorem validate_map (hf : ∀ x ∈ m.toList, (f x.1 x.2).Perm x.2) {l : List AllocationSummary}
    (h : validate m = .ok l) : validate (m.map f) = .ok l := by
  obtain ⟨hm, rfl⟩ := validate_eq_ok.mp h
  exact validate_eq_ok.mpr ⟨acceptable_map hf hm, (summaries_map hf hm.consistent).symm⟩

end Reordered

/-- The same participants with the same records, in any order for each participant. -/
def Reordered (m m' : Manifest) : Prop := ∀ pid : NamespacePid, Option.Rel List.Perm m[pid]? m'[pid]?

theorem Reordered.symm {m m' : Manifest} (h : Reordered m m') : Reordered m' m := by
  intro pid
  have hpid := h pid
  generalize m[pid]? = r at hpid ⊢
  generalize m'[pid]? = r' at hpid ⊢
  cases hpid with
  | some hperm => exact .some hperm.symm
  | none => exact .none

theorem reordered_sorted (m : Manifest) : Reordered m (sorted m) := by
  intro pid
  rw [sorted, ExtTreeMap.getElem?_map]
  cases m[pid]? with
  | none => exact .none
  | some records => exact .some (sortRecords_perm records).symm

theorem Reordered.eq_map {m m' : Manifest} (h : Reordered m m') :
    m' = m.map fun pid _ => m'[pid]?.getD [] := by
  refine ExtTreeMap.ext_getElem? fun pid => ?_
  rw [ExtTreeMap.getElem?_map]
  have hpid := h pid
  generalize m[pid]? = r at hpid ⊢
  generalize m'[pid]? = r' at hpid ⊢
  cases hpid <;> rfl

theorem Reordered.validate {m m' : Manifest} (h : Reordered m m') {l : List AllocationSummary}
    (hvalid : validate m = .ok l) : Coordinator.validate m' = .ok l := by
  rw [h.eq_map]
  refine validate_map (fun x hx => ?_) hvalid
  have hx := ExtTreeMap.mem_toList_iff_getElem?_eq_some.1 hx
  have hpid := h x.1
  rw [hx] at hpid
  generalize m'[x.1]? = r' at hpid ⊢
  cases hpid with
  | some hperm => exact hperm.symm

theorem validate_sorted {m : Manifest} {l : List AllocationSummary} (h : validate m = .ok l) :
    validate (sorted m) = .ok l := validate_map (fun x _ => sortRecords_perm x.2) h

end Coordinator
