import Snapshot.CheckedFold
import Snapshot.CoordinatorTopology

/-! The first pass of `validate`, stated on the records themselves: which records are well formed
and which pairs of them agree. The pass is reduced to its unchecked accumulator, whose contents
have closed forms. -/
namespace Coordinator

open Std (ExtTreeMap)
open CuInterpose CheckedFold

@[simp]
theorem ensure_eq_ok {condition : Bool} {cause : TopologyError} {u : Unit} :
    ensure condition cause = .ok u ↔ condition = true := by
  unfold ensure
  split <;> simp_all

/-- The fields of an allocation record. -/
structure Definition where
  reference : AllocationReference
  shared : Bool
  peerAccessGranted : Bool
  size : ℕ
  allocationType : ℕ
  handleTypes : ℕ
  location : MemoryLocation
  handleCount : ℕ
  deriving DecidableEq, Repr

/-- The fields of a multicast record that the check reads. -/
@[ext]
structure ObjectDefinition where
  reference : AllocationReference
  properties : MulticastProperties
  deriving DecidableEq, Repr

abbrev Entry := NamespacePid × Record

def definition : Entry → Option (NamespacePid × Definition)
  | (pid, .allocation a shared peer size type handleTypes location count) =>
    some (pid, ⟨a, shared, peer, size, type, handleTypes, location, count⟩)
  | _ => none

def objectDefinition : Entry → Option (NamespacePid × ObjectDefinition)
  | (pid, .multicast a properties _) => some (pid, ⟨a, properties⟩)
  | _ => none

def definitions (l : List Entry) : List (NamespacePid × Definition) := l.filterMap definition

def objects (l : List Entry) : List (NamespacePid × ObjectDefinition) :=
  l.filterMap objectDefinition

/-- The device attachment that a record states for an identity. -/
def attachment (id : AllocationId) : Entry → Option (NamespacePid × ℤ)
  | (pid, .multicastDevice a device) => if a.id = id then some (pid, device) else none
  | _ => none

def attached (l : List Entry) (id : AllocationId) : Finset (NamespacePid × ℤ) :=
  (l.filterMap (attachment id)).toFinset

/-- A participant anchors an identity by a handle or by a mapping. -/
def anchor : Entry → Option (AllocationId × NamespacePid)
  | (pid, .allocation a _ _ _ _ _ _ count) => if count ≠ 0 then some (a.id, pid) else none
  | (pid, .mapping a ..) => some (a.id, pid)
  | _ => none

def bound : Entry → Option (AllocationId × NamespacePid × ℤ)
  | (pid, .multicastBinding a _ _ _ _ _ device) => some (a.id, pid, device)
  | _ => none

/-- The first pass without its checks. -/
def addEntry (c : Collected) (x : Entry) : Collected :=
  match x with
  | (pid, .allocation a shared peer size _ _ location count) =>
    let known := c.allocations[a.id]?.getD ⟨a, size, shared, false, pid, ∅, location⟩
    { c with
      allocations := c.allocations.insert a.id { known with
        peerAccessGranted := known.peerAccessGranted || peer
        holders := insert pid known.holders }
      anchors := if count ≠ 0 then insert (a.id, pid) c.anchors else c.anchors }
  | (pid, .multicast a properties _) =>
    let known := c.multicasts[a.id]?.getD ⟨a, properties, 0⟩
    { c with
      multicasts := c.multicasts.insert a.id
        (if pid = a.creatorPid then { known with creators := known.creators + 1 } else known) }
  | (pid, .mapping a ..) => { c with anchors := insert (a.id, pid) c.anchors }
  | (pid, .multicastDevice a device) =>
    { c with
      devices := c.devices.insert a.id (insert (pid, device) (c.devices[a.id]?.getD ∅)) }
  | (pid, .multicastBinding a _ _ _ _ _ device) =>
    { c with bindings := insert (a.id, pid, device) c.bindings }
  | (_, .multicastMapping ..) => c

/-- A record that can stand alone. -/
def WellFormed (m : Manifest) : Entry → Prop
  | (pid, .allocation a shared _ size type handleTypes location _) =>
    supportedAllocation type location ∧ a.creatorPid ∈ m ∧ 0 < size ∧
      knownHandleTypes handleTypes ∧
      if a.creatorPid = pid then handleTypes ≠ 0 ∨ ¬ shared else shared
  | (_, .multicast _ properties _) =>
    properties.handleTypes = handleTypePosixFileDescriptor ∧ properties.size ≠ 0 ∧
      properties.devices ≠ 0 ∧ properties.flags = 0
  | _ => True

/-- Two holders of one identity agree on it. -/
def Agree (x y : NamespacePid × Definition) : Prop :=
  x.2.reference.id = y.2.reference.id →
    x.2.reference = y.2.reference ∧ x.2.size = y.2.size ∧ x.2.shared = y.2.shared ∧
      sameLocation x.2.location y.2.location ∧ x.1 ≠ y.1

def AgreeObject (x y : NamespacePid × ObjectDefinition) : Prop :=
  x.2.reference.id = y.2.reference.id → x.2 = y.2

/-- Two records that can stand in one group, in this order. -/
structure Consistent (x y : Entry) : Prop where
  allocation : ∀ d ∈ definition x, ∀ e ∈ definition y, Agree d e
  object : ∀ o ∈ objectDefinition x, ∀ q ∈ objectDefinition y, AgreeObject o q
  device : ∀ id, ∀ a ∈ attachment id x, ∀ b ∈ attachment id y, a ≠ b

/-- The summary that the definitions of one identity add up to. -/
def summarize : List (NamespacePid × Definition) → Option AllocationSummary
  | [] => none
  | (pid, d) :: rest => some
    { reference := d.reference, size := d.size, shared := d.shared
      peerAccessGranted := d.peerAccessGranted || rest.any (·.2.peerAccessGranted)
      ownerPid := pid, holders := insert pid (rest.map (·.1)).toFinset, location := d.location }

def summarizeObject : List (NamespacePid × ObjectDefinition) → Option Multicast
  | [] => none
  | (pid, o) :: rest => some
    { reference := o.reference, properties := o.properties
      creators := ((pid, o) :: rest).countP fun x => x.1 = x.2.reference.creatorPid }

/-- What the first pass knows about an identity after the records of a list. -/
def summary (l : List Entry) (id : AllocationId) : Option AllocationSummary :=
  summarize ((definitions l).filter (·.2.reference.id = id))

def objectSummary (l : List Entry) (id : AllocationId) : Option Multicast :=
  summarizeObject ((objects l).filter (·.2.reference.id = id))

/-- The accumulator of the first pass after the records of a list. -/
def collected (l : List Entry) : Collected := l.foldl addEntry .empty

theorem collected_concat (l : List Entry) (x : Entry) :
    collected (l ++ [x]) = addEntry (collected l) x := by
  simp [collected]

theorem summarize_concat (l : List (NamespacePid × Definition)) (pid : NamespacePid)
    (d : Definition) :
    summarize (l ++ [(pid, d)]) =
      let known := (summarize l).getD ⟨d.reference, d.size, d.shared, false, pid, ∅, d.location⟩
      some { known with
        peerAccessGranted := known.peerAccessGranted || d.peerAccessGranted
        holders := insert pid known.holders } := by
  rcases l with _ | ⟨⟨p, e⟩, rest⟩
  · simp [summarize]
  · simp [summarize, Bool.or_assoc, Finset.insert_comm pid p]

theorem summarizeObject_concat (l : List (NamespacePid × ObjectDefinition)) (pid : NamespacePid)
    (o : ObjectDefinition) :
    summarizeObject (l ++ [(pid, o)]) =
      let known := (summarizeObject l).getD ⟨o.reference, o.properties, 0⟩
      some (if pid = o.reference.creatorPid then { known with creators := known.creators + 1 }
        else known) := by
  rcases l with _ | ⟨⟨p, q⟩, rest⟩
  · by_cases h : pid = o.reference.creatorPid <;> simp [summarizeObject, h]
  · by_cases h : pid = o.reference.creatorPid <;>
      simp [summarizeObject, List.countP_append, List.countP_cons, h]
    split <;> omega

/-- A record that says nothing about a table adds nothing to what the records say. -/
theorem filterMap_concat_of_none {β : Type} {f : Entry → Option β} {l : List Entry} {x : Entry} (h : f x = none) :
    (l ++ [x]).filterMap f = l.filterMap f := by
  rw [List.filterMap_append, List.filterMap_cons_none h, List.filterMap_nil, List.append_nil]

theorem exists_concat_of_none {β : Type} {f : Entry → Option β} {l : List Entry} {x : Entry} {y : β} (h : f x = none) :
    (∃ z ∈ l ++ [x], f z = some y) ↔ ∃ z ∈ l, f z = some y := by
  rw [← List.mem_filterMap, filterMap_concat_of_none h, List.mem_filterMap]

theorem exists_concat_of_some {β : Type} {f : Entry → Option β} {l : List Entry} {x : Entry} {y w : β} (h : f x = some w) :
    (∃ z ∈ l ++ [x], f z = some y) ↔ y = w ∨ ∃ z ∈ l, f z = some y := by
  rw [← List.mem_filterMap, List.filterMap_append, List.filterMap_cons_some h, List.filterMap_nil, List.mem_append,
    List.mem_singleton, List.mem_filterMap, or_comm]

theorem collected_allocations (l : List Entry) (id : AllocationId) :
    (collected l).allocations[id]? = summary l id := by
  induction l using List.reverseRecOn with
  | nil => simp [collected, Collected.empty, summary, definitions, summarize]
  | append_singleton l x ih =>
    rw [collected_concat]
    obtain ⟨pid, r⟩ := x
    cases r with
    | allocation a shared peer size type handleTypes location count =>
      by_cases hid : a.id = id
      · subst hid
        simp [addEntry, ih, summary, definitions, definition, summarize_concat]
      · simpa [addEntry, ExtTreeMap.getElem?_insert, hid, summary, definitions, definition] using ih
    | _ =>
      rw [summary, definitions, filterMap_concat_of_none rfl]
      exact ih

theorem collected_multicasts (l : List Entry) (id : AllocationId) :
    (collected l).multicasts[id]? = objectSummary l id := by
  induction l using List.reverseRecOn with
  | nil => simp [collected, Collected.empty, objectSummary, objects, summarizeObject]
  | append_singleton l x ih =>
    rw [collected_concat]
    obtain ⟨pid, r⟩ := x
    cases r with
    | multicast a properties count =>
      by_cases hid : a.id = id
      · subst hid
        simp [addEntry, ih, objectSummary, objects, objectDefinition, summarizeObject_concat]
      · simpa [addEntry, ExtTreeMap.getElem?_insert, hid, objectSummary, objects, objectDefinition]
          using ih
    | _ =>
      rw [objectSummary, objects, filterMap_concat_of_none rfl]
      exact ih

theorem collected_devices (l : List Entry) (id : AllocationId) :
    (collected l).devices[id]?.getD ∅ = attached l id := by
  induction l using List.reverseRecOn with
  | nil => simp [collected, Collected.empty, attached]
  | append_singleton l x ih =>
    rw [collected_concat]
    obtain ⟨pid, r⟩ := x
    cases r with
    | multicastDevice a device =>
      by_cases hid : a.id = id
      · subst hid
        ext y
        simp [addEntry, ih, attached, attachment]
      · simpa [addEntry, ExtTreeMap.getElem?_insert, hid, attached, attachment] using ih
    | _ =>
      rw [attached, filterMap_concat_of_none rfl]
      exact ih

theorem mem_collected_anchors {l : List Entry} {y : AllocationId × NamespacePid} :
    y ∈ (collected l).anchors ↔ ∃ x ∈ l, anchor x = some y := by
  induction l using List.reverseRecOn with
  | nil => simp [collected, Collected.empty]
  | append_singleton l x ih =>
    rw [collected_concat]
    obtain ⟨pid, r⟩ := x
    cases r with
    | allocation a shared peer size type handleTypes location count =>
      by_cases hcount : count ≠ 0
      · rw [exists_concat_of_some (if_pos hcount), ← ih, ← Finset.mem_insert, addEntry, if_pos hcount]
      · rw [exists_concat_of_none (if_neg hcount), ← ih, addEntry, if_neg hcount]
    | mapping a address size offset access =>
      have hsays : anchor (pid, .mapping a address size offset access) = some (a.id, pid) := rfl
      rw [exists_concat_of_some hsays, ← ih]
      exact Finset.mem_insert
    | _ =>
      rw [exists_concat_of_none rfl]
      exact ih

theorem mem_collected_bindings {l : List Entry} {y : AllocationId × NamespacePid × ℤ} :
    y ∈ (collected l).bindings ↔ ∃ x ∈ l, bound x = some y := by
  induction l using List.reverseRecOn with
  | nil => simp [collected, Collected.empty]
  | append_singleton l x ih =>
    rw [collected_concat]
    obtain ⟨pid, r⟩ := x
    cases r with
    | multicastBinding a source size offset flags version device =>
      have hsays : bound (pid, .multicastBinding a source size offset flags version device) = some (a.id, pid, device) := rfl
      rw [exists_concat_of_some hsays, ← ih]
      exact Finset.mem_insert
    | _ =>
      rw [exists_concat_of_none rfl]
      exact ih

/-- What the first pass requires of a record beside its form. -/
def Fits (c : Collected) : Entry → Prop
  | (pid, .allocation a shared _ size _ _ location _) =>
    let known := c.allocations[a.id]?.getD ⟨a, size, shared, false, pid, ∅, location⟩
    known.reference = a ∧ known.size = size ∧ known.shared = shared ∧
      sameLocation known.location location ∧ pid ∉ known.holders
  | (_, .multicast a properties _) =>
    let known := c.multicasts[a.id]?.getD ⟨a, properties, 0⟩
    known.reference = a ∧ known.properties = properties
  | (pid, .multicastDevice a device) => (pid, device) ∉ c.devices[a.id]?.getD ∅
  | _ => True

theorem collectRecord_eq_ok {m : Manifest} {c c' : Collected} {x : Entry} :
    collectRecord m c x = .ok c' ↔ (WellFormed m x ∧ Fits c x) ∧ c' = addEntry c x := by
  obtain ⟨pid, r⟩ := x
  cases r with
  | allocation a shared peer size type handleTypes location count =>
    by_cases hcreator : a.creatorPid = pid <;>
      simp [collectRecord, collectAllocation, bind_eq_ok, WellFormed, Fits, addEntry, hcreator,
        pure, Except.pure, eq_comm (a := c')] <;> tauto
  | multicast a properties count =>
    simp [collectRecord, collectMulticast, bind_eq_ok, WellFormed, Fits, addEntry, pure,
      Except.pure, eq_comm (a := c')]
    tauto
  | multicastDevice a device =>
    simp [collectRecord, bind_eq_ok, WellFormed, Fits, addEntry, pure, Except.pure,
      eq_comm (a := c')]
  | _ => simp [collectRecord, WellFormed, Fits, addEntry, eq_comm (a := c')]

theorem sameLocation_iff {x y : MemoryLocation} :
    sameLocation x y ↔ x.locationType = y.locationType ∧
      (y.locationType ≠ MemLocationType.hostNuma.code ∨ x.id = y.id) := by
  simp [sameLocation]

theorem sameLocation_trans {x y z : MemoryLocation} (hxy : sameLocation x y)
    (hyz : sameLocation y z) : sameLocation x z := by
  rw [sameLocation_iff] at *
  obtain ⟨htype, hid⟩ := hxy
  obtain ⟨htype', hid'⟩ := hyz
  refine ⟨htype.trans htype', ?_⟩
  rcases hid' with h | h
  · exact .inl h
  · rcases hid with h' | h'
    · exact .inl (htype' ▸ h')
    · exact .inr (h'.trans h)

theorem sameLocation_symm {x y : MemoryLocation} (h : sameLocation x y) : sameLocation y x := by
  rw [sameLocation_iff] at *
  exact ⟨h.1.symm, h.2.imp (fun hne => h.1 ▸ hne) Eq.symm⟩

theorem sameLocation_refl (x : MemoryLocation) : sameLocation x x := by
  simp [sameLocation]

/-- The first of several agreeing definitions speaks for all of them. -/
theorem agree_all_iff {id : AllocationId} {p : NamespacePid} {d : Definition}
    {rest : List (NamespacePid × Definition)} {x : NamespacePid × Definition}
    (hid : ∀ y ∈ (p, d) :: rest, y.2.reference.id = id) (hpair : ((p, d) :: rest).Pairwise Agree)
    (hx : x.2.reference.id = id) :
    (d.reference = x.2.reference ∧ d.size = x.2.size ∧ d.shared = x.2.shared ∧
        sameLocation d.location x.2.location ∧ x.1 ∉ insert p (rest.map (·.1)).toFinset) ↔
      ∀ y ∈ (p, d) :: rest, Agree y x := by
  have hd : d.reference.id = id := hid (p, d) (by simp)
  have hrest : ∀ y ∈ rest, Agree (p, d) y := (List.pairwise_cons.mp hpair).1
  constructor
  · rintro ⟨hreference, hsize, hshared, hlocation, hholders⟩ y hy _
    rcases List.mem_cons.mp hy with rfl | hy
    · exact ⟨hreference, hsize, hshared, hlocation, by rintro rfl; simp at hholders⟩
    · obtain ⟨h₁, h₂, h₃, h₄, _⟩ := hrest y hy (hd.trans (hid y (by simp [hy])).symm)
      refine ⟨h₁ ▸ hreference, h₂ ▸ hsize, h₃ ▸ hshared,
        sameLocation_trans (sameLocation_symm h₄) hlocation, ?_⟩
      rintro hpid
      exact hholders (by rw [← hpid]; simp only [Finset.mem_insert, List.mem_toFinset]; exact .inr (List.mem_map_of_mem hy))
  · intro hall
    obtain ⟨h₁, h₂, h₃, h₄, h₅⟩ := hall (p, d) (by simp) (hd.trans hx.symm)
    refine ⟨h₁, h₂, h₃, h₄, ?_⟩
    simp only [Finset.mem_insert, List.mem_toFinset, List.mem_map, not_or, not_exists, not_and]
    refine ⟨fun h => h₅ h.symm, fun y hy hpid => ?_⟩
    exact (hall y (by simp [hy]) ((hid y (by simp [hy])).trans hx.symm)).2.2.2.2 hpid

theorem agreeObject_all_iff {id : AllocationId} {p : NamespacePid} {o : ObjectDefinition}
    {rest : List (NamespacePid × ObjectDefinition)} {x : NamespacePid × ObjectDefinition}
    (hid : ∀ y ∈ (p, o) :: rest, y.2.reference.id = id)
    (hpair : ((p, o) :: rest).Pairwise AgreeObject) (hx : x.2.reference.id = id) :
    o = x.2 ↔ ∀ y ∈ (p, o) :: rest, AgreeObject y x := by
  have ho : o.reference.id = id := hid (p, o) (by simp)
  constructor
  · rintro rfl y hy _
    rcases List.mem_cons.mp hy with rfl | hy
    · rfl
    · exact ((List.pairwise_cons.mp hpair).1 y hy (ho.trans (hid y (by simp [hy])).symm)).symm
  · intro hall
    exact hall (p, o) (by simp) (ho.trans hx.symm)

theorem pairwise_definitions {l : List Entry} (h : l.Pairwise Consistent) :
    (definitions l).Pairwise Agree :=
  List.pairwise_filterMap.mpr (h.imp fun hc d hd e he => hc.allocation d hd e he)

theorem pairwise_objects {l : List Entry} (h : l.Pairwise Consistent) :
    (objects l).Pairwise AgreeObject :=
  List.pairwise_filterMap.mpr (h.imp fun hc o ho q hq => hc.object o ho q hq)

theorem mem_definitions {l : List Entry} {x : NamespacePid × Definition} :
    x ∈ definitions l ↔ ∃ y ∈ l, definition y = some x := List.mem_filterMap

theorem mem_objects {l : List Entry} {x : NamespacePid × ObjectDefinition} :
    x ∈ objects l ↔ ∃ y ∈ l, objectDefinition y = some x := List.mem_filterMap

theorem mem_attached {l : List Entry} {id : AllocationId} {x : NamespacePid × ℤ} :
    x ∈ attached l id ↔ ∃ y ∈ l, attachment id y = some x := by
  simp [attached]

/-- A record fits what the first pass has collected exactly if it is consistent with every
record before it. -/
theorem fits_collected_iff {l : List Entry} (hl : l.Pairwise Consistent) {x : Entry} :
    Fits (collected l) x ↔ ∀ y ∈ l, Consistent y x := by
  obtain ⟨pid, r⟩ := x
  cases r with
  | allocation a shared peer size type handleTypes location count =>
    have hconsistent : (∀ y ∈ l, Consistent y (pid, .allocation a shared peer size type handleTypes
        location count)) ↔ ∀ y ∈ (definitions l).filter (·.2.reference.id = a.id),
          Agree y (pid, ⟨a, shared, peer, size, type, handleTypes, location, count⟩) := by
      constructor
      · intro h y hy
        obtain ⟨hy, -⟩ := List.mem_filter.mp hy
        obtain ⟨z, hz, hzy⟩ := mem_definitions.mp hy
        exact (h z hz).allocation y hzy _ rfl
      · intro h z hz
        refine ⟨fun d hd e he => ?_, by simp [objectDefinition], by simp [attachment]⟩
        cases he
        intro hid
        exact h d (List.mem_filter.mpr ⟨mem_definitions.mpr ⟨z, hz, hd⟩, by simpa using hid⟩) hid
    have hpair := (pairwise_definitions hl).filter (·.2.reference.id = a.id)
    have hids : ∀ y ∈ (definitions l).filter (·.2.reference.id = a.id), y.2.reference.id = a.id :=
      fun y hy => by simpa using (List.mem_filter.mp hy).2
    rw [hconsistent]
    simp only [Fits, collected_allocations, summary]
    clear hconsistent
    generalize (definitions l).filter (·.2.reference.id = a.id) = ds at *
    rcases ds with _ | ⟨⟨p, d⟩, rest⟩
    · simp [summarize, sameLocation_refl]
    · exact agree_all_iff
        (x := (pid, ⟨a, shared, peer, size, type, handleTypes, location, count⟩)) hids hpair rfl
  | multicast a properties count =>
    have hconsistent : (∀ y ∈ l, Consistent y (pid, .multicast a properties count)) ↔
        ∀ y ∈ (objects l).filter (·.2.reference.id = a.id),
          AgreeObject y (pid, ⟨a, properties⟩) := by
      constructor
      · intro h y hy
        obtain ⟨hy, -⟩ := List.mem_filter.mp hy
        obtain ⟨z, hz, hzy⟩ := mem_objects.mp hy
        exact (h z hz).object y hzy _ rfl
      · intro h z hz
        refine ⟨by simp [definition], fun o ho q hq => ?_, by simp [attachment]⟩
        cases hq
        intro hid
        exact h o (List.mem_filter.mpr ⟨mem_objects.mpr ⟨z, hz, ho⟩, by simpa using hid⟩) hid
    have hpair := (pairwise_objects hl).filter (·.2.reference.id = a.id)
    have hids : ∀ y ∈ (objects l).filter (·.2.reference.id = a.id), y.2.reference.id = a.id :=
      fun y hy => by simpa using (List.mem_filter.mp hy).2
    rw [hconsistent]
    simp only [Fits, collected_multicasts, objectSummary]
    clear hconsistent
    generalize (objects l).filter (·.2.reference.id = a.id) = os at *
    rcases os with _ | ⟨⟨p, o⟩, rest⟩
    · simp [summarizeObject]
    · rw [← agreeObject_all_iff hids hpair rfl]
      simp [summarizeObject, ObjectDefinition.ext_iff]
  | multicastDevice a device =>
    simp only [Fits, collected_devices, mem_attached, not_exists, not_and]
    constructor
    · intro h y hy
      refine ⟨by simp [definition], by simp [objectDefinition], fun id b hb c hc => ?_⟩
      simp only [attachment, Option.mem_def, Option.ite_none_right_eq_some, Option.some.injEq] at hc
      obtain ⟨rfl, rfl⟩ := hc
      rintro rfl
      exact h y hy hb
    · intro h y hy hmem
      exact (h y hy).device a.id _ hmem (pid, device) (by simp [attachment]) rfl
  | _ =>
    simp only [Fits, true_iff]
    exact fun y _ => ⟨by simp [definition], by simp [objectDefinition], by simp [attachment]⟩

/-- The first pass succeeds exactly on well formed and pairwise consistent records. -/
theorem collect_eq_ok {m : Manifest} {l : List Entry} {c : Collected} :
    l.foldlM (collectRecord m) .empty = .ok c ↔
      ((∀ x ∈ l, WellFormed m x) ∧ l.Pairwise Consistent) ∧ c = collected l := by
  rw [foldlM_eq_ok (fun _ _ _ => collectRecord_eq_ok)]
  refine and_congr_left fun hc => ?_
  clear hc
  induction l using List.reverseRecOn with
  | nil => simp [Admitted]
  | append_singleton l x ih =>
    rw [admitted_append, ih, List.pairwise_append]
    simp only [Admitted, and_true, List.mem_append, List.mem_singleton, List.pairwise_singleton,
      forall_eq, true_and]
    constructor
    · rintro ⟨⟨hwell, hpair⟩, hx, hfits⟩
      exact ⟨fun y hy => hy.elim (hwell y) (fun h => h ▸ hx), hpair,
        (fits_collected_iff hpair).mp hfits⟩
    · rintro ⟨hwell, hpair, hcons⟩
      exact ⟨⟨fun y hy => hwell y (.inl hy), hpair⟩, hwell x (.inr rfl),
        (fits_collected_iff hpair).mpr hcons⟩

end Coordinator
