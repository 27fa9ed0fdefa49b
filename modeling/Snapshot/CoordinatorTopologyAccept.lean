import Snapshot.CoordinatorTopologySpec

/-! When `validate` accepts a group, and what it then returns. The second pass is stated on the
records through the summaries of the first, which the definitions of one identity determine. -/
namespace Coordinator

open Std (ExtTreeMap)
open CuInterpose CheckedFold

/-- What the summary of an identity says about the definitions it was made from. -/
structure Summarizes (l : List Entry) (id : AllocationId) (k : AllocationSummary) : Prop where
  reference_id : k.reference.id = id
  agrees : ∀ p d, (p, d) ∈ definitions l → d.reference.id = id →
    d.reference = k.reference ∧ d.size = k.size ∧ d.shared = k.shared
  mem_holders : ∀ p, p ∈ k.holders ↔ ∃ d, (p, d) ∈ definitions l ∧ d.reference.id = id
  peer_iff : k.peerAccessGranted ↔
    ∃ p d, (p, d) ∈ definitions l ∧ d.reference.id = id ∧ d.peerAccessGranted
  nonempty : k.holders.Nonempty

theorem summary_spec {l : List Entry} (hl : l.Pairwise Consistent) {id : AllocationId}
    {k : AllocationSummary} (h : summary l id = some k) : Summarizes l id k := by
  have hmem : ∀ x, x ∈ (definitions l).filter (·.2.reference.id = id) ↔
      x ∈ definitions l ∧ x.2.reference.id = id := fun x => by simp
  have hpair := (pairwise_definitions hl).filter (·.2.reference.id = id)
  rw [summary] at h
  generalize (definitions l).filter (·.2.reference.id = id) = ds at *
  rcases ds with _ | ⟨⟨p, d⟩, rest⟩
  · simp [summarize] at h
  · simp only [summarize, Option.some.injEq] at h
    subst h
    have hd := (hmem (p, d)).mp (by simp)
    have hrest : ∀ q e, (q, e) ∈ (p, d) :: rest →
        e.reference = d.reference ∧ e.size = d.size ∧ e.shared = d.shared := by
      intro q e he
      rcases List.mem_cons.mp he with heq | he'
      · cases heq
        exact ⟨rfl, rfl, rfl⟩
      · obtain ⟨h₁, h₂, h₃, -⟩ := (List.pairwise_cons.mp hpair).1 (q, e) he'
          (hd.2.trans ((hmem (q, e)).mp he).2.symm)
        exact ⟨h₁.symm, h₂.symm, h₃.symm⟩
    refine ⟨hd.2, fun q e he hid => hrest q e ((hmem (q, e)).mpr ⟨he, hid⟩), fun q => ?_, ?_, by simp⟩
    · simp only [Finset.mem_insert, List.mem_toFinset, List.mem_map, Prod.exists, exists_and_right,
        exists_eq_right]
      constructor
      · rintro (rfl | ⟨e, he⟩)
        · exact ⟨d, hd⟩
        · exact ⟨e, (hmem (q, e)).mp (by simp [he])⟩
      · rintro ⟨e, he⟩
        rcases List.mem_cons.mp ((hmem (q, e)).mpr he) with heq | he'
        · exact .inl (congrArg Prod.fst heq)
        · exact .inr ⟨e, he'⟩
    · simp only [Bool.or_eq_true, List.any_eq_true, Prod.exists]
      constructor
      · rintro (h | ⟨q, e, he, h⟩)
        · exact ⟨p, d, hd.1, hd.2, h⟩
        · obtain ⟨h₁, h₂⟩ := (hmem (q, e)).mp (by simp [he])
          exact ⟨q, e, h₁, h₂, h⟩
      · rintro ⟨q, e, he, hid, h⟩
        rcases List.mem_cons.mp ((hmem (q, e)).mpr ⟨he, hid⟩) with heq | he'
        · cases heq
          exact .inl h
        · exact .inr ⟨q, e, he', h⟩

theorem summary_eq_none_iff {l : List Entry} {id : AllocationId} :
    summary l id = none ↔ ∀ p d, (p, d) ∈ definitions l → d.reference.id ≠ id := by
  have hmem : ∀ x, x ∈ (definitions l).filter (·.2.reference.id = id) ↔
      x ∈ definitions l ∧ x.2.reference.id = id := fun x => by simp
  rw [summary]
  generalize (definitions l).filter (·.2.reference.id = id) = ds at *
  rcases ds with _ | ⟨⟨p, d⟩, rest⟩
  · simp only [summarize, true_iff]
    exact fun p d hd hid => by simpa using (hmem (p, d)).mpr ⟨hd, hid⟩
  · simp only [summarize, reduceCtorEq, false_iff, not_forall, not_not]
    exact ⟨p, d, ((hmem (p, d)).mp (by simp)).1, ((hmem (p, d)).mp (by simp)).2⟩

theorem exists_summary {l : List Entry} {p : NamespacePid} {d : Definition}
    (hd : (p, d) ∈ definitions l) : ∃ k, summary l d.reference.id = some k := by
  rw [← Option.isSome_iff_exists, Option.isSome_iff_ne_none]
  exact fun h => summary_eq_none_iff.mp h p d hd rfl

/-- What the summary of a multicast identity says about its definitions. -/
structure SummarizesObject (l : List Entry) (id : AllocationId) (k : Multicast) : Prop where
  reference_id : k.reference.id = id
  agrees : ∀ p o, (p, o) ∈ objects l → o.reference.id = id → o = ⟨k.reference, k.properties⟩
  creators : k.creators =
    ((objects l).filter (·.2.reference.id = id)).countP fun x => x.1 = x.2.reference.creatorPid
  defined : ∃ p, (p, ⟨k.reference, k.properties⟩) ∈ objects l

theorem objectSummary_spec {l : List Entry} (hl : l.Pairwise Consistent) {id : AllocationId}
    {k : Multicast} (h : objectSummary l id = some k) : SummarizesObject l id k := by
  have hmem : ∀ x, x ∈ (objects l).filter (·.2.reference.id = id) ↔
      x ∈ objects l ∧ x.2.reference.id = id := fun x => by simp
  have hpair := (pairwise_objects hl).filter (·.2.reference.id = id)
  rw [objectSummary] at h
  generalize hos : (objects l).filter (·.2.reference.id = id) = os at *
  rcases os with _ | ⟨⟨p, o⟩, rest⟩
  · simp [summarizeObject] at h
  · simp only [summarizeObject, Option.some.injEq] at h
    subst h
    have ho := (hmem (p, o)).mp (by simp)
    refine ⟨ho.2, fun q r hr hid => ?_, by rw [hos], p, ho.1⟩
    rcases List.mem_cons.mp ((hmem (q, r)).mpr ⟨hr, hid⟩) with heq | hr'
    · cases heq
      rfl
    · exact ((List.pairwise_cons.mp hpair).1 (q, r) hr' (ho.2.trans hid.symm)).symm

theorem objectSummary_eq_none_iff {l : List Entry} {id : AllocationId} :
    objectSummary l id = none ↔ ∀ p o, (p, o) ∈ objects l → o.reference.id ≠ id := by
  have hmem : ∀ x, x ∈ (objects l).filter (·.2.reference.id = id) ↔
      x ∈ objects l ∧ x.2.reference.id = id := fun x => by simp
  rw [objectSummary]
  generalize (objects l).filter (·.2.reference.id = id) = os at *
  rcases os with _ | ⟨⟨p, o⟩, rest⟩
  · simp only [summarizeObject, true_iff]
    exact fun p o ho hid => by simpa using (hmem (p, o)).mpr ⟨ho, hid⟩
  · simp only [summarizeObject, reduceCtorEq, false_iff, not_forall, not_not]
    exact ⟨p, o, ((hmem (p, o)).mp (by simp)).1, ((hmem (p, o)).mp (by simp)).2⟩

theorem exists_objectSummary {l : List Entry} {p : NamespacePid} {o : ObjectDefinition}
    (ho : (p, o) ∈ objects l) : ∃ k, objectSummary l o.reference.id = some k := by
  rw [← Option.isSome_iff_exists, Option.isSome_iff_ne_none]
  exact fun h => objectSummary_eq_none_iff.mp h p o ho rfl

/-- A range that fits below a bound, also as a 64-bit number. -/
def InBounds (offset size limit : ℕ) : Prop := offset + size < 2 ^ 64 ∧ offset + size ≤ limit

theorem checkedAdd_any_le {offset size limit : ℕ} :
    (checkedAdd offset size).any (· ≤ limit) = true ↔ InBounds offset size limit := by
  unfold checkedAdd InBounds
  split <;> simp_all

def memberRange : BindingSource → Option MemberRange
  | .memory range => some range
  | .address _ trackedMember => trackedMember

def ValidSource : BindingSource → Prop
  | .memory _ => True
  | .address address _ => address ≠ 0

def DefinesObject (l : List Entry) (a : AllocationReference) : Prop :=
  ∃ p o, (p, o) ∈ objects l ∧ o.reference = a

/-- What a record refers to is defined in the group, with the bounds that it needs. -/
def Referenced (l : List Entry) : Entry → Prop
  | (pid, .mapping a address size offset _) =>
    address ≠ 0 ∧ size ≠ 0 ∧
      ∃ d, (pid, d) ∈ definitions l ∧ d.reference = a ∧ InBounds offset size d.size
  | (pid, .multicastBinding a source size _ _ _ device) =>
    DefinesObject l a ∧ ValidSource source ∧
      (∀ range ∈ memberRange source, ∃ p d, (p, d) ∈ definitions l ∧
        d.reference = range.allocation ∧ InBounds range.offset size d.size) ∧
      (pid, device) ∈ attached l a.id
  | (_, .multicastMapping a ..) => DefinesObject l a
  | (_, .multicastDevice a _) => DefinesObject l a
  | _ => True

/-- A multicast object has one creator, all its devices, and a binding on each of them. -/
structure Complete (l : List Entry) (o : ObjectDefinition) : Prop where
  creator : ((objects l).filter (·.2.reference.id = o.reference.id)).countP
    (fun x => x.1 = x.2.reference.creatorPid) = 1
  devices : (attached l o.reference.id).card = o.properties.devices
  bindings : ∀ x ∈ attached l o.reference.id,
    ∃ y ∈ l, bound y = some (o.reference.id, x.1, x.2)

/-- The groups that can be checkpointed, by their records. -/
structure Acceptable (m : Manifest) : Prop where
  nonempty : ¬ m.isEmpty
  wellFormed : ∀ x ∈ entries m, WellFormed m x
  consistent : (entries m).Pairwise Consistent
  anchored : ∀ p d, (p, d) ∈ definitions (entries m) →
    ∃ x ∈ entries m, anchor x = some (d.reference.id, p)
  referenced : ∀ x ∈ entries m, Referenced (entries m) x
  complete : ∀ p o, (p, o) ∈ objects (entries m) → Complete (entries m) o

/-- What the second pass looks records up in. -/
def chosen (l : List Entry) : Collected :=
  { collected l with allocations := (collected l).allocations.map fun _ a => a.chooseOwner }

theorem chosen_allocations (l : List Entry) (id : AllocationId) :
    (chosen l).allocations[id]? = (summary l id).map AllocationSummary.chooseOwner := by
  simp [chosen, collected_allocations]

theorem checkMulticastReference_eq_ok {l : List Entry} (hl : l.Pairwise Consistent)
    {pid : NamespacePid} {a : AllocationReference} :
    checkMulticastReference (chosen l) pid a = .ok ⟨⟩ ↔ DefinesObject l a := by
  have hlookup : (chosen l).multicasts[a.id]? = objectSummary l a.id := collected_multicasts l a.id
  unfold checkMulticastReference DefinesObject
  rw [hlookup]
  cases h : objectSummary l a.id with
  | none =>
    simp only [reduceCtorEq, false_iff, not_exists, not_and]
    rintro p o ho rfl
    exact objectSummary_eq_none_iff.mp h p o ho rfl
  | some k =>
    have hk := objectSummary_spec hl h
    simp only [ensure_eq_ok, decide_eq_true_eq]
    constructor
    · rintro rfl
      obtain ⟨p, hp⟩ := hk.defined
      exact ⟨p, _, hp, rfl⟩
    · rintro ⟨p, o, ho, rfl⟩
      rw [hk.agrees p o ho rfl]

theorem checkMember_eq_ok {l : List Entry} (hl : l.Pairwise Consistent) {pid : NamespacePid}
    {size : ℕ} {range : MemberRange} :
    checkMember (chosen l) pid size range = .ok ⟨⟩ ↔ ∃ p d, (p, d) ∈ definitions l ∧
      d.reference = range.allocation ∧ InBounds range.offset size d.size := by
  unfold checkMember
  rw [chosen_allocations]
  cases h : summary l range.allocation.id with
  | none =>
    simp only [Option.map_none, reduceCtorEq, false_iff, not_exists, not_and]
    intro p d hd hreference
    exact absurd (congrArg AllocationReference.id hreference) (summary_eq_none_iff.mp h p d hd)
  | some k =>
    have hk := summary_spec hl h
    simp only [Option.map_some, AllocationSummary.chooseOwner, bind_eq_ok, ensure_eq_ok,
      decide_eq_true_eq, checkedAdd_any_le]
    constructor
    · rintro ⟨-, hreference, hbounds⟩
      obtain ⟨p, hp⟩ := hk.nonempty
      obtain ⟨d, hd, hid⟩ := (hk.mem_holders p).mp hp
      obtain ⟨h₁, h₂, -⟩ := hk.agrees p d hd hid
      exact ⟨p, d, hd, h₁.trans hreference, h₂ ▸ hbounds⟩
    · rintro ⟨p, d, hd, hreference, hbounds⟩
      obtain ⟨h₁, h₂, -⟩ := hk.agrees p d hd (by rw [hreference])
      exact ⟨⟨⟩, h₁.symm.trans hreference, h₂ ▸ hbounds⟩

theorem mem_devices_chosen {l : List Entry} {id : AllocationId} {x : NamespacePid × ℤ} :
    (chosen l).devices[id]?.any (x ∈ ·) = true ↔ x ∈ attached l id := by
  rw [← collected_devices]
  cases h : (collected l).devices[id]? <;> simp [chosen, h]

theorem memberOf_eq_ok {pid : NamespacePid} {a : AllocationReference} {source : BindingSource}
    {range : Option MemberRange} :
    memberOf pid a source = .ok range ↔ ValidSource source ∧ range = memberRange source := by
  cases source with
  | memory r => simp [memberOf, ValidSource, memberRange, eq_comm]
  | address address member =>
    simp [memberOf, ValidSource, memberRange, bind_eq_ok, pure, Except.pure, eq_comm (a := range)]

theorem checkRecord_eq_ok {l : List Entry} (hl : l.Pairwise Consistent) {x : Entry} (hx : x ∈ l) :
    checkRecord (chosen l) x = .ok ⟨⟩ ↔ Referenced l x := by
  obtain ⟨pid, r⟩ := x
  cases r with
  | allocation a shared peer size type handleTypes location count =>
    have hd := mem_definitions.mpr ⟨_, hx, rfl⟩
    obtain ⟨k, h⟩ := exists_summary hd
    have hk := summary_spec hl h
    have hreference : k.reference = a := (hk.agrees _ _ hd rfl).1.symm
    simp only at h
    simp [checkRecord, Referenced, chosen_allocations, h, AllocationSummary.chooseOwner,
      hreference]
  | mapping a address size offset access =>
    simp only [checkRecord, Referenced, chosen_allocations]
    cases h : summary l a.id with
    | none =>
      simp only [Option.map_none, reduceCtorEq, false_iff, not_and, not_exists]
      intro _ _ d hd hreference
      exact absurd (congrArg AllocationReference.id hreference)
        (summary_eq_none_iff.mp h pid d hd)
    | some k =>
      have hk := summary_spec hl h
      simp only [Option.map_some, AllocationSummary.chooseOwner, bind_eq_ok, ensure_eq_ok,
        decide_eq_true_eq, Bool.decide_and, Bool.and_eq_true, ne_eq, checkedAdd_any_le,
        hk.mem_holders]
      constructor
      · rintro ⟨-, ⟨hreference, d, hd, hid⟩, haddress, hsize, hbounds⟩
        obtain ⟨h₁, h₂, -⟩ := hk.agrees pid d hd hid
        exact ⟨haddress, hsize, d, hd, h₁.trans hreference, h₂ ▸ hbounds⟩
      · rintro ⟨haddress, hsize, d, hd, hreference, hbounds⟩
        have hid : d.reference.id = a.id := by rw [hreference]
        obtain ⟨h₁, h₂, -⟩ := hk.agrees pid d hd hid
        exact ⟨⟨⟩, ⟨h₁.symm.trans hreference, d, hd, hid⟩, haddress, hsize, h₂ ▸ hbounds⟩
  | multicast a properties count => simp [checkRecord, Referenced]
  | multicastDevice a device =>
    simpa [checkRecord, Referenced] using checkMulticastReference_eq_ok hl
  | multicastMapping a address size offset flags access =>
    simpa [checkRecord, Referenced] using checkMulticastReference_eq_ok hl
  | multicastBinding a source size offset flags version device =>
    simp only [checkRecord, Referenced, bind_eq_ok, checkMulticastReference_eq_ok hl,
      memberOf_eq_ok]
    cases h : memberRange source with
    | none =>
      constructor
      · rintro ⟨-, hobject, _, ⟨hsource, rfl⟩, hdevice⟩
        exact ⟨hobject, hsource, by simp, mem_devices_chosen.mp (ensure_eq_ok.mp hdevice)⟩
      · rintro ⟨hobject, hsource, -, hdevice⟩
        exact ⟨⟨⟩, hobject, none, ⟨hsource, rfl⟩,
          ensure_eq_ok.mpr (mem_devices_chosen.mpr hdevice)⟩
    | some range =>
      constructor
      · rintro ⟨-, hobject, _, ⟨hsource, rfl⟩, hrest⟩
        obtain ⟨⟨⟩, hmember, hdevice⟩ := bind_eq_ok.mp hrest
        refine ⟨hobject, hsource, ?_, mem_devices_chosen.mp (ensure_eq_ok.mp hdevice)⟩
        rintro _ ⟨⟩
        exact (checkMember_eq_ok hl).mp hmember
      · rintro ⟨hobject, hsource, hmember, hdevice⟩
        exact ⟨⟨⟩, hobject, some range, ⟨hsource, rfl⟩, bind_eq_ok.mpr
          ⟨⟨⟩, (checkMember_eq_ok hl).mpr (hmember range rfl),
            ensure_eq_ok.mpr (mem_devices_chosen.mpr hdevice)⟩⟩

theorem checkAnchors_eq_ok {l : List Entry} {k : AllocationSummary} :
    checkAnchors (collected l) k = .ok ⟨⟩ ↔
      ∀ p ∈ k.holders, ∃ x ∈ l, anchor x = some (k.reference.id, p) := by
  simp only [← mem_collected_anchors]
  unfold checkAnchors
  split
  next holder h =>
    have hmem := Finset.mem_filter.mp (Finset.mem_of_min h)
    simp only [reduceCtorEq, false_iff, not_forall]
    exact ⟨holder, hmem.1, hmem.2⟩
  next h =>
    have hempty := Finset.filter_eq_empty_iff.mp (Finset.min_eq_top.mp h)
    simpa using hempty

theorem checkMulticast_eq_ok {l : List Entry} (hl : l.Pairwise Consistent) {id : AllocationId}
    {k : Multicast} (h : objectSummary l id = some k) :
    checkMulticast (collected l) k = .ok ⟨⟩ ↔ Complete l ⟨k.reference, k.properties⟩ := by
  have hk := objectSummary_spec hl h
  simp only [checkMulticast, collected_devices, bind_eq_ok, ensure_eq_ok, decide_eq_true_eq,
    mem_collected_bindings]
  rw [hk.creators, ← hk.reference_id]
  constructor
  · rintro ⟨-, h₁, -, h₂, h₃⟩
    exact ⟨h₁, h₂, h₃⟩
  · rintro ⟨h₁, h₂, h₃⟩
    exact ⟨⟨⟩, h₁, ⟨⟩, h₂, h₃⟩

/-- The summaries that the coordinator plans with, in the order of the identities. -/
def summaries (m : Manifest) : List AllocationSummary :=
  OrderedMap.values (chosen (entries m)).allocations

theorem mem_summaries {m : Manifest} {k : AllocationSummary} :
    k ∈ summaries m ↔ ∃ id k₀, summary (entries m) id = some k₀ ∧ k = k₀.chooseOwner := by
  simp only [summaries, OrderedMap.mem_values, chosen_allocations, Option.map_eq_some_iff]
  exact exists_congr fun id => exists_congr fun k₀ => and_congr_right fun _ => eq_comm

theorem forall_summaries_anchored {m : Manifest} (hl : (entries m).Pairwise Consistent) :
    (∀ k ∈ summaries m, checkAnchors (collected (entries m)) k = .ok ⟨⟩) ↔
      ∀ p d, (p, d) ∈ definitions (entries m) →
        ∃ x ∈ entries m, anchor x = some (d.reference.id, p) := by
  simp only [checkAnchors_eq_ok, mem_summaries]
  constructor
  · intro h p d hd
    obtain ⟨k, hk⟩ := exists_summary hd
    have hspec := summary_spec hl hk
    have := h k.chooseOwner ⟨_, k, hk, rfl⟩ p ((hspec.mem_holders p).mpr ⟨d, hd, rfl⟩)
    rwa [AllocationSummary.chooseOwner, hspec.reference_id] at this
  · rintro h _ ⟨id, k, hk, rfl⟩ p hp
    have hspec := summary_spec hl hk
    obtain ⟨d, hd, rfl⟩ := (hspec.mem_holders p).mp hp
    have := h p d hd
    rwa [← hspec.reference_id] at this

theorem forall_multicasts_complete {m : Manifest} (hl : (entries m).Pairwise Consistent) :
    (∀ k ∈ OrderedMap.values (collected (entries m)).multicasts,
        checkMulticast (collected (entries m)) k = .ok ⟨⟩) ↔
      ∀ p o, (p, o) ∈ objects (entries m) → Complete (entries m) o := by
  simp only [OrderedMap.mem_values, collected_multicasts]
  constructor
  · intro h p o ho
    obtain ⟨k, hk⟩ := exists_objectSummary ho
    rw [(objectSummary_spec hl hk).agrees p o ho rfl]
    exact (checkMulticast_eq_ok hl hk).mp (h k ⟨_, hk⟩)
  · rintro h k ⟨id, hk⟩
    obtain ⟨p, hp⟩ := (objectSummary_spec hl hk).defined
    exact (checkMulticast_eq_ok hl hk).mpr (h p _ hp)

/-- The check accepts exactly the acceptable groups and then returns their summaries. -/
theorem validate_eq_ok {m : Manifest} {l : List AllocationSummary} :
    validate m = .ok l ↔ Acceptable m ∧ l = summaries m := by
  simp only [validate, bind_eq_ok, ensure_eq_ok, collect_eq_ok, forM_eq_ok, pure, Except.pure,
    Except.ok.injEq]
  constructor
  · rintro ⟨-, hne, c, ⟨⟨hwell, hcons⟩, rfl⟩, -, hanchors, -, hrecords, -, hmulticasts, rfl⟩
    refine ⟨⟨by simpa using hne, hwell, hcons, (forall_summaries_anchored hcons).mp hanchors,
      fun x hx => (checkRecord_eq_ok hcons hx).mp (hrecords x hx),
      (forall_multicasts_complete hcons).mp hmulticasts⟩, rfl⟩
  · rintro ⟨h, rfl⟩
    exact ⟨⟨⟩, by simpa using h.nonempty, _, ⟨⟨h.wellFormed, h.consistent⟩, rfl⟩,
      ⟨⟩, (forall_summaries_anchored h.consistent).mpr h.anchored,
      ⟨⟩, fun x hx => (checkRecord_eq_ok h.consistent hx).mpr (h.referenced x hx),
      ⟨⟩, (forall_multicasts_complete h.consistent).mpr h.complete, rfl⟩

/-- Whatever the order of the records, a group is accepted for what they say together. -/
theorem validate_accepts_coherent (m : Manifest) : (∃ l, validate m = .ok l) ↔ Acceptable m := by
  constructor
  · rintro ⟨l, h⟩
    exact (validate_eq_ok.mp h).1
  · exact fun h => ⟨summaries m, validate_eq_ok.mpr ⟨h, rfl⟩⟩

end Coordinator
