import Snapshot.GpuDiscovery
import Mathlib.Data.List.NodupEquivFin

/-! The device map of a restore pairs the GPUs of two containers by their places in the two listings. It is a text between
two programs: what is read from it is what was paired. -/
namespace GpuDiscovery

open LexicalPath (Bytes)

/-! ### The text of a device map -/

/-- A UUID that a device map can carry. -/
def Plain (u : Bytes) : Prop := u ≠ [] ∧ comma ∉ u ∧ equals ∉ u

def pairText (p : Bytes × Bytes) : Bytes := p.1 ++ [equals] ++ p.2

theorem parsePair_pairText {p : Bytes × Bytes} (hsource : Plain p.1) (htarget : Plain p.2) :
    parsePair (pairText p) = .ok ⟨p.1, p.2⟩ := by
  have hcut : ByteText.cut [equals] (pairText p) = some (p.1, p.2) := by
    rw [pairText, List.append_assoc]
    exact ByteText.cut_append hsource.2.2
  simp only [parsePair, hcut]
  rw [if_neg]
  rintro (h | h | h)
  · exact hsource.1 h
  · exact htarget.1 h
  · exact htarget.2.2 h

theorem comma_not_mem_pairText {p : Bytes × Bytes} (hsource : Plain p.1) (htarget : Plain p.2) : comma ∉ pairText p := by
  simp only [pairText, List.mem_append, List.mem_singleton, not_or]
  exact ⟨⟨hsource.2.1, by decide⟩, htarget.2.1⟩

theorem intercalate_pairText_ne_nil {pairs : List (Bytes × Bytes)} (hne : pairs ≠ []) :
    [comma].intercalate (pairs.map pairText) ≠ [] := by
  obtain ⟨p, rest, rfl⟩ := List.exists_cons_of_ne_nil hne
  intro h
  have hmem : equals ∈ [comma].intercalate ((p :: rest).map pairText) := by
    rw [List.map_cons]
    cases rest with
    | nil => simp [pairText]
    | cons q rest =>
      rw [List.intercalate_cons_of_ne_nil (by simp)]
      simp [pairText]
  rw [h] at hmem
  cases hmem

theorem parseDeviceMap_text {pairs : List (Bytes × Bytes)} (hne : pairs ≠ [])
    (hplain : ∀ p ∈ pairs, Plain p.1 ∧ Plain p.2) :
    parseDeviceMap ([comma].intercalate (pairs.map pairText)) = .ok (pairs.map fun p => ⟨p.1, p.2⟩) := by
  rw [parseDeviceMap, if_neg (intercalate_pairText_ne_nil hne), List.splitOn_intercalate]
  · rw [List.mapM_map]
    exact CheckedFold.mapM_eq_ok fun p hp => parsePair_pairText (hplain p hp).1 (hplain p hp).2
  · intro t ht
    obtain ⟨p, hp, rfl⟩ := List.mem_map.1 ht
    exact comma_not_mem_pairText (hplain p hp).1 (hplain p hp).2
  · simpa using hne

/-! ### Pairing by position -/

section Pairing

variable {S T : List Bytes}

theorem buildDeviceMap_fails_iff :
    (∃ e, buildDeviceMap S T = .error e) ↔ S.length ≠ T.length ∨ S.length = 0 ∨ T.length = 0 := by
  rw [buildDeviceMap]
  by_cases hlen : S.length = T.length
  · rw [if_neg (by simpa using hlen)]
    by_cases hzero : S.length = 0
    · rw [if_pos hzero]
      simp [hzero]
    · rw [if_neg hzero]
      have hok : ∀ e, (if ∀ src ∈ S, src ∈ T then (.ok [] : Except DeviceMapError Bytes)
          else .ok ([comma].intercalate ((S.zip T).map fun p => p.1 ++ [equals] ++ p.2))) ≠ .error e := by
        intro e
        split <;> simp
      constructor
      · rintro ⟨e, he⟩
        exact absurd he (hok e)
      · rintro (h | h | h)
        · exact absurd hlen h
        · exact absurd h hzero
        · exact absurd (hlen.trans h) hzero
  · rw [if_pos hlen]
    simp [hlen]

theorem buildDeviceMap_eq_ok {text : Bytes} : buildDeviceMap S T = .ok text ↔ S.length = T.length ∧ S ≠ []
    ∧ text = if ∀ u ∈ S, u ∈ T then [] else [comma].intercalate ((S.zip T).map pairText) := by
  simp only [buildDeviceMap, CheckedFold.guard_eq_ok, ne_eq, not_not, List.length_eq_zero_iff]
  by_cases hsame : ∀ u ∈ S, u ∈ T
  · rw [if_pos hsame, if_pos hsame, Except.ok.injEq, eq_comm (a := text)]
  · rw [if_neg hsame, if_neg hsame, Except.ok.injEq, eq_comm (a := text)]
    rfl

theorem zip_ne_nil (hlen : S.length = T.length) (hne : S ≠ []) : S.zip T ≠ [] := by
  intro h
  have := congrArg List.length h
  rw [List.length_zip, List.length_nil] at this
  have := List.length_pos_iff.2 hne
  omega

variable (hS : S.Nodup) (hT : T.Nodup)
include hS hT

/-- No GPU migrates exactly if the sets are the same, in whatever order. -/
theorem buildDeviceMap_eq_nil_iff : buildDeviceMap S T = .ok [] ↔ S ≠ [] ∧ ∀ u, u ∈ S ↔ u ∈ T := by
  rw [buildDeviceMap_eq_ok]
  constructor
  · rintro ⟨hlen, hne, htext⟩
    have hsub : ∀ u ∈ S, u ∈ T := by
      by_contra hsame
      rw [if_neg hsame] at htext
      exact intercalate_pairText_ne_nil (zip_ne_nil hlen hne) htext.symm
    have hperm := (List.subperm_of_subset hS hsub).perm_of_length_le (Nat.le_of_eq hlen.symm)
    exact ⟨hne, fun u => hperm.mem_iff⟩
  · rintro ⟨hne, hsame⟩
    have hperm := (List.perm_ext_iff_of_nodup hS hT).2 hsame
    exact ⟨hperm.length_eq, hne, by rw [if_pos fun u hu => (hsame u).1 hu]⟩

/-- GPUs of the two lists correspond by position. -/
theorem exists_position_equiv (hlen : S.length = T.length) :
    ∃ e : {u // u ∈ S} ≃ {u // u ∈ T}, (∀ p, p ∈ S.zip T ↔ ∃ u, p = (u.1, (e u).1))
      ∧ ∀ u, T.idxOf (e u).1 = S.idxOf u.1 := by
  refine ⟨(hS.getEquiv S).symm.trans ((finCongr hlen).trans (hT.getEquiv T)), ?_, ?_⟩
  · intro p
    rw [List.mem_iff_getElem]
    constructor
    · rintro ⟨i, hi, rfl⟩
      rw [List.length_zip] at hi
      have hiS : i < S.length := by omega
      refine ⟨hS.getEquiv S ⟨i, hiS⟩, ?_⟩
      simp [List.getElem_zip]
    · rintro ⟨u, rfl⟩
      obtain ⟨i, rfl⟩ := (hS.getEquiv S).surjective u
      refine ⟨i.1, by rw [List.length_zip]; omega, ?_⟩
      simp [List.getElem_zip]
  · intro u
    obtain ⟨i, rfl⟩ := (hS.getEquiv S).surjective u
    simp only [Equiv.trans_apply, Equiv.symm_apply_apply, List.Nodup.getEquiv_apply_coe, finCongr_apply]
    rw [List.get_eq_getElem, List.get_eq_getElem, hS.idxOf_getElem, hT.idxOf_getElem]
    rfl

end Pairing

/-! ### Two containers -/

theorem gpuUUIDs_nodup {c : Container} {listed r : GPUInfo} (hlisted : WellListed c listed) (h : discoverGPUs c = .ok r) :
    (gpuUUIDs r).Nodup ∧ ∀ u ∈ gpuUUIDs r, Plain u := by
  have hsub : r.devices.Sublist listed.devices := by
    rw [discoverGPUs_spec hlisted h]
    cases allocation c with
    | none => exact List.Sublist.refl _
    | some uuids => exact List.filter_sublist
  constructor
  · exact (List.Nodup.sublist (hsub.map _) hlisted.nodup).filter _
  · intro u hu
    obtain ⟨d, hd, rfl⟩ := List.mem_map.1 (List.mem_filter.1 hu).1
    exact hlisted.plain d (hsub.subset hd)

/-- GPU positions survive a restore. Discovery returns the allocated part of the listing whatever the order of the
allocation; and the map between what it returns on two nodes fails only on a different or empty count, is empty exactly
on the same set of GPUs, and is otherwise read back as the pairing by position. -/
theorem gpu_positions_survive :
    (∀ c listed r, WellListed c listed → discoverGPUs c = .ok r →
      (∀ uuids, allocation c = some uuids → r = listed.restrict uuids) ∧ (allocation c = none → r = listed))
    ∧ (∀ c c' r, Reordered c c' → (discoverGPUs c = .ok r ↔ discoverGPUs c' = .ok r))
    ∧ (∀ source target sourceListed targetListed sourceGPUs targetGPUs, WellListed source sourceListed →
      WellListed target targetListed → discoverGPUs source = .ok sourceGPUs → discoverGPUs target = .ok targetGPUs →
      ∀ S T, S = gpuUUIDs sourceGPUs → T = gpuUUIDs targetGPUs →
        ((∃ e, buildDeviceMap S T = .error e) ↔ S.length ≠ T.length ∨ S.length = 0 ∨ T.length = 0)
        ∧ (buildDeviceMap S T = .ok [] ↔ S ≠ [] ∧ ∀ u, u ∈ S ↔ u ∈ T)
        ∧ ∀ text, buildDeviceMap S T = .ok text → text ≠ [] →
          parseDeviceMap text = .ok ((S.zip T).map fun p => ⟨p.1, p.2⟩)
          ∧ ∃ e : {u // u ∈ S} ≃ {u // u ∈ T}, (∀ p, p ∈ S.zip T ↔ ∃ u, p = (u.1, (e u).1))
            ∧ ∀ u, T.idxOf (e u).1 = S.idxOf u.1) := by
  refine ⟨?_, ?_, ?_⟩
  · intro c listed r hlisted h
    have hspec := discoverGPUs_spec hlisted h
    constructor
    · intro uuids huuids
      rwa [huuids] at hspec
    · intro hnone
      rwa [hnone] at hspec
  · intro c c' r hreordered
    exact ⟨discoverGPUs_reordered hreordered, discoverGPUs_reordered (reordered_symm hreordered)⟩
  · rintro source target sourceListed targetListed sourceGPUs targetGPUs hsource htarget hs ht S T rfl rfl
    obtain ⟨hS, hplainS⟩ := gpuUUIDs_nodup hsource hs
    obtain ⟨hT, hplainT⟩ := gpuUUIDs_nodup htarget ht
    refine ⟨buildDeviceMap_fails_iff, buildDeviceMap_eq_nil_iff hS hT, ?_⟩
    intro text htext hne
    obtain ⟨hlen, hnonempty, rfl⟩ := buildDeviceMap_eq_ok.1 htext
    refine ⟨?_, exists_position_equiv hS hT hlen⟩
    split at hne
    · exact absurd rfl hne
    · rename_i hsame
      rw [if_neg hsame]
      refine parseDeviceMap_text (zip_ne_nil hlen hnonempty) fun p hp => ?_
      exact ⟨hplainS _ (List.of_mem_zip hp).1, hplainT _ (List.of_mem_zip hp).2⟩

end GpuDiscovery
