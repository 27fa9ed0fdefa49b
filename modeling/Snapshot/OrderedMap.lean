import Mathlib.Data.Finset.Basic
import Mathlib.Data.List.Induction

/-! Additions to the ordered maps of the standard library: the values in key order, and the
number of entries that satisfy a condition. -/
namespace OrderedMap

open Std

variable {α β γ : Type} [Ord α] [TransOrd α] [LawfulEqOrd α]

def values (m : ExtTreeMap α β) : List β := m.toList.map (·.2)

theorem mem_values {m : ExtTreeMap α β} {v : β} : v ∈ values m ↔ ∃ k : α, m[k]? = some v := by
  simp [values, ExtTreeMap.mem_toList_iff_getElem?_eq_some]

theorem getElem?_insert_eq_some {m : ExtTreeMap α β} {i j : α} {a b : β} :
    (m.insert i a)[j]? = some b ↔ (i = j ∧ a = b) ∨ (i ≠ j ∧ m[j]? = some b) := by
  by_cases hij : i = j
  · subst hij
    simp
  · simp [ExtTreeMap.getElem?_insert, hij]

theorem getElem?_erase_eq_some {m : ExtTreeMap α β} {i j : α} {b : β} :
    (m.erase i)[j]? = some b ↔ i ≠ j ∧ m[j]? = some b := by
  by_cases hij : i = j
  · subst hij
    simp
  · simp [ExtTreeMap.getElem?_erase, hij]

theorem mem_of_getElem?_ofList {l : List (α × β)} {k : α} {v : β}
    (h : (ExtTreeMap.ofList l compare)[k]? = some v) : (k, v) ∈ l := by
  induction l using List.reverseRecOn with
  | nil => simp at h
  | append_singleton l x ih =>
    rw [ExtTreeMap.ofList_eq_foldl, List.foldl_append, ← ExtTreeMap.ofList_eq_foldl, List.foldl_cons,
      List.foldl_nil] at h
    rcases getElem?_insert_eq_some.1 h with ⟨rfl, rfl⟩ | ⟨-, h⟩
    · simp
    · exact List.mem_append_left _ (ih h)

theorem ofList_toList (m : ExtTreeMap α β) : ExtTreeMap.ofList m.toList compare = m := by
  refine ExtTreeMap.ext_getElem? fun k => ?_
  cases hk : m[k]? with
  | some v =>
    exact ExtTreeMap.getElem?_ofList_of_mem ReflCmp.compare_self ExtTreeMap.distinct_keys_toList
      (ExtTreeMap.mem_toList_iff_getElem?_eq_some.2 hk)
  | none =>
    refine Option.eq_none_iff_forall_ne_some.2 fun v hv => ?_
    rw [ExtTreeMap.mem_toList_iff_getElem?_eq_some.1 (mem_of_getElem?_ofList hv)] at hk
    cases hk

end OrderedMap
