import Snapshot.LexicalPath

/-! Searching byte strings: the first place of a pattern, and what stands before and after it. A pattern
whose first byte does not occur in what stands before it is found where it was put. -/
namespace ByteText

open LexicalPath (Bytes)

/-- The bytes of an ASCII literal. -/
def literal (s : String) : Bytes := s.toList.map fun c => UInt8.ofNat c.toNat

/-- The first place at which a pattern starts. -/
def find (pattern : Bytes) : Bytes → Option ℕ
  | [] => if pattern = [] then some 0 else none
  | b :: s => if pattern <+: b :: s then some 0 else (find pattern s).map (· + 1)

/-- What stands before and after the first occurrence of a pattern. -/
def cut (pattern s : Bytes) : Option (Bytes × Bytes) :=
  (find pattern s).map fun i => (s.take i, s.drop (i + pattern.length))

variable {pattern a b s : Bytes}

theorem eq_of_find {i : ℕ} (h : find pattern s = some i) :
    s = s.take i ++ pattern ++ s.drop (i + pattern.length) := by
  induction s generalizing i with
  | nil =>
    rw [find] at h
    split at h
    · rename_i hnil
      cases h
      simp [hnil]
    · cases h
  | cons c s ih =>
    rw [find] at h
    by_cases hstart : pattern <+: c :: s
    · rw [if_pos hstart] at h
      cases h
      obtain ⟨t, ht⟩ := hstart
      simp [← ht]
    · rw [if_neg hstart, Option.map_eq_some_iff] at h
      obtain ⟨j, hj, rfl⟩ := h
      rw [show j + 1 + pattern.length = j + pattern.length + 1 by omega, List.take_succ_cons,
        List.drop_succ_cons, List.cons_append, List.cons_append, ← ih hj]

/-- A pattern starts no earlier than its first byte. -/
theorem find_append {c : UInt8} (hc : c ∉ a) : find (c :: pattern) (a ++ (c :: pattern ++ b)) = some a.length := by
  induction a with
  | nil =>
    rw [List.nil_append, List.cons_append, find, if_pos]
    · rfl
    · exact ⟨b, rfl⟩
  | cons d a ih =>
    rw [List.cons_append, find, if_neg, ih (fun h => hc (List.mem_cons_of_mem _ h))]
    · rfl
    · intro hstart
      obtain ⟨rfl, -⟩ := List.cons_prefix_cons.1 hstart
      exact hc List.mem_cons_self

theorem eq_of_cut {p : Bytes × Bytes} (h : cut pattern s = some p) : s = p.1 ++ pattern ++ p.2 := by
  obtain ⟨i, hi, rfl⟩ := Option.map_eq_some_iff.1 h
  exact eq_of_find hi

theorem cut_append {c : UInt8} (hc : c ∉ a) : cut (c :: pattern) (a ++ (c :: pattern ++ b)) = some (a, b) := by
  rw [cut, find_append hc, Option.map_some]
  simp [List.drop_append]

end ByteText
