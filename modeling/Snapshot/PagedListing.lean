import Mathlib.Data.Finset.Sort

/-! A set of keys listed in order, page by page, each page from the key that the last one ended with. The size of a
page is up to whoever lists; the set may change between two pages. -/
namespace PagedListing

variable {κ : Type*} [LinearOrder κ]

/-- The keys after an exclusive start key. -/
def after (token : Option κ) (keys : Finset κ) : Finset κ := keys.filter fun k => ∀ t ∈ token, t < k

structure Page (κ : Type*) where
  items : List κ
  truncated : Bool
  next : Option κ

def page (size : ℕ) (token : Option κ) (keys : Finset κ) : Page κ :=
  let rest := (after token keys).sort
  { items := rest.take size, truncated := decide (size < rest.length), next := (rest.take size).getLast? }

variable {size : ℕ} {token : Option κ} {keys : Finset κ} {k : κ}

theorem mem_after : k ∈ after token keys ↔ k ∈ keys ∧ ∀ t ∈ token, t < k := Finset.mem_filter

theorem mem_after_of_mem_items (h : k ∈ (page size token keys).items) : k ∈ after token keys :=
  (Finset.mem_sort _).1 (List.mem_of_mem_take h)

/-- The last page holds all that is left. -/
theorem mem_items_of_not_truncated (h : (page size token keys).truncated = false) (hk : k ∈ after token keys) :
    k ∈ (page size token keys).items := by
  simp only [page, decide_eq_false_iff_not, not_lt] at h ⊢
  rw [List.take_of_length_le h]
  exact (Finset.mem_sort _).2 hk

/-- Every other page ends with the start key of the next one, and leaves out nothing up to it. -/
theorem exists_next_of_truncated (hsize : 0 < size) (h : (page size token keys).truncated = true) :
    ∃ t, (page size token keys).next = some t ∧ t ∈ after token keys
      ∧ ∀ k ∈ after token keys, k ≤ t → k ∈ (page size token keys).items := by
  simp only [page, decide_eq_true_eq] at h ⊢
  generalize hrest : (after token keys).sort = rest at h
  have hne : rest.take size ≠ [] := by
    rw [← List.length_pos_iff, List.length_take]
    omega
  refine ⟨_, List.getLast?_eq_some_getLast hne, ?_, ?_⟩
  · rw [← Finset.mem_sort (· ≤ ·), hrest]
    exact List.mem_of_mem_take (List.getLast_mem hne)
  · intro k hk hle
    rw [← Finset.mem_sort (· ≤ ·), hrest, ← List.take_append_drop size rest] at hk
    rcases List.mem_append.1 hk with hk | hk
    · exact hk
    · have hsorted : rest.Pairwise (· < ·) := by
        rw [← hrest]
        exact (Finset.sortedLT_sort _).pairwise
      rw [← List.take_append_drop size rest, List.pairwise_append] at hsorted
      exact absurd hle (not_le.2 (hsorted.2.2 _ (List.getLast_mem hne) k hk))

/-- Fewer keys are left after a later start key. -/
theorem card_after_lt {keys' : Finset κ} {t : κ} (ht : t ∈ after token keys) (hsub : keys' ⊆ keys) :
    (after (some t) keys').card < (after token keys).card := by
  refine Finset.card_lt_card (Finset.ssubset_iff_of_subset ?_ |>.2 ⟨t, ht, ?_⟩)
  · intro k hk
    obtain ⟨hk, hlt⟩ := mem_after.1 hk
    refine mem_after.2 ⟨hsub hk, fun s hs => ?_⟩
    exact lt_trans ((mem_after.1 ht).2 s hs) (hlt t rfl)
  · intro h
    exact lt_irrefl t ((mem_after.1 h).2 t rfl)

/-! ### Batches -/

/-- A list in pieces of a given size. The first argument bounds the number of pieces. -/
def batches {α : Type*} (size : ℕ) : ℕ → List α → List (List α)
  | 0, _ => []
  | fuel + 1, l => if l = [] then [] else l.take size :: batches size fuel (l.drop size)

theorem flatten_batches {α : Type*} {size : ℕ} (hsize : 0 < size) (fuel : ℕ) (l : List α) (h : l.length ≤ fuel) :
    (batches size fuel l).flatten = l := by
  induction fuel generalizing l with
  | zero => rw [List.length_eq_zero_iff.1 (Nat.le_zero.1 h), batches, List.flatten_nil]
  | succ fuel ih =>
    rw [batches]
    by_cases hl : l = []
    · rw [if_pos hl, hl, List.flatten_nil]
    · have hpos := List.length_pos_iff.2 hl
      rw [if_neg hl, List.flatten_cons, ih _ (by rw [List.length_drop]; omega), List.take_append_drop]

end PagedListing
