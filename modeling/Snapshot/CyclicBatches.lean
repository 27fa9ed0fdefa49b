import Mathlib.Algebra.Order.Ring.Nat
import Mathlib.Data.List.Rotate
import Mathlib.Order.Defs.LinearOrder

/-! Rounds over a list in the order of a key, a batch in each round. A round begins behind the key that the
last one ended with and goes on at the front when it reaches the end. So the rounds take up one cyclic
sequence, and as many of them as it takes batches to fill the list meet every element. -/
namespace CyclicBatches

variable {α κ : Type} [LinearOrder κ] (key : α → κ)

/-- How many elements come up to the cursor. -/
def start (l : List α) (cursor : κ) : ℕ := (l.takeWhile fun a => decide (key a ≤ cursor)).length

/-- The batch of a round. -/
def batch (l : List α) (size : ℕ) (cursor : κ) : List α := (l.rotate (start key l cursor)).take size

/-- The cursor that a batch leaves. -/
def next (cursor : κ) (batch : List α) : κ := (batch.getLast?.map key).getD cursor

variable {key} {l : List α} {cursor : κ} {size i : ℕ} {a : α}

theorem length_batch : (batch key l size cursor).length = min l.length size := by
  rw [batch, List.length_take, List.length_rotate, Nat.min_comm]

theorem nodup_batch (h : l.Nodup) : (batch key l size cursor).Nodup :=
  (List.nodup_rotate.2 h).sublist (List.take_sublist _ _)

theorem mem_of_mem_batch (h : a ∈ batch key l size cursor) : a ∈ l :=
  List.mem_rotate.1 (List.mem_of_mem_take h)

theorem getElem?_batch (hi : i < min l.length size) :
    (batch key l size cursor)[i]? = l[(start key l cursor + i) % l.length]? := by
  rw [batch, List.getElem?_take_of_lt (by omega), List.getElem?_rotate (by omega), Nat.add_comm]

/-- An element ends the part of the list up to its own key. -/
theorem start_key (hsorted : l.Pairwise fun a b => key a < key b) (ha : l[i]? = some a) :
    start key l (key a) = i + 1 := by
  obtain ⟨hi, rfl⟩ := List.getElem?_eq_some_iff.1 ha
  have hpairs := List.pairwise_iff_getElem.1 hsorted
  have htake : l.takeWhile (fun b => decide (key b ≤ key l[i])) = l.take (i + 1) := by
    have hsplit := List.take_append_drop (i + 1) l
    have hall : ∀ b ∈ l.take (i + 1), decide (key b ≤ key l[i]) = true := by
      intro b hb
      obtain ⟨j, hj, rfl⟩ := List.getElem_of_mem hb
      rw [List.length_take] at hj
      rw [List.getElem_take, decide_eq_true_eq]
      rcases Nat.lt_or_ge j i with hlt | hge
      · exact (hpairs j i (by omega) hi hlt).le
      · have : j = i := by omega
        subst this
        exact le_rfl
    have hnone : (l.drop (i + 1)).takeWhile (fun b => decide (key b ≤ key l[i])) = [] := by
      cases hdrop : l.drop (i + 1) with
      | nil => rfl
      | cons b rest =>
        have hlt : i + 1 < l.length := by
          have := congrArg List.length hdrop
          rw [List.length_drop, List.length_cons] at this
          omega
        have hb : b = l[i + 1] := by
          rw [List.drop_eq_getElem_cons hlt] at hdrop
          cases hdrop
          rfl
        rw [List.takeWhile_cons_of_neg]
        rw [decide_eq_true_eq, not_le, hb]
        exact hpairs i (i + 1) hi hlt (by omega)
    calc l.takeWhile (fun b => decide (key b ≤ key l[i]))
        = (l.take (i + 1) ++ l.drop (i + 1)).takeWhile (fun b => decide (key b ≤ key l[i])) := by
          rw [hsplit]
      _ = l.take (i + 1) := by rw [List.takeWhile_append_of_pos hall, hnone, List.append_nil]
  rw [start, htake, List.length_take]
  omega

/-- A round begins where the last one has ended. -/
theorem start_next (hsorted : l.Pairwise fun a b => key a < key b) (hsize : 0 < size) (hl : 0 < l.length) :
    start key l (next key cursor (batch key l size cursor)) % l.length =
      (start key l cursor + min l.length size) % l.length := by
  have hpos : 0 < min l.length size := by omega
  have hindex : (start key l cursor + (min l.length size - 1)) % l.length < l.length := Nat.mod_lt _ hl
  have hlast : (batch key l size cursor).getLast? =
      some l[(start key l cursor + (min l.length size - 1)) % l.length] := by
    rw [List.getLast?_eq_getElem?, length_batch, getElem?_batch (by omega), List.getElem?_eq_getElem hindex]
  rw [next, hlast, Option.map_some, Option.getD_some,
    start_key hsorted (List.getElem?_eq_getElem hindex), Nat.mod_add_mod]
  congr 1
  omega

omit [LinearOrder κ] in
theorem next_cons : next key cursor (a :: l) = next key (key a) l := by
  rw [next, next, List.getLast?_cons]
  cases l.getLast? <;> rfl

/-- The cursor after a number of rounds. -/
def cursorAfter (key : α → κ) (l : List α) (size : ℕ) (cursor : κ) : ℕ → κ
  | 0 => cursor
  | n + 1 => cursorAfter key l size (next key cursor (batch key l size cursor)) n

theorem start_cursorAfter (hsorted : l.Pairwise fun a b => key a < key b) (hsize : 0 < size)
    (hl : 0 < l.length) (n : ℕ) : start key l (cursorAfter key l size cursor n) % l.length =
      (start key l cursor + n * min l.length size) % l.length := by
  induction n generalizing cursor with
  | zero => rw [cursorAfter, Nat.zero_mul, Nat.add_zero]
  | succ n ih =>
    rw [cursorAfter, ih, Nat.add_mod, start_next hsorted hsize hl, ← Nat.add_mod, Nat.succ_mul,
      Nat.add_assoc, Nat.add_comm (min l.length size)]

/-- Rounds enough to fill the list meet every element. -/
theorem exists_mem_batch (hsorted : l.Pairwise fun a b => key a < key b) (hsize : 0 < size) {rounds : ℕ}
    (hrounds : l.length ≤ rounds * size) (ha : a ∈ l) :
    ∃ n < rounds, a ∈ batch key l size (cursorAfter key l size cursor n) := by
  obtain ⟨k, hk, rfl⟩ := List.getElem_of_mem ha
  have hl : 0 < l.length := by omega
  let m := min l.length size
  have hm : 0 < m := by omega
  -- the element is `d` places behind the first start
  let s := start key l cursor % l.length
  have hs : s < l.length := Nat.mod_lt _ hl
  let d := (k + (l.length - s)) % l.length
  have hd : d < l.length := Nat.mod_lt _ hl
  have hplace : (start key l cursor + d) % l.length = k := by
    have hdiv := Nat.div_add_mod (start key l cursor) l.length
    have hsum : start key l cursor + (k + (l.length - s)) =
        k + l.length + l.length * (start key l cursor / l.length) := by omega
    rw [Nat.add_mod_mod, hsum, Nat.add_mul_mod_self_left, Nat.add_mod_right, Nat.mod_eq_of_lt hk]
  have hn : d / m < rounds := by
    have hone : 0 < rounds := Nat.pos_of_mul_pos_right (by omega : 0 < rounds * size)
    rw [Nat.div_lt_iff_lt_mul hm]
    rcases Nat.le_total l.length size with hle | hle
    · have hml : m = l.length := Nat.min_eq_left hle
      rw [hml]
      exact Nat.lt_of_lt_of_le hd (Nat.le_mul_of_pos_left _ hone)
    · have hms : m = size := Nat.min_eq_right hle
      rw [hms]
      omega
  refine ⟨d / m, hn, ?_⟩
  have hi : d % m < min l.length size := Nat.mod_lt _ hm
  refine List.mem_of_getElem? (i := d % m) ?_
  rw [getElem?_batch hi, ← List.getElem?_eq_getElem hk]
  congr 1
  rw [Nat.add_mod, start_cursorAfter hsorted hsize hl, ← Nat.add_mod, Nat.add_assoc]
  have hdm : d / m * m + d % m = d := Nat.div_add_mod' d m
  rw [show d / m * min l.length size + d % m = d from hdm]
  exact hplace

end CyclicBatches
