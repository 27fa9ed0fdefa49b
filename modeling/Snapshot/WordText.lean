import Mathlib.Algebra.Ring.Nat
import Mathlib.Data.Nat.Basic
import Snapshot.ByteText

/-! Words of a text, read one after the other with the blanks before them left out, and numbers written as
words. -/
namespace WordText

open LexicalPath (Bytes)

/-! ## Words -/

/-- `isspace` in the "C" locale. -/
def isSpace (c : UInt8) : Bool := c = 32 || (9 ≤ c && c ≤ 13)

/-- The next word and what stands behind it. -/
def readWord (text : Bytes) : Option (Bytes × Bytes) :=
  let text := text.dropWhile isSpace
  if text = [] then none else some (text.takeWhile (!isSpace ·), text.dropWhile (!isSpace ·))

/-- A text that is one word. -/
structure Word (word : Bytes) : Prop where
  nonempty : word ≠ []
  unbroken : ∀ c ∈ word, isSpace c = false

variable {word rest : Bytes} {c : UInt8}

/-- A closed text is decided to be a word byte by byte. -/
theorem word_of_all (hword : word.isEmpty = false ∧ (word.all fun c => !isSpace c) = true) : Word word := by
  refine ⟨List.isEmpty_eq_false_iff.1 hword.1, fun c hc => ?_⟩
  have hbyte := List.all_eq_true.1 hword.2 c hc
  rwa [Bool.not_eq_true'] at hbyte

theorem readWord_append (h : Word word) (hc : isSpace c = true) :
    readWord (word ++ c :: rest) = some (word, c :: rest) := by
  obtain ⟨b, tail, rfl⟩ := List.exists_cons_of_ne_nil h.nonempty
  have hb := h.unbroken b List.mem_cons_self
  have hdrop : (b :: tail ++ c :: rest).dropWhile isSpace = b :: tail ++ c :: rest := by
    rw [List.cons_append, List.dropWhile_cons_of_neg (by simp [hb])]
  have hall : ∀ d ∈ b :: tail, (!isSpace d) = true := fun d hd => by rw [h.unbroken d hd]; rfl
  rw [readWord, hdrop, if_neg (by simp), List.takeWhile_append_of_pos hall, List.dropWhile_append_of_pos hall,
    List.takeWhile_cons_of_neg (by simp [hc]), List.dropWhile_cons_of_neg (by simp [hc]), List.append_nil]

theorem readWord_blank (hc : isSpace c = true) : readWord (c :: rest) = readWord rest := by
  rw [readWord, List.dropWhile_cons_of_pos hc, readWord]

/-! ## Numbers -/

/-- A number in decimal digits. -/
def decimal (n : ℕ) : Bytes := (Nat.toDigits 10 n).map fun c => UInt8.ofNat c.toNat

def digit (c : UInt8) : Option ℕ := if 48 ≤ c ∧ c ≤ 57 then some (c - 48).toNat else none

def parseDigits : Bytes → ℕ → Option ℕ
  | [], n => some n
  | c :: text, n => (digit c).bind fun d => parseDigits text (10 * n + d)

/-- A number in decimal digits, up to the largest one of its type. -/
def parseUnsigned (largest : ℕ) (text : Bytes) : Option ℕ :=
  if text = [] then none else (parseDigits text 0).filter (· ≤ largest)

theorem decimal_eq (n : ℕ) : decimal n =
    (if n < 10 then [] else decimal (n / 10)) ++ [UInt8.ofNat (48 + n % 10)] := by
  have hchar : ∀ d < 10, UInt8.ofNat (Nat.digitChar d).toNat = UInt8.ofNat (48 + d) := by decide
  rw [decimal, Nat.toDigits_eq_if (by omega)]
  split
  · rename_i hlt
    simp [hchar n hlt, Nat.mod_eq_of_lt hlt]
  · simp [decimal, hchar (n % 10) (Nat.mod_lt _ (by omega))]

theorem digit_last (n : ℕ) : digit (UInt8.ofNat (48 + n % 10)) = some (n % 10) := by
  have hall : ∀ d < 10, digit (UInt8.ofNat (48 + d)) = some d := by decide
  exact hall _ (Nat.mod_lt _ (by omega))

theorem parseDigits_append (a b : Bytes) (n : ℕ) :
    parseDigits (a ++ b) n = (parseDigits a n).bind (parseDigits b) := by
  induction a generalizing n with
  | nil => rfl
  | cons c a ih =>
    rw [List.cons_append, parseDigits, parseDigits]
    cases digit c with
    | none => rfl
    | some d => exact ih _

theorem parseDigits_decimal (n : ℕ) : parseDigits (decimal n) 0 = some n := by
  induction n using Nat.strongRecOn with
  | ind n ih =>
    rw [decimal_eq, parseDigits_append]
    split
    · rename_i hlt
      simp only [parseDigits, digit_last, Option.bind_some]
      congr 1
      omega
    · rw [ih (n / 10) (by omega)]
      simp only [parseDigits, digit_last, Option.bind_some]
      congr 1
      omega

theorem word_decimal (n : ℕ) : Word (decimal n) := by
  have hunbroken : ∀ d < 10, isSpace (UInt8.ofNat (48 + d)) = false := by decide
  constructor
  · rw [decimal_eq]
    simp
  · induction n using Nat.strongRecOn with
    | ind n ih =>
      rw [decimal_eq]
      intro c hc
      rcases List.mem_append.1 hc with hc | hc
      · split at hc
        · cases hc
        · exact ih (n / 10) (by omega) c hc
      · rw [List.mem_singleton.1 hc]
        exact hunbroken _ (Nat.mod_lt _ (by omega))

theorem parseUnsigned_decimal {n largest : ℕ} (h : n ≤ largest) : parseUnsigned largest (decimal n) = some n := by
  rw [parseUnsigned, if_neg (word_decimal n).nonempty, parseDigits_decimal]
  simp [h]

theorem length_decimal_le {n k : ℕ} (hk : 0 < k) (h : n < 10 ^ k) : (decimal n).length ≤ k := by
  induction k generalizing n with
  | zero => omega
  | succ k ih =>
    rw [decimal_eq, List.length_append, List.length_singleton]
    split
    · simp
    · rename_i hge
      rw [Nat.pow_succ] at h
      have hpos : 0 < k := by
        rcases Nat.eq_zero_or_pos k with rfl | hpos
        · omega
        · exact hpos
      have := ih hpos (show n / 10 < 10 ^ k by omega)
      omega

end WordText
