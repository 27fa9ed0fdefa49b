import Snapshot.LexicalPath

/-! Byte strings as text. An encoder that writes text only replaces every byte that does not belong to
an encoded character; ASCII survives, and so does the place of every ASCII byte among the others. -/
namespace Utf8

open LexicalPath (Bytes)

def ascii (b : UInt8) : Bool := b < 0x80

def continues (b : UInt8) : Bool := 0x80 ≤ b && b ≤ 0xBF

/-- A second byte in a range, and then so many continuation bytes. -/
def follows (low high : UInt8) (more : ℕ) : Bytes → Bool
  | [] => false
  | b :: s => !ascii b && low ≤ b && b ≤ high && more ≤ s.length && (s.take more).all continues

/-- The number of bytes that complete the character started by a byte. -/
def continuation (b : UInt8) (s : Bytes) : Option ℕ :=
  if ascii b then some 0
  else if 0xC2 ≤ b && b ≤ 0xDF && follows 0x80 0xBF 0 s then some 1
  else if b = 0xE0 && follows 0xA0 0xBF 1 s then some 2
  else if b = 0xED && follows 0x80 0x9F 1 s then some 2
  else if 0xE1 ≤ b && b ≤ 0xEF && b ≠ 0xED && follows 0x80 0xBF 1 s then some 2
  else if b = 0xF0 && follows 0x90 0xBF 2 s then some 3
  else if 0xF1 ≤ b && b ≤ 0xF3 && follows 0x80 0xBF 2 s then some 3
  else if b = 0xF4 && follows 0x80 0x8F 2 s then some 3
  else none

/-- The replacement character. -/
def replacement : Bytes := [0xEF, 0xBF, 0xBD]

/-- The string after so many bytes of a character that has begun. -/
def coerceFrom : ℕ → Bytes → Bytes
  | _, [] => []
  | k + 1, b :: s => b :: coerceFrom k s
  | 0, b :: s =>
    match continuation b s with
    | some k => b :: coerceFrom k s
    | none => replacement ++ coerceFrom 0 s

def coerce (s : Bytes) : Bytes := coerceFrom 0 s

theorem continues_ascii {b : UInt8} (h : ascii b = true) : continues b = false := by
  simp only [ascii, decide_eq_true_eq] at h
  simp only [continues, Bool.and_eq_false_iff, decide_eq_false_iff_not]
  exact .inl (UInt8.not_le.2 h)

/-- Whether a character is complete does not depend on what follows an ASCII byte. -/
theorem follows_append {low high b : UInt8} (more : ℕ) (s t : Bytes) (hb : ascii b = true) :
    follows low high more (s ++ b :: t) = follows low high more s := by
  cases s with
  | nil => simp [follows, hb]
  | cons c s =>
    simp only [List.cons_append, follows]
    by_cases hle : more ≤ s.length
    · rw [List.take_append_of_le_length hle]
      have hle' : more ≤ (s ++ b :: t).length := by
        rw [List.length_append]
        omega
      simp only [hle, hle']
    · -- the ASCII byte stands where a continuation byte is needed
      have hmem : b ∈ (s ++ b :: t).take more := by
        rw [List.take_append, List.mem_append]
        obtain ⟨k, hk⟩ : ∃ k, more - s.length = k + 1 := ⟨more - s.length - 1, by omega⟩
        rw [hk]
        simp
      have hall : ((s ++ b :: t).take more).all continues = false := by
        rw [List.all_eq_false]
        exact ⟨b, hmem, by simp [continues_ascii hb]⟩
      simp [hall, hle]

theorem continuation_append {b : UInt8} (c : UInt8) (s t : Bytes) (hb : ascii b = true) :
    continuation c (s ++ b :: t) = continuation c s := by
  simp only [continuation, follows_append _ _ _ hb]

theorem length_of_follows {low high : UInt8} {more : ℕ} {s : Bytes} (h : follows low high more s = true) :
    more + 1 ≤ s.length := by
  cases s with
  | nil => cases h
  | cons b s =>
    simp only [follows, Bool.and_eq_true, decide_eq_true_eq] at h
    rw [List.length_cons]
    omega

theorem length_of_continuation {b : UInt8} {s : Bytes} {k : ℕ} (h : continuation b s = some k) :
    k ≤ s.length := by
  have done : ∀ {low high : UInt8} {more : ℕ} {c : Bool}, (c && follows low high more s) = true →
      some (more + 1) = some k → k ≤ s.length := by
    intro low high more c hc hk
    rw [Bool.and_eq_true] at hc
    cases hk
    exact length_of_follows hc.2
  simp only [continuation] at h
  split at h
  · cases h
    exact Nat.zero_le _
  · repeat' split at h
    all_goals first
      | exact done (by assumption) h
      | cases h

/-- The first byte tells how many bytes follow. -/
theorem lead_of_continuation {b : UInt8} {s : Bytes} {k : ℕ} (h : continuation b s = some k) :
    (k = 0 ∧ b.toNat < 0x80) ∨ (k = 1 ∧ 0xC2 ≤ b.toNat ∧ b.toNat ≤ 0xDF)
      ∨ (k = 2 ∧ 0xE0 ≤ b.toNat ∧ b.toNat ≤ 0xEF) ∨ (k = 3 ∧ 0xF0 ≤ b.toNat ∧ b.toNat ≤ 0xF4) := by
  simp only [continuation] at h
  split at h
  · rename_i hb
    cases h
    exact .inl ⟨rfl, by simpa [ascii, UInt8.lt_iff_toNat_lt] using hb⟩
  · repeat' split at h
    all_goals rename_i hb
    all_goals first
      | cases h; done
      | cases h
        simp only [Bool.and_eq_true, decide_eq_true_eq, UInt8.le_iff_toNat_le, ← UInt8.toNat_inj,
          UInt8.reduceToNat] at hb
        omega

theorem coerceFrom_append {b : UInt8} {s : Bytes} (t : Bytes) (hb : ascii b = true) {k : ℕ}
    (hk : k ≤ s.length) : coerceFrom k (s ++ b :: t) = coerceFrom k s ++ b :: coerceFrom 0 t := by
  induction s generalizing k with
  | nil =>
    cases k with
    | zero => simp [coerceFrom, continuation, hb]
    | succ k => simp at hk
  | cons c s ih =>
    cases k with
    | succ k =>
      simp only [List.cons_append, coerceFrom]
      rw [ih (by simpa using hk)]
    | zero =>
      simp only [List.cons_append, coerceFrom, continuation_append c s t hb]
      split
      · rename_i k hcont
        rw [ih (length_of_continuation hcont), List.cons_append]
      · rw [ih (Nat.zero_le _), List.append_assoc]

theorem coerce_append {b : UInt8} (s t : Bytes) (hb : ascii b = true) :
    coerce (s ++ b :: t) = coerce s ++ b :: coerce t :=
  coerceFrom_append t hb (Nat.zero_le _)

theorem mem_coerceFrom {b : UInt8} {s : Bytes} {k : ℕ} (hb : ascii b = true)
    (h : b ∈ coerceFrom k s) : b ∈ s := by
  induction s generalizing k with
  | nil => cases k <;> simp [coerceFrom] at h
  | cons c s ih =>
    have cons : ∀ {k : ℕ}, b ∈ c :: coerceFrom k s → b ∈ c :: s := by
      intro k h
      rcases List.mem_cons.1 h with rfl | h
      · exact List.mem_cons_self
      · exact List.mem_cons_of_mem _ (ih h)
    cases k with
    | succ k => exact cons h
    | zero =>
      simp only [coerceFrom] at h
      split at h
      · exact cons h
      · rcases List.mem_append.1 h with h | h
        · simp only [replacement, List.mem_cons, List.not_mem_nil, or_false] at h
          rcases h with rfl | rfl | rfl <;> simp [ascii] at hb
        · exact List.mem_cons_of_mem _ (ih h)

/-- No ASCII byte appears in a replaced string that was not in the string. -/
theorem not_mem_coerce {b : UInt8} {s : Bytes} (hb : ascii b = true) (h : b ∉ s) : b ∉ coerce s :=
  fun hmem => h (mem_coerceFrom hb hmem)

/-- Only an ASCII string becomes an ASCII string. -/
theorem eq_of_coerce_ascii {s : Bytes} (h : ∀ b ∈ coerce s, ascii b = true) : coerce s = s := by
  induction s with
  | nil => rfl
  | cons b s ih =>
    rw [coerce, coerceFrom] at h ⊢
    split at h
    · rename_i k hcont
      have hb : ascii b = true := h b List.mem_cons_self
      have hk : k = 0 := by simpa [continuation, hb] using hcont.symm
      subst hk
      have hrest : coerce s = s := ih fun c hc => h c (List.mem_cons_of_mem _ hc)
      exact congrArg (b :: ·) hrest
    · have := h 0xEF (by simp [replacement])
      simp [ascii] at this

/-! ### Code points -/

/-- What the first byte of a character adds to its code point, by the number of bytes after it. -/
def lead (b : UInt8) : ℕ → ℕ
  | 0 => b.toNat
  | 1 => b.toNat % 0x20
  | 2 => b.toNat % 0x10
  | _ => b.toNat % 0x08

/-- One more byte of a character. -/
def extend (point : ℕ) (b : UInt8) : ℕ := point * 0x40 + b.toNat % 0x40

/-- The code points of a string after so many missing bytes of a character that has begun; nothing
if a byte belongs to no character. -/
def runesFrom : ℕ → ℕ → Bytes → Option (List ℕ)
  | 0, _, [] => some []
  | _ + 1, _, [] => none
  | 1, point, b :: s => (runesFrom 0 0 s).map (extend point b :: ·)
  | k + 2, point, b :: s => runesFrom (k + 1) (extend point b) s
  | 0, _, b :: s =>
    match continuation b s with
    | none => none
    | some 0 => (runesFrom 0 0 s).map (lead b 0 :: ·)
    | some (k + 1) => runesFrom (k + 1) (lead b (k + 1)) s

def runes (s : Bytes) : Option (List ℕ) := runesFrom 0 0 s

def valid (s : Bytes) : Bool := (runes s).isSome

/-- Code points of the property White_Space. -/
def isSpace (r : ℕ) : Bool :=
  (9 ≤ r && r ≤ 13) || r == 0x20 || r == 0x85 || r == 0xA0 || r == 0x1680
    || (0x2000 ≤ r && r ≤ 0x200A) || r == 0x2028 || r == 0x2029 || r == 0x202F || r == 0x205F || r == 0x3000

/-- Code points of the category Cc. -/
def isControl (r : ℕ) : Bool := r ≤ 0x1F || (0x7F ≤ r && r ≤ 0x9F)

theorem runesFrom_append {b : UInt8} {s : Bytes} (t : Bytes) (hb : ascii b = true) {k : ℕ} (point : ℕ)
    (hk : k ≤ s.length) : runesFrom k point (s ++ b :: t)
      = (runesFrom k point s).bind fun rs => (runes t).map fun ts => rs ++ b.toNat :: ts := by
  induction s generalizing k point with
  | nil =>
    obtain rfl : k = 0 := by simpa using hk
    simp [runesFrom, continuation, hb, runes, lead]
  | cons c s ih =>
    match k with
    | 1 =>
      simp only [List.cons_append, runesFrom, ih 0 (Nat.zero_le _)]
      cases runesFrom 0 0 s with
      | none => rfl
      | some rs => cases runes t <;> rfl
    | k + 2 =>
      simp only [List.cons_append, runesFrom]
      exact ih _ (by simpa using hk)
    | 0 =>
      simp only [List.cons_append, runesFrom, continuation_append c s t hb]
      match hcont : continuation c s with
      | none => rfl
      | some 0 =>
        simp only [ih 0 (Nat.zero_le _)]
        cases runesFrom 0 0 s with
        | none => rfl
        | some rs => cases runes t <;> rfl
      | some (k + 1) => exact ih _ (length_of_continuation hcont)

/-- An ASCII byte separates the code points on its two sides. -/
theorem runes_append {b : UInt8} (s t : Bytes) (hb : ascii b = true) :
    runes (s ++ b :: t) = (runes s).bind fun rs => (runes t).map fun ts => rs ++ b.toNat :: ts :=
  runesFrom_append t hb 0 (Nat.zero_le _)

/-- An ASCII byte of the text is one of its code points. -/
theorem mem_runes {b : UInt8} {s : Bytes} {rs : List ℕ} (h : runes s = some rs) (hb : ascii b = true) (hmem : b ∈ s) :
    b.toNat ∈ rs := by
  obtain ⟨a, t, rfl⟩ := List.append_of_mem hmem
  rw [runes_append a t hb] at h
  obtain ⟨as, -, h⟩ := Option.bind_eq_some_iff.1 h
  obtain ⟨ts, -, rfl⟩ := Option.map_eq_some_iff.1 h
  simp

/-! ### Texts of given characters -/

open LexicalPath (Path sep split clean comps)

/-- The characters of the property White_Space, encoded. -/
def spaces : List Bytes :=
  [[9], [10], [11], [12], [13], [0x20], [0xC2, 0x85], [0xC2, 0xA0], [0xE1, 0x9A, 0x80]]
    ++ (List.range 11).map (fun i => [0xE2, 0x80, 0x80 + UInt8.ofNat i])
    ++ [[0xE2, 0x80, 0xA8], [0xE2, 0x80, 0xA9], [0xE2, 0x80, 0xAF], [0xE2, 0x81, 0x9F], [0xE3, 0x80, 0x80]]

example : ∀ c ∈ spaces, (runes c).map (·.map isSpace) = some [true] := by decide +kernel

def trimLeft : ℕ → Bytes → Bytes
  | 0, s => s
  | n + 1, s =>
    match spaces.find? (·.isPrefixOf s) with
    | some c => trimLeft n (s.drop c.length)
    | none => s

def trimRight : ℕ → Bytes → Bytes
  | 0, s => s
  | n + 1, s =>
    match spaces.find? (·.isSuffixOf s) with
    | some c => trimRight n (s.take (s.length - c.length))
    | none => s

/-- The string without the white space before and after it. -/
def trimSpace (s : Bytes) : Bytes := trimRight s.length (trimLeft s.length s)

end Utf8
