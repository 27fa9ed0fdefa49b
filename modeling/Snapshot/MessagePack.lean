import Mathlib.Data.List.Basic
import Mathlib.Data.List.Induction
import Mathlib.Tactic.NormNum
import Mathlib.Tactic.Ring

/-! MessagePack: values, their shortest encoding and a decoder that limits nesting. A value is a
header followed by its contents; a header states the kind of the value and a number, which is the
value of an integer or the length of what follows. -/
namespace MessagePack

abbrev Bytes := List UInt8

/-- The lowest base-256 digits of a number, highest digit first. -/
def bigEndian : ℕ → ℕ → Bytes
  | 0, _ => []
  | w + 1, n => bigEndian w (n / 256) ++ [UInt8.ofNat (n % 256)]

def ofBigEndian (s : Bytes) : ℕ := s.foldl (fun n b => n * 256 + b.toNat) 0

@[simp]
theorem length_bigEndian (w n : ℕ) : (bigEndian w n).length = w := by
  induction w generalizing n with
  | zero => rfl
  | succ w ih => simp [bigEndian, ih]

theorem ofBigEndian_bigEndian {w n : ℕ} (h : n < 256 ^ w) : ofBigEndian (bigEndian w n) = n := by
  induction w generalizing n with
  | zero =>
    rw [pow_zero] at h
    obtain rfl : n = 0 := by omega
    rfl
  | succ w ih =>
    have hdigits : n / 256 < 256 ^ w := by
      rw [Nat.div_lt_iff_lt_mul (by decide), ← pow_succ]
      exact h
    have hdigit : (UInt8.ofNat (n % 256)).toNat = n % 256 := by
      simp only [UInt8.toNat_ofNat']
      omega
    have ih := ih hdigits
    rw [ofBigEndian] at ih ⊢
    rw [bigEndian, List.foldl_append, ih, List.foldl_cons, List.foldl_nil, hdigit]
    omega

theorem ofBigEndian_lt (s : Bytes) : ofBigEndian s < 256 ^ s.length := by
  induction s using List.reverseRecOn with
  | nil => simp [ofBigEndian]
  | append_singleton s b ih =>
    have hb := b.toNat_lt
    rw [ofBigEndian] at ih ⊢
    rw [List.foldl_append, List.length_append, List.length_singleton, pow_succ]
    simp only [List.foldl_cons, List.foldl_nil]
    omega

/-- The kind of a value, with its value or the number of bytes, items or entries that follow. -/
inductive Header where
  | nil
  | bool (b : Bool)
  | int (n : ℤ)
  | str (length : ℕ)
  | bin (length : ℕ)
  | array (length : ℕ)
  | map (length : ℕ)
  deriving DecidableEq, Repr

/-- A marker and the number of bytes in which the number follows it. -/
structure Form where
  marker : UInt8
  width : ℕ

/-- The first form that holds a number. The last one cuts it off. -/
def writeWide : Form → List Form → ℕ → Bytes
  | f, [], n => f.marker :: bigEndian f.width n
  | f, g :: rest, n => if n < 256 ^ f.width then f.marker :: bigEndian f.width n else writeWide g rest n

def writeUnsigned (n : ℕ) : Bytes :=
  if n < 0x80 then [UInt8.ofNat n] else writeWide ⟨0xcc, 1⟩ [⟨0xcd, 2⟩, ⟨0xce, 4⟩, ⟨0xcf, 8⟩] n

/-- Negative numbers in two's complement. -/
def writeNegative (n : ℤ) : Bytes :=
  if -32 ≤ n then [UInt8.ofNat (n + 2 ^ 8).toNat]
  else if -2 ^ 7 ≤ n then 0xd0 :: bigEndian 1 (n + 2 ^ 8).toNat
  else if -2 ^ 15 ≤ n then 0xd1 :: bigEndian 2 (n + 2 ^ 16).toNat
  else if -2 ^ 31 ≤ n then 0xd2 :: bigEndian 4 (n + 2 ^ 32).toNat
  else 0xd3 :: bigEndian 8 (n + 2 ^ 64).toNat

def writeHeader : Header → Bytes
  | .nil => [0xc0]
  | .bool b => [if b then 0xc3 else 0xc2]
  | .int n => if 0 ≤ n then writeUnsigned n.toNat else writeNegative n
  | .str n => if n < 32 then [UInt8.ofNat (0xa0 + n)] else writeWide ⟨0xd9, 1⟩ [⟨0xda, 2⟩, ⟨0xdb, 4⟩] n
  | .bin n => writeWide ⟨0xc4, 1⟩ [⟨0xc5, 2⟩, ⟨0xc6, 4⟩] n
  | .array n => if n < 16 then [UInt8.ofNat (0x90 + n)] else writeWide ⟨0xdc, 2⟩ [⟨0xdd, 4⟩] n
  | .map n => if n < 16 then [UInt8.ofNat (0x80 + n)] else writeWide ⟨0xde, 2⟩ [⟨0xdf, 4⟩] n

/-- The next bytes of the input. -/
def readBytes (n : ℕ) (s : Bytes) : Option (Bytes × Bytes) :=
  if n ≤ s.length then some (s.take n, s.drop n) else none

def readNumber (width : ℕ) (header : ℕ → Header) (s : Bytes) : Option (Header × Bytes) :=
  (readBytes width s).map fun (digits, s) => (header (ofBigEndian digits), s)

def signed (width : ℕ) (n : ℕ) : Header :=
  .int (if n < 2 ^ (8 * width - 1) then n else n - 2 ^ (8 * width))

/-- The markers that are followed by a number, and those of constants. -/
def readWide (marker : UInt8) (s : Bytes) : Option (Header × Bytes) :=
  if marker = 0xc0 then some (.nil, s)
  else if marker = 0xc2 then some (.bool false, s)
  else if marker = 0xc3 then some (.bool true, s)
  else if marker = 0xc4 then readNumber 1 .bin s
  else if marker = 0xc5 then readNumber 2 .bin s
  else if marker = 0xc6 then readNumber 4 .bin s
  else if marker = 0xcc then readNumber 1 (.int ·) s
  else if marker = 0xcd then readNumber 2 (.int ·) s
  else if marker = 0xce then readNumber 4 (.int ·) s
  else if marker = 0xcf then readNumber 8 (.int ·) s
  else if marker = 0xd0 then readNumber 1 (signed 1) s
  else if marker = 0xd1 then readNumber 2 (signed 2) s
  else if marker = 0xd2 then readNumber 4 (signed 4) s
  else if marker = 0xd3 then readNumber 8 (signed 8) s
  else if marker = 0xd9 then readNumber 1 .str s
  else if marker = 0xda then readNumber 2 .str s
  else if marker = 0xdb then readNumber 4 .str s
  else if marker = 0xdc then readNumber 2 .array s
  else if marker = 0xdd then readNumber 4 .array s
  else if marker = 0xde then readNumber 2 .map s
  else if marker = 0xdf then readNumber 4 .map s
  -- Floats and extensions are no part of this format's values.
  else none

def readHeader : Bytes → Option (Header × Bytes)
  | [] => none
  | marker :: s =>
    if marker.toNat < 0x80 then some (.int marker.toNat, s)
    else if marker.toNat < 0x90 then some (.map (marker.toNat - 0x80), s)
    else if marker.toNat < 0xa0 then some (.array (marker.toNat - 0x90), s)
    else if marker.toNat < 0xc0 then some (.str (marker.toNat - 0xa0), s)
    else if marker.toNat < 0xe0 then readWide marker s
    else some (.int (marker.toNat - 2 ^ 8), s)

theorem readBytes_append (a s : Bytes) : readBytes a.length (a ++ s) = some (a, s) := by
  simp [readBytes]

theorem readNumber_bigEndian {w n : ℕ} (hn : n < 256 ^ w) (header : ℕ → Header) (s : Bytes) :
    readNumber w header (bigEndian w n ++ s) = some (header n, s) := by
  have h := readBytes_append (bigEndian w n) s
  rw [length_bigEndian] at h
  simp only [readNumber, h, Option.map_some, ofBigEndian_bigEndian hn]

/-- What a header can state. -/
def Header.Fits : Header → Prop
  | .int n => -2 ^ 63 ≤ n ∧ n < 2 ^ 64
  | .str n | .bin n | .array n | .map n => n < 2 ^ 32
  | _ => True

/-- Every form is read back by its own marker, and the last one holds the number. -/
theorem readHeader_writeWide {header : ℕ → Header} {n : ℕ} {s : Bytes} {f : Form} {rest : List Form}
    (hread : ∀ g ∈ f :: rest, ∀ s, readHeader (g.marker :: s) = readNumber g.width header s)
    (hn : n < 256 ^ ((f :: rest).getLast (by simp)).width) :
    readHeader (writeWide f rest n ++ s) = some (header n, s) := by
  induction rest generalizing f with
  | nil =>
    rw [List.getLast_singleton] at hn
    rw [writeWide, List.cons_append, hread f (by simp), readNumber_bigEndian hn]
  | cons g rest ih =>
    rw [writeWide]
    by_cases hf : n < 256 ^ f.width
    · rw [if_pos hf, List.cons_append, hread f (by simp), readNumber_bigEndian hf]
    · rw [if_neg hf]
      rw [List.getLast_cons_cons] at hn
      exact ih (fun g' hg' => hread g' (List.mem_cons_of_mem _ hg')) hn

/-- A marker that states a small number itself. -/
theorem readHeader_marker {n : ℕ} (hn : n < 256) (s : Bytes) :
    readHeader (UInt8.ofNat n :: s) =
      if n < 0x80 then some (.int n, s)
      else if n < 0x90 then some (.map (n - 0x80), s)
      else if n < 0xa0 then some (.array (n - 0x90), s)
      else if n < 0xc0 then some (.str (n - 0xa0), s)
      else if n < 0xe0 then readWide (UInt8.ofNat n) s
      else some (.int (n - 2 ^ 8), s) := by
  have hmarker : (UInt8.ofNat n).toNat = n := by
    simp only [UInt8.toNat_ofNat']
    omega
  rw [readHeader, hmarker]

theorem readHeader_writeUnsigned {n : ℕ} (hn : n < 2 ^ 64) (s : Bytes) :
    readHeader (writeUnsigned n ++ s) = some (.int n, s) := by
  unfold writeUnsigned
  split
  next h => rw [List.singleton_append, readHeader_marker (by omega), if_pos h]
  next h =>
    have hread : ∀ g ∈ [⟨0xcc, 1⟩, ⟨0xcd, 2⟩, ⟨0xce, 4⟩, (⟨0xcf, 8⟩ : Form)], ∀ s,
        readHeader (g.marker :: s) = readNumber g.width (.int ·) s := by
      intro g hg s
      simp only [List.mem_cons, List.not_mem_nil, or_false] at hg
      rcases hg with rfl | rfl | rfl | rfl <;> rfl
    exact readHeader_writeWide hread hn

/-- Two's complement is read back. -/
theorem signed_of_negative {w : ℕ} {n : ℤ} (hw : 0 < w) (hlow : -2 ^ (8 * w - 1) ≤ n) (hneg : n < 0) :
    signed w (n + 2 ^ (8 * w)).toNat = .int n := by
  have hdouble : (2 : ℕ) ^ (8 * w) = 2 * 2 ^ (8 * w - 1) := by
    rw [← pow_succ', show 8 * w - 1 + 1 = 8 * w by omega]
  have hcast : (2 : ℤ) ^ (8 * w - 1) = ((2 ^ (8 * w - 1) : ℕ) : ℤ) := by norm_cast
  have hcast' : (2 : ℤ) ^ (8 * w) = 2 * ((2 ^ (8 * w - 1) : ℕ) : ℤ) := by
    rw [← hcast, ← pow_succ', show 8 * w - 1 + 1 = 8 * w by omega]
  rw [hcast] at hlow
  rw [signed, hcast']
  generalize 2 ^ (8 * w - 1) = p at *
  rw [if_neg (by omega)]
  congr 1
  omega

theorem readHeader_writeNegative {n : ℤ} (hlow : -2 ^ 63 ≤ n) (hneg : n < 0) (s : Bytes) :
    readHeader (writeNegative n ++ s) = some (.int n, s) := by
  have wide : ∀ {marker : UInt8} {w : ℕ}, 0 < w → -2 ^ (8 * w - 1) ≤ n →
      (∀ s, readHeader (marker :: s) = readNumber w (signed w) s) →
      readHeader (marker :: bigEndian w (n + 2 ^ (8 * w)).toNat ++ s) = some (.int n, s) := by
    intro marker w hw hn hread
    have hbound : (n + 2 ^ (8 * w)).toNat < 256 ^ w := by
      rw [show (256 : ℕ) = 2 ^ 8 by rfl, ← pow_mul]
      have hcast : (2 : ℤ) ^ (8 * w) = ((2 ^ (8 * w) : ℕ) : ℤ) := by norm_cast
      have hpos : 0 < 2 ^ (8 * w) := by positivity
      omega
    rw [List.cons_append, hread, readNumber_bigEndian hbound, signed_of_negative hw hn hneg]
  unfold writeNegative
  split
  next h =>
    have hmarker : (n + 2 ^ 8).toNat < 256 := by omega
    rw [List.singleton_append, readHeader_marker hmarker]
    repeat rw [if_neg (by omega)]
    simp only [Option.some.injEq, Prod.mk.injEq, Header.int.injEq, and_true]
    omega
  next =>
    split
    next h => exact wide (by decide) h fun _ => rfl
    next =>
      split
      next h => exact wide (by decide) h fun _ => rfl
      next =>
        split
        next h => exact wide (by decide) h fun _ => rfl
        next => exact wide (by decide) hlow fun _ => rfl

theorem readHeader_writeHeader {h : Header} (hfits : h.Fits) (s : Bytes) :
    readHeader (writeHeader h ++ s) = some (h, s) := by
  cases h with
  | nil => rfl
  | bool b => cases b <;> rfl
  | int n =>
    rw [writeHeader]
    split
    next hn =>
      have hcast : ((n.toNat : ℕ) : ℤ) = n := Int.toNat_of_nonneg hn
      rw [readHeader_writeUnsigned (by have := hfits.2; omega), hcast]
    next hn => exact readHeader_writeNegative hfits.1 (by omega) s
  | str n =>
    rw [writeHeader]
    split
    next hn =>
      rw [List.singleton_append, readHeader_marker (by omega)]
      repeat rw [if_neg (by omega)]
      rw [if_pos (by omega), Nat.add_sub_cancel_left]
    next hn =>
      refine readHeader_writeWide (fun g hg s => ?_) hfits
      simp only [List.mem_cons, List.not_mem_nil, or_false] at hg
      rcases hg with rfl | rfl | rfl <;> rfl
  | bin n =>
    refine readHeader_writeWide (fun g hg s => ?_) hfits
    simp only [List.mem_cons, List.not_mem_nil, or_false] at hg
    rcases hg with rfl | rfl | rfl <;> rfl
  | array n =>
    rw [writeHeader]
    split
    next hn =>
      rw [List.singleton_append, readHeader_marker (by omega)]
      repeat rw [if_neg (by omega)]
      rw [if_pos (by omega), Nat.add_sub_cancel_left]
    next hn =>
      refine readHeader_writeWide (fun g hg s => ?_) hfits
      simp only [List.mem_cons, List.not_mem_nil, or_false] at hg
      rcases hg with rfl | rfl <;> rfl
  | map n =>
    rw [writeHeader]
    split
    next hn =>
      rw [List.singleton_append, readHeader_marker (by omega)]
      rw [if_neg (by omega), if_pos (by omega), Nat.add_sub_cancel_left]
    next hn =>
      refine readHeader_writeWide (fun g hg s => ?_) hfits
      simp only [List.mem_cons, List.not_mem_nil, or_false] at hg
      rcases hg with rfl | rfl <;> rfl

/-! ## Values -/

inductive Value where
  | nil
  | bool (b : Bool)
  | int (n : ℤ)
  | str (text : Bytes)
  | bin (data : Bytes)
  | array (items : List Value)
  | map (entries : List (Value × Value))

mutual

def encode : Value → Bytes
  | .nil => writeHeader .nil
  | .bool b => writeHeader (.bool b)
  | .int n => writeHeader (.int n)
  | .str text => writeHeader (.str text.length) ++ text
  | .bin data => writeHeader (.bin data.length) ++ data
  | .array items => writeHeader (.array items.length) ++ encodeItems items
  | .map entries => writeHeader (.map entries.length) ++ encodeEntries entries

def encodeItems : List Value → Bytes
  | [] => []
  | v :: items => encode v ++ encodeItems items

def encodeEntries : List (Value × Value) → Bytes
  | [] => []
  | e :: entries => encodeEntry e ++ encodeEntries entries

def encodeEntry : Value × Value → Bytes
  | (key, v) => encode key ++ encode v

end

/-- A number of things that follow one another. -/
def readMany {α : Type} (read : Bytes → Option (α × Bytes)) : ℕ → Bytes → Option (List α × Bytes)
  | 0, s => some ([], s)
  | n + 1, s => do
    let (a, s) ← read s
    let (l, s) ← readMany read n s
    return (a :: l, s)

def readEntry (read : Bytes → Option (Value × Bytes)) (s : Bytes) : Option ((Value × Value) × Bytes) := do
  let (key, s) ← read s
  let (v, s) ← read s
  return ((key, v), s)

/-- The next value of the input, nested less than `depth` levels deep. -/
def decode : ℕ → Bytes → Option (Value × Bytes)
  | 0, _ => none
  | depth + 1, s =>
    match readHeader s with
    | none => none
    | some (.nil, s) => some (.nil, s)
    | some (.bool b, s) => some (.bool b, s)
    | some (.int n, s) => some (.int n, s)
    | some (.str n, s) => (readBytes n s).map fun (text, s) => (.str text, s)
    | some (.bin n, s) => (readBytes n s).map fun (data, s) => (.bin data, s)
    | some (.array n, s) =>
      if depth = 0 then none
      else (readMany (decode depth) n s).map fun (items, s) => (.array items, s)
    | some (.map n, s) =>
      if depth = 0 then none
      else (readMany (readEntry (decode depth)) n s).map fun (entries, s) => (.map entries, s)

/-- Values with machine integers, nested less than `depth` levels deep. -/
inductive Bounded : ℕ → Value → Prop where
  | nil {depth} : Bounded (depth + 1) .nil
  | bool {depth b} : Bounded (depth + 1) (.bool b)
  | int {depth n} : -2 ^ 63 ≤ n → n < 2 ^ 64 → Bounded (depth + 1) (.int n)
  | str {depth text} : Bounded (depth + 1) (.str text)
  | bin {depth data} : Bounded (depth + 1) (.bin data)
  | array {depth items} : (∀ v ∈ items, Bounded (depth + 1) v) → Bounded (depth + 2) (.array items)
  | map {depth entries} : (∀ e ∈ entries, Bounded (depth + 1) e.1) →
    (∀ e ∈ entries, Bounded (depth + 1) e.2) → Bounded (depth + 2) (.map entries)

theorem encodeItems_eq (items : List Value) : encodeItems items = items.flatMap encode := by
  induction items with
  | nil => rfl
  | cons v items ih => rw [encodeItems, ih, List.flatMap_cons]

theorem encodeEntries_eq (entries : List (Value × Value)) : encodeEntries entries = entries.flatMap encodeEntry := by
  induction entries with
  | nil => rfl
  | cons e entries ih => rw [encodeEntries, ih, List.flatMap_cons]

theorem readMany_flatMap {α : Type} {read : Bytes → Option (α × Bytes)} {write : α → Bytes} {l : List α}
    (h : ∀ a ∈ l, ∀ s, read (write a ++ s) = some (a, s)) (s : Bytes) :
    readMany read l.length (l.flatMap write ++ s) = some (l, s) := by
  induction l with
  | nil => rfl
  | cons a l ih =>
    rw [List.flatMap_cons, List.append_assoc, List.length_cons, readMany, h a List.mem_cons_self]
    simp [ih fun b hb => h b (List.mem_cons_of_mem _ hb)]

theorem writeHeader_ne_nil (h : Header) : writeHeader h ≠ [] := by
  have hwide : ∀ (f : Form) rest n, writeWide f rest n ≠ [] := by
    intro f rest n
    induction rest generalizing f with
    | nil => simp [writeWide]
    | cons g rest ih =>
      rw [writeWide]
      split
      · simp
      · exact ih g
  cases h <;> simp only [writeHeader, writeUnsigned, writeNegative] <;> repeat' split
  all_goals first | exact hwide _ _ _ | simp

theorem encode_ne_nil (v : Value) : encode v ≠ [] := by
  cases v <;> simp [encode, writeHeader_ne_nil]

theorem encodeEntry_ne_nil (e : Value × Value) : encodeEntry e ≠ [] := by
  obtain ⟨key, v⟩ := e
  simp [encodeEntry, encode_ne_nil]

/-- What is made of several parts is as long as each of them, and as they are many. -/
theorem length_le_flatMap {α : Type} {write : α → Bytes} {l : List α} (h : ∀ a ∈ l, write a ≠ []) :
    l.length ≤ (l.flatMap write).length ∧ ∀ a ∈ l, (write a).length ≤ (l.flatMap write).length := by
  induction l with
  | nil => simp
  | cons a l ih =>
    obtain ⟨hlength, hparts⟩ := ih fun b hb => h b (List.mem_cons_of_mem _ hb)
    have ha : 0 < (write a).length := List.length_pos_iff.2 (h a List.mem_cons_self)
    rw [List.flatMap_cons, List.length_append, List.length_cons]
    refine ⟨by omega, fun b hb => ?_⟩
    rcases List.mem_cons.1 hb with rfl | hb
    · omega
    · have := hparts b hb
      omega

/-- A short encoding is read back, whatever follows it. -/
theorem decode_encode {depth : ℕ} {v : Value} (h : Bounded depth v) (hlength : (encode v).length < 2 ^ 32)
    (s : Bytes) : decode depth (encode v ++ s) = some (v, s) := by
  induction h generalizing s with
  | nil => rfl
  | bool =>
    rename_i b
    cases b <;> rfl
  | int hlow hhigh =>
    rename_i n
    have hfits : (Header.int n).Fits := ⟨hlow, hhigh⟩
    rw [encode, decode, readHeader_writeHeader hfits]
  | str =>
    rename_i text
    rw [encode, List.length_append] at hlength
    have hfits : (Header.str text.length).Fits := show text.length < 2 ^ 32 by omega
    rw [encode, decode, List.append_assoc, readHeader_writeHeader hfits]
    simp only [readBytes_append, Option.map_some]
  | bin =>
    rename_i data
    rw [encode, List.length_append] at hlength
    have hfits : (Header.bin data.length).Fits := show data.length < 2 ^ 32 by omega
    rw [encode, decode, List.append_assoc, readHeader_writeHeader hfits]
    simp only [readBytes_append, Option.map_some]
  | array hitems ih =>
    rename_i depth items
    rw [encode, encodeItems_eq, List.length_append] at hlength
    obtain ⟨hmany, hparts⟩ := length_le_flatMap fun v (_ : v ∈ items) => encode_ne_nil v
    have hfits : (Header.array items.length).Fits := show items.length < 2 ^ 32 by omega
    rw [encode, decode, List.append_assoc, readHeader_writeHeader hfits, encodeItems_eq]
    simp only [Nat.add_eq_zero_iff, one_ne_zero, and_false, if_false]
    rw [readMany_flatMap fun v hv s => ih v hv (by have := hparts v hv; omega) s]
    rfl
  | map hkeys hvalues ihk ihv =>
    rename_i depth entries
    rw [encode, encodeEntries_eq, List.length_append] at hlength
    obtain ⟨hmany, hparts⟩ := length_le_flatMap fun e (_ : e ∈ entries) => encodeEntry_ne_nil e
    have hfits : (Header.map entries.length).Fits := show entries.length < 2 ^ 32 by omega
    rw [encode, decode, List.append_assoc, readHeader_writeHeader hfits, encodeEntries_eq]
    simp only [Nat.add_eq_zero_iff, one_ne_zero, and_false, if_false]
    rw [readMany_flatMap fun e he s => ?_]
    · rfl
    · have hpart := hparts e he
      rw [encodeEntry, List.length_append] at hpart
      rw [readEntry, encodeEntry, List.append_assoc, ihk e he (by omega)]
      simp [ihv e he (by omega)]

end MessagePack
