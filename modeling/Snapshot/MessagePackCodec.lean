import Mathlib.Logic.Equiv.Basic
import Snapshot.CheckedFold
import Snapshot.MessagePack
import Snapshot.OrderedMap

/-! How typed values are written as MessagePack values and read back: structures as maps with named
fields, enumerations under the names of their variants. A codec carries its two laws, that what is
written is read back and that what is read could have been written, so that the codecs of compound
types need no proofs of their own. -/
namespace MessagePack

open Std (ExtTreeMap TransOrd LawfulEqOrd)

structure Codec (α : Type) where
  serialize : α → Value
  deserialize : Value → Option α
  /-- The values of the source's type. -/
  Fits : α → Prop
  levels : ℕ
  deserialize_serialize : ∀ a, Fits a → deserialize (serialize a) = some a
  fits_of_deserialize : ∀ v a, deserialize v = some a → Fits a
  bounded : ∀ a, Fits a → ∀ depth, levels < depth → Bounded depth (serialize a)

namespace Codec

variable {α β : Type}

protected def bool : Codec Bool where
  serialize b := .bool b
  deserialize
    | .bool b => some b
    | _ => none
  Fits _ := True
  levels := 0
  deserialize_serialize _ _ := rfl
  fits_of_deserialize _ _ _ := trivial
  bounded _ _
    | _ + 1, _ => .bool

/-- Unsigned integers of at most 64 bits. -/
def unsigned (bits : ℕ) (hbits : bits ≤ 64) : Codec ℕ where
  serialize n := .int n
  deserialize
    | .int n => if 0 ≤ n ∧ n < 2 ^ bits then some n.toNat else none
    | _ => none
  Fits n := n < 2 ^ bits
  levels := 0
  deserialize_serialize n hn := by
    have hcast : (n : ℤ) < 2 ^ bits := by exact_mod_cast hn
    simp [hcast]
  fits_of_deserialize v n h := by
    cases v with
    | int m =>
      simp only [Option.ite_none_right_eq_some, Option.some.injEq] at h
      obtain ⟨⟨hpos, hlt⟩, rfl⟩ := h
      have hcast : ((2 ^ bits : ℕ) : ℤ) = 2 ^ bits := by norm_cast
      omega
    | _ => cases h
  bounded n hn
    | depth + 1, _ => by
      have hmono : 2 ^ bits ≤ 2 ^ 64 := Nat.pow_le_pow_right (by decide) hbits
      exact .int (by omega) (by omega)

/-- Signed integers of 32 bits. -/
def int32 : Codec ℤ where
  serialize n := .int n
  deserialize
    | .int n => if -2 ^ 31 ≤ n ∧ n < 2 ^ 31 then some n else none
    | _ => none
  Fits n := -2 ^ 31 ≤ n ∧ n < 2 ^ 31
  levels := 0
  deserialize_serialize n hn := if_pos hn
  fits_of_deserialize v n h := by
    cases v with
    | int m =>
      simp only [Option.ite_none_right_eq_some, Option.some.injEq] at h
      exact h.2 ▸ h.1
    | _ => cases h
  bounded n hn
    | depth + 1, _ => .int (by omega) (by omega)

/-- A number of fixed width as a byte string. -/
def identifier (width : ℕ) : Codec ℕ where
  serialize n := .bin (bigEndian width n)
  deserialize
    | .bin data => if data.length = width then some (ofBigEndian data) else none
    | _ => none
  Fits n := n < 256 ^ width
  levels := 0
  deserialize_serialize n hn := by simp [ofBigEndian_bigEndian hn]
  fits_of_deserialize v n h := by
    cases v with
    | bin data =>
      simp only [Option.ite_none_right_eq_some, Option.some.injEq] at h
      obtain ⟨rfl, rfl⟩ := h
      exact ofBigEndian_lt data
    | _ => cases h
  bounded n _
    | depth + 1, _ => .bin

/-- Text that a predicate accepts as such. -/
def text (valid : Bytes → Bool) : Codec Bytes where
  serialize s := .str s
  deserialize
    | .str s => if valid s then some s else none
    | _ => none
  Fits s := valid s
  levels := 0
  deserialize_serialize s hs := if_pos hs
  fits_of_deserialize v s h := by
    cases v with
    | str s' =>
      simp only [Option.ite_none_right_eq_some, Option.some.injEq] at h
      exact h.2 ▸ h.1
    | _ => cases h
  bounded s _
    | depth + 1, _ => .str

/-- Variants without contents, written as their names. -/
def names [DecidableEq α] (name : α → Bytes) (all : List α)
    (hname : ∀ a ∈ all, ∀ b ∈ all, name a = name b → a = b) : Codec α where
  serialize a := .str (name a)
  deserialize
    | .str s => all.find? fun a => name a = s
    | _ => none
  Fits a := a ∈ all
  levels := 0
  deserialize_serialize a ha := by
    cases hfind : all.find? fun b => name b = name a with
    | none =>
      have := List.find?_eq_none.1 hfind a ha
      simp at this
    | some b =>
      have hb : name b = name a := by simpa using List.find?_some hfind
      rw [← hname b (List.mem_of_find?_eq_some hfind) a ha hb]
      rw [← hb] at hfind
      exact hfind
  fits_of_deserialize v a h := by
    cases v with
    | str s => exact List.mem_of_find?_eq_some h
    | _ => cases h
  bounded a _
    | depth + 1, _ => .str

theorem mapM_eq_some {f : α → Option β} {g : β → α} {l : List β} (h : ∀ b ∈ l, f (g b) = some b) :
    (l.map g).mapM f = some l := by
  rw [CheckedFold.mapM_map_eq_some h, List.map_id']

theorem exists_of_mapM_eq_some {f : α → Option β} {l : List α} {l' : List β} (h : l.mapM f = some l') :
    ∀ b ∈ l', ∃ a ∈ l, f a = some b := CheckedFold.exists_of_forall₂ (CheckedFold.forall₂_of_mapM_eq_some h)

def list (c : Codec α) : Codec (List α) where
  serialize l := .array (l.map c.serialize)
  deserialize
    | .array items => items.mapM c.deserialize
    | _ => none
  Fits l := ∀ a ∈ l, c.Fits a
  levels := c.levels + 1
  deserialize_serialize l hl := mapM_eq_some fun a ha => c.deserialize_serialize a (hl a ha)
  fits_of_deserialize v l h := by
    cases v with
    | array items =>
      intro a ha
      obtain ⟨v, -, hv⟩ := exists_of_mapM_eq_some h a ha
      exact c.fits_of_deserialize v a hv
    | _ => cases h
  bounded l hl
    | 0, hdepth => absurd hdepth (by omega)
    | 1, hdepth => absurd hdepth (by omega)
    | depth + 2, hdepth => by
      refine .array fun v hv => ?_
      obtain ⟨a, ha, rfl⟩ := List.mem_map.1 hv
      exact c.bounded a (hl a ha) _ (by omega)

/-- An optional value is written as itself or as nil, which no value is written as. -/
def optional (c : Codec α) (hnil : ∀ a, c.serialize a ≠ .nil) : Codec (Option α) where
  serialize
    | none => .nil
    | some a => c.serialize a
  deserialize
    | .nil => some none
    | v => (c.deserialize v).map some
  Fits o := ∀ a ∈ o, c.Fits a
  levels := c.levels
  deserialize_serialize o ho := by
    cases o with
    | none => rfl
    | some a =>
      have hread := c.deserialize_serialize a (ho a rfl)
      have hne := hnil a
      dsimp only
      generalize c.serialize a = v at *
      cases v with
      | nil => exact absurd rfl hne
      | _ => simp [hread]
  fits_of_deserialize v o h := by
    intro a ha
    cases ha
    have hread : c.deserialize v = some a := by
      cases v with
      | nil => cases h
      | _ => simpa using h
    exact c.fits_of_deserialize v a hread
  bounded o ho
    | depth + 1, hdepth => by
      cases o with
      | none => exact .nil
      | some a => exact c.bounded a (ho a rfl) _ hdepth

def entry (k : Codec α) (c : Codec β) (x : Value × Value) : Option (α × β) := do
  let key ← k.deserialize x.1
  let v ← c.deserialize x.2
  return (key, v)

theorem entry_eq_some {k : Codec α} {c : Codec β} {x : Value × Value} {y : α × β} :
    k.entry c x = some y ↔ k.deserialize x.1 = some y.1 ∧ c.deserialize x.2 = some y.2 := by
  simp only [entry, Option.bind_eq_bind, Option.bind_eq_some_iff, Option.pure_def, Option.some.injEq]
  constructor
  · rintro ⟨key, hkey, v, hv, rfl⟩
    exact ⟨hkey, hv⟩
  · rintro ⟨hkey, hv⟩
    exact ⟨y.1, hkey, y.2, hv, rfl⟩

/-- A map is written in the order of its keys; of entries with one key the last is kept. -/
def map [Ord α] [TransOrd α] [LawfulEqOrd α] (k : Codec α) (c : Codec β) : Codec (ExtTreeMap α β) where
  serialize m := .map (m.toList.map fun x => (k.serialize x.1, c.serialize x.2))
  deserialize
    | .map entries => (entries.mapM (k.entry c)).map fun l => ExtTreeMap.ofList l compare
    | _ => none
  Fits m := ∀ (key : α) v, m[key]? = some v → k.Fits key ∧ c.Fits v
  levels := max k.levels c.levels + 1
  deserialize_serialize m hm := by
    have hread : (m.toList.map fun x => (k.serialize x.1, c.serialize x.2)).mapM (k.entry c) = some m.toList := by
      refine mapM_eq_some fun x hx => ?_
      obtain ⟨hkey, hv⟩ := hm x.1 x.2 (ExtTreeMap.mem_toList_iff_getElem?_eq_some.1 hx)
      exact entry_eq_some.2 ⟨k.deserialize_serialize x.1 hkey, c.deserialize_serialize x.2 hv⟩
    simp only [hread, Option.map_some, OrderedMap.ofList_toList]
  fits_of_deserialize v m h := by
    cases v with
    | map entries =>
      obtain ⟨l, hl, rfl⟩ := Option.map_eq_some_iff.1 h
      intro key v hv
      obtain ⟨x, -, hx⟩ := exists_of_mapM_eq_some hl _ (OrderedMap.mem_of_getElem?_ofList hv)
      obtain ⟨hkey, hv⟩ := entry_eq_some.1 hx
      exact ⟨k.fits_of_deserialize _ _ hkey, c.fits_of_deserialize _ _ hv⟩
    | _ => cases h
  bounded m hm
    | 0, hdepth => absurd hdepth (by omega)
    | 1, hdepth => absurd hdepth (by omega)
    | depth + 2, hdepth => by
      have hfits : ∀ x ∈ m.toList, k.Fits x.1 ∧ c.Fits x.2 := fun x hx =>
        hm x.1 x.2 (ExtTreeMap.mem_toList_iff_getElem?_eq_some.1 hx)
      refine .map (fun e he => ?_) fun e he => ?_
      · obtain ⟨x, hx, rfl⟩ := List.mem_map.1 he
        exact k.bounded x.1 (hfits x hx).1 _ (by omega)
      · obtain ⟨x, hx, rfl⟩ := List.mem_map.1 he
        exact c.bounded x.2 (hfits x hx).2 _ (by omega)

def equiv (c : Codec α) (e : α ≃ β) : Codec β where
  serialize b := c.serialize (e.symm b)
  deserialize v := (c.deserialize v).map e
  Fits b := c.Fits (e.symm b)
  levels := c.levels
  deserialize_serialize b hb := by simp [c.deserialize_serialize _ hb]
  fits_of_deserialize v b h := by
    obtain ⟨a, ha, rfl⟩ := Option.map_eq_some_iff.1 h
    rw [e.symm_apply_apply]
    exact c.fits_of_deserialize v a ha
  bounded b hb := c.bounded _ hb

end Codec

/-! ## Structures -/

def isKey (name : Bytes) : Value × Value → Bool
  | (.str s, _) => s = name
  | _ => false

/-- The value of a field that a map has once. -/
def lookup (entries : List (Value × Value)) (name : Bytes) : Option Value :=
  (entries.find? (isKey name)).map (·.2)

/-- Fields by name, written in their order and read in any order. -/
structure Fields (α : Type) where
  names : List Bytes
  write : α → List (Bytes × Value)
  read : (Bytes → Option Value) → Option α
  Fits : α → Prop
  levels : ℕ
  names_write : ∀ a, (write a).map (·.1) = names
  read_write : ∀ a, Fits a → ∀ find, (∀ x ∈ write a, find x.1 = some x.2) → read find = some a
  fits_of_read : ∀ find a, read find = some a → Fits a
  bounded : ∀ a, Fits a → ∀ x ∈ write a, ∀ depth, levels < depth → Bounded depth x.2

namespace Fields

variable {α β : Type}

/-- A field that must be there. -/
def one (name : Bytes) (c : Codec α) : Fields α where
  names := [name]
  write a := [(name, c.serialize a)]
  read find := (find name).bind c.deserialize
  Fits := c.Fits
  levels := c.levels
  names_write _ := rfl
  read_write a ha find hfind := by
    rw [hfind (name, c.serialize a) List.mem_cons_self, Option.bind_some, c.deserialize_serialize a ha]
  fits_of_read find a h := by
    obtain ⟨v, -, hv⟩ := Option.bind_eq_some_iff.1 h
    exact c.fits_of_deserialize v a hv
  bounded a ha x hx := by
    obtain rfl := List.mem_singleton.1 hx
    exact c.bounded a ha

/-- A field that may be missing. -/
def oneOptional (name : Bytes) (c : Codec (Option α)) (hnone : c.Fits none) : Fields (Option α) where
  names := [name]
  write a := [(name, c.serialize a)]
  read find :=
    match find name with
    | none => some none
    | some v => c.deserialize v
  Fits := c.Fits
  levels := c.levels
  names_write _ := rfl
  read_write a ha find hfind := by
    rw [hfind (name, c.serialize a) List.mem_cons_self]
    exact c.deserialize_serialize a ha
  fits_of_read find a h := by
    cases hfind : find name with
    | none =>
      rw [hfind] at h
      cases h
      exact hnone
    | some v =>
      rw [hfind] at h
      exact c.fits_of_deserialize v a h
  bounded a ha x hx := by
    obtain rfl := List.mem_singleton.1 hx
    exact c.bounded a ha

def and (f : Fields α) (g : Fields β) : Fields (α × β) where
  names := f.names ++ g.names
  write x := f.write x.1 ++ g.write x.2
  read find := do
    let a ← f.read find
    let b ← g.read find
    return (a, b)
  Fits x := f.Fits x.1 ∧ g.Fits x.2
  levels := max f.levels g.levels
  names_write x := by rw [List.map_append, f.names_write, g.names_write]
  read_write x hx find hfind := by
    have hf := f.read_write x.1 hx.1 find fun y hy => hfind y (List.mem_append_left _ hy)
    have hg := g.read_write x.2 hx.2 find fun y hy => hfind y (List.mem_append_right _ hy)
    simp [hf, hg]
  fits_of_read find x h := by
    simp only [Option.bind_eq_bind, Option.bind_eq_some_iff, Option.pure_def, Option.some.injEq] at h
    obtain ⟨a, ha, b, hb, rfl⟩ := h
    exact ⟨f.fits_of_read find a ha, g.fits_of_read find b hb⟩
  bounded x hx y hy depth hdepth := by
    rcases List.mem_append.1 hy with hy | hy
    · exact f.bounded x.1 hx.1 y hy depth (by omega)
    · exact g.bounded x.2 hx.2 y hy depth (by omega)

/-- Names of fields are distinct, so each field is found where it was written. -/
theorem lookup_write {fields : List (Bytes × Value)} (hnodup : (fields.map (·.1)).Nodup) {x : Bytes × Value}
    (hx : x ∈ fields) : lookup (fields.map fun y => (.str y.1, y.2)) x.1 = some x.2 := by
  induction fields with
  | nil => cases hx
  | cons y fields ih =>
    rw [List.map_cons, List.nodup_cons] at hnodup
    rcases List.mem_cons.1 hx with rfl | hx
    · simp [lookup, isKey]
    · have hne : y.1 ≠ x.1 := fun h => hnodup.1 (h ▸ List.mem_map_of_mem hx)
      have hskip : isKey x.1 (.str y.1, y.2) = false := by simpa [isKey] using hne
      rw [List.map_cons, lookup, List.find?_cons, hskip]
      exact ih hnodup.2 hx

theorem countP_isKey {fields : List (Bytes × Value)} (hnodup : (fields.map (·.1)).Nodup) (name : Bytes) :
    (fields.map fun y => ((.str y.1, y.2) : Value × Value)).countP (isKey name) ≤ 1 := by
  rw [List.countP_map]
  have hcount : fields.countP (isKey name ∘ fun y => (.str y.1, y.2)) = (fields.map (·.1)).count name := by
    rw [List.count, List.countP_map]
    exact List.countP_congr fun y _ => by simp [isKey]
  rw [hcount]
  exact List.nodup_iff_count_le_one.1 hnodup name

/-- A structure. Unknown fields are skipped, a field that occurs twice is refused. -/
def codec (f : Fields α) (hnodup : f.names.Nodup) : Codec α where
  serialize a := .map ((f.write a).map fun x => (.str x.1, x.2))
  deserialize
    | .map entries =>
      if ∀ name ∈ f.names, entries.countP (isKey name) ≤ 1 then f.read (lookup entries) else none
    | _ => none
  Fits := f.Fits
  levels := f.levels + 1
  deserialize_serialize a ha := by
    have hdistinct : ((f.write a).map (·.1)).Nodup := f.names_write a ▸ hnodup
    dsimp only
    rw [if_pos fun name _ => countP_isKey hdistinct name]
    exact f.read_write a ha _ fun x hx => lookup_write hdistinct hx
  fits_of_deserialize v a h := by
    cases v with
    | map entries =>
      simp only [Option.ite_none_right_eq_some] at h
      exact f.fits_of_read _ a h.2
    | _ => cases h
  bounded a ha
    | 0, hdepth => absurd hdepth (by omega)
    | 1, hdepth => absurd hdepth (by omega)
    | depth + 2, hdepth => by
      refine .map (fun e he => ?_) fun e he => ?_
      · obtain ⟨x, -, rfl⟩ := List.mem_map.1 he
        exact .str
      · obtain ⟨x, hx, rfl⟩ := List.mem_map.1 he
        exact f.bounded a ha x hx _ (by omega)

end Fields

/-! ## Enumerations -/

/-- Variants by name, each with contents of its own. -/
structure Variants (α : Type) where
  names : List Bytes
  write : α → Bytes × Value
  read : Bytes → Value → Option α
  Fits : α → Prop
  levels : ℕ
  name_mem : ∀ a, (write a).1 ∈ names
  read_other : ∀ name, name ∉ names → ∀ v, read name v = none
  read_write : ∀ a, Fits a → read (write a).1 (write a).2 = some a
  fits_of_read : ∀ name v a, read name v = some a → Fits a
  bounded : ∀ a, Fits a → ∀ depth, levels < depth → Bounded depth (write a).2

namespace Variants

variable {α β : Type}

def one (name : Bytes) (c : Codec α) : Variants α where
  names := [name]
  write a := (name, c.serialize a)
  read s v := if s = name then c.deserialize v else none
  Fits := c.Fits
  levels := c.levels
  name_mem _ := List.mem_cons_self
  read_other s hs v := if_neg fun h => hs (List.mem_singleton.2 h)
  read_write a ha := by rw [if_pos rfl, c.deserialize_serialize a ha]
  fits_of_read s v a h := by
    simp only [Option.ite_none_right_eq_some] at h
    exact c.fits_of_deserialize v a h.2
  bounded := c.bounded

def or (f : Variants α) (g : Variants β) (hdisjoint : ∀ name ∈ f.names, name ∉ g.names) : Variants (α ⊕ β) where
  names := f.names ++ g.names
  write
    | .inl a => f.write a
    | .inr b => g.write b
  read name v := ((f.read name v).map .inl).or ((g.read name v).map .inr)
  Fits
    | .inl a => f.Fits a
    | .inr b => g.Fits b
  levels := max f.levels g.levels
  name_mem
    | .inl a => List.mem_append_left _ (f.name_mem a)
    | .inr b => List.mem_append_right _ (g.name_mem b)
  read_other name hname v := by
    rw [List.mem_append, not_or] at hname
    simp [f.read_other name hname.1 v, g.read_other name hname.2 v]
  read_write
    | .inl a, ha => by simp [f.read_write a ha]
    | .inr b, hb => by
      have hother := f.read_other (g.write b).1 (fun h => hdisjoint _ h (g.name_mem b)) (g.write b).2
      simp [g.read_write b hb, hother]
  fits_of_read name v x h := by
    rcases Option.or_eq_some_iff.1 h with h | ⟨-, h⟩
    · obtain ⟨a, ha, rfl⟩ := Option.map_eq_some_iff.1 h
      exact f.fits_of_read name v a ha
    · obtain ⟨b, hb, rfl⟩ := Option.map_eq_some_iff.1 h
      exact g.fits_of_read name v b hb
  bounded
    | .inl a, ha, depth, hdepth => f.bounded a ha depth (by omega)
    | .inr b, hb, depth, hdepth => g.bounded b hb depth (by omega)

/-- An enumeration is a map from the name of the variant to its contents. -/
def codec (f : Variants α) : Codec α where
  serialize a := .map [(.str (f.write a).1, (f.write a).2)]
  deserialize
    | .map [(.str name, v)] => f.read name v
    | _ => none
  Fits := f.Fits
  levels := f.levels + 1
  deserialize_serialize a ha := f.read_write a ha
  fits_of_deserialize v a h := by
    split at h
    · exact f.fits_of_read _ _ a h
    · cases h
  bounded a ha
    | 0, hdepth => absurd hdepth (by omega)
    | 1, hdepth => absurd hdepth (by omega)
    | depth + 2, hdepth => by
      refine .map (fun e he => ?_) fun e he => ?_
      · obtain rfl := List.mem_singleton.1 he
        exact .str
      · obtain rfl := List.mem_singleton.1 he
        exact f.bounded a ha _ (by omega)

end Variants

end MessagePack
