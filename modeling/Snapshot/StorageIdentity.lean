import Snapshot.ByteText
import Snapshot.CheckedFold
import Snapshot.Utf8
import Mathlib.Data.Nat.Bitwise

/-! The identity of a published artifact, checked twice: by the `storage` package that the operator and
the agent use, and by PageBroker before it forms an object handle. The two checks are written
independently, one over runes and a regular expression, one over bytes. -/
namespace StorageIdentity

open LexicalPath (Bytes Path IsName sep dot dotdot)
open ByteText (literal)

def lowerAlnum (b : UInt8) : Bool := (0x61 ≤ b && b ≤ 0x7A) || (0x30 ≤ b && b ≤ 0x39)

def hyphen : UInt8 := 0x2D

def backslash : UInt8 := 0x5C

/-! ### `api/storage` -/
namespace Api

/-- `^store-v1-[0-9a-f]{64}$` -/
def storeIDPattern (s : Bytes) : Bool :=
  (literal "store-v1-").isPrefixOf s && (s.drop 9).length == 64
    && (s.drop 9).all fun b => (0x30 ≤ b && b ≤ 0x39) || (0x61 ≤ b && b ≤ 0x66)

/-- `^[a-z0-9]([-a-z0-9]*[a-z0-9])?$` -/
def dns1123LabelPattern : Bytes → Bool
  | [] => false
  | b :: s =>
    lowerAlnum b && (s.isEmpty || (s.dropLast.all (fun c => c == hyphen || lowerAlnum c) && s.getLast?.any lowerAlnum))

inductive LabelFault
  | tooLong
  | pattern
  deriving DecidableEq, Repr

def isDNS1123Label (s : Bytes) : List LabelFault :=
  (if s.length > 63 then [.tooLong] else []) ++ (if dns1123LabelPattern s then [] else [.pattern])

inductive IdentityError
  | storeID
  | artifactUID
  | containerName (errs : List LabelFault)
  deriving DecidableEq, Repr

def validateArtifactIdentity (storeID artifactUID containerName : Bytes) : Except IdentityError Unit :=
  if !storeIDPattern storeID then .error .storeID
  else if artifactUID == [] || artifactUID.length > 256 || !Utf8.valid artifactUID
      || artifactUID.any (fun b => b == sep || b == backslash)
      || (Utf8.runes artifactUID).any (·.any fun r => Utf8.isSpace r || Utf8.isControl r) then
    .error .artifactUID
  else if isDNS1123Label containerName ≠ [] then .error (.containerName (isDNS1123Label containerName))
  else .ok ()

end Api

/-- A store ID as the store's configuration yields it. -/
structure StoreID where
  text : Bytes
  wellFormed : Api.storeIDPattern text = true

/-! ### PageBroker -/
namespace PageBroker

/-- `continuation` of the decoding loop. -/
def continuation (code : UInt8) : ℕ := if code < 0xC0 then 0 else if code < 0xE0 then 1 else if code < 0xF0 then 2 else 3

/-- The values that `point` takes at the check, for a string that is read after so many missing
continuation bytes. The loop reads on without a look at the length: it only runs on valid text. -/
def pointsFrom : ℕ → ℕ → Bytes → List ℕ
  | _, _, [] => []
  | 1, point, b :: s => ((point <<< 6) ||| (b.toNat &&& 0x3F)) :: pointsFrom 0 0 s
  | k + 2, point, b :: s => pointsFrom (k + 1) ((point <<< 6) ||| (b.toNat &&& 0x3F)) s
  | 0, _, code :: s =>
    match continuation code with
    | 0 => code.toNat :: pointsFrom 0 0 s
    | k + 1 => pointsFrom (k + 1) (code.toNat &&& (0x7F >>> (k + 2))) s

def excluded (point : ℕ) : Bool :=
  point ≤ 0x20 || (point ≥ 0x7F && point ≤ 0xA0) || point == 0x1680 ||
    (point ≥ 0x2000 && point ≤ 0x200A) || point == 0x2028 || point == 0x2029 ||
    point == 0x202F || point == 0x205F || point == 0x3000

def kMaxArtifactUidBytes : ℕ := 256

def kMaxContainerNameBytes : ℕ := 63

/-- The exception's text is the error. -/
def validateArtifactIdentity (uid container : Bytes) : Except String Unit :=
  if uid == [] || uid.length > kMaxArtifactUidBytes || uid == dot || uid == dotdot
      || uid.any (fun b => b == sep || b == backslash) then
    .error "invalid artifact UID"
  else if !Utf8.valid uid then .error "invalid artifact UID"
  else if (pointsFrom 0 0 uid).any excluded then .error "invalid artifact UID"
  else if container == [] || container.length > kMaxContainerNameBytes || !container.head?.any lowerAlnum
      || !container.getLast?.any lowerAlnum || !container.all (fun c => lowerAlnum c || c == hyphen) then
    .error "invalid artifact container name"
  else .ok ()

def kArtifactsPrefix : Bytes := literal "artifacts/"

def kContainersComponent : Bytes := literal "/containers/"

/-- The two parts that a handle is taken apart into. -/
def splitHandle (handle : Bytes) : Option (Bytes × Bytes) :=
  if kArtifactsPrefix.isPrefixOf handle then
    ByteText.cut kContainersComponent (handle.drop kArtifactsPrefix.length)
  else none

def validateArtifactHandle (handle : Bytes) : Except String Unit :=
  match splitHandle handle with
  | none => .error "invalid S3 artifact handle"
  | some (uid, container) => validateArtifactIdentity uid container

def artifactHandle (uid container : Bytes) : Bytes := kArtifactsPrefix ++ uid ++ kContainersComponent ++ container

end PageBroker

/-! ### The decoding loop reads code points -/

theorem continuation_of_utf8 {b : UInt8} {s : Bytes} {k : ℕ} (h : Utf8.continuation b s = some k) :
    PageBroker.continuation b = k := by
  simp only [PageBroker.continuation, UInt8.lt_iff_toNat_lt, UInt8.reduceToNat]
  rcases Utf8.lead_of_continuation h with ⟨rfl, hb⟩ | ⟨rfl, hb⟩ | ⟨rfl, hb⟩ | ⟨rfl, hb⟩
  · rw [if_pos (by omega)]
  · rw [if_neg (by omega), if_pos (by omega)]
  · rw [if_neg (by omega), if_neg (by omega), if_pos (by omega)]
  · rw [if_neg (by omega), if_neg (by omega), if_neg (by omega)]

theorem lead_eq {b : UInt8} {s : Bytes} {k : ℕ} (h : Utf8.continuation b s = some (k + 1)) :
    b.toNat &&& (0x7F >>> (k + 2)) = Utf8.lead b (k + 1) := by
  have hk : k = 0 ∨ k = 1 ∨ k = 2 := by
    rcases Utf8.lead_of_continuation h with h | h | h | h <;> omega
  rcases hk with rfl | rfl | rfl
  · exact Nat.and_two_pow_sub_one_eq_mod b.toNat 5
  · exact Nat.and_two_pow_sub_one_eq_mod b.toNat 4
  · exact Nat.and_two_pow_sub_one_eq_mod b.toNat 3

theorem extend_eq (point : ℕ) (b : UInt8) : (point <<< 6) ||| (b.toNat &&& 0x3F) = Utf8.extend point b := by
  have hlow : b.toNat &&& 0x3F = b.toNat % 0x40 := Nat.and_two_pow_sub_one_eq_mod b.toNat 6
  rw [hlow, ← Nat.shiftLeft_add_eq_or_of_lt (Nat.mod_lt _ (by decide)), Nat.shiftLeft_eq]
  rfl

theorem pointsFrom_eq {k point : ℕ} {s : Bytes} {rs : List ℕ} (h : Utf8.runesFrom k point s = some rs) :
    PageBroker.pointsFrom k point s = rs := by
  induction s generalizing k point rs with
  | nil =>
    cases k with
    | zero =>
      cases h
      rfl
    | succ k => cases h
  | cons b s ih =>
    rcases k with _ | _ | k
    · rw [Utf8.runesFrom] at h
      rw [PageBroker.pointsFrom]
      rcases hcont : Utf8.continuation b s with _ | _ | k
      · simp [hcont] at h
      · simp only [hcont] at h
        obtain ⟨ts, hts, rfl⟩ := Option.map_eq_some_iff.1 h
        simp only [continuation_of_utf8 hcont, ih hts]
        rfl
      · simp only [hcont] at h
        simp only [continuation_of_utf8 hcont, lead_eq hcont]
        exact ih h
    · obtain ⟨ts, hts, rfl⟩ := Option.map_eq_some_iff.1 h
      rw [PageBroker.pointsFrom, ih hts, extend_eq]
    · rw [PageBroker.pointsFrom, extend_eq]
      exact ih h

theorem excluded_eq (r : ℕ) : PageBroker.excluded r = (Utf8.isSpace r || Utf8.isControl r) := by
  rw [Bool.eq_iff_iff]
  simp only [PageBroker.excluded, Utf8.isSpace, Utf8.isControl, Bool.or_eq_true, Bool.and_eq_true,
    decide_eq_true_eq, beq_iff_eq, ge_iff_le]
  omega

/-! ### Accepted identities -/

/-- What both checks ask of an artifact UID. -/
structure OpaqueUID (uid : Bytes) : Prop where
  nonempty : uid ≠ []
  bounded : uid.length ≤ 256
  unseparated : sep ∉ uid
  unescaped : backslash ∉ uid
  text : ∃ rs, Utf8.runes uid = some rs ∧ ∀ r ∈ rs, Utf8.isSpace r = false ∧ Utf8.isControl r = false

/-- A label of at most 63 bytes. -/
def Label (s : Bytes) : Prop := Api.isDNS1123Label s = []

instance (s : Bytes) : Decidable (Label s) := inferInstanceAs (Decidable (_ = _))

theorem label_iff {s : Bytes} : Label s ↔ s.length ≤ 63 ∧ Api.dns1123LabelPattern s = true := by
  rw [Label, Api.isDNS1123Label, List.append_eq_nil_iff]
  constructor
  · rintro ⟨hlen, hpat⟩
    constructor
    · by_contra h
      rw [if_pos (by omega)] at hlen
      cases hlen
    · by_contra h
      rw [if_neg h] at hpat
      cases hpat
  · rintro ⟨hlen, hpat⟩
    exact ⟨if_neg (by omega), if_pos hpat⟩

/-- The expression and the loop over the characters describe the same strings. -/
theorem dns1123LabelPattern_iff {s : Bytes} : Api.dns1123LabelPattern s = true
    ↔ s.head?.any lowerAlnum = true ∧ s.getLast?.any lowerAlnum = true ∧ ∀ c ∈ s, (lowerAlnum c || c == hyphen) = true := by
  cases s with
  | nil => simp [Api.dns1123LabelPattern]
  | cons b s =>
    rcases List.eq_nil_or_concat s with rfl | ⟨t, z, rfl⟩
    · simp only [Api.dns1123LabelPattern, List.isEmpty_nil, Bool.true_or, Bool.and_true, List.head?_cons,
        List.getLast?_singleton, Option.any_some, List.mem_singleton, forall_eq]
      constructor
      · intro h
        exact ⟨h, h, by rw [h, Bool.true_or]⟩
      · exact fun h => h.1
    · have hlast : (b :: (t ++ [z])).getLast? = some z := by
        rw [← List.cons_append, List.getLast?_concat]
      simp only [Api.dns1123LabelPattern, List.concat_eq_append, hlast, List.dropLast_concat, List.getLast?_concat,
        List.head?_cons, Option.any_some, Bool.and_eq_true, Bool.or_eq_true, List.all_eq_true, List.mem_cons,
        List.mem_append, List.not_mem_nil, or_false]
      constructor
      · rintro ⟨hb, hempty | ⟨ht, hz⟩⟩
        · simp at hempty
        · refine ⟨hb, hz, ?_⟩
          rintro c (rfl | hc | rfl)
          · exact .inl hb
          · exact (ht c hc).symm
          · exact .inl hz
      · rintro ⟨hb, hz, hall⟩
        exact ⟨hb, .inr ⟨fun c hc => (hall c (.inr (.inl hc))).symm, hz⟩⟩

theorem any_separator_eq_false {uid : Bytes} :
    uid.any (fun b => b == sep || b == backslash) = false ↔ sep ∉ uid ∧ backslash ∉ uid := by
  simp only [List.any_eq_false, Bool.or_eq_true, beq_iff_eq, not_or]
  constructor
  · intro h
    exact ⟨fun hmem => (h _ hmem).1 rfl, fun hmem => (h _ hmem).2 rfl⟩
  · rintro ⟨hsep, hback⟩ b hb
    exact ⟨fun h => hsep (h ▸ hb), fun h => hback (h ▸ hb)⟩

theorem api_uid_iff {uid : Bytes} :
    (uid == [] || uid.length > 256 || !Utf8.valid uid || uid.any (fun b => b == sep || b == backslash)
      || (Utf8.runes uid).any (·.any fun r => Utf8.isSpace r || Utf8.isControl r)) = false ↔ OpaqueUID uid := by
  simp only [Bool.or_eq_false_iff, any_separator_eq_false, Utf8.valid, beq_eq_false_iff_ne, decide_eq_false_iff_not,
    gt_iff_lt, not_lt, Bool.not_eq_false']
  constructor
  · rintro ⟨⟨⟨⟨hne, hlen⟩, hvalid⟩, hsep, hback⟩, hall⟩
    refine ⟨hne, hlen, hsep, hback, ?_⟩
    obtain ⟨rs, hrunes⟩ := Option.isSome_iff_exists.1 hvalid
    refine ⟨rs, hrunes, fun r hr => ?_⟩
    rw [hrunes, Option.any_some, List.any_eq_false] at hall
    simpa using hall r hr
  · rintro ⟨hne, hlen, hsep, hback, rs, hrunes, hall⟩
    refine ⟨⟨⟨⟨hne, hlen⟩, by simp [hrunes]⟩, hsep, hback⟩, ?_⟩
    rw [hrunes, Option.any_some, List.any_eq_false]
    intro r hr
    simp [hall r hr]

theorem api_accepts_iff {storeID uid container : Bytes} :
    Api.validateArtifactIdentity storeID uid container = .ok ()
      ↔ Api.storeIDPattern storeID = true ∧ OpaqueUID uid ∧ Label container := by
  simp only [Api.validateArtifactIdentity, CheckedFold.guard_eq_ok, Bool.not_eq_true, api_uid_iff, Label,
    Bool.not_eq_false', and_true, ne_eq, not_not]

/-- PageBroker refuses two more names: those that a path would not keep. -/
theorem broker_accepts_iff {uid container : Bytes} :
    PageBroker.validateArtifactIdentity uid container = .ok ()
      ↔ OpaqueUID uid ∧ uid ≠ dot ∧ uid ≠ dotdot ∧ Label container := by
  simp only [PageBroker.validateArtifactIdentity, CheckedFold.guard_eq_ok, Bool.not_eq_true, Bool.or_eq_false_iff,
    any_separator_eq_false, beq_eq_false_iff_ne, decide_eq_false_iff_not, gt_iff_lt, not_lt, Bool.not_eq_false',
    List.all_eq_true, PageBroker.kMaxArtifactUidBytes, PageBroker.kMaxContainerNameBytes, label_iff,
    dns1123LabelPattern_iff]
  constructor
  · rintro ⟨⟨⟨⟨⟨hne, hlen⟩, hdot⟩, hdotdot⟩, hsep, hback⟩, hvalid, hpoints, ⟨⟨⟨⟨-, hclen⟩, hhead⟩, hlast⟩, hall⟩, -⟩
    refine ⟨⟨hne, hlen, hsep, hback, ?_⟩, hdot, hdotdot, hclen, hhead, hlast, hall⟩
    obtain ⟨rs, hrunes⟩ := Option.isSome_iff_exists.1 hvalid
    refine ⟨rs, hrunes, fun r hr => ?_⟩
    rw [pointsFrom_eq hrunes, List.any_eq_false] at hpoints
    simpa [excluded_eq] using hpoints r hr
  · rintro ⟨⟨hne, hlen, hsep, hback, rs, hrunes, hall⟩, hdot, hdotdot, hclen, hhead, hlast, hchars⟩
    have hcne : container ≠ [] := by
      rintro rfl
      simp at hhead
    have hpoints : (PageBroker.pointsFrom 0 0 uid).any PageBroker.excluded = false := by
      rw [pointsFrom_eq hrunes, List.any_eq_false]
      intro r hr
      simp [excluded_eq, hall r hr]
    have hvalid : Utf8.valid uid = true := Option.isSome_iff_exists.2 ⟨rs, hrunes⟩
    exact ⟨⟨⟨⟨⟨hne, hlen⟩, hdot⟩, hdotdot⟩, hsep, hback⟩, hvalid, hpoints, ⟨⟨⟨⟨hcne, hclen⟩, hhead⟩, hlast⟩, hchars⟩, trivial⟩

end StorageIdentity
