import Mathlib.Algebra.Order.Group.Nat
import Snapshot.CheckpointInventory

/-! # The published index of a checkpoint

An inventory is published as a JSON document. Writer and reader have limits of their own: the writer
bounds the inventory and the text, the reader bounds the text, the nesting and the number of parser
events, and checks each field. The JSON library stands for itself: its documents keep the members in the
order of the text, and what is assumed of it is stated in `JsonLibrary`. -/
namespace Checkpoint

open LexicalPath (Bytes)
open ByteText (literal)
open CheckedFold

/-! ## Documents -/

/-- A JSON document; `other` is null, a boolean, a negative number or a number with a fraction. -/
inductive Json where
  | other (text : Bytes)
  | unsigned (n : ℕ)
  | string (s : Bytes)
  | array (values : List Json)
  | object (members : List (Bytes × Json))

namespace Json

mutual
/-- Every value of a document with the number of containers around it. -/
def nodes (depth : ℕ) : Json → List (ℕ × Json)
  | .array values => (depth, .array values) :: nodesOfValues (depth + 1) values
  | .object members => (depth, .object members) :: nodesOfMembers (depth + 1) members
  | v => [(depth, v)]

def nodesOfValues (depth : ℕ) : List Json → List (ℕ × Json)
  | [] => []
  | v :: values => v.nodes depth ++ nodesOfValues depth values

def nodesOfMembers (depth : ℕ) : List (Bytes × Json) → List (ℕ × Json)
  | [] => []
  | m :: members => m.2.nodes depth ++ nodesOfMembers depth members
end

/-- The parser's events at a value: its start and end, or itself, and its keys. -/
def events : Json → ℕ
  | .array _ => 2
  | .object members => 2 + members.length
  | _ => 1

def distinctKeys : Json → Bool
  | .object members => (members.map Prod.fst).Nodup
  | _ => true

def isOther : Json → Bool
  | .other _ => true
  | _ => false

def texts : Json → List Bytes
  | .string s => [s]
  | .object members => members.map Prod.fst
  | _ => []

@[simp] theorem distinctKeys_unsigned (n : ℕ) : (unsigned n).distinctKeys = true := rfl

@[simp] theorem distinctKeys_string (s : Bytes) : (string s).distinctKeys = true := rfl

@[simp] theorem distinctKeys_array (values : List Json) : (array values).distinctKeys = true := rfl

@[simp] theorem texts_unsigned (n : ℕ) : (unsigned n).texts = [] := rfl

@[simp] theorem texts_string (s : Bytes) : (string s).texts = [s] := rfl

@[simp] theorem texts_array (values : List Json) : (array values).texts = [] := rfl

/-- Every string and key is valid UTF-8. -/
def utf8 (v : Json) : Bool := (v.nodes 0).all fun node => node.2.texts.all Utf8.valid

def string? : Json → Option Bytes
  | .string s => some s
  | _ => none

def array? : Json → Option (List Json)
  | .array values => some values
  | _ => none

/-- Documents that differ in the order of the members of objects. -/
inductive Same : Json → Json → Prop
  | refl (v : Json) : Same v v
  | array {vs ws : List Json} (h : List.Forall₂ Same vs ws) : Same (.array vs) (.array ws)
  | object {ms ms' ns : List (Bytes × Json)} (hperm : ms.Perm ms') (hkeys : ms'.map Prod.fst = ns.map Prod.fst)
      (h : List.Forall₂ Same (ms'.map Prod.snd) (ns.map Prod.snd)) : Same (.object ms) (.object ns)

end Json

/-- The JSON library over texts of some type. It writes what it can read, it writes every document whose
strings are UTF-8, and it writes strings and unsigned numbers at no more length than they can be read
from (a floating-point number it may write longer). -/
structure JsonLibrary (Text : Type) where
  size : Text → ℕ
  parse : Text → Option Json
  dump : Json → Option Text
  parse_dump : ∀ {v text}, dump v = some text → parse text = some v
  dump_isSome : ∀ v, (dump v).isSome = v.utf8
  size_pos : ∀ {text v}, parse text = some v → 0 < size text
  dump_shortest : ∀ {text v v' text'}, parse text = some v → v.Same v' →
    (∀ node ∈ v'.nodes 0, node.2.isOther = false) → dump v' = some text' → size text' ≤ size text

/-! ## Reader and writer -/

def kMaxJsonDepth : ℕ := 12

def kMaxJsonParseEvents : ℕ := 160128

def withinLimits (v : Json) : Bool :=
  (v.nodes 0).all (fun node => node.1 ≤ kMaxJsonDepth && node.2.distinctKeys) &&
    ((v.nodes 0).map fun node => node.2.events).sum ≤ kMaxJsonParseEvents

def formatKey : Bytes := literal "format"

def rootModeKey : Bytes := literal "rootMode"

def directoriesKey : Bytes := literal "directories"

def filesKey : Bytes := literal "files"

def pathKey : Bytes := literal "path"

def modeKey : Bytes := literal "mode"

def sizeKey : Bytes := literal "size"

def kCheckpointFormat : Bytes := literal "snapshot.s3-checkpoint/v1"

/-- The codes of the protocol's failures. -/
def artifactCorrupt : ℕ := 24

def unsupportedArtifact : ℕ := 25

/-- What is thrown while an index is read. -/
inductive Raised where
  | checkpointError (code : ℕ)
  | other
  deriving DecidableEq, Repr

def orRaise {α : Type} (x : Option α) : Except Raised α := x.elim (.error .other) .ok

/-- The members of an object that has exactly the given fields. -/
def fields (v : Json) (names : List Bytes) : Option (List (Bytes × Json)) :=
  match v with
  | .object members =>
    if members.length = names.length ∧ ∀ name ∈ names, name ∈ members.map Prod.fst then some members else none
  | _ => none

def unsigned (maximum : ℕ) : Json → Option ℕ
  | .unsigned n => if n ≤ maximum then some n else none
  | _ => none

def readDirectory (v : Json) : Option CheckpointDirectory := do
  let members ← fields v [pathKey, modeKey]
  let path ← (members.lookup pathKey).bind Json.string?
  let mode ← (members.lookup modeKey).bind (unsigned maxMode)
  return ⟨path, mode⟩

def readFile (v : Json) : Option CheckpointFile := do
  let members ← fields v [pathKey, modeKey, sizeKey]
  let path ← (members.lookup pathKey).bind Json.string?
  let size ← (members.lookup sizeKey).bind (unsigned kMaxCheckpointBytes)
  let mode ← (members.lookup modeKey).bind (unsigned maxMode)
  return ⟨[], path, size, mode⟩

def readIndex (value : Json) : Except Raised CheckpointInventory := do
  let members ← orRaise (fields value [formatKey, rootModeKey, directoriesKey, filesKey])
  let format ← orRaise ((members.lookup formatKey).bind Json.string?)
  if format ≠ kCheckpointFormat then .error (.checkpointError unsupportedArtifact)
  else do
    let rootMode ← orRaise ((members.lookup rootModeKey).bind (unsigned maxMode))
    let directories ← orRaise ((members.lookup directoriesKey).bind Json.array?)
    let files ← orRaise ((members.lookup filesKey).bind Json.array?)
    if directories.length + files.length > kMaxCheckpointEntries then .error .other
    else do
      let directories ← orRaise (directories.mapM readDirectory)
      let files ← orRaise (files.mapM readFile)
      let _ ← (validateCheckpointInventory ⟨rootMode, directories, files⟩).mapError fun _ => Raised.other
      return ⟨rootMode, directories, files⟩

def directoryDocument (d : CheckpointDirectory) : Json :=
  .object [(modeKey, .unsigned d.permissions), (pathKey, .string d.relativePath)]

def fileDocument (f : CheckpointFile) : Json :=
  .object [(modeKey, .unsigned f.permissions), (pathKey, .string f.relativePath), (sizeKey, .unsigned f.sizeBytes)]

/-- The members of an object are kept in the order of their keys. -/
def document (inventory : CheckpointInventory) : Json :=
  .object [(directoriesKey, .array (inventory.directories.map directoryDocument)),
    (filesKey, .array (inventory.files.map fileDocument)), (formatKey, .string kCheckpointFormat),
    (rootModeKey, .unsigned inventory.rootPermissions)]

section Library

variable {Text : Type} (lib : JsonLibrary Text)

def parseJson (text : Text) (limit : ℕ) : Option Json :=
  if lib.size text = 0 ∨ lib.size text > limit then none else (lib.parse text).filter withinLimits

def parseCheckpointIndex (text : Text) : Except ℕ CheckpointInventory :=
  match orRaise (parseJson lib text kMaxIndexBytes) >>= readIndex with
  | .ok inventory => .ok inventory
  | .error (.checkpointError code) => .error code
  | .error .other => .error artifactCorrupt

def serializeCheckpointIndex (inventory : CheckpointInventory) : Except String Text := do
  let _ ← validateCheckpointInventory inventory
  match lib.dump (document inventory) with
  | none => .error "invalid UTF-8"
  | some text => if lib.size text > kMaxIndexBytes then .error "checkpoint index exceeds size limit" else .ok text

end Library

/-! ## The limits of the reader -/

theorem nodesOfValues_map {α : Type} (f : α → Json) (depth : ℕ) (l : List α) :
    Json.nodesOfValues depth (l.map f) = l.flatMap fun a => (f a).nodes depth := by
  induction l with
  | nil => rfl
  | cons a l ih => rw [List.map_cons, Json.nodesOfValues, ih, List.flatMap_cons]

@[simp] theorem distinctKeys_directoryDocument (d : CheckpointDirectory) : (directoryDocument d).distinctKeys = true :=
  rfl

@[simp] theorem distinctKeys_fileDocument (f : CheckpointFile) : (fileDocument f).distinctKeys = true := rfl

@[simp] theorem distinctKeys_document (inventory : CheckpointInventory) : (document inventory).distinctKeys = true := rfl

@[simp] theorem texts_directoryDocument (d : CheckpointDirectory) : (directoryDocument d).texts = [modeKey, pathKey] := rfl

@[simp] theorem texts_fileDocument (f : CheckpointFile) : (fileDocument f).texts = [modeKey, pathKey, sizeKey] := rfl

@[simp] theorem texts_document (inventory : CheckpointInventory) :
    (document inventory).texts = [directoriesKey, filesKey, formatKey, rootModeKey] := rfl

theorem nodes_directoryDocument (depth : ℕ) (d : CheckpointDirectory) :
    (directoryDocument d).nodes depth = [(depth, directoryDocument d), (depth + 1, .unsigned d.permissions),
      (depth + 1, .string d.relativePath)] := rfl

theorem nodes_fileDocument (depth : ℕ) (f : CheckpointFile) :
    (fileDocument f).nodes depth = [(depth, fileDocument f), (depth + 1, .unsigned f.permissions),
      (depth + 1, .string f.relativePath), (depth + 1, .unsigned f.sizeBytes)] := rfl

/-- The values of a published document. -/
theorem nodes_document (inventory : CheckpointInventory) :
    (document inventory).nodes 0 = (0, document inventory) ::
      (1, .array (inventory.directories.map directoryDocument)) ::
        ((inventory.directories.flatMap fun d => (directoryDocument d).nodes 2) ++
          (1, .array (inventory.files.map fileDocument)) ::
            ((inventory.files.flatMap fun f => (fileDocument f).nodes 2) ++
              [(1, .string kCheckpointFormat), (1, .unsigned inventory.rootPermissions)])) := by
  simp [document, Json.nodes, Json.nodesOfMembers, nodesOfValues_map]

theorem sum_events_flatMap {α : Type} {f : α → List (ℕ × Json)} {n : ℕ} {l : List α}
    (h : ∀ a, ((f a).map fun node => node.2.events).sum = n) :
    ((l.flatMap f).map fun node => node.2.events).sum = n * l.length := by
  induction l with
  | nil => simp
  | cons a l ih =>
    rw [List.flatMap_cons, List.map_append, List.sum_append, h, ih, List.length_cons, Nat.mul_succ, Nat.add_comm]

/-- An accepted inventory gives a document within the limits of the parser. -/
theorem withinLimits_document {inventory : CheckpointInventory}
    (h : inventory.files.length + inventory.directories.length ≤ kMaxCheckpointEntries) :
    withinLimits (document inventory) = true := by
  rw [withinLimits, nodes_document, Bool.and_eq_true]
  constructor
  · simp [nodes_directoryDocument, nodes_fileDocument, kMaxJsonDepth]
  · have hcount : kMaxCheckpointEntries = 10000 := rfl
    have hlimit : kMaxJsonParseEvents = 160128 := rfl
    simp only [List.map_cons, List.sum_cons, List.map_append, List.sum_append,
      sum_events_flatMap (n := 6) (f := fun d => (directoryDocument d).nodes 2) (fun _ => rfl),
      sum_events_flatMap (n := 8) (f := fun f => (fileDocument f).nodes 2) (fun _ => rfl)]
    simp only [document, Json.events, List.length_cons, List.length_nil, List.map_nil, List.sum_nil, decide_eq_true_eq]
    omega

theorem utf8_document {inventory : CheckpointInventory} :
    (document inventory).utf8 = true ↔ (∀ d ∈ inventory.directories, Utf8.valid d.relativePath = true) ∧
      ∀ f ∈ inventory.files, Utf8.valid f.relativePath = true := by
  have hkeys : ∀ key ∈ [directoriesKey, filesKey, formatKey, rootModeKey, modeKey, pathKey, sizeKey, kCheckpointFormat],
      Utf8.valid key = true := by decide +kernel
  simp only [List.forall_mem_cons] at hkeys
  rw [Json.utf8, nodes_document]
  simp [nodes_directoryDocument, nodes_fileDocument, hkeys]

/-! ## What the reader takes from a document -/

theorem orRaise_eq_ok {α : Type} {x : Option α} {a : α} : orRaise x = .ok a ↔ x = some a := by
  cases x <;> simp [orRaise]

theorem fields_eq_some {v : Json} {names : List Bytes} {members : List (Bytes × Json)} :
    fields v names = some members ↔ v = .object members ∧ members.length = names.length ∧
      ∀ name ∈ names, name ∈ members.map Prod.fst := by
  cases v with
  | object ms =>
    simp only [fields, Option.ite_none_right_eq_some, Option.some.injEq, Json.object.injEq]
    constructor
    · rintro ⟨h, rfl⟩
      exact ⟨rfl, h⟩
    · rintro ⟨rfl, h⟩
      exact ⟨h, rfl⟩
  | _ => simp [fields]

theorem lookup_eq_some_of_mem {members : List (Bytes × Json)} (h : (members.map Prod.fst).Nodup) {k : Bytes} {v : Json} :
    members.lookup k = some v ↔ (k, v) ∈ members := by
  rw [List.lookup_eq_some_iff]
  constructor
  · intro ⟨l₁, l₂, heq, _⟩
    rw [heq]
    simp
  · intro hmem
    obtain ⟨l₁, l₂, heq⟩ := List.append_of_mem hmem
    refine ⟨l₁, l₂, heq, fun p hp => ?_⟩
    rw [heq, List.map_append, List.map_cons, List.nodup_append] at h
    have hne := h.2.2 p.1 (List.mem_map_of_mem hp) k List.mem_cons_self
    simpa using Ne.symm hne

/-- An object with exactly the given fields is the list of their values, in some order. -/
theorem perm_of_fields {members : List (Bytes × Json)} {names : List Bytes} {value : Bytes → Json}
    (hlength : members.length = names.length) (hnames : ∀ name ∈ names, name ∈ members.map Prod.fst)
    (hdistinct : (members.map Prod.fst).Nodup) (hnodup : names.Nodup)
    (hvalue : ∀ name ∈ names, members.lookup name = some (value name)) :
    members.Perm (names.map fun name => (name, value name)) := by
  have hkeys : names.Perm (members.map Prod.fst) := by
    apply (List.subperm_of_subset hnodup hnames).perm_of_length_le
    rw [List.length_map, hlength]
  rw [List.perm_ext_iff_of_nodup (List.Nodup.of_map _ hdistinct)
    (hnodup.map fun a b hab => congrArg Prod.fst hab)]
  intro p
  rw [List.mem_map]
  constructor
  · intro hp
    have hname : p.1 ∈ names := hkeys.mem_iff.2 (List.mem_map_of_mem hp)
    have hlookup := (lookup_eq_some_of_mem hdistinct).2 (show (p.1, p.2) ∈ members from hp)
    rw [hvalue p.1 hname, Option.some.injEq] at hlookup
    exact ⟨p.1, hname, by rw [hlookup]⟩
  · intro ⟨name, hname, heq⟩
    rw [← heq]
    exact (lookup_eq_some_of_mem hdistinct).1 (hvalue name hname)

theorem Json.Same.of_perm {members members' : List (Bytes × Json)} (h : members.Perm members') :
    Json.Same (.object members) (.object members') :=
  .object h rfl (List.forall₂_same.2 fun v _ => .refl v)

theorem unsigned_eq_some {maximum n : ℕ} {v : Json} : unsigned maximum v = some n ↔ v = .unsigned n ∧ n ≤ maximum := by
  cases v with
  | unsigned m =>
    simp only [unsigned, Option.ite_none_right_eq_some, Option.some.injEq, Json.unsigned.injEq]
    constructor
    · rintro ⟨h, rfl⟩
      exact ⟨rfl, h⟩
    · rintro ⟨rfl, h⟩
      exact ⟨h, rfl⟩
  | _ => simp [unsigned]

theorem string?_eq_some {v : Json} {s : Bytes} : v.string? = some s ↔ v = .string s := by
  cases v <;> simp [Json.string?]

theorem array?_eq_some {v : Json} {values : List Json} : v.array? = some values ↔ v = .array values := by
  cases v <;> simp [Json.array?]

/-- The value of a member, for members that are there. -/
def valueOf (members : List (Bytes × Json)) (name : Bytes) : Json := (members.lookup name).getD (.other [])

theorem valueOf_eq {members : List (Bytes × Json)} {name : Bytes} {v : Json} (h : members.lookup name = some v) :
    valueOf members name = v := by
  rw [valueOf, h, Option.getD_some]

/-- The members of an object with exactly the given fields, in the order of the fields. -/
theorem perm_valueOf {members : List (Bytes × Json)} (names : List Bytes) (hlength : members.length = names.length)
    (hnames : ∀ name ∈ names, name ∈ members.map Prod.fst) (hdistinct : (members.map Prod.fst).Nodup)
    (hnodup : names.Nodup) : members.Perm (names.map fun name => (name, valueOf members name)) := by
  refine perm_of_fields hlength hnames hdistinct hnodup fun name hname => ?_
  obtain ⟨p, hp, rfl⟩ := List.mem_map.1 (hnames name hname)
  rw [valueOf, (lookup_eq_some_of_mem hdistinct).2 hp, Option.getD_some]

theorem same_of_readDirectory {v : Json} {d : CheckpointDirectory} (hdistinct : v.distinctKeys = true)
    (h : readDirectory v = some d) : v.Same (directoryDocument d) := by
  simp only [readDirectory, Option.bind_eq_bind, Option.bind_eq_some_iff, unsigned_eq_some, string?_eq_some] at h
  obtain ⟨members, hfields, path, ⟨_, hpath, rfl⟩, mode, ⟨_, hmode, rfl, -⟩, hd⟩ := h
  cases hd
  obtain ⟨rfl, hlength, hnames⟩ := fields_eq_some.1 hfields
  have hperm : members.Perm [(modeKey, valueOf members modeKey), (pathKey, valueOf members pathKey)] :=
    perm_valueOf [modeKey, pathKey] (by simpa using hlength) (by simpa [and_comm] using hnames)
      (of_decide_eq_true hdistinct) (by decide)
  rw [valueOf_eq hmode, valueOf_eq hpath] at hperm
  exact .of_perm hperm

theorem same_of_readFile {v : Json} {f : CheckpointFile} (hdistinct : v.distinctKeys = true)
    (h : readFile v = some f) : v.Same (fileDocument f) ∧ f.sourceLocator = [] := by
  simp only [readFile, Option.bind_eq_bind, Option.bind_eq_some_iff, unsigned_eq_some, string?_eq_some] at h
  obtain ⟨members, hfields, path, ⟨_, hpath, rfl⟩, size, ⟨_, hsize, rfl, -⟩, mode, ⟨_, hmode, rfl, -⟩, hf⟩ := h
  cases hf
  obtain ⟨rfl, hlength, hnames⟩ := fields_eq_some.1 hfields
  have hperm : members.Perm [(modeKey, valueOf members modeKey), (pathKey, valueOf members pathKey),
      (sizeKey, valueOf members sizeKey)] :=
    perm_valueOf [modeKey, pathKey, sizeKey] (by simpa using hlength)
      (by simpa [and_comm, and_left_comm] using hnames) (of_decide_eq_true hdistinct) (by decide)
  rw [valueOf_eq hmode, valueOf_eq hpath, valueOf_eq hsize] at hperm
  exact ⟨.of_perm hperm, rfl⟩

/-! ### The objects inside a document -/

theorem self_mem_nodes (depth : ℕ) (v : Json) : (depth, v) ∈ v.nodes depth := by
  cases v <;> simp [Json.nodes]

theorem mem_nodesOfValues {depth : ℕ} {values : List Json} {v : Json} (h : v ∈ values) {node : ℕ × Json}
    (hnode : node ∈ v.nodes depth) : node ∈ Json.nodesOfValues depth values := by
  induction values with
  | nil => cases h
  | cons w values ih =>
    rw [Json.nodesOfValues]
    rcases List.mem_cons.1 h with rfl | h
    · exact List.mem_append_left _ hnode
    · exact List.mem_append_right _ (ih h)

theorem mem_nodesOfMembers {depth : ℕ} {members : List (Bytes × Json)} {m : Bytes × Json} (h : m ∈ members)
    {node : ℕ × Json} (hnode : node ∈ m.2.nodes depth) : node ∈ Json.nodesOfMembers depth members := by
  induction members with
  | nil => cases h
  | cons n members ih =>
    rw [Json.nodesOfMembers]
    rcases List.mem_cons.1 h with rfl | h
    · exact List.mem_append_left _ hnode
    · exact List.mem_append_right _ (ih h)

/-- The objects in an array that is a member of a document have distinct keys too. -/
theorem distinctKeys_of_withinLimits {members : List (Bytes × Json)} (h : withinLimits (.object members) = true) :
    (members.map Prod.fst).Nodup ∧ ∀ k values, (k, Json.array values) ∈ members → ∀ v ∈ values, v.distinctKeys = true := by
  rw [withinLimits, Bool.and_eq_true, List.all_eq_true] at h
  have hall : ∀ node ∈ (Json.object members).nodes 0, node.2.distinctKeys = true := by
    intro node hnode
    have hnode := h.1 node hnode
    rw [Bool.and_eq_true] at hnode
    exact hnode.2
  refine ⟨of_decide_eq_true (hall _ (self_mem_nodes 0 _)), fun k values hmem v hv => ?_⟩
  apply hall (2, v)
  rw [Json.nodes]
  refine List.mem_cons_of_mem _ (mem_nodesOfMembers hmem ?_)
  rw [Json.nodes]
  exact List.mem_cons_of_mem _ (mem_nodesOfValues hv (self_mem_nodes 2 v))

/-! ## Round trips -/

/-- The inventory as the index holds it. -/
def CheckpointInventory.published (inventory : CheckpointInventory) : CheckpointInventory :=
  { inventory with files := inventory.files.map fun f => { f with sourceLocator := [] } }

theorem validate_published (inventory : CheckpointInventory) :
    validateCheckpointInventory inventory.published = validateCheckpointInventory inventory := by
  have hfile : ∀ seen (f : CheckpointFile), addFile seen { f with sourceLocator := [] } = addFile seen f := fun _ _ => rfl
  have hfiles : ∀ seen, inventory.published.files.foldlM addFile seen = inventory.files.foldlM addFile seen := by
    intro seen
    rw [CheckpointInventory.published, List.foldlM_map]
    exact congrArg (fun step => inventory.files.foldlM step seen) (funext fun s => funext (hfile s))
  have hpaths : inventory.published.files.map (·.relativePath) = inventory.files.map (·.relativePath) := by
    simp [CheckpointInventory.published]
  have hlength : inventory.published.files.length = inventory.files.length := by
    simp [CheckpointInventory.published]
  simp only [validateCheckpointInventory, hasValidInventoryLimits, checkpointEntriesAreOrdered, hfiles, hpaths, hlength]
  rfl

theorem readDirectory_document {d : CheckpointDirectory} (h : d.permissions ≤ maxMode) :
    readDirectory (directoryDocument d) = some d := by
  have hmode : unsigned maxMode (.unsigned d.permissions) = some d.permissions := unsigned_eq_some.2 ⟨rfl, h⟩
  have hread : readDirectory (directoryDocument d) =
      (unsigned maxMode (.unsigned d.permissions)).bind fun mode => some ⟨d.relativePath, mode⟩ := rfl
  rw [hread, hmode]
  rfl

theorem readFile_document {f : CheckpointFile} (h : f.permissions ≤ maxMode) (hsize : f.sizeBytes ≤ kMaxCheckpointBytes) :
    readFile (fileDocument f) = some { f with sourceLocator := [] } := by
  have hread : readFile (fileDocument f) =
      (unsigned kMaxCheckpointBytes (.unsigned f.sizeBytes)).bind fun size =>
        (unsigned maxMode (.unsigned f.permissions)).bind fun mode => some ⟨[], f.relativePath, size, mode⟩ := rfl
  rw [hread, unsigned_eq_some.2 ⟨rfl, hsize⟩, unsigned_eq_some.2 ⟨rfl, h⟩]
  rfl

/-- The reader takes a published inventory from its document. -/
theorem readIndex_document {inventory : CheckpointInventory} (h : Accepted inventory) :
    readIndex (document inventory) = .ok inventory.published := by
  have hdirectories : (inventory.directories.map directoryDocument).mapM readDirectory = some inventory.directories := by
    rw [mapM_map_eq_some fun d hd => readDirectory_document (h.plainDirectories d hd).mode, List.map_id']
  have hfiles : (inventory.files.map fileDocument).mapM readFile = some inventory.published.files := by
    refine mapM_map_eq_some fun f hf => readFile_document (h.plainFiles f hf).mode ?_
    have hle : f.sizeBytes ≤ (inventory.files.map (·.sizeBytes)).sum :=
      List.le_sum_of_mem (List.mem_map_of_mem hf)
    exact hle.trans h.bytes
  have hroot : unsigned maxMode (.unsigned inventory.rootPermissions) = some inventory.rootPermissions :=
    unsigned_eq_some.2 ⟨rfl, h.rootMode⟩
  have hvalid : validateCheckpointInventory inventory.published = .ok (inventory.files.map (·.sizeBytes)).sum := by
    rw [validate_published]
    exact validateCheckpointInventory_eq_ok.2 ⟨h, rfl⟩
  have hcount : ¬ (inventory.directories.map directoryDocument).length + (inventory.files.map fileDocument).length >
      kMaxCheckpointEntries := by
    have hle := h.count
    simp only [List.length_map]
    omega
  have hread : readIndex (document inventory) = (do
      let rootMode ← orRaise (unsigned maxMode (.unsigned inventory.rootPermissions))
      if (inventory.directories.map directoryDocument).length + (inventory.files.map fileDocument).length >
          kMaxCheckpointEntries then .error .other
      else do
        let directories ← orRaise ((inventory.directories.map directoryDocument).mapM readDirectory)
        let files ← orRaise ((inventory.files.map fileDocument).mapM readFile)
        let _ ← (validateCheckpointInventory ⟨rootMode, directories, files⟩).mapError fun _ => Raised.other
        return ⟨rootMode, directories, files⟩) := rfl
  rw [hread, hroot, hdirectories, hfiles]
  refine bind_eq_ok.2 ⟨_, rfl, guard_eq_ok.2 ⟨hcount, bind_eq_ok.2 ⟨_, rfl, bind_eq_ok.2 ⟨_, rfl, ?_⟩⟩⟩⟩
  exact bind_eq_ok.2 ⟨_, mapError_eq_ok.2 hvalid, rfl⟩

/-- What the reader returns is accepted, has no locators, and its document is the one that was read up to
the order of members. -/
theorem of_readIndex {value : Json} {inventory : CheckpointInventory} (hlimits : withinLimits value = true)
    (h : readIndex value = .ok inventory) :
    (∃ bytes, validateCheckpointInventory inventory = .ok bytes) ∧ inventory.published = inventory ∧
      value.Same (document inventory) := by
  simp only [readIndex, bind_eq_ok, orRaise_eq_ok, guard_eq_ok, not_not, Option.bind_eq_some_iff, unsigned_eq_some,
    string?_eq_some, array?_eq_some, mapError_eq_ok] at h
  obtain ⟨members, hfields, format, ⟨_, hformat, rfl⟩, rfl, mode, ⟨_, hmode, rfl, -⟩, dvs, ⟨_, hdvs, rfl⟩,
    fvs, ⟨_, hfvs, rfl⟩, -, directories, hdirectories, files, hfiles, bytes, hvalid, heq⟩ := h
  cases heq
  obtain ⟨rfl, hlength, hnames⟩ := fields_eq_some.1 hfields
  obtain ⟨hdistinct, hinner⟩ := distinctKeys_of_withinLimits hlimits
  have hdirectory := ((List.forall₂_and_left _ _).2 ⟨hinner _ _ ((lookup_eq_some_of_mem hdistinct).1 hdvs),
    forall₂_of_mapM_eq_some hdirectories⟩).imp fun v d hread => same_of_readDirectory hread.1 hread.2
  have hfile := ((List.forall₂_and_left _ _).2 ⟨hinner _ _ ((lookup_eq_some_of_mem hdistinct).1 hfvs),
    forall₂_of_mapM_eq_some hfiles⟩).imp fun v f hread => same_of_readFile hread.1 hread.2
  refine ⟨⟨bytes, hvalid⟩, ?_, ?_⟩
  · have hlocators : ∀ f ∈ files, { f with sourceLocator := [] } = f := by
      intro f hf
      have hempty := ((List.forall₂_and_left files fvs).1 (.flip (hfile.imp fun _ _ h => h.symm))).1 f hf
      rw [← hempty]
    rw [CheckpointInventory.published, List.map_congr_left hlocators, List.map_id']
  · have hperm : members.Perm [(directoriesKey, valueOf members directoriesKey), (filesKey, valueOf members filesKey),
        (formatKey, valueOf members formatKey), (rootModeKey, valueOf members rootModeKey)] :=
      perm_valueOf [directoriesKey, filesKey, formatKey, rootModeKey] (by simpa using hlength)
        (by simpa [and_comm, and_left_comm, and_assoc] using hnames) hdistinct (by decide)
    rw [valueOf_eq hdvs, valueOf_eq hfvs, valueOf_eq hformat, valueOf_eq hmode] at hperm
    refine .object hperm rfl (.cons (.array ?_) (.cons (.array ?_) (.cons (.refl _) (.cons (.refl _) .nil))))
    · exact List.forall₂_map_right_iff.2 hdirectory
    · exact List.forall₂_map_right_iff.2 (hfile.imp fun _ _ h => h.1)

theorem isOther_document (inventory : CheckpointInventory) :
    ∀ node ∈ (document inventory).nodes 0, node.2.isOther = false := by
  have hunsigned : ∀ n, (Json.unsigned n).isOther = false := fun _ => rfl
  have hstring : ∀ s, (Json.string s).isOther = false := fun _ => rfl
  have harray : ∀ values, (Json.array values).isOther = false := fun _ => rfl
  have hobject : ∀ members, (Json.object members).isOther = false := fun _ => rfl
  simp only [nodes_document, nodes_directoryDocument, nodes_fileDocument, List.forall_mem_cons, List.forall_mem_append,
    List.forall_mem_flatMap]
  simp [document, directoryDocument, fileDocument, hunsigned, hstring, harray, hobject]

theorem orRaise_ne_checkpointError {α : Type} (x : Option α) (code : ℕ) : orRaise x ≠ .error (.checkpointError code) := by
  cases x <;> simp [orRaise]

theorem bind_eq_error {ε α β : Type} {x : Except ε α} {f : α → Except ε β} {e : ε} :
    x >>= f = .error e ↔ x = .error e ∨ ∃ a, x = .ok a ∧ f a = .error e := by
  cases x <;> simp [bind, Except.bind]

/-- A document of another format is the only one that is not corrupt. -/
theorem code_of_readIndex {value : Json} {code : ℕ} (h : readIndex value = .error (.checkpointError code)) :
    code = unsupportedArtifact := by
  have hraise : ∀ {α : Type} {x : Option α}, orRaise x = .error (.checkpointError code) ↔ False :=
    fun {_ x} => iff_false_intro (orRaise_ne_checkpointError x code)
  simp only [readIndex, bind_eq_error, hraise, false_or] at h
  obtain ⟨_, -, _, -, h⟩ := h
  split at h
  · cases h
    rfl
  · simp only [bind_eq_error, hraise, false_or] at h
    obtain ⟨_, -, _, -, _, -, h⟩ := h
    split at h
    · cases h
    · simp only [bind_eq_error, hraise, false_or] at h
      obtain ⟨_, -, _, -, h⟩ := h
      obtain h | ⟨_, -, h⟩ := h
      · cases hv : validateCheckpointInventory _ with
        | ok n =>
          rw [hv] at h
          cases h
        | error e =>
          rw [hv] at h
          cases h
      · cases h

section Library

variable {Text : Type} (lib : JsonLibrary Text)

theorem parseCheckpointIndex_eq_ok {text : Text} {inventory : CheckpointInventory} :
    parseCheckpointIndex lib text = .ok inventory ↔ ∃ value, lib.size text ≤ kMaxIndexBytes ∧
      lib.parse text = some value ∧ withinLimits value = true ∧ readIndex value = .ok inventory := by
  have hparse : ∀ value, parseJson lib text kMaxIndexBytes = some value ↔ lib.size text ≤ kMaxIndexBytes ∧
      lib.parse text = some value ∧ withinLimits value = true := by
    intro value
    rw [parseJson]
    have hpos : lib.parse text = some value → 0 < lib.size text := lib.size_pos
    split
    · rename_i hout
      simp only [reduceCtorEq, false_iff]
      intro ⟨hsize, hv, _⟩
      have := hpos hv
      omega
    · rename_i hin
      rw [Option.filter_eq_some_iff]
      constructor
      · intro h
        exact ⟨by omega, h⟩
      · intro h
        exact h.2
  have hok : parseCheckpointIndex lib text = .ok inventory ↔
      orRaise (parseJson lib text kMaxIndexBytes) >>= readIndex = .ok inventory := by
    rw [parseCheckpointIndex]
    split <;> simp_all
  rw [hok, bind_eq_ok]
  simp only [orRaise_eq_ok, hparse, and_assoc]

theorem serializeCheckpointIndex_eq_ok {inventory : CheckpointInventory} {text : Text} :
    serializeCheckpointIndex lib inventory = .ok text ↔ Accepted inventory ∧
      lib.dump (document inventory) = some text ∧ lib.size text ≤ kMaxIndexBytes := by
  simp only [serializeCheckpointIndex, bind_eq_ok, validateCheckpointInventory_eq_ok]
  cases hdump : lib.dump (document inventory) with
  | none => simp
  | some text' =>
    simp only [guard_eq_ok, Except.ok.injEq, Option.some.injEq, not_lt]
    constructor
    · intro ⟨_, ⟨haccepted, _⟩, hsize, heq⟩
      exact ⟨haccepted, heq, heq ▸ hsize⟩
    · intro ⟨haccepted, heq, hsize⟩
      exact ⟨_, ⟨haccepted, rfl⟩, heq ▸ hsize, heq⟩

/-- What is published is read back. -/
theorem parse_of_serialize {inventory : CheckpointInventory} {text : Text}
    (h : serializeCheckpointIndex lib inventory = .ok text) :
    parseCheckpointIndex lib text = .ok inventory.published := by
  obtain ⟨haccepted, hdump, hsize⟩ := (serializeCheckpointIndex_eq_ok lib).1 h
  have hcount : inventory.files.length + inventory.directories.length ≤ kMaxCheckpointEntries := by
    have := haccepted.count
    omega
  exact (parseCheckpointIndex_eq_ok lib).2
    ⟨_, hsize, lib.parse_dump hdump, withinLimits_document hcount, readIndex_document haccepted⟩

theorem code_of_parse {text : Text} {code : ℕ} (h : parseCheckpointIndex lib text = .error code) :
    code = unsupportedArtifact ∨ code = artifactCorrupt := by
  rw [parseCheckpointIndex] at h
  split at h
  · cases h
  · rename_i raised heq
    cases h
    obtain heq | ⟨value, -, heq⟩ := bind_eq_error.1 heq
    · exact absurd heq (orRaise_ne_checkpointError _ _)
    · exact .inl (code_of_readIndex heq)
  · cases h
    exact .inr rfl

/-- What is read can be published again: its paths were checked to be UTF-8, and the document is no longer
than the text it was read from. -/
theorem serialize_of_parse {inventory : CheckpointInventory} {text : Text}
    (h : parseCheckpointIndex lib text = .ok inventory) :
    inventory.published = inventory ∧ ∃ text', serializeCheckpointIndex lib inventory = .ok text' := by
  obtain ⟨value, hsize, hparse, hlimits, hread⟩ := (parseCheckpointIndex_eq_ok lib).1 h
  obtain ⟨⟨bytes, hvalid⟩, hpublished, hsame⟩ := of_readIndex hlimits hread
  have haccepted := (validateCheckpointInventory_eq_ok.1 hvalid).1
  have hutf8 : (document inventory).utf8 = true := utf8_document.2
    ⟨fun d hd => (haccepted.plainDirectories d hd).utf8, fun f hf => (haccepted.plainFiles f hf).utf8⟩
  obtain ⟨text', hdump⟩ := Option.isSome_iff_exists.1 ((lib.dump_isSome _).trans hutf8)
  have hle := lib.dump_shortest hparse hsame (isOther_document inventory) hdump
  exact ⟨hpublished, text', (serializeCheckpointIndex_eq_ok lib).2 ⟨haccepted, hdump, hle.trans hsize⟩⟩

/-- Publishing an inventory and reading it back only empties the locators; reading a text gives an inventory
that passes the checks, or one of two failures; and what was read is published and read back unchanged. -/
theorem checkpoint_index_round_trip :
    (∀ inventory text, serializeCheckpointIndex lib inventory = .ok text →
      parseCheckpointIndex lib text = .ok inventory.published) ∧
    (∀ text, (∃ inventory bytes, parseCheckpointIndex lib text = .ok inventory ∧
        validateCheckpointInventory inventory = .ok bytes) ∨
      parseCheckpointIndex lib text = .error unsupportedArtifact ∨
      parseCheckpointIndex lib text = .error artifactCorrupt) ∧
    ∀ text inventory, parseCheckpointIndex lib text = .ok inventory → ∃ text',
      serializeCheckpointIndex lib inventory = .ok text' ∧ parseCheckpointIndex lib text' = .ok inventory := by
  refine ⟨fun inventory text => parse_of_serialize lib, ?_, ?_⟩
  · intro text
    cases h : parseCheckpointIndex lib text with
    | ok inventory =>
      obtain ⟨value, -, -, hlimits, hread⟩ := (parseCheckpointIndex_eq_ok lib).1 h
      obtain ⟨bytes, hvalid⟩ := (of_readIndex hlimits hread).1
      exact .inl ⟨inventory, bytes, rfl, hvalid⟩
    | error code =>
      obtain rfl | rfl := code_of_parse lib h
      · exact .inr (.inl rfl)
      · exact .inr (.inr rfl)
  · intro text inventory h
    obtain ⟨hpublished, text', hserialize⟩ := serialize_of_parse lib h
    have hparse := parse_of_serialize lib hserialize
    rw [hpublished] at hparse
    exact ⟨text', hserialize, hparse⟩

end Library

/-- A library whose texts are the documents themselves, all of one length. -/
def documents : JsonLibrary Json where
  size _ := 1
  parse := some
  dump v := if v.utf8 then some v else none
  parse_dump := by
    intro v text h
    exact (Option.ite_none_right_eq_some.1 h).2.symm
  dump_isSome := by
    intro v
    cases v.utf8 <;> rfl
  size_pos := fun _ => Nat.one_pos
  dump_shortest := fun _ _ _ _ => Nat.le_refl 1

end Checkpoint
