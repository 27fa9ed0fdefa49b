import Snapshot.ByteText
import Snapshot.CheckedFold

/-! Files that a rootfs diff keeps although its exclusions match them. `upperDirEntries` finds the
requested paths in the overlay's upper directory without going through a link, and
`unarchivedMembers` names what is appended to the archive: the kept paths that it lacks, each after
the directories above it. -/
namespace RootfsKept

open LexicalPath
open ByteText (literal)

/-! ## The upper directory -/

inductive Entry where
  | regular (size : Int64)
  | directory
  /-- A symbolic link, a device, a socket or a pipe. -/
  | other

/-- What `os.Lstat` says of a path. -/
inductive Answer where
  | missing
  | failed (cause : Bytes)
  | found (e : Entry)

/-- The answers for the paths below the upper directory. For a path through a symbolic link it is
whatever the link leads to that answers. -/
abbrev UpperDir := Path → Answer

abbrev Entries := Std.ExtTreeMap Bytes Int64

variable (u : UpperDir)

/-- The path without its leading slash names the failure. -/
def inspectError (rel cause : Bytes) : Bytes :=
  literal "inspect /" ++ rel ++ literal " in the upperdir: " ++ cause

/-- The loop of `lstatUnderDirectories` over the components that are left. -/
def lstatParts (rel : Bytes) : Path → Path → Except Bytes (Option Entry)
  | _, [] => .ok none
  | current, part :: rest =>
    match u (current ++ [part]) with
    | .missing => .ok none
    | .failed cause => .error (inspectError rel cause)
    | .found e =>
      if rest = [] then .ok (some e)
      else
        match e with
        | .directory => lstatParts rel (current ++ [part]) rest
        | _ => .ok none

def lstatUnderDirectories (rel : Bytes) : Except Bytes (Option Entry) := lstatParts u rel [] (split rel)

/-- The size that a kept entry is counted with. -/
def Entry.keptSize : Entry → Option Int64
  | .regular size => some size
  | .directory => some 0
  | .other => none

def record (entries : Entries) (rel : Bytes) (info : Option Entry) : Entries :=
  match info.bind Entry.keptSize with
  | some size => entries.insert rel size
  | none => entries

def addEntry (entries : Entries) (p : Bytes) : Except Bytes Entries :=
  let p := clean p
  if rooted p = false ∨ p = [sep] then .ok entries
  else (lstatUnderDirectories u p.tail).map fun info => record entries p.tail info

def upperDirEntries (paths : List Bytes) : Except Bytes Entries := paths.foldlM (addEntry u) ∅

/-! ## The archive -/

def trimPrefix (start s : Bytes) : Bytes := if start <+: s then s.drop start.length else s

def trimSuffix (stop s : Bytes) : Bytes := if stop <:+ s then s.take (s.length - stop.length) else s

/-- The member that a header of the archive stands for. -/
def memberName (header : Bytes) : Bytes := trimSuffix [sep] (trimPrefix (literal "./") header)

def archiveMembers (headers : List Bytes) : List Bytes := headers.map memberName

/-- The names that lead to a path, itself the last of them. -/
def names (rel : Bytes) : List Bytes :=
  (List.range (split rel).length).map fun i => [sep].intercalate ((split rel).take (i + 1))

structure Queue where
  queued : List Bytes
  members : List Bytes
  appended : List Bytes

/-- Members are queued under their names; `./` is put before them at the end. -/
def queueName (rel : Bytes) (s : Queue) (name : Bytes) : Queue :=
  if name ∈ s.queued then s
  else
    { queued := s.queued ++ [name]
      members := s.members ++ [name]
      appended := if name = rel then s.appended ++ [rel] else s.appended }

def queuePath (s : Queue) (rel : Bytes) : Queue := (names rel).foldl (queueName rel) s

def queueAll (kept archived : List Bytes) : Queue := kept.foldl queuePath ⟨archived, [], []⟩

def unarchivedMembers (kept archived : List Bytes) : List Bytes × List Bytes :=
  ((queueAll kept archived).members.map (literal "./" ++ ·), (queueAll kept archived).appended)

/-! ## The capture -/

/-- How the calls of one capture go. -/
structure Calls where
  createTemp : Except Bytes Unit
  close : Except Bytes Unit
  /-- The first run of tar fails with an error and its output. -/
  tar : Except (Bytes × Bytes) Unit
  openArchive : Except Bytes Unit
  readHeaders : Except Bytes (List Bytes)
  /-- The second run reads the members from its input. -/
  tarAppend : Bytes → Except (Bytes × Bytes) Unit
  stat : Except Bytes ℕ
  rename : Except Bytes Unit

structure RootfsDiff where
  path : Bytes
  kept : List Bytes
  keptBytes : Int64

def wrap (text : String) (e : Bytes) : Bytes := literal text ++ e

def tarError (text : String) (e : Bytes × Bytes) : Bytes :=
  literal text ++ e.1 ++ literal " (output: " ++ e.2 ++ literal ")"

def appendInput (members : List Bytes) : Bytes := ([0] : Bytes).intercalate members ++ [0]

def readArchive (calls : Calls) : Except Bytes (List Bytes) := do
  calls.openArchive.mapError (wrap "open rootfs diff: ")
  let headers ← calls.readHeaders.mapError (wrap "read rootfs diff members: ")
  return archiveMembers headers

def appendMembers (calls : Calls) (members : List Bytes) : Except Bytes Unit :=
  if members = [] then .ok ()
  else (calls.tarAppend (appendInput members)).mapError (tarError "tar append of kept files failed: ")

/-- The paths that were appended and their bytes. -/
def appendKept (calls : Calls) (keep : Entries) : Except Bytes (List Bytes × Int64) :=
  if keep.isEmpty then .ok ([], 0)
  else do
    let archived ← readArchive calls
    let queued := unarchivedMembers keep.keys archived
    appendMembers calls queued.1
    return (queued.2.map (sep :: ·), queued.2.foldl (fun n rel => n + keep.getD rel 0) 0)

def checkSize (size : ℕ) : Except Bytes Unit :=
  if size = 0 then .error (literal "tar produced empty rootfs diff") else .ok ()

def rootfsDiffFilename : Bytes := literal "rootfs-diff.tar"

def writeRootfsDiff (checkpointDir : Bytes) (calls : Calls) (keep : Entries) : Except Bytes RootfsDiff := do
  calls.createTemp.mapError (wrap "failed to create temporary rootfs diff: ")
  calls.close.mapError (wrap "failed to close temporary rootfs diff: ")
  calls.tar.mapError (tarError "tar failed: ")
  let (kept, keptBytes) ← appendKept calls keep
  let size ← calls.stat.mapError (wrap "failed to stat temporary rootfs diff: ")
  checkSize size
  calls.rename.mapError (wrap "failed to publish rootfs diff: ")
  return ⟨join checkpointDir rootfsDiffFilename, kept, keptBytes⟩

/-- A failure that may have left a kept path out is marked as such. -/
structure CaptureError where
  keptFilesMissing : Bool
  text : Bytes

def missingKept (e : Bytes) : CaptureError :=
  ⟨true, literal "rootfs diff may lack files that must be kept: " ++ e⟩

def captureRootfsDiff (upperDir checkpointDir : Bytes) (keep : List Bytes) (calls : Calls) :
    Except CaptureError RootfsDiff :=
  if upperDir = [] then .error ⟨false, literal "upperdir is empty"⟩
  else
    match upperDirEntries u keep with
    | .error e => .error (missingKept e)
    | .ok entries =>
      (writeRootfsDiff checkpointDir calls entries).mapError fun e =>
        if entries.isEmpty then ⟨false, e⟩ else missingKept e

/-! ## What is kept -/

/-- A path below directories that is a regular file of a size, or a directory. -/
structure Keepable (q : Path) (size : Int64) : Prop where
  ne_nil : q ≠ []
  ancestors : ∀ r s, r ≠ [] → s ≠ [] → q = r ++ s → u r = .found .directory
  entry : ∃ e, u q = .found e ∧ e.keptSize = some size

variable {u}

/-- The walk reaches the last component exactly when directories lead to it. -/
theorem lstatParts_eq_ok {rel : Bytes} {e : Entry} {current rest : Path} (hrest : rest ≠ []) :
    lstatParts u rel current rest = .ok (some e) ↔
      u (current ++ rest) = .found e ∧
        ∀ r s, r ≠ [] → s ≠ [] → rest = r ++ s → u (current ++ r) = .found .directory := by
  induction rest generalizing current with
  | nil => exact absurd rfl hrest
  | cons part rest ih =>
    by_cases hlast : rest = []
    · subst hlast
      have hsplit : ∀ r s : Path, r ≠ [] → s ≠ [] → [part] ≠ r ++ s := by
        intro r s hr hs heq
        have hlen := congrArg List.length heq
        have := List.length_pos_of_ne_nil hr
        have := List.length_pos_of_ne_nil hs
        simp only [List.length_cons, List.length_nil, List.length_append] at hlen
        omega
      constructor
      · intro h
        rw [lstatParts] at h
        cases hu : u (current ++ [part]) with
        | missing => simp [hu] at h
        | failed cause => simp [hu] at h
        | found e' =>
          simp only [hu, if_true, Except.ok.injEq, Option.some.injEq] at h
          exact ⟨by rw [h], fun r s hr hs heq => absurd heq (hsplit r s hr hs)⟩
      · intro h
        simp [lstatParts, h.1]
    · -- the component is an ancestor, so it has to be a directory for the walk to go on
      have hcons : current ++ part :: rest = current ++ [part] ++ rest := by simp
      have hstep : lstatParts u rel current (part :: rest) = .ok (some e) ↔
          u (current ++ [part]) = .found .directory ∧
            lstatParts u rel (current ++ [part]) rest = .ok (some e) := by
        rw [lstatParts]
        cases hu : u (current ++ [part]) with
        | missing => simp
        | failed cause => simp
        | found e' => cases e' <;> simp [hlast]
      rw [hstep, ih hlast, hcons]
      constructor
      · rintro ⟨hdir, hlast', hinitial⟩
        refine ⟨hlast', fun r s hr hs heq => ?_⟩
        obtain ⟨c, r, rfl⟩ := List.exists_cons_of_ne_nil hr
        rw [List.cons_append, List.cons.injEq] at heq
        obtain ⟨rfl, heq⟩ := heq
        by_cases hnil : r = []
        · rw [hnil, hdir]
        · rw [← hinitial r s hnil hs heq, List.append_assoc, List.singleton_append]
      · rintro ⟨hlast', hinitial⟩
        refine ⟨hinitial [part] rest (by simp) hlast rfl, hlast', fun r s hr hs heq => ?_⟩
        rw [List.append_assoc, List.singleton_append]
        exact hinitial (part :: r) s (by simp) hs (by rw [heq, List.cons_append])

/-- Only a call that fails makes the walk fail. -/
theorem lstatParts_ok (hcalls : ∀ q cause, u q ≠ .failed cause) (rel : Bytes) (current rest : Path) :
    ∃ info, lstatParts u rel current rest = .ok info := by
  induction rest generalizing current with
  | nil => exact ⟨none, rfl⟩
  | cons part rest ih =>
    rw [lstatParts]
    cases hu : u (current ++ [part]) with
    | missing => exact ⟨none, rfl⟩
    | failed cause => exact absurd hu (hcalls _ _)
    | found e =>
      by_cases hlast : rest = []
      · exact ⟨some e, by simp [hlast]⟩
      · cases e with
        | directory => simpa [hlast] using ih (current ++ [part])
        | _ => exact ⟨none, by simp [hlast]⟩

/-- A cleaned rooted path other than the root is a slash and its components. -/
theorem clean_eq {p : Bytes} (hroot : rooted p = true) : clean p = sep :: [sep].intercalate (comps p) := by
  rw [clean, hroot, render, if_pos rfl]

theorem clean_eq_sep {p : Bytes} (hroot : rooted p = true) : clean p = [sep] ↔ comps p = [] := by
  rw [clean_eq hroot, List.cons.injEq]
  constructor
  · rintro ⟨-, h⟩
    exact by_contra fun hne => intercalate_ne_nil (fun c hc => (mem_comps hc).1) hne h
  · intro h
    simp [h]

/-- What one requested path adds. -/
theorem keepable_iff {p : Bytes} {size : Int64} {info : Option Entry} (hroot : rooted p = true)
    (hne : comps p ≠ []) (hinfo : lstatUnderDirectories u (clean p).tail = .ok info) :
    info.bind Entry.keptSize = some size ↔ Keepable u (comps p) size := by
  rw [clean_eq hroot, List.tail_cons, lstatUnderDirectories,
    split_intercalate (fun c hc => (mem_comps hc).2.2) hne] at hinfo
  have hwalk := fun e => @lstatParts_eq_ok u ([sep].intercalate (comps p)) e [] (comps p) hne
  simp only [hinfo, List.nil_append, Except.ok.injEq] at hwalk
  rw [Option.bind_eq_some_iff]
  constructor
  · rintro ⟨e, he, hsize⟩
    obtain ⟨hfound, hinitial⟩ := (hwalk e).1 he
    exact ⟨hne, hinitial, e, hfound, hsize⟩
  · rintro ⟨-, hinitial, e, hfound, hsize⟩
    exact ⟨e, (hwalk e).2 ⟨hfound, hinitial⟩, hsize⟩

/-- A kept path of the request, under its name in the upper directory. -/
def Requested (u : UpperDir) (paths : List Bytes) (rel : Bytes) (size : Int64) : Prop :=
  ∃ p ∈ paths, rooted p = true ∧ clean p = sep :: rel ∧ Keepable u (comps p) size

theorem getElem?_record {entries : Entries} {rel : Bytes} {info : Option Entry} (key : Bytes) :
    (record entries rel info)[key]? =
      if rel = key then (info.bind Entry.keptSize).or entries[key]? else entries[key]? := by
  rw [record]
  cases hsize : info.bind Entry.keptSize with
  | none => simp
  | some size =>
    rw [Std.ExtTreeMap.getElem?_insert]
    simp

theorem requested_append {paths : List Bytes} {p rel : Bytes} {size : Int64} :
    Requested u (paths ++ [p]) rel size ↔ Requested u paths rel size ∨ Requested u [p] rel size := by
  simp [Requested, or_and_right, exists_or]

/-- A size is a function of the path, so that a repeated request finds its own entry. -/
theorem Requested.unique {paths paths' : List Bytes} {rel : Bytes} {size size' : Int64}
    (h : Requested u paths rel size) (h' : Requested u paths' rel size') : size = size' := by
  obtain ⟨p, -, hroot, hclean, -, -, e, he, hsize⟩ := h
  obtain ⟨p', -, hroot', hclean', -, -, e', he', hsize'⟩ := h'
  have hcomps : comps p = comps p' := by
    rw [← comps_clean p, ← comps_clean p', hclean, hclean']
  rw [hcomps, he'] at he
  cases he
  exact Option.some.inj (hsize.symm.trans hsize')

theorem addEntry_eq_ok {entries entries' : Entries} {p : Bytes} (h : addEntry u entries p = .ok entries')
    {paths : List Bytes} (hentries : ∀ rel size, entries[rel]? = some size ↔ Requested u paths rel size)
    (rel : Bytes) (size : Int64) :
    entries'[rel]? = some size ↔ Requested u (paths ++ [p]) rel size := by
  rw [requested_append, ← hentries]
  by_cases hskip : rooted (clean p) = false ∨ clean p = [sep]
  · rw [addEntry, if_pos hskip, Except.ok.injEq] at h
    subst h
    refine ⟨.inl, fun h => h.resolve_right ?_⟩
    rintro ⟨p', hp', hroot, -, hkeep⟩
    obtain rfl := List.mem_singleton.1 hp'
    rw [rooted_clean, hroot, clean_eq_sep hroot] at hskip
    exact hkeep.ne_nil (hskip.resolve_left (by simp))
  · rw [addEntry, if_neg hskip, CheckedFold.map_eq_ok] at h
    obtain ⟨info, hinfo, rfl⟩ := h
    rw [not_or, rooted_clean, Bool.not_eq_false] at hskip
    obtain ⟨hroot, hne⟩ := hskip
    rw [clean_eq_sep hroot] at hne
    have hclean : clean p = sep :: (clean p).tail := by rw [clean_eq hroot, List.tail_cons]
    have hnew : ∀ s, Requested u [p] (clean p).tail s ↔ info.bind Entry.keptSize = some s := by
      intro s
      rw [keepable_iff hroot hne hinfo]
      constructor
      · rintro ⟨p', hp', -, -, hkeep⟩
        rwa [List.mem_singleton.1 hp'] at hkeep
      · intro hkeep
        exact ⟨p, List.mem_singleton_self p, hroot, hclean, hkeep⟩
    rw [getElem?_record]
    by_cases hkey : (clean p).tail = rel
    · subst hkey
      rw [if_pos rfl, hnew, Option.or_eq_some_iff]
      constructor
      · rintro (hsize | ⟨-, hold⟩)
        · exact .inr hsize
        · exact .inl hold
      · rintro (hold | hsize)
        · -- an earlier spelling of the path has left the size that is found again
          cases hbind : info.bind Entry.keptSize with
          | none => exact .inr ⟨rfl, hold⟩
          | some s => exact .inl (by rw [((hnew s).2 hbind).unique ((hentries _ _).1 hold)])
        · exact .inl hsize
    · rw [if_neg hkey]
      refine ⟨.inl, fun h => h.resolve_right ?_⟩
      rintro ⟨p', hp', -, hclean', -⟩
      rw [List.mem_singleton.1 hp'] at hclean'
      exact hkey (by rw [hclean', List.tail_cons])

theorem upperDirEntries_eq_ok {paths : List Bytes} {entries : Entries} (h : upperDirEntries u paths = .ok entries)
    (rel : Bytes) (size : Int64) : entries[rel]? = some size ↔ Requested u paths rel size := by
  induction paths using List.reverseRecOn generalizing entries rel size with
  | nil =>
    cases h
    simp [Requested]
  | append_singleton paths p ih =>
    rw [upperDirEntries, List.foldlM_append] at h
    obtain ⟨before, hbefore, hlast⟩ := CheckedFold.bind_eq_ok.1 h
    rw [List.foldlM_cons] at hlast
    obtain ⟨after, hafter, hend⟩ := CheckedFold.bind_eq_ok.1 hlast
    cases hend
    exact addEntry_eq_ok hafter (fun rel size => ih hbefore rel size) rel size

theorem upperDirEntries_ok (hcalls : ∀ q cause, u q ≠ .failed cause) (paths : List Bytes) :
    ∃ entries, upperDirEntries u paths = .ok entries := by
  have hadd : ∀ (entries : Entries) p, ∃ entries', addEntry u entries p = .ok entries' := by
    intro entries p
    rw [addEntry]
    by_cases hskip : rooted (clean p) = false ∨ clean p = [sep]
    · exact ⟨entries, if_pos hskip⟩
    · obtain ⟨info, hinfo⟩ := lstatParts_ok hcalls (clean p).tail [] (split (clean p).tail)
      refine ⟨record entries (clean p).tail info, ?_⟩
      rw [if_neg hskip, lstatUnderDirectories, hinfo]
      rfl
  induction paths using List.reverseRecOn with
  | nil => exact ⟨∅, rfl⟩
  | append_singleton paths p ih =>
    obtain ⟨before, hbefore⟩ := ih
    obtain ⟨after, hafter⟩ := hadd before p
    rw [upperDirEntries] at hbefore
    refine ⟨after, ?_⟩
    rw [upperDirEntries, List.foldlM_append, hbefore]
    change (addEntry u before p >>= fun s => pure s) = _
    rw [hafter]
    rfl

/-! ## What is appended -/

/-- The directories above a name. -/
def Ancestor (a name : Bytes) : Prop := ∃ t, name = a ++ sep :: t

theorem getElem?_names {rel name : Bytes} {i : ℕ} :
    (names rel)[i]? = some name ↔ i < (split rel).length ∧ name = [sep].intercalate ((split rel).take (i + 1)) := by
  rw [names, List.getElem?_map, Option.map_eq_some_iff]
  constructor
  · rintro ⟨j, hj, rfl⟩
    obtain ⟨hlt, rfl⟩ := List.getElem?_eq_some_iff.1 hj
    simpa using hlt
  · rintro ⟨hlt, rfl⟩
    exact ⟨i, by simp [hlt], rfl⟩

theorem intercalate_split (s : Bytes) : [sep].intercalate (split s) = s := List.intercalate_splitOn sep

theorem split_ne_nil (s : Bytes) : split s ≠ [] := List.splitOn_ne_nil sep s

/-- The components of the name at a place are the components up to there. -/
theorem split_name {rel : Bytes} {i : ℕ} (hi : i < (split rel).length) :
    split ([sep].intercalate ((split rel).take (i + 1))) = (split rel).take (i + 1) := by
  refine split_intercalate (fun c hc => sep_not_mem_split (List.mem_of_mem_take hc)) ?_
  intro hnil
  have := congrArg List.length hnil
  simp only [List.length_take, List.length_nil] at this
  omega

/-- The ancestors of the name at a place are the names before it. -/
theorem ancestor_iff {rel name a : Bytes} {i : ℕ} (hname : (names rel)[i]? = some name) :
    Ancestor a name ↔ ∃ j < i, (names rel)[j]? = some a := by
  obtain ⟨hi, rfl⟩ := getElem?_names.1 hname
  have hlen : ((split rel).take (i + 1)).length = i + 1 := by
    rw [List.length_take]
    omega
  constructor
  · rintro ⟨t, ht⟩
    have hsplit := split_name hi
    rw [ht, split_append] at hsplit
    have ha := List.length_pos_of_ne_nil (split_ne_nil a)
    have ht := List.length_pos_of_ne_nil (split_ne_nil t)
    have hsum := congrArg List.length hsplit
    rw [List.length_append, hlen] at hsum
    refine ⟨(split a).length - 1, by omega, getElem?_names.2 ⟨by omega, ?_⟩⟩
    have hinitial : split a <+: split rel :=
      ((List.prefix_append (split a) (split t)).trans (by rw [hsplit])).trans (List.take_prefix _ _)
    rw [Nat.sub_add_cancel ha, ← List.prefix_iff_eq_take.1 hinitial, intercalate_split]
  · rintro ⟨j, hj, ha⟩
    obtain ⟨hjlt, rfl⟩ := getElem?_names.1 ha
    refine ⟨[sep].intercalate (((split rel).take (i + 1)).drop (j + 1)), ?_⟩
    rw [← intercalate_append]
    · have htake : (split rel).take (j + 1) = ((split rel).take (i + 1)).take (j + 1) := by
        rw [List.take_take, Nat.min_eq_left (by omega)]
      rw [htake, List.take_append_drop]
    · intro hnil
      have := congrArg List.length hnil
      simp only [List.length_take, List.length_nil] at this
      omega
    · intro hnil
      have := congrArg List.length hnil
      simp only [List.length_drop, hlen, List.length_nil] at this
      omega

theorem getElem?_names_last (rel : Bytes) : (names rel)[(split rel).length - 1]? = some rel := by
  have hpos := List.length_pos_of_ne_nil (split_ne_nil rel)
  refine getElem?_names.2 ⟨by omega, ?_⟩
  rw [Nat.sub_add_cancel hpos, List.take_length, intercalate_split]

theorem mem_names {rel name : Bytes} : name ∈ names rel ↔ name = rel ∨ Ancestor name rel := by
  rw [ancestor_iff (getElem?_names_last rel), List.mem_iff_getElem?]
  constructor
  · rintro ⟨i, hi⟩
    by_cases hlast : i = (split rel).length - 1
    · rw [hlast, getElem?_names_last, Option.some.injEq] at hi
      exact .inl hi.symm
    · have := (getElem?_names.1 hi).1
      exact .inr ⟨i, by omega, hi⟩
  · rintro (rfl | ⟨i, -, hi⟩)
    · exact ⟨_, getElem?_names_last name⟩
    · exact ⟨i, hi⟩

/-! ### One path -/

section Queue

variable {rel : Bytes} {s : Queue}

theorem mem_queued_queueName (name n : Bytes) : n ∈ (queueName rel s name).queued ↔ n ∈ s.queued ∨ n = name := by
  by_cases h : name ∈ s.queued
  · rw [queueName, if_pos h]
    exact ⟨.inl, fun hn => hn.elim id fun heq => heq ▸ h⟩
  · simp [queueName, h]

theorem mem_queued_foldl (l : List Bytes) (n : Bytes) :
    n ∈ (l.foldl (queueName rel) s).queued ↔ n ∈ s.queued ∨ n ∈ l := by
  induction l generalizing s with
  | nil => simp
  | cons name l ih => rw [List.foldl_cons, ih, mem_queued_queueName, List.mem_cons, or_assoc]

/-- The path itself is reported when it is queued in its own turn. -/
theorem appended_foldl (l : List Bytes) :
    (l.foldl (queueName rel) s).appended = s.appended ++ if rel ∈ l ∧ rel ∉ s.queued then [rel] else [] := by
  induction l generalizing s with
  | nil => simp
  | cons name l ih =>
    rw [List.foldl_cons, ih]
    by_cases hq : name ∈ s.queued
    · rw [queueName, if_pos hq]
      by_cases heq : rel = name
      · subst heq
        simp [hq]
      · simp [heq]
    · rw [queueName, if_neg hq]
      by_cases heq : name = rel
      · subst heq
        simp [hq]
      · simp [heq, Ne.symm heq]

/-- What the queue keeps to at any time. -/
structure Ordered (archived : List Bytes) (s : Queue) : Prop where
  queued : ∀ n, n ∈ s.queued ↔ n ∈ archived ∨ n ∈ s.members
  nodup : s.members.Nodup
  fresh : ∀ n ∈ s.members, n ∉ archived
  preceded : ∀ before n after, s.members = before ++ n :: after →
    ∀ a, Ancestor a n → a ∈ archived ∨ a ∈ before

variable {archived : List Bytes}

theorem Ordered.queueName (h : Ordered archived s) {name : Bytes}
    (hname : ∀ a, Ancestor a name → a ∈ s.queued) : Ordered archived (queueName rel s name) := by
  by_cases hq : name ∈ s.queued
  · rwa [RootfsKept.queueName, if_pos hq]
  · have hfresh := mt (h.queued name).2 hq
    rw [not_or] at hfresh
    rw [RootfsKept.queueName, if_neg hq]
    refine ⟨fun n => ?_, ?_, fun n hn => ?_, fun before n after heq a ha => ?_⟩
    · simp only [List.mem_append, h.queued n, or_assoc]
    · exact List.nodup_append.2 ⟨h.nodup, by simp, fun a ha b hb heq =>
        hfresh.2 (by rwa [← List.mem_singleton.1 hb, ← heq])⟩
    · rcases List.mem_append.1 hn with hn | hn
      · exact h.fresh n hn
      · rw [List.mem_singleton.1 hn]
        exact hfresh.1
    · rcases List.append_eq_append_iff.1 heq with ⟨mid, hbefore, hmid⟩ | ⟨mid, hmembers, hmid⟩
      · -- the new name is the one that is looked at
        have hlen := congrArg List.length hmid
        simp only [List.length_cons, List.length_nil, List.length_append] at hlen
        have hmid0 : mid = [] := List.eq_nil_of_length_eq_zero (by omega)
        subst hmid0
        rw [List.nil_append, List.cons.injEq] at hmid
        obtain ⟨rfl, -⟩ := hmid
        rw [hbefore, List.append_nil]
        exact (h.queued a).1 (hname a ha)
      · cases mid with
        | nil =>
          rw [List.nil_append, List.cons.injEq] at hmid
          obtain ⟨rfl, -⟩ := hmid
          rw [List.append_nil] at hmembers
          rw [← hmembers]
          exact (h.queued a).1 (hname a ha)
        | cons m mid =>
          rw [List.cons_append, List.cons.injEq] at hmid
          obtain ⟨rfl, -⟩ := hmid
          exact h.preceded before n mid hmembers a ha

/-- The names of a path come in such an order that each finds its ancestors queued. -/
theorem Ordered.queuePath (h : Ordered archived s) (rel : Bytes) : Ordered archived (queuePath s rel) := by
  have hrun : ∀ k ≤ (names rel).length, Ordered archived (((names rel).take k).foldl (RootfsKept.queueName rel) s) := by
    intro k
    induction k with
    | zero => exact fun _ => h
    | succ k ih =>
      intro hk
      rw [List.take_add_one, List.getElem?_eq_getElem hk, Option.toList_some, List.foldl_append,
        List.foldl_cons, List.foldl_nil]
      refine (ih (by omega)).queueName fun a ha => ?_
      obtain ⟨j, hj, hget⟩ := (ancestor_iff (List.getElem?_eq_getElem hk)).1 ha
      rw [mem_queued_foldl]
      exact .inr (List.mem_of_getElem? (by rwa [List.getElem?_take_of_lt hj]))
  have hall := hrun _ le_rfl
  rwa [List.take_length] at hall

end Queue

/-! ### All paths -/

theorem mem_queued_queueAll {kept archived : List Bytes} {n : Bytes} :
    n ∈ (queueAll kept archived).queued ↔ n ∈ archived ∨ ∃ rel ∈ kept, n = rel ∨ Ancestor n rel := by
  induction kept using List.reverseRecOn with
  | nil => simp [queueAll]
  | append_singleton kept rel ih =>
    rw [queueAll, List.foldl_append, List.foldl_cons, List.foldl_nil, ← queueAll, queuePath,
      mem_queued_foldl, ih, mem_names]
    simp [or_and_right, exists_or, or_assoc]

theorem ordered_queueAll (kept archived : List Bytes) : Ordered archived (queueAll kept archived) := by
  induction kept using List.reverseRecOn with
  | nil =>
    refine ⟨fun n => by simp [queueAll], List.nodup_nil, fun n hn => absurd hn List.not_mem_nil, ?_⟩
    intro before n after heq
    cases before <;> cases heq
  | append_singleton kept rel ih =>
    rw [queueAll, List.foldl_append, List.foldl_cons, List.foldl_nil, ← queueAll]
    exact ih.queuePath rel

/-- The members are the kept paths and their ancestors that the archive lacks. -/
theorem mem_members_queueAll {kept archived : List Bytes} {n : Bytes} :
    n ∈ (queueAll kept archived).members ↔ n ∉ archived ∧ ∃ rel ∈ kept, n = rel ∨ Ancestor n rel := by
  have hordered := ordered_queueAll kept archived
  constructor
  · intro hn
    exact ⟨hordered.fresh n hn,
      (mem_queued_queueAll.1 ((hordered.queued n).2 (.inr hn))).resolve_left (hordered.fresh n hn)⟩
  · rintro ⟨hfresh, hrel⟩
    exact ((hordered.queued n).1 (mem_queued_queueAll.2 (.inr hrel))).resolve_left hfresh

/-- A string comes before what it is the beginning of. -/
theorem compare_append (a : Bytes) (b : UInt8) (t : Bytes) : compare a (a ++ b :: t) = .lt := by
  induction a with
  | nil => rfl
  | cons c a ih => 
    rw [List.cons_append, List.compare_cons_cons, show compare c c = .eq from Std.ReflCmp.compare_self]
    exact ih

/-- In byte order a directory comes before what lies in it, so a kept path is queued in its own turn
and not as an ancestor. -/
theorem appended_queueAll {kept archived : List Bytes} (hsorted : kept.Pairwise fun a b => compare a b = .lt) :
    (queueAll kept archived).appended = kept.filter fun rel => rel ∉ archived := by
  induction kept using List.reverseRecOn with
  | nil => rfl
  | append_singleton kept rel ih =>
    obtain ⟨hsorted, -, hlast⟩ := List.pairwise_append.1 hsorted
    have hlater : ¬∃ rel' ∈ kept, rel = rel' ∨ Ancestor rel rel' := by
      rintro ⟨rel', hrel', rfl | ⟨t, rfl⟩⟩
      · have hlt := hlast rel hrel' rel (List.mem_singleton_self rel)
        rw [show compare rel rel = .eq from Std.ReflCmp.compare_self] at hlt
        cases hlt
      · have hlt := hlast _ hrel' rel (List.mem_singleton_self rel)
        rw [← Std.OrientedCmp.gt_iff_lt, compare_append] at hlt
        cases hlt
    rw [queueAll, List.foldl_append, List.foldl_cons, List.foldl_nil, ← queueAll, queuePath, appended_foldl,
      ih hsorted, List.filter_append]
    by_cases harchived : rel ∈ archived
    · simp [mem_queued_queueAll, harchived]
    · simp [mem_queued_queueAll, mem_names, harchived, hlater]

/-! ## What is reported -/

theorem readArchive_eq_ok {calls : Calls} {headers archived : List Bytes} (hheaders : calls.readHeaders = .ok headers)
    (h : readArchive calls = .ok archived) : archived = archiveMembers headers := by
  rw [readArchive] at h
  obtain ⟨-, -, h⟩ := CheckedFold.bind_eq_ok.1 h
  rw [hheaders] at h
  cases h
  rfl

theorem appendKept_eq_ok {calls : Calls} {keep : Entries} {headers kept : List Bytes} {keptBytes : Int64}
    (hheaders : calls.readHeaders = .ok headers) (h : appendKept calls keep = .ok (kept, keptBytes)) :
    kept = (keep.keys.filter fun rel => rel ∉ archiveMembers headers).map (sep :: ·) := by
  rw [appendKept] at h
  by_cases hempty : keep.isEmpty
  · rw [if_pos hempty] at h
    cases h
    rw [Std.ExtTreeMap.isEmpty_iff.1 hempty]
    rfl
  · rw [if_neg hempty] at h
    obtain ⟨archived, harchived, h⟩ := CheckedFold.bind_eq_ok.1 h
    have happended : (unarchivedMembers keep.keys archived).2 = keep.keys.filter fun rel => rel ∉ archived :=
      appended_queueAll Std.ExtTreeMap.ordered_keys
    obtain ⟨-, -, h⟩ := CheckedFold.bind_eq_ok.1 h
    cases h
    rw [happended, readArchive_eq_ok hheaders harchived]

theorem writeRootfsDiff_eq_ok {dir : Bytes} {calls : Calls} {keep : Entries} {diff : RootfsDiff}
    (h : writeRootfsDiff dir calls keep = .ok diff) : appendKept calls keep = .ok (diff.kept, diff.keptBytes) := by
  rw [writeRootfsDiff] at h
  obtain ⟨-, -, h⟩ := CheckedFold.bind_eq_ok.1 h
  obtain ⟨-, -, h⟩ := CheckedFold.bind_eq_ok.1 h
  obtain ⟨-, -, h⟩ := CheckedFold.bind_eq_ok.1 h
  obtain ⟨⟨kept, keptBytes⟩, hkept, h⟩ := CheckedFold.bind_eq_ok.1 h
  obtain ⟨size, -, h⟩ := CheckedFold.bind_eq_ok.1 h
  obtain ⟨-, -, h⟩ := CheckedFold.bind_eq_ok.1 h
  obtain ⟨-, -, h⟩ := CheckedFold.bind_eq_ok.1 h
  cases h
  exact hkept

/-- The requested paths that are regular files or directories below directories are found, the
members that the archive lacks for them are appended once and after their ancestors, and a capture
that succeeds reports each kept path that was not archived before. -/
theorem kept_archived_once (u : UpperDir) (keep : List Bytes) :
    ((∀ q cause, u q ≠ .failed cause) → ∃ entries, upperDirEntries u keep = .ok entries) ∧
    ∀ entries, upperDirEntries u keep = .ok entries →
      (∀ rel size, entries[rel]? = some size ↔ Requested u keep rel size) ∧
      (∀ archived, ∃ members,
        (unarchivedMembers entries.keys archived).1 = members.map (literal "./" ++ ·) ∧
        members.Nodup ∧ (∀ n ∈ members, n ∉ archived) ∧
        (∀ before n after, members = before ++ n :: after → ∀ a, Ancestor a n → a ∈ archived ∨ a ∈ before) ∧
        ∀ n, n ∈ members ↔ n ∉ archived ∧ ∃ rel ∈ entries, n = rel ∨ Ancestor n rel) ∧
      ∀ dir calls headers diff, calls.readHeaders = .ok headers → writeRootfsDiff dir calls entries = .ok diff →
        (∀ rel ∈ entries, rel ∉ archiveMembers headers → diff.kept.count (sep :: rel) = 1) ∧
        ∀ path ∈ diff.kept, ∃ rel ∈ entries, rel ∉ archiveMembers headers ∧ path = sep :: rel := by
  refine ⟨fun hcalls => upperDirEntries_ok hcalls keep, fun entries hentries =>
    ⟨upperDirEntries_eq_ok hentries, fun archived => ?_, fun dir calls headers diff hheaders hdiff => ?_⟩⟩
  · have hordered := ordered_queueAll entries.keys archived
    refine ⟨_, rfl, hordered.nodup, hordered.fresh, hordered.preceded, fun n => ?_⟩
    simp only [mem_members_queueAll, Std.ExtTreeMap.mem_keys]
  · have hkept := appendKept_eq_ok hheaders (writeRootfsDiff_eq_ok hdiff)
    constructor
    · intro rel hrel hfresh
      have hmem : sep :: rel ∈ diff.kept := by
        rw [hkept]
        exact List.mem_map_of_mem (List.mem_filter.2 ⟨Std.ExtTreeMap.mem_keys.2 hrel, by simpa using hfresh⟩)
      refine List.count_eq_one_of_mem ?_ hmem
      rw [hkept]
      exact (Std.ExtTreeMap.nodup_keys.filter _).map fun a b h => List.tail_eq_of_cons_eq h
    · intro path hpath
      rw [hkept] at hpath
      obtain ⟨rel, hrel, rfl⟩ := List.mem_map.1 hpath
      obtain ⟨hmem, hfresh⟩ := List.mem_filter.1 hrel
      exact ⟨rel, Std.ExtTreeMap.mem_keys.1 hmem, by simpa using hfresh, rfl⟩

/-- A directory `a` that holds the file `b` and the link `l`. -/
def sampleDir : UpperDir := fun q =>
  if q = [[97]] then .found .directory
  else if q = [[97], [98]] then .found (.regular 5)
  else if q = [[97], [108]] then .found .other
  else .missing

def sampleCalls : Calls :=
  ⟨.ok (), .ok (), .ok (), .ok (), .ok [literal "./", literal "./a/"], fun _ => .ok (), .ok 10240, .ok ()⟩

theorem kept_archived_once_sample :
    ∃ entries diff, upperDirEntries sampleDir [literal "/a/./b", literal "/a", literal "a/b", literal "/a/l"] = .ok entries ∧
      writeRootfsDiff (literal "/c") sampleCalls entries = .ok diff ∧ diff.kept.count (literal "/a/b") = 1 := by
  obtain ⟨hfind, hall⟩ := kept_archived_once sampleDir [literal "/a/./b", literal "/a", literal "a/b", literal "/a/l"]
  have hcalls : ∀ q cause, sampleDir q ≠ .failed cause := by
    intro q cause
    rw [sampleDir]
    repeat' split
    all_goals simp
  obtain ⟨entries, hentries⟩ := hfind hcalls
  obtain ⟨-, -, hwrite⟩ := hall entries hentries
  cases hentries
  exact ⟨_, _, rfl, rfl, (hwrite _ sampleCalls _ _ rfl rfl).1 (literal "a/b") (by decide +kernel) (by decide +kernel)⟩

end RootfsKept
