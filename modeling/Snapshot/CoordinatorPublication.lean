import Snapshot.CoordinatorPlan
import Snapshot.CoordinatorState
import Snapshot.CuInterposeWire

/-! How the records of a group reach the coordinator, and how its manifest is published for the
restore. Both go through the same message format: each reply is limited in size on its own, and so is
the manifest that holds all of them. -/
namespace Coordinator

open Std (ExtTreeMap)
open CuInterpose CheckedFold
open MessagePack (Bytes)

/-- What arrives on a control socket. -/
structure Frame where
  body : Bytes
  descriptor : Bool

inductive ExchangeError where
  | transport
  | protocol (cause : WireError)
  | unexpectedDescriptor
  | namespacePidChanged (expected actual : NamespacePid)
  | refused (message : Bytes)
  | unexpectedReply (reply : Reply)

/-- A frame that announces more than the limit is refused before its body is read. -/
def receive : Option Frame → Except ExchangeError (Response × Bool)
  | none => .error .transport
  | some frame =>
    if frame.body.length > Protocol.maxMessageBytes then
      .error (.protocol (.invalid "message exceeds size limit"))
    else
      match Protocol.decode Wire.response frame.body with
      | .error cause => .error (.protocol cause)
      | .ok response => .ok (response, frame.descriptor)

def exchange (frame : Option Frame) : Except ExchangeError Response := do
  let (response, descriptor) ← receive frame
  if descriptor then .error .unexpectedDescriptor else .ok response

def request (pid : NamespacePid) (frame : Option Frame) : Except ExchangeError Reply := do
  let response ← exchange frame
  if response.namespacePid ≠ pid then .error (.namespacePidChanged pid response.namespacePid)
  else
    match response.result with
    | .error message => .error (.refused message)
    | .ok reply => .ok reply

def records (pid : NamespacePid) (frame : Option Frame) : Except ExchangeError (List Record) := do
  match ← request pid frame with
  | .inspection records => .ok records
  | actual => .error (.unexpectedReply actual)

/-- The records of all peers, by the frames with which they answer. -/
def collectRecords (answers : NamespacePid → Option Frame) (peers : List NamespacePid) :
    Except (NamespacePid × ExchangeError) Manifest := do
  let l ← peers.mapM fun pid =>
    match records pid (answers pid) with
    | .error cause => .error (pid, cause)
    | .ok records => .ok (pid, records)
  return ExtTreeMap.ofList l compare

/-! ## Publication -/

/-- The calls of a publication that the filesystem may refuse. -/
inductive FileStep where
  | createTemporary
  | write
  | syncFile
  | persist
  | syncDirectory
  deriving DecidableEq, Repr

abbrev FilePath := List Bytes

structure Disk where
  directories : List FilePath
  files : FilePath → Option Bytes
  fails : FileStep → Bool

/-- Nothing has this name. -/
def Disk.Fresh (d : Disk) (path : FilePath) : Prop := d.files path = none ∧ path ∉ d.directories

instance (d : Disk) (path : FilePath) : Decidable (d.Fresh path) :=
  inferInstanceAs (Decidable (_ = _ ∧ _))

def parent : FilePath → Option FilePath
  | [] => none
  | path => some path.dropLast

inductive PublishError where
  | protocol (cause : WireError)
  | missingCheckpointDirectory
  | filesystem (step : FileStep)
  deriving DecidableEq, Repr

/-- `write_atomic`: the sorted manifest goes to a private temporary file, which is then given its name
without replacing another. A failure before that leaves the disk as it was. -/
def writeAtomic (d : Disk) (path : FilePath) (m : Manifest) : Except PublishError Unit × Disk :=
  match Protocol.encode Wire.manifest (sorted m) with
  | .error cause => (.error (.protocol cause), d)
  | .ok bytes =>
    match parent path with
    | none => (.error .missingCheckpointDirectory, d)
    | some directory =>
      if d.fails .createTemporary ∨ directory ∉ d.directories then (.error (.filesystem .createTemporary), d)
      else if d.fails .write then (.error (.filesystem .write), d)
      else if d.fails .syncFile then (.error (.filesystem .syncFile), d)
      else if d.fails .persist ∨ ¬d.Fresh path then (.error (.filesystem .persist), d)
      else
        let d := { d with files := Function.update d.files path (some bytes) }
        if d.fails .syncDirectory then (.error (.filesystem .syncDirectory), d) else (.ok (), d)

inductive StateError where
  | open
  | protocol (cause : WireError)
  | noParticipants
  deriving DecidableEq, Repr

/-- `state::read`: one byte over the limit is read, to tell an oversized file. -/
def read (d : Disk) (path : FilePath) : Except StateError Manifest :=
  match d.files path with
  | none => .error .open
  | some contents =>
    match Protocol.decode Wire.manifest (contents.take (Protocol.maxMessageBytes + 1)) with
    | .error cause => .error (.protocol cause)
    | .ok participants => if participants.isEmpty then .error .noParticipants else .ok participants

variable {answers : NamespacePid → Option Frame} {peers : List NamespacePid} {m m' : Manifest}
  {l : List AllocationSummary} {d : Disk} {path : FilePath}

theorem receive_eq_ok {frame : Option Frame} {x : Response × Bool} :
    receive frame = .ok x ↔ ∃ body, frame = some ⟨body, x.2⟩ ∧ Protocol.decode Wire.response body = .ok x.1 := by
  cases frame with
  | none => simp [receive]
  | some frame =>
    obtain ⟨body, descriptor⟩ := frame
    rw [receive]
    split
    next hsize =>
      -- The decoder refuses what is over the limit as well.
      simp [Protocol.decode, hsize]
    next hsize =>
      cases hdecode : Protocol.decode Wire.response body with
      | error cause => simp [hdecode]
      | ok response =>
        obtain ⟨found, descriptor'⟩ := x
        simp [hdecode, and_comm]

theorem exchange_eq_ok {frame : Option Frame} {response : Response} :
    exchange frame = .ok response ↔
      ∃ body, frame = some ⟨body, false⟩ ∧ Protocol.decode Wire.response body = .ok response := by
  rw [exchange, bind_eq_ok]
  simp only [receive_eq_ok]
  constructor
  · rintro ⟨⟨found, descriptor⟩, ⟨body, hframe, hdecode⟩, hdescriptor⟩
    cases descriptor with
    | true => cases hdescriptor
    | false =>
      cases hdescriptor
      exact ⟨body, hframe, hdecode⟩
  · rintro ⟨body, hframe, hdecode⟩
    exact ⟨(response, false), ⟨body, hframe, hdecode⟩, rfl⟩

theorem request_eq_ok {pid : NamespacePid} {frame : Option Frame} {reply : Reply} :
    request pid frame = .ok reply ↔
      ∃ body, frame = some ⟨body, false⟩ ∧ Protocol.decode Wire.response body = .ok ⟨pid, .ok reply⟩ := by
  rw [request, bind_eq_ok]
  simp only [exchange_eq_ok]
  constructor
  · rintro ⟨⟨found, result⟩, ⟨body, hframe, hdecode⟩, hreply⟩
    split at hreply
    · cases hreply
    next hpid =>
      obtain rfl : found = pid := not_not.1 hpid
      cases result with
      | error message => cases hreply
      | ok reply' =>
        cases hreply
        exact ⟨body, hframe, hdecode⟩
  · rintro ⟨body, hframe, hdecode⟩
    exact ⟨_, ⟨body, hframe, hdecode⟩, by simp⟩

/-- A peer's records are those of an inspection reply in its own name. -/
theorem records_ok_iff {pid : NamespacePid} {frame : Option Frame} {r : List Record} :
    records pid frame = .ok r ↔ ∃ body, frame = some ⟨body, false⟩ ∧
      Protocol.decode Wire.response body = .ok ⟨pid, .ok (.inspection r)⟩ := by
  rw [records, bind_eq_ok]
  simp only [request_eq_ok]
  constructor
  · rintro ⟨reply, ⟨body, hframe, hdecode⟩, hr⟩
    cases reply with
    | inspection r' =>
      cases hr
      exact ⟨body, hframe, hdecode⟩
    | _ => cases hr
  · rintro ⟨body, hframe, hdecode⟩
    exact ⟨_, ⟨body, hframe, hdecode⟩, rfl⟩

/-- What was received fits the types of the protocol. -/
theorem fits_of_records {pid : NamespacePid} {frame : Option Frame} {r : List Record}
    (h : records pid frame = .ok r) : Wire.u32.Fits pid ∧ Wire.record.list.Fits r := by
  obtain ⟨body, -, hdecode⟩ := records_ok_iff.1 h
  exact Protocol.fits_of_decode hdecode

theorem fits_of_collectRecords (h : collectRecords answers peers = .ok m) : Wire.manifest.Fits m := by
  rw [collectRecords, bind_eq_ok] at h
  obtain ⟨l, hl, h⟩ := h
  cases h
  intro pid r hr
  obtain ⟨peer, -, hpeer⟩ := exists_of_mapM_eq_ok hl _ (OrderedMap.mem_of_getElem?_ofList hr)
  cases hrecords : records peer (answers peer) with
  | error cause =>
    rw [hrecords] at hpeer
    cases hpeer
  | ok found =>
    rw [hrecords] at hpeer
    cases hpeer
    exact fits_of_records hrecords

theorem fits_sorted (h : Wire.manifest.Fits m) : Wire.manifest.Fits (sorted m) := by
  intro pid r hr
  rw [sorted, ExtTreeMap.getElem?_map, Option.map_eq_some_iff] at hr
  obtain ⟨r₀, hr₀, rfl⟩ := hr
  obtain ⟨hpid, hrecords⟩ := h pid r₀ hr₀
  exact ⟨hpid, fun x hx => hrecords x ((sortRecords_perm r₀).mem_iff.1 hx)⟩

/-- The size of the message that holds the manifest of a group. -/
def publishedSize (m : Manifest) : ℕ := (Protocol.message Wire.manifest (sorted m)).length

/-- A publication that succeeded left the manifest's message under its name. -/
theorem files_of_writeAtomic {d' : Disk} (h : writeAtomic d path m = (.ok (), d')) :
    publishedSize m ≤ Protocol.maxMessageBytes ∧
      d'.files path = some (Protocol.message Wire.manifest (sorted m)) := by
  unfold writeAtomic at h
  cases hencode : Protocol.encode Wire.manifest (sorted m) with
  | error cause => simp [hencode] at h
  | ok bytes =>
    obtain ⟨hsize, rfl⟩ := Protocol.encode_eq_ok.1 hencode
    simp only [hencode] at h
    refine ⟨hsize, ?_⟩
    repeat' split at h
    all_goals cases h
    exact Function.update_self ..

/-- What was published is read back. -/
theorem read_of_writeAtomic {d' : Disk} (hfits : Wire.manifest.Fits m) (hne : ¬m.isEmpty)
    (h : writeAtomic d path m = (.ok (), d')) : read d' path = .ok (sorted m) := by
  obtain ⟨hsize, hfiles⟩ := files_of_writeAtomic h
  have hwhole : (Protocol.message Wire.manifest (sorted m)).take (Protocol.maxMessageBytes + 1) =
      Protocol.message Wire.manifest (sorted m) := by
    refine List.take_of_length_le ?_
    rw [publishedSize] at hsize
    omega
  have hdecode := Protocol.decode_message (fits_sorted hfits) (by decide) hsize
  have hempty : (sorted m).isEmpty = false := by simpa [sorted] using hne
  simp [read, hfiles, hwhole, hdecode, hempty]

section Crowded

def crowdedAllocation (pid : NamespacePid) : Record :=
  .allocation ⟨pid, pid⟩ false false (2 ^ 21) 1 0 ⟨1, 0⟩ 1

/-- A participant with one allocation of 2 MiB, mapped at many addresses. -/
def crowded (n : ℕ) (pid : NamespacePid) : List Record :=
  (List.range n).map (fun i => .mapping ⟨pid, pid⟩ (2 ^ 46 + i * 2 ^ 21) (2 ^ 21) 0 []) ++
    [crowdedAllocation pid]

def crowdedGroup (n : ℕ) : Manifest := ExtTreeMap.ofList ([1, 2].map fun pid => (pid, crowded n pid)) compare

variable {n : ℕ}

end Crowded

/-- The check of a group and the plan that follows from it do not depend on the order of the records, so
the restore plans from the published manifest as the preparation did from the replies. -/
theorem validate_ignores_record_order (h : Reordered m m') :
    ((∃ l, validate m = .ok l) ↔ ∃ l, validate m' = .ok l) ∧
      (∀ l l', validate m = .ok l → validate m' = .ok l' → l = l') ∧
      ∀ answers peers l d path d', collectRecords answers peers = .ok m → validate m = .ok l →
        writeAtomic d path m = (.ok (), d') →
        ∃ expected l', read d' path = .ok expected ∧ validate expected = .ok l' ∧
          ∀ pid, ownersFor l' pid = ownersFor l pid ∧ expectedBytes l' pid = expectedBytes l pid := by
  refine ⟨⟨fun ⟨l, hl⟩ => ⟨l, h.validate hl⟩, fun ⟨l, hl⟩ => ⟨l, h.symm.validate hl⟩⟩, fun l l' hl hl' => ?_,
    fun answers peers l d path d' hcollect hl hwrite => ?_⟩
  · exact Except.ok.inj ((h.validate hl).symm.trans hl')
  · have hread := read_of_writeAtomic (fits_of_collectRecords hcollect) (validate_eq_ok.1 hl).1.nonempty hwrite
    exact ⟨sorted m, l, hread, validate_sorted hl, fun pid => ⟨rfl, rfl⟩⟩

/-- A mapping that precedes the record of its allocation. -/
theorem validate_ignores_record_order_crowded :
    Reordered (crowdedGroup 1) (sorted (crowdedGroup 1)) ∧
      ((∃ l, validate (crowdedGroup 1) = .ok l) ↔ ∃ l, validate (sorted (crowdedGroup 1)) = .ok l) :=
  ⟨reordered_sorted _, (validate_ignores_record_order (reordered_sorted _)).1⟩

end Coordinator
