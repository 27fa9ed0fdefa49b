import Mathlib.Algebra.BigOperators.Group.List.Basic
import Mathlib.Algebra.Order.Ring.Nat
import Mathlib.Data.List.Nodup
import Snapshot.ObservedProgram

/-! The worker of the Model Streamer. It admits queued submissions to the native library within a number
and a budget of bytes, takes one response at a time, and ends the native session when all that is left
of it has failed. What callers, clocks and the library do is observed. -/
namespace StreamerWorker

open ObservedProgram (Spec)

/-! ## Submissions -/

def maxUnsigned : ℕ := 2 ^ 32 - 1

def maxOffset : UInt64 := 0x7fffffffffffffff

/-- The sizes of the files of a request, and their sum as the entry keeps it. -/
structure Request where
  sizes : List UInt64
  bytes : UInt64

/-- `TryAddFile` up to the creation of the file. -/
def Request.tryAddFile (batchBytes : UInt64) (r : Request) (size : UInt64) : Except String (Option Request) :=
  if r.sizes ≠ [] ∧ (batchBytes ≤ r.bytes ∨ batchBytes - r.bytes < size) then .ok none
  else if r.sizes.length = maxUnsigned then .error "too many files in one Model Streamer submission"
  else if size = 0 ∨ maxOffset < size then .error "invalid restore file size"
  else .ok (some ⟨r.sizes ++ [size], r.bytes + size⟩)

/-- What `PrepareNextBatch` can make of an entry. -/
inductive Prepared (batchBytes : UInt64) : Request → Prop where
  | empty : Prepared batchBytes ⟨[], 0⟩
  | add {r r' : Request} (size : UInt64) : Prepared batchBytes r → r.tryAddFile batchBytes size = .ok (some r') →
      Prepared batchBytes r'

/-- A published entry as its caller made it; an empty request is not published. -/
structure Submission (batchBytes : UInt64) where
  key : ℕ
  /-- The restore that the entry shares its error with. -/
  restore : ℕ
  request : Request
  prepared : Prepared batchBytes request
  nonempty : request.sizes ≠ []

structure StreamerEntry (batchBytes : UInt64) where
  submission : Submission batchBytes
  completed : List Bool
  responsesReceived : UInt64
  firstError : String

section Model

variable {batchBytes : UInt64}

def StreamerEntry.bytes (e : StreamerEntry batchBytes) : UInt64 := e.submission.request.bytes

def StreamerEntry.start (e : Submission batchBytes) : StreamerEntry batchBytes :=
  ⟨e, List.replicate e.request.sizes.length false, 0, ""⟩

/-- A response is still missing. -/
def StreamerEntry.missing (e : StreamerEntry batchBytes) : Bool := e.responsesReceived.toNat < e.completed.length

def StreamerEntry.failed (e : StreamerEntry batchBytes) : Bool := e.firstError ≠ ""

/-! ## Observations -/

/-- The answers of the native library. -/
inductive Status where
  | success
  | fileAccessError
  | eofError
  | fileTruncatedError
  | timedOut
  | unknownError
  | other (code : ℕ)
  deriving DecidableEq

def isRecoverableRangeStatus : Status → Bool
  | .success | .fileAccessError | .eofError | .fileTruncatedError => true
  | _ => false

structure StreamerResponse where
  status : Status
  submissionId : UInt64
  fileIndex : ℕ
  rangeIndex : ℕ
  submissionDone : ℤ

inductive Failure where
  | cancelled (reason : String)
  | error (text : String)

/-- What is found at some moment. -/
structure Moment (batchBytes : UInt64) where
  /-- Entries that callers have queued since the queue was last seen. -/
  queued : List (Submission batchBytes)
  stopped : Bool
  /-- The reason of the cancellation that an entry is under. -/
  reason : ℕ → Option String
  withdrawn : ℕ → Bool
  expired : ℕ → Bool
  start : Option String
  requestStatus : Status
  requestId : UInt64
  response : StreamerResponse
  describe : Status → Option String

def streamerError (m : Moment batchBytes) (status : Status) : String :=
  (m.describe status).getD "unknown Model Streamer error"

/-! ## The worker -/

abbrev Active (batchBytes : UInt64) := List (UInt64 × StreamerEntry batchBytes)

/-- The decisions of the worker, each with the entries that were active. -/
inductive Decision (batchBytes : UInt64) where
  | admitted (active : Active batchBytes)
  | drained (active : Active batchBytes)
  | continued (active : Active batchBytes)

structure Ledger (batchBytes : UInt64) where
  active : Active batchBytes
  activeBytes : UInt64
  unfinished : UInt64
  decisions : List (Decision batchBytes)

structure Worker (batchBytes : UInt64) where
  streamerHandle : Bool
  pending : List (Submission batchBytes)
  ledger : Ledger batchBytes
  restoreError : ℕ → Option Failure
  completions : List (ℕ × Except Failure Unit)

def Worker.start : Worker batchBytes := ⟨false, [], ⟨[], 0, 0, []⟩, fun _ => none, []⟩

abbrev Work (batchBytes : UInt64) (α : Type) : Type :=
  ObservedProgram (Worker batchBytes) (Moment batchBytes) Failure α

def kActiveSubmissionLimit : ℕ := 8

def Ledger.canAdmit (l : Ledger batchBytes) (e : Submission batchBytes) : Bool :=
  if kActiveSubmissionLimit ≤ l.active.length ∨ l.active.any (·.2.failed) then false
  else if l.active = [] then true
  else if batchBytes ≤ l.activeBytes then false
  else e.request.bytes ≤ batchBytes - l.activeBytes

/-- The pending queue as it is when its lock is held. -/
def lockPending : Work batchBytes (Moment batchBytes) := do
  let m ← ObservedProgram.observe
  ObservedProgram.modify fun s => { s with pending := s.pending ++ m.queued }
  pure m

/-- Only its own cancellation gives an entry a cancellation reason. -/
def entryError (m : Moment batchBytes) (e : Submission batchBytes) (error : Failure) : Failure :=
  match m.reason e.key, error with
  | some reason, _ => .cancelled reason
  | none, .cancelled _ => .error "Model Streamer session interrupted by another submission's cancellation"
  | none, .error text => .error text

def failEntry (e : Submission batchBytes) (error : Failure) : Work batchBytes Unit := do
  let m ← ObservedProgram.observe
  ObservedProgram.modify fun s => { s with completions := s.completions ++ [(e.key, .error (entryError m e error))] }

def interruption (m : Moment batchBytes) (s : Worker batchBytes) (e : Submission batchBytes) : Option Failure :=
  match m.reason e.key with
  | some reason => some (.cancelled reason)
  | none => s.restoreError e.restore

/-- `TakeInterruptedSubmission`: the first interrupted entry of the queue and why it is. -/
def takeInterruptedSubmission : Work batchBytes (Option (Submission batchBytes × Failure)) := do
  let m ← lockPending
  let s ← ObservedProgram.get
  ObservedProgram.modify fun s => { s with pending := s.pending.eraseP fun e => (interruption m s e).isSome }
  pure (s.pending.findSome? fun e => (interruption m s e).map fun error => (e, error))

def discardRound : Work batchBytes Bool := do
  match ← takeInterruptedSubmission with
  | none => pure false
  | some (e, error) => do
    failEntry e error
    pure true

/-- Nothing is selected when the worker is stopped or the front of the queue does not fit. -/
def selectPendingSubmission : Work batchBytes (Option (Submission batchBytes)) := do
  let m ← lockPending
  let s ← ObservedProgram.get
  pure (if m.stopped then none else s.pending.head?.filter fun e => s.ledger.canAdmit e)

inductive Claim where
  | stopped
  | withdrawn
  | claimed

def tryClaimSubmission (e : Submission batchBytes) : Work batchBytes Claim := do
  let m ← lockPending
  pure (if m.stopped then .stopped else if m.withdrawn e.key then .withdrawn else .claimed)

/-- The session is started with the first submission that is admitted to it. -/
def ensureStarted : Work batchBytes Unit := do
  let s ← ObservedProgram.get
  if s.streamerHandle then pure ()
  else do
    let m ← ObservedProgram.observe
    match m.start with
    | some text => ObservedProgram.throw (.error text)
    | none => ObservedProgram.modify fun s => { s with streamerHandle := true }

/-- The first error of a restore stays. -/
def setRestoreError (restore : ℕ) (error : Failure) : Work batchBytes Failure := do
  let s ← ObservedProgram.get
  let first := (s.restoreError restore).getD error
  ObservedProgram.modify fun s => { s with restoreError := fun r => if r = restore then some first else s.restoreError r }
  pure first

def rejectSubmission (e : Submission batchBytes) (error : Failure) : Work batchBytes UInt64 := do
  let first ← setRestoreError e.restore error
  failEntry e first
  pure 0

/-- The native ID, or zero for an entry that was rejected. -/
def submitToStreamer (e : Submission batchBytes) : Work batchBytes UInt64 := do
  let m ← ObservedProgram.observe
  if m.requestStatus ≠ .success then
    if m.requestStatus = .unknownError ∨ m.requestId ≠ 0 then
      ObservedProgram.throw (.error ("submit Model Streamer restore: " ++ streamerError m m.requestStatus))
    else rejectSubmission e (.error ("submit Model Streamer restore: " ++ streamerError m m.requestStatus))
  else if m.requestId = 0 then
    ObservedProgram.throw (.error "Model Streamer accepted a submission without assigning an ID")
  else pure m.requestId

def Ledger.register (id : UInt64) (e : Submission batchBytes) (l : Ledger batchBytes) : Ledger batchBytes :=
  { active := l.active ++ [(id, .start e)]
    activeBytes := l.activeBytes + e.request.bytes
    unfinished := l.unfinished + 1
    decisions := l.decisions ++ [.admitted l.active] }

def registerSubmission (id : UInt64) (e : Submission batchBytes) : Work batchBytes Unit := do
  let s ← ObservedProgram.get
  if s.ledger.active.any (·.1 = id) then
    ObservedProgram.throw (.error "Model Streamer returned a duplicate submission ID")
  else ObservedProgram.modify fun s => { s with ledger := s.ledger.register id e }

def submitClaimed (e : Submission batchBytes) : Work batchBytes Bool := do
  let id ← submitToStreamer e
  if id = 0 then pure true
  else do
    registerSubmission id e
    pure true

/-- Whether the entry was handled; it was not when admission is closed. -/
def admitAndSubmit (e : Submission batchBytes) : Work batchBytes Bool := do
  let m ← ObservedProgram.observe
  match m.reason e.key with
  | some reason => do
    failEntry e (.cancelled reason)
    pure true
  | none => do
    match ← tryClaimSubmission e with
    | .stopped => pure false
    | .withdrawn => pure true
    | .claimed => submitClaimed e

def removeHandledSubmission : Work batchBytes Unit := do
  let _ ← lockPending
  ObservedProgram.modify fun s => { s with pending := s.pending.tail }

def submitSelected (e : Submission batchBytes) : Work batchBytes Bool := do
  ensureStarted
  if ← admitAndSubmit e then do
    removeHandledSubmission
    pure true
  else pure false

/-- One round of `SubmitPending`; a rejection in the round before may have failed a queued sibling. -/
def submitRound (fuel : ℕ) : Work batchBytes Bool := do
  ObservedProgram.loop discardRound fuel
  match ← selectPendingSubmission with
  | none => pure false
  | some e => submitSelected e

/-- The entry with one more response. -/
def StreamerEntry.receive (m : Moment batchBytes) (e : StreamerEntry batchBytes) : StreamerEntry batchBytes :=
  { e with
    firstError :=
      if m.response.status ≠ .success ∧ e.firstError = "" then
        "Model Streamer restore range: " ++ streamerError m m.response.status
      else e.firstError
    completed := e.completed.set m.response.fileIndex true
    responsesReceived := e.responsesReceived + 1 }

def StreamerEntry.expectedDone (e : StreamerEntry batchBytes) : ℤ :=
  if e.responsesReceived.toNat = e.completed.length then 1 else 0

/-- Takes one response into the entry it is for, and says whether it was the last one. -/
def acceptEntry (m : Moment batchBytes) (e : StreamerEntry batchBytes) :
    Except String (StreamerEntry batchBytes × Bool) :=
  let r := m.response
  if e.completed.length ≤ e.responsesReceived.toNat then
    .error "Model Streamer returned too many responses for a submission"
  else if e.completed.length ≤ r.fileIndex then .error "Model Streamer returned an invalid file index"
  else if r.rangeIndex ≠ 0 ∨ e.completed[r.fileIndex]? = some true then
    .error "Model Streamer returned an invalid or duplicate range response"
  else if r.submissionDone ≠ (e.receive m).expectedDone then
    .error "Model Streamer reported inconsistent submission completion"
  else .ok (e.receive m, (e.receive m).expectedDone ≠ 0)

/-- An entry changes in place. -/
def replace (id : UInt64) (e : StreamerEntry batchBytes) (active : Active batchBytes) : Active batchBytes :=
  active.map fun a => if a.1 = id then (id, e) else a

def Ledger.accept (id : UInt64) (e : StreamerEntry batchBytes) (done : Bool) (l : Ledger batchBytes) : Ledger batchBytes :=
  { l with
    active := replace id e l.active
    unfinished := if done then l.unfinished - 1 else l.unfinished }

/-- The entry that its last response has completed without an error. -/
abbrev Completed (batchBytes : UInt64) := Option (UInt64 × StreamerEntry batchBytes)

def dispatch (m : Moment batchBytes) : Work batchBytes (Completed batchBytes) := do
  let s ← ObservedProgram.get
  match s.ledger.active.find? (·.1 = m.response.submissionId) with
  | none => ObservedProgram.throw (.error "Model Streamer returned a response for an unknown submission")
  | some a =>
    match acceptEntry m a.2 with
    | .error text => ObservedProgram.throw (.error text)
    | .ok (e, done) => do
      ObservedProgram.modify fun s => { s with ledger := s.ledger.accept a.1 e done }
      pure (if done ∧ e.failed = false then some (a.1, e) else none)

def pollResponse : Work batchBytes (Completed batchBytes) := do
  let m ← ObservedProgram.observe
  if m.response.status = .timedOut then pure none
  else if isRecoverableRangeStatus m.response.status = false then
    ObservedProgram.throw (.error ("Model Streamer session failed: " ++ streamerError m m.response.status))
  else dispatch m

/-- Why an active entry ends the session. -/
def activeFailure (m : Moment batchBytes) (a : UInt64 × StreamerEntry batchBytes) : Option Failure :=
  match m.reason a.2.submission.key with
  | some reason => some (.cancelled reason)
  | none =>
    if m.expired a.2.submission.key then
      some (.error ("Model Streamer submission " ++ toString a.1.toNat ++ " timed out"))
    else none

def checkActive : Work batchBytes Unit := do
  let m ← ObservedProgram.observe
  let s ← ObservedProgram.get
  match s.ledger.active.findSome? (activeFailure m) with
  | some error => ObservedProgram.throw error
  | none => pure ()

def Ledger.retire (completed : Completed batchBytes) (l : Ledger batchBytes) : Ledger batchBytes :=
  match completed with
  | none => l
  | some a =>
    { l with
      active := l.active.filter fun b => b.1 ≠ a.1
      activeBytes := l.activeBytes - a.2.bytes }

def retireCompleted (completed : Completed batchBytes) : Work batchBytes Unit :=
  ObservedProgram.modify fun s =>
    { s with
      ledger := s.ledger.retire completed
      completions := s.completions ++ completed.toList.map fun a => (a.2.submission.key, .ok ()) }

/-- Queued siblings are fenced before a caller is woken. -/
def failActive : Active batchBytes → Work batchBytes Unit
  | [] => pure ()
  | a :: rest => do
    let first ← setRestoreError a.2.submission.restore (.error a.2.firstError)
    failEntry a.2.submission first
    failActive rest

def Ledger.drain (l : Ledger batchBytes) : Ledger batchBytes :=
  { l with active := [], activeBytes := 0, decisions := l.decisions ++ [.drained l.active] }

def stopStreamer : Work batchBytes Unit := ObservedProgram.modify fun s => { s with streamerHandle := false }

def finishFailedSession : Work batchBytes Unit := do
  let s ← ObservedProgram.get
  stopStreamer
  failActive s.ledger.active
  ObservedProgram.modify fun s => { s with ledger := s.ledger.drain }

def Ledger.continue (l : Ledger batchBytes) : Ledger batchBytes :=
  { l with decisions := l.decisions ++ [.continued l.active] }

/-- Healthy idle sessions stay open. -/
def finishSession : Work batchBytes Unit := do
  let s ← ObservedProgram.get
  if s.ledger.unfinished = 0 ∧ s.ledger.active ≠ [] then finishFailedSession
  else ObservedProgram.modify fun s => { s with ledger := s.ledger.continue }

def serveActive : Work batchBytes Unit := do
  let completed ← pollResponse
  checkActive
  retireCompleted completed
  finishSession

def processWork (fuel : ℕ) : Work batchBytes Unit := do
  ObservedProgram.loop (submitRound fuel) fuel
  let s ← ObservedProgram.get
  if s.ledger.active = [] then pure () else serveActive

/-- The worker after a number of rounds. -/
def run (fuel rounds : ℕ) : Work batchBytes Unit := ObservedProgram.rounds (fun _ => processWork fuel) rounds 0

end Model

/-! ## Accounting -/

section Accounting

variable {batchBytes : UInt64}

def activeSum (active : Active batchBytes) : ℕ := (active.map fun a => a.2.bytes.toNat).sum

/-- An entry has taken one response for each range that is marked. -/
def StreamerEntry.Counted (e : StreamerEntry batchBytes) : Prop :=
  e.completed.length ≤ maxUnsigned ∧ e.responsesReceived.toNat = e.completed.count true

/-- The counters agree with the active entries; of those without a missing response, all have failed but
the one that is about to be removed. -/
structure Accounted (completed : Completed batchBytes) (l : Ledger batchBytes) : Prop where
  ids : (l.active.map (·.1)).Nodup
  bytes : l.activeBytes.toNat = activeSum l.active
  unfinished : l.unfinished.toNat = l.active.countP (·.2.missing)
  limit : l.active.length ≤ kActiveSubmissionLimit
  budget : l.active.length ≠ 1 → l.activeBytes.toNat ≤ batchBytes.toNat
  counted : ∀ a ∈ l.active, a.2.Counted
  failed : ∀ a ∈ l.active, a.2.missing = false → a.2.failed = true ∨ completed = some a
  completed_mem : ∀ a, completed = some a → a ∈ l.active ∧ a.2.missing = false

/-- Admission finds no failed entry; a session is ended exactly when all that is active is finished and
something has failed. -/
def Decision.Justified : Decision batchBytes → Prop
  | .admitted active => ∀ a ∈ active, a.2.failed = false
  | .drained active => (∀ a ∈ active, a.2.missing = false) ∧ ∃ a ∈ active, a.2.failed = true
  | .continued active => ¬((∀ a ∈ active, a.2.missing = false) ∧ ∃ a ∈ active, a.2.failed = true)

def Ledger.Justified (l : Ledger batchBytes) : Prop := ∀ d ∈ l.decisions, d.Justified

theorem Ledger.Justified.append {d : Decision batchBytes} {ds : List (Decision batchBytes)}
    (h : ∀ d ∈ ds, d.Justified) (hd : d.Justified) : ∀ x ∈ ds ++ [d], x.Justified := by
  intro x hx
  rcases List.mem_append.1 hx with hx | hx
  · exact h x hx
  · rwa [List.mem_singleton.1 hx]

theorem Prepared.length_le {r : Request} (h : Prepared batchBytes r) : r.sizes.length ≤ maxUnsigned := by
  induction h with
  | empty => exact Nat.zero_le _
  | @add r r' size _ hadd ih =>
    rw [Request.tryAddFile] at hadd
    split at hadd
    · cases hadd
    · split at hadd
      · cases hadd
      · split at hadd
        · cases hadd
        · cases hadd
          rw [List.length_append, List.length_singleton]
          omega

/-! ### Admission -/

theorem counted_start (e : Submission batchBytes) : (StreamerEntry.start e).Counted := by
  refine ⟨?_, ?_⟩
  · rw [StreamerEntry.start, List.length_replicate]
    exact e.prepared.length_le
  · simp [StreamerEntry.start, List.count_replicate]

theorem missing_start (e : Submission batchBytes) : (StreamerEntry.start e).missing = true := by
  have := List.length_pos_of_ne_nil e.nonempty
  simpa [StreamerEntry.missing, StreamerEntry.start] using this

/-- What is admitted to other entries keeps within the budget. -/
theorem canAdmit_eq_true {l : Ledger batchBytes} {e : Submission batchBytes} (h : l.canAdmit e = true) :
    l.active.length < kActiveSubmissionLimit ∧ (∀ a ∈ l.active, a.2.failed = false) ∧
      (l.active = [] ∨ l.activeBytes.toNat + e.request.bytes.toNat ≤ batchBytes.toNat) := by
  rw [Ledger.canAdmit] at h
  split at h
  · cases h
  · rename_i hopen
    rw [not_or, not_le] at hopen
    refine ⟨hopen.1, fun a ha => ?_, ?_⟩
    · by_contra hfailed
      exact hopen.2 (List.any_eq_true.2 ⟨a, ha, by simpa using hfailed⟩)
    · split at h
      · exact .inl ‹_›
      · split at h
        · cases h
        · rename_i hbudget
          rw [decide_eq_true_eq, UInt64.le_iff_toNat_le] at h
          rw [UInt64.le_iff_toNat_le] at hbudget
          rw [UInt64.toNat_sub_of_le _ _ (UInt64.le_iff_toNat_le.2 (by omega))] at h
          exact .inr (by omega)

theorem activeSum_append (a b : Active batchBytes) : activeSum (a ++ b) = activeSum a + activeSum b := by
  simp [activeSum]

/-- The limits keep the counters far from their ends, so that admission adds without a wrap. -/
theorem Accounted.register {l : Ledger batchBytes} (h : Accounted none l) {id : UInt64} {e : Submission batchBytes}
    (hadmitted : l.canAdmit e = true) (hid : l.active.any (·.1 = id) = false) :
    Accounted none (l.register id e) := by
  obtain ⟨hlimit, -, hbudget⟩ := canAdmit_eq_true hadmitted
  have hbytes : (l.activeBytes + e.request.bytes).toNat = l.activeBytes.toNat + e.request.bytes.toNat := by
    rw [UInt64.toNat_add]
    refine Nat.mod_eq_of_lt ?_
    rcases hbudget with hnil | hle
    · have hzero := h.bytes
      rw [hnil] at hzero
      have := e.request.bytes.toNat_lt
      have hsum : activeSum ([] : Active batchBytes) = 0 := rfl
      omega
    · have := batchBytes.toNat_lt
      omega
  have hcount : (l.unfinished + 1).toNat = l.unfinished.toNat + 1 := by
    rw [UInt64.toNat_add]
    have hle := List.countP_le_length (p := fun a : UInt64 × StreamerEntry batchBytes => a.2.missing) (l := l.active)
    rw [← h.unfinished] at hle
    simp only [kActiveSubmissionLimit] at hlimit
    exact Nat.mod_eq_of_lt (by simp only [UInt64.toNat_one]; omega)
  have hnew : ∀ a ∈ l.active ++ [(id, StreamerEntry.start e)], a ∈ l.active ∨ a = (id, .start e) := by
    intro a ha
    simpa using ha
  refine ⟨?_, ?_, ?_, ?_, fun hne => ?_, fun a ha => ?_, fun a ha hdone => ?_, by simp⟩
  · rw [Ledger.register, List.map_append, List.nodup_append]
    refine ⟨h.ids, by simp, fun x hx y hy heq => ?_⟩
    obtain ⟨a, ha, rfl⟩ := List.mem_map.1 hx
    have hy' : y = id := by simpa using hy
    rw [List.any_eq_false] at hid
    exact hid a ha (by simp [heq, hy'])
  · rw [Ledger.register, hbytes, h.bytes, activeSum_append]
    simp [activeSum, StreamerEntry.bytes, StreamerEntry.start]
  · rw [Ledger.register, hcount, h.unfinished, List.countP_append]
    simp [missing_start]
  · simp only [Ledger.register, List.length_append, List.length_singleton]
    omega
  · rw [Ledger.register, hbytes]
    rcases hbudget with hnil | hle
    · exact absurd (by simp [Ledger.register, hnil]) hne
    · exact hle
  · rcases hnew a ha with ha | rfl
    · exact h.counted a ha
    · exact counted_start e
  · rcases hnew a ha with ha | rfl
    · exact h.failed a ha hdone
    · rw [missing_start] at hdone
      cases hdone

/-! ### Responses -/

section Split

variable {front back : Active batchBytes} {a : UInt64 × StreamerEntry batchBytes}

theorem ne_of_nodup_ids (h : ((front ++ a :: back).map (·.1)).Nodup) : ∀ b ∈ front ++ back, b.1 ≠ a.1 := by
  rw [List.map_append, List.map_cons, List.nodup_middle, List.nodup_cons] at h
  intro b hb heq
  refine h.1 ?_
  rw [← List.map_append, ← heq]
  exact List.mem_map_of_mem hb

theorem replace_eq (h : ((front ++ a :: back).map (·.1)).Nodup) (e : StreamerEntry batchBytes) :
    replace a.1 e (front ++ a :: back) = front ++ (a.1, e) :: back := by
  have hother := ne_of_nodup_ids h
  have hkeep : ∀ l : Active batchBytes, (∀ b ∈ l, b.1 ≠ a.1) → replace a.1 e l = l := by
    intro l hl
    rw [replace, List.map_congr_left fun b hb => if_neg (hl b hb), List.map_id']
  rw [replace, List.map_append, List.map_cons, if_pos rfl, ← replace, ← replace,
    hkeep front fun b hb => hother b (List.mem_append_left _ hb),
    hkeep back fun b hb => hother b (List.mem_append_right _ hb)]

theorem filter_ne_eq (h : ((front ++ a :: back).map (·.1)).Nodup) :
    (front ++ a :: back).filter (fun b => b.1 ≠ a.1) = front ++ back := by
  have hother := ne_of_nodup_ids h
  rw [List.filter_append, List.filter_cons, if_neg (by simp), ← List.filter_append, List.filter_eq_self]
  intro b hb
  simpa using hother b hb

theorem activeSum_middle : activeSum (front ++ a :: back) = activeSum (front ++ back) + a.2.bytes.toNat := by
  simp only [activeSum, List.map_append, List.map_cons, List.sum_append, List.sum_cons]
  omega

theorem countP_middle (p : UInt64 × StreamerEntry batchBytes → Bool) :
    (front ++ a :: back).countP p = (front ++ back).countP p + if p a then 1 else 0 := by
  simp only [List.countP_append, List.countP_cons]
  omega

theorem mem_middle {b : UInt64 × StreamerEntry batchBytes} : b ∈ front ++ a :: back ↔ b ∈ front ++ back ∨ b = a := by
  simp only [List.mem_append, List.mem_cons]
  tauto

end Split

/-- The last response of an entry takes it from the unfinished ones. -/
theorem Accounted.accept {l : Ledger batchBytes} (h : Accounted none l) {a : UInt64 × StreamerEntry batchBytes}
    {e : StreamerEntry batchBytes} {done : Bool} (ha : a ∈ l.active) (hmissing : a.2.missing = true)
    (hsubmission : e.submission = a.2.submission) (hcounted : e.Counted) (hdone : e.missing = !done) :
    Accounted (if done ∧ e.failed = false then some (a.1, e) else none) (l.accept a.1 e done) := by
  obtain ⟨front, back, hsplit⟩ := List.append_of_mem ha
  have hids := h.ids
  have hbytes := h.bytes
  have hcount := h.unfinished
  rw [hsplit] at hids hbytes hcount
  have hactive : (l.accept a.1 e done).active = front ++ (a.1, e) :: back := by
    rw [Ledger.accept, hsplit, replace_eq hids]
  have hlength : (front ++ (a.1, e) :: back).length = l.active.length := by
    rw [hsplit]
    simp
  have hold : ∀ b ∈ front ++ back, b ∈ l.active := fun b hb => hsplit ▸ mem_middle.2 (.inl hb)
  rw [countP_middle, if_pos hmissing] at hcount
  refine ⟨?_, ?_, ?_, ?_, ?_, fun b hb => ?_, fun b hb hfinished => ?_, fun b hb => ?_⟩
  · rw [hactive]
    simpa using hids
  · rw [hactive, activeSum_middle, Ledger.accept, hbytes, activeSum_middle]
    simp [StreamerEntry.bytes, hsubmission]
  · rw [hactive, countP_middle, hdone, Ledger.accept]
    cases done with
    | false => simpa using hcount
    | true =>
      have hone : (1 : UInt64) ≤ l.unfinished := by
        rw [UInt64.le_iff_toNat_le, hcount, UInt64.toNat_one]
        omega
      simp [UInt64.toNat_sub_of_le _ _ hone, hcount]
  · rw [hactive, hlength]
    exact h.limit
  · rw [hactive, hlength]
    exact h.budget
  · rw [hactive, mem_middle] at hb
    rcases hb with hb | rfl
    · exact h.counted b (hold b hb)
    · exact hcounted
  · rw [hactive, mem_middle] at hb
    rcases hb with hb | rfl
    · exact .inl ((h.failed b (hold b hb) hfinished).resolve_right (by simp))
    · rw [hdone] at hfinished
      cases hfailed : e.failed with
      | true => exact .inl rfl
      | false => exact .inr (if_pos ⟨by simpa using hfinished, rfl⟩)
  · by_cases hcond : done = true ∧ e.failed = false
    · rw [if_pos hcond, Option.some.injEq] at hb
      subst hb
      rw [hactive, mem_middle]
      exact ⟨.inr rfl, by rw [hdone, hcond.1, Bool.not_true]⟩
    · rw [if_neg hcond] at hb
      cases hb

/-- The entry that is removed was finished, so the unfinished ones stay as they are. -/
theorem Accounted.retire {l : Ledger batchBytes} {completed : Completed batchBytes} (h : Accounted completed l) :
    Accounted none (l.retire completed) := by
  cases completed with
  | none => exact h
  | some a =>
    obtain ⟨ha, hfinished⟩ := h.completed_mem a rfl
    obtain ⟨front, back, hsplit⟩ := List.append_of_mem ha
    have hids := h.ids
    have hbytes := h.bytes
    have hcount := h.unfinished
    have hlimit := h.limit
    have hbudget := h.budget
    rw [hsplit] at hids hbytes hcount hlimit hbudget
    have hactive : (l.retire (some a)).active = front ++ back := by
      rw [Ledger.retire, hsplit, filter_ne_eq hids]
    have hold : ∀ b ∈ front ++ back, b ∈ l.active := fun b hb => hsplit ▸ mem_middle.2 (.inl hb)
    rw [activeSum_middle] at hbytes
    have hsub : (l.activeBytes - a.2.bytes).toNat = activeSum (front ++ back) := by
      rw [UInt64.toNat_sub_of_le _ _ (UInt64.le_iff_toNat_le.2 (by omega))]
      omega
    have hlength : (front ++ a :: back).length = (front ++ back).length + 1 := by simp; omega
    rw [hlength] at hlimit hbudget
    refine ⟨?_, ?_, ?_, ?_, fun hne => ?_, fun b hb => ?_, fun b hb hdone => ?_, by simp⟩
    · rw [hactive]
      rw [List.map_append, List.map_cons, List.nodup_middle, List.nodup_cons] at hids
      rw [List.map_append]
      exact hids.2
    · rw [hactive, Ledger.retire, hsub]
    · rw [hactive, Ledger.retire, hcount, countP_middle]
      simp [hfinished]
    · rw [hactive]
      omega
    · rw [Ledger.retire, hsub]
      by_cases hnil : front ++ back = []
      · rw [hnil]
        exact Nat.zero_le _
      · have := hbudget (by simpa using hnil)
        omega
    · rw [hactive] at hb
      exact h.counted b (hold b hb)
    · rw [hactive] at hb
      refine (h.failed b (hold b hb) hdone).imp_right fun heq => ?_
      cases heq
      exact absurd rfl (ne_of_nodup_ids hids _ hb)

/-! ### The end of a session -/

theorem Accounted.drain {l : Ledger batchBytes} (h : l.unfinished = 0) : Accounted none l.drain :=
  ⟨by simp [Ledger.drain], rfl, by simp [Ledger.drain, h], by simp [Ledger.drain], fun _ => Nat.zero_le _,
    by simp [Ledger.drain], by simp [Ledger.drain], by simp⟩

theorem Accounted.continue {l : Ledger batchBytes} (h : Accounted none l) : Accounted none l.continue :=
  ⟨h.ids, h.bytes, h.unfinished, h.limit, h.budget, h.counted, h.failed, h.completed_mem⟩

end Accounting

/-! ## The worker keeps its accounts -/

section Specs

variable {batchBytes : UInt64} {α : Type}

/-- The decisions of a worker are justified in any state. -/
def Sound (s : Worker batchBytes) : Prop := s.ledger.Justified

/-- What holds of the ledger alone. -/
def Of (P : Ledger batchBytes → Prop) (s : Worker batchBytes) : Prop := P s.ledger ∧ s.ledger.Justified

theorem Of.sound {P : Ledger batchBytes → Prop} : ∀ s, Of P s → Sound s := fun _ h => h.2

/-- A program that leaves the ledger alone. -/
def Framed (m : Work batchBytes α) : Prop := ∀ P, Spec Sound (Of P) m fun _ => Of P

theorem Framed.modify {f : Worker batchBytes → Worker batchBytes} (h : ∀ s, (f s).ledger = s.ledger) :
    Framed (ObservedProgram.modify f) :=
  fun P => Spec.modify fun s hs => by rwa [Of, h s]

theorem Framed.observe : Framed (ObservedProgram.observe : Work batchBytes (Moment batchBytes)) :=
  fun _ => Spec.observe Of.sound

theorem Framed.get : Framed (ObservedProgram.get : Work batchBytes (Worker batchBytes)) :=
  fun _ => Spec.get.weaken (fun _ h => h) fun _ _ h => h.1

theorem Framed.pure (a : α) : Framed (pure a : Work batchBytes α) := fun _ => Spec.pure fun _ h => h

theorem Framed.throw (e : Failure) : Framed (ObservedProgram.throw e : Work batchBytes α) :=
  fun _ => Spec.throw Of.sound

theorem Framed.bind {β : Type} {m : Work batchBytes α} {f : α → Work batchBytes β} (hm : Framed m)
    (hf : ∀ a, Framed (f a)) : Framed (m >>= f) := fun P => (hm P).bind fun a => hf a P

theorem Framed.ite {c : Prop} [Decidable c] {m n : Work batchBytes α} (hm : Framed m) (hn : Framed n) :
    Framed (if c then m else n) := fun P => Spec.ite (fun _ => hm P) fun _ => hn P

theorem Framed.loop {body : Work batchBytes Bool} (h : Framed body) (n : ℕ) : Framed (ObservedProgram.loop body n) :=
  fun P => Spec.loop Of.sound (h P) n

end Specs

end StreamerWorker
