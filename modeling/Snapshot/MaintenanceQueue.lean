import Mathlib.Data.List.Basic
import Snapshot.ApiObjects
import Snapshot.Interleaving

/-! The maintenance queue of the operator: cleanup of deleted PodSnapshotContents and the sweep of
artifact roots that no content owns. A worker is a process whose calls reach the API server, the
artifact store and the lock of one artifact; other clients and the node agents act in between. -/
namespace Maintenance

open Std ApiObjects Interleaving VersionedServer

abbrev UID := String

def artifactCleanupFinalizer : String := "nvidia.com/podsnapshotcontent-artifact-cleanup"

/-- What maintenance reads of the spec of a PodSnapshotContent: the store ID of its binding, which
is absent for legacy content. -/
structure ContentSpec where
  storage : Option String
  deriving DecidableEq, Repr

abbrev Content := Object ContentSpec

abbrev Contents := Collection ContentSpec

/-- `coordination.Key` -/
structure Key where
  storeID : String
  artifactUID : UID
  deriving DecidableEq

structure Config where
  storeID : String
  batchSize : ℕ
  listAttempts : ℕ
  /-- The number of list pages that can be read before the deadline of a work item. -/
  pages : ℕ

inductive WorkItem where
  | deleteContent (name : String) (uid : UID)
  | sweep
  deriving DecidableEq

/-- Where a paginated list goes on. -/
structure Token where
  version : ℕ
  offset : ℕ
  deriving DecidableEq

/-- One page of metadata; the resource version `none` is the empty string. -/
structure Page where
  items : List (String × Content)
  resourceVersion : Option ℕ
  next : Option Token

inductive Failure where
  | enumeration
  | list
  | deadline
  | emptyResourceVersion
  | resourceVersionChanged (old : ℕ) (new : Option ℕ)
  | missingUID (name : String)
  | repeatedToken (t : Token)
  | listAttempts (attempts : ℕ) (last : Option Failure)
  | get (name : String) (e : ApiError)
  | storeMismatch (bound named : String)
  | unsafeArtifact
  | delete
  | patch (e : ApiError)

inductive Call where
  | candidates
  | list (token : Option Token)
  | enqueue (item : WorkItem)
  | lock (key : Key)
  | unlock (key : Key)
  | delete (uid : UID)
  | get (name : String)
  | patchFinalizers (name : String) (version : ℕ) (finalizers : List String)
  deriving DecidableEq

def Call.Answer : Call → Type
  | candidates => Option (List UID)
  | list _ => Option Page
  | enqueue _ => Unit
  | lock _ => Unit
  | unlock _ => Unit
  | delete _ => Except Failure Unit
  | get _ => Except ApiError Content
  | patchFinalizers _ _ _ => Except ApiError Unit

abbrev interface : Interface := ⟨Call, Call.Answer⟩

abbrev Worker (α : Type) := Process interface α

namespace Worker

/-- `backend.Candidates` -/
def candidates : Worker (Option (List UID)) := Process.request (I := interface) .candidates

/-- `apiReader.List` of one page -/
def list (token : Option Token) : Worker (Option Page) := Process.request (I := interface) (.list token)

def enqueue (item : WorkItem) : Worker Unit := Process.request (I := interface) (.enqueue item)

def lock (key : Key) : Worker Unit := Process.request (I := interface) (.lock key)

def unlock (key : Key) : Worker Unit := Process.request (I := interface) (.unlock key)

/-- `backend.Delete` -/
def delete (uid : UID) : Worker (Except Failure Unit) := Process.request (I := interface) (.delete uid)

/-- `client.Get` -/
def get (name : String) : Worker (Except ApiError Content) :=
  Process.request (I := interface) (.get name)

/-- `client.Patch` with an optimistic lock on the version that was read -/
def patchFinalizers (name : String) (version : ℕ) (finalizers : List String) :
    Worker (Except ApiError Unit) :=
  Process.request (I := interface) (.patchFinalizers name version finalizers)

end Worker

/-! ## Scanning the contents -/

structure ContentScanResult where
  existingUIDs : List UID
  pendingDeletes : List WorkItem

def scanItems : List (String × Content) → ContentScanResult → Except Failure ContentScanResult
  | [], r => .ok r
  | (name, c) :: rest, r =>
    if c.uid = "" then .error (.missingUID name)
    else scanItems rest
      { existingUIDs := c.uid :: r.existingUIDs
        pendingDeletes :=
          if c.deleting ∧ artifactCleanupFinalizer ∈ c.finalizers then
            r.pendingDeletes ++ [.deleteContent name c.uid]
          else r.pendingDeletes }

/-- All pages have to report the version of the first one. -/
def checkResourceVersion (snapshot page : Option ℕ) : Except Failure ℕ :=
  match snapshot, page with
  | none, none => .error .emptyResourceVersion
  | none, some v => .ok v
  | some old, new => if new = some old then .ok old else .error (.resourceVersionChanged old new)

def collectContentScanResultOnce :
    ℕ → Option Token → Option ℕ → ContentScanResult → Worker (Except Failure ContentScanResult)
  | 0, _, _, _ => pure (.error .deadline)
  | pages + 1, token, snapshot, r => do
    match ← Worker.list token with
    | none => pure (.error .list)
    | some page =>
      match checkResourceVersion snapshot page.resourceVersion with
      | .error e => pure (.error e)
      | .ok v =>
        match scanItems page.items r with
        | .error e => pure (.error e)
        | .ok r' =>
          match page.next with
          | none => pure (.ok r')
          | some next =>
            if some next = token then pure (.error (.repeatedToken next))
            else collectContentScanResultOnce pages (some next) (some v) r'

/-- Each attempt starts over, so that a result never mixes two versions. -/
def collectContentScanResult (q : Config) :
    ℕ → Option Failure → Worker (Except Failure ContentScanResult)
  | 0, last => pure (.error (.listAttempts q.listAttempts last))
  | attempts + 1, _ => do
    match ← collectContentScanResultOnce q.pages none none ⟨[], []⟩ with
    | .ok r => pure (.ok r)
    | .error e => collectContentScanResult q attempts (some e)

/-! ## Work items -/

def storeKey (c : Content) : Key := ⟨c.body.storage.getD "", c.uid⟩

/-- `coordination.RequireStoreMatch` -/
def requireStoreMatch (bound named : String) : Except Failure Unit :=
  if bound = "" ∨ named = "" ∨ bound ≠ named then .error (.storeMismatch bound named) else .ok ()

/-- There is one configured backend; only the binding of the content is checked. -/
def backendForContent (q : Config) (c : Content) : Except Failure Unit :=
  match c.body.storage with
  | some storeID => requireStoreMatch storeID q.storeID
  | none => .ok ()

def processDeleteContent (q : Config) (name : String) (uid : UID) : Worker (List Failure) := do
  match ← Worker.get name with
  | .error .notFound => pure []
  | .error e => pure [.get name e]
  | .ok content =>
    if content.uid ≠ uid then pure []
    else if !content.deleting then pure []
    else if artifactCleanupFinalizer ∉ content.finalizers then pure []
    else
      match backendForContent q content with
      | .error e => pure [e]
      | .ok () => do
        Worker.lock (storeKey content)
        match ← Worker.delete content.uid with
        | .error e => do
          Worker.unlock (storeKey content)
          pure [e]
        | .ok () => do
          let patched ← Worker.patchFinalizers name content.version
            (content.finalizers.filter (· ≠ artifactCleanupFinalizer))
          Worker.unlock (storeKey content)
          match patched with
          | .error e => pure [.patch e]
          | .ok () => pure []

/-- The loop over the candidates, with the number of roots that may still be removed. -/
def reclaim (existing : List UID) : List UID → ℕ → Worker (List Failure)
  | [], _ => pure []
  | uid :: rest, budget =>
    if uid ∈ existing then reclaim existing rest budget
    else
      match budget with
      | 0 => pure []
      | budget + 1 => do
        Worker.lock ⟨"", uid⟩
        let deleted ← Worker.delete uid
        Worker.unlock ⟨"", uid⟩
        let errors ← reclaim existing rest budget
        match deleted with
        | .error e => pure (e :: errors)
        | .ok () => pure errors

def enqueueAll : List WorkItem → Worker Unit
  | [] => pure ()
  | item :: rest => do
    Worker.enqueue item
    enqueueAll rest

def processSweep (q : Config) : Worker (List Failure) := do
  -- enumerate before listing content, so new artifacts are not mistaken for orphans
  let candidates ← Worker.candidates
  let scanned ← collectContentScanResult q q.listAttempts none
  match scanned with
  | .error e =>
    match candidates with
    | none => pure [.enumeration, e]
    | some _ => pure [e]
  | .ok r => do
    enqueueAll r.pendingDeletes
    match candidates with
    | none => pure [.enumeration]
    | some uids => reclaim r.existingUIDs uids q.batchSize

/-- `Queue.process`; what it returns only decides when the work item is tried again. -/
def process (q : Config) : WorkItem → Worker Unit
  | .deleteContent name uid => do
    let _ ← processDeleteContent q name uid
    pure ()
  | .sweep => do
    let _ ← processSweep q
    pure ()

/-! ## The world the workers act on -/

structure World where
  api : Server Contents Unit
  /-- The UIDs under which an agent has written an artifact root. -/
  written : List UID
  /-- The deletions that the backend has completed, with the store it serves. -/
  deletions : List (String × UID)
  locks : List Key

def World.Live (w : World) (u : UID) : Prop := w.api.current.Live u

inductive Choice where
  | ok
  | fail
  /-- The request takes effect, and its answer is lost. -/
  | lost
  | unsafeArtifact
  | candidates (uids : List UID)
  | page (length : ℕ)
  | otherVersion (page : Page)

def pageOf (v : ℕ) (x : Contents) (offset length : ℕ) : Page where
  items := (x.objects.toList.drop offset).take length
  resourceVersion := some v
  next := if offset + length < x.objects.toList.length then some ⟨v, offset + length⟩ else none

/-- A first page is read at the current version, and a page that continues reports the version of
its token only if it continues that snapshot. -/
def World.page (w : World) : Option Token → Choice → Option (Option Page)
  | _, .fail => some none
  | none, .page length => some (some (pageOf w.api.version w.api.current 0 length))
  | some t, .page length =>
    (w.api.state t.version).map fun x => some (pageOf t.version x t.offset length)
  | none, .otherVersion p => if p.resourceVersion = none then some (some p) else none
  | some t, .otherVersion p => if p.resourceVersion ≠ some t.version then some (some p) else none
  | _, _ => none

/-- One write of the API server, unless it refuses the request. -/
def World.write (w : World) : Except ApiError Contents → Except ApiError Unit × World
  | .error e => (.error e, w)
  | .ok x => (.ok (), { w with api := w.api.write x })

def World.patch (w : World) (name : String) (version : ℕ) (finalizers : List String) :
    Except ApiError Unit × World :=
  w.write (w.api.current.update (w.api.version + 1) name (some version)
    fun c => (finalizers, c.body))

def World.candidates (w : World) : Choice → Option (Option (List UID) × World)
  | .fail => some (none, w)
  | .candidates uids =>
    -- the enumeration takes time, so a root that it reports may be gone again
    if ∀ u ∈ uids, u ∈ w.written then some (some uids, w) else none
  | _ => none

def World.enqueue (w : World) : Choice → Option (Unit × World)
  | .ok => some ((), w)
  | _ => none

/-- Taking a lock that is held blocks. -/
def World.lock (w : World) (key : Key) : Choice → Option (Unit × World)
  | .ok => if key ∈ w.locks then none else some ((), { w with locks := key :: w.locks })
  | _ => none

def World.unlock (w : World) (key : Key) : Choice → Option (Unit × World)
  | .ok => some ((), { w with locks := w.locks.erase key })
  | _ => none

def World.delete (q : Config) (w : World) (uid : UID) : Choice → Option (Except Failure Unit × World)
  | .ok => some (.ok (), { w with deletions := (q.storeID, uid) :: w.deletions })
  | .fail => some (.error .delete, w)
  | .unsafeArtifact => some (.error .unsafeArtifact, w)
  | _ => none

def World.get (w : World) (name : String) : Choice → Option (Except ApiError Content × World)
  | .fail => some (.error .other, w)
  | .ok =>
    match (w.api.view ()).get name with
    | none => some (.error .notFound, w)
    | some c => some (.ok c, w)
  | _ => none

def World.patchFinalizers (w : World) (name : String) (version : ℕ) (finalizers : List String) :
    Choice → Option (Except ApiError Unit × World)
  | .fail => some (.error .other, w)
  | .ok => some (w.patch name version finalizers)
  | .lost => some (.error .other, (w.patch name version finalizers).2)
  | _ => none

/-! What each call can do, whatever is chosen. -/

section Calls

variable {w w' : World} {choice : Choice}

theorem candidates_cases {r : Option (List UID)} (h : w.candidates choice = some (r, w')) :
    w' = w ∧ ∀ uids, r = some uids → ∀ u ∈ uids, u ∈ w.written := by
  cases choice with
  | fail =>
    cases h
    exact ⟨rfl, nofun⟩
  | candidates uids =>
    simp only [World.candidates] at h
    split at h
    · rename_i hwritten
      cases h
      refine ⟨rfl, fun l hl => ?_⟩
      cases hl
      exact hwritten
    · cases h
  | _ => cases h

theorem enqueue_cases {r : Unit} (h : w.enqueue choice = some (r, w')) : w' = w := by
  cases choice <;> cases h
  rfl

theorem lock_cases {key : Key} {r : Unit} (h : w.lock key choice = some (r, w')) :
    key ∉ w.locks ∧ w' = { w with locks := key :: w.locks } := by
  cases choice with
  | ok =>
    simp only [World.lock] at h
    split at h <;> cases h
    exact ⟨‹_›, rfl⟩
  | _ => cases h

theorem unlock_cases {key : Key} {r : Unit} (h : w.unlock key choice = some (r, w')) :
    w' = { w with locks := w.locks.erase key } := by
  cases choice <;> cases h
  rfl

theorem delete_cases {q : Config} {uid : UID} {r : Except Failure Unit}
    (h : w.delete q uid choice = some (r, w')) :
    r = .ok () ∧ w' = { w with deletions := (q.storeID, uid) :: w.deletions } ∨
      (∃ e, r = .error e) ∧ w' = w := by
  cases choice <;> cases h
  · exact .inl ⟨rfl, rfl⟩
  · exact .inr ⟨⟨_, rfl⟩, rfl⟩
  · exact .inr ⟨⟨_, rfl⟩, rfl⟩

theorem get_cases {name : String} {r : Except ApiError Content}
    (h : w.get name choice = some (r, w')) :
    w' = w ∧ ∀ c, r = .ok c → (w.api.view ()).get name = some c := by
  cases choice with
  | fail =>
    cases h
    exact ⟨rfl, nofun⟩
  | ok =>
    simp only [World.get] at h
    split at h <;> cases h
    · exact ⟨rfl, nofun⟩
    · rename_i c hc
      refine ⟨rfl, fun d hd => ?_⟩
      cases hd
      exact hc
  | _ => cases h

theorem patchFinalizers_cases {name : String} {version : ℕ} {finalizers : List String}
    {r : Except ApiError Unit} (h : w.patchFinalizers name version finalizers choice = some (r, w')) :
    w' = w ∨ w' = (w.patch name version finalizers).2 := by
  cases choice with
  | fail =>
    cases h
    exact .inl rfl
  | ok =>
    have h := Option.some.inj h
    exact .inr (by rw [h])
  | lost =>
    cases h
    exact .inr rfl
  | _ => cases h

end Calls

def perform (q : Config) (w : World) : (c : Call) → Choice → Option (c.Answer × World)
  | .candidates, choice => w.candidates choice
  | .list token, choice => (w.page token choice).map fun p => (p, w)
  | .enqueue _, choice => w.enqueue choice
  | .lock key, choice => w.lock key choice
  | .unlock key, choice => w.unlock key choice
  | .delete uid, choice => w.delete q uid choice
  | .get name, choice => w.get name choice
  | .patchFinalizers name version finalizers, choice =>
    w.patchFinalizers name version finalizers choice

inductive Disturbance where
  | create (name : String) (uid : UID) (finalizers : List String) (storage : Option String)
  | delete (name : String) (time : ℕ)
  /-- Any other update; only maintenance removes its own finalizer. -/
  | update (name : String) (finalizers : List String)
  | writeArtifact (uid : UID)
  | advance (version : ℕ)

def World.accept (w : World) (x : Except ApiError Contents) : Option World :=
  match x with
  | .error _ => none
  | .ok x => some { w with api := w.api.write x }

def disturb (w : World) : Disturbance → Option World
  | .create name uid finalizers storage =>
    w.accept (w.api.current.create (w.api.version + 1) name uid finalizers ⟨storage⟩)
  | .delete name time => w.accept (w.api.current.delete (w.api.version + 1) name none time)
  | .update name finalizers =>
    w.accept (w.api.current.update (w.api.version + 1) name none fun c =>
      (if artifactCleanupFinalizer ∈ c.finalizers then artifactCleanupFinalizer :: finalizers
        else finalizers, c.body))
  | .writeArtifact uid =>
    -- an agent writes under a UID only while a content with that UID exists
    if w.api.current.objects.toList.any fun (_, c) => c.uid = uid then
      some { w with written := uid :: w.written }
    else none
  | .advance v => (w.api.advance () v).map fun api => { w with api := api }

def system (q : Config) : System interface World WorkItem where
  Choice := Choice
  Disturbance := Disturbance
  perform _ w c choice := perform q w c choice
  disturb := disturb
  body := process q

end Maintenance
