import Snapshot.CheckpointTree
import Snapshot.ObservedProgram

/-! # Restoring the files of an inventory in batches

One loop creates the files of an inventory and hands the nonempty ones in batches to a worker. It holds a
bounded number of batches, and looks for failures and cancellation after each operation. When batches
complete, and which operations fail, is observed from outside. -/
namespace ModelStreamer

open Checkpoint LexicalPath
open ObservedProgram (Spec)

/-! ## Model -/

/-- How far the caller knows an entry has come; the state `Withdrawn` is reached only while draining. -/
inductive CompletionState where
  | held
  | published
  | settled (result : Except String Unit)

structure StreamerEntry where
  id : ℕ
  /-- The files of the request, in the order of its arrays. -/
  files : List CheckpointFile
  bytes : ℕ
  completion : CompletionState

/-- The progress of one call and a record of what it did. -/
structure RestoreProgress where
  remaining : List CheckpointFile
  submissions : List StreamerEntry
  created : List Path
  published : List (List CheckpointFile)
  retired : List StreamerEntry
  /-- The number of entries in the queue after each change. -/
  sizes : List ℕ
  /-- The number of remaining files at the head of each round of the main loop. -/
  rounds : List ℕ
  exhausted : Bool

/-- Where an operation on a file failed. -/
inductive Fault where
  | beforeOpen (error : String)
  | afterOpen (error : String)

def Fault.error : Fault → String
  | .beforeOpen e => e
  | .afterOpen e => e

/-- What is found at some moment: the results that are ready, and a failure or cancellation. -/
structure Moment where
  ready : ℕ → Option (Except String Unit)
  fault : Option Fault

structure RestoreConfig where
  restoreBatchBytes : ℕ
  restorePreparationSlots : ℕ

abbrev Restore (α : Type) : Type := ObservedProgram RestoreProgress Moment String α

/-- `Wait` on an entry whose result is ready. -/
def StreamerEntry.observed (ready : ℕ → Option (Except String Unit)) (e : StreamerEntry) : StreamerEntry :=
  match e.completion, ready e.id with
  | .published, some result => { e with completion := .settled result }
  | _, _ => e

def StreamerEntry.completionError (e : StreamerEntry) : Option String :=
  match e.completion with
  | .settled (.error x) => some x
  | _ => none

/-- Entries are looked at in their order, up to the first that failed. -/
def settle (ready : ℕ → Option (Except String Unit)) : List StreamerEntry → List StreamerEntry × Option String
  | [] => ([], none)
  | e :: es =>
    match (e.observed ready).completionError with
    | some x => (e.observed ready :: es, some x)
    | none => (e.observed ready :: (settle ready es).1, (settle ready es).2)

def checkAt (m : Moment) (p : RestoreProgress) : RestoreProgress × Option String :=
  ({ p with submissions := (settle m.ready p.submissions).1 },
    (settle m.ready p.submissions).2 <|> m.fault.map Fault.error)

def checkRestoreProgress : Restore Unit := do
  let m ← ObservedProgram.observe
  let p ← ObservedProgram.get
  ObservedProgram.modify fun p => (checkAt m p).1
  match (checkAt m p).2 with
  | some e => ObservedProgram.throw e
  | none => pure ()

def RestoreProgress.resize (p : RestoreProgress) (submissions : List StreamerEntry) : RestoreProgress :=
  { p with submissions, sizes := p.sizes ++ [submissions.length] }

/-- An operation that makes a file; a failure may come before or after the file was made. -/
def makeFile (path : Path) : Restore Unit := do
  let m ← ObservedProgram.observe
  match m.fault with
  | some (.beforeOpen e) => ObservedProgram.throw e
  | some (.afterOpen e) => do
    ObservedProgram.modify fun p => { p with created := p.created ++ [path] }
    ObservedProgram.throw e
  | none => ObservedProgram.modify fun p => { p with created := p.created ++ [path] }

/-- The last entry of the queue, which is still filled. -/
def RestoreProgress.updateBack (p : RestoreProgress) (f : StreamerEntry → StreamerEntry) : RestoreProgress :=
  { p with submissions := p.submissions.dropLast ++ p.submissions.getLast?.toList.map f }

def maxUnsigned : ℕ := 2 ^ 32 - 1

def maxOffset : ℕ := 2 ^ 63 - 1

/-- Whether a file belongs into the next batch. -/
def StreamerEntry.full (e : StreamerEntry) (size batchBytes : ℕ) : Bool :=
  !e.files.isEmpty && (batchBytes ≤ e.bytes || size > batchBytes - e.bytes)

def tryAddFile (config : RestoreConfig) (f : CheckpointFile) (path : Path) : Restore Bool := do
  let p ← ObservedProgram.get
  if p.submissions.getLast?.any (·.full f.sizeBytes config.restoreBatchBytes) then pure false
  else if p.submissions.getLast?.any (·.files.length = maxUnsigned) then
    ObservedProgram.throw "too many files in one Model Streamer submission"
  else if f.sizeBytes = 0 ∨ f.sizeBytes > maxOffset then ObservedProgram.throw "invalid restore file size"
  else do
    ObservedProgram.modify fun p => p.updateBack fun e => { e with files := e.files ++ [f] }
    makeFile path
    ObservedProgram.modify fun p => p.updateBack fun e => { e with bytes := e.bytes + f.sizeBytes }
    pure true

/-- One file is created, unless it belongs into the next batch. -/
def prepareFile (config : RestoreConfig) (destination : Path) (f : CheckpointFile) : Restore Bool :=
  if f.sizeBytes = 0 then do
    makeFile (resolve destination f.relativePath)
    pure true
  else tryAddFile config f (resolve destination f.relativePath)

/-- The inner loop of `PrepareNextBatch` over the files that remain. -/
def fillBatch (config : RestoreConfig) (destination : Path) : List CheckpointFile → Restore Unit
  | [] => pure ()
  | f :: fs => do
    if ← prepareFile config destination f then
      checkRestoreProgress
      ObservedProgram.modify fun p => { p with remaining := fs }
      fillBatch config destination fs
    else pure ()

/-- The allocation of an entry may fail. -/
def openEntry : Restore Unit := do
  let m ← ObservedProgram.observe
  match m.fault with
  | some x => ObservedProgram.throw x.error
  | none => ObservedProgram.modify fun p => p.resize (p.submissions ++ [⟨p.published.length, [], 0, .held⟩])

def prepareNextBatch (config : RestoreConfig) (destination : Path) : Restore Bool := do
  checkRestoreProgress
  let p ← ObservedProgram.get
  if p.remaining.isEmpty then pure false
  else do
    openEntry
    fillBatch config destination p.remaining
    checkRestoreProgress
    let p ← ObservedProgram.get
    if p.submissions.getLast?.any (·.files.isEmpty) then do
      ObservedProgram.modify fun p => p.resize p.submissions.dropLast
      pure false
    else pure true

def StreamerEntry.isPublished (e : StreamerEntry) : Bool :=
  match e.completion with
  | .published => true
  | _ => false

def waitAndRetireFrontBatch : Restore Unit := do
  checkRestoreProgress
  ObservedProgram.poll (fun p => p.submissions.head?.any (·.isPublished)) checkAt
  ObservedProgram.modify fun p =>
    { p.resize p.submissions.tail with retired := p.retired ++ p.submissions.head?.toList }

def publishBack : Restore Unit :=
  ObservedProgram.modify fun p =>
    { p.updateBack fun e => { e with completion := .published } with
      published := p.published ++ p.submissions.getLast?.toList.map (·.files) }

/-- A full queue gives up its front entry first. -/
def makeRoom (config : RestoreConfig) : Restore Unit := do
  let p ← ObservedProgram.get
  if p.submissions.length = config.restorePreparationSlots then waitAndRetireFrontBatch else pure ()

/-- One round of the main loop. -/
def restoreRound (config : RestoreConfig) (destination : Path) : Restore Unit := do
  ObservedProgram.modify fun p => { p with rounds := p.rounds ++ [p.remaining.length] }
  makeRoom config
  if ← prepareNextBatch config destination then
    checkRestoreProgress
    publishBack
  else pure ()

/-- The main loop, for a number of rounds. -/
def restoreLoop (config : RestoreConfig) (destination : Path) : ℕ → Restore Unit
  | 0 => ObservedProgram.modify fun p => { p with exhausted := !p.remaining.isEmpty }
  | rounds + 1 => do
    let p ← ObservedProgram.get
    if p.remaining.isEmpty then pure ()
    else do
      restoreRound config destination
      restoreLoop config destination rounds

def drainLoop : ℕ → Restore Unit
  | 0 => ObservedProgram.modify fun p => { p with exhausted := !p.submissions.isEmpty }
  | n + 1 => do
    let p ← ObservedProgram.get
    if p.submissions.isEmpty then pure ()
    else do
      waitAndRetireFrontBatch
      drainLoop n

/-- Every entry is withdrawn or waited for, released, and removed from the front. -/
def cancelAndDrain (p : RestoreProgress) : RestoreProgress := p.resize []

def restoreFiles (config : RestoreConfig) (inventory : CheckpointInventory) (destination : Path) : Restore Unit :=
  ObservedProgram.onError (do
    restoreLoop config destination inventory.files.length
    drainLoop config.restorePreparationSlots) cancelAndDrain

def RestoreProgress.start (inventory : CheckpointInventory) : RestoreProgress :=
  ⟨inventory.files, [], [], [], [], [], [], false⟩

/-! ## Looking at the queue -/

theorem observed_files (ready : ℕ → Option (Except String Unit)) (e : StreamerEntry) : (e.observed ready).files = e.files := by
  rw [StreamerEntry.observed]
  split <;> rfl

theorem observed_of_held {ready : ℕ → Option (Except String Unit)} {e : StreamerEntry} (h : e.completion = .held) :
    e.observed ready = e := by
  rw [StreamerEntry.observed, h]

theorem observed_not_held {ready : ℕ → Option (Except String Unit)} {e : StreamerEntry} (h : e.completion ≠ .held) :
    (e.observed ready).completion ≠ .held := by
  rw [StreamerEntry.observed]
  split
  · simp
  · exact h

/-- Without a failure every entry was looked at. -/
theorem settle_none {ready : ℕ → Option (Except String Unit)} {es : List StreamerEntry} (h : (settle ready es).2 = none) :
    (settle ready es).1 = es.map (·.observed ready) ∧ ∀ e ∈ (settle ready es).1, e.completionError = none := by
  induction es with
  | nil => exact ⟨rfl, by simp [settle]⟩
  | cons e es ih =>
    rw [settle] at h ⊢
    cases herror : (e.observed ready).completionError with
    | some x => simp [herror] at h
    | none =>
      simp only [herror] at h ⊢
      obtain ⟨heq, hclean⟩ := ih h
      exact ⟨by rw [heq, List.map_cons], List.forall_mem_cons.2 ⟨herror, hclean⟩⟩

/-! ## What the loop keeps -/

section Invariant

variable (config : RestoreConfig) (inventory : CheckpointInventory) (destination : Path)

def pathOf (f : CheckpointFile) : Path := resolve destination f.relativePath

def nonempty (files : List CheckpointFile) : List CheckpointFile := files.filter (·.sizeBytes ≠ 0)

/-- A batch is within the limit or a single file. -/
def Bounded (files : List CheckpointFile) : Prop :=
  (files.map (·.sizeBytes)).sum ≤ config.restoreBatchBytes ∨ files.length = 1

/-- What holds of a run at any time. -/
structure Orderly (p : RestoreProgress) : Prop where
  created : p.created <+: inventory.files.map (pathOf destination)
  published : p.published.flatten <+: nonempty inventory.files
  bounded : ∀ b ∈ p.published, b ≠ [] ∧ Bounded config b
  sizes : ∀ n ∈ p.sizes, n ≤ config.restorePreparationSlots
  rounds : p.rounds.Pairwise (· > ·)
  exhausted : p.exhausted = false

/-- An entry that is being filled. -/
structure Filling (e : StreamerEntry) : Prop where
  held : e.completion = .held
  bytes : e.bytes = (e.files.map (·.sizeBytes)).sum
  bounded : e.files = [] ∨ Bounded config e.files

/-- A run with some files remaining, an entry that is filled or none, and a bound below the rounds so far. -/
structure Underway (bound : ℕ) (remaining : List CheckpointFile) (back : List StreamerEntry) (p : RestoreProgress) : Prop where
  orderly : Orderly config inventory destination p
  created : p.created ++ remaining.map (pathOf destination) = inventory.files.map (pathOf destination)
  batches : p.published.flatten ++ (back.flatMap (·.files) ++ nonempty remaining) = nonempty inventory.files
  queue : ∃ subs, p.submissions = subs ++ back ∧ p.retired.map (·.files) ++ subs.map (·.files) = p.published ∧
    ∀ e ∈ subs, e.completion ≠ .held
  filling : ∀ e ∈ back, Filling config e
  retired : ∀ e ∈ p.retired, e.completion = .settled (.ok ())
  slots : p.submissions.length ≤ config.restorePreparationSlots
  rounds : ∀ n ∈ p.rounds, bound ≤ n

end Invariant

section Steps

variable {config : RestoreConfig} {inventory : CheckpointInventory} {destination : Path}
variable {bound : ℕ} {remaining : List CheckpointFile} {back : List StreamerEntry} {p : RestoreProgress}

/-- A look at the queue that found no failure. -/
theorem Underway.checkAt (h : Underway config inventory destination bound remaining back p) {m : Moment}
    (hnone : (checkAt m p).2 = none) :
    Underway config inventory destination bound remaining back (ModelStreamer.checkAt m p).1 ∧
      (∀ e ∈ (ModelStreamer.checkAt m p).1.submissions, e.completionError = none) ∧
      (ModelStreamer.checkAt m p).1.submissions.length = p.submissions.length := by
  have hsettle : (settle m.ready p.submissions).2 = none := by
    rw [ModelStreamer.checkAt] at hnone
    cases hs : (settle m.ready p.submissions).2 with
    | none => rfl
    | some x => simp [hs] at hnone
  obtain ⟨heq, hclean⟩ := settle_none hsettle
  refine ⟨{ h with orderly := { h.orderly with }, queue := ?_, slots := ?_ }, hclean, ?_⟩
  · obtain ⟨subs, hsubs, hqueue, hheld⟩ := h.queue
    refine ⟨subs.map (·.observed m.ready), ?_, ?_, ?_⟩
    · have hback : back.map (·.observed m.ready) = back := by
        rw [List.map_congr_left fun e he => observed_of_held (h.filling e he).held, List.map_id']
      change (settle m.ready p.submissions).1 = _
      rw [heq, hsubs, List.map_append, hback]
    · have hfiles : (subs.map (·.observed m.ready)).map (·.files) = subs.map (·.files) := by
        rw [List.map_map]
        exact List.map_congr_left fun e _ => observed_files m.ready e
      rw [hfiles]
      exact hqueue
    · intro e he
      obtain ⟨e', he', rfl⟩ := List.mem_map.1 he
      exact observed_not_held (hheld e' he')
  · change (settle m.ready p.submissions).1.length ≤ _
    rw [heq, List.length_map]
    exact h.slots
  · change (settle m.ready p.submissions).1.length = _
    rw [heq, List.length_map]

/-- Looking at the queue keeps the run underway. -/
theorem checkRestoreProgress_spec (F : List CheckpointFile → ℕ → Prop) :
    Spec (Orderly config inventory destination)
      (fun p => Underway config inventory destination bound remaining back p ∧ F p.remaining p.submissions.length)
      checkRestoreProgress
      (fun _ p => (Underway config inventory destination bound remaining back p ∧ F p.remaining p.submissions.length) ∧
        ∀ e ∈ p.submissions, e.completionError = none) := by
  refine .bind (.observe fun p h => h.1.orderly) fun m => .bind .get fun p₀ => ?_
  refine .bind (Q := fun _ p => Orderly config inventory destination p ∧ ((checkAt m p₀).2 = none →
    (Underway config inventory destination bound remaining back p ∧ F p.remaining p.submissions.length) ∧
      ∀ e ∈ p.submissions, e.completionError = none)) (.modify ?_) fun _ => ?_
  · intro p ⟨⟨h, hF⟩, hp⟩
    subst hp
    refine ⟨{ h.orderly with }, fun hnone => ?_⟩
    obtain ⟨hkept, hclean, hlength⟩ := h.checkAt hnone
    exact ⟨⟨hkept, by rw [hlength]; exact hF⟩, hclean⟩
  · cases herror : (checkAt m p₀).2 with
    | some e => exact .throw fun p h => h.1
    | none => exact .pure fun p h => h.2 rfl

/-- A file was made, or a failure came before or after. -/
theorem makeFile_spec {P : RestoreProgress → Prop} {path : Path} (hP : ∀ p, P p → Orderly config inventory destination p)
    (hmade : ∀ p, P p → Orderly config inventory destination { p with created := p.created ++ [path] }) :
    Spec (Orderly config inventory destination) P (makeFile path)
      (fun _ p => ∃ p₀, P p₀ ∧ p = { p₀ with created := p₀.created ++ [path] }) := by
  refine .bind (.observe hP) fun m => ?_
  cases m.fault with
  | none => exact .modify fun p h => ⟨p, h, rfl⟩
  | some fault =>
    cases fault with
    | beforeOpen e => exact .throw hP
    | afterOpen e => exact .bind (Q := fun _ p => Orderly config inventory destination p) (.modify hmade) fun _ => .throw fun _ h => h

theorem Underway.orderly_made {f : CheckpointFile} {fs : List CheckpointFile}
    (h : Underway config inventory destination bound (f :: fs) back p) :
    Orderly config inventory destination { p with created := p.created ++ [pathOf destination f] } :=
  { h.orderly with created := ⟨fs.map (pathOf destination), by
      rw [← h.created, List.map_cons, List.append_assoc, List.singleton_append]⟩ }

/-- An empty file was made. -/
theorem Underway.make_empty {f : CheckpointFile} {fs : List CheckpointFile}
    (h : Underway config inventory destination bound (f :: fs) back p) (hsize : f.sizeBytes = 0) :
    Underway config inventory destination bound fs back { p with created := p.created ++ [pathOf destination f] } :=
  { h with
    orderly := h.orderly_made
    created := by
      rw [← h.created, List.map_cons, List.append_assoc, List.singleton_append]
    batches := by
      rw [← h.batches, nonempty, nonempty, List.filter_cons_of_neg (by simp [hsize])] }

theorem updateBack_submissions {subs : List StreamerEntry} {e : StreamerEntry} (h : p.submissions = subs ++ [e])
    (g : StreamerEntry → StreamerEntry) : (p.updateBack g).submissions = subs ++ [g e] := by
  simp [RestoreProgress.updateBack, h]

def StreamerEntry.adding (e : StreamerEntry) (f : CheckpointFile) : StreamerEntry :=
  { e with files := e.files ++ [f], bytes := e.bytes + f.sizeBytes }

theorem Filling.adding {e : StreamerEntry} {f : CheckpointFile} (h : Filling config e)
    (hfull : e.full f.sizeBytes config.restoreBatchBytes = false) : Filling config (e.adding f) where
  held := h.held
  bytes := by simp [StreamerEntry.adding, h.bytes]
  bounded := by
    refine .inr ?_
    by_cases hempty : e.files = []
    · exact .inr (by simp [StreamerEntry.adding, hempty])
    · refine .inl ?_
      have hbytes := h.bytes
      simp only [StreamerEntry.full, Bool.and_eq_false_iff, Bool.not_eq_false', List.isEmpty_iff, hempty, false_or,
        Bool.or_eq_false_iff, decide_eq_false_iff_not] at hfull
      simp only [StreamerEntry.adding, List.map_append, List.map_cons, List.map_nil, List.sum_append, List.sum_cons, List.sum_nil]
      omega

/-- The progress after a nonempty file was added to the entry at the back. -/
def RestoreProgress.added (p : RestoreProgress) (f : CheckpointFile) (path : Path) : RestoreProgress :=
  { p.updateBack fun e => { e with files := e.files ++ [f] } with created := p.created ++ [path] }.updateBack
    fun e => { e with bytes := e.bytes + f.sizeBytes }

theorem Underway.add {f : CheckpointFile} {fs : List CheckpointFile} {e : StreamerEntry}
    (h : Underway config inventory destination bound (f :: fs) [e] p) (hsize : f.sizeBytes ≠ 0)
    (hfull : e.full f.sizeBytes config.restoreBatchBytes = false) :
    Underway config inventory destination bound fs [e.adding f] (p.added f (pathOf destination f)) := by
  obtain ⟨subs, hsubs, hqueue, hheld⟩ := h.queue
  have hadded : (p.added f (pathOf destination f)).submissions = subs ++ [e.adding f] :=
    updateBack_submissions (updateBack_submissions hsubs _) _
  exact {
    orderly := { h.orderly_made with }
    created := by
      rw [← h.created, List.map_cons]
      change p.created ++ [pathOf destination f] ++ _ = _
      rw [List.append_assoc, List.singleton_append]
    batches := by
      rw [← h.batches]
      change p.published.flatten ++ _ = _
      simp [StreamerEntry.adding, nonempty, hsize]
    queue := ⟨subs, hadded, hqueue, hheld⟩
    filling := by
      intro e' he'
      rw [List.mem_singleton] at he'
      exact he' ▸ (h.filling e List.mem_cons_self).adding hfull
    retired := h.retired
    slots := by
      have hslots := h.slots
      rw [hsubs] at hslots
      rw [hadded]
      simpa using hslots
    rounds := h.rounds }

theorem getLast?_submissions {e : StreamerEntry} (h : Underway config inventory destination bound remaining [e] p) :
    p.submissions.getLast? = some e := by
  obtain ⟨subs, hsubs, -⟩ := h.queue
  rw [hsubs, List.getLast?_append_of_ne_nil _ (by simp)]
  rfl

/-- A file is added to the entry at the back, or belongs into the next batch. -/
theorem prepareFile_spec {f : CheckpointFile} {fs rest : List CheckpointFile} {e : StreamerEntry} :
    Spec (Orderly config inventory destination)
      (fun p => Underway config inventory destination bound (f :: fs) [e] p ∧ p.remaining = rest)
      (prepareFile config destination f)
      (fun added p => p.remaining = rest ∧ if added then ∃ e', Underway config inventory destination bound fs [e'] p
        else Underway config inventory destination bound (f :: fs) [e] p ∧ e.files ≠ []) := by
  refine .ite (fun hsize => ?_) (fun hsize => .bind .get fun p₀ => .ite (fun hfull => ?_) (fun hfull => .ite (fun _ => ?_)
    (fun _ => .ite (fun _ => ?_) (fun _ => ?_))))
  · refine .bind (makeFile_spec (fun p h => h.1.orderly) (fun p h => h.1.orderly_made)) fun _ => .pure ?_
    rintro p ⟨p₁, ⟨h, hrest⟩, rfl⟩
    exact ⟨hrest, e, h.make_empty hsize⟩
  · refine .pure ?_
    rintro p ⟨⟨h, hrest⟩, rfl⟩
    rw [getLast?_submissions h, Option.any_some, StreamerEntry.full, Bool.and_eq_true] at hfull
    exact ⟨hrest, h, by simpa using hfull.1⟩
  · exact .throw fun p h => h.1.1.orderly
  · exact .throw fun p h => h.1.1.orderly
  · refine .bind (.modify (Q := fun _ p => ∃ p₁, (Underway config inventory destination bound (f :: fs) [e] p₁ ∧
      p₁.remaining = rest ∧ e.full f.sizeBytes config.restoreBatchBytes = false) ∧
      p = p₁.updateBack fun e => { e with files := e.files ++ [f] }) ?_) fun _ => ?_
    · rintro p ⟨⟨h, hrest⟩, rfl⟩
      rw [getLast?_submissions h, Option.any_some, Bool.not_eq_true] at hfull
      exact ⟨p, ⟨h, hrest, hfull⟩, rfl⟩
    refine .bind (makeFile_spec ?_ ?_) fun _ => .bind (.modify (Q := fun _ p => p.remaining = rest ∧
      ∃ e', Underway config inventory destination bound fs [e'] p) ?_) fun _ => .pure fun p h => h
    · rintro p ⟨p₁, ⟨h, -⟩, rfl⟩
      exact { h.orderly with }
    · rintro p ⟨p₁, ⟨h, -⟩, rfl⟩
      exact { h.orderly_made with }
    · rintro p ⟨p₂, ⟨p₁, ⟨h, hrest, hnotfull⟩, rfl⟩, rfl⟩
      exact ⟨hrest, _, h.add hsize hnotfull⟩

/-- The inner loop leaves an entry that is filled and some files. -/
theorem fillBatch_spec (fs : List CheckpointFile) (e : StreamerEntry) :
    Spec (Orderly config inventory destination)
      (fun p => Underway config inventory destination bound fs [e] p ∧ p.remaining = fs) (fillBatch config destination fs)
      (fun _ p => ∃ e' rest, (Underway config inventory destination bound rest [e'] p ∧ p.remaining = rest) ∧
        rest.length ≤ fs.length ∧ (e.files = [] → fs ≠ [] → rest.length < fs.length)) := by
  induction fs generalizing e with
  | nil => exact .pure fun p h => ⟨e, [], h, Nat.le_refl _, fun _ hne => absurd rfl hne⟩
  | cons f fs ih =>
    refine .bind prepareFile_spec fun added => ?_
    cases added with
    | false =>
      refine .pure ?_
      rintro p ⟨hrest, h, hne⟩
      exact ⟨e, f :: fs, ⟨h, hrest⟩, Nat.le_refl _, fun hempty => absurd hempty hne⟩
    | true =>
      -- The file was added whatever the entry held, so the rest is shorter.
      intro p ws ⟨hrest, e', h⟩
      refine Spec.bind (checkRestoreProgress_spec fun rest _ => rest = f :: fs) (fun _ => ?_) p ws ⟨h, hrest⟩
      refine .bind (.modify (Q := fun _ p => Underway config inventory destination bound fs [e'] p ∧ p.remaining = fs)
        fun p h => ⟨{ h.1.1 with orderly := { h.1.1.orderly with } }, rfl⟩) fun _ => ?_
      refine (ih e').weaken (fun _ h => h) fun _ p ⟨e'', rest, h, hle, _⟩ => ⟨e'', rest, h, ?_, fun _ _ => ?_⟩
      · exact hle.trans (Nat.le_succ _)
      · exact Nat.lt_succ_of_le hle

theorem openEntry_spec (rest : List CheckpointFile) :
    Spec (Orderly config inventory destination)
      (fun p => Underway config inventory destination bound remaining [] p ∧ p.remaining = rest ∧
        p.submissions.length < config.restorePreparationSlots) openEntry
      (fun _ p => ∃ e, e.files = [] ∧ Underway config inventory destination bound remaining [e] p ∧ p.remaining = rest) := by
  refine .bind (.observe fun p h => h.1.orderly) fun m => ?_
  cases m.fault with
  | some x => exact .throw fun p h => h.1.orderly
  | none =>
    refine .modify fun p ⟨h, hrest, hlength⟩ => ⟨⟨p.published.length, [], 0, .held⟩, rfl, ?_, hrest⟩
    obtain ⟨subs, hsubs, hqueue, hheld⟩ := h.queue
    rw [List.append_nil] at hsubs
    have hsize : (p.submissions ++ [StreamerEntry.mk p.published.length [] 0 .held]).length ≤
        config.restorePreparationSlots := by
      rw [List.length_append]
      exact hlength
    exact { h with
      orderly := { h.orderly with
        sizes := fun n hn => by
          obtain hn | hn := List.mem_append.1 hn
          · exact h.orderly.sizes n hn
          · rw [List.mem_singleton.1 hn]
            exact hsize }
      queue := ⟨subs, by rw [← hsubs]; rfl, hqueue, hheld⟩
      filling := fun e he => by
        rw [List.mem_singleton.1 he]
        exact ⟨rfl, rfl, .inl rfl⟩
      slots := hsize }

/-- What a round has prepared: an entry with files, or nothing because only empty files were left. -/
def Prepared (config : RestoreConfig) (inventory : CheckpointInventory) (destination : Path) (bound : ℕ)
    (before : List CheckpointFile) (ready : Bool) (p : RestoreProgress) : Prop :=
  ∃ rest, p.remaining = rest ∧ rest.length < before.length ∧
    if ready then ∃ e, e.files ≠ [] ∧ Underway config inventory destination bound rest [e] p
    else Underway config inventory destination bound rest [] p

theorem Underway.drop_empty {e : StreamerEntry} (h : Underway config inventory destination bound remaining [e] p)
    (hempty : e.files = []) :
    Underway config inventory destination bound remaining [] (p.resize p.submissions.dropLast) := by
  obtain ⟨subs, hsubs, hqueue, hheld⟩ := h.queue
  have hslots := h.slots
  have hdrop : p.submissions.dropLast = subs := by rw [hsubs, List.dropLast_concat]
  have hlength : subs.length ≤ config.restorePreparationSlots := by
    rw [hsubs, List.length_append] at hslots
    omega
  rw [hdrop]
  exact { h with
    orderly := { h.orderly with
      sizes := fun n hn => by
        obtain hn | hn := List.mem_append.1 hn
        · exact h.orderly.sizes n hn
        · rw [List.mem_singleton.1 hn]
          exact hlength }
    batches := by
      rw [← h.batches, List.flatMap_singleton, hempty]
      rfl
    queue := ⟨subs, (List.append_nil _).symm, hqueue, hheld⟩
    filling := by simp
    slots := hlength }

/-- Preparing a batch takes at least one file. -/
theorem prepareNextBatch_spec (hne : remaining ≠ []) :
    Spec (Orderly config inventory destination)
      (fun p => Underway config inventory destination bound remaining [] p ∧ p.remaining = remaining ∧
        p.submissions.length < config.restorePreparationSlots) (prepareNextBatch config destination)
      (Prepared config inventory destination bound remaining) := by
  refine .bind (checkRestoreProgress_spec fun rest n => rest = remaining ∧ n < config.restorePreparationSlots) fun _ => ?_
  refine .bind .get fun p₀ => .ite (fun hnil => .pure ?_) fun _ => ?_
  · rintro p ⟨⟨⟨-, hrest, -⟩, -⟩, rfl⟩
    rw [hrest] at hnil
    exact absurd (List.isEmpty_iff.1 hnil) hne
  intro p ws ⟨⟨⟨h, hrest, hlength⟩, _⟩, hp⟩
  subst hp
  refine Spec.bind (openEntry_spec remaining) (fun _ => ?_) p ws ⟨h, hrest, hlength⟩
  rw [hrest]
  intro p₁ ws₁ ⟨e, hempty, h₁, hrest₁⟩
  refine Spec.bind (fillBatch_spec remaining e) (fun _ => ?_) p₁ ws₁ ⟨h₁, hrest₁⟩
  intro p₂ ws₂ ⟨e₂, rest, ⟨h₂, hrest₂⟩, _, hless⟩
  have hshorter := hless hempty hne
  refine Spec.bind (checkRestoreProgress_spec fun r _ => r = rest) (fun _ => ?_) p₂ ws₂ ⟨h₂, hrest₂⟩
  refine .bind .get fun p₃ => .ite (fun hnone => ?_) fun hsome => .pure ?_
  · refine .bind (.modify (Q := fun _ => Prepared config inventory destination bound remaining false) ?_) fun _ => .pure fun p h => h
    rintro p ⟨⟨⟨h, hrest⟩, -⟩, rfl⟩
    rw [getLast?_submissions h, Option.any_some, List.isEmpty_iff] at hnone
    exact ⟨rest, hrest, hshorter, h.drop_empty hnone⟩
  · rintro p ⟨⟨⟨h, hrest⟩, -⟩, rfl⟩
    rw [getLast?_submissions h, Option.any_some, List.isEmpty_iff] at hsome
    exact ⟨rest, hrest, hshorter, e₂, hsome, h⟩

theorem Underway.publish {e : StreamerEntry} (h : Underway config inventory destination bound remaining [e] p)
    (hne : e.files ≠ []) :
    Underway config inventory destination bound remaining []
      { p.updateBack fun e => { e with completion := .published } with
        published := p.published ++ p.submissions.getLast?.toList.map (·.files) } := by
  obtain ⟨subs, hsubs, hqueue, hheld⟩ := h.queue
  have hupdated := updateBack_submissions hsubs fun e => { e with completion := .published }
  have hbatches := h.batches
  have hfilling := h.filling e List.mem_cons_self
  have hslots := h.slots
  rw [getLast?_submissions h]
  rw [List.flatMap_singleton] at hbatches
  exact {
    orderly := { h.orderly with
      published := ⟨nonempty remaining, by
        rw [← hbatches]
        simp⟩
      bounded := fun b hb => by
        obtain hb | hb := List.mem_append.1 hb
        · exact h.orderly.bounded b hb
        · rw [List.mem_singleton.1 hb]
          exact ⟨hne, hfilling.bounded.resolve_left hne⟩ }
    created := h.created
    batches := by
      rw [← hbatches]
      simp
    queue := by
      refine ⟨subs ++ [{ e with completion := .published }], by rw [List.append_nil]; exact hupdated, ?_, ?_⟩
      · rw [List.map_append, ← List.append_assoc]
        exact congrArg (· ++ [e.files]) hqueue
      · intro e' he'
        obtain he' | he' := List.mem_append.1 he'
        · exact hheld e' he'
        · rw [List.mem_singleton.1 he']
          simp
    filling := by simp
    retired := h.retired
    slots := by
      change (p.updateBack _).submissions.length ≤ _
      rw [hsubs] at hslots
      rw [hupdated]
      simpa using hslots
    rounds := h.rounds }

/-- The front entry was settled without an error and leaves the queue. -/
theorem Underway.retire (h : Underway config inventory destination bound remaining [] p)
    (hclean : ∀ e ∈ p.submissions, e.completionError = none) (hdone : p.submissions.head?.any (·.isPublished) = false) :
    Underway config inventory destination bound remaining []
      { p.resize p.submissions.tail with retired := p.retired ++ p.submissions.head?.toList } := by
  obtain ⟨subs, hsubs, hqueue, hheld⟩ := h.queue
  rw [List.append_nil] at hsubs
  subst hsubs
  have hslots := h.slots
  have htail : p.submissions.tail.length ≤ config.restorePreparationSlots := by
    rw [List.length_tail]
    omega
  have hhead : ∀ e ∈ p.submissions.head?, e.completion = .settled (.ok ()) := by
    intro e he
    have hmem := List.mem_of_mem_head? he
    have herror := hclean e hmem
    have hnotheld := hheld e hmem
    rw [Option.mem_def] at he
    rw [he, Option.any_some] at hdone
    cases hstate : e.completion with
    | held => exact absurd hstate hnotheld
    | published => simp [StreamerEntry.isPublished, hstate] at hdone
    | settled result =>
      cases result with
      | ok u => rfl
      | error x => simp [StreamerEntry.completionError, hstate] at herror
  exact { h with
    orderly := { h.orderly with
      sizes := fun n hn => by
        obtain hn | hn := List.mem_append.1 hn
        · exact h.orderly.sizes n hn
        · rw [List.mem_singleton.1 hn]
          exact htail }
    queue := by
      refine ⟨p.submissions.tail, (List.append_nil _).symm, ?_, fun e he => hheld e (List.mem_of_mem_tail he)⟩
      change (p.retired ++ _).map _ ++ _ = p.published
      rw [← hqueue, List.map_append, List.append_assoc, ← List.map_append]
      cases p.submissions <;> rfl
    retired := fun e he => by
      obtain he | he := List.mem_append.1 he
      · exact h.retired e he
      · exact hhead e (Option.mem_toList.1 he)
    slots := htail }

/-- Waiting for the front entry ends with one entry less. -/
theorem waitAndRetireFrontBatch_spec (F : List CheckpointFile → ℕ → Prop) :
    Spec (Orderly config inventory destination)
      (fun p => Underway config inventory destination bound remaining [] p ∧ F p.remaining (p.submissions.length - 1))
      waitAndRetireFrontBatch
      (fun _ p => Underway config inventory destination bound remaining [] p ∧ F p.remaining p.submissions.length) := by
  refine .bind (checkRestoreProgress_spec fun rest n => F rest (n - 1)) fun _ => ?_
  refine .bind (.poll (Q := fun _ p => ((Underway config inventory destination bound remaining [] p ∧
    F p.remaining (p.submissions.length - 1)) ∧ ∀ e ∈ p.submissions, e.completionError = none) ∧
    p.submissions.head?.any (·.isPublished) = false) (fun p h => h.1.1.orderly) ?_ fun p h hdone => ⟨h, hdone⟩) fun _ => ?_
  · rintro m p ⟨⟨h, hF⟩, -⟩ -
    refine ⟨fun hnone => ?_, fun _ => { h.orderly with }⟩
    obtain ⟨hkept, hclean, hlength⟩ := h.checkAt hnone
    exact ⟨⟨hkept, by rw [hlength]; exact hF⟩, hclean⟩
  · refine .modify fun p ⟨⟨⟨h, hF⟩, hclean⟩, hdone⟩ => ⟨h.retire hclean hdone, ?_⟩
    change F p.remaining p.submissions.tail.length
    rw [List.length_tail]
    exact hF

theorem makeRoom_spec (hslots : 0 < config.restorePreparationSlots) :
    Spec (Orderly config inventory destination)
      (fun p => Underway config inventory destination bound remaining [] p ∧ p.remaining = remaining) (makeRoom config)
      (fun _ p => Underway config inventory destination bound remaining [] p ∧ p.remaining = remaining ∧
        p.submissions.length < config.restorePreparationSlots) := by
  refine .bind .get fun p₀ => .ite (fun hfull => ?_) fun hroom => .pure ?_
  · refine (waitAndRetireFrontBatch_spec fun rest k => rest = remaining ∧ k < config.restorePreparationSlots).weaken ?_
      fun _ p h => h
    rintro p ⟨⟨h, hrest⟩, rfl⟩
    exact ⟨h, hrest, by omega⟩
  · rintro p ⟨⟨h, hrest⟩, rfl⟩
    have hle := h.slots
    exact ⟨h, hrest, by omega⟩

/-- The head of the main loop: every round before began with more files. -/
def AtHead (config : RestoreConfig) (inventory : CheckpointInventory) (destination : Path) (n : ℕ) (p : RestoreProgress) : Prop :=
  ∃ bound, Underway config inventory destination bound p.remaining [] p ∧ p.remaining.length < bound ∧ p.remaining.length ≤ n

/-- Every round ends with fewer files, or ends the loop. -/
theorem restoreRound_spec (hslots : 0 < config.restorePreparationSlots) (n : ℕ) :
    Spec (Orderly config inventory destination)
      (fun p => AtHead config inventory destination (n + 1) p ∧ p.remaining ≠ []) (restoreRound config destination)
      (fun _ => AtHead config inventory destination n) := by
  intro p ws ⟨⟨bound, h, hless, hn⟩, hne⟩
  obtain ⟨remaining, hrem⟩ : ∃ r, p.remaining = r := ⟨_, rfl⟩
  rw [hrem] at h hless hn hne
  have hstart : Underway config inventory destination remaining.length remaining []
      { p with rounds := p.rounds ++ [p.remaining.length] } := { h with
    orderly := { h.orderly with
      rounds := by
        refine List.pairwise_append.2 ⟨h.orderly.rounds, List.pairwise_singleton _ _, fun a ha b hb => ?_⟩
        rw [List.mem_singleton.1 hb, hrem]
        exact hless.trans_le (h.rounds a ha) }
    rounds := fun k hk => by
      obtain hk | hk := List.mem_append.1 hk
      · exact hless.le.trans (h.rounds k hk)
      · rw [List.mem_singleton.1 hk, hrem] }
  -- The round after its head was recorded.
  refine Spec.bind (P := fun p => Underway config inventory destination remaining.length remaining [] { p with
      rounds := p.rounds ++ [p.remaining.length] } ∧ p.remaining = remaining)
    (.modify (Q := fun _ p => Underway config inventory destination remaining.length remaining [] p ∧ p.remaining = remaining)
      fun p h => h) (fun _ => ?_) p ws ⟨hstart, hrem⟩
  refine .bind (makeRoom_spec hslots) fun _ => .bind (prepareNextBatch_spec hne) fun prepared => ?_
  cases prepared with
  | false =>
    refine .pure ?_
    rintro p ⟨rest, hrest, hshort, h⟩
    exact ⟨remaining.length, by rw [hrest]; exact h, by rw [hrest]; exact hshort, by rw [hrest]; omega⟩
  | true =>
    rintro p₁ ws₁ ⟨rest, hrest, hshort, e, hfiles, h⟩
    refine Spec.bind (checkRestoreProgress_spec fun r _ => r = rest) (fun _ => .modify ?_) p₁ ws₁ ⟨h, hrest⟩
    rintro p ⟨⟨h, hrest⟩, -⟩
    exact ⟨remaining.length, by rw [← hrest] at h; exact h.publish hfiles, by change p.remaining.length < _; rw [hrest]; exact hshort,
      by change p.remaining.length ≤ _; rw [hrest]; omega⟩

/-- The main loop ends with no files left. -/
theorem restoreLoop_spec (hslots : 0 < config.restorePreparationSlots) (n : ℕ) :
    Spec (Orderly config inventory destination) (AtHead config inventory destination n) (restoreLoop config destination n)
      (fun _ p => ∃ bound, Underway config inventory destination bound [] [] p) := by
  induction n with
  | zero =>
    refine .modify ?_
    rintro p ⟨bound, h, -, hn⟩
    have hnil : p.remaining = [] := List.eq_nil_of_length_eq_zero (Nat.le_zero.1 hn)
    rw [hnil] at h
    refine ⟨bound, { h with orderly := { h.orderly with exhausted := ?_ } }⟩
    rw [hnil]
    rfl
  | succ n ih =>
    refine .bind .get fun p₀ => .ite (fun hnil => .pure ?_) fun hne => ?_
    · rintro p ⟨⟨bound, h, -⟩, rfl⟩
      rw [List.isEmpty_iff.1 hnil] at h
      exact ⟨bound, h⟩
    · refine .bind ((restoreRound_spec hslots n).weaken ?_ fun _ _ h => h) fun _ => ih
      rintro p ⟨h, rfl⟩
      exact ⟨h, fun hnil => hne (List.isEmpty_iff.2 hnil)⟩

/-- The drain ends with no entry left. -/
theorem drainLoop_spec (n : ℕ) :
    Spec (Orderly config inventory destination)
      (fun p => Underway config inventory destination bound [] [] p ∧ p.submissions.length ≤ n) (drainLoop n)
      (fun _ p => Underway config inventory destination bound [] [] p ∧ p.submissions = []) := by
  induction n with
  | zero =>
    refine .modify fun p ⟨h, hn⟩ => ?_
    have hnil : p.submissions = [] := List.eq_nil_of_length_eq_zero (Nat.le_zero.1 hn)
    refine ⟨{ h with orderly := { h.orderly with exhausted := ?_ } }, hnil⟩
    rw [hnil]
    rfl
  | succ n ih =>
    refine .bind .get fun p₀ => .ite (fun hnil => .pure ?_) fun hne => ?_
    · rintro p ⟨⟨h, -⟩, rfl⟩
      exact ⟨h, List.isEmpty_iff.1 hnil⟩
    · refine .bind ((waitAndRetireFrontBatch_spec fun _ k => k ≤ n).weaken ?_ fun _ _ h => h) fun _ => ih
      rintro p ⟨⟨h, hn⟩, rfl⟩
      exact ⟨h, by omega⟩

/-- A run starts at the head of the loop. -/
theorem atHead_start (config : RestoreConfig) (inventory : CheckpointInventory) (destination : Path) :
    AtHead config inventory destination inventory.files.length (.start inventory) := by
  refine ⟨inventory.files.length + 1, ?_, Nat.lt_succ_self _, Nat.le_refl _⟩
  exact {
    orderly := ⟨List.nil_prefix, List.nil_prefix, by simp [RestoreProgress.start], by simp [RestoreProgress.start], .nil, rfl⟩
    created := rfl
    batches := rfl
    queue := ⟨[], rfl, rfl, by simp⟩
    filling := by simp
    retired := by simp [RestoreProgress.start]
    slots := Nat.zero_le _
    rounds := by simp [RestoreProgress.start] }

/-- Draining after a failure keeps what was recorded. -/
theorem Orderly.cancelAndDrain (h : Orderly config inventory destination p) :
    Orderly config inventory destination (cancelAndDrain p) :=
  { h with
    sizes := fun n hn => by
      obtain hn | hn := List.mem_append.1 hn
      · exact h.sizes n hn
      · rw [List.mem_singleton.1 hn]
        exact Nat.zero_le _ }

/-- A run that returned has created and published everything, and every entry succeeded. -/
structure Complete (inventory : CheckpointInventory) (destination : Path) (p : RestoreProgress) : Prop where
  created : p.created = inventory.files.map (pathOf destination)
  published : p.published.flatten = nonempty inventory.files
  retired : p.retired.map (·.files) = p.published
  succeeded : ∀ e ∈ p.retired, e.completion = .settled (.ok ())

theorem restoreFiles_spec (hslots : 0 < config.restorePreparationSlots) :
    Spec (Orderly config inventory destination) (· = .start inventory) (restoreFiles config inventory destination)
      (fun _ p => Orderly config inventory destination p ∧ Complete inventory destination p) := by
  refine .onError ?_ fun _ => Orderly.cancelAndDrain
  refine .bind ((restoreLoop_spec hslots _).weaken (fun p h => h ▸ atHead_start config inventory destination)
    fun _ _ h => h) fun _ => ?_
  intro p ws ⟨bound, h⟩
  refine (drainLoop_spec config.restorePreparationSlots).weaken (fun _ h => h) ?_ p ws ⟨h, h.slots⟩
  intro _ p ⟨h, hnil⟩
  obtain ⟨subs, hsubs, hqueue, -⟩ := h.queue
  have hempty : subs = [] := by simpa [hnil] using hsubs.symm
  refine ⟨h.orderly, by simpa using h.created, by simpa [nonempty] using h.batches, ?_, h.retired⟩
  rw [← hqueue, hempty, List.map_nil, List.append_nil]

end Steps

/-- For every accepted inventory, every batch size and positive number of slots, and whatever is observed in
a run: files are created in order and each at most once, the batches are consecutive runs of the nonempty
files and bounded, the queue never holds more than its slots, and each round of the loop leaves fewer files;
and a run that returns has created every file and seen every batch succeed. -/
theorem restore_files_exact {inventory : CheckpointInventory} {bytes : ℕ} (config : RestoreConfig) (destination : Path)
    (moments : List Moment) (hvalid : validateCheckpointInventory inventory = .ok bytes)
    (hslots : 0 < config.restorePreparationSlots) :
    (inventory.files.map (pathOf destination)).Nodup ∧
      Orderly config inventory destination (restoreFiles config inventory destination (.start inventory) moments).state ∧
      ∀ p rest, restoreFiles config inventory destination (.start inventory) moments = .returned () p rest →
        Complete inventory destination p := by
  have hspec : ObservedProgram.Outcome.Sat _ _ (restoreFiles config inventory destination (.start inventory) moments) :=
    restoreFiles_spec hslots _ moments rfl
  refine ⟨?_, hspec.state fun _ _ h => h.1, ?_⟩
  · have haccepted := (validateCheckpointInventory_eq_ok.1 hvalid).1
    have hpaths := (List.nodup_append.1 haccepted.distinct).2.1.map (append_split_injective destination)
    rw [List.map_map] at hpaths
    have hresolve : inventory.files.map (pathOf destination) =
        inventory.files.map ((fun p => destination ++ split p) ∘ (·.relativePath)) :=
      List.map_congr_left fun f hf => resolve_of_safe (haccepted.plainFiles f hf).safe
    rwa [hresolve]
  · intro p rest hreturned
    rw [hreturned] at hspec
    exact hspec.2

/-- The manifest and an empty file, with one slot and batches of one byte. -/
def sampleInventory : CheckpointInventory :=
  ⟨0o755, [], [⟨ByteText.literal "s3", kCheckpointManifestName, 1, 0o644⟩, ⟨ByteText.literal "s3", ByteText.literal "z", 0, 0o644⟩]⟩

/-- Twenty moments at which every published batch has succeeded. -/
def smooth : List Moment := List.replicate 20 ⟨fun _ => some (.ok ()), none⟩

theorem restore_files_exact_sample :
    (validateCheckpointInventory sampleInventory = .ok 1 ∧ 0 < (RestoreConfig.mk 1 1).restorePreparationSlots) ∧
      ∃ p rest, restoreFiles ⟨1, 1⟩ sampleInventory [] (.start sampleInventory) smooth = .returned () p rest ∧
        Complete sampleInventory [] p := by
  have hvalid : validateCheckpointInventory sampleInventory = .ok 1 := by decide +kernel
  have hrun : ∃ p rest, restoreFiles ⟨1, 1⟩ sampleInventory [] (.start sampleInventory) smooth = .returned () p rest :=
    ⟨_, _, rfl⟩
  obtain ⟨p, rest, hrun⟩ := hrun
  exact ⟨⟨hvalid, Nat.one_pos⟩, p, rest, hrun, (restore_files_exact ⟨1, 1⟩ [] smooth hvalid Nat.one_pos).2.2 p rest hrun⟩

end ModelStreamer
