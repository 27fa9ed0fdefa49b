import Snapshot.PageBrokerSpec

/-! Every handler of PageBroker leaves the transaction that it has locked at rest and gives up what it
has reserved, whatever throws on the way. -/
namespace PageBroker

open Interleaving
open CaptureErrors (FailureCode)

/-! ## What the assignments establish -/

/-- An aborted transaction whose staging is gone owns no destination. -/
def Abandons (x : Transaction) : Prop :=
  x.state = .aborted → x.hasPendingCleanup = false → x.resources = true → x.publication = none

/-- The transaction satisfies `P`, and these are the staging reservations. -/
def At (l : List UInt64) (P : Transaction → Prop) (s : Local) : Prop := P s.x ∧ s.staging = l

section Assignments

variable (r : Resources) (x : Transaction)

theorem releaseAbortedDestination_cases : Abandons x ∧ releaseAbortedDestination r x = (r, x) ∨
    (releaseAbortedDestination r x).2 = { x with publication := none } := by
  simp only [releaseAbortedDestination]
  cases hp : x.publication with
  | none => exact .inl ⟨fun _ _ _ => hp, rfl⟩
  | some p =>
    dsimp only
    by_cases hcond : (x.state ≠ .aborted || x.hasPendingCleanup || !x.resources) = true
    · rw [if_pos hcond]
      refine .inl ⟨fun hstate hpending hresources => ?_, rfl⟩
      simp [hstate, hpending, hresources] at hcond
    · rw [if_neg hcond]
      exact .inr rfl

theorem abandons_release : Abandons (releaseAbortedDestination r x).2 := by
  rcases releaseAbortedDestination_cases r x with ⟨habandons, hsame⟩ | hcleared
  · rw [hsame]
    exact habandons
  · rw [hcleared]
    exact fun _ _ _ => rfl

theorem setState_state (state : TransactionState) : ((Change.setState state).apply r x).2.state = state :=
  (releaseAbortedDestination_fields r { x with state := state }).2.2

theorem setState_released (state : TransactionState) :
    ((Change.setState state).apply r x).2.released = x.released :=
  (change_releases (.setState state) r x).2

theorem setState_abandons (state : TransactionState) : Abandons ((Change.setState state).apply r x).2 :=
  abandons_release r _

variable {r x}

theorem Rest.of_state (habandons : Abandons x) (hnew : x.state ≠ .new)
    (hreleased : x.released = true → x.state = .aborting ∨ x.state.terminal = true) : Rest x :=
  ⟨fun h => absurd h hnew, hreleased, habandons⟩

/-- A state in which the reservation may be gone. -/
theorem rest_setState {state : TransactionState} (hstate : state = .aborting ∨ state.terminal = true) :
    Rest ((Change.setState state).apply r x).2 := by
  refine .of_state (setState_abandons r x state) ?_ fun _ => ?_
  · rw [setState_state]
    rintro rfl
    simp [TransactionState.terminal] at hstate
  · rwa [setState_state]

theorem rest_live {state : TransactionState} (hstate : state ≠ .new) (hreleased : x.released = false) :
    Rest ((Change.setState state).apply r x).2 := by
  refine .of_state (setState_abandons r x state) ?_ fun h => ?_
  · rwa [setState_state]
  · rw [setState_released, hreleased] at h
    cases h

theorem rest_expire : Rest (Change.expire.apply r x).2 := by
  obtain ⟨_, _, hstate⟩ := releaseAbortedDestination_fields r { x with transferExpired := true, state := .aborting }
  refine .of_state (abandons_release r _) ?_ fun _ => .inl hstate
  rw [show (Change.expire.apply r x).2.state = .aborting from hstate]
  simp

theorem Rest.congr {y : Transaction} (h : Rest x) (hstate : y.state = x.state) (hresources : y.resources = x.resources)
    (hreleased : y.released = x.released) (hpublication : y.publication = x.publication)
    (hdirectory : y.transferDirectory = x.transferDirectory) : Rest y := by
  have hpending : y.hasPendingCleanup = x.hasPendingCleanup := by
    simp [Transaction.hasPendingCleanup, hdirectory, hresources, hreleased]
  refine ⟨fun hy => ?_, fun hy => ?_, fun hy hclean hres => ?_⟩
  · obtain ⟨h₁, h₂, h₃⟩ := h.new (hstate ▸ hy)
    exact ⟨hresources.trans h₁, hreleased.trans h₂, hpublication.trans h₃⟩
  · rw [hstate]
    exact h.released (hreleased ▸ hy)
  · rw [hpublication]
    exact h.aborted (hstate ▸ hy) (hpending ▸ hclean) (hresources ▸ hres)

end Assignments

/-! ## Cleanup -/

section Handlers

variable {config : Config} {t : Task} {H : List Object} {o : Object} {l : List UInt64}

theorem does_tryClearDescriptor {A : Local → Prop} {B : Except Error Unit → Local → Prop}
    (h : ∀ s d, A s → B (.ok ()) s ∧ B (.ok ()) ⟨{ s.x with descriptor := d }, s.staging⟩) :
    Does config t H o A (tryClearDescriptor o) B := by
  refine does_bind (B := fun r s => A s ∧ r = .ok s.x) (does_get fun s hs => ⟨hs, rfl⟩) (fun x => ?_)
    (fun e s hs => by cases hs.2)
  split
  · exact does_pure fun s hs => (h s .none hs.1).1
  · exact does_change fun r s hs => (h s .none hs.1).2

/-- The staging has been removed, or the removal has thrown before anything changed. -/
def Cleared (s₀ : Local) (r : Except Error Unit) (s : Local) : Prop :=
  match r with
  | .ok () => s.x.state = s₀.x.state ∧ Abandons s.x ∧ s.staging = s₀.staging
  | .error _ => s = s₀

theorem does_removeRecorded (s₀ : Local) (directory : Path) :
    Does config t H o (fun s => s = s₀ ∧ Abandons s.x) (removeRecorded o directory) (Cleared s₀) := by
  refine does_bind (B := fun r s => (s = s₀ ∧ Abandons s.x) ∧ r = .ok s.x) (does_get fun s hs => ⟨hs, rfl⟩)
    (fun x => ?_) (fun e s hs => by cases hs.2)
  split
  · refine does_pure ?_
    rintro s ⟨⟨rfl, habandons⟩, _⟩
    exact ⟨rfl, habandons, rfl⟩
  refine does_bind (B := fun _ s => s = s₀) (does_onlyIf (fun _ => ?_) fun _ s hs => hs.1.1) (fun _ => ?_) fun _ _ => id
  · exact does_bind (B := fun _ s => s = s₀) (does_external fun _ s hs => hs.1.1) (fun _ => does_pure fun _ => id)
      fun _ _ => id
  -- nothing throws from here on
  refine does_bind (B := fun r s => r = .ok () ∧ s.x.state = s₀.x.state ∧ s.staging = s₀.staging)
    (does_change ?_) (fun _ => ?_) (fun e s hs => by cases hs.1)
  · rintro r s rfl
    exact ⟨rfl, rfl, rfl⟩
  refine does_bind (B := fun r s => r = .ok () ∧ s.x.state = s₀.x.state ∧ s.staging = s₀.staging)
    (does_ask (spec_releaseReservation (B := fun _ s => s.x.state = s₀.x.state ∧ s.staging = s₀.staging) ?_)
      fun _ s hs => ⟨rfl, hs⟩) (fun _ => ?_) (fun e s hs => by cases hs.1)
  · rintro r s ⟨_, hstate, hstaging⟩
    refine ⟨?_, hstaging⟩
    simp only [releaseReservation]
    split <;> exact hstate
  refine does_bind (B := fun r s => r = .ok () ∧ s.x.state = s₀.x.state ∧ Abandons s.x ∧ s.staging = s₀.staging)
    (does_change ?_) (fun _ => ?_) (fun e s hs => by cases hs.1)
  · rintro r s ⟨_, hstate, hstaging⟩
    exact ⟨rfl, ((releaseAbortedDestination_fields r _).2.2).trans hstate, abandons_release r _, hstaging⟩
  refine does_onlyIf (fun _ => does_tryClearDescriptor ?_) fun _ s hs => hs.2
  rintro s d ⟨_, hstate, habandons, hstaging⟩
  exact ⟨⟨hstate, habandons, hstaging⟩, hstate, habandons, hstaging⟩

/-- What is left of a transaction when its staging has been removed, or the removal has failed. -/
def Removed (s₀ : Local) (r : Except Error (Option String)) (s : Local) : Prop :=
  match r with
  | .ok none => s.x.state = s₀.x.state ∧ Abandons s.x ∧ s.staging = s₀.staging
  | _ => s = s₀

theorem does_removeStaging (s₀ : Local) (directory : Path) :
    Does config t H o (fun s => s = s₀ ∧ Abandons s.x) (removeStaging o directory) (Removed s₀) := by
  refine does_tryCatch (C := fun r s => Removed s₀ r s ∧ ∀ message, r ≠ .ok (some message)) ?_ (fun _ _ hs => hs.1)
    fun e => ?_
  · exact does_bind (does_removeRecorded s₀ directory) (fun _ => does_pure fun s hs => ⟨hs, by simp⟩)
      fun e s hs => ⟨hs, by simp⟩
  · cases e with
    | filesystem message => exact does_pure fun s hs => hs.1
    | transfer | cancellation | invalidArgument | targetConflict | other => exact does_throw fun s hs => hs.1

theorem does_cleanupTransfer (s₀ : Local) :
    Does config t H o (fun s => s = s₀ ∧ Abandons s.x) (cleanupTransfer o) (Removed s₀) := by
  refine does_bind (B := fun r s => (s = s₀ ∧ Abandons s.x) ∧ r = .ok s.x) (does_get fun s hs => ⟨hs, rfl⟩)
    (fun x => ?_) (fun e s hs => by cases hs.2)
  split
  · exact (does_removeStaging s₀ _).mono (fun _ hs => hs.1) fun _ _ => id
  · refine does_pure ?_
    rintro s ⟨⟨rfl, habandons⟩, _⟩
    exact ⟨rfl, habandons, rfl⟩

/-- However it ends, a terminal transaction or one that is being aborted stays at rest. -/
theorem Removed.rest {s₀ s : Local} {r : Except Error (Option String)} (h : Removed s₀ r s) (hrest : Rest s₀.x)
    (hstate : s₀.x.state = .aborting ∨ s₀.x.state.terminal = true) : Rest s.x ∧ s.staging = s₀.staging := by
  have hremoved : s.x.state = s₀.x.state ∧ Abandons s.x ∧ s.staging = s₀.staging → Rest s.x ∧ s.staging = s₀.staging := by
    rintro ⟨hs, habandons, hstaging⟩
    rw [← hs] at hstate
    refine ⟨.of_state habandons ?_ fun _ => hstate, hstaging⟩
    intro hnew
    simp [hnew, TransactionState.terminal] at hstate
  match r, h with
  | .ok none, h => exact hremoved h
  | .ok (some _), h =>
    obtain rfl : s = s₀ := h
    exact ⟨hrest, rfl⟩
  | .error _, h =>
    obtain rfl : s = s₀ := h
    exact ⟨hrest, rfl⟩

/-- The same as a rule for every transaction of that kind. -/
theorem does_cleanup {m : Handler (Option String)}
    (hm : ∀ s₀, Does config t H o (fun s => s = s₀ ∧ Abandons s.x) m (Removed s₀)) :
    Does config t H o (At l fun x => Rest x ∧ (x.state = .aborting ∨ x.state.terminal = true)) m
      (fun _ => At l Rest) := by
  intro w s hown hs
  obtain ⟨⟨hrest, hstate⟩, hstaging⟩ := hs
  refine ((hm s) w s hown ⟨rfl, hrest.aborted⟩).mono ?_
  rintro r w' ⟨s', hown', hremoved⟩
  obtain ⟨hrest', hstaging'⟩ := hremoved.rest hrest hstate
  exact ⟨s', hown', hrest', hstaging'.trans hstaging⟩

theorem aborted_cleanup {x : Transaction} {s : TransactionState} {r : Resources} (hs : s = .aborted) :
    Rest ((Change.setState s).apply r x).2 ∧ (((Change.setState s).apply r x).2.state = .aborting ∨
      ((Change.setState s).apply r x).2.state.terminal = true) := by
  subst hs
  exact ⟨rest_setState (.inr rfl), .inr (by rw [setState_state]; rfl)⟩

theorem does_rejectBeforeOwnership (name : String) (code : FailureCode) (message : String) :
    Does config t H o (At l fun _ => True) (rejectBeforeOwnership name o code message) (fun _ => At l Rest) := by
  refine does_bind (B := fun r => At l fun x => r = .ok () ∧ Rest x ∧ (x.state = .aborting ∨ x.state.terminal = true))
    (does_change fun r s hs => ⟨⟨rfl, aborted_cleanup rfl⟩, hs.2⟩) (fun _ => ?_) (fun e s hs => by cases hs.1.1)
  refine does_bind ((does_cleanup does_cleanupTransfer).mono (fun s hs => ⟨hs.1.2, hs.2⟩) fun _ _ => id) (fun r => ?_)
    fun _ _ => id
  split
  · exact does_pure fun _ => id
  · exact does_bind (B := fun _ => At l Rest) (does_eraseTransaction fun _ => id) (fun _ => does_pure fun _ => id)
      fun _ _ => id

theorem does_abortStaging (directory : Path) (error : Error) :
    Does config t H o (At l fun _ => True) (abortStaging o directory error) (fun _ => At l Rest) := by
  refine does_bind (B := fun r => At l fun _ => r = .ok ())
    (does_tryClearDescriptor fun s d hs => ⟨⟨rfl, hs.2⟩, rfl, hs.2⟩) (fun _ => ?_) (fun e s hs => by cases hs.1)
  refine does_bind (B := fun r => At l fun x => r = .ok () ∧ Rest x ∧ (x.state = .aborting ∨ x.state.terminal = true))
    (does_change fun r s hs => ⟨⟨rfl, aborted_cleanup rfl⟩, hs.2⟩) (fun _ => ?_) (fun e s hs => by cases hs.1.1)
  refine does_bind ((does_cleanup fun s₀ => does_removeStaging s₀ directory).mono
    (fun s hs => ⟨hs.1.2, hs.2⟩) fun _ _ => id) (fun r => ?_) fun _ _ => id
  split
  · exact does_pure fun _ => id
  · exact does_pure fun _ => id

/-! ## Aborting -/

theorem does_gpuDrained (ho : o ∈ H) (wait : AbortWait) :
    Does config t H o (At l Rest) (gpuDrained o wait) (fun _ => At l Rest) := by
  refine does_bind (B := fun _ => At l Rest) (does_get fun _ => id) (fun x => ?_) fun _ _ => id
  split
  · split
    · exact does_pure fun _ => id
    · refine does_bind (B := fun _ => At l Rest) (does_yielding ho (fun s hs => hs) fun _ s hrest hl => ⟨hrest, hl⟩)
        (fun _ => ?_) fun _ _ => id
      exact does_bind (B := fun _ => At l Rest) (does_get fun _ => id) (fun x => does_pure fun _ => id) fun _ _ => id
  · exact does_pure fun _ => id

theorem does_tryAbort (ho : o ∈ H) (wait : AbortWait) :
    Does config t H o (At l fun _ => True) (tryAbort o wait) (fun _ => At l Rest) := by
  refine does_bind (B := fun _ => At l Rest) (does_change fun r s hs => ⟨rest_setState (.inl rfl), hs.2⟩)
    (fun _ => ?_) fun _ _ => id
  refine does_bind (B := fun _ => At l Rest) (does_gpuDrained ho wait) (fun drained => ?_) fun _ _ => id
  split
  · -- whatever has happened while the lock was given up, the cleanup goes on from there
    refine does_bind (B := fun r s => At l (fun _ => True) s ∧ (r ≠ .ok none → Rest s.x)) ?_ (fun r => ?_) ?_
    · intro w s hown hs
      refine ((does_cleanupTransfer s) w s hown ⟨rfl, hs.1.aborted⟩).mono ?_
      rintro r w' ⟨s', hown', hremoved⟩
      refine ⟨s', hown', ?_⟩
      match r, hremoved with
      | .ok none, ⟨_, _, hstaging⟩ => exact ⟨⟨trivial, hstaging.trans hs.2⟩, fun h => absurd rfl h⟩
      | .ok (some _), hsame =>
        obtain rfl : s' = s := hsame
        exact ⟨⟨trivial, hs.2⟩, fun _ => hs.1⟩
      | .error _, hsame =>
        obtain rfl : s' = s := hsame
        exact ⟨⟨trivial, hs.2⟩, fun _ => hs.1⟩
    · split
      · exact does_pure fun s hs => ⟨hs.2 (by simp), hs.1.2⟩
      · refine does_bind (B := fun r => At l fun _ => r = .ok ())
          (does_tryClearDescriptor fun s d hs => ⟨⟨rfl, hs.1.2⟩, rfl, hs.1.2⟩) (fun _ => ?_) (fun e s hs => by cases hs.1)
        refine does_bind (B := fun _ => At l Rest) (does_change fun r s hs => ⟨rest_setState (.inr rfl), hs.2⟩)
          (fun _ => does_pure fun _ => id) fun _ _ => id
    · exact fun e s hs => ⟨hs.2 (by simp), hs.1.2⟩
  · exact does_pure fun _ => id

theorem does_retainTerminal (ho : o ∈ H) (name : String) :
    Does config t H o (At l Rest) (retainTerminal name o) (fun _ => At l Rest) := by
  refine does_bind (B := fun _ => At l Rest) (does_get fun _ => id) (fun x => ?_) fun _ _ => id
  split
  · refine does_bind (B := fun _ => At l Rest) (does_change fun r s hs => ⟨hs.1.congr rfl rfl rfl rfl rfl, hs.2⟩)
      (fun _ => ?_) fun _ _ => id
    refine does_bind (B := fun _ => At l Rest) (does_external fun _ _ => id) (fun _ => ?_) fun _ _ => id
    exact does_ask (spec_pushTerminal ho (B := fun _ => At l Rest) fun _ => id) fun _ _ => id
  · exact does_pure fun _ => id

/-! ## Restore -/

/-- The transaction is live, with these reservations. -/
def Live (l : List UInt64) (s : Local) : Prop := s.x.released = false ∧ s.staging = l

/-- If it throws, these are the reservations. -/
def Fails {α : Type} (l : List UInt64) (P : Local → Prop) (r : Except Error α) (s : Local) : Prop :=
  match r with
  | .ok _ => P s
  | .error _ => s.staging = l

theorem At.fails {α : Type} {P : Transaction → Prop} {s : Local} (h : At l P s) (r : Except Error α) :
    Fails l (At l P) r s :=
  match r with
  | .ok _ => h
  | .error _ => h.2

section Fails

variable {α β : Type} {A P Q : Local → Prop}

theorem fails_bind {m : Handler α} {f : α → Handler β} (hm : Does config t H o A m (Fails l P))
    (hf : ∀ a, Does config t H o P (f a) (Fails l Q)) : Does config t H o A (m >>= f) (Fails l Q) :=
  does_bind hm hf fun _ _ hs => hs

theorem fails_pure {a : α} : Does config t H o P (pure a) (Fails l P) := does_pure fun _ => id

theorem fails_external (e : External) : Does config t H o (Live l) (external e) (Fails l (Live l)) :=
  does_external fun r _ hs => match r with
    | .ok _ => hs
    | .error _ => hs.2

theorem fails_ignored (e : External) :
    Does config t H o (Live l) (do let _ ← external e) (Fails l (Live l)) :=
  fails_bind (fails_external e) fun _ => fails_pure

theorem fails_throwIfCancelled : Does config t H o (Live l) throwIfCancelled (Fails l (Live l)) :=
  fails_ignored .cancellation

theorem fails_change {c : Change} (h : ∀ r s, A s → P ⟨(c.apply r s.x).2, s.staging⟩) :
    Does config t H o A (change o c) (Fails l P) :=
  does_change h

/-- An assignment that leaves the transaction live. -/
theorem fails_assign (c : Change) : Does config t H o (Live l) (change o c) (Fails l (Live l)) :=
  fails_change fun r s hs => ⟨((change_releases c r s.x).2).trans hs.1, hs.2⟩

/-- A live transaction in a new state is at rest. -/
theorem fails_setState {state : TransactionState} (hstate : state ≠ .new) :
    Does config t H o (Live l) (change o (.setState state)) (Fails l (At l Rest)) :=
  fails_change fun _ _ hs => ⟨rest_live hstate hs.1, hs.2⟩

theorem fails_prepareTransfer (resources : Bool) (bytes : UInt64) (artifact : Option String) :
    Does config t H o (At l Fresh) (prepareTransferOf o resources bytes artifact) (Fails l (Live l)) := by
  refine fails_bind (P := At l Fresh) (does_onlyIf (fun _ => ?_) fun _ _ => id) fun _ => ?_
  · refine fails_bind (P := At l Fresh) (does_external fun r s hs => hs.fails r) fun _ => fails_pure
  refine spec_prepareTransfer (fun s hs => hs.1) fun r s fault hs => ?_
  have hlive : Live l ⟨(prepareTransfer r s.x resources bytes artifact fault).2.2, s.staging⟩ :=
    ⟨((prepareTransfer_releases r s.x resources bytes artifact fault).2).trans hs.1.released, hs.2⟩
  cases (prepareTransfer r s.x resources bytes artifact fault).1 with
  | ok _ => exact hlive
  | error _ => exact hlive.2

theorem fails_reserve (bytes : UInt64) : Does config t H o (Live l) (reserveOf o bytes) (Fails l (Live l)) := by
  refine spec_reserve (fun s hs => hs.1) fun r s hs => ?_
  have hlive : Live l ⟨(reserve r s.x bytes).2.2, s.staging⟩ :=
    ⟨((reserve_releases r s.x bytes).2).trans hs.1, hs.2⟩
  cases (reserve r s.x bytes).1 with
  | ok _ => exact hlive
  | error _ => exact hlive.2

end Fails

def Locals.staging (locals : Locals) : List UInt64 := if locals.stagingReserved then [locals.bytes] else []

/-- A try block that throws says what it has reserved. -/
def Throws {α : Type} (P : Local → Prop) (r : Except Thrown α) (s : Local) : Prop :=
  match r with
  | .ok _ => P s
  | .error thrown => s.staging = thrown.locals.staging

/-- A step that throws with the locals of that moment. -/
theorem throws_trying {α : Type} {A P : Local → Prop} {locals : Locals} {m : Handler α}
    (hm : Does config t H o A m (Fails locals.staging P)) : Does config t H o A (trying locals m) (Throws P) :=
  does_adapt hm (fun _ _ hs => hs) fun _ _ hs => hs

theorem throws_bind {α β : Type} {A P Q : Local → Prop} {m : Attempt α} {f : α → Attempt β}
    (hm : Does config t H o A m (Throws P)) (hf : ∀ a, Does config t H o P (f a) (Throws Q)) :
    Does config t H o A (m >>= f) (Throws Q) :=
  does_bind hm hf fun _ _ hs => hs

theorem throws_pure {α : Type} {P : Local → Prop} {a : α} : Does config t H o P (pure a) (Throws P) :=
  does_pure fun _ => id

theorem throws_ownStaging (directory : Path) (locals : Locals) :
    Does config t H o (Live locals.staging) (ownStaging o directory locals) (Throws (Live locals.staging)) := by
  refine throws_bind (throws_trying fails_throwIfCancelled) fun _ =>
    throws_bind (throws_trying (fails_ignored _)) fun _ => throws_trying ?_
  exact fails_bind (fails_external .allocate) fun _ => fails_bind (fails_assign _) fun _ => fails_throwIfCancelled

theorem does_releaseStaging {P : Transaction → Prop} (locals : Locals) (hreserved : locals.stagingReserved = true) :
    Does config t H o (At locals.staging P) (ask (.releaseStaging locals.bytes))
      (fun r => At [] fun x => r = .ok () ∧ P x) := by
  have hstaging : locals.staging = [locals.bytes] := if_pos hreserved
  refine does_ask (spec_releaseStaging (B := fun _ => At [] P) (fun s hs => ?_) fun s hs => ⟨hs.1, ?_⟩)
    fun _ s hs => ⟨⟨rfl, hs.1⟩, hs.2⟩
  · rw [hs.2, hstaging]
    exact List.mem_singleton_self _
  · show s.staging.erase locals.bytes = []
    rw [hs.2, hstaging]
    simp

theorem Locals.staging_none {locals : Locals} (h : locals.stagingReserved = false) : locals.staging = [] :=
  if_neg (by simp [h])

theorem throws_transferRestore (direct : Bool) (directory : Path) (locals : Locals) :
    Does config t H o (Live locals.staging) (transferRestore o direct directory locals) (Throws (At [] Rest)) := by
  refine throws_bind (throws_trying (fails_external _)) fun access =>
    throws_bind (throws_trying fails_throwIfCancelled) fun _ => ?_
  refine throws_bind (P := Live []) (does_onlyIf (fun hreserved => throws_trying ?_) fun hnone s hs => ?_) fun _ => ?_
  · refine (does_releaseStaging (P := fun x => x.released = false) locals hreserved).mono (fun _ => id) fun r s hs => ?_
    obtain ⟨⟨rfl, hreleased⟩, hnone⟩ := hs
    exact ⟨hreleased, hnone⟩
  · exact ⟨hs.1, hs.2.trans (Locals.staging_none hnone)⟩
  refine throws_bind (throws_trying ?_) fun _ => throws_pure
  refine fails_bind (fails_external .allocate) fun _ => fails_bind (fails_assign _) fun _ => ?_
  exact fails_setState (by decide)

theorem throws_attemptRestore (name : String) (direct : Bool) (directory : Path) :
    Does config t H o (At [] Fresh) (attemptRestore config name direct o directory) (Throws (At [] Rest)) := by
  refine throws_bind (P := At [] Fresh) (throws_trying (does_external fun r s hs => ?_)) fun existing => ?_
  · cases r with
    | ok _ => exact hs
    | error _ => exact hs.2
  refine throws_bind (P := At [] Fresh) (does_onlyIf (fun _ => throws_trying (does_throw fun s hs => hs.2))
    fun _ s hs => hs) fun _ => ?_
  refine throws_bind (P := Live []) (throws_trying (fails_bind (fails_prepareTransfer _ _ _) fun _ => ?_)) fun _ => ?_
  · exact fails_bind (fails_assign _) fun _ => fails_bind (fails_external _) fun _ => fails_throwIfCancelled
  refine throws_bind (P := Live []) (throws_trying (fails_external _)) fun inventory => ?_
  refine throws_bind (P := Live []) (throws_trying (fails_reserve _)) fun _ => ?_
  split
  · exact throws_bind (throws_transferRestore _ _ ⟨false, true, inventory.number, false⟩) fun _ => throws_pure
  refine does_bind (B := fun r s => match r with
      | .ok reserved => s.x.released = false ∧ s.staging = if reserved then [inventory.number] else []
      | .error thrown => s.staging = thrown.locals.staging)
    (does_adapt (spec_reserveStaging (B := fun r s => s.x.released = false ∧
      s.staging = if r = .ok true then [inventory.number] else []) (fun r s hs hr => ⟨hs.1, ?_⟩) fun s hs => ⟨hs.1, ?_⟩)
      (fun reserved s hs => ?_) fun e s hs => ?_) (fun reserved => ?_) fun _ _ hs => hs
  · rw [if_neg hr]
    exact hs.2
  · rw [if_pos rfl]
    exact congrArg _ hs.2
  · simpa using hs
  · exact hs.2
  cases reserved with
  | true =>
    exact throws_bind (throws_ownStaging directory ⟨true, true, inventory.number, false⟩) fun _ =>
      throws_bind (throws_transferRestore _ _ ⟨true, true, inventory.number, true⟩) fun _ => throws_pure
  | false =>
    refine throws_bind (throws_trying ?_) fun _ => throws_pure
    exact (does_rejectBeforeOwnership name _ _).mono (fun s hs => ⟨trivial, hs.2⟩) fun r s hs => hs.fails r

theorem does_recoverRestore (name : String) (artifact : Option String) (directory : Path) (thrown : Thrown) :
    Does config t H o (fun s => s.staging = thrown.locals.staging) (recoverRestore name artifact o directory thrown)
      (fun _ => At [] Rest) := by
  obtain ⟨error, locals⟩ := thrown
  refine does_bind (B := fun r => At [] fun _ => r = .ok ()) (does_onlyIf (fun hreserved => ?_) fun hnone s hs => ?_)
    (fun _ => ?_) (fun e s hs => by cases hs.1)
  · exact (does_releaseStaging (P := fun _ => True) locals hreserved).mono (fun s hs => ⟨trivial, hs⟩)
      fun r s hs => ⟨hs.1.1, hs.2⟩
  · exact ⟨rfl, hs.trans (Locals.staging_none hnone)⟩
  refine does_bind (B := fun r => At [] fun x => r = .ok x) (does_get fun s hs => ⟨rfl, hs.2⟩) (fun x => ?_)
    (fun e s hs => by cases hs.1)
  have hreject : ∀ code message, Does config t H o (At [] fun y => (.ok x : Except Error Transaction) = .ok y)
      (rejectBeforeOwnership name o code message) (fun _ => At [] Rest) := fun code message =>
    (does_rejectBeforeOwnership name code message).mono (fun s hs => ⟨trivial, hs.2⟩) fun _ _ => id
  have habort : ∀ directory, Does config t H o (At [] fun y => (.ok x : Except Error Transaction) = .ok y)
      (abortStaging o directory error) (fun _ => At [] Rest) := fun directory =>
    (does_abortStaging directory error).mono (fun s hs => ⟨trivial, hs.2⟩) fun _ _ => id
  cases error with
  | transfer code message =>
    cases code with
    | insufficientStorage =>
      dsimp only
      split
      · exact habort _
      · exact hreject _ _
    | transactionConflict =>
      dsimp only
      split
      · exact hreject _ _
      · exact habort _
    | _ => exact habort _
  | invalidArgument message =>
    dsimp only
    split
    · exact hreject _ _
    · exact habort _
  | _ => exact habort _

theorem does_restoreLocked (name : String) (direct metadata : Bool) (artifact : Option String) (directory : Path) :
    Does config t H o (At [] Rest) (restoreLocked config name direct metadata artifact o directory)
      (fun _ => At [] Rest) := by
  refine does_read fun s hs => ?_
  split
  · exact does_pure fun _ heq => heq ▸ hs
  rename_i hstate
  have hfresh : At [] Fresh s := ⟨hs.1.new (not_not.1 hstate), hs.2⟩
  refine does_attempt ((throws_attemptRestore name direct directory).mono (fun _ heq => heq ▸ hfresh) fun _ _ => id)
    fun r => ?_
  cases r with
  | error thrown => exact does_recoverRestore name artifact directory thrown
  | ok result =>
    cases result with
    | inl response => exact does_pure fun _ => id
    | inr imageDirectory => exact does_pure fun _ => id

/-! ## Checkpoint -/

theorem does_attemptCheckpoint (direct : Bool) (engine : IoEngine) (artifact : Option String) (directory : Path) :
    Does config t H o (At [] Fresh) (attemptCheckpoint config direct engine artifact o directory)
      (fun r s => s.staging = [] ∧ (r.isOk = true → Rest s.x)) := by
  refine does_bind (B := fun r s => s.staging = [] ∧ (r.isOk = true → s.x.released = false))
    (does_adapt (B := Fails [] (Live [])) ?_ (fun _ s hs => ⟨hs.2, fun _ => hs.1⟩) fun _ s hs => ⟨hs, fun h => by cases h⟩)
    (fun output => ?_) fun e s hs => ⟨hs.1, fun h => by cases h⟩
  · refine fails_bind (fails_prepareTransfer _ _ _) fun _ => fails_bind (fails_assign _) fun _ =>
      fails_bind fails_throwIfCancelled fun _ => fails_bind (fails_external _) fun prepared =>
      fails_bind fails_throwIfCancelled fun _ => fails_bind (fails_external _) fun existing => ?_
    refine fails_bind (does_onlyIf (fun _ => does_throw fun s hs => hs.2) fun _ s hs => hs) fun _ => ?_
    exact fails_bind fails_throwIfCancelled fun _ => fails_bind (fails_external _) fun _ => fails_pure
  · refine does_bind (does_adapt (B := Fails [] (At [] Rest)) ?_ (C := fun r s => s.staging = [] ∧ (r.isOk = true → Rest s.x))
      (fun _ s hs => ⟨hs.2, fun _ => hs.1⟩) fun _ s hs => ⟨hs, fun h => by cases h⟩) (fun _ => does_pure fun s hs => hs)
      fun e s hs => ⟨hs.1, fun h => by cases h⟩
    refine Does.mono (A := Live []) ?_ (fun s hs => ⟨hs.2 rfl, hs.1⟩) fun _ _ => id
    exact fails_bind (fails_external _) fun _ => fails_bind (fails_assign _) fun _ =>
      fails_bind fails_throwIfCancelled fun _ => fails_bind (fails_assign _) fun _ => fails_setState (by decide)

theorem does_recoverCheckpoint (name : String) (artifact : Option String) (error : Error) (owned : Option Path) :
    Does config t H o (At l fun _ => True) (recoverCheckpoint name artifact o error owned) (fun _ => At l Rest) := by
  unfold recoverCheckpoint
  split
  · exact does_rejectBeforeOwnership _ _ _
  · split
    · exact does_rejectBeforeOwnership _ _ _
    · exact does_abortStaging _ _
  · split
    · exact does_rejectBeforeOwnership _ _ _
    · exact does_abortStaging _ _
  · exact does_abortStaging _ _

/-- Nothing that is kept changes. -/
theorem does_others {P : Local → Prop} {β : Type} {e : External} {f : Value → Handler β}
    (hf : ∀ v, Does config t H o P (f v) (fun _ => P)) : Does config t H o P (external e >>= f) (fun _ => P) :=
  does_bind (does_external fun _ _ => id) hf fun _ _ => id

theorem does_retryCheckpoint {P : Local → Prop} (direct : Bool) (engine : IoEngine) (directory : Path) (x : Transaction) :
    Does config t H o P (retryCheckpoint direct engine directory x) (fun _ => P) := by
  unfold retryCheckpoint
  split
  · split
    · refine does_bind (does_throwIfCancelled fun _ _ => id) (fun _ => does_others fun output => ?_) fun _ _ => id
      refine does_bind (does_throwIfCancelled fun _ _ => id) (fun _ => ?_) fun _ _ => id
      split
      · exact does_pure fun _ => id
      · exact does_pure fun _ => id
    · exact does_pure fun _ => id
  · exact does_pure fun _ => id

theorem does_checkpointLocked (name : String) (direct : Bool) (engine : IoEngine) (artifact : Option String)
    (directory : Path) :
    Does config t H o (At [] Rest) (checkpointLocked config name direct engine artifact o directory)
      (fun _ => At [] Rest) := by
  refine does_read fun s hs => ?_
  split
  · exact (does_retryCheckpoint (P := At [] Rest) direct engine directory s.x).mono (fun _ heq => heq ▸ hs) fun _ _ => id
  rename_i hstate
  have hfresh : At [] Fresh s := ⟨hs.1.new (not_not.1 hstate), hs.2⟩
  refine does_attempt ((does_attemptCheckpoint direct engine artifact directory).mono (fun _ heq => heq ▸ hfresh)
    fun _ _ => id) fun r => ?_
  cases r with
  | ok output => exact does_pure fun s hs => ⟨hs.2 rfl, hs.1⟩
  | error thrown => exact (does_recoverCheckpoint name artifact thrown.1 thrown.2).mono (fun s hs => ⟨trivial, hs.1⟩) fun _ _ => id

/-! ## Commit -/

/-- The transaction has been staged and nothing has been released. -/
structure Staged (l : List UInt64) (s : Local) : Prop where
  state : s.x.state = .staged
  released : s.x.released = false
  staging : s.staging = l

theorem Staged.rest {s : Local} (h : Staged l s) : At l Rest s := by
  refine ⟨.of_state (fun hstate => ?_) (by simp [h.state]) fun hreleased => ?_, h.staging⟩
  · rw [h.state] at hstate
    cases hstate
  · rw [h.released] at hreleased
    cases hreleased

theorem Rest.staged {s : Local} (h : At l Rest s) (hstate : s.x.state = .staged) : Staged l s := by
  refine ⟨hstate, ?_, h.2⟩
  by_contra hreleased
  have := h.1.released (by simpa using hreleased)
  simp [hstate, TransactionState.terminal] at this

theorem does_cleanupRestore (directory : Path) :
    Does config t H o (At l Rest) (cleanupRestore o directory) (fun _ => At l Rest) := by
  refine does_bind (B := fun r s => s.staging = l ∧ (r.isOk = false → Rest s.x)) (does_onlyIf (fun _ => ?_) ?_)
    (fun _ => ?_) fun e s hs => ⟨hs.2 rfl, hs.1⟩
  · refine does_bind (B := fun r s => s.staging = l ∧ (r.isOk = false → Rest s.x)) ?_ (fun _ => does_pure fun s hs => ?_)
      fun e s hs => hs
    · intro w s hown hs
      refine ((does_removeStaging s directory) w s hown ⟨rfl, hs.1.aborted⟩).mono ?_
      rintro r w' ⟨s', hown', hremoved⟩
      refine ⟨s', hown', ?_⟩
      match r, hremoved with
      | .ok none, ⟨_, _, hstaging⟩ => exact ⟨hstaging.trans hs.2, fun h => by cases h⟩
      | .ok (some _), hsame =>
        obtain rfl : s' = s := hsame
        exact ⟨hs.2, fun _ => hs.1⟩
      | .error _, hsame =>
        obtain rfl : s' = s := hsame
        exact ⟨hs.2, fun _ => hs.1⟩
    · exact ⟨hs.1, fun h => by cases h⟩
  · exact fun _ s hs => ⟨hs.2, fun _ => hs.1⟩
  refine does_bind (B := fun r => At l fun _ => r = .ok ())
    (does_tryClearDescriptor fun s d hs => ⟨⟨rfl, hs.1⟩, rfl, hs.1⟩) (fun _ => ?_) (fun e s hs => by cases hs.1)
  exact does_bind (B := fun _ => At l Rest) (does_change fun r s hs => ⟨rest_setState (.inr rfl), hs.2⟩)
    (fun _ => does_pure fun _ => id) fun _ _ => id

theorem reserve_state (r : Resources) (x : Transaction) (bytes : UInt64) :
    (reserve r x bytes).2.2.state = x.state := by
  simp only [reserve]
  split
  · rfl
  · split <;> rfl

theorem does_inspectAndReserve (directory : Path) :
    Does config t H o (Staged l) (inspectAndReserve o directory) (fun _ => Staged l) := by
  refine does_others fun inventory => spec_reserve (fun s hs => hs.released) fun r s hs => ?_
  exact ⟨(reserve_state r s.x _).trans hs.state, ((reserve_releases r s.x _).2).trans hs.released, hs.staging⟩

theorem does_publishWith (directory : Path) (publication : Option Publication) :
    Does config t H o (Staged l) (publishWith o directory publication) (fun _ => Staged l) := by
  cases publication with
  | none =>
    exact does_bind (does_inspectAndReserve directory) (fun _ => does_others fun _ => does_pure fun _ => id) fun _ _ => id
  | some p =>
    refine does_bind (B := fun _ => Staged l) (does_onlyIf (fun _ => ?_) fun _ _ => id)
      (fun _ => does_others fun _ => ?_) fun _ _ => id
    · refine does_bind (does_inspectAndReserve directory) (fun _ => does_others fun index => ?_) fun _ _ => id
      exact does_change fun r s hs => ⟨hs.state, hs.released, hs.staging⟩
    · exact does_change fun r s hs => ⟨hs.state, hs.released, hs.staging⟩

theorem does_attemptPublish (directory : Path) (x : Transaction) :
    Does config t H o (Staged l) (attemptPublish o directory x) (fun _ => At l Rest) := by
  refine does_bind (does_publishWith directory x.publication) (fun _ => ?_) fun _ _ => Staged.rest
  refine does_bind (B := fun r => At l fun _ => r = .ok ())
    (does_tryClearDescriptor fun s d hs => ⟨⟨rfl, hs.staging⟩, rfl, hs.staging⟩) (fun _ => ?_) (fun e s hs => by cases hs.1)
  refine does_bind (B := fun r => At l fun x => r = .ok () ∧ Rest x ∧ (x.state = .aborting ∨ x.state.terminal = true))
    (does_change fun r s hs => ⟨⟨rfl, rest_setState (.inr rfl), .inr ?_⟩, hs.2⟩) (fun _ => ?_) (fun e s hs => by cases hs.1.1)
  · rw [setState_state]
    rfl
  · exact does_bind ((does_cleanup fun s₀ => does_removeStaging s₀ directory).mono (fun s hs => ⟨hs.1.2, hs.2⟩) fun _ _ => id)
      (fun _ => does_pure fun _ => id) fun _ _ => id

theorem does_publishCheckpoint (directory : Path) (engine : IoEngine) (x : Transaction) :
    Does config t H o (Staged l) (publishCheckpoint config o directory engine x) (fun _ => At l Rest) := by
  refine does_bind (B := fun _ => Staged l) (does_external fun _ _ => id) (fun found => ?_) fun _ _ => Staged.rest
  split
  · exact does_pure fun _ => Staged.rest
  refine does_bind (B := fun _ => Staged l) (does_except fun _ => id) (fun _ => ?_) fun _ _ => Staged.rest
  refine does_attempt (does_attemptPublish directory x) fun r => ?_
  cases r with
  | error e => exact does_pure fun _ => id
  | ok _ => exact does_read fun s hs => does_pure fun _ heq => heq ▸ hs

theorem does_commitStaged (x : Transaction) :
    Does config t H o (Staged l) (commitStaged config o x) (fun _ => At l Rest) := by
  unfold commitStaged
  split
  · exact does_pure fun _ => Staged.rest
  · split
    · exact (does_cleanupRestore _).mono (fun _ => Staged.rest) fun _ _ => id
    · exact does_publishCheckpoint _ _ _
    · exact does_pure fun _ => Staged.rest

theorem does_commitLocked :
    Does config t H o (At l Rest) (commitLocked config o) (fun _ => At l Rest) := by
  refine does_read fun s hs => ?_
  split
  · exact does_pure fun _ heq => heq ▸ hs
  refine does_bind (B := fun _ s' => s' = s) (does_external fun _ _ => id) (fun now => ?_) fun _ _ heq => heq ▸ hs
  split
  · exact does_pure fun _ heq => heq ▸ hs
  split
  · exact does_pure fun _ heq => heq ▸ hs
  · exact does_pure fun _ heq => heq ▸ hs
  · rename_i hstate
    have hclean : At l (fun x => Rest x ∧ (x.state = .aborting ∨ x.state.terminal = true)) s :=
      ⟨⟨hs.1, .inr (by simp [hstate, TransactionState.terminal])⟩, hs.2⟩
    refine does_bind ((does_cleanup does_cleanupTransfer).mono (fun _ heq => heq ▸ hclean) fun _ _ => id) (fun _ => ?_)
      fun _ _ => id
    exact does_read fun s hs => does_pure fun _ heq => heq ▸ hs
  · rename_i hpreparing haborting hcommitted
    have hstate : s.x.state = .staged := by
      cases h : s.x.state <;> simp_all
    exact (does_commitStaged s.x).mono (fun _ heq => heq ▸ Rest.staged hs hstate) fun _ _ => id

/-! ## Abort, GPU requests and the reaper -/

theorem does_abortLocked (ho : o ∈ H) : Does config t H o (At l Rest) (abortLocked o) (fun _ => At l Rest) := by
  refine does_read fun s hs => ?_
  split
  · exact does_pure fun _ heq => heq ▸ hs
  · rename_i hstate
    have hclean : At l (fun x => Rest x ∧ (x.state = .aborting ∨ x.state.terminal = true)) s :=
      ⟨⟨hs.1, .inr (by simp [hstate, TransactionState.terminal])⟩, hs.2⟩
    refine does_bind ((does_cleanup does_cleanupTransfer).mono (fun _ heq => heq ▸ hclean) fun _ _ => id) (fun r => ?_)
      fun _ _ => id
    split
    · exact does_pure fun _ => id
    · exact does_pure fun _ => id
  · refine does_bind (B := fun _ => At l Rest) (does_external fun _ _ heq => heq ▸ hs) (fun now => ?_) fun _ _ => id
    split
    · exact does_pure fun _ => id
    refine does_bind ((does_tryAbort ho _).mono (fun s hs => ⟨trivial, hs.2⟩) fun _ _ => id) (fun r => ?_) fun _ _ => id
    split
    · exact does_pure fun _ => id
    · exact does_pure fun _ => id
    · exact does_pure fun _ => id

theorem does_setGpu (g : GpuOperation) :
    Does config t H o (At l Rest) (change o (.setGpu g)) (fun _ => At l Rest) :=
  does_change fun _ _ hs => ⟨hs.1.congr rfl rfl rfl rfl rfl, hs.2⟩

theorem does_executeGpu (ho : o ∈ H) (inputs : String) :
    Does config t H o (At l Rest) (executeGpu o inputs) (fun _ => At l Rest) := by
  refine does_bind (does_setGpu _) (fun _ => ?_) fun _ _ => id
  refine does_bind (B := fun _ => At l Rest) (does_yielding ho (fun s hs => hs) fun _ s hrest hl => ⟨hrest, hl⟩)
    (fun result => ?_) fun _ _ => id
  exact does_bind (does_setGpu _) (fun _ => does_pure fun _ => id) fun _ _ => id

theorem does_gpuLocked (ho : o ∈ H) (inputs : String) :
    Does config t H o (At l Rest) (gpuLocked o inputs) (fun _ => At l Rest) := by
  refine does_bind (B := fun _ => At l Rest) (does_get fun _ => id) (fun x => does_others fun now => ?_) fun _ _ => id
  split
  · exact does_bind (B := fun _ => At l Rest) (does_change fun r s hs => ⟨rest_expire, hs.2⟩)
      (fun _ => does_pure fun _ => id) fun _ _ => id
  split
  · exact does_pure fun _ => id
  split
  · split
    · exact does_pure fun _ => id
    · refine does_others fun _ => ?_
      split
      · exact does_pure fun _ => id
      split
      · exact does_pure fun _ => id
      · exact does_executeGpu ho inputs
  · exact does_others fun _ => does_executeGpu ho inputs

theorem does_reapLocked (ho : o ∈ H) (name : String) :
    Does config t H o (At l Rest) (reapLocked name o) (fun _ => At l Rest) := by
  refine does_read fun s hs => ?_
  split
  · rename_i hterminal
    have hclean : At l (fun x => Rest x ∧ (x.state = .aborting ∨ x.state.terminal = true)) s :=
      ⟨⟨hs.1, .inr hterminal⟩, hs.2⟩
    refine does_bind ((does_cleanup does_cleanupTransfer).mono (fun _ heq => heq ▸ hclean) fun _ _ => id) (fun r => ?_)
      fun _ _ => id
    split
    · exact does_retainTerminal ho name
    · exact does_pure fun _ => id
  · refine does_bind (B := fun _ => At l Rest) (does_external fun _ _ heq => heq ▸ hs) (fun now => ?_) fun _ _ => id
    split
    · refine does_bind (B := fun _ => At l Rest) (does_change fun r s hs => ⟨rest_expire, hs.2⟩) (fun _ => ?_) fun _ _ => id
      refine does_bind ((does_tryAbort ho _).mono (fun s hs => ⟨trivial, hs.2⟩) fun _ _ => id) (fun r => ?_) fun _ _ => id
      split
      · exact does_eraseTransaction fun _ => id
      · exact does_pure fun _ => id
    · exact does_pure fun _ => id

end Handlers

end PageBroker
