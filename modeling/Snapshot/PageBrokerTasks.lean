import Snapshot.PageBrokerHandlers

/-! Every task of PageBroker starts and ends with no lock, no reference and no staging reservation. -/
namespace PageBroker

open Interleaving

section Rules

variable {config : Config} {t : Task} {H : List Object} {o : Object} {α β : Type}

/-- The task has these references before and those after, and no lock or staging reservation. -/
def Frees (config : Config) (t : Task) (H : List Object) (p : Process interface α) (H' : α → List Object) : Prop :=
  ∀ w, Free t H [] w → p.Sound (system config) t Coherent (Rely t) (guarantee t) (fun a w' => Free t (H' a) [] w') w

variable {H' : α → List Object}

theorem frees_pure {a : α} (h : H = H' a) : Frees config t H (pure a) H' := by
  subst h
  exact fun _ hfree => Process.sound_pure hfree

theorem frees_bind {p : Process interface α} {f : α → Process interface β} {H'' : β → List Object}
    (hp : Frees config t H p H') (hf : ∀ a, Frees config t (H' a) (f a) H'') : Frees config t H (p >>= f) H'' := by
  intro w hfree
  rw [Process.sound_bind]
  exact (hp w hfree).mono fun a w' hfree' => hf a w' hfree'

theorem frees_request {c : Call} {H' : c.Answer → List Object}
    (hpermitted : ∀ w, Free t H [] w → Permitted t w c)
    (hstep : ∀ w x a w', Free t H [] w → perform t w c x = some (a, w') → Free t (H' a) [] w') :
    Frees config t H (Process.request (I := interface) c) H' := by
  intro w hfree
  refine Process.sound_request fun w₁ _ hrely x a w₂ hperform => ?_
  have hfree₁ := hfree.rely hrely
  exact ⟨⟨hpermitted w₁ hfree₁, x, hperform⟩, hstep w₁ x a w₂ hfree₁ hperform⟩

theorem Free.hand {w : World} (h : Free t H [] w) (items : List (String × Object)) :
    Free t (items.map Prod.snd ++ H) [] (w.hand t items) := by
  refine ⟨h.locked, fun o => ?_, h.staging⟩
  have hcount : ∀ items : List (String × Object),
      (items.map fun item => (t, item.2)).count (t, o) = (items.map Prod.snd).count o := by
    intro items
    induction items with
    | nil => rfl
    | cons item rest ih => simp [List.count_cons, ih]
  simp only [World.hand, List.count_append, h.handles o, hcount]

theorem Free.create {w : World} (h : Free t H [] w) (name : String) :
    Free t (w.allocated :: H) [] (w.create t name) := by
  refine ⟨h.locked, fun o => ?_, h.staging⟩
  simp [World.create, List.count_cons, h.handles o]

theorem frees_createOrGetTransaction (name : String) :
    Frees config t H (createOrGetTransaction name).run fun
      | .ok o => o :: H
      | .error _ => H := by
  refine frees_request (fun _ _ => trivial) fun w x a w' hfree hperform => ?_
  simp only [perform] at hperform
  split at hperform
  · cases hperform
    exact hfree
  · split at hperform
    · cases hperform
      exact hfree.hand [(name, _)]
    · cases hperform
      exact hfree.create name

theorem frees_findTransaction (name : String) :
    Frees config t H (Process.request (I := interface) (.findTransaction name)) fun
      | some o => o :: H
      | none => H := by
  refine frees_request (fun _ _ => trivial) fun w x a w' hfree hperform => ?_
  simp only [perform] at hperform
  split at hperform
  · cases hperform
    exact hfree.hand [(name, _)]
  · cases hperform
    exact hfree

theorem frees_transactionSnapshot :
    Frees config t H (Process.request (I := interface) .transactionSnapshot) fun items => items.map Prod.snd ++ H := by
  refine frees_request (fun _ _ => trivial) fun w x a w' hfree hperform => ?_
  simp only [perform] at hperform
  split at hperform
  · cases hperform
    exact hfree.hand _
  · cases hperform

theorem frees_popTerminal :
    Frees config t H (Process.request (I := interface) .popTerminal) fun items => items.map Prod.snd ++ H := by
  refine frees_request (fun _ _ => trivial) fun w x a w' hfree hperform => ?_
  cases hperform
  obtain ⟨hlocked, hhandles, hstaging⟩ := hfree.hand (w.terminal.take x.count)
  exact ⟨hlocked, hhandles, hstaging⟩

theorem frees_drop : Frees config t (o :: H) (Process.request (I := interface) (.drop o)) fun _ => H := by
  refine frees_request (fun w hfree => hfree.locked o) fun w x a w' hfree hperform => ?_
  cases hperform
  refine ⟨hfree.locked, fun o' => ?_, hfree.staging⟩
  have := hfree.handles o'
  simp only [List.count_cons] at this
  simp only [List.count_erase, this]
  by_cases hsame : o = o'
  · subst hsame
    simp
  · simp [hsame]

theorem frees_eraseTransaction (name : String) :
    Frees config t H (Process.request (I := interface) (.eraseTransaction name o)) fun _ => H := by
  refine frees_request (fun _ _ => trivial) fun w x a w' hfree hperform => ?_
  cases hperform
  exact ⟨hfree.locked, hfree.handles, hfree.staging⟩

theorem frees_external (e : External) :
    Frees config t H (Process.request (I := interface) (.external e)) fun _ => H := by
  refine frees_request (fun _ _ => trivial) fun w x a w' hfree hperform => ?_
  cases hperform
  exact hfree

/-- A task locks a transaction at rest, and leaves it at rest. -/
theorem Free.locks {w w' : World} (hcoherent : Coherent w) (hfree : Free t H [] w) (ho : o ∈ H)
    (hunlocked : w.locked o = none) (hw' : w' = { w with locked := Function.update w.locked o (some t) }) :
    ∃ s, Own t H o s w' ∧ At [] Rest s := by
  have href := referenced_of_handle (hfree.mem ho)
  obtain ⟨x, hx⟩ := Option.isSome_iff_exists.1 (hcoherent.exists' o href).2
  subst hw'
  exact ⟨_, hfree.lock hx, hcoherent.rest o x hx hunlocked href, rfl⟩

theorem sound_unlock {w : World} {s : Local} (hown : Own t H o s w) (hs : At [] Rest s) (a : α) :
    (do let _ ← Process.request (I := interface) (.unlock o); pure a : Process interface α).Sound (system config) t
      Coherent (Rely t) (guarantee t) (fun _ w' => Free t H [] w') w := by
  rw [Process.sound_bind]
  refine Process.sound_request fun w₁ _ hrely x r w₂ hperform => ?_
  have hown₁ := hown.rely hrely
  refine ⟨⟨⟨hown₁.locked, fun y hy => ?_⟩, x, hperform⟩, ?_⟩
  · obtain rfl : s.x = y := Option.some.inj (hown₁.object.symm.trans hy)
    exact hs.1
  · cases hperform
    have hfree := hown₁.unlock
    rw [hs.2] at hfree
    exact Process.sound_pure hfree

end Rules

/-! ## Handlers -/

section Handlers

variable {config : Config} {t : Task} {H : List Object} {o : Object} {α β : Type}

/-- The handler gives up every reference that it gets. -/
def Leaves (config : Config) (t : Task) (H : List Object) (m : Handler α) : Prop :=
  Frees config t H m.run fun _ => H

theorem leaves_except {r : Except Error α} : Leaves config t H (ExceptT.mk (pure r)) := frees_pure rfl

theorem leaves_pure {a : α} : Leaves config t H (pure a) := frees_pure rfl

theorem leaves_throw {e : Error} : Leaves config t H (throw e : Handler α) := frees_pure rfl

theorem leaves_bind {m : Handler α} {f : α → Handler β} (hm : Leaves config t H m) (hf : ∀ a, Leaves config t H (f a)) :
    Leaves config t H (m >>= f) := by
  refine frees_bind hm fun r => ?_
  cases r with
  | ok a => exact hf a
  | error e => exact frees_pure rfl

theorem leaves_tryCatch {m : Handler α} {f : Error → Handler α} (hm : Leaves config t H m)
    (hf : ∀ e, Leaves config t H (f e)) : Leaves config t H (tryCatch m f) := by
  refine frees_bind hm fun r => ?_
  cases r with
  | ok a => exact frees_pure rfl
  | error e => exact hf e

theorem leaves_onlyIf {condition : Bool} {m : Handler Unit} (hm : Leaves config t H m) :
    Leaves config t H (onlyIf condition m) := by
  cases condition with
  | true => exact hm
  | false => exact leaves_pure

theorem leaves_external (e : External) : Leaves config t H (external e) := frees_external e

theorem leaves_eraseTransaction (name : String) : Leaves config t H (ask (.eraseTransaction name o)) :=
  frees_bind (frees_eraseTransaction name) fun _ => frees_pure rfl

/-- A reference that a handler has got is given up at its end. -/
theorem frees_withHandle {m : Handler α} (hm : Leaves config t (o :: H) m) :
    Frees config t (o :: H) (withHandle o m).run fun _ => H :=
  frees_bind hm fun _ => frees_bind frees_drop fun _ => frees_pure rfl

theorem run_ask (c : Call) (f : c.Answer → Handler β) :
    (ask c >>= f).run = Process.request (I := interface) c >>= fun a => (f a).run := rfl

/-- A call that may hand over references, which are given up at the end. -/
theorem leaves_ask {c : Call} {K : c.Answer → List Object} {f : c.Answer → Handler β}
    (hc : Frees config t H (Process.request (I := interface) c) K)
    (hf : ∀ a, Frees config t (K a) (f a).run fun _ => H) : Leaves config t H (ask c >>= f) := by
  rw [Leaves, run_ask]
  exact frees_bind hc hf

theorem leaves_find {name : String} {f : Option Object → Handler β} (hnone : Leaves config t H (f none))
    (hsome : ∀ o, Frees config t (o :: H) (f (some o)).run fun _ => H) :
    Leaves config t H (ask (.findTransaction name) >>= f) := by
  refine leaves_ask (frees_findTransaction name) fun r => ?_
  cases r with
  | none => exact hnone
  | some o => exact hsome o

theorem leaves_createOrGet {name : String} {f : Object → Handler β}
    (hf : ∀ o, Frees config t (o :: H) (f o).run fun _ => H) :
    Leaves config t H (createOrGetTransaction name >>= f) := by
  refine frees_bind (frees_createOrGetTransaction name) fun r => ?_
  cases r with
  | ok o => exact hf o
  | error e => exact frees_pure rfl

/-- The body of a lock, and the end of its scope. -/
theorem sound_scope {m : Handler α} (hm : Does config t H o (At [] Rest) m (fun _ => At [] Rest)) {w : World}
    {s : Local} (hown : Own t H o s w) (hs : At [] Rest s) :
    (finally' m (.unlock o)).run.Sound (system config) t Coherent (Rely t) (guarantee t)
      (fun _ w' => Free t H [] w') w := by
  show (m.run >>= fun r => do
    let _ ← Process.request (I := interface) (.unlock o)
    pure r).Sound _ _ _ _ _ _ _
  rw [Process.sound_bind]
  refine (hm w s hown hs).mono ?_
  rintro r w' ⟨s', hown', hs'⟩
  exact sound_unlock hown' hs' r

theorem leaves_withLock (ho : o ∈ H) {m : Handler α} (hm : Does config t H o (At [] Rest) m (fun _ => At [] Rest)) :
    Leaves config t H (withLock o m) := by
  intro w hfree
  rw [withLock, run_ask, Process.sound_bind]
  refine Process.sound_request fun w₁ hcoherent hrely x a w₂ hperform => ?_
  have hfree₁ := hfree.rely hrely
  refine ⟨⟨hfree₁.mem ho, x, hperform⟩, ?_⟩
  simp only [system, perform] at hperform
  split at hperform
  · rename_i hunlocked
    cases hperform
    obtain ⟨s, hown, hs⟩ := hfree₁.locks hcoherent ho hunlocked rfl
    exact sound_scope hm hown hs
  · cases hperform

/-- The same with a lock that is taken only if it is free. -/
theorem leaves_tryLock (ho : o ∈ H) {m : Handler Unit} (hm : Does config t H o (At [] Rest) m (fun _ => At [] Rest)) :
    Leaves config t H (do
      let locked ← tryLock o
      onlyIf locked (finally' m (.unlock o))) := by
  intro w hfree
  rw [tryLock, run_ask, Process.sound_bind]
  refine Process.sound_request fun w₁ hcoherent hrely x a w₂ hperform => ?_
  have hfree₁ := hfree.rely hrely
  refine ⟨⟨hfree₁.mem ho, x, hperform⟩, ?_⟩
  simp only [system, perform] at hperform
  split at hperform
  · rename_i hunlocked
    cases hperform
    obtain ⟨s, hown, hs⟩ := hfree₁.locks hcoherent ho hunlocked rfl
    exact sound_scope hm hown hs
  · cases hperform
    exact Process.sound_pure hfree₁

/-! ## Requests -/

theorem leaves_stageRestore (name : String) (direct metadata : Bool) (artifact : Option String) :
    Leaves config t H (stageRestore config name direct metadata artifact) := by
  refine leaves_bind leaves_except fun directory => leaves_bind (leaves_external _) fun _ =>
    leaves_createOrGet fun o => frees_withHandle ?_
  exact leaves_withLock List.mem_cons_self (does_restoreLocked name direct metadata artifact directory)

theorem leaves_stageCheckpoint (name : String) (direct : Bool) (engine : IoEngine) (artifact : Option String) :
    Leaves config t H (stageCheckpoint config name direct engine artifact) := by
  refine leaves_bind leaves_except fun directory => leaves_bind (leaves_external _) fun _ =>
    leaves_createOrGet fun o => frees_withHandle ?_
  exact leaves_withLock List.mem_cons_self (does_checkpointLocked name direct engine artifact directory)

theorem leaves_commit (name : String) : Leaves config t H (commit config name) :=
  leaves_find leaves_pure fun _ => frees_withHandle (leaves_withLock List.mem_cons_self does_commitLocked)

theorem leaves_abort (name : String) : Leaves config t H (abort name) :=
  leaves_find leaves_pure fun _ =>
    frees_withHandle (leaves_withLock List.mem_cons_self (does_abortLocked List.mem_cons_self))

theorem leaves_metadata (name : String) (subject : Subject) : Leaves config t H (metadata config name subject) := by
  refine leaves_bind leaves_except fun _ => leaves_bind ?_ fun artifact => ?_
  · cases subject with
    | target target => exact leaves_bind (leaves_external _) fun _ => leaves_pure
    | artifact handle => exact leaves_pure
  · exact leaves_bind (leaves_external _) fun _ => leaves_stageRestore name false true _

theorem leaves_dispatch (name : String) (command : Command) : Leaves config t H (dispatch config name command) := by
  unfold dispatch
  split
  · exact leaves_bind leaves_except fun _ => leaves_stageRestore _ _ _ _
  · exact leaves_bind leaves_except fun _ => leaves_stageCheckpoint _ _ _ _
  · exact leaves_bind leaves_except fun _ => leaves_bind (leaves_external _) fun _ => leaves_stageRestore _ _ _ _
  · exact leaves_bind (leaves_onlyIf leaves_throw) fun _ => leaves_bind leaves_except fun _ => leaves_stageRestore _ _ _ _
  · exact leaves_throw
  · exact leaves_metadata _ _
  · exact leaves_bind leaves_except fun _ => leaves_bind (leaves_external _) fun _ => leaves_stageCheckpoint _ _ _ _
  · exact leaves_bind (leaves_onlyIf leaves_throw) fun _ => leaves_bind leaves_except fun _ => leaves_stageCheckpoint _ _ _ _
  · exact leaves_commit name
  · exact leaves_abort name
  · exact leaves_pure
  · exact leaves_pure

theorem leaves_retainTerminalTransaction (name : String) : Leaves config t H (retainTerminalTransaction name) :=
  leaves_find leaves_pure fun _ =>
    frees_withHandle (leaves_tryLock List.mem_cons_self (does_retainTerminal List.mem_cons_self name))

theorem frees_dropAll (items : List (String × Object)) :
    Frees config t (items.map Prod.snd ++ H) (dropAll items) fun _ => H := by
  induction items with
  | nil => exact frees_pure rfl
  | cons item rest ih => exact frees_bind frees_drop fun _ => ih

theorem frees_withHandles {items : List (String × Object)} {m : Handler α}
    (hm : Leaves config t (items.map Prod.snd ++ H) m) :
    Frees config t (items.map Prod.snd ++ H) (withHandles items m).run fun _ => H :=
  frees_bind hm fun _ => frees_bind (frees_dropAll items) fun _ => frees_pure rfl

theorem leaves_eraseAll (items : List (String × Object)) : Leaves config t H (eraseAll items) := by
  induction items with
  | nil => exact leaves_pure
  | cons item rest ih => exact leaves_bind (leaves_eraseTransaction item.1) fun _ => ih

theorem leaves_reapTerminalTransactions : Leaves config t H reapTerminalTransactions :=
  leaves_ask frees_popTerminal fun items => frees_withHandles (leaves_bind (leaves_external _) fun _ => leaves_eraseAll items)

theorem leaves_handleRequest (request : Request) : Leaves config t H (handleRequest config request) := by
  unfold handleRequest
  split
  · exact leaves_pure
  split
  · exact leaves_pure
  refine leaves_bind (leaves_tryCatch (leaves_dispatch _ _) fun e => ?_) fun response => ?_
  · cases e <;> exact leaves_pure
  · exact leaves_bind (leaves_retainTerminalTransaction _) fun _ =>
      leaves_bind leaves_reapTerminalTransactions fun _ => leaves_pure

theorem leaves_handleGpuRequest (name inputs : String) : Leaves config t H (handleGpuRequest name inputs) := by
  refine leaves_tryCatch (leaves_bind (leaves_external _) fun _ => leaves_find leaves_pure fun o => ?_) fun e => ?_
  · exact frees_withHandle (leaves_withLock List.mem_cons_self (does_gpuLocked List.mem_cons_self inputs))
  · cases e <;> exact leaves_pure

theorem leaves_reapEach (items : List (String × Object)) (hitems : ∀ item ∈ items, item.2 ∈ H) :
    Leaves config t H (reapEach items) := by
  induction items with
  | nil => exact leaves_pure
  | cons item rest ih =>
    have ho := hitems item List.mem_cons_self
    unfold reapEach
    rw [← bind_assoc]
    refine leaves_bind (leaves_tryLock ho (does_reapLocked ho item.1)) fun _ => ih fun item' hmem => ?_
    exact hitems item' (List.mem_cons_of_mem _ hmem)

theorem leaves_reapExpiredTransactions : Leaves config t H reapExpiredTransactions := by
  refine leaves_bind (leaves_external _) fun _ => leaves_ask frees_transactionSnapshot fun items => ?_
  refine frees_bind (frees_withHandles (leaves_reapEach items fun item hitem => ?_)) fun r => ?_
  · exact List.mem_append_left _ (List.mem_map_of_mem hitem)
  cases r with
  | ok _ => exact leaves_reapTerminalTransactions
  | error e => exact frees_pure rfl

end Handlers

/-! ## Destruction -/

section Tasks

variable {config : Config}

theorem Free.destroyReservation {t : Task} {w : World} (hfree : Free t [] [] w) (o : Object) (next : Resources × Transaction) :
    Free t [] [] (w.put o next) :=
  ⟨hfree.locked, hfree.handles, hfree.staging⟩

theorem releaseReservation_holds (r : Resources) (x : Transaction) : (releaseReservation r x).2.holds = false := by
  unfold releaseReservation
  by_cases hdone : (!x.resources || x.released) = true
  · rw [if_pos hdone]
    simp only [Transaction.holds]
    cases hresources : x.resources with
    | false => rfl
    | true =>
      have hreleased : x.released = true := by simpa [hresources] using hdone
      rw [hreleased]
      rfl
  · rw [if_neg hdone]
    simp [Transaction.holds]

/-- The destructor of an object that nobody refers to. -/
theorem frees_destroy (o : Object) : Frees config (.destroy o) [] (destroy o) fun _ => [] := by
  intro w hfree
  unfold destroy
  rw [Process.sound_bind]
  refine Process.sound_request fun w₁ hcoherent hrely x a w₂ hperform => ?_
  have hfree₁ := hfree.rely hrely
  refine ⟨⟨rfl, x, hperform⟩, ?_⟩
  simp only [system, perform] at hperform
  split at hperform
  · cases hperform
  rename_i hunreferenced
  obtain ⟨y, hy, heq⟩ := Option.map_eq_some_iff.1 hperform
  cases heq
  have hallocated : o < w₁.allocated := by
    by_contra hge
    rw [hcoherent.accounts.fresh o (not_lt.1 hge)] at hy
    cases hy
  rw [Process.sound_bind]
  refine Process.sound_request fun w₃ _ hrely₃ x₃ a₃ w₄ hperform₃ => ?_
  have hfree₃ := (hfree₁.destroyReservation o (releaseReservation w₁.resources y)).rely hrely₃
  obtain ⟨hunreferenced₃, hobject⟩ := hrely₃.destroyed o rfl hallocated (Bool.eq_false_iff.2 hunreferenced)
  have hobject₃ : w₃.objects o = some (releaseReservation w₁.resources y).2 := by
    rw [hobject]
    simp [World.put]
  refine ⟨⟨⟨rfl, hunreferenced₃, fun z hz => ?_⟩, x₃, hperform₃⟩, ?_⟩
  · obtain rfl : (releaseReservation w₁.resources y).2 = z := Option.some.inj (hobject₃.symm.trans hz)
    exact releaseReservation_holds _ _
  · obtain ⟨z, _, heq⟩ := Option.map_eq_some_iff.1 hperform₃
    cases heq
    exact Process.sound_pure ⟨hfree₃.locked, hfree₃.handles, hfree₃.staging⟩

theorem frees_body (t : Task) : Frees config t [] (t.body config) fun _ => [] := by
  cases t with
  | request n input => exact frees_bind (leaves_handleRequest input) fun _ => frees_pure rfl
  | gpu n name inputs => exact frees_bind (leaves_handleGpuRequest name inputs) fun _ => frees_pure rfl
  | reap n => exact frees_bind leaves_reapExpiredTransactions fun _ => frees_pure rfl
  | destroy o => exact frees_destroy o

theorem Coherent.shutdown {w : World} (h : Coherent w) : Coherent { w with stopping := true } :=
  ⟨h.accounts.congr rfl rfl rfl, h.releases, h.exists', h.locks, h.rest, h.staging⟩

theorem shutdown_rely (t : Task) (w : World) : Rely t w { w with stopping := true } :=
  ⟨fun _ => .rfl, fun _ _ => rfl, fun _ => rfl, fun _ => rfl, fun _ _ _ h => ⟨h, rfl⟩, Nat.le_refl _⟩

/-- A task that does not run has no lock, reference or staging reservation. -/
def roster (config : Config) : Roster (system config) where
  Inv := Coherent
  idle t := Free t [] []
  rely := Rely
  guarantee := guarantee
  rely_refl := Rely.refl
  rely_trans := Rely.trans
  idle_rely := Free.rely
  disturb := by
    rintro w d w' hcoherent heq
    cases heq
    exact ⟨hcoherent.shutdown, fun t => shutdown_rely t w⟩
  keeps hcoherent hg := (perform_kept hcoherent hg).1
  others hcoherent hg hne := (perform_kept hcoherent hg).2 _ hne
  body _ hidle := frees_body _ _ hidle

end Tasks

end PageBroker
