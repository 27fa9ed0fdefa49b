import Snapshot.PageBrokerSystem

/-! Rules for the handlers of PageBroker. While a task has a transaction locked, it sees that
transaction and its own staging reservations; a rule says how a call changes these, and leaves the rest
of the broker to the discipline of locks and references. -/
namespace PageBroker

open Interleaving

/-! ## What a task sees -/

structure Local where
  x : Transaction
  staging : List UInt64

/-- The task has exactly this transaction locked, these references and these staging reservations. -/
structure Own (t : Task) (H : List Object) (o : Object) (s : Local) (w : World) : Prop where
  object : w.objects o = some s.x
  locked : w.locked o = some t
  only : ∀ o', o' ≠ o → w.locked o' ≠ some t
  handles : ∀ o', w.handles.count (t, o') = H.count o'
  staging : ∀ b, w.staging.count (t, b) = s.staging.count b

/-- The task has no lock, but these references and staging reservations. -/
structure Free (t : Task) (H : List Object) (l : List UInt64) (w : World) : Prop where
  locked : ∀ o, w.locked o ≠ some t
  handles : ∀ o, w.handles.count (t, o) = H.count o
  staging : ∀ b, w.staging.count (t, b) = l.count b

section Stable

variable {t : Task} {H : List Object} {o : Object} {s : Local} {l : List UInt64} {w w' : World}

theorem Own.rely (h : Own t H o s w) (hrely : Rely t w w') : Own t H o s w' := by
  refine ⟨(hrely.objects o h.locked).trans h.object, (hrely.locked o).2 h.locked, fun o' hne => ?_, fun o' => ?_, fun b => ?_⟩
  · rw [ne_eq, hrely.locked o']
    exact h.only o' hne
  · rw [hrely.handles o']
    exact h.handles o'
  · rw [hrely.staging b]
    exact h.staging b

theorem Free.rely (h : Free t H l w) (hrely : Rely t w w') : Free t H l w' := by
  refine ⟨fun o => ?_, fun o => ?_, fun b => ?_⟩
  · rw [ne_eq, hrely.locked o]
    exact h.locked o
  · rw [hrely.handles o]
    exact h.handles o
  · rw [hrely.staging b]
    exact h.staging b

theorem Own.mem (h : Own t H o s w) (ho : o ∈ H) : (t, o) ∈ w.handles := by
  rw [← List.count_pos_iff, h.handles o, List.count_pos_iff]
  exact ho

theorem Free.mem (h : Free t H l w) (ho : o ∈ H) : (t, o) ∈ w.handles := by
  rw [← List.count_pos_iff, h.handles o, List.count_pos_iff]
  exact ho

/-- The task has worked on its object. -/
theorem Own.put (h : Own t H o s w) (next : Resources × Transaction) :
    Own t H o ⟨next.2, s.staging⟩ (w.put o next) :=
  ⟨by simp [World.put], h.locked, h.only, h.handles, h.staging⟩

theorem Free.lock (h : Free t H l w) {x : Transaction} (hx : w.objects o = some x) :
    Own t H o ⟨x, l⟩ { w with locked := Function.update w.locked o (some t) } := by
  refine ⟨hx, by simp, fun o' hne => ?_, h.handles, h.staging⟩
  simpa [Function.update_of_ne hne] using h.locked o'

theorem Own.unlock (h : Own t H o s w) : Free t H s.staging { w with locked := Function.update w.locked o none } := by
  refine ⟨fun o' => ?_, h.handles, h.staging⟩
  by_cases hsame : o' = o
  · subst hsame
    simp
  · simpa [Function.update_of_ne hsame] using h.only o' hsame

end Stable

/-! ## Rules under a lock -/

section Rules

variable {config : Config} {t : Task} {H : List Object} {o : Object} {α β ε : Type}

/-- The task stays within what it is permitted, and what it sees changes from `A` to `B`. -/
def Spec (config : Config) (t : Task) (H : List Object) (o : Object) (A : Local → Prop)
    (p : Process interface α) (B : α → Local → Prop) : Prop :=
  ∀ w s, Own t H o s w → A s → p.Sound (system config) t Coherent (Rely t) (guarantee t)
    (fun a w' => ∃ s', Own t H o s' w' ∧ B a s') w

variable {A A' : Local → Prop} {B B' : α → Local → Prop}

theorem spec_pure {a : α} (h : ∀ s, A s → B a s) : Spec config t H o A (pure a) B :=
  fun _ s hown hA => Process.sound_pure ⟨s, hown, h s hA⟩

theorem spec_bind {p : Process interface α} {f : α → Process interface β} {C : β → Local → Prop}
    (hp : Spec config t H o A p B) (hf : ∀ a, Spec config t H o (B a) (f a) C) :
    Spec config t H o A (p >>= f) C := by
  intro w s hown hA
  rw [Process.sound_bind]
  refine (hp w s hown hA).mono ?_
  rintro a w' ⟨s', hown', hB⟩
  exact hf a w' s' hown' hB

theorem Spec.mono {p : Process interface α} (h : Spec config t H o A p B) (hA : ∀ s, A' s → A s)
    (hB : ∀ a s, B a s → B' a s) : Spec config t H o A' p B' := by
  intro w s hown hs
  refine (h w s hown (hA s hs)).mono ?_
  rintro a w' ⟨s', hown', hs'⟩
  exact ⟨s', hown', hB a s' hs'⟩

/-- One call. -/
theorem spec_request {c : Call} {B : c.Answer → Local → Prop}
    (hpermitted : ∀ w s, Own t H o s w → A s → Permitted t w c)
    (hstep : ∀ w s x a w', Own t H o s w → A s → perform t w c x = some (a, w') →
      ∃ s', Own t H o s' w' ∧ B a s') :
    Spec config t H o A (Process.request (I := interface) c) B := by
  intro w s hown hA
  refine Process.sound_request fun w₁ _ hrely x a w₂ hperform => ?_
  have hown' := hown.rely hrely
  exact ⟨⟨hpermitted w₁ s hown' hA, x, hperform⟩, hstep w₁ s x a w₂ hown' hA hperform⟩

theorem spec_get {B : Transaction → Local → Prop} (h : ∀ s, A s → B s.x s) :
    Spec config t H o A (Process.request (I := interface) (.get o)) B := by
  refine spec_request (fun w s hown _ => hown.locked) fun w s x a w' hown hA hperform => ?_
  simp only [perform, hown.object] at hperform
  cases hperform
  exact ⟨s, hown, h s hA⟩

theorem spec_change {c : Change} {B : Unit → Local → Prop} (h : ∀ r s, A s → B () ⟨(c.apply r s.x).2, s.staging⟩) :
    Spec config t H o A (Process.request (I := interface) (.change o c)) B := by
  refine spec_request (fun w s hown _ => hown.locked) fun w s x a w' hown hA hperform => ?_
  obtain ⟨y, hy, heq⟩ := Option.map_eq_some_iff.1 hperform
  cases heq
  obtain rfl : s.x = y := Option.some.inj (hown.object.symm.trans hy)
  exact ⟨_, hown.put _, h w.resources s hA⟩

theorem spec_prepareTransfer {resources : Bool} {bytes : UInt64} {artifact : Option String}
    {B : Except Error Unit → Local → Prop} (hfresh : ∀ s, A s → Fresh s.x)
    (h : ∀ r s fault, A s → B (prepareTransfer r s.x resources bytes artifact fault).1
      ⟨(prepareTransfer r s.x resources bytes artifact fault).2.2, s.staging⟩) :
    Spec config t H o A (Process.request (I := interface) (.prepareTransfer o resources bytes artifact)) B := by
  refine spec_request (fun w s hown hA => ⟨hown.locked, fun x hx => ?_⟩) fun w s x a w' hown hA hperform => ?_
  · obtain rfl : s.x = x := Option.some.inj (hown.object.symm.trans hx)
    exact hfresh s hA
  · obtain ⟨y, hy, heq⟩ := Option.map_eq_some_iff.1 hperform
    cases heq
    obtain rfl : s.x = y := Option.some.inj (hown.object.symm.trans hy)
    exact ⟨_, hown.put _, h w.resources s _ hA⟩

theorem spec_reserve {bytes : UInt64} {B : Except Error Unit → Local → Prop}
    (hreleased : ∀ s, A s → s.x.released = false)
    (h : ∀ r s, A s → B (reserve r s.x bytes).1 ⟨(reserve r s.x bytes).2.2, s.staging⟩) :
    Spec config t H o A (Process.request (I := interface) (.reserve o bytes)) B := by
  refine spec_request (fun w s hown hA => ⟨hown.locked, fun x hx => ?_⟩) fun w s x a w' hown hA hperform => ?_
  · obtain rfl : s.x = x := Option.some.inj (hown.object.symm.trans hx)
    exact hreleased s hA
  · obtain ⟨y, hy, heq⟩ := Option.map_eq_some_iff.1 hperform
    cases heq
    obtain rfl : s.x = y := Option.some.inj (hown.object.symm.trans hy)
    exact ⟨_, hown.put _, h w.resources s hA⟩

theorem spec_releaseReservation {B : Unit → Local → Prop}
    (h : ∀ r s, A s → B () ⟨(releaseReservation r s.x).2, s.staging⟩) :
    Spec config t H o A (Process.request (I := interface) (.releaseReservation o)) B := by
  refine spec_request (fun w s hown _ => hown.locked) fun w s x a w' hown hA hperform => ?_
  obtain ⟨y, hy, heq⟩ := Option.map_eq_some_iff.1 hperform
  cases heq
  obtain rfl : s.x = y := Option.some.inj (hown.object.symm.trans hy)
  exact ⟨_, hown.put _, h w.resources s hA⟩

theorem spec_external {e : External} {B : Except Error Value → Local → Prop} (h : ∀ r s, A s → B r s) :
    Spec config t H o A (Process.request (I := interface) (.external e)) B := by
  refine spec_request (fun _ _ _ _ => trivial) fun w s x a w' hown hA hperform => ?_
  cases hperform
  exact ⟨s, hown, h _ s hA⟩

theorem spec_eraseTransaction {id : String} {o' : Object} {B : Unit → Local → Prop} (h : ∀ s, A s → B () s) :
    Spec config t H o A (Process.request (I := interface) (.eraseTransaction id o')) B := by
  refine spec_request (fun _ _ _ _ => trivial) fun w s x a w' hown hA hperform => ?_
  cases hperform
  exact ⟨s, ⟨hown.object, hown.locked, hown.only, hown.handles, hown.staging⟩, h s hA⟩

theorem spec_pushTerminal (ho : o ∈ H) {id : String} {B : Unit → Local → Prop} (h : ∀ s, A s → B () s) :
    Spec config t H o A (Process.request (I := interface) (.pushTerminal id o)) B := by
  refine spec_request (fun w s hown _ => hown.mem ho) fun w s x a w' hown hA hperform => ?_
  cases hperform
  exact ⟨s, ⟨hown.object, hown.locked, hown.only, hown.handles, hown.staging⟩, h s hA⟩

theorem spec_reserveStaging {bytes : UInt64} {B : Except Error Bool → Local → Prop}
    (hrefused : ∀ r s, A s → r ≠ .ok true → B r s) (h : ∀ s, A s → B (.ok true) ⟨s.x, bytes :: s.staging⟩) :
    Spec config t H o A (Process.request (I := interface) (.reserveStaging bytes)) B := by
  refine spec_request (fun _ _ _ _ => trivial) fun w s x a w' hown hA hperform => ?_
  simp only [perform] at hperform
  split at hperform
  · cases hperform
    exact ⟨s, hown, hrefused _ s hA (by simp)⟩
  · split at hperform
    · cases hperform
      refine ⟨⟨s.x, bytes :: s.staging⟩, ⟨hown.object, hown.locked, hown.only, hown.handles, fun b => ?_⟩, h s hA⟩
      have := hown.staging b
      simp only [List.count_cons, this]
      congr 1
      simp
    · cases hperform
      exact ⟨s, hown, hrefused _ s hA (by simp)⟩

theorem spec_releaseStaging {bytes : UInt64} {B : Unit → Local → Prop} (hmem : ∀ s, A s → bytes ∈ s.staging)
    (h : ∀ s, A s → B () ⟨s.x, s.staging.erase bytes⟩) :
    Spec config t H o A (Process.request (I := interface) (.releaseStaging bytes)) B := by
  refine spec_request (fun w s hown hA => ?_) fun w s x a w' hown hA hperform => ?_
  · have hpos := List.count_pos_iff.2 (hmem s hA)
    rw [← hown.staging bytes] at hpos
    exact List.count_pos_iff.1 hpos
  · cases hperform
    refine ⟨⟨s.x, s.staging.erase bytes⟩, ⟨hown.object, hown.locked, hown.only, hown.handles, fun b => ?_⟩, h s hA⟩
    have := hown.staging b
    simp only [List.count_erase, this]
    congr 1
    simp

/-- The lock is given up for a while: the transaction is at rest before and after. -/
theorem spec_yield (ho : o ∈ H) {e : External} {l : List UInt64} {B : Except Error Value → Local → Prop}
    (hbefore : ∀ s, A s → Rest s.x ∧ s.staging = l) (hafter : ∀ r s, Rest s.x → s.staging = l → B r s) :
    Spec config t H o A (do
      let _ ← Process.request (I := interface) (.unlock o)
      let result ← Process.request (I := interface) (.external e)
      let _ ← Process.request (I := interface) (.lock o)
      pure result) B := by
  intro w s hown hA
  rw [Process.sound_bind]
  refine Process.sound_request fun w₁ _ hrely x a w₂ hperform => ?_
  have hown₁ := hown.rely hrely
  obtain ⟨hrest, rfl⟩ := hbefore s hA
  refine ⟨⟨⟨hown₁.locked, fun y hy => ?_⟩, x, hperform⟩, ?_⟩
  · obtain rfl : s.x = y := Option.some.inj (hown₁.object.symm.trans hy)
    exact hrest
  cases hperform
  have hfree := hown₁.unlock
  rw [Process.sound_bind]
  refine Process.sound_request fun w₃ _ hrely₃ x₃ r w₄ hperform₃ => ⟨⟨trivial, x₃, hperform₃⟩, ?_⟩
  cases hperform₃
  have hfree₃ := hfree.rely hrely₃
  rw [Process.sound_bind]
  refine Process.sound_request fun w₅ hcoherent hrely₅ x₅ a₅ w₆ hperform₅ => ?_
  have hfree₅ := hfree₃.rely hrely₅
  have hhandle := hfree₅.mem ho
  refine ⟨⟨hhandle, x₅, hperform₅⟩, ?_⟩
  simp only [system, perform] at hperform₅
  split at hperform₅
  · rename_i hunlocked
    cases hperform₅
    have href := referenced_of_handle hhandle
    obtain ⟨y, hy⟩ := Option.isSome_iff_exists.1 (hcoherent.exists' o href).2
    refine Process.sound_pure ⟨_, hfree₅.lock hy, hafter _ _ (hcoherent.rest o y hy hunlocked href) rfl⟩
  · cases hperform₅

end Rules

/-! ## Handlers that may throw -/

section Handlers

variable {config : Config} {t : Task} {H : List Object} {o : Object} {α β ε ε' : Type}

/-- The same for a handler that may throw. -/
def Does (config : Config) (t : Task) (H : List Object) (o : Object) (A : Local → Prop)
    (m : ExceptT ε (Process interface) α) (B : Except ε α → Local → Prop) : Prop :=
  Spec config t H o A m.run B

variable {A A' : Local → Prop} {B B' : Except ε α → Local → Prop}

theorem does_pure {a : α} (h : ∀ s, A s → B (.ok a) s) : Does config t H o A (pure a) B :=
  spec_pure h

theorem does_throw {e : ε} (h : ∀ s, A s → B (.error e) s) : Does config t H o A (throw e) B :=
  spec_pure h

theorem does_except {r : Except ε α} (h : ∀ s, A s → B r s) : Does config t H o A (ExceptT.mk (pure r)) B :=
  spec_pure h

theorem does_bind {m : ExceptT ε (Process interface) α} {f : α → ExceptT ε (Process interface) β}
    {C : Except ε β → Local → Prop} (hm : Does config t H o A m B)
    (hf : ∀ a, Does config t H o (B (.ok a)) (f a) C) (he : ∀ e s, B (.error e) s → C (.error e) s) :
    Does config t H o A (m >>= f) C := by
  refine spec_bind hm fun r => ?_
  cases r with
  | ok a => exact hf a
  | error e => exact spec_pure (he e)

theorem Does.mono {m : ExceptT ε (Process interface) α} (h : Does config t H o A m B) (hA : ∀ s, A' s → A s)
    (hB : ∀ r s, B r s → B' r s) : Does config t H o A' m B' :=
  Spec.mono h hA hB

theorem does_lift {p : Process interface α} {C : α → Local → Prop} (h : Spec config t H o A p C)
    (hC : ∀ a s, C a s → B (.ok a) s) : Does config t H o A (ExceptT.lift p) B :=
  spec_bind h fun _ => spec_pure (hC _)

theorem does_tryCatch {m : ExceptT ε (Process interface) α} {f : ε → ExceptT ε (Process interface) α}
    {C : Except ε α → Local → Prop} (hm : Does config t H o A m C) (hok : ∀ a s, C (.ok a) s → B (.ok a) s)
    (hf : ∀ e, Does config t H o (C (.error e)) (f e) B) : Does config t H o A (tryCatch m f) B := by
  refine spec_bind hm fun r => ?_
  cases r with
  | ok a => exact spec_pure (hok a)
  | error e => exact hf e

/-- A try block whose handler is written after it. -/
theorem does_attempt {m : ExceptT ε (Process interface) α} {f : Except ε α → ExceptT ε' (Process interface) β}
    {C : Except ε' β → Local → Prop} (hm : Does config t H o A m B) (hf : ∀ r, Does config t H o (B r) (f r) C) :
    Does config t H o A (ExceptT.lift m.run >>= f) C :=
  does_bind (B := fun r s => ∃ r', r = .ok r' ∧ B r' s) (does_lift hm fun r _ hs => ⟨r, rfl, hs⟩)
    (fun r => (hf r).mono (fun _ ⟨_, heq, hs⟩ => Except.ok.inj heq ▸ hs) fun _ _ => id) fun _ _ ⟨_, heq, _⟩ => by cases heq

theorem does_adapt {m : ExceptT ε (Process interface) α} {f : ε → ε'} {C : Except ε' α → Local → Prop}
    (hm : Does config t H o A m B) (hok : ∀ a s, B (.ok a) s → C (.ok a) s)
    (herror : ∀ e s, B (.error e) s → C (.error (f e)) s) : Does config t H o A (ExceptT.adapt f m) C := by
  have hrun : (ExceptT.adapt f m).run = m.run >>= fun r => pure (r.mapError f) := by
    rfl
  rw [Does, hrun]
  refine spec_bind hm fun r => spec_pure fun s hs => ?_
  cases r with
  | ok a => exact hok a s hs
  | error e => exact herror e s hs

theorem does_onlyIf {condition : Bool} {m : ExceptT ε (Process interface) Unit} {B : Except ε Unit → Local → Prop}
    (hm : condition = true → Does config t H o A m B) (h : condition = false → ∀ s, A s → B (.ok ()) s) :
    Does config t H o A (onlyIf condition m) B := by
  cases condition with
  | true => exact hm rfl
  | false => exact does_pure (h rfl)

/-- A call that does not throw. -/
theorem does_ask {c : Call} {C : c.Answer → Local → Prop} {B : Except Error c.Answer → Local → Prop}
    (h : Spec config t H o A (Process.request (I := interface) c) C) (hC : ∀ a s, C a s → B (.ok a) s) :
    Does config t H o A (ask c) B :=
  does_lift h hC

theorem does_get {B : Except Error Transaction → Local → Prop} (h : ∀ s, A s → B (.ok s.x) s) :
    Does config t H o A (ask (.get o)) B :=
  does_ask (spec_get h) fun _ _ => id

/-- From here on the transaction is known. -/
theorem does_read {f : Transaction → Handler β} {C : Except Error β → Local → Prop}
    (h : ∀ s, A s → Does config t H o (fun s' => s' = s) (f s.x) C) : Does config t H o A (ask (.get o) >>= f) C := by
  intro w s hown hA
  refine does_bind (A := fun s' => s' = s) (B := fun r s' => r = .ok s.x ∧ s' = s) (does_get ?_) (fun x => ?_)
    (fun e s' hs => by cases hs.1) w s hown rfl
  · rintro s' rfl
    exact ⟨rfl, rfl⟩
  · refine fun w' s' hown' hs => ?_
    cases hs.1
    exact h s hA w' s' hown' hs.2

theorem does_change {c : Change} {B : Except Error Unit → Local → Prop}
    (h : ∀ r s, A s → B (.ok ()) ⟨(c.apply r s.x).2, s.staging⟩) : Does config t H o A (change o c) B :=
  does_ask (spec_change h) fun _ _ => id

theorem does_external {e : External} {B : Except Error Value → Local → Prop} (h : ∀ r s, A s → B r s) :
    Does config t H o A (external e) B :=
  spec_external h

theorem does_throwIfCancelled {B : Except Error Unit → Local → Prop} (h : ∀ r s, A s → B r s) :
    Does config t H o A throwIfCancelled B :=
  does_bind (does_external fun _ _ => id) (fun _ => does_pure (h _)) (fun e s => h (.error e) s)

theorem does_eraseTransaction {id : String} {B : Except Error Unit → Local → Prop} (h : ∀ s, A s → B (.ok ()) s) :
    Does config t H o A (ask (.eraseTransaction id o)) B :=
  does_ask (spec_eraseTransaction h) fun _ _ hB => hB

/-- The lock is given up for a while. -/
theorem does_yielding (ho : o ∈ H) {e : External} {l : List UInt64} {B : Except Error (Except Error Value) → Local → Prop}
    (hbefore : ∀ s, A s → Rest s.x ∧ s.staging = l) (hafter : ∀ r s, Rest s.x → s.staging = l → B (.ok r) s) :
    Does config t H o A (yielding o e) B := by
  have hrun : (yielding o e).run = (do
      let _ ← Process.request (I := interface) (.unlock o)
      let result ← Process.request (I := interface) (.external e)
      let _ ← Process.request (I := interface) (.lock o)
      pure result) >>= fun result => pure (.ok result) := rfl
  rw [Does, hrun]
  exact spec_bind (spec_yield ho hbefore hafter) fun _ => spec_pure fun _ => id

end Handlers

end PageBroker
