import Mathlib.Data.Finset.Basic

/-! Programs that run under one lock over a shared state and call an environment.
A call is made either with the lock held or in a window where the lock is dropped, so that
other threads may run before the call's answer is used. An `Outcome` is what is left to run
once the lock is taken; a program maps the state found at that moment to such a tree. -/
namespace LockedProgram

/-- The calls a program can make and the type in which each of them is answered. -/
structure Interface where
  Call : Type
  Answer : Call → Type

inductive Outcome (I : Interface) (σ ε α : Type) where
  | done (result : Except ε α) (s : σ)
  | aborted
  | locked (c : I.Call) (s : σ) (k : I.Answer c → Outcome I σ ε α)
  | unlocked (c : I.Call) (s : σ) (k : σ → I.Answer c → Outcome I σ ε α)

def Program (I : Interface) (σ ε α : Type) : Type := σ → Outcome I σ ε α

variable {I : Interface} {σ ε α β : Type}

def Program.run (p : Program I σ ε α) (s : σ) : Outcome I σ ε α := p s

namespace Outcome

/-- Continue after a normal return; an error or an abort ends the whole program. -/
def bind : Outcome I σ ε α → (α → σ → Outcome I σ ε β) → Outcome I σ ε β
  | done (.ok a) s, f => f a s
  | done (.error x) s, _ => done (.error x) s
  | aborted, _ => aborted
  | locked c s k, f => locked c s fun a => (k a).bind f
  | unlocked c s k, f => unlocked c s fun s' a => (k s' a).bind f

/-- Turn the result into a value, so that the caller can inspect an error and go on. -/
def attempt : Outcome I σ ε α → Outcome I σ ε (Except ε α)
  | done r s => done (.ok r) s
  | aborted => aborted
  | locked c s k => locked c s fun a => (k a).attempt
  | unlocked c s k => unlocked c s fun s' a => (k s' a).attempt

end Outcome

namespace Program

instance : Monad (Program I σ ε) where
  pure a := fun s => .done (.ok a) s
  bind p f := fun s => (p.run s).bind fun a => (f a).run

instance : MonadExceptOf ε (Program I σ ε) where
  throw x := fun s => .done (.error x) s
  tryCatch p h := fun s => (p.run s).attempt.bind fun r s' =>
    match r with
    | .ok a => .done (.ok a) s'
    | .error x => (h x).run s'

instance : MonadStateOf σ (Program I σ ε) where
  get := fun s => .done (.ok s) s
  set s := fun _ => .done (.ok ⟨⟩) s
  modifyGet f := fun s => .done (.ok (f s).1) (f s).2

def call (c : I.Call) : Program I σ ε (I.Answer c) :=
  fun s => .locked c s fun a => .done (.ok a) s

def attempt (p : Program I σ ε α) : Program I σ ε (Except ε α) := fun s => (p.run s).attempt

def when (condition : Prop) [Decidable condition] (p : Program I σ ε Unit) : Program I σ ε Unit :=
  if condition then p else pure ⟨⟩

end Program

/-- An environment holds a state of its own and answers a call on the program's state. -/
structure Environment (I : Interface) (σ E : Type) where
  step : E → σ → (c : I.Call) → I.Answer c → E → Prop

/-- What is required of each way in which a program can end. -/
structure Post (σ ε α E : Type) where
  ok : α → σ → E → Prop
  error : ε → σ → E → Prop
  abort : E → Prop

def Post.result (Q : Post σ ε α E) : Except ε α → σ → E → Prop
  | .ok a => Q.ok a
  | .error x => Q.error x

variable {E : Type} {env : Environment I σ E}

namespace Outcome

/-- Whatever the environment answers, a run that nobody interrupts ends as `Q` requires. -/
def wp (env : Environment I σ E) (Q : Post σ ε α E) : Outcome I σ ε α → E → Prop
  | done (.ok a) s, e => Q.ok a s e
  | done (.error x) s, e => Q.error x s e
  | aborted, e => Q.abort e
  | locked c s k, e => ∀ a e', env.step e s c a e' → (k a).wp env Q e'
  | unlocked c s k, e => ∀ a e', env.step e s c a e' → (k s a).wp env Q e'

/-- The uninterrupted runs that return, with their result and final states. -/
def Returns (env : Environment I σ E) :
    Outcome I σ ε α → E → Except ε α → σ → E → Prop
  | done r s, e, r', s', e' => r' = r ∧ s' = s ∧ e' = e
  | aborted, _, _, _, _ => False
  | locked c s k, e, r', s', e' => ∃ a e₁, env.step e s c a e₁ ∧ (k a).Returns env e₁ r' s' e'
  | unlocked c s k, e, r', s', e' => ∃ a e₁, env.step e s c a e₁ ∧ (k s a).Returns env e₁ r' s' e'

/-- Every run that returns ends as the weakest precondition requires. -/
theorem Returns.sound {Q : Post σ ε α E} {o : Outcome I σ ε α} {e e' : E} {r : Except ε α} {s' : σ}
    (hrun : o.Returns env e r s' e') (h : o.wp env Q e) :
    Q.result r s' e' := by
  induction o generalizing e with
  | done r₀ s =>
    obtain ⟨rfl, rfl, rfl⟩ := hrun
    cases r <;> exact h
  | aborted => exact hrun.elim
  | locked c s k ih =>
    obtain ⟨a, e₁, hstep, hrest⟩ := hrun
    exact ih a hrest (h a e₁ hstep)
  | unlocked c s k ih =>
    obtain ⟨a, e₁, hstep, hrest⟩ := hrun
    exact ih s a hrest (h a e₁ hstep)

end Outcome

section Rules

open Program

variable {Q : Post σ ε α E} {s : σ} {e : E}

@[simp]
theorem wp_pure {a : α} :
    ((pure a : Program I σ ε α).run s).wp env Q e ↔ Q.ok a s e := Iff.rfl

@[simp]
theorem wp_throw {x : ε} :
    ((throw x : Program I σ ε α).run s).wp env Q e ↔ Q.error x s e := Iff.rfl

@[simp]
theorem wp_call {c : I.Call} {Q : Post σ ε (I.Answer c) E} :
    ((call c : Program I σ ε _).run s).wp env Q e ↔ ∀ a e', env.step e s c a e' → Q.ok a s e' := Iff.rfl

end Rules

end LockedProgram
