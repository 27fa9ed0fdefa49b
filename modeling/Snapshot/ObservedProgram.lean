import Mathlib.Data.Nat.Notation

/-! # Programs that observe their environment

A program passes a state on and reads what it finds outside from a list of observations. A run returns,
throws, or waits for an observation that was not made yet. -/

namespace ObservedProgram

/-- How far a run came, with the observations that are left. -/
inductive Outcome (σ ω ε α : Type) where
  | returned (a : α) (s : σ) (rest : List ω)
  | threw (e : ε) (s : σ) (rest : List ω)
  | waiting (s : σ)

namespace Outcome

variable {σ ω ε α : Type}

def state : Outcome σ ω ε α → σ
  | returned _ s _ => s
  | threw _ s _ => s
  | waiting s => s

/-- What holds of a result, of an error, and of the state of a run that still waits. -/
def Ends (Q : α → σ → Prop) (E : ε → σ → Prop) (I : σ → Prop) : Outcome σ ω ε α → Prop
  | returned a s _ => Q a s
  | threw e s _ => E e s
  | waiting s => I s

/-- What holds of a result, and of the state of a run that gave none. -/
def Sat (Q : α → σ → Prop) (I : σ → Prop) : Outcome σ ω ε α → Prop := Ends Q (fun _ => I) I

theorem Sat.state {Q : α → σ → Prop} {I : σ → Prop} {o : Outcome σ ω ε α} (h : o.Sat Q I)
    (hQ : ∀ a s, Q a s → I s) : I o.state := by
  cases o with
  | returned a s rest => exact hQ a s h
  | threw e s rest => exact h
  | waiting s => exact h

end Outcome

end ObservedProgram

/-- A program over a state that reads observations. -/
def ObservedProgram (σ ω ε α : Type) : Type := σ → List ω → ObservedProgram.Outcome σ ω ε α

namespace ObservedProgram

variable {σ ω ε α β : Type}

protected def pure (a : α) : ObservedProgram σ ω ε α := fun s ws => .returned a s ws

protected def bind (m : ObservedProgram σ ω ε α) (f : α → ObservedProgram σ ω ε β) : ObservedProgram σ ω ε β :=
  fun s ws =>
    match m s ws with
    | .returned a s' rest => f a s' rest
    | .threw e s' rest => .threw e s' rest
    | .waiting s' => .waiting s'

instance : Monad (ObservedProgram σ ω ε) where
  pure := ObservedProgram.pure
  bind := ObservedProgram.bind

def throw (e : ε) : ObservedProgram σ ω ε α := fun s ws => .threw e s ws

def get : ObservedProgram σ ω ε σ := fun s ws => .returned s s ws

def modify (f : σ → σ) : ObservedProgram σ ω ε Unit := fun s ws => .returned () (f s) ws

def observe : ObservedProgram σ ω ε ω := fun s ws =>
  match ws with
  | [] => .waiting s
  | w :: ws => .returned w s ws

/-- Cleanup that runs when a program throws; the error is thrown again. -/
def onError (m : ObservedProgram σ ω ε α) (cleanup : σ → σ) : ObservedProgram σ ω ε α := fun s ws =>
  match m s ws with
  | .threw e s' rest => .threw e (cleanup s') rest
  | o => o

/-- A call that never comes back. -/
def halt : ObservedProgram σ ω ε α := fun s _ => .waiting s

/-- The rounds of a counted loop from round `i` on, `k` of them. -/
def rounds (body : ℕ → ObservedProgram σ ω ε Unit) : ℕ → ℕ → ObservedProgram σ ω ε Unit
  | 0, _ => ObservedProgram.pure ()
  | k + 1, i => ObservedProgram.bind (body i) fun _ => rounds body k (i + 1)

/-- A loop that makes one observation in each round. -/
def poll (again : σ → Bool) (body : ω → σ → σ × Option ε) (s : σ) : List ω → Outcome σ ω ε Unit
  | [] => if again s then .waiting s else .returned () s []
  | w :: ws =>
    if again s then
      match body w s with
      | (s', none) => poll again body s' ws
      | (s', some e) => .threw e s' ws
    else .returned () s (w :: ws)

/-- A loop that goes on while its body asks for it, for a number of rounds; a run that needs more of them
waits. -/
def loop (body : ObservedProgram σ ω ε Bool) : ℕ → ObservedProgram σ ω ε Unit
  | 0 => halt
  | n + 1 => ObservedProgram.bind body fun again => if again then loop body n else ObservedProgram.pure ()

/-- From a state with `P` a program returns with `Q` or throws with `E`; while it waits, the state has `I`. -/
def Triple (I P : σ → Prop) (m : ObservedProgram σ ω ε α) (Q : α → σ → Prop) (E : ε → σ → Prop) : Prop :=
  ∀ s ws, P s → (m s ws).Ends Q E I

/-- From a state with `P` a program returns with `Q`; if it throws or waits, the state has `I`. -/
def Spec (I P : σ → Prop) (m : ObservedProgram σ ω ε α) (Q : α → σ → Prop) : Prop := Triple I P m Q fun _ => I

section Rules

variable {I P P' : σ → Prop} {Q Q' : α → σ → Prop} {R : β → σ → Prop} {E E' : ε → σ → Prop}

theorem Triple.weaken {m : ObservedProgram σ ω ε α} (h : Triple I P m Q E) (hP : ∀ s, P' s → P s)
    (hQ : ∀ a s, Q a s → Q' a s) (hE : ∀ e s, E e s → E' e s) : Triple I P' m Q' E' := by
  intro s ws hs
  have hm := h s ws (hP s hs)
  cases hout : m s ws with
  | returned a s' rest =>
    rw [hout] at hm
    exact hQ a s' hm
  | threw e s' rest =>
    rw [hout] at hm
    exact hE e s' hm
  | waiting s' =>
    rw [hout] at hm
    exact hm

theorem Triple.bind {m : ObservedProgram σ ω ε α} {f : α → ObservedProgram σ ω ε β} (h : Triple I P m Q E)
    (hf : ∀ a, Triple I (Q a) (f a) R E) : Triple I P (m >>= f) R E := by
  intro s ws hs
  have hm := h s ws hs
  change Outcome.Ends R E I (ObservedProgram.bind m f s ws)
  rw [ObservedProgram.bind]
  cases hout : m s ws with
  | returned a s' rest =>
    rw [hout] at hm
    exact hf a s' rest hm
  | threw e s' rest =>
    rw [hout] at hm
    exact hm
  | waiting s' =>
    rw [hout] at hm
    exact hm

theorem Triple.pure {a : α} (h : ∀ s, P s → Q a s) : Triple (ω := ω) I P (Pure.pure a) Q E := fun s _ hs => h s hs

theorem Triple.throw {e : ε} (h : ∀ s, P s → E e s) : Triple (ω := ω) I P (ObservedProgram.throw e) Q E :=
  fun s _ hs => h s hs

theorem Triple.get : Triple (ω := ω) I P ObservedProgram.get (fun a s => P s ∧ s = a) E := fun _ _ hs => ⟨hs, rfl⟩

theorem Triple.modify {f : σ → σ} {Q : Unit → σ → Prop} (h : ∀ s, P s → Q () (f s)) :
    Triple (ω := ω) I P (ObservedProgram.modify f) Q E := fun s _ hs => h s hs

theorem Triple.observe (h : ∀ s, P s → I s) :
    Triple I P (ObservedProgram.observe : ObservedProgram σ ω ε ω) (fun _ => P) E := by
  intro s ws hs
  cases ws with
  | nil => exact h s hs
  | cons w ws => exact hs

theorem Triple.halt (h : ∀ s, P s → I s) : Triple (ω := ω) I P ObservedProgram.halt Q E := fun s _ hs => h s hs

theorem Triple.ite {c : Prop} [Decidable c] {m n : ObservedProgram σ ω ε α} (hm : c → Triple I P m Q E)
    (hn : ¬ c → Triple I P n Q E) : Triple I P (if c then m else n) Q E := by
  by_cases h : c
  · rw [if_pos h]
    exact hm h
  · rw [if_neg h]
    exact hn h

/-- A counted loop keeps an invariant that each round passes on to the next. -/
theorem Triple.rounds (J : ℕ → σ → Prop) {body : ℕ → ObservedProgram σ ω ε Unit} {n : ℕ} :
    ∀ (k i : ℕ), i + k = n → (∀ j, j < n → Triple I (J j) (body j) (fun _ => J (j + 1)) E) →
      Triple I (J i) (ObservedProgram.rounds body k i) (fun _ => J n) E := by
  intro k
  induction k with
  | zero =>
    intro i hi _
    obtain rfl : i = n := hi
    exact Triple.pure fun _ h => h
  | succ k ih =>
    intro i hi hbody
    have hlt : i < n := by omega
    exact (hbody i hlt).bind fun _ => ih (i + 1) (by omega) hbody

theorem Spec.weaken {m : ObservedProgram σ ω ε α} (h : Spec I P m Q) (hP : ∀ s, P' s → P s)
    (hQ : ∀ a s, Q a s → Q' a s) : Spec I P' m Q' := Triple.weaken h hP hQ fun _ _ he => he

theorem Spec.bind {m : ObservedProgram σ ω ε α} {f : α → ObservedProgram σ ω ε β} (h : Spec I P m Q)
    (hf : ∀ a, Spec I (Q a) (f a) R) : Spec I P (m >>= f) R := Triple.bind h hf

theorem Spec.pure {a : α} (h : ∀ s, P s → Q a s) : Spec (ω := ω) (ε := ε) I P (Pure.pure a) Q := Triple.pure h

theorem Spec.throw {e : ε} (h : ∀ s, P s → I s) : Spec (ω := ω) I P (ObservedProgram.throw e) Q := Triple.throw h

theorem Spec.get : Spec (ω := ω) (ε := ε) I P ObservedProgram.get fun a s => P s ∧ s = a := Triple.get

theorem Spec.modify {f : σ → σ} {Q : Unit → σ → Prop} (h : ∀ s, P s → Q () (f s)) :
    Spec (ω := ω) (ε := ε) I P (ObservedProgram.modify f) Q := Triple.modify h

theorem Spec.observe (h : ∀ s, P s → I s) : Spec (ε := ε) I P (ObservedProgram.observe : ObservedProgram σ ω ε ω) fun _ => P :=
  Triple.observe h

theorem Spec.ite {c : Prop} [Decidable c] {m n : ObservedProgram σ ω ε α} (hm : c → Spec I P m Q) (hn : ¬ c → Spec I P n Q) :
    Spec I P (if c then m else n) Q := Triple.ite hm hn

/-- A loop keeps what each round keeps. -/
theorem Spec.loop {body : ObservedProgram σ ω ε Bool} (hwait : ∀ s, P s → I s) (hbody : Spec I P body fun _ => P)
    (n : ℕ) : Spec I P (ObservedProgram.loop body n) fun _ => P := by
  induction n with
  | zero => exact Triple.halt hwait
  | succ n ih => exact hbody.bind fun again => Spec.ite (fun _ => ih) fun _ => Spec.pure fun _ h => h

theorem Spec.poll {again : σ → Bool} {body : ω → σ → σ × Option ε} {Q : Unit → σ → Prop} (hwait : ∀ s, P s → I s)
    (hbody : ∀ w s, P s → again s = true → ((body w s).2 = none → P (body w s).1) ∧ ((body w s).2 ≠ none → I (body w s).1))
    (hexit : ∀ s, P s → again s = false → Q () s) : Spec I P (ObservedProgram.poll again body) Q := by
  intro s ws
  induction ws generalizing s with
  | nil =>
    intro hs
    rw [ObservedProgram.poll]
    cases hagain : again s with
    | true => exact hwait s hs
    | false => exact hexit s hs hagain
  | cons w ws ih =>
    intro hs
    rw [ObservedProgram.poll]
    cases hagain : again s with
    | false => exact hexit s hs hagain
    | true =>
      obtain ⟨hnone, hsome⟩ := hbody w s hs hagain
      cases hround : body w s with
      | mk s' e =>
        rw [hround] at hnone hsome
        cases e with
        | none => exact ih s' (hnone rfl)
        | some e => exact hsome (by simp)

theorem Spec.onError {m : ObservedProgram σ ω ε α} {cleanup : σ → σ} (h : Spec I P m Q) (hcleanup : ∀ s, I s → I (cleanup s)) :
    Spec I P (m.onError cleanup) Q := by
  intro s ws hs
  have hm := h s ws hs
  rw [ObservedProgram.onError]
  cases hout : m s ws with
  | returned a s' rest =>
    rw [hout] at hm
    exact hm
  | threw e s' rest =>
    rw [hout] at hm
    exact hcleanup s' hm
  | waiting s' =>
    rw [hout] at hm
    exact hm

end Rules

end ObservedProgram
