import Mathlib.Logic.Function.Basic

/-! Processes that act on one shared world through atomic calls, and systems in which such
processes interleave with each other and with disturbances of the world. What a call leaves open
is a choice that the run makes, so that a run is a list of events and can be replayed.

The rule is one of reliance and guarantee: each process is examined alone, between any two of its
calls the world changes as it relies on, and each of its calls changes the world as it
guarantees. -/
namespace Interleaving

/-- The calls a process can make and the type in which each of them is answered. -/
structure Interface where
  Call : Type
  Answer : Call → Type

inductive Process (I : Interface) (α : Type) where
  | done (a : α)
  | call (c : I.Call) (k : I.Answer c → Process I α)

variable {I : Interface} {α β W T : Type}

namespace Process

def bind : Process I α → (α → Process I β) → Process I β
  | done a, f => f a
  | call c k, f => call c fun x => (k x).bind f

theorem bind_done (p : Process I α) : p.bind done = p := by
  induction p with
  | done a => rfl
  | call c k ih => exact congrArg (call c) (funext ih)

theorem bind_assoc {γ : Type} (p : Process I α) (f : α → Process I β) (g : β → Process I γ) :
    (p.bind f).bind g = p.bind fun a => (f a).bind g := by
  induction p with
  | done a => rfl
  | call c k ih => exact congrArg (call c) (funext ih)

instance : Monad (Process I) where
  pure := done
  bind := bind

instance : LawfulMonad (Process I) :=
  LawfulMonad.mk' _ bind_done (fun _ _ => rfl) bind_assoc

/-- Make one call and return its answer. -/
def request (c : I.Call) : Process I (I.Answer c) := call c done

end Process

/-- A system starts one process for each task. A call may be blocked, and is answered otherwise
according to a choice; a disturbance is a step of the world that no process makes. -/
structure System (I : Interface) (W T : Type) where
  Choice : Type
  Disturbance : Type
  perform : T → W → (c : I.Call) → Choice → Option (I.Answer c × W)
  disturb : W → Disturbance → Option W
  body : T → Process I Unit

structure Pool (I : Interface) (W T : Type) where
  world : W
  running : T → Option (Process I Unit)

/-- A pool in which no process has been started. -/
def Pool.idle (w : W) : Pool I W T := ⟨w, fun _ => none⟩

/-- The call that a process is about to make. -/
def Pool.next (p : Pool I W T) (t : T) : Option I.Call :=
  match p.running t with
  | some (.call c _) => some c
  | _ => none

theorem Pool.next_eq_some {p : Pool I W T} {t : T} {c : I.Call} :
    p.next t = some c ↔ ∃ k, p.running t = some (.call c k) := by
  simp only [next]
  constructor
  · intro h
    split at h
    · rename_i k hk
      cases h
      exact ⟨k, hk⟩
    · cases h
  · rintro ⟨k, hk⟩
    simp [hk]

def Pool.set [DecidableEq T] (p : Pool I W T) (t : T) (w : W) (r : Option (Process I Unit)) :
    Pool I W T :=
  ⟨w, Function.update p.running t r⟩

namespace System

inductive Event (S : System I W T) where
  | disturb (d : S.Disturbance)
  | start (t : T)
  | call (t : T) (choice : S.Choice)
  | finish (t : T)
  | crash (t : T)

variable [DecidableEq T]

def step (S : System I W T) (p : Pool I W T) : S.Event → Option (Pool I W T)
  | .disturb d => (S.disturb p.world d).map fun w => { p with world := w }
  | .start t =>
    -- a task is never run twice at the same time
    match p.running t with
    | none => some (p.set t p.world (some (S.body t)))
    | some _ => none
  | .call t choice =>
    match p.running t with
    | some (.call c k) =>
      (S.perform t p.world c choice).map fun (a, w) => p.set t w (some (k a))
    | _ => none
  | .finish t =>
    match p.running t with
    | some (.done _) => some (p.set t p.world none)
    | _ => none
  | .crash t => some (p.set t p.world none)

/-- A step leaves the world alone, disturbs it, or is a call that some process makes. -/
theorem step_world {S : System I W T} {p q : Pool I W T} {e : S.Event} (h : S.step p e = some q) :
    q.world = p.world ∨ (∃ d, e = .disturb d ∧ S.disturb p.world d = some q.world) ∨
      ∃ t c k choice a, p.running t = some (.call c k) ∧
        S.perform t p.world c choice = some (a, q.world) := by
  cases e with
  | disturb d =>
    simp only [step, Option.map_eq_some_iff] at h
    obtain ⟨w, hw, rfl⟩ := h
    exact .inr (.inl ⟨d, rfl, hw⟩)
  | start t =>
    simp only [step] at h
    split at h <;> cases h
    exact .inl rfl
  | call t choice =>
    simp only [step] at h
    split at h
    · rename_i c k hrun
      obtain ⟨⟨a, w⟩, hw, rfl⟩ := Option.map_eq_some_iff.1 h
      exact .inr (.inr ⟨t, c, k, choice, a, hrun, hw⟩)
    · cases h
  | finish t =>
    simp only [step] at h
    split at h <;> cases h
    exact .inl rfl
  | crash t =>
    cases h
    exact .inl rfl

def run (S : System I W T) : Pool I W T → List S.Event → Option (Pool I W T)
  | p, [] => some p
  | p, e :: es => (S.step p e).bind fun q => S.run q es

/-- A run whose steps all meet a condition. -/
def runWhere (S : System I W T) (ok : Pool I W T → S.Event → Bool) :
    Pool I W T → List S.Event → Option (Pool I W T)
  | p, [] => some p
  | p, e :: es => if ok p e then (S.step p e).bind fun q => S.runWhere ok q es else none

theorem runWhere_invariant {S : System I W T} {ok : Pool I W T → S.Event → Bool}
    {P : Pool I W T → Prop}
    (hstep : ∀ {p e q}, P p → ok p e = true → S.step p e = some q → P q) {p q : Pool I W T}
    {es : List S.Event} (h : P p) (hrun : S.runWhere ok p es = some q) : P q := by
  induction es generalizing p with
  | nil =>
    cases hrun
    exact h
  | cons e es ih =>
    simp only [runWhere] at hrun
    split at hrun
    · rename_i hok
      obtain ⟨r, hr, hrun⟩ := Option.bind_eq_some_iff.1 hrun
      exact ih (hstep h hok hr) hrun
    · cases hrun

/-- The same system, kept to the calls and disturbances that meet a condition. -/
def restrict (S : System I W T) (call : T → W → I.Call → S.Choice → Bool)
    (disturb : W → S.Disturbance → Bool) : System I W T where
  Choice := S.Choice
  Disturbance := S.Disturbance
  perform t w c choice := if call t w c choice then S.perform t w c choice else none
  disturb w d := if disturb w d then S.disturb w d else none
  body := S.body

section Restrict

variable {S : System I W T} {call : T → W → I.Call → S.Choice → Bool}
  {disturb : W → S.Disturbance → Bool}

omit [DecidableEq T] in
theorem restrict_perform {t : T} {w : W} {c : I.Call} {x : S.Choice} {r : I.Answer c × W} :
    (S.restrict call disturb).perform t w c x = some r ↔
      call t w c x = true ∧ S.perform t w c x = some r := by
  simp only [restrict]
  split
  · rename_i h
    simp [h]
  · rename_i h
    simp [h]

omit [DecidableEq T] in
theorem restrict_disturb {w w' : W} {d : S.Disturbance} :
    (S.restrict call disturb).disturb w d = some w' ↔
      disturb w d = true ∧ S.disturb w d = some w' := by
  simp only [restrict]
  split
  · rename_i h
    simp [h]
  · rename_i h
    simp [h]

end Restrict

end System

namespace Process

/-- Whatever happens to the world between the calls of the process, each of its calls keeps the
guarantee and it ends as `Q` requires. -/
def Sound (S : System I W T) (t : T) (Inv : W → Prop) (rely : W → W → Prop)
    (guarantee : W → (c : I.Call) → I.Answer c → W → Prop) (Q : α → W → Prop) :
    Process I α → W → Prop
  | done a, w => Q a w
  | call c k, w => ∀ w₁, Inv w₁ → rely w w₁ → ∀ choice a w₂, S.perform t w₁ c choice = some (a, w₂) →
      guarantee w₁ c a w₂ ∧ (k a).Sound S t Inv rely guarantee Q w₂

section Rules

variable {S : System I W T} {t : T} {Inv : W → Prop} {rely : W → W → Prop}
  {guarantee : W → (c : I.Call) → I.Answer c → W → Prop}

theorem sound_pure {Q : α → W → Prop} {a : α} {w : W} (h : Q a w) :
    (pure a : Process I α).Sound S t Inv rely guarantee Q w := h

theorem sound_request {c : I.Call} {Q : I.Answer c → W → Prop} {w : W}
    (h : ∀ w₁, Inv w₁ → rely w w₁ → ∀ choice a w₂, S.perform t w₁ c choice = some (a, w₂) →
      guarantee w₁ c a w₂ ∧ Q a w₂) : (request c).Sound S t Inv rely guarantee Q w := h

theorem sound_bind {Q : β → W → Prop} {p : Process I α} {f : α → Process I β} {w : W} :
    (p >>= f).Sound S t Inv rely guarantee Q w ↔
      p.Sound S t Inv rely guarantee (fun a w => (f a).Sound S t Inv rely guarantee Q w) w := by
  induction p generalizing w with
  | done a => rfl
  | call c k ih =>
    constructor
    · intro h w₁ hinv hrely choice a w₂ hstep
      obtain ⟨hg, hk⟩ := h w₁ hinv hrely choice a w₂ hstep
      exact ⟨hg, (ih a).1 hk⟩
    · intro h w₁ hinv hrely choice a w₂ hstep
      obtain ⟨hg, hk⟩ := h w₁ hinv hrely choice a w₂ hstep
      exact ⟨hg, (ih a).2 hk⟩

theorem Sound.mono {Q R : α → W → Prop} {p : Process I α} {w : W}
    (h : p.Sound S t Inv rely guarantee Q w) (hQ : ∀ a w, Q a w → R a w) :
    p.Sound S t Inv rely guarantee R w := by
  induction p generalizing w with
  | done a => exact hQ a w h
  | call c k ih =>
    intro w₁ hinv hrely choice a w₂ hstep
    obtain ⟨hg, hk⟩ := h w₁ hinv hrely choice a w₂ hstep
    exact ⟨hg, ih a hk⟩

/-- What others do does not disturb a process that relies on it. -/
theorem Sound.stable {Q : α → W → Prop} {p : Process I α} {w w' : W}
    (htrans : ∀ {w₁ w₂ w₃}, rely w₁ w₂ → rely w₂ w₃ → rely w₁ w₃)
    (hQ : ∀ a w w', Q a w → rely w w' → Q a w') (hrely : rely w w')
    (h : p.Sound S t Inv rely guarantee Q w) : p.Sound S t Inv rely guarantee Q w' := by
  cases p with
  | done a => exact hQ a w w' h hrely
  | call c k => exact fun w₁ hinv h₁ => h w₁ hinv (htrans hrely h₁)

/-- A process whose own calls are such as others rely on ends in a world that it relied on. -/
theorem Sound.reached {Q : α → W → Prop} {p : Process I α} {w : W} (hrefl : ∀ w, rely w w)
    (htrans : ∀ {w₁ w₂ w₃}, rely w₁ w₂ → rely w₂ w₃ → rely w₁ w₃)
    (hcall : ∀ {w c a w'}, guarantee w c a w' → rely w w')
    (h : p.Sound S t Inv rely guarantee Q w) :
    p.Sound S t Inv rely guarantee (fun a w' => rely w w' ∧ Q a w') w := by
  induction p generalizing w with
  | done a => exact ⟨hrefl w, h⟩
  | call c k ih =>
    intro w₁ hinv hrely choice a w₂ hstep
    obtain ⟨hg, hk⟩ := h w₁ hinv hrely choice a w₂ hstep
    refine ⟨hg, (ih a hk).mono fun b w₃ hb => ⟨?_, hb.2⟩⟩
    exact htrans hrely (htrans (hcall hg) hb.1)

end Rules

end Process

/-- What has to be shown of a system in order to reason about its processes one by one. -/
structure Discipline (S : System I W T) where
  Inv : W → Prop
  rely : T → W → W → Prop
  guarantee : T → W → (c : I.Call) → I.Answer c → W → Prop
  rely_refl : ∀ t w, rely t w w
  rely_trans : ∀ {t w₁ w₂ w₃}, rely t w₁ w₂ → rely t w₂ w₃ → rely t w₁ w₃
  disturb : ∀ {w d w'}, Inv w → S.disturb w d = some w' → Inv w' ∧ ∀ t, rely t w w'
  keeps : ∀ {t w c a w'}, Inv w → guarantee t w c a w' → Inv w'
  others : ∀ {t u w c a w'}, Inv w → guarantee t w c a w' → u ≠ t → rely u w w'
  body : ∀ {t w}, Inv w →
    (S.body t).Sound S t Inv (rely t) (guarantee t) (fun _ _ => True) w

namespace Discipline

variable {S : System I W T} (D : Discipline S)

/-- The invariant of the world, and the soundness of what each process still has to do. -/
structure Holds (p : Pool I W T) : Prop where
  inv : D.Inv p.world
  sound : ∀ t q, p.running t = some q →
    q.Sound S t D.Inv (D.rely t) (D.guarantee t) (fun _ _ => True) p.world

theorem holds_idle {w : W} (h : D.Inv w) : D.Holds (Pool.idle w) :=
  ⟨h, fun _ _ hq => nomatch hq⟩

theorem Holds.sound_rely {p : Pool I W T} (h : D.Holds p) {t : T} {q : Process I Unit} {w : W}
    (hq : p.running t = some q) (hrely : D.rely t p.world w) :
    q.Sound S t D.Inv (D.rely t) (D.guarantee t) (fun _ _ => True) w :=
  (h.sound t q hq).stable D.rely_trans (fun _ _ _ _ _ => trivial) hrely

/-- A call that a running process makes keeps the guarantee. -/
theorem guarantee_call {p : Pool I W T} (h : D.Holds p) {t : T} {c : I.Call}
    {k : I.Answer c → Process I Unit} (hrun : p.running t = some (.call c k))
    {choice : S.Choice} {a : I.Answer c} {w : W}
    (hstep : S.perform t p.world c choice = some (a, w)) :
    D.guarantee t p.world c a w ∧
      (k a).Sound S t D.Inv (D.rely t) (D.guarantee t) (fun _ _ => True) w :=
  h.sound t _ hrun p.world h.inv (D.rely_refl t _) choice a w hstep

variable [DecidableEq T]

theorem Holds.set {p : Pool I W T} (h : D.Holds p) {t : T} {w : W} {r : Option (Process I Unit)}
    (hinv : D.Inv w) (hothers : ∀ u, u ≠ t → D.rely u p.world w)
    (hr : ∀ q, r = some q → q.Sound S t D.Inv (D.rely t) (D.guarantee t) (fun _ _ => True) w) :
    D.Holds (p.set t w r) := by
  refine ⟨hinv, fun u q hq => ?_⟩
  by_cases hu : u = t
  · subst hu
    exact hr q (by simpa [Pool.set] using hq)
  · have hq' : p.running u = some q := by simpa [Pool.set, Function.update_of_ne hu] using hq
    exact h.sound_rely D hq' (hothers u hu)

theorem holds_step {p q : Pool I W T} {e : S.Event} (h : D.Holds p)
    (hstep : S.step p e = some q) : D.Holds q := by
  cases e with
  | disturb d =>
    simp only [System.step, Option.map_eq_some_iff] at hstep
    obtain ⟨w, hw, rfl⟩ := hstep
    obtain ⟨hinv, hrely⟩ := D.disturb h.inv hw
    exact ⟨hinv, fun t r hr => h.sound_rely D hr (hrely t)⟩
  | start t =>
    simp only [System.step] at hstep
    cases hrun : p.running t with
    | some r => simp [hrun] at hstep
    | none =>
      simp only [hrun, Option.some.injEq] at hstep
      subst hstep
      apply h.set D h.inv (fun u _ => D.rely_refl u _)
      intro r hr
      cases hr
      exact D.body h.inv
  | call t choice =>
    simp only [System.step] at hstep
    cases hrun : p.running t with
    | none => simp [hrun] at hstep
    | some r =>
      cases r with
      | done a => simp [hrun] at hstep
      | call c k =>
        simp only [hrun, Option.map_eq_some_iff] at hstep
        obtain ⟨⟨a, w⟩, hw, rfl⟩ := hstep
        obtain ⟨hg, hk⟩ := D.guarantee_call h hrun hw
        apply h.set D (D.keeps h.inv hg) (fun u hu => D.others h.inv hg hu)
        intro r hr
        cases hr
        exact hk
  | finish t =>
    simp only [System.step] at hstep
    split at hstep
    · cases hstep
      exact h.set D h.inv (fun u _ => D.rely_refl u _) (by simp)
    · cases hstep
  | crash t =>
    cases hstep
    exact h.set D h.inv (fun u _ => D.rely_refl u _) (by simp)

theorem holds_run {p q : Pool I W T} {es : List S.Event} (h : D.Holds p)
    (hrun : S.run p es = some q) : D.Holds q := by
  induction es generalizing p with
  | nil =>
    cases hrun
    exact h
  | cons e es ih =>
    simp only [System.run, Option.bind_eq_some_iff] at hrun
    obtain ⟨r, hr, hq⟩ := hrun
    exact ih (D.holds_step h hr) hq

end Discipline

end Interleaving
