import Snapshot.Interleaving

/-! Sections of a process that only the owner of a key may run. The owner is computed from the world
whenever a process checks it, and no lock is taken: the answer of the check lets the process into
its section. Sections of one key exclude each other in the runs that leave the ownership of a key
with the process inside. -/
namespace Interleaving

variable {I : Interface} {W T K α β : Type}

structure Guard (I : Interface) (T K : Type) where
  /-- The key whose section a call belongs to. -/
  inside : I.Call → Option K
  /-- The key that the answer to a check lets a process in for. -/
  grant : T → (c : I.Call) → I.Answer c → Option K

namespace Guard

variable (G : Guard I T K)

/-- What a process may enter after a call: a call of a section keeps it there. -/
def after (t : T) (held : Option K) (c : I.Call) (a : I.Answer c) : Option K :=
  match G.inside c with
  | some _ => held
  | none => G.grant t c a

/-- The section that a process is in. -/
def section? (p : Pool I W T) (t : T) : Option K := (p.next t).bind G.inside

end Guard

namespace Process

/-- Every call of a section follows its check, with nothing in between but calls of the section. -/
def Guarded (G : Guard I T K) (t : T) (Q : α → Option K → Prop) : Process I α → Option K → Prop
  | done a, held => Q a held
  | call c k, held => (∀ key, G.inside c = some key → held = some key) ∧
      ∀ a, (k a).Guarded G t Q (G.after t held c a)

section Rules

variable {G : Guard I T K} {t : T} {held : Option K}

theorem guarded_pure {Q : α → Option K → Prop} {a : α} (h : Q a held) :
    (pure a : Process I α).Guarded G t Q held := h

theorem guarded_bind {Q : β → Option K → Prop} {p : Process I α} {f : α → Process I β} :
    (p >>= f).Guarded G t Q held ↔ p.Guarded G t (fun a h => (f a).Guarded G t Q h) held := by
  induction p generalizing held with
  | done a => rfl
  | call c k ih =>
    constructor
    · exact fun h => ⟨h.1, fun a => (ih a).1 (h.2 a)⟩
    · exact fun h => ⟨h.1, fun a => (ih a).2 (h.2 a)⟩

theorem Guarded.mono {Q R : α → Option K → Prop} {p : Process I α} (h : p.Guarded G t Q held)
    (hQ : ∀ a held, Q a held → R a held) : p.Guarded G t R held := by
  induction p generalizing held with
  | done a => exact hQ a held h
  | call c k ih => exact ⟨h.1, fun a => ih a (h.2 a)⟩

/-- A call outside of any section. -/
theorem guarded_outside {c : I.Call} (hc : G.inside c = none) {Q : I.Answer c → Option K → Prop}
    (h : ∀ a, Q a (G.grant t c a)) : (request c).Guarded G t Q held := by
  refine ⟨fun key hkey => ?_, fun a => ?_⟩
  · rw [hc] at hkey
    cases hkey
  · simp only [Guard.after, hc]
    exact h a

/-- A call of the section that the process has been let in for. -/
theorem guarded_inside {c : I.Call} {key : K} (hc : G.inside c = some key)
    {Q : I.Answer c → Option K → Prop} (h : ∀ a, Q a (some key)) :
    (request c).Guarded G t Q (some key) := by
  refine ⟨fun k hk => hc.symm.trans hk, fun a => ?_⟩
  simp only [Guard.after, hc]
  exact h a

end Rules

end Process

namespace Guard

variable {G : Guard I T K} {S : System I W T} {owner : W → K → T}

variable (G owner) in
/-- Every process keeps to its guard, and the one inside a section owns the key. -/
structure Holds (p : Pool I W T) : Prop where
  guarded : ∀ t q, p.running t = some q → ∃ held, q.Guarded G t (fun _ _ => True) held
  owns : ∀ t k, G.section? p t = some k → owner p.world k = t

theorem section?_eq_some {p : Pool I W T} {t : T} {k : K} : G.section? p t = some k ↔
    ∃ c f, p.running t = some (.call c f) ∧ G.inside c = some k := by
  simp only [section?, Option.bind_eq_some_iff, Pool.next_eq_some]
  constructor
  · rintro ⟨c, ⟨f, hf⟩, hc⟩
    exact ⟨c, f, hf, hc⟩
  · rintro ⟨c, f, hf, hc⟩
    exact ⟨c, ⟨f, hf⟩, hc⟩

theorem holds_idle (w : W) : G.Holds owner (Pool.idle w) :=
  ⟨nofun, fun t k h => by obtain ⟨c, f, hf, _⟩ := section?_eq_some.1 h; cases hf⟩

/-- Sections of one key exclude each other. -/
theorem Holds.exclusive {p : Pool I W T} (h : G.Holds owner p) {t u : T} {k : K}
    (ht : G.section? p t = some k) (hu : G.section? p u = some k) : t = u :=
  (h.owns t k ht).symm.trans (h.owns u k hu)

variable [DecidableEq T]

/-- The other processes, when one of them moves. -/
theorem Holds.set {p : Pool I W T} (h : G.Holds owner p) {t : T} {w : W} {r : Option (Process I Unit)}
    (hkeep : ∀ u k, G.section? p u = some k → owner w k = u)
    (hr : ∀ q, r = some q → ∃ held, q.Guarded G t (fun _ _ => True) held ∧
      ∀ k, held = some k → (∃ c f, q = .call c f ∧ G.inside c = some k) → owner w k = t) :
    G.Holds owner (p.set t w r) := by
  constructor
  · intro u q hq
    by_cases hu : u = t
    · subst hu
      obtain ⟨held, hguarded, _⟩ := hr q (by simpa [Pool.set] using hq)
      exact ⟨held, hguarded⟩
    · exact h.guarded u q (by simpa [Pool.set, Function.update_of_ne hu] using hq)
  · intro u k hk
    obtain ⟨c, f, hf, hc⟩ := section?_eq_some.1 hk
    by_cases hu : u = t
    · subst hu
      obtain ⟨held, hguarded, howns⟩ := hr (.call c f) (by simpa [Pool.set] using hf)
      exact howns k (hguarded.1 k hc) ⟨c, f, rfl, hc⟩
    · refine hkeep u k (section?_eq_some.2 ⟨c, f, ?_, hc⟩)
      simpa [Pool.set, Function.update_of_ne hu] using hf

/-- A step keeps the guard if it takes the ownership from no process inside its section, and if a
check lets in only the owner. -/
theorem holds_step (hbody : ∀ t, (S.body t).Guarded G t (fun _ _ => True) none)
    (hgrant : ∀ {t w c x a w' k}, S.perform t w c x = some (a, w') → G.grant t c a = some k →
      owner w' k = t)
    {p q : Pool I W T} {e : S.Event} (h : G.Holds owner p) (hstep : S.step p e = some q)
    (hkeep : ∀ t k, G.section? p t = some k → owner q.world k = t) : G.Holds owner q := by
  cases e with
  | disturb d =>
    simp only [System.step, Option.map_eq_some_iff] at hstep
    obtain ⟨w, _, rfl⟩ := hstep
    exact ⟨h.guarded, hkeep⟩
  | start t =>
    simp only [System.step] at hstep
    split at hstep
    · cases hstep
      refine h.set hkeep fun r hr => ⟨none, ?_, by simp⟩
      cases hr
      exact hbody t
    · cases hstep
  | call t choice =>
    simp only [System.step] at hstep
    split at hstep
    · rename_i c f hrun
      obtain ⟨⟨a, w⟩, hperform, rfl⟩ := Option.map_eq_some_iff.1 hstep
      obtain ⟨held, hinside, hrest⟩ := h.guarded t _ hrun
      refine h.set hkeep fun r hr => ⟨G.after t held c a, ?_, fun k hk _ => ?_⟩
      · cases hr
        exact hrest a
      · simp only [after] at hk
        split at hk
        · rename_i key hkey
          -- a call of the section: the process was inside before
          have heq := hinside key hkey
          rw [hk] at heq
          cases heq
          exact hkeep t k (section?_eq_some.2 ⟨c, f, hrun, hkey⟩)
        · exact hgrant hperform hk
    · cases hstep
  | finish t =>
    simp only [System.step] at hstep
    split at hstep
    · cases hstep
      exact h.set hkeep (by simp)
    · cases hstep
  | crash t =>
    cases hstep
    exact h.set hkeep (by simp)

end Guard

end Interleaving
