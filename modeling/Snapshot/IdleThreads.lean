import Snapshot.Interleaving

/-! Processes that own things while they run and nothing while they do not. The rule of reliance and
guarantee, for runs in which no process vanishes: a process starts with nothing, what it owns is left
alone by the others, and it gives everything up before it ends. -/
namespace Interleaving

variable {I : Interface} {W T : Type}

structure Roster (S : System I W T) where
  Inv : W → Prop
  /-- The process owns nothing. -/
  idle : T → W → Prop
  rely : T → W → W → Prop
  guarantee : T → W → (c : I.Call) → I.Answer c → W → Prop
  rely_refl : ∀ t w, rely t w w
  rely_trans : ∀ {t w₁ w₂ w₃}, rely t w₁ w₂ → rely t w₂ w₃ → rely t w₁ w₃
  idle_rely : ∀ {t w w'}, idle t w → rely t w w' → idle t w'
  disturb : ∀ {w d w'}, Inv w → S.disturb w d = some w' → Inv w' ∧ ∀ t, rely t w w'
  keeps : ∀ {t w c a w'}, Inv w → guarantee t w c a w' → Inv w'
  others : ∀ {t u w c a w'}, Inv w → guarantee t w c a w' → u ≠ t → rely u w w'
  body : ∀ {t w}, Inv w → idle t w →
    (S.body t).Sound S t Inv (rely t) (guarantee t) (fun _ w => idle t w) w

namespace System

/-- No process vanishes in the step. -/
def Event.lasting {S : System I W T} : S.Event → Bool
  | .crash _ => false
  | _ => true

end System

namespace Roster

variable {S : System I W T} (R : Roster S)

structure Holds (p : Pool I W T) : Prop where
  inv : R.Inv p.world
  idle : ∀ t, p.running t = none → R.idle t p.world
  sound : ∀ t q, p.running t = some q →
    q.Sound S t R.Inv (R.rely t) (R.guarantee t) (fun _ w => R.idle t w) p.world

theorem holds_idle {w : W} (h : R.Inv w) (hidle : ∀ t, R.idle t w) : R.Holds (Pool.idle w) :=
  ⟨h, fun t _ => hidle t, fun _ _ hq => nomatch hq⟩

/-- A call that a running process makes keeps the guarantee. -/
theorem guarantee_call {p : Pool I W T} (h : R.Holds p) {t : T} {c : I.Call} {k : I.Answer c → Process I Unit}
    (hrun : p.running t = some (.call c k)) {choice : S.Choice} {a : I.Answer c} {w : W}
    (hstep : S.perform t p.world c choice = some (a, w)) :
    R.guarantee t p.world c a w ∧
      (k a).Sound S t R.Inv (R.rely t) (R.guarantee t) (fun _ w => R.idle t w) w :=
  h.sound t _ hrun p.world h.inv (R.rely_refl t _) choice a w hstep

variable [DecidableEq T]

/-- One process moves on, and the others rely on what it does. -/
theorem Holds.set {p : Pool I W T} (h : R.Holds p) {t : T} {w : W} {r : Option (Process I Unit)}
    (hinv : R.Inv w) (hothers : ∀ u, u ≠ t → R.rely u p.world w) (hidle : r = none → R.idle t w)
    (hr : ∀ q, r = some q → q.Sound S t R.Inv (R.rely t) (R.guarantee t) (fun _ w => R.idle t w) w) :
    R.Holds (p.set t w r) := by
  refine ⟨hinv, fun u hu => ?_, fun u q hq => ?_⟩
  · by_cases hut : u = t
    · subst hut
      exact hidle (by simpa [Pool.set] using hu)
    · have hu' : p.running u = none := by simpa [Pool.set, Function.update_of_ne hut] using hu
      exact R.idle_rely (h.idle u hu') (hothers u hut)
  · by_cases hut : u = t
    · subst hut
      exact hr q (by simpa [Pool.set] using hq)
    · have hq' : p.running u = some q := by simpa [Pool.set, Function.update_of_ne hut] using hq
      exact (h.sound u q hq').stable R.rely_trans (fun _ _ _ => R.idle_rely) (hothers u hut)

theorem holds_step {p q : Pool I W T} {e : S.Event} (h : R.Holds p) (hlasting : e.lasting = true)
    (hstep : S.step p e = some q) : R.Holds q := by
  cases e with
  | disturb d =>
    simp only [System.step, Option.map_eq_some_iff] at hstep
    obtain ⟨w, hw, rfl⟩ := hstep
    obtain ⟨hinv, hrely⟩ := R.disturb h.inv hw
    exact ⟨hinv, fun t ht => R.idle_rely (h.idle t ht) (hrely t), fun t r hr =>
      (h.sound t r hr).stable R.rely_trans (fun _ _ _ => R.idle_rely) (hrely t)⟩
  | start t =>
    simp only [System.step] at hstep
    cases hrun : p.running t with
    | some r => simp [hrun] at hstep
    | none =>
      simp only [hrun, Option.some.injEq] at hstep
      subst hstep
      refine h.set R h.inv (fun u _ => R.rely_refl u _) (by simp) ?_
      intro r hr
      cases hr
      exact R.body h.inv (h.idle t hrun)
  | call t choice =>
    simp only [System.step] at hstep
    cases hrun : p.running t with
    | none => simp [hrun] at hstep
    | some r =>
      cases r with
      | done a => simp [hrun] at hstep
      | call c k =>
        simp only [hrun, Option.map_eq_some_iff] at hstep
        obtain ⟨⟨a, w⟩, hw, rfl⟩ := hstep
        obtain ⟨hg, hk⟩ := R.guarantee_call h hrun hw
        refine h.set R (R.keeps h.inv hg) (fun u hu => R.others h.inv hg hu) (by simp) ?_
        intro r hr
        cases hr
        exact hk
  | finish t =>
    simp only [System.step] at hstep
    split at hstep
    · rename_i hrun
      cases hstep
      exact h.set R h.inv (fun u _ => R.rely_refl u _) (fun _ => h.sound t _ hrun) (by simp)
    · cases hstep
  | crash t => cases hlasting

/-- It holds in every run in which no process vanishes. -/
theorem holds_run {ok : Pool I W T → S.Event → Bool} (hok : ∀ p e, ok p e = true → e.lasting = true)
    {p q : Pool I W T} {es : List S.Event} (h : R.Holds p) (hrun : S.runWhere ok p es = some q) : R.Holds q :=
  System.runWhere_invariant (fun {p e _} hp he hstep => R.holds_step hp (hok p e he) hstep) h hrun

end Roster

end Interleaving
