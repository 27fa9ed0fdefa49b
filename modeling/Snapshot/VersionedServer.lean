import Mathlib.Data.List.Basic
import Mathlib.Logic.Function.Basic

/-! A server whose states are numbered by the writes that produced them, and caches that show an
earlier state. A cache lags behind by any number of writes and never goes backwards. The number
of a state is the version that the objects written with it carry. -/
namespace VersionedServer

structure Server (σ κ : Type) where
  past : List σ
  current : σ
  /-- The version that each cache shows. -/
  seen : κ → ℕ

variable {σ κ : Type}

namespace Server

def start (x : σ) : Server σ κ := ⟨[], x, fun _ => 0⟩

def version (s : Server σ κ) : ℕ := s.past.length

/-- The state of a version, while the server has reached it. -/
def state (s : Server σ κ) (v : ℕ) : Option σ := (s.past ++ [s.current])[v]?

def view (s : Server σ κ) (k : κ) : σ := (s.state (s.seen k)).getD s.current

def write (s : Server σ κ) (x : σ) : Server σ κ := ⟨s.past ++ [s.current], x, s.seen⟩

/-- A cache catches up to a version the server has reached. -/
def advance [DecidableEq κ] (s : Server σ κ) (k : κ) (v : ℕ) : Option (Server σ κ) :=
  if s.seen k ≤ v ∧ v ≤ s.version then some { s with seen := Function.update s.seen k v } else none

theorem state_version (s : Server σ κ) : s.state s.version = some s.current := by
  simp [state, version]

theorem state_eq_some_le {s : Server σ κ} {v : ℕ} {x : σ} (h : s.state v = some x) :
    v ≤ s.version := by
  have hlt : v < (s.past ++ [s.current]).length := (List.getElem?_eq_some_iff.1 h).1
  simp only [List.length_append, List.length_cons, List.length_nil] at hlt
  simp only [version]
  omega

@[simp] theorem version_write (s : Server σ κ) (x : σ) : (s.write x).version = s.version + 1 := by
  simp [version, write]

@[simp] theorem current_write (s : Server σ κ) (x : σ) : (s.write x).current = x := rfl

theorem state_write_of_le (s : Server σ κ) (x : σ) {v : ℕ} (h : v ≤ s.version) :
    (s.write x).state v = s.state v := by
  have hlt : v < (s.past ++ [s.current]).length := by
    simp only [version] at h
    simp only [List.length_append, List.length_cons, List.length_nil]
    omega
  simp only [state, write]
  exact List.getElem?_append_left hlt

theorem state_write_cases {s : Server σ κ} {x y : σ} {v : ℕ} (h : (s.write x).state v = some y) :
    s.state v = some y ∨ v = s.version + 1 ∧ y = x := by
  have hle := state_eq_some_le h
  rw [version_write] at hle
  by_cases hv : v ≤ s.version
  · exact .inl (state_write_of_le s x hv ▸ h)
  · have hv' : v = (s.write x).version := by rw [version_write]; omega
    rw [hv', state_version] at h
    exact .inr ⟨by rw [hv', version_write], (Option.some.inj h).symm⟩

theorem view_eq_state (s : Server σ κ) (k : κ) : ∃ v, s.state v = some (s.view k) := by
  simp only [view]
  cases h : s.state (s.seen k) with
  | none => exact ⟨s.version, s.state_version⟩
  | some x => exact ⟨s.seen k, h⟩

/-- A write does not reach a cache by itself. -/
theorem view_write {s : Server σ κ} {k : κ} (h : s.seen k ≤ s.version) (x : σ) :
    (s.write x).view k = s.view k := by
  have hstate : (s.write x).state (s.seen k) = s.state (s.seen k) := state_write_of_le s x h
  have hlt : s.seen k < (s.past ++ [s.current]).length := by
    simp only [version] at h
    simp only [List.length_append, List.length_cons, List.length_nil]
    omega
  have hy : s.state (s.seen k) = some (s.past ++ [s.current])[s.seen k] := List.getElem?_eq_getElem hlt
  have hseen : (s.write x).seen = s.seen := rfl
  rw [view, view, hseen, hstate, hy]
  rfl

/-- The same states, whatever the caches show. -/
theorem advance_eq_some [DecidableEq κ] {s t : Server σ κ} {k : κ} {v : ℕ}
    (h : s.advance k v = some t) : t.past = s.past ∧ t.current = s.current := by
  simp only [advance] at h
  split at h
  · cases h
    exact ⟨rfl, rfl⟩
  · cases h

theorem seen_le_advance [DecidableEq κ] {s t : Server σ κ} {k : κ} {v : ℕ}
    (h : s.advance k v = some t) (hseen : ∀ k, s.seen k ≤ s.version) (k' : κ) :
    t.seen k' ≤ t.version := by
  simp only [advance] at h
  split at h
  · rename_i hv
    cases h
    by_cases hk : k' = k
    · subst hk
      simpa [version] using hv.2
    · simpa [Function.update_of_ne hk, version] using hseen k'
  · cases h

/-- `t` has the states of `s` and possibly later ones. -/
def Extends (s t : Server σ κ) : Prop :=
  s.version ≤ t.version ∧ ∀ v, v ≤ s.version → t.state v = s.state v

theorem Extends.refl (s : Server σ κ) : s.Extends s := ⟨Nat.le_refl _, fun _ _ => rfl⟩

theorem Extends.trans {s t u : Server σ κ} (h : s.Extends t) (h' : t.Extends u) : s.Extends u :=
  ⟨Nat.le_trans h.1 h'.1, fun v hv => (h'.2 v (Nat.le_trans hv h.1)).trans (h.2 v hv)⟩

theorem extends_write (s : Server σ κ) (x : σ) : s.Extends (s.write x) :=
  ⟨by rw [version_write]; omega, fun _ hv => state_write_of_le s x hv⟩

theorem extends_advance [DecidableEq κ] {s t : Server σ κ} {k : κ} {v : ℕ}
    (h : s.advance k v = some t) : s.Extends t := by
  obtain ⟨hpast, hcurrent⟩ := advance_eq_some h
  refine ⟨by simp only [version, hpast, Nat.le_refl], fun u _ => ?_⟩
  simp only [state, hpast, hcurrent]

theorem Extends.state {s t : Server σ κ} (h : s.Extends t) {v : ℕ} {x : σ}
    (hx : s.state v = some x) : t.state v = some x :=
  (h.2 v (state_eq_some_le hx)).trans hx

/-- Later states are related to earlier ones. -/
def Evolves (R : σ → σ → Prop) (s : Server σ κ) : Prop :=
  ∀ v v' x y, v ≤ v' → s.state v = some x → s.state v' = some y → R x y

theorem Evolves.current {R : σ → σ → Prop} {s : Server σ κ} (h : s.Evolves R) {v : ℕ} {x : σ}
    (hx : s.state v = some x) : R x s.current :=
  h v s.version x s.current (state_eq_some_le hx) hx s.state_version

theorem Evolves.write {R : σ → σ → Prop} {s : Server σ κ} {x : σ} (h : s.Evolves R)
    (hrefl : R x x) (htrans : ∀ {a b c}, R a b → R b c → R a c) (hx : R s.current x) :
    (s.write x).Evolves R := by
  intro v v' a b hle ha hb
  rcases state_write_cases ha with ha' | ⟨rfl, rfl⟩
  · rcases state_write_cases hb with hb' | ⟨rfl, rfl⟩
    · exact h v v' a b hle ha' hb'
    · exact htrans (h.current ha') hx
  · rcases state_write_cases hb with hb' | ⟨rfl, rfl⟩
    · have := state_eq_some_le hb'
      omega
    · exact hrefl

theorem evolves_start {R : σ → σ → Prop} (x : σ) (h : R x x) : (start x : Server σ κ).Evolves R := by
  intro v v' a b _ ha hb
  have hv := state_eq_some_le ha
  have hv' := state_eq_some_le hb
  simp only [version, start, List.length_nil, Nat.le_zero] at hv hv'
  subst hv hv'
  cases ha
  cases hb
  exact h

/-- Every state has a property. -/
def Always (P : σ → Prop) (s : Server σ κ) : Prop := ∀ v x, s.state v = some x → P x

theorem Always.current {P : σ → Prop} {s : Server σ κ} (h : s.Always P) : P s.current :=
  h s.version s.current s.state_version

theorem Always.view {P : σ → Prop} {s : Server σ κ} (h : s.Always P) (k : κ) : P (s.view k) := by
  obtain ⟨v, hv⟩ := s.view_eq_state k
  exact h v _ hv

theorem Always.write {P : σ → Prop} {s : Server σ κ} {x : σ} (h : s.Always P) (hx : P x) :
    (s.write x).Always P := by
  intro v y hy
  rcases state_write_cases hy with hy | ⟨_, rfl⟩
  · exact h v y hy
  · exact hx

theorem Always.of_states {P : σ → Prop} {s t : Server σ κ} (h : s.Always P)
    (hpast : t.past = s.past) (hcurrent : t.current = s.current) : t.Always P := by
  intro v x hx
  simp only [state, hpast, hcurrent] at hx
  exact h v x hx

theorem always_start {P : σ → Prop} {x : σ} (h : P x) : (start x : Server σ κ).Always P := by
  intro v y hy
  have hv := state_eq_some_le hy
  simp only [version, start, List.length_nil, Nat.le_zero] at hv
  subst hv
  cases hy
  exact h

/-- An object carries the version of the write that produced it. -/
def Stamped {O : Type} (get : σ → Option O) (stamp : O → ℕ) (s : Server σ κ) : Prop :=
  ∀ v x o, s.state v = some x → get x = some o →
    stamp o ≤ v ∧ ∃ y, s.state (stamp o) = some y ∧ get y = some o

section Stamped

variable {O : Type} {get : σ → Option O} {stamp : O → ℕ}

/-- Two observations of one version are observations of one object. -/
theorem Stamped.eq_of_stamp {s : Server σ κ} (h : s.Stamped get stamp) {v v' : ℕ} {x y : σ}
    {o o' : O} (hx : s.state v = some x) (ho : get x = some o) (hy : s.state v' = some y)
    (ho' : get y = some o') (heq : stamp o = stamp o') : o = o' := by
  obtain ⟨_, a, ha, hao⟩ := h v x o hx ho
  obtain ⟨_, b, hb, hbo⟩ := h v' y o' hy ho'
  rw [heq, hb] at ha
  cases ha
  exact Option.some.inj (hao.symm.trans hbo)

theorem Stamped.write {s : Server σ κ} {x : σ} (h : s.Stamped get stamp)
    (hx : ∀ o, get x = some o → get s.current = some o ∨ stamp o = s.version + 1) :
    (s.write x).Stamped get stamp := by
  intro v y o hy ho
  have earlier : ∀ u z, s.state u = some z → get z = some o →
      stamp o ≤ u ∧ ∃ y, (s.write x).state (stamp o) = some y ∧ get y = some o := by
    intro u z hz hzo
    obtain ⟨hle, a, ha, hao⟩ := h u z o hz hzo
    exact ⟨hle, a, (s.extends_write x).state ha, hao⟩
  rcases state_write_cases hy with hy | ⟨rfl, rfl⟩
  · exact earlier v y hy ho
  · rcases hx o ho with hcurrent | hstamp
    · obtain ⟨hle, hrest⟩ := earlier s.version s.current s.state_version hcurrent
      exact ⟨by omega, hrest⟩
    · exact ⟨Nat.le_of_eq hstamp, y, by rw [hstamp]; exact hy, ho⟩

theorem stamped_start (x : σ) (h : ∀ o, get x = some o → stamp o = 0) :
    (start x : Server σ κ).Stamped get stamp := by
  intro v y o hy ho
  have hv := state_eq_some_le hy
  simp only [version, start, List.length_nil, Nat.le_zero] at hv
  subst hv
  cases hy
  rw [h o ho]
  exact ⟨Nat.le_refl _, _, rfl, ho⟩

end Stamped

end Server

end VersionedServer
