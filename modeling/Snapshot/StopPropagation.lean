import Mathlib.Data.List.Basic
import Mathlib.Logic.Function.Basic
import Mathlib.Logic.Relation

/-! Flags that are raised once, and forwarded along registered edges while they are raised. An edge leads to
a larger number, so the calls that forward a flag nest only as deep as there are flags. -/
namespace StopPropagation

/-- Raise a flag that is not up yet and forward it along its edges, one after the other. -/
def raise (edges : List (ℕ × ℕ)) : ℕ → ℕ → (ℕ → Bool) → ℕ → Bool
  | 0, _, up => up
  | fuel + 1, s, up =>
    if up s then up
    else (edges.filter (·.1 = s)).foldl (fun up e => raise edges fuel e.2 up) (Function.update up s true)

/-- A chain of edges. -/
def Leads (edges : List (ℕ × ℕ)) : ℕ → ℕ → Prop := Relation.ReflTransGen fun x y => (x, y) ∈ edges

theorem Leads.mono {edges edges' : List (ℕ × ℕ)} {x y : ℕ} (h : Leads edges x y)
    (hsub : ∀ e ∈ edges, e ∈ edges') : Leads edges' x y :=
  Relation.ReflTransGen.mono (fun a b hab => hsub (a, b) hab) x y h

/-- What a call has raised: nothing is lowered, all that is new is reached from one of `sources`, and new
flags have been forwarded, as far as their edges are not in `pending`. -/
structure Raised (edges pending : List (ℕ × ℕ)) (sources : List ℕ) (up up' : ℕ → Bool) : Prop where
  kept : ∀ x, up x = true → up' x = true
  sound : ∀ x, up' x = true → up x = true ∨ ∃ s ∈ sources, Leads edges s x
  forwarded : ∀ x y, up' x = true → up x = false → (x, y) ∈ edges → (x, y) ∈ pending ∨ up' y = true

variable {edges pending : List (ℕ × ℕ)} {sources : List ℕ} {up up₁ up₂ : ℕ → Bool} {bound s : ℕ}

theorem Raised.trans {sources' : List ℕ} (h : Raised edges pending sources up up₁)
    (h' : Raised edges [] sources' up₁ up₂) : Raised edges pending (sources ++ sources') up up₂ where
  kept x hx := h'.kept x (h.kept x hx)
  sound x hx := by
    rcases h'.sound x hx with hx | ⟨s, hs, hlead⟩
    · rcases h.sound x hx with hx | ⟨s, hs, hlead⟩
      · exact .inl hx
      · exact .inr ⟨s, List.mem_append_left _ hs, hlead⟩
    · exact .inr ⟨s, List.mem_append_right _ hs, hlead⟩
  forwarded x y hx hnot hedge := by
    cases hmid : up₁ x with
    | true =>
      rcases h.forwarded x y hmid hnot hedge with hp | hy
      · exact .inl hp
      · exact .inr (h'.kept y hy)
    | false =>
      rcases h'.forwarded x y hx hmid hedge with hp | hy
      · cases hp
      · exact .inr hy

/-- A call with enough fuel raises its flag and forwards all that it raises. -/
theorem raise_spec (hincreasing : ∀ e ∈ edges, e.1 < e.2 ∧ e.2 < bound) (fuel : ℕ) (s : ℕ) (up : ℕ → Bool)
    (hs : s < bound) (hfuel : bound ≤ fuel + s) :
    raise edges fuel s up s = true ∧ Raised edges [] [s] up (raise edges fuel s up) := by
  induction fuel generalizing s up with
  | zero => omega
  | succ fuel ih =>
    rw [raise]
    split_ifs with hup
    · exact ⟨hup, fun _ h => h, fun _ h => .inl h, fun x y hx hnot => by simp [hx] at hnot⟩
    · -- the edges out of `s` are pending until their turn comes
      have hfold : ∀ (todo : List (ℕ × ℕ)) (up₁ : ℕ → Bool), (∀ e ∈ todo, e ∈ edges ∧ e.1 = s) →
          up₁ s = true → Raised edges todo [s] up up₁ →
          todo.foldl (fun up e => raise edges fuel e.2 up) up₁ s = true ∧
            Raised edges [] [s] up (todo.foldl (fun up e => raise edges fuel e.2 up) up₁) := by
        intro todo
        induction todo with
        | nil => exact fun up₁ _ hup₁ h => ⟨hup₁, h⟩
        | cons e todo ihtodo =>
          intro up₁ htodo hup₁ h
          obtain ⟨hedge, rfl⟩ := htodo e List.mem_cons_self
          obtain ⟨hlt, hbound⟩ := hincreasing e hedge
          obtain ⟨hraised, hrest⟩ := ih e.2 up₁ hbound (by omega)
          refine ihtodo _ (fun d hd => htodo d (List.mem_cons_of_mem _ hd)) (hrest.kept _ hup₁) ?_
          have hboth := h.trans hrest
          refine ⟨hboth.kept, fun x hx => ?_, fun x y hx hnot hxy => ?_⟩
          · rcases hboth.sound x hx with hx | ⟨s', hs', hlead⟩
            · exact .inl hx
            · rw [List.mem_append, List.mem_singleton, List.mem_singleton] at hs'
              rcases hs' with rfl | rfl
              · exact .inr ⟨_, List.mem_singleton_self _, hlead⟩
              · exact .inr ⟨_, List.mem_singleton_self _, Relation.ReflTransGen.head hedge hlead⟩
          · rcases hboth.forwarded x y hx hnot hxy with hp | hy
            · rcases List.mem_cons.1 hp with rfl | hp
              · exact .inr hraised
              · exact .inl hp
            · exact .inr hy
      refine hfold _ _ (fun e he => by simpa using he) (Function.update_self _ _ _) ?_
      refine ⟨fun x hx => ?_, fun x hx => ?_, fun x y hx hnot hxy => ?_⟩
      · by_cases hxs : x = s
        · rw [hxs, Function.update_self]
        · rwa [Function.update_of_ne hxs]
      · by_cases hxs : x = s
        · exact .inr ⟨s, List.mem_singleton_self _, hxs ▸ .refl⟩
        · rw [Function.update_of_ne hxs] at hx
          exact .inl hx
      · by_cases hxs : x = s
        · subst hxs
          exact .inl (List.mem_filter.2 ⟨hxy, by simp⟩)
        · rw [Function.update_of_ne hxs, hnot] at hx
          cases hx

/-- Where raised flags have been forwarded before, a call raises exactly what its flag leads to. -/
theorem raise_iff (hincreasing : ∀ e ∈ edges, e.1 < e.2 ∧ e.2 < bound) {fuel : ℕ} (hs : s < bound)
    (hfuel : bound ≤ fuel + s) (hclosed : ∀ e ∈ edges, up e.1 = true → up e.2 = true) (x : ℕ) :
    raise edges fuel s up x = true ↔ up x = true ∨ Leads edges s x := by
  obtain ⟨hself, hraised⟩ := raise_spec hincreasing fuel s up hs hfuel
  constructor
  · intro hx
    rcases hraised.sound x hx with hx | ⟨s', hs', hlead⟩
    · exact .inl hx
    · rw [List.mem_singleton.1 hs'] at hlead
      exact .inr hlead
  · rintro (hx | hlead)
    · exact hraised.kept x hx
    · induction hlead with
      | refl => exact hself
      | @tail y z _ hedge ih =>
        cases hy : up y with
        | true => exact hraised.kept z (hclosed _ hedge hy)
        | false =>
          rcases hraised.forwarded y z ih hy hedge with hp | hz
          · cases hp
          · exact hz

/-- A flag without edges is raised alone. -/
theorem raise_leaf {fuel x : ℕ} (hleaf : ∀ e ∈ edges, e.1 ≠ s) :
    raise edges (fuel + 1) s up x = true ↔ up x = true ∨ x = s := by
  have hnone : edges.filter (·.1 = s) = [] := List.filter_eq_nil_iff.2 fun e he => by simpa using hleaf e he
  rw [raise, hnone, List.foldl_nil]
  split_ifs with hup
  · constructor
    · exact .inl
    · rintro (hx | rfl)
      · exact hx
      · exact hup
  · by_cases hxs : x = s
    · simp [hxs]
    · simp [hxs]

end StopPropagation
