import Mathlib.Data.List.Basic
import Mathlib.Data.List.Forall2
import Mathlib.Data.Finset.Lattice.Lemmas

/-! Loops whose steps check a condition and fail, or update an accumulator: when such a loop
succeeds, and what it then returns. -/
namespace CheckedFold

variable {ε ε' α β γ : Type}

theorem bind_eq_ok {x : Except ε α} {f : α → Except ε β} {b : β} :
    (x >>= f) = .ok b ↔ ∃ a, x = .ok a ∧ f a = .ok b := by
  cases x with
  | error e => simp [bind, Except.bind]
  | ok a => simp [bind, Except.bind]

theorem map_eq_ok {x : Except ε α} {f : α → β} {b : β} :
    x.map f = .ok b ↔ ∃ a, x = .ok a ∧ f a = b := by
  cases x <;> simp [Except.map]

theorem mapError_eq_ok {x : Except ε α} {f : ε → ε'} {a : α} : x.mapError f = .ok a ↔ x = .ok a := by
  cases x <;> simp [Except.mapError]

/-- A guard that is passed. -/
theorem guard_eq_ok {c : Prop} [Decidable c] {e : ε} {x : Except ε α} {a : α} :
    (if c then .error e else x) = .ok a ↔ ¬c ∧ x = .ok a := by
  by_cases h : c <;> simp [h]

theorem forM_eq_ok {f : α → Except ε Unit} {l : List α} {u : Unit} :
    l.forM f = .ok u ↔ ∀ a ∈ l, f a = .ok ⟨⟩ := by
  obtain ⟨⟩ := u
  induction l with
  | nil => simp [List.forM, pure, Except.pure]
  | cons a l ih =>
    rw [List.forM, bind_eq_ok, List.forall_mem_cons, ih]
    constructor
    · rintro ⟨⟨⟩, ha, hl⟩
      exact ⟨ha, hl⟩
    · rintro ⟨ha, hl⟩
      exact ⟨⟨⟩, ha, hl⟩

theorem mapM_eq_ok {f : α → Except ε β} {g : α → β} {l : List α} (h : ∀ a ∈ l, f a = .ok (g a)) :
    l.mapM f = .ok (l.map g) := by
  induction l with
  | nil => rfl
  | cons a l ih =>
    rw [List.mapM_cons, h a List.mem_cons_self, ih fun b hb => h b (List.mem_cons_of_mem _ hb)]
    rfl

/-- A loop that maps a list and succeeds has succeeded on every element, in order. -/
theorem forall₂_of_mapM_eq_ok {f : α → Except ε β} {l : List α} {l' : List β} (h : l.mapM f = .ok l') :
    List.Forall₂ (fun a b => f a = .ok b) l l' := by
  induction l generalizing l' with
  | nil =>
    cases h
    exact .nil
  | cons a l ih =>
    rw [List.mapM_cons, bind_eq_ok] at h
    obtain ⟨b, hb, h⟩ := h
    rw [bind_eq_ok] at h
    obtain ⟨l₀, hl₀, h⟩ := h
    cases h
    exact .cons hb (ih hl₀)

theorem exists_of_forall₂ {R : α → β → Prop} {l : List α} {l' : List β} (h : List.Forall₂ R l l') :
    ∀ b ∈ l', ∃ a ∈ l, R a b := by
  induction h with
  | nil => simp
  | cons hb _ ih =>
    intro c hc
    rcases List.mem_cons.1 hc with rfl | hc
    · exact ⟨_, List.mem_cons_self, hb⟩
    · obtain ⟨a, ha, hc⟩ := ih c hc
      exact ⟨a, List.mem_cons_of_mem _ ha, hc⟩

theorem exists_of_mapM_eq_ok {f : α → Except ε β} {l : List α} {l' : List β} (h : l.mapM f = .ok l') :
    ∀ b ∈ l', ∃ a ∈ l, f a = .ok b := exists_of_forall₂ (forall₂_of_mapM_eq_ok h)

/-! A loop that maps a list and may stop without an error is the same, over `Option`. -/

theorem mapM_map_eq_some {f : β → Option γ} {g : α → β} {k : α → γ} {l : List α}
    (h : ∀ a ∈ l, f (g a) = some (k a)) : (l.map g).mapM f = some (l.map k) := by
  induction l with
  | nil => rfl
  | cons a l ih =>
    rw [List.map_cons, List.mapM_cons, h a List.mem_cons_self, ih fun b hb => h b (List.mem_cons_of_mem _ hb)]
    rfl

theorem forall₂_of_mapM_eq_some {f : α → Option β} {l : List α} {l' : List β} (h : l.mapM f = some l') :
    List.Forall₂ (fun a b => f a = some b) l l' := by
  induction l generalizing l' with
  | nil =>
    cases h
    exact .nil
  | cons a l ih =>
    simp only [List.mapM_cons, Option.bind_eq_bind, Option.bind_eq_some_iff] at h
    obtain ⟨b, hb, l₀, hl₀, heq⟩ := h
    cases heq
    exact .cons hb (ih hl₀)

/-- Every step of the loop finds its condition satisfied by the accumulator that the earlier
steps have built. -/
def Admitted (P : β → α → Prop) (add : β → α → β) : β → List α → Prop
  | _, [] => True
  | b, a :: l => P b a ∧ Admitted P add (add b a) l

theorem admitted_append {P : β → α → Prop} {add : β → α → β} {b : β} {l l' : List α} :
    Admitted P add b (l ++ l') ↔ Admitted P add b l ∧ Admitted P add (l.foldl add b) l' := by
  induction l generalizing b with
  | nil => simp [Admitted]
  | cons a l ih => simp [Admitted, ih, and_assoc]

theorem admitted_and {P Q : β → α → Prop} {add : β → α → β} {b : β} {l : List α} :
    Admitted (fun b a => P b a ∧ Q b a) add b l ↔ Admitted P add b l ∧ Admitted Q add b l := by
  induction l generalizing b with
  | nil => simp [Admitted]
  | cons a l ih =>
    simp only [Admitted, ih]
    tauto

theorem admitted_const {P : α → Prop} {add : β → α → β} {b : β} {l : List α} :
    Admitted (fun _ a => P a) add b l ↔ ∀ a ∈ l, P a := by
  induction l generalizing b with
  | nil => simp [Admitted]
  | cons a l ih => rw [Admitted, ih, List.forall_mem_cons]

/-- A condition on a part of the accumulator that the loop leaves alone. -/
theorem admitted_unchanged (Q : γ → α → Prop) (part : β → γ) {add : β → α → β} {b : β} {l : List α}
    (hadd : ∀ b a, part (add b a) = part b) :
    Admitted (fun b a => Q (part b) a) add b l ↔ ∀ a ∈ l, Q (part b) a := by
  induction l generalizing b with
  | nil => simp [Admitted]
  | cons a l ih => rw [Admitted, ih, hadd, List.forall_mem_cons]

/-- Each element is admitted by what the elements before it have built. -/
theorem admitted_iff_split {P : β → α → Prop} {add : β → α → β} {b : β} {l : List α} :
    Admitted P add b l ↔ ∀ l₁ a l₂, l = l₁ ++ a :: l₂ → P (l₁.foldl add b) a := by
  induction l generalizing b with
  | nil => simp [Admitted]
  | cons x l ih =>
    rw [Admitted, ih]
    constructor
    · intro ⟨hx, hl⟩ l₁ a l₂ heq
      cases l₁ with
      | nil =>
        cases heq
        exact hx
      | cons y l₁ =>
        cases heq
        exact hl l₁ a l₂ rfl
    · intro h
      exact ⟨h [] x l rfl, fun l₁ a l₂ heq => h (x :: l₁) a l₂ (by rw [heq, List.cons_append])⟩

/-- An accumulator that records a key of each element admits the elements whose keys are fresh. -/
theorem admitted_fresh_append (key : α → γ) (keys : β → List γ) {add : β → α → β} {b : β} {l : List α}
    (hadd : ∀ b a, keys (add b a) = keys b ++ [key a]) (hb : (keys b).Nodup) :
    Admitted (fun b a => key a ∉ keys b) add b l ↔ (keys b ++ l.map key).Nodup := by
  induction l generalizing b with
  | nil => simp [Admitted, hb]
  | cons a l ih =>
    have hassoc : keys b ++ (a :: l).map key = keys (add b a) ++ l.map key := by simp [hadd]
    rw [Admitted, hassoc]
    constructor
    · intro ⟨ha, hl⟩
      refine (ih ?_).1 hl
      rw [hadd]
      exact List.nodup_append_comm.1 (List.nodup_cons.2 ⟨ha, hb⟩)
    · intro h
      have hnodup : (keys (add b a)).Nodup := (List.nodup_append.1 h).1
      refine ⟨fun hmem => ?_, (ih hnodup).2 h⟩
      rw [hadd] at hnodup
      exact (List.nodup_cons.1 (List.nodup_append_comm.1 hnodup)).1 hmem

theorem admitted_fresh (key : α → γ) (keys : β → List γ) {add : β → α → β} {b : β} {l : List α}
    (hadd : ∀ b a, keys (add b a) = keys b ++ [key a]) (hempty : keys b = []) :
    Admitted (fun b a => key a ∉ keys b) add b l ↔ (l.map key).Nodup := by
  rw [admitted_fresh_append key keys hadd (by simp [hempty]), hempty, List.nil_append]

/-- An accumulator that is extended by a value of each element. -/
theorem foldl_extend (val : α → γ) (vals : β → List γ) {add : β → α → β}
    (hadd : ∀ b a, vals (add b a) = vals b ++ [val a]) (b : β) (l : List α) :
    vals (l.foldl add b) = vals b ++ l.map val := by
  induction l generalizing b with
  | nil => simp
  | cons a l ih => rw [List.foldl_cons, ih, hadd, List.map_cons, List.append_assoc, List.singleton_append]

/-- A loop that collects keys of its elements admits them if each passes on its own and no key comes twice. -/
theorem admitted_insert [DecidableEq γ] {P : α → Prop} {key : α → γ} {s : Finset γ} {l : List α} :
    Admitted (fun s a => P a ∧ key a ∉ s) (fun s a => insert (key a) s) s l
      ↔ (∀ a ∈ l, P a ∧ key a ∉ s) ∧ (l.map key).Nodup := by
  induction l generalizing s with
  | nil => simp [Admitted]
  | cons a l ih =>
    rw [Admitted, ih, List.forall_mem_cons, List.map_cons, List.nodup_cons]
    constructor
    · rintro ⟨ha, hall, hnodup⟩
      refine ⟨⟨ha, fun b hb => ⟨(hall b hb).1, fun h => (hall b hb).2 (Finset.mem_insert_of_mem h)⟩⟩, ?_, hnodup⟩
      intro hmem
      obtain ⟨b, hb, hkey⟩ := List.mem_map.1 hmem
      exact (hall b hb).2 (hkey ▸ Finset.mem_insert_self (key b) s)
    · rintro ⟨⟨ha, hall⟩, hmem, hnodup⟩
      refine ⟨ha, fun b hb => ⟨(hall b hb).1, fun h => ?_⟩, hnodup⟩
      rcases Finset.mem_insert.1 h with h | h
      · exact hmem (h ▸ List.mem_map_of_mem hb)
      · exact (hall b hb).2 h

/-- A checked loop succeeds exactly if every step is admitted, with the unchecked result. -/
theorem foldlM_eq_ok {P : β → α → Prop} {add : β → α → β} {f : β → α → Except ε β}
    (hf : ∀ b a b', f b a = .ok b' ↔ P b a ∧ b' = add b a) {b b' : β} {l : List α} :
    l.foldlM f b = .ok b' ↔ Admitted P add b l ∧ b' = l.foldl add b := by
  induction l generalizing b with
  | nil => simp [Admitted, pure, Except.pure, eq_comm]
  | cons a l ih =>
    rw [List.foldlM_cons, bind_eq_ok]
    simp only [hf, ih, Admitted, List.foldl_cons]
    constructor
    · rintro ⟨_, ⟨hP, rfl⟩, hrest, rfl⟩
      exact ⟨⟨hP, hrest⟩, rfl⟩
    · rintro ⟨⟨hP, hrest⟩, rfl⟩
      exact ⟨_, ⟨hP, rfl⟩, hrest, rfl⟩

/-- A loop that does the same on related elements. -/
theorem foldlM_congr {R : α → α → Prop} {f : β → α → Except ε β} (hf : ∀ b a a', R a a' → f b a = f b a')
    {l l' : List α} (h : List.Forall₂ R l l') (b : β) : l.foldlM f b = l'.foldlM f b := by
  induction h generalizing b with
  | nil => rfl
  | cons hr _ ih => simp only [List.foldlM_cons, hf _ _ _ hr, ih]

theorem forall₂_zipIdx {R : α → α → Prop} {l l' : List α} (h : List.Forall₂ R l l') (n : ℕ) :
    List.Forall₂ (fun a a' => R a.1 a'.1 ∧ a.2 = a'.2) (l.zipIdx n) (l'.zipIdx n) := by
  induction h generalizing n with
  | nil => exact .nil
  | cons hr _ ih => exact .cons ⟨hr, rfl⟩ (ih (n + 1))

theorem foldl_insert [DecidableEq γ] (key : α → γ) (s : Finset γ) (l : List α) :
    l.foldl (fun s a => insert (key a) s) s = s ∪ (l.map key).toFinset := by
  induction l generalizing s with
  | nil => simp
  | cons a l ih =>
    rw [List.foldl_cons, ih, List.map_cons, List.toFinset_cons, Finset.insert_union, Finset.union_insert]

/-- A loop that collects keys, each element checked on its own and its key against those before it. -/
theorem foldlM_collect_eq_ok [DecidableEq γ] {P : α → Prop} {key : α → γ} {f : Finset γ → α → Except ε (Finset γ)}
    (hf : ∀ s a s', f s a = .ok s' ↔ (P a ∧ key a ∉ s) ∧ s' = insert (key a) s) {s' : Finset γ} {l : List α} :
    l.foldlM f ∅ = .ok s' ↔ ((∀ a ∈ l, P a) ∧ (l.map key).Nodup) ∧ s' = (l.map key).toFinset := by
  rw [foldlM_eq_ok hf, admitted_insert, foldl_insert, Finset.empty_union]
  simp only [Finset.notMem_empty, not_false_eq_true, and_true]

end CheckedFold
