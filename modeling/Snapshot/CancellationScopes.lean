import Mathlib.Data.Fintype.Order
import Mathlib.Order.MinMax
import Snapshot.StopPropagation

/-! `Cancellation` of `agent/pagebroker/cancellation.hpp`: handles that share a stop state, and children of
one or two handles whose stop state is requested by callbacks on the stop states of the parents. A callback
is registered as long as some handle keeps it, through the registrations of its ancestors; the handle it was
made for may be gone. -/
namespace CancellationScopes

open StopPropagation

/-- What a handle keeps alive of its ancestors; `none` is a null `shared_ptr`. Each has the number of the
stop state that its callbacks request, and those of the stop states they are registered with. -/
inductive ParentLinks where
  | none
  | childOf (child first : ℕ) (firstAncestors : ParentLinks)
  | join (child first second : ℕ) (firstAncestors secondAncestors : ParentLinks)
  deriving DecidableEq, Repr

/-- The registrations that are kept: the stop state a callback waits for and the one that it requests. -/
def ParentLinks.callbacks : ParentLinks → List (ℕ × ℕ)
  | none => []
  | childOf child first firstAncestors => (first, child) :: firstAncestors.callbacks
  | join child first second firstAncestors secondAncestors =>
    (first, child) :: (second, child) :: (firstAncestors.callbacks ++ secondAncestors.callbacks)

structure Cancellation (Time : Type) where
  source : ℕ
  deadline : Time
  parents : ParentLinks
  deriving DecidableEq, Repr

variable {Time : Type} [LinearOrder Time] [OrderTop Time]

/-- Handles and stop states, numbered as they are made. A handle that is destroyed is no longer there. -/
structure Scopes (Time : Type) where
  handles : List (Option (Cancellation Time)) := []
  sources : ℕ := 0
  requested : ℕ → Bool := fun _ => false

inductive Op (Time : Type) where
  /-- The default constructor, or the one with a deadline. -/
  | create (deadline : Option Time)
  | copy (handle : ℕ)
  | withDeadline (handle : ℕ) (deadline : Time)
  | childOf (parent : ℕ)
  | join (first second : ℕ)
  | destroy (handle : ℕ)
  | cancel (handle : ℕ)
  deriving DecidableEq, Repr

namespace Scopes

/-- A handle that has not been destroyed. -/
def handle (s : Scopes Time) (h : ℕ) : Option (Cancellation Time) := s.handles[h]?.join

/-- The registrations that some handle keeps. -/
def callbacks (s : Scopes Time) : List (ℕ × ℕ) :=
  s.handles.flatMap fun
    | some c => c.parents.callbacks
    | none => []

/-- `request_stop`: the callbacks of a stop state run when it is requested first. -/
def requestStop (s : Scopes Time) (source : ℕ) : Scopes Time :=
  { s with requested := raise s.callbacks s.sources source s.requested }

def add (s : Scopes Time) (c : Cancellation Time) : Scopes Time := { s with handles := s.handles ++ [some c] }

/-- A callback that is registered with a stop state which has been requested runs at once. -/
def register (s : Scopes Time) (parent child : ℕ) : Scopes Time :=
  if s.requested parent then s.requestStop child else s

def step (s : Scopes Time) : Op Time → Option (Scopes Time)
  | .create deadline =>
    some ({ s with sources := s.sources + 1 }.add ⟨s.sources, deadline.getD ⊤, .none⟩)
  | .copy h => do
    let c ← s.handle h
    s.add c
  | .withDeadline h deadline => do
    let c ← s.handle h
    s.add { c with deadline := min c.deadline deadline }
  | .childOf h => do
    let parent ← s.handle h
    let child := s.sources
    ({ s with sources := s.sources + 1 }.register parent.source child).add
      ⟨child, min parent.deadline ⊤, .childOf child parent.source parent.parents⟩
  | .join h k => do
    let first ← s.handle h
    let second ← s.handle k
    let child := s.sources
    (({ s with sources := s.sources + 1 }.register first.source child).register second.source child).add
      ⟨child, min first.deadline second.deadline,
        .join child first.source second.source first.parents second.parents⟩
  | .destroy h => do
    let _ ← s.handle h
    some { s with handles := s.handles.set h none }
  | .cancel h => do
    let c ← s.handle h
    s.requestStop c.source

end Scopes

/-! ## What was done -/

/-- The scopes with what has been done so far: the edges from parents to children, the stop states that
`Cancel` was called for, and for each handle the deadlines given to it and to its ancestors. -/
structure History (Time : Type) where
  scopes : Scopes Time := {}
  made : List (ℕ × ℕ) := []
  cancelled : List ℕ := []
  given : List (List Time) := []

namespace History

def givenTo (t : History Time) (h : ℕ) : List Time := t.given[h]?.getD []

def sourceOf (t : History Time) (h : ℕ) : ℕ := ((t.scopes.handle h).map (·.source)).getD 0

def step (t : History Time) (op : Op Time) : Option (History Time) := do
  let scopes ← t.scopes.step op
  let child := t.scopes.sources
  match op with
  | .create deadline => some { t with scopes, given := t.given ++ [deadline.toList] }
  | .copy h => some { t with scopes, given := t.given ++ [t.givenTo h] }
  | .withDeadline h deadline => some { t with scopes, given := t.given ++ [t.givenTo h ++ [deadline]] }
  | .childOf h => some { t with
      scopes, given := t.given ++ [t.givenTo h], made := (t.sourceOf h, child) :: t.made }
  | .join h k => some { t with
      scopes, given := t.given ++ [t.givenTo h ++ t.givenTo k]
      made := (t.sourceOf h, child) :: (t.sourceOf k, child) :: t.made }
  | .destroy _ => some { t with scopes }
  | .cancel h => some { t with scopes, cancelled := t.sourceOf h :: t.cancelled }

end History

inductive Reachable : History Time → Prop where
  | start : Reachable {}
  | step {t t' : History Time} {op : Op Time} : Reachable t → t.step op = some t' → Reachable t'

/-! ## Registrations and edges -/

/-- The links of a stop state hold the edges into it and, by their ancestors, into all that is above. -/
def Traces (made : List (ℕ × ℕ)) : ℕ → ParentLinks → Prop
  | s, .none => ∀ p, (p, s) ∉ made
  | s, .childOf child first firstAncestors =>
    child = s ∧ (∀ p, (p, s) ∈ made ↔ p = first) ∧ Traces made first firstAncestors
  | s, .join child first second firstAncestors secondAncestors =>
    child = s ∧ (∀ p, (p, s) ∈ made ↔ p = first ∨ p = second) ∧
      Traces made first firstAncestors ∧ Traces made second secondAncestors

section Edges

variable {made : List (ℕ × ℕ)} {s n : ℕ} {links : ParentLinks}

/-- A registration that is kept is an edge, above the stop state it is kept for. -/
theorem Traces.callbacks {e : ℕ × ℕ} (h : Traces made s links) (he : e ∈ links.callbacks) :
    e ∈ made ∧ Leads made e.2 s := by
  induction links generalizing s with
  | none => cases he
  | childOf child first firstAncestors ih =>
    obtain ⟨rfl, hedges, hfirst⟩ := h
    rcases List.mem_cons.1 he with rfl | he
    · exact ⟨(hedges first).2 rfl, .refl⟩
    · obtain ⟨hmade, hlead⟩ := ih hfirst he
      exact ⟨hmade, hlead.tail ((hedges first).2 rfl)⟩
  | join child first second firstAncestors secondAncestors ih ih' =>
    obtain ⟨rfl, hedges, hfirst, hsecond⟩ := h
    simp only [ParentLinks.callbacks, List.mem_cons, List.mem_append] at he
    rcases he with rfl | rfl | he | he
    · exact ⟨(hedges first).2 (.inl rfl), .refl⟩
    · exact ⟨(hedges second).2 (.inr rfl), .refl⟩
    · obtain ⟨hmade, hlead⟩ := ih hfirst he
      exact ⟨hmade, hlead.tail ((hedges first).2 (.inl rfl))⟩
    · obtain ⟨hmade, hlead⟩ := ih' hsecond he
      exact ⟨hmade, hlead.tail ((hedges second).2 (.inr rfl))⟩

/-- Every edge above the stop state is kept. -/
theorem Traces.mem_callbacks {x p : ℕ} (h : Traces made s links) (hx : Leads made x s)
    (hedge : (p, x) ∈ made) : (p, x) ∈ links.callbacks := by
  induction links generalizing s with
  | none =>
    rcases hx.cases_tail with rfl | ⟨y, -, hy⟩
    · exact absurd hedge (h p)
    · exact absurd hy (h y)
  | childOf child first firstAncestors ih =>
    obtain ⟨rfl, hedges, hfirst⟩ := h
    rcases hx.cases_tail with rfl | ⟨y, hxy, hy⟩
    · rw [(hedges p).1 hedge]
      exact List.mem_cons_self
    · rw [(hedges y).1 hy] at hxy
      exact List.mem_cons_of_mem _ (ih hfirst hxy)
  | join child first second firstAncestors secondAncestors ih ih' =>
    obtain ⟨rfl, hedges, hfirst, hsecond⟩ := h
    simp only [ParentLinks.callbacks, List.mem_cons, List.mem_append]
    rcases hx.cases_tail with rfl | ⟨y, hxy, hy⟩
    · rcases (hedges p).1 hedge with rfl | rfl
      · exact .inl rfl
      · exact .inr (.inl rfl)
    · rcases (hedges y).1 hy with rfl | rfl
      · exact .inr (.inr (.inl (ih hfirst hxy)))
      · exact .inr (.inr (.inr (ih' hsecond hxy)))

/-- A chain to somewhere above the stop state is a chain of registrations. -/
theorem Traces.leads {x a : ℕ} (h : Traces made s links) (hx : Leads made x s) (ha : Leads made a x) :
    Leads links.callbacks a x := by
  induction ha using Relation.ReflTransGen.head_induction_on with
  | refl => exact .refl
  | @head b c hedge hrest ih => exact ih.head (h.mem_callbacks (hrest.trans hx) hedge)

/-- New edges lead to a new stop state only. -/
theorem leads_append {ps : List ℕ} {x y : ℕ} (hordered : ∀ e ∈ made, e.1 < e.2 ∧ e.2 < n) (hy : y < n) :
    Leads (ps.map (·, n) ++ made) x y ↔ Leads made x y := by
  constructor
  · intro h
    induction h with
    | refl => exact .refl
    | @tail z w _ hedge ih =>
      rcases List.mem_append.1 hedge with hnew | hold
      · obtain ⟨p, -, heq⟩ := List.mem_map.1 hnew
        cases heq
        omega
      · have hlt := (hordered _ hold).1
        dsimp only at hlt
        exact (ih (by omega)).tail hold
  · intro h
    exact Leads.mono h fun e he => List.mem_append_right _ he

theorem Traces.append {ps : List ℕ} (hordered : ∀ e ∈ made, e.1 < e.2 ∧ e.2 < n) (hs : s < n)
    (h : Traces made s links) : Traces (ps.map (·, n) ++ made) s links := by
  have hmem : ∀ {s : ℕ}, s < n → ∀ p, (p, s) ∈ ps.map (·, n) ++ made ↔ (p, s) ∈ made := by
    intro s hs p
    rw [List.mem_append, or_iff_right]
    intro hnew
    obtain ⟨q, -, heq⟩ := List.mem_map.1 hnew
    cases heq
    omega
  induction links generalizing s with
  | none => exact fun p hp => h p ((hmem hs p).1 hp)
  | childOf child first firstAncestors ih =>
    obtain ⟨hchild, hedges, hfirst⟩ := h
    have hlt := (hordered _ ((hedges first).2 rfl)).1
    dsimp only at hlt
    exact ⟨hchild, fun p => (hmem hs p).trans (hedges p), ih (by omega) hfirst⟩
  | join child first second firstAncestors secondAncestors ih ih' =>
    obtain ⟨hchild, hedges, hfirst, hsecond⟩ := h
    have hlt := (hordered _ ((hedges first).2 (.inl rfl))).1
    have hlt' := (hordered _ ((hedges second).2 (.inr rfl))).1
    dsimp only at hlt hlt'
    exact ⟨hchild, fun p => (hmem hs p).trans (hedges p), ih (by omega) hfirst, ih' (by omega) hsecond⟩

end Edges

/-! ## The invariant -/

structure Invariant (t : History Time) : Prop where
  ordered : ∀ e ∈ t.made, e.1 < e.2 ∧ e.2 < t.scopes.sources
  source : ∀ h c, t.scopes.handle h = some c → c.source < t.scopes.sources
  traces : ∀ h c, t.scopes.handle h = some c → Traces t.made c.source c.parents
  correct : ∀ h c, t.scopes.handle h = some c → ∀ x, Leads t.made x c.source →
    (t.scopes.requested x = true ↔ ∃ a ∈ t.cancelled, Leads t.made a x)
  fresh : ∀ x, t.scopes.sources ≤ x → t.scopes.requested x = false
  cancelled : ∀ a ∈ t.cancelled, a < t.scopes.sources
  given : t.given.length = t.scopes.handles.length
  deadline : ∀ h c, t.scopes.handle h = some c → c.deadline = (t.givenTo h).foldr min ⊤

section Steps

variable {t t' : History Time} {s : Scopes Time} {h n : ℕ} {c : Cancellation Time}

omit [LinearOrder Time] [OrderTop Time] in
theorem mem_callbacks {e : ℕ × ℕ} :
    e ∈ s.callbacks ↔ ∃ h c, s.handle h = some c ∧ e ∈ c.parents.callbacks := by
  simp only [Scopes.callbacks, List.mem_flatMap, Scopes.handle]
  constructor
  · rintro ⟨o, ho, he⟩
    obtain ⟨h, hh⟩ := List.mem_iff_getElem?.1 ho
    cases o with
    | none => cases he
    | some c => exact ⟨h, c, by rw [hh]; rfl, he⟩
  · rintro ⟨h, c, hh, he⟩
    refine ⟨some c, ?_, he⟩
    cases hget : s.handles[h]? with
    | none => simp [hget] at hh
    | some o =>
      rw [hget] at hh
      rw [← show o = some c from hh]
      exact List.mem_of_getElem? hget

theorem Invariant.callbacks_increasing (hinv : Invariant t) :
    ∀ e ∈ t.scopes.callbacks, e.1 < e.2 ∧ e.2 < t.scopes.sources := by
  intro e he
  obtain ⟨h, c, hh, he⟩ := mem_callbacks.1 he
  exact hinv.ordered e ((hinv.traces h c hh).callbacks he).1

/-- A stop state that has been requested has requested all that is registered with it. -/
theorem Invariant.closed (hinv : Invariant t) :
    ∀ e ∈ t.scopes.callbacks, t.scopes.requested e.1 = true → t.scopes.requested e.2 = true := by
  intro e he hrequested
  obtain ⟨h, c, hh, he⟩ := mem_callbacks.1 he
  obtain ⟨hmade, hlead⟩ := (hinv.traces h c hh).callbacks he
  obtain ⟨a, ha, haLead⟩ := (hinv.correct h c hh e.1 (hlead.head hmade)).1 hrequested
  exact (hinv.correct h c hh e.2 hlead).2 ⟨a, ha, haLead.tail hmade⟩

/-- What a `Cancel` requests, as far as handles can see it. -/
theorem Invariant.requestStop_iff {k : ℕ} {d : Cancellation Time} (hinv : Invariant t)
    (hd : t.scopes.handle k = some d) (hc : t.scopes.handle h = some c) {x : ℕ}
    (hx : Leads t.made x c.source) : (t.scopes.requestStop d.source).requested x = true ↔
      t.scopes.requested x = true ∨ Leads t.made d.source x := by
  rw [Scopes.requestStop, raise_iff hinv.callbacks_increasing (hinv.source k d hd) (by omega) hinv.closed]
  constructor
  · rintro (hup | hlead)
    · exact .inl hup
    · refine .inr (Leads.mono hlead fun e he => ?_)
      obtain ⟨h', c', hc', he⟩ := mem_callbacks.1 he
      exact ((hinv.traces h' c' hc').callbacks he).1
  · rintro (hup | hlead)
    · exact .inl hup
    · exact .inr (Leads.mono ((hinv.traces h c hc).leads hx hlead) fun e he =>
        mem_callbacks.2 ⟨h, c, hc, he⟩)

theorem Invariant.cancel (hinv : Invariant t) (hc : t.scopes.handle h = some c) :
    Invariant { t with scopes := t.scopes.requestStop c.source, cancelled := c.source :: t.cancelled } := by
  refine ⟨hinv.ordered, hinv.source, hinv.traces, fun h' c' hc' x hx => ?_, fun x hx => ?_, ?_, hinv.given,
    hinv.deadline⟩
  · rw [hinv.requestStop_iff hc hc' hx, hinv.correct h' c' hc' x hx]
    simp only [List.mem_cons, exists_eq_or_imp]
    exact Or.comm
  · have hraise := raise_iff hinv.callbacks_increasing (hinv.source h c hc) (Nat.le_add_right _ _)
      hinv.closed x
    rw [Scopes.requestStop, ← Bool.not_eq_true, hraise, not_or, Bool.not_eq_true]
    refine ⟨hinv.fresh x hx, fun hlead => ?_⟩
    have hsource := hinv.source h c hc
    have hx' : t.scopes.sources ≤ x := hx
    rcases hlead.cases_tail with rfl | ⟨y, -, hy⟩
    · omega
    · have := (hinv.callbacks_increasing _ hy).2
      dsimp only at this
      omega
  · intro a ha
    rcases List.mem_cons.1 ha with rfl | ha
    · exact hinv.source h c hc
    · exact hinv.cancelled a ha

omit [LinearOrder Time] [OrderTop Time] in
theorem handle_append {handles : List (Option (Cancellation Time))} {sources : ℕ} {requested : ℕ → Bool}
    {d : Cancellation Time} (hs : s.handles = handles) :
    (⟨handles ++ [some c], sources, requested⟩ : Scopes Time).handle h = some d ↔
      h = handles.length ∧ d = c ∨ s.handle h = some d := by
  subst hs
  simp only [Scopes.handle, List.getElem?_append]
  by_cases hlt : h < s.handles.length
  · rw [if_pos hlt]
    simp [Nat.ne_of_lt hlt]
  · rw [if_neg hlt, List.getElem?_eq_none (Nat.le_of_not_lt hlt)]
    by_cases heq : h = s.handles.length
    · subst heq
      simp [eq_comm]
    · have hpos : h - s.handles.length ≠ 0 := by omega
      simp [heq, hpos]

omit [LinearOrder Time] [OrderTop Time] in
theorem givenTo_append {given : List Time} {scopes : Scopes Time} {made : List (ℕ × ℕ)} {cancelled : List ℕ} :
    (⟨scopes, made, cancelled, t.given ++ [given]⟩ : History Time).givenTo h =
      if h = t.given.length then given else t.givenTo h := by
  simp only [History.givenTo, List.getElem?_append]
  split_ifs with hlt heq heq
  · omega
  · rfl
  · subst heq
    simp
  · have hpos : h - t.given.length ≠ 0 := by omega
    rw [List.getElem?_eq_none (Nat.le_of_not_lt hlt), List.getElem?_singleton, if_neg hpos]

omit [LinearOrder Time] [OrderTop Time] in
theorem lt_of_handle (hc : s.handle h = some c) : h < s.handles.length := by
  by_contra hge
  rw [Scopes.handle, List.getElem?_eq_none (Nat.le_of_not_lt hge)] at hc
  cases hc

/-- A new handle with a stop state of its own, below some that handles have. -/
theorem Invariant.child (hinv : Invariant t) (ps : List ℕ) (links : ParentLinks) (requested : ℕ → Bool)
    (given : List Time) (hps : ∀ p ∈ ps, ∃ k d, t.scopes.handle k = some d ∧ d.source = p)
    (hrequested : ∀ x, requested x = true ↔ t.scopes.requested x = true ∨
      x = t.scopes.sources ∧ ∃ p ∈ ps, t.scopes.requested p = true)
    (htraces : Traces (ps.map (·, t.scopes.sources) ++ t.made) t.scopes.sources links) :
    Invariant ⟨⟨t.scopes.handles ++ [some ⟨t.scopes.sources, given.foldr min ⊤, links⟩],
      t.scopes.sources + 1, requested⟩, ps.map (·, t.scopes.sources) ++ t.made, t.cancelled,
      t.given ++ [given]⟩ := by
  have hbelow : ∀ p ∈ ps, p < t.scopes.sources := by
    intro p hp
    obtain ⟨k, d, hd, rfl⟩ := hps p hp
    exact hinv.source k d hd
  have hlead : ∀ {x y : ℕ}, y < t.scopes.sources →
      (Leads (ps.map (·, t.scopes.sources) ++ t.made) x y ↔ Leads t.made x y) := leads_append hinv.ordered
  have hchain : ∀ {x y : ℕ}, Leads t.made x y → y < t.scopes.sources → x < t.scopes.sources := by
    intro x y hxy hy
    induction hxy with
    | refl => exact hy
    | tail _ hedge ih =>
      have := hinv.ordered _ hedge
      dsimp only at this
      exact ih (by omega)
  -- what was there before sees nothing of the new stop state
  have hold : ∀ h c, t.scopes.handle h = some c → ∀ x, Leads t.made x c.source →
      (requested x = true ↔ ∃ a ∈ t.cancelled, Leads (ps.map (·, t.scopes.sources) ++ t.made) a x) := by
    intro h c hc x hx
    have hlt := hchain hx (hinv.source h c hc)
    rw [hrequested, or_iff_left (by omega), hinv.correct h c hc x hx]
    simp only [hlead hlt]
  have hinto : ∀ p, (p, t.scopes.sources) ∈ ps.map (·, t.scopes.sources) ++ t.made → p ∈ ps := by
    intro p hp
    rcases List.mem_append.1 hp with hnew | hold
    · obtain ⟨q, hq, heq⟩ := List.mem_map.1 hnew
      cases heq
      exact hq
    · exact absurd (hinv.ordered _ hold).2 (Nat.lt_irrefl _)
  refine ⟨?_, ?_, ?_, ?_, ?_, ?_, ?_, ?_⟩
  · intro e he
    rcases List.mem_append.1 he with hnew | hold
    · obtain ⟨p, hp, rfl⟩ := List.mem_map.1 hnew
      exact ⟨hbelow p hp, Nat.lt_succ_self _⟩
    · obtain ⟨hlt, hlt'⟩ := hinv.ordered e hold
      exact ⟨hlt, Nat.lt_succ_of_lt hlt'⟩
  · intro h c hc
    rcases (handle_append rfl).1 hc with ⟨-, rfl⟩ | hc
    · exact Nat.lt_succ_self _
    · exact Nat.lt_succ_of_lt (hinv.source h c hc)
  · intro h c hc
    rcases (handle_append rfl).1 hc with ⟨-, rfl⟩ | hc
    · exact htraces
    · exact (hinv.traces h c hc).append hinv.ordered (hinv.source h c hc)
  · intro h c hc x hx
    rcases (handle_append rfl).1 hc with ⟨-, rfl⟩ | hc
    · rcases hx.cases_tail with rfl | ⟨p, hxp, hp⟩
      · rw [hrequested, or_iff_right (by simp [hinv.fresh _ (Nat.le_refl _)])]
        constructor
        · rintro ⟨-, p, hp, hup⟩
          obtain ⟨k, d, hd, rfl⟩ := hps p hp
          obtain ⟨a, ha, haLead⟩ := (hinv.correct k d hd _ .refl).1 hup
          exact ⟨a, ha, ((hlead (hinv.source k d hd)).2 haLead).tail
            (List.mem_append_left _ (List.mem_map_of_mem hp))⟩
        · rintro ⟨a, ha, haLead⟩
          rcases haLead.cases_tail with heq | ⟨p, hap, hp⟩
          · have := hinv.cancelled a ha
            dsimp only at heq
            omega
          · obtain ⟨k, d, hd, rfl⟩ := hps p (hinto p hp)
            exact ⟨rfl, _, hinto _ hp, (hinv.correct k d hd _ .refl).2
              ⟨a, ha, (hlead (hinv.source k d hd)).1 hap⟩⟩
      · obtain ⟨k, d, hd, rfl⟩ := hps p (hinto p hp)
        exact hold k d hd x ((hlead (hinv.source k d hd)).1 hxp)
    · exact hold h c hc x ((hlead (hinv.source h c hc)).1 hx)
  · intro x hx
    rw [← Bool.not_eq_true, hrequested]
    have hx' : t.scopes.sources + 1 ≤ x := hx
    rintro (hup | ⟨heq, -⟩)
    · rw [hinv.fresh x (by omega)] at hup
      cases hup
    · omega
  · exact fun a ha => Nat.lt_succ_of_lt (hinv.cancelled a ha)
  · simp [hinv.given]
  · intro h c hc
    rw [givenTo_append]
    rcases (handle_append rfl).1 hc with ⟨rfl, rfl⟩ | hc
    · rw [if_pos hinv.given.symm]
    · rw [if_neg (by have := lt_of_handle hc; have := hinv.given; omega)]
      exact hinv.deadline h c hc

/-- A new handle with the stop state of another one. -/
theorem Invariant.view (hinv : Invariant t) (hc : t.scopes.handle h = some c) (given : List Time) :
    Invariant ⟨⟨t.scopes.handles ++ [some { c with deadline := given.foldr min ⊤ }], t.scopes.sources,
      t.scopes.requested⟩, t.made, t.cancelled, t.given ++ [given]⟩ := by
  refine ⟨hinv.ordered, ?_, ?_, ?_, hinv.fresh, hinv.cancelled, by simp [hinv.given], ?_⟩
  · intro h' d hd
    rcases (handle_append rfl).1 hd with ⟨-, rfl⟩ | hd
    · exact hinv.source h c hc
    · exact hinv.source h' d hd
  · intro h' d hd
    rcases (handle_append rfl).1 hd with ⟨-, rfl⟩ | hd
    · exact hinv.traces h c hc
    · exact hinv.traces h' d hd
  · intro h' d hd
    rcases (handle_append rfl).1 hd with ⟨-, rfl⟩ | hd
    · exact hinv.correct h c hc
    · exact hinv.correct h' d hd
  · intro h' d hd
    rw [givenTo_append]
    rcases (handle_append rfl).1 hd with ⟨rfl, rfl⟩ | hd
    · rw [if_pos hinv.given.symm]
    · rw [if_neg (by have := lt_of_handle hd; have := hinv.given; omega)]
      exact hinv.deadline h' d hd

theorem Invariant.destroy (hinv : Invariant t) :
    Invariant { t with scopes := { t.scopes with handles := t.scopes.handles.set h none } } := by
  have hless : ∀ h' c, (⟨t.scopes.handles.set h none, t.scopes.sources, t.scopes.requested⟩ :
      Scopes Time).handle h' = some c → t.scopes.handle h' = some c := by
    intro h' c hc
    simp only [Scopes.handle, List.getElem?_set] at hc ⊢
    split_ifs at hc with heq hlt
    · cases hc
    · cases hc
    · exact hc
  exact ⟨hinv.ordered, fun h' c hc => hinv.source h' c (hless h' c hc),
    fun h' c hc => hinv.traces h' c (hless h' c hc), fun h' c hc => hinv.correct h' c (hless h' c hc),
    hinv.fresh, hinv.cancelled, hinv.given.trans List.length_set.symm,
    fun h' c hc => hinv.deadline h' c (hless h' c hc)⟩

/-- A callback for a new stop state requests it, and nothing else, if its parent has been requested. -/
theorem Invariant.register {requested : ℕ → Bool} {p x : ℕ} (hinv : Invariant t) :
    ((⟨t.scopes.handles, t.scopes.sources + 1, requested⟩ : Scopes Time).register p
        t.scopes.sources).requested x = true ↔
      requested x = true ∨ x = t.scopes.sources ∧ requested p = true := by
  have hleaf : ∀ e ∈ t.scopes.callbacks, e.1 ≠ t.scopes.sources := by
    intro e he
    have := hinv.callbacks_increasing e he
    omega
  rw [Scopes.register]
  split_ifs with hp
  · have hp' : requested p = true := hp
    exact (raise_leaf hleaf).trans (by simp [hp'])
  · have hp' : requested p = false := Bool.eq_false_iff.2 hp
    simp [hp']

omit [LinearOrder Time] [OrderTop Time] in
theorem register_eq (s : Scopes Time) (p n : ℕ) :
    s.register p n = ⟨s.handles, s.sources, (s.register p n).requested⟩ := by
  rw [Scopes.register]
  split_ifs <;> rfl

theorem Invariant.traces_child (hinv : Invariant t) (hc : t.scopes.handle h = some c) :
    Traces ([c.source].map (·, t.scopes.sources) ++ t.made) t.scopes.sources
      (.childOf t.scopes.sources c.source c.parents) := by
  refine ⟨rfl, fun p => ?_, (hinv.traces h c hc).append hinv.ordered (hinv.source h c hc)⟩
  have hold : (p, t.scopes.sources) ∉ t.made := fun hp => Nat.lt_irrefl _ (hinv.ordered _ hp).2
  simp [hold]

theorem Invariant.traces_join {k : ℕ} {d : Cancellation Time} (hinv : Invariant t)
    (hc : t.scopes.handle h = some c) (hd : t.scopes.handle k = some d) :
    Traces ([c.source, d.source].map (·, t.scopes.sources) ++ t.made) t.scopes.sources
      (.join t.scopes.sources c.source d.source c.parents d.parents) := by
  refine ⟨rfl, fun p => ?_, (hinv.traces h c hc).append hinv.ordered (hinv.source h c hc),
    (hinv.traces k d hd).append hinv.ordered (hinv.source k d hd)⟩
  have hold : (p, t.scopes.sources) ∉ t.made := fun hp => Nat.lt_irrefl _ (hinv.ordered _ hp).2
  simp [hold]

theorem foldr_min (x : Time) (l : List Time) : l.foldr min x = min (l.foldr min ⊤) x := by
  induction l with
  | nil => simp
  | cons a l ih => rw [List.foldr_cons, ih, List.foldr_cons, min_assoc]

omit [LinearOrder Time] [OrderTop Time] in
theorem sourceOf_eq (hc : t.scopes.handle h = some c) : t.sourceOf h = c.source := by
  rw [History.sourceOf, hc]
  rfl

theorem invariant_step {op : Op Time} (hinv : Invariant t) (hstep : t.step op = some t') : Invariant t' := by
  rw [History.step, Option.bind_eq_bind, Option.bind_eq_some_iff] at hstep
  obtain ⟨scopes, hscopes, hstep⟩ := hstep
  cases op with
  | create deadline =>
    cases hscopes
    cases hstep
    have hchild := hinv.child [] .none t.scopes.requested deadline.toList (by simp) (by simp) (fun p hp => ?_)
    · cases deadline <;> simpa [Scopes.add] using hchild
    · exact absurd (hinv.ordered _ hp).2 (Nat.lt_irrefl _)
  | copy h =>
    simp only [Scopes.step, Option.bind_eq_bind, Option.bind_eq_some_iff] at hscopes
    obtain ⟨c, hc, hscopes⟩ := hscopes
    cases hscopes
    cases hstep
    have hview := hinv.view hc (t.givenTo h)
    rwa [← hinv.deadline h c hc] at hview
  | withDeadline h deadline =>
    simp only [Scopes.step, Option.bind_eq_bind, Option.bind_eq_some_iff] at hscopes
    obtain ⟨c, hc, hscopes⟩ := hscopes
    cases hscopes
    cases hstep
    have hview := hinv.view hc (t.givenTo h ++ [deadline])
    rw [List.foldr_append, List.foldr_cons, List.foldr_nil, min_top_right, foldr_min,
      ← hinv.deadline h c hc] at hview
    exact hview
  | childOf h =>
    simp only [Scopes.step, Option.bind_eq_bind, Option.bind_eq_some_iff] at hscopes
    obtain ⟨c, hc, hscopes⟩ := hscopes
    cases hscopes
    cases hstep
    have hchild := hinv.child [c.source] _ _ (t.givenTo h)
      (by simpa using ⟨h, c, hc, rfl⟩) (fun x => by simpa using hinv.register) (hinv.traces_child hc)
    rw [← hinv.deadline h c hc] at hchild
    rw [sourceOf_eq hc, register_eq, min_top_right]
    exact hchild
  | join h k =>
    simp only [Scopes.step, Option.bind_eq_bind, Option.bind_eq_some_iff] at hscopes
    obtain ⟨c, hc, d, hd, hscopes⟩ := hscopes
    cases hscopes
    cases hstep
    have hregister : ∀ x, (((⟨t.scopes.handles, t.scopes.sources + 1, t.scopes.requested⟩ :
        Scopes Time).register c.source t.scopes.sources).register d.source t.scopes.sources).requested x =
          true ↔ t.scopes.requested x = true ∨
            x = t.scopes.sources ∧ ∃ p ∈ [c.source, d.source], t.scopes.requested p = true := by
      intro x
      have hne : d.source ≠ t.scopes.sources := Nat.ne_of_lt (hinv.source k d hd)
      rw [register_eq _ c.source, hinv.register, hinv.register, hinv.register]
      simp only [hne, false_and, or_false, List.mem_cons, List.not_mem_nil, exists_eq_or_imp,
        exists_eq_left]
      rw [or_assoc, ← and_or_left]
    have hchild := hinv.child [c.source, d.source] _ _ (t.givenTo h ++ t.givenTo k)
      (by simpa using ⟨⟨h, c, hc, rfl⟩, ⟨k, d, hd, rfl⟩⟩) hregister (hinv.traces_join hc hd)
    rw [List.foldr_append, foldr_min, ← hinv.deadline h c hc, ← hinv.deadline k d hd] at hchild
    rw [sourceOf_eq hc, sourceOf_eq hd, register_eq _ d.source, register_eq _ c.source]
    rw [register_eq _ c.source] at hchild
    exact hchild
  | destroy h =>
    simp only [Scopes.step, Option.bind_eq_bind, Option.bind_eq_some_iff] at hscopes
    obtain ⟨c, hc, hscopes⟩ := hscopes
    cases hscopes
    cases hstep
    exact hinv.destroy
  | cancel h =>
    simp only [Scopes.step, Option.bind_eq_bind, Option.bind_eq_some_iff] at hscopes
    obtain ⟨c, hc, hscopes⟩ := hscopes
    cases hscopes
    cases hstep
    rw [sourceOf_eq hc]
    exact hinv.cancel hc

theorem invariant_of_reachable (ht : Reachable t) : Invariant t := by
  induction ht with
  | start =>
    have hnone : ∀ h c, ({} : Scopes Time).handle h ≠ some c := fun h c hc => by simp [Scopes.handle] at hc
    exact ⟨by simp, fun h c hc => absurd hc (hnone h c), fun h c hc => absurd hc (hnone h c),
      fun h c hc => absurd hc (hnone h c), fun _ _ => rfl, by simp, rfl, fun h c hc => absurd hc (hnone h c)⟩
  | step _ hstep ih => exact invariant_step ih hstep

theorem Invariant.le_of_leads (hinv : Invariant t) {x y : ℕ} (h : Leads t.made x y) : x ≤ y := by
  induction h with
  | refl => exact Nat.le_refl _
  | tail _ hedge ih =>
    have := (hinv.ordered _ hedge).1
    dsimp only at this
    omega

/-- The least of the deadlines is one of them, or there is none. -/
theorem foldr_min_spec (l : List Time) :
    (∀ d ∈ l, l.foldr min ⊤ ≤ d) ∧ (l.foldr min ⊤ = ⊤ ∨ l.foldr min ⊤ ∈ l) := by
  induction l with
  | nil => simp
  | cons a l ih =>
    rw [List.foldr_cons]
    constructor
    · intro d hd
      rcases List.mem_cons.1 hd with rfl | hd
      · exact min_le_left _ _
      · exact (min_le_right _ _).trans (ih.1 d hd)
    · rcases min_choice a (l.foldr min ⊤) with heq | heq <;> rw [heq]
      · exact .inr List.mem_cons_self
      · exact ih.2.imp_right (List.mem_cons_of_mem _)

end Steps

/-- Whatever handles are made, copied, joined, destroyed and cancelled: the stop state of a handle that is
left has been requested exactly if `Cancel` was called for it or for one above it, its deadline is the least
of those given to it and to its ancestors, and `Cancel` changes nothing above or beside. -/
theorem cancellation_follows_scopes {t : History Time} (ht : Reachable t) :
    (∀ h c, t.scopes.handle h = some c →
      (t.scopes.requested c.source = true ↔ ∃ a ∈ t.cancelled, Leads t.made a c.source) ∧
      (∀ d ∈ t.givenTo h, c.deadline ≤ d) ∧ (c.deadline = ⊤ ∨ c.deadline ∈ t.givenTo h)) ∧
    ∀ k d t', t.scopes.handle k = some d → t.step (.cancel k) = some t' →
      ∀ h c, t.scopes.handle h = some c → t'.scopes.handle h = some c ∧
        (¬ Leads t.made d.source c.source ∨ Leads t.made c.source d.source ∧ c.source ≠ d.source →
          t'.scopes.requested c.source = t.scopes.requested c.source) := by
  have hinv := invariant_of_reachable ht
  constructor
  · intro h c hc
    refine ⟨hinv.correct h c hc c.source .refl, ?_⟩
    rw [hinv.deadline h c hc]
    exact foldr_min_spec _
  · intro k d t' hd hstep h c hc
    have ht' : t'.scopes = t.scopes.requestStop d.source := by
      simp only [History.step, Scopes.step, hd] at hstep
      cases hstep
      rfl
    rw [ht']
    refine ⟨hc, fun hbeside => ?_⟩
    have hnot : ¬ Leads t.made d.source c.source := by
      rcases hbeside with hnot | ⟨habove, hne⟩
      · exact hnot
      · intro hlead
        exact hne (Nat.le_antisymm (hinv.le_of_leads habove) (hinv.le_of_leads hlead))
    rw [Bool.eq_iff_iff, hinv.requestStop_iff hd hc .refl, or_iff_left hnot]

/-- A grandchild is cancelled through a child that no longer exists. -/
theorem cancellation_follows_scopes_sample : ∃ t : History Bool,
    (([.create (some true), .childOf 0, .childOf 1, .destroy 1, .cancel 0] : List (Op Bool)).foldlM
      History.step {}) = some t ∧ t.scopes.handle 1 = none ∧
    ∃ c, t.scopes.handle 2 = some c ∧ t.scopes.requested c.source = true ∧
      ∃ a ∈ t.cancelled, Leads t.made a c.source := by
  refine ⟨_, rfl, rfl, _, rfl, rfl, ?_⟩
  have hcreated := Reachable.step .start (rfl : History.step _ (.create (some true)) = some _)
  have hchild := hcreated.step (rfl : History.step _ (.childOf 0) = some _)
  have hgrandchild := hchild.step (rfl : History.step _ (.childOf 1) = some _)
  have hdestroyed := hgrandchild.step (rfl : History.step _ (.destroy 1) = some _)
  have hcancelled := hdestroyed.step (rfl : History.step _ (.cancel 0) = some _)
  exact ((cancellation_follows_scopes hcancelled).1 2 _ rfl).1.1 rfl

end CancellationScopes
