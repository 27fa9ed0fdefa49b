import Snapshot.KeyedLocker

/-! The `Locker` of `api/storage/coordination/lock.go` with any number of goroutines, in the steps in which
the code takes and frees a key. Each call of `Lock` has a number, under which any goroutine may call the
unlock function that it returned, at any time and more than once; a `sync.Once` runs its body for the first
one, and others that come meanwhile wait for its end. -/
namespace CoordinationLock

open KeyedLocker

structure Key where
  storeID : String
  artifactUID : String
  deriving DecidableEq, Repr

/-- The `sync.Once` of a call. -/
inductive Once where
  | fresh
  | running
  | done
  deriving DecidableEq, Repr

/-- Where a goroutine stands, with the call it is about. -/
inductive Pc where
  | idle
  /-- `entry.mu.Lock()` -/
  | locking (call : ℕ)
  /-- `entry.mu.Unlock()`, in the body of the `Once` -/
  | freeing (call : ℕ)
  /-- The section of `l.mu` in the body of the `Once` -/
  | dropping (call : ℕ)
  /-- Another goroutine runs the body of the `Once`. -/
  | awaiting (call : ℕ)
  deriving DecidableEq, Repr

/-- The call whose locker a goroutine is about to change. -/
def Pc.works : Pc → Option ℕ
  | locking n | freeing n | dropping n => some n
  | idle | awaiting _ => none

structure System (G : Type) where
  locker : Locker Key ℕ
  once : ℕ → Once
  pc : G → Pc

inductive Event (G : Type) where
  | lock (g : G) (key : Key)
  | acquire (g : G)
  | unlock (g : G) (call : ℕ)
  | free (g : G)
  | drop (g : G)
  | resume (g : G)
  deriving DecidableEq, Repr

variable {G : Type} [DecidableEq G]

namespace System

def new : System G := ⟨.new, fun _ => .fresh, fun _ => .idle⟩

/-- Where the call of a number stands. -/
def call (s : System G) (n : ℕ) : Option (Caller Key) := s.locker.caller n

/-- The call has returned its unlock function. -/
def returned (s : System G) (n : ℕ) : Bool :=
  match s.call n with
  | none | some (.waiting _ _) => false
  | some _ => true

def goto (s : System G) (g : G) (pc : Pc) : System G := { s with pc := Function.update s.pc g pc }

def step (s : System G) : Event G → Option (System G)
  | .lock g key =>
    if s.pc g = .idle then
      some ({ s with locker := s.locker.enter s.locker.callers.length key }.goto g
        (.locking s.locker.callers.length))
    else none
  | .acquire g =>
    match s.pc g with
    | .locking n => (s.locker.acquire n).map fun l => { s with locker := l }.goto g .idle
    | _ => none
  | .unlock g n =>
    if s.pc g = .idle ∧ s.returned n then
      match s.once n with
      | .fresh => some ({ s with once := Function.update s.once n .running }.goto g (.freeing n))
      | .running => some (s.goto g (.awaiting n))
      | .done => some s
    else none
  | .free g =>
    match s.pc g with
    | .freeing n => (s.locker.release n).map fun l => { s with locker := l }.goto g (.dropping n)
    | _ => none
  | .drop g =>
    match s.pc g with
    | .dropping n => (s.locker.drop n).map fun l =>
        { s with locker := l, once := Function.update s.once n .done }.goto g .idle
    | _ => none
  | .resume g =>
    match s.pc g with
    | .awaiting n => if s.once n = .done then some (s.goto g .idle) else none
    | _ => none

end System

/-- The states of any number of goroutines in any order of their steps. -/
inductive Reachable : System G → Prop where
  | new : Reachable .new
  | step {s s' : System G} {e : Event G} : Reachable s → s.step e = some s' → Reachable s'

/-! ## The locker with numbered calls -/

/-- Every call is the latest one under its own number. -/
def Numbered {K : Type} (l : Locker K ℕ) : Prop :=
  ∀ n, l.latest n = if n < l.callers.length then some n else none

/-- A mutex stays in the table for some call only. -/
def Occupied {K : Type} (l : Locker K ℕ) : Prop :=
  ∀ key entry, l.locks key = some entry → ∃ n c, l.caller n = some c ∧ c.uses? = some (key, entry)

section Numbered

variable {K : Type} {l l' : Locker K ℕ} {n : ℕ} {c : Caller K}

theorem Numbered.caller (h : Numbered l) (n : ℕ) : l.caller n = l.callers[n]? := by
  rw [Locker.caller, h n]
  by_cases hn : n < l.callers.length
  · rw [if_pos hn]
    rfl
  · rw [if_neg hn, List.getElem?_eq_none (Nat.le_of_not_lt hn)]
    rfl

theorem latest_move (l : Locker K ℕ) (n : ℕ) (c : Caller K) : (l.move n c).latest = l.latest := by
  rw [Locker.move]
  split <;> rfl

theorem length_move (l : Locker K ℕ) (n : ℕ) (c : Caller K) :
    (l.move n c).callers.length = l.callers.length := by
  rw [Locker.move]
  split
  · exact List.length_set
  · rfl

theorem locks_move (l : Locker K ℕ) (n : ℕ) (c : Caller K) : (l.move n c).locks = l.locks := by
  rw [Locker.move]
  split <;> rfl

theorem Numbered.of_move (h : Numbered l) (hlatest : l'.latest = (l.move n c).latest)
    (hcallers : l'.callers = (l.move n c).callers) : Numbered l' := by
  intro m
  rw [hlatest, hcallers, latest_move, length_move]
  exact h m

/-- A call that moves and is still counted keeps its mutex in use. -/
theorem Occupied.of_moved {d : Caller K} (h : Occupied l) (hlocks : l'.locks = l.locks)
    (hmoved : Moved l l' n c) (hd : l.caller n = some d) (huses : c.uses? = d.uses?) : Occupied l' := by
  intro key entry hlock
  rw [hlocks] at hlock
  obtain ⟨m, c', hm, hc'⟩ := h key entry hlock
  by_cases hmn : m = n
  · subst hmn
    rw [hd] at hm
    cases hm
    exact ⟨m, c, hmoved.self, huses.trans hc'⟩
  · exact ⟨m, c', (hmoved.others m hmn).trans hm, hc'⟩

/-- What holds of a locker between any two steps. -/
structure Good (l : Locker K ℕ) : Prop where
  inv : Inv l
  numbered : Numbered l
  occupied : Occupied l

theorem good_new : Good (Locker.new : Locker K ℕ) :=
  ⟨inv_new, fun n => by simp [Locker.new], fun key entry h => by simp [Locker.new] at h⟩

theorem good_acquire (h : Good l) (ha : l.acquire n = some l') : ∃ key entry,
    l.caller n = some (.waiting key entry) ∧ Good l' ∧ Moved l l' n (.holding key entry) := by
  obtain ⟨key, entry, hc, -, hmoved, -⟩ := acquire_cases h.inv ha
  simp only [Locker.acquire, hc] at ha
  split_ifs at ha
  cases ha
  exact ⟨key, entry, hc, ⟨hmoved.inv, h.numbered.of_move rfl rfl,
    h.occupied.of_moved (locks_move l n _) hmoved hc rfl⟩, hmoved⟩

theorem good_release (h : Good l) (hr : l.release n = some l') : ∃ key entry,
    l.caller n = some (.holding key entry) ∧ Good l' ∧ Moved l l' n (.leaving key entry) := by
  obtain ⟨key, entry, hc, hmoved, -⟩ := release_cases h.inv hr
  simp only [Locker.release, hc] at hr
  cases hr
  exact ⟨key, entry, hc, ⟨hmoved.inv, h.numbered.of_move rfl rfl,
    h.occupied.of_moved (locks_move l n _) hmoved hc rfl⟩, hmoved⟩

variable [DecidableEq K]

theorem good_drop (h : Good l) (hd : l.drop n = some l') : ∃ key entry,
    l.caller n = some (.leaving key entry) ∧ Good l' ∧ Moved l l' n .gone := by
  obtain ⟨key, entry, hc, hmoved, -⟩ := drop_cases h.inv hd
  simp only [Locker.drop, hc] at hd
  cases hd
  refine ⟨key, entry, hc, ?_, hmoved⟩
  have hnumbered : Numbered _ := h.numbered.of_move (n := n) (c := .gone) rfl rfl
  refine ⟨hmoved.inv, hnumbered, fun key' entry' hlock => ?_⟩
  have hold : l.locks key' = some entry' ∧ (key' = key → (l.entries entry).refs - 1 ≠ 0) := by
    dsimp only at hlock
    split_ifs at hlock with hlast
    · by_cases hkey : key' = key
      · rw [hkey, Function.update_self] at hlock
        cases hlock
      · rw [Function.update_of_ne hkey] at hlock
        exact ⟨hlock, fun heq => absurd heq hkey⟩
    · exact ⟨hlock, fun _ => hlast⟩
  obtain ⟨m, c, hm, huses⟩ := h.occupied key' entry' hold.1
  by_cases hmn : m = n
  · -- the call that leaves was counted, and so is another one
    subst hmn
    rw [hc] at hm
    cases hm
    cases huses
    have hcount := hmoved.inv.table.counted entry
    simp only [Function.update_self] at hcount
    have hpos := Nat.pos_of_ne_zero (hold.2 rfl)
    rw [hcount, List.countP_pos_iff] at hpos
    obtain ⟨d, hd, hcounts⟩ := hpos
    obtain ⟨k, hk⟩ := List.mem_iff_getElem?.1 hd
    simp only [Caller.counts, Option.any_eq_true, decide_eq_true_eq] at hcounts
    obtain ⟨⟨key'', _⟩, hd', rfl⟩ := hcounts
    have hsame := hmoved.inv.table.separate _ _ _ (hmoved.inv.table.mapped k d key'' _ hk hd') hlock
    subst hsame
    exact ⟨k, d, (hnumbered.caller k).trans hk, hd'⟩
  · exact ⟨m, c, (hmoved.others m hmn).trans hm, huses⟩

omit [DecidableEq K] in
theorem caller_length (h : Good l) : l.caller l.callers.length = none := by
  rw [h.numbered.caller]
  exact List.getElem?_eq_none (Nat.le_refl _)

theorem good_enter (h : Good l) (key : K) : ∃ entry, Good (l.enter l.callers.length key) ∧
    Moved l (l.enter l.callers.length key) l.callers.length (.waiting key entry) := by
  obtain ⟨entry, hmoved, -⟩ := enter_spec (t := l.callers.length) h.inv key
  obtain ⟨-, -, hcallers, hlatest⟩ := find_spec h.inv key
  have hnumbered : Numbered (l.enter l.callers.length key) := by
    intro n
    simp only [Locker.enter, hcallers, hlatest, List.length_append, List.length_singleton]
    by_cases hn : n = l.callers.length
    · subst hn
      rw [Function.update_self, if_pos (by omega)]
    · rw [Function.update_of_ne hn, h.numbered n]
      by_cases hlt : n < l.callers.length
      · rw [if_pos hlt, if_pos (by omega)]
      · rw [if_neg hlt, if_neg (by omega)]
  refine ⟨entry, ⟨hmoved.inv, hnumbered, fun key' entry' hlock => ?_⟩, hmoved⟩
  by_cases hkey : key' = key
  · subst hkey
    have hself := hmoved.self
    rw [hnumbered.caller] at hself
    have hentry := hmoved.inv.table.mapped _ _ key' entry hself rfl
    rw [hlock] at hentry
    cases hentry
    exact ⟨_, _, hmoved.self, rfl⟩
  · have hold : l.locks key' = some entry' := by
      simp only [Locker.enter, Locker.find] at hlock
      split at hlock
      · exact hlock
      · dsimp only at hlock
        rwa [Function.update_of_ne hkey] at hlock
    obtain ⟨m, c, hm, huses⟩ := h.occupied key' entry' hold
    refine ⟨m, c, (hmoved.others m ?_).trans hm, huses⟩
    rintro rfl
    rw [caller_length h] at hm
    cases hm

end Numbered

/-! ## The goroutines -/

/-- A goroutine stands in front of a call that waits for it. -/
def Pc.Fits (call : ℕ → Option (Caller Key)) (once : ℕ → Once) : Pc → Prop
  | locking n => ∃ key entry, call n = some (.waiting key entry)
  | freeing n => (∃ key entry, call n = some (.holding key entry)) ∧ once n = .running
  | dropping n => (∃ key entry, call n = some (.leaving key entry)) ∧ once n = .running
  | idle | awaiting _ => True

/-- The `Once` of a call is taken after the call has returned and before its mutex is free. -/
def Once.Fits : Option (Caller Key) → Once → Prop
  | none, once | some (.waiting _ _), once => once = fresh
  | some (.holding _ _), _ => True
  | some (.leaving _ _), once | some .gone, once => once ≠ fresh

structure Invariant (s : System G) : Prop where
  good : Good s.locker
  pc : ∀ g, (s.pc g).Fits s.call s.once
  single : ∀ g g' n, (s.pc g).works = some n → (s.pc g').works = some n → g = g'
  once : ∀ n, (s.once n).Fits (s.call n)

section Steps

variable {s s' : System G} {g : G} {n : ℕ} {c : Caller Key}

omit [DecidableEq G] in
theorem Invariant.call_of_works (h : Invariant s) (hg : (s.pc g).works = some n) : s.call n ≠ none := by
  have hfits := h.pc g
  cases hpc : s.pc g with
  | idle => simp [hpc, Pc.works] at hg
  | awaiting m => simp [hpc, Pc.works] at hg
  | locking m =>
    simp only [hpc, Pc.works, Pc.Fits, Option.some.injEq] at hg hfits
    obtain ⟨key, entry, hc⟩ := hfits
    simp [← hg, hc]
  | freeing m =>
    simp only [hpc, Pc.works, Pc.Fits, Option.some.injEq] at hg hfits
    obtain ⟨⟨key, entry, hc⟩, -⟩ := hfits
    simp [← hg, hc]
  | dropping m =>
    simp only [hpc, Pc.works, Pc.Fits, Option.some.injEq] at hg hfits
    obtain ⟨⟨key, entry, hc⟩, -⟩ := hfits
    simp [← hg, hc]

omit [DecidableEq G] in
theorem Pc.Fits.congr {call call' : ℕ → Option (Caller Key)} {once once' : ℕ → Once} {pc : Pc}
    (h : pc.Fits call once) (hcall : ∀ n, pc.works = some n → call' n = call n ∧ once' n = once n) :
    pc.Fits call' once' := by
  cases pc with
  | idle => trivial
  | awaiting m => trivial
  | locking m =>
    obtain ⟨hc, -⟩ := hcall m rfl
    simpa only [Pc.Fits, hc] using h
  | freeing m =>
    obtain ⟨hc, ho⟩ := hcall m rfl
    simpa only [Pc.Fits, hc, ho] using h
  | dropping m =>
    obtain ⟨hc, ho⟩ := hcall m rfl
    simpa only [Pc.Fits, hc, ho] using h

/-- One goroutine moves on, and with it at most the call of number `n`, in front of which no other
goroutine stands. -/
theorem Invariant.moved {l : Locker Key ℕ} {once : ℕ → Once} {pc : Pc} (h : Invariant s) (hgood : Good l)
    (hcalls : ∀ m, m ≠ n → l.caller m = s.call m) (honces : ∀ m, m ≠ n → once m = s.once m)
    (hothers : ∀ g', g' ≠ g → (s.pc g').works ≠ some n) (hworks : ∀ m, pc.works = some m → m = n)
    (hpc : pc.Fits l.caller once) (honce : (once n).Fits (l.caller n)) :
    Invariant ((⟨l, once, s.pc⟩ : System G).goto g pc) := by
  refine ⟨hgood, fun g' => ?_, fun g₁ g₂ m h₁ h₂ => ?_, fun m => ?_⟩
  · simp only [System.goto]
    by_cases hg : g' = g
    · subst hg
      rw [Function.update_self]
      exact hpc
    · rw [Function.update_of_ne hg]
      refine (h.pc g').congr fun m hm => ?_
      have hne : m ≠ n := by
        rintro rfl
        exact hothers g' hg hm
      exact ⟨hcalls m hne, honces m hne⟩
  · simp only [System.goto] at h₁ h₂
    by_cases hg₁ : g₁ = g <;> by_cases hg₂ : g₂ = g
    · exact hg₁.trans hg₂.symm
    · rw [hg₁, Function.update_self] at h₁
      rw [Function.update_of_ne hg₂, hworks m h₁] at h₂
      exact absurd h₂ (hothers g₂ hg₂)
    · rw [hg₂, Function.update_self] at h₂
      rw [Function.update_of_ne hg₁, hworks m h₂] at h₁
      exact absurd h₁ (hothers g₁ hg₁)
    · rw [Function.update_of_ne hg₁] at h₁
      rw [Function.update_of_ne hg₂] at h₂
      exact h.single g₁ g₂ m h₁ h₂
  · by_cases hm : m = n
    · subst hm
      exact honce
    · have hold := h.once m
      rw [← honces m hm, ← hcalls m hm] at hold
      exact hold

omit [DecidableEq G] in
/-- Nobody but the goroutine itself stands in front of its call. -/
theorem Invariant.others (h : Invariant s) (hg : (s.pc g).works = some n) (g' : G) (hne : g' ≠ g) :
    (s.pc g').works ≠ some n := fun hg' => hne (h.single g' g n hg' hg)

/-- A goroutine may come from and go to where it does not work at a call. -/
theorem Invariant.goto {pc : Pc} (h : Invariant s) (hworks : pc.works = none) : Invariant (s.goto g pc) := by
  refine h.moved (n := s.locker.callers.length) h.good (fun _ _ => rfl) (fun _ _ => rfl)
    (fun g' _ hg' => h.call_of_works hg' (caller_length h.good)) (fun m hm => ?_) ?_ (h.once _)
  · rw [hworks] at hm
    cases hm
  · cases pc with
    | idle => trivial
    | awaiting m => trivial
    | locking m => cases hworks
    | freeing m => cases hworks
    | dropping m => cases hworks

omit [DecidableEq G] in
/-- A call that has returned, and whose `Once` is fresh, holds its key, and nobody works at it. -/
theorem Invariant.holding_of_fresh (h : Invariant s) (hreturned : s.returned n = true)
    (hfresh : s.once n = .fresh) : (∃ key entry, s.call n = some (.holding key entry)) ∧
      ∀ g, (s.pc g).works ≠ some n := by
  have hholding : ∃ key entry, s.call n = some (.holding key entry) := by
    have hfits := h.once n
    rw [hfresh] at hfits
    simp only [System.returned] at hreturned
    cases hc : s.call n with
    | none => simp [hc] at hreturned
    | some c =>
      rw [hc] at hfits
      cases c with
      | waiting key entry => simp [hc] at hreturned
      | holding key entry => exact ⟨key, entry, rfl⟩
      | leaving key entry => exact absurd rfl hfits
      | gone => exact absurd rfl hfits
  refine ⟨hholding, fun g hg => ?_⟩
  have hfits := h.pc g
  obtain ⟨key, entry, hc⟩ := hholding
  cases hpc : s.pc g with
  | idle => simp [hpc, Pc.works] at hg
  | awaiting m => simp [hpc, Pc.works] at hg
  | locking m => simp_all [Pc.works, Pc.Fits]
  | freeing m => simp_all [Pc.works, Pc.Fits]
  | dropping m => simp_all [Pc.works, Pc.Fits]

theorem invariant_lock {key : Key} (h : Invariant s) (hstep : s.step (.lock g key) = some s') :
    Invariant s' := by
  simp only [System.step] at hstep
  split_ifs at hstep
  cases hstep
  obtain ⟨entry, hgood, hmoved⟩ := good_enter h.good key
  have hnone := caller_length h.good
  refine h.moved (n := s.locker.callers.length) hgood (fun m hm => hmoved.others m hm) (fun _ _ => rfl)
    (fun g' _ hg' => h.call_of_works hg' hnone) (fun m hm => (Option.some.inj hm).symm)
    ⟨key, entry, hmoved.self⟩ ?_
  have honce := h.once s.locker.callers.length
  rw [System.call, hnone] at honce
  rw [hmoved.self]
  exact honce

theorem invariant_acquire (h : Invariant s) (hstep : s.step (.acquire g) = some s') : Invariant s' := by
  simp only [System.step] at hstep
  split at hstep
  · rename_i n hpc
    obtain ⟨l, hl, rfl⟩ := Option.map_eq_some_iff.1 hstep
    obtain ⟨key, entry, hc, hgood, hmoved⟩ := good_acquire h.good hl
    refine h.moved (n := n) hgood (fun m hm => hmoved.others m hm) (fun _ _ => rfl)
      (h.others (by rw [hpc]; rfl)) (fun m hm => by cases hm) trivial ?_
    rw [hmoved.self]
    trivial
  · cases hstep

theorem invariant_unlock (h : Invariant s) (hstep : s.step (.unlock g n) = some s') : Invariant s' := by
  simp only [System.step] at hstep
  split_ifs at hstep with hcond
  split at hstep
  · rename_i hfresh
    cases hstep
    obtain ⟨⟨key, entry, hc⟩, hnobody⟩ := h.holding_of_fresh hcond.2 hfresh
    refine h.moved (n := n) h.good (fun _ _ => rfl) (fun m hm => Function.update_of_ne hm _ _)
      (fun g' _ => hnobody g') (fun m hm => (Option.some.inj hm).symm)
      ⟨⟨key, entry, hc⟩, Function.update_self _ _ _⟩ ?_
    change Once.Fits (s.call n) _
    rw [hc]
    trivial
  · cases hstep
    exact h.goto rfl
  · cases hstep
    exact h

theorem invariant_free (h : Invariant s) (hstep : s.step (.free g) = some s') : Invariant s' := by
  simp only [System.step] at hstep
  split at hstep
  · rename_i n hpc
    obtain ⟨l, hl, rfl⟩ := Option.map_eq_some_iff.1 hstep
    obtain ⟨key, entry, hc, hgood, hmoved⟩ := good_release h.good hl
    have hfits := h.pc g
    rw [hpc] at hfits
    refine h.moved (n := n) hgood (fun m hm => hmoved.others m hm) (fun _ _ => rfl)
      (h.others (by rw [hpc]; rfl)) (fun m hm => (Option.some.inj hm).symm)
      ⟨⟨key, entry, hmoved.self⟩, hfits.2⟩ ?_
    rw [hmoved.self, hfits.2]
    simp [Once.Fits]
  · cases hstep

theorem invariant_drop (h : Invariant s) (hstep : s.step (.drop g) = some s') : Invariant s' := by
  simp only [System.step] at hstep
  split at hstep
  · rename_i n hpc
    obtain ⟨l, hl, rfl⟩ := Option.map_eq_some_iff.1 hstep
    obtain ⟨key, entry, hc, hgood, hmoved⟩ := good_drop h.good hl
    refine h.moved (n := n) hgood (fun m hm => hmoved.others m hm)
      (fun m hm => Function.update_of_ne hm _ _) (h.others (by rw [hpc]; rfl)) (fun m hm => by cases hm)
      trivial ?_
    rw [hmoved.self, Function.update_self]
    simp [Once.Fits]
  · cases hstep

theorem invariant_resume (h : Invariant s) (hstep : s.step (.resume g) = some s') : Invariant s' := by
  simp only [System.step] at hstep
  split at hstep
  · split_ifs at hstep
    cases hstep
    exact h.goto rfl
  · cases hstep

theorem invariant_of_reachable (h : Reachable s) : Invariant s := by
  induction h with
  | new => exact ⟨good_new, fun _ => trivial, fun _ _ _ h => absurd h (by simp [System.new, Pc.works]), fun _ => rfl⟩
  | @step s s' e _ hstep ih =>
    cases e with
    | lock g key => exact invariant_lock ih hstep
    | acquire g => exact invariant_acquire ih hstep
    | unlock g n => exact invariant_unlock ih hstep
    | free g => exact invariant_free ih hstep
    | drop g => exact invariant_drop ih hstep
    | resume g => exact invariant_resume ih hstep

end Steps

end CoordinationLock
