import Mathlib.Data.List.Basic
import Mathlib.Logic.Function.Basic

/-! Mutual exclusion by key, with the mutex of a key made when it is first asked for and dropped when
nobody asks for it any more. A call registers in the table and counts itself there, waits for the mutex
it found, and on its way out frees the mutex before it counts itself off; the table has a mutex of its
own, which no call holds while it waits. Calls of one key meet in one mutex because the table keeps it
as long as one of them is counted. A thread that is lost leaves its call where it stands. -/
namespace KeyedLocker

/-- The mutex of a key. -/
structure Entry where
  held : Bool
  refs : ℕ
  deriving DecidableEq, Repr

/-- How far a call has come, with the mutex it has found. -/
inductive Caller (K : Type) where
  | waiting (key : K) (entry : ℕ)
  | holding (key : K) (entry : ℕ)
  | leaving (key : K) (entry : ℕ)
  | gone
  deriving DecidableEq, Repr

/-- The key and the mutex of a call that is counted. -/
def Caller.uses? {K : Type} : Caller K → Option (K × ℕ)
  | waiting key entry | holding key entry | leaving key entry => some (key, entry)
  | gone => none

def Caller.counts {K : Type} (entry : ℕ) (c : Caller K) : Bool := c.uses?.any (·.2 = entry)

structure Locker (K T : Type) where
  entries : ℕ → Entry
  allocated : ℕ
  locks : K → Option ℕ
  callers : List (Caller K)
  /-- The latest call of each thread. -/
  latest : T → Option ℕ

variable {K T : Type}

namespace Locker

def new : Locker K T := ⟨fun _ => ⟨false, 0⟩, 0, fun _ => none, [], fun _ => none⟩

/-- Where the latest call of a thread stands. -/
def caller (l : Locker K T) (t : T) : Option (Caller K) := l.latest t >>= fun n => l.callers[n]?

/-- Some call is inside the section of the key. -/
def Held (l : Locker K T) (key : K) : Prop :=
  ∃ n entry : ℕ, l.callers[n]? = some (Caller.holding key entry)

/-- The key of the section that a thread is in. -/
def holds (l : Locker K T) (t : T) : Option K :=
  match l.caller t with
  | some (.holding key _) => some key
  | _ => none

variable [DecidableEq K] [DecidableEq T]

/-- The mutex of a key, with the table that has it. -/
def find (l : Locker K T) (key : K) : ℕ × Locker K T :=
  match l.locks key with
  | some entry => (entry, l)
  | none => (l.allocated, { l with
      entries := Function.update l.entries l.allocated ⟨false, 0⟩
      allocated := l.allocated + 1
      locks := Function.update l.locks key (some l.allocated) })

/-- A call finds its mutex and counts itself, in one section of the table. -/
def enter (l : Locker K T) (t : T) (key : K) : Locker K T :=
  let (entry, l) := l.find key
  { l with
    entries := Function.update l.entries entry
      { l.entries entry with refs := (l.entries entry).refs + 1 }
    callers := l.callers ++ [.waiting key entry]
    latest := Function.update l.latest t (some l.callers.length) }

/-- The call of a thread moves on. -/
def move (l : Locker K T) (t : T) (c : Caller K) : Locker K T :=
  match l.latest t with
  | some n => { l with callers := l.callers.set n c }
  | none => l

/-- A mutex that is held blocks the call. -/
def acquire (l : Locker K T) (t : T) : Option (Locker K T) :=
  match l.caller t with
  | some (.waiting key entry) =>
    if (l.entries entry).held then none
    else some { l.move t (.holding key entry) with
      entries := Function.update l.entries entry { l.entries entry with held := true } }
  | _ => none

def release (l : Locker K T) (t : T) : Option (Locker K T) :=
  match l.caller t with
  | some (.holding key entry) => some { l.move t (.leaving key entry) with
      entries := Function.update l.entries entry { l.entries entry with held := false } }
  | _ => none

/-- A call counts itself off, and the last one takes the mutex out of the table. -/
def drop (l : Locker K T) (t : T) : Option (Locker K T) :=
  match l.caller t with
  | some (.leaving key entry) => some { l.move t .gone with
      entries := Function.update l.entries entry
        { l.entries entry with refs := (l.entries entry).refs - 1 }
      locks := if (l.entries entry).refs - 1 = 0 then Function.update l.locks key none else l.locks }
  | _ => none

end Locker

/-! ## Calls that move -/

section Calls

variable {callers : List (Caller K)} {n m : ℕ} {c d : Caller K} {key : K} {entry : ℕ}

theorem getElem?_set_eq_some (hn : n < callers.length) :
    (callers.set n c)[m]? = some d ↔ m = n ∧ d = c ∨ m ≠ n ∧ callers[m]? = some d := by
  rw [List.getElem?_set]
  by_cases hm : n = m
  · subst hm
    simp [hn, eq_comm]
  · simp [hm, Ne.symm hm]

theorem getElem?_append_eq_some :
    (callers ++ [c])[m]? = some d ↔ m = callers.length ∧ d = c ∨ callers[m]? = some d := by
  rw [List.getElem?_append]
  by_cases hm : m < callers.length
  · simp [hm, Nat.ne_of_lt hm]
  · rw [if_neg hm, List.getElem?_eq_none (Nat.le_of_not_lt hm), List.getElem?_singleton]
    by_cases heq : m = callers.length
    · subst heq
      simp [eq_comm]
    · have hpos : m - callers.length ≠ 0 := by omega
      simp [heq, hpos]

theorem countP_pos_of_uses (hd : callers[m]? = some d) (huses : d.uses? = some (key, entry)) :
    0 < callers.countP (·.counts entry) := by
  refine List.countP_pos_iff.2 ⟨d, List.mem_of_getElem? hd, ?_⟩
  simp only [Caller.counts, huses, Option.any_some, decide_true]

theorem countP_set_counts (hd : callers[n]? = some d) (entry : ℕ) :
    (callers.set n c).countP (·.counts entry) + (if d.counts entry then 1 else 0) =
      callers.countP (·.counts entry) + if c.counts entry then 1 else 0 := by
  obtain ⟨hn, hget⟩ := List.getElem?_eq_some_iff.1 hd
  rw [List.countP_set hn, hget]
  have hpos : d.counts entry = true → 0 < callers.countP (·.counts entry) := fun hcounts =>
    List.countP_pos_iff.2 ⟨d, hget ▸ List.getElem_mem hn, hcounts⟩
  split
  · rename_i hcounts
    have := hpos hcounts
    split <;> omega
  · split <;> omega

end Calls

/-! ## The mutexes -/

def Caller.inside : Caller K → Bool
  | holding _ _ => true
  | _ => false

/-- A mutex is held exactly while one call is inside with it. -/
structure Exclusive (held : ℕ → Bool) (callers : List (Caller K)) : Prop where
  held : ∀ entry, held entry = true ↔ ∃ (n : ℕ) (key : K), callers[n]? = some (.holding key entry)
  single : ∀ (n n' : ℕ) (key key' : K) entry, callers[n]? = some (.holding key entry) →
    callers[n']? = some (.holding key' entry) → n = n'

namespace Exclusive

variable {held : ℕ → Bool} {callers : List (Caller K)} {n : ℕ} {c d : Caller K} {key : K} {entry : ℕ}

/-- The calls inside, after one outside has moved and is still outside. -/
theorem set_outside (h : Exclusive held callers) (hd : callers[n]? = some d) (hout : d.inside = false)
    (hc : c.inside = false) : Exclusive held (callers.set n c) := by
  have hn := (List.getElem?_eq_some_iff.1 hd).1
  have hset : ∀ (m : ℕ) (key : K) (entry : ℕ), (callers.set n c)[m]? = some (.holding key entry) ↔
      callers[m]? = some (.holding key entry) := by
    intro m key entry
    rw [getElem?_set_eq_some hn]
    constructor
    · rintro (⟨_, rfl⟩ | ⟨_, hm⟩)
      · exact absurd hc nofun
      · exact hm
    · intro hm
      refine .inr ⟨?_, hm⟩
      rintro rfl
      rw [hd] at hm
      cases hm
      exact absurd hout nofun
  constructor
  · intro entry
    simp only [hset]
    exact h.held entry
  · intro m m' key key' entry hm hm'
    exact h.single m m' key key' entry ((hset m key entry).1 hm) ((hset m' key' entry).1 hm')

theorem append_outside (h : Exclusive held callers) (hc : c.inside = false) :
    Exclusive held (callers ++ [c]) := by
  have happend : ∀ (m : ℕ) (key : K) (entry : ℕ), (callers ++ [c])[m]? = some (.holding key entry) ↔
      callers[m]? = some (.holding key entry) := by
    intro m key entry
    rw [getElem?_append_eq_some]
    constructor
    · rintro (⟨_, rfl⟩ | hm)
      · exact absurd hc nofun
      · exact hm
    · exact .inr
  constructor
  · intro entry
    simp only [happend]
    exact h.held entry
  · intro m m' key key' entry hm hm'
    exact h.single m m' key key' entry ((happend m key entry).1 hm) ((happend m' key' entry).1 hm')

theorem nobody (h : Exclusive held callers) (hfree : held entry = false) (m : ℕ) (key : K) :
    callers[m]? ≠ some (.holding key entry) := by
  intro hm
  exact absurd (hfree.symm.trans ((h.held entry).2 ⟨m, key, hm⟩)) nofun

theorem take (h : Exclusive held callers) (hd : callers[n]? = some d) (hout : d.inside = false)
    (hfree : held entry = false) :
    Exclusive (Function.update held entry true) (callers.set n (.holding key entry)) := by
  have hn := (List.getElem?_eq_some_iff.1 hd).1
  constructor
  · intro entry'
    by_cases he : entry' = entry
    · subst he
      rw [Function.update_self]
      exact ⟨fun _ => ⟨n, key, (getElem?_set_eq_some hn).2 (.inl ⟨rfl, rfl⟩)⟩, fun _ => rfl⟩
    · rw [Function.update_of_ne he, h.held entry']
      constructor
      · rintro ⟨m, key', hm⟩
        refine ⟨m, key', (getElem?_set_eq_some hn).2 (.inr ⟨?_, hm⟩)⟩
        rintro rfl
        rw [hd] at hm
        cases hm
        exact absurd hout nofun
      · rintro ⟨m, key', hm⟩
        rcases (getElem?_set_eq_some hn).1 hm with ⟨_, heq⟩ | ⟨_, hm⟩
        · cases heq
          exact absurd rfl he
        · exact ⟨m, key', hm⟩
  · intro m m' key₁ key₂ entry' hm hm'
    rcases (getElem?_set_eq_some hn).1 hm with ⟨heq, hcall⟩ | ⟨_, hold⟩ <;>
      rcases (getElem?_set_eq_some hn).1 hm' with ⟨heq', hcall'⟩ | ⟨_, hold'⟩
    · exact heq.trans heq'.symm
    · cases hcall
      exact absurd hold' (h.nobody hfree m' key₂)
    · cases hcall'
      exact absurd hold (h.nobody hfree m key₁)
    · exact h.single m m' key₁ key₂ entry' hold hold'

theorem free (h : Exclusive held callers) (hd : callers[n]? = some (.holding key entry))
    (hc : c.inside = false) : Exclusive (Function.update held entry false) (callers.set n c) := by
  have hn := (List.getElem?_eq_some_iff.1 hd).1
  have hrest : ∀ {m : ℕ} {key' : K} {entry' : ℕ}, (callers.set n c)[m]? = some (.holding key' entry') →
      m ≠ n ∧ callers[m]? = some (.holding key' entry') := by
    intro m key' entry' hm
    rcases (getElem?_set_eq_some hn).1 hm with ⟨_, rfl⟩ | hm
    · exact absurd hc nofun
    · exact hm
  constructor
  · intro entry'
    by_cases he : entry' = entry
    · subst he
      rw [Function.update_self]
      refine ⟨nofun, ?_⟩
      rintro ⟨m, key', hm⟩
      obtain ⟨hne, hm⟩ := hrest hm
      exact absurd (h.single m n key' key entry' hm hd) hne
    · rw [Function.update_of_ne he, h.held entry']
      constructor
      · rintro ⟨m, key', hm⟩
        refine ⟨m, key', (getElem?_set_eq_some hn).2 (.inr ⟨?_, hm⟩)⟩
        rintro rfl
        rw [hd] at hm
        cases hm
        exact he rfl
      · rintro ⟨m, key', hm⟩
        exact ⟨m, key', (hrest hm).2⟩
  · intro m m' key₁ key₂ entry' hm hm'
    exact h.single m m' key₁ key₂ entry' (hrest hm).2 (hrest hm').2

end Exclusive

/-! ## The table -/

/-- The mutex of every counted call is found under its key, and counts it. -/
structure Table (refs : ℕ → ℕ) (locks : K → Option ℕ) (allocated : ℕ) (callers : List (Caller K)) :
    Prop where
  allocated : ∀ key entry, locks key = some entry → entry < allocated
  separate : ∀ key key' entry, locks key = some entry → locks key' = some entry → key = key'
  mapped : ∀ (n : ℕ) c key entry, callers[n]? = some c → c.uses? = some (key, entry) →
    locks key = some entry
  counted : ∀ entry, refs entry = callers.countP (·.counts entry)

namespace Table

variable {refs : ℕ → ℕ} {locks : K → Option ℕ} {allocated : ℕ} {callers : List (Caller K)} {n : ℕ}
  {c d : Caller K} {key : K} {entry : ℕ}

theorem set_same (h : Table refs locks allocated callers) (hd : callers[n]? = some d)
    (huses : c.uses? = d.uses?) : Table refs locks allocated (callers.set n c) := by
  have hn := (List.getElem?_eq_some_iff.1 hd).1
  refine ⟨h.allocated, h.separate, fun m e key entry hm he => ?_, fun entry => ?_⟩
  · rcases (getElem?_set_eq_some hn).1 hm with ⟨_, rfl⟩ | ⟨_, hm⟩
    · exact h.mapped n d key entry hd (huses.symm.trans he)
    · exact h.mapped m e key entry hm he
  · have hcount := countP_set_counts (c := c) hd entry
    have hcounts : c.counts entry = d.counts entry := by
      simp only [Caller.counts, huses]
    rw [hcounts] at hcount
    rw [h.counted entry]
    omega

variable [DecidableEq K]

/-- A mutex that is made belongs to nobody yet. -/
theorem allocate (h : Table refs locks allocated callers) (hnone : locks key = none) :
    Table (Function.update refs allocated 0) (Function.update locks key (some allocated)) (allocated + 1)
      callers := by
  have hnew : ∀ key' entry', Function.update locks key (some allocated) key' = some entry' →
      key' = key ∧ entry' = allocated ∨ key' ≠ key ∧ locks key' = some entry' := by
    intro key' entry' hlock
    by_cases hk : key' = key
    · subst hk
      rw [Function.update_self] at hlock
      cases hlock
      exact .inl ⟨rfl, rfl⟩
    · rw [Function.update_of_ne hk] at hlock
      exact .inr ⟨hk, hlock⟩
  refine ⟨fun key' entry' hlock => ?_, fun key₁ key₂ entry' h₁ h₂ => ?_, fun m e key' entry' hm he => ?_,
    fun entry' => ?_⟩
  · rcases hnew key' entry' hlock with ⟨_, rfl⟩ | ⟨_, hlock⟩
    · exact Nat.lt_succ_self _
    · exact Nat.lt_succ_of_lt (h.allocated key' entry' hlock)
  · rcases hnew key₁ entry' h₁ with ⟨hk₁, he₁⟩ | ⟨_, hold₁⟩ <;>
      rcases hnew key₂ entry' h₂ with ⟨hk₂, he₂⟩ | ⟨_, hold₂⟩
    · exact hk₁.trans hk₂.symm
    · exact absurd (he₁ ▸ h.allocated key₂ entry' hold₂) (Nat.lt_irrefl _)
    · exact absurd (he₂ ▸ h.allocated key₁ entry' hold₁) (Nat.lt_irrefl _)
    · exact h.separate key₁ key₂ entry' hold₁ hold₂
  · have hlock := h.mapped m e key' entry' hm he
    have hk : key' ≠ key := by
      rintro rfl
      rw [hnone] at hlock
      cases hlock
    rw [Function.update_of_ne hk]
    exact hlock
  · by_cases he : entry' = allocated
    · subst he
      rw [Function.update_self, eq_comm, List.countP_eq_zero]
      intro c hc hcounts
      obtain ⟨m, hm⟩ := List.mem_iff_getElem?.1 hc
      simp only [Caller.counts, Option.any_eq_true, decide_eq_true_eq] at hcounts
      obtain ⟨⟨key', _⟩, huses, rfl⟩ := hcounts
      exact absurd (h.allocated key' _ (h.mapped m c key' _ hm huses)) (Nat.lt_irrefl _)
    · rw [Function.update_of_ne he]
      exact h.counted entry'

omit [DecidableEq K] in
theorem join (h : Table refs locks allocated callers) (hlock : locks key = some entry)
    (hc : c.uses? = some (key, entry)) :
    Table (Function.update refs entry (refs entry + 1)) locks allocated (callers ++ [c]) := by
  refine ⟨h.allocated, h.separate, fun m e key' entry' hm he => ?_, fun entry' => ?_⟩
  · rcases getElem?_append_eq_some.1 hm with ⟨_, rfl⟩ | hm
    · rw [hc] at he
      cases he
      exact hlock
    · exact h.mapped m e key' entry' hm he
  · rw [List.countP_append, List.countP_singleton]
    by_cases he : entry' = entry
    · subst he
      have hcounts : c.counts entry' = true := by
        simp only [Caller.counts, hc, Option.any_some, decide_true]
      rw [Function.update_self, h.counted entry', if_pos hcounts]
    · have hcounts : c.counts entry' = false := by
        simp only [Caller.counts, hc, Option.any_some, Ne.symm he, decide_false]
      rw [Function.update_of_ne he, h.counted entry', hcounts]
      rfl

/-- The last call that a mutex counts takes it out of the table. -/
theorem leave (h : Table refs locks allocated callers) (hd : callers[n]? = some d)
    (huses : d.uses? = some (key, entry)) (hc : c.uses? = none) :
    Table (Function.update refs entry (refs entry - 1))
      (if refs entry - 1 = 0 then Function.update locks key none else locks) allocated
      (callers.set n c) := by
  have hn := (List.getElem?_eq_some_iff.1 hd).1
  have hcounts : ∀ entry', d.counts entry' = decide (entry = entry') := fun entry' => by
    simp only [Caller.counts, huses, Option.any_some]
  have hcounts' : ∀ entry', c.counts entry' = false := fun entry' => by
    simp only [Caller.counts, hc, Option.any_none]
  have hless : ∀ key' entry', (if refs entry - 1 = 0 then Function.update locks key none else locks) key' =
      some entry' → locks key' = some entry' := by
    intro key' entry' hlock
    split at hlock
    · by_cases hk : key' = key
      · subst hk
        rw [Function.update_self] at hlock
        cases hlock
      · rwa [Function.update_of_ne hk] at hlock
    · exact hlock
  have hcount := countP_set_counts (c := c) hd
  simp only [hcounts, hcounts', ← h.counted] at hcount
  refine ⟨fun key' entry' hlock => h.allocated key' entry' (hless key' entry' hlock),
    fun key₁ key₂ entry' h₁ h₂ => h.separate key₁ key₂ entry' (hless _ _ h₁) (hless _ _ h₂),
    fun m e key' entry' hm he => ?_, fun entry' => ?_⟩
  · have hrest := hm
    rcases (getElem?_set_eq_some hn).1 hm with ⟨_, rfl⟩ | ⟨_, hm⟩
    · rw [hc] at he
      cases he
    · have hlock := h.mapped m e key' entry' hm he
      split
      · rename_i hlast
        -- another call of the key would still be counted
        have hk : key' ≠ key := by
          rintro rfl
          have hsame : entry' = entry :=
            Option.some.inj (hlock.symm.trans (h.mapped n d key' entry hd huses))
          subst hsame
          have hpos := countP_pos_of_uses hrest he
          have := hcount entry'
          simp only [decide_true, if_true, Bool.false_eq_true, if_false] at this
          omega
        rw [Function.update_of_ne hk]
        exact hlock
      · exact hlock
  · have := hcount entry'
    by_cases he : entry' = entry
    · subst he
      simp only [decide_true, if_true, Bool.false_eq_true, if_false] at this
      rw [Function.update_self]
      omega
    · simp only [Ne.symm he, decide_false, Bool.false_eq_true, if_false] at this
      rw [Function.update_of_ne he]
      omega

end Table

/-! ## The operations -/

structure Inv (l : Locker K T) : Prop where
  bounded : ∀ t (n : ℕ), l.latest t = some n → n < l.callers.length
  own : ∀ t u (n : ℕ), l.latest t = some n → l.latest u = some n → t = u
  table : Table (fun e => (l.entries e).refs) l.locks l.allocated l.callers
  exclusive : Exclusive (fun e => (l.entries e).held) l.callers

theorem inv_new : Inv (Locker.new : Locker K T) where
  bounded := nofun
  own := nofun
  table := ⟨nofun, nofun, fun n c key entry h => by simp [Locker.new] at h, fun _ => rfl⟩
  exclusive := ⟨fun entry => by simp [Locker.new], fun n n' key key' entry h => by simp [Locker.new] at h⟩

namespace Locker

variable {l : Locker K T} {t u : T} {c : Caller K} {key : K}

theorem caller_eq_some : l.caller t = some c ↔ ∃ n : ℕ, l.latest t = some n ∧ l.callers[n]? = some c := by
  simp only [caller, Option.bind_eq_bind, Option.bind_eq_some_iff]

theorem holds_eq_some : l.holds t = some key ↔ ∃ entry, l.caller t = some (.holding key entry) := by
  simp only [holds]
  constructor
  · intro h
    split at h
    · rename_i entry hc
      cases h
      exact ⟨entry, hc⟩
    · cases h
  · rintro ⟨entry, hc⟩
    rw [hc]

end Locker

/-- One thread has made an operation, and the calls of the others stand where they stood. -/
structure Moved (l l' : Locker K T) (t : T) (c : Caller K) : Prop where
  inv : Inv l'
  self : l'.caller t = some c
  others : ∀ u, u ≠ t → l'.caller u = l.caller u

section Operations

variable {l l' : Locker K T} {t : T} {n : ℕ} {c : Caller K}

/-- The call of a thread has moved, and the table and the mutexes agree with that. -/
theorem moved_set (h : Inv l) (hlatest : l.latest t = some n) {entries : ℕ → Entry}
    {locks : K → Option ℕ}
    (htable : Table (fun e => (entries e).refs) locks l.allocated (l.callers.set n c))
    (hexclusive : Exclusive (fun e => (entries e).held) (l.callers.set n c)) :
    Moved l { l with entries := entries, locks := locks, callers := l.callers.set n c } t c := by
  have hn := h.bounded t n hlatest
  refine ⟨⟨fun u m hu => ?_, h.own, htable, hexclusive⟩, ?_, fun u hu => ?_⟩
  · rw [List.length_set]
    exact h.bounded u m hu
  · simp only [Locker.caller, hlatest]
    exact List.getElem?_set_self hn
  · simp only [Locker.caller]
    cases hlatest' : l.latest u with
    | none => rfl
    | some m =>
      have hne : n ≠ m := fun heq => hu (h.own u t n (heq ▸ hlatest') hlatest)
      exact List.getElem?_set_ne hne

theorem held_update (entries : ℕ → Entry) (entry : ℕ) (held : Bool) :
    (fun e => (Function.update entries entry { entries entry with held := held } e).held) =
      Function.update (fun e => (entries e).held) entry held := by
  funext e
  by_cases he : e = entry
  · subst he
    simp only [Function.update_self]
  · simp only [Function.update_of_ne he]

theorem refs_update_held (entries : ℕ → Entry) (entry : ℕ) (held : Bool) :
    (fun e => (Function.update entries entry { entries entry with held := held } e).refs) =
      fun e => (entries e).refs := by
  funext e
  by_cases he : e = entry
  · subst he
    simp only [Function.update_self]
  · simp only [Function.update_of_ne he]

theorem refs_update (entries : ℕ → Entry) (entry refs : ℕ) :
    (fun e => (Function.update entries entry { entries entry with refs := refs } e).refs) =
      Function.update (fun e => (entries e).refs) entry refs := by
  funext e
  by_cases he : e = entry
  · subst he
    simp only [Function.update_self]
  · simp only [Function.update_of_ne he]

theorem held_update_refs (entries : ℕ → Entry) (entry refs : ℕ) :
    (fun e => (Function.update entries entry { entries entry with refs := refs } e).held) =
      fun e => (entries e).held := by
  funext e
  by_cases he : e = entry
  · subst he
    simp only [Function.update_self]
  · simp only [Function.update_of_ne he]

/-- Taking a free mutex: nobody was in the section of its key, and now the thread is. -/
theorem acquire_cases (h : Inv l) (ha : l.acquire t = some l') : ∃ key entry,
    l.caller t = some (.waiting key entry) ∧ ¬ l.Held key ∧ Moved l l' t (.holding key entry) ∧
      ∀ key', l'.Held key' ↔ key' = key ∨ l.Held key' := by
  simp only [Locker.acquire] at ha
  split at ha
  · rename_i key entry hcaller
    split at ha
    · cases ha
    · rename_i hheld
      have hfree : (fun e => (l.entries e).held) entry = false := Bool.eq_false_iff.mpr hheld
      obtain ⟨n, hlatest, hn⟩ := Locker.caller_eq_some.1 hcaller
      have hlt := h.bounded t n hlatest
      simp only [Locker.move, hlatest, Option.some.injEq] at ha
      subst ha
      refine ⟨key, entry, hcaller, ?_, moved_set h hlatest ?_ ?_, fun key' => ?_⟩
      · rintro ⟨m, entry', hm⟩
        have hsame : entry' = entry := Option.some.inj
          ((h.table.mapped m _ key entry' hm rfl).symm.trans (h.table.mapped n _ key entry hn rfl))
        exact h.exclusive.nobody hfree m key (hsame ▸ hm)
      · rw [refs_update_held]
        exact h.table.set_same hn rfl
      · rw [held_update]
        exact h.exclusive.take hn rfl hfree
      · constructor
        · rintro ⟨m, entry', hm⟩
          rcases (getElem?_set_eq_some hlt).1 hm with ⟨_, heq⟩ | ⟨_, hm⟩
          · cases heq
            exact .inl rfl
          · exact .inr ⟨m, entry', hm⟩
        · rintro (rfl | ⟨m, entry', hm⟩)
          · exact ⟨n, entry, (getElem?_set_eq_some hlt).2 (.inl ⟨rfl, rfl⟩)⟩
          · refine ⟨m, entry', (getElem?_set_eq_some hlt).2 (.inr ⟨?_, hm⟩)⟩
            rintro rfl
            rw [hn] at hm
            cases hm
  · cases ha

theorem release_cases (h : Inv l) (hr : l.release t = some l') : ∃ key entry,
    l.caller t = some (.holding key entry) ∧ Moved l l' t (.leaving key entry) ∧
      ∀ key', l'.Held key' ↔ key' ≠ key ∧ l.Held key' := by
  simp only [Locker.release] at hr
  split at hr
  · rename_i key entry hcaller
    obtain ⟨n, hlatest, hn⟩ := Locker.caller_eq_some.1 hcaller
    have hlt := h.bounded t n hlatest
    simp only [Locker.move, hlatest, Option.some.injEq] at hr
    subst hr
    refine ⟨key, entry, hcaller, moved_set h hlatest ?_ ?_, fun key' => ?_⟩
    · rw [refs_update_held]
      exact h.table.set_same hn rfl
    · rw [held_update]
      exact h.exclusive.free hn rfl
    · constructor
      · rintro ⟨m, entry', hm⟩
        rcases (getElem?_set_eq_some hlt).1 hm with ⟨_, heq⟩ | ⟨hne, hold⟩
        · cases heq
        · refine ⟨fun hkey => ?_, m, entry', hold⟩
          have hsame : entry' = entry := Option.some.inj
            ((h.table.mapped m _ key' entry' hold rfl).symm.trans
              (hkey ▸ h.table.mapped n _ key entry hn rfl))
          exact hne (h.exclusive.single m n key' key entry (hsame ▸ hold) hn)
      · rintro ⟨hne, m, entry', hm⟩
        refine ⟨m, entry', (getElem?_set_eq_some hlt).2 (.inr ⟨?_, hm⟩)⟩
        rintro rfl
        rw [hn] at hm
        cases hm
        exact hne rfl
  · cases hr

variable [DecidableEq K]

theorem drop_cases (h : Inv l) (hd : l.drop t = some l') : ∃ key entry,
    l.caller t = some (.leaving key entry) ∧ Moved l l' t .gone ∧ ∀ key', l'.Held key' ↔ l.Held key' := by
  simp only [Locker.drop] at hd
  split at hd
  · rename_i key entry hcaller
    obtain ⟨n, hlatest, hn⟩ := Locker.caller_eq_some.1 hcaller
    have hlt := h.bounded t n hlatest
    simp only [Locker.move, hlatest, Option.some.injEq] at hd
    subst hd
    refine ⟨key, entry, hcaller, moved_set h hlatest ?_ ?_, fun key' => ?_⟩
    · rw [refs_update]
      exact h.table.leave hn rfl rfl
    · rw [held_update_refs]
      exact h.exclusive.set_outside hn rfl rfl
    · constructor
      · rintro ⟨m, entry', hm⟩
        rcases (getElem?_set_eq_some hlt).1 hm with ⟨_, heq⟩ | ⟨_, hm⟩
        · cases heq
        · exact ⟨m, entry', hm⟩
      · rintro ⟨m, entry', hm⟩
        refine ⟨m, entry', (getElem?_set_eq_some hlt).2 (.inr ⟨?_, hm⟩)⟩
        rintro rfl
        rw [hn] at hm
        cases hm
  · cases hd

/-- The mutex of a key is in the table that `find` returns, whose calls are the same. -/
theorem find_spec (h : Inv l) (key : K) :
    (l.find key).2.locks key = some (l.find key).1 ∧ Inv (l.find key).2 ∧
      (l.find key).2.callers = l.callers ∧ (l.find key).2.latest = l.latest := by
  simp only [Locker.find]
  split
  · rename_i entry hlock
    exact ⟨hlock, h, rfl, rfl⟩
  · rename_i hnone
    refine ⟨Function.update_self _ _ _, ⟨h.bounded, h.own, ?_, ?_⟩, rfl, rfl⟩
    · have hrefs : (fun e => (Function.update l.entries l.allocated ⟨false, 0⟩ e).refs) =
          Function.update (fun e => (l.entries e).refs) l.allocated 0 := by
        funext e
        by_cases he : e = l.allocated
        · subst he
          simp only [Function.update_self]
        · simp only [Function.update_of_ne he]
      rw [hrefs]
      exact h.table.allocate hnone
    · have hnobody : ∀ (m : ℕ) (key : K), l.callers[m]? ≠ some (.holding key l.allocated) := by
        intro m key' hm
        exact absurd (h.table.allocated key' _ (h.table.mapped m _ key' _ hm rfl)) (Nat.lt_irrefl _)
      have hheld : (fun e => (Function.update l.entries l.allocated ⟨false, 0⟩ e).held) =
          fun e => (l.entries e).held := by
        funext e
        by_cases he : e = l.allocated
        · subst he
          rw [Function.update_self, eq_comm, Bool.eq_false_iff]
          intro hheld
          obtain ⟨m, key', hm⟩ := (h.exclusive.held l.allocated).1 hheld
          exact hnobody m key' hm
        · simp only [Function.update_of_ne he]
      rw [hheld]
      exact h.exclusive

variable [DecidableEq T]

theorem enter_spec (h : Inv l) (key : K) : ∃ entry, Moved l (l.enter t key) t (.waiting key entry) ∧
    ∀ key', (l.enter t key).Held key' ↔ l.Held key' := by
  obtain ⟨hlock, hinv, hcallers, hlatest⟩ := find_spec h key
  simp only [Locker.enter]
  generalize l.find key = found at hlock hinv hcallers hlatest
  obtain ⟨entry, f⟩ := found
  dsimp only at hlock hinv hcallers hlatest ⊢
  refine ⟨entry, ⟨⟨fun u m hu => ?_, fun u v m hu hv => ?_, ?_, ?_⟩, ?_, fun u hu => ?_⟩, fun key' => ?_⟩
  · dsimp only at hu ⊢
    rw [List.length_append, List.length_singleton]
    by_cases hut : u = t
    · subst hut
      rw [Function.update_self] at hu
      cases hu
      omega
    · rw [Function.update_of_ne hut] at hu
      have := hinv.bounded u m hu
      omega
  · -- the number of the new call is larger than any before
    dsimp only at hu hv
    by_cases hut : u = t <;> by_cases hvt : v = t
    · exact hut.trans hvt.symm
    · rw [hut, Function.update_self] at hu
      rw [Function.update_of_ne hvt] at hv
      cases hu
      exact absurd (hinv.bounded v _ hv) (Nat.lt_irrefl _)
    · rw [hvt, Function.update_self] at hv
      rw [Function.update_of_ne hut] at hu
      cases hv
      exact absurd (hinv.bounded u _ hu) (Nat.lt_irrefl _)
    · rw [Function.update_of_ne hut] at hu
      rw [Function.update_of_ne hvt] at hv
      exact hinv.own u v m hu hv
  · rw [refs_update]
    exact hinv.table.join hlock rfl
  · rw [held_update_refs]
    exact hinv.exclusive.append_outside rfl
  · simp only [Locker.caller, Function.update_self]
    exact getElem?_append_eq_some.2 (.inl ⟨rfl, rfl⟩)
  · simp only [Locker.caller, Function.update_of_ne hu, hlatest, hcallers]
    cases hlatest' : l.latest u with
    | none => rfl
    | some m => exact List.getElem?_append_left (h.bounded u m hlatest')
  · simp only [Locker.Held, hcallers]
    constructor
    · rintro ⟨m, entry', hm⟩
      rcases getElem?_append_eq_some.1 hm with ⟨_, heq⟩ | hm
      · cases heq
      · exact ⟨m, entry', hm⟩
    · rintro ⟨m, entry', hm⟩
      exact ⟨m, entry', getElem?_append_eq_some.2 (.inr hm)⟩

end Operations

end KeyedLocker
