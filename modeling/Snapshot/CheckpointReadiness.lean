import Mathlib.Data.List.Basic
import Mathlib.Algebra.Order.Ring.Int

/-! The gate of `agent/internal/controller/checkpoint_readiness.go` in front of a checkpoint: which checks of
the source container it makes when it is asked again and again, through restarts of the container and pauses
in which it does not run, and what it may then report. -/
namespace CheckpointReadiness

/-- Nanoseconds since the zero `time.Time`. -/
abbrev Time := ℤ

def second : ℤ := 1000000000

structure CheckpointReadinessProbe (Action : Type) where
  file : Option String
  httpGet : Option Action
  initialDelaySeconds : ℤ
  periodSeconds : ℤ
  timeoutSeconds : ℤ
  successThreshold : ℤ
  deriving DecidableEq, Repr

inductive Handler (Action : Type) where
  | readyCondition
  | fileProbe (path : String)
  | httpProbe (action : Action)
  deriving DecidableEq, Repr

structure Gate (Action : Type) where
  handler : Handler Action
  initialDelay : ℤ := 0
  period : ℤ := 0
  timeout : ℤ := 0
  threshold : ℤ
  emitEvents : Bool := false
  containerID : String := ""
  /-- An `int32`. -/
  successes : ℤ := 0
  nextCheck : Time := 0
  deriving DecidableEq, Repr

variable {Action : Type}

def newCheckpointGate : Option (CheckpointReadinessProbe Action) → Except String (Gate Action)
  | none => .ok { handler := .readyCondition, threshold := 1 }
  | some probe =>
    let gate (handler : Handler Action) : Gate Action :=
      { handler
        initialDelay := probe.initialDelaySeconds * second
        period := probe.periodSeconds * second
        timeout := probe.timeoutSeconds * second
        threshold := max probe.successThreshold 1
        emitEvents := true }
    match probe.file, probe.httpGet with
    | some path, _ => .ok (gate (.fileProbe path))
    | none, some action => .ok (gate (.httpProbe action))
    | none, none => .error "it has neither file nor httpGet"

structure ContainerStatus where
  containerID : String
  /-- `State.Running`, with its `StartedAt`. -/
  running : Option Time
  deriving DecidableEq, Repr

/-- One call of `runProbeIfDue`, with what the handler would answer if it is asked. -/
structure Call where
  status : Option ContainerStatus
  now : Time
  succeeds : Bool
  deriving DecidableEq, Repr

/-- The container that runs: its ID and its start. -/
def Call.container (c : Call) : Option (String × Time) :=
  c.status >>= fun status => status.running.map fun startedAt => (status.containerID, startedAt)

/-- A call and its answer, and whether the handler was asked. -/
structure Outcome where
  call : Call
  probed : Bool
  ready : Bool
  next : Time
  deriving DecidableEq, Repr

namespace Gate

def resetIfNewContainer (g : Gate Action) (containerID : String) (startedAt : Time) : Gate Action :=
  if g.containerID = containerID then g
  else { g with containerID, successes := 0, nextCheck := startedAt + g.initialDelay }

/-- The count is an `int32` and wraps. -/
def count (g : Gate Action) (succeeds : Bool) : ℤ :=
  if succeeds then (g.successes + 1).bmod (2 ^ 32) else 0

def runProbe (g : Gate Action) (c : Call) : Outcome × Gate Action :=
  let g := { g with nextCheck := c.now + g.period, successes := g.count c.succeeds }
  if g.threshold ≤ g.successes then (⟨c, true, true, 0⟩, g)
  else if g.period = 0 then (⟨c, true, false, 0⟩, g)
  else (⟨c, true, false, g.nextCheck⟩, g)

def runProbeIfDue (g : Gate Action) (c : Call) : Outcome × Gate Action :=
  match c.container with
  | none => (⟨c, false, false, 0⟩, g)
  | some (containerID, startedAt) =>
    let g := g.resetIfNewContainer containerID startedAt
    if c.now < g.nextCheck then (⟨c, false, false, g.nextCheck⟩, g) else g.runProbe c

/-- The answers to a sequence of calls. -/
def history : Gate Action → List Call → List Outcome
  | _, [] => []
  | g, c :: calls => (g.runProbeIfDue c).1 :: history (g.runProbeIfDue c).2 calls

/-- The gate after a sequence of calls. -/
def after (g : Gate Action) (calls : List Call) : Gate Action :=
  calls.foldl (fun g c => (g.runProbeIfDue c).2) g

end Gate

/-! ## One call -/

section Step

variable {g : Gate Action} {c : Call} {id : String} {startedAt : Time}

/-- What one call can do: nothing is running, a check is not due, or the handler is asked. -/
theorem runProbeIfDue_cases (g : Gate Action) (c : Call) :
    (c.container = none ∧ (g.runProbeIfDue c) = (⟨c, false, false, 0⟩, g)) ∨
    ∃ id startedAt, c.container = some (id, startedAt) ∧
      (c.now < (g.resetIfNewContainer id startedAt).nextCheck ∧
        g.runProbeIfDue c = (⟨c, false, false, (g.resetIfNewContainer id startedAt).nextCheck⟩,
          g.resetIfNewContainer id startedAt) ∨
      (g.resetIfNewContainer id startedAt).nextCheck ≤ c.now ∧
        g.runProbeIfDue c = (g.resetIfNewContainer id startedAt).runProbe c) := by
  cases hc : c.container with
  | none => exact .inl ⟨rfl, by simp only [Gate.runProbeIfDue, hc]⟩
  | some container =>
    obtain ⟨id, startedAt⟩ := container
    refine .inr ⟨id, startedAt, rfl, ?_⟩
    simp only [Gate.runProbeIfDue, hc]
    split_ifs with hdue
    · exact .inl ⟨hdue, rfl⟩
    · exact .inr ⟨not_lt.1 hdue, rfl⟩

@[simp] theorem runProbe_call : (g.runProbe c).1.call = c := by
  simp only [Gate.runProbe]
  split_ifs <;> rfl

@[simp] theorem runProbe_probed : (g.runProbe c).1.probed = true := by
  simp only [Gate.runProbe]
  split_ifs <;> rfl

theorem runProbe_gate : (g.runProbe c).2 =
    { g with nextCheck := c.now + g.period, successes := g.count c.succeeds } := by
  simp only [Gate.runProbe]
  split_ifs <;> rfl

theorem runProbe_ready : (g.runProbe c).1.ready = true ↔ g.threshold ≤ g.count c.succeeds := by
  simp only [Gate.runProbe]
  split_ifs with hready <;> simp [hready]

theorem runProbe_next (hready : (g.runProbe c).1.ready = false) (hperiod : g.period ≠ 0) :
    (g.runProbe c).1.next = c.now + g.period := by
  simp only [Gate.runProbe] at hready ⊢
  split_ifs at hready ⊢
  rfl

theorem reset_containerID : (g.resetIfNewContainer id startedAt).containerID = id := by
  rw [Gate.resetIfNewContainer]
  split_ifs with h
  · exact h
  · rfl

theorem reset_same (h : g.containerID = id) : g.resetIfNewContainer id startedAt = g := if_pos h

/-- What the gate was built with stays. -/
structure Kept (g g' : Gate Action) : Prop where
  initialDelay : g'.initialDelay = g.initialDelay
  period : g'.period = g.period
  threshold : g'.threshold = g.threshold

theorem kept_reset : Kept g (g.resetIfNewContainer id startedAt) := by
  rw [Gate.resetIfNewContainer]
  split_ifs <;> exact ⟨rfl, rfl, rfl⟩

theorem kept_runProbeIfDue (g : Gate Action) (c : Call) : Kept g (g.runProbeIfDue c).2 := by
  rcases runProbeIfDue_cases g c with ⟨-, heq⟩ | ⟨id, startedAt, -, ⟨-, heq⟩ | ⟨-, heq⟩⟩ <;> rw [heq]
  · exact ⟨rfl, rfl, rfl⟩
  · exact kept_reset
  · rw [runProbe_gate]
    exact ⟨kept_reset.initialDelay, kept_reset.period, kept_reset.threshold⟩

theorem call_runProbeIfDue (g : Gate Action) (c : Call) : (g.runProbeIfDue c).1.call = c := by
  rcases runProbeIfDue_cases g c with ⟨-, heq⟩ | ⟨id, startedAt, -, ⟨-, heq⟩ | ⟨-, heq⟩⟩ <;> simp [heq]

/-- A call for the container that the gate knows asks the handler exactly if the next check is due. -/
theorem probed_iff_of_same (hc : c.container = some (id, startedAt)) (hid : g.containerID = id) :
    (g.runProbeIfDue c).1.probed = true ↔ g.nextCheck ≤ c.now := by
  rcases runProbeIfDue_cases g c with ⟨hnone, -⟩ | ⟨id', startedAt', hc', hdue⟩
  · rw [hnone] at hc
    cases hc
  · rw [hc'] at hc
    cases hc
    rw [reset_same hid] at hdue
    rcases hdue with ⟨hlt, heq⟩ | ⟨hle, heq⟩
    · simp [heq, hlt]
    · simp [heq, hle]

theorem containerID_after (hc : c.container = some (id, startedAt)) :
    (g.runProbeIfDue c).2.containerID = id := by
  rcases runProbeIfDue_cases g c with ⟨hnone, -⟩ | ⟨id', startedAt', hc', ⟨-, heq⟩ | ⟨-, heq⟩⟩
  · rw [hnone] at hc
    cases hc
  all_goals
    rw [hc'] at hc
    cases hc
    simp [heq, runProbe_gate, reset_containerID]

end Step

/-! ## Histories -/

section History

variable {g : Gate Action} {calls : List Call} {a b : List Outcome} {o : Outcome}

theorem map_call_history (g : Gate Action) (calls : List Call) :
    (g.history calls).map (·.call) = calls := by
  induction calls generalizing g with
  | nil => rfl
  | cons c calls ih => rw [Gate.history, List.map_cons, ih, call_runProbeIfDue]

theorem history_append (g : Gate Action) (calls calls' : List Call) :
    g.history (calls ++ calls') = g.history calls ++ (g.after calls).history calls' := by
  induction calls generalizing g with
  | nil => rfl
  | cons c calls ih => rw [List.cons_append, Gate.history, ih, Gate.history, List.cons_append]; rfl

/-- A place in a history: the calls before it, and the gate that they left. -/
theorem history_split (h : g.history calls = a ++ b) :
    calls = a.map (·.call) ++ b.map (·.call) ∧ g.history (a.map (·.call)) = a ∧
      (g.after (a.map (·.call))).history (b.map (·.call)) = b := by
  have hcalls := congrArg (List.map (·.call)) h
  rw [map_call_history, List.map_append] at hcalls
  have hlen : (g.history (a.map (·.call))).length = a.length := by
    simpa using congrArg List.length (map_call_history g (a.map (·.call)))
  rw [hcalls, history_append] at h
  obtain ⟨ha, hb⟩ := List.append_inj h hlen
  exact ⟨hcalls, ha, hb⟩

theorem kept_after (g : Gate Action) (calls : List Call) : Kept g (g.after calls) := by
  induction calls generalizing g with
  | nil => exact ⟨rfl, rfl, rfl⟩
  | cons c calls ih =>
    have hstep := kept_runProbeIfDue g c
    have hrest := ih (g.runProbeIfDue c).2
    exact ⟨hrest.initialDelay.trans hstep.initialDelay, hrest.period.trans hstep.period,
      hrest.threshold.trans hstep.threshold⟩

/-- An answer in a history is given by the gate that the calls before it left. -/
theorem eq_of_history_split (h : g.history calls = a ++ o :: b) :
    o = ((g.after (a.map (·.call))).runProbeIfDue o.call).1 ∧
      b = ((g.after (a.map (·.call))).runProbeIfDue o.call).2.history (b.map (·.call)) := by
  have hrest := (history_split h).2.2
  rw [List.map_cons, Gate.history, List.cons.injEq] at hrest
  exact ⟨hrest.1.symm, hrest.2.symm⟩

end History

/-! ## One container run -/

/-- Every container that these calls find running is the given one. -/
def Only (id : String) (calls : List Call) : Prop :=
  ∀ c ∈ calls, ∀ container, c.container = some container → container.1 = id

section Run

variable {g : Gate Action} {calls : List Call} {c : Call} {id : String} {bound limit : Time}

/-- A time that the next check waits for is not passed by later calls of the run: a call that asks the
handler comes no earlier. -/
theorem bound_runProbeIfDue (hg : bound ≤ g.nextCheck ∨ bound ≤ limit) (hid : g.containerID = id)
    (honly : ∀ container, c.container = some container → container.1 = id) (hnow : c.now ≤ limit) :
    (bound ≤ (g.runProbeIfDue c).2.nextCheck ∨ bound ≤ limit) ∧ (g.runProbeIfDue c).2.containerID = id := by
  rcases runProbeIfDue_cases g c with ⟨-, heq⟩ | ⟨id', startedAt, hc, hdue⟩
  · rw [heq]
    exact ⟨hg, hid⟩
  · have hid' : g.containerID = id' := hid.trans (honly _ hc).symm
    refine ⟨?_, (containerID_after hc).trans (honly _ hc)⟩
    rw [reset_same hid'] at hdue
    rcases hdue with ⟨-, heq⟩ | ⟨hle, -⟩
    · rw [heq]
      exact hg
    · right
      rcases hg with hg | hg
      · exact hg.trans (hle.trans hnow)
      · exact hg

theorem bound_after (hg : bound ≤ g.nextCheck ∨ bound ≤ limit) (hid : g.containerID = id)
    (honly : Only id calls) (hnow : ∀ c ∈ calls, c.now ≤ limit) :
    (bound ≤ (g.after calls).nextCheck ∨ bound ≤ limit) ∧ (g.after calls).containerID = id := by
  induction calls generalizing g with
  | nil => exact ⟨hg, hid⟩
  | cons c calls ih =>
    obtain ⟨hg', hid'⟩ := bound_runProbeIfDue hg hid (honly c List.mem_cons_self)
      (hnow c List.mem_cons_self)
    exact ih hg' hid' (fun d hd => honly d (List.mem_cons_of_mem _ hd))
      fun d hd => hnow d (List.mem_cons_of_mem _ hd)

/-- A call of the run that asks the handler after others comes no earlier than the gate allowed before. -/
theorem bound_le_of_probed {startedAt : Time} (hg : bound ≤ g.nextCheck) (hid : g.containerID = id)
    (honly : Only id calls) (hnow : ∀ d ∈ calls, d.now ≤ c.now) (hc : c.container = some (id, startedAt))
    (hprobed : ((g.after calls).runProbeIfDue c).1.probed = true) : bound ≤ c.now := by
  obtain ⟨hbound, hid'⟩ := bound_after (.inl hg) hid honly hnow
  have hle := (probed_iff_of_same hc hid').1 hprobed
  rcases hbound with hbound | hbound
  · exact hbound.trans hle
  · exact hbound

/-- Calls of the run that do not ask the handler leave the gate as it is. -/
theorem after_eq_of_unprobed (hid : g.containerID = id) (honly : Only id calls)
    (hunprobed : ∀ o ∈ g.history calls, o.probed = false) : g.after calls = g := by
  induction calls generalizing g with
  | nil => rfl
  | cons c calls ih =>
    have hstep : (g.runProbeIfDue c).2 = g := by
      rcases runProbeIfDue_cases g c with ⟨-, heq⟩ | ⟨id', startedAt, hc, ⟨-, heq⟩ | ⟨-, heq⟩⟩
      · rw [heq]
      · rw [heq]
        exact reset_same (hid.trans (honly c List.mem_cons_self _ hc).symm)
      · have := hunprobed _ List.mem_cons_self
        rw [heq, runProbe_probed] at this
        cases this
    have hrest := ih (g := (g.runProbeIfDue c).2) (by rw [hstep, hid])
      (fun d hd => honly d (List.mem_cons_of_mem _ hd)) fun o ho => hunprobed o (List.mem_cons_of_mem _ ho)
    rw [hstep] at hrest
    rw [Gate.after, List.foldl_cons, hstep]
    exact hrest

theorem next_of_unready {startedAt : Time} (hc : c.container = some (id, startedAt))
    (hready : (g.runProbeIfDue c).1.ready = false) (hperiod : g.period ≠ 0) :
    (g.runProbeIfDue c).1.next = (g.runProbeIfDue c).2.nextCheck := by
  rcases runProbeIfDue_cases g c with ⟨hnone, -⟩ | ⟨id', startedAt', -, ⟨-, heq⟩ | ⟨-, heq⟩⟩
  · rw [hnone] at hc
    cases hc
  · rw [heq]
  · rw [heq] at hready ⊢
    rw [runProbe_next hready (by rwa [kept_reset.period]), runProbe_gate]

theorem nextCheck_of_probed (hprobed : (g.runProbeIfDue c).1.probed = true) :
    (g.runProbeIfDue c).2.nextCheck = c.now + g.period := by
  rcases runProbeIfDue_cases g c with ⟨-, heq⟩ | ⟨id', startedAt', -, ⟨-, heq⟩ | ⟨-, heq⟩⟩ <;>
    rw [heq] at hprobed ⊢
  · cases hprobed
  · cases hprobed
  · rw [runProbe_gate]
    exact congrArg (c.now + ·) kept_reset.period

end Run

/-! ## The start of a container -/

/-- The gate knows no container yet, or one of `seen`, whose delay it waits for or has waited for. -/
def Started (g : Gate Action) (seen : List Call) (limit : Time) : Prop :=
  g.containerID = "" ∨ ∃ c ∈ seen, ∃ startedAt, c.container = some (g.containerID, startedAt) ∧
    (startedAt + g.initialDelay ≤ g.nextCheck ∨ startedAt + g.initialDelay ≤ limit)

section Start

variable {g : Gate Action} {calls seen : List Call} {c : Call} {limit : Time}

theorem Started.runProbeIfDue (h : Started g seen limit) (hnow : c.now ≤ limit) :
    Started (g.runProbeIfDue c).2 (seen ++ [c]) limit := by
  have hdelay := (kept_runProbeIfDue g c).initialDelay
  by_cases hnew : ∃ id startedAt, c.container = some (id, startedAt) ∧ g.containerID ≠ id
  · obtain ⟨id, startedAt, hc, hne⟩ := hnew
    refine .inr ⟨c, by simp, startedAt, by rw [containerID_after hc, hc], ?_⟩
    have hreset : (g.resetIfNewContainer id startedAt).nextCheck = startedAt + g.initialDelay := by
      rw [Gate.resetIfNewContainer, if_neg hne]
    rw [hdelay]
    rcases runProbeIfDue_cases g c with ⟨hnone, -⟩ | ⟨id', startedAt', hc', hdue⟩
    · rw [hnone] at hc
      cases hc
    · rw [hc'] at hc
      cases hc
      rcases hdue with ⟨-, heq⟩ | ⟨hle, -⟩
      · rw [heq]
        exact .inl hreset.ge
      · rw [hreset] at hle
        exact .inr (hle.trans hnow)
  · have honly : ∀ container, c.container = some container → container.1 = g.containerID := by
      intro container hc
      by_contra hne
      exact hnew ⟨container.1, container.2, hc, Ne.symm hne⟩
    rcases h with hempty | ⟨d, hd, startedAt, hcontainer, hbound⟩
    · have hid := (bound_runProbeIfDue (.inl le_rfl) rfl honly hnow).2
      exact .inl (hid.trans hempty)
    · obtain ⟨hbound', hid⟩ := bound_runProbeIfDue hbound rfl honly hnow
      refine .inr ⟨d, List.mem_append_left _ hd, startedAt, by rw [hid, hcontainer], ?_⟩
      rw [hdelay]
      exact hbound'

theorem Started.after (h : Started g seen limit) (hnow : ∀ c ∈ calls, c.now ≤ limit) :
    Started (g.after calls) (seen ++ calls) limit := by
  induction calls generalizing g seen with
  | nil => rwa [List.append_nil]
  | cons c calls ih =>
    have hrest := ih (h.runProbeIfDue (hnow c List.mem_cons_self))
      fun d hd => hnow d (List.mem_cons_of_mem _ hd)
    rwa [List.append_assoc] at hrest

/-- A check of a container that has one start waits for the delay after it. -/
theorem Started.le_now {id : String} {startedAt : Time} (h : Started g seen c.now)
    (hc : c.container = some (id, startedAt)) (hid : id ≠ "")
    (hone : ∀ d ∈ seen, ∀ started, d.container = some (id, started) → started = startedAt)
    (hprobed : (g.runProbeIfDue c).1.probed = true) : startedAt + g.initialDelay ≤ c.now := by
  by_cases hsame : g.containerID = id
  · subst hsame
    have hle := (probed_iff_of_same hc rfl).1 hprobed
    rcases h with hempty | ⟨d, hd, started, hcontainer, hbound⟩
    · exact absurd hempty hid
    · rw [hone d hd started hcontainer] at hbound
      rcases hbound with hbound | hbound
      · exact hbound.trans hle
      · exact hbound
  · rcases runProbeIfDue_cases g c with ⟨hnone, -⟩ | ⟨id', startedAt', hc', ⟨-, heq⟩ | ⟨hle, -⟩⟩
    · rw [hnone] at hc
      cases hc
    · rw [heq] at hprobed
      cases hprobed
    · rw [hc'] at hc
      cases hc
      rwa [Gate.resetIfNewContainer, if_neg hsame] at hle

end Start

/-! ## The count -/

/-- The calls end with a stretch in which only this container was found running, every check succeeded,
and there were `n` checks. -/
def Earned (n : ℤ) (id : String) (os : List Outcome) : Prop :=
  ∃ before stretch, os = before ++ stretch ∧ Only id (stretch.map (·.call)) ∧
    (∀ o ∈ stretch, o.probed = true → o.call.succeeds = true) ∧
    n ≤ (stretch.filter (·.probed)).length

section Count

variable {g : Gate Action} {os : List Outcome} {o : Outcome} {c : Call} {id : String} {n : ℤ}

theorem Earned.none (hn : n ≤ 0) : Earned n id os :=
  ⟨os, [], by simp, by simp [Only], by simp, by simpa using hn⟩

theorem Earned.le {m : ℤ} (h : Earned n id os) (hle : m ≤ n) : Earned m id os := by
  obtain ⟨before, stretch, hos, honly, hsucceeds, hn⟩ := h
  exact ⟨before, stretch, hos, honly, hsucceeds, hle.trans hn⟩

theorem Earned.snoc (h : Earned n id os) (honly : ∀ container, o.call.container = some container → container.1 = id)
    (hsucceeds : o.probed = true → o.call.succeeds = true) :
    Earned (n + if o.probed then 1 else 0) id (os ++ [o]) := by
  obtain ⟨before, stretch, rfl, hstretch, hall, hn⟩ := h
  refine ⟨before, stretch ++ [o], by simp, ?_, ?_, ?_⟩
  · intro d hd container hcontainer
    rw [List.map_append, List.map_singleton, List.mem_append, List.mem_singleton] at hd
    rcases hd with hd | rfl
    · exact hstretch d hd container hcontainer
    · exact honly container hcontainer
  · intro p hp
    rcases List.mem_append.1 hp with hp | hp
    · exact hall p hp
    · rw [List.mem_singleton.1 hp]
      exact hsucceeds
  · rw [List.filter_append, List.length_append]
    cases hprobed : o.probed with
    | false => simpa [hprobed] using hn
    | true => simpa [hprobed] using hn

/-- The count wraps to a smaller one. -/
theorem count_le (hg : -2 ^ 31 ≤ g.successes) (hs : c.succeeds = true) :
    g.count c.succeeds ≤ g.successes + 1 := by
  rw [Gate.count, if_pos hs, Int.bmod_def]
  omega

theorem le_count (g : Gate Action) (succeeds : Bool) : -2 ^ 31 ≤ g.count succeeds := by
  rw [Gate.count]
  split_ifs
  · rw [Int.bmod_def]
    omega
  · decide

/-- The successes that the gate has counted. -/
structure Counted (g : Gate Action) (os : List Outcome) : Prop where
  range : -2 ^ 31 ≤ g.successes
  earned : Earned g.successes g.containerID os

theorem Counted.reset {startedAt : Time} (h : Counted g os) :
    Counted (g.resetIfNewContainer id startedAt) os := by
  rw [Gate.resetIfNewContainer]
  split_ifs
  · exact h
  · exact ⟨show (-2 ^ 31 : ℤ) ≤ 0 by decide, Earned.none le_rfl⟩

theorem Counted.runProbe {startedAt : Time} (h : Counted g os) (hc : c.container = some (g.containerID, startedAt)) :
    Counted (g.runProbe c).2 (os ++ [(g.runProbe c).1]) := by
  rw [runProbe_gate]
  refine ⟨le_count g c.succeeds, ?_⟩
  cases hs : c.succeeds with
  | false => exact Earned.none le_rfl
  | true =>
    have hsnoc := h.earned.snoc (o := (g.runProbe c).1) (by simp [hc]) (by simp [hs])
    rw [runProbe_probed, if_pos rfl] at hsnoc
    exact hsnoc.le (hs ▸ count_le h.range hs)

theorem Counted.runProbeIfDue (h : Counted g os) (c : Call) :
    Counted (g.runProbeIfDue c).2 (os ++ [(g.runProbeIfDue c).1]) := by
  rcases runProbeIfDue_cases g c with ⟨hnone, heq⟩ | ⟨id, startedAt, hc, ⟨-, heq⟩ | ⟨-, heq⟩⟩ <;> rw [heq]
  · exact ⟨h.range, by simpa using h.earned.snoc (o := ⟨c, false, false, 0⟩) (by simp [hnone]) (by simp)⟩
  · have hreset : Counted (g.resetIfNewContainer id startedAt) os := h.reset
    refine ⟨hreset.range, ?_⟩
    simpa using hreset.earned.snoc
      (o := ⟨c, false, false, (g.resetIfNewContainer id startedAt).nextCheck⟩)
      (by simp [hc, reset_containerID]) (by simp)
  · have hsame : c.container = some ((g.resetIfNewContainer id startedAt).containerID, startedAt) := by
      rw [hc, reset_containerID]
    exact h.reset.runProbe hsame

theorem Counted.after {calls : List Call} (h : Counted g os) :
    Counted (g.after calls) (os ++ g.history calls) := by
  induction calls generalizing g os with
  | nil => rwa [Gate.history, List.append_nil]
  | cons c calls ih =>
    have hrest := ih (h.runProbeIfDue c)
    rwa [List.append_assoc] at hrest

/-- A gate that reports ready has just reached its threshold. -/
theorem threshold_le_of_ready (hready : (g.runProbeIfDue c).1.ready = true) :
    g.threshold ≤ (g.runProbeIfDue c).2.successes ∧
      ∃ startedAt, c.container = some ((g.runProbeIfDue c).2.containerID, startedAt) := by
  rcases runProbeIfDue_cases g c with ⟨-, heq⟩ | ⟨id, startedAt, hc, ⟨-, heq⟩ | ⟨-, heq⟩⟩
  · rw [heq] at hready
    cases hready
  · rw [heq] at hready
    cases hready
  · refine ⟨?_, startedAt, by rw [containerID_after hc, hc]⟩
    rw [heq] at hready ⊢
    rw [runProbe_gate, ← kept_reset.threshold]
    exact runProbe_ready.1 hready

end Count

/-! ## Every sequence of calls -/

theorem newCheckpointGate_fresh {probe : Option (CheckpointReadinessProbe Action)} {g : Gate Action}
    (hg : newCheckpointGate probe = .ok g) :
    g.containerID = "" ∧ g.successes = 0 ∧ 1 ≤ g.threshold := by
  cases probe with
  | none =>
    cases hg
    exact ⟨rfl, rfl, le_rfl⟩
  | some probe =>
    simp only [newCheckpointGate] at hg
    split at hg
    · cases hg
      exact ⟨rfl, rfl, le_max_right _ _⟩
    · cases hg
      exact ⟨rfl, rfl, le_max_right _ _⟩
    · cases hg

theorem now_le_of_split {g : Gate Action} {calls : List Call} {a b : List Outcome} {q : Outcome}
    (htimes : (calls.map (·.now)).Pairwise (· ≤ ·)) (h : g.history calls = a ++ q :: b) :
    ∀ d ∈ a.map (·.call), d.now ≤ q.call.now := by
  intro d hd
  rw [(history_split h).1, List.map_append, List.pairwise_append] at htimes
  exact htimes.2.2 _ (List.mem_map_of_mem hd) _ (by simp)

/-- The two calls of a run, with the gate that the first of them leaves. -/
theorem history_run {g : Gate Action} {calls : List Call} {a b c : List Outcome} {p q : Outcome}
    (h : g.history calls = a ++ p :: (b ++ q :: c)) : ∃ g₁ : Gate Action, Kept g g₁ ∧
      p = (g₁.runProbeIfDue p.call).1 ∧ (g₁.runProbeIfDue p.call).2.history (b.map (·.call)) = b ∧
      q = (((g₁.runProbeIfDue p.call).2.after (b.map (·.call))).runProbeIfDue q.call).1 := by
  obtain ⟨hp, hrest⟩ := eq_of_history_split h
  refine ⟨g.after (a.map (·.call)), kept_after g _, hp, ?_, (eq_of_history_split hrest.symm).1⟩
  exact (history_split hrest.symm).2.1

/-- Whatever the statuses and the checks of a sequence of calls: a gate reports ready after a stretch of
successful checks of the present container, as many as its threshold; checks of one container run keep the
period; none comes before the start and the delay; and the time that a gate returns is the earliest one at
which a later call of the run checks again. -/
theorem gate_reports_earned (probe : Option (CheckpointReadinessProbe Action)) (g : Gate Action)
    (hg : newCheckpointGate probe = .ok g) (calls : List Call)
    (htimes : (calls.map (·.now)).Pairwise (· ≤ ·))
    (hids : ∀ c ∈ calls, ∀ container, c.container = some container → container.1 ≠ "") :
    (1 ≤ g.threshold ∧ ∀ a o b, g.history calls = a ++ o :: b → o.ready = true →
      ∃ id startedAt, o.call.container = some (id, startedAt) ∧ Earned g.threshold id (a ++ [o])) ∧
    (∀ a p b q c id started started', g.history calls = a ++ p :: (b ++ q :: c) →
      p.call.container = some (id, started) → q.call.container = some (id, started') →
      Only id (b.map (·.call)) → p.probed = true → q.probed = true →
      p.call.now + g.period ≤ q.call.now) ∧
    (∀ a q b id startedAt, g.history calls = a ++ q :: b → q.call.container = some (id, startedAt) →
      (∀ r ∈ a, ∀ started, r.call.container = some (id, started) → started = startedAt) →
      q.probed = true → startedAt + g.initialDelay ≤ q.call.now) ∧
    (∀ a o b q c id started started', g.history calls = a ++ o :: (b ++ q :: c) →
      o.call.container = some (id, started) → q.call.container = some (id, started') →
      Only id (b.map (·.call)) → o.ready = false → 0 < g.period →
      (q.probed = true → o.next ≤ q.call.now) ∧
      (o.next ≤ q.call.now → q.probed = true ∨ ∃ r ∈ b, r.probed = true)) := by
  obtain ⟨hfresh, hzero, hthreshold⟩ := newCheckpointGate_fresh hg
  refine ⟨⟨hthreshold, ?_⟩, ?_, ?_, ?_⟩
  · intro a o b h hready
    obtain ⟨ho, -⟩ := eq_of_history_split h
    have hcounted : Counted g [] := ⟨hzero ▸ by decide, Earned.none hzero.le⟩
    have hafter : Counted (g.after (a.map (·.call))) ([] ++ g.history (a.map (·.call))) := hcounted.after
    rw [(history_split h).2.1, List.nil_append] at hafter
    have hlast := hafter.runProbeIfDue o.call
    rw [← ho] at hlast
    rw [ho] at hready
    obtain ⟨hle, startedAt, hc⟩ := threshold_le_of_ready hready
    rw [(kept_after g _).threshold] at hle
    exact ⟨_, startedAt, hc, hlast.earned.le hle⟩
  · intro a p b q c id started started' h hp hq honly hprobed hprobed'
    obtain ⟨g₁, hkept, hp', -, hq'⟩ := history_run h
    rw [hp'] at hprobed
    rw [hq'] at hprobed'
    have hnext := nextCheck_of_probed hprobed
    rw [hkept.period] at hnext
    have hbefore : ∀ d ∈ b.map (·.call), d.now ≤ q.call.now := by
      intro d hd
      have h' : g.history calls = (a ++ p :: b) ++ q :: c := by simp [h]
      exact now_le_of_split htimes h' d (by simp [List.mem_map.1 hd])
    exact bound_le_of_probed hnext.ge (containerID_after hp) honly hbefore hq hprobed'
  · intro a q b id startedAt h hq hone hprobed
    obtain ⟨hq', -⟩ := eq_of_history_split h
    have hstart : Started g [] q.call.now := .inl hfresh
    have hstarted : Started (g.after (a.map (·.call))) (a.map (·.call)) q.call.now :=
      hstart.after (now_le_of_split htimes h)
    have hmem : q.call ∈ calls := by
      rw [(history_split h).1]
      simp
    rw [hq'] at hprobed
    have hle := hstarted.le_now hq (hids _ hmem _ hq) (fun d hd started hd' => ?_) hprobed
    · rwa [(kept_after g _).initialDelay] at hle
    · obtain ⟨r, hr, rfl⟩ := List.mem_map.1 hd
      exact hone r hr started hd'
  · intro a o b q c id started started' h ho hq honly hready hperiod
    obtain ⟨g₁, hkept, ho', hb, hq'⟩ := history_run h
    have hnext : o.next = (g₁.runProbeIfDue o.call).2.nextCheck := by
      rw [ho'] at hready
      have := next_of_unready ho hready (by rw [hkept.period]; exact hperiod.ne')
      rwa [← ho'] at this
    have hbefore : ∀ d ∈ b.map (·.call), d.now ≤ q.call.now := by
      intro d hd
      have h' : g.history calls = (a ++ o :: b) ++ q :: c := by simp [h]
      exact now_le_of_split htimes h' d (by simp [List.mem_map.1 hd])
    refine ⟨fun hprobed => ?_, fun hdue => ?_⟩
    · rw [hq'] at hprobed
      exact bound_le_of_probed hnext.le (containerID_after ho) honly hbefore hq hprobed
    · by_cases hany : ∃ r ∈ b, r.probed = true
      · exact .inr hany
      · left
        have hsame := after_eq_of_unprobed (containerID_after ho) honly (by
          rw [hb]
          intro r hr
          exact Bool.eq_false_iff.2 fun hprobed => hany ⟨r, hr, hprobed⟩)
        rw [hq', probed_iff_of_same hq (by rw [hsame, containerID_after ho]), hsame]
        exact hnext ▸ hdue

/-- A check every second, five seconds after the start, twice in a row. -/
def fileProbe : CheckpointReadinessProbe Unit := ⟨some "/ready", none, 5, 1, 1, 2⟩

/-- One check of a container `a`, which restarts as `b`, and then three calls for `b`. -/
def restartCalls : List Call :=
  [⟨some ⟨"a", some 0⟩, 5 * second, true⟩, ⟨some ⟨"a", none⟩, 6 * second, true⟩,
    ⟨some ⟨"b", some (7 * second)⟩, 8 * second, true⟩, ⟨some ⟨"b", some (7 * second)⟩, 12 * second, true⟩,
    ⟨some ⟨"b", some (7 * second)⟩, 13 * second, true⟩]

def fileGate : Gate Unit := ⟨.fileProbe "/ready", 5 * second, second, second, 2, true, "", 0, 0⟩

theorem gate_reports_earned_sample : newCheckpointGate (some fileProbe) = .ok fileGate ∧
    (fileGate.history restartCalls).map (fun o => (o.probed, o.ready, o.next)) =
      [(true, false, 6 * second), (false, false, 0), (false, false, 12 * second),
        (true, false, 13 * second), (true, true, 0)] ∧
    Earned 2 "b" (fileGate.history restartCalls) := by
  refine ⟨rfl, by decide +kernel, ?_⟩
  have hlast : fileGate.history restartCalls = (fileGate.history restartCalls).dropLast ++
      [⟨⟨some ⟨"b", some (7 * second)⟩, 13 * second, true⟩, true, true, 0⟩] := by decide +kernel
  obtain ⟨id, startedAt, hc, hearned⟩ := (gate_reports_earned (some fileProbe) fileGate rfl restartCalls
    (by decide +kernel) (by decide +kernel)).1.2 _ _ [] hlast rfl
  cases hc
  rwa [← hlast] at hearned

end CheckpointReadiness
