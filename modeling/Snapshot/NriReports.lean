import Mathlib.Data.List.Basic
import Mathlib.Logic.Function.Basic

/-! The reports of started restore containers. The NRI plugin keeps two maps by container ID and the node
controller one by Pod UID and container name, and the runtime calls back for any number of containers at
the same time, so every map operation is a step of its own. A report is withdrawn by a stop that finds the
container in the map of the started ones; a stop that looks there while the start of the same container
is still between its own operations finds nothing, and the report that follows stays. -/
namespace NriReports

abbrev ContainerID := String

/-- `destination` -/
structure Destination where
  pod : String × String
  uid : String
  container : String
  deriving DecidableEq, Repr

def restoreContainerKey (uid container : String) : String := uid ++ "/" ++ container

def Destination.key (d : Destination) : String := restoreContainerKey d.uid d.container

/-! ## Callbacks -/

/-- `CreateContainer`: the container is shaped and stored as created, or left alone. -/
inductive CreateAt where
  | idle
  | shape
  | returned
  deriving DecidableEq, Repr

/-- `PostStartContainer`: take the container from the created ones, store it as started, and call
`RestoreContainerStarted`, which stores the report and queues the Pod. -/
inductive PostAt where
  | idle
  | load
  | store (d : Destination)
  | report (d : Destination)
  | enqueue (d : Destination)
  | returned
  deriving DecidableEq, Repr

/-- `StopContainer`: forget the container as created, take it from the started ones, and call
`RestoreContainerStopped`, which deletes the report if it names this container. -/
inductive StopAt where
  | idle
  | forget
  | withdraw
  | clear (d : Destination)
  | returned
  deriving DecidableEq, Repr

/-- `RemoveContainer`: forget the container in both maps. -/
inductive RemoveAt where
  | idle
  | forgetCreated
  | forgetStarted
  | returned
  deriving DecidableEq, Repr

/-- What the maps of the plugin hold for one container ID, where its callbacks stand, and the calls of
`RestoreContainerStarted` that were made for it. -/
structure Container where
  created : Option Destination
  started : Option Destination
  create : CreateAt
  post : PostAt
  stop : StopAt
  remove : RemoveAt
  calls : List Destination
  deriving DecidableEq, Repr

def Container.new : Container := ⟨none, none, .idle, .idle, .idle, .idle, []⟩

inductive Callback where
  | create
  | postStart
  | stop
  | remove
  deriving DecidableEq, Repr

/-- The runtime makes each callback once, and creates the container first. -/
def Container.begin (c : Container) : Callback → Option Container
  | .create => if c.create = .idle then some { c with create := .shape } else none
  | .postStart =>
    if c.create = .returned ∧ c.post = .idle then some { c with post := .load } else none
  | .stop => if c.create = .returned ∧ c.stop = .idle then some { c with stop := .forget } else none
  | .remove =>
    if c.create = .returned ∧ c.remove = .idle then some { c with remove := .forgetCreated } else none

/-- What an operation does to the maps of the controller. -/
inductive Effect where
  | none
  | store (key : String)
  | compareAndDelete (key : String)
  | add (pod : String × String)
  deriving DecidableEq, Repr

/-- The next operation of a callback. `shaped` is the destination that `CreateContainer` has found, if it
has not returned before. -/
def Container.next (c : Container) (shaped : Option Destination) :
    Callback → Option (Container × Effect)
  | .create =>
    match c.create with
    | .shape =>
      match shaped with
      | some d => some ({ c with created := some d, create := .returned }, .none)
      | none => some ({ c with create := .returned }, .none)
    | _ => none
  | .postStart =>
    match c.post with
    | .load =>
      match c.created with
      | some d => some ({ c with created := none, post := .store d }, .none)
      | none => some ({ c with post := .returned }, .none)
    | .store d => some ({ c with started := some d, post := .report d }, .none)
    | .report d => some ({ c with post := .enqueue d, calls := d :: c.calls }, .store d.key)
    | .enqueue d => some ({ c with post := .returned }, .add d.pod)
    | _ => none
  | .stop =>
    match c.stop with
    | .forget => some ({ c with created := none, stop := .withdraw }, .none)
    | .withdraw =>
      match c.started with
      | some d => some ({ c with started := none, stop := .clear d }, .none)
      | none => some ({ c with stop := .returned }, .none)
    | .clear d => some ({ c with stop := .returned }, .compareAndDelete d.key)
    | _ => none
  | .remove =>
    match c.remove with
    | .forgetCreated => some ({ c with created := none, remove := .forgetStarted }, .none)
    | .forgetStarted => some ({ c with started := none, remove := .returned }, .none)
    | _ => none

/-! ## The plugin and the controller -/

structure State where
  containers : ContainerID → Container
  startedRestoreContainers : String → Option ContainerID
  restoreQueue : List (String × String)

def State.initial : State := ⟨fun _ => .new, fun _ => none, []⟩

inductive Event where
  | begin (callback : Callback) (id : ContainerID)
  | next (callback : Callback) (id : ContainerID) (shaped : Option Destination)
  /-- The controller takes a report, or forgets the reports of a Pod. -/
  | take (key : String)
  deriving DecidableEq, Repr

def State.apply (s : State) (id : ContainerID) : Effect → State
  | .none => s
  | .store key =>
    { s with startedRestoreContainers := Function.update s.startedRestoreContainers key (some id) }
  | .compareAndDelete key =>
    if s.startedRestoreContainers key = some id then
      { s with startedRestoreContainers := Function.update s.startedRestoreContainers key none }
    else s
  | .add pod => { s with restoreQueue := s.restoreQueue ++ [pod] }

def State.set (s : State) (id : ContainerID) (c : Container) : State :=
  { s with containers := Function.update s.containers id c }

def State.step (s : State) : Event → Option State
  | .begin callback id => ((s.containers id).begin callback).map (s.set id)
  | .next callback id shaped =>
    ((s.containers id).next shaped callback).map fun (c, effect) => (s.set id c).apply id effect
  | .take key =>
    some { s with startedRestoreContainers := Function.update s.startedRestoreContainers key none }

def State.run : State → List Event → Option State
  | s, [] => some s
  | s, e :: es => (s.step e).bind fun t => t.run es

/-- A start that has taken the container and has not reported it yet. -/
def Container.starting (c : Container) : Bool :=
  match c.post with
  | .store _ | .report _ => true
  | _ => false

/-- A stop and a removal look for the container among the started ones only outside of its start, and a
removal finds it gone from there. -/
def Container.orderly (c : Container) : Callback → Bool
  | .stop => c.stop ≠ .withdraw || !c.starting
  | .remove => c.remove ≠ .forgetStarted || !c.starting && c.started.isNone
  | _ => true

def State.orderly (s : State) : Event → Bool
  | .next callback id _ => (s.containers id).orderly callback
  | _ => true

def State.orderlyRun : State → List Event → Bool
  | _, [] => true
  | s, e :: es => s.orderly e && (s.step e).all fun t => t.orderlyRun es

/-- No callback of the container is between its begin and its return. -/
def Container.quiet (c : Container) : Prop :=
  (c.create = .idle ∨ c.create = .returned) ∧ (c.post = .idle ∨ c.post = .returned) ∧
    (c.stop = .idle ∨ c.stop = .returned) ∧ (c.remove = .idle ∨ c.remove = .returned)

/-! ## One container -/

/-- The operations of the callbacks, one by one. -/
inductive Operation (c : Container) : Callback → Container → Effect → Prop where
  | shape (d : Destination) (hcreate : c.create = .shape) :
    Operation c .create { c with created := some d, create := .returned } .none
  | leave (hcreate : c.create = .shape) : Operation c .create { c with create := .returned } .none
  | load (d : Destination) (hpost : c.post = .load) (hcreated : c.created = some d) :
    Operation c .postStart { c with created := none, post := .store d } .none
  | unknown (hpost : c.post = .load) (hcreated : c.created = none) :
    Operation c .postStart { c with post := .returned } .none
  | store (d : Destination) (hpost : c.post = .store d) :
    Operation c .postStart { c with started := some d, post := .report d } .none
  | report (d : Destination) (hpost : c.post = .report d) :
    Operation c .postStart { c with post := .enqueue d, calls := d :: c.calls } (.store d.key)
  | enqueue (d : Destination) (hpost : c.post = .enqueue d) :
    Operation c .postStart { c with post := .returned } (.add d.pod)
  | forget (hstop : c.stop = .forget) :
    Operation c .stop { c with created := none, stop := .withdraw } .none
  | withdraw (d : Destination) (hstop : c.stop = .withdraw) (hstarted : c.started = some d) :
    Operation c .stop { c with started := none, stop := .clear d } .none
  | missing (hstop : c.stop = .withdraw) (hstarted : c.started = none) :
    Operation c .stop { c with stop := .returned } .none
  | clear (d : Destination) (hstop : c.stop = .clear d) :
    Operation c .stop { c with stop := .returned } (.compareAndDelete d.key)
  | forgetCreated (hremove : c.remove = .forgetCreated) :
    Operation c .remove { c with created := none, remove := .forgetStarted } .none
  | forgetStarted (hremove : c.remove = .forgetStarted) :
    Operation c .remove { c with started := none, remove := .returned } .none

section Container

variable {c c' : Container} {callback : Callback} {shaped : Option Destination} {effect : Effect}

theorem next_cases (h : c.next shaped callback = some (c', effect)) : Operation c callback c' effect := by
  cases callback with
  | create =>
    simp only [Container.next] at h
    split at h
    · rename_i hcreate
      cases shaped with
      | some d =>
        cases h
        exact .shape d hcreate
      | none =>
        cases h
        exact .leave hcreate
    · cases h
  | postStart =>
    simp only [Container.next] at h
    split at h
    · rename_i hpost
      split at h
      · rename_i d hcreated
        cases h
        exact .load d hpost hcreated
      · rename_i hcreated
        cases h
        exact .unknown hpost hcreated
    · rename_i d hpost
      cases h
      exact .store d hpost
    · rename_i d hpost
      cases h
      exact .report d hpost
    · rename_i d hpost
      cases h
      exact .enqueue d hpost
    · cases h
  | stop =>
    simp only [Container.next] at h
    split at h
    · rename_i hstop
      cases h
      exact .forget hstop
    · rename_i hstop
      split at h
      · rename_i d hstarted
        cases h
        exact .withdraw d hstop hstarted
      · rename_i hstarted
        cases h
        exact .missing hstop hstarted
    · rename_i d hstop
      cases h
      exact .clear d hstop
    · cases h
  | remove =>
    simp only [Container.next] at h
    split at h
    · rename_i hremove
      cases h
      exact .forgetCreated hremove
    · rename_i hremove
      cases h
      exact .forgetStarted hremove
    · cases h

/-- What a callback needs in order to begin. -/
theorem begin_cases (h : c.begin callback = some c') :
    callback = .create ∧ c.create = .idle ∧ c' = { c with create := .shape } ∨
      c.create = .returned ∧
        (callback = .postStart ∧ c.post = .idle ∧ c' = { c with post := .load } ∨
          callback = .stop ∧ c.stop = .idle ∧ c' = { c with stop := .forget } ∨
          callback = .remove ∧ c.remove = .idle ∧ c' = { c with remove := .forgetCreated }) := by
  cases callback with
  | create =>
    simp only [Container.begin] at h
    split at h <;> cases h
    rename_i hidle
    exact .inl ⟨rfl, hidle, rfl⟩
  | postStart =>
    simp only [Container.begin] at h
    split at h <;> cases h
    rename_i hidle
    exact .inr ⟨hidle.1, .inl ⟨rfl, hidle.2, rfl⟩⟩
  | stop =>
    simp only [Container.begin] at h
    split at h <;> cases h
    rename_i hidle
    exact .inr ⟨hidle.1, .inr (.inl ⟨rfl, hidle.2, rfl⟩)⟩
  | remove =>
    simp only [Container.begin] at h
    split at h <;> cases h
    rename_i hidle
    exact .inr ⟨hidle.1, .inr (.inr ⟨rfl, hidle.2, rfl⟩)⟩

/-- The report is made once, by the operation that makes it. -/
def Container.Counted (c : Container) : Prop :=
  match c.post with
  | .enqueue d => c.calls = [d]
  | .returned => c.calls.length ≤ 1
  | _ => c.calls = []

theorem Container.Counted.length_le (h : c.Counted) : c.calls.length ≤ 1 := by
  simp only [Counted] at h
  split at h
  · rw [h]
    exact Nat.le_refl 1
  · exact h
  · rw [h]
    exact Nat.zero_le 1

theorem Container.Counted.begin (h : c.Counted) (hb : c.begin callback = some c') : c'.Counted := by
  rcases begin_cases hb with ⟨_, _, rfl⟩ | ⟨_, ⟨_, hidle, rfl⟩ | ⟨_, _, rfl⟩ | ⟨_, _, rfl⟩⟩
  · exact h
  · simp only [Counted, hidle] at h
    exact h
  · exact h
  · exact h

theorem Container.Counted.next (h : c.Counted) (hn : Operation c callback c' effect) : c'.Counted := by
  cases hn with
  | load d hpost _ =>
    simp only [Counted, hpost] at h
    exact h
  | unknown hpost _ =>
    simp only [Counted, hpost] at h
    simp only [Counted, h, List.length_nil, Nat.zero_le]
  | store d hpost =>
    simp only [Counted, hpost] at h
    exact h
  | report d hpost =>
    simp only [Counted, hpost] at h
    simp only [Counted, h]
  | enqueue d hpost =>
    simp only [Counted, hpost] at h
    simp only [Counted, h, List.length_singleton, Nat.le_refl]
  | _ => exact h

/-- Past its first operation, a stop has forgotten the container as created. -/
def StopAt.forgot : StopAt → Bool
  | withdraw | clear _ | returned => true
  | _ => false

/-- Past its second operation, it has taken the container from the started ones. -/
def StopAt.withdrew : StopAt → Bool
  | clear _ | returned => true
  | _ => false

def RemoveAt.forgot : RemoveAt → Bool
  | forgetStarted | returned => true
  | _ => false

theorem StopAt.forgot_of_withdrew {stop : StopAt} (h : stop.withdrew = true) : stop.forgot = true := by
  cases stop <;> first | rfl | cases h

/-- What a container is like as long as its callbacks are orderly: after a stop or a removal it is in
neither map, and nothing will put it there. -/
structure Container.Ordered (c : Container) : Prop where
  first : c.post ≠ .idle ∨ c.stop ≠ .idle ∨ c.remove ≠ .idle → c.create = .returned
  forgotten : c.stop.forgot = true ∨ c.remove.forgot = true → c.created = none
  stopped : c.stop.withdrew = true → c.started = none ∧ c.starting = false
  removed : c.remove = .returned → c.started = none ∧ c.starting = false
  reporting : ∀ d, c.post = .report d → c.started = some d

theorem Container.ordered_new : Container.new.Ordered := by
  constructor <;> simp [Container.new, StopAt.forgot, StopAt.withdrew, RemoveAt.forgot]

theorem Container.Ordered.begin (h : c.Ordered) (hb : c.begin callback = some c') : c'.Ordered := by
  rcases begin_cases hb with ⟨_, hidle, rfl⟩ | ⟨hcreate, ⟨_, _, rfl⟩ | ⟨_, _, rfl⟩ | ⟨_, _, rfl⟩⟩
  · refine ⟨fun hany => ?_, h.forgotten, h.stopped, h.removed, h.reporting⟩
    exact absurd (hidle.symm.trans (h.first hany)) nofun
  · exact ⟨fun _ => hcreate, h.forgotten, fun hs => ⟨(h.stopped hs).1, rfl⟩,
      fun hr => ⟨(h.removed hr).1, rfl⟩, nofun⟩
  · exact ⟨fun _ => hcreate, fun hf => h.forgotten (hf.imp_left nofun), nofun, h.removed, h.reporting⟩
  · exact ⟨fun _ => hcreate, fun hf => h.forgotten (hf.imp_right nofun), h.stopped, nofun, h.reporting⟩

/-- While a container is being created, nothing else of it has begun. -/
theorem Container.Ordered.create (h : c.Ordered) (hcreate : c.create = .shape) (d : Option Destination) :
    Container.Ordered { c with created := d, create := .returned } := by
  have hidle : c.post = .idle ∧ c.stop = .idle ∧ c.remove = .idle := by
    by_contra hany
    exact absurd (hcreate.symm.trans (h.first (by tauto))) nofun
  obtain ⟨hpost, hstop, hremove⟩ := hidle
  constructor <;> simp [hpost, hstop, hremove, StopAt.forgot, StopAt.withdrew, RemoveAt.forgot]

theorem Container.not_reporting (h : c.starting = false) (d : Destination) : c.post ≠ .report d := by
  intro hpost
  simp only [starting, hpost] at h
  cases h

theorem Container.Ordered.next (h : c.Ordered) (hok : c.orderly callback = true)
    (hn : Operation c callback c' effect) : c'.Ordered := by
  cases hn with
  | shape d hcreate => exact h.create hcreate (some d)
  | leave hcreate => exact h.create hcreate c.created
  | load d hpost hcreated =>
    -- neither a stop nor a removal has forgotten it
    have hkept : ¬ (c.stop.forgot = true ∨ c.remove.forgot = true) := fun hf =>
      absurd (hcreated.symm.trans (h.forgotten hf)) nofun
    refine ⟨fun _ => h.first (.inl (by rw [hpost]; exact nofun)), fun _ => rfl, fun hs => ?_, fun hr => ?_,
      nofun⟩
    · exact absurd (.inl (StopAt.forgot_of_withdrew hs)) hkept
    · have hr : c.remove = .returned := hr
      exact absurd (.inr (by rw [hr]; rfl)) hkept
  | unknown hpost hcreated =>
    exact ⟨fun _ => h.first (.inl (by rw [hpost]; exact nofun)), fun _ => hcreated,
      fun hs => ⟨(h.stopped hs).1, rfl⟩, fun hr => ⟨(h.removed hr).1, rfl⟩, nofun⟩
  | store d hpost =>
    have hstarting : c.starting = true := by simp only [starting, hpost]
    refine ⟨fun _ => h.first (.inl (by rw [hpost]; exact nofun)), h.forgotten, fun hs => ?_, fun hr => ?_, ?_⟩
    · exact absurd (hstarting.symm.trans (h.stopped hs).2) nofun
    · exact absurd (hstarting.symm.trans (h.removed hr).2) nofun
    · intro d' hd'
      cases hd'
      rfl
  | report d hpost | enqueue d hpost =>
    exact ⟨fun _ => h.first (.inl (by rw [hpost]; exact nofun)), h.forgotten,
      fun hs => ⟨(h.stopped hs).1, rfl⟩, fun hr => ⟨(h.removed hr).1, rfl⟩, nofun⟩
  | forget hstop =>
    exact ⟨fun _ => h.first (.inr (.inl (by rw [hstop]; exact nofun))), fun _ => rfl, nofun, h.removed,
      h.reporting⟩
  | withdraw d hstop _ =>
    have hstarting : c.starting = false := by simpa [orderly, hstop] using hok
    exact ⟨fun _ => h.first (.inr (.inl (by rw [hstop]; exact nofun))),
      fun _ => h.forgotten (.inl (by rw [hstop]; rfl)), fun _ => ⟨rfl, hstarting⟩,
      fun _ => ⟨rfl, hstarting⟩, fun d hd => absurd hd (not_reporting hstarting d)⟩
  | missing hstop hstarted =>
    have hstarting : c.starting = false := by simpa [orderly, hstop] using hok
    exact ⟨fun _ => h.first (.inr (.inl (by rw [hstop]; exact nofun))),
      fun _ => h.forgotten (.inl (by rw [hstop]; rfl)), fun _ => ⟨hstarted, hstarting⟩, h.removed,
      h.reporting⟩
  | clear d hstop =>
    exact ⟨fun _ => h.first (.inr (.inl (by rw [hstop]; exact nofun))),
      fun _ => h.forgotten (.inl (by rw [hstop]; rfl)), fun _ => h.stopped (by rw [hstop]; rfl), h.removed,
      h.reporting⟩
  | forgetCreated hremove =>
    exact ⟨fun _ => h.first (.inr (.inr (by rw [hremove]; exact nofun))), fun _ => rfl, h.stopped, nofun,
      h.reporting⟩
  | forgetStarted hremove =>
    have hgone : c.starting = false ∧ c.started = none := by simpa [orderly, hremove] using hok
    exact ⟨fun _ => h.first (.inr (.inr (by rw [hremove]; exact nofun))),
      fun _ => h.forgotten (.inr (by rw [hremove]; rfl)), fun _ => ⟨rfl, hgone.1⟩, fun _ => ⟨rfl, hgone.1⟩,
      fun d hd => absurd hd (not_reporting hgone.1 d)⟩

/-- A report that will be withdrawn: the container is among the started ones, or its stop has it. -/
def Container.Backs (c : Container) (key : String) : Prop :=
  ∃ d, key = d.key ∧ c.calls = [d] ∧ (c.started = some d ∨ c.stop = .clear d)

theorem Container.Backs.begin {key : String} (h : c.Backs key) (hb : c.begin callback = some c') :
    c'.Backs key := by
  obtain ⟨d, hkey, hcalls, hheld⟩ := h
  rcases begin_cases hb with ⟨_, _, rfl⟩ | ⟨_, ⟨_, _, rfl⟩ | ⟨_, hidle, rfl⟩ | ⟨_, _, rfl⟩⟩
  · exact ⟨d, hkey, hcalls, hheld⟩
  · exact ⟨d, hkey, hcalls, hheld⟩
  · exact ⟨d, hkey, hcalls, .inl (hheld.resolve_right (by rw [hidle]; exact nofun))⟩
  · exact ⟨d, hkey, hcalls, hheld⟩

/-- Only the stop that has it lets a report go, and it deletes it. -/
theorem Container.Backs.next {key : String} (h : c.Backs key) (hcounted : c.Counted) (hordered : c.Ordered)
    (hok : c.orderly callback = true) (hn : Operation c callback c' effect) :
    c'.Backs key ∨ effect = .compareAndDelete key := by
  obtain ⟨d, hkey, hcalls, hheld⟩ := h
  cases hn with
  | shape | leave | unknown | enqueue | forgetCreated => exact .inl ⟨d, hkey, hcalls, hheld⟩
  | load e hpost | store e hpost | report e hpost =>
    -- this start has not reported yet
    simp only [Counted, hpost] at hcounted
    exact absurd (hcounted.symm.trans hcalls) nofun
  | forget hstop =>
    exact .inl ⟨d, hkey, hcalls, .inl (hheld.resolve_right (by rw [hstop]; exact nofun))⟩
  | withdraw e hstop hstarted =>
    have hsome := hheld.resolve_right (by rw [hstop]; exact nofun)
    rw [hstarted] at hsome
    cases hsome
    exact .inl ⟨d, hkey, hcalls, .inr rfl⟩
  | missing hstop hstarted =>
    have hsome := hheld.resolve_right (by rw [hstop]; exact nofun)
    exact absurd (hstarted.symm.trans hsome) nofun
  | clear e hstop =>
    have hnone := (hordered.stopped (by rw [hstop]; rfl)).1
    have hsame := hheld.resolve_left (by rw [hnone]; exact nofun)
    rw [hstop] at hsame
    cases hsame
    exact .inr (by rw [hkey])
  | forgetStarted hremove =>
    have hgone : c.starting = false ∧ c.started = none := by simpa [orderly, hremove] using hok
    exact .inl ⟨d, hkey, hcalls, .inr (hheld.resolve_left (by rw [hgone.2]; exact nofun))⟩

/-- A report that is made is backed. -/
theorem Container.backs_of_store {key : String} (hcounted : c.Counted) (hordered : c.Ordered)
    (hn : Operation c callback c' (.store key)) : c'.Backs key := by
  cases hn with
  | report d hpost =>
    simp only [Counted, hpost] at hcounted
    exact ⟨d, rfl, by rw [hcounted], .inl (hordered.reporting d hpost)⟩

end Container

/-! ## Steps and runs -/

section Steps

variable {s t : State} {e : Event}

/-- An event moves one container, or takes a report away. -/
theorem step_cases (h : s.step e = some t) :
    (∃ callback id c, e = .begin callback id ∧ (s.containers id).begin callback = some c ∧ t = s.set id c) ∨
      (∃ callback id shaped c effect, e = .next callback id shaped ∧
        Operation (s.containers id) callback c effect ∧ t = (s.set id c).apply id effect) ∨
      ∃ key, t = { s with
        startedRestoreContainers := Function.update s.startedRestoreContainers key none } := by
  cases e with
  | begin callback id =>
    obtain ⟨c, hc, rfl⟩ := Option.map_eq_some_iff.1 h
    exact .inl ⟨callback, id, c, rfl, hc, rfl⟩
  | next callback id shaped =>
    obtain ⟨⟨c, effect⟩, hc, rfl⟩ := Option.map_eq_some_iff.1 h
    exact .inr (.inl ⟨callback, id, shaped, c, effect, rfl, next_cases hc, rfl⟩)
  | take key =>
    cases h
    exact .inr (.inr ⟨key, rfl⟩)

theorem containers_apply (s : State) (id : ContainerID) (effect : Effect) :
    (s.apply id effect).containers = s.containers := by
  cases effect with
  | compareAndDelete key =>
    simp only [State.apply]
    split <;> rfl
  | _ => rfl

theorem containers_set (s : State) (id : ContainerID) (c : Container) (id' : ContainerID) :
    (s.set id c).containers id' = if id' = id then c else s.containers id' := by
  simp only [State.set, Function.update_apply]

/-- The reports after an effect: only a store adds one, and only a deletion takes one away. -/
theorem reports_apply {id id' : ContainerID} {effect : Effect} {key : String}
    (h : (s.apply id effect).startedRestoreContainers key = some id') :
    effect = .store key ∧ id' = id ∨
      s.startedRestoreContainers key = some id' ∧ (effect = .compareAndDelete key → id' ≠ id) := by
  cases effect with
  | none => exact .inr ⟨h, nofun⟩
  | add pod => exact .inr ⟨h, nofun⟩
  | store key' =>
    by_cases hkey : key = key'
    · subst hkey
      simp only [State.apply, Function.update_self, Option.some.injEq] at h
      exact .inl ⟨rfl, h.symm⟩
    · simp only [State.apply, Function.update_of_ne hkey] at h
      exact .inr ⟨h, nofun⟩
  | compareAndDelete key' =>
    simp only [State.apply] at h
    split at h
    · rename_i hown
      by_cases hkey : key = key'
      · subst hkey
        simp only [Function.update_self] at h
        cases h
      · simp only [Function.update_of_ne hkey] at h
        refine .inr ⟨h, fun heq => ?_⟩
        cases heq
        exact absurd rfl hkey
    · rename_i hother
      refine .inr ⟨h, fun heq => ?_⟩
      cases heq
      rintro rfl
      exact hother h

/-- Each container reports at most once. -/
def Counts (s : State) : Prop := ∀ id, (s.containers id).Counted

theorem counts_step (h : Counts s) (hstep : s.step e = some t) : Counts t := by
  intro id'
  rcases step_cases hstep with ⟨callback, id, c, _, hc, rfl⟩ | ⟨callback, id, shaped, c, effect, _, hc, rfl⟩ |
    ⟨key, rfl⟩
  · rw [containers_set]
    split
    · exact (h id).begin hc
    · exact h id'
  · rw [containers_apply, containers_set]
    split
    · exact (h id).next hc
    · exact h id'
  · exact h id'

theorem counts_run {events : List Event} (h : Counts s) (hrun : s.run events = some t) : Counts t := by
  induction events generalizing s with
  | nil =>
    cases hrun
    exact h
  | cons e es ih =>
    obtain ⟨u, hu, hrun⟩ := Option.bind_eq_some_iff.1 hrun
    exact ih (counts_step h hu) hrun

/-- The containers are in order, and every report will be withdrawn by the container it names. -/
structure Tidy (s : State) : Prop where
  counts : Counts s
  ordered : ∀ id, (s.containers id).Ordered
  backed : ∀ key id, s.startedRestoreContainers key = some id → (s.containers id).Backs key

theorem tidy_initial : Tidy State.initial where
  counts _ := rfl
  ordered _ := Container.ordered_new
  backed := nofun

theorem tidy_step (h : Tidy s) (hok : s.orderly e = true) (hstep : s.step e = some t) : Tidy t := by
  refine ⟨counts_step h.counts hstep, ?_, ?_⟩
  · intro id'
    rcases step_cases hstep with ⟨callback, id, c, _, hc, rfl⟩ |
      ⟨callback, id, shaped, c, effect, rfl, hc, rfl⟩ | ⟨key, rfl⟩
    · rw [containers_set]
      split
      · exact (h.ordered id).begin hc
      · exact h.ordered id'
    · rw [containers_apply, containers_set]
      split
      · exact (h.ordered id).next hok hc
      · exact h.ordered id'
    · exact h.ordered id'
  · intro key id' hkey
    rcases step_cases hstep with ⟨callback, id, c, _, hc, rfl⟩ |
      ⟨callback, id, shaped, c, effect, rfl, hc, rfl⟩ | ⟨key', rfl⟩
    · have hbacks := h.backed key id' hkey
      rw [containers_set]
      split
      · rename_i heq
        rw [heq] at hbacks
        exact hbacks.begin hc
      · exact hbacks
    · rw [containers_apply, containers_set]
      rcases reports_apply hkey with ⟨rfl, rfl⟩ | ⟨hold, hdelete⟩
      · rw [if_pos rfl]
        exact Container.backs_of_store (h.counts id') (h.ordered id') hc
      · have hbacks := h.backed key id' hold
        split
        · rename_i heq
          subst heq
          exact (hbacks.next (h.counts id') (h.ordered id') hok hc).resolve_right fun heffect =>
            hdelete heffect rfl
        · exact hbacks
    · by_cases heq : key = key'
      · subst heq
        simp only [Function.update_self] at hkey
        cases hkey
      · simp only [Function.update_of_ne heq] at hkey
        exact h.backed key id' hkey

theorem tidy_run {events : List Event} (h : Tidy s) (hok : s.orderlyRun events = true)
    (hrun : s.run events = some t) : Tidy t := by
  induction events generalizing s with
  | nil =>
    cases hrun
    exact h
  | cons e es ih =>
    obtain ⟨u, hu, hrun⟩ := Option.bind_eq_some_iff.1 hrun
    simp only [State.orderlyRun, Bool.and_eq_true, hu, Option.all_some] at hok
    exact ih (tidy_step h hok.1 hu) hok.2 hrun

/-- The stop or the removal of a container makes its next operation. -/
def Event.withdraws (e : Event) (id : ContainerID) : Prop :=
  ∃ shaped, e = .next .stop id shaped ∨ e = .next .remove id shaped

/-- A report that names another container survives it. -/
theorem report_survives {id id' : ContainerID} {key : String} (hstep : s.step e = some t)
    (he : e.withdraws id) (hne : id' ≠ id) (hkey : s.startedRestoreContainers key = some id') :
    t.startedRestoreContainers key = some id' := by
  have hkeep : ∀ effect c, (∀ key', effect ≠ .store key') →
      ((s.set id c).apply id effect).startedRestoreContainers key = some id' := by
    intro effect c hstore
    cases effect with
    | none => exact hkey
    | add pod => exact hkey
    | store key' => exact absurd rfl (hstore key')
    | compareAndDelete key' =>
      simp only [State.apply]
      split
      · rename_i hown
        have hother : key ≠ key' := by
          rintro rfl
          have : s.startedRestoreContainers key = some id := hown
          rw [hkey] at this
          exact hne (Option.some.inj this)
        simp only [Function.update_of_ne hother]
        exact hkey
      · exact hkey
  obtain ⟨shaped, rfl | rfl⟩ := he
  · obtain ⟨⟨c, effect⟩, hc, rfl⟩ := Option.map_eq_some_iff.1 hstep
    refine hkeep effect c fun key' heffect => ?_
    subst heffect
    cases next_cases hc
  · obtain ⟨⟨c, effect⟩, hc, rfl⟩ := Option.map_eq_some_iff.1 hstep
    refine hkeep effect c fun key' heffect => ?_
    subst heffect
    cases next_cases hc

end Steps

/-- Whatever the callbacks of any number of containers do to each other: a container is reported at most
once, and a stop or a removal leaves the reports of other containers alone. As long as no stop or removal
looks for a container among the started ones during its start, or removes it from there unstopped: a
container that was stopped or removed has no report when its callbacks are over, and one that was removed
is in no map of the plugin. -/
theorem reports_withdrawn {events : List Event} {s : State} (hrun : State.initial.run events = some s) :
    (∀ id, (s.containers id).calls.length ≤ 1) ∧
    (∀ e t, s.step e = some t → ∀ id, e.withdraws id → ∀ key id', id' ≠ id →
      s.startedRestoreContainers key = some id' → t.startedRestoreContainers key = some id') ∧
    (State.initial.orderlyRun events = true →
      (∀ id, (s.containers id).stop = .returned ∨ (s.containers id).remove = .returned →
        (s.containers id).quiet → ∀ key, s.startedRestoreContainers key ≠ some id) ∧
      ∀ id, (s.containers id).remove = .returned →
        (s.containers id).created = none ∧ (s.containers id).started = none) := by
  refine ⟨fun id => ?_, fun e t hstep id he key id' hne hkey => report_survives hstep he hne hkey,
    fun hok => ?_⟩
  · exact (counts_run tidy_initial.counts hrun id).length_le
  · have htidy := tidy_run tidy_initial hok hrun
    constructor
    · intro id hover hquiet key hkey
      obtain ⟨d, _, _, hheld⟩ := htidy.backed key id hkey
      have hclear : ∀ d, (s.containers id).stop ≠ .clear d := by
        intro d hclear
        rcases hquiet.2.2.1 with hidle | hreturned
        · rw [hclear] at hidle
          cases hidle
        · rw [hclear] at hreturned
          cases hreturned
      have hstarted := hheld.resolve_right (hclear d)
      rcases hover with hstop | hremove
      · have hnone := ((htidy.ordered id).stopped (by rw [hstop]; rfl)).1
        rw [hnone] at hstarted
        cases hstarted
      · have hnone := ((htidy.ordered id).removed hremove).1
        rw [hnone] at hstarted
        cases hstarted
    · intro id hremove
      exact ⟨(htidy.ordered id).forgotten (.inr (by rw [hremove]; rfl)), ((htidy.ordered id).removed hremove).1⟩

namespace Sample

def destination : Destination := ⟨("default", "pod"), "u", "main"⟩

/-- A container starts, is stopped and removed, and its replacement starts. -/
def replaced : List Event :=
  [.begin .create "a", .next .create "a" (some destination), .begin .postStart "a",
    .next .postStart "a" none, .next .postStart "a" none, .next .postStart "a" none,
    .next .postStart "a" none, .begin .create "b", .next .create "b" (some destination),
    .begin .stop "a", .next .stop "a" none, .next .stop "a" none, .begin .postStart "b",
    .next .postStart "b" none, .next .postStart "b" none, .next .postStart "b" none,
    .next .stop "a" none, .begin .remove "a", .next .remove "a" none, .next .remove "a" none]

/-- The stop of a container falls between the operations of its start. -/
def missed : List Event :=
  [.begin .create "a", .next .create "a" (some destination), .begin .postStart "a",
    .next .postStart "a" none, .begin .stop "a", .next .stop "a" none, .next .stop "a" none,
    .next .postStart "a" none, .next .postStart "a" none, .next .postStart "a" none]

end Sample

/-- The replacement keeps its report through the stop and the removal of the first container. -/
theorem reports_withdrawn_replaced :
    ∃ s, State.initial.run Sample.replaced = some s ∧ s.startedRestoreContainers "u/main" = some "b" ∧
      (∀ key, s.startedRestoreContainers key ≠ some "a") ∧ (s.containers "a").started = none := by
  have hend : (State.initial.run Sample.replaced).any (fun s =>
      s.startedRestoreContainers "u/main" = some "b" && (s.containers "a").remove = .returned &&
      (s.containers "a").stop = .returned && (s.containers "a").post = .returned &&
      (s.containers "a").create = .returned) = true := by decide +kernel
  simp only [Option.any_eq_true, Bool.and_eq_true, decide_eq_true_eq] at hend
  obtain ⟨s, hs, ⟨⟨⟨hreport, hremove⟩, hstop⟩, hpost⟩, hcreate⟩ := hend
  obtain ⟨_, _, hordered⟩ := reports_withdrawn hs
  obtain ⟨hgone, hremoved⟩ := hordered (by decide +kernel)
  exact ⟨s, hs, hreport, hgone "a" (.inl hstop) ⟨.inr hcreate, .inr hpost, .inr hstop, .inr hremove⟩,
    (hremoved "a" hremove).2⟩

/-- All callbacks of the container have returned, its stop among them, and its report stays. -/
theorem report_left :
    ∃ s, State.initial.run Sample.missed = some s ∧ (s.containers "a").stop = .returned ∧
      (s.containers "a").quiet ∧ s.startedRestoreContainers "u/main" = some "a" := by
  have hend : (State.initial.run Sample.missed).any (fun s => (s.containers "a").stop = .returned &&
      (s.containers "a").create = .returned && (s.containers "a").post = .returned &&
      (s.containers "a").remove = .idle && s.startedRestoreContainers "u/main" = some "a") = true := by
    decide +kernel
  simp only [Option.any_eq_true, Bool.and_eq_true, decide_eq_true_eq] at hend
  obtain ⟨s, hs, ⟨⟨⟨hstop, hcreate⟩, hpost⟩, hremove⟩, hreport⟩ := hend
  exact ⟨s, hs, hstop, ⟨.inr hcreate, .inr hpost, .inr hstop, .inl hremove⟩, hreport⟩

end NriReports
