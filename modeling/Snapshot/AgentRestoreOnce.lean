import Snapshot.AgentRestore

/-! One restore for each destination. A pass with a destination pending repeats all of them, and only
restore-complete is looked at before `executor.Restore` runs again: a destination that failed is
restored a second time once its container is back. Over the passes that find no container for such
a destination, every destination is restored at most once and success means that each was restored. -/
namespace AgentRestore

open PodSnapshot (Condition)
open ApiObjects (Delivery)

/-! ## Workers -/

/-- The destination is used up: a run did not end with restore-complete, or restore-failed was
written. -/
def Work.spoils (w : Work) : Bool := w.marked || (w.ran && !w.completed)

def Work.restores (w : Work) : Bool := w.ran && w.completed

/-- The restore of the destination has ended, as succeeded or as failed. -/
def Work.ends (w : Work) : Bool := w.completed || w.marked

section Work

variable (env : WorkerEnv)

theorem failRestore_spec (w : Work) (e : String) :
    let v := failRestore env w e
    v.ran = w.ran ∧ v.completed = w.completed ∧ v.sentinels.complete = w.sentinels.complete ∧
      v.error ≠ none := by
  simp only [failRestore, markRestoreFailed]
  split <;> split
  · exact ⟨rfl, rfl, rfl, nofun⟩
  · exact ⟨rfl, rfl, rfl, nofun⟩
  · split <;> exact ⟨rfl, rfl, rfl, nofun⟩
  · split <;> exact ⟨rfl, rfl, rfl, nofun⟩

theorem notifyPostRestore_spec (w : Work) :
    let v := notifyPostRestore env w
    v.ran = w.ran ∧ v.completed = w.completed ∧ v.sentinels.complete = w.sentinels.complete ∧
      (v.error = none → v.marked = w.marked) := by
  simp only [notifyPostRestore]
  split
  · exact ⟨rfl, rfl, rfl, fun _ => rfl⟩
  · rename_i e _
    simp only [failPostRestore]
    split
    · exact ⟨rfl, rfl, rfl, nofun⟩
    · obtain ⟨hran, hcompleted, hcomplete, hfailed⟩ := failRestore_spec env w e
      exact ⟨hran, hcompleted, hcomplete, fun hnone => absurd hnone hfailed⟩

theorem completeRestore_spec (w : Work) (hopen : w.completed = false) :
    let v := completeRestore env w
    v.ran = w.ran ∧ (v.completed = true ∧ v.sentinels.complete = true ∨
        v.completed = false ∧ v.sentinels.complete = w.sentinels.complete) ∧
      (v.error = none → v.completed = true ∧ v.marked = w.marked) := by
  simp only [completeRestore, markRestoreFailed]
  split
  · exact ⟨rfl, .inl ⟨rfl, rfl⟩, fun _ => ⟨rfl, rfl⟩⟩
  · split <;> split
    · exact ⟨rfl, .inr ⟨hopen, rfl⟩, nofun⟩
    · exact ⟨rfl, .inr ⟨hopen, rfl⟩, nofun⟩
    · exact ⟨rfl, .inr ⟨hopen, rfl⟩, nofun⟩
    · exact ⟨rfl, .inr ⟨hopen, rfl⟩, nofun⟩

/-- Without an error, the run has written restore-complete and nothing else. -/
theorem restoreOnce_spec (s : Sentinels) :
    let v := restoreOnce env s
    v.ran = true ∧ (v.completed = true → v.sentinels.complete = true) ∧
      (v.sentinels.complete = true → v.completed = true ∨ s.complete = true) ∧
      (v.error = none → v.completed = true ∧ v.marked = false) := by
  simp only [restoreOnce]
  split
  · exact ⟨rfl, nofun, .inr, nofun⟩
  · rename_i message cleared _
    obtain ⟨hran, hcompleted, hcomplete, hfailed⟩ :=
      failRestore_spec env { Work.idle (cleared.apply s) with ran := true } message
    refine ⟨hran, fun h => absurd (hcompleted.symm.trans h) nofun, fun h => .inr ?_,
      fun hnone => absurd hnone hfailed⟩
    rw [hcomplete] at h
    cases cleared with
    | nothing => exact h
    | complete | both => cases h
  · obtain ⟨hran, hcomplete, hdone⟩ :=
      completeRestore_spec env { Work.idle ⟨false, false⟩ with ran := true } rfl
    generalize completeRestore env { Work.idle ⟨false, false⟩ with ran := true } = w at *
    have hsame : w.completed = w.sentinels.complete := by
      rcases hcomplete with ⟨hc, hs⟩ | ⟨hc, hs⟩
      · exact hc.trans hs.symm
      · exact hc.trans hs.symm
    split
    · rename_i herror
      refine ⟨hran, fun h => hsame.symm.trans h, fun h => .inl (hsame.trans h), fun hnone => ?_⟩
      rw [hnone] at herror
      cases herror
    · rename_i herror
      have hnone : w.error = none := by simpa using herror
      obtain ⟨hran', hcompleted', hcomplete', hmarked'⟩ := notifyPostRestore_spec env w
      rw [hcompleted', hcomplete', ← hsame]
      refine ⟨hran'.trans hran, fun h => h, .inl, fun h => ?_⟩
      exact ⟨(hdone hnone).1, (hmarked' h).trans (hdone hnone).2⟩

/-- What a worker does to a destination with these sentinels. -/
structure Works (recovering : Bool) (s : Sentinels) (v : Work) : Prop where
  completed : v.completed = true → v.ran = true
  ran : v.ran = true → recovering = true → s.complete = false
  kept : v.ran = false → v.sentinels.complete = s.complete
  restored : v.restores = true → v.sentinels.complete = true
  shown : v.sentinels.complete = true → v.restores = true ∨ s.complete = true

theorem works_idle (recovering : Bool) (s : Sentinels) : Works recovering s (.idle s) :=
  ⟨nofun, nofun, fun _ => rfl, nofun, .inr⟩

theorem works_restoreOnce {recovering : Bool} {s : Sentinels}
    (h : recovering = true → s.complete = false) : Works recovering s (restoreOnce env s) := by
  obtain ⟨hran, hcomplete, hshown, _⟩ := restoreOnce_spec env s
  have hrestores : (restoreOnce env s).restores = (restoreOnce env s).completed := by
    rw [Work.restores, hran, Bool.true_and]
  refine ⟨fun _ => hran, fun _ => h, fun hnot => absurd (hran.symm.trans hnot) nofun, ?_, ?_⟩
  · rw [hrestores]
    exact hcomplete
  · rw [hrestores]
    exact hshown

theorem recoverCompletedRestore_ok {s : Sentinels} {b : Bool}
    (h : recoverCompletedRestore env s = .ok b) : s.complete = b := by
  simp only [recoverCompletedRestore] at h
  split at h
  · cases h
  · split at h
    · cases h
    · exact Except.ok.inj h

/-- A worker without an error: the destination was restored now, or before. -/
def Work.Succeeds (s : Sentinels) (v : Work) : Prop :=
  v.marked = false ∧ (v.ran = true → v.completed = true) ∧ (v.ran = false → s.complete = true)

theorem restoreOnce_succeeds {s : Sentinels} (h : (restoreOnce env s).error = none) :
    Work.Succeeds s (restoreOnce env s) := by
  obtain ⟨hran, _, _, hdone⟩ := restoreOnce_spec env s
  obtain ⟨hcompleted, hmarked⟩ := hdone h
  exact ⟨hmarked, fun _ => hcompleted, fun hnot => absurd (hran.symm.trans hnot) nofun⟩

theorem runRestore_spec (recovering : Bool) (s : Sentinels) :
    let v := runRestore env recovering s
    Works recovering s v ∧ (v.error = none → v.Succeeds s) := by
  simp only [runRestore]
  split
  · split
    · exact ⟨⟨nofun, nofun, fun _ => rfl, nofun, .inr⟩, nofun⟩
    · rename_i hrecover
      have hcomplete := recoverCompletedRestore_ok env hrecover
      obtain ⟨hran, hcompleted, hsame, hmarked⟩ := notifyPostRestore_spec env (Work.idle s)
      refine ⟨⟨fun h => ?_, fun h => ?_, fun _ => hsame, fun h => ?_, fun _ => .inr hcomplete⟩,
        fun h => ⟨hmarked h, fun hr => ?_, fun _ => hcomplete⟩⟩
      · exact absurd (hcompleted.symm.trans h) nofun
      · exact absurd (hran.symm.trans h) nofun
      · rw [Work.restores, hran] at h
        cases h
      · exact absurd (hran.symm.trans hr) nofun
    · rename_i hrecover
      exact ⟨works_restoreOnce env fun _ => recoverCompletedRestore_ok env hrecover, restoreOnce_succeeds env⟩
  · rename_i hnot
    exact ⟨works_restoreOnce env fun h => absurd h hnot, restoreOnce_succeeds env⟩

theorem restoreDestination_spec (recovering : Bool) (s : Sentinels) (destination : String) :
    let v := restoreDestination env recovering s destination
    Works recovering s v.1 ∧ (v.2.state = .succeeded → v.1.Succeeds s) ∧
      (env.container = none → v.1.ran = false ∧ v.2.state ≠ .succeeded) := by
  simp only [restoreDestination]
  split
  · exact ⟨works_idle recovering s, nofun, fun _ => ⟨rfl, nofun⟩⟩
  · split
    · exact ⟨works_idle recovering s, nofun, fun _ => ⟨rfl, nofun⟩⟩
    · rename_i container hcontainer
      obtain ⟨hworks, hsucceeds⟩ := runRestore_spec env recovering s
      refine ⟨hworks, fun hstate => hsucceeds ?_, fun hnone => ?_⟩
      · simp only [Work.result] at hstate
        split at hstate
        · assumption
        · cases hstate
        · cases hstate
        · cases hstate
      · rw [hcontainer] at hnone
        cases hnone

end Work

/-! ## Verdicts -/

/-- The lists of a tally hold the destinations of the results with that state. -/
theorem tally_lists (results : List Result) (t : RestoreTally) :
    (results.foldl RestoreTally.add t).pending =
        t.pending ++ (results.filter (·.state = .pending)).map (·.destination) ∧
      (results.foldl RestoreTally.add t).failed =
        t.failed ++ (results.filter (·.state = .failed)).map (·.destination) ∧
      (results.foldl RestoreTally.add t).incompatible =
        t.incompatible ++ (results.filter (·.state = .incompatible)).map (·.destination) := by
  induction results generalizing t with
  | nil => simp
  | cons r results ih =>
    obtain ⟨hpending, hfailed, hincompatible⟩ := ih (t.add r)
    rw [List.foldl_cons, hpending, hfailed, hincompatible]
    cases hstate : r.state <;> simp [RestoreTally.add, hstate]

/-- Success is the verdict on results that all succeeded. -/
theorem verdict_succeeded {results : List Result} {name : String}
    (h : ((tallyRestoreResults results).verdict name).status = true) :
    ∀ r ∈ results, r.state = .succeeded := by
  obtain ⟨hpending, hfailed, hincompatible⟩ :=
    tally_lists results ⟨results.length, [], [], [], [], [], []⟩
  simp only [RestoreTally.verdict] at h
  split at h
  · cases h
  · rename_i hnone
    split at h
    · rename_i hgood
      rw [ne_eq, not_not, tallyRestoreResults, hpending] at hnone
      rw [tallyRestoreResults, hfailed, hincompatible] at hgood
      simp only [List.nil_append, List.map_eq_nil_iff, List.filter_eq_nil_iff, decide_eq_true_eq]
        at hnone hgood
      intro r hr
      cases hstate : r.state with
      | succeeded => rfl
      | pending => exact absurd hstate (hnone r hr)
      | failed => exact absurd hstate (hgood.1 r hr)
      | incompatible => exact absurd hstate (hgood.2 r hr)
    · split at h
      · cases h
      · split at h
        · cases h
        · split at h <;> cases h

theorem isRestoreSucceeded_status {c : Condition} (h : isRestoreSucceeded (some c) = true) :
    c.status = true := by
  simp only [isRestoreSucceeded, classifyRestoreOutcome] at h
  split at h
  · assumption
  · split at h
    · cases h
    · split at h
      · cases h
      · split at h <;> cases h

/-! ## Passes -/

section Passes

variable (pod : RestorePod) (env : PassEnv)

/-- A pass that starts no worker and records no success. -/
def Quiet (s : State) (x : State × PassLog) : Prop :=
  x.2 = .none ∧ x.1.sentinels = s.sentinels ∧
    (isRestoreSucceeded x.1.condition = true → isRestoreSucceeded s.condition = true)

theorem quiet_same (s : State) (handled : Bool) : Quiet s ({ s with handled := handled }, .none) :=
  ⟨rfl, rfl, fun h => h⟩

theorem quiet_apply (s : State) (delivery : Delivery) {c : Condition} (h : c.status = false) :
    Quiet s (applyRestoredCondition s delivery c, .none) := by
  refine ⟨rfl, ?_, fun hs => ?_⟩
  · cases delivery <;> rfl
  · cases delivery with
    | failed => exact hs
    | answered | lost => exact absurd (h.symm.trans (isRestoreSucceeded_status hs)) nofun

theorem quiet_finish (s : State) (delivery : Delivery) {c : Condition} (h : c.status = false) :
    Quiet s (finishRestore s delivery c, .none) := by
  refine ⟨rfl, ?_, fun hs => ?_⟩
  · cases delivery <;> rfl
  · cases delivery with
    | failed => exact hs
    | answered | lost => exact absurd (h.symm.trans (isRestoreSucceeded_status hs)) nofun

/-- A pass whose workers ran: what they did, and that success needs all of them. -/
def Worked (s : State) (x : State × PassLog) : Prop :=
  (x.2 = fun d => if d ∈ pod.destinations then some (work env s d).1 else none) ∧
    (x.1.sentinels = fun d =>
      if d ∈ pod.destinations then (work env s d).1.sentinels else s.sentinels d) ∧
    (isRestoreSucceeded x.1.condition = true →
      ∀ d ∈ pod.destinations, (work env s d).2.state = .succeeded)

theorem recordRestoreResults_spec (s : State) (results : List Result)
    (hopen : isRestoreSucceeded s.condition = false) :
    (recordRestoreResults pod env s results).sentinels = s.sentinels ∧
      (isRestoreSucceeded (recordRestoreResults pod env s results).condition = true →
        ∀ r ∈ results, r.state = .succeeded) := by
  have hverdict : ((tallyRestoreResults results).verdict pod.snapshotName).status = true →
      ∀ r ∈ results, r.state = .succeeded := verdict_succeeded
  simp only [recordRestoreResults]
  split
  · constructor
    · cases env.record <;> rfl
    · cases env.record with
      | failed => exact fun hs => absurd (hopen.symm.trans hs) nofun
      | answered | lost => exact fun hs => hverdict (isRestoreSucceeded_status hs)
  · constructor
    · cases env.record <;> rfl
    · cases env.record with
      | failed => exact fun hs => absurd (hopen.symm.trans hs) nofun
      | answered | lost => exact fun hs => hverdict (isRestoreSucceeded_status hs)

theorem restorePodContainers_cases (s : State) :
    Quiet s (restorePodContainers pod env s) ∨ Worked pod env s (restorePodContainers pod env s) := by
  simp only [restorePodContainers]
  cases env.begin with
  | failed | lost => exact .inl (quiet_apply s _ rfl)
  | answered =>
    obtain ⟨hsentinels, hresults⟩ := recordRestoreResults_spec pod env
      { applyRestoredCondition s .answered ⟨false, "RestoreInProgress", "Restoring " ++
          toString pod.destinations.length ++ " destination container(s) from PodSnapshot " ++
          pod.snapshotName⟩ with
        sentinels := fun d =>
          if d ∈ pod.destinations then (work env s d).1.sentinels else s.sentinels d }
      (pod.destinations.map fun d => (work env s d).2) rfl
    refine .inr ⟨rfl, hsentinels, fun hs d hd => ?_⟩
    exact hresults hs _ (List.mem_map_of_mem hd)

theorem reconcileActivePod_cases (s : State) :
    Quiet s (reconcileActivePod pod env s) ∨ Worked pod env s (reconcileActivePod pod env s) := by
  simp only [reconcileActivePod]
  split
  · exact .inl (quiet_same s s.handled)
  · split
    · exact .inl (quiet_finish s _ rfl)
    · simp only [reconcileRestorePod]
      split
      · split
        · exact restorePodContainers_cases pod env s
        · exact .inl (quiet_same s s.handled)
      · left
        simp only [handleRestorePreflightError]
        split
        · exact quiet_same s s.handled
        · exact quiet_finish s _ rfl
        · split
          · exact quiet_same s s.handled
          · exact quiet_apply s _ rfl
        · exact quiet_finish s _ rfl

theorem pass_cases (s : State) : Quiet s (processRestoreQueueItem pod env s) ∨
    Worked pod env s (processRestoreQueueItem pod env s) := by
  simp only [processRestoreQueueItem]
  split
  · exact reconcileActivePod_cases pod env { s with handled := false }
  · split
    · exact .inl (quiet_same s s.handled)
    · split
      · exact .inl (quiet_same s true)
      · exact reconcileActivePod_cases pod env s

end Passes

/-! ## Runs -/

/-- A sequence of passes, with what their workers did. -/
structure Run where
  state : State
  logs : List PassLog

/-- A Pod that no pass has seen. -/
def Run.start : Run := ⟨⟨none, false, fun _ => ⟨false, false⟩⟩, []⟩

variable (pod : RestorePod)

def Run.pass (r : Run) (env : PassEnv) : Run :=
  ⟨(processRestoreQueueItem pod env r.state).1, r.logs ++ [(processRestoreQueueItem pod env r.state).2]⟩

def Run.passes (r : Run) (envs : List PassEnv) : Run := envs.foldl (Run.pass pod) r

def spoiled (logs : List PassLog) (d : String) : Bool := logs.any fun log => (log d).any Work.spoils

def restored (logs : List PassLog) (d : String) : Bool := logs.any fun log => (log d).any Work.restores

/-- How often `executor.Restore` was run for a destination. -/
def runs (logs : List PassLog) (d : String) : ℕ := logs.countP fun log => (log d).any (·.ran)

/-- No worker finds a container for a destination that is used up; for one that was restored only
in a pass that finds the restore in progress. -/
def spares (r : Run) (env : PassEnv) : Bool :=
  pod.destinations.all fun d =>
    ((processRestoreQueueItem pod env r.state).2 d).isNone || (env.workers d).container.isNone ||
      (!spoiled r.logs d && (!restored r.logs d || restoreInProgress r.state.condition))

/-- Every pass of the run spares what is used up. -/
def sparing : Run → List PassEnv → Bool
  | _, [] => true
  | r, env :: envs => spares pod r env && sparing (r.pass pod env) envs

structure Inv (r : Run) : Prop where
  /-- The sentinel says whether a destination was restored, until the destination is used up. -/
  kept : ∀ d, restored r.logs d = true → spoiled r.logs d = false →
    (r.state.sentinels d).complete = true
  shown : ∀ d, (r.state.sentinels d).complete = true → restored r.logs d = true
  completed : ∀ log ∈ r.logs, ∀ d w, log d = some w → w.completed = true → w.ran = true
  once : ∀ d, runs r.logs d ≤ 1
  settled : r.logs.Pairwise fun x y =>
    ∀ d a b, x d = some a → y d = some b → a.ends = true → b.ran = false
  verdict : isRestoreSucceeded r.state.condition = true → ∀ d ∈ pod.destinations,
    restored r.logs d = true ∧ spoiled r.logs d = false

section Logs

variable (logs : List PassLog) (log : PassLog) (d : String)

theorem spoiled_append : spoiled (logs ++ [log]) d = (spoiled logs d || (log d).any Work.spoils) := by
  simp [spoiled]

theorem restored_append : restored (logs ++ [log]) d = (restored logs d || (log d).any Work.restores) := by
  simp [restored]

theorem runs_append : runs (logs ++ [log]) d = runs logs d + if (log d).any (·.ran) then 1 else 0 := by
  simp [runs, List.countP_append, List.countP_singleton]

variable {logs d}

/-- A destination that neither was restored nor is used up has not been run. -/
theorem runs_eq_zero (hrestored : restored logs d = false) (hspoiled : spoiled logs d = false) :
    runs logs d = 0 := by
  simp only [restored, spoiled, List.any_eq_false] at hrestored hspoiled
  rw [runs, List.countP_eq_zero]
  intro log hlog hran
  have hr := hrestored log hlog
  have hs := hspoiled log hlog
  cases hw : log d with
  | none => simp [hw] at hran
  | some w =>
    simp only [hw, Option.any_some, Work.restores, Work.spoils] at hran hr hs
    simp only [hran, Bool.true_and] at hr hs
    cases hc : w.completed <;> simp [hc] at hr hs

/-- A restore that has ended leaves its destination restored or used up. -/
theorem restored_or_spoiled {w : Work} (hlog : log ∈ logs) (hw : log d = some w)
    (hcompleted : w.completed = true → w.ran = true) (hends : w.ends = true) :
    restored logs d = true ∨ spoiled logs d = true := by
  rw [Work.ends, Bool.or_eq_true] at hends
  rcases hends with hc | hm
  · refine .inl (List.any_eq_true.2 ⟨log, hlog, ?_⟩)
    simp [hw, Work.restores, hc, hcompleted hc]
  · refine .inr (List.any_eq_true.2 ⟨log, hlog, ?_⟩)
    simp [hw, Work.spoils, hm]

end Logs

variable {pod}

/-- One more pass: its workers act as workers do, and run only what was neither restored nor used
up before. -/
theorem Inv.append {r : Run} (h : Inv pod r) {t : State} {log : PassLog} (recovering : Bool)
    (hnone : ∀ d, log d = none → t.sentinels d = r.state.sentinels d)
    (hsome : ∀ d w, log d = some w → Works recovering (r.state.sentinels d) w ∧
      t.sentinels d = w.sentinels ∧
      (w.ran = true → restored r.logs d = false ∧ spoiled r.logs d = false))
    (hverdict : isRestoreSucceeded t.condition = true → ∀ d ∈ pod.destinations,
      restored (r.logs ++ [log]) d = true ∧ spoiled (r.logs ++ [log]) d = false) :
    Inv pod ⟨t, r.logs ++ [log]⟩ := by
  refine ⟨fun d hr hs => ?_, fun d hc => ?_, fun x hx d w hw => ?_, fun d => ?_, ?_, hverdict⟩
  · rw [restored_append] at hr
    rw [spoiled_append, Bool.or_eq_false_iff] at hs
    cases hw : log d with
    | none =>
      rw [hw] at hr
      rw [hnone d hw]
      exact h.kept d (by simpa using hr) hs.1
    | some w =>
      obtain ⟨hworks, hsame, hfresh⟩ := hsome d w hw
      rw [hw, Option.any_some, Bool.or_eq_true] at hr
      rw [hsame]
      cases hran : w.ran with
      | true =>
        rcases hr with hr | hr
        · exact absurd ((hfresh hran).1.symm.trans hr) nofun
        · exact hworks.restored hr
      | false =>
        rw [hworks.kept hran]
        rcases hr with hr | hr
        · exact h.kept d hr hs.1
        · rw [Work.restores, hran] at hr
          cases hr
  · rw [restored_append]
    cases hw : log d with
    | none =>
      rw [hnone d hw] at hc
      simp [h.shown d hc]
    | some w =>
      obtain ⟨hworks, hsame, _⟩ := hsome d w hw
      rw [hsame] at hc
      rcases hworks.shown hc with hr | hc
      · simp [hr]
      · simp [h.shown d hc]
  · rcases List.mem_append.1 hx with hx | hx
    · exact h.completed x hx d w hw
    · rw [List.mem_singleton.1 hx] at hw
      exact (hsome d w hw).1.completed
  · rw [runs_append]
    cases hw : log d with
    | none => simpa using h.once d
    | some w =>
      cases hran : w.ran with
      | false => simpa [hran] using h.once d
      | true =>
        obtain ⟨hr, hs⟩ := (hsome d w hw).2.2 hran
        simp [hran, runs_eq_zero hr hs]
  · refine List.pairwise_append.2 ⟨h.settled, List.pairwise_singleton _ _, ?_⟩
    intro x hx y hy d a b ha hb hends
    rw [List.mem_singleton.1 hy] at hb
    by_contra hran
    obtain ⟨hr, hs⟩ := (hsome d b hb).2.2 (by simpa using hran)
    rcases restored_or_spoiled x hx ha (h.completed x hx d a ha) hends with h' | h'
    · exact absurd (hr.symm.trans h') nofun
    · exact absurd (hs.symm.trans h') nofun

theorem inv_start : Inv pod Run.start :=
  ⟨nofun, nofun, nofun, fun _ => Nat.zero_le _, List.Pairwise.nil, nofun⟩

theorem inv_pass {r : Run} (h : Inv pod r) {env : PassEnv} (hspares : spares pod r env = true) :
    Inv pod (r.pass pod env) := by
  have hcases := pass_cases pod env r.state
  rw [Run.pass]
  simp only [spares, List.all_eq_true, Bool.or_eq_true, Bool.and_eq_true, Bool.not_eq_true',
    Option.isNone_iff_eq_none] at hspares
  generalize processRestoreQueueItem pod env r.state = x at hcases hspares ⊢
  obtain ⟨t, log⟩ := x
  rcases hcases with ⟨hlog, hsentinels, hcondition⟩ | ⟨hlog, hsentinels, hcondition⟩
  · simp only at hlog hsentinels
    subst hlog
    refine h.append false (fun d _ => by rw [hsentinels]) nofun fun hs d hd => ?_
    rw [restored_append, spoiled_append]
    simpa [PassLog.none] using h.verdict (hcondition hs) d hd
  · simp only at hlog hsentinels
    -- a container was found for the destination only if it was spared
    have found : ∀ d ∈ pod.destinations, (env.workers d).container ≠ none →
        spoiled r.logs d = false ∧
          (restored r.logs d = false ∨ restoreInProgress r.state.condition = true) := by
      intro d hd hcontainer
      rcases hspares d hd with (hnone | hnone) | hspared
      · simp [hlog, hd] at hnone
      · exact absurd hnone hcontainer
      · exact hspared
    have hwork := fun d => restoreDestination_spec (env.workers d) (restoreInProgress r.state.condition)
      (r.state.sentinels d) d
    refine h.append (restoreInProgress r.state.condition) ?_ ?_ ?_
    · intro d hd
      rw [hsentinels]
      by_cases hmem : d ∈ pod.destinations
      · simp [hlog, hmem] at hd
      · simp [hmem]
    · intro d w hw
      by_cases hmem : d ∈ pod.destinations
      · obtain ⟨hworks, _, hidle⟩ := hwork d
        simp only [hlog, hmem, if_true, Option.some.injEq] at hw
        subst hw
        refine ⟨hworks, by simp [hsentinels, hmem], fun hran => ?_⟩
        have hcontainer : (env.workers d).container ≠ none := fun hnone =>
          absurd ((hidle hnone).1.symm.trans hran) nofun
        obtain ⟨hspoiled, hrestored⟩ := found d hmem hcontainer
        refine ⟨?_, hspoiled⟩
        by_contra hr
        rw [Bool.not_eq_false] at hr
        rcases hrestored with hnot | hprogress
        · exact absurd (hnot.symm.trans hr) nofun
        · exact absurd ((hworks.ran hran hprogress).symm.trans (h.kept d hr hspoiled)) nofun
      · simp [hlog, hmem] at hw
    · intro hs d hd
      obtain ⟨_, hsucceeds, hidle⟩ := hwork d
      have hstate := hcondition hs d hd
      obtain ⟨hmarked, hcompleted, hcomplete⟩ := hsucceeds hstate
      obtain ⟨hspoiled, _⟩ := found d hd fun hnone => (hidle hnone).2 hstate
      have hw : log d = some (work env r.state d).1 := by simp [hlog, hd]
      have hm : (work env r.state d).1.marked = false := hmarked
      change restored (r.logs ++ [log]) d = true ∧ spoiled (r.logs ++ [log]) d = false
      rw [restored_append, spoiled_append, hw, hspoiled, Option.any_some, Option.any_some,
        Work.restores, Work.spoils, hm]
      cases hran : (work env r.state d).1.ran with
      | true =>
        have hc : (work env r.state d).1.completed = true := hcompleted hran
        simp [hc]
      | false => simp [h.shown d (hcomplete hran)]

theorem inv_passes {envs : List PassEnv} {r : Run} (h : Inv pod r)
    (hsparing : sparing pod r envs = true) : Inv pod (r.passes pod envs) := by
  induction envs generalizing r with
  | nil => exact h
  | cons env envs ih =>
    rw [sparing, Bool.and_eq_true] at hsparing
    exact ih (inv_pass h hsparing.1) hsparing.2

theorem runs_pos_of_restored {logs : List PassLog} {d : String} (h : restored logs d = true) :
    0 < runs logs d := by
  obtain ⟨log, hlog, hr⟩ := List.any_eq_true.1 h
  refine List.countP_pos_iff.2 ⟨log, hlog, ?_⟩
  cases hw : log d with
  | none => simp [hw] at hr
  | some w =>
    rw [hw, Option.any_some, Work.restores, Bool.and_eq_true] at hr
    simpa using hr.1

/-- A restore that has ended is not run again, and a Pod is reported as restored only when the one
restore of each destination succeeded, in every run whose workers find no container for a used up
destination. -/
theorem restored_once (pod : RestorePod) (envs : List PassEnv) (h : sparing pod .start envs = true) :
    let r := Run.start.passes pod envs
    (r.logs.Pairwise fun x y =>
      ∀ d a b, x d = some a → y d = some b → a.ends = true → b.ran = false) ∧
    (isRestoreSucceeded r.state.condition = true → ∀ d ∈ pod.destinations,
      runs r.logs d = 1 ∧ restored r.logs d = true ∧ spoiled r.logs d = false) := by
  have hinv := inv_passes (inv_start : Inv pod Run.start) h
  refine ⟨hinv.settled, fun hs d hd => ?_⟩
  obtain ⟨hrestored, hspoiled⟩ := hinv.verdict hs d hd
  exact ⟨Nat.le_antisymm (hinv.once d) (runs_pos_of_restored hrestored), hrestored, hspoiled⟩

/-! ## Two destinations, one of them late -/

def samplePod : RestorePod :=
  ⟨"default/worker", "snapshot", ["main", "engine"], by decide, by decide⟩

/-- A container that is found and restored. -/
def readyWorker : WorkerEnv :=
  ⟨false, some "container", .ok (), .ok (), .restored none, .ok (), .ok (), false, .ok (), true, .ok ()⟩

def lateWorker : WorkerEnv := { readyWorker with container := none }

/-- The restore fails; the marker is written and the placeholder killed. -/
def failingWorker : WorkerEnv := { readyWorker with restore := .failed "criu failed" .both }

def samplePass (main engine : WorkerEnv) : PassEnv :=
  ⟨false, false, .running, .ready, true, .answered, .answered,
    fun d => if d = "main" then main else engine⟩

theorem restored_once_sample :
    let r := Run.start.passes samplePod
      [samplePass readyWorker lateWorker, samplePass readyWorker readyWorker]
    isRestoreSucceeded r.state.condition = true ∧
    ∀ d ∈ samplePod.destinations,
      runs r.logs d = 1 ∧ restored r.logs d = true ∧ spoiled r.logs d = false := by
  have hdone : isRestoreSucceeded (Run.start.passes samplePod
      [samplePass readyWorker lateWorker, samplePass readyWorker readyWorker]).state.condition = true := by
    decide +kernel
  exact ⟨hdone, (restored_once samplePod _ (by decide +kernel)).2 hdone⟩

/-- While one destination is late, the other one's failed restore is forgotten: the next pass runs
it again in the restarted container, and the Pod ends as restored. -/
theorem failed_restore_repeated :
    let r := Run.start.passes samplePod
      [samplePass failingWorker lateWorker, samplePass readyWorker readyWorker]
    (r.logs.map fun log => (log "main").map fun w => (w.ran, w.marked, w.completed)) =
        [some (true, true, false), some (true, false, true)] ∧
      isRestoreSucceeded r.state.condition = true := by
  decide +kernel

end AgentRestore
