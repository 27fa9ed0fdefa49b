import Mathlib.Logic.Function.Basic
import Snapshot.CheckedFold
import Snapshot.QueueWalk

/-! `ResolveManifestPIDsToObservedPIDs` of `agent/internal/runtime/process.go`: the PIDs that a checkpoint
recorded, as the PIDs of the restored processes. The processes are found from the restored root along the
parent links of a process table, whatever these links look like. -/
namespace ProcessRemap

structure ProcessDetails where
  observedPID : ℤ
  parentPID : ℤ
  innermostPID : ℤ
  namespacePIDs : List ℤ
  deriving DecidableEq, Repr

inductive Error where
  | rootNotFound (restoredPID : ℤ)
  | namespaceDepth (pid : ℤ) (depth : ℕ)
  | multiple (innermostPID existingPID observedPID : ℤ)
  | manifestNotFound (manifestPID restoredPID : ℤ)
  deriving DecidableEq, Repr

def Error.message : Error → String
  | rootNotFound restoredPID => s!"restored root pid {restoredPID} not found in process table"
  | namespaceDepth pid depth => s!"restored process {pid} has namespace depth {depth}, want 2"
  | multiple innermostPID existingPID observedPID =>
    s!"multiple restored processes map to innermost pid {innermostPID}: {existingPID} and {observedPID}"
  | manifestNotFound manifestPID restoredPID =>
    s!"manifest cuda pid {manifestPID} not found under restored subtree rooted at {restoredPID}"

def addProcess (table : ℤ → Option ProcessDetails) (process : ProcessDetails) :
    ℤ → Option ProcessDetails :=
  Function.update table process.observedPID (some process)

def addChild (table : ℤ → List ℤ) (process : ProcessDetails) : ℤ → List ℤ :=
  Function.update table process.parentPID (table process.parentPID ++ [process.observedPID])

def processByObservedPID (processes : List ProcessDetails) : ℤ → Option ProcessDetails :=
  processes.foldl addProcess fun _ => none

def childrenByParentPID (processes : List ProcessDetails) : ℤ → List ℤ :=
  processes.foldl addChild fun _ => []

/-- The loop over the queue, from the map that it has filled so far. -/
def innermostToObservedPID (processes : List ProcessDetails) :
    ℕ → List ℤ → (ℤ → Option ℤ) → Option (Except Error (ℤ → Option ℤ))
  | _, [], found => some (.ok found)
  | 0, _ :: _, _ => none
  | fuel + 1, pid :: queue, found =>
    match processByObservedPID processes pid with
    | none => innermostToObservedPID processes fuel queue found
    | some process =>
      if process.namespacePIDs.length ≠ 2 then
        some (.error (.namespaceDepth pid process.namespacePIDs.length))
      else match found process.innermostPID with
        | some existingPID =>
          some (.error (.multiple process.innermostPID existingPID process.observedPID))
        | none => innermostToObservedPID processes fuel (queue ++ childrenByParentPID processes pid)
          (Function.update found process.innermostPID (some process.observedPID))

def restorePID (found : ℤ → Option ℤ) (restoredPID manifestPID : ℤ) : Except Error ℤ :=
  match found manifestPID with
  | some observedPID => .ok observedPID
  | none => .error (.manifestNotFound manifestPID restoredPID)

/-- The fuel bounds the rounds of the queue; `none` is a run that it cuts off. -/
def resolveManifestPIDsToObservedPIDs (fuel : ℕ) (processes : List ProcessDetails) (restoredPID : ℤ)
    (manifestPIDs : List ℤ) : Option (Except Error (List ℤ)) :=
  match processByObservedPID processes restoredPID with
  | none => some (.error (.rootNotFound restoredPID))
  | some _ => (innermostToObservedPID processes fuel [restoredPID] fun _ => none).map fun found => do
    manifestPIDs.mapM (restorePID (← found) restoredPID)

/-! ## The table -/

section Table

variable {processes : List ProcessDetails} {p q : ProcessDetails} {pid parent : ℤ}

theorem childrenByParentPID_eq : childrenByParentPID processes parent =
    (processes.filter (·.parentPID = parent)).map (·.observedPID) := by
  have hfold : ∀ table, processes.foldl addChild table parent =
      table parent ++ (processes.filter (·.parentPID = parent)).map (·.observedPID) := by
    induction processes with
    | nil => simp
    | cons p processes ih =>
      intro table
      rw [List.foldl_cons, ih, addChild]
      by_cases hp : p.parentPID = parent
      · simp [hp]
      · simp [hp, Function.update_of_ne (Ne.symm hp)]
  exact hfold _

theorem mem_childrenByParentPID : pid ∈ childrenByParentPID processes parent ↔
    ∃ p ∈ processes, p.parentPID = parent ∧ p.observedPID = pid := by
  simp [childrenByParentPID_eq, and_assoc]

variable (hlisted : (processes.map (·.observedPID)).Nodup)
include hlisted

theorem eq_of_observedPID (hp : p ∈ processes) (hq : q ∈ processes)
    (heq : p.observedPID = q.observedPID) : p = q :=
  List.inj_on_of_nodup_map hlisted hp hq heq

theorem processByObservedPID_eq_some :
    processByObservedPID processes pid = some p ↔ p ∈ processes ∧ p.observedPID = pid := by
  have hfold : ∀ table, processes.foldl addProcess table pid = some p ↔
      (p ∈ processes ∧ p.observedPID = pid) ∨ (pid ∉ processes.map (·.observedPID) ∧ table pid = some p) := by
    induction processes with
    | nil => simp
    | cons r processes ih =>
      intro table
      rw [List.map_cons, List.nodup_cons] at hlisted
      rw [List.foldl_cons, ih hlisted.2, addProcess]
      by_cases hr : r.observedPID = pid
      · subst hr
        have hother : ∀ p ∈ processes, p.observedPID ≠ r.observedPID := by
          intro p hp heq
          exact hlisted.1 (heq ▸ List.mem_map_of_mem hp)
        simp only [Function.update_self, List.map_cons, List.mem_cons]
        constructor
        · rintro (⟨hp, heq⟩ | ⟨_, heq⟩)
          · exact absurd heq (hother p hp)
          · cases heq
            exact .inl ⟨.inl rfl, rfl⟩
        · rintro (⟨rfl | hp, heq⟩ | ⟨hnot, _⟩)
          · exact .inr ⟨hlisted.1, rfl⟩
          · exact absurd heq (hother p hp)
          · exact absurd (.inl trivial) hnot
      · simp only [Function.update_of_ne (Ne.symm hr), List.map_cons, List.mem_cons, Ne.symm hr, false_or]
        constructor
        · rintro (⟨hp, heq⟩ | h)
          · exact .inl ⟨.inr hp, heq⟩
          · exact .inr h
        · rintro (⟨rfl | hp, heq⟩ | h)
          · exact absurd heq hr
          · exact .inl ⟨hp, heq⟩
          · exact .inr h
  rw [processByObservedPID, hfold]
  simp

theorem nodup_childrenByParentPID (parent : ℤ) : (childrenByParentPID processes parent).Nodup := by
  rw [childrenByParentPID_eq]
  exact hlisted.sublist (List.Sublist.map _ List.filter_sublist)

/-- A process is the child of one parent. -/
theorem parent_unique (x y z : ℤ) (hx : z ∈ childrenByParentPID processes x)
    (hy : z ∈ childrenByParentPID processes y) : x = y := by
  obtain ⟨p, hp, rfl, hpz⟩ := mem_childrenByParentPID.1 hx
  obtain ⟨q, hq, rfl, hqz⟩ := mem_childrenByParentPID.1 hy
  rw [eq_of_observedPID hlisted hp hq (hpz.trans hqz.symm)]

end Table

/-! ## The restored subtree -/

/-- `pid` is reached from `root` by parent links. -/
def Reachable (processes : List ProcessDetails) : ℤ → ℤ → Prop :=
  Relation.ReflTransGen fun parent pid => ∃ p ∈ processes, p.parentPID = parent ∧ p.observedPID = pid

/-- `pid` is reached by at least one parent link. -/
def Below (processes : List ProcessDetails) : ℤ → ℤ → Prop :=
  Relation.TransGen fun parent pid => ∃ p ∈ processes, p.parentPID = parent ∧ p.observedPID = pid

/-- The processes of the table that are reached from the root. -/
def Restored (processes : List ProcessDetails) (root : ℤ) (p : ProcessDetails) : Prop :=
  p ∈ processes ∧ Reachable processes root p.observedPID

/-- The subtree has one process for each innermost PID, and is a tree. -/
structure Orderly (processes : List ProcessDetails) (root : ℤ) : Prop where
  depth : ∀ p, Restored processes root p → p.namespacePIDs.length = 2
  distinct : ∀ p q, Restored processes root p → Restored processes root q →
    p.innermostPID = q.innermostPID → p = q
  acyclic : ∀ p, Restored processes root p → ¬ Below processes p.observedPID p.observedPID

theorem parentLink_eq (processes : List ProcessDetails) :
    (fun x y => y ∈ childrenByParentPID processes x) =
      fun parent pid => ∃ p ∈ processes, p.parentPID = parent ∧ p.observedPID = pid := by
  funext parent pid
  exact propext mem_childrenByParentPID

theorem reaches_iff {processes : List ProcessDetails} {root pid : ℤ} :
    QueueWalk.Reaches (childrenByParentPID processes) root pid ↔ Reachable processes root pid := by
  rw [QueueWalk.Reaches, Reachable, parentLink_eq]

/-- What the loop knows of the processes `seen` that it has taken from the queue. -/
structure Recorded (processes : List ProcessDetails) (seen : List ProcessDetails)
    (found : ℤ → Option ℤ) : Prop where
  listed : ∀ p ∈ seen, p ∈ processes ∧ p.namespacePIDs.length = 2
  distinct : (seen.map (·.innermostPID)).Nodup
  found : ∀ innermost observed, found innermost = some observed ↔
    ∃ p ∈ seen, p.innermostPID = innermost ∧ p.observedPID = observed

section Loop

variable {processes seen : List ProcessDetails} {p : ProcessDetails} {root : ℤ} {queue : List ℤ}
  {found : ℤ → Option ℤ}

theorem Recorded.start : Recorded processes [] fun _ => none where
  listed := by simp
  distinct := by simp
  found := by simp

theorem Recorded.step (h : Recorded processes seen found) (hp : p ∈ processes)
    (hdepth : p.namespacePIDs.length = 2) (hnew : found p.innermostPID = none) :
    Recorded processes (seen ++ [p]) (Function.update found p.innermostPID (some p.observedPID)) := by
  have hother : ∀ q ∈ seen, q.innermostPID ≠ p.innermostPID := by
    intro q hq heq
    have := (h.found p.innermostPID q.observedPID).2 ⟨q, hq, heq, rfl⟩
    rw [hnew] at this
    cases this
  refine ⟨?_, ?_, ?_⟩
  · intro q hq
    rcases List.mem_append.1 hq with hq | hq
    · exact h.listed q hq
    · rw [List.mem_singleton.1 hq]
      exact ⟨hp, hdepth⟩
  · rw [List.map_append, List.map_singleton, List.nodup_append]
    refine ⟨h.distinct, List.pairwise_singleton _ _, ?_⟩
    intro i hi j hj
    obtain ⟨q, hq, rfl⟩ := List.mem_map.1 hi
    rw [List.mem_singleton.1 hj]
    exact hother q hq
  · intro innermost observed
    by_cases hi : innermost = p.innermostPID
    · subst hi
      rw [Function.update_self]
      constructor
      · intro heq
        cases heq
        exact ⟨p, by simp, rfl, rfl⟩
      · rintro ⟨q, hq, heq, rfl⟩
        rcases List.mem_append.1 hq with hq | hq
        · exact absurd heq (hother q hq)
        · rw [List.mem_singleton.1 hq]
    · rw [Function.update_of_ne hi, h.found]
      constructor
      · rintro ⟨q, hq, h⟩
        exact ⟨q, List.mem_append_left _ hq, h⟩
      · rintro ⟨q, hq, heq, h⟩
        rcases List.mem_append.1 hq with hq | hq
        · exact ⟨q, hq, heq, h⟩
        · rw [List.mem_singleton.1 hq] at heq
          exact absurd heq.symm hi

theorem Recorded.nodup (h : Recorded processes seen found) : seen.Nodup :=
  h.distinct.of_map _

theorem Orderly.root_not_mem_children (h : Orderly processes root) (pid : ℤ)
    (hpid : QueueWalk.Reaches (childrenByParentPID processes) root pid) :
    root ∉ childrenByParentPID processes pid := by
  intro hroot
  obtain ⟨p, hp, hparent, rfl⟩ := mem_childrenByParentPID.1 hroot
  exact h.acyclic p ⟨hp, .refl⟩ (Relation.TransGen.tail' (reaches_iff.1 hpid) ⟨p, hp, hparent, rfl⟩)

/-- The loop stops within its fuel. It fills the map from the whole subtree or fails, and it does not fail
on an orderly one. -/
theorem innermostToObservedPID_spec (hlisted : (processes.map (·.observedPID)).Nodup) (fuel : ℕ)
    (hwalk : QueueWalk.Walk (childrenByParentPID processes) root (seen.map (·.observedPID)) queue)
    (hrecorded : Recorded processes seen found) (hqueue : ∀ pid ∈ queue, ∃ p ∈ processes, p.observedPID = pid)
    (hfuel : processes.length < fuel + seen.length) :
    ∃ r, innermostToObservedPID processes fuel queue found = some r ∧
      (∀ found', r = .ok found' → ∃ seen', Recorded processes seen' found' ∧
        QueueWalk.Walk (childrenByParentPID processes) root (seen'.map (·.observedPID)) []) ∧
      (Orderly processes root → ∃ found', r = .ok found') := by
  induction fuel generalizing seen queue found with
  | zero =>
    have hsub := (hrecorded.nodup.subperm fun p hp => (hrecorded.listed p hp).1).length_le
    omega
  | succ fuel ih =>
    cases queue with
    | nil =>
      refine ⟨_, rfl, ?_, fun _ => ⟨found, rfl⟩⟩
      intro found' heq
      cases heq
      exact ⟨seen, hrecorded, hwalk⟩
    | cons pid queue =>
      obtain ⟨p, hp, rfl⟩ := hqueue pid List.mem_cons_self
      have hprocess := (processByObservedPID_eq_some hlisted).2 ⟨hp, rfl⟩
      have hrestored : Restored processes root p := ⟨hp, reaches_iff.1 (hwalk.reached _ (by simp))⟩
      simp only [innermostToObservedPID, hprocess]
      split_ifs with hdepth
      · refine ⟨_, rfl, ?_, fun h => absurd (h.depth p hrestored) hdepth⟩
        intro found' heq
        cases heq
      · rw [not_not] at hdepth
        cases hnew : found p.innermostPID with
        | some existing =>
          refine ⟨_, rfl, ?_, fun h => ?_⟩
          · intro found' heq
            cases heq
          · -- the process that is in its place is another one, or this one on a cycle
            exfalso
            obtain ⟨q, hq, hsame, -⟩ := (hrecorded.found _ _).1 hnew
            have hqrestored : Restored processes root q := ⟨(hrecorded.listed q hq).1, reaches_iff.1
              (hwalk.reached _ (List.mem_append_left _ (List.mem_map_of_mem hq)))⟩
            have hqp := h.distinct q p hqrestored hrestored hsame
            subst hqp
            have hseen := hrecorded.nodup.map_on fun a ha b hb => eq_of_observedPID hlisted
              (hrecorded.listed a ha).1 (hrecorded.listed b hb).1
            have hnodup := hwalk.nodup (parent_unique hlisted) (nodup_childrenByParentPID hlisted)
              h.root_not_mem_children hseen
            exact (List.nodup_append.1 hnodup).2.2 _ (List.mem_map_of_mem hq) _ List.mem_cons_self rfl
        | none =>
          refine ih ?_ (hrecorded.step hp hdepth hnew) ?_ ?_
          · rw [List.map_append]
            exact hwalk.step
          · intro pid hpid
            rcases List.mem_append.1 hpid with hpid | hpid
            · exact hqueue pid (List.mem_cons_of_mem _ hpid)
            · obtain ⟨q, hq, _, heq⟩ := mem_childrenByParentPID.1 hpid
              exact ⟨q, hq, heq⟩
          · rw [List.length_append, List.length_singleton]
            omega

/-- More fuel does not change the end of a run. -/
theorem innermostToObservedPID_more {fuel more : ℕ} {r : Except Error (ℤ → Option ℤ)} (hle : fuel ≤ more)
    (h : innermostToObservedPID processes fuel queue found = some r) :
    innermostToObservedPID processes more queue found = some r := by
  induction fuel generalizing more queue found with
  | zero =>
    cases queue with
    | nil => simpa [innermostToObservedPID] using h
    | cons pid queue => cases h
  | succ fuel ih =>
    obtain ⟨more, rfl⟩ : ∃ n, more = n + 1 := ⟨more - 1, by omega⟩
    cases queue with
    | nil => exact h
    | cons pid queue =>
      simp only [innermostToObservedPID] at h ⊢
      split at h
      · exact ih (by omega) h
      · split_ifs at h ⊢
        · exact h
        · split at h
          · exact h
          · exact ih (by omega) h

end Loop

section Result

variable {processes : List ProcessDetails} {root : ℤ} {found : ℤ → Option ℤ}

/-- The map of a finished loop has the restored processes, and shows that they are orderly. -/
theorem found_iff_restored {seen : List ProcessDetails} (hlisted : (processes.map (·.observedPID)).Nodup)
    (hrecorded : Recorded processes seen found)
    (hwalk : QueueWalk.Walk (childrenByParentPID processes) root (seen.map (·.observedPID)) []) :
    Orderly processes root ∧ ∀ innermost observed, found innermost = some observed ↔
      ∃ p, Restored processes root p ∧ p.innermostPID = innermost ∧ p.observedPID = observed := by
  have hmem : ∀ p, p ∈ seen ↔ Restored processes root p := by
    intro p
    rw [Restored, ← reaches_iff, ← hwalk.mem_seen]
    constructor
    · intro hp
      exact ⟨(hrecorded.listed p hp).1, List.mem_map_of_mem hp⟩
    · rintro ⟨hp, hseen⟩
      obtain ⟨q, hq, heq⟩ := List.mem_map.1 hseen
      rwa [eq_of_observedPID hlisted hp (hrecorded.listed q hq).1 heq.symm]
  have hseen := hrecorded.nodup.map_on fun a ha b hb => eq_of_observedPID hlisted
    (hrecorded.listed a ha).1 (hrecorded.listed b hb).1
  refine ⟨⟨?_, ?_, ?_⟩, ?_⟩
  · intro p hp
    exact (hrecorded.listed p ((hmem p).2 hp)).2
  · intro p q hp hq
    exact List.inj_on_of_nodup_map hrecorded.distinct ((hmem p).2 hp) ((hmem q).2 hq)
  · intro p hp hcycle
    -- a cycle would come back to the root, which the queue would have handed out twice
    have hroot := QueueWalk.root_on_cycle (parent_unique hlisted) (reaches_iff.2 hp.2)
      (by rw [parentLink_eq]; exact hcycle)
    obtain ⟨x, hreach, hlast⟩ := Relation.TransGen.tail'_iff.1 hroot
    exact hwalk.root_not_mem_next hseen hreach hlast
  · intro innermost observed
    rw [hrecorded.found]
    simp only [hmem]

end Result

theorem restorePID_eq_ok {found : ℤ → Option ℤ} {root m pid : ℤ} :
    restorePID found root m = .ok pid ↔ found m = some pid := by
  rw [restorePID]
  cases found m <;> simp

/-- The lookups succeed exactly if every manifest PID has been found. -/
theorem restorePIDs_eq_ok_iff {found : ℤ → Option ℤ} {root : ℤ} {manifestPIDs : List ℤ} :
    (∃ pids, manifestPIDs.mapM (restorePID found root) = .ok pids) ↔
      ∀ m ∈ manifestPIDs, ∃ pid, found m = some pid := by
  constructor
  · rintro ⟨pids, hpids⟩ m hm
    obtain ⟨i, hi⟩ := List.mem_iff_getElem?.1 hm
    have hall := CheckedFold.forall₂_of_mapM_eq_ok hpids
    have hlt := hall.length_eq ▸ (List.getElem?_eq_some_iff.1 hi).1
    have hpid := hall.get (List.getElem?_eq_some_iff.1 hi).1 hlt
    rw [restorePID_eq_ok] at hpid
    rw [← (List.getElem?_eq_some_iff.1 hi).2]
    exact ⟨_, hpid⟩
  · intro hall
    refine ⟨_, CheckedFold.mapM_eq_ok (g := fun m => (found m).getD 0) fun m hm => ?_⟩
    obtain ⟨pid, hpid⟩ := hall m hm
    rw [restorePID_eq_ok, hpid, Option.getD_some]

/-- A run with enough fuel ends, and no later than after one round for each process. It succeeds exactly if
the root is in the table, its subtree is orderly and has every manifest PID. The `i`-th PID of the result is
then that of the one restored process with the `i`-th manifest PID, and of no other manifest PID. -/
theorem resolveManifestPIDs_exact (processes : List ProcessDetails) (root : ℤ) (manifestPIDs : List ℤ)
    (hlisted : (processes.map (·.observedPID)).Nodup) :
    ∃ r, (∀ fuel, processes.length < fuel →
        resolveManifestPIDsToObservedPIDs fuel processes root manifestPIDs = some r) ∧
      ((∃ pids, r = .ok pids) ↔ (∃ p ∈ processes, p.observedPID = root) ∧ Orderly processes root ∧
        ∀ m ∈ manifestPIDs, ∃ p, Restored processes root p ∧ p.innermostPID = m) ∧
      ∀ pids, r = .ok pids → pids.length = manifestPIDs.length ∧
        ∀ (i : ℕ) m pid, manifestPIDs[i]? = some m → pids[i]? = some pid →
          (∃ p, Restored processes root p ∧ p.innermostPID = m ∧ p.observedPID = pid) ∧
          (∀ q, Restored processes root q → q.innermostPID = m → q.observedPID = pid) ∧
          ∀ (j : ℕ) m', manifestPIDs[j]? = some m' → pids[j]? = some pid → m' = m := by
  cases hroot : processByObservedPID processes root with
  | none =>
    refine ⟨.error (.rootNotFound root), fun fuel _ => ?_, ?_, ?_⟩
    · simp only [resolveManifestPIDsToObservedPIDs, hroot]
    · constructor
      · rintro ⟨pids, h⟩
        cases h
      · rintro ⟨⟨p, hp, hpid⟩, -⟩
        rw [(processByObservedPID_eq_some hlisted).2 ⟨hp, hpid⟩] at hroot
        cases hroot
    · intro pids h
      cases h
  | some p =>
    have hp := (processByObservedPID_eq_some hlisted).1 hroot
    have hstart : QueueWalk.Walk (childrenByParentPID processes) root (([] : List ProcessDetails).map (·.observedPID)) [root] :=
      .start
    obtain ⟨r, hr, hok, htotal⟩ := innermostToObservedPID_spec hlisted (processes.length + 1) hstart .start (fun pid hpid => ⟨p, hp.1, by rw [hp.2, List.mem_singleton.1 hpid]⟩)
      (by simp)
    refine ⟨r >>= fun found => manifestPIDs.mapM (restorePID found root), fun fuel hfuel => ?_, ?_, ?_⟩
    · simp only [resolveManifestPIDsToObservedPIDs, hroot]
      rw [innermostToObservedPID_more hfuel hr]
      rfl
    · constructor
      · rintro ⟨pids, hpids⟩
        obtain ⟨found, rfl, hpids⟩ := CheckedFold.bind_eq_ok.1 hpids
        obtain ⟨seen, hrecorded, hwalk⟩ := hok found rfl
        obtain ⟨horderly, hfound⟩ := found_iff_restored hlisted hrecorded hwalk
        refine ⟨⟨p, hp⟩, horderly, fun m hm => ?_⟩
        obtain ⟨pid, hpid⟩ := restorePIDs_eq_ok_iff.1 ⟨pids, hpids⟩ m hm
        obtain ⟨q, hq, hm, -⟩ := (hfound m pid).1 hpid
        exact ⟨q, hq, hm⟩
      · rintro ⟨-, horderly, hmanifest⟩
        obtain ⟨found, rfl⟩ := htotal horderly
        obtain ⟨seen, hrecorded, hwalk⟩ := hok found rfl
        have hfound := (found_iff_restored hlisted hrecorded hwalk).2
        refine restorePIDs_eq_ok_iff.2 fun m hm => ?_
        obtain ⟨q, hq, hm⟩ := hmanifest m hm
        exact ⟨_, (hfound m _).2 ⟨q, hq, hm, rfl⟩⟩
    · intro pids hpids
      obtain ⟨found, rfl, hpids⟩ := CheckedFold.bind_eq_ok.1 hpids
      obtain ⟨seen, hrecorded, hwalk⟩ := hok found rfl
      obtain ⟨horderly, hfound⟩ := found_iff_restored hlisted hrecorded hwalk
      have hall := CheckedFold.forall₂_of_mapM_eq_ok hpids
      have hlookup : ∀ (i : ℕ) m pid, manifestPIDs[i]? = some m → pids[i]? = some pid →
          ∃ p, Restored processes root p ∧ p.innermostPID = m ∧ p.observedPID = pid := by
        intro i m pid hm hpid
        obtain ⟨hlt, rfl⟩ := List.getElem?_eq_some_iff.1 hm
        obtain ⟨hlt', rfl⟩ := List.getElem?_eq_some_iff.1 hpid
        exact (hfound _ _).1 (restorePID_eq_ok.1 (hall.get hlt hlt'))
      refine ⟨hall.length_eq.symm, fun i m pid hm hpid => ?_⟩
      obtain ⟨q, hq, hqm, hqpid⟩ := hlookup i m pid hm hpid
      refine ⟨⟨q, hq, hqm, hqpid⟩, fun q' hq' hm' => ?_, fun j m' hm' hpid' => ?_⟩
      · rw [horderly.distinct q' q hq' hq (hm'.trans hqm.symm), hqpid]
      · obtain ⟨q', hq', hqm', hqpid'⟩ := hlookup j m' pid hm' hpid'
        rw [← hqm', ← hqm, eq_of_observedPID hlisted hq'.1 hq.1 (hqpid'.trans hqpid.symm)]

/-- A root 74 with one child, and a process 9 outside the subtree that is its own parent. -/
def strayProcesses : List ProcessDetails :=
  [⟨74, 3, 1, [74, 1]⟩, ⟨81, 74, 750, [81, 750]⟩, ⟨9, 9, 9, [9]⟩]

theorem resolveManifestPIDs_exact_sample :
    ∃ r, (∀ fuel, 3 < fuel → resolveManifestPIDsToObservedPIDs fuel strayProcesses 74 [750, 1] = some r) ∧
      ((∃ pids, r = .ok pids) ↔ (∃ p ∈ strayProcesses, p.observedPID = 74) ∧ Orderly strayProcesses 74 ∧
        ∀ m ∈ [750, 1], ∃ p, Restored strayProcesses 74 p ∧ p.innermostPID = m) := by
  obtain ⟨r, hr, hiff, -⟩ := resolveManifestPIDs_exact strayProcesses 74 [750, 1] (by decide)
  exact ⟨r, hr, hiff⟩

/-- A process that is reachable from itself does no harm outside the subtree. -/
theorem stray_cycle_accepted : (strayProcesses.map (·.observedPID)).Nodup ∧
    (∃ p ∈ strayProcesses, Below strayProcesses p.observedPID p.observedPID) ∧
    resolveManifestPIDsToObservedPIDs 4 strayProcesses 74 [750, 1] = some (.ok [81, 74]) :=
  ⟨by decide, ⟨⟨9, 9, 9, [9]⟩, by decide, .single ⟨⟨9, 9, 9, [9]⟩, by decide, rfl, rfl⟩⟩, rfl⟩

end ProcessRemap
