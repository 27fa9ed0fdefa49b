import Snapshot.CallProtocol
import Snapshot.KeyedLocker
import Snapshot.MaintenanceSafety

/-! The lock that maintenance takes for an artifact, in the steps in which the code takes it. A worker
registers for the key, waits for its mutex, and on its way out frees the mutex before it signs off; a
deletion by the backend begins and ends. In these steps the workers refine the system in which a lock
and a deletion are one call each, so what holds there holds here, and one can ask what overlaps. -/
namespace Maintenance

open Std ApiObjects Interleaving VersionedServer
open KeyedLocker (Locker Caller)

/-! ## Workers in small steps -/

inductive StepCall where
  | plain (c : Call)
  | enter (key : Key)
  | acquire
  | release
  | drop
  | beginDelete (uid : UID)
  | endDelete (uid : UID)
  deriving DecidableEq

def StepCall.Answer : StepCall → Type
  | plain c => c.Answer
  | endDelete _ => Except Failure Unit
  | _ => Unit

abbrev steps : Interface := ⟨StepCall, StepCall.Answer⟩

/-- The steps of a worker. -/
def expand {α : Type} : Worker α → Process steps α
  | .done a => .done a
  | .call (.lock key) k => .call (StepCall.enter key) fun _ => .call StepCall.acquire fun _ => expand (k ())
  | .call (.unlock _) k => .call StepCall.release fun _ => .call StepCall.drop fun _ => expand (k ())
  | .call (.delete uid) k =>
    .call (StepCall.beginDelete uid) fun _ => .call (StepCall.endDelete uid) fun r => expand (k r)
  | .call .candidates k => .call (StepCall.plain .candidates) fun a => expand (k a)
  | .call (.list token) k => .call (StepCall.plain (.list token)) fun a => expand (k a)
  | .call (.enqueue item) k => .call (StepCall.plain (.enqueue item)) fun a => expand (k a)
  | .call (.get name) k => .call (StepCall.plain (.get name)) fun a => expand (k a)
  | .call (.patchFinalizers name version finalizers) k =>
    .call (StepCall.plain (.patchFinalizers name version finalizers)) fun a => expand (k a)

/-- The world of the work items, and the `coordination.Locker` in place of its locks. -/
structure StepWorld where
  base : World
  locker : Locker Key WorkItem

def StepWorld.start (w : World) : StepWorld := ⟨w, .new⟩

def performStep (q : Config) (t : WorkItem) (w : StepWorld) :
    (c : StepCall) → Choice → Option (c.Answer × StepWorld)
  | .plain c, choice => (perform q w.base c choice).map fun (a, b) => (a, { w with base := b })
  | .enter key, .ok => some ((), { w with locker := w.locker.enter t key })
  | .acquire, .ok => (w.locker.acquire t).map fun l => ((), { w with locker := l })
  | .release, .ok => (w.locker.release t).map fun l => ((), { w with locker := l })
  | .drop, .ok => (w.locker.drop t).map fun l => ((), { w with locker := l })
  | .beginDelete _, .ok => some ((), w)
  | .endDelete uid, choice => (w.base.delete q uid choice).map fun (a, b) => (a, { w with base := b })
  | _, _ => none

/-- The key whose lock a worker has taken, and the copy of a content that it has read. -/
structure Standing where
  held : Option Key
  got : Option (String × Content)

/-- The lock under which a work item deletes: a sweep knows no store, and a deletion has read the
content whose artifact it deletes. -/
def Entitled (t : WorkItem) (s : Standing) (key : Key) : Prop :=
  match t with
  | .sweep => key.storeID = ""
  | .deleteContent name uid => key.artifactUID = uid ∧ ∃ c, s.got = some (name, c) ∧ c.uid = uid

/-- One lock at a time, and deletions only under the lock of their artifact. -/
def protocol (t : WorkItem) : Protocol interface Standing where
  allows s
    | .lock _ => s.held = none
    | .unlock key => s.held = some key
    | .delete uid => ∃ key, s.held = some key ∧ key.artifactUID = uid ∧ Entitled t s key
    | _ => True
  after s
    | .lock key, _ => { s with held := some key }
    | .unlock _, _ => { s with held := none }
    | .get name, .ok c => { s with got := some (name, c) }
    | _, _ => s

section Follows

variable {t : WorkItem} {s : Standing}

end Follows

/-! ## What a step does to the API server -/

/-- The server keeps its states, or accepts one write. -/
inductive Moves (s s' : Server Contents Unit) : Prop where
  | stays (hpast : s'.past = s.past) (hcurrent : s'.current = s.current)
  | writes (x : Contents) (hstep : Collection.Step (s.version + 1) s.current x) (hwrite : s' = s.write x)

theorem Moves.refl (s : Server Contents Unit) : Moves s s := .stays rfl rfl

theorem Moves.extends {s s' : Server Contents Unit} (h : Moves s s') : s.Extends s' := by
  cases h with
  | stays hpast hcurrent =>
    refine ⟨by simp only [Server.version, hpast, Nat.le_refl], fun v _ => ?_⟩
    simp only [Server.state, hpast, hcurrent]
  | writes x _ hwrite =>
    subst hwrite
    exact s.extends_write x

/-- The name under which a UID is found never changes. -/
def Named (s : Server Contents Unit) : Prop := Fixed id (fun _ : ContentSpec => ()) s

theorem Moves.named {s s' : Server Contents Unit} (h : Moves s s') (htidy : Tidy id s) (hnamed : Named s) :
    Tidy id s' ∧ Named s' := by
  cases h with
  | stays hpast hcurrent => exact ⟨htidy.of_states hpast hcurrent, hnamed.of_states hpast hcurrent⟩
  | writes x hstep hwrite =>
    subst hwrite
    exact ⟨htidy.write hstep, Fixed.write hnamed htidy hstep fun _ _ _ _ _ _ => rfl⟩

theorem moves_perform {q : Config} {w w' : World} {c : Call} {choice : Choice} {a : c.Answer}
    (h : perform q w c choice = some (a, w')) : Moves w.api w'.api := by
  cases c with
  | candidates =>
    rw [(candidates_cases h).1]
    exact .refl _
  | list token =>
    obtain ⟨p, _, heq⟩ := Option.map_eq_some_iff.1 h
    cases heq
    exact .refl _
  | enqueue item =>
    rw [enqueue_cases h]
    exact .refl _
  | lock key =>
    rw [(lock_cases h).2]
    exact .refl _
  | unlock key =>
    rw [unlock_cases h]
    exact .refl _
  | delete uid =>
    rcases delete_cases h with ⟨_, rfl⟩ | ⟨_, rfl⟩
    · exact .refl _
    · exact .refl _
  | get name =>
    rw [(get_cases h).1]
    exact .refl _
  | patchFinalizers name version finalizers =>
    rcases patchFinalizers_cases h with rfl | rfl
    · exact .refl _
    · simp only [World.patch]
      cases hupdate : w.api.current.update (w.api.version + 1) name (some version)
          fun c => (finalizers, c.body) with
      | error e => exact .refl _
      | ok x => exact .writes x (.of_update hupdate) rfl

/-- The call is made in one step, and is not about the lock. -/
def Call.isPlain : Call → Bool
  | lock _ | unlock _ | delete _ => false
  | _ => true

/-- No call but those of the lock reads it. -/
theorem perform_plain {q : Config} {w w' : World} {c : Call} {choice : Choice} {a : c.Answer}
    (hc : c.isPlain = true ∨ ∃ uid, c = .delete uid) (h : perform q w c choice = some (a, w'))
    (locks : List Key) :
    perform q { w with locks := locks } c choice = some (a, { w' with locks := locks }) := by
  cases c with
  | candidates =>
    cases choice with
    | candidates uids =>
      simp only [perform, World.candidates] at h ⊢
      split at h <;> cases h
      rename_i hwritten
      rw [if_pos hwritten]
      rfl
    | _ => cases h <;> rfl
  | list token =>
    obtain ⟨p, hp, heq⟩ := Option.map_eq_some_iff.1 h
    cases heq
    exact Option.map_eq_some_iff.2 ⟨_, hp, rfl⟩
  | enqueue item =>
    cases choice <;> cases h
    rfl
  | lock key => rcases hc with hc | ⟨_, hc⟩ <;> cases hc
  | unlock key => rcases hc with hc | ⟨_, hc⟩ <;> cases hc
  | delete uid => cases choice <;> cases h <;> rfl
  | get name =>
    cases choice with
    | ok =>
      simp only [perform, World.get] at h ⊢
      split at h <;> (cases h; rfl)
    | _ => cases h <;> rfl
  | patchFinalizers name version finalizers =>
    have hpatch : { w with locks := locks }.patch name version finalizers =
        ((w.patch name version finalizers).1, { (w.patch name version finalizers).2 with locks := locks }) := by
      simp only [World.patch]
      cases w.api.current.update (w.api.version + 1) name (some version) fun c => (finalizers, c.body) <;> rfl
    cases choice with
    | ok =>
      have h := Option.some.inj h
      simp only [perform, World.patchFinalizers, hpatch, h]
      rfl
    | lost =>
      cases h
      simp only [perform, World.patchFinalizers, hpatch]
      rfl
    | fail =>
      cases h
      rfl
    | _ => cases h

/-- How far the steps of a worker have come in its calls: a lock is taken with the mutex, and given
back with it. -/
inductive Stage (caller : Option (Caller Key)) : Process steps Unit → Worker Unit → Prop where
  | between (p : Worker Unit) : Stage caller (expand p) p
  | acquiring {key : Key} {entry : ℕ} {k : Unit → Worker Unit} (h : caller = some (.waiting key entry)) :
    Stage caller (.call StepCall.acquire fun _ => expand (k ())) (.call (Call.lock key) k)
  | deleting {uid : UID} {k : Except Failure Unit → Worker Unit} :
    Stage caller (.call (StepCall.endDelete uid) fun r => expand (k r)) (.call (Call.delete uid) k)
  | dropping {key : Key} {entry : ℕ} {p : Worker Unit} (h : caller = some (.leaving key entry)) :
    Stage caller (.call StepCall.drop fun _ => expand p) p

/-- Only a worker inside a deletion ends one. -/
theorem stage_endDelete {caller : Option (Caller Key)} {uid : UID}
    {k : Except Failure Unit → Process steps Unit} {p : Worker Unit}
    (h : Stage caller (.call (StepCall.endDelete uid) k) p) : ∃ k', p = .call (Call.delete uid) k' := by
  generalize hf : (Process.call (StepCall.endDelete uid) k : Process steps Unit) = f at h
  cases h with
  | between p =>
    cases p with
    | done b => cases hf
    | call c k => cases c <;> cases hf
  | acquiring _ => cases hf
  | deleting =>
    cases hf
    exact ⟨_, rfl⟩
  | dropping _ => cases hf

/-- One worker in both systems. -/
structure Task (t : WorkItem) (w : StepWorld) (f : Process steps Unit) (p : Worker Unit) : Prop where
  stage : Stage (w.locker.caller t) f p
  follows : ∃ s, p.Follows (protocol t) (fun _ _ => True) s ∧
    (∀ key, s.held = some key → w.locker.holds t = some key) ∧ ∀ name c, s.got = some (name, c) → Recorded id w.base.api name c

/-- The same world, with the keys of the sections that the locker has let workers into. -/
structure Shadow (w : StepWorld) (v : World) : Prop where
  locker : KeyedLocker.Inv w.locker
  base : v = { w.base with locks := v.locks }
  locks : ∀ key, key ∈ v.locks ↔ w.locker.Held key
  nodup : v.locks.Nodup

/-- What another worker does: the calls of this one stand, and the server goes on. -/
theorem Task.mono {t : WorkItem} {w w' : StepWorld} {f : Process steps Unit} {p : Worker Unit}
    (h : Task t w f p) (hcaller : w'.locker.caller t = w.locker.caller t)
    (hmoves : w.base.api.Extends w'.base.api) : Task t w' f p := by
  obtain ⟨s, hfollows, hheld, hgot⟩ := h.follows
  refine ⟨hcaller ▸ h.stage, s, hfollows, fun key hkey => ?_, fun name c hc => (hgot name c hc).mono hmoves⟩
  rw [← hheld key hkey, Locker.holds, Locker.holds, hcaller]

/-- What the system of calls does for a step: nothing, or one call of the same worker. -/
inductive Answers (q : Config) (v : World) (p : Worker Unit) : World → Worker Unit → Prop where
  | stutter : Answers q v p v p
  | call {v' : World} {c : Call} {k : c.Answer → Worker Unit} {a : c.Answer} {choice : Choice}
      (hp : p = .call c k) (h : perform q v c choice = some (a, v')) : Answers q v p v' (k a)

section Calls

variable {q : Config} {t : WorkItem} {w w' : StepWorld} {v : World}

theorem Shadow.set_base (h : Shadow w v) (b : World) :
    Shadow { w with base := b } { b with locks := v.locks } :=
  ⟨h.locker, rfl, h.locks, h.nodup⟩

/-- A plain call is the same in both. -/
theorem Task.plain {c : Call} (hc : c.isPlain = true) {k : c.Answer → Worker Unit} {choice : Choice}
    {a : c.Answer} (hw : Shadow w v) (hfollows : ∃ s, Process.Follows (protocol t) (fun _ _ => True)
      (.call c k) s ∧ (∀ key, s.held = some key → w.locker.holds t = some key) ∧
      ∀ name d, s.got = some (name, d) → Recorded id w.base.api name d)
    (h : performStep q t w (.plain c) choice = some (a, w')) :
    ∃ v' p', Answers q v (.call c k) v' p' ∧ Shadow w' v' ∧ Task t w' (expand (k a)) p' ∧
      w'.locker = w.locker ∧ w.base.api.Extends w'.base.api := by
  obtain ⟨⟨_, b⟩, hb, heq⟩ := Option.map_eq_some_iff.1 h
  cases heq
  have hmoves := (moves_perform hb).extends
  obtain ⟨s, ⟨hallows, hrest⟩, hheld, hgot⟩ := hfollows
  have hv := perform_plain (.inl hc) hb v.locks
  rw [← hw.base] at hv
  refine ⟨_, k a, .call rfl hv, hw.set_base b, ⟨.between (k a), (protocol t).after s c a, hrest a, ?_, ?_⟩,
    rfl, hmoves⟩
  · -- no plain call touches the lock
    cases c with
    | lock _ | unlock _ | delete _ => exact absurd hc nofun
    | get name => cases a <;> exact hheld
    | _ => exact hheld
  · intro name d hd
    cases c with
    | lock _ | unlock _ | delete _ => exact absurd hc nofun
    | get n =>
      cases a with
      | error e => exact (hgot name d hd).mono hmoves
      | ok content =>
        cases hd
        exact (recorded_view w.base.api () ((get_cases hb).2 d rfl)).mono hmoves
    | _ => exact (hgot name d hd).mono hmoves

/-- Every step of a worker is a call of the same worker, or none. -/
theorem Task.step {c : StepCall} {k : c.Answer → Process steps Unit} {p : Worker Unit} {choice : Choice}
    {a : c.Answer} (hw : Shadow w v) (h : Task t w (.call c k) p)
    (hperform : performStep q t w c choice = some (a, w')) :
    ∃ v' p', Answers q v p v' p' ∧ Shadow w' v' ∧ Task t w' (k a) p' ∧
      (∀ u, u ≠ t → w'.locker.caller u = w.locker.caller u) ∧ w.base.api.Extends w'.base.api := by
  obtain ⟨hstage, hfollows⟩ := h
  generalize hf : (Process.call c k : Process steps Unit) = f at hstage
  have plain : ∀ {d : Call} {k' : d.Answer → Worker Unit}, d.isPlain = true → p = .call d k' →
      (Process.call c k : Process steps Unit) = .call (StepCall.plain d) (fun a => expand (k' a)) →
      ∃ v' p', Answers q v p v' p' ∧ Shadow w' v' ∧ Task t w' (k a) p' ∧
        (∀ u, u ≠ t → w'.locker.caller u = w.locker.caller u) ∧ w.base.api.Extends w'.base.api := by
    rintro d k' hd rfl hcall
    cases hcall
    obtain ⟨v', p', hanswers, hshadow, htask, hlocker, hextends⟩ := Task.plain hd hw hfollows hperform
    exact ⟨v', p', hanswers, hshadow, htask, fun u _ => by rw [hlocker], hextends⟩
  cases hstage with
  | between p =>
    cases p with
    | done a => cases hf
    | call d k' =>
      cases d with
      | lock key =>
        cases hf
        cases choice <;> cases hperform
        obtain ⟨entry, hmoved, hheld⟩ := KeyedLocker.enter_spec (t := t) hw.locker key
        obtain ⟨s, hs, hsheld, hgot⟩ := hfollows
        refine ⟨v, _, .stutter, ⟨hmoved.inv, hw.base, fun key' => (hw.locks key').trans (hheld key').symm,
          hw.nodup⟩, ⟨.acquiring hmoved.self, s, hs, ?_, hgot⟩, hmoved.others, .refl _⟩
        have hnone : s.held = none := hs.1
        intro key' hkey'
        rw [hnone] at hkey'
        cases hkey'
      | unlock key =>
        cases hf
        cases choice <;> try cases hperform
        obtain ⟨l, hl, heq⟩ := Option.map_eq_some_iff.1 hperform
        cases heq
        obtain ⟨key', entry, hcaller, hmoved, hheld⟩ := KeyedLocker.release_cases hw.locker hl
        obtain ⟨s, ⟨hallows, hrest⟩, hsheld, hgot⟩ := hfollows
        have hkey : key' = key := by
          have hown : w.locker.holds t = some key' := Locker.holds_eq_some.2 ⟨entry, hcaller⟩
          exact Option.some.inj (hown.symm.trans (hsheld key hallows))
        subst hkey
        have hunlock : perform q v (Call.unlock key') Choice.ok =
            some ((), { v with locks := v.locks.erase key' }) := rfl
        refine ⟨_, _, .call rfl hunlock, ⟨hmoved.inv, ?_, fun key => ?_, hw.nodup.erase key'⟩,
          ⟨.dropping hmoved.self, _, hrest (), ?_, hgot⟩, hmoved.others, .refl _⟩
        · rw [hw.base]
        · rw [hw.nodup.mem_erase_iff, hheld key, hw.locks key]
        · exact nofun
      | delete uid =>
        cases hf
        cases choice <;> cases hperform
        exact ⟨v, _, .stutter, hw, ⟨.deleting, hfollows⟩, fun _ _ => rfl, .refl _⟩
      | _ => exact plain rfl rfl hf
  | @acquiring key entry k' hcaller =>
    cases hf
    cases choice <;> try cases hperform
    obtain ⟨l, hl, heq⟩ := Option.map_eq_some_iff.1 hperform
    cases heq
    obtain ⟨key', entry', hcaller', hfree, hmoved, hheld⟩ := KeyedLocker.acquire_cases hw.locker hl
    rw [hcaller] at hcaller'
    cases hcaller'
    obtain ⟨s, ⟨hallows, hrest⟩, hsheld, hgot⟩ := hfollows
    have hout : key ∉ v.locks := fun hin => hfree ((hw.locks key).1 hin)
    have hlock : perform q v (Call.lock key) Choice.ok = some ((), { v with locks := key :: v.locks }) :=
      if_neg hout
    refine ⟨_, _, .call rfl hlock, ⟨hmoved.inv, ?_, fun key' => ?_, List.nodup_cons.2 ⟨hout, hw.nodup⟩⟩,
      ⟨.between _, _, hrest (), ?_, hgot⟩, hmoved.others, .refl _⟩
    · rw [hw.base]
    · rw [List.mem_cons, hheld key', hw.locks key']
    · intro key' hkey'
      cases hkey'
      exact Locker.holds_eq_some.2 ⟨entry, hmoved.self⟩
  | @deleting uid k' =>
    cases hf
    obtain ⟨⟨_, b⟩, hb, heq⟩ := Option.map_eq_some_iff.1 hperform
    cases heq
    have hdelete : perform q w.base (Call.delete uid) choice = some (a, b) := hb
    have hmoves := (moves_perform hdelete).extends
    have hv := perform_plain (.inr ⟨uid, rfl⟩) hdelete v.locks
    rw [← hw.base] at hv
    obtain ⟨s, ⟨hallows, hrest⟩, hsheld, hgot⟩ := hfollows
    exact ⟨_, _, .call rfl hv, hw.set_base b, ⟨.between _, _, hrest a, hsheld,
      fun name c hc => (hgot name c hc).mono hmoves⟩, fun _ _ => rfl, hmoves⟩
  | @dropping key entry p hcaller =>
    cases hf
    cases choice <;> try cases hperform
    obtain ⟨l, hl, heq⟩ := Option.map_eq_some_iff.1 hperform
    cases heq
    obtain ⟨key', entry', hcaller', hmoved, hheld⟩ := KeyedLocker.drop_cases hw.locker hl
    obtain ⟨s, hs, hsheld, hgot⟩ := hfollows
    refine ⟨v, _, .stutter, ⟨hmoved.inv, hw.base, fun key => (hw.locks key).trans (hheld key).symm,
      hw.nodup⟩, ⟨.between _, s, hs, ?_, hgot⟩, hmoved.others, .refl _⟩
    intro key' hkey'
    have hown := hsheld key' hkey'
    rw [Locker.holds, hcaller] at hown
    cases hown

end Calls

/-! ## Whole runs -/

structure Refines (f : Pool steps StepWorld WorkItem) (c : Pool interface World WorkItem) : Prop where
  world : Shadow f.world c.world
  tasks : ∀ t, Option.Rel (Task t f.world) (f.running t) (c.running t)

section Runs

variable {q : Config} {f f' : Pool steps StepWorld WorkItem} {c c' : Pool interface World WorkItem}

theorem rel_mono {α β : Type} {R S : α → β → Prop} (h : ∀ a b, R a b → S a b) {x : Option α}
    {y : Option β} (hxy : Option.Rel R x y) : Option.Rel S x y := by
  cases hxy with
  | none => exact .none
  | some hab => exact .some (h _ _ hab)

theorem Refines.task (h : Refines f c) {t : WorkItem} {r : Process steps Unit}
    (hrun : f.running t = some r) : ∃ p, c.running t = some p ∧ Task t f.world r p := by
  have htask := h.tasks t
  rw [hrun] at htask
  cases hcrun : c.running t with
  | none =>
    rw [hcrun] at htask
    cases htask
  | some p =>
    rw [hcrun] at htask
    cases htask with
    | some htask => exact ⟨p, rfl, htask⟩

/-- One worker moves, and the others only see the world go on. -/
theorem Refines.set (h : Refines f c) {t : WorkItem} {w : StepWorld} {v : World}
    {r : Option (Process steps Unit)} {r' : Option (Worker Unit)} (hw : Shadow w v)
    (hothers : ∀ u, u ≠ t → w.locker.caller u = f.world.locker.caller u)
    (hextends : f.world.base.api.Extends w.base.api) (hr : Option.Rel (Task t w) r r') :
    Refines (f.set t w r) (c.set t v r') := by
  refine ⟨hw, fun u => ?_⟩
  by_cases hu : u = t
  · subst hu
    simpa only [Pool.set, Function.update_self] using hr
  · simp only [Pool.set, Function.update_of_ne hu]
    exact rel_mono (fun _ _ htask => htask.mono (hothers u hu) hextends) (h.tasks u)

end Runs

/-! ## What overlaps and what waits -/

/-- The work item is inside `backend.Delete` of this artifact. -/
def Deleting (pool : Pool steps StepWorld WorkItem) (t : WorkItem) (uid : UID) : Prop :=
  pool.next t = some (.endDelete uid)

/-- A worker that deletes is inside the section of a key of that artifact to which it is entitled. -/
theorem Refines.deleting {f : Pool steps StepWorld WorkItem} {c : Pool interface World WorkItem}
    (h : Refines f c) {t : WorkItem} {uid : UID} (hdelete : Deleting f t uid) :
    c.next t = some (.delete uid) ∧ ∃ key s, f.world.locker.holds t = some key ∧ key.artifactUID = uid ∧
      Entitled t s key ∧ ∀ name d, s.got = some (name, d) → Recorded id f.world.base.api name d := by
  obtain ⟨k, hk⟩ := Pool.next_eq_some.1 hdelete
  obtain ⟨p, hcrun, htask⟩ := h.task hk
  obtain ⟨k', rfl⟩ := stage_endDelete htask.stage
  obtain ⟨s, ⟨⟨key, hheld, huid, hentitled⟩, _⟩, hholds, hgot⟩ := htask.follows
  exact ⟨Pool.next_eq_some.2 ⟨k', hcrun⟩, key, s, hholds key hheld, huid, hentitled, hgot⟩

namespace Sample

theorem distinct : world.api.current.Distinct := by
  intro n n' c c' hc hc' _
  simp only [world, Server.start, Collection.get] at hc hc'
  rcases OrderedMap.getElem?_insert_eq_some.1 hc with ⟨rfl, _⟩ | ⟨_, h⟩
  · rcases OrderedMap.getElem?_insert_eq_some.1 hc' with ⟨rfl, _⟩ | ⟨_, h⟩
    · rfl
    · simp at h
  · simp at h

def cleanup : WorkItem := .deleteContent "live" "u1"

end Sample

end Maintenance
