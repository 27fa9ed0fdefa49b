import Snapshot.OrderedMap
import Snapshot.VersionedServer

/-! Named objects of an API server: each has a UID that is never assigned again, carries the
version of the write that produced it, and once it is marked for deletion stays so until its last
finalizer is gone. Whatever is written, an object that is gone or marked does not come back. -/
namespace ApiObjects

open Std VersionedServer OrderedMap

structure Object (β : Type) where
  uid : String
  version : ℕ
  deletionTimestamp : Option ℕ
  finalizers : List String
  body : β
  deriving DecidableEq, Repr

variable {β σ κ : Type}

def Object.deleting (o : Object β) : Bool := o.deletionTimestamp.isSome

/-- The objects of one kind by name, and every UID that was ever assigned. -/
structure Collection (β : Type) where
  objects : ExtTreeMap String (Object β)
  issued : List String

inductive ApiError where
  | notFound
  | alreadyExists
  | conflict
  | other
  deriving DecidableEq, Repr

namespace Collection

def empty : Collection β := ⟨∅, []⟩

def get (x : Collection β) (name : String) : Option (Object β) := x.objects[name]?

def Live (x : Collection β) (u : String) : Prop := ∃ n o, x.get n = some o ∧ o.uid = u

/-- Some object with this UID is not marked for deletion. -/
def Active (x : Collection β) (u : String) : Prop :=
  ∃ n o, x.get n = some o ∧ o.uid = u ∧ o.deleting = false

/-- Replace an object; one that is marked for deletion goes away with its last finalizer. -/
def put (x : Collection β) (name : String) (o : Object β) : Collection β :=
  if o.deleting ∧ o.finalizers = [] then { x with objects := x.objects.erase name }
  else { x with objects := x.objects.insert name o }

def add (x : Collection β) (name : String) (o : Object β) : Collection β :=
  ⟨x.objects.insert name o, o.uid :: x.issued⟩

/-- The server accepts a new object under a free name and assigns a new UID. -/
def create (x : Collection β) (version : ℕ) (name uid : String) (finalizers : List String)
    (body : β) : Except ApiError (Collection β) :=
  if (x.get name).isSome then .error .alreadyExists
  else if uid ∈ x.issued then .error .other
  else .ok (x.add name ⟨uid, version, none, finalizers, body⟩)

/-- Write the finalizers and the body of an object, if it still has the expected version. -/
def update (x : Collection β) (version : ℕ) (name : String) (expected : Option ℕ)
    (f : Object β → List String × β) : Except ApiError (Collection β) :=
  match x.get name with
  | none => .error .notFound
  | some o =>
    if expected = none ∨ expected = some o.version then
      .ok (x.put name { o with version := version, finalizers := (f o).1, body := (f o).2 })
    else .error .conflict

/-- Mark an object for deletion, or remove it if it has no finalizer. -/
def delete (x : Collection β) (version : ℕ) (name : String) (uid : Option String) (time : ℕ) :
    Except ApiError (Collection β) :=
  match x.get name with
  | none => .error .notFound
  | some o =>
    if uid = none ∨ uid = some o.uid then
      if o.deleting then .ok x
      else .ok (x.put name { o with version := version, deletionTimestamp := some time })
    else .error .conflict

theorem get_put {x : Collection β} {name n : String} {o p : Object β}
    (h : (x.put name o).get n = some p) : n = name ∧ p = o ∨ n ≠ name ∧ x.get n = some p := by
  simp only [get, put] at h ⊢
  split at h
  · obtain ⟨hne, hp⟩ := getElem?_erase_eq_some.1 h
    exact .inr ⟨Ne.symm hne, hp⟩
  · rcases getElem?_insert_eq_some.1 h with ⟨rfl, rfl⟩ | ⟨hne, hp⟩
    · exact .inl ⟨rfl, rfl⟩
    · exact .inr ⟨Ne.symm hne, hp⟩

theorem get_put_of_ne (x : Collection β) {name n : String} (o : Object β) (h : n ≠ name) :
    (x.put name o).get n = x.get n := by
  simp only [get, put]
  split
  · simp [ExtTreeMap.getElem?_erase, Ne.symm h]
  · simp [ExtTreeMap.getElem?_insert, Ne.symm h]

theorem get_put_self (x : Collection β) (name : String) {o : Object β}
    (h : ¬ (o.deleting ∧ o.finalizers = [])) : (x.put name o).get name = some o := by
  simp [get, put, h]

/-- What is marked for deletion is stored only for its finalizers. -/
theorem stored_of_get_put {x : Collection β} {name : String} {o p : Object β}
    (h : (x.put name o).get name = some p) : ¬ (p.deleting = true ∧ p.finalizers = []) := by
  simp only [get, put] at h
  split at h
  · simp at h
  · next hkept =>
    rw [ExtTreeMap.getElem?_insert_self] at h
    cases h
    exact hkept

theorem get_add {x : Collection β} {name n : String} {o p : Object β}
    (h : (x.add name o).get n = some p) : n = name ∧ p = o ∨ n ≠ name ∧ x.get n = some p := by
  rcases getElem?_insert_eq_some.1 h with ⟨rfl, rfl⟩ | ⟨hne, hp⟩
  · exact .inl ⟨rfl, rfl⟩
  · exact .inr ⟨Ne.symm hne, hp⟩

theorem get_add_self (x : Collection β) (name : String) (o : Object β) :
    (x.add name o).get name = some o := by
  simp [get, add]

theorem get_add_of_ne (x : Collection β) {name n : String} (o : Object β) (h : n ≠ name) :
    (x.add name o).get n = x.get n := by
  simp [get, add, ExtTreeMap.getElem?_insert, Ne.symm h]

@[simp] theorem issued_put (x : Collection β) (name : String) (o : Object β) :
    (x.put name o).issued = x.issued := by
  simp only [put]
  split <;> rfl

/-- What one write with a given version can do to the objects of one kind. -/
inductive Step (version : ℕ) (x : Collection β) : Collection β → Prop where
  | same : Step version x x
  | add {name : String} {o : Object β} (hfree : x.get name = none) (hnew : o.uid ∉ x.issued)
      (hversion : o.version = version) : Step version x (x.add name o)
  | put {name : String} {o p : Object β} (ho : x.get name = some o) (huid : p.uid = o.uid)
      (hversion : p.version = version) (hdeleting : o.deleting = true → p.deleting = true) :
      Step version x (x.put name p)

theorem step_create {x y : Collection β} {version : ℕ} {name uid : String}
    {finalizers : List String} {body : β}
    (h : x.create version name uid finalizers body = .ok y) :
    x.get name = none ∧ uid ∉ x.issued ∧ y = x.add name ⟨uid, version, none, finalizers, body⟩ := by
  simp only [create] at h
  split at h
  · cases h
  · split at h <;> cases h
    rename_i hfree hnew
    exact ⟨by simpa using hfree, hnew, rfl⟩

theorem Step.of_create {x y : Collection β} {version : ℕ} {name uid : String}
    {finalizers : List String} {body : β}
    (h : x.create version name uid finalizers body = .ok y) : Step version x y := by
  obtain ⟨hfree, hnew, rfl⟩ := step_create h
  exact .add hfree hnew rfl

theorem step_update {x y : Collection β} {version : ℕ} {name : String} {expected : Option ℕ}
    {f : Object β → List String × β} (h : x.update version name expected f = .ok y) :
    ∃ o, x.get name = some o ∧ (expected = none ∨ expected = some o.version) ∧
      y = x.put name { o with version := version, finalizers := (f o).1, body := (f o).2 } := by
  simp only [update] at h
  split at h
  · cases h
  · rename_i o ho
    split at h <;> cases h
    rename_i hexpected
    exact ⟨o, ho, hexpected, rfl⟩

theorem Step.of_update {x y : Collection β} {version : ℕ} {name : String} {expected : Option ℕ}
    {f : Object β → List String × β} (h : x.update version name expected f = .ok y) :
    Step version x y := by
  obtain ⟨o, ho, _, rfl⟩ := step_update h
  exact .put ho rfl rfl fun hdeleting => hdeleting

theorem step_delete {x y : Collection β} {version : ℕ} {name : String} {uid : Option String}
    {time : ℕ} (h : x.delete version name uid time = .ok y) :
    ∃ o, x.get name = some o ∧ (uid = none ∨ uid = some o.uid) ∧
      (o.deleting = true ∧ y = x ∨
        y = x.put name { o with version := version, deletionTimestamp := some time }) := by
  simp only [delete] at h
  split at h
  · cases h
  · rename_i o ho
    split at h
    · rename_i huid
      split at h <;> cases h
      · exact ⟨o, ho, huid, .inl ⟨‹_›, rfl⟩⟩
      · exact ⟨o, ho, huid, .inr rfl⟩
    · cases h

theorem Step.of_delete {x y : Collection β} {version : ℕ} {name : String} {uid : Option String}
    {time : ℕ} (h : x.delete version name uid time = .ok y) : Step version x y := by
  obtain ⟨o, ho, _, ⟨_, rfl⟩ | rfl⟩ := step_delete h
  · exact .same
  · exact .put ho rfl rfl fun _ => rfl

/-- An object was there before, under the same name and with the same UID, or is new. -/
theorem Step.origin {x y : Collection β} {version : ℕ} (h : Step version x y) {n : String}
    {p : Object β} (hp : y.get n = some p) :
    (∃ o, x.get n = some o ∧ o.uid = p.uid) ∨ x.get n = none ∧ p.uid ∉ x.issued := by
  cases h with
  | same => exact .inl ⟨p, hp, rfl⟩
  | add hfree hnew _ =>
    rcases get_add hp with ⟨rfl, rfl⟩ | ⟨_, hn⟩
    · exact .inr ⟨hfree, hnew⟩
    · exact .inl ⟨p, hn, rfl⟩
  | put ho huid _ _ =>
    rcases get_put hp with ⟨rfl, rfl⟩ | ⟨_, hn⟩
    · exact .inl ⟨_, ho, huid.symm⟩
    · exact .inl ⟨p, hn, rfl⟩

/-- Each object carries a UID that was assigned. -/
def Assigned (x : Collection β) : Prop := ∀ n o, x.get n = some o → o.uid ∈ x.issued

theorem Assigned.step {x y : Collection β} {version : ℕ} (h : x.Assigned) (hstep : Step version x y) :
    y.Assigned := by
  cases hstep with
  | same => exact h
  | add _ _ _ =>
    intro n p hp
    rcases get_add hp with ⟨_, rfl⟩ | ⟨_, hn⟩
    · exact List.mem_cons_self
    · exact List.mem_cons_of_mem _ (h n p hn)
  | put ho huid _ _ =>
    intro n p hp
    rw [issued_put]
    rcases get_put hp with ⟨_, rfl⟩ | ⟨_, hn⟩
    · rw [huid]
      exact h _ _ ho
    · exact h n p hn

/-- UIDs stay assigned; what is gone stays gone, and what is gone or marked stays so. -/
structure Later (x y : Collection β) : Prop where
  issued : ∀ u ∈ x.issued, u ∈ y.issued
  gone : ∀ u ∈ x.issued, ¬ x.Live u → ¬ y.Live u
  inactive : ∀ u ∈ x.issued, ¬ x.Active u → ¬ y.Active u

theorem Later.refl (x : Collection β) : Later x x := ⟨fun _ h => h, fun _ _ h => h, fun _ _ h => h⟩

theorem Later.trans {x y z : Collection β} (h : Later x y) (h' : Later y z) : Later x z where
  issued u hu := h'.issued u (h.issued u hu)
  gone u hu hx := h'.gone u (h.issued u hu) (h.gone u hu hx)
  inactive u hu hx := h'.inactive u (h.issued u hu) (h.inactive u hu hx)

theorem Step.later {x y : Collection β} {version : ℕ} (h : Step version x y) : Later x y := by
  cases h with
  | same => exact .refl x
  | @add name o _ hnew _ =>
    refine ⟨fun u hu => List.mem_cons_of_mem _ hu, fun u hu hdead hlive => ?_,
      fun u hu hdead hactive => ?_⟩
    · obtain ⟨n, p, hp, rfl⟩ := hlive
      rcases get_add hp with ⟨_, rfl⟩ | ⟨_, hn⟩
      · exact hnew hu
      · exact hdead ⟨n, p, hn, rfl⟩
    · obtain ⟨n, p, hp, rfl, hp'⟩ := hactive
      rcases get_add hp with ⟨_, rfl⟩ | ⟨_, hn⟩
      · exact hnew hu
      · exact hdead ⟨n, p, hn, rfl, hp'⟩
  | @put name o p ho huid _ hdeleting =>
    refine ⟨fun u hu => by rwa [issued_put], fun u _ hdead hlive => ?_, fun u _ hdead hactive => ?_⟩
    · obtain ⟨n, q, hq, rfl⟩ := hlive
      rcases get_put hq with ⟨rfl, rfl⟩ | ⟨_, hn⟩
      · exact hdead ⟨n, o, ho, huid.symm⟩
      · exact hdead ⟨n, q, hn, rfl⟩
    · obtain ⟨n, q, hq, rfl, hq'⟩ := hactive
      rcases get_put hq with ⟨rfl, rfl⟩ | ⟨_, hn⟩
      · refine hdead ⟨n, o, ho, huid.symm, ?_⟩
        by_contra h
        rw [Bool.not_eq_false] at h
        simp [hdeleting h] at hq'
      · exact hdead ⟨n, q, hn, rfl, hq'⟩

theorem Step.stamp {x y : Collection β} {version : ℕ} (h : Step version x y) {n : String}
    {o : Object β} (ho : y.get n = some o) : x.get n = some o ∨ o.version = version := by
  cases h with
  | same => exact .inl ho
  | add _ _ hversion =>
    rcases get_add ho with ⟨_, rfl⟩ | ⟨_, hn⟩
    · exact .inr hversion
    · exact .inl hn
  | put _ _ hversion _ =>
    rcases get_put ho with ⟨_, rfl⟩ | ⟨_, hn⟩
    · exact .inr hversion
    · exact .inl hn

/-- How the object of a name relates to the one with the same UID before a step. -/
def Keeps (R : Object β → Object β → Prop) (x y : Collection β) : Prop :=
  ∀ n o p, x.get n = some o → y.get n = some p → p.uid = o.uid → R o p

section Keeps

variable {R : Object β → Object β → Prop} {x : Collection β} {name : String}

theorem keeps_refl (hrefl : ∀ o, R o o) (x : Collection β) : x.Keeps R x := by
  intro n o p ho hp _
  rw [ho] at hp
  cases hp
  exact hrefl o

theorem keeps_add (hrefl : ∀ o, R o o) (hfree : x.get name = none) (q : Object β) :
    x.Keeps R (x.add name q) := by
  intro n o p ho hp _
  rcases get_add hp with ⟨rfl, _⟩ | ⟨_, hp⟩
  · rw [hfree] at ho
    cases ho
  · rw [ho] at hp
    cases hp
    exact hrefl o

theorem keeps_put (hrefl : ∀ o, R o o) {o p : Object β} (ho : x.get name = some o) (hR : R o p) :
    x.Keeps R (x.put name p) := by
  intro n q r hq hr _
  rcases get_put hr with ⟨rfl, rfl⟩ | ⟨_, hr⟩
  · rw [ho] at hq
    cases hq
    exact hR
  · rw [hq] at hr
    cases hr
    exact hrefl q

end Keeps

/-- A step leaves what `g` shows of every object. -/
def Fixes {γ : Type} (g : β → γ) (x y : Collection β) : Prop :=
  x.Keeps (fun o p => g o.body = g p.body) y

section Fixes

variable {γ : Type} {g : β → γ} {x : Collection β} {name : String}

theorem fixes_refl (x : Collection β) : x.Fixes g x :=
  keeps_refl (R := fun o p => g o.body = g p.body) (fun _ => rfl) x

theorem fixes_add (hfree : x.get name = none) (q : Object β) : x.Fixes g (x.add name q) :=
  keeps_add (R := fun o p => g o.body = g p.body) (fun _ => rfl) hfree q

theorem fixes_put {o p : Object β} (ho : x.get name = some o) (hg : g o.body = g p.body) :
    x.Fixes g (x.put name p) :=
  keeps_put (R := fun o p => g o.body = g p.body) (fun _ => rfl) ho hg

end Fixes

end Collection

open Collection

/-- What holds of the objects of one kind in every state of a server that only takes such steps. -/
structure Tidy (f : σ → Collection β) (s : Server σ κ) : Prop where
  evolves : s.Evolves fun x y => Later (f x) (f y)
  assigned : s.Always fun x => (f x).Assigned
  stamped : ∀ n, s.Stamped (fun x => (f x).get n) Object.version

theorem Tidy.write {f : σ → Collection β} {s : Server σ κ} (h : Tidy f s) {x : σ}
    (hstep : Step (s.version + 1) (f s.current) (f x)) : Tidy f (s.write x) where
  evolves := h.evolves.write (Later.refl _) Later.trans hstep.later
  assigned := h.assigned.write (h.assigned.current.step hstep)
  stamped n := (h.stamped n).write fun _ ho => hstep.stamp ho

theorem Tidy.of_states {f : σ → Collection β} {s t : Server σ κ} (h : Tidy f s)
    (hpast : t.past = s.past) (hcurrent : t.current = s.current) : Tidy f t := by
  have hstate : t.state = s.state := by
    funext v
    simp only [Server.state, hpast, hcurrent]
  refine ⟨fun v v' x y => ?_, fun v x => ?_, fun n v x o => ?_⟩
  · rw [hstate]
    exact h.evolves v v' x y
  · rw [hstate]
    exact h.assigned v x
  · rw [hstate]
    exact h.stamped n v x o

/-- The objects that a server starts with: each has an assigned UID and the first version. -/
def Collection.Fresh (x : Collection β) : Prop :=
  ∀ n o, x.get n = some o → o.uid ∈ x.issued ∧ o.version = 0

theorem Collection.fresh_empty : (empty : Collection β).Fresh := by
  intro n o h
  simp [get, empty] at h

/-- The collection of one object. -/
def Collection.single (name : String) (o : Object β) : Collection β := empty.add name o

theorem Collection.get_single {name n : String} {o p : Object β} (h : (single name o).get n = some p) :
    n = name ∧ p = o := by
  rcases get_add h with h | ⟨_, h⟩
  · exact h
  · simp [get, empty] at h

theorem Collection.fresh_single {name : String} {o : Object β} (h : o.version = 0) :
    (single name o).Fresh := by
  intro n p hp
  obtain ⟨_, rfl⟩ := get_single hp
  exact ⟨List.mem_cons_self, h⟩

theorem tidy_start {f : σ → Collection β} {x : σ} (h : (f x).Fresh) :
    Tidy f (Server.start x : Server σ κ) where
  evolves := Server.evolves_start x (Later.refl _)
  assigned := Server.always_start fun n o ho => (h n o ho).1
  stamped n := Server.stamped_start x fun o ho => (h n o ho).2

/-- The object under a name, as some state of the server had it. -/
def Recorded (f : σ → Collection β) (s : Server σ κ) (name : String) (o : Object β) : Prop :=
  ∃ v x, s.state v = some x ∧ (f x).get name = some o

theorem Recorded.mono {f : σ → Collection β} {s t : Server σ κ} {name : String} {o : Object β}
    (h : Recorded f s name o) (hextends : s.Extends t) : Recorded f t name o := by
  obtain ⟨v, x, hx, ho⟩ := h
  exact ⟨v, x, hextends.state hx, ho⟩

theorem recorded_view {f : σ → Collection β} (s : Server σ κ) (k : κ) {name : String} {o : Object β}
    (h : (f (s.view k)).get name = some o) : Recorded f s name o := by
  obtain ⟨v, hv⟩ := s.view_eq_state k
  exact ⟨v, _, hv, h⟩

theorem recorded_current {f : σ → Collection β} (s : Server σ κ) {name : String} {o : Object β}
    (h : (f s.current).get name = some o) : Recorded f s name o :=
  ⟨s.version, s.current, s.state_version, h⟩

theorem recorded_write {f : σ → Collection β} {s : Server σ κ} {x : σ} {name : String} {o : Object β}
    (h : Recorded f (s.write x) name o) : Recorded f s name o ∨ (f x).get name = some o := by
  obtain ⟨v, y, hy, ho⟩ := h
  rcases Server.state_write_cases hy with hy | ⟨_, rfl⟩
  · exact .inl ⟨v, y, hy, ho⟩
  · exact .inr ho

theorem Tidy.issued_of_recorded {f : σ → Collection β} {s : Server σ κ} (h : Tidy f s) {name : String}
    {o : Object β} (ho : Recorded f s name o) : o.uid ∈ (f s.current).issued := by
  obtain ⟨v, x, hx, ho⟩ := ho
  exact (h.evolves.current hx).issued o.uid (h.assigned v x hx name o ho)

/-- Objects with one UID have one name, and agree on the part that `g` shows. -/
def Fixed {γ : Type} (f : σ → Collection β) (g : β → γ) (s : Server σ κ) : Prop :=
  ∀ n n' o o', Recorded f s n o → Recorded f s n' o' → o.uid = o'.uid → n = n' ∧ g o.body = g o'.body

section Fixed

variable {γ : Type} {f : σ → Collection β} {g : β → γ} {s : Server σ κ}

/-- An object after a step is one that was there, or the only one of a new UID. -/
theorem Fixed.write (h : Fixed f g s) (htidy : Tidy f s) {x : σ} {version : ℕ}
    (hstep : Step version (f s.current) (f x))
    (hkeeps : (f s.current).Fixes g (f x)) : Fixed f g (s.write x) := by
  -- what the new state shows was shown before, unless its UID is new
  have known : ∀ {n o}, (f x).get n = some o →
      (∃ p, Recorded f s n p ∧ p.uid = o.uid ∧ g p.body = g o.body) ∨
        o.uid ∉ (f s.current).issued := by
    intro n o ho
    rcases hstep.origin ho with ⟨p, hp, hu⟩ | ⟨_, hnew⟩
    · exact .inl ⟨p, recorded_current s hp, hu, hkeeps n p o hp ho hu.symm⟩
    · exact .inr hnew
  have mixed : ∀ {n n' o o'}, Recorded f s n o → (f x).get n' = some o' → o.uid = o'.uid →
      n = n' ∧ g o.body = g o'.body := by
    intro n n' o o' ho ho' hu
    rcases known ho' with ⟨p, hp, hpu, hpg⟩ | hnew
    · obtain ⟨hn, hg⟩ := h n n' o p ho hp (hu.trans hpu.symm)
      exact ⟨hn, hg.trans hpg⟩
    · rw [← hu] at hnew
      exact absurd (htidy.issued_of_recorded ho) hnew
  intro n n' o o' ho ho' hu
  rcases recorded_write ho with ho | ho
  · rcases recorded_write ho' with ho' | ho'
    · exact h n n' o o' ho ho' hu
    · exact mixed ho ho' hu
  · rcases recorded_write ho' with ho' | ho'
    · obtain ⟨hn, hg⟩ := mixed ho' ho hu.symm
      exact ⟨hn.symm, hg.symm⟩
    · rcases known ho with ⟨p, hp, hpu, hpg⟩ | hnew
      · obtain ⟨hn, hg⟩ := mixed hp ho' (hpu.trans hu)
        exact ⟨hn, hpg.symm.trans hg⟩
      · -- both are the object that was added
        generalize hy : f x = y at hstep ho ho'
        cases hstep with
        | same => exact absurd (htidy.assigned.current n o ho) hnew
        | add _ _ _ =>
          rcases get_add ho with ⟨rfl, rfl⟩ | ⟨_, hold⟩
          · rcases get_add ho' with ⟨rfl, rfl⟩ | ⟨_, hold'⟩
            · exact ⟨rfl, rfl⟩
            · exact absurd (hu ▸ htidy.assigned.current n' o' hold') hnew
          · exact absurd (htidy.assigned.current n o hold) hnew
        | put hq hqu _ _ =>
          rcases get_put ho with ⟨rfl, rfl⟩ | ⟨_, hold⟩
          · rw [hqu] at hnew
            exact absurd (htidy.assigned.current _ _ hq) hnew
          · exact absurd (htidy.assigned.current n o hold) hnew

theorem Fixed.of_states {t : Server σ κ} (h : Fixed f g s) (hpast : t.past = s.past)
    (hcurrent : t.current = s.current) : Fixed f g t := by
  have hrecorded : ∀ {n o}, Recorded f t n o → Recorded f s n o := by
    intro n o ⟨v, x, hx, ho⟩
    simp only [Server.state, hpast, hcurrent] at hx
    exact ⟨v, x, hx, ho⟩
  exact fun n n' o o' ho ho' => h n n' o o' (hrecorded ho) (hrecorded ho')

theorem fixed_start {x : σ} (h : ∀ n n' o o', (f x).get n = some o → (f x).get n' = some o' →
    o.uid = o'.uid → n = n') : Fixed f g (Server.start x : Server σ κ) := by
  have first : ∀ {n o}, Recorded f (Server.start x : Server σ κ) n o → (f x).get n = some o := by
    intro n o ⟨v, y, hy, ho⟩
    have hv := Server.state_eq_some_le hy
    simp only [Server.version, Server.start, List.length_nil, Nat.le_zero] at hv
    subst hv
    cases hy
    exact ho
  intro n n' o o' ho ho' hu
  obtain rfl := h n n' o o' (first ho) (first ho') hu
  have heq : o = o' := Option.some.inj ((first ho).symm.trans (first ho'))
  exact ⟨rfl, by rw [heq]⟩

/-- What the history of one kind of objects tells, with `g` as their immutable part. -/
structure Chronicle {γ : Type} (f : σ → Collection β) (g : β → γ) (s : Server σ κ) : Prop where
  tidy : Tidy f s
  fixed : Fixed f g s

theorem Chronicle.write (h : Chronicle f g s) {x : σ} (hstep : Step (s.version + 1) (f s.current) (f x))
    (hkeeps : (f s.current).Fixes g (f x)) : Chronicle f g (s.write x) :=
  ⟨h.tidy.write hstep, h.fixed.write h.tidy hstep hkeeps⟩

theorem Chronicle.of_states {t : Server σ κ} (h : Chronicle f g s) (hpast : t.past = s.past)
    (hcurrent : t.current = s.current) : Chronicle f g t :=
  ⟨h.tidy.of_states hpast hcurrent, h.fixed.of_states hpast hcurrent⟩

/-- Every UID is used for one object. -/
def Collection.Distinct (x : Collection β) : Prop :=
  ∀ n n' o o', x.get n = some o → x.get n' = some o' → o.uid = o'.uid → n = n'

theorem Collection.distinct_empty : (empty : Collection β).Distinct := by
  intro n n' o o' h
  simp [get, empty] at h

theorem Collection.distinct_single (name : String) (o : Object β) : (single name o).Distinct := by
  intro n n' p q hp hq _
  exact (get_single hp).1.trans (get_single hq).1.symm

theorem chronicle_start {x : σ} (hfresh : (f x).Fresh) (hdistinct : (f x).Distinct) :
    Chronicle f g (Server.start x : Server σ κ) :=
  ⟨tidy_start hfresh, fixed_start hdistinct⟩

end Fixed

/-- The optimistic lock: an object of the version that was read is the object that was read. -/
theorem Tidy.eq_of_version {f : σ → Collection β} {s : Server σ κ} (h : Tidy f s) {name : String}
    {o p : Object β} (ho : Recorded f s name o) (hp : Recorded f s name p)
    (hversion : o.version = p.version) : o = p := by
  obtain ⟨v, x, hx, ho⟩ := ho
  obtain ⟨v', y, hy, hp⟩ := hp
  exact (h.stamped name).eq_of_stamp hx ho hy hp hversion

/-- How a write request fares: it is answered, it fails on the way to the server, or it takes
effect and the answer is lost. -/
inductive Delivery where
  | answered
  | failed
  | lost
  deriving DecidableEq

def deliver (s : Server σ κ) (d : Delivery) (r : Except ApiError σ) :
    Except ApiError Unit × Server σ κ :=
  match d, r with
  | .failed, _ => (.error .other, s)
  | _, .error e => (.error e, s)
  | .answered, .ok x => (.ok (), s.write x)
  | .lost, .ok x => (.error .other, s.write x)

theorem deliver_cases (s : Server σ κ) (d : Delivery) (r : Except ApiError σ) :
    (∃ e, deliver s d r = (.error e, s)) ∨
      ∃ x a, r = .ok x ∧ deliver s d r = (a, s.write x) := by
  cases d <;> cases r
  · exact .inl ⟨_, rfl⟩
  · exact .inr ⟨_, _, rfl, rfl⟩
  · exact .inl ⟨_, rfl⟩
  · exact .inl ⟨_, rfl⟩
  · exact .inl ⟨_, rfl⟩
  · exact .inr ⟨_, _, rfl, rfl⟩

/-- A request that is answered without an error took effect. -/
theorem deliver_ok {s : Server σ κ} {d : Delivery} {r : Except ApiError σ}
    (h : (deliver s d r).1 = .ok ()) : ∃ x, r = .ok x ∧ (deliver s d r).2 = s.write x := by
  cases d <;> cases r <;> cases h
  exact ⟨_, rfl, rfl⟩

/-- A read either fails on the way or shows the object, if there is one. -/
def lookup (d : Delivery) (o : Option (Object β)) : Except ApiError (Object β) :=
  match d, o with
  | .answered, some o => .ok o
  | .answered, none => .error .notFound
  | _, _ => .error .other

theorem lookup_ok {d : Delivery} {o : Option (Object β)} {p : Object β} (h : lookup d o = .ok p) :
    o = some p := by
  cases d <;> cases o <;> cases h
  rfl

end ApiObjects
