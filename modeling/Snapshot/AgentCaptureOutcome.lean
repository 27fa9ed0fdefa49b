import Snapshot.AgentCaptureExclusion

/-! The outcome of a PodSnapshotContent. The helpers that record it change the copy which the pass
holds, and send the whole list of conditions with the version of that copy; the request may fail with
or without effect, and the content may go and come back under its name in between. The version keeps
the two outcomes apart and keeps the first. It does not tie the outcome to the object that was
captured: after a conflict the content is read again by name. -/
namespace ContentOutcome

open ApiObjects Interleaving VersionedServer AgentCapture
open ApiObjects.Collection

/-! ## The system -/

structure World where
  api : AgentCapture.World
  /-- The copy that the pass over a name holds, as its helpers left it. -/
  held : String → Option Content
  /-- The contents whose dump has begun, and those whose capture is committed. -/
  begun : List String
  committed : List String

namespace World

variable (w : World)

def content (name : String) : Option Content := w.api.current.contents.get name

def hold (name : String) (content : Option Content) : World :=
  { w with held := Function.update w.held name content }

/-- A status patch: the condition is set in the copy, and the conditions of the copy replace those of
the object if the object has the version that the copy was read with. -/
def patchStatus (x : Choice) (t name : String) (version : ℕ) (set : ContentBody → ContentBody) :
    Except ApiError Unit × World :=
  match w.held t with
  | none => (.error .other, w)
  | some content =>
    let status := set content.body
    let r := w.api.patchContent x name version fun b =>
      { b with ready := status.ready, failed := status.failed }
    (r.1, { w with api := r.2 }.hold t (some { content with body := status }))

/-- `Get`: the pass holds what it has read. -/
def getContent (x : Choice) (t name : String) : Except ApiError Content × World :=
  match lookup x.delivery (w.content name) with
  | .ok content => (.ok content, w.hold t (some content))
  | .error e => (.error e, w)

/-- A dump that returns without an error is committed. -/
def endCheckpoint (x : Choice) (uid : String) : Except CaptureFailure Unit × World :=
  match x.dump with
  | .ok () => (.ok (), { w with committed := uid :: w.committed })
  | .error e => (.error e, w)

end World

/-- `meta.SetStatusCondition` with Failed -/
def setFailed (reason message : String) (b : ContentBody) : ContentBody :=
  { b with failed := some ⟨true, reason, message⟩ }

/-- `meta.SetStatusCondition` with Ready -/
def setReady (b : ContentBody) : ContentBody :=
  { b with ready := some ⟨true, "Captured", "Checkpoint captured and verified"⟩ }

/-- The artifact directory of a content exists only once its capture is committed. -/
def perform (t : String) (w : World) : (c : Call) → Choice → c.Answer × World
  | .cachedContent name, _ => (w.api.cache.get name, w.hold t (w.api.cache.get name))
  | .getContent name, x => w.getContent x t name
  | .patchFailed name version reason message, x =>
    w.patchStatus x t name version (setFailed reason message)
  | .patchReady name version, x => w.patchStatus x t name version setReady
  | .artifactPresent _ uid _, x => (x.artifact && decide (uid ∈ w.committed), w)
  | .beginCheckpoint params, _ => ((), { w with begun := params.contentUID :: w.begun })
  | .endCheckpoint params, x => w.endCheckpoint x params.contentUID
  | c, x =>
    let r := AgentCapture.perform w.api c x
    (r.1, { w with api := r.2 })

inductive Disturbance where
  | cluster (d : AgentCapture.Disturbance)
  /-- A dump commits before it returns, and whether or not it then reports a failure. -/
  | commit (uid : String)

/-- A new content has no conditions, and others than the agent leave them alone. -/
def bystander (w : World) : AgentCapture.Disturbance → Bool
  | .createContent _ _ _ body => body.ready = none && body.failed = none
  | .updateContent name _ body =>
    (w.content name).all fun o => body.ready = o.body.ready && body.failed = o.body.failed
  | _ => true

def disturb (w : World) : Disturbance → Option World
  | .cluster d =>
    if bystander w d then (AgentCapture.disturb w.api d).map fun api => { w with api := api } else none
  | .commit uid =>
    if uid ∈ w.begun then some { w with committed := uid :: w.committed } else none

/-- A pass that dies leaves its name to the next one. -/
def system (cfg : Config) : System interface World String where
  Choice := Choice
  Disturbance := Disturbance
  perform t w c x := some (perform t w c x)
  disturb := disturb
  body name := do
    let _ ← reconcileCapture cfg name
    pure ()

/-- The content that is read again after a conflict is the one that the pass holds. -/
def sameContent (t : String) (w : World) : Call → Choice → Bool
  | .getContent name, x =>
    match lookup x.delivery (w.content name), w.held t with
    | .ok o, some held => o.uid = held.uid
    | _, _ => true
  | _, _ => true

def lasting (cfg : Config) : System interface World String :=
  (system cfg).restrict sameContent fun _ _ => true

/-! ## What is on record -/

/-- What a condition says, it says for good. -/
def Sticky (o p : Content) : Prop :=
  (isContentReady o.body = true → isContentReady p.body = true) ∧
    (isContentFailed o.body = true → isContentFailed p.body = true)

theorem Sticky.refl (o : Content) : Sticky o o := ⟨fun h => h, fun h => h⟩

theorem sticky_of_eq {o p : Content} (hready : p.body.ready = o.body.ready)
    (hfailed : p.body.failed = o.body.failed) : Sticky o p := by
  constructor
  · intro h
    rwa [isContentReady, hready]
  · intro h
    rwa [isContentFailed, hfailed]

theorem sticky_of_open {o : Content} (h : isContentTerminal o.body = false) (p : Content) :
    Sticky o p := by
  rw [isContentTerminal, Bool.or_eq_false_iff] at h
  constructor
  · intro hready
    rw [h.1] at hready
    cases hready
  · intro hfailed
    rw [h.2] at hfailed
    cases hfailed

/-- An object that is marked for deletion stays for a finalizer. -/
def Stored (o : Content) : Prop := ¬ (o.deleting = true ∧ o.finalizers = [])

/-- At most one outcome, and Ready only for a capture that is committed. -/
structure Ruled (same : Prop) (committed : List String) (o : Content) : Prop where
  exclusive : ¬ (isContentReady o.body = true ∧ isContentFailed o.body = true)
  own : same → isContentReady o.body = true → o.uid ∈ committed

theorem ruled_of_open {same : Prop} {committed : List String} {o : Content}
    (h : isContentTerminal o.body = false) : Ruled same committed o := by
  rw [isContentTerminal, Bool.or_eq_false_iff] at h
  refine ⟨fun hboth => ?_, fun _ hready => ?_⟩
  · rw [h.1] at hboth
    cases hboth.1
  · rw [h.1] at hready
    cases hready

theorem Ruled.of_eq {same : Prop} {committed : List String} {o p : Content} (h : Ruled same committed o)
    (huid : p.uid = o.uid) (hready : p.body.ready = o.body.ready)
    (hfailed : p.body.failed = o.body.failed) : Ruled same committed p := by
  constructor
  · rw [isContentReady, isContentFailed, hready, hfailed]
    exact h.exclusive
  · rw [isContentReady, hready, huid]
    exact h.own

theorem Ruled.mono {same : Prop} {committed committed' : List String} {o : Content}
    (h : Ruled same committed o) (hsub : committed ⊆ committed') : Ruled same committed' o :=
  ⟨h.exclusive, fun hsame hready => hsub (h.own hsame hready)⟩

structure Inv (same : Prop) (w : World) : Prop where
  tidy : Tidy Cluster.contents w.api
  ruled : ∀ name o, Recorded Cluster.contents w.api name o → Ruled same w.committed o
  stored : ∀ name o, w.content name = some o → Stored o

theorem Inv.commit {same : Prop} {w : World} (h : Inv same w) (uid : String) :
    Inv same { w with committed := uid :: w.committed } :=
  ⟨h.tidy, fun name o ho => (h.ruled name o ho).mono (List.subset_cons_self _ _), h.stored⟩

/-- What one write may do to the contents. -/
inductive Revision (same : Prop) (w : World) : Collection ContentBody → Prop where
  | none : Revision same w w.api.current.contents
  | add {name uid : String} {finalizers : List String} {body : ContentBody}
      (hfree : w.content name = .none) (hnew : uid ∉ w.api.current.contents.issued)
      (hopen : isContentTerminal body = false) :
      Revision same w (w.api.current.contents.add name ⟨uid, w.api.version + 1, .none, finalizers, body⟩)
  | put {name : String} {o p : Content} (ho : w.content name = some o) (huid : p.uid = o.uid)
      (hversion : p.version = w.api.version + 1) (hdeleting : o.deleting = true → p.deleting = true)
      (hsticky : Sticky o p) (hruled : Ruled same w.committed p) :
      Revision same w (w.api.current.contents.put name p)

namespace Revision

variable {same : Prop} {w : World} {y : Collection ContentBody}

theorem step (h : Revision same w y) :
    Collection.Step (w.api.version + 1) w.api.current.contents y := by
  cases h with
  | none => exact .same
  | add hfree hnew _ => exact .add hfree hnew rfl
  | put ho huid hversion hdeleting _ _ => exact .put ho huid hversion hdeleting

theorem sticky (h : Revision same w y) : w.api.current.contents.Keeps Sticky y := by
  cases h with
  | none => exact keeps_refl Sticky.refl _
  | add hfree _ _ => exact keeps_add Sticky.refl hfree _
  | put ho _ _ _ hsticky _ => exact keeps_put Sticky.refl ho hsticky

/-- An object after a write was there before, or it is such as the write made it. -/
theorem ruled (h : Revision same w y) {name : String} {o : Content} (ho : y.get name = some o) :
    w.content name = some o ∨ Ruled same w.committed o ∧ Stored o := by
  cases h with
  | none => exact .inl ho
  | add _ _ hopen =>
    rcases get_add ho with ⟨_, rfl⟩ | ⟨_, hold⟩
    · exact .inr ⟨ruled_of_open hopen, fun hmarked => nomatch hmarked.1⟩
    · exact .inl hold
  | put _ _ _ _ _ hruled =>
    rcases get_put ho with ⟨rfl, rfl⟩ | ⟨_, hold⟩
    · exact .inr ⟨hruled, stored_of_get_put ho⟩
    · exact .inl hold

end Revision

theorem Inv.write {same : Prop} {w : World} (h : Inv same w) {y : Cluster}
    (hrevision : Revision same w y.contents) : Inv same { w with api := w.api.write y } := by
  refine ⟨h.tidy.write hrevision.step, fun name o ho => ?_, fun name o ho => ?_⟩
  · rcases recorded_write ho with ho | ho
    · exact h.ruled name o ho
    · rcases hrevision.ruled ho with hold | hnew
      · exact h.ruled name o (recorded_current _ hold)
      · exact hnew.1
  · rcases hrevision.ruled ho with hold | hnew
    · exact h.stored name o hold
    · exact hnew.2

/-! ## Steps -/

/-- What a step does that is not a step of the pass over `t`. -/
structure Rely (t : String) (w w' : World) : Prop where
  extends_api : w.api.Extends w'.api
  held : w'.held t = w.held t
  committed : w.committed ⊆ w'.committed

theorem Rely.refl (t : String) (w : World) : Rely t w w :=
  ⟨Server.Extends.refl _, rfl, List.Subset.refl _⟩

theorem Rely.trans {t : String} {w₁ w₂ w₃ : World} (h : Rely t w₁ w₂) (h' : Rely t w₂ w₃) :
    Rely t w₁ w₃ :=
  ⟨h.extends_api.trans h'.extends_api, h'.held.trans h.held, List.Subset.trans h.committed h'.committed⟩

/-- What a step of the pass over `t` does. -/
structure Advance (same : Prop) (t : String) (w w' : World) : Prop where
  inv : Inv same w'
  sticky : w.api.current.contents.Keeps Sticky w'.api.current.contents
  extends_api : w.api.Extends w'.api
  held : ∀ u, u ≠ t → w'.held u = w.held u
  committed : w.committed ⊆ w'.committed

section Advance

variable {same : Prop} {t : String} {w w' : World}

theorem Advance.rely (h : Advance same t w w') {u : String} (hu : u ≠ t) : Rely u w w' :=
  ⟨h.extends_api, h.held u hu, h.committed⟩

theorem Inv.stay (h : Inv same w) : Advance same t w w :=
  ⟨h, keeps_refl Sticky.refl _, Server.Extends.refl _, fun _ _ => rfl, List.Subset.refl _⟩

theorem Advance.hold (h : Advance same t w w') (content : Option Content) :
    Advance same t w (w'.hold t content) where
  inv := ⟨h.inv.tidy, h.inv.ruled, h.inv.stored⟩
  sticky := h.sticky
  extends_api := h.extends_api
  held u hu := (Function.update_of_ne hu _ _).trans (h.held u hu)
  committed := h.committed

theorem Inv.advance (h : Inv same w) {y : Cluster} (hrevision : Revision same w y.contents) :
    Advance same t w { w with api := w.api.write y } :=
  ⟨h.write hrevision, hrevision.sticky, Server.extends_write _ _, fun _ _ => rfl, List.Subset.refl _⟩

theorem Inv.committing (h : Inv same w) (uid : String) :
    Advance same t w { w with committed := uid :: w.committed } :=
  ⟨h.commit uid, keeps_refl Sticky.refl _, Server.Extends.refl _, fun _ _ => rfl,
    List.subset_cons_self _ _⟩

end Advance

/-- A request about pods does nothing to the contents. -/
theorem revision_withPods {same : Prop} {w : World} {r : Except ApiError (Collection PodBody)} {y : Cluster}
    (h : w.api.current.withPods r = .ok y) : Revision same w y.contents := by
  obtain ⟨z, _, rfl⟩ := CheckedFold.map_eq_ok.1 h
  exact .none

/-- Others create, change and delete contents as they like, but record no outcome. -/
theorem revision_disturb {same : Prop} {w : World} (h : Inv same w) {d : AgentCapture.Disturbance}
    {api : AgentCapture.World} (hother : bystander w d = true) (hd : AgentCapture.disturb w.api d = some api) :
    (∃ y : Cluster, Revision same w y.contents ∧ api = w.api.write y) ∨
      api.past = w.api.past ∧ api.current = w.api.current := by
  have accepted : ∀ {r}, w.api.accept r = some api → ∃ y, r = .ok y ∧ api = w.api.write y := by
    intro r hr
    cases r with
    | error e => cases hr
    | ok y =>
      cases hr
      exact ⟨y, rfl, rfl⟩
  have onPods : ∀ {r}, w.api.accept (w.api.current.withPods r) = some api →
      ∃ y : Cluster, Revision same w y.contents ∧ api = w.api.write y := by
    intro r hr
    obtain ⟨y, hy, rfl⟩ := accepted hr
    exact ⟨y, revision_withPods hy, rfl⟩
  have onContents : ∀ {r}, w.api.accept (w.api.current.withContents r) = some api →
      (∀ z, r = .ok z → Revision same w z) →
      ∃ y : Cluster, Revision same w y.contents ∧ api = w.api.write y := by
    intro r hr hrevision
    obtain ⟨y, hy, rfl⟩ := accepted hr
    obtain ⟨z, hz, rfl⟩ := CheckedFold.map_eq_ok.1 hy
    exact ⟨_, hrevision z hz, rfl⟩
  cases d with
  | createContent name uid finalizers body =>
    refine .inl (onContents hd fun z hz => ?_)
    obtain ⟨hfree, hnew, rfl⟩ := step_create hz
    simp only [bystander, Bool.and_eq_true, decide_eq_true_eq] at hother
    refine .add hfree hnew ?_
    simp [isContentTerminal, isContentReady, isContentFailed, hother.1, hother.2, PodSnapshot.isTrue]
  | updateContent name finalizers body =>
    refine .inl (onContents hd fun z hz => ?_)
    obtain ⟨o, ho, _, rfl⟩ := step_update hz
    have hcontent : w.content name = some o := ho
    simp only [bystander, hcontent, Option.all_some, Bool.and_eq_true, decide_eq_true_eq] at hother
    refine .put hcontent rfl rfl (fun hdeleting => hdeleting) (sticky_of_eq hother.1 hother.2) ?_
    exact (h.ruled name o (recorded_current _ ho)).of_eq rfl hother.1 hother.2
  | deleteContent name time =>
    refine .inl (onContents hd fun z hz => ?_)
    obtain ⟨o, ho, _, ⟨_, rfl⟩ | rfl⟩ := step_delete hz
    · exact .none
    · refine .put ho rfl rfl (fun _ => rfl) (Sticky.refl _) ?_
      exact (h.ruled name o (recorded_current _ ho)).of_eq rfl rfl rfl
  | createPod | updatePod | deletePod => exact .inl (onPods hd)
  | advance version => exact .inr (Server.advance_eq_some hd)

theorem advance_disturb {same : Prop} {w w' : World} (h : Inv same w) {d : Disturbance}
    (hd : disturb w d = some w') (t : String) : Advance same t w w' ∧ Rely t w w' := by
  cases d with
  | commit uid =>
    simp only [disturb] at hd
    split at hd
    · cases hd
      exact ⟨h.committing uid, Server.Extends.refl _, rfl, List.subset_cons_self _ _⟩
    · cases hd
  | cluster d =>
    simp only [disturb] at hd
    split at hd
    · next hother =>
      obtain ⟨api, hapi, rfl⟩ := Option.map_eq_some_iff.1 hd
      rcases revision_disturb h hother hapi with ⟨y, hrevision, rfl⟩ | ⟨hpast, hcurrent⟩
      · exact ⟨h.advance hrevision, Server.extends_write _ _, rfl, List.Subset.refl _⟩
      · -- the same states; only what the cache shows has changed
        have hstate : api.state = w.api.state := by
          funext v
          simp only [Server.state, hpast, hcurrent]
        have hextends : w.api.Extends api :=
          ⟨by simp only [Server.version, hpast, Nat.le_refl], fun v _ => congrFun hstate v⟩
        refine ⟨⟨⟨h.tidy.of_states hpast hcurrent, ?_, ?_⟩, ?_, hextends, fun _ _ => rfl,
          List.Subset.refl _⟩, hextends, rfl, List.Subset.refl _⟩
        · rintro name o ⟨v, x, hx, ho⟩
          exact h.ruled name o ⟨v, x, by rwa [← hstate], ho⟩
        · intro name o ho
          simp only [World.content, hcurrent] at ho
          exact h.stored name o ho
        · simp only [hcurrent]
          exact keeps_refl Sticky.refl _
    · cases hd

/-! ## Calls of a pass -/

/-- The pass over `name` holds a content as it was read, without an outcome. -/
structure Holds (name : String) (o : Content) (w : World) : Prop where
  held : w.held name = some o
  recorded : Recorded Cluster.contents w.api name o
  unsettled : isContentTerminal o.body = false

theorem Holds.stable {name : String} {o : Content} {w w' : World} (h : Holds name o w)
    (hrely : Rely name w w') : Holds name o w' :=
  ⟨hrely.held.trans h.held, h.recorded.mono hrely.extends_api, h.unsettled⟩

/-- The calls that neither read a content nor write one. -/
def quiet : Call → Bool
  | .cachedContent _ | .getContent _ | .patchFailed .. | .patchReady .. => false
  | _ => true

/-- What an answer tells about the captures. -/
def Tells : (c : Call) → c.Answer → World → Prop
  | .artifactPresent _ uid _, (a : Bool), w => a = true → uid ∈ w.committed
  | .endCheckpoint params, (a : Except CaptureFailure Unit), w => a = .ok () → params.contentUID ∈ w.committed
  | _, _, _ => True

theorem advance_patchLabel {same : Prop} {t : String} {w : World} (h : Inv same w) (x : Choice) (key : String)
    (value : Option String) :
    Advance same t w { w with api := (w.api.patchLabel x key value).2 } := by
  rcases deliver_cases w.api x.delivery (w.api.current.withPods
      (w.api.current.pods.update (w.api.version + 1) key none fun o =>
        (o.finalizers, { o.body with eligible := value }))) with ⟨e, he⟩ | ⟨y, a, hy, he⟩
  · rw [World.patchLabel, he]
    exact h.stay
  · rw [World.patchLabel, he]
    exact h.advance (revision_withPods hy)

theorem advance_endCheckpoint {same : Prop} {t : String} {w : World} (h : Inv same w) (x : Choice) (uid : String) :
    Advance same t w (w.endCheckpoint x uid).2 ∧ (w.endCheckpoint x uid).2.held t = w.held t ∧
      ((w.endCheckpoint x uid).1 = .ok () → uid ∈ (w.endCheckpoint x uid).2.committed) := by
  simp only [World.endCheckpoint]
  split
  · exact ⟨h.committing uid, rfl, fun _ => List.mem_cons_self⟩
  · exact ⟨h.stay, rfl, nofun⟩

theorem advance_quiet {same : Prop} {t : String} {w w' : World} {c : Call} {x : Choice} {a : c.Answer}
    (h : Inv same w) (hquiet : quiet c = true) (hperform : perform t w c x = (a, w')) :
    Advance same t w w' ∧ w'.held t = w.held t ∧ Tells c a w' := by
  cases c with
  | cachedContent | getContent | patchFailed | patchReady => cases hquiet
  | artifactPresent path uid container =>
    cases hperform
    refine ⟨h.stay, rfl, fun ha => ?_⟩
    rw [Bool.and_eq_true, decide_eq_true_eq] at ha
    exact ha.2
  | beginCheckpoint params =>
    cases hperform
    exact ⟨⟨⟨h.tidy, h.ruled, h.stored⟩, keeps_refl Sticky.refl _, Server.Extends.refl _, fun _ _ => rfl,
      List.Subset.refl _⟩, rfl, trivial⟩
  | endCheckpoint params =>
    obtain rfl := congrArg Prod.fst hperform
    obtain rfl := congrArg Prod.snd hperform
    exact advance_endCheckpoint h x params.contentUID
  | removeCaptureEligibleLabel | labelCaptureEligible =>
    obtain rfl := congrArg Prod.snd hperform
    exact ⟨advance_patchLabel h x _ _, rfl, trivial⟩
  | _ =>
    cases hperform
    exact ⟨h.stay, rfl, trivial⟩

/-- A status patch from a copy that was read without an outcome: it lands on that very object. -/
theorem advance_patchStatus {same : Prop} {w : World} {name : String} {o : Content} {x : Choice}
    {set : ContentBody → ContentBody} (h : Inv same w) (hheld : Holds name o w)
    (hruled : ∀ p : Content, p.uid = o.uid → p.body.ready = (set o.body).ready →
      p.body.failed = (set o.body).failed → Ruled same w.committed p) :
    Advance same name w (w.patchStatus x name name o.version set).2 := by
  simp only [World.patchStatus, hheld.held]
  refine Advance.hold ?_ _
  rcases deliver_cases w.api x.delivery (w.api.current.withContents
      (w.api.current.contents.update (w.api.version + 1) name (some o.version) fun c =>
        (c.finalizers, { c.body with ready := (set o.body).ready, failed := (set o.body).failed })))
    with ⟨e, he⟩ | ⟨y, a, hy, he⟩
  · rw [World.patchContent, he]
    exact h.stay
  · rw [World.patchContent, he]
    obtain ⟨z, hz, rfl⟩ := CheckedFold.map_eq_ok.1 hy
    obtain ⟨c, hc, hversion, rfl⟩ := step_update hz
    have hsame : c = o := by
      have hv : o.version = c.version := by simpa using hversion
      exact h.tidy.eq_of_version (recorded_current _ hc) hheld.recorded hv.symm
    subst hsame
    exact h.advance (.put hc rfl rfl (fun hdeleting => hdeleting) (sticky_of_open hheld.unsettled _)
      (hruled _ rfl rfl rfl))

/-- The copy keeps its UID, whether or not the patch takes effect. -/
theorem held_patchStatus {w : World} {t name : String} {o : Content} {x : Choice} {version : ℕ}
    {set : ContentBody → ContentBody} (h : w.held t = some o) :
    (w.patchStatus x t name version set).2.held t = some { o with body := set o.body } := by
  simp [World.patchStatus, h, World.hold]

/-! ## The pass -/

section Pass

variable {cfg : Config} {same : Prop} {call : String → World → Call → Choice → Bool} {name : String}
  {o : Content} {w : World}

/-- The system with some of its calls, among them only re-reads of the content that is held if `same`
asks for that. -/
abbrev calls (cfg : Config) (call : String → World → Call → Choice → Bool) :
    System interface World String :=
  (system cfg).restrict call fun _ _ => true

abbrev Safe {α : Type} (cfg : Config) (same : Prop) (call : String → World → Call → Choice → Bool)
    (name : String) (Q : α → World → Prop) (p : Pass α) (w : World) : Prop :=
  p.Sound (calls cfg call) name (Inv same) (Rely name) (fun w _ _ w' => Advance same name w w') Q w

theorem performed {t : String} {c : Call} {x : Choice} {r : c.Answer × World}
    (h : (calls cfg call).perform t w c x = some r) : call t w c x = true ∧ perform t w c x = r := by
  obtain ⟨hcall, hperform⟩ := System.restrict_perform.1 h
  exact ⟨hcall, Option.some.inj hperform⟩

theorem safe_request {c : Call} (hquiet : quiet c = true) {Q : c.Answer → World → Prop}
    (h : Holds name o w) (hQ : ∀ a w', Holds name o w' → Tells c a w' → Q a w') :
    Safe cfg same call name Q (Process.request (I := interface) c) w := by
  intro w₁ hinv hrely x a w₂ hstep
  obtain ⟨hadvance, hheld, htells⟩ := advance_quiet hinv hquiet (performed hstep).2
  have h₁ := h.stable hrely
  have h₂ : Holds name o w₂ :=
    ⟨hheld.trans h₁.held, h₁.recorded.mono hadvance.extends_api, h₁.unsettled⟩
  exact ⟨hadvance, hQ a w₂ h₂ htells⟩

theorem safe_pure {α : Type} (a : α) (w : World) :
    Safe cfg same call name (fun _ _ => True) (pure a : Pass α) w :=
  Process.sound_pure trivial

theorem safe_setSnapshotContentFailed (h : Holds name o w) (reason message : String) :
    Safe cfg same call name (fun _ _ => True) (setSnapshotContentFailed name o reason message) w := by
  refine Process.sound_bind.2 ?_
  intro w₁ hinv hrely x a w₂ hstep
  obtain rfl := congrArg Prod.snd (performed hstep).2
  refine ⟨advance_patchStatus hinv (h.stable hrely) fun p _ hready _ => ?_, ?_⟩
  · have hopen : isContentReady p.body = false := by
      rw [isContentReady, hready]
      exact (Bool.or_eq_false_iff.1 h.unsettled).1
    constructor
    · rw [hopen]
      exact fun hboth => nomatch hboth.1
    · rw [hopen]
      exact fun _ hready => nomatch hready
  · cases a <;> exact Process.sound_pure trivial

/-- The Ready patch of a content whose capture is committed. -/
theorem safe_patchReady {Q : Except ApiError Unit → World → Prop} (h : Holds name o w)
    (hown : same → o.uid ∈ w.committed)
    (hQ : ∀ a w', w'.held name = some { o with body := setReady o.body } →
      (same → o.uid ∈ w'.committed) → Q a w') :
    Safe cfg same call name Q (Pass.patchReady name o.version) w := by
  intro w₁ hinv hrely x a w₂ hstep
  obtain rfl := congrArg Prod.snd (performed hstep).2
  have h₁ := h.stable hrely
  have hown₁ : same → o.uid ∈ w₁.committed := fun hsame => hrely.committed (hown hsame)
  have hadvance : Advance same name w₁ (w₁.patchStatus x name name o.version setReady).2 := by
    refine advance_patchStatus hinv h₁ fun p huid _ hfailed => ?_
    have hopen : isContentFailed p.body = false := by
      rw [isContentFailed, hfailed]
      exact (Bool.or_eq_false_iff.1 h.unsettled).2
    constructor
    · rw [hopen]
      exact fun hboth => nomatch hboth.2
    · intro hsame _
      rw [huid]
      exact hown₁ hsame
  exact ⟨hadvance, hQ a _ (held_patchStatus h₁.held) fun hsame => hadvance.committed (hown₁ hsame)⟩

/-- The pass begins with what the cache shows. -/
theorem safe_cachedContent {Q : Option Content → World → Prop} (hnone : ∀ w', Q none w')
    (hsome : ∀ content w', w'.held name = some content → Recorded Cluster.contents w'.api name content →
      Q (some content) w') (w : World) :
    Safe cfg same call name Q (Pass.cachedContent name) w := by
  intro w₁ hinv _ x a w₂ hstep
  obtain rfl := congrArg Prod.snd (performed hstep).2
  obtain rfl := congrArg Prod.fst (performed hstep).2
  refine ⟨hinv.stay.hold _, ?_⟩
  change Q (w₁.api.cache.get name) (w₁.hold name (w₁.api.cache.get name))
  cases hcached : w₁.api.cache.get name with
  | none => exact hnone _
  | some content => exact hsome content _ (Function.update_self _ _ _) (recorded_view w₁.api () hcached)

/-- The content is read again, by its name. -/
theorem safe_getContent {Q : Except ApiError Content → World → Prop} {held : Content}
    (hcall : same → ∀ t w c x, call t w c x = true → sameContent t w c x = true)
    (hheld : w.held name = some held) (hown : same → held.uid ∈ w.committed)
    (hok : ∀ current w', w'.held name = some current → Recorded Cluster.contents w'.api name current →
      (same → current.uid ∈ w'.committed) → Q (.ok current) w')
    (herror : ∀ e w', Q (.error e) w') :
    Safe cfg same call name Q (Pass.getContent name) w := by
  intro w₁ hinv hrely x a w₂ hstep
  obtain ⟨hc, hperform⟩ := performed hstep
  have hget : World.getContent w₁ x name name = (a, w₂) := hperform
  unfold World.getContent at hget
  split at hget
  · next current hread =>
    cases hget
    have hcurrent : w₁.content name = some current := lookup_ok hread
    refine ⟨hinv.stay.hold _, hok current _ (by simp [World.hold]) (recorded_current _ hcurrent) ?_⟩
    intro hsame
    have huid := hcall hsame _ _ _ _ hc
    simp only [sameContent, hread, hrely.held, hheld, decide_eq_true_eq] at huid
    rw [huid]
    exact hrely.committed (hown hsame)
  · cases hget
    exact ⟨hinv.stay, herror _ _⟩

/-- A retry keeps to the UID that was committed, as long as re-reads do. -/
theorem safe_markCheckpointReadyWithSource
    (hcall : same → ∀ t w c x, call t w c x = true → sameContent t w c x = true) (attempts : ℕ)
    (h : Holds name o w) (hown : same → o.uid ∈ w.committed) :
    Safe cfg same call name (fun _ _ => True) (markCheckpointReadyWithSource name attempts o) w := by
  induction attempts generalizing o w with
  | zero => exact safe_pure _ _
  | succ attempts ih =>
    refine Process.sound_bind.2 (safe_patchReady h hown fun a w₁ hheld hown₁ => ?_)
    split
    · exact safe_pure _ _
    · refine Process.sound_bind.2 (safe_getContent hcall hheld hown₁ (fun current w₂ hheld₂ hrecorded hown₂ => ?_)
        fun e w₂ => safe_pure _ _)
      by_cases hfailed : isContentFailed current.body = true
      · simp only [hfailed, if_true]
        exact safe_pure _ _
      · by_cases hready : isContentReady current.body = true
        · simp only [hfailed, hready, if_true]
          exact safe_pure _ _
        · simp only [hfailed, hready]
          exact ih ⟨hheld₂, hrecorded, by simp [isContentTerminal, hfailed, hready]⟩ hown₂
    · exact safe_pure _ _

theorem safe_recoverCommittedArtifact
    (hcall : same → ∀ t w c x, call t w c x = true → sameContent t w c x = true) (h : Holds name o w)
    (containerName artifactPath : String) :
    Safe cfg same call name (fun a w => a = none → Holds name o w)
      (recoverCommittedArtifact name o containerName artifactPath) w := by
  simp only [recoverCommittedArtifact]
  split
  · exact Process.sound_pure fun _ => h
  · refine Process.sound_bind.2 (safe_request rfl h fun a w' h' htells => ?_)
    split
    · exact Process.sound_pure fun _ => h'
    · refine Process.sound_bind.2 ?_
      exact (safe_markCheckpointReadyWithSource hcall _ h' fun _ => htells rfl).mono fun _ _ _ =>
        Process.sound_pure (by simp)

theorem safe_cancelCapture (h : Holds name o w) (pod : Pod) (reason message : String) :
    Safe cfg same call name (fun _ _ => True) (cancelCapture name o pod reason message) w := by
  refine Process.sound_bind.2 ?_
  refine (safe_setSnapshotContentFailed h reason message).mono fun outcome w' _ => ?_
  refine Process.sound_bind.2 ?_
  simp only [removeCaptureEligibleLabel]
  split
  · exact Process.sound_pure (safe_pure _ _)
  · intro w₁ hinv _ x a w₂ hstep
    exact ⟨(advance_quiet hinv rfl (performed hstep).2).1, safe_pure _ _⟩

theorem safe_captureReadyContainer
    (hcall : same → ∀ t w c x, call t w c x = true → sameContent t w c x = true) (h : Holds name o w)
    (pod : Pod) (containerName artifactPath : String) (requested : Bool) :
    Safe cfg same call name (fun _ _ => True)
      (captureReadyContainer name o pod containerName artifactPath requested) w := by
  simp only [captureReadyContainer]
  split
  · exact safe_setSnapshotContentFailed h _ _
  · refine Process.sound_bind.2 (safe_request rfl h fun a w₁ h₁ _ => ?_)
    split
    · exact safe_setSnapshotContentFailed h₁ _ _
    · refine Process.sound_bind.2 (safe_request rfl h₁ fun b w₂ h₂ _ => ?_)
      split
      · exact safe_setSnapshotContentFailed h₂ _ _
      · -- `runCheckpoint`
        refine Process.sound_bind.2 (safe_request rfl h₂ fun _ w₃ h₃ _ => ?_)
        refine Process.sound_bind.2 (safe_request rfl h₃ fun d w₄ h₄ htells => ?_)
        split
        · exact safe_setSnapshotContentFailed h₄ _ _
        · exact safe_markCheckpointReadyWithSource hcall _ h₄ fun _ => htells rfl

theorem safe_captureLivePod
    (hcall : same → ∀ t w c x, call t w c x = true → sameContent t w c x = true) (h : Holds name o w)
    (pod : Pod) (containerName artifactPath : String) (requested : Bool) :
    Safe cfg same call name (fun _ _ => True)
      (captureLivePod name o pod containerName artifactPath requested) w := by
  have labelled : Safe cfg same call name (fun _ w => Holds name o w) (labelCaptureEligible pod) w := by
    simp only [labelCaptureEligible]
    split
    · exact Process.sound_pure h
    · exact safe_request rfl h fun _ _ h' _ => h'
  refine Process.sound_bind.2 (labelled.mono fun a w₁ h₁ => ?_)
  split
  · exact safe_pure _ _
  · refine Process.sound_bind.2 (safe_request rfl h₁ fun b w₂ h₂ _ => ?_)
    split
    · exact safe_setSnapshotContentFailed h₂ _ _
    · exact safe_pure _ _
    · exact safe_pure _ _
    · exact safe_captureReadyContainer hcall h₂ pod _ _ _

theorem safe_captureOwnedPod
    (hcall : same → ∀ t w c x, call t w c x = true → sameContent t w c x = true) (h : Holds name o w)
    (pod : Pod) (containerName artifactPath : String) :
    Safe cfg same call name (fun _ _ => True)
      (captureOwnedPod cfg name o pod containerName artifactPath) w := by
  simp only [captureOwnedPod]
  split
  · refine Process.sound_bind.2 (safe_request rfl h fun _ w₁ h₁ _ => ?_)
    exact safe_setSnapshotContentFailed h₁ _ _
  · split
    · exact safe_cancelCapture h pod _ _
    · split
      · exact safe_setSnapshotContentFailed h _ _
      · exact safe_captureLivePod hcall h pod _ _ _

theorem safe_captureFromPod
    (hcall : same → ∀ t w c x, call t w c x = true → sameContent t w c x = true) (h : Holds name o w)
    (pod : Pod) (containerName artifactPath : String) :
    Safe cfg same call name (fun _ _ => True)
      (captureFromPod cfg name o pod containerName artifactPath) w := by
  simp only [captureFromPod]
  split
  · exact safe_cancelCapture h pod _ _
  · refine Process.sound_bind.2 ((safe_recoverCommittedArtifact hcall h _ _).mono fun a w₁ h₁ => ?_)
    split
    · exact safe_pure _ _
    · refine Process.sound_bind.2 (safe_request rfl (h₁ rfl) fun chosen w₂ h₂ _ => ?_)
      split
      · exact safe_captureOwnedPod hcall h₂ pod _ _
      · exact safe_pure _ _

theorem safe_reconcileSourcePod
    (hcall : same → ∀ t w c x, call t w c x = true → sameContent t w c x = true) (h : Holds name o w)
    (containerName artifactPath : String) :
    Safe cfg same call name (fun _ _ => True)
      (reconcileSourcePod cfg name o containerName artifactPath) w := by
  refine Process.sound_bind.2 (safe_request rfl h fun a w₁ h₁ _ => ?_)
  split
  · exact safe_captureFromPod hcall h₁ _ _ _
  · refine Process.sound_bind.2 ((safe_recoverCommittedArtifact hcall h₁ _ _).mono fun b w₂ h₂ => ?_)
    split
    · exact safe_pure _ _
    · exact safe_setSnapshotContentFailed (h₂ rfl) _ _
  · exact safe_pure _ _

theorem safe_reconcileCapture
    (hcall : same → ∀ t w c x, call t w c x = true → sameContent t w c x = true) (w : World) :
    Safe cfg same call name (fun _ _ => True) (reconcileCapture cfg name) w := by
  refine Process.sound_bind.2 (safe_cachedContent (fun _ => safe_pure _ _) (fun o w₁ hheld hrecorded => ?_) w)
  simp only
  split
  · exact safe_pure _ _
  · next hactive =>
    push Not at hactive
    have h : Holds name o w₁ := ⟨hheld, hrecorded, by simpa using hactive.2.2⟩
    split
    · exact safe_setSnapshotContentFailed h _ _
    · split
      · exact safe_setSnapshotContentFailed h _ _
      · split
        · exact safe_setSnapshotContentFailed h _ _
        · exact safe_reconcileSourcePod hcall h _ _

end Pass

def discipline (cfg : Config) (same : Prop) (call : String → World → Call → Choice → Bool)
    (hcall : same → ∀ t w c x, call t w c x = true → sameContent t w c x = true) :
    Discipline (calls cfg call) where
  Inv := Inv same
  rely := Rely
  guarantee t w _ _ w' := Advance same t w w'
  rely_refl := Rely.refl
  rely_trans := Rely.trans
  disturb hinv hd := by
    have hd := (System.restrict_disturb.1 hd).2
    exact ⟨(advance_disturb hinv hd "").1.inv, fun t => (advance_disturb hinv hd t).2⟩
  keeps _ hg := hg.inv
  others _ hg hu := hg.rely hu
  body _ := Process.sound_bind.2 ((safe_reconcileCapture hcall _).mono fun _ _ _ => safe_pure _ _)

/-! ## The answer of `markCheckpointReady` -/

theorem ready_patchStatus {w : World} {t name : String} {x : Choice} {version : ℕ}
    (hstored : ∀ name o, w.content name = some o → Stored o)
    (hok : (w.patchStatus x t name version setReady).1 = .ok ()) :
    ∃ o, (w.patchStatus x t name version setReady).2.content name = some o ∧
      isContentTerminal o.body = true := by
  unfold World.patchStatus at hok ⊢
  cases hheld : w.held t with
  | none =>
    rw [hheld] at hok
    cases hok
  | some content =>
    simp only [hheld] at hok ⊢
    obtain ⟨y, hy, hwrite⟩ := deliver_ok hok
    obtain ⟨z, hz, rfl⟩ := CheckedFold.map_eq_ok.1 hy
    obtain ⟨o, ho, _, rfl⟩ := step_update hz
    rw [World.patchContent, hwrite]
    exact ⟨_, get_put_self _ _ (hstored name o ho), rfl⟩

/-- Without an error, the content of the name has an outcome at that moment. Nothing is asked of what
happens between the calls. -/
theorem settled_markCheckpointReadyWithSource (cfg : Config) (t name : String) (attempts : ℕ)
    (content : Content) (w : World) :
    (markCheckpointReadyWithSource name attempts content).Sound (system cfg) t
      (fun w => ∀ name o, w.content name = some o → Stored o) (fun _ _ => True) (fun _ _ _ _ => True)
      (fun a w => a = .done → ∃ o, w.content name = some o ∧ isContentTerminal o.body = true) w := by
  induction attempts generalizing content w with
  | zero => exact nofun
  | succ attempts ih =>
    refine Process.sound_bind.2 (Process.sound_request (I := interface) (c := .patchReady name content.version)
      fun w₁ hstored _ x a w₂ hstep => ⟨trivial, ?_⟩)
    have hpatch : w₁.patchStatus x t name content.version setReady = (a, w₂) := Option.some.inj hstep
    split
    · intro _
      have hok : (w₁.patchStatus x t name content.version setReady).1 = .ok () := by rw [hpatch]
      have hready := ready_patchStatus hstored hok
      rwa [hpatch] at hready
    · refine Process.sound_bind.2 (Process.sound_request (I := interface) (c := .getContent name)
        fun w₃ _ _ x₃ b w₄ hstep₃ => ⟨trivial, ?_⟩)
      have hget : World.getContent w₃ x₃ t name = (b, w₄) := Option.some.inj hstep₃
      unfold World.getContent at hget
      split at hget
      · next current hread =>
        cases hget
        have hcurrent : (w₃.hold t (some current)).content name = some current := lookup_ok hread
        simp only
        split
        · next hfailed => exact fun _ => ⟨current, hcurrent, by simp [isContentTerminal, hfailed]⟩
        · split
          · next hready => exact fun _ => ⟨current, hcurrent, by simp [isContentTerminal, hready]⟩
          · exact ih current _
      · cases hget
        exact nofun
    · exact nofun

/-! ## Runs -/

/-- A cluster that the agent finds: no content has two outcomes, and only a committed capture is Ready. -/
structure Clean (x : Cluster) (committed : List String) : Prop where
  fresh : x.contents.Fresh
  ruled : ∀ name o, x.contents.get name = some o → Ruled True committed o
  stored : ∀ name o, x.contents.get name = some o → Stored o

/-- No pass has begun. -/
def World.start (x : Cluster) (committed : List String) : World :=
  ⟨Server.start x, fun _ => none, [], committed⟩

theorem inv_start {x : Cluster} {committed : List String} (h : Clean x committed) (same : Prop) :
    Inv same (World.start x committed) where
  tidy := tidy_start h.fresh
  ruled := by
    rintro name o ⟨v, y, hy, ho⟩
    have hv := Server.state_eq_some_le hy
    simp only [World.start, Server.version, Server.start, List.length_nil, Nat.le_zero] at hv
    subst hv
    cases hy
    exact ⟨(h.ruled name o ho).exclusive, fun _ => (h.ruled name o ho).own trivial⟩
  stored := h.stored

/-- No step of a run takes an outcome back. -/
theorem sticky_step {cfg : Config} {p q : Pool interface World String} {e : (system cfg).Event}
    (h : (discipline cfg False (fun _ _ _ _ => true) nofun).Holds p)
    (hstep : (system cfg).step p e = some q) :
    p.world.api.current.contents.Keeps Sticky q.world.api.current.contents := by
  rcases System.step_world hstep with hsame | ⟨d, rfl, hd⟩ | ⟨t, c, k, x, a, hrun, hperform⟩
  · rw [hsame]
    exact keeps_refl Sticky.refl _
  · exact (advance_disturb h.inv hd "").1.sticky
  · exact ((discipline cfg False (fun _ _ _ _ => true) nofun).guarantee_call h hrun hperform).1.sticky

/-- In every run: no content is both Ready and Failed, neither outcome is ever taken back, and
`markCheckpointReady` returns without an error only when the content of the name has one. In every
run in which a conflict is not followed by reading another object under the name, a content is Ready
only if its own capture is committed. -/
theorem content_outcome (cfg : Config) {x : Cluster} {committed : List String} (h : Clean x committed) :
    (∀ events pool, (system cfg).run (Pool.idle (World.start x committed)) events = some pool →
      (∀ name o, pool.world.content name = some o →
        Stored o ∧ ¬ (isContentReady o.body = true ∧ isContentFailed o.body = true)) ∧
      ∀ e next, (system cfg).step pool e = some next →
        pool.world.api.current.contents.Keeps Sticky next.world.api.current.contents) ∧
    (∀ t name content w, (markCheckpointReady name content).Sound (system cfg) t
      (fun w => ∀ name o, w.content name = some o → Stored o) (fun _ _ => True) (fun _ _ _ _ => True)
      (fun a w => a = .done → ∃ o, w.content name = some o ∧ isContentTerminal o.body = true) w) ∧
    ∀ events pool, (lasting cfg).run (Pool.idle (World.start x committed)) events = some pool →
      ∀ name o, pool.world.content name = some o → isContentReady o.body = true →
        o.uid ∈ pool.world.committed := by
  refine ⟨fun events pool hrun => ?_, fun t name content w => ?_, fun events pool hrun name o ho hready => ?_⟩
  · let D := discipline cfg False (fun _ _ _ _ => true) nofun
    have hholds : D.Holds pool := D.holds_run (D.holds_idle (inv_start h False)) hrun
    have hinv : Inv False pool.world := hholds.inv
    refine ⟨fun name o ho => ⟨hinv.stored name o ho, ?_⟩, fun e next hstep => sticky_step hholds hstep⟩
    exact (hinv.ruled name o (recorded_current _ ho)).exclusive
  · exact settled_markCheckpointReadyWithSource cfg t name readyStatusConflictLimit content w
  · let D := discipline cfg True sameContent fun _ _ _ _ _ hsame => hsame
    have hinv : Inv True pool.world := (D.holds_run (D.holds_idle (inv_start h True)) hrun).inv
    exact (hinv.ruled name o (recorded_current _ ho)).own trivial hready

namespace Sample

/-- One pass over the content. -/
def captured : List (lasting AgentCapture.Sample.config).Event :=
  .start "b" :: List.replicate 11 (.call "b" Choice.well) ++ [.finish "b"]

/-- The content is deleted and created again after its dump, before the pass records that it is Ready. -/
def replaced : List (system AgentCapture.Sample.config).Event :=
  .start "b" :: List.replicate 10 (.call "b" Choice.well) ++ [.disturb (.cluster (.deleteContent "b" 1)),
    .disturb (.cluster (.createContent "b" "u3" [] (AgentCapture.Sample.body 11))),
    .call "b" Choice.well, .call "b" Choice.well, .call "b" Choice.well, .finish "b"]

theorem clean : Clean AgentCapture.Sample.cluster [] where
  fresh := fresh_single rfl
  ruled name o ho := by
    obtain ⟨_, rfl⟩ := get_single ho
    exact ruled_of_open rfl
  stored name o ho := by
    obtain ⟨_, rfl⟩ := get_single ho
    exact fun hmarked => nomatch hmarked.1

end Sample

/-- The content is captured and Ready. -/
theorem content_outcome_sample :
    ∃ pool o, (lasting AgentCapture.Sample.config).run
        (Pool.idle (World.start AgentCapture.Sample.cluster [])) Sample.captured = some pool ∧
      pool.world.content "b" = some o ∧ isContentReady o.body = true ∧ o.uid ∈ pool.world.committed := by
  have hrun : ((lasting AgentCapture.Sample.config).run
      (Pool.idle (World.start AgentCapture.Sample.cluster [])) Sample.captured).any (fun pool =>
        (pool.world.content "b").any fun o => isContentReady o.body) = true := by decide +kernel
  simp only [Option.any_eq_true] at hrun
  obtain ⟨pool, hpool, o, ho, hready⟩ := hrun
  exact ⟨pool, o, hpool, ho, hready,
    (content_outcome AgentCapture.Sample.config Sample.clean).2.2 _ pool hpool "b" o ho hready⟩

/-- A content is Ready whose capture has not even begun. -/
theorem successor_ready :
    ∃ pool o, (system AgentCapture.Sample.config).run
        (Pool.idle (World.start AgentCapture.Sample.cluster [])) Sample.replaced = some pool ∧
      pool.world.content "b" = some o ∧ isContentReady o.body = true ∧
      o.uid ∉ pool.world.committed ∧ o.uid ∉ pool.world.begun := by
  have hbad : ((system AgentCapture.Sample.config).run
      (Pool.idle (World.start AgentCapture.Sample.cluster [])) Sample.replaced).any (fun pool =>
        (pool.world.content "b").any fun o => isContentReady o.body && decide (o.uid ∉ pool.world.committed) &&
          decide (o.uid ∉ pool.world.begun)) = true := by decide +kernel
  simp only [Option.any_eq_true, Bool.and_eq_true, decide_eq_true_eq] at hbad
  obtain ⟨pool, hpool, o, ho, ⟨hready, hcommitted⟩, hbegun⟩ := hbad
  exact ⟨pool, o, hpool, ho, hready, hcommitted, hbegun⟩

end ContentOutcome
