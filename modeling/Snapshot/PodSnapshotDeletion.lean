import Snapshot.PodSnapshotSystem

/-! Deletion of a PodSnapshot. The content is created by one write and recorded as bound by
another, and the cascade follows the record. A deletion that lands between the two makes the second
write conflict, and the content stays behind; it does not in runs that avoid this. -/
namespace PodSnapshot

open ApiObjects Interleaving OrderedMap Std VersionedServer

/-- If the finalizer is taken off the PodSnapshot, every content that was created for it is gone or
marked for deletion. -/
def Released (cfg : Config) (w w' : World) : Prop :=
  ∀ s, w.snapshot cfg = some s → podSnapshotFinalizer ∈ s.finalizers →
    (∃ s', w'.snapshot cfg = some s' ∧ s'.uid = s.uid ∧ podSnapshotFinalizer ∈ s'.finalizers) ∨
    ∀ p ∈ w.created, p.1 = s.uid → ¬ w.api.current.contents.Active p.2

/-- A content is created only for a PodSnapshot that is not being deleted. -/
def createsInTime (cfg : Config) (w : World) : Call → Bool
  | .createContent _ _ body =>
    (w.snapshot cfg).any fun s => s.uid = body.snapshotRef.uid && !s.deleting
  | _ => true

/-- A PodSnapshot is deleted only while no content of it is waiting to be recorded as bound. -/
def deletesInTime (cfg : Config) (w : World) : Disturbance → Bool
  | .deleteSnapshot _ =>
    (w.snapshot cfg).all fun s =>
      let name := podSnapshotContentName s.uid
      (w.api.current.contents.get name).all fun c =>
        c.deleting || s.body.status.boundContentName = some name
  | _ => true

/-- The runs in which no deletion lands between the creation of a content and its binding. -/
def timely (cfg : Config) : System interface World Unit :=
  (system cfg).restrict (fun _ w c _ => createsInTime cfg w c) (deletesInTime cfg)

structure DeletionInv (cfg : Config) (w : World) : Prop where
  tidied : Tidied w.api
  bound : w.api.Always fun x => ∀ s, x.snapshots.get cfg.name = some s →
    s.body.status.boundContentName = none ∨
      s.body.status.boundContentName = some (podSnapshotContentName s.uid)
  issued : ∀ p ∈ w.created, p.2 ∈ w.api.current.contents.issued
  named : ∀ p ∈ w.created, ∀ n c, w.api.current.contents.get n = some c → c.uid = p.2 →
    n = podSnapshotContentName p.1
  recorded : ∀ p ∈ w.created, w.api.current.contents.Active p.2 → ∀ s, w.snapshot cfg = some s →
    s.uid = p.1 → s.deleting = true →
    s.body.status.boundContentName = some (podSnapshotContentName p.1)

/-! ## Writes -/

section Writes

variable {cfg : Config} {w : World}

theorem DeletionInv.contents (h : DeletionInv cfg w) {y : Collection ContentBody}
    (hstep : Collection.Step w.nextVersion w.api.current.contents y) :
    DeletionInv cfg { w with api := w.api.write { w.api.current with contents := y } } where
  tidied := h.tidied.write ⟨.same, hstep, .same⟩
  bound := h.bound.write h.bound.current
  issued p hp := hstep.later.issued p.2 (h.issued p hp)
  named p hp n c hc huid := by
    rcases hstep.origin hc with ⟨o, ho, hou⟩ | ⟨_, hnew⟩
    · exact h.named p hp n o ho (hou.trans huid)
    · rw [huid] at hnew
      exact absurd (h.issued p hp) hnew
  recorded p hp hactive s hs := by
    apply h.recorded p hp _ s hs
    by_contra hinactive
    exact hstep.later.inactive p.2 (h.issued p hp) hinactive hactive

/-- A write to the PodSnapshot. -/
theorem DeletionInv.snapshots (h : DeletionInv cfg w) {y : Collection SnapshotBody}
    (hstep : Collection.Step w.nextVersion w.api.current.snapshots y)
    (hbound : ∀ s, y.get cfg.name = some s → s.body.status.boundContentName = none ∨
      s.body.status.boundContentName = some (podSnapshotContentName s.uid))
    (hrecorded : ∀ p ∈ w.created, w.api.current.contents.Active p.2 → ∀ s, y.get cfg.name = some s →
      s.uid = p.1 → s.deleting = true →
      s.body.status.boundContentName = some (podSnapshotContentName p.1)) :
    DeletionInv cfg { w with api := w.api.write { w.api.current with snapshots := y } } where
  tidied := h.tidied.write ⟨hstep, .same, .same⟩
  bound := h.bound.write hbound
  issued := h.issued
  named := h.named
  recorded := hrecorded

theorem DeletionInv.pods (h : DeletionInv cfg w) {y : Collection PodBody}
    (hstep : Collection.Step w.nextVersion w.api.current.pods y) :
    DeletionInv cfg { w with api := w.api.write { w.api.current with pods := y } } where
  tidied := h.tidied.write ⟨.same, .same, hstep⟩
  bound := h.bound.write h.bound.current
  issued := h.issued
  named := h.named
  recorded := h.recorded

/-- A write that leaves the status of the PodSnapshot, and its finalizer. -/
theorem DeletionInv.metadata (h : DeletionInv cfg w) {s s' : Snap} (hs : w.snapshot cfg = some s)
    (hversion : s'.version = w.nextVersion) (huid : s'.uid = s.uid) (hbody : s'.body = s.body)
    (hdeleting : s'.deleting = s.deleting) :
    DeletionInv cfg { w with
      api := w.api.write { w.api.current with snapshots := w.api.current.snapshots.put cfg.name s' } } := by
  apply h.snapshots (.put hs huid hversion fun hd => hdeleting.trans hd)
  · intro t ht
    rcases Collection.get_put ht with ⟨_, rfl⟩ | ⟨hne, _⟩
    · rw [hbody, huid]
      exact h.bound.current s hs
    · exact absurd rfl hne
  · intro p hp hactive t ht hu hd
    rcases Collection.get_put ht with ⟨_, rfl⟩ | ⟨hne, _⟩
    · rw [hbody]
      exact h.recorded p hp hactive s hs (huid.symm.trans hu) (hdeleting.symm.trans hd)
    · exact absurd rfl hne

theorem DeletionInv.advance (h : DeletionInv cfg w) {api : Server Cluster Kind} {kind : Kind}
    {version : ℕ} (hadvance : w.api.advance kind version = some api) :
    DeletionInv cfg { w with api := api } := by
  obtain ⟨hpast, hcurrent⟩ := Server.advance_eq_some hadvance
  refine ⟨⟨h.tidied.snapshots.of_states hpast hcurrent, h.tidied.contents.of_states hpast hcurrent,
    h.tidied.pods.of_states hpast hcurrent⟩, h.bound.of_states hpast hcurrent, ?_, ?_, ?_⟩
  · rw [hcurrent]
    exact h.issued
  · rw [hcurrent]
    exact h.named
  · rw [World.snapshot, hcurrent]
    exact h.recorded

theorem released_of_snapshots {w w' : World}
    (h : w'.api.current.snapshots = w.api.current.snapshots) : Released cfg w w' :=
  fun s hs hfinalizer => .inl ⟨s, by rw [World.snapshot, h]; exact hs, rfl, hfinalizer⟩

theorem released_put {s s' : Snap} (hs : w.snapshot cfg = some s) (huid : s'.uid = s.uid)
    (h : podSnapshotFinalizer ∈ s.finalizers → podSnapshotFinalizer ∈ s'.finalizers ∨
      ∀ p ∈ w.created, p.1 = s.uid → ¬ w.api.current.contents.Active p.2) :
    Released cfg w { w with
      api := w.api.write { w.api.current with snapshots := w.api.current.snapshots.put cfg.name s' } } := by
  intro t ht hfinalizer
  rw [hs] at ht
  cases ht
  rcases h hfinalizer with hkept | hreleased
  · refine .inl ⟨s', Collection.get_put_self _ _ fun hgone => ?_, huid, hkept⟩
    rw [hgone.2] at hkept
    cases hkept
  · exact .inr hreleased

end Writes

/-! ## Other clients -/

theorem disturb_deletionInv {cfg : Config} {w w' : World} {d : Disturbance}
    (hinv : DeletionInv cfg w) (htime : deletesInTime cfg w d = true)
    (hd : disturb cfg w d = some w') : DeletionInv cfg w' ∧ Released cfg w w' := by
  cases d with
  | createSnapshot uid podName podUID containers finalizers =>
    obtain ⟨x, hx, rfl⟩ := accept_cases hd
    obtain ⟨y, hy, rfl⟩ := writeSnapshots_ok hx
    have hstep := Collection.Step.of_create hy
    obtain ⟨hfree, _, rfl⟩ := Collection.step_create hy
    refine ⟨hinv.snapshots hstep ?_ ?_, fun s hs => ?_⟩
    · intro s hs
      rcases Collection.get_add hs with ⟨_, rfl⟩ | ⟨hne, _⟩
      · exact .inl rfl
      · exact absurd rfl hne
    · intro p _ _ s hs _ hdeleting
      rcases Collection.get_add hs with ⟨_, rfl⟩ | ⟨hne, _⟩
      · cases hdeleting
      · exact absurd rfl hne
    · rw [World.snapshot, hfree] at hs
      cases hs
  | deleteSnapshot time =>
    obtain ⟨x, hx, rfl⟩ := accept_cases hd
    obtain ⟨y, hy, rfl⟩ := writeSnapshots_ok hx
    have hstep := Collection.Step.of_delete hy
    obtain ⟨s, hs, _, ⟨_, rfl⟩ | rfl⟩ := Collection.step_delete hy
    · exact ⟨hinv.snapshots hstep hinv.bound.current hinv.recorded, released_of_snapshots rfl⟩
    · refine ⟨hinv.snapshots hstep ?_ ?_, released_put hs rfl fun hfinalizer => .inl hfinalizer⟩
      · intro t ht
        rcases Collection.get_put ht with ⟨_, rfl⟩ | ⟨hne, _⟩
        · exact hinv.bound.current s hs
        · exact absurd rfl hne
      · intro p hp ⟨n, c, hc, hcu, hcd⟩ t ht hu _
        rcases Collection.get_put ht with ⟨_, rfl⟩ | ⟨hne, _⟩
        · -- the content is live, so the deletion was allowed only because it is recorded
          have hn := hinv.named p hp n c hc hcu
          have hu : s.uid = p.1 := hu
          rw [hn, ← hu] at hc
          have hsnap : w.snapshot cfg = some s := hs
          simp only [deletesInTime, hsnap, Option.all_some, hc, hcd, Bool.false_or,
            decide_eq_true_eq] at htime
          rw [← hu]
          exact htime
        · exact absurd rfl hne
  | updateSnapshot finalizers =>
    obtain ⟨x, hx, rfl⟩ := accept_cases hd
    obtain ⟨y, hy, rfl⟩ := writeSnapshots_ok hx
    obtain ⟨s, hs, _, rfl⟩ := Collection.step_update hy
    refine ⟨hinv.metadata hs rfl rfl rfl rfl, released_put hs rfl fun hfinalizer => .inl ?_⟩
    simp [hfinalizer]
  | createPod name uid finalizers body =>
    obtain ⟨x, hx, rfl⟩ := accept_cases hd
    obtain ⟨y, hy, rfl⟩ := writePods_ok hx
    exact ⟨hinv.pods (.of_create hy), released_of_snapshots rfl⟩
  | updatePod name finalizers body =>
    simp only [disturb, World.updatePod] at hd
    split at hd
    · cases hd
    · split at hd
      · cases hd
      · obtain ⟨x, hx, rfl⟩ := accept_cases hd
        obtain ⟨y, hy, rfl⟩ := writePods_ok hx
        exact ⟨hinv.pods (.of_update hy), released_of_snapshots rfl⟩
  | deletePod name time =>
    obtain ⟨x, hx, rfl⟩ := accept_cases hd
    obtain ⟨y, hy, rfl⟩ := writePods_ok hx
    exact ⟨hinv.pods (.of_delete hy), released_of_snapshots rfl⟩
  | contentReady name reason message =>
    simp only [disturb, World.contentReady] at hd
    split at hd
    · cases hd
    · split at hd
      · cases hd
      · obtain ⟨x, hx, rfl⟩ := accept_cases hd
        obtain ⟨y, hy, rfl⟩ := writeContents_ok hx
        exact ⟨hinv.contents (.of_update hy), released_of_snapshots rfl⟩
  | contentFailed name reason message =>
    simp only [disturb, World.contentFailed] at hd
    split at hd
    · cases hd
    · split at hd
      · cases hd
      · obtain ⟨x, hx, rfl⟩ := accept_cases hd
        obtain ⟨y, hy, rfl⟩ := writeContents_ok hx
        exact ⟨hinv.contents (.of_update hy), released_of_snapshots rfl⟩
  | updateContent name finalizers =>
    obtain ⟨x, hx, rfl⟩ := accept_cases hd
    obtain ⟨y, hy, rfl⟩ := writeContents_ok hx
    exact ⟨hinv.contents (.of_update hy), released_of_snapshots rfl⟩
  | advance kind version =>
    simp only [disturb, Option.map_eq_some_iff] at hd
    obtain ⟨api, hadvance, rfl⟩ := hd
    exact ⟨hinv.advance hadvance, released_of_snapshots
      (congrArg Cluster.snapshots (Server.advance_eq_some hadvance).2)⟩

/-! ## What a pass guarantees -/

structure Rely (w w' : World) : Prop where
  extend : w.api.Extends w'.api
  created : w'.created = w.created

theorem Rely.refl (w : World) : Rely w w := ⟨.refl _, rfl⟩

theorem Rely.trans {w₁ w₂ w₃ : World} (h : Rely w₁ w₂) (h' : Rely w₂ w₃) : Rely w₁ w₃ :=
  ⟨h.extend.trans h'.extend, h'.created.trans h.created⟩

structure DeletionGuarantee (cfg : Config) (w w' : World) : Prop where
  inv : DeletionInv cfg w → DeletionInv cfg w'
  released : Released cfg w w'

abbrev Pass.DeletionSound {α : Type} (cfg : Config) (Q : α → World → Prop) (p : Pass α) (w : World) :
    Prop :=
  Process.Sound (timely cfg) () (DeletionInv cfg) Rely (fun w _ _ w' => DeletionGuarantee cfg w w') Q p w

section Rules

variable {cfg : Config} {w : World}

/-- A call that writes nothing. -/
theorem deletionGuarantee_read {w w' : World} (h : w'.api = w.api) (hcreated : w'.created = w.created) :
    DeletionGuarantee cfg w w' where
  inv hinv :=
    { tidied := h ▸ hinv.tidied
      bound := h ▸ hinv.bound
      issued := by rw [h, hcreated]; exact hinv.issued
      named := by rw [h, hcreated]; exact hinv.named
      recorded := by rw [World.snapshot, h, hcreated]; exact hinv.recorded }
  released := released_of_snapshots (by rw [h])

theorem perform_timely {w w' : World} {c : Call} {x : Choice} {a : c.Answer}
    (h : (timely cfg).perform () w c x = some (a, w')) :
    createsInTime cfg w c = true ∧ perform cfg w c x = (a, w') := by
  obtain ⟨htime, hstep⟩ := System.restrict_perform.1 h
  exact ⟨htime, Option.some.inj hstep⟩

theorem sound_read {c : Call} (hread : c.reads = true) {Q : c.Answer → World → Prop}
    (h : ∀ x w₁, DeletionInv cfg w₁ → Rely w w₁ → Q (perform cfg w₁ c x).1 (perform cfg w₁ c x).2) :
    Pass.DeletionSound cfg Q (Process.request (I := interface) c) w := by
  intro w₁ hinv hrely x r w₂ hstep
  obtain ⟨_, hstep⟩ := perform_timely hstep
  obtain ⟨hapi, hcreated⟩ := perform_reads _ hread w₁ x
  have hQ := h x w₁ hinv hrely
  rw [hstep] at hapi hcreated hQ
  exact ⟨deletionGuarantee_read hapi hcreated, hQ⟩

theorem eq_snap {snap s : Snap} (hinv : Tidied w.api)
    (hsnap : Recorded Cluster.snapshots w.api cfg.name snap) (hs : w.snapshot cfg = some s)
    (hversion : s.version = snap.version) : s = snap :=
  hinv.snapshots.eq_of_version (recorded_current w.api hs) hsnap hversion

/-- A status write from a pass that read the PodSnapshot before any deletion. -/
theorem sound_updateStatus {snap : Snap} {status : Status} {Q : Except ApiError Unit → World → Prop}
    (hsnap : Recorded Cluster.snapshots w.api cfg.name snap) (hlive : snap.deleting = false)
    (hbound : status.boundContentName = snap.body.status.boundContentName ∨
      status.boundContentName = some (podSnapshotContentName snap.uid))
    (h : ∀ r w₁, Q r w₁) : (Pass.updateStatus snap status).DeletionSound cfg Q w := by
  intro w₁ hinv hrely x r w₂ hstep
  obtain ⟨_, hstep⟩ := perform_timely hstep
  refine ⟨?_, h r w₂⟩
  rcases updateStatus_cases hstep with rfl | ⟨s, hs, hversion, rfl⟩
  · exact deletionGuarantee_read rfl rfl
  · obtain rfl := eq_snap hinv.tidied (hsnap.mono hrely.extend) hs hversion
    refine ⟨fun _ => hinv.snapshots (.put hs rfl rfl fun hd => hd) ?_ ?_,
      released_put hs rfl fun hfinalizer => .inl hfinalizer⟩
    · intro t ht
      rcases Collection.get_put ht with ⟨_, rfl⟩ | ⟨hne, _⟩
      · rcases hbound with hbound | hbound
        · exact hbound ▸ hinv.bound.current s hs
        · exact .inr hbound
      · exact absurd rfl hne
    · intro p _ _ t ht _ hdeleting
      rcases Collection.get_put ht with ⟨_, rfl⟩ | ⟨hne, _⟩
      · exact absurd (hlive.symm.trans hdeleting) nofun
      · exact absurd rfl hne

/-- Taking the finalizer off needs every content of the PodSnapshot to be gone or marked. -/
theorem sound_updateFinalizers {snap : Snap} {finalizers : List String}
    {Q : Except ApiError Unit → World → Prop}
    (hsnap : Recorded Cluster.snapshots w.api cfg.name snap)
    (hrelease : podSnapshotFinalizer ∈ finalizers ∨ ∀ w₁, DeletionInv cfg w₁ → Rely w w₁ →
      w₁.snapshot cfg = some snap → ∀ p ∈ w₁.created, p.1 = snap.uid →
        ¬ w₁.api.current.contents.Active p.2)
    (h : ∀ r w₁, Q r w₁) : (Pass.updateFinalizers snap finalizers).DeletionSound cfg Q w := by
  intro w₁ hinv hrely x r w₂ hstep
  obtain ⟨_, hstep⟩ := perform_timely hstep
  refine ⟨?_, h r w₂⟩
  rcases updateFinalizers_cases hstep with rfl | ⟨s, hs, hversion, rfl⟩
  · exact deletionGuarantee_read rfl rfl
  · obtain rfl := eq_snap hinv.tidied (hsnap.mono hrely.extend) hs hversion
    refine ⟨fun _ => hinv.metadata hs rfl rfl rfl rfl, released_put hs rfl fun _ => ?_⟩
    rcases hrelease with hkept | hrelease
    · exact .inl hkept
    · exact .inr (hrelease w₁ hinv hrely hs)

/-- A content is created under the name of its PodSnapshot. -/
theorem sound_createContent {name : String} {finalizers : List String} {body : ContentBody}
    {Q : Except ApiError Unit → World → Prop} (hname : name = podSnapshotContentName body.snapshotRef.uid)
    (h : ∀ r w₁, w.api.Extends w₁.api → Q r w₁) :
    (Pass.createContent name finalizers body).DeletionSound cfg Q w := by
  intro w₁ hinv hrely x r w₂ hstep
  obtain ⟨htime, hstep⟩ := perform_timely hstep
  rcases createContent_cases hstep with ⟨_, rfl⟩ | ⟨hfree, hnew, rfl⟩
  · exact ⟨deletionGuarantee_read rfl rfl, h _ _ hrely.extend⟩
  refine ⟨⟨fun _ => ?_, released_of_snapshots rfl⟩,
    h _ _ (hrely.extend.trans (w₁.api.extends_write _))⟩
  have hmove : Collection.Step w₁.nextVersion w₁.api.current.contents
      (w₁.api.current.contents.add name ⟨x.uid, w₁.nextVersion, none, finalizers, body⟩) :=
    .add hfree hnew rfl
  have hold := hinv.contents hmove
  refine ⟨hold.tidied, hold.bound, ?_, ?_, ?_⟩
  · intro p hp
    rcases List.mem_cons.1 hp with rfl | hp
    · exact List.mem_cons_self
    · exact hold.issued p hp
  · intro p hp n c hc hu
    rcases List.mem_cons.1 hp with rfl | hp
    · rcases Collection.get_add hc with ⟨rfl, _⟩ | ⟨_, hn⟩
      · exact hname
      · have hissued := hinv.tidied.contents.assigned.current n c hn
        rw [hu] at hissued
        exact absurd hissued hnew
    · exact hold.named p hp n c hc hu
  · intro p hp hactive s hs hu hdeleting
    rcases List.mem_cons.1 hp with rfl | hp
    · -- the PodSnapshot was not being deleted when the content was created
      have hs : w₁.snapshot cfg = some s := hs
      have hu : s.uid = body.snapshotRef.uid := hu
      simp [createsInTime, hs, hu, hdeleting] at htime
    · exact hold.recorded p hp hactive s hs hu hdeleting

/-- After a deletion that was not refused, no content created for the name is active. -/
theorem sound_deleteContent {name : String} {Q : Except ApiError Unit → World → Prop}
    (h : ∀ r w₁, Rely w w₁ → (r = .ok () ∨ r = .error .notFound →
      ∀ p ∈ w₁.created, podSnapshotContentName p.1 = name →
        p.2 ∈ w₁.api.current.contents.issued ∧ ¬ w₁.api.current.contents.Active p.2) → Q r w₁) :
    (Pass.deleteContent name).DeletionSound cfg Q w := by
  intro w₁ hinv hrely x r w₂ hstep
  obtain ⟨_, hstep⟩ := perform_timely hstep
  rcases deleteContent_cases hstep with ⟨rfl, hanswer⟩ | ⟨c, hc, ⟨hdeleting, rfl⟩ | rfl⟩
  · refine ⟨deletionGuarantee_read rfl rfl, h _ _ hrely ?_⟩
    intro hr p hp hname
    refine ⟨hinv.issued p hp, ?_⟩
    rintro ⟨n, c, hc, hcu, _⟩
    have hn := hinv.named p hp n c hc hcu
    rcases hanswer with ⟨_, hnone⟩ | ⟨e, rfl, hne⟩
    · rw [hn, hname, hnone] at hc
      cases hc
    · rcases hr with hr | hr
      · cases hr
      · exact hne (Except.error.inj hr)
  · refine ⟨⟨fun _ => hinv.contents .same, released_of_snapshots rfl⟩,
      h _ _ ⟨hrely.extend.trans (w₁.api.extends_write _), hrely.created⟩ ?_⟩
    intro _ p hp hname
    refine ⟨hinv.issued p hp, ?_⟩
    rintro ⟨n, d, hd, hdu, hactive⟩
    have hn := hinv.named p hp n d hd hdu
    rw [Server.current_write, hn, hname, hc] at hd
    cases hd
    exact absurd (hactive.symm.trans hdeleting) nofun
  · have hold := hinv.contents (y := w₁.api.current.contents.put name
      { c with version := w₁.nextVersion, deletionTimestamp := some x.time })
      (.put hc rfl rfl fun _ => rfl)
    refine ⟨⟨fun _ => hold, released_of_snapshots rfl⟩,
      h _ _ ⟨hrely.extend.trans (w₁.api.extends_write _), hrely.created⟩ ?_⟩
    intro _ p hp hname
    refine ⟨hold.issued p hp, ?_⟩
    rintro ⟨n, d, hd, hdu, hactive⟩
    have hn := hold.named p hp n d hd hdu
    rw [hn, hname] at hd
    rcases Collection.get_put hd with ⟨_, rfl⟩ | ⟨hne, _⟩
    · cases hactive
    · exact absurd rfl hne

end Rules

/-! ## Passes -/

theorem boundContentName_mirroredStatus (s : Status) (content : Content) :
    (mirroredStatus s content).boundContentName = s.boundContentName := by
  simp only [mirroredStatus]
  split <;> rfl

section Passes

variable {cfg : Config} {snap : Snap} {w : World}

theorem sound_writeChanged {status : Status} (hsnap : Recorded Cluster.snapshots w.api cfg.name snap)
    (hlive : snap.deleting = false)
    (hbound : status.boundContentName = snap.body.status.boundContentName) :
    (writeChanged snap status).DeletionSound cfg (fun _ _ => True) w := by
  simp only [writeChanged]
  split
  · trivial
  · apply Process.sound_bind.2
    apply sound_updateStatus hsnap hlive (.inl hbound)
    intro r _
    cases r <;> trivial

theorem sound_failPodSnapshot {reason message : String}
    (hsnap : Recorded Cluster.snapshots w.api cfg.name snap) (hlive : snap.deleting = false) :
    (failPodSnapshot snap reason message).DeletionSound cfg (fun _ _ => True) w := by
  apply Process.sound_bind.2
  have hbound : (markFailed snap.body.status reason message).boundContentName =
      snap.body.status.boundContentName := rfl
  apply sound_updateStatus hsnap hlive (.inl hbound)
  intro r _
  cases r <;> trivial

theorem sound_propagateStatus {content : Content}
    (hsnap : Recorded Cluster.snapshots w.api cfg.name snap) (hlive : snap.deleting = false) :
    (propagateStatus snap content).DeletionSound cfg (fun _ _ => True) w :=
  sound_writeChanged hsnap hlive (boundContentName_mirroredStatus _ _)

theorem sound_ensurePodSnapshotContent {pod : Pod}
    (hsnap : Recorded Cluster.snapshots w.api cfg.name snap) :
    (ensurePodSnapshotContent cfg snap (podSnapshotContentName snap.uid) pod).DeletionSound cfg
      (fun _ w₁ => Recorded Cluster.snapshots w₁.api cfg.name snap) w := by
  apply Process.sound_bind.2
  apply sound_createContent rfl
  intro r w₁ hextend
  have hsnap₁ := hsnap.mono hextend
  cases r with
  | ok _ => exact hsnap₁
  | error e =>
    cases e with
    | alreadyExists =>
      apply Process.sound_bind.2
      apply sound_read rfl
      intro x w₂ _ h₂
      have hsnap₂ := hsnap₁.mono h₂.extend
      simp only [perform]
      split
      · exact hsnap₂
      · split <;> exact hsnap₂
    | _ => exact hsnap₁

theorem sound_captureFromSourcePod (hsnap : Recorded Cluster.snapshots w.api cfg.name snap)
    (hlive : snap.deleting = false) :
    (captureFromSourcePod cfg snap).DeletionSound cfg (fun _ _ => True) w := by
  apply Process.sound_bind.2
  apply sound_read rfl
  intro x w₁ _ h₁
  have hsnap₁ := hsnap.mono h₁.extend
  simp only [perform]
  split
  · exact sound_failPodSnapshot hsnap₁ hlive
  · trivial
  · rename_i pod _
    split
    · exact sound_writeChanged hsnap₁ hlive rfl
    · exact sound_failPodSnapshot hsnap₁ hlive
    · split
      · split
        · trivial
        · split
          · exact sound_failPodSnapshot hsnap₁ hlive
          · trivial
      · apply Process.sound_bind.2
        apply (sound_ensurePodSnapshotContent hsnap₁).mono
        intro r w₂ hsnap₂
        split
        · exact sound_failPodSnapshot hsnap₂ hlive
        · trivial
        · apply Process.sound_bind.2
          apply sound_updateStatus hsnap₂ hlive (.inr rfl)
          intro r _
          cases r <;> trivial

/-- The content decides if it is finished; `undecided` is what the pod read says otherwise. -/
theorem sound_finishedOrElse {content : Content} {conflict : String → String} {contentName : String}
    {undecided : Pass Outcome} (hsnap : Recorded Cluster.snapshots w.api cfg.name snap)
    (hlive : snap.deleting = false) (h : undecided.DeletionSound cfg (fun _ _ => True) w) :
    Pass.DeletionSound cfg (fun _ _ => True)
      (match verifyContentBacklink cfg snap contentName content with
      | .error message => failPodSnapshot snap "ContentConflict" (conflict message)
      | .ok () =>
        if isTrue content.body.ready || isTrue content.body.failed then propagateStatus snap content
        else undecided) w := by
  split
  · exact sound_failPodSnapshot hsnap hlive
  · split
    · exact sound_propagateStatus hsnap hlive
    · exact h

theorem sound_confirmPendingCaptureTerminal {contentName : String}
    (hsnap : Recorded Cluster.snapshots w.api cfg.name snap) (hlive : snap.deleting = false) :
    (confirmPendingCaptureTerminal cfg snap contentName).DeletionSound cfg (fun _ _ => True) w := by
  apply Process.sound_bind.2
  apply sound_read rfl
  intro x w₁ _ h₁
  have hsnap₁ := hsnap.mono h₁.extend
  generalize (perform cfg w₁ (Call.readPod snap.body.podName) x).1 = podRead
  split
  · apply Process.sound_bind.2
    apply sound_read rfl
    intro y w₂ _ h₂
    have hsnap₂ := hsnap₁.mono h₂.extend
    split
    · trivial
    · apply sound_finishedOrElse hsnap₂ hlive
      exact sound_failPodSnapshot hsnap₂ hlive
  · apply Process.sound_bind.2
    apply sound_read rfl
    intro y w₂ _ h₂
    have hsnap₂ := hsnap₁.mono h₂.extend
    split
    · trivial
    · apply sound_finishedOrElse hsnap₂ hlive
      dsimp only
      split
      · exact sound_propagateStatus hsnap₂ hlive
      · split
        · apply Process.sound_bind.2
          apply sound_read rfl
          intro z w₃ _ h₃
          have hsnap₃ := hsnap₂.mono h₃.extend
          split
          · trivial
          · exact sound_failPodSnapshot hsnap₃ hlive
        · exact sound_failPodSnapshot hsnap₂ hlive
  · trivial

theorem sound_mirrorBoundContent {boundName : String}
    (hsnap : Recorded Cluster.snapshots w.api cfg.name snap) (hlive : snap.deleting = false) :
    (mirrorBoundContent cfg snap boundName).DeletionSound cfg (fun _ _ => True) w := by
  apply Process.sound_bind.2
  apply sound_read rfl
  intro x w₁ _ h₁
  have hsnap₁ := hsnap.mono h₁.extend
  split
  · trivial
  · apply sound_finishedOrElse hsnap₁ hlive
    apply Process.sound_bind.2
    apply sound_read rfl
    intro y w₂ _ h₂
    have hsnap₂ := hsnap₁.mono h₂.extend
    split
    · split
      · exact sound_propagateStatus hsnap₂ hlive
      · exact sound_confirmPendingCaptureTerminal hsnap₂ hlive
    · exact sound_confirmPendingCaptureTerminal hsnap₂ hlive
    · trivial

theorem sound_removeFinalizer (hsnap : Recorded Cluster.snapshots w.api cfg.name snap)
    (hrelease : ∀ w₁, DeletionInv cfg w₁ → Rely w w₁ → w₁.snapshot cfg = some snap →
      ∀ p ∈ w₁.created, p.1 = snap.uid → ¬ w₁.api.current.contents.Active p.2) :
    (removeFinalizer snap).DeletionSound cfg (fun _ _ => True) w := by
  apply Process.sound_bind.2
  apply sound_updateFinalizers hsnap (.inr hrelease)
  intro r _
  cases r <;> trivial

/-- A content that is not active never becomes active again. -/
theorem inactive_of_rely {w w₁ : World} {u : String} (hinv : DeletionInv cfg w₁)
    (hextend : w.api.Extends w₁.api) (hissued : u ∈ w.api.current.contents.issued)
    (h : ¬ w.api.current.contents.Active u) : ¬ w₁.api.current.contents.Active u := by
  have hlater := hinv.tidied.contents.evolves.current (hextend.state w.api.state_version)
  exact hlater.inactive u hissued h

theorem sound_handleDelete (hsnap : Recorded Cluster.snapshots w.api cfg.name snap)
    (hbinding : snap.body.status.boundContentName = none ∨
      snap.body.status.boundContentName = some (podSnapshotContentName snap.uid))
    (hdeleting : snap.deleting = true) :
    (handleDelete snap).DeletionSound cfg (fun _ _ => True) w := by
  simp only [handleDelete]
  split
  · trivial
  split
  · -- no binding is recorded, so no content is waiting to be cascaded
    rename_i hbound
    apply sound_removeFinalizer hsnap
    intro w₁ hinv₁ _ hs p hp hu hactive
    have hname := hinv₁.recorded p hp hactive snap hs hu.symm hdeleting
    rw [hname] at hbound
    exact absurd hbound (podSnapshotContentName_ne_empty _)
  · rename_i hne
    rw [boundContentName_getD hbinding hne]
    apply Process.sound_bind.2
    apply sound_deleteContent
    intro r w₁ h₁ hdeleted
    have hsnap₁ := hsnap.mono h₁.extend
    split
    case h_3 => trivial
    all_goals
      apply Process.sound_bind.2
      apply sound_read rfl
      intro x w₂ _ h₂
      split
      · trivial
      · apply sound_removeFinalizer (hsnap₁.mono h₂.extend)
        intro w₃ hinv₃ h₃ _ p hp hu
        rw [h₃.created] at hp
        have h₁₃ : w₁.api.Extends w₃.api := h₂.extend.trans h₃.extend
        obtain ⟨hissued, hinactive⟩ := hdeleted (by simp) p (h₂.created ▸ hp) (by rw [hu])
        exact inactive_of_rely hinv₃ h₁₃ hissued hinactive
      · trivial

theorem sound_reconcile : (reconcile cfg).DeletionSound cfg (fun _ _ => True) w := by
  apply Process.sound_bind.2
  apply sound_read rfl
  intro x w₁ hinv _
  split
  · trivial
  · trivial
  · rename_i snap hread
    have hsnap : Recorded Cluster.snapshots (perform cfg w₁ .getSnapshot x).2.api cfg.name snap :=
      recorded_view _ _ (lookup_ok hread)
    split
    · rename_i hdeleting
      exact sound_handleDelete hsnap (hinv.bound.view _ snap (lookup_ok hread)) hdeleting
    · rename_i hlive
      rw [Bool.not_eq_true] at hlive
      split
      · apply Process.sound_bind.2
        apply sound_updateFinalizers hsnap (.inl (by simp))
        intro r _
        cases r <;> trivial
      · split
        · trivial
        · split
          · exact sound_captureFromSourcePod hsnap hlive
          · exact sound_mirrorBoundContent hsnap hlive

end Passes

/-! ## Runs -/

def discipline (cfg : Config) : Discipline (timely cfg) where
  Inv := DeletionInv cfg
  rely _ := Rely
  guarantee _ w _ _ w' := DeletionGuarantee cfg w w'
  rely_refl _ := Rely.refl
  rely_trans := Rely.trans
  disturb hinv hd := by
    obtain ⟨htime, hstep⟩ := System.restrict_disturb.1 hd
    obtain ⟨hextend, hcreated, _⟩ := disturb_extends hstep
    exact ⟨(disturb_deletionInv hinv htime hstep).1, fun _ => ⟨hextend, hcreated⟩⟩
  keeps hinv hg := hg.inv hinv
  others _ _ hne := absurd rfl hne
  body _ := by
    apply Process.sound_bind.2
    apply sound_reconcile.mono
    intros
    trivial

theorem World.Initial.deletionInv {cfg : Config} {w : World} (h : w.Initial cfg) :
    DeletionInv cfg w where
  tidied := h.tidied
  bound := by
    rw [h.api]
    exact Server.always_start h.bound
  issued p hp := by
    rw [h.created] at hp
    cases hp
  named p hp := by
    rw [h.created] at hp
    cases hp
  recorded p hp := by
    rw [h.created] at hp
    cases hp

/-- In every interleaving of passes, users and caches in which no deletion of the PodSnapshot lands
between the creation of its content and the record of the binding: when the finalizer goes, every
content that was created for the PodSnapshot is gone or marked for deletion. -/
theorem finalizer_removed_after_contents (cfg : Config) {w₀ : World} (h₀ : w₀.Initial cfg)
    {events : List (timely cfg).Event} {pool pool' : Pool interface World Unit}
    (hrun : (timely cfg).run (Pool.idle w₀) events = some pool) {event : (timely cfg).Event}
    (hstep : (timely cfg).step pool event = some pool') : Released cfg pool.world pool'.world := by
  have hholds := (discipline cfg).holds_run ((discipline cfg).holds_idle h₀.deletionInv) hrun
  rcases System.step_world hstep with hsame | ⟨d, _, hd⟩ | ⟨t, c, k, choice, a, hk, hperform⟩
  · exact released_of_snapshots (by rw [hsame])
  · obtain ⟨htime, hd⟩ := System.restrict_disturb.1 hd
    exact (disturb_deletionInv hholds.inv htime hd).2
  · exact ((discipline cfg).guarantee_call hholds hk hperform).1.released

namespace Sample

def config : Config := ⟨"ns", "snap", "", ""⟩

/-- A PodSnapshot with the finalizer, and its source pod on a node. -/
def world : World where
  api := Server.start
    { snapshots :=
        { objects := (∅ : ExtTreeMap String Snap).insert "snap"
            ⟨"s1", 0, none, [podSnapshotFinalizer], ⟨"pod", "p1", ["main"], ⟨none, none, none⟩⟩⟩
          issued := ["s1"] }
      contents := Collection.empty
      pods :=
        { objects := (∅ : ExtTreeMap String Pod).insert "pod"
            ⟨"p1", 0, none, ["runtime"], ⟨"node", .running, [], [], []⟩⟩
          issued := ["p1"] } }
  created := []
  pass := none
  podRead := none

/-- The content is created and bound. The next pass sees a deletion, up to the call that takes the
finalizer off. -/
def bound : List (timely config).Event :=
  [.start (), .call () answered, .call () answered, .call () (Choice.mk .answered 0 "c1"),
    .call () answered, .finish (), .disturb (Disturbance.deleteSnapshot 7),
    .disturb (Disturbance.advance .snapshots 3), .start (), .call () answered,
    .call () (Choice.mk .answered 8 ""), .call () answered]

/-- The deletion lands before the binding is recorded, so that the record conflicts. -/
def unbound : List (system config).Event :=
  [.start (), .call () answered, .call () answered, .call () (Choice.mk .answered 0 "c1"),
    .disturb (Disturbance.deleteSnapshot 7), .call () answered, .finish (),
    .disturb (Disturbance.advance .snapshots 2), .start (), .call () answered]

theorem initial : world.Initial config where
  api := rfl
  snapshots n s hs := by
    rcases getElem?_insert_eq_some.1 hs with ⟨_, rfl⟩ | ⟨_, h⟩
    · exact ⟨by decide, rfl⟩
    · simp at h
  contents := Collection.fresh_empty
  pods n s hs := by
    rcases getElem?_insert_eq_some.1 hs with ⟨_, rfl⟩ | ⟨_, h⟩
    · exact ⟨by decide, rfl⟩
    · simp at h
  bound s hs := by
    rcases getElem?_insert_eq_some.1 hs with ⟨_, rfl⟩ | ⟨h, _⟩
    · exact .inl rfl
    · exact absurd rfl h
  created := rfl

end Sample

/-- The finalizer goes after a cascade that has marked the content. -/
theorem finalizer_removed_after_contents_sample :
    ∃ pool pool', (timely Sample.config).run (Pool.idle Sample.world) Sample.bound = some pool ∧
      (timely Sample.config).step pool (.call () answered) = some pool' ∧
      (pool'.world.snapshot Sample.config).isNone ∧
      Released Sample.config pool.world pool'.world := by
  have hgone : (((timely Sample.config).run (Pool.idle Sample.world) Sample.bound).bind fun pool =>
      ((timely Sample.config).step pool (.call () answered)).map fun pool' =>
        (pool'.world.snapshot Sample.config).isNone) = some true := by decide +kernel
  obtain ⟨pool, hpool, hgone⟩ := Option.bind_eq_some_iff.1 hgone
  obtain ⟨pool', hpool', hgone⟩ := Option.map_eq_some_iff.1 hgone
  exact ⟨pool, pool', hpool, hpool', hgone,
    finalizer_removed_after_contents Sample.config Sample.initial hpool hpool'⟩

/-- A deletion between the creation of the content and the record of the binding orphans the
content: the finalizer goes while it is live and not marked. -/
theorem finalizer_removed_orphans_content :
    Sample.world.Initial Sample.config ∧
    ∃ pool pool', (system Sample.config).run (Pool.idle Sample.world) Sample.unbound = some pool ∧
      (system Sample.config).step pool (.call () answered) = some pool' ∧
      ¬ Released Sample.config pool.world pool'.world := by
  have horphan : (((system Sample.config).run (Pool.idle Sample.world) Sample.unbound).bind fun pool =>
      ((system Sample.config).step pool (.call () answered)).map fun pool' =>
        decide (("s1", "c1") ∈ pool.world.created) &&
        ((pool.world.snapshot Sample.config).any fun s =>
          s.uid = "s1" && podSnapshotFinalizer ∈ s.finalizers) &&
        (pool'.world.snapshot Sample.config).isNone &&
        ((pool.world.api.current.contents.get "podsnapshotcontent-s1").any fun c =>
          c.uid = "c1" && !c.deleting)) = some true := by decide +kernel
  obtain ⟨pool, hpool, horphan⟩ := Option.bind_eq_some_iff.1 horphan
  obtain ⟨pool', hpool', horphan⟩ := Option.map_eq_some_iff.1 horphan
  simp only [Bool.and_eq_true, decide_eq_true_eq, Option.any_eq_true, Option.isNone_iff_eq_none,
    Bool.not_eq_true'] at horphan
  obtain ⟨⟨⟨hcreated, s, hs, hu, hfinalizer⟩, hgone⟩, c, hc, hcu, hlive⟩ := horphan
  refine ⟨Sample.initial, pool, pool', hpool, hpool', fun hreleased => ?_⟩
  rcases hreleased s hs hfinalizer with ⟨s', hs', _⟩ | hcontents
  · rw [hgone] at hs'
    cases hs'
  · exact hcontents _ hcreated hu.symm ⟨_, c, hc, hcu, hlive⟩

end PodSnapshot
