import Snapshot.MaintenanceQueue

/-! The orphan sweep never deletes a live artifact, and the cleanup finalizer of a content goes
only after its own artifact. A UID that has been assigned and is not live at some version is not
live at any later one; the sweep enumerates roots at a version no later than its list. -/
namespace Maintenance

open Std ApiObjects Interleaving VersionedServer OrderedMap

structure Inv (w : World) : Prop where
  tidy : Tidy id w.api
  written : ∀ u ∈ w.written, u ∈ w.api.current.issued

theorem Inv.write {w : World} (h : Inv w) {x : Contents}
    (hstep : Collection.Step (w.api.version + 1) w.api.current x) :
    Inv { w with api := w.api.write x } where
  tidy := h.tidy.write hstep
  written u hu := hstep.later.issued u (h.written u hu)

/-! ## What a worker relies on and what it guarantees -/

structure Rely (w w' : World) : Prop where
  extend : w.api.Extends w'.api
  deletions : ∀ d ∈ w.deletions, d ∈ w'.deletions

theorem Rely.refl (w : World) : Rely w w := ⟨.refl _, fun _ h => h⟩

theorem Rely.trans {w₁ w₂ w₃ : World} (h : Rely w₁ w₂) (h' : Rely w₂ w₃) : Rely w₁ w₃ :=
  ⟨h.extend.trans h'.extend, fun d hd => h'.deletions d (h.deletions d hd)⟩

/-- The store that holds the artifact of a content. -/
def Config.boundStore (q : Config) (c : Content) : String := c.body.storage.getD q.storeID

/-- The artifact of every content that loses the cleanup finalizer has been deleted before. -/
def FinalizerLast (q : Config) (w w' : World) : Prop :=
  ∀ n c, w.api.current.get n = some c → artifactCleanupFinalizer ∈ c.finalizers →
    (∃ c', w'.api.current.get n = some c' ∧ c'.uid = c.uid ∧
      artifactCleanupFinalizer ∈ c'.finalizers) ∨
    (q.boundStore c, c.uid) ∈ w.deletions

theorem finalizerLast_of_current {q : Config} {w w' : World}
    (h : w'.api.current = w.api.current) : FinalizerLast q w w' :=
  fun _ c hc hfinalizer => .inl ⟨c, by rw [h]; exact hc, rfl, hfinalizer⟩

theorem finalizerLast_put {q : Config} {w : World} {name : String} {c d : Content}
    (hc : w.api.current.get name = some c) (huid : d.uid = c.uid)
    (hlast : artifactCleanupFinalizer ∈ c.finalizers →
      artifactCleanupFinalizer ∈ d.finalizers ∨ (q.boundStore c, c.uid) ∈ w.deletions) :
    FinalizerLast q w { w with api := w.api.write (w.api.current.put name d) } := by
  intro n e he hfinalizer
  by_cases hn : n = name
  · subst hn
    rw [hc] at he
    cases he
    rcases hlast hfinalizer with hkept | hdeleted
    · have hne : d.finalizers ≠ [] := List.ne_nil_of_mem hkept
      exact .inl ⟨d, Collection.get_put_self _ _ fun h => hne h.2, huid, hkept⟩
    · exact .inr hdeleted
  · exact .inl ⟨e, (Collection.get_put_of_ne _ d hn).trans he, rfl, hfinalizer⟩

structure Guarantee (q : Config) (t : WorkItem) (w : World) (c : Call) (w' : World) : Prop where
  rely : Rely w w'
  inv : Inv w → Inv w'
  finalizerLast : FinalizerLast q w w'
  sweep : t = .sweep → ∀ uid, c = .delete uid → ¬ w.Live uid

theorem guarantee_same {q : Config} {t : WorkItem} {w : World} {c : Call}
    (hc : ∀ uid, c ≠ .delete uid) : Guarantee q t w c w where
  rely := .refl w
  inv h := h
  finalizerLast := finalizerLast_of_current rfl
  sweep _ uid h := absurd h (hc uid)

/-- Steps that leave the API server alone. -/
theorem guarantee_of_api {q : Config} {t : WorkItem} {w w' : World} {c : Call}
    (hapi : w'.api = w.api) (hwritten : w'.written = w.written)
    (hdeletions : ∀ d ∈ w.deletions, d ∈ w'.deletions)
    (hsweep : t = .sweep → ∀ uid, c = .delete uid → ¬ w.Live uid) : Guarantee q t w c w' where
  rely := ⟨by rw [hapi]; exact .refl _, hdeletions⟩
  inv h := by
    constructor
    · rw [hapi]
      exact h.tidy
    · rw [hapi, hwritten]
      exact h.written
  finalizerLast := finalizerLast_of_current (by rw [hapi])
  sweep := hsweep

theorem accept_cases {w w' : World} {x : Except ApiError Contents} (h : w.accept x = some w') :
    ∃ y, x = .ok y ∧ w' = { w with api := w.api.write y } := by
  cases x with
  | error e => cases h
  | ok y =>
    cases h
    exact ⟨y, rfl, rfl⟩

theorem disturb_keeps {q : Config} {w w' : World} {d : Disturbance} (h : Inv w)
    (hd : disturb w d = some w') : Inv w' ∧ Rely w w' ∧ FinalizerLast q w w' := by
  cases d with
  | create name uid finalizers storage =>
    obtain ⟨x, hx, rfl⟩ := accept_cases hd
    refine ⟨h.write (.of_create hx), ⟨w.api.extends_write _, fun _ hd => hd⟩, ?_⟩
    obtain ⟨hfree, _, rfl⟩ := Collection.step_create hx
    intro n c hc hfinalizer
    have hne : n ≠ name := by
      intro heq
      subst heq
      rw [hc] at hfree
      cases hfree
    exact .inl ⟨c, (Collection.get_add_of_ne _ _ hne).trans hc, rfl, hfinalizer⟩
  | delete name time =>
    obtain ⟨x, hx, rfl⟩ := accept_cases hd
    refine ⟨h.write (.of_delete hx), ⟨w.api.extends_write _, fun _ hd => hd⟩, ?_⟩
    obtain ⟨c, hc, _, ⟨_, rfl⟩ | rfl⟩ := Collection.step_delete hx
    · exact finalizerLast_of_current rfl
    · exact finalizerLast_put hc rfl fun hfinalizer => .inl hfinalizer
  | update name finalizers =>
    obtain ⟨x, hx, rfl⟩ := accept_cases hd
    refine ⟨h.write (.of_update hx), ⟨w.api.extends_write _, fun _ hd => hd⟩, ?_⟩
    obtain ⟨c, hc, _, rfl⟩ := Collection.step_update hx
    refine finalizerLast_put hc rfl fun hfinalizer => .inl ?_
    simp [hfinalizer]
  | writeArtifact uid =>
    simp only [disturb] at hd
    split at hd
    · rename_i hlive
      cases hd
      refine ⟨⟨h.tidy, ?_⟩, ⟨.refl _, fun _ hd => hd⟩, finalizerLast_of_current rfl⟩
      intro u hu
      rcases List.mem_cons.1 hu with rfl | hu
      · simp only [List.any_eq_true, decide_eq_true_eq] at hlive
        obtain ⟨⟨n, c⟩, hmem, rfl⟩ := hlive
        exact h.tidy.assigned.current n c (ExtTreeMap.mem_toList_iff_getElem?_eq_some.1 hmem)
      · exact h.written u hu
    · cases hd
  | advance v =>
    simp only [disturb, Option.map_eq_some_iff] at hd
    obtain ⟨api, hadvance, rfl⟩ := hd
    obtain ⟨hpast, hcurrent⟩ := Server.advance_eq_some hadvance
    refine ⟨⟨h.tidy.of_states hpast hcurrent, ?_⟩, ⟨Server.extends_advance hadvance, fun _ hd => hd⟩,
      finalizerLast_of_current hcurrent⟩
    rw [hcurrent]
    exact h.written

/-! ## One rule for each call -/

abbrev Worker.Sound {α : Type} (q : Config) (t : WorkItem) (Q : α → World → Prop) (p : Worker α)
    (w : World) : Prop :=
  Process.Sound (system q) t Inv Rely (fun w c _ w' => Guarantee q t w c w') Q p w

section Rules

variable {q : Config} {t : WorkItem} {w : World}

theorem Worker.Sound.reached {α : Type} {Q : α → World → Prop} {p : Worker α}
    (h : p.Sound q t Q w) : p.Sound q t (fun a w₁ => Rely w w₁ ∧ Q a w₁) w :=
  Process.Sound.reached Rely.refl Rely.trans Guarantee.rely h

theorem sound_candidates {Q : Option (List UID) → World → Prop}
    (h : ∀ r w₁, Inv w₁ → (∀ uids, r = some uids → ∀ u ∈ uids, u ∈ w₁.written) → Q r w₁) :
    Worker.candidates.Sound q t Q w := by
  intro w₁ hinv _ choice r w₂ hstep
  obtain ⟨rfl, hwritten⟩ := candidates_cases hstep
  exact ⟨guarantee_same nofun, h r w₂ hinv hwritten⟩

theorem sound_list {token : Option Token} {Q : Option Page → World → Prop}
    (h : ∀ choice p w₁, Inv w₁ → Rely w w₁ → w₁.page token choice = some p → Q p w₁) :
    (Worker.list token).Sound q t Q w := by
  intro w₁ hinv hrely choice r w₂ hstep
  obtain ⟨p, hp, heq⟩ := Option.map_eq_some_iff.1 hstep
  cases heq
  exact ⟨guarantee_same nofun, h choice r w₁ hinv hrely hp⟩

theorem sound_enqueue {item : WorkItem} {Q : Unit → World → Prop}
    (h : ∀ w₁, Rely w w₁ → Q () w₁) : (Worker.enqueue item).Sound q t Q w := by
  intro w₁ _ hrely choice r w₂ hstep
  obtain rfl := enqueue_cases hstep
  exact ⟨guarantee_same nofun, h w₂ hrely⟩

theorem sound_lock {key : Key} {Q : Unit → World → Prop} (h : ∀ w₁, Rely w w₁ → Q () w₁) :
    (Worker.lock key).Sound q t Q w := by
  intro w₁ _ hrely choice r w₂ hstep
  obtain ⟨_, rfl⟩ := lock_cases hstep
  have hg : Guarantee q t w₁ (.lock key) { w₁ with locks := key :: w₁.locks } :=
    guarantee_of_api rfl rfl (fun _ hd => hd) nofun
  exact ⟨hg, h _ (hrely.trans hg.rely)⟩

theorem sound_unlock {key : Key} {Q : Unit → World → Prop} (h : ∀ w₁, Rely w w₁ → Q () w₁) :
    (Worker.unlock key).Sound q t Q w := by
  intro w₁ _ hrely choice r w₂ hstep
  obtain rfl := unlock_cases hstep
  have hg : Guarantee q t w₁ (.unlock key) { w₁ with locks := w₁.locks.erase key } :=
    guarantee_of_api rfl rfl (fun _ hd => hd) nofun
  exact ⟨hg, h _ (hrely.trans hg.rely)⟩

theorem sound_delete {uid : UID} {Q : Except Failure Unit → World → Prop}
    (hsweep : t = .sweep → ∀ w₁, Inv w₁ → Rely w w₁ → ¬ w₁.Live uid)
    (h : ∀ r w₁, Rely w w₁ → (r = .ok () → (q.storeID, uid) ∈ w₁.deletions) → Q r w₁) :
    (Worker.delete uid).Sound q t Q w := by
  intro w₁ hinv hrely choice r w₂ hstep
  have hdead : t = .sweep → ∀ u, Call.delete uid = .delete u → ¬ w₁.Live u := by
    intro ht u hu
    cases hu
    exact hsweep ht w₁ hinv hrely
  rcases delete_cases hstep with ⟨rfl, rfl⟩ | ⟨⟨e, rfl⟩, rfl⟩
  · have hg : Guarantee q t w₁ (.delete uid)
        { w₁ with deletions := (q.storeID, uid) :: w₁.deletions } :=
      guarantee_of_api rfl rfl (fun _ hd => List.mem_cons_of_mem _ hd) hdead
    exact ⟨hg, h _ _ (hrely.trans hg.rely) fun _ => List.mem_cons_self⟩
  · exact ⟨guarantee_of_api rfl rfl (fun _ hd => hd) hdead, h _ _ hrely nofun⟩

theorem sound_get {name : String} {Q : Except ApiError Content → World → Prop}
    (h : ∀ r w₁, (∀ c, r = .ok c → Recorded id w₁.api name c) → Q r w₁) :
    (Worker.get name).Sound q t Q w := by
  intro w₁ _ _ choice r w₂ hstep
  obtain ⟨rfl, hview⟩ := get_cases hstep
  exact ⟨guarantee_same nofun, h r w₂ fun c hc => recorded_view w₂.api () (hview c hc)⟩

/-- The optimistic lock makes the patch meet the content that was read, and no other. -/
theorem guarantee_patch {name : String} {c : Content} {finalizers : List String}
    (hrecorded : Recorded id w.api name c) (hdeleted : (q.boundStore c, c.uid) ∈ w.deletions)
    (hinv : Inv w) :
    Guarantee q t w (.patchFinalizers name c.version finalizers)
      (w.patch name c.version finalizers).2 := by
  simp only [World.patch]
  cases hx : w.api.current.update (w.api.version + 1) name (some c.version)
      fun c => (finalizers, c.body) with
  | error e => exact guarantee_same nofun
  | ok x =>
    have hstep := Collection.Step.of_update hx
    obtain ⟨d, hd, hversion, rfl⟩ := Collection.step_update hx
    have hsame : c = d := by
      apply hinv.tidy.eq_of_version hrecorded (recorded_current w.api hd)
      simpa using hversion
    subst hsame
    exact
      { rely := ⟨w.api.extends_write _, fun _ hd => hd⟩
        inv := fun h => h.write hstep
        finalizerLast := finalizerLast_put hd rfl fun _ => .inr hdeleted
        sweep := fun _ _ h => nomatch h }

theorem sound_patchFinalizers {name : String} {c : Content} {finalizers : List String}
    {Q : Except ApiError Unit → World → Prop} (hrecorded : Recorded id w.api name c)
    (hdeleted : (q.boundStore c, c.uid) ∈ w.deletions) (h : ∀ r w₁, Rely w w₁ → Q r w₁) :
    (Worker.patchFinalizers name c.version finalizers).Sound q t Q w := by
  intro w₁ hinv hrely choice r w₂ hstep
  have hg : Guarantee q t w₁ (.patchFinalizers name c.version finalizers)
      (w₁.patch name c.version finalizers).2 :=
    guarantee_patch (hrecorded.mono hrely.extend) (hrely.deletions _ hdeleted) hinv
  rcases patchFinalizers_cases hstep with rfl | rfl
  · exact ⟨guarantee_same nofun, h _ _ hrely⟩
  · exact ⟨hg, h _ _ (hrely.trans hg.rely)⟩

end Rules

/-! ## Deleting one content -/

theorem storeID_eq_boundStore {q : Config} {c : Content} (h : backendForContent q c = .ok ()) :
    q.boundStore c = q.storeID := by
  simp only [backendForContent] at h
  split at h
  · rename_i storeID hstorage
    simp only [requireStoreMatch] at h
    split at h
    · cases h
    · rename_i hmatch
      simp only [not_or, ne_eq, not_not] at hmatch
      simp [Config.boundStore, hstorage, hmatch.2.2]
  · rename_i hstorage
    simp [Config.boundStore, hstorage]

theorem sound_processDeleteContent (q : Config) (t : WorkItem) (ht : t ≠ .sweep) (name : String)
    (uid : UID) (w : World) :
    (processDeleteContent q name uid).Sound q t (fun _ _ => True) w := by
  apply Process.sound_bind.2
  apply sound_get
  intro r w₁ hrecorded
  cases r with
  | error e => cases e <;> trivial
  | ok content =>
    have hrecorded := hrecorded content rfl
    dsimp only
    split
    · trivial
    split
    · trivial
    split
    · trivial
    split
    · trivial
    rename_i hstore
    apply Process.sound_bind.2
    apply sound_lock
    intro w₂ h₂
    apply Process.sound_bind.2
    apply sound_delete (fun h => absurd h ht)
    intro deleted w₃ h₃ hlog
    have hrecorded := hrecorded.mono (h₂.trans h₃).extend
    cases deleted with
    | error e =>
      apply Process.sound_bind.2
      apply sound_unlock
      intros
      trivial
    | ok _ =>
      have hlog : (q.boundStore content, content.uid) ∈ w₃.deletions := by
        rw [storeID_eq_boundStore hstore]
        exact hlog rfl
      apply Process.sound_bind.2
      apply sound_patchFinalizers hrecorded hlog
      intro patched w₄ _
      apply Process.sound_bind.2
      apply sound_unlock
      intro w₅ _
      cases patched <;> trivial

/-! ## The sweep -/

/-- Every content of a state is among the existing UIDs. -/
def Covers (existing : List UID) (x : Contents) : Prop := ∀ n c, x.get n = some c → c.uid ∈ existing

theorem scanItems_existing {items : List (String × Content)} {r r' : ContentScanResult}
    (h : scanItems items r = .ok r') {u : UID} :
    u ∈ r.existingUIDs ∨ (∃ i ∈ items, i.2.uid = u) → u ∈ r'.existingUIDs := by
  induction items generalizing r with
  | nil =>
    cases h
    simp
  | cons i rest ih =>
    simp only [scanItems] at h
    split at h
    · cases h
    · intro hu
      apply ih h
      rcases hu with hu | ⟨j, hj, hju⟩
      · exact .inl (List.mem_cons_of_mem _ hu)
      · rcases List.mem_cons.1 hj with rfl | hj
        · exact .inl (by rw [← hju]; exact List.mem_cons_self)
        · exact .inr ⟨j, hj, hju⟩

/-- What a list in progress has read: a part of one state, not older than `v₀`. -/
structure Reading (w : World) (v₀ : ℕ) (t : Token) (r : ContentScanResult) : Prop where
  fresh : v₀ ≤ t.version
  read : ∃ x, w.api.state t.version = some x ∧
    ∀ i ∈ x.objects.toList.take t.offset, i.2.uid ∈ r.existingUIDs

/-- A complete list: the existing UIDs cover one state, not older than `v₀`. -/
def Listed (v₀ : ℕ) (w : World) (existing : List UID) : Prop :=
  ∃ v x, v₀ ≤ v ∧ w.api.state v = some x ∧ Covers existing x

theorem scan_page {x : Contents} {offset length : ℕ} {r r' : ContentScanResult} {v : ℕ}
    (hread : ∀ i ∈ x.objects.toList.take offset, i.2.uid ∈ r.existingUIDs)
    (hscan : scanItems (pageOf v x offset length).items r = .ok r') :
    ∀ i ∈ x.objects.toList.take (offset + length), i.2.uid ∈ r'.existingUIDs := by
  intro i hi
  apply scanItems_existing hscan
  rw [List.take_add] at hi
  rcases List.mem_append.1 hi with hi | hi
  · exact .inl (hread i hi)
  · exact .inr ⟨i, hi, rfl⟩

/-- A page of the snapshot that is being read, or one that the scan will reject. -/
theorem page_cases {w : World} {token : Option Token} {choice : Choice} {page : Page}
    (h : w.page token choice = some (some page)) :
    (token = none ∧ ((∃ length, page = pageOf w.api.version w.api.current 0 length) ∨
        page.resourceVersion = none)) ∨
      ∃ t, token = some t ∧
        ((∃ x length, w.api.state t.version = some x ∧ page = pageOf t.version x t.offset length) ∨
          page.resourceVersion ≠ some t.version) := by
  cases token with
  | none =>
    cases choice with
    | page length =>
      cases h
      exact .inl ⟨rfl, .inl ⟨length, rfl⟩⟩
    | otherVersion p =>
      simp only [World.page] at h
      split at h <;> cases h
      exact .inl ⟨rfl, .inr ‹_›⟩
    | _ => cases h
  | some t =>
    cases choice with
    | page length =>
      simp only [World.page, Option.map_eq_some_iff] at h
      obtain ⟨x, hx, hp⟩ := h
      cases hp
      exact .inr ⟨t, rfl, .inl ⟨x, length, hx, rfl⟩⟩
    | otherVersion p =>
      simp only [World.page] at h
      split at h <;> cases h
      exact .inr ⟨t, rfl, .inr ‹_›⟩
    | _ => cases h

theorem covers_of_take {x : Contents} {existing : List UID} {n : ℕ}
    (hn : x.objects.toList.length ≤ n) (h : ∀ i ∈ x.objects.toList.take n, i.2.uid ∈ existing) :
    Covers existing x := by
  intro name c hc
  rw [List.take_of_length_le hn] at h
  exact h (name, c) (ExtTreeMap.mem_toList_iff_getElem?_eq_some.2 hc)

/-- Where a list stands: it has not begun, or it has read a part of one state. -/
inductive Progress (w : World) (v₀ : ℕ) (r : ContentScanResult) : Option Token → Option ℕ → Prop where
  | first : Progress w v₀ r none none
  | reading {t : Token} (h : Reading w v₀ t r) : Progress w v₀ r (some t) (some t.version)

/-- A page that the version check lets through continues one state. -/
theorem progress_page {w : World} {v₀ v : ℕ} {r r' : ContentScanResult} {token : Option Token}
    {snapshot : Option ℕ} {choice : Choice} {page : Page} (hprogress : Progress w v₀ r token snapshot)
    (hfresh : v₀ ≤ w.api.version) (hpage : w.page token choice = some (some page))
    (hcheck : checkResourceVersion snapshot page.resourceVersion = .ok v)
    (hscan : scanItems page.items r = .ok r') :
    (page.next = none → Listed v₀ w r'.existingUIDs) ∧
      ∀ next, page.next = some next → next.version = v ∧ Reading w v₀ next r' := by
  have continued : ∀ (u : ℕ) (x : Contents) (offset length : ℕ), v₀ ≤ u → w.api.state u = some x →
      (∀ i ∈ x.objects.toList.take offset, i.2.uid ∈ r.existingUIDs) → v = u →
      page = pageOf u x offset length →
      (page.next = none → Listed v₀ w r'.existingUIDs) ∧
        ∀ next, page.next = some next → next.version = v ∧ Reading w v₀ next r' := by
    rintro u x offset length hu hx hread rfl rfl
    have hread' := scan_page hread hscan
    constructor
    · intro hlast
      simp only [pageOf] at hlast
      split at hlast
      · cases hlast
      · exact ⟨v, x, hu, hx, covers_of_take (by omega) hread'⟩
    · intro next hnext
      simp only [pageOf] at hnext
      split at hnext
      · cases hnext
        exact ⟨rfl, hu, x, hx, hread'⟩
      · cases hnext
  cases hprogress with
  | first =>
    rcases page_cases hpage with ⟨_, ⟨length, rfl⟩ | hnone⟩ | ⟨t, ht, _⟩
    · simp only [checkResourceVersion, pageOf, Except.ok.injEq] at hcheck
      exact continued w.api.version w.api.current 0 length hfresh w.api.state_version (by simp)
        hcheck.symm rfl
    · simp [checkResourceVersion, hnone] at hcheck
    · cases ht
  | reading hreading =>
    rename_i t
    obtain ⟨hu, x, hx, hread⟩ := hreading
    rcases page_cases hpage with ⟨ht, _⟩ | ⟨t', ht, hcases⟩
    · cases ht
    · cases ht
      simp only [checkResourceVersion] at hcheck
      split at hcheck
      · rename_i hversion
        cases hcheck
        rcases hcases with ⟨x', length, hx', rfl⟩ | hother
        · rw [hx] at hx'
          cases hx'
          exact continued t.version x t.offset length hu hx hread rfl rfl
        · exact absurd hversion hother
      · cases hcheck

theorem Progress.mono {w w' : World} {v₀ : ℕ} {r : ContentScanResult} {token : Option Token}
    {snapshot : Option ℕ} (h : Progress w v₀ r token snapshot) (hrely : Rely w w') :
    Progress w' v₀ r token snapshot := by
  cases h with
  | first => exact .first
  | reading h =>
    obtain ⟨hfresh, x, hx, hread⟩ := h
    exact .reading ⟨hfresh, x, hrely.extend.state hx, hread⟩

section Sweep

variable {q : Config} {t : WorkItem} {v₀ : ℕ}

theorem sound_collectContentScanResultOnce (pages : ℕ) {token : Option Token} {snapshot : Option ℕ}
    {r : ContentScanResult} {w : World} (hprogress : Progress w v₀ r token snapshot)
    (hfresh : v₀ ≤ w.api.version) :
    (collectContentScanResultOnce pages token snapshot r).Sound q t
      (fun res w₁ => v₀ ≤ w₁.api.version ∧ ∀ r', res = .ok r' → Listed v₀ w₁ r'.existingUIDs) w := by
  induction pages generalizing token snapshot r w with
  | zero => exact ⟨hfresh, nofun⟩
  | succ pages ih =>
    apply Process.sound_bind.2
    apply sound_list
    intro choice p w₁ hinv hrely hpage
    have hfresh₁ : v₀ ≤ w₁.api.version := Nat.le_trans hfresh hrely.extend.1
    cases p with
    | none => exact ⟨hfresh₁, nofun⟩
    | some page =>
      dsimp only
      split
      · exact ⟨hfresh₁, nofun⟩
      · rename_i v hcheck
        split
        · exact ⟨hfresh₁, nofun⟩
        · rename_i r' hscan
          obtain ⟨hlast, hmore⟩ :=
            progress_page (hprogress.mono hrely) hfresh₁ hpage hcheck hscan
          split
          · rename_i hnone
            refine ⟨hfresh₁, fun r'' hr => ?_⟩
            cases hr
            exact hlast hnone
          · rename_i next hnext
            obtain ⟨rfl, hreading⟩ := hmore next hnext
            split
            · exact ⟨hfresh₁, nofun⟩
            · exact ih (.reading hreading) hfresh₁

theorem sound_collectContentScanResult (attempts : ℕ) (last : Option Failure) {w : World}
    (hfresh : v₀ ≤ w.api.version) :
    (collectContentScanResult q attempts last).Sound q t
      (fun res w₁ => ∀ r, res = .ok r → Listed v₀ w₁ r.existingUIDs) w := by
  induction attempts generalizing last w with
  | zero => exact nofun
  | succ attempts ih =>
    apply Process.sound_bind.2
    apply (sound_collectContentScanResultOnce q.pages .first hfresh).mono
    intro res w₁ ⟨hfresh₁, hlisted⟩
    cases res with
    | ok r =>
      intro r' hr
      cases hr
      exact hlisted r rfl
    | error e => exact ih (some e) hfresh₁

theorem Listed.mono {w w' : World} {existing : List UID} (h : Listed v₀ w existing)
    (hrely : Rely w w') : Listed v₀ w' existing := by
  obtain ⟨v, x, hv, hx, hcovers⟩ := h
  exact ⟨v, x, hv, hrely.extend.state hx, hcovers⟩

/-- The UIDs were assigned at a version that is not later than the list. -/
def Old (v₀ : ℕ) (w : World) (uids : List UID) : Prop :=
  ∃ x, w.api.state v₀ = some x ∧ ∀ u ∈ uids, u ∈ x.issued

theorem Old.mono {w w' : World} {uids : List UID} (h : Old v₀ w uids) (hrely : Rely w w') :
    Old v₀ w' uids := by
  obtain ⟨x, hx, hold⟩ := h
  exact ⟨x, hrely.extend.state hx, hold⟩

/-- A root that was there before the list and that no listed content owns is an orphan for good. -/
theorem not_live_of_listed {w : World} {existing uids : List UID} {u : UID} (hinv : Inv w)
    (hold : Old v₀ w uids) (hlisted : Listed v₀ w existing) (hu : u ∈ uids) (hout : u ∉ existing) :
    ¬ w.Live u := by
  obtain ⟨x₀, hx₀, hold⟩ := hold
  obtain ⟨v, x, hv, hx, hcovers⟩ := hlisted
  have hlater : Collection.Later x₀ x := hinv.tidy.evolves v₀ v x₀ x hv hx₀ hx
  have hdead : ¬ x.Live u := by
    rintro ⟨n, c, hc, rfl⟩
    exact hout (hcovers n c hc)
  exact (hinv.tidy.evolves.current hx).gone u (hlater.issued u (hold u hu)) hdead

theorem sound_reclaim {existing : List UID} (uids : List UID) (budget : ℕ) {w : World}
    (hold : Old v₀ w uids) (hlisted : Listed v₀ w existing) :
    (reclaim existing uids budget).Sound q t (fun _ _ => True) w := by
  induction uids generalizing budget w with
  | nil => trivial
  | cons uid rest ih =>
    have hrest : ∀ w₁, Rely w w₁ → Old v₀ w₁ rest := by
      intro w₁ h₁
      obtain ⟨x, hx, hold⟩ := hold.mono h₁
      exact ⟨x, hx, fun u hu => hold u (List.mem_cons_of_mem _ hu)⟩
    simp only [reclaim]
    split
    · exact ih budget (hrest w (.refl w)) hlisted
    · rename_i hout
      cases budget with
      | zero => trivial
      | succ budget =>
        apply Process.sound_bind.2
        apply sound_lock
        intro w₁ h₁
        apply Process.sound_bind.2
        apply sound_delete
        · intro _ w₂ hinv h₂
          exact not_live_of_listed hinv (hold.mono (h₁.trans h₂)) (hlisted.mono (h₁.trans h₂))
            List.mem_cons_self hout
        · intro deleted w₂ h₂ _
          apply Process.sound_bind.2
          apply sound_unlock
          intro w₃ h₃
          apply Process.sound_bind.2
          have h := (h₁.trans h₂).trans h₃
          apply (ih budget (hrest w₃ h) (hlisted.mono h)).mono
          intro errors w₄ _
          cases deleted <;> trivial

theorem sound_enqueueAll (items : List WorkItem) {w : World} :
    (enqueueAll items).Sound q t (fun _ _ => True) w := by
  induction items generalizing w with
  | nil => trivial
  | cons item rest ih =>
    apply Process.sound_bind.2
    apply sound_enqueue
    intro w₁ _
    exact ih

theorem sound_processSweep (w : World) :
    (processSweep q).Sound q t (fun _ _ => True) w := by
  apply Process.sound_bind.2
  apply sound_candidates
  intro candidates w₁ hinv hwritten
  -- whatever was enumerated had been assigned at the version reached by then
  have hold : ∀ uids, candidates = some uids → Old w₁.api.version w₁ uids :=
    fun uids h => ⟨_, w₁.api.state_version, fun u hu => hinv.written u (hwritten uids h u hu)⟩
  apply Process.sound_bind.2
  apply (sound_collectContentScanResult q.listAttempts none (Nat.le_refl _)).reached.mono
  intro scanned w₂ ⟨h₂, hlisted⟩
  cases scanned with
  | error e => cases candidates <;> trivial
  | ok r =>
    apply Process.sound_bind.2
    apply (sound_enqueueAll r.pendingDeletes).reached.mono
    intro _ w₃ ⟨h₃, _⟩
    cases candidates with
    | none => trivial
    | some uids =>
      exact sound_reclaim uids q.batchSize ((hold uids rfl).mono (h₂.trans h₃))
        ((hlisted r rfl).mono h₃)

end Sweep

/-! ## Whole runs -/

def discipline (q : Config) : Discipline (system q) where
  Inv := Inv
  rely _ := Rely
  guarantee t w c _ w' := Guarantee q t w c w'
  rely_refl _ := Rely.refl
  rely_trans := Rely.trans
  disturb hinv hd :=
    have hkeeps := disturb_keeps (q := q) hinv hd
    ⟨hkeeps.1, fun _ => hkeeps.2.1⟩
  keeps hinv hg := hg.inv hinv
  others _ hg _ := hg.rely
  body := by
    intro t w _
    cases t with
    | deleteContent name uid =>
      apply Process.sound_bind.2
      apply (sound_processDeleteContent q (.deleteContent name uid) nofun name uid w).mono
      intros
      trivial
    | sweep =>
      apply Process.sound_bind.2
      apply (sound_processSweep w).mono
      intros
      trivial

/-- Nothing has been deleted, every content carries an assigned UID and the first version, and
agents have written only under assigned UIDs. -/
structure World.Initial (w : World) : Prop where
  api : w.api = Server.start w.api.current
  assigned : w.api.current.Assigned
  version : ∀ n c, w.api.current.get n = some c → c.version = 0
  written : ∀ u ∈ w.written, u ∈ w.api.current.issued
  deletions : w.deletions = []

theorem World.Initial.inv {w : World} (h : w.Initial) : Inv w where
  tidy := by
    rw [h.api]
    exact tidy_start fun n c hc => ⟨h.assigned n c hc, h.version n c hc⟩
  written := h.written

/-- What the sweep is about to delete belongs to no content. -/
theorem not_live_of_sweep {q : Config} {pool : Pool interface World WorkItem}
    (hholds : (discipline q).Holds pool) {uid : UID} (hnext : pool.next .sweep = some (.delete uid)) :
    ¬ pool.world.Live uid := by
  obtain ⟨k, hk⟩ := Pool.next_eq_some.1 hnext
  have hok : (system q).perform .sweep pool.world (Call.delete uid) Choice.ok =
      some (.ok (), { pool.world with deletions := (q.storeID, uid) :: pool.world.deletions }) := rfl
  exact ((discipline q).guarantee_call hholds hk hok).1.sweep rfl uid rfl

/-- In every interleaving of work items, other clients and agents: a root that the sweep is about
to delete belongs to no content, and a content loses the cleanup finalizer only after its own
artifact was deleted from the store that holds it. -/
theorem orphan_sweep_safe (q : Config) {w₀ : World} (h₀ : w₀.Initial) {events : List (system q).Event}
    {pool : Pool interface World WorkItem}
    (hrun : (system q).run (Pool.idle w₀) events = some pool) :
    (∀ uid, pool.next .sweep = some (.delete uid) → ¬ pool.world.Live uid) ∧
      ∀ event pool', (system q).step pool event = some pool' →
        FinalizerLast q pool.world pool'.world := by
  have hholds : (discipline q).Holds pool :=
    (discipline q).holds_run ((discipline q).holds_idle h₀.inv) hrun
  constructor
  · intro uid hnext
    exact not_live_of_sweep hholds hnext
  · intro event pool' hstep
    rcases System.step_world hstep with hsame | ⟨d, _, hd⟩ | ⟨t, c, k, choice, a, hk, hperform⟩
    · exact finalizerLast_of_current (by rw [hsame])
    · exact (disturb_keeps hholds.inv hd).2.2
    · exact ((discipline q).guarantee_call hholds hk hperform).1.finalizerLast

namespace Sample

def config : Config := ⟨"store", 10, 3, 4⟩

/-- One content is bound and has an artifact; the content of another artifact is gone. -/
def world : World where
  api := Server.start
    { objects := (∅ : ExtTreeMap String Content).insert "live"
        ⟨"u1", 0, none, [artifactCleanupFinalizer], ⟨some "store"⟩⟩
      issued := ["u0", "u1"] }
  written := ["u0", "u1"]
  deletions := []
  locks := []

/-- A sweep finds the orphan while the other content is deleted and cleaned up. -/
def events : List (system config).Event :=
  [.start .sweep, .call .sweep (Choice.candidates ["u1", "u0"]), .disturb (Disturbance.delete "live" 7),
    .call .sweep (Choice.page 5), .disturb (Disturbance.advance 1), .call .sweep Choice.ok,
    .start (.deleteContent "live" "u1"), .call (.deleteContent "live" "u1") Choice.ok,
    .call (.deleteContent "live" "u1") Choice.ok, .call (.deleteContent "live" "u1") Choice.ok,
    .call .sweep Choice.ok]

theorem initial : world.Initial where
  api := rfl
  assigned n c hc := by
    simp only [world, Server.start, Collection.get] at hc
    rcases getElem?_insert_eq_some.1 hc with ⟨_, rfl⟩ | ⟨_, h⟩
    · decide
    · simp at h
  version n c hc := by
    simp only [world, Server.start, Collection.get] at hc
    rcases getElem?_insert_eq_some.1 hc with ⟨_, rfl⟩ | ⟨_, h⟩
    · rfl
    · simp at h
  written := by decide
  deletions := rfl

end Sample

/-- The sweep has come to the orphan, and the finalizer of the deleted content is next to go. -/
theorem orphan_sweep_safe_sample :
    ∃ pool, (system Sample.config).run (Pool.idle Sample.world) Sample.events = some pool ∧
      pool.next .sweep = some (.delete "u0") ∧ ¬ pool.world.Live "u0" ∧
      ∃ pool', (system Sample.config).step pool (.call (.deleteContent "live" "u1") Choice.ok) =
        some pool' ∧ FinalizerLast Sample.config pool.world pool'.world := by
  have hnext : ((system Sample.config).run (Pool.idle Sample.world) Sample.events).bind
      (fun pool => pool.next .sweep) = some (Call.delete "u0") := by decide +kernel
  have hpatch : (((system Sample.config).run (Pool.idle Sample.world) Sample.events).bind
      fun pool => (system Sample.config).step pool
        (.call (.deleteContent "live" "u1") Choice.ok)).isSome := by decide +kernel
  obtain ⟨pool, hpool, hnext⟩ := Option.bind_eq_some_iff.1 hnext
  obtain ⟨pool', hpool'⟩ := Option.isSome_iff_exists.1 hpatch
  rw [hpool, Option.bind_some] at hpool'
  obtain ⟨hsweep, hfinalizer⟩ := orphan_sweep_safe Sample.config Sample.initial hpool
  exact ⟨pool, hpool, hnext, hsweep "u0" hnext, pool', hpool', hfinalizer _ pool' hpool'⟩

end Maintenance
