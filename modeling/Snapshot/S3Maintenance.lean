import Snapshot.S3Layout
import Snapshot.PagedListing

/-! The operator's S3 backend: it deletes what is left of a content and lists the contents that have left something,
from the keys alone. It forms the prefix that it lists on its own; PageBroker has formed the keys. -/
namespace S3Maintenance

open LexicalPath (Bytes Path IsName sep)
open ByteText (literal)
open StorageIdentity.PageBroker S3Layout PagedListing

/-! ### The bucket -/

/-- What becomes of a request to delete objects. -/
inductive Deletion
  /-- The request fails after some of the objects are gone. -/
  | failed (removed : Bytes → Bool)
  /-- The answer names the objects that could not be deleted. -/
  | answered (kept : Bytes → Bool)

/-- The store's side of every call, by its number. -/
structure Service where
  order : LinearOrder Bytes
  /-- The keys after others have written and deleted, up to the call. -/
  others : ℕ → Finset Bytes → Finset Bytes
  listFails : ℕ → Bool
  pageSize : ℕ → ℕ
  pageSize_pos : ∀ n, 0 < pageSize n
  deletion : ℕ → Deletion

structure Bucket where
  keys : Finset Bytes
  calls : ℕ
  /-- The keys that the backend's own requests have deleted. -/
  removed : List Bytes

inductive BackendError
  | list
  | deleteRequest
  | deleteObject (key : Bytes)
  deriving DecidableEq, Repr

variable (svc : Service)

def Bucket.arrive (b : Bucket) : Bucket := { b with keys := svc.others b.calls b.keys, calls := b.calls + 1 }

def Bucket.remove (b : Bucket) (objects : List Bytes) : Bucket :=
  { b with keys := b.keys.filter (· ∉ objects), removed := b.removed ++ objects }

/-- A page of what a request shows of the keys. -/
def listObjectsV2 (shown : Finset Bytes → Finset Bytes) (token : Option Bytes) (b : Bucket) :
    Except BackendError (Page Bytes) × Bucket :=
  if svc.listFails b.calls then (.error .list, b.arrive svc)
  else (.ok (@page Bytes svc.order (svc.pageSize b.calls) token (shown (b.arrive svc).keys)), b.arrive svc)

def requestDeletion (batch : List Bytes) (b : Bucket) : Except BackendError Unit × Bucket :=
  match svc.deletion b.calls with
  | .failed removed => (.error .deleteRequest, (b.arrive svc).remove (batch.filter removed))
  | .answered kept =>
    (match (batch.filter kept).head? with
      | none => .ok ()
      | some key => .error (.deleteObject key), (b.arrive svc).remove (batch.filter fun k => !kept k))

/-! ### `S3Backend` -/

/-- `strings.Trim(s, "/")` -/
def trimSlashes (s : Bytes) : Bytes := ((s.dropWhile (· == sep)).reverse.dropWhile (· == sep)).reverse

def s3ArtifactsPrefix (storagePrefix : Bytes) : Bytes :=
  LexicalPath.join (trimSlashes storagePrefix) (literal "artifacts") ++ [sep]

def deleteObjectsBatchSize : ℕ := 1000

def deleteBatches : List (List Bytes) → Bucket → Except BackendError Unit × Bucket
  | [], b => (.ok (), b)
  | batch :: rest, b =>
    match requestDeletion svc batch b with
    | (.error e, b) => (.error e, b)
    | (.ok (), b) => deleteBatches rest b

def deleteObjects (objects : List Bytes) (b : Bucket) : Except BackendError Unit × Bucket :=
  deleteBatches svc (batches deleteObjectsBatchSize objects.length objects) b

/-- The keys under a prefix. -/
def underPrefix (start : Bytes) (keys : Finset Bytes) : Finset Bytes := keys.filter (start <+: ·)

/-- The loop of `Delete`; the first argument bounds the number of pages. -/
def deletePages (start : Bytes) : ℕ → Option Bytes → Bucket → Option (Except BackendError Unit × Bucket)
  | 0, _, _ => none
  | fuel + 1, token, b =>
    match listObjectsV2 svc (underPrefix start) token b with
    | (.error e, b) => some (.error e, b)
    | (.ok page, b) =>
      match deleteObjects svc page.items b with
      | (.error e, b) => some (.error e, b)
      | (.ok (), b) => if page.truncated then deletePages start fuel page.next b else some (.ok (), b)

/-- What `Delete` lists. -/
def contentPrefix (storagePrefix contentUID : Bytes) : Bytes := s3ArtifactsPrefix storagePrefix ++ contentUID ++ [sep]

def delete (storagePrefix contentUID : Bytes) (fuel : ℕ) (b : Bucket) : Option (Except BackendError Unit × Bucket) :=
  deletePages svc (contentPrefix storagePrefix contentUID) fuel none b

/-- With a delimiter, the keys that have it after the prefix are shown as one common prefix, in their place. -/
def rollUp (start key : Bytes) : Bytes :=
  let rest := key.drop start.length
  if sep ∈ rest then start ++ rest.takeWhile (· != sep) ++ [sep] else key

def rolledUp (start : Bytes) (keys : Finset Bytes) : Finset Bytes := (underPrefix start keys).image (rollUp start)

def isCommonPrefix (start item : Bytes) : Bool := sep ∈ item.drop start.length

def trimPrefix (start s : Bytes) : Bytes := if start <+: s then s.drop start.length else s

def trimSuffix (stop s : Bytes) : Bytes := if stop <:+ s then s.take (s.length - stop.length) else s

/-- The UIDs that the common prefixes of a page name. -/
def pageUIDs (start : Bytes) (items : List Bytes) : List Bytes :=
  ((items.filter (isCommonPrefix start)).map fun common => trimSuffix [sep] (trimPrefix start common)).filter (· ≠ [])

def candidatePages (start : Bytes) : ℕ → Option Bytes → Finset Bytes → Bucket →
    Option (Except BackendError (Finset Bytes) × Bucket)
  | 0, _, _, _ => none
  | fuel + 1, token, candidates, b =>
    match listObjectsV2 svc (rolledUp start) token b with
    | (.error e, b) => some (.error e, b)
    | (.ok page, b) =>
      let candidates := candidates ∪ (pageUIDs start page.items).toFinset
      if page.truncated then candidatePages start fuel page.next candidates b else some (.ok candidates, b)

def candidates (storagePrefix : Bytes) (fuel : ℕ) (b : Bucket) : Option (Except BackendError (Finset Bytes) × Bucket) :=
  candidatePages svc (s3ArtifactsPrefix storagePrefix) fuel none ∅ b

/-! ### Deleting -/

/-- Nobody else writes under the prefix. -/
def Quiet (start : Bytes) : Prop := ∀ n keys k, start <+: k → k ∈ svc.others n keys → k ∈ keys

variable {svc} {start : Bytes}

theorem mem_underPrefix {keys : Finset Bytes} {k : Bytes} : k ∈ underPrefix start keys ↔ k ∈ keys ∧ start <+: k :=
  Finset.mem_filter

theorem arrive_subset (hquiet : Quiet svc start) (b : Bucket) :
    underPrefix start (b.arrive svc).keys ⊆ underPrefix start b.keys := by
  intro k hk
  obtain ⟨hmem, hstart⟩ := mem_underPrefix.1 hk
  exact mem_underPrefix.2 ⟨hquiet _ _ k hstart hmem, hstart⟩

theorem mem_remove {b : Bucket} {objects : List Bytes} {k : Bytes} :
    k ∈ (b.remove objects).keys ↔ k ∈ b.keys ∧ k ∉ objects := Finset.mem_filter

/-- What a sequence of requests for some objects does: nothing comes back under the prefix, nothing but the objects is
deleted, and success leaves none of them. -/
structure Deleted (start : Bytes) (objects : List Bytes) (b : Bucket) (r : Except BackendError Unit × Bucket) : Prop where
  shrinks : underPrefix start r.2.keys ⊆ underPrefix start b.keys
  only : ∀ k ∈ r.2.removed, k ∈ b.removed ∨ k ∈ objects
  gone : r.1 = .ok () → ∀ k ∈ objects, k ∉ underPrefix start r.2.keys

theorem deleted_of_remove (hquiet : Quiet svc start) {b : Bucket} {objects rest : List Bytes} {e : Except BackendError Unit}
    (hsub : ∀ k ∈ rest, k ∈ objects) (hok : e = .ok () → ∀ k ∈ objects, k ∈ rest) :
    Deleted start objects b (e, (b.arrive svc).remove rest) where
  shrinks := by
    intro k hk
    obtain ⟨hmem, hstart⟩ := mem_underPrefix.1 hk
    exact arrive_subset hquiet b (mem_underPrefix.2 ⟨(mem_remove.1 hmem).1, hstart⟩)
  only := by
    intro k hk
    exact (List.mem_append.1 hk).imp id (hsub k)
  gone := by
    intro he k hk hmem
    exact (mem_remove.1 (mem_underPrefix.1 hmem).1).2 (hok he k hk)

theorem requestDeletion_spec (hquiet : Quiet svc start) (batch : List Bytes) (b : Bucket) :
    Deleted start batch b (requestDeletion svc batch b) := by
  rw [requestDeletion]
  cases svc.deletion b.calls with
  | failed removed =>
    refine deleted_of_remove hquiet (fun k hk => (List.mem_filter.1 hk).1) ?_
    intro h
    cases h
  | answered kept =>
    refine deleted_of_remove hquiet (fun k hk => (List.mem_filter.1 hk).1) ?_
    intro h k hk
    -- without a named object nothing was kept
    have hnone : batch.filter kept = [] := by
      cases hkept : batch.filter kept with
      | nil => rfl
      | cons key keys => simp [hkept] at h
    have hkept := List.filter_eq_nil_iff.1 hnone k hk
    exact List.mem_filter.2 ⟨hk, by simpa using hkept⟩

theorem deleteBatches_spec (hquiet : Quiet svc start) (l : List (List Bytes)) (b : Bucket) :
    Deleted start l.flatten b (deleteBatches svc l b) := by
  induction l generalizing b with
  | nil => exact ⟨fun _ h => h, fun _ h => .inl h, fun _ _ h => absurd h List.not_mem_nil⟩
  | cons batch rest ih =>
    have hspec := requestDeletion_spec hquiet batch b
    rw [deleteBatches]
    match hreq : requestDeletion svc batch b with
    | (.error e, b') =>
      rw [hreq] at hspec
      refine ⟨hspec.shrinks, fun k hk => (hspec.only k hk).imp id fun h => ?_, fun h => by cases h⟩
      rw [List.flatten_cons]
      exact List.mem_append_left _ h
    | (.ok (), b') =>
      rw [hreq] at hspec
      have hrest := ih b'
      refine ⟨fun k hk => hspec.shrinks (hrest.shrinks hk), ?_, ?_⟩
      · intro k hk
        rw [List.flatten_cons, List.mem_append]
        rcases hrest.only k hk with h | h
        · exact (hspec.only k h).imp id .inl
        · exact .inr (.inr h)
      · intro hok k hk hmem
        rw [List.flatten_cons, List.mem_append] at hk
        rcases hk with hk | hk
        · exact hspec.gone rfl k hk (hrest.shrinks hmem)
        · exact hrest.gone hok k hk hmem

theorem deleteObjects_spec (hquiet : Quiet svc start) (objects : List Bytes) (b : Bucket) :
    Deleted start objects b (deleteObjects svc objects b) := by
  have hspec := deleteBatches_spec hquiet (batches deleteObjectsBatchSize objects.length objects) b
  rwa [flatten_batches (by decide) _ _ (Nat.le_refl _)] at hspec

/-- Up to the start key of the next page everything under the prefix is gone. -/
def Past (svc : Service) (start : Bytes) (token : Option Bytes) (b : Bucket) : Prop :=
  ∀ k ∈ underPrefix start b.keys, ∀ t ∈ token, svc.order.lt t k

/-- One turn of the loop: a page whose objects are deleted. -/
theorem deletePages_turn (hquiet : Quiet svc start) {token : Option Bytes} {b b' : Bucket} {n : ℕ}
    (hpast : Past svc start token b)
    (hdeleted : Deleted start (@page Bytes svc.order (svc.pageSize n) token (underPrefix start (b.arrive svc).keys)).items
      (b.arrive svc) (.ok (), b')) :
    ((@page Bytes svc.order (svc.pageSize n) token (underPrefix start (b.arrive svc).keys)).truncated = false →
      underPrefix start b'.keys = ∅)
    ∧ ((@page Bytes svc.order (svc.pageSize n) token (underPrefix start (b.arrive svc).keys)).truncated = true →
      ∃ t, (@page Bytes svc.order (svc.pageSize n) token (underPrefix start (b.arrive svc).keys)).next = some t
        ∧ Past svc start (some t) b'
        ∧ (@after Bytes svc.order (some t) (underPrefix start b'.keys)).card
          < (@after Bytes svc.order token (underPrefix start b.keys)).card) := by
  let := svc.order
  have hleft : ∀ k ∈ underPrefix start b'.keys, k ∈ after token (underPrefix start (b.arrive svc).keys) := by
    intro k hk
    have hk' := hdeleted.shrinks hk
    exact mem_after.2 ⟨hk', hpast k (arrive_subset hquiet b hk')⟩
  constructor
  · intro hlast
    rw [Finset.eq_empty_iff_forall_notMem]
    intro k hk
    exact hdeleted.gone rfl k (mem_items_of_not_truncated hlast (hleft k hk)) hk
  · intro htruncated
    obtain ⟨t, hnext, ht, hupto⟩ := exists_next_of_truncated (svc.pageSize_pos n) htruncated
    refine ⟨t, hnext, ?_, ?_⟩
    · rintro k hk _ ⟨⟩
      rcases lt_or_ge t k with hlt | hge
      · exact hlt
      · exact absurd hk (hdeleted.gone rfl k (hupto k (hleft k hk) hge))
    · have ht' : t ∈ after token (underPrefix start b.keys) := by
        obtain ⟨hmem, hlt⟩ := mem_after.1 ht
        exact mem_after.2 ⟨arrive_subset hquiet b hmem, hlt⟩
      exact card_after_lt ht' fun k hk => arrive_subset hquiet b (hdeleted.shrinks hk)

theorem deletePages_spec (hquiet : Quiet svc start) {fuel : ℕ} {token : Option Bytes} {b : Bucket}
    {r : Except BackendError Unit × Bucket} (hpast : Past svc start token b) (h : deletePages svc start fuel token b = some r) :
    (∀ k ∈ r.2.removed, k ∈ b.removed ∨ start <+: k) ∧ (r.1 = .ok () → underPrefix start r.2.keys = ∅) := by
  induction fuel generalizing token b with
  | zero => cases h
  | succ fuel ih =>
    rw [deletePages, listObjectsV2] at h
    by_cases hfails : svc.listFails b.calls = true
    · rw [if_pos hfails] at h
      cases h
      exact ⟨fun k hk => .inl hk, fun h => by cases h⟩
    · rw [if_neg hfails] at h
      simp only at h
      generalize hpage : @page Bytes svc.order (svc.pageSize b.calls) token (underPrefix start (b.arrive svc).keys) = pg at h
      have hdeleted := deleteObjects_spec hquiet pg.items (b.arrive svc)
      have hitems : ∀ k ∈ pg.items, start <+: k := by
        intro k hk
        rw [← hpage] at hk
        let := svc.order
        exact (mem_underPrefix.1 (mem_after.1 (mem_after_of_mem_items hk)).1).2
      have honly : ∀ k ∈ (deleteObjects svc pg.items (b.arrive svc)).2.removed, k ∈ b.removed ∨ start <+: k :=
        fun k hk => (hdeleted.only k hk).imp id (hitems k)
      match hobjects : deleteObjects svc pg.items (b.arrive svc) with
      | (.error e, b') =>
        rw [hobjects] at h honly
        cases h
        exact ⟨honly, fun h => by cases h⟩
      | (.ok (), b') =>
        rw [hobjects] at h honly hdeleted
        subst hpage
        obtain ⟨hlast, hmore⟩ := deletePages_turn hquiet hpast hdeleted
        simp only at h
        by_cases htruncated :
            (@page Bytes svc.order (svc.pageSize b.calls) token (underPrefix start (b.arrive svc).keys)).truncated = true
        · rw [if_pos htruncated] at h
          obtain ⟨t, hnext, hpast', -⟩ := hmore htruncated
          rw [hnext] at h
          obtain ⟨hrest, hgone⟩ := ih hpast' h
          exact ⟨fun k hk => (hrest k hk).elim (honly k) .inr, hgone⟩
        · rw [if_neg htruncated] at h
          cases h
          exact ⟨honly, fun _ => hlast (Bool.not_eq_true _ ▸ htruncated)⟩

/-- There are no more pages than keys. -/
theorem deletePages_returns (hquiet : Quiet svc start) {fuel : ℕ} {token : Option Bytes} {b : Bucket}
    (hpast : Past svc start token b) (hfuel : (@after Bytes svc.order token (underPrefix start b.keys)).card < fuel) :
    ∃ r, deletePages svc start fuel token b = some r := by
  induction fuel generalizing token b with
  | zero => omega
  | succ fuel ih =>
    rw [deletePages, listObjectsV2]
    by_cases hfails : svc.listFails b.calls = true
    · rw [if_pos hfails]
      exact ⟨_, rfl⟩
    · rw [if_neg hfails]
      simp only
      generalize hpage : @page Bytes svc.order (svc.pageSize b.calls) token (underPrefix start (b.arrive svc).keys) = pg
      have hdeleted := deleteObjects_spec hquiet pg.items (b.arrive svc)
      match hobjects : deleteObjects svc pg.items (b.arrive svc) with
      | (.error e, b') => exact ⟨_, rfl⟩
      | (.ok (), b') =>
        rw [hobjects] at hdeleted
        subst hpage
        by_cases htruncated :
            (@page Bytes svc.order (svc.pageSize b.calls) token (underPrefix start (b.arrive svc).keys)).truncated = true
        · obtain ⟨t, hnext, hpast', hcard⟩ := (deletePages_turn hquiet hpast hdeleted).2 htruncated
          simp only [if_pos htruncated, hnext]
          exact ih hpast' (by omega)
        · simp only [if_neg htruncated]
          exact ⟨_, rfl⟩

/-! ### Listing the contents -/

/-- Nobody writes or deletes under the prefix. -/
def Still (svc : Service) (start : Bytes) : Prop := ∀ n keys k, start <+: k → (k ∈ svc.others n keys ↔ k ∈ keys)

theorem rolledUp_arrive (hstill : Still svc start) (b : Bucket) :
    rolledUp start (b.arrive svc).keys = rolledUp start b.keys := by
  rw [rolledUp, rolledUp]
  congr 1
  ext k
  rw [mem_underPrefix, mem_underPrefix]
  constructor
  · rintro ⟨hk, hstart⟩
    exact ⟨(hstill _ _ k hstart).1 hk, hstart⟩
  · rintro ⟨hk, hstart⟩
    exact ⟨(hstill _ _ k hstart).2 hk, hstart⟩

/-- The UID that a shown item names, if any. -/
def Names (start item uid : Bytes) : Prop :=
  uid ≠ [] ∧ isCommonPrefix start item = true ∧ trimSuffix [sep] (trimPrefix start item) = uid

theorem mem_pageUIDs {items : List Bytes} {uid : Bytes} :
    uid ∈ pageUIDs start items ↔ ∃ item ∈ items, Names start item uid := by
  simp only [pageUIDs, List.mem_filter, List.mem_map, decide_eq_true_eq, Names]
  constructor
  · rintro ⟨⟨item, ⟨hmem, hcommon⟩, rfl⟩, hne⟩
    exact ⟨item, hmem, hne, hcommon, rfl⟩
  · rintro ⟨item, hmem, hne, hcommon, rfl⟩
    exact ⟨⟨item, ⟨hmem, hcommon⟩, rfl⟩, hne⟩

theorem candidatePages_spec (hstill : Still svc start) {fuel : ℕ} {token : Option Bytes} {found r : Finset Bytes}
    {b b' : Bucket} (h : candidatePages svc start fuel token found b = some (.ok r, b')) (uid : Bytes) :
    uid ∈ r ↔ uid ∈ found ∨ ∃ item ∈ @after Bytes svc.order token (rolledUp start b.keys), Names start item uid := by
  let := svc.order
  induction fuel generalizing token found b with
  | zero => cases h
  | succ fuel ih =>
    rw [candidatePages, listObjectsV2] at h
    by_cases hfails : svc.listFails b.calls = true
    · rw [if_pos hfails] at h
      cases h
    · rw [if_neg hfails, rolledUp_arrive hstill] at h
      simp only at h
      generalize hpage : page (svc.pageSize b.calls) token (rolledUp start b.keys) = pg at h
      have hitems : ∀ k ∈ pg.items, k ∈ after token (rolledUp start b.keys) := by
        intro k hk
        rw [← hpage] at hk
        exact mem_after_of_mem_items hk
      have hmem : ∀ {uid}, uid ∈ found ∪ (pageUIDs start pg.items).toFinset
          ↔ uid ∈ found ∨ ∃ item ∈ pg.items, Names start item uid := by
        intro uid
        rw [Finset.mem_union, List.mem_toFinset, mem_pageUIDs]
      by_cases htruncated : pg.truncated = true
      · rw [if_pos htruncated] at h
        subst hpage
        obtain ⟨t, hnext, ht, hupto⟩ := exists_next_of_truncated (svc.pageSize_pos _) htruncated
        rw [hnext] at h
        refine (ih h).trans ?_
        rw [hmem, rolledUp_arrive hstill]
        constructor
        · rintro ((hfound | ⟨item, hitem, hnames⟩) | ⟨item, hitem, hnames⟩)
          · exact .inl hfound
          · exact .inr ⟨item, hitems item hitem, hnames⟩
          · obtain ⟨hitem, hlt⟩ := mem_after.1 hitem
            exact .inr ⟨item, mem_after.2 ⟨hitem, fun s hs => lt_trans ((mem_after.1 ht).2 s hs) (hlt t rfl)⟩, hnames⟩
        · rintro (hfound | ⟨item, hitem, hnames⟩)
          · exact .inl (.inl hfound)
          · rcases le_or_gt item t with hle | hgt
            · exact .inl (.inr ⟨item, hupto item hitem hle, hnames⟩)
            · refine .inr ⟨item, mem_after.2 ⟨(mem_after.1 hitem).1, ?_⟩, hnames⟩
              rintro _ ⟨⟩
              exact hgt
      · rw [if_neg htruncated] at h
        cases h
        rw [hmem]
        subst hpage
        have hall := fun k => mem_items_of_not_truncated (k := k) (Bool.not_eq_true _ ▸ htruncated)
        constructor
        · rintro (hfound | ⟨item, hitem, hnames⟩)
          · exact .inl hfound
          · exact .inr ⟨item, hitems item hitem, hnames⟩
        · rintro (hfound | ⟨item, hitem, hnames⟩)
          · exact .inl hfound
          · exact .inr ⟨item, hall item hitem, hnames⟩

theorem candidatePages_returns (hstill : Still svc start) {fuel : ℕ} {token : Option Bytes} {found : Finset Bytes}
    {b : Bucket} (hfuel : (@after Bytes svc.order token (rolledUp start b.keys)).card < fuel) :
    ∃ r b', candidatePages svc start fuel token found b = some (r, b')
      ∧ ((∀ n, svc.listFails n = false) → ∃ uids, r = .ok uids) := by
  let := svc.order
  induction fuel generalizing token found b with
  | zero => omega
  | succ fuel ih =>
    rw [candidatePages, listObjectsV2]
    by_cases hfails : svc.listFails b.calls = true
    · rw [if_pos hfails]
      refine ⟨_, _, rfl, fun hnever => ?_⟩
      rw [hnever] at hfails
      cases hfails
    · rw [if_neg hfails, rolledUp_arrive hstill]
      simp only
      by_cases htruncated : (page (svc.pageSize b.calls) token (rolledUp start b.keys)).truncated = true
      · obtain ⟨t, hnext, ht, -⟩ := exists_next_of_truncated (svc.pageSize_pos _) htruncated
        rw [if_pos htruncated, hnext]
        refine ih ?_
        rw [rolledUp_arrive hstill]
        have := card_after_lt ht (Finset.Subset.refl (rolledUp start b.keys))
        omega
      · rw [if_neg htruncated]
        exact ⟨_, _, rfl, fun _ => ⟨_, rfl⟩⟩

/-! ### What a common prefix names -/

theorem takeWhile_terminated {u : Bytes} (hu : sep ∉ u) (t : Bytes) : (u ++ sep :: t).takeWhile (· != sep) = u := by
  rw [List.takeWhile_append_of_pos]
  · simp
  · intro b hb
    simpa using fun h : b = sep => hu (h ▸ hb)

theorem rollUp_terminated {u : Bytes} (hu : sep ∉ u) (t : Bytes) :
    rollUp start (start ++ (u ++ sep :: t)) = start ++ (u ++ [sep]) := by
  rw [rollUp, List.drop_left, if_pos (by simp), takeWhile_terminated hu, List.append_assoc]

theorem names_terminated {u uid : Bytes} : Names start (start ++ (u ++ [sep])) uid ↔ uid ≠ [] ∧ u = uid := by
  have htrim : trimSuffix [sep] (trimPrefix start (start ++ (u ++ [sep]))) = u := by
    rw [trimPrefix, if_pos (List.prefix_append _ _), List.drop_left, trimSuffix, if_pos (List.suffix_append _ _)]
    simp
  rw [Names, htrim, isCommonPrefix, List.drop_left]
  simp

/-- A shown item names a UID exactly if it stands for a key under that UID. -/
theorem names_rollUp {rest uid : Bytes} : Names start (rollUp start (start ++ rest)) uid
    ↔ uid ≠ [] ∧ sep ∉ uid ∧ uid ++ [sep] <+: rest := by
  by_cases hsep : sep ∈ rest
  · obtain ⟨u, t, rfl, hu⟩ := List.eq_append_cons_of_mem hsep
    rw [rollUp_terminated hu, names_terminated]
    constructor
    · rintro ⟨hne, rfl⟩
      exact ⟨hne, hu, t, by simp⟩
    · rintro ⟨hne, huid, s, hs⟩
      rw [List.append_assoc, List.singleton_append] at hs
      have := congrArg (List.takeWhile (· != sep)) hs
      rw [takeWhile_terminated huid, takeWhile_terminated hu] at this
      exact ⟨hne, this.symm⟩
  · constructor
    · rintro ⟨-, hcommon, -⟩
      rw [rollUp, List.drop_left] at hcommon
      simp only [if_neg hsep] at hcommon
      rw [isCommonPrefix, List.drop_left] at hcommon
      simp [hsep] at hcommon
    · rintro ⟨-, -, t, rfl⟩
      simp at hsep

theorem exists_names_iff {keys : Finset Bytes} {uid : Bytes} : (∃ item ∈ rolledUp start keys, Names start item uid)
    ↔ uid ≠ [] ∧ sep ∉ uid ∧ ∃ k ∈ keys, start ++ uid ++ [sep] <+: k := by
  simp only [rolledUp, Finset.mem_image]
  constructor
  · rintro ⟨_, ⟨k, hk, rfl⟩, hnames⟩
    obtain ⟨hk, rest, rfl⟩ := mem_underPrefix.1 hk
    obtain ⟨hne, huid, hrest⟩ := names_rollUp.1 hnames
    refine ⟨hne, huid, _, hk, ?_⟩
    rw [List.append_assoc]
    exact (List.prefix_append_right_inj start).2 hrest
  · rintro ⟨hne, huid, k, hk, t, rfl⟩
    rw [List.append_assoc, List.append_assoc] at hk
    refine ⟨_, ⟨_, mem_underPrefix.2 ⟨hk, List.prefix_append _ _⟩, rfl⟩, names_rollUp.2 ⟨hne, huid, t, ?_⟩⟩
    rw [List.append_assoc]

/-! ### The two programs' prefixes -/

theorem trimSlashes_eq {p : Path} (hp : ∀ c ∈ p, IsName c) (hne : p ≠ []) :
    trimSlashes ([sep].intercalate p) = [sep].intercalate p := by
  have hhead : ([sep].intercalate p).head? ≠ some sep := by
    have := LexicalPath.rooted_intercalate fun c hc => ⟨(hp c hc).1, (hp c hc).2.2.2⟩
    simpa [LexicalPath.rooted] using this
  have hlast := (keyComponents_intercalate hp hne).2
  have hkeep : ∀ {s : Bytes}, s.head? ≠ some sep → s.dropWhile (· == sep) = s := by
    intro s hs
    cases s with
    | nil => rfl
    | cons b s =>
      rw [List.dropWhile_cons_of_neg]
      simpa using hs
  rw [trimSlashes, hkeep hhead, hkeep (by rwa [List.head?_reverse]), List.reverse_reverse]

/-- Both programs look under the same prefix for artifacts. -/
theorem s3ArtifactsPrefix_eq {storagePrefix : Bytes} (hvalid : isValidStoragePrefix storagePrefix = true) :
    s3ArtifactsPrefix storagePrefix = keyPrefix storagePrefix ++ kArtifactsPrefix := by
  have hliteral : kArtifactsPrefix = literal "artifacts" ++ [sep] := by decide
  rw [s3ArtifactsPrefix, hliteral, ← List.append_assoc]
  congr 1
  by_cases hnil : storagePrefix = []
  · subst hnil
    decide
  · have hnames : ∀ c ∈ LexicalPath.split storagePrefix, IsName c := by
      intro c hc
      refine isName_prefixNames hvalid ?_
      rwa [prefixNames, if_neg hnil]
    have hsplit : [sep].intercalate (LexicalPath.split storagePrefix) = storagePrefix := List.intercalate_splitOn sep
    have hne : LexicalPath.split storagePrefix ≠ [] := List.splitOn_ne_nil _ _
    have htrim := trimSlashes_eq hnames hne
    rw [hsplit] at htrim
    have hroot : LexicalPath.rooted storagePrefix = false := by
      rw [← hsplit]
      exact LexicalPath.rooted_intercalate fun c hc => ⟨(hnames c hc).1, (hnames c hc).2.2.2⟩
    have hsplit' : LexicalPath.split (storagePrefix ++ sep :: literal "artifacts")
        = LexicalPath.split storagePrefix ++ [literal "artifacts"] := by
      rw [LexicalPath.split_append, LexicalPath.split_of_not_mem (s := literal "artifacts") (by decide)]
    have hall : ∀ c ∈ LexicalPath.split storagePrefix ++ [literal "artifacts"], IsName c := by
      intro c hc
      rcases List.mem_append.1 hc with hc | hc
      · exact hnames c hc
      · rw [List.mem_singleton.1 hc]
        decide
    rw [htrim, LexicalPath.join_eq hnil, LexicalPath.clean, LexicalPath.rooted_append hnil, hroot, LexicalPath.comps,
      LexicalPath.rooted_append hnil, hroot, hsplit', LexicalPath.reduce, LexicalPath.follow_names hall, List.nil_append,
      LexicalPath.render, if_neg Bool.false_ne_true, if_neg (by simp),
      LexicalPath.intercalate_append hne (List.cons_ne_nil _ _), hsplit, List.intercalate_singleton,
      keyPrefix, if_neg hnil, List.append_assoc, List.singleton_append]

/-- A key that PageBroker writes for an artifact UID: a container's index or one of its payload files. -/
def WrittenFor (storagePrefix uid key : Bytes) : Prop :=
  ∃ container, validateArtifactIdentity uid container = .ok ()
    ∧ (key = objectKey storagePrefix (artifactHandle uid container) kCheckpointIndexName
      ∨ ∃ file, key = objectKey storagePrefix (artifactHandle uid container) (kPayloadPrefix ++ file))

theorem writtenFor_shape {storagePrefix uid key : Bytes} (hvalid : isValidStoragePrefix storagePrefix = true)
    (h : WrittenFor storagePrefix uid key) : sep ∉ uid ∧ uid ≠ [] ∧ ∃ rest, key = s3ArtifactsPrefix storagePrefix ++ (uid ++ sep :: rest) := by
  obtain ⟨container, haccepted, hkey⟩ := h
  have hname := isName_uid haccepted
  have hcomponent : kContainersComponent = sep :: literal "containers/" := by decide
  have hshape : ∀ file, objectKey storagePrefix (artifactHandle uid container) file
      = s3ArtifactsPrefix storagePrefix ++ (uid ++ sep :: (literal "containers/" ++ container ++ [sep] ++ file)) := by
    intro file
    rw [s3ArtifactsPrefix_eq hvalid, objectKey, artifactHandle, hcomponent]
    simp only [List.append_assoc, List.cons_append]
  refine ⟨hname.2.2.2, hname.1, ?_⟩
  rcases hkey with rfl | ⟨file, rfl⟩
  · exact ⟨_, hshape _⟩
  · exact ⟨_, hshape _⟩

theorem contentPrefix_isPrefix_iff {storagePrefix uid uid' rest : Bytes} (huid : sep ∉ uid) (huid' : sep ∉ uid') :
    contentPrefix storagePrefix uid <+: s3ArtifactsPrefix storagePrefix ++ (uid' ++ sep :: rest) ↔ uid = uid' := by
  rw [contentPrefix, List.append_assoc, List.prefix_append_right_inj]
  constructor
  · rintro ⟨t, ht⟩
    rw [List.append_assoc, List.singleton_append] at ht
    have := congrArg (List.takeWhile (· != sep)) ht
    rwa [takeWhile_terminated huid, takeWhile_terminated huid'] at this
  · rintro rfl
    exact ⟨rest, by simp⟩

/-- The operator finds PageBroker's keys. What is written for a content is under the prefix that `Delete` lists for it
and under no other; `Candidates` names the contents that own a key; and `Delete` returns, leaves nothing of the content
when it succeeds, and deletes nothing else. -/
theorem s3_layout_shared (storagePrefix : Bytes) (hvalid : isValidStoragePrefix storagePrefix = true) :
    (∀ uid key, WrittenFor storagePrefix uid key → contentPrefix storagePrefix uid <+: key)
    ∧ (∀ uid uid' container key, validateArtifactIdentity uid container = .ok () → WrittenFor storagePrefix uid' key →
      uid' ≠ uid → ¬contentPrefix storagePrefix uid <+: key)
    ∧ (∀ (svc : Service) (b : Bucket), Still svc (s3ArtifactsPrefix storagePrefix) →
      (∀ k ∈ b.keys, s3ArtifactsPrefix storagePrefix <+: k → ∃ uid, WrittenFor storagePrefix uid k) →
      ∀ fuel, (rolledUp (s3ArtifactsPrefix storagePrefix) b.keys).card < fuel →
        ∃ r b', candidates svc storagePrefix fuel b = some (r, b') ∧ ((∀ n, svc.listFails n = false) → ∃ uids, r = .ok uids)
          ∧ ∀ uids, r = .ok uids → ∀ uid, uid ∈ uids ↔ ∃ key ∈ b.keys, WrittenFor storagePrefix uid key)
    ∧ (∀ (svc : Service) (b : Bucket) uid, Quiet svc (contentPrefix storagePrefix uid) → b.removed = [] →
      ∀ fuel, (underPrefix (contentPrefix storagePrefix uid) b.keys).card < fuel →
        ∃ r b', delete svc storagePrefix uid fuel b = some (r, b')
          ∧ (r = .ok () → ∀ k ∈ b'.keys, ¬contentPrefix storagePrefix uid <+: k)
          ∧ ∀ k ∈ b'.removed, contentPrefix storagePrefix uid <+: k) := by
  refine ⟨?_, ?_, ?_, ?_⟩
  · intro uid key h
    obtain ⟨huid, -, rest, rfl⟩ := writtenFor_shape hvalid h
    exact (contentPrefix_isPrefix_iff huid huid).2 rfl
  · intro uid uid' container key haccepted h hne hinitial
    obtain ⟨huid', -, rest, rfl⟩ := writtenFor_shape hvalid h
    exact hne ((contentPrefix_isPrefix_iff (isName_uid haccepted).2.2.2 huid').1 hinitial).symm
  · intro svc b hstill hwritten fuel hfuel
    let := svc.order
    have hnone : after none (rolledUp (s3ArtifactsPrefix storagePrefix) b.keys)
        = rolledUp (s3ArtifactsPrefix storagePrefix) b.keys := by
      ext k
      simp [mem_after]
    obtain ⟨r, b', hreturns, hok⟩ : ∃ r b', candidates svc storagePrefix fuel b = some (r, b')
        ∧ ((∀ n, svc.listFails n = false) → ∃ uids, r = .ok uids) :=
      candidatePages_returns hstill (by rwa [hnone])
    refine ⟨r, b', hreturns, hok, ?_⟩
    rintro uids rfl uid
    rw [candidatePages_spec hstill hreturns uid, hnone, exists_names_iff]
    constructor
    · rintro (h | ⟨-, huid, k, hk, hstart⟩)
      · exact absurd h (Finset.notMem_empty uid)
      · rw [← contentPrefix] at hstart
        obtain ⟨uid', h'⟩ := hwritten k hk ((List.prefix_append _ _).trans (by rwa [contentPrefix, List.append_assoc] at hstart))
        obtain ⟨huid', -, rest, rfl⟩ := writtenFor_shape hvalid h'
        obtain rfl := (contentPrefix_isPrefix_iff huid huid').1 hstart
        exact ⟨_, hk, h'⟩
    · rintro ⟨key, hk, h⟩
      obtain ⟨huid, hne, rest, rfl⟩ := writtenFor_shape hvalid h
      exact .inr ⟨hne, huid, _, hk, (contentPrefix_isPrefix_iff huid huid).2 rfl⟩
  · intro svc b uid hquiet hfresh fuel hfuel
    have hpast : Past svc (contentPrefix storagePrefix uid) none b := by
      intro k _ t ht
      cases ht
    have hle : (@after Bytes svc.order none (underPrefix (contentPrefix storagePrefix uid) b.keys)).card < fuel :=
      lt_of_le_of_lt (Finset.card_filter_le _ _) hfuel
    obtain ⟨⟨r, b'⟩, hreturns⟩ := deletePages_returns hquiet hpast hle
    obtain ⟨honly, hgone⟩ := deletePages_spec hquiet hpast hreturns
    refine ⟨r, b', hreturns, ?_, ?_⟩
    · intro hok k hk hstart
      have := mem_underPrefix.2 ⟨hk, hstart⟩
      rw [hgone hok] at this
      exact Finset.notMem_empty k this
    · intro k hk
      rcases honly k hk with h | h
      · rw [hfresh] at h
        cases h
      · exact h

theorem s3_layout_sample : contentPrefix (literal "team/models") (literal "7f3a")
    <+: objectKey (literal "team/models") (artifactHandle (literal "7f3a") (literal "main")) kCheckpointIndexName :=
  (s3_layout_shared (literal "team/models") (by decide +kernel)).1 _ _ ⟨literal "main", by decide +kernel, .inl rfl⟩

end S3Maintenance
