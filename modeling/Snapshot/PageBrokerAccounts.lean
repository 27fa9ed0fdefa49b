import Mathlib.Algebra.Ring.Nat
import Mathlib.Algebra.BigOperators.Group.Finset.Basic
import Snapshot.PageBrokerTransaction

/-! The admission accounting of PageBroker: the counters of the shared resources are the sums of what
each transaction holds, and every destination has one owner. Each method of a transaction moves the
counters by what it changes of the transaction. -/
namespace PageBroker

/-! ## What an object holds -/

def shareOf (a : Option Transaction) : ℕ := a.elim 0 Transaction.share

def holdsOf (a : Option Transaction) : ℕ := if a.any Transaction.holds then 1 else 0

def destinationOf (a : Option Transaction) : Option String := a.bind Transaction.destination

/-- The counters are within the limits, and no subtraction has wrapped. -/
structure Bounded (r : Resources) : Prop where
  bytes : r.reserved ≤ r.byteLimit
  transactions : r.active ≤ r.transactionLimit
  wrapped : r.wrapped = false

/-- The counters and destinations include those of the object. -/
structure Fits (r : Resources) (a : Option Transaction) : Prop where
  bounded : Bounded r
  share : shareOf a ≤ r.reserved.toNat
  active : holdsOf a ≤ r.active.toNat
  destination : ∀ h, destinationOf a = some h → h ∈ r.destinations

/-- When one object becomes another, counters and destinations change accordingly. -/
structure Adjusts (r : Resources) (a : Option Transaction) (r' : Resources) (b : Option Transaction) : Prop where
  bounded : Bounded r'
  reserved : r'.reserved.toNat + shareOf a = r.reserved.toNat + shareOf b
  active : r'.active.toNat + holdsOf a = r.active.toNat + holdsOf b
  destinations : ∀ h, h ∈ r'.destinations ↔
    (h ∈ r.destinations ∧ destinationOf a ≠ some h) ∨ destinationOf b = some h
  claimed : ∀ h, destinationOf b = some h → destinationOf a = some h ∨ h ∉ r.destinations

section Methods

variable {r r' : Resources} {x y : Transaction} {a b : Option Transaction}

/-- Nothing that counts changes. -/
theorem Fits.unchanged (h : Fits r a) (hshare : shareOf b = shareOf a) (hholds : holdsOf b = holdsOf a)
    (hdestination : destinationOf b = destinationOf a) : Adjusts r a r b := by
  refine ⟨h.bounded, by rw [hshare], by rw [hholds], fun handle => ?_, fun handle hb => ?_⟩
  · rw [hdestination]
    constructor
    · intro hmem
      by_cases ha : destinationOf a = some handle
      · exact .inr ha
      · exact .inl ⟨hmem, ha⟩
    · rintro (⟨hmem, _⟩ | ha)
      · exact hmem
      · exact h.destination handle ha
  · exact .inl (hdestination ▸ hb)

/-- Fields of a transaction that do not count. -/
theorem Fits.same (h : Fits r (some x)) (hresources : y.resources = x.resources) (hreserved : y.reserved = x.reserved)
    (hreleased : y.released = x.released)
    (hpublication : y.publication.map Publication.artifact = x.publication.map Publication.artifact) :
    Adjusts r (some x) r (some y) := by
  have hholds : y.holds = x.holds := by rw [Transaction.holds, Transaction.holds, hresources, hreleased]
  refine h.unchanged ?_ ?_ ?_
  · simp [shareOf, Transaction.share, hholds, hreserved]
  · simp [holdsOf, hholds]
  · simp [destinationOf, Transaction.destination, hresources, hpublication]

/-- Giving up a destination. -/
theorem Fits.abandon (h : Fits r (some x)) {handle : String} (hx : x.destination = some handle)
    (hshare : shareOf b = x.share) (hholds : holdsOf b = holdsOf (some x)) (hb : destinationOf b = none) :
    Adjusts r (some x) { r with destinations := r.destinations.erase handle } b := by
  refine ⟨⟨h.bounded.bytes, h.bounded.transactions, h.bounded.wrapped⟩, ?_, by rw [hholds], fun h' => ?_, fun h' hb' => ?_⟩
  · rw [hshare]
    rfl
  · rw [hb, show destinationOf (some x) = some handle from hx, Finset.mem_erase]
    constructor
    · rintro ⟨hne, hmem⟩
      exact .inl ⟨hmem, by simpa using hne.symm⟩
    · rintro (⟨hmem, hne⟩ | hnone)
      · exact ⟨by simpa using Ne.symm hne, hmem⟩
      · cases hnone
  · rw [hb] at hb'
    cases hb'

theorem adjusts_releaseAbortedDestination (h : Fits r (some x)) :
    Adjusts r (some x) (releaseAbortedDestination r x).1 (some (releaseAbortedDestination r x).2) := by
  simp only [releaseAbortedDestination]
  cases hp : x.publication with
  | none => exact h.unchanged rfl rfl rfl
  | some p =>
    dsimp only
    split
    · exact h.unchanged rfl rfl rfl
    · rename_i hcond
      simp only [Bool.or_eq_true, not_or, Bool.not_eq_true, Bool.not_eq_false'] at hcond
      refine h.abandon ?_ rfl rfl ?_
      · simp [Transaction.destination, hcond.2, hp]
      · simp [destinationOf, Transaction.destination]

theorem adjusts_change (h : Fits r (some x)) (c : Change) :
    Adjusts r (some x) (c.apply r x).1 (some (c.apply r x).2) := by
  -- the object as it is when `ReleaseAbortedDestination` looks at it counts the same
  have key : ∀ y : Transaction, y.resources = x.resources → y.reserved = x.reserved → y.released = x.released →
      y.publication = x.publication →
      Adjusts r (some x) (releaseAbortedDestination r y).1 (some (releaseAbortedDestination r y).2) := by
    intro y h₁ h₂ h₃ h₄
    have hshare : shareOf (some y) = shareOf (some x) := by
      simp [shareOf, Transaction.share, Transaction.holds, h₁, h₂, h₃]
    have hholds : holdsOf (some y) = holdsOf (some x) := by simp [holdsOf, Transaction.holds, h₁, h₃]
    have hdestination : destinationOf (some y) = destinationOf (some x) := by
      simp [destinationOf, Transaction.destination, h₁, h₄]
    have hy : Fits r (some y) := ⟨h.bounded, hshare ▸ h.share, hholds ▸ h.active, hdestination ▸ h.destination⟩
    obtain ⟨hbounded, hreserved, hactive, hdestinations, hclaimed⟩ := adjusts_releaseAbortedDestination hy
    exact ⟨hbounded, hshare ▸ hreserved, hholds ▸ hactive, hdestination ▸ hdestinations, hdestination ▸ hclaimed⟩
  cases c with
  | setState | expire | clearDirectory => exact key _ rfl rfl rfl rfl
  | ownDirectory | setDescriptor | retain | setGpu => exact h.same rfl rfl rfl rfl
  | keepIndex | publish | dropIndex =>
    refine h.same rfl rfl rfl ?_
    simp [Change.apply, Transaction.updatePublication, Option.map_map, Function.comp_def]

theorem toNat_sub_of_le {a b : UInt64} (h : b ≤ a) : (a - b).toNat = a.toNat - b.toNat :=
  UInt64.toNat_sub_of_le a b h

/-- What is left below the limit can be reserved without overflow. -/
theorem reserved_add {limit reserved bytes : UInt64} (hle : reserved ≤ limit) (hbytes : bytes ≤ limit - reserved) :
    (reserved + bytes).toNat = reserved.toNat + bytes.toNat ∧ reserved + bytes ≤ limit := by
  have hsub := toNat_sub_of_le hle
  rw [UInt64.le_iff_toNat_le] at hle hbytes
  have hlimit := limit.toNat_lt
  have hadd : (reserved + bytes).toNat = reserved.toNat + bytes.toNat := by
    rw [UInt64.toNat_add, Nat.mod_eq_of_lt (by omega)]
  refine ⟨hadd, ?_⟩
  rw [UInt64.le_iff_toNat_le]
  omega

/-- An object that has not been prepared. -/
structure Fresh (x : Transaction) : Prop where
  resources : x.resources = false
  released : x.released = false
  publication : x.publication = none

theorem adjusts_prepareTransfer (h : Fits r (some x)) (hx : Fresh x) (resources : Bool) (bytes : UInt64)
    (artifact : Option String) (fault : Option Error) :
    Adjusts r (some x) (prepareTransfer r x resources bytes artifact fault).2.1
      (some (prepareTransfer r x resources bytes artifact fault).2.2) := by
  have hidle : ∀ y : Transaction, y.resources = false → y.released = false → Adjusts r (some x) r (some y) := by
    intro y hy _
    refine h.unchanged ?_ ?_ ?_
    · simp [shareOf, Transaction.share, Transaction.holds, hy, hx.resources]
    · simp [holdsOf, Transaction.holds, hy, hx.resources]
    · simp [destinationOf, Transaction.destination, hy, hx.resources]
  have hannounced : ∀ handle, ({ x with deadline := true }.announce handle).resources = false ∧
      ({ x with deadline := true }.announce handle).released = false := by
    intro handle
    cases handle <;> exact ⟨hx.resources, hx.released⟩
  simp only [prepareTransfer]
  split
  · exact hidle _ hx.resources hx.released
  · split
    · exact hidle _ (hannounced artifact).1 (hannounced artifact).2
    · split
      · exact hidle _ (hannounced artifact).1 (hannounced artifact).2
      · split
        · exact hidle _ (hannounced artifact).1 (hannounced artifact).2
        · rename_i hfull _ _ hconflict
          simp only [Resources.full, ge_iff_le, gt_iff_lt, Bool.or_eq_true, decide_eq_true_eq, not_or,
            UInt64.not_lt, UInt32.not_le, UInt64.not_le] at hfull
          obtain ⟨⟨hactive, hreserved⟩, hbytes⟩ := hfull
          obtain ⟨hsum, hle⟩ := reserved_add h.bounded.bytes hbytes
          have hcount : (r.active + 1).toNat = r.active.toNat + 1 := by
            rw [UInt32.toNat_add]
            have := r.transactionLimit.toNat_lt
            rw [UInt32.lt_iff_toNat_lt] at hactive
            exact Nat.mod_eq_of_lt (by simp; omega)
          have hshare : shareOf (some x) = 0 := by
            simp [shareOf, Transaction.share, Transaction.holds, hx.resources]
          have hholds : holdsOf (some x) = 0 := by simp [holdsOf, Transaction.holds, hx.resources]
          have hnone : destinationOf (some x) = none := by
            simp [destinationOf, Transaction.destination, hx.resources]
          have hnew := (hannounced artifact).2
          have hdest : destinationOf (some { ({ x with deadline := true }.announce artifact) with
              resources := true, reserved := bytes }) =
                ({ x with deadline := true }.announce artifact).publication.map Publication.artifact := by
            simp [destinationOf, Transaction.destination]
          refine ⟨⟨?_, ?_, h.bounded.wrapped⟩, ?_, ?_, fun handle => ?_, fun handle hhandle => ?_⟩
          · exact hle
          · rw [UInt32.lt_iff_toNat_lt] at hactive
            rw [UInt32.le_iff_toNat_le]
            simp only [Resources.occupy, hcount]
            omega
          · simp only [Resources.occupy, hsum, hshare]
            simp [shareOf, Transaction.share, Transaction.holds, hnew]
          · simp only [Resources.occupy, hcount, hholds]
            simp [holdsOf, Transaction.holds, hnew]
          · rw [hnone, hdest]
            cases hp : ({ x with deadline := true }.announce artifact).publication with
            | none => simp [Resources.occupy]
            | some p => simp [Resources.occupy, or_comm, eq_comm]
          · rw [hdest] at hhandle
            obtain ⟨p, hp, rfl⟩ := Option.map_eq_some_iff.1 hhandle
            rw [hp] at hconflict
            exact .inr (by simpa using hconflict)

theorem adjusts_reserve (h : Fits r (some x)) (hx : x.released = false) (bytes : UInt64) :
    Adjusts r (some x) (reserve r x bytes).2.1 (some (reserve r x bytes).2.2) := by
  simp only [reserve]
  split
  · exact h.unchanged rfl rfl rfl
  · rename_i hgrow
    simp only [Bool.or_eq_true, Bool.not_eq_true', decide_eq_true_eq, not_or, Bool.not_eq_false, UInt64.not_le]
      at hgrow
    obtain ⟨hresources, hmore⟩ := hgrow
    have hwrapped : (r.wrapped || decide (r.byteLimit < r.reserved)) = false := by
      simp [h.bounded.wrapped, UInt64.not_lt.2 h.bounded.bytes]
    have hholds : x.holds = true := by simp [Transaction.holds, hresources, hx]
    split
    · rw [hwrapped]
      have : ({ r with wrapped := false } : Resources) = r := by
        rw [← h.bounded.wrapped]
      rw [this]
      exact h.unchanged rfl rfl rfl
    · rename_i hfits
      have hfits : bytes - x.reserved ≤ r.byteLimit - r.reserved := UInt64.not_lt.1 hfits
      obtain ⟨hsum, hle⟩ := reserved_add h.bounded.bytes hfits
      refine ⟨⟨hle, h.bounded.transactions, hwrapped⟩, ?_, ?_, fun handle => ?_, fun handle hhandle => .inl hhandle⟩
      · have hsub := toNat_sub_of_le (UInt64.le_of_lt hmore)
        rw [UInt64.lt_iff_toNat_lt] at hmore
        have hy : ({ x with reserved := bytes } : Transaction).holds = true := hholds
        simp only [hsum, hsub, shareOf, Option.elim_some, Transaction.share, hholds, hy, if_true]
        omega
      · rfl
      · exact (h.unchanged (b := some x) rfl rfl rfl).destinations handle

theorem adjusts_releaseReservation (h : Fits r (some x)) :
    Adjusts r (some x) (releaseReservation r x).1 (some (releaseReservation r x).2) := by
  simp only [releaseReservation]
  split
  · exact h.unchanged rfl rfl rfl
  · rename_i hcond
    have hholds : x.holds = true := by
      simpa [Transaction.holds] using hcond
    have hshare := h.share
    have hactive := h.active
    simp only [shareOf, Option.elim_some, Transaction.share, hholds, if_true] at hshare
    simp only [holdsOf, Option.any_some, hholds, if_true] at hactive
    have hreserved : x.reserved ≤ r.reserved := UInt64.le_iff_toNat_le.2 hshare
    have hone : (1 : UInt32) ≤ r.active := UInt32.le_iff_toNat_le.2 (by simpa using hactive)
    have hsub := toNat_sub_of_le hreserved
    have hcount : (r.active - 1).toNat = r.active.toNat - 1 := by
      rw [UInt32.toNat_sub_of_le _ _ hone]
      rfl
    have hbytes := UInt64.le_iff_toNat_le.1 h.bounded.bytes
    have htransactions := UInt32.le_iff_toNat_le.1 h.bounded.transactions
    refine ⟨⟨?_, ?_, ?_⟩, ?_, ?_, fun handle => ?_, fun handle hhandle => .inl ?_⟩
    · dsimp only
      rw [UInt64.le_iff_toNat_le, hsub]
      omega
    · dsimp only
      rw [UInt32.le_iff_toNat_le, hcount]
      omega
    · simp [h.bounded.wrapped, UInt64.not_lt.2 hreserved, UInt32.not_lt.2 hone]
    · simp only [hsub, shareOf, Option.elim_some, Transaction.share, hholds, if_true]
      simp [Transaction.holds]
      omega
    · simp only [hcount, holdsOf, Option.any_some, hholds, if_true]
      simp [Transaction.holds]
      omega
    · exact (h.unchanged (b := some x) rfl rfl rfl).destinations handle
    · exact hhandle

/-- The end of a transaction that has released its reservation. -/
theorem adjusts_destroy (h : Fits r (some x)) (hx : x.holds = false) :
    Adjusts r (some x) (eraseDestination r x) none := by
  have hshare : x.share = 0 := by simp [Transaction.share, hx]
  have hholds : holdsOf (some x) = 0 := by simp [holdsOf, hx]
  have hidle : x.destination = none → Adjusts r (some x) r none := fun hnone =>
    h.unchanged hshare.symm hholds.symm hnone.symm
  simp only [eraseDestination]
  cases hp : x.publication with
  | none => exact hidle (by simp [Transaction.destination, hp])
  | some p =>
    dsimp only
    split
    · rename_i hresources
      exact h.abandon (by simp [Transaction.destination, hresources, hp]) hshare.symm hholds.symm rfl
    · rename_i hresources
      exact hidle (by simp [Transaction.destination, hresources])

end Methods

end PageBroker
