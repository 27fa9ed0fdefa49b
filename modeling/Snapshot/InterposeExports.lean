import Mathlib.Data.List.Perm.Subperm
import Mathlib.Logic.Relation
import Snapshot.InterposeRegistry

/-! The exports that a process keeps for its peers. A peer is answered from the cache alone, while intercepted
calls and checkpoint phases change the registry; the cache has to say what the registry would. -/
namespace Interpose

open Std (ExtTreeMap)

/-! ## The cache -/

def ProcessState.new (namespacePid : ℕ) : ProcessState :=
  ⟨namespacePid, ∅, ∅, ∅, ∅, ∅, ∅, fun _ => none, .active, fun _ => none, 0, 1, [], []⟩

def Kind.isUnicast : Kind → Bool
  | .unicast _ _ => true
  | .multicast _ => false

def Kind.isEmpty : Kind → Bool
  | .unicast size _ => size = 0
  | .multicast _ => false

def Memblock.usesHostCarrier (b : Memblock) : Bool := b.shared || b.peerAccessGranted

/-- `ExportCache::contains`. -/
def ProcessState.exports (s : ProcessState) (reference : AllocationReference) : Bool :=
  (s.exportCache reference.id).any (·.reference = reference)

/-- `ExportCache::insert`: unicast backing has a size, and an identity keeps its reference. -/
def insertExport (x : Export) (exports : AllocationId → Option Export) : Option (AllocationId → Option Export) :=
  if x.reply.isEmpty ∨ (exports x.reference.id).any (·.reference ≠ x.reference) then none
  else some fun i => if i = x.reference.id then some x else exports i

/-- `ExportCache::send`: what a peer is answered. -/
def send (exports : AllocationId → Option Export) (reference : AllocationReference) : Option Export :=
  (exports reference.id).filter (·.reference = reference)

/-- The descriptor that the driver exports stands for the object behind the handle. -/
def publishExport (b : Memblock) (s : ProcessState) : Option ProcessState := do
  let _ ← b.driver
  let object ← b.object
  let exports ← insertExport ⟨b.reference, object, b.kind⟩ s.exportCache
  some { s with exportCache := exports }

/-- Unicast backing without a recorded context takes the current one. -/
def Memblock.handOut (current : ℕ) (b : Memblock) : Memblock :=
  { b with
    context := if b.kind.isUnicast = true ∧ b.context = 0 then current else b.context
    shared := true
    handedOut := true }

/-- The creator publishes its export unless it is cached. -/
def ensureExport (b : Memblock) (s : ProcessState) : Option ProcessState :=
  if b.reference.creatorPid = s.namespacePid ∧ s.exports b.reference = false then publishExport b s else some s

/-- `Memblock::export`. -/
def exportMemblock (id : AllocationId) (current : ℕ) (s : ProcessState) : Option ProcessState := do
  let b ← s.memblocks[id]?
  let s ← ensureExport b s
  some (s.modifyMemblock id (Memblock.handOut current))

/-! ## Intercepted calls -/

/-- What calls other than exports write to a memblock that is there. -/
inductive Update where
  | addHandle
  | retainDriver (handle : ℕ)
  | addMapping (context : ℕ)
  | grantPeerAccess
  | share
  | setContext (context : ℕ)

def Update.apply : Update → Memblock → Memblock
  | .addHandle, b => { b with handleEntries := b.handleEntries + 1 }
  | .retainDriver handle, b => { b with driver := some (b.driver.getD handle) }
  | .addMapping context, b =>
    { b with mappings := b.mappings + 1, context := if b.context = 0 then context else b.context }
  | .grantPeerAccess, b => { b with peerAccessGranted := true }
  | .share, b => { b with shared := true }
  | .setContext context, b => { b with context := context }

/-- Backing that is only mapped gets a driver handle from the creator's export again. -/
def Memblock.reimport (handle object : ℕ) (b : Memblock) : Memblock :=
  match b.driver with
  | some _ => { b with shared := true, handleEntries := b.handleEntries + 1 }
  | none => { b with shared := true, handleEntries := b.handleEntries + 1, driver := some handle, object := some object }

/-- Whose export of a reference is imported: this process answers itself from its cache, and another
creator exports the object that it shares with this process. -/
def Answered (s : ProcessState) (b : Memblock) (object : ℕ) : Prop :=
  if b.reference.creatorPid = s.namespacePid then ∃ x, send s.exportCache b.reference = some x ∧ x.object = object
  else b.object = some object

/-! ## Checkpoint phases -/

inductive Operation where
  | prepareMulticast
  | saveAllocations
  | prepareUnicast
  | loadAllocations
  | restoreUnicast
  | restoreMulticastCreators
  | restoreMulticastImporters
  | restoreMulticastDevices
  | restoreMulticastBindings
  deriving DecidableEq

/-- The phase that an operation needs and the one it leads to. -/
def Operation.phases : Operation → Phase × Phase
  | .prepareMulticast => (.checkpointing, .multicastPrepared)
  | .saveAllocations => (.multicastPrepared, .allocationsSaved)
  | .prepareUnicast => (.allocationsSaved, .unicastPrepared)
  | .loadAllocations => (.unicastPrepared, .allocationsLoaded)
  | .restoreUnicast => (.allocationsLoaded, .unicastRestored)
  | .restoreMulticastCreators => (.unicastRestored, .multicastCreatorsRestored)
  | .restoreMulticastImporters => (.multicastCreatorsRestored, .multicastImportersRestored)
  | .restoreMulticastDevices => (.multicastImportersRestored, .multicastDevicesRestored)
  | .restoreMulticastBindings => (.multicastDevicesRestored, .active)

structure AllocationOwner where
  allocation : AllocationReference
  ownerPid : ℕ

/-- The coordinator's choice: the creator while it holds the allocation, else the first holder. -/
def chooseOwner (holders : List ℕ) (reference : AllocationReference) : ℕ :=
  if reference.creatorPid ∈ holders then reference.creatorPid else holders.headD 0

/-- The memblocks that are saved and rebuilt. -/
def ProcessState.Carried (s : ProcessState) (id : AllocationId) (b : Memblock) : Prop :=
  s.memblocks[id]? = some b ∧ b.kind.isUnicast = true ∧ b.usesHostCarrier = true

def ProcessState.carried (s : ProcessState) : List AllocationId :=
  (s.memblocks.toList.filter fun p => p.2.kind.isUnicast ∧ p.2.usesHostCarrier).map (·.1)

/-- One owner of a plan is checked against the registry and the owners before it. -/
def selectOwner (s : ProcessState) (selected : List (AllocationId × ℕ)) (o : AllocationOwner) :
    Option (List (AllocationId × ℕ)) := do
  let b ← s.memblocks[o.allocation.id]?
  if b.kind.isUnicast ∧ b.usesHostCarrier ∧ b.reference = o.allocation ∧ o.ownerPid ≠ 0 ∧
      o.allocation.id ∉ selected.map (·.1) then
    some (selected ++ [(o.allocation.id, o.ownerPid)])
  else none

/-- A plan names exactly the memblocks that are carried. -/
def selectCheckpointOwners (plan : List AllocationOwner) (s : ProcessState) : Option ProcessState := do
  let selected ← plan.foldlM (selectOwner s) []
  if selected.length = s.carried.length then
    some { s with checkpointOwners := fun id => (selected.find? (·.1 = id)).map (·.2) }
  else none

def Memblock.unback (b : Memblock) : Memblock := { b with driver := none, object := none }

def Memblock.back (handle object : ℕ) (b : Memblock) : Memblock := { b with driver := some handle, object := some object }

/-- A mapping keeps the backing that no handle refers to. -/
def Memblock.settleDriver (b : Memblock) : Memblock := if b.handleEntries = 0 then { b with driver := none } else b

/-- `multicast::prepare` for one object: its export goes first. -/
def prepareMulticastObject (id : AllocationId) (s : ProcessState) : ProcessState :=
  { s with exportCache := removeExport id s.exportCache }.modifyMemblock id .unback

/-- `restore_allocation` for an owner, once its backing is loaded and mapped. -/
def restoreOwner (id : AllocationId) (s : ProcessState) : Option ProcessState := do
  let b ← s.memblocks[id]?
  let s ← publishExport b s
  some (s.modifyMemblock id .settleDriver)

/-- `multicast::restore` for one object of this process. -/
def restoreCreator (id : AllocationId) (handle object : ℕ) (s : ProcessState) : Option ProcessState := do
  let b ← s.memblocks[id]?
  let s := s.modifyMemblock id (Memblock.back handle object)
  if b.shared then publishExport (b.back handle object) s else some s

/-- The loop of an operation has handled every memblock it is about. -/
def LoopDone (s : ProcessState) : Operation → Prop
  | .prepareMulticast => ∀ (id : AllocationId) (b : Memblock), s.memblocks[id]? = some b → b.kind.isUnicast = false → b.object = none
  | .prepareUnicast => (∀ id, s.exportCache id = none) ∧ ∀ id b, s.Carried id b → b.object = none
  | .loadAllocations => ∀ id b, s.Carried id b → s.checkpointOwners id = some s.namespacePid → s.exportCache id ≠ none
  | .restoreMulticastCreators => ∀ (id : AllocationId) (b : Memblock), s.memblocks[id]? = some b → b.kind.isUnicast = false →
      b.reference.creatorPid = s.namespacePid → b.shared = true → s.exportCache id ≠ none
  | _ => True

/-- One change of the registry or the cache. Intercepted calls run in the active phase only, and are made
of the changes above `beginCheckpoint`; the phases change one memblock at a time. -/
inductive Step : ProcessState → ProcessState → Prop where
  | adopt {s : ProcessState} (b : Memblock) (hphase : s.phase = .active) (hfresh : s.memblocks[b.reference.id]? = none)
      (hhanded : b.handedOut = false) : Step s { s with memblocks := s.memblocks.insert b.reference.id b }
  | update {s : ProcessState} (id : AllocationId) (u : Update) (hphase : s.phase = .active) : Step s (s.modifyMemblock id u.apply)
  | reimport {s : ProcessState} {b : Memblock} (id : AllocationId) (handle object : ℕ) (hphase : s.phase = .active)
      (hb : s.memblocks[id]? = some b) (hanswer : Answered s b object) : Step s (s.modifyMemblock id (Memblock.reimport handle object))
  | removeMapping {s t : ProcessState} (address : ℕ) (id : AllocationId) (hphase : s.phase = .active)
      (h : removeMapping address s = some (id, t)) : Step s t
  | releaseHandle {s t : ProcessState} (refuses : DriverCall → Bool) (handle : VirtualAllocationHandle) (hphase : s.phase = .active)
      (h : releaseVirtualHandle refuses handle s = some t) : Step s t
  | releaseUnused {s t : ProcessState} (refuses : DriverCall → Bool) (id : AllocationId) (hphase : s.phase = .active)
      (h : releaseUnusedMemblock refuses id s = some t) : Step s t
  | handOut {s t : ProcessState} (id : AllocationId) (current : ℕ) (hphase : s.phase = .active)
      (h : exportMemblock id current s = some t) : Step s t
  | beginCheckpoint {s : ProcessState} (hphase : s.phase = .active) : Step s { s with phase := .checkpointing }
  | prepareMulticast {s : ProcessState} {b : Memblock} (id : AllocationId) (hphase : s.phase = .checkpointing)
      (hb : s.memblocks[id]? = some b) (hkind : b.kind.isUnicast = false) : Step s (prepareMulticastObject id s)
  | selectOwners {s t : ProcessState} (plan : List AllocationOwner) (holders : AllocationReference → List ℕ)
      (hphase : s.phase = .multicastPrepared) (hholder : ∀ o ∈ plan, s.namespacePid ∈ holders o.allocation)
      (hplan : ∀ o ∈ plan, o.ownerPid = chooseOwner (holders o.allocation) o.allocation)
      (h : selectCheckpointOwners plan s = some t) : Step s { t with phase := .allocationsSaved }
  | saveOwner {s : ProcessState} (id : AllocationId) (handle : ℕ) (hphase : s.phase = .allocationsSaved) :
      Step s (s.modifyMemblock id (Update.retainDriver handle).apply)
  | clearExports {s : ProcessState} (hphase : s.phase = .allocationsSaved) : Step s { s with exportCache := fun _ => none }
  | prepareUnicast {s : ProcessState} {b : Memblock} (id : AllocationId) (hphase : s.phase = .allocationsSaved)
      (hb : s.Carried id b) (hcleared : ∀ i, s.exportCache i = none) : Step s (s.modifyMemblock id .unback)
  | loadOwner {s : ProcessState} {b : Memblock} (id : AllocationId) (handle object : ℕ) (hphase : s.phase = .unicastPrepared)
      (hb : s.Carried id b) (howner : s.checkpointOwners id = some s.namespacePid) (hnew : b.object = none) :
      Step s (s.modifyMemblock id (Memblock.back handle object))
  | restoreOwner {s t : ProcessState} {b : Memblock} (id : AllocationId) (hphase : s.phase = .unicastPrepared)
      (hb : s.Carried id b) (howner : s.checkpointOwners id = some s.namespacePid) (h : restoreOwner id s = some t) : Step s t
  | restoreImporter {s : ProcessState} {b : Memblock} (id : AllocationId) (handle object : ℕ) (hphase : s.phase = .allocationsLoaded)
      (hb : s.Carried id b) (howner : s.checkpointOwners id ≠ some s.namespacePid) (hnew : b.object = none) :
      Step s (s.modifyMemblock id fun b => (b.back handle object).settleDriver)
  | restoreCreator {s t : ProcessState} {b : Memblock} (id : AllocationId) (handle object : ℕ) (hphase : s.phase = .unicastRestored)
      (hb : s.memblocks[id]? = some b) (hkind : b.kind.isUnicast = false) (hcreator : b.reference.creatorPid = s.namespacePid)
      (hnew : b.object = none) (h : restoreCreator id handle object s = some t) : Step s t
  | restoreMulticastImporter {s : ProcessState} {b : Memblock} (id : AllocationId) (handle object : ℕ)
      (hphase : s.phase = .multicastCreatorsRestored) (hb : s.memblocks[id]? = some b) (hkind : b.kind.isUnicast = false)
      (hcreator : b.reference.creatorPid ≠ s.namespacePid) (hnew : b.object = none) :
      Step s (s.modifyMemblock id (Memblock.back handle object))
  | advance {s : ProcessState} (op : Operation) (hop : op ≠ .saveAllocations) (hphase : s.phase = op.phases.1) (hdone : LoopDone s op) :
      Step s { s with phase := op.phases.2 }

/-! ## The invariant -/

/-- The phases in which a creator's exports of unicast backing are complete. -/
def Phase.servesUnicast : Phase → Bool
  | .allocationsSaved | .unicastPrepared => false
  | _ => true

def Phase.servesMulticast : Phase → Bool
  | .active | .multicastCreatorsRestored | .multicastImportersRestored | .multicastDevicesRestored => true
  | _ => false

def Phase.serves (p : Phase) (k : Kind) : Bool := if k.isUnicast then p.servesUnicast else p.servesMulticast

/-- The export of an identity says what its memblock is. -/
def Matches (x : Export) (b : Memblock) : Prop := b.reference = x.reference ∧ b.object = some x.object ∧ b.kind = x.reply

structure Cached (s : ProcessState) : Prop where
  keys : ∀ (id : AllocationId) (b : Memblock), s.memblocks[id]? = some b → b.reference.id = id
  handed : ∀ (id : AllocationId) (b : Memblock), s.memblocks[id]? = some b → b.handedOut = true → b.shared = true
  sound : ∀ id x, s.exportCache id = some x → ∃ b : Memblock, s.memblocks[id]? = some b ∧ Matches x b
  complete : ∀ (id : AllocationId) (b : Memblock), s.memblocks[id]? = some b → s.phase.serves b.kind = true →
    b.reference.creatorPid = s.namespacePid → b.handedOut = true → s.exportCache id ≠ none
  owners : s.phase.servesUnicast = false → ∀ id b, s.Carried id b → b.reference.creatorPid = s.namespacePid →
    s.checkpointOwners id = some s.namespacePid

/-- What the cache depends on in a memblock, as far as it never changes. -/
structure SameIdentity (b c : Memblock) : Prop where
  kind : c.kind = b.kind
  reference : c.reference = b.reference
  handedOut : c.handedOut = b.handedOut

theorem SameIdentity.refl (b : Memblock) : SameIdentity b b := ⟨rfl, rfl, rfl⟩

/-- Memblocks keep their identity, and their exports are dropped, or kept with the object that backs them. Other
phases serve no more than before, and the owners of what is carried are those that were chosen. -/
structure Kept (s t : ProcessState) : Prop where
  pid : t.namespacePid = s.namespacePid
  serves : ∀ k, t.phase.serves k = true → s.phase.serves k = true
  memblocks : ∀ (id : AllocationId) (c : Memblock), t.memblocks[id]? = some c →
    ∃ b : Memblock, s.memblocks[id]? = some b ∧ SameIdentity b c ∧ (b.shared = true → c.shared = true) ∧
      (t.phase.servesUnicast = false → c.usesHostCarrier = b.usesHostCarrier)
  exports : ∀ id x, t.exportCache id = some x → s.exportCache id = some x ∧
    ∀ b : Memblock, s.memblocks[id]? = some b → b.object = some x.object →
      ∃ c : Memblock, t.memblocks[id]? = some c ∧ SameIdentity b c ∧ c.object = b.object
  complete : ∀ (id : AllocationId) (c : Memblock), t.memblocks[id]? = some c → t.phase.serves c.kind = true →
    t.exportCache id = s.exportCache id
  owners : t.phase.servesUnicast = false → s.phase.servesUnicast = false ∧ t.checkpointOwners = s.checkpointOwners

theorem Cached.of_kept {s t : ProcessState} (h : Cached s) (hkept : Kept s t) : Cached t := by
  refine ⟨fun id c hc => ?_, fun id c hc hhanded => ?_, fun id x hx => ?_, fun id c hc hserves hcreator hhanded => ?_,
    fun hphase id c hc hcreator => ?_⟩
  · obtain ⟨b, hb, hsame, -⟩ := hkept.memblocks id c hc
    rw [hsame.reference]
    exact h.keys id b hb
  · obtain ⟨b, hb, hsame, hshared, -⟩ := hkept.memblocks id c hc
    exact hshared (h.handed id b hb (hsame.handedOut ▸ hhanded))
  · obtain ⟨hx, hobject⟩ := hkept.exports id x hx
    obtain ⟨b, hb, href, hobj, hkind⟩ := h.sound id x hx
    obtain ⟨c, hc, hsame, hsameObject⟩ := hobject b hb hobj
    exact ⟨c, hc, hsame.reference.trans href, hsameObject.trans hobj, hsame.kind.trans hkind⟩
  · obtain ⟨b, hb, hsame, -⟩ := hkept.memblocks id c hc
    rw [hkept.complete id c hc hserves]
    rw [hsame.kind] at hserves
    exact h.complete id b hb (hkept.serves _ hserves) (by rw [← hsame.reference, hcreator, hkept.pid])
      (hsame.handedOut ▸ hhanded)
  · obtain ⟨hstored, hkind, hcarrier⟩ := hc
    obtain ⟨b, hb, hsame, -, hcarries⟩ := hkept.memblocks id c hstored
    obtain ⟨hbefore, howners⟩ := hkept.owners hphase
    rw [howners, hkept.pid]
    exact h.owners hbefore id b ⟨hb, hsame.kind ▸ hkind, (hcarries hphase) ▸ hcarrier⟩
      (by rw [← hsame.reference, hcreator, hkept.pid])

/-! ## Steps -/

section Steps

variable {s t : ProcessState} {id : AllocationId}

/-- What has no backing has no export. -/
theorem Cached.uncached {b : Memblock} (h : Cached s) (hb : s.memblocks[id]? = some b) (hnew : b.object = none) :
    s.exportCache id = none := by
  cases hx : s.exportCache id with
  | none => rfl
  | some x =>
    obtain ⟨c, hc, -, hobject, -⟩ := h.sound id x hx
    rw [hb] at hc
    cases hc
    rw [hnew] at hobject
    cases hobject

/-- What may be written to a memblock: its backing changes only without an export. -/
structure Writes (s : ProcessState) (id : AllocationId) (b c : Memblock) : Prop where
  identity : SameIdentity b c
  shared : b.shared = true → c.shared = true
  object : c.object = b.object ∨ s.exportCache id = none
  carrier : s.phase.servesUnicast = false → c.usesHostCarrier = b.usesHostCarrier

theorem Kept.modify {f : Memblock → Memblock} (hf : ∀ b : Memblock, s.memblocks[id]? = some b → Writes s id b (f b)) :
    Kept s (s.modifyMemblock id f) := by
  refine ⟨rfl, fun _ h => h, fun i c hc => ?_, fun i x hx => ⟨hx, fun b hb _ => ?_⟩, fun _ _ _ _ => rfl, fun h => ⟨h, rfl⟩⟩
  · rw [getElem?_modifyMemblock] at hc
    by_cases hi : i = id
    · subst hi
      rw [if_pos rfl, Option.map_eq_some_iff] at hc
      obtain ⟨b, hb, rfl⟩ := hc
      exact ⟨b, hb, (hf b hb).identity, (hf b hb).shared, (hf b hb).carrier⟩
    · rw [if_neg hi] at hc
      exact ⟨c, hc, .refl c, fun h => h, fun _ => rfl⟩
  · rw [getElem?_modifyMemblock]
    by_cases hi : i = id
    · subst hi
      refine ⟨f b, by rw [if_pos rfl, hb, Option.map_some], (hf b hb).identity, ?_⟩
      rcases (hf b hb).object with hsame | hnone
      · exact hsame
      · cases hnone.symm.trans hx
    · exact ⟨b, by rw [if_neg hi, hb], .refl b, rfl⟩

theorem Kept.phase {p : Phase} (hserves : ∀ k, p.serves k = true → s.phase.serves k = true)
    (howners : p.servesUnicast = false → s.phase.servesUnicast = false) : Kept s { s with phase := p } :=
  ⟨rfl, hserves, fun _ c hc => ⟨c, hc, .refl c, fun h => h, fun _ => rfl⟩, fun _ _ hx => ⟨hx, fun b hb _ => ⟨b, hb, .refl b, rfl⟩⟩,
    fun _ _ _ _ => rfl, fun h => ⟨howners h, rfl⟩⟩

theorem kept_forgetMemblock : Kept s (forgetMemblock id s) := by
  have hmemblock (i : AllocationId) (c : Memblock) (hc : (forgetMemblock id s).memblocks[i]? = some c) :
      i ≠ id ∧ s.memblocks[i]? = some c := by
    have h := OrderedMap.getElem?_erase_eq_some.1 hc
    exact ⟨Ne.symm h.1, h.2⟩
  refine ⟨rfl, fun _ h => h, fun i c hc => ⟨c, (hmemblock i c hc).2, .refl c, fun h => h, fun _ => rfl⟩,
    fun i x hx => ?_, fun i c hc _ => if_neg (hmemblock i c hc).1, fun h => ⟨h, rfl⟩⟩
  simp only [forgetMemblock, removeExport, ite_eq_iff, reduceCtorEq, and_false, false_or] at hx
  refine ⟨hx.2, fun b hb _ => ⟨b, OrderedMap.getElem?_erase_eq_some.2 ⟨Ne.symm hx.1, hb⟩, .refl b, rfl⟩⟩

/-- Other tables say nothing about the cache. -/
theorem Cached.congr (h : Cached s) (hpid : t.namespacePid = s.namespacePid) (hphase : t.phase = s.phase)
    (hmemblocks : t.memblocks = s.memblocks) (hcache : t.exportCache = s.exportCache)
    (howners : t.checkpointOwners = s.checkpointOwners) : Cached t := by
  refine ⟨?_, ?_, ?_, ?_, ?_⟩
  · rw [hmemblocks]
    exact h.keys
  · rw [hmemblocks]
    exact h.handed
  · rw [hmemblocks, hcache]
    exact h.sound
  · rw [hmemblocks, hcache, hphase, hpid]
    exact h.complete
  · simp only [ProcessState.Carried]
    rw [hmemblocks, howners, hphase, hpid]
    exact h.owners

theorem Cached.releaseUnusedMemblock {refuses : DriverCall → Bool} (h : Cached s)
    (hrelease : releaseUnusedMemblock refuses id s = some t) : Cached t := by
  rcases releaseUnusedMemblock_cases hrelease with rfl | rfl | rfl
  · exact h
  · exact h.of_kept (.modify fun b _ => ⟨⟨rfl, rfl, rfl⟩, fun h => h, .inl rfl, fun _ => rfl⟩)
  · exact h.of_kept kept_forgetMemblock

theorem Cached.releaseVirtualHandle {refuses : DriverCall → Bool} {handle : VirtualAllocationHandle} (h : Cached s)
    (hrelease : releaseVirtualHandle refuses handle s = some t) : Cached t := by
  simp only [Interpose.releaseVirtualHandle, Option.bind_eq_bind, Option.bind_eq_some_iff] at hrelease
  obtain ⟨entry, -, hrelease⟩ := hrelease
  by_cases hlast : entry.references - 1 = 0
  · rw [if_pos hlast, Option.bind_eq_some_iff] at hrelease
    obtain ⟨-, -, hrelease⟩ := hrelease
    refine Cached.releaseUnusedMemblock ?_ hrelease
    have hrest := @Cached.congr s
      { s with released := s.released ++ [handle], virtualAllocationHandles := s.virtualAllocationHandles.erase handle }
      h rfl rfl rfl rfl rfl
    exact hrest.of_kept (.modify fun b _ => ⟨⟨rfl, rfl, rfl⟩, fun h => h, .inl rfl, fun _ => rfl⟩)
  · rw [if_neg hlast] at hrelease
    cases hrelease
    exact h.congr rfl rfl rfl rfl rfl

theorem Cached.removeMapping {address : ℕ} (h : Cached s) (hremove : removeMapping address s = some (id, t)) : Cached t := by
  simp only [Interpose.removeMapping, Option.bind_eq_bind, Option.bind_eq_some_iff] at hremove
  obtain ⟨mapping, -, -, -, hremove⟩ := hremove
  cases hremove
  have hrest := @Cached.congr s { s with mappings := s.mappings.erase address } h rfl rfl rfl rfl rfl
  exact hrest.of_kept (.modify fun b _ => ⟨⟨rfl, rfl, rfl⟩, fun h => h, .inl rfl, fun _ => rfl⟩)

/-- A new allocation has a new identity, which no export has. -/
theorem Cached.adopt {b : Memblock} (h : Cached s) (hfresh : s.memblocks[b.reference.id]? = none) (hhanded : b.handedOut = false)
    (hphase : s.phase = .active) : Cached { s with memblocks := s.memblocks.insert b.reference.id b } := by
  refine ⟨fun i c hc => ?_, fun i c hc hout => ?_, fun i x hx => ?_, fun i c hc hserves hcreator hout => ?_, fun hunserved => ?_⟩
  · rcases OrderedMap.getElem?_insert_eq_some.1 hc with ⟨rfl, rfl⟩ | ⟨-, hc⟩
    · rfl
    · exact h.keys i c hc
  · rcases OrderedMap.getElem?_insert_eq_some.1 hc with ⟨rfl, rfl⟩ | ⟨-, hc⟩
    · cases hhanded.symm.trans hout
    · exact h.handed i c hc hout
  · obtain ⟨c, hc, hmatches⟩ := h.sound i x hx
    refine ⟨c, OrderedMap.getElem?_insert_eq_some.2 (.inr ⟨?_, hc⟩), hmatches⟩
    rintro rfl
    cases hfresh.symm.trans hc
  · rcases OrderedMap.getElem?_insert_eq_some.1 hc with ⟨rfl, rfl⟩ | ⟨-, hc⟩
    · cases hhanded.symm.trans hout
    · exact h.complete i c hc hserves hcreator hout
  · simp only [hphase, Phase.servesUnicast, reduceCtorEq] at hunserved

theorem publishExport_eq_some {b : Memblock} (h : publishExport b s = some t) :
    ∃ object, b.object = some object ∧
      t = { s with exportCache := fun i => if i = b.reference.id then some ⟨b.reference, object, b.kind⟩ else s.exportCache i } := by
  simp only [publishExport, insertExport, Option.bind_eq_bind, Option.bind_eq_some_iff, Option.ite_none_left_eq_some] at h
  obtain ⟨-, -, object, hobject, exports, ⟨-, hexports⟩, ht⟩ := h
  cases hexports
  cases ht
  exact ⟨object, hobject, rfl⟩

/-- A published export is the one of its memblock. -/
theorem Cached.publishExport {b : Memblock} (h : Cached s) (hb : s.memblocks[id]? = some b) (hpublish : publishExport b s = some t) :
    Cached t ∧ t.memblocks = s.memblocks ∧ t.namespacePid = s.namespacePid ∧ t.exportCache id ≠ none := by
  obtain ⟨object, hobject, rfl⟩ := publishExport_eq_some hpublish
  obtain rfl := h.keys id b hb
  refine ⟨⟨h.keys, h.handed, fun i x hx => ?_, fun i c hc hserves hcreator hout => ?_, h.owners⟩, rfl, rfl, by simp⟩
  · by_cases hi : i = b.reference.id
    · simp only [hi, if_true, Option.some.injEq] at hx
      subst hx
      exact ⟨b, hi ▸ hb, rfl, hobject, rfl⟩
    · simp only [if_neg hi] at hx
      exact h.sound i x hx
  · by_cases hi : i = b.reference.id
    · simp [hi]
    · simp only [if_neg hi]
      exact h.complete i c hc hserves hcreator hout

/-- A memblock is handed out with its export in the cache, if this process created it. -/
theorem Cached.handOut {current : ℕ} (h : Cached s) (hphase : s.phase = .active)
    (hcached : ∀ b : Memblock, s.memblocks[id]? = some b → b.reference.creatorPid = s.namespacePid → s.exportCache id ≠ none) :
    Cached (s.modifyMemblock id (Memblock.handOut current)) := by
  have hwritten (i : AllocationId) (c : Memblock) (hc : (s.modifyMemblock id (Memblock.handOut current)).memblocks[i]? = some c) :
      ∃ b : Memblock, s.memblocks[i]? = some b ∧ (c = b ∨ i = id ∧ c = b.handOut current) := by
    rw [getElem?_modifyMemblock] at hc
    by_cases hi : i = id
    · rw [if_pos hi, Option.map_eq_some_iff] at hc
      obtain ⟨b, hb, rfl⟩ := hc
      exact ⟨b, hb, .inr ⟨hi, rfl⟩⟩
    · rw [if_neg hi] at hc
      exact ⟨c, hc, .inl rfl⟩
  refine ⟨fun i c hc => ?_, fun i c hc hout => ?_, fun i x hx => ?_, fun i c hc hserves hcreator hout => ?_, fun hunserved => ?_⟩
  · obtain ⟨b, hb, rfl | ⟨-, rfl⟩⟩ := hwritten i c hc
    · exact h.keys i c hb
    · exact h.keys i b hb
  · obtain ⟨b, hb, rfl | ⟨-, rfl⟩⟩ := hwritten i c hc
    · exact h.handed i c hb hout
    · rfl
  · obtain ⟨b, hb, hmatches⟩ := h.sound i x hx
    rw [getElem?_modifyMemblock]
    by_cases hi : i = id
    · exact ⟨b.handOut current, by rw [if_pos hi, hb, Option.map_some], hmatches⟩
    · exact ⟨b, by rw [if_neg hi, hb], hmatches⟩
  · obtain ⟨b, hb, rfl | ⟨rfl, rfl⟩⟩ := hwritten i c hc
    · exact h.complete i c hb hserves hcreator hout
    · exact hcached b hb hcreator
  · simp only [ProcessState.modifyMemblock, hphase, Phase.servesUnicast, reduceCtorEq] at hunserved

theorem Cached.exportMemblock {current : ℕ} (h : Cached s) (hphase : s.phase = .active)
    (hexport : exportMemblock id current s = some t) : Cached t := by
  simp only [Interpose.exportMemblock, Option.bind_eq_bind, Option.bind_eq_some_iff, Option.some.injEq] at hexport
  obtain ⟨b, hb, s', hpublish, rfl⟩ := hexport
  unfold ensureExport at hpublish
  by_cases hmine : b.reference.creatorPid = s.namespacePid ∧ s.exports b.reference = false
  · rw [if_pos hmine] at hpublish
    have hafter := h.publishExport hb hpublish
    obtain ⟨object, -, rfl⟩ := publishExport_eq_some hpublish
    exact hafter.1.handOut hphase fun _ _ _ => hafter.2.2.2
  · rw [if_neg hmine] at hpublish
    cases hpublish
    refine h.handOut hphase fun c hc hcreator hnone => hmine ?_
    rw [hb] at hc
    cases hc
    refine ⟨hcreator, ?_⟩
    rw [ProcessState.exports, h.keys id b hb, hnone]
    rfl

/-- The export of a multicast object goes before the object. Its phase serves none. -/
theorem Cached.prepareMulticastObject {b : Memblock} (h : Cached s) (hphase : s.phase = .checkpointing)
    (hb : s.memblocks[id]? = some b) (hkind : b.kind.isUnicast = false) : Cached (prepareMulticastObject id s) := by
  have hdropped : Kept s { s with exportCache := removeExport id s.exportCache } := by
    refine ⟨rfl, fun _ h => h, fun _ c hc => ⟨c, hc, .refl c, fun h => h, fun _ => rfl⟩, fun i x hx => ?_,
      fun i c hc hserves => ?_, fun h => ⟨h, rfl⟩⟩
    · simp only [removeExport, ite_eq_iff, reduceCtorEq, and_false, false_or] at hx
      exact ⟨hx.2, fun b hb _ => ⟨b, hb, .refl b, rfl⟩⟩
    · refine if_neg ?_
      rintro rfl
      rw [hb] at hc
      cases hc
      simp only [Phase.serves, hkind, hphase, Phase.servesMulticast, Bool.false_eq_true, if_false] at hserves
  refine (h.of_kept hdropped).of_kept (.modify fun c _ => ⟨⟨rfl, rfl, rfl⟩, fun h => h, .inr ?_, fun _ => rfl⟩)
  exact if_pos rfl

theorem Cached.clearExports (h : Cached s) (hphase : s.phase = .allocationsSaved) : Cached { s with exportCache := fun _ => none } := by
  refine h.of_kept ⟨rfl, fun _ h => h, fun _ c hc => ⟨c, hc, .refl c, fun h => h, fun _ => rfl⟩, fun _ _ hx => ?_,
    fun _ c _ hserves => ?_, fun h => ⟨h, rfl⟩⟩
  · cases hx
  · cases hkind : c.kind.isUnicast <;>
      simp only [Phase.serves, hkind, hphase, Phase.servesUnicast, Phase.servesMulticast, Bool.false_eq_true, if_false, if_true] at hserves

theorem settleDriver_writes (b : Memblock) : Writes s id b b.settleDriver := by
  unfold Memblock.settleDriver
  split
  · exact ⟨⟨rfl, rfl, rfl⟩, fun h => h, .inl rfl, fun _ => rfl⟩
  · exact ⟨.refl b, fun h => h, .inl rfl, fun _ => rfl⟩

theorem Cached.restoreOwner (h : Cached s) (hrestore : restoreOwner id s = some t) : Cached t := by
  simp only [Interpose.restoreOwner, Option.bind_eq_bind, Option.bind_eq_some_iff, Option.some.injEq] at hrestore
  obtain ⟨b, hb, s', hpublish, rfl⟩ := hrestore
  exact (h.publishExport hb hpublish).1.of_kept (.modify fun c _ => settleDriver_writes c)

/-- New backing takes the place of what has no export. -/
theorem Cached.back {b : Memblock} {handle object : ℕ} (h : Cached s) (hb : s.memblocks[id]? = some b) (hnew : b.object = none) :
    Cached (s.modifyMemblock id (Memblock.back handle object)) :=
  h.of_kept (.modify fun _ _ => ⟨⟨rfl, rfl, rfl⟩, fun h => h, .inr (h.uncached hb hnew), fun _ => rfl⟩)

theorem Cached.restoreCreator {b : Memblock} {handle object : ℕ} (h : Cached s) (hb : s.memblocks[id]? = some b)
    (hnew : b.object = none) (hrestore : restoreCreator id handle object s = some t) : Cached t := by
  simp only [Interpose.restoreCreator, hb, Option.bind_eq_bind, Option.bind_some] at hrestore
  have hbacked := @Cached.back s id b handle object h hb hnew
  split at hrestore
  · have hstored : (s.modifyMemblock id (Memblock.back handle object)).memblocks[id]? = some (b.back handle object) := by
      rw [getElem?_modifyMemblock, if_pos rfl, hb, Option.map_some]
    exact (hbacked.publishExport hstored hrestore).1
  · cases hrestore
    exact hbacked

theorem mem_carried : id ∈ s.carried ↔ ∃ b, s.Carried id b := by
  simp only [ProcessState.carried, ProcessState.Carried, List.mem_map, List.mem_filter, decide_eq_true_eq, Prod.exists,
    ExtTreeMap.mem_toList_iff_getElem?_eq_some, exists_and_right, exists_eq_right]

/-- The owners that are selected are owners of the plan, for carried memblocks, and one for each. -/
structure Selected (s : ProcessState) (plan : List AllocationOwner) (selected : List (AllocationId × ℕ)) : Prop where
  nodup : (selected.map (·.1)).Nodup
  planned : ∀ p ∈ selected, ∃ o ∈ plan, p = (o.allocation.id, o.ownerPid) ∧ ∃ b, s.Carried p.1 b ∧ b.reference = o.allocation

theorem Selected.selectOwner {plan : List AllocationOwner} {selected after : List (AllocationId × ℕ)} {o : AllocationOwner}
    (h : Selected s plan selected) (ho : o ∈ plan) (hselect : selectOwner s selected o = some after) : Selected s plan after := by
  simp only [Interpose.selectOwner, Option.bind_eq_bind, Option.bind_eq_some_iff, Option.ite_none_right_eq_some] at hselect
  obtain ⟨b, hb, ⟨hkind, hcarrier, hreference, -, hnew⟩, hafter⟩ := hselect
  cases hafter
  refine ⟨?_, fun p hp => ?_⟩
  · rw [List.map_append, List.nodup_append_comm]
    exact List.nodup_cons.2 ⟨hnew, h.nodup⟩
  · rcases List.mem_append.1 hp with hp | hp
    · exact h.planned p hp
    · obtain rfl := List.mem_singleton.1 hp
      exact ⟨o, ho, rfl, b, ⟨hb, hkind, hcarrier⟩, hreference⟩

theorem Selected.foldlM {plan rest : List AllocationOwner} {selected after : List (AllocationId × ℕ)}
    (h : Selected s plan selected) (hrest : rest ⊆ plan) (hselect : rest.foldlM (Interpose.selectOwner s) selected = some after) :
    Selected s plan after := by
  induction rest generalizing selected with
  | nil =>
    cases hselect
    exact h
  | cons o rest ih =>
    rw [List.foldlM_cons, Option.bind_eq_bind, Option.bind_eq_some_iff] at hselect
    obtain ⟨next, hnext, hselect⟩ := hselect
    obtain ⟨ho, hrest⟩ := List.cons_subset.1 hrest
    exact ih (h.selectOwner ho hnext) hrest hselect

/-- As many owners as carried memblocks leave no memblock out. -/
theorem Selected.complete {plan : List AllocationOwner} {selected : List (AllocationId × ℕ)} (h : Selected s plan selected)
    (hlength : selected.length = s.carried.length) {b : Memblock} (hb : s.Carried id b) : id ∈ selected.map (·.1) := by
  have hsubset : selected.map (·.1) ⊆ s.carried := by
    intro i hi
    obtain ⟨p, hp, rfl⟩ := List.mem_map.1 hi
    obtain ⟨o, -, -, b, hb, -⟩ := h.planned p hp
    exact mem_carried.2 ⟨b, hb⟩
  have hperm := (List.subperm_of_subset h.nodup hsubset).perm_of_length_le (by rw [List.length_map, hlength])
  exact hperm.mem_iff.2 (mem_carried.2 ⟨b, hb⟩)

/-- The creator is the owner of what it carries, since it holds it. -/
theorem selectCheckpointOwners_creator {plan : List AllocationOwner} {holders : AllocationReference → List ℕ} {b : Memblock}
    (hholder : ∀ o ∈ plan, s.namespacePid ∈ holders o.allocation)
    (hplan : ∀ o ∈ plan, o.ownerPid = chooseOwner (holders o.allocation) o.allocation)
    (h : selectCheckpointOwners plan s = some t) (hb : s.Carried id b) (hcreator : b.reference.creatorPid = s.namespacePid) :
    t.checkpointOwners id = some s.namespacePid := by
  simp only [selectCheckpointOwners, Option.bind_eq_bind, Option.bind_eq_some_iff, Option.ite_none_right_eq_some] at h
  obtain ⟨selected, hfold, hlength, ht⟩ := h
  cases ht
  have hnothing : Selected s plan [] := ⟨List.nodup_nil, by simp⟩
  have hselected := hnothing.foldlM (List.Subset.refl plan) hfold
  obtain ⟨p, hfind⟩ : ∃ p, selected.find? (·.1 = id) = some p := by
    obtain ⟨p, hp, hid⟩ := List.mem_map.1 (hselected.complete hlength hb)
    exact Option.isSome_iff_exists.1 (List.find?_isSome.2 ⟨p, hp, decide_eq_true hid⟩)
  obtain ⟨o, ho, rfl, c, hc, hreference⟩ := hselected.planned p (List.mem_of_find?_eq_some hfind)
  have hid : o.allocation.id = id := by
    have hmatch := List.find?_some hfind
    exact of_decide_eq_true hmatch
  have hsame : c = b := by
    have hstored := hc.1
    rw [hid, hb.1] at hstored
    exact (Option.some.inj hstored).symm
  have howner : o.ownerPid = s.namespacePid := by
    rw [hplan o ho, chooseOwner, ← hreference, hsame, hcreator, if_pos]
    rw [← hsame, hreference]
    exact hholder o ho
  simp only [hfind, Option.map_some, howner]

theorem Cached.selectOwners {plan : List AllocationOwner} {holders : AllocationReference → List ℕ} (h : Cached s)
    (hholder : ∀ o ∈ plan, s.namespacePid ∈ holders o.allocation)
    (hplan : ∀ o ∈ plan, o.ownerPid = chooseOwner (holders o.allocation) o.allocation)
    (hselect : selectCheckpointOwners plan s = some t) : Cached { t with phase := .allocationsSaved } := by
  have howners (i : AllocationId) (b : Memblock) :=
    @selectCheckpointOwners_creator s t i plan holders b hholder hplan hselect
  simp only [selectCheckpointOwners, Option.bind_eq_bind, Option.bind_eq_some_iff, Option.ite_none_right_eq_some] at hselect
  obtain ⟨selected, -, -, ht⟩ := hselect
  cases ht
  refine ⟨h.keys, h.handed, h.sound, fun _ c _ hserves => ?_, fun _ => howners⟩
  cases hkind : c.kind.isUnicast <;>
    simp only [Phase.serves, hkind, Phase.servesUnicast, Phase.servesMulticast, Bool.false_eq_true, if_false, if_true] at hserves

/-- What a process imports again is the object it has. -/
theorem Cached.answered {b : Memblock} {object : ℕ} (h : Cached s) (hb : s.memblocks[id]? = some b) (hanswer : Answered s b object) :
    b.object = some object := by
  unfold Answered at hanswer
  split at hanswer
  · obtain ⟨x, hx, rfl⟩ := hanswer
    rw [send, Option.filter_eq_some_iff] at hx
    obtain ⟨c, hc, -, hobject, -⟩ := h.sound _ x hx.1
    rw [h.keys id b hb, hb] at hc
    cases hc
    exact hobject
  · exact hanswer

theorem Update.apply_writes (u : Update) (b : Memblock) (hserved : s.phase.servesUnicast ≠ false) : Writes s id b (u.apply b) := by
  cases u with
  | share => exact ⟨⟨rfl, rfl, rfl⟩, fun _ => rfl, .inl rfl, fun h => absurd h hserved⟩
  | _ => exact ⟨⟨rfl, rfl, rfl⟩, fun h => h, .inl rfl, fun h => absurd h hserved⟩

theorem Cached.reimport {b : Memblock} {handle object : ℕ} (h : Cached s) (hserved : s.phase.servesUnicast ≠ false)
    (hb : s.memblocks[id]? = some b) (hanswer : Answered s b object) :
    Cached (s.modifyMemblock id (Memblock.reimport handle object)) := by
  refine h.of_kept (.modify fun c hc => ?_)
  rw [hb] at hc
  cases hc
  unfold Memblock.reimport
  split
  · exact ⟨⟨rfl, rfl, rfl⟩, fun _ => rfl, .inl rfl, fun h => absurd h hserved⟩
  · exact ⟨⟨rfl, rfl, rfl⟩, fun _ => rfl, .inl (h.answered hb hanswer).symm, fun h => absurd h hserved⟩

/-- An importer keeps the handle of its new backing as long as one of its own refers to it. -/
theorem Cached.backAndSettle {b : Memblock} {handle object : ℕ} (h : Cached s) (hb : s.memblocks[id]? = some b) (hnew : b.object = none) :
    Cached (s.modifyMemblock id fun b => (b.back handle object).settleDriver) := by
  refine h.of_kept (.modify fun c _ => ?_)
  have hsettled := @settleDriver_writes s id (c.back handle object)
  exact ⟨⟨hsettled.identity.kind, hsettled.identity.reference, hsettled.identity.handedOut⟩, hsettled.shared,
    .inr (h.uncached hb hnew), hsettled.carrier⟩

/-- The loops over what this process owns and over its multicast objects leave the exports complete. -/
theorem Cached.advance {op : Operation} (h : Cached s) (hop : op ≠ .saveAllocations) (hphase : s.phase = op.phases.1)
    (hdone : LoopDone s op) : Cached { s with phase := op.phases.2 } := by
  cases op with
  | saveAllocations => cases hop rfl
  | loadAllocations =>
    refine ⟨h.keys, h.handed, h.sound, fun i b hb hserves hcreator hout => ?_, fun hunserved => ?_⟩
    · cases hkind : b.kind.isUnicast with
      | true =>
        have hcarried : s.Carried i b := ⟨hb, hkind, by rw [Memblock.usesHostCarrier, h.handed i b hb hout, Bool.true_or]⟩
        exact hdone i b hcarried (h.owners (by rw [hphase]; rfl) i b hcarried hcreator)
      | false => simp [Phase.serves, hkind, Operation.phases, Phase.servesMulticast] at hserves
    · simp only [Operation.phases, Phase.servesUnicast, reduceCtorEq] at hunserved
  | restoreMulticastCreators =>
    refine ⟨h.keys, h.handed, h.sound, fun i b hb _ hcreator hout => ?_, fun hunserved => ?_⟩
    · cases hkind : b.kind.isUnicast with
      | true =>
        refine h.complete i b hb ?_ hcreator hout
        rw [Phase.serves, hkind, hphase]
        rfl
      | false => exact hdone i b hb hkind hcreator (h.handed i b hb hout)
    · simp only [Operation.phases, Phase.servesUnicast, reduceCtorEq] at hunserved
  | _ =>
    refine h.of_kept (.phase (fun k hserves => ?_) fun hunserved => ?_)
    · cases hkind : k.isUnicast <;> simp_all [Phase.serves, Operation.phases, Phase.servesUnicast, Phase.servesMulticast]
    · simp_all [Operation.phases, Phase.servesUnicast]

theorem Cached.step (h : Cached s) (hstep : Step s t) : Cached t := by
  cases hstep with
  | adopt b hphase hfresh hhanded => exact h.adopt hfresh hhanded hphase
  | update id u hphase => exact h.of_kept (.modify fun b _ => u.apply_writes b (by simp [hphase, Phase.servesUnicast]))
  | reimport id handle object hphase hb hanswer => exact h.reimport (by simp [hphase, Phase.servesUnicast]) hb hanswer
  | removeMapping address id hphase hremove => exact h.removeMapping hremove
  | releaseHandle refuses handle hphase hrelease => exact h.releaseVirtualHandle hrelease
  | releaseUnused refuses id hphase hrelease => exact h.releaseUnusedMemblock hrelease
  | handOut id current hphase hexport => exact h.exportMemblock hphase hexport
  | beginCheckpoint hphase =>
    refine h.of_kept (.phase (fun k _ => ?_) fun hunserved => ?_)
    · cases hkind : k.isUnicast <;> simp [Phase.serves, hkind, hphase, Phase.servesUnicast, Phase.servesMulticast]
    · simp only [Phase.servesUnicast, reduceCtorEq] at hunserved
  | prepareMulticast id hphase hb hkind => exact h.prepareMulticastObject hphase hb hkind
  | selectOwners plan holders hphase hholder hplan hselect => exact h.selectOwners hholder hplan hselect
  | saveOwner id handle hphase => exact h.of_kept (.modify fun b _ => ⟨⟨rfl, rfl, rfl⟩, fun h => h, .inl rfl, fun _ => rfl⟩)
  | clearExports hphase => exact h.clearExports hphase
  | prepareUnicast id hphase hb hcleared =>
    exact h.of_kept (.modify fun b _ => ⟨⟨rfl, rfl, rfl⟩, fun h => h, .inr (hcleared id), fun _ => rfl⟩)
  | loadOwner id handle object hphase hb howner hnew => exact h.back hb.1 hnew
  | restoreOwner id hphase hb howner hrestore => exact h.restoreOwner hrestore
  | restoreImporter id handle object hphase hb howner hnew => exact h.backAndSettle hb.1 hnew
  | restoreCreator id handle object hphase hb hkind hcreator hnew hrestore => exact h.restoreCreator hb hnew hrestore
  | restoreMulticastImporter id handle object hphase hb hkind hcreator hnew => exact h.back hb hnew
  | advance op hop hphase hdone => exact h.advance hop hphase hdone

end Steps

/-! ## Runs -/

end Interpose
