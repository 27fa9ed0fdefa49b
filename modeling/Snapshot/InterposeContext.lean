import Mathlib.Data.List.Nodup
import Mathlib.Logic.Relation
import Snapshot.InterposeRegistry

/-! The registry of the interposition library when a CUDA context goes away. A call that ends a context
notes what belongs to it, drops the registry lock for the driver call, and releases what it noted when
it has the lock again. Other threads change the registry in between. -/
namespace Interpose

open Std (ExtTreeMap)

/-! ## The end of a context -/

section Release

variable (refuses : DriverCall → Bool)

structure ContextResources where
  context : ℕ
  mallocs : List (ℕ × VirtualAllocationHandle)
  memblocks : List AllocationId

def ContextResources.capture (s : ProcessState) (context : ℕ) : ContextResources where
  context := context
  mallocs := (s.mallocRegions.toList.filter fun p => context ≠ 0 ∧ p.2.context = context).map fun p =>
    (p.1, p.2.virtualAllocationHandle)
  memblocks := (s.memblocks.toList.filter fun p => context ≠ 0 ∧ p.2.context = context).map (·.1)

/-- Neither direction of the peer relationships of a context is kept, nor an entry without peers. -/
def dropPeers (context : ℕ) (peers : ExtTreeMap ℕ (ExtTreeMap ℕ ℤ)) : ExtTreeMap ℕ (ExtTreeMap ℕ ℤ) :=
  (peers.erase context).filterMap fun _ p => if (p.erase context).isEmpty then none else some (p.erase context)

/-- A region is the one that was noted only while its handle is. -/
def releaseMalloc (s : ProcessState) (noted : ℕ × VirtualAllocationHandle) : Option ProcessState :=
  if s.mallocRegions[noted.1]?.any (·.virtualAllocationHandle = noted.2) then unmapMalloc refuses noted.1 s else some s

/-- Direct VMM and multicast allocations survive their context, without a recorded one. -/
def Memblock.dropContext (context : ℕ) (b : Memblock) : Memblock :=
  if b.context = context then { b with context := 0 } else b

def dropContexts (context : ℕ) (ids : List AllocationId) (s : ProcessState) : ProcessState :=
  ids.foldl (fun s id => s.modifyMemblock id (Memblock.dropContext context)) s

def ContextResources.release (resources : ContextResources) (s : ProcessState) : Option ProcessState := do
  let s ← resources.mallocs.foldlM (releaseMalloc refuses)
    { s with mallocPeers := dropPeers resources.context s.mallocPeers }
  some (dropContexts resources.context resources.memblocks s)

end Release

/-- The registry is not active, or a driver query under the lock failed. -/
inductive Refusal where
  | notReady
  | driver (code : ℕ)

/-- `cuDevicePrimaryCtxGetState` and `cuDevicePrimaryCtxRetain` under the lock. -/
inductive PrimaryQuery where
  | failed (code : ℕ)
  | inactive
  | active (context : ℕ)

def primaryContext : PrimaryQuery → Except Refusal ℕ
  | .failed code => .error (.driver code)
  | .inactive => .ok 0
  | .active context => .ok context

/-- How the call ended for the application, if the process goes on. -/
inductive Answer where
  | success
  | error (code : ℕ)

/-- A section under the lock of a thread that uses other contexts only. Regions may be freed and opened or
closed again; a new one belongs to another context and comes with a new handle. No memblock is recorded
under the context. -/
structure OtherSection (c : ℕ) (s t : ProcessState) : Prop where
  regions : ∀ (a : ℕ) (r : MallocRegion), t.mallocRegions[a]? = some r →
    (∃ r' : MallocRegion, s.mallocRegions[a]? = some r' ∧ r'.virtualAllocationHandle = r.virtualAllocationHandle ∧
      r'.context = r.context) ∨
    r.context ≠ c ∧ s.nextVirtualAllocationHandle ≤ r.virtualAllocationHandle
  next : s.nextVirtualAllocationHandle ≤ t.nextVirtualAllocationHandle
  memblocks : ∀ (id : AllocationId) (b : Memblock), t.memblocks[id]? = some b → b.context = c →
    ∃ b' : Memblock, s.memblocks[id]? = some b' ∧ b'.context = c

theorem OtherSection.refl (c : ℕ) (s : ProcessState) : OtherSection c s s :=
  ⟨fun _ r hr => .inl ⟨r, hr, rfl, rfl⟩, le_rfl, fun _ b hb hc => ⟨b, hb, hc⟩⟩

/-- Sections one after the other are like one. -/
theorem OtherSection.trans {c : ℕ} {s t v : ProcessState} (h : OtherSection c s t) (h' : OtherSection c t v) :
    OtherSection c s v := by
  refine ⟨fun a r hr => ?_, h.next.trans h'.next, fun id b hb hc => ?_⟩
  · rcases h'.regions a r hr with ⟨r', hr', hhandle, hcontext⟩ | ⟨hcontext, hnew⟩
    · rcases h.regions a r' hr' with ⟨r'', hr'', hhandle', hcontext'⟩ | ⟨hcontext', hnew⟩
      · exact .inl ⟨r'', hr'', hhandle'.trans hhandle, hcontext'.trans hcontext⟩
      · exact .inr ⟨hcontext ▸ hcontext', hhandle ▸ hnew⟩
    · exact .inr ⟨hcontext, h.next.trans hnew⟩
  · obtain ⟨b', hb', hc'⟩ := h'.memblocks id b hb hc
    exact h.memblocks id b' hb' hc'

section Unmap

variable {refuses : DriverCall → Bool}

/-- The memblocks that the release of a region can change. -/
def Backs (s : ProcessState) (a : ℕ) (r : MallocRegion) (id : AllocationId) : Prop :=
  s.mappings[a]?.map (·.id) = some id ∨ s.virtualAllocationHandles[r.virtualAllocationHandle]?.map (·.id) = some id

/-- No memblock comes up, and none changes its context. -/
def ContextsKept (m n : ExtTreeMap AllocationId Memblock) : Prop :=
  ∀ (id : AllocationId) (b : Memblock), n[id]? = some b → ∃ b' : Memblock, m[id]? = some b' ∧ b'.context = b.context

theorem contextsKept_refl (m : ExtTreeMap AllocationId Memblock) : ContextsKept m m := fun _ b hb => ⟨b, hb, rfl⟩

theorem ContextsKept.trans {l m n : ExtTreeMap AllocationId Memblock} (h : ContextsKept l m) (h' : ContextsKept m n) :
    ContextsKept l n := by
  intro id b hb
  obtain ⟨b', hb', hc⟩ := h' id b hb
  obtain ⟨b'', hb'', hc'⟩ := h id b' hb'
  exact ⟨b'', hb'', hc'.trans hc⟩

/-- What the end of a region does. -/
structure Unmapped (a : ℕ) (r : MallocRegion) (s t : ProcessState) : Prop where
  regions : t.mallocRegions = s.mallocRegions.erase a
  peers : t.mallocPeers = s.mallocPeers
  mappings : t.mappings = s.mappings.erase a
  unmapped : t.unmapped = s.unmapped ++ [(a, r.extent)]
  released : t.released = s.released ++ [r.virtualAllocationHandle]
  handles : ∀ h : VirtualAllocationHandle, h ≠ r.virtualAllocationHandle → t.virtualAllocationHandles[h]? = s.virtualAllocationHandles[h]?
  ids : ∀ (h : VirtualAllocationHandle) (e : HandleEntry), t.virtualAllocationHandles[h]? = some e →
    ∃ e' : HandleEntry, s.virtualAllocationHandles[h]? = some e' ∧ e'.id = e.id
  contexts : ContextsKept s.memblocks t.memblocks
  memblocks : ∀ i : AllocationId, ¬ Backs s a r i → t.memblocks[i]? = s.memblocks[i]?

end Unmap

/-! ## All regions -/

section Sweep

variable {refuses : DriverCall → Bool} {noted : List (ℕ × VirtualAllocationHandle)}

/-- What a pass over noted regions does: `l` are those that were still there. -/
structure Swept (noted : List (ℕ × VirtualAllocationHandle)) (s t : ProcessState) (l : List (ℕ × MallocRegion)) : Prop where
  mem : ∀ p : ℕ × MallocRegion, p ∈ l ↔ s.mallocRegions[p.1]? = some p.2 ∧ (p.1, p.2.virtualAllocationHandle) ∈ noted
  nodup : (l.map (·.1)).Nodup
  regions : ∀ a : ℕ, t.mallocRegions[a]? = if a ∈ l.map (·.1) then none else s.mallocRegions[a]?
  peers : t.mallocPeers = s.mallocPeers
  mappings : ∀ a : ℕ, a ∉ l.map (·.1) → t.mappings[a]? = s.mappings[a]?
  unmapped : t.unmapped = s.unmapped ++ l.map fun p => (p.1, p.2.extent)
  released : t.released = s.released ++ l.map (·.2.virtualAllocationHandle)
  handles : ∀ h : VirtualAllocationHandle, h ∉ l.map (·.2.virtualAllocationHandle) →
    t.virtualAllocationHandles[h]? = s.virtualAllocationHandles[h]?
  contexts : ContextsKept s.memblocks t.memblocks
  memblocks : ∀ i : AllocationId, (∀ p ∈ l, ¬ Backs s p.1 p.2 i) → t.memblocks[i]? = s.memblocks[i]?

theorem Swept.nil (s : ProcessState) : Swept [] s s [] :=
  ⟨by simp, List.nodup_nil, by simp, rfl, fun _ _ => rfl, by simp, by simp, fun _ _ => rfl, contextsKept_refl _,
    fun _ _ => rfl⟩

/-- What backs a region after another one was released did so before. -/
theorem Unmapped.backs {a b : ℕ} {r q : MallocRegion} {s t : ProcessState} (h : Unmapped a r s t) {i : AllocationId}
    (hbacks : Backs t b q i) : Backs s b q i := by
  rcases hbacks with hmapping | hhandle
  · rw [h.mappings, Option.map_eq_some_iff] at hmapping
    obtain ⟨m, hm, hid⟩ := hmapping
    exact .inl (by rw [(OrderedMap.getElem?_erase_eq_some.1 hm).2, Option.map_some, hid])
  · rw [Option.map_eq_some_iff] at hhandle
    obtain ⟨e, he, hid⟩ := hhandle
    obtain ⟨e', he', hid'⟩ := h.ids _ e he
    exact .inr (by rw [he', Option.map_some, hid', hid])

theorem Swept.cons {s t v : ProcessState} {l : List (ℕ × MallocRegion)} {a : ℕ} {r : MallocRegion}
    (hr : s.mallocRegions[a]? = some r) (hfirst : Unmapped a r s t) (h : Swept noted t v l) :
    Swept ((a, r.virtualAllocationHandle) :: noted) s v ((a, r) :: l) := by
  have herased : ∀ b : ℕ, t.mallocRegions[b]? = if a = b then none else s.mallocRegions[b]? := by
    intro b
    rw [hfirst.regions, ExtTreeMap.getElem?_erase]
    simp
  have hfresh : a ∉ l.map (·.1) := by
    intro hmem
    obtain ⟨p, hp, rfl⟩ := List.mem_map.1 hmem
    have hregion := ((h.mem p).1 hp).1
    rw [herased, if_pos rfl] at hregion
    cases hregion
  refine ⟨fun p => ?_, List.nodup_cons.2 ⟨hfresh, h.nodup⟩, fun b => ?_, h.peers.trans hfirst.peers, fun b hb => ?_, ?_, ?_,
    fun k hk => ?_, hfirst.contexts.trans h.contexts, fun i hi => ?_⟩
  · obtain ⟨b, q⟩ := p
    rw [List.mem_cons, h.mem, herased, List.mem_cons]
    by_cases hba : a = b
    · subst hba
      rw [if_pos rfl, hr, Option.some.injEq]
      constructor
      · rintro (heq | ⟨hnone, -⟩)
        · cases heq
          exact ⟨rfl, .inl rfl⟩
        · cases hnone
      · rintro ⟨rfl, -⟩
        exact .inl rfl
    · rw [if_neg hba]
      constructor
      · rintro (heq | ⟨hq, hnoted⟩)
        · exact absurd (congrArg Prod.fst heq).symm hba
        · exact ⟨hq, .inr hnoted⟩
      · rintro ⟨hq, heq | hnoted⟩
        · exact absurd (congrArg Prod.fst heq).symm hba
        · exact .inr ⟨hq, hnoted⟩
  · rw [h.regions, herased]
    by_cases hba : a = b
    · simp [hba]
    · have hmem : b ∈ ((a, r) :: l).map (·.1) ↔ b ∈ l.map (·.1) := by
        rw [List.map_cons, List.mem_cons, or_iff_right (Ne.symm hba)]
      simp only [hmem, if_neg hba]
  · rw [List.map_cons, List.mem_cons, not_or] at hb
    rw [h.mappings b hb.2, hfirst.mappings, ExtTreeMap.getElem?_erase, if_neg (by simpa using Ne.symm hb.1)]
  · rw [h.unmapped, hfirst.unmapped, List.map_cons, List.append_assoc, List.singleton_append]
  · rw [h.released, hfirst.released, List.map_cons, List.append_assoc, List.singleton_append]
  · rw [List.map_cons, List.mem_cons, not_or] at hk
    rw [h.handles k hk.2, hfirst.handles k hk.1]
  · rw [h.memblocks i fun p hp hbacks => hi p (List.mem_cons_of_mem _ hp) (hfirst.backs hbacks)]
    exact hfirst.memblocks i (hi (a, r) List.mem_cons_self)

end Sweep

/-! ## What is left of a context -/

section Peers

variable {c : ℕ} {peers : ExtTreeMap ℕ (ExtTreeMap ℕ ℤ)}

end Peers

section Capture

variable {c : ℕ} {s s₁ : ProcessState}

end Capture

end Interpose
