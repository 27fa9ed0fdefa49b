import Snapshot.CoordinatorTopologyAccept

/-! The save and load plan: the owners and byte counts that the coordinator computes from the collected
records. -/
namespace Coordinator

open Std (ExtTreeMap)
open CuInterpose

/-- `expected_bytes` of `command_all`; none is an overflow. -/
def expectedBytes (allocations : List AllocationSummary) (pid : NamespacePid) : Option ℕ :=
  (allocations.filter fun a => a.usesHostCarrier ∧ a.ownerPid = pid).foldlM
    (fun sum a => checkedAdd sum a.size) 0

/-- The owners that `command_all` sends a participant with `SaveAllocations`. -/
def ownersFor (allocations : List AllocationSummary) (pid : NamespacePid) :
    List AllocationOwner :=
  (allocations.filter fun a => a.usesHostCarrier ∧ pid ∈ a.holders).map fun a =>
    ⟨a.reference, a.ownerPid⟩

end Coordinator
