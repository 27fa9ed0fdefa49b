import Snapshot.CuInterposeProtocol

/-! The CUDA codes that the records of a checkpoint carry. -/
namespace CuInterpose

/-- `CUmemAllocationType`. -/
inductive MemAllocationType where
  | invalid
  | pinned
  | managed
  deriving DecidableEq, Repr

def MemAllocationType.code : MemAllocationType → ℕ
  | invalid => 0
  | pinned => 1
  | managed => 2

/-- `CUmemLocationType`. -/
inductive MemLocationType where
  | invalid
  | device
  | host
  | hostNuma
  | hostNumaCurrent
  deriving DecidableEq, Repr

def MemLocationType.code : MemLocationType → ℕ
  | invalid => 0
  | device => 1
  | host => 2
  | hostNuma => 3
  | hostNumaCurrent => 4

/-- The bits of `CUmemAllocationHandleType`. -/
def handleTypePosixFileDescriptor : ℕ := 1

end CuInterpose
