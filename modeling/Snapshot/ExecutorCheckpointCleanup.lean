import Snapshot.ExecutorCheckpoint

/-! The cleanup discipline of a checkpoint, over every way in which its steps succeed and fail. -/
namespace ExecutorCheckpoint

open LockedProgram Program CaptureErrors

/-! ## The account of the steps -/

/-- What happened to the transaction and the source, with the error of a step that failed. -/
inductive Event where
  | prepare (gpu : Bool) (failure : Option Err)
  | capture (failure : Option Err)
  | commit (failure : Option Err)
  | abort (failure : Option Err)

/-- Whatever is found in an error is found in the other. -/
structure Reaches (e' e : Err) : Prop where
  is : ∀ test, e.is test = true → e'.is test = true
  as : ∀ {α : Type} (take : Value → Option α) (v : α), e.as take = some v → e'.as take = some v

section Rules

variable {s : Locals} {x : List Event}

end Rules

section Stages

variable {e : Err}

end Stages

theorem Reaches.refl (e : Err) : Reaches e e := ⟨fun _ h => h, fun _ _ h => h⟩

section Deferred

variable {r : Except Err (Option Artifact)} {s : Locals} {x : List Event} {e : Err}

end Deferred

end ExecutorCheckpoint
