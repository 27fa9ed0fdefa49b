import Mathlib.Data.List.Basic

/-! Errors that wrap other errors, one or several at a time, and the depth-first search for a value
among them. -/

/-- An error without a cause, an error around one cause, or several errors at once. -/
inductive ErrorTree (L W : Type) where
  | leaf (value : L)
  | wrap (value : W) (cause : ErrorTree L W)
  | join (parts : List (ErrorTree L W))

namespace ErrorTree

variable {L W α : Type}

/-- Induction over the parts of a joined error. -/
theorem induction {motive : ErrorTree L W → Prop} (leaf : ∀ value, motive (leaf value))
    (wrap : ∀ value cause, motive cause → motive (wrap value cause))
    (join : ∀ parts, (∀ e ∈ parts, motive e) → motive (join parts)) (e : ErrorTree L W) : motive e :=
  @ErrorTree.rec L W motive (fun parts => ∀ e ∈ parts, motive e) leaf wrap join
    (fun _ h => absurd h List.not_mem_nil)
    (fun _ _ hhead htail _ he => (List.mem_cons.1 he).elim (fun heq => heq ▸ hhead) (htail _)) e

/-! ## The values of an error -/

mutual

/-- The values in the order of a depth-first search. -/
def values : ErrorTree L W → List (L ⊕ W)
  | leaf value => [.inl value]
  | wrap value cause => .inr value :: cause.values
  | join parts => valuesAll parts

def valuesAll : List (ErrorTree L W) → List (L ⊕ W)
  | [] => []
  | part :: rest => part.values ++ valuesAll rest

end

/-- `errors.As`: the first value that is taken. -/
def as (take : L ⊕ W → Option α) (e : ErrorTree L W) : Option α := e.values.findSome? take

/-- `errors.Is`: whether some value is the one looked for. -/
def is (test : L ⊕ W → Bool) (e : ErrorTree L W) : Bool := e.values.any test

variable {take : L ⊕ W → Option α} {test : L ⊕ W → Bool}

end ErrorTree
