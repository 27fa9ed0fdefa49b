import Mathlib.Data.List.Nodup
import Mathlib.Logic.Relation

/-! Nodes handed out by a queue, each of which puts its successors at the end. The queue keeps an account:
what it has handed out and what it still holds are together the root and one entry for every edge out of a
node that it has handed out. So a queue that runs empty has handed out what the root reaches, and a node
twice exactly where two edges lead to it. -/
namespace QueueWalk

variable {α : Type} (next : α → List α)

/-- `y` is reached from `x` along edges. -/
def Reaches : α → α → Prop := Relation.ReflTransGen fun x y => y ∈ next x

/-- A queue that began with the root has handed out `seen` and holds `queue`. -/
structure Walk (root : α) (seen queue : List α) : Prop where
  account : (seen ++ queue).Perm (root :: seen.flatMap next)
  reached : ∀ x ∈ seen ++ queue, Reaches next root x

variable {next} {root x y : α} {seen queue : List α}

theorem Walk.start : Walk next root [] [root] where
  account := by simp
  reached := by
    intro x hx
    rw [List.nil_append, List.mem_singleton] at hx
    exact hx ▸ .refl

theorem Walk.step (h : Walk next root seen (x :: queue)) :
    Walk next root (seen ++ [x]) (queue ++ next x) := by
  constructor
  · have hcons : (seen ++ [x] ++ (queue ++ next x)) = (seen ++ x :: queue) ++ next x := by simp
    rw [hcons, List.flatMap_append, List.flatMap_singleton, ← List.cons_append]
    exact h.account.append_right _
  · intro y hy
    have hx : Reaches next root x := h.reached x (by simp)
    simp only [List.mem_append, List.mem_singleton] at hy
    rcases hy with (hy | rfl) | hy | hy
    · exact h.reached y (List.mem_append_left _ hy)
    · exact hx
    · exact h.reached y (List.mem_append_right _ (List.mem_cons_of_mem _ hy))
    · exact hx.tail hy

/-- An empty queue has handed out what the root reaches. -/
theorem Walk.mem_seen (h : Walk next root seen []) : x ∈ seen ↔ Reaches next root x := by
  have hperm := h.account
  rw [List.append_nil] at hperm
  constructor
  · intro hx
    exact h.reached x (List.mem_append_left _ hx)
  · intro hx
    induction hx with
    | refl => exact hperm.mem_iff.2 List.mem_cons_self
    | tail _ hedge ih =>
      exact hperm.mem_iff.2 (List.mem_cons_of_mem _ (List.mem_flatMap.2 ⟨_, ih, hedge⟩))

/-- A root that was handed out once has no edge into it. -/
theorem Walk.root_not_mem_next (h : Walk next root seen []) (hnodup : seen.Nodup)
    (hx : Reaches next root x) : root ∉ next x := by
  intro hroot
  have hperm := h.account
  rw [List.append_nil] at hperm
  have hcons := (List.nodup_cons.1 (hperm.nodup_iff.1 hnodup)).1
  exact hcons (List.mem_flatMap.2 ⟨x, h.mem_seen.2 hx, hroot⟩)

section Single

variable (hsingle : ∀ x y z, z ∈ next x → z ∈ next y → x = y)
include hsingle

/-- Where no two nodes have a successor in common, a cycle that the root reaches passes through it. -/
theorem root_on_cycle (hx : Reaches next root x) (hcycle : Relation.TransGen (fun x y => y ∈ next x) x x) :
    Relation.TransGen (fun x y => y ∈ next x) root root := by
  induction hx with
  | refl => exact hcycle
  | @tail y z _ hedge ih =>
    -- the last edge of the cycle leaves the node that the walk came from
    obtain ⟨w, hreach, hlast⟩ := Relation.TransGen.tail'_iff.1 hcycle
    have hw : w = y := hsingle w y z hlast hedge
    subst hw
    exact ih (Relation.TransGen.head' hedge hreach)

/-- Where moreover nothing leads back to the root, no node is queued twice. -/
theorem Walk.nodup (hnext : ∀ x, (next x).Nodup) (hroot : ∀ x, Reaches next root x → root ∉ next x)
    (h : Walk next root seen queue) (hseen : seen.Nodup) : (seen ++ queue).Nodup := by
  rw [h.account.nodup_iff, List.nodup_cons, List.nodup_flatMap]
  refine ⟨?_, fun x _ => hnext x, hseen.imp ?_⟩
  · intro hmem
    obtain ⟨x, hx, hedge⟩ := List.mem_flatMap.1 hmem
    exact hroot x (h.reached x (List.mem_append_left _ hx)) hedge
  · intro x y hne z hzx hzy
    exact hne (hsingle x y z hzx hzy)

end Single

end QueueWalk
