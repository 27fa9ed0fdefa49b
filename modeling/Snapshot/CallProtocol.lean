import Snapshot.Interleaving

/-! Processes whose calls follow a protocol: what a process has done so far, as far as its calls tell
it, decides which call may come next. Such a process can be followed step by step in any pool, whatever
the calls are answered. -/
namespace Interleaving

variable {I : Interface} {σ α β : Type}

structure Protocol (I : Interface) (σ : Type) where
  allows : σ → I.Call → Prop
  after : σ → (c : I.Call) → I.Answer c → σ

namespace Process

def Follows (P : Protocol I σ) (Q : α → σ → Prop) : Process I α → σ → Prop
  | done a, s => Q a s
  | call c k, s => P.allows s c ∧ ∀ a, (k a).Follows P Q (P.after s c a)

variable {P : Protocol I σ} {s : σ}

theorem Follows.mono {Q R : α → σ → Prop} {p : Process I α} (h : p.Follows P Q s)
    (hQ : ∀ a s, Q a s → R a s) : p.Follows P R s := by
  induction p generalizing s with
  | done a => exact hQ a s h
  | call c k ih => exact ⟨h.1, fun a => ih a (h.2 a)⟩

end Process

end Interleaving
