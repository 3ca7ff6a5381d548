import Mathlib.Algebra.BigOperators.Fin
import Mathlib.Algebra.Order.BigOperators.Group.Finset

/-!
# References of many processes

Each process holds a number of references, as its state says. A counter is right if it is
the sum over the processes, and a step of one process changes the sum by what it changes
of its own.
-/

namespace SipRouter.Lib

open Function

variable {ι κ : Type} [Fintype ι]

/-- The references that all processes hold together. -/
def shares (refs : κ → Nat) (point : ι → κ) : Nat := ∑ i, refs (point i)

theorem le_shares (refs : κ → Nat) (point : ι → κ) (i : ι) : refs (point i) ≤ shares refs point :=
  Finset.single_le_sum (f := fun i => refs (point i)) (fun _ _ => Nat.zero_le _) (Finset.mem_univ i)

theorem shares_update [DecidableEq ι] (refs : κ → Nat) (point : ι → κ) (i : ι) (k : κ) :
    shares refs (update point i k) + refs (point i) = shares refs point + refs k := by
  have hrest : ∑ j ∈ Finset.univ.erase i, refs (update point i k j) = ∑ j ∈ Finset.univ.erase i, refs (point j) := by
    apply Finset.sum_congr rfl
    intro j hj
    rw [update_of_ne (Finset.ne_of_mem_erase hj)]
  rw [shares, shares, ← Finset.add_sum_erase _ _ (Finset.mem_univ i),
    ← Finset.add_sum_erase _ _ (Finset.mem_univ i), hrest, update_self]
  omega

theorem shares_eq_zero {refs : κ → Nat} {point : ι → κ} : shares refs point = 0 ↔ ∀ i, refs (point i) = 0 := by
  simp [shares]

end SipRouter.Lib
