import Mathlib.Logic.Function.Basic

/-!
# A lock that processes take and release

Which processes hold the lock is seen from where they are. A step of a process takes the
lock, if it is free, releases it, or leaves it.
-/

namespace SipRouter.Lib

open Function

/-- What a step does to the lock: if the process holds it and if it is locked, before and after. -/
inductive LockStep : Bool → Bool → Bool → Bool → Prop
  | keep (crit locked : Bool) : LockStep crit locked crit locked
  | take : LockStep false false true true
  | release (locked : Bool) : LockStep true locked false false

theorem LockStep.unlocked {locked crit} (h : LockStep false locked crit false) : locked = false := by
  cases h with
  | keep => rfl

theorem LockStep.agree {locked crit locked' crit'} (h : LockStep crit locked crit' locked')
    (ha : locked = crit) : locked' = crit' := by
  cases h with
  | keep => exact ha
  | take | release => rfl

variable {ι : Type}

/-- The lock is held by one process, or by none if it is free. -/
structure Mutex (crit : ι → Bool) (locked : Bool) : Prop where
  excl : ∀ i j, crit i = true → crit j = true → i = j
  held : ∀ i, crit i = true → locked = true
  holder : locked = true → ∃ i, crit i = true

variable [DecidableEq ι] {crit : ι → Bool} {locked : Bool} {i : ι}

namespace Mutex

theorem take (h : Mutex crit false) (i : ι) : Mutex (update crit i true) true := by
  have hfree : ∀ j, crit j ≠ true := fun j hj => absurd (h.held j hj) (by decide)
  have honly : ∀ j, update crit i true j = true → j = i := by
    intro j hj
    by_contra hne
    rw [update_of_ne hne] at hj
    exact hfree j hj
  refine ⟨fun j k hj hk => ?_, fun _ _ => rfl, fun _ => ⟨i, update_self _ _ _⟩⟩
  rw [honly j hj, honly k hk]

theorem release (h : Mutex crit locked) (hi : crit i = true) : Mutex (update crit i false) false := by
  have hnone : ∀ j, update crit i false j ≠ true := by
    intro j hj
    rcases eq_or_ne j i with rfl | hne
    · rw [update_self] at hj
      exact absurd hj (by decide)
    · rw [update_of_ne hne] at hj
      exact hne (h.excl j i hj hi)
  exact ⟨fun j _ hj => absurd hj (hnone j), fun j hj => absurd hj (hnone j), fun hl => absurd hl (by decide)⟩

theorem step {crit' locked'} (h : Mutex crit locked) (hs : LockStep (crit i) locked crit' locked') :
    Mutex (update crit i crit') locked' := by
  generalize hi : crit i = c at hs
  cases hs with
  | keep =>
    rw [← hi, update_eq_self]
    exact h
  | take => exact h.take i
  | release => exact h.release hi

end Mutex

end SipRouter.Lib
