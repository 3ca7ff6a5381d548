import Mathlib

/-!
# Loops

The body of a loop is a function `f : σ → σ ⊕ ρ` that goes on from a new state
or ends with a result. `Loops f s r` says that the loop started in `s` ends
with `r`; `loop f n` runs it for at most `n` rounds.
-/

namespace SipRouter.Lib

variable {σ ρ : Type}

/-- The loop started in `s` ends with `r`. -/
inductive Loops (f : σ → σ ⊕ ρ) : σ → ρ → Prop
  | done {s : σ} {r : ρ} (h : f s = .inr r) : Loops f s r
  | next {s t : σ} {r : ρ} (h : f s = .inl t) (ht : Loops f t r) : Loops f s r

/-- At most `n` rounds of the loop. -/
def loop (f : σ → σ ⊕ ρ) : Nat → σ → Option ρ
  | 0, _ => none
  | n + 1, s =>
    match f s with
    | .inr r => some r
    | .inl t => loop f n t

variable {f : σ → σ ⊕ ρ} {s : σ} {r : ρ} {n : Nat}

theorem Loops.det {r'} (h : Loops f s r) (h' : Loops f s r') : r = r' := by
  induction h with
  | done hf =>
    cases h' with
    | done hf' => rw [hf] at hf'; exact Sum.inr.inj hf'
    | next hf' _ => rw [hf] at hf'; cases hf'
  | next hf _ ih =>
    cases h' with
    | done hf' => rw [hf] at hf'; cases hf'
    | next hf' ht' =>
      rw [hf] at hf'
      cases hf'
      exact ih ht'

theorem Loops.of_loop (h : loop f n s = some r) : Loops f s r := by
  induction n generalizing s with
  | zero => cases h
  | succ n ih =>
    simp only [loop] at h
    cases hf : f s with
    | inr r' =>
      rw [hf] at h
      cases h
      exact .done hf
    | inl t =>
      rw [hf] at h
      exact .next hf (ih h)

/-- Two states with the same next step end alike. -/
theorem Loops.congr {t} (h : Loops f s r) (hst : f t = f s) : Loops f t r := by
  cases h with
  | done hf => exact .done (hst.trans hf)
  | next hf ht => exact .next (hst.trans hf) ht

/-- A loop whose measure goes down ends, under an invariant of its states. -/
theorem loop_isSome (I : σ → Prop) (μ : σ → Nat) (keep : ∀ {s t}, I s → f s = .inl t → I t)
    (down : ∀ {s t}, I s → f s = .inl t → μ t < μ s)
    (hs : I s) (hn : μ s < n) : ∃ r, loop f n s = some r := by
  induction n generalizing s with
  | zero => exact absurd hn (Nat.not_lt_zero _)
  | succ n ih =>
    simp only [loop]
    cases hf : f s with
    | inr r => exact ⟨r, rfl⟩
    | inl t => exact ih (keep hs hf) (Nat.lt_of_lt_of_le (down hs hf) (Nat.le_of_lt_succ hn))

/-- `P` holds at the start of each of the first `n` rounds. -/
def loopAll (f : σ → σ ⊕ ρ) (P : σ → Bool) : Nat → σ → Bool
  | 0, _ => true
  | n + 1, s =>
    P s &&
      match f s with
      | .inr _ => true
      | .inl t => loopAll f P n t

/-- An invariant that rounds keep while `P` holds gives what the last round makes of it. -/
theorem loop_induction {P} (I : σ → Prop) (Q : ρ → Prop) (keep : ∀ {s t}, I s → P s = true → f s = .inl t → I t)
    (last : ∀ {s r}, I s → P s = true → f s = .inr r → Q r) (hs : I s) (hP : loopAll f P n s = true)
    (h : loop f n s = some r) : Q r := by
  induction n generalizing s with
  | zero => cases h
  | succ n ih =>
    simp only [loopAll, Bool.and_eq_true] at hP
    simp only [loop] at h
    cases hf : f s with
    | inr r' =>
      rw [hf] at h
      cases h
      exact last hs hP.1 hf
    | inl t =>
      rw [hf] at h hP
      exact ih (keep hs hP.1 hf) hP.2 h

end SipRouter.Lib
