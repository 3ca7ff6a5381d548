import Mathlib.Data.List.Perm.Basic

/-!
# Taking out one after the other

A function with a state that gives out what is left, one at a call, and then nothing. If
each call takes a least one of what is left, all of it comes out once and in order,
whatever else the calls decide.
-/

namespace SipRouter.Lib.Drain

open List

variable {σ β : Type}

/-- The results of `n` calls in a row, the first of them with number `k`. -/
def results (step : Nat → σ → Option β × σ) : Nat → Nat → σ → List (Option β)
  | _, 0, _ => []
  | k, n + 1, s => (step k s).1 :: results step (k + 1) n (step k s).2

/-- Each call takes out one of what is left, which is not greater than any of it; if nothing is left
it gives nothing. -/
structure Drains (step : Nat → σ → Option β × σ) (left : σ → List β) (le : β → β → Prop) (Inv : σ → Prop) : Prop where
  ends : ∀ k s, Inv s → left s = [] → (step k s).1 = none
  takes : ∀ k s, Inv s → left s ≠ [] → ∃ x s', step k s = (some x, s') ∧ Inv s' ∧ (left s).Perm (x :: left s') ∧
    ∀ y ∈ left s, le x y

theorem Drains.results {step : Nat → σ → Option β × σ} {left : σ → List β} {le : β → β → Prop} {Inv : σ → Prop}
    (h : Drains step left le Inv) {s : σ} (hs : Inv s) (k : Nat) : ∃ order :
    List β, order.Perm (left s) ∧ order.Pairwise le ∧
      results step k (order.length + 1) s = order.map some ++ [none] := by
  induction hn : (left s).length generalizing s k with
  | zero =>
    have hnil := length_eq_zero_iff.1 hn
    refine ⟨[], by rw [hnil], List.Pairwise.nil, ?_⟩
    simp only [length_nil, Drain.results, h.ends k s hs hnil, map_nil, nil_append]
  | succ n ih =>
    have hne : left s ≠ [] := by
      intro hnil
      rw [hnil] at hn
      cases hn
    obtain ⟨x, s', hstep, hs', hperm, hle⟩ := h.takes k s hs hne
    have hlen : (left s').length = n := by
      have := hperm.length_eq
      simp only [length_cons] at this
      omega
    obtain ⟨order, horder, hsorted, hresults⟩ := ih hs' (k + 1) hlen
    refine ⟨x :: order, (horder.cons x).trans hperm.symm, ?_, ?_⟩
    · refine pairwise_cons.2 ⟨fun y hy => ?_, hsorted⟩
      apply hle y
      exact hperm.mem_iff.2 (mem_cons_of_mem x (horder.mem_iff.1 hy))
    · simp only [length_cons, Drain.results, hstep, map_cons, cons_append]
      exact congrArg _ hresults

/-- What is left until it is given out is given out before the end. -/
theorem mem_of_results {step : Nat → σ → Option β × σ} (left : σ → List β) {x : β}
    (hkeeps : ∀ k s a, (step k s).1 = some a → x ∈ left s → a = x ∨ x ∈ left (step k s).2)
    (hends : ∀ k s, (step k s).1 = none → x ∉ left s) {order : List β} {k : Nat} {s : σ} (hs : x ∈ left s)
    (h : results step k (order.length + 1) s = order.map some ++ [none]) : x ∈ order := by
  induction order generalizing k s with
  | nil =>
    obtain ⟨hnone, -⟩ := cons.inj h
    exact absurd hs (hends k s hnone)
  | cons a order ih =>
    obtain ⟨hsome, hrest⟩ := cons.inj h
    rcases hkeeps k s a hsome hs with rfl | hs'
    · exact mem_cons_self
    · exact mem_cons_of_mem a (ih hs' hrest)

end SipRouter.Lib.Drain
