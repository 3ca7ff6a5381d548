import Mathlib.Order.Basic

/-!
# Progress in fair runs

A run is an infinite sequence of states with the operations between them. It is fair
to some kinds of operations if each of them comes again and again. Whoever waits for
something in a fair run gets it, if at each moment one kind of operation helps: it brings them nearer,
and until it comes no other operation takes them back (`Fair.eventually`).
-/

namespace SipRouter.Lib

variable {σ ο κ : Type}

/-- Operations of each kind come again and again. -/
def Fair (kind : ο → Option κ) (op : Nat → ο) : Prop := ∀ c i, ∃ j, i ≤ j ∧ kind (op j) = some c

/-- From `s` to `s'` by an operation of the kind `k` someone who waits has come nearer, or the
operation was not the one that helps and that one helps still. -/
inductive Nearer (rank : σ → Nat) (help : σ → κ) (s s' : σ) (k : Option κ) : Prop
  | closer (h : rank s' < rank s)
  | same (h : rank s' = rank s) (hhelp : help s' = help s) (hk : k ≠ some (help s))

/-- `P` holds from `i` on until the moment `Q`. -/
def Until (run : Nat → σ) (P : σ → Prop) (Q : Nat → Prop) (i : Nat) : Prop :=
  ∃ j, i ≤ j ∧ (∀ k, i ≤ k → k ≤ j → P (run k)) ∧ Q j

section Until

variable {run : Nat → σ} {P : σ → Prop} {Q : Nat → Prop} {i : Nat}

theorem Until.now (hP : P (run i)) (hQ : Q i) : Until run P Q i := by
  refine ⟨i, Nat.le_refl i, ?_, hQ⟩
  intro k hle hge
  obtain rfl : k = i := Nat.le_antisymm hge hle
  exact hP

theorem Until.next (hP : P (run i)) (h : Until run P Q (i + 1)) : Until run P Q i := by
  obtain ⟨j, hj, hPj, hQ⟩ := h
  refine ⟨j, by omega, ?_, hQ⟩
  intro k hle hge
  rcases Nat.eq_or_lt_of_le hle with rfl | hlt
  · exact hP
  · exact hPj k hlt hge

end Until

/-- Waiting ends in a fair run. -/
theorem Fair.eventually {kind : ο → Option κ} {op : Nat → ο} (hfair : Fair kind op)
    {run : Nat → σ} {P : σ → Prop} {Q : Nat → Prop} {rank : σ → Nat} {help : σ → κ} (hstep : ∀ i, P (run i) →
      Q i ∨ P (run (i + 1)) ∧ Nearer rank help (run i) (run (i + 1)) (kind (op i))) {i : Nat} (hi :
        P (run i)) : Until run P Q i := by
  generalize hn : rank (run i) = n
  induction n using Nat.strongRecOn generalizing i with
  | ind n ih =>
    obtain ⟨j, hj, hkind⟩ := hfair (help (run i)) i
    obtain ⟨d, rfl⟩ := Nat.exists_eq_add_of_le hj
    clear hj
    -- while the rank stays, the operation that helps is `d` steps away
    induction d generalizing i with
    | zero =>
      rcases hstep i hi with hQ | ⟨hP, hnear⟩
      · exact .now hi hQ
      · cases hnear with
        | closer h => exact .next hi (ih _ (hn ▸ h) hP rfl)
        | same _ _ hk => exact absurd hkind hk
    | succ d ihd =>
      rcases hstep i hi with hQ | ⟨hP, hnear⟩
      · exact .now hi hQ
      · cases hnear with
        | closer h => exact .next hi (ih _ (hn ▸ h) hP rfl)
        | same h hhelp _ =>
          refine .next hi (ihd hP (h.trans hn) ?_)
          rw [hhelp, Nat.add_right_comm, Nat.add_assoc]
          exact hkind

end SipRouter.Lib
