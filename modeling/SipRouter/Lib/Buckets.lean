import Mathlib

/-!
# Families of lists

A family of lists `b : κ → List α` in which an element is moved between the
lists. `Placed b x k` says that `x` occurs exactly once in the whole family,
in the list `k`; `Absent b x` that it occurs nowhere. The operations are
`push` (append one element), `drop` (remove an element everywhere) and `spill`
(empty one list, appending each of its elements to a list of its own choice).
-/

namespace SipRouter.Lib.Buckets

open List Function

variable {κ α : Type} [DecidableEq α]

/-- `x` occurs in no list. -/
def Absent (b : κ → List α) (x : α) : Prop := ∀ g, (b g).count x = 0

def drop (x : α) (b : κ → List α) : κ → List α := fun g => (b g).filter (· ≠ x)

variable {b : κ → List α} {x : α} {k h : κ}

theorem Absent.not_mem (h : Absent b x) (g : κ) : x ∉ b g := count_eq_zero.1 (h g)

theorem absent_drop (x : α) (b : κ → List α) : Absent (drop x b) x := by
  intro g
  simp [drop, count_eq_zero]

theorem count_drop_ne {y} (hy : y ≠ x) (b : κ → List α) (g : κ) :
    (drop x b g).count y = (b g).count y :=
  count_filter (by simpa using hy)

variable [DecidableEq κ] {f : α → κ}

/-- `x` occurs once, in the list `k`. -/
def Placed (b : κ → List α) (x : α) (k : κ) : Prop := ∀ g, (b g).count x = if g = k then 1 else 0

def push (k : κ) (x : α) (b : κ → List α) : κ → List α := update b k (b k ++ [x])

/-- Empty the list `h`, appending each element to the list `f` gives for it. -/
def spill (f : α → κ) (h : κ) (b : κ → List α) : κ → List α := update ((b h).foldl (fun b x => push (f x) x b) b) h []

theorem Placed.mem_iff (h : Placed b x k) {g} : x ∈ b g ↔ g = k := by
  rw [← count_pos_iff, h g]
  split <;> simp_all

theorem Placed.unique {k'} (h : Placed b x k) (h' : Placed b x k') : k = k' := h'.mem_iff.1 (h.mem_iff.2 rfl)

theorem count_push (k : κ) (x y : α) (b : κ → List α) (g : κ) :
    (push k x b g).count y = (b g).count y + if g = k ∧ x = y then 1 else 0 := by
  unfold push
  by_cases hg : g = k
  · subst hg
    rw [update_self, count_append, count_singleton]
    simp
  · simp [hg]

theorem Absent.push (h : Absent b x) (k : κ) : Placed (push k x b) x k := by
  intro g
  simp [count_push, h g]

/-- Pushing a whole list adds its elements to the lists they choose. -/
theorem count_foldl_push (l : List α) (y : α) (g : κ) :
    (l.foldl (fun b x => push (f x) x b) b g).count y = (b g).count y + if g = f y then l.count y else 0 := by
  induction l generalizing b with
  | nil => simp
  | cons a l ih =>
    rw [foldl_cons, ih, count_push, count_cons]
    by_cases ha : a = y
    · subst ha
      by_cases hg : g = f a
      · simp [hg]
        omega
      · simp [hg]
    · simp [ha]

omit [DecidableEq α] in
theorem foldl_push_const (k : κ) (l : List α) (b : κ → List α) :
    l.foldl (fun b x => push k x b) b = update b k (b k ++ l) := by
  induction l generalizing b with
  | nil => simp
  | cons a l ih => rw [foldl_cons, ih, push]; simp

omit [DecidableEq α] in
/-- A list that no element chooses stays as it is. -/
theorem spill_of_ne {g} (hg : g ≠ h) (hf : ∀ x, f x ≠ g) : spill f h b g = b g := by
  have hfold : ∀ (l : List α) (b : κ → List α), l.foldl (fun b x => push (f x) x b) b g = b g := by
    intro l
    induction l with
    | nil => exact fun _ => rfl
    | cons a l ih =>
      intro b
      rw [foldl_cons, ih, push, update_of_ne (hf a).symm]
  rw [spill, update_of_ne hg, hfold]

theorem count_spill {h y g} :
    (spill f h b g).count y = if g = h then 0 else (b g).count y + if g = f y then (b h).count y else 0 := by
  unfold spill
  by_cases hg : g = h
  · subst hg
    simp
  · simp [hg, count_foldl_push]

/-- An element of the emptied list goes to the list it chooses. -/
theorem Placed.spill_self (hx : Placed b x h) (hf : f x ≠ h) : Placed (spill f h b) x (f x) := by
  intro g
  rw [count_spill, hx g, hx h]
  by_cases hg : g = h
  · subst hg
    simp [hf.symm]
  · simp [hg]

/-- An element of another list stays where it is. -/
theorem Placed.spill_ne (hx : Placed b x k) (hk : k ≠ h) {f} : Placed (spill f h b) x k := by
  intro g
  rw [count_spill, hx g, hx h]
  by_cases hg : g = h
  · subst hg
    simp [hk.symm]
  · simp [hg, hk.symm]

theorem Absent.spill (hx : Absent b x) (f : α → κ) (h : κ) : Absent (spill f h b) x := by
  intro g
  rw [count_spill, hx g, hx h]
  simp

end SipRouter.Lib.Buckets
