import Mathlib.Data.List.Basic

/-!
# Lists with elements taken out

`Thin P l m` says that `m` is `l` without some of its elements, and that each of those met `P`. What a search
finds in `l` it finds in `m`, if that was not taken out.
-/

namespace SipRouter.Lib

variable {α : Type} {P Q : α → Prop} {l m n : List α} {a : α}

inductive Thin (P : α → Prop) : List α → List α → Prop
  | nil : Thin P [] []
  | keep {l m : List α} (a : α) (h : Thin P l m) : Thin P (a :: l) (a :: m)
  | drop {l m : List α} {a : α} (ha : P a) (h : Thin P l m) : Thin P (a :: l) m

namespace Thin

theorem refl (P : α → Prop) : ∀ l : List α, Thin P l l
  | [] => .nil
  | a :: l => .keep a (refl P l)

theorem sublist (h : Thin P l m) : m.Sublist l := by
  induction h with
  | nil => exact .slnil
  | keep a _ ih => exact ih.cons_cons a
  | drop _ _ ih => exact ih.cons _

theorem mono (h : Thin P l m) (hPQ : ∀ a, P a → Q a) : Thin Q l m := by
  induction h with
  | nil => exact .nil
  | keep a _ ih => exact .keep a ih
  | drop ha _ ih => exact .drop (hPQ _ ha) ih

theorem trans (h : Thin P l m) (h' : Thin P m n) : Thin P l n := by
  induction h generalizing n with
  | nil => exact h'
  | keep a _ ih =>
    cases h' with
    | keep _ h' => exact .keep a (ih h')
    | drop ha h' => exact .drop ha (ih h')
  | drop ha _ ih => exact .drop ha (ih h')

/-- The first element that meets a test stays the first, unless it is taken out. -/
theorem find?_eq {p} (h : Thin P l m) (hl : l.find? p = some a) (ha : ¬ P a) : m.find? p = some a := by
  induction h with
  | nil => exact hl
  | keep b _ ih =>
    rw [List.find?_cons] at hl ⊢
    cases hb : p b with
    | true => rwa [hb] at hl
    | false =>
      rw [hb] at hl
      exact ih hl
  | @drop _ _ b hb _ ih =>
    rw [List.find?_cons] at hl
    cases hpb : p b with
    | true =>
      rw [hpb] at hl
      cases hl
      exact absurd hb ha
    | false =>
      rw [hpb] at hl
      exact ih hl

end Thin

end SipRouter.Lib
