import Mathlib.Data.List.Basic

/-!
# The longest registered word

`reg` maps some words to values. Among the words that meet `C`, a longest registered one
is wanted (`Longest`), or none if no such word is registered. Words with a common first
letter `d` are registered below it, by `fun q => reg (d :: q)`, and a longest word there
is a longest one here, unless there is none (`Longest.cons`).
-/

namespace SipRouter.Lib

open List

variable {κ β : Type}

/-- `r` is a longest registered word that meets `C`, with its value. -/
def Longest (reg : List κ → Option β) (C : List κ → Prop) : Option (List κ × β) → Prop
  | none => ∀ q, C q → reg q = none
  | some (p, v) => C p ∧ reg p = some v ∧ ∀ q, C q → reg q ≠ none → q.length ≤ p.length

namespace Longest

variable {reg : List κ → Option β} {C C' : List κ → Prop} {r : Option (List κ × β)}

theorem congr (h : Longest reg C r) (hC : ∀ q, C' q ↔ C q) : Longest reg C' r := by
  cases r with
  | none => exact fun q hq => h q ((hC q).1 hq)
  | some x => exact ⟨(hC _).2 h.1, h.2.1, fun q hq => h.2.2 q ((hC q).1 hq)⟩

/-- The empty word, and what is registered below a first letter. -/
theorem cons (d : κ) (h : Longest (fun q => reg (d :: q)) C r) :
    Longest reg (fun q => q = [] ∨ ∃ q', q = d :: q' ∧ C q')
      ((r.map fun x => (d :: x.1, x.2)).or ((reg []).map fun v => ([], v))) := by
  cases r with
  | some x =>
    obtain ⟨p, v⟩ := x
    refine ⟨.inr ⟨p, rfl, h.1⟩, h.2.1, ?_⟩
    rintro q (rfl | ⟨q, rfl, hq⟩) hreg
    · exact Nat.zero_le _
    · exact Nat.succ_le_succ (h.2.2 q hq hreg)
  | none =>
    cases hnil : reg [] with
    | none =>
      rintro q (rfl | ⟨q, rfl, hq⟩)
      · exact hnil
      · exact h q hq
    | some v =>
      refine ⟨.inl rfl, hnil, ?_⟩
      rintro q (rfl | ⟨q, rfl, hq⟩) hreg
      · exact Nat.le_refl _
      · exact absurd (h q hq) hreg

/-- The empty word is registered as well. -/
theorem nil {reg'} (h : Longest reg C r) (hreg : ∀ q, q ≠ [] → reg' q = reg q) (hnil : reg [] = none) (hC : C []) :
    Longest reg' C (r.or ((reg' []).map fun v => ([], v))) := by
  have hne : ∀ {q v}, reg q = some v → q ≠ [] := fun hq heq => by
    rw [heq, hnil] at hq
    cases hq
  cases r with
  | some x =>
    refine ⟨h.1, (hreg _ (hne h.2.1)).trans h.2.1, fun q hq hq' => ?_⟩
    by_cases hnil' : q = []
    · exact hnil' ▸ Nat.zero_le _
    · exact h.2.2 q hq (hreg q hnil' ▸ hq')
  | none =>
    cases hv : reg' [] with
    | none =>
      intro q hq
      by_cases hnil' : q = []
      · exact hnil' ▸ hv
      · exact (hreg q hnil').trans (h q hq)
    | some v =>
      refine ⟨hC, hv, fun q hq hq' => ?_⟩
      by_cases hnil' : q = []
      · exact hnil' ▸ Nat.le_refl _
      · exact absurd ((hreg q hnil').trans (h q hq)) hq'

/-- One more candidate, longer than the others. -/
theorem snoc {p} (h : Longest reg C r) (hlt : ∀ q, C q → q.length < p.length) :
    Longest reg (fun q => C q ∨ q = p) (((reg p).map fun v => (p, v)).or r) := by
  cases hp : reg p with
  | some v =>
    refine ⟨.inr rfl, hp, ?_⟩
    rintro q (hq | rfl) -
    · exact Nat.le_of_lt (hlt q hq)
    · exact Nat.le_refl _
  | none =>
    cases r with
    | none =>
      rintro q (hq | rfl)
      · exact h q hq
      · exact hp
    | some x =>
      refine ⟨.inl h.1, h.2.1, ?_⟩
      rintro q (hq | rfl) hreg
      · exact h.2.2 q hq hreg
      · exact absurd hp hreg

/-- Words of one length that meet `C` are equal, so there is only one answer. -/
theorem unique {r'} (hC : ∀ p q, C p → C q → p.length = q.length → p = q) (h : Longest reg C r)
    (h' : Longest reg C r') : r = r' := by
  cases r with
  | none =>
    cases r' with
    | none => rfl
    | some x' => exact absurd (h _ h'.1) (by rw [h'.2.1]; simp)
  | some x =>
    cases r' with
    | none => exact absurd (h' _ h.1) (by rw [h.2.1]; simp)
    | some x' =>
      have hle := h.2.2 _ h'.1 (by rw [h'.2.1]; simp)
      have hge := h'.2.2 _ h.1 (by rw [h.2.1]; simp)
      have heq := hC _ _ h.1 h'.1 (Nat.le_antisymm hge hle)
      have hv := h.2.1
      rw [heq, h'.2.1, Option.some.injEq] at hv
      exact congrArg some (Prod.ext heq hv.symm)

end Longest

/-- The words that `w` starts with, and those of them that are not `w`. -/
def Starts (w q : List κ) : Prop := q <+: w
def StartsShort (w q : List κ) : Prop := q <+: w ∧ q ≠ w

theorem starts_cons (d : κ) (w q : List κ) : Starts (d :: w) q ↔ q = [] ∨ ∃ q', q = d :: q' ∧ Starts w q' := by
  rcases q with _ | ⟨c, q⟩
  · simp [Starts]
  · simp only [Starts, cons_prefix_cons, reduceCtorEq, false_or, List.cons.injEq]
    exact ⟨fun ⟨hc, h⟩ => ⟨q, ⟨hc, rfl⟩, h⟩, fun ⟨_, ⟨hc, hq⟩, h⟩ => ⟨hc, hq ▸ h⟩⟩

theorem startsShort_cons (d : κ) (w q : List κ) :
    StartsShort (d :: w) q ↔ q = [] ∨ ∃ q', q = d :: q' ∧ StartsShort w q' := by
  rcases q with _ | ⟨c, q⟩
  · simp [StartsShort]
  · simp only [StartsShort, cons_prefix_cons, reduceCtorEq, false_or, List.cons.injEq]
    constructor
    · rintro ⟨⟨rfl, h⟩, hne⟩
      exact ⟨q, ⟨rfl, rfl⟩, h, fun heq => hne (by rw [heq])⟩
    · rintro ⟨_, ⟨rfl, rfl⟩, h, hne⟩
      exact ⟨⟨rfl, h⟩, fun heq => hne (List.cons.inj heq).2⟩

theorem starts_iff (w q : List κ) : Starts w q ↔ StartsShort w q ∨ q = w := by
  unfold Starts StartsShort
  by_cases hq : q = w
  · simp [hq]
  · simp [hq]

theorem StartsShort.length_lt {w q : List κ} (h : StartsShort w q) : q.length < w.length :=
  Nat.lt_of_le_of_ne h.1.length_le fun heq => h.2 (h.1.eq_of_length heq)

theorem Starts.unique {w p q : List κ} (hp : Starts w p) (hq : Starts w q) (h : p.length = q.length) : p = q := by
  rw [prefix_iff_eq_take.1 hp, prefix_iff_eq_take.1 hq, h]

end SipRouter.Lib
