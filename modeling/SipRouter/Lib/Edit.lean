import Mathlib.Data.List.Basic

/-!
# Editing a list

A list is edited by a script: `ins` adds a text where the script has come to, `cut` goes on to an
offset of the list and removes elements there between two texts. What a script makes of a list is
said by `apply`: the elements that no cut covers are kept, and each text stands at the offset of its
cut among them.

The offsets of a script are increasing, but its cuts may overlap. To carry it out from left to
right, the cuts are trimmed first so that none begins in one before it (`fix`); then one pass
copies what is between them (`pass`). The result is the one meant (`output_fix`).
-/

namespace SipRouter.Lib

open List

inductive Edit (α : Type) where
  | ins (text : List α)
  | cut (off len : Nat) (before after : List α)

namespace Edit

variable {α : Type} {l : List α} {keep : Nat → Bool} {es es1 es2 : List (Edit α)} {p q s a b c : Nat}

/-! ## Parts of a list -/

/-- The elements from `a` to `b`. -/
def part (l : List α) (a b : Nat) : List α := (l.drop a).take (b - a)

theorem part_self (l : List α) (a : Nat) : part l a a = [] := by
  simp [part]

theorem length_part (hb : b ≤ l.length) : (part l a b).length = b - a := by
  simp only [part, length_take, length_drop]
  omega

theorem part_append (hab : a ≤ b) (hbc : b ≤ c) : part l a b ++ part l b c = part l a c := by
  have hdrop : l.drop b = (l.drop a).drop (b - a) := by
    rw [drop_drop, Nat.add_sub_cancel' hab]
  have hlen : c - a = (b - a) + (c - b) := by omega
  rw [part, part, part, hdrop, hlen, take_add]

/-- The elements from `a` to `b` that are kept. -/
def kept (keep : Nat → Bool) (l : List α) (a b : Nat) : List α :=
  (List.range' a (b - a)).filterMap fun i => if keep i then l[i]? else none

theorem kept_append (hab : a ≤ b) (hbc : b ≤ c) : kept keep l a b ++ kept keep l b c = kept keep l a c := by
  have hlen : c - a = (b - a) + (c - b) := by omega
  have hstart := Nat.add_sub_cancel' hab
  rw [kept, kept, kept, ← filterMap_append, hlen, ← range'_append_1, hstart]

theorem kept_eq_nil (h : ∀ i, a ≤ i → i < b → keep i = false) : kept keep l a b = [] := by
  apply filterMap_eq_nil_iff.2
  intro i hi
  obtain ⟨hle, hlt⟩ := mem_range'_1.1 hi
  rw [h i hle (by omega), if_neg Bool.false_ne_true]

theorem kept_eq_part (h : ∀ i, a ≤ i → i < b → keep i = true) : kept keep l a b = part l a b := by
  have hall : kept keep l a b = (List.range' a (b - a)).filterMap fun i => l[i]? := by
    apply filterMap_congr
    intro i hi
    obtain ⟨hle, hlt⟩ := mem_range'_1.1 hi
    rw [h i hle (by omega), if_pos rfl]
  rw [hall, part]
  clear h hall
  induction b - a generalizing a with
  | zero => rfl
  | succ n ih =>
    have hdrop : l.drop a = l[a]?.toList ++ l.drop (a + 1) := drop_eq_getElem?_toList_append
    rw [range'_succ, filterMap_cons, ih, hdrop]
    cases hget : l[a]? with
    | none =>
      have hlen := getElem?_eq_none_iff.1 hget
      rw [drop_eq_nil_of_le (by omega)]
      simp
    | some x => rfl

/-- A part of which nothing is kept may be left out. -/
theorem kept_skip (has : a ≤ s) (h : ∀ i, a ≤ i → i < s → keep i = false) {b} : kept keep l a b = kept keep l s b := by
  rcases Nat.le_total s b with hsb | hbs
  · rw [← kept_append has hsb, kept_eq_nil h, nil_append]
  · have hempty : kept keep l s b = [] := by simp [kept, Nat.sub_eq_zero_of_le hbs]
    rw [hempty]
    exact kept_eq_nil fun i hi hlt => h i hi (by omega)

/-! ## The meaning of a script -/

/-- The element `i` is removed. -/
def covers (i : Nat) : Edit α → Bool
  | .ins _ => false
  | .cut off len _ _ => off ≤ i && i < off + len

/-- What a script makes of a list from `p` on. -/
def edited (keep : Nat → Bool) (l : List α) : Nat → List (Edit α) → List α
  | p, [] => kept keep l p l.length
  | p, .ins text :: es => text ++ edited keep l p es
  | p, .cut off _ before after :: es => kept keep l p off ++ before ++ after ++ edited keep l off es

/-- What a script makes of a list. -/
def apply (l : List α) (es : List (Edit α)) : List α := edited (fun i => !es.any (covers i)) l 0 es

/-- The offsets of a script increase from `p` on. -/
def Sorted : Nat → List (Edit α) → Prop
  | _, [] => True
  | p, .ins _ :: es => Sorted p es
  | p, .cut off _ _ _ :: es => p ≤ off ∧ Sorted off es

/-! ## Carrying it out -/

/-- A script with its cuts trimmed, behind cuts up to `s`. -/
def fix : Nat → List (Edit α) → List (Edit α)
  | _, [] => []
  | s, .ins text :: es => .ins text :: fix s es
  | s, .cut off len before after :: es =>
    .cut (max s off) (off + len - max s off) before after :: fix (max s (off + len)) es

/-- Each cut begins before it has ended, or later. -/
def Ahead : Nat → List (Edit α) → Prop
  | _, [] => True
  | s, .ins _ :: es => Ahead s es
  | s, .cut off len _ _ :: es => s ≤ off ∧ Ahead (off + len) es

/-- A pass over the list from `s` on: what is written, and where it has come to. -/
def pass (l : List α) : Nat → List (Edit α) → List α × Nat
  | s, [] => ([], s)
  | s, .ins text :: es => (text ++ (pass l s es).1, (pass l s es).2)
  | s, .cut off len before after :: es =>
    (part l s off ++ before ++ after ++ (pass l (off + len) es).1, (pass l (off + len) es).2)

/-- What a pass writes, and the rest of the list. -/
def output (l : List α) (s : Nat) (es : List (Edit α)) : List α := (pass l s es).1 ++ part l (pass l s es).2 l.length

theorem ahead_fix (s : Nat) (es : List (Edit α)) : Ahead s (fix s es) := by
  induction es generalizing s with
  | nil => exact trivial
  | cons e es ih =>
    cases e with
    | ins text => exact ih s
    | cut off len before after =>
      have hend : max s off + (off + len - max s off) = max s (off + len) := by omega
      refine ⟨Nat.le_max_left s off, ?_⟩
      rw [hend]
      exact ih _

/-- Nothing is covered before the first cut. -/
theorem Sorted.not_covers (h : Sorted p es) {i} (hi : i < p) : es.any (covers i) = false := by
  induction es generalizing p with
  | nil => rfl
  | cons e es ih =>
    cases e with
    | ins text => exact ih h hi
    | cut off len before after =>
      obtain ⟨hle, h⟩ := h
      have hlt : i < off := by omega
      simp [covers, ih h hlt, Nat.not_le.2 hlt]

/-- The pass over the trimmed script gives what the script means. Up to `s` nothing is kept, and from there on
what no cut covers. -/
theorem output_fix (hsorted : Sorted p es) (hps : p ≤ s) (hgone : ∀ i, p ≤ i → i < s → keep i = false)
    (hkeep : ∀ i, s ≤ i → keep i = !es.any (covers i)) : output l s (fix s es) = edited keep l p es := by
  induction es generalizing p s with
  | nil =>
    have hrest : kept keep l s l.length = part l s l.length := kept_eq_part fun i hi _ => hkeep i hi
    rw [edited, kept_skip hps hgone, hrest]
    exact nil_append _
  | cons e es ih =>
    cases e with
    | ins text => exact (append_assoc ..).trans (congrArg (text ++ ·) (ih hsorted hps hgone hkeep))
    | cut off len before after =>
      obtain ⟨hle, hsorted⟩ := hsorted
      have hend : max s off + (off + len - max s off) = max s (off + len) := by omega
      -- between the cuts so far and this one everything is kept
      have hfront : kept keep l p off = part l s (max s off) := by
        rw [kept_skip hps hgone]
        rcases Nat.le_total s off with hso | hos
        · rw [Nat.max_eq_right hso]
          apply kept_eq_part
          intro i hi hlt
          simp [hkeep i hi, covers, hsorted.not_covers hlt, Nat.not_le.2 hlt]
        · rw [Nat.max_eq_left hos, part_self]
          simp [kept, Nat.sub_eq_zero_of_le hos]
      have hrest : output l (max s (off + len)) (fix (max s (off + len)) es) = edited keep l off es := by
        refine ih hsorted (by omega) ?_ ?_
        · intro i hi hlt
          rcases Nat.lt_or_ge i s with his | hsi
          · exact hgone i (by omega) his
          · have hcut : i < off + len := by omega
            simp [hkeep i hsi, covers, hi, hcut]
        · intro i hi
          have hcut : ¬ i < off + len := by omega
          simp [hkeep i (by omega), covers, hcut]
      rw [edited, hfront, ← hrest]
      simp only [output, fix, pass, hend, append_assoc]

theorem output_fix_zero (hsorted : Sorted 0 es) : output l 0 (fix 0 es) = apply l es :=
  output_fix hsorted (Nat.le_refl 0) (fun _ _ hlt => absurd hlt (Nat.not_lt_zero _)) fun _ _ => rfl

/-! ## Scripts one after the other -/

/-- Where the cuts of a script end, behind cuts up to `s`. -/
def reach : Nat → List (Edit α) → Nat
  | s, [] => s
  | s, .ins _ :: es => reach s es
  | s, .cut off len _ _ :: es => reach (max s (off + len)) es

theorem fix_append (s : Nat) (es1 es2 : List (Edit α)) : fix s (es1 ++ es2) = fix s es1 ++ fix (reach s es1) es2 := by
  induction es1 generalizing s with
  | nil => rfl
  | cons e es ih =>
    cases e with
    | ins text => exact congrArg (.ins text :: ·) (ih s)
    | cut off len before after => simp only [cons_append, fix, reach, ih]

/-- Behind where they begin, cuts do not matter to those that come. -/
theorem fix_congr (h : Sorted p es) (hs : s ≤ p) (hq : q ≤ p) : fix s es = fix q es := by
  induction es generalizing p with
  | nil => rfl
  | cons e es ih =>
    cases e with
    | ins text => exact congrArg (.ins text :: ·) (ih h hs hq)
    | cut off len before after =>
      obtain ⟨hle, h⟩ := h
      have hmax : max s off = max q off := by omega
      have hend : max s (off + len) = max q (off + len) := by omega
      rw [fix, fix, hmax, hend]

theorem pass_append (l : List α) (s : Nat) (es1 es2 : List (Edit α)) :
    pass l s (es1 ++ es2) = ((pass l s es1).1 ++ (pass l (pass l s es1).2 es2).1,
      (pass l (pass l s es1).2 es2).2) := by
  induction es1 generalizing s with
  | nil => rfl
  | cons e es ih =>
    cases e with
    | ins text | cut off len before after => simp [pass, ih]

theorem pass_fix_snd (l : List α) (s : Nat) (es : List (Edit α)) : (pass l s (fix s es)).2 = reach s es := by
  induction es generalizing s with
  | nil => rfl
  | cons e es ih =>
    cases e with
    | ins text => exact ih s
    | cut off len before after =>
      have hend : max s off + (off + len - max s off) = max s (off + len) := by omega
      rw [fix, pass, hend, ih, reach]

/-! ## Lengths -/

/-- By how much a script makes a list longer. -/
def delta : List (Edit α) → Int
  | [] => 0
  | .ins text :: es => text.length + delta es
  | .cut _ len before after :: es => before.length + after.length - len + delta es

theorem delta_append (es1 es2 : List (Edit α)) : delta (es1 ++ es2) = delta es1 + delta es2 := by
  induction es1 with
  | nil => exact (Int.zero_add _).symm
  | cons e es ih =>
    cases e with
    | ins text | cut off len before after =>
      simp only [cons_append, delta, ih]
      omega

/-- By how much the cuts that a pass from `s` on has passed already when they begin would make a list longer. -/
def lost : Nat → List (Edit α) → Int
  | _, [] => 0
  | s, .ins _ :: es => lost s es
  | s, .cut off len before after :: es =>
    if off < s then before.length + after.length - len + lost s es else lost (off + len) es

end Edit

end SipRouter.Lib
