import Mathlib

/-!
# Fields packed in words

A word of 32 bits holds `32 / w` fields of `w` bits each, and an array of words
is read and written by field number: field `n` is at place `n % (32 / w)` of word
`n / (32 / w)`. A write of one field changes that field alone (`slot_store`).
-/

namespace SipRouter.Lib.Packed

open BitVec Function

variable {w r r' : Nat} {v x : BitVec 32}

/-- The lowest `w` bits. -/
def low (w : Nat) : BitVec 32 := BitVec.ofNat 32 (2 ^ w - 1)

/-- The field at place `r` of a word. -/
def field (w r : Nat) (v : BitVec 32) : BitVec 32 := (v >>> (w * r)) &&& low w

/-- The word with zeros at place `r`. -/
def clear (w r : Nat) (v : BitVec 32) : BitVec 32 := v &&& ~~~(low w <<< (w * r))

/-- The word with `x` at place `r`. -/
def put (w r : Nat) (v x : BitVec 32) : BitVec 32 := clear w r v ||| (x <<< (w * r))

theorem getLsbD_low {w j} : (low w).getLsbD j = (decide (j < 32) && decide (j < w)) := by
  rw [low, getLsbD_ofNat, Nat.testBit_two_pow_sub_one]

theorem getLsbD_field {j} : (field w r v).getLsbD j = (v.getLsbD (w * r + j) && decide (j < w)) := by
  simp only [field, getLsbD_and, getLsbD_ushiftRight, getLsbD_low]
  by_cases hj : j < 32
  · simp [hj]
  · rw [getLsbD_of_ge v (w * r + j) (by omega)]
    simp

theorem getLsbD_clear {j} : (clear w r v).getLsbD j = (v.getLsbD j && !decide (w * r ≤ j ∧ j < w * r + w)) := by
  by_cases hj : j < 32
  · simp only [clear, getLsbD_and, getLsbD_not, getLsbD_shiftLeft, getLsbD_low, hj, decide_true, Bool.true_and]
    by_cases hle : w * r ≤ j
    · have h32 : j - w * r < 32 := by omega
      have hiff : j - w * r < w ↔ j < w * r + w := by omega
      simp [hle, h32, hiff, not_lt.2 hle]
    · simp [hle, Nat.lt_of_not_le hle]
  · rw [getLsbD_of_ge _ _ (Nat.le_of_not_lt hj), getLsbD_of_ge _ _ (Nat.le_of_not_lt hj)]
    rfl

/-- A value that fits a field has no bits above it. -/
theorem getLsbD_of_fits (hx : x.toNat < 2 ^ w) {j} (hj : w ≤ j) : x.getLsbD j = false :=
  Nat.testBit_lt_two_pow (Nat.lt_of_lt_of_le hx (Nat.pow_le_pow_right (by decide) hj))

theorem field_put (hx : x.toNat < 2 ^ w) (hr : w * r + w ≤ 32) : field w r (put w r v x) = x := by
  apply eq_of_getLsbD_eq
  intro j hj
  rw [getLsbD_field, put, getLsbD_or, getLsbD_clear, getLsbD_shiftLeft]
  by_cases hw : j < w
  · have h32 : w * r + j < 32 := by omega
    simp [hw, h32]
  · simp [hw, getLsbD_of_fits hx (Nat.le_of_not_lt hw)]

/-- Two places of a word do not overlap. -/
theorem apart (h : r ≠ r') : w * r' + w ≤ w * r ∨ w * r + w ≤ w * r' := by
  rcases lt_or_gt_of_ne h with hlt | hgt
  · right
    exact Nat.mul_le_mul_left w hlt
  · left
    exact Nat.mul_le_mul_left w hgt

theorem field_put_ne (hx : x.toNat < 2 ^ w) (h : r ≠ r') : field w r' (put w r v x) = field w r' v := by
  apply eq_of_getLsbD_eq
  intro j hj
  rw [getLsbD_field, getLsbD_field, put, getLsbD_or, getLsbD_clear, getLsbD_shiftLeft]
  by_cases hw : j < w
  · rcases apart (w := w) h with hlow | hhigh
    · have hlt : w * r' + j < w * r := by omega
      simp [hlt, not_le.2 hlt]
    · have hbit : x.getLsbD (w * r' + j - w * r) = false := getLsbD_of_fits hx (by omega)
      have hout : ¬ w * r' + j < w * r + w := by omega
      simp [hbit, hout]
  · simp [hw]

theorem put_zero : put w r v 0#32 = clear w r v := by
  simp [put]

/-! ## Arrays -/

/-- Field `n` of an array. -/
def slot (w : Nat) (a : Nat → BitVec 32) (n : Nat) : BitVec 32 := field w (n % (32 / w)) (a (n / (32 / w)))

/-- The array with `x` in field `n`. -/
def store (w : Nat) (a : Nat → BitVec 32) (n : Nat) (x : BitVec 32) : Nat → BitVec 32 :=
  update a (n / (32 / w)) (put w (n % (32 / w)) (a (n / (32 / w))) x)

/-- The last place of a word ends within it. -/
theorem place_le (hw : 0 < w) (h32 : w ≤ 32) {n} : w * (n % (32 / w)) + w ≤ 32 := by
  have hpos : 0 < 32 / w := Nat.div_pos h32 hw
  have hlt := Nat.mod_lt n hpos
  calc w * (n % (32 / w)) + w = w * (n % (32 / w) + 1) := by ring
    _ ≤ w * (32 / w) := Nat.mul_le_mul_left w hlt
    _ ≤ 32 := Nat.mul_div_le 32 w

theorem slot_store_self (hw : 0 < w) (h32 : w ≤ 32) (hx : x.toNat < 2 ^ w) {a n} : slot w (store w a n x) n = x := by
  rw [slot, store, update_self]
  exact field_put hx (place_le hw h32)

theorem slot_store_ne (hx : x.toNat < 2 ^ w) {a n m} (h : n ≠ m) : slot w (store w a n x) m = slot w a m := by
  rw [slot, store, slot]
  rcases eq_or_ne (m / (32 / w)) (n / (32 / w)) with hq | hq
  · have hr : n % (32 / w) ≠ m % (32 / w) := by
      intro hr
      apply h
      rw [← Nat.div_add_mod n (32 / w), ← Nat.div_add_mod m (32 / w), hq, hr]
    rw [hq, update_self, field_put_ne hx hr]
  · rw [update_of_ne hq]

end SipRouter.Lib.Packed
