import Mathlib.Data.BitVec
import Mathlib.Logic.Function.Basic

/-!
# Bits in arrays of words

Bit `n` of an array of words of `w` bits is bit `n % w` of word `n / w`. It is read, set and cleared with a mask.
-/

namespace SipRouter.Lib.Bits

open BitVec Function

variable {w i j n m : Nat} {v : BitVec w} {a : Nat → BitVec w}

/-- Bit `n` of an array. -/
def bit (a : Nat → BitVec w) (n : Nat) : Bool := (a (n / w)).getLsbD (n % w)

theorem getLsbD_mask (hi : i < w) : (1#w <<< i).getLsbD j = decide (j = i) := by
  rw [← twoPow_eq, getLsbD_twoPow, decide_eq_true hi, Bool.true_and]
  exact decide_eq_decide.2 eq_comm

theorem and_mask_ne_zero (hi : i < w) : v &&& 1#w <<< i ≠ 0#w ↔ v.getLsbD i = true := by
  have hne : twoPow w i ≠ 0#w := by
    intro heq
    have hbit := congrArg BitVec.toNat heq
    rw [toNat_twoPow_of_lt hi] at hbit
    exact absurd hbit (Nat.pow_pos (by decide)).ne'
  rw [← twoPow_eq, and_twoPow]
  split_ifs with hv
  · simp [hne, hv]
  · exact ⟨fun h => absurd rfl h, fun h => absurd h hv⟩

/-- A word that differs from the one before in one bit. -/
theorem bit_update {x b} (hw : 0 < w) (hx : ∀ j < w, x.getLsbD j = if j = n % w then b else (a (n / w)).getLsbD j) :
    bit (update a (n / w) x) m = if m = n then b else bit a m := by
  unfold bit
  rcases eq_or_ne (m / w) (n / w) with hword | hword
  · have hmn : m % w = n % w ↔ m = n := by
      refine ⟨fun hmod => ?_, fun h => by rw [h]⟩
      rw [← Nat.div_add_mod m w, ← Nat.div_add_mod n w, hword, hmod]
    rw [hword, update_self, hx _ (Nat.mod_lt m hw)]
    simp only [hmn]
  · have hmn : m ≠ n := fun h => hword (h ▸ rfl)
    rw [update_of_ne hword, if_neg hmn]

theorem bit_set (hw : 0 < w) :
    bit (update a (n / w) (a (n / w) ||| 1#w <<< (n % w))) m = (bit a m || decide (m = n)) := by
  rw [bit_update (b := true) hw]
  · split <;> simp [*]
  · intro j _
    rw [getLsbD_or, getLsbD_mask (Nat.mod_lt n hw)]
    split <;> simp [*]

theorem bit_clear (hw : 0 < w) : bit (update a (n / w) (a (n / w) &&& ~~~(1#w <<< (n % w)))) m =
    (bit a m && decide (m ≠ n)) := by
  rw [bit_update (b := false) hw]
  · split <;> simp [*]
  · intro j hj
    rw [getLsbD_and, getLsbD_not, getLsbD_mask (Nat.mod_lt n hw)]
    split <;> simp [*]

end SipRouter.Lib.Bits
