import Mathlib.Data.Nat.Log
import SipRouter.Lib.Bits

/-!
# The bitmap of the free lists

One bit for each list of free fragments, in words of 64. `fm_bmp_first_set` finds the first bit
that is set from a given one on: in the word of that bit, or in one of the words behind it.
-/

namespace SipRouter.Mem

open List BitVec Function Option Lib.Bits

/-- `ROUNDTO`, also `MIN_FRAG_SIZE`. -/
def roundto : Nat := 8

/-- `F_MALLOC_OPTIMIZE_FACTOR`. -/
def fMallocOptimizeFactor : Nat := 14

/-- `F_MALLOC_OPTIMIZE`. -/
def fMallocOptimize : Nat := 2 ^ fMallocOptimizeFactor

/-- `F_HASH_SIZE`. -/
def fHashSize : Nat := fMallocOptimize / roundto + (64 - fMallocOptimizeFactor) + 1

/-- `FM_HASH_BMP_BITS`. -/
def fmHashBmpBits : Nat := 64

/-- `FM_HASH_BMP_SIZE`. -/
def fmHashBmpSize : Nat := (fHashSize + fmHashBmpBits - 1) / fmHashBmpBits

abbrev Bitmap := Nat → BitVec 64

/-- `fm_bmp_set`. -/
def fmBmpSet (b : Nat) (bm : Bitmap) : Bitmap :=
  update bm (b / fmHashBmpBits) (bm (b / fmHashBmpBits) ||| 1#64 <<< (b % fmHashBmpBits))

/-- `fm_bmp_reset`. -/
def fmBmpReset (b : Nat) (bm : Bitmap) : Bitmap :=
  update bm (b / fmHashBmpBits) (bm (b / fmHashBmpBits) &&& ~~~(1#64 <<< (b % fmHashBmpBits)))

/-- `fm_bmp_is_set`. -/
def fmBmpIsSet (b : Nat) (bm : Bitmap) : Bool := bm (b / fmHashBmpBits) &&& 1#64 <<< (b % fmHashBmpBits) != 0

/-- `bit_scan_forward`: the index of the lowest bit. -/
def bitScanForward (v : BitVec 64) : Nat := ((List.range 64).find? (v.getLsbD ·)).getD 0

/-- The loop of `fm_bmp_first_set` over the words from `r` on. -/
def fmBmpFirstWord (bm : Bitmap) (r : Nat) : Option Nat :=
  if r < fmHashBmpSize then
    if bm r ≠ 0 then some (r * fmHashBmpBits + bitScanForward (bm r)) else fmBmpFirstWord bm (r + 1)
  else none
termination_by fmHashBmpSize - r

/-- `fm_bmp_first_set`, `none` for -1. -/
def fmBmpFirstSet (bm : Bitmap) (start : Nat) : Option Nat :=
  let bmpIdx := start / fmHashBmpBits
  let bit := start % fmHashBmpBits
  let testVal := 1#64 <<< bit
  if bm bmpIdx &&& testVal ≠ 0 then some start
  else if bm bmpIdx &&& ~~~(testVal - 1) ≠ 0 then
    some (start + 1 + bitScanForward (bm bmpIdx >>> (bit + 1)))
  else fmBmpFirstWord bm (bmpIdx + 1)

/-! ## Bits -/

variable {i h start r : Nat} {v : BitVec 64} {bm : Bitmap}

theorem fmBmpIsSet_iff {b} : fmBmpIsSet b bm = bit bm b := by
  have hiff := and_mask_ne_zero (v := bm (b / 64)) (Nat.mod_lt b (by decide : 0 < 64))
  rw [fmBmpIsSet, Bool.eq_iff_iff, bne_iff_ne]
  exact hiff

theorem fmBmpIsSet_set {k b bm} : fmBmpIsSet k (fmBmpSet b bm) = (decide (k = b) || fmBmpIsSet k bm) := by
  rw [fmBmpIsSet_iff, fmBmpIsSet_iff, Bool.or_comm]
  exact bit_set (by decide)

theorem fmBmpIsSet_reset {k b bm} : fmBmpIsSet k (fmBmpReset b bm) = (!decide (k = b) && fmBmpIsSet k bm) := by
  rw [fmBmpIsSet_iff, fmBmpIsSet_iff, Bool.and_comm, ← decide_not]
  exact bit_clear (by decide)

theorem bitScanForward_spec (hv : v ≠ 0) :
    v.getLsbD (bitScanForward v) = true ∧ ∀ j < bitScanForward v, v.getLsbD j = false := by
  unfold bitScanForward
  cases hfind : (List.range 64).find? (v.getLsbD ·) with
  | none =>
    exfalso
    apply hv
    apply eq_of_getLsbD_eq
    intro i hi
    have hbit := find?_eq_none.1 hfind i (mem_range.2 hi)
    simpa using hbit
  | some i =>
    obtain ⟨hbit, -, hmin⟩ := find?_range_eq_some.1 hfind
    exact ⟨hbit, fun j hj => by simpa using hmin j hj⟩

theorem getLsbD_mask {j} (hi : i < 64) (hj : j < 64) : (~~~(1#64 <<< i - 1)).getLsbD j = decide (i ≤ j) := by
  have hlt : 2 ^ i < 2 ^ 64 := Nat.pow_lt_pow_right (by decide) hi
  have hpos : 0 < 2 ^ i := Nat.pow_pos (by decide)
  have hmask : 1#64 <<< i - 1 = BitVec.ofNat 64 (2 ^ i - 1) := by
    apply eq_of_toNat_eq
    rw [← twoPow_eq, toNat_sub, toNat_twoPow_of_lt hi, toNat_ofNat]
    show (2 ^ 64 - 1 + 2 ^ i) % 2 ^ 64 = _
    omega
  simp only [getLsbD_not, hmask, getLsbD_ofNat, Nat.testBit_two_pow_sub_one, hj, decide_true,
    Bool.true_and, ← decide_not, Nat.not_lt]

/-! ## The search -/

/-- The bits of a word. -/
theorem fmBmpIsSet_word {j} (hj : j < 64) : fmBmpIsSet (r * 64 + j) bm = (bm r).getLsbD j := by
  have hdiv : (r * 64 + j) / 64 = r := by omega
  have hmod : (r * 64 + j) % 64 = j := by omega
  rw [fmBmpIsSet_iff, bit, hdiv, hmod]

/-- What is found is the first bit from `start` on that is set, if there is one. -/
structure IsFirst (bm : Bitmap) (start : Nat) (found : Option Nat) : Prop where
  isSet : ∀ h, found = some h → start ≤ h ∧ fmBmpIsSet h bm = true
  least : ∀ k, start ≤ k → k < fmHashBmpSize * 64 → (∀ h, found = some h → k < h) → fmBmpIsSet k bm = false

theorem fmBmpFirstWord_isFirst {r} : IsFirst bm (r * 64) (fmBmpFirstWord bm r) := by
  fun_induction fmBmpFirstWord bm r with
  | case1 r _ hne =>
    obtain ⟨hbit, hmin⟩ := bitScanForward_spec hne
    have hlt := lt_of_getLsbD hbit
    refine ⟨fun h heq => ?_, fun k hk _ hfirst => ?_⟩
    · cases heq
      exact ⟨Nat.le_add_right .., (fmBmpIsSet_word hlt).trans hbit⟩
    · obtain ⟨j, rfl⟩ := Nat.exists_eq_add_of_le hk
      have hj := Nat.lt_of_add_lt_add_left (hfirst _ rfl)
      rw [fmBmpIsSet_word (hj.trans hlt), hmin j hj]
  | case2 r _ hzero ih =>
    refine ⟨fun h heq => ?_, fun k hk hlast hfirst => ?_⟩
    · obtain ⟨hle, hset⟩ := ih.isSet h heq
      exact ⟨by omega, hset⟩
    · by_cases hword : (r + 1) * 64 ≤ k
      · exact ih.least k hword hlast hfirst
      · obtain ⟨j, rfl⟩ := Nat.exists_eq_add_of_le hk
        rw [fmBmpIsSet_word (by omega), not_not.1 hzero]
        exact getLsbD_zero
  | case3 r hr => exact ⟨nofun, fun k _ _ _ => by omega⟩

/-- What `fm_bmp_first_set` finds. -/
theorem fmBmpFirstSet_isFirst (bm) (start : Nat) : IsFirst bm start (fmBmpFirstSet bm start) := by
  obtain ⟨r, i, hi, rfl⟩ : ∃ r i, i < 64 ∧ start = r * 64 + i := ⟨start / 64, start % 64, by omega, by omega⟩
  have hdiv : (r * 64 + i) / 64 = r := by omega
  have hmod : (r * 64 + i) % 64 = i := by omega
  simp only [fmBmpFirstSet, fmHashBmpBits, hdiv, hmod]
  split_ifs with hbit hword
  · refine ⟨fun h heq => ?_, fun k hk _ hfirst => absurd (hfirst _ rfl) (by omega)⟩
    cases heq
    exact ⟨le_rfl, (fmBmpIsSet_word hi).trans ((and_mask_ne_zero hi).1 hbit)⟩
  all_goals have hnot : (bm r).getLsbD i = false := by simpa using mt (and_mask_ne_zero hi).2 hbit
  · -- a bit of the word from `i` on, other than `i` itself, is still there when the word is shifted
    have hshift : bm r >>> (i + 1) ≠ 0 := by
      obtain ⟨hj, -⟩ := bitScanForward_spec hword
      generalize bitScanForward (bm r &&& ~~~(1#64 <<< i - 1)) = j at hj
      have hj64 := lt_of_getLsbD hj
      rw [getLsbD_and, getLsbD_mask hi hj64, Bool.and_eq_true, decide_eq_true_eq] at hj
      have hgt : i + 1 ≤ j := Nat.lt_of_le_of_ne hj.2 fun heq => by simp [← heq, hnot] at hj
      intro hzero
      have hv := congrArg (fun w : BitVec 64 => w.getLsbD (j - (i + 1))) hzero
      rw [getLsbD_ushiftRight, Nat.add_sub_cancel' hgt, hj.1] at hv
      simp at hv
    obtain ⟨hfound, hmin⟩ := bitScanForward_spec hshift
    simp only [getLsbD_ushiftRight] at hfound hmin
    have hlt := lt_of_getLsbD hfound
    refine ⟨fun h heq => ?_, fun k hk _ hfirst => ?_⟩
    · cases heq
      refine ⟨by omega, ?_⟩
      rw [Nat.add_assoc, Nat.add_assoc, ← Nat.add_assoc i, fmBmpIsSet_word hlt, hfound]
    · have hk' := hfirst _ rfl
      obtain ⟨j, rfl⟩ := Nat.exists_eq_add_of_le hk
      rw [Nat.add_assoc, fmBmpIsSet_word (by omega)]
      cases j with
      | zero => exact hnot
      | succ j => simpa [Nat.add_assoc, Nat.add_comm 1] using hmin j (by omega)
  · obtain ⟨hset, hleast⟩ := fmBmpFirstWord_isFirst
    refine ⟨fun h heq => ⟨by have := (hset h heq).1; omega, (hset h heq).2⟩, fun k hk hlast hfirst => ?_⟩
    by_cases hnext : (r + 1) * 64 ≤ k
    · exact hleast k hnext hlast hfirst
    · obtain ⟨j, rfl⟩ := Nat.exists_eq_add_of_le hk
      rw [Nat.add_assoc, fmBmpIsSet_word (by omega)]
      have hv := congrArg (fun w : BitVec 64 => w.getLsbD (i + j)) (not_not.1 hword)
      rw [getLsbD_and, getLsbD_mask hi (by omega), decide_eq_true (Nat.le_add_right ..), Bool.and_true] at hv
      exact hv.trans getLsbD_zero

/-- The search does not go back. -/
theorem le_fmBmpFirstSet (heq : fmBmpFirstSet bm start = some h) : start ≤ h :=
  ((fmBmpFirstSet_isFirst bm start).isSet h heq).1

end SipRouter.Mem
