import Mathlib.Data.Rat.Floor
import Mathlib.Tactic.Linarith
import Mathlib.Tactic.Ring
import Mathlib.Tactic.NormNum

/-!
# q values (`qvalue.c`, `qvalue.h`)

The q value of a contact is kept as an integer, the number times 1000. `str2q` reads it with an
automaton that takes the first three decimals by their weights. Its arguments are no null pointers.
-/

namespace SipRouter.Registrar.Qvalue

inductive QError where
  | invChar
  | tooBig
  | empty
  | decMissing
  deriving DecidableEq

/-- The states `ST_START` to `ST_0_PT_N`. -/
inductive QState where
  | start
  | zero
  | one
  | zeroPt
  | onePt
  | onePtZero
  | zeroPtN

/-- The variables of `str2q`. -/
structure Scan where
  state : QState
  q : Int
  digits : Nat
  order : Nat

def isDigit (c : UInt8) : Bool := 48 ≤ c && c ≤ 57

/-- `s[i] - '0'`. -/
def digit (c : UInt8) : Nat := c.toNat - 48

/-- The character is a digit that makes the number too big, or none that may stand here. -/
def Scan.reject (r : Scan) (lo c : UInt8) : Except (QError × Int) Scan :=
  .error (if lo ≤ c ∧ c ≤ 57 then .tooBig else .invChar, r.q)

/-- One round of the loop. An error comes with `*q`, which may have been written before. -/
def Scan.step (r : Scan) (c : UInt8) : Except (QError × Int) Scan :=
  match r.state with
  | .start =>
    if c = 32 ∨ c = 9 then .ok r
    else if c = 48 then .ok { r with q := 0, state := .zero }
    else if c = 49 then .ok { r with q := 1000, state := .one }
    else if c = 46 then .ok { r with state := .zeroPt }
    else .error (.invChar, r.q)
  | .zero =>
    if c = 48 then .ok r
    else if c = 46 then .ok { r with state := .zeroPt }
    else if c = 49 then .ok { r with q := 1000, state := .one }
    else r.reject 50 c
  | .one => if c = 46 then .ok { r with state := .onePt } else r.reject 48 c
  | .zeroPt =>
    if isDigit c then .ok { r with q := digit c * r.order, order := r.order / 10, state := .zeroPtN }
    else .error (.invChar, r.q)
  | .onePt => if c = 48 then .ok { r with state := .onePtZero } else r.reject 49 c
  | .onePtZero => if c = 48 then .ok r else r.reject 49 c
  | .zeroPtN =>
    if isDigit c then
      if r.digits ≤ 3 then
        .ok { r with q := r.q + digit c * r.order, order := r.order / 10, digits := r.digits + 1 }
      else .ok r
    else .error (.invChar, r.q)

/-- The rest of the loop, and what is returned behind it. -/
def Scan.run (r : Scan) : List UInt8 → Except (QError × Int) Int
  | [] =>
    match r.state with
    | .start => .error (.empty, r.q)
    | .zeroPt | .onePt => .error (.decMissing, r.q)
    | _ => .ok r.q
  | c :: s =>
    match r.step c with
    | .ok r => r.run s
    | .error e => .error e

/-- `str2q`, with `*q` before and after. -/
def str2q (q : Int) (s : List UInt8) : Except (QError × Int) Int :=
  Scan.run ⟨.start, q, 1, 100⟩ s

/-- `q2str`. -/
def q2str (q : Int) : List UInt8 :=
  if q = -1 then []
  else if 1000 ≤ q then [49]
  else if q ≤ 0 then [48]
  else
    let d := fun n : Int => UInt8.ofNat (n.toNat + 48)
    let rest := q % 100
    [48, 46, d (q / 100)] ++
      if rest = 0 then [] else d (rest / 10) :: if rest % 10 = 0 then [] else [d (rest % 10)]

/-! ## Decimal numbers -/

/-- The value of the digits behind the point. -/
def frac : List UInt8 → ℚ
  | [] => 0
  | c :: s => (digit c + frac s) / 10

/-- The number behind a point. -/
def fraction (s : List UInt8) : Option ℚ := if s ≠ [] ∧ s.all isDigit then some (frac s) else none

/-- The number that has come to `m` so far. -/
def num (m : Nat) : List UInt8 → Option ℚ
  | [] => some m
  | c :: s =>
    if isDigit c then num (10 * m + digit c) s
    else if c = 46 then (fraction s).map (m + ·) else none

/-- The decimal number behind blanks. -/
def decimal : List UInt8 → Option ℚ
  | [] => none
  | c :: s =>
    if c = 32 ∨ c = 9 then decimal s
    else if isDigit c then num (digit c) s
    else if c = 46 then fraction s else none

section Decimal

variable {c : UInt8} {s : List UInt8} {v : ℚ} {q r : Int}

theorem isDigit_iff : isDigit c ↔ 48 ≤ c.toNat ∧ c.toNat ≤ 57 := by
  rw [isDigit, Bool.and_eq_true, decide_eq_true_eq, decide_eq_true_eq]
  exact Iff.rfl

theorem digit_le (hc : isDigit c) : digit c ≤ 9 := by
  have := isDigit_iff.1 hc
  rw [digit]
  omega

theorem digit_pos (hc : isDigit c) (h0 : c ≠ 48) : 1 ≤ digit c := by
  have := isDigit_iff.1 hc
  have : c.toNat ≠ 48 := fun heq => h0 (UInt8.toNat_inj.1 heq)
  rw [digit]
  omega

theorem two_le_digit (hc : isDigit c) (h0 : c ≠ 48) (h1 : c ≠ 49) : 2 ≤ digit c := by
  have := digit_pos hc h0
  have : c.toNat ≠ 49 := fun heq => h1 (UInt8.toNat_inj.1 heq)
  rw [digit] at *
  omega

theorem frac_range (hs : s.all isDigit) : 0 ≤ frac s ∧ frac s < 1 := by
  induction s with
  | nil => simp [frac]
  | cons c s ih =>
    rw [List.all_cons, Bool.and_eq_true] at hs
    obtain ⟨h0, h1⟩ := ih hs.2
    have hle : (digit c : ℚ) ≤ 9 := by exact_mod_cast digit_le hs.1
    have hpos : (0 : ℚ) ≤ digit c := Nat.cast_nonneg _
    simp only [frac]
    constructor <;> linarith

theorem fraction_eq : fraction s = some v ↔ (s ≠ [] ∧ s.all isDigit) ∧ v = frac s := by
  rw [fraction, Option.ite_none_right_eq_some, Option.some.injEq, eq_comm (a := frac s)]

theorem le_num {m} (h : num m s = some v) : (m : ℚ) ≤ v := by
  induction s generalizing m with
  | nil => exact (Option.some.inj h).le
  | cons c s ih =>
    simp only [num] at h
    split_ifs at h
    · have hle := ih h
      push_cast at hle
      have : (0 : ℚ) ≤ m := Nat.cast_nonneg m
      have : (0 : ℚ) ≤ digit c := Nat.cast_nonneg _
      linarith
    · obtain ⟨w, hw, rfl⟩ := Option.map_eq_some_iff.1 h
      obtain ⟨⟨-, hs⟩, rfl⟩ := fraction_eq.1 hw
      linarith [(frac_range hs).1]

/-- What `digits` and `order` say of the decimals that are left: the weight of all of them. That of
those behind the next one is `order`. -/
inductive Weight : Nat → Nat → ℚ → Prop where
  | tenths : Weight 1 10 100
  | hundredths : Weight 2 1 10
  | thousandths : Weight 3 0 1
  | none : Weight 4 0 0

theorem floor_weight (o d : Nat) (f : ℚ) : ⌊10 * o * ((d + f) / 10)⌋ = d * o + ⌊o * f⌋ := by
  have heq : 10 * o * ((d + f) / 10) = ((d * o : ℤ) : ℚ) + o * f := by
    push_cast
    ring
  rw [heq, Int.floor_intCast_add]

theorem Weight.floor {digits order w} (hw : Weight digits order w) (hs : (c :: s).all isDigit) :
    ⌊w * frac (c :: s)⌋ = digit c * order + ⌊order * frac s⌋ := by
  cases hw with
  | tenths | hundredths =>
    rw [← floor_weight]
    norm_num [frac]
  | thousandths =>
    rw [one_mul, Int.floor_eq_zero_iff.2 (frac_range hs)]
    simp
  | none => simp

theorem run_zeroPtN {digits order w} (hw : Weight digits order w) :
    Scan.run ⟨.zeroPtN, q, digits, order⟩ s = .ok r ↔ s.all isDigit ∧ r = q + ⌊w * frac s⌋ := by
  induction s generalizing q digits order w with
  | nil => simp [Scan.run, frac, eq_comm]
  | cons c s ih =>
    by_cases hc : isDigit c
    · refine Iff.trans ?_ (and_congr_right fun hs => by rw [hw.floor hs, ← add_assoc])
      simp only [Scan.run, Scan.step, hc, if_true, List.all_cons, Bool.true_and]
      cases hw with
      | tenths => exact ih .hundredths
      | hundredths => exact ih .thousandths
      | thousandths => exact ih .none
      | none => simpa using ih .none
    · simp [Scan.run, Scan.step, hc]

theorem run_zeroPt : Scan.run ⟨.zeroPt, q, 1, 100⟩ s = .ok r ↔ (s ≠ [] ∧ s.all isDigit) ∧ r = ⌊1000 * frac s⌋ := by
  cases s with
  | nil => simp [Scan.run]
  | cons c s =>
    by_cases hc : isDigit c
    · simp only [Scan.run, Scan.step, hc, if_true, List.all_cons, Bool.true_and, run_zeroPtN .tenths, ne_eq,
        reduceCtorEq, not_false_eq_true, true_and]
      refine and_congr_right fun _ => ?_
      have hfloor := floor_weight 100 (digit c) (frac s)
      norm_num at hfloor
      rw [frac, hfloor]
      rfl
    · simp [Scan.run, Scan.step, hc]

/-- Behind `1.` there may only be zeros. -/
theorem frac_le_zero_cons : (c :: s).all isDigit ∧ frac (c :: s) ≤ 0 ↔ c = 48 ∧ s.all isDigit ∧ frac s ≤ 0 := by
  rw [List.all_cons, Bool.and_eq_true, frac]
  constructor
  · rintro ⟨⟨hc, hs⟩, hle⟩
    have hpos := (frac_range hs).1
    have hd : (digit c : ℚ) ≤ 0 := by linarith
    refine ⟨by_contra fun hne => ?_, hs, ?_⟩
    · have : (1 : ℚ) ≤ digit c := by exact_mod_cast digit_pos hc hne
      linarith
    · have : (0 : ℚ) ≤ digit c := Nat.cast_nonneg _
      linarith
  · rintro ⟨rfl, hs, hle⟩
    refine ⟨⟨rfl, hs⟩, ?_⟩
    rw [show digit 48 = 0 from rfl, Nat.cast_zero, zero_add]
    linarith

theorem run_onePtZero : Scan.run ⟨.onePtZero, q, 1, 100⟩ s = .ok r ↔ (s.all isDigit ∧ frac s ≤ 0) ∧ r = q := by
  induction s with
  | nil => simp [Scan.run, frac, eq_comm]
  | cons c s ih =>
    rw [frac_le_zero_cons]
    by_cases hc : c = 48
    · subst hc
      simpa [Scan.run, Scan.step] using ih
    · simp [Scan.run, Scan.step, Scan.reject, hc]

theorem run_onePt : Scan.run ⟨.onePt, q, 1, 100⟩ s = .ok r ↔ s ≠ [] ∧ (s.all isDigit ∧ frac s ≤ 0) ∧ r = q := by
  cases s with
  | nil => simp [Scan.run]
  | cons c s =>
    rw [frac_le_zero_cons]
    by_cases hc : c = 48
    · subst hc
      simpa [Scan.run, Scan.step] using run_onePtZero
    · simp [Scan.run, Scan.step, Scan.reject, hc]

/-- The result for a number. -/
def Reads (n : Option ℚ) (r : Int) : Prop := ∃ v, n = some v ∧ v ≤ 1 ∧ r = ⌊1000 * v⌋

theorem reads_some {v : ℚ} : Reads (some v) r ↔ v ≤ 1 ∧ r = ⌊1000 * v⌋ := by
  simp [Reads]

theorem not_reads_num {m} (hm : 2 ≤ m) : ¬ Reads (num m s) r := by
  rintro ⟨v, h, hle, -⟩
  have : (2 : ℚ) ≤ m := by exact_mod_cast hm
  linarith [le_num h]

theorem run_one : Scan.run ⟨.one, 1000, 1, 100⟩ s = .ok r ↔ Reads (num 1 s) r := by
  cases s with
  | nil =>
    rw [num, reads_some]
    norm_num [Scan.run, eq_comm]
  | cons c s =>
    by_cases hpt : c = 46
    · subst hpt
      rw [num, if_neg (by decide), if_pos rfl]
      refine run_onePt.trans ⟨?_, ?_⟩
      · rintro ⟨hne, ⟨hs, hle⟩, rfl⟩
        have hzero : frac s = 0 := le_antisymm hle (frac_range hs).1
        refine ⟨_, Option.map_eq_some_iff.2 ⟨_, fraction_eq.2 ⟨⟨hne, hs⟩, rfl⟩, rfl⟩, ?_, ?_⟩
        · norm_num [hzero]
        · norm_num [hzero]
      · rintro ⟨_, h, hle, rfl⟩
        obtain ⟨_, hw, rfl⟩ := Option.map_eq_some_iff.1 h
        obtain ⟨⟨hne, hs⟩, rfl⟩ := fraction_eq.1 hw
        have hzero : frac s = 0 := le_antisymm (by push_cast at hle; linarith) (frac_range hs).1
        exact ⟨hne, ⟨hs, hzero.le⟩, by norm_num [hzero]⟩
    · refine iff_of_false (by simp [Scan.run, Scan.step, Scan.reject, hpt]) ?_
      by_cases hc : isDigit c
      · rw [num, if_pos hc]
        exact not_reads_num (by omega)
      · simp [num, hc, hpt, Reads]

/-- A number that begins with the point is below 1. -/
theorem run_point : Scan.run ⟨.zeroPt, q, 1, 100⟩ s = .ok r ↔ Reads (fraction s) r := by
  simp only [run_zeroPt, Reads, fraction_eq]
  constructor
  · rintro ⟨hs, rfl⟩
    exact ⟨_, ⟨hs, rfl⟩, (frac_range hs.2).2.le, rfl⟩
  · rintro ⟨_, ⟨hs, rfl⟩, -, rfl⟩
    exact ⟨hs, rfl⟩

theorem run_zero : Scan.run ⟨.zero, 0, 1, 100⟩ s = .ok r ↔ Reads (num 0 s) r := by
  induction s with
  | nil =>
    rw [num, reads_some]
    norm_num [Scan.run, eq_comm]
  | cons c s ih =>
    by_cases h0 : c = 48
    · subst h0
      exact ih
    by_cases hpt : c = 46
    · subst hpt
      show Scan.run ⟨.zeroPt, 0, 1, 100⟩ s = _ ↔ Reads ((fraction s).map ((0 : Nat) + ·)) r
      simpa using run_point
    by_cases h1 : c = 49
    · subst h1
      exact run_one
    refine iff_of_false (by simp [Scan.run, Scan.step, Scan.reject, h0, hpt, h1]) ?_
    by_cases hc : isDigit c
    · rw [num, if_pos hc]
      exact not_reads_num (by have := two_le_digit hc h0 h1; omega)
    · simp [num, hc, hpt, Reads]

theorem str2q_ok : str2q q s = .ok r ↔ Reads (decimal s) r := by
  rw [str2q]
  induction s with
  | nil => exact iff_of_false nofun nofun
  | cons c s ih =>
    by_cases hb : c = 32 ∨ c = 9
    · simp only [Scan.run, Scan.step, hb, if_true, decimal]
      exact ih
    by_cases h0 : c = 48
    · subst h0
      exact run_zero
    by_cases h1 : c = 49
    · subst h1
      exact run_one
    by_cases hpt : c = 46
    · subst hpt
      exact run_point
    refine iff_of_false (by simp [Scan.run, Scan.step, hb, h0, hpt, h1]) ?_
    by_cases hc : isDigit c
    · rw [decimal, if_neg hb, if_pos hc]
      exact not_reads_num (two_le_digit hc h0 h1)
    · simp [decimal, hb, hc, hpt, Reads]

end Decimal

/-- `str2q` accepts the decimal numbers up to 1 and gives a thousand times their value, rounded down,
so in their order; and it reads back what `q2str` has written. -/
theorem str2q_spec :
    (∀ q s r, str2q q s = .ok r ↔ ∃ v, decimal s = some v ∧ v ≤ 1 ∧ r = ⌊1000 * v⌋) ∧
      (∀ q q' s s' r r' v v', str2q q s = .ok r → str2q q' s' = .ok r' →
        decimal s = some v → decimal s' = some v' → v ≤ v' → r ≤ r') ∧
      ∀ q q' : Int, 0 ≤ q → q ≤ 1000 → str2q q' (q2str q) = .ok q := by
  refine ⟨fun q s r => str2q_ok, ?_, ?_⟩
  · intro q q' s s' r r' v v' hr hr' hv hv' hle
    obtain ⟨w, hw, -, rfl⟩ := str2q_ok.1 hr
    obtain ⟨w', hw', -, rfl⟩ := str2q_ok.1 hr'
    obtain rfl := Option.some.inj (hv.symm.trans hw)
    obtain rfl := Option.some.inj (hv'.symm.trans hw')
    exact Int.floor_le_floor (by linarith)
  · intro q q' h0 h1
    have hall : ∀ n : Fin 1001, str2q 0 (q2str n) = .ok (n : Int) := by decide +kernel
    have hn := hall ⟨q.toNat, by omega⟩
    rw [show ((⟨q.toNat, by omega⟩ : Fin 1001) : Int) = q from Int.toNat_of_nonneg h0] at hn
    -- `*q` is written before it is read
    exact str2q_ok.2 (str2q_ok.1 hn)

/-- The texts ` .5` and `0.5`. -/
theorem str2q_spec_half : str2q 0 [32, 46, 53] = .ok 500 ∧ str2q 0 (q2str 500) = .ok 500 := by
  refine ⟨(str2q_spec.1 _ _ _).2 ⟨1 / 2, ?_, ?_, ?_⟩, str2q_spec.2.2 500 0 (by decide) (by decide)⟩
  · decide +kernel
  · norm_num
  · norm_num

end SipRouter.Registrar.Qvalue
