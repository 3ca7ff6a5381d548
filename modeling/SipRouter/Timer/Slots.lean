import SipRouter.Lib.Cyclic
import SipRouter.Timer.Wheel

/-!
# When a slot is visited

`runsLeft p g e` predicts, from the last tick run `p`, the list `g` a timer is
in and its `expire` value `e`, how many calls of `timer_run` it takes to reach
the expired list. `advance t g e` is the list the timer is in after
`timer_run t`. The prediction is exact: a call either moves the timer to the
expired list, when one call is left, or leaves one call less
(`advance_expired`, `advance_runsLeft`).
-/

namespace SipRouter.Timer

open SipRouter.Lib BitVec

/-! ## Slot indices as numbers -/

theorem h0Slot_toNat (t : Ticks) : (t &&& h0Mask).toNat = t.toNat % 16384 := by
  have : h0Mask.toNat = 2 ^ 14 - 1 := by decide
  rw [toNat_and, this, Nat.and_two_pow_sub_one_eq_mod]

theorem h1H0Mask_toNat (t : Ticks) : (t &&& h1H0Mask).toNat = t.toNat % 8388608 := by
  have : h1H0Mask.toNat = 2 ^ 23 - 1 := by decide
  rw [toNat_and, this, Nat.and_two_pow_sub_one_eq_mod]

theorem h1Slot_toNat (t : Ticks) : ((t &&& h1H0Mask) >>> h0Bits).toNat = t.toNat % 8388608 / 16384 := by
  rw [toNat_ushiftRight, h1H0Mask_toNat, Nat.shiftRight_eq_div_pow]
  rfl

theorem h2Slot_toNat (t : Ticks) : (t >>> (h1Bits + h0Bits)).toNat = t.toNat / 8388608 := by
  rw [toNat_ushiftRight, Nat.shiftRight_eq_div_pow]
  rfl

theorem toNat_sub_eq (e t : Ticks) : (e - t).toNat = (e.toNat + 4294967296 - t.toNat) % 4294967296 := by
  rw [toNat_sub]
  congr 1
  have := t.isLt
  omega

theorem toNat_succ (t : Ticks) : (t + 1).toNat = (t.toNat + 1) % 4294967296 := by
  rw [toNat_add]
  rfl

theorem toNat_sub_add {e p n} :
    (e - (p + BitVec.ofNat 32 n)).toNat = (e.toNat + 4294967296 - (p.toNat + n) % 4294967296) % 4294967296 := by
  rw [toNat_sub_eq, toNat_add, toNat_ofNat, Nat.add_mod_mod]

theorem eq_zero_iff_toNat (t : Ticks) : t = 0 ↔ t.toNat = 0 := by
  rw [← toNat_inj]
  rfl

theorem lt_h0Entries_iff {d} : d < h0Entries ↔ d.toNat < 16384 := by
  rw [lt_def]
  rfl

theorem lt_h0h1Entries_iff {d} : d < h0Entries * h1Entries ↔ d.toNat < 8388608 := by
  rw [lt_def]
  rfl

/-! ## Slots -/

/-- A list of one of the three wheels. -/
def TimerHead.Wheel : TimerHead → Prop
  | .h0 _ | .h1 _ | .h2 _ => True
  | .expired | .slow _ => False

instance (g : TimerHead) : Decidable g.Wheel := by
  cases g <;> unfold TimerHead.Wheel <;> infer_instance

/-- A wheel list that is the slot of `e` in its wheel. -/
def SlotOf (e : Ticks) : TimerHead → Prop
  | .h0 i => i = e &&& h0Mask
  | .h1 i => i = (e &&& h1H0Mask) >>> h0Bits
  | .h2 i => i = e >>> (h1Bits + h0Bits)
  | .expired | .slow _ => False

variable {e t p : Ticks} {g : TimerHead} {m k : Nat}

theorem SlotOf.wheel (h : SlotOf e g) : g.Wheel := by
  cases g <;> trivial

/-- The ticks from `p` to the next tick that is `k` modulo `m`, and from there to `e`. -/
def viaSlot (m k : Nat) (p e : Ticks) : Nat :=
  let n := ahead m p.toNat k
  n + (e - (p + BitVec.ofNat 32 n)).toNat

/-- The number of `timer_run` calls after the one for `p` until the slot of
the timer is visited in `h0`, or is visited in an upper wheel and the timer
has then waited out the distance left. -/
def runsLeft (p : Ticks) (g : TimerHead) (e : Ticks) : Nat :=
  match g with
  | .h0 i => ahead 16384 p.toNat i.toNat
  | .h1 i => viaSlot 8388608 (i.toNat * 16384) p e
  | .h2 i => viaSlot 4294967296 (i.toNat * 8388608) p e
  | .expired | .slow _ => 0

/-- The list a timer of list `g` is in after `timer_run t`. -/
def advance (t : Ticks) (g : TimerHead) (e : Ticks) : TimerHead :=
  match g with
  | .h0 i => if i = t &&& h0Mask then .expired else .h0 i
  | .h1 i =>
    if t &&& h0Mask = 0 ∧ i = (t &&& h1H0Mask) >>> h0Bits then distHead e (e - t) else .h1 i
  | .h2 i =>
    if t &&& h1H0Mask = 0 ∧ i = t >>> (h0Bits + h1Bits) then distHead e (e - t) else .h2 i
  | .expired => .expired
  | .slow i => .slow i

/-- The four outcomes of the choice of a list. -/
theorem distHead_cases (e d : Ticks) : (d.toNat = 0 ∧ distHead e d = .expired) ∨
    (0 < d.toNat ∧ d.toNat < 16384 ∧ distHead e d = .h0 (e &&& h0Mask)) ∨
    (16384 ≤ d.toNat ∧ d.toNat < 8388608 ∧ distHead e d = .h1 ((e &&& h1H0Mask) >>> h0Bits)) ∨
    (8388608 ≤ d.toNat ∧ distHead e d = .h2 (e >>> (h1Bits + h0Bits))) := by
  unfold distHead
  simp only [lt_h0Entries_iff, lt_h0h1Entries_iff, eq_zero_iff_toNat]
  split_ifs <;> simp <;> omega

theorem distHead_slotOf {d} (hd : d ≠ 0) : SlotOf e (distHead e d) := by
  have hd' : d.toNat ≠ 0 := fun h => hd ((eq_zero_iff_toNat d).2 h)
  rcases distHead_cases e d with ⟨h, _⟩ | ⟨_, _, h⟩ | ⟨_, _, h⟩ | ⟨_, h⟩
  · exact absurd h hd'
  all_goals rw [h]; rfl

/-- A timer put in the wheels `d` ticks ahead of the last tick run needs `d` calls. -/
theorem runsLeft_distHead (t d : Ticks) (hd : d ≠ 0) : runsLeft t (distHead (t + d) d) (t + d) = d.toNat := by
  have hd' : d.toNat ≠ 0 := fun h => hd ((eq_zero_iff_toNat d).2 h)
  have ht := t.isLt
  have hlt := d.isLt
  have he : (t + d).toNat = (t.toNat + d.toNat) % 4294967296 := by
    rw [toNat_add]
  rcases distHead_cases (t + d) d with ⟨h, _⟩ | ⟨h1, h2, h⟩ | ⟨h1, h2, h⟩ | ⟨h1, h⟩
  · exact absurd h hd'
  · rw [h]
    simp only [runsLeft, h0Slot_toNat, he]
    exact ahead_unique (by omega) (by omega) (by omega) (by omega)
  · rw [h]
    simp only [runsLeft, viaSlot, h1Slot_toNat, he]
    have hn : ahead 8388608 t.toNat
        ((t.toNat + d.toNat) % 4294967296 % 8388608 / 16384 * 16384) = d.toNat - (t.toNat + d.toNat) % 16384 :=
      ahead_unique (by omega) (by omega) (by omega) (by omega)
    rw [hn, toNat_sub_add, he]
    omega
  · rw [h]
    simp only [runsLeft, viaSlot, h2Slot_toNat, he]
    have hn : ahead 4294967296 t.toNat
        ((t.toNat + d.toNat) % 4294967296 / 8388608 * 8388608) = d.toNat - (t.toNat + d.toNat) % 8388608 :=
      ahead_unique (by omega) (by omega) (by omega) (by omega)
    rw [hn, toNat_sub_add, he]
    omega

theorem runsLeft_redist (h : e - t ≠ 0) : runsLeft t (distHead e (e - t)) e = (e - t).toNat := by
  have he : t + (e - t) = e := by rw [add_comm, sub_add_cancel]
  have := runsLeft_distHead t (e - t) h
  rwa [he] at this

/-! ## One call of `timer_run` -/

theorem ahead_tick_succ (hm : m ∣ 4294967296) (p : Ticks) (k : Nat) :
    ahead m (p + 1).toNat k = ahead m (p.toNat + 1) k := by
  rw [toNat_succ, ahead_mod hm]

/-- The slot comes up at the next tick. -/
theorem viaSlot_due (h : ahead m p.toNat k = 1) : viaSlot m k p e = 1 + (e - (p + 1)).toNat := by
  rw [viaSlot, h]
  rfl

/-- The slot does not come up at the next tick. -/
theorem viaSlot_succ (hm : m ∣ 4294967296) (hk : k < m) (h : ahead m p.toNat k ≠ 1) :
    viaSlot m k (p + 1) e + 1 = viaSlot m k p e := by
  have hs := ahead_succ hk h
  have hp : p + 1 + BitVec.ofNat 32 (ahead m (p.toNat + 1) k) = p + BitVec.ofNat 32 (ahead m p.toNat k) := by
    rw [← hs, ofNat_add, add_assoc, add_comm 1]
    rfl
  unfold viaSlot
  simp only [ahead_tick_succ hm, hp]
  omega

theorem viaSlot_pos : 1 ≤ viaSlot m k p e := Nat.le_add_right_of_le (ahead_pos m p.toNat k)

theorem runsLeft_pos {p e} (hg : g.Wheel) : 0 < runsLeft p g e := by
  cases g with
  | h0 i => exact ahead_pos _ _ _
  | h1 i | h2 i => exact viaSlot_pos
  | expired | slow i => exact hg.elim

/-- `timer_run` visits the `h0` slot of the tick. -/
theorem h0_due_iff : e &&& h0Mask = (p + 1) &&& h0Mask ↔ ahead 16384 p.toNat (e &&& h0Mask).toNat = 1 := by
  have := p.isLt
  rw [← toNat_inj, ahead_eq_one_iff (by rw [h0Slot_toNat]; omega), h0Slot_toNat, h0Slot_toNat, toNat_succ]
  omega

/-- `timer_run` visits the `h1` slot of a tick that starts one. -/
theorem h1_due_iff : ((p + 1) &&& h0Mask = 0 ∧ (e &&& h1H0Mask) >>> h0Bits = ((p + 1) &&& h1H0Mask) >>> h0Bits) ↔
      ahead 8388608 p.toNat (((e &&& h1H0Mask) >>> h0Bits).toNat * 16384) = 1 := by
  have := p.isLt
  rw [eq_zero_iff_toNat, ← toNat_inj, ahead_eq_one_iff (by rw [h1Slot_toNat]; omega), h0Slot_toNat,
    h1Slot_toNat, h1Slot_toNat, toNat_succ]
  omega

/-- `timer_run` visits the `h2` slot of a tick that starts one. -/
theorem h2_due_iff : ((p + 1) &&& h1H0Mask = 0 ∧ e >>> (h1Bits + h0Bits) = (p + 1) >>> (h0Bits + h1Bits)) ↔
      ahead 4294967296 p.toNat ((e >>> (h1Bits + h0Bits)).toNat * 8388608) = 1 := by
  have := p.isLt
  have := e.isLt
  rw [eq_zero_iff_toNat, ← toNat_inj, ahead_eq_one_iff (by rw [h2Slot_toNat]; omega), h1H0Mask_toNat, h2Slot_toNat,
    add_comm h0Bits h1Bits, h2Slot_toNat, toNat_succ]
  omega

/-- What redistribution at tick `p + 1` does to a timer whose slot in an upper wheel is due. -/
theorem redist_spec (h : ahead m p.toNat k = 1) : (viaSlot m k p e = 1 ∧ distHead e (e - (p + 1)) = .expired) ∨
    (runsLeft (p + 1) (distHead e (e - (p + 1))) e + 1 = viaSlot m k p e ∧ SlotOf e (distHead e (e - (p + 1)))) := by
  rw [viaSlot_due h]
  by_cases hd : e - (p + 1) = 0
  · left
    rw [hd]
    exact ⟨rfl, rfl⟩
  · right
    rw [runsLeft_redist hd]
    exact ⟨add_comm _ _, distHead_slotOf hd⟩

/-- What a timer in its slot does at the next tick: it expires, if one call was left, or is
in a slot of its own again with one call less to go. -/
theorem advance_spec (p : Ticks) (hg : SlotOf e g) : (runsLeft p g e = 1 ∧ advance (p + 1) g e = .expired) ∨
    (runsLeft (p + 1) (advance (p + 1) g e) e + 1 = runsLeft p g e ∧ SlotOf e (advance (p + 1) g e)) := by
  have he := e.isLt
  cases g with
  | h0 i =>
    obtain rfl : i = e &&& h0Mask := hg
    simp only [runsLeft, advance, h0_due_iff]
    split_ifs with hn
    · exact .inl ⟨hn, rfl⟩
    · refine .inr ⟨?_, rfl⟩
      show ahead 16384 (p + 1).toNat _ + 1 = _
      rw [ahead_tick_succ (by decide)]
      exact ahead_succ (by rw [h0Slot_toNat]; omega) hn
  | h1 i =>
    obtain rfl : i = (e &&& h1H0Mask) >>> h0Bits := hg
    simp only [runsLeft, advance, h1_due_iff]
    split_ifs with hn
    · exact redist_spec hn
    · exact .inr ⟨viaSlot_succ (by decide) (by rw [h1Slot_toNat]; omega) hn, rfl⟩
  | h2 i =>
    obtain rfl : i = e >>> (h1Bits + h0Bits) := hg
    simp only [runsLeft, advance, h2_due_iff]
    split_ifs with hn
    · exact redist_spec hn
    · exact .inr ⟨viaSlot_succ (by decide) (by rw [h2Slot_toNat]; omega) hn, rfl⟩
  | expired | slow i => exact hg.elim

/-! ## A timer is met once -/

/-- A timer redistributed from its `h2` slot goes neither back there, nor to the `h1` slot
redistributed next, nor to the `h0` slot drained last. -/
theorem redist_h2_ne (ht : t &&& h1H0Mask = 0) (he : e >>> (h1Bits + h0Bits) = t >>> (h0Bits + h1Bits)) :
    distHead e (e - t) ≠ .h2 (t >>> (h0Bits + h1Bits)) ∧ distHead e (e - t) ≠ .h1 ((t &&& h1H0Mask) >>> h0Bits) ∧
    distHead e (e - t) ≠ .h0 (t &&& h0Mask) := by
  have htl := t.isLt
  have hel := e.isLt
  rw [eq_zero_iff_toNat, h1H0Mask_toNat] at ht
  rw [← toNat_inj, add_comm h0Bits, h2Slot_toNat, h2Slot_toNat] at he
  have hd := toNat_sub_eq e t
  rcases distHead_cases e (e - t) with ⟨_, h⟩ | ⟨h1, h2, h⟩ | ⟨h1, h2, h⟩ | ⟨h1, h⟩ <;>
    simp only [h, ne_eq, TimerHead.h0.injEq, TimerHead.h1.injEq, TimerHead.h2.injEq, reduceCtorEq,
      not_false_eq_true, true_and, and_true, ← toNat_inj, h0Slot_toNat, h1Slot_toNat]
  all_goals omega

/-- A timer redistributed from its `h1` slot goes neither back there nor to the `h0` slot
drained next. -/
theorem redist_h1_ne (ht : t &&& h0Mask = 0) (he : (e &&& h1H0Mask) >>> h0Bits = (t &&& h1H0Mask) >>> h0Bits) :
    distHead e (e - t) ≠ .h1 ((t &&& h1H0Mask) >>> h0Bits) ∧ distHead e (e - t) ≠ .h0 (t &&& h0Mask) := by
  have htl := t.isLt
  have hel := e.isLt
  rw [eq_zero_iff_toNat, h0Slot_toNat] at ht
  rw [← toNat_inj, h1Slot_toNat, h1Slot_toNat] at he
  have hd := toNat_sub_eq e t
  rcases distHead_cases e (e - t) with ⟨_, h⟩ | ⟨h1, h2, h⟩ | ⟨h1, h2, h⟩ | ⟨h1, h⟩ <;>
    simp only [h, ne_eq, TimerHead.h0.injEq, TimerHead.h1.injEq, reduceCtorEq,
      not_false_eq_true, true_and, and_true, ← toNat_inj, h0Slot_toNat, h1Slot_toNat]
  all_goals omega

end SipRouter.Timer
