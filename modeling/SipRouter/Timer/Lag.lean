import SipRouter.Timer.Expiry

/-!
# Timers added while the timer process lags

`timer_add` takes the wheel from the distance to the shared counter `*ticks`,
while `timer_run` is at `prev_ticks`, which may be behind. A timer of the upper
wheels is distributed again by its `expire` value on the way down, so the lag
does no harm there. A timer put in `h0` is not looked at again: if lag and
interval together exceed one turn of `h0`, its slot comes up a whole number of
turns early.
-/

namespace SipRouter.Timer

open Lib Buckets List
open BitVec hiding replicate_succ'

variable {p t delta : Ticks}

/-- When the wheel chosen for a timer `delta` ticks ahead of the counter is also right as
seen from `lag` ticks behind it. -/
def LagFits (lag : Nat) (delta expire : Ticks) : Prop :=
  if delta.toNat < 16384 then lag + delta.toNat ≤ 16384
  else if delta.toNat < 8388608 then lag + delta.toNat ≤ 4294967296 + expire.toNat % 16384
  else lag + delta.toNat ≤ 4294967296 + expire.toNat % 8388608

instance (lag : Nat) (delta expire : Ticks) : Decidable (LagFits lag delta expire) := by
  unfold LagFits
  infer_instance

/-- The way through a slot that lies `r` ticks before `e` is the direct one, of length `n`,
if less than a turn of the counter remains from the slot on. -/
theorem viaSlot_eq_iff {m k n r} (hm : m ∣ 4294967296) (hk : k < m) {p e}
    (hn : (p.toNat + n) % 4294967296 = e.toNat) (hr : r < n) (hrm : r < m) (hs : (p.toNat + (n - r)) % m = k) :
    viaSlot m k p e = n ↔ n ≤ 4294967296 + r := by
  obtain ⟨c, hc⟩ := hm
  have hp := p.isLt
  rw [viaSlot, toNat_sub_add, ahead_eq_mod hk (by omega : 1 ≤ n - r) hs, ← hn]
  have hdiv := Nat.div_add_mod (n - r - 1) m
  generalize hq : (n - r - 1) / m = q at hdiv
  generalize hv : (n - r - 1) % m = v at hdiv
  have hrest : ((p.toNat + n) % 4294967296 + 4294967296 - (p.toNat + (v + 1)) % 4294967296) %
      4294967296 = (m * q + r) % 4294967296 := by
    omega
  have hvm : v < m := hv ▸ Nat.mod_lt _ (Nat.zero_lt_of_lt hk)
  rw [hrest]
  -- the rest is below one turn exactly if fewer than `c` turns of the wheel are skipped
  have hiff : m * q + r < 4294967296 ↔ n ≤ 4294967296 + r := by
    rw [hc]
    constructor
    · intro h
      have : q + 1 ≤ c := by
        by_contra hcq
        have := Nat.mul_le_mul_left m (by omega : c ≤ q)
        omega
      have := Nat.mul_le_mul_left m this
      rw [Nat.mul_add] at this
      omega
    · intro h
      have : q < c := by
        by_contra hcq
        have := Nat.mul_le_mul_left m (by omega : c ≤ q)
        omega
      have := Nat.mul_le_mul_left m (Nat.succ_le_of_lt this)
      rw [Nat.mul_succ] at this
      omega
  rw [← hiff]
  constructor
  · intro h
    have := Nat.mod_lt (m * q + r) (by decide : 0 < 4294967296)
    omega
  · intro h
    rw [Nat.mod_eq_of_lt h]
    omega

theorem add_lag : p + BitVec.ofNat 32 ((t - p).toNat + delta.toNat) = t + delta := by
  rw [ofNat_add, ofNat_toNat, ofNat_toNat, setWidth_eq,
    setWidth_eq, ← add_assoc, add_comm p, sub_add_cancel]

/-- From `lag` ticks behind, a timer needs the calls for every tick up to its own exactly
when the wheel fits. -/
theorem runsLeft_eq_lag_iff (hd : delta ≠ 0) :
    runsLeft p (distHead (t + delta) delta) (t + delta) = (t - p).toNat + delta.toNat ↔
      LagFits (t - p).toNat delta (t + delta) := by
  have hd' : delta.toNat ≠ 0 := fun h => hd ((eq_zero_iff_toNat delta).2 h)
  have hp := p.isLt
  have ht := t.isLt
  have he : (p.toNat + ((t - p).toNat + delta.toNat)) % 4294967296 = (t + delta).toNat := by
    rw [toNat_sub_eq, toNat_add]
    omega
  unfold LagFits
  generalize (t - p).toNat = lag at *
  rcases distHead_cases (t + delta) delta with ⟨h, _⟩ | ⟨h1, h2, h⟩ | ⟨h1, h2, h⟩ | ⟨h1, h⟩
  · exact absurd h hd'
  · rw [h, if_pos h2, runsLeft, h0Slot_toNat, ahead_eq_mod (n := lag + delta.toNat) (by omega) (by omega) (by omega)]
    omega
  · rw [h, if_neg (by omega), if_pos h2, runsLeft, h1Slot_toNat]
    exact viaSlot_eq_iff (by decide) (by omega) he (by omega) (by omega) (by omega)
  · rw [h, if_neg (by omega), if_neg (by omega), runsLeft, h2Slot_toNat]
    exact viaSlot_eq_iff (by decide) (by omega) he (by omega) (by omega) (by omega)

section Run

variable {α : Type} [DecidableEq α] {s : TimerState α} {x : α}

/-- The timer leaves the wheels with the `n`-th call of `timer_run` from here, whatever else
happens short of its deletion. -/
def ExpiresAfter (s : TimerState α) (x : α) (n : Nat) : Prop :=
  ∀ ops : List (TimerOp α), (∀ op ∈ ops, ¬ op.Deletes x) →
    (ops.count .run < n → ∃ g, g.Wheel ∧ Placed (runOps ops s).lst x g) ∧
    (ops.count .run + 1 = n → Placed (TimerOp.run.step (runOps ops s)).lst x .expired)

theorem Pending.expiresAfter {n} (h : Pending s x n) : ExpiresAfter s x n := by
  refine fun ops hdel => ⟨fun hlt => ?_, fun hlast => ?_⟩
  · obtain ⟨m, hm⟩ := Nat.exists_eq_add_of_lt hlt
    rw [hm, Nat.add_assoc] at h
    obtain ⟨⟨g, hg, hw, -⟩, -⟩ := Pending.runOps hdel (Nat.succ_pos m) h
    exact ⟨g, hw, hg.placed⟩
  · rw [← hlast] at h
    exact (Pending.expires hdel h).1

/-- Enough calls in a row show when a timer expires. -/
theorem ExpiresAfter.unique {m n} (hm : 0 < m) (hn : 0 < n) (h : ExpiresAfter s x m)
    (h' : ExpiresAfter s x n) : m = n := by
  have key : ∀ {a b : Nat}, 0 < a → ExpiresAfter s x a → ExpiresAfter s x b → ¬ a < b := by
    intro a b ha hxa hxb hlt
    obtain ⟨k, rfl⟩ : ∃ k, a = k + 1 := ⟨a - 1, by omega⟩
    have hdel : ∀ n, ∀ op ∈ List.replicate n (.run : TimerOp α), ¬ op.Deletes x := by
      intro n op hop
      rw [eq_of_mem_replicate hop]
      exact id
    -- after `k + 1` calls the timer has expired, and yet is in a wheel
    have hexp := (hxa (List.replicate k .run) (hdel k)).2 (by simp)
    obtain ⟨g, hg, hpl⟩ := (hxb (List.replicate (k + 1) .run) (hdel (k + 1))).1 (by simpa using hlt)
    rw [replicate_succ', runOps, foldl_append] at hpl
    rw [hpl.unique hexp] at hg
    exact hg
  have h1 := key hm h h'
  have h2 := key hn h' h
  omega

/-- A timer added with the timer process `lag` ticks behind is never moved to the expired
list before the call for tick `expire`, and is moved there by that call, exactly when the
wheel it is put in fits the lag. -/
theorem timer_on_time_iff_lagFits (fast : α → Bool) (t₀ : Ticks) (before : List (TimerOp α))
    (x : α) (delta : Ticks) (s : TimerState α) (hs : s = runOps before (initTimer fast t₀))
    (hd : delta ≠ 0) (hadd : (timerAddSafe x delta s).2 = 0) :
    let s' := (timerAddSafe x delta s).1
    let lag := (s.ticks - s.prevTicks).toNat
    (s'.tl x).expire = s'.prevTicks + BitVec.ofNat 32 (lag + delta.toNat) ∧
    (ExpiresAfter s' x (lag + delta.toNat) ↔ LagFits lag delta (s'.tl x).expire) := by
  have hok : Ok s := hs ▸ (ok_initTimer fast t₀).runOps before
  have hd' : delta.toNat ≠ 0 := fun h => hd ((eq_zero_iff_toNat delta).2 h)
  obtain ⟨hpend, he⟩ := timerAddSafe_pending hok hd hadd
  simp only [he, timerAddSafe_prevTicks]
  rw [← runsLeft_eq_lag_iff hd]
  refine ⟨(add_lag).symm, fun h => ?_, fun h => ?_⟩
  · exact hpend.expiresAfter.unique (runsLeft_pos (distHead_slotOf hd).wheel) (by omega) h
  · rw [← h]
    exact hpend.expiresAfter

/-- Two ticks behind, an interval of 16382 ticks still fits. -/
theorem timer_on_time_two_behind :
    ExpiresAfter (timerAddSafe () 16382 (runOps [.clock, .clock] (initTimer (fun _ => true) 0))).1
      () (2 + 16382) :=
  (timer_on_time_iff_lagFits (fun _ => true) 0 [.clock, .clock] () 16382 _ rfl (by decide)
    (by decide)).2.2 (by decide)

/-- Two ticks behind, an interval of 16383 ticks does not: the timer set for tick 16385 is
moved to the expired list by the very next call, for tick 1. -/
theorem timer_early_two_behind :
    let s := (timerAddSafe () 16383 (runOps [.clock, .clock] (initTimer (fun _ => true) 0))).1
    (s.tl ()).expire = 16385 ∧ (TimerOp.run.step s).prevTicks = 1 ∧
      (TimerOp.run.step s).lst .expired = [()] := by
  decide

end Run

end SipRouter.Timer
