import Mathlib.Tactic.Ring

/-!
# Time switches (`modules/cpl-c/cpl_time.c`)

A recurrence starts at a time, lasts for a duration, and comes back after a number of days, weeks,
months or years. `check_tmrec` looks at the first window as a whole, and for the others at the day of
the time it is asked about: whether an instance starts on that day, and whether the time of day is in
its window. What reaches into the next day is not found, except in the first window.

The C library's calendar is a parameter, with what it is relied on for.
-/

namespace SipRouter.Cpl

/-- The local calendar: dates of days, counted from 1 January 1970, at a fixed distance from UTC. -/
structure Calendar where
  offset : Int
  year : Int → Int
  mon : Int → Int
  mday : Int → Int
  /-- `mktime` of the beginning of a date. -/
  mktime : Int → Int → Int → Int
  mon_range : ∀ d, 0 ≤ mon d ∧ mon d < 12
  later : ∀ d d', d < d' →
    year d < year d' ∨ year d = year d' ∧ (mon d < mon d' ∨ mon d = mon d' ∧ mday d < mday d')
  mktime_date : ∀ d, mktime (year d) (mon d) (mday d) = d * 86400 - offset

/-- `struct tm`, without what is not read here. -/
structure Tm where
  sec : Int
  min : Int
  hour : Int
  mday : Int
  mon : Int
  year : Int
  wday : Int

namespace Calendar

variable (cal : Calendar)

def day (t : Int) : Int := (t + cal.offset) / 86400

/-- The seconds since midnight. -/
def clock (t : Int) : Int := (t + cal.offset) % 86400

end Calendar

inductive Freq where
  | yearly | monthly | weekly | daily

/-- `tmrec_t` without `BY` parts; numbers that are not positive are not set. -/
structure TmRec where
  dtstart : Int
  dtend : Int
  duration : Int
  freq : Freq
  interval : Int
  until_ : Int

/-- The duration that `check_tmrec` computes. -/
def TmRec.length (r : TmRec) : Int :=
  if 0 < r.duration then r.duration else r.dtend - r.dtstart

section

variable (cal : Calendar) (r : TmRec) (t : Int)

/-- The day is `k` times the interval after the first one. -/
def TmRec.Steps (k : Nat) (d : Int) : Prop :=
  let d₀ := cal.day r.dtstart
  match r.freq with
  | .daily => d = d₀ + k * r.interval
  | .weekly => d = d₀ + 7 * (k * r.interval)
  | .monthly =>
    cal.mday d = cal.mday d₀ ∧
      cal.year d * 12 + cal.mon d = cal.year d₀ * 12 + cal.mon d₀ + k * r.interval
  | .yearly =>
    cal.mday d = cal.mday d₀ ∧ cal.mon d = cal.mon d₀ ∧ cal.year d = cal.year d₀ + k * r.interval

/-- An instance starts at `s`, were there no bound. -/
structure TmRec.Recurs (s : Int) : Prop where
  clock : cal.clock s = cal.clock r.dtstart
  steps : ∃ k, r.Steps cal k (cal.day s)

/-- An instance starts at `s`. -/
structure TmRec.Starts (s : Int) : Prop extends r.Recurs cal s where
  until_ : 0 < r.until_ → s ≤ r.until_

/-- `int` holds the times that `check_freq_interval` computes. It looks at none for an interval of
1, for months and for years. -/
def TmRec.Fits : Prop :=
  r.interval ≠ 1 → (r.freq = .daily ∨ r.freq = .weekly) →
    -2 ^ 31 ≤ cal.day r.dtstart * 86400 - cal.offset ∧ cal.day t * 86400 - cal.offset < 2 ^ 31

end

variable {cal : Calendar} {r : TmRec} {t : Int}

theorem TmRec.Steps.le {k d} (hn : 1 ≤ r.interval) (h : r.Steps cal k d) : cal.day r.dtstart ≤ d := by
  by_contra hlt
  have hlater := cal.later d (cal.day r.dtstart) (by omega)
  have hmon := cal.mon_range d
  have hmon0 := cal.mon_range (cal.day r.dtstart)
  have hkn : 0 ≤ (k : Int) * r.interval := Int.mul_nonneg (Int.natCast_nonneg k) (by omega)
  unfold TmRec.Steps at h
  cases hf : r.freq <;> simp only [hf] at h <;> omega

/-- No instance starts before the first one. -/
theorem TmRec.Recurs.le {s} (hn : 1 ≤ r.interval) (h : r.Recurs cal s) : r.dtstart ≤ s := by
  obtain ⟨hclock, k, hk⟩ := h
  have hday := hk.le hn
  unfold Calendar.day Calendar.clock at *
  omega

end SipRouter.Cpl
