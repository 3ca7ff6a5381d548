import SipRouter.Timer.Expiry

/-!
# Which ticks are run (`timer_handler`, `local_timer_run`)

The timer process and the local timers of the TCP processes catch up with the
tick counter in the same way: a guard against time running backwards, then one
call for each tick after the last one run. The guard compares the counters as
unsigned numbers, so a jump across the wrap of the counter looks like time
running backwards: all ticks of the jump are lost.
-/

namespace SipRouter.Timer

open List

variable {σ : Type}

variable {saved p : Ticks} {α : Type} {values : List Ticks} {f : Ticks → σ → σ}

theorem toNat_sub_eq_succ (h : p ≠ saved) : (saved - p).toNat = (saved - (p + 1)).toNat + 1 := by
  have hne : p.toNat ≠ saved.toNat := fun h' => h (BitVec.eq_of_toNat_eq h')
  have hp := p.isLt
  have hs := saved.isLt
  rw [toNat_sub_eq, toNat_sub_eq, toNat_succ]
  omega

/-- The counter moved forward, by less than half its range. -/
def Ahead (p saved : Ticks) : Prop := 1 ≤ (saved - p).toNat ∧ (saved - p).toNat < 2147483648

instance (p saved : Ticks) : Decidable (Ahead p saved) := by
  unfold Ahead
  infer_instance

/-! ## The counter -/

def timerTicksHz : Nat := 16
def timerResyncTicks : Ticks := 80#32
def timerMaxDrift : Int := 1

/-- What `adjust_ticks` keeps: the counter, and the counter and the time (in microseconds)
of the last synchronisation. -/
structure TickClock where
  ticks : Ticks
  lastAdjCheck : Ticks
  lastTicks : Ticks
  lastTime : Int
  deriving DecidableEq, Repr

/-- `adjust_ticks`, `crtTime` being what `gettimeofday` returns. -/
def adjustTicks (crtTime : Option Int) (c : TickClock) : TickClock :=
  if c.ticks - c.lastAdjCheck ≥ timerResyncTicks then
    let c := { c with lastAdjCheck := c.ticks }
    match crtTime with
    | none => c
    | some crtTime =>
      let diffTime := crtTime - c.lastTime
      if diffTime < 0 then { c with lastTime := crtTime, lastTicks := c.ticks }
      else
        let diffTicksRaw := c.ticks - c.lastTicks
        let diffTimeTicks := BitVec.ofInt 32 (diffTime * timerTicksHz / 1000000)
        let delta := diffTimeTicks - diffTicksRaw
        if delta.toInt < -1 then { c with lastTime := crtTime, lastTicks := c.ticks }
        else if delta.toInt > timerMaxDrift then { c with ticks := c.ticks + delta }
        else c
  else c

/-- The counter is never set back, whatever the time of day does. -/
theorem adjustTicks_ahead {crtTime c} :
    (adjustTicks crtTime c).ticks = c.ticks ∨ Ahead c.ticks (adjustTicks crtTime c).ticks := by
  have hpos : ∀ d : Ticks, d.toInt > timerMaxDrift → Ahead c.ticks (c.ticks + d) := by
    intro d hd
    have hsub : c.ticks + d - c.ticks = d := by rw [BitVec.add_comm, BitVec.add_sub_cancel]
    have hlt := d.isLt
    rw [BitVec.toInt_eq_toNat_cond, timerMaxDrift] at hd
    rw [Ahead, hsub]
    split_ifs at hd <;> omega
  unfold adjustTicks
  split_ifs
  · split
    · exact .inl rfl
    · simp only
      split_ifs with _ _ h
      · exact .inl rfl
      · exact .inl rfl
      · exact .inr (hpos _ h)
      · exact .inl rfl
  · exact .inl rfl

/-! ## Catching up with the counter -/

/-- The loop over the missed ticks: `f` is called for `p` and each later tick up to `saved`. -/
def runMissed (f : Ticks → σ → σ) (saved p : Ticks) (s : σ) : σ :=
  if h : p = saved then f p s
  else runMissed f saved (p + 1) (f p s)
termination_by (saved - p).toNat
decreasing_by rw [toNat_sub_eq_succ h]; exact Nat.lt_succ_self _

/-- What both functions do with the counter value `saved`, given the last tick
run: the new last tick, the state, and whether time was found to move forward. -/
def catchUp (f : Ticks → σ → σ) (saved prevTicks : Ticks) (s : σ) : Ticks × σ × Bool :=
  if prevTicks ≥ saved then (saved - 1, s, false)
  else (saved, runMissed f saved (prevTicks + 1) s, true)

/-- The body of the loop of `timer_handler` for one value of `*ticks`; false is its `break`. -/
def timerHandlerIter (timerRun : Ticks → σ → σ) (saved prevTicks : Ticks) (s : σ) :
    Ticks × σ × Bool :=
  catchUp timerRun saved prevTicks s

/-- The loop of `timer_handler`. Each entry of `reads` is the value of `*ticks` an iteration
starts with and the value its end compares it to. -/
def timerHandlerLoop (timerRun : Ticks → σ → σ) : List (Ticks × Ticks) → Ticks → σ → Ticks × σ
  | [], prevTicks, s => (prevTicks, s)
  | (saved, now) :: reads, prevTicks, s =>
    match timerHandlerIter timerRun saved prevTicks s with
    | (prevTicks, s, false) => (prevTicks, s)
    | (prevTicks, s, true) =>
      if saved = now then (prevTicks, s) else timerHandlerLoop timerRun reads prevTicks s

/-- `local_timer_run`: catch up, then run the timers added with interval 0. -/
def localTimerRun (localTimerExpire localTimerListExpire : Ticks → σ → σ)
    (saved prevTicks : Ticks) (s : σ) : Ticks × σ :=
  match catchUp localTimerExpire saved prevTicks s with
  | (prevTicks, s, false) => (prevTicks, s)
  | (prevTicks, s, true) => (prevTicks, localTimerListExpire saved s)

/-! ## The calls made -/

/-- Record a call. -/
def logCall (t : Ticks) (calls : List Ticks) : List Ticks := calls ++ [t]

/-- The ticks after `p` up to `saved`. -/
def ticksAfter (p saved : Ticks) : List Ticks := (List.range (saved - p).toNat).map fun i => p + 1 + BitVec.ofNat 32 i

/-- The calls of `timer_run` in successive iterations of `timer_handler`, one
list for each value of the counter. -/
def timerHandlerCalls : Ticks → List Ticks → List (List Ticks)
  | _, [] => []
  | prevTicks, saved :: values =>
    let r := timerHandlerIter logCall saved prevTicks []
    r.2.1 :: timerHandlerCalls r.1 values

/-- The calls of `local_timer_expire` in successive calls of `local_timer_run`. -/
def localTimerCalls : Ticks → List Ticks → List (List Ticks)
  | _, [] => []
  | prevTicks, saved :: values =>
    let r := localTimerRun logCall (fun _ calls => calls) saved prevTicks []
    r.2 :: localTimerCalls r.1 values

/-- The calls that should be made: each value brings the ticks after the value before. -/
def tickBlocks : Ticks → List Ticks → List (List Ticks)
  | _, [] => []
  | prevTicks, saved :: values => ticksAfter prevTicks saved :: tickBlocks saved values

theorem ticksAfter_cons (h : p ≠ saved) : ticksAfter p saved = (p + 1) :: ticksAfter (p + 1) saved := by
  rw [ticksAfter, toNat_sub_eq_succ h, range_succ_eq_map, map_cons, map_map]
  congr 1
  · simp
  · refine map_congr_left fun i _ => ?_
    simp only [Function.comp_apply, Nat.succ_eq_add_one, BitVec.ofNat_add]
    rw [BitVec.add_comm (BitVec.ofNat 32 i), ← BitVec.add_assoc]
    rfl

@[simp] theorem ticksAfter_self : ticksAfter p p = [] := by
  simp [ticksAfter]

/-- The loop makes one call for each tick after `p` up to `saved`, in order. -/
theorem runMissed_eq_foldl (h : p ≠ saved) (s : σ) :
    runMissed f saved (p + 1) s = (ticksAfter p saved).foldl (fun s t => f t s) s := by
  induction hn : (saved - p).toNat generalizing p s with
  | zero => rw [toNat_sub_eq_succ h] at hn; omega
  | succ n ih =>
    rw [ticksAfter_cons h, foldl_cons, runMissed]
    split_ifs with hp
    · rw [hp, ticksAfter_self, foldl_nil]
    · exact ih hp _ (by rw [toNat_sub_eq_succ h] at hn; omega)

theorem foldl_logCall (l calls : List Ticks) : l.foldl (fun calls t => logCall t calls) calls = calls ++ l := by
  induction l generalizing calls with
  | nil => simp
  | cons t l ih => rw [foldl_cons, ih, logCall, append_assoc, singleton_append]

/-- Catching up runs the ticks after the last one, or none if the new value is not larger. -/
theorem catchUp_eq (s : σ) :
    catchUp f saved p s = if p < saved then
      (saved, (ticksAfter p saved).foldl (fun s t => f t s) s, true)
      else (saved - 1, s, false) := by
  unfold catchUp
  by_cases h : p < saved
  · have hne : p ≠ saved := fun h' => BitVec.lt_irrefl _ (h' ▸ h)
    rw [if_neg (BitVec.not_le.2 h), if_pos h, runMissed_eq_foldl hne]
  · rw [if_pos (BitVec.not_lt.1 h), if_neg h]

/-- `timer_run` does not look at `prev_ticks`. -/
theorem timerRun_setPrev [DecidableEq α] (t p : Ticks) (s : TimerState α) :
    timerRun t { s with prevTicks := p } = { timerRun t s with prevTicks := p } := by
  unfold timerRun timerMvExpire timerRedist
  simp only [foldl_timerDistTl]
  split_ifs <;> rfl

theorem foldl_timerRun_eq_runOps [DecidableEq α] (n : Nat) (s : TimerState α) (hn : (saved - p).toNat = n) :
    { (ticksAfter p saved).foldl (fun s t => timerRun t s) s with prevTicks := saved } =
      runOps (List.replicate n .run) { s with prevTicks := p } := by
  induction n generalizing p s with
  | zero =>
    obtain rfl : p = saved := by
      by_contra h
      rw [toNat_sub_eq_succ h] at hn
      omega
    simp
  | succ n ih =>
    have hne : p ≠ saved := by
      rintro rfl
      simp at hn
    rw [ticksAfter_cons hne, foldl_cons, ih _ (by rw [toNat_sub_eq_succ hne] at hn; omega),
      replicate_succ, runOps_cons, ← timerRun_setPrev]
    rfl

/-- The loop of `timer_handler`, for values of the counter that only grow, runs the lists once for
each tick up to where it stops. -/
theorem timerHandlerLoop_eq_runOps [DecidableEq α] (reads : List (Ticks × Ticks)) (p : Ticks) (s : TimerState α)
    (h : (p :: reads.map Prod.fst).IsChain (· < ·)) :
    let r := timerHandlerLoop timerRun reads p s
    { r.2 with prevTicks := r.1 } = runOps (replicate (r.1 - p).toNat .run) { s with prevTicks := p } ∧ p ≤ r.1 := by
  induction reads generalizing p s with
  | nil => simp [timerHandlerLoop]
  | cons read reads ih =>
    obtain ⟨saved, now⟩ := read
    obtain ⟨hlt, hrest⟩ := isChain_cons_cons.1 h
    have hiter := foldl_timerRun_eq_runOps _ s (rfl : (saved - p).toNat = _)
    generalize hfold : (ticksAfter p saved).foldl (fun s t => timerRun t s) s = s' at hiter
    obtain ⟨hloop, hle⟩ := ih saved s' hrest
    simp only [timerHandlerLoop, timerHandlerIter, catchUp_eq, if_pos hlt, hfold]
    split_ifs
    · exact ⟨hiter, BitVec.le_of_lt hlt⟩
    · generalize timerHandlerLoop timerRun reads saved s' = r at hloop hle ⊢
      have hadd : (r.1 - p).toNat = (saved - p).toNat + (r.1 - saved).toNat := by
        have := r.1.isLt
        simp only [BitVec.lt_def, BitVec.le_def] at hlt hle
        rw [toNat_sub_eq, toNat_sub_eq, toNat_sub_eq]
        omega
      refine ⟨?_, BitVec.le_trans (BitVec.le_of_lt hlt) hle⟩
      rw [hloop, hiter, hadd, replicate_add, runOps, runOps, runOps, foldl_append]

theorem timerHandlerLoop_eq_runOps_two :
    let s := initTimer (fun _ : Unit => true) 7
    let r := timerHandlerLoop timerRun [(8, 10), (10, 10)] 7 s
    r.1 = 10 ∧ { r.2 with prevTicks := r.1 } = runOps (replicate 3 .run) s := by
  intro s r
  have hr : r.1 = 10 := by decide
  have hloop := (timerHandlerLoop_eq_runOps [(8, 10), (10, 10)] 7 s (by decide)).1
  exact ⟨hr, hloop.trans (by rw [hr]; rfl)⟩

theorem timerHandlerCalls_cons :
    timerHandlerCalls p (saved :: values) = if p < saved then ticksAfter p saved :: timerHandlerCalls saved values
      else [] :: timerHandlerCalls (saved - 1) values := by
  simp only [timerHandlerCalls, timerHandlerIter, catchUp_eq, foldl_logCall]
  split_ifs <;> rfl

theorem localTimerCalls_cons :
    localTimerCalls p (saved :: values) = if p < saved then ticksAfter p saved :: localTimerCalls saved values
      else [] :: localTimerCalls (saved - 1) values := by
  simp only [localTimerCalls, localTimerRun, catchUp_eq, foldl_logCall]
  split_ifs <;> rfl

/-- The local timers make the calls the timer process makes. -/
theorem localTimerCalls_eq : localTimerCalls p values = timerHandlerCalls p values := by
  induction values generalizing p with
  | nil => rfl
  | cons v vs ih => rw [localTimerCalls_cons, timerHandlerCalls_cons, ih, ih]

theorem Ahead.ticksAfter_ne_nil (h : Ahead p saved) : ticksAfter p saved ≠ [] := by
  have := h.1
  simp only [ticksAfter, ne_eq, map_eq_nil_iff, range_eq_nil]
  omega

theorem timerHandlerCalls_eq_iff {values} (h : List.IsChain Ahead (p :: values)) :
    timerHandlerCalls p values = tickBlocks p values ↔ List.IsChain (· < ·) (p :: values) := by
  induction values generalizing p with
  | nil => simp [timerHandlerCalls, tickBlocks]
  | cons v vs ih =>
    rw [isChain_cons_cons] at h
    rw [timerHandlerCalls_cons, tickBlocks, isChain_cons_cons]
    split_ifs with hlt
    · simp [hlt, ih h.2]
    · simp [hlt, h.1.ticksAfter_ne_nil.symm]

/-- For counter values that move forward, successive iterations of `timer_handler` call
`timer_run`, and successive calls of `local_timer_run` call `local_timer_expire`, once for
each tick after the value before, in order, exactly when the values increase as unsigned
numbers, that is, when the counter does not wrap. -/
theorem ticks_run_once_iff_no_wrap (p : Ticks) (values : List Ticks)
    (h : List.IsChain Ahead (p :: values)) :
    (timerHandlerCalls p values = tickBlocks p values ↔ List.IsChain (· < ·) (p :: values)) ∧
    (localTimerCalls p values = tickBlocks p values ↔ List.IsChain (· < ·) (p :: values)) := by
  rw [localTimerCalls_eq]
  exact ⟨timerHandlerCalls_eq_iff h, timerHandlerCalls_eq_iff h⟩

/-- Without a wrap the missed ticks are made up for. -/
theorem ticks_run_once_no_wrap :
    timerHandlerCalls 5 [6, 9] = [[6], [7, 8, 9]] ∧ localTimerCalls 5 [6, 9] = [[6], [7, 8, 9]] :=
  have h := ticks_run_once_iff_no_wrap 5 [6, 9] (by decide)
  ⟨(h.1.2 (by decide)).trans (by decide), (h.2.2 (by decide)).trans (by decide)⟩

/-- At the wrap no tick is run: those from the largest value to 1 should have been. -/
theorem ticks_lost_at_wrap :
    List.IsChain Ahead [4294967294#32, 1] ∧
    timerHandlerCalls 4294967294#32 [1] = [[]] ∧
    localTimerCalls 4294967294#32 [1] = [[]] ∧
    tickBlocks 4294967294#32 [1] = [[4294967295#32, 0, 1]] := by
  decide

end SipRouter.Timer
