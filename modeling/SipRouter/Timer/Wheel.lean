import SipRouter.Lib.Buckets

/-!
# The hierarchical timing wheel (`timer_funcs.h`, `timer.c`)

Three wheels of lists indexed by bit ranges of a timer's 32-bit `expire`
value: `h0` by the low 14 bits, `h1` by the next 9, `h2` by the top 9. A timer
is put in the wheel its distance selects (`timerDistTl`); `timerRun` is called
once for each tick, moves the lists of the upper wheels down at their
boundaries and appends the `h0` slot of the tick to the `expired` list.

A `TimerHead` names one `struct timer_head`; a list is the sequence of timers
linked behind it. `linked` is the source's `next != 0`, kept in the timer as
the source keeps it.
-/

namespace SipRouter.Timer

/-- `ticks_t`. -/
abbrev Ticks := BitVec 32

def h0Bits : Nat := 14
def h1Bits : Nat := 9
def h0Entries : Ticks := 1#32 <<< h0Bits
def h1Entries : Ticks := 1#32 <<< h1Bits
def h0Mask : Ticks := h0Entries - 1#32
def h1H0Mask : Ticks := (1#32 <<< (h0Bits + h1Bits)) - 1#32

/-- The list heads: the slots of the three wheels, the expired list and the
ring of lists handed to the slow timer process. -/
inductive TimerHead where
  | h0 (i : Ticks)
  | h1 (i : Ticks)
  | h2 (i : Ticks)
  | expired
  | slow (i : BitVec 16)
  deriving DecidableEq, Repr

/-- `struct timer_ln`, its handler and data left out. `fast`, `active` and
`onSlowList` are the flags `F_TIMER_FAST`, `F_TIMER_ACTIVE` and
`F_TIMER_ON_SLOW_LIST`. -/
structure TimerLn where
  expire : Ticks
  initialTimeout : Ticks
  linked : Bool
  fast : Bool
  active : Bool
  onSlowList : Bool
  slowIdx : BitVec 16
  deriving DecidableEq, Repr

/-- A timer as `timer_init` leaves it. -/
def TimerLn.init (fast : Bool) : TimerLn := ⟨0, 0, false, fast, false, false, 0⟩

/-- The timer state: `timer_lst`, the timers themselves, the shared counter
`*ticks`, the last tick run `prev_ticks`, the timers whose handlers run in the
fast and in the slow timer process, and `*t_idx`. -/
structure TimerState (α : Type) where
  lst : TimerHead → List α
  tl : α → TimerLn
  ticks : Ticks
  prevTicks : Ticks
  runningTimer : Option α
  runningTimer2 : Option α
  tIdx : BitVec 16

/-- `init_timer` with the counter started at `t`, and every timer initialised. -/
def initTimer {α : Type} (fast : α → Bool) (t : Ticks) : TimerState α where
  lst := fun _ => []
  tl := fun x => TimerLn.init (fast x)
  ticks := t
  prevTicks := t
  runningTimer := none
  runningTimer2 := none
  tIdx := 0

variable {α : Type} [DecidableEq α] {s : TimerState α} {h : TimerHead}

/-- Write fields of a timer. -/
def TimerState.setTl (x : α) (f : TimerLn → TimerLn) (s : TimerState α) : TimerState α :=
  { s with tl := Function.update s.tl x (f (s.tl x)) }

/-- `_timer_add_list`: append at the end of a list. -/
def timerAddList (h : TimerHead) (x : α) (s : TimerState α) : TimerState α :=
  { s with
    lst := Function.update s.lst h (s.lst h ++ [x])
    tl := Function.update s.tl x { s.tl x with linked := true } }

/-- `_timer_rm_list` followed by `next = prev = 0`. -/
def timerRmList (x : α) (s : TimerState α) : TimerState α :=
  { s with
    lst := fun h => (s.lst h).filter (· ≠ x)
    tl := Function.update s.tl x { s.tl x with linked := false } }

/-- The list `_timer_dist_tl` chooses for a timer with this `expire` value at
distance `delta`. -/
def distHead (expire delta : Ticks) : TimerHead :=
  if delta < h0Entries then
    if delta = 0 then .expired else .h0 (expire &&& h0Mask)
  else if delta < h0Entries * h1Entries then
    .h1 ((expire &&& h1H0Mask) >>> h0Bits)
  else
    .h2 (expire >>> (h1Bits + h0Bits))

/-- `_timer_dist_tl`. -/
def timerDistTl (x : α) (delta : Ticks) (s : TimerState α) : TimerState α :=
  timerAddList (distHead (s.tl x).expire delta) x s

/-- `_timer_mv_expire`: append a whole list to the expired list. -/
def timerMvExpire (h : TimerHead) (s : TimerState α) : TimerState α :=
  if s.lst h = [] then s
  else { s with
    lst := Function.update
      (Function.update s.lst .expired (s.lst .expired ++ s.lst h)) h [] }

/-- `timer_redist`: distribute the timers of a list anew, as seen from tick
`t`, then clear the list. -/
def timerRedist (t : Ticks) (h : TimerHead) (s : TimerState α) : TimerState α :=
  let s' := (s.lst h).foldl (fun s x => timerDistTl x ((s.tl x).expire - t) s) s
  { s' with lst := Function.update s'.lst h [] }

/-- `timer_run`: what happens at tick `t`. -/
def timerRun (t : Ticks) (s : TimerState α) : TimerState α :=
  let s :=
    if t &&& h0Mask = 0 then
      let s :=
        if t &&& h1H0Mask = 0 then timerRedist t (.h2 (t >>> (h0Bits + h1Bits))) s else s
      timerRedist t (.h1 ((t &&& h1H0Mask) >>> h0Bits)) s
    else s
  timerMvExpire (.h0 (t &&& h0Mask)) s

/-- `_timer_add`: put a timer `initial_timeout` ticks after `t`. -/
def timerAdd (t : Ticks) (x : α) (s : TimerState α) : TimerState α :=
  let delta := (s.tl x).initialTimeout
  let s := s.setTl x fun tl => { tl with onSlowList := false, slowIdx := 0, expire := t + delta }
  timerDistTl x delta s

/-- `SLOW_LISTS_NO`. -/
def slowListsNo : BitVec 16 := 1024#16

/-- The body of the loop of `timer_list_expire` for the timer `x`: detach it,
run its handler, which returns `ret`, and add it again unless `ret` is 0. A
timer that is not fast goes to the current slow list instead. -/
def timerListExpireStep (t : Ticks) (x : α) (ret : Ticks) (s : TimerState α) : TimerState α :=
  let s := timerRmList x s
  if (s.tl x).fast then
    if ret = 0 then s
    else
      let s :=
        if ret ≠ BitVec.allOnes 32 then s.setTl x fun tl => { tl with initialTimeout := ret } else s
      timerAdd t x s
  else
    let s := s.setTl x fun tl => { tl with onSlowList := true, slowIdx := s.tIdx }
    timerAddList (.slow (s.tIdx % slowListsNo)) x s

/-- `timer_add_safe`, with its return value. -/
def timerAddSafe (x : α) (delta : Ticks) (s : TimerState α) : TimerState α × Int :=
  if (s.tl x).active then (s, -1)
  else
    let s := s.setTl x fun tl => { tl with initialTimeout := delta }
    if (s.tl x).linked then (s, -1)
    else
      let s := s.setTl x fun tl => { tl with active := true }
      (timerAdd s.ticks x s, 0)

/-- `timer_del_safe`, called from a process that is the fast or the slow timer
process as the flags say. `none` is the source's `sched_yield` loop: the
handler is running elsewhere and the caller waits for it. -/
def timerDelSafe (inTimer inSlowTimer : Bool) (x : α) (s : TimerState α) :
    Option (TimerState α × Int) :=
  if !(s.tl x).active then some (s, -1)
  else if (s.tl x).onSlowList && (s.tl x).slowIdx != s.tIdx then
    if s.runningTimer2 = some x then
      if inSlowTimer then some (s, -2) else none
    else if (s.tl x).linked then some (timerRmList x s, 0)
    else some (s, -1)
  else if s.runningTimer = some x then
    if inTimer then some (s, -2) else none
  else if (s.tl x).linked then some (timerRmList x s, 0)
  else some (s, -1)

/-- `timer_reinit`. -/
def timerReinit (x : α) (s : TimerState α) : TimerState α :=
  s.setTl x fun tl => { tl with onSlowList := false, active := false }

/-! ## What the steps do to the lists and to the timers -/

open Lib Buckets List

section

variable (x : α) (f : TimerLn → TimerLn) (s : TimerState α)

@[simp] theorem setTl_lst : (s.setTl x f).lst = s.lst := rfl

@[simp] theorem setTl_ticks : (s.setTl x f).ticks = s.ticks := rfl

@[simp] theorem setTl_tl_self : (s.setTl x f).tl x = f (s.tl x) := by
  simp [TimerState.setTl]

end

theorem setTl_tl_ne {x y} (h : y ≠ x) (f : TimerLn → TimerLn) (s : TimerState α) : (s.setTl x f).tl y = s.tl y := by
  simp [TimerState.setTl, h]

theorem timerAddList_lst (h) (x : α) (s) : (timerAddList h x s).lst = push h x s.lst := rfl

theorem timerRmList_lst (x : α) (s) : (timerRmList x s).lst = drop x s.lst := rfl

/-- Linking a timer changes no other field of any timer. -/
theorem timerAddList_tl (h) (x y : α) (s) :
    (timerAddList h x s).tl y = { s.tl y with linked := (s.tl y).linked || decide (y = x) } := by
  unfold timerAddList
  by_cases hy : y = x
  · subst hy
    simp
  · simp [hy]

omit [DecidableEq α] in
/-- Moving a slot to the expired list. -/
theorem timerMvExpire_lst (h : TimerHead) (s : TimerState α) :
    (timerMvExpire h s).lst = spill (fun _ => .expired) h s.lst := by
  unfold timerMvExpire spill
  rw [foldl_push_const]
  split_ifs with hl
  · simp only [hl, append_nil, Function.update_eq_self]
    rw [← hl, Function.update_eq_self]
  · rfl

omit [DecidableEq α] in
@[simp] theorem timerMvExpire_tl (h : TimerHead) (s : TimerState α) : (timerMvExpire h s).tl = s.tl := by
  unfold timerMvExpire
  split_ifs <;> rfl

omit [DecidableEq α] in
@[simp] theorem timerMvExpire_prevTicks : (timerMvExpire h s).prevTicks = s.prevTicks := by
  unfold timerMvExpire
  split_ifs <;> rfl

/-- The list `timer_redist` moves a timer to. -/
def redistHead (t : Ticks) (tl : α → TimerLn) (x : α) : TimerHead :=
  distHead (tl x).expire ((tl x).expire - t)

omit [DecidableEq α] in
theorem redistHead_congr {t : Ticks} {tl tl' : α → TimerLn}
    (h : ∀ x, (tl' x).expire = (tl x).expire) : redistHead t tl' = redistHead t tl := by
  funext x
  rw [redistHead, redistHead, h x]

/-- The loop of `timer_redist`: the lists grow by the timers in their order, and
nothing else changes but the links. -/
theorem foldl_timerDistTl (t : Ticks) (l : List α) (s) :
    l.foldl (fun s x => timerDistTl x ((s.tl x).expire - t) s) s =
      { s with
        lst := l.foldl (fun b x => push (redistHead t s.tl x) x b) s.lst
        tl := fun y => { s.tl y with linked := (s.tl y).linked || decide (y ∈ l) } } := by
  induction l generalizing s with
  | nil => simp
  | cons a l ih =>
    rw [foldl_cons, ih]
    have he : redistHead t (timerDistTl a ((s.tl a).expire - t) s).tl = redistHead t s.tl :=
      redistHead_congr fun x => by rw [timerDistTl, timerAddList_tl]
    rw [he, timerDistTl]
    simp only [timerAddList_tl, mem_cons, Bool.decide_or, Bool.or_assoc]
    rfl

theorem timerRedist_lst (t : Ticks) (h : TimerHead) (s : TimerState α) :
    (timerRedist t h s).lst = spill (redistHead t s.tl) h s.lst := by
  unfold timerRedist
  rw [foldl_timerDistTl]
  rfl

theorem timerRedist_tl (t : Ticks) (h s) (y : α) : (timerRedist t h s).tl y =
      { s.tl y with linked := (s.tl y).linked || decide (y ∈ s.lst h) } := by
  unfold timerRedist
  rw [foldl_timerDistTl]

@[simp] theorem timerRedist_prevTicks {t} : (timerRedist t h s).prevTicks = s.prevTicks := by
  unfold timerRedist
  rw [foldl_timerDistTl]

@[simp] theorem timerRun_prevTicks (t : Ticks) (s : TimerState α) : (timerRun t s).prevTicks = s.prevTicks := by
  unfold timerRun
  rw [timerMvExpire_prevTicks]
  split_ifs <;> simp only [timerRedist_prevTicks]

end SipRouter.Timer
