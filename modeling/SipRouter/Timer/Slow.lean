import SipRouter.Timer.Expiry
import SipRouter.Lib.Ring
import SipRouter.Lib.Fair

/-!
# The slow timer process

The timer process does not run the handlers of slow timers. It hands them to the slow
timer process through a ring of 1024 lists: expired timers are appended to the
list `t_idx`, which becomes visible when `t_idx` is incremented, and the slow timer
process empties the lists from `s_idx` up to `t_idx`. Both indices are 16 bits wide
and wrap around. If the slow timer process is too slow, `t_idx` stays where it
is and its list grows.

The ring is a queue of expiries, whatever the indices do: what was called and what is in the ring
are the expiries that were not deleted, in their order (`SlowOk.ledger`), and nothing in it is
forgotten (`slow_timers_handed_over`).
-/

namespace SipRouter.Timer

open Lib Buckets Function Option
open BitVec hiding cons_append
open List hiding drop

variable {α : Type} [DecidableEq α] {op : TimerOp α} {ret : Ticks}

/-- Where `slow_timer_main` is: it waits for a signal, it is at the head of its loops, it runs the
handler of a timer, or it has added the timer again and not yet taken back the mark that it runs. -/
inductive SlowPc (α : Type) where
  | asleep
  | drain
  | running (x : α)
  | added
  deriving DecidableEq

/-- The timers and the slow timer process. The numbers `sNo` and `tNo` are the indices without their
wrap-around; `queued`, `called` and `deleted` are the expiries that went through the ring, each with the
number of its list. -/
structure SlowState (α : Type) where
  timer : TimerState α
  sIdx : BitVec 16
  pc : SlowPc α
  runSlowTimer : Bool
  signal : Bool
  sNo : Nat
  tNo : Nat
  queued : List (α × Nat)
  called : List (α × Nat)
  deleted : List (α × Nat)

def SlowState.init (fast : α → Bool) (t : Ticks) : SlowState α where
  timer := initTimer fast t
  sIdx := 0
  pc := .asleep
  runSlowTimer := false
  signal := false
  sNo := 0
  tNo := 0
  queued := []
  called := []
  deleted := []

/-- The list of number `k`. -/
def slowHead (k : Nat) : TimerHead := .slow (BitVec.ofNat 16 k % slowListsNo)

/-- The expiries in the ring. -/
def SlowState.pending (s : SlowState α) : List (α × Nat) := Ring.entries slowHead s.timer.lst s.sNo (s.tNo - s.sNo + 1)

/-- The slow part of `timer_handler`, at its end. -/
def timerHandlerEnd (s : SlowState α) : SlowState α :=
  if s.timer.lst (.slow (s.timer.tIdx % slowListsNo)) ≠ [] then
    if s.timer.tIdx - s.sIdx < slowListsNo - 1 then
      { s with
        runSlowTimer := true
        timer := { s.timer with tIdx := s.timer.tIdx + 1 }
        tNo := s.tNo + 1 }
    else { s with runSlowTimer := true }
  else s

/-- The next step of `slow_timer_main`. A handler returns `ret`. -/
def slowTimerMainStep (ret : Ticks) (s : SlowState α) : SlowState α :=
  match s.pc with
  | .asleep => s
  | .drain =>
    if s.sIdx = s.timer.tIdx then { s with pc := .asleep }
    else
      match s.timer.lst (.slow (s.sIdx % slowListsNo)) with
      | [] => { s with sIdx := s.sIdx + 1, sNo := s.sNo + 1 }
      | x :: _ =>
        { s with
          timer := { timerRmList x s.timer with runningTimer2 := some x }
          pc := .running x
          called := s.called ++ [(x, s.sNo)] }
  | .running x =>
    if ret = 0 then { s with timer := { s.timer with runningTimer2 := none }, pc := .drain }
    else
      let t := s.timer.setTl x fun tl => { tl with onSlowList := false }
      let t := if ret ≠ BitVec.allOnes 32 then t.setTl x fun tl => { tl with initialTimeout := ret } else t
      { s with timer := timerAdd t.ticks x t, pc := .added }
  | .added => { s with timer := { s.timer with runningTimer2 := none }, pc := .drain }

/-- What happens, each with the lock it needs: an operation on the timers, the end of
`timer_handler` and the signal that it sends, the slow timer process wakes up and takes a step. -/
inductive SlowOp (α : Type) where
  | timer (op : TimerOp α)
  | handlerEnd
  | kill
  | wake
  | slow (ret : Ticks)

/-- The expiry that an operation queues: that of a slow timer at the head of the expired list. -/
def TimerOp.queues (s : SlowState α) : TimerOp α → List (α × Nat)
  | .fire x _ =>
    if (s.timer.lst .expired).head? = some x ∧ (s.timer.tl x).fast = false then [(x, s.tNo)] else []
  | _ => []

/-- The expiries that an operation deletes. -/
def TimerOp.deletes (s : SlowState α) : TimerOp α → List (α × Nat)
  | .del inTimer inSlowTimer x =>
    match timerDelSafe inTimer inSlowTimer x s.timer with
    | some (_, 0) => s.pending.filter fun e => e.1 = x
    | _ => []
  | _ => []

def SlowOp.step (s : SlowState α) : SlowOp α → SlowState α
  | .timer op =>
    { s with
      timer := op.step s.timer
      queued := s.queued ++ op.queues s
      deleted := s.deleted ++ op.deletes s }
  | .handlerEnd => timerHandlerEnd s
  | .kill => if s.runSlowTimer then { s with runSlowTimer := false, signal := true } else s
  | .wake => if s.pc = .asleep ∧ s.signal then { s with pc := .drain, signal := false } else s
  | .slow ret => slowTimerMainStep ret s

/-- The documented use of the timers: `timer_reinit` is for a timer that is in no list, and a handler
that has added its timer again returns 0. -/
def SlowOp.Proper (s : SlowState α) : SlowOp α → Prop
  | .timer (.reinit x) => (s.timer.tl x).linked = false
  | .slow ret => ∀ x, s.pc = .running x → ret ≠ 0 → (s.timer.tl x).linked = false
  | _ => True

/-- The run of a sequence of operations. -/
def slowRun (fast : α → Bool) (t : Ticks) (ops : Nat → SlowOp α) : Nat → SlowState α
  | 0 => SlowState.init fast t
  | i + 1 => (ops i).step (slowRun fast t ops i)

/-- What timers can rely on: the timer process comes to the end of `timer_handler` and to the signal, and
the slow timer process wakes up and goes on. -/
inductive SlowDuty where
  | handlerEnd
  | kill
  | wake
  | slow
  deriving DecidableEq

def SlowOp.duty : SlowOp α → Option SlowDuty
  | .timer _ => none
  | .handlerEnd => some .handlerEnd
  | .kill => some .kill
  | .wake => some .wake
  | .slow _ => some .slow

/-! ## The lists of the ring -/

theorem slowHead_apart : Ring.Apart slowHead 1024 := by
  intro k k' hlt hle h
  have hmod := congrArg BitVec.toNat (TimerHead.slow.inj h)
  simp only [toNat_umod, toNat_ofNat, slowListsNo, Nat.reducePow, Nat.reduceMod] at hmod
  omega

theorem distHead_ne_slow (e d g) : distHead e d ≠ .slow g := by
  unfold distHead
  split_ifs <;> simp

/-- A step that has nothing to do with the ring. -/
structure Aside (s s' : TimerState α) : Prop where
  lists : ∀ g, s'.lst (.slow g) = s.lst (.slow g)
  tIdx : s'.tIdx = s.tIdx
  onSlowList : ∀ x g, x ∈ s.lst (.slow g) → (s'.tl x).onSlowList = (s.tl x).onSlowList
  slowIdx : ∀ x g, x ∈ s.lst (.slow g) → (s'.tl x).slowIdx = (s.tl x).slowIdx

section Aside

variable {s s' s'' : TimerState α} {x : α} {h : TimerHead} {t : Ticks}

omit [DecidableEq α] in
theorem Aside.refl (s : TimerState α) : Aside s s := ⟨fun _ => rfl, rfl, fun _ _ _ => rfl, fun _ _ _ => rfl⟩

omit [DecidableEq α] in
theorem Aside.trans (h : Aside s s') (h' : Aside s' s'') : Aside s s'' where
  lists g := (h'.lists g).trans (h.lists g)
  tIdx := h'.tIdx.trans h.tIdx
  onSlowList x g hx := (h'.onSlowList x g (h.lists g ▸ hx)).trans (h.onSlowList x g hx)
  slowIdx x g hx := (h'.slowIdx x g (h.lists g ▸ hx)).trans (h.slowIdx x g hx)

/-- Writing fields of a timer that is not in the ring. -/
theorem aside_setTl (hx : ∀ g, x ∉ s.lst (.slow g)) (f) : Aside s (s.setTl x f) where
  lists _ := rfl
  tIdx := rfl
  onSlowList y g hy := by
    rw [setTl_tl_ne]
    rintro rfl
    exact hx g hy
  slowIdx y g hy := by
    rw [setTl_tl_ne]
    rintro rfl
    exact hx g hy

/-- Writing other fields. -/
theorem aside_setTl_of {f} (ho : ∀ v, (f v).onSlowList = v.onSlowList)
    (hi : ∀ v, (f v).slowIdx = v.slowIdx) : Aside s (s.setTl x f) where
  lists _ := rfl
  tIdx := rfl
  onSlowList y _ _ := by
    rcases eq_or_ne y x with rfl | hy
    · rw [setTl_tl_self, ho]
    · rw [setTl_tl_ne hy]
  slowIdx y _ _ := by
    rcases eq_or_ne y x with rfl | hy
    · rw [setTl_tl_self, hi]
    · rw [setTl_tl_ne hy]

theorem aside_timerAddList (hh : ∀ g, h ≠ .slow g) : Aside s (timerAddList h x s) where
  lists g := by
    exact update_of_ne (hh g).symm ..
  tIdx := rfl
  onSlowList y _ _ := by rw [timerAddList_tl]
  slowIdx y _ _ := by rw [timerAddList_tl]

theorem aside_timerAdd (hx : ∀ g, x ∉ s.lst (.slow g)) : Aside s (timerAdd t x s) := by
  exact (aside_setTl hx _).trans (aside_timerAddList (distHead_ne_slow _ _))

theorem aside_timerRedist (hh : ∀ g, h ≠ .slow g) : Aside s (timerRedist t h s) where
  lists g := by
    rw [timerRedist_lst]
    exact spill_of_ne (hh g).symm fun x => distHead_ne_slow _ _ g
  tIdx := by
    unfold timerRedist
    rw [foldl_timerDistTl]
  onSlowList y _ _ := by rw [timerRedist_tl]
  slowIdx y _ _ := by rw [timerRedist_tl]

omit [DecidableEq α] in
theorem aside_timerMvExpire (hh : ∀ g, h ≠ .slow g) : Aside s (timerMvExpire h s) where
  lists g := by
    rw [timerMvExpire_lst]
    exact spill_of_ne (hh g).symm fun x => by simp
  tIdx := by
    unfold timerMvExpire
    split_ifs <;> rfl
  onSlowList y _ _ := by rw [timerMvExpire_tl]
  slowIdx y _ _ := by rw [timerMvExpire_tl]

theorem aside_timerRun : Aside s (timerRun t s) := by
  refine .trans ?_ (aside_timerMvExpire (by simp))
  split_ifs
  · exact (aside_timerRedist (by simp)).trans (aside_timerRedist (by simp))
  · exact aside_timerRedist (by simp)
  · exact .refl s

omit [DecidableEq α] in
/-- A timer that is in another list, or in none, is not in the ring. -/
theorem Ok.not_mem_slow [DecidableEq α] (hs : Ok s)
    (hx : (s.tl x).linked = false ∨ x ∈ s.lst .expired) (g : BitVec 16) : x ∉ s.lst (.slow g) := by
  rcases hs x with ho | ⟨g', hg'⟩
  · exact ho.absent.not_mem _
  · rcases hx with hl | hm
    · rw [hg'.linked] at hl
      cases hl
    · intro hmem
      have h1 := hg'.placed.mem_iff.1 hm
      have h2 := hg'.placed.mem_iff.1 hmem
      rw [← h1] at h2
      cases h2

theorem aside_timerAddSafe (hs : Ok s) {delta} : Aside s (timerAddSafe x delta s).1 := by
  have hset : Aside s (s.setTl x fun tl => { tl with initialTimeout := delta }) := by
    apply aside_setTl_of
    all_goals exact fun _ => rfl
  unfold timerAddSafe
  simp only [setTl_tl_self]
  split_ifs with ha hl
  · exact .refl s
  · exact hset
  · have hmem := hs.not_mem_slow (.inl (Bool.eq_false_iff.2 hl))
    refine .trans (hset.trans (aside_setTl_of ?_ ?_)) (aside_timerAdd ?_)
    · exact fun _ => rfl
    · exact fun _ => rfl
    · exact hmem

end Aside

/-! ## The invariant -/

/-- What holds in every state. -/
structure SlowOk (s : SlowState α) : Prop where
  lists : Ok s.timer
  sIdx : s.sIdx = BitVec.ofNat 16 s.sNo
  tIdx : s.timer.tIdx = BitVec.ofNat 16 s.tNo
  le : s.sNo ≤ s.tNo
  /-- the lists in use are different ones -/
  window : s.tNo < s.sNo + 1024
  /-- the others are empty -/
  outside : ∀ g, (∀ k, s.sNo ≤ k → k ≤ s.tNo → slowHead k ≠ .slow g) → s.timer.lst (.slow g) = []
  /-- a timer in the ring knows its list -/
  marks : ∀ x k, (x, k) ∈ s.pending →
    (s.timer.tl x).onSlowList = true ∧ (s.timer.tl x).slowIdx = BitVec.ofNat 16 k
  ledger : Ring.Ledger s.queued s.called s.pending s.deleted s.tNo
  /-- the slow timer process will look at the ring when there is something for it -/
  awake : s.sNo ≠ s.tNo → s.pc ≠ .asleep ∨ s.signal = true ∨ s.runSlowTimer = true

section Invariant

variable {s s' : SlowState α} {x : α} {t t' : TimerState α} {l : List α} {k : Nat}

theorem slowOk_init (fast : α → Bool) (t : Ticks) : SlowOk (SlowState.init fast t) where
  lists := ok_initTimer fast t
  sIdx := rfl
  tIdx := rfl
  le := le_refl 0
  window := Nat.lt_add_of_pos_right (by decide)
  outside _ _ := rfl
  marks x k h := nomatch (Ring.mem_entries.1 h).2.2
  ledger := .empty 0
  awake h := absurd rfl h

omit [DecidableEq α] in
theorem mem_pending :
    (x, k) ∈ s.pending ↔ s.sNo ≤ k ∧ k < s.sNo + (s.tNo - s.sNo + 1) ∧ x ∈ s.timer.lst
    (slowHead k) :=
  Ring.mem_entries

omit [DecidableEq α] in
theorem pending_aside (h : Aside s.timer s'.timer) (hs : s'.sNo = s.sNo) (ht : s'.tNo = s.tNo) :
    s'.pending = s.pending := by
  rw [SlowState.pending, hs, ht]
  exact Ring.entries_congr fun k _ _ => h.lists _

/-- A step that leaves the ring and its indices alone. -/
theorem SlowOk.aside (h : SlowOk s) (hok : Ok s'.timer) (ht : Aside s.timer s'.timer)
    (hsi : s'.sIdx = s.sIdx) (hs : s'.sNo = s.sNo)
    (htn : s'.tNo = s.tNo) (hq : s'.queued = s.queued) (hc : s'.called = s.called) (hd : s'.deleted = s.deleted)
    (hawake : s.sNo ≠ s.tNo → s'.pc ≠ .asleep ∨ s'.signal = true ∨ s'.runSlowTimer = true) : SlowOk s' := by
  have hpend := pending_aside ht hs htn
  constructor
  case lists => exact hok
  case sIdx => rw [hsi, hs, h.sIdx]
  case tIdx => rw [ht.tIdx, htn, h.tIdx]
  case le => rw [hs, htn]; exact h.le
  case window => rw [hs, htn]; exact h.window
  case outside =>
    rw [hs, htn]
    exact fun g hg => (ht.lists g).trans (h.outside g hg)
  case marks =>
    rw [hpend]
    intro x k hx
    have hmem := (mem_pending.1 hx).2.2
    rw [ht.onSlowList x _ hmem, ht.slowIdx x _ hmem]
    exact h.marks x k hx
  case ledger => rw [hpend, hq, hc, hd, htn]; exact h.ledger
  case awake => rw [hs, htn]; exact hawake

theorem Ok.same (h : Ok t) (hsame : ∀ x, Same x t t') : Ok t' :=
  fun x => (h x).imp (·.same (hsame x)) fun ⟨g, hg⟩ => ⟨g, hg.same (hsame x)⟩

/-- One timer changes. -/
theorem Ok.change (h : Ok t) (hx : Off t' x ∨ ∃ g, At t' x g) (hsame : ∀ y, y ≠ x → Same y t t') : Ok t' := by
  intro y
  rcases eq_or_ne y x with rfl | hy
  · exact hx
  · exact (h y).imp (·.same (hsame y hy)) fun ⟨g, hg⟩ => ⟨g, hg.same (hsame y hy)⟩

theorem Ok.timerRmList (h : Ok t) (x : α) : Ok (timerRmList x t) :=
  h.change (.inl (off_timerRmList x t)) fun _ hy => same_timerRmList hy t

theorem Ok.timerAdd (h : Ok t) (now) (hx : (t.tl x).linked = false) : Ok (timerAdd now x t) :=
  h.change (.inr ⟨_, ((h.off_of_unlinked hx).timerAdd now rfl).1⟩) fun _ hy => same_timerAdd hy

theorem tl_timerRmList {x y} : ((timerRmList x t).tl y).onSlowList = (t.tl y).onSlowList ∧
      ((timerRmList x t).tl y).slowIdx = (t.tl y).slowIdx := by
  rcases eq_or_ne y x with rfl | hy
  · simp [Timer.timerRmList]
  · simp [Timer.timerRmList, hy]

/-! ### Timers leave the ring -/

/-- A timer is taken out of its list. -/
def SlowState.remove (x : α) (s : SlowState α) : SlowState α := { s with timer := timerRmList x s.timer }

theorem pending_remove {x} : (s.remove x).pending = s.pending.filter fun e => !decide (e.1 = x) := Ring.entries_drop

/-- Whatever the queue owes it, a timer that leaves the ring leaves the rest in order. -/
theorem SlowOk.remove (h : SlowOk s) (x : α) (htimer : s'.timer = timerRmList x s.timer)
    (hsi : s'.sIdx = s.sIdx) (hs : s'.sNo = s.sNo) (htn : s'.tNo = s.tNo)
    (hledger : Ring.Ledger s'.queued s'.called (s.pending.filter fun e => !decide (e.1 = x)) s'.deleted s.tNo)
    (hawake : s.sNo ≠ s.tNo → s'.pc ≠ .asleep ∨ s'.signal = true ∨ s'.runSlowTimer = true) : SlowOk s' := by
  have hpend : s'.pending = s.pending.filter fun e => !decide (e.1 = x) := by
    rw [← pending_remove, SlowState.pending, htimer, hs, htn]
    rfl
  constructor
  case lists => rw [htimer]; exact h.lists.timerRmList x
  case sIdx => rw [hsi, hs, h.sIdx]
  case tIdx => rw [htimer, htn, ← h.tIdx]; rfl
  case le => rw [hs, htn]; exact h.le
  case window => rw [hs, htn]; exact h.window
  case outside =>
    rw [hs, htn, htimer]
    intro g hg
    rw [timerRmList_lst, drop, h.outside g hg, filter_nil]
  case marks =>
    rw [hpend, htimer]
    intro y k hy
    rw [(tl_timerRmList).1, (tl_timerRmList).2]
    exact h.marks y k (mem_filter.1 hy).1
  case ledger => rw [hpend, htn]; exact hledger
  case awake => rw [hs, htn]; exact hawake

omit [DecidableEq α] in
/-- The first timer of the list `s_idx` is the first of the ring. -/
theorem pending_cons (hl : s.timer.lst (slowHead s.sNo) = x :: l) :
    s.pending = (x, s.sNo) :: (l.map fun y => (y, s.sNo)) ++
      Ring.entries slowHead s.timer.lst (s.sNo + 1) (s.tNo - s.sNo) := by
  rw [SlowState.pending, Ring.entries_cons, hl]
  rfl

/-- A timer is in the ring at most once. -/
theorem SlowOk.nodup (h : SlowOk s) {k'} (hk : (x, k) ∈ s.pending) (hk' : (x, k') ∈ s.pending) : k = k' := by
  obtain ⟨hle, hlt, hmem⟩ := mem_pending.1 hk
  obtain ⟨hle', hlt', hmem'⟩ := mem_pending.1 hk'
  have hwindow := h.window
  rcases h.lists x with hoff | ⟨g, hg⟩
  · exact absurd hmem (hoff.absent.not_mem _)
  · have hhead := (hg.placed.mem_iff.1 hmem).trans (hg.placed.mem_iff.1 hmem').symm
    rcases Nat.lt_trichotomy k k' with hlt | heq | hgt
    · exact absurd hhead (slowHead_apart hlt (by omega))
    · exact heq
    · exact absurd hhead.symm (slowHead_apart hgt (by omega))

/-- Without its first timer the ring is what is behind it. -/
theorem SlowOk.pending_remove_head (h : SlowOk s) (hl : s.timer.lst (slowHead s.sNo) = x :: l) :
    s.pending = (x, s.sNo) :: s.pending.filter fun e => !decide (e.1 = x) := by
  have hx : (x, s.sNo) ∈ s.pending := by
    rw [pending_cons hl]
    exact mem_cons_self ..
  have hl' : x ∉ l := by
    rcases h.lists x with hoff | ⟨g, hg⟩
    · exact absurd (hl ▸ mem_cons_self ..) (hoff.absent.not_mem (slowHead s.sNo))
    · have hcount := hg.placed (slowHead s.sNo)
      rw [hl, count_cons_self] at hcount
      intro hmem
      have hpos := count_pos_iff.2 hmem
      split_ifs at hcount
      omega
  have hrest : ∀ e ∈ Ring.entries slowHead s.timer.lst (s.sNo + 1) (s.tNo - s.sNo), e.1 ≠ x := by
    rintro ⟨y, k⟩ hy rfl
    obtain ⟨hle, hlt, hmem⟩ := Ring.mem_entries.1 hy
    have hk := mem_pending.2 ⟨by omega, by omega, hmem⟩
    have heq := h.nodup hx hk
    omega
  conv_rhs => rw [pending_cons hl]
  rw [cons_append, filter_cons, filter_append, filter_eq_self.2, filter_eq_self.2, pending_cons hl]
  · simp
  · intro e he
    simpa using hrest e he
  · intro e he
    obtain ⟨y, hy, rfl⟩ := mem_map.1 he
    have hne : y ≠ x := fun heq => hl' (heq ▸ hy)
    simpa using hne

/-! ### Timers are added to the list `t_idx` -/

/-- The list `*t_idx % SLOW_LISTS_NO`. -/
theorem SlowOk.tHead (h : SlowOk s) : TimerHead.slow (s.timer.tIdx % slowListsNo) = slowHead s.tNo := by
  rw [h.tIdx]
  rfl

theorem SlowOk.sHead (h : SlowOk s) : TimerHead.slow (s.sIdx % slowListsNo) = slowHead s.sNo := by
  rw [h.sIdx]
  rfl

/-- A timer is appended to the list `t_idx`. -/
def SlowState.append (x : α) (s : SlowState α) : SlowState α :=
  { s with
    timer := timerAddList (.slow (s.timer.tIdx % slowListsNo)) x s.timer
    queued := s.queued ++ [(x, s.tNo)] }

theorem SlowOk.pending_append (h : SlowOk s) : (s.append x).pending = s.pending ++ [(x, s.tNo)] := by
  have hle := h.le
  have hwindow := h.window
  obtain ⟨n, hn⟩ := Nat.exists_eq_add_of_le hle
  have hsub : s.tNo - s.sNo = n := by omega
  have hpush : Ring.entries slowHead (push (slowHead (s.sNo + n)) x s.timer.lst) s.sNo (n + 1) =
      Ring.entries slowHead s.timer.lst s.sNo (n + 1) ++ [(x, s.sNo + n)] :=
    Ring.entries_push slowHead_apart (by omega)
  rw [← hn] at hpush
  show Ring.entries slowHead (timerAddList _ x s.timer).lst s.sNo (s.tNo - s.sNo + 1) = _
  rw [timerAddList_lst, h.tHead, hsub, hpush, SlowState.pending, hsub]

theorem SlowOk.append (h : SlowOk s) (hx : (s.timer.tl x).linked = false)
    (hon : (s.timer.tl x).onSlowList = true) (hidx : (s.timer.tl x).slowIdx = s.timer.tIdx) : SlowOk (s.append x) where
  lists := by
    have hat := (h.lists.off_of_unlinked hx).at_timerAddList
        (g := .slow (s.timer.tIdx % slowListsNo)) fun hw => hw.elim
    exact h.lists.change (.inr ⟨_, hat⟩) fun y hy => same_timerAddList hy ..
  sIdx := h.sIdx
  tIdx := h.tIdx
  le := h.le
  window := h.window
  outside := by
    intro g hg
    show (timerAddList _ x s.timer).lst (.slow g) = []
    have hne := hg s.tNo h.le (le_refl _)
    rw [timerAddList_lst, h.tHead, push, update_of_ne hne.symm]
    exact h.outside g hg
  marks := by
    rw [h.pending_append]
    intro y k hy
    show ((timerAddList _ x s.timer).tl y).onSlowList = true ∧ ((timerAddList _ x s.timer).tl y).slowIdx = _
    rw [timerAddList_tl]
    rcases mem_append.1 hy with hy | hy
    · exact h.marks y k hy
    · obtain ⟨rfl, rfl⟩ := Prod.mk.inj (mem_singleton.1 hy)
      exact ⟨hon, hidx.trans h.tIdx⟩
  ledger := by
    rw [h.pending_append]
    exact h.ledger.queue
  awake := h.awake

/-! ### The indices move -/

/-- `t_idx` is incremented while the ring is not full. -/
theorem SlowOk.extend (h : SlowOk s) (hroom : s.tNo < s.sNo + 1023)
    (hs' : s' = { s with
      runSlowTimer := true
      timer := { s.timer with tIdx := s.timer.tIdx + 1 }
      tNo := s.tNo + 1 }) : SlowOk s' ∧ s'.pending = s.pending := by
  subst hs'
  have hle := h.le
  have hempty : s.timer.lst (slowHead (s.tNo + 1)) = [] := by
    apply h.outside
    intro k hk hk'
    exact slowHead_apart (by omega) (by omega)
  have hpend : Ring.entries slowHead s.timer.lst s.sNo (s.tNo + 1 - s.sNo + 1) = s.pending := by
    have hsub : s.tNo + 1 - s.sNo = s.tNo - s.sNo + 1 := by omega
    have hlast : s.sNo + (s.tNo - s.sNo + 1) = s.tNo + 1 := by omega
    rw [hsub, Ring.entries_extend (by rw [hlast]; exact hempty), SlowState.pending]
  refine ⟨?_, hpend⟩
  constructor
  case lists => exact h.lists.same fun x => ⟨fun _ => rfl, rfl, rfl⟩
  case sIdx => exact h.sIdx
  case tIdx =>
    show s.timer.tIdx + 1 = BitVec.ofNat 16 (s.tNo + 1)
    rw [h.tIdx, ofNat_add]
    rfl
  case le => exact Nat.le_succ_of_le hle
  case window => exact Nat.succ_lt_succ hroom
  case outside => exact fun g hg => h.outside g fun k hk hk' => hg k hk (Nat.le_succ_of_le hk')
  case marks => exact fun x k hx => h.marks x k (hpend ▸ hx)
  case ledger =>
    unfold SlowState.pending
    rw [hpend]
    exact h.ledger.later (Nat.le_succ _)
  case awake => exact fun _ => .inr (.inr rfl)

/-- `s_idx` is incremented when its list is empty. -/
theorem SlowOk.leave (h : SlowOk s) (hne : s.sNo ≠ s.tNo) (hl : s.timer.lst (slowHead s.sNo) = [])
    (hpc : s.pc ≠ .asleep)
    (hs' : s' = { s with sIdx := s.sIdx + 1, sNo := s.sNo + 1 }) : SlowOk s' ∧ s'.pending = s.pending := by
  subst hs'
  have hle := h.le
  have hwindow := h.window
  have hpend : Ring.entries slowHead s.timer.lst (s.sNo + 1) (s.tNo - (s.sNo + 1) + 1) = s.pending := by
    have hsub : s.tNo - (s.sNo + 1) + 1 = s.tNo - s.sNo := by omega
    rw [hsub, ← Ring.entries_leave hl, SlowState.pending]
  refine ⟨?_, hpend⟩
  constructor
  case lists => exact h.lists
  case sIdx =>
    show s.sIdx + 1 = BitVec.ofNat 16 (s.sNo + 1)
    rw [h.sIdx, ofNat_add]
    rfl
  case tIdx => exact h.tIdx
  case le => exact lt_of_le_of_ne hle hne
  case window => exact Nat.lt_of_lt_of_le hwindow (Nat.add_le_add_right (Nat.le_succ _) _)
  case outside =>
    intro g hg
    by_cases hfirst : slowHead s.sNo = .slow g
    · exact hfirst ▸ hl
    · apply h.outside g
      intro k hk hk'
      rcases eq_or_lt_of_le hk with rfl | hlt
      · exact hfirst
      · exact hg k hlt hk'
  case marks => exact fun x k hx => h.marks x k (hpend ▸ hx)
  case ledger =>
    unfold SlowState.pending
    rw [hpend]
    exact h.ledger
  case awake => exact fun _ => .inl hpc

/-! ### The operations on the timers -/

/-- The operation deletes the timer. -/
def TimerOp.Takes (op : TimerOp α) (x : α) (t : TimerState α) : Prop :=
  ∃ inTimer inSlowTimer, op = .del inTimer inSlowTimer x ∧
    timerDelSafe inTimer inSlowTimer x t = some (timerRmList x t, 0)

/-- What an operation on the timers does to the ring. -/
inductive RingChange (s : SlowState α) (op : TimerOp α) : List (α × Nat) → Prop
  | keeps : RingChange s op s.pending
  | queues (x : α) : RingChange s op (s.pending ++ [(x, s.tNo)])
  | deletes (x : α) (h : op.Takes x s.timer) :
      RingChange s op (s.pending.filter fun e => !decide (e.1 = x))

theorem SlowOk.timer_aside (h : SlowOk s) (hq : op.queues s = []) (hd : op.deletes s = [])
    (ha : Aside s.timer (op.step s.timer)) :
    SlowOk ((SlowOp.timer op).step s) ∧ RingChange s op ((SlowOp.timer op).step s).pending := by
  have hpend : ((SlowOp.timer op).step s).pending = s.pending := pending_aside ha rfl rfl
  constructor
  · refine h.aside (h.lists.step op) ha rfl rfl rfl ?_ rfl ?_ h.awake
    · simp [SlowOp.step, hq]
    · simp [SlowOp.step, hd]
  · rw [hpend]
    exact .keeps

/-- `timer_del` changes nothing, or returns 0 and has taken the timer out of its list. -/
theorem timerDelSafe_cases (inTimer inSlowTimer : Bool) (x : α) (t : TimerState α) :
    timerDelSafe inTimer inSlowTimer x t = none ∨ timerDelSafe inTimer inSlowTimer x t = some (t, -1) ∨
    timerDelSafe inTimer inSlowTimer x t = some (t, -2) ∨
      timerDelSafe inTimer inSlowTimer x t = some (timerRmList x t, 0) := by
  unfold timerDelSafe
  split_ifs <;> simp

theorem SlowOk.timer_del (h : SlowOk s) (inTimer inSlowTimer : Bool) (x : α) :
    let op := TimerOp.del inTimer inSlowTimer x
    SlowOk ((SlowOp.timer op).step s) ∧ RingChange s op ((SlowOp.timer op).step s).pending := by
  intro op
  rcases timerDelSafe_cases inTimer inSlowTimer x s.timer with hd | hd | hd | hd
  case inr.inr.inr =>
    have hstep : op.step s.timer = timerRmList x s.timer := by
      simp only [op, TimerOp.step, hd]
    have hdel : op.deletes s = s.pending.filter fun e => decide (e.1 = x) := by
      simp only [op, TimerOp.deletes, hd]
    constructor
    · refine h.remove x hstep rfl rfl rfl ?_ h.awake
      have hledger := h.ledger.withdraw fun e => decide (e.1 = x)
      simpa [SlowOp.step, hdel, op, TimerOp.queues] using hledger
    · have hpend : ((SlowOp.timer op).step s).pending = (s.remove x).pending := by
        show Ring.entries slowHead (op.step s.timer).lst _ _ = _
        rw [hstep]
        rfl
      rw [hpend, pending_remove]
      exact .deletes x ⟨inTimer, inSlowTimer, rfl, hd⟩
  all_goals
    apply h.timer_aside rfl
    · simp only [op, TimerOp.deletes, hd]
    · simp only [op, TimerOp.step, hd]
      exact Aside.refl _

/-- A timer that is in no list of the ring leaves its list. -/
theorem aside_timerRmList (hx : ∀ g, x ∉ t.lst (.slow g)) : Aside t (timerRmList x t) where
  lists g := by
    rw [timerRmList_lst, drop, filter_eq_self]
    intro y hy
    have hne : y ≠ x := fun heq => hx g (heq ▸ hy)
    simpa using hne
  tIdx := rfl
  onSlowList y _ _ := (tl_timerRmList).1
  slowIdx y _ _ := (tl_timerRmList).2

/-- The ring is as it was, and the timer is in no list. -/
structure Detached (x : α) (t t' : TimerState α) : Prop where
  ok : Ok t'
  unlinked : (t'.tl x).linked = false
  aside : Aside t t'

section Detached

theorem Detached.not_mem_slow (h : Detached x t t') (g : BitVec 16) : x ∉ t'.lst (.slow g) :=
  h.ok.not_mem_slow (.inl h.unlinked) g

theorem Detached.refl (h : Ok t) (hx : (t.tl x).linked = false) : Detached x t t := ⟨h, hx, .refl t⟩

theorem Ok.detached_timerRmList (h : Ok t) (hx : x ∈ t.lst .expired) : Detached x t (Timer.timerRmList x t) :=
  ⟨h.timerRmList x, (off_timerRmList x t).unlinked, aside_timerRmList (h.not_mem_slow (.inr hx))⟩

theorem Detached.setTl (h : Detached x t t') (f : TimerLn → TimerLn)
    (hf : ∀ v, (f v).linked = v.linked) : Detached x t (t'.setTl x f) where
  ok := by
    refine h.ok.change (.inl ⟨(h.ok.off_of_unlinked h.unlinked).absent, ?_⟩) fun y hy => same_setTl_ne hy
    rw [setTl_tl_self, hf]
    exact h.unlinked
  unlinked := by
    rw [setTl_tl_self, hf]
    exact h.unlinked
  aside := h.aside.trans (aside_setTl h.not_mem_slow f)

/-- A detached timer may be added again. -/
theorem Detached.timerAdd (h : Detached x t t') (now) : Ok (timerAdd now x t') ∧ Aside t (Timer.timerAdd now x t') :=
  ⟨h.ok.timerAdd now h.unlinked, h.aside.trans (aside_timerAdd h.not_mem_slow)⟩

end Detached

/-- A fast timer at the head of the expired list does not come into the ring. -/
theorem aside_expire_fast (h : Ok t) (hx : x ∈ t.lst .expired) (hfast : (t.tl x).fast = true) {now ret} :
    Aside t (timerListExpireStep now x ret t) := by
  have hrm := h.detached_timerRmList hx
  have hfast' : ((timerRmList x t).tl x).fast = true := by simpa [timerRmList] using hfast
  unfold timerListExpireStep
  simp only [hfast', if_true]
  split_ifs
  · exact hrm.aside
  · exact ((hrm.setTl (fun tl => { tl with initialTimeout := ret }) fun _ => rfl).timerAdd now).2
  · exact (hrm.timerAdd now).2

section

variable (h : SlowOk s)

include h

/-- A slow timer goes to the end of the list `t_idx`. -/
theorem SlowOk.expire_slow (hx : x ∈ s.timer.lst .expired)
    (hfast : (s.timer.tl x).fast = false) {now ret} :
    SlowOk { s with
      timer := timerListExpireStep now x ret s.timer
      queued := s.queued ++ [(x, s.tNo)] } ∧
    SlowState.pending { s with
      timer := timerListExpireStep now x ret s.timer
      queued := s.queued ++ [(x, s.tNo)] } = s.pending ++ [(x, s.tNo)] := by
  -- the timer is taken off the expired list and marked before it comes into the ring
  let mark := fun tl : TimerLn => { tl with onSlowList := true, slowIdx := s.timer.tIdx }
  let marked := (timerRmList x s.timer).setTl x mark
  have hdet := (h.lists.detached_timerRmList hx).setTl mark fun _ => rfl
  have hmid : SlowOk { s with timer := marked } := h.aside hdet.ok hdet.aside rfl rfl rfl rfl rfl rfl h.awake
  have hpend : SlowState.pending { s with timer := marked } = s.pending := pending_aside hdet.aside rfl rfl
  have hstep : { s with
      timer := timerListExpireStep now x ret s.timer
      queued := s.queued ++ [(x, s.tNo)] } = SlowState.append x { s with timer := marked } := by
    have hfast' : ((timerRmList x s.timer).tl x).fast = false := by simpa [timerRmList] using hfast
    simp only [timerListExpireStep, hfast', Bool.false_eq_true, if_false]
    rfl
  rw [hstep, hmid.pending_append, hpend]
  refine ⟨hmid.append hdet.unlinked ?_ ?_, rfl⟩
  · simp [marked, mark]
  · simp [marked, mark]
    rfl

theorem SlowOk.timer_fire :
    let op := TimerOp.fire x ret
    SlowOk ((SlowOp.timer op).step s) ∧ RingChange s op ((SlowOp.timer op).step s).pending := by
  intro op
  by_cases hhead : (s.timer.lst .expired).head? = some x
  · have hx := mem_of_mem_head? hhead
    cases hfast : (s.timer.tl x).fast with
    | true =>
      apply h.timer_aside
      · simp [op, TimerOp.queues, hfast]
      · rfl
      · simp only [op, TimerOp.step, hhead, if_true]
        exact aside_expire_fast h.lists hx hfast
    | false =>
      obtain ⟨hok, hpend⟩ := h.expire_slow hx hfast
      have hstep : (SlowOp.timer op).step s = { s with
          timer := timerListExpireStep s.timer.ticks x ret s.timer
          queued := s.queued ++ [(x, s.tNo)] } := by
        simp [op, SlowOp.step, TimerOp.step, TimerOp.queues, TimerOp.deletes, hhead, hfast]
      rw [hstep, hpend]
      exact ⟨hok, .queues x⟩
  · apply h.timer_aside
    · simp [op, TimerOp.queues, hhead]
    · rfl
    · simp only [op, TimerOp.step, hhead, if_false]
      exact Aside.refl _

/-- Every operation on the timers keeps the invariant, and changes the ring in one of three ways. -/
theorem SlowOk.timer (op : TimerOp α) (hop : (SlowOp.timer op).Proper s) :
    SlowOk ((SlowOp.timer op).step s) ∧ RingChange s op ((SlowOp.timer op).step s).pending := by
  cases op with
  | add x delta => exact h.timer_aside rfl rfl (aside_timerAddSafe h.lists)
  | del inTimer inSlowTimer x => exact h.timer_del inTimer inSlowTimer x
  | reinit x =>
    apply h.timer_aside rfl rfl
    exact aside_setTl (h.lists.not_mem_slow (.inl hop)) fun tl =>
      { tl with onSlowList := false, active := false }
  | fire x ret => exact h.timer_fire
  | clock => exact h.timer_aside rfl rfl ⟨fun _ => rfl, rfl, fun _ _ _ => rfl, fun _ _ _ => rfl⟩
  | run =>
    apply h.timer_aside rfl rfl
    exact (show Aside s.timer { s.timer with prevTicks := s.timer.prevTicks + 1 } from
      ⟨fun _ => rfl, rfl, fun _ _ _ => rfl, fun _ _ _ => rfl⟩).trans (aside_timerRun)

/-! ### The two processes -/

/-- `t_idx - s_idx` is how many lists the ring has to give to the slow timer process. -/
theorem SlowOk.room_iff : s.timer.tIdx - s.sIdx < slowListsNo - 1 ↔ s.tNo < s.sNo + 1023 := by
  have hle := h.le
  have hwindow := h.window
  obtain ⟨n, hn⟩ := Nat.exists_eq_add_of_le hle
  have hsub : s.timer.tIdx - s.sIdx = BitVec.ofNat 16 n := by
    rw [h.tIdx, h.sIdx, hn, ofNat_add, add_comm, add_sub_cancel]
  have hno : (slowListsNo - 1).toNat = 1023 := by decide
  rw [hsub, lt_def, toNat_ofNat, hno]
  omega

theorem SlowOk.idx_eq_iff : s.sIdx = s.timer.tIdx ↔ s.sNo = s.tNo := by
  have hle := h.le
  have hwindow := h.window
  rw [h.tIdx, h.sIdx, ← toNat_inj, toNat_ofNat, toNat_ofNat]
  omega

/-- `timer_del` takes the lock of the slow lists for the timers of the lists that the slow timer process may
be at, and the lock of the timer lists for those of the list `t_idx`. -/
theorem SlowOk.slow_lock_iff (hx : (x, k) ∈ s.pending) :
    ((s.timer.tl x).onSlowList && (s.timer.tl x).slowIdx != s.timer.tIdx) = true ↔ k < s.tNo := by
  obtain ⟨hle, hlt, -⟩ := mem_pending.1 hx
  obtain ⟨hon, hidx⟩ := h.marks x k hx
  have hno := h.le
  have hwindow := h.window
  rw [hon, hidx, h.tIdx, Bool.true_and, bne_iff_ne, ne_eq, ← toNat_inj, toNat_ofNat, toNat_ofNat]
  omega

end

/-- What the end of `timer_handler` does. -/
inductive HandlerEnd (s : SlowState α) : SlowState α → Prop
  | empty (h : s.timer.lst (slowHead s.tNo) = []) : HandlerEnd s s
  | full (h : s.tNo = s.sNo + 1023) : HandlerEnd s { s with runSlowTimer := true }
  | gives (h : s.tNo < s.sNo + 1023) (s' : SlowState α) (hs' : s' = { s with
      runSlowTimer := true
      timer := { s.timer with tIdx := s.timer.tIdx + 1 }
      tNo := s.tNo + 1 }) : HandlerEnd s s'

theorem SlowOk.handlerEnd (h : SlowOk s) : HandlerEnd s (timerHandlerEnd s) := by
  have hwindow := h.window
  unfold timerHandlerEnd
  simp only [h.room_iff, h.tHead]
  split_ifs with hne hroom
  · exact .gives hroom _ rfl
  · exact .full (by omega)
  · exact .empty (not_not.1 hne)

theorem HandlerEnd.ok (hstep : HandlerEnd s s') (h : SlowOk s) : SlowOk s' ∧ s'.pending = s.pending := by
  cases hstep with
  | empty _ => exact ⟨h, rfl⟩
  | full _ =>
    exact ⟨h.aside h.lists (.refl _) rfl rfl rfl rfl rfl rfl fun _ => .inr (.inr rfl), rfl⟩
  | gives hroom _ hs' => exact h.extend hroom hs'

/-- What a step of `slow_timer_main` does. -/
inductive SlowStep (s : SlowState α) : SlowState α → Prop
  | asleep (hpc : s.pc = .asleep) : SlowStep s s
  | sleeps (hpc : s.pc = .drain) (h : s.sNo = s.tNo) : SlowStep s { s with pc := .asleep }
  | leaves (hpc : s.pc = .drain) (h : s.sNo ≠ s.tNo) (hl : s.timer.lst (slowHead s.sNo) = [])
      (s' : SlowState α) (hs' : s' = { s with sIdx := s.sIdx + 1, sNo := s.sNo + 1 }) : SlowStep s s'
  | calls (hpc : s.pc = .drain) (h : s.sNo ≠ s.tNo) (x : α) (l : List α)
      (hl : s.timer.lst (slowHead s.sNo) = x :: l) (s' : SlowState α) (hs' : s' = { s with
        timer := { timerRmList x s.timer with runningTimer2 := some x }
        pc := .running x
        called := s.called ++ [(x, s.sNo)] }) : SlowStep s s'
  | readds (x : α) (hpc : s.pc = .running x) (t : TimerState α) (hok : Ok t) (h : Aside s.timer t) :
      SlowStep s { s with timer := t, pc := .added }
  | returns (hpc : s.pc = .added ∨ ∃ x, s.pc = .running x) :
      SlowStep s { s with timer := { s.timer with runningTimer2 := none }, pc := .drain }

theorem SlowOk.slowStep (h : SlowOk s) (hop : (SlowOp.slow ret).Proper s) : SlowStep s (slowTimerMainStep ret s) := by
  unfold slowTimerMainStep
  cases hpc : s.pc with
  | asleep => exact .asleep hpc
  | drain =>
    simp only [h.idx_eq_iff, h.sHead]
    split_ifs with heq
    · exact .sleeps hpc heq
    · cases hl : s.timer.lst (slowHead s.sNo) with
      | nil => exact .leaves hpc heq hl _ (by simp only [hpc])
      | cons x l => exact .calls hpc heq x l hl _ rfl
  | running x =>
    simp only
    split_ifs with hret hall
    · exact .returns (.inr ⟨x, hpc⟩)
    all_goals
      have hdet := (Detached.refl h.lists (hop x hpc hret)).setTl
        (fun tl => { tl with onSlowList := false }) fun _ => rfl
    · have hset := hdet.setTl (fun tl => { tl with initialTimeout := ret }) fun _ => rfl
      obtain ⟨hok, haside⟩ := hset.timerAdd s.timer.ticks
      exact .readds x hpc _ hok haside
    · obtain ⟨hok, haside⟩ := hdet.timerAdd s.timer.ticks
      exact .readds x hpc _ hok haside
  | added => exact .returns (.inl hpc)

/-- The handler that is called is that of the first timer in the ring. -/
theorem SlowOk.pending_calls (h : SlowOk s)
    (hl : s.timer.lst (slowHead s.sNo) = x :: l) (hs' : s' = { s with
      timer := { timerRmList x s.timer with runningTimer2 := some x }
      pc := .running x
      called := s.called ++ [(x, s.sNo)] }) : s.pending = (x, s.sNo) :: s'.pending := by
  have hpend : s'.pending = s.pending.filter fun e => !decide (e.1 = x) := by
    rw [← pending_remove, hs']
    rfl
  rw [hpend]
  exact h.pending_remove_head hl

theorem SlowStep.ok (hstep : SlowStep s s') (h : SlowOk s) : SlowOk s' := by
  cases hstep with
  | asleep _ => exact h
  | sleeps _ heq =>
    exact h.aside h.lists (.refl _) rfl rfl rfl rfl rfl rfl fun hne => absurd heq hne
  | leaves hpc hne hl s' hs' => exact (h.leave hne hl (by simp [hpc]) hs').1
  | calls hpc hne x l hl s' hs' =>
    have hledger := h.ledger
    rw [h.pending_remove_head hl] at hledger
    have hrm : SlowOk { s with
        timer := timerRmList x s.timer
        pc := .running x
        called := s.called ++ [(x, s.sNo)] } :=
      h.remove x rfl rfl rfl rfl hledger.serve fun _ => .inl (by simp)
    subst hs'
    exact hrm.aside (hrm.lists.same fun y => ⟨fun _ => rfl, rfl, rfl⟩) ⟨fun _ => rfl, rfl,
      fun _ _ _ => rfl, fun _ _ _ => rfl⟩ rfl rfl rfl rfl rfl rfl
      fun _ => .inl (by simp)
  | readds x hpc t hok ht => exact h.aside hok ht rfl rfl rfl rfl rfl rfl fun _ => .inl (by simp)
  | returns hpc =>
    refine h.aside ?_ ?_ rfl rfl rfl rfl rfl rfl fun _ => .inl (by simp)
    · exact h.lists.same fun y => ⟨fun _ => rfl, rfl, rfl⟩
    · exact ⟨fun _ => rfl, rfl, fun _ _ _ => rfl, fun _ _ _ => rfl⟩

/-- Every step keeps the invariant. -/
theorem SlowOk.step (h : SlowOk s) {op : SlowOp α} (hop : op.Proper s) : SlowOk (op.step s) := by
  cases op with
  | timer op => exact (h.timer op hop).1
  | handlerEnd => exact (h.handlerEnd.ok h).1
  | kill =>
    simp only [SlowOp.step]
    split_ifs with hrun
    · exact h.aside h.lists (.refl _) rfl rfl rfl rfl rfl rfl fun _ => .inr (.inl rfl)
    · exact h
  | wake =>
    simp only [SlowOp.step]
    split_ifs with hwake
    · exact h.aside h.lists (.refl _) rfl rfl rfl rfl rfl rfl fun _ => .inl (by simp)
    · exact h
  | slow ret => exact (h.slowStep hop).ok h

end Invariant

theorem slowOk_slowRun {fast : α → Bool} {t : Ticks} {ops : Nat → SlowOp α}
    (hops : ∀ i, (ops i).Proper (slowRun fast t ops i)) (i : Nat) : SlowOk (slowRun fast t ops i) := by
  induction i with
  | zero => exact slowOk_init fast t
  | succ i ih => exact ih.step (hops i)

/-! ## Nothing waits forever -/

def SlowPc.rank : SlowPc α → Nat
  | .asleep | .drain => 0
  | .added => 1
  | .running _ => 2

/-- What `s` needs next to get on. -/
def SlowState.help (s : SlowState α) : SlowDuty :=
  if s.sNo = s.tNo then .handlerEnd
  else if s.pc ≠ .asleep then .slow
  else if s.signal then .wake
  else .kill

/-- How many more duties come before the slow timer process goes on. -/
def SlowDuty.stage : SlowDuty → Nat
  | .slow => 0
  | .wake => 1
  | .kill => 2
  | .handlerEnd => 3

/-- How many steps of the slow timer process there are before an expiry in the ring is served. -/
def SlowState.distance (e : α × Nat) (s : SlowState α) : Nat :=
  3 * s.pending.idxOf e + (e.2 - s.sNo) + s.pc.rank + if e.2 = s.tNo then 1 else 0

def SlowState.rank (e : α × Nat) (s : SlowState α) : Nat := 4 * s.distance e + s.help.stage

section Progress

variable {s s' : SlowState α} {e : α × Nat} {k : Option SlowDuty}

theorem nearer_of_distance (h : s'.distance e < s.distance e) : Nearer (SlowState.rank e) SlowState.help s s' k := by
  refine .closer ?_
  have hstage : s'.help.stage ≤ 3 := by cases s'.help <;> decide
  unfold SlowState.rank
  omega

theorem nearer_of_stage (h : s'.distance e = s.distance e) (hstage : s'.help.stage < s.help.stage) :
    Nearer (SlowState.rank e) SlowState.help s s' k := by
  refine .closer ?_
  unfold SlowState.rank
  omega

theorem nearer_of_help (h : s'.distance e ≤ s.distance e) (hhelp : s'.help = s.help)
    (hk : k ≠ some s.help) : Nearer (SlowState.rank e) SlowState.help s s' k := by
  rcases eq_or_lt_of_le h with heq | hlt
  · refine .same ?_ hhelp hk
    rw [SlowState.rank, SlowState.rank, heq, hhelp]
  · exact nearer_of_distance hlt

/-- An operation ends the wait of an expiry: its handler is called, or its timer is deleted. -/
def SlowOp.Ends (op : SlowOp α) (e : α × Nat) (s : SlowState α) : Prop :=
  (op.step s).called = s.called ++ [e] ∧ (op.step s).pc = .running e.1 ∨
    ∃ o, op = .timer o ∧ o.Takes e.1 s.timer

theorem SlowOk.waits_timer (h : SlowOk s) (hop : (SlowOp.timer op).Proper s) (he : e ∈ s.pending) :
    (SlowOp.timer op).Ends e s ∨ e ∈ ((SlowOp.timer op).step s).pending ∧
      Nearer (SlowState.rank e) SlowState.help s ((SlowOp.timer op).step s) none := by
  have hchange := (h.timer op hop).2
  have hdist : ((SlowOp.timer op).step s).pending.idxOf e ≤ s.pending.idxOf e →
      Nearer (SlowState.rank e) SlowState.help s ((SlowOp.timer op).step s) none := by
    intro hle
    refine nearer_of_help ?_ rfl nofun
    show 3 * _ + (e.2 - s.sNo) + s.pc.rank + _ ≤ 3 * _ + (e.2 - s.sNo) + s.pc.rank + _
    exact Nat.add_le_add_right (Nat.add_le_add_right (Nat.add_le_add_right
      (Nat.mul_le_mul_left 3 hle) _) _) _
  generalize ((SlowOp.timer op).step s).pending = p at hchange hdist ⊢
  cases hchange with
  | keeps => exact .inr ⟨he, hdist (le_refl _)⟩
  | queues x =>
    refine .inr ⟨mem_append_left _ he, hdist ?_⟩
    rw [idxOf_append_of_mem he]
  | deletes x htakes =>
    rcases eq_or_ne e.1 x with rfl | hx
    · exact .inl (.inr ⟨op, rfl, htakes⟩)
    · have hkeep : (!decide (e.1 = x)) = true := by simpa using hx
      refine .inr ⟨mem_filter.2 ⟨he, hkeep⟩, hdist ?_⟩
      exact Ring.idxOf_filter_le (p := fun e : α × Nat => !decide (e.1 = x)) hkeep _

theorem SlowOk.waits_handlerEnd (h : SlowOk s) (he : e ∈ s.pending) : e ∈ (timerHandlerEnd s).pending ∧
      Nearer (SlowState.rank e) SlowState.help s (timerHandlerEnd s) (some .handlerEnd) := by
  obtain ⟨hle, hlt, hmem⟩ := mem_pending.1 he
  have hno := h.le
  have hstep := h.handlerEnd
  obtain ⟨-, hpend⟩ := hstep.ok h
  refine ⟨hpend ▸ he, ?_⟩
  have hhelp : s.sNo ≠ s.tNo → some SlowDuty.handlerEnd ≠ some s.help := by
    intro hne
    unfold SlowState.help
    rw [if_neg hne]
    split_ifs <;> simp
  generalize timerHandlerEnd s = s' at hstep hpend ⊢
  cases hstep with
  | empty hempty =>
    refine nearer_of_help (le_refl _) rfl (hhelp fun heq => ?_)
    -- the list `t_idx` would be the only one in use, and it has the timer
    have hlast : e.2 = s.tNo := by omega
    rw [hlast, hempty] at hmem
    cases hmem
  | full hfull => exact nearer_of_help (le_refl _) rfl (hhelp (by omega))
  | gives hroom s' hs' =>
    have hs : s'.sNo = s.sNo ∧ s'.tNo = s.tNo + 1 ∧ s'.pc = s.pc ∧ s'.signal = s.signal := by
      rw [hs']
      exact ⟨rfl, rfl, rfl, rfl⟩
    by_cases hlast : e.2 = s.tNo
    · apply nearer_of_distance
      simp only [SlowState.distance, hpend, hs, hlast]
      simp
    · have hne : s.sNo ≠ s.tNo := by omega
      have hne' : s.sNo ≠ s.tNo + 1 := by omega
      refine nearer_of_help ?_ ?_ (hhelp hne)
      · have hnot : e.2 ≠ s.tNo + 1 := by omega
        simp only [SlowState.distance, hpend, hs, hlast, hnot, if_false]
        exact le_refl _
      · simp only [SlowState.help, hs, hne, hne', if_false]

theorem SlowOk.waits_kill (h : SlowOk s) : (SlowOp.kill.step s).pending = s.pending ∧
      Nearer (SlowState.rank e) SlowState.help s (SlowOp.kill.step s) (some .kill) := by
  simp only [SlowOp.step]
  split_ifs with hrun
  · refine ⟨rfl, ?_⟩
    by_cases hkill : s.help = .kill
    · refine nearer_of_stage rfl ?_
      unfold SlowState.help at hkill ⊢
      split_ifs at hkill with hno hpc hsig
      simp [hno, hpc, SlowDuty.stage, hsig]
    · refine nearer_of_help (le_refl _) ?_ fun hk => hkill (some.inj hk).symm
      unfold SlowState.help at hkill ⊢
      split_ifs at hkill ⊢ <;> simp_all
  · refine ⟨rfl, nearer_of_help (le_refl _) rfl fun hk => ?_⟩
    -- a slow timer process that sleeps over a filled ring has been promised a signal
    have hkill := some.inj hk
    unfold SlowState.help at hkill
    split_ifs at hkill with hno hpc hsig
    rcases h.awake hno with hawake | hawake | hawake
    · exact hpc hawake
    · exact hsig hawake
    · exact hrun hawake

theorem waits_wake : (SlowOp.wake.step s).pending = s.pending ∧ Nearer
    (SlowState.rank e) SlowState.help s (SlowOp.wake.step s) (some .wake) := by
  simp only [SlowOp.step]
  split_ifs with hwake
  · refine ⟨rfl, ?_⟩
    have hdist : SlowState.distance e { s with pc := .drain, signal := false } = s.distance e := by
      simp only [SlowState.distance, hwake.1]
      rfl
    by_cases hno : s.sNo = s.tNo
    · refine nearer_of_help (le_of_eq hdist) ?_ ?_
      all_goals simp [SlowState.help, hno]
    · apply nearer_of_stage hdist
      simp [SlowState.help, hno, hwake, SlowDuty.stage]
  · refine ⟨rfl, nearer_of_help (le_refl _) rfl fun hk => ?_⟩
    have hhelp := some.inj hk
    unfold SlowState.help at hhelp
    split_ifs at hhelp with hno hpc hsig
    exact hwake ⟨not_not.1 hpc, hsig⟩

theorem SlowOk.waits_slow (h : SlowOk s) (hop : (SlowOp.slow ret).Proper s) (he : e ∈ s.pending) :
    (SlowOp.slow ret).Ends e s ∨ e ∈ (slowTimerMainStep ret s).pending ∧
      Nearer (SlowState.rank e) SlowState.help s (slowTimerMainStep ret s) (some .slow) := by
  have hstep := h.slowStep hop
  unfold SlowOp.Ends
  simp only [SlowOp.step]
  generalize slowTimerMainStep ret s = s' at hstep ⊢
  cases hstep with
  | asleep hpc =>
    refine .inr ⟨he, nearer_of_help (le_refl _) rfl fun hk => ?_⟩
    have hhelp := some.inj hk
    unfold SlowState.help at hhelp
    split_ifs at hhelp with hno hne
    exact hne hpc
  | sleeps hpc hno =>
    refine .inr ⟨he, nearer_of_help ?_ ?_ ?_⟩
    · simp only [SlowState.distance, hpc]
      rfl
    all_goals simp [SlowState.help, hno]
  | leaves hpc hno hl s' hs' =>
    obtain ⟨hok, hpend⟩ := h.leave hno hl (by simp [hpc]) hs'
    rw [← hpend] at he
    refine .inr ⟨he, nearer_of_distance ?_⟩
    have hle := (mem_pending.1 he).1
    have hs : s'.sNo = s.sNo + 1 ∧ s'.tNo = s.tNo ∧ s'.pc = s.pc := by
      rw [hs']
      exact ⟨rfl, rfl, rfl⟩
    simp only [SlowState.distance, hpend, hs]
    omega
  | calls hpc hno x l hl s' hs' =>
    have hpend := h.pending_calls hl hs'
    rcases eq_or_ne e (x, s.sNo) with rfl | hne
    · subst hs'
      exact .inl (.inl ⟨rfl, rfl⟩)
    · rw [hpend] at he
      refine .inr ⟨(mem_cons.1 he).resolve_left hne, nearer_of_distance ?_⟩
      have hs : s'.sNo = s.sNo ∧ s'.tNo = s.tNo ∧ s'.pc = .running x := by
        rw [hs']
        exact ⟨rfl, rfl, rfl⟩
      simp only [SlowState.distance, hpend, hs, hpc, idxOf_cons_ne _ hne.symm, SlowPc.rank]
      omega
  | readds x hpc t hok ht =>
    have hpend : SlowState.pending { s with timer := t, pc := .added } = s.pending := pending_aside ht rfl rfl
    refine .inr ⟨hpend ▸ he, nearer_of_distance ?_⟩
    simp only [SlowState.distance, hpend, hpc, SlowPc.rank]
    omega
  | returns hpc =>
    refine .inr ⟨he, nearer_of_distance ?_⟩
    have hrank : 0 < s.pc.rank := by
      rcases hpc with hpc | ⟨x, hpc⟩
      · rw [hpc]
        exact one_pos
      · rw [hpc]
        exact two_pos
    show 3 * s.pending.idxOf e + (e.2 - s.sNo) + 0 + (if e.2 = s.tNo then 1 else 0) < s.distance e
    unfold SlowState.distance
    omega

/-- While an expiry is in the ring, every step ends its wait, or brings it nearer to its end. -/
theorem SlowOk.waits (h : SlowOk s) {op : SlowOp α} (hop : op.Proper s) (he : e ∈ s.pending) :
    op.Ends e s ∨ e ∈ (op.step s).pending ∧
      Nearer (SlowState.rank e) SlowState.help s (op.step s) op.duty := by
  cases op with
  | timer op => exact h.waits_timer hop he
  | handlerEnd => exact .inr (h.waits_handlerEnd he)
  | kill =>
    obtain ⟨hpend, hnear⟩ := h.waits_kill (e := e)
    exact .inr ⟨hpend ▸ he, hnear⟩
  | wake =>
    obtain ⟨hpend, hnear⟩ := waits_wake (s := s) (e := e)
    exact .inr ⟨hpend ▸ he, hnear⟩
  | slow ret => exact h.waits_slow hop he

end Progress

/-- A slow timer is added with no delay and expires, and the two processes take turns. -/
def takeTurns (i : Nat) : SlowOp Unit :=
  if i = 0 then .timer (.add () 0)
  else if i = 1 then .timer (.fire () 0)
  else match i % 4 with
    | 0 => .handlerEnd
    | 1 => .kill
    | 2 => .wake
    | _ => .slow 0

theorem proper_takeTurns {i s} : (takeTurns i).Proper s := by
  unfold takeTurns
  split_ifs
  · trivial
  · trivial
  · split
    · trivial
    · trivial
    · trivial
    · exact fun _ _ hret => absurd rfl hret

theorem fair_takeTurns : Fair SlowOp.duty takeTurns := by
  have hturn : ∀ i r, r < 4 → i ≤ 4 * (i + 1) + r ∧ takeTurns (4 * (i + 1) + r) =
      match r with
        | 0 => .handlerEnd
        | 1 => .kill
        | 2 => .wake
        | _ => .slow 0 := by
    intro i r hr
    refine ⟨by omega, ?_⟩
    have hmod : (4 * (i + 1) + r) % 4 = r := by omega
    rw [takeTurns, if_neg (by omega), if_neg (by omega), hmod]
  intro c i
  cases c with
  | handlerEnd => exact ⟨_, (hturn i 0 (by decide)).1, by rw [(hturn i 0 (by decide)).2]; rfl⟩
  | kill => exact ⟨_, (hturn i 1 (by decide)).1, by rw [(hturn i 1 (by decide)).2]; rfl⟩
  | wake => exact ⟨_, (hturn i 2 (by decide)).1, by rw [(hturn i 2 (by decide)).2]; rfl⟩
  | slow => exact ⟨_, (hturn i 3 (by decide)).1, by rw [(hturn i 3 (by decide)).2]; rfl⟩

/-- In every run, an expired slow timer is queued and what is queued is called, in the ring or deleted, once
each; handlers are called in the order of the lists; and in a fair run every expiry stays in the ring until
its handler is called or its timer deleted, which happens. -/
theorem slow_timers_handed_over (fast : α → Bool) (t : Ticks) (ops : Nat → SlowOp α)
    (hops : ∀ i, (ops i).Proper (slowRun fast t ops i)) :
    let s := slowRun fast t ops
    (∀ i x ret, ops i = .timer (.fire x ret) → ((s i).timer.lst .expired).head? = some x →
      ((s i).timer.tl x).fast = false →
      (s (i + 1)).queued = (s i).queued ++ [(x, (s i).tNo)]) ∧
    (∀ i, (s i).queued.Perm ((s i).called ++ (s i).pending ++ (s i).deleted)) ∧
    (∀ i, ((s i).called ++ (s i).pending).Sublist (s i).queued ∧
      (s i).queued.Pairwise fun e e' => e.2 ≤ e'.2) ∧
    (Fair SlowOp.duty ops → ∀ i e, e ∈ (s i).pending →
      ∃ j, i ≤ j ∧ (∀ k, i ≤ k → k ≤ j → e ∈ (s k).pending) ∧ (ops j).Ends e (s j)) := by
  intro s
  have hok := slowOk_slowRun hops
  refine ⟨?_, fun i => (hok i).ledger.balance, fun i => ⟨(hok i).ledger.order, (hok i).ledger.sorted⟩, ?_⟩
  · intro i x ret hop hhead hfast
    show ((ops i).step (s i)).queued = _
    simp [hop, SlowOp.step, TimerOp.queues, hhead, hfast]
  · intro hfair i e he
    show Until s (fun s => e ∈ s.pending) (fun j => (ops j).Ends e (s j)) i
    exact hfair.eventually (P := fun s : SlowState α => e ∈ s.pending) (fun i he => (hok i).waits (hops i) he) he

theorem slow_timers_handed_over_takeTurns :
    let s := slowRun (fun _ => false) 0 takeTurns
    (s 2).queued = (s 1).queued ++ [((), 0)] ∧ ((), 0) ∈ (s 2).pending ∧
      ∃ j, 2 ≤ j ∧ (∀ k, 2 ≤ k → k ≤ j → ((), 0) ∈ (s k).pending) ∧ (takeTurns j).Ends ((), 0) (s j) := by
  have hrun := slow_timers_handed_over (fun _ : Unit => false) 0 takeTurns fun i => proper_takeTurns
  have hpend : ((), 0) ∈ (slowRun (fun _ => false) 0 takeTurns 2).pending := by decide
  exact ⟨hrun.1 1 () 0 rfl (by decide) (by decide), hpend, hrun.2.2.2 fair_takeTurns 2 ((), 0) hpend⟩

/-- In every run `timer_del` takes the lock of the slow lists exactly for the timers of lists that
the timer process has left; the lists in use do not run into each other; and the slow timer process
does not sleep over a list left to it. -/
theorem slow_ring_safe (fast : α → Bool) (t : Ticks) (ops : Nat → SlowOp α)
    (hops : ∀ i, (ops i).Proper (slowRun fast t ops i)) (i : Nat) :
    let s := slowRun fast t ops i
    (∀ x k, (x, k) ∈ s.pending →
      (((s.timer.tl x).onSlowList && (s.timer.tl x).slowIdx != s.timer.tIdx) = true ↔ k < s.tNo)) ∧
      s.tNo < s.sNo + 1024 ∧ (s.sNo ≠ s.tNo → s.pc ≠ .asleep ∨ s.signal = true ∨ s.runSlowTimer = true) := by
  have hok := slowOk_slowRun hops i
  exact ⟨fun x k hx => hok.slow_lock_iff hx, hok.window, hok.awake⟩

theorem slow_ring_safe_takeTurns :
    let s := slowRun (fun _ : Unit => false) 0 takeTurns 2
    ((), 0) ∈ s.pending ∧
    (((s.timer.tl ()).onSlowList && (s.timer.tl ()).slowIdx != s.timer.tIdx) = true ↔ 0 < s.tNo) :=
  have hpend : ((), 0) ∈ (slowRun (fun _ => false) 0 takeTurns 2).pending := by decide
  ⟨hpend, (slow_ring_safe _ 0 takeTurns (fun _ => proper_takeTurns) 2).1 () 0 hpend⟩

end SipRouter.Timer
