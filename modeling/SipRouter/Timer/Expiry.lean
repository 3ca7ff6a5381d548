import SipRouter.Timer.Slots

/-!
# Timers expire at their tick

Every timer is in no list, or in exactly one, which in a wheel is the slot of
its `expire` value (`Ok`). `timer_run` moves a timer as `advance` says
(`At.run`), so the number of calls left goes down by one at each tick, and the
timer reaches the expired list at the tick it was set for. `TimerOp` are the
operations on the lists when the timer process keeps up with the clock.
-/

namespace SipRouter.Timer

open Lib Buckets List BitVec

variable {α : Type} [DecidableEq α]

/-- The timer is linked, once, in the list `g`, which in a wheel is its slot. -/
structure At (s : TimerState α) (x : α) (g : TimerHead) : Prop where
  placed : Placed s.lst x g
  linked : (s.tl x).linked = true
  slot : g.Wheel → SlotOf (s.tl x).expire g

/-- The timer is in no list. -/
structure Off (s : TimerState α) (x : α) : Prop where
  absent : Absent s.lst x
  unlinked : (s.tl x).linked = false

/-- The invariant of the timer lists. -/
def Ok (s : TimerState α) : Prop := ∀ x, Off s x ∨ ∃ g, At s x g

variable {s s' : TimerState α} {x y : α} {g h : TimerHead} {t d : Ticks} {n : Nat} {ret : Ticks}

theorem Ok.off_of_unlinked (hs : Ok s) (h : (s.tl x).linked = false) : Off s x := by
  rcases hs x with ho | ⟨g, hg⟩
  · exact ho
  · rw [hg.linked] at h; exact absurd h (by decide)

/-- Only links change, and only those of timers that are linked. -/
theorem timerRedist_expire : ((timerRedist t h s).tl x).expire = (s.tl x).expire := by
  rw [timerRedist_tl]

theorem At.redist_ne (hx : At s x g) (hg : g ≠ h) (t) : At (timerRedist t h s) x g where
  placed := by rw [timerRedist_lst]; exact hx.placed.spill_ne hg
  linked := by rw [timerRedist_tl]; simp [hx.linked]
  slot := by rw [timerRedist_expire]; exact hx.slot

theorem At.redist_self (hx : At s x h) (hne : distHead (s.tl x).expire ((s.tl x).expire - t) ≠ h) :
    At (timerRedist t h s) x (distHead (s.tl x).expire ((s.tl x).expire - t)) where
  placed := by rw [timerRedist_lst]; exact hx.placed.spill_self (f := redistHead t s.tl) hne
  linked := by rw [timerRedist_tl]; simp [hx.linked]
  slot := by
    rw [timerRedist_expire]
    intro hw
    refine distHead_slotOf fun h0 => ?_
    rw [h0] at hw
    exact hw

theorem Off.redist (hx : Off s x) : Off (timerRedist t h s) x where
  absent := by rw [timerRedist_lst]; exact hx.absent.spill _ _
  unlinked := by rw [timerRedist_tl]; simp [hx.unlinked, hx.absent.not_mem h]

theorem At.mvExpire_ne (hx : At s x g) (hg : g ≠ h) : At (timerMvExpire h s) x g where
  placed := by rw [timerMvExpire_lst]; exact hx.placed.spill_ne hg
  linked := by rw [timerMvExpire_tl]; exact hx.linked
  slot := by rw [timerMvExpire_tl]; exact hx.slot

theorem At.mvExpire_self (hx : At s x h) (hh : h ≠ .expired) : At (timerMvExpire h s) x .expired where
  placed := by
    rw [timerMvExpire_lst]
    exact hx.placed.spill_self (f := fun _ => .expired) hh.symm
  linked := by rw [timerMvExpire_tl]; exact hx.linked
  slot := .elim

theorem Off.mvExpire (hx : Off s x) : Off (timerMvExpire h s) x where
  absent := by rw [timerMvExpire_lst]; exact hx.absent.spill _ _
  unlinked := by rw [timerMvExpire_tl]; exact hx.unlinked

theorem Off.run (hx : Off s x) (t : Ticks) : Off (timerRun t s) x := by
  unfold timerRun
  refine .mvExpire ?_
  split_ifs
  · exact (hx.redist).redist
  · exact hx.redist
  · exact hx

theorem timerRun_expire : ((timerRun t s).tl x).expire = (s.tl x).expire := by
  unfold timerRun
  rw [timerMvExpire_tl]
  split_ifs <;> simp only [timerRedist_expire]

theorem At.mvExpire (hx : At s x g) (hh : h ≠ .expired) :
    At (timerMvExpire h s) x (if g = h then .expired else g) := by
  split_ifs with hg
  · subst hg
    exact hx.mvExpire_self hh
  · exact hx.mvExpire_ne hg

theorem and_h0Mask_of_and_h1H0Mask (h : t &&& h1H0Mask = 0) : t &&& h0Mask = 0 := by
  rw [eq_zero_iff_toNat, h1H0Mask_toNat] at h
  rw [eq_zero_iff_toNat, h0Slot_toNat]
  omega

/-- The redistribution of the upper wheels, the first part of `timer_run`. -/
def redistUpper (t : Ticks) (s : TimerState α) : TimerState α :=
  if t &&& h0Mask = 0 then
    timerRedist t (.h1 ((t &&& h1H0Mask) >>> h0Bits))
      (if t &&& h1H0Mask = 0 then timerRedist t (.h2 (t >>> (h0Bits + h1Bits))) s else s)
  else s

theorem timerRun_eq : timerRun t s = timerMvExpire (.h0 (t &&& h0Mask)) (redistUpper t s) := rfl

/-- A timer whose slot is not due is not moved. -/
theorem At.redistUpper_ne (hx : At s x g) (h1 : t &&& h0Mask = 0 → g ≠ .h1 ((t &&& h1H0Mask) >>> h0Bits))
    (h2 : t &&& h1H0Mask = 0 → g ≠ .h2 (t >>> (h0Bits + h1Bits))) : At (redistUpper t s) x g := by
  unfold redistUpper
  split_ifs with ht ht'
  · exact (hx.redist_ne (h2 ht') t).redist_ne (h1 ht) t
  · exact hx.redist_ne (h1 ht) t
  · exact hx

/-- A timer moved down from its `h1` slot is where its distance says. -/
theorem At.redistUpper_h1 (hx : At s x (.h1 ((t &&& h1H0Mask) >>> h0Bits))) (ht : t &&& h0Mask = 0) :
    At (redistUpper t s) x (distHead (s.tl x).expire ((s.tl x).expire - t)) := by
  have hne := (redist_h1_ne ht (hx.slot trivial).symm).1
  unfold redistUpper
  split_ifs
  · have hx' := hx.redist_ne (h := .h2 (t >>> (h0Bits + h1Bits))) (by simp) t
    rw [← timerRedist_expire] at hne ⊢
    exact hx'.redist_self hne
  · exact hx.redist_self hne

/-- A timer moved down from its `h2` slot is where its distance says. -/
theorem At.redistUpper_h2 (hx : At s x (.h2 (t >>> (h0Bits + h1Bits)))) (ht : t &&& h1H0Mask = 0) :
    At (redistUpper t s) x (distHead (s.tl x).expire ((s.tl x).expire - t)) := by
  obtain ⟨hne, hne1, -⟩ := redist_h2_ne ht (hx.slot trivial).symm
  unfold redistUpper
  rw [if_pos (and_h0Mask_of_and_h1H0Mask ht), if_pos ht]
  exact (hx.redist_self hne).redist_ne hne1 t

/-- `timer_run` moves each timer once, as `advance` says. -/
theorem At.run (hx : At s x g) (t : Ticks) : At (timerRun t s) x (advance t g (s.tl x).expire) := by
  rw [timerRun_eq]
  cases g with
  | h0 i =>
    have h := (hx.redistUpper_ne (t := t) (by simp) (by simp)).mvExpire (h := .h0 (t &&& h0Mask)) (by simp)
    simpa only [advance, TimerHead.h0.injEq] using h
  | h1 i =>
    simp only [advance]
    split_ifs with hdue
    · obtain ⟨ht, rfl⟩ := hdue
      have hne := (redist_h1_ne ht (hx.slot trivial).symm).2
      exact (hx.redistUpper_h1 ht).mvExpire_ne hne
    · refine (hx.redistUpper_ne (fun ht hi => hdue ⟨ht, ?_⟩) (by simp)).mvExpire_ne (by simp)
      simpa using hi
  | h2 i =>
    simp only [advance]
    split_ifs with hdue
    · obtain ⟨ht, rfl⟩ := hdue
      have hne := (redist_h2_ne ht (hx.slot trivial).symm).2.2
      exact (hx.redistUpper_h2 ht).mvExpire_ne hne
    · refine (hx.redistUpper_ne (by simp) (fun ht hi => hdue ⟨ht, ?_⟩)).mvExpire_ne (by simp)
      simpa using hi
  | expired | slow i => exact (hx.redistUpper_ne (by simp) (by simp)).mvExpire_ne (by simp)

/-! ## The operations -/

/-- What happens to the timer lists: additions, deletions and `timer_reinit`
by any process, the handler of the first expired timer, a tick of the clock
(`*ticks` is incremented), and the next `timer_run` of the timer process. -/
inductive TimerOp (α : Type) where
  | add (x : α) (delta : Ticks)
  | del (inTimer inSlowTimer : Bool) (x : α)
  | reinit (x : α)
  | fire (x : α) (ret : Ticks)
  | clock
  | run
  deriving DecidableEq

/-- One operation. A deletion that has to wait for a handler does nothing yet. -/
def TimerOp.step (s : TimerState α) : TimerOp α → TimerState α
  | .add x delta => (timerAddSafe x delta s).1
  | .del inTimer inSlowTimer x =>
    match timerDelSafe inTimer inSlowTimer x s with
    | some (s', _) => s'
    | none => s
  | .reinit x => timerReinit x s
  | .fire x ret =>
    if (s.lst .expired).head? = some x then timerListExpireStep s.ticks x ret s else s
  | .clock => { s with ticks := s.ticks + 1 }
  | .run => timerRun (s.prevTicks + 1) { s with prevTicks := s.prevTicks + 1 }

def runOps (ops : List (TimerOp α)) (s : TimerState α) : TimerState α := ops.foldl TimerOp.step s

/-- The operation deletes the timer. -/
def TimerOp.Deletes (x : α) : TimerOp α → Prop
  | .del _ _ y => y = x
  | _ => False

/-- The operation may put the timer in the wheels again. -/
def TimerOp.Adds (x : α) : TimerOp α → Prop
  | .add y _ => y = x
  | .fire y ret => y = x ∧ ret ≠ 0
  | _ => False

@[simp] theorem runOps_nil : runOps [] s = s := rfl

@[simp] theorem runOps_cons (op : TimerOp α) (ops : List (TimerOp α)) (s : TimerState α) :
    runOps (op :: ops) s = runOps ops (op.step s) := rfl

/-! ## Timers an operation does not touch -/

/-- The two states agree on where the timer is and when it expires. -/
structure Same (x : α) (s s' : TimerState α) : Prop where
  count : ∀ g, (s'.lst g).count x = (s.lst g).count x
  linked : (s'.tl x).linked = (s.tl x).linked
  expire : (s'.tl x).expire = (s.tl x).expire

theorem Same.refl (x : α) (s) : Same x s s := ⟨fun _ => rfl, rfl, rfl⟩

theorem Same.trans {s''} (h : Same x s s') (h' : Same x s' s'') : Same x s s'' :=
  ⟨fun g => (h'.count g).trans (h.count g), h'.linked.trans h.linked, h'.expire.trans h.expire⟩

theorem At.same (hx : At s x g) (h : Same x s s') : At s' x g where
  placed := fun k => by rw [h.count, hx.placed k]
  linked := by rw [h.linked, hx.linked]
  slot := by rw [h.expire]; exact hx.slot

theorem Off.same (hx : Off s x) (h : Same x s s') : Off s' x where
  absent := fun k => by rw [h.count, hx.absent k]
  unlinked := by rw [h.linked, hx.unlinked]

/-- Writing fields of another timer. -/
theorem same_setTl_ne (hxy : x ≠ y) {f s} : Same x s (s.setTl y f) :=
  ⟨fun _ => rfl, by rw [setTl_tl_ne hxy], by rw [setTl_tl_ne hxy]⟩

/-- Writing fields other than the links and `expire`. -/
theorem same_setTl (x y : α) {f}
    (hl : ∀ v, (f v).linked = v.linked) (he : ∀ v, (f v).expire = v.expire) : Same x s (s.setTl y f) := by
  by_cases hxy : x = y
  · subst hxy
    exact ⟨fun _ => rfl, by simp [hl], by simp [he]⟩
  · exact same_setTl_ne hxy

theorem same_timerAddList (hxy : x ≠ y) {h s} : Same x s (timerAddList h y s) where
  count := fun g => by simp [timerAddList_lst, count_push, hxy.symm]
  linked := by rw [timerAddList_tl]; simp [hxy]
  expire := by rw [timerAddList_tl]

theorem same_timerRmList (hxy : x ≠ y) (s) : Same x s (timerRmList y s) where
  count := fun g => by rw [timerRmList_lst, count_drop_ne hxy]
  linked := by simp [timerRmList, hxy]
  expire := by simp [timerRmList, hxy]

theorem same_timerAdd (hxy : x ≠ y) {t s} : Same x s (timerAdd t y s) :=
  (same_setTl_ne hxy).trans (same_timerAddList hxy)

/-! ## The timer an operation is about -/

theorem off_timerRmList (x : α) (s) : Off (timerRmList x s) x where
  absent := absent_drop x s.lst
  unlinked := by simp [timerRmList]

theorem Off.at_timerAddList (hx : Off s x) (hg : g.Wheel → SlotOf (s.tl x).expire g) :
    At (timerAddList g x s) x g where
  placed := hx.absent.push g
  linked := by rw [timerAddList_tl]; simp
  slot := by rw [timerAddList_tl]; exact hg

theorem distHead_wheel_slotOf {e} (h : (distHead e d).Wheel) : SlotOf e (distHead e d) :=
  distHead_slotOf fun h0 => by rw [h0] at h; exact h

/-- `_timer_add` puts a detached timer in the list its interval selects. -/
theorem Off.timerAdd (hx : Off s x) (t) (hd : (s.tl x).initialTimeout = d) :
    At (timerAdd t x s) x (distHead (t + d) d) ∧ ((timerAdd t x s).tl x).expire = t + d := by
  subst hd
  constructor
  · unfold Timer.timerAdd timerDistTl
    simp only [setTl_tl_self]
    refine Off.at_timerAddList (s := s.setTl x _) ⟨hx.absent, by simpa using hx.unlinked⟩ fun h => ?_
    rw [setTl_tl_self]
    exact distHead_wheel_slotOf h
  · simp [Timer.timerAdd, timerDistTl, timerAddList_tl]

/-- `timer_add` is refused, changing no list, or adds the detached timer at `*ticks`. -/
theorem timerAddSafe_spec (x : α) (delta) :
    ((timerAddSafe x delta s).2 = -1 ∧ ∀ y, Same y s (timerAddSafe x delta s).1) ∨
    ((timerAddSafe x delta s).2 = 0 ∧ (s.tl x).linked = false ∧ (∀ y, y ≠ x → Same y s (timerAddSafe x delta s).1) ∧
      (Off s x → At (timerAddSafe x delta s).1 x (distHead (s.ticks + delta) delta) ∧
        ((timerAddSafe x delta s).1.tl x).expire = s.ticks + delta)) := by
  unfold timerAddSafe
  have hs : ∀ y, Same y s (s.setTl x fun tl => { tl with initialTimeout := delta }) :=
    fun y => same_setTl y x (fun _ => rfl) (fun _ => rfl)
  by_cases ha : (s.tl x).active
  · left
    simp [ha, Same.refl]
  · by_cases hl : (s.tl x).linked
    · left
      simp only [ha, hl, setTl_tl_self, if_true, Bool.false_eq_true, if_false, true_and]
      exact hs
    · right
      simp only [ha, hl, setTl_tl_self, Bool.false_eq_true, if_false, true_and]
      have hs' := fun y => (hs y).trans
        (same_setTl y x (f := fun tl => { tl with active := true }) (fun _ => rfl) (fun _ => rfl))
      exact ⟨fun y hy => (hs' y).trans (same_timerAdd hy), fun hoff => (hoff.same (hs' x)).timerAdd _ (by simp)⟩

/-- `timer_del` changes no list or detaches the timer. -/
theorem timerDelSafe_spec {inTimer inSlowTimer ret}
    (h : timerDelSafe inTimer inSlowTimer x s = some (s', ret)) : s' = s ∨ s' = timerRmList x s := by
  unfold timerDelSafe at h
  split_ifs at h <;> simp_all

/-- The loop body of `timer_list_expire` detaches the timer, puts it on a slow list, or adds
it again. -/
theorem timerListExpireStep_own : Off (timerListExpireStep t x ret s) x ∨
      ∃ g, At (timerListExpireStep t x ret s) x g ∧ (g.Wheel → ret ≠ 0) := by
  have hoff := off_timerRmList x s
  unfold timerListExpireStep
  simp only
  split_ifs with hf hr hp
  · exact .inl hoff
  · have hoff' := hoff.same (same_setTl x x (f := fun tl => { tl with initialTimeout := ret })
      (fun _ => rfl) (fun _ => rfl))
    exact .inr ⟨_, (hoff'.timerAdd t rfl).1, fun _ => hr⟩
  · exact .inr ⟨_, (Off.timerAdd hoff t rfl).1, fun _ => hr⟩
  · have hoff' := hoff.same (same_setTl x x
      (f := fun tl => { tl with onSlowList := true, slowIdx := (timerRmList x s).tIdx })
      (fun _ => rfl) (fun _ => rfl))
    exact .inr ⟨_, hoff'.at_timerAddList fun h => h.elim, fun h => h.elim⟩

theorem same_timerListExpireStep (hxy : x ≠ y) : Same x s (timerListExpireStep t y ret s) := by
  have hrm := same_timerRmList hxy s
  unfold timerListExpireStep
  simp only
  split_ifs
  · exact hrm
  · exact (hrm.trans (same_setTl_ne hxy)).trans (same_timerAdd hxy)
  · exact hrm.trans (same_timerAdd hxy)
  · exact (hrm.trans (same_setTl_ne hxy)).trans (same_timerAddList hxy)

/-! ## Runs -/

/-- An operation other than `timer_run` leaves every timer alone that it does not delete, add
again or run the handler of. -/
theorem TimerOp.same_or_own (op : TimerOp α) (hop : op ≠ .run) (x : α) : Same x s (op.step s) ∨
    (op.Deletes x ∧ Off (op.step s) x) ∨
    (∃ delta, op = .add x delta ∧ (timerAddSafe x delta s).2 = 0 ∧ (s.tl x).linked = false) ∨
    (∃ ret, op = .fire x ret ∧ x ∈ s.lst .expired ∧ op.step s = timerListExpireStep s.ticks x ret s) := by
  cases op with
  | add y delta =>
    rcases timerAddSafe_spec y delta with ⟨-, h⟩ | ⟨hr, hl, h, -⟩
    · exact .inl (h x)
    · by_cases hxy : x = y
      · subst hxy
        exact .inr (.inr (.inl ⟨delta, rfl, hr, hl⟩))
      · exact .inl (h x hxy)
  | del i j y =>
    simp only [TimerOp.step]
    split
    · rename_i s' ret hd
      rcases timerDelSafe_spec hd with rfl | rfl
      · exact .inl (.refl x s')
      · by_cases hxy : x = y
        · subst hxy
          exact .inr (.inl ⟨rfl, off_timerRmList x s⟩)
        · exact .inl (same_timerRmList hxy s)
    · exact .inl (.refl x s)
  | reinit y =>
    exact .inl (same_setTl x y (f := fun tl => { tl with onSlowList := false, active := false })
      (fun _ => rfl) (fun _ => rfl))
  | fire y ret =>
    simp only [TimerOp.step]
    split_ifs with hhead
    · by_cases hxy : x = y
      · subst hxy
        exact .inr (.inr (.inr ⟨ret, rfl, mem_of_mem_head? hhead, rfl⟩))
      · exact .inl (same_timerListExpireStep hxy)
    · exact .inl (.refl x s)
  | clock => exact .inl ⟨fun _ => rfl, rfl, rfl⟩
  | run => exact absurd rfl hop

theorem At.step_run (hx : At s x g) : At (TimerOp.run.step s) x (advance (s.prevTicks + 1) g (s.tl x).expire) :=
  At.run (s := { s with prevTicks := s.prevTicks + 1 }) ⟨hx.placed, hx.linked, hx.slot⟩ _

theorem Off.step_run (hx : Off s x) : Off (TimerOp.run.step s) x :=
  .run (s := { s with prevTicks := s.prevTicks + 1 }) ⟨hx.absent, hx.unlinked⟩ _

/-- Every operation keeps the lists well formed. -/
theorem Ok.step (hs : Ok s) (op : TimerOp α) : Ok (op.step s) := by
  intro x
  by_cases hop : op = .run
  · subst hop
    exact (hs x).imp .step_run fun ⟨g, hg⟩ => ⟨_, hg.step_run⟩
  rcases op.same_or_own hop x with h | ⟨-, h⟩ | ⟨delta, rfl, h0, hl⟩ | ⟨ret, rfl, hm, h⟩
  · exact (hs x).imp (·.same h) fun ⟨g, hg⟩ => ⟨g, hg.same h⟩
  · exact .inl h
  · rcases timerAddSafe_spec x delta with ⟨h1, -⟩ | ⟨-, -, -, h⟩
    · rw [h0] at h1; exact absurd h1 (by decide)
    · exact .inr ⟨_, (h (hs.off_of_unlinked hl)).1⟩
  · rw [h]
    exact (timerListExpireStep_own).imp_right fun ⟨g, hg, _⟩ => ⟨g, hg⟩

theorem ok_initTimer (fast : α → Bool) (t : Ticks) : Ok (initTimer fast t) := fun _ => .inl ⟨fun _ => rfl, rfl⟩

theorem Ok.runOps (hs : Ok s) (ops : List (TimerOp α)) : Ok (runOps ops s) := by
  induction ops generalizing s with
  | nil => exact hs
  | cons op ops ih => exact ih (hs.step op)

/-- The timer is in its slot of a wheel, `n` calls of `timer_run` from the expired list. -/
def Pending (s : TimerState α) (x : α) (n : Nat) : Prop :=
  ∃ g, At s x g ∧ g.Wheel ∧ runsLeft s.prevTicks g (s.tl x).expire = n

/-- The timer has left the wheels. -/
def Spent (s : TimerState α) (x : α) : Prop := Off s x ∨ ∃ g, At s x g ∧ ¬ g.Wheel

theorem Pending.step_run (h : Pending s x n) :
    (n = 1 ∧ At (TimerOp.run.step s) x .expired) ∨ (∃ k, n = k + 1 ∧ Pending (TimerOp.run.step s) x k) := by
  obtain ⟨g, hg, hw, rfl⟩ := h
  have hrun := hg.step_run
  rcases advance_spec s.prevTicks (hg.slot hw) with ⟨h1, ha⟩ | ⟨h1, hslot⟩
  · rw [ha] at hrun
    exact .inl ⟨h1, hrun⟩
  · refine .inr ⟨_, h1.symm, _, hrun, hslot.wheel, ?_⟩
    simp only [TimerOp.step, timerRun_prevTicks, timerRun_expire]

theorem timerListExpireStep_prevTicks :
    (timerListExpireStep t x ret s).prevTicks = s.prevTicks := by
  unfold timerListExpireStep
  simp only
  split_ifs <;> rfl

theorem timerAddSafe_prevTicks (x : α) (delta : Ticks) (s) : (timerAddSafe x delta s).1.prevTicks = s.prevTicks := by
  unfold timerAddSafe
  simp only
  split_ifs <;> rfl

/-- Only `timer_run` advances `prev_ticks`. -/
theorem TimerOp.step_prevTicks (op : TimerOp α) :
    (op.step s).prevTicks = if op = .run then s.prevTicks + 1 else s.prevTicks := by
  cases op with
  | add x delta => exact timerAddSafe_prevTicks x delta s
  | del i j x =>
    simp only [TimerOp.step, reduceCtorEq, if_false]
    split
    · rename_i s' ret hd
      rcases timerDelSafe_spec hd with rfl | rfl <;> rfl
    · rfl
  | reinit x | clock => rfl
  | fire x ret =>
    simp only [TimerOp.step, reduceCtorEq, if_false]
    split_ifs
    · exact timerListExpireStep_prevTicks
    · rfl
  | run => simp [TimerOp.step]

theorem runOps_prevTicks {ops} : (runOps ops s).prevTicks = s.prevTicks + BitVec.ofNat 32 (ops.count .run) := by
  induction ops generalizing s with
  | nil => simp
  | cons op ops ih =>
    rw [runOps_cons, ih, op.step_prevTicks, count_cons]
    by_cases h : op = .run
    · subst h
      rw [if_pos rfl, if_pos (by simp), ofNat_add, add_assoc, add_comm 1]
      rfl
    · simp [h]

/-- An operation other than `timer_run` that does not delete a pending timer leaves it pending. -/
theorem Pending.step (h : Pending s x n) {op : TimerOp α} (hop : op ≠ .run) (hdel : ¬ op.Deletes x) :
    Pending (op.step s) x n ∧ ((op.step s).tl x).expire = (s.tl x).expire := by
  obtain ⟨g, hg, hw, hn⟩ := h
  rcases op.same_or_own hop x with h | ⟨h, -⟩ | ⟨delta, -, -, hl⟩ | ⟨ret, -, hm, -⟩
  · refine ⟨⟨g, hg.same h, hw, ?_⟩, h.expire⟩
    rw [op.step_prevTicks, if_neg hop, h.expire, hn]
  · exact absurd h hdel
  · rw [hg.linked] at hl
    exact absurd hl (by decide)
  · obtain rfl := hg.placed.mem_iff.1 hm
    exact hw.elim

variable {ops : List (TimerOp α)}

/-- A pending timer stays pending through fewer calls of `timer_run` than it needs. -/
theorem Pending.runOps (hdel : ∀ op ∈ ops, ¬ op.Deletes x) {m} (hm : 0 < m) (h : Pending s x (ops.count .run + m)) :
    Pending (runOps ops s) x m ∧ ((runOps ops s).tl x).expire = (s.tl x).expire := by
  induction ops generalizing s with
  | nil => exact ⟨by simpa using h, rfl⟩
  | cons op ops ih =>
    have hdel' := fun o ho => hdel o (mem_cons_of_mem op ho)
    rw [runOps_cons]
    by_cases hop : op = .run
    · subst hop
      rcases h.step_run with ⟨h1, -⟩ | ⟨k, hk, hp⟩
      · rw [count_cons_self] at h1
        omega
      · rw [count_cons_self] at hk
        obtain rfl : k = ops.count .run + m := by omega
        obtain ⟨h1, h2⟩ := ih hdel' hp
        refine ⟨h1, h2.trans ?_⟩
        exact timerRun_expire
    · obtain ⟨hp, he⟩ := h.step hop (hdel op (mem_cons_self ..))
      rw [count_cons_of_ne hop] at hp
      obtain ⟨h1, h2⟩ := ih hdel' hp
      exact ⟨h1, h2.trans he⟩

/-- A timer that has left the wheels is in none of them until it is added again. -/
theorem Spent.step (h : Spent s x) {op : TimerOp α} (hadd : ¬ op.Adds x) : Spent (op.step s) x := by
  by_cases hop : op = .run
  · subst hop
    refine h.imp .step_run fun ⟨g, hg, hw⟩ => ⟨g, ?_, hw⟩
    have := hg.step_run
    cases g <;> first | exact absurd trivial hw | exact this
  rcases op.same_or_own hop x with hsame | ⟨-, hoff⟩ | ⟨delta, rfl, -, -⟩ | ⟨ret, rfl, -, hstep⟩
  · exact h.imp (·.same hsame) fun ⟨g, hg, hw⟩ => ⟨g, hg.same hsame, hw⟩
  · exact .inl hoff
  · exact absurd rfl hadd
  · rw [hstep]
    refine (timerListExpireStep_own).imp_right fun ⟨g, hg, hr⟩ => ⟨g, hg, fun hw => ?_⟩
    exact hadd ⟨rfl, hr hw⟩

theorem Spent.runOps (hadd : ∀ op ∈ ops, ¬ op.Adds x) (h : Spent s x) : Spent (runOps ops s) x := by
  induction ops generalizing s with
  | nil => exact h
  | cons op ops ih =>
    exact ih (fun o ho => hadd o (mem_cons_of_mem op ho)) (h.step (hadd op (mem_cons_self ..)))

theorem Spent.not_mem (h : Spent s x) (hg : g.Wheel) : x ∉ s.lst g := by
  rcases h with h | ⟨k, hk, hw⟩
  · exact h.absent.not_mem g
  · intro hm
    rw [hk.placed.mem_iff] at hm
    exact hw (hm ▸ hg)

/-- A timer added while `timer_run` has been called up to `prev_ticks` is pending, and how
many calls it needs is read off its slot. -/
theorem timerAddSafe_pending (hs : Ok s) {delta} (hd : delta ≠ 0)
    (h0 : (timerAddSafe x delta s).2 = 0) : Pending (timerAddSafe x delta s).1 x
      (runsLeft s.prevTicks (distHead (s.ticks + delta) delta) (s.ticks + delta)) ∧
        ((timerAddSafe x delta s).1.tl x).expire = s.ticks + delta := by
  rcases timerAddSafe_spec x delta with ⟨h1, -⟩ | ⟨-, hl, -, h⟩
  · rw [h0] at h1
    exact absurd h1 (by decide)
  · obtain ⟨hat, he⟩ := h (hs.off_of_unlinked hl)
    refine ⟨⟨_, hat, (distHead_slotOf hd).wheel, ?_⟩, he⟩
    rw [timerAddSafe_prevTicks, he]

/-- A pending timer expires with the last of the calls it needs, and is in no wheel after
that until it is added again. -/
theorem Pending.expires (hdel : ∀ op ∈ ops, ¬ op.Deletes x) (h : Pending s x (ops.count .run + 1)) :
    Placed (TimerOp.run.step (Timer.runOps ops s)).lst x .expired ∧
    ∀ later : List (TimerOp α), (∀ op ∈ later, ¬ op.Adds x) → ∀ g : TimerHead, g.Wheel →
      x ∉ (Timer.runOps later (TimerOp.run.step (Timer.runOps ops s))).lst g := by
  obtain ⟨hp, -⟩ := Pending.runOps hdel one_pos h
  have hx : At (TimerOp.run.step (Timer.runOps ops s)) x .expired := by
    rcases hp.step_run with ⟨-, hx⟩ | ⟨k, hk, g, hg, hw, hn⟩
    · exact hx
    · obtain rfl : k = 0 := by omega
      exact absurd hn (ne_of_gt (runsLeft_pos hw))
  exact ⟨hx.placed, fun later hadd g hg =>
    (Spent.runOps hadd (.inr ⟨_, hx, id⟩)).not_mem hg⟩

/-- A timer added at the current tick with interval `delta`, and not deleted, is in exactly
one list of the wheels until the call of `timer_run` for the tick `expire`. That call moves
it to the expired list, and no later call does unless the timer is added again. -/
theorem timer_expires_at_its_tick (fast : α → Bool) (t₀ : Ticks)
    (before after : List (TimerOp α)) (x : α) (delta : Ticks) (s : TimerState α)
    (hs : s = runOps before (initTimer fast t₀)) (hnow : s.prevTicks = s.ticks)
    (hd : delta ≠ 0) (hadd : (timerAddSafe x delta s).2 = 0)
    (hdel : ∀ op ∈ after, ¬ op.Deletes x) :
    let s' := runOps after (timerAddSafe x delta s).1
    let expire := s.ticks + delta
    (after.count .run < delta.toNat →
      (s'.tl x).expire = expire ∧ ∃ g, g.Wheel ∧ Placed s'.lst x g) ∧
    (after.count .run + 1 = delta.toNat →
      s'.prevTicks + 1 = expire ∧
      Placed (TimerOp.run.step s').lst x .expired ∧
      ∀ later : List (TimerOp α), (∀ op ∈ later, ¬ op.Adds x) → ∀ g : TimerHead, g.Wheel →
        x ∉ (runOps later (TimerOp.run.step s')).lst g) := by
  have hok : Ok s := hs ▸ (ok_initTimer fast t₀).runOps before
  obtain ⟨hpend, he⟩ := timerAddSafe_pending hok hd hadd
  rw [hnow, runsLeft_distHead _ _ hd] at hpend
  refine ⟨fun hlt => ?_, fun hlast => ⟨?_, ?_⟩⟩
  · obtain ⟨m, hm⟩ := Nat.exists_eq_add_of_lt hlt
    rw [hm, Nat.add_assoc] at hpend
    obtain ⟨⟨g, hg, hw, -⟩, he'⟩ := Pending.runOps hdel (Nat.succ_pos m) hpend
    exact ⟨he'.trans he, g, hw, hg.placed⟩
  · rw [runOps_prevTicks, timerAddSafe_prevTicks, hnow, add_assoc]
    have hlt := delta.isLt
    have : BitVec.ofNat 32 (after.count .run) + 1 = delta := by
      rw [← toNat_inj, toNat_succ, toNat_ofNat]
      omega
    rw [this]
  · rw [← hlast] at hpend
    exact Pending.expires hdel hpend

/-- Two calls across the wrap of the counter leave the timer one call from expiring. -/
theorem timer_expires_after_wrap :
    (timerAddSafe true 3 (initTimer (fun _ => true) 4294967294#32)).2 = 0 ∧
    Placed (TimerOp.run.step (runOps [.clock, .run, .clock, .run]
      (timerAddSafe true 3 (initTimer (fun _ => true) 4294967294#32)).1)).lst true .expired :=
  ⟨by decide, ((timer_expires_at_its_tick (fun _ => true) 4294967294#32 []
    [.clock, .run, .clock, .run] true 3 _ rfl rfl (by decide) (by decide)
    (by simp [TimerOp.Deletes])).2 (by decide)).2.1⟩

end SipRouter.Timer
