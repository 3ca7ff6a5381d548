import SipRouter.Timer.Wheel
import Mathlib.Data.List.Induction

/-!
# The timers of a retransmission buffer (`modules/tm/timer.h`, `timer.c`)

One timer of a buffer serves two deadlines: `fr_expire` for the final response, and
`retr_expire` for the next retransmission. A transaction has an end of life, and four
operations set `fr_expire` with it in mind.
-/

namespace SipRouter.Tm.Deadlines

open Timer List BitVec

/-- What the timers read of a `retr_buf`: whether it is a request, `t_active`, four of the flags,
the deadlines, and the interval in `timer.data`. -/
structure RetrBuf where
  isRequest : Bool
  active : Bool
  t2 : Bool
  retrDisabled : Bool
  frInv : Bool
  delTimer : Bool
  retrExpire : Ticks
  frExpire : Ticks
  data : Ticks

/-- What they read of a `cell`, with the requests of its branches. -/
structure Lifetime where
  frTimeout : Ticks
  frInvTimeout : Ticks
  endOfLife : Ticks
  branches : List RetrBuf

/-- `(s_ticks_t)(b-a)<0`. -/
def later (a b : Ticks) : Bool := (b - a).slt 0

/-- A deadline of a request is not behind the end of life. -/
def RetrBuf.capped (rb : RetrBuf) (eol expire : Ticks) : Ticks :=
  if rb.isRequest && later expire eol then eol else expire

/-- `_set_fr_retr`; the last argument says that `timer_add` succeeds. `fr_expire` is set if it is 0. -/
def setFrRetr (t : Lifetime) (now retr : Ticks) (added : Bool) (rb : RetrBuf) : RetrBuf :=
  let timeout := if rb.isRequest && later (now + t.frTimeout) t.endOfLife then
      if later now t.endOfLife || t.endOfLife = now then 1 else t.endOfLife - now
    else t.frTimeout
  { rb with
    data := 2 * retr
    retrExpire := now + retr
    retrDisabled := rb.retrDisabled || retr = BitVec.allOnes 32
    frExpire := if rb.frExpire = 0 then now + timeout else rb.frExpire
    active := rb.active || !rb.delTimer && added }

/-- `restart_rb_fr`. -/
def restartRbFr (t : Lifetime) (now newVal : Ticks) (rb : RetrBuf) : RetrBuf :=
  { rb with frExpire := rb.capped t.endOfLife (now + newVal) }

/-- `change_fr`. -/
def changeFr (now frInv fr : Ticks) (t : Lifetime) : Lifetime :=
  { t with
    frInvTimeout := if frInv ≠ 0 then frInv else t.frInvTimeout
    frTimeout := if fr ≠ 0 then fr else t.frTimeout
    branches := t.branches.map fun rb =>
      if rb.active then
        if rb.frInv && frInv ≠ 0 then { rb with frExpire := now + frInv }
        else if fr ≠ 0 then { rb with frExpire := rb.capped t.endOfLife (now + fr) }
        else rb
      else rb }

/-- `change_end_of_life`. -/
def changeEndOfLife (now : Ticks) (adj : Bool) (eol : Ticks) (t : Lifetime) : Lifetime :=
  { t with
    endOfLife := now + eol
    branches := t.branches.map fun rb => if adj && rb.active then
      { rb with frExpire := rb.capped (now + eol) rb.frExpire } else rb }

/-- The operations, each at its time; the flags are set and taken back elsewhere. -/
inductive FrOp where
  | set (i : Nat) (now retr : Ticks) (added : Bool)
  | restart (i : Nat) (now newVal : Ticks)
  | changeFr (now frInv fr : Ticks)
  | changeEndOfLife (now : Ticks) (adj : Bool) (eol : Ticks)
  | flags (i : Nat) (active frInv delTimer : Bool)

def FrOp.step (t : Lifetime) : FrOp → Lifetime
  | .set i now retr added => { t with branches := t.branches.modify i (setFrRetr t now retr added) }
  | .restart i now newVal => { t with branches := t.branches.modify i (restartRbFr t now newVal) }
  | .changeFr now frInv fr => Deadlines.changeFr now frInv fr t
  | .changeEndOfLife now adj eol => Deadlines.changeEndOfLife now adj eol t
  | .flags i active frInv delTimer =>
    { t with
      branches := t.branches.modify i fun rb => { rb with active := active, frInv := frInv, delTimer := delTimer } }

/-- Where an operation does not look at the end of life: a timer that is started behind it, the
timeout of an `INVITE` that has got a reply, and branches that are left as they are when the end of
life moves. -/
def FrOp.Capped (t : Lifetime) : FrOp → Prop
  | .set _ now _ _ => later now t.endOfLife = false ∧ t.endOfLife ≠ now
  | .changeFr now frInv _ =>
    ∀ rb ∈ t.branches, rb.isRequest → rb.active → rb.frInv → frInv = 0 ∨
      later (now + frInv) t.endOfLife = false
  | .changeEndOfLife now adj eol =>
    ∀ rb ∈ t.branches, rb.isRequest → rb.frExpire ≠ 0 → (adj && rb.active) = false →
      later rb.frExpire (now + eol) = false
  | _ => True

/-- The final response timer of a request, once it is started, runs out within the lifetime. -/
def RetrBuf.InLife (eol : Ticks) (rb : RetrBuf) : Prop :=
  rb.isRequest → rb.frExpire ≠ 0 → later rb.frExpire eol = false

theorem later_self {a} : later a a = false := by
  rw [later, sub_self]
  rfl

variable {rb : RetrBuf} {t : Lifetime}

theorem later_capped (h : rb.isRequest) {eol expire} : later (rb.capped eol expire) eol = false := by
  unfold RetrBuf.capped
  split_ifs with hl
  · exact later_self
  · simpa [h] using hl

theorem inLife_setFrRetr {now} (h : later now t.endOfLife = false ∧ t.endOfLife ≠ now) {retr added}
    (hrb : rb.InLife t.endOfLife) : (setFrRetr t now retr added rb).InLife t.endOfLife := by
  intro hreq hne
  simp only [setFrRetr] at hreq hne ⊢
  by_cases hzero : rb.frExpire = 0
  · rw [if_pos hzero]
    simp only [hreq, h.1, h.2, Bool.true_and, decide_false, Bool.or_self, Bool.false_eq_true, if_false]
    split_ifs with hl
    · rw [add_comm, sub_add_cancel]
      exact later_self
    · simpa using hl
  · rw [if_neg hzero]
    exact hrb hreq hzero

theorem FrOp.step_inLife (h : ∀ rb ∈ t.branches, rb.InLife t.endOfLife) {op : FrOp} (hop : op.Capped t) :
    ∀ rb ∈ (op.step t).branches, rb.InLife (op.step t).endOfLife := by
  have hmodify : ∀ {i : Nat} {f : RetrBuf → RetrBuf}, (∀ rb, rb.InLife t.endOfLife → (f rb).InLife t.endOfLife) →
      ∀ rb ∈ t.branches.modify i f, rb.InLife t.endOfLife := by
    intro i f hf rb hrb
    obtain ⟨j, hj⟩ := mem_iff_getElem?.1 hrb
    rw [getElem?_modify] at hj
    obtain ⟨rb', hrb', rfl⟩ := Option.map_eq_some_iff.1 hj
    have hmem := h rb' (mem_of_getElem? hrb')
    split_ifs
    · exact hf rb' hmem
    · exact hmem
  cases op with
  | set i now retr added => exact hmodify fun rb hrb => inLife_setFrRetr hop hrb
  | restart i now newVal => exact hmodify fun rb _ hreq _ => later_capped hreq ..
  | flags i active frInv delTimer => exact hmodify fun rb hrb => hrb
  | changeFr now frInv fr =>
    intro rb hrb
    obtain ⟨rb, hmem, rfl⟩ := mem_map.1 hrb
    have hold := h rb hmem
    split_ifs with hactive hinv hfr
    · intro hreq _
      simp only [Bool.and_eq_true, decide_eq_true_eq] at hinv
      exact (hop rb hmem hreq hactive hinv.1).resolve_left hinv.2
    · exact fun hreq _ => later_capped hreq ..
    · exact hold
    · exact hold
  | changeEndOfLife now adj eol =>
    intro rb hrb
    obtain ⟨rb, hmem, rfl⟩ := mem_map.1 hrb
    split_ifs with hadj
    · exact fun hreq _ => later_capped hreq ..
    · exact fun hreq hne => hop rb hmem hreq hne (by simpa using hadj)

def frRun (t : Lifetime) (ops : List FrOp) : Lifetime := ops.foldl FrOp.step t

def newBranch : RetrBuf := ⟨true, false, false, false, false, false, 0, 0, 0⟩

def oneBranch : Lifetime := ⟨30, 120, 100, [newBranch]⟩

/-- The timeout of an `INVITE` is changed after a reply. -/
theorem change_fr_outlives :
    ∃ rb ∈ (frRun oneBranch [.set 0 1 5 true, .flags 0 true true false,
      .changeFr 2 120 0]).branches,
    rb.isRequest = true ∧ rb.frExpire = 122 ∧ later rb.frExpire (100 : Ticks) = true := by
  refine ⟨_, mem_singleton_self _, ?_⟩
  decide

/-- In a run whose operations all look at the end of life, no final response timer of a request runs out behind it. -/
theorem fr_within_lifetime (t : Lifetime) (hfresh : ∀ rb ∈ t.branches, rb.frExpire = 0) (ops : List FrOp)
    (hops : ∀ start op rest, ops = start ++ op :: rest → op.Capped (frRun t start)) :
    ∀ rb ∈ (frRun t ops).branches, rb.isRequest → rb.frExpire ≠ 0 →
      later rb.frExpire (frRun t ops).endOfLife = false := by
  induction ops using List.reverseRecOn with
  | nil => exact fun rb hrb _ hne => absurd (hfresh rb hrb) hne
  | append_singleton ops op ih =>
    have hop := hops ops op [] rfl
    rw [frRun, foldl_append]
    exact FrOp.step_inLife (ih fun start op' rest heq => hops start op' (rest ++ [op]) (by rw [heq]; simp)) hop

/-- A timer is started, its timeout is raised beyond the end of life, and the end of life comes nearer. -/
def raisedTimeout : List FrOp := [.set 0 1 5 true, .changeFr 3 0 99, .changeEndOfLife 4 true 20]

/-- Both changes cut the deadline to the end of life at that time. -/
theorem fr_within_lifetime_raised :
    raisedTimeout.inits.map (fun ops => (frRun oneBranch ops).branches.map (·.frExpire)) = [[0], [31], [100], [24]] ∧
      ∀ rb ∈ (frRun oneBranch raisedTimeout).branches,
        rb.isRequest → rb.frExpire ≠ 0 → later rb.frExpire (24 : Ticks) = false := by
  refine ⟨by decide, fr_within_lifetime oneBranch (by decide) raisedTimeout fun start op rest heq => ?_⟩
  rcases start with _ | ⟨_, _ | ⟨_, _ | ⟨_, start⟩⟩⟩ <;>
    simp only [raisedTimeout, nil_append, List.cons_append, cons.injEq, reduceCtorEq, and_false,
      nil_eq_append_iff] at heq
  · obtain ⟨rfl, -⟩ := heq
    exact ⟨by decide, by decide⟩
  · obtain ⟨rfl, rfl, -⟩ := heq
    exact show ∀ rb ∈ _, _ from by decide
  · obtain ⟨rfl, rfl, rfl, -⟩ := heq
    exact show ∀ rb ∈ _, _ from by decide

/-! ## Retransmissions -/

/-- `retr_interval` and `new_retr_interval`, from what is in `timer.data`. -/
def RetrBuf.intervals (t2 : Ticks) (rb : RetrBuf) : Ticks × Ticks :=
  if rb.t2 || t2 < rb.data then (t2, t2) else (rb.data, rb.data <<< 1)

/-- `retr_buf_handler`, with its answer, the next interval of the timer; `sent` says that the buffer
could be sent again. -/
def retrBufHandler (t2 now : Ticks) (sent : Bool) (rb : RetrBuf) : RetrBuf × Ticks :=
  let frRemainder := rb.frExpire - now
  if rb.delTimer || frRemainder.sle 0 then ({ rb with active := false }, 0)
  else if (rb.retrExpire - now).sle 0 then
    if rb.retrDisabled then (rb, frRemainder)
    else
      let retrRemainder := (if sent then 0 else BitVec.allOnes 32) ||| (rb.intervals t2).1
      ({ rb with retrExpire := now + (rb.intervals t2).1, data := (rb.intervals t2).2 },
        if retrRemainder < frRemainder then retrRemainder else frRemainder)
  else (rb, if rb.retrExpire - now < frRemainder then rb.retrExpire - now else frRemainder)

/-- The handler sends the buffer again. -/
def RetrBuf.retransmits (rb : RetrBuf) (now : Ticks) : Bool :=
  !rb.delTimer && !(rb.frExpire - now).sle 0 && (rb.retrExpire - now).sle 0 && !rb.retrDisabled

/-- A buffer, how often it was sent again, and when the current interval began. -/
structure Retr where
  rb : RetrBuf
  count : Nat
  last : Ticks

/-- The handler runs, `switch_rb_retr_to_t2`, or others set a flag or `fr_expire`. -/
inductive RetrOp where
  | handler (now : Ticks) (sent : Bool)
  | switchT2 (now : Ticks)
  | set (retrDisabled delTimer : Bool) (frExpire : Ticks)

def RetrOp.step (t2 : Ticks) (s : Retr) : RetrOp → Retr
  | .handler now sent =>
    if s.rb.retransmits now then ⟨(retrBufHandler t2 now sent s.rb).1, s.count + 1, now⟩
    else { s with rb := (retrBufHandler t2 now sent s.rb).1 }
  | .switchT2 now => ⟨{ s.rb with t2 := true, retrExpire := now + t2 }, s.count, now⟩
  | .set retrDisabled delTimer frExpire =>
    { s with rb := { s.rb with retrDisabled := retrDisabled, delTimer := delTimer, frExpire := frExpire } }

/-- The runs of a buffer that was started. -/
def retrRun (t : Lifetime) (now : Ticks) (t1 t2 : BitVec 16) (added : Bool) (rb : RetrBuf)
    (ops : List RetrOp) : Retr :=
  ops.foldl (RetrOp.step (t2.setWidth 32)) ⟨setFrRetr t now (t1.setWidth 32) added rb, 0, now⟩

/-- The interval after some retransmissions. -/
def interval (t1 t2 : BitVec 16) (s : Retr) : Nat :=
  if s.rb.t2 then t2.toNat else if s.count = 0 then t1.toNat
    else min (2 ^ s.count * t1.toNat) t2.toNat

/-- What `retr_expire` and `timer.data` are. -/
structure Retr.Scheduled (t1 t2 : BitVec 16) (s : Retr) : Prop where
  expire : s.rb.retrExpire = s.last + BitVec.ofNat 32 (interval t1 t2 s)
  data : s.rb.t2 = false → min s.rb.data.toNat t2.toNat = min (2 ^ (s.count + 1) * t1.toNat) t2.toNat

section Schedule

variable {t1 t2 : BitVec 16} {s : Retr} {now : Ticks}

theorem toNat_setWidth (t : BitVec 16) : (t.setWidth 32).toNat = t.toNat := by
  have := t.isLt
  rw [BitVec.toNat_setWidth, Nat.mod_eq_of_lt (by omega)]

theorem retrBufHandler_fst (t2 now) (sent : Bool) (rb) : ∃ active, (retrBufHandler t2 now sent rb).1 =
      if rb.retransmits now then
        { rb with retrExpire := now + (rb.intervals t2).1, data := (rb.intervals t2).2 }
        else { rb with active := active } := by
  obtain ⟨_, active, _, dis, _, del, retr, fr, _⟩ := rb
  refine ⟨active && !(del || (fr - now).sle 0), ?_⟩
  cases del <;> cases hfr : (fr - now).sle 0 <;> cases hdue :
    (retr - now).sle 0 <;> cases dis <;> simp_all [retrBufHandler, RetrBuf.retransmits]

/-- The interval that begins with a retransmission, and the one after it. -/
theorem Retr.Scheduled.intervals (h : s.Scheduled t1 t2) :
    let i := s.rb.intervals (t2.setWidth 32)
    i.1.toNat = (if s.rb.t2 then t2.toNat else min (2 ^ (s.count + 1) * t1.toNat) t2.toNat) ∧
      (s.rb.t2 = false → min i.2.toNat t2.toNat = min (2 ^ (s.count + 2) * t1.toNat) t2.toNat) := by
  have hlt := t2.isLt
  have hdouble : 2 ^ (s.count + 2) * t1.toNat = 2 * (2 ^ (s.count + 1) * t1.toNat) := by ring
  cases hflag : s.rb.t2 with
  | true => exact ⟨by simp only [RetrBuf.intervals, hflag, Bool.true_or, if_true, toNat_setWidth], nofun⟩
  | false =>
    have hdata := h.data hflag
    simp only [RetrBuf.intervals, lt_def, toNat_setWidth, hflag, Bool.false_or, decide_eq_true_eq,
      Bool.false_eq_true, if_false]
    split_ifs with hcap
    · simp only [toNat_setWidth]
      omega
    · have hshift : (s.rb.data <<< 1).toNat = 2 * s.rb.data.toNat := by
        rw [toNat_shiftLeft, Nat.shiftLeft_eq]
        omega
      simp only [hshift]
      omega

theorem Retr.Scheduled.step (h : s.Scheduled t1 t2) (op : RetrOp) : (op.step (t2.setWidth 32) s).Scheduled t1 t2 := by
  cases op with
  | handler now sent =>
    obtain ⟨active, hfst⟩ := retrBufHandler_fst (t2.setWidth 32) now sent s.rb
    obtain ⟨hint, hdata⟩ := h.intervals
    simp only [RetrOp.step, hfst]
    split_ifs
    · refine ⟨?_, hdata⟩
      simp only [interval, Nat.add_eq_zero_iff, one_ne_zero, and_false, if_false, ← hint]
      simp
    · exact ⟨h.expire, h.data⟩
  | switchT2 now => exact ⟨by simp [RetrOp.step, interval], nofun⟩
  | set retrDisabled delTimer frExpire => exact ⟨h.expire, h.data⟩

/-- A timer that neither runs out nor is to be deleted is kept. -/
theorem Retr.Scheduled.kept (h : s.Scheduled t1 t2) (ht1 : 0 < t1.toNat) (ht2 : 0 < t2.toNat)
    (sent : Bool) (hdel : s.rb.delTimer = false)
    (hfr : (s.rb.frExpire - now).sle 0 = false) : (retrBufHandler (t2.setWidth 32) now sent s.rb).2 ≠ 0 := by
  have hne : ∀ d : Ticks, d.sle 0 = false → d ≠ 0 := fun d hd h0 => by simp [h0] at hd
  have hmin : ∀ d : Ticks, d ≠ 0 → (if d < s.rb.frExpire - now then d else s.rb.frExpire - now) ≠ 0 := fun d hd => by
    split_ifs
    · exact hd
    · exact hne _ hfr
  have hi : (s.rb.intervals (t2.setWidth 32)).1 ≠ 0 := fun h0 => by
    have hint := h.intervals.1
    have := Nat.mul_pos (Nat.two_pow_pos (s.count + 1)) ht1
    rw [h0] at hint
    split_ifs at hint <;> simp at hint <;> omega
  unfold retrBufHandler
  rw [if_neg (by rw [hdel, hfr]; decide)]
  by_cases hdue : (s.rb.retrExpire - now).sle 0
  · rw [if_pos hdue]
    by_cases hdis : s.rb.retrDisabled
    · rw [if_pos hdis]
      exact hne _ hfr
    · rw [if_neg hdis]
      exact hmin _ fun h0 => hi (or_eq_zero_iff.1 h0).2
  · rw [if_neg hdue]
    exact hmin _ (hne _ (by simpa using hdue))

theorem retrRun_scheduled (t : Lifetime) (now : Ticks) (t1 t2) (added : Bool) (hrb : rb.t2 = false) (ops) :
    (retrRun t now t1 t2 added rb ops).Scheduled t1 t2 := by
  induction ops using List.reverseRecOn with
  | nil =>
    have hlt := t1.isLt
    refine ⟨by simp [retrRun, setFrRetr, interval, hrb], fun _ => ?_⟩
    simp [retrRun, setFrRetr]
    omega
  | append_singleton ops op ih =>
    rw [retrRun, foldl_append]
    exact ih.step op

end Schedule

/-- `T1` is more than `T2`: the first retransmission waits for `T1`. -/
theorem first_waits_t1 : (retrRun oneBranch 0 2 1 true newBranch []).rb.retrExpire = 2 := by decide

/-- Every retransmission is scheduled by how many there were before it, and a timer with nothing against it is kept. -/
theorem retransmission_schedule (t : Lifetime) (start : Ticks) (t1 t2 : BitVec 16)
    (ht1 : 0 < t1.toNat) (ht2 : 0 < t2.toNat) (added : Bool) (rb : RetrBuf)
    (hrb : rb.t2 = false) (ops : List RetrOp) :
    let s := retrRun t start t1 t2 added rb ops
    s.rb.retrExpire = s.last + BitVec.ofNat 32 (interval t1 t2 s) ∧
      ∀ now sent, s.rb.delTimer = false → (s.rb.frExpire - now).sle 0 = false →
        (retrBufHandler (t2.setWidth 32) now sent s.rb).2 ≠ 0 := by
  have h := retrRun_scheduled t start t1 t2 added hrb ops
  exact ⟨h.expire, fun now sent => h.kept ht1 ht2 sent⟩

theorem retransmission_schedule_once :
    (retrRun oneBranch 4294967295 1 8 true newBranch [.handler 0 true]).rb.retrExpire = 2 :=
  (retransmission_schedule oneBranch 4294967295 1 8 (by decide) (by decide) true _ rfl [.handler 0 true]).1

end SipRouter.Tm.Deadlines
