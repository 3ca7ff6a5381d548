import SipRouter.Cfg.ChildCb
import SipRouter.Lib.Mutex
import SipRouter.Lib.Shares

/-!
# Delivery of configuration changes

A child executes the callbacks of all changes, once each and in order, and no element is
freed that a child still needs. That needs one condition: an element that nobody refers to
may be referred to again before the lock is taken that decides on freeing it, so it has to
be unused still when it is found to be the first one.
-/

namespace SipRouter.Cfg

open Function Lib List

/-! ## What holds of one process -/

/-- `CFG_LOCK` is held. -/
def Pc.crit : Pc → Bool
  | .readGlobal | .readLast | .updateUnlock | .check | .setFirst | .freeUnlock | .keepUnlock => true
  | .setGlobal _ | .setNext _ | .setLast _ | .installUnlock => true
  | _ => false

/-- No change is on its way into the list. -/
structure Quiet (s : CbList) : Prop where
  cbs : s.cbs = s.changes
  last : s.last = s.cbs.length

/-- A process that does not update. -/
structure Rests (p : Proc) (s : CbList) : Prop where
  ran : p.ran = s.cbs.take p.cur
  cur : p.cur ≤ s.last
  loc : ∀ b, p.loc = some b → b ≤ s.global ∧ p.cur = s.covers b

/-- A child that has read the block, and not the end of the list. -/
structure Reads (p : Proc) (s : CbList) : Prop where
  child : p.child = true
  ran : p.ran = s.cbs.take p.cur
  cur : p.cur ≤ s.last
  loc : p.loc = some s.global

/-- A child on its way to the end of the list as it was read, which has executed the first callbacks. -/
structure Updates (p : Proc) (s : CbList) (done : Nat) : Prop where
  child : p.child = true
  ran : p.ran = s.cbs.take done
  done : done ≤ p.cur
  cur : p.cur ≤ p.lastCb
  last : p.lastCb ≤ s.last
  loc : ∃ b, p.loc = some b ∧ b ≤ s.global ∧ p.lastCb = s.covers b

/-- The child goes from one element to the next. -/
structure Moves (p : Proc) (s : CbList) : Prop extends Updates p s p.prevCb where
  next : p.cur = p.prevCb + 1

/-- What holds where a process is. -/
def Proc.At (p : Proc) (s : CbList) : Prop :=
  match p.pc with
  | .idle | .writerLock _ | .inPlace _ | .installLock _ | .writerUnlock => Rests p s
  | .updateLock => p.child = true ∧ Rests p s
  | .readGlobal => p.child = true ∧ Rests p s ∧ Quiet s
  | .readLast => Reads p s ∧ Quiet s
  | .updateUnlock => Updates p s p.cur ∧ Quiet s
  | .loop => Updates p s p.cur
  | .inc | .dec | .freeLock => Moves p s
  | .check | .keepUnlock => Moves p s ∧ Quiet s
  | .setFirst => Moves p s ∧ Quiet s ∧ s.first = p.prevCb ∧ s.refcnt p.prevCb = 0
  | .freeUnlock => Moves p s ∧ Quiet s ∧ p.prevCb < s.first
  | .free => Moves p s ∧ p.prevCb < s.first
  | .execute => ∃ n, p.cur = n + 1 ∧ Updates p s n
  | .setGlobal _ | .installUnlock => Rests p s ∧ Quiet s
  | .setNext cbs => Rests p s ∧ s.last = s.cbs.length ∧ s.changes = s.cbs ++ cbs
  | .setLast cbs => Rests p s ∧ s.cbs = s.changes ∧ s.last + cbs.length = s.cbs.length
  | .fault => False

/-- What holds of the list. -/
structure CbList.Sound (s : CbList) : Prop where
  last : s.last ≤ s.cbs.length
  covers : s.covers s.global = s.changes.length
  quiet : s.locked = false → Quiet s
  freed : ∀ n, s.freed n = true → n < s.first

/-! ## What a step leaves -/

/-- The part of the list that was there is still there. -/
structure Grows (s s' : CbList) : Prop where
  cbs : ∀ n ≤ s.last, s'.cbs.take n = s.cbs.take n
  last : s.last ≤ s'.last
  global : s.global ≤ s'.global
  covers : ∀ b ≤ s.global, s'.covers b = s.covers b
  first : s.first ≤ s'.first

/-- Nothing that the lock protects was changed. -/
structure Same (s s' : CbList) : Prop where
  global : s'.global = s.global
  cbs : s'.cbs = s.cbs
  first : s'.first = s.first
  last : s'.last = s.last
  changes : s'.changes = s.changes
  covers : s'.covers = s.covers

section Frame

variable {p : Proc} {s s' : CbList}

theorem Same.grows (h : Same s s') : Grows s s' where
  cbs n _ := by rw [h.cbs]
  last := h.last.ge
  global := h.global.ge
  covers b _ := by rw [h.covers]
  first := h.first.ge

theorem Quiet.same (h : Quiet s) (hs : Same s s') : Quiet s' := by
  constructor
  · rw [hs.cbs, hs.changes, h.cbs]
  · rw [hs.last, hs.cbs, h.last]

theorem Rests.grows (h : Rests p s) (hg : Grows s s') : Rests p s' where
  ran := h.ran.trans (hg.cbs p.cur h.cur).symm
  cur := h.cur.trans hg.last
  loc b hb := by
    obtain ⟨hle, hcur⟩ := h.loc b hb
    exact ⟨hle.trans hg.global, hcur.trans (hg.covers b hle).symm⟩

theorem Updates.grows {done} (h : Updates p s done) (hg : Grows s s') : Updates p s' done where
  child := h.child
  ran := h.ran.trans (hg.cbs done (h.done.trans (h.cur.trans h.last))).symm
  done := h.done
  cur := h.cur
  last := h.last.trans hg.last
  loc := by
    obtain ⟨b, hb, hle, hcov⟩ := h.loc
    exact ⟨b, hb, hle.trans hg.global, hcov.trans (hg.covers b hle).symm⟩

theorem Moves.grows (h : Moves p s) (hg : Grows s s') : Moves p s' := ⟨h.toUpdates.grows hg, h.next⟩

theorem Rests.to (h : Rests p s) (hg : Grows s s') (pc : Pc) : Rests { p with pc := pc } s' :=
  ⟨(h.grows hg).ran, (h.grows hg).cur, (h.grows hg).loc⟩

theorem Updates.to {done} (h : Updates p s done) (hg : Grows s s') (pc : Pc) : Updates { p with pc := pc } s' done :=
  ⟨h.child, (h.grows hg).ran, h.done, h.cur, (h.grows hg).last, (h.grows hg).loc⟩

theorem Moves.to (h : Moves p s) (hg : Grows s s') (pc : Pc) : Moves { p with pc := pc } s' :=
  ⟨h.toUpdates.to hg pc, h.next⟩

theorem Moves.execute (h : Moves p s) (hg : Grows s s') :
    ({ p with pc := .execute } : Proc).At s' :=
  ⟨p.prevCb, h.next, h.toUpdates.to hg _⟩

/-- What holds where a process is still holds after a step of another one. -/
theorem Proc.At.other (h : p.At s) (hg : Grows s s') (hs : p.pc.crit = true → Same s s')
    (hz : p.pc = .setFirst → s'.refcnt p.prevCb = 0) : p.At s' := by
  unfold Proc.At at h ⊢
  cases hpc : p.pc <;> rw [hpc] at h hs hz <;> dsimp only at h ⊢
  case idle | writerLock | inPlace | installLock | writerUnlock | loop | inc | dec | freeLock => exact h.grows hg
  case updateLock => exact ⟨h.1, h.2.grows hg⟩
  case readGlobal => exact ⟨h.1, h.2.1.grows hg, h.2.2.same (hs rfl)⟩
  case readLast =>
    have hs := hs rfl
    refine ⟨⟨h.1.child, ?_, ?_, ?_⟩, h.2.same hs⟩
    · rw [hs.cbs, h.1.ran]
    · rw [hs.last]
      exact h.1.cur
    · rw [hs.global, h.1.loc]
  case updateUnlock | check | keepUnlock | setGlobal | installUnlock => exact ⟨h.1.grows hg, h.2.same (hs rfl)⟩
  case setFirst =>
    obtain ⟨hm, hq, hf, -⟩ := h
    exact ⟨hm.grows hg, hq.same (hs rfl), (hs rfl).first.trans hf, hz rfl⟩
  case freeUnlock => exact ⟨h.1.grows hg, h.2.1.same (hs rfl), h.2.2.trans_le hg.first⟩
  case free => exact ⟨h.1.grows hg, h.2.trans_le hg.first⟩
  case execute =>
    obtain ⟨n, hn, hu⟩ := h
    exact ⟨n, hn, hu.grows hg⟩
  case setNext cbs =>
    have hs := hs rfl
    refine ⟨h.1.grows hg, ?_, ?_⟩
    · rw [hs.last, hs.cbs, h.2.1]
    · rw [hs.changes, hs.cbs, h.2.2]
  case setLast cbs =>
    have hs := hs rfl
    refine ⟨h.1.grows hg, ?_, ?_⟩
    · rw [hs.changes, hs.cbs, h.2.1]
    · rw [hs.last, hs.cbs, h.2.2]

end Frame

/-! ## One step -/

variable {p' : Proc} {n : Nat}

section Step

variable {env : Env} {p : Proc} {s : CbList}

theorem childCb_inPlace (hd : ∀ x, (env.var x).declared = true) {x}
    (hx : (env.var x).atomic = true) : childCb env x = [] := by
  have h := hd x
  simp only [CfgDef.declared, hx, Bool.not_true, Bool.false_or, Bool.and_eq_true, Bool.not_eq_true'] at h
  simp [childCb, h.2.2]

/-- A definition that `cfg_declare` accepts needs no callback if it is changed in place. -/
def Pc.Declared (env : Env) : Pc → Prop
  | .inPlace x => childCb env x = []
  | .writerLock (.inPlace x) => childCb env x = []
  | _ => True

theorem step_same (hp : p.pc.Declared env) (hc : p.pc.crit = false) : Same s (p.step env s).2 := by
  unfold Proc.step
  cases hpc : p.pc <;> rw [hpc] at hc hp <;> dsimp only
  case inPlace x =>
    have hx : childCb env x = [] := hp
    exact ⟨rfl, rfl, rfl, rfl, by simp [hx], rfl⟩
  case updateLock | freeLock | writerLock | installLock =>
    split
    all_goals exact ⟨rfl, rfl, rfl, rfl, rfl, rfl⟩
  case loop =>
    split
    · exact ⟨rfl, rfl, rfl, rfl, rfl, rfl⟩
    · split <;> exact ⟨rfl, rfl, rfl, rfl, rfl, rfl⟩
  case execute => split <;> exact ⟨rfl, rfl, rfl, rfl, rfl, rfl⟩
  case idle | inc | dec | free | writerUnlock | fault => exact ⟨rfl, rfl, rfl, rfl, rfl, rfl⟩
  all_goals exact absurd hc (by simp [Pc.crit])

theorem step_grows (hs : s.Sound) (hp : p.At s) (hd : p.pc.Declared env) : Grows s (p.step env s).2 := by
  cases hc : p.pc.crit with
  | false => exact (step_same hd hc).grows
  | true =>
    unfold Proc.At at hp
    unfold Proc.step
    cases hpc : p.pc <;> rw [hpc] at hc hp <;> dsimp only at hp ⊢
    case readGlobal | readLast | updateUnlock | check | freeUnlock | keepUnlock | installUnlock =>
      exact ⟨fun _ _ => rfl, le_rfl, le_rfl, fun _ _ => rfl, le_rfl⟩
    case setFirst =>
      obtain ⟨hm, -, hf, -⟩ := hp
      have := hm.next
      exact ⟨fun _ _ => rfl, le_rfl, le_rfl, fun _ _ => rfl, by dsimp only; omega⟩
    case setGlobal cbs =>
      refine ⟨fun _ _ => rfl, le_rfl, Nat.le_succ _, fun b hb => ?_, le_rfl⟩
      exact update_of_ne (by omega) _ _
    case setNext cbs =>
      refine ⟨fun n hn => ?_, le_rfl, le_rfl, fun _ _ => rfl, le_rfl⟩
      have hlen : n ≤ (s.cbs.take s.last).length := by
        rw [length_take]
        have := hs.last
        omega
      rw [take_append_of_le_length hlen, take_take, min_eq_left hn]
    case setLast cbs => exact ⟨fun _ _ => rfl, Nat.le_add_right _ _, le_rfl, fun _ _ => rfl, le_rfl⟩
    all_goals exact absurd hc (by simp [Pc.crit])

/-- How a process goes on between two calls. -/
inductive Begins (env : Env) (p : Proc) (s : CbList) : Proc → Prop
  | waits (jobs : List Job) : Begins env p s { p with jobs := jobs }
  | writes (jobs : List Job) (job : Job) (w : Write) (hw : job.write env = some w) :
      Begins env p s { p with jobs := jobs, pc := .writerLock w }
  | updates (jobs : List Job) (hp : p.child = true) : Begins env p s { p with jobs := jobs, pc := .updateLock }

theorem begins {env p s} : Begins env p s (p.begin env s) := by
  unfold Proc.begin
  split
  · exact .waits p.jobs
  · next job jobs _ =>
    cases hw : job.write env with
    | some w => exact .writes jobs job w hw
    | none =>
      dsimp only
      split
      · next hj => exact .updates jobs hj.2.1
      · exact .waits jobs

theorem write_declared (hd : ∀ x, (env.var x).declared = true) {job : Job} {w} (hw : job.write env = some w) :
    (Pc.writerLock w).Declared env := by
  cases job with
  | update => simp [Job.write] at hw
  | setNow x fails =>
    simp only [Job.write, Option.some.injEq] at hw
    split_ifs at hw with hf hx
    · subst hw
      trivial
    · subst hw
      exact childCb_inPlace hd hx
    · subst hw
      trivial
  | commit xs fails =>
    simp only [Job.write] at hw
    split_ifs at hw with hnil hf
    all_goals
      cases hw
      trivial

theorem Begins.declared (h : Begins env p s p') (hd : ∀ x, (env.var x).declared = true)
    (hpc : p.pc = .idle) : p'.pc.Declared env := by
  cases h with
  | waits => exact hpc ▸ trivial
  | writes jobs job w hw => exact write_declared hd hw
  | updates => trivial

theorem Begins.rests (hb : Begins env p s p') (h : Rests p s) (hpc : p.pc = .idle) : p'.At s := by
  cases hb with
  | waits =>
    unfold Proc.At
    dsimp only
    rw [hpc]
    exact ⟨h.ran, h.cur, h.loc⟩
  | writes => exact ⟨h.ran, h.cur, h.loc⟩
  | updates _ hp => exact ⟨hp, h.ran, h.cur, h.loc⟩

theorem Pc.Declared.step (hd : ∀ x, (env.var x).declared = true) (hp : p.pc.Declared env) :
    (p.step env s).1.pc.Declared env := by
  have hp' := hp
  unfold Proc.step
  cases hpc : p.pc <;> rw [hpc] at hp <;> dsimp only
  case idle => exact (begins).declared hd hpc
  case writerLock w =>
    split
    · exact hp'
    · cases w <;> exact hp
  case updateLock | freeLock | installLock =>
    split
    · exact hp'
    · trivial
  case loop =>
    split
    · trivial
    · split <;> trivial
  case dec | check | setGlobal | execute => split <;> trivial
  case fault => exact hp'
  all_goals trivial

theorem Proc.At.step (hs : s.Sound) (hp : p.At s) (hd : p.pc.Declared env) (hc : stillUnused.own p s = true) :
    (p.step env s).1.At (p.step env s).2 := by
  have hp' := hp
  have hg := step_grows hs hp hd
  unfold Proc.At at hp
  unfold Proc.step at hg ⊢
  cases hpc : p.pc <;> rw [hpc] at hp hg <;> dsimp only at hp hg ⊢
  case idle => exact (begins).rests hp hpc
  case updateLock =>
    split
    · exact hp'
    · next hl =>
      rw [if_neg hl] at hg
      exact ⟨hp.1, hp.2.to hg _, (hs.quiet (by simpa using hl)).same ⟨rfl, rfl, rfl, rfl, rfl, rfl⟩⟩
  case readGlobal => exact ⟨⟨hp.1, hp.2.1.ran, hp.2.1.cur, rfl⟩, hp.2.2⟩
  case readLast =>
    obtain ⟨hr, hq⟩ := hp
    refine ⟨⟨hr.child, hr.ran, le_rfl, hr.cur, le_rfl, s.global, hr.loc, le_rfl, ?_⟩, hq⟩
    rw [hs.covers, ← hq.cbs, ← hq.last]
  case updateUnlock | installUnlock => exact hp.1.to hg _
  case loop =>
    split
    · next hcur =>
      obtain ⟨b, hb, hle, hcov⟩ := hp.loc
      refine ⟨hp.ran, hp.cur.trans hp.last, fun b' hb' => ?_⟩
      cases hb.symm.trans hb'
      exact ⟨hle, hcur.trans hcov⟩
    · next hcur =>
      have hlt : p.cur < s.cbs.length := by
        have := hp.cur
        have := hp.last
        have := hs.last
        omega
      rw [CbList.next, if_pos hlt]
      refine ⟨⟨hp.child, hp.ran, Nat.le_succ _, ?_, hp.last, hp.loc⟩, rfl⟩
      exact lt_of_le_of_ne hp.cur hcur
  case inc | inPlace x | writerUnlock => exact hp.to hg _
  case dec =>
    split
    · exact hp.to hg _
    · exact hp.execute hg
  case freeLock | installLock cbs =>
    split
    · exact hp'
    · next hl =>
      rw [if_neg hl] at hg
      exact ⟨hp.to hg _, (hs.quiet (by simpa using hl)).same ⟨rfl, rfl, rfl, rfl, rfl, rfl⟩⟩
  case check =>
    split
    · next hf =>
      refine ⟨hp.1.to hg _, hp.2, hf, ?_⟩
      simpa [stillUnused, hpc, hf] using hc
    · exact ⟨hp.1.to hg _, hp.2⟩
  case setFirst =>
    obtain ⟨hm, hq, hf, -⟩ := hp
    refine ⟨hm.to hg _, ⟨hq.cbs, hq.last⟩, ?_⟩
    rw [hm.next]
    exact Nat.lt_succ_self _
  case freeUnlock => exact ⟨hp.1.to hg _, hp.2.2⟩
  case keepUnlock | free => exact hp.1.execute hg
  case execute =>
    obtain ⟨n, hn, hu⟩ := hp
    have hlt : n < s.cbs.length := by
      have := hu.cur
      have := hu.last
      have := hs.last
      omega
    have hcb : s.cb p.cur = some s.cbs[n] := by
      rw [CbList.cb, if_neg (by omega), hn, Nat.add_sub_cancel, getElem?_eq_getElem hlt]
    rw [hcb]
    refine ⟨hu.child, ?_, le_rfl, hu.cur, hu.last, hu.loc⟩
    dsimp only
    rw [hn, take_succ_eq_append_getElem hlt, hu.ran]
  case writerLock w =>
    split
    · exact hp'
    · next hl =>
      rw [if_neg hl] at hg
      cases w <;> exact hp.to hg _
  case setGlobal cbs =>
    obtain ⟨hr, hq⟩ := hp
    split
    · next hnil =>
      subst hnil
      exact ⟨hr.to hg _, by simpa using hq.cbs, hq.last⟩
    · refine ⟨hr.to hg _, hq.last, ?_⟩
      dsimp only
      rw [hq.cbs]
  case setNext cbs =>
    obtain ⟨hr, hlast, hch⟩ := hp
    have htake : s.cbs.take s.last = s.cbs := by rw [hlast, take_length]
    refine ⟨hr.to hg _, ?_, ?_⟩
    · dsimp only
      rw [htake, hch]
    · dsimp only
      rw [htake, length_append, hlast]
  case setLast cbs => exact ⟨hp.1.to hg _, hp.2.1, hp.2.2⟩

/-- An element is freed when it is before the first one. -/
theorem step_freed (hp : p.At s) (hn : (p.step env s).2.freed n = true) : s.freed n = true ∨ n < s.first := by
  unfold Proc.At at hp
  unfold Proc.step at hn
  cases hpc : p.pc <;> rw [hpc] at hp hn <;> dsimp only at hp hn
  case free =>
    rcases eq_or_ne n p.prevCb with rfl | hne
    · exact .inr hp.2
    · rw [update_of_ne hne] at hn
      exact .inl hn
  case updateLock | freeLock | writerLock | installLock => exact .inl (by split at hn <;> exact hn)
  case loop =>
    split at hn
    · exact .inl hn
    · split at hn <;> exact .inl hn
  case execute => split at hn <;> exact .inl hn
  all_goals exact .inl hn

theorem Begins.lock (h : Begins env p s p') (hpc : p.pc = .idle) : LockStep false s.locked p'.pc.crit s.locked := by
  cases h with
  | waits =>
    dsimp only
    rw [hpc]
    exact .keep _ _
  | writes | updates => exact .keep _ _

theorem step_lock (env : Env) (p : Proc) (s) :
    LockStep p.pc.crit s.locked (p.step env s).1.pc.crit (p.step env s).2.locked := by
  unfold Proc.step
  cases hpc : p.pc <;> dsimp only
  case idle => exact (begins).lock hpc
  case updateLock | freeLock | installLock =>
    split
    · rw [hpc]
      exact .keep _ _
    · next hl =>
      rw [Bool.not_eq_true] at hl
      rw [hl]
      exact .take
  case loop =>
    split
    · exact .keep _ _
    · split <;> exact .keep _ _
  case dec | check | setGlobal | execute => split <;> exact .keep _ _
  case writerLock w =>
    split
    · rw [hpc]
      exact .keep _ _
    · cases w <;> exact .keep _ _
  case updateUnlock | freeUnlock | keepUnlock | installUnlock => exact .release _
  case fault =>
    rw [hpc]
    exact .keep _ _
  all_goals exact .keep _ _

theorem CbList.Sound.step (hs : s.Sound) (hp : p.At s) (hd : p.pc.Declared env)
    (hl : p.pc.crit = true → s.locked = true) :
    (p.step env s).2.Sound := by
  have hg := step_grows hs hp hd
  have hfreed : ∀ n, (p.step env s).2.freed n = true → n < (p.step env s).2.first := by
    intro n hn
    rcases step_freed hp hn with h | h
    · exact (hs.freed n h).trans_le hg.first
    · exact h.trans_le hg.first
  cases hc : p.pc.crit with
  | false =>
    have hsame := step_same (s := s) hd hc
    refine ⟨?_, ?_, fun hf => (hs.quiet ?_).same hsame, hfreed⟩
    · rw [hsame.last, hsame.cbs]
      exact hs.last
    · rw [hsame.covers, hsame.global, hsame.changes]
      exact hs.covers
    · have hlock := step_lock env p s
      rw [hc, hf] at hlock
      exact hlock.unlocked
  | true =>
    have hl := hl hc
    unfold Proc.At at hp
    unfold Proc.step at hfreed ⊢
    cases hpc : p.pc <;> rw [hpc] at hc hp hfreed <;> dsimp only at hp hfreed ⊢
    case readGlobal | readLast | check => exact hs
    case updateUnlock | keepUnlock | installUnlock =>
      exact ⟨hs.last, hs.covers, fun _ => ⟨hp.2.cbs, hp.2.last⟩, hfreed⟩
    case freeUnlock => exact ⟨hs.last, hs.covers, fun _ => ⟨hp.2.1.cbs, hp.2.1.last⟩, hfreed⟩
    case setFirst => exact ⟨hs.last, hs.covers, fun h => absurd (h.symm.trans hl) (by decide), hfreed⟩
    case setGlobal cbs =>
      exact ⟨hs.last, update_self _ _ _, fun h => absurd (h.symm.trans hl) (by decide), hfreed⟩
    case setNext cbs =>
      refine ⟨?_, hs.covers, fun h => absurd (h.symm.trans hl) (by decide), hfreed⟩
      have := hs.last
      simp only [length_append, length_take]
      omega
    case setLast cbs =>
      exact ⟨hp.2.2.le, hs.covers, fun h => absurd (h.symm.trans hl) (by decide), hfreed⟩
    all_goals exact absurd hc (by simp [Pc.crit])

end Step

/-! ## References -/

/-- How often a process refers to an element. -/
def Proc.refs (n : Nat) (p : Proc) : Nat :=
  if p.child then
    match p.pc with
    | .inc => if n = p.prevCb then 1 else 0
    | .dec => (if n = p.prevCb then 1 else 0) + (if n = p.cur then 1 else 0)
    | _ => if n = p.cur then 1 else 0
  else 0

section Refs

variable {env : Env} {p : Proc} {s : CbList}

theorem Begins.refs (h : Begins env p s p') (hpc : p.pc = .idle) (n : Nat) : p'.refs n = p.refs n := by
  cases h with
  | waits => rfl
  | writes | updates => simp [Proc.refs, hpc]

/-- A step counts what the process refers to. -/
theorem step_refs (hp : p.At s) (n : Nat) :
    (p.step env s).2.refcnt n + p.refs n = s.refcnt n + (p.step env s).1.refs n := by
  unfold Proc.At at hp
  unfold Proc.step
  cases hpc : p.pc <;> rw [hpc] at hp <;> dsimp only at hp ⊢
  case idle => rw [(begins).refs hpc]
  case inc =>
    rcases eq_or_ne n p.cur with rfl | hn
    · simp only [Proc.refs, hpc, hp.child, if_true, update_self, Nat.cast_add, Nat.cast_one]
      ring
    · simp [Proc.refs, hpc, hp.child, hn]
  case dec =>
    have hrefs : ({ p with pc := if s.refcnt p.prevCb - 1 = 0 then .freeLock else .execute } : Proc).refs n =
        if n = p.cur then 1 else 0 := by
      split <;> simp [Proc.refs, hp.child]
    rw [hrefs]
    rcases eq_or_ne n p.prevCb with rfl | hn
    · simp only [Proc.refs, hpc, hp.child, if_true, update_self, Nat.cast_add, Nat.cast_one]
      ring
    · simp [Proc.refs, hpc, hp.child, hn]
  case loop =>
    split
    · simp [Proc.refs, hpc]
    · split
      all_goals simp [Proc.refs, hpc]
  case updateLock | freeLock | installLock =>
    split
    · rfl
    · simp [Proc.refs, hpc]
  case writerLock w =>
    split
    · rfl
    · cases w <;> simp [Proc.refs, Write.pc, hpc]
  case execute | check | setGlobal => split <;> simp [Proc.refs, hpc]
  all_goals simp [Proc.refs, hpc]

theorem step_first : (p.step env s).2.first = s.first ∨ p.pc = .setFirst ∧ (p.step env s).2.first = p.cur := by
  unfold Proc.step
  cases hpc : p.pc <;> dsimp only
  case setFirst => exact .inr ⟨rfl, rfl⟩
  case updateLock | freeLock | installLock | writerLock | execute => exact .inl (by split <;> rfl)
  case loop =>
    refine .inl ?_
    split
    · rfl
    · split <;> rfl
  all_goals exact .inl rfl

theorem step_refcnt_le (h : p.pc = .inc → n ≠ p.cur) : (p.step env s).2.refcnt n ≤ s.refcnt n := by
  unfold Proc.step
  cases hpc : p.pc <;> dsimp only
  case inc => rw [update_of_ne (h hpc)]
  case dec =>
    rcases eq_or_ne n p.prevCb with rfl | hn
    · rw [update_self]
      omega
    · rw [update_of_ne hn]
  case updateLock | freeLock | installLock | writerLock | execute => split <;> rfl
  case loop =>
    split
    · rfl
    · split <;> rfl
  all_goals rfl

/-- A new reference is to the element the process has gone to. -/
theorem step_held (hp : p.At s) (hn : 0 < (p.step env s).1.refs n) : 0 < p.refs n ∨ p.pc = .inc ∧ n = p.cur := by
  by_cases hinc : p.pc = .inc ∧ n = p.cur
  · exact .inr hinc
  · have hle : (p.step env s).2.refcnt n ≤ s.refcnt n := step_refcnt_le fun hpc hcur => hinc ⟨hpc, hcur⟩
    have h := @step_refs env p s hp n
    exact .inl (by omega)

/-- A process that has gone to the next element still refers to the one before. -/
theorem refs_of_inc (hp : p.At s) (hpc : p.pc = .inc) : 0 < p.refs p.prevCb ∧ p.cur = p.prevCb + 1 := by
  unfold Proc.At at hp
  rw [hpc] at hp
  exact ⟨by simp [Proc.refs, hpc, hp.child], hp.next⟩

end Refs

/-! ## An update alone -/

/-- In `cfg_update_local`, from its lock on. -/
def Pc.updating : Pc → Bool
  | .updateLock | .readGlobal | .readLast | .updateUnlock | .loop | .inc | .dec => true
  | .freeLock | .check | .setFirst | .freeUnlock | .keepUnlock | .free | .execute => true
  | _ => false

/-- How far a child is from the end of its update: the elements in front of it, and the steps to the next one. -/
def Proc.rank (p : Proc) (s : CbList) : Nat :=
  match p.pc with
  | .updateLock => 10 * (s.last - p.cur) + 14
  | .readGlobal => 10 * (s.last - p.cur) + 13
  | .readLast => 10 * (s.last - p.cur) + 12
  | .updateUnlock => 10 * (p.lastCb - p.cur) + 11
  | .inc => 10 * (p.lastCb - p.cur) + 9
  | .dec => 10 * (p.lastCb - p.cur) + 8
  | .freeLock => 10 * (p.lastCb - p.cur) + 7
  | .check => 10 * (p.lastCb - p.cur) + 6
  | .setFirst => 10 * (p.lastCb - p.cur) + 5
  | .freeUnlock => 10 * (p.lastCb - p.cur) + 4
  | .free | .keepUnlock => 10 * (p.lastCb - p.cur) + 3
  | .execute => 10 * (p.lastCb - p.cur) + 2
  | .loop => 10 * (p.lastCb - p.cur) + 1
  | _ => 0

/-- A child in the middle of an update, while the others do nothing. -/
structure Alone (p : Proc) (s : CbList) : Prop where
  sound : s.Sound
  at_point : p.At s
  updating : p.pc.updating = true
  lock : s.locked = p.pc.crit
  zero : p.pc = .freeLock ∨ p.pc = .check → s.refcnt p.prevCb = 0
  loc : p.pc ≠ .updateLock → p.pc ≠ .readGlobal → p.loc = some s.global

/-- The update is over, and all callbacks were executed. -/
structure UpToDate (p : Proc) (s : CbList) : Prop where
  pc : p.pc = .idle
  ran : p.ran = s.changes

section Alone

variable {env : Env} {p : Proc} {s : CbList}

/-- A child that rests with the block of this moment has executed everything. -/
theorem Rests.ran_eq (h : Rests p s) (hs : s.Sound) (hc : s.cbs <+: s.changes)
    (hl : p.loc = some s.global) : p.ran = s.changes := by
  have hcur := (h.loc _ hl).2.trans hs.covers
  have hle : s.changes.length ≤ s.cbs.length := by
    have := h.cur
    have := hs.last
    omega
  have heq := hc.eq_of_length_le hle
  rw [h.ran, hcur, ← heq, take_length]

theorem updating_step (env : Env) (s) (h : p.pc.updating = true) :
    (p.step env s).2.changes = s.changes ∧ (p.step env s).2.global = s.global := by
  unfold Proc.step
  cases hpc : p.pc <;> rw [hpc] at h <;> dsimp only
  case updateLock | freeLock | execute => split <;> exact ⟨rfl, rfl⟩
  case loop =>
    split
    · exact ⟨rfl, rfl⟩
    · split <;> exact ⟨rfl, rfl⟩
  case idle | writerLock | inPlace | installLock | setGlobal | setNext | setLast | installUnlock
      | writerUnlock | fault =>
    cases h
  all_goals exact ⟨rfl, rfl⟩

section

variable (h : Alone p s)

include h

/-- A step of an update goes on to the next one. -/
theorem Alone.progress (env : Env) : ((p.step env s).1.pc = .idle ∧ (p.step env s).1.loc = p.loc ∧ p.pc = .loop) ∨
      (p.step env s).1.pc.updating = true ∧ (p.step env s).1.rank (p.step env s).2 < p.rank s := by
  have hp := h.at_point
  have hu := h.updating
  have hl := h.lock
  unfold Proc.At at hp
  unfold Proc.step
  cases hpc : p.pc <;> rw [hpc] at hp hu hl <;> dsimp only at hp ⊢
  case updateLock | freeLock =>
    rw [if_neg (by simp [hl, Pc.crit])]
    exact .inr ⟨rfl, by simp [Proc.rank, hpc]⟩
  case readLast => exact .inr ⟨rfl, by simp [Proc.rank, hpc]⟩
  case loop =>
    split
    · exact .inl ⟨rfl, rfl, rfl⟩
    · next hcur =>
      have := hp.cur
      have := hp.last
      have := h.sound.last
      rw [CbList.next, if_pos (by omega)]
      refine .inr ⟨rfl, ?_⟩
      simp only [Proc.rank, hpc]
      omega
  case dec | check =>
    split
    all_goals exact .inr ⟨rfl, by simp [Proc.rank, hpc]⟩
  case execute =>
    obtain ⟨n, hn, hup⟩ := hp
    have := hup.cur
    have := hup.last
    have := h.sound.last
    have hlt : p.cur - 1 < s.cbs.length := by omega
    have hcb : s.cb p.cur = some s.cbs[p.cur - 1] := by
      rw [CbList.cb, if_neg (by omega), getElem?_eq_getElem hlt]
    rw [hcb]
    exact .inr ⟨rfl, by simp [Proc.rank, hpc]⟩
  case readGlobal | updateUnlock | inc | setFirst | freeUnlock | keepUnlock | free =>
    exact .inr ⟨rfl, by simp [Proc.rank, hpc]⟩
  all_goals cases hu

theorem Alone.zero_step (hpc : (p.step env s).1.pc = .freeLock ∨ (p.step env s).1.pc = .check) :
    (p.step env s).2.refcnt (p.step env s).1.prevCb = 0 := by
  have hu := h.updating
  have hz := h.zero
  have hl := h.lock
  unfold Proc.step at hpc ⊢
  cases hp : p.pc <;> rw [hp] at hpc hu hz hl <;> dsimp only at hpc ⊢
  case dec =>
    rw [update_self]
    by_contra hne
    rw [if_neg hne] at hpc
    exact absurd hpc (by decide)
  case freeLock =>
    rw [if_neg (by simp [hl, Pc.crit])]
    exact hz (.inl rfl)
  case updateLock =>
    rw [if_neg (by simp [hl, Pc.crit])] at hpc
    rcases hpc with h | h <;> cases h
  case loop =>
    split at hpc
    · rcases hpc with h | h <;> cases h
    · split at hpc <;> rcases hpc with h | h <;> cases h
  case check | execute => split at hpc <;> rcases hpc with h | h <;> cases h
  case readGlobal | readLast | updateUnlock | inc | setFirst | freeUnlock | keepUnlock | free =>
    rcases hpc with h | h <;> cases h
  all_goals cases hu

theorem Alone.loc_step (hpc : (p.step env s).1.pc ≠ .readGlobal) : (p.step env s).1.loc = some s.global := by
  have hu := h.updating
  have hl := h.lock
  have hloc := h.loc
  unfold Proc.step at hpc ⊢
  cases hp : p.pc <;> rw [hp] at hpc hu hl hloc <;> dsimp only at hpc ⊢
  case updateLock =>
    rw [if_neg (by simp [hl, Pc.crit])] at hpc
    exact absurd rfl hpc
  case freeLock | execute => split <;> exact hloc (by decide) (by decide)
  case loop =>
    split
    · exact hloc (by decide) (by decide)
    · split <;> exact hloc (by decide) (by decide)
  case idle | writerLock | inPlace | installLock | setGlobal | setNext | setLast | installUnlock
      | writerUnlock | fault =>
    cases hu
  all_goals exact hloc (by decide) (by decide)

/-- One step of an update: it is over, or nearer to its end. -/
theorem Alone.next (env : Env) : UpToDate (p.step env s).1 (p.step env s).2 ∨
      Alone (p.step env s).1 (p.step env s).2 ∧ (p.step env s).1.rank (p.step env s).2 < p.rank s := by
  have hd : p.pc.Declared env := by
    have hu := h.updating
    cases hpc : p.pc <;> rw [hpc] at hu <;> trivial
  have hc : stillUnused.own p s = true := by
    by_cases hpc : p.pc = .check
    · simp [stillUnused, h.zero (.inr hpc)]
    · simp [stillUnused, hpc]
  have hat := h.at_point.step h.sound hd hc
  have hsound := h.sound.step h.at_point hd fun hcrit => h.lock.trans hcrit
  have hlock := (step_lock env p s).agree h.lock
  have hglobal := (updating_step env s h.updating).2
  rcases h.progress env with ⟨hidle, hloc, hloop⟩ | ⟨hup, hrank⟩
  · refine .inl ⟨hidle, ?_⟩
    unfold Proc.At at hat
    rw [hidle] at hat
    have hquiet := hsound.quiet (by rw [hlock, hidle]; rfl)
    apply hat.ran_eq hsound
    · rw [hquiet.cbs]
    · rw [hloc, hglobal]
      exact h.loc (by simp [hloop]) (by simp [hloop])
  · refine .inr ⟨⟨hsound, hat, hup, hlock, h.zero_step, fun _ hpc => ?_⟩, hrank⟩
    rw [hglobal]
    exact h.loc_step hpc

/-- An update ends, with all callbacks executed. -/
theorem Alone.returns {env} : ∃ n, UpToDate ((cfgThreads env).alone n p s).1 ((cfgThreads env).alone n p s).2 ∧
      ((cfgThreads env).alone n p s).2.changes = s.changes := by
  induction hr : p.rank s using Nat.strong_induction_on generalizing p s with
  | _ r ih =>
    have hch := (updating_step env s h.updating).1
    rcases h.next env with hdone | ⟨halone, hlt⟩
    · exact ⟨1, hdone, hch⟩
    · obtain ⟨n, hup, hsame⟩ := ih _ (hr ▸ hlt) halone rfl
      exact ⟨n + 1, hup, hsame.trans hch⟩

end

end Alone

/-! ## Every run -/

section Run

variable {ι : Type} [Fintype ι] {env : Env} {w : System ι Proc CbList} {i : ι}

structure Inv (env : Env) (w : System ι Proc CbList) : Prop where
  sound : w.shared.Sound
  at_point : ∀ i, (w.point i).At w.shared
  declared : ∀ i, (w.point i).pc.Declared env
  mutex : Mutex (fun i => (w.point i).pc.crit) w.shared.locked
  count : ∀ n, w.shared.refcnt n = shares (Proc.refs n) w.point
  held : ∀ i n, 0 < (w.point i).refs n → w.shared.first ≤ n

namespace Inv

variable (h : Inv env w)

include h

/-- Nobody refers to an element whose counter is 0. -/
theorem unused (hn : w.shared.refcnt n = 0) (j : ι) : (w.point j).refs n = 0 := by
  have hcount := h.count n
  have hle := le_shares (Proc.refs n) w.point j
  omega

/-- Nobody comes to refer to an element that is the first and unused. -/
theorem stays_unused (hf : w.shared.first = n) (hn : w.shared.refcnt n = 0) :
    ((w.point i).step env w.shared).2.refcnt n = 0 := by
  have hrefs := h.unused hn i
  have hnew : ((w.point i).step env w.shared).1.refs n = 0 := by
    by_contra hpos
    rcases step_held (h.at_point i) (pos_of_ne_zero hpos) with hold | ⟨hpc, hcur⟩
    · omega
    · obtain ⟨hprev, hnext⟩ := refs_of_inc (h.at_point i) hpc
      have := h.held i _ hprev
      omega
  have := @step_refs env (w.point i) w.shared (h.at_point i) n
  omega

/-- The first element is not behind one that is held, or that comes to be held. -/
theorem first_le {j} (hn : 0 < (w.point j).refs n ∨ (w.point i).pc = .inc ∧ n = (w.point i).cur) :
    ((w.point i).step env w.shared).2.first ≤ n := by
  have hp := h.at_point i
  rcases step_first with hf | ⟨hpc, hf⟩
  · rw [hf]
    rcases hn with hn | ⟨hpc, rfl⟩
    · exact h.held j n hn
    · obtain ⟨hprev, hnext⟩ := refs_of_inc hp hpc
      have := h.held i _ hprev
      omega
  · rw [hf]
    unfold Proc.At at hp
    rw [hpc] at hp
    obtain ⟨hm, -, hfirst, hzero⟩ := hp
    rcases hn with hn | ⟨hinc, -⟩
    · have hle := h.held j n hn
      have hne : n ≠ (w.point i).prevCb := by
        rintro rfl
        have := h.unused hzero j
        omega
      have := hm.next
      omega
    · exact absurd (hpc.symm.trans hinc) (by decide)

theorem fire [DecidableEq ι] (hd : ∀ x, (env.var x).declared = true) (hi : stillUnused.Meets w i) :
    Inv env (w.fire (cfgThreads env) i) := by
  have hp := h.at_point i
  have hg := step_grows h.sound hp (h.declared i)
  refine ⟨h.sound.step hp (h.declared i) (h.mutex.held i), fun j => ?_, fun j => ?_, ?_, fun n => ?_, fun j n hn => ?_⟩
  · rcases eq_or_ne j i with rfl | hj
    · simp only [System.fire, update_self]
      exact hp.step h.sound (h.declared j) hi.1
    · simp only [System.fire, update_of_ne hj]
      refine (h.at_point j).other hg (fun hc => step_same (h.declared i) ?_) fun hpc => ?_
      · -- two processes do not hold the lock
        by_contra hci
        exact hj (h.mutex.excl j i hc (by simpa using hci))
      · have hj' := h.at_point j
        unfold Proc.At at hj'
        rw [hpc] at hj'
        exact h.stays_unused hj'.2.2.1 hj'.2.2.2
  · rcases eq_or_ne j i with rfl | hj
    · simp only [System.fire, update_self]
      exact (h.declared j).step hd
    · simp only [System.fire, update_of_ne hj]
      exact h.declared j
  · have hcrit : (fun j => ((w.fire (cfgThreads env) i).point j).pc.crit) =
        update (fun j => (w.point j).pc.crit) i ((w.point i).step env w.shared).1.pc.crit :=
      funext fun j => Function.apply_update (fun _ (p : Proc) => p.pc.crit) w.point i _ j
    rw [hcrit]
    exact h.mutex.step (step_lock env (w.point i) w.shared)
  · have hshares := shares_update (Proc.refs n) w.point i ((w.point i).step env w.shared).1
    have hrefs := @step_refs env (w.point i) w.shared hp n
    have hcount := h.count n
    simp only [System.fire, cfgThreads]
    omega
  · have hold : 0 < (w.point j).refs n ∨ (w.point i).pc = .inc ∧ n = (w.point i).cur := by
      rcases eq_or_ne j i with rfl | hj
      · simp only [System.fire, update_self] at hn
        exact step_held hp hn
      · simp only [System.fire, update_of_ne hj] at hn
        exact .inl hn
    exact h.first_le hold

/-- The list is what was changed, up to a change that is on its way into it. -/
theorem cbs_le : w.shared.cbs <+: w.shared.changes := by
  cases hl : w.shared.locked with
  | false => rw [(h.sound.quiet hl).cbs]
  | true =>
    obtain ⟨i, hi⟩ := h.mutex.holder hl
    have hp := h.at_point i
    unfold Proc.At at hp
    cases hpc : (w.point i).pc <;> rw [hpc] at hi hp <;> dsimp only at hp
    case readGlobal => rw [hp.2.2.cbs]
    case readLast | updateUnlock | check | keepUnlock | setGlobal | installUnlock => rw [hp.2.cbs]
    case setFirst | freeUnlock => rw [hp.2.1.cbs]
    case setNext cbs =>
      rw [hp.2.2]
      exact prefix_append _ _
    case setLast cbs => rw [hp.2.1]
    all_goals cases hi

theorem ran_le : (w.point i).ran <+: w.shared.cbs := by
  have hp := h.at_point i
  unfold Proc.At at hp
  cases hpc : (w.point i).pc <;> rw [hpc] at hp <;> dsimp only at hp
  case idle | writerLock | inPlace | installLock | writerUnlock => exact hp.ran ▸ take_prefix _ _
  case updateLock => exact hp.2.ran ▸ take_prefix _ _
  case readGlobal => exact hp.2.1.ran ▸ take_prefix _ _
  case loop | inc | dec | freeLock => exact hp.ran ▸ take_prefix _ _
  case execute =>
    obtain ⟨n, -, hu⟩ := hp
    exact hu.ran ▸ take_prefix _ _
  all_goals exact hp.1.ran ▸ take_prefix _ _

theorem first_le_cur (hi : (w.point i).child = true) : w.shared.first ≤ (w.point i).cur := by
  have hp := h.at_point i
  unfold Proc.At at hp
  by_cases hpc : (w.point i).pc = .inc
  · obtain ⟨hprev, hnext⟩ := refs_of_inc (h.at_point i) hpc
    have := h.held i _ hprev
    omega
  · apply h.held i
    unfold Proc.refs
    rw [if_pos hi]
    split
    · exact absurd ‹_› hpc
    · simp
    · simp

end Inv

/-- A process before its first call. -/
structure Proc.Fresh (p : Proc) : Prop where
  pc : p.pc = .idle
  cur : p.cur = 0
  loc : p.loc = none
  ran : p.ran = []

/-- The children were registered and forked. Changes may have been made before. -/
structure Started (w : System ι Proc CbList) : Prop where
  fresh : ∀ i, (w.point i).Fresh
  locked : w.shared.locked = false
  quiet : Quiet w.shared
  covers : w.shared.covers w.shared.global = w.shared.changes.length
  first : w.shared.first = 0
  freed : ∀ n, w.shared.freed n = false
  refcnt : ∀ n, w.shared.refcnt n = if n = 0 then
    ((Finset.univ.filter fun i => (w.point i).child = true).card : Int) else 0

theorem Started.inv (h : Started w) : Inv env w := by
  have hrefs : ∀ n i, (w.point i).refs n = if n = 0 ∧ (w.point i).child = true then 1 else 0 := by
    intro n i
    obtain ⟨hpc, hcur, -, -⟩ := h.fresh i
    by_cases hc : (w.point i).child = true
    · simp [Proc.refs, hpc, hcur, hc]
    · simp [Proc.refs, hc]
  refine ⟨⟨h.quiet.last.le, h.covers, fun _ => h.quiet, fun n hn => ?_⟩, fun i => ?_, fun i => ?_,
    ⟨fun i _ hi => ?_, fun i hi => ?_, fun hl => ?_⟩,
    fun n => ?_, fun i n _ => ?_⟩
  · exact absurd (hn.symm.trans (h.freed n)) (by decide)
  · obtain ⟨hpc, hcur, hloc, hran⟩ := h.fresh i
    unfold Proc.At
    rw [hpc]
    exact ⟨by simp [hran, hcur], by simp [hcur], by simp [hloc]⟩
  · rw [(h.fresh i).pc]
    trivial
  · rw [(h.fresh i).pc] at hi
    cases hi
  · rw [(h.fresh i).pc] at hi
    cases hi
  · exact absurd (hl.symm.trans h.locked) (by decide)
  · rw [h.refcnt n, shares]
    simp only [hrefs]
    by_cases hn : n = 0
    · simp [hn]
    · simp [hn]
  · rw [h.first]
    exact Nat.zero_le n

theorem Inv.of_run [DecidableEq ι] {w0} (hd : ∀ x, (env.var x).declared = true) (h0 : Started w0)
    (h : Reach (cfgThreads env) stillUnused w0 w) : Inv env w := by
  induction h with
  | start => exact h0.inv
  | call _ hret => cases hret
  | go _ hi ih => exact ih.fire hd hi

/-- What the children were told, in one state. -/
structure Delivered (env : Env) (w : System ι Proc CbList) : Prop where
  /-- each callback once and in order -/
  order : ∀ i, (w.point i).ran <+: w.shared.changes
  /-- and all of them, if the child has the block of this moment -/
  current : ∀ i, (w.point i).pc = .idle → (w.point i).loc = some w.shared.global → (w.point i).ran = w.shared.changes
  /-- which it gets from its next update, when it is the only one to run -/
  updates : ∀ i jobs, (w.point i).child = true → (w.point i).pc = .idle → (w.point i).jobs = .update :: jobs →
    w.shared.locked = false → ∃ n, UpToDate ((cfgThreads env).alone n (w.point i) w.shared).1
      ((cfgThreads env).alone n (w.point i) w.shared).2 ∧
        ((cfgThreads env).alone n (w.point i) w.shared).2.changes = w.shared.changes
  /-- an element is freed when all children are behind it -/
  kept : ∀ n, w.shared.freed n = true → ∀ i, (w.point i).child = true → n < (w.point i).cur
  /-- no null pointer is used -/
  runs : ∀ i, (w.point i).pc ≠ .fault

theorem Inv.current (h : Inv env w) (hpc : (w.point i).pc = .idle)
    (hl : (w.point i).loc = some w.shared.global) : (w.point i).ran = w.shared.changes := by
  have hp := h.at_point i
  unfold Proc.At at hp
  rw [hpc] at hp
  exact hp.ran_eq h.sound h.cbs_le hl

/-- An update that is called and goes on alone. -/
theorem Inv.updates (h : Inv env w) {jobs} (hc : (w.point i).child = true)
    (hpc : (w.point i).pc = .idle) (hj : (w.point i).jobs = .update :: jobs) (hl : w.shared.locked = false) :
    ∃ n, UpToDate ((cfgThreads env).alone n (w.point i) w.shared).1 ((cfgThreads env).alone n (w.point i) w.shared).2 ∧
      ((cfgThreads env).alone n (w.point i) w.shared).2.changes = w.shared.changes := by
  have hat := h.at_point i
  unfold Proc.At at hat
  rw [hpc] at hat
  by_cases hloc : (w.point i).loc = some w.shared.global
  · have hstep : (w.point i).step env w.shared = ({ w.point i with jobs := jobs }, w.shared) := by
      simp [Proc.step, hpc, Proc.begin, hj, Job.write, hloc]
    refine ⟨1, ?_⟩
    simp only [Threads.alone, cfgThreads, hstep]
    exact ⟨⟨hpc, h.current hpc hloc⟩, trivial⟩
  · have hstep : (w.point i).step env w.shared = ({ w.point i with jobs := jobs, pc := .updateLock }, w.shared) := by
      simp [Proc.step, hpc, Proc.begin, hj, Job.write, hloc, hc]
    have halone : Alone { w.point i with jobs := jobs, pc := .updateLock } w.shared :=
      ⟨h.sound, ⟨hc, hat.ran, hat.cur, hat.loc⟩, rfl, hl, by simp, by simp⟩
    obtain ⟨n, hn⟩ := halone.returns
    refine ⟨n + 1, ?_⟩
    simp only [Threads.alone]
    rw [show (cfgThreads env).code (w.point i) w.shared = _ from hstep]
    exact hn

end Run

/-- Two variables with callbacks. -/
def pairEnv : Env where
  lookupVar _ _ := none
  var _ := ⟨0, .int, .int, false, false, 0, 0, none, true⟩
  strtol _ := none
  str2sint _ := none
  int2str _ := []
  malloc _ := true

/-- Two children that will update, and a driver that will commit two changes. -/
def pairStart : System (Fin 3) Proc CbList where
  shared := ⟨false, false, 0, [], 0, 0, fun n => if n = 0 then 2 else 0, fun _ => false, [], fun _ => 0⟩
  point i := if i = 2 then ⟨.idle, false, [.commit [0, 1] false], 0, none, 0, 0, []⟩
    else ⟨.idle, true, [.update], 0, none, 0, 0, []⟩

theorem pairStart_started : Started pairStart where
  fresh i := by fin_cases i <;> exact ⟨rfl, rfl, rfl, rfl⟩
  locked := rfl
  quiet := ⟨rfl, rfl⟩
  covers := rfl
  first := rfl
  freed _ := rfl
  refcnt n := by
    have : (Finset.univ.filter fun i => (pairStart.point i).child = true).card = 2 := by decide
    rw [this]
    rfl

/-- The commit, and then one child after the other. -/
def pairRun : List (Act (Fin 3) Proc) :=
  List.replicate 8 (.go 2) ++ List.replicate 12 (.go 0) ++ List.replicate 12 (.go 1)

theorem pairRun_fine : Act.Fine (cfgThreads pairEnv) stillUnused pairRun pairStart := by decide +kernel

/-- In every run in which an element is still unused when it is freed, changes are delivered. -/
theorem cfg_changes_delivered {ι : Type} [Fintype ι] [DecidableEq ι] (env : Env)
    (hd : ∀ x, (env.var x).declared = true)
    {w₀ w : System ι Proc CbList} (h₀ : Started w₀) (h : Reach (cfgThreads env) stillUnused w₀ w) :
    Delivered env w := by
  have hi := Inv.of_run hd h₀ h
  refine ⟨fun i => (hi.ran_le).trans hi.cbs_le, fun i => hi.current, fun i jobs => hi.updates,
    fun n hn i hc => ?_, fun i hpc => ?_⟩
  · exact (hi.sound.freed n hn).trans_le (hi.first_le_cur hc)
  · have hp := hi.at_point i
    unfold Proc.At at hp
    rw [hpc] at hp
    exact hp

theorem cfg_changes_delivered_sample : Delivered pairEnv (pairStart.play (cfgThreads pairEnv) pairRun) :=
  cfg_changes_delivered pairEnv (fun _ => rfl) pairStart_started (Reach.start.play pairRun pairRun_fine)

/-- The first child leaves element 1 unused and waits for the lock; the second one comes to element
1 and makes it the first of the list; then the first child frees it. -/
def overtaken : List (Act (Fin 3) Proc) :=
  List.replicate 8 (.go 2) ++ List.replicate 12 (.go 0) ++ List.replicate 13 (.go 1) ++ List.replicate 5 (.go 0)

/-- An element is freed while a child is at it and about to execute its callback. -/
theorem cfg_callback_freed_early :
    ∃ w : System (Fin 3) Proc CbList, Started pairStart ∧ Reach (cfgThreads pairEnv) Cond.none pairStart w ∧
      w.shared.freed 1 = true ∧ (w.point 1).child = true ∧ (w.point 1).cur = 1 ∧ (w.point 1).pc = .execute := by
  refine ⟨pairStart.play (cfgThreads pairEnv) overtaken, pairStart_started, Reach.start.play overtaken ?_, ?_⟩
  · decide +kernel
  · decide +kernel

end SipRouter.Cfg
