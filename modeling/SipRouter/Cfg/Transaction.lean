import Mathlib.Logic.Relation
import SipRouter.Cfg.Ctx

/-!
# Transactions on the configuration

A commit applies all the changes of its context or none, and a call leaves no lock behind.
There is one exception: a commit for which a callback for the children cannot be allocated
keeps the lock of its context.
-/

namespace SipRouter.Cfg

open Lib List Function

variable {args : SetArgs}

variable {v : VoidPtr} {changed : List (Nat × CfgVal)}

/-- No lock is held. -/
structure CfgState.Free (s : CfgState) : Prop where
  ctx : ∀ c, (s.ctx c).locked = false
  writer : s.writerLocked = false

section Rules

variable {env : Env} {s s' : CfgState} {c : Nat}

@[simp] theorem returns_malloc {Q} :
    Returns (malloc env) s Q ↔ Q (env.malloc s.mallocs) { s with mallocs := s.mallocs + 1 } := by
  constructor
  · rintro ⟨_, _, h, hQ⟩
    cases h
    exact hQ
  · exact fun h => ⟨_, _, rfl, h⟩

variable {Q : Unit → CfgState → Prop}

theorem returns_ctxLock (h : (s.ctx c).locked = false) (hQ : Q () (s.setLocked c true)) : Returns (ctxLock c) s Q :=
  ⟨(), s.setLocked c true, by simp [ctxLock, h], hQ⟩

theorem returns_writerLock (h : s.writerLocked = false)
    (hQ : Q () { s with writerLocked := true }) : Returns writerLock s Q :=
  ⟨(), { s with writerLocked := true }, by simp [writerLock, h], hQ⟩

@[simp] theorem returns_ctxUnlock : Returns (ctxUnlock c) s Q ↔ Q () (s.setLocked c false) := Returns.modify_iff

@[simp] theorem returns_writerUnlock :
    Returns writerUnlock s Q ↔ Q () { s with writerLocked := false } :=
  Returns.modify_iff

/-- Only the number of allocations has changed. -/
def Allocs (s s' : CfgState) : Prop := ∃ n, s' = { s with mallocs := n }

theorem mallocIf_allocs {needed} : Returns (mallocIf env needed) s fun _ s' => Allocs s s' := by
  unfold mallocIf
  apply Returns.ite
  · exact fun _ => returns_malloc.2 ⟨s.mallocs + 1, rfl⟩
  · exact fun _ => Returns.pure_iff.2 ⟨s.mallocs, rfl⟩

theorem cloneStr_allocs {str} : Returns (cloneStr env str) s fun _ s' => Allocs s s' :=
  (mallocIf_allocs).bind fun _ _ h => Returns.pure_iff.2 h

theorem convertVal_allocs {val input} :
    Returns (convertVal env val input) s fun _ s' => Allocs s s' := by
  unfold convertVal
  split
  all_goals simp only [Returns.bind_iff, returns_malloc, Returns.pure_iff]
  all_goals exact ⟨_, rfl⟩

theorem newVal_allocs {type} : Returns (newVal env type v) s fun _ s' => Allocs s s' := by
  cases type with
  | int | pointer => exact Returns.pure_iff.2 ⟨s.mallocs, rfl⟩
  | string | str => exact (cloneStr_allocs).bind fun _ _ h => Returns.pure_iff.2 h

theorem delayedFixup_allocs {c x handle} :
    Returns (delayedFixup env c x handle v) s fun _ s' => Allocs s s' := by
  unfold delayedFixup
  refine .ite (fun _ => Returns.pure_iff.2 ⟨s.mallocs, rfl⟩) fun _ => ?_
  refine Returns.bind_iff.2 (Returns.get_iff.2 ?_)
  refine (mallocIf_allocs).bind fun ok s1 h => ?_
  exact .ite (fun _ => Returns.pure_iff.2 h) fun _ => Returns.pure_iff.2 h

end Rules

/-! ## Changes at once -/

section SetNow

variable {env : Env} {s : CfgState}

/-- What a change at once leaves as it was. -/
structure SetsNow (s s' : CfgState) : Prop where
  ctx : s'.ctx = s.ctx
  shmized : s'.shmized = s.shmized
  writer : s'.writerLocked = s.writerLocked
  global : s.shmized = false → s'.global = s.global

variable {s' : CfgState} {x : Nat}

theorem Allocs.setsNow (h : Allocs s s') : SetsNow s s' := by
  obtain ⟨n, rfl⟩ := h
  exact ⟨rfl, rfl, rfl, fun _ => rfl⟩

theorem SetsNow.trans {s1 s2} (h : SetsNow s s1) (h' : SetsNow s1 s2) : SetsNow s s2 where
  ctx := h'.ctx.trans h.ctx
  shmized := h'.shmized.trans h.shmized
  writer := h'.writer.trans h.writer
  global hs := (h'.global (h.shmized.trans hs)).trans (h.global hs)

theorem installVal_setsNow {old block} (hs : s.shmized = true) :
    Returns (installVal env x old block) s fun _ s' => SetsNow s s' := by
  refine (mallocIf_allocs).bind fun ok s1 h1 => ?_
  refine .ite (fun _ => ?_) fun _ => Returns.pure_iff.2 h1.setsNow
  refine .ite (fun _ => Returns.pure_iff.2 h1.setsNow) fun _ => ?_
  obtain ⟨n, rfl⟩ := h1
  refine Returns.bind_iff.2 (Returns.modify_iff.2 (Returns.pure_iff.2 ⟨rfl, rfl, rfl, fun h => ?_⟩))
  simp [hs] at h

theorem replaceVal_setsNow (hs : s.shmized = true) : Returns (replaceVal env x v) s fun _ s' => SetsNow s s' := by
  refine (mallocIf_allocs).bind fun ok s1 h1 => ?_
  refine .ite (fun _ => ?_) fun _ => Returns.pure_iff.2 h1.setsNow
  refine (newVal_allocs).bind fun val s2 h2 => ?_
  have h : SetsNow s s2 := h1.setsNow.trans h2.setsNow
  cases val with
  | none => exact Returns.pure_iff.2 h
  | some val =>
    have hs2 := h.shmized.trans hs
    refine Returns.bind_iff.2 (Returns.get_iff.2 (.ite (fun _ => ?_) fun _ => ?_))
    · refine Returns.bind_iff.2 (Returns.modify_iff.2 (.mono (installVal_setsNow ?_) fun _ s3 h3 => ?_))
      · exact hs2
      exact ⟨h3.ctx.trans h.ctx, h3.shmized.trans h.shmized, h3.writer.trans h.writer, fun hn => by simp [hs] at hn⟩
    · exact (installVal_setsNow hs2).mono fun _ _ h3 => h.trans h3

theorem setGlobal_setsNow (hs : s.shmized = true) (hw : s.writerLocked = false) :
    Returns (setGlobal env x v) s fun _ s' => SetsNow s s' := by
  refine Returns.bind_iff.2 (returns_writerLock hw ?_)
  refine .bind (replaceVal_setsNow ?_) fun ok s1 h => ?_
  · exact hs
  refine Returns.bind_iff.2 (returns_writerUnlock.2 (Returns.pure_iff.2 ?_))
  exact ⟨h.ctx, h.shmized, hw.symm, fun hn => by simp [hs] at hn⟩

theorem setEarly_setsNow : Returns (setEarly env x v) s fun _ s' => SetsNow s s' := by
  refine (newVal_allocs).bind fun val s1 h1 => ?_
  cases val with
  | none => exact Returns.pure_iff.2 h1.setsNow
  | some val =>
    obtain ⟨n, rfl⟩ := h1
    exact Returns.bind_iff.2 (Returns.modify_iff.2 (Returns.pure_iff.2 ⟨rfl, rfl, rfl, fun _ => rfl⟩))

theorem cfgSetNow_setsNow (hw : s.writerLocked = false) : Returns (cfgSetNow env args) s fun _ s' => SetsNow s s' := by
  have hrefl : SetsNow s s := ⟨rfl, rfl, rfl, fun _ => rfl⟩
  unfold cfgSetNow
  refine .ite (fun _ => Returns.pure_iff.2 hrefl) fun _ => ?_
  cases env.lookupVar args.groupName args.varName with
  | none => exact Returns.pure_iff.2 hrefl
  | some x =>
    refine .ite (fun _ => Returns.pure_iff.2 hrefl) fun _ => ?_
    refine (convertVal_allocs).bind fun v s1 h1 => ?_
    have h1 := h1.setsNow
    cases v with
    | none => exact Returns.pure_iff.2 h1
    | some v =>
      refine .ite (fun _ => ?_) fun _ => Returns.pure_iff.2 h1
      refine Returns.bind_iff.2 (Returns.get_iff.2 ?_)
      cases onChange env x (if s1.shmized then args.handle else s1.early) v with
      | none => exact Returns.pure_iff.2 h1
      | some v =>
        refine (mallocIf_allocs).bind fun ok s2 h2 => ?_
        have h2 := h1.trans h2.setsNow
        refine .ite (fun _ => ?_) fun _ => Returns.pure_iff.2 h2
        refine .ite (fun hs => ?_) fun _ => ?_
        · refine (setGlobal_setsNow ?_ (h2.writer.trans hw)).mono fun _ _ h3 => h2.trans h3
          rw [h2.shmized, ← h1.shmized, hs]
        · exact (setEarly_setsNow).mono fun _ _ h3 => h2.trans h3

end SetNow

/-! ## Changes that are committed later -/

/-- The changes of each context that are not committed. -/
def CfgState.pending (s : CfgState) (c : Nat) : List (Nat × CfgVal) := (s.ctx c).changed

section Pending

variable {env : Env} {s : CfgState} {c : Nat}

@[simp] theorem locked_setLocked {b d} : ((s.setLocked c b).ctx d).locked = if d = c then b else (s.ctx d).locked := by
  by_cases hd : d = c
  · subst hd
    simp [CfgState.setLocked, CfgState.setCtx]
  · simp [CfgState.setLocked, CfgState.setCtx, hd]

@[simp] theorem pending_setLocked {b} : (s.setLocked c b).pending = s.pending := by
  funext d
  by_cases hd : d = c
  · subst hd
    simp [CfgState.setLocked, CfgState.setCtx, CfgState.pending]
  · simp [CfgState.setLocked, CfgState.setCtx, CfgState.pending, hd]

@[simp] theorem locked_setChanged (changed) (d : Nat) :
    ((s.setChanged c changed).ctx d).locked = (s.ctx d).locked := by
  by_cases hd : d = c
  · subst hd
    simp [CfgState.setChanged, CfgState.setCtx]
  · simp [CfgState.setChanged, CfgState.setCtx, hd]

@[simp] theorem pending_setChanged : (s.setChanged c changed).pending = update s.pending c changed := by
  funext d
  by_cases hd : d = c
  · subst hd
    simp [CfgState.setChanged, CfgState.setCtx, CfgState.pending]
  · simp [CfgState.setChanged, CfgState.setCtx, CfgState.pending, hd]

/-- A change was added behind the others, or there was an error. -/
inductive Added (s : CfgState) (c x : Nat) : Bool → CfgState → Prop
  | no (n : Nat) : Added s c x false { s with mallocs := n }
  | yes (val : CfgVal) (n : Nat) : Added s c x true { s.setChanged c (s.pending c ++ [(x, val)]) with mallocs := n }

theorem Added.of_allocs {x} (h : Allocs s s') : Added s c x false s' := by
  obtain ⟨n, rfl⟩ := h
  exact .no n

theorem addChange_added {c x handle} :
    Returns (addChange env c x handle v) s fun ok s' => Added s c x ok s' := by
  refine (delayedFixup_allocs).bind fun v s1 h1 => ?_
  cases v with
  | none => exact Returns.pure_iff.2 (.of_allocs h1)
  | some v =>
    obtain ⟨n, rfl⟩ := h1
    refine Returns.bind_iff.2 (returns_malloc.2 (.ite (fun _ => ?_) fun _ => Returns.pure_iff.2 (.no _)))
    refine .bind (newVal_allocs) fun val s2 h2 => ?_
    obtain ⟨n', rfl⟩ := h2
    cases val with
    | none => exact Returns.pure_iff.2 (.no n')
    | some val => exact Returns.bind_iff.2 (Returns.modify_iff.2 (Returns.pure_iff.2 (.yes val n')))

end Pending

/-- All the callbacks for the children that a commit makes can be allocated. -/
def Env.CallbacksFit (env : Env) (s : CfgState) (c : Nat) : Prop :=
  ∀ k < (s.pending c).countP fun x => (env.var x.1).onSetChildCb, env.malloc (s.mallocs + k) = true

section Commit

variable {env : Env} {s : CfgState}

theorem newChildCbs_some {xs}
    (h : ∀ k < xs.countP fun x => (env.var x).onSetChildCb, env.malloc (s.mallocs + k) = true) :
    Returns (newChildCbs env xs) s fun cbs s' => cbs.isSome ∧ Allocs s s' := by
  induction xs generalizing s with
  | nil => exact Returns.pure_iff.2 ⟨rfl, s.mallocs, rfl⟩
  | cons x xs ih =>
    unfold newChildCbs mallocIf
    refine Returns.bind_iff.2 (.ite (fun hx => ?_) fun hx => ?_)
    · rw [countP_cons, if_pos hx] at h
      have hm : env.malloc s.mallocs = true := h 0 (Nat.succ_pos _)
      rw [returns_malloc, if_pos hm]
      refine .bind (ih fun k hk => ?_) fun cbs s' hcbs => Returns.pure_iff.2 ⟨?_, ?_⟩
      · have := h (k + 1) (Nat.succ_lt_succ hk)
        rwa [← Nat.add_assoc, Nat.add_right_comm] at this
      · simpa using hcbs.1
      · exact hcbs.2
    · rw [countP_cons, if_neg hx] at h
      refine Returns.pure_iff.2 (.ite (fun _ => ?_) fun hn => absurd rfl hn)
      exact (ih h).bind fun cbs s' hcbs => Returns.pure_iff.2 ⟨by simpa using hcbs.1, hcbs.2⟩

/-- The new block was installed, or nothing was changed. -/
inductive Installed (s : CfgState) (changed : List (Nat × CfgVal)) (cbs : List Nat) : Bool → CfgState → Prop
  | no (n : Nat) : Installed s changed cbs false { s with mallocs := n }
  | yes (n : Nat) : Installed s changed cbs true
      { s with global := applyChanges changed s.global, childCbs := s.childCbs ++ cbs, mallocs := n }

theorem commitBlock_installed {cbs} (hw : s.writerLocked = false) :
    Returns (commitBlock env changed cbs) s fun ok s' => Installed s changed cbs ok s' := by
  -- the writer lock is as it was, so the state is built up to it
  obtain ⟨shmized, global, early, ctx, _, childCbs, mallocs⟩ := s
  cases hw
  refine (mallocIf_allocs).bind fun ok s1 h1 => ?_
  obtain ⟨n, rfl⟩ := h1
  refine .ite (fun _ => ?_) fun _ => Returns.pure_iff.2 (.no n)
  refine Returns.bind_iff.2 (returns_writerLock rfl (Returns.bind_iff.2 (returns_malloc.2 ?_)))
  dsimp only
  cases env.malloc n with
  | false => exact Returns.bind_iff.2 (returns_writerUnlock.2 (Returns.pure_iff.2 (.no (n + 1))))
  | true =>
    refine Returns.bind_iff.2 (Returns.get_iff.2 (Returns.bind_iff.2 (Returns.modify_iff.2 ?_)))
    exact Returns.bind_iff.2 (returns_writerUnlock.2 (Returns.pure_iff.2 (.yes (n + 1))))

end Commit

/-! ## The calls -/

inductive CfgCall where
  | setNow (args : SetArgs)
  | setDelayed (args : SetArgs)
  | commit (ctx : Option Nat)
  | rollback (ctx : Option Nat)

def CfgCall.exec (env : Env) : CfgCall → CfgM Int
  | .setNow args => cfgSetNow env args
  | .setDelayed args => cfgSetDelayed env args
  | .commit ctx => cfgCommit env ctx
  | .rollback ctx => cfgRollback ctx

/-- The block and the pending changes are as they were. -/
def Unchanged (s s' : CfgState) : Prop := s'.global = s.global ∧ s'.pending = s.pending

/-- What a call that returned did to the block and to the pending changes. -/
def CfgCall.Contract (env : Env) (call : CfgCall) (s : CfgState) (r : Int) (s' : CfgState) : Prop :=
  match call with
  | .setNow _ => s'.pending = s.pending
  | .setDelayed args =>
    (r = -1 → Unchanged s s') ∧
      (r = 0 → s.shmized = true → ∃ c x val, args.ctx = some c ∧ env.lookupVar args.groupName args.varName = some x ∧
        s'.global = s.global ∧ s'.pending = update s.pending c (s.pending c ++ [(x, val)]))
  | .commit ctx =>
    (r = -1 → Unchanged s s') ∧
      (r = 0 → ∃ c, ctx = some c ∧ s'.global = applyChanges (s.pending c) s.global ∧
        s'.pending = update s.pending c [])
  | .rollback ctx =>
    s'.global = s.global ∧ (r = 0 → ∃ c, ctx = some c ∧ s'.pending = update s.pending c [])

/-- A state between two calls. There are no pending changes before there is a block. -/
structure CfgState.Idle (s : CfgState) : Prop where
  free : s.Free
  early : s.shmized = false → s.pending = fun _ => []

/-- A commit gets memory for its callbacks. -/
def CfgCall.Fits (env : Env) (s : CfgState) : CfgCall → Prop
  | .commit (some c) => env.CallbacksFit s c
  | _ => True

section Calls

variable {env : Env} {s : CfgState} {ctx : Option Nat}

theorem SetsNow.idle (h : SetsNow s s') (hs : s.Idle) : s'.Idle where
  free := ⟨fun c => h.ctx ▸ hs.free.ctx c, h.writer.trans hs.free.writer⟩
  early hn := by
    funext c
    have := congrFun (hs.early (h.shmized ▸ hn)) c
    rwa [CfgState.pending, ← h.ctx] at this

theorem SetsNow.pending (h : SetsNow s s') : s'.pending = s.pending := by
  funext c
  rw [CfgState.pending, CfgState.pending, h.ctx]

theorem cfgSetNow_contract (hs : s.Idle) :
    Returns (cfgSetNow env args) s fun r s' => (CfgCall.setNow args).Contract env s r s' ∧ s'.Idle :=
  (cfgSetNow_setsNow hs.free.writer).mono fun _ _ h => ⟨h.pending, h.idle hs⟩

/-- The lock of a context was the only one. -/
theorem idle_unlock {c} (hsh : s.shmized = true) (hl : ∀ d, d ≠ c → (s.ctx d).locked = false)
    (hw : s.writerLocked = false) : (s.setLocked c false).Idle where
  free := by
    refine ⟨fun d => ?_, hw⟩
    by_cases hd : d = c
    · simp [hd]
    · simp [hd, hl d hd]
  early hn := absurd (hn.symm.trans hsh) (by simp)

/-- Before there is a block there is nothing to empty. -/
theorem CfgState.Idle.update_nil (hs : s.Idle) (hsh : s.shmized = false) {c} : s.pending = update s.pending c [] := by
  rw [hs.early hsh]
  exact (update_eq_self c _).symm

theorem cfgRollback_contract (hs : s.Idle) :
    Returns (cfgRollback ctx) s fun r s' => (CfgCall.rollback ctx).Contract env s r s' ∧ s'.Idle := by
  cases ctx with
  | none => exact Returns.pure_iff.2 ⟨⟨rfl, by simp⟩, hs⟩
  | some c =>
    refine Returns.bind_iff.2 (Returns.get_iff.2 (.ite (fun hsh => ?_) fun hsh => ?_))
    · refine Returns.bind_iff.2 (returns_ctxLock (hs.free.ctx c) (Returns.bind_iff.2 (Returns.modify_iff.2 ?_)))
      refine Returns.bind_iff.2 (returns_ctxUnlock.2 (Returns.pure_iff.2 ⟨⟨rfl, fun _ => ⟨c, rfl, by simp⟩⟩, ?_⟩))
      exact idle_unlock hsh (fun d hd => by simp [hd, hs.free.ctx d]) hs.free.writer
    · exact Returns.pure_iff.2 ⟨⟨rfl, fun _ => ⟨c, rfl, hs.update_nil (by simpa using hsh)⟩⟩, hs⟩

/-- A change that is added with the lock of its context. -/
theorem Added.contract {args c x n ok} (hs : s.Idle) (hsh : s.shmized = true)
    (hc : args.ctx = some c) (hx : env.lookupVar args.groupName args.varName = some x)
    (h : Added ({ s with mallocs := n }.setLocked c true) c x ok s') :
    (CfgCall.setDelayed args).Contract env s (if ok then 0 else -1) (s'.setLocked c false) ∧
    (s'.setLocked c false).Idle := by
  have hl : ∀ d, d ≠ c → (s.ctx d).locked = false := fun d _ => hs.free.ctx d
  cases h with
  | no m =>
    refine ⟨⟨fun _ => ⟨rfl, ?_⟩, fun h0 => absurd h0 (by decide)⟩, idle_unlock hsh (fun d hd => ?_) hs.free.writer⟩
    · rw [pending_setLocked]
      exact pending_setLocked
    · exact (locked_setLocked).trans ((if_neg hd).trans (hl d hd))
  | yes val m =>
    refine ⟨⟨fun h0 => absurd h0 (by decide), fun _ _ => ⟨c, x, val, hc, hx, rfl, ?_⟩⟩,
      idle_unlock hsh (fun d hd => ?_) hs.free.writer⟩
    · rw [pending_setLocked]
      refine (pending_setChanged).trans ?_
      rw [pending_setLocked]
      rfl
    · refine (locked_setChanged _ d).trans ?_
      exact (locked_setLocked).trans ((if_neg hd).trans (hl d hd))

theorem cfgSetDelayed_contract (hs : s.Idle) :
    Returns (cfgSetDelayed env args) s fun r s' => (CfgCall.setDelayed args).Contract env s r s' ∧ s'.Idle := by
  have hsame : ∀ (r : Int) s', r ≠ 0 → Allocs s s' → (CfgCall.setDelayed args).Contract env s r s' ∧ s'.Idle := by
    rintro r s' hr h
    have h' := h.setsNow
    obtain ⟨n, rfl⟩ := h
    exact ⟨⟨fun _ => ⟨rfl, h'.pending⟩, fun h0 => absurd h0 hr⟩, h'.idle hs⟩
  refine Returns.bind_iff.2 (Returns.get_iff.2 (Returns.ite (fun hsh => ?_) fun hsh => ?_))
  · cases hctx : args.ctx with
    | none => exact Returns.pure_iff.2 (hsame _ _ (by decide) ⟨s.mallocs, rfl⟩)
    | some c =>
      cases hx : env.lookupVar args.groupName args.varName with
      | none => exact Returns.pure_iff.2 (hsame _ _ (by decide) ⟨s.mallocs, rfl⟩)
      | some x =>
        refine Returns.ite (fun _ => Returns.pure_iff.2 (hsame _ _ (by decide) ⟨s.mallocs, rfl⟩)) fun _ => ?_
        refine (convertVal_allocs).bind fun v s1 h1 => ?_
        cases v with
        | none => exact Returns.pure_iff.2 (hsame _ _ (by decide) h1)
        | some v =>
          refine Returns.ite (fun _ => ?_) fun _ => Returns.pure_iff.2 (hsame _ _ (by decide) h1)
          obtain ⟨n, rfl⟩ := h1
          refine Returns.bind_iff.2 (returns_ctxLock (hs.free.ctx c) (Returns.bind (addChange_added) ?_))
          intro ok s2 h2
          exact Returns.bind_iff.2 (returns_ctxUnlock.2 (Returns.pure_iff.2 (h2.contract hs hsh hctx hx)))
  · refine (cfgSetNow_setsNow hs.free.writer).mono fun r s' h => ?_
    have hsh : s.shmized = false := by simpa using hsh
    refine ⟨⟨fun _ => ⟨h.global hsh, h.pending⟩, fun _ ht => absurd (ht.symm.trans hsh) (by simp)⟩, h.idle hs⟩

theorem cfgCommit_contract (hs : s.Idle) (hf : (CfgCall.commit ctx).Fits env s) :
    Returns (cfgCommit env ctx) s fun r s' => (CfgCall.commit ctx).Contract env s r s' ∧ s'.Idle := by
  cases ctx with
  | none => exact Returns.pure_iff.2 ⟨⟨fun _ => ⟨rfl, rfl⟩, fun h => absurd h (by decide)⟩, hs⟩
  | some c =>
    refine Returns.bind_iff.2 (Returns.get_iff.2 (.ite (fun hsh => ?_) fun hsh => ?_))
    · have hl : ∀ d, d ≠ c → ((s.setLocked c true).ctx d).locked = false := by
        intro d hd
        rw [locked_setLocked, if_neg hd]
        exact hs.free.ctx d
      have hp : ((s.setLocked c true).ctx c).changed = s.pending c := congrFun (pending_setLocked) c
      refine Returns.bind_iff.2 (returns_ctxLock (hs.free.ctx c) (Returns.bind_iff.2 (Returns.get_iff.2 ?_)))
      rw [hp]
      refine .ite (fun hnil => ?_) fun _ => ?_
      · refine Returns.bind_iff.2 (returns_ctxUnlock.2
          (Returns.pure_iff.2 ⟨⟨fun h => absurd h (by decide), fun _ => ?_⟩, ?_⟩))
        · refine ⟨c, rfl, by rw [hnil]; rfl, ?_⟩
          rw [pending_setLocked, pending_setLocked, ← hnil, update_eq_self]
        · exact idle_unlock hsh hl hs.free.writer
      · refine .bind (newChildCbs_some ?_) fun cbs s1 h1 => ?_
        · intro k hk
          rw [countP_map] at hk
          exact hf k hk
        · obtain ⟨hsome, n, rfl⟩ := h1
          obtain ⟨cbs, rfl⟩ := Option.isSome_iff_exists.1 hsome
          refine .bind (commitBlock_installed ?_) fun ok s2 h2 => ?_
          · exact hs.free.writer
          · cases h2 with
            | no m =>
              refine Returns.bind_iff.2 (returns_ctxUnlock.2
                (Returns.pure_iff.2 ⟨⟨fun _ => ⟨rfl, ?_⟩, fun h => ?_⟩, ?_⟩))
              · rw [pending_setLocked]
                exact pending_setLocked
              · exact absurd h (by decide)
              · exact idle_unlock hsh hl hs.free.writer
            | yes m =>
              refine Returns.bind_iff.2 (Returns.modify_iff.2 (Returns.bind_iff.2 (returns_ctxUnlock.2 ?_)))
              refine Returns.pure_iff.2 ⟨⟨fun h => absurd h (by decide), fun _ => ⟨c, rfl, rfl, ?_⟩⟩, ?_⟩
              · rw [pending_setLocked, pending_setChanged]
                exact congrArg (update · c []) (pending_setLocked)
              · exact idle_unlock hsh (fun d hd => (locked_setChanged [] d).trans (hl d hd)) hs.free.writer
    · have hsh : s.shmized = false := by simpa using hsh
      refine Returns.pure_iff.2 ⟨⟨fun h => absurd h (by decide), fun _ => ⟨c, rfl, ?_, hs.update_nil hsh⟩⟩, hs⟩
      rw [hs.early hsh]
      rfl

theorem exec_contract (call : CfgCall) (hs : s.Idle) (hf : call.Fits env s) :
    Returns (call.exec env) s fun r s' => call.Contract env s r s' ∧ s'.Idle := by
  cases call with
  | setNow args => exact cfgSetNow_contract hs
  | setDelayed args => exact cfgSetDelayed_contract hs
  | commit ctx => exact cfgCommit_contract hs hf
  | rollback ctx => exact cfgRollback_contract hs

end Calls

/-- One call that returns, for which the memory for its callbacks is there. -/
def CfgStep (env : Env) (s s' : CfgState) : Prop :=
  ∃ (call : CfgCall) (r : Int), call.Fits env s ∧ call.exec env s = some (r, s')

theorem CfgStep.idle {env s} (h : CfgStep env s s') (hs : s.Idle) : s'.Idle := by
  obtain ⟨call, r, hf, hr⟩ := h
  obtain ⟨r', s1, hr1, -, hi⟩ := exec_contract call hs hf
  cases hr.symm.trans hr1
  exact hi

theorem idle_of_run {env s0 s} (h0 : s0.Idle) (hrun : Relation.ReflTransGen (CfgStep env) s0 s) : s.Idle := by
  induction hrun with
  | refl => exact h0
  | tail _ hstep ih => exact hstep.idle ih

/-- One integer that needs a callback in the children, in one context. -/
def sampleEnv (malloc : Nat → Bool) : Env where
  lookupVar _ _ := some 0
  var _ := ⟨0, .int, .int, false, false, 0, 0, none, true⟩
  strtol _ := none
  str2sint _ := none
  int2str _ := []
  malloc := malloc

def sampleState : CfgState := ⟨true, fun _ => .int 1, fun _ => .int 1, fun _ => ⟨false, []⟩, false, [], 0⟩

def sampleSet : CfgCall := .setDelayed ⟨some 0, [], [], .int 7, fun _ => .int 1⟩

/-- A change of the integer waits for its commit. -/
def samplePending : CfgState :=
  { ((sampleState.setLocked 0 true).setChanged 0 [(0,
    .int 7)]).setLocked 0 false with mallocs := 1 }

theorem sampleState_idle : sampleState.Idle := ⟨⟨fun _ => rfl, rfl⟩, fun _ => rfl⟩

/-- In every run each call returns, meets its contract, and leaves no lock. -/
theorem cfg_calls_all_or_nothing (env : Env) {s₀ s : CfgState} (h₀ : s₀.Idle)
    (hrun : Relation.ReflTransGen (CfgStep env) s₀ s)
    (call : CfgCall) (hf : call.Fits env s) :
    Returns (call.exec env) s fun r s' => call.Contract env s r s' ∧ s'.Free :=
  (exec_contract call (idle_of_run h₀ hrun) hf).mono fun _ _ h => ⟨h.1, h.2.free⟩

theorem cfg_calls_sample :
    Returns ((CfgCall.commit (some 0)).exec (sampleEnv fun _ => true)) samplePending fun r s' =>
      (CfgCall.commit (some 0)).Contract (sampleEnv fun _ => true) samplePending r s' ∧ s'.Free :=
  cfg_calls_all_or_nothing _ sampleState_idle (.single ⟨sampleSet, 0, trivial, rfl⟩) (.commit (some 0)) fun _ _ => rfl

/-- There is no memory for the callback of a commit: it returns -1 with the lock of its context, and
the next call on the context waits for ever. -/
theorem commit_keeps_lock :
    ∃ (env : Env) (s₀ s s' : CfgState) (set : CfgCall),
      s₀.Idle ∧ set.exec env s₀ = some (0, s) ∧ (CfgCall.commit (some 0)).exec env s = some (-1, s') ∧
        (s'.ctx 0).locked = true ∧ (CfgCall.rollback (some 0)).exec env s' = none :=
  ⟨sampleEnv fun n => n ≠ 1, sampleState, samplePending, _, sampleSet, sampleState_idle, rfl, rfl, rfl, rfl⟩

end SipRouter.Cfg
