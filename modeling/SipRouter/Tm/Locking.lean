import SipRouter.Tm.Reply

/-!
# The reply lock

`relay_reply`, `local_reply` and `fake_reply` are called with the reply lock of
the transaction held and return with it released. Any number of processes run
operations on the transaction, a step at a time. They keep to this if the
retransmission of a request never fails, where `retransmission_handler` calls
`fake_reply` without the lock, and if no branch is blind or no reply is sent
under the lock: cancelling a blind branch takes the lock to fake a 487.

What they do to the UAS side is part of the same protocol: its status is set
with the lock held, after a look at it, and a reply that is sent is one whose
status the process has set and not sent so far.
-/

namespace SipRouter.Tm

open Lib List

/-- No branch is blind. -/
def Cell.Buffered (c : Cell) : Prop := ∀ u ∈ c.uacs, u.hasBuffer = true

/-- The codes that the status was set to. -/
def Cell.statuses (c : Cell) : List Nat :=
  c.log.filterMap fun e => match e with
    | .status code => some code
    | _ => none

/-- The codes of the replies that were sent. -/
def Cell.sents (c : Cell) : List Nat :=
  c.log.filterMap fun e => match e with
    | .sent code => some code
    | _ => none

/-- A 2xx to an INVITE. -/
def Inv2xx (isInvite : Bool) (code : Nat) : Prop := isInvite = true ∧ 200 ≤ code ∧ code < 300

instance (isInvite : Bool) (code : Nat) : Decidable (Inv2xx isInvite code) :=
  inferInstanceAs (Decidable (_ ∧ _))

/-- The branches stay, and unless there are blind branches all of them have a request. -/
structure Grows (blind : Bool) (c c' : Cell) : Prop where
  nr : c.nrOfOutgoings ≤ c'.nrOfOutgoings
  buffered : blind = false → c.Buffered → c'.Buffered
  invite : c'.isInvite = c.isInvite

/-- The UAS side is as it was. -/
structure SameUas (c c' : Cell) : Prop where
  status : c'.status = c.status
  statuses : c'.statuses = c.statuses
  sents : c'.sents = c.sents

/-- What a process does to the UAS side; it notes the reply that it has to send. -/
inductive Answers (held : Bool) (due : Option Nat) (c : Cell) : Option Nat → Cell → Prop
  | quiet {c'} (h : SameUas c c') : Answers held due c due c'
  | set {c' code} (hheld : held = true) (hok : c.status < 200 ∨ Inv2xx c.isInvite code)
      (hstatus : c'.status = code) (hstatuses : c'.statuses = c.statuses ++ [code])
      (hsents : c'.sents = c.sents) : Answers held due c (some code) c'
  | send {c' code} (hdue : due = some code) (hstatus : c'.status = c.status)
      (hstatuses : c'.statuses = c.statuses) (hsents : c'.sents = c.sents ++ [code]) :
      Answers held due c none c'

theorem Grows.refl (blind : Bool) (c : Cell) : Grows blind c c := ⟨le_rfl, fun _ h => h, rfl⟩

theorem Grows.trans {blind c c' c''} (h : Grows blind c c') (h' : Grows blind c' c'') : Grows blind c c'' :=
  ⟨h.nr.trans h'.nr, fun hb hc => h'.buffered hb (h.buffered hb hc), h'.invite.trans h.invite⟩

theorem SameUas.refl (c : Cell) : SameUas c c := ⟨rfl, rfl, rfl⟩

theorem SameUas.trans {c c' c''} (h : SameUas c c') (h' : SameUas c' c'') : SameUas c c'' :=
  ⟨h'.status.trans h.status, h'.statuses.trans h.statuses, h'.sents.trans h.sents⟩

/-- What the processes do to a transaction: with the lock held the status stays, and a final status
is followed only by final ones. -/
def replies (blind : Bool) : Protocol Cell (Option Nat) where
  inv c := blind = false → c.Buffered
  other held c c' := Grows blind c c' ∧ (held = true → c'.status = c.status) ∧
    (200 ≤ c.status → 200 ≤ c'.status)
  own held due c due' c' := Grows blind c c' ∧ Answers held due c due' c'
  refl _ c := ⟨.refl blind c, fun _ => rfl, id⟩
  trans h h' := ⟨h.1.trans h'.1, fun hheld => (h'.2.1 hheld).trans (h.2.1 hheld), h'.2.2 ∘ h.2.2⟩
  mono h := ⟨h.1, fun hheld => absurd hheld (by decide), h.2.2⟩
  stable h hinv hb := h.1.buffered hb (hinv hb)
  own_refl _ _ c := ⟨.refl blind c, .quiet (.refl c)⟩
  own_other := by
    rintro held due c due' c' ⟨hgrows, hanswers⟩ held' hnot
    refine ⟨hgrows, ?_⟩
    cases hanswers with
    | quiet h => exact ⟨fun _ => h.status, fun hfin => h.status ▸ hfin⟩
    | send _ hstatus => exact ⟨fun _ => hstatus, fun hfin => hstatus ▸ hfin⟩
    | set hheld hok hstatus =>
      refine ⟨fun hheld' => absurd ⟨hheld, hheld'⟩ hnot, fun hfin => ?_⟩
      rw [hstatus]
      rcases hok with hlt | hinv
      · omega
      · exact hinv.2.1

section Quiet

variable {blind : Bool} {c c' c'' : Cell} {b : Nat} {f : Uac → Uac}

theorem quiet_of (h : Grows blind c c') (hs : SameUas c c') : (replies blind).Quiet c c' := fun _ _ => ⟨h, .quiet hs⟩

/-- A change that does not touch the branches. -/
theorem grows_of_uacs (huacs : c'.uacs = c.uacs) (hinv : c'.isInvite = c.isInvite) : Grows blind c c' := by
  refine ⟨?_, fun _ hc => ?_, hinv⟩
  · rw [Cell.nrOfOutgoings, Cell.nrOfOutgoings, huacs]
  · rwa [Cell.Buffered, huacs]

theorem grows_modifyUac (hf : ∀ u, (f u).hasBuffer = u.hasBuffer) (c : Cell) : Grows blind c (c.modifyUac b f) := by
  refine ⟨by simp, fun _ hc u hu => ?_, rfl⟩
  obtain ⟨i, hi, rfl⟩ := getElem_of_mem hu
  have hi' : i < c.uacs.length := by simpa [Cell.modifyUac] using hi
  have hmem := hc _ (getElem_mem hi')
  simp only [Cell.modifyUac, getElem_modify]
  split_ifs
  · rw [hf]
    exact hmem
  · exact hmem

theorem quiet_modifyUac (hf : ∀ u, (f u).hasBuffer = u.hasBuffer) (c : Cell) :
    (replies blind).Quiet c (c.modifyUac b f) :=
  quiet_of (grows_modifyUac hf c) ⟨rfl, rfl, rfl⟩

theorem sameUas_addUac (kind) (c : Cell) : SameUas c (c.addUac kind) := by
  unfold Cell.addUac
  split_ifs <;> exact ⟨rfl, rfl, rfl⟩

theorem grows_addUac {kind} (hkind : blind = false → kind ≠ .blind) (c : Cell) : Grows blind c (c.addUac kind) := by
  unfold Cell.addUac
  split_ifs
  · refine ⟨by simp [Cell.nrOfOutgoings], fun hb hc u hu => ?_, rfl⟩
    rcases mem_append.1 hu with hu | hu
    · exact hc u hu
    · rw [mem_singleton.1 hu]
      cases kind with
      | blind => exact absurd rfl (hkind hb)
      | sent | sendFailed => rfl
  · exact .refl blind c

theorem quiet_addUac {kind} (hkind : blind = false → kind ≠ .blind) (c : Cell) :
    (replies blind).Quiet c (c.addUac kind) :=
  quiet_of (grows_addUac hkind c) (sameUas_addUac kind c)

theorem quiet_addUacs {kinds} (hkinds : blind = false → .blind ∉ kinds) (c : Cell) :
    (replies blind).Quiet c (addUacs c kinds) := by
  suffices h : Grows blind c (addUacs c kinds) ∧ SameUas c (addUacs c kinds) from quiet_of h.1 h.2
  induction kinds generalizing c with
  | nil => exact ⟨.refl blind c, .refl c⟩
  | cons kind kinds ih =>
    have hkind : blind = false → kind ≠ .blind := fun hb h => hkinds hb (h ▸ .head _)
    have h := ih (fun hb hmem => hkinds hb (.tail _ hmem)) (c.addUac kind)
    exact ⟨(grows_addUac hkind c).trans h.1, (sameUas_addUac kind c).trans h.2⟩

theorem quiet_dropReplies {n} (c : Cell) : (replies blind).Quiet c (c.dropReplies n) := by
  refine quiet_of ⟨by simp [Cell.nrOfOutgoings, Cell.dropReplies]; omega, fun _ hc u hu => ?_, rfl⟩ ⟨rfl, rfl, rfl⟩
  rcases mem_append.1 hu with hu | hu
  · obtain ⟨v, hv, rfl⟩ := mem_map.1 hu
    exact hc v (mem_of_mem_take hv)
  · exact hc u (mem_of_mem_drop hu)

end Quiet

/-- A program that keeps `J` and to the lock. -/
abbrev Spares (blind : Bool) (J : Option Nat → Cell → Prop) (p : Proc α) (held held' : Bool) : Prop :=
  Turns (replies blind) J p held held' fun _ => J

/-- A program that keeps to the lock. -/
abbrev Alternates (blind : Bool) (p : Proc α) (held held' : Bool) : Prop := Spares blind (fun _ _ => True) p held held'

variable {f : Uac → Uac} {branch code : Nat} {reply : Reply} {b : Nat} {env : ReplyEnv} {is : List Nat}
  {build : Nat → Bool} {J : Option Nat → Cell → Prop}

/-! ## Cancelling -/

section Cancel

variable {blind held : Bool} [(replies blind).Stable held J]

theorem turns_modifyUac (hf : ∀ u, (f u).hasBuffer = u.hasBuffer := by simp) :
    Spares blind J (update fun c => c.modifyUac b f : Proc Unit) held held :=
  Turns.quiet (quiet_modifyUac hf)

/-- A change of what is neither the branches nor the UAS side. -/
theorem turns_set {f : Cell → Cell} (hf : ∀ c, (f c).uacs = c.uacs ∧ (f c).isInvite = c.isInvite ∧ SameUas c (f c)
      := by exact fun _ => ⟨rfl, rfl, rfl, rfl, rfl⟩) :
    Spares blind J (update f : Proc Unit) held held :=
  Turns.quiet fun c => quiet_of (grows_of_uacs (hf c).1 (hf c).2.1) (hf c).2.2

theorem turns_cmpxchgCancel {old new} : Spares blind J (cmpxchgCancel b old new) held held := by
  apply Turns.modifyGet
  intro c
  split_ifs
  · exact quiet_modifyUac (by simp) c
  · exact fun _ _ => (replies blind).own_refl _ _ c

theorem turns_shouldCancelBranch {noreply} : Spares blind J (shouldCancelBranch b noreply) held held :=
  (Turns.read _).bind fun _ => .ite (fun _ => turns_cmpxchgCancel) fun _ => .pure

theorem turns_whichCancelFrom : Spares blind J (whichCancelFrom is) held held := by
  induction is with
  | nil => exact .pure
  | cons i is ih => exact turns_shouldCancelBranch.bind fun _ => ih.bind fun _ => .pure

theorem turns_whichCancel : Spares blind J whichCancel held held := (Turns.read _).bind fun _ => turns_whichCancelFrom

/-- `cancel_branch` takes the lock only to fake a reply. -/
theorem turns_cancelBranch {relay487 flags} (hrelay : flags.fakeReply = true →
      held = false ∧ Spares blind J relay487 true false) {build} :
    Spares blind J (cancelBranch relay487 build b flags) held held := by
  refine (turns_modifyUac).bind fun _ => (Turns.read _).bind fun lastReceived => ?_
  refine .ite (fun _ => ?_) fun _ => .ite (fun _ => ?_) fun _ => ?_
  · refine (turns_modifyUac).bind fun _ => .ite (fun hfake => ?_) fun _ => .pure
    obtain ⟨rfl, hturns⟩ := hrelay hfake
    exact Turns.lock.bind fun _ => hturns.bind fun _ => .pure
  · exact (turns_modifyUac).bind fun _ => .pure
  · exact turns_cmpxchgCancel.bind fun _ => .pure

/-- `cancel_uacs` fakes a reply on a branch only if asked to, or if the branch is blind. -/
theorem turns_cancelUacsFrom {relay487 : Nat → Proc Rps} {bm flags}
    (hrelay : ∀ i ∈ is, ∀ due c, (replies blind).inv c → J due c →
      (flags.fakeReply || !(c.uac i).hasBuffer) = true → held = false ∧ Spares blind J (relay487 i) true false) :
    Spares blind J (cancelUacsFrom relay487 build bm flags is) held held := by
  induction is with
  | nil => exact .pure
  | cons i is ih =>
    have hrest := ih fun i' hi' => hrelay i' (.tail _ hi')
    refine .ite (fun _ => ?_) fun _ => hrest
    have hread : Turns (replies blind) J (read fun c => !(c.uac i).hasBuffer : Proc Bool) held held
        fun fake due c => J due c ∧
          ((flags.fakeReply || fake) = true → held = false ∧ Spares blind J (relay487 i) true false) :=
      .inspect fun due c hc hJ => ⟨hJ, hrelay i (.head _) due c hc hJ⟩
    refine hread.bind fun fake => .assume fun hfake => ?_
    exact (turns_cancelBranch hfake).bind fun _ => hrest.bind fun _ => .pure

end Cancel

section CancelUacs

variable {blind : Bool} {relay487 : Nat → Proc Rps} {bm : List Nat}

theorem turns_cancelUacsWith [(replies blind).Stable false J] (hrelay : ∀ b, Spares blind J (relay487 b) true false)
    {flags} : Spares blind J (cancelUacsWith relay487 build bm flags) false false :=
  (Turns.read _).bind fun _ => turns_cancelUacsFrom fun i _ _ _ _ _ _ => ⟨rfl, hrelay i⟩

/-- There are at least `n` branches. -/
instance (n : Nat) (held : Bool) : (replies blind).Stable held fun _ c => n ≤ c.nrOfOutgoings :=
  ⟨fun hs h => h.trans hs.1.nr⟩

/-- Under the lock `cancel_uacs` must not meet a blind branch. -/
theorem turns_cancelUacsWith_locked [(replies false).Stable true J] :
    Spares false J (cancelUacsWith relay487 build bm killFlag) true true := by
  have hread : Turns (replies false) J (read Cell.nrOfOutgoings : Proc Nat) true true
      fun n due c => J due c ∧ n ≤ c.nrOfOutgoings := .inspect fun _ _ _ hJ => ⟨hJ, le_rfl⟩
  refine hread.bind fun n => ?_
  have hfrom : Spares false (fun due c => J due c ∧ n ≤ c.nrOfOutgoings)
      (cancelUacsFrom relay487 build bm killFlag (List.range n)) true true := by
    refine turns_cancelUacsFrom fun i hi due c hc hJ hfake => ?_
    have hlt := lt_of_lt_of_le (mem_range.1 hi) hJ.2
    have hbuf : (c.uac i).hasBuffer = true := by
      rw [Cell.uac, getD_eq_getElem _ _ hlt]
      exact hc rfl _ (getElem_mem hlt)
    simp [killFlag, noFlags, hbuf] at hfake
  exact hfrom.post fun _ _ _ h => h.1

end CancelUacs

/-! ## The UAS side -/

/-- The status may be set to this code. -/
def MaySet (code : Nat) : Option Nat → Cell → Prop := fun _ c => c.status < 200 ∨ Inv2xx c.isInvite code

/-- The process has set the status to this code and has the reply to send. -/
def Due (code : Nat) : Option Nat → Cell → Prop := fun due c => due = some code ∧ (200 ≤ code → 200 ≤ c.status)

/-- The status is as it was read. -/
def AsRead (c₀ : Cell) : Option Nat → Cell → Prop := fun _ c => c.status = c₀.status ∧ c.isInvite = c₀.isInvite

section Uas

variable {blind held : Bool}

instance : (replies blind).Stable true (MaySet code) :=
  ⟨fun hs h => by rwa [MaySet, hs.2.1 rfl, hs.1.invite]⟩

instance : (replies blind).Stable held (Due code) := ⟨fun hs h => ⟨h.1, fun hc => hs.2.2 (h.2 hc)⟩⟩

instance {c₀} : (replies blind).Stable true (AsRead c₀) :=
  ⟨fun hs h => ⟨(hs.2.1 rfl).trans h.1, hs.1.invite.trans h.2⟩⟩

theorem turns_readCell : Turns (replies blind) (fun _ _ => True) (read id : Proc Cell) true true AsRead :=
  .inspect fun _ _ _ _ => ⟨rfl, rfl⟩

theorem turns_setStatus (relay : Cell → Int) : Turns (replies blind) (MaySet code)
    (update fun c => { c.setStatus code with relayedReplyBranch := relay c } : Proc Unit) true true
      fun _ => Due code := by
  refine .update fun due c _ hok => ⟨some code, ⟨grows_of_uacs rfl rfl, ?_⟩, rfl, id⟩
  exact .set rfl hok rfl (by simp [Cell.statuses, Cell.setStatus]) (by simp [Cell.sents, Cell.setStatus])

theorem turns_send : Turns (replies blind) (Due code) (update fun c => c.send code : Proc Unit) held held
    fun _ _ _ => True := by
  refine .update fun due c _ hdue => ⟨none, ⟨grows_of_uacs rfl rfl, ?_⟩, trivial⟩
  exact .send hdue.1 rfl (by simp [Cell.statuses, Cell.send]) (by simp [Cell.sents, Cell.send])

end Uas

/-! ## Local replies -/

section Reply

variable {blind : Bool} {lock : Bool} [(replies blind).Stable false J]

theorem turns_whenLock : Spares blind J (when lock lockReplies) (!lock) true := by
  cases lock with
  | false => exact (Turns.pure : Spares blind J (pure ()) true true)
  | true => exact .lock

theorem turns_whenUnlock : Spares blind J (when lock unlockReplies) true (!lock) := by
  cases lock with
  | false => exact (Turns.pure : Spares blind J (pure ()) true true)
  | true => exact .unlock

end Reply

section ReplyLight

variable {blind : Bool}

/-- `_reply_light`, which takes the lock itself or is called with it. While its final reply is to
be sent, the cancelling answers nothing. -/
theorem turns_replyLight {cancel lock} (hcancel : ∀ bm, Alternates blind (cancel bm) (!lock) (!lock))
    (hdue : 200 ≤ code → ∀ bm, Spares blind (Due code) (cancel bm) (!lock) (!lock)) :
    Alternates blind (replyLight cancel lock env code) (!lock) (!lock) := by
  have herror : ∀ inv bm, Alternates blind (replyLightError cancel inv bm) (!lock) (!lock) :=
    fun inv bm => (Turns.when inv fun _ => (hcancel bm).bind fun _ => .pure).bind fun _ => .pure
  have hleave : ∀ inv bm, Alternates blind (do when lock unlockReplies; replyLightError cancel inv bm) true (!lock) :=
    fun inv bm => turns_whenUnlock.bind fun _ => herror inv bm
  have hstatus : Turns (replies blind) (fun _ _ => True) (read Cell.status : Proc Nat) true true
      fun status due c => status < 200 → MaySet code due c := .inspect fun _ _ _ _ h => .inl h
  have hsend : Turns (replies blind) (Due code) (when env.sock (update fun c => c.send code) : Proc Unit)
      (!lock) (!lock) fun _ _ _ => True := by
    cases env.sock with
    | false => exact .value fun _ _ _ => trivial
    | true => exact turns_send
  refine (Turns.read _).bind fun inv => .ite (fun _ => ?_) fun _ => ?_
  · refine .ite (fun _ => ?_) fun _ => herror inv []
    exact turns_whenLock.bind fun _ => turns_whichCancel.bind fun bm => hleave inv bm
  · refine turns_whenLock.bind fun _ => ?_
    refine (Turns.ite (fun _ => turns_whichCancel) fun _ => .pure).bind fun bm => ?_
    refine hstatus.bind fun status => .ite (fun _ => (hleave inv bm).pre fun _ _ _ => trivial) fun hlt => ?_
    refine ((turns_setStatus Cell.relayedReplyBranch).pre fun _ _ h => h (by omega)).bind fun _ => ?_
    refine .ite (fun _ => ?_) fun _ => ?_
    · exact (turns_set).bind fun _ => (hleave inv bm).pre fun _ _ _ => trivial
    · refine (turns_set).bind fun _ => turns_whenUnlock.bind fun _ => ?_
      refine (Turns.when _ fun hfin => ?_).bind fun _ => hsend.bind fun _ => .pure
      simp only [Bool.and_eq_true, decide_eq_true_eq] at hfin
      exact (hdue hfin.1 bm).bind fun _ => .pure

theorem turns_tReplyUnsafe : Alternates false (tReplyUnsafe env code) true true :=
  turns_replyLight (fun _ => turns_cancelUacsWith_locked) fun _ _ => turns_cancelUacsWith_locked

end ReplyLight

/-! ## Relaying -/

/-- What the failure handlers may do. Without blind branches, they add none; with them, they send
no reply. -/
def FailAct.Safe (blind : Bool) : FailAct → Prop
  | .reply _ _ => blind = false
  | .addBranch kind => blind = false → kind ≠ .blind
  | .dropReplies => True
  | .onFailure => True

/-- What may happen in `relay_reply`: with blind branches, no reply is sent under the lock, also
not because of an error. -/
structure RelayEnv.Safe (blind : Bool) (env : RelayEnv) : Prop where
  acts : ∀ act ∈ env.acts, act.Safe blind
  kill : blind = true → env.killCode = none
  mem : blind = true → env.store = true ∧ env.buf = true ∧ env.shm = true

section Relay

variable {blind : Bool}

theorem turns_runAct {act} (hact : act.Safe blind) : Alternates blind (runAct act) true true := by
  cases act with
  | reply code env =>
    obtain rfl : blind = false := hact
    exact turns_tReplyUnsafe.bind fun _ => .pure
  | addBranch kind => exact (Turns.quiet fun c => quiet_addUac hact c).bind fun _ => .pure
  | dropReplies => exact .pure
  | onFailure => exact (turns_set).bind fun _ => .pure

theorem turns_runActs {acts} (hacts : ∀ act ∈ acts, act.Safe blind) :
    Alternates blind (runActs acts) true true := by
  induction acts with
  | nil => exact .pure
  | cons act acts ih =>
    refine (turns_runAct (hacts act (.head _))).bind fun _ => ?_
    exact (ih fun act' h => hacts act' (.tail _ h)).bind fun _ => .pure

/-- A branch is relayed only if no final status was set, or for a 2xx to an INVITE. -/
def MayRelay (branch code : Nat) (d : Decision) : Option Nat → Cell → Prop := fun _ c =>
  ∀ r, d.relay = some r → c.status < 200 ∨ Inv2xx c.isInvite code ∧ r = branch

instance {d} : (replies blind).Stable true (MayRelay branch code d) :=
  ⟨fun hs h r hr => by rw [hs.2.1 rfl, hs.1.invite]; exact h r hr⟩

variable {env : RelayEnv} {d : Decision} {due : Option Nat} {c : Cell}

theorem mayRelay_none (hd : d.relay = none) : MayRelay branch code d due c := fun r hr => by simp [hd] at hr

theorem mayRelay_of_lt (hlt : c.status < 200) : MayRelay branch code d due c := fun _ _ => .inl hlt

/-- The code that is relayed may be set as the status. -/
theorem MayRelay.maySet {r n} (h : MayRelay branch code d due c) (hr : d.relay = some r)
    (hn : r = branch → code < 300 → n = code) : MaySet n due c := by
  rcases h r hr with hlt | ⟨hinv, hbranch⟩
  · exact .inl hlt
  · rw [MaySet, hn hbranch hinv.2.2]
    exact .inr hinv

theorem turns_runFailureHandlers (henv : env.Safe blind) :
    Alternates blind (runFailureHandlers env.acts) true true := by
  refine (Turns.read _).bind fun _ => .ite (fun _ => .pure) fun _ => ?_
  exact (turns_set).bind fun _ => turns_runActs henv.acts

theorem turns_branchesFailed (henv : env.Safe blind) :
    Turns (replies blind) (fun _ _ => True) (branchesFailed env) true true (MayRelay branch code) := by
  rw [branchesFailed]
  cases hkill : env.killCode with
  | none => exact .value fun _ _ _ => mayRelay_none rfl
  | some code =>
    cases blind with
    | true => exact absurd (henv.kill rfl) (by simp [hkill])
    | false => exact turns_tReplyUnsafe.bind fun _ => .value fun _ _ _ => mayRelay_none rfl

theorem turns_cancelOn6xx : Alternates blind (cancelOn6xx code) true true := by
  refine (Turns.read _).bind fun _ => .ite (fun _ => ?_) fun _ => .pure
  exact turns_whichCancel.bind fun _ => (turns_set).bind fun _ => .pure

theorem turns_afterHandlers (henv : env.Safe blind) {branchCnt picked drop} :
    Turns (replies blind) (fun _ _ => True) (afterHandlers env branch code branchCnt picked drop) true true
      (MayRelay branch code) := by
  refine turns_readCell.bind fun c => .ite (fun _ => .value fun _ _ _ => mayRelay_none rfl) fun hlt => ?_
  have hrelay : ∀ d : Decision, Turns (replies blind) (AsRead c) (pure d : Proc Decision) true true
      (MayRelay branch code) :=
    fun d => .value fun _ _ h => mayRelay_of_lt (by rw [h.1]; omega)
  have hfailed : Turns (replies blind) (AsRead c) (branchesFailed env) true true (MayRelay branch code) :=
    (turns_branchesFailed henv).pre fun _ _ _ => trivial
  refine .ite (fun _ => ?_) fun _ => .ite (fun _ => hfailed) fun _ => hrelay _
  cases tPickBranch (if drop then none else some branch) code c with
  | picked newBranch _ => exact hrelay _
  | openBranches => exact .ite (fun _ => hrelay _) fun _ => hrelay _
  | nothing => exact .ite (fun _ => hfailed) fun _ => hrelay _

theorem turns_negativeReply (henv : env.Safe blind) :
    Turns (replies blind) (fun _ _ => True) (negativeReply env branch code reply) true true
      (MayRelay branch code) := by
  refine (turns_modifyUac).bind fun _ => (Turns.read _).bind fun c => ?_
  cases tPickBranch (some branch) code c with
  | openBranches => exact turns_cancelOn6xx.bind fun _ => .value fun _ _ _ => mayRelay_none rfl
  | nothing => exact .value fun _ _ _ => mayRelay_none rfl
  | picked picked pickedCode =>
    have hstore : ∀ c : Cell, (replies blind).Quiet c
        { c.modifyUac branch (fun u => { u with reply := some reply }) with t6xx := false } :=
      fun c => quiet_of ((grows_modifyUac (by simp) c).trans (grows_of_uacs rfl rfl)) ⟨rfl, rfl, rfl⟩
    refine (Turns.quiet hstore).bind fun _ => (Turns.read _).bind fun handlers => ?_
    refine (Turns.ite (fun _ => turns_runFailureHandlers henv) fun _ => .pure).bind fun drop => ?_
    refine (Turns.when drop fun _ => .quiet quiet_dropReplies).bind fun _ => ?_
    exact (turns_modifyUac).bind fun _ => turns_afterHandlers henv

/-- `t_should_relay_response` lets no reply through but those that may be sent. -/
theorem turns_tShouldRelayResponse (henv : env.Safe blind) :
    Turns (replies blind) (fun _ _ => True) (tShouldRelayResponse env branch code reply) true true
      (MayRelay branch code) := by
  refine turns_readCell.bind fun c => .ite (fun _ => ?_) fun hlt => ?_
  · -- a 2xx to an INVITE after the final reply
    refine .ite (fun hinv => ?_) fun _ => .value fun _ _ _ => mayRelay_none rfl
    simp only [Bool.and_eq_true, decide_eq_true_eq] at hinv
    refine (turns_modifyUac).bind fun _ => .value fun _ c' h r hr => .inr ⟨?_, (Option.some.inj hr).symm⟩
    rw [h.2]
    exact ⟨hinv.2, hinv.1⟩
  have hrelay : ∀ d : Decision, Turns (replies blind) (AsRead c) (pure d : Proc Decision) true true
      (MayRelay branch code) :=
    fun d => .value fun _ _ h => mayRelay_of_lt (by rw [h.1]; omega)
  refine .ite (fun _ => hrelay _) fun _ => ?_
  refine .ite (fun _ => (turns_negativeReply henv).pre fun _ _ _ => trivial) fun _ => .ite (fun _ => ?_) fun _ => ?_
  · exact (turns_modifyUac).bind fun _ => turns_whichCancel.bind fun _ => hrelay _
  · exact .ite (fun _ => (turns_modifyUac).bind fun _ => hrelay _) fun _ => hrelay _

/-- Storing the reply fails only where a reply may be sent under the lock. -/
theorem turns_store {store} (hstore : blind = true → store = true) :
    Turns (replies blind) (MayRelay branch code d) (if d.store = true then
      storeReply store branch reply else pure true)
      true true fun stored due c => MayRelay branch code d due c ∧ (¬ stored = true → blind = false) := by
  refine .ite (fun _ => ?_) fun _ => .value fun _ _ h => ⟨h, fun hfail => absurd rfl hfail⟩
  refine (turns_modifyUac).bind fun _ => .value fun _ _ h => ⟨h, fun hfail => ?_⟩
  by_contra hb
  exact hfail (by simp [hstore (by simpa using hb)])

theorem turns_relayError (hblind : blind = false) : Alternates blind (relayError env) true false := by
  subst hblind
  exact turns_tReplyUnsafe.bind fun _ => Turns.unlock.bind fun _ => (Turns.leave _).bind fun _ => .pure

/-- The status of a message that was received is its code. -/
def Reply.Fits (reply : Reply) (code : Nat) : Prop := reply = .faked ∨ reply = .msg code

/-- A 2xx is relayed with its own code. -/
theorem relayedCode_self (hfits : reply.Fits code) (hcode : code < 300) :
    relayedCode c branch branch code reply = code := by
  unfold relayedCode
  rw [if_pos rfl]
  rcases hfits with rfl | rfl
  · exact if_pos rfl
  · exact if_neg (by omega)

/-- `relay_reply` is called with the lock and returns without. -/
theorem turns_relayReply (henv : env.Safe blind) (hfits : reply.Fits code) :
    Alternates blind (relayReply env branch code reply) true false := by
  have hleave : ∀ res : Rps × List Nat,
      Alternates blind (do Prog.emit (.leave .relayReply); pure res : Proc (Rps × List Nat))
      false false :=
    fun res => (Turns.leave _).bind fun _ => .pure
  refine (Turns.enter _).bind fun _ => (turns_tShouldRelayResponse henv).bind fun d => ?_
  refine (turns_store fun h => (henv.mem h).1).bind fun stored => .assume fun hstored => ?_
  refine .ite (fun hfail => (turns_relayError (hstored hfail)).pre fun _ _ _ => trivial) fun _ => ?_
  cases hr : d.relay with
  | none => exact (Turns.unlock.bind fun _ => hleave _).pre fun _ _ _ => trivial
  | some relay =>
    have hread : Turns (replies blind) (MayRelay branch code d)
        (read fun c => relayedCode c relay branch code reply : Proc Nat) true true MaySet :=
      .inspect fun _ c _ h => h.maySet hr fun hb hlt => by rw [hb]; exact relayedCode_self hfits hlt
    refine hread.bind fun relayed => .ite (fun hmem => ?_) fun _ => ?_
    · refine (Turns.when _ fun _ => turns_set).bind fun _ => (Turns.when _ fun _ => turns_modifyUac).bind fun _ => ?_
      refine (turns_relayError (Bool.eq_false_iff.2 fun hb => hmem ?_)).pre fun _ _ _ => trivial
      exact ⟨(henv.mem hb).2.1, (henv.mem hb).2.2⟩
    · refine (turns_set).bind fun _ => (turns_setStatus fun _ => (relay : Int)).bind fun _ => ?_
      exact Turns.unlock.bind fun _ => turns_send.bind fun _ => hleave _

end Relay

/-! ## Operations -/

def CancelEnv.Safe (blind : Bool) (env : CancelEnv) : Prop := ∀ b, (env.relay b).Safe blind

structure ReceiveEnv.Safe (blind : Bool) (env : ReceiveEnv) : Prop where
  relay : env.relay.Safe blind
  cancel : env.cancel.Safe blind

section Operations

variable {blind : Bool} {flags : CancelFlags}

theorem turns_fake487 {env} (henv : env.Safe blind) (b : Nat) : Alternates blind (fake487 env b) true false :=
  (turns_relayReply (henv b) (.inl rfl)).bind fun _ => .pure

/-- A 487 that is faked after a final status was set is dropped. -/
theorem turns_fake487_due {env} (hfin : 200 ≤ code) (b : Nat) :
    Spares blind (Due code) (fake487 env b) true false := by
  have hread : Turns (replies blind) (Due code) (read id : Proc Cell) true true
      fun c due c' => Due code due c' ∧ 200 ≤ c.status := .inspect fun _ _ _ h => ⟨h, h.2 hfin⟩
  have hdecide : Turns (replies blind) (Due code) (tShouldRelayResponse (env.relay b) b 487 .faked) true true
      fun d due c => Due code due c ∧ d = discard := by
    refine hread.bind fun c => .assume fun hc => .ite (fun _ => ?_) fun h => absurd hc h
    exact .ite (fun h => absurd h (by simp)) fun _ => .value fun _ _ h => ⟨h, rfl⟩
  have hrelay : Spares blind (Due code) (relayReply (env.relay b) b 487 .faked) true false := by
    have hstored : Turns (replies blind) (Due code) (pure true : Proc Bool) true true
        fun stored due c => Due code due c ∧ stored = true := .value fun _ _ h => ⟨h, rfl⟩
    refine (Turns.enter _).bind fun _ => hdecide.bind fun d => .assume ?_
    rintro rfl
    refine hstored.bind fun stored => .assume ?_
    rintro rfl
    exact Turns.unlock.bind fun _ => (Turns.leave _).bind fun _ => .pure
  exact hrelay.bind fun _ => .pure

theorem turns_cancelUacs {env} (henv : env.Safe blind) (bm) : Alternates blind (cancelUacs env bm flags) false false :=
  turns_cancelUacsWith (turns_fake487 henv)

theorem turns_tReply {cancel} (hcancel : cancel.Safe blind) :
    Alternates blind (tReply env cancel code) false false :=
  turns_replyLight (fun bm => turns_cancelUacs hcancel bm) fun hfin _ => turns_cancelUacsWith (turns_fake487_due hfin)

variable {env : ReceiveEnv} {cseqInvite : Bool}

theorem turns_localError (henv : env.Safe blind) :
    Alternates blind (localError env cseqInvite) true false := by
  refine turns_whichCancel.bind fun bm => Turns.unlock.bind fun _ => ?_
  refine (Turns.when cseqInvite fun _ => ?_).bind fun _ => (Turns.leave _).bind fun _ => .pure
  exact (turns_cancelUacs henv.cancel bm).bind fun _ => .pure

theorem winningCode_self {c} (hfits : reply.Fits code) : winningCode c branch branch code reply = code := by
  unfold winningCode
  rw [if_pos rfl]
  rcases hfits with rfl | rfl
  · exact if_pos rfl
  · rfl

theorem turns_setWinner {d} (hfits : reply.Fits code) :
    Turns (replies blind) (MayRelay branch code d) (setWinner d.relay branch code reply) true true
      fun _ _ _ => True := by
  cases hr : d.relay with
  | none => exact .value fun _ _ _ => trivial
  | some winner =>
    have hread : Turns (replies blind) (MayRelay branch code d)
        (read fun c => winningCode c winner branch code reply : Proc Nat) true true MaySet :=
      .inspect fun _ c _ h => h.maySet hr fun hb _ => by rw [hb]; exact winningCode_self hfits
    exact hread.bind fun _ => (turns_setStatus Cell.relayedReplyBranch).post fun _ _ _ _ => trivial

/-- `local_reply` is called with the lock and returns without. -/
theorem turns_localReply (henv : env.Safe blind) (hfits : reply.Fits code) :
    Alternates blind (localReply env cseqInvite branch code reply) true false := by
  refine (Turns.enter _).bind fun _ => (turns_tShouldRelayResponse henv.relay).bind fun d => ?_
  refine (turns_store fun h => (henv.relay.mem h).1).bind fun stored => .assume fun _ => ?_
  refine .ite (fun _ => (turns_localError henv).pre fun _ _ _ => trivial) fun _ => ?_
  exact (turns_setWinner hfits).bind fun _ => Turns.unlock.bind fun _ => (Turns.leave _).bind fun _ => .pure

/-- `fake_reply` is called with the lock and returns without. -/
theorem turns_fakeReply (henv : env.Safe blind) :
    Alternates blind (fakeReply env branch code) true false := by
  refine (Turns.enter _).bind fun _ => (Turns.read _).bind fun inv => ?_
  refine (Turns.ite (fun _ => turns_shouldCancelBranch) fun _ => .pure).bind fun doCancelBranch => ?_
  refine (turns_modifyUac).bind fun _ => (Turns.read _).bind fun isLocal => ?_
  refine (Turns.ite (fun _ => turns_localReply henv (.inl rfl))
    fun _ => turns_relayReply henv.relay (.inl rfl)).bind fun _ => ?_
  refine (Turns.when doCancelBranch fun _ => ?_).bind fun _ => .leave _
  exact (turns_cancelBranch fun h => absurd h (by decide)).bind fun _ => .pure

variable {added : List BranchKind} {activType : ActivType} {sock : Bool}

theorem turns_failover (hadded : blind = false → .blind ∉ added) : Alternates blind (failover added) false false := by
  induction added with
  | nil => exact .pure
  | cons kind kinds ih =>
    have hkind : blind = false → kind ≠ .blind := fun hb h => hadded hb (h ▸ .head _)
    refine Turns.lock.bind fun _ => (Turns.quiet (quiet_addUac hkind)).bind fun _ => ?_
    exact Turns.unlock.bind fun _ => ih fun hb h => hadded hb (.tail _ h)

theorem turns_cancelAgain {env} : Alternates blind (cancelAgain env branch) false false := by
  refine (Turns.read _).bind fun cancel => .when _ fun _ => ?_
  refine turns_cmpxchgCancel.bind fun reserved => .when _ fun _ => ?_
  exact (turns_cancelBranch fun h => absurd h (by decide)).bind fun _ => .pure

theorem turns_cancelAfter {env} (henv : env.Safe blind) {inv res} :
    Alternates blind (cancelAfter env flags inv res) false false := by
  have hcancel : ∀ flags, Alternates blind (do let _ ← cancelUacs env res.2 flags) false false :=
    fun flags => (turns_cancelUacs henv res.2).bind fun _ => .pure
  exact .ite (fun _ => .when _ fun _ => hcancel _) fun _ => .when _ fun _ => hcancel _

theorem turns_replyReceived (henv : env.Safe blind) (hadded : blind = false → .blind ∉ added) {m} :
    Alternates blind (replyReceived env flags added m) false false := by
  refine (Turns.read _).bind fun c => .ite (fun _ => .pure) fun _ => ?_
  refine .ite (fun _ => turns_cancelAgain) fun _ => ?_
  refine (Turns.when _ fun _ => turns_failover hadded).bind fun _ => Turns.lock.bind fun _ => ?_
  refine (Turns.ite (fun _ => turns_localReply henv (.inr rfl))
    fun _ => turns_relayReply henv.relay (.inr rfl)).bind fun res => ?_
  exact turns_cancelAfter henv.cancel

theorem turns_tRetransmitReply : Alternates blind (tRetransmitReply sock) false false := by
  refine Turns.when sock fun _ => Turns.lock.bind fun _ => (Turns.read _).bind fun response => ?_
  refine Turns.unlock.bind fun _ => ?_
  cases response with
  | none => exact .pure
  | some code =>
    exact turns_set fun c => ⟨rfl, rfl, rfl, by simp [Cell.statuses], by simp [Cell.sents]⟩

theorem turns_finalResponseHandler (henv : env.Safe blind)
    {noisy} (hadded : blind = false → .blind ∉ added) :
    Alternates blind (finalResponseHandler env activType branch noisy added) false false := by
  cases activType with
  | localCancel | reply => exact .pure
  | request =>
    refine Turns.lock.bind fun _ => (Turns.read _).bind fun c => ?_
    refine .ite (fun _ => Turns.unlock) fun _ => ?_
    refine (Turns.when _ fun _ => .quiet (quiet_addUacs hadded)).bind fun _ => ?_
    exact turns_fakeReply henv

/-- A request or a CANCEL is sent again. -/
def RetrBuf.resends (rb : RetrBuf) : Prop :=
  rb.delTimer = false ∧ rb.frExpired = false ∧ rb.retrExpired = true ∧ rb.retrDisabled = false ∧
    rb.activType ≠ .reply

theorem turns_retransmissionHandler {sendOk}
    (hsend : activType ≠ .reply → sendOk = true) :
    Alternates blind (retransmissionHandler env activType branch sendOk sock) false false := by
  cases activType with
  | request | localCancel => exact .when _ fun h => absurd (hsend (by decide)) (by simpa using h)
  | reply => exact turns_tRetransmitReply

theorem turns_retrBufHandler {env} (henv : env.toReceiveEnv.Safe blind)
    (hadded : blind = false → .blind ∉ env.added) {rb} (hsend : rb.resends → env.sendOk = true) :
    Alternates blind (retrBufHandler env rb) false false := by
  refine .ite (fun _ => .pure) fun hdel => ?_
  refine .ite (fun _ => turns_finalResponseHandler henv hadded) fun hfr => ?_
  refine .when _ fun hretr => turns_retransmissionHandler (fun htype => hsend ?_)
  simp only [Bool.and_eq_true, Bool.not_eq_eq_eq_not, Bool.not_true] at hretr
  exact ⟨by simpa using hdel, by simpa using hfr, hretr.1, hretr.2, htype⟩

theorem turns_cancelAllUacs {env} (henv : env.Safe blind) (how) :
    Alternates blind (cancelAllUacs env how) false false :=
  turns_whichCancel.bind fun bm => (turns_cancelUacs henv bm).bind fun _ => .pure

theorem turns_rpcCancel {env} (henv : env.Safe blind) : Alternates blind (rpcCancel env) false false :=
  Turns.lock.bind fun _ => turns_whichCancel.bind fun bm => Turns.unlock.bind fun _ =>
    (turns_cancelUacs henv bm).bind fun _ => .pure

theorem turns_e2eCancel {env} (henv : env.Safe blind) {reply} :
    Alternates blind (e2eCancel env reply flags) false false := by
  refine (Turns.read _).bind fun n => .ite (fun _ => ?_) fun _ => turns_cancelAllUacs henv flags
  exact (turns_tReply henv).bind fun _ => .pure

end Operations

/-! ## Runs -/

/-- The operation keeps to the lock: it adds blind branches only if there may be some, and then
sends no reply under the lock, and no retransmission of a request fails. -/
def TmOp.Safe (blind : Bool) : TmOp → Prop
  | .addBranch kind => blind = false → kind ≠ .blind
  | .replyReceived env _ added _ => env.Safe blind ∧ (blind = false → .blind ∉ added)
  | .retrBufHandler env rb => env.toReceiveEnv.Safe blind ∧ (blind = false → .blind ∉ env.added) ∧
      (rb.resends → env.sendOk = true)
  | .tReply _ cancel _ => cancel.Safe blind
  | .rpcCancel env => env.Safe blind
  | .cancelAllUacs env _ => env.Safe blind
  | .e2eCancel env _ _ => env.Safe blind

theorem TmOp.Safe.turns {blind} {op : TmOp} (hop : op.Safe blind) : Alternates blind op.prog false false := by
  cases op with
  | addBranch kind => exact .quiet (quiet_addUac hop)
  | replyReceived env flags added m => exact turns_replyReceived hop.1 hop.2
  | retrBufHandler env rb => exact turns_retrBufHandler hop.1 hop.2.1 hop.2.2
  | tReply env cancel code => exact (turns_tReply hop).bind fun _ => .pure
  | rpcCancel env => exact turns_rpcCancel hop
  | cancelAllUacs env how => exact turns_cancelAllUacs hop how
  | e2eCancel env reply flags => exact turns_e2eCancel hop

theorem turns_of_safe {blind} {p : Proc Unit} (hp : ∃ op : TmOp, op.Safe blind ∧ p = op.prog) :
    Alternates blind p false false := by
  obtain ⟨op, hop, rfl⟩ := hp
  exact hop.turns

/-- A new transaction has no branches. -/
theorem inv_newCell {blind isInvite isLocal onNegative onFailureCb} :
    (replies blind).inv (newCell isInvite isLocal onNegative onFailureCb) :=
  fun _ u hu => absurd hu (by simp [newCell])

/-- Processes that run any number of safe operations, interleaved in any way, keep to the reply
lock in all they do: it is held by the process that calls `relay_reply`, `local_reply` or
`fake_reply`, is not held by it when the call returns, and is released only by the process that
holds it. They never wait for each other for ever. -/
theorem reply_lock_discipline {ι : Type} [DecidableEq ι]
    (blind isInvite isLocal onNegative onFailureCb : Bool) (cfg : Config ι Cell TmFn)
    (h : cfg.Reach (fun p => ∃ op : TmOp, op.Safe blind ∧ p = op.prog)
      (newCell isInvite isLocal onNegative onFailureCb)) :
    (∀ i, cfg.Allowed i) ∧
    ((∃ i, ∀ a, cfg.prog i ≠ .ret a) → ∃ i cfg', Config.Step i cfg cfg') := by
  obtain ⟨due, hok, _⟩ := h.reachBy.ok (fun _ _ => True) (fun _ => none) inv_newCell (fun _ => turns_of_safe) trivial
    fun _ _ _ => trivial
  exact ⟨hok.allowed, hok.progress⟩

theorem safe_fineReceive : fineReceive.Safe false := by
  have hrelay : fineRelay.Safe false :=
    ⟨fun _ h => absurd h (by simp [fineRelay]), fun h => absurd h (by decide), fun h => absurd h (by decide)⟩
  exact ⟨hrelay, fun _ => hrelay⟩

/-- A branch is added; then a final response timeout of the branch has the lock, and a reply on it
waits for the lock. -/
theorem reply_lock_discipline_timeout :
    ∃ cfg : Config Bool Cell TmFn, cfg.shared.nrOfOutgoings = 1 ∧ cfg.owner = some true ∧
      (∃ k, cfg.prog false = .event .lock k) ∧ ∀ i, cfg.Allowed i := by
  have hadd : (TmOp.addBranch .sent).Safe false := fun _ => by decide
  have htimeout : (TmOp.retrBufHandler ⟨fineReceive, true, true, true, []⟩
      ⟨.request, 0, false, true, false, false⟩).Safe false := ⟨safe_fineReceive, by simp, by simp⟩
  have hreceived : (TmOp.replyReceived fineReceive killFlag [] ⟨0, 200, false, true⟩).Safe false :=
    ⟨safe_fineReceive, by simp⟩
  have h₀ : Config.Reach (fun p => ∃ op : TmOp, op.Safe false ∧ p = op.prog)
      (newCell true false false false)
      ⟨newCell true false false false, none, fun _ : Bool => .ret ()⟩ := .init
  have h₁ := Config.Reach.start true _ h₀ rfl ⟨_, hadd, rfl⟩
  have h₂ := Config.Reach.next true h₁ (.step rfl)
  have h₃ := Config.Reach.start true _ h₂ rfl ⟨_, htimeout, rfl⟩
  have h₄ := Config.Reach.start false _ h₃ rfl ⟨_, hreceived, rfl⟩
  have h₅ := Config.Reach.next true h₄ (.lock rfl rfl)
  have h₆ := Config.Reach.next false h₅ (.step rfl)
  exact ⟨_, rfl, rfl, ⟨_, rfl⟩, (reply_lock_discipline false true false false false _ h₆).1⟩

/-- A request that can not be sent again: `fake_reply` is called without the lock. And a failure
route that replies while there is a blind branch: the process waits for the lock it holds. -/
theorem fake_reply_without_lock :
    (∃ cfg : Config Unit Cell TmFn,
      cfg.Reach (fun p => ∃ op : TmOp, p = op.prog) (newCell true false false false) ∧
      cfg.shared.nrOfOutgoings = 1 ∧ cfg.owner = none ∧
      ∃ k, cfg.prog () = .event (.enter .fakeReply) k) ∧
    (exec (TmOp.replyReceived ⟨{ fineRelay with acts := [.reply 480 fineReply] }, fineCancel⟩ killFlag []
        ⟨0, 486, false, true⟩).prog false
      (runOps [.addBranch .sent, .addBranch .blind] false (newCell true false true false))).1 = none := by
  refine ⟨?_, by decide⟩
  have h₀ : Config.Reach (fun p => ∃ op : TmOp, p = op.prog) (newCell true false false false)
      ⟨newCell true false false false, none, fun _ : Unit => .ret ()⟩ := .init
  have h₁ := Config.Reach.start () _ h₀ rfl ⟨.addBranch .sent, rfl⟩
  have h₂ := Config.Reach.next () h₁ (.step rfl)
  have h₃ := Config.Reach.start () _ h₂ rfl
    ⟨.retrBufHandler ⟨fineReceive, false, true, true, []⟩ ⟨.request, 0, false, false, true, false⟩, rfl⟩
  exact ⟨_, h₃, rfl, rfl, _, rfl⟩

end SipRouter.Tm
