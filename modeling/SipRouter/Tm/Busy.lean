import SipRouter.Tm.Reply

/-!
# Reserved branches

`which_cancel` reserves the branches that it selects, with `BUSY_BUFFER` in the
place of their CANCEL, and who called it has to pass them on to `cancel_uacs`: a
branch that stays reserved can not be cancelled any more. Each function here is
described by the branches it may leave reserved on top of those that were: none,
or those of the bitmap it hands to its caller.
-/

namespace SipRouter.Tm

open Lib Prog List

/-- The branch is reserved for a CANCEL. -/
def Cell.Busy (c : Cell) (b : Nat) : Prop := (c.uac b).localCancel = .busy

/-- `which_cancel` would reserve. -/
def Cell.Pending (c : Cell) (b : Nat) : Prop :=
  b < c.nrOfOutgoings ∧ (c.uac b).lastReceived < 200 ∧ (c.uac b).localCancel = .null

variable {b code branch : Nat} {inv : Bool} {env : RelayEnv} {d : Decision} {reply : Reply}
  {c c' c0 : Cell} {bm : List Nat} {relay487 : Nat → Proc Rps} {flags : CancelFlags}
  {build : Nat → Bool} {is : List Nat}

theorem Cell.Busy.lt (h : c.Busy b) : b < c.nrOfOutgoings := by
  by_contra hge
  rw [Busy, uac_of_length_le (by omega)] at h
  exact absurd h (by decide)

/-- From `c` to `c'` only branches of the bitmap were reserved. -/
structure Marks (bm : List Nat) (c c' : Cell) : Prop where
  invite : c'.isInvite = c.isInvite
  busy : ∀ b, c'.Busy b → c.Busy b ∨ b ∈ bm

/-- From `c` to `c'` no branch was reserved, and those of the bitmap were freed. -/
structure Frees (bm : List Nat) (c c' : Cell) : Prop where
  marks : Marks [] c c'
  free : ∀ b ∈ bm, ¬ c'.Busy b

namespace Marks

variable {c'' : Cell}

theorem refl (c : Cell) : Marks [] c c := ⟨rfl, fun _ h => .inl h⟩

theorem of_uacs (hinv : c'.isInvite = c.isInvite) (huacs : c'.uacs = c.uacs) : Marks [] c c' := by
  refine ⟨hinv, fun b h => .inl ?_⟩
  rwa [Cell.Busy, Cell.uac, ← huacs]

theorem no_new (h : Marks [] c c') (hb : c'.Busy b) : c.Busy b := by
  rcases h.busy b hb with hb | hb
  · exact hb
  · cases hb

/-- Nothing is reserved before the bitmap is. -/
theorem after (h : Marks [] c c') (h' : Marks bm c' c'') : Marks bm c c'' := by
  refine ⟨h'.invite.trans h.invite, fun b hb => ?_⟩
  rcases h'.busy b hb with hb | hb
  · exact .inl (h.no_new hb)
  · exact .inr hb

/-- Nothing is reserved after the bitmap was. -/
theorem before (h : Marks bm c c') (h' : Marks [] c' c'') : Marks bm c c'' :=
  ⟨h'.invite.trans h.invite, fun b hb => h.busy b (h'.no_new hb)⟩

/-- What was reserved is freed. -/
theorem free (h : Marks bm c c') (h' : Frees bm c' c'') : Marks [] c c'' := by
  refine ⟨h'.marks.invite.trans h.invite, fun b hb => ?_⟩
  rcases h.busy b (h'.marks.no_new hb) with hb' | hb'
  · exact .inl hb'
  · exact absurd hb (h'.free b hb')

instance : IsTrans Cell (Marks []) := ⟨fun _ _ _ h h' => h.after h'⟩

/-- A change of a branch that leaves its CANCEL alone, or removes it. -/
theorem modifyUac {f : Uac → Uac} (hf : ∀ u, (f u).localCancel = .busy → u.localCancel = .busy)
    (b : Nat) (c : Cell) : Marks [] c (c.modifyUac b f) := by
  refine ⟨rfl, fun b' hb => .inl ?_⟩
  rw [Cell.Busy, Cell.uac_modifyUac] at hb
  split_ifs at hb
  · exact hf _ hb
  · exact hb

theorem reserve : Marks [b] c (c.modifyUac b fun u => { u with localCancel := .busy }) := by
  refine ⟨rfl, fun b' hb' => ?_⟩
  rw [Cell.Busy, Cell.uac_modifyUac] at hb'
  split_ifs at hb' with hbb
  · exact .inr (by simp [hbb.1])
  · exact .inl hb'

end Marks

theorem moves_update {f : Cell → Cell} (hf : ∀ c, Marks [] c (f c)) :
    Moves (Marks []) (update f : Proc Unit) :=
  .update hf

/-- One program reserves nothing, and what follows is described from where it starts. -/
theorem wp_after {α β : Type} {p : Proc α} {g : α → Proc β} {Q : β → Cell → Prop}
    (hp : Moves (Marks []) p) (hg : ∀ a c', Marks [] c c' → wp (fun _ => True) (g a) Q c') :
    wp (fun _ => True) (p >>= g) Q c := by
  rw [wp_bind]
  exact wp_imp (hp c) hg

/-! ## Reserving and freeing -/

theorem wp_cmpxchgCancel {I Q old new} : wp I (cmpxchgCancel b old new) Q c ↔ if (c.uac b).localCancel = old then
        Q true (c.modifyUac b fun u => { u with localCancel := new }) else Q false c := by
  rw [cmpxchgCancel, wp_modifyGet]
  split_ifs <;> rfl

/-- What `which_cancel` does: pending branches are reserved, and those that are pending still were
before. -/
structure Reserves (bm : List Nat) (c c' : Cell) : Prop where
  marks : Marks bm c c'
  pending : ∀ b ∈ bm, c.Pending b
  left : ∀ b, c'.Pending b → c.Pending b
  nrOfOutgoings : c'.nrOfOutgoings = c.nrOfOutgoings
  status : c'.status = c.status

theorem Reserves.refl (c : Cell) : Reserves [] c c := ⟨.refl c, fun _ h => absurd h (by simp), fun _ h => h, rfl, rfl⟩

theorem Reserves.append {bm' c''} (h : Reserves bm c c') (h' : Reserves bm' c' c'') : Reserves (bm ++ bm') c c'' where
  marks := by
    refine ⟨h'.marks.invite.trans h.marks.invite, fun b hb => ?_⟩
    rw [mem_append]
    rcases h'.marks.busy b hb with hb | hb
    · rcases h.marks.busy b hb with hb | hb
      · exact .inl hb
      · exact .inr (.inl hb)
    · exact .inr (.inr hb)
  pending b hb := by
    rcases mem_append.1 hb with hb | hb
    · exact h.pending b hb
    · exact h.left b (h'.pending b hb)
  left b hb := h.left b (h'.left b hb)
  nrOfOutgoings := h'.nrOfOutgoings.trans h.nrOfOutgoings
  status := h'.status.trans h.status

theorem wp_shouldCancelBranch {noreply} (hb : b < c.nrOfOutgoings) : wp (fun _ => True) (shouldCancelBranch b noreply)
      (fun cancel => Reserves (if cancel then [b] else []) c) c := by
  rw [shouldCancelBranch, wp_bind, wp_read]
  refine wp_ite (fun hlast => ?_) fun _ => Reserves.refl c
  rw [wp_cmpxchgCancel]
  rcases eq_or_ne (c.uac b).localCancel .null with hnull | hnull
  · rw [if_pos hnull]
    refine ⟨Marks.reserve, fun b' hb' => ?_, fun b' hp => ?_, by simp, rfl⟩
    · rw [mem_singleton.1 hb']
      exact ⟨hb, hlast.1, hnull⟩
    · rw [Cell.Pending, Cell.uac_modifyUac, Cell.nrOfOutgoings_modifyUac] at hp
      split_ifs at hp
      · exact absurd hp.2.2 (by simp)
      · exact hp
  · rw [if_neg hnull]
    exact Reserves.refl c

theorem wp_whichCancelFrom (c : Cell) (his : ∀ i ∈ is, i < c.nrOfOutgoings) :
    wp (fun _ => True) (whichCancelFrom is) (fun bm => Reserves bm c) c := by
  induction is generalizing c with
  | nil => exact .refl c
  | cons i is ih =>
    rw [whichCancelFrom, wp_bind]
    refine wp_imp (wp_shouldCancelBranch (his i (.head _))) fun cancel c1 h1 => ?_
    rw [wp_bind]
    refine wp_imp (ih c1 fun i' hi' => h1.nrOfOutgoings ▸ his i' (.tail _ hi')) fun bm c2 h2 => ?_
    have h := h1.append h2
    cases cancel with
    | false | true => exact h

/-- `which_cancel` reserves pending branches. -/
theorem wp_whichCancel : wp (fun _ => True) whichCancel (fun bm => Reserves bm c) c := by
  rw [whichCancel, wp_bind, wp_read]
  exact wp_whichCancelFrom c fun i hi => mem_range.1 hi

/-- The program reserves nothing; `inv` is whether the request is an INVITE. -/
def Quiet {α : Type} (inv : Bool) (p : Proc α) : Prop :=
  ∀ c, c.isInvite = inv → wp (fun _ => True) p (fun _ => Marks [] c) c

/-- `cancel_branch` frees its branch: it removes the mark, or installs a CANCEL. -/
theorem wp_cancelBranch {relay487 : Proc Rps} (hrelay : Quiet inv relay487) {build} (hinv : c.isInvite = inv) :
    wp (fun _ => True) (cancelBranch relay487 build b flags) (fun _ => Frees [b] c) c := by
  have hset : ∀ c1 new, new ≠ .busy → Marks [] c c1 →
      Frees [b] c (c1.modifyUac b fun u => { u with localCancel := new }) := by
    intro c1 new hnew hc
    refine ⟨hc.after (Marks.modifyUac (fun u hu => absurd hu hnew) b c1), fun b' hb' hbusy => ?_⟩
    have hlt := hbusy.lt
    rw [mem_singleton.1 hb', Cell.nrOfOutgoings_modifyUac] at hlt
    rw [mem_singleton.1 hb', Cell.Busy, Cell.uac_modifyUac, if_pos ⟨rfl, hlt⟩] at hbusy
    exact hnew hbusy
  refine wp_after (moves_update fun c => .modifyUac (by simp) b c) fun _ c1 h1 => ?_
  rw [wp_bind, wp_read]
  refine wp_ite (fun _ => ?_) fun _ => wp_ite (fun _ => ?_) fun _ => ?_
  · rw [wp_bind, wp_update]
    have hnull := hset c1 .null (by decide) h1
    refine wp_ite (fun _ => ?_) fun _ => hnull
    rw [wp_bind, lockReplies, wp_emit, wp_bind]
    refine ⟨trivial, wp_imp (hrelay _ (hnull.marks.invite.trans hinv)) fun status c2 h2 => ?_⟩
    exact ⟨hnull.marks.after h2, fun b' hb' hbusy => hnull.free b' hb' (h2.no_new hbusy)⟩
  · exact hset c1 .null (by decide) h1
  · rw [wp_bind, wp_cmpxchgCancel]
    rcases eq_or_ne (c1.uac b).localCancel .busy with hbusy | hfree
    · rw [if_pos hbusy]
      exact hset c1 .set (by decide) h1
    · rw [if_neg hfree]
      exact ⟨h1, fun b' hb' => mem_singleton.1 hb' ▸ hfree⟩

theorem wp_cancelUacsFrom (hrelay : ∀ b, Quiet inv (relay487 b)) (hinv : c.isInvite = inv) :
    wp (fun _ => True) (cancelUacsFrom relay487 build bm flags is)
      (fun _ c' => Marks [] c c' ∧ ∀ b ∈ is, b ∈ bm → ¬ c'.Busy b) c := by
  induction is generalizing c with
  | nil => exact ⟨.refl c, fun b hb => absurd hb (by simp)⟩
  | cons i is ih =>
    rw [cancelUacsFrom]
    refine wp_ite (fun _ => ?_) fun hi => ?_
    · rw [wp_bind, wp_read, wp_bind]
      refine wp_imp (wp_cancelBranch (hrelay i) hinv) fun r c1 h1 => ?_
      rw [wp_bind]
      refine wp_imp (ih (h1.marks.invite.trans hinv)) fun active c2 h2 => ?_
      refine ⟨h1.marks.after h2.1, fun b hb hbm hbusy => ?_⟩
      rcases mem_cons.1 hb with rfl | hb
      · exact h1.free b (mem_singleton.2 rfl) (h2.1.no_new hbusy)
      · exact h2.2 b hb hbm hbusy
    · refine wp_imp (ih hinv) fun active c1 h1 => ⟨h1.1, fun b hb hbm => ?_⟩
      rcases mem_cons.1 hb with rfl | hb
      · exact absurd hbm hi
      · exact h1.2 b hb hbm

/-- The cancelling that a function is given frees the branches it is passed. -/
def Discharges (inv : Bool) (cancel : List Nat → Proc (List Nat)) : Prop :=
  ∀ bm c, c.isInvite = inv → wp (fun _ => True) (cancel bm) (fun _ => Frees bm c) c

theorem discharges_cancelUacsWith (hrelay : ∀ b, Quiet inv (relay487 b)) :
    Discharges inv fun bm => cancelUacsWith relay487 build bm flags := by
  intro bm c hinv
  simp only [cancelUacsWith, wp_bind, wp_read]
  refine wp_imp (wp_cancelUacsFrom hrelay hinv) ?_
  rintro active c' ⟨hmarks, hfree⟩
  refine ⟨hmarks, fun b hb hbusy => hfree b ?_ hb hbusy⟩
  exact mem_range.2 (hmarks.no_new hbusy).lt

/-- What was reserved is passed on to the cancelling. -/
theorem Discharges.wp {cancel : List Nat → Proc (List Nat)}
    (hcancel : Discharges c0.isInvite cancel) (h : Marks bm c0 c) :
    wp (fun _ => True) (cancel bm) (fun _ => Marks [] c0) c :=
  wp_imp (hcancel bm c h.invite) fun _ _ h' => h.free h'

/-! ## Local replies -/

section ReplyLight

variable {cancel : List Nat → Proc (List Nat)}

/-- The error exit of `_reply_light`, with nothing reserved unless the request is an INVITE. -/
theorem wp_replyLightError (hcancel : Discharges c0.isInvite cancel) (h : Marks bm c0 c)
    (hbm : inv = false → bm = []) :
    wp (fun _ => True) (replyLightError cancel inv bm) (fun _ => Marks [] c0) c := by
  rw [replyLightError, wp_bind, wp_when]
  cases inv with
  | true =>
    rw [if_pos rfl, wp_bind]
    exact hcancel.wp h
  | false => exact hbm rfl ▸ h

/-- The branches that `_reply_light` reserves. -/
theorem wp_replyLight_reserve : wp (fun _ => True) (if inv = true then whichCancel else pure [])
      (fun bm c' => Reserves bm c c' ∧ (inv = false → bm = [])) c := by
  cases inv with
  | true => exact wp_imp (wp_whichCancel) fun bm c' h => ⟨h, fun h => absurd h (by decide)⟩
  | false => exact ⟨.refl c, fun _ => rfl⟩

/-- The reply does not leave branches reserved: `_reply_light` reserves the pending branches of an
INVITE, and passes them on unless it succeeds with a provisional reply. -/
def ReplyOk (env : ReplyEnv) (code : Nat) (c : Cell) : Prop :=
  c.isInvite = true → env.buf = true → env.shm = true → c.status < 200 → code < 200 →
    ∀ b, ¬ c.Pending b

theorem wp_replyLight (hcancel : Discharges c.isInvite cancel) {lock env} (hok : ReplyOk env code c) :
    wp (fun _ => True) (replyLight cancel lock env code) (fun _ => Marks [] c) c := by
  rw [replyLight, wp_bind, wp_read]
  generalize hinv : c.isInvite = inv
  refine wp_ite (fun _ => wp_ite (fun hi => ?_) fun _ => ?_) fun hbuf => ?_
  · -- no reply was built
    rw [wp_bind, lockReplies, wp_when_emit, wp_bind]
    refine wp_imp (wp_whichCancel) fun bm c1 h1 => ?_
    rw [wp_bind, unlockReplies, wp_when_emit]
    exact wp_replyLightError hcancel h1.marks fun h => absurd hi (by simp [h])
  · exact wp_replyLightError hcancel (.refl c) fun _ => rfl
  · rw [wp_bind, lockReplies, wp_when_emit, wp_bind]
    refine wp_imp (wp_replyLight_reserve) ?_
    rintro bm c1 ⟨h1, hbm⟩
    rw [wp_bind, wp_read]
    have herror : ∀ c2, Marks [] c1 c2 → wp (fun _ => True) (do when lock unlockReplies; replyLightError cancel inv bm)
          (fun _ => Marks [] c) c2 := by
      intro c2 h2
      rw [wp_bind, unlockReplies, wp_when_emit]
      exact wp_replyLightError hcancel (h1.marks.before h2) hbm
    refine wp_ite (fun _ => herror c1 (.refl c1)) fun hstatus => ?_
    rw [wp_bind, wp_update]
    refine wp_ite (fun _ => ?_) fun hshm => ?_
    · rw [wp_bind, wp_update]
      exact herror _ (.of_uacs rfl rfl)
    · rw [wp_bind, wp_update, wp_bind, unlockReplies, wp_when_emit, wp_bind]
      have h2 : Marks bm c
          { c1.setStatus code with response := some code, relayedReplyBranch := -2 } :=
        h1.marks.before (.of_uacs rfl rfl)
      have hsend : ∀ c3, Marks [] c c3 →
          wp (fun _ => True) (do when env.sock (update fun c => c.send code); pure true : Proc Bool)
          (fun _ => Marks [] c) c3 := by
        intro c3 h3
        rw [wp_bind, wp_when]
        split_ifs
        · exact h3.before (.of_uacs rfl rfl)
        · exact h3
      rw [wp_when]
      split_ifs with hfinal
      · rw [wp_bind]
        exact wp_imp (hcancel.wp h2) fun _ c3 h3 => hsend c3 h3
      · -- a provisional reply, or no INVITE: nothing was reserved
        have hnone : bm = [] := by
          cases inv with
          | false => exact hbm rfl
          | true =>
            rw [eq_nil_iff_forall_not_mem]
            intro b hb
            refine hok hinv (by simpa using hbuf) (by simpa using hshm) ?_ ?_ b (h1.pending b hb)
            · rw [← h1.status]; omega
            · simpa using hfinal
        exact hsend _ (hnone ▸ h2)

end ReplyLight

/-- A reply under the reply lock that does not leave branches reserved. -/
def FinalReply (inv : Bool) (env : ReplyEnv) (code : Nat) : Prop :=
  inv = true → env.buf = true → env.shm = true → 200 ≤ code

theorem wp_tReplyUnsafe {env} (hok : FinalReply c.isInvite env code) :
    wp (fun _ => True) (tReplyUnsafe env code) (fun _ => Marks [] c) c := by
  refine wp_replyLight (discharges_cancelUacsWith ?_) ?_
  · exact fun _ c _ => .refl c
  intro hinv hbuf hshm _ hcode
  exact absurd (hok hinv hbuf hshm) (by omega)

/-! ## Failure handlers -/

/-- The replies of the failure handlers do not leave branches reserved. -/
structure RelayEnv.Final (inv : Bool) (env : RelayEnv) : Prop where
  acts : ∀ code reply, .reply code reply ∈ env.acts → FinalReply inv reply code
  kill : ∀ code, env.killCode = some code → FinalReply inv env.kill code

theorem Marks.addUac (kind) (c : Cell) : Marks [] c (c.addUac kind) := by
  rw [Cell.addUac]
  split_ifs
  · refine ⟨rfl, fun b hb => .inl ?_⟩
    have hnew : (newUac kind).localCancel = .null := by cases kind <;> rfl
    rcases lt_trichotomy b c.nrOfOutgoings with hlt | heq | hgt
    · rwa [Cell.Busy, Cell.uac, getD_append _ _ _ _ hlt] at hb
    · rw [Cell.Busy, Cell.uac, getD_append_right _ _ _ _ heq.ge] at hb
      rw [heq, Cell.nrOfOutgoings, Nat.sub_self, getD_cons_zero, hnew] at hb
      exact absurd hb (by decide)
    · exact absurd hb.lt (by simp [Cell.nrOfOutgoings] at hgt ⊢; omega)
  · exact Marks.refl c

theorem Marks.dropReplies (n : Nat) (c : Cell) : Marks [] c (c.dropReplies n) := by
  refine ⟨rfl, fun b hb => .inl ?_⟩
  rw [Cell.Busy, Cell.uac_dropReplies] at hb
  split_ifs at hb
  · exact hb
  · exact hb

theorem wp_runActs {acts} (hok : ∀ code reply, .reply code reply ∈ acts → FinalReply c.isInvite reply code) :
    wp (fun _ => True) (runActs acts) (fun _ => Marks [] c) c := by
  induction acts generalizing c with
  | nil => exact .refl c
  | cons act acts ih =>
    have hact : wp (fun _ => True) (runAct act) (fun _ => Marks [] c) c := by
      cases act with
      | reply code env =>
        rw [runAct, wp_bind]
        exact wp_tReplyUnsafe (hok code env (.head _))
      | addBranch kind => exact .addUac kind c
      | dropReplies => exact .refl c
      | onFailure => exact .of_uacs rfl rfl
    rw [runActs, wp_bind]
    refine wp_imp hact fun drop c1 h1 => ?_
    rw [wp_bind]
    refine wp_imp (ih ?_) fun drop' c2 h2 => h1.after h2
    intro code reply hmem
    rw [h1.invite]
    exact hok code reply (.tail _ hmem)

theorem wp_runFailureHandlers (henv : env.Final c.isInvite) :
    wp (fun _ => True) (runFailureHandlers env.acts) (fun _ => Marks [] c) c := by
  rw [runFailureHandlers, wp_bind, wp_read]
  refine wp_ite (fun _ => .refl c) fun _ => ?_
  rw [wp_bind, wp_update]
  have h : Marks [] c { c with onNegative := false } := .of_uacs rfl rfl
  exact wp_imp (wp_runActs henv.acts) fun _ c1 h1 => h.after h1

theorem wp_branchesFailed_marks (henv : env.Final c.isInvite) :
    wp (fun _ => True) (branchesFailed env) (fun d c' => Marks [] c c' ∧ d.cancelBm = []) c := by
  rw [branchesFailed]
  cases hkill : env.killCode with
  | none => exact ⟨.refl c, rfl⟩
  | some code =>
    rw [wp_bind]
    exact wp_imp (wp_tReplyUnsafe (henv.kill code hkill)) fun _ c1 h1 => ⟨h1, rfl⟩

theorem wp_afterHandlers_marks (henv : env.Final c.isInvite) {branch code branchCnt picked drop} :
    wp (fun _ => True) (afterHandlers env branch code branchCnt picked drop)
      (fun d c' => Marks [] c c' ∧ d.cancelBm = []) c := by
  rw [afterHandlers, wp_bind, wp_read, id_eq]
  refine wp_ite (fun _ => ⟨.refl c, rfl⟩) fun _ => wp_ite (fun _ => ?_) fun _ => ?_
  · cases tPickBranch (if drop then none else some branch) code c with
    | picked newBranch _ => exact ⟨.refl c, rfl⟩
    | openBranches => exact wp_ite (fun _ => ⟨.refl c, rfl⟩) fun _ => ⟨.refl c, rfl⟩
    | nothing => exact wp_ite (fun _ => wp_branchesFailed_marks henv) fun _ => ⟨.refl c, rfl⟩
  · exact wp_ite (fun _ => wp_branchesFailed_marks henv) fun _ => ⟨.refl c, rfl⟩

/-! ## The decision -/

/-- Some branch but this one would be reserved. -/
def Cell.OthersPending (c : Cell) (branch : Nat) : Prop := ∃ b, b ≠ branch ∧ c.Pending b

/-- What reserves branches in `t_should_relay_response`: a 2xx, which is relayed, or the first
6xx, which is stored. -/
inductive Cause (branch code : Nat) (c : Cell) (d : Decision) : Prop where
  | success (h2xx : 200 ≤ code ∧ code < 300) (others : c.OthersPending branch)
      (rps : d.rps = .completed) (store : d.store = false)
  | globalFailure (h6xx : 600 ≤ code ∧ code ≤ 699) (others : c.OthersPending branch)
      (t6xx : c.t6xx = false) (rps : d.rps = .store) (relay : d.relay = none)

/-- The branches of the decision's bitmap are the only ones that were reserved. -/
structure Decides (branch code : Nat) (c : Cell) (d : Decision) (c' : Cell) : Prop where
  marks : Marks d.cancelBm c c'
  cause : d.cancelBm ≠ [] → Cause branch code c d
  store : d.store = true → 300 ≤ code

theorem Marks.decides (h : Marks [] c c') (hd : d.cancelBm = [])
    (hstore : d.store = false ∨ 300 ≤ code) : Decides branch code c d c' := by
  refine ⟨hd.symm ▸ h, fun hne => absurd hd hne, fun hs => ?_⟩
  rcases hstore with hstore | hstore
  · exact absurd (hs.symm.trans hstore) (by decide)
  · exact hstore

/-- A branch with a final reply is not pending. -/
theorem Cell.Pending.of_final (hcode : 200 ≤ code)
    (h : (c.modifyUac branch fun u => { u with lastReceived := code }).Pending b) : b ≠ branch ∧ c.Pending b := by
  rw [Pending, uac_modifyUac, nrOfOutgoings_modifyUac] at h
  split_ifs at h with hb
  · exact absurd h.2.1 (by simpa using hcode)
  · refine ⟨?_, h⟩
    rintro rfl
    exact hb ⟨rfl, h.1⟩

theorem Marks.setLastReceived (branch code : Nat) (c : Cell) :
    Marks [] c (c.modifyUac branch fun u => { u with lastReceived := code }) :=
  Marks.modifyUac (by simp) branch c

theorem Marks.setReply (branch : Nat) (reply) (c : Cell) :
    Marks [] c (c.modifyUac branch fun u => { u with reply := reply }) :=
  Marks.modifyUac (by simp) branch c

/-- Reserving, after the final reply of a branch was noted. -/
theorem Reserves.others (hcode : 200 ≤ code)
    (h : Reserves bm (c.modifyUac branch fun u => { u with lastReceived := code }) c')
    (hbm : bm ≠ []) : c.OthersPending branch := by
  obtain ⟨b, hb⟩ := exists_mem_of_ne_nil bm hbm
  exact ⟨b, (h.pending b hb).of_final hcode⟩

theorem wp_negativeReply_marks (henv : env.Final c.isInvite) (hcode : 300 ≤ code) :
    wp (fun _ => True) (negativeReply env branch code reply) (Decides branch code c) c := by
  rw [negativeReply, wp_bind, wp_update, wp_bind, wp_read, id_eq]
  have h1 := Marks.setLastReceived branch code c
  cases tPickBranch (some branch) code _ with
  | nothing => exact h1.decides rfl (.inl rfl)
  | openBranches =>
    rw [wp_bind, cancelOn6xx, wp_bind, wp_read]
    refine wp_ite (fun h6xx => ?_) fun _ => h1.decides rfl (.inr hcode)
    rw [wp_bind]
    refine wp_imp (wp_whichCancel) fun bm c2 h2 => ?_
    have h3 : Marks [] c2 { c2 with t6xx := true } := Marks.of_uacs rfl rfl
    refine ⟨(h1.after h2.marks).before h3, fun hne => ?_, fun _ => hcode⟩
    refine .globalFailure ⟨h6xx.1, h6xx.2.1⟩ ?_ ?_ rfl rfl
    · exact h2.others (by omega) hne
    · exact Bool.eq_false_iff.2 h6xx.2.2
  | picked picked pickedCode =>
    have hstored : ∀ c, Marks [] c
        { c.modifyUac branch (fun u => { u with reply := some reply }) with t6xx := false } :=
      fun c => (Marks.setReply branch (some reply) c).before (Marks.of_uacs rfl rfl)
    refine wp_after (moves_update hstored) fun _ c2 h2 => ?_
    have henv2 : env.Final c2.isInvite := by rwa [h2.invite, h1.invite]
    rw [wp_bind, wp_read, wp_bind]
    refine wp_imp (wp_ite (fun _ => wp_runFailureHandlers henv2) fun _ => Marks.refl c2) ?_
    intro drop c3 h3
    refine wp_after (Moves.when Marks.refl drop fun _ => moves_update (Marks.dropReplies _)) fun _ c4 h4 => ?_
    refine wp_after (moves_update (Marks.setReply branch none)) fun _ c5 h5 => ?_
    have hall := h1.after (h2.after (h3.after (h4.after h5)))
    refine wp_imp (wp_afterHandlers_marks ?_) fun d c6 h6 => ?_
    · rwa [hall.invite]
    · exact (hall.after h6.1).decides h6.2 (.inr hcode)

/-- The branches that `t_should_relay_response` reserves are in its bitmap. -/
theorem wp_tShouldRelayResponse_marks (henv : env.Final c.isInvite) :
    wp (fun _ => True) (tShouldRelayResponse env branch code reply) (Decides branch code c) c := by
  have hlast := Marks.setLastReceived branch code c
  have hdiscard : Decides branch code c discard c := (Marks.refl c).decides rfl (.inl rfl)
  simp only [tShouldRelayResponse, wp_bind, wp_read, id_eq]
  refine wp_ite (fun _ => wp_ite (fun _ => hlast.decides rfl (.inl rfl)) fun _ => hdiscard) fun _ => ?_
  refine wp_ite (fun _ => hdiscard) fun _ => ?_
  refine wp_ite (fun h3xx => wp_negativeReply_marks henv h3xx) fun h3xx => ?_
  refine wp_ite (fun h2xx => ?_) fun _ =>
    wp_ite (fun _ => hlast.decides rfl (.inl rfl)) fun _ => hdiscard
  simp only [wp_bind, wp_update]
  refine wp_imp (wp_whichCancel) fun bm c1 h1 =>
    ⟨hlast.after h1.marks, fun hne => ?_, fun h => absurd h (by simp)⟩
  exact .success ⟨h2xx, by omega⟩ (h1.others h2xx hne) rfl rfl

/-! ## Relaying -/

/-- Storing, if the decision asks for it: this fails only for a received reply. -/
theorem wp_store {store : Bool} {c} :
    wp (fun _ => True) (if d.store = true then storeReply store branch reply else pure true)
      (fun stored c' => Marks [] c c' ∧ (¬ stored = true → d.store = true ∧ store = false ∧ reply ≠ .faked))
      c := by
  refine wp_ite (fun hd => ?_) fun _ => ⟨.refl c, fun h => absurd rfl h⟩
  rw [storeReply, wp_bind, wp_update]
  refine ⟨.setReply branch _ c, fun h => ?_⟩
  simp only [Bool.or_eq_true, decide_eq_true_eq, not_or, Bool.not_eq_true] at h
  exact ⟨hd, h.2, h.1⟩

theorem wp_relayError : wp (fun _ => True) (relayError env) (fun res c' => Marks [] c c' ∧ res = (.error, [])) c := by
  rw [relayError, wp_bind]
  refine wp_imp (wp_tReplyUnsafe fun _ _ _ => by omega) fun _ c1 h1 => ?_
  exact ⟨trivial, trivial, h1, rfl⟩

/-- What `relay_reply` and `local_reply` hand to their caller: the branches they left reserved. -/
structure Relays (branch code : Nat) (c : Cell) (res : Rps × List Nat) (c' : Cell) : Prop where
  marks : Marks res.2 c c'
  cause : res.2 ≠ [] → (200 ≤ code ∧ code < 300 ∧ c.OthersPending branch) ∨
    (600 ≤ code ∧ code ≤ 699 ∧ res.1 = .store)

theorem Decides.relays {c1 c2 : Cell} (hd : Decides branch code c d c1) (h : Marks [] c1 c2) :
    Relays branch code c (d.rps, d.cancelBm) c2 := by
  refine ⟨hd.marks.before h, fun hne => ?_⟩
  cases hd.cause hne with
  | success h2xx others _ _ => exact .inl ⟨h2xx.1, h2xx.2, others⟩
  | globalFailure h6xx _ _ rps _ => exact .inr ⟨h6xx.1, h6xx.2, rps⟩

/-- An error after the decision drops the bitmap. `relay_reply` leaves no branch reserved if there
is memory for a 2xx, and the first 6xx can be stored, while other branches are pending. -/
structure RelayOk (env : RelayEnv) (branch code : Nat) (reply : Reply) (c : Cell) : Prop where
  final : env.Final c.isInvite
  success : 200 ≤ code → code < 300 → c.OthersPending branch → env.buf = true ∧ env.shm = true
  globalFailure : 600 ≤ code → code ≤ 699 → c.t6xx = false → c.OthersPending branch →
    env.store = true ∨ reply = .faked

theorem wp_relayReply (hok : RelayOk env branch code reply c) :
    wp (fun _ => True) (relayReply env branch code reply) (Relays branch code c) c := by
  rw [relayReply, wp_bind, wp_emit, wp_bind]
  refine ⟨trivial, wp_imp (wp_tShouldRelayResponse_marks hok.final) ?_⟩
  intro d c1 hd
  rw [wp_bind]
  refine wp_imp (wp_store) ?_
  rintro stored c2 ⟨h2, hstored⟩
  -- on an error, nothing was reserved
  have herror : ∀ c3, Marks [] c2 c3 → d.cancelBm = [] →
      wp (fun _ => True) (relayError env) (Relays branch code c) c3 := by
    intro c3 h3 hbm
    refine wp_imp (wp_relayError) ?_
    rintro res c4 ⟨h4, rfl⟩
    exact ⟨(hbm ▸ hd.marks : Marks [] c c1).after (h2.after (h3.after h4)), fun h => absurd rfl h⟩
  refine wp_ite (fun hfail => herror c2 (.refl c2) ?_) fun _ => ?_
  · obtain ⟨hstore, hmem, hreply⟩ := hstored hfail
    by_contra hne
    cases hd.cause hne with
    | success _ _ _ store => exact absurd (hstore.symm.trans store) (by decide)
    | globalFailure h6xx others t6xx _ _ =>
      rcases hok.globalFailure h6xx.1 h6xx.2 t6xx others with h | h
      · exact absurd (h.symm.trans hmem) (by decide)
      · exact hreply h
  · cases hrelay : d.relay with
    | none =>
      simp only [wp_bind, unlockReplies, wp_emit, true_and]
      exact hd.relays h2
    | some relay =>
      rw [wp_bind, wp_read]
      refine wp_ite (fun hmem => ?_) fun _ => ?_
      · refine wp_after (.when .refl _ fun _ => moves_update fun _ => .of_uacs rfl rfl) fun _ c3 h3 => ?_
        refine wp_after (.when .refl _ fun _ => moves_update (.setReply branch none)) fun _ c4 h4 =>
          herror c4 (h3.after h4) ?_
        by_contra hne
        cases hd.cause hne with
        | success h2xx others _ _ => exact hmem (hok.success h2xx.1 h2xx.2 others)
        | globalFailure _ _ _ _ relay => exact absurd (hrelay.symm.trans relay) (by simp)
      · simp only [wp_bind, wp_update, unlockReplies, wp_emit, true_and]
        exact hd.relays (h2.after (.of_uacs rfl rfl))

variable {res : Rps × List Nat}

/-- A reply that is neither a 2xx nor a 6xx leaves nothing reserved. -/
theorem Relays.quiet (h : Relays branch code c res c') (hcode : 300 ≤ code ∧ code < 600) : Marks [] c c' := by
  have hbm : res.2 = [] := by
    by_contra hne
    rcases h.cause hne with h2xx | h6xx
    · omega
    · omega
  exact hbm ▸ h.marks

/-! ## Cancelling -/

/-- Whatever happens while a 487 is faked, it does not leave branches reserved. -/
def CancelEnv.Final (inv : Bool) (env : CancelEnv) : Prop := ∀ b, (env.relay b).Final inv

variable {env : CancelEnv} {m : ReplyMsg} {added : List BranchKind} {cancelBFlags : CancelFlags}
  {activType : ActivType}

theorem quiet_fake487 (henv : env.Final inv) (b : Nat) : Quiet inv (fake487 env b) := by
  intro c hinv
  have hok : RelayOk (env.relay b) b 487 .faked c :=
    ⟨hinv ▸ henv b, fun _ h => absurd h (by omega), fun h => absurd h (by omega)⟩
  rw [fake487, wp_bind]
  exact wp_imp (wp_relayReply hok) fun res c1 h1 => h1.quiet (by omega)

theorem discharges_cancelUacs (henv : env.Final inv) : Discharges inv fun bm => cancelUacs env bm flags :=
  discharges_cancelUacsWith (quiet_fake487 henv)

/-- `which_cancel` and `cancel_uacs` in a row. -/
theorem wp_cancelAllUacs (henv : env.Final c.isInvite) {how} :
    wp (fun _ => True) (cancelAllUacs env how) (fun _ => Marks [] c) c := by
  rw [cancelAllUacs, wp_bind]
  refine wp_imp (wp_whichCancel) fun bm c1 h1 => ?_
  rw [wp_bind]
  exact (discharges_cancelUacs henv).wp h1.marks

theorem wp_rpcCancel (henv : env.Final c.isInvite) : wp (fun _ => True) (rpcCancel env) (fun _ => Marks [] c) c := by
  rw [rpcCancel, wp_bind, lockReplies, wp_emit, wp_bind]
  refine ⟨trivial, wp_imp (wp_whichCancel) fun bm c1 h1 => ?_⟩
  rw [wp_bind, unlockReplies, wp_emit, wp_bind]
  exact ⟨trivial, (discharges_cancelUacs henv).wp h1.marks⟩

theorem wp_tReply {env cancel} (hcancel : cancel.Final c.isInvite) (hok : ReplyOk env code c) :
    wp (fun _ => True) (tReply env cancel code) (fun _ => Marks [] c) c :=
  wp_replyLight (discharges_cancelUacs hcancel) hok

theorem wp_e2eCancel {reply} (henv : env.Final c.isInvite) :
    wp (fun _ => True) (e2eCancel env reply cancelBFlags) (fun _ => Marks [] c) c := by
  rw [e2eCancel, wp_bind, wp_read]
  refine wp_ite (fun _ => ?_) fun _ => wp_cancelAllUacs henv
  rw [wp_bind]
  exact wp_tReply henv fun _ _ _ _ h => absurd h (by omega)

/-! ## Receiving -/

/-- `local_reply` leaves no branch reserved if the first 6xx can be stored while other branches
are pending, and so can any failure of a request that is not an INVITE. -/
structure LocalOk (env : ReceiveEnv) (cseqInvite : Bool) (branch code : Nat) (reply : Reply)
    (c : Cell) : Prop where
  relay : env.relay.Final c.isInvite
  cancel : env.cancel.Final c.isInvite
  globalFailure : 600 ≤ code → code ≤ 699 → c.t6xx = false → c.OthersPending branch →
    env.relay.store = true ∨ reply = .faked
  other : cseqInvite = false → 300 ≤ code → env.relay.store = true ∨ reply = .faked

/-- The error exit reserves the pending branches, and cancels them if the reply is to an INVITE. -/
theorem wp_localError {env} (hcancel : env.cancel.Final c.isInvite) :
    wp (fun _ => True) (localError env true) (fun res c' => Marks [] c c' ∧ res = (.error, [])) c := by
  rw [localError, wp_bind]
  refine wp_imp (wp_whichCancel) fun bm c1 h1 => ?_
  rw [wp_bind, unlockReplies, wp_emit, wp_bind, wp_when, if_pos rfl, wp_bind]
  refine ⟨trivial, wp_imp ((discharges_cancelUacs hcancel).wp h1.marks) fun _ c2 h2 => ?_⟩
  exact ⟨trivial, h2, rfl⟩

theorem moves_setWinner {winner} : Moves (Marks []) (setWinner winner branch code reply) := by
  cases winner with
  | none => exact .pure .refl ()
  | some winner =>
    exact (Moves.read Marks.refl _).bind fun _ => moves_update fun _ => .of_uacs rfl rfl

theorem wp_localReply {env : ReceiveEnv} {cseqInvite : Bool} (hok : LocalOk env cseqInvite branch code reply c) :
    wp (fun _ => True) (localReply env cseqInvite branch code reply) (Relays branch code c) c := by
  rw [localReply, wp_bind, wp_emit, wp_bind]
  refine ⟨trivial, wp_imp (wp_tShouldRelayResponse_marks hok.relay) ?_⟩
  intro d c1 hd
  rw [wp_bind]
  refine wp_imp (wp_store) ?_
  rintro stored c2 ⟨h2, hstored⟩
  refine wp_ite (fun hfail => ?_) fun _ => ?_
  · obtain ⟨hstore, hmem, hreply⟩ := hstored hfail
    have hno : ¬ (env.relay.store = true ∨ reply = .faked) := by simp [hmem, hreply]
    have hbm : d.cancelBm = [] := by
      by_contra hne
      cases hd.cause hne with
      | success _ _ _ store => exact absurd (hstore.symm.trans store) (by decide)
      | globalFailure h6xx others t6xx _ _ =>
        exact hno (hok.globalFailure h6xx.1 h6xx.2 t6xx others)
    have h : Marks [] c c2 := (hbm ▸ hd.marks : Marks [] c c1).after h2
    cases cseqInvite with
    | false => exact absurd (hok.other rfl (hd.store hstore)) hno
    | true =>
      refine wp_imp (wp_localError (h.invite.symm ▸ hok.cancel)) ?_
      rintro res c3 ⟨h3, rfl⟩
      exact ⟨h.after h3, fun h => absurd rfl h⟩
  · refine wp_after (moves_setWinner) fun _ c3 h3 => ?_
    rw [wp_bind, unlockReplies, wp_emit, wp_bind, wp_emit]
    exact ⟨trivial, trivial, hd.relays (h2.after h3)⟩

/-- The environment of a reply: its failure handlers do not leave branches reserved. -/
structure ReceiveEnv.Final (inv : Bool) (env : ReceiveEnv) : Prop where
  relay : env.relay.Final inv
  cancel : env.cancel.Final inv

/-- The reservation of `fake_reply`. -/
theorem wp_fakeReply_reserve :
    wp (fun _ => True) (if inv = true then shouldCancelBranch branch false else pure false)
      (fun cancel => Marks (if cancel then [branch] else []) c) c := by
  refine wp_ite (fun _ => ?_) fun _ => .refl c
  rcases lt_or_ge branch c.nrOfOutgoings with hlt | hge
  · exact wp_imp (wp_shouldCancelBranch hlt) fun _ _ h => h.marks
  · -- a branch that does not exist has no reply
    rw [shouldCancelBranch, wp_bind, wp_read, Cell.uac_of_length_le hge]
    exact Marks.refl c

theorem wp_fakeReply {env : ReceiveEnv} (henv : env.Final c.isInvite) (hcode : 300 ≤ code ∧ code < 600) :
    wp (fun _ => True) (fakeReply env branch code) (fun _ => Marks [] c) c := by
  rw [fakeReply, wp_bind, wp_emit, wp_bind, wp_read, wp_bind]
  refine ⟨trivial, wp_imp (wp_fakeReply_reserve) fun cancel c1 h1 => ?_⟩
  refine wp_after (moves_update (.modifyUac (by simp) branch)) fun _ c2 h2 => ?_
  rw [wp_bind, wp_read, wp_bind]
  have hinv := h2.invite.trans h1.invite
  have hreply : wp (fun _ => True) (if c2.isLocal = true then localReply env c.isInvite branch code .faked
        else relayReply env.relay branch code .faked) (fun _ => Marks [] c2) c2 := by
    refine wp_ite (fun _ => ?_) fun _ => ?_
    · have hok : LocalOk env c.isInvite branch code .faked c2 :=
        ⟨hinv.symm ▸ henv.relay, hinv.symm ▸ henv.cancel, fun _ _ _ _ => .inr rfl, fun _ _ => .inr rfl⟩
      exact wp_imp (wp_localReply hok) fun _ _ h => h.quiet hcode
    · have hok : RelayOk env.relay branch code .faked c2 :=
        ⟨hinv.symm ▸ henv.relay, fun _ h => absurd h (by omega), fun h => absurd h (by omega)⟩
      exact wp_imp (wp_relayReply hok) fun _ _ h => h.quiet hcode
  refine wp_imp hreply fun _ c3 h3 => ?_
  have h13 := (h1.before h2).before h3
  rw [wp_bind, wp_when]
  cases cancel with
  | false => exact ⟨trivial, h13⟩
  | true =>
    rw [if_pos rfl, wp_bind]
    refine wp_imp (wp_cancelBranch (quiet_fake487 henv.cancel branch) h13.invite) ?_
    exact fun _ c4 h4 => ⟨trivial, h13.free h4⟩

theorem wp_failover (c : Cell) : wp (fun _ => True) (failover added) (fun _ => Marks [] c) c := by
  induction added generalizing c with
  | nil => exact .refl c
  | cons kind kinds ih =>
    rw [failover, wp_bind, lockReplies, wp_emit, wp_bind, wp_update, wp_bind, unlockReplies, wp_emit]
    exact ⟨trivial, trivial, wp_imp (ih _) fun _ _ h => (Marks.addUac kind c).after h⟩

theorem wp_cancelAgain (henv : env.Final c.isInvite) :
    wp (fun _ => True) (cancelAgain env branch) (fun _ => Marks [] c) c := by
  rw [cancelAgain, wp_bind, wp_read, wp_when]
  split_ifs
  · rw [wp_bind, wp_cmpxchgCancel]
    rcases eq_or_ne (c.uac branch).localCancel .null with hnull | hnull
    · rw [if_pos hnull, wp_when, if_pos rfl, wp_bind]
      refine wp_imp (wp_cancelBranch (quiet_fake487 henv branch) rfl) fun _ c1 h1 => ?_
      exact (Marks.reserve).free h1
    · rw [if_neg hnull]
      exact .refl c
  · exact .refl c

/-- The branches that were left reserved are cancelled, but for those of a request that is not an
INVITE. -/
theorem wp_cancelAfter (henv : env.Final c.isInvite) (h : Relays branch code c res c')
    (hok : 200 ≤ code → code < 300 → c.OthersPending branch → c.isInvite = true) :
    wp (fun _ => True) (cancelAfter env flags c.isInvite res) (fun _ => Marks [] c) c' := by
  rw [cancelAfter]
  refine wp_ite (fun hcompleted => ?_) fun _ => ?_
  · rw [wp_when]
    split_ifs with hinv
    · rw [wp_bind]
      exact (discharges_cancelUacs henv).wp h.marks
    · have hbm : res.2 = [] := by
        by_contra hne
        rcases h.cause hne with ⟨h200, h300, hothers⟩ | ⟨_, _, hstore⟩
        · exact hinv (hok h200 h300 hothers)
        · exact absurd (hcompleted.symm.trans hstore) (by decide)
      exact hbm ▸ h.marks
  · rw [wp_when]
    split_ifs with hne
    · rw [wp_bind]
      exact (discharges_cancelUacs henv).wp h.marks
    · have hbm : res.2 = [] := by simpa using hne
      exact hbm ▸ h.marks

/-- `reply_received` leaves no branch reserved. While other branches are pending, a 2xx has to be
to an INVITE and, if it is relayed, there has to be memory for it, and the first 6xx can be
stored. A failure of a local request that is not an INVITE can always be stored. -/
structure ReceiveOk (env : ReceiveEnv) (m : ReplyMsg) (c : Cell) : Prop where
  final : env.Final c.isInvite
  success : 200 ≤ m.status → m.status < 300 → c.OthersPending m.branch →
    c.isInvite = true ∧ (c.isLocal = false → env.relay.buf = true ∧ env.relay.shm = true)
  globalFailure : 600 ≤ m.status → m.status ≤ 699 → c.t6xx = false → c.OthersPending m.branch →
    env.relay.store = true
  other : c.isLocal = true → m.cseqInvite = false → 300 ≤ m.status → env.relay.store = true

/-- A DNS failover, after a 503, does not matter to the conditions. -/
theorem wp_replyReceived_failover {added} : wp (fun _ => True) (when (m.status = 503) (failover added))
      (fun _ c' => Marks [] c c' ∧ (m.status ≠ 503 → c' = c)) c := by
  rw [wp_when]
  split_ifs with h503
  · exact wp_imp (wp_failover c) fun _ c1 h1 => ⟨h1, fun h => absurd (by simpa using h503) h⟩
  · exact ⟨.refl c, fun _ => rfl⟩

theorem wp_replyReceived {env} (hok : ReceiveOk env m c) :
    wp (fun _ => True) (replyReceived env cancelBFlags added m) (fun _ => Marks [] c) c := by
  rw [replyReceived, wp_bind, wp_read, id_eq]
  refine wp_ite (fun _ => .refl c) fun _ => ?_
  refine wp_ite (fun _ => wp_cancelAgain hok.final.cancel) fun _ => ?_
  rw [wp_bind]
  refine wp_imp (wp_replyReceived_failover) ?_
  rintro _ c1 ⟨h1, hsame⟩
  have hinv := h1.invite
  have hpending : ∀ {P : Prop}, m.status ≠ 503 → (c.OthersPending m.branch → P) →
      c1.OthersPending m.branch → P := fun h503 hP h => hP (hsame h503 ▸ h)
  have h6xx : 600 ≤ m.status → m.status ≤ 699 → c1.t6xx = false → c1.OthersPending m.branch →
      env.relay.store = true ∨ Reply.msg m.status = .faked := by
    intro hlo hhi ht
    have h503 : m.status ≠ 503 := by omega
    exact hpending h503 fun ho => .inl (hok.globalFailure hlo hhi (hsame h503 ▸ ht) ho)
  rw [wp_bind, lockReplies, wp_emit, wp_bind]
  refine ⟨trivial, ?_⟩
  have hreply : wp (fun _ => True) (if c.isLocal = true then
      localReply env m.cseqInvite m.branch m.status (.msg m.status)
        else relayReply env.relay m.branch m.status (.msg m.status))
      (Relays m.branch m.status c1) c1 := by
    refine wp_ite (fun hlocal => wp_localReply ?_) fun hlocal => wp_relayReply ?_
    · exact ⟨hinv.symm ▸ hok.final.relay, hinv.symm ▸ hok.final.cancel, h6xx,
        fun hcseq hneg => .inl (hok.other hlocal hcseq hneg)⟩
    · refine ⟨hinv.symm ▸ hok.final.relay, fun h200 h300 => hpending (by omega) fun ho => ?_, h6xx⟩
      exact (hok.success h200 h300 ho).2 (by simpa using hlocal)
  refine wp_imp hreply fun res c2 h2 => ?_
  rw [← hinv]
  refine wp_imp (wp_cancelAfter (hinv.symm ▸ hok.final.cancel) h2 ?_) fun _ c3 h3 => h1.after h3
  intro h200 h300
  rw [hinv]
  exact hpending (by omega) fun ho => (hok.success h200 h300 ho).1

/-! ## Timers -/

theorem Marks.addUacs (added) (c : Cell) : Marks [] c (addUacs c added) := by
  induction added generalizing c with
  | nil => exact .refl c
  | cons kind kinds ih => exact (Marks.addUac kind c).after (ih _)

theorem wp_finalResponseHandler {env : ReceiveEnv} (henv : env.Final c.isInvite) {noisy} :
    wp (fun _ => True) (finalResponseHandler env activType branch noisy added) (fun _ => Marks [] c) c := by
  cases activType with
  | localCancel | reply => exact .refl c
  | request =>
    rw [finalResponseHandler, wp_bind, lockReplies, wp_emit, wp_bind, wp_read, id_eq]
    refine ⟨trivial, wp_ite (fun _ => ⟨trivial, .refl c⟩) fun _ => ?_⟩
    refine wp_after (.when .refl _ fun _ => moves_update (.addUacs added)) fun _ c1 h1 => ?_
    exact wp_imp (wp_fakeReply (h1.invite.symm ▸ henv) (by omega)) fun _ _ h2 => h1.after h2

theorem moves_tRetransmitReply {sock} : Moves (Marks []) (tRetransmitReply sock) := by
  refine Moves.when Marks.refl sock fun _ => (Moves.emit .refl _).bind fun _ => ?_
  refine (Moves.read Marks.refl _).bind fun response => (Moves.emit .refl _).bind fun _ => ?_
  cases response with
  | none => exact .pure .refl ()
  | some code => exact moves_update fun _ => .of_uacs rfl rfl

theorem wp_retransmissionHandler {env} (henv : env.Final c.isInvite) {sendOk sock} :
    wp (fun _ => True) (retransmissionHandler env activType branch sendOk sock)
      (fun _ => Marks [] c) c := by
  have hfake : wp (fun _ => True) (when (!sendOk) (fakeReply env branch 503)) (fun _ => Marks [] c) c := by
    rw [wp_when]
    split_ifs
    · exact wp_fakeReply henv (by omega)
    · exact .refl c
  cases activType with
  | request | localCancel => exact hfake
  | reply => exact moves_tRetransmitReply c

theorem wp_retrBufHandler {env} (henv : env.toReceiveEnv.Final c.isInvite) {rb} :
    wp (fun _ => True) (retrBufHandler env rb) (fun _ => Marks [] c) c := by
  rw [retrBufHandler]
  refine wp_ite (fun _ => .refl c) fun _ => ?_
  refine wp_ite (fun _ => wp_finalResponseHandler henv) fun _ => ?_
  rw [wp_when]
  split_ifs
  · exact wp_retransmissionHandler henv
  · exact .refl c

/-! ## Runs -/

/-- The operation, from this state, does not leave a branch reserved. -/
def TmOp.FreesAll (c : Cell) : TmOp → Prop
  | .addBranch _ => True
  | .replyReceived env _ _ m => ReceiveOk env m c
  | .retrBufHandler env _ => env.toReceiveEnv.Final c.isInvite
  | .tReply env cancel code => cancel.Final c.isInvite ∧ ReplyOk env code c
  | .rpcCancel env => env.Final c.isInvite
  | .cancelAllUacs env _ => env.Final c.isInvite
  | .e2eCancel env _ _ => env.Final c.isInvite

theorem TmOp.FreesAll.wp {op : TmOp} (hok : op.FreesAll c) : wp (fun _ => True) op.prog (fun _ => Marks [] c) c := by
  cases op with
  | addBranch kind => exact .addUac kind c
  | replyReceived env flags added m => exact wp_replyReceived hok
  | retrBufHandler env rb => exact wp_retrBufHandler hok
  | tReply env cancel code =>
    rw [prog, wp_bind]
    exact wp_tReply hok.1 hok.2
  | rpcCancel env => exact wp_rpcCancel hok
  | cancelAllUacs env how => exact wp_cancelAllUacs hok
  | e2eCancel env reply flags => exact wp_e2eCancel hok

/-- The transaction after operations that have all returned. -/
def afterOps : List TmOp → Bool → Cell → Option (Bool × Cell)
  | [], held, c => some (held, c)
  | op :: ops, held, c =>
    match exec op.prog held c with
    | (some (), held', c') => afterOps ops held' c'
    | (none, _, _) => none

/-- Each operation of the run meets its condition in the state that it starts from. -/
def RunFreesAll : List TmOp → Bool → Cell → Prop
  | [], _, _ => True
  | op :: ops, held, c => op.FreesAll c ∧
    match exec op.prog held c with
    | (some (), held', c') => RunFreesAll ops held' c'
    | (none, _, _) => True

theorem RunFreesAll.marks {ops : List TmOp} {held held' : Bool}
    (hok : RunFreesAll ops held c) (h : afterOps ops held c = some (held', c')) : Marks [] c c' := by
  induction ops generalizing held c with
  | nil =>
    simp only [afterOps, Option.some.injEq, Prod.mk.injEq] at h
    exact h.2 ▸ Marks.refl c
  | cons op ops ih =>
    have hop := exec_of_wp hok.1.wp held
    have hops := hok.2
    rw [afterOps] at h
    revert hop hops h
    rcases exec op.prog held c with ⟨_ | _, held1, c1⟩
    · intro h _ _
      exact absurd h (by simp)
    · intro h hop hops
      exact hop.after (ih hops h)

/-- No branch of a transaction is left reserved, and so none is left that can not be cancelled, in
any run whose operations meet their conditions. -/
theorem no_branch_left_busy (isInvite isLocal onNegative onFailureCb held : Bool) (ops : List TmOp)
    (c : Cell) (hok : RunFreesAll ops false (newCell isInvite isLocal onNegative onFailureCb))
    (h : afterOps ops false (newCell isInvite isLocal onNegative onFailureCb) = some (held, c)) :
    ∀ b, (c.uac b).localCancel ≠ .busy := by
  intro b hb
  have hnew := (hok.marks h).no_new hb
  exact absurd hnew.lt (by simp [newCell, Cell.nrOfOutgoings])

theorem fineReceive_final : fineReceive.Final inv := by
  have hrelay : fineRelay.Final inv :=
    ⟨fun _ _ h => absurd h (by simp [fineRelay]), fun _ h => absurd h (by simp [fineRelay])⟩
  exact ⟨hrelay, fun _ => hrelay⟩

/-- A 180 on the first branch and a 200 on the second: the first branch gets its CANCEL. -/
def forkedCall : List TmOp :=
  [.addBranch .sent, .addBranch .sent, .replyReceived fineReceive killFlag [] ⟨0, 180, false, true⟩,
    .replyReceived fineReceive killFlag [] ⟨1, 200, false, true⟩]

theorem no_branch_left_busy_forkedCall :
    ((runOps forkedCall false (newCell true false false false)).uac 0).localCancel = .set ∧
    ∀ b, ((runOps forkedCall false (newCell true false false false)).uac b).localCancel ≠ .busy := by
  have hok : RunFreesAll forkedCall false (newCell true false false false) := by
    refine ⟨trivial, trivial, ⟨fineReceive_final, ?_, ?_, ?_⟩, ⟨fineReceive_final, ?_, ?_, ?_⟩,
      trivial⟩
    · intro h; exact absurd h (by decide)
    · intro h; exact absurd h (by decide)
    · intro h; exact absurd h (by decide)
    · exact fun _ _ _ => ⟨rfl, fun _ => ⟨rfl, rfl⟩⟩
    all_goals intro h; exact absurd h (by decide)
  exact ⟨by decide, no_branch_left_busy true false false false false forkedCall _ hok rfl⟩

/-- A provisional reply of the script leaves the pending branch reserved: neither an RPC nor the
final reply of the script cancels it later. -/
theorem provisional_reply_leaves_busy :
    let ops : List TmOp := [.addBranch .sent,
      .replyReceived fineReceive killFlag [] ⟨0, 180, false, true⟩,
      .tReply fineReply fineCancel 183]
    (afterOps ops false (newCell true false false false)).map (fun r => (r.2.uac 0).localCancel) =
      some .busy ∧
    (afterOps (ops ++ [.rpcCancel fineCancel, .tReply fineReply fineCancel 486]) false
      (newCell true false false false)).map (fun r => (r.2.uac 0).localCancel) = some .busy := by
  decide

end SipRouter.Tm
