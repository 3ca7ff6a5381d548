import SipRouter.Tm.Locking

/-!
# One final answer

Once the status of the UAS side of a transaction is final, it is set again only
by a 2xx to an INVITE: the functions that process a reply look at the status
with the reply lock held. The reply itself is sent after `UNLOCK_REPLIES`, so
that another process may answer in between; if none does, only a 2xx to an
INVITE is sent after a final reply.
-/

namespace SipRouter.Tm

open Lib List Function

/-- After a final code comes only that of a 2xx to an INVITE. -/
def After (isInvite : Bool) (code code' : Nat) : Prop := 200 ≤ code → Inv2xx isInvite code'

/-- A final code but that of a 2xx to an INVITE. -/
def Last (isInvite : Bool) (code : Nat) : Prop := 200 ≤ code ∧ ¬ Inv2xx isInvite code

/-- The UAS side of a transaction, and the replies that processes `ι` have to send. -/
structure Uas {ι : Type} (isInvite : Bool) (due : ι → Option Nat) (c : Cell) : Prop where
  invite : c.isInvite = isInvite
  status : c.status = c.statuses.getLastD 0
  follow : c.statuses.Pairwise (After isInvite)
  sent : ∀ code ∈ c.sents, code ∈ c.statuses
  noted : ∀ i code, due i = some code → code ∈ c.statuses
  /-- a final reply but a 2xx to an INVITE is sent once, by one process -/
  once : ∀ i code, due i = some code → Last isInvite code →
    code ∉ c.sents ∧ ∀ j code', due j = some code' → Last isInvite code' → j = i

variable {ι : Type} {isInvite : Bool} {due : ι → Option Nat} {c c' : Cell}

theorem uas_newCell {isLocal onNegative onFailureCb} :
    Uas isInvite (fun _ : ι => none) (newCell isInvite isLocal onNegative onFailureCb) where
  invite := rfl
  status := rfl
  follow := .nil
  sent _ h := h
  noted _ _ h := by cases h
  once _ _ h := by cases h

namespace Uas

/-- The status is the last one that was set, and a final one is not followed by others. -/
theorem final (h : Uas isInvite due c) {code} (hmem : code ∈ c.statuses) (hfin : 200 ≤ code) :
    code = c.status ∨ Inv2xx isInvite c.status := by
  obtain ⟨codes, last, heq⟩ := (eq_nil_or_concat c.statuses).resolve_left (ne_nil_of_mem hmem)
  have hlast : c.status = last := by rw [h.status, heq]; simp
  rw [hlast]
  rw [heq, concat_eq_append] at hmem
  rcases mem_append.1 hmem with hcode | hcode
  · have hfollow := h.follow
    rw [heq, concat_eq_append] at hfollow
    exact .inr ((pairwise_append.1 hfollow).2.2 code hcode last (mem_singleton_self last) hfin)
  · exact .inl (mem_singleton.1 hcode)

/-- While the status is not final, no final one was set. -/
theorem lt_of_status_lt (h : Uas isInvite due c) (hlt : c.status < 200) {code} (hmem : code ∈ c.statuses) :
    code < 200 := by
  by_contra hge
  rcases h.final hmem (by omega) with heq | hinv
  · omega
  · exact absurd hinv.2.1 (by omega)

theorem set [DecidableEq ι] (h : Uas isInvite due c) {i : ι} {code} (hok : c.status < 200 ∨ Inv2xx c.isInvite code)
    (hinv : c'.isInvite = c.isInvite) (hstatus : c'.status = code) (hstatuses : c'.statuses = c.statuses ++ [code])
    (hsents : c'.sents = c.sents) : Uas isInvite (Function.update due i (some code)) c' := by
  rw [h.invite] at hok
  -- before the last final reply of a transaction there was none
  have hnew : Last isInvite code → ∀ code' ∈ c.statuses, code' < 200 :=
    fun hlast code' hmem => h.lt_of_status_lt (hok.resolve_right hlast.2) hmem
  refine ⟨hinv.trans h.invite, by simp [hstatus, hstatuses], ?_, ?_, ?_, ?_⟩
  · rw [hstatuses]
    refine pairwise_append.2 ⟨h.follow, pairwise_singleton _ _, fun code₀ hmem code' hcode' hfin => ?_⟩
    rw [mem_singleton.1 hcode']
    refine hok.resolve_left fun hlt => ?_
    exact absurd (h.lt_of_status_lt hlt hmem) (by omega)
  · intro code' hmem
    rw [hstatuses]
    exact mem_append_left _ (h.sent code' (hsents ▸ hmem))
  · intro j code' hj
    rw [hstatuses]
    by_cases hji : j = i
    · subst hji
      rw [update_self] at hj
      exact mem_append_right _ (by simpa using hj.symm)
    · rw [update_of_ne hji] at hj
      exact mem_append_left _ (h.noted j code' hj)
  · intro j code₁ hj hlast₁
    rw [hsents]
    by_cases hji : j = i
    · subst hji
      obtain rfl : code = code₁ := by simpa using hj
      refine ⟨fun hmem => ?_, fun j' code' hj' hlast' => ?_⟩
      · exact absurd hlast₁.1 (not_le.2 (hnew hlast₁ code (h.sent code hmem)))
      · by_contra hne
        rw [update_of_ne hne] at hj'
        exact absurd hlast'.1 (not_le.2 (hnew hlast₁ code' (h.noted j' code' hj')))
    · rw [update_of_ne hji] at hj
      refine ⟨(h.once j code₁ hj hlast₁).1, fun j' code' hj' hlast' => ?_⟩
      by_cases hj'i : j' = i
      · subst hj'i
        obtain rfl : code = code' := by simpa using hj'
        exact absurd hlast₁.1 (not_le.2 (hnew hlast' code₁ (h.noted j code₁ hj)))
      · rw [update_of_ne hj'i] at hj'
        exact (h.once j code₁ hj hlast₁).2 j' code' hj' hlast'

theorem send [DecidableEq ι] (h : Uas isInvite due c) {i : ι} {code} (hdue : due i = some code)
    (hinv : c'.isInvite = c.isInvite) (hstatus : c'.status = c.status) (hstatuses : c'.statuses = c.statuses)
    (hsents : c'.sents = c.sents ++ [code]) : Uas isInvite (Function.update due i none) c' := by
  have hstill : ∀ {j code'}, Function.update due i none j = some code' → j ≠ i ∧ due j = some code' := by
    intro j code' hj
    by_cases hji : j = i
    · simp [hji] at hj
    · exact ⟨hji, by rwa [update_of_ne hji] at hj⟩
  refine ⟨hinv.trans h.invite, by rw [hstatus, hstatuses, h.status], by rw [hstatuses]; exact h.follow, ?_, ?_, ?_⟩
  · intro code' hmem
    rw [hstatuses]
    rcases mem_append.1 (hsents ▸ hmem) with hmem | hmem
    · exact h.sent code' hmem
    · rw [mem_singleton.1 hmem]
      exact h.noted i code hdue
  · intro j code' hj
    rw [hstatuses]
    exact h.noted j code' (hstill hj).2
  · intro j code' hj hlast
    obtain ⟨hne, hj⟩ := hstill hj
    obtain ⟨hsent, hone⟩ := h.once j code' hj hlast
    refine ⟨fun hmem => ?_, fun j' code₁ hj' => hone j' code₁ (hstill hj').2⟩
    rcases mem_append.1 (hsents ▸ hmem) with hmem | hmem
    · exact hsent hmem
    · rw [mem_singleton.1 hmem] at hlast
      exact hne (hone i code hdue hlast).symm

theorem step [DecidableEq ι] (h : Uas isInvite due c) {blind held} {i : ι} {g}
    (hown : (replies blind).own held (due i) c g c') : Uas isInvite (Function.update due i g) c' := by
  obtain ⟨hgrows, hanswers⟩ := hown
  cases hanswers with
  | quiet hs =>
    rw [update_eq_self]
    exact ⟨hgrows.invite.trans h.invite, by rw [hs.status, hs.statuses, h.status], by rw [hs.statuses]; exact h.follow,
      by rw [hs.sents, hs.statuses]; exact h.sent, by rw [hs.statuses]; exact h.noted, by rw [hs.sents]; exact h.once⟩
  | set _ hok hstatus hstatuses hsents => exact h.set hok hgrows.invite hstatus hstatuses hsents
  | send hdue hstatus hstatuses hsents => exact h.send hdue hgrows.invite hstatus hstatuses hsents

end Uas

/-- A reply that the step sends is a 2xx to an INVITE, or no final status was set since its own. -/
def Timely (isInvite : Bool) (cfg cfg' : Config ι Cell TmFn) : Prop :=
  ∀ code ∈ cfg'.shared.sents.drop cfg.shared.sents.length,
    cfg.shared.status < 200 ∨ cfg.shared.status = code ∨ Inv2xx isInvite code

instance : DecidableRel (Timely isInvite : Config ι Cell TmFn → Config ι Cell TmFn → Prop) :=
  fun _ _ => inferInstanceAs (Decidable (∀ _ ∈ _, _))

theorem Uas.sents_step (h : Uas isInvite due c) (hsents : c.sents.Pairwise (After isInvite)) {blind held} {i : ι} {g}
    (hown : (replies blind).own held (due i) c g c')
    (htimely : ∀ code ∈ c'.sents.drop c.sents.length, c.status < 200 ∨ c.status = code ∨ Inv2xx isInvite code) :
    c'.sents.Pairwise (After isInvite) := by
  cases hown.2 with
  | quiet hs => rwa [hs.sents]
  | set _ _ _ _ hsame => rwa [hsame]
  | @send _ code hdue _ _ happend =>
    rw [happend] at htimely ⊢
    refine pairwise_append.2 ⟨hsents, pairwise_singleton _ _, fun code₀ hmem code' hcode' hfin => ?_⟩
    rw [mem_singleton.1 hcode']
    by_contra hnot
    -- a final reply was sent, so that the status is final, and it is that of this reply
    have hset := h.final (h.sent code₀ hmem) hfin
    have hge : 200 ≤ c.status := hset.elim (fun heq => heq ▸ hfin) fun hinv => hinv.2.1
    have hcode : c.status = code := by
      rcases htimely code (by simp) with hlt | hcode | hinv
      · omega
      · exact hcode
      · exact absurd hinv hnot
    rw [hcode] at hset hge
    obtain rfl := hset.resolve_right hnot
    exact (h.once i code₀ hdue ⟨hge, hnot⟩).1 hmem

/-- Processes that run any number of safe operations, interleaved in any way: the status is what
was last set, and after a final status only that of a 2xx to an INVITE is set. If all steps are
timely, then after a final reply only a 2xx to an INVITE is sent. -/
theorem single_final_answer {ι : Type} [DecidableEq ι] (blind isInvite isLocal onNegative onFailureCb : Bool)
    (cfg : Config ι Cell TmFn) :
    (cfg.Reach (fun p => ∃ op : TmOp, op.Safe blind ∧ p = op.prog)
        (newCell isInvite isLocal onNegative onFailureCb) →
      cfg.shared.status = cfg.shared.statuses.getLastD 0 ∧ cfg.shared.statuses.Pairwise (After isInvite)) ∧
    (cfg.ReachBy (fun p => ∃ op : TmOp, op.Safe blind ∧ p = op.prog) (Timely isInvite)
        (newCell isInvite isLocal onNegative onFailureCb) →
      cfg.shared.sents.Pairwise (After isInvite)) := by
  constructor
  · intro h
    obtain ⟨due, _, huas⟩ := h.reachBy.ok (Uas isInvite) (fun _ => none) inv_newCell (fun _ => turns_of_safe)
      uas_newCell fun _ h hown => h.step hown
    exact ⟨huas.status, huas.follow⟩
  · intro h
    obtain ⟨due, _, _, hsents⟩ := h.ok (fun due c => Uas isInvite due c ∧ c.sents.Pairwise (After isInvite))
      (fun _ => none) inv_newCell (fun _ => turns_of_safe) ⟨uas_newCell, .nil⟩
      fun htimely h hown => ⟨h.1.step hown, h.1.sents_step h.2 hown htimely⟩
    exact hsents

/-- The reply with this status to an INVITE, on its first branch. -/
def onFirst (status : Nat) : TmOp := .replyReceived fineReceive killFlag [] ⟨0, status, false, true⟩

theorem safe_onFirst (status : Nat) : (onFirst status).Safe false := ⟨safe_fineReceive, by simp⟩

/-- A 183 and a 486 arrive together, and the 486 waits for the lock until the 183 is sent. -/
theorem single_final_answer_waiting :
    ∃ cfg : Config Bool Cell TmFn, cfg.shared.sents = [183, 486] ∧ cfg.shared.sents.Pairwise (After true) := by
  have h₀ : Config.ReachBy (fun p => ∃ op : TmOp, op.Safe false ∧ p = op.prog) (Timely true)
      (newCell true false false false) ⟨newCell true false false false, none, fun _ : Bool => .ret ()⟩ := .init
  have h₁ := h₀.start true _ rfl ⟨.addBranch .sent, fun _ => by decide, rfl⟩
  have h₂ := h₁.run [true] (by decide)
  have h₃ := (h₂.start true _ rfl ⟨_, safe_onFirst 183, rfl⟩).start false _ rfl
    ⟨_, safe_onFirst 486, rfl⟩
  have h₄ := h₃.run (replicate 4 true ++ replicate 3 false ++ replicate 7 true ++ replicate 30 false) (by decide)
  exact ⟨_, by decide, (single_final_answer false true false false false _).2 h₄⟩

/-- A 183 is sent after the 486: its process has released the lock and not sent the reply when
the 486 is relayed. And a retransmission that fails fakes a 503 without the lock: the status is
set after the script has replied. -/
theorem reply_after_final :
    (∃ cfg : Config Bool Cell TmFn,
      cfg.Reach (fun p => ∃ op : TmOp, op.Safe false ∧ p = op.prog) (newCell true false false false) ∧
      cfg.shared.sents = [486, 183]) ∧
    (∃ cfg : Config Bool Cell TmFn,
      cfg.Reach (fun p => ∃ op : TmOp, p = op.prog) (newCell true false false false) ∧
      cfg.shared.statuses = [480, 503] ∧ cfg.shared.sents = [480, 503]) := by
  constructor
  · have h₀ : Config.Reach (fun p => ∃ op : TmOp, op.Safe false ∧ p = op.prog) (newCell true false false false)
        ⟨newCell true false false false, none, fun _ : Bool => .ret ()⟩ := .init
    have h₁ := (h₀.start true _ rfl ⟨.addBranch .sent, fun _ => by decide, rfl⟩).run [true]
    have h₂ := (h₁.start true _ rfl ⟨_, safe_onFirst 183, rfl⟩).start false _ rfl
      ⟨_, safe_onFirst 486, rfl⟩
    exact ⟨_, h₂.run (replicate 9 true ++ replicate 30 false ++ replicate 2 true), by decide⟩
  · have h₀ : Config.Reach (fun p => ∃ op : TmOp, p = op.prog) (newCell true false false false)
        ⟨newCell true false false false, none, fun _ : Bool => .ret ()⟩ := .init
    have h₁ := (h₀.start true _ rfl ⟨.addBranch .sent, rfl⟩).run [true]
    have h₂ := (h₁.start true _ rfl ⟨.retrBufHandler ⟨fineReceive, false, true, true, []⟩
      ⟨.request, 0, false, false, true, false⟩, rfl⟩).start false _ rfl ⟨.tReply fineReply fineCancel 480, rfl⟩
    exact ⟨_, h₂.run (replicate 15 true ++ replicate 16 false ++ replicate 6 true), by decide⟩

end SipRouter.Tm
