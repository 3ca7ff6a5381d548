import SipRouter.Tm.Locking

/-!
# Forking

A forked request, each branch of which gets one final reply that is not a 2xx.
When the last of these replies arrives `t_pick_branch` picks one, that with the
lowest priority value and, among equals, the lowest branch. The reply on its way
is not stored yet when the choice is made, so the choice is over the stored
replies and the one that just arrived; up to the last one there are open branches
and the replies are stored. The outcome does not depend on the order in which
they arrive. Branches without a request are skipped by `t_pick_branch`.
-/

namespace SipRouter.Tm

open Lib Prog List

/-! ## Picking a branch -/

/-- `b` is the first of the branches below `n` with the lowest priority value. -/
def IsBest (code : Nat → Nat) (n b : Nat) : Prop :=
  b < n ∧ ∀ b' < n, toLex (getPrio (code b), b) ≤ toLex (getPrio (code b'), b')

variable {code : Nat → Nat}

theorem IsBest.unique {n b b'} (h : IsBest code n b) (h' : IsBest code n b') : b = b' := by
  have heq := le_antisymm (h.2 b' h'.1) (h'.2 b h.1)
  exact congrArg Prod.snd (toLex_inj.1 heq)

theorem get4xxPrio_lt {xx} (h : xx < 100) : get4xxPrio xx < 200 := by
  rw [get4xxPrio]
  split_ifs <;> omega

/-- A reply with a code of three digits is better than none. -/
theorem getPrio_lt {code} (hlo : 100 ≤ code) (hhi : code ≤ 999) : getPrio code < getPrio 0 := by
  have hnone : getPrio 0 = 32000 := by decide
  have hxx : code % 100 < 100 := Nat.mod_lt _ (by omega)
  have h4xx := get4xxPrio_lt hxx
  have hcls : 1 ≤ code / 100 := by omega
  rw [hnone]
  simp only [getPrio]
  generalize code % 100 = xx at hxx h4xx ⊢
  split_ifs with hlt h4
  · rw [h4]
    simp only [respClassPrio, getD_cons_succ, getD_cons_zero]
    omega
  · generalize code / 100 = cls at hcls hlt
    interval_cases cls <;> simp only [respClassPrio, getD_cons_succ, getD_cons_zero] <;> omega
  · omega

/-- What the loop of `t_pick_branch` has found among the branches below `k`. -/
inductive BestSoFar (code : Nat → Nat) : Nat → Best → Prop
  | start : BestSoFar code 0 (none, 0)
  | found {k b : Nat} (h : IsBest code k b) : BestSoFar code k (some b, code b)

variable {k inc : Nat} {best : Best} {us : List Uac} {c : Cell} {done : Set Nat}

theorem BestSoFar.improve (h : BestSoFar code k best)
    (hlo : 100 ≤ code k) (hhi : code k ≤ 999) : BestSoFar code (k + 1) (best.improve k (code k)) := by
  cases h with
  | start =>
    rw [Best.improve, if_pos (getPrio_lt hlo hhi)]
    refine .found ⟨zero_lt_one, fun b' hb' => ?_⟩
    rw [Nat.lt_one_iff.1 hb']
  | @found k b h =>
    rw [Best.improve]
    split_ifs with hlt
    · refine .found ⟨Nat.lt_succ_self k, fun b' hb' => ?_⟩
      rcases Nat.lt_succ_iff_lt_or_eq.1 hb' with hb' | rfl
      · refine le_trans ?_ (h.2 b' hb')
        exact le_of_lt (Prod.Lex.toLex_lt_toLex.2 (.inl hlt))
      · exact le_rfl
    · refine .found ⟨Nat.lt_succ_of_lt h.1, fun b' hb' => ?_⟩
      rcases Nat.lt_succ_iff_lt_or_eq.1 hb' with hb' | rfl
      · exact h.2 b' hb'
      · have hge := not_lt.1 hlt
        rw [Prod.Lex.toLex_le_toLex]
        exact (lt_or_eq_of_le hge).imp id fun heq => ⟨heq, h.1.le⟩

/-- The branches from `k` on have their final replies, but for branch `inc`. -/
def AllFinal (code : Nat → Nat) (inc k : Nat) (us : List Uac) : Prop :=
  ∀ i (h : i < us.length), k + i ≠ inc →
    us[i].hasBuffer = true ∧ us[i].lastReceived = code (k + i) ∧ us[i].reply.isSome

theorem AllFinal.tail {u} (h : AllFinal code inc k (u :: us)) : AllFinal code inc (k + 1) us := by
  intro i hi hne
  have hi' := h (i + 1) (Nat.succ_lt_succ hi) (by omega)
  rwa [getElem_cons_succ, show k + (i + 1) = k + 1 + i by omega] at hi'

/-- With the reply on branch `inc` on its way and all others there, a best one is picked. -/
theorem tPickBranchFrom_all (hcode : ∀ b, 200 ≤ code b ∧ code b ≤ 999) (hus : AllFinal code inc k us)
    (hbest : BestSoFar code k best) (hpos : 0 < k + us.length) :
    ∃ b, tPickBranchFrom (some inc) (code inc) k us best = .picked b (code b) ∧
      IsBest code (k + us.length) b := by
  induction us generalizing k best with
  | nil =>
    cases hbest with
    | start => exact absurd hpos (by simp)
    | found h => exact ⟨_, rfl, h⟩
  | cons u us ih =>
    obtain ⟨hlo, hhi⟩ := hcode k
    have hgo := ih hus.tail (hbest.improve (by omega) hhi) (by omega)
    rw [length_cons, show k + (us.length + 1) = k + 1 + us.length by omega, tPickBranchFrom]
    rcases eq_or_ne inc k with rfl | hne
    · rwa [if_pos rfl]
    · obtain ⟨hbuf, hlast, hreply⟩ := hus 0 (Nat.zero_lt_succ _) (by simpa using hne.symm)
      simp only [getElem_cons_zero, Nat.add_zero] at hbuf hlast hreply
      rw [if_neg (by simpa using hne), if_neg (by simp [hbuf]), hlast, if_neg (by omega), if_pos hreply]
      exact hgo

/-- While another branch is open, nothing is picked. -/
theorem tPickBranchFrom_open {incCode} (hbuf : ∀ u ∈ us, u.hasBuffer = true)
    (hopen : ∃ i, ∃ h : i < us.length, k + i ≠ inc ∧ us[i].lastReceived < 200) :
    tPickBranchFrom (some inc) incCode k us best = .openBranches := by
  induction us generalizing k best with
  | nil =>
    obtain ⟨i, hi, _⟩ := hopen
    exact absurd hi (by simp)
  | cons u us ih =>
    have hgo : ∀ best, u.lastReceived < 200 ∧ inc ≠ k ∨
        tPickBranchFrom (some inc) incCode (k + 1) us best = .openBranches := by
      intro best
      obtain ⟨i, hi, hne, hlast⟩ := hopen
      cases i with
      | zero => exact .inl ⟨hlast, fun h => hne h.symm⟩
      | succ i =>
        refine .inr (ih (fun u hu => hbuf u (.tail _ hu)) ⟨i, Nat.lt_of_succ_lt_succ hi, ?_, hlast⟩)
        omega
    rw [tPickBranchFrom]
    rcases eq_or_ne inc k with rfl | hne
    · rw [if_pos rfl]
      exact (hgo _).resolve_left fun h => h.2 rfl
    · rw [if_neg (by simpa using hne), if_neg (by simp [hbuf u (.head _)])]
      split_ifs with hlast
      · rfl
      all_goals exact (hgo _).resolve_left fun h => hlast h.1

/-! ## Replies that arrive -/

/-- The final reply of a branch, received or faked. -/
structure BranchFinal where
  code : Nat
  faked : Bool
  deriving DecidableEq, Repr

namespace BranchFinal

def reply (f : BranchFinal) : Reply := if f.faked then .faked else .msg f.code

/-- The code that is relayed: a 503 that was received becomes a 500. -/
def relayed (f : BranchFinal) : Nat := if f.code = 503 ∧ f.faked = false then 500 else f.code

end BranchFinal

/-- A reply on a branch: a provisional one, or its final reply, perhaps once more. -/
inductive Arrival where
  | provisional (branch code : Nat)
  | final (branch : Nat)
  deriving DecidableEq, Repr

variable {a : Arrival}

/-- The reply is processed by `relay_reply`. -/
def Arrival.deliver (finals : Nat → BranchFinal) : Arrival → Proc Unit
  | .provisional branch code => do
    lockReplies
    let _ ← relayReply fineRelay branch code (.msg code)
  | .final branch => do
    lockReplies
    let _ ← relayReply fineRelay branch (finals branch).code (finals branch).reply

/-- The transaction after the replies, unless processing one of them does not end. -/
def runArrivals (finals : Nat → BranchFinal) : List Arrival → Cell → Option Cell
  | [], c => some c
  | a :: as, c =>
    match exec (a.deliver finals) false c with
    | (some (), _, c') => runArrivals finals as c'
    | (none, _, _) => none

/-- The last reply that was sent. -/
def lastSent (log : List UasEvent) : Option Nat :=
  log.foldl (fun sent e => match e with
    | .sent code => some code
    | _ => sent) none

/-- The replies of the branches in `done` have arrived, and others are still to come. -/
structure Waiting (finals : Nat → BranchFinal) (n : Nat) (done : Set Nat) (c : Cell) : Prop where
  status : c.status < 200
  onNegative : c.onNegative = false
  onFailureCb : c.onFailureCb = false
  nrOfOutgoings : c.nrOfOutgoings = n
  buffered : ∀ b < n, (c.uac b).hasBuffer = true
  final : ∀ b < n, b ∈ done →
    (c.uac b).lastReceived = (finals b).code ∧ (c.uac b).reply = some (finals b).reply
  pending : ∀ b < n, b ∉ done → (c.uac b).lastReceived < 200
  incomplete : ∃ b < n, b ∉ done

/-- The reply of the best branch was relayed. -/
structure Relayed (finals : Nat → BranchFinal) (n b : Nat) (c : Cell) : Prop where
  best : IsBest (fun b => (finals b).code) n b
  status : c.status = (finals b).relayed
  branch : c.relayedReplyBranch = b
  sent : lastSent c.log = some (finals b).relayed

/-! ## One reply -/

/-- After a final reply, to the request or on the branch, a reply that is not a 2xx is discarded. -/
theorem wp_relayReply_discard {branch code reply}
    (hfinal : 200 ≤ c.status ∨ 200 ≤ (c.uac branch).lastReceived) (hcode : code < 200 ∨ 300 ≤ code) :
    wp (fun _ => True) (relayReply fineRelay branch code reply) (fun _ c' => c' = c) c := by
  have hinv : (decide (200 ≤ code) && decide (code < 300) && c.isInvite) = false := by
    rcases hcode with h | h
    · simp [not_le.2 h]
    · simp [not_lt.2 h]
  have hd : wp (fun _ => True) (tShouldRelayResponse fineRelay branch code reply)
      (fun d c' => d = discard ∧ c' = c) c := by
    simp only [tShouldRelayResponse, wp_bind, wp_read, id_eq, hinv]
    refine wp_ite (fun _ => ?_) fun hstatus => ?_
    · exact ⟨rfl, rfl⟩
    · rw [if_pos ⟨hfinal.resolve_left hstatus, by simp⟩]
      exact ⟨rfl, rfl⟩
  rw [relayReply, wp_bind, wp_emit, wp_bind]
  refine ⟨trivial, wp_imp hd ?_⟩
  rintro d c' ⟨rfl, rfl⟩
  exact ⟨trivial, trivial, rfl⟩

/-- The replies that a transaction has are the same. -/
structure SameReplies (c c' : Cell) : Prop where
  status : c'.status = c.status
  onNegative : c'.onNegative = c.onNegative
  onFailureCb : c'.onFailureCb = c.onFailureCb
  nrOfOutgoings : c'.nrOfOutgoings = c.nrOfOutgoings
  hasBuffer : ∀ b, (c'.uac b).hasBuffer = (c.uac b).hasBuffer
  lastReceived : ∀ b, (c'.uac b).lastReceived = (c.uac b).lastReceived
  reply : ∀ b, (c'.uac b).reply = (c.uac b).reply

namespace SameReplies

theorem refl (c : Cell) : SameReplies c c := ⟨rfl, rfl, rfl, rfl, fun _ => rfl, fun _ => rfl, fun _ => rfl⟩

instance : IsTrans Cell SameReplies := ⟨fun _ _ _ h h' =>
  ⟨h'.status.trans h.status, h'.onNegative.trans h.onNegative, h'.onFailureCb.trans h.onFailureCb,
    h'.nrOfOutgoings.trans h.nrOfOutgoings, fun b => (h'.hasBuffer b).trans (h.hasBuffer b),
    fun b => (h'.lastReceived b).trans (h.lastReceived b), fun b => (h'.reply b).trans (h.reply b)⟩⟩

/-- Only the CANCEL of a branch is changed. -/
theorem modifyUac_cancel {b new c} : SameReplies c (c.modifyUac b fun u => { u with localCancel := new }) := by
  refine ⟨rfl, rfl, rfl, by simp, fun b' => ?_, fun b' => ?_, fun b' => ?_⟩
  all_goals
    rw [Cell.uac_modifyUac]
    split_ifs <;> rfl

end SameReplies

theorem sameReplies_whichCancel : Moves SameReplies whichCancel := by
  have hcmpxchg : ∀ b, Moves SameReplies (cmpxchgCancel b .null .busy) := by
    intro b
    apply Moves.modifyGet
    intro c
    split_ifs
    · exact SameReplies.modifyUac_cancel
    · exact .refl c
  have hfrom : ∀ is, Moves SameReplies (whichCancelFrom is) := by
    intro is
    induction is with
    | nil => exact .pure .refl _
    | cons i is ih =>
      refine .bind ?_ fun _ => ih.bind fun _ => .pure .refl _
      refine (Moves.read .refl _).bind fun _ => ?_
      exact Moves.ite (fun _ => hcmpxchg i) fun _ => Moves.pure .refl _
  exact (Moves.read .refl _).bind fun _ => hfrom _

section Waiting

variable {finals : Nat → BranchFinal} {n branch code : Nat} {done : Set Nat} {c' : Cell}

section

variable (h : Waiting finals n done c)

include h

/-- The branches stay as they are, and so does the rest but for the status. -/
theorem Waiting.of_uacs (huacs : c'.uacs = c.uacs) (hstatus : c'.status < 200) (hneg : c'.onNegative = c.onNegative)
    (hcb : c'.onFailureCb = c.onFailureCb) : Waiting finals n done c' := by
  have huac : ∀ b, c'.uac b = c.uac b := fun b => by rw [Cell.uac, Cell.uac, huacs]
  have hnr : c'.nrOfOutgoings = c.nrOfOutgoings := by
    rw [Cell.nrOfOutgoings, Cell.nrOfOutgoings, huacs]
  exact ⟨hstatus, hneg.trans h.onNegative, hcb.trans h.onFailureCb, hnr.trans h.nrOfOutgoings,
    fun b hb => huac b ▸ h.buffered b hb, fun b hb hd => huac b ▸ h.final b hb hd,
    fun b hb hd => huac b ▸ h.pending b hb hd, h.incomplete⟩

/-- The last reply of a pending branch is a provisional one. -/
theorem Waiting.setProvisional (hdone : branch ∉ done) (hcode : code < 200) :
    Waiting finals n done (c.modifyUac branch fun u => { u with lastReceived := code }) := by
  refine ⟨h.status, h.onNegative, h.onFailureCb,
    by simp [h.nrOfOutgoings], fun b hb => ?_, fun b hb hd => ?_, fun b hb hd => ?_, h.incomplete⟩
  all_goals rw [Cell.uac_modifyUac]
  · split_ifs
    all_goals exact h.buffered b hb
  · rw [if_neg (by rintro ⟨rfl, _⟩; exact hdone hd)]
    exact h.final b hb hd
  · split_ifs
    · exact hcode
    · exact h.pending b hb hd

theorem Waiting.provisional (hfinals : ∀ b, 300 ≤ (finals b).code) (hbranch : branch < n)
    (hlo : 100 ≤ code) (hhi : code < 200) :
    wp (fun _ => True) (relayReply fineRelay branch code (.msg code)) (fun _ => Waiting finals n done) c := by
  by_cases hdone : branch ∈ done
  · have hlast : 200 ≤ (c.uac branch).lastReceived := by
      rw [(h.final branch hbranch hdone).1]
      exact le_trans (by omega) (hfinals branch)
    refine wp_imp (wp_relayReply_discard (.inr hlast) (.inl hhi)) ?_
    rintro _ _ rfl
    exact h
  · have hset := h.setProvisional hdone hhi
    have hlast := h.pending branch hbranch hdone
    have hd : wp (fun _ => True) (tShouldRelayResponse fineRelay branch code (.msg code))
        (fun d c' => d = ⟨.provisional, false, if code = 100 then none else some branch, []⟩ ∧
          Waiting finals n done c') c := by
      simp only [tShouldRelayResponse, wp_bind, wp_read, id_eq]
      rw [if_neg (by have := h.status; omega), if_neg (fun h => absurd h.1 (by omega)),
        if_neg (by omega), if_neg (by omega), if_pos hlo]
      exact ⟨rfl, hset⟩
    rw [relayReply, wp_bind, wp_emit, wp_bind]
    refine ⟨trivial, wp_imp hd ?_⟩
    rintro d c1 ⟨rfl, h1⟩
    rw [wp_bind, if_neg (by simp), wp_pure, if_neg (by simp)]
    rcases eq_or_ne code 100 with h100 | h100
    · simp only [if_pos h100]
      exact ⟨trivial, trivial, h1⟩
    · have hrelayed : relayedCode c1 branch branch code (.msg code) = code := by
        simp [relayedCode, show code ≠ 503 by omega]
      simp only [if_neg h100]
      rw [wp_bind, wp_read, hrelayed, if_neg (by simp [fineRelay])]
      simp only [wp_bind, wp_update, unlockReplies, wp_emit, true_and, wp_pure]
      exact h1.of_uacs rfl hhi rfl rfl

/-- The final reply of a branch is there. -/
theorem Waiting.arrive (hbranch : branch < n)
    (hmore : ∃ b < n, b ∉ insert branch done)
    (hs : SameReplies (c.modifyUac branch fun u => { u with lastReceived := (finals branch).code }) c') :
    Waiting finals n (insert branch done)
      (c'.modifyUac branch fun u => { u with reply := some (finals branch).reply }) := by
  have hnr : c'.nrOfOutgoings = n := by rw [hs.nrOfOutgoings, c.nrOfOutgoings_modifyUac, h.nrOfOutgoings]
  have hlt := h.nrOfOutgoings.symm ▸ hbranch
  have hother : ∀ b, b ≠ branch → (c'.uac b).lastReceived = (c.uac b).lastReceived ∧
      (c'.uac b).reply = (c.uac b).reply := by
    intro b hb
    rw [hs.lastReceived, hs.reply, Cell.uac_modifyUac, if_neg fun h => hb h.1.symm]
    exact ⟨rfl, rfl⟩
  refine ⟨hs.status.trans_lt h.status, hs.onNegative.trans h.onNegative,
    hs.onFailureCb.trans h.onFailureCb, by simpa using hnr, fun b hb => ?_, fun b hb hd => ?_,
    fun b hb hd => ?_, hmore⟩
  all_goals rw [Cell.uac_modifyUac]
  · have hbuf : (c'.uac b).hasBuffer = true := by
      rw [hs.hasBuffer, Cell.uac_modifyUac]
      split_ifs
      all_goals exact h.buffered b hb
    split_ifs
    · exact hbuf
    · exact hbuf
  · rcases eq_or_ne b branch with rfl | hne
    · rw [if_pos ⟨rfl, hnr.symm ▸ hbranch⟩]
      refine ⟨?_, rfl⟩
      show (c'.uac b).lastReceived = _
      rw [hs.lastReceived, Cell.uac_modifyUac, if_pos ⟨rfl, hlt⟩]
    · rw [if_neg fun h => hne h.1.symm, (hother b hne).1, (hother b hne).2]
      exact h.final b hb (hd.resolve_left hne)
  · have hne : b ≠ branch := fun hb => hd (hb ▸ .inl rfl)
    rw [if_neg fun h => hne h.1.symm, (hother b hne).1]
    exact h.pending b hb fun hb => hd (.inr hb)

/-- A final reply, up to the last one, is stored. -/
theorem Waiting.store (hfinals : ∀ b, 300 ≤ (finals b).code)
    (hbranch : branch < n) (hdone : branch ∉ done) (hmore : ∃ b < n, b ∉ insert branch done) :
    wp (fun _ => True) (relayReply fineRelay branch (finals branch).code (finals branch).reply)
      (fun _ => Waiting finals n (insert branch done)) c := by
  have hlast := h.pending branch hbranch hdone
  have hstatus := h.status
  set c1 := c.modifyUac branch fun u => { u with lastReceived := (finals branch).code } with hc1
  have hpick : tPickBranch (some branch) (finals branch).code c1 = .openBranches := by
    have hlen : c1.uacs.length = n := by rw [← h.nrOfOutgoings]; exact c.nrOfOutgoings_modifyUac _ _
    refine tPickBranchFrom_open (fun u hu => ?_) ?_
    · obtain ⟨i, hi, rfl⟩ := getElem_of_mem hu
      rw [← Cell.uac_eq_getElem hi, hc1, Cell.uac_modifyUac]
      split_ifs
      all_goals exact h.buffered i (hlen ▸ hi)
    · obtain ⟨b, hb, hd⟩ := hmore
      have hne : b ≠ branch := fun hb => hd (hb ▸ .inl rfl)
      refine ⟨b, hlen.symm ▸ hb, by simpa using hne, ?_⟩
      rw [← Cell.uac_eq_getElem (hlen.symm ▸ hb), hc1, Cell.uac_modifyUac, if_neg fun h => hne h.1.symm]
      exact h.pending b hb fun hb => hd (.inr hb)
  have hd : wp (fun _ => True) (tShouldRelayResponse fineRelay branch (finals branch).code (finals branch).reply)
      (fun d c' => d.store = true ∧ d.relay = none ∧ SameReplies c1 c') c := by
    simp only [tShouldRelayResponse, wp_bind, wp_read, id_eq]
    rw [if_neg (by omega), if_neg (fun h => absurd h.1 (by omega)), if_pos (hfinals branch)]
    rw [negativeReply, wp_bind, wp_update, wp_bind, wp_read, id_eq, ← hc1, hpick, wp_bind,
      cancelOn6xx, wp_bind, wp_read]
    refine wp_ite (fun _ => ?_) fun _ => ⟨rfl, rfl, SameReplies.refl c1⟩
    rw [wp_bind]
    refine wp_imp (sameReplies_whichCancel c1) fun bm c2 h2 => ⟨rfl, rfl, ?_⟩
    exact ⟨h2.status, h2.onNegative, h2.onFailureCb, h2.nrOfOutgoings, h2.hasBuffer, h2.lastReceived, h2.reply⟩
  rw [relayReply, wp_bind, wp_emit, wp_bind]
  refine ⟨trivial, wp_imp hd ?_⟩
  rintro d c2 ⟨hstore, hrelay, h2⟩
  rw [wp_bind, if_pos hstore, storeReply, wp_bind, wp_update, wp_pure, if_neg (by simp [fineRelay]), hrelay]
  have hok : (decide ((finals branch).reply = .faked) || fineRelay.store) = true := by simp [fineRelay]
  simp only [hok, if_true]
  exact ⟨trivial, trivial, h.arrive hbranch hmore h2⟩

end

/-- The code that is relayed from a branch, whose reply is the one that just arrived or stored. -/
theorem relayedCode_eq {relay} (hstored : relay ≠ branch →
      (c.uac relay).lastReceived = (finals relay).code ∧ (c.uac relay).reply = some (finals relay).reply) :
    relayedCode c relay branch (finals branch).code (finals branch).reply = (finals relay).relayed := by
  rw [relayedCode]
  rcases eq_or_ne relay branch with rfl | hne
  · simp only [if_true, BranchFinal.reply, BranchFinal.relayed]
    cases (finals relay).faked with
    | true | false => simp
  · obtain ⟨hlast, hreply⟩ := hstored hne
    simp only [if_neg hne.symm, hlast, hreply, Option.getD_some, BranchFinal.reply, BranchFinal.relayed]
    cases (finals relay).faked with
    | true | false => simp

/-- The last final reply: the best one is relayed. -/
theorem Waiting.complete (h : Waiting finals n done c)
    (hfinals : ∀ b, 300 ≤ (finals b).code ∧ (finals b).code ≤ 999) (hbranch : branch < n)
    (hdone : branch ∉ done) (hall : ∀ b < n, b ∈ insert branch done) :
    wp (fun _ => True) (relayReply fineRelay branch (finals branch).code (finals branch).reply)
      (fun _ c' => ∃ b, Relayed finals n b c') c := by
  have hlast := h.pending branch hbranch hdone
  have hstatus := h.status
  set c1 := c.modifyUac branch fun u => { u with lastReceived := (finals branch).code } with hc1
  have hlen : c1.uacs.length = n := by rw [← h.nrOfOutgoings]; exact c.nrOfOutgoings_modifyUac _ _
  have huac : ∀ b, b ≠ branch → c1.uac b = c.uac b := by
    intro b hb
    rw [hc1, Cell.uac_modifyUac, if_neg fun h => hb h.1.symm]
  have hus : AllFinal (fun b => (finals b).code) branch 0 c1.uacs := by
    intro i hi hne
    rw [zero_add] at hne ⊢
    have hin : i < n := hlen ▸ hi
    have hfinal := h.final i hin ((hall i hin).resolve_left hne)
    rw [← Cell.uac_eq_getElem hi, huac i hne]
    exact ⟨h.buffered i hin, hfinal.1, by simp [hfinal.2]⟩
  obtain ⟨b, hpick, hbest⟩ :=
    tPickBranchFrom_all (fun b => ⟨le_trans (by omega) (hfinals b).1,
      (hfinals b).2⟩) hus .start (by omega)
  rw [zero_add, hlen] at hbest
  set c2 := { c1.modifyUac branch (fun u => { u with reply := some (finals branch).reply }) with
    t6xx := false } with hc2
  set c3 := c2.modifyUac branch (fun u => { u with reply := none }) with hc3
  have hd : wp (fun _ => True) (tShouldRelayResponse fineRelay branch (finals branch).code (finals branch).reply)
      (fun d c' => d = ⟨.completed, false, some b, []⟩ ∧ c' = c3) c := by
    simp only [tShouldRelayResponse, wp_bind, wp_read, id_eq]
    rw [if_neg (by omega), if_neg (fun h => absurd h.1 (by omega)), if_pos (hfinals branch).1]
    rw [negativeReply, wp_bind, wp_update, wp_bind, wp_read, id_eq, ← hc1, tPickBranch, hpick,
      wp_bind, wp_update, ← hc2, wp_bind, wp_read]
    have hhandlers : (c2.onFailureCb || c2.onNegative) = false := by
      rw [show c2.onFailureCb = false from h.onFailureCb, show c2.onNegative = false from h.onNegative]
      rfl
    rw [hhandlers, wp_bind, if_neg (by decide), wp_pure, wp_bind, wp_when, if_neg (by decide), wp_bind,
      wp_update, ← hc3, afterHandlers, wp_bind, wp_read, id_eq]
    have hnr : c3.nrOfOutgoings = c1.nrOfOutgoings := by
      rw [hc3, Cell.nrOfOutgoings_modifyUac]
      exact Cell.nrOfOutgoings_modifyUac _ _ _
    rw [if_neg (show ¬ 200 ≤ c3.status from not_le.2 h.status), if_neg (by omega)]
    exact ⟨rfl, rfl⟩
  have hrelayed : relayedCode c3 b branch (finals branch).code (finals branch).reply = (finals b).relayed := by
    refine relayedCode_eq fun hne => ?_
    have huac3 : c3.uac b = c.uac b := by
      rw [hc3, Cell.uac_modifyUac, if_neg fun h => hne h.1.symm, ← huac b hne]
      exact (Cell.uac_modifyUac _ _ _ _).trans (if_neg fun h => hne h.1.symm)
    rw [huac3]
    exact h.final b hbest.1 ((hall b hbest.1).resolve_left hne)
  rw [relayReply, wp_bind, wp_emit, wp_bind]
  refine ⟨trivial, wp_imp hd ?_⟩
  rintro d c' ⟨rfl, rfl⟩
  rw [wp_bind, if_neg (by simp), wp_pure, if_neg (by simp), wp_bind, wp_read, hrelayed, if_neg (by simp [fineRelay])]
  simp only [wp_bind, wp_update, unlockReplies, wp_emit, true_and, wp_pure]
  exact ⟨b, hbest, rfl, rfl, by simp [lastSent, Cell.send]⟩

end Waiting

/-! ## Runs -/

/-- The reply is on one of `n` branches. -/
def Arrival.Valid (n : Nat) : Arrival → Prop
  | .provisional branch code => branch < n ∧ 100 ≤ code ∧ code < 200
  | .final branch => branch < n

/-- The branches whose final replies have arrived, after one more reply. -/
def Arrival.mark (done : Set Nat) : Arrival → Set Nat
  | .provisional _ _ => done
  | .final branch => insert branch done

/-- The replies of the branches in `done` have arrived, and if these are all, the best was relayed. -/
inductive Progress (finals : Nat → BranchFinal) (n : Nat) (done : Set Nat) (c : Cell) : Prop
  | waiting (h : Waiting finals n done c)
  | relayed (hall : ∀ b < n, b ∈ done) (b : Nat) (h : Relayed finals n b c)

theorem Arrival.subset_mark : done ⊆ a.mark done := by
  cases a with
  | provisional branch code => exact subset_rfl
  | final branch => exact Set.subset_insert branch done

section Run

variable {finals : Nat → BranchFinal} {n : Nat} {done : Set Nat} {as : List Arrival}

theorem BranchFinal.relayed_final {f : BranchFinal} (h : 300 ≤ f.code) : 200 ≤ f.relayed := by
  rw [relayed]
  split_ifs <;> omega

theorem BranchFinal.fits (f : BranchFinal) : f.reply.Fits f.code := by
  cases hfaked : f.faked with
  | false => exact .inr (by simp [reply, hfaked])
  | true => exact .inl (by simp [reply, hfaked])

theorem turns_deliver : Alternates true (a.deliver finals) false false := by
  have henv : fineRelay.Safe true :=
    ⟨fun _ h => absurd h (by simp [fineRelay]), fun _ => rfl, fun _ => ⟨rfl, rfl, rfl⟩⟩
  cases a with
  | provisional branch code =>
    exact Turns.lock.bind fun _ => (turns_relayReply henv (.inr rfl)).bind fun _ => .pure
  | final branch =>
    exact Turns.lock.bind fun _ => (turns_relayReply henv (finals branch).fits).bind fun _ => .pure

section

variable (h : Progress finals n done c) (hfinals : ∀ b, 300 ≤ (finals b).code ∧ (finals b).code ≤ 999)

include h hfinals

theorem Progress.wp_deliver {a : Arrival} (ha : a.Valid n) :
    wp (fun _ => True) (a.deliver finals) (fun _ => Progress finals n (a.mark done)) c := by
  cases h with
  | relayed hall b h =>
    have hstatus := h.status ▸ BranchFinal.relayed_final (hfinals b).1
    have hkeep : Progress finals n (a.mark done) c := .relayed (fun b' hb' => a.subset_mark (hall b' hb')) b h
    cases a with
    | provisional branch code =>
      rw [Arrival.deliver, wp_bind, lockReplies, wp_emit, wp_bind]
      refine ⟨trivial, wp_imp (wp_relayReply_discard (.inl hstatus) (.inl ha.2.2)) ?_⟩
      rintro _ _ rfl
      exact hkeep
    | final branch =>
      rw [Arrival.deliver, wp_bind, lockReplies, wp_emit, wp_bind]
      refine ⟨trivial, wp_imp (wp_relayReply_discard (.inl hstatus) (.inr (hfinals branch).1)) ?_⟩
      rintro _ _ rfl
      exact hkeep
  | waiting h =>
    cases a with
    | provisional branch code =>
      rw [Arrival.deliver, wp_bind, lockReplies, wp_emit, wp_bind]
      refine ⟨trivial, wp_imp (h.provisional (fun b => (hfinals b).1) ha.1 ha.2.1 ha.2.2) ?_⟩
      exact fun _ _ h => .waiting h
    | final branch =>
      rw [Arrival.deliver, wp_bind, lockReplies, wp_emit, wp_bind, Arrival.mark]
      refine ⟨trivial, ?_⟩
      by_cases hdone : branch ∈ done
      · -- a retransmission
        have hlast : 200 ≤ (c.uac branch).lastReceived := by
          rw [(h.final branch ha hdone).1]
          exact le_trans (by omega) (hfinals branch).1
        refine wp_imp (wp_relayReply_discard (.inr hlast) (.inr (hfinals branch).1)) ?_
        rintro _ _ rfl
        rw [Set.insert_eq_of_mem hdone]
        exact .waiting h
      · by_cases hmore : ∃ b < n, b ∉ insert branch done
        · exact wp_imp (h.store (fun b => (hfinals b).1) ha hdone hmore) fun _ _ h => .waiting h
        · push Not at hmore
          exact wp_imp (h.complete hfinals ha hdone hmore) fun _ _ ⟨b, h⟩ => .relayed hmore b h

theorem Progress.runArrivals (has : ∀ a ∈ as, a.Valid n) :
    ∃ c', runArrivals finals as c = some c' ∧ Progress finals n (as.foldl Arrival.mark done) c' := by
  induction as generalizing done c with
  | nil => exact ⟨c, rfl, h⟩
  | cons a as ih =>
    have hwp := h.wp_deliver hfinals (has a (.head _))
    obtain ⟨_, c', hexec, h'⟩ := turns_deliver.exec_of_wp (g := none) (fun hb => absurd hb (by decide)) trivial hwp
    obtain ⟨c'', hrun, h''⟩ := ih h' fun a' ha' => has a' (.tail _ ha')
    refine ⟨c'', ?_, h''⟩
    rw [Tm.runArrivals, hexec]
    exact hrun

end

theorem mem_foldl_mark {b} (h : .final b ∈ as ∨ b ∈ done) : b ∈ as.foldl Arrival.mark done := by
  induction as generalizing done with
  | nil => exact h.resolve_left (by simp)
  | cons a as ih =>
    refine ih ?_
    rcases h with h | h
    · rcases mem_cons.1 h with rfl | h
      · exact .inr (Set.mem_insert b done)
      · exact .inl h
    · exact .inr (a.subset_mark h)

end Run

/-- A request that was forked to `n` branches, none of which has a final reply or is blind, without
failure handlers. -/
structure Forked (n : Nat) (c : Cell) : Prop where
  branches : 0 < n ∧ c.nrOfOutgoings = n
  buffered : ∀ b < n, (c.uac b).hasBuffer = true
  pending : ∀ b < n, (c.uac b).lastReceived < 200
  status : c.status < 200
  noHandlers : c.onNegative = false ∧ c.onFailureCb = false

/-- Replies on `n` branches, with the final reply of each at least once. -/
structure Delivers (n : Nat) (as : List Arrival) : Prop where
  valid : ∀ a ∈ as, a.Valid n
  finals : ∀ b < n, .final b ∈ as

theorem Forked.waiting {n} (h : Forked n c) (finals) : Waiting finals n ∅ c :=
  ⟨h.status, h.noHandlers.1, h.noHandlers.2, h.branches.2, h.buffered, fun _ _ h => absurd h (by simp),
    fun b hb _ => h.pending b hb, ⟨0, h.branches.1, by simp⟩⟩

/-- What is relayed does not depend on the order in which the replies arrive: it is the reply of
the first branch with the lowest priority value. -/
theorem forking_outcome_independent_of_order {n : Nat} {c : Cell} (hc : Forked n c)
    (finals : Nat → BranchFinal) (hfinals : ∀ b, 300 ≤ (finals b).code ∧ (finals b).code ≤ 999)
    {as as' : List Arrival} (has : Delivers n as) (has' : Delivers n as') :
    ∃ b c₁ c₂, IsBest (fun b => (finals b).code) n b ∧
      runArrivals finals as c = some c₁ ∧ runArrivals finals as' c = some c₂ ∧
      c₁.relayedReplyBranch = b ∧ lastSent c₁.log = some (finals b).relayed ∧
      c₂.relayedReplyBranch = b ∧ lastSent c₂.log = some (finals b).relayed := by
  have hrun : ∀ as, Delivers n as → ∃ b c', runArrivals finals as c = some c' ∧
      Relayed finals n b c' := by
    intro as has
    have hstart : Progress finals n ∅ c := .waiting (hc.waiting finals)
    obtain ⟨c', hrun, hprogress⟩ := hstart.runArrivals hfinals has.valid
    cases hprogress with
    | relayed _ b h => exact ⟨b, c', hrun, h⟩
    | waiting h =>
      obtain ⟨b, hb, hdone⟩ := h.incomplete
      exact absurd (mem_foldl_mark (.inl (has.finals b hb))) hdone
  obtain ⟨b, c₁, hrun₁, h₁⟩ := hrun as has
  obtain ⟨b', c₂, hrun₂, h₂⟩ := hrun as' has'
  obtain rfl := h₁.best.unique h₂.best
  exact ⟨b, c₁, c₂, h₁.best, hrun₁, hrun₂, h₁.branch, h₁.sent, h₂.branch, h₂.sent⟩

/-- A 486 on the first branch, and a timeout of the second. -/
def busyAndTimeout : Nat → BranchFinal := fun b => if b = 0 then ⟨486, false⟩ else ⟨408, true⟩

/-- A call with branches of these kinds. -/
def call (kinds : List BranchKind) : Cell := addUacs (newCell true false false false) kinds

theorem forking_outcome_busyAndTimeout :
    ∃ b c₁ c₂, IsBest (fun b => (busyAndTimeout b).code) 2 b ∧
      runArrivals busyAndTimeout [.provisional 0 180, .final 0, .final 0, .final 1]
        (call [.sent, .sent]) = some c₁ ∧
      runArrivals busyAndTimeout [.final 1, .provisional 0 180, .final 0] (call [.sent, .sent]) = some c₂ ∧
      c₁.relayedReplyBranch = b ∧ lastSent c₁.log = some (busyAndTimeout b).relayed ∧
      c₂.relayedReplyBranch = b ∧ lastSent c₂.log = some (busyAndTimeout b).relayed := by
  have hcode : ∀ b, 300 ≤ (busyAndTimeout b).code ∧ (busyAndTimeout b).code ≤ 999 := by
    intro b
    rw [busyAndTimeout]
    split_ifs <;> decide
  refine forking_outcome_independent_of_order ⟨by decide, by decide, by decide, by decide, by decide⟩
    busyAndTimeout hcode ⟨?_, by decide⟩ ⟨?_, by decide⟩
  all_goals simp [Arrival.Valid]

/-- A blind branch does not take part: its reply is the better one and is not relayed. With two
blind branches the first reply to arrive is relayed. -/
theorem blind_branch_skipped :
    getPrio (busyAndTimeout 1).code < getPrio (busyAndTimeout 0).code ∧
    (runArrivals busyAndTimeout [.final 1, .final 0] (call [.sent, .blind])).map
      (fun c => (c.relayedReplyBranch, lastSent c.log)) = some (0, some 486) ∧
    (runArrivals busyAndTimeout [.final 0, .final 1] (call [.blind, .blind])).map
      (fun c => (c.relayedReplyBranch, lastSent c.log)) = some (0, some 486) ∧
    (runArrivals busyAndTimeout [.final 1, .final 0] (call [.blind, .blind])).map
      (fun c => (c.relayedReplyBranch, lastSent c.log)) = some (1, some 408) := by
  decide

end SipRouter.Tm
