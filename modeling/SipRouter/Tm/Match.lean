import SipRouter.Tm.Lookup

/-!
# What a request matches

`matching_3261` takes the first transaction of the bucket that the request is
matched with; what this means for a single transaction is said here without the
loop. Up to there it notes the CANCELs that it meets. So the order of the bucket
decides which of several transactions is taken and whether a CANCEL was met, but
not whether there is a match.
-/

namespace SipRouter.Tm

open List

/-! ## What a transaction is to a request -/

/-- The Via of the stored request has the transaction id that the branch of `via1` ends with, and
names the same sender. -/
def SameTid (tMsg : SipMsg) (via1 : ViaBody) : Prop :=
  ∃ via, tMsg.via1 = some via ∧ via.tid = (via1.branch.getD []).drop mcookie.length ∧
    via.host = via1.host ∧ via.port = via1.port ∧ via.transport = via1.transport

/-- The requests are of one dialog, leaving out the tag of the To. -/
def SameDialog (tMsg pMsg : SipMsg) : Prop :=
  tMsg.callid = pMsg.callid ∧ tMsg.cseqNumber = pMsg.cseqNumber ∧
    tMsg.fromTag.isSome ∧ tMsg.fromTag = pMsg.fromTag

/-- The transaction of a request with this method and transaction id. -/
def HasRequest (method : Method) (via1 : ViaBody) (t : Trans) : Prop :=
  ∃ tMsg, t.request = some tMsg ∧ tMsg.method = method ∧ SameTid tMsg via1

/-- The transaction of an INVITE that an ACK in the same dialog may be for, answered with no more
than a 2xx. -/
def SuccessfulInvite (pMsg : SipMsg) (t : Trans) : Prop :=
  (∃ tMsg, t.request = some tMsg ∧ tMsg.method = .invite ∧ SameDialog tMsg pMsg) ∧ t.status < 300

/-- An ACK for the negative reply to an INVITE. -/
def NegativeAck (via1 : ViaBody) (t : Trans) : Prop := HasRequest .invite via1 t ∧ 300 ≤ t.status

/-- An ACK for a 2xx that was sent locally. -/
def LocalAck (pMsg : SipMsg) (t : Trans) : Prop :=
  SuccessfulInvite pMsg t ∧ t.relayedReplyBranch = -2 ∧ pMsg.toTag = t.localTotag

/-- An ACK for a 2xx that was relayed. -/
def ProxiedAck (pMsg : SipMsg) (t : Trans) : Prop :=
  SuccessfulInvite pMsg t ∧ t.relayedReplyBranch ≠ -2 ∧ t.e2eAckCallbacks = true ∧
    pMsg.toTag ∈ t.fwdedTotags

/-- The request is matched with the transaction: it is found, or is that of an end-to-end ACK. -/
def Matches (pMsg : SipMsg) (via1 : ViaBody) (t : Trans) : Lookup → Prop
  | .found t' => t' = t ∧
      (if pMsg.method = .ack then NegativeAck via1 t ∨ LocalAck pMsg t
        else HasRequest pMsg.method via1 t)
  | .e2eAck t' => t' = t ∧ pMsg.method = .ack ∧ ProxiedAck pMsg t
  | .notFound => False
  | .error => False

variable {via1 : ViaBody} {pMsg tMsg : SipMsg} {r : Lookup} {cancel : Bool} {method : Method}

theorem Matches.unique {t r'} (h : Matches pMsg via1 t r) (h' : Matches pMsg via1 t r') : r = r' := by
  -- an ACK that is found is for another status, or another kind of transaction, than an e2e one
  have hdisjoint : pMsg.method = .ack → NegativeAck via1 t ∨ LocalAck pMsg t → ¬ ProxiedAck pMsg t := by
    rintro _ (hneg | hlocal) hproxied
    · exact absurd hproxied.1.2 (not_lt.2 hneg.2)
    · exact hproxied.2.1 hlocal.2.1
  cases r with
  | found t1 =>
    cases r' with
    | found t2 => rw [h.1, h'.1]
    | e2eAck t2 => exact absurd h'.2.2 (hdisjoint h'.2.1 (by simpa [h'.2.1] using h.2))
    | notFound | error => exact h'.elim
  | e2eAck t1 =>
    cases r' with
    | found t2 => exact absurd h.2.2 (hdisjoint h.2.1 (by simpa [h.2.1] using h'.2))
    | e2eAck t2 => rw [h.1, h'.1]
    | notFound | error => exact h'.elim
  | notFound | error => exact h.elim

/-! ## One transaction -/

theorem skips_skipMethod_ack : skips (skipMethod .ack) method = decide (method ≠ .invite) := by
  cases method <;> decide

theorem skips_skipMethod {pMethod} (h : pMethod ≠ .ack) :
    skips (skipMethod pMethod) method = decide (method ≠ pMethod) := by
  revert h
  cases pMethod <;> cases method <;> decide

theorem viaMatching_iff : tMsg.via1.any (viaMatching · via1.withTid) = true ↔ SameTid tMsg via1 := by
  simp only [Option.any_eq_true, viaMatching, Bool.and_eq_true, decide_eq_true_eq, and_assoc]
  rfl

theorem partialDlgMatching_iff : partialDlgMatching tMsg pMsg = true ↔ SameDialog tMsg pMsg := by
  rw [partialDlgMatching, SameDialog]
  cases tMsg.fromTag with
  | none => simp
  | some tag => simp [and_assoc]

/-- The loop meets a CANCEL for the request. -/
def meetsCancel (pMsg : SipMsg) (via1 : ViaBody) (t : Trans) : Bool :=
  pMsg.method ≠ .ack && pMsg.method ≠ .cancel && t.request.any fun tMsg =>
    tMsg.method = .cancel && tMsg.via1.any (viaMatching · via1.withTid)

section Step

variable {t : Trans} {ts : List Trans}

/-- What the request is matched with is decided by the stored request. -/
theorem not_matches_of_none (h : t.request = none) (r) : ¬ Matches pMsg via1 t r := by
  have hno : ∀ tMsg, t.request ≠ some tMsg := fun tMsg => by simp [h]
  have hreq : ∀ method, ¬ HasRequest method via1 t := fun _ ⟨tMsg, ht, _⟩ => hno tMsg ht
  have hinv : ¬ SuccessfulInvite pMsg t := fun ⟨⟨tMsg, ht, _⟩, _⟩ => hno tMsg ht
  cases r with
  | found t' =>
    rintro ⟨_, h⟩
    split_ifs at h
    · exact h.elim (fun h => hreq _ h.1) fun h => hinv h.1
    · exact hreq _ h
  | e2eAck t' => exact fun h => hinv h.2.2.1
  | notFound | error => exact id

theorem hasRequest_iff (h : t.request = some tMsg) {method} :
    HasRequest method via1 t ↔ tMsg.method = method ∧ SameTid tMsg via1 := by
  simp [HasRequest, h]

theorem successfulInvite_iff (h : t.request = some tMsg) :
    SuccessfulInvite pMsg t ↔ (tMsg.method = .invite ∧ SameDialog tMsg pMsg) ∧ t.status < 300 := by
  simp [SuccessfulInvite, h]

theorem meetsCancel_iff :
    meetsCancel pMsg via1 t = true ↔ pMsg.method ≠ .ack ∧ pMsg.method ≠ .cancel ∧
      HasRequest .cancel via1 t := by
  cases h : t.request with
  | none => simp [meetsCancel, HasRequest, h]
  | some tMsg =>
    rw [hasRequest_iff h, ← viaMatching_iff]
    simp [meetsCancel, h, and_assoc]

/-- The request is not matched with the transaction. -/
def NoMatch (pMsg : SipMsg) (via1 : ViaBody) (t : Trans) : Prop := ∀ r, ¬ Matches pMsg via1 t r

theorem noMatch_ack (hack : pMsg.method = .ack) (hneg : ¬ NegativeAck via1 t)
    (hlocal : ¬ LocalAck pMsg t) (hproxied : ¬ ProxiedAck pMsg t) : NoMatch pMsg via1 t := by
  intro r
  cases r with
  | found t' =>
    rintro ⟨_, h⟩
    rw [if_pos hack] at h
    exact h.elim hneg hlocal
  | e2eAck t' => exact fun h => hproxied h.2.2
  | notFound | error => exact id

theorem noMatch_request (hack : pMsg.method ≠ .ack) (h : ¬ HasRequest pMsg.method via1 t) : NoMatch pMsg via1 t := by
  intro r
  cases r with
  | found t' =>
    rintro ⟨_, h'⟩
    rw [if_neg hack] at h'
    exact h h'
  | e2eAck t' => exact fun h' => hack h'.2.1
  | notFound | error => exact id

/-- The loop goes on from a transaction, or ends with it. -/
inductive Looks (pMsg : SipMsg) (via1 : ViaBody) (cancel : Bool) (t : Trans) (ts : List Trans)
    (res : MatchStatus × Bool) : Prop
  | ends (h : Matches pMsg via1 t res.1.lookup) (hcancel : res.2 = cancel)
  | goesOn (h : NoMatch pMsg via1 t)
      (hres : res = matching3261From pMsg via1.withTid (skipMethod pMsg.method) none
        (cancel || meetsCancel pMsg via1 t) ts)

/-- `ack_matching`, where `matching_3261` calls it; then there is no partial match. -/
theorem ackMatching_spec (h : t.request = some tMsg) (hinv : tMsg.method = .invite)
    (hstatus : t.status < 300) (hdlg : t.e2eAckCallbacks = true ∨ t.relayedReplyBranch = -2) :
    match ackMatching t tMsg pMsg with
    | .localTrans => LocalAck pMsg t
    | .proxied => ProxiedAck pMsg t
    | .partialMatch => False
    | .nothing => ¬ LocalAck pMsg t ∧ ¬ ProxiedAck pMsg t := by
  have hsucc : SuccessfulInvite pMsg t ↔ SameDialog tMsg pMsg := by
    rw [successfulInvite_iff h]
    exact ⟨fun h => h.1.2, fun h => ⟨⟨hinv, h⟩, hstatus⟩⟩
  rw [ackMatching]
  by_cases hd : SameDialog tMsg pMsg
  · rw [if_neg (not_not.2 (partialDlgMatching_iff.2 hd))]
    rcases eq_or_ne t.relayedReplyBranch (-2) with hlocal | hproxy
    · rw [if_neg (not_not.2 hlocal)]
      by_cases htag : pMsg.toTag = t.localTotag
      · rw [if_pos (by simpa [dlgMatching] using htag)]
        exact ⟨hsucc.2 hd, hlocal, htag⟩
      · rw [if_neg (by simpa [dlgMatching] using htag)]
        exact ⟨fun h => htag h.2.2, fun h => h.2.1 hlocal⟩
    · have hcb := hdlg.resolve_right hproxy
      rw [if_pos hproxy, if_pos hcb]
      by_cases htag : pMsg.toTag ∈ t.fwdedTotags
      · rw [if_pos (by simpa [totagE2eAckMatching] using htag)]
        exact ⟨hsucc.2 hd, hproxy, hcb, htag⟩
      · rw [if_neg (by simpa [totagE2eAckMatching] using htag)]
        exact ⟨fun h => hproxy h.2.1, fun h => htag h.2.2.2⟩
  · rw [if_pos fun h => hd (partialDlgMatching_iff.1 h)]
    exact ⟨fun h => hd (hsucc.1 h.1), fun h => hd (hsucc.1 h.1)⟩

/-- An ACK whose dialog can be parsed. -/
theorem looks_ack (hack : pMsg.method = .ack) (hparse : parseDlg pMsg = true) (h : t.request = some tMsg) :
    Looks pMsg via1 cancel t ts (matching3261From pMsg via1.withTid
      (skipMethod pMsg.method) none cancel (t :: ts)) := by
  have hgo : NoMatch pMsg via1 t → Looks pMsg via1 cancel t ts
      (matching3261From pMsg via1.withTid (skipMethod .ack) none cancel ts) := by
    refine fun hno => .goesOn hno ?_
    rw [show meetsCancel pMsg via1 t = false by simp [meetsCancel, hack], Bool.or_false, hack]
  have hsucc : SuccessfulInvite pMsg t ↔ _ := successfulInvite_iff h
  have hreq : HasRequest .invite via1 t ↔ _ := hasRequest_iff h
  rw [matching3261From, h]
  simp only [hack, skips_skipMethod_ack, true_or, true_and, decide_eq_true_eq, ne_eq]
  by_cases hinv : tMsg.method = .invite
  · rw [if_neg (not_not.2 hinv)]
    by_cases hstatus : t.status < 300
    · have hneg : ¬ NegativeAck via1 t := fun h => absurd hstatus (not_lt.2 h.2)
      rw [if_pos hstatus]
      split_ifs with hdlg
      · have hspec : match ackMatching t tMsg pMsg with
            | .localTrans => LocalAck pMsg t
            | .proxied => ProxiedAck pMsg t
            | .partialMatch => False
            | .nothing => ¬ LocalAck pMsg t ∧ ¬ ProxiedAck pMsg t :=
          ackMatching_spec h hinv hstatus hdlg
        revert hspec
        cases ackMatching t tMsg pMsg with
        | localTrans => exact fun hlocal => .ends ⟨rfl, by rw [if_pos hack]; exact .inr hlocal⟩ rfl
        | proxied => exact fun hproxied => .ends ⟨rfl, hack, hproxied⟩ rfl
        | partialMatch => exact fun hno => hno.elim
        | nothing => exact fun hno => hgo (noMatch_ack hack hneg hno.1 hno.2)
      · refine hgo (noMatch_ack hack hneg (fun h => hdlg (.inr h.2.1)) fun h => hdlg (.inl h.2.2.1))
    · have hno : ¬ SuccessfulInvite pMsg t := fun h => hstatus h.2
      rw [if_neg hstatus]
      by_cases hvia : SameTid tMsg via1
      · rw [if_neg (not_not.2 (viaMatching_iff.2 hvia)), if_neg (fun h => absurd h.2 (not_not.2 hinv))]
        refine .ends ⟨rfl, ?_⟩ (by simp)
        rw [if_pos hack]
        exact .inl ⟨hreq.2 ⟨hinv, hvia⟩, not_lt.1 hstatus⟩
      · rw [if_pos fun h => hvia (viaMatching_iff.1 h)]
        exact hgo (noMatch_ack hack (fun h => hvia (hreq.1 h.1).2) (fun h => hno h.1) fun h => hno h.1)
  · rw [if_pos hinv]
    have hno : ¬ SuccessfulInvite pMsg t := fun h => hinv (hsucc.1 h).1.1
    exact hgo (noMatch_ack hack (fun h => hinv (hreq.1 h.1).1) (fun h => hno h.1) fun h => hno h.1)

theorem looks_request (hack : pMsg.method ≠ .ack) (h : t.request = some tMsg) : Looks pMsg via1 cancel t ts
      (matching3261From pMsg via1.withTid (skipMethod pMsg.method) none cancel (t :: ts)) := by
  have hreq : ∀ method, HasRequest method via1 t ↔ tMsg.method = method ∧ SameTid tMsg via1 :=
    fun method => hasRequest_iff h
  have hmeets : meetsCancel pMsg via1 t = true ↔ _ := meetsCancel_iff
  rw [hreq .cancel] at hmeets
  have hgo : NoMatch pMsg via1 t → meetsCancel pMsg via1 t = false → Looks pMsg via1 cancel t ts
      (matching3261From pMsg via1.withTid (skipMethod pMsg.method) none cancel ts) :=
    fun hno hm => .goesOn hno (by rw [hm, Bool.or_false])
  rw [matching3261From, h]
  simp only [hack, skips_skipMethod hack, false_or, false_and, decide_eq_true_eq, ne_eq, if_false]
  by_cases hskip : ¬ tMsg.method = .cancel ∧ ¬ tMsg.method = pMsg.method
  · rw [if_pos hskip]
    refine hgo (noMatch_request hack fun h => hskip.2 ((hreq _).1 h).1) ?_
    exact Bool.eq_false_iff.2 fun h => hskip.1 (hmeets.1 h).2.2.1
  · rw [if_neg hskip]
    by_cases hvia : SameTid tMsg via1
    · rw [if_neg (not_not.2 (viaMatching_iff.2 hvia))]
      by_cases hcancel : tMsg.method = .cancel ∧ ¬ tMsg.method = pMsg.method
      · -- a CANCEL for the request
        rw [if_pos hcancel]
        have hne : pMsg.method ≠ .cancel := fun h => hcancel.2 (hcancel.1.trans h.symm)
        have hm := hmeets.2 ⟨hack, hne, hcancel.1, hvia⟩
        refine .goesOn (noMatch_request hack fun h => hcancel.2 ((hreq _).1 h).1) ?_
        rw [hm]
        simp [hcancel.1, hne]
      · rw [if_neg hcancel]
        have heq : tMsg.method = pMsg.method := by
          by_contra hne
          exact hskip ⟨fun h => hcancel ⟨h, hne⟩, hne⟩
        refine .ends ⟨rfl, ?_⟩ ?_
        · rw [if_neg hack]
          exact (hreq _).2 ⟨heq, hvia⟩
        · simp [heq]
    · rw [if_pos fun h => hvia (viaMatching_iff.1 h)]
      refine hgo (noMatch_request hack fun h => hvia ((hreq _).1 h).2) ?_
      exact Bool.eq_false_iff.2 fun h => hvia (hmeets.1 h).2.2.2

theorem looks_cons (hparse : pMsg.method = .ack → parseDlg pMsg = true) {t} : Looks pMsg via1 cancel t ts
      (matching3261From pMsg via1.withTid (skipMethod pMsg.method) none cancel (t :: ts)) := by
  cases h : t.request with
  | none =>
    refine .goesOn (not_matches_of_none h) ?_
    rw [matching3261From, h, show meetsCancel pMsg via1 t = false by simp [meetsCancel, h], Bool.or_false]
  | some tMsg =>
    rcases eq_or_ne pMsg.method .ack with hack | hack
    · exact looks_ack hack (hparse hack) h
    · exact looks_request hack h

end Step

/-! ## The bucket -/

/-- The first match in a bucket, and the CANCELs before it. -/
structure FirstMatch (pMsg : SipMsg) (via1 : ViaBody) (bucket before : List Trans) (t : Trans)
    (r : Lookup) : Prop where
  bucket : ∃ after, bucket = before ++ t :: after
  before : ∀ t' ∈ before, NoMatch pMsg via1 t'
  matched : Matches pMsg via1 t r

/-- The result of the loop, with the CANCELs that were met before it. -/
inductive Searched (pMsg : SipMsg) (via1 : ViaBody) (cancel : Bool) (bucket : List Trans)
    (res : MatchStatus × Bool) : Prop
  | hit (before : List Trans) (t : Trans) (h : FirstMatch pMsg via1 bucket before t res.1.lookup)
      (hcancel : res.2 = (cancel || before.any (meetsCancel pMsg via1)))
  | miss (h : ∀ t ∈ bucket, NoMatch pMsg via1 t) (hres : res.1 = .nothing)
      (hcancel : res.2 = (cancel || bucket.any (meetsCancel pMsg via1)))

theorem searched_matching3261From
    (hparse : pMsg.method = .ack → parseDlg pMsg = true) (cancel : Bool) (bucket) : Searched pMsg via1 cancel bucket
      (matching3261From pMsg via1.withTid (skipMethod pMsg.method) none cancel bucket) := by
  induction bucket generalizing cancel with
  | nil => exact .miss (fun t ht => absurd ht (by simp)) rfl (by simp [matching3261From])
  | cons t ts ih =>
    cases looks_cons hparse with
    | ends h hcancel =>
      refine .hit [] t ⟨⟨ts, rfl⟩, fun t' ht' => absurd ht' (by simp), h⟩ ?_
      simpa using hcancel
    | goesOn hno hres =>
      rw [hres]
      cases ih (cancel || meetsCancel pMsg via1 t) with
      | hit before t' h hcancel =>
        obtain ⟨after, hts⟩ := h.bucket
        refine .hit (t :: before) t' ⟨⟨after, by rw [hts]; rfl⟩, ?_, h.matched⟩ ?_
        · intro t'' ht''
          rcases mem_cons.1 ht'' with rfl | ht''
          · exact hno
          · exact h.before t'' ht''
        · rw [hcancel, any_cons, Bool.or_assoc]
      | miss h hnothing hcancel =>
        refine .miss ?_ hnothing ?_
        · intro t'' ht''
          rcases mem_cons.1 ht'' with rfl | ht''
          · exact hno
          · exact h t'' ht''
        · rw [hcancel, any_cons, Bool.or_assoc]

/-! ## Looking up a request -/

/-- An ACK, hop by hop or end to end, for the INVITE of the transaction. -/
def Acknowledges (pMsg : SipMsg) (via1 : ViaBody) (t : Trans) : Prop :=
  NegativeAck via1 t ∨ LocalAck pMsg t ∨ ProxiedAck pMsg t

/-- What `t_lookup_request` returns, and sets `*cancel` to, for a request with the magic cookie. -/
structure LooksUp (pMsg : SipMsg) (via1 : ViaBody) (bucket : List Trans) (res : Lookup × Bool) :
    Prop where
  request : pMsg.method ≠ .ack →
    ((∃ t, res.1 = .found t) ↔ ∃ t ∈ bucket, HasRequest pMsg.method via1 t)
  ack : pMsg.method = .ack →
    ((∃ t, res.1 = .found t ∨ res.1 = .e2eAck t) ↔ ∃ t ∈ bucket, Acknowledges pMsg via1 t)
  /-- the transaction is one that the request is matched with -/
  matched : ∀ t, res.1 = .found t ∨ res.1 = .e2eAck t → t ∈ bucket ∧ Matches pMsg via1 t res.1
  notFound : (∀ t, res.1 ≠ .found t ∧ res.1 ≠ .e2eAck t) → res.1 = .notFound
  /-- a CANCEL comes before the transaction of the request, if that is there -/
  cancel : res.2 = true ↔ pMsg.method ≠ .ack ∧ pMsg.method ≠ .cancel ∧
    ∃ before t after, bucket = before ++ t :: after ∧ HasRequest .cancel via1 t ∧
      ∀ t' ∈ before, ¬ HasRequest pMsg.method via1 t'

section LooksUp

variable {bucket bucket' before : List Trans} {t : Trans}

theorem HasRequest.method_eq {method method'} (h : HasRequest method via1 t)
    (h' : HasRequest method' via1 t) : method = method' := by
  obtain ⟨m, hm, rfl, _⟩ := h
  obtain ⟨m', hm', rfl, _⟩ := h'
  rw [hm, Option.some.injEq] at hm'
  rw [hm']

theorem noMatch_iff_request (hack : pMsg.method ≠ .ack) : NoMatch pMsg via1 t ↔ ¬ HasRequest pMsg.method via1 t := by
  refine ⟨fun h hreq => h (.found t) ⟨rfl, ?_⟩, noMatch_request hack⟩
  rwa [if_neg hack]

theorem noMatch_iff_ack (hack : pMsg.method = .ack) : NoMatch pMsg via1 t ↔ ¬ Acknowledges pMsg via1 t := by
  constructor
  · rintro h (hneg | hlocal | hproxied)
    · exact h (.found t) ⟨rfl, by rw [if_pos hack]; exact .inl hneg⟩
    · exact h (.found t) ⟨rfl, by rw [if_pos hack]; exact .inr hlocal⟩
    · exact h (.e2eAck t) ⟨rfl, hack, hproxied⟩
  · intro h
    exact noMatch_ack hack (fun h' => h (.inl h')) (fun h' => h (.inr (.inl h'))) fun h' =>
      h (.inr (.inr h'))

theorem Matches.eq (h : Matches pMsg via1 t r) : r = .found t ∨ r = .e2eAck t := by
  cases r with
  | found t' => exact .inl (by rw [h.1])
  | e2eAck t' => exact .inr (by rw [h.1])
  | notFound | error => exact h.elim

/-- A CANCEL was met in a part of the bucket without a match, up to where the search ended. -/
theorem any_meetsCancel_iff (hack : pMsg.method ≠ .ack) (hcancel : pMsg.method ≠ .cancel)
    {after} (hbefore : ∀ t ∈ before, NoMatch pMsg via1 t)
    (hafter : after = [] ∨ ∃ t ts, after = t :: ts ∧ HasRequest pMsg.method via1 t) :
    before.any (meetsCancel pMsg via1) = true ↔
      ∃ pre t post, before ++ after = pre ++ t :: post ∧ HasRequest .cancel via1 t ∧ ∀ t' ∈ pre,
        ¬ HasRequest pMsg.method via1 t' := by
  rw [any_eq_true]
  constructor
  · rintro ⟨t, ht, hmeets⟩
    obtain ⟨pre, post, rfl⟩ := append_of_mem ht
    refine ⟨pre, t, post ++ after, by simp, (meetsCancel_iff.1 hmeets).2.2, fun t' ht' => ?_⟩
    exact (noMatch_iff_request hack).1 (hbefore t' (mem_append_left _ ht'))
  · rintro ⟨pre, t, post, hsplit, ht, hpre⟩
    refine ⟨t, ?_, meetsCancel_iff.2 ⟨hack, hcancel, ht⟩⟩
    -- the CANCEL is not past the match, which is not in `pre`
    rcases append_eq_append_iff.1 hsplit with ⟨as, hp, ha⟩ | ⟨bs, hb, ht'⟩
    · rcases hafter with rfl | ⟨u, us, rfl, hu⟩
      · exact absurd ha (by simp)
      · cases as with
        | nil =>
          obtain ⟨rfl, rfl⟩ : u = t ∧ us = post := by simpa using ha
          exact absurd (hu.method_eq ht) hcancel
        | cons a as =>
          obtain ⟨rfl, _⟩ : u = a ∧ _ := by simpa using ha
          exact absurd hu (hpre u (by rw [hp]; simp))
    · cases bs with
      | nil =>
        rcases hafter with rfl | ⟨u, us, rfl, hu⟩
        · exact absurd ht' (by simp)
        · obtain ⟨rfl, rfl⟩ : t = u ∧ post = us := by simpa using ht'
          exact absurd (hu.method_eq ht) hcancel
      | cons b bs =>
        obtain ⟨rfl, _⟩ : t = b ∧ _ := by simpa using ht'
        rw [hb]
        simp

theorem FirstMatch.mem (h : FirstMatch pMsg via1 bucket before t r) : t ∈ bucket := by
  obtain ⟨after, rfl⟩ := h.bucket
  simp

/-- The search finds what is in the bucket. -/
theorem Searched.looksUp {res} (h : Searched pMsg via1 false bucket res) :
    LooksUp pMsg via1 bucket (res.1.lookup, res.2) := by
  have hexists : (∃ t, res.1.lookup = .found t ∨ res.1.lookup = .e2eAck t) ↔ ∃ t ∈ bucket, ¬ NoMatch pMsg via1 t := by
    cases h with
    | hit before t h hcancel =>
      exact ⟨fun _ => ⟨t, h.mem, fun hno => hno _ h.matched⟩, fun _ => ⟨t, h.matched.eq⟩⟩
    | miss hno hres hcancel =>
      refine ⟨fun ⟨t, ht⟩ => ?_, fun ⟨t, ht, hm⟩ => absurd (hno t ht) hm⟩
      rw [hres] at ht
      simp [MatchStatus.lookup] at ht
  have hmatched : ∀ t, res.1.lookup = .found t ∨ res.1.lookup = .e2eAck t → t ∈ bucket ∧
      Matches pMsg via1 t res.1.lookup := by
    intro t ht
    cases h with
    | hit before t' h hcancel =>
      have heq : t' = t := by
        rcases h.matched.eq with h' | h'
        all_goals simpa [h'] using ht
      exact heq ▸ ⟨h.mem, h.matched⟩
    | miss hno hres hcancel =>
      rw [hres] at ht
      simp [MatchStatus.lookup] at ht
  refine ⟨fun hack => ?_, fun hack => ?_, hmatched, fun hno => ?_, ?_⟩
  · constructor
    · rintro ⟨t, ht⟩
      obtain ⟨hmem, hm⟩ := hmatched t (.inl ht)
      exact ⟨t, hmem, not_not.1 fun hno => (noMatch_iff_request hack).2 hno _ hm⟩
    · rintro ⟨t, hmem, hreq⟩
      obtain ⟨t', ht'⟩ := hexists.2 ⟨t, hmem, fun hno => (noMatch_iff_request hack).1 hno hreq⟩
      refine ⟨t', ht'.resolve_right fun he => ?_⟩
      have hm := (hmatched t' (.inr he)).2
      rw [he] at hm
      exact hack hm.2.1
  · rw [hexists]
    simp only [noMatch_iff_ack hack, not_not]
  · cases hr : res.1 with
    | nothing => rfl
    | found t => exact absurd (by rw [hr]; rfl) (hno t).1
    | e2eAck t => exact absurd (by rw [hr]; rfl) (hno t).2
  · by_cases hmethod : pMsg.method ≠ .ack ∧ pMsg.method ≠ .cancel
    · obtain ⟨hack, hcancel⟩ := hmethod
      simp only [ne_eq, hack, hcancel, not_false_eq_true, true_and]
      cases h with
      | hit before t h hres =>
        obtain ⟨after, rfl⟩ := h.bucket
        rw [hres, Bool.false_or]
        refine any_meetsCancel_iff hack hcancel h.before (.inr ⟨t, after, rfl, ?_⟩)
        exact not_not.1 fun hno => (noMatch_iff_request hack).2 hno _ h.matched
      | miss hno _ hres =>
        rw [hres, Bool.false_or, any_meetsCancel_iff hack hcancel hno (.inl rfl), append_nil]
    · have hany : ∀ ts : List Trans, ts.any (meetsCancel pMsg via1) = false := by
        intro ts
        rw [any_eq_false]
        exact fun t _ hm => hmethod ⟨(meetsCancel_iff.1 hm).1, (meetsCancel_iff.1 hm).2.1⟩
      have hres : res.2 = false := by
        cases h with
        | hit before t h hres | miss hno _ hres => rw [hres, hany, Bool.or_false]
      rw [hres]
      exact ⟨fun h => absurd h (by decide), fun h => absurd ⟨h.1, h.2.1⟩ hmethod⟩

/-- At most one transaction matches. -/
def AtMostOne (pMsg : SipMsg) (via1 : ViaBody) (bucket : List Trans) : Prop :=
  ∀ t ∈ bucket, ∀ t' ∈ bucket, ¬ NoMatch pMsg via1 t → ¬ NoMatch pMsg via1 t' → t = t'

theorem Searched.perm {res res'} (h : Searched pMsg via1 false bucket res) (h' : Searched pMsg via1 false bucket' res')
    (hperm : bucket'.Perm bucket) (hone : AtMostOne pMsg via1 bucket) : res'.1.lookup = res.1.lookup := by
  cases h with
  | hit before t h _ =>
    cases h' with
    | hit before' t' h' _ =>
      have ht : t' = t := hone t' (hperm.mem_iff.1 h'.mem) t h.mem (fun hno => hno _ h'.matched)
        fun hno => hno _ h.matched
      exact (ht ▸ h'.matched).unique h.matched
    | miss hno _ _ => exact absurd h.matched (hno t (hperm.mem_iff.2 h.mem) _)
  | miss hno hres _ =>
    cases h' with
    | hit before' t' h' _ => exact absurd h'.matched (hno t' (hperm.mem_iff.1 h'.mem) _)
    | miss _ hres' _ => rw [hres, hres']

theorem Searched.perm_miss {res res'} (h : Searched pMsg via1 false bucket res)
    (h' : Searched pMsg via1 false bucket' res')
    (hperm : bucket'.Perm bucket) (hno : ∀ t ∈ bucket, NoMatch pMsg via1 t) : res'.2 = res.2 := by
  cases h with
  | hit before t h _ => exact absurd h.matched (hno t h.mem _)
  | miss _ _ hcancel =>
    cases h' with
    | hit before' t' h' _ => exact absurd h'.matched (hno t' (hperm.mem_iff.1 h'.mem) _)
    | miss _ _ hcancel' => rw [hcancel, hcancel', hperm.any_eq]

end LooksUp

theorem tLookupRequest_cookie (cfg hash table) (hquad : pMsg.quadruple = true)
    (hvia : pMsg.via1 = some via1) (hcookie : via1.hasCookie = true) :
    tLookupRequest cfg hash table pMsg cancel = ((matching3261 (table (hash pMsg.callid pMsg.cseqNumber)) pMsg via1
        (skipMethod pMsg.method)).1.lookup, (matching3261
          (table (hash pMsg.callid pMsg.cseqNumber)) pMsg via1 (skipMethod pMsg.method)).2) := by
  rw [tLookupRequest, if_neg (not_not.2 hquad), hvia]
  simp only [hcookie, if_true]

/-- A request with the magic cookie is matched with a transaction of its bucket exactly if there is
one with its transaction id, sender and method, or one that an ACK is for; a CANCEL is reported if
it is met before. Whether there is a match does not depend on the order of the bucket, and neither
does the match if there is only one, nor the CANCEL if there is none. -/
theorem t_lookup_request_matches (cfg : LookupCfg) (hash : Str → Str → Nat)
    (table : Nat → List Trans) (pMsg : SipMsg) (via1 : ViaBody) (cancel : Bool)
    (hquad : pMsg.quadruple = true) (hvia : pMsg.via1 = some via1) (hcookie : via1.hasCookie = true)
    (hparse : pMsg.method = .ack → pMsg.fromTag.isSome) :
    LooksUp pMsg via1 (table (hash pMsg.callid pMsg.cseqNumber))
      (tLookupRequest cfg hash table pMsg cancel) ∧
    ∀ table' : Nat → List Trans, (table' (hash pMsg.callid pMsg.cseqNumber)).Perm
        (table (hash pMsg.callid pMsg.cseqNumber)) →
      (AtMostOne pMsg via1 (table (hash pMsg.callid pMsg.cseqNumber)) →
        (tLookupRequest cfg hash table' pMsg cancel).1 =
          (tLookupRequest cfg hash table pMsg cancel).1) ∧
      ((∀ t ∈ table (hash pMsg.callid pMsg.cseqNumber), NoMatch pMsg via1 t) →
        (tLookupRequest cfg hash table' pMsg cancel).2 =
          (tLookupRequest cfg hash table pMsg cancel).2) := by
  have hdlg : pMsg.method = .ack → parseDlg pMsg = true := fun hack => by
    rw [parseDlg, hquad, hparse hack]
    rfl
  have hsearched : ∀ bucket, Searched pMsg via1 false bucket
      (matching3261 bucket pMsg via1 (skipMethod pMsg.method)) :=
    searched_matching3261From hdlg false
  rw [tLookupRequest_cookie cfg hash table hquad hvia hcookie]
  refine ⟨(hsearched _).looksUp, fun table' hperm => ?_⟩
  rw [tLookupRequest_cookie cfg hash table' hquad hvia hcookie]
  exact ⟨(hsearched _).perm (hsearched _) hperm, (hsearched _).perm_miss (hsearched _) hperm⟩

/-- A request from `a:5060` over `T`, with the transaction id `1`. -/
def sampleRequest (method : Method) : SipMsg where
  method := method
  via1 := some ⟨some (mcookie ++ [49]), [49], [97], 5060, [84], []⟩
  callid := [99]
  cseqNumber := [49]
  fromBody := []
  fromTag := some [102]
  toBody := []
  toUri := []
  toTag := []
  uri := []
  quadruple := true

def sampleTrans (label : Nat) (method : Method) : Trans := ⟨label, some (sampleRequest method), 0, 0, false, [], []⟩

/-- An INVITE is sent again while its transaction is in the table. -/
theorem t_lookup_request_matches_invite :
    (tLookupRequest ⟨true, true⟩ (fun _ _ => 0) (fun _ => [sampleTrans 1 .bye, sampleTrans 2 .invite])
      (sampleRequest .invite) false).1 = .found (sampleTrans 2 .invite) ∧
    LooksUp (sampleRequest .invite) ⟨some (mcookie ++ [49]), [49], [97], 5060, [84], []⟩
      [sampleTrans 1 .bye, sampleTrans 2 .invite]
      (tLookupRequest ⟨true, true⟩ (fun _ _ => 0)
        (fun _ => [sampleTrans 1 .bye, sampleTrans 2 .invite]) (sampleRequest .invite) false) :=
  ⟨by decide, (t_lookup_request_matches ⟨true, true⟩ (fun _ _ => 0)
    (fun _ => [sampleTrans 1 .bye, sampleTrans 2 .invite]) (sampleRequest .invite) _ false rfl rfl
    (by decide) (fun h => absurd h (by decide))).1⟩

/-- The CANCEL of an INVITE is reported only if it comes before the INVITE in the bucket. -/
theorem cancel_depends_on_order :
    tLookupRequest ⟨true, true⟩ (fun _ _ => 0)
        (fun _ => [sampleTrans 1 .invite, sampleTrans 2 .cancel]) (sampleRequest .invite) false =
      (.found (sampleTrans 1 .invite), false) ∧
    tLookupRequest ⟨true, true⟩ (fun _ _ => 0)
        (fun _ => [sampleTrans 2 .cancel, sampleTrans 1 .invite]) (sampleRequest .invite) false =
      (.found (sampleTrans 1 .invite), true) := by
  decide

end SipRouter.Tm
