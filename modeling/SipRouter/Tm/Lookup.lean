import Mathlib

/-!
# Request matching (`t_lookup.c`)

`t_lookup_request` looks for the transaction that a request belongs to, in the
bucket of the table that its Call-ID and CSeq number hash to. A request with the
magic cookie in the branch of its topmost Via is matched by `matching_3261`, any
other one by the header fields that RFC 2543 names. An ACK may also belong to a
transaction that was answered with a 2xx, which is found by the dialog.

Locking of the bucket, reference counts and the parsing of headers are left out:
a message has the fields that its headers were parsed to.
-/

namespace SipRouter.Tm

/-- `str`: the bytes of a string. -/
abbrev Str := List UInt8

/-! ## Messages and transactions -/

/-- `enum request_method`; a method that is not known is `METHOD_OTHER`. -/
inductive Method where
  | invite | cancel | ack | bye | info | register | subscribe | notify | message | options | other
  deriving DecidableEq, Repr

/-- The bit that stands for a method. -/
def Method.bit : Method → BitVec 32
  | .invite => 1
  | .cancel => 2
  | .ack => 4
  | .bye => 8
  | .info => 16
  | .register => 32
  | .subscribe => 64
  | .notify => 128
  | .message => 256
  | .options => 512
  | .other => 1024

/-- `struct via_body`: the value of its branch, the transaction id that was found in it, who sent
the request, and the text that follows the header name. -/
structure ViaBody where
  branch : Option Str
  tid : Str
  host : Str
  port : Nat
  transport : Str
  text : Str
  deriving DecidableEq, Repr

/-- `struct sip_msg`, a request. There is no tag of the From if its body was not, or can not be,
parsed. -/
structure SipMsg where
  method : Method
  via1 : Option ViaBody
  callid : Str
  cseqNumber : Str
  fromBody : Str
  fromTag : Option Str
  toBody : Str
  toUri : Str
  toTag : Str
  uri : Str
  /-- From, To, Call-ID and CSeq are there -/
  quadruple : Bool
  deriving DecidableEq, Repr

/-- `struct cell`, as far as requests are matched with it. A transaction of the server's own has
no request. -/
structure Trans where
  label : Nat
  /-- `uas.request` -/
  request : Option SipMsg
  /-- `uas.status` -/
  status : Nat
  /-- `-2` for a transaction that was answered locally -/
  relayedReplyBranch : Int
  /-- There are callbacks for end-to-end ACKs, `TMCB_E2EACK_IN` or `TMCB_E2EACK_RETR_IN` -/
  e2eAckCallbacks : Bool
  /-- `uas.local_totag` -/
  localTotag : Str
  fwdedTotags : List Str
  deriving DecidableEq, Repr

/-! ## Comparisons -/

/-- `parse_dlg`. -/
def parseDlg (msg : SipMsg) : Bool := msg.quadruple && msg.fromTag.isSome

/-- `partial_dlg_matching`: dialog-wise equal, except for the tag of the To. -/
def partialDlgMatching (tMsg pMsg : SipMsg) : Bool :=
  match tMsg.fromTag with
  | none => false
  | some tag =>
    tMsg.callid = pMsg.callid && tMsg.cseqNumber = pMsg.cseqNumber && some tag = pMsg.fromTag

/-- `dlg_matching`. -/
def dlgMatching (t : Trans) (ack : SipMsg) : Bool := ack.toTag = t.localTotag

/-- `totag_e2e_ack_matching`. -/
def totagE2eAckMatching (t : Trans) (ack : SipMsg) : Bool := t.fwdedTotags.any (· = ack.toTag)

/-- The result of `ack_matching`: `0`, `1`, `2` and `3`. -/
inductive AckMatch where
  | nothing | localTrans | proxied | partialMatch
  deriving DecidableEq, Repr

/-- `ack_matching`; `tMsg` is the request of the transaction. -/
def ackMatching (t : Trans) (tMsg pMsg : SipMsg) : AckMatch :=
  if ¬ partialDlgMatching tMsg pMsg then .nothing
  else if t.relayedReplyBranch ≠ -2 then
    if t.e2eAckCallbacks then (if totagE2eAckMatching t pMsg then .proxied else .nothing)
    else .partialMatch
  else if dlgMatching t pMsg then .localTrans
  else .nothing

/-- `via_matching`. -/
def viaMatching (invVia ackVia : ViaBody) : Bool :=
  invVia.tid = ackVia.tid && invVia.host = ackVia.host && invVia.port = ackVia.port &&
    invVia.transport = ackVia.transport

/-! ## Matching by the branch -/

/-- `MCOOKIE`, "z9hG4bK". -/
def mcookie : Str := [122, 57, 104, 71, 52, 98, 75]

/-- The topmost Via has a branch with the magic cookie, and something after it. -/
def ViaBody.hasCookie (via : ViaBody) : Bool :=
  match via.branch with
  | none => false
  | some value => mcookie.length < value.length && value.take mcookie.length = mcookie

/-- The Via with the transaction id that is read from its branch. -/
def ViaBody.withTid (via : ViaBody) : ViaBody := { via with tid := (via.branch.getD []).drop mcookie.length }

/-- `skip_method`: all methods but the one that is looked for. -/
def skipMethod (method : Method) : BitVec 32 := if method = .ack then ~~~ Method.invite.bit else ~~~ method.bit

def skips (skip : BitVec 32) (method : Method) : Bool := skip &&& method.bit ≠ 0

/-- The result of `matching_3261`. -/
inductive MatchStatus where
  | nothing
  | found (t : Trans)
  | e2eAck (t : Trans)
  deriving DecidableEq, Repr

/-- The loop of `matching_3261` over a bucket, with `e2e_ack_trans` and `*cancel`. -/
def matching3261From (pMsg : SipMsg) (via1 : ViaBody) (skip : BitVec 32) :
    Option Trans → Bool → List Trans → MatchStatus × Bool
  | some t, cancel, [] => (.e2eAck t, cancel)
  | none, cancel, [] => (.nothing, cancel)
  | e2eAckTrans, cancel, t :: ts =>
    let isAck := pMsg.method = .ack
    match t.request with
    -- don't try matching UAC transactions
    | none => matching3261From pMsg via1 skip e2eAckTrans cancel ts
    | some tMsg =>
      -- a CANCEL is looked at, to set *cancel; we don't care about ACKs
      if (isAck ∨ tMsg.method ≠ .cancel) ∧ skips skip tMsg.method then
        matching3261From pMsg via1 skip e2eAckTrans cancel ts
      else if isAck ∧ t.status < 300 then
        if t.e2eAckCallbacks ∨ t.relayedReplyBranch = -2 then
          if ¬ parseDlg pMsg then (.nothing, cancel)
          else
            match ackMatching t tMsg pMsg with
            | .localTrans => (.found t, cancel)
            | .proxied => (.e2eAck t, cancel)
            | .partialMatch =>
              matching3261From pMsg via1 skip (some (e2eAckTrans.getD t)) cancel ts
            | .nothing => matching3261From pMsg via1 skip e2eAckTrans cancel ts
        else matching3261From pMsg via1 skip e2eAckTrans cancel ts
      else if ¬ tMsg.via1.any (viaMatching · via1) then
        matching3261From pMsg via1 skip e2eAckTrans cancel ts
      else
        let cancel' := cancel || (tMsg.method = .cancel && pMsg.method ≠ .cancel && !isAck)
        if tMsg.method = .cancel ∧ skips skip tMsg.method then
          matching3261From pMsg via1 skip e2eAckTrans cancel' ts
        else (.found t, cancel')

/-- `matching_3261`. -/
def matching3261 (bucket : List Trans) (pMsg : SipMsg) (via1 : ViaBody) (skip : BitVec 32) :
    MatchStatus × Bool :=
  matching3261From pMsg via1.withTid skip none false bucket

/-! ## Matching by header fields -/

/-- The parameters `ruri_matching` and `via1_matching`. -/
structure LookupCfg where
  ruriMatching : Bool
  via1Matching : Bool
  deriving DecidableEq, Repr

/-- The Request-URI and the Via are the same, where this is asked for. -/
def uriAndViaMatch (cfg : LookupCfg) (tMsg pMsg : SipMsg) : Bool :=
  (!cfg.ruriMatching || tMsg.uri = pMsg.uri) &&
    (!cfg.via1Matching || tMsg.via1.map ViaBody.text = pMsg.via1.map ViaBody.text)

/-- The search for a request other than an ACK. -/
def matchingHeaders (cfg : LookupCfg) (pMsg : SipMsg) : Bool → List Trans → MatchStatus × Bool
  | cancel, [] => (.nothing, cancel)
  | cancel, t :: ts =>
    match t.request with
    | none => matchingHeaders cfg pMsg cancel ts
    | some tMsg =>
      if (tMsg.method = pMsg.method ∨ tMsg.method = .cancel) ∧ tMsg.callid = pMsg.callid ∧
          tMsg.cseqNumber = pMsg.cseqNumber ∧ tMsg.fromBody = pMsg.fromBody ∧
          tMsg.toBody = pMsg.toBody ∧ uriAndViaMatch cfg tMsg pMsg then
        if tMsg.method = .cancel ∧ pMsg.method ≠ .cancel then matchingHeaders cfg pMsg true ts
        else (.found t, cancel)
      else matchingHeaders cfg pMsg cancel ts

/-- The search for an ACK, with `e2e_ack_trans`. -/
def matchingHeadersAck (cfg : LookupCfg) (pMsg : SipMsg) : Option Trans → List Trans → MatchStatus
  | some t, [] => .e2eAck t
  | none, [] => .nothing
  | e2eAckTrans, t :: ts =>
    match t.request with
    | none => matchingHeadersAck cfg pMsg e2eAckTrans ts
    | some tMsg =>
      if tMsg.method = .invite ∧ tMsg.callid = pMsg.callid ∧ tMsg.cseqNumber = pMsg.cseqNumber ∧
          tMsg.toUri = pMsg.toUri then
        if t.status < 300 then
          if pMsg.fromTag = none ∨ tMsg.fromTag ≠ pMsg.fromTag then
            matchingHeadersAck cfg pMsg e2eAckTrans ts
          else if t.relayedReplyBranch ≠ -2 then
            if ¬ t.e2eAckCallbacks then matchingHeadersAck cfg pMsg e2eAckTrans ts
            else if totagE2eAckMatching t pMsg then .e2eAck t
            else matchingHeadersAck cfg pMsg (some (e2eAckTrans.getD t)) ts
          else if dlgMatching t pMsg then .found t
          else matchingHeadersAck cfg pMsg e2eAckTrans ts
        else if tMsg.fromBody = pMsg.fromBody ∧ uriAndViaMatch cfg tMsg pMsg then .found t
        else matchingHeadersAck cfg pMsg e2eAckTrans ts
      else matchingHeadersAck cfg pMsg e2eAckTrans ts

/-! ## Looking up a request -/

/-- The result of `t_lookup_request`: `0`, `-1`, `-2` with `t_ack`, or `1` with `T`. -/
inductive Lookup where
  | error
  | notFound
  | e2eAck (t : Trans)
  | found (t : Trans)
  deriving DecidableEq, Repr

def MatchStatus.lookup : MatchStatus → Lookup
  | .nothing => .notFound
  | .found t => .found t
  | .e2eAck t => .e2eAck t

/-- `t_lookup_request` on a table of buckets, with `*cancel`, which an error leaves as it was. -/
def tLookupRequest (cfg : LookupCfg) (hash : Str → Str → Nat) (table : Nat → List Trans)
    (pMsg : SipMsg) (cancel : Bool) : Lookup × Bool :=
  if ¬ pMsg.quadruple then (.error, cancel)
  else
    let bucket := table (hash pMsg.callid pMsg.cseqNumber)
    match pMsg.via1 with
    | none => (.error, cancel)
    | some via1 =>
      if via1.hasCookie then
        let (status, cancel) := matching3261 bucket pMsg via1 (skipMethod pMsg.method)
        (status.lookup, cancel)
      else if pMsg.method ≠ .ack then
        let (status, cancel) := matchingHeaders cfg pMsg false bucket
        (status.lookup, cancel)
      else ((matchingHeadersAck cfg pMsg none bucket).lookup, false)

end SipRouter.Tm
