import SipRouter.Dlg.Request
import SipRouter.Parser.HName

/-!
# The ACK for a 2xx (`build_dlg_ack` in `t_msgbuilder.c`)

The ACK of a local INVITE is built from the reply and from the INVITE as it was sent.
Outside of a dialog the route set is what the reply recorded; within one it is taken from
the Route fields of the INVITE, whose last entry may be the target that was used then.

Messages are given as they are parsed: their fields with what `parse_rr` makes of them,
and the URI of the Contact.
-/

namespace SipRouter.Dlg

open Msg SipRouter.Parser List
open Option hiding map_map

/-! ## The route set -/

/-- A field: what `parse_rr` makes of a Route or Record-Route, `none` on an error. -/
structure Hdr where
  type : HdrType
  rr : Option (List Rr)

/-- The `for` of `get_uac_rs`: entries are put in front. -/
def harvest (type : HdrType) : List Hdr → List Rr → Option (List Rr)
  | [], head => some head
  | h :: hs, head =>
    if h.type ≠ type then harvest type hs head
    else h.rr.bind fun p => harvest type hs (p.foldl (fun head r => r :: head) head)

/-- `get_uac_rs`. `msg->route` and `msg->record_route` are the first field of the type. -/
def getUacRs (hdrs : List Hdr) (isReq : Bool) : Option (List Rr) :=
  let type := if isReq then .route else .recordRoute
  (harvest type (hdrs.dropWhile (·.type ≠ type)) []).map fun head => if isReq then head.reverse else head

/-! ## What kind of router the INVITE went to -/

/-- The INVITE as it was sent, parsed. `flags` has `F_RB_NH_LOOSE` and `F_RB_NH_STRICT`. -/
structure SentInvite where
  ruri : Str
  toTag : List UInt8
  hdrs : List Hdr
  looseFlag : Bool
  strictFlag : Bool
  dstIp : IpAddr
  dstPort : Nat

/-- What other functions make of a URI, a host and a next hop: `parse_uri`, `str2ip`, and the Via
for the socket that `uri2dst` finds. -/
structure Env where
  parseUri : List UInt8 → Option SipUri
  str2ip : List UInt8 → Option IpAddr
  via : List UInt8 → Option (List UInt8)

/-- `uri2port`, `none` for 0. -/
def uri2port (puri : SipUri) : Option Nat :=
  let port := match puri.port with
    | some port => port
    | none => match puri.type with
      | .sip | .tel => if puri.transport.map (· ||| 0x20) = bytes "tls" then 5061 else 5060
      | .sips | .tels => 5061
      | .other => 0
  if port = 0 then none else some port

/-- The last steps of `nhop_type`: the target is compared with the Request-URI of the INVITE and
with the last route. -/
def Env.guessHop (env : Env) (inv : SentInvite) (lastr : SipUri) (contact : Str) : Option NextHop :=
  (env.parseUri contact.text).bind fun cont =>
  (env.parseUri inv.ruri.text).bind fun ruri =>
  (uri2port cont).bind fun contPort =>
  (uri2port ruri).bind fun invPort =>
    if contPort = invPort ∧ cont.host = ruri.host then some .loose
    else (uri2port lastr).bind fun lastrPort =>
      if contPort = lastrPort ∧ cont.host = lastr.host then some .strict else some .loose

/-- `nhop_type`, `none` on an error. -/
def Env.nhopType (env : Env) (inv : SentInvite) (first last : Rr) (contact : Str) : Option NextHop :=
  (env.parseUri first.uri.text).bind fun topr =>
    if !topr.lr then some .strict
    else
      (env.parseUri last.uri.text).bind fun lastr =>
        if lastr.lr then some .loose
        else
          (uri2port topr).bind fun port =>
            if inv.dstPort = 0 then none
            else if inv.dstPort ≠ port then some .strict
            else
              match env.str2ip topr.host with
              | some ip => some (if ip = inv.dstIp then .loose else .strict)
              | none => env.guessHop inv lastr contact

/-! ## Routing -/

/-- A reply: its `To` field, and the URI of its Contact, `none` if it cannot be parsed. It stands
elsewhere than the URIs it recorded. -/
structure Reply where
  hdrs : List Hdr
  toHdr : Option (List UInt8)
  contact : Option Str
  apart : ∀ h ∈ hdrs, ∀ rs ∈ h.rr, ∀ r ∈ rs, ∀ c ∈ contact, r.uri.addr ≠ c.addr

/-- What `eval_uac_routing` finds. An entry of the list is `none` if it points to no route. -/
structure Eval where
  list : List (Option Rr)
  ruri : Str
  nextHop : Str
  deriving DecidableEq

/-- The routes of an INVITE that went to a strict router: the old target at the end is replaced. The
new entry has the route behind it in memory, but its pointer is not set. The test for a list with
only this entry is also met by one with two. -/
def replaceLast (rtset : List Rr) (last : Rr) (contact : Str) : List (Option Rr) :=
  if last.text.text = contact.text then rtset.map some
  else if rtset.length ≤ 2 then [none]
  else rtset.dropLast.map some ++ [none]

/-- The end of `eval_uac_routing` for an INVITE within a dialog, by the kind of the router. -/
def evalHop (inv : SentInvite) (first : Rr) (rest : List Rr) (contact : Str) : NextHop → Option Eval
  | .loose => some ⟨(first :: rest).map some, contact, first.uri⟩
  | .strict =>
    let list := replaceLast (first :: rest) ((first :: rest).getLast (cons_ne_nil _ _)) contact
    some ⟨list, inv.ruri, inv.ruri⟩
  | .direct => none

/-- `eval_uac_routing`, `none` on an error. -/
def Env.evalUacRouting (env : Env) (rpl : Reply) (inv : SentInvite) (contact : Str) : Option Eval :=
  let isReq : Bool := inv.toTag ≠ []
  (getUacRs (if isReq then inv.hdrs else rpl.hdrs) isReq).bind fun rtset =>
    match rtset with
    | [] => some ⟨[], contact, contact⟩
    | first :: rest =>
      if !isReq then
        (env.parseUri first.uri.text).map fun puri =>
          if puri.lr then ⟨(first :: rest).map some, contact, first.uri⟩
          else ⟨rest.map some, first.uri, first.uri⟩
      else
        match inv.looseFlag, inv.strictFlag with
        | true, true => none
        | true, false => evalHop inv first rest contact .loose
        | false, true => evalHop inv first rest contact .strict
        | false, false =>
          (env.nhopType inv first ((first :: rest).getLast (cons_ne_nil _ _)) contact).bind
            (evalHop inv first rest contact)

/-! ## The ACK -/

/-- `calc_routeset_len`. -/
def calcRoutesetLen (list : List Rr) (contact : Option Str) : Nat :=
  if list = [] ∧ contact = none then 0
  else
    let ret := routePrefix.length + crlf.length
    let ret := match list with
      | [] => ret
      | r :: rs => rs.foldl (fun ret r => ret + routeSeparator.length + r.text.text.length) (ret + r.text.text.length)
    match contact with
    | some c => ret + (if list ≠ [] then routeSeparator.length else 0) + (2 + c.text.length)
    | none => ret

/-- The entries that `print_rs` writes, with separators in front of all but the first. -/
def printRs (p : List UInt8) (list : List Rr) (contact : Option Str) : List UInt8 :=
  if list = [] ∧ contact = none then p
  else
    let p := p ++ routePrefix
    let p := match list with
      | [] => p
      | r :: rs => rs.foldl (fun p r => p ++ routeSeparator ++ r.text.text) (p ++ r.text.text)
    let p := match contact with
      | some c => (if list ≠ [] then p ++ routeSeparator else p) ++ bytes "<" ++ c.text ++ bytes ">"
      | none => p
    p ++ crlf

/-- What the ACK is made of besides the routes: the fields of the INVITE that the transaction
remembers, and what the caller gives. -/
structure AckReq where
  fromHdr : List UInt8
  callid : List UInt8
  cseqN : List UInt8
  headers : Option (List UInt8)
  body : Option (List UInt8)
  agent : Option (List UInt8)

/-- An ACK that was built, and where it goes. -/
structure AckSent where
  text : List UInt8
  len : Nat
  nextHop : Str

/-- The length, an `unsigned int`. -/
def AckReq.length (q : AckReq) (ruri via toHdr : List UInt8) (list : List Rr) (cont : Option Str) : Nat :=
  let bodyLen := match q.body with
    | some body => body.length + (int2str body.length).length
    | none => 1
  (sipVersion.length + (bytes "ACK").length + 2 + crlf.length + ruri.length + via.length +
    (q.fromHdr.length + q.callid.length + toHdr.length + q.cseqN.length + 1 + (bytes
      "ACK").length + crlf.length) + calcRoutesetLen list cont +
    (q.agent.elim 0 fun agent => agent.length + crlf.length) + q.headers.elim 0 List.length + bodyLen +
    ((bytes "Content-Length: ").length + crlf.length + crlf.length)) % 4294967296

/-- What `build_dlg_ack` writes. -/
def AckReq.print (q : AckReq) (ruri via toHdr : List UInt8) (list : List Rr) (cont : Option Str) : List UInt8 :=
  let p := bytes "ACK" ++ bytes " " ++ ruri ++ (bytes " " ++ sipVersion ++ crlf) ++ via
  let p := p ++ q.fromHdr ++ q.callid ++ toHdr ++ q.cseqN ++ bytes " " ++ bytes "ACK" ++ crlf
  let p := printRs p list cont
  let p := q.agent.elim p fun agent => p ++ (agent ++ crlf)
  let p := q.headers.elim p (p ++ ·)
  match q.body with
  | some body => p ++ bytes "Content-Length: " ++ int2str body.length ++ (crlf ++ crlf) ++ body
  | none => p ++ (bytes "Content-Length: " ++ bytes "0" ++ crlf ++ crlf)

/-- What `build_dlg_ack` appends to the routes: the target, if the Request-URI is not the Contact,
by their addresses. -/
def Eval.cont (e : Eval) (contact : Str) : Option Str :=
  if contact.addr ≠ e.ruri.addr ∨ contact.text.length ≠ e.ruri.text.length then some contact else none

/-- `build_dlg_ack`, if there is memory. `calc_routeset_len` follows the pointer of every entry:
with one that points to no route nothing is built. -/
def Env.buildDlgAck (env : Env) (q : AckReq) (rpl : Reply) (inv : SentInvite) : Option AckSent :=
  rpl.toHdr.bind fun toHdr =>
  rpl.contact.bind fun contact =>
  (env.evalUacRouting rpl inv contact).bind fun e =>
  (env.via e.nextHop.text).bind fun via =>
    (e.list.mapM id).map fun list =>
      ⟨q.print e.ruri.text via toHdr list (e.cont contact), q.length e.ruri.text via toHdr list (e.cont contact),
        e.nextHop⟩

/-! ## What the ACK should be -/

/-- The text of an ACK that is routed in this way. -/
def AckReq.text (q : AckReq) (routing : Routing Entry) (via toHdr : List UInt8) : List UInt8 :=
  bytes "ACK" ++ bytes " " ++ routing.requestUri.uri ++ (bytes " " ++ sipVersion ++ crlf) ++
    [via, q.fromHdr, q.callid, toHdr, q.cseqN ++ bytes " " ++ bytes "ACK" ++ crlf, routeField routing.routes,
      q.agent.elim [] (· ++ crlf), q.headers.getD [],
        bytes "Content-Length: " ++ int2str (q.body.getD []).length ++ crlf].flatten ++
    crlf ++ q.body.getD []

/-- The entries of the fields of a type. -/
def entries (type : HdrType) (hdrs : List Hdr) : List Rr := (hdrs.filter (·.type = type)).flatMap (·.rr.getD [])

def Parsed (type : HdrType) (hdrs : List Hdr) : Prop := ∀ h ∈ hdrs, h.type = type → h.rr.isSome

variable {hdrs : List Hdr} {rpl : Reply} {contact : Str} {inv : SentInvite} {list : List Rr}
  {cont : Option Str} {p : List UInt8} {rs : List Rr}

theorem harvest_eq {type} (h : Parsed type hdrs) (head) :
    harvest type hdrs head = some ((entries type hdrs).reverse ++ head) := by
  induction hdrs generalizing head with
  | nil => rfl
  | cons x hs ih =>
    have ih := ih fun y hy => h y (mem_cons_of_mem _ hy)
    unfold harvest entries
    by_cases hx : x.type = type
    · obtain ⟨rs, hrs⟩ := isSome_iff_exists.1 (h x mem_cons_self hx)
      rw [if_neg (by simp [hx]), hrs, bind_some, ih, foldl_flip_cons_eq_append]
      simp [hx, hrs, entries]
    · rw [if_pos hx, ih]
      simp [hx, entries]

theorem entries_dropWhile {type hdrs} : entries type (hdrs.dropWhile (·.type ≠ type)) = entries type hdrs := by
  induction hdrs with
  | nil => rfl
  | cons x hs ih =>
    by_cases hx : x.type = type
    · rw [dropWhile_cons_of_neg (by simp [hx])]
    · rw [dropWhile_cons_of_pos (by simpa using hx), ih]
      simp [entries, hx]

/-- The route set of a request is in order, and the one of a reply is reversed. -/
theorem getUacRs_eq {isReq : Bool} (h : Parsed (if isReq then .route else .recordRoute) hdrs) :
    getUacRs hdrs isReq = some (if isReq then entries .route hdrs else (entries .recordRoute hdrs).reverse) := by
  change Option.map _ (harvest _ _ _) = _
  rw [harvest_eq fun x hx => h x ((dropWhile_sublist _).mem hx), entries_dropWhile]
  cases isReq <;> simp

/-! ## The two walks over the routes -/

theorem foldl_separated : rs.foldl (fun p r => p ++ routeSeparator ++ r.text.text) p =
    p ++ (rs.map fun r => routeSeparator ++ r.text.text).flatten := by
  induction rs generalizing p with
  | nil => simp
  | cons r rs ih => rw [foldl_cons, ih, map_cons, flatten_cons, append_assoc, append_assoc, append_assoc]

theorem intercalate_eq_flatten (sep x : List UInt8) (xs : List (List UInt8)) :
    sep.intercalate (x :: xs) = x ++ (xs.map (sep ++ ·)).flatten := by
  induction xs generalizing x with
  | nil => simp
  | cons y xs ih => rw [intercalate_cons_cons, ih, map_cons, flatten_cons, append_assoc, append_assoc]

/-- The entries of the Route field. -/
def ackRoutes (list : List Rr) (cont : Option Str) : List Entry :=
  list.map Rr.entry ++ (cont.map fun c => Entry.ofUri c.text).toList

theorem printRs_eq : printRs p list cont = p ++ routeField (ackRoutes list cont) := by
  have htext := (Hooks.mk none none list cont).map_text_routes
  change (ackRoutes list cont).map Entry.text = _ at htext
  unfold printRs routeField
  rw [htext]
  unfold ackRoutes
  cases list with
  | nil => cases cont <;> simp
  | cons r rs =>
    have hjoin : routeSeparator.intercalate ((r :: rs).map fun r => r.text.text) =
        r.text.text ++ (rs.map fun r => routeSeparator ++ r.text.text).flatten := by
      rw [map_cons, intercalate_eq_flatten, map_map]
      rfl
    cases cont with
    | none =>
      simp only [foldl_separated, map_none, toList_none, append_nil, hjoin]
      simp
    | some c =>
      simp only [foldl_separated, map_some, toList_some]
      rw [intercalate_concat (by simp), hjoin]
      simp

theorem foldl_lengths {n} : rs.foldl (fun n r => n + routeSeparator.length + r.text.text.length) n =
    n + ((rs.map fun r => routeSeparator ++ r.text.text).flatten).length := by
  induction rs generalizing n with
  | nil => rfl
  | cons r rs ih =>
    rw [foldl_cons, ih, map_cons, flatten_cons, length_append, length_append]
    omega

/-- The walk that counts agrees with the one that prints. -/
theorem length_printRs :
    (printRs p list cont).length = p.length + calcRoutesetLen list cont := by
  have hlt : (bytes "<").length = 1 := rfl
  have hgt : (bytes ">").length = 1 := rfl
  unfold printRs calcRoutesetLen
  by_cases h : list = [] ∧ cont = none
  · rw [if_pos h, if_pos h, add_zero]
  · rw [if_neg h, if_neg h]
    cases list with
    | nil =>
      cases cont with
      | none => exact absurd ⟨rfl, rfl⟩ h
      | some c =>
        simp [hlt, hgt]
        omega
    | cons r rs =>
      cases cont <;>
      · simp only [foldl_separated, foldl_lengths, length_append, hlt, hgt]
        simp
        omega

theorem print_eq (q : AckReq) (routing via toHdr)
    (h : ackRoutes list cont = routing.routes) :
    q.print routing.requestUri.uri via toHdr list cont = q.text routing via toHdr := by
  have hzero : int2str 0 = bytes "0" := by decide
  unfold AckReq.print AckReq.text
  simp only [printRs_eq, h]
  cases q.agent <;> cases q.headers <;> cases q.body <;> simp [hzero]

theorem length_eq (q : AckReq) (ruri via toHdr) (list : List Rr) (cont) :
    q.length ruri via toHdr list cont = (q.print ruri via toHdr list cont).length % 4294967296 := by
  have hspace : (bytes " ").length = 1 := rfl
  have hzero : (bytes "0").length = 1 := rfl
  unfold AckReq.length AckReq.print
  cases q.agent <;> cases q.headers <;> cases q.body <;>
  · simp [length_printRs, hspace, hzero]
    omega

/-! ## The ACK follows the route set -/

/-- The INVITE was sent along a route set, to a target that may have changed since. -/
structure SentAlong (parseUri : List UInt8 → Option SipUri) (rs : List Entry) (old : List UInt8)
    (inv : SentInvite) : Prop where
  parsed : Parsed .route inv.hdrs
  routes : (entries .route inv.hdrs).map Rr.entry = (Routing.of (Entry.loose parseUri) (.ofUri old) rs).routes
  ruri : inv.ruri.text = (Routing.of (Entry.loose parseUri) (.ofUri old) rs).requestUri.uri
  looseFlag : inv.looseFlag = rs.head?.any (Entry.loose parseUri)
  strictFlag : inv.strictFlag = rs.head?.any fun e => !e.loose parseUri

/-- The route set of the ACK: what the reply recorded, reversed, or the one of the dialog. -/
inductive RouteSet (parseUri : List UInt8 → Option SipUri) (rpl : Reply) (inv : SentInvite) : List Entry → Prop
  | recorded (hinv : inv.toTag = []) (hparsed : Parsed .recordRoute rpl.hdrs)
      (huri : ∀ r ∈ (entries .recordRoute rpl.hdrs).reverse.head?, (parseUri r.uri.text).isSome) :
      RouteSet parseUri rpl inv ((entries .recordRoute rpl.hdrs).reverse.map Rr.entry)
  | dialog {rs : List Entry} {old : List UInt8} (hinv : inv.toTag ≠ [])
      (hsent : SentAlong parseUri rs old inv) : RouteSet parseUri rpl inv rs

/-- The routing elements are those of a target and a route set. -/
structure Eval.Follows (e : Eval) (contact : Str) (routing : Routing Entry) : Prop where
  ruri : e.ruri.text = routing.requestUri.uri
  nextHop : e.nextHop.text = routing.nextHop.uri
  routes : ∃ list, e.list = list.map some ∧ ackRoutes list (e.cont contact) = routing.routes

theorem cont_self {list contact nextHop} : (Eval.mk list contact nextHop).cont contact = none := by simp [Eval.cont]

theorem addr_ne {r} (hc : rpl.contact = some contact) (hr : r ∈ entries .recordRoute rpl.hdrs) :
    contact.addr ≠ r.uri.addr := by
  obtain ⟨h, hh, hmem⟩ := mem_flatMap.1 hr
  cases hrr : h.rr with
  | none =>
    rw [hrr] at hmem
    cases hmem
  | some rs =>
    rw [hrr] at hmem
    exact (rpl.apart h (mem_of_mem_filter hh) rs hrr r hmem contact hc).symm

/-- Outside of a dialog, for any route set. -/
theorem eval_recorded (env : Env) (hinv : inv.toTag = []) (hc : rpl.contact = some contact)
    (hparsed : Parsed .recordRoute rpl.hdrs)
    (huri : ∀ r ∈ (entries .recordRoute rpl.hdrs).reverse.head?, (env.parseUri r.uri.text).isSome) :
    ∃ e, env.evalUacRouting rpl inv contact = some e ∧ e.Follows contact
      (.of (Entry.loose env.parseUri) (.ofUri contact.text)
        ((entries .recordRoute rpl.hdrs).reverse.map Rr.entry)) := by
  have haddr : ∀ r ∈ (entries .recordRoute rpl.hdrs).reverse, contact.addr ≠ r.uri.addr :=
    fun r hr => addr_ne hc (mem_reverse.1 hr)
  have hreq : decide (inv.toTag ≠ []) = false := by simp [hinv]
  unfold Env.evalUacRouting
  simp only [hreq, Bool.false_eq_true, if_false]
  rw [getUacRs_eq (by simpa using hparsed)]
  simp only [Bool.false_eq_true, if_false, bind_some]
  cases hrs : (entries .recordRoute rpl.hdrs).reverse with
  | nil => exact ⟨_, rfl, rfl, rfl, [], rfl, by rw [cont_self]; rfl⟩
  | cons r rs =>
    rw [hrs] at haddr huri
    obtain ⟨puri, hpuri⟩ := isSome_iff_exists.1 (huri r rfl)
    have hloose : r.entry.loose env.parseUri = puri.lr := by
      unfold Entry.loose Rr.entry
      rw [hpuri]
      rfl
    simp only [hpuri, map_some, map_cons, Routing.of, hloose, Bool.not_false, if_true]
    cases puri.lr with
    | true => exact ⟨_, rfl, rfl, rfl, r :: rs, rfl, by simp [cont_self, ackRoutes]⟩
    | false =>
      refine ⟨_, rfl, rfl, rfl, rs, rfl, ?_⟩
      have hcont : (Eval.mk (rs.map some) r.uri r.uri).cont contact = some contact :=
        if_pos (.inl (haddr r mem_cons_self))
      simp [hcont, ackRoutes]

/-- Within a dialog, for a route set that does not begin with a strict router. -/
theorem eval_dialog (env : Env) {rs old} (hinv : inv.toTag ≠ [])
    (h : SentAlong env.parseUri rs old inv) (hloose : ∀ e ∈ rs.head?, e.loose env.parseUri = true) :
    ∃ e, env.evalUacRouting rpl inv contact = some e ∧
      e.Follows contact (.of (Entry.loose env.parseUri) (.ofUri contact.text) rs) := by
  have hreq : decide (inv.toTag ≠ []) = true := by simp [hinv]
  have hroutes := h.routes
  have hlooseFlag := h.looseFlag
  have hstrictFlag := h.strictFlag
  unfold Env.evalUacRouting
  simp only [hreq, if_true]
  rw [getUacRs_eq (by simpa using h.parsed)]
  simp only [if_true, bind_some]
  cases rs with
  | nil =>
    have hnil : entries .route inv.hdrs = [] := by simpa [Routing.of] using hroutes
    rw [hnil]
    exact ⟨_, rfl, rfl, rfl, [], rfl, by rw [cont_self]; rfl⟩
  | cons e rs =>
    have hfirst := hloose e rfl
    simp only [Routing.of, hfirst, if_true] at hroutes ⊢
    obtain ⟨r, rs', hrs, rfl, rfl⟩ := map_eq_cons_iff.1 hroutes
    simp only [head?_cons, any_some, hfirst, Bool.not_true] at hlooseFlag hstrictFlag
    simp only [hrs, hlooseFlag, hstrictFlag, Bool.not_true, Bool.false_eq_true, if_false, evalHop]
    exact ⟨_, rfl, rfl, rfl, r :: rs', rfl, by simp [cont_self, ackRoutes]⟩

theorem mapM_some (list : List Rr) : (list.map some).mapM id = some list := by
  induction list with
  | nil => rfl
  | cons r rs ih => simp [ih]

theorem mapM_none (list : List (Option Rr)) : (list ++ [none]).mapM id = none := by
  induction list with
  | nil => rfl
  | cons r rs ih => cases r <;> simp [ih]

/-- Within a dialog whose route set begins with a strict router: an entry points to no route, or the
old target is followed by the new one. -/
theorem eval_strict (env : Env) (rpl : Reply) (contact : Str) {e rs old} (hinv : inv.toTag ≠ [])
    (h : SentAlong env.parseUri (e :: rs) old inv) (hstrict : e.loose env.parseUri = false) :
    ∃ list, env.evalUacRouting rpl inv contact = some ⟨list, inv.ruri, inv.ruri⟩ ∧
      inv.ruri.text = e.uri ∧ (list.mapM id = none ∨ ∃ front last, list = (front ++ [last]).map some ∧
        front.map Rr.entry = rs ∧ last.text.text = contact.text) := by
  have hreq : decide (inv.toTag ≠ []) = true := by simp [hinv]
  have hroutes := h.routes
  have hlooseFlag := h.looseFlag
  have hstrictFlag := h.strictFlag
  simp only [Routing.of, hstrict, Bool.false_eq_true, if_false, head?_cons, any_some,
    Bool.not_false] at hroutes hlooseFlag hstrictFlag
  obtain ⟨front, back, hentries, hfront, hback⟩ := map_eq_append_iff.1 hroutes
  obtain ⟨last, rfl, -⟩ := map_eq_singleton_iff.1 hback
  have hruri : inv.ruri.text = e.uri := by
    have := h.ruri
    simpa [Routing.of, hstrict] using this
  unfold Env.evalUacRouting
  simp only [hreq, if_true]
  rw [getUacRs_eq (by simpa using h.parsed)]
  simp only [if_true, bind_some]
  cases hlist : entries .route inv.hdrs with
  | nil => simp [hlist] at hentries
  | cons first rest =>
    have hlast : (first :: rest).getLast (cons_ne_nil _ _) = last := by
      simp only [← hlist, hentries, getLast_append_singleton]
    rw [hlist] at hentries
    simp only [hlooseFlag, hstrictFlag, Bool.not_true, Bool.false_eq_true, if_false, evalHop, hlast]
    refine ⟨_, rfl, hruri, ?_⟩
    unfold replaceLast
    split_ifs with htext
    · exact .inr ⟨front, last, by rw [hentries], hfront, htext⟩
    · exact .inl rfl
    · exact .inl (mapM_none _)

theorem length_routeField_last (xs : List Entry) (a b : Entry) :
    (routeField (xs ++ [a])).length + b.text.length = (routeField (xs ++ [b])).length + a.text.length := by
  cases xs with
  | nil =>
    simp [routeField]
    omega
  | cons x xs =>
    rw [length_routeField (cons_ne_nil _ _), length_routeField (cons_ne_nil _ _)]
    omega

theorem length_ackText (q : AckReq) (via toHdr) (r r' : Routing Entry) (h : r.requestUri.uri = r'.requestUri.uri) :
    (q.text r via toHdr).length + (routeField r'.routes).length =
      (q.text r' via toHdr).length + (routeField r.routes).length := by
  unfold AckReq.text
  simp only [flatten_cons, flatten_nil, length_append, append_nil, h]
  omega

/-! A dialog with a strict router: what it sent, and a reply with a new target. -/

def strictInvite (tag : String) : SentInvite where
  ruri := ⟨10, bytes "sip:s"⟩
  toTag := bytes tag
  hdrs := [⟨.route, some [⟨⟨20, bytes "<sip:b@old>"⟩, ⟨21, bytes "sip:b@old"⟩⟩]⟩]
  looseFlag := false
  strictFlag := true
  dstIp := ⟨.inet, []⟩
  dstPort := 5060

def smallReply : Reply where
  hdrs := [⟨.recordRoute, some [looseRoute, ⟨⟨200, bytes "<sip:s>"⟩, ⟨201, bytes "sip:s"⟩⟩]⟩]
  toHdr := some (bytes "To: <sip:b>;tag=r\r\n")
  contact := some ⟨300, bytes "sip:b@new"⟩
  apart := by decide +kernel

def smallEnv : Env := ⟨smallUri, fun _ => none, fun _ => some (bytes "Via: SIP/2.0/UDP a\r\n")⟩

def smallAck : AckReq := ⟨bytes "From: <sip:a>\r\n", bytes "Call-ID: c\r\n", bytes "CSeq: 1", none, none, none⟩

/-- The ACK for a 2xx is routed as it should be, and is as long as it is said to be. -/
def Env.Routed (env : Env) (q : AckReq) (rpl : Reply) (inv : SentInvite) (routing : Routing Entry)
    (via toHdr : List UInt8) :
    Prop :=
  ∃ b, env.buildDlgAck q rpl inv = some b ∧ b.nextHop.text = routing.nextHop.uri ∧
    b.text = q.text routing via toHdr ∧ b.len = b.text.length

/-- Outside of a dialog it always is, and within one if and only if the route set does not begin
with a strict router. -/
theorem ack_routed (env : Env) (q : AckReq) (rpl : Reply) (inv : SentInvite) {rs : List Entry} {contact : Str}
    {toHdr via : List UInt8} (hrs : RouteSet env.parseUri rpl inv rs) (hto : rpl.toHdr = some toHdr)
    (hc : rpl.contact = some contact)
    (hvia : env.via (Routing.of (Entry.loose env.parseUri) (.ofUri contact.text) rs).nextHop.uri = some via)
    (hlen : (q.text (.of (Entry.loose env.parseUri) (.ofUri contact.text) rs) via toHdr).length < 4294967296) :
    env.Routed q rpl inv (.of (Entry.loose env.parseUri) (.ofUri contact.text) rs) via toHdr ↔
      (inv.toTag ≠ [] → ∀ e ∈ rs.head?, e.loose env.parseUri = true) := by
  constructor
  · rintro ⟨b, hb, -, htext, -⟩ hinv e he
    by_contra hstrict
    rw [Bool.not_eq_true] at hstrict
    cases hrs with
    | recorded hinv' => exact hinv hinv'
    | dialog _ hsent =>
      obtain ⟨rs, rfl⟩ : ∃ rest, rs = e :: rest := head?_eq_some_iff.1 he
      obtain ⟨list, heval, hruri, hlist⟩ := eval_strict env rpl contact hinv hsent hstrict
      simp only [Routing.of, hstrict, Bool.false_eq_true, if_false] at hvia htext
      unfold Env.buildDlgAck at hb
      rw [hto, bind_some, hc, bind_some, heval, bind_some, hruri, hvia, bind_some] at hb
      rcases hlist with hnone | ⟨front, last, rfl, hfront, hlast⟩
      · rw [hnone] at hb
        cases hb
      · -- the entries are longer than they should be
        rw [mapM_some] at hb
        obtain rfl := some.inj hb
        generalize (Eval.mk ((front ++ [last]).map some) inv.ruri inv.ruri).cont contact = cont at htext
        have hprint := print_eq q (Routing.mk e e (ackRoutes (front ++ [last]) cont)) via toHdr rfl
        have hlength := length_ackText q via toHdr (Routing.mk e e (ackRoutes (front ++ [last]) cont))
          (Routing.mk e e (rs ++ [.ofUri contact.text])) rfl
        rw [← hprint] at hlength
        rw [show q.print e.uri via toHdr (front ++ [last]) cont = _ from htext] at hlength
        have hroutes := length_routeField_last rs last.entry (.ofUri contact.text)
        have hname : last.entry.text.length = contact.text.length := congrArg List.length hlast
        have huri := length_ofUri contact.text
        cases cont with
        | none =>
          simp only [ackRoutes, map_append, map_cons, map_nil, hfront, map_none, toList_none, append_nil] at hlength
          omega
        | some c =>
          simp only [ackRoutes, map_append, map_cons, map_nil, hfront, map_some, toList_some] at hlength
          have hc := length_ofUri c.text
          rw [length_routeField (show rs ++ [last.entry] ≠ [] by simp)] at hlength
          omega
  · intro hloose
    have heval : ∃ e, env.evalUacRouting rpl inv contact = some e ∧
        e.Follows contact (.of (Entry.loose env.parseUri) (.ofUri contact.text) rs) := by
      cases hrs with
      | recorded hinv hparsed huri => exact eval_recorded env hinv hc hparsed huri
      | dialog hinv hsent => exact eval_dialog env hinv hsent (hloose hinv)
    unfold Env.Routed
    generalize Routing.of (Entry.loose env.parseUri) (.ofUri contact.text) rs = routing at *
    obtain ⟨e, he, hfollows⟩ := heval
    obtain ⟨list, hlist, hroutes⟩ := hfollows.routes
    have htext := print_eq q routing via toHdr hroutes
    rw [← hfollows.ruri] at htext
    have hlength := length_eq q e.ruri.text via toHdr list (e.cont contact)
    rw [htext, Nat.mod_eq_of_lt hlen, ← htext] at hlength
    unfold Env.buildDlgAck
    rw [hto, bind_some, hc, bind_some, he, bind_some, hfollows.nextHop, hvia, bind_some, hlist, mapM_some]
    exact ⟨_, rfl, hfollows.nextHop, htext, hlength⟩

theorem ack_routed_reply : smallEnv.Routed smallAck smallReply (strictInvite "")
    (.of (Entry.loose smallUri) (.ofUri (bytes "sip:b@new"))
      ((entries .recordRoute smallReply.hdrs).reverse.map Rr.entry))
    (bytes "Via: SIP/2.0/UDP a\r\n") (bytes "To: <sip:b>;tag=r\r\n") := by
  have hparsed : Parsed .recordRoute smallReply.hdrs := by
    intro h hh _
    cases mem_singleton.1 hh
    rfl
  have hcontact : smallReply.contact = some ⟨300, bytes "sip:b@new"⟩ := rfl
  exact (ack_routed smallEnv smallAck smallReply (strictInvite "") (.recorded rfl hparsed fun _ _ => rfl) rfl
    hcontact rfl (by decide +kernel)).2 fun h => absurd rfl h

/-- The INVITE was sent along the one strict router, and the 2xx has another Contact: the entry that
is put in the place of the old target points to no route, and nothing is built. -/
theorem ack_target_lost :
    SentAlong smallUri [⟨bytes "<sip:s>", bytes "sip:s"⟩] (bytes "sip:b@old") (strictInvite "r") ∧
    smallEnv.evalUacRouting smallReply (strictInvite "r") ⟨300, bytes "sip:b@new"⟩ =
      some ⟨[none], ⟨10, bytes "sip:s"⟩, ⟨10, bytes "sip:s"⟩⟩ ∧
    (smallEnv.buildDlgAck smallAck smallReply (strictInvite "r")).isSome = false := by
  refine ⟨⟨?_, by decide +kernel, by decide +kernel, by decide +kernel, by decide +kernel⟩,
    by decide +kernel, by decide +kernel⟩
  intro h hh _
  cases mem_singleton.1 hh
  rfl

end SipRouter.Dlg
