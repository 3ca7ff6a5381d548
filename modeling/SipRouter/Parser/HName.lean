import SipRouter.Msg.Lump
import SipRouter.Tcp.Req

/-!
# Names of header fields (`parse_hname2.c`)

The parser reads a name four bytes at a time. Its nested switches are a tree over the name
in lower case, and an entry of the table here is a path of that tree. A name that leaves
the tree is an unknown one and ends at the next colon; what was compared until then has no
colon, so it makes no difference where the search for it begins.

The functions take the bytes from a position to the end of the message, and say how many
they used.
-/

namespace SipRouter.Parser

open Msg Tcp

/-- `enum _hdr_types_t`, without the error. -/
inductive HdrType where
  | other | via | via2 | to_ | from_ | cseq | callid | contact | maxForwards | route | recordRoute
  | contentType | contentLength | authorization | expires | proxyAuth | supported | require
  | proxyRequire | unsupported | allow | event | accept | acceptLanguage | organization | priority
  | subject | userAgent | server | acceptDisposition | contentDisposition | diversion | rpid | referTo
  | sipIfMatch | sessionExpires | minSe | subscriptionState | acceptContact | allowEvents
  | contentEncoding | referredBy | rejectContact | requestDisposition | wwwAuthenticate
  | proxyAuthenticate | date | identity | identityInfo | retryAfter | eoh
  deriving DecidableEq, Repr

/-- `hdr_flags_t`. -/
abbrev HdrFlags := BitVec 64

/-- `HDR_T2F`. -/
def HdrType.flag (type : HdrType) : HdrFlags := if type = .eoh then BitVec.allOnes 64 else 1#64 <<< type.ctorIdx

/-- `LOWER_BYTE`. -/
def lower (ch : UInt8) : UInt8 := ch ||| 0x20

/-- What is done when a name was recognised: the colon is part of it, or it is searched for, maybe a
byte before the end. -/
inductive NameEnd where
  | ret (len : Nat)
  | dcEnd (back : Nat)

/-- The names, in lower case. -/
def names : List (String × HdrType × NameEnd) :=
  [("via:", .via, .ret 3), ("via ", .via, .dcEnd 0), ("from", .from_, .dcEnd 0),
    ("to: ", .to_, .ret 2), ("cseq", .cseq, .dcEnd 0),
    ("call-id:", .callid, .ret 7), ("call-id ", .callid, .dcEnd 0), ("contact:", .contact, .ret 7),
    ("contact ", .contact, .dcEnd 0),
    ("content-length: ", .contentLength, .ret 14), ("content-length", .contentLength, .dcEnd 0),
    ("content-type", .contentType, .dcEnd 0), ("content-disposition:", .contentDisposition, .ret 19),
    ("content-disposition ", .contentDisposition, .dcEnd 0), ("content-encoding", .contentEncoding, .dcEnd 0),
    ("route", .route, .dcEnd 0), ("max-forwards", .maxForwards, .dcEnd 0), ("record-route", .recordRoute, .dcEnd 0),
    ("authorization", .authorization, .dcEnd 0), ("supported", .supported, .dcEnd 0), ("expires:", .expires, .ret 7),
    ("expires ", .expires, .dcEnd 0), ("proxy-authorization:", .proxyAuth, .ret 19),
    ("proxy-authorization ", .proxyAuth, .dcEnd 0),
    ("proxy-authenticate:", .proxyAuthenticate, .ret 18), ("proxy-authenticate ", .proxyAuthenticate, .dcEnd 0),
    ("proxy-require", .proxyRequire, .dcEnd 0), ("allow-events", .allowEvents, .dcEnd 0), ("allow", .allow, .dcEnd 0),
    ("unsupported:", .unsupported, .ret 11), ("unsupported ", .unsupported, .dcEnd 0), ("event", .event, .dcEnd 0),
    ("sip-if-match", .sipIfMatch, .dcEnd 0), ("accept-language:", .acceptLanguage, .ret 15),
    ("accept-language ", .acceptLanguage, .dcEnd 0), ("accept-disposition", .acceptDisposition, .dcEnd 0),
    ("accept-contact", .acceptContact, .dcEnd 0), ("accept", .accept, .dcEnd 0),
    ("organization", .organization, .dcEnd 0),
    ("priority", .priority, .dcEnd 0), ("subject:", .subject, .ret 7), ("subject ", .subject, .dcEnd 0),
    ("subscription-state", .subscriptionState, .dcEnd 0), ("user-agent", .userAgent, .dcEnd 0),
    ("server", .server, .dcEnd 0),
    ("diversion", .diversion, .dcEnd 0), ("remote-party-id:", .rpid, .ret 15), ("remote-party-id ", .rpid, .dcEnd 0),
    ("refer-to", .referTo, .dcEnd 0), ("referred-by:", .referredBy, .ret 11), ("referred-by ", .referredBy, .dcEnd 0),
    ("session-expires:", .sessionExpires, .ret 15), ("session-expires ", .sessionExpires, .dcEnd 0),
    ("reject-contact", .rejectContact, .dcEnd 0), ("min-se", .minSe, .dcEnd 0), ("require:", .require, .ret 7),
    ("require ", .require, .dcEnd 0), ("request-disposition:", .requestDisposition, .ret 19),
    ("request-disposition ", .requestDisposition, .dcEnd 0), ("www-authenticate", .wwwAuthenticate, .dcEnd 0),
    ("date", .date, .dcEnd 0), ("identity:", .identity, .dcEnd 1), ("identity ", .identity, .dcEnd 1),
    ("identity-info", .identityInfo, .dcEnd 0), ("retry-after:", .retryAfter, .ret 11),
    ("retry-after ", .retryAfter, .dcEnd 0)]

/-- The names of one letter, without the one of `To`. -/
def compactNames : List (Char × HdrType) :=
  [('v', .via), ('f', .from_), ('i', .callid), ('m', .contact), ('l', .contentLength),
    ('k', .supported), ('c', .contentType),
    ('o', .event), ('x', .sessionExpires), ('a', .acceptContact), ('u', .allowEvents),
    ('e', .contentEncoding), ('b', .referredBy),
    ('j', .rejectContact), ('d', .requestDisposition), ('s', .subject), ('r', .referTo),
    ('y', .identity), ('n', .identityInfo)]

/-- A name that was read: its type, its length, and the bytes up to what follows the colon. -/
structure HName where
  type : HdrType
  len : Nat
  used : Nat
  deriving DecidableEq

/-- Where the search for the colon goes on: `goto dc_end`, `goto other`, or it was found. -/
inductive Found where
  | ret (name : HName)
  | dcEnd (type : HdrType) (p : Nat)
  | other
  deriving DecidableEq

/-- An entry of the table. -/
def ofName (s : List UInt8) (e : String × HdrType × NameEnd) : Option Found :=
  if (bytes e.1).isPrefixOf (s.map lower) then
    match e.2.2 with
    | .ret len => some (.ret ⟨e.2.1, len, (bytes e.1).length⟩)
    | .dcEnd back => some (.dcEnd e.2.1 ((bytes e.1).length - back))
  else none

/-- The names of one letter: the second byte is a blank or the colon. -/
def ofCompact (s : List UInt8) : Found :=
  match s with
  | ch :: next :: _ =>
    if lower ch = 't'.toUInt8 then
      if lower next = 'o'.toUInt8 ∨ lower next = ' '.toUInt8 then .dcEnd .to_ 2
      else if lower next = ':'.toUInt8 then .ret ⟨.to_, 1, 2⟩
      else .other
    else
      match compactNames.find? fun e => lower ch = e.1.toUInt8 with
      | some (_, type) =>
        if next = ' '.toUInt8 then .dcEnd type 2 else if next = ':'.toUInt8 then .ret ⟨type, 1, 2⟩ else .other
      | none => .other
  | _ => .other

/-- The label `other`: the name ends at the next colon. -/
def otherName (s : List UInt8) (p : Nat) : Option HName :=
  ((s.drop p).findIdx? fun ch => ch = ':'.toUInt8).map fun i => ⟨.other, p + i, p + i + 1⟩

/-- The label `dc_end`: blanks may stand in front of the colon. -/
def dcEnd (s : List UInt8) (type : HdrType) (p : Nat) : Option HName :=
  let p := p + ((s.drop p).takeWhile isBlank).length
  if s[p]? = some ':'.toUInt8 then some ⟨type, p, p + 1⟩ else otherName s p

/-- `parse_hname2`; `none` is for `HDR_ERROR_T`. -/
def parseHname2 (s : List UInt8) : Option HName :=
  if s.length < 4 then none
  else
    match (names.findSome? (ofName s)).getD (ofCompact s) with
    | .ret name => some name
    | .dcEnd type p => dcEnd s type p
    | .other => otherName s 0

end SipRouter.Parser
