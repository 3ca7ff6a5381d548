import SipRouter.Msg.Lumps
import SipRouter.Tcp.Lines

/-!
# Building a message to send (`msg_translator.c`)

`build_req_buf_from_sip_req` and `build_res_buf_from_sip_res` make the message that is sent on from the
one that was received: they correct the Content-Length, add or remove a Via, compute the length of
the new message and then write it. Lumps do all of this, except for the Request-URI.

What other functions make (the text of the Via, of its parameters, the socket to send from) is given.
An allocation that fails ends the build without a message, and is left out.
-/

namespace SipRouter.Msg

open Lib

def crlf : List UInt8 := [Tcp.cr, Tcp.lf]

/-! ## Content-Length -/

/-- `int2str`: the digits of a number, from the last. -/
def int2strFrom : Nat → Nat → List UInt8 → List UInt8
  | 0, _, digits => digits
  | i + 1, l, digits =>
    let digits := (48 + l % 10).toUInt8 :: digits
    if l / 10 = 0 then digits else int2strFrom i (l / 10) digits

def int2str (l : Nat) : List UInt8 := int2strFrom 20 l []

/-- The number of a Content-Length value. -/
def clenNumber (value : List UInt8) : Nat := Tcp.decimal ((value.dropWhile Tcp.isBlank).takeWhile Tcp.isDigit)

section Numbers

open List Bool

theorem int2strFrom_spec {i l} (h : l < 10 ^ i) (digits) :
    ∃ ds, int2strFrom i l digits = ds ++ digits ∧ (∀ ch ∈ ds, Tcp.isDigit ch = true) ∧ Tcp.decimal ds = l := by
  induction i generalizing l digits with
  | zero =>
    obtain rfl : l = 0 := by omega
    exact ⟨[], rfl, nofun, rfl⟩
  | succ i ih =>
    have hdigit : ∀ d, d < 10 → Tcp.isDigit (48 + d).toUInt8 = true ∧ (48 + d).toUInt8.toNat - 48 = d := by decide
    have hmod := hdigit (l % 10) (Nat.mod_lt l (by decide))
    simp only [int2strFrom]
    split_ifs with hlast
    · refine ⟨[(48 + l % 10).toUInt8], rfl, forall_mem_singleton.2 hmod.1, ?_⟩
      have hval : Tcp.decimal [(48 + l % 10).toUInt8] = (48 + l % 10).toUInt8.toNat - 48 := by
        simp [Tcp.decimal, Tcp.decimalFrom]
      rw [hval, hmod.2]
      omega
    · have hlt : l / 10 < 10 ^ i := by
        rw [Nat.pow_succ] at h
        omega
      obtain ⟨ds, heq, hall, hval⟩ := ih hlt ((48 + l % 10).toUInt8 :: digits)
      refine ⟨ds ++ [(48 + l % 10).toUInt8], ?_, ?_, ?_⟩
      · rw [heq, append_assoc, singleton_append]
      · exact forall_mem_append.2 ⟨hall, forall_mem_singleton.2 hmod.1⟩
      · rw [Tcp.decimal_append, hval, hmod.2]
        omega

/-- A number that was written is read. -/
theorem clenNumber_int2str {n} (h : n < 10 ^ 20) : clenNumber (int2str n) = n := by
  obtain ⟨ds, heq, hall, hval⟩ := int2strFrom_spec h []
  have hdrop : ds.dropWhile Tcp.isBlank = ds := by
    cases ds with
    | nil => rfl
    | cons ch ds =>
      have hch := hall ch (mem_cons_self ..)
      have hblank : Tcp.isBlank ch = false := by
        simp only [Tcp.isDigit, and_eq_true, decide_eq_true_eq, UInt8.le_iff_toNat_le] at hch
        have h48 : (48 : UInt8).toNat = 48 := rfl
        simp only [Tcp.isBlank, or_eq_false_iff, decide_eq_false_iff_not]
        constructor
        all_goals
          rintro rfl
          exact absurd hch.1 (by decide)
      rw [dropWhile_cons_of_neg (by simp [hblank])]
  rw [clenNumber, int2str, heq, append_nil, hdrop, takeWhile_eq_self_iff.2 hall, hval]

end Numbers

/-- The value of the header, as `parse_content_length` reads it in an `int`. -/
def ClenField.parsed (buf : List UInt8) (f : ClenField) : Int :=
  Tcp.toInt32 (clenNumber (Edit.part buf f.body (f.body + f.bodyLen)))

namespace SipMsg

/-- `unparsed` when the headers have been parsed, `none` on an error. -/
def unparsed (msg : SipMsg) : Option Nat :=
  match msg.headersEnd with
  | .bad => none
  | .missing => some msg.buf.length
  | .found e => some e

/-- `get_body`: behind the line that ends the headers. -/
def getBody (msg : SipMsg) : Option Nat :=
  msg.unparsed.bind fun unparsed =>
    if (msg.buf.drop unparsed).take 2 = crlf then some (unparsed + 2)
    else if msg.buf[unparsed]? = some Tcp.lf ∨ msg.buf[unparsed]? = some Tcp.cr then some (unparsed + 1)
    else none

/-- The length of the body behind its lumps. -/
def compClen (body : Nat) (bodyDelta : Int) (msg : SipMsg) : Int := msg.buf.length - body + bodyDelta

end SipMsg

/-- One text that hangs on a lump. -/
def LumpTree.text (value : List UInt8) : LumpTree := .lump (.add value) .none .none

/-- `clen_builder`. -/
def clenBuilder (msg : SipMsg) (diff : Int) (bodyOnly : Bool) : Option (List UInt8) :=
  msg.getBody.map fun body =>
    let value := int2str (msg.compClen body diff).toNat
    if bodyOnly then value else bytes "Content-Length: " ++ value ++ crlf

/-- The value of the header is replaced. -/
def replaceClen (f : ClenField) (bodyDelta : Int) (msg : SipMsg) : Option SipMsg :=
  (clenBuilder msg bodyDelta true).bind fun clen => msg.delLump f.body f.bodyLen .none (.text clen)

/-- A header is added in front of the line that ends the headers. -/
def addClen (bodyDelta : Int) (msg : SipMsg) : Option SipMsg :=
  msg.unparsed.bind fun unparsed =>
    (clenBuilder msg bodyDelta false).bind fun clen => msg.anchorLump unparsed .none (.text clen)

/-- `adjust_clen`, `none` on an error. All its offsets are in the headers, so it does not matter if `eoh` is known. -/
def adjustClen (bodyDelta : Int) (proto : Proto) (msg : SipMsg) : Option SipMsg :=
  if proto = .tcp ∨ proto = .tls then
    match msg.contentLength with
    | none => addClen bodyDelta msg
    | some f =>
      msg.getBody.bind fun body =>
        if msg.compClen body bodyDelta ≠ f.parsed msg.buf then replaceClen f bodyDelta msg else some msg
  else if bodyDelta ≠ 0 then
    match msg.contentLength with
    | none => if proto ≠ .udp then addClen bodyDelta msg else msg.unparsed.map fun _ => msg
    | some f => replaceClen f bodyDelta msg
  else some msg

/-! ## Requests -/

/-- The first Via: where its header begins, where its parameters, its host and its port are, and its `received` and
`rport` parameters with their sizes. -/
structure ViaBody where
  hdr : Nat
  hdrEnd : Nat
  params : Option Nat
  hostEnd : Nat
  portStrLen : Option Nat
  received : Option (Nat × Nat)
  rport : Option (Nat × Nat)

/-- Where a parameter may be added: behind the host and the port. -/
def ViaBody.insertParam (via : ViaBody) : Nat :=
  match via.params with
  | some params => params - 1
  | none => via.hostEnd + (via.portStrLen.elim 0 fun len => len + 1)

/-- A request, with the offset and the length of its URI and the URI to be sent instead. The flags
are those of the message and the global ones. -/
structure SipReq extends SipMsg where
  via1 : ViaBody
  uri : Nat × Nat
  newUri : Option (List UInt8)
  forceRport : Bool
  mtuTcpFb : Bool
  mtuTlsFb : Bool
  mtuSctpFb : Bool

/-- What other functions and the configuration give: `create_via_hf`, `received_builder` if
`received_test` holds, `rport_builder`, `get_send_socket`, `udp_mtu` and the protocols that are
disabled. -/
structure ReqCore where
  createViaHf : DestInfo → List UInt8
  received : Option (List UInt8)
  rport : List UInt8
  getSendSocket : Proto → Option SocketInfo
  udpMtu : Nat
  tcpDisable : Bool
  tlsDisable : Bool
  sctpDisable : Bool

namespace SipReq

/-- A parameter of the first Via is replaced, or added. -/
def putViaParam (old : Option (Nat × Nat)) (text : LumpTree) (req : SipReq) (msg : SipMsg) : Option SipMsg :=
  match old with
  | some (start, size) => msg.delLump (start - 1) (size + 1) .none text
  | none => msg.anchorLump req.via1.insertParam .none text

/-- The parameters `received` and `rport`. If neither was there, both hang on one anchor, the last added first. -/
def putViaParams (core : ReqCore) (req : SipReq) (msg : SipMsg) : Option SipMsg :=
  let needRport := req.forceRport || req.via1.rport.isSome
  match core.received with
  | none => if needRport then req.putViaParam req.via1.rport (.text core.rport) msg else some msg
  | some received =>
    if needRport && req.via1.rport.isNone then
      req.putViaParam req.via1.received (.lump (.add core.rport) .none (.text received)) msg
    else
      (req.putViaParam req.via1.received (.text received) msg).bind fun msg =>
        if needRport then req.putViaParam req.via1.rport (.text core.rport) msg else some msg

/-- The protocol and the socket instead of UDP for a message that is too long for it. -/
def mtuFallback (core : ReqCore) (req : SipReq) (newLen : Int) (sendInfo : DestInfo) : Option DestInfo :=
  if sendInfo.proto = .udp ∧ core.udpMtu ≠ 0 ∧ (req.mtuTcpFb || req.mtuTlsFb || req.mtuSctpFb) ∧
      (core.udpMtu : Int) < newLen then
    let fallBack (disable fb : Bool) (proto : Proto) : Option DestInfo :=
      if !disable && fb then (core.getSendSocket proto).map fun sock => ⟨proto, some sock⟩ else none
    (fallBack core.tcpDisable req.mtuTcpFb .tcp).or ((fallBack core.tlsDisable req.mtuTlsFb .tls).or
      (fallBack core.sctpDisable req.mtuSctpFb .sctp))
  else none

end SipReq

/-- A request before its Via is put in: its lumps with their overlaps fixed, the length of the new
message with the Via, the text of the Via, and the destination. -/
structure PreparedReq where
  msg : SipMsg
  newLen : Int
  line : List UInt8
  sendInfo : DestInfo
  rand : Rand

/-- The first part of `build_req_buf_from_sip_req`. -/
def prepareReq (core : ReqCore) (req : SipReq) (sendInfo : DestInfo) (rand : Rand) : Option PreparedReq :=
  let body := lumpsLen req.toMsgData (some sendInfo) req.bodyLumps rand
  let msg := { req.toSipMsg with bodyLumps := body.2.1 }
  (adjustClen body.1 sendInfo.proto msg).bind fun msg =>
    (req.putViaParams core msg).map fun msg =>
      let line := core.createViaHf sendInfo
      let headers := lumpsLen msg.toMsgData (some sendInfo) msg.addRm body.2.2
      let newLen := msg.buf.length + body.1 + headers.1 + line.length
      let msg := { msg with addRm := headers.2.1 }
      match req.mtuFallback core newLen sendInfo with
      | none => ⟨msg, newLen, line, sendInfo, headers.2.2⟩
      | some di => ⟨msg, newLen - line.length + (core.createViaHf di).length, core.createViaHf di, di, headers.2.2⟩

/-- A message that was built: the length that was computed, what was written, and where it is sent to. -/
structure BuiltReq where
  newLen : Int
  written : List UInt8
  sendInfo : DestInfo

/-- `build_req_buf_from_sip_req`. The lumps are applied for the destination as it was. -/
def buildReqBufFromSipReq (core : ReqCore) (req : SipReq) (sendInfo : DestInfo) (rand : Rand) : Option BuiltReq :=
  (prepareReq core req sendInfo rand).bind fun p =>
    (p.msg.anchorLump req.via1.hdr (.text p.line) .none).map fun msg =>
      match req.newUri with
      | none =>
        ⟨p.newLen, (writeLumps msg.toMsgData (some sendInfo) 0 msg.addRm msg.bodyLumps p.rand).1, p.sendInfo⟩
      | some uri =>
        ⟨p.newLen - req.uri.2 + uri.length, Edit.part msg.buf 0 req.uri.1 ++ uri ++
            (writeLumps msg.toMsgData (some sendInfo) (req.uri.1 + req.uri.2) msg.addRm msg.bodyLumps p.rand).1,
          p.sendInfo⟩

/-! ## Replies -/

/-- A reply: the first Via header, the first Via in it if there are more, and the protocol of the second Via. -/
structure SipRes extends SipMsg where
  via1Next : Bool
  via1Bsize : Nat
  hVia1Name : Nat
  hVia1Len : Nat
  hVia1Body : Nat
  via2Proto : Option Proto

/-- The offset and the length of what is removed. -/
def SipRes.viaRange (res : SipRes) : Nat × Nat :=
  if res.via1Next then (res.hVia1Body, res.via1Bsize) else (res.hVia1Name, res.hVia1Len)

structure BuiltRes where
  newLen : Int
  written : List UInt8

/-- A reply before it is written. -/
structure PreparedRes where
  msg : SipMsg
  newLen : Int
  rand : Rand

/-- The first part of `build_res_buf_from_sip_res`. -/
def prepareRes (res : SipRes) (rand : Rand) : Option PreparedRes :=
  let body := lumpsLen res.toMsgData none res.bodyLumps rand
  let msg := { res.toSipMsg with bodyLumps := body.2.1 }
  (adjustClen body.1 (res.via2Proto.getD .udp) msg).bind fun msg =>
    (msg.delLump res.viaRange.1 res.viaRange.2 .none .none).map fun msg =>
      let headers := lumpsLen msg.toMsgData none msg.addRm body.2.2
      ⟨{ msg with addRm := headers.2.1 }, msg.buf.length + body.1 + headers.1, headers.2.2⟩

/-- `build_res_buf_from_sip_res`. -/
def buildResBufFromSipRes (res : SipRes) (rand : Rand) : Option BuiltRes :=
  (prepareRes res rand).map fun p =>
    ⟨p.newLen, (writeLumps p.msg.toMsgData none 0 p.msg.addRm p.msg.bodyLumps p.rand).1⟩

end SipRouter.Msg
