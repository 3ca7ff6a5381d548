import SipRouter.Lib.Loop

/-!
# The TCP stream reader (`tcp_read.c`)

A connection keeps one `TcpReq`: the bytes read and not yet handed up, and the
state of a resumable scanner over them. `tcpReadHeaders` reads from the socket
if everything was scanned, and scans until it needs more data, finds a complete
unit or an error; `tcpReadReq` hands complete units up, shifts the buffer and
goes on with what is left in it.

Pointers into the buffer are offsets from `buf`. `pos` is the number of bytes
held. `parsed` is an integer: a negative `bytes_to_go` moves it back.
-/

namespace SipRouter.Tcp

open Lib

/-- `enum tcp_req_errors`. -/
inductive TcpReqErrors where
  | init | ok | readError | overrun | badLen
  deriving DecidableEq, Repr

/-- `enum tcp_req_states`. -/
inductive TcpReqStates where
  | hSkipEmpty | hSkipEmptyCrFound | hSkipEmptyCrlfFound | hSkipEmptyCrlfcrFound
  | hSkip | hLf | hLfcr | hBody | hStartws
  | hContLen1 | hContLen2 | hContLen3 | hContLen4 | hContLen5 | hContLen6 | hContLen7
  | hContLen8 | hContLen9 | hContLen10 | hContLen11 | hContLen12 | hContLen13
  | hLColon | hContLenBody | hContLenBodyParse
  | hStunMsg | hStunReadBody | hStunFp | hStunEnd | hPingCrlf
  deriving DecidableEq, Repr

/-- The configuration the reader looks at: `tcp.crlf_ping` and `stun_allow_stun`. -/
structure TcpCfg where
  crlfPing : Bool
  allowStun : Bool
  deriving DecidableEq, Repr

/-- `struct tcp_req`; `buf` holds the bytes from `buf` to `pos`, and the two
flags are `F_TCP_REQ_HAS_CLEN` and `F_TCP_REQ_COMPLETE`. -/
structure TcpReq where
  buf : List UInt8
  bSize : Nat
  start : Nat
  parsed : Int
  body : Nat
  contentLen : Int
  bytesToGo : Int
  hasClen : Bool
  complete : Bool
  error : TcpReqErrors
  state : TcpReqStates
  deriving DecidableEq, Repr

/-- `init_tcp_req` with a buffer of `bSize + 1` bytes. -/
def initTcpReq (bSize : Nat) : TcpReq where
  buf := []
  bSize := bSize
  start := 0
  parsed := 0
  body := 0
  contentLen := 0
  bytesToGo := 0
  hasClen := false
  complete := false
  error := .ok
  state := .hSkipEmpty

namespace TcpReq

def pos (r : TcpReq) : Nat := r.buf.length

/-- The byte at offset `p`. -/
def byteAt (r : TcpReq) (p : Nat) : UInt8 := r.buf.getD p 0

end TcpReq

/-! ## Characters -/

def lf : UInt8 := 10
def cr : UInt8 := 13

def isBlank (ch : UInt8) : Bool := ch = 32 || ch = 9

/-- One of the two letters a `case` of the scanner lists. -/
def isCh (upper lower : Char) (ch : UInt8) : Bool := ch = upper.toUInt8 || ch = lower.toUInt8

def isDigit (ch : UInt8) : Bool := 48 ≤ ch && ch ≤ 57

/-- `*p-'0'`. -/
def digit (ch : UInt8) : Int := ch.toNat - 48

/-- A value stored in a 32-bit `int`. -/
def toInt32 (n : Int) : Int := Int.bmod n 4294967296

/-! ## One round of the scanner -/

/-- How a round of the scanner ends: at the loop test, or by `goto skip`. -/
inductive Scan where
  | next (r : TcpReq) (p : Nat)
  | skip (r : TcpReq) (p : Int)
  deriving DecidableEq, Repr

/-- `crlf_default_skip_case`. -/
def crlfDefaultSkipCase (ch : UInt8) : TcpReqStates := if ch = lf then .hLf else .hSkip

/-- `content_len_beg_case`; `none` if it has no case for the character. -/
def contentLenBegCase (hasClen : Bool) (ch : UInt8) : Option TcpReqStates :=
  if isBlank ch then some (if hasClen then .hSkip else .hStartws)
  else if isCh 'C' 'c' ch then some (if hasClen then .hSkip else .hContLen1)
  else if isCh 'L' 'l' ch then some (if hasClen then .hSkip else .hLColon)
  else none

/-- `change_state`. -/
def changeState (upper lower : Char) (newstate : TcpReqStates) (ch : UInt8) : TcpReqStates :=
  if isCh upper lower ch then newstate else crlfDefaultSkipCase ch

/-- The end of the headers, found at offset `p`. -/
def endOfHeaders (r : TcpReq) (p : Nat) : Scan :=
  let r := { r with state := .hBody }
  if r.hasClen then
    let r := { r with body := p + 1, bytesToGo := r.contentLen }
    if r.bytesToGo = 0 then .skip { r with complete := true } (p + 1) else .next r (p + 1)
  else .next { r with error := .badLen } (p + 1)

/-- The `H_SKIP_EMPTY` state on the character at offset `p`. -/
def skipEmptyChar (cfg : TcpCfg) (r : TcpReq) (p : Nat) (ch : UInt8) : Scan :=
  if ch = lf then .next r (p + 1)
  else if ch = cr then
    .next (if cfg.crlfPing then { r with state := .hSkipEmptyCrFound, start := p } else r) (p + 1)
  else if isBlank ch then .next r (p + 1)
  else if isCh 'C' 'c' ch then .next { r with state := .hContLen1, start := p } (p + 1)
  else if isCh 'L' 'l' ch then .next { r with state := .hLColon, start := p } (p + 1)
  else if cfg.allowStun && ch = 0 then
    .next { r with state := .hStunMsg, body := p, contentLen := 0, start := p } (p + 1)
  else .next { r with state := .hSkip, start := p } (p + 1)

/-- The states that look at one character, `ch`, at offset `p`. -/
def headerChar (cfg : TcpCfg) (r : TcpReq) (p : Nat) (ch : UInt8) : Scan :=
  let goTo (s : TcpReqStates) : Scan := .next { r with state := s } (p + 1)
  match r.state with
  | .hLf =>
    if ch = cr then goTo .hLfcr
    else if ch = lf then endOfHeaders r p
    else goTo ((contentLenBegCase r.hasClen ch).getD .hSkip)
  | .hLfcr => if ch = lf then endOfHeaders r p else goTo .hSkip
  | .hStartws => goTo ((contentLenBegCase r.hasClen ch).getD (crlfDefaultSkipCase ch))
  | .hSkipEmpty => skipEmptyChar cfg r p ch
  | .hSkipEmptyCrFound =>
    if ch = lf then goTo .hSkipEmptyCrlfFound else .next { r with state := .hSkipEmpty } p
  | .hSkipEmptyCrlfFound =>
    if ch = cr then goTo .hSkipEmptyCrlfcrFound else .next { r with state := .hSkipEmpty } p
  | .hSkipEmptyCrlfcrFound =>
    if ch = lf then
      .skip { r with state := .hPingCrlf, hasClen := true, complete := true } (p + 1)
    else .next { r with state := .hSkipEmpty } p
  | .hContLen1 => goTo (changeState 'O' 'o' .hContLen2 ch)
  | .hContLen2 => goTo (changeState 'N' 'n' .hContLen3 ch)
  | .hContLen3 => goTo (changeState 'T' 't' .hContLen4 ch)
  | .hContLen4 => goTo (changeState 'E' 'e' .hContLen5 ch)
  | .hContLen5 => goTo (changeState 'N' 'n' .hContLen6 ch)
  | .hContLen6 => goTo (changeState 'T' 't' .hContLen7 ch)
  | .hContLen7 => goTo (changeState '-' '_' .hContLen8 ch)
  | .hContLen8 => goTo (changeState 'L' 'l' .hContLen9 ch)
  | .hContLen9 => goTo (changeState 'E' 'e' .hContLen10 ch)
  | .hContLen10 => goTo (changeState 'N' 'n' .hContLen11 ch)
  | .hContLen11 => goTo (changeState 'G' 'g' .hContLen12 ch)
  | .hContLen12 => goTo (changeState 'T' 't' .hContLen13 ch)
  | .hContLen13 => goTo (changeState 'H' 'h' .hLColon ch)
  | .hLColon =>
    if isBlank ch then .next r (p + 1)
    else if ch = ':'.toUInt8 then goTo .hContLenBody
    else goTo (crlfDefaultSkipCase ch)
  | .hContLenBody =>
    if isBlank ch then .next r (p + 1)
    else if isDigit ch then
      .next { r with state := .hContLenBodyParse, contentLen := digit ch } (p + 1)
    else goTo (crlfDefaultSkipCase ch)
  | .hContLenBodyParse =>
    if isDigit ch then
      .next { r with contentLen := toInt32 (r.contentLen * 10 + digit ch) } (p + 1)
    else if ch = cr || isBlank ch then .next { r with state := .hSkip, hasClen := true } (p + 1)
    else if ch = lf then .next { r with state := .hLf, hasClen := true } (p + 1)
    else goTo .hSkip
  -- the other states do not look at the character, or are not met in the loop (`abort`)
  | _ => .skip r p

/-- `sizeof(struct stun_hdr)`. -/
def stunHdrLen : Nat := 20

/-- The length of the fingerprint, `sizeof(struct stun_attr) + SHA_DIGEST_LENGTH`. -/
def stunFpLen : Nat := 24

def magicCookie : Nat := 0x2112A442

/-- `is_msg_complete`. -/
def isMsgComplete (r : TcpReq) : TcpReq × Bool :=
  if r.hasClen then ({ r with state := .hStunFp }, false)
  else ({ r with state := .hStunEnd, complete := true, hasClen := true }, true)

/-- The length field of a STUN header, in network byte order. -/
def stunLen (r : TcpReq) : Nat := (r.byteAt (r.start + 2)).toNat * 256 + (r.byteAt (r.start + 3)).toNat

/-- The magic cookie of a STUN header, in network byte order. -/
def stunCookie (r : TcpReq) : Nat :=
  (((r.byteAt (r.start + 4)).toNat * 256 + (r.byteAt (r.start + 5)).toNat) * 256 +
    (r.byteAt (r.start + 6)).toNat) * 256 + (r.byteAt (r.start + 7)).toNat

/-- The `H_STUN_MSG` state. -/
def stunMsg (r : TcpReq) : Scan :=
  if r.body + stunHdrLen ≤ r.pos then
    let bodyLen := stunLen r
    let r := { r with hasClen := r.hasClen || stunCookie r = magicCookie
                      body := r.body + stunHdrLen }
    if 0 < bodyLen then .next { r with state := .hStunReadBody, contentLen := bodyLen } r.body
    else
      match isMsgComplete r with
      | (r, true) => .skip r r.body
      | (r, false) => .next { r with contentLen := stunFpLen } r.body
  else .next r r.pos

/-- `content_len` as the `unsigned short` the STUN states use. -/
def stunBodyLen (r : TcpReq) : Nat := (r.contentLen % 65536).toNat

/-- The `H_STUN_READ_BODY` state. -/
def stunReadBody (r : TcpReq) : Scan :=
  if r.body + stunBodyLen r ≤ r.pos then
    let r := { r with body := r.body + stunBodyLen r }
    match isMsgComplete r with
    | (r, true) => .skip { r with contentLen := 0 } r.body
    | (r, false) => .next { r with contentLen := stunFpLen } r.body
  else .next r r.pos

/-- The `H_STUN_FP` state. -/
def stunFp (r : TcpReq) : Scan :=
  if r.body + stunBodyLen r ≤ r.pos then
    let r := { r with body := r.body + stunBodyLen r }
    .skip { r with state := .hStunEnd, complete := true, hasClen := true, contentLen := 0 } r.body
  else .next r r.pos

/-- The `H_SKIP` state: go behind the next line feed. -/
def skipLine (r : TcpReq) (p : Nat) : Scan :=
  let rest := r.buf.drop p
  let i := rest.findIdx (· = lf)
  if i < rest.length then .next { r with state := .hLf } (p + i + 1) else .next r r.pos

/-- The `H_BODY` state: take what is there of the body. -/
def readBody (r : TcpReq) (p : Nat) : Scan :=
  let remaining : Int := min (r.pos - p) r.bytesToGo
  let r := { r with bytesToGo := r.bytesToGo - remaining }
  if r.bytesToGo = 0 then .skip { r with complete := true } (p + remaining)
  else .next r (p + remaining).toNat

/-- One round of the loop of `tcp_read_headers`. -/
def headersRound (cfg : TcpCfg) (r : TcpReq) (p : Nat) : Scan :=
  match r.state with
  | .hBody => readBody r p
  | .hSkip => skipLine r p
  | .hStunMsg => stunMsg r
  | .hStunReadBody => stunReadBody r
  | .hStunFp => stunFp r
  | _ => headerChar cfg r p (r.byteAt p)

/-- The loop of `tcp_read_headers` with its test; the result has `parsed` set. -/
def headersStep (cfg : TcpCfg) (s : TcpReq × Nat) : (TcpReq × Nat) ⊕ TcpReq :=
  if s.2 < s.1.pos ∧ s.1.error = .ok then
    match headersRound cfg s.1 s.2 with
    | .next r p => .inl (r, p)
    | .skip r p => .inr { r with parsed := p }
  else .inr { s.1 with parsed := s.2 }

/-- The scanning part of `tcp_read_headers`. Two rounds for each byte are enough
(`headersLoop_loops`). -/
def headersLoop (cfg : TcpCfg) (r : TcpReq) : TcpReq :=
  (loop (headersStep cfg) (2 * (r.pos + 1)) (r, r.parsed.toNat)).getD r

/-! ## Reading and handing up -/

/-- What `read` finds on the socket: data, nothing yet, the end of the stream, or an error.
`forceEof` is `RD_CONN_FORCE_EOF`: a read that takes all the data is the last. -/
inductive ReadEvent where
  | data (bytes : List UInt8) (forceEof : Bool)
  | wouldBlock
  | eof
  | error
  deriving DecidableEq, Repr

/-- A unit handed up, with what takes it: `receive_msg`, `stun_process_msg`, or the answer to
a CRLF ping. -/
inductive UnitKind where
  | sip | stun | ping
  deriving DecidableEq, Repr

structure TcpUnit where
  kind : UnitKind
  bytes : List UInt8
  deriving DecidableEq, Repr

/-- A connection: its request, whether its state is `S_CONN_EOF`, and what was handed up. -/
structure TcpConn where
  req : TcpReq
  eof : Bool
  units : List TcpUnit
  deriving DecidableEq, Repr

/-- The answer of `tcp_read_req`. `fault` stands for what has no answer: a unit of negative
length is handed up, or an empty one that leaves the buffer as it is, to be handed up again. -/
inductive ConnCmd where
  | release | eof | error | fault
  deriving DecidableEq, Repr

/-- `tcp_read`; the number is its return value. -/
def tcpRead (ev : ReadEvent) (c : TcpConn) : TcpConn × Int :=
  let bytesFree := c.req.bSize - c.req.pos
  if bytesFree = 0 then ({ c with req := { c.req with error := .overrun } }, -1)
  else
    match ev with
    | .data bytes forceEof =>
      let got := bytes.take bytesFree
      ({ c with req := { c.req with buf := c.req.buf ++ got }
                eof := c.eof || (forceEof && got.length < bytesFree) }, got.length)
    | .wouldBlock => (c, 0)
    | .eof => ({ c with eof := true }, 0)
    | .error => ({ c with req := { c.req with error := .readError } }, -1)

/-- `tcp_read_headers`, with its return value. -/
def tcpReadHeaders (cfg : TcpCfg) (ev : ReadEvent) (c : TcpConn) : TcpConn × Int :=
  if c.req.parsed < c.req.pos then ({ c with req := headersLoop cfg c.req }, 0)
  else
    let (c, bytes) := tcpRead ev c
    if bytes ≤ 0 then (c, bytes) else ({ c with req := headersLoop cfg c.req }, bytes)

/-- What takes a complete unit. -/
def unitKind : TcpReqStates → UnitKind
  | .hPingCrlf => .ping
  | .hStunEnd => .stun
  | _ => .sip

/-- The bytes from `start` to `parsed`. -/
def TcpReq.unitBytes (r : TcpReq) : List UInt8 := (r.buf.drop r.start).take (r.parsed - r.start).toNat

/-- The request after a complete unit: the rest of the buffer is moved to its start. -/
def nextReq (r : TcpReq) : TcpReq :=
  { r with
    buf := r.buf.drop r.parsed.toNat, start := 0, parsed := 0, body := 0, contentLen := 0,
    bytesToGo := 0, hasClen := false, complete := false, error := .ok, state := .hSkipEmpty }

/-- Handing up the complete unit of a connection. `upper` gives the return value of the
function that takes the last of the units. -/
def handUp (upper : List TcpUnit → Int) (c : TcpConn) : TcpConn ⊕ (ConnCmd × TcpConn) :=
  if c.req.parsed < c.req.start then .inr (.fault, c)
  else
    let units := c.units ++ [⟨unitKind c.req.state, c.req.unitBytes⟩]
    if c.req.state ≠ .hPingCrlf ∧ upper units < 0 then .inr (.error, { c with units := units })
    else if c.req.parsed = 0 then .inr (.fault, { c with units := units })
    else
      let c := { c with req := nextReq c.req, units := units }
      if c.req.buf ≠ [] then .inl c
      else .inr (if c.eof then .eof else .release, c)

/-- What `tcp_read_req` does with the result of `tcp_read_headers`. -/
def tcpReqResult (upper : List TcpUnit → Int) (c : TcpConn) (bytes : Int) :
    TcpConn ⊕ (ConnCmd × TcpConn) :=
  if bytes = -1 then .inr (.error, c)
  else if c.eof ∧ ¬ c.req.complete then .inr (.eof, c)
  else if c.req.error ≠ .ok then .inr (.error, c)
  else if c.req.complete then
    if c.req.hasClen then handUp upper c
    else .inr (.error, { c with req := { c.req with error := .badLen } })
  else .inr (.release, c)

/-- One round of `tcp_read_req`, from its label `again`. -/
def tcpReadReqRound (cfg : TcpCfg) (upper : List TcpUnit → Int) (ev : ReadEvent) (c : TcpConn) :
    TcpConn ⊕ (ConnCmd × TcpConn) :=
  if c.req.error = .ok then
    let (c, bytes) := tcpReadHeaders cfg ev c
    tcpReqResult upper c bytes
  else .inr (.error, c)

/-- `tcp_read_req`. Each round but the last takes a byte from the buffer
(`tcpReadReq_loops`). -/
def tcpReadReq (cfg : TcpCfg) (upper : List TcpUnit → Int) (ev : ReadEvent) (c : TcpConn) :
    ConnCmd × TcpConn :=
  (loop (tcpReadReqRound cfg upper ev) (c.req.bSize + 2) c).getD (.fault, c)

/-- `tcpconn_new`: a fresh connection. -/
def initTcpConn (bSize : Nat) : TcpConn := ⟨initTcpReq bSize, false, []⟩

end SipRouter.Tcp
