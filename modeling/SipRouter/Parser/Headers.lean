import SipRouter.Parser.HdrField

/-!
# Lazy header parsing (`parse_headers` in `msg_parser.c`)

`parse_headers` goes on where it stopped, until the fields that were asked for have been
seen. It keeps the list of the fields and, for the known types, a pointer to the first
field of the type. A pointer to a field is its place in the list, which is only ever
appended to.

A call may also run out of memory: it is given for how many fields there is some.
-/

namespace SipRouter.Parser

variable {V T : Type}

/-- The types `parse_headers` keeps no pointer for. -/
def HdrType.unlinked : HdrType → Bool
  | .acceptContact | .allowEvents | .contentEncoding | .referredBy | .rejectContact
  | .requestDisposition | .wwwAuthenticate | .proxyAuthenticate | .retryAfter | .other | .via | .via2
  | .eoh => true
  | _ => false

/-- `struct sip_msg`, what `parse_headers` uses of it. A Via value is a field and a place in its list of values. -/
structure SipMsg (V T : Type) where
  unparsed : Nat
  parsedFlag : HdrFlags
  headers : List (HdrField V T)
  /-- `callid`, `to`, `cseq`, `from`, `contact` and the others, by type -/
  first : HdrType → Option Nat
  hVia1 : Option Nat
  hVia2 : Option Nat
  via1 : Option (Nat × Nat)
  via2 : Option (Nat × Nat)
  eoh : Option Nat

namespace SipMsg

/-- A message whose headers begin at an offset. -/
def init (start : Nat) : SipMsg V T := ⟨start, 0, [], fun _ => none, none, none, none, none, none⟩

/-- The pointers to `Via` when a field is found. -/
def addVia (msg : SipMsg V T) (next : List V) : SipMsg V T :=
  let hf := msg.headers.length
  let msg := { msg with parsedFlag := msg.parsedFlag ||| HdrType.via.flag }
  if msg.via1 = none then
    let msg := { msg with hVia1 := some hf, via1 := some (hf, 0) }
    if next = [] then msg else { msg with via2 := some (hf, 1), parsedFlag := msg.parsedFlag ||| HdrType.via2.flag }
  else if msg.via2 = none then
    { msg with hVia2 := some hf, via2 := some (hf, 0), parsedFlag := msg.parsedFlag ||| HdrType.via2.flag }
  else msg

/-- The pointer of a type when a field is found. -/
def addFirst (msg : SipMsg V T) (type : HdrType) : SipMsg V T :=
  if type.unlinked then msg
  else
    { msg with
      first := if msg.first type = none then Function.update msg.first type (some msg.headers.length) else msg.first
      parsedFlag := msg.parsedFlag ||| type.flag }

/-- A field is found: its pointers, and the end of the list. -/
def add (msg : SipMsg V T) (hf : HdrField V T) : SipMsg V T :=
  let msg := match hf.parsed with
    | .via _ next => msg.addVia next
    | _ => msg.addFirst hf.type
  { msg with headers := msg.headers ++ [hf] }

/-- The `while` of `parse_headers`: whether it ends well, and where. -/
def loop (P : Bodies V T) (buf : List UInt8) (flags : HdrFlags) :
    Nat → Nat → Nat → SipMsg V T → Bool × Nat × SipMsg V T
  | 0, _, tmp, msg => (true, tmp, msg)
  | fuel + 1, mem, tmp, msg =>
    if tmp < buf.length ∧ flags &&& msg.parsedFlag ≠ flags then
      match mem with
      | 0 => (false, tmp, msg)
      | mem + 1 =>
        match getHdrField P buf tmp with
        | .error => (false, tmp, msg)
        | .eoh => (true, tmp, { msg with eoh := some tmp, parsedFlag := msg.parsedFlag ||| HdrType.eoh.flag })
        | .field hf => loop P buf flags fuel mem (tmp + hf.len) (msg.add hf)
    else (true, tmp, msg)

/-- The flags at the start of a call: `next` asks for fields that are not seen yet. -/
def ask (msg : SipMsg V T) (flags : HdrFlags) (next : Bool) : SipMsg V T :=
  { msg with parsedFlag := if next then msg.parsedFlag &&& ~~~flags else msg.parsedFlag }

/-- `parse_headers`. -/
def parseHeaders (P : Bodies V T) (buf : List UInt8) (flags : HdrFlags) (next : Bool) (mem : Nat)
    (msg : SipMsg V T) : Int × SipMsg V T :=
  let origFlag := if next then msg.parsedFlag else 0
  let r := loop P buf flags (buf.length - msg.unparsed) mem msg.unparsed (msg.ask flags next)
  let msg' := { r.2.2 with parsedFlag := r.2.2.parsedFlag ||| origFlag }
  if r.1 then (0, { msg' with unparsed := r.2.1 }) else (-1, msg')

end SipMsg

end SipRouter.Parser
