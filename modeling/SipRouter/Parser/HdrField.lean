import SipRouter.Parser.HName

/-!
# One header field (`get_hdr_field` in `msg_parser.c`)

After the name the body is parsed, for some types by a parser of their own that also says
where the field ends; for the others the field ends with the first line that is not
folded. The parsers of `Via` and `To` bodies are parameters: all that is used of them is
how many bytes they took and what they made of them.
-/

namespace SipRouter.Parser

open Msg Tcp

/-- `eat_lws_end`. -/
def eatLwsEnd : List UInt8 → Nat
  | ch :: rest =>
    if isBlank ch then 1 + eatLwsEnd rest
    else
      match rest with
      | next :: rest =>
        if ch = lf ∧ isBlank next then 2 + eatLwsEnd rest
        else
          match rest with
          | next' :: rest => if ch = cr ∧ next = lf ∧ isBlank next' then 3 + eatLwsEnd rest else 0
          | [] => 0
      | [] => 0
  | [] => 0

/-- `eat_token_end`. -/
def eatTokenEnd (s : List UInt8) : Nat := (s.takeWhile fun ch => !isBlank ch && ch != lf && ch != cr).length

/-- `eat_space_end`. -/
def eatSpaceEnd (s : List UInt8) : Nat := (s.takeWhile isBlank).length

/-! ## Bodies -/

/-- `parse_cseq`: the bytes used. -/
def parseCseq (s : List UInt8) : Option Nat :=
  let number := eatTokenEnd s
  let m := number + eatSpaceEnd (s.drop number)
  let mEnd := m + eatTokenEnd (s.drop m)
  let t := mEnd + eatLwsEnd (s.drop mEnd)
  if s.length ≤ number then none
  else if s.length ≤ mEnd then none
  else if mEnd = m then none
  else
    match s.drop t with
    | [] => none
    | ch :: rest => if ch = cr ∧ rest.head? = some lf then some (t + 2) else if ch = lf then some (t + 1) else none

/-- The blanks of `parse_content_length`: a line end counts as one if a blank follows it. -/
def eatClenWs : List UInt8 → Nat
  | ch :: rest => if isBlank ch || (ch = lf && rest.head?.any isBlank) then 1 + eatClenWs rest else 0
  | [] => 0

/-- The number of `parse_content_length`, an `int`. -/
def clenNumber (digits : List UInt8) : Int := digits.foldl (fun n ch => toInt32 (n * 10 + digit ch)) 0

/-- `parse_content_length`: the number and the bytes used. -/
def parseContentLength (s : List UInt8) : Option (Int × Nat) :=
  let begin := eatClenWs s
  let digits := (s.drop begin).takeWhile isDigit
  let p := begin + digits.length
  let q := p + eatClenWs (s.drop p)
  if s.length ≤ begin then none
  else if s.length ≤ p ∨ digits = [] then none
  else
    match s.drop q with
    | [] => none
    | ch :: rest =>
      if ch = lf then some (clenNumber digits, q + 1)
      else if ch = cr ∧ rest.head? = some lf then some (clenNumber digits, q + 2)
      else none

/-- The end of a `Retry-After` field: a line end that is not folded. -/
def retryAfterEnd : List UInt8 → Option Nat
  | [] => none
  | ch :: rest =>
    if ch = lf then
      match rest with
      | [] => some 1
      | next :: rest' =>
        if next = cr then
          match rest' with
          | [] => some 2
          | next' :: rest'' => if isBlank next' then (retryAfterEnd rest'').map (3 + ·) else some 2
        else if isBlank next then (retryAfterEnd rest').map (2 + ·)
        else some 1
    else (retryAfterEnd rest).map (1 + ·)

/-- `parse_retry_after`: the bytes used. -/
def parseRetryAfter (s : List UInt8) : Option Nat :=
  let t := eatLwsEnd s
  let digits := (s.drop t).takeWhile isDigit
  let p := t + digits.length
  match s.drop p with
  | [] => none
  | ch :: rest =>
    if (isBlank ch || ch = ';'.toUInt8 || ch = cr || ch = lf) ∧ 0 < digits.length ∧ digits.length ≤ 10 then
      (retryAfterEnd (ch :: rest)).map (p + ·)
    else none

/-- The end of a field that is skipped: after the first line end that no blank follows. -/
def skipBody : List UInt8 → Option Nat
  | [] => none
  | ch :: rest => if ch = lf ∧ !rest.head?.any isBlank then some 1 else (skipBody rest).map (1 + ·)

/-- The parsers of the bodies of `Via`, which has one value or more, and of `To`. -/
structure Bodies (V T : Type) where
  parseVia : List UInt8 → Option (Nat × V × List V)
  parseTo : List UInt8 → Option (Nat × T)

/-- What `parsed` points to. -/
inductive Parsed (V T : Type) where
  | none
  | via (first : V) (next : List V)
  | to_ (body : T)
  | contentLength (n : Int)

/-- `struct hdr_field`. The positions are offsets in the message. -/
structure HdrField (V T : Type) where
  type : HdrType
  /-- `name.s` -/
  start : Nat
  nameLen : Nat
  /-- `body.s` -/
  body : Nat
  bodyLen : Nat
  len : Nat
  parsed : Parsed V T

/-- What `get_hdr_field` found. -/
inductive Got (V T : Type) where
  | error
  | eoh
  | field (hf : HdrField V T)

/-- `trim_r`. -/
def trimR (s : List UInt8) : Nat := (s.reverse.dropWhile fun ch => ch = 0 || ch = cr || ch = lf).length

/-- The body of a field of a type: the bytes used, and what was parsed. -/
def parseBody {V T : Type} (P : Bodies V T) (type : HdrType) (s : List UInt8) : Option (Nat × Parsed V T) :=
  match type with
  | .via => (P.parseVia s).map fun r => (r.1, .via r.2.1 r.2.2)
  | .cseq => (parseCseq s).map fun n => (n, .none)
  | .to_ => (P.parseTo s).map fun r => (r.1, .to_ r.2)
  | .contentLength => (parseContentLength s).map fun r => (r.2, .contentLength r.1)
  | .retryAfter => (parseRetryAfter s).map fun n => (n, .none)
  | .via2 | .eoh => none
  | _ => (skipBody s).map fun n => (n, .none)

/-- `get_hdr_field` at an offset of the message. -/
def getHdrField {V T : Type} (P : Bodies V T) (buf : List UInt8) (tmp : Nat) : Got V T :=
  let s := buf.drop tmp
  if s.head? = some lf ∨ s.head? = some cr then .eoh
  else
    match parseHname2 s with
    | none => .error
    | some name =>
      let body := name.used + eatLwsEnd (s.drop name.used)
      if s.length ≤ body then .error
      else
        match parseBody P name.type (s.drop body) with
        | none => .error
        | some (n, parsed) =>
          .field ⟨name.type, tmp, name.len, tmp + body, trimR ((s.drop body).take n), body + n, parsed⟩

end SipRouter.Parser
