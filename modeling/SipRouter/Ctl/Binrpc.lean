import Mathlib.Tactic.Ring

/-!
# Reading BINRPC records (`modules/ctl/binrpc.h`)

A packet has a body of records. A record begins with a byte that has its type
and a size; if the top bit of the size is set, the rest of it is the number of
bytes of a length that follows. The end of a struct or an array is a record of
that type with the top bit set.

An `int` is 32 bits. Doubles are sent as ints in thousandths and are kept so
here; their conversion is left out.
-/

namespace SipRouter.Ctl

def tInt : UInt8 := 0
def tStr : UInt8 := 1
def tDouble : UInt8 := 2
def tStruct : UInt8 := 3
def tArray : UInt8 := 4
def tAvp : UInt8 := 5
def tBytes : UInt8 := 6

/-- `BINRPC_T_ALL`: any type. -/
def tAll : UInt8 := 15

def binrpcReq : UInt8 := 0

def eMoreData : Int := -4
def eEop : Int := -5
def eNotinit : Int := -6
def eType : Int := -7
def eRecord : Int := -8

/-- The parsing context. The flag `BINRPC_F_INIT` is `init`. -/
structure ParseCtx where
  tlen : UInt32
  cookie : UInt32
  type : UInt8
  init : Bool
  offset : UInt32
  inStruct : Nat
  inArray : Nat

/-- The first word of the union of a `binrpc_val`, with what was written there last. A string is
a position in the buffer. -/
inductive ValWord where
  | unset
  | str (s : Nat)
  | intval (i : UInt32)
  | fval (thousandths : UInt32)
  | endTag (isEnd : Bool)

/-- The union of a `binrpc_val`. Only `u.strval` goes beyond the first word. -/
structure ValU where
  word : ValWord
  len : Int

def ValU.strval (s : Nat) (len : Int) : ValU := ⟨.str s, len⟩

structure BinrpcVal where
  name : Option (Nat × Int)
  type : UInt8
  u : ValU

/-- The value of an `int`. -/
def toInt (i : UInt32) : Int := if i.toNat < 2 ^ 31 then i.toNat else i.toNat - 2 ^ 32

/-- The loop of `binrpc_read_int`; `none` if the buffer ends before the number. -/
def readIntFrom (buf : List UInt8) : Nat → UInt32 → Nat → Option UInt32
  | 0, i, _ => some i
  | len + 1, i, s => buf[s]?.bind fun b => readIntFrom buf len (i <<< 8 ||| b.toUInt32) (s + 1)

/-- `binrpc_read_int`. -/
def readInt (buf : List UInt8) (len s : Nat) : Option (UInt32 × Nat) :=
  (readIntFrom buf len 0 s).map fun i => (i, s + len)

/-- The beginning of a record: its type, its length, if the top bit of the size is set, and the position behind. -/
structure ReadHead where
  type : UInt8
  len : Int
  endTag : Bool
  p : Nat

/-- The first part of `binrpc_read_record`. -/
def readHead (buf : List UInt8) (ctx : ParseCtx) (start : Nat) : Except Int ReadHead :=
  if !ctx.init then .error eNotinit
  else if ctx.tlen ≤ ctx.offset then .error eEop
  else
    match buf[start]? with
    | none => .error eMoreData
    | some b =>
      let size := (b >>> 4).toNat
      if size < 8 then
        if buf.length < start + 1 + size then .error eMoreData else .ok ⟨b &&& 15, size, false, start + 1⟩
      else
        match readInt buf (size - 8) (start + 1) with
        | none => .error eMoreData
        | some (len, p) =>
          if (buf.length : Int) < p + toInt len then .error eMoreData
            else .ok ⟨b &&& 15, toInt len, true, p⟩

/-- What `binrpc_read_record` leaves: the context, the position, the value and the error. -/
structure ReadResult where
  ctx : ParseCtx
  p : Nat
  v : BinrpcVal
  err : Int

/-- The position behind the value. -/
def ReadHead.next (h : ReadHead) : Nat := (h.p + h.len).toNat

/-- The record is read: the offset counts the bytes from its start. -/
def recordOk (ctx : ParseCtx) (start p : Nat) (v : BinrpcVal) : ReadResult :=
  ⟨{ ctx with offset := ctx.offset + UInt32.ofNat p - UInt32.ofNat start }, p, v, 0⟩

/-- An int of a record. The length has been checked against the buffer. -/
def recordInt (buf : List UInt8) (h : ReadHead) : UInt32 × Nat := (readInt buf h.len.toNat h.p).getD (0, h.p)

/-- The case of a struct, into which that of a byte string falls through. What is written to
`u.end` goes over the position in `u.strval`. -/
def readStructStart (ctx : ParseCtx) (h : ReadHead) (start p : Nat) (v : BinrpcVal) : ReadResult :=
  if h.endTag then ⟨ctx, start, v, eRecord⟩
  else recordOk { ctx with inStruct := ctx.inStruct + 1 } start p { v with u.word := .endTag false }

/-- The case of an array. -/
def readArrayTag (ctx : ParseCtx) (h : ReadHead) (start : Nat) (v : BinrpcVal) : ReadResult :=
  if h.endTag then
    if 0 < ctx.inArray then
      recordOk { ctx with inArray := ctx.inArray - 1 } start h.p { v with u.word := .endTag true }
    else ⟨ctx, start, v, eRecord⟩
  else recordOk { ctx with inArray := ctx.inArray + 1 } start h.p { v with u.word := .endTag false }

/-- The second part of `binrpc_read_record` outside of a struct. -/
def readPlain (buf : List UInt8) (ctx : ParseCtx) (h : ReadHead) (start : Nat) (v : BinrpcVal) : ReadResult :=
  let v := { v with type := h.type }
  if h.type = tInt then recordOk ctx start (recordInt buf h).2 { v with u.word := .intval (recordInt buf h).1 }
  else if h.type = tStr then recordOk ctx start h.next { v with u := .strval h.p (h.len - 1) }
  else if h.type = tBytes then readStructStart ctx h start h.next { v with u := .strval h.p h.len }
  else if h.type = tStruct then readStructStart ctx h start h.p v
  else if h.type = tArray then readArrayTag ctx h start v
  else if h.type = tDouble then recordOk ctx start (recordInt buf h).2 { v with u.word := .fval (recordInt buf h).1 }
  else ⟨ctx, start, v, eType⟩

/-- A record of a type: `body` is the second part. -/
def readTyped (buf : List UInt8) (ctx : ParseCtx) (start : Nat) (v : BinrpcVal)
    (body : ReadHead → ReadResult) : ReadResult :=
  match readHead buf ctx start with
  | .error e => ⟨ctx, start, v, e⟩
  | .ok h => if v.type ≠ h.type ∧ v.type ≠ tAll then ⟨ctx, start, v, eType⟩ else body h

/-- A name in a struct and the value behind it, which is read as one outside of a struct. The test
that follows compares the pointer `err` with 0, so an error is passed on like a success. -/
def readAvp (buf : List UInt8) (ctx : ParseCtx) (h : ReadHead) (start : Nat) (v : BinrpcVal) : ReadResult :=
  let v := { v with name := some (h.p, h.len - 1), type := h.type }
  match buf[h.next]? with
  | none => ⟨ctx, start, v, eMoreData⟩
  | some b =>
    if b &&& 15 ≠ tAvp ∧ b &&& 15 ≠ tArray then
      let out := { ctx with inStruct := 0 }
      let v := { v with type := b &&& 15 }
      let r := readTyped buf out h.next v fun hv => readPlain buf out hv h.next v
      { r with ctx := { r.ctx with inStruct := r.ctx.inStruct + ctx.inStruct } }
    else ⟨ctx, start, v, eRecord⟩

/-- `binrpc_read_record`. -/
def readRecord (buf : List UInt8) (ctx : ParseCtx) (start : Nat) (v : BinrpcVal) : ReadResult :=
  readTyped buf ctx start v fun h =>
    if ctx.inStruct = 0 then readPlain buf ctx h start v
    else if h.type = tStruct ∧ h.endTag then
      recordOk { ctx with inStruct := ctx.inStruct - 1 } start h.p { v with type := h.type, u.word := .endTag true }
    else if h.type = tAvp then readAvp buf ctx h start v
    else ⟨ctx, start, { v with type := h.type }, eRecord⟩

end SipRouter.Ctl
