import SipRouter.Usrloc.Contact
import Mathlib

/-!
# Saving the contacts of a REGISTER (`modules/registrar/save.c`)

A user without a record gets one with the contacts of the message. Otherwise each contact
of the message updates or deletes the stored contact that it matches, or is inserted.
Before that, `test_max_contacts` counts how many valid contacts there will be; it looks
for the contacts of the message by their URI only, in the record as it is, while `update`
also looks for their instance, in the record as it has become.

A message is given as it is parsed. The state of a contact matters with write-back only,
so it is that of `Usrloc.Contact`; watchers, callbacks, AVPs and the reply are left out.
-/

namespace SipRouter.Registrar

open Usrloc

/-- The values of `rerrno`. -/
inductive RErr where
  | fine
  | ulNewR
  | ulInsC
  | ulUpdC
  | invCseq
  | invQ
  | tooMany
deriving DecidableEq

/-- The parameters of the modules. -/
structure Config where
  defaultExpires : Int
  minExpires : Int
  maxExpires : Int
  maxContacts : Int
  descTimeOrder : Bool
  /-- `db_mode` is write-back -/
  writeBack : Bool

/-- A contact of the message. -/
structure Contact where
  uri : Str
  inst : Option Str
  /-- a parameter with a value, and its number if it is one -/
  expires : Option (Option (BitVec 32))
  /-- the value of `calc_contact_q`, if it is valid -/
  q : Option Int
  received : Option Str

/-- A REGISTER. -/
structure Register where
  contacts : List Contact
  /-- the Expires header, and its number if it is valid -/
  expires : Option (Option (BitVec 32))
  aor : Str
  callid : Str
  cseq : Option Int
  ua : Str
  sid : Int
  /-- `save_nat_flag` is set -/
  nat : Bool
  isRequest : Bool
  /-- the result of `create_rcv_uri` -/
  rcvUri : Option Str
  memOnly : Bool

/-- If there is memory: for the record, for the `k`-th contact of the message, and for the field `i`
of the contact that it updates. -/
structure Memory where
  record : Bool
  insert : Nat → Bool
  update : Nat → Nat → Bool

/-- `FL_NAT`. -/
def flNat : BitVec 32 := 1#32

/-- The value of an `int`. -/
def toInt32 (x : Int) : Int := (BitVec.ofInt 32 x).toInt

variable (cfg : Config) (now : Int)

/-- `get_expires_hf`. -/
def getExpiresHf (m : Register) : Int :=
  match m.expires with
  | some (some v) => if v ≠ 0 then toInt32 (v.toNat + now) else 0
  | _ => toInt32 (now + cfg.defaultExpires)

/-- `calc_contact_expires`. -/
def calcContactExpires (m : Register) (ep : Option (Option (BitVec 32))) : Int :=
  let e := match ep with
    | none => getExpiresHf cfg now m
    | some v =>
      let e := (v.map BitVec.toInt).getD 3600
      if e ≠ 0 then toInt32 (e + now) else e
  let e := if e ≠ 0 ∧ e - now < cfg.minExpires then toInt32 (cfg.minExpires + now) else e
  if e ≠ 0 ∧ cfg.maxExpires ≠ 0 ∧ cfg.maxExpires < e - now then toInt32 (cfg.maxExpires + now) else e

/-- `get_ucontact`: the place of the first contact with the URI. -/
def getUcontact (u : Str) (l : List UContact) : Option Nat := l.findIdx? fun p => p.c == u

/-- `mem_only` and the NAT flag. -/
def Register.flags (m : Register) : BitVec 32 := (if m.nat then flNat else 0) ||| (if m.memOnly then flMem else 0)

/-- The received URI, unless it cannot be made. -/
def recvUri (m : Register) (c : Contact) : Option (Option Str) :=
  match c.received with
  | some r => some (some r)
  | none => if m.nat && m.isRequest then m.rcvUri.map some else some none

/-- What is passed for a contact of the message. -/
def ulArgs (m : Register) (c : Contact) (e q cseq : Int) (recv : Option Str) : UArgs where
  aor := m.aor
  c := c.uri
  expires := e
  q := q
  callid := m.callid
  cseq := cseq
  flags := m.flags
  set := m.flags
  res := ~~~m.flags &&& (flNat ||| flMem)
  ua := m.ua
  recv := recv
  inst := c.inst
  sid := m.sid

/-- The values for a contact with the expiry time `e`, or the error for the first one that there is not. -/
def contactArgs (m : Register) (c : Contact) (e : Int) (noQ noCseq noRecv : Int × RErr) : Except (Int × RErr) UArgs :=
  match c.q, m.cseq, recvUri m c with
  | none, _, _ => .error noQ
  | some _, none, _ => .error noCseq
  | some _, some _, none => .error noRecv
  | some q, some cseq, some recv => .ok (ulArgs m c e q cseq recv)

/-- `delete_ucontact`. -/
def deleteContact (i : Nat) (l : List UContact) : List UContact :=
  if cfg.writeBack then deleteUcontact i l else l.eraseIdx i

/-- `FL_MEM` is set or reset before a contact is deleted. -/
def markMem (m : Register) (c : UContact) : UContact :=
  { c with flags := if m.memOnly then c.flags ||| flMem else c.flags &&& ~~~flMem }

/-- One contact of the message in `update`: the contacts, or the return code and `rerrno` with the contacts left. -/
def updateOne (mem : Memory) (m : Register) (k : Nat) (c : Contact) (l : List UContact) :
    Except (Int × RErr × List UContact) (List UContact) :=
  let e := calcContactExpires cfg now m c.expires
  match getUcontactByInstance c.uri c.inst l with
  | none =>
    if e = 0 then .ok l
    else
      match contactArgs m c e (-2, .invQ) (-3, .invCseq) (-4, .ulInsC) with
      | .error (code, rerrno) => .error (code, rerrno, l)
      | .ok a => if mem.insert k then .ok (memInsertUcontact cfg.descTimeOrder a l) else .error (-4, .ulInsC, l)
  | some i =>
    if e = 0 then .ok (deleteContact cfg i (l.modify i (markMem m)))
    else
      match contactArgs m c e (-6, .invQ) (-7, .invCseq) (-4, .ulUpdC) with
      | .error (code, rerrno) => .error (code, rerrno, l)
      | .ok a =>
        match l[i]? with
        | none => .ok l
        | some p =>
          let r := updateUcontact (mem.update k) a p
          if r.2 < 0 then .error (-8, .ulUpdC, l.set i r.1) else .ok (l.set i r.1)

/-- The loop of `update`. -/
def updateLoop (mem : Memory) (m : Register) :
    Nat → List Contact → List UContact → Except (Int × RErr × List UContact) (List UContact)
  | _, [], l => .ok l
  | k, c :: cs, l => (updateOne cfg now mem m k c l).bind (updateLoop mem m (k + 1) cs)

/-- The number of valid contacts. -/
def numValid (l : List UContact) : Nat := l.countP (UContact.valid now)

/-- What `test_max_contacts` adds for the contacts of the message. -/
def testLoop (m : Register) (l : List UContact) : List Contact → Int → Int
  | [], num => num
  | c :: cs, num =>
    let e := calcContactExpires cfg now m c.expires
    testLoop m l cs (match getUcontact c.uri l with
      | none => if e ≠ 0 then num + 1 else num
      | some _ => if e = 0 then num - 1 else num)

/-- `test_max_contacts`. -/
def testMaxContacts (m : Register) (l : List UContact) : Bool :=
  cfg.maxContacts < testLoop cfg now m l m.contacts (numValid now l)

/-- `update`. -/
def update (mem : Memory) (m : Register) (l : List UContact) : Except (Int × RErr × List UContact) (List UContact) :=
  if cfg.maxContacts ≠ 0 ∧ testMaxContacts cfg now m l then .error (-1, .tooMany, l)
  else updateLoop cfg now mem m 0 m.contacts l

/-- The loop of `insert`: the contacts of the new record, or the return code and `rerrno`. -/
def insertLoop (mem : Memory) (m : Register) :
    Nat → Int → List Contact → List UContact → Except (Int × RErr) (List UContact)
  | _, _, [], l => .ok l
  | k, num, c :: cs, l =>
    let e := calcContactExpires cfg now m c.expires
    if e = 0 then insertLoop mem m (k + 1) num cs l
    else if cfg.maxContacts ≠ 0 ∧ cfg.maxContacts ≤ num then .error (-1, .tooMany)
    else if num = 0 ∧ !mem.record then .error (-2, .ulNewR)
    else
      match contactArgs m c e (-3, .invQ) (-4, .invCseq) (-4, .fine) with
      | .error x => .error x
      | .ok a =>
        if mem.insert k then
          insertLoop mem m (k + 1) (num + 1) cs (memInsertUcontact cfg.descTimeOrder a l)
          else .error (-5, .ulInsC)

/-- What is left in the record, and how `contacts` returned. A user may have no record. -/
structure Saved where
  contacts : List UContact
  code : Int
  rerrno : RErr

/-- `contacts`, for a user with or without a record. -/
def contacts (mem : Memory) (m : Register) : Option (List UContact) → Saved
  | some l =>
    match update cfg now mem m l with
    | .ok l => ⟨l, 0, .fine⟩
    | .error (_, rerrno, l) => ⟨l, -3, rerrno⟩
  | none =>
    match insertLoop cfg now mem m 0 0 m.contacts [] with
    | .ok l => ⟨l, 0, .fine⟩
    | .error (_, rerrno) => ⟨[], -4, rerrno⟩

end SipRouter.Registrar
