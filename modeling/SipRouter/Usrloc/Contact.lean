import SipRouter.Lib.Keyed

/-!
# User location in write-back mode (`ucontact.c`, `urecord.c`, `udomain.c`)

A user has a record with a list of contacts. In write-back mode the operations change the
memory only and leave a mark in `state`; the timer goes through the contacts, deletes those that have
expired and writes the new and the changed ones to the database. A row of the
database is found by the user and the contact URI.

A database call succeeds or fails as `ok` says for its number; its caller in the timer logs a failure and goes
on. AVPs of contacts, which are off unless configured, and watchers are left out.
-/

namespace SipRouter.Usrloc

open Lib

abbrev Str := List UInt8

/-- `cstate_t`. -/
inductive CState where
  | new
  | sync
  | dirty
  deriving DecidableEq, Repr

/-- `FL_PERMANENT`. -/
def flPermanent : BitVec 32 := 1#32 <<< 7

/-- `FL_MEM`. -/
def flMem : BitVec 32 := 1#32 <<< 8

/-- `struct ucontact`, its links, domain and socket left out. A string with no buffer is `none`. -/
structure UContact where
  aor : Str
  c : Str
  received : Option Str
  expires : Int
  q : Int
  callid : Str
  cseq : Int
  state : CState
  flags : BitVec 32
  userAgent : Str
  inst : Option Str
  serverId : Int
  deriving DecidableEq, Repr

/-- The contact is kept in memory only. -/
def UContact.memOnly (c : UContact) : Bool := c.flags &&& flMem != 0

/-- `VALID_CONTACT`. -/
def UContact.valid (t : Int) (c : UContact) : Bool := t < c.expires || c.flags &&& flPermanent != 0

/-- What a caller passes to `insert_ucontact` (`flags`) or to `update_ucontact` (`set`, `res`). -/
structure UArgs where
  aor : Str
  c : Str
  expires : Int
  q : Int
  callid : Str
  cseq : Int
  flags : BitVec 32
  set : BitVec 32
  res : BitVec 32
  ua : Str
  recv : Option Str
  inst : Option Str
  sid : Int

/-! ## Contacts in memory -/

/-- `new_ucontact`. -/
def newUcontact (a : UArgs) : UContact where
  aor := a.aor
  c := a.c
  received := a.recv
  expires := a.expires
  q := a.q
  callid := a.callid
  cseq := a.cseq
  state := .new
  flags := a.flags
  userAgent := a.ua
  inst := a.inst.filter (0 < ·.length)
  serverId := a.sid

/-- `mem_insert_ucontact`: before the first contact with a lower `q`, or in front. -/
def memInsertUcontact (descTimeOrder : Bool) (a : UArgs) (l : List UContact) : List UContact :=
  if descTimeOrder then newUcontact a :: l
  else l.takeWhile (fun p => a.q ≤ p.q) ++ newUcontact a :: l.dropWhile (fun p => a.q ≤ p.q)

/-- Write a string over the old one, in a new buffer if it is longer. -/
def setStr (alloc : Bool) (old new : Str) : Option Str :=
  if old.length < new.length then if alloc then some new else none else some new

/-- The same for a string that may be missing. An empty one does not get a buffer. -/
def setOptStr (alloc : Bool) (old : Option Str) : Option Str → Option (Option Str)
  | none => some none
  | some new =>
    if (old.getD []).length < new.length then if alloc then some (some new) else none
    else some (old.map fun _ => new)

/-- Go on with the contact `f` makes of a string, or give up with the contact as it is. -/
def orFail {β : Type} (v : Option β) (c : UContact) (f : β → UContact) : Except UContact UContact :=
  match v with
  | some v => .ok (f v)
  | none => .error c

/-- `mem_update_ucontact`. The allocation for the field of number `i` succeeds if `alloc i`. -/
def memUpdateUcontact (alloc : Nat → Bool) (a : UArgs) (c : UContact) : Except UContact UContact := do
  let c ← orFail (setStr (alloc 0) c.aor a.aor) c fun v => { c with aor := v }
  let c ← orFail (setStr (alloc 1) c.c a.c) c fun v => { c with c := v }
  let c ← orFail (setStr (alloc 2) c.callid a.callid) c fun v => { c with callid := v }
  let c ← orFail (setStr (alloc 3) c.userAgent a.ua) c fun v => { c with userAgent := v }
  let c ← orFail (setOptStr (alloc 4) c.received a.recv) c fun v => { c with received := v }
  let c ← orFail (setOptStr (alloc 5) c.inst a.inst) c fun v => { c with inst := v }
  return { c with
    expires := a.expires
    q := a.q
    cseq := a.cseq
    flags := (c.flags ||| a.set) &&& ~~~a.res }

theorem orFail_bind {β : Type} {v : Option β} {c c' : UContact} {f : β → UContact}
    {g : UContact → Except UContact UContact}
    (h : (orFail v c f >>= g) = .ok c') : ∃ w, v = some w ∧ g (f w) = .ok c' := by
  cases v with
  | none => cases h
  | some w => exact ⟨w, rfl, h⟩

theorem setStr_eq {alloc old new v} (h : setStr alloc old new = some v) : v = new := by
  unfold setStr at h
  split_ifs at h <;> exact (Option.some.inj h).symm

theorem setOptStr_getD {alloc old new v} (h : setOptStr alloc old new = some v) : v.getD [] = new.getD [] := by
  cases new with
  | none =>
    cases h
    rfl
  | some new =>
    simp only [setOptStr] at h
    by_cases hlen : (old.getD []).length < new.length
    · rw [if_pos hlen] at h
      cases alloc
      · cases h
      · cases h
        rfl
    · rw [if_neg hlen] at h
      cases h
      cases old with
      | none =>
        have hnil : new = [] := by simpa using hlen
        simp [hnil]
      | some old => rfl

/-- What an update that succeeds makes of a contact. -/
theorem memUpdateUcontact_ok {alloc : Nat → Bool} {a : UArgs} {c c' : UContact}
    (h : memUpdateUcontact alloc a c = .ok c') :
    c'.c = a.c ∧ c'.inst.getD [] = a.inst.getD [] ∧ c'.expires = a.expires ∧ c'.q = a.q ∧ c'.state = c.state := by
  obtain ⟨aor, -, h⟩ := orFail_bind h
  obtain ⟨u, hu, h⟩ := orFail_bind h
  obtain ⟨callid, -, h⟩ := orFail_bind h
  obtain ⟨ua, -, h⟩ := orFail_bind h
  obtain ⟨recv, -, h⟩ := orFail_bind h
  obtain ⟨inst, hi, h⟩ := orFail_bind h
  cases h
  exact ⟨setStr_eq hu, setOptStr_getD hi, rfl, rfl, rfl⟩

/-- `get_ucontact_by_instance`: the place of the first contact with the instance or the URI. -/
def getUcontactByInstance (u : Str) (inst : Option Str) (l : List UContact) : Option Nat :=
  match inst with
  | none => l.findIdx? fun p => p.c == u
  | some i => l.findIdx? fun p => p.inst.getD [] == i || p.c == u

/-! ## States, with `db_mode` write-back -/

/-- `st_update_ucontact`. -/
def stUpdateUcontact (c : UContact) : UContact :=
  match c.state with
  | .new => c
  | .sync => { c with state := .dirty }
  | .dirty => c

/-- `st_delete_ucontact`: `none` if the contact can be deleted from memory at once. -/
def stDeleteUcontact (c : UContact) : Option UContact :=
  match c.state with
  | .new => none
  | .sync | .dirty => some { c with flags := c.flags &&& ~~~flPermanent, expires := 0 }

/-- `st_expired_ucontact`. -/
def stExpiredUcontact (dbSkipDelete : Bool) (c : UContact) : Bool :=
  match c.state with
  | .new => false
  | .sync | .dirty => !dbSkipDelete

/-- The operations that `st_flush_ucontact` returns. Its callers also know 3 and 4. -/
inductive FlushOp where
  | nothing
  | insert
  | update
  deriving DecidableEq

/-- `st_flush_ucontact`. -/
def stFlushUcontact (c : UContact) : FlushOp × UContact :=
  match c.state with
  | .new => (.insert, { c with state := .sync })
  | .sync => (.nothing, c)
  | .dirty => (.update, { c with state := .sync })

/-- `update_ucontact`, with its return value. -/
def updateUcontact (alloc : Nat → Bool) (a : UArgs) (c : UContact) : UContact × Int :=
  match memUpdateUcontact alloc a c with
  | .error c => (c, -1)
  | .ok c => (stUpdateUcontact c, 0)

/-! ## The database -/

/-- A row of the location table. The column of `q` has it as a fraction. -/
structure Row where
  uid : Str
  contact : Str
  expires : Int
  q : Int
  callid : Str
  cseq : Int
  flags : BitVec 32
  userAgent : Str
  received : Option Str
  inst : Option Str
  aor : Str
  serverId : Int
  deriving DecidableEq, Repr

def Row.key (r : Row) : Str × Str := (r.uid, r.contact)

/-- The values `db_store_ucontact` passes, cut to the width of their columns. -/
def UContact.row (uid : Str) (c : UContact) : Row where
  uid := uid
  contact := c.c.take 255
  expires := c.expires
  q := c.q
  callid := c.callid.take 255
  cseq := c.cseq
  flags := c.flags
  userAgent := c.userAgent.take 64
  received := c.received
  inst := c.inst
  aor := c.aor.take 255
  serverId := c.serverId

/-- The table, how many calls there were and if one has failed. -/
structure Db where
  rows : List Row
  calls : Nat
  failed : Bool
  deriving DecidableEq

/-- The settings of the module and the outcome of the database calls. -/
structure UlEnv where
  ok : Nat → Bool
  dbSkipDelete : Bool
  descTimeOrder : Bool

/-- `db_exec`: a call that fails changes nothing. -/
def dbExec (E : UlEnv) (cmd : List Row → List Row) (db : Db) : Db where
  rows := if E.ok db.calls then cmd db.rows else db.rows
  calls := db.calls + 1
  failed := db.failed || !E.ok db.calls

/-- `db_store_ucontact`, a `DB_PUT`. -/
def dbStoreUcontact (E : UlEnv) (uid : Str) (c : UContact) (db : Db) : Db :=
  if c.memOnly then db else dbExec E (Keyed.put Row.key (c.row uid)) db

/-- `db_delete_ucontact`. -/
def dbDeleteUcontact (E : UlEnv) (uid : Str) (c : UContact) (db : Db) : Db :=
  if c.memOnly then db else dbExec E (Keyed.del Row.key (uid, c.c)) db

/-- `wb_timer`, from a contact of the record on. -/
def wbTimer (E : UlEnv) (now : Nat) (uid : Str) : List UContact → Db → List UContact × Db
  | [], db => ([], db)
  | c :: l, db =>
    if !c.valid now then
      let db := if stExpiredUcontact E.dbSkipDelete c then dbDeleteUcontact E uid c db else db
      wbTimer E now uid l db
    else
      let (op, c) := stFlushUcontact c
      let db :=
        match op with
        | .nothing => db
        | .insert => dbStoreUcontact E uid c db
        | .update => dbStoreUcontact E uid c db
      let (l, db) := wbTimer E now uid l db
      (c :: l, db)

/-! ## Records -/

/-- `struct urecord`. -/
structure URecord where
  uid : Str
  contacts : List UContact
  deriving DecidableEq

/-- The records of a domain and its table. -/
structure ULState where
  records : List URecord
  db : Db
  deriving DecidableEq

def ULState.init : ULState := ⟨[], ⟨[], 0, false⟩⟩

/-- `timer_udomain`: empty records are removed. -/
def timerRecords (E : UlEnv) (now : Nat) : List URecord → Db → List URecord × Db
  | [], db => ([], db)
  | r :: rs, db =>
    let (l, db) := wbTimer E now r.uid r.contacts db
    let (rs, db) := timerRecords E now rs db
    if l = [] then (rs, db) else (⟨r.uid, l⟩ :: rs, db)

/-- Change the contacts of a record. -/
def URecord.change (uid : Str) (f : List UContact → List UContact) (r : URecord) : URecord :=
  if r.uid = uid then { r with contacts := f r.contacts } else r

/-- The record of a user, inserted if there is none (`get_urecord`, `insert_urecord`). -/
def getOrInsertUrecord (uid : Str) (rs : List URecord) : List URecord :=
  if rs.any (·.uid = uid) then rs else rs ++ [⟨uid, []⟩]

/-- A contact that matches is updated, otherwise one is inserted. -/
def saveContact (E : UlEnv) (alloc : Nat → Bool) (a : UArgs) (l : List UContact) : List UContact :=
  match getUcontactByInstance a.c a.inst l with
  | some i => l.modify i fun c => (updateUcontact alloc a c).1
  | none => memInsertUcontact E.descTimeOrder a l

/-- `delete_ucontact` of the contact at a place. -/
def deleteUcontact (i : Nat) (l : List UContact) : List UContact :=
  match l[i]? with
  | none => l
  | some c =>
    match stDeleteUcontact c with
    | none => l.eraseIdx i
    | some c => l.set i c

/-- The operations: a contact of a user is saved (inserted, or updated when one matches) or deleted, a
record is released, and the timer. -/
inductive UlOp where
  | save (uid : Str) (a : UArgs) (alloc : Nat → Bool)
  | delete (uid : Str) (u : Str) (inst : Option Str)
  | release (uid : Str)
  | timer (now : Nat)

def UlOp.step (E : UlEnv) (s : ULState) : UlOp → ULState
  | .save uid a alloc =>
    { s with records := (getOrInsertUrecord uid s.records).map (·.change uid (saveContact E alloc a)) }
  | .delete uid u inst =>
    { s with records := s.records.map (·.change uid fun l =>
        match getUcontactByInstance u inst l with
        | some i => deleteUcontact i l
        | none => l) }
  | .release uid =>
    { s with records := s.records.filter fun r => !(decide (r.uid = uid) && decide (r.contacts = [])) }
  | .timer now =>
    let (rs, db) := timerRecords E now s.records s.db
    ⟨rs, db⟩

end SipRouter.Usrloc
