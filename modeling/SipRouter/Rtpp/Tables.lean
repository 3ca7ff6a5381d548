import SipRouter.Lib.Doubly
import SipRouter.Rtpp.Latch

/-!
# The session tables (`rtpproxy/rtpp_session.c`, `rtpproxy/rtpp_command.c`, `rtpproxy/main.c`)

The proxy polls `pfds`, and `sessions` says to which session the socket of an entry
belongs. A session knows the entries of its sockets. An entry of a removed session stays,
with descriptor -1 and without a session, until the next pass of `process_rtp` moves the
entries behind it forward. Sessions are also linked in the chains of a hash table of call
ids.

A session and its RTCP twin are one `Session`; a pointer to the twin is the pointer to the
session and `Kind.rtcp`. Addresses, ports, players, recording and replies are left out.
What comes from the system is a parameter: the sockets and the memory a command gets, and
what happens to the packets of an entry. A failed assertion ends the run.
-/

namespace SipRouter.Rtpp

open Lib.Doubly Function

abbrev Str := List UInt8

/-- One of the four sockets of a session: which session of the two, and whose leg. -/
abbrev Sock := Kind × Fin 2

inductive TtlMode where
  | unified
  | independent
deriving DecidableEq

structure Session where
  callId : Str
  tag : Str
  /-- the descriptors, none for -1 -/
  fds : Sock → Option Nat
  /-- the entries of the sockets, none for -1 -/
  sidx : Sock → Option Nat
  complete : Bool
  strong : Bool
  weak : Fin 2 → Bool
  ttl : Fin 2 → Nat
  ttlMode : TtlMode

/-- The tables and the sessions in memory. -/
structure Tables where
  pfds : Nat → Option Nat
  sessions : Nat → Option (Nat × Kind)
  nsessions : Nat
  hashTable : Chains UInt8
  heap : Nat → Option Session
  sessionsActive : Nat

structure Cfg where
  portMin : Nat
  portMax : Nat
  maxTtl : Nat
  ttlMode : TtlMode
  randTable : UInt8 → UInt8
  /-- the memory in front of `rand_table`: settings, pointers and counters -/
  front : Tables → UInt8 → UInt8

/-- The number of entries allocated for `pfds` and `sessions`. -/
def Cfg.size (cf : Cfg) : Nat := (cf.portMax - cf.portMin + 1) * 2 + 1

/-- The tables before the first command; the first entry is the control socket. -/
def Tables.start (controlfd : Nat) : Tables where
  pfds := update (fun _ => none) 0 (some controlfd)
  sessions := fun _ => none
  nsessions := 1
  hashTable := { head := fun _ => 0, next := fun _ => 0, prev := fun _ => 0 }
  heap := fun _ => none
  sessionsActive := 0

def Tables.setSession (T : Tables) (sp : Nat) (S : Session) : Tables := { T with heap := update T.heap sp (some S) }

/-! ## The hash table -/

/-- `hash_string`. The bytes are signed characters: one over 127 is negative, and so is the index
then, which is that of a byte in front of the table. -/
def hashString (cf : Cfg) (T : Tables) (s : Str) : UInt8 :=
  s.foldl (fun res c => if c < 128 then cf.randTable (res ^^^ c) else cf.front T (res ^^^ c)) (cf.randTable 0)

/-- `hash_table_append`. No chain is longer than there are sessions. -/
def hashTableAppend (cf : Cfg) (T : Tables) (sp : Nat) (S : Session) : Tables :=
  { T with hashTable := T.hashTable.append T.sessionsActive (hashString cf T S.callId) sp }

/-- `hash_table_remove`. -/
def hashTableRemove (cf : Cfg) (T : Tables) (sp : Nat) (S : Session) : Option Tables :=
  let hash := hashString cf T S.callId
  if T.hashTable.prev sp ≠ 0 ∨ T.hashTable.head hash = sp then
    some { T with hashTable := T.hashTable.unlink hash sp }
  else none

/-- The first session with a call id from a place of a chain on. -/
def findFrom (T : Tables) (callId : Str) (sp : Nat) : Option Nat :=
  (T.hashTable.from T.sessionsActive sp).find? fun sp => (T.heap sp).any fun S => S.callId = callId

def sessionFindfirst (cf : Cfg) (T : Tables) (callId : Str) : Option Nat :=
  findFrom T callId (T.hashTable.head (hashString cf T callId))

def sessionFindnext (T : Tables) (sp : Nat) (S : Session) : Option Nat := findFrom T S.callId (T.hashTable.next sp)

/-! ## Entries -/

/-- `append_session`. -/
def appendSession (T : Tables) (sp : Nat) (s : Sock) : Tables :=
  match T.heap sp with
  | none => T
  | some S =>
    match S.fds s with
    | some fd =>
      { T.setSession sp { S with sidx := update S.sidx s (some T.nsessions) } with
        sessions := update T.sessions T.nsessions (some (sp, s.1))
        pfds := update T.pfds T.nsessions (some fd)
        nsessions := T.nsessions + 1 }
    | none => T.setSession sp { S with sidx := update S.sidx s none }

/-- The entry of a socket is cleared when its session is removed. -/
def closeSock (sp : Nat) (S : Session) (T : Tables) (s : Sock) : Option Tables :=
  match S.fds s with
  | none => some T
  | some fd =>
    S.sidx s >>= fun i =>
      if T.sessions i = some (sp, s.1) ∧ T.pfds i = some fd then
        some { T with sessions := update T.sessions i none, pfds := update T.pfds i none }
      else none

/-- The sockets in the order in which they are closed. -/
def socks : List Sock := [(.rtp, 0), (.rtcp, 0), (.rtp, 1), (.rtcp, 1)]

/-- `remove_session`. -/
def removeSession (cf : Cfg) (T : Tables) (sp : Nat) : Option Tables :=
  T.heap sp >>= fun S =>
    socks.foldlM (closeSock sp S) T >>= fun T =>
      hashTableRemove cf T sp S >>= fun T =>
        some { T with heap := update T.heap sp none, sessionsActive := T.sessionsActive - 1 }

/-! ## The pass over the entries -/

/-- `get_ttl`. -/
def getTtl (S : Session) : Nat :=
  match S.ttlMode with
  | .unified => max (S.ttl 0) (S.ttl 1)
  | .independent => min (S.ttl 0) (S.ttl 1)

/-- What `rxmit_packets` and the resizer do for an entry. -/
inductive Rx where
  | idle
  /-- packets are sent to the other leg -/
  | relayed
  /-- there is no memory for an address and the session is removed; the source then reads in the freed session if
  packets are to be resized -/
  | nomem (resizing : Bool)
deriving DecidableEq

/-- The timeout of a session, looked at where the entry of its first socket is. -/
def tick (cf : Cfg) (T : Tables) (readyfd : Nat) : Option Tables :=
  match T.sessions readyfd with
  | some (sp, .rtp) =>
    T.heap sp >>= fun S =>
      if S.sidx (.rtp, 0) = some readyfd then
        if getTtl S = 0 then removeSession cf T sp
        else some (T.setSession sp { S with ttl := fun i => S.ttl i - 1 })
      else some T
  | _ => some T

/-- The leg of a descriptor. -/
def findLeg (S : Session) (k : Kind) (fd : Option Nat) : Option (Fin 2) := [0, 1].find? fun i => S.fds (k, i) = fd

/-- The packets of an entry. -/
def relay (cf : Cfg) (T : Tables) (sp : Nat) (S : Session) (ridx : Fin 2) : Rx → Option Tables
  | .idle => some T
  | .relayed => some (T.setSession sp { S with ttl := update S.ttl ridx cf.maxTtl })
  | .nomem resizing => if resizing then none else removeSession cf T sp

/-- One entry in `process_rtp`, with how many entries were found deleted before. -/
def visit (cf : Cfg) (alarm : Bool) (rx : Nat → Rx) (st : Tables × Nat) (readyfd : Nat) : Option (Tables × Nat) :=
  (if alarm then tick cf st.1 readyfd else some st.1) >>= fun T =>
    if T.pfds readyfd = none then some (T, st.2 + 1)
    else
      T.sessions readyfd >>= fun (sp, k) =>
        T.heap sp >>= fun S =>
          findLeg S k (T.pfds readyfd) >>= fun ridx =>
            let S := if 0 < st.2 then { S with sidx := update S.sidx (k, ridx) (some (readyfd - st.2)) } else S
            let T := if 0 < st.2 then
                { T.setSession sp S with
                  pfds := update T.pfds (readyfd - st.2) (T.pfds readyfd)
                  sessions := update T.sessions (readyfd - st.2) (T.sessions readyfd) }
              else T
            (if S.complete then relay cf T sp S ridx (rx readyfd) else some T) >>= fun T => some (T, st.2)

/-- `process_rtp`. -/
def processRtp (cf : Cfg) (alarm : Bool) (rx : Nat → Rx) (T : Tables) : Option Tables :=
  (List.range' 1 (T.nsessions - 1)).foldlM (visit cf alarm rx) (T, 0) >>= fun st =>
    some { st.1 with nsessions := st.1.nsessions - st.2 }

/-! ## Commands -/

/-- `compare_session_tags`: 1 for the same tag, 2 for the tag and a media number. -/
def compareSessionTags (tag1 tag0 : Str) : Nat :=
  if tag0.isPrefixOf tag1 then
    match tag1.drop tag0.length with
    | [] => 1
    | c :: _ => if c = ';'.toUInt8 then 2 else 0
  else 0

/-- From the last semicolon on (`strrchr`). -/
def mediaOf (tag : Str) : Option Str :=
  let m := (tag.reverse.takeWhile (· ≠ ';'.toUInt8)).reverse
  if m.length = tag.length then none else some (';'.toUInt8 :: m)

/-- The leg of a stream with the tags, if it has them (`find_stream`). -/
def streamLeg (S : Session) (fromTag : Str) (toTag : Option Str) : Option (Fin 2) :=
  if S.tag = fromTag then some 0
  else
    toTag >>= fun toTag =>
      match compareSessionTags S.tag toTag with
      | 1 => some 1
      | 2 => if (mediaOf fromTag).isSome ∧ mediaOf S.tag = mediaOf fromTag then some 1 else none
      | _ => none

/-- `find_stream` from a session on. -/
def findStreamFrom (T : Tables) (fromTag : Str) (toTag : Option Str) : Nat → Option Nat → Option (Nat × Fin 2)
  | 0, _ => none
  | _ + 1, none => none
  | n + 1, some sp =>
    T.heap sp >>= fun S =>
      match streamLeg S fromTag toTag with
      | some i => some (sp, i)
      | none => findStreamFrom T fromTag toTag n (sessionFindnext T sp S)

def findStream (cf : Cfg) (T : Tables) (callId fromTag : Str) (toTag : Option Str) : Option (Nat × Fin 2) :=
  findStreamFrom T fromTag toTag T.sessionsActive (sessionFindfirst cf T callId)

inductive Op where
  | update
  | lookup
deriving DecidableEq

/-- A command to update or look up a session, with the sockets `create_listener` gets, if it is
called and gets them, and the memory for a new session, if there is some. -/
structure Command where
  op : Op
  callId : Str
  fromTag : Str
  toTag : Option Str
  weak : Bool
  fds : Option (Nat × Nat)
  mem : Option Nat

/-- The session a command is about, and the leg: the other one for a lookup. -/
def Command.stream (cf : Cfg) (T : Tables) (c : Command) : Option (Nat × Fin 2) :=
  (findStream cf T c.callId c.fromTag c.toTag).map fun (sp, i) =>
    (sp, match c.op with
      | .update => i
      | .lookup => 1 - i)

/-- The flags and the timer of a session when a command has found it. -/
def Command.touch (cf : Cfg) (c : Command) (i : Fin 2) (S : Session) : Session :=
  { S with
    weak := if c.weak then update S.weak i true else S.weak
    strong := if !c.weak ∧ c.op = .update then true else S.strong
    ttlMode := cf.ttlMode
    ttl := fun _ => cf.maxTtl }

/-- The session a command creates. -/
def Command.session (cf : Cfg) (c : Command) (fds : Nat × Nat) : Session where
  callId := c.callId
  tag := c.fromTag
  fds := update (update (fun _ => none) (.rtp, 0) (some fds.1)) (.rtcp, 0) (some fds.2)
  sidx := fun _ => some 0
  complete := false
  strong := !c.weak
  weak := fun i => c.weak && i = 0
  ttl := fun _ => cf.maxTtl
  ttlMode := .unified

/-- A second pair of sockets for a session. -/
def Session.listen (S : Session) (i : Fin 2) (fds : Nat × Nat) : Session :=
  { S with
    fds := update (update S.fds (.rtp, i) (some fds.1)) (.rtcp, i) (some fds.2)
    complete := true }

/-- Sockets for the leg of a session that a command has found. -/
def addListener (T : Tables) (sp : Nat) (S : Session) (i : Fin 2) (fds : Nat × Nat) : Option Tables :=
  if S.fds (.rtcp, i) ≠ none then none
  else some (appendSession (appendSession (T.setSession sp (S.listen i fds)) sp (.rtp, i)) sp (.rtcp, i))

/-- A new session. -/
def createSession (cf : Cfg) (T : Tables) (c : Command) (fds : Nat × Nat) (sp : Nat) : Tables :=
  let S := c.session cf fds
  let T := [(.rtp, 0), (.rtp, 1), (.rtcp, 0), (.rtcp, 1)].foldl (fun T s => appendSession T sp s) (T.setSession sp S)
  let T := hashTableAppend cf T sp S
  { T with sessionsActive := T.sessionsActive + 1 }

def touchSession (cf : Cfg) (c : Command) (T : Tables) (sp : Nat) (i : Fin 2) : Option Tables :=
  T.heap sp >>= fun S => some (T.setSession sp (c.touch cf i S))

/-- `handle_command` for updates and lookups. -/
def handleCommand (cf : Cfg) (T : Tables) (c : Command) : Option Tables :=
  match c.stream cf T with
  | some (sp, i) =>
    T.heap sp >>= fun S =>
      match S.fds (.rtp, i), c.fds with
      | some _, _ => touchSession cf c T sp i
      | none, none => some T
      | none, some fds => addListener T sp S i fds >>= fun T => touchSession cf c T sp i
  | none =>
    match c.op, c.fds, c.mem with
    | .update, some fds, some sp => some (createSession cf T c fds sp)
    | _, _, _ => some T

/-- Which leg a delete command names with the tags, and how. -/
def deleteLeg (S : Session) (fromTag : Str) (toTag : Option Str) : Option (Fin 2 × Nat) :=
  if compareSessionTags S.tag fromTag ≠ 0 then some (1, compareSessionTags S.tag fromTag)
  else toTag >>= fun toTag =>
    if compareSessionTags S.tag toTag ≠ 0 then some (0, compareSessionTags S.tag toTag) else none

/-- The flag of a leg, or that of the session, is taken away. -/
def Session.unflag (S : Session) (weak : Bool) (idx : Fin 2) : Session :=
  if weak then { S with weak := update S.weak idx false } else { S with strong := false }

/-- The loop of `handle_delete` from a session on, with how many sessions it has found. -/
def deleteFrom (cf : Cfg) (fromTag : Str) (toTag : Option Str) (weak : Bool) :
    Nat → Tables → Option Nat → Nat → Option (Tables × Nat)
  | 0, T, _, ndeleted => some (T, ndeleted)
  | _ + 1, T, none, ndeleted => some (T, ndeleted)
  | n + 1, T, some sp, ndeleted =>
    T.heap sp >>= fun S =>
      match deleteLeg S fromTag toTag with
      | none => deleteFrom cf fromTag toTag weak n T (sessionFindnext T sp S) ndeleted
      | some (idx, cmpr) =>
        let S := S.unflag weak idx
        let T := T.setSession sp S
        if S.strong || S.weak 0 || S.weak 1 then
          deleteFrom cf fromTag toTag weak n T (sessionFindnext T sp S) (ndeleted + 1)
        else
          let spa := sessionFindnext T sp S
          removeSession cf T sp >>= fun T =>
            if cmpr ≠ 2 then some (T, ndeleted + 1) else deleteFrom cf fromTag toTag weak n T spa (ndeleted + 1)

/-- `handle_delete`, which says how many sessions it has found. -/
def handleDelete (cf : Cfg) (T : Tables) (callId fromTag : Str) (toTag : Option Str) (weak : Bool) :
    Option (Tables × Nat) :=
  deleteFrom cf fromTag toTag weak T.sessionsActive T (sessionFindfirst cf T callId) 0

/-! ## Runs -/

inductive Event where
  | command (c : Command)
  | delete (callId fromTag : Str) (toTag : Option Str) (weak : Bool)
  | pass (alarm : Bool) (rx : Nat → Rx)

def step (cf : Cfg) (T : Tables) : Event → Option Tables
  | .command c => handleCommand cf T c
  | .delete callId fromTag toTag weak => (handleDelete cf T callId fromTag toTag weak).map Prod.fst
  | .pass alarm rx => processRtp cf alarm rx T

end SipRouter.Rtpp
