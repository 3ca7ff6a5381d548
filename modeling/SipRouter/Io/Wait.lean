import Mathlib

/-!
# Waiting for I/O (`io_wait.h`)

A process watches descriptors. `fd_hash` says for each descriptor what it is watched for,
and `fd_array` lists them for `poll`; `select` has its own sets. A pass of the loop asks
which descriptors are ready and calls `handle_io` for them, which may itself change what
is watched. A deletion closes the gap in the array and moves the index of the loop.

The functions are given for `poll` and `select`, and the loops with `repeat` 0. What
`handle_io` does is a script: it changes or deletes its own descriptor by the index it was
given, and then any descriptor by -1.
-/

namespace SipRouter.Io

open Function

/-- A mask of events, a `short`. -/
abbrev Events := BitVec 16

def pollin : Events := 1#16 <<< 0
def pollout : Events := 1#16 <<< 2
def pollerr : Events := 1#16 <<< 3
def pollhup : Events := 1#16 <<< 4
def pollnval : Events := 1#16 <<< 5
def pollrdhup : Events := 1#16 <<< 13

/-- Two masks have an event in common. -/
def meets (events mask : Events) : Bool := events &&& mask != 0

inductive PollMethod where
  | poll
  | select
deriving DecidableEq

/-- `struct fd_map`. The type 0 is for a descriptor that is not watched. Each watch has a number,
which nobody reads. -/
structure FdMap where
  type : Nat
  events : Events
  since : Nat

structure PollFd where
  fd : Int
  events : Events
  revents : Events

/-- `struct io_wait_handler`. The array is as long as `fd_no`. -/
structure IoWait where
  method : PollMethod
  maxFdNo : Int
  hash : Int → FdMap
  fdArray : List PollFd
  /-- `crt_fd_array_idx` -/
  crt : Int
  /-- `master_rset` and `master_wset`, with `FD_SETSIZE` bits: a descriptor from there on is none of theirs -/
  rset : Int → Bool
  wset : Int → Bool
  maxFdSelect : Int
  /-- how often a watch was added -/
  adds : Nat

/-- `FD_SETSIZE` -/
def fdSetSize : Int := 1024

/-- Where the descriptors end that may be watched. Nothing in the code keeps to the sets of `select`: `FD_SET` with a
greater descriptor writes to the memory behind them. -/
def IoWait.room (h : IoWait) : Int :=
  match h.method with
  | .poll => h.maxFdNo
  | .select => min h.maxFdNo fdSetSize

/-- The events in the array: `poll` also listens to `POLLRDHUP`. -/
def PollMethod.asked (method : PollMethod) (events : Events) : Events :=
  match method with
  | .poll => if meets events pollin then events ||| pollrdhup else events
  | .select => events

namespace IoWait

/-- `hash_fd_map`. -/
def hashFdMap (h : IoWait) (fd : Int) (events : Events) (type : Nat) : IoWait :=
  { h with hash := update h.hash fd ⟨type, events, h.adds⟩ }

/-- `unhash_fd_map`. -/
def unhashFdMap (h : IoWait) (fd : Int) : IoWait := { h with hash := update h.hash fd { h.hash fd with type := 0 } }

/-- `fd_array_setup`, and then `fd_no++`. -/
def fdArraySetup (h : IoWait) (fd : Int) (events : Events) : IoWait :=
  { h with fdArray := h.fdArray ++ [⟨fd, events, 0⟩], adds := h.adds + 1 }

/-- `FD_SET` for the sets of `select`. -/
def selectSet (h : IoWait) (fd : Int) (events : Events) : IoWait :=
  { h with
    rset := if meets events pollin then update h.rset fd true else h.rset
    wset := if meets events pollout then update h.wset fd true else h.wset
    maxFdSelect := if h.maxFdSelect < fd then fd else h.maxFdSelect }

/-- `FD_CLR` for the sets of `select`. The highest descriptor is not known any more if this was it,
and is lowered by one. -/
def selectClr (h : IoWait) (fd : Int) (events : Events) : IoWait :=
  { h with
    rset := if meets events pollin then update h.rset fd false else h.rset
    wset := if meets events pollout then update h.wset fd false else h.wset
    maxFdSelect := if h.maxFdSelect ≠ 0 ∧ h.maxFdSelect = fd then h.maxFdSelect - 1 else h.maxFdSelect }

/-- `io_watch_add`. The last argument says if the descriptor can be made non-blocking. -/
def ioWatchAdd (h : IoWait) (fd : Int) (events : Events) (type : Nat) (fcntl : Bool) : Int × IoWait :=
  if fd = -1 then (-1, h)
  else if !meets events (pollin ||| pollout) then (-1, h)
  else if h.maxFdNo ≤ h.fdArray.length then (-1, h)
  else if (h.hash fd).type ≠ 0 then (-1, h)
  else
    match h.method with
    | .poll =>
      if fcntl then (0, (h.hashFdMap fd events type).fdArraySetup fd (PollMethod.poll.asked events))
      else (-1, (h.hashFdMap fd events type).unhashFdMap fd)
    | .select => (0, ((h.hashFdMap fd events type).selectSet fd events).fdArraySetup fd events)

/-- The index of a descriptor in the array, if it is not known. -/
def fixIdx (h : IoWait) (fd : Int) (idx : Option Nat) : Nat := idx.getD (h.fdArray.findIdx fun e => e.fd = fd)

/-- `fix_fd_array`, and then `fd_no--`. -/
def fixFdArray (h : IoWait) (fd : Int) (idx : Option Nat) : IoWait :=
  if h.fixIdx fd idx < h.fdArray.length then
    { h with
      fdArray := h.fdArray.eraseIdx (h.fixIdx fd idx)
      crt := if h.fixIdx fd idx ≤ h.crt ∧ 0 ≤ h.crt then h.crt - 1 else h.crt }
  else { h with fdArray := h.fdArray.dropLast }

/-- `io_watch_del`. -/
def ioWatchDel (h : IoWait) (fd : Int) (idx : Option Nat) : Int × IoWait :=
  if fd < 0 ∨ h.maxFdNo ≤ fd then (-1, h)
  else if (h.hash fd).type = 0 then (-1, h)
  else
    match h.method with
    | .poll => (0, (h.unhashFdMap fd).fixFdArray fd idx)
    | .select => (0, ((h.unhashFdMap fd).selectClr fd (h.hash fd).events).fixFdArray fd idx)

/-- `fd_array_chg`. -/
def fdArrayChg (h : IoWait) (fd : Int) (idx : Option Nat) (events : Events) : IoWait :=
  { h with fdArray := h.fdArray.modify (h.fixIdx fd idx) fun e => { e with events := events } }

/-- A bit of a set is cleared or set if the event was taken away or added. -/
def chgSet (set : Int → Bool) (fd : Int) (added removed : Bool) : Int → Bool :=
  if removed then update set fd false else if added then update set fd true else set

/-- The sets of `select` when the events of a descriptor change. -/
def selectChg (h : IoWait) (fd : Int) (added removed : Events) : IoWait :=
  { h with
    rset := chgSet h.rset fd (meets added pollin) (meets removed pollin)
    wset := chgSet h.wset fd (meets added pollout) (meets removed pollout) }

/-- The events of a descriptor in the hash. -/
def setEvents (h : IoWait) (fd : Int) (events : Events) : IoWait :=
  { h with hash := update h.hash fd { h.hash fd with events := events } }

/-- `io_watch_chg`. -/
def ioWatchChg (h : IoWait) (fd : Int) (events : Events) (idx : Option Nat) : Int × IoWait :=
  if fd < 0 ∨ h.maxFdNo ≤ fd then (-1, h)
  else if !meets events (pollin ||| pollout) then (-1, h)
  else if (h.hash fd).type = 0 then (-1, h)
  else
    let added := events &&& ~~~(h.hash fd).events
    let removed := (h.hash fd).events &&& ~~~events
    match h.method with
    | .poll => (0, (h.setEvents fd events).fdArrayChg fd idx (PollMethod.poll.asked events))
    | .select => (0, ((h.setEvents fd events).selectChg fd added removed).fdArrayChg fd idx events)

end IoWait

/-! ## What is called -/

/-- A call with any descriptor, with -1 for the index. -/
inductive Op where
  | add (fd : Int) (events : Events) (type : Nat) (fcntl : Bool)
  | del (fd : Int)
  | chg (fd : Int) (events : Events)

def Op.run (h : IoWait) : Op → IoWait
  | .add fd events type fcntl => (h.ioWatchAdd fd events type fcntl).2
  | .del fd => (h.ioWatchDel fd none).2
  | .chg fd events => (h.ioWatchChg fd events none).2

/-- What one call of `handle_io` does: changes of its own descriptor by its index, maybe its
deletion, and then anything. -/
structure HandleIo where
  chgs : List Events
  del : Bool
  rest : List Op

/-- `handle_io` for a descriptor and its index in the array. -/
def HandleIo.run (io : HandleIo) (fd : Int) (r : Nat) (h : IoWait) : IoWait :=
  let h := io.chgs.foldl (fun h events => (h.ioWatchChg fd events (some r)).2) h
  let h := if io.del then (h.ioWatchDel fd (some r)).2 else h
  io.rest.foldl Op.run h

/-- A call of `handle_io`. -/
structure Call where
  fd : Int
  revents : Events
deriving DecidableEq

namespace IoWait

/-- The events of an entry of the array that were reported; `select` has its answer in sets. -/
def revents (h : IoWait) (sel : Int → Events) (e : PollFd) : Events :=
  match h.method with
  | .poll => e.revents
  | .select => sel e.fd

/-- The entry is counted as one that was reported. -/
def counted (h : IoWait) (sel : Int → Events) (e : PollFd) : Bool :=
  match h.method with
  | .poll => meets (h.revents sel e) ((h.hash e.fd).events ||| pollerr ||| pollhup)
  | .select => h.revents sel e != 0

/-- The descriptor is in the hash. -/
def sane (h : IoWait) (e : PollFd) : Bool := decide (0 ≤ e.fd ∧ e.fd < h.maxFdNo)

/-- `handle_io` is called for an entry that is counted. -/
def called (h : IoWait) (sel : Int → Events) (e : PollFd) : Bool :=
  match h.method with
  | .poll => h.sane e && decide ((h.hash e.fd).type ≠ 0)
  | .select => decide ((h.hash e.fd).type ≠ 0) && meets (h.hash e.fd).events (h.revents sel e)

/-- An entry that is counted and for which `handle_io` is not called. -/
def skip (h : IoWait) (e : PollFd) (r : Nat) : IoWait :=
  if h.method = .poll ∧ !h.sane e then { h with fdArray := h.fdArray.modify r fun e => { e with events := 0 } }
  else { h with crt := r }

/-- The loop passes over the entries that are not counted. -/
def nextReady (h : IoWait) (sel : Int → Events) (r : Nat) : Option Nat :=
  ((h.fdArray.drop r).findIdx? (h.counted sel)).map (r + ·)

/-- The `for` of `io_wait_loop_poll` and `io_wait_loop_select`, from an index on, with the number of
events that are left. Each call of `handle_io` takes the next script. -/
def loop (sel : Int → Events) : Nat → Nat → IoWait → List HandleIo → List Call × IoWait
  | 0, _, h, _ => ([], h)
  | n + 1, r, h, ios =>
    match h.nextReady sel r with
    | none => ([], h)
    | some r =>
      match h.fdArray[r]? with
      | none => ([], h)
      | some e =>
        if h.called sel e then
          let h' := (ios.headD ⟨[], false, []⟩).run e.fd r { h with crt := r }
          let rest := loop sel n (h'.crt + 1).toNat h' ios.tail
          (⟨e.fd, h.revents sel e⟩ :: rest.1, rest.2)
        else loop sel n (r + 1) (h.skip e r) ios

/-- What `poll` writes to the array, when the descriptors are ready for these events. -/
def polled (h : IoWait) (ready : Int → Events) : IoWait :=
  { h with fdArray := h.fdArray.map fun e =>
      { e with revents := ready e.fd &&& (e.events ||| pollerr ||| pollhup ||| pollnval) } }

/-- What `select` puts in its sets. -/
def selected (h : IoWait) (ready : Int → Events) (fd : Int) : Events :=
  if fd ≤ h.maxFdSelect then
    (if h.rset fd && meets (ready fd) pollin then pollin else 0) |||
      (if h.wset fd && meets (ready fd) pollout then pollout else 0)
  else 0

/-- What `select` returns: the number of the bits in both sets. -/
def selectCount (h : IoWait) (ready : Int → Events) : Nat :=
  ((List.range (h.maxFdSelect + 1).toNat).map fun (fd : Nat) =>
    (meets (h.selected ready fd) pollin).toNat + (meets (h.selected ready fd) pollout).toNat).sum

/-- A pass of the loop. -/
def pass (h : IoWait) (ready : Int → Events) (ios : List HandleIo) : List Call × IoWait :=
  match h.method with
  | .poll => loop (fun _ => 0) ((h.polled ready).fdArray.countP fun e => e.revents != 0) 0 (h.polled ready) ios
  | .select => loop (h.selected ready) (h.selectCount ready) 0 h ios

end IoWait

end SipRouter.Io
