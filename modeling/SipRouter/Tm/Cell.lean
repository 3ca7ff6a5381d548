import SipRouter.Lib.Lock

/-!
# Transactions (`h_table.h`, `t_cancel.c`, `t_reply.c`)

The state of one transaction, as the functions that process its replies see it,
and the primitives they are made of. A function is a program over the cell that
shows when it takes and releases the reply lock of the transaction. What comes
from outside, the outcome of an allocation or of a send and what the script does
in a failure route, is an argument.

Timers, statistics, the message texts and the callbacks of other modules are
left out.
-/

namespace SipRouter.Tm

open Lib List

/-! ## State -/

/-- What `local_cancel.buffer` points to: `NULL`, `BUSY_BUFFER` or a CANCEL. -/
inductive CancelBuffer where
  | null | busy | set
  deriving DecidableEq, Repr

/-- A stored reply: `FAKED_REPLY`, or a message with its status. -/
inductive Reply where
  | faked
  | msg (status : Nat)
  deriving DecidableEq, Repr

/-- `struct ua_client`. A blind branch has no request buffer. -/
structure Uac where
  lastReceived : Nat
  reply : Option Reply
  hasBuffer : Bool
  /-- `F_RB_CANCELED` in `request.flags` -/
  canceled : Bool
  localCancel : CancelBuffer
  deriving DecidableEq, Repr

/-- What was done to the UAS side: its status was set, a reply was sent, or the last reply was
sent again. -/
inductive UasEvent where
  | status (code : Nat)
  | sent (code : Nat)
  | retransmitted (code : Nat)
  deriving DecidableEq, Repr

/-- `struct cell`, with the history of its UAS side. -/
structure Cell where
  isInvite : Bool
  isLocal : Bool
  /-- `uas.status` -/
  status : Nat
  /-- The reply in `uas.response.buffer` -/
  response : Option Nat
  /-- `uac[0 .. nr_of_outgoings - 1]` -/
  uacs : List Uac
  /-- `T_6xx` in `flags` -/
  t6xx : Bool
  /-- A failure route is set, `on_negative` -/
  onNegative : Bool
  /-- There are failure callbacks, `TMCB_ON_FAILURE` or `TMCB_ON_FAILURE_RO` -/
  onFailureCb : Bool
  relayedReplyBranch : Int
  log : List UasEvent
  deriving DecidableEq, Repr

/-- The empty slot of a branch. -/
def emptyUac : Uac := ⟨0, none, false, false, .null⟩

namespace Cell

def nrOfOutgoings (c : Cell) : Nat := c.uacs.length

/-- `uac[b]`. -/
def uac (c : Cell) (b : Nat) : Uac := c.uacs.getD b emptyUac

def modifyUac (c : Cell) (b : Nat) (f : Uac → Uac) : Cell := { c with uacs := c.uacs.modify b f }

/-- `uas.status = code`. -/
def setStatus (c : Cell) (code : Nat) : Cell := { c with status := code, log := c.log ++ [.status code] }

/-- A reply goes out upstream. -/
def send (c : Cell) (code : Nat) : Cell := { c with log := c.log ++ [.sent code] }

theorem uac_of_length_le {c : Cell} {b} (h : c.nrOfOutgoings ≤ b) : c.uac b = emptyUac := getD_eq_default _ _ h

theorem uac_eq_getElem {c : Cell} {b} (h : b < c.uacs.length) : c.uac b = c.uacs[b] := getD_eq_getElem _ _ h

@[simp] theorem nrOfOutgoings_modifyUac (c : Cell) (b : Nat) (f) :
    (c.modifyUac b f).nrOfOutgoings = c.nrOfOutgoings := length_modify _ _ _

theorem uac_modifyUac (c : Cell) (b b' : Nat) (f) :
    (c.modifyUac b f).uac b' = if b = b' ∧ b < c.nrOfOutgoings then f (c.uac b') else c.uac b' := by
  rcases lt_or_ge b' c.nrOfOutgoings with hlt | hge
  · have hlt' : b' < (c.uacs.modify b f).length := by rwa [length_modify]
    rw [uac, modifyUac, getD_eq_getElem _ _ hlt', getElem_modify, uac, getD_eq_getElem _ _ hlt]
    by_cases hb : b = b'
    · subst hb
      rw [if_pos rfl, if_pos ⟨rfl, hlt⟩]
      rfl
    · rw [if_neg hb, if_neg fun h => hb h.1]
      rfl
  · rw [uac_of_length_le hge, uac_of_length_le (by simpa using hge), if_neg]
    rintro ⟨rfl, hlt⟩
    omega

end Cell

/-- A new transaction. -/
def newCell (isInvite isLocal onNegative onFailureCb : Bool) : Cell :=
  ⟨isInvite, isLocal, 0, none, [], false, onNegative, onFailureCb, 0, []⟩

/-- The functions that are called with the reply lock held and return with it released. -/
inductive TmFn where
  | relayReply | localReply | fakeReply
  deriving DecidableEq, Repr

/-- A function that works on a transaction. -/
abbrev Proc := Prog Cell (LockEvent TmFn)

/-- `LOCK_REPLIES`. -/
def lockReplies : Proc Unit := Prog.emit .lock

/-- `UNLOCK_REPLIES`. -/
def unlockReplies : Proc Unit := Prog.emit .unlock

export Prog (read update modifyGet when)

/-! ## Branches -/

/-- `MAX_BRANCHES`. -/
def maxBranches : Nat := 12

/-- How a branch comes to be: without a request to send, sent, or with a send that failed
(`t_send_branch` sets its code to 408 and leaves it without a reply). -/
inductive BranchKind where
  | blind | sent | sendFailed
  deriving DecidableEq, Repr

def newUac : BranchKind → Uac
  | .blind => emptyUac
  | .sent => { emptyUac with hasBuffer := true }
  | .sendFailed => { emptyUac with hasBuffer := true, lastReceived := 408 }

/-- `add_uac`, `add_blind_uac` and `t_send_branch`. -/
def Cell.addUac (c : Cell) (kind : BranchKind) : Cell :=
  if c.nrOfOutgoings < maxBranches then { c with uacs := c.uacs ++ [newUac kind] } else c

/-! ## Branch picking -/

/-- `get_4xx_prio`. -/
def get4xxPrio (xx : Nat) : Nat := if xx = 1 ∨ xx = 7 ∨ xx = 15 ∨ xx = 20 ∨ xx = 84 then xx else 100 + xx

/-- `resp_class_prio`. -/
def respClassPrio : List Nat := [32000, 11000, 0, 3000, 4000, 5000, 1000]

/-- `get_prio`: the lower, the better. -/
def getPrio (resp : Nat) : Nat :=
  let cls := resp / 100
  if cls < 7 then
    let xx := resp % 100
    respClassPrio.getD cls 0 + (if cls = 4 then get4xxPrio xx else xx)
  else 10000 + resp

/-- The result of `t_pick_branch`: a branch and its code, `-1`, or `-2` if branches are open. -/
inductive Pick where
  | picked (branch code : Nat)
  | nothing
  | openBranches
  deriving DecidableEq, Repr

/-- The best branch so far and its code, `best_b` and `best_s`. -/
abbrev Best := Option Nat × Nat

def Best.improve (best : Best) (b code : Nat) : Best := if getPrio code < getPrio best.2 then (some b, code) else best

/-- The loop of `t_pick_branch`, from branch `b` on. -/
def tPickBranchFrom (incBranch : Option Nat) (incCode : Nat) : Nat → List Uac → Best → Pick
  | _, [], (none, _) => .nothing
  | _, [], (some b, code) => .picked b code
  | b, u :: us, best =>
    -- "fake" for the currently processed branch
    if incBranch = some b then tPickBranchFrom incBranch incCode (b + 1) us (best.improve b incCode)
    -- skip empty branches
    else if ¬ u.hasBuffer then tPickBranchFrom incBranch incCode (b + 1) us best
    else if u.lastReceived < 200 then .openBranches
    else tPickBranchFrom incBranch incCode (b + 1) us
      (if u.reply.isSome then best.improve b u.lastReceived else best)

/-- `t_pick_branch`; no branch is passed for `inc_branch == -1`. -/
def tPickBranch (incBranch : Option Nat) (incCode : Nat) (c : Cell) : Pick :=
  tPickBranchFrom incBranch incCode 0 c.uacs (none, 0)

example : tPickBranch (some 0) 486
    { newCell true false false false with
      uacs := [newUac .sent, { newUac .sent with lastReceived := 404, reply := some .faked }] } =
    .picked 1 404 := by decide

end SipRouter.Tm
