import SipRouter.Tm.Cell

/-!
# Processing replies (`t_cancel.c`, `t_reply.c`, `timer.c`)

Cancelling branches, replying locally, deciding what to relay, and the functions
that receive replies, fake them when a timer fires, and cancel. `cancel_branch`
may fake a 487 with `relay_reply`, and `relay_reply` may reply locally and then
cancel branches. The recursion ends there: `relay_reply` does this with the reply
lock held, so a `cancel_branch` that takes the lock once more never gets it.
-/

namespace SipRouter.Tm

open Lib List

/-! ## Cancelling -/

/-- `atomic_cmpxchg_long` on the cancel buffer of a branch: whether it was `old`. -/
def cmpxchgCancel (b : Nat) (old new : CancelBuffer) : Proc Bool :=
  modifyGet fun c =>
    if (c.uac b).localCancel = old then (true, c.modifyUac b fun u => { u with localCancel := new })
    else (false, c)

/-- `should_cancel_branch`. -/
def shouldCancelBranch (b : Nat) (noreply : Bool) : Proc Bool := do
  let lastReceived ← read fun c => (c.uac b).lastReceived
  if lastReceived < 200 ∧ (noreply ∨ 100 ≤ lastReceived) then cmpxchgCancel b .null .busy
  else pure false

def whichCancelFrom : List Nat → Proc (List Nat)
  | [] => pure []
  | i :: is => do
    let cancel ← shouldCancelBranch i true
    let bm ← whichCancelFrom is
    pure (if cancel then i :: bm else bm)

/-- `which_cancel`; the bitmap is the list of its branches. -/
def whichCancel : Proc (List Nat) := do
  let branchesNo ← read Cell.nrOfOutgoings
  whichCancelFrom (List.range branchesNo)

/-- The flags `F_CANCEL_B_*`. -/
structure CancelFlags where
  kill : Bool
  fakeReply : Bool
  forceC : Bool
  forceRetr : Bool
  deriving DecidableEq, Repr

def noFlags : CancelFlags := ⟨false, false, false, false⟩

/-- `F_CANCEL_B_KILL`. -/
def killFlag : CancelFlags := { noFlags with kill := true }

/-- `enum rps`. -/
inductive Rps where
  | error | pushedAfterCompletion | discarded | store | completed | provisional
  deriving DecidableEq, Repr

/-- `cancel_branch`: `1` if the branch is still active, `0` if not, `-1` on an error. `relay487`
is the call of `relay_reply`, and `build` whether the CANCEL can be built. -/
def cancelBranch (relay487 : Proc Rps) (build : Bool) (b : Nat) (flags : CancelFlags) :
    Proc Int := do
  update fun c => c.modifyUac b fun u => { u with canceled := true }
  let lastReceived ← read fun c => (c.uac b).lastReceived
  if lastReceived < 100 ∧ ¬ flags.forceC then
    -- no response received: remove BUSY_BUFFER
    update fun c => c.modifyUac b fun u => { u with localCancel := .null }
    if flags.fakeReply then
      lockReplies
      let status ← relay487
      pure (if status = .error then -1 else 0)
    else pure (if flags.kill then 0 else 1)
  else if ¬ build then
    update fun c => c.modifyUac b fun u => { u with localCancel := .null }
    pure (-1)
  else
    let installed ← cmpxchgCancel b .busy .set
    pure (if installed then (if flags.kill then 0 else 1) else -1)

/-- The loop of `cancel_uacs`. -/
def cancelUacsFrom (relay487 : Nat → Proc Rps) (build : Nat → Bool) (cancelBm : List Nat)
    (flags : CancelFlags) : List Nat → Proc (List Nat)
  | [] => pure []
  | i :: is => do
    if i ∈ cancelBm then
      let blind ← read fun c => !(c.uac i).hasBuffer
      let r ← cancelBranch (relay487 i) (build i) i { flags with fakeReply := flags.fakeReply || blind }
      let active ← cancelUacsFrom relay487 build cancelBm flags is
      pure (if r ≠ 0 then i :: active else active)
    else cancelUacsFrom relay487 build cancelBm flags is

/-- `cancel_uacs`: the branches that are still active. -/
def cancelUacsWith (relay487 : Nat → Proc Rps) (build : Nat → Bool) (cancelBm : List Nat)
    (flags : CancelFlags) : Proc (List Nat) := do
  let n ← read Cell.nrOfOutgoings
  cancelUacsFrom relay487 build cancelBm flags (List.range n)

/-- What a process does once it has taken a lock that it holds: this is never reached. -/
def blocked : Proc Rps := pure .error

/-! ## Local replies -/

/-- What happens in `_reply_light`: the reply was built, the shared memory was there, the
address to send to is known; and whether a CANCEL can be built for a branch. -/
structure ReplyEnv where
  buf : Bool
  shm : Bool
  sock : Bool
  build : Nat → Bool

/-- The end of `_reply_light` on an error. -/
def replyLightError (cancel : List Nat → Proc (List Nat)) (isInvite : Bool) (cancelBm : List Nat) :
    Proc Bool := do
  when isInvite do let _ ← cancel cancelBm
  pure false

/-- `_reply_light`: whether it succeeded. `cancel` is the call of `cancel_uacs`. -/
def replyLight (cancel : List Nat → Proc (List Nat)) (lock : Bool) (env : ReplyEnv) (code : Nat) :
    Proc Bool := do
  let isInvite ← read Cell.isInvite
  if ¬ env.buf then
    if isInvite then
      when lock lockReplies
      let cancelBm ← whichCancel
      when lock unlockReplies
      replyLightError cancel isInvite cancelBm
    else replyLightError cancel isInvite []
  else
    when lock lockReplies
    let cancelBm ← (if isInvite then whichCancel else pure [])
    let status ← read Cell.status
    if 200 ≤ status then
      when lock unlockReplies
      replyLightError cancel isInvite cancelBm
    else
      update fun c => c.setStatus code
      if ¬ env.shm then
        update fun c => { c with response := none }
        when lock unlockReplies
        replyLightError cancel isInvite cancelBm
      else
        update fun c => { c with response := some code, relayedReplyBranch := -2 }
        when lock unlockReplies
        when (200 ≤ code && isInvite) do let _ ← cancel cancelBm
        when env.sock (update fun c => c.send code)
        pure true

/-- `t_reply_unsafe`, called with the reply lock held. -/
def tReplyUnsafe (env : ReplyEnv) (code : Nat) : Proc Bool :=
  replyLight (fun bm => cancelUacsWith (fun _ => blocked) env.build bm killFlag) false env code

/-! ## Relaying -/

/-- What the failure route and the failure callbacks may do to the transaction. -/
inductive FailAct where
  /-- `t_reply` -/
  | reply (code : Nat) (env : ReplyEnv)
  /-- a new branch -/
  | addBranch (kind : BranchKind)
  /-- `t_drop_replies` -/
  | dropReplies
  /-- `t_on_failure` -/
  | onFailure

/-- An action of a failure route; whether it asks for the replies to be dropped. -/
def runAct : FailAct → Proc Bool
  | .reply code env => do
    let _ ← tReplyUnsafe env code
    pure false
  | .addBranch kind => do
    update fun c => c.addUac kind
    pure false
  | .dropReplies => pure true
  | .onFailure => do
    update fun c => { c with onNegative := true }
    pure false

def runActs : List FailAct → Proc Bool
  | [] => pure false
  | act :: acts => do
    let drop ← runAct act
    let drop' ← runActs acts
    pure (drop || drop')

/-- `run_failure_handlers`; a local transaction has no request to run them on. -/
def runFailureHandlers (acts : List FailAct) : Proc Bool := do
  let isLocal ← read Cell.isLocal
  if isLocal then pure false
  else
    update fun c => { c with onNegative := false }
    runActs acts

/-- What happens in `relay_reply`: the reply was cloned, the outbound reply was built, the
shared memory was there; what the failure handlers do; the reply to a processing error; and the
code and the reply if all new branches failed. -/
structure RelayEnv where
  store : Bool
  buf : Bool
  shm : Bool
  acts : List FailAct
  err : ReplyEnv
  killCode : Option Nat
  kill : ReplyEnv

/-- The result of `t_should_relay_response`: the status, whether the reply is stored, the branch
that is relayed, and the branches to cancel. -/
structure Decision where
  rps : Rps
  store : Bool
  relay : Option Nat
  cancelBm : List Nat
  deriving DecidableEq, Repr

def discard : Decision := ⟨.discarded, false, none, []⟩

/-- `kill_transaction_unsafe`, after all new branches failed. -/
def branchesFailed (env : RelayEnv) : Proc Decision := do
  match env.killCode with
  | some code => let _ ← tReplyUnsafe env.kill code; pure ⟨.completed, false, none, []⟩
  | none => pure ⟨.completed, false, none, []⟩

/-- The branches to cancel at the first 6xx. -/
def cancelOn6xx (code : Nat) : Proc (List Nat) := do
  let t6xx ← read Cell.t6xx
  if 600 ≤ code ∧ code ≤ 699 ∧ ¬ t6xx then
    let cancelBm ← whichCancel
    update fun c => { c with t6xx := true }
    pure cancelBm
  else pure []

/-- `Trans->uac[i].reply = 0` for the first `n` branches. -/
def Cell.dropReplies (c : Cell) (n : Nat) : Cell :=
  { c with uacs := (c.uacs.take n).map (fun u => { u with reply := none }) ++ c.uacs.drop n }

theorem Cell.uac_dropReplies (c : Cell) (n b : Nat) :
    (c.dropReplies n).uac b = if b < n then { c.uac b with reply := none } else c.uac b := by
  simp only [uac, dropReplies, getD_eq_getElem?_getD]
  rcases lt_or_ge b c.uacs.length with hlt | hge
  · split_ifs with hn
    · rw [getElem?_append_left (by simp; omega), getElem?_map, getElem?_take_of_lt hn, getElem?_eq_getElem hlt]
      rfl
    · rw [getElem?_append_right (by simp; omega), getElem?_drop, length_map,
        length_take, min_eq_left (by omega), Nat.add_sub_cancel' (by omega)]
  · rw [getElem?_eq_none (by simp; omega), getElem?_eq_none hge]
    split_ifs <;> rfl

/-- What to do after the failure handlers: `branchCnt` is the number of branches before, and
`picked` the branch that was picked. -/
def afterHandlers (env : RelayEnv) (branch code branchCnt picked : Nat) (drop : Bool) :
    Proc Decision := do
  let c ← read id
  if 200 ≤ c.status then pure ⟨.completed, false, none, []⟩
  else if branchCnt < c.nrOfOutgoings then
    match tPickBranch (if drop then none else some branch) code c with
    | .picked newBranch _ => pure ⟨.completed, false, some newBranch, []⟩
    | .openBranches =>
      if drop then pure ⟨.discarded, false, none, []⟩ else pure ⟨.store, true, none, []⟩
    | .nothing => if drop then branchesFailed env else pure ⟨.completed, false, some picked, []⟩
  else if drop then branchesFailed env
  else pure ⟨.completed, false, some picked, []⟩

/-- `t_should_relay_response` on a negative reply, with no final reply so far. -/
def negativeReply (env : RelayEnv) (branch code : Nat) (reply : Reply) : Proc Decision := do
  update fun c => c.modifyUac branch fun u => { u with lastReceived := code }
  let c ← read id
  match tPickBranch (some branch) code c with
  | .openBranches =>
    let cancelBm ← cancelOn6xx code
    pure ⟨.store, true, none, cancelBm⟩
  | .nothing => pure discard
  | .picked picked _ =>
    let branchCnt := c.nrOfOutgoings
    update fun c =>
      { c.modifyUac branch (fun u => { u with reply := some reply }) with t6xx := false }
    let handlers ← read fun c => c.onFailureCb || c.onNegative
    let drop ← (if handlers then runFailureHandlers env.acts else pure false)
    when drop (update fun c => c.dropReplies branchCnt)
    update fun c => c.modifyUac branch fun u => { u with reply := none }
    afterHandlers env branch code branchCnt picked drop

/-- `t_should_relay_response`. -/
def tShouldRelayResponse (env : RelayEnv) (branch code : Nat) (reply : Reply) : Proc Decision := do
  let c ← read id
  let invThrough := 200 ≤ code && code < 300 && c.isInvite
  let lastReceived := (c.uac branch).lastReceived
  let setLastReceived : Proc Unit := update fun c => c.modifyUac branch fun u => { u with lastReceived := code }
  if 200 ≤ c.status then
    -- if a final response was sent out, allow only INVITE 2xx
    if invThrough then
      setLastReceived
      pure ⟨.pushedAfterCompletion, false, some branch, []⟩
    else pure discard
  -- if a final response was received at this branch, allow only INVITE 2xx
  else if 200 ≤ lastReceived ∧ ¬ (invThrough ∧ lastReceived < 300) then pure discard
  else if 300 ≤ code then negativeReply env branch code reply
  else if 200 ≤ code then
    setLastReceived
    let cancelBm ← whichCancel
    pure ⟨.completed, false, some branch, cancelBm⟩
  else if 100 ≤ code then
    setLastReceived
    pure ⟨.provisional, false, if code = 100 then none else some branch, []⟩
  else pure discard

/-- `store_reply`: whether the reply could be cloned. -/
def storeReply (store : Bool) (branch : Nat) (reply : Reply) : Proc Bool := do
  let ok := reply = .faked || store
  update fun c => c.modifyUac branch fun u => { u with reply := if ok then some reply else none }
  pure ok

/-- The label `error01` of `relay_reply`. -/
def relayError (env : RelayEnv) : Proc (Rps × List Nat) := do
  let _ ← tReplyUnsafe env.err 500
  unlockReplies
  Prog.emit (.leave .relayReply)
  pure (.error, [])

/-- The code that is relayed from a branch: that of the current reply, or of the stored one. A
503 that was received becomes a 500. -/
def relayedCode (c : Cell) (relay branch code : Nat) (reply : Reply) : Nat :=
  match if branch = relay then reply else ((c.uac relay).reply).getD .faked with
  | .faked => if branch = relay then code else (c.uac relay).lastReceived
  | .msg status => if status = 503 then 500 else status

/-- `relay_reply`: its status, and the branches to cancel. -/
def relayReply (env : RelayEnv) (branch code : Nat) (reply : Reply) : Proc (Rps × List Nat) := do
  Prog.emit (.enter .relayReply)
  let d ← tShouldRelayResponse env branch code reply
  let stored ← (if d.store then storeReply env.store branch reply else pure true)
  if ¬ stored then relayError env
  else
    match d.relay with
    | none =>
      unlockReplies
      Prog.emit (.leave .relayReply)
      pure (d.rps, d.cancelBm)
    | some relay =>
      let relayed ← read fun c => relayedCode c relay branch code reply
      if ¬ (env.buf ∧ env.shm) then
        when env.buf (update fun c => { c with response := none })
        when d.store (update fun c => c.modifyUac branch fun u => { u with reply := none })
        relayError env
      else
        update fun c => { c with response := some relayed }
        update fun c => { c.setStatus relayed with relayedReplyBranch := relay }
        unlockReplies
        update fun c => c.send relayed
        Prog.emit (.leave .relayReply)
        pure (d.rps, d.cancelBm)

/-! ## Out of the lock -/

/-- What happens while branches are cancelled: whether the CANCEL of a branch can be built, and
what happens if a 487 is faked on it. -/
structure CancelEnv where
  build : Nat → Bool
  relay : Nat → RelayEnv

/-- The faked 487 of `cancel_branch`. -/
def fake487 (env : CancelEnv) (b : Nat) : Proc Rps := do
  let (status, _) ← relayReply (env.relay b) b 487 .faked
  pure status

/-- `cancel_uacs`, called without the reply lock. -/
def cancelUacs (env : CancelEnv) (cancelBm : List Nat) (flags : CancelFlags) : Proc (List Nat) :=
  cancelUacsWith (fake487 env) env.build cancelBm flags

/-- `t_reply`. -/
def tReply (env : ReplyEnv) (cancel : CancelEnv) (code : Nat) : Proc Bool :=
  replyLight (fun bm => cancelUacs cancel bm killFlag) true env code

/-- What happens while a reply is processed. -/
structure ReceiveEnv where
  relay : RelayEnv
  cancel : CancelEnv

/-- The label `error` of `local_reply`; `cseqInvite` is whether the reply is to an INVITE. -/
def localError (env : ReceiveEnv) (cseqInvite : Bool) : Proc (Rps × List Nat) := do
  let cancelBm ← whichCancel
  unlockReplies
  when cseqInvite do let _ ← cancelUacs env.cancel cancelBm killFlag
  Prog.emit (.leave .localReply)
  pure (.error, [])

/-- The code of the winner in `local_reply`. -/
def winningCode (c : Cell) (winner branch code : Nat) (reply : Reply) : Nat :=
  match if branch = winner then reply else ((c.uac winner).reply).getD .faked with
  | .faked => if branch = winner then code else (c.uac winner).lastReceived
  | .msg status => status

/-- The UAS side of `local_reply`, if there is a winner. -/
def setWinner (winner : Option Nat) (branch code : Nat) (reply : Reply) : Proc Unit :=
  match winner with
  | none => pure ()
  | some winner => do
    let winning ← read fun c => winningCode c winner branch code reply
    update fun c => c.setStatus winning

/-- `local_reply`. -/
def localReply (env : ReceiveEnv) (cseqInvite : Bool) (branch code : Nat) (reply : Reply) :
    Proc (Rps × List Nat) := do
  Prog.emit (.enter .localReply)
  let d ← tShouldRelayResponse env.relay branch code reply
  let stored ← (if d.store then storeReply env.relay.store branch reply else pure true)
  if ¬ stored then localError env cseqInvite
  else
    setWinner d.relay branch code reply
    unlockReplies
    Prog.emit (.leave .localReply)
    pure (d.rps, d.cancelBm)

/-- `fake_reply`. -/
def fakeReply (env : ReceiveEnv) (branch code : Nat) : Proc Unit := do
  Prog.emit (.enter .fakeReply)
  let isInvite ← read Cell.isInvite
  let doCancelBranch ← (if isInvite then shouldCancelBranch branch false else pure false)
  update fun c => c.modifyUac branch fun u => { u with canceled := true }
  let isLocal ← read Cell.isLocal
  let _ ← (if isLocal then localReply env isInvite branch code .faked
    else relayReply env.relay branch code .faked)
  when doCancelBranch do
    let _ ← cancelBranch (fake487 env.cancel branch) (env.cancel.build branch) branch noFlags
  Prog.emit (.leave .fakeReply)

/-- A reply: the branch it belongs to, its status, and the method of its CSeq. -/
structure ReplyMsg where
  branch : Nat
  status : Nat
  cseqCancel : Bool
  cseqInvite : Bool
  deriving DecidableEq, Repr

/-- A branch added because the destination resolves to more addresses. -/
def failover : List BranchKind → Proc Unit
  | [] => pure ()
  | kind :: kinds => do
    lockReplies
    update fun c => c.addUac kind
    unlockReplies
    failover kinds

/-- A provisional reply on a branch that was cancelled. -/
def cancelAgain (env : CancelEnv) (branch : Nat) : Proc Unit := do
  let cancel ← read fun c => (c.uac branch).localCancel
  -- a CANCEL that was built is sent again
  when (cancel != .set) do
    let reserved ← cmpxchgCancel branch .null .busy
    when reserved do
      let _ ← cancelBranch (fake487 env branch) (env.build branch) branch { noFlags with forceC := true }

/-- The branches that `reply_received` cancels: those of a completed INVITE are stopped, others
are cancelled as configured by `cancel_b_flags`. -/
def cancelAfter (env : CancelEnv) (cancelBFlags : CancelFlags) (isInvite : Bool)
    (res : Rps × List Nat) : Proc Unit := do
  if res.1 = .completed then
    when isInvite do let _ ← cancelUacs env res.2 killFlag
  else when (res.2 != []) do let _ ← cancelUacs env res.2 cancelBFlags

/-- `reply_received`; `added` are the branches of a DNS failover. -/
def replyReceived (env : ReceiveEnv) (cancelBFlags : CancelFlags) (added : List BranchKind)
    (m : ReplyMsg) : Proc Unit := do
  let c ← read id
  if m.cseqCancel ∧ c.isInvite then pure ()
  else if m.status < 200 ∧ (c.uac m.branch).canceled then cancelAgain env.cancel m.branch
  else
    when (m.status = 503) (failover added)
    lockReplies
    let res ← (if c.isLocal then localReply env m.cseqInvite m.branch m.status (.msg m.status)
      else relayReply env.relay m.branch m.status (.msg m.status))
    cancelAfter env.cancel cancelBFlags c.isInvite res

/-! ## Timers -/

/-- The `activ_type` of a retransmission buffer. -/
inductive ActivType where
  | request | localCancel | reply
  deriving DecidableEq, Repr

/-- `t_retransmit_reply`; `sock` is whether the address to send to is known. -/
def tRetransmitReply (sock : Bool) : Proc Unit :=
  when sock do
    lockReplies
    let response ← read Cell.response
    unlockReplies
    match response with
    | none => pure ()
    | some code => update fun c => { c with log := c.log ++ [.retransmitted code] }

/-- `retransmission_handler`. -/
def retransmissionHandler (env : ReceiveEnv) (activType : ActivType) (branch : Nat)
    (sendOk sock : Bool) : Proc Unit :=
  match activType with
  | .request | .localCancel => when (!sendOk) (fakeReply env branch 503)
  | .reply => tRetransmitReply sock

/-- The branches added under the reply lock by a DNS failover. -/
def addUacs (c : Cell) (kinds : List BranchKind) : Cell := kinds.foldl Cell.addUac c

/-- `final_response_handler`; `noisy` is `noisy_ctimer` or the flag of the transaction. -/
def finalResponseHandler (env : ReceiveEnv) (activType : ActivType) (branch : Nat) (noisy : Bool)
    (added : List BranchKind) : Proc Unit :=
  match activType with
  | .localCancel | .reply => pure ()
  | .request => do
    lockReplies
    let c ← read id
    let lastReceived := (c.uac branch).lastReceived
    let silent := !noisy && !c.isLocal && c.isInvite && c.nrOfOutgoings = 1 && !c.onNegative &&
      !c.onFailureCb && lastReceived = 0
    if silent then unlockReplies
    else
      when (branch < maxBranches && lastReceived = 0 && (c.uac branch).hasBuffer)
        (update fun c => addUacs c added)
      fakeReply env branch 408

/-- What `retr_buf_handler` finds in its buffer: a timer to delete, a final response timeout, a
retransmission that is due or disabled. -/
structure RetrBuf where
  activType : ActivType
  branch : Nat
  delTimer : Bool
  frExpired : Bool
  retrExpired : Bool
  retrDisabled : Bool
  deriving DecidableEq, Repr

/-- What happens while a timer is handled. -/
structure TimerEnv extends ReceiveEnv where
  sendOk : Bool
  sock : Bool
  noisy : Bool
  added : List BranchKind

/-- `retr_buf_handler`. -/
def retrBufHandler (env : TimerEnv) (rb : RetrBuf) : Proc Unit :=
  if rb.delTimer then pure ()
  else if rb.frExpired then
    finalResponseHandler env.toReceiveEnv rb.activType rb.branch env.noisy env.added
  else
    when (rb.retrExpired && !rb.retrDisabled)
      (retransmissionHandler env.toReceiveEnv rb.activType rb.branch env.sendOk env.sock)

/-! ## Cancelling a transaction -/

/-- `rpc_cancel`. -/
def rpcCancel (env : CancelEnv) : Proc Unit := do
  lockReplies
  let cancelBm ← whichCancel
  unlockReplies
  let _ ← cancelUacs env cancelBm noFlags

/-- `cancel_all_uacs`. -/
def cancelAllUacs (env : CancelEnv) (how : CancelFlags) : Proc Unit := do
  let cancelBm ← whichCancel
  let _ ← cancelUacs env cancelBm how

/-- `e2e_cancel`, as far as the INVITE transaction goes. -/
def e2eCancel (env : CancelEnv) (reply : ReplyEnv) (cancelBFlags : CancelFlags) : Proc Unit := do
  let n ← read Cell.nrOfOutgoings
  if n = 0 then
    let _ ← tReply reply env 487
  else cancelAllUacs env cancelBFlags

/-! ## Operations -/

/-- The operations on a transaction, with what happens during each. -/
inductive TmOp where
  | addBranch (kind : BranchKind)
  | replyReceived (env : ReceiveEnv) (cancelBFlags : CancelFlags) (added : List BranchKind)
      (m : ReplyMsg)
  | retrBufHandler (env : TimerEnv) (rb : RetrBuf)
  | tReply (env : ReplyEnv) (cancel : CancelEnv) (code : Nat)
  | rpcCancel (env : CancelEnv)
  | cancelAllUacs (env : CancelEnv) (how : CancelFlags)
  | e2eCancel (env : CancelEnv) (reply : ReplyEnv) (cancelBFlags : CancelFlags)

def TmOp.prog : TmOp → Proc Unit
  | .addBranch kind => update fun c => c.addUac kind
  | .replyReceived env cancelBFlags added m => Tm.replyReceived env cancelBFlags added m
  | .retrBufHandler env rb => Tm.retrBufHandler env rb
  | .tReply env cancel code => do let _ ← Tm.tReply env cancel code
  | .rpcCancel env => Tm.rpcCancel env
  | .cancelAllUacs env how => Tm.cancelAllUacs env how
  | .e2eCancel env reply cancelBFlags => Tm.e2eCancel env reply cancelBFlags

/-- The environment in which nothing goes wrong and there are no failure handlers. -/
def fineReply : ReplyEnv := ⟨true, true, true, fun _ => true⟩

def fineRelay : RelayEnv := ⟨true, true, true, [], fineReply, none, fineReply⟩

def fineCancel : CancelEnv := ⟨fun _ => true, fun _ => fineRelay⟩

def fineReceive : ReceiveEnv := ⟨fineRelay, fineCancel⟩

/-- The transaction after operations, one after the other; an operation that waits for a lock
that its own process holds is the last. -/
def runOps : List TmOp → Bool → Cell → Cell
  | [], _, c => c
  | op :: ops, held, c =>
    match exec op.prog held c with
    | (some (), held', c') => runOps ops held' c'
    | (none, _, c') => c'

end SipRouter.Tm
