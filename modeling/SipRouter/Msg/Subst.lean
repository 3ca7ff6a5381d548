import SipRouter.Msg.Lump

/-!
# Substitutions and conditions of lumps (`msg_translator.c`)

A substitution lump stands for an address, a port or a protocol that is known when the message is sent. Its
length and its text are computed apart, by the macros `SUBST_LUMP_LEN` of `lumps_len` and `SUBST_LUMP` of
`process_lumps`; they agree (`length_substLump`). A condition lump ends its chain if it
does not hold.

This is the code without `USE_COMP`.
-/

namespace SipRouter.Msg

def sipPort : Nat := 5060

def transportParam : List UInt8 := bytes ";transport="

/-- The sending socket, if there is one. -/
def sendSockOf (sendInfo : Option DestInfo) : Option SocketInfo := sendInfo.bind (·.sendSock)

section Subst

variable (msg : MsgData)

/-- `send_address_str`. -/
def sendAddressStr (sock : SocketInfo) : List UInt8 :=
  if msg.setGlobalAddress ≠ [] then msg.setGlobalAddress else sock.addressStr

/-- `send_port_str`. -/
def sendPortStr (sock : SocketInfo) : List UInt8 :=
  if msg.setGlobalPort ≠ [] then msg.setGlobalPort else sock.portNoStr

/-- An address of the socket is shown in brackets if it is not of version 4. -/
def rcvBrackets (sock : SocketInfo) : Bool := sock.address.af ≠ .inet

def sndBrackets (sock : SocketInfo) : Bool := sock.address.af ≠ .inet && msg.setGlobalAddress = []

/-! ## Lengths -/

def addressLen (brackets : Bool) (address : List UInt8) : Nat := address.length + if brackets then 2 else 0

def portLen (shown : Bool) (port : List UInt8) : Nat := if shown then 1 + port.length else 0

def protoLen : Proto → Nat
  | .none | .udp | .tcp | .tls => 3
  | .sctp => 4

def transportLen : Proto → Nat
  | .none | .udp => 0
  | .tcp | .tls => transportParam.length + 3
  | .sctp => transportParam.length + 4

/-- `SUBST_LUMP_LEN`. -/
def substLumpLen (sendInfo : Option DestInfo) : LumpSubst → Nat
  | .nop => 0
  | .rcvIp => msg.rcv.bindAddress.elim 0 fun b => addressLen (rcvBrackets b) b.addressStr
  | .rcvPort => msg.rcv.bindAddress.elim 0 fun b => b.portNoStr.length
  | .rcvProto => msg.rcv.bindAddress.elim 0 fun b => protoLen b.proto
  | .rcvAll => msg.rcv.bindAddress.elim 0 fun b =>
      addressLen (rcvBrackets b) b.addressStr + portLen (b.portNo ≠ sipPort) b.portNoStr + transportLen b.proto
  | .sndIp => (sendSockOf sendInfo).elim 0 fun s => addressLen (sndBrackets msg s) (sendAddressStr msg s)
  | .sndPort => (sendSockOf sendInfo).elim 0 fun s => (sendPortStr msg s).length
  | .sndProto => (sendSockOf sendInfo).elim 0 fun s => protoLen s.proto
  | .sndAll => (sendSockOf sendInfo).elim 0 fun s =>
      addressLen (sndBrackets msg s) (sendAddressStr msg s) +
        portLen (s.portNo ≠ sipPort || msg.setGlobalPort ≠ []) (sendPortStr msg s) + transportLen s.proto

/-! ## Texts -/

def addressText (brackets : Bool) (address : List UInt8) : List UInt8 :=
  (if brackets then bytes "[" else []) ++ address ++ if brackets then bytes "]" else []

def portText (shown : Bool) (port : List UInt8) : List UInt8 := if shown then bytes ":" ++ port else []

def protoText : Proto → List UInt8
  | .none | .udp => bytes "udp"
  | .tcp => bytes "tcp"
  | .tls => bytes "tls"
  | .sctp => bytes "sctp"

def transportText : Proto → List UInt8
  | .none | .udp => []
  | .tcp => transportParam ++ bytes "tcp"
  | .tls => transportParam ++ bytes "tls"
  | .sctp => transportParam ++ bytes "sctp"

/-- `SUBST_LUMP`. -/
def substLump (sendInfo : Option DestInfo) : LumpSubst → List UInt8
  | .nop => []
  | .rcvIp => msg.rcv.bindAddress.elim [] fun b => addressText (rcvBrackets b) b.addressStr
  | .rcvPort => msg.rcv.bindAddress.elim [] fun b => b.portNoStr
  | .rcvProto => msg.rcv.bindAddress.elim [] fun b => protoText b.proto
  | .rcvAll => msg.rcv.bindAddress.elim [] fun b =>
      addressText (rcvBrackets b) b.addressStr ++ portText (b.portNo ≠ sipPort) b.portNoStr ++ transportText b.proto
  | .sndIp => (sendSockOf sendInfo).elim [] fun s => addressText (sndBrackets msg s) (sendAddressStr msg s)
  | .sndPort => (sendSockOf sendInfo).elim [] fun s => sendPortStr msg s
  | .sndProto => (sendSockOf sendInfo).elim [] fun s => protoText s.proto
  | .sndAll => (sendSockOf sendInfo).elim [] fun s =>
      addressText (sndBrackets msg s) (sendAddressStr msg s) ++
        portText (s.portNo ≠ sipPort || msg.setGlobalPort ≠ []) (sendPortStr msg s) ++ transportText s.proto

theorem length_addressText {brackets address} :
    (addressText brackets address).length = addressLen brackets address := by
  cases brackets <;> simp [addressText, addressLen, bytes]

theorem length_portText {shown port} : (portText shown port).length = portLen shown port := by
  cases shown <;> simp [portText, portLen, bytes, Nat.add_comm]

theorem length_protoText {proto} : (protoText proto).length = protoLen proto := by
  cases proto <;> rfl

theorem length_transportText {proto} : (transportText proto).length = transportLen proto := by
  cases proto <;> rfl

/-- The text of a substitution is as long as computed. -/
theorem length_substLump {sendInfo subst} :
    (substLump msg sendInfo subst).length = substLumpLen msg sendInfo subst := by
  cases subst with
  | nop => rfl
  | rcvIp | rcvPort | rcvProto | rcvAll =>
    simp only [substLump, substLumpLen]
    cases msg.rcv.bindAddress with
    | none => rfl
    | some b =>
      simp [length_addressText, length_portText, length_protoText, length_transportText, Nat.add_assoc]
  | sndIp | sndPort | sndProto | sndAll =>
    simp only [substLump, substLumpLen]
    cases sendSockOf sendInfo with
    | none => rfl
    | some s =>
      simp [length_addressText, length_portText, length_protoText, length_transportText, Nat.add_assoc]

/-! ## Conditions -/

/-- The outcomes of the calls of `rand` that are to come. -/
abbrev Rand := Nat → Bool

/-- Where the message came from: the bound socket, or what was received. -/
def rcvAddress : IpAddr × Nat × Proto :=
  match msg.rcv.bindAddress with
  | some b => (b.address, b.portNo, b.proto)
  | none => (msg.rcv.dstIp, msg.rcv.dstPort, msg.rcv.proto)

/-- `lump_check_opt`. Without a sending socket all that can differ is taken to. -/
def lumpCheckOpt (sendInfo : Option DestInfo) (cond : LumpCond) (rand : Rand) : Bool × Rand :=
  let differs (test : IpAddr → Nat → Proto → SocketInfo → Bool) : Bool :=
    (sendSockOf sendInfo).elim true fun s => test (rcvAddress msg).1 (rcvAddress msg).2.1 (rcvAddress msg).2.2 s
  match cond with
  | .false => (false, rand)
  | .true => (true, rand)
  | .ifDiffRealms => (differs fun ip port proto s => !(port = s.portNo && proto = s.proto && ip = s.address), rand)
  | .ifDiffAf => (differs fun ip _ _ s => ip.af ≠ s.address.af, rand)
  | .ifDiffProto => (differs fun _ _ proto s => proto ≠ s.proto, rand)
  | .ifDiffPort => (differs fun _ port _ s => port ≠ s.portNo, rand)
  | .ifDiffIp => (differs fun ip _ _ s => ip ≠ s.address, rand)
  | .ifRand => (rand 0, fun n => rand (n + 1))

/-- The other conditions do not depend on chance. -/
theorem lumpCheckOpt_of_ne (sendInfo) {cond} (h : cond ≠ .ifRand) :
    ∃ b, ∀ rand, lumpCheckOpt msg sendInfo cond rand = (b, rand) := by
  cases cond with
  | ifRand => exact absurd rfl h
  | _ => exact ⟨_, fun _ => rfl⟩

end Subst

end SipRouter.Msg
