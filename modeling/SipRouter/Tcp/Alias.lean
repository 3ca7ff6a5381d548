import Mathlib.Data.List.Basic

/-!
# Aliases of TCP connections (`tcp_main.c`, `tcp_conn.h`)

A connection is found by the address of its peer through its aliases, which are chained in
a hash table. The key of an alias has the port of the peer and a local address and port,
each of which may be left open. What is kept of the key is the port alone: a search
compares the local address and port it asks for with those of the connection, whatever key
the alias was put in under.

The flag `TCP_ALIAS_REPLACE` is left out.
-/

namespace SipRouter.Tcp

open List Option Function

/-- The family of an `ip_addr`, `unset` if it is 0. -/
inductive Af where
  | unset
  | inet
  | inet6
deriving DecidableEq

/-- An `ip_addr`, with `u.addr32`. -/
structure IpAddr where
  af : Af
  w0 : UInt32
  w1 : UInt32
  w2 : UInt32
  w3 : UInt32

/-- The words that `len` covers. -/
def IpAddr.words (ip : IpAddr) : List UInt32 :=
  match ip.af with
  | .unset => []
  | .inet => [ip.w0]
  | .inet6 => [ip.w0, ip.w1, ip.w2, ip.w3]

def ipAddrAny (ip : IpAddr) : Bool := ip.words.all (· = 0)

def ipAddrCmp (ip1 ip2 : IpAddr) : Bool := ip1.af = ip2.af && ip1.words = ip2.words

def ipAddrMkAny (af : Af) : IpAddr := ⟨af, 0, 0, 0, 0⟩

theorem ipAddrCmp_iff {ip1 ip2} : ipAddrCmp ip1 ip2 = true ↔ ip1.af = ip2.af ∧ ip1.words = ip2.words := by
  simp [ipAddrCmp]

/-- The key of a search, and of an alias: the peer, and the local address and port, where a zero leaves it open. -/
structure AddrKey where
  ip : IpAddr
  port : UInt16
  lIp : IpAddr
  lPort : UInt16

/-- The last part of `tcp_addr_hash`: the first bits are influenced by all 32. -/
def foldHash (h : UInt32) : UInt32 :=
  let h := h ^^^ (h >>> 17)
  let h := h ^^^ (h >>> 7)
  h &&& 4095

/-- `tcp_addr_hash`. -/
def tcpAddrHash (k : AddrKey) : UInt32 :=
  match k.ip.af with
  | .inet => foldHash ((k.ip.w0 ^^^ k.port.toUInt32) ^^^ (k.lIp.w0 ^^^ k.lPort.toUInt32))
  | .inet6 =>
    foldHash ((k.ip.w0 ^^^ k.ip.w1 ^^^ k.ip.w2 ^^^ k.ip.w3 ^^^ k.port.toUInt32) ^^^
      (k.lIp.w0 ^^^ k.lIp.w1 ^^^ k.lIp.w2 ^^^ k.lIp.w3 ^^^ k.lPort.toUInt32))
  | .unset => 0

/-- What the searches read of a `tcp_connection`. -/
structure TcpConnection where
  id : Nat
  srcIp : IpAddr
  srcPort : UInt16
  dstIp : IpAddr
  dstPort : UInt16
  /-- `S_CONN_BAD` -/
  bad : Bool

structure TcpConnAlias where
  parent : Nat
  port : UInt16

/-- The connections by their addresses in memory, how many aliases each has, and the two hash tables. -/
structure ConnTables where
  conn : Nat → TcpConnection
  aliases : Nat → Nat
  idHash : Nat → List Nat
  aliasesHash : UInt32 → List TcpConnAlias

def tcpIdHash (id : Nat) : Nat := id % 1024

def tcpConMaxAliases : Nat := 12

/-- `TCP_ALIAS_FORCE_ADD` for new connections and for aliases. -/
structure AliasFlags where
  newConnForce : Bool
  aliasForce : Bool

/-- The test of a search for an alias of the connection `con`. -/
def accepts (k : AddrKey) (con : TcpConnection) (port : UInt16) : Bool :=
  !con.bad && k.port = port && (k.lPort = 0 || k.lPort = con.dstPort) && ipAddrCmp k.ip con.srcIp &&
    (ipAddrAny k.lIp || ipAddrCmp k.lIp con.dstIp)

namespace ConnTables

/-- `_tcpconn_find` by the id. -/
def tcpconnFindId (s : ConnTables) (id : Nat) : Option Nat :=
  (s.idHash (tcpIdHash id)).find? fun c => (s.conn c).id = id && !(s.conn c).bad

/-- `_tcpconn_find` by the addresses. -/
def tcpconnFind (s : ConnTables) (k : AddrKey) : Option Nat :=
  ((s.aliasesHash (tcpAddrHash k)).find? fun a => accepts k (s.conn a.parent) a.port).map (·.parent)

/-- `_tcpconn_add_alias_unsafe`. With the flag, an alias of another connection is passed over. -/
def tcpconnAddAliasUnsafe (force : Bool) (c : Nat) (port : UInt16) (lIp : IpAddr) (lPort : UInt16) (s : ConnTables) :
    Int × ConnTables :=
  let k : AddrKey := ⟨(s.conn c).srcIp, port, lIp, lPort⟩
  match (s.aliasesHash (tcpAddrHash k)).find? fun a =>
    accepts k (s.conn a.parent) a.port && (!force || a.parent = c) with
  | some a => (if a.parent = c then 0 else -3, s)
  | none =>
    if tcpConMaxAliases ≤ s.aliases c then (-2, s)
    else
      (0, { s with
        aliases := update s.aliases c (s.aliases c + 1)
        aliasesHash := update s.aliasesHash (tcpAddrHash k) (⟨c, port⟩ :: s.aliasesHash (tcpAddrHash k)) })

/-- A new connection, which has no aliases yet, is put in by its id. -/
def hashId (s : ConnTables) (c : Nat) : ConnTables :=
  let i := tcpIdHash (s.conn c).id
  { s with aliases := update s.aliases c 0, idHash := update s.idHash i (c :: s.idHash i) }

/-- `tcpconn_add`. Errors of the aliases are ignored. -/
def tcpconnAdd (flags : AliasFlags) (c : Nat) (s : ConnTables) : ConnTables :=
  let con := s.conn c
  let s := ((s.hashId c).tcpconnAddAliasUnsafe flags.newConnForce c con.srcPort (ipAddrMkAny con.srcIp.af) 0).2
  if con.dstIp.af ≠ .unset ∧ ¬ ipAddrAny con.dstIp then
    let s := (s.tcpconnAddAliasUnsafe flags.newConnForce c con.srcPort con.dstIp 0).2
    (s.tcpconnAddAliasUnsafe flags.newConnForce c con.srcPort con.dstIp con.dstPort).2
  else s

/-- The port of an alias: the default one of the protocol for 0. -/
def fixPort (port : UInt16) (tls : Bool) : UInt16 := if port ≠ 0 then port else if tls then 5061 else 5060

/-- `tcpconn_add_alias`. That an alias is taken (-3) is an error for the last key only. -/
def tcpconnAddAlias (flags : AliasFlags) (id : Nat) (port : UInt16) (tls : Bool) (s : ConnTables) : Int × ConnTables :=
  match s.tcpconnFindId id with
  | none => (-1, s)
  | some c =>
    let con := s.conn c
    let r := s.tcpconnAddAliasUnsafe flags.aliasForce c (fixPort port tls) (ipAddrMkAny con.srcIp.af) 0
    if r.1 < 0 ∧ r.1 ≠ -3 then (-1, r.2)
    else
      let r := r.2.tcpconnAddAliasUnsafe flags.aliasForce c (fixPort port tls) con.dstIp 0
      if r.1 < 0 ∧ r.1 ≠ -3 then (-1, r.2)
      else
        let r := r.2.tcpconnAddAliasUnsafe flags.aliasForce c (fixPort port tls) con.dstIp con.dstPort
        (if r.1 < 0 then -1 else 0, r.2)

end ConnTables

/-- A call that adds a connection or an alias of one. -/
inductive AliasCall where
  | add (c : Nat)
  | addAlias (id : Nat) (port : UInt16) (tls : Bool)

namespace AliasCall

def exec (flags : AliasFlags) (s : ConnTables) : AliasCall → ConnTables
  | add c => s.tcpconnAdd flags c
  | addAlias id port tls => (s.tcpconnAddAlias flags id port tls).2

/-- The connection that a call is for, and the port of the aliases. -/
def target (s : ConnTables) : AliasCall → Option (Nat × UInt16)
  | add c => some (c, (s.conn c).srcPort)
  | addAlias id port tls => (s.tcpconnFindId id).map fun c => (c, ConnTables.fixPort port tls)

end AliasCall

def runAliases (flags : AliasFlags) (calls : List AliasCall) (s : ConnTables) : ConnTables :=
  calls.foldl (AliasCall.exec flags) s

/-! ## Whose aliases a search finds -/

/-- The keys under which a call may put an alias. -/
def TcpConnection.keys (con : TcpConnection) (port : UInt16) : List AddrKey :=
  [⟨con.srcIp, port, ipAddrMkAny con.srcIp.af, 0⟩, ⟨con.srcIp, port, con.dstIp, 0⟩,
    ⟨con.srcIp, port, con.dstIp, con.dstPort⟩]

/-- An alias of the connection `d` put in under the key `k` does not get in front of one of `c` that
a search for `q` finds: it is not in the way, or the key finds the alias of `c` too. -/
def Spares (conn : Nat → TcpConnection) (q : AddrKey) (c d : Nat) (k : AddrKey) : Prop :=
  d ≠ c → tcpAddrHash k = tcpAddrHash q → accepts q (conn d) k.port = true →
    (k.lPort = 0 ∨ k.lPort = (conn c).dstPort) ∧ (ipAddrAny k.lIp = true ∨ ipAddrCmp k.lIp (conn c).dstIp = true)

/-- The same for every key of a call. -/
def AliasCall.Spares (q : AddrKey) (c : Nat) (s : ConnTables) (call : AliasCall) : Prop :=
  ∀ d port, call.target s = some (d, port) → ∀ k ∈ (s.conn d).keys port, Tcp.Spares s.conn q c d k

theorem accepts_iff {k con port} :
    accepts k con port = true ↔ con.bad = false ∧ k.port = port ∧ (k.lPort = 0 ∨ k.lPort = con.dstPort) ∧
      ipAddrCmp k.ip con.srcIp = true ∧ (ipAddrAny k.lIp = true ∨ ipAddrCmp k.lIp con.dstIp = true) := by
  simp [accepts, and_assoc]

theorem ipAddrCmp_common {ip ip1 ip2} (h1 : ipAddrCmp ip ip1 = true)
    (h2 : ipAddrCmp ip ip2 = true) : ipAddrCmp ip1 ip2 = true := by
  rw [ipAddrCmp_iff] at h1 h2 ⊢
  exact ⟨h1.1.symm.trans h2.1, h1.2.symm.trans h2.2⟩

/-- If a search for `q` finds both connections, then so does one for a key of the first that leaves
open or has the local address and port of the second. -/
theorem accepts_key {q con con' port lIp lPort}
    (h : accepts q con port = true) {port'} (h' : accepts q con' port' = true)
    (hport : lPort = 0 ∨ lPort = con'.dstPort) (hip : ipAddrAny lIp = true ∨ ipAddrCmp lIp con'.dstIp = true) :
    accepts ⟨con.srcIp, port, lIp, lPort⟩ con' port' = true := by
  obtain ⟨_, hp, _, hsrc, _⟩ := accepts_iff.1 h
  obtain ⟨hbad, hp', _, hsrc', _⟩ := accepts_iff.1 h'
  rw [accepts_iff]
  exact ⟨hbad, hp.symm.trans hp', hport, ipAddrCmp_common hsrc hsrc', hip⟩

/-- What one call for an alias does: the alias is put at the head of its chain, if the key finds
none, or nothing changes. -/
inductive AddsAlias (d : Nat) (k : AddrKey) (s : ConnTables) : ConnTables → Prop
  | same : AddsAlias d k s s
  | head {s' : ConnTables} (hnone : ∀ a ∈ s.aliasesHash (tcpAddrHash k), ¬ accepts k (s.conn a.parent) a.port = true)
      (hconn : s'.conn = s.conn)
      (hhash : s'.aliasesHash = update s.aliasesHash (tcpAddrHash k) (⟨d, k.port⟩ :: s.aliasesHash (tcpAddrHash k))) :
      AddsAlias d k s s'

namespace ConnTables

theorem addAliasUnsafe_adds (d : Nat) (port lIp lPort s) :
    AddsAlias d ⟨(s.conn d).srcIp, port, lIp, lPort⟩ s (s.tcpconnAddAliasUnsafe false d port lIp lPort).2 := by
  simp only [tcpconnAddAliasUnsafe, Bool.not_false, Bool.true_or, Bool.and_true]
  cases hfind : List.find? _ _ with
  | some a => exact .same
  | none =>
    by_cases hmax : tcpConMaxAliases ≤ s.aliases d
    · rw [if_pos hmax]
      exact .same
    · rw [if_neg hmax]
      exact .head (find?_eq_none.1 hfind) rfl rfl

end ConnTables

/-- One alias: the search that finds `c` still does. -/
theorem AddsAlias.find {q k : AddrKey} {c d} {s s' : ConnTables} (h : AddsAlias d k s s')
    (hk : k.ip = (s.conn d).srcIp)
    (hspares : Spares s.conn q c d k) (hfind : s.tcpconnFind q = some c) : s'.tcpconnFind q = some c := by
  cases h with
  | same => exact hfind
  | head hnone hconn hhash =>
    obtain ⟨a, ha, rfl⟩ := map_eq_some_iff.1 hfind
    simp only [ConnTables.tcpconnFind, hconn, hhash]
    by_cases hbucket : tcpAddrHash q = tcpAddrHash k
    · rw [hbucket] at ha
      rw [hbucket, update_self, find?_cons]
      cases hd : accepts q (s.conn d) k.port with
      | false => simp only [ha, map_some]
      | true =>
        by_cases hdc : d = a.parent
        · simp only [map_some, hdc]
        -- the key of the new alias would have found that of `c`
        have hloc := hspares hdc hbucket.symm hd
        have hc : accepts q (s.conn a.parent) a.port = true := by simpa using find?_some ha
        have hacc := accepts_key hd hc hloc.1 hloc.2
        rw [← hk] at hacc
        exact absurd hacc (hnone a (mem_of_find?_eq_some ha))
    · rw [update_of_ne hbucket, ha, map_some]

theorem AddsAlias.conn_eq {k d s s'} (h : AddsAlias d k s s') : s'.conn = s.conn := by
  cases h with
  | same => rfl
  | head _ hconn _ => exact hconn

/-- The connections are these, and the search finds `c`. -/
structure Finds (conn : Nat → TcpConnection) (q : AddrKey) (c : Nat) (s : ConnTables) : Prop where
  conn : s.conn = conn
  find : s.tcpconnFind q = some c

section Finds

variable {conn : Nat → TcpConnection} {q : AddrKey} {c d : Nat} {s : ConnTables} {port : UInt16}

section

variable (h : Finds conn q c s)

include h

theorem Finds.addAliasUnsafe {lIp lPort} (hspares : Spares conn q c d ⟨(conn d).srcIp, port, lIp, lPort⟩) :
    Finds conn q c (s.tcpconnAddAliasUnsafe false d port lIp lPort).2 := by
  obtain ⟨rfl, hfind⟩ := h
  have hadds := s.addAliasUnsafe_adds d port lIp lPort
  exact ⟨hadds.conn_eq, hadds.find rfl hspares hfind⟩

theorem Finds.tcpconnAdd (hspares : ∀ k ∈ (conn d).keys (conn d).srcPort, Spares conn q c d k) :
    Finds conn q c (s.tcpconnAdd ⟨false, false⟩ d) := by
  simp only [TcpConnection.keys, forall_mem_cons] at hspares
  obtain ⟨hany, hlocal, hfull, _⟩ := hspares
  obtain ⟨rfl, hfind⟩ := h
  have h0 : Finds s.conn q c (s.hashId d) := ⟨rfl, hfind⟩
  have h1 := h0.addAliasUnsafe hany
  unfold ConnTables.tcpconnAdd
  dsimp only
  split
  · exact (h1.addAliasUnsafe hlocal).addAliasUnsafe hfull
  · exact h1

theorem Finds.tcpconnAddAlias {id tls}
    (hspares : ∀ d, s.tcpconnFindId id = some d → ∀ k ∈ (conn d).keys (ConnTables.fixPort port tls),
      Spares conn q c d k) :
    Finds conn q c (s.tcpconnAddAlias ⟨false, false⟩ id port tls).2 := by
  unfold ConnTables.tcpconnAddAlias
  cases hid : s.tcpconnFindId id with
  | none => exact h
  | some d =>
    have hkeys := hspares d hid
    simp only [TcpConnection.keys, forall_mem_cons] at hkeys
    obtain ⟨hany, hlocal, hfull, _⟩ := hkeys
    obtain ⟨rfl, hfind⟩ := h
    have h1 := Finds.addAliasUnsafe ⟨rfl, hfind⟩ hany
    dsimp only
    split
    · exact h1
    split
    · exact h1.addAliasUnsafe hlocal
    · exact (h1.addAliasUnsafe hlocal).addAliasUnsafe hfull

theorem Finds.exec {call : AliasCall} (hspares : call.Spares q c s) : Finds conn q c (call.exec ⟨false, false⟩ s) := by
  obtain ⟨rfl, hfind⟩ := h
  cases call with
  | add d => exact Finds.tcpconnAdd ⟨rfl, hfind⟩ (hspares d _ rfl)
  | addAlias id port tls =>
    apply Finds.tcpconnAddAlias ⟨rfl, hfind⟩
    exact fun d hd => hspares d _ (by rw [AliasCall.target, hd]; rfl)

end

end Finds

/-- The calls of a run, each with the tables it is made on. -/
def aliasTrace (flags : AliasFlags) : List AliasCall → ConnTables → List (ConnTables × AliasCall)
  | [], _ => []
  | call :: calls, s => (s, call) :: aliasTrace flags calls (call.exec flags s)

/-- Three connections from one peer: the first and the third to port 5060, the second to port 4128. -/
def sampleConns : Nat → TcpConnection
  | 1 => ⟨1, ⟨.inet, 0x0702000c, 0, 0, 0⟩, 40001, ⟨.inet, 0x0100000a, 0, 0, 0⟩, 5060, false⟩
  | 2 => ⟨2, ⟨.inet, 0x0702000c, 0, 0, 0⟩, 40002, ⟨.inet, 0x0100000a, 0, 0, 0⟩, 4128, false⟩
  | n => ⟨n, ⟨.inet, 0x0702000c, 0, 0, 0⟩, 40003, ⟨.inet, 0x0100000a, 0, 0, 0⟩, 5060, false⟩

/-- The first connection with an alias for port 5062. -/
def sampleTables : ConnTables :=
  runAliases ⟨false, false⟩ [.add 1, .addAlias 1 5062 false] ⟨sampleConns, fun _ => 0, fun _ => [], fun _ => []⟩

/-- A search for the peer at port 5062, from the local address. -/
def sampleKey : AddrKey := ⟨⟨.inet, 0x0702000c, 0, 0, 0⟩, 5062, ⟨.inet, 0x0100000a, 0, 0, 0⟩, 0⟩

/-- Without `TCP_ALIAS_FORCE_ADD`, a search that finds a connection goes on to find it, if no call
puts an alias of another connection that the search accepts into its chain under a key with a local
address or port that `c` does not have. -/
theorem alias_not_hijacked {q : AddrKey} {c : Nat} {calls : List AliasCall} :
    ∀ {s : ConnTables}, s.tcpconnFind q = some c →
      (∀ p ∈ aliasTrace ⟨false, false⟩ calls s, p.2.Spares q c p.1) →
      (runAliases ⟨false, false⟩ calls s).tcpconnFind q = some c := by
  induction calls with
  | nil => exact fun h _ => h
  | cons call calls ih =>
    intro s h hspares
    obtain ⟨hcall, hcalls⟩ := forall_mem_cons.1 hspares
    exact ih (Finds.exec ⟨rfl, h⟩ hcall).find hcalls

/-- The third connection asks for the port of the first. -/
theorem alias_not_hijacked_sample :
    sampleTables.tcpconnFind sampleKey = some 1 ∧
    (runAliases ⟨false, false⟩ [.add 3, .addAlias 3 5062 false] sampleTables).tcpconnFind sampleKey = some 1 := by
  have hfind : sampleTables.tcpconnFind sampleKey = some 1 := by decide +kernel
  refine ⟨hfind, alias_not_hijacked hfind ?_⟩
  simp only [aliasTrace, forall_mem_cons]
  refine ⟨?_, ?_, by simp⟩
  · intro d port htarget
    cases htarget
    simp only [Spares]
    decide +kernel
  · intro d port htarget
    have hid : (AliasCall.exec ⟨false, false⟩ sampleTables (.add 3)).tcpconnFindId 3 = some 3 := by decide +kernel
    rw [AliasCall.target, hid] at htarget
    cases htarget
    simp only [Spares]
    decide +kernel

/-- The hashes of the local ports 0 and 4128 are the same, so the alias of the second connection for
its local port is put in front of the one of the first for any local port, which it does not compare
with. -/
theorem alias_hijacked :
    sampleTables.tcpconnFind sampleKey = some 1 ∧
    (runAliases ⟨false, false⟩ [.add 2, .addAlias 2 5062 false] sampleTables).tcpconnFind sampleKey = some 2 := by
  decide +kernel

end SipRouter.Tcp
