import Mathlib.Data.List.Basic

/-!
# Lumps (`data_lump.c`, `lump_struct.h`)

A script does not change a message in place. It leaves lumps: `del_lump` and `anchor_lump` put one in a list that is
sorted by offset, and the `insert_..._lump_before` and `_after` functions hang text on a
lump. There are two lists, `add_rm` for the headers and `body_lumps` for the body; the offset decides, once
the end of the headers is known.

An allocation that fails leaves the lists as they are, and is left out.
-/

namespace SipRouter.Msg

open List Option

/-- The bytes of a text. -/
def bytes (s : String) : List UInt8 := s.toList.map Char.toUInt8

/-! ## Addresses -/

inductive AddrFamily where
  | inet
  | inet6
  deriving DecidableEq

structure IpAddr where
  af : AddrFamily
  addr : List UInt8
  deriving DecidableEq

inductive Proto where
  | none
  | udp
  | tcp
  | tls
  | sctp
  deriving DecidableEq

/-- `struct socket_info`. -/
structure SocketInfo where
  address : IpAddr
  addressStr : List UInt8
  portNo : Nat
  portNoStr : List UInt8
  proto : Proto

/-- `struct receive_info`. -/
structure ReceiveInfo where
  bindAddress : Option SocketInfo
  dstIp : IpAddr
  dstPort : Nat
  proto : Proto

/-- `struct dest_info`. -/
structure DestInfo where
  proto : Proto
  sendSock : Option SocketInfo

/-! ## Lumps -/

/-- `enum lump_subst`. -/
inductive LumpSubst where
  | nop
  | rcvIp
  | sndIp
  | rcvPort
  | sndPort
  | rcvProto
  | sndProto
  | rcvAll
  | sndAll

/-- `enum lump_conditions`. -/
inductive LumpCond where
  | false
  | true
  | ifDiffRealms
  | ifDiffAf
  | ifDiffProto
  | ifDiffPort
  | ifDiffIp
  | ifRand
  deriving DecidableEq

/-- `LUMP_ADD`, `LUMP_ADD_SUBST` and `LUMP_ADD_OPT`, the operations of lumps that hang on another one. -/
inductive AddOp where
  | add (value : List UInt8)
  | addSubst (subst : LumpSubst)
  | addOpt (cond : LumpCond)

/-- `enum lump_op`. -/
inductive LumpOp where
  | nop (offset : Nat)
  | del (offset len : Nat)
  | add (op : AddOp)

inductive Side where
  | before
  | after

/-- What hangs on a lump on one side. -/
inductive LumpTree where
  | none
  | lump (op : AddOp) (before after : LumpTree)

/-- `struct lump`, of a list. -/
structure Lump where
  op : LumpOp
  before : LumpTree
  after : LumpTree

namespace LumpTree

/-- The lumps on the `before` pointers, or on the `after` pointers. -/
def chain (side : Side) : LumpTree → List AddOp
  | .none => []
  | .lump op before after =>
    op :: match side with
      | .before => before.chain side
      | .after => after.chain side

/-- A new lump next to the lump at `path`. -/
def insert (side : Side) (op : AddOp) : List Side → LumpTree → LumpTree
  | _, .none => .none
  | [], .lump op' before after =>
    match side with
    | .before => .lump op' (.lump op before .none) after
    | .after => .lump op' before (.lump op .none after)
  | .before :: path, .lump op' before after => .lump op' (before.insert side op path) after
  | .after :: path, .lump op' before after => .lump op' before (after.insert side op path)

end LumpTree

namespace Lump

/-- The place where a deletion or an anchor begins, and where it ends. -/
def range (t : Lump) : Option (Nat × Nat) :=
  match t.op with
  | .nop offset => some (offset, offset)
  | .del offset len => some (offset, offset + len)
  | .add _ => none

def insert (side : Side) (op : AddOp) : List Side → Lump → Lump
  | [], t =>
    match side with
    | .before => { t with before := .lump op t.before .none }
    | .after => { t with after := .lump op .none t.after }
  | .before :: path, t => { t with before := t.before.insert side op path }
  | .after :: path, t => { t with after := t.after.insert side op path }

end Lump

/-- The six functions that hang a lump on the lump at `path`. -/
def insertNewLumpAfter (path : List Side) (newHdr : List UInt8) : Lump → Lump := Lump.insert .after (.add newHdr) path

def insertNewLumpBefore (path : List Side) (newHdr : List UInt8) : Lump → Lump :=
  Lump.insert .before (.add newHdr) path

def insertSubstLumpAfter (path : List Side) (subst : LumpSubst) : Lump → Lump :=
  Lump.insert .after (.addSubst subst) path

def insertSubstLumpBefore (path : List Side) (subst : LumpSubst) : Lump → Lump :=
  Lump.insert .before (.addSubst subst) path

def insertCondLumpAfter (path : List Side) (c : LumpCond) : Lump → Lump := Lump.insert .after (.addOpt c) path

def insertCondLumpBefore (path : List Side) (c : LumpCond) : Lump → Lump := Lump.insert .before (.addOpt c) path

/-- `append_new_lump`. -/
def appendNewLump (newHdr : List UInt8) (list : List Lump) : List Lump := list ++ [⟨.add (.add newHdr), .none, .none⟩]

/-- `insert_new_lump`. -/
def insertNewLump (newHdr : List UInt8) (list : List Lump) : List Lump := ⟨.add (.add newHdr), .none, .none⟩ :: list

/-- The loop of `del_lump` and `anchor_lump`: in front of the first lump with a greater offset. -/
def insertByOffset (offset : Nat) (tmp : Lump) : List Lump → List Lump
  | [] => [tmp]
  | t :: list =>
    if t.range.any (fun r => offset < r.1) then tmp :: t :: list
    else t :: insertByOffset offset tmp list

/-! ## Messages -/

/-- What `parse_headers` finds when it parses the headers to their end: an error, no end, or the empty line behind
them. -/
inductive HeadersEnd where
  | bad
  | missing
  | found (offset : Nat)

/-- A Content-Length header: its offset and its length with the end of its line, and the same of its value. -/
structure ClenField where
  name : Nat
  len : Nat
  body : Nat
  bodyLen : Nat

/-- What the texts of lumps are made from. -/
structure MsgData where
  buf : List UInt8
  rcv : ReceiveInfo
  setGlobalAddress : List UInt8
  setGlobalPort : List UInt8

/-- `struct sip_msg`, with its parts by their offsets. -/
structure SipMsg extends MsgData where
  headersEnd : HeadersEnd
  contentLength : Option ClenField
  eoh : Option Nat
  addRm : List Lump
  bodyLumps : List Lump

namespace SipMsg

/-- A lump goes to the list for its offset. -/
def putLump (offset : Nat) (tmp : Lump) (msg : SipMsg) : SipMsg :=
  if msg.eoh.any (· < offset) then
    { msg with bodyLumps := insertByOffset offset tmp msg.bodyLumps }
  else { msg with addRm := insertByOffset offset tmp msg.addRm }

/-- `del_lump`, with the lump as the caller leaves it; `none` if it aborts. -/
def delLump (offset len : Nat) (before after : LumpTree) (msg : SipMsg) : Option SipMsg :=
  if msg.buf.length < offset ∨ msg.buf.length < offset + len then none
  else some (msg.putLump offset ⟨.del offset len, before, after⟩)

/-- `anchor_lump`. -/
def anchorLump (offset : Nat) (before after : LumpTree) (msg : SipMsg) : Option SipMsg :=
  if msg.buf.length < offset then none
  else some (msg.putLump offset ⟨.nop offset, before, after⟩)

end SipMsg

/-- A list of a message. -/
inductive LumpList where
  | addRm
  | bodyLumps

def SipMsg.modifyList (list : LumpList) (f : List Lump → List Lump) (msg : SipMsg) : SipMsg :=
  match list with
  | .addRm => { msg with addRm := f msg.addRm }
  | .bodyLumps => { msg with bodyLumps := f msg.bodyLumps }

/-- What a script may do: have the headers parsed to their end, and call the functions for lumps. -/
inductive LumpCall where
  | parseHeaders
  | delLump (offset len : Nat)
  | anchorLump (offset : Nat)
  | appendNewLump (list : LumpList) (newHdr : List UInt8)
  | insertNewLump (list : LumpList) (newHdr : List UInt8)
  | insertNewLumpAfter (list : LumpList) (i : Nat) (path : List Side) (newHdr : List UInt8)
  | insertNewLumpBefore (list : LumpList) (i : Nat) (path : List Side) (newHdr : List UInt8)
  | insertSubstLumpAfter (list : LumpList) (i : Nat) (path : List Side) (subst : LumpSubst)
  | insertSubstLumpBefore (list : LumpList) (i : Nat) (path : List Side) (subst : LumpSubst)
  | insertCondLumpAfter (list : LumpList) (i : Nat) (path : List Side) (c : LumpCond)
  | insertCondLumpBefore (list : LumpList) (i : Nat) (path : List Side) (c : LumpCond)

/-- A call, `none` if it aborts. -/
def LumpCall.step (msg : SipMsg) : LumpCall → Option SipMsg
  | .parseHeaders =>
    match msg.headersEnd with
    | .found offset => some { msg with eoh := some offset }
    | _ => some msg
  | .delLump offset len => msg.delLump offset len .none .none
  | .anchorLump offset => msg.anchorLump offset .none .none
  | .appendNewLump list newHdr => some (msg.modifyList list (Msg.appendNewLump newHdr))
  | .insertNewLump list newHdr => some (msg.modifyList list (Msg.insertNewLump newHdr))
  | .insertNewLumpAfter list i path newHdr =>
    some (msg.modifyList list (·.modify i (Msg.insertNewLumpAfter path newHdr)))
  | .insertNewLumpBefore list i path newHdr =>
    some (msg.modifyList list (·.modify i (Msg.insertNewLumpBefore path newHdr)))
  | .insertSubstLumpAfter list i path subst =>
    some (msg.modifyList list (·.modify i (Msg.insertSubstLumpAfter path subst)))
  | .insertSubstLumpBefore list i path subst =>
    some (msg.modifyList list (·.modify i (Msg.insertSubstLumpBefore path subst)))
  | .insertCondLumpAfter list i path c =>
    some (msg.modifyList list (·.modify i (Msg.insertCondLumpAfter path c)))
  | .insertCondLumpBefore list i path c =>
    some (msg.modifyList list (·.modify i (Msg.insertCondLumpBefore path c)))

/-- The message as it was received. -/
structure SipMsg.Fresh (msg : SipMsg) : Prop where
  addRm : msg.addRm = []
  bodyLumps : msg.bodyLumps = []
  eoh : ∀ e, msg.eoh = some e → msg.headersEnd = .found e

/-- The message after some calls, none of which aborted. -/
def SipMsg.Built (msg : SipMsg) : Prop :=
  ∃ msg₀, SipMsg.Fresh msg₀ ∧ ∃ calls : List LumpCall, calls.foldlM LumpCall.step msg₀ = some msg

/-! ## The lists stay sorted -/

/-- The places of the deletions and anchors of a list. -/
def ranges (list : List Lump) : List (Nat × Nat) := list.filterMap Lump.range

theorem range_insert (side : Side) (op path) (t : Lump) : (t.insert side op path).range = t.range := by
  cases path with
  | nil => cases side <;> rfl
  | cons d path => cases d <;> rfl

theorem ranges_modify {f} (hf : ∀ t, (f t).range = t.range) (i : Nat) (list) :
    ranges (list.modify i f) = ranges list := by
  induction list generalizing i with
  | nil => simp
  | cons t list ih =>
    cases i with
    | zero => simp [ranges, filterMap_cons, hf]
    | succ i =>
      have htail := ih i
      simp only [ranges] at htail
      simp [ranges, filterMap_cons, htail]

/-- Where a lump is put in its list. -/
theorem insertByOffset_eq (offset : Nat) (tmp : Lump) (list) :
    ∃ l1 l2, list = l1 ++ l2 ∧ insertByOffset offset tmp list = l1 ++ tmp :: l2 ∧
      (∀ r ∈ ranges l1, r.1 ≤ offset) ∧ ∀ t ∈ l2.head?, ∃ r ∈ t.range, offset < r.1 := by
  induction list with
  | nil => exact ⟨[], [], rfl, rfl, nofun, nofun⟩
  | cons t list ih =>
    rw [insertByOffset]
    split_ifs with hgt
    · refine ⟨[], t :: list, rfl, rfl, nofun, ?_⟩
      intro t' ht'
      obtain rfl : t = t' := by simpa using ht'
      cases hr : t.range with
      | none => simp [hr] at hgt
      | some r => exact ⟨r, rfl, by simpa [hr] using hgt⟩
    · obtain ⟨l1, l2, rfl, heq, hle, hhead⟩ := ih
      refine ⟨t :: l1, l2, rfl, by rw [heq]; rfl, ?_, hhead⟩
      intro r hr
      cases ht : t.range with
      | none => exact hle r (by simpa [ranges, filterMap_cons, ht] using hr)
      | some r' =>
        have hmem : r = r' ∨ r ∈ ranges l1 := by simpa [ranges, filterMap_cons, ht] using hr
        rcases hmem with rfl | hmem
        · simpa [ht] using hgt
        · exact hle r hmem

/-- The offsets of a list increase. -/
def SortedByOffset (list : List Lump) : Prop := (ranges list).Pairwise fun r r' => r.1 ≤ r'.1

theorem ranges_append {l1 l2} : ranges (l1 ++ l2) = ranges l1 ++ ranges l2 := filterMap_append

variable {r : Nat × Nat} {list : List Lump} {offset : Nat} {tmp : Lump}

theorem ranges_cons {t} (hr : t.range = some r) (list) : ranges (t :: list) = r :: ranges list :=
  filterMap_cons_some hr

theorem mem_ranges_head {t} (hr : t.range = some r) : r ∈ ranges (t :: list) := ranges_cons hr list ▸ mem_cons_self ..

theorem mem_ranges_tail {t} (hr : r ∈ ranges list) : r ∈ ranges (t :: list) :=
  (Sublist.filterMap _ (sublist_cons_self t list)).subset hr

/-- Behind a lump with a greater offset, all have one. -/
theorem SortedByOffset.lt_of_head (h : SortedByOffset list)
    (hhead : ∀ t ∈ list.head?, ∃ r ∈ t.range, offset < r.1) : ∀ r ∈ ranges list, offset < r.1 := by
  cases list with
  | nil => exact nofun
  | cons t list =>
    obtain ⟨r, hr, hlt⟩ := hhead t rfl
    rw [SortedByOffset, ranges_cons hr] at h
    intro r' hr'
    rw [ranges_cons hr] at hr'
    rcases mem_cons.1 hr' with rfl | hmem
    · exact hlt
    · have hle := (pairwise_cons.1 h).1 r' hmem
      omega

theorem SortedByOffset.insertByOffset (h : SortedByOffset list) (hr : tmp.range = some r) :
    SortedByOffset (insertByOffset r.1 tmp list) := by
  obtain ⟨l1, l2, rfl, heq, hle, hhead⟩ := insertByOffset_eq r.1 tmp list
  rw [SortedByOffset, ranges_append] at h
  obtain ⟨h1, h2, h12⟩ := pairwise_append.1 h
  have hgt := SortedByOffset.lt_of_head h2 hhead
  rw [heq, SortedByOffset, ranges_append, ranges_cons hr]
  refine pairwise_append.2 ⟨h1, pairwise_cons.2 ⟨?_, h2⟩, ?_⟩
  · exact fun r' hr' => Nat.le_of_lt (hgt r' hr')
  · intro r' hr' r'' hr''
    rcases mem_cons.1 hr'' with rfl | hmem
    · exact hle r' hr'
    · exact h12 r' hr' r'' hmem

theorem mem_ranges_insertByOffset (hr : tmp.range = some r) {list r'} :
    r' ∈ ranges (insertByOffset offset tmp list) ↔ r' = r ∨ r' ∈ ranges list := by
  obtain ⟨l1, l2, rfl, heq, -, -⟩ := insertByOffset_eq offset tmp list
  rw [heq, ranges_append, ranges_cons hr, ranges_append, perm_middle.mem_iff, mem_cons]

theorem ranges_le (h : r ∈ ranges list) : r.1 ≤ r.2 := by
  obtain ⟨t, -, hr⟩ := mem_filterMap.1 h
  obtain ⟨op, before, after⟩ := t
  cases op with
  | nop offset =>
    obtain rfl : (offset, offset) = r := some.inj hr
    exact Nat.le_refl _
  | del offset len =>
    obtain rfl : (offset, offset + len) = r := some.inj hr
    exact Nat.le_add_right ..
  | add op => cases hr

/-- Two lists, of which the second begins where the first ends or later. -/
theorem SortedByOffset.append {l1 l2} (h1 : SortedByOffset l1) (h2 : SortedByOffset l2)
    (h12 : ∀ r ∈ ranges l1, ∀ r' ∈ ranges l2, r.2 ≤ r'.1) : SortedByOffset (l1 ++ l2) := by
  rw [SortedByOffset, ranges_append]
  refine pairwise_append.2 ⟨h1, h2, ?_⟩
  exact fun r hr r' hr' => Nat.le_trans (ranges_le hr) (h12 r hr r' hr')

/-- The lists of a message are sorted and within it, and the body has only lumps behind the headers. -/
structure SipMsg.LumpsOk (msg : SipMsg) : Prop where
  addRm : SortedByOffset msg.addRm
  bodyLumps : SortedByOffset msg.bodyLumps
  headers : ∀ r ∈ ranges msg.addRm, r.2 ≤ msg.buf.length
  body : ∀ r ∈ ranges msg.bodyLumps, r.2 ≤ msg.buf.length ∧ ∃ e, msg.eoh = some e ∧ e < r.1
  eoh : ∀ e, msg.eoh = some e → msg.headersEnd = .found e

namespace SipMsg.LumpsOk

variable {msg msg' : SipMsg}

theorem fresh (h : msg.Fresh) : msg.LumpsOk where
  addRm := h.addRm ▸ List.Pairwise.nil
  bodyLumps := h.bodyLumps ▸ List.Pairwise.nil
  headers := by simp [h.addRm, ranges]
  body := by simp [h.bodyLumps, ranges]
  eoh := h.eoh

variable (h : msg.LumpsOk)

include h

/-- What is in the headers is in front of the lumps of the body. -/
theorem le_body {n} (hn : ∀ e, msg.headersEnd = .found e → n ≤ e) : ∀ r ∈ ranges msg.bodyLumps, n ≤ r.1 := by
  intro r hr
  obtain ⟨-, e, he, hlt⟩ := h.body r hr
  exact Nat.le_trans (hn e (h.eoh e he)) (Nat.le_of_lt hlt)

theorem putLump (hr : tmp.range = some r) (hin : r.2 ≤ msg.buf.length) : (msg.putLump r.1 tmp).LumpsOk := by
  unfold SipMsg.putLump
  split_ifs with heoh
  · refine ⟨h.addRm, h.bodyLumps.insertByOffset hr, h.headers, ?_, h.eoh⟩
    intro r' hr'
    rcases (mem_ranges_insertByOffset hr).1 hr' with rfl | hmem
    · refine ⟨hin, ?_⟩
      cases he : msg.eoh with
      | none => simp [he] at heoh
      | some e => exact ⟨e, rfl, by simpa [he] using heoh⟩
    · exact h.body r' hmem
  · refine ⟨h.addRm.insertByOffset hr, h.bodyLumps, ?_, h.body, h.eoh⟩
    intro r' hr'
    rcases (mem_ranges_insertByOffset hr).1 hr' with rfl | hmem
    · exact hin
    · exact h.headers r' hmem

theorem delLump {len before after} (hdel : msg.delLump offset len before after = some msg') : msg'.LumpsOk := by
  unfold SipMsg.delLump at hdel
  split_ifs at hdel with hrange
  obtain rfl := some.inj hdel
  exact h.putLump (r := (offset, offset + len)) rfl (by simp only; omega)

theorem anchorLump {before after} (hanchor : msg.anchorLump offset before after = some msg') : msg'.LumpsOk := by
  unfold SipMsg.anchorLump at hanchor
  split_ifs at hanchor with hrange
  obtain rfl := some.inj hanchor
  exact h.putLump (r := (offset, offset)) rfl (by simp only; omega)

/-- What hangs on the lumps does not matter. -/
theorem modifyList {f} (hf : ∀ list, ranges (f list) = ranges list) (list) : (msg.modifyList list f).LumpsOk := by
  cases list with
  | addRm =>
    refine ⟨?_, h.bodyLumps, ?_, h.body, h.eoh⟩
    · show (ranges (f msg.addRm)).Pairwise _
      rw [hf]
      exact h.addRm
    · show ∀ r ∈ ranges (f msg.addRm), _
      rw [hf]
      exact h.headers
  | bodyLumps =>
    refine ⟨h.addRm, ?_, h.headers, ?_, h.eoh⟩
    · show (ranges (f msg.bodyLumps)).Pairwise _
      rw [hf]
      exact h.bodyLumps
    · show ∀ r ∈ ranges (f msg.bodyLumps), _
      rw [hf]
      exact h.body

theorem modify (side : Side) (op path) (i : Nat) (list) :
    (msg.modifyList list (·.modify i (Lump.insert side op path))).LumpsOk :=
  h.modifyList (ranges_modify (range_insert side op path) i) list

/-- Every call keeps the lists in order. -/
theorem step {c : LumpCall} (hstep : c.step msg = some msg') : msg'.LumpsOk := by
  cases c with
  | parseHeaders =>
    cases hend : msg.headersEnd with
    | bad | missing =>
      obtain rfl : msg = msg' := by simpa [LumpCall.step, hend] using hstep
      exact h
    | found e =>
      obtain rfl : { msg with eoh := some e } = msg' := by simpa [LumpCall.step, hend] using hstep
      refine ⟨h.addRm, h.bodyLumps, h.headers, ?_, ?_⟩
      · intro r hr
        obtain ⟨hin, e', he', hlt⟩ := h.body r hr
        obtain rfl : e = e' := HeadersEnd.found.inj (hend.symm.trans (h.eoh e' he'))
        exact ⟨hin, e, rfl, hlt⟩
      · intro e' he'
        rw [← some.inj he']
        exact hend
  | delLump offset len => exact h.delLump hstep
  | anchorLump offset => exact h.anchorLump hstep
  | appendNewLump list newHdr =>
    obtain rfl := some.inj hstep
    refine h.modifyList (fun list => ?_) list
    simp [Msg.appendNewLump, ranges, Lump.range]
  | insertNewLump list newHdr =>
    obtain rfl := some.inj hstep
    refine h.modifyList (fun list => ?_) list
    exact filterMap_cons_none rfl
  | insertNewLumpAfter list i path newHdr | insertNewLumpBefore list i path newHdr
  | insertSubstLumpAfter list i path subst =>
    obtain rfl := some.inj hstep
    exact h.modify ..
  | insertSubstLumpBefore list i path subst | insertCondLumpAfter list i path c | insertCondLumpBefore list i path c =>
    obtain rfl := some.inj hstep
    exact h.modify ..

end SipMsg.LumpsOk

/-- So the lists that a script has built are in order. -/
theorem SipMsg.Built.lumpsOk {msg : SipMsg} (h : msg.Built) : msg.LumpsOk := by
  obtain ⟨msg0, hfresh, calls, hrun⟩ := h
  have hok := LumpsOk.fresh hfresh
  clear hfresh
  induction calls generalizing msg0 with
  | nil =>
    obtain rfl := some.inj hrun
    exact hok
  | cons c calls ih =>
    rw [foldlM_cons] at hrun
    obtain ⟨msg1, hstep, hrun⟩ := bind_eq_some_iff.1 hrun
    exact ih msg1 hrun (hok.step hstep)

end SipRouter.Msg
