import SipRouter.Msg.Build

/-!
# What a build adds to the headers

Before it computes a length, `build_req_buf_from_sip_req` puts lumps of its own in the
list of the headers: the one of `adjust_clen`, and those for parameters of the first Via.
`build_res_buf_from_sip_res` removes the first Via. These lumps go to the same sorted list
as those of the script, so what is said here is where they are, given where the parser
finds the headers of the message.
-/

namespace SipRouter.Msg

open Lib List Option

/-! ## Putting lumps in a list -/

/-- A list that goes on at `q` or later, and not with a text. -/
def StartsAt (q : Nat) (list : List Lump) : Prop := ∀ t ∈ list.head?, ∃ r ∈ t.range, q ≤ r.1

/-- The offset of a deletion or an anchor. -/
def Lump.offset (t : Lump) : Nat := t.range.elim 0 Prod.fst

variable {t : Lump} {r : Nat × Nat} {list own : List Lump} {rand : Rand} {msg msg' : SipMsg}

theorem Lump.offset_eq (h : t.range = some r) : t.offset = r.1 := by
  rw [Lump.offset, h]
  rfl

/-- Lumps put in a list one after the other. -/
def putAll (list own : List Lump) : List Lump := own.foldl (fun list t => insertByOffset t.offset t list) list

theorem putAll_append {list own1 own2} : putAll list (own1 ++ own2) = putAll (putAll list own1) own2 := foldl_append

theorem mem_insertByOffset {offset tmp} : t ∈ insertByOffset offset tmp list ↔ t = tmp ∨ t ∈ list := by
  obtain ⟨l1, l2, rfl, heq, -, -⟩ := insertByOffset_eq offset tmp list
  rw [heq, perm_middle.mem_iff, mem_cons]

theorem mem_putAll : t ∈ putAll list own ↔ t ∈ own ∨ t ∈ list := by
  induction own generalizing list with
  | nil => simp [putAll]
  | cons t' own ih =>
    have hstep : putAll list (t' :: own) = putAll (insertByOffset t'.offset t' list) own := rfl
    rw [hstep, ih, mem_insertByOffset, mem_cons]
    exact or_left_comm.trans or_assoc.symm

theorem mem_ranges_putAll : r ∈ ranges (putAll list own) ↔ r ∈ ranges own ∨ r ∈ ranges list := by
  simp only [ranges, mem_filterMap, mem_putAll, or_and_right, exists_or]

/-- What holds of the places of a list, and of those of the lumps that are put in. -/
theorem forall_ranges_putAll {P : Nat × Nat → Prop} (hown : ∀ t ∈ own, ∃ r, t.range = some r ∧ P r)
    (hlist : ∀ r ∈ ranges list, P r) : ∀ r ∈ ranges (putAll list own), P r := by
  intro r hr
  rcases mem_ranges_putAll.1 hr with hr | hr
  · obtain ⟨t, ht, htr⟩ := mem_filterMap.1 hr
    obtain ⟨r', hr', hP⟩ := hown t ht
    exact some.inj (htr.symm.trans hr') ▸ hP
  · exact hlist r hr

theorem noRand_singleton : NoRand [t] ↔ ∀ op ∈ t.addOps, op.random = false := forall_mem_singleton

theorem noRand_putAll (hown : NoRand own) (hlist : NoRand list) : NoRand (putAll list own) := by
  intro t ht
  rcases mem_putAll.1 ht with h | h
  · exact hown t h
  · exact hlist t h

theorem SortedByOffset.putAll (h : SortedByOffset list) (hown : ∀ t ∈ own, t.range.isSome = true) :
    SortedByOffset (putAll list own) := by
  induction own generalizing list with
  | nil => exact h
  | cons t own ih =>
    obtain ⟨r, hr⟩ := isSome_iff_exists.1 (hown t (mem_cons_self ..))
    refine ih ?_ fun t' ht' => hown t' (mem_cons_of_mem t ht')
    show SortedByOffset (Msg.insertByOffset t.offset t list)
    rw [Lump.offset_eq hr]
    exact h.insertByOffset hr

/-- Lumps put in the list of the headers. -/
def SipMsg.putHeaders (own : List Lump) (msg : SipMsg) : SipMsg := { msg with addRm := putAll msg.addRm own }

theorem SipMsg.putHeaders_putHeaders {own1 own2} :
    (msg.putHeaders own1).putHeaders own2 = msg.putHeaders (own1 ++ own2) := by
  rw [SipMsg.putHeaders, SipMsg.putHeaders, SipMsg.putHeaders, putAll_append]

theorem SipMsg.putLump_headers (hr : t.range = some r) (h : ∀ e, msg.eoh = some e → r.1 ≤ e) :
    msg.putLump r.1 t = msg.putHeaders [t] := by
  have hheaders : msg.eoh.any (· < r.1) = false := by
    cases he : msg.eoh with
    | none => rfl
    | some e => exact decide_eq_false (not_lt.2 (h e he))
  rw [SipMsg.putLump, hheaders, if_neg Bool.false_ne_true, ← Lump.offset_eq hr]
  rfl

theorem SipMsg.delLump_headers {offset len before after}
    (heoh : ∀ e, msg.eoh = some e → offset ≤ e) (h : msg.delLump offset len before after = some msg') :
    msg' = msg.putHeaders [⟨.del offset len, before, after⟩] := by
  unfold SipMsg.delLump at h
  split_ifs at h
  rw [← some.inj h]
  exact msg.putLump_headers (r := (offset, offset + len)) rfl heoh

theorem SipMsg.anchorLump_headers {offset before after}
    (heoh : ∀ e, msg.eoh = some e → offset ≤ e) (h : msg.anchorLump offset before after = some msg') :
    msg' = msg.putHeaders [⟨.nop offset, before, after⟩] := by
  unfold SipMsg.anchorLump at h
  split_ifs at h
  rw [← some.inj h]
  exact msg.putLump_headers (r := (offset, offset)) rfl heoh

/-! ## Where the parser finds the headers -/

/-- The value of the Content-Length is in its header, and this in the headers. -/
structure SipMsg.Parsed (msg : SipMsg) : Prop where
  eoh : ∀ e, msg.eoh = some e → msg.headersEnd = .found e
  clen : ∀ f, msg.contentLength = some f → f.name < f.body ∧ f.body + f.bodyLen < f.name + f.len
  clenEnd : ∀ f e, msg.contentLength = some f → msg.headersEnd = .found e → f.name + f.len ≤ e

/-- The parameters of a Via are in its header, behind its name. -/
structure ViaBody.Parsed (via : ViaBody) : Prop where
  insertParam : via.hdr < via.insertParam ∧ via.insertParam < via.hdrEnd
  received : ∀ start size, via.received = some (start, size) → via.hdr + 1 < start ∧ start + size ≤ via.hdrEnd
  rport : ∀ start size, via.rport = some (start, size) → via.hdr + 1 < start ∧ start + size ≤ via.hdrEnd

/-- A request: its first line, the first Via and the Content-Length do not overlap. -/
structure SipReq.Parsed (req : SipReq) : Prop extends req.toSipMsg.Parsed where
  via1 : req.via1.Parsed
  viaIn : req.via1.hdrEnd ≤ req.buf.length
  viaEnd : ∀ e, req.headersEnd = .found e → req.via1.hdrEnd ≤ e
  uriVia : req.uri.1 + req.uri.2 ≤ req.via1.hdr
  uriClen : ∀ f, req.contentLength = some f → req.uri.1 + req.uri.2 ≤ f.name
  viaClen : ∀ f, req.contentLength = some f → req.via1.hdrEnd ≤ f.name ∨ f.name + f.len ≤ req.via1.hdr

theorem SipReq.Parsed.hdr_lt_end {req : SipReq} (h : req.Parsed) {e} (he : req.headersEnd = .found e) :
    req.via1.hdr < e :=
  Nat.lt_of_lt_of_le (h.via1.insertParam.1.trans h.via1.insertParam.2) (h.viaEnd e he)

/-- A reply. -/
structure SipRes.Parsed (res : SipRes) : Prop extends res.toSipMsg.Parsed where
  viaLen : 0 < res.viaRange.2
  viaEnd : ∀ e, res.headersEnd = .found e → res.viaRange.1 + res.viaRange.2 ≤ e
  viaClen : ∀ f, res.contentLength = some f →
    res.viaRange.1 + res.viaRange.2 ≤ f.name ∨ f.name + f.len ≤ res.viaRange.1

/-! ## Content-Length -/

/-- The body begins behind the line that ends the headers. -/
theorem SipMsg.getBody_spec {body} (h : msg.getBody = some body) :
    ∃ e, msg.headersEnd = .found e ∧ e < body ∧ body ≤ msg.buf.length := by
  unfold SipMsg.getBody SipMsg.unparsed at h
  cases hend : msg.headersEnd with
  | bad => simp [hend] at h
  | missing => simp [hend, crlf] at h
  | found e =>
    simp only [hend, bind_some] at h
    refine ⟨e, rfl, ?_⟩
    split_ifs at h with hcrlf hone
    · have hlen : ((msg.buf.drop e).take 2).length = 2 := by
        rw [hcrlf]
        rfl
      simp only [length_take, length_drop] at hlen
      have hbody := some.inj h
      omega
    · have hlt : e < msg.buf.length := by
        by_contra hge
        rw [getElem?_eq_none (not_lt.1 hge)] at hone
        simp at hone
      have hbody := some.inj h
      omega

/-- What `adjust_clen` puts in: nothing if the value is right, the value of the header, or a header.
Where the message is not delimited by its length it may leave it as it is. -/
inductive ClenLump (bodyDelta : Int) (proto : Proto) (msg : SipMsg) : List Lump → Prop
  | right {f : ClenField} {body : Nat} (hf : msg.contentLength = some f) (hbody : msg.getBody = some body)
      (hright : msg.compClen body bodyDelta = f.parsed msg.buf) : ClenLump bodyDelta proto msg []
  | replaced {f : ClenField} {body : Nat} (hf : msg.contentLength = some f) (hbody : msg.getBody = some body) :
      ClenLump bodyDelta proto msg
        [⟨.del f.body f.bodyLen, .none, .text (int2str (msg.compClen body bodyDelta).toNat)⟩]
  | added {e body : Nat} (hf : msg.contentLength = none) (he : msg.headersEnd = .found e)
      (hbody : msg.getBody = some body) :
      ClenLump bodyDelta proto msg
        [⟨.nop e, .none, .text (bytes "Content-Length: " ++ int2str (msg.compClen body bodyDelta).toNat ++ crlf)⟩]
  | left (hproto : proto ≠ .tcp ∧ proto ≠ .tls) (h : bodyDelta = 0 ∨ msg.contentLength = none) :
      ClenLump bodyDelta proto msg []

section Clen

variable {bodyDelta : Int} {proto : Proto}

theorem replaceClen_spec {f} (hparsed : msg.Parsed) (hf : msg.contentLength = some f)
    (h : replaceClen f bodyDelta msg = some msg') :
    ∃ own, ClenLump bodyDelta proto msg own ∧ msg' = msg.putHeaders own := by
  obtain ⟨clen, hclen, h⟩ := bind_eq_some_iff.1 h
  obtain ⟨body, hbody, rfl⟩ := map_eq_some_iff.1 hclen
  refine ⟨_, .replaced hf hbody, ?_⟩
  refine SipMsg.delLump_headers ?_ h
  intro e he
  have hin := hparsed.clen f hf
  have hend := hparsed.clenEnd f e hf (hparsed.eoh e he)
  omega

theorem addClen_spec (hparsed : msg.Parsed) (hf : msg.contentLength = none) (h : addClen bodyDelta msg = some msg') :
    ∃ own, ClenLump bodyDelta proto msg own ∧ msg' = msg.putHeaders own := by
  obtain ⟨unparsed, hunparsed, h⟩ := bind_eq_some_iff.1 h
  obtain ⟨clen, hclen, h⟩ := bind_eq_some_iff.1 h
  obtain ⟨body, hbody, rfl⟩ := map_eq_some_iff.1 hclen
  obtain ⟨e, he, -⟩ := SipMsg.getBody_spec hbody
  obtain rfl : e = unparsed := by simpa [SipMsg.unparsed, he] using hunparsed
  refine ⟨_, .added hf he hbody, ?_⟩
  refine SipMsg.anchorLump_headers ?_ h
  intro e' he'
  have hsame := HeadersEnd.found.inj (he.symm.trans (hparsed.eoh e' he'))
  omega

theorem adjustClen_spec (hparsed : msg.Parsed) (h : adjustClen bodyDelta proto msg = some msg') :
    ∃ own, ClenLump bodyDelta proto msg own ∧ msg' = msg.putHeaders own := by
  unfold adjustClen at h
  by_cases hproto : proto = .tcp ∨ proto = .tls
  · rw [if_pos hproto] at h
    cases hf : msg.contentLength with
    | none =>
      rw [hf] at h
      exact addClen_spec hparsed hf h
    | some f =>
      rw [hf] at h
      obtain ⟨body, hbody, h⟩ := bind_eq_some_iff.1 h
      split_ifs at h with hwrong
      · exact replaceClen_spec hparsed hf h
      · exact ⟨[], .right hf hbody (not_not.1 hwrong), (some.inj h).symm⟩
  · rw [if_neg hproto] at h
    split_ifs at h with hdelta
    · cases hf : msg.contentLength with
      | none => exact addClen_spec hparsed hf (by simpa [hf] using h)
      | some f => exact replaceClen_spec hparsed hf (by simpa [hf] using h)
    · cases hf : msg.contentLength with
      | none =>
        simp only [hf] at h
        obtain ⟨-, -, rfl⟩ := map_eq_some_iff.1 h
        exact ⟨[], .left (not_or.1 hproto) (.inr hf), rfl⟩
      | some f => exact replaceClen_spec hparsed hf (by simpa [hf] using h)
    · exact ⟨[], .left (not_or.1 hproto) (.inl (not_not.1 hdelta)), (some.inj h).symm⟩

/-- The lists of a message do not matter to its Content-Length. -/
theorem ClenLump.of_lists {addRm bodyLumps}
    (h : ClenLump bodyDelta proto { msg with addRm := addRm, bodyLumps := bodyLumps } own) :
    ClenLump bodyDelta proto msg own := by
  cases h with
  | right hf hbody hright => exact .right hf hbody hright
  | replaced hf hbody => exact .replaced hf hbody
  | added hf he hbody => exact .added hf he hbody
  | left hproto h => exact .left hproto h

/-- The lumps of `adjust_clen` are in the header, or at the end of the headers. -/
theorem ClenLump.range (h : ClenLump bodyDelta proto msg own) :
    ∀ t ∈ own, NoRand [t] ∧ ∃ e, msg.headersEnd = .found e ∧ e ≤ msg.buf.length ∧
      (t.range = some (e, e) ∨ ∃ f, msg.contentLength = some f ∧ t.range = some (f.body, f.body + f.bodyLen)) := by
  cases h with
  | right | left => exact nofun
  | replaced hf hbody =>
    intro t ht
    obtain rfl := mem_singleton.1 ht
    obtain ⟨e, he, hlt, hlen⟩ := SipMsg.getBody_spec hbody
    refine ⟨?_, e, he, by omega, .inr ⟨_, hf, rfl⟩⟩
    simp [NoRand, Lump.addOps, LumpTree.chain, LumpTree.text, AddOp.random]
  | added hf he hbody =>
    intro t ht
    obtain rfl := mem_singleton.1 ht
    obtain ⟨e', he', hlt, hlen⟩ := SipMsg.getBody_spec hbody
    obtain rfl := HeadersEnd.found.inj (he.symm.trans he')
    refine ⟨?_, _, he, by omega, .inl rfl⟩
    simp [NoRand, Lump.addOps, LumpTree.chain, LumpTree.text, AddOp.random]

end Clen

/-! ## Requests -/

/-- The script for the body, and then the one for the headers with the lumps of the build. -/
def SipMsg.bodyScript (msg : SipMsg) (sendInfo : Option DestInfo) (rand : Rand) : List (Edit UInt8) × Rand :=
  script msg.toMsgData sendInfo msg.bodyLumps rand

def SipMsg.headerScript (msg : SipMsg) (sendInfo : Option DestInfo) (rand : Rand) (own : List Lump) :
    List (Edit UInt8) × Rand :=
  script msg.toMsgData sendInfo (putAll msg.addRm own) (msg.bodyScript sendInfo rand).2

/-- A lump in the header of a Via, behind its name. -/
structure ViaBody.Has (via : ViaBody) (t : Lump) : Prop where
  range : ∃ r, t.range = some r ∧ via.hdr < r.1 ∧ r.1 < via.hdrEnd ∧ r.2 ≤ via.hdrEnd
  noRand : NoRand [t]

section Requests

variable {core : ReqCore} {req : SipReq} {sendInfo : DestInfo}

theorem SipReq.putViaParam_spec {old text} (hvia : req.via1.Parsed)
    (hold : ∀ start size, old = some (start, size) → req.via1.hdr + 1 < start ∧ start + size ≤ req.via1.hdrEnd)
    (htext : ∀ op ∈ text.chain .after, op.random = false) (hend : ∀ e, msg.eoh = some e → req.via1.hdrEnd ≤ e)
    (h : req.putViaParam old text msg = some msg') : ∃ t, req.via1.Has t ∧ msg' = msg.putHeaders [t] := by
  cases old with
  | some param =>
    obtain ⟨start, size⟩ := param
    obtain ⟨hstart, hsize⟩ := hold start size rfl
    refine ⟨⟨.del (start - 1) (size + 1), .none, text⟩, ⟨⟨_, rfl, ?_⟩, noRand_singleton.2 htext⟩,
      SipMsg.delLump_headers ?_ h⟩
    · simp only
      omega
    · intro e he
      have hle := hend e he
      omega
  | none =>
    obtain ⟨hgt, hlt⟩ := hvia.insertParam
    refine ⟨⟨.nop req.via1.insertParam, .none, text⟩,
      ⟨⟨_, rfl, hgt, hlt, le_of_lt hlt⟩, noRand_singleton.2 htext⟩, SipMsg.anchorLump_headers ?_ h⟩
    intro e he
    have hle := hend e he
    omega

theorem SipReq.putViaParams_spec (hvia : req.via1.Parsed) (hend : ∀ e, msg.eoh = some e → req.via1.hdrEnd ≤ e)
    (h : req.putViaParams core msg = some msg') : ∃ own, (∀ t ∈ own, req.via1.Has t) ∧ msg' = msg.putHeaders own := by
  have hone : ∀ value, ∀ op ∈ (LumpTree.text value).chain .after, op.random = false := by
    intro value op hop
    rw [mem_singleton.1 hop]
    rfl
  unfold SipReq.putViaParams at h
  cases hreceived : core.received with
  | none =>
    simp only [hreceived] at h
    split_ifs at h with hneed
    · obtain ⟨t, ht, rfl⟩ := SipReq.putViaParam_spec hvia hvia.rport (hone _) hend h
      exact ⟨[t], forall_mem_singleton.2 ht, rfl⟩
    · exact ⟨[], nofun, (some.inj h).symm⟩
  | some received =>
    simp only [hreceived] at h
    by_cases hboth : ((req.forceRport || req.via1.rport.isSome) && req.via1.rport.isNone) = true
    · rw [if_pos hboth] at h
      have htwo : ∀ op ∈ (LumpTree.lump (.add core.rport) .none (.text received)).chain .after, op.random = false :=
        forall_mem_cons.2 ⟨rfl, hone received⟩
      obtain ⟨t, ht, rfl⟩ := SipReq.putViaParam_spec hvia hvia.received htwo hend h
      exact ⟨[t], forall_mem_singleton.2 ht, rfl⟩
    · rw [if_neg hboth] at h
      obtain ⟨msg1, h1, h⟩ := bind_eq_some_iff.1 h
      obtain ⟨t, ht, rfl⟩ := SipReq.putViaParam_spec hvia hvia.received (hone _) hend h1
      split_ifs at h
      · have hend1 : ∀ e, (msg.putHeaders [t]).eoh = some e → req.via1.hdrEnd ≤ e := hend
        obtain ⟨t', ht', rfl⟩ := SipReq.putViaParam_spec hvia hvia.rport (hone _) hend1 h
        exact ⟨[t, t'], forall_mem_cons.2 ⟨ht, forall_mem_singleton.2 ht'⟩, SipMsg.putHeaders_putHeaders ..⟩
      · exact ⟨[t], forall_mem_singleton.2 ht, (some.inj h).symm⟩

/-- What is known of a request before its Via is put in. -/
structure SipReq.Prepared (core : ReqCore) (req : SipReq) (sendInfo : DestInfo) (rand : Rand) (p : PreparedReq)
    (clen params : List Lump) : Prop where
  adjusted : ClenLump (Edit.delta (Edit.fix 0 (req.bodyScript (some sendInfo) rand).1))
    sendInfo.proto req.toSipMsg clen
  inVia : ∀ t ∈ params, req.via1.Has t
  msg : p.msg = { req.toSipMsg with
    addRm := fixLumps 0 (putAll req.addRm (clen ++ params)), bodyLumps := fixLumps 0 req.bodyLumps }
  chance : p.rand = (req.headerScript (some sendInfo) rand (clen ++ params)).2
  newLen : p.newLen = req.buf.length + Edit.delta (Edit.fix 0 (req.bodyScript (some sendInfo) rand).1) +
    Edit.delta (Edit.fix 0 (req.headerScript (some sendInfo) rand (clen ++ params)).1) + p.line.length
  line : p.line = core.createViaHf p.sendInfo

theorem prepareReq_spec {p} (hparsed : req.Parsed) (h : prepareReq core req sendInfo rand = some p) :
    ∃ clen params, req.Prepared core sendInfo rand p clen params := by
  unfold prepareReq at h
  simp only [lumpsLen, lumpsLenFrom_eq] at h
  obtain ⟨msg1, hadjust, h⟩ := bind_eq_some_iff.1 h
  obtain ⟨msg2, hput, rfl⟩ := map_eq_some_iff.1 h
  have hparsed1 : { req.toSipMsg with bodyLumps := fixLumps 0 req.bodyLumps }.Parsed :=
    ⟨hparsed.eoh, hparsed.clen, hparsed.clenEnd⟩
  obtain ⟨clen, hclen, rfl⟩ := adjustClen_spec hparsed1 hadjust
  have hend : ∀ e, ({ req.toSipMsg with bodyLumps := fixLumps 0 req.bodyLumps }.putHeaders clen).eoh = some e →
      req.via1.hdrEnd ≤ e := fun e he => hparsed.viaEnd e (hparsed.eoh e he)
  obtain ⟨params, hparams, rfl⟩ := SipReq.putViaParams_spec hparsed.via1 hend hput
  rw [SipMsg.putHeaders_putHeaders]
  refine ⟨clen, params, ?_⟩
  cases req.mtuFallback core _ sendInfo with
  | none => exact ⟨hclen.of_lists, hparams, rfl, rfl, rfl, rfl⟩
  | some di =>
    refine ⟨hclen.of_lists, hparams, rfl, rfl, ?_, rfl⟩
    simp only [SipMsg.putHeaders, SipMsg.headerScript, SipMsg.bodyScript]
    omega

/-- The message up to where lumps are applied: up to the new URI, if there is one. -/
def SipReq.front (req : SipReq) : List UInt8 :=
  match req.newUri with
  | none => []
  | some uri => Edit.part req.buf 0 req.uri.1 ++ uri

/-- The offset from where lumps are applied. -/
def SipReq.start (req : SipReq) : Nat :=
  match req.newUri with
  | none => 0
  | some _ => req.uri.1 + req.uri.2

theorem SipReq.Parsed.start_le (h : req.Parsed) : req.start ≤ req.via1.hdr := by
  unfold SipReq.start
  cases req.newUri with
  | none => exact Nat.zero_le _
  | some uri => exact h.uriVia

/-- The anchor for the new Via. -/
def SipReq.viaLump (req : SipReq) (line : List UInt8) : Lump := ⟨.nop req.via1.hdr, .text line, .none⟩

theorem buildReq_spec {b} (hparsed : req.Parsed) (h : buildReqBufFromSipReq core req sendInfo rand = some b) :
    ∃ p clen params, prepareReq core req sendInfo rand = some p ∧ req.Prepared core sendInfo rand p clen params ∧
      req.via1.hdr ≤ req.buf.length ∧ b.sendInfo = p.sendInfo ∧ b.newLen = p.newLen - req.start + req.front.length ∧
      b.written = req.front ++ (writeLumps req.toMsgData (some sendInfo) req.start
        (insertByOffset req.via1.hdr (req.viaLump p.line) p.msg.addRm) p.msg.bodyLumps p.rand).1 := by
  obtain ⟨p, hp, h⟩ := bind_eq_some_iff.1 h
  obtain ⟨msg, hvia, rfl⟩ := map_eq_some_iff.1 h
  obtain ⟨clen, params, hprep⟩ := prepareReq_spec hparsed hp
  have hmsg : p.msg.toMsgData = req.toMsgData := by rw [hprep.msg]
  have heoh : ∀ e, p.msg.eoh = some e → req.via1.hdr ≤ e := by
    rw [hprep.msg]
    intro e he
    have hin := hparsed.via1.insertParam
    have hle := hparsed.viaEnd e (hparsed.eoh e he)
    omega
  have hhdr : req.via1.hdr ≤ req.buf.length := by
    unfold SipMsg.anchorLump at hvia
    split_ifs at hvia with hgt
    rw [hmsg] at hgt
    exact not_lt.1 hgt
  obtain rfl := SipMsg.anchorLump_headers heoh hvia
  refine ⟨p, clen, params, hp, hprep, hhdr, ?_⟩
  unfold SipReq.front SipReq.start
  cases req.newUri with
  | none =>
    refine ⟨rfl, ?_, ?_⟩
    · simp
    · simp only [SipMsg.putHeaders, hmsg, nil_append]
      rfl
  | some uri =>
    have hlen : (Edit.part req.buf 0 req.uri.1).length = req.uri.1 := by
      have hle := hparsed.uriVia
      rw [Edit.length_part (by omega), Nat.sub_zero]
    refine ⟨rfl, ?_, ?_⟩
    · simp only [length_append, hlen]
      omega
    · simp only [SipMsg.putHeaders, hmsg]
      rfl

end Requests

/-! ## Replies -/

/-- The deletion of the first Via. -/
def SipRes.viaLump (res : SipRes) : Lump := ⟨.del res.viaRange.1 res.viaRange.2, .none, .none⟩

/-- A reply when its lumps have been put in: the lists are as `lumps_len` leaves them. -/
structure SipRes.Prepared (res : SipRes) (rand : Rand) (p : PreparedRes) (clen : List Lump) : Prop where
  adjusted : ClenLump (Edit.delta (Edit.fix 0 (res.bodyScript none rand).1))
    (res.via2Proto.getD .udp) res.toSipMsg clen
  via : res.viaRange.1 + res.viaRange.2 ≤ res.buf.length
  msg : p.msg = { res.toSipMsg with
    addRm := fixLumps 0 (putAll res.addRm (clen ++ [res.viaLump])), bodyLumps := fixLumps 0 res.bodyLumps }
  newLen : p.newLen = res.buf.length + Edit.delta (Edit.fix 0 (res.bodyScript none rand).1) +
    Edit.delta (Edit.fix 0 (res.headerScript none rand (clen ++ [res.viaLump])).1)

theorem buildRes_spec {res b} (hparsed : res.Parsed) (h : buildResBufFromSipRes res rand = some b) :
    ∃ p clen, prepareRes res rand = some p ∧ res.Prepared rand p clen ∧ b.newLen = p.newLen ∧
      b.written = (writeLumps res.toMsgData none 0 p.msg.addRm p.msg.bodyLumps p.rand).1 := by
  obtain ⟨p, hp, rfl⟩ := map_eq_some_iff.1 h
  have hprepare := hp
  unfold prepareRes at hprepare
  simp only [lumpsLen, lumpsLenFrom_eq] at hprepare
  obtain ⟨msg1, hadjust, hprepare⟩ := bind_eq_some_iff.1 hprepare
  obtain ⟨msg2, hvia, rfl⟩ := map_eq_some_iff.1 hprepare
  have hparsed1 : { res.toSipMsg with bodyLumps := fixLumps 0 res.bodyLumps }.Parsed :=
    ⟨hparsed.eoh, hparsed.clen, hparsed.clenEnd⟩
  obtain ⟨clen, hclen, rfl⟩ := adjustClen_spec hparsed1 hadjust
  have heoh : ∀ e, ({ res.toSipMsg with bodyLumps := fixLumps 0 res.bodyLumps }.putHeaders clen).eoh = some e →
      res.viaRange.1 ≤ e := fun e he => Nat.le_trans (Nat.le_add_right ..) (hparsed.viaEnd e (hparsed.eoh e he))
  have hin : res.viaRange.1 + res.viaRange.2 ≤ res.buf.length := by
    unfold SipMsg.delLump at hvia
    split_ifs at hvia with hgt
    exact not_lt.1 (not_or.1 hgt).2
  obtain rfl := SipMsg.delLump_headers heoh hvia
  rw [SipMsg.putHeaders_putHeaders] at hp ⊢
  exact ⟨_, clen, hp, ⟨hclen.of_lists, hin, rfl, rfl⟩, rfl, rfl⟩

end SipRouter.Msg
