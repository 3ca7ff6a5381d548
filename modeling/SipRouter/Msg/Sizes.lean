import SipRouter.Msg.Placed

/-!
# The length of a message that is built

The functions that build a message compute its length first, allocate so much, and then
write. What is written is as long as computed if the second pass applies each lump that
the first one has counted, or if those it skips add as much as they delete. A lump is
skipped if it is behind where the second pass has come to: the Via is put in after the
overlaps were fixed, the URI is skipped whatever is in it, and a deletion of the headers
may end in the body.
-/

namespace SipRouter.Msg

open Lib List Option

section Lengths

variable {msg : MsgData} {sendInfo : Option DestInfo}

variable {s q v n : Nat} {lumps list body l₁ l₂ : List Lump} {line : List UInt8} {rand : Rand}

/-! ## Fixed overlaps -/

/-- A fixed lump is one of the list from some place on. The place is not behind `s` and all lumps. -/
theorem mem_ranges_fixLumps {r} (hr : r ∈ ranges (fixLumps s list)) :
    ∃ r' ∈ ranges list, ∃ p, (∀ n, s ≤ n → (∀ x ∈ ranges list, x.2 ≤ n) → p ≤ n) ∧
      r = (max p r'.1, max p r'.2) := by
  induction list generalizing s with
  | nil => cases hr
  | cons t list ih =>
    obtain ⟨op, before, after⟩ := t
    cases op with
    | add op =>
      simp only [fixLumps] at hr
      rw [ranges, filterMap_cons_none rfl] at hr ⊢
      exact ih hr
    | del offset len | nop offset =>
      simp only [fixLumps] at hr
      rw [ranges_cons rfl] at hr ⊢
      rcases mem_cons.1 hr with rfl | hr
      · exact ⟨_, mem_cons_self, s, fun n hs _ => hs, Prod.ext rfl (by omega)⟩
      · obtain ⟨r', hr', p, hp, rfl⟩ := ih hr
        refine ⟨r', mem_cons_of_mem _ hr', p, fun n hs hall => hp n (max_le hs ?_) ?_, rfl⟩
        · exact hall _ mem_cons_self
        · exact fun x hx => hall x (mem_cons_of_mem _ hx)

/-- A place that no deletion covers is not covered afterwards. -/
theorem clear_fixLumps (h : ∀ r ∈ ranges list, r.1 ≤ v → r.2 ≤ v) (s : Nat) :
    ∀ r ∈ ranges (fixLumps s list), r.1 ≤ v → r.2 ≤ v := by
  intro r hr
  obtain ⟨r', hr', p, -, rfl⟩ := mem_ranges_fixLumps hr
  have hv := h r' hr'
  simp only
  omega

/-- Fixing moves no lump to the front. -/
theorem le_fixLumps (h : ∀ r ∈ ranges list, q ≤ r.1) (s : Nat) : ∀ r ∈ ranges (fixLumps s list), q ≤ r.1 := by
  intro r hr
  obtain ⟨r', hr', p, -, rfl⟩ := mem_ranges_fixLumps hr
  exact le_max_of_le_right (h r' hr')

/-- Nor does it move an end to the back. -/
theorem ranges_fixLumps_le (hs : s ≤ n) (h : ∀ r ∈ ranges list, r.2 ≤ n) :
    ∀ r ∈ ranges (fixLumps s list), r.2 ≤ n := by
  intro r hr
  obtain ⟨r', hr', p, hp, rfl⟩ := mem_ranges_fixLumps hr
  exact max_le (hp n hs h) (h r' hr')

/-- Fixed lumps do not overlap. -/
theorem pairwise_fixLumps (s : Nat) (list : List Lump) :
    (ranges (fixLumps s list)).Pairwise (fun a b => a.2 ≤ b.1) ∧ ∀ r ∈ ranges
    (fixLumps s list), s ≤ r.1 ∧ r.1 ≤ r.2 := by
  induction list generalizing s with
  | nil => exact ⟨.nil, nofun⟩
  | cons t list ih =>
    obtain ⟨op, before, after⟩ := t
    cases op with
    | add op =>
      simp only [fixLumps]
      rw [ranges, filterMap_cons_none rfl]
      exact ih s
    | del offset len | nop offset =>
      simp only [fixLumps]
      rw [ranges_cons rfl]
      refine ⟨pairwise_cons.2 ⟨fun r hr => ?_, (ih _).1⟩, forall_mem_cons.2 ⟨by simp only; omega, fun r hr => ?_⟩⟩
      all_goals
        have hnext := (ih _).2 r hr
        omega

/-! ## A pass -/

theorem processLumps_nil : processLumps msg sendInfo s [] rand = ([], s, rand) := rfl

theorem processLumps_append :
    processLumps msg sendInfo s (l₁ ++ l₂) rand =
      let front := processLumps msg sendInfo s l₁ rand
      let back := processLumps msg sendInfo front.2.1 l₂ front.2.2
      (front.1 ++ back.1, back.2) := by
  induction l₁ generalizing s rand with
  | nil => rfl
  | cons t l₁ ih =>
    obtain ⟨op, before, after⟩ := t
    cases op with
    | add op =>
      simp only [cons_append, processLumps]
      split_ifs
      · simp only [ih, append_assoc]
      · rw [ih]
    | del offset len | nop offset =>
      simp only [cons_append, processLumps]
      split_ifs
      · rw [ih]
      · simp only [ih, append_assoc]

/-- The two lists are one pass. -/
theorem writeLumps_eq : (writeLumps msg sendInfo s list body rand).1 =
    let pass := processLumps msg sendInfo s (list ++ body) rand
    pass.1 ++ Edit.part msg.buf pass.2.1 msg.buf.length := by
  simp only [writeLumps, processLumps_append]

/-- By how much the lumps that a pass from `s` on skips would make a message longer. -/
def skipped (msg : MsgData) (sendInfo : Option DestInfo) (s : Nat) (lumps : List Lump) (rand : Rand) : Int :=
  Edit.lost s (script msg sendInfo lumps rand).1

/-- The length of what a pass writes, with the rest of the message. Without chance the script is the
same at any time. -/
theorem length_processLumps (sendInfo : Option DestInfo) (hrand : NoRand lumps)
    (hends : ∀ r ∈ ranges lumps, r.2 ≤ msg.buf.length) (hs : s ≤ msg.buf.length) (rand rand' : Rand) :
    let pass := processLumps msg sendInfo s lumps rand
    pass.2.1 ≤ msg.buf.length ∧ (pass.1.length : Int) + (msg.buf.length - pass.2.1) =
      msg.buf.length - s + Edit.delta (script msg sendInfo lumps rand').1 - skipped msg sendInfo s lumps rand' := by
  induction lumps generalizing s rand rand' with
  | nil =>
    simp only [processLumps, script, skipped, Edit.delta, Edit.lost, length_nil]
    omega
  | cons t lumps ih =>
    have htail : ∀ r ∈ ranges lumps, r.2 ≤ msg.buf.length := fun r hr => hends r (mem_ranges_tail hr)
    have hnext := fun {s} => @ih s (fun t' ht' => hrand t' (mem_cons_of_mem t ht')) htail
    have hops := hrand t mem_cons_self
    obtain ⟨tb, ta, hbefore, hafter⟩ := Lump.texts_of_noRand msg sendInfo hops
    obtain ⟨op, before, after⟩ := t
    cases op with
    | add op =>
      have hrest := hnext hs rand rand'
      cases op with
      | addOpt cond =>
        obtain ⟨on, hon⟩ := lumpCheckOpt_of_noRand msg sendInfo (hops (.addOpt cond) (by simp [Lump.addOps]))
        simp only [processLumps, script, skipped, hon, hbefore, hafter] at hrest ⊢
        cases on with
        | false => exact hrest
        | true =>
          simp only [if_true, Edit.delta, Edit.lost, length_append]
          omega
      | _ =>
        simp only [processLumps, script, skipped, hbefore, hafter, if_true, Edit.delta, Edit.lost,
          length_append] at hrest ⊢
        omega
    | del offset len | nop offset =>
      have hend := hends _ (mem_ranges_head rfl)
      simp only [processLumps, script, skipped, Edit.delta, Edit.lost, hbefore, hafter, Nat.add_zero]
      split_ifs with hlt
      · have hrest := hnext hs rand rand'
        simp only [skipped] at hrest
        omega
      · have hrest := hnext hend rand rand'
        have hpart : (Edit.part msg.buf s offset).length = offset - s := by
          refine Edit.length_part ?_
          simp only at hend
          omega
        simp only [skipped, length_append, hpart] at hrest ⊢
        omega

theorem length_writeLumps (sendInfo : Option DestInfo) (hrand : NoRand (list ++ body))
    (hends : ∀ r ∈ ranges (list ++ body), r.2 ≤ msg.buf.length) (hs : s ≤ msg.buf.length) (rand rand' : Rand) :
    ((writeLumps msg sendInfo s list body rand).1.length : Int) =
      msg.buf.length - s + Edit.delta (script msg sendInfo (list ++ body) rand').1 -
        skipped msg sendInfo s (list ++ body) rand' := by
  obtain ⟨hle, hlen⟩ := length_processLumps sendInfo hrand hends hs rand rand'
  rw [writeLumps_eq]
  simp only [length_append, Edit.length_part (Nat.le_refl _)]
  omega

/-- Nothing is skipped if each lump begins where the one before has ended or later. -/
theorem skipped_eq_zero (hlumps : (ranges lumps).Pairwise fun a b => a.2 ≤ b.1)
    (hs : ∀ r ∈ ranges lumps, s ≤ r.1) (rand) :
    skipped msg sendInfo s lumps rand = 0 := by
  induction lumps generalizing s rand with
  | nil => rfl
  | cons t lumps ih =>
    obtain ⟨op, before, after⟩ := t
    cases op with
    | add op =>
      rw [ranges, filterMap_cons_none rfl] at hlumps hs
      simp only [skipped, script]
      split_ifs
      all_goals exact ih hlumps hs _
    | del offset len | nop offset =>
      rw [ranges_cons rfl] at hlumps hs
      obtain ⟨hhead, htail⟩ := pairwise_cons.1 hlumps
      have hhere := hs _ mem_cons_self
      simp only [skipped, script, Edit.lost, if_neg (not_lt.2 hhere)]
      exact ih htail hhead _

theorem noRand_fixLumps (h : NoRand list) (s : Nat) : NoRand (fixLumps s list) := by
  induction list generalizing s with
  | nil => exact h
  | cons t list ih =>
    obtain ⟨hhead, htail⟩ := forall_mem_cons.1 h
    obtain ⟨op, before, after⟩ := t
    cases op with
    | add op | del offset len | nop offset => exact forall_mem_cons.2 ⟨hhead, ih htail _⟩

/-- Scripts without chance, made at any times, one after the other. -/
theorem delta_script_append (h₁ : NoRand l₁) (h₂ : NoRand l₂) (rand rand₁ rand₂) :
    Edit.delta (script msg sendInfo (l₁ ++ l₂) rand).1 =
      Edit.delta (script msg sendInfo l₁ rand₁).1 + Edit.delta (script msg sendInfo l₂ rand₂).1 := by
  obtain ⟨es₁, hes₁⟩ : ∃ es, ∀ rand, script msg sendInfo l₁ rand = (es, rand) := script_of_noRand h₁
  obtain ⟨es₂, hes₂⟩ : ∃ es, ∀ rand, script msg sendInfo l₂ rand = (es, rand) := script_of_noRand h₂
  simp only [script_append, hes₁, hes₂, Edit.delta_append]

theorem noRand_anchor (v : Nat) (line : List UInt8) : NoRand [⟨.nop v, .text line, .none⟩] := by
  simp [NoRand, Lump.addOps, LumpTree.text, LumpTree.chain, AddOp.random]

/-- An anchor adds its text. -/
theorem delta_insertByOffset (h : NoRand list) (rand rand') :
    Edit.delta (script msg sendInfo (insertByOffset v ⟨.nop v, .text line, .none⟩ list) rand).1 =
      Edit.delta (script msg sendInfo list rand').1 + line.length := by
  obtain ⟨l₁, l₂, rfl, heq, -, -⟩ := insertByOffset_eq v ⟨.nop v, .text line, .none⟩ list
  obtain ⟨h₁, h₂⟩ := noRand_append.1 h
  have hanchor := noRand_anchor v line
  rw [heq, append_cons, delta_script_append (noRand_append.2 ⟨h₁, hanchor⟩) h₂ rand rand rand,
    delta_script_append h₁ hanchor rand rand rand, delta_script_append h₁ h₂ rand' rand rand]
  simp only [script, LumpTree.text, LumpTree.chain, chainText, Edit.delta, append_nil, length_nil]
  omega

/-- Two fixed lists of which the first ends where the second begins. -/
theorem pairwise_fixed (hapart : ∀ r ∈ ranges list, ∀ r' ∈ ranges body, r.2 ≤ r'.1) :
    (ranges (fixLumps 0 list ++ fixLumps 0 body)).Pairwise fun a b => a.2 ≤ b.1 := by
  rw [ranges_append]
  refine pairwise_append.2 ⟨(pairwise_fixLumps 0 list).1, (pairwise_fixLumps 0 body).1, fun r hr => ?_⟩
  refine le_fixLumps (fun r' hr' => ?_) 0
  exact ranges_fixLumps_le (Nat.zero_le _) (fun r hr => hapart r hr r' hr') r hr

/-- An anchor that no lump covers is between them. -/
theorem pairwise_insertByOffset (h : (ranges (list ++ body)).Pairwise fun a b => a.2 ≤ b.1)
    (hclear : ∀ r ∈ ranges list, r.1 ≤ v → r.2 ≤ v) (hbody : ∀ r ∈ ranges body, v ≤ r.1)
    (hsorted : SortedByOffset list) :
    (ranges (insertByOffset v ⟨.nop v, .text line, .none⟩ list ++ body)).Pairwise fun a b => a.2 ≤ b.1 := by
  obtain ⟨l₁, l₂, rfl, heq, hle, hhead⟩ := insertByOffset_eq v ⟨.nop v, .text line, .none⟩ list
  rw [SortedByOffset, ranges_append] at hsorted
  have hgt := SortedByOffset.lt_of_head (pairwise_append.1 hsorted).2.1 hhead
  have hmid : ranges (⟨.nop v, .text line, .none⟩ :: (l₂ ++ body)) = (v, v) :: ranges (l₂ ++ body) := ranges_cons rfl _
  rw [append_assoc, ranges_append] at h
  obtain ⟨h₁, h₂, h₁₂⟩ := pairwise_append.1 h
  rw [heq, append_assoc, cons_append, ranges_append, hmid]
  refine pairwise_append.2 ⟨h₁, pairwise_cons.2 ⟨fun r hr => ?_, h₂⟩, fun r hr r' hr' => ?_⟩
  · rw [ranges_append] at hr
    rcases mem_append.1 hr with hr | hr
    · exact Nat.le_of_lt (hgt r hr)
    · exact hbody r hr
  · rcases mem_cons.1 hr' with rfl | hr'
    · exact hclear r (by rw [ranges_append]; exact mem_append_left _ hr) (hle r hr)
    · exact h₁₂ r hr r' hr'

end Lengths

/-! ## Requests -/

/-- A lump is not behind where a pass over the request has come to when it is applied, and neither
is the Via, nor a lump of the body. -/
structure SipReq.Clear (req : SipReq) (r : Nat × Nat) : Prop where
  via : r.1 ≤ req.via1.hdr → r.2 ≤ req.via1.hdr
  uri : req.start ≤ r.1
  body : ∀ r' ∈ ranges req.bodyLumps, r.2 ≤ r'.1

section Requests

variable {req : SipReq} {core : ReqCore} {sendInfo : DestInfo} {rand : Rand} {p : PreparedReq}
  {clen params : List Lump}

theorem SipReq.Parsed.start_le_clen (h : req.Parsed) {f} (hf : req.contentLength = some f) : req.start ≤ f.name := by
  unfold SipReq.start
  cases req.newUri with
  | none => exact Nat.zero_le _
  | some uri => exact h.uriClen f hf

/-- A lump of the build is in the headers. -/
theorem SipReq.Prepared.own (hparsed : req.Parsed) (h : req.Prepared core sendInfo rand p clen params) :
    ∀ t ∈ clen ++ params, NoRand [t] ∧ ∃ r, t.range = some r ∧ (r.1 ≤ req.via1.hdr → r.2 ≤ req.via1.hdr) ∧
      req.start ≤ r.1 ∧ r.2 ≤ req.buf.length ∧ ∀ e, req.headersEnd = .found e → r.2 ≤ e := by
  have hvia := hparsed.via1.insertParam
  have hstart := hparsed.start_le
  intro t ht
  rcases mem_append.1 ht with ht | ht
  · obtain ⟨hrand, e, he, hlen, hr⟩ := h.adjusted.range t ht
    have hsame : ∀ e', req.headersEnd = .found e' → e = e' := fun e' he' => HeadersEnd.found.inj (he.symm.trans he')
    have hviaEnd := hparsed.viaEnd e he
    refine ⟨hrand, ?_⟩
    rcases hr with hr | ⟨f, hf, hr⟩
    · refine ⟨_, hr, ?_, ?_, hlen, fun e' he' => Nat.le_of_eq (hsame e' he')⟩
      all_goals
        simp only
        omega
    · have hin := hparsed.clen f hf
      have hend := hparsed.clenEnd f e hf he
      have happart := hparsed.viaClen f hf
      have huri := hparsed.start_le_clen hf
      refine ⟨_, hr, ?_, ?_, ?_, ?_⟩
      · simp only
        omega
      · simp only
        omega
      · simp only
        omega
      · intro e' he'
        rw [← hsame e' he']
        simp only
        omega
  · obtain ⟨⟨r, hr, hgt, hlt, hle⟩, hrand⟩ := h.inVia t ht
    have hin := hparsed.viaIn
    refine ⟨hrand, r, hr, by omega, by omega, by omega, ?_⟩
    intro e he
    have hend := hparsed.viaEnd e he
    omega

/-- The list of the headers with the lumps of the build. -/
theorem SipReq.Prepared.headers (hparsed : req.Parsed) (hok : req.LumpsOk)
    (hclear : ∀ r ∈ ranges req.addRm, req.Clear r) (h : req.Prepared core sendInfo rand p clen params) :
    SortedByOffset (putAll req.addRm (clen ++ params)) ∧
      ∀ r ∈ ranges (putAll req.addRm (clen ++ params)), req.Clear r ∧ r.2 ≤ req.buf.length := by
  have hown := h.own hparsed
  constructor
  · refine hok.addRm.putAll fun t ht => ?_
    obtain ⟨-, r, hr, -⟩ := hown t ht
    rw [hr]
    rfl
  · refine forall_ranges_putAll (fun t ht => ?_) fun r hr => ⟨hclear r hr, hok.headers r hr⟩
    obtain ⟨-, r, hr, hvia, hstart, hlen, hend⟩ := hown t ht
    exact ⟨r, hr, ⟨hvia, hstart, hok.le_body hend⟩, hlen⟩

/-- By how much the lumps that are skipped would make a request longer, when it is written. -/
def SipReq.skipped (req : SipReq) (sendInfo : DestInfo) (p : PreparedReq) : Int :=
  Msg.skipped req.toMsgData (some sendInfo) req.start
    (insertByOffset req.via1.hdr (req.viaLump p.line) p.msg.addRm ++ p.msg.bodyLumps) p.rand

/-- A request is as long as computed, but for what is skipped. -/
theorem SipReq.length_written {b} (hok : req.LumpsOk) (hparsed : req.Parsed)
    (hrand : NoRand (req.addRm ++ req.bodyLumps)) (h : buildReqBufFromSipReq core req sendInfo rand = some b) :
    ∃ p, prepareReq core req sendInfo rand = some p ∧ (b.written.length : Int) = b.newLen - req.skipped sendInfo p ∧
      ((∀ r ∈ ranges req.addRm, req.Clear r) → req.skipped sendInfo p = 0) := by
  obtain ⟨p, clen, params, hp, hprep, hhdr, -, hnewLen, hwritten⟩ := buildReq_spec hparsed h
  have haddRm : p.msg.addRm = fixLumps 0 (putAll req.addRm (clen ++ params)) := by rw [hprep.msg]
  have hbodyLumps : p.msg.bodyLumps = fixLumps 0 req.bodyLumps := by rw [hprep.msg]
  have hown := hprep.own hparsed
  obtain ⟨hrandHeaders, hrandBody⟩ := noRand_append.1 hrand
  have hrandAll : NoRand (putAll req.addRm (clen ++ params)) :=
    noRand_putAll (fun t ht => noRand_singleton.1 (hown t ht).1) hrandHeaders
  have hrandFixed := noRand_fixLumps hrandAll 0
  have hviaBody : ∀ r ∈ ranges (fixLumps 0 req.bodyLumps), req.via1.hdr ≤ r.1 :=
    le_fixLumps (hok.le_body fun _ he => (hparsed.hdr_lt_end he).le) 0
  refine ⟨p, hp, ?_, fun hclear => ?_⟩
  · have hends : ∀ r ∈ ranges (insertByOffset req.via1.hdr (req.viaLump p.line) p.msg.addRm ++ p.msg.bodyLumps),
        r.2 ≤ req.buf.length := by
      rw [ranges_append, haddRm, hbodyLumps]
      refine forall_mem_append.2 ⟨fun r hr => ?_, ranges_fixLumps_le (Nat.zero_le _) fun r hr => (hok.body r hr).1⟩
      rcases (mem_ranges_insertByOffset rfl).1 hr with rfl | hr
      · exact hhdr
      · refine ranges_fixLumps_le (Nat.zero_le _) (forall_ranges_putAll (fun t ht => ?_) hok.headers) r hr
        obtain ⟨-, r, hr, -, -, hlen, -⟩ := hown t ht
        exact ⟨r, hr, hlen⟩
    have hrandPut : NoRand (insertByOffset req.via1.hdr (req.viaLump p.line) p.msg.addRm) :=
      noRand_putAll (show NoRand [req.viaLump p.line] from noRand_anchor req.via1.hdr p.line) (haddRm ▸ hrandFixed)
    have hrandBody' : NoRand p.msg.bodyLumps := hbodyLumps ▸ noRand_fixLumps hrandBody 0
    have hlen := length_writeLumps (some sendInfo) (noRand_append.2 ⟨hrandPut, hrandBody'⟩) hends
      (Nat.le_trans hparsed.start_le hhdr) p.rand p.rand
    rw [delta_script_append hrandPut hrandBody' p.rand p.rand rand, SipReq.viaLump, haddRm, hbodyLumps,
      delta_insertByOffset hrandFixed p.rand (req.bodyScript (some sendInfo) rand).2, script_fixLumps, script_fixLumps,
      ← SipReq.viaLump, ← haddRm, ← hbodyLumps] at hlen
    rw [hwritten, hnewLen, hprep.newLen, SipReq.skipped]
    simp only [length_append, SipMsg.headerScript, SipMsg.bodyScript] at hlen ⊢
    omega
  · obtain ⟨hsorted, hheaders⟩ := hprep.headers hparsed hok hclear
    have hapart := pairwise_fixed fun r hr r' hr' => (hheaders r hr).1.body r' hr'
    have hfixed : SortedByOffset (fixLumps 0 (putAll req.addRm (clen ++ params))) :=
      (pairwise_fixLumps 0 _).1.imp_of_mem fun ha _ hab => Nat.le_trans ((pairwise_fixLumps 0 _).2 _ ha).2 hab
    rw [SipReq.skipped, haddRm, hbodyLumps]
    refine skipped_eq_zero (pairwise_insertByOffset hapart
      (clear_fixLumps (fun r hr => (hheaders r hr).1.via) 0) hviaBody hfixed)
      (fun r hr => ?_) _
    rw [ranges_append] at hr
    rcases mem_append.1 hr with hr | hr
    · rcases (mem_ranges_insertByOffset rfl).1 hr with rfl | hr
      · exact hparsed.start_le
      · exact le_fixLumps (fun r hr => (hheaders r hr).1.uri) 0 r hr
    · exact Nat.le_trans hparsed.start_le (hviaBody r hr)

end Requests

/-! ## Replies -/

/-- By how much the lumps that are skipped would make a reply longer, when it is written. -/
def SipRes.skipped (res : SipRes) (p : PreparedRes) : Int :=
  Msg.skipped res.toMsgData none 0 (p.msg.addRm ++ p.msg.bodyLumps) p.rand

/-- A reply is as long as computed, but for what is skipped. -/
theorem SipRes.length_written {res rand b} (hok : res.LumpsOk) (hparsed : res.Parsed)
    (hrand : NoRand (res.addRm ++ res.bodyLumps)) (h : buildResBufFromSipRes res rand = some b) :
    ∃ p, prepareRes res rand = some p ∧ (b.written.length : Int) = b.newLen - res.skipped p ∧
      ((∀ r ∈ ranges res.addRm, ∀ r' ∈ ranges res.bodyLumps, r.2 ≤ r'.1) → res.skipped p = 0) := by
  obtain ⟨p, clen, hp, hprep, hnewLen, hwritten⟩ := buildRes_spec hparsed h
  obtain ⟨hrandHeaders, hrandBody⟩ := noRand_append.1 hrand
  have haddRm : p.msg.addRm = fixLumps 0 (putAll res.addRm (clen ++ [res.viaLump])) := by rw [hprep.msg]
  have hbodyLumps : p.msg.bodyLumps = fixLumps 0 res.bodyLumps := by rw [hprep.msg]
  -- a lump of the build is in the headers
  have hown : ∀ t ∈ clen ++ [res.viaLump], NoRand [t] ∧ ∃ r, t.range = some r ∧ r.2 ≤ res.buf.length ∧
      ∀ e, res.headersEnd = .found e → r.2 ≤ e := by
    intro t ht
    rcases mem_append.1 ht with ht | ht
    · obtain ⟨hrand, e, he, hlen, hr⟩ := hprep.adjusted.range t ht
      have hsame : ∀ e', res.headersEnd = .found e' → e = e' := fun e' he' => HeadersEnd.found.inj (he.symm.trans he')
      refine ⟨hrand, ?_⟩
      rcases hr with hr | ⟨f, hf, hr⟩
      · exact ⟨_, hr, hlen, fun e' he' => Nat.le_of_eq (hsame e' he')⟩
      · have hin := hparsed.clen f hf
        have hend := hparsed.clenEnd f e hf he
        refine ⟨_, hr, by simp only; omega, ?_⟩
        intro e' he'
        rw [← hsame e' he']
        simp only
        omega
    · obtain rfl := mem_singleton.1 ht
      exact ⟨by simp [NoRand, Lump.addOps, LumpTree.chain, SipRes.viaLump], _, rfl, hprep.via, hparsed.viaEnd⟩
  have hrandAll : NoRand (putAll res.addRm (clen ++ [res.viaLump])) :=
    noRand_putAll (fun t ht => noRand_singleton.1 (hown t ht).1) hrandHeaders
  refine ⟨p, hp, ?_, fun hclear => ?_⟩
  · have hends : ∀ r ∈ ranges (p.msg.addRm ++ p.msg.bodyLumps), r.2 ≤ res.buf.length := by
      rw [ranges_append, haddRm, hbodyLumps]
      refine forall_mem_append.2
        ⟨ranges_fixLumps_le (Nat.zero_le _) (forall_ranges_putAll (fun t ht => ?_) hok.headers),
          ranges_fixLumps_le (Nat.zero_le _) fun r hr => (hok.body r hr).1⟩
      obtain ⟨-, r, hr, hlen, -⟩ := hown t ht
      exact ⟨r, hr, hlen⟩
    have hrandFixed : NoRand p.msg.addRm := haddRm ▸ noRand_fixLumps hrandAll 0
    have hrandBody' : NoRand p.msg.bodyLumps := hbodyLumps ▸ noRand_fixLumps hrandBody 0
    have hlen := length_writeLumps none (noRand_append.2 ⟨hrandFixed, hrandBody'⟩) hends
      (Nat.zero_le _) p.rand p.rand
    rw [delta_script_append hrandFixed hrandBody' p.rand (res.bodyScript none rand).2 rand, haddRm,
      hbodyLumps, script_fixLumps, script_fixLumps, ← haddRm, ← hbodyLumps] at hlen
    rw [hwritten, hnewLen, hprep.newLen, SipRes.skipped]
    simp only [SipMsg.headerScript, SipMsg.bodyScript] at hlen ⊢
    omega
  · rw [SipRes.skipped, haddRm, hbodyLumps]
    refine skipped_eq_zero (pairwise_fixed (forall_ranges_putAll (fun t ht => ?_) hclear)) (fun _ _ => Nat.zero_le _) _
    obtain ⟨-, r, hr, -, hend⟩ := hown t ht
    exact ⟨r, hr, hok.le_body hend⟩

/-! ## Both -/

/-- A core whose Via shows the protocol it is made for. -/
def sampleCore : ReqCore where
  createViaHf := fun di => bytes (if di.proto = .udp then "V:u\n" else "V:s\n")
  received := none
  rport := []
  getSendSocket := fun proto => some ⟨⟨.inet, []⟩, [], 5060, [], proto⟩
  udpMtu := 10
  tcpDisable := false
  tlsDisable := false
  sctpDisable := false

def sampleReq (eoh : Option Nat) (addRm bodyLumps : List Lump) (newUri : Option (List UInt8)) : SipReq where
  toSipMsg := { plainMsg (bytes "I u\nV:a\nC:b\n\nxy") 12 with eoh := eoh, addRm := addRm, bodyLumps := bodyLumps }
  via1 := ⟨4, 8, none, 7, none, none, none⟩
  uri := (2, 1)
  newUri := newUri
  forceRport := false
  mtuTcpFb := false
  mtuTlsFb := false
  mtuSctpFb := false

def sampleRes (eoh : Option Nat) (addRm bodyLumps : List Lump) : SipRes where
  toSipMsg := { plainMsg (bytes "2 u\nV:a\nV:b\n\nxy") 12 with eoh := eoh, addRm := addRm, bodyLumps := bodyLumps }
  via1Next := false
  via1Bsize := 0
  hVia1Name := 4
  hVia1Len := 4
  hVia1Body := 6
  via2Proto := none

def sampleDest : DestInfo := ⟨.udp, none⟩

def noChance : Rand := fun _ => false

variable {eoh : Option Nat}

theorem sampleReq_parsed (heoh : ∀ e, eoh = some e → e = 12) (addRm bodyLumps)
    (newUri) : (sampleReq eoh addRm bodyLumps newUri).Parsed where
  eoh := fun e he => by rw [heoh e he]; rfl
  clen := nofun
  clenEnd := nofun
  via1 := ⟨(by decide : 4 < 7 ∧ 7 < 8), nofun, nofun⟩
  viaIn := (by decide : 8 ≤ (bytes "I u\nV:a\nC:b\n\nxy").length)
  viaEnd := fun _ he => HeadersEnd.found.inj he ▸ (by decide : 8 ≤ 12)
  uriVia := (by decide : 2 + 1 ≤ 4)
  uriClen := nofun
  viaClen := nofun

theorem sampleRes_parsed (heoh : ∀ e, eoh = some e → e = 12) (addRm bodyLumps) :
    (sampleRes eoh addRm bodyLumps).Parsed where
  eoh := fun e he => by rw [heoh e he]; rfl
  clen := nofun
  clenEnd := nofun
  viaLen := (by decide : 0 < 4)
  viaEnd := fun _ he => HeadersEnd.found.inj he ▸ (by decide : 4 + 4 ≤ 12)
  viaClen := nofun

theorem eoh_sample : ∀ e, some 12 = some e → e = 12 := fun _ he => (some.inj he).symm

/-- What is written is as long as computed exactly if the lumps that are skipped add as much as they
delete. None is skipped if no deletion covers the start of the first Via, none of the headers ends
in one of the body, and no lump is in the first line when its URI is replaced. -/
theorem built_length_eq (rand : Rand) :
    (∀ (core : ReqCore) (req : SipReq) (sendInfo : DestInfo) (b : BuiltReq), req.toSipMsg.Built →
      req.Parsed → NoRand (req.addRm ++ req.bodyLumps) → buildReqBufFromSipReq core req sendInfo rand = some b →
      ∃ p, prepareReq core req sendInfo rand = some p ∧
        ((b.written.length : Int) = b.newLen ↔ req.skipped sendInfo p = 0) ∧
        ((∀ r ∈ ranges req.addRm, req.Clear r) → req.skipped sendInfo p = 0)) ∧
    ∀ (res : SipRes) (b : BuiltRes), res.toSipMsg.Built → res.Parsed →
      NoRand (res.addRm ++ res.bodyLumps) → buildResBufFromSipRes res rand = some b →
      ∃ p, prepareRes res rand = some p ∧ ((b.written.length : Int) = b.newLen ↔ res.skipped p = 0) ∧
        ((∀ r ∈ ranges res.addRm, ∀ r' ∈ ranges res.bodyLumps, r.2 ≤ r'.1) → res.skipped p = 0) := by
  constructor
  · intro core req sendInfo b hbuilt hparsed hrand h
    obtain ⟨p, hp, hlen, hclear⟩ := SipReq.length_written hbuilt.lumpsOk hparsed hrand h
    exact ⟨p, hp, by omega, hclear⟩
  · intro res b hbuilt hparsed hrand h
    obtain ⟨p, hp, hlen, hclear⟩ := SipRes.length_written hbuilt.lumpsOk hparsed hrand h
    exact ⟨p, hp, by omega, hclear⟩

theorem built_length_eq_sample :
    (let req := sampleReq (some 12) [⟨.del 8 4, .none, .none⟩]
      [⟨.del 13 1, .none, .text (bytes "z")⟩] (some (bytes "new"))
      ∃ b, buildReqBufFromSipReq sampleCore req sampleDest noChance = some b ∧
        b.written = bytes "I new\nV:u\nV:a\n\nzy" ∧ (b.written.length : Int) = b.newLen) ∧
    (let res := sampleRes (some 12) [⟨.nop 8, .text (bytes "z"), .none⟩] [⟨.del 13 1, .none, .none⟩]
      ∃ b, buildResBufFromSipRes res noChance = some b ∧ b.written = bytes "2 u\nzV:b\n\ny" ∧
        (b.written.length : Int) = b.newLen) := by
  constructor
  · intro req
    have hbuilt : req.toSipMsg.Built :=
      ⟨plainMsg (bytes "I u\nV:a\nC:b\n\nxy") 12, ⟨rfl, rfl, nofun⟩,
        [.parseHeaders, .delLump 8 4, .delLump 13 1, .insertNewLumpAfter .bodyLumps 0 [] (bytes "z")], rfl⟩
    have hclear : ∀ r ∈ ranges req.addRm, req.Clear r := by
      intro r hr
      obtain rfl : r = (8, 12) := mem_singleton.1 hr
      exact ⟨by decide, by decide, by decide⟩
    obtain ⟨p, -, hiff, hzero⟩ := (built_length_eq noChance).1 sampleCore req sampleDest _ hbuilt
      (sampleReq_parsed eoh_sample _ _ _) (by decide) rfl
    exact ⟨_, rfl, by decide, hiff.2 (hzero hclear)⟩
  · intro res
    have hbuilt : res.toSipMsg.Built :=
      ⟨plainMsg (bytes "2 u\nV:a\nV:b\n\nxy") 12, ⟨rfl, rfl, nofun⟩,
        [.parseHeaders, .anchorLump 8, .insertNewLumpBefore .addRm 0 [] (bytes "z"), .delLump 13 1], rfl⟩
    obtain ⟨p, -, hiff, hzero⟩ :=
      (built_length_eq noChance).2 res _ hbuilt (sampleRes_parsed eoh_sample _ _) (by decide) rfl
    exact ⟨_, rfl, by decide, hiff.2 (hzero (by decide))⟩

/-- The first Via removed by the script: the length has room for the new Via, which is not written.
A deletion of the headers that ends in one of the body: more is written than there is room for. -/
theorem length_written_ne :
    (let req := sampleReq none [⟨.del 4 4, .none, .none⟩] [] none;
      req.toSipMsg.Built ∧ req.Parsed ∧ NoRand (req.addRm ++ req.bodyLumps) ∧
        (buildReqBufFromSipReq sampleCore req sampleDest noChance).map (fun b => (b.written, b.newLen)) =
          some (bytes "I u\nC:b\n\nxy", 15)) ∧
    (let res := sampleRes (some 12) [⟨.del 11 4, .none, .none⟩] [⟨.del 14 1, .none, .none⟩];
      res.toSipMsg.Built ∧ res.Parsed ∧ NoRand (res.addRm ++ res.bodyLumps) ∧
        (buildResBufFromSipRes res noChance).map (fun b => (b.written, b.newLen)) = some (bytes "2 u\nV:b", 6)) := by
  refine ⟨⟨?_, @sampleReq_parsed none nofun _ _ _, by decide, by decide⟩,
    ?_, sampleRes_parsed eoh_sample _ _, by decide, by decide⟩
  · exact ⟨plainMsg (bytes "I u\nV:a\nC:b\n\nxy") 12, ⟨rfl, rfl, nofun⟩, [.delLump 4 4], rfl⟩
  · exact ⟨plainMsg (bytes "2 u\nV:a\nV:b\n\nxy") 12, ⟨rfl, rfl, nofun⟩,
      [.parseHeaders, .delLump 11 4, .delLump 14 1], rfl⟩

end SipRouter.Msg
