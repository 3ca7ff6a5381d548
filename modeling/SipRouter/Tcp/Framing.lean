import SipRouter.Tcp.Lines
import SipRouter.Tcp.Rounds

/-!
# What is handed up as a message

In a run whose accepted Content-Length values fit an `int`, the scanner stays in
the buffer, and each unit given to `receive_msg` is a block of header lines up to
its first blank line, followed by as many bytes as the first of its
Content-Length lines says. A longer number wraps and is used all the same: it
may become negative, and the scanner then goes back.
-/

namespace SipRouter.Tcp

open Lib List

/-! ## Messages -/

/-- The header of a message: lines, none of them blank, and a blank one. The first of them
that is a Content-Length line has the value `n`. -/
def Header (hdr : List UInt8) (n : Nat) : Prop :=
  ∃ (lines : List (List UInt8)) (last : List UInt8),
    (∀ line ∈ lines, Line line) ∧ BlankLine last ∧ lines.findSome? lineClen = some n ∧
      hdr = lines.flatMap (· ++ [lf]) ++ last ++ [lf]

/-- A header and a body of the length it says. -/
def Framed (bytes : List UInt8) (n : Nat) : Prop := ∃ hdr body, Header hdr n ∧ body.length = n ∧ bytes = hdr ++ body

variable {r : TcpReq} {p : Nat} {cfg : TcpCfg} {c : TcpConn} {res : TcpConn × Int}
  {upper : List TcpUnit → Int} {done : List (List UInt8)} {cur : List UInt8}

/-- A blank line ends the headers. -/
theorem TextInv.header {n} (h : TextInv r p n done cur) (hs : r.state = .hLf ∨ r.state = .hLfcr) (hst : r.start ≤ p)
    (hp : p < r.pos) (hch : r.byteAt p = lf) (hcl : r.hasClen = true) :
    r.contentLen = n ∧ Header (slice r.buf r.start (p + 1)) n := by
  have hblank : BlankLine cur := by
    rcases hs with hs | hs
    · exact .inl (by simpa only [CurrentLine, hs] using h.current)
    · exact .inr (by simpa only [CurrentLine, hs] using h.current)
  have hnone : lineClen cur = none := by
    rcases hblank with rfl | rfl <;> rfl
  have hlf : r.buf.getD p 0 = lf := hch
  refine ⟨(h.found hcl).value, done, cur, h.lines, hblank, ?_, ?_⟩
  · have hknown := h.clen []
    rw [append_nil, findSome?_append, findSome?_singleton, hnone, Option.or_none] at hknown
    rw [hknown, clenKnown, if_pos hcl]
  · rw [slice_succ hst hp, h.bytes, hlf]

/-! ## Rounds -/

/-- The scanner is in the body of a message, at offset `p`. -/
def InBody (r : TcpReq) (p : Nat) : Prop :=
  ∃ n : Nat, r.contentLen = n ∧ Header (slice r.buf r.start r.body) n ∧ r.start ≤ r.body ∧
    r.body ≤ p ∧ p + r.bytesToGo = r.body + n

/-- What the scanner has found when it stands at offset `p`. -/
def Phase (r : TcpReq) (p : Nat) : Prop :=
  match r.state with
  | .hSkipEmpty | .hSkipEmptyCrFound | .hSkipEmptyCrlfFound | .hSkipEmptyCrlfcrFound =>
    r.hasClen = false
  | .hBody => r.error = .ok → InBody r p
  | .hStunMsg | .hStunReadBody | .hStunFp | .hStunEnd | .hPingCrlf => True
  | _ => ∃ n done cur, TextInv r p n done cur

/-- The invariant of the loop of `tcp_read_headers`. -/
structure GoodScan (r : TcpReq) (p : Nat) : Prop where
  start : r.start ≤ p
  toGo : 0 ≤ r.bytesToGo
  complete : r.complete = false
  phase : Phase r p

/-- What a round at offset `p` may end with. -/
def GoodRound (p : Nat) : Scan → Prop
  | .next r' p' => 0 ≤ r'.bytesToGo ∧ Phase r' p'
  | .skip r' q => p ≤ q ∧ 0 ≤ r'.bytesToGo ∧
    (unitKind r'.state = .sip →
      ∃ n : Nat, r'.contentLen = n ∧ Framed (slice r'.buf r'.start q.toNat) n)

theorem phase_text {n} (hs : r.state.inText = true) (h : TextInv r p n done cur) : Phase r p := by
  unfold Phase
  cases hst : r.state
  all_goals first | exact ⟨n, done, cur, h⟩ | (rw [hst] at hs; cases hs)

theorem Phase.text (h : Phase r p) (hs : r.state.inText = true) : ∃ n done cur, TextInv r p n done cur := by
  unfold Phase at h
  cases hst : r.state <;> simp only [hst] at h
  all_goals first | exact h | (rw [hst] at hs; cases hs)

/-- The first character of a message. -/
theorem textInv_first {s} (hcl : r.hasClen = false) (hp : p < r.pos) (hne : r.byteAt p ≠ lf)
    (hcr : r.byteAt p ≠ cr) (hs : s.midLine)
    (hclen : ∀ rest, pending s 0 rest = lineClen (r.byteAt p :: rest)) :
    TextInv { r with state := s, start := p } (p + 1) 0 [] [r.byteAt p] where
  bytes := by
    show slice r.buf p (p + 1) = _
    rw [slice_succ (le_refl p) hp, slice_self]
    rfl
  lines := by simp
  no_lf := by simp [hne.symm]
  current := by
    have hread : ReadChar { r with state := .hLf } { r with state := s } 0 0 (r.byteAt p) [] :=
      readChar_goTo hcl hs (by simpa using hcr) hclen
    exact hread.current
  found := by simp [hcl]
  clen := by
    intro rest
    simp [clenKnown, hcl, hclen]

theorem good_skipEmptyChar (cfg) (h : GoodScan r p) (hs : r.state = .hSkipEmpty) (hp : p < r.pos) :
    GoodRound p (skipEmptyChar cfg r p (r.byteAt p)) := by
  have hcl : r.hasClen = false := by simpa only [Phase, hs] using h.phase
  have hsame : Phase r (p + 1) := by simpa only [Phase, hs] using hcl
  unfold skipEmptyChar
  by_cases hlf : r.byteAt p = lf
  · rw [if_pos hlf]
    exact ⟨h.toGo, hsame⟩
  by_cases hcr : r.byteAt p = cr
  · rw [if_neg hlf, if_pos hcr]
    split_ifs
    · exact ⟨h.toGo, hcl⟩
    · exact ⟨h.toGo, hsame⟩
  rw [if_neg hlf, if_neg hcr]
  split_ifs with hb hc hL hstun
  · exact ⟨h.toGo, hsame⟩
  all_goals refine ⟨h.toGo, ?_⟩
  · refine phase_text rfl (textInv_first hcl hp hlf hcr ?_ fun rest => ?_)
    · simp [TcpReqStates.midLine, TcpReqStates.inText]
    · rw [lineClen_cons, if_neg hb, if_pos hc]
      rfl
  · refine phase_text rfl (textInv_first hcl hp hlf hcr ?_ fun rest => ?_)
    · simp [TcpReqStates.midLine, TcpReqStates.inText]
    · rw [lineClen_cons, if_neg hb, if_neg hc, if_pos hL]
      rfl
  · trivial
  · refine phase_text rfl (textInv_first hcl hp hlf hcr midLine_hSkip fun rest => ?_)
    rw [lineClen_cons, if_neg hb, if_neg hc, if_neg hL]
    rfl

/-- The states before a message that look at one character. -/
theorem good_crFound (h : GoodScan r p) (hs : r.state.crFound = true) :
    GoodRound p (headerChar cfg r p (r.byteAt p)) := by
  have hphase := h.phase
  unfold Phase at hphase
  cases hst : r.state <;> simp only [hst] at hphase
  case hSkipEmptyCrFound | hSkipEmptyCrlfFound =>
    simp only [headerChar, hst]
    split_ifs <;> exact ⟨h.toGo, hphase⟩
  case hSkipEmptyCrlfcrFound =>
    simp only [headerChar, hst]
    split_ifs
    · exact ⟨by omega, h.toGo, fun hk => by cases hk⟩
    · exact ⟨h.toGo, hphase⟩
  all_goals
    rw [hst] at hs
    cases hs

theorem good_endOfHeaders (h : GoodScan r p) (hs : r.state = .hLf ∨ r.state = .hLfcr)
    (hp : p < r.pos) (hch : r.byteAt p = lf) :
    GoodRound p (endOfHeaders r p) := by
  have ht : r.state.inText = true := by rcases hs with hs | hs <;> rw [hs] <;> rfl
  obtain ⟨n, done, cur, htext⟩ := h.phase.text ht
  have hle := Nat.le_succ_of_le h.start
  unfold endOfHeaders
  simp only
  split_ifs with hcl hzero
  · obtain ⟨hlen, hhdr⟩ := htext.header hs h.start hp hch hcl
    refine ⟨by omega, by simp [hlen], fun _ => ⟨n, hlen, _, [], hhdr, ?_, ?_⟩⟩
    · have : (n : Int) = 0 := hlen ▸ hzero
      exact (Int.ofNat_eq_zero.1 this).symm
    · rw [append_nil]
      rfl
  · obtain ⟨hlen, hhdr⟩ := htext.header hs h.start hp hch hcl
    refine ⟨by simp [hlen], fun _ => ⟨n, hlen, hhdr, hle, le_refl _, ?_⟩⟩
    simp [hlen]
  · exact ⟨h.toGo, fun he => by cases he⟩

/-- A line feed in the middle of a line. -/
theorem headerChar_lf (ht : r.state.inText = true)
    (hl : r.state.looksAtChar = true) (hne : r.state ≠ .hLf) (hne' : r.state ≠ .hLfcr) :
    headerChar cfg r p lf =
      .next (r.atChar .hLf (r.hasClen || decide (r.state = .hContLenBodyParse)) r.contentLen)
      (p + 1) := by
  by_cases hparse : r.state = .hContLenBodyParse
  · rw [decide_eq_true hparse, Bool.or_true]
    simp only [headerChar, hparse]
    rfl
  · rw [decide_eq_false hparse, Bool.or_false]
    unfold headerChar TcpReq.atChar
    cases hs : r.state
    case hLf => exact absurd hs hne
    case hLfcr => exact absurd hs hne'
    case hContLenBodyParse => exact absurd hs hparse
    all_goals first
      | rfl
      | (rw [hs] at ht; exact absurd ht (by decide))
      | (rw [hs] at hl; exact absurd hl (by decide))

theorem good_text (h : GoodScan r p) (ht : r.state.inText = true) (hl : r.state.looksAtChar = true) (hp : p < r.pos)
    (hfit : numberFits (r, p) = true) : GoodRound p (headerChar cfg r p (r.byteAt p)) := by
  by_cases hlf : r.byteAt p = lf
  · by_cases hs : r.state = .hLf ∨ r.state = .hLfcr
    · have he : headerChar cfg r p (r.byteAt p) = endOfHeaders r p := by
        rcases hs with hs | hs <;> simp only [headerChar, hs, hlf] <;> rfl
      rw [he]
      exact good_endOfHeaders h hs hp hlf
    · rw [not_or] at hs
      obtain ⟨n, done, cur, htext⟩ := h.phase.text ht
      rw [hlf, headerChar_lf ht hl hs.1 hs.2]
      refine ⟨h.toGo, phase_text rfl (htext.endLine hs.1 hs.2 h.start hp hlf fun hparse => ?_)⟩
      exact htext.fits h.start hfit hparse (.inr hlf)
  · obtain ⟨n, done, cur, htext⟩ := h.phase.text ht
    obtain ⟨s, b, len, n', he, hs, htext'⟩ := htext.char ht hl h.start hp hlf hfit
    rw [he]
    exact ⟨h.toGo, phase_text hs htext'⟩

/-- No line feed comes before the first. -/
theorem lf_notMem_slice {buf i} (hi : i ≤ (buf.drop p).findIdx (· = lf)) : lf ∉ slice buf p (p + i) := by
  intro hm
  have hs : slice buf p (p + i) = (buf.drop p).take i := by
    rw [slice, drop_take, Nat.add_sub_cancel_left]
  rw [hs] at hm
  obtain ⟨j, hj, he⟩ := mem_iff_getElem.1 hm
  rw [getElem_take] at he
  rw [length_take] at hj
  have hlt : j < (buf.drop p).findIdx (· = lf) := by omega
  have := not_of_lt_findIdx hlt
  simp [he] at this

theorem good_skipLine (h : GoodScan r p) (hs : r.state = .hSkip) (hp : p < r.pos) : GoodRound p (skipLine r p) := by
  obtain ⟨n, done, cur, htext⟩ := h.phase.text (by rw [hs]; rfl)
  have hlen : (r.buf.drop p).length = r.pos - p := length_drop
  unfold skipLine
  simp only
  generalize hi : (r.buf.drop p).findIdx (· = lf) = i
  split_ifs with hlt
  · have hskip := htext.skip hs h.start (Nat.le_add_right p i) (lf_notMem_slice hi.ge)
    have hch : r.byteAt (p + i) = lf := by
      subst hi
      have := findIdx_getElem (w := hlt)
      rw [decide_eq_true_eq, getElem_drop] at this
      rw [TcpReq.byteAt, getD_eq_getElem _ _ (by unfold TcpReq.pos at *; omega)]
      exact this
    have hend := hskip.endLine (by simp [hs]) (by simp [hs]) (Nat.le_add_right_of_le h.start)
      (by omega) hch (by simp [hs])
    rw [decide_eq_false (by simp [hs]), Bool.or_false] at hend
    exact ⟨h.toGo, phase_text rfl hend⟩
  · have hle : r.pos = p + (r.pos - p) := by omega
    have hnot : lf ∉ slice r.buf p r.pos := by
      rw [hle]
      exact lf_notMem_slice (by omega)
    exact ⟨h.toGo, phase_text (by rw [hs]; rfl) (htext.skip hs h.start (le_of_lt hp) hnot)⟩

theorem good_readBody (h : GoodScan r p) (hs : r.state = .hBody) (he : r.error = .ok)
    (hp : p < r.pos) : GoodRound p (readBody r p) := by
  have hphase := h.phase
  simp only [Phase, hs] at hphase
  obtain ⟨n, hlen, hhdr, hst, hle, hgo⟩ := hphase he
  have htoGo := h.toGo
  unfold readBody
  simp only
  generalize hm : min ((r.pos : Int) - p) r.bytesToGo = m
  split_ifs with hzero
  · refine ⟨by omega, by simp only; omega, fun _ => ⟨n, hlen, _, slice r.buf r.body (p + m).toNat, hhdr, ?_, ?_⟩⟩
    · rw [length_slice (by unfold TcpReq.pos at *; omega)]
      omega
    · exact (slice_append_slice hst (by omega)).symm
  · refine ⟨by simp only; omega, ?_⟩
    simp only [Phase, hs]
    exact fun _ => ⟨n, hlen, hhdr, hst, by simp only; omega, by simp only; omega⟩

theorem good_stunMsg (h : GoodScan r p) (hr : Standing r p) (hs : r.state = .hStunMsg) : GoodRound p (stunMsg r) := by
  obtain ⟨hb, hlo, hhi⟩ : r.body = r.start ∧ r.start < p ∧ p < r.start + stunHdrLen := by
    simpa only [Standing, hs] using hr
  unfold stunMsg isMsgComplete
  simp only
  split_ifs
  · exact ⟨h.toGo, trivial⟩
  · exact ⟨h.toGo, trivial⟩
  · exact ⟨by simp only; omega, h.toGo, fun hk => by cases hk⟩
  · exact ⟨h.toGo, by simp only [Phase, hs]⟩

theorem good_stunPart (h : GoodScan r p) (hr : Standing r p) (hs : r.state = .hStunReadBody ∨ r.state = .hStunFp) :
    GoodRound p (if r.state = .hStunReadBody then stunReadBody r else stunFp r) := by
  have hhi : p < r.body + stunBodyLen r := by
    rcases hs with hs | hs <;> simp only [Standing, hs] at hr <;> exact hr.2
  have hwait : GoodRound p (.next r r.pos) := ⟨h.toGo, by rcases hs with hs | hs <;> simp only [Phase, hs]⟩
  unfold stunReadBody stunFp isMsgComplete
  simp only
  split_ifs
  · exact ⟨h.toGo, trivial⟩
  · exact ⟨by simp only; omega, h.toGo, fun hk => by cases hk⟩
  · exact hwait
  · exact ⟨by omega, h.toGo, fun hk => by cases hk⟩
  · exact hwait

theorem headersRound_good (cfg) (h : GoodScan r p)
    (hr : Standing r p) (hp : p < r.pos) (he : r.error = .ok) (hfit : numberFits (r, p) = true) :
    GoodRound p (headersRound cfg r p) := by
  unfold headersRound
  cases hs : r.state
  case hBody => exact good_readBody h hs he hp
  case hSkip => exact good_skipLine h hs hp
  case hStunMsg => exact good_stunMsg h hr hs
  case hStunReadBody => simpa only [hs, if_true] using good_stunPart h hr (.inl hs)
  case hStunFp =>
    have hpart := good_stunPart h hr (.inr hs)
    rwa [if_neg (by simp [hs])] at hpart
  case hStunEnd | hPingCrlf => simp only [Standing, hs] at hr
  case hSkipEmpty =>
    have := good_skipEmptyChar cfg h hs hp
    simpa only [headerChar, hs] using this
  case hSkipEmptyCrFound | hSkipEmptyCrlfFound | hSkipEmptyCrlfcrFound =>
    exact good_crFound h (by rw [hs]; rfl)
  all_goals exact good_text h (by rw [hs]; rfl) (by rw [hs]; rfl) hp hfit

/-! ## A scan -/

/-- What holds after `tcp_read_headers`: the offsets are in order, and a complete message is
framed as its header says. -/
structure GoodReq (r : TcpReq) : Prop where
  start_le : r.start ≤ r.parsed
  le_pos : r.parsed ≤ r.pos
  toGo : 0 ≤ r.bytesToGo
  framed : r.complete = true → unitKind r.state = .sip →
    ∃ n : Nat, r.contentLen = n ∧ Framed r.unitBytes n

theorem unitBytes_eq_slice (h : (r.start : Int) ≤ r.parsed) : r.unitBytes = slice r.buf r.start r.parsed.toNat := by
  unfold TcpReq.unitBytes slice
  rw [drop_take]
  congr 1
  omega

/-- All numbers that a scan of the request accepts fit an `int`. -/
def scanFits (cfg : TcpCfg) (r : TcpReq) : Bool :=
  loopAll (headersStep cfg) numberFits (2 * (r.pos + 1)) (r, r.parsed.toNat)

/-- The invariant of the scanning loop. -/
structure ScanInv (s : TcpReq × Nat) : Prop where
  loopInv : LoopInv s
  good : GoodScan s.1 s.2

theorem ScanInv.step {s t} (h : ScanInv s) (hfit : numberFits s = true)
    (hst : headersStep cfg s = .inl t) : ScanInv t := by
  obtain ⟨hp, he, hr⟩ := headersStep_inl hst
  have hn := headersRound_next h.loopInv.1 hp hr
  have hg := headersRound_good cfg h.good h.loopInv.1 hp he hfit
  rw [hr] at hg
  refine ⟨(h.loopInv.step hst).1, ?_, hg.1, hn.kept.complete.trans h.good.complete, hg.2⟩
  have hle : s.2 ≤ t.2 := by rcases hn.moved with hm | ⟨hm, -⟩ <;> omega
  have hstart := h.good.start
  rcases hn.kept.start with hk | hk <;> omega

/-- The invariant is about the bytes in front of the scanner only. -/
theorem GoodScan.sameFront (h : GoodScan r p) {buf q} (hbuf : ∀ a b, b ≤ p → slice buf a b = slice r.buf a b) :
    GoodScan { r with buf := buf, parsed := q } p where
  start := h.start
  toGo := h.toGo
  complete := h.complete
  phase := by
    by_cases ht : r.state.inText = true
    · obtain ⟨n, done, cur, htext⟩ := h.phase.text ht
      have hbytes := (hbuf r.start p (le_refl p)).trans htext.bytes
      have hfound : r.hasClen = true → Found { r with buf := buf, parsed := q } n :=
        fun hc => ⟨(htext.found hc).value, (htext.found hc).state⟩
      exact phase_text ht
        ⟨hbytes, htext.lines, htext.no_lf, htext.current, hfound, htext.clen⟩
    · have hphase := h.phase
      unfold Phase at hphase ⊢
      cases hs : r.state <;> simp only [hs] at hphase ⊢
      case hBody =>
        intro he
        obtain ⟨n, hlen, hhdr, hst, hle, hgo⟩ := hphase he
        refine ⟨n, hlen, ?_, hst, hle, hgo⟩
        show Header (slice buf r.start r.body) n
        rw [hbuf _ _ hle]
        exact hhdr
      all_goals first | exact hphase | (rw [hs] at ht; exact absurd rfl ht)

/-- What a scan leaves. -/
structure ScanEnd (r : TcpReq) : Prop where
  good : GoodReq r
  wait : ¬ Finished r → GoodScan r r.parsed.toNat

theorem ScanInv.last {s} (h : ScanInv s) (hfit : numberFits s = true)
    (hst : headersStep cfg s = .inr r) : ScanEnd r := by
  unfold headersStep at hst
  split_ifs at hst with ht
  · have hg := headersRound_good cfg h.good h.loopInv.1 ht.1 ht.2 hfit
    cases hr : headersRound cfg s.1 s.2 with
    | next r' p' => rw [hr] at hst; cases hst
    | skip r' q =>
      have hends := headersRound_skip h.loopInv.1 ht.1 hr
      rw [hr] at hst hg
      cases hst
      obtain ⟨hle, htoGo, hsip⟩ := hg
      have hstart : (r'.start : Int) ≤ q := by
        rw [hends.start]
        exact Int.le_trans (Int.ofNat_le.2 h.good.start) hle
      have hpos : r'.pos = s.1.pos := by rw [TcpReq.pos, hends.buf]; rfl
      refine ⟨⟨hstart, hpos ▸ hends.le_pos, htoGo, fun _ hk => ?_⟩, fun hn => ?_⟩
      · obtain ⟨n, hlen, hframed⟩ := hsip hk
        refine ⟨n, hlen, ?_⟩
        rw [unitBytes_eq_slice hstart]
        exact hframed
      · exact absurd (.inl hends.complete) hn
  · cases hst
    refine ⟨⟨Int.ofNat_le.2 h.good.start, Int.ofNat_le.2 h.loopInv.2, h.good.toGo, fun hc => ?_⟩,
      fun _ => h.good.sameFront fun _ _ _ => rfl⟩
    exact absurd hc (by simp [h.good.complete])

/-- The scanning part of `tcp_read_headers`, when the numbers it accepts fit. -/
theorem headersLoop_good (h : ScanInv (r, r.parsed.toNat)) (hfit : scanFits cfg r = true) :
    ScanEnd (headersLoop cfg r) :=
  loop_induction ScanInv ScanEnd (fun hs hP hf => hs.step hP hf) (fun hs hP hf => hs.last hP hf) h hfit
    (headersLoop_eq h.loopInv)

/-! ## Runs of a connection -/

/-- The request that `tcp_read_headers` scans: the one at hand, or with what it has read. -/
def reqToScan (ev : ReadEvent) (c : TcpConn) : TcpReq :=
  if c.req.parsed < c.req.pos then c.req else (tcpRead ev c).1.req

/-- The numbers that `tcp_read_headers` accepts fit an `int`. -/
def roundFits (cfg : TcpCfg) (ev : ReadEvent) (c : TcpConn) : Bool := scanFits cfg (reqToScan ev c)

/-- The connections met at the start of the rounds of `tcp_read_req`, in a run that only
accepted numbers that fit. -/
inductive FittingRun (cfg : TcpCfg) (upper : List TcpUnit → Int) : TcpConn → Prop
  | init (bSize : Nat) : FittingRun cfg upper (initTcpConn bSize)
  | again {c c' : TcpConn} (ev : ReadEvent) (h : FittingRun cfg upper c)
      (hfit : roundFits cfg ev c = true) (hr : tcpReadReqRound cfg upper ev c = .inl c') :
      FittingRun cfg upper c'
  | kept {c c' : TcpConn} (ev : ReadEvent) (h : FittingRun cfg upper c)
      (hfit : roundFits cfg ev c = true) (hr : tcpReadReqRound cfg upper ev c = .inr (.release, c')) :
      FittingRun cfg upper c'

/-- The units given to `receive_msg` are messages with bodies of the length they say. -/
def GoodUnits (units : List TcpUnit) : Prop := ∀ u ∈ units, u.kind = .sip → ∃ n, Framed u.bytes n

/-- The connection a round ends with. -/
def roundConn : TcpConn ⊕ (ConnCmd × TcpConn) → TcpConn
  | .inl c => c
  | .inr (_, c) => c

structure GoodConn (c : TcpConn) : Prop extends Live c where
  scan : GoodScan c.req c.req.parsed.toNat
  units : GoodUnits c.units

/-- The request of a connection that waits, with or without a new error. -/
theorem GoodConn.goodReq (h : GoodConn c) (e) : GoodReq { c.req with error := e } where
  start_le := by
    have h1 := h.nonneg
    have h2 := h.scan.start
    simp only
    omega
  le_pos := by
    have h1 := h.nonneg
    have h2 := h.inv.2
    simp only at h2
    show c.req.parsed ≤ (c.req.pos : Int)
    omega
  toGo := h.scan.toGo
  framed := fun hc => absurd hc (by simp [h.complete])

theorem GoodConn.append (h : GoodConn c) {y} (hy : y.length ≤ c.req.bSize - c.req.pos) : GoodConn (c.append y) where
  toLive := h.append_live hy
  scan := by
    refine h.scan.sameFront fun a b hb => ?_
    have hle := le_trans hb h.inv.2
    unfold slice
    rw [take_append_of_le_length hle]
  units := h.units

/-- What `tcp_read_headers` does to a good connection: it scans one, or gets no bytes. -/
inductive GoodHeaders (cfg : TcpCfg) (c : TcpConn) : TcpConn × Int → Prop
  | scanned (c₀ : TcpConn) (n : Int) (hc₀ : GoodConn c₀) (hu : c₀.units = c.units)
      (hend : ScanEnd (headersLoop cfg c₀.req)) :
      GoodHeaders cfg c ({ c₀ with req := headersLoop cfg c₀.req }, n)
  | failed (e : TcpReqErrors) : GoodHeaders cfg c ({ c with req := { c.req with error := e } }, -1)
  | nothing (eof : Bool) : GoodHeaders cfg c ({ c with eof := eof }, 0)

theorem GoodConn.scanEnd (h : GoodConn c) (hfit : scanFits cfg c.req = true) : ScanEnd (headersLoop cfg c.req) :=
  headersLoop_good ⟨h.inv, h.scan⟩ hfit

theorem tcpReadHeaders_good {ev} (h : GoodConn c) (hfit : roundFits cfg ev c = true) :
    GoodHeaders cfg c (tcpReadHeaders cfg ev c) := by
  unfold roundFits reqToScan at hfit
  unfold tcpReadHeaders
  split_ifs at hfit ⊢ with hp
  · exact .scanned c 0 h rfl (h.scanEnd hfit)
  · have hout := tcpRead_out ev c
    generalize tcpRead ev c = res at hout hfit
    cases hout with
    | got y eof hy hlen =>
      have hpos := length_pos_of_ne_nil hy
      have hgood : GoodConn { c.append y with eof := eof } :=
        have ha := h.append hlen
        ⟨⟨ha.error, ha.complete, ha.nonneg, ha.inv, ha.fits⟩, ha.scan, ha.units⟩
      simp only
      rw [if_neg (by omega)]
      exact .scanned _ _ hgood rfl (hgood.scanEnd hfit)
    | failed e => exact .failed e
    | nothing eof => exact .nothing eof

theorem GoodHeaders.goodReq (h : GoodHeaders cfg c res) (hc : GoodConn c) : GoodReq res.1.req := by
  cases h with
  | scanned c0 n hc0 hu hend => exact hend.good
  | failed e => exact hc.goodReq e
  | nothing eof => exact hc.goodReq c.req.error

/-- A round adds at most the complete unit of its request. -/
theorem tcpReqResult_units {n} : (roundConn (tcpReqResult upper c n)).units = c.units ∨
    c.req.complete = true ∧ (roundConn (tcpReqResult upper c n)).units = c.units ++
      [⟨unitKind c.req.state, c.req.unitBytes⟩] := by
  unfold tcpReqResult handUp
  simp only
  split_ifs <;> simp_all [roundConn]

theorem GoodHeaders.goodUnits (h : GoodHeaders cfg c res) (hc : GoodConn c) (upper) :
    GoodUnits (roundConn (tcpReqResult upper res.1 res.2)).units := by
  have hu : res.1.units = c.units := by
    cases h with
    | scanned c0 n hc0 hu hend => exact hu
    | failed e | nothing eof => rfl
  have hold := hu ▸ hc.units
  rcases tcpReqResult_units with heq | ⟨hcomp, heq⟩
  · rw [heq]
    exact hold
  · rw [heq]
    intro u hm hk
    rcases mem_append.1 hm with hm | hm
    · exact hold u hm hk
    · rw [mem_singleton.1 hm] at hk ⊢
      obtain ⟨n, -, hframed⟩ := (h.goodReq hc).framed hcomp hk
      exact ⟨n, hframed⟩

theorem goodScan_nextReq {r} : GoodScan (nextReq r) (nextReq r).parsed.toNat := ⟨le_refl 0, Int.le_refl 0, rfl, rfl⟩

/-- A connection that goes on after a round is good again. -/
theorem GoodHeaders.goodConn {c'} (h : GoodHeaders cfg c res) (hc : GoodConn c)
    (hr : tcpReqResult upper res.1 res.2 = .inl c' ∨
      tcpReqResult upper res.1 res.2 = .inr (.release, c')) : GoodConn c' := by
  have hunits : GoodUnits c'.units := by
    have := h.goodUnits hc upper
    rcases hr with hr | hr <;> rw [hr] at this <;> exact this
  cases h with
  | scanned c0 n hc0 hu hend =>
    rcases hr with hr | hr
    · have hlive := (hc0.toLive.next cfg hr).1
      obtain ⟨-, -, -, hup⟩ := tcpReqResult_inl hr
      obtain ⟨-, -, -, rfl⟩ := handUp_inl hup
      exact ⟨hlive, goodScan_nextReq, hunits⟩
    · have hlive := (hc0.toLive.release cfg hr).1.toLive
      obtain ⟨-, he, ⟨hcomp, rfl⟩ | ⟨-, hup⟩⟩ := tcpReqResult_release hr
      · refine ⟨hlive, hend.wait ?_, hunits⟩
        rintro (hf | hf)
        · rw [hcomp] at hf
          cases hf
        · exact hf he
      · obtain ⟨-, rfl⟩ := handUp_release hup
        exact ⟨hlive, goodScan_nextReq, hunits⟩
  | failed e =>
    rcases hr with hr | hr
    · exact absurd rfl (tcpReqResult_inl hr).1
    · exact absurd rfl (tcpReqResult_release hr).1
  | nothing eof =>
    rcases hr with hr | hr
    · have := (tcpReqResult_inl hr).2.2.1
      exact absurd this (by simp [hc.complete])
    · obtain ⟨-, he, ⟨-, rfl⟩ | ⟨hcomp, -⟩⟩ := tcpReqResult_release hr
      · exact ⟨⟨hc.error, hc.complete, hc.nonneg, hc.inv, hc.fits⟩, hc.scan, hc.units⟩
      · exact absurd hcomp (by simp [hc.complete])

theorem tcpReadReqRound_eq {ev} (he : c.req.error = .ok) :
    tcpReadReqRound cfg upper ev c = tcpReqResult upper (tcpReadHeaders cfg ev c).1 (tcpReadHeaders cfg ev c).2 := by
  rw [tcpReadReqRound, if_pos he]

/-- Every connection of a run in which the accepted numbers fit is good. -/
theorem FittingRun.good (h : FittingRun cfg upper c) : GoodConn c := by
  induction h with
  | init bSize =>
    exact ⟨(live_initTcpConn).toLive, ⟨le_refl 0, Int.le_refl 0, rfl, rfl⟩,
      fun u hm => absurd hm (by simp [initTcpConn])⟩
  | again ev _ hfit hr ih =>
    rw [tcpReadReqRound_eq ih.error] at hr
    exact (tcpReadHeaders_good ih hfit).goodConn ih (.inl hr)
  | kept ev _ hfit hr ih =>
    rw [tcpReadReqRound_eq ih.error] at hr
    exact (tcpReadHeaders_good ih hfit).goodConn ih (.inr hr)

/-- While the accepted Content-Length values fit an `int`, each call of `tcp_read_headers`
leaves the offsets in order and nothing negative to read, and each message handed up is framed
as its header says. -/
theorem framing_sound_of_fits {cfg : TcpCfg} {upper : List TcpUnit → Int} {c : TcpConn}
    (hrun : FittingRun cfg upper c) (ev : ReadEvent) (hfit : roundFits cfg ev c = true) :
    GoodReq (tcpReadHeaders cfg ev c).1.req ∧
      GoodUnits (roundConn (tcpReadReqRound cfg upper ev c)).units := by
  have hgood := hrun.good
  have hheaders := tcpReadHeaders_good hgood hfit
  refine ⟨hheaders.goodReq hgood, ?_⟩
  rw [tcpReadReqRound_eq hgood.error]
  exact hheaders.goodUnits hgood upper

/-- A message that says and has a body of three bytes. -/
theorem framing_sound_three_bytes :
    let ev := .data ("l:3\n\nabc".toList.map Char.toUInt8) false
    roundFits ⟨true, true⟩ ev (initTcpConn 64) = true ∧
      GoodReq (tcpReadHeaders ⟨true, true⟩ ev (initTcpConn 64)).1.req ∧
      GoodUnits (roundConn (tcpReadReqRound ⟨true, true⟩ (fun _ => 0) ev (initTcpConn 64))).units := by
  intro ev
  have hfit : roundFits ⟨true, true⟩ ev (initTcpConn 64) = true := by decide +kernel
  exact ⟨hfit, framing_sound_of_fits (.init 64) ev hfit⟩

/-- Numbers of more than 32 bits wrap. The first takes the scanner back, to in front of the
buffer; the second gives a message with a body of five bytes, and not 4294967301. -/
theorem wrapped_length_used :
    let read (text : String) := (tcpReadHeaders ⟨true, true⟩
      (.data (text.toList.map Char.toUInt8) false) (initTcpConn 64)).1.req
    (read "l:4294967200\n\nX").complete = true ∧ (read "l:4294967200\n\nX").parsed = -82 ∧
      (read "l:4294967295\n\n").bytesToGo = -1 ∧
      (read "l:4294967301\n\nhello").complete = true ∧
      (read "l:4294967301\n\nhello").error = .ok ∧
      (read "l:4294967301\n\nhello").unitBytes = "l:4294967301\n\nhello".toList.map Char.toUInt8 ∧
      lineClen ("l:4294967301".toList.map Char.toUInt8) = some 4294967301 := by
  decide +kernel

end SipRouter.Tcp
