import SipRouter.Tcp.Req

/-!
# The scanner of `tcp_read_headers`

What one round of the scanner can do (`headerChar_next`, `headersRound_next`,
`headersRound_skip`), that the loop ends, and how a round on the bytes at hand
relates to the same round with more bytes in the buffer (`headersRound_append`).
-/

namespace SipRouter.Tcp

open Lib List

variable {ch : UInt8}

/-! ## States -/

/-- The states outside STUN messages and pings. -/
def TcpReqStates.plain : TcpReqStates → Bool
  | .hStunMsg | .hStunReadBody | .hStunFp | .hStunEnd | .hPingCrlf => false
  | _ => true

/-- The states that may hand a character on unread. -/
def TcpReqStates.crFound : TcpReqStates → Bool
  | .hSkipEmptyCrFound | .hSkipEmptyCrlfFound | .hSkipEmptyCrlfcrFound => true
  | _ => false

@[simp] theorem crlfDefaultSkipCase_plain : (crlfDefaultSkipCase ch).plain = true := by
  unfold crlfDefaultSkipCase
  split_ifs <;> rfl

variable {s : TcpReqStates} {r r' : TcpReq} {p p' n : Nat} {cfg : TcpCfg} {ch : UInt8} {q : Int} {y : List UInt8}

theorem changeState_plain {u l} (hs : s.plain = true) : (changeState u l s ch).plain = true := by
  unfold changeState
  split_ifs
  · exact hs
  · simp

theorem contentLenBegCase_plain {b} (hs : s.plain = true) : ((contentLenBegCase b ch).getD s).plain = true := by
  unfold contentLenBegCase
  split_ifs
  all_goals first | exact hs | rfl

/-! ## What a round can do -/

/-- Where the scanner may stand when a round starts: in a STUN message before the end of the
part it waits for, and never in a state that ends a unit. -/
def Standing (r : TcpReq) (p : Nat) : Prop :=
  match r.state with
  | .hStunMsg => r.body = r.start ∧ r.start < p ∧ p < r.start + stunHdrLen
  | .hStunReadBody | .hStunFp => r.body ≤ p ∧ p < r.body + stunBodyLen r
  | .hStunEnd | .hPingCrlf => False
  | _ => True

theorem standing_of_plain (h : r.state.plain = true) : Standing r p := by
  unfold Standing
  cases hs : r.state <;> simp_all [TcpReqStates.plain]

/-- What stays when a round at offset `p` goes on. -/
structure Kept (r r' : TcpReq) (p : Nat) : Prop where
  buf : r'.buf = r.buf
  bSize : r'.bSize = r.bSize
  complete : r'.complete = r.complete
  start : r'.start = r.start ∨ r'.start = p

theorem Kept.refl (r) (p : Nat) : Kept r r p := ⟨rfl, rfl, rfl, .inl rfl⟩

/-- A round on one character goes on behind it, or in front of it in the state that always
takes it. -/
structure CharNext (r r' : TcpReq) (p p' : Nat) : Prop where
  kept : Kept r r' p
  moved : p' = p + 1 ∨ (p' = p ∧ r'.state = .hSkipEmpty ∧ r.state.crFound = true)
  standing : r'.state.plain = true ∨
    (r'.state = .hStunMsg ∧ r'.body = p ∧ r'.start = p ∧ p' = p + 1)

theorem skipEmptyChar_next (hs : r.state = .hSkipEmpty)
    (h : skipEmptyChar cfg r p ch = .next r' p') : CharNext r r' p p' := by
  unfold skipEmptyChar at h
  split_ifs at h <;> cases h <;>
    exact ⟨⟨rfl, rfl, rfl, by simp [*]⟩, .inl rfl, by simp [hs, TcpReqStates.plain]⟩

theorem endOfHeaders_next (h : endOfHeaders r p = .next r' p') : CharNext r r' p p' := by
  unfold endOfHeaders at h
  simp only at h
  split_ifs at h <;> cases h <;> exact ⟨⟨rfl, rfl, rfl, .inl rfl⟩, .inl rfl, .inl rfl⟩

theorem charNext_goTo (hs : s.plain = true) : CharNext r { r with state := s } p (p + 1) :=
  ⟨⟨rfl, rfl, rfl, .inl rfl⟩, .inl rfl, .inl hs⟩

theorem headerChar_next (h : headerChar cfg r p ch = .next r' p') : CharNext r r' p p' := by
  cases hs : r.state <;> simp only [headerChar, hs] at h
  case hLf =>
    split_ifs at h
    · cases h; exact charNext_goTo rfl
    · exact endOfHeaders_next h
    · cases h; exact charNext_goTo (contentLenBegCase_plain rfl)
  case hLfcr =>
    split_ifs at h
    · exact endOfHeaders_next h
    · cases h; exact charNext_goTo rfl
  case hStartws => cases h; exact charNext_goTo (contentLenBegCase_plain (by simp))
  case hSkipEmpty => exact skipEmptyChar_next hs h
  case hSkipEmptyCrFound | hSkipEmptyCrlfFound =>
    split_ifs at h
    · cases h; exact charNext_goTo rfl
    · cases h; exact ⟨⟨rfl, rfl, rfl, .inl rfl⟩, .inr ⟨rfl, rfl, by simp [hs, TcpReqStates.crFound]⟩, .inl rfl⟩
  case hSkipEmptyCrlfcrFound =>
    split_ifs at h
    cases h
    exact ⟨⟨rfl, rfl, rfl, .inl rfl⟩, .inr ⟨rfl, rfl, by simp [hs, TcpReqStates.crFound]⟩, .inl rfl⟩
  case hLColon =>
    split_ifs at h <;> cases h
    · exact ⟨Kept.refl r p, .inl rfl, .inl (by rw [hs]; rfl)⟩
    · exact charNext_goTo rfl
    · exact charNext_goTo (by simp)
  case hContLenBody =>
    split_ifs at h <;> cases h
    · exact ⟨Kept.refl r p, .inl rfl, .inl (by rw [hs]; rfl)⟩
    · exact ⟨⟨rfl, rfl, rfl, .inl rfl⟩, .inl rfl, .inl rfl⟩
    · exact charNext_goTo (by simp)
  case hContLenBodyParse =>
    split_ifs at h <;> cases h
    · exact ⟨⟨rfl, rfl, rfl, .inl rfl⟩, .inl rfl, .inl rfl⟩
    · exact ⟨⟨rfl, rfl, rfl, .inl rfl⟩, .inl rfl, .inl rfl⟩
    · exact ⟨⟨rfl, rfl, rfl, .inl rfl⟩, .inl rfl, .inl rfl⟩
    · exact charNext_goTo rfl
  case hSkip | hBody | hStunMsg | hStunReadBody | hStunFp | hStunEnd | hPingCrlf => cases h
  all_goals
    cases h
    exact charNext_goTo (changeState_plain rfl)

/-- What a round that ends the scan leaves: a complete unit, ending in the buffer. -/
structure Ends (r r' : TcpReq) (q : Int) : Prop where
  buf : r'.buf = r.buf
  bSize : r'.bSize = r.bSize
  complete : r'.complete = true
  start : r'.start = r.start
  le_pos : q ≤ r.pos

theorem endOfHeaders_skip (hp : p < r.pos) (h : endOfHeaders r p = .skip r' q) : Ends r r' q := by
  unfold endOfHeaders at h
  simp only at h
  split_ifs at h
  cases h
  exact ⟨rfl, rfl, rfl, rfl, by omega⟩

theorem skipEmptyChar_ne_skip : skipEmptyChar cfg r p ch ≠ .skip r' q := by
  unfold skipEmptyChar
  split_ifs <;> simp

/-- The states whose round is a `headerChar`. -/
def TcpReqStates.looksAtChar : TcpReqStates → Bool
  | .hBody | .hSkip | .hStunMsg | .hStunReadBody | .hStunFp | .hStunEnd | .hPingCrlf => false
  | _ => true

theorem headerChar_skip (hp : p < r.pos) (hl : r.state.looksAtChar = true)
    (h : headerChar cfg r p ch = .skip r' q) : Ends r r' q := by
  cases hs : r.state <;> simp only [headerChar, hs] at h
  case hLf | hLfcr =>
    split_ifs at h
    exact endOfHeaders_skip hp h
  case hSkipEmpty => exact absurd h skipEmptyChar_ne_skip
  case hSkipEmptyCrFound | hSkipEmptyCrlfFound | hLColon | hContLenBody | hContLenBodyParse =>
    split_ifs at h
  case hSkipEmptyCrlfcrFound =>
    split_ifs at h
    cases h
    exact ⟨rfl, rfl, rfl, rfl, by omega⟩
  case hSkip | hBody | hStunMsg | hStunReadBody | hStunFp | hStunEnd | hPingCrlf =>
    rw [hs] at hl
    cases hl
  all_goals cases h

/-- Where the scanner goes on after a round. -/
structure RoundNext (r r' : TcpReq) (p p' : Nat) : Prop where
  kept : Kept r r' p
  standing : Standing r' p'
  le_pos : p' ≤ r.pos
  moved : p < p' ∨ (p' = p ∧ r.state.crFound = true ∧ r'.state = .hSkipEmpty)

theorem CharNext.roundNext (h : CharNext r r' p p') (hp : p < r.pos) : RoundNext r r' p p' where
  kept := h.kept
  standing := by
    rcases h.standing with hs | ⟨hs, hb, hst, hp'⟩
    · exact standing_of_plain hs
    · unfold Standing stunHdrLen
      rw [hs]
      exact ⟨hb.trans hst.symm, by omega, by omega⟩
  le_pos := by
    rcases h.moved with h | ⟨h, -⟩ <;> omega
  moved := by
    rcases h.moved with h | ⟨h, h', h''⟩
    · left; omega
    · exact .inr ⟨h, h'', h'⟩

theorem headersRound_eq_headerChar (h : r.state.looksAtChar = true) :
    headersRound cfg r p = headerChar cfg r p (r.byteAt p) := by
  unfold headersRound
  cases hs : r.state <;> first | rfl | (rw [hs] at h; cases h)

theorem stunLen_lt (r) : stunLen r < 65536 := by
  have h1 := (r.byteAt (r.start + 2)).toNat_lt
  have h2 := (r.byteAt (r.start + 3)).toNat_lt
  unfold stunLen
  omega

theorem stunBodyLen_natCast (h : r.contentLen = n) (hn : n < 65536) : stunBodyLen r = n := by
  unfold stunBodyLen
  rw [h]
  omega

/-- The start of a part of a STUN message that is waited for. -/
theorem standing_stunPart (hs : r.state = .hStunReadBody ∨ r.state = .hStunFp)
    (hc : r.contentLen = n) (h0 : 0 < n) (hn : n < 65536) : Standing r r.body := by
  have hlen := stunBodyLen_natCast hc hn
  rcases hs with hs | hs <;> simp only [Standing, hs] <;> omega

theorem stunMsg_next (hs : r.state = .hStunMsg) (hr : Standing r p) (hp : p < r.pos)
    (h : stunMsg r = .next r' p') : RoundNext r r' p p' := by
  obtain ⟨hb, hlo, hhi⟩ : r.body = r.start ∧ r.start < p ∧ p < r.start + stunHdrLen := by
    simpa only [Standing, hs] using hr
  unfold stunMsg isMsgComplete at h
  simp only at h
  have hlen := stunLen_lt r
  split_ifs at h with hfit hl hc
  · cases h
    exact ⟨⟨rfl, rfl, rfl, .inl rfl⟩, standing_stunPart (.inl rfl) rfl hl hlen, hfit, .inl (hb ▸ hhi)⟩
  · cases h
    exact ⟨⟨rfl, rfl, rfl, .inl rfl⟩, standing_stunPart (.inr rfl) rfl (by decide) (by decide), hfit, .inl (hb ▸ hhi)⟩
  · cases h
    refine ⟨.refl r p, ?_, le_refl _, .inl hp⟩
    simp only [Standing, hs]
    omega

theorem stunReadBody_next (hs : r.state = .hStunReadBody) (hr : Standing r p) (hp : p < r.pos)
    (h : stunReadBody r = .next r' p') :
    RoundNext r r' p p' := by
  obtain ⟨hlo, hhi⟩ : r.body ≤ p ∧ p < r.body + stunBodyLen r := by
    simpa only [Standing, hs] using hr
  unfold stunReadBody isMsgComplete at h
  simp only at h
  split_ifs at h with hfit hc
  · cases h
    exact ⟨⟨rfl, rfl, rfl, .inl rfl⟩, standing_stunPart (.inr rfl) rfl (by decide) (by decide), hfit, .inl hhi⟩
  · cases h
    refine ⟨.refl r p, ?_, le_refl _, .inl hp⟩
    simp only [Standing, hs]
    omega

theorem stunFp_next (hs : r.state = .hStunFp) (hr : Standing r p) (hp : p < r.pos)
    (h : stunFp r = .next r' p') : RoundNext r r' p p' := by
  obtain ⟨hlo, hhi⟩ : r.body ≤ p ∧ p < r.body + stunBodyLen r := by
    simpa only [Standing, hs] using hr
  unfold stunFp at h
  split_ifs at h with hfit
  cases h
  refine ⟨.refl r p, ?_, le_refl _, .inl hp⟩
  simp only [Standing, hs]
  omega

theorem skipLine_next (hs : r.state = .hSkip) (hp : p < r.pos) (h : skipLine r p = .next r' p') :
    RoundNext r r' p p' := by
  unfold skipLine at h
  simp only [length_drop] at h
  split_ifs at h with hi
  · cases h
    refine ⟨⟨rfl, rfl, rfl, .inl rfl⟩, standing_of_plain rfl, ?_, .inl (by omega)⟩
    unfold TcpReq.pos
    omega
  · cases h
    exact ⟨Kept.refl r p, standing_of_plain (by rw [hs]; rfl), le_refl _, .inl hp⟩

theorem readBody_next (hs : r.state = .hBody) (hp : p < r.pos) (h : readBody r p = .next r' p') :
    RoundNext r r' p p' := by
  unfold readBody at h
  simp only at h
  split_ifs at h with hb
  cases h
  refine ⟨⟨rfl, rfl, rfl, .inl rfl⟩, standing_of_plain (by rw [hs]; rfl), ?_, .inl ?_⟩ <;> omega

/-- A round that goes on has moved forward, or will at the next. -/
theorem headersRound_next (hr : Standing r p) (hp : p < r.pos)
    (h : headersRound cfg r p = .next r' p') : RoundNext r r' p p' := by
  by_cases hl : r.state.looksAtChar = true
  · rw [headersRound_eq_headerChar hl] at h
    exact (headerChar_next h).roundNext hp
  · cases hs : r.state <;> simp only [hs, TcpReqStates.looksAtChar, not_true_eq_false] at hl <;>
      simp only [headersRound, hs] at h
    case hBody => exact readBody_next hs hp h
    case hSkip => exact skipLine_next hs hp h
    case hStunMsg => exact stunMsg_next hs hr hp h
    case hStunReadBody => exact stunReadBody_next hs hr hp h
    case hStunFp => exact stunFp_next hs hr hp h
    case hStunEnd | hPingCrlf => simp only [Standing, hs] at hr

theorem headersRound_skip (hr : Standing r p) (hp : p < r.pos)
    (h : headersRound cfg r p = .skip r' q) : Ends r r' q := by
  by_cases hl : r.state.looksAtChar = true
  · rw [headersRound_eq_headerChar hl] at h
    exact headerChar_skip hp hl h
  · cases hs : r.state <;> simp only [hs, TcpReqStates.looksAtChar, not_true_eq_false] at hl <;>
      simp only [headersRound, hs] at h
    case hBody =>
      unfold readBody at h
      simp only at h
      split_ifs at h
      cases h
      exact ⟨rfl, rfl, rfl, rfl, by omega⟩
    case hSkip =>
      unfold skipLine at h
      simp only at h
      split_ifs at h
    case hStunMsg =>
      unfold stunMsg isMsgComplete at h
      simp only at h
      split_ifs at h with hfit
      cases h
      exact ⟨rfl, rfl, rfl, rfl, Int.ofNat_le.2 hfit⟩
    case hStunReadBody =>
      unfold stunReadBody isMsgComplete at h
      simp only at h
      split_ifs at h with hfit
      cases h
      exact ⟨rfl, rfl, rfl, rfl, Int.ofNat_le.2 hfit⟩
    case hStunFp =>
      unfold stunFp at h
      split_ifs at h with hfit
      cases h
      exact ⟨rfl, rfl, rfl, rfl, Int.ofNat_le.2 hfit⟩
    case hStunEnd | hPingCrlf => simp only [Standing, hs] at hr

/-! ## The loop ends -/

/-- Where the loop of `tcp_read_headers` may stand. -/
def LoopInv (s : TcpReq × Nat) : Prop := Standing s.1 s.2 ∧ s.2 ≤ s.1.pos

/-- The rounds left: two for each byte, one more if the next character may be handed on. -/
def roundsLeft (s : TcpReq × Nat) : Nat := 2 * (s.1.pos - s.2) + (if s.1.state.crFound then 1 else 0)

theorem headersStep_inl {s t} (h : headersStep cfg s = .inl t) :
    s.2 < s.1.pos ∧ s.1.error = .ok ∧ headersRound cfg s.1 s.2 = .next t.1 t.2 := by
  unfold headersStep at h
  split_ifs at h with ht
  refine ⟨ht.1, ht.2, ?_⟩
  cases hr : headersRound cfg s.1 s.2 with
  | next r p => rw [hr] at h; cases h; rfl
  | skip r p => rw [hr] at h; cases h

theorem LoopInv.step {s t} (hs : LoopInv s) (h : headersStep cfg s = .inl t) :
    LoopInv t ∧ roundsLeft t < roundsLeft s := by
  obtain ⟨hp, -, hr⟩ := headersStep_inl h
  have hn := headersRound_next hs.1 hp hr
  have hpos : t.1.pos = s.1.pos := by rw [TcpReq.pos, hn.kept.buf]; rfl
  have hle := hn.le_pos
  refine ⟨⟨hn.standing, by omega⟩, ?_⟩
  unfold roundsLeft
  rw [hpos]
  rcases hn.moved with hlt | ⟨he, hcr, hse⟩
  · split_ifs <;> omega
  · rw [hse, hcr, he]
    simp [TcpReqStates.crFound]

/-- The rounds `headersLoop` allows are enough. -/
theorem headersLoop_eq {cfg} (hr : LoopInv (r, r.parsed.toNat)) :
    loop (headersStep cfg) (2 * (r.pos + 1)) (r, r.parsed.toNat) = some (headersLoop cfg r) := by
  obtain ⟨r', h⟩ := loop_isSome (f := headersStep cfg) LoopInv roundsLeft
    (fun hs h => (hs.step h).1) (fun hs h => (hs.step h).2) (n := 2 * (r.pos + 1)) hr
    (by unfold roundsLeft; split_ifs <;> simp only <;> omega)
  unfold headersLoop
  rw [h]
  rfl

/-- The scanning part of `tcp_read_headers` is its loop, run to the end. -/
theorem headersLoop_loops (cfg) (hr : LoopInv (r, r.parsed.toNat)) :
    Loops (headersStep cfg) (r, r.parsed.toNat) (headersLoop cfg r) :=
  Loops.of_loop (headersLoop_eq hr)

/-- The scan has found a unit or an error. -/
def Finished (r : TcpReq) : Prop := r.complete = true ∨ r.error ≠ .ok

/-- What a scan leaves: it ends in the buffer, and one that found nothing waits at its end. -/
structure Scanned (r r' : TcpReq) : Prop where
  buf : r'.buf = r.buf
  bSize : r'.bSize = r.bSize
  le_pos : r'.parsed ≤ r.pos
  wait : ¬ Finished r' → r'.parsed = r.pos ∧ Standing r' r.pos

theorem headersLoop_scanned {s} (hl : Loops (headersStep cfg) s r) (hs : LoopInv s) : Scanned s.1 r := by
  induction hl with
  | @done s r hf =>
    by_cases ht : s.2 < s.1.pos ∧ s.1.error = .ok
    · rw [headersStep, if_pos ht] at hf
      cases hr : headersRound cfg s.1 s.2 with
      | next r' p' => rw [hr] at hf; cases hf
      | skip r' q =>
        rw [hr] at hf
        cases hf
        have hends := headersRound_skip hs.1 ht.1 hr
        exact ⟨hends.buf, hends.bSize, hends.le_pos, fun h => absurd (.inl hends.complete) h⟩
    · rw [headersStep, if_neg ht] at hf
      cases hf
      refine ⟨rfl, rfl, Int.ofNat_le.2 hs.2, fun h => ?_⟩
      have he : s.1.error = .ok := by
        by_contra he
        exact h (.inr he)
      have hp : s.2 = s.1.pos := Nat.le_antisymm hs.2 (Nat.le_of_not_lt fun h => ht ⟨h, he⟩)
      have hst := hs.1
      rw [hp] at hst
      exact ⟨by rw [hp], hst⟩
  | @next s t r hf _ ih =>
    obtain ⟨hp, -, hr⟩ := headersStep_inl hf
    have hn := headersRound_next hs.1 hp hr
    have h := ih (hs.step hf).1
    have hpos : t.1.pos = s.1.pos := by rw [TcpReq.pos, hn.kept.buf]; rfl
    exact ⟨h.buf.trans hn.kept.buf, h.bSize.trans hn.kept.bSize, hpos ▸ h.le_pos, hpos ▸ h.wait⟩

/-! ## More bytes in the buffer -/

def TcpReq.append (r : TcpReq) (y : List UInt8) : TcpReq := { r with buf := r.buf ++ y }

def Scan.append (s : Scan) (y : List UInt8) : Scan :=
  match s with
  | .next r p => .next (r.append y) p
  | .skip r p => .skip (r.append y) p

@[simp] theorem append_pos (r : TcpReq) (y) : (r.append y).pos = r.pos + y.length := length_append

theorem append_byteAt (hp : p < r.pos) : (r.append y).byteAt p = r.byteAt p := getD_append _ _ _ _ hp

/-- A character is treated the same whatever comes after it. -/
theorem headerChar_append {p} :
    headerChar cfg (r.append y) p ch = (headerChar cfg r p ch).append y := by
  have heoh : endOfHeaders (r.append y) p = (endOfHeaders r p).append y := by
    unfold endOfHeaders TcpReq.append
    simp only
    split_ifs <;> rfl
  have hse : skipEmptyChar cfg (r.append y) p ch = (skipEmptyChar cfg r p ch).append y := by
    unfold skipEmptyChar TcpReq.append
    split_ifs <;> rfl
  have hst : (r.append y).state = r.state := rfl
  have hcl : (r.append y).hasClen = r.hasClen := rfl
  unfold headerChar
  rw [hst, hcl, heoh, hse]
  cases r.state <;> simp only
  all_goals first | rfl | (split_ifs <;> rfl)

/-- A round with more bytes in the buffer does the same, or the round without them ran out
of bytes and its continuation makes up for the difference. -/
def Resumes (cfg : TcpCfg) (r : TcpReq) (p : Nat) (y : List UInt8) : Prop :=
  headersRound cfg (r.append y) p = (headersRound cfg r p).append y ∨
  ∃ r', headersRound cfg r p = .next r' r.pos ∧ r'.error = r.error ∧
    headersRound cfg (r'.append y) r.pos = headersRound cfg (r.append y) p

theorem readBody_append (hp : p < r.pos) : readBody (r.append y) p = (readBody r p).append y ∨
    ∃ r', readBody r p = .next r' r.pos ∧ r'.error = r.error ∧ r'.state = r.state ∧
      readBody (r'.append y) r.pos = readBody (r.append y) p := by
  by_cases hfit : r.bytesToGo ≤ r.pos - p
  · left
    have h1 : min ((r.pos : Int) - p) r.bytesToGo = r.bytesToGo := by omega
    have h2 : min (((r.append y).pos : Int) - p) r.bytesToGo = r.bytesToGo := by
      rw [append_pos]
      omega
    have hb : (r.append y).bytesToGo = r.bytesToGo := rfl
    unfold readBody
    simp only [hb, h1, h2, Int.sub_self, if_true]
    rfl
  · right
    refine ⟨{ r with bytesToGo := r.bytesToGo - (r.pos - p) }, ?_, rfl, rfl, ?_⟩
    · unfold readBody
      have h1 : min ((r.pos : Int) - p) r.bytesToGo = r.pos - p := by omega
      simp only [h1]
      rw [if_neg (by omega)]
      congr 1
      omega
    · have hm : min (((r.append y).pos : Int) - r.pos) (r.bytesToGo - (r.pos - p)) =
          min (((r.append y).pos : Int) - p) r.bytesToGo - (r.pos - p) := by omega
      have hpos : (TcpReq.append { r with bytesToGo := r.bytesToGo - (r.pos - p) } y).pos = (r.append y).pos := rfl
      have hb : (r.append y).bytesToGo = r.bytesToGo := rfl
      have hb' : (TcpReq.append { r with bytesToGo := r.bytesToGo - (r.pos - p) } y).bytesToGo =
          r.bytesToGo - (r.pos - p) :=
        rfl
      unfold readBody
      simp only [hpos, hb, hb', hm]
      have hgo : ∀ m : Int, r.bytesToGo - (r.pos - p) - (m - (r.pos - p)) = r.bytesToGo - m := fun m => by omega
      have hat : ∀ m : Int, (r.pos : Int) + (m - (r.pos - p)) = p + m := fun m => by omega
      simp only [hgo, hat]
      rfl

/-- Looking for the next line feed in a longer buffer. -/
theorem skipLine_append (hp : p < r.pos) : skipLine (r.append y) p = (skipLine r p).append y ∨
    (skipLine r p = .next r r.pos ∧ skipLine (r.append y) r.pos = skipLine (r.append y) p) := by
  have hdrop : (r.append y).buf.drop p = r.buf.drop p ++ y := drop_append_of_le_length (le_of_lt hp)
  have hdrop' : (r.append y).buf.drop r.pos = y := drop_left
  have hlen : (r.buf.drop p).length = r.pos - p := length_drop
  by_cases hi : (r.buf.drop p).findIdx (· = lf) < (r.buf.drop p).length
  · left
    unfold skipLine
    simp only [hdrop, findIdx_append, if_pos hi, length_append]
    rw [if_pos (by omega)]
    rfl
  · right
    refine ⟨by unfold skipLine; simp only [if_neg hi], ?_⟩
    unfold skipLine
    simp only [hdrop, hdrop', findIdx_append, if_neg hi, length_append]
    by_cases hy : y.findIdx (· = lf) < y.length
    · rw [if_pos hy, if_pos (by omega)]
      congr 1
      omega
    · rw [if_neg hy, if_neg (by omega)]

theorem stunLen_append (h : r.start + stunHdrLen ≤ r.pos) :
    stunLen (r.append y) = stunLen r ∧ stunCookie (r.append y) = stunCookie r := by
  have hat : ∀ i < 20, (r.append y).byteAt (r.start + i) = r.byteAt (r.start + i) := by
    intro i hi
    exact append_byteAt (by unfold stunHdrLen at h; omega)
  have hst : (r.append y).start = r.start := rfl
  unfold stunLen stunCookie
  simp only [hst, hat _ (by decide : 2 < 20), hat _ (by decide : 3 < 20),
    hat _ (by decide : 4 < 20), hat _ (by decide : 5 < 20), hat _ (by decide : 6 < 20),
    hat _ (by decide : 7 < 20), and_self]

/-- A state that waits until there are `n` bytes. -/
theorem wait_append {n} {s s' : Scan} (h : n ≤ r.pos → s' = s.append y) :
    (if n ≤ (r.append y).pos then s' else .next (r.append y) (r.append y).pos) =
    (if n ≤ r.pos then s else .next r r.pos).append y ∨
      (if n ≤ r.pos then s else .next r r.pos) = .next r r.pos := by
  by_cases hn : n ≤ r.pos
  · left
    rw [if_pos hn, if_pos (by rw [append_pos]; omega), h hn]
  · exact .inr (if_neg hn)

theorem stunMsg_append (hb : r.body = r.start) :
    stunMsg (r.append y) = (stunMsg r).append y ∨ stunMsg r = .next r r.pos := by
  refine wait_append fun hfit => ?_
  obtain ⟨hl, hc⟩ := stunLen_append (hb ▸ hfit)
  rw [hl, hc]
  unfold isMsgComplete TcpReq.append
  simp only
  split_ifs <;> rfl

theorem stunReadBody_append :
    stunReadBody (r.append y) = (stunReadBody r).append y ∨ stunReadBody r = .next r r.pos := by
  refine wait_append fun _ => ?_
  unfold isMsgComplete TcpReq.append stunBodyLen
  simp only
  split_ifs <;> rfl

theorem stunFp_append : stunFp (r.append y) = (stunFp r).append y ∨ stunFp r = .next r r.pos :=
  wait_append fun _ => rfl

theorem headersRound_append {cfg} (hr : Standing r p) (hp : p < r.pos) {y} : Resumes cfg r p y := by
  by_cases hl : r.state.looksAtChar = true
  · left
    rw [headersRound_eq_headerChar hl, headersRound_eq_headerChar (r := r.append y) hl,
      append_byteAt hp, headerChar_append]
  · unfold Resumes
    have hst : (r.append y).state = r.state := rfl
    cases hs : r.state <;> simp only [hs, TcpReqStates.looksAtChar, not_true_eq_false] at hl <;>
      simp only [headersRound, hst, hs]
    case hBody =>
      refine (readBody_append hp).imp_right fun ⟨r', h, he, hs', hr'⟩ => ⟨r', h, he, ?_⟩
      have hst' : (r'.append y).state = .hBody := hs'.trans hs
      rw [hst']
      exact hr'
    case hSkip =>
      exact (skipLine_append hp).imp_right fun ⟨h, hr'⟩ => ⟨r, h, rfl, by rw [hst, hs]; exact hr'⟩
    case hStunMsg =>
      have hb : r.body = r.start := by
        simp only [Standing, hs] at hr
        exact hr.1
      exact (stunMsg_append hb).imp_right fun h => ⟨r, h, rfl, by rw [hst, hs]⟩
    case hStunReadBody =>
      exact (stunReadBody_append).imp_right fun h => ⟨r, h, rfl, by rw [hst, hs]⟩
    case hStunFp => exact (stunFp_append).imp_right fun h => ⟨r, h, rfl, by rw [hst, hs]⟩
    case hStunEnd | hPingCrlf => simp only [Standing, hs] at hr

end SipRouter.Tcp
