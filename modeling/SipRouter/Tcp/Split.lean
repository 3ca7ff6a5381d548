import SipRouter.Tcp.Rounds

/-!
# Framing does not depend on how the stream is cut

The units handed up and the final state of a connection depend on the bytes
received, not on the reads they came in. A scan that ran out of bytes goes on,
with more bytes in the buffer, as the scan of all the bytes would have gone
(`headersLoop_append`), and the rounds of `tcp_read_req` inherit this
(`scanRound_append`).
-/

namespace SipRouter.Tcp

open Lib List

/-! ## The scanning loop -/

def TcpReq.setParsed (r : TcpReq) (a : Int) : TcpReq := { r with parsed := a }

def Scan.setParsed (s : Scan) (a : Int) : Scan :=
  match s with
  | .next r p => .next (r.setParsed a) p
  | .skip r p => .skip (r.setParsed a) p

section

variable {a : Int}

variable (cfg : TcpCfg) (r : TcpReq) (p : Nat)

include cfg r p

theorem headerChar_setParsed {ch} : headerChar cfg (r.setParsed a) p ch = (headerChar cfg r p ch).setParsed a := by
  have heoh : endOfHeaders (r.setParsed a) p = (endOfHeaders r p).setParsed a := by
    unfold endOfHeaders TcpReq.setParsed
    simp only
    split_ifs <;> rfl
  have hse : skipEmptyChar cfg (r.setParsed a) p ch = (skipEmptyChar cfg r p ch).setParsed a := by
    unfold skipEmptyChar TcpReq.setParsed
    split_ifs <;> rfl
  have hst : (r.setParsed a).state = r.state := rfl
  have hcl : (r.setParsed a).hasClen = r.hasClen := rfl
  unfold headerChar
  rw [hst, hcl, heoh, hse]
  cases r.state <;> simp only
  all_goals first | rfl | (split_ifs <;> rfl)

/-- The scanner does not look at the old value of `parsed`. -/
theorem headersRound_setParsed : headersRound cfg (r.setParsed a) p = (headersRound cfg r p).setParsed a := by
  have hst : (r.setParsed a).state = r.state := rfl
  unfold headersRound
  cases hs : r.state <;> rw [hst, hs] <;> simp only
  case hBody => unfold readBody TcpReq.pos TcpReq.setParsed; simp only; split_ifs <;> rfl
  case hSkip => unfold skipLine TcpReq.setParsed; simp only; split_ifs <;> rfl
  case hStunMsg =>
    unfold stunMsg stunLen stunCookie TcpReq.byteAt TcpReq.pos isMsgComplete TcpReq.setParsed
    simp only
    split_ifs <;> rfl
  case hStunReadBody =>
    unfold stunReadBody stunBodyLen TcpReq.pos isMsgComplete TcpReq.setParsed
    simp only
    split_ifs <;> rfl
  case hStunFp => unfold stunFp stunBodyLen TcpReq.pos TcpReq.setParsed; simp only; split_ifs <;> rfl
  all_goals exact headerChar_setParsed cfg r p

theorem headersStep_setParsed :
    headersStep cfg (r.setParsed a, p) =
      match headersStep cfg (r, p) with
      | .inl s => .inl (s.1.setParsed a, s.2)
      | .inr r => .inr r := by
  unfold headersStep
  have hpos : (r.setParsed a).pos = r.pos := rfl
  have he : (r.setParsed a).error = r.error := rfl
  simp only [hpos, he, headersRound_setParsed]
  split_ifs
  · cases headersRound cfg r p <;> rfl
  · rfl

end

variable {r : TcpReq} {y bytes x : List UInt8} {c : TcpConn} {res res' : ConnCmd × TcpConn}
  {upper : List TcpUnit → Int} {cfg : TcpCfg} {s : TcpReq × Nat}

theorem loops_setParsed (h : Loops (headersStep cfg) s r) (a : Int) :
    Loops (headersStep cfg) (s.1.setParsed a, s.2) r := by
  induction h with
  | done hf => exact .done (by rw [headersStep_setParsed, hf])
  | next hf _ ih => exact .next (by rw [headersStep_setParsed, hf]) ih

/-- The loop test fails at the end of the bytes. -/
theorem headersStep_at_pos (cfg r) : headersStep cfg (r, r.pos) = .inr (r.setParsed r.pos) := by
  unfold headersStep
  rw [if_neg (by simp)]
  rfl

/-- What a scan tells about the scan of a longer buffer: what it has found is found there,
and where it waits, the longer scan comes by. -/
theorem headersLoop_append (hl : Loops (headersStep cfg) s r) (hs : LoopInv s) (hc : s.1.complete = false)
    (hy : y ≠ []) : (Finished r ∧ Loops (headersStep cfg) (s.1.append y, s.2) (r.append y)) ∨
    (¬ Finished r ∧ ∀ r', Loops (headersStep cfg) (r.append y, s.1.pos) r' →
      Loops (headersStep cfg) (s.1.append y, s.2) r') := by
  induction hl with
  | @done s r hf =>
    by_cases ht : s.2 < s.1.pos ∧ s.1.error = .ok
    · left
      rw [headersStep, if_pos ht] at hf
      cases hr : headersRound cfg s.1 s.2 with
      | next r' p' => rw [hr] at hf; cases hf
      | skip r' q =>
        rw [hr] at hf
        cases hf
        refine ⟨.inl (headersRound_skip hs.1 ht.1 hr).complete, .done ?_⟩
        rcases headersRound_append hs.1 ht.1 with hlong | ⟨r'', hshort, -⟩
        · rw [hr] at hlong
          rw [headersStep, if_pos ⟨lt_of_lt_of_le ht.1 (by simp), ht.2⟩, hlong]
          rfl
        · rw [hr] at hshort
          cases hshort
    · rw [headersStep, if_neg ht] at hf
      cases hf
      by_cases he : s.1.error = .ok
      · right
        have hp : s.2 = s.1.pos := Nat.le_antisymm hs.2 (Nat.le_of_not_lt fun h => ht ⟨h, he⟩)
        refine ⟨by simp [Finished, hc, he], fun r' h => ?_⟩
        have := loops_setParsed h s.1.parsed
        rw [hp]
        exact this
      · left
        refine ⟨.inr he, .done ?_⟩
        rw [headersStep, if_neg fun h => he h.2]
        rfl
  | @next s t r hf hl ih =>
    obtain ⟨hp, he, hr⟩ := headersStep_inl hf
    have hn := headersRound_next hs.1 hp hr
    have hpos : t.1.pos = s.1.pos := by rw [TcpReq.pos, hn.kept.buf]; rfl
    have hcomp := hn.kept.complete.trans hc
    have hlt : s.2 < (s.1.append y).pos := lt_of_lt_of_le hp (by simp)
    rcases headersRound_append hs.1 hp with hlong | ⟨r'', hshort, he', hlong⟩
    · -- the longer scan makes the same step
      have hstep : headersStep cfg (s.1.append y, s.2) = .inl (t.1.append y, t.2) := by
        rw [headersStep, if_pos ⟨hlt, he⟩, hlong, hr]
        rfl
      rcases ih (hs.step hf).1 hcomp with ⟨h1, h2⟩ | ⟨h1, h2⟩
      · exact .inl ⟨h1, .next hstep h2⟩
      · rw [hpos] at h2
        exact .inr ⟨h1, fun r' h => .next hstep (h2 r' h)⟩
    · -- the bytes ran out: the longer scan takes this step and the next one at once
      right
      obtain ⟨ht1, ht2⟩ : t.1 = r'' ∧ t.2 = s.1.pos := by
        rw [hr] at hshort
        exact Scan.next.inj hshort
      subst ht1
      have hend : r = t.1.setParsed s.1.pos := by
        refine hl.det (.done ?_)
        have := headersStep_at_pos cfg t.1
        rw [hpos, ← ht2] at this
        rw [← ht2]
        exact this
      have herr := he'.trans he
      subst hend
      refine ⟨by simp [Finished, TcpReq.setParsed, hcomp, herr], fun r' h => ?_⟩
      have hback : Loops (headersStep cfg) (t.1.append y, s.1.pos) r' := loops_setParsed h t.1.parsed
      have hlt' : s.1.pos < (t.1.append y).pos := by
        rw [append_pos, hpos]
        exact Nat.lt_add_of_pos_right (length_pos_of_ne_nil hy)
      refine hback.congr ?_
      rw [headersStep, headersStep, if_pos ⟨hlt, he⟩, if_pos ⟨hlt', herr⟩, hlong]

/-! ## The rounds of `tcp_read_req` -/

/-- What can be observed of a connection: the answer, the units handed up, and the request
without the bytes that were not scanned. -/
def outcome (res : ConnCmd × TcpConn) : ConnCmd × List TcpUnit × TcpReq :=
  (res.1, res.2.units,
    { res.2.req with buf := res.2.req.buf.take res.2.req.parsed.toNat })

theorem outcome_append (h : c.req.parsed ≤ c.req.pos) {cmd} : outcome (cmd, c.append y) = outcome (cmd, c) := by
  have hbuf : (c.req.buf ++ y).take c.req.parsed.toNat = c.req.buf.take c.req.parsed.toNat :=
    take_append_of_le_length (by unfold TcpReq.pos at h; omega)
  unfold outcome TcpConn.append TcpReq.append
  simp only [hbuf]

theorem unitBytes_append (h : r.parsed ≤ r.pos) : (r.append y).unitBytes = r.unitBytes := by
  unfold TcpReq.unitBytes TcpReq.append
  simp only
  by_cases hs : r.start ≤ r.pos
  · rw [drop_append_of_le_length hs, take_append_of_le_length]
    rw [length_drop]
    unfold TcpReq.pos at h hs
    omega
  · have h0 : (r.parsed - r.start).toNat = 0 := by omega
    rw [h0, take_zero, take_zero]

theorem nextReq_append (h : r.parsed ≤ r.pos) : nextReq (r.append y) = (nextReq r).append y := by
  unfold nextReq TcpReq.append
  simp only
  rw [drop_append_of_le_length (by unfold TcpReq.pos at h; omega)]

/-- What a longer buffer changes for a scan that has found something, `r` being what the scan
left: only whether there are bytes to go on with. -/
inductive LongRound (r : TcpReq) (y : List UInt8) :
    TcpConn ⊕ (ConnCmd × TcpConn) → TcpConn ⊕ (ConnCmd × TcpConn) → Prop
  | more (units : List TcpUnit) :
      LongRound r y (.inl ⟨nextReq r, false, units⟩) (.inl ⟨(nextReq r).append y, false, units⟩)
  | rest (units : List TcpUnit) (hbuf : (nextReq r).buf = []) :
      LongRound r y (.inr (.release, ⟨nextReq r, false, units⟩))
        (.inl ⟨(nextReq r).append y, false, units⟩)
  | closed (cmd : ConnCmd) (c : TcpConn) (hcmd : cmd ≠ .release) (hc : c.req.parsed ≤ c.req.pos) :
      LongRound r y (.inr (cmd, c)) (.inr (cmd, c.append y))

theorem handUp_append (hle : r.parsed ≤ r.pos) {units} (hy : y ≠ []) :
    LongRound r y (handUp upper ⟨r, false, units⟩) (handUp upper ⟨r.append y, false, units⟩) := by
  have hst : (r.append y).start = r.start := rfl
  have hpa : (r.append y).parsed = r.parsed := rfl
  have hs : (r.append y).state = r.state := rfl
  have hne : ((nextReq r).append y).buf ≠ [] := fun h => hy (append_eq_nil_iff.1 h).2
  unfold handUp
  simp only [unitBytes_append hle, nextReq_append hle, hst, hpa, hs, if_pos hne, Bool.false_eq_true, if_false]
  split_ifs with h1 h2 h3 h4
  · exact .closed .fault ⟨r, false, units⟩ (by decide) hle
  · exact .closed .error ⟨r, false, _⟩ (by decide) hle
  · exact .closed .fault ⟨r, false, _⟩ (by decide) hle
  · exact .more _
  · exact .rest _ (not_not.1 h4)

theorem tcpReqResult_append (upper) (hle : r.parsed ≤ r.pos) (units) (hfin : Finished r) (hy : y ≠ []) :
    LongRound r y (tcpReqResult upper ⟨r, false, units⟩ 0) (tcpReqResult upper ⟨r.append y, false, units⟩ 0) := by
  have hcomp : (r.append y).complete = r.complete := rfl
  have herr : (r.append y).error = r.error := rfl
  have hcl : (r.append y).hasClen = r.hasClen := rfl
  have h0 : ¬ (0 : Int) = -1 := by decide
  unfold tcpReqResult
  simp only [hcomp, herr, hcl, Bool.false_eq_true, false_and, if_false, h0]
  split_ifs with h1 h2 h3
  · exact .closed .error ⟨r, false, units⟩ (by decide) hle
  · exact handUp_append hle hy
  · exact .closed .error ⟨{ r with error := .badLen }, false, units⟩ (by decide) hle
  · exact absurd hfin (by simp [Finished, h2, not_not.1 h1])

/-- One round on a longer buffer: the scan of the shorter one waits and the longer one comes
by, or both find the same. -/
theorem scanRound_long {upper} (hc : Live c) (heof : c.eof = false) (hy : y ≠ [])
    (hfit : y.length ≤ c.req.bSize - c.req.pos) :
    (scanRound cfg upper c = .inr (.release, { c with req := headersLoop cfg c.req }) ∧
      scanRound cfg upper (c.append y) = scanRound cfg upper
        (TcpConn.append { c with req := headersLoop cfg c.req } y)) ∨
    LongRound (headersLoop cfg c.req) y (scanRound cfg upper c) (scanRound cfg upper (c.append y)) := by
  obtain ⟨hloop, hsc⟩ := hc.scanned cfg
  have hloop' := headersLoop_loops cfg (hc.append_live hfit).inv
  obtain ⟨r, eof, units⟩ := c
  obtain rfl : eof = false := heof
  simp only at hloop hsc
  have hpos : (headersLoop cfg r).pos = r.pos := by rw [TcpReq.pos, hsc.buf]; rfl
  rcases headersLoop_append hloop hc.inv hc.complete hy with ⟨hfin, hlong⟩ | ⟨hnf, hlong⟩
  · right
    have heq := hloop'.det hlong
    have hle := hpos ▸ hsc.le_pos
    have := tcpReqResult_append upper hle units hfin hy
    rw [← heq] at this
    exact this
  · left
    obtain ⟨hcomp, herr⟩ : (headersLoop cfg r).complete = false ∧ (headersLoop cfg r).error = .ok := by
      simpa [Finished] using hnf
    have hshort : scanRound cfg upper ⟨r, false, units⟩ = .inr (.release, ⟨headersLoop cfg r, false, units⟩) := by
      have h0 : ¬ (0 : Int) = -1 := by decide
      simp [scanRound, tcpReqResult, hcomp, herr, h0]
    refine ⟨hshort, ?_⟩
    have hlive' : Live ⟨(headersLoop cfg r).append y, false, units⟩ :=
      (hc.release cfg hshort).1.toLive.append_live (by simp only [hpos, hsc.bSize]; exact hfit)
    have heq : headersLoop cfg (r.append y) = headersLoop cfg ((headersLoop cfg r).append y) := by
      have h := headersLoop_loops cfg hlive'.inv
      have hto : ((headersLoop cfg r).append y).parsed.toNat = r.pos := congrArg Int.toNat (hsc.wait hnf).1
      rw [hto] at h
      exact hloop'.det (hlong _ h)
    show tcpReqResult upper ⟨headersLoop cfg (r.append y), false, units⟩ 0 = _
    rw [heq]
    rfl

/-- A connection open for more bytes. -/
structure Open (res : ConnCmd × TcpConn) : Prop where
  rest : res.1 = .release → Rest res.2
  eof : res.1 = .release → res.2.eof = false

section

variable (hl : Loops (scanRound cfg upper) c res) (hc : Live c) (heof : c.eof = false)

include hl hc heof

theorem scanRound_open :
    Open res ∧ (res.1 = .release → res.2.req.bSize = c.req.bSize ∧ res.2.req.pos ≤ c.req.pos) := by
  induction hl with
  | @done c res hf =>
    obtain ⟨cmd, c'⟩ := res
    by_cases hcmd : cmd = .release
    · subst hcmd
      obtain ⟨h1, h2, h3, h4⟩ := hc.release cfg hf
      exact ⟨⟨fun _ => h1, fun _ => h2.trans heof⟩, fun _ => ⟨h3, h4⟩⟩
    · exact ⟨⟨fun h => absurd h hcmd, fun h => absurd h hcmd⟩, fun h => absurd h hcmd⟩
  | @next c c' res hf _ ih =>
    obtain ⟨h1, -, h3, h4⟩ := hc.next cfg hf
    have heof' : c'.eof = false := by
      obtain ⟨-, -, -, rfl⟩ := handUp_inl (tcpReqResult_inl hf).2.2.2
      exact heof
    obtain ⟨ho, hb⟩ := ih h1 heof'
    refine ⟨ho, fun h => ?_⟩
    obtain ⟨h5, h6⟩ := hb h
    exact ⟨h5.trans h4, by omega⟩

/-- The rounds on a buffer tell those on a longer one: a connection that is at rest goes on,
given the bytes, as the longer one does, and one that is closed is closed there too. -/
theorem scanRound_append (hy : y ≠ []) (hfit : y.length ≤ c.req.bSize - c.req.pos) :
    (res.1 = .release ∧ ∀ res', Loops (scanRound cfg upper) (res.2.append y) res' →
      Loops (scanRound cfg upper) (c.append y) res') ∨
    (res.1 ≠ .release ∧ ∃ res', Loops (scanRound cfg upper) (c.append y) res' ∧ outcome res' = outcome res) := by
  induction hl with
  | @done c res hf =>
    rcases scanRound_long hc heof hy hfit with ⟨hshort, hlong⟩ | hlong
    · left
      rw [hf] at hshort
      cases hshort
      exact ⟨rfl, fun res' h => h.congr hlong⟩
    · rw [hf] at hlong
      generalize hg : scanRound cfg upper (c.append y) = long at hlong
      cases hlong with
      | rest units hbuf => exact .inl ⟨rfl, fun res' h => .next hg h⟩
      | closed cmd c' hcmd hle => exact .inr ⟨hcmd, _, .done hg, outcome_append hle⟩
  | @next c c' res hf hl ih =>
    obtain ⟨hlive, -, hlt, hbs⟩ := hc.next cfg hf
    rcases scanRound_long hc heof hy hfit with ⟨hshort, -⟩ | hlong
    · rw [hf] at hshort
      cases hshort
    · rw [hf] at hlong
      generalize hg : scanRound cfg upper (c.append y) = long at hlong
      cases hlong with
      | more units =>
        simp only at hlt hbs
        rcases ih hlive rfl (by simp only [hbs]; omega) with ⟨h1, h2⟩ | ⟨h1, res', h2, h3⟩
        · exact .inl ⟨h1, fun res' h => .next hg (h2 res' h)⟩
        · exact .inr ⟨h1, res', .next hg h2, h3⟩

end

/-! ## Reads -/

theorem loops_scanRound {ev} (hl : Loops (tcpReadReqRound cfg upper ev) c res) (hc : Live c)
    (hp : c.req.parsed < c.req.pos) : Loops (scanRound cfg upper) c res := by
  induction hl with
  | done hf => exact .done (by rw [← tcpReadReqRound_scan hc hp, hf])
  | next hf _ ih =>
    obtain ⟨hc', hp', -⟩ := tcpReadReqRound_inl hc hf
    exact .next (by rw [← tcpReadReqRound_scan hc hp, hf]) (ih hc' hp')

/-- Reading data is scanning it with what is in the buffer. -/
theorem tcpReadReq_data (cfg upper) (hc : Rest c) (hfree : c.req.pos < c.req.bSize) (hb : bytes ≠ []) :
    Loops (scanRound cfg upper) (c.append (bytes.take (c.req.bSize - c.req.pos)))
      (tcpReadReq cfg upper (.data bytes false) c) := by
  have hround := tcpReadReqRound_data hc hfree hb cfg upper
  cases tcpReadReq_loops hc.toLive with
  | done hf => exact .done (by rw [← hround, hf])
  | next hf hl =>
    obtain ⟨hc', hp', -⟩ := tcpReadReqRound_inl hc.toLive hf
    exact .next (by rw [← hround, hf]) (loops_scanRound hl hc' hp')

theorem tcpReadReq_overrun (cfg upper ev) (hc : Rest c) (hfull : c.req.bSize ≤ c.req.pos) :
    tcpReadReq cfg upper ev c = (.error, { c with req := { c.req with error := .overrun } }) :=
  (tcpReadReq_loops hc.toLive).det (.done (tcpReadReqRound_overrun hc hfull))

/-- Two results that cannot be told apart, and are the same while the connection is open. -/
structure Agree (res res' : ConnCmd × TcpConn) : Prop where
  outcome : outcome res = outcome res'
  eq : res.1 = .release → res = res'

theorem Agree.refl (res : ConnCmd × TcpConn) : Agree res res := ⟨rfl, fun _ => rfl⟩

theorem Agree.cmd (h : Agree res res') : res.1 = res'.1 := (Prod.mk.inj h.outcome).1

theorem Agree.trans {a b c} (h : Agree a b) (h' : Agree b c) : Agree a c :=
  ⟨h.outcome.trans h'.outcome, fun ha => (h.eq ha).trans (h'.eq (h.cmd ▸ ha))⟩

theorem tcpReadReq_open (cfg upper) (hc : Rest c) (heof : c.eof = false) (hx : x ≠ []) :
    let res := tcpReadReq cfg upper (.data x false) c
    Open res ∧ (res.1 = .release → res.2.req.bSize = c.req.bSize ∧
      res.2.req.pos ≤ c.req.pos + x.length) := by
  by_cases hfree : c.req.pos < c.req.bSize
  · have hl := tcpReadReq_data cfg upper hc hfree hx
    have hlen : (x.take (c.req.bSize - c.req.pos)).length ≤ c.req.bSize - c.req.pos := by
      rw [length_take]
      exact min_le_left _ _
    obtain ⟨ho, hb⟩ := scanRound_open hl (hc.toLive.append_live hlen) heof
    refine ⟨ho, fun h => ⟨(hb h).1, le_trans (hb h).2 ?_⟩⟩
    rw [TcpConn.append, append_pos, length_take]
    omega
  · rw [tcpReadReq_overrun cfg upper _ hc (Nat.le_of_not_lt hfree)]
    refine ⟨⟨?_, ?_⟩, ?_⟩ <;> intro h <;> cases h

/-- The bytes come in one read, or in two. -/
theorem tcpReadReq_append (cfg upper) (hc : Rest c)
    (heof : c.eof = false) (hx : x ≠ []) (hy : y ≠ []) (hfit : x.length + y.length ≤ c.req.bSize - c.req.pos) :
    let res := tcpReadReq cfg upper (.data x false) c
    Agree (tcpReadReq cfg upper (.data (x ++ y) false) c)
      (if res.1 = .release then tcpReadReq cfg upper (.data y false) res.2 else res) := by
  have hxl := length_pos_of_ne_nil hx
  have hyl := length_pos_of_ne_nil hy
  have hfree : c.req.pos < c.req.bSize := by omega
  have hshort := tcpReadReq_data cfg upper hc hfree hx
  have hlong := tcpReadReq_data cfg upper hc hfree (show x ++ y ≠ [] by simp [hx])
  rw [take_of_length_le (by omega)] at hshort
  rw [take_of_length_le (by rw [length_append]; omega)] at hlong
  have happ : c.append (x ++ y) = (c.append x).append y := by
    simp [TcpConn.append, TcpReq.append]
  have hpos : (c.append x).req.pos = c.req.pos + x.length := append_pos c.req x
  have hbs : (c.append x).req.bSize = c.req.bSize := rfl
  have hlive : Live (c.append x) := hc.toLive.append_live (by omega)
  obtain ⟨ho, hb⟩ := tcpReadReq_open cfg upper hc heof hx
  rw [happ] at hlong
  rcases scanRound_append hshort hlive heof hy (by omega) with ⟨h1, h2⟩ | ⟨h1, res', h2, h3⟩
  · obtain ⟨h3, h4⟩ := hb h1
    have hrest := tcpReadReq_data cfg upper (ho.rest h1) (by omega) hy
    rw [take_of_length_le (by omega)] at hrest
    simp only [if_pos h1]
    rw [hlong.det (h2 _ hrest)]
    exact Agree.refl _
  · simp only [if_neg h1]
    rw [hlong.det h2]
    refine ⟨h3, fun h => absurd h ?_⟩
    rwa [(Prod.mk.inj h3).1]

/-! ## Whole streams -/

/-- One call of `tcp_read_req` on the data waiting at the socket; what did not fit in the
buffer keeps waiting. -/
def deliverRound (cfg : TcpCfg) (upper : List TcpUnit → Int) (s : TcpConn × List UInt8) :
    (TcpConn × List UInt8) ⊕ (ConnCmd × TcpConn) :=
  if s.2 = [] then .inr (.release, s.1)
  else
    match tcpReadReq cfg upper (.data s.2 false) s.1 with
    | (.release, c) => .inl (c, s.2.drop (s.1.req.bSize - s.1.req.pos))
    | res => .inr res

/-- A piece of the stream arrives: it is read until the socket is empty or the connection
closed. -/
def deliver (cfg : TcpCfg) (upper : List TcpUnit → Int) (piece : List UInt8) (c : TcpConn) :
    ConnCmd × TcpConn :=
  (loop (deliverRound cfg upper) (piece.length + 1) (c, piece)).getD (.fault, c)

/-- The pieces of a stream arrive one after the other. -/
def receive (cfg : TcpCfg) (upper : List TcpUnit → Int) (pieces : List (List UInt8))
    (c : TcpConn) : ConnCmd × TcpConn :=
  pieces.foldl (fun res piece => if res.1 = .release then deliver cfg upper piece res.2 else res)
    (.release, c)

/-- The stream read byte by byte. -/
def readBytes (cfg : TcpCfg) (upper : List TcpUnit → Int) (res : ConnCmd × TcpConn)
    (bytes : List UInt8) : ConnCmd × TcpConn :=
  bytes.foldl (fun res b =>
    if res.1 = .release then tcpReadReq cfg upper (.data [b] false) res.2 else res) res

section Bytes

variable {cfg : TcpCfg} {upper : List TcpUnit → Int}

theorem readBytes_closed (h : res.1 ≠ .release) {bytes} : readBytes cfg upper res bytes = res := by
  induction bytes with
  | nil => rfl
  | cons b bytes ih =>
    rw [readBytes, foldl_cons, if_neg h]
    exact ih

theorem readBytes_cons {b bytes} :
    readBytes cfg upper (.release, c) (b :: bytes) =
      readBytes cfg upper (tcpReadReq cfg upper (.data [b] false) c) bytes := rfl

variable (cfg upper) in

theorem readBytes_append (res x y) :
    readBytes cfg upper res (x ++ y) = readBytes cfg upper (readBytes cfg upper res x) y :=
  foldl_append

theorem Open.readBytes (h : Open res) (bytes) : Open (readBytes cfg upper res bytes) := by
  induction bytes generalizing res with
  | nil => exact h
  | cons b bytes ih =>
    rw [Tcp.readBytes, foldl_cons]
    split_ifs with hr
    · exact ih (tcpReadReq_open cfg upper (h.rest hr) (h.eof hr) (by simp)).1
    · exact ih h

variable (cfg upper) in

/-- One read that fits is as good as reading its bytes one by one. -/
theorem tcpReadReq_readBytes (hc : Rest c) (heof : c.eof = false) (hb : bytes ≠ [])
    (hfit : bytes.length ≤ c.req.bSize - c.req.pos) :
    Agree (tcpReadReq cfg upper (.data bytes false) c) (readBytes cfg upper (.release, c) bytes) := by
  induction bytes generalizing c with
  | nil => exact absurd rfl hb
  | cons b bytes ih =>
    by_cases hb' : bytes = []
    · subst hb'
      exact .refl _
    · have happ := tcpReadReq_append cfg upper hc heof (x := [b]) (by simp) hb' (by simpa [add_comm] using hfit)
      obtain ⟨ho, hbnd⟩ := tcpReadReq_open cfg upper hc heof (x := [b]) (by simp)
      rw [readBytes_cons]
      refine happ.trans ?_
      split_ifs with hr
      · obtain ⟨h1, h2⟩ := hbnd hr
        rw [length_cons] at hfit
        rw [length_singleton] at h2
        have := ih (ho.rest hr) (ho.eof hr) hb' (by omega)
        rw [← hr] at this
        exact this
      · rw [readBytes_closed hr]
        exact .refl _

/-- `tcp_read` takes what fits. -/
theorem tcpReadReq_take (hc : Rest c) (hfree : c.req.pos < c.req.bSize) (hb : bytes ≠ []) :
    tcpReadReq cfg upper (.data bytes false) c = tcpReadReq cfg upper
      (.data (bytes.take (c.req.bSize - c.req.pos)) false) c := by
  have hne : bytes.take (c.req.bSize - c.req.pos) ≠ [] := by
    intro h
    rcases take_eq_nil_iff.1 h with h | h
    · omega
    · exact hb h
  have h := tcpReadReq_data cfg upper hc hfree hne
  rw [take_take, min_self] at h
  exact (tcpReadReq_data cfg upper hc hfree hb).det h

theorem loop_deliverRound (hc : Rest c) (heof : c.eof = false) {piece n} (hn : piece.length < n) :
    ∃ res, loop (deliverRound cfg upper) n (c, piece) = some res ∧
      Agree res (readBytes cfg upper (.release, c) piece) := by
  induction n generalizing c piece with
  | zero => exact absurd hn (Nat.not_lt_zero _)
  | succ n ih =>
    cases piece with
    | nil => exact ⟨(.release, c), rfl, .refl _⟩
    | cons b rest =>
      have hround : deliverRound cfg upper (c, b :: rest) =
          match tcpReadReq cfg upper (.data (b :: rest) false) c with
          | (.release, c') => .inl (c', (b :: rest).drop (c.req.bSize - c.req.pos))
          | res => .inr res := rfl
      by_cases hfree : c.req.pos < c.req.bSize
      · have hagree := tcpReadReq_readBytes cfg upper hc heof
          (show (b :: rest).take (c.req.bSize - c.req.pos) ≠ [] by
            rw [ne_eq, take_eq_nil_iff]; simp; omega)
          (by rw [length_take]; exact min_le_left _ _)
        rw [← tcpReadReq_take hc hfree (by simp)] at hagree
        have hsplit := readBytes_append cfg upper (.release, c)
          ((b :: rest).take (c.req.bSize - c.req.pos)) ((b :: rest).drop (c.req.bSize - c.req.pos))
        rw [take_append_drop] at hsplit
        have hopen := (tcpReadReq_open cfg upper hc heof (x := b :: rest) (by simp)).1
        generalize tcpReadReq cfg upper (.data (b :: rest) false) c = res at hround hagree hopen
        obtain ⟨cmd, c'⟩ := res
        by_cases hr : cmd = .release
        · subst hr
          obtain ⟨res, h1, h2⟩ :=
            ih (hopen.rest rfl) (hopen.eof rfl)
              (show ((b :: rest).drop (c.req.bSize - c.req.pos)).length < n by
                rw [length_drop]; rw [length_cons] at hn ⊢; omega)
          refine ⟨res, by rw [loop, hround]; exact h1, ?_⟩
          rw [hsplit, ← hagree.eq rfl]
          exact h2
        · refine ⟨(cmd, c'), ?_, ?_⟩
          · rw [loop, hround]
            cases cmd <;> first | rfl | exact absurd rfl hr
          · rw [hsplit, readBytes_closed (h := hagree.cmd ▸ hr)]
            exact hagree
      · -- a full buffer: the first byte closes the connection
        have hover := fun ev => tcpReadReq_overrun cfg upper ev hc (Nat.le_of_not_lt hfree)
        rw [hover] at hround
        refine ⟨_, by rw [loop, hround], ?_⟩
        rw [readBytes_cons, hover, readBytes_closed (by simp)]
        exact .refl _

variable (cfg upper) in

theorem deliver_readBytes (hc : Rest c) (heof : c.eof = false) (piece) :
    Agree (deliver cfg upper piece c) (readBytes cfg upper (.release, c) piece) := by
  obtain ⟨res, h1, h2⟩ := loop_deliverRound hc heof (Nat.lt_succ_self piece.length)
  rw [deliver, h1]
  exact h2

variable (cfg upper) in

theorem foldl_deliver_readBytes (pieces : List (List UInt8)) (h : Agree res res')
    (hopen : Open res') : Agree (pieces.foldl
        (fun res piece => if res.1 = .release then deliver cfg upper piece res.2
          else res) res) (readBytes cfg upper res' pieces.flatten) := by
  induction pieces generalizing res res' with
  | nil => exact h
  | cons piece pieces ih =>
    rw [foldl_cons, flatten_cons, readBytes_append]
    refine ih ?_ (hopen.readBytes piece)
    split_ifs with hr
    · have he := h.eq hr
      subst he
      have := deliver_readBytes cfg upper (hopen.rest hr) (hopen.eof hr) piece
      rw [← hr] at this
      exact this
    · rw [readBytes_closed (h.cmd ▸ hr)]
      exact h

end Bytes

/-- The units handed up and the final state of a connection, or its error, are the same for
any two ways to cut the stream into reads. -/
theorem framing_independent_of_cuts (cfg : TcpCfg) (upper : List TcpUnit → Int) (bSize : Nat)
    (pieces pieces' : List (List UInt8)) (h : pieces.flatten = pieces'.flatten) :
    outcome (receive cfg upper pieces (initTcpConn bSize)) =
      outcome (receive cfg upper pieces' (initTcpConn bSize)) := by
  have hopen : Open (.release, initTcpConn bSize) :=
    ⟨fun _ => live_initTcpConn, fun _ => rfl⟩
  have h1 := foldl_deliver_readBytes cfg upper pieces (.refl _) hopen
  have h2 := foldl_deliver_readBytes cfg upper pieces' (.refl _) hopen
  rw [h] at h1
  exact h1.outcome.trans h2.outcome.symm

/-- A message of seven bytes, its header cut in the middle of a line and its body alone. -/
theorem framing_independent_of_cuts_message :
    (receive ⟨true, true⟩ (fun _ => 0) [[108, 58], [49, 10, 10], [88, 13]] (initTcpConn 16)).2.units =
      [⟨.sip, [108, 58, 49, 10, 10, 88]⟩] ∧
    outcome (receive ⟨true, true⟩ (fun _ => 0) [[108, 58], [49, 10, 10], [88, 13]] (initTcpConn 16)) =
      outcome (receive ⟨true, true⟩ (fun _ => 0) [[108, 58, 49, 10, 10, 88, 13]] (initTcpConn 16)) :=
  ⟨by decide, framing_independent_of_cuts _ _ _ _ _ (by decide)⟩

end SipRouter.Tcp
