import SipRouter.Tcp.Scan

/-!
# The rounds of `tcp_read_req`

Between two reads a connection is `Live`: no error, no unit pending, the
scanner in the buffer. A round that finds bytes to scan does not read, so what
it does is a function of the connection (`scanRound`); a round that goes on has
handed up a unit and is left with fewer bytes, so `tcp_read_req` ends.
-/

namespace SipRouter.Tcp

open Lib List

/-- A connection that is not closing. -/
structure Live (c : TcpConn) : Prop where
  error : c.req.error = .ok
  complete : c.req.complete = false
  nonneg : 0 ≤ c.req.parsed
  inv : LoopInv (c.req, c.req.parsed.toNat)
  fits : c.req.pos ≤ c.req.bSize

/-- A live connection that has scanned all its bytes. -/
structure Rest (c : TcpConn) : Prop extends Live c where
  parsed : c.req.parsed = c.req.pos

/-- A round that need not read. -/
def scanRound (cfg : TcpCfg) (upper : List TcpUnit → Int) (c : TcpConn) :
    TcpConn ⊕ (ConnCmd × TcpConn) :=
  tcpReqResult upper { c with req := headersLoop cfg c.req } 0

def TcpConn.append (c : TcpConn) (y : List UInt8) : TcpConn := { c with req := c.req.append y }

theorem live_initTcpConn {bSize} : Rest (initTcpConn bSize) where
  error := rfl
  complete := rfl
  nonneg := Int.le_refl 0
  inv := ⟨standing_of_plain rfl, le_refl 0⟩
  fits := Nat.zero_le _
  parsed := rfl

variable {c c' c₀ : TcpConn} {n : Int} {upper : List TcpUnit → Int}

theorem Live.scanned (hc : Live c) (cfg) :
    Loops (headersStep cfg) (c.req, c.req.parsed.toNat) (headersLoop cfg c.req) ∧
      Scanned c.req (headersLoop cfg c.req) :=
  have h := headersLoop_loops cfg hc.inv
  ⟨h, headersLoop_scanned h hc.inv⟩

theorem tcpReqResult_congr {m} (hm : m ≠ -1)
    (hn : n ≠ -1) : tcpReqResult upper c m = tcpReqResult upper c n := by
  unfold tcpReqResult
  rw [if_neg hm, if_neg hn]

/-- With bytes to scan, a round does not read. -/
theorem tcpReadReqRound_scan (hc : Live c) (hp : c.req.parsed < c.req.pos) {cfg upper ev} :
    tcpReadReqRound cfg upper ev c = scanRound cfg upper c := by
  unfold tcpReadReqRound tcpReadHeaders scanRound
  rw [if_pos hc.error, if_pos hp]

theorem Live.append_live (hc : Live c) {y} (hy : y.length ≤ c.req.bSize - c.req.pos) : Live (c.append y) where
  error := hc.error
  complete := hc.complete
  nonneg := hc.nonneg
  inv := ⟨hc.inv.1, le_trans hc.inv.2 (by simp [TcpConn.append])⟩
  fits := by
    have := hc.fits
    simp only [TcpConn.append, append_pos]
    show c.req.pos + y.length ≤ c.req.bSize
    omega

/-- A round that reads data scans it with what is in the buffer. -/
theorem tcpReadReqRound_data (hc : Rest c) (hfree : c.req.pos < c.req.bSize)
    {bytes} (hb : bytes ≠ []) (cfg upper) :
    tcpReadReqRound cfg upper (.data bytes false) c =
      scanRound cfg upper (c.append (bytes.take (c.req.bSize - c.req.pos))) := by
  have hlen : 0 < (bytes.take (c.req.bSize - c.req.pos)).length := by
    rw [length_take]
    have := length_pos_of_ne_nil hb
    omega
  unfold tcpReadReqRound tcpReadHeaders tcpRead scanRound
  rw [if_pos hc.error, if_neg (by rw [hc.parsed]; exact Int.lt_irrefl _), if_neg (by omega)]
  simp only [Bool.false_and, Bool.or_false]
  rw [if_neg (by omega)]
  exact tcpReqResult_congr (by omega) (by decide)

/-- A full buffer is an overrun. -/
theorem tcpReadReqRound_overrun (hc : Rest c) (hfull : c.req.bSize ≤ c.req.pos) {cfg upper ev} :
    tcpReadReqRound cfg upper ev c = .inr (.error, { c with req := { c.req with error := .overrun } }) := by
  unfold tcpReadReqRound tcpReadHeaders tcpRead
  rw [if_pos hc.error, if_neg (by rw [hc.parsed]; exact Int.lt_irrefl _), if_pos (by omega)]
  rfl

/-! ## Reading -/

/-- What `tcp_read` can do to a connection: append bytes, note an error, or find nothing. -/
inductive ReadOut (c : TcpConn) : TcpConn × Int → Prop
  | got (y : List UInt8) (eof : Bool) (hy : y ≠ []) (hfit : y.length ≤ c.req.bSize - c.req.pos) :
      ReadOut c ({ c.append y with eof := eof }, y.length)
  | failed (e : TcpReqErrors) : ReadOut c ({ c with req := { c.req with error := e } }, -1)
  | nothing (eof : Bool) : ReadOut c ({ c with eof := eof }, 0)

theorem tcpRead_out (ev c) : ReadOut c (tcpRead ev c) := by
  unfold tcpRead
  simp only
  split_ifs
  · exact .failed _
  · cases ev with
    | data bytes forceEof =>
      simp only
      generalize hg : bytes.take (c.req.bSize - c.req.pos) = got
      have hfit : got.length ≤ c.req.bSize - c.req.pos := by
        rw [← hg, length_take]
        exact min_le_left _ _
      cases got with
      | nil =>
        rw [append_nil]
        exact .nothing _
      | cons b g => exact .got (b :: g) _ (by simp) hfit
    | wouldBlock => exact .nothing c.eof
    | eof => exact .nothing true
    | error => exact .failed _

/-- What `tcp_read_headers` can do: scan a buffer with unscanned bytes, or get no bytes. -/
inductive HeadersOut (cfg : TcpCfg) (c : TcpConn) : TcpConn × Int → Prop
  | scanned (c₀ : TcpConn) (n : Int) (hc₀ : Live c₀) (hp : c₀.req.parsed < c₀.req.pos)
      (hn : n ≠ -1) (hb : c₀.req.bSize = c.req.bSize) (hu : c₀.units = c.units)
      (hfrom : c₀ = c ∨ c.req.parsed = c.req.pos ∧ ∃ y, c₀.req = c.req.append y) :
      HeadersOut cfg c ({ c₀ with req := headersLoop cfg c₀.req }, n)
  | failed (e : TcpReqErrors) : HeadersOut cfg c ({ c with req := { c.req with error := e } }, -1)
  | nothing (eof : Bool) (hp : c.req.parsed = c.req.pos) : HeadersOut cfg c ({ c with eof := eof }, 0)

theorem tcpReadHeaders_out (cfg ev) (hc : Live c) : HeadersOut cfg c (tcpReadHeaders cfg ev c) := by
  unfold tcpReadHeaders
  split_ifs with hp
  · exact .scanned c 0 hc hp (by decide) rfl rfl (.inl rfl)
  · have hle : c.req.parsed ≤ c.req.pos := by
      have h1 := hc.inv.2
      have h2 := hc.nonneg
      simp only at h1
      omega
    have hrest : Rest c := ⟨hc, by omega⟩
    have hout := tcpRead_out ev c
    generalize tcpRead ev c = res at hout
    cases hout with
    | got y eof hy hfit =>
      have hlen := length_pos_of_ne_nil hy
      have hlive := hc.append_live hfit
      simp only
      rw [if_neg (by omega)]
      refine .scanned { c.append y with eof := eof } _ ⟨hlive.error, hlive.complete, hlive.nonneg,
        hlive.inv, hlive.fits⟩ ?_ (by omega) rfl rfl
        (.inr ⟨hrest.parsed, y, rfl⟩)
      show c.req.parsed < ((c.req.append y).pos : Int)
      rw [append_pos]
      omega
    | failed e => exact .failed e
    | nothing eof => exact .nothing eof hrest.parsed

/-! ## A round that goes on -/

theorem handUp_inl (h : handUp upper c = .inl c') :
    (c.req.start : Int) ≤ c.req.parsed ∧ c.req.parsed ≠ 0 ∧ (nextReq c.req).buf ≠ [] ∧
    c' = { c with req := nextReq c.req
                  units := c.units ++ [⟨unitKind c.req.state, c.req.unitBytes⟩] } := by
  unfold handUp at h
  simp only at h
  split_ifs at h with h1 h2 h3 h4
  cases h
  exact ⟨by omega, h3, h4, rfl⟩

theorem tcpReqResult_inl (h : tcpReqResult upper c n = .inl c') :
    n ≠ -1 ∧ c.req.error = .ok ∧ c.req.complete = true ∧ handUp upper c = .inl c' := by
  unfold tcpReqResult at h
  split_ifs at h with h1 h2 h3 h4
  exact ⟨h1, not_not.1 h3, h4, h⟩

/-- A unit handed up leaves a live connection with fewer bytes. -/
theorem Live.next (hc : Live c₀) (cfg)
    (h : tcpReqResult upper { c₀ with req := headersLoop cfg c₀.req } n = .inl c') :
    Live c' ∧ c'.req.parsed < c'.req.pos ∧ c'.req.pos < c₀.req.pos ∧ c'.req.bSize = c₀.req.bSize := by
  obtain ⟨-, he, -, hh⟩ := tcpReqResult_inl h
  obtain ⟨hst, hp0, hne, rfl⟩ := handUp_inl hh
  have hsc := (hc.scanned cfg).2
  have hle := hsc.le_pos
  have hpos : (headersLoop cfg c₀.req).pos = c₀.req.pos := by rw [TcpReq.pos, hsc.buf]; rfl
  have hlen : (nextReq (headersLoop cfg c₀.req)).pos = c₀.req.pos - (headersLoop cfg c₀.req).parsed.toNat := by
    rw [← hpos]
    exact length_drop
  have hlt := length_pos_of_ne_nil hne
  have hfit := hc.fits
  simp only at hst hp0
  refine ⟨⟨rfl, rfl, Int.le_refl 0, ⟨standing_of_plain rfl, Nat.zero_le _⟩, ?_⟩, ?_, ?_, hsc.bSize⟩
  · show (nextReq (headersLoop cfg c₀.req)).pos ≤ (headersLoop cfg c₀.req).bSize
    rw [hsc.bSize]
    omega
  · exact Int.ofNat_lt.2 hlt
  · show (nextReq (headersLoop cfg c₀.req)).pos < c₀.req.pos
    omega

theorem handUp_release (h : handUp upper c = .inr (.release, c')) :
    (nextReq c.req).buf = [] ∧
    c' = { c with req := nextReq c.req
                  units := c.units ++ [⟨unitKind c.req.state, c.req.unitBytes⟩] } := by
  unfold handUp at h
  simp only at h
  split_ifs at h with h1 h2 h3 h4
  all_goals cases h
  exact ⟨not_not.1 h4, rfl⟩

theorem tcpReqResult_release (h : tcpReqResult upper c n = .inr (.release, c')) :
    n ≠ -1 ∧ c.req.error = .ok ∧ ((c.req.complete = false ∧ c' = c) ∨
        (c.req.complete = true ∧ handUp upper c = .inr (.release, c'))) := by
  unfold tcpReqResult at h
  split_ifs at h with h1 h2 h3 h4
  all_goals first | exact ⟨h1, not_not.1 h3, .inr ⟨h4, h⟩⟩ | cases h
  exact ⟨h1, not_not.1 h3, .inl ⟨by simpa using h4, rfl⟩⟩

/-- A connection that is kept is at rest, with no more bytes than before. -/
theorem Live.release (hc : Live c₀) (cfg)
    (h : tcpReqResult upper { c₀ with req := headersLoop cfg c₀.req } n = .inr (.release, c')) :
    Rest c' ∧ c'.eof = c₀.eof ∧ c'.req.bSize = c₀.req.bSize ∧ c'.req.pos ≤ c₀.req.pos := by
  have hsc := (hc.scanned cfg).2
  have hpos : (headersLoop cfg c₀.req).pos = c₀.req.pos := by rw [TcpReq.pos, hsc.buf]; rfl
  obtain ⟨-, he, ⟨hcomp, rfl⟩ | ⟨-, hh⟩⟩ := tcpReqResult_release h
  · simp only at he hcomp
    obtain ⟨hpar, hst⟩ := hsc.wait (by simp [Finished, he, hcomp])
    have hto : (headersLoop cfg c₀.req).parsed.toNat = c₀.req.pos := by rw [hpar]; rfl
    refine ⟨⟨⟨he, hcomp, ?_, ?_, ?_⟩, ?_⟩, rfl, hsc.bSize, hpos.le⟩
    · simp only [hpar]; omega
    · simp only [LoopInv, hto]; exact ⟨hst, hpos.ge⟩
    · simp only [hpos, hsc.bSize]; exact hc.fits
    · simp only [hpar, hpos]
  · obtain ⟨hbuf, rfl⟩ := handUp_release hh
    have hp0 : (nextReq (headersLoop cfg c₀.req)).pos = 0 := by rw [TcpReq.pos, hbuf]; rfl
    refine ⟨⟨⟨rfl, rfl, Int.le_refl 0, ⟨standing_of_plain rfl, Nat.zero_le _⟩, ?_⟩, ?_⟩, rfl, hsc.bSize, ?_⟩
    · simp only [hp0, Nat.zero_le]
    · simp only [hp0]; rfl
    · simp only [hp0, Nat.zero_le]

theorem tcpReadReqRound_inl {cfg ev} (hc : Live c) (h : tcpReadReqRound cfg upper ev c = .inl c') :
    Live c' ∧ c'.req.parsed < c'.req.pos ∧ c'.req.bSize = c.req.bSize ∧
      (c.req.parsed < c.req.pos → c'.req.pos < c.req.pos) := by
  unfold tcpReadReqRound at h
  rw [if_pos hc.error] at h
  have hout := tcpReadHeaders_out cfg ev hc
  generalize tcpReadHeaders cfg ev c = res at hout h
  cases hout with
  | scanned c₀ n hc0 hp hn hb hu hfrom =>
    obtain ⟨h1, h2, h3, h4⟩ := hc0.next cfg h
    refine ⟨h1, h2, h4.trans hb, fun hlt => ?_⟩
    rcases hfrom with rfl | ⟨heq, -⟩
    · exact h3
    · omega
  | failed e => exact absurd rfl (tcpReqResult_inl h).1
  | nothing eof hp =>
    have := (tcpReqResult_inl h).2.2.1
    rw [hc.complete] at this
    exact absurd this (by decide)

/-- `tcp_read_req` is its rounds, run to the end. -/
theorem tcpReadReq_loops {cfg upper ev}
    (hc : Live c) : Loops (tcpReadReqRound cfg upper ev) c (tcpReadReq cfg upper ev c) := by
  -- the rounds left: one for each byte, or any number of bytes that may be read
  let left (c' : TcpConn) : Nat := if c'.req.parsed < c'.req.pos then c'.req.pos else c.req.bSize + 1
  obtain ⟨res, h⟩ := loop_isSome (f := tcpReadReqRound cfg upper ev)
    (fun c' => Live c' ∧ c'.req.bSize = c.req.bSize) left
    (fun hs h => ⟨(tcpReadReqRound_inl hs.1 h).1, (tcpReadReqRound_inl hs.1 h).2.2.1.trans hs.2⟩)
    (fun {s t} hs h => by
      obtain ⟨h1, h2, h3, h4⟩ := tcpReadReqRound_inl hs.1 h
      have hfit := h1.fits
      simp only [left, if_pos h2]
      split_ifs with hlt
      · exact h4 hlt
      · rw [h3, hs.2] at hfit
        omega)
    (n := c.req.bSize + 2) ⟨hc, rfl⟩
    (by have := hc.fits; simp only [left]; split_ifs <;> omega)
  have he : tcpReadReq cfg upper ev c = res := by
    unfold tcpReadReq
    rw [h]
    rfl
  rw [he]
  exact .of_loop h

end SipRouter.Tcp
