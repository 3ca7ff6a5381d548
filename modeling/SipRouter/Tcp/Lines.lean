import SipRouter.Tcp.Header
import SipRouter.Tcp.Scan

/-!
# The scanner on header lines

The scanner reads header lines a character at a time. `TextInv` says what it
knows in the middle of a line: the lines that ended, the start of the current
one, and, in terms of `lineClen`, what the lines will say about the length of
the body once the rest of the current line is there. Each step keeps it, as long
as an accepted number fits a 32-bit `int` (`numberFits`): the value is
multiplied up without a check, and a longer number wraps.
-/

namespace SipRouter.Tcp

open Lib List Bool

/-! ## Parts of the buffer -/

/-- The bytes from offset `a` to offset `b`. -/
def slice (buf : List UInt8) (a b : Nat) : List UInt8 := (buf.take b).drop a

theorem slice_self {buf a} : slice buf a a = [] := by
  rw [slice, drop_eq_nil_iff, length_take]
  exact min_le_left _ _

variable {buf cur : List UInt8} {a n p b : Nat} {s : TcpReqStates} {ch : UInt8} {r : TcpReq}
  {text : List UInt8} {rest : List UInt8} {u l : Char}

theorem slice_append_slice {c} (hab : a ≤ b) (hbc : b ≤ c) : slice buf a b ++ slice buf b c = slice buf a c := by
  have h : buf.take b = (buf.take c).take b := by rw [take_take, min_eq_left hbc]
  unfold slice
  rw [h]
  generalize buf.take c = l
  have := take_append_drop b l
  nth_rewrite 3 [← this]
  by_cases hb : b ≤ l.length
  · rw [drop_append_of_le_length (by rw [length_take]; omega)]
  · rw [drop_eq_nil_of_le (by omega : l.length ≤ b), append_nil, append_nil]

theorem slice_succ (ha : a ≤ p) (hp : p < buf.length) : slice buf a (p + 1) = slice buf a p ++ [buf.getD p 0] := by
  rw [← slice_append_slice ha (Nat.le_succ p)]
  congr 1
  rw [slice, take_succ_eq_append_getElem hp, drop_append_of_le_length (by simp; omega),
    getD_eq_getElem _ _ hp, drop_eq_nil_of_le (by simp)]
  rfl

theorem length_slice (hb : b ≤ buf.length) : (slice buf a b).length = b - a := by
  rw [slice, length_drop, length_take, min_eq_left hb]

/-! ## Numbers -/

/-- The digits at the end of a text. -/
def trailingDigits (text : List UInt8) : List UInt8 := (text.reverse.takeWhile isDigit).reverse

theorem trailingDigits_digit (h : isDigit ch = true) :
    trailingDigits (text ++ [ch]) = trailingDigits text ++ [ch] := by
  simp [trailingDigits, h]

theorem trailingDigits_nondigit (h : isDigit ch = false) : trailingDigits (text ++ [ch]) = [] := by
  simp [trailingDigits, h]

/-- Digits do not reach beyond a text that has another character. -/
theorem trailingDigits_append {text} (h : ∃ ch ∈ text, isDigit ch = false)
    {front} : trailingDigits (front ++ text) = trailingDigits text := by
  obtain ⟨ch, hm, hd⟩ := h
  unfold trailingDigits
  rw [reverse_append, takeWhile_append, if_neg]
  intro hlen
  have hpre := takeWhile_prefix (l := text.reverse) isDigit
  have hall := takeWhile_eq_self_iff.1 (hpre.eq_of_length hlen)
  rw [hall ch (mem_reverse.2 hm)] at hd
  cases hd

theorem decimal_append {ds ch} : decimal (ds ++ [ch]) = decimal ds * 10 + (ch.toNat - 48) := by
  simp [decimal, decimalFrom]

theorem digit_eq (h : isDigit ch = true) : digit ch = ((ch.toNat - 48 : Nat) : Int) := by
  simp only [isDigit, and_eq_true, decide_eq_true_eq, UInt8.le_iff_toNat_le] at h
  have h1 : (48 : UInt8).toNat = 48 := rfl
  unfold digit
  omega

/-- Wrapping at each digit is wrapping once. -/
theorem toInt32_step {n d} : toInt32 (toInt32 n * 10 + d) = toInt32 (n * 10 + d) := by
  unfold toInt32
  rw [← Int.bmod_add_bmod, Int.bmod_mul_bmod, Int.bmod_add_bmod]

theorem toInt32_of_lt (h : n < 2147483648) : toInt32 n = n := by
  unfold toInt32
  rw [Int.bmod_eq_of_le] <;> omega

/-! ## The current line

The lines read so far are those that ended, `done`, and the start of the current
one, `cur`. Whatever the rest of the current line will be, what the lines then
say about the length is known to the scanner: the value it has found, or what
its state makes of the rest. -/

/-- The states within the header lines. -/
def TcpReqStates.inText : TcpReqStates → Bool
  | .hSkipEmpty | .hSkipEmptyCrFound | .hSkipEmptyCrlfFound | .hSkipEmptyCrlfcrFound | .hBody
  | .hStunMsg | .hStunReadBody | .hStunFp | .hStunEnd | .hPingCrlf => false
  | _ => true

/-- What the scanner, with the value `n`, makes of the rest of the current line. -/
def clenKnown (r : TcpReq) (n : Nat) (rest : List UInt8) : Option Nat :=
  if r.hasClen then some n else pending r.state n rest

/-- What a state says about the current line and about the value `n` of its digits. -/
def CurrentLine (r : TcpReq) (n : Nat) (cur : List UInt8) : Prop :=
  match r.state with
  | .hLf => cur = []
  | .hLfcr => cur = [cr]
  | .hContLenBody => ':'.toUInt8 ∈ cur ∧ trailingDigits cur = []
  | .hContLenBodyParse =>
    ':'.toUInt8 ∈ cur ∧ r.contentLen = toInt32 n ∧ decimal (trailingDigits cur) = n
  | _ => ¬ BlankLine cur

/-- A value that was found is kept, and no other is looked for. -/
structure Found (r : TcpReq) (n : Nat) : Prop where
  value : r.contentLen = n
  state : r.state = .hLf ∨ r.state = .hLfcr ∨ r.state = .hSkip

/-- A line of its own. -/
structure Line (line : List UInt8) : Prop where
  no_lf : lf ∉ line
  not_blank : ¬ BlankLine line

/-- The scanner has read the lines `done` and the start `cur` of the next. -/
structure TextInv (r : TcpReq) (p n : Nat) (done : List (List UInt8)) (cur : List UInt8) :
    Prop where
  bytes : slice r.buf r.start p = done.flatMap (· ++ [lf]) ++ cur
  lines : ∀ line ∈ done, Line line
  no_lf : lf ∉ cur
  current : CurrentLine r n cur
  found : r.hasClen = true → Found r n
  clen : ∀ rest, (done ++ [cur ++ rest]).findSome? lineClen = clenKnown r n rest

/-- A character other than a line feed was read: the new state knows as much as the old. -/
structure ReadChar (r r' : TcpReq) (n n' : Nat) (ch : UInt8) (cur : List UInt8) : Prop where
  inText : r'.state.inText = true
  current : CurrentLine r' n' (cur ++ [ch])
  found : r'.hasClen = true → Found r' n'
  clen : ∀ rest, clenKnown r' n' rest = clenKnown r n (ch :: rest)

theorem not_blankLine_append (hcur : cur ≠ []) : ¬ BlankLine (cur ++ [ch]) := by
  rintro (h | h)
  · simp at h
  · cases cur with
    | nil => exact hcur rfl
    | cons b l => simp at h

theorem not_blankLine_of_colon (h : ':'.toUInt8 ∈ cur) : ¬ BlankLine cur := by
  rintro (rfl | rfl)
  · simp at h
  · exact absurd (mem_singleton.1 h) (by decide)

/-- In the middle of a line, some of it was read. -/
theorem CurrentLine.ne_nil (h : CurrentLine r n cur) (hs : r.state ≠ .hLf) : cur ≠ [] := by
  rintro rfl
  unfold CurrentLine at h
  cases hst : r.state <;> simp_all [BlankLine]

/-- The states of a line that is not blank, before a number. -/
def TcpReqStates.midLine (s : TcpReqStates) : Prop :=
  s.inText = true ∧ s ≠ .hLf ∧ s ≠ .hLfcr ∧ s ≠ .hContLenBody ∧ s ≠ .hContLenBodyParse

theorem midLine_contentLenBegCase (hs : s.midLine) (b : Bool) (ch) : ((contentLenBegCase b ch).getD s).midLine := by
  unfold contentLenBegCase
  split_ifs
  all_goals first | exact hs | simp [TcpReqStates.midLine, TcpReqStates.inText]

theorem midLine_changeState (hs : s.midLine) (hne : ch ≠ lf) : (changeState u l s ch).midLine := by
  unfold changeState crlfDefaultSkipCase
  split_ifs
  · exact hs
  · simp [TcpReqStates.midLine, TcpReqStates.inText]

theorem crlfDefaultSkipCase_ne (hne : ch ≠ lf) : crlfDefaultSkipCase ch = .hSkip := if_neg hne

theorem pending_contentLenBegCase :
    pending ((contentLenBegCase false ch).getD .hSkip) n rest = lineClen (ch :: rest) := by
  rw [lineClen_cons]
  simp only [contentLenBegCase, false_eq_true, if_false]
  split_ifs <;> rfl

theorem pending_changeState (hne : ch ≠ lf) :
    pending (changeState u l s ch) n rest = if isCh u l ch then pending s n rest else none := by
  unfold changeState
  rw [crlfDefaultSkipCase_ne hne]
  split_ifs <;> rfl

/-- A step to a state that only looks for more of the name. -/
theorem readChar_goTo (hcl : r.hasClen = false) (hs : s.midLine) (hcur : cur ++ [ch] ≠ [cr])
    (hp : ∀ rest, pending s n rest = pending r.state n (ch :: rest)) :
    ReadChar r { r with state := s } n n ch cur where
  inText := hs.1
  current := by
    have hb : ¬ BlankLine (cur ++ [ch]) := by
      rintro (h | h)
      · simp at h
      · exact hcur h
    obtain ⟨-, h1, h2, h3, h4⟩ := hs
    unfold CurrentLine
    cases s <;> simp_all
  found := by simp [hcl]
  clen := by simp [clenKnown, hcl, hp]

/-- The scanner after a character of a line. -/
def TcpReq.atChar (r : TcpReq) (s : TcpReqStates) (hasClen : Bool) (contentLen : Int) : TcpReq :=
  { r with state := s, hasClen := hasClen, contentLen := contentLen }

/-- Reading a character of a line with the value found already. -/
theorem headerChar_found {cfg}
    (hl : r.state.looksAtChar = true) (hne : ch ≠ lf) (hc : CurrentLine r n cur)
    (hcl : r.hasClen = true) (hf : Found r n) :
    ∃ s, headerChar cfg r p ch = .next (r.atChar s true r.contentLen) (p + 1) ∧
      ReadChar r (r.atChar s true r.contentLen) n n ch cur := by
  have hto (s : TcpReqStates) : { r with state := s } = r.atChar s true r.contentLen := by
    rw [← hcl]
    rfl
  have hknown (s : TcpReqStates) (rest : List UInt8) :
      clenKnown (r.atChar s true r.contentLen) n rest = clenKnown r n (ch :: rest) := by
    simp [clenKnown, TcpReq.atChar, hcl]
  obtain ⟨hval, hst | hst | hst⟩ := hf
  · have hcur : cur = [] := by simpa only [CurrentLine, hst] using hc
    by_cases hcr : ch = cr
    · refine ⟨.hLfcr, ?_, rfl, ?_, fun _ => ⟨hval, .inr (.inl rfl)⟩, hknown _⟩
      · simp only [headerChar, hst, if_pos hcr, hto]
      · show cur ++ [ch] = [cr]
        rw [hcur, hcr]
        rfl
    · refine ⟨.hSkip, ?_, rfl, ?_, fun _ => ⟨hval, .inr (.inr rfl)⟩, hknown _⟩
      · have hskip : (contentLenBegCase r.hasClen ch).getD .hSkip = .hSkip := by
          simp only [contentLenBegCase, hcl, if_true]
          split_ifs <;> rfl
        simp only [headerChar, hst, if_neg hcr, if_neg hne, hskip, hto]
      · show ¬ BlankLine (cur ++ [ch])
        rw [hcur]
        rintro (h | h)
        · cases h
        · exact hcr (List.cons.inj h).1
  · have hcur : cur = [cr] := by simpa only [CurrentLine, hst] using hc
    refine ⟨.hSkip, ?_, rfl, ?_, fun _ => ⟨hval, .inr (.inr rfl)⟩, hknown _⟩
    · simp only [headerChar, hst, if_neg hne, hto]
    · exact not_blankLine_append (by simp [hcur])
  · rw [hst] at hl
    cases hl

/-- The character `ch` is read as a part of the line. -/
def ReadsChar (cfg : TcpCfg) (r : TcpReq) (p n : Nat) (ch : UInt8) (cur : List UInt8) : Prop :=
  ∃ s b len n', headerChar cfg r p ch = .next (r.atChar s b len) (p + 1) ∧
    ReadChar r (r.atChar s b len) n n' ch cur

section NotFound

/-! While no value is found. -/

variable {cfg : TcpCfg}

/-- The common case: the state changes, and nothing else. -/
theorem readsChar_goTo (hcl : r.hasClen = false) (hs : s.midLine)
    (hcur : cur ++ [ch] ≠ [cr]) (hp : ∀ rest, pending s n rest = pending r.state n (ch :: rest))
    (he : headerChar cfg r p ch = .next { r with state := s } (p + 1)) : ReadsChar cfg r p n ch cur :=
  ⟨s, r.hasClen, r.contentLen, n, he, readChar_goTo hcl hs hcur hp⟩

theorem CurrentLine.longer (hc : CurrentLine r n cur) (h : r.state ≠ .hLf) :
    cur ++ [ch] ≠ [cr] := fun he => not_blankLine_append (hc.ne_nil h) (.inr he)

theorem midLine_hSkip : TcpReqStates.hSkip.midLine := by
  simp [TcpReqStates.midLine, TcpReqStates.inText]

theorem isDigit_of_isBlank (h : isBlank ch = true) : isDigit ch = false := by
  simp only [isBlank, or_eq_true, decide_eq_true_eq] at h
  rcases h with rfl | rfl <;> rfl

variable (hne : ch ≠ lf) (hc : CurrentLine r n cur) (hcl : r.hasClen = false)

include hne hc hcl

theorem readsChar_hLf (hs : r.state = .hLf) : ReadsChar cfg r p n ch cur := by
  have hcur : cur = [] := by simpa only [CurrentLine, hs] using hc
  by_cases hcr : ch = cr
  · refine ⟨.hLfcr, r.hasClen, r.contentLen, n, ?_, rfl, ?_, ?_, ?_⟩
    · simp only [headerChar, hs, if_pos hcr]
      rfl
    · show cur ++ [ch] = [cr]
      rw [hcur, hcr]
      rfl
    · simp [TcpReq.atChar, hcl]
    · intro rest
      simp only [clenKnown, TcpReq.atChar, hcl, hs, hcr, pending, lineClen_cons]
      rfl
  · refine readsChar_goTo hcl (midLine_contentLenBegCase midLine_hSkip r.hasClen ch) ?_ ?_
      (by simp only [headerChar, hs, if_neg hcr, if_neg hne])
    · rw [hcur]
      exact fun h => hcr (List.cons.inj h).1
    · intro rest
      rw [hcl, hs, pending_contentLenBegCase]
      rfl

theorem readsChar_hStartws (hs : r.state = .hStartws) : ReadsChar cfg r p n ch cur := by
  have he : headerChar cfg r p ch =
      .next { r with state := (contentLenBegCase r.hasClen ch).getD .hSkip } (p + 1) := by
    simp only [headerChar, hs, crlfDefaultSkipCase_ne hne]
  refine readsChar_goTo hcl (midLine_contentLenBegCase midLine_hSkip r.hasClen ch)
    (hc.longer (by simp [hs])) (fun rest => ?_) he
  rw [hcl, hs, pending_contentLenBegCase]
  rfl

/-- A letter of the name. -/
theorem readsChar_letter {u l} (hst : r.state ≠ .hLf) (hs : s.midLine)
    (he : headerChar cfg r p ch = .next { r with state := changeState u l s ch } (p + 1))
    (hp : ∀ rest, pending r.state n (ch :: rest) = if isCh u l ch then pending s n rest else none) :
    ReadsChar cfg r p n ch cur :=
  readsChar_goTo hcl (midLine_changeState hs hne) (hc.longer hst) (fun rest => by rw [hp, pending_changeState hne]) he

theorem readsChar_hLColon (hs : r.state = .hLColon) : ReadsChar cfg r p n ch cur := by
  have hlonger : cur ++ [ch] ≠ [cr] := hc.longer (by simp [hs])
  by_cases hb : isBlank ch = true
  · refine readsChar_goTo (s := .hLColon) hcl (by simp [TcpReqStates.midLine, TcpReqStates.inText])
      hlonger (fun rest => ?_) ?_
    · simp only [hs, pending, afterName_cons, if_pos hb]
    · simp only [headerChar, hs, if_pos hb]
      rw [← hs]
  · by_cases hcol : ch = ':'.toUInt8
    · refine ⟨.hContLenBody, r.hasClen, r.contentLen, n, ?_, rfl, ⟨?_, ?_⟩, ?_, fun rest => ?_⟩
      · simp only [headerChar, hs, if_neg hb, if_pos hcol]
        rfl
      · simp [hcol]
      · exact trailingDigits_nondigit (by rw [hcol]; rfl)
      · simp [TcpReq.atChar, hcl]
      · simp only [clenKnown, TcpReq.atChar, hcl, hs, pending, afterName_cons, if_neg hb, if_pos hcol]
    · refine readsChar_goTo (s := .hSkip) hcl midLine_hSkip hlonger (fun rest => ?_) ?_
      · simp only [hs, pending, afterName_cons, if_neg hb, if_neg hcol]
      · simp only [headerChar, hs, if_neg hb, if_neg hcol, crlfDefaultSkipCase_ne hne]

theorem readsChar_hContLenBody (hs : r.state = .hContLenBody) : ReadsChar cfg r p n ch cur := by
  obtain ⟨hcolon, hdigits⟩ : ':'.toUInt8 ∈ cur ∧ trailingDigits cur = [] := by
    simpa only [CurrentLine, hs] using hc
  by_cases hb : isBlank ch = true
  · refine ⟨.hContLenBody, r.hasClen, r.contentLen, n, ?_, rfl, ⟨?_, ?_⟩, ?_, fun rest => ?_⟩
    · simp only [headerChar, hs, if_pos hb]
      rw [← hs]
      rfl
    · exact mem_append_left _ hcolon
    · exact trailingDigits_nondigit (isDigit_of_isBlank hb)
    · simp [TcpReq.atChar, hcl]
    · simp only [clenKnown, TcpReq.atChar, hcl, hs, pending, afterColon_cons, if_pos hb]
  · by_cases hd : isDigit ch = true
    · have hval := digit_eq hd
      have hlt : ch.toNat - 48 < 2147483648 := by
        have := ch.toNat_lt
        omega
      refine ⟨.hContLenBodyParse, r.hasClen, digit ch, ch.toNat - 48, ?_, rfl, ⟨?_, ?_, ?_⟩, ?_, fun rest => ?_⟩
      · simp only [headerChar, hs, if_neg hb, if_pos hd]
        rfl
      · exact mem_append_left _ hcolon
      · rw [toInt32_of_lt hlt]
        exact hval
      · rw [trailingDigits_digit hd, hdigits]
        simp [decimal, decimalFrom]
      · simp [TcpReq.atChar, hcl]
      · simp only [clenKnown, TcpReq.atChar, hcl, hs, pending, afterColon_cons, if_neg hb,
          if_pos hd, false_eq_true, if_false]
    · refine readsChar_goTo (s := .hSkip) hcl midLine_hSkip (hc.longer (by simp [hs])) (fun rest => ?_) ?_
      · simp only [hs, pending, afterColon_cons, if_neg hb, if_neg hd]
      · simp only [headerChar, hs, if_neg hb, if_neg hd, crlfDefaultSkipCase_ne hne]

/-- In the number: one more digit, its end, or no number after all. -/
theorem readsChar_hContLenBodyParse (hs : r.state = .hContLenBodyParse)
    (hfit : isClenEnd ch = true → n < 2147483648) : ReadsChar cfg r p n ch cur := by
  obtain ⟨hcolon, hlen, hdigits⟩ : ':'.toUInt8 ∈ cur ∧ r.contentLen = toInt32 n ∧
      decimal (trailingDigits cur) = n := by
    simpa only [CurrentLine, hs] using hc
  by_cases hd : isDigit ch = true
  · refine ⟨.hContLenBodyParse, r.hasClen, toInt32 (r.contentLen * 10 + digit ch),
      n * 10 + (ch.toNat - 48), ?_, rfl, ⟨?_, ?_, ?_⟩, ?_, fun rest => ?_⟩
    · simp only [headerChar, hs, if_pos hd]
      rw [← hs]
      rfl
    · exact mem_append_left _ hcolon
    · show toInt32 (r.contentLen * 10 + digit ch) = _
      rw [hlen, toInt32_step, digit_eq hd]
      norm_cast
    · rw [trailingDigits_digit hd, decimal_append, hdigits]
    · simp [TcpReq.atChar, hcl]
    · simp only [clenKnown, TcpReq.atChar, hcl, hs, pending, clenNumberFrom_cons, if_pos hd, false_eq_true, if_false]
  · by_cases he : isClenEnd ch = true
    · have hval : r.contentLen = n := by rw [hlen, toInt32_of_lt (hfit he)]
      refine ⟨.hSkip, true, r.contentLen, n, ?_, rfl, ?_, fun _ => ⟨hval, .inr (.inr rfl)⟩, fun rest => ?_⟩
      · simp only [headerChar, hs, if_neg hd]
        exact if_pos he
      · exact not_blankLine_append (ne_nil_of_mem hcolon)
      · simp only [clenKnown, TcpReq.atChar, hcl, hs, pending, clenNumberFrom_cons, if_neg hd,
          if_pos he, false_eq_true, if_true, if_false]
    · refine readsChar_goTo (s := .hSkip) hcl midLine_hSkip (hc.longer (by simp [hs])) (fun rest => ?_) ?_
      · simp only [hs, pending, clenNumberFrom_cons, if_neg hd, if_neg he]
      · simp only [headerChar, hs, if_neg hd, if_neg hne]
        exact if_neg he

/-- A character of a line is read as a part of it. -/
theorem headerChar_open (ht : r.state.inText = true) (hl : r.state.looksAtChar = true)
    (hfit : r.state = .hContLenBodyParse → isClenEnd ch = true → n < 2147483648) : ReadsChar cfg r p n ch cur := by
  cases hs : r.state
  case hLf => exact readsChar_hLf hne hc hcl hs
  case hLfcr =>
    refine readsChar_goTo hcl midLine_hSkip (hc.longer (by simp [hs])) (fun rest => ?_)
      (by simp only [headerChar, hs, if_neg hne])
    rw [hs]
    rfl
  case hStartws => exact readsChar_hStartws hne hc hcl hs
  case hLColon => exact readsChar_hLColon hne hc hcl hs
  case hContLenBody => exact readsChar_hContLenBody hne hc hcl hs
  case hContLenBodyParse => exact readsChar_hContLenBodyParse hne hc hcl hs (hfit hs)
  case hSkip => rw [hs] at hl; cases hl
  case hContLen1 | hContLen2 | hContLen3 | hContLen4 | hContLen5 | hContLen6 | hContLen7 |
      hContLen8 | hContLen9 | hContLen10 | hContLen11 | hContLen12 | hContLen13 =>
    refine readsChar_letter hne hc hcl (by simp [hs]) ?_ (by simp only [headerChar, hs]; rfl) ?_
    · simp [TcpReqStates.midLine, TcpReqStates.inText]
    · intro rest
      rw [hs]
      exact stripLetters_bind_cons
  all_goals
    rw [hs] at ht
    cases ht

end NotFound

/-! ## Steps of the scanner in the header lines -/

/-- The number at offset `p`, if the scanner accepts one there, fits an `int`. -/
def numberFits (s : TcpReq × Nat) : Bool :=
  !(s.1.state = .hContLenBodyParse && (isClenEnd (s.1.byteAt s.2) || s.1.byteAt s.2 = lf)) ||
    decimal (trailingDigits (s.1.buf.take s.2)) < 2147483648

namespace TextInv

variable {done : List (List UInt8)}

/-- The digits in front of the scanner are those of the number it reads. -/
theorem number_eq (h : TextInv r p n done cur) (hp : r.start ≤ p)
    (hs : r.state = .hContLenBodyParse) : decimal (trailingDigits (r.buf.take p)) = n := by
  obtain ⟨hcolon, -, hdigits⟩ : ':'.toUInt8 ∈ cur ∧ r.contentLen = toInt32 n ∧ decimal (trailingDigits cur) = n := by
    simpa only [CurrentLine, hs] using h.current
  have hsplit : r.buf.take p = r.buf.take r.start ++ (done.flatMap (· ++ [lf]) ++ cur) := by
    rw [← h.bytes]
    exact (slice_append_slice (Nat.zero_le r.start) hp).symm
  rw [hsplit, ← append_assoc, trailingDigits_append ⟨_, hcolon, rfl⟩, hdigits]

theorem fits (h : TextInv r p n done cur) (hp : r.start ≤ p) (hfit : numberFits (r, p) = true)
    (hs : r.state = .hContLenBodyParse)
    (he : isClenEnd (r.byteAt p) = true ∨ r.byteAt p = lf) : n < 2147483648 := by
  have hnum := h.number_eq hp hs
  rcases he with he | he <;> simpa [numberFits, hs, he, hnum] using hfit

/-- The scanner goes on behind a character of a line. -/
theorem char {cfg} (h : TextInv r p n done cur) (ht : r.state.inText = true)
    (hl : r.state.looksAtChar = true) (hst : r.start ≤ p) (hp : p < r.pos) (hne : r.byteAt p ≠ lf)
    (hfit : numberFits (r, p) = true) :
    ∃ s b len n', headerChar cfg r p (r.byteAt p) = .next (r.atChar s b len) (p + 1) ∧
      s.inText = true ∧ TextInv (r.atChar s b len) (p + 1) n' done (cur ++ [r.byteAt p]) := by
  obtain ⟨s, b, len, n', he, hread⟩ : ReadsChar cfg r p n (r.byteAt p) cur := by
    by_cases hcl : r.hasClen = true
    · obtain ⟨s, he, hread⟩ := headerChar_found hl hne h.current hcl (h.found hcl)
      exact ⟨s, _, _, n, he, hread⟩
    · exact headerChar_open hne h.current (by simpa using hcl) ht hl fun hs he => h.fits hst hfit hs (.inl he)
  refine ⟨s, b, len, n', he, hread.inText, ?_, h.lines, ?_, hread.current, hread.found, fun rest => ?_⟩
  · show slice r.buf r.start (p + 1) = _
    rw [slice_succ hst hp, h.bytes, append_assoc]
    rfl
  · simp [h.no_lf, hne.symm]
  · rw [hread.clen, ← h.clen, append_assoc]
    rfl

/-- A line feed ends the line. -/
theorem endLine (h : TextInv r p n done cur) (hne : r.state ≠ .hLf) (hne' : r.state ≠ .hLfcr)
    (hst : r.start ≤ p) (hp : p < r.pos) (hch : r.byteAt p = lf)
    (hfit : r.state = .hContLenBodyParse → n < 2147483648) :
    TextInv (r.atChar .hLf (r.hasClen || decide (r.state = .hContLenBodyParse)) r.contentLen)
      (p + 1) n (done ++ [cur]) [] where
  bytes := by
    show slice r.buf r.start (p + 1) = _
    have hlf : r.buf.getD p 0 = lf := hch
    rw [slice_succ hst hp, h.bytes, hlf]
    simp
  lines := by
    intro line hm
    rcases mem_append.1 hm with hm | hm
    · exact h.lines line hm
    · rw [mem_singleton.1 hm]
      refine ⟨h.no_lf, ?_⟩
      have hcur := h.current
      unfold CurrentLine at hcur
      cases hs : r.state <;> simp only [hs] at hcur
      case hLf => exact absurd hs hne
      case hLfcr => exact absurd hs hne'
      case hContLenBody | hContLenBodyParse => exact not_blankLine_of_colon hcur.1
      all_goals exact hcur
  no_lf := by simp
  current := rfl
  found := by
    intro hb
    refine ⟨?_, .inl rfl⟩
    rcases or_eq_true_iff.1 hb with hcl | hs
    · exact (h.found hcl).value
    · have hs := of_decide_eq_true hs
      have hcur := h.current
      simp only [CurrentLine, hs] at hcur
      show r.contentLen = n
      rw [hcur.2.1, toInt32_of_lt (hfit hs)]
  clen := by
    intro rest
    have hknown := h.clen []
    rw [append_nil] at hknown
    rw [findSome?_append, hknown]
    unfold clenKnown
    rw [pending_nil]
    cases r.hasClen <;> by_cases hs : r.state = .hContLenBodyParse <;>
      simp [TcpReq.atChar, hs, pending]

/-- The rest of a line that is skipped. -/
theorem skip {q} (h : TextInv r p n done cur) (hs : r.state = .hSkip) (hst : r.start ≤ p)
    (hpq : p ≤ q) (hlf : lf ∉ slice r.buf p q) :
    TextInv r q n done (cur ++ slice r.buf p q) where
  bytes := by rw [← slice_append_slice hst hpq, h.bytes, append_assoc]
  lines := h.lines
  no_lf := by simp [h.no_lf, hlf]
  current := by
    have hcur : ¬ BlankLine cur := by simpa only [CurrentLine, hs] using h.current
    have : ¬ BlankLine (cur ++ slice r.buf p q) := by
      rintro (hb | hb)
      · exact hcur (.inl (append_eq_nil_iff.1 hb).1)
      · rcases append_eq_singleton_iff.1 hb with ⟨hb, -⟩ | ⟨hb, -⟩
        · exact hcur (.inl hb)
        · exact hcur (.inr hb)
    simpa only [CurrentLine, hs] using this
  found := h.found
  clen := by
    intro rest
    rw [append_assoc, h.clen]
    simp [clenKnown, hs, pending]

end TextInv

end SipRouter.Tcp
