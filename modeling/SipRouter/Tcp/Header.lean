import SipRouter.Tcp.Req

/-!
# The Content-Length of a message

What the header lines of a message say about the length of its body, in terms
of whole lines: a line is a Content-Length header if, after blanks, it has the
name or its short form, blanks, a colon, blanks, and a number that is followed
by the end of the line, a blank or a carriage return. The scanner reads the
lines a character at a time; `pending` gives, for each of its states, what the
rest of the line still has to say, and `pending_cons` that a character of the
line is read correctly.
-/

namespace SipRouter.Tcp

open List

/-! ## Lines -/

/-- The decimal value of digits, continuing `n`. -/
def decimalFrom (n : Nat) (ds : List UInt8) : Nat := ds.foldl (fun n ch => n * 10 + (ch.toNat - 48)) n

/-- The decimal value of digits. -/
def decimal (ds : List UInt8) : Nat := decimalFrom 0 ds

/-- A character that may follow the number. -/
def isClenEnd (ch : UInt8) : Bool := ch = cr || isBlank ch

/-- What follows the number: nothing, or a character that ends it. -/
def endsClen : List UInt8 → Bool
  | [] => true
  | ch :: _ => isClenEnd ch

/-- The name of the header, each letter in the forms the scanner takes. -/
def clenName : List (Char × Char) :=
  [('C', 'c'), ('O', 'o'), ('N', 'n'), ('T', 't'), ('E', 'e'), ('N', 'n'), ('T', 't'), ('-', '_'),
    ('L', 'l'), ('E', 'e'), ('N', 'n'), ('G', 'g'), ('T', 't'), ('H', 'h')]

/-- The rest of a text behind the given letters. -/
def stripLetters : List (Char × Char) → List UInt8 → Option (List UInt8)
  | [], text => some text
  | _ :: _, [] => none
  | (u, l) :: letters, ch :: text => if isCh u l ch then stripLetters letters text else none

/-- The value of the digits in front of the text, continuing `n`. -/
def clenNumberFrom (n : Nat) (text : List UInt8) : Option Nat :=
  if endsClen (text.dropWhile isDigit) then some (decimalFrom n (text.takeWhile isDigit)) else none

/-- The value in a text that follows the colon. -/
def afterColon (text : List UInt8) : Option Nat :=
  match text.dropWhile isBlank with
  | [] => none
  | ch :: text => if isDigit ch then clenNumberFrom (ch.toNat - 48) text else none

/-- The value in a text that follows the name. -/
def afterName (text : List UInt8) : Option Nat :=
  match text.dropWhile isBlank with
  | [] => none
  | ch :: text => if ch = ':'.toUInt8 then afterColon text else none

/-- The value of a Content-Length line. -/
def lineClen (line : List UInt8) : Option Nat :=
  let text := line.dropWhile isBlank
  ((stripLetters clenName text).orElse fun _ => stripLetters [('L', 'l')] text).bind afterName

/-- A line that ends the headers. -/
def BlankLine (line : List UInt8) : Prop := line = [] ∨ line = [cr]

example : lineClen (['L', ' ', ':', ' ', '4', '2', '\r'].map Char.toUInt8) = some 42 := by decide

/-! ## The rest of a line -/

/-- What the scanner, in a state without a Content-Length found so far, makes of the rest of
the line; `n` is the value of the digits read. -/
def pending (s : TcpReqStates) (n : Nat) (text : List UInt8) : Option Nat :=
  match s with
  | .hLf | .hStartws => lineClen text
  | .hContLen1 => (stripLetters (clenName.drop 1) text).bind afterName
  | .hContLen2 => (stripLetters (clenName.drop 2) text).bind afterName
  | .hContLen3 => (stripLetters (clenName.drop 3) text).bind afterName
  | .hContLen4 => (stripLetters (clenName.drop 4) text).bind afterName
  | .hContLen5 => (stripLetters (clenName.drop 5) text).bind afterName
  | .hContLen6 => (stripLetters (clenName.drop 6) text).bind afterName
  | .hContLen7 => (stripLetters (clenName.drop 7) text).bind afterName
  | .hContLen8 => (stripLetters (clenName.drop 8) text).bind afterName
  | .hContLen9 => (stripLetters (clenName.drop 9) text).bind afterName
  | .hContLen10 => (stripLetters (clenName.drop 10) text).bind afterName
  | .hContLen11 => (stripLetters (clenName.drop 11) text).bind afterName
  | .hContLen12 => (stripLetters (clenName.drop 12) text).bind afterName
  | .hContLen13 => (stripLetters (clenName.drop 13) text).bind afterName
  | .hLColon => afterName text
  | .hContLenBody => afterColon text
  | .hContLenBodyParse => clenNumberFrom n text
  | _ => none

/-! A text read one character at a time. -/

section

variable (ch : UInt8) (text : List UInt8)

include ch text

theorem lineClen_cons : lineClen (ch :: text) = if isBlank ch then lineClen text
      else if isCh 'C' 'c' ch then (stripLetters (clenName.drop 1) text).bind afterName
        else if isCh 'L' 'l' ch then afterName text else none := by
  by_cases hb : isBlank ch = true
  · rw [if_pos hb]
    unfold lineClen
    rw [dropWhile_cons_of_pos hb]
  · rw [if_neg hb]
    have hname : stripLetters clenName (ch :: text) = if isCh 'C' 'c' ch then
        stripLetters (clenName.drop 1) text else none :=
      rfl
    have hshort : stripLetters [('L', 'l')] (ch :: text) = if isCh 'L' 'l' ch then some text else none := rfl
    unfold lineClen
    rw [dropWhile_cons_of_neg hb]
    simp only [hname, hshort]
    by_cases hc : isCh 'C' 'c' ch = true
    · have hl : isCh 'L' 'l' ch = false := by
        simp only [isCh, Bool.or_eq_true, decide_eq_true_eq] at hc
        rcases hc with rfl | rfl <;> decide
      rw [if_pos hc, if_pos hc, hl]
      cases stripLetters (clenName.drop 1) text <;> rfl
    · rw [if_neg hc, if_neg hc]
      split_ifs <;> rfl

theorem afterName_cons : afterName
    (ch :: text) = if isBlank ch then afterName text else if ch = ':'.toUInt8 then afterColon text
      else none := by
  unfold afterName
  by_cases hb : isBlank ch = true
  · rw [if_pos hb, dropWhile_cons_of_pos hb]
  · rw [if_neg hb, dropWhile_cons_of_neg hb]

theorem afterColon_cons : afterColon (ch :: text) = if isBlank ch then afterColon text
      else if isDigit ch then clenNumberFrom (ch.toNat - 48) text else none := by
  unfold afterColon
  by_cases hb : isBlank ch = true
  · rw [if_pos hb, dropWhile_cons_of_pos hb]
  · rw [if_neg hb, dropWhile_cons_of_neg hb]

end

theorem clenNumberFrom_cons {n ch text} :
    clenNumberFrom n (ch :: text) = if isDigit ch then
      clenNumberFrom (n * 10 + (ch.toNat - 48)) text else if isClenEnd ch then some n
      else none := by
  unfold clenNumberFrom
  by_cases hd : isDigit ch = true
  · rw [if_pos hd, dropWhile_cons_of_pos hd, takeWhile_cons_of_pos hd]
    rfl
  · rw [if_neg hd, dropWhile_cons_of_neg hd, takeWhile_cons_of_neg hd]
    rfl

theorem stripLetters_bind_cons {u l letters ch text} :
    (stripLetters ((u, l) :: letters) (ch :: text)).bind afterName = if isCh u l ch then
    (stripLetters letters text).bind afterName else none := by
  rw [stripLetters]
  split_ifs <;> rfl

/-- A state in the middle of a line other than behind a number has found no number yet. -/
theorem pending_nil {s n} : pending s n [] = if s = .hContLenBodyParse then some n else none := by
  cases s <;> rfl

end SipRouter.Tcp
