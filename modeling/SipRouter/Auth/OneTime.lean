import SipRouter.Auth.Nid
import SipRouter.Lib.Bits

/-!
# One-time nonces

The table of `ot_nonce.c` has a bit for each nonce, which is cleared when the
nonce is issued and set when it is used. `otn_check_id` reads the bit with one
atomic operation and sets it with another. Two checks of a nonce that both read the bit
before either sets it are both accepted (`one_time_nonce_used_twice`).

A nonce is accepted at most once if no other check of it is between its read and
its write when a check reads the bit (`one_time_nonce_at_most_once`), and if the table keeps
up with the counter: a bit is cleared for the nonce that the slot belongs to, not
while a check of an older nonce is on its way from the counter to the bit, and no nonce is
checked after the counter has come round.
-/

namespace SipRouter.Auth

open Lib List BitVec Function

variable {C : Table} {n : Nonce}

inductive OtnCheckRet where
  | ok
  | invPool
  | idOverflow
  | replay
  deriving DecidableEq

/-- `get_otn_array_cell_idx`. -/
def otnCellIdx (pos : Nat) : Nat := pos / 32

/-- `get_otn_cell_bit`. -/
def otnCellBit (pos : Nat) : Nat := pos % 32

/-! ## The functions alone -/

def otnNew (C : Table) (id : Nid) (pool : Nat) (a : Words) : Words :=
  let n := C.part.rawIdx id pool
  let i := otnCellIdx n
  let b := otnCellBit n
  update a i (a i &&& ~~~(1#32 <<< b))

def otnCheckId (C : Table) (id : Nid) (pool : Nat) (crt : Nid) (a : Words) : OtnCheckRet × Words :=
  if C.poolNo ≤ pool then (.invPool, a)
  else if C.part.overflow crt id then (.idOverflow, a)
  else
    let n := C.part.rawIdx id pool
    let i := otnCellIdx n
    let b := otnCellBit n
    let bMask := 1#32 <<< b
    if a i &&& bMask ≠ 0#32 then (.replay, a)
    else (.ok, update a i (a i ||| bMask))

/-! ## The bits -/

/-- Bit `pos` of the table. -/
def otnBit (a : Words) (pos : Nat) : Bool := (a (otnCellIdx pos)).getLsbD (otnCellBit pos)

/-- The table with bit `pos` cleared. -/
def otnClear (a : Words) (pos : Nat) : Words :=
  update a (otnCellIdx pos) (a (otnCellIdx pos) &&& ~~~(1#32 <<< otnCellBit pos))

/-- The table with bit `pos` set. -/
def otnSet (a : Words) (pos : Nat) : Words :=
  update a (otnCellIdx pos) (a (otnCellIdx pos) ||| (1#32 <<< otnCellBit pos))

theorem otnCellBit_lt {pos} : otnCellBit pos < 32 := Nat.mod_lt pos (by decide)

theorem otnBit_otnClear {a pos pos'} :
    otnBit (otnClear a pos) pos' = (otnBit a pos' && decide (pos' ≠ pos)) :=
  Bits.bit_clear (by decide)

theorem otnBit_otnSet (a pos pos') :
    otnBit (otnSet a pos) pos' = (otnBit a pos' || decide (pos' = pos)) :=
  Bits.bit_set (by decide)

theorem otnNew_eq {C id pool a} : otnNew C id pool a = otnClear a (C.part.rawIdx id pool) := rfl

/-- A check leaves the other bits alone. -/
theorem otnBit_otnCheckId_ne {C id crt pool n a}
    (h : C.part.rawIdx id pool ≠ n) : otnBit (otnCheckId C id pool crt a).2 n = otnBit a n := by
  simp only [otnCheckId]
  split_ifs with hpool hover hused
  · rfl
  · rfl
  · rfl
  · have hset := otnBit_otnSet a (C.part.rawIdx id pool) n
    rw [decide_eq_false h.symm, Bool.or_false] at hset
    exact hset

theorem otnCheckId_ok {C id crt pool a} (hpool : pool < C.poolNo)
    (hover : C.part.overflow crt id = false) (hbit : otnBit a (C.part.rawIdx id pool) = false) :
    (otnCheckId C id pool crt a).1 = .ok := by
  simp only [otnCheckId]
  rw [if_neg (not_le.2 hpool), if_neg (by rw [hover]; decide), if_neg]
  rw [Bits.and_mask_ne_zero (otnCellBit_lt), ← otnBit, hbit]
  decide

/-! ## The functions step by step -/

/-- `accepted` are the nonces for which a check returned `OTN_OK`. -/
structure OtnState where
  nid : NidState
  otnArray : Words
  accepted : List Nonce

variable {s : OtnState}

/-- Where a process is: it has returned, it issues a nonce (`inc`, `clear`), or it checks one: before
it reads the counter (`check`), before it reads the bit (`test`) and before it sets it (`set`). -/
inductive OtnPoint where
  | returned (r : Option OtnCheckRet)
  | inc (pool : Nat)
  | clear (n : Nonce)
  | check (n : Nonce)
  | test (n : Nonce)
  | set (n : Nonce)
  deriving DecidableEq

/-- One atomic operation of `nid_inc` and `otn_new`, or of `otn_check_id`. -/
def otnStep (C : Table) : OtnPoint → OtnState → OtnPoint × OtnState
  | .returned r, s => (.returned r, s)
  | .inc pool, s => (.clear (s.nid.inc pool).1, { s with nid := (s.nid.inc pool).2 })
  | .clear n, s =>
    (.returned none, { s with nid := s.nid.give n, otnArray := otnClear s.otnArray (C.pos n) })
  | .check n, s =>
    if C.poolNo ≤ n.pool then (.returned (some .invPool), s)
    else if C.part.overflow (s.nid.crt n.pool) n.id then (.returned (some .idOverflow), s)
    else (.test n, s)
  | .test n, s =>
    if s.otnArray (otnCellIdx (C.pos n)) &&& (1#32 <<< otnCellBit (C.pos n)) ≠ 0#32 then
      (.returned (some .replay), s)
    else (.set n, s)
  | .set n, s =>
    (.returned (some .ok),
      { s with otnArray := otnSet s.otnArray (C.pos n), accepted := s.accepted ++ [n] })

def OtnPoint.isReturned : OtnPoint → Bool
  | .returned _ => true
  | _ => false

/-- A process issues a nonce in one of the pools, or checks a nonce that was handed out. -/
def otnEntry (C : Table) : OtnPoint → OtnState → Bool
  | .inc pool, _ => pool < C.poolNo
  | .check n, s => n ∈ s.nid.known
  | _, _ => false

def otnThreads (C : Table) : Threads OtnPoint OtnState where
  code := otnStep C
  returned := OtnPoint.isReturned
  entry := otnEntry C

/-- The start: every bit is set, so that no nonce is accepted before it is issued. -/
def otnInit {ι : Type} (start : Nat → Nid) : System ι OtnPoint OtnState where
  shared := ⟨.init start, fun _ => BitVec.allOnes 32, []⟩
  point _ := .returned none

/-- A check that is not disturbed does what `otnCheckId` says. -/
theorem otn_alone_check : ∃ s', (otnThreads C).alone 3 (.check n) s =
        (.returned (some (otnCheckId C n.id n.pool (s.nid.crt n.pool) s.otnArray).1), s') ∧
      s'.otnArray = (otnCheckId C n.id n.pool (s.nid.crt n.pool) s.otnArray).2 := by
  simp only [Threads.alone, otnThreads, otnStep, otnCheckId, Table.pos]
  by_cases hpool : C.poolNo ≤ n.pool
  · exact ⟨s, by simp [hpool], by simp [hpool]⟩
  by_cases hover : C.part.overflow (s.nid.crt n.pool) n.id
  · exact ⟨s, by simp [hpool, hover], by simp [hpool, hover]⟩
  simp only [hpool, hover, if_false, Bool.false_eq_true]
  split_ifs with hused
  · exact ⟨s, by simp [hused], rfl⟩
  · exact ⟨{ s with otnArray := otnSet s.otnArray (C.pos n), accepted := s.accepted ++ [n] },
      by simp [hused, Table.pos], rfl⟩

theorem otn_alone_new : ∃ s', (otnThreads C).alone 1 (.clear n) s = (.returned none, s') ∧
      s'.otnArray = otnNew C n.id n.pool s.otnArray :=
  ⟨_, rfl, rfl⟩

/-! ## Any number of processes -/

/-- The nonces that were accepted: each once, and its bit stays set until the slot belongs to another
nonce. -/
structure OtnState.Once (C : Table) (start : Nat → Nid) (s : OtnState) : Prop where
  nid : s.nid.Ok start
  known : ∀ n ∈ s.accepted, n ∈ s.nid.known
  nodup : s.accepted.Nodup
  used : ∀ n ∈ s.accepted, otnBit s.otnArray (C.pos n) = true ∨ n.no + C.part.size ≤ s.nid.issued n.pool

/-- The nonce that a process issues. -/
def OtnPoint.issuing : OtnPoint → Option Nonce
  | .clear n => some n
  | _ => none

/-- The nonce that a process has found unused. -/
def OtnPoint.setting : OtnPoint → Option Nonce
  | .set n => some n
  | _ => none

/-- What a process knows where it is. -/
def OtnPoint.At (C : Table) (start : Nat → Nid) : OtnPoint → OtnState → Prop
  | .returned _, _ => True
  | .inc _, _ => True
  | .clear n, s => s.nid.Issued start n ∧ n ∉ s.nid.known
  | .check n, s => n ∈ s.nid.known
  | .test n, s => n ∈ s.nid.known ∧ (n ∈ s.accepted → otnBit s.otnArray (C.pos n) = true)
  | .set n, s => n ∈ s.nid.known ∧ n ∉ s.accepted

def otnOutline (C : Table) (start : Nat → Nid) : Outline OtnPoint OtnState where
  G := OtnState.Once C start
  L := OtnPoint.At C start
  M k j := (∀ n m, k.issuing = some n → j.issuing = some m → n ≠ m) ∧
    ∀ n m, k.setting = some n → j.setting = some m → n ≠ m

/-- Two checks of a nonce do not overlap between the test of its bit and the write, a bit is cleared
for the nonce in flight and not under a check that has passed the counter, and the
counter has not come round when it is compared with an id. -/
def checksApart (C : Table) : Cond OtnPoint OtnState where
  own k s :=
    match k with
    | .clear n => s.nid.InFlight C.part n
    | .check n => 257 * (s.nid.issued n.pool - n.no) < 2 ^ 32
    | _ => true
  beside k j :=
    match k, j with
    | .clear n, .test m => C.pos n ≠ C.pos m
    | .test n, .set m => n ≠ m
    | _, _ => true

section Outline

variable {C : Table} {start : Nat → Nid} {s s' : OtnState} {k j : OtnPoint} {n m : Nonce}

section

variable (h : s.Once C start)

include h

theorem OtnState.Once.inc (pool : Nat) : OtnState.Once C start { s with nid := (s.nid.inc pool).2 } where
  nid := h.nid.inc pool
  known := h.known
  nodup := h.nodup
  used n hn := by
    rcases h.used n hn with hbit | hold
    · exact .inl hbit
    · exact .inr (hold.trans (NidState.issued_le_inc s.nid pool n.pool))

/-- A bit that is cleared for a nonce in flight is not needed for an older one any more. -/
theorem OtnState.Once.clear (hn : s.nid.Issued start n) (hnew : n ∉ s.nid.known) (hfl : s.nid.InFlight C.part n) :
    OtnState.Once C start { s with nid := s.nid.give n, otnArray := otnClear s.otnArray (C.pos n) } where
  nid := h.nid.give hn
  known m hm := mem_cons_of_mem n (h.known m hm)
  nodup := h.nodup
  used m hm := by
    have hiss := h.nid.known m (h.known m hm)
    rcases h.used m hm with hbit | hold
    · rcases eq_or_ne (C.pos m) (C.pos n) with hpos | hpos
      · right
        have hpool := Partition.rawIdx_pool hpos
        have hne : m ≠ n := fun heq => hnew (heq ▸ h.known m hm)
        by_contra hlt
        have hmn : n.no < m.no + C.part.size := by
          have hle := hn.le
          rw [← hpool] at hle
          exact Nat.lt_of_le_of_lt hle (Nat.lt_of_not_le hlt)
        have hnm := Nat.lt_of_le_of_lt (hpool ▸ hiss.le) hfl
        exact NidState.slot_ne hiss.of hn.of hne hnm hmn hpos
      · left
        simp [otnBit_otnClear, hbit, hpos]
    · exact .inr hold

theorem OtnState.Once.set (hn : n ∈ s.nid.known) (hfree : n ∉ s.accepted) : OtnState.Once C start
      { s with otnArray := otnSet s.otnArray (C.pos n), accepted := s.accepted ++ [n] } where
  nid := h.nid
  known m hm := by
    rcases mem_append.1 hm with hm | hm
    · exact h.known m hm
    · rw [mem_singleton.1 hm]
      exact hn
  nodup := by
    rw [nodup_append]
    refine ⟨h.nodup, nodup_singleton n, ?_⟩
    intro a ha b hb heq
    rw [mem_singleton.1 hb] at heq
    exact hfree (heq ▸ ha)
  used m hm := by
    rcases mem_append.1 hm with hm | hm
    · rcases h.used m hm with hbit | hold
      · left
        simp [otnBit_otnSet, hbit]
      · exact .inr hold
    · left
      rw [mem_singleton.1 hm]
      simp [otnBit_otnSet]

theorem OtnState.Once.step (hk : k.At C start s) (hc : (checksApart C).own k s) : (otnStep C k s).2.Once C start := by
  cases k with
  | returned r => exact h
  | inc pool => exact h.inc pool
  | clear n => exact h.clear hk.1 hk.2 (of_decide_eq_true hc)
  | check n | test n =>
    simp only [otnStep]
    split_ifs <;> exact h
  | set n => exact h.set hk.1 hk.2

theorem OtnPoint.At.own (hk : k.At C start s) (hc : (checksApart C).own k s) :
    (otnStep C k s).1.At C start (otnStep C k s).2 := by
  cases k with
  | returned r | clear n | set n => trivial
  | inc pool =>
    refine ⟨h.nid.issued_inc, fun hmem => ?_⟩
    exact (h.nid.known _ hmem).ne_inc rfl
  | check n =>
    simp only [otnStep]
    split_ifs with hpool hover
    · trivial
    · trivial
    · -- an accepted nonce whose slot has gone to another one would have been too old
      refine ⟨hk, fun hacc => (h.used n hacc).resolve_right fun hold => hover ?_⟩
      have hiss := h.nid.known n hk
      rw [h.nid.crt, hiss.of]
      exact (C.part.overflow_iff (start n.pool) hiss.le (of_decide_eq_true hc)).2 hold
  | test n =>
    simp only [otnStep]
    split_ifs with hused
    · trivial
    · refine ⟨hk.1, fun hacc => hused ?_⟩
      exact (Bits.and_mask_ne_zero (otnCellBit_lt)).2 (hk.2 hacc)

end

/-- What the other processes know survives a step. -/
theorem OtnPoint.At.other (hj : j.At C start s) (hkj : (otnOutline C start).M k j)
    (hc : (checksApart C).beside k j) : j.At C start (otnStep C k s).2 := by
  cases k with
  | returned r => exact hj
  | inc pool =>
    cases j with
    | returned r | inc pool' => trivial
    | clear m => exact ⟨hj.1.inc pool, hj.2⟩
    | check m | test m | set m => exact hj
  | clear n =>
    cases j with
    | returned r | inc pool' => trivial
    | clear m =>
      refine ⟨hj.1.give n, fun hmem => ?_⟩
      rcases mem_cons.1 hmem with rfl | hmem
      · exact hkj.1 m m rfl rfl rfl
      · exact hj.2 hmem
    | check m => exact mem_cons_of_mem n hj
    | test m =>
      refine ⟨mem_cons_of_mem n hj.1, fun hacc => ?_⟩
      have hpos := of_decide_eq_true hc
      simp [otnStep, otnBit_otnClear, hj.2 hacc, hpos.symm]
    | set m => exact ⟨mem_cons_of_mem n hj.1, hj.2⟩
  | check n | test n =>
    simp only [otnStep]
    split_ifs <;> exact hj
  | set n =>
    cases j with
    | returned r | inc pool' => trivial
    | clear m | check m => exact hj
    | test m =>
      refine ⟨hj.1, fun hacc => ?_⟩
      rcases mem_append.1 hacc with hacc | hacc
      · simp [otnStep, otnBit_otnSet, hj.2 hacc]
      · rw [mem_singleton.1 hacc]
        simp [otnStep, otnBit_otnSet]
    | set m =>
      refine ⟨hj.1, fun hacc => ?_⟩
      rcases mem_append.1 hacc with hacc | hacc
      · exact hj.2 hacc
      · exact hkj.2 n m rfl rfl (mem_singleton.1 hacc).symm

theorem issuing_otnStep (hn : (otnStep C k s).1.issuing = some n) :
    ∃ pool, k = .inc pool ∧ n = (s.nid.inc pool).1 := by
  cases k with
  | inc pool => exact ⟨pool, rfl, (Option.some.inj hn).symm⟩
  | returned r | clear m | set m => cases hn
  | check m | test m =>
    simp only [otnStep] at hn
    split_ifs at hn <;> cases hn

theorem setting_otnStep (hn : (otnStep C k s).1.setting = some n) : k = .test n := by
  cases k with
  | inc pool | returned r | clear m | set m => cases hn
  | check m =>
    simp only [otnStep] at hn
    split_ifs at hn <;> cases hn
  | test m =>
    simp only [otnStep] at hn
    split_ifs at hn
    · cases hn
    · cases hn
      rfl

theorem otnOutline_valid : (otnOutline C start).Valid (otnThreads C) (checksApart C) where
  symm h := ⟨fun n m hn hm heq => h.1 m n hm hn heq.symm, fun n m hn hm heq => h.2 m n hm hn heq.symm⟩
  entry_at {k s} _ hk := by
    cases k with
    | inc pool => trivial
    | check n =>
      have hmem := of_decide_eq_true hk
      exact hmem
    | _ => cases hk
  entry_pair {k j s} hk := by
    cases k with
    | inc pool | check n => exact ⟨fun _ _ hn => (nomatch hn), fun _ _ hn => nomatch hn⟩
    | _ => cases hk
  keep h hk hc := h.step hk hc
  own h hk hc := .own h hk hc
  other _ _ hj hkj _ hc := .other hj hkj hc
  pair {k j s} _ _ hj hkj _ hc := by
    constructor
    · intro n m hn hm
      obtain ⟨pool, rfl, rfl⟩ := issuing_otnStep hn
      cases j with
      | clear m' =>
        cases hm
        exact (hj.1.ne_inc).symm
      | _ => cases hm
    · intro n m hn hm
      obtain rfl := setting_otnStep hn
      cases j with
      | set m' =>
        cases hm
        exact of_decide_eq_true hc
      | _ => cases hm

theorem otnOutline_init {ι : Type} : (otnOutline C start).Holds (otnInit start : System ι OtnPoint OtnState) where
  inv :=
    { nid := NidState.ok_init
      known := fun _ hn => nomatch hn
      nodup := nodup_nil
      used := fun _ hn => nomatch hn }
  at_point _ := trivial
  pair _ _ _ := ⟨fun _ _ hn => (nomatch hn), fun _ _ hn => nomatch hn⟩

end Outline

/-! ## At most once -/

/-- One pool with 64 slots. -/
def otnSmall : Table := ⟨1, 6, by decide⟩

def otnFirst : Nonce := ⟨0, 257#32, 1⟩

/-- Process 0 issues a nonce. -/
def otnIssue : List (Act (Fin 2) OtnPoint) := [.call p0 (.inc 0), .go p0, .go p0]

/-- Both processes are called to check it. -/
def otnCheckBoth : List (Act (Fin 2) OtnPoint) := [.call p0 (.check otnFirst), .call p1 (.check otnFirst)]

/-- In every run in which the checks are kept apart, at most one check of a nonce returns `OTN_OK`. -/
theorem one_time_nonce_at_most_once {ι : Type} [DecidableEq ι] {C : Table} {start : Nat → Nid}
    {s : System ι OtnPoint OtnState}
    (h : Reach (otnThreads C) (checksApart C) (otnInit start) s) (n : Nonce) :
    s.shared.accepted.count n ≤ 1 :=
  nodup_iff_count_le_one.1
    (h.safe (otnOutline_valid) (otnOutline_init)).inv.nodup n

theorem one_time_nonce_at_most_once_otnFirst :
    ((otnInit fun _ => 0#32).play (otnThreads otnSmall)
      (otnIssue ++ otnCheckBoth ++ [.go 0, .go 1, .go 0, .go 0, .go 1])).point 1 =
        .returned (some .replay) ∧
    ((otnInit fun _ => 0#32).play (otnThreads otnSmall)
      (otnIssue ++ otnCheckBoth ++ [.go 0, .go 1, .go 0, .go 0, .go 1])).shared.accepted.count
        otnFirst ≤ 1 :=
  ⟨by decide, one_time_nonce_at_most_once (Reach.start.play _ (by decide)) otnFirst⟩

/-- Two processes read the bit before either of them sets it, and both return `OTN_OK`. -/
theorem one_time_nonce_used_twice :
    ∃ s : System (Fin 2) OtnPoint OtnState,
      Reach (otnThreads otnSmall) .none (otnInit fun _ => 0#32) s ∧
      s.point 0 = .returned (some .ok) ∧ s.point 1 = .returned (some .ok) ∧
      s.shared.accepted.count otnFirst = 2 :=
  ⟨_, Reach.start.play
    (otnIssue ++ otnCheckBoth ++ [.go 0, .go 1, .go 0, .go 1, .go 0, .go 1]) (by decide),
    by decide, by decide, by decide⟩

end SipRouter.Auth
