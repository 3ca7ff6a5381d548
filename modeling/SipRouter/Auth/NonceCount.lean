import SipRouter.Auth.Nid

/-!
# Nonce counts

The table of `nc.c` keeps the last nonce count that was seen of each nonce, one
byte of four in a word. A byte is written by a compare-and-exchange of its word,
tried again until no other process has changed the word in between.

A count is accepted by the exchange that stores it. While the nonce is in flight its byte
only grows, so its accepted counts do too (`nonce_count_replay_safe`), provided
that `nc_new` resets the byte before the slot belongs to a later nonce. Nothing in the
code sees to that: a process that is held up between `nid_inc` and `nc_new` resets
the byte of a nonce that is in use (`late_reset_accepts_again`).
-/

namespace SipRouter.Auth

open Lib Lib.Packed List Function

variable {C : Table} {n : Nonce}

inductive NcCheckRet where
  | ok
  | invPool
  | idOverflow
  | tooBig
  | replay
  deriving DecidableEq

/-- `get_nc_array_uint_idx`. -/
def ncUintIdx (pos : Nat) : Nat := pos / 4

/-- `get_nc_int_pos`. -/
def ncIntPos (pos : Nat) : Nat := pos % 4

/-! ## The functions alone -/

def ncNew (C : Table) (id : Nid) (pool : Nat) (a : Words) : Words :=
  let n := C.part.rawIdx id pool
  let i := ncUintIdx n
  let r := ncIntPos n
  update a i (clear 8 r (a i))

def ncCheckVal (C : Table) (id : Nid) (pool : Nat) (nc : BitVec 32) (crt : Nid) (a : Words) :
    NcCheckRet × Words :=
  if C.poolNo ≤ pool then (.invPool, a)
  else if C.part.overflow crt id then (.idOverflow, a)
  else if 256#32 ≤ nc then (.tooBig, a)
  else
    let n := C.part.rawIdx id pool
    let i := ncUintIdx n
    let r := ncIntPos n
    if nc ≤ field 8 r (a i) then (.replay, a)
    else (.ok, update a i (put 8 r (a i) nc))

theorem ncNew_eq {C id pool a} : ncNew C id pool a = store 8 a (C.part.rawIdx id pool) 0#32 := by
  rw [store, put_zero]
  rfl

/-- A check leaves the other bytes alone. -/
theorem slot_ncCheckVal_ne {C id crt pool n nc a}
    (h : C.part.rawIdx id pool ≠ n) : slot 8 (ncCheckVal C id pool nc crt a).2 n = slot 8 a n := by
  simp only [ncCheckVal]
  split_ifs with hpool hover hbig hseen
  · rfl
  · rfl
  · rfl
  · rfl
  · exact slot_store_ne (BitVec.not_le.1 hbig) h

theorem ncCheckVal_ok {C : Table} {id crt : Nid} {pool : Nat} {nc : BitVec 32} {a : Words}
    (hpool : pool < C.poolNo) (hover : C.part.overflow crt id = false) (hnc : nc < 256#32)
    (hnew : slot 8 a (C.part.rawIdx id pool) < nc) : (ncCheckVal C id pool nc crt a).1 = .ok := by
  simp only [ncCheckVal]
  rw [if_neg (not_le.2 hpool), if_neg (by rw [hover]; decide), if_neg (BitVec.not_le.2 hnc), if_neg]
  exact BitVec.not_le.2 hnew

/-! ## The functions step by step -/

/-- A count that was accepted, and whether its nonce was in flight then. -/
structure NcAccept where
  nonce : Nonce
  nc : BitVec 32
  inFlight : Bool
  deriving DecidableEq

structure NcState where
  nid : NidState
  ncArray : Words
  accepted : List NcAccept

variable {s : NcState}

/-- Where a process is: it has returned, it issues a nonce (`inc`, `newGet`, `newSet`), or it checks
a count (`check`, `get`, `set`). `v` is the word that it has read. -/
inductive NcPoint where
  | returned (r : Option NcCheckRet)
  | inc (pool : Nat)
  | newGet (n : Nonce)
  | newSet (n : Nonce) (v : BitVec 32)
  | check (n : Nonce) (nc : BitVec 32)
  | get (n : Nonce) (nc : BitVec 32)
  | set (n : Nonce) (nc v : BitVec 32)
  deriving DecidableEq

/-- The word with the byte of the nonce. -/
def Table.word (C : Table) (s : NcState) (n : Nonce) : BitVec 32 :=
  s.ncArray (ncUintIdx (C.pos n))

/-- The exchange of `nc_new`. -/
def NcState.reset (C : Table) (s : NcState) (n : Nonce) (v : BitVec 32) : NcState :=
  { s with
    nid := s.nid.give n
    ncArray := update s.ncArray (ncUintIdx (C.pos n)) (clear 8 (ncIntPos (C.pos n)) v) }

/-- The exchange of `nc_check_val`. -/
def NcState.accept (C : Table) (s : NcState) (n : Nonce) (nc v : BitVec 32) : NcState :=
  { s with
    ncArray := update s.ncArray (ncUintIdx (C.pos n)) (put 8 (ncIntPos (C.pos n)) v nc)
    accepted := s.accepted ++ [⟨n, nc, s.nid.InFlight C.part n⟩] }

/-- One atomic operation of `nid_inc` and `nc_new`, or of `nc_check_val`. -/
def ncStep (C : Table) : NcPoint → NcState → NcPoint × NcState
  | .returned r, s => (.returned r, s)
  | .inc pool, s => (.newGet (s.nid.inc pool).1, { s with nid := (s.nid.inc pool).2 })
  | .newGet n, s => (.newSet n (C.word s n), s)
  | .newSet n v, s =>
    if C.word s n = v then (.returned none, s.reset C n v) else (.newGet n, s)
  | .check n nc, s =>
    if C.poolNo ≤ n.pool then (.returned (some .invPool), s)
    else if C.part.overflow (s.nid.crt n.pool) n.id then (.returned (some .idOverflow), s)
    else if 256#32 ≤ nc then (.returned (some .tooBig), s)
    else (.get n nc, s)
  | .get n nc, s =>
    -- the loop of `nc_check_val` starts again here when the exchange fails
    if nc ≤ field 8 (ncIntPos (C.pos n)) (C.word s n) then (.returned (some .replay), s)
    else (.set n nc (C.word s n), s)
  | .set n nc v, s =>
    if C.word s n = v then (.returned (some .ok), s.accept C n nc v) else (.get n nc, s)

def NcPoint.isReturned : NcPoint → Bool
  | .returned _ => true
  | _ => false

/-- A process issues a nonce in one of the pools, or checks a nonce that was handed out. -/
def ncEntry (C : Table) : NcPoint → NcState → Bool
  | .inc pool, _ => pool < C.poolNo
  | .check n _, s => n ∈ s.nid.known
  | _, _ => false

def ncThreads (C : Table) : Threads NcPoint NcState where
  code := ncStep C
  returned := NcPoint.isReturned
  entry := ncEntry C

/-- The start: every byte is at its maximum, so that no count is accepted before a reset. -/
def ncInit {ι : Type} (start : Nat → Nid) : System ι NcPoint NcState where
  shared := ⟨.init start, fun _ => BitVec.allOnes 32, []⟩
  point _ := .returned none

/-- A check that is not disturbed does what `ncCheckVal` says. -/
theorem alone_check {nc} : ∃ s', (ncThreads C).alone 3 (.check n nc) s =
        (.returned (some (ncCheckVal C n.id n.pool nc (s.nid.crt n.pool) s.ncArray).1), s') ∧
      s'.ncArray = (ncCheckVal C n.id n.pool nc (s.nid.crt n.pool) s.ncArray).2 := by
  simp only [Threads.alone, ncThreads, ncStep, ncCheckVal, Table.word, Table.pos]
  by_cases hpool : C.poolNo ≤ n.pool
  · exact ⟨s, by simp [hpool], by simp [hpool]⟩
  by_cases hover : C.part.overflow (s.nid.crt n.pool) n.id
  · exact ⟨s, by simp [hpool, hover], by simp [hpool, hover]⟩
  by_cases hbig : 256#32 ≤ nc
  · exact ⟨s, by simp [hpool, hover, hbig], by simp [hpool, hover, hbig]⟩
  simp only [hpool, hover, hbig, if_false, Bool.false_eq_true]
  split_ifs with hseen
  · exact ⟨s, by simp [hseen], rfl⟩
  · exact ⟨s.accept C n nc (C.word s n), by simp [hseen, Table.word, Table.pos], rfl⟩

theorem alone_new : ∃ s', (ncThreads C).alone 2 (.newGet n) s = (.returned none, s') ∧
      s'.ncArray = ncNew C n.id n.pool s.ncArray :=
  ⟨s.reset C n (C.word s n), by simp [Threads.alone, ncThreads, ncStep], rfl⟩

/-! ## Counters -/

section Counters

variable {C : Table} {start : Nat → Nid} {s : NcState} {n m : Nonce} {nc v : BitVec 32}

/-- The byte that is stored for the nonce. -/
def Table.counter (C : Table) (s : NcState) (n : Nonce) : BitVec 32 :=
  slot 8 s.ncArray (C.pos n)

/-- The counts of the nonce that were accepted while it was in flight, in their order. -/
def NcState.counts (s : NcState) (n : Nonce) : List (BitVec 32) :=
  (s.accepted.filter fun e => e.nonce = n ∧ e.inFlight = true).map (·.nc)

section

variable (hv : C.word s n = v)

include hv

/-- An exchange that finds the word it has read writes one byte. -/
theorem ncArray_reset : (s.reset C n v).ncArray = store 8 s.ncArray (C.pos n) 0#32 := by
  subst hv
  rw [store, put_zero]
  rfl

theorem ncArray_accept : (s.accept C n nc v).ncArray = store 8 s.ncArray (C.pos n) nc := by
  subst hv
  rfl

theorem counter_reset (h : C.pos n ≠ C.pos m) : C.counter (s.reset C n v) m = C.counter s m := by
  rw [Table.counter, ncArray_reset hv, slot_store_ne (by decide) h]
  rfl

theorem counter_accept_self (hnc : nc < 256#32) (h : C.pos n = C.pos m) : C.counter (s.accept C n nc v) m = nc := by
  rw [Table.counter, ncArray_accept hv, ← h, slot_store_self (by decide) (by decide) hnc]

theorem counter_accept_ne (hnc : nc < 256#32) (h : C.pos n ≠ C.pos m) :
    C.counter (s.accept C n nc v) m = C.counter s m := by
  rw [Table.counter, ncArray_accept hv, slot_store_ne hnc h]
  rfl

end

theorem counts_accept_self (h : s.nid.InFlight C.part n) : (s.accept C n nc v).counts n = s.counts n ++ [nc] := by
  simp [NcState.accept, NcState.counts, filter_append, h]

theorem counts_accept_of_not (h : ¬ (n = m ∧ s.nid.InFlight C.part n)) :
    (s.accept C n nc v).counts m = s.counts m := by
  simp only [NcState.accept, NcState.counts, filter_append, map_append]
  simp [h]

/-- What holds of the shared state: the counts that were accepted of a nonce in flight grow, up to
its byte. -/
structure NcState.Grows (C : Table) (start : Nat → Nid) (s : NcState) : Prop where
  nid : s.nid.Ok start
  known : ∀ e ∈ s.accepted, e.nonce ∈ s.nid.known
  sorted : ∀ n, (s.counts n).Pairwise (· < ·)
  le : ∀ n ∈ s.nid.known, s.nid.InFlight C.part n → ∀ x ∈ s.counts n, x ≤ C.counter s n

theorem NcState.Grows.counts_eq_nil (h : s.Grows C start) (hn : n ∉ s.nid.known) : s.counts n = [] := by
  rw [NcState.counts, map_eq_nil_iff, filter_eq_nil_iff]
  intro e he hen
  simp only [decide_eq_true_eq] at hen
  exact hn (hen.1 ▸ h.known e he)

theorem NcState.Grows.inc (h : s.Grows C start) (pool : Nat) :
    NcState.Grows C start { s with nid := (s.nid.inc pool).2 } where
  nid := h.nid.inc pool
  known := h.known
  sorted := h.sorted
  le n hn hfl := h.le n hn hfl.of_inc

/-- Two nonces in flight have different bytes. -/
theorem pos_ne_of_inFlight (hn : s.nid.Issued start n) (hm : s.nid.Issued start m) (hne : n ≠ m)
    (hfn : s.nid.InFlight C.part n) (hfm : s.nid.InFlight C.part m) : C.pos n ≠ C.pos m := by
  intro hpos
  have hpool := Partition.rawIdx_pool hpos
  have hnm := Nat.lt_of_le_of_lt (hpool ▸ hn.le) hfm
  have hmn := Nat.lt_of_le_of_lt (hpool ▸ hm.le) hfn
  exact NidState.slot_ne hn.of hm.of hne hnm hmn hpos

/-- A reset for a new nonce that is in flight spares the nonces that are in use. -/
theorem NcState.Grows.reset (h : s.Grows C start) (hn : s.nid.Issued start n)
    (hnew : n ∉ s.nid.known) (hfl : s.nid.InFlight C.part n) (hv : C.word s n = v) :
    (s.reset C n v).Grows C start where
  nid := h.nid.give hn
  known e he := mem_cons_of_mem n (h.known e he)
  sorted := h.sorted
  le m hm hfm x hx := by
    rcases mem_cons.1 hm with rfl | hm
    · have hnil := h.counts_eq_nil hnew
      change x ∈ s.counts m at hx
      rw [hnil] at hx
      cases hx
    · have hne : n ≠ m := fun heq => hnew (heq ▸ hm)
      have hpos := pos_ne_of_inFlight hn (h.nid.known m hm) hne hfl hfm
      rw [counter_reset hv hpos]
      exact h.le m hm hfm x hx

/-- A count that is accepted is above all that were accepted of its nonce in flight. -/
theorem NcState.Grows.accept (h : s.Grows C start) (hn : n ∈ s.nid.known) (hnc : nc < 256#32)
    (hlt : C.counter s n < nc) (hv : C.word s n = v) : (s.accept C n nc v).Grows C start where
  nid := h.nid
  known e he := by
    rcases mem_append.1 he with he | he
    · exact h.known e he
    · rw [mem_singleton.1 he]
      exact hn
  sorted m := by
    by_cases hm : n = m ∧ s.nid.InFlight C.part n
    · obtain ⟨rfl, hfl⟩ := hm
      rw [counts_accept_self hfl, pairwise_append]
      refine ⟨h.sorted n, pairwise_singleton _ _, ?_⟩
      intro x hx y hy
      rw [mem_singleton.1 hy]
      exact Nat.lt_of_le_of_lt (h.le n hn hfl x hx) hlt
    · rw [counts_accept_of_not hm]
      exact h.sorted m
  le m hm hfm x hx := by
    by_cases hpos : C.pos n = C.pos m
    · rw [counter_accept_self hv hnc hpos]
      have hold : ∀ y ∈ s.counts m, y ≤ nc := by
        intro y hy
        have hle := h.le m hm hfm y hy
        rw [Table.counter, ← hpos] at hle
        exact Nat.le_of_lt (Nat.lt_of_le_of_lt hle hlt)
      by_cases hnm : n = m ∧ s.nid.InFlight C.part n
      · obtain ⟨rfl, hfl⟩ := hnm
        rw [counts_accept_self hfl, mem_append] at hx
        rcases hx with hx | hx
        · exact hold x hx
        · rw [mem_singleton.1 hx]
          exact BitVec.le_refl nc
      · rw [counts_accept_of_not hnm] at hx
        exact hold x hx
    · rw [counter_accept_ne hv hnc hpos]
      rw [counts_accept_of_not (fun hnm => hpos (congrArg C.pos hnm.1))] at hx
      exact h.le m hm hfm x hx

end Counters

/-! ## Any number of processes -/

/-- The nonce that a process issues. -/
def NcPoint.issuing : NcPoint → Option Nonce
  | .newGet n => some n
  | .newSet n _ => some n
  | _ => none

/-- The nonce that a process issues or checks. -/
def NcPoint.nonce : NcPoint → Option Nonce
  | .returned _ => none
  | .inc _ => none
  | .newGet n => some n
  | .newSet n _ => some n
  | .check n _ => some n
  | .get n _ => some n
  | .set n _ _ => some n

/-- What a process knows where it is. That the word it has read holds a smaller count is about the
word, not about the table, so no other process can spoil it. -/
def NcPoint.At (C : Table) (start : Nat → Nid) : NcPoint → NcState → Prop
  | .returned _, _ => True
  | .inc _, _ => True
  | .newGet n, s => s.nid.Issued start n ∧ n ∉ s.nid.known
  | .newSet n _, s => s.nid.Issued start n ∧ n ∉ s.nid.known
  | .check n _, s => n ∈ s.nid.known
  | .get n nc, s => n ∈ s.nid.known ∧ nc < 256#32
  | .set n nc v, s => n ∈ s.nid.known ∧ nc < 256#32 ∧ field 8 (ncIntPos (C.pos n)) v < nc

def ncOutline (C : Table) (start : Nat → Nid) : Outline NcPoint NcState where
  G := NcState.Grows C start
  L := NcPoint.At C start
  M k j := ∀ n m, k.issuing = some n → j.issuing = some m → n ≠ m

/-- `nc_new` stores the zero while its nonce is in flight. -/
def resetInFlight (C : Table) : Cond NcPoint NcState where
  own k s :=
    match k with
    | .newSet n _ => s.nid.InFlight C.part n
    | _ => true

section Outline

variable {C : Table} {start : Nat → Nid} {s s' : NcState} {k j : NcPoint}

/-- The ways in which a step changes the shared state. -/
inductive NcChange (C : Table) (s : NcState) : NcPoint → NcState → Prop
  | none {k : NcPoint} : NcChange C s k s
  | inc {pool : Nat} : NcChange C s (.inc pool) { s with nid := (s.nid.inc pool).2 }
  | reset {n : Nonce} {v : BitVec 32} (h : C.word s n = v) :
      NcChange C s (.newSet n v) (s.reset C n v)
  | accept {n : Nonce} {nc v : BitVec 32} (h : C.word s n = v) :
      NcChange C s (.set n nc v) (s.accept C n nc v)

theorem ncStep_change (C k s) : NcChange C s k (ncStep C k s).2 := by
  cases k with
  | returned r | newGet n => exact .none
  | inc pool => exact .inc
  | newSet n v =>
    simp only [ncStep]
    split_ifs with h
    · exact .reset h
    · exact .none
  | check n nc | get n nc =>
    simp only [ncStep]
    split_ifs <;> exact .none
  | set n nc v =>
    simp only [ncStep]
    split_ifs with h
    · exact .accept h
    · exact .none

theorem NcState.Grows.step (h : s.Grows C start) (hk : k.At C start s)
    (hc : (resetInFlight C).own k s) : (ncStep C k s).2.Grows C start := by
  have hchange := ncStep_change C k s
  generalize (ncStep C k s).2 = s' at hchange ⊢
  cases hchange with
  | none => exact h
  | inc => exact h.inc _
  | reset hv => exact h.reset hk.1 hk.2 (of_decide_eq_true hc) hv
  | accept hv =>
    subst hv
    exact h.accept hk.1 hk.2.1 hk.2.2 rfl

/-- What a process knows survives if the nonce that it issues stays unknown to the others. -/
theorem NcPoint.At.mono (h : j.At C start s)
    (hiss : ∀ n, s.nid.Issued start n → s'.nid.Issued start n)
    (hknown : ∀ n ∈ s.nid.known, n ∈ s'.nid.known)
    (hnew : ∀ n, j.issuing = some n → n ∉ s.nid.known → n ∉ s'.nid.known) : j.At C start s' := by
  cases j with
  | returned r | inc pool => trivial
  | newGet n | newSet n v => exact ⟨hiss n h.1, hnew n rfl h.2⟩
  | check n nc => exact hknown n h
  | get n nc | set n nc v => exact ⟨hknown n h.1, h.2⟩

theorem NcPoint.At.other (hj : j.At C start s) (hkj : (ncOutline C start).M k j) : j.At C start (ncStep C k s).2 := by
  have hchange := ncStep_change C k s
  generalize (ncStep C k s).2 = s' at hchange ⊢
  cases hchange with
  | none => exact hj
  | inc => exact hj.mono (fun n hn => hn.inc _) (fun n hn => hn) fun n _ hn => hn
  | @reset n v _ =>
    refine hj.mono (fun m hm => hm.give n) (fun m hm => mem_cons_of_mem n hm) ?_
    intro m hm hnew hmem
    rcases mem_cons.1 hmem with rfl | hmem
    · exact hkj m m rfl hm rfl
    · exact hnew hmem
  | accept _ => exact hj.mono (fun n hn => hn) (fun n hn => hn) fun n _ hn => hn

theorem NcPoint.At.own (h : s.Grows C start) (hk : k.At C start s) : (ncStep C k s).1.At C start (ncStep C k s).2 := by
  cases k with
  | returned r => trivial
  | inc pool =>
    refine ⟨h.nid.issued_inc, fun hmem => ?_⟩
    exact (h.nid.known _ hmem).ne_inc rfl
  | newGet n => exact hk
  | newSet n v =>
    simp only [ncStep]
    split_ifs
    · trivial
    · exact hk
  | check n nc =>
    simp only [ncStep]
    split_ifs with hpool hover hbig
    · trivial
    · trivial
    · trivial
    · exact ⟨hk, BitVec.not_le.1 hbig⟩
  | get n nc =>
    simp only [ncStep]
    split_ifs with hseen
    · trivial
    · exact ⟨hk.1, hk.2, BitVec.not_le.1 hseen⟩
  | set n nc v =>
    simp only [ncStep]
    split_ifs
    · trivial
    · exact ⟨hk.1, hk.2.1⟩

/-- A step goes on issuing the same nonce, starts with a new one or issues none. -/
theorem issuing_step (hn : (ncStep C k s).1.issuing = some n) :
    k.issuing = some n ∨ ∃ pool, k = .inc pool ∧ n = (s.nid.inc pool).1 := by
  cases k with
  | returned r => cases hn
  | inc pool => exact .inr ⟨pool, rfl, (Option.some.inj hn).symm⟩
  | newGet m => exact .inl hn
  | newSet m v =>
    simp only [ncStep] at hn
    split_ifs at hn
    · cases hn
    · exact .inl hn
  | check m nc | get m nc | set m nc v =>
    simp only [ncStep] at hn
    split_ifs at hn <;> cases hn

theorem NcPoint.At.issued {n} (h : j.At C start s) (hn : j.issuing = some n) : s.nid.Issued start n := by
  cases j with
  | newGet m | newSet m v => cases hn; exact h.1
  | _ => cases hn

theorem ncOutline_valid : (ncOutline C start).Valid (ncThreads C) (resetInFlight C) where
  symm h n m hn hm heq := h m n hm hn heq.symm
  entry_at {k s} _ hk := by
    cases k with
    | inc pool => trivial
    | check n nc =>
      have hmem := of_decide_eq_true hk
      exact hmem
    | _ => cases hk
  entry_pair {k j s} hk n m hn := by
    cases k with
    | inc pool | check n nc => cases hn
    | _ => cases hk
  keep h hk hc := h.step hk hc
  own h hk _ := .own h hk
  other _ _ hj hkj _ _ := .other hj hkj
  pair {k j s} _ _ hj hkj _ _ n m hn hm := by
    rcases issuing_step hn with hn | ⟨pool, rfl, rfl⟩
    · exact hkj n m hn hm
    · exact ((NcPoint.At.issued hj hm).ne_inc).symm

end Outline

/-! ## A run of two processes -/

/-- One pool with two slots. -/
def ncSmall : Table := ⟨1, 1, by decide⟩

/-- The third nonce of the pool, which has the slot of the first. -/
def ncThird : Nonce := ⟨0, 771#32, 3⟩

/-- Process 0 starts to issue the first nonce. -/
def ncFirst : List (Act (Fin 2) NcPoint) := [.call p0 (.inc 0), .go p0]

/-- Process 0 completes `nc_new`. -/
def ncReset : List (Act (Fin 2) NcPoint) := [.go p0, .go p0]

/-- Process 1 issues the next two nonces. -/
def ncNext : List (Act (Fin 2) NcPoint) :=
  [.call p1 (.inc 0), .go p1, .go p1, .go p1, .call p1 (.inc 0), .go p1, .go p1, .go p1]

/-- Process 1 checks the count 1 of the third nonce. -/
def ncUse : List (Act (Fin 2) NcPoint) := [.call p1 (.check ncThird 1#32), .go p1, .go p1, .go p1]

/-! ## Replay safety -/

section Safety

variable {ι : Type} {C : Table} {start : Nat → Nid} {k : NcPoint} {s : NcState}

theorem ncOutline_init : (ncOutline C start).Holds (ncInit start : System ι NcPoint NcState) where
  inv :=
    { nid := NidState.ok_init
      known := fun _ he => nomatch he
      sorted := fun _ => List.Pairwise.nil
      le := fun _ hn => nomatch hn }
  at_point _ := trivial
  pair _ _ _ _ _ hn := nomatch hn

/-- The nonce of a process is one of those that follow the ids `start`. -/
theorem NcPoint.At.of {n} (h : k.At C start s) (hs : s.Grows C start) (hn : k.nonce = some n) : n.Of start := by
  cases k with
  | returned r | inc pool => cases hn
  | newGet m | newSet m v => cases hn; exact h.1.of
  | check m nc => cases hn; exact (hs.nid.known n h).of
  | get m nc | set m nc v => cases hn; exact (hs.nid.known n h.1).of

/-- A process leaves the bytes of the other nonces alone. -/
theorem counter_step_ne {n m} (hk : k.At C start s) (hm : k.nonce = some m) (h : C.pos m ≠ C.pos n) :
    C.counter (ncStep C k s).2 n = C.counter s n := by
  have hchange := ncStep_change C k s
  generalize (ncStep C k s).2 = s' at hchange ⊢
  cases hchange with
  | none | inc => rfl
  | reset hv =>
    cases hm
    exact counter_reset hv h
  | accept hv =>
    cases hm
    exact counter_accept_ne hv hk.2.1 h

/-- A count is accepted for being above the byte of its own nonce, and becomes its byte. -/
theorem accepted_step {e} (hk : k.At C start s)
    (he : (ncStep C k s).2.accepted = s.accepted ++ [e]) :
    C.counter s e.nonce < e.nc ∧ C.counter (ncStep C k s).2 e.nonce = e.nc := by
  have hchange := ncStep_change C k s
  generalize (ncStep C k s).2 = s' at hchange he ⊢
  cases hchange with
  | none | inc => simp at he
  | reset hv => simp [NcState.reset] at he
  | accept hv =>
    obtain rfl : _ = e := by simpa [NcState.accept] using he
    refine ⟨?_, counter_accept_self hv hk.2.1 rfl⟩
    subst hv
    exact hk.2.2

/-- In every run in which `nc_new` stores its zero while its nonce is in flight: the counts that are
accepted of a nonce in flight are strictly increasing, so that none is accepted twice; a process that
issues or checks one nonce leaves the byte of any other within the size of the partition as it
is; and a count is accepted only for being above the byte of its own nonce. -/
theorem nonce_count_replay_safe [DecidableEq ι] {s : System ι NcPoint NcState}
    (h : Reach (ncThreads C) (resetInFlight C) (ncInit start) s) :
    (∀ n, (s.shared.counts n).Pairwise (· < ·)) ∧
    (∀ i n m, (s.point i).nonce = some m → n.Of start → n ≠ m → n.no < m.no + C.part.size →
      m.no < n.no + C.part.size →
      C.counter (s.fire (ncThreads C) i).shared n = C.counter s.shared n) ∧
    ∀ i e, (s.fire (ncThreads C) i).shared.accepted = s.shared.accepted ++ [e] →
      C.counter s.shared e.nonce < e.nc ∧
        C.counter (s.fire (ncThreads C) i).shared e.nonce = e.nc := by
  have hs := h.safe (ncOutline_valid) (ncOutline_init)
  refine ⟨hs.inv.sorted, ?_, ?_⟩
  · intro i n m hm hn hne hnm hmn
    have hof : m.Of start := NcPoint.At.of (hs.at_point i) hs.inv hm
    exact counter_step_ne (hs.at_point i) hm (NidState.slot_ne hof hn hne.symm hmn hnm)
  · intro i e he
    exact accepted_step (hs.at_point i) he

theorem nonce_count_replay_safe_ncThird :
    ((ncInit fun _ => 0#32).play (ncThreads ncSmall)
      (ncFirst ++ ncReset ++ ncNext ++ ncUse ++ ncUse)).shared.counts ncThird = [1#32] ∧
    ∀ n, (((ncInit fun _ => 0#32).play (ncThreads ncSmall)
      (ncFirst ++ ncReset ++ ncNext ++ ncUse ++ ncUse)).shared.counts n).Pairwise (· < ·) :=
  ⟨by decide, (nonce_count_replay_safe (Reach.start.play _ (by decide))).1⟩

/-- A process that is held up in `nc_new` until the slot of its nonce belongs to another resets the
byte of that one, and the count 1 is accepted a second time while the nonce is in flight. -/
theorem late_reset_accepts_again :
    ∃ s : System (Fin 2) NcPoint NcState,
      Reach (ncThreads ncSmall) .none (ncInit fun _ => 0#32) s ∧
      s.shared.nid.InFlight ncSmall.part ncThird ∧ s.shared.counts ncThird = [1#32, 1#32] :=
  ⟨_, Reach.start.play (ncFirst ++ ncNext ++ ncUse ++ ncReset ++ ncUse) (by decide), by decide,
    by decide⟩

end Safety

end SipRouter.Auth
