import SipRouter.Lib.Drain
import Mathlib

/-!
# SRV fail-over (`dns_cache.c`, `resolve.c`)

`get_record` puts the SRV records of an answer in a list, sorted by priority. `dns_srv_get_nxt_rr` gives out one of
them at a call: from the first group of records with the same priority that has one left, chosen by weight
and chance. What it has given out of the group is marked in a bitmap, and where the group begins
kept in an `unsigned char`. A group that is longer than the bitmap is taken as several.

The server watchdog is not compiled in, so expired records are never given out.
-/

namespace SipRouter.Dns

open Lib List

/-! ## The records of an answer -/

/-- `struct srv_rdata`, what is used of it here. -/
structure SrvRdata where
  priority : UInt16
  weight : UInt16
  deriving DecidableEq

/-- The insertion of a record by `get_record`. -/
def srvInsert (srvRd : SrvRdata) : List SrvRdata → List SrvRdata
  | [] => [srvRd]
  | crt :: list =>
    if srvRd.priority < crt.priority ∨ (srvRd.priority = crt.priority ∧
      crt.weight < srvRd.weight) then srvRd :: crt :: list
    else crt :: srvInsert srvRd list

/-- The list for the records of an answer. -/
def getRecordSrv (answer : List SrvRdata) : List SrvRdata := answer.foldl (fun list rd => srvInsert rd list) []

def SortedByPriority (list : List SrvRdata) : Prop := list.Pairwise fun a b => a.priority ≤ b.priority

/-- The order of the list: by priority, and with the same one the greater weight first. -/
def SrvRdata.Before (a b : SrvRdata) : Prop :=
  a.priority ≤ b.priority ∧ (a.priority = b.priority → b.weight ≤ a.weight)

theorem perm_srvInsert {rd list} : (srvInsert rd list).Perm (rd :: list) := by
  induction list with
  | nil => exact .refl _
  | cons crt list ih =>
    rw [srvInsert]
    split_ifs
    · exact .refl _
    · exact (ih.cons crt).trans (.swap rd crt list)

theorem before_iff {a b : SrvRdata} : a.Before b ↔ a.priority.toNat ≤ b.priority.toNat ∧
    (a.priority.toNat = b.priority.toNat → b.weight.toNat ≤ a.weight.toNat) := by
  simp only [SrvRdata.Before, UInt16.le_iff_toNat_le, UInt16.toNat_inj]

theorem pairwise_srvInsert {list} (h : list.Pairwise SrvRdata.Before) (rd) :
    (srvInsert rd list).Pairwise SrvRdata.Before := by
  induction list with
  | nil => exact pairwise_singleton ..
  | cons crt list ih =>
    obtain ⟨hcrt, htail⟩ := pairwise_cons.1 h
    rw [srvInsert]
    split_ifs with hhere
    all_goals simp only [UInt16.lt_iff_toNat_lt, ← UInt16.toNat_inj] at hhere
    · refine pairwise_cons.2 ⟨forall_mem_cons.2 ⟨before_iff.2 (by omega), fun rd' hrd' => ?_⟩, h⟩
      have hnext := before_iff.1 (hcrt rd' hrd')
      exact before_iff.2 (by omega)
    · refine pairwise_cons.2 ⟨fun rd' hrd' => ?_, ih htail⟩
      rcases mem_cons.1 (perm_srvInsert.subset hrd') with rfl | hmem
      · exact before_iff.2 (by omega)
      · exact hcrt rd' hmem

/-- For every answer: the list has its records, each as often as the answer, in their order of preference. -/
theorem srv_list_sorted (answer : List SrvRdata) :
    (getRecordSrv answer).Perm answer ∧ (getRecordSrv answer).Pairwise SrvRdata.Before := by
  have hfold : ∀ list : List SrvRdata, list.Pairwise SrvRdata.Before →
      (answer.foldl (fun list rd => srvInsert rd list) list).Perm (list ++ answer) ∧
        (answer.foldl (fun list rd => srvInsert rd list) list).Pairwise SrvRdata.Before := by
    induction answer with
    | nil => exact fun list h => ⟨by simp, h⟩
    | cons rd answer ih =>
      intro list h
      obtain ⟨hperm, hsorted⟩ := ih _ (pairwise_srvInsert h rd)
      exact ⟨hperm.trans ((perm_srvInsert.append_right answer).trans perm_middle.symm), hsorted⟩
  exact hfold [] .nil

/-! ## The next record -/

/-- `struct dns_rr`. -/
structure DnsRr where
  rdata : SrvRdata
  expire : UInt32
  errFlags : UInt8

/-- Neither expired, which is `(s_ticks_t)(now-rr->expire)>=0`, nor bad. -/
def DnsRr.usable (now : UInt32) (rr : DnsRr) : Bool := !((now - rr.expire).toNat < 2 ^ 31) && rr.errFlags = 0

/-- `MAX_SRV_GRP_IDX`, the number of bits of `srv_flags_t`. -/
def maxSrvGrpIdx : Nat := 16

/-- `*no` and `*tried`. -/
structure SrvPos where
  no : UInt8
  tried : BitVec 16
  deriving DecidableEq

def srvMarked (tried : BitVec 16) (i : Nat) : Bool := tried.getLsbD i

def srvMarkTried (tried : BitVec 16) (i : Nat) : BitVec 16 := tried ||| BitVec.twoPow 16 i

/-- The variables of the loop over a group. An entry of `r_sums` is its sum and the number of its
record. The sum of 16 weights fits an `unsigned`. -/
structure Grp where
  idx : Nat
  sum : Nat
  savedIdx : Option Nat
  found : Nat
  rSums : List (Nat × Option Nat)

/-- One round of the loop, at the record with number `n`. -/
def Grp.add (now : UInt32) (tried : BitVec 16) (n : Nat) (rr : DnsRr) (g : Grp) : Grp :=
  if rr.usable now && !srvMarked tried g.idx then
    let sum := g.sum + rr.rdata.weight.toNat
    { idx := g.idx + 1
      sum := sum
      savedIdx := if g.savedIdx.isNone || rr.rdata.weight = 0 then some g.idx else g.savedIdx
      found := g.found + 1
      rSums := g.rSums ++ [(sum, some n)] }
  else { g with idx := g.idx + 1, rSums := g.rSums ++ [(0, none)] }

/-- The loop over the group that begins at record `n`: its variables, and the records behind it. -/
def srvGrp (now : UInt32) (tried : BitVec 16) (n : Nat) (prio : UInt16) : Grp → List DnsRr → Grp × List DnsRr
  | g, [] => (g, [])
  | g, rr :: rrs =>
    if prio = rr.rdata.priority ∧ g.idx < maxSrvGrpIdx then
      srvGrp now tried n prio (g.add now tried (n + g.idx) rr) rrs
    else (g, rr :: rrs)

/-- The loop over `r_sums`. -/
def srvPick (randW : Nat) (rSums : List (Nat × Option Nat)) : Nat := rSums.findIdx fun e => !(e.1 < randW)

/-- From `retry:` on, with at most `fuel` groups. The random number is one of `0..max`. -/
def srvRetry (now : UInt32) (random : (max : Nat) → Fin (max + 1)) :
    Nat → Nat → BitVec 16 → List DnsRr → Option Nat × SrvPos
  | _, n, tried, [] => (none, ⟨n.toUInt8, tried⟩)
  | 0, n, tried, _ => (none, ⟨n.toUInt8, tried⟩)
  | fuel + 1, n, tried, rr :: rrs =>
    let g := srvGrp now tried n rr.rdata.priority ⟨0, 0, none, 0, []⟩ (rr :: rrs)
    if g.1.found = 0 then srvRetry now random fuel (n + g.1.idx) 0 g.2
    else
      let i := if g.1.found = 1 ∨ (random g.1.sum).val = 0 then g.1.savedIdx.getD 0
        else srvPick (random g.1.sum).val g.1.rSums
      ((g.1.rSums[i]?.bind Prod.snd), ⟨n.toUInt8, srvMarkTried tried i⟩)

/-- `dns_srv_get_nxt_rr`: the number of the record, and the new `*no` and `*tried`. -/
def dnsSrvGetNxtRr (rrs : List DnsRr) (now : UInt32) (random : (max : Nat) → Fin (max + 1)) (pos : SrvPos) :
    Option Nat × SrvPos :=
  let n := min pos.no.toNat rrs.length
  srvRetry now random rrs.length n pos.tried (rrs.drop n)

/-! ## What a call does -/

/-- The records that one pass of the loop over a group is for. -/
def window : List DnsRr → List DnsRr
  | [] => []
  | rr :: rrs => ((rr :: rrs).takeWhile fun rr' => rr.rdata.priority = rr'.rdata.priority).take maxSrvGrpIdx

/-- Where the group behind the one at `n` begins. -/
def nextGrp (rrs : List DnsRr) (n : Nat) : Nat := n + (window (rrs.drop n)).length

/-- Where the group with number `k` begins. -/
def grpAt (rrs : List DnsRr) (k : Nat) : Nat := (nextGrp rrs)^[k] 0

/-- What the loop has found in the records `w`. -/
structure GrpOk (now : UInt32) (tried : BitVec 16) (n : Nat) (w : List DnsRr) (g : Grp) : Prop where
  idx : g.idx = w.length
  length : g.rSums.length = w.length
  free : ∀ i rr, w[i]? = some rr → (rr.usable now && !srvMarked tried i) = true → ∃ s,
    g.rSums[i]? = some (s, some (n + i))
  gone : ∀ i rr, w[i]? = some rr → (rr.usable now && !srvMarked tried i) = false → g.rSums[i]? = some (0, none)
  found : g.found = 0 → ∀ i rr, w[i]? = some rr → (rr.usable now && !srvMarked tried i) = false
  saved : ∀ i, g.savedIdx = some i → ∃ rr, w[i]? = some rr ∧ (rr.usable now && !srvMarked tried i) = true
  savedSome : g.found ≠ 0 → g.savedIdx ≠ none
  sum : g.found ≠ 0 → ∃ e ∈ g.rSums, e.1 = g.sum

section Call

variable {now : UInt32} {tried : BitVec 16} {n : Nat} {w : List DnsRr} {g : Grp}

theorem GrpOk.init (now tried) (n : Nat) : GrpOk now tried n [] ⟨0, 0, none, 0, []⟩ :=
  ⟨rfl, rfl, nofun, nofun, fun _ => nofun, nofun, fun h => absurd rfl h, fun h => absurd rfl h⟩

/-- A record of the longer list is one of the shorter, or the new one. -/
theorem getElem?_snoc {rr rr' : DnsRr} {i : Nat} (hi : (w ++ [rr])[i]? = some rr') :
    w[i]? = some rr' ∨ (i = w.length ∧ rr' = rr) := by
  rw [getElem?_append] at hi
  split_ifs at hi with hlt
  · exact .inl hi
  · right
    obtain ⟨hlen, hget⟩ := List.getElem?_eq_some_iff.1 hi
    simp only [length_singleton, Nat.lt_one_iff] at hlen
    refine ⟨by omega, ?_⟩
    simp [hlen] at hget
    exact hget.symm

theorem getElem?_append_of_some {α} {l l' : List α} {i : Nat} {x : α} (hi : l[i]? = some x) :
    (l ++ l')[i]? = some x := by
  rw [getElem?_append_left (List.getElem?_eq_some_iff.1 hi).1, hi]

theorem GrpOk.rSums_snoc (h : GrpOk now tried n w g) (x) : (g.rSums ++ [x])[w.length]? = some x := by
  rw [← h.length]
  exact getElem?_concat_length

theorem GrpOk.add_free (h : GrpOk now tried n w g) {rr : DnsRr}
    (hfree : (rr.usable now && !srvMarked tried g.idx) = true) :
    GrpOk now tried n (w ++ [rr]) (g.add now tried (n + g.idx) rr) := by
  have hidx := h.idx
  rw [Grp.add, if_pos hfree]
  refine ⟨by simp [hidx], by simp [h.length], ?_, ?_, ?_, ?_, ?_, ?_⟩
  · intro i rr' hi hfree'
    rcases getElem?_snoc hi with hi | ⟨rfl, rfl⟩
    · obtain ⟨s, hs⟩ := h.free i rr' hi hfree'
      exact ⟨s, getElem?_append_of_some hs⟩
    · rw [hidx]
      exact ⟨_, h.rSums_snoc _⟩
  · intro i rr' hi hgone
    rcases getElem?_snoc hi with hi | ⟨rfl, rfl⟩
    · exact getElem?_append_of_some (h.gone i rr' hi hgone)
    · rw [hidx, hgone] at hfree
      cases hfree
  · exact fun hzero => absurd hzero (Nat.succ_ne_zero _)
  · intro i hi
    simp only at hi
    split_ifs at hi
    · obtain rfl := Option.some.inj hi
      exact ⟨rr, by simp [hidx], hfree⟩
    · obtain ⟨rr', hget, hfree'⟩ := h.saved i hi
      exact ⟨rr', getElem?_append_of_some hget, hfree'⟩
  · intro _ hnone
    simp only at hnone
    split_ifs at hnone with hsave
    simp [hnone] at hsave
  · exact fun _ => ⟨_, mem_append_right _ (mem_singleton_self _), rfl⟩

theorem GrpOk.add_gone (h : GrpOk now tried n w g) {rr : DnsRr}
    (hfree : ¬(rr.usable now && !srvMarked tried g.idx) = true) :
    GrpOk now tried n (w ++ [rr]) (g.add now tried (n + g.idx) rr) := by
  have hgone : (rr.usable now && !srvMarked tried w.length) = false := by
    rw [← h.idx]
    exact Bool.eq_false_iff.2 hfree
  rw [Grp.add, if_neg hfree]
  refine ⟨by simp [h.idx], by simp [h.length], ?_, ?_, ?_, ?_, h.savedSome, ?_⟩
  · intro i rr' hi hfree'
    rcases getElem?_snoc hi with hi | ⟨rfl, rfl⟩
    · obtain ⟨s, hs⟩ := h.free i rr' hi hfree'
      exact ⟨s, getElem?_append_of_some hs⟩
    · rw [hgone] at hfree'
      cases hfree'
  · intro i rr' hi hgone'
    rcases getElem?_snoc hi with hi | ⟨rfl, rfl⟩
    · exact getElem?_append_of_some (h.gone i rr' hi hgone')
    · exact h.rSums_snoc _
  · intro hzero i rr' hi
    rcases getElem?_snoc hi with hi | ⟨rfl, rfl⟩
    · exact h.found hzero i rr' hi
    · exact hgone
  · intro i hi
    obtain ⟨rr', hget, hfree'⟩ := h.saved i hi
    exact ⟨rr', getElem?_append_of_some hget, hfree'⟩
  · intro hne
    obtain ⟨e, he, hsum⟩ := h.sum hne
    exact ⟨e, mem_append_left _ he, hsum⟩

theorem GrpOk.add (h : GrpOk now tried n w g) (rr) :
    GrpOk now tried n (w ++ [rr]) (g.add now tried (n + g.idx) rr) := by
  by_cases hfree : (rr.usable now && !srvMarked tried g.idx) = true
  · exact h.add_free hfree
  · exact h.add_gone hfree

/-- The loop goes over the records of the priority, as many as there are bits. -/
theorem srvGrp_spec (h : GrpOk now tried n w g) (hw : w.length ≤ maxSrvGrpIdx) (prio rrs) :
    let more := (rrs.takeWhile fun rr => prio = rr.rdata.priority).take (maxSrvGrpIdx - w.length)
    GrpOk now tried n (w ++ more) (srvGrp now tried n prio g rrs).1 ∧
      (srvGrp now tried n prio g rrs).2 = rrs.drop more.length := by
  induction rrs generalizing w g with
  | nil => simpa [srvGrp] using h
  | cons rr rrs ih =>
    rw [srvGrp]
    by_cases hin : prio = rr.rdata.priority ∧ g.idx < maxSrvGrpIdx
    · obtain ⟨k, hk⟩ : ∃ k, maxSrvGrpIdx - w.length = k + 1 := ⟨maxSrvGrpIdx - w.length - 1, by have := h.idx; omega⟩
      have hnext := ih (h.add rr) (by simp only [length_append, length_singleton]; omega)
      have hk' : maxSrvGrpIdx - (w ++ [rr]).length = k := by
        simp only [length_append, length_singleton]
        omega
      simp only [hk', append_assoc, singleton_append] at hnext
      simp only [if_pos hin, takeWhile_cons, decide_eq_true hin.1, if_true, hk, take_succ_cons,
        length_cons, drop_succ_cons]
      exact hnext
    · have hmore : ((rr :: rrs).takeWhile fun rr => prio = rr.rdata.priority).take (maxSrvGrpIdx - w.length) = [] := by
        by_cases hprio : prio = rr.rdata.priority
        · have hfull : maxSrvGrpIdx - w.length = 0 := by
            have := h.idx
            have hidx : ¬ g.idx < maxSrvGrpIdx := fun hlt => hin ⟨hprio, hlt⟩
            omega
          rw [hfull, take_zero]
        · simp [hprio]
      simp only [if_neg hin, hmore, append_nil, length_nil, drop_zero]
      exact ⟨h, trivial⟩

/-- The choice by weight finds an entry with a sum, so one that is free. -/
theorem GrpOk.pick (h : GrpOk now tried n w g) (hfound : g.found ≠ 0) {randW} (hpos : randW ≠ 0)
    (hle : randW ≤ g.sum) :
    ∃ rr, w[srvPick randW g.rSums]? = some rr ∧
      (rr.usable now && !srvMarked tried (srvPick randW g.rSums)) = true := by
  obtain ⟨e, he, hsum⟩ := h.sum hfound
  have hlt : srvPick randW g.rSums < g.rSums.length := by
    apply findIdx_lt_length_of_exists
    refine ⟨e, he, ?_⟩
    simp only [Bool.not_eq_true', decide_eq_false_iff_not]
    omega
  have hpicked : ¬ (g.rSums[srvPick randW g.rSums]).1 < randW := by
    have hfirst : (!decide ((g.rSums[srvPick randW g.rSums]).1 < randW)) = true := findIdx_getElem (w := hlt)
    simpa only [Bool.not_eq_true', decide_eq_false_iff_not] using hfirst
  have hlen : srvPick randW g.rSums < w.length := by
    rw [← h.length]
    exact hlt
  refine ⟨w[srvPick randW g.rSums], getElem?_eq_getElem hlen, ?_⟩
  by_contra hgone
  have hzero := h.gone _ _ (getElem?_eq_getElem hlen) (Bool.eq_false_iff.2 hgone)
  rw [getElem?_eq_getElem hlt] at hzero
  rw [Option.some.inj hzero] at hpicked
  simp only at hpicked
  omega

/-! ## What is left -/

/-- The record `i` is not expired and not bad. -/
def usableAt (rrs : List DnsRr) (now : UInt32) (i : Nat) : Bool := rrs[i]?.any (DnsRr.usable now)

/-- The record `i` has been given out of the group that begins at `n`. -/
def triedAt (rrs : List DnsRr) (n : Nat) (tried : BitVec 16) (i : Nat) : Bool :=
  i - n < (window (rrs.drop n)).length && srvMarked tried (i - n)

/-- The records that are left, when the group at `n` is to be looked at next. -/
def left (rrs : List DnsRr) (now : UInt32) (n : Nat) (tried : BitVec 16) : List Nat :=
  (List.range rrs.length).filter fun i => n ≤ i && usableAt rrs now i && !triedAt rrs n tried i

variable {rrs : List DnsRr} {i : Nat}

theorem mem_left : i ∈ left rrs now n tried ↔ n ≤ i ∧ usableAt rrs now i = true ∧ triedAt rrs n tried i = false := by
  simp only [left, mem_filter, mem_range, Bool.and_eq_true, decide_eq_true_eq, Bool.not_eq_true']
  constructor
  · rintro ⟨-, ⟨hle, husable⟩, htried⟩
    exact ⟨hle, husable, htried⟩
  · rintro ⟨hle, husable, htried⟩
    refine ⟨?_, ⟨hle, husable⟩, htried⟩
    by_contra hge
    rw [usableAt, getElem?_eq_none (not_lt.1 hge)] at husable
    cases husable

theorem nodup_left : (left rrs now n tried).Nodup := nodup_range.filter _

theorem window_eq_take (rrs : List DnsRr) : window rrs = rrs.take (window rrs).length := by
  apply prefix_iff_eq_take.1
  cases rrs with
  | nil => exact nil_prefix
  | cons rr rrs => exact (List.take_prefix ..).trans (List.takeWhile_prefix ..)

theorem window_get (h : i < (window rrs).length) : (window rrs)[i]? = rrs[i]? := by
  rw [window_eq_take, getElem?_take_of_lt h]

/-- A group of which nothing is left is skipped. -/
theorem left_skip (h : ∀ i rr, (window (rrs.drop n))[i]? = some rr → (rr.usable now && !srvMarked tried i) = false) :
    left rrs now (n + (window (rrs.drop n)).length) 0 = left rrs now n tried := by
  apply filter_congr
  intro i hi
  have hzero : triedAt rrs (n + (window (rrs.drop n)).length) 0 i = false := by simp [triedAt, srvMarked]
  rw [hzero, Bool.not_false, Bool.and_true]
  by_cases hn : n ≤ i
  · by_cases hin : i - n < (window (rrs.drop n)).length
    · have hlt : ¬ n + (window (rrs.drop n)).length ≤ i := by omega
      have hget : (window (rrs.drop n))[i - n]? = rrs[i]? := by
        rw [window_get hin, getElem?_drop, Nat.add_sub_cancel' hn]
      have hlen := mem_range.1 hi
      have hsome := getElem?_eq_getElem hlen
      have hgone := h (i - n) _ (hget.trans hsome)
      simp only [hlt, hn, usableAt, hsome, Option.any_some, triedAt, hin, decide_false, decide_true,
        Bool.false_and, Bool.true_and]
      exact hgone.symm
    · have hge : n + (window (rrs.drop n)).length ≤ i := by omega
      simp [hge, hn, triedAt, hin]
  · have hge : ¬ n + (window (rrs.drop n)).length ≤ i := by omega
    simp [hge, hn]

theorem length_window_le : (window rrs).length ≤ 16 := by
  cases rrs with
  | nil => exact Nat.zero_le _
  | cons rr rrs => exact length_take_le ..

theorem left_mark (hi : i < (window (rrs.drop n)).length) :
    left rrs now n (srvMarkTried tried i) = (left rrs now n tried).erase (n + i) := by
  have hwidth : (window (rrs.drop n)).length ≤ 16 := length_window_le
  rw [nodup_left.erase_eq_filter, left, left, filter_filter]
  apply filter_congr
  intro j hj
  by_cases hn : n ≤ j
  · have hbit : srvMarked (srvMarkTried tried i) (j - n) = (srvMarked tried (j - n) || decide (j = n + i)) := by
      have hsame : decide (i = j - n) = decide (j = n + i) := decide_eq_decide.2 (by omega)
      have hlt : i < 16 := by omega
      simp [srvMarked, srvMarkTried, hlt, hsame]
    simp only [triedAt, hbit, hn, decide_true, Bool.true_and]
    by_cases heq : j = n + i
    · have hin : j - n < (window (rrs.drop n)).length := by omega
      simp [heq, hi]
    · simp [heq]
  · simp [hn]

/-- How a call ends: nothing is left, or a record of the first group with one left is given out. -/
inductive Next (rrs : List DnsRr) (now : UInt32) (n : Nat) (tried : BitVec 16) : Option Nat × SrvPos → Prop
  | done (pos : SrvPos) (hleft : left rrs now n tried = []) : Next rrs now n tried (none, pos)
  | taken {n' i : Nat} {tried' : BitVec 16} (hleft : left rrs now n' tried' = left rrs now n tried)
      (hn' : n' < rrs.length)
      (hi : i < (window (rrs.drop n')).length) (hmem : n' + i ∈ left rrs now n' tried')
      (hgrp : ∃ k, n' = (nextGrp rrs)^[k] n) :
      Next rrs now n tried (some (n' + i), ⟨n'.toUInt8, srvMarkTried tried' i⟩)

theorem Next.skip {tried' r} (hleft : left rrs now (nextGrp rrs n) tried' = left rrs now n tried)
    (h : Next rrs now (nextGrp rrs n) tried' r) : Next rrs now n tried r := by
  cases h with
  | done pos hdone => exact .done pos (hleft ▸ hdone)
  | taken htaken hn hi hmem hgrp =>
    obtain ⟨k, hk⟩ := hgrp
    exact .taken (htaken.trans hleft) hn hi hmem ⟨k + 1, hk⟩

theorem left_eq_nil (h : rrs.length ≤ n) : left rrs now n tried = [] := by
  apply eq_nil_iff_forall_not_mem.2
  intro i hi
  obtain ⟨hle, husable, -⟩ := mem_left.1 hi
  rw [usableAt, getElem?_eq_none (by omega)] at husable
  cases husable

/-- A free record of the group is given out. -/
theorem GrpOk.taken (h : GrpOk now tried n (window (rrs.drop n)) g) {rr}
    (hget : (window (rrs.drop n))[i]? = some rr) (hfree : (rr.usable now && !srvMarked tried i) = true) :
    Next rrs now n tried (g.rSums[i]?.bind Prod.snd, ⟨n.toUInt8, srvMarkTried tried i⟩) := by
  have hi := (List.getElem?_eq_some_iff.1 hget).1
  have hrr : rrs[n + i]? = some rr := by rw [← getElem?_drop, ← window_get hi, hget]
  obtain ⟨husable, hmark⟩ := Bool.and_eq_true_iff.1 hfree
  obtain ⟨s, hs⟩ := h.free i rr hget hfree
  have hlen := (List.getElem?_eq_some_iff.1 hrr).1
  rw [hs]
  refine .taken rfl (by omega) hi (mem_left.2 ⟨Nat.le_add_right .., ?_, ?_⟩) ⟨0, rfl⟩
  · rw [usableAt, hrr]
    exact husable
  · rw [Bool.not_eq_true'] at hmark
    rw [triedAt, Nat.add_sub_cancel_left, hmark, Bool.and_false]

theorem srvRetry_spec {random fuel} (hfuel : rrs.length ≤ n + fuel) :
    Next rrs now n tried (srvRetry now random fuel n tried (rrs.drop n)) := by
  induction fuel generalizing n tried with
  | zero =>
    have hnil : rrs.drop n = [] := drop_eq_nil_of_le hfuel
    rw [hnil]
    exact .done _ (left_eq_nil hfuel)
  | succ fuel ih =>
    cases hdrop : rrs.drop n with
    | nil => exact .done _ (left_eq_nil (drop_eq_nil_iff.1 hdrop))
    | cons rr rest =>
      have hwindow : window (rrs.drop n) =
          ((rr :: rest).takeWhile fun rr' => rr.rdata.priority = rr'.rdata.priority).take maxSrvGrpIdx := by
        rw [hdrop, window]
      obtain ⟨hgrp, hrest⟩ := srvGrp_spec (GrpOk.init now tried n) (Nat.zero_le _) rr.rdata.priority (rr :: rest)
      simp only [nil_append, length_nil, Nat.sub_zero, ← hwindow] at hgrp hrest
      rw [srvRetry]
      simp only
      by_cases hfound : (srvGrp now tried n rr.rdata.priority ⟨0, 0, none, 0, []⟩ (rr :: rest)).1.found = 0
      · -- the next group
        have hone : 0 < (window (rrs.drop n)).length := by
          rw [hwindow]
          simp [maxSrvGrpIdx]
        rw [if_pos hfound, hgrp.idx, hrest, ← hdrop, drop_drop]
        exact Next.skip (left_skip (hgrp.found hfound)) (ih (by rw [nextGrp]; omega))
      · rw [if_neg hfound]
        by_cases hsaved : (srvGrp now tried n rr.rdata.priority ⟨0, 0, none, 0, []⟩ (rr :: rest)).1.found = 1 ∨
            (random (srvGrp now tried n rr.rdata.priority ⟨0, 0, none, 0, []⟩ (rr :: rest)).1.sum).val = 0
        · rw [if_pos hsaved]
          obtain ⟨i, hi⟩ := Option.ne_none_iff_exists'.1 (hgrp.savedSome hfound)
          obtain ⟨rr', hget, hfree⟩ := hgrp.saved i hi
          rw [hi]
          exact hgrp.taken hget hfree
        · rw [if_neg hsaved]
          obtain ⟨rr', hget, hfree⟩ := hgrp.pick hfound (not_or.1 hsaved).2 (Nat.lt_succ_iff.1 (random _).isLt)
          exact hgrp.taken hget hfree

end Call

/-! ## Fail-over -/

/-- The priority of the record `i`. -/
def prioAt (rrs : List DnsRr) (i : Nat) : UInt16 := (rrs[i]?.map fun rr => rr.rdata.priority).getD 0

variable {rrs : List DnsRr} {now : UInt32}

theorem window_prio {rr rr'} (hhead : rrs.head? = some rr) (hmem : rr' ∈ window rrs) :
    rr.rdata.priority = rr'.rdata.priority := by
  cases rrs with
  | nil => cases hhead
  | cons rr0 rrs =>
    obtain rfl := Option.some.inj hhead
    have hwhile := mem_takeWhile_imp (mem_of_mem_take hmem)
    exact of_decide_eq_true hwhile

/-- The records of a group have the priority of its first. -/
theorem prioAt_window {n i} (hi : i < (window (rrs.drop n)).length) : prioAt rrs (n + i) = prioAt rrs n := by
  have hget : rrs[n + i]? = some (window (rrs.drop n))[i] := by
    rw [← getElem?_drop, ← window_get hi, getElem?_eq_getElem hi]
  have hlen := (List.getElem?_eq_some_iff.1 hget).1
  have hfirst : rrs[n]? = some rrs[n] := getElem?_eq_getElem (by omega)
  have hhead : (rrs.drop n).head? = some rrs[n] := by rw [head?_drop, hfirst]
  have hprio := window_prio hhead (getElem_mem hi)
  rw [prioAt, prioAt, hget, hfirst]
  exact hprio.symm

/-- Records whose priorities do not decrease. -/
def SortedRrs (rrs : List DnsRr) : Prop := SortedByPriority (rrs.map DnsRr.rdata)

theorem SortedRrs.prioAt_le (h : SortedRrs rrs) {i j} (hij : i ≤ j) (hj : j < rrs.length) :
    prioAt rrs i ≤ prioAt rrs j := by
  have hi : i < rrs.length := by omega
  rw [prioAt, prioAt, getElem?_eq_getElem hi, getElem?_eq_getElem hj]
  rcases eq_or_lt_of_le hij with rfl | hlt
  · exact UInt16.le_refl _
  · have hpair := pairwise_iff_getElem.1 (pairwise_map.1 h) i j hi hj hlt
    exact hpair

theorem usableAt_lt {i} (h : usableAt rrs now i = true) : i < rrs.length := by
  by_contra hge
  rw [usableAt, getElem?_eq_none (not_lt.1 hge)] at h
  cases h

/-! ### Where the groups begin -/

theorem nextGrp_le {n} (h : n ≤ rrs.length) : nextGrp rrs n ≤ rrs.length := by
  have hlen := congrArg length (window_eq_take (rrs.drop n))
  simp only [length_take, length_drop] at hlen
  rw [nextGrp]
  omega

theorem grpAt_succ (k : Nat) : grpAt rrs (k + 1) = nextGrp rrs (grpAt rrs k) := Function.iterate_succ_apply' ..

theorem grpAt_le (k : Nat) : grpAt rrs k ≤ rrs.length := by
  induction k with
  | zero => exact Nat.zero_le _
  | succ k ih =>
    rw [grpAt_succ]
    exact nextGrp_le ih

/-- A record of a group is in front of every group that begins behind it. -/
theorem lt_grpAt {k m i} (hi : i < (window (rrs.drop (grpAt rrs k))).length) (hlt : grpAt rrs k < grpAt rrs m) :
    grpAt rrs k + i < grpAt rrs m := by
  have hmono : Monotone (grpAt rrs) := monotone_nat_of_le_succ fun k => by
    rw [grpAt_succ]
    exact Nat.le_add_right ..
  have hkm : k + 1 ≤ m := by
    by_contra hge
    have hle := hmono (show m ≤ k by omega)
    omega
  have hnext := hmono hkm
  rw [grpAt_succ, nextGrp] at hnext
  omega

section Calls

variable (random : Nat → (max : Nat) → Fin (max + 1))

/-- What is left for a position. -/
def leftAt (rrs : List DnsRr) (now : UInt32) (pos : SrvPos) : List Nat :=
  left rrs now (min pos.no.toNat rrs.length) pos.tried

theorem next_dnsSrvGetNxtRr (rrs : List DnsRr) (now : UInt32) (k : Nat) (pos : SrvPos) :
    Next rrs now (min pos.no.toNat rrs.length) pos.tried (dnsSrvGetNxtRr rrs now (random k) pos) :=
  srvRetry_spec (by omega)

/-- The start of a group that is not cut to a byte is where the next call begins. -/
theorem leftAt_taken {n i tried} (hn : n < rrs.length) (hbyte : n < 256) (hi : i < (window (rrs.drop n)).length) :
    leftAt rrs now ⟨n.toUInt8, srvMarkTried tried i⟩ = (left rrs now n tried).erase (n + i) := by
  have hno : min n.toUInt8.toNat rrs.length = n := by
    have hcut : n.toUInt8.toNat = n % 256 := rfl
    omega
  rw [leftAt]
  simp only [hno]
  exact left_mark hi

/-- If it is cut, all that was left behind it is left, what was given out too. -/
theorem mem_leftAt_cut {n i tried tried'} (hbyte : 256 ≤ n) (hi : i ∈ left rrs now n tried) :
    i ∈ leftAt rrs now ⟨n.toUInt8, tried'⟩ := by
  obtain ⟨hle, husable, -⟩ := mem_left.1 hi
  have hlen := usableAt_lt husable
  have hcut : n.toUInt8.toNat = n % 256 := rfl
  have hwidth : (window (rrs.drop (min n.toUInt8.toNat rrs.length))).length ≤ 16 := length_window_le
  refine mem_left.2 ⟨?_, husable, ?_⟩
  · simp only
    omega
  · rw [triedAt, decide_eq_false (by simp only; omega), Bool.false_and]

/-- Each call takes one of the records that are left, of the least priority, while no start is cut. -/
theorem drains_dnsSrvGetNxtRr (hsorted : SortedRrs rrs)
    (hgrps : ∀ k, 256 ≤ grpAt rrs k → ∀ i, grpAt rrs k ≤ i → usableAt rrs now i = false) :
    Drain.Drains (fun k => dnsSrvGetNxtRr rrs now (random k)) (leftAt rrs now)
      (fun i j => prioAt rrs i ≤ prioAt rrs j) (fun pos => ∃ k, pos.no.toNat = grpAt rrs k) := by
  constructor
  · intro k pos _ hnil
    have hnext := next_dnsSrvGetNxtRr random rrs now k pos
    generalize dnsSrvGetNxtRr rrs now (random k) pos = r at hnext
    cases hnext with
    | done => rfl
    | taken hleft hn hi hmem =>
      rw [hleft, ← leftAt, hnil] at hmem
      cases hmem
  · rintro k pos ⟨m, hm⟩ hne
    have hnext := next_dnsSrvGetNxtRr random rrs now k pos
    generalize dnsSrvGetNxtRr rrs now (random k) pos = r at hnext
    cases hnext with
    | done pos' hleft => exact absurd hleft hne
    | @taken n i tried hleft hn hi hmem hgrp =>
      obtain ⟨l, hl⟩ := hgrp
      have hgrp : n = grpAt rrs (l + m) := by
        rw [hl, hm, Nat.min_eq_left (grpAt_le m), grpAt, grpAt, Function.iterate_add_apply]
      obtain ⟨-, husable, -⟩ := mem_left.1 hmem
      have hbyte : n < 256 := by
        by_contra hge
        have hunusable := hgrps (l + m) (by omega) (n + i) (by omega)
        rw [hunusable] at husable
        cases husable
      refine ⟨n + i, _, rfl, ⟨l + m, ?_⟩, ?_, ?_⟩
      · rw [← hgrp]
        exact Nat.mod_eq_of_lt hbyte
      · rw [leftAt_taken hn hbyte hi, leftAt, ← hleft]
        exact perm_cons_erase hmem
      · intro j hj
        rw [leftAt, ← hleft] at hj
        obtain ⟨hle, husable, -⟩ := mem_left.1 hj
        rw [prioAt_window hi]
        exact hsorted.prioAt_le hle (usableAt_lt husable)

/-- A record that is left comes out before the end. -/
theorem mem_of_leftAt {order : List Nat} {k pos x} (hx : x ∈ leftAt rrs now pos)
    (h : Drain.results (fun k => dnsSrvGetNxtRr rrs now (random k)) k (order.length + 1) pos =
      order.map some ++ [none]) :
    x ∈ order := by
  refine Drain.mem_of_results (leftAt rrs now) (fun k pos a hsome hx => ?_) (fun k pos hnone hx => ?_) hx h
  · have hnext := next_dnsSrvGetNxtRr random rrs now k pos
    generalize dnsSrvGetNxtRr rrs now (random k) pos = r at hnext hsome
    cases hnext with
    | done => cases hsome
    | @taken n i tried hleft hn hi hmem hgrp =>
      obtain rfl := Option.some.inj hsome
      rw [leftAt, ← hleft] at hx
      by_cases hbyte : n < 256
      · rw [leftAt_taken hn hbyte hi, nodup_left.mem_erase_iff]
        exact (eq_or_ne x (n + i)).imp Eq.symm fun hne => ⟨hne, hx⟩
      · exact .inr (mem_leftAt_cut (by omega) hx)
  · have hnext := next_dnsSrvGetNxtRr random rrs now k pos
    generalize dnsSrvGetNxtRr rrs now (random k) pos = r at hnext hnone
    cases hnext with
    | done _ hleft =>
      rw [leftAt, hleft] at hx
      cases hx
    | taken => cases hnone

/-- A start that is cut comes with a record that is given out again: by induction on the calls before it. -/
theorem not_nodup_of_cut {order : List Nat} {k m i pos} (hbyte : 256 ≤ grpAt rrs m) (hmi : grpAt rrs m ≤ i)
    (hpos : ∃ l, pos.no.toNat = grpAt rrs l) (hi : i ∈ leftAt rrs now pos)
    (h : Drain.results (fun k => dnsSrvGetNxtRr rrs now (random k)) k (order.length + 1) pos =
      order.map some ++ [none]) :
    ¬ order.Nodup := by
  induction order generalizing k pos with
  | nil => exact absurd (mem_of_leftAt random hi h) not_mem_nil
  | cons a order ih =>
    obtain ⟨hsome, hrest⟩ := cons.inj h
    obtain ⟨l, hl⟩ := hpos
    have hnext := next_dnsSrvGetNxtRr random rrs now k pos
    simp only at hsome hrest
    generalize dnsSrvGetNxtRr rrs now (random k) pos = r at hnext hsome hrest
    cases hnext with
    | done => cases hsome
    | @taken n j tried hleft hn hj hmem hgrp =>
      obtain rfl := Option.some.inj hsome
      obtain ⟨l', hl'⟩ := hgrp
      have hgrp : n = grpAt rrs (l' + l) := by
        rw [hl', hl, Nat.min_eq_left (grpAt_le l), grpAt, grpAt, Function.iterate_add_apply]
      by_cases hn256 : n < 256
      · -- `i` is in a group behind this one
        have hlt : n + j < grpAt rrs m := by
          rw [hgrp]
          exact lt_grpAt (hgrp ▸ hj) (by omega)
        have hi' : i ∈ leftAt rrs now ⟨n.toUInt8, srvMarkTried tried j⟩ := by
          rw [leftAt_taken hn hn256 hj, nodup_left.mem_erase_iff, hleft]
          exact ⟨by omega, hi⟩
        have hpos' : ∃ l, n.toUInt8.toNat = grpAt rrs l := ⟨l' + l, by rw [← hgrp]; exact Nat.mod_eq_of_lt hn256⟩
        exact fun hnodup => ih hpos' hi' hrest (nodup_cons.1 hnodup).2
      · have hagain := mem_of_leftAt random (mem_leftAt_cut (by omega) hmem) hrest
        exact fun hnodup => (nodup_cons.1 hnodup).1 hagain

end Calls

theorem left_zero : left rrs now 0 0 = (List.range rrs.length).filter (usableAt rrs now) := by
  apply filter_congr
  intro i _
  simp [triedAt, srvMarked]

/-- Fail-over gives out every record that is neither expired nor bad once, by increasing priority,
and then nothing, exactly if none of them is in a group that begins at 256 or behind. -/
theorem srv_failover_complete {rrs : List DnsRr} (hsorted : SortedRrs rrs) (now : UInt32)
    (random : Nat → (max : Nat) → Fin (max + 1)) :
    (∃ order : List Nat, order.Perm ((List.range rrs.length).filter (usableAt rrs now)) ∧
      order.Pairwise (fun i j => prioAt rrs i ≤ prioAt rrs j) ∧
      Drain.results (fun k => dnsSrvGetNxtRr rrs now (random k)) 0 (order.length + 1) ⟨0, 0⟩ =
        order.map some ++ [none]) ↔
    ∀ k, 256 ≤ grpAt rrs k → ∀ i, grpAt rrs k ≤ i → usableAt rrs now i = false := by
  have hstart : leftAt rrs now ⟨0, 0⟩ = (List.range rrs.length).filter (usableAt rrs now) := by
    rw [← left_zero, leftAt]
    exact congrArg (left rrs now · 0) (Nat.zero_min _)
  rw [← hstart]
  constructor
  · rintro ⟨order, hperm, -, hresults⟩ m hbyte i hmi
    by_contra husable
    have husable := Bool.eq_true_of_not_eq_false husable
    have hi : i ∈ leftAt rrs now ⟨0, 0⟩ := by
      rw [hstart, mem_filter, mem_range]
      exact ⟨usableAt_lt husable, husable⟩
    exact not_nodup_of_cut random hbyte hmi ⟨0, rfl⟩ hi hresults (hperm.nodup_iff.2 nodup_left)
  · intro hgrps
    exact (drains_dnsSrvGetNxtRr random hsorted hgrps).results (s := ⟨0, 0⟩) ⟨0, rfl⟩ 0

/-- Three servers of two priorities, the second of them bad. -/
def sampleRrs : List DnsRr := [⟨⟨1, 5⟩, 100, 0⟩, ⟨⟨1, 0⟩, 100, 1⟩, ⟨⟨2, 0⟩, 100, 0⟩]

theorem srv_failover_complete_sample :
    SortedRrs sampleRrs ∧ ∃ order : List Nat, order.Perm [0, 2] ∧
      Drain.results (fun _ => dnsSrvGetNxtRr sampleRrs 50 fun max => Fin.last max) 0 (order.length + 1) ⟨0, 0⟩ =
        order.map some ++ [none] := by
  have hsorted : SortedRrs sampleRrs := by
    simp only [SortedRrs, SortedByPriority, sampleRrs]
    decide
  refine ⟨hsorted, ?_⟩
  have hgrps : ∀ k, 256 ≤ grpAt sampleRrs k → ∀ i, grpAt sampleRrs k ≤ i → usableAt sampleRrs 50 i = false := by
    intro k hk
    have hlen : grpAt sampleRrs k ≤ 3 := grpAt_le k
    omega
  obtain ⟨order, hperm, -, hresults⟩ := (srv_failover_complete hsorted 50 fun _ max => .last max).2 hgrps
  exact ⟨order, hperm, hresults⟩

/-- The first and the last of 257 servers are usable. -/
def manyRrs : List DnsRr :=
  ⟨⟨0, 0⟩, 100, 0⟩ :: ((List.range 255).map fun i => ⟨⟨(i / 16 + 1).toUInt16, 0⟩, 100, 1⟩) ++
    [⟨⟨100, 0⟩, 100, 0⟩]

/-- The start of the last group is cut to a byte, and its server is given out again and again. -/
theorem many_servers_repeat :
    SortedRrs manyRrs ∧ Drain.results (fun _ => dnsSrvGetNxtRr manyRrs 50 fun max => Fin.last max) 0 4 ⟨0, 0⟩ =
      [some 0, some 256, some 256, some 256] := by
  constructor
  · let le : SrvRdata → SrvRdata → Prop := fun a b => a.priority ≤ b.priority
    have htrans : Trans le le le := ⟨UInt16.le_trans⟩
    have hchain : List.IsChain (fun a b => a.priority ≤ b.priority) (manyRrs.map DnsRr.rdata) := by decide +kernel
    exact (isChain_iff_pairwise (R := le)).1 hchain
  · decide +kernel

end SipRouter.Dns
