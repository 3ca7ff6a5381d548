import Mathlib.Data.List.Induction
import Mathlib.Data.Nat.Bitwise
import SipRouter.Perm.IpTree

/-!
# Sets of networks (`modules/permissions/ip_set.c`)

A tree stands for a trie over the bits of addresses (`Rep`). Finding an address is looking up its bits in the trie, and
adding a network is inserting its first bits. So a set of networks is the union of the networks that were added to it.
-/

namespace SipRouter.Perm

open Lib List

variable {n : Nat} {c : Cursor} {ip : List UInt8} {s : List UInt8} {networkPrefix : Nat} {i : Nat}

/-! ## Bits of byte strings -/

/-- The `n` bits from a cursor on. -/
def bitsFrom (s : List UInt8) : Cursor → Nat → List Bool
  | _, 0 => []
  | c, n + 1 => bitAt s c :: bitsFrom s c.next n

theorem length_bitsFrom : (bitsFrom s c n).length = n := by
  induction n generalizing c with
  | zero => rfl
  | succ n ih => rw [bitsFrom, length_cons, ih]

/-- The mask of a bit of a byte. -/
def maskOf (r : Nat) : UInt8 := 0x80 >>> r.toUInt8

/-- The cursor of the bit `i`. -/
def cursorAt (i : Nat) : Cursor := ⟨i / 8, maskOf (i % 8)⟩

theorem maskOf_next : ∀ r : Fin 7, maskOf r ≠ 0x01 ∧ maskOf r / 2 = maskOf (r + 1) := by decide

theorem maskOf_and : ∀ r q : Fin 8, (maskOf r &&& maskOf q = 0) = (r ≠ q) := by decide

theorem next_cursorAt : (cursorAt i).next = cursorAt (i + 1) := by
  unfold Cursor.next cursorAt
  by_cases h : i % 8 = 7
  · rw [h, if_pos (show maskOf 7 = 0x01 by decide),
      show (i + 1) / 8 = i / 8 + 1 by omega, show (i + 1) % 8 = 0 by omega]
    rfl
  · obtain ⟨hne, hhalf⟩ := maskOf_next ⟨i % 8, by omega⟩
    simp only at hne hhalf
    rw [if_neg hne, hhalf, show (i + 1) / 8 = i / 8 by omega, show (i + 1) % 8 = i % 8 + 1 by omega]

theorem bitsFrom_cursorAt (s) (i n : Nat) :
    bitsFrom s (cursorAt i) n = (List.range n).map fun k => bitAt s (cursorAt (i + k)) := by
  induction n generalizing i with
  | zero => rfl
  | succ n ih =>
    rw [bitsFrom, next_cursorAt, ih, range_succ_eq_map, map_cons, map_map]
    refine congrArg₂ _ rfl (map_congr_left fun k _ => ?_)
    rw [show i + 1 + k = i + (k + 1) by omega]
    rfl

/-- The bits of a network, or of an address. -/
def bitsOf (s : List UInt8) (n : Nat) : List Bool := bitsFrom s .start n

theorem bitsOf_eq {s} : bitsOf s n = (List.range n).map fun k => bitAt s (cursorAt k) := by
  have h := bitsFrom_cursorAt s 0 n
  simp only [zero_add] at h
  exact h

/-! ## Writing bits -/

/-- `n` bits are written: the bytes they need are there, and what is behind them in the last byte is clear. -/
structure Written (n : Nat) (out : List UInt8) : Prop where
  length : out.length = (n + 7) / 8
  clear : ∀ i, n ≤ i → i < 8 * out.length → bitAt out (cursorAt i) = false

theorem or_and_ne_zero (x m q : UInt8) : ((x ||| m) &&& q != 0) = ((x &&& q != 0) || (m &&& q != 0)) := by
  have hdistrib : (x ||| m) &&& q = (x &&& q) ||| (m &&& q) := by
    rw [← UInt8.toBitVec_inj]
    simp only [UInt8.toBitVec_and, UInt8.toBitVec_or]
    rw [BitVec.and_comm, BitVec.and_or_distrib_left, BitVec.and_comm, BitVec.and_comm q.toBitVec]
  rw [hdistrib, Bool.eq_iff_iff]
  simp only [bne_iff_ne, ne_eq, Bool.or_eq_true, UInt8.or_eq_zero_iff]
  tauto

variable {out : List UInt8} {n m : Nat} {nets : List (List UInt8 × Nat)} {t : BitTrie}

/-- Setting the bit `j` sets this bit and no other. -/
theorem bitAt_modify {i j} (hj : j / 8 < out.length) :
    bitAt (out.modify (j / 8) (· ||| maskOf (j % 8))) (cursorAt i) = (bitAt out (cursorAt i) || decide (i = j)) := by
  unfold bitAt cursorAt
  simp only [getD_eq_getElem?_getD, getElem?_modify]
  by_cases hbyte : j / 8 = i / 8
  · have hget : out[i / 8]? = some (out.get ⟨j / 8, hj⟩) := by rw [← hbyte]; simp
    rw [hget]
    simp only [hbyte, if_true, Option.map_eq_map, Option.map_some, Option.getD_some, or_and_ne_zero]
    congr 1
    have hmask := maskOf_and ⟨j % 8, by omega⟩ ⟨i % 8, by omega⟩
    simp only [ne_eq, Fin.mk.injEq] at hmask
    rw [Bool.eq_iff_iff, bne_iff_ne, ne_eq, hmask, Decidable.not_not, decide_eq_true_eq]
    omega
  · have hne : decide (i = j) = false := decide_eq_false fun h => hbyte (by rw [h])
    rw [hne, Bool.or_false]
    simp only [hbyte, if_false, Option.map_eq_map]
    simp

theorem bitAt_append_zero : bitAt (out ++ [0]) (cursorAt i) = bitAt out (cursorAt i) := by
  unfold bitAt cursorAt
  simp only [getD_eq_getElem?_getD, getElem?_append]
  split
  · rfl
  · rename_i h
    rw [getElem?_eq_none (Nat.le_of_not_lt h)]
    cases i / 8 - out.length <;> simp

theorem Written.putBit (h : Written n out) (bit : Bool) : Written (n + 1) (putBit out (cursorAt n) bit) ∧
      bitsOf (putBit out (cursorAt n) bit) (n + 1) = bitsOf out n ++ [bit] := by
  have hlen := h.length
  -- the byte of the bit is there, and the bit is clear
  let out1 := if (cursorAt n).mask = 0x80 then out ++ [0x00] else out
  have hmask : ((cursorAt n).mask = 0x80) = (n % 8 = 0) := by
    have hall : ∀ r : Fin 8, (maskOf r = 0x80) = (r.val = 0) := by decide
    exact hall ⟨n % 8, by omega⟩
  have hlen1 : out1.length = n / 8 + 1 := by
    by_cases h8 : n % 8 = 0
    · rw [show out1 = out ++ [0x00] from if_pos (hmask ▸ h8), length_append, hlen, length_singleton]
      omega
    · rw [show out1 = out from if_neg (hmask ▸ h8), hlen]
      omega
  have hbit1 : ∀ i, bitAt out1 (cursorAt i) = bitAt out (cursorAt i) := by
    intro i
    by_cases h8 : n % 8 = 0
    · rw [show out1 = out ++ [0x00] from if_pos (hmask ▸ h8)]
      exact bitAt_append_zero
    · rw [show out1 = out from if_neg (hmask ▸ h8)]
  have hout : SipRouter.Perm.putBit out (cursorAt n) bit = if bit then
      out1.modify (n / 8) (· ||| maskOf (n % 8)) else out1 :=
    rfl
  have hbits : ∀ i, bitAt (SipRouter.Perm.putBit out (cursorAt n) bit) (cursorAt i) =
      (bitAt out (cursorAt i) || (bit && decide (i = n))) := by
    intro i
    rw [hout]
    cases bit with
    | false => simp [hbit1]
    | true =>
      simp only [if_true, Bool.true_and]
      rw [bitAt_modify (by omega), hbit1]
  have hlen' : (SipRouter.Perm.putBit out (cursorAt n) bit).length = n / 8 + 1 := by
    rw [hout]
    cases bit with
    | false => exact hlen1
    | true => simpa using hlen1
  have hclear : ∀ i, n ≤ i → i < 8 * (n / 8 + 1) → bitAt out (cursorAt i) = false := by
    intro i hi hlt
    by_cases hin : i < 8 * out.length
    · exact h.clear i hi hin
    · unfold bitAt cursorAt
      simp only [getD_eq_getElem?_getD]
      rw [getElem?_eq_none (by omega)]
      simp
  refine ⟨⟨by omega, fun i hi hlt => ?_⟩, ?_⟩
  · rw [hbits, hclear i (by omega) (by omega)]
    have hne : decide (i = n) = false := decide_eq_false (by omega)
    simp [hne]
  · rw [bitsOf_eq, bitsOf_eq, range_succ, map_append]
    refine congrArg₂ _ (map_congr_left fun i hi => ?_) ?_
    · have hne : decide (i = n) = false := decide_eq_false (by have := mem_range.1 hi; omega)
      simp [hbits, hne]
    · simp [hbits, hclear n (le_refl _) (by omega)]

theorem bitsOf_copyBits (src) (n : Nat) (c) (h : Written m out) :
    bitsOf (copyBits src n c out (cursorAt m)) (m + n) = bitsOf out m ++ bitsFrom src c.next n := by
  induction n generalizing c m out with
  | zero => simp [copyBits, bitsFrom]
  | succ n ih =>
    obtain ⟨hw, hbits⟩ := h.putBit (bitAt src c.next)
    have ih := ih c.next hw
    rw [show m + 1 + n = m + (n + 1) by omega, hbits] at ih
    rw [copyBits, next_cursorAt, ih, bitsFrom, append_assoc]
    rfl

theorem bitsOf_copy {src n c} : bitsOf (copyBits src n c [] .start) n = bitsFrom src c.next n := by
  have hw : Written 0 [] := ⟨rfl, fun i _ hi => absurd hi (Nat.not_lt_zero i)⟩
  have h := bitsOf_copyBits src n c hw
  rw [zero_add] at h
  exact h

/-! ## Trees as tries -/

/-- A leaf and what is below it stand for a trie. There are no next leaves, or two. -/
inductive Rep : Leaf → BitTrie → Prop
  | all (len : Nat) (pm : List UInt8) : Rep (.leaf len .null .null pm) (.all (bitsOf pm len))
  | fork (len : Nat) (pm : List UInt8) {next0 next1 : Leaf} {t0 t1 : BitTrie} (h0 : Rep next0 t0) (h1 : Rep next1 t1) :
    Rep (.leaf len next0 next1 pm) (.fork (bitsOf pm len) t0 t1)

/-- How far an address agrees with the bits of a leaf, by how the loop ends. -/
def Agrees (ip pm : List UInt8) (left : Nat) (h : Compare) (r : Matched × Compare) : Prop :=
  match r.1 with
  | .differs => ∃ j < left, r.2.leafPrefixMatchLen = h.leafPrefixMatchLen + j ∧
      bitsFrom pm h.leafPrefixMatch left = bitsFrom pm h.leafPrefixMatch j
        ++ bitAt pm r.2.leafPrefixMatch :: bitsFrom pm r.2.leafPrefixMatch.next (left - j - 1) ∧
      bitsFrom ip h.ip h.ipLen = bitsFrom pm h.leafPrefixMatch j
        ++ (!bitAt pm r.2.leafPrefixMatch) :: bitsFrom ip r.2.ip.next (r.2.ipLen - 1)
  | .ipEnds =>
    ∃ j, r.2.leafPrefixMatchLen = h.leafPrefixMatchLen + j ∧
      bitsFrom ip h.ip h.ipLen = bitsFrom pm h.leafPrefixMatch j ∧
      ∃ rest, bitsFrom pm h.leafPrefixMatch left = bitsFrom pm h.leafPrefixMatch j ++ rest
  | .leafEnds => bitsFrom ip h.ip h.ipLen
      = bitsFrom pm h.leafPrefixMatch left ++ bitAt ip r.2.ip :: bitsFrom ip r.2.ip.next (r.2.ipLen - 1)

theorem matchLoop_agrees (ip pm) (left : Nat) (h) (hpos : 0 < h.ipLen) :
    Agrees ip pm left h (matchLoop ip pm left h) := by
  induction left generalizing h with
  | zero =>
    obtain ⟨n, hn⟩ := Nat.exists_eq_succ_of_ne_zero (Nat.ne_of_gt hpos)
    simp only [Agrees, matchLoop, hn]
    rfl
  | succ left ih =>
    obtain ⟨n, hn⟩ := Nat.exists_eq_succ_of_ne_zero (Nat.ne_of_gt hpos)
    have hip : bitsFrom ip h.ip h.ipLen = bitAt ip h.ip :: bitsFrom ip h.ip.next (h.ipLen - 1) := by
      rw [hn]
      rfl
    unfold matchLoop
    split
    · -- the first bit differs
      rename_i hne
      refine ⟨0, Nat.succ_pos _, rfl, rfl, ?_⟩
      rw [hip]
      have hbit : bitAt ip h.ip = !bitAt pm h.leafPrefixMatch := by
        revert hne
        cases bitAt ip h.ip <;> cases bitAt pm h.leafPrefixMatch <;> decide
      rw [hbit]
      rfl
    · rename_i heq
      have hbit : bitAt ip h.ip = bitAt pm h.leafPrefixMatch := by simpa using heq
      simp only
      split
      · rename_i hend
        refine ⟨1, rfl, ?_, bitsFrom pm h.leafPrefixMatch.next left, rfl⟩
        rw [hip, hend, hbit]
        rfl
      · -- the rest of the comparison, with the bit in front
        rename_i hmore
        have ih := ih { h with
          leafPrefixMatchLen := h.leafPrefixMatchLen + 1
          ipLen := h.ipLen - 1
          ip := h.ip.next
          leafPrefixMatch := h.leafPrefixMatch.next } (Nat.pos_of_ne_zero hmore)
        revert ih
        generalize matchLoop ip pm left _ = r
        unfold Agrees
        rw [hip]
        cases r.1 with
        | differs =>
          rintro ⟨j, hj, hlen, hpm, hrest⟩
          refine ⟨j + 1, by omega, by simp only at hlen; omega, ?_, ?_⟩
          · rw [bitsFrom, bitsFrom, hpm, show left + 1 - (j + 1) - 1 = left - j - 1 by omega]
            rfl
          · rw [bitsFrom, hrest, hbit]
            rfl
        | ipEnds =>
          rintro ⟨j, hlen, hrest, rest, hpm⟩
          refine ⟨j + 1, by simp only at hlen; omega, ?_, rest, ?_⟩
          · rw [bitsFrom, hrest, hbit]
          · rw [bitsFrom, bitsFrom, hpm]
            rfl
        | leafEnds =>
          intro hrest
          rw [bitsFrom, hrest, hbit]
          rfl

/-- Where nothing is found there is a leaf that differs. -/
theorem findFrom_notFound (l : Leaf) (c) (n : Nat) (h : (findFrom ip l c n).1 = .notFound) :
    (findFrom ip l c n).2.leaf ≠ .null := by
  induction l generalizing c n with
  | null => cases h
  | leaf len next0 next1 pm ih0 ih1 =>
    unfold findFrom at h ⊢
    by_cases hn : n = 0
    · rw [if_pos hn] at h
      cases h
    · simp only [if_neg hn] at h ⊢
      cases hm : (matchLoop ip pm len ⟨c, n, .start, 0⟩).1 with
      | differs => simp
      | ipEnds => simp [hm] at h
      | leafEnds =>
        cases hb : bitAt ip (matchLoop ip pm len ⟨c, n, .start, 0⟩).2.ip with
        | false =>
          simp only [hm, hb] at h ⊢
          exact ih0 _ _ h
        | true =>
          simp only [hm, hb] at h ⊢
          exact ih1 _ _ h

/-- What is done below a leaf is done to the next leaf. -/
theorem addAt_next {m len next0 next1 pm bit} {r : Ret × Find}
    (hr : r.1 = .notFound → r.2.leaf ≠ .null) :
    addAt (.leaf len next0 next1 pm) ip m (r.1, { r.2 with path := bit :: r.2.path })
      = match bit with
        | false => .leaf len (addAt next0 ip m r) next1 pm
        | true => .leaf len next0 (addAt next1 ip m r) pm := by
  unfold addAt
  cases h : r.1 with
  | found | foundUpperSet => cases bit <;> rfl
  | notFound =>
    cases hl : r.2.leaf with
    | null => exact absurd hl (hr h)
    | leaf => cases bit <;> rfl

/-- The comparison of a network with the bits of a leaf, and what is done at the leaf. -/
theorem rep_leaf {ip len next0 next1 pm rest deep}
    (hrest : ∀ k pm', Rep (.leaf k next0 next1 pm') (rest (bitsOf pm' k)))
    (hdeep : ∀ (b : Bool) c n, Rep
      (match b with
        | false => .leaf len (addAt next0 ip m (findFrom ip next0 c n)) next1 pm
        | true => .leaf len next0 (addAt next1 ip m (findFrom ip next1 c n)) pm)
      (BitTrie.pushes (bitsOf pm len) (deep b (bitsFrom ip c n)))) :
    Rep (addAt (.leaf len next0 next1 pm) ip m (findFrom ip (.leaf len next0 next1 pm) c n))
      (BitTrie.splice rest deep (bitsOf pm len) (bitsFrom ip c n)) := by
  unfold findFrom
  by_cases hn : n = 0
  · subst hn
    simp only [if_true]
    rw [show BitTrie.splice rest deep (bitsOf pm len) (bitsFrom ip c 0) = .all (bitsOf pm 0) from
      BitTrie.splice_within rest deep [] _]
    exact .all 0 pm
  · have hagrees := matchLoop_agrees ip pm len ⟨c, n, .start, 0⟩ (Nat.pos_of_ne_zero hn)
    simp only [if_neg hn]
    revert hagrees
    generalize matchLoop ip pm len ⟨c, n, .start, 0⟩ = r
    unfold Agrees
    cases hm : r.1 with
    | differs =>
      rintro ⟨j, hj, hlen, hpm, hip⟩
      simp only at hip hpm hlen ⊢
      rw [zero_add] at hlen
      rw [hip, show bitsOf pm len = _ from hpm, BitTrie.splice_differs]
      -- the leaf keeps the bits that agree; the rest of them and the rest of the network are next
      have h0 := hrest (len - j - 1) (copyBits pm (len - j - 1) r.2.leafPrefixMatch [] .start)
      rw [bitsOf_copy] at h0
      have h1 := Rep.all (r.2.ipLen - 1) (copyBits ip (r.2.ipLen - 1) r.2.ip [] .start)
      rw [bitsOf_copy] at h1
      rw [show addAt (.leaf len next0 next1 pm) ip m (.notFound, ⟨r.2, [], .leaf len next0 next1 pm⟩)
        = split ip r.2 (.leaf len next0 next1 pm) from rfl]
      simp only [split, BitTrie.branch, hlen]
      cases bitAt pm r.2.leafPrefixMatch with
      | false =>
        simp only [Bool.false_eq_true, if_false, BitTrie.pushes_fork, append_nil]
        exact .fork j pm h0 h1
      | true =>
        simp only [if_true, BitTrie.pushes_fork, append_nil]
        exact .fork j pm h1 h0
    | ipEnds =>
      rintro ⟨j, hlen, hip, rest', hpm⟩
      simp only at hip hpm hlen ⊢
      rw [zero_add] at hlen
      rw [hip, show bitsOf pm len = _ from hpm, BitTrie.splice_within]
      show Rep (.leaf r.2.leafPrefixMatchLen .null .null pm) _
      rw [hlen]
      exact .all j pm
    | leafEnds =>
      intro hip
      simp only at hip ⊢
      rw [hip, show bitsFrom pm .start len = bitsOf pm len from rfl, BitTrie.splice_past]
      have hd := hdeep (bitAt ip r.2.ip) r.2.ip.next (r.2.ipLen - 1)
      revert hd
      cases bitAt ip r.2.ip with
      | false =>
        intro hd
        rw [addAt_next (findFrom_notFound next0 _ _)]
        exact hd
      | true =>
        intro hd
        rw [addAt_next (findFrom_notFound next1 _ _)]
        exact hd

/-- Adding a network to a tree inserts its bits into the trie. -/
theorem rep_add (ip) (m : Nat) {l} (h : Rep l t) (c) (n : Nat) :
    Rep (addAt l ip m (findFrom ip l c n)) (t.insert (bitsFrom ip c n)) := by
  induction h generalizing c n with
  | all len pm =>
    refine rep_leaf (fun k pm' => .all k pm') (fun b c n => ?_)
    rw [BitTrie.pushes_all, append_nil]
    cases b <;> exact .all len pm
  | fork len pm h0 h1 ih0 ih1 =>
    refine rep_leaf (fun k pm' => .fork k pm' h0 h1) (fun b c n => ?_)
    cases b with
    | false =>
      rw [if_neg (by decide), BitTrie.pushes_fork, append_nil]
      exact .fork len pm (ih0 c n) h1
    | true =>
      rw [if_pos rfl, BitTrie.pushes_fork, append_nil]
      exact .fork len pm h0 (ih1 c n)

/-- Finding an address looks up its bits. -/
theorem rep_find (ip) {l} (h : Rep l t) (c) (n : Nat) :
    (findFrom ip l c n).1 ≠ .notFound ↔ t.hits (bitsFrom ip c n) := by
  -- a trie whose bits are those of a leaf, by how the comparison ends
  have leaf : ∀ {len : Nat} {next0 next1 : Leaf} {pm : List UInt8} {t : List Bool → BitTrie},
      (∀ bits bits', BitTrie.pushes bits (t bits') = t (bits ++ bits')) →
      (∀ (b : Bool) c n, (findFrom ip (if b then next1 else next0) c n).1 ≠ .notFound ↔
        (t []).hits (b :: bitsFrom ip c n)) →
      ∀ c n, (findFrom ip (.leaf len next0 next1 pm) c n).1 ≠ .notFound ↔
        (t (bitsOf pm len)).hits (bitsFrom ip c n) := by
    intro len next0 next1 pm t hpush hnext c n
    unfold findFrom
    by_cases hn : n = 0
    · subst hn
      simp [bitsFrom, BitTrie.hits_nil]
    · have hagrees := matchLoop_agrees ip pm len ⟨c, n, .start, 0⟩ (Nat.pos_of_ne_zero hn)
      simp only [if_neg hn]
      revert hagrees
      generalize matchLoop ip pm len ⟨c, n, .start, 0⟩ = r
      unfold Agrees
      cases hm : r.1 with
      | differs =>
        rintro ⟨j, -, -, hpm, hip⟩
        simp only at hip hpm ⊢
        rw [hip, show bitsOf pm len = _ from hpm, ← hpush, BitTrie.hits_pushes,
          show ∀ x bits, t (x :: bits) = (t bits).push x from fun x bits => (hpush [x] bits).symm, BitTrie.hits_push]
        cases bitAt pm r.2.leafPrefixMatch <;> simp
      | ipEnds =>
        rintro ⟨j, -, hip, rest, hpm⟩
        simp only at hip hpm ⊢
        rw [hip, show bitsOf pm len = _ from hpm, ← hpush]
        have hhits := BitTrie.hits_pushes (bitsFrom pm .start j) (t rest) []
        rw [append_nil, BitTrie.hits_nil] at hhits
        simp [hhits]
      | leafEnds =>
        intro hip
        simp only at hip ⊢
        have hbits := hpush (bitsOf pm len) []
        rw [append_nil] at hbits
        rw [hip, ← hbits, show bitsFrom pm .start len = bitsOf pm len from rfl, BitTrie.hits_pushes,
          ← hnext (bitAt ip r.2.ip) r.2.ip.next (r.2.ipLen - 1)]
        cases bitAt ip r.2.ip <;> rfl
  induction h generalizing c n with
  | all len pm =>
    refine leaf (fun bits bits' => BitTrie.pushes_all) (fun b c n => ?_) c n
    cases b <;> simp [findFrom, BitTrie.hits]
  | fork len pm h0 h1 ih0 ih1 =>
    refine leaf (fun bits bits' => BitTrie.pushes_fork bits bits' _ _) (fun b c n => ?_) c n
    cases b with
    | false => simpa [BitTrie.hits] using ih0 c n
    | true => simpa [BitTrie.hits] using ih1 c n

/-! ## Sets -/

/-- Address families. -/
inductive Family where
  | inet
  | inet6
  deriving DecidableEq

/-- The bytes of an address of a family. -/
def Family.len : Family → Nat
  | .inet => 4
  | .inet6 => 16

/-- `struct ip_addr`. -/
structure IpAddr where
  af : Family
  addr : List UInt8
  length_addr : addr.length = af.len

/-- `struct ip_set`. -/
structure IpSet where
  ipv4Tree : Leaf
  ipv6Tree : Leaf

/-- `ip_set_init`. -/
def ipSetInit : IpSet := ⟨.null, .null⟩

/-- The number of bits of a network that are compared. -/
def networkLen (ip : IpAddr) (networkPrefix : Nat) : Nat :=
  if ip.addr.length * 8 < networkPrefix then ip.addr.length * 8 else networkPrefix

/-- `ip_set_add_ip`. -/
def ipSetAddIp (set : IpSet) (ip : IpAddr) (networkPrefix : Nat) : IpSet :=
  match ip.af with
  | .inet => { set with ipv4Tree := (ipTreeAddIp set.ipv4Tree ip.addr (networkLen ip networkPrefix)).2 }
  | .inet6 => { set with ipv6Tree := (ipTreeAddIp set.ipv6Tree ip.addr (networkLen ip networkPrefix)).2 }

/-- `ip_set_ip_exists`. -/
def ipSetIpExists (set : IpSet) (ip : IpAddr) : Int :=
  let ret := match ip.af with
    | .inet => ipTreeFindIp set.ipv4Tree ip.addr (ip.addr.length * 8)
    | .inet6 => ipTreeFindIp set.ipv6Tree ip.addr (ip.addr.length * 8)
  if 0 < ret.1.value then 1 else 0

/-- The bit `i` of an address, from the most significant one on. -/
def IpAddr.bit (ip : IpAddr) (i : Nat) : Bool := (ip.addr.getD (i / 8) 0).toNat.testBit (7 - i % 8)

/-- An address lies in a network: it has its family, and the first bits are the same. -/
def IpAddr.InNetwork (ip net : IpAddr) (networkPrefix : Nat) : Prop :=
  ip.af = net.af ∧ ∀ i < networkPrefix, i < 8 * net.af.len → ip.bit i = net.bit i

/-! ## A set is the union of its networks -/

theorem bitAt_cursorAt (ip : IpAddr) : bitAt ip.addr (cursorAt i) = ip.bit i := by
  have hmask : ∀ r : Fin 8, (maskOf r).toNat = 2 ^ (7 - r.val) := by decide
  have hmask := hmask ⟨i % 8, by omega⟩
  unfold bitAt cursorAt IpAddr.bit
  simp only at hmask ⊢
  rw [Bool.eq_iff_iff, bne_iff_ne, ne_eq, ← UInt8.toNat_inj, UInt8.toNat_and, hmask, Nat.and_comm, Nat.two_pow_and]
  cases Nat.testBit _ _ <;> simp

theorem bitsOf_starts {s s'} (h : n ≤ m) :
    bitsOf s n <+: bitsOf s' m ↔ ∀ i < n, bitAt s' (cursorAt i) = bitAt s (cursorAt i) := by
  rw [prefix_iff_eq_take, show (bitsOf s n).length = n from length_bitsFrom, bitsOf_eq, bitsOf_eq, ← map_take,
    take_range, min_eq_left h]
  constructor
  · intro heq i hi
    exact (map_inj_left.1 heq i (mem_range.2 hi)).symm
  · intro heq
    exact map_congr_left fun i hi => (heq i (mem_range.1 hi)).symm

theorem bitsOf_take : bitsOf (if 0 < n then s.take ((n - 1) / 8 + 1) else []) n = bitsOf s n := by
  rw [bitsOf_eq, bitsOf_eq]
  refine map_congr_left fun i hi => ?_
  have hi := mem_range.1 hi
  unfold bitAt cursorAt
  rw [if_pos (by omega)]
  simp only [getD_eq_getElem?_getD, getElem?_take, if_pos (show i / 8 < (n - 1) / 8 + 1 by omega)]

/-- A tree over addresses of `n` bits is the union of networks. -/
def Union (tree : Leaf) (n : Nat) (nets : List (List UInt8 × Nat)) : Prop :=
  (tree = .null ∧ nets = []) ∨
    ∃ t, Rep tree t ∧ t.height ≤ n ∧ ∀ w, t.Mem w ↔ ∃ net ∈ nets, bitsOf net.1 net.2 <+: w

theorem Union.add {tree} (h : Union tree n nets) (ip) {len}
    (hlen : len ≤ n) : Union (ipTreeAddIp tree ip len).2 n (nets ++ [(ip, len)]) := by
  right
  rcases h with ⟨rfl, rfl⟩ | ⟨t, hrep, hheight, hmem⟩
  · refine ⟨.all (bitsOf ip len), ?_, ?_, fun w => ?_⟩
    · have hfirst := Rep.all len (if 0 < len then ip.take ((len - 1) / 8 + 1) else [])
      rw [bitsOf_take] at hfirst
      exact hfirst
    · exact le_trans (le_of_eq (length_bitsFrom)) hlen
    · simp [BitTrie.Mem]
  · refine ⟨t.insert (bitsOf ip len), ?_, ?_, fun w => ?_⟩
    · have hadd := rep_add ip len hrep .start len
      cases hrep <;> exact hadd
    · have hins := BitTrie.height_insert t (bitsOf ip len)
      rw [show (bitsOf ip len).length = len from length_bitsFrom] at hins
      omega
    · rw [BitTrie.mem_insert, hmem]
      simp only [mem_append, mem_singleton, or_and_right, exists_or, exists_eq_left]
      exact or_comm

theorem Union.find {tree} (h : Union tree n nets) (ip) :
    (ipTreeFindIp tree ip n).1 ≠ .notFound ↔ ∃ net ∈ nets, bitsOf net.1 net.2 <+: bitsOf ip n := by
  rcases h with ⟨rfl, rfl⟩ | ⟨t, hrep, hheight, hmem⟩
  · simp [ipTreeFindIp]
  · have hfind := rep_find ip hrep .start n
    rw [BitTrie.hits_iff t _ (le_trans hheight (le_of_eq (length_bitsFrom).symm)), hmem] at hfind
    cases hrep <;> exact hfind

/-- The tree of a family. -/
def IpSet.tree (set : IpSet) : Family → Leaf
  | .inet => set.ipv4Tree
  | .inet6 => set.ipv6Tree

/-- The networks of a family. -/
def netsOf (f : Family) (nets : List (IpAddr × Nat)) : List (List UInt8 × Nat) :=
  (nets.filter fun net => net.1.af = f).map fun net => (net.1.addr, networkLen net.1 net.2)

theorem networkLen_le {ip} : networkLen ip networkPrefix ≤ ip.af.len * 8 := by
  unfold networkLen
  rw [ip.length_addr]
  split <;> omega

theorem addIp_tree {set ip f} : (ipSetAddIp set ip networkPrefix).tree f
      = if ip.af = f then (ipTreeAddIp (set.tree f) ip.addr (networkLen ip networkPrefix)).2 else set.tree f := by
  unfold ipSetAddIp IpSet.tree
  cases ip.af <;> cases f <;> rfl

theorem union_adds (nets) (f : Family) :
    Union ((nets.foldl (fun set net => ipSetAddIp set net.1 net.2) ipSetInit).tree f) (f.len * 8) (netsOf f nets) := by
  induction nets using List.reverseRecOn with
  | nil =>
    left
    cases f <;> exact ⟨rfl, rfl⟩
  | append_singleton nets net ih =>
    rw [foldl_append, foldl_cons, foldl_nil, addIp_tree, netsOf, filter_append, map_append]
    by_cases hf : net.1.af = f
    · subst hf
      simpa [netsOf] using ih.add net.1.addr (networkLen_le)
    · simpa [netsOf, hf] using ih

/-- After any networks have been added, an address is in the set if and only if it lies in one of them. -/
theorem ip_exists_iff (nets : List (IpAddr × Nat)) (ip : IpAddr) :
    0 < ipSetIpExists (nets.foldl (fun set net => ipSetAddIp set net.1 net.2) ipSetInit) ip ↔
      ∃ net ∈ nets, ip.InNetwork net.1 net.2 := by
  have hfind := (union_adds nets ip.af).find ip.addr
  have hexists : ∀ set : IpSet, 0 < ipSetIpExists set ip ↔
      (ipTreeFindIp (set.tree ip.af) ip.addr (ip.af.len * 8)).1 ≠ .notFound := by
    intro set
    have hvalue : ∀ ret : Ret, (0 : Int) < (if 0 < ret.value then 1 else 0) ↔ ret ≠ .notFound := by
      intro ret
      cases ret <;> decide
    unfold ipSetIpExists IpSet.tree
    rw [ip.length_addr]
    cases ip.af <;> exact hvalue _
  rw [hexists, hfind]
  simp only [netsOf, mem_map, mem_filter, decide_eq_true_eq]
  have hin : ∀ net : IpAddr × Nat, net.1.af = ip.af →
      (bitsOf net.1.addr (networkLen net.1 net.2) <+: bitsOf ip.addr (ip.af.len * 8) ↔ ip.InNetwork net.1 net.2) := by
    intro net haf
    rw [bitsOf_starts (haf ▸ networkLen_le)]
    simp only [bitAt_cursorAt, IpAddr.InNetwork, networkLen, net.1.length_addr]
    constructor
    · intro h
      refine ⟨haf.symm, fun i hi hlen => h i ?_⟩
      split <;> omega
    · rintro ⟨-, h⟩ i hi
      refine h i ?_ ?_ <;> (split at hi <;> omega)
  constructor
  · rintro ⟨_, ⟨net, ⟨hmem, haf⟩, rfl⟩, h⟩
    exact ⟨net, hmem, (hin net haf).1 h⟩
  · rintro ⟨net, hmem, h⟩
    exact ⟨_, ⟨net, ⟨hmem, h.1.symm⟩, rfl⟩, (hin net h.1.symm).2 h⟩

end SipRouter.Perm
