import SipRouter.Lib.Packed
import SipRouter.Lib.Threads

/-!
# Nonce ids

The nonces of a pool are numbered by a counter that goes up by 257 with each of
them, modulo 2³². A table that keeps something for each nonce has a partition of
`2 ^ k` slots for every pool, and a nonce uses the slot that the low bits of its id
name. As 257 is odd, a slot is used again after exactly `2 ^ k` nonces
(`rawIdx_eq_iff`), and by then the check that compares the distance of the ids
finds the older nonce too old (`overflow_iff`).
-/

namespace SipRouter.Auth

open BitVec Function

abbrev Nid := BitVec 32

/-- `NID_INC`. -/
def nidInc : Nid := 257#32

/-- The slots of one pool in a table, as `init_nonce_count` and `init_ot_nonce` accept them. -/
structure Partition where
  k : Nat
  fits : 2 ^ k < (2 ^ 32 - 1) / 257

variable {P : Partition} {pool : Nat}

namespace Partition

/-- `nc_partition_size`, `otn_partition_size`. -/
def size (P : Partition) : Nat := 2 ^ P.k

def mask (P : Partition) : Nid := (1#32 <<< P.k) - 1#32

/-- `get_nc_array_raw_idx`, `get_otn_array_bit_idx`. -/
def rawIdx (P : Partition) (id : Nid) (pool : Nat) : Nat := (id &&& P.mask).toNat + (pool <<< P.k)

/-- `nc_id_check_overflow`, `otn_id_check_overflow`, for the current id of the pool. -/
def overflow (P : Partition) (crt id : Nid) : Bool := nidInc * BitVec.ofNat 32 P.size ≤ crt - id

theorem size_pos : 0 < P.size := Nat.two_pow_pos P.k

theorem size_lt (P : Partition) : P.size < 16711935 := P.fits

theorem k_lt : P.k < 32 := by
  by_contra h
  have hpow : 2 ^ 32 ≤ 2 ^ P.k := Nat.pow_le_pow_right (by decide) (Nat.le_of_not_lt h)
  have := P.fits
  omega

theorem size_dvd : P.size ∣ 2 ^ 32 := pow_dvd_pow 2 (Nat.le_of_lt P.k_lt)

theorem toNat_mask : P.mask.toNat = 2 ^ P.k - 1 := by
  have hk := P.k_lt
  have hpow : 2 ^ P.k < 2 ^ 32 := Nat.pow_lt_pow_right (by decide) hk
  have hpos : 0 < 2 ^ P.k := Nat.two_pow_pos P.k
  have hone : (1#32 <<< P.k).toNat = 2 ^ P.k := by
    rw [toNat_shiftLeft, Nat.shiftLeft_eq]
    simpa using Nat.mod_eq_of_lt hpow
  rw [mask, toNat_sub, hone]
  simp only [toNat_ofNat]
  omega

theorem rawIdx_eq (P : Partition) (id : Nid) (pool : Nat) : P.rawIdx id pool = id.toNat % P.size + pool * P.size := by
  rw [rawIdx, toNat_and, toNat_mask, Nat.and_two_pow_sub_one_eq_mod, Nat.shiftLeft_eq, size]

/-- The slots of different pools are different. -/
theorem rawIdx_pool {id id' pool'} (h : P.rawIdx id pool = P.rawIdx id' pool') : pool = pool' := by
  rw [rawIdx_eq, rawIdx_eq] at h
  have hid : id.toNat % P.size < P.size := Nat.mod_lt _ P.size_pos
  have hid' : id'.toNat % P.size < P.size := Nat.mod_lt _ P.size_pos
  have hdiv : ∀ {a b : Nat}, a < P.size → (a + b * P.size) / P.size = b := by
    intro a b ha
    rw [Nat.add_mul_div_right _ _ P.size_pos, Nat.div_eq_of_lt ha, Nat.zero_add]
  calc pool = (id.toNat % P.size + pool * P.size) / P.size := (hdiv hid).symm
    _ = (id'.toNat % P.size + pool' * P.size) / P.size := by rw [h]
    _ = pool' := hdiv hid'

theorem rawIdx_lt (P : Partition) (id : Nid) {poolNo} (h : pool < poolNo) : P.rawIdx id pool < poolNo * P.size := by
  rw [rawIdx_eq]
  have hid : id.toNat % P.size < P.size := Nat.mod_lt _ P.size_pos
  have hmul : (pool + 1) * P.size ≤ poolNo * P.size := Nat.mul_le_mul_right _ h
  rw [Nat.add_mul, Nat.one_mul] at hmul
  omega

end Partition

/-- A table as an array of words. -/
abbrev Words := Nat → BitVec 32

/-- A table for the nonces of all pools. -/
structure Table where
  /-- `nid_pool_no` -/
  poolNo : Nat
  part : Partition

/-! ## Issued nonces -/

/-- A nonce of a pool. Its number `no` in the pool is not a part of the nonce as the code has it:
the ids repeat, the numbers do not. -/
structure Nonce where
  pool : Nat
  id : Nid
  no : Nat
  deriving DecidableEq

/-- The place of the nonce in the table. -/
def Table.pos (C : Table) (n : Nonce) : Nat := C.part.rawIdx n.id n.pool

/-- The `no`-th id after `start`. -/
def nidAt (start : Nid) (no : Nat) : Nid := start + nidInc * BitVec.ofNat 32 no

/-- The nonce is one of those that follow the ids `start` of the pools. -/
def Nonce.Of (start : Nat → Nid) (n : Nonce) : Prop := n.id = nidAt (start n.pool) n.no

theorem toNat_nidAt {start no} : (nidAt start no).toNat = (start.toNat + 257 * no) % 2 ^ 32 := by
  rw [nidAt, nidInc, toNat_add, toNat_mul, toNat_ofNat, toNat_ofNat]
  simp [Nat.add_mod, Nat.mul_mod]

theorem nidAt_succ {start no} : nidAt start (no + 1) = nidAt start no + nidInc := by
  apply eq_of_toNat_eq
  rw [toNat_add, toNat_nidAt, toNat_nidAt, nidInc]
  simp only [toNat_ofNat]
  omega

namespace Partition

/-- Two nonces of a pool have the same slot exactly when their numbers agree modulo the size of the
partition. -/
theorem rawIdx_eq_iff (P : Partition) (start : Nid) (pool no no' : Nat) :
    P.rawIdx (nidAt start no) pool = P.rawIdx (nidAt start no') pool ↔ no ≡ no' [MOD P.size] := by
  have hcop : Nat.gcd P.size 257 = 1 := Nat.Coprime.pow_left P.k (by decide)
  have hmod : ∀ m, (nidAt start m).toNat % P.size = (start.toNat + 257 * m) % P.size := by
    intro m
    rw [toNat_nidAt, Nat.mod_mod_of_dvd _ P.size_dvd]
  rw [rawIdx_eq, rawIdx_eq, hmod, hmod]
  constructor
  · intro h
    have hsum : start.toNat + 257 * no ≡ start.toNat + 257 * no' [MOD P.size] := by
      exact add_right_cancel h
    exact Nat.ModEq.cancel_left_of_coprime hcop (Nat.ModEq.add_left_cancel' _ hsum)
  · intro h
    exact congrArg (· + pool * P.size) (Nat.ModEq.add_left _ (Nat.ModEq.mul_left _ h))

/-- Two numbers that agree modulo the size of the partition are the same, or as far apart as the
partition is large. -/
theorem modEq_cases {no no'} (h : no ≡ no' [MOD P.size]) : no = no' ∨ no + P.size ≤ no' ∨ no' + P.size ≤ no := by
  rcases Nat.lt_trichotomy no no' with hlt | heq | hgt
  · right; left
    have hd := (Nat.modEq_iff_dvd' (Nat.le_of_lt hlt)).1 h
    have := Nat.le_of_dvd (by omega) hd
    omega
  · exact .inl heq
  · right; right
    have hd := (Nat.modEq_iff_dvd' (Nat.le_of_lt hgt)).1 h.symm
    have := Nat.le_of_dvd (by omega) hd
    omega

/-- As long as the counter has not come round, the check for an overflow counts the nonces that were
issued since. -/
theorem overflow_iff (P : Partition) (start : Nid) {no issued} (hle : no ≤ issued)
    (hround : 257 * (issued - no) < 2 ^ 32) :
    P.overflow (nidAt start issued) (nidAt start no) = true ↔ no + P.size ≤ issued := by
  have hdist : (nidAt start issued - nidAt start no).toNat = 257 * (issued - no) := by
    rw [toNat_sub, toNat_nidAt, toNat_nidAt]
    omega
  have hsize : (nidInc * BitVec.ofNat 32 P.size).toNat = 257 * P.size := by
    have := P.size_lt
    rw [toNat_mul, nidInc, toNat_ofNat, toNat_ofNat]
    omega
  rw [overflow, decide_eq_true_iff, le_def, hdist, hsize]
  omega

end Partition

/-! ## The counters of the pools -/

/-- `nid_crt`, with how many nonces each pool has issued and which nonces were handed out. -/
structure NidState where
  crt : Nat → Nid
  issued : Nat → Nat
  known : List Nonce

namespace NidState

variable {start : Nat → Nid} {s : NidState} {n m : Nonce}

def init (start : Nat → Nid) : NidState := ⟨start, fun _ => 0, []⟩

/-- `nid_inc`: one atomic addition, which returns the id. -/
def inc (s : NidState) (pool : Nat) : Nonce × NidState :=
  (⟨pool, s.crt pool + nidInc, s.issued pool + 1⟩,
    { s with
      crt := update s.crt pool (s.crt pool + nidInc)
      issued := update s.issued pool (s.issued pool + 1) })

/-- The nonce leaves the server in a challenge. -/
def give (s : NidState) (n : Nonce) : NidState := { s with known := n :: s.known }

/-- Fewer nonces than the partition has slots were issued since. -/
def InFlight (s : NidState) (P : Partition) (n : Nonce) : Prop := s.issued n.pool < n.no + P.size

instance (s : NidState) (P : Partition) (n : Nonce) : Decidable (s.InFlight P n) := inferInstanceAs (Decidable (_ < _))

/-- A nonce that was issued, handed out or not. -/
structure Issued (start : Nat → Nid) (s : NidState) (n : Nonce) : Prop where
  of : n.Of start
  le : n.no ≤ s.issued n.pool

structure Ok (start : Nat → Nid) (s : NidState) : Prop where
  crt : ∀ p, s.crt p = nidAt (start p) (s.issued p)
  known : ∀ n ∈ s.known, Issued start s n

theorem ok_init {start} : Ok start (init start) where
  crt p := by simp [init, nidAt]
  known n h := nomatch h

@[simp] theorem known_inc : (s.inc pool).2.known = s.known := rfl

@[simp] theorem pool_inc : (s.inc pool).1.pool = pool := rfl

theorem issued_inc_self : (s.inc pool).2.issued pool = s.issued pool + 1 := update_self ..

theorem issued_inc_of_ne {p} (h : p ≠ pool) : (s.inc pool).2.issued p = s.issued p := update_of_ne h ..

theorem issued_le_inc (s : NidState) (pool p : Nat) : s.issued p ≤ (s.inc pool).2.issued p := by
  rcases eq_or_ne p pool with rfl | h
  · rw [issued_inc_self]
    exact Nat.le_succ _
  · exact Nat.le_of_eq (issued_inc_of_ne h).symm

theorem Issued.inc (h : Issued start s n) (pool : Nat) : Issued start (s.inc pool).2 n :=
  ⟨h.of, h.le.trans (issued_le_inc s pool n.pool)⟩

theorem Issued.give (h : Issued start s n) (m) : Issued start (s.give m) n := ⟨h.of, h.le⟩

theorem Ok.issued_inc (h : Ok start s) {pool} : Issued start (s.inc pool).2 (s.inc pool).1 where
  of := by
    show s.crt pool + nidInc = nidAt (start pool) (s.issued pool + 1)
    rw [nidAt_succ, h.crt]
  le := Nat.le_of_eq (issued_inc_self).symm

theorem Ok.inc (h : Ok start s) (pool : Nat) : Ok start (s.inc pool).2 where
  crt p := by
    rcases eq_or_ne p pool with rfl | hp
    · rw [issued_inc_self, nidAt_succ, ← h.crt]
      exact update_self ..
    · rw [issued_inc_of_ne hp, ← h.crt]
      exact update_of_ne hp ..
  known n hn := (h.known n hn).inc pool

theorem Ok.give (h : Ok start s) (hn : Issued start s n) : Ok start (s.give n) where
  crt := h.crt
  known m hm := by
    rcases List.mem_cons.1 hm with rfl | hm
    · exact hn.give m
    · exact (h.known m hm).give n

/-- The next nonce is a new one. -/
theorem Issued.ne_inc (h : Issued start s n) {pool} : n ≠ (s.inc pool).1 := by
  rintro rfl
  have := h.le
  simp [NidState.inc] at this

theorem InFlight.of_inc (h : (s.inc pool).2.InFlight P n) : s.InFlight P n :=
  lt_of_le_of_lt (issued_le_inc s pool n.pool) h

/-- Two nonces that are not too far apart share no slot. -/
theorem slot_ne (hn : n.Of start) (hm : m.Of start) (hne : n ≠ m) (hnm : n.no < m.no + P.size)
    (hmn : m.no < n.no + P.size) :
    P.rawIdx n.id n.pool ≠ P.rawIdx m.id m.pool := by
  intro h
  have hpool := Partition.rawIdx_pool h
  rw [hn, hm, hpool, Partition.rawIdx_eq_iff] at h
  have hno : n.no = m.no := by
    rcases Partition.modEq_cases h with heq | hlt | hlt <;> omega
  apply hne
  have hid : n.id = m.id := by rw [hn, hm, hpool, hno]
  cases n
  cases m
  simp_all

end NidState

end SipRouter.Auth
