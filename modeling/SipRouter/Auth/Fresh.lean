import SipRouter.Auth.Nonce

/-!
# Fresh nonces

A nonce that was just issued is accepted in the first request that brings it, unless
both nonce counts and one-time nonces are in use (`fresh_nonce_usable_iff`). Then
`build_challenge_hf` passes the pool to `otn_new` with a flag already in it, and the
bit that is cleared lies outside of the table (`challenge_outside_table`); the bit that
`otn_check_id` reads is still set.
-/

namespace SipRouter.Auth

open Lib List Function

variable {A : AuthConfig} {processNo : Nat}

/-! ## The bytes of a nonce -/

theorem ntohl_htonl (x) : ntohl (htonl x) = x := by
  apply BitVec.eq_of_toNat_eq
  have hx := x.isLt
  simp only [ntohl, htonl, foldl_cons, foldl_nil, UInt8.toNat_ofNat', BitVec.toNat_ofNat]
  omega

theorem slice_append {pre mid post off n} (hoff : pre.length = off)
    (hn : mid.length = n) : slice off n (pre ++ (mid ++ post)) = mid := by
  rw [slice, drop_left' hoff, take_left' hn]

section Raw

variable (E : Codec) (A : AuthConfig)

/-- The times of a nonce, as `calcNonce` writes them. -/
def timesOf (since expires : Int) : Bytes := htonl (BitVec.ofInt 32 expires) ++ htonl (BitVec.ofInt 32 since)

/-- A nonce before it is encoded. -/
def rawOf (cfg : BitVec 32) (since expires : Int) (nId : Nid) (pf : UInt8) (msg : AuthMsg) : Bytes :=
  timesOf since expires ++ (md51 E A (timesOf since expires) (htonl nId ++ [pf]) pf ++
    ((if cfg ≠ 0#32 then md52 E A cfg msg else []) ++ (if hasNid pf then htonl nId ++ [pf] else [])))

variable {E A} {cfg : BitVec 32} {since expires : Int} {nId : Nid} {pf : UInt8} {msg : AuthMsg}

theorem length_md52 : (if cfg ≠ 0#32 then md52 E A cfg msg else []).length = if cfg ≠ 0#32 then 16 else 0 := by
  rw [apply_ite List.length]
  exact if_congr .rfl (E.md5_length _) rfl

theorem length_rawOf : (rawOf E A cfg since expires nId pf msg).length = binNonceLen cfg pf := by
  have hnid : (if hasNid pf then htonl nId ++ [pf] else []).length = if hasNid pf then 5 else 0 := by
    rw [apply_ite List.length]
    rfl
  have hmd5 : (md51 E A (timesOf since expires) (htonl nId ++ [pf]) pf).length = 16 := E.md5_length _
  have htimes : (timesOf since expires).length = 8 := rfl
  rw [rawOf, length_append, length_append, length_append, length_md52, hnid, hmd5, htimes, binNonceLen]
  split_ifs <;> rfl

theorem slice_expires : slice 0 4 (rawOf E A cfg since expires nId pf msg) = htonl (BitVec.ofInt 32 expires) := by
  rw [rawOf, timesOf, append_assoc]
  exact take_left' rfl

theorem slice_since : slice 4 4 (rawOf E A cfg since expires nId pf msg) = htonl (BitVec.ofInt 32 since) := by
  rw [rawOf, timesOf, append_assoc]
  exact slice_append rfl rfl

theorem slice_times : slice 0 8 (rawOf E A cfg since expires nId pf msg) = timesOf since expires := take_left' rfl

theorem slice_md51 : slice 8 16 (rawOf E A cfg since expires nId pf msg) = md51 E A
    (timesOf since expires) (htonl nId ++ [pf]) pf :=
  slice_append rfl (E.md5_length _)

theorem slice_md52 (hcfg : cfg ≠ 0#32) : slice 24 16 (rawOf E A cfg since expires nId pf msg) = md52 E A cfg msg := by
  rw [rawOf, if_pos hcfg, ← append_assoc]
  apply slice_append
  · rw [length_append, md51, E.md5_length]
    rfl
  · exact E.md5_length _

/-- Where the id of a nonce is. -/
def nidOff (cfg : BitVec 32) : Nat := if cfg ≠ 0#32 then 40 else 24

/-- The nonce up to its id. -/
theorem rawOf_split : ∃ pre : Bytes, pre.length = nidOff cfg ∧
    rawOf E A cfg since expires nId pf msg = pre ++ (if hasNid pf then htonl nId ++ [pf] else []) := by
  refine ⟨timesOf since expires ++ (md51 E A (timesOf since expires) (htonl nId ++ [pf]) pf ++
    (if cfg ≠ 0#32 then md52 E A cfg msg else [])), ?_, ?_⟩
  · rw [length_append, length_append, length_md52, md51, E.md5_length, nidOff]
    split_ifs <;> rfl
  · rw [rawOf, append_assoc, append_assoc]

theorem slice_nid (h : hasNid pf = true) :
    slice (nidOff cfg) 5 (rawOf E A cfg since expires nId pf msg) = htonl nId ++ [pf] := by
  obtain ⟨pre, hpre, hraw⟩ := @rawOf_split E A cfg since expires nId pf msg
  rw [hraw, if_pos h, slice, drop_left' hpre]
  rfl

theorem slice_nId (h : hasNid pf = true) :
    slice (nidOff cfg) 4 (rawOf E A cfg since expires nId pf msg) = htonl nId := by
  obtain ⟨pre, hpre, hraw⟩ := @rawOf_split E A cfg since expires nId pf msg
  rw [hraw, if_pos h]
  exact slice_append hpre rfl

/-- A nonce without an id reads as one with the byte 0. -/
theorem getD_pf (h : hasNid pf = true ∨ pf = 0) :
    (rawOf E A cfg since expires nId pf msg).getD (nidOff cfg + 4) 0 = pf := by
  obtain ⟨pre, hpre, hraw⟩ := @rawOf_split E A cfg since expires nId pf msg
  rw [hraw, getD_append_right _ _ _ _ (by omega), hpre, Nat.add_sub_cancel_left]
  rcases h with h | rfl
  · rw [if_pos h]
    rfl
  · rfl

end Raw

/-! ## What the check makes of it -/

section Check

variable {E : Codec} {A : AuthConfig} {cfg : BitVec 32} {since expires t : Int} {nId : Nid}
  {pf : UInt8} {msg msg' : AuthMsg} {auth : AuthBody} {s : AuthState}

/-- The buffer of a challenge is large enough for its nonce. -/
theorem calcNonce_eq {nidEnabled} (hpf : hasNid pf = nidEnabled)
    (hnc : (decide (pf &&& nfValidNcId ≠ 0) : Bool) → nidEnabled) :
    calcNonce E A (getNonceLen cfg nidEnabled) cfg since expires nId pf msg =
      some (E.enc (rawOf E A cfg since expires nId pf msg)) := by
  have hraw : timesOf since expires ++ md51 E A (timesOf since expires) (htonl nId ++ [pf]) pf ++
      (if cfg ≠ 0#32 then md52 E A cfg msg else []) ++ (if hasNid pf then htonl nId ++ [pf] else []) =
      rawOf E A cfg since expires nId pf msg := by
    rw [rawOf, append_assoc, append_assoc]
  have hshort : ¬ (getNonceLen cfg nidEnabled < maxNonceLen ∧
      getNonceLen cfg nidEnabled < getNonceLen cfg (pf &&& nfValidNcId ≠ 0)) := by
    rintro ⟨-, hlt⟩
    have hle : getNonceLen cfg (pf &&& nfValidNcId ≠ 0) ≤ getNonceLen cfg nidEnabled := by
      cases hb : (decide (pf &&& nfValidNcId ≠ 0) : Bool) with
      | true => rw [hnc hb]
      | false =>
        apply Nat.mul_le_mul_right
        apply Nat.div_le_div_right
        cases nidEnabled <;> simp
    omega
  have hlen : ¬ getNonceLen cfg nidEnabled <
      base64EncLen (rawOf E A cfg since expires nId pf msg).length := by
    rw [length_rawOf, binNonceLen, hpf, getNonceLen]
    simp only [base64EncLen]
    split_ifs <;> omega
  show (if _ then _ else if getNonceLen cfg nidEnabled < base64EncLen (List.length (timesOf since
    expires ++ md51 E A (timesOf since expires) (htonl nId ++ [pf]) pf ++ _ ++ _)) then none else
    some (E.enc (timesOf since expires ++ md51 E A (timesOf since expires) (htonl nId ++ [pf]) pf ++ _ ++ _))) = _
  rw [hraw, if_neg hshort, if_neg hlen]

theorem toInt_ofInt {x} (h : 0 ≤ x) (hx : x < 2 ^ 31) : (BitVec.ofInt 32 x).toInt = x := by
  rw [BitVec.toInt_ofInt, Int.bmod_eq_of_le] <;> omega

theorem toNat_ofInt {x} (h : 0 ≤ x) (hx : x < 2 ^ 31) : ((BitVec.ofInt 32 x).toNat : Int) = x := by
  rw [BitVec.toNat_ofInt]
  omega

theorem checkStale_raw (h : t ≤ expires) (h0 : 0 ≤ expires) (hx : expires < 2 ^ 31) :
    checkStale t (rawOf E A cfg since expires nId pf msg) = 0 := by
  rw [checkStale, slice_expires, ntohl_htonl, toNat_ofInt h0 hx, if_neg (by omega)]

theorem checkExtra_raw (hcfg : getAuthChecks A msg' = cfg)
    (hinfo : extraInfo cfg msg' = extraInfo cfg msg) (h : t ≤ expires) (h0 : 0 ≤ expires) (hx : expires < 2 ^ 31) :
    checkExtra E A t (rawOf E A cfg since expires nId pf msg) pf msg' = 0 := by
  have hmd5 : md52 E A cfg msg' = md52 E A cfg msg := by rw [md52, md52, hinfo]
  simp only [checkExtra, hcfg, length_rawOf]
  rw [if_neg (fun hlen => hlen.2 rfl), if_neg, checkStale_raw h h0 hx]
  rintro ⟨hne, hmd⟩
  rw [slice_md52 hne, hmd5] at hmd
  exact hmd rfl

/-- The nonce passes the checks that do not look at the tables. -/
theorem checkNonce_raw (hauth : auth.nonce = some (E.enc (rawOf E A cfg since expires nId pf msg)))
    (hcfg : getAuthChecks A msg' = cfg) (hpf : hasNid pf = true ∨ pf = 0)
    (hot : A.otnEnabled = true → pf &&& nfValidOtId ≠ 0) (h0 : 0 ≤ since) (hx : since < 2 ^ 31)
    (hup : A.upSince ≤ since) (hdrift : since ≤ t + A.nonceAuthMaxDrift) :
    checkNonce E A t auth msg' s = checkCount E A t (rawOf E A cfg since expires nId pf msg)
      (ntohl (slice (nidOff cfg) 4 (rawOf E A cfg since expires nId pf msg))) pf auth msg' s := by
  have hmin : ¬ (E.enc (rawOf E A cfg since expires nId pf msg)).length < minNonceLen := by
    rw [E.enc_length, length_rawOf, minNonceLen, base64EncLen, binNonceLen]
    split_ifs <;> omega
  have hlen : ¬ binNonceLen cfg pf < 24 := by
    rw [binNonceLen]
    split_ifs <;> omega
  have hmd5 : ¬ slice 8 16 (rawOf E A cfg since expires nId pf msg) ≠
      md51 E A (timesOf since expires) (slice (nidOff cfg) 5 (rawOf E A cfg since expires nId pf msg)) pf := by
    rw [not_not, slice_md51, md51, md51]
    by_cases hnid : hasNid pf = true
    · rw [slice_nid hnid]
    · rw [if_neg hnid, if_neg hnid]
  have hpfOff := @getD_pf E A cfg since expires nId pf msg hpf
  simp only [nidOff] at hpfOff
  simp only [checkNonce, hauth, hcfg, E.dec_enc, hpfOff, slice_since, slice_times, ntohl_htonl,
    toInt_ofInt h0 hx, length_rawOf]
  rw [if_neg hmin, if_neg hlen, if_neg (by omega), if_neg (by omega), if_neg (fun h => hot h.1 h.2)]
  exact if_neg hmd5

end Check

/-! ## The pool and its flags -/

/-- `nid_get_pool`. -/
def poolOf (A : AuthConfig) (processNo : Nat) : Nat := processNo &&& (2 ^ A.poolK - 1)

theorem poolOf_lt (A) (processNo : Nat) : poolOf A processNo < A.poolNo := by
  rw [poolOf, Nat.and_two_pow_sub_one_eq_mod]
  exact Nat.mod_lt _ (Nat.two_pow_pos _)

theorem poolNo_le : A.poolNo ≤ 64 := Nat.pow_le_pow_right (by decide) A.poolK_le

theorem poolOf_lt_64 : poolOf A processNo < 64 := lt_of_lt_of_le (poolOf_lt A processNo) (poolNo_le)

/-- The byte of a nonce with one flag: it has an id, its flag is found, and its pool. -/
theorem flags_nc : ∀ p < 64, hasNid (UInt8.ofNat p ||| nfValidNcId) = true ∧
    (UInt8.ofNat p ||| nfValidNcId) &&& nfValidNcId ≠ 0 ∧
    ((UInt8.ofNat p ||| nfValidNcId) &&& nfPoolNoMask).toNat = p := by
  decide

theorem flags_otn : ∀ p < 64, hasNid (UInt8.ofNat p ||| nfValidOtId) = true ∧
    (UInt8.ofNat p ||| nfValidOtId) &&& nfValidNcId = 0 ∧
    (UInt8.ofNat p ||| nfValidOtId) &&& nfValidOtId ≠ 0 ∧
    ((UInt8.ofNat p ||| nfValidOtId) &&& nfPoolNoMask).toNat = p := by
  decide

/-- The pool with the flag of nonce counts, as `otn_new` takes it for a pool. -/
theorem toNat_flagged : ∀ p < 64, (UInt8.ofNat p ||| nfValidNcId).toNat = p + 128 := by
  decide

theorem toNat_pool : ∀ p < 64, (UInt8.ofNat p).toNat = p := by
  decide

variable {j pool : Nat} {P : Partition}

section Tables

variable {A : AuthConfig} {processNo : Nat} {s : AuthState} {nId : Nid}

theorem newNonceId_none (hnc : A.ncEnabled = false) (hotn : A.otnEnabled = false) :
    newNonceId A processNo s = ⟨0#32, 0, s, []⟩ := by
  simp [newNonceId, hnc, hotn]

theorem newNonceId_nc (hnc : A.ncEnabled = true) (hotn : A.otnEnabled = false)
    (hpool : poolOf A processNo = pool) :
    newNonceId A processNo s = ⟨(s.nid.inc pool).1.id, UInt8.ofNat pool ||| nfValidNcId,
      { s with
        nid := (s.nid.inc pool).2
        ncArray := ncNew A.ncTable (s.nid.inc pool).1.id pool s.ncArray },
      [.nid pool, .nc (ncUintIdx (A.nc.rawIdx (s.nid.inc pool).1.id pool))]⟩ := by
  have hp : (UInt8.ofNat pool).toNat = pool := toNat_pool pool (hpool ▸ poolOf_lt_64)
  rw [poolOf] at hpool
  simp [newNonceId, hnc, hotn, hpool, hp]

theorem newNonceId_otn (hnc : A.ncEnabled = false) (hotn : A.otnEnabled = true)
    (hpool : poolOf A processNo = pool) :
    newNonceId A processNo s = ⟨(s.nid.inc pool).1.id, UInt8.ofNat pool ||| nfValidOtId,
      { s with
        nid := (s.nid.inc pool).2
        otnArray := otnNew A.otnTable (s.nid.inc pool).1.id pool s.otnArray },
      [.nid pool, .otn (otnCellIdx (A.otn.rawIdx (s.nid.inc pool).1.id pool))]⟩ := by
  have hp : (UInt8.ofNat pool).toNat = pool := toNat_pool pool (hpool ▸ poolOf_lt_64)
  rw [poolOf] at hpool
  simp [newNonceId, hnc, hotn, hpool, hp]

/-- With both in use, `otn_new` works on a pool that does not exist. -/
theorem touched_both (hnc : A.ncEnabled = true) (hotn : A.otnEnabled = true) (hpool : poolOf A processNo = pool) :
    .otn (otnCellIdx (A.otn.rawIdx (s.nid.inc pool).1.id (pool + 128))) ∈ (newNonceId A processNo s).touched := by
  have hlt : pool < 64 := hpool ▸ poolOf_lt_64
  have hp : (UInt8.ofNat pool).toNat = pool := toNat_pool pool hlt
  have hf := toNat_flagged pool hlt
  rw [poolOf] at hpool
  simp [newNonceId, hnc, hotn, hpool, hp, hf]

theorem inside_pair {b : Access} (h : pool < A.poolNo) (hb : b.Inside A) : ∀ a ∈ [.nid pool, b], a.Inside A := by
  intro a ha
  rcases mem_cons.1 ha with rfl | ha
  · exact h
  · rw [mem_singleton.1 ha]
    exact hb

theorem inside_nc (h : pool < A.poolNo) : (Access.nc (ncUintIdx (A.nc.rawIdx nId pool))).Inside A := by
  have hlt := A.nc.rawIdx_lt nId h
  simp only [Access.Inside, ncUintIdx]
  omega

theorem inside_otn (h : pool < A.poolNo) : (Access.otn (otnCellIdx (A.otn.rawIdx nId pool))).Inside A := by
  have hlt := A.otn.rawIdx_lt nId h
  simp only [Access.Inside, otnCellIdx]
  omega

/-- The table ends before the pool 128. -/
theorem outside_otn (pool : Nat) : ¬ (Access.otn (otnCellIdx (A.otn.rawIdx nId (pool + 128)))).Inside A := by
  have hsize : 2 ^ 6 ≤ A.otn.size := Nat.pow_le_pow_right (by decide) A.otn_k
  have hidx : 128 * A.otn.size ≤ A.otn.rawIdx nId (pool + 128) := by
    rw [Partition.rawIdx_eq, add_mul]
    omega
  have htab : A.poolNo * A.otn.size ≤ 64 * A.otn.size := Nat.mul_le_mul_right _ (poolNo_le)
  simp only [Access.Inside, otnCellIdx]
  omega

/-! ## What happens in between -/

/-- What other processes do: challenges, and the checks of other requests. -/
inductive AuthOp where
  | challenge (processNo : Nat)
  | ncCheck (nId : Nid) (pool : Nat) (nc : BitVec 32)
  | otnCheck (nId : Nid) (pool : Nat)

def AuthOp.apply (A : AuthConfig) (s : AuthState) : AuthOp → AuthState
  | .challenge processNo => (newNonceId A processNo s).state
  | .ncCheck nId pool nc =>
    { s with ncArray := (ncCheckVal A.ncTable nId pool nc (s.nid.crt pool) s.ncArray).2 }
  | .otnCheck nId pool =>
    { s with otnArray := (otnCheckId A.otnTable nId pool (s.nid.crt pool) s.otnArray).2 }

def runAuthOps (A : AuthConfig) (ops : List AuthOp) (s : AuthState) : AuthState := ops.foldl (AuthOp.apply A) s

/-- The challenges of a pool. -/
def challengesIn (A : AuthConfig) (pool : Nat) (ops : List AuthOp) : Nat :=
  ops.countP fun
    | .challenge processNo => poolOf A processNo = pool
    | _ => false

/-- The check is not one of the slot. -/
def AuthOp.Spares (A : AuthConfig) (nId : Nid) (pool : Nat) : AuthOp → Prop
  | .challenge _ => True
  | .ncCheck nId' pool' _ => A.nc.rawIdx nId' pool' ≠ A.nc.rawIdx nId pool
  | .otnCheck nId' pool' => A.otn.rawIdx nId' pool' ≠ A.otn.rawIdx nId pool

/-- The slots of the nonce are not used again: too few nonces follow it in its pool, and no check of
another nonce has its slot. -/
structure SlotKept (A : AuthConfig) (nId : Nid) (pool : Nat) (ops : List AuthOp) : Prop where
  nc : A.ncEnabled = true → challengesIn A pool ops < A.nc.size
  otn : A.otnEnabled = true → challengesIn A pool ops < A.otn.size
  spares : ∀ op ∈ ops, op.Spares A nId pool

/-- The nonce has not been used, and `j` nonces were issued in its pool since. -/
structure Unused (A : AuthConfig) (nId : Nid) (pool j : Nat) (s : AuthState) : Prop where
  crt : s.nid.crt pool = nidAt nId j
  nc : A.ncEnabled = true → Packed.slot 8 s.ncArray (A.nc.rawIdx nId pool) = 0#32
  otn : A.otnEnabled = true → otnBit s.otnArray (A.otn.rawIdx nId pool) = false

theorem nidAt_zero : nidAt nId 0 = nId := by
  simp [nidAt]

/-- The next nonces of a pool have other slots. -/
theorem rawIdx_next_ne (hj : j + 1 < P.size) : P.rawIdx (nidAt nId (j + 1)) pool ≠ P.rawIdx nId pool := by
  intro h
  have h0 : P.rawIdx (nidAt nId (j + 1)) pool = P.rawIdx (nidAt nId 0) pool := by
    rw [nidAt_zero]
    exact h
  rcases Partition.modEq_cases ((P.rawIdx_eq_iff nId pool _ _).1 h0) with heq | hle | hle <;> omega

theorem Unused.crt_inc (h : Unused A nId pool j s) : (s.nid.inc pool).2.crt pool = nidAt nId
    (j + 1) ∧ (s.nid.inc pool).1.id = nidAt nId (j + 1) := by
  have hid : s.nid.crt pool + nidInc = nidAt nId (j + 1) := by rw [h.crt, nidAt_succ]
  exact ⟨(update_self ..).trans hid, hid⟩

theorem crt_inc_of_ne {pool'} (h : pool ≠ pool') : (s.nid.inc pool').2.crt pool = s.nid.crt pool := update_of_ne h ..

variable (h : Unused A nId pool j s) (hone : A.ncEnabled = !A.otnEnabled)

include h hone

/-- A challenge of another process leaves the nonce as it is. -/
theorem Unused.challenge (hnc : A.ncEnabled = true → challengesIn A pool [.challenge processNo] + j < A.nc.size) :
    Unused A nId pool (challengesIn A pool [.challenge processNo] + j) (newNonceId A processNo s).state := by
  -- the slot of the new nonce is another one, in this pool or in another
  have hcount : challengesIn A pool [.challenge processNo] = if poolOf A processNo = pool then 1 else 0 := by
    by_cases hp : poolOf A processNo = pool <;> simp [challengesIn, hp]
  have hcrt : (s.nid.inc (poolOf A processNo)).2.crt pool =
      nidAt nId (challengesIn A pool [.challenge processNo] + j) := by
    rw [hcount]
    by_cases hp : poolOf A processNo = pool
    · rw [if_pos hp, hp, add_comm]
      exact h.crt_inc.1
    · rw [if_neg hp, crt_inc_of_ne (.symm hp), h.crt, Nat.zero_add]
  have hslot : ∀ {P : Partition}, challengesIn A pool [.challenge processNo] + j < P.size →
      P.rawIdx (s.nid.inc (poolOf A processNo)).1.id (poolOf A processNo) ≠ P.rawIdx nId pool := by
    intro P hlt
    by_cases hp : poolOf A processNo = pool
    · rw [hcount, if_pos hp, add_comm] at hlt
      rw [hp, h.crt_inc.2]
      exact rawIdx_next_ne hlt
    · exact fun heq => hp (Partition.rawIdx_pool heq)
  cases he : A.otnEnabled with
  | false =>
    have hnc' : A.ncEnabled = true := by rw [hone, he]; rfl
    rw [newNonceId_nc hnc' he rfl]
    refine ⟨hcrt, fun _ => ?_, fun ht => ?_⟩
    · show Packed.slot 8 (ncNew A.ncTable _ _ s.ncArray) _ = 0#32
      rw [ncNew_eq]
      exact (Packed.slot_store_ne (by decide) (hslot (hnc hnc'))).trans (h.nc hnc')
    · rw [he] at ht
      cases ht
  | true =>
    have hnc' : A.ncEnabled = false := by rw [hone, he]; rfl
    rw [newNonceId_otn hnc' he rfl]
    refine ⟨hcrt, fun ht => ?_, fun _ => ?_⟩
    · rw [hnc'] at ht
      cases ht
    · rw [otnNew_eq, otnBit_otnClear, h.otn he]
      rfl

theorem Unused.apply {op : AuthOp} (hop : op.Spares A nId pool)
    (hnc : A.ncEnabled = true → challengesIn A pool [op] + j < A.nc.size) :
    Unused A nId pool (challengesIn A pool [op] + j) (op.apply A s) := by
  cases op with
  | challenge processNo => exact h.challenge hone hnc
  | ncCheck nId' pool' nc =>
    rw [show challengesIn A pool [.ncCheck nId' pool' nc] = 0 from rfl, Nat.zero_add]
    refine ⟨h.crt, fun hen => ?_, h.otn⟩
    have hne : A.ncTable.part.rawIdx nId' pool' ≠ A.nc.rawIdx nId pool := hop
    exact (slot_ncCheckVal_ne hne).trans (h.nc hen)
  | otnCheck nId' pool' =>
    rw [show challengesIn A pool [.otnCheck nId' pool'] = 0 from rfl, Nat.zero_add]
    refine ⟨h.crt, h.nc, fun hen => ?_⟩
    have hne : A.otnTable.part.rawIdx nId' pool' ≠ A.otn.rawIdx nId pool := hop
    exact (otnBit_otnCheckId_ne hne).trans (h.otn hen)

theorem Unused.run {ops} (hops : ∀ op ∈ ops, op.Spares A nId pool)
    (hnc : A.ncEnabled = true → challengesIn A pool ops + j < A.nc.size) :
    Unused A nId pool (challengesIn A pool ops + j) (runAuthOps A ops s) := by
  induction ops generalizing j s with
  | nil =>
    rw [show challengesIn A pool [] = 0 from rfl, Nat.zero_add]
    exact h
  | cons op ops ih =>
    have hsum : challengesIn A pool (op :: ops) + j = challengesIn A pool ops + (challengesIn A pool [op] + j) := by
      rw [challengesIn, ← singleton_append, countP_append, ← challengesIn, ← challengesIn]
      omega
    rw [hsum] at hnc ⊢
    have hstep := h.apply hone (hops op (by simp)) (fun he => by have := hnc he; omega)
    exact ih hstep (fun op' ho => hops op' (by simp [ho])) hnc

end Tables

/-! ## The first request -/

section Fresh

variable {E : Codec} {A : AuthConfig} {s : AuthState} {processNo : Nat} {t₀ t₁ : Int}
  {msg msg' : AuthMsg} {nc : Bytes} {ops : List AuthOp}

/-- The first request that brings the nonce of a challenge to `msg` at the time `t₀`: it has the same
parts as `msg` where they are checked, comes before the nonce expires, and has either no nonce count
or one that fits a byte and is not zero. -/
structure FirstRequest (A : AuthConfig) (t₀ t₁ : Int) (msg msg' : AuthMsg) (nc : Bytes) : Prop where
  cfg : getAuthChecks A msg' = getAuthChecks A msg
  info : extraInfo (getAuthChecks A msg) msg' = extraInfo (getAuthChecks A msg) msg
  /-- the times fit an `int` -/
  pos : 0 ≤ t₀
  int : t₀ + A.nonceExpire < 2 ^ 31
  up : A.upSince ≤ t₀
  drift : t₀ ≤ t₁ + A.nonceAuthMaxDrift
  expire : t₁ ≤ t₀ + A.nonceExpire
  count : nc = [] ∨ ∃ v, str2int nc = some v ∧ 0#32 < v ∧ v < 256#32

/-- The nonce is made, the request is accepted, and every cell that was touched for it exists. -/
def Usable (E : Codec) (A : AuthConfig) (processNo : Nat) (t₀ t₁ : Int) (msg msg' : AuthMsg)
    (nc : Bytes) (ops : List AuthOp) (s : AuthState) : Prop :=
  let r := buildChallengeHf E A processNo t₀ msg s
  let c := checkNonce E A t₁ ⟨r.1, nc⟩ msg' (runAuthOps A ops r.2.state)
  r.1.isSome = true ∧ c.code = 0 ∧ ∀ a ∈ r.2.touched ++ c.touched, a.Inside A

/-- The slots of the nonce of a challenge are kept until the request. -/
def KeptFor (A : AuthConfig) (processNo : Nat) (ops : List AuthOp) (s : AuthState) : Prop :=
  SlotKept A (newNonceId A processNo s).nId (poolOf A processNo) ops

/-- The nonce of a challenge before it is encoded. -/
def rawFor (E : Codec) (A : AuthConfig) (t₀ : Int) (msg : AuthMsg) (r : NonceId) : Bytes :=
  rawOf E A (getAuthChecks A msg) t₀ (t₀ + A.nonceExpire) r.nId r.pf msg

section

variable (h : FirstRequest A t₀ t₁ msg msg' nc)

include h

theorem FirstRequest.expires_nonneg : 0 ≤ t₀ + A.nonceExpire := by
  have := h.pos
  omega

theorem FirstRequest.checkExtra (r) : checkExtra E A t₁ (rawFor E A t₀ msg r) r.pf msg' = 0 :=
  checkExtra_raw h.cfg h.info h.expire h.expires_nonneg h.int

theorem FirstRequest.checkStale (r) : checkStale t₁ (rawFor E A t₀ msg r) = 0 :=
  checkStale_raw h.expire h.expires_nonneg h.int

end

variable {r : NonceId} {nId : Nid} {raw : Bytes}

/-- What is left to check of the nonce of a challenge is its place in the tables. -/
theorem usable_of_checkCount (h : FirstRequest A t₀ t₁ msg msg' nc)
    (hr : newNonceId A processNo s = r) (hpf : hasNid r.pf = (A.ncEnabled || A.otnEnabled))
    (hnid : hasNid r.pf = true ∨ r.pf = 0)
    (hnc : (decide (r.pf &&& nfValidNcId ≠ 0) : Bool) → (A.ncEnabled || A.otnEnabled) = true)
    (hot : A.otnEnabled = true → r.pf &&& nfValidOtId ≠ 0) (hin : ∀ a ∈ r.touched, a.Inside A)
    (hcount : ∀ nId auth, (hasNid r.pf = true → nId = r.nId) → auth.nc = nc →
      (checkCount E A t₁ (rawFor E A t₀ msg r) nId r.pf auth msg' (runAuthOps A ops r.state)).code = 0 ∧
      ∀ a ∈ (checkCount E A t₁ (rawFor E A t₀ msg r) nId r.pf auth msg'
        (runAuthOps A ops r.state)).touched, a.Inside A) :
    Usable E A processNo t₀ t₁ msg msg' nc ops s := by
  have hint : t₀ < 2 ^ 31 := by
    have := h.int
    omega
  have hnonce : (buildChallengeHf E A processNo t₀ msg s).1 = some (E.enc (rawFor E A t₀ msg r)) := by
    simp only [buildChallengeHf, hr]
    exact calcNonce_eq hpf hnc
  have hstate : (buildChallengeHf E A processNo t₀ msg s).2 = r := hr
  have hcheck : checkNonce E A t₁ ⟨some (E.enc (rawFor E A t₀ msg r)), nc⟩ msg'
      (runAuthOps A ops r.state) = _ :=
    checkNonce_raw rfl h.cfg hnid hot h.pos hint h.up h.drift
  have hid : hasNid r.pf = true → ntohl (slice (nidOff (getAuthChecks A msg)) 4 (rawFor E A t₀ msg r)) = r.nId := by
    intro hp
    rw [rawFor, slice_nId hp, ntohl_htonl]
  obtain ⟨hcode, htouched⟩ := hcount _ ⟨some (E.enc (rawFor E A t₀ msg r)), nc⟩ hid rfl
  simp only [Usable, hnonce, hstate, hcheck]
  refine ⟨rfl, hcode, ?_⟩
  intro a ha
  rcases mem_append.1 ha with ha | ha
  · exact hin a ha
  · exact htouched a ha

theorem usable_none (h : FirstRequest A t₀ t₁ msg msg' nc) (hnc : A.ncEnabled = false)
    (hotn : A.otnEnabled = false) : Usable E A processNo t₀ t₁ msg msg' nc ops s := by
  apply usable_of_checkCount h (newNonceId_none hnc hotn)
  · have hzero : hasNid 0 = false := by decide
    rw [hnc, hotn]
    exact hzero
  · exact .inr rfl
  · have hzero : ¬ (decide ((0 : UInt8) &&& nfValidNcId ≠ 0) : Bool) = true := by decide
    exact fun h0 => absurd h0 hzero
  · intro ht
    rw [hotn] at ht
    cases ht
  · exact fun a ha => nomatch ha
  · intro nId auth _ _
    have hcheck : checkCount E A t₁ (rawFor E A t₀ msg ⟨0#32, 0, s, []⟩) nId 0 auth msg'
        (runAuthOps A ops s) = ⟨0, runAuthOps A ops s, []⟩ := by
      rw [checkCount, if_neg (by rw [hnc]; simp), checkOneTime, if_neg (by rw [hotn]; simp),
        ← h.checkExtra ⟨0#32, 0, s, []⟩]
    rw [hcheck]
    exact ⟨rfl, fun a ha => nomatch ha⟩

/-- A nonce of which nothing was seen is not too old. -/
theorem Unused.overflow {s} (h : Unused A nId pool j s) (hj : j < P.size) :
    P.overflow (s.nid.crt pool) nId = false := by
  have hsize := P.size_lt
  have hiff := P.overflow_iff nId (Nat.zero_le j) (by omega)
  rw [nidAt_zero, Nat.zero_add] at hiff
  rw [h.crt, ← Bool.not_eq_true, hiff]
  omega

/-- The nonce of a challenge with nonce counts has not been seen. -/
theorem unused_nc (hnc : A.ncEnabled = true) (hotn : A.otnEnabled = false) (hr : newNonceId A processNo s = r) :
    Unused A r.nId (poolOf A processNo) 0 r.state := by
  rw [newNonceId_nc hnc hotn rfl] at hr
  subst hr
  refine ⟨?_, fun _ => ?_, fun ht => ?_⟩
  · rw [nidAt_zero]
    exact update_self ..
  · show Packed.slot 8 (ncNew A.ncTable _ _ s.ncArray) _ = 0#32
    rw [ncNew_eq]
    exact Packed.slot_store_self (by decide) (by decide) (by decide)
  · rw [hotn] at ht
    cases ht

/-- Nor has that of a challenge with one-time nonces. -/
theorem unused_otn (hnc : A.ncEnabled = false) (hotn : A.otnEnabled = true) (hr : newNonceId A processNo s = r) :
    Unused A r.nId (poolOf A processNo) 0 r.state := by
  rw [newNonceId_otn hnc hotn rfl] at hr
  subst hr
  refine ⟨?_, fun ht => ?_, fun _ => ?_⟩
  · rw [nidAt_zero]
    exact update_self ..
  · rw [hnc] at ht
    cases ht
  · show otnBit (otnNew A.otnTable _ _ s.otnArray) _ = false
    rw [otnNew_eq, otnBit_otnClear, decide_eq_false (by intro hne; exact hne rfl), Bool.and_false]

/-- A count that is above the byte of an unused nonce is accepted. -/
theorem checkCount_unused {pf} {auth : AuthBody} {v}
    (hu : Unused A nId pool j s) (hnc : A.ncEnabled = true) (hflag : pf &&& nfValidNcId ≠ 0)
    (hpf : (pf &&& nfPoolNoMask).toNat = pool)
    (hpool : pool < A.poolNo) (hj : j < A.nc.size) (hne : auth.nc ≠ [])
    (hv : str2int auth.nc = some v) (hpos : 0#32 < v) (hlt : v < 256#32) :
    (checkCount E A t₁ raw nId pf auth msg' s).code = checkStale t₁ raw ∧
      ∀ a ∈ (checkCount E A t₁ raw nId pf auth msg' s).touched, a.Inside A := by
  have hover : A.nc.overflow (s.nid.crt pool) nId = false := hu.overflow hj
  have hnew : Packed.slot 8 s.ncArray (A.ncTable.part.rawIdx nId pool) < v := by
    have hzero : Packed.slot 8 s.ncArray (A.ncTable.part.rawIdx nId pool) = 0#32 := hu.nc hnc
    rw [hzero]
    exact hpos
  have hok : (ncCheckVal A.ncTable nId pool v (s.nid.crt pool) s.ncArray).1 = .ok :=
    ncCheckVal_ok (C := A.ncTable) hpool hover hlt hnew
  have htouched : ncTouched A nId pool v (s.nid.crt pool) = [.nid pool, .nc (ncUintIdx (A.nc.rawIdx nId pool))] := by
    rw [ncTouched, if_neg (not_le.2 hpool), if_neg]
    rw [hover]
    rintro (hf | hbig)
    · cases hf
    · exact BitVec.not_le.2 hlt hbig
  rw [checkCount, if_pos ⟨hnc, hflag, hne⟩, hv]
  simp only [hpf, htouched]
  rcases hres : ncCheckVal A.ncTable nId pool v (s.nid.crt pool) s.ncArray with ⟨ret, a⟩
  rw [hres] at hok
  obtain rfl : ret = .ok := hok
  refine ⟨rfl, ?_⟩
  exact inside_pair hpool (inside_nc hpool)

/-- A one-time nonce that is unused is accepted. -/
theorem checkOneTime_unused {pf} (hu : Unused A nId pool j s) (hotn : A.otnEnabled = true)
    (hflag : pf &&& nfValidOtId ≠ 0)
    (hpf : (pf &&& nfPoolNoMask).toNat = pool) (hpool : pool < A.poolNo) (hj : j < A.otn.size) :
    (checkOneTime E A t₁ raw nId pf msg' s).code = checkExtra E A t₁ raw pf msg' ∧
    ∀ a ∈ (checkOneTime E A t₁ raw nId pf msg' s).touched, a.Inside A := by
  have hover : A.otn.overflow (s.nid.crt pool) nId = false := hu.overflow hj
  have hok : (otnCheckId A.otnTable nId pool (s.nid.crt pool) s.otnArray).1 = .ok :=
    otnCheckId_ok (C := A.otnTable) hpool hover (hu.otn hotn)
  have htouched : otnTouched A nId pool (s.nid.crt pool) = [.nid pool, .otn (otnCellIdx (A.otn.rawIdx nId pool))] := by
    rw [otnTouched, if_neg (not_le.2 hpool), if_neg (by rw [hover]; decide)]
  rw [checkOneTime, if_pos ⟨hotn, hflag⟩]
  simp only [hpf, htouched]
  rcases hres : otnCheckId A.otnTable nId pool (s.nid.crt pool) s.otnArray with ⟨ret, a⟩
  rw [hres] at hok
  obtain rfl : ret = .ok := hok
  refine ⟨rfl, ?_⟩
  exact inside_pair hpool (inside_otn hpool)

section

variable (h : FirstRequest A t₀ t₁ msg msg' nc) (hk : KeptFor A processNo ops s)

include h hk

theorem usable_nc (hnc : A.ncEnabled = true) (hotn : A.otnEnabled = false) :
    Usable E A processNo t₀ t₁ msg msg' nc ops s := by
  have hlt := poolOf_lt A processNo
  obtain ⟨hnid, hflag, hpool⟩ := flags_nc _ (poolOf_lt_64)
  have hu : Unused A (newNonceId A processNo s).nId (poolOf A processNo) 0
      (newNonceId A processNo s).state := unused_nc hnc hotn rfl
  have hrun := hu.run (by rw [hnc, hotn]; rfl) hk.spares (fun he => hk.nc he)
  have hsize := hk.nc hnc
  rw [newNonceId_nc hnc hotn rfl] at hrun
  apply usable_of_checkCount h (newNonceId_nc hnc hotn rfl)
  · rw [hnc, hotn]
    exact hnid
  · exact .inl hnid
  · exact fun _ => by rw [hnc]; rfl
  · intro ht
    rw [hotn] at ht
    cases ht
  · exact inside_pair hlt (inside_nc hlt)
  · intro nId auth hid hauth
    rw [hid hnid]
    rcases eq_or_ne auth.nc [] with hempty | hne
    · rw [checkCount, if_neg (fun hc => hc.2.2 hempty), checkOneTime, if_neg (by rw [hotn]; simp)]
      exact ⟨h.checkExtra _, fun a ha => nomatch ha⟩
    · obtain ⟨v, hv, hpos, hbyte⟩ := h.count.resolve_left (hauth ▸ hne)
      obtain ⟨hcode, hin⟩ := checkCount_unused hrun hnc hflag hpool hlt hsize hne (hauth ▸ hv) hpos hbyte
      exact ⟨hcode.trans (h.checkStale _), hin⟩

theorem usable_otn (hnc : A.ncEnabled = false) (hotn : A.otnEnabled = true) :
    Usable E A processNo t₀ t₁ msg msg' nc ops s := by
  have hlt := poolOf_lt A processNo
  obtain ⟨hnid, hncflag, hflag, hpool⟩ := flags_otn _ (poolOf_lt_64)
  have hu : Unused A (newNonceId A processNo s).nId (poolOf A processNo) 0
      (newNonceId A processNo s).state := unused_otn hnc hotn rfl
  have hrun := hu.run (by rw [hnc, hotn]; rfl) hk.spares (fun he => hk.nc he)
  have hsize := hk.otn hotn
  rw [newNonceId_otn hnc hotn rfl] at hrun
  apply usable_of_checkCount h (newNonceId_otn hnc hotn rfl)
  · rw [hnc, hotn]
    exact hnid
  · exact .inl hnid
  · exact fun _ => by rw [hotn, Bool.or_true]
  · exact fun _ => hflag
  · exact inside_pair hlt (inside_otn hlt)
  · intro nId auth hid hauth
    rw [hid hnid, checkCount, if_neg (by rw [hnc]; simp)]
    obtain ⟨hcode, hin⟩ := checkOneTime_unused hrun hotn hflag hpool hlt hsize
    exact ⟨hcode.trans (h.checkExtra _), hin⟩

end

/-- With nonce counts and one-time nonces in use, a challenge writes outside of the table. -/
theorem not_usable_both (hnc : A.ncEnabled = true) (hotn : A.otnEnabled = true) :
    ¬ Usable E A processNo t₀ t₁ msg msg' nc ops s := by
  intro hu
  have hmem := touched_both (s := s) hnc hotn (rfl : poolOf A processNo = _)
  exact outside_otn _ (hu.2.2 _ (mem_append_left _ hmem))

/-! ### A small server -/

/-- An encoding with the lengths of base64. -/
def padded (x : Bytes) : Bytes :=
  x ++ List.replicate ((x.length + 2) / 3 * 4 - x.length)
    (UInt8.ofNat ((x.length + 2) / 3 * 3 - x.length))

def unpadded (y : Bytes) : Bytes := y.take (y.length / 4 * 3 - (y.getLastD 0).toNat)

theorem length_padded (x) : (padded x).length = (x.length + 2) / 3 * 4 := by
  rw [padded, length_append, length_replicate]
  omega

theorem unpadded_padded (x) : unpadded (padded x) = x := by
  rw [unpadded, length_padded]
  rcases eq_or_ne x [] with rfl | hx
  · rfl
  · have hpos : 0 < x.length := length_pos_of_ne_nil hx
    have hpad : (x.length + 2) / 3 * 4 - x.length ≠ 0 := by omega
    have hlast : (padded x).getLastD 0 = UInt8.ofNat ((x.length + 2) / 3 * 3 - x.length) := by
      rw [padded, getLastD_eq_getLast?, getLast?_append, getLast?_replicate, if_neg hpad]
      rfl
    rw [hlast, UInt8.toNat_ofNat']
    apply take_left'
    omega

def plainCodec : Codec where
  md5 _ := List.replicate 16 0
  enc := padded
  dec := unpadded
  md5_length _ := rfl
  enc_length := length_padded
  dec_enc := unpadded_padded

/-- A server with one pool and no extra checks. -/
def plainServer (ncEnabled otnEnabled : Bool) : AuthConfig where
  poolK := 0
  nc := ncSmall.part
  otn := otnSmall.part
  ncEnabled := ncEnabled
  otnEnabled := otnEnabled
  nonceExpire := 300
  nonceAuthMaxDrift := 3
  authChecksReg := 0#32
  authChecksOod := 0#32
  authChecksInd := 0#32
  secret1 := []
  secret2 := []
  upSince := 0
  poolK_le := by decide
  nc_k := by decide
  otn_k := by decide

def plainStart : AuthState where
  nid := .init fun _ => 0#32
  ncArray _ := BitVec.allOnes 32
  otnArray _ := BitVec.allOnes 32

def plainMsg : AuthMsg := ⟨true, none, [], none, none, []⟩

/-- A nonce that was just issued is usable, in every configuration but the one in which nonce counts
and one-time nonces are both in use. -/
theorem fresh_nonce_usable_iff (E : Codec) (A : AuthConfig) (s : AuthState) (processNo : Nat)
    (ops : List AuthOp) (h : FirstRequest A t₀ t₁ msg msg' nc) (hk : KeptFor A processNo ops s) :
    Usable E A processNo t₀ t₁ msg msg' nc ops s ↔
      ¬ (A.ncEnabled = true ∧ A.otnEnabled = true) := by
  constructor
  · rintro hu ⟨hnc, hotn⟩
    exact not_usable_both hnc hotn hu
  · intro hnot
    cases hnc : A.ncEnabled with
    | false =>
      cases hotn : A.otnEnabled with
      | false => exact usable_none h hnc hotn
      | true => exact usable_otn h hk hnc hotn
    | true =>
      cases hotn : A.otnEnabled with
      | false => exact usable_nc h hk hnc hotn
      | true => exact absurd ⟨hnc, hotn⟩ hnot

theorem fresh_nonce_usable_plainServer :
    Usable plainCodec (plainServer true false) 0 10 20 plainMsg plainMsg [49] [.challenge 0] plainStart ↔
      ¬ ((plainServer true false).ncEnabled = true ∧ (plainServer true false).otnEnabled = true) :=
  fresh_nonce_usable_iff plainCodec (plainServer true false) plainStart 0 [.challenge 0]
    { cfg := rfl
      info := rfl
      pos := by decide
      int := by decide
      up := by decide
      drift := by decide
      expire := by decide
      count := .inr ⟨1#32, by decide, by decide, by decide⟩ }
    { nc := by decide
      otn := fun h => nomatch h
      spares := by
        intro op hop
        rw [mem_singleton.1 hop]
        trivial }

/-- With both in use, the one-time bit of a nonce is cleared outside of the table, and the request that
brings the nonce back is refused as a replay. -/
theorem challenge_outside_table :
    (buildChallengeHf plainCodec (plainServer true true) 0 10 plainMsg plainStart).2.touched =
      [.nid 0, .nc 0, .otn 256] ∧
    ¬ (Access.otn 256).Inside (plainServer true true) ∧
    (checkNonce plainCodec (plainServer true true) 20
      ⟨(buildChallengeHf plainCodec (plainServer true true) 0 10 plainMsg plainStart).1, []⟩ plainMsg
      (buildChallengeHf plainCodec (plainServer true true) 0 10 plainMsg plainStart).2.state).code =
        4 := by
  refine ⟨by decide, by simp [Access.Inside]; decide, by decide⟩

end Fresh

end SipRouter.Auth
