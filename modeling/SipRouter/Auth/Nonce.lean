import SipRouter.Auth.NonceCount
import SipRouter.Auth.OneTime

/-!
# Nonces

A nonce is the base64 form of the time it expires, the time it was made, an MD5
of the two with a secret, an MD5 of parts of the request if extra checks are
configured, and, if nonce counts or one-time nonces are in use, the id and a byte
with the pool and two flags. `buildChallengeHf` makes one for a challenge and `checkNonce`
checks the one that a request brings.

The tables are read and written at cells that depend on the id and the pool; each
function says which cells it touches.
-/

namespace SipRouter.Auth

abbrev Bytes := List UInt8

/-- MD5 and base64, as far as the nonces depend on them. -/
structure Codec where
  md5 : Bytes → Bytes
  enc : Bytes → Bytes
  dec : Bytes → Bytes
  md5_length : ∀ x, (md5 x).length = 16
  enc_length : ∀ x, (enc x).length = (x.length + 2) / 3 * 4
  dec_enc : ∀ x, dec (enc x) = x

/-- What the module parameters fix, as the initialisation accepts them. -/
structure AuthConfig where
  /-- `nid_pool_k` -/
  poolK : Nat
  nc : Partition
  otn : Partition
  ncEnabled : Bool
  otnEnabled : Bool
  nonceExpire : Nat
  nonceAuthMaxDrift : Nat
  authChecksReg : BitVec 32
  authChecksOod : BitVec 32
  authChecksInd : BitVec 32
  secret1 : Bytes
  secret2 : Bytes
  upSince : Int
  poolK_le : poolK ≤ 6
  nc_k : 1 ≤ nc.k
  otn_k : 6 ≤ otn.k

namespace AuthConfig

/-- `nid_pool_no`. -/
def poolNo (A : AuthConfig) : Nat := 2 ^ A.poolK

def ncTable (A : AuthConfig) : Table := ⟨A.poolNo, A.nc⟩

def otnTable (A : AuthConfig) : Table := ⟨A.poolNo, A.otn⟩

end AuthConfig

/-- The shared memory of the module. -/
structure AuthState where
  nid : NidState
  ncArray : Words
  otnArray : Words

/-- A cell of one of the tables. -/
inductive Access where
  | nid (i : Nat)
  | nc (i : Nat)
  | otn (i : Nat)
  deriving DecidableEq

/-- The cell is one that was allocated. -/
def Access.Inside (A : AuthConfig) : Access → Prop
  | .nid i => i < A.poolNo
  | .nc i => 4 * i + 4 ≤ (A.poolNo * A.nc.size + 3) / 4 * 4
  | .otn i => 4 * i + 4 ≤ ((A.poolNo * A.otn.size + 7) / 8 + 3) / 4 * 4

/-- What the checks read of a request. -/
structure AuthMsg where
  isRegister : Bool
  toTag : Option Bytes
  ruri : Bytes
  callid : Option Bytes
  fromTag : Option Bytes
  srcIp : Bytes

def getAuthChecks (A : AuthConfig) (msg : AuthMsg) : BitVec 32 :=
  if msg.isRegister then A.authChecksReg
  else
    match msg.toTag with
    | none => A.authChecksOod
    | some tag => if tag = [] then A.authChecksOod else A.authChecksInd

/-! ## The format -/

/-- `htonl`, as bytes. -/
def htonl (x : BitVec 32) : Bytes :=
  [UInt8.ofNat (x.toNat / 2 ^ 24), UInt8.ofNat (x.toNat / 2 ^ 16), UInt8.ofNat (x.toNat / 2 ^ 8),
    UInt8.ofNat x.toNat]

/-- `ntohl`, from bytes. -/
def ntohl (b : Bytes) : BitVec 32 := BitVec.ofNat 32 (b.foldl (fun a c => a * 256 + c.toNat) 0)

/-- `NF_VALID_NC_ID`. -/
def nfValidNcId : UInt8 := 128

/-- `NF_VALID_OT_ID`. -/
def nfValidOtId : UInt8 := 64

/-- `NF_POOL_NO_MASK`. -/
def nfPoolNoMask : UInt8 := 63

/-- The nonce carries an id. -/
def hasNid (pf : UInt8) : Bool := pf &&& (nfValidNcId ||| nfValidOtId) ≠ 0

/-- The parts of the request that the second MD5 covers. -/
def extraInfo (cfg : BitVec 32) (msg : AuthMsg) : Bytes :=
  (if cfg.getLsbD 0 then msg.ruri else []) ++
  (if cfg.getLsbD 1 then msg.callid.getD [] else []) ++
  (if cfg.getLsbD 2 then msg.fromTag.getD [] else []) ++
  (if cfg.getLsbD 3 then msg.srcIp else [])

/-- The first MD5 of `calc_bin_nonce_md5`: of the two times, and of the id if there is one. -/
def md51 (E : Codec) (A : AuthConfig) (times nid : Bytes) (pf : UInt8) : Bytes :=
  E.md5 (times ++ (if hasNid pf then nid else []) ++ A.secret1)

/-- The second one. -/
def md52 (E : Codec) (A : AuthConfig) (cfg : BitVec 32) (msg : AuthMsg) : Bytes :=
  E.md5 (extraInfo cfg msg ++ A.secret2)

/-- The length that `calc_bin_nonce_md5` returns. -/
def binNonceLen (cfg : BitVec 32) (pf : UInt8) : Nat :=
  (if cfg ≠ 0#32 then 4 + 4 + 16 + 16 else 4 + 4 + 16) + (if hasNid pf then 5 else 0)

/-- `base64_enc_len`. -/
def base64EncLen (n : Nat) : Nat := (n + 2) / 3 * 4

def maxNonceLen : Nat := base64EncLen 45

def minNonceLen : Nat := base64EncLen 24

/-- `get_nonce_len`. -/
def getNonceLen (cfg : BitVec 32) (nidEnabled : Bool) : Nat :=
  base64EncLen ((if cfg ≠ 0#32 then 45 else 29) - (if nidEnabled then 0 else 5))

/-- There is no nonce if the buffer of `nonceLen` bytes is too small for it. -/
def calcNonce (E : Codec) (A : AuthConfig) (nonceLen : Nat) (cfg : BitVec 32) (since expires : Int)
    (nId : Nid) (pf : UInt8) (msg : AuthMsg) : Option Bytes :=
  let times := htonl (BitVec.ofInt 32 expires) ++ htonl (BitVec.ofInt 32 since)
  let nid := htonl nId ++ [pf]
  let raw := times ++ md51 E A times nid pf ++ (if cfg ≠ 0#32 then md52 E A cfg msg
      else []) ++ (if hasNid pf then nid else [])
  if nonceLen < maxNonceLen ∧ nonceLen < getNonceLen cfg (pf &&& nfValidNcId ≠ 0) then none
  else if nonceLen < base64EncLen raw.length then none
  else some (E.enc raw)

/-! ## A challenge -/

/-- The id and the byte of a new nonce. -/
structure NonceId where
  nId : Nid
  pf : UInt8
  state : AuthState
  touched : List Access

/-- `nid_inc`, and `nc_new` and `otn_new` as configured. -/
def newNonceId (A : AuthConfig) (processNo : Nat) (s : AuthState) : NonceId :=
  if A.ncEnabled || A.otnEnabled then
    let pool := UInt8.ofNat (processNo &&& (2 ^ A.poolK - 1))
    let nId := (s.nid.inc pool.toNat).1.id
    let r : NonceId := ⟨nId, pool, { s with nid := (s.nid.inc pool.toNat).2 }, [.nid pool.toNat]⟩
    let r : NonceId :=
      if A.ncEnabled then
        { r with
          pf := r.pf ||| nfValidNcId
          state := { r.state with ncArray := ncNew A.ncTable nId r.pf.toNat r.state.ncArray }
          touched := r.touched ++ [.nc (ncUintIdx (A.nc.rawIdx nId r.pf.toNat))] }
      else r
    if A.otnEnabled then
      -- `pool` may have a flag by now
      { r with
        pf := r.pf ||| nfValidOtId
        state := { r.state with otnArray := otnNew A.otnTable nId r.pf.toNat r.state.otnArray }
        touched := r.touched ++ [.otn (otnCellIdx (A.otn.rawIdx nId r.pf.toNat))] }
    else r
  else ⟨0#32, 0, s, []⟩

/-- The nonce of a challenge to `msg` at the time `t`. -/
def buildChallengeHf (E : Codec) (A : AuthConfig) (processNo : Nat) (t : Int) (msg : AuthMsg)
    (s : AuthState) : Option Bytes × NonceId :=
  let cfg := getAuthChecks A msg
  let nonceLen := getNonceLen cfg (A.ncEnabled || A.otnEnabled)
  let r := newNonceId A processNo s
  (calcNonce E A nonceLen cfg t (t + A.nonceExpire) r.nId r.pf msg, r)

/-! ## The check -/

/-- What `check_nonce` reads of the credentials; `nc` is empty if there is none. -/
structure AuthBody where
  nonce : Option Bytes
  nc : Bytes

def str2int (s : Bytes) : Option (BitVec 32) :=
  s.foldlM (fun r c =>
    if 48 ≤ c ∧ c ≤ 57 then some (r * 10#32 + BitVec.ofNat 32 (c.toNat - 48)) else none) 0#32

/-- `n` bytes of a nonce, from the offset `off`. -/
def slice (off n : Nat) (raw : Bytes) : Bytes := (raw.drop off).take n

/-- The cells that `nc_check_val` touches. -/
def ncTouched (A : AuthConfig) (nId : Nid) (pool : Nat) (nc : BitVec 32) (crt : Nid) : List Access :=
  if A.poolNo ≤ pool then []
  else if A.nc.overflow crt nId ∨ 256#32 ≤ nc then [.nid pool]
  else [.nid pool, .nc (ncUintIdx (A.nc.rawIdx nId pool))]

/-- The cells that `otn_check_id` touches. -/
def otnTouched (A : AuthConfig) (nId : Nid) (pool : Nat) (crt : Nid) : List Access :=
  if A.poolNo ≤ pool then []
  else if A.otn.overflow crt nId then [.nid pool]
  else [.nid pool, .otn (otnCellIdx (A.otn.rawIdx nId pool))]

/-- The result of a check. -/
structure Checked where
  code : Int
  state : AuthState
  touched : List Access

/-- The end of `check_nonce`, from the label `check_stale`. -/
def checkStale (t : Int) (raw : Bytes) : Int := if ((ntohl (slice 0 4 raw)).toNat : Int) < t then 4 else 0

/-- The extra checks, and the rest. -/
def checkExtra (E : Codec) (A : AuthConfig) (t : Int) (raw : Bytes) (pf : UInt8) (msg : AuthMsg) :
    Int :=
  let cfg := getAuthChecks A msg
  if cfg ≠ 0#32 ∧ raw.length ≠ binNonceLen cfg pf then 2
  else if cfg ≠ 0#32 ∧ slice 24 16 raw ≠ md52 E A cfg msg then 3
  else checkStale t raw

/-- The check of a one-time nonce, and the rest. -/
def checkOneTime (E : Codec) (A : AuthConfig) (t : Int) (raw : Bytes) (nId : Nid) (pf : UInt8)
    (msg : AuthMsg) (s : AuthState) : Checked :=
  if A.otnEnabled ∧ pf &&& nfValidOtId ≠ 0 then
    let pool := (pf &&& nfPoolNoMask).toNat
    let crt := s.nid.crt pool
    let touched := otnTouched A nId pool crt
    match otnCheckId A.otnTable nId pool crt s.otnArray with
    | (.ok, otnArray) => ⟨checkExtra E A t raw pf msg, { s with otnArray }, touched⟩
    | (_, otnArray) => ⟨4, { s with otnArray }, touched⟩
  else ⟨checkExtra E A t raw pf msg, s, []⟩

/-- The check of the nonce count if the request has one, and the rest. A count that is accepted stands
for the one-time check and the extra checks. -/
def checkCount (E : Codec) (A : AuthConfig) (t : Int) (raw : Bytes) (nId : Nid) (pf : UInt8)
    (auth : AuthBody) (msg : AuthMsg) (s : AuthState) : Checked :=
  if A.ncEnabled ∧ pf &&& nfValidNcId ≠ 0 ∧ auth.nc ≠ [] then
    match str2int auth.nc with
    | none => ⟨5, s, []⟩
    | some nc =>
      let pool := (pf &&& nfPoolNoMask).toNat
      let crt := s.nid.crt pool
      let touched := ncTouched A nId pool nc crt
      match ncCheckVal A.ncTable nId pool nc crt s.ncArray with
      | (.ok, ncArray) => ⟨checkStale t raw, { s with ncArray }, touched⟩
      | (_, ncArray) => ⟨4, { s with ncArray }, touched⟩
  else checkOneTime E A t raw nId pf msg s

def checkNonce (E : Codec) (A : AuthConfig) (t : Int) (auth : AuthBody) (msg : AuthMsg)
    (s : AuthState) : Checked :=
  let cfg := getAuthChecks A msg
  match auth.nonce with
  | none => ⟨-1, s, []⟩
  | some nonce =>
    let raw := E.dec nonce
    let since := (ntohl (slice 4 4 raw)).toInt
    -- the id and the byte follow the second MD5 if there is one; a nonce without them has the byte 0
    let off := if cfg ≠ 0#32 then 40 else 24
    let pf := raw.getD (off + 4) 0
    let nId := ntohl (slice off 4 raw)
    if nonce.length < minNonceLen then ⟨1, s, []⟩
    else if raw.length < 24 then ⟨-1, s, []⟩
    else if since < A.upSince then ⟨4, s, []⟩
    else if t < since ∧ (A.nonceAuthMaxDrift : Int) < since - t then ⟨4, s, []⟩
    else if A.otnEnabled ∧ pf &&& nfValidOtId = 0 then ⟨4, s, []⟩
    else if slice 8 16 raw ≠ md51 E A (slice 0 8 raw) (slice off 5 raw) pf then ⟨2, s, []⟩
    else checkCount E A t raw nId pf auth msg s

end SipRouter.Auth
