import Mathlib

/-!
# The entries of the DNS cache (`dns_cache.c`)

The records of an answer that have one name and one type make an entry. A record is good
until its own time to live is over, the entry until that of all of them is. Times are
ticks, sixteen a second, in 32 bits which wrap, and are compared by the sign of their
difference.

The server watchdog is not compiled in, so what has expired is never given out.
Allocations succeed.
-/

namespace SipRouter.Dns

open List

inductive RrType where
  | a | aaaa | srv | naptr | cname
  | other (type : UInt16)
  deriving DecidableEq

def tolower (ch : UInt8) : UInt8 := if 65 ≤ ch ∧ ch ≤ 90 then ch + 32 else ch

/-- The lengths are the same, and `strncasecmp` is 0. -/
def sameName (name name' : List UInt8) : Bool := name.map tolower = name'.map tolower

/-- `struct rdata`, a record of an answer. -/
structure Rdata where
  name : List UInt8
  type : RrType
  ttl : UInt32
  rdata : List UInt8

/-- `struct dns_rr`. The data is an address or the name that a CNAME gives. -/
structure Rr where
  rdata : List UInt8
  expire : UInt32
  errFlags : UInt8
  deriving DecidableEq

/-- `struct dns_hash_entry`. -/
structure Entry where
  name : List UInt8
  type : RrType
  expire : UInt32
  errFlags : UInt8
  rrLst : List Rr
  deriving DecidableEq

/-- `(s_ticks_t)(now-expire)>=0`. -/
def expired (now expire : UInt32) : Bool := (now - expire).toNat < 2 ^ 31

/-! ## The entry of an answer -/

def fixTtl (lo hi ttl : UInt32) : UInt32 := if ttl < lo then lo else if hi < ttl then hi else ttl

def sToTicks (s : UInt32) : UInt32 := s * 16

/-- The type of the first record for the name that is of the type asked for or a CNAME. -/
def rdType (name : List UInt8) (type : RrType) (rdLst : List Rdata) : RrType :=
  ((rdLst.find? fun rd => sameName rd.name name && (rd.type = type || rd.type = .cname)).map Rdata.type).getD type

def recMatches (type : RrType) (name : List UInt8) (rd : Rdata) : Bool := rd.type = type && sameName rd.name name

/-- `MAX`. -/
def maxTtl (m ttl : UInt32) : UInt32 := if ttl < m then m else ttl

/-- The entry for the records of `tmp_lst`. -/
def mkEntry (lo hi now : UInt32) (name : List UInt8) (type : RrType) (tmpLst : List Rdata) : Entry where
  name := name
  type := type
  expire := now + sToTicks (tmpLst.foldl (fun m rd => maxTtl m (fixTtl lo hi rd.ttl)) 0)
  errFlags := 0
  rrLst := tmpLst.map fun rd => ⟨rd.rdata, now + sToTicks (fixTtl lo hi rd.ttl), 0⟩

/-- `dns_cache_mk_rd_entry`: the entry, and the records that are left. -/
def dnsCacheMkRdEntry (lo hi now : UInt32) (name : List UInt8) (type : RrType) (rdLst : List Rdata) :
    Option Entry × List Rdata :=
  match rdType name type rdLst with
  | .other _ => (none, rdLst)
  | type =>
    let tmpLst := rdLst.filter (recMatches type name)
    (if tmpLst = [] then none else some (mkEntry lo hi now name type tmpLst),
      rdLst.filter fun rd => !recMatches type name rd)

/-! ## The search -/

/-- `dns_hash`. -/
abbrev Cache := Nat → List Entry

/-- A search for the name and the type stops at the entry. -/
def Entry.stops (name : List UInt8) (type : RrType) (e : Entry) : Bool :=
  (e.type = type || (e.type = .cname && !(e.rrLst = [] || e.errFlags ≠ 0))) && sameName e.name name

/-- The loop over a slot: what stays in it, and where it stops. -/
def walk (now : UInt32) (name : List UInt8) (type : RrType) : List Entry → List Entry × Option Entry
  | [] => ([], none)
  | e :: es =>
    if expired now e.expire then walk now name type es
    else if e.stops name type then (e :: es, some e)
    else (e :: (walk now name type es).1, (walk now name type es).2)

/-- `MAX_CNAME_CHAIN`. -/
def maxCnameChain : Nat := 10

/-- The name that the first record of a CNAME entry gives. -/
def Entry.cnameVal (e : Entry) : List UInt8 := (e.rrLst.head?.map Rr.rdata).getD []

/-- From `again:` on, with `left` more CNAMEs to follow. -/
def hashFindAgain (hashNo : List UInt8 → RrType → Nat) (now : UInt32) (type : RrType) :
    Nat → List UInt8 → Option Entry → Cache → Except Unit (Option Entry) × Cache
  | left, name, ret, hash =>
    let h := hashNo name type
    let hash' := Function.update hash h (walk now name type (hash h)).1
    match (walk now name type (hash h)).2 with
    | none => (.ok ret, hash')
    | some e =>
      if e.type = type then (.ok (some e), hash')
      else match left with
        | 0 => (.error (), hash')
        | left + 1 => hashFindAgain hashNo now type left e.cnameVal (some e) hash'

/-- `_dns_hash_find`. -/
def dnsHashFind (hashNo : List UInt8 → RrType → Nat) (now : UInt32) (name : List UInt8)
    (type : RrType) (hash : Cache) :
    Except Unit (Option Entry) × Cache := hashFindAgain hashNo now type (maxCnameChain + 1) name none hash

/-! ## The records of an entry -/

/-- The tests of `dns_entry_get_rr`. -/
def Rr.good (now : UInt32) (rr : Rr) : Bool := !expired now rr.expire && rr.errFlags = 0

/-- `dns_entry_get_rr`: the number of the record, and `*no`. The second loop does not count. -/
def dnsEntryGetRr (rrLst : List Rr) (no : UInt8) (now : UInt32) : Option Nat × UInt8 :=
  let n := min no.toNat rrLst.length
  (((rrLst.drop n).findIdx? (Rr.good now)).map (n + ·), n.toUInt8)

/-- The iteration of its comment, at most `fuel` calls: the records. -/
def iterate (rrLst : List Rr) (now : UInt32) : Nat → UInt8 → Option (List Nat)
  | 0, _ => none
  | fuel + 1, no =>
    match dnsEntryGetRr rrLst no now with
    | (none, _) => some []
    | (some i, no) => (iterate rrLst now fuel (no + 1)).map (i :: ·)

/-- `DNS_HE_MAX_ADDR`. -/
def dnsHeMaxAddr : Nat := 10

/-- The records whose addresses the loop of `dns_entry2he` copies. -/
def heLoop (rrLst : List Rr) (now : UInt32) : Nat → UInt8 → List Nat
  | 0, _ => []
  | left + 1, no =>
    match dnsEntryGetRr rrLst no now with
    | (none, _) => []
    | (some i, no) => i :: heLoop rrLst now left no

/-- The `now` of `dns_entry2he`: for an expired entry the end of its life. -/
def heNow (e : Entry) (now : UInt32) : UInt32 := if expired now e.expire then e.expire - 1 else now

/-- `h_length`. -/
def heLen : RrType → Option Nat
  | .a => some 4
  | .aaaa => some 16
  | _ => none

/-- `dns_entry2he`: the length of an address, and the addresses. -/
def dnsEntry2he (e : Entry) (now : UInt32) : Option (Nat × List (List UInt8)) :=
  (heLen e.type).bind fun len =>
    let rrs := heLoop e.rrLst (heNow e now) dnsHeMaxAddr 0
    if rrs = [] then none else some (len, rrs.map fun i => ((e.rrLst[i]?.map Rr.rdata).getD []).take len)

/-! ## Time to live -/

/-- A search for the entry, which is in its slot behind entries with other names, finds it, and the record is good. -/
def Served (hashNo : List UInt8 → RrType → Nat) (now : UInt32) (e : Entry) (rr : Rr) : Prop :=
  (∀ pre rest (hash : Cache), hash (hashNo e.name e.type) = pre ++ e :: rest →
    (∀ e' ∈ pre, sameName e'.name e.name = false) →
    (dnsHashFind hashNo now e.name e.type hash).1 = .ok (some e)) ∧ rr.good now = true

theorem stops_self (e : Entry) : e.stops e.name e.type = true := by simp [Entry.stops, sameName]

/-- Entries with other names are not in the way. -/
theorem walk_hit {now e pre rest} (hpre : ∀ e' ∈ pre, sameName e'.name e.name = false)
    (he : expired now e.expire = false) : (walk now e.name e.type (pre ++ e :: rest)).2 = some e := by
  induction pre with
  | nil =>
    rw [nil_append, walk, he, stops_self]
    rfl
  | cons e' pre ih =>
    obtain ⟨hname, hpre⟩ := forall_mem_cons.1 hpre
    have hpass : e'.stops e.name e.type = false := by rw [Entry.stops, hname, Bool.and_false]
    rw [cons_append, walk, hpass, if_neg Bool.false_ne_true]
    split_ifs
    · exact ih hpre
    · exact ih hpre

theorem served_iff {hashNo now e rr} :
    Served hashNo now e rr ↔ expired now e.expire = false ∧ rr.good now = true := by
  refine and_congr_left' ⟨fun h => ?_, ?_⟩
  · -- alone in its slot it would be removed
    by_contra hexp
    have halone := h [] [] (fun _ => [e]) rfl nofun
    rw [dnsHashFind, hashFindAgain, walk, if_pos (Bool.not_eq_false _ ▸ hexp)] at halone
    cases halone
  · intro he pre rest hash hslot hpre
    rw [dnsHashFind, hashFindAgain]
    simp only [hslot, walk_hit hpre he, if_true]

theorem expired_ticks {t d ttl} :
    expired (t + d) (t + sToTicks ttl) = decide ((d.toNat + 2 ^ 32 - 16 * ttl.toNat % 2 ^ 32) % 2 ^ 32 < 2 ^ 31) := by
  have := t.toNat_lt
  have := d.toNat_lt
  rw [expired, sToTicks, UInt32.toNat_sub, UInt32.toNat_add, UInt32.toNat_add, UInt32.toNat_mul]
  congr 2
  simp
  omega

/-- The greatest time to live of the records, which is that of one of them. -/
theorem maxTtl_spec (tmpLst : List Rdata) (m : UInt32) :
    let r := tmpLst.foldl (fun m rd => maxTtl m rd.ttl) m
    m ≤ r ∧ (∀ rd ∈ tmpLst, rd.ttl ≤ r) ∧ (r = m ∨ ∃ rd ∈ tmpLst, rd.ttl = r) := by
  induction tmpLst generalizing m with
  | nil => exact ⟨UInt32.le_refl m, nofun, .inl rfl⟩
  | cons rd tmpLst ih =>
    have hstep : m ≤ maxTtl m rd.ttl ∧ rd.ttl ≤ maxTtl m rd.ttl ∧
        (maxTtl m rd.ttl = m ∨ maxTtl m rd.ttl = rd.ttl) := by
      rw [maxTtl]
      split_ifs with hlt
      · exact ⟨UInt32.le_refl m, UInt32.le_of_lt hlt, .inl rfl⟩
      · exact ⟨UInt32.not_lt.1 hlt, UInt32.le_refl _, .inr rfl⟩
    obtain ⟨hle, hall, hmem⟩ := ih (maxTtl m rd.ttl)
    refine ⟨UInt32.le_trans hstep.1 hle, forall_mem_cons.2 ⟨UInt32.le_trans hstep.2.1 hle, hall⟩, ?_⟩
    rcases hmem with hmem | ⟨rd', hrd', heq⟩
    · rcases hstep.2.2 with h | h
      · exact .inl (hmem.trans h)
      · exact .inr ⟨rd, mem_cons_self, (hmem.trans h).symm⟩
    · exact .inr ⟨rd', mem_cons_of_mem _ hrd', heq⟩

/-- `DEFAULT_DNS_CACHE_MIN_TTL`, `DEFAULT_DNS_CACHE_MAX_TTL`. -/
def defaultMinTtl : UInt32 := 0
def defaultMaxTtl : UInt32 := -1

theorem fixTtl_default {ttl} : fixTtl defaultMinTtl defaultMaxTtl ttl = ttl := by
  have hhi : ¬ defaultMaxTtl < ttl := by
    rw [UInt32.lt_iff_toNat_lt, show defaultMaxTtl.toNat = 2 ^ 32 - 1 from rfl]
    have := ttl.toNat_lt
    omega
  rw [fixTtl, if_neg (show ¬ ttl < defaultMinTtl from UInt32.not_lt_zero), if_neg hhi]

theorem dnsCacheMkRdEntry_some {lo hi now name type rdLst e}
    (he : (dnsCacheMkRdEntry lo hi now name type rdLst).1 = some e) :
    rdLst.filter (recMatches e.type name) ≠ [] ∧
      e = mkEntry lo hi now name e.type (rdLst.filter (recMatches e.type name)) := by
  rw [dnsCacheMkRdEntry] at he
  split at he
  · cases he
  · simp only at he
    split_ifs at he with hnil
    obtain rfl := Option.some.inj he
    exact ⟨hnil, rfl⟩

/-- An answer with one address, and its entry. -/
def oneRd (ttl : UInt32) : List Rdata := [⟨[97], .a, ttl, [10, 0, 0, 1]⟩]
def oneEntry (ttl : UInt32) : Entry := mkEntry defaultMinTtl defaultMaxTtl 0 [97] .a (oneRd ttl)

/-- With the default limits the times to live are respected exactly when none of the entry is above
`2 ^ 27`, and not all are 0. -/
theorem ttl_respected_iff (hashNo : List UInt8 → RrType → Nat) {t : UInt32} {name type rdLst e}
    (he : (dnsCacheMkRdEntry defaultMinTtl defaultMaxTtl t name type rdLst).1 = some e) :
    (∀ (i : Nat) rd rr, (rdLst.filter (recMatches e.type name))[i]? = some rd → e.rrLst[i]? = some rr → ∀ d ≤ 2 ^ 31,
        (Served hashNo (t + d.toUInt32) e rr ↔ d < 16 * rd.ttl.toNat)) ↔
      (∀ rd ∈ rdLst.filter (recMatches e.type name), rd.ttl.toNat ≤ 2 ^ 27) ∧
        ∃ rd ∈ rdLst.filter (recMatches e.type name), 0 < rd.ttl.toNat := by
  obtain ⟨hne, hmk⟩ := dnsCacheMkRdEntry_some he
  generalize hl : rdLst.filter (recMatches e.type name) = tmpLst at *
  obtain ⟨-, hall, hmax⟩ := maxTtl_spec tmpLst 0
  generalize hm : tmpLst.foldl (fun m rd => maxTtl m rd.ttl) 0 = m at hall hmax
  -- the entry expires with the last of its records
  have hserved : ∀ rd : Rdata, ∀ d ≤ 2 ^ 31, Served hashNo (t + d.toUInt32) e ⟨rd.rdata, t + sToTicks rd.ttl, 0⟩ ↔
      2 ^ 31 ≤ (d + 2 ^ 32 - 16 * m.toNat % 2 ^ 32) % 2 ^ 32 ∧
        2 ^ 31 ≤ (d + 2 ^ 32 - 16 * rd.ttl.toNat % 2 ^ 32) % 2 ^ 32 := by
    intro rd d hd
    have hexpire : e.expire = t + sToTicks m := by
      rw [hmk, mkEntry]
      simp only [fixTtl_default, hm]
    have hd' : d.toUInt32.toNat = d := by
      rw [Nat.toUInt32, UInt32.toNat_ofNat']
      omega
    rw [served_iff, Rr.good, hexpire, expired_ticks, expired_ticks, hd']
    simp
  have hget : ∀ i : Nat, e.rrLst[i]? = tmpLst[i]?.map fun rd => ⟨rd.rdata, t + sToTicks rd.ttl, 0⟩ := by
    intro i
    rw [hmk, mkEntry]
    simp only [fixTtl_default, getElem?_map]
  constructor
  · intro h
    -- at once and after `2 ^ 31` ticks, for a record with the greatest time to live
    obtain ⟨rd, hrd, hrdm⟩ : ∃ rd ∈ tmpLst, rd.ttl = m := by
      rcases hmax with hzero | hmax
      · obtain ⟨rd, hrd⟩ := exists_mem_of_ne_nil _ hne
        exact ⟨rd, hrd, UInt32.le_antisymm (hall rd hrd) (hzero ▸ UInt32.zero_le)⟩
      · exact hmax
    obtain ⟨i, hi⟩ := getElem?_of_mem hrd
    have hrr : e.rrLst[i]? = some ⟨rd.rdata, t + sToTicks rd.ttl, 0⟩ := by rw [hget, hi, Option.map_some]
    have hnow := (hserved rd 0 (by omega)).symm.trans (h i rd _ hi hrr 0 (by omega))
    have hlate := (hserved rd (2 ^ 31) (by omega)).symm.trans (h i rd _ hi hrr (2 ^ 31) (by omega))
    have := m.toNat_lt
    rw [hrdm] at hnow hlate
    have hm27 : m.toNat ≤ 2 ^ 27 ∧ 0 < m.toNat := by omega
    refine ⟨fun rd' hrd' => ?_, rd, hrd, hrdm ▸ hm27.2⟩
    have := UInt32.le_iff_toNat_le.1 (hall rd' hrd')
    omega
  · rintro ⟨hsmall, rd', hrd', hpos⟩ i rd rr hi hrr d hd
    obtain rfl : ⟨rd.rdata, t + sToTicks rd.ttl, 0⟩ = rr := by
      rw [hget, hi, Option.map_some] at hrr
      exact Option.some.inj hrr
    have hle := UInt32.le_iff_toNat_le.1 (hall rd (mem_of_getElem? hi))
    have hle' := UInt32.le_iff_toNat_le.1 (hall rd' hrd')
    have hm27 : m.toNat ≤ 2 ^ 27 := by
      rcases hmax with rfl | ⟨rd'', hrd'', rfl⟩
      · exact Nat.zero_le _
      · exact hsmall rd'' hrd''
    rw [hserved rd d hd]
    omega

theorem ttl_respected_iff_minute :
    Served (fun _ _ => 0) 959 (oneEntry 60) ⟨[10, 0, 0, 1], 960, 0⟩ ∧
      ¬ Served (fun _ _ => 0) 960 (oneEntry 60) ⟨[10, 0, 0, 1], 960, 0⟩ := by
  have hmk : (dnsCacheMkRdEntry defaultMinTtl defaultMaxTtl 0 [97] .a (oneRd 60)).1 = some (oneEntry 60) := rfl
  have h := (ttl_respected_iff (fun _ _ => 0) hmk).2 ⟨by decide, by decide⟩
  refine ⟨(h 0 _ _ rfl rfl 959 (by omega)).2 (by decide), fun hlate => ?_⟩
  exact absurd ((h 0 _ _ rfl rfl 960 (by omega)).1 hlate) (by decide)

/-- The ticks of `2 ^ 27 + 1` seconds count as a time in the past. -/
theorem long_ttl_expires_at_once :
    (dnsCacheMkRdEntry defaultMinTtl defaultMaxTtl 0 [97] .a (oneRd 0x8000001)).1 = some (oneEntry 0x8000001) ∧
      ∀ rr ∈ (oneEntry 0x8000001).rrLst, ¬ Served (fun _ _ => 0) 0 (oneEntry 0x8000001) rr := by
  refine ⟨rfl, fun rr _ h => ?_⟩
  exact absurd (served_iff.1 h).1 (by decide)

/-! ## The iteration -/

/-- The numbers of the good records. -/
def goodNos (rrLst : List Rr) (now : UInt32) : List Nat :=
  (range rrLst.length).filter fun i => rrLst[i]?.any (Rr.good now)

section Iterate

variable {rrLst : List Rr} {now : UInt32} {no : UInt8} {i : Nat}

theorem mem_goodNos : i ∈ goodNos rrLst now ↔ ∃ rr, rrLst[i]? = some rr ∧ rr.good now = true := by
  rw [goodNos, mem_filter, mem_range]
  constructor
  · rintro ⟨hlt, hgood⟩
    rw [getElem?_eq_getElem hlt] at hgood
    exact ⟨_, getElem?_eq_getElem hlt, hgood⟩
  · rintro ⟨rr, hrr, hgood⟩
    refine ⟨(List.getElem?_eq_some_iff.1 hrr).1, ?_⟩
    rw [hrr]
    exact hgood

/-- A call gives the first good record from `*no` on. -/
theorem dnsEntryGetRr_some (h : (dnsEntryGetRr rrLst no now).1 = some i) :
    i ∈ goodNos rrLst now ∧ no.toNat ≤ i ∧ (dnsEntryGetRr rrLst no now).2 = no ∧
      ∀ j ∈ goodNos rrLst now, no.toNat ≤ j → i ≤ j := by
  obtain ⟨k, hk, rfl⟩ := Option.map_eq_some_iff.1 h
  obtain ⟨hlt, hgood, hfirst⟩ := findIdx?_eq_some_iff_getElem.1 hk
  have hlen := hlt
  rw [length_drop] at hlen
  have hn : min no.toNat rrLst.length = no.toNat := by omega
  simp only [hn, getElem_drop] at hgood hfirst hlen ⊢
  refine ⟨mem_goodNos.2 ⟨_, getElem?_eq_getElem (by omega), hgood⟩, by omega, ?_, ?_⟩
  · rw [dnsEntryGetRr, hn]
    exact UInt8.ofNat_toNat
  · intro j hj hle
    by_contra hlt
    obtain ⟨rr, hrr, hgood'⟩ := mem_goodNos.1 hj
    obtain ⟨hj', rfl⟩ := List.getElem?_eq_some_iff.1 hrr
    refine hfirst (j - no.toNat) (by omega) ?_
    simpa only [Nat.add_sub_cancel' hle] using hgood'

theorem dnsEntryGetRr_none (h : (dnsEntryGetRr rrLst no now).1 = none) : ∀ j ∈ goodNos rrLst now, j < no.toNat := by
  intro j hj
  by_contra hle
  obtain ⟨rr, hrr, hgood⟩ := mem_goodNos.1 hj
  have hlt := (List.getElem?_eq_some_iff.1 hrr).1
  have hmem : rr ∈ rrLst.drop (min no.toNat rrLst.length) :=
    mem_of_getElem? (i := j - min no.toNat rrLst.length) (by rw [getElem?_drop, Nat.add_sub_cancel' (by omega), hrr])
  have hbad := findIdx?_eq_none_iff.1 (Option.map_eq_none_iff.1 h) rr hmem
  rw [hgood] at hbad
  cases hbad

/-- An iteration that ends has made a call for each record up to the last good one, at most 255. -/
theorem iterate_some {fuel l} (h : iterate rrLst now fuel no = some l) :
    no.toNat + l.length ≤ 255 ∧ ∀ j ∈ goodNos rrLst now, j < no.toNat + l.length := by
  induction fuel generalizing no l with
  | zero => cases h
  | succ fuel ih =>
    rw [iterate] at h
    split at h
    case h_1 heq =>
      obtain rfl := Option.some.inj h
      have := no.toNat_lt
      exact ⟨by simp; omega, dnsEntryGetRr_none (by rw [heq])⟩
    case h_2 i no' heq =>
      obtain ⟨l', hl', rfl⟩ := Option.map_eq_some_iff.1 h
      obtain ⟨hi, hle, hno, -⟩ := dnsEntryGetRr_some (i := i) (by rw [heq])
      obtain rfl : no' = no := by rw [← hno, heq]
      obtain ⟨hlen, hall⟩ := ih hl'
      -- after 255 the number would be 0 again, but the record just given is behind the last one
      have hi' := hall i hi
      rw [UInt8.toNat_add] at hlen hall hi'
      have := no'.toNat_lt
      have hwrap : no'.toNat ≠ 255 := by
        intro heq
        simp [heq] at hlen hi'
        omega
      have hsucc : (no'.toNat + 1) % 2 ^ 8 = no'.toNat + 1 := by omega
      simp only [show (1 : UInt8).toNat = 1 from rfl, hsucc] at hlen hall
      simp only [length_cons]
      exact ⟨by omega, fun j hj => by have := hall j hj; omega⟩

theorem iterate_of_first {m} (hfirst : goodNos rrLst now = range m) (hm : m ≤ 255) :
    ∀ k (no : UInt8), no.toNat + k = m → iterate rrLst now (k + 1) no = some (range' no.toNat k) := by
  intro k
  induction k with
  | zero =>
    intro no hno
    rw [iterate]
    split
    case h_1 => rfl
    case h_2 i no' heq =>
      obtain ⟨hi, hle, -⟩ := dnsEntryGetRr_some (i := i) (by rw [heq])
      rw [hfirst, mem_range] at hi
      omega
  | succ k ih =>
    intro no hno
    have hmem : no.toNat ∈ goodNos rrLst now := by
      rw [hfirst, mem_range]
      omega
    rw [iterate]
    split
    case h_1 heq => exact absurd (dnsEntryGetRr_none (by rw [heq]) _ hmem) (Nat.lt_irrefl _)
    case h_2 i no' heq =>
      obtain ⟨-, hle, hsame, hmin⟩ := dnsEntryGetRr_some (i := i) (by rw [heq])
      obtain rfl : no' = no := by rw [← hsame, heq]
      obtain rfl : i = no'.toNat := Nat.le_antisymm (hmin _ hmem (Nat.le_refl _)) hle
      have hsucc : (no' + 1).toNat = no'.toNat + 1 := by
        rw [UInt8.toNat_add, show (1 : UInt8).toNat = 1 from rfl]
        omega
      rw [ih (no' + 1) (by omega), hsucc, range'_succ, Option.map_some]

theorem nodup_goodNos : (goodNos rrLst now).Nodup := nodup_range.filter _

theorem iterate_exact_iff :
    (∃ fuel, iterate rrLst now fuel 0 = some (goodNos rrLst now)) ↔ ∃ m ≤ 255, goodNos rrLst now = range m := by
  constructor
  · rintro ⟨fuel, h⟩
    obtain ⟨hlen, hall⟩ := iterate_some h
    simp only [UInt8.toNat_zero, Nat.zero_add] at hlen hall
    have hsub : goodNos rrLst now <+~ range (goodNos rrLst now).length :=
      subperm_of_subset nodup_goodNos fun j hj => mem_range.2 (hall j hj)
    have hperm := hsub.perm_of_length_le (Nat.le_of_eq length_range)
    refine ⟨_, hlen, hperm.eq_of_pairwise ?_ (pairwise_lt_range.filter _) pairwise_lt_range⟩
    intro a b _ _ hab hba
    omega
  · rintro ⟨m, hm, hfirst⟩
    refine ⟨m + 1, ?_⟩
    rw [iterate_of_first hfirst hm m 0 (Nat.zero_add m), hfirst, range_eq_range', UInt8.toNat_zero]

/-- `rr_no` stays 0, so each address is that of the first good record. -/
theorem heLoop_of_some (h : (dnsEntryGetRr rrLst 0 now).1 = some i) {left} :
    heLoop rrLst now left 0 = replicate left i := by
  induction left with
  | zero => rfl
  | succ left ih =>
    have hcall : dnsEntryGetRr rrLst 0 now = (some i, 0) := Prod.ext h (dnsEntryGetRr_some h).2.2.1
    rw [heLoop, hcall, replicate_succ, ← ih]

theorem heLoop_exact_iff :
    heLoop rrLst now dnsHeMaxAddr 0 = (goodNos rrLst now).take dnsHeMaxAddr ↔ goodNos rrLst now = [] := by
  cases hcall : (dnsEntryGetRr rrLst 0 now).1 with
  | none =>
    have hnil := eq_nil_iff_forall_not_mem.2 fun j hj => Nat.not_lt_zero j (dnsEntryGetRr_none hcall j hj)
    rw [hnil, dnsHeMaxAddr, heLoop]
    split
    case h_1 => simp
    case h_2 heq =>
      rw [heq] at hcall
      cases hcall
  | some i =>
    rw [heLoop_of_some hcall]
    constructor
    · intro h
      have hnodup := nodup_goodNos.sublist (take_sublist dnsHeMaxAddr (goodNos rrLst now))
      rw [← h, nodup_replicate] at hnodup
      exact absurd hnodup (by decide)
    · intro hnil
      have hmem := (dnsEntryGetRr_some hcall).1
      rw [hnil] at hmem
      cases hmem

end Iterate

/-- Every good record is given once, in order, and then none, exactly when the good records are the
first ones and at most 255. `dns_entry2he` has the addresses it should have only if there are none.
-/
theorem records_exact_iff {e now} :
    ((∃ fuel, iterate e.rrLst now fuel 0 = some (goodNos e.rrLst now)) ↔ ∃ m ≤ 255, goodNos e.rrLst now = range m) ∧
      (heLoop e.rrLst (heNow e now) dnsHeMaxAddr 0 = (goodNos e.rrLst (heNow e now)).take dnsHeMaxAddr ↔
        goodNos e.rrLst (heNow e now) = []) :=
  ⟨iterate_exact_iff, heLoop_exact_iff⟩

/-- Behind a bad record a good one is given twice, and its address is all that `dns_entry2he` has. -/
theorem records_repeated :
    let rrLst : List Rr := [⟨[10, 0, 0, 1], 9, 1⟩, ⟨[10, 0, 0, 2], 9, 0⟩]
    goodNos rrLst 0 = [1] ∧ iterate rrLst 0 3 0 = some [1, 1] ∧
      dnsEntry2he ⟨[97], .a, 9, 0, rrLst⟩ 0 = some (4, replicate 10 [10, 0, 0, 2]) := by
  decide +kernel

end SipRouter.Dns
