import SipRouter.Dns.Cache

/-!
# CNAME chains (`dns_cache.c`)

`dns_get_entry` looks in the cache and asks the resolver for what is not there; the answer
goes to the cache. When all it gets are CNAMEs it calls itself for the last of them. A
static counter is to bound the recursion: it is incremented behind the test for a chain
that is too long, and decremented on every way out.

The cache and the resolver may be changed by others at any time, so each call is given its
own.
-/

namespace SipRouter.Dns

open List

/-- The resolver, the settings and the rest of the world. -/
structure Env (σ : Type) where
  hashNo : List UInt8 → RrType → Nat
  now : σ → UInt32
  minTtl : UInt32
  maxTtl : UInt32
  negCacheTtl : UInt32
  ipv4Only : Bool
  ipv6Only : Bool
  str2ip : List UInt8 → Option (List UInt8)
  str2ip6 : List UInt8 → Option (List UInt8)
  /-- the name in the data of an SRV record -/
  srvName : List UInt8 → List UInt8
  /-- the replacement in the data of a NAPTR record, if `naptr_get_sip_proto` finds a protocol -/
  naptrRepl : List UInt8 → Option (List UInt8)
  /-- `get_record`; others may use the cache until the answer is there -/
  getRecord : List UInt8 → RrType → σ × Cache → List Rdata × σ × Cache
  /-- whether there is memory for an entry, and the cache after `dns_cache_free_mem` -/
  makeRoom : Entry → σ × Cache → Bool × Cache

section Request

variable {σ : Type} (env : Env σ)

def maxDnsName : Nat := 256

/-- `dns_cache_mk_ip_entry`. -/
def dnsCacheMkIpEntry (now : UInt32) (name : List UInt8) (type : RrType) (ip : List UInt8) : Entry :=
  ⟨name, type, now - 1, 0, [⟨ip, now - 1, 0⟩]⟩

/-- `dns_cache_mk_bad_entry`. -/
def dnsCacheMkBadEntry (now : UInt32) (name : List UInt8) (type : RrType) (ttl : UInt32) (flags : UInt8) : Entry :=
  ⟨name, type, now + sToTicks ttl, flags, []⟩

/-- `dns_cache_add`. -/
def dnsCacheAdd (world : σ) (hash : Cache) (e : Entry) : Cache :=
  let (fits, hash) := env.makeRoom e (world, hash)
  if fits then Function.update hash (env.hashNo e.name e.type) (hash (env.hashNo e.name e.type) ++ [e]) else hash

/-- What an entry of the type that was asked for brings along, when so many CNAMEs may still be
followed: its entries, and the records that are left. -/
abbrev Extra := Nat → Entry → List Rdata → List Entry × List Rdata

/-- `dns_get_related`: the entry of the type, all entries, and the records that are left. -/
def dnsGetRelated (now : UInt32) (extra : Extra) (type : RrType) :
    Nat → Entry → List Rdata → Option Entry × List Entry × List Rdata
  | left, e, records =>
    if e.type = type then
      let (more, records) := extra left e records
      (some e, e :: more, records)
    else
      match left with
      | 0 => (none, [e], records)
      | left + 1 =>
        if e.type ≠ .cname then (none, [e], records)
        else
          match dnsCacheMkRdEntry env.minTtl env.maxTtl now e.cnameVal type records with
          | (none, records) => (none, [e], records)
          | (some t, []) => (if t.type = type then some t else none, [e, t], [])
          | (some t, records) =>
            let r := dnsGetRelated now extra type left t records
            (r.1, e :: r.2.1, r.2.2)

/-- The entries for a name in a record. For an address `dns_get_related` is called for a CNAME only,
and has nothing to do for others. -/
def target (now : UInt32) (extra : Extra) (type : RrType) (left : Nat) (name : List UInt8) (records : List Rdata) :
    List Entry × List Rdata :=
  match dnsCacheMkRdEntry env.minTtl env.maxTtl now name type records with
  | (none, records) => ([], records)
  | (some t, []) => ([t], [])
  | (some t, records) => (dnsGetRelated env now extra type left t records).2

/-- Another name is looked for as long as there are records. -/
def orMore (found : List Entry × List Rdata) (more : List Rdata → List Entry × List Rdata) : List Entry × List Rdata :=
  if found.2 = [] then found else (found.1 ++ (more found.2).1, (more found.2).2)

def noExtra : Extra := fun _ _ records => ([], records)

/-- The addresses of the servers. -/
def srvExtra (now : UInt32) : Extra := fun left e records =>
  e.rrLst.foldl (fun found rr => orMore found fun records =>
    let (as, records) := if env.ipv6Only then ([], records)
        else target env now noExtra .a left (env.srvName rr.rdata) records
    if env.ipv4Only then (as, records)
    else
      let (aaaas, records) := target env now noExtra .aaaa left (env.srvName rr.rdata) records
      (as ++ aaaas, records)) ([], records)

/-- The SRV records of the services. -/
def naptrExtra (now : UInt32) : Extra := fun left e records =>
  e.rrLst.foldl (fun found rr => orMore found fun records =>
    match env.naptrRepl rr.rdata with
    | none => ([], records)
    | some name => target env now (srvExtra env now) .srv left name records) ([], records)

def extraFor (now : UInt32) : RrType → Extra
  | .srv => srvExtra env now
  | .naptr => naptrExtra env now
  | _ => noExtra

/-- What `dns_cache_do_request` has before it may call `dns_get_entry`. -/
inductive Answer where
  | none
  | entry (e : Entry)
  | cname (name : List UInt8)

def obviousIp (name : List UInt8) : RrType → Option (List UInt8)
  | .a => env.str2ip name
  | .aaaa => env.str2ip6 name
  | _ => none

/-- `dns_cache_do_request`, up to where it calls `dns_get_entry`. -/
def dnsCacheDoRequest (name : List UInt8) (type : RrType) (world : σ × Cache) : Answer × σ × Cache :=
  match obviousIp env name type with
  | some ip => (.entry (dnsCacheMkIpEntry (env.now world.1) name type ip), world)
  | none =>
    if maxDnsName ≤ name.length then (.none, world)
    else
      match env.getRecord name type world with
      | ([], w, hash) =>
        if env.negCacheTtl = 0 then (.none, w, hash)
        else
          let e := dnsCacheMkBadEntry (env.now w) name type env.negCacheTtl 1
          (.entry e, w, dnsCacheAdd env w hash e)
      | (records, w, hash) =>
        match dnsCacheMkRdEntry env.minTtl env.maxTtl (env.now w) name type records with
        | (none, _) => (.none, w, hash)
        | (some l, records) =>
          let r := dnsGetRelated env (env.now w) (extraFor env (env.now w) type) type maxCnameChain l records
          let hash := r.2.1.foldl (dnsCacheAdd env w) hash
          match r.1 with
          | some e => (.entry e, w, hash)
          | none => (.cname ((r.2.1.getLast?.map Entry.cnameVal).getD []), w, hash)

variable {env}

theorem dnsGetRelated_type {now extra type left e records r}
    (h : (dnsGetRelated env now extra type left e records).1 = some r) : r.type = type := by
  induction left generalizing e records with
  | zero =>
    rw [dnsGetRelated] at h
    by_cases htype : e.type = type
    · rw [if_pos htype] at h
      exact Option.some.inj h ▸ htype
    · rw [if_neg htype] at h
      cases h
  | succ left ih =>
    rw [dnsGetRelated] at h
    by_cases htype : e.type = type
    · rw [if_pos htype] at h
      exact Option.some.inj h ▸ htype
    · rw [if_neg htype] at h
      simp only at h
      split at h
      · cases h
      · split at h
        · cases h
        · simp only at h
          split at h
          · exact Option.some.inj h ▸ ‹_›
          · cases h
        · exact ih h

/-- An entry is of the type that was asked for, so `dns_get_entry` never takes it for a CNAME to go on with. -/
theorem dnsCacheDoRequest_type {name type world e}
    (h : (dnsCacheDoRequest env name type world).1 = .entry e) : e.type = type := by
  unfold dnsCacheDoRequest at h
  split at h
  · cases h
    rfl
  · split at h
    · cases h
    · split at h
      · split at h
        · cases h
        · cases h
          rfl
      · split at h
        · cases h
        · simp only at h
          split at h
          · cases h
            exact dnsGetRelated_type ‹_›
          · cases h

end Request

/-- A call of `dns_get_entry`, and the world it meets. -/
structure Query (σ : Type) where
  name : List UInt8
  type : RrType
  world : σ × Cache

/-- Negative entries are not given out. -/
def Entry.resolved (e : Entry) : Option Entry := if e.rrLst = [] ∨ e.errFlags ≠ 0 then none else some e

/-- The part of `dns_get_entry` up to where `dns_cache_do_request` would call it again: the result, or this call. -/
def lookup {σ} (env : Env σ) (q : Query σ) : Option Entry ⊕ Query σ :=
  let ask := fun name world =>
    match dnsCacheDoRequest env name q.type world with
    | (.none, _) => .inl none
    | (.entry e, _) => .inl e.resolved
    | (.cname name, world) => .inr ⟨name, q.type, world⟩
  match dnsHashFind env.hashNo (env.now q.world.1) q.name q.type q.world.2 with
  | (.error (), _) => .inl none
  | (.ok none, hash) => ask q.name (q.world.1, hash)
  | (.ok (some e), hash) =>
    -- a CNAME that could not be resolved with what the cache has
    if e.type = .cname ∧ q.type ≠ .cname then ask e.cnameVal (q.world.1, hash) else .inl e.resolved

/-- What a call leaves: `rec_cnt`, the entry, and how many calls went on to a lookup. -/
structure Ret where
  recCnt : Int
  e : Option Entry
  lookups : Nat
  deriving DecidableEq

/-- `dns_get_entry`. -/
def dnsGetEntry {σ} (env : Env σ) (recCnt : Int) (q : Query σ) : Ret :=
  if maxCnameChain < recCnt then ⟨recCnt - 1, none, 0⟩
  else
    match lookup env q with
    | .inl e => ⟨recCnt + 1 - 1, e, 1⟩
    | .inr q =>
      let r := dnsGetEntry env (recCnt + 1) q
      ⟨r.recCnt - 1, r.e, r.lookups + 1⟩
termination_by (maxCnameChain + 1 - recCnt).toNat

/-- The calls of a process, from the static counter on. -/
def calls {σ} (env : Env σ) : Int → List (Query σ) → List Ret
  | _, [] => []
  | recCnt, q :: qs => dnsGetEntry env recCnt q :: calls env (dnsGetEntry env recCnt q).recCnt qs

/-- At most `n` more CNAMEs have to be looked up. -/
def Query.within {σ} (env : Env σ) : Nat → Query σ → Bool
  | n, q =>
    match lookup env q with
    | .inl _ => true
    | .inr q =>
      match n with
      | 0 => false
      | n + 1 => q.within env n

section Chain

variable {σ : Type} {env : Env σ}

/-- A call that is refused is the last, and takes one from the counter that it has not added. -/
theorem dnsGetEntry_refused {recCnt : Int} (h : maxCnameChain < recCnt) {q} :
    dnsGetEntry env recCnt q = ⟨recCnt - 1, none, 0⟩ := by
  rw [dnsGetEntry, if_pos h]

theorem dnsGetEntry_spec (n : Nat) (recCnt : Int) (hn : recCnt + n = maxCnameChain) (q : Query σ) :
    (q.within env n = true → (dnsGetEntry env recCnt q).recCnt = recCnt ∧ (dnsGetEntry env recCnt q).lookups ≤ n + 1) ∧
      (q.within env n = false →
        (dnsGetEntry env recCnt q).recCnt = recCnt - 1 ∧ (dnsGetEntry env recCnt q).lookups = n + 1) := by
  induction n generalizing recCnt q with
  | zero =>
    rw [dnsGetEntry, if_neg (by omega), Query.within]
    cases lookup env q with
    | inl e => simp
    | inr q' =>
      simp only [dnsGetEntry_refused (show (maxCnameChain : Int) < recCnt + 1 by omega)]
      simp
  | succ n ih =>
    rw [dnsGetEntry, if_neg (by omega), Query.within]
    cases lookup env q with
    | inl e => simp
    | inr q' =>
      obtain ⟨hin, hbeyond⟩ := ih (recCnt + 1) (by omega) q'
      refine ⟨fun h => ?_, fun h => ?_⟩
      · obtain ⟨hcnt, hle⟩ := hin h
        exact ⟨by simp only [hcnt]; omega, Nat.succ_le_succ hle⟩
      · obtain ⟨hcnt, heq⟩ := hbeyond h
        exact ⟨by simp only [hcnt]; omega, congrArg (· + 1) heq⟩

end Chain

/-- In a history of calls each comes back with the counter at 0 and has looked up at most
`MAX_CNAME_CHAIN` names besides its own, exactly when no call meets a longer chain. -/
theorem limit_kept_iff {σ} (env : Env σ) (qs : List (Query σ)) :
    (∀ r ∈ calls env 0 qs, r.recCnt = 0 ∧ r.lookups ≤ maxCnameChain + 1) ↔ ∀ q ∈ qs,
      q.within env maxCnameChain = true := by
  induction qs with
  | nil => exact iff_of_true nofun nofun
  | cons q qs ih =>
    obtain ⟨hin, hbeyond⟩ := dnsGetEntry_spec maxCnameChain 0 (Int.zero_add _) q
    rw [calls, forall_mem_cons, forall_mem_cons]
    by_cases hq : q.within env maxCnameChain = true
    · obtain ⟨hcnt, hle⟩ := hin hq
      rw [hcnt, ih]
      exact and_congr_left' (iff_of_true ⟨rfl, hle⟩ hq)
    · obtain ⟨hcnt, -⟩ := hbeyond (Bool.eq_false_iff.2 hq)
      refine iff_of_false (fun h => ?_) fun h => hq h.1
      rw [hcnt] at h
      exact absurd h.1.1 (by decide)

/-! ## A chain without end -/

/-- The name of so many letters. -/
def longName (n : Nat) : List UInt8 := replicate n 97

/-- The CNAME of each name is one letter longer, and an answer has one record. -/
def chainEnv : Env Unit where
  hashNo := fun name _ => name.length
  now := fun _ => 0
  minTtl := defaultMinTtl
  maxTtl := defaultMaxTtl
  negCacheTtl := 60
  ipv4Only := false
  ipv6Only := false
  str2ip := fun _ => none
  str2ip6 := fun _ => none
  srvName := id
  naptrRepl := fun _ => none
  getRecord := fun name _ world => ([⟨name, .cname, 60, name ++ [97]⟩], world)
  makeRoom := fun _ world => (true, world.2)

/-- The first name, with nothing in the cache. -/
def chainQuery : Query Unit := ⟨longName 1, .a, (), fun _ => []⟩

theorem chain_lookup {n hash} (hn : n < maxDnsName) (hslot : hash n = []) :
    ∃ e, lookup chainEnv ⟨longName n, .a, (), hash⟩ = .inr ⟨longName (n + 1), .a, (), Function.update hash n [e]⟩ := by
  refine ⟨mkEntry defaultMinTtl defaultMaxTtl 0 (longName n) .cname [⟨longName n, .cname, 60, longName n ++ [97]⟩], ?_⟩
  have hlen : (longName n).length = n := length_replicate
  have hshort : ¬ maxDnsName ≤ n := by omega
  have hsnoc : longName n ++ [97] = longName (n + 1) := replicate_succ'.symm
  have hfind : dnsHashFind (fun name _ => name.length) 0 (longName n) .a hash = (.ok none, hash) := by
    simp only [dnsHashFind, hashFindAgain, hlen, hslot, walk]
    rw [← hslot, Function.update_eq_self]
  have hask : dnsCacheDoRequest chainEnv (longName n) .a ((), hash) =
      (.cname (longName (n + 1)), (), Function.update hash n
        [mkEntry defaultMinTtl defaultMaxTtl 0 (longName n) .cname
          [⟨longName n, .cname, 60, longName n ++ [97]⟩]]) := by
    simp [dnsCacheDoRequest, obviousIp, chainEnv, hlen, hshort, dnsCacheMkRdEntry, rdType, sameName,
      recMatches, dnsGetRelated,
      maxCnameChain, mkEntry, dnsCacheAdd, hslot, Entry.cnameVal, hsnoc]
  simp only [lookup, chainEnv, hfind]
  rw [← chainEnv, hask]

/-- No number of CNAMEs is enough: by induction on it, with the slots of the longer names empty. -/
theorem chain_not_within {k n hash} (hn : n + k < maxDnsName) (hslots : ∀ m, n ≤ m → hash m = []) :
    Query.within chainEnv k ⟨longName n, .a, (), hash⟩ = false := by
  induction k generalizing n hash with
  | zero =>
    obtain ⟨e, he⟩ := chain_lookup (by omega) (hslots n (Nat.le_refl n))
    rw [Query.within, he]
  | succ k ih =>
    obtain ⟨e, he⟩ := chain_lookup (by omega) (hslots n (Nat.le_refl n))
    rw [Query.within, he]
    refine ih (by omega) fun m hm => ?_
    rw [Function.update_of_ne (by omega)]
    exact hslots m (by omega)

/-- Such a name is looked up, and once more when the entries have expired. After the first chain the
counter is -1, so for the second there is one more call, and the counter is -2. -/
theorem chain_lowers_counter :
    (calls chainEnv 0 [chainQuery, chainQuery]).map (fun r => (r.recCnt, r.lookups)) = [(-1, 11), (-2, 12)] := by
  have hbeyond : ∀ k < 20, chainQuery.within chainEnv k = false := fun k hk =>
    chain_not_within (by simp only [maxDnsName]; omega) fun _ _ => rfl
  obtain ⟨hcnt, hlookups⟩ := (dnsGetEntry_spec 10 0 rfl chainQuery).2 (hbeyond 10 (by decide))
  obtain ⟨hcnt', hlookups'⟩ := (dnsGetEntry_spec 11 (-1) rfl chainQuery).2 (hbeyond 11 (by decide))
  have hfirst : (0 : Int) - 1 = -1 := rfl
  simp only [calls, map_cons, map_nil, hcnt, hfirst, hlookups, hcnt', hlookups']
  rfl

end SipRouter.Dns
