import SipRouter.Blst.Blacklist

/-!
# What the blacklist promises

A run is a list of calls that do not overlap, made on the empty blacklist. An entry that a
search for a destination finds first is found until it expires or is deleted (`Held`), as
long as no entry for the same destination is put in front of it. Entries of a chain never
match each other (`Apart`), so this can only happen for a search with the wildcard.
-/

namespace SipRouter.Blst

open Lib List

variable {env : Env}

inductive BlstCall where
  | addIp (errFlags : UInt8) (d : Dest) (timeout : UInt32) (alloc : Bool)
  | isBlacklistedIp (d : Dest)
  | del (d : Dest)
  | cleanExpired (target : Nat) (delta timeout : UInt32)

namespace BlstCall

def exec (env : Env) (s : Blacklist) : BlstCall → Blacklist
  | addIp errFlags d timeout alloc => (dstBlacklistAddIp env errFlags d timeout alloc s).2
  | isBlacklistedIp d => (dstIsBlacklistedIp env d s).2
  | del d => (dstBlacklistDel env d s).2
  | cleanExpired target delta timeout => dstBlacklistCleanExpired env target delta timeout s

def delta : BlstCall → UInt32
  | cleanExpired _ delta _ => delta
  | _ => 0

/-- The destination that a call adds, with the timeout. -/
def adds : BlstCall → Option (Dest × UInt32)
  | addIp _ d timeout _ => some (d, timeout)
  | _ => none

/-- The entry that a call deletes. -/
def deletes (env : Env) (s : Blacklist) : BlstCall → Option DstBlstEntry
  | del d => (dstBlacklistDel env d s).1
  | _ => none

end BlstCall

def run (env : Env) (calls : List BlstCall) (s : Blacklist) : Blacklist := calls.foldl (BlstCall.exec env) s

/-- The calls of a run, each with the blacklist it is made on. -/
def trace (env : Env) : List BlstCall → Blacklist → List (Blacklist × BlstCall)
  | [], _ => []
  | c :: calls, s => (s, c) :: trace env calls (c.exec env s)

/-! ## What a call does to a chain -/

inductive Change (env : Env) (s : Blacklist) (c : BlstCall) (gone : DstBlstEntry → Prop) (l : List DstBlstEntry) :
    List DstBlstEntry → Prop
  | thin {m : List DstBlstEntry} (hthin : Thin gone l m) : Change env s c gone l m
  | put {d : Dest} {timeout : UInt32} {errFlags : UInt8} {m : List DstBlstEntry} (hadds : c.adds = some (d, timeout))
      (hput : Put d (entryFlags errFlags d.ip) (env.ticks s.reads + timeout) gone l m) : Change env s c gone l m
  | remove {l₁ l₂ : List DstBlstEntry} {e : DstBlstEntry} (hdel : c.deletes env s = some e)
      (hthin : Thin gone l (l₁ ++ e :: l₂)) : Change env s c gone l (l₁ ++ l₂)

theorem reads_le_exec (s) (c : BlstCall) : s.reads ≤ (c.exec env s).reads := by
  cases c with
  | addIp errFlags d timeout alloc => exact (dstBlacklistAddIp_adds env errFlags d timeout alloc s).reads.le
  | isBlacklistedIp d => exact (dstIsBlacklistedIp_cleaned).reads
  | del d =>
    have hdel := dstBlacklistDel_deletes env d s
    rw [BlstCall.exec]
    generalize dstBlacklistDel env d s = r at hdel
    cases hdel with
    | none hclean _ => exact hclean.reads
    | some _ _ _ => exact Nat.le_succ _
  | cleanExpired target delta timeout => exact (dstBlacklistCleanExpired_cleaned).reads

theorem exec_change (env : Env) (s) (c : BlstCall) (h) :
    Change env s c (env.Gone c.delta s.reads (c.exec env s).reads) (s.hash h) ((c.exec env s).hash h) := by
  cases c with
  | addIp errFlags d timeout alloc =>
    have hadds := dstBlacklistAddIp_adds env errFlags d timeout alloc s
    by_cases hh : h = env.no d
    · have hown := hadds.own
      subst hh
      split at hown
      · exact .put rfl hown
      · exact .thin hown
    · exact .thin (hadds.other h hh)
  | isBlacklistedIp d => exact .thin ((dstIsBlacklistedIp_cleaned).thin h)
  | del d =>
    have hdel := dstBlacklistDel_deletes env d s
    rw [BlstCall.exec]
    generalize hr : dstBlacklistDel env d s = r at hdel
    cases hdel with
    | none hclean _ => exact .thin (hclean.thin h)
    | some hthin _ _ =>
      by_cases hh : h = env.no d
      · subst hh
        simp only [Blacklist.hash_setChain, if_true]
        exact .remove (by rw [BlstCall.deletes, hr]) hthin
      · simp only [Blacklist.hash_setChain, if_neg hh]
        exact .thin (.refl _ _)
  | cleanExpired target delta timeout =>
    exact .thin ((dstBlacklistCleanExpired_cleaned).thin h)

/-! ## Keys -/

/-- What a search compares: port, address type, protocol and address. -/
structure Key where
  port : UInt16
  type : UInt8
  proto : UInt8
  ip : List UInt8

def DstBlstEntry.key (e : DstBlstEntry) : Key := ⟨e.port, e.flags &&& blstIsIpv6, e.proto, e.ip⟩

def Dest.key (d : Dest) : Key := ⟨d.port, d.ip.type, d.proto, d.ip.addr⟩

/-- Equal but for the protocol, which may be the wildcard. -/
def Key.Meets (k k' : Key) : Prop := k.port = k'.port ∧ k.type = k'.type ∧ ProtoMatch k.proto k'.proto ∧ k.ip = k'.ip

variable {e : DstBlstEntry} {calls : List BlstCall} {q d : Dest} {env : Env} {s : Blacklist}
  {h : Fin dstBlstHashSize} {flags : UInt8} {errFlags : UInt8}

theorem isFor_iff_meets : e.IsFor d ↔ e.key.Meets d.key := .rfl

theorem isFor_congr {e' : DstBlstEntry} (h : e.key = e'.key) (d : Dest) : e.IsFor d ↔ e'.IsFor d := by
  rw [isFor_iff_meets, isFor_iff_meets, h]

/-- Two protocols that match the same one, which is not the wildcard, match each other. -/
theorem ProtoMatch.common {a b p} (ha : ProtoMatch a p) (hb : ProtoMatch b p) (hp : p ≠ protoNone) :
    ProtoMatch a b := by
  rcases ha with ha | ha | rfl
  · exact .inl ha
  · exact absurd ha hp
  · rcases hb with hb | hb | hb
    · exact .inr (.inl hb)
    · exact absurd hb hp
    · exact .inr (.inr hb.symm)

/-- The same address and port, with any protocol. -/
def Dest.Same (d q : Dest) : Prop := d.ip = q.ip ∧ d.port = q.port

instance (d q : Dest) : Decidable (d.Same q) := inferInstanceAs (Decidable (_ ∧ _))

theorem IpAddr.eq_of_type_addr {ip ip' : IpAddr} (htype : ip.type = ip'.type)
    (haddr : ip.addr = ip'.addr) : ip = ip' := by
  obtain ⟨isV6, addr, _⟩ := ip
  obtain ⟨isV6', addr', _⟩ := ip'
  cases haddr
  cases isV6 <;> cases isV6' <;> simp_all [IpAddr.type, blstIsIpv6]

theorem Dest.meets_iff : d.key.Meets q.key ↔ d.Same q ∧ ProtoMatch d.proto q.proto := by
  constructor
  · rintro ⟨hport, htype, hproto, haddr⟩
    exact ⟨⟨IpAddr.eq_of_type_addr htype haddr, hport⟩, hproto⟩
  · rintro ⟨⟨hip, hport⟩, hproto⟩
    exact ⟨hport, congrArg IpAddr.type hip, hproto, congrArg IpAddr.addr hip⟩

theorem or_and_distrib (a b c : UInt8) : (a ||| b) &&& c = (a &&& c) ||| (b &&& c) := by
  apply UInt8.eq_of_toBitVec_eq
  ext i hi
  simp [Bool.and_or_distrib_right]

theorem or_and_self (a b : UInt8) : (a ||| b) &&& b = b := by
  apply UInt8.eq_of_toBitVec_eq
  ext i hi
  cases hb : b.toBitVec[i] <;> simp [hb]

theorem entryFlags_type (ip : IpAddr) : entryFlags errFlags ip &&& blstIsIpv6 = ip.type := by
  unfold entryFlags IpAddr.type
  split
  · exact or_and_self errFlags blstIsIpv6
  · rw [UInt8.and_assoc]
    simp

theorem key_entry {expire} : (d.entry (entryFlags errFlags d.ip) expire).key = d.key := by
  simp only [Dest.entry, DstBlstEntry.key, Dest.key, entryFlags_type]

theorem key_renew (he : e.IsFor d) (errFlags : UInt8) (expire : UInt32) :
    (e.renew (entryFlags errFlags d.ip) expire).key = e.key := by
  simp only [DstBlstEntry.renew, DstBlstEntry.key, or_and_distrib, entryFlags_type, ← he.2.1, UInt8.or_self]

/-- What a call does to the keys of a chain. -/
inductive KeyChange (c : BlstCall) (keys : List Key) : List Key → Prop
  | sub {keys' : List Key} (hsub : keys'.Sublist keys) : KeyChange c keys keys'
  | cons {d : Dest} {timeout : UInt32} {keys' : List Key} (hadds : c.adds = some (d, timeout))
      (hsub : keys'.Sublist keys)
      (hnew : ∀ k ∈ keys', ¬ k.Meets d.key) : KeyChange c keys (d.key :: keys')

theorem Change.keyChange {c gone l m}
    (h : Change env s c gone l m) : KeyChange c (l.map (·.key)) (m.map (·.key)) := by
  cases h with
  | thin hthin => exact .sub (hthin.sublist.map _)
  | remove _ hthin =>
    apply KeyChange.sub
    refine List.Sublist.map _ (List.Sublist.trans ?_ hthin.sublist)
    exact (List.Sublist.refl _).append (sublist_cons_self _ _)
  | @put d timeout errFlags m hadds hput =>
    cases hput with
    | renew hthin he _ =>
      apply KeyChange.sub
      simpa only [map_append, map_cons, key_renew he] using hthin.sublist.map DstBlstEntry.key
    | insert hthin hm =>
      rw [map_cons, key_entry]
      exact .cons hadds (hthin.sublist.map _) (by simpa using fun x hx => mt isFor_iff_meets.2 (hm x hx))

/-! ## What is in a chain -/

section Keys

variable {c : BlstCall} {keys keys' : List Key}

/-- Every key is that of a destination that was added. -/
def Made (calls : List BlstCall) (keys : List Key) : Prop :=
  ∀ k ∈ keys, ∃ c ∈ calls, ∃ d timeout, c.adds = some (d, timeout) ∧ k = d.key

/-- No two entries meet. -/
def Apart (keys : List Key) : Prop := keys.Pairwise fun k k' => ¬ k.Meets k'

/-- Nothing is found for a destination. -/
def Free (q : Dest) (keys : List Key) : Prop := ∀ k ∈ keys, ¬ k.Meets q.key

theorem Made.change (h : Made calls keys) (hc : KeyChange c keys keys') : Made (calls ++ [c]) keys' := by
  have hold : ∀ k ∈ keys, ∃ c' ∈ calls ++ [c], ∃ d timeout, c'.adds = some (d, timeout) ∧ k = d.key := by
    intro k hk
    obtain ⟨c', hc', hd⟩ := h k hk
    exact ⟨c', mem_append_left _ hc', hd⟩
  cases hc with
  | sub hsub => exact fun k hk => hold k (hsub.subset hk)
  | @cons d timeout _ hadds hsub _ =>
    intro k hk
    cases hk with
    | head => exact ⟨c, by simp, d, timeout, hadds, rfl⟩
    | tail _ hk => exact hold k (hsub.subset hk)

theorem Key.Meets.symm {k k' : Key} (h : k.Meets k') : k'.Meets k := by
  obtain ⟨hport, htype, hproto, hip⟩ := h
  refine ⟨hport.symm, htype.symm, ?_, hip.symm⟩
  unfold ProtoMatch at hproto ⊢
  tauto

theorem Apart.change (h : Apart keys) (hc : KeyChange c keys keys') : Apart keys' := by
  cases hc with
  | sub hsub => exact h.sublist hsub
  | cons _ hsub hnew => exact .cons (fun k hk => mt .symm (hnew k hk)) (h.sublist hsub)

theorem Free.change (h : Free q keys) (hc : KeyChange c keys keys')
    (hq : ∀ d timeout, c.adds = some (d, timeout) → ¬ (d.Same q ∧ ProtoMatch d.proto q.proto)) : Free q keys' := by
  cases hc with
  | sub hsub => exact fun k hk => h k (hsub.subset hk)
  | @cons d timeout _ hadds hsub _ =>
    intro k hk
    cases hk with
    | head => exact mt Dest.meets_iff.1 (hq d timeout hadds)
    | tail _ hk => exact h k (hsub.subset hk)

end Keys

def Blacklist.keys (s : Blacklist) (h : Fin dstBlstHashSize) : List Key := (s.hash h).map (·.key)

theorem exec_keyChange (env : Env) (c) : KeyChange c (s.keys h) ((c.exec env s).keys h) :=
  (exec_change env s c h).keyChange

theorem made_run {env} :
    ∀ {done : List BlstCall} {s : Blacklist}, Made done (s.keys h) →
      Made (done ++ calls) ((run env calls s).keys h) := by
  induction calls with
  | nil => simp [run]
  | cons c calls ih =>
    intro done s hs
    have hnext := ih (hs.change (exec_keyChange env c))
    rwa [append_assoc] at hnext

theorem apart_run :
    ∀ {s : Blacklist}, Apart (s.keys h) → Apart ((run env calls s).keys h) := by
  induction calls with
  | nil => exact id
  | cons c calls ih => exact fun hs => ih (hs.change (exec_keyChange env c))

/-- No call adds a destination that a search for `q` finds. -/
def NoneAdded (q : Dest) (calls : List BlstCall) : Prop :=
  ∀ c ∈ calls, ∀ d timeout, c.adds = some (d, timeout) → ¬ (d.Same q ∧ ProtoMatch d.proto q.proto)

theorem free_run (hq : NoneAdded q calls) :
    ∀ {s : Blacklist}, Free q (s.keys h) → Free q ((run env calls s).keys h) := by
  induction calls with
  | nil => exact id
  | cons c calls ih =>
    intro s hs
    apply ih fun c' hc' => hq c' (mem_cons_of_mem _ hc')
    exact hs.change (exec_keyChange env c) (hq c mem_cons_self)

theorem dstIsBlacklistedIp_free (h : Free q (s.keys (env.no q))) : (dstIsBlacklistedIp env q s).1 = 0 := by
  have hfound := lstFind_spec q (env.ticks s.reads) (s.hash (env.no q))
  simp only [dstIsBlacklistedIp]
  generalize lstFind q (env.ticks s.reads) (s.hash (env.no q)) = r at hfound
  cases hfound with
  | none _ _ => rfl
  | @some l1 l2 e hthin he _ =>
    have hmem : e ∈ s.hash (env.no q) := hthin.sublist.subset (by simp)
    exact absurd (isFor_iff_meets.1 he) (h e.key (mem_map_of_mem hmem))

/-! ## An entry that is found -/

/-- The entry has the flags, and expires after `t`. When the `k`-th reading comes its timeout is running. -/
structure Lasts (env : Env) (flags : UInt8) (t k : Nat) (e : DstBlstEntry) : Prop where
  flags : flags &&& e.flags = flags
  expire : ∃ r timeout, e.expire = UInt32.ofNat (r + timeout) ∧ r ≤ env.clock k ∧ timeout < 2 ^ 31 ∧ t < r + timeout

theorem not_passed {r timeout now : Nat} (hr : r ≤ now) (hnow : now < r + timeout) (ht : timeout < 2 ^ 31) :
    passed (UInt32.ofNat now) (UInt32.ofNat (r + timeout)) = false := by
  simp only [passed, UInt32.toNat_sub, UInt32.toNat_ofNat', decide_eq_false_iff_not]
  omega

theorem Lasts.not_gone (hclock : Monotone env.clock) {t k j}
    (h : Lasts env flags t k e) (hj : ∀ i < j, env.clock i ≤ t) : ¬ env.Gone 0 k j e := by
  rintro ⟨i, hki, hij, hp⟩
  obtain ⟨r, timeout, hexp, hr, htimeout, ht⟩ := h.expire
  have hri := hr.trans (hclock hki)
  have hit := hj i hij
  rw [UInt32.add_zero, Env.ticks, hexp, not_passed hri (by omega) htimeout] at hp
  exact absurd hp (by decide)

theorem Lasts.mono (hclock : Monotone env.clock) {t k j} (h : Lasts env flags t k e) (hkj : k ≤ j) :
    Lasts env flags t j e := by
  obtain ⟨r, timeout, hexp, hr, hrest⟩ := h.expire
  exact ⟨h.flags, r, timeout, hexp, hr.trans (hclock hkj), hrest⟩

/-- The first entry of a chain that a search for `q` finds lasts. Only for a search with the
wildcard does the protocol of the entry matter. -/
def Held (env : Env) (q : Dest) (proto flags : UInt8) (t k : Nat) (l : List DstBlstEntry) : Prop :=
  ∃ e, l.find? (fun x => x.IsFor q) = some e ∧ (q.proto = protoNone → e.proto = proto) ∧ Lasts env flags t k e

/-- A call that leaves an entry which `q` finds for longer than `t`: it does not delete it, it does
not give it a timeout that is over by then, and it cleans without a delta. -/
structure BlstCall.Spares (env : Env) (q : Dest) (t : Nat) (s : Blacklist) (c : BlstCall) : Prop where
  delta : c.delta = 0
  deletes : ∀ e, c.deletes env s = some e → ¬ e.IsFor q
  adds : ∀ d timeout, c.adds = some (d, timeout) → d.Same q → t < env.clock s.reads + timeout.toNat

/-- Every call for the address and the port of `q` adds the same protocol. -/
def OneProto (q : Dest) (proto : UInt8) (calls : List BlstCall) : Prop :=
  ∀ c ∈ calls, ∀ d timeout, c.adds = some (d, timeout) → d.Same q → d.proto = proto

def BlstCall.TimeoutOk (c : BlstCall) : Prop := ∀ d timeout, c.adds = some (d, timeout) → timeout.toNat < 2 ^ 31

theorem same_of_isFor (hd : e.IsFor d) (hq : e.IsFor q) : d.Same q :=
  ⟨IpAddr.eq_of_type_addr (hd.2.1.symm.trans hq.2.1) (hd.2.2.2.symm.trans hq.2.2.2), hd.1.symm.trans hq.1⟩

theorem and_or_of_and {f a} (h : f &&& a = f) (b : UInt8) : f &&& (a ||| b) = f := by
  rw [← h]
  apply UInt8.eq_of_toBitVec_eq
  ext i hi
  cases hf : f.toBitVec[i] <;> cases ha : a.toBitVec[i] <;> simp [hf, ha]

theorem ticks_add {k timeout} : env.ticks k + timeout = UInt32.ofNat (env.clock k + timeout.toNat) := by
  rw [Env.ticks, UInt32.ofNat_add, UInt32.ofNat_toNat]

section Held

variable {env : Env} {q d : Dest} {proto flags errFlags : UInt8} {t k : Nat} {timeout : UInt32}
  {s : Blacklist} {c : BlstCall}
  {gone : DstBlstEntry → Prop} {l m : List DstBlstEntry}

theorem lasts_new (hflags : flags &&& e.flags = flags) (hexp : e.expire = env.ticks k + timeout)
    (hok : timeout.toNat < 2 ^ 31) (ht : t < env.clock k + timeout.toNat) : Lasts env flags t k e :=
  ⟨hflags, env.clock k, timeout.toNat, by rw [hexp, ticks_add], le_rfl, hok, ht⟩

/-- An entry that is put in leaves one that is found the first. -/
theorem Held.put (h : Held env q proto flags t k l) (hgone : ∀ e, Lasts env flags t k e → ¬ gone e)
    (hput : Put d (entryFlags errFlags d.ip) (env.ticks k + timeout) gone l m) (hok : timeout.toNat < 2 ^ 31)
    (ht : d.Same q → t < env.clock k + timeout.toNat)
    (hproto : d.Same q → q.proto = protoNone → d.proto = proto) : Held env q proto flags t k m := by
  obtain ⟨e, hfind, heproto, hlasts⟩ := h
  cases hput with
  | @renew l1 l2 x hthin hx _ =>
    replace hfind := hthin.find?_eq hfind (hgone e hlasts)
    have hiff := isFor_congr (key_renew hx errFlags (env.ticks k + timeout)) q
    rw [find?_append, find?_cons] at hfind
    unfold Held
    rw [find?_append, find?_cons]
    simp only [hiff]
    cases hl1 : l1.find? (fun x => x.IsFor q) with
    | some y => exact ⟨e, by simpa [hl1] using hfind, heproto, hlasts⟩
    | none =>
      by_cases hxq : x.IsFor q
      · have hex : x = e := by simpa [hl1, hxq] using hfind
        subst hex
        refine ⟨x.renew (entryFlags errFlags d.ip) (env.ticks k + timeout), by simp [hxq], heproto, ?_⟩
        exact lasts_new (and_or_of_and hlasts.flags _) rfl hok (ht (same_of_isFor hx hxq))
      · exact ⟨e, by simpa [hl1, hxq] using hfind, heproto, hlasts⟩
  | insert hthin hm =>
    replace hfind := hthin.find?_eq hfind (hgone e hlasts)
    have heq : e.IsFor q := by simpa using find?_some hfind
    have hed : ¬ e.IsFor d := hm e (mem_of_find?_eq_some hfind)
    -- an entry for the same destination would have been found
    have hnew : ¬ d.key.Meets q.key := by
      intro hmeets
      obtain ⟨hsame, hmatch⟩ := Dest.meets_iff.1 hmeets
      apply hed
      refine ⟨heq.1.trans hsame.2.symm, by rw [heq.2.1, hsame.1], ?_, by rw [heq.2.2.2, hsame.1]⟩
      by_cases hq : q.proto = protoNone
      · exact .inr (.inr ((heproto hq).trans (hproto hsame hq).symm))
      · exact heq.2.2.1.common hmatch hq
    refine ⟨e, ?_, heproto, hlasts⟩
    rw [find?_cons]
    have : ¬ (d.entry (entryFlags errFlags d.ip) (env.ticks k + timeout)).IsFor q := by
      rwa [isFor_iff_meets, key_entry]
    simpa [this] using hfind

theorem Held.change (h : Held env q proto flags t s.reads l) (hgone : ∀ e, Lasts env flags t s.reads e → ¬ gone e)
    (hc : Change env s c gone l m) (hok : c.TimeoutOk) (hspares : c.Spares env q t s)
    (hproto : q.proto = protoNone → OneProto q proto [c]) : Held env q proto flags t s.reads m := by
  cases hc with
  | thin hthin =>
    obtain ⟨e, hfind, heproto, hlasts⟩ := h
    exact ⟨e, hthin.find?_eq hfind (hgone e hlasts), heproto, hlasts⟩
  | put hadds hput =>
    apply h.put hgone hput (hok _ _ hadds) (hspares.adds _ _ hadds)
    exact fun hsame hq => hproto hq c (by simp) _ _ hadds hsame
  | @remove l1 l2 x hdel hthin =>
    obtain ⟨e, hfind, heproto, hlasts⟩ := h
    have hx : ¬ x.IsFor q := hspares.deletes x hdel
    have hfind' := hthin.find?_eq hfind (hgone e hlasts)
    refine ⟨e, ?_, heproto, hlasts⟩
    simpa [find?_append, find?_cons, hx] using hfind'

theorem Held.exec (hclock : Monotone env.clock) (hs : Held env q proto flags t s.reads (s.hash h))
    (hok : c.TimeoutOk) (hspares : c.Spares env q t s) (hproto : q.proto = protoNone → OneProto q proto [c])
    (ht : env.clock (c.exec env s).reads ≤ t) :
    Held env q proto flags t (c.exec env s).reads ((c.exec env s).hash h) := by
  have hc := exec_change env s c h
  rw [hspares.delta] at hc
  have hgone : ∀ e, Lasts env flags t s.reads e → ¬ env.Gone 0 s.reads (c.exec env s).reads e :=
    fun e he => he.not_gone hclock fun i hi => (hclock hi.le).trans ht
  obtain ⟨e, hfind, heproto, hlasts⟩ := hs.change hgone hc hok hspares hproto
  exact ⟨e, hfind, heproto, hlasts.mono hclock (reads_le_exec s c)⟩

theorem reads_le_run (s) : s.reads ≤ (run env calls s).reads := by
  induction calls generalizing s with
  | nil => exact le_rfl
  | cons c calls ih => exact (reads_le_exec s c).trans (ih _)

theorem Held.run (hclock : Monotone env.clock) :
    ∀ {s : Blacklist}, Held env q proto flags t s.reads (s.hash h) → (∀ c ∈ calls, c.TimeoutOk) →
      (∀ p ∈ trace env calls s, p.2.Spares env q t p.1) →
        (q.proto = protoNone → OneProto q proto calls) → env.clock (run env calls s).reads ≤ t →
      Held env q proto flags t (run env calls s).reads ((run env calls s).hash h) := by
  induction calls with
  | nil => exact fun hs _ _ _ _ => hs
  | cons c calls ih =>
    intro s hs hok hspares hproto ht
    obtain ⟨hokc, hok⟩ := forall_mem_cons.1 hok
    obtain ⟨hsparesc, hspares⟩ := forall_mem_cons.1 hspares
    have hnext : Held env q proto flags t (c.exec env s).reads ((c.exec env s).hash h) := by
      apply hs.exec hclock hokc hsparesc
      · intro hq c' hc'
        exact hproto hq c' (mem_cons.2 (.inl (mem_singleton.1 hc')))
      · exact (hclock (reads_le_run _)).trans ht
    exact ih hnext hok hspares (fun hq c' hc' => hproto hq c' (mem_cons_of_mem _ hc')) ht

/-- The entry that was put in is found first, if a search for `q` finds the entries that one for `d` does. -/
theorem Put.held (hput : Put d (entryFlags errFlags d.ip) (env.ticks k + timeout) gone l m)
    (hok : timeout.toNat < 2 ^ 31)
    (ht : t < env.clock k + timeout.toNat) (hd : d.key.Meets q.key) (hl : ∀ x ∈ l, x.IsFor q ↔ x.IsFor d)
    (hproto : ∀ x ∈ l, x.IsFor d → q.proto = protoNone → x.proto = d.proto) :
    Held env q d.proto (entryFlags errFlags d.ip) t k m := by
  cases hput with
  | @renew l1 l2 e hthin he hl1 =>
    have hmem : ∀ x ∈ l1 ++ e :: l2, x ∈ l := fun x hx => hthin.sublist.subset hx
    have hel : e ∈ l := hmem e (by simp)
    have heq := (isFor_congr (key_renew he errFlags (env.ticks k + timeout)) q).2 ((hl e hel).2 he)
    have hl1q : l1.find? (fun x => x.IsFor q) = none := by
      simp only [find?_eq_none, decide_eq_true_eq]
      exact fun x hx => mt (hl x (hmem x (by simp [hx]))).1 (hl1 x hx)
    refine ⟨e.renew (entryFlags errFlags d.ip) (env.ticks k + timeout), ?_, hproto e hel he, lasts_new ?_ rfl hok ht⟩
    · rw [find?_append, hl1q, find?_cons]
      simp [heq]
    · rw [UInt8.and_comm]
      exact or_and_self _ _
  | insert _ _ =>
    refine ⟨d.entry (entryFlags errFlags d.ip) (env.ticks k + timeout), ?_, fun _ => rfl,
      lasts_new UInt8.and_self rfl hok ht⟩
    rw [find?_cons]
    have : (d.entry (entryFlags errFlags d.ip) (env.ticks k + timeout)).IsFor q := by
      rwa [isFor_iff_meets, key_entry]
    simp [this]

theorem Held.dstIsBlacklistedIp (hclock : Monotone env.clock)
    (h : Held env q proto flags t s.reads (s.hash (env.no q))) (ht : env.clock s.reads ≤ t) :
    flags &&& (Blst.dstIsBlacklistedIp env q s).1 = flags := by
  obtain ⟨e, hfind, _, hlasts⟩ := h
  have hgone : ¬ passed (env.ticks s.reads) e.expire = true := by
    intro hp
    apply hlasts.not_gone hclock _ (Env.gone_now hp)
    exact fun i hi => (hclock (Nat.le_of_lt_succ hi)).trans ht
  have hfound := lstFind_spec q (env.ticks s.reads) (s.hash (env.no q))
  simp only [Blst.dstIsBlacklistedIp]
  generalize lstFind q (env.ticks s.reads) (s.hash (env.no q)) = r at hfound
  cases hfound with
  | none hthin hm =>
    have hfind' := hthin.find?_eq hfind hgone
    exact absurd (by simpa using find?_some hfind') (hm e (mem_of_find?_eq_some hfind'))
  | @some l1 l2 e' hthin he' hl =>
    have hfind' := hthin.find?_eq hfind hgone
    have hl1 : l1.find? (fun x => x.IsFor q) = none := by simpa [find?_eq_none] using hl
    rw [find?_append, hl1, find?_cons] at hfind'
    have hee : e' = e := by simpa [he'] using hfind'
    subst hee
    exact hlasts.flags

end Held

/-! ## The contract -/

/-- If all calls for an address and a port add one protocol, then the entries for it have that protocol. -/
theorem Made.proto_eq {keys} {k : Key} {proto} (h : Made calls keys)
    (hone : OneProto q proto calls) (hk : k ∈ keys) (hq : k.Meets q.key) : k.proto = proto := by
  obtain ⟨c, hc, d, timeout, hadds, rfl⟩ := h k hk
  exact hone c hc d timeout hadds (Dest.meets_iff.1 hq).1

/-- Searches for the two destinations of the contract find the same entries. -/
theorem isFor_agree {keys} (hmade : Made calls keys) (hsame : d.Same q)
    (hproto : d.proto = q.proto ∧ q.proto ≠ protoNone ∨ ProtoMatch d.proto q.proto ∧ OneProto q d.proto calls)
    {x : DstBlstEntry} (hx : x.key ∈ keys) (h : x.IsFor q ∨ x.IsFor d) :
    x.IsFor q ∧ x.IsFor d ∧ (q.proto = protoNone → x.proto = d.proto) := by
  obtain ⟨c, hc, d', timeout, hadds, hkey⟩ := hmade x.key hx
  have hiff : ∀ y, x.IsFor y ↔ d'.Same y ∧ ProtoMatch d'.proto y.proto := by
    intro y
    rw [isFor_iff_meets, hkey, Dest.meets_iff]
  have hxproto : x.proto = d'.proto := congrArg Key.proto hkey
  have hsame' : d'.Same q ∧ d'.Same d := by
    rcases h with h | h
    · have hq := ((hiff q).1 h).1
      exact ⟨hq, hq.1.trans hsame.1.symm, hq.2.trans hsame.2.symm⟩
    · have hd := ((hiff d).1 h).1
      exact ⟨⟨hd.1.trans hsame.1, hd.2.trans hsame.2⟩, hd⟩
  rw [hiff q, hiff d, hxproto]
  rcases hproto with ⟨heq, hne⟩ | ⟨hmatch, hone⟩
  · have hm : ProtoMatch d'.proto q.proto := by
      rcases h with h | h
      · exact ((hiff q).1 h).2
      · exact heq ▸ ((hiff d).1 h).2
    exact ⟨⟨hsame'.1, hm⟩, ⟨hsame'.2, heq ▸ hm⟩, fun hq => absurd hq hne⟩
  · have hd' := hone c hc d' timeout hadds hsame'.1
    exact ⟨⟨hsame'.1, hd' ▸ hmatch⟩, ⟨hsame'.2, .inr (.inr hd')⟩, fun _ => hd'⟩

theorem made_init : Made [] (Blacklist.init.keys h) := by simp [Made, Blacklist.keys, Blacklist.init]

theorem apart_init : Apart (Blacklist.init.keys h) := .nil

theorem free_init {q} : Free q (Blacklist.init.keys h) := by
  simp [Free, Blacklist.keys, Blacklist.init]

/-- Only one entry can be found for `q`, so after it is deleted there is none. -/
theorem free_dstBlacklistDel (hapart : Apart (s.keys (env.no q)))
    (hone : ∀ k ∈ s.keys (env.no q), ∀ k' ∈ s.keys (env.no q),
      k.Meets q.key → k'.Meets q.key → ProtoMatch k.proto k'.proto) :
    Free q ((dstBlacklistDel env q s).2.keys (env.no q)) := by
  have hdel := dstBlacklistDel_deletes env q s
  generalize dstBlacklistDel env q s = r at hdel
  cases hdel with
  | none _ hs =>
    intro k hk
    obtain ⟨x, hx, rfl⟩ := mem_map.1 hk
    exact hs x hx
  | @some e l1 l2 hthin he hl =>
    have hsub := hthin.sublist.map DstBlstEntry.key
    have hmem : ∀ x ∈ l1 ++ e :: l2, x.key ∈ s.keys (env.no q) := fun x hx => hsub.subset (mem_map_of_mem hx)
    have hapart' : Apart ((l1 ++ e :: l2).map (·.key)) := List.Pairwise.sublist hsub hapart
    intro k hk hkq
    simp only [Blacklist.keys, Blacklist.hash_setChain, if_true, mem_map, mem_append] at hk
    obtain ⟨x, hx | hx, rfl⟩ := hk
    · exact hl x hx hkq
    · rw [Apart, map_append, map_cons, pairwise_append, pairwise_cons] at hapart'
      apply hapart'.2.1.1 x.key (mem_map_of_mem hx)
      obtain ⟨hport, htype, _, hip⟩ := isFor_iff_meets.1 he
      refine ⟨hport.trans hkq.1.symm, htype.trans hkq.2.1.symm, ?_, hip.trans hkq.2.2.2.symm⟩
      exact hone e.key (hmem e (by simp)) x.key (hmem x (by simp [hx])) he hkq

/-- A clock that advances at each reading, and all destinations in one chain. -/
def sampleEnv : Env := ⟨fun _ _ => ⟨0, by decide⟩, id, 256000⟩

def sampleDest (proto : UInt8) : Dest := ⟨proto, ⟨false, [10, 0, 0, 1], rfl⟩, 5060⟩

/-- For every run of calls at ticks that do not decrease, with timeouts below `2 ^ 31`:
* after an add that returned 0, a search for the same protocol, or for a matching one if the address
  and the port were only ever added with one protocol, returns the flags until the timeout of that
  add or of a later one for the address and the port is over, or an entry that it finds is deleted;
* a search for a destination that was never added returns 0;
* after a delete the same search returns 0, until the destination is added again, unless it is one
  with the wildcard for an address and a port that were added with several protocols. -/
theorem blacklist_contract {env : Env} (hclock : Monotone env.clock) {calls : List BlstCall} {s : Blacklist}
    (hs : s = run env calls .init) :
    (∀ errFlags d timeout alloc after q s', (dstBlacklistAddIp env errFlags d timeout alloc s).1 = 0 →
      s' = run env after (dstBlacklistAddIp env errFlags d timeout alloc s).2 →
      timeout.toNat < 2 ^ 31 → (∀ c ∈ after, c.TimeoutOk) →
      d.Same q → (d.proto = q.proto ∧ q.proto ≠ protoNone ∨
        ProtoMatch d.proto q.proto ∧ OneProto q d.proto (calls ++ after)) →
      env.clock s'.reads < env.clock s.reads + timeout.toNat →
      (∀ p ∈ trace env after (dstBlacklistAddIp env errFlags d timeout alloc s).2,
        p.2.Spares env q (env.clock s'.reads) p.1) →
      entryFlags errFlags d.ip &&& (dstIsBlacklistedIp env q s').1 = entryFlags errFlags d.ip) ∧
    (∀ q, NoneAdded q calls → (dstIsBlacklistedIp env q s).1 = 0) ∧
    (∀ q after, (q.proto ≠ protoNone ∨ ∃ proto, OneProto q proto calls) → NoneAdded q after →
      (dstIsBlacklistedIp env q (run env after (dstBlacklistDel env q s).2)).1 = 0) := by
  have hmade : ∀ h, Made calls (s.keys h) := by
    intro h
    rw [hs]
    exact made_run (made_init)
  refine ⟨?_, ?_, ?_⟩
  · intro errFlags d timeout alloc after q s' hret hs' hok hafter hsame hproto ht hspares
    have hno : env.no d = env.no q := by rw [Env.no, Env.no, hsame.1, hsame.2]
    have hadds := dstBlacklistAddIp_adds env errFlags d timeout alloc s
    have hput := hadds.own
    rw [if_pos hret, hno] at hput
    have hmatch := hproto.elim (fun h => .inr (.inr h.1)) fun h => h.1
    have hagree := fun x (hx : x ∈ s.hash (env.no q)) => isFor_agree (hmade (env.no q)) hsame
      (hproto.imp_right fun h => ⟨h.1, fun c hc => h.2 c (mem_append_left _ hc)⟩) (mem_map_of_mem hx)
    have hheld := hput.held hok ht (Dest.meets_iff.2 ⟨hsame, hmatch⟩)
      (fun x hx => ⟨fun h => (hagree x hx (.inl h)).2.1, fun h => (hagree x hx (.inr h)).1⟩)
      (fun x hx h => (hagree x hx (.inr h)).2.2)
    have hnext : Held env q d.proto (entryFlags errFlags d.ip) (env.clock s'.reads) s'.reads (s'.hash (env.no q)) := by
      rw [hs'] at hspares hheld ⊢
      obtain ⟨e, hfind, heproto, hlasts⟩ := hheld
      apply Held.run hclock ⟨e, hfind, heproto, hlasts.mono hclock hadds.reads.le⟩ hafter hspares _ le_rfl
      intro hq
      rcases hproto with ⟨_, hne⟩ | ⟨_, hone⟩
      · exact absurd hq hne
      · exact fun c hc => hone c (mem_append_right _ hc)
    exact hnext.dstIsBlacklistedIp hclock le_rfl
  · intro q hq
    apply dstIsBlacklistedIp_free
    rw [hs]
    exact free_run hq (free_init)
  · intro q after hproto hq
    apply dstIsBlacklistedIp_free
    apply free_run hq
    apply free_dstBlacklistDel
    · rw [hs]
      exact apart_run (apart_init)
    · intro k hk k' hk' hkq hkq'
      rcases hproto with hne | ⟨proto, hone⟩
      · exact hkq.2.2.1.common hkq'.2.2.1 hne
      · exact .inr (.inr (((hmade _).proto_eq hone hk hkq).trans ((hmade _).proto_eq hone hk' hkq').symm))

/-- A destination that was added before is added again for UDP. A delete for TCP finds nothing, and
a search with the wildcard finds it. -/
theorem blacklist_contract_sample :
    2 &&& (dstIsBlacklistedIp sampleEnv (sampleDest 0) (run sampleEnv
      [.addIp 4 (sampleDest 1) 50 true, .addIp 2 (sampleDest 1) 100 true, .del (sampleDest 2)] .init)).1 = 2 ∧
    (dstIsBlacklistedIp sampleEnv (sampleDest 2) (run sampleEnv [.addIp 4 (sampleDest 1) 50 true] .init)).1 = 0 ∧
    (dstIsBlacklistedIp sampleEnv (sampleDest 0) (run sampleEnv
      [.addIp 4 (sampleDest 1) 50 true, .del (sampleDest 0), .isBlacklistedIp (sampleDest 1)] .init)).1 = 0 := by
  have hone : OneProto (sampleDest 0) 1 [.addIp 4 (sampleDest 1) 50 true, .del (sampleDest 2)] := by
    simp [OneProto, BlstCall.adds, sampleDest]
  obtain ⟨hadd, hnever, hdel⟩ :=
    @blacklist_contract sampleEnv monotone_id [.addIp 4 (sampleDest 1) 50 true] _ rfl
  refine ⟨?_, ?_, ?_⟩
  · apply hadd 2 (sampleDest 1) 100 true [.del (sampleDest 2)] (sampleDest 0) _ (by decide) rfl
      (by decide) _ (by decide)
      (.inr ⟨by decide, hone⟩) (by decide)
    · intro p hp
      cases mem_singleton.1 hp
      exact ⟨rfl, fun e he => absurd he (by decide +revert), by simp [BlstCall.adds]⟩
    · simp [BlstCall.TimeoutOk, BlstCall.adds]
  · apply hnever
    simp [NoneAdded, BlstCall.adds, ProtoMatch, sampleDest, protoNone]
  · apply hdel (sampleDest 0) [.isBlacklistedIp (sampleDest 1)] (.inr ⟨1, fun c hc => hone c (by simp_all)⟩)
    simp [NoneAdded, BlstCall.adds]

/-- After an add of UDP one with the wildcard renews the entry for UDP, and TCP is not found. After
adds of UDP and TCP a search with the wildcard returns only flags of one, and finds the other when
that is deleted. A later add shortens the timeout, a delta removes entries that are not expired, and
the bit of the address type is not added. -/
theorem blacklist_wildcards_miss :
    (dstBlacklistAddIp sampleEnv 4 (sampleDest 0) 100 true
      (run sampleEnv [.addIp 2 (sampleDest 1) 100 true] .init)).1 = 0 ∧
    (dstIsBlacklistedIp sampleEnv (sampleDest 2) (run sampleEnv
      [.addIp 2 (sampleDest 1) 100 true, .addIp 4 (sampleDest 0) 100 true] .init)).1 = 0 ∧
    (dstIsBlacklistedIp sampleEnv (sampleDest 0) (run sampleEnv
      [.addIp 2 (sampleDest 1) 100 true, .addIp 4 (sampleDest 2) 100 true] .init)).1 = 4 ∧
    (dstIsBlacklistedIp sampleEnv (sampleDest 0) (run sampleEnv
      [.addIp 2 (sampleDest 1) 100 true, .addIp 4 (sampleDest 2) 100 true, .del (sampleDest 0)] .init)).1 = 2 ∧
    (dstIsBlacklistedIp sampleEnv (sampleDest 1) (run sampleEnv
      [.addIp 2 (sampleDest 1) 100 true, .addIp 4 (sampleDest 1) 1 true] .init)).1 = 0 ∧
    (dstIsBlacklistedIp sampleEnv (sampleDest 1) (run sampleEnv
      [.addIp 2 (sampleDest 1) 100 true, .cleanExpired 0 200 2] .init)).1 = 0 ∧
    (dstIsBlacklistedIp sampleEnv (sampleDest 1) (run sampleEnv [.addIp 3 (sampleDest 1) 100 true] .init)).1 = 2 := by
  decide +kernel

/-- In every run each entry was put there by a call for its destination, and no two entries of a
chain match each other. -/
theorem blacklist_entries_apart (env : Env) (calls : List BlstCall) (h : Fin dstBlstHashSize) :
    Made calls ((run env calls .init).keys h) ∧ Apart ((run env calls .init).keys h) :=
  ⟨made_run made_init, apart_run apart_init⟩

end SipRouter.Blst
