import SipRouter.Lib.Thin
import Mathlib

/-!
# The destination blacklist (`dst_blacklist.c`)

Destinations that failed are kept for a while in a hash table with chaining. Expired
entries are removed when a chain is searched, and by `dst_blacklist_clean_expired`, which
also runs when an entry would need more memory than is allowed.

The hash is over the address and the port. The ticks are read from a clock; the table
counts how often it was read. The statistics and the hooks are left out, and so are the
locks: the calls of a run do not overlap.
-/

namespace SipRouter.Blst

open Lib List Function

/-- An `ip_addr`. -/
structure IpAddr where
  isV6 : Bool
  addr : List UInt8
  len : addr.length = if isV6 then 16 else 4
deriving DecidableEq

/-- `PROTO_NONE`, a wildcard. -/
def protoNone : UInt8 := 0

def ProtoMatch (p q : UInt8) : Prop := p = protoNone ∨ q = protoNone ∨ p = q

instance (p q : UInt8) : Decidable (ProtoMatch p q) := inferInstanceAs (Decidable (_ ∨ _ ∨ _))

/-- `BLST_IS_IPV6`, among the flags of an entry. -/
def blstIsIpv6 : UInt8 := 1

def IpAddr.type (ip : IpAddr) : UInt8 := if ip.isV6 then blstIsIpv6 else 0

structure Dest where
  proto : UInt8
  ip : IpAddr
  port : UInt16
deriving DecidableEq

structure DstBlstEntry where
  expire : UInt32
  port : UInt16
  proto : UInt8
  flags : UInt8
  ip : List UInt8
deriving DecidableEq

abbrev dstBlstHashSize : Nat := 1024

structure Blacklist where
  hash : Fin dstBlstHashSize → List DstBlstEntry
  memUsed : Nat
  /-- where `dst_blacklist_clean_expired` starts the next time -/
  start : Nat
  /-- how often the ticks were read -/
  reads : Nat

def Blacklist.init : Blacklist := ⟨fun _ => [], 0, 0, 0⟩

/-- What the blacklist uses: `dst_blst_hash_no` without the protocol, the tick at each reading, and `blst_max_mem`. -/
structure Env where
  hashNo : IpAddr → UInt16 → Fin dstBlstHashSize
  clock : Nat → Nat
  maxMem : Nat

/-- What `get_ticks_raw` returns at a reading. -/
def Env.ticks (env : Env) (k : Nat) : UInt32 := UInt32.ofNat (env.clock k)

def Env.no (env : Env) (d : Dest) : Fin dstBlstHashSize := env.hashNo d.ip d.port

/-- `(s_ticks_t)(now - expire) >= 0`. -/
def passed (now expire : UInt32) : Bool := (now - expire).toNat < 2 ^ 31

namespace DstBlstEntry

/-- `DST_BLST_ENTRY_SIZE`. -/
def size (e : DstBlstEntry) : Nat := 24 + (e.flags &&& blstIsIpv6).toNat * 12

/-- The test of a search. Addresses of one type have one length. -/
def IsFor (e : DstBlstEntry) (d : Dest) : Prop :=
  e.port = d.port ∧ e.flags &&& blstIsIpv6 = d.ip.type ∧ ProtoMatch e.proto d.proto ∧ e.ip = d.ip.addr

instance (e : DstBlstEntry) (d : Dest) : Decidable (e.IsFor d) := inferInstanceAs (Decidable (_ ∧ _ ∧ _ ∧ _))

end DstBlstEntry

/-- `_dst_blacklist_lst_find`: the chain up to the entry that is found, without the expired ones,
then that entry and what is behind it. -/
def lstFind (d : Dest) (now : UInt32) :
    List DstBlstEntry → List DstBlstEntry × Option (DstBlstEntry × List DstBlstEntry)
  | [] => ([], none)
  | e :: l =>
    if passed now e.expire then lstFind d now l
    else if e.IsFor d then ([], some (e, l))
    else ((e :: (lstFind d now l).1), (lstFind d now l).2)

namespace Blacklist

/-- A chain is replaced by what is left of it, and the memory of the other entries is freed. -/
def setChain (i : Fin dstBlstHashSize) (chain : List DstBlstEntry) (s : Blacklist) : Blacklist :=
  { s with
    hash := update s.hash i chain
    memUsed := s.memUsed - (((s.hash i).map (·.size)).sum - (chain.map (·.size)).sum) }

def tick (s : Blacklist) : Blacklist := { s with reads := s.reads + 1 }

end Blacklist

/-- The inner loop of `dst_blacklist_clean_expired`: what is left of the chain, the memory used, and
if enough is free now. -/
def cleanChain (now delta : UInt32) (target : Nat) : List DstBlstEntry → Nat → List DstBlstEntry × Nat × Bool
  | [], mem => ([], mem, false)
  | e :: l, mem =>
    if passed (now + delta) e.expire then
      if mem - e.size ≤ target then (l, mem - e.size, true) else cleanChain now delta target l (mem - e.size)
    else
      let r := cleanChain now delta target l mem
      (e :: r.1, r.2)

/-- The outer loop of `dst_blacklist_clean_expired`, from the cell `h`, with the number of cells left. -/
def cleanFrom (env : Env) (target : Nat) (delta timeout startTime : UInt32) :
    Nat → Nat → UInt32 → Blacklist → Blacklist
  | 0, h, _, s => { s with start := h }
  | n + 1, h, now, s =>
    let i := Fin.ofNat dstBlstHashSize h
    if s.hash i = [] then cleanFrom env target delta timeout startTime n (h + 1) now s
    else
      let r := cleanChain now delta target (s.hash i) s.memUsed
      let s := { s with hash := update s.hash i r.1, memUsed := r.2.1 }
      if r.2.2 then { s with start := h }
      else if timeout ≤ env.ticks s.reads - startTime then { s.tick with start := h }
      else cleanFrom env target delta timeout startTime n (h + 1) (env.ticks s.reads) s.tick

/-- `dst_blacklist_clean_expired`. -/
def dstBlacklistCleanExpired (env : Env) (target : Nat) (delta timeout : UInt32) (s : Blacklist) : Blacklist :=
  cleanFrom env target delta timeout (env.ticks s.reads) dstBlstHashSize s.start (env.ticks s.reads) s.tick

/-- The flags of an entry for an address: the bit of the address type is not the caller's. -/
def entryFlags (errFlags : UInt8) (ip : IpAddr) : UInt8 :=
  if ip.isV6 then errFlags ||| blstIsIpv6 else errFlags &&& ~~~ blstIsIpv6

/-- 250 ms in ticks of 1/16 s. -/
def cleanTimeout : UInt32 := 4

/-- `E_OUT_OF_MEM`. -/
def eOutOfMem : Int := -2

/-- An entry that is there already: `err_flags` is added, and the timeout starts again. -/
def DstBlstEntry.renew (e : DstBlstEntry) (flags : UInt8) (expire : UInt32) : DstBlstEntry :=
  { e with flags := e.flags ||| flags, expire := expire }

/-- A new entry. -/
def Dest.entry (d : Dest) (flags : UInt8) (expire : UInt32) : DstBlstEntry :=
  ⟨expire, d.port, d.proto, flags, d.ip.addr⟩

/-- Room for a new entry, and if there is enough now: some memory (about 12%) is freed first if the
blacklist is full. -/
def makeRoom (env : Env) (size : Nat) (s : Blacklist) : Bool × Blacklist :=
  if env.maxMem ≤ s.memUsed + size then
    let s := dstBlacklistCleanExpired env (s.memUsed / 16 * 14) 0 cleanTimeout s
    (s.memUsed + size < env.maxMem, s)
  else (true, s)

/-- `dst_blacklist_lst_add`, at the head of the chain. -/
def Blacklist.lstAdd (i : Fin dstBlstHashSize) (e : DstBlstEntry) (s : Blacklist) : Blacklist :=
  { s with hash := update s.hash i (e :: s.hash i), memUsed := s.memUsed + e.size }

/-- The end of `dst_blacklist_add_ip` for a destination that has no entry. -/
def addEntry (env : Env) (i : Fin dstBlstHashSize) (e : DstBlstEntry) (alloc : Bool)
    (s : Blacklist) : Int × Blacklist :=
  let r := makeRoom env e.size s
  if r.1 then if alloc then (0, r.2.lstAdd i e) else (eOutOfMem, r.2) else (-1, r.2)

/-- `dst_blacklist_add_ip`; `alloc` says if `shm_malloc` has memory. -/
def dstBlacklistAddIp (env : Env) (errFlags : UInt8) (d : Dest) (timeout : UInt32) (alloc : Bool) (s : Blacklist) :
    Int × Blacklist :=
  let flags := entryFlags errFlags d.ip
  let expire := env.ticks s.reads + timeout
  let r := lstFind d (env.ticks s.reads) (s.hash (env.no d))
  match r.2 with
  | some (e, l) =>
    (0, s.tick.setChain (env.no d) (r.1 ++ e.renew flags expire :: l))
  | none => addEntry env (env.no d) (d.entry flags expire) alloc (s.tick.setChain (env.no d) r.1)

/-- `dst_is_blacklisted_ip`. -/
def dstIsBlacklistedIp (env : Env) (d : Dest) (s : Blacklist) : UInt8 × Blacklist :=
  let r := lstFind d (env.ticks s.reads) (s.hash (env.no d))
  match r.2 with
  | some (e, l) => (e.flags, s.tick.setChain (env.no d) (r.1 ++ e :: l))
  | none => (0, s.tick.setChain (env.no d) r.1)

/-- `dst_blacklist_del`, with the entry that is deleted. `_dst_blacklist_del` searches as
`_dst_blacklist_lst_find` does. -/
def dstBlacklistDel (env : Env) (d : Dest) (s : Blacklist) : Option DstBlstEntry × Blacklist :=
  let r := lstFind d (env.ticks s.reads) (s.hash (env.no d))
  match r.2 with
  | some (e, l) => (some e, s.tick.setChain (env.no d) (r.1 ++ l))
  | none => (none, s.tick.setChain (env.no d) r.1)

/-! ## What a call does to one chain -/

/-- An entry that was expired, or was to expire within `delta`, at one of the readings from `i` to before `j`. -/
def Env.Gone (env : Env) (delta : UInt32) (i j : Nat) (e : DstBlstEntry) : Prop :=
  ∃ k, i ≤ k ∧ k < j ∧ passed (env.ticks k + delta) e.expire = true

variable {j k : Nat} {e : DstBlstEntry} {c : Fin dstBlstHashSize} {l : List DstBlstEntry} {env : Env}

theorem Env.Gone.mono {delta i i' j'} (h : env.Gone delta i j e) (hi : i' ≤ i) (hj : j ≤ j') :
    env.Gone delta i' j' e := by
  obtain ⟨k, hik, hkj, hp⟩ := h
  exact ⟨k, by omega, by omega, hp⟩

theorem Env.gone_now (h : passed (env.ticks k) e.expire = true) : env.Gone 0 k (k + 1) e :=
  ⟨k, by omega, by omega, by rwa [UInt32.add_zero]⟩

/-- What a search finds in a chain. -/
inductive Found (d : Dest) (gone : DstBlstEntry → Prop) (l : List DstBlstEntry) :
    List DstBlstEntry × Option (DstBlstEntry × List DstBlstEntry) → Prop
  | none {m : List DstBlstEntry} (hthin : Thin gone l m) (hm : ∀ x ∈ m, ¬ x.IsFor d) : Found d gone l (m, none)
  | some {l₁ l₂ : List DstBlstEntry} {e : DstBlstEntry} (hthin : Thin gone l (l₁ ++ e :: l₂)) (he : e.IsFor d)
      (hl : ∀ x ∈ l₁, ¬ x.IsFor d) : Found d gone l (l₁, some (e, l₂))

theorem lstFind_spec (d : Dest) (now l) : Found d (fun e => passed now e.expire = true) l (lstFind d now l) := by
  induction l with
  | nil => exact .none .nil (by simp)
  | cons e l ih =>
    unfold lstFind
    by_cases hp : passed now e.expire = true
    · rw [if_pos hp]
      generalize lstFind d now l = r at ih
      cases ih with
      | none hthin hm => exact .none (.drop hp hthin) hm
      | some hthin he hl => exact .some (.drop hp hthin) he hl
    rw [if_neg hp]
    by_cases he : e.IsFor d
    · rw [if_pos he]
      exact .some (.refl _ _) he (by simp)
    rw [if_neg he]
    generalize lstFind d now l = r at ih
    cases ih with
    | none hthin hm => exact .none (.keep e hthin) (forall_mem_cons.2 ⟨he, hm⟩)
    | some hthin he' hl => exact .some (.keep e hthin) he' (forall_mem_cons.2 ⟨he, hl⟩)

theorem cleanChain_thin (now delta) (target : Nat) (l) (mem : Nat) :
    Thin (fun e => passed (now + delta) e.expire = true) l (cleanChain now delta target l mem).1 := by
  induction l generalizing mem with
  | nil => exact .nil
  | cons e l ih =>
    unfold cleanChain
    by_cases hp : passed (now + delta) e.expire = true
    · rw [if_pos hp]
      split
      · exact .drop hp (.refl _ _)
      · exact .drop hp (ih _)
    · rw [if_neg hp]
      exact .keep e (ih _)

/-- Nothing is done but to read the ticks and to remove entries that are gone at a reading from `i` on. -/
structure Cleaned (env : Env) (delta : UInt32) (i : Nat) (s s' : Blacklist) : Prop where
  reads : s.reads ≤ s'.reads
  thin : ∀ h, Thin (env.Gone delta i s'.reads) (s.hash h) (s'.hash h)

namespace Cleaned

variable {delta : UInt32} {i : Nat} {s s' s'' : Blacklist}

theorem of_hash_eq (hreads : s.reads ≤ s'.reads) (hhash : s'.hash = s.hash) : Cleaned env delta i s s' :=
  ⟨hreads, fun h => by rw [hhash]; exact .refl _ _⟩

theorem trans (h : Cleaned env delta i s s') (h' : Cleaned env delta i s' s'') : Cleaned env delta i s s'' where
  reads := h.reads.trans h'.reads
  thin c := ((h.thin c).mono fun _ hx => hx.mono le_rfl h'.reads).trans (h'.thin c)

theorem from_le (h : Cleaned env delta i s s') (hj : j ≤ i) : Cleaned env delta j s s' :=
  ⟨h.reads, fun c => (h.thin c).mono fun _ hx => hx.mono hj le_rfl⟩

/-- A chain is thinned at a reading. -/
theorem update (hl : Thin (fun e => passed (env.ticks k + delta) e.expire = true) (s.hash c) l) (hik : i ≤ k)
    (hk : k < s'.reads) (hreads : s.reads ≤ s'.reads) (hhash : s'.hash = update s.hash c l) :
    Cleaned env delta i s s' := by
  refine ⟨hreads, fun h => ?_⟩
  rw [hhash]
  by_cases hc : h = c
  · subst hc
    rw [update_self]
    exact hl.mono fun e he => ⟨k, hik, hk, he⟩
  · rw [update_of_ne hc]
    exact .refl _ _

end Cleaned

theorem cleanFrom_cleaned {target delta timeout startTime i} :
    ∀ (n h k : Nat) (s : Blacklist), i ≤ k → k < s.reads →
      Cleaned env delta i s (cleanFrom env target delta timeout startTime n h (env.ticks k) s) := by
  intro n
  induction n with
  | zero => exact fun h k s _ _ => .of_hash_eq le_rfl rfl
  | succ n ih =>
    intro h k s hik hk
    unfold cleanFrom
    by_cases hempty : s.hash (.ofNat dstBlstHashSize h) = []
    · simp only [hempty, if_true]
      exact ih _ _ _ hik hk
    simp only [hempty, if_false]
    have hl := cleanChain_thin (env.ticks k) delta target (s.hash (.ofNat dstBlstHashSize h)) s.memUsed
    generalize cleanChain (env.ticks k) delta target (s.hash (.ofNat dstBlstHashSize h)) s.memUsed = r at hl
    split
    · exact .update hl hik hk le_rfl rfl
    split
    · exact .update hl hik (Nat.lt_succ_of_lt hk) (Nat.le_succ _) rfl
    -- the ticks are read again for the next cell
    refine .trans ?_ (ih (h + 1) s.reads _ (by omega) (Nat.lt_succ_self _))
    exact .update hl hik (Nat.lt_succ_of_lt hk) (Nat.le_succ _) rfl

theorem dstBlacklistCleanExpired_cleaned {env target delta timeout s} :
    Cleaned env delta s.reads s (dstBlacklistCleanExpired env target delta timeout s) := by
  have hread : Cleaned env delta s.reads s s.tick := .of_hash_eq (Nat.le_succ _) rfl
  apply hread.trans
  exact cleanFrom_cleaned _ _ s.reads s.tick le_rfl (Nat.lt_succ_self _)

@[simp] theorem Blacklist.hash_setChain (i h : Fin dstBlstHashSize) (chain : List DstBlstEntry) (s : Blacklist) :
    (s.setChain i chain).hash h = if h = i then chain else s.hash h :=
  update_apply _ _ _ _

theorem setChain_cleaned {s}
    (hl : Thin (fun e => passed (env.ticks s.reads) e.expire = true) (s.hash c) l) :
    Cleaned env 0 s.reads s (s.tick.setChain c l) := by
  apply Cleaned.update (k := s.reads) _ le_rfl (Nat.lt_succ_self _) (Nat.le_succ _) rfl
  simpa only [UInt32.add_zero] using hl

theorem dstIsBlacklistedIp_cleaned {env d s} : Cleaned env 0 s.reads s (dstIsBlacklistedIp env d s).2 := by
  have hfound := lstFind_spec d (env.ticks s.reads) (s.hash (env.no d))
  simp only [dstIsBlacklistedIp]
  generalize lstFind d (env.ticks s.reads) (s.hash (env.no d)) = r at hfound
  cases hfound with
  | none hthin _ | some hthin _ _ => exact setChain_cleaned hthin

/-- What `dst_blacklist_del` does: nothing is found, or the first entry that is found goes. -/
inductive Deletes (env : Env) (d : Dest) (s : Blacklist) : Option DstBlstEntry × Blacklist → Prop
  | none {s' : Blacklist} (hclean : Cleaned env 0 s.reads s s') (hs : ∀ x ∈ s'.hash (env.no d), ¬ x.IsFor d) :
      Deletes env d s (none, s')
  | some {e : DstBlstEntry} {l₁ l₂ : List DstBlstEntry}
      (hthin : Thin (env.Gone 0 s.reads (s.reads + 1)) (s.hash (env.no d)) (l₁ ++ e :: l₂)) (he : e.IsFor d)
      (hl : ∀ x ∈ l₁, ¬ x.IsFor d) : Deletes env d s (some e, s.tick.setChain (env.no d) (l₁ ++ l₂))

theorem dstBlacklistDel_deletes (env : Env) (d : Dest) (s : Blacklist) :
    Deletes env d s (dstBlacklistDel env d s) := by
  have hfound := lstFind_spec d (env.ticks s.reads) (s.hash (env.no d))
  simp only [dstBlacklistDel]
  generalize lstFind d (env.ticks s.reads) (s.hash (env.no d)) = r at hfound
  cases hfound with
  | none hthin hm => exact .none (setChain_cleaned hthin) (by simpa using hm)
  | some hthin he hl => exact .some (hthin.mono fun _ hx => Env.gone_now hx) he hl

/-- An entry of the chain is renewed, or there is none and one is put at its head. -/
inductive Put (d : Dest) (flags : UInt8) (expire : UInt32) (gone : DstBlstEntry → Prop) (l : List DstBlstEntry) :
    List DstBlstEntry → Prop
  | renew {l₁ l₂ : List DstBlstEntry} {e : DstBlstEntry} (hthin : Thin gone l (l₁ ++ e :: l₂)) (he : e.IsFor d)
      (hl : ∀ x ∈ l₁, ¬ x.IsFor d) :
      Put d flags expire gone l (l₁ ++ e.renew flags expire :: l₂)
  | insert {m : List DstBlstEntry} (hthin : Thin gone l m) (hm : ∀ x ∈ m, ¬ x.IsFor d) :
      Put d flags expire gone l (d.entry flags expire :: m)

/-- What `dst_blacklist_add_ip` does: its result says if the entry is in the chain. -/
structure Adds (env : Env) (errFlags : UInt8) (d : Dest) (timeout : UInt32) (s : Blacklist)
    (r : Int × Blacklist) : Prop where
  reads : s.reads < r.2.reads
  other : ∀ h, h ≠ env.no d → Thin (env.Gone 0 s.reads r.2.reads) (s.hash h) (r.2.hash h)
  own : if r.1 = 0 then
      Put d (entryFlags errFlags d.ip) (env.ticks s.reads + timeout) (env.Gone 0 s.reads r.2.reads)
        (s.hash (env.no d)) (r.2.hash (env.no d))
    else Thin (env.Gone 0 s.reads r.2.reads) (s.hash (env.no d)) (r.2.hash (env.no d))

theorem makeRoom_cleaned (env : Env) (size : Nat) (s) : Cleaned env 0 s.reads s (makeRoom env size s).2 := by
  unfold makeRoom
  split
  · exact dstBlacklistCleanExpired_cleaned
  · exact .of_hash_eq le_rfl rfl

theorem dstBlacklistAddIp_adds (env : Env) (errFlags : UInt8) (d : Dest) (timeout : UInt32) (alloc : Bool)
    (s : Blacklist) : Adds env errFlags d timeout s (dstBlacklistAddIp env errFlags d timeout alloc s) := by
  have hfound := lstFind_spec d (env.ticks s.reads) (s.hash (env.no d))
  simp only [dstBlacklistAddIp]
  generalize lstFind d (env.ticks s.reads) (s.hash (env.no d)) = r at hfound
  cases hfound with
  | some hthin he hl =>
    refine ⟨Nat.lt_succ_self _, fun h hne => ?_, ?_⟩
    · simp only [Blacklist.hash_setChain, if_neg hne]
      exact .refl _ _
    · simp only [Blacklist.hash_setChain, if_true]
      exact .renew (hthin.mono fun _ he => Env.gone_now he) he hl
  | @none m hthin hm =>
    -- the search, then the cleaning that makes room
    have hsearch := setChain_cleaned hthin
    generalize hs1 : s.tick.setChain (env.no d) m = s1 at hsearch
    have hreads : s1.reads = s.reads + 1 := by subst hs1; rfl
    have hown : s1.hash (env.no d) = m := by subst hs1; simp
    simp only [addEntry]
    generalize he : d.entry _ _ = e
    have hroom := makeRoom_cleaned env e.size s1
    generalize makeRoom env e.size s1 = r at hroom
    have hclean := hsearch.trans (hroom.from_le hsearch.reads)
    have hlt : s.reads < r.2.reads := by have := hroom.reads; omega
    split
    · split
      · refine ⟨hlt, fun h hne => ?_, ?_⟩
        · simpa only [Blacklist.lstAdd, update_of_ne hne] using hclean.thin h
        · have hnone : ∀ x ∈ r.2.hash (env.no d), ¬ x.IsFor d := by
            intro x hx
            have hthin := (hroom.thin (env.no d)).sublist
            rw [hown] at hthin
            exact hm x (hthin.subset hx)
          subst he
          simpa only [Blacklist.lstAdd, update_self, if_true] using .insert (hclean.thin _) hnone
      · exact ⟨hlt, fun h _ => hclean.thin h, hclean.thin _⟩
    · exact ⟨hlt, fun h _ => hclean.thin h, hclean.thin _⟩

end SipRouter.Blst
