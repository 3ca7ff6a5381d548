import SipRouter.Lib.Cyclic

/-!
# The RTP ports (`rtpproxy/main.c`, `rtpproxy/rtpp_util.c`, `rtpproxy/rtpp_command.c`)

The even ports of the configured range are kept in a table in random order. A listener takes an even
port and the one above it; they are tried in the order of the table, from the one behind that which
was taken last, around to the one in front of it.

What `socket` and `bind` say for a port is a parameter, and may be another at each call.
-/

namespace SipRouter.Rtpp

open Lib

/-- The first and the last port, from those of the command line. -/
def portRange (portMin portMax : Int) : Option (Nat × Nat) :=
  let portMin := if portMin % 2 ≠ 0 then portMin + 1 else portMin
  -- there is to be a port above the last one
  let portMax := if portMax % 2 ≠ 0 then portMax - 1 else portMax - 2
  if portMin ≤ 0 ∨ portMin > 65535 ∨ portMax ≤ 0 ∨ portMax > 65535 ∨ portMin > portMax then none
  else some (portMin.toNat, portMax.toNat)

/-- `port_table` and `port_table_idx`. -/
structure PortTable where
  table : Array UInt16
  idx : Nat

/-- `init_port_table`. The numbers from `random` are given. -/
def initPortTable (portMin portMax : Nat) (random : Nat → Nat) : PortTable :=
  let len := (portMax - portMin) / 2 + 1
  let linear := Array.ofFn fun i : Fin len => UInt16.ofNat (portMin + 2 * i)
  { table := (List.range len).foldl (fun t i => t.swapIfInBounds i (random i % len)) linear
    idx := len - 1 }

/-- What becomes of a port: 0, -2 (`EADDRINUSE` or `EACCES`) and -1. -/
inductive BindRet where
  | bound
  | inUse
  | failed
  deriving DecidableEq

/-- `create_twinlistener`. -/
def createTwinlistener (bind : Nat → BindRet) (port : UInt16) : BindRet :=
  match bind port.toNat with
  | .bound => bind (port.toNat + 1)
  | ret => ret

/-- The loop of `create_listener` over entries of the table. -/
def tryEntries (bind : Nat → BindRet) (table : Array UInt16) : List Nat → Option Nat
  | [] => none
  | idx :: idxs =>
    match createTwinlistener bind (table.getD idx 0) with
    | .bound => some idx
    | .inUse => tryEntries bind table idxs
    | .failed => none

/-- The entries it goes over. -/
def PortTable.entries (t : PortTable) : List Nat :=
  (List.range' 1 (t.table.size - 1)).map fun i => (t.idx + i) % t.table.size

/-- `create_listener`: the port. -/
def createListener (bind : Nat → BindRet) (t : PortTable) : Option UInt16 × PortTable :=
  match tryEntries bind t.table t.entries with
  | some idx => (some (t.table.getD idx 0), { t with idx := idx })
  | none => (none, t)

/-- The port and the one above it are bindable. -/
def Free (bind : Nat → BindRet) (port : UInt16) : Prop :=
  bind port.toNat = .bound ∧ bind (port.toNat + 1) = .bound

section Listener

variable {bind : Nat → BindRet} {t : PortTable}

theorem createTwinlistener_bound {port} : createTwinlistener bind port = .bound ↔ Free bind port := by
  rw [createTwinlistener, Free]
  split
  case h_1 h => simp [h]
  case h_2 h => exact iff_of_false h fun hfree => h hfree.1

theorem createTwinlistener_ne_failed (hbind : ∀ p, bind p ≠ .failed) (port) :
    createTwinlistener bind port ≠ .failed := by
  rw [createTwinlistener]
  split
  · exact hbind _
  · exact hbind _

theorem tryEntries_some {table idxs idx} (h : tryEntries bind table idxs = some idx) :
    idx ∈ idxs ∧ Free bind (table.getD idx 0) := by
  induction idxs with
  | nil => cases h
  | cons i idxs ih =>
    rw [tryEntries] at h
    split at h
    case h_1 hbound =>
      obtain rfl := Option.some.inj h
      exact ⟨List.mem_cons_self, createTwinlistener_bound.1 hbound⟩
    case h_2 => exact ⟨List.mem_cons_of_mem _ (ih h).1, (ih h).2⟩
    case h_3 => cases h

/-- Without other errors the loop only ends when none is free. -/
theorem tryEntries_none (hbind : ∀ p, bind p ≠ .failed) {table idxs} (h : tryEntries bind table idxs = none) :
    ∀ idx ∈ idxs, ¬ Free bind (table.getD idx 0) := by
  induction idxs with
  | nil => exact nofun
  | cons i idxs ih =>
    rw [tryEntries] at h
    split at h
    case h_1 => cases h
    case h_2 huse =>
      refine List.forall_mem_cons.2 ⟨fun hfree => ?_, ih h⟩
      rw [createTwinlistener_bound.2 hfree] at huse
      cases huse
    case h_3 hfail => exact absurd hfail (createTwinlistener_ne_failed hbind _)

/-- They are all but the one that was taken last. -/
theorem mem_entries (hidx : t.idx < t.table.size) {i} : i ∈ t.entries ↔ i < t.table.size ∧ i ≠ t.idx := by
  have hself : (t.idx + t.table.size) % t.table.size = t.idx := by
    rw [Nat.add_mod_right, Nat.mod_eq_of_lt hidx]
  simp only [PortTable.entries, List.mem_map, List.mem_range'_1]
  constructor
  · rintro ⟨k, ⟨hpos, hlt⟩, rfl⟩
    refine ⟨Nat.mod_lt _ (by omega), fun heq => ?_⟩
    have := turn_inj hpos (by omega) (by omega) (le_refl t.table.size) (heq.trans hself.symm)
    omega
  · rintro ⟨hlt, hne⟩
    have hpos := ahead_pos t.table.size t.idx i
    have hle := ahead_le (by omega : 0 < t.table.size) t.idx i
    have hend := add_ahead t.idx hlt
    refine ⟨ahead t.table.size t.idx i, ⟨hpos, ?_⟩, hend⟩
    have : ahead t.table.size t.idx i ≠ t.table.size := by
      intro heq
      rw [heq, hself] at hend
      exact hne hend.symm
    omega

end Listener

/-! ## The table -/

/-- The table holds the even ports that have, as the port above them, a place in the configured range,
each once. -/
structure PortTable.Complete (portMin portMax : Int) (t : PortTable) : Prop where
  idx : t.idx < t.table.size
  nodup : t.table.toList.Nodup
  mem : ∀ p, p ∈ t.table ↔ p.toNat % 2 = 0 ∧ portMin ≤ p.toNat ∧ p.toNat + 1 ≤ portMax

section Table

variable {portMin portMax : Int} {lo hi : Nat} {t : PortTable}

theorem portRange_spec (h : portRange portMin portMax = some (lo, hi)) :
    lo % 2 = 0 ∧ hi % 2 = 0 ∧ lo ≤ hi ∧ hi ≤ 65535 ∧
      ∀ p : Nat, p % 2 = 0 → ((portMin ≤ p ↔ lo ≤ p) ∧ (p + 1 ≤ portMax ↔ p ≤ hi)) := by
  simp only [portRange] at h
  split_ifs at h
  all_goals
    obtain ⟨rfl, rfl⟩ := Prod.mk.inj (Option.some.inj h)
    exact ⟨by omega, by omega, by omega, by omega, fun p hp => ⟨by omega, by omega⟩⟩

theorem shuffle_perm (random : Nat → Nat) (is : List Nat) (table : Array UInt16) :
    (is.foldl (fun t i => t.swapIfInBounds i (random i)) table).Perm table := by
  induction is generalizing table with
  | nil => exact .refl _
  | cons i is ih =>
    have hswap : (table.swapIfInBounds i (random i)).Perm table := by
      rw [Array.swapIfInBounds_def]
      split_ifs
      · exact Array.swap_perm ..
      · rfl
      · rfl
    exact (ih _).trans hswap

theorem complete_init (h : portRange portMin portMax = some (lo, hi)) (random : Nat → Nat) :
    (initPortTable lo hi random).Complete portMin portMax := by
  obtain ⟨hlo, hhi, hle, hmax, hrange⟩ := portRange_spec h
  have hperm := shuffle_perm (fun i => random i % ((hi - lo) / 2 + 1)) (List.range ((hi - lo) / 2 + 1))
    (Array.ofFn fun i : Fin ((hi - lo) / 2 + 1) => UInt16.ofNat (lo + 2 * i))
  have hport : ∀ i : Fin ((hi - lo) / 2 + 1), (UInt16.ofNat (lo + 2 * i)).toNat = lo + 2 * i := by
    intro i
    rw [UInt16.toNat_ofNat', Nat.mod_eq_of_lt]
    omega
  constructor
  · have hsize : (initPortTable lo hi random).table.size = (hi - lo) / 2 + 1 :=
      hperm.size_eq.trans Array.size_ofFn
    rw [hsize]
    exact Nat.lt_succ_self _
  · refine (Array.perm_iff_toList_perm.1 hperm).nodup_iff.2 ?_
    rw [Array.toList_ofFn, List.nodup_ofFn]
    intro i j heq
    have := congrArg UInt16.toNat heq
    rw [hport, hport] at this
    exact Fin.ext (by omega)
  · intro p
    refine hperm.mem_iff.trans (Array.mem_ofFn.trans ⟨?_, ?_⟩)
    · rintro ⟨i, rfl⟩
      have heven : (lo + 2 * i) % 2 = 0 := by omega
      obtain ⟨h1, h2⟩ := hrange _ heven
      rw [hport]
      exact ⟨heven, h1.2 (by omega), h2.2 (by omega)⟩
    · rintro ⟨heven, h1, h2⟩
      have := (hrange _ heven).1.1 h1
      have := (hrange _ heven).2.1 h2
      refine ⟨⟨(p.toNat - lo) / 2, by omega⟩, UInt16.toNat_inj.1 ?_⟩
      rw [hport]
      show lo + 2 * ((p.toNat - lo) / 2) = p.toNat
      omega

theorem PortTable.getD_eq {i} (hi : i < t.table.size) : t.table.getD i 0 = t.table[i] := by
  rw [Array.getD_eq_getD_getElem?, Array.getElem?_eq_getElem hi, Option.getD_some]

theorem PortTable.Complete.getD_ne (ht : t.Complete portMin portMax) {i} (hi : i < t.table.size)
    (hne : i ≠ t.idx) : t.table.getD i 0 ≠ t.table.getD t.idx 0 := by
  rw [getD_eq hi, getD_eq ht.idx]
  intro heq
  exact hne ((ht.nodup.getElem_inj_iff).1 heq)

theorem PortTable.Complete.step (ht : t.Complete portMin portMax) (bind) :
    (createListener bind t).2.Complete portMin portMax := by
  rw [createListener]
  split
  case h_1 idx h => exact { ht with idx := ((mem_entries ht.idx).1 (tryEntries_some h).1).1 }
  case h_2 => exact ht

/-- The table after calls of `create_listener`, each with what `bind` said at the time. -/
def portTableAfter (t : PortTable) (history : List (Nat → BindRet)) : PortTable :=
  history.foldl (fun t bind => (createListener bind t).2) t

theorem PortTable.Complete.run (ht : t.Complete portMin portMax) (history) :
    (portTableAfter t history).Complete portMin portMax := by
  induction history generalizing t with
  | nil => exact ht
  | cons bind history ih => exact ih (ht.step bind)

end Table

/-- After any calls the table holds the ports of the range. While `bind` has no other errors, a
listener is created whenever there are ports for it, exactly when these are not only those taken last. -/
theorem listener_found_iff {portMin portMax lo hi} (h : portRange portMin portMax = some (lo, hi))
    (random history) :
    let t := portTableAfter (initPortTable lo hi random) history
    t.Complete portMin portMax ∧ ∀ bind : Nat → BindRet, (∀ p, bind p ≠ .failed) →
      (((∃ p ∈ t.table, Free bind p) → ∃ p ∈ t.table, Free bind p ∧ (createListener bind t).1 = some p) ↔
        ((∃ p ∈ t.table, Free bind p) → ∃ p ∈ t.table, Free bind p ∧ p ≠ t.table.getD t.idx 0)) := by
  intro t
  have ht := (complete_init h random).run history
  refine ⟨ht, fun bind hbind => imp_congr_right fun _ => ?_⟩
  constructor
  · rintro ⟨p, hp, hfree, hret⟩
    refine ⟨p, hp, hfree, ?_⟩
    rw [createListener] at hret
    split at hret
    case h_1 idx hidx =>
      obtain rfl := Option.some.inj hret
      obtain ⟨hlt, hne⟩ := (mem_entries ht.idx).1 (tryEntries_some hidx).1
      exact ht.getD_ne hlt hne
    case h_2 => cases hret
  · rintro ⟨p, hp, hfree, hne⟩
    obtain ⟨i, hi, hget⟩ := Array.mem_iff_getElem.1 hp
    have hgetD : t.table.getD i 0 = p := (PortTable.getD_eq hi).trans hget
    have hmem : i ∈ t.entries := (mem_entries ht.idx).2 ⟨hi, fun heq => hne (by rw [← hgetD, heq])⟩
    rw [createListener]
    split
    case h_1 idx hidx =>
      obtain ⟨hidx, hfree⟩ := tryEntries_some hidx
      have hlt := ((mem_entries ht.idx).1 hidx).1
      refine ⟨_, ?_, hfree, rfl⟩
      rw [PortTable.getD_eq hlt]
      exact Array.getElem_mem hlt
    case h_2 hnone => exact absurd (hgetD ▸ hfree) (tryEntries_none hbind hnone i hmem)

theorem listener_found_iff_second :
    let t := portTableAfter (initPortTable 10 12 id) []
    ∃ p ∈ t.table, (createListener (fun _ => .bound) t).1 = some p := by
  obtain ⟨ht, hiff⟩ := listener_found_iff (show portRange 9 13 = some (10, 12) from rfl) id []
  have hmem := (ht.mem 10).2 (by decide)
  have hother := (hiff (fun _ => .bound) fun _ => nofun).2 fun _ => ⟨10, hmem, ⟨rfl, rfl⟩, by decide⟩
  obtain ⟨p, hp, -, hret⟩ := hother ⟨10, hmem, rfl, rfl⟩
  exact ⟨p, hp, hret⟩

/-- The only ports of a range are never tried. -/
theorem single_port_refused :
    portRange 10 11 = some (10, 10) ∧ (initPortTable 10 10 id).table = #[10] ∧
      (createListener (fun _ => .bound) (initPortTable 10 10 id)).1 = none := by
  decide

end SipRouter.Rtpp
