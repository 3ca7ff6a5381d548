import Mathlib
import SipRouter.Lib.Slots
import SipRouter.Rtpp.Tables

/-!
# The session tables agree

`Good cf T R` says that the tables and the sessions agree in the entries `R`, and that the
chains and the counter are those of the sessions. Between passes `R` are the entries in
use; while `process_rtp` is at an entry they are the ones it has moved and the ones it has
not come to (`region`). Each operation keeps `Good` and none of its assertions fails, so
that every run keeps it; but that the entries fit into the memory allocated for them has
to be assumed at each command that adds sockets.
-/

namespace SipRouter.Rtpp

open Function Lib.Doubly Lib.Slots List
open Option hiding any_eq_true

/-- To which pointer the entry of a socket leads. -/
def owner (q : Nat × Sock) : Nat × Kind := (q.1, q.2.1)

/-- The entries, with the sockets of the sessions in memory. -/
def Tables.slots (T : Tables) : Table Nat (Nat × Kind) (Nat × Sock) where
  handle := T.pfds
  label := T.sessions
  has := fun q => (T.heap q.1).bind fun S => S.fds q.2
  place := fun q => (T.heap q.1).bind fun S => S.sidx q.2

/-- Only characters that are not negative. -/
def Ascii (s : Str) : Prop := ∀ c ∈ s, c < 128

structure Tables.Good (cf : Cfg) (T : Tables) (R : Nat → Prop) : Prop where
  kept : Kept owner T.slots R
  ascii : ∀ sp S, T.heap sp = some S → Ascii S.callId
  pairs : ∀ sp S i, T.heap sp = some S → (S.fds (.rtp, i) = none ↔ S.fds (.rtcp, i) = none)
  chains : ∃ f, T.hashTable.Holds f ∧ ∀ h sp, sp ∈ f h ↔ ∃ S, T.heap sp = some S ∧ hashString cf T S.callId = h
  active : ∃ l : List Nat, l.Nodup ∧ (∀ sp, sp ∈ l ↔ (T.heap sp).isSome) ∧ T.sessionsActive = l.length

section Hash

variable {cf : Cfg} {T T' : Tables} {s : Str}

/-- The memory in front of the table is not read. -/
theorem hashString_eq (hs : Ascii s) (T T' : Tables) : hashString cf T s = hashString cf T' s := by
  unfold hashString
  generalize cf.randTable 0 = res
  induction s generalizing res with
  | nil => rfl
  | cons c s ih =>
    have hc : c < 128 := hs c (mem_cons_self ..)
    simp only [foldl_cons, if_pos hc]
    exact ih (fun c hc => hs c (mem_cons_of_mem _ hc)) _

/-- The chains are those of the sessions if the sessions have the same call ids. -/
theorem chains_congr
    (h : ∃ f, T.hashTable.Holds f ∧ ∀ h sp, sp ∈ f h ↔ ∃ S,
      T.heap sp = some S ∧ hashString cf T S.callId = h)
    (hascii : ∀ sp S, T.heap sp = some S → Ascii S.callId) (htable : T'.hashTable = T.hashTable)
    (hids : ∀ sp, (T'.heap sp).map Session.callId = (T.heap sp).map Session.callId) :
    ∃ f, T'.hashTable.Holds f ∧ ∀ h sp, sp ∈ f h ↔ ∃ S, T'.heap sp = some S ∧ hashString cf T' S.callId = h := by
  obtain ⟨f, hf, hmem⟩ := h
  refine ⟨f, htable ▸ hf, fun h sp => (hmem h sp).trans ?_⟩
  have hsp := hids sp
  cases hS : T.heap sp with
  | none =>
    rw [hS, map_none, map_eq_none_iff] at hsp
    simp [hsp]
  | some S =>
    rw [hS, map_some, map_eq_some_iff] at hsp
    obtain ⟨S', hS', hid⟩ := hsp
    simp only [hS', some.injEq, exists_eq_left', hid, hashString_eq (hascii sp S hS) T T']

end Hash

section Session

variable {cf : Cfg} {T : Tables} {R : Nat → Prop} {sp : Nat} {S S' : Session}

theorem Tables.heap_setSession (T : Tables) (sp : Nat) (S : Session) (q : Nat) :
    (T.setSession sp S).heap q = if q = sp then some S else T.heap q := by
  simp only [Tables.setSession, update_apply]

/-- Where the sessions have the same call ids, only the entries matter. -/
theorem Tables.Good.of_kept {T' : Tables} {R'} (h : T.Good cf R) (hkept : Kept owner T'.slots R')
    (htable : T'.hashTable = T.hashTable) (hactive : T'.sessionsActive = T.sessionsActive)
    (hids : ∀ q, (T'.heap q).map Session.callId = (T.heap q).map Session.callId)
    (hpairs : ∀ sp S i, T'.heap sp = some S → (S.fds (.rtp, i) = none ↔ S.fds (.rtcp, i) = none)) : T'.Good cf R' := by
  refine ⟨hkept, fun q S' hq => ?_, hpairs, chains_congr h.chains h.ascii htable hids, ?_⟩
  · have hid := hids q
    rw [hq, map_some, eq_comm, map_eq_some_iff] at hid
    obtain ⟨S, hS, hid⟩ := hid
    exact hid ▸ h.ascii q S hS
  · obtain ⟨l, hnodup, hmem, hlen⟩ := h.active
    refine ⟨l, hnodup, fun q => ?_, hactive.trans hlen⟩
    rw [hmem, ← isSome_map, ← hids q, isSome_map]

theorem Tables.ids_setSession (hS : T.heap sp = some S) (hid : S'.callId = S.callId) (q : Nat) :
    ((T.setSession sp S').heap q).map Session.callId = (T.heap q).map Session.callId := by
  rw [T.heap_setSession]
  split
  · next hq => rw [hq, hS, map_some, map_some, hid]
  · rfl

theorem Tables.Good.pairs_setSession (h : T.Good cf R)
    (hS' : ∀ i, S'.fds (.rtp, i) = none ↔ S'.fds (.rtcp, i) = none) (q : Nat)
    (S1 : Session) (i : Fin 2) (hq : (T.setSession sp S').heap q = some S1) :
    S1.fds (.rtp, i) = none ↔ S1.fds (.rtcp, i) = none := by
  rw [T.heap_setSession] at hq
  split at hq
  · cases hq
    exact hS' i
  · exact h.pairs q S1 i hq

/-- Other fields of a session may be written. -/
theorem Tables.Good.setSession (h : T.Good cf R) (hS : T.heap sp = some S) (hfds : S'.fds = S.fds)
    (hsidx : S'.sidx = S.sidx) (hid : S'.callId = S.callId) : (T.setSession sp S').Good cf R := by
  have hslots : (T.setSession sp S').slots = T.slots := by
    simp only [Tables.slots, T.heap_setSession]
    congr 1 <;> funext q <;> by_cases hq : q.1 = sp <;> simp [hq, hS, hfds, hsidx]
  exact h.of_kept (hslots ▸ h.kept) rfl rfl (T.ids_setSession hS hid)
    (h.pairs_setSession fun i => hfds ▸ h.pairs sp S i hS)

/-- What the pointers of a session say. -/
theorem Tables.Good.split (h : T.Good cf R) (hS : T.heap sp = some S) :
    ∃ f l1 l2, T.hashTable.Holds f ∧ (∀ h sp, sp ∈ f h ↔ ∃ S, T.heap sp = some S ∧ hashString cf T S.callId = h) ∧
      f (hashString cf T S.callId) = l1 ++ sp :: l2 := by
  obtain ⟨f, hf, hmem⟩ := h.chains
  obtain ⟨l1, l2, hl⟩ := append_of_mem ((hmem _ sp).2 ⟨S, hS, rfl⟩)
  exact ⟨f, l1, l2, hf, hmem, hl⟩

variable {f : UInt8 → List Nat}

/-- No chain is longer than there are sessions. -/
theorem Tables.Good.length_le (h : T.Good cf R) (hf : T.hashTable.Holds f)
    (hmem : ∀ h sp, sp ∈ f h ↔ ∃ S, T.heap sp = some S ∧ hashString cf T S.callId = h)
    (hash : UInt8) : (f hash).length ≤ T.sessionsActive := by
  obtain ⟨l, hnodup, hlive, hlen⟩ := h.active
  rw [hlen]
  refine (subperm_of_subset (hf.nodup hash) fun q hq => ?_).length_le
  obtain ⟨S, hS, -⟩ := (hmem hash q).1 hq
  exact (hlive q).2 (by rw [hS]; rfl)

end Session

/-! ## Removing a session -/

section Remove

variable {cf : Cfg} {T : Tables} {R : Nat → Prop} {sp : Nat} {S : Session}

theorem hashTableRemove_spec {l1 l2} (hf : T.hashTable.Holds f) (hl : f (hashString cf T S.callId) = l1 ++ sp :: l2) :
    hashTableRemove cf T sp S = some { T with hashTable := T.hashTable.unlink (hashString cf T S.callId) sp } := by
  have hcond : T.hashTable.prev sp ≠ 0 ∨ T.hashTable.head (hashString cf T S.callId) = sp := by
    rcases eq_nil_or_concat l1 with rfl | ⟨l, a, rfl⟩
    · right
      have hseg := hf.seg (hashString cf T S.callId)
      rw [hl] at hseg
      exact hseg.1
    · left
      rw [hf.back _ _ sp l2 hl, concat_eq_append, getLastD_concat]
      rintro rfl
      exact hf.nonnull _ (by rw [hl]; simp)
  simp only [hashTableRemove, if_pos hcond]

/-- Closing sockets clears their entries, whatever the table says of the sockets closed before. -/
theorem closeSocks_spec (T : Tables) (sp : Nat) (S : Session) (L : List Sock) {V} (hV : Kept owner V R)
    (hhandle : V.handle = T.pfds) (hlabel : V.label = T.sessions) (hnodup : L.Nodup)
    (hsock : ∀ s ∈ L, V.has (sp, s) = S.fds s ∧ V.place (sp, s) = S.sidx s) :
    ∃ pfds sessions, L.foldlM (closeSock sp S) T = some { T with pfds := pfds, sessions := sessions } ∧
      Kept owner ⟨pfds, sessions, fun q => if q.1 = sp ∧ q.2 ∈ L then none else V.has q, V.place⟩ R := by
  induction L generalizing T V with
  | nil =>
    refine ⟨T.pfds, T.sessions, rfl, ?_⟩
    simpa [← hhandle, ← hlabel] using hV
  | cons s L ih =>
    obtain ⟨hs, hnodup⟩ := nodup_cons.1 hnodup
    obtain ⟨hhas, hplace⟩ := hsock s (mem_cons_self ..)
    have hclosed : (fun q : Nat × Sock => if q.1 = sp ∧ q.2 ∈ s :: L then none else V.has q) =
        fun q => if q.1 = sp ∧ q.2 ∈ L then none else update V.has (sp, s) none q := by
      funext q
      by_cases hq : q = (sp, s)
      · subst hq
        simp
      · have hiff : (q.1 = sp ∧ q.2 ∈ s :: L) ↔ q.1 = sp ∧ q.2 ∈ L := by
          simp only [mem_cons, and_congr_right_iff, or_iff_right_iff_imp]
          exact fun hsp heq => absurd (Prod.ext hsp heq) hq
        simp only [hiff, update_of_ne hq]
    have hother : ∀ s' ∈ L, update V.has (sp, s) none (sp, s') = V.has (sp, s') := by
      intro s' hs'
      refine update_of_ne (fun heq => hs ?_) ..
      exact (Prod.mk.inj heq).2 ▸ hs'
    have hrest : ∀ s' ∈ L, update V.has (sp, s) none (sp, s') = S.fds s' ∧ V.place (sp, s') = S.sidx s' :=
      fun s' hs' => ⟨(hother s' hs').trans (hsock s' (mem_cons_of_mem _ hs')).1, (hsock s' (mem_cons_of_mem _ hs')).2⟩
    rw [foldlM_cons, hclosed]
    cases hfd : S.fds s with
    | none =>
      have hself : update V.has (sp, s) none = V.has := by
        rw [← hfd, ← hhas, update_eq_self]
      rw [hself] at hrest ⊢
      rw [show closeSock sp S T s = some T by simp only [closeSock, hfd]]
      exact ih _ hV hhandle hlabel hnodup hrest
    | some fd =>
      obtain ⟨i, hR, hi, hx, hl⟩ := hV.item (sp, s) fd (hhas.trans hfd)
      have hsidx := hplace.symm.trans hi
      have hcond : T.sessions i = some (sp, s.1) ∧ T.pfds i = some fd := ⟨hlabel ▸ hl, hhandle ▸ hx⟩
      have hclose :
          closeSock sp S T s =
          some { T with sessions := update T.sessions i none, pfds := update T.pfds i none } := by
        simp only [closeSock, hfd, hsidx, bind_eq_bind, bind_some, if_pos hcond]
      have hclear := hV.clear (s := (sp, s)) (by rw [hhas, hfd]; exact some_ne_none fd) hi
      rw [hclose]
      exact ih _ hclear (by rw [← hhandle]; rfl) (by rw [← hlabel]; rfl) hnodup hrest

theorem mem_socks {s} : s ∈ socks := by
  obtain ⟨k, i⟩ := s
  obtain rfl | rfl : i = 0 ∨ i = 1 := by omega
  all_goals cases k <;> decide

/-- A session is removed with its entries, and no assertion fails. -/
theorem removeSession_spec (h : T.Good cf R) (hS : T.heap sp = some S) :
    ∃ T', removeSession cf T sp = some T' ∧ T'.Good cf R ∧ T'.heap = update T.heap sp none ∧
      T'.nsessions = T.nsessions := by
  obtain ⟨pfds, sessions, hclose, hkept⟩ :=
    closeSocks_spec T sp S socks h.kept rfl rfl (by decide) fun s _ => by simp [Tables.slots, hS]
  obtain ⟨f, l1, l2, hf, hmem, hl⟩ := h.split hS
  have hascii := h.ascii sp S hS
  rw [hashString_eq hascii T { T with pfds := pfds, sessions := sessions }] at hl
  have hremove := hashTableRemove_spec (T := { T with pfds := pfds, sessions := sessions }) hf hl
  have hheap : ∀ q S', update T.heap sp none q = some S' ↔ q ≠ sp ∧ T.heap q = some S' := by
    intro q S'
    by_cases hq : q = sp
    · simp [hq]
    · simp [hq]
  refine ⟨{ T with
    pfds := pfds
    sessions := sessions
    hashTable := T.hashTable.unlink (hashString cf { T with pfds := pfds, sessions := sessions } S.callId) sp
    heap := update T.heap sp none
    sessionsActive := T.sessionsActive - 1 }, ?_, ⟨?_, ?_, ?_, ?_, ?_⟩, rfl, rfl⟩
  · simp only [removeSession, hS, bind_eq_bind, bind_some, hclose, hremove]
  · refine hkept.congr rfl rfl ?_ ?_
    · funext q
      by_cases hq : q.1 = sp
      · simp [Tables.slots, hq, mem_socks]
      · simp [Tables.slots, hq]
    · intro q hq
      by_cases hsp : q.1 = sp
      · simp [hsp, mem_socks] at hq
      · simp [Tables.slots, hsp]
  · exact fun q S' hq => h.ascii q S' ((hheap q S').1 hq).2
  · exact fun q S' i hq => h.pairs q S' i ((hheap q S').1 hq).2
  · refine ⟨_, hf.unlink hl, fun hash q => ?_⟩
    rw [hf.mem_remove hl, hmem]
    constructor
    · rintro ⟨⟨S', hS', rfl⟩, hq⟩
      exact ⟨S', (hheap q S').2 ⟨hq, hS'⟩, hashString_eq (h.ascii q S' hS') _ _⟩
    · rintro ⟨S', hS', rfl⟩
      obtain ⟨hq, hS'⟩ := (hheap q S').1 hS'
      exact ⟨⟨S', hS', hashString_eq (h.ascii q S' hS') _ _⟩, hq⟩
  · obtain ⟨l, hnodup, hlive, hlen⟩ := h.active
    have hsp : sp ∈ l := (hlive sp).2 (by rw [hS]; rfl)
    refine ⟨l.erase sp, hnodup.erase sp, fun q => ?_, ?_⟩
    · rw [hnodup.mem_erase_iff, hlive]
      by_cases hq : q = sp
      · simp [hq]
      · simp [hq]
    · rw [length_erase_of_mem hsp, ← hlen]

end Remove

/-! ## The pass -/

/-- The entries that count when `process_rtp` is at one and has found some deleted before. -/
def region (nsessions readyfd skipfd i : Nat) : Prop := (1 ≤ i ∧ i < readyfd - skipfd) ∨ (readyfd ≤ i ∧ i < nsessions)

variable {n : Nat} {i : Fin 2}

section Pass

variable {cf : Cfg} {T : Tables} {R : Nat → Prop} {rx : Nat → Rx} {readyfd skipfd sp : Nat} {S : Session}

theorem tick_spec (h : T.Good cf R) (hR : R readyfd) :
    ∃ T', tick cf T readyfd = some T' ∧ T'.Good cf R ∧ T'.nsessions = T.nsessions := by
  have hlive : ∀ q k, T.sessions readyfd = some (q, k) → ∃ S, T.heap q = some S := by
    intro q k hq
    have hpfd : T.pfds readyfd ≠ none := by
      intro hnone
      have hfree : T.sessions readyfd = none := h.kept.free readyfd hR hnone
      simp [hfree] at hq
    obtain ⟨fd, hfd⟩ := ne_none_iff_exists'.1 hpfd
    obtain ⟨⟨q', s⟩, hl, hs, -⟩ := h.kept.owned readyfd fd hR hfd
    obtain ⟨rfl, -⟩ : q = q' ∧ k = s.1 := by
      have hl : some (q, k) = some (q', s.1) := hq.symm.trans hl
      simpa using hl
    obtain ⟨S, hS, -⟩ := bind_eq_some_iff.1 hs
    exact ⟨S, hS⟩
  unfold tick
  split
  · next q hq =>
    obtain ⟨S, hS⟩ := hlive q .rtp hq
    simp only [hS, bind_eq_bind, bind_some]
    split
    · split
      · obtain ⟨T', hrun, hgood, -, hn⟩ := removeSession_spec h hS
        exact ⟨T', hrun, hgood, hn⟩
      · exact ⟨_, rfl, h.setSession hS rfl rfl rfl, rfl⟩
    · exact ⟨T, rfl, h, rfl⟩
  · exact ⟨T, rfl, h, rfl⟩

theorem relay_spec (h : T.Good cf R) (hS : T.heap sp = some S) {ridx r} (hr : r ≠ .nomem true) :
    ∃ T', relay cf T sp S ridx r = some T' ∧ T'.Good cf R ∧ T'.nsessions = T.nsessions := by
  cases r with
  | idle => exact ⟨T, rfl, h, rfl⟩
  | relayed => exact ⟨_, rfl, h.setSession hS rfl rfl rfl, rfl⟩
  | nomem resizing =>
    have hoff : resizing = false := by
      cases resizing
      · rfl
      · exact absurd rfl hr
    obtain ⟨T', hrun, hgood, -, hn⟩ := removeSession_spec h hS
    exact ⟨T', by simpa [relay, hoff] using hrun, hgood, hn⟩

theorem mem_legs {l} : l ∈ ([0, 1] : List (Fin 2)) := by
  obtain rfl | rfl : l = 0 ∨ l = 1 := by omega
  · exact mem_cons_self ..
  · exact mem_cons_of_mem _ (mem_cons_self ..)

/-- The session and the leg of an entry that is not deleted. -/
theorem Tables.Good.entry (h : T.Good cf R) (hR : R readyfd) (hfd : T.pfds readyfd ≠ none) :
    ∃ sp k S ridx, T.sessions readyfd = some (sp, k) ∧ T.heap sp = some S ∧ findLeg S k (T.pfds readyfd) = some ridx ∧
      S.fds (k, ridx) ≠ none ∧ S.sidx (k, ridx) = some readyfd := by
  obtain ⟨fd, hfd⟩ := ne_none_iff_exists'.1 hfd
  obtain ⟨⟨sp, k, l⟩, hl, hs, hp⟩ := h.kept.owned readyfd fd hR hfd
  obtain ⟨S, hS, hSfd⟩ := bind_eq_some_iff.1 hs
  have hleg : ∃ ridx, findLeg S k (T.pfds readyfd) = some ridx := by
    rw [← isSome_iff_exists, findLeg, find?_isSome]
    refine ⟨l, mem_legs, ?_⟩
    rw [hfd]
    exact decide_eq_true hSfd
  obtain ⟨ridx, hridx⟩ := hleg
  have hSridx : S.fds (k, ridx) = some fd := by
    have hfound := find?_some hridx
    rw [hfd] at hfound
    exact of_decide_eq_true hfound
  -- both legs of the session with this descriptor are the one of the entry
  obtain ⟨-, rfl⟩ : k = k ∧ ridx = l := by
    have heq := h.kept.inj (sp, k, ridx) (sp, k, l) fd (by simp [Tables.slots, hS, hSridx]) hs
    simpa using heq
  obtain ⟨S', hS', hidx⟩ := bind_eq_some_iff.1 hp
  obtain rfl : S = S' := some.inj (hS.symm.trans hS')
  exact ⟨sp, k, S, ridx, hl, hS, hridx, by simp [hSridx], hidx⟩

/-- An entry is copied to a place that does not count. -/
theorem Tables.Good.move (h : T.Good cf R) {s i j} (hS : T.heap sp = some S) (hfds : S.fds s ≠ none)
    (hsidx : S.sidx s = some i) (hj : ¬R j) :
    Tables.Good cf { T.setSession sp { S with sidx := update S.sidx s (some j) } with
      pfds := update T.pfds j (T.pfds i)
      sessions := update T.sessions j (T.sessions i) } fun k => (R k ∧ k ≠ i) ∨ k = j := by
  have hheap := T.heap_setSession sp { S with sidx := update S.sidx s (some j) }
  have hhas : T.slots.has (sp, s) ≠ none := by simpa [Tables.slots, hS] using hfds
  have hplace : T.slots.place (sp, s) = some i := by simp [Tables.slots, hS, hsidx]
  refine h.of_kept ((h.kept.move hhas hplace hj).congr rfl rfl ?_ fun q _ => ?_) rfl rfl (T.ids_setSession hS rfl)
    (h.pairs_setSession fun i => h.pairs sp S i hS)
  · funext q
    by_cases hq : q.1 = sp <;> simp [Tables.slots, Table.move, hheap, hq, hS]
  · obtain ⟨q, s'⟩ := q
    by_cases hq : q = sp
    · subst hq
      by_cases hs : s' = s
      · simp [Tables.slots, Table.move, hheap, hs]
      · simp [Tables.slots, Table.move, hheap, hS, hs]
    · simp [Tables.slots, Table.move, hheap, hq]

theorem visit_spec {alarm} (h : T.Good cf (region n readyfd skipfd)) (hskip : skipfd < readyfd) (hr : readyfd < n)
    (hn : T.nsessions = n) (hrx : rx readyfd ≠ .nomem true) :
    ∃ T' skipfd', visit cf alarm rx (T, skipfd) readyfd = some (T', skipfd') ∧
      T'.Good cf (region n (readyfd + 1) skipfd') ∧ skipfd' < readyfd + 1 ∧ T'.nsessions = n := by
  have hR : region n readyfd skipfd readyfd := .inr ⟨Nat.le_refl _, hr⟩
  obtain ⟨T1, htick, h1, hn1⟩ : ∃ T1, (if alarm then tick cf T readyfd else some T) = some T1 ∧
      T1.Good cf (region n readyfd skipfd) ∧ T1.nsessions = n := by
    split
    · obtain ⟨T1, htick, h1, hn1⟩ := tick_spec h hR
      exact ⟨T1, htick, h1, hn1.trans hn⟩
    · exact ⟨T, rfl, h, hn⟩
  simp only [visit, htick, bind_eq_bind, bind_some]
  by_cases hfd : T1.pfds readyfd = none
  · -- a deleted entry is left out
    refine ⟨T1, skipfd + 1, if_pos hfd, ?_, by omega, hn1⟩
    refine h1.of_kept ((h1.kept.skip hfd).mono fun i => ?_) rfl rfl (fun _ => rfl) h1.pairs
    simp only [region]
    omega
  · obtain ⟨sp, k, S, ridx, hl, hS, hleg, hfds, hsidx⟩ := h1.entry hR hfd
    have hpackets : ∀ (T2 : Tables) (S2 : Session),
        T2.Good cf (region n (readyfd + 1) skipfd) → T2.heap sp = some S2 → T2.nsessions = n →
        ∃ T' : Tables,
          ((if S2.complete then relay cf T2 sp S2 ridx (rx readyfd) else some T2).bind fun T => some (T, skipfd)) =
            some (T', skipfd) ∧ T'.Good cf (region n (readyfd + 1) skipfd) ∧ T'.nsessions = n := by
      intro T2 S2 h2 hS2 hn2
      split
      · obtain ⟨T', hrun, hgood, hn'⟩ := relay_spec h2 hS2 hrx
        exact ⟨T', by rw [hrun]; rfl, hgood, hn'.trans hn2⟩
      · exact ⟨T2, rfl, h2, hn2⟩
    rw [if_neg hfd]
    simp only [hl, hS, hleg, bind_some]
    by_cases hpos : 0 < skipfd
    · have hmove := h1.move hS hfds hsidx (j := readyfd - skipfd) (by simp only [region]; omega)
      rw [hl] at hmove
      obtain ⟨T', hrun, hgood, hn'⟩ := hpackets _ _
        (hmove.of_kept (hmove.kept.mono fun i => by simp only [region]; omega) rfl rfl (fun _ => rfl) hmove.pairs)
        (update_self ..) hn1
      exact ⟨T', skipfd, by simpa only [if_pos hpos] using hrun, hgood, by omega, hn'⟩
    · obtain ⟨T', hrun, hgood, hn'⟩ := hpackets T1 S
        (h1.of_kept (h1.kept.mono fun i => by simp only [region]; omega) rfl rfl (fun _ => rfl) h1.pairs) hS hn1
      exact ⟨T', skipfd, by simpa only [if_neg hpos] using hrun, hgood, by omega, hn'⟩

theorem visits_spec (alarm : Bool) {m} (h : T.Good cf (region n readyfd skipfd))
    (hskip : skipfd < readyfd) (hr : readyfd + m = n)
    (hn : T.nsessions = n) (hrx : ∀ i, rx i ≠ .nomem true) :
    ∃ T' skipfd', (List.range' readyfd m).foldlM (visit cf alarm rx) (T, skipfd) = some (T', skipfd') ∧
      T'.Good cf (region n n skipfd') ∧ skipfd' < n ∧ T'.nsessions = n := by
  induction m generalizing T readyfd skipfd with
  | zero =>
    obtain rfl : readyfd = n := hr
    exact ⟨T, skipfd, rfl, h, hskip, hn⟩
  | succ m ih =>
    obtain ⟨T1, skipfd1, hvisit, h1, hskip1, hn1⟩ := visit_spec h hskip (by omega) hn (hrx readyfd)
    rw [range'_succ, foldlM_cons, hvisit]
    exact ih h1 hskip1 (by omega) hn1

/-- A pass leaves the entries that are not deleted. -/
theorem processRtp_spec (alarm : Bool) (h : T.Good cf fun i => 1 ≤ i ∧ i < T.nsessions)
    (hpos : 1 ≤ T.nsessions) (hrx : ∀ i, rx i ≠ .nomem true) :
    ∃ T', processRtp cf alarm rx T = some T' ∧ T'.Good cf (fun i => 1 ≤ i ∧ i < T'.nsessions) ∧
      1 ≤ T'.nsessions ∧ T'.nsessions ≤ T.nsessions := by
  have hstart : T.Good cf (region T.nsessions 1 0) :=
    h.of_kept (h.kept.mono fun i => by simp only [region]; omega) rfl rfl (fun _ => rfl) h.pairs
  obtain ⟨T', skipfd, hrun, h', hskip, hn⟩ := visits_spec alarm hstart Nat.one_pos
    (Nat.add_sub_cancel' hpos) rfl hrx
  refine ⟨{ T' with nsessions := T'.nsessions - skipfd }, ?_, ?_, ?_, ?_⟩
  · simp only [processRtp, hrun, bind_eq_bind, bind_some]
  · refine h'.of_kept (h'.kept.mono fun i => ?_) rfl rfl (fun _ => rfl) h'.pairs
    simp only [region, hn]
    omega
  · show 1 ≤ T'.nsessions - skipfd
    omega
  · show T'.nsessions - skipfd ≤ T.nsessions
    omega

end Pass

/-! ## Commands -/

section Add

variable {cf : Cfg} {T : Tables} {sp fd : Nat} {S : Session} {s : Sock}

theorem appendSession_some (hS : T.heap sp = some S) (hfd : S.fds s = some fd) :
    appendSession T sp s =
      { T.setSession sp { S with sidx := update S.sidx s (some T.nsessions) } with
        sessions := update T.sessions T.nsessions (some (sp, s.1))
        pfds := update T.pfds T.nsessions (some fd)
        nsessions := T.nsessions + 1 } := by
  simp only [appendSession, hS, hfd]

/-- The tables with a pair of sockets more, in the next two entries. -/
def Tables.withPair (T : Tables) (sp : Nat) (S : Session) (fds : Nat × Nat) : Tables :=
  { T.setSession sp S with
    pfds := update (update T.pfds T.nsessions (some fds.1)) (T.nsessions + 1) (some fds.2)
    sessions := update (update T.sessions T.nsessions (some (sp, .rtp))) (T.nsessions + 1) (some (sp, .rtcp))
    nsessions := T.nsessions + 2 }

/-- A session has a new pair of sockets for a leg, and knows their entries. -/
structure Paired (T : Tables) (sp : Nat) (i : Fin 2) (fds : Nat × Nat) (S : Session) : Prop where
  closed : ∀ k, T.slots.has (sp, k, i) = none
  fds_eq : S.fds = update (update (fun s => T.slots.has (sp, s)) (.rtp, i) (some fds.1)) (.rtcp, i) (some fds.2)
  rtp : S.sidx (.rtp, i) = some T.nsessions
  rtcp : S.sidx (.rtcp, i) = some (T.nsessions + 1)
  others : ∀ s, T.slots.has (sp, s) ≠ none → S.sidx s = T.slots.place (sp, s)

/-- Descriptors that are not open. -/
structure Fresh (T : Tables) (fds : Nat × Nat) : Prop where
  ne : fds.1 ≠ fds.2
  fst : ∀ sp S s, T.heap sp = some S → S.fds s ≠ some fds.1
  snd : ∀ sp S s, T.heap sp = some S → S.fds s ≠ some fds.2

variable {fds : Nat × Nat}

/-- The entries of a new pair agree with the session. -/
theorem Kept.withPair (h : Kept owner T.slots fun j => 1 ≤ j ∧ j < T.nsessions)
    (hpos : 1 ≤ T.nsessions) (hpair : Paired T sp i fds S) (hfresh : Fresh T fds) :
    Kept owner (T.withPair sp S fds).slots fun j => 1 ≤ j ∧ j < T.nsessions + 2 := by
  have hopen : ∀ q fd, T.slots.has q = some fd → ∃ S, T.heap q.1 = some S ∧ S.fds q.2 = some fd :=
    fun q fd hq => bind_eq_some_iff.1 hq
  have hx1 : ∀ q, T.slots.has q ≠ some fds.1 := by
    intro q hq
    obtain ⟨S, hS, hfd⟩ := hopen q _ hq
    exact hfresh.fst _ S q.2 hS hfd
  have hx2 : ∀ q, T.slots.has q ≠ some fds.2 := by
    intro q hq
    obtain ⟨S, hS, hfd⟩ := hopen q _ hq
    exact hfresh.snd _ S q.2 hS hfd
  have hkinds : ((sp, .rtcp, i) : Nat × Sock) ≠ (sp, .rtp, i) := by simp
  have h1 := h.add (i := T.nsessions) (fun hR => absurd hR.2 (Nat.lt_irrefl _)) (hpair.closed .rtp) hx1
  have h2 := h1.add (s := (sp, .rtcp, i)) (x := fds.2) (i := T.nsessions + 1) (by simp) ?_ ?_
  · have hR : ∀ j, (1 ≤ j ∧ j < T.nsessions + 2) ↔
        ((1 ≤ j ∧ j < T.nsessions) ∨ j = T.nsessions) ∨ j = T.nsessions + 1 := by
      omega
    refine Kept.congr (h2.mono hR) rfl rfl ?_ ?_
    · funext ⟨q, s⟩
      by_cases hq : q = sp
      · subst hq
        have hfds : (T.withPair q S fds).slots.has (q, s) = S.fds s := by
          simp [Tables.slots, Tables.withPair, Tables.setSession]
        rw [hfds, hpair.fds_eq]
        simp only [Table.add, update_apply, Prod.mk.injEq, true_and]
      · simp [Tables.slots, Tables.withPair, Tables.setSession, Table.add, update_apply, hq]
    · rintro ⟨q, s⟩ hhas
      by_cases hq : q = sp
      · subst hq
        have hsidx : (T.withPair q S fds).slots.place (q, s) = S.sidx s := by
          simp [Tables.slots, Tables.withPair, Tables.setSession]
        rw [hsidx]
        simp only [Table.add, update_apply, Prod.mk.injEq, true_and] at hhas ⊢
        split
        · next hs => rw [hs, hpair.rtcp]
        · next hs =>
          rw [if_neg hs] at hhas
          split
          · next hs' => rw [hs', hpair.rtp]
          · next hs' => exact hpair.others s (by rwa [if_neg hs'] at hhas)
      · simp [Tables.slots, Tables.withPair, Tables.setSession, Table.add, update_apply, hq]
  · exact (update_of_ne hkinds ..).trans (hpair.closed .rtcp)
  · intro q hq
    by_cases hself : q = (sp, .rtp, i)
    · subst hself
      simp only [Table.add, update_self, some.injEq] at hq
      exact hfresh.ne hq
    · exact hx2 q ((update_of_ne hself ..).symm.trans hq)

theorem Tables.heap_withPair (T : Tables) :
    (T.withPair sp S fds).heap = (T.setSession sp S).heap := rfl

/-- The session with the second pair of sockets and their entries. -/
theorem addListener_eq (hfd : S.fds (.rtcp, i) = none) :
    addListener T sp S i fds = some (T.withPair sp { S.listen i fds with
      sidx := update (update S.sidx (.rtp, i) (some T.nsessions)) (.rtcp, i) (some (T.nsessions + 1)) } fds) := by
  have h1 : (T.setSession sp (S.listen i fds)).heap sp = some (S.listen i fds) := update_self ..
  have hrtp : (S.listen i fds).fds (.rtp, i) = some fds.1 := by simp [Session.listen]
  simp only [addListener, hfd, ne_eq, not_true, if_false, appendSession_some h1 hrtp]
  rw [appendSession_some (S := { S.listen i fds with sidx := update S.sidx (.rtp, i) (some T.nsessions) })
    (update_self ..) (show _ = some fds.2 by simp [Session.listen])]
  simp only [Tables.withPair, Tables.setSession, update_idem]

theorem addListener_spec (h : T.Good cf fun j => 1 ≤ j ∧ j < T.nsessions) (hpos : 1 ≤ T.nsessions)
    (hS : T.heap sp = some S) (hfd : S.fds (.rtp, i) = none) (hfresh : Fresh T fds) :
    ∃ T' S', addListener T sp S i fds = some T' ∧ T'.Good cf (fun j => 1 ≤ j ∧ j < T'.nsessions) ∧
      T'.nsessions = T.nsessions + 2 ∧ T'.heap sp = some S' := by
  have hrtcp := (h.pairs sp S i hS).1 hfd
  refine ⟨_, _, addListener_eq hrtcp, ?_, rfl, update_self ..⟩
  refine h.of_kept (Kept.withPair (i := i) h.kept hpos ⟨?_, ?_, ?_, ?_, ?_⟩ hfresh) rfl rfl
    (T.ids_setSession hS rfl) ?_
  · rintro (_ | _) <;> simp [Tables.slots, hS, hfd, hrtcp]
  · simp [Tables.slots, hS, Session.listen]
  · simp
  · simp
  · intro s hs
    have hne : ∀ k, s ≠ (k, i) := by
      rintro k rfl
      cases k <;> simp [Tables.slots, hS, hfd, hrtcp] at hs
    simp [Tables.slots, hS, update_of_ne (hne _)]
  · refine h.pairs_setSession fun j => ?_
    by_cases hj : j = i
    · simp [Session.listen, hj]
    · simpa [Session.listen, hj] using h.pairs sp S j hS

/-- The session a command creates, with its entries. -/
theorem createSession_eq {c} :
    ∃ S', createSession cf T c fds sp =
        { T.withPair sp S' fds with
          hashTable := T.hashTable.append T.sessionsActive (hashString cf (T.withPair sp S' fds) c.callId) sp
          sessionsActive := T.sessionsActive + 1 } ∧
      S'.fds = (c.session cf fds).fds ∧ S'.callId = c.callId ∧ S'.sidx (.rtp, 0) = some T.nsessions ∧
      S'.sidx (.rtcp, 0) = some (T.nsessions + 1) := by
  have hrtp : (c.session cf fds).fds (.rtp, 0) = some fds.1 := by simp [Command.session]
  have hrtp1 : (c.session cf fds).fds (.rtp, 1) = none := by simp [Command.session]
  have hrtcp : (c.session cf fds).fds (.rtcp, 0) = some fds.2 := by simp [Command.session]
  have hrtcp1 : (c.session cf fds).fds (.rtcp, 1) = none := by simp [Command.session]
  refine ⟨{ c.session cf fds with
    sidx := update (update (update (update (c.session cf fds).sidx (.rtp, 0)
      (some T.nsessions)) (.rtp,
        1) none) (.rtcp, 0) (some (T.nsessions + 1))) (.rtcp, 1) none }, ?_, rfl, rfl, by simp, by simp⟩
  simp only [createSession, foldl_cons, foldl_nil, appendSession, Tables.setSession, update_self,
    hrtp, hrtp1, hrtcp, hrtcp1, hashTableAppend, Tables.withPair, update_idem]
  rfl

theorem createSession_spec {c} (h : T.Good cf fun j => 1 ≤ j ∧ j < T.nsessions)
    (hpos : 1 ≤ T.nsessions) (hsp : sp ≠ 0) (hfree : T.heap sp = none) (hid : Ascii c.callId) (hfresh : Fresh T fds) :
    (createSession cf T c fds sp).Good cf (fun j => 1 ≤ j ∧ j < (createSession cf T c fds sp).nsessions) ∧
      (createSession cf T c fds sp).nsessions = T.nsessions + 2 := by
  obtain ⟨S', heq, hfds, hS'id, hrtp, hrtcp⟩ := createSession_eq
  have hnone : ∀ s, T.slots.has (sp, s) = none := fun s => by simp [Tables.slots, hfree]
  have hheap := T.heap_setSession sp S'
  rw [heq]
  refine ⟨⟨?_, fun q S hq => ?_, ?_, ?_, ?_⟩, rfl⟩
  · refine Kept.withPair (i := 0) h.kept hpos ⟨fun k => hnone _, ?_, hrtp, hrtcp,
      fun s hs => absurd (hnone s) hs⟩ hfresh
    simp only [hfds, hnone, Command.session]
  · simp only [Tables.heap_withPair, hheap] at hq
    split at hq
    · cases hq
      rwa [hS'id]
    · exact h.ascii q S hq
  · refine h.pairs_setSession fun i => ?_
    rw [hfds]
    by_cases hi : i = 0
    all_goals simp [Command.session, hi]
  · obtain ⟨f, hf, hmem⟩ := h.chains
    have hnot : ∀ hash, sp ∉ f hash := by
      intro hash hin
      obtain ⟨S, hS, -⟩ := (hmem hash sp).1 hin
      simp [hfree] at hS
    refine ⟨_, hf.append (h.length_le hf hmem _) hsp hnot, fun hash q => ?_⟩
    simp only [Tables.heap_withPair, hheap]
    by_cases hq : q = sp
    · subst hq
      simp only [if_pos, some.injEq, exists_eq_left', hS'id, hashString_eq hid _ (T.withPair q S' fds)]
      by_cases hhash : hash = hashString cf (T.withPair q S' fds) c.callId
      · simp [hhash]
      · rw [update_of_ne hhash]
        exact iff_of_false (hnot hash) fun heq => hhash heq.symm
    · simp only [if_neg hq]
      have hold : q ∈ update f (hashString cf (T.withPair sp S' fds) c.callId)
          (f (hashString cf (T.withPair sp S' fds) c.callId) ++ [sp]) hash ↔ q ∈ f hash := by
        by_cases hhash : hash = hashString cf (T.withPair sp S' fds) c.callId
        · simp [hhash, hq]
        · rw [update_of_ne hhash]
      rw [hold, hmem]
      refine exists_congr fun S => and_congr_right fun hS => ?_
      rw [hashString_eq (h.ascii q S hS) T]
  · obtain ⟨l, hnodup, hlive, hlen⟩ := h.active
    have hnot : sp ∉ l := fun hin => by simpa [hfree] using (hlive sp).1 hin
    refine ⟨sp :: l, nodup_cons.2 ⟨hnot, hnodup⟩, fun q => ?_, ?_⟩
    · simp only [Tables.heap_withPair, hheap, mem_cons, hlive]
      split
      all_goals next hq => simp [hq]
    · rw [length_cons, ← hlen]

end Add

section Commands

variable {cf : Cfg} {T : Tables} {R : Nat → Prop} {sp : Nat} {S : Session} {c : Command}
  {toTag : Option Str} {o : Option Nat} {fromTag : Str}

theorem findFrom_live {callId p} (h : findFrom T callId p = some sp) : ∃ S, T.heap sp = some S := by
  have hfound := find?_some h
  obtain ⟨S, hS, -⟩ := (Option.any_eq_true ..).1 hfound
  exact ⟨S, hS⟩

theorem findStreamFrom_live
    (ho : ∀ q, o = some q → ∃ S, T.heap q = some S)
    (h : findStreamFrom T fromTag toTag n o = some (sp, i)) : ∃ S, T.heap sp = some S := by
  induction n generalizing o with
  | zero => cases h
  | succ n ih =>
    cases o with
    | none => cases h
    | some q =>
      obtain ⟨S, hS⟩ := ho q rfl
      simp only [findStreamFrom, hS, bind_eq_bind, bind_some] at h
      split at h
      · cases h
        exact ⟨S, hS⟩
      · exact ih (fun q' hq' => findFrom_live hq') h

theorem Command.stream_live (h : c.stream cf T = some (sp, i)) : ∃ S, T.heap sp = some S := by
  obtain ⟨⟨q, j⟩, hfind, heq⟩ := map_eq_some_iff.1 h
  obtain ⟨rfl, -⟩ := Prod.mk.inj heq
  exact findStreamFrom_live (fun q hq => findFrom_live hq) hfind

/-- A command adds sockets. -/
def Command.opens (cf : Cfg) (T : Tables) (c : Command) : Bool :=
  c.fds.isSome && match c.stream cf T with
    | some (sp, i) => (T.heap sp).any fun S => (S.fds (.rtp, i)).isNone
    | none => c.op = .update && c.mem.isSome

/-- What the system promises a command: sockets that are not open and memory that is not in use. -/
structure Command.Proper (T : Tables) (c : Command) : Prop where
  fresh : ∀ fds, c.fds = some fds → Fresh T fds
  free : ∀ sp, c.mem = some sp → sp ≠ 0 ∧ T.heap sp = none

/-- Room for sockets added, and a call id whose characters are not negative for a new session. -/
structure Command.Fits (cf : Cfg) (T : Tables) (c : Command) : Prop where
  room : c.opens cf T = true → T.nsessions + 2 ≤ cf.size
  ascii : c.op = .update → Ascii c.callId

/-- The tables between two steps. -/
structure Tables.Stable (cf : Cfg) (T : Tables) : Prop where
  good : T.Good cf fun i => 1 ≤ i ∧ i < T.nsessions
  pos : 1 ≤ T.nsessions
  room : T.nsessions ≤ cf.size

theorem touchSession_spec (h : T.Stable cf) (hS : T.heap sp = some S) :
    ∃ T', touchSession cf c T sp i = some T' ∧ T'.Stable cf := by
  refine ⟨T.setSession sp (c.touch cf i S), ?_, h.good.setSession hS rfl rfl rfl, h.pos, h.room⟩
  simp only [touchSession, hS, bind_eq_bind, bind_some]

theorem handleCommand_spec (h : T.Stable cf) (hproper : c.Proper T) (hfits : c.Fits cf T) :
    ∃ T', handleCommand cf T c = some T' ∧ T'.Stable cf := by
  unfold handleCommand
  cases hstream : c.stream cf T with
  | some st =>
    obtain ⟨sp, i⟩ := st
    obtain ⟨S, hS⟩ := Command.stream_live hstream
    simp only [hS, bind_eq_bind, bind_some]
    cases hfd : S.fds (.rtp, i) with
    | some fd => exact touchSession_spec h hS
    | none =>
      cases hfds : c.fds with
      | none => exact ⟨T, rfl, h⟩
      | some fds =>
        have hroom := hfits.room (by simp [Command.opens, hfds, hstream, hS, hfd])
        obtain ⟨T1, S1, hadd, h1, hn1, hS1⟩ := addListener_spec h.good h.pos hS hfd (hproper.fresh fds hfds)
        simp only [hadd, bind_some]
        exact touchSession_spec ⟨h1, by omega, by omega⟩ hS1
  | none =>
    simp only
    split
    · next fds sp hop hfds hmem =>
      have hroom := hfits.room (by simp [Command.opens, hfds, hstream, hop, hmem])
      obtain ⟨hsp, hfree⟩ := hproper.free sp hmem
      obtain ⟨h1, hn1⟩ := createSession_spec h.good h.pos hsp hfree (hfits.ascii hop) (hproper.fresh fds hfds)
      exact ⟨_, rfl, h1, by omega, by omega⟩
    · exact ⟨T, rfl, h⟩

/-- What comes behind a session in its chain is not that session. -/
theorem sessionFindnext_ne {q} (h : T.Good cf R) (hS : T.heap sp = some S)
    (hq : sessionFindnext T sp S = some q) : q ≠ sp := by
  obtain ⟨f, l1, l2, hf, hmem, hl⟩ := h.split hS
  have hlen : l2.length ≤ T.sessionsActive := by
    have hle := h.length_le hf hmem (hashString cf T S.callId)
    rw [hl, length_append, length_cons] at hle
    omega
  have hf' : f (hashString cf T S.callId) = (l1 ++ [sp]) ++ l2 := by rw [hl, append_assoc, singleton_append]
  have hseg := hf.split hf'
  rw [Lib.Linked.after_snoc] at hseg
  have hfrom : T.hashTable.from T.sessionsActive (T.hashTable.next sp) = l2 :=
    from_eq rfl hseg (fun h0 => hf.nonnull _ (hf' ▸ mem_append_right _ h0)) hlen
  have hin : q ∈ l2 := by
    rw [← hfrom]
    exact mem_of_find?_eq_some hq
  rintro rfl
  have hnodup := hf.nodup (hashString cf T S.callId)
  rw [hl] at hnodup
  exact (nodup_cons.1 (nodup_middle.1 hnodup)).1 (mem_append_right _ hin)

theorem deleteFrom_spec {weak ndeleted} (h : T.Good cf R) (ho : ∀ q, o = some q → ∃ S, T.heap q = some S) :
    ∃ T' m, deleteFrom cf fromTag toTag weak n T o ndeleted = some (T', m) ∧ T'.Good cf R ∧
      T'.nsessions = T.nsessions := by
  induction n generalizing T o ndeleted with
  | zero => exact ⟨T, ndeleted, rfl, h, rfl⟩
  | succ n ih =>
    cases o with
    | none => exact ⟨T, ndeleted, rfl, h, rfl⟩
    | some sp =>
      obtain ⟨S, hS⟩ := ho sp rfl
      simp only [deleteFrom, hS, bind_eq_bind, bind_some]
      cases hleg : deleteLeg S fromTag toTag with
      | none => exact ih h fun q hq => findFrom_live hq
      | some leg =>
        obtain ⟨idx, cmpr⟩ := leg
        have hflags : (S.unflag weak idx).fds = S.fds ∧ (S.unflag weak idx).sidx = S.sidx ∧
            (S.unflag weak idx).callId = S.callId := by
          cases weak <;> exact ⟨rfl, rfl, rfl⟩
        have h1 := h.setSession hS hflags.1 hflags.2.1 hflags.2.2
        have hS1 : (T.setSession sp (S.unflag weak idx)).heap sp = some (S.unflag weak idx) := update_self ..
        simp only
        split
        · exact ih h1 fun q hq => findFrom_live hq
        · obtain ⟨T2, hremove, h2, hheap2, hn2⟩ := removeSession_spec h1 hS1
          simp only [hremove, bind_some]
          split
          · exact ⟨T2, _, rfl, h2, hn2⟩
          · have hnext : ∀ q,
                sessionFindnext (T.setSession sp (S.unflag weak idx)) sp (S.unflag weak idx) =
                some q → ∃ S, T2.heap q = some S := by
              intro q hq
              rw [hheap2, update_of_ne (sessionFindnext_ne h1 hS1 hq)]
              exact findFrom_live hq
            obtain ⟨T', m, hrun, hgood, hn⟩ := ih h2 hnext
            exact ⟨T', m, hrun, hgood, hn.trans hn2⟩

theorem handleDelete_spec (h : T.Stable cf) {callId fromTag weak} :
    ∃ T' m, handleDelete cf T callId fromTag toTag weak = some (T', m) ∧ T'.Stable cf := by
  obtain ⟨T', m, hrun, hgood, hn⟩ : ∃ T' m, handleDelete cf T callId fromTag toTag weak = some (T', m) ∧
      T'.Good cf (fun i => 1 ≤ i ∧ i < T.nsessions) ∧ T'.nsessions = T.nsessions :=
    deleteFrom_spec h.good fun q hq => findFrom_live hq
  exact ⟨T', m, hrun, hn ▸ hgood, hn ▸ h.pos, hn ▸ h.room⟩

end Commands

/-! ## Every run -/

section Run

variable {cf : Cfg} {T : Tables}

/-- What the system promises at a step. -/
def Event.Proper (T : Tables) : Event → Prop
  | .command c => c.Proper T
  | .delete .. => True
  | .pass .. => True

/-- Commands fit, and a pass does not go on to resize packets of a session it has freed. -/
def Event.Fits (cf : Cfg) (T : Tables) : Event → Prop
  | .command c => c.Fits cf T
  | .delete .. => True
  | .pass _ rx => ∀ i, rx i ≠ .nomem true

def run (cf : Cfg) (T : Tables) (es : List Event) : Option Tables := es.foldlM (step cf) T

/-- Every step of a run fits in the tables that it meets. -/
def Fitting (cf : Cfg) : Tables → List Event → Prop
  | _, [] => True
  | T, e :: es => e.Proper T ∧ e.Fits cf T ∧ ∀ T', step cf T e = some T' → Fitting cf T' es

theorem step_spec (h : T.Stable cf) {e} (hproper : e.Proper T) (hfits : e.Fits cf T) :
    ∃ T', step cf T e = some T' ∧ T'.Stable cf := by
  cases e with
  | command c => exact handleCommand_spec h hproper hfits
  | delete callId fromTag toTag weak =>
    obtain ⟨T', m, hrun, h'⟩ := handleDelete_spec h
    exact ⟨T', by rw [step, hrun]; rfl, h'⟩
  | pass alarm rx =>
    obtain ⟨T', hrun, hgood, hpos, hle⟩ := processRtp_spec alarm h.good h.pos hfits
    exact ⟨T', hrun, hgood, hpos, Nat.le_trans hle h.room⟩

theorem run_spec (h : T.Stable cf) {es} (hes : Fitting cf T es) : ∃ T', run cf T es = some T' ∧ T'.Stable cf := by
  induction es generalizing T with
  | nil => exact ⟨T, rfl, h⟩
  | cons e es ih =>
    obtain ⟨hproper, hfits, hes⟩ := hes
    obtain ⟨T1, hstep, h1⟩ := step_spec h hproper hfits
    obtain ⟨T', hrun, h'⟩ := ih h1 (hes T1 hstep)
    exact ⟨T', by rw [run, foldlM_cons, hstep]; exact hrun, h'⟩

theorem stable_start {controlfd} : (Tables.start controlfd).Stable cf := by
  have hempty : ∀ sp, (Tables.start controlfd).heap sp = none := fun _ => rfl
  have hnone : ∀ q, (Tables.start controlfd).slots.has q = none := fun _ => rfl
  refine ⟨⟨⟨?_, ?_, ?_, ?_⟩, ?_, ?_, ⟨fun _ => [], ?_, ?_⟩, [], nodup_nil, ?_, rfl⟩, Nat.le_refl 1, ?_⟩
  · rintro i ⟨h1, h2⟩
    exact absurd h2 (Nat.not_lt.2 h1)
  · rintro i x ⟨h1, h2⟩
    exact absurd h2 (Nat.not_lt.2 h1)
  · intro q x hq
    simp [hnone] at hq
  · intro q q' x hq
    simp [hnone] at hq
  · intro sp S hS
    simp [hempty] at hS
  · intro sp S i hS
    simp [hempty] at hS
  · exact ⟨⟨fun _ => rfl, fun _ => not_mem_nil, fun _ => nodup_nil, fun _ _ _ _ hx => nomatch hx⟩,
      fun h l1 x l2 hl => absurd hl (by simp)⟩
  · intro h sp
    simp [hempty]
  · intro sp
    simp [hempty]
  · show 1 ≤ cf.size
    unfold Cfg.size
    omega

end Run

/-- The tables agree: an open socket of a session has one entry, which it knows, the other entries
are empty, the chains have the sessions, each in the one of its call id, and the counters are right.
-/
structure Tables.Consistent (cf : Cfg) (T : Tables) : Prop where
  open_once : ∀ sp S s fd, T.heap sp = some S → S.fds s = some fd →
    ∃ i, 1 ≤ i ∧ i < T.nsessions ∧ S.sidx s = some i ∧ T.pfds i = some fd ∧ T.sessions i = some (sp, s.1) ∧
      ∀ j, 1 ≤ j → j < T.nsessions → T.pfds j = some fd → j = i
  others : ∀ i, 1 ≤ i → i < T.nsessions → (T.pfds i = none ∧ T.sessions i = none) ∨
    ∃ sp S s fd, T.heap sp = some S ∧ S.fds s = some fd ∧ S.sidx s = some i ∧ T.pfds i = some fd ∧
      T.sessions i = some (sp, s.1)
  chained : ∃ f, T.hashTable.Holds f ∧ ∀ h sp, sp ∈ f h ↔ ∃ S, T.heap sp = some S ∧ hashString cf T S.callId = h
  active : ∃ l : List Nat, l.Nodup ∧ (∀ sp, sp ∈ l ↔ (T.heap sp).isSome) ∧ T.sessionsActive = l.length
  room : T.nsessions ≤ cf.size

theorem Tables.Stable.consistent {cf} {T : Tables} (h : T.Stable cf) : T.Consistent cf where
  open_once sp S s fd hS hfd := by
    obtain ⟨i, ⟨hpos, hlt⟩, hp, hx, hl⟩ := h.good.kept.item (sp, s) fd (by simp [Tables.slots, hS, hfd])
    refine ⟨i, hpos, hlt, by simpa [Tables.slots, hS] using hp, hx, hl, fun j hj hjn hxj => ?_⟩
    exact h.good.kept.eq_of_handle ⟨hj, hjn⟩ ⟨hpos, hlt⟩ hxj hx
  others i hpos hlt := by
    cases hfd : T.pfds i with
    | none => exact .inl ⟨rfl, h.good.kept.free i ⟨hpos, hlt⟩ hfd⟩
    | some fd =>
      obtain ⟨⟨sp, s⟩, hl, hs, hp⟩ := h.good.kept.owned i fd ⟨hpos, hlt⟩ hfd
      obtain ⟨S, hS, hSfd⟩ := bind_eq_some_iff.1 hs
      exact .inr ⟨sp, S, s, fd, hS, hSfd, by simpa [Tables.slots, hS] using hp, rfl, hl⟩
  chained := h.good.chains
  active := h.good.active
  room := h.room

/-- A proxy with two ports for sessions. -/
def twoPorts : Cfg where
  portMin := 35000
  portMax := 35002
  maxTtl := 60
  ttlMode := .unified
  randTable := id
  front := fun _ _ => 0

/-- A session is created with a call id of one byte, always with the same sockets and memory. -/
def createOne : Event :=
  .command
    { op := .update
      callId := [97]
      fromTag := [49]
      toTag := none
      weak := false
      fds := some (10, 11)
      mem := some 1 }

def deleteOne : Event := .delete [97] [49] none false

/-- In a run in which there is room for the sockets of every command, call ids of new sessions are
of characters that are not negative, and no freed session is read, no assertion fails and the tables
agree. -/
theorem run_consistent (cf : Cfg) (controlfd : Nat) (es : List Event) (hes : Fitting cf (Tables.start controlfd) es) :
    ∃ T, run cf (Tables.start controlfd) es = some T ∧ T.Consistent cf := by
  obtain ⟨T, hrun, h⟩ := run_spec (stable_start) hes
  exact ⟨T, hrun, h.consistent⟩

/-- A session is created and deleted, and a pass follows. -/
theorem run_consistent_one :
    ∃ T, run twoPorts (Tables.start 3) [createOne, deleteOne, .pass true fun _ => .idle] = some T ∧
      T.Consistent twoPorts := by
  refine run_consistent twoPorts 3 [createOne, deleteOne, .pass true fun _ => .idle] ⟨⟨?_, ?_⟩,
    ⟨?_, ?_⟩, fun T _ => ?_⟩
  · rintro fds ⟨⟩
    exact ⟨by decide, (fun _ _ _ hS => nomatch hS), (fun _ _ _ hS => nomatch hS)⟩
  · rintro sp ⟨⟩
    exact ⟨by decide, rfl⟩
  · exact fun _ => by decide
  · intro _ c hc
    obtain rfl := mem_singleton.mp hc
    decide
  · exact ⟨trivial, trivial, fun T _ => ⟨trivial, fun _ => nofun, fun _ _ => trivial⟩⟩

/-- Sessions that are created and deleted between two passes leave entries: the fourth one has none left in
the memory allocated. -/
theorem deleted_entries_overflow :
    twoPorts.size = 7 ∧
      (run twoPorts (Tables.start 3)
        [createOne, deleteOne, createOne, deleteOne, createOne, deleteOne,
          createOne]).map Tables.nsessions = some 9 := by
  decide +kernel

end SipRouter.Rtpp
