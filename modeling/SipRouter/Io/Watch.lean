import Mathlib.Data.Int.Interval
import SipRouter.Io.Wait
import SipRouter.Lib.Unique

/-!
# What is watched

`fd_array` has an entry for each descriptor with a type in `fd_hash`, and no others. What
the array and the sets are for is a map from descriptors to watches, and every call does
to the map what it is documented to do.
-/

namespace SipRouter.Io

open Function Lib List
open BitVec hiding and_comm

/-! ## Masks -/

theorem and_bit (e : Events) (i : Nat) : e &&& 1#16 <<< i = if e.getLsbD i then 1#16 <<< i else 0 := by
  rw [← twoPow_eq]
  exact and_twoPow e i

theorem meets_bit {e} {i : Nat} (hi : i < 16) : meets e (1#16 <<< i) = e.getLsbD i := by
  have hne : 1#16 <<< i ≠ 0 := by
    intro h
    have hbit := congrArg (fun x => x.getLsbD i) h
    simp only [← twoPow_eq, getLsbD_twoPow] at hbit
    simp [hi] at hbit
  rw [meets, and_bit]
  cases e.getLsbD i with
  | true => exact bne_iff_ne.2 hne
  | false => rfl

theorem meets_comm {a b} : meets a b = meets b a := by rw [meets, meets, BitVec.and_comm]

@[simp] theorem zero_meets {mask} : meets 0#16 mask = false := by simp [meets]

/-! ## The map -/

/-- The descriptors that are watched, and how often a watch was added. -/
structure Watches where
  of : Int → Option FdMap
  adds : Nat

/-- The descriptor is in the hash. -/
def inHash (max fd : Int) : Bool := decide (0 ≤ fd ∧ fd < max)

/-- What a call does. -/
def Op.apply (method : PollMethod) (max : Int) (w : Watches) : Op → Watches
  | .add fd events type fcntl =>
    if fd ≠ -1 ∧ meets events (pollin ||| pollout) ∧ w.of fd = none ∧ (method = .poll → fcntl = true) then
      ⟨update w.of fd (some ⟨type, events, w.adds⟩), w.adds + 1⟩
    else w
  | .del fd => if inHash max fd then ⟨update w.of fd none, w.adds⟩ else w
  | .chg fd events =>
    if inHash max fd ∧ meets events (pollin ||| pollout) then
      ⟨update w.of fd ((w.of fd).map fun m => { m with events := events }), w.adds⟩
    else w

/-- A call of `io_watch_add` has a type, and a descriptor that there is room for. -/
def Op.Valid (max : Int) : Op → Prop
  | .add fd _ type _ => type ≠ 0 ∧ (fd = -1 ∨ inHash max fd = true)
  | _ => True

/-- What the handler watches. -/
def IoWait.watches (h : IoWait) : Watches :=
  ⟨fun fd => if (h.hash fd).type = 0 then none else some (h.hash fd), h.adds⟩

/-- A set of `select` has the descriptors that are watched for an event. -/
def Tracks (set : Int → Bool) (event : Events) (hash : Int → FdMap) : Prop :=
  ∀ fd, set fd = true ↔ (hash fd).type ≠ 0 ∧ meets (hash fd).events event = true

/-- The array and the sets are what `fd_hash` says. -/
structure IoWait.Watch (h : IoWait) : Prop where
  nodup : (h.fdArray.map (·.fd)).Nodup
  mem : ∀ fd, fd ∈ h.fdArray.map (·.fd) ↔ (h.hash fd).type ≠ 0
  events : ∀ e ∈ h.fdArray, e.events = h.method.asked (h.hash e.fd).events
  range : ∀ fd ∈ h.fdArray.map (·.fd), inHash h.room fd = true
  rset : h.method = .select → Tracks h.rset pollin h.hash
  wset : h.method = .select → Tracks h.wset pollout h.hash
  max : h.method = .select → ∀ fd ∈ h.fdArray.map (·.fd), fd ≤ h.maxFdSelect

/-- What a call does to the array: nothing, or it adds, deletes or changes an entry. -/
inductive Effect (h : IoWait) : IoWait → Prop
  | keep {h' : IoWait} (array : h'.fdArray = h.fdArray) (crt : h'.crt = h.crt)
      (watches : h'.watches = h.watches) : Effect h h'
  | add {h' : IoWait} (fd : Int) (m : FdMap) (events : Events) (free : h.watches.of fd = none)
      (since : m.since = h.adds)
      (array : h'.fdArray = h.fdArray ++ [⟨fd, events, 0⟩]) (crt : h'.crt = h.crt)
      (watches : h'.watches = ⟨update h.watches.of fd (some m), h.adds + 1⟩) : Effect h h'
  | del {h' : IoWait} (fd : Int) (array : h'.fdArray = h.fdArray.filter fun e => e.fd ≠ fd)
      (crt : h'.crt = if (h.fdArray.findIdx fun e => e.fd = fd) ≤ h.crt ∧ 0 ≤ h.crt then h.crt - 1 else h.crt)
      (watches : h'.watches = ⟨update h.watches.of fd Option.none, h.adds⟩) : Effect h h'
  | chg {h' : IoWait} (fd : Int) (m m' : FdMap) (events : Events) (old : h.watches.of fd = some m)
      (since : m'.since = m.since)
      (array : h'.fdArray = h.fdArray.map fun e => if e.fd = fd then { e with events := events }
        else e) (crt : h'.crt = h.crt)
      (watches : h'.watches = ⟨update h.watches.of fd (some m'), h.adds⟩) : Effect h h'

/-! ## The sets of `select` -/

variable {m : FdMap}

section Tracks

variable {set : Int → Bool} {event : Events} {hash : Int → FdMap} {fd : Int}

theorem Tracks.of_update {set'} (h : Tracks set event hash) (hne : ∀ x, x ≠ fd → set' x = set x)
    (heq : set' fd = true ↔ m.type ≠ 0 ∧ meets m.events event = true) : Tracks set' event (update hash fd m) := by
  intro x
  rcases eq_or_ne x fd with rfl | hx
  · rw [update_self]
    exact heq
  · rw [update_of_ne hx, hne x hx]
    exact h x

theorem Tracks.add (h : Tracks set event hash) (ht : (hash fd).type = 0) (hm : m.type ≠ 0) :
    Tracks (if meets m.events event then update set fd true else set) event (update hash fd m) := by
  apply h.of_update
  · intro x hx
    split
    · exact update_of_ne hx _ _
    · rfl
  · have hold : set fd = false := by
      rw [← Bool.not_eq_true, h fd]
      exact fun hc => hc.1 ht
    cases hev : meets m.events event <;> simp [hold, hm]

theorem Tracks.del (h : Tracks set event hash) (hm : m.type = 0) :
    Tracks (if meets (hash fd).events event then update set fd false else set) event (update hash fd m) := by
  apply h.of_update
  · intro x hx
    split
    · exact update_of_ne hx _ _
    · rfl
  · cases hev : meets (hash fd).events event with
    | true => simp [hm]
    | false =>
      have hold : set fd = false := by
        rw [← Bool.not_eq_true, h fd, hev]
        simp
      simp [hold, hm]

theorem Tracks.chg {i} (hi : i < 16) (h : Tracks set (1#16 <<< i) hash) (ht : (hash fd).type ≠ 0) (hm : m.type ≠ 0) :
    Tracks (IoWait.chgSet set fd (meets (m.events &&& ~~~(hash fd).events) (1#16 <<< i))
      (meets ((hash fd).events &&& ~~~m.events) (1#16 <<< i))) (1#16 <<< i) (update hash fd m) := by
  apply h.of_update
  · intro x hx
    unfold IoWait.chgSet
    split
    · exact update_of_ne hx _ _
    · split
      · exact update_of_ne hx _ _
      · rfl
  · have hold := h fd
    simp only [meets_bit hi] at hold ⊢
    simp only [IoWait.chgSet, getLsbD_and, getLsbD_not, hi, decide_true, Bool.true_and]
    cases hnew : m.events.getLsbD i <;> cases hbit : (hash fd).events.getLsbD i <;> simp_all

end Tracks

namespace IoWait

variable {h : IoWait} {fd : Int}

theorem watches_of_eq_none : h.watches.of fd = none ↔ (h.hash fd).type = 0 := by
  simp [watches]

variable {h' : IoWait} {events : Events}

/-- A map that is changed for one descriptor. -/
theorem watches_update (hh : h'.hash = update h.hash fd m) :
    h'.watches = ⟨update h.watches.of fd (if m.type = 0 then none else some m), h'.adds⟩ := by
  simp only [watches, hh, Watches.mk.injEq, and_true]
  funext fd'
  rcases eq_or_ne fd' fd with rfl | hne
  · simp
  · simp [hne]

theorem watches_unhash (hh : h'.hash = update h.hash fd { h.hash fd with type := 0 })
    (ha : h'.adds = h.adds) : h'.watches = ⟨update h.watches.of fd none, h.adds⟩ := by
  rw [watches_update hh, if_pos rfl, ha]

theorem watches_setEvents (hh : h'.hash = (h.setEvents fd events).hash) (ha : h'.adds = h.adds)
    (ht : (h.hash fd).type ≠ 0) :
    h'.watches = ⟨update h.watches.of fd (some { h.hash fd with events := events }), h.adds⟩ := by
  rw [watches_update hh, if_neg ht, ha]

theorem room_congr (hmethod : h'.method = h.method) (hmax : h'.maxFdNo = h.maxFdNo) : h'.room = h.room := by
  rw [room, hmethod, hmax]
  rfl

/-- A descriptor that there is room for is in the hash. -/
theorem inHash_maxFdNo (hfd : inHash h.room fd = true) : inHash h.maxFdNo fd = true := by
  have hle : h.room ≤ h.maxFdNo := by
    unfold room
    split
    · exact Int.le_refl _
    · exact Int.min_le_left ..
  simp only [inHash, decide_eq_true_eq] at hfd ⊢
  omega

/-- A call keeps the array and the sets right, and does what it is for. -/
structure Does (h h' : IoWait) (w : Watches) : Prop where
  watch : h'.Watch
  effect : Effect h h'
  watches : h'.watches = w
  method : h'.method = h.method
  max : h'.maxFdNo = h.maxFdNo

section

variable (hw : h.Watch)

include hw

theorem Watch.does_nothing : Does h h h.watches := ⟨hw, .keep rfl rfl rfl, rfl, rfl, rfl⟩

/-! ## Adding -/

/-- There is room in the array for a descriptor that is not watched. -/
theorem Watch.length_lt (hfd : inHash h.maxFdNo fd = true) (ht : (h.hash fd).type = 0) :
    (h.fdArray.length : Int) < h.maxFdNo := by
  have hnot : fd ∉ h.fdArray.map (·.fd) := fun hm => (hw.mem fd).1 hm ht
  have hsub : (h.fdArray.map (·.fd)).toFinset ⊆ (Finset.Ico 0 h.maxFdNo).erase fd := by
    intro x hx
    rw [mem_toFinset] at hx
    have hr : 0 ≤ x ∧ x < h.maxFdNo := by simpa [inHash] using inHash_maxFdNo (hw.range x hx)
    exact Finset.mem_erase.2 ⟨fun heq => hnot (heq ▸ hx), Finset.mem_Ico.2 hr⟩
  have hin := Finset.mem_Ico.2 (by simpa [inHash] using hfd)
  have hcard := Finset.card_le_card hsub
  rw [toFinset_card_of_nodup hw.nodup, Finset.card_erase_of_mem hin, Int.card_Ico, length_map] at hcard
  have hpos : 0 < h.maxFdNo := by
    have := Finset.mem_Ico.1 hin
    omega
  omega

theorem Watch.added (ht : (h.hash fd).type = 0) (hm : m.type ≠ 0)
    (hfd : inHash h.room fd = true) (hmethod : h'.method = h.method) (hmax : h'.maxFdNo = h.maxFdNo)
    (hhash : h'.hash = update h.hash fd m) (harray : h'.fdArray = h.fdArray ++ [⟨fd, h.method.asked m.events, 0⟩])
    (hr : h.method = .select → h'.rset = if meets m.events pollin then update h.rset fd true else h.rset)
    (hwr : h.method = .select → h'.wset = if meets m.events pollout then update h.wset fd true else h.wset)
    (hsel : h.method = .select → h'.maxFdSelect = if h.maxFdSelect < fd then fd else h.maxFdSelect) : h'.Watch := by
  have hnot : fd ∉ h.fdArray.map (·.fd) := fun hmem => (hw.mem fd).1 hmem ht
  have hmap : h'.fdArray.map (·.fd) = h.fdArray.map (·.fd) ++ [fd] := by rw [harray, map_append]; rfl
  refine ⟨?_, fun x => ?_, fun e he => ?_, fun x hx => ?_, fun hs => ?_, fun hs => ?_, fun hs x hx => ?_⟩
  · rw [hmap, nodup_append]
    refine ⟨hw.nodup, nodup_singleton fd, fun x hx y hy => ?_⟩
    rw [mem_singleton] at hy
    exact fun heq => hnot (hy ▸ heq ▸ hx)
  · rw [hmap, mem_append, mem_singleton, hw.mem x, hhash]
    rcases eq_or_ne x fd with rfl | hne
    · simp [hm]
    · simp [hne]
  · rw [hmethod, hhash]
    rw [harray, mem_append, mem_singleton] at he
    rcases he with he | rfl
    · have hne : e.fd ≠ fd := fun heq => hnot (heq ▸ mem_map_of_mem he)
      rw [update_of_ne hne]
      exact hw.events e he
    · rw [update_self]
  · rw [room_congr hmethod hmax]
    rw [hmap, mem_append, mem_singleton] at hx
    rcases hx with hx | rfl
    · exact hw.range x hx
    · exact hfd
  · rw [hmethod] at hs
    rw [hr hs, hhash]
    exact (hw.rset hs).add ht hm
  · rw [hmethod] at hs
    rw [hwr hs, hhash]
    exact (hw.wset hs).add ht hm
  · rw [hmethod] at hs
    rw [hsel hs]
    rw [hmap, mem_append, mem_singleton] at hx
    rcases hx with hx | rfl
    · have := hw.max hs x hx
      split <;> omega
    · split <;> omega

/-- A descriptor that could not be made non-blocking is left as it was, not watched. -/
theorem Watch.failed {type} (ht : (h.hash fd).type = 0)
    (hmethod : h.method = .poll) : Does h ((h.hashFdMap fd events type).unhashFdMap fd) h.watches := by
  have hhash : ((h.hashFdMap fd events type).unhashFdMap fd).hash = update h.hash fd ⟨0, events, h.adds⟩ := by
    simp [unhashFdMap, hashFdMap]
  have hwatches : ((h.hashFdMap fd events type).unhashFdMap fd).watches = h.watches := by
    rw [watches_update hhash, if_pos rfl, ← watches_of_eq_none.2 ht, update_eq_self]
    rfl
  refine ⟨⟨hw.nodup, fun x => ?_, fun e he => ?_, hw.range, ?_, ?_, ?_⟩, .keep rfl rfl hwatches, hwatches, rfl, rfl⟩
  · refine (hw.mem x).trans ?_
    rw [hhash]
    rcases eq_or_ne x fd with rfl | hne
    · simp [ht]
    · simp [hne]
  · have hne : e.fd ≠ fd := by
      rintro rfl
      exact (hw.mem e.fd).1 (mem_map_of_mem he) ht
    rw [hhash, update_of_ne hne]
    exact hw.events e he
  all_goals exact fun hs => absurd (hmethod.symm.trans hs) (by decide)

/-! ## Deleting and changing -/

theorem Watch.deleted (hm : m.type = 0) (hmethod : h'.method = h.method)
    (hmax : h'.maxFdNo = h.maxFdNo) (hhash : h'.hash = update h.hash fd m)
    (harray : h'.fdArray = h.fdArray.filter fun e => e.fd ≠ fd)
    (hr : h.method = .select → h'.rset = if meets (h.hash fd).events pollin then update h.rset fd false else h.rset)
    (hwr : h.method = .select → h'.wset = if meets (h.hash fd).events pollout then
      update h.wset fd false else h.wset) (hsel : h.method = .select →
      h'.maxFdSelect = if h.maxFdSelect ≠ 0 ∧ h.maxFdSelect = fd then h.maxFdSelect - 1
        else h.maxFdSelect) : h'.Watch := by
  have hmap : h'.fdArray.map (·.fd) = (h.fdArray.map (·.fd)).filter fun x => x ≠ fd := by
    rw [harray, filter_map]
    rfl
  refine ⟨?_, fun x => ?_, fun e he => ?_, fun x hx => ?_, fun hs => ?_, fun hs => ?_, fun hs x hx => ?_⟩
  · rw [hmap]
    exact hw.nodup.filter _
  · rw [hmap, mem_filter, hw.mem x, hhash]
    rcases eq_or_ne x fd with rfl | hne
    · simp [hm]
    · simp [hne]
  · rw [harray, mem_filter] at he
    have hne : e.fd ≠ fd := by simpa using he.2
    rw [hmethod, hhash, update_of_ne hne]
    exact hw.events e he.1
  · rw [hmap, mem_filter] at hx
    rw [room_congr hmethod hmax]
    exact hw.range x hx.1
  · rw [hmethod] at hs
    rw [hr hs, hhash]
    exact (hw.rset hs).del hm
  · rw [hmethod] at hs
    rw [hwr hs, hhash]
    exact (hw.wset hs).del hm
  · rw [hmethod] at hs
    rw [hmap, mem_filter] at hx
    have hne : x ≠ fd := by simpa using hx.2
    have hle := hw.max hs x hx.1
    rw [hsel hs]
    split <;> omega

theorem Watch.changed (ht : (h.hash fd).type ≠ 0) (hm : m.type ≠ 0)
    (hmethod : h'.method = h.method) (hmax : h'.maxFdNo = h.maxFdNo) (hhash : h'.hash = update h.hash fd m)
    (harray : h'.fdArray = h.fdArray.map fun e => if e.fd = fd then
      { e with events := h.method.asked m.events } else e)
    (hr : h.method = .select → h'.rset = chgSet h.rset fd (meets (m.events &&& ~~~(h.hash fd).events) pollin)
      (meets ((h.hash fd).events &&& ~~~m.events) pollin))
    (hwr : h.method = .select → h'.wset = chgSet h.wset fd (meets (m.events &&& ~~~(h.hash fd).events) pollout)
      (meets ((h.hash fd).events &&& ~~~m.events) pollout))
    (hsel : h'.maxFdSelect = h.maxFdSelect) : h'.Watch := by
  have hmap : h'.fdArray.map (·.fd) = h.fdArray.map (·.fd) := by
    rw [harray, map_map]
    apply map_congr_left
    intro e _
    simp only [comp_apply]
    split <;> rfl
  refine ⟨hmap ▸ hw.nodup, fun x => ?_, fun e he => ?_, fun x hx => ?_, fun hs => ?_, fun hs => ?_, fun hs x hx => ?_⟩
  · rw [hmap, hw.mem x, hhash]
    rcases eq_or_ne x fd with rfl | hne
    · simp [hm, ht]
    · simp [hne]
  · rw [harray, mem_map] at he
    obtain ⟨e, he, rfl⟩ := he
    rw [hmethod, hhash]
    by_cases hfd : e.fd = fd
    · rw [if_pos hfd, hfd, update_self]
    · rw [if_neg hfd, update_of_ne hfd]
      exact hw.events e he
  · rw [room_congr hmethod hmax]
    exact hw.range x (hmap ▸ hx)
  · rw [hmethod] at hs
    rw [hr hs, hhash]
    exact (hw.rset hs).chg (by decide) ht hm
  · rw [hmethod] at hs
    rw [hwr hs, hhash]
    exact (hw.wset hs).chg (by decide) ht hm
  · rw [hmethod] at hs
    rw [hsel]
    exact hw.max hs x (hmap ▸ hx)

/-! ## The calls -/

theorem ioWatchAdd_does {type fcntl} (hv : (Op.add fd events type fcntl).Valid h.room) :
    Does h (h.ioWatchAdd fd events type fcntl).2
      ((Op.add fd events type fcntl).apply h.method h.maxFdNo h.watches) := by
  by_cases hadd : fd ≠ -1 ∧ meets events (pollin ||| pollout) ∧ h.watches.of fd = none
  swap
  · -- the call is refused
    have happly : (Op.add fd events type fcntl).apply h.method h.maxFdNo h.watches = h.watches :=
      if_neg fun hc => hadd ⟨hc.1, hc.2.1, hc.2.2.1⟩
    have hret : (h.ioWatchAdd fd events type fcntl).2 = h := by
      unfold ioWatchAdd
      by_cases h1 : fd = -1
      · rw [if_pos h1]
      by_cases h2 : meets events (pollin ||| pollout) = true
      swap
      · rw [if_neg h1, if_pos (by simp [h2])]
      have h3 : (h.hash fd).type ≠ 0 := fun ht => hadd ⟨h1, h2, watches_of_eq_none.2 ht⟩
      rw [if_neg h1, if_neg (by simp [h2]), if_pos h3, ite_self]
    rw [happly, hret]
    exact hw.does_nothing
  obtain ⟨h1, h2, hfree⟩ := hadd
  have h3 := watches_of_eq_none.1 hfree
  have hfd := hv.2.resolve_left h1
  have hroom := hw.length_lt (inHash_maxFdNo hfd) h3
  unfold ioWatchAdd
  rw [if_neg h1, if_neg (by simp [h2]), if_neg (by omega), if_neg (not_not.2 h3)]
  cases hmethod : h.method with
  | poll =>
    cases fcntl with
    | false =>
      have happly : (Op.add fd events type false).apply .poll h.maxFdNo h.watches = h.watches :=
        if_neg fun hc => absurd (hc.2.2.2 rfl) (by decide)
      rw [happly]
      exact hw.failed h3 hmethod
    | true =>
      have happly : (Op.add fd events type true).apply .poll h.maxFdNo h.watches = _ :=
        if_pos ⟨h1, h2, hfree, fun _ => rfl⟩
      rw [happly]
      have hwatches :
          ((h.hashFdMap fd events type).fdArraySetup fd (PollMethod.poll.asked events)).watches =
          _ :=
        watches_update rfl
      rw [if_neg hv.1] at hwatches
      refine ⟨hw.added h3 hv.1 hfd rfl rfl rfl (by rw [hmethod]; rfl) ?_ ?_ ?_,
        .add fd _ _ hfree rfl rfl rfl hwatches, hwatches, rfl, rfl⟩
      all_goals exact fun hs => absurd (hmethod.symm.trans hs) (by decide)
  | select =>
    have happly : (Op.add fd events type fcntl).apply .select h.maxFdNo h.watches = _ :=
      if_pos ⟨h1, h2, hfree, fun hc => absurd hc (by decide)⟩
    rw [happly]
    have hwatches :
        (((h.hashFdMap fd events type).selectSet fd events).fdArraySetup fd events).watches = _ :=
      watches_update rfl
    rw [if_neg hv.1] at hwatches
    refine ⟨hw.added h3 hv.1 hfd rfl rfl rfl ?_ (fun _ => rfl) (fun _ => rfl) fun _ => rfl,
      .add fd _ _ hfree rfl rfl rfl hwatches, hwatches, rfl, rfl⟩
    rw [hmethod]
    rfl

end

/-- The entry of a descriptor that is watched is taken out of the array. -/
theorem fixFdArray_none {g : IoWait} (hn : (g.fdArray.map (·.fd)).Nodup) (hfd : fd ∈ g.fdArray.map (·.fd)) :
    g.fixFdArray fd none = { g with
      fdArray := g.fdArray.filter fun e => e.fd ≠ fd
      crt := if (g.fdArray.findIdx fun e => e.fd = fd) ≤ g.crt ∧ 0 ≤ g.crt then g.crt - 1 else g.crt } := by
  have hlt := findIdx_key_lt_iff.2 hfd
  rw [← eraseIdx_findIdx_key hn]
  exact if_pos hlt

theorem ioWatchDel_does (hw : h.Watch) :
    Does h (h.ioWatchDel fd none).2 ((Op.del fd).apply h.method h.maxFdNo h.watches) := by
  unfold ioWatchDel
  by_cases hfd : inHash h.maxFdNo fd = true
  swap
  · have happly : (Op.del fd).apply h.method h.maxFdNo h.watches = h.watches := if_neg hfd
    rw [happly, if_pos (by simp [inHash] at hfd; omega)]
    exact hw.does_nothing
  have happly : (Op.del fd).apply h.method h.maxFdNo h.watches = ⟨update h.watches.of fd none, h.adds⟩ := if_pos hfd
  rw [happly, if_neg (by simp [inHash] at hfd; omega)]
  by_cases ht : (h.hash fd).type = 0
  · rw [if_pos ht, ← watches_of_eq_none.2 ht, update_eq_self]
    exact hw.does_nothing
  have hmem := (hw.mem fd).2 ht
  rw [if_neg ht]
  cases hmethod : h.method with
  | poll =>
    rw [fixFdArray_none (g := h.unhashFdMap fd) hw.nodup hmem]
    refine ⟨hw.deleted (m := { h.hash fd with type := 0 }) rfl rfl rfl rfl rfl ?_ ?_ ?_,
      .del fd rfl rfl (watches_unhash rfl rfl),
      watches_unhash rfl rfl, rfl, rfl⟩
    all_goals exact fun hs => absurd (hmethod.symm.trans hs) (by decide)
  | select =>
    rw [fixFdArray_none (g := (h.unhashFdMap fd).selectClr fd (h.hash fd).events) hw.nodup hmem]
    exact ⟨hw.deleted (m := { h.hash fd with type := 0 }) rfl rfl rfl rfl rfl (fun _ => rfl)
      (fun _ => rfl) fun _ => rfl,
      .del fd rfl rfl (watches_unhash rfl rfl), watches_unhash rfl rfl, rfl, rfl⟩

theorem ioWatchChg_does (hw : h.Watch) :
    Does h (h.ioWatchChg fd events none).2 ((Op.chg fd events).apply h.method h.maxFdNo h.watches) := by
  unfold ioWatchChg
  by_cases hfd : inHash h.maxFdNo fd = true
  swap
  · have happly : (Op.chg fd events).apply h.method h.maxFdNo h.watches = h.watches := if_neg fun hc => hfd hc.1
    rw [happly, if_pos (by simp [inHash] at hfd; omega)]
    exact hw.does_nothing
  by_cases hev : meets events (pollin ||| pollout) = true
  swap
  · have happly : (Op.chg fd events).apply h.method h.maxFdNo h.watches = h.watches := if_neg fun hc => hev hc.2
    rw [happly, if_neg (by simp [inHash] at hfd; omega), if_pos (by simp [hev])]
    exact hw.does_nothing
  have happly : (Op.chg fd events).apply h.method h.maxFdNo h.watches =
      ⟨update h.watches.of fd ((h.watches.of fd).map fun m => { m with events := events }),
        h.adds⟩ := if_pos ⟨hfd, hev⟩
  rw [happly, if_neg (by simp [inHash] at hfd; omega), if_neg (by simp [hev])]
  by_cases ht : (h.hash fd).type = 0
  · have hnone := watches_of_eq_none.2 ht
    rw [if_pos ht, hnone, Option.map_none, ← hnone, update_eq_self]
    exact hw.does_nothing
  have hsome : h.watches.of fd = some (h.hash fd) := if_neg ht
  rw [if_neg ht, hsome, Option.map_some]
  cases hmethod : h.method with
  | poll =>
    have harray :
        ((h.setEvents fd events).fdArrayChg fd none (PollMethod.poll.asked events)).fdArray = _ :=
      modify_findIdx_key hw.nodup
    have hwatches :
        ((h.setEvents fd events).fdArrayChg fd none (PollMethod.poll.asked events)).watches = _ :=
      watches_setEvents rfl rfl ht
    refine ⟨hw.changed (m := { h.hash fd with events := events }) ht ht rfl rfl rfl
      (by rw [hmethod]; exact harray) ?_ ?_ rfl,
      .chg fd _ { h.hash fd with events := events } _ hsome rfl harray rfl hwatches, hwatches, rfl, rfl⟩
    all_goals exact fun hs => absurd (hmethod.symm.trans hs) (by decide)
  | select =>
    have harray : (((h.setEvents fd events).selectChg fd (events &&& ~~~(h.hash fd).events)
        ((h.hash fd).events &&& ~~~events)).fdArrayChg fd none events).fdArray = _ := modify_findIdx_key hw.nodup
    have hwatches : (((h.setEvents fd events).selectChg fd (events &&& ~~~(h.hash fd).events)
        ((h.hash fd).events &&& ~~~events)).fdArrayChg fd none events).watches = _ := watches_setEvents rfl rfl ht
    exact ⟨hw.changed (m := { h.hash fd with events := events }) ht ht rfl rfl rfl
      (by rw [hmethod]; exact harray) (fun _ => rfl)
      (fun _ => rfl) rfl,
        .chg fd _ { h.hash fd with events := events } _ hsome rfl harray rfl hwatches,
        hwatches, rfl, rfl⟩

end IoWait

/-- Every call does what it is for. -/
theorem Op.run_does {h : IoWait} (hw : h.Watch) {op : Op} (hv : op.Valid h.room) :
    h.Does (op.run h) (op.apply h.method h.maxFdNo h.watches) := by
  cases op with
  | add => exact IoWait.ioWatchAdd_does hw hv
  | del fd => exact IoWait.ioWatchDel_does hw
  | chg fd events => exact IoWait.ioWatchChg_does hw

end SipRouter.Io
