import SipRouter.Lib.Tiles
import SipRouter.Mem.FMalloc

/-!
# The heap of the fast allocator

At any time the fragments tile the heap, each is either in the hands of a user or in the one free list for
its size, and the counters and the bitmap tell how long the lists are (`HeapOk`). Every call of
`fm_malloc`, `fm_free` and `fm_realloc` keeps this.

The last fragment goes up to the end of the memory and not to `last_frag`, a header that is
16 bytes before it: `INIT_OVERHEAD` leaves room for one header where there are two.
-/

namespace SipRouter.Mem

open Function Lib Linked
open List hiding after

/-! ## Sizes and lists -/

theorem dvd_roundup {s} : 8 ∣ roundup s := Nat.dvd_mul_left ..

theorem getHash_small {s} (h : s ≤ 16384) : getHash s = s / 8 := if_pos h

/-- The lists for powers of two come after those for single sizes. -/
theorem getHash_big {s} (h : 16384 < s) : getHash s = Nat.log 2 s + 2035 ∧ 14 ≤ Nat.log 2 s := by
  have hlog : 14 ≤ Nat.log 2 s := Nat.le_log_of_pow_le (by decide) (Nat.le_of_lt h)
  have hbig : ¬ s ≤ fMallocOptimize := Nat.not_le.2 h
  rw [getHash, if_neg hbig]
  simp only [fMallocOptimize, fMallocOptimizeFactor, roundto]
  omega

theorem getHash_mono {s t} (h : s ≤ t) : getHash s ≤ getHash t := by
  rcases le_or_gt t 16384 with ht | ht
  · rw [getHash_small (h.trans ht), getHash_small ht]
    exact Nat.div_le_div_right h
  · have hbig := getHash_big ht
    rcases le_or_gt s 16384 with hs | hs
    · rw [getHash_small hs]
      omega
    · have hlog : Nat.log 2 s ≤ Nat.log 2 t := Nat.log_mono_right h
      rw [hbig.1, (getHash_big hs).1]
      omega

/-- There is a list for every size. -/
theorem getHash_lt {s} (h : s < 2 ^ 64) : getHash s < fHashSize := by
  have hsize : fHashSize = 2099 := rfl
  rcases le_or_gt s 16384 with hs | hs
  · rw [getHash_small hs]
    omega
  · have hlog := Nat.log_lt_of_lt_pow (by omega) h
    rw [(getHash_big hs).1]
    omega

/-- A fragment of a list for a single size is big enough for every size before it. -/
theorem le_of_getHash_le {s t} (hs : 8 ∣ s) (h : getHash s ≤ getHash t) (ht : getHash t ≤ 2048) : s ≤ t := by
  have hsmall : ∀ {u}, getHash u ≤ 2048 → u ≤ 16384 := by
    intro u hu
    by_contra hbig
    have hlt := getHash_big (Nat.lt_of_not_le hbig)
    omega
  have hs' := hsmall (h.trans ht)
  have ht' := hsmall ht
  rw [getHash_small hs', getHash_small ht'] at h
  omega

/-! ## The free lists -/

/-- The free lists are `f`. -/
structure FreeLists (qm : FmBlock) (f : Nat → List Nat) : Prop where
  links : qm.links.Holds f
  bucket : ∀ h, ∀ x ∈ f h, getHash (qm.fragSize x) = h
  sorted : ∀ h, 2048 < h → (f h).Pairwise fun x y => qm.fragSize x ≤ qm.fragSize y
  no : ∀ h, qm.no h = (f h).length
  bitmap : ∀ h, fmBmpIsSet h qm.freeBitmap = true ↔ f h ≠ []

section FreeLists

variable {qm : FmBlock} {f : Nat → List Nat} {x h : Nat} {l1 l2 : List Nat}

variable (hf : FreeLists qm f) {r : Ref Nat}

include hf

/-- Where `fm_insert_free` puts a fragment. -/
theorem FreeLists.place (x : Nat) :
    let hash := getHash (qm.fragSize x)
    ∃ l1 l2, f hash = l1 ++ l2 ∧
      (if fMallocOptimize < qm.fragSize x then
        qm.links.walk (fun y => qm.fragSize x ≤ qm.fragSize y) (qm.no hash) (.head hash)
      else .head hash) = after hash l1 ∧
      (2048 < hash → (∀ y ∈ l1, qm.fragSize y ≤ qm.fragSize x) ∧
        ∀ y ∈ l2, qm.fragSize x ≤ qm.fragSize y) := by
  intro hash
  split_ifs with hbig
  · obtain ⟨l1, l2, hl, hwalk, hpass, hend⟩ := hf.links.walk_head
      (fun y => qm.fragSize x ≤ qm.fragSize y) (le_of_eq (hf.no hash).symm)
    refine ⟨l1, l2, hl, hwalk, fun hhash => ⟨?_, ?_⟩⟩
    · intro y hy
      have hlt := hpass y hy
      simp only [decide_eq_false_iff_not] at hlt
      omega
    · -- the list is sorted, so all behind the first that is big enough are
      have hsorted := hf.sorted hash hhash
      rw [hl, pairwise_append] at hsorted
      cases l2 with
      | nil => exact nofun
      | cons z l2 =>
        have hz : qm.fragSize x ≤ qm.fragSize z := by simpa using hend z rfl
        intro y hy
        rcases mem_cons.1 hy with rfl | hy
        · exact hz
        · exact hz.trans ((pairwise_cons.1 hsorted.2.1).1 y hy)
  · refine ⟨[], f hash, rfl, rfl, fun hhash => ?_⟩
    have hsmall := getHash_small (Nat.le_of_not_lt hbig)
    have hle : qm.fragSize x ≤ 16384 := Nat.le_of_not_lt hbig
    omega

/-- `fm_insert_free` puts a fragment that is in no list in the list for its size. -/
theorem FreeLists.insert (hx0 : x ≠ 0) (hx : ∀ h, x ∉ f h) : ∃ f', FreeLists (fmInsertFree x qm) f' ∧
      (∀ h y, y ∈ f' h ↔ y ∈ f h ∨ h = getHash (qm.fragSize x) ∧ y = x) ∧
      ∀ y, y ≠ x → (∀ h, y ∉ f h) → (fmInsertFree x qm).links.next y = qm.links.next y := by
  obtain ⟨l1, l2, hl, hplace, hsort⟩ := hf.place x
  have hmem : ∀ h y, y ∈ update f (getHash (qm.fragSize x)) (l1 ++ x :: l2) h ↔
      y ∈ f h ∨ h = getHash (qm.fragSize x) ∧ y = x := by
    intro h y
    rcases eq_or_ne h (getHash (qm.fragSize x)) with rfl | hne
    · rw [update_self, hl]
      simp only [mem_append, mem_cons, true_and]
      tauto
    · simp [hne]
  refine ⟨update f (getHash (qm.fragSize x)) (l1 ++ x :: l2), ?_, hmem, ?_⟩
  · constructor
    case links =>
      simp only [fmInsertFree, hplace]
      exact hf.links.insert hl hx0 hx
    case bucket =>
      intro h y hy
      rcases (hmem h y).1 hy with hy | ⟨rfl, rfl⟩
      · exact hf.bucket h y hy
      · rfl
    case sorted =>
      intro h hh
      show (update f _ _ h).Pairwise fun y z => qm.fragSize y ≤ qm.fragSize z
      rcases eq_or_ne h (getHash (qm.fragSize x)) with rfl | hne
      · rw [update_self]
        obtain ⟨hbefore, hbehind⟩ := hsort hh
        have hsorted := hf.sorted _ hh
        rw [hl] at hsorted
        obtain ⟨h1, h2, h12⟩ := pairwise_append.1 hsorted
        refine pairwise_append.2 ⟨h1, pairwise_cons.2 ⟨hbehind, h2⟩, ?_⟩
        intro y hy z hz
        rcases mem_cons.1 hz with rfl | hz
        · exact hbefore y hy
        · exact h12 y hy z hz
      · rw [update_of_ne hne]
        exact hf.sorted h hh
    case no =>
      intro h
      show update qm.no _ _ h = _
      rcases eq_or_ne h (getHash (qm.fragSize x)) with rfl | hne
      · rw [update_self, update_self, hf.no, hl]
        simp only [length_append, length_cons]
        omega
      · rw [update_of_ne hne, update_of_ne hne, hf.no]
    case bitmap =>
      intro h
      show fmBmpIsSet h (fmBmpSet _ qm.freeBitmap) = true ↔ _
      rw [fmBmpIsSet_set]
      rcases eq_or_ne h (getHash (qm.fragSize x)) with rfl | hne
      · simp
      · simp only [hne, decide_false, Bool.false_or, update_of_ne hne]
        exact hf.bitmap h
  · intro y hyx hy
    have hyl : y ∉ l1 := fun hmem' => hy _ (hl ▸ mem_append_left _ hmem')
    simp only [fmInsertFree, hplace]
    rw [Links.next_set_after _ _ hyl]
    exact update_of_ne hyx ..

theorem FreeLists.detach (hl : f h = l1 ++ x :: l2) :
    FreeLists (fmDetach h (after h l1) qm) (update f h (l1 ++ l2)) := by
  have hget := hf.links.get_after hl
  have hsub : ∀ h', (update f h (l1 ++ l2) h').Sublist (f h') := by
    intro h'
    rcases eq_or_ne h' h with rfl | hne
    · rw [update_self, hl]
      exact (List.Sublist.refl l1).append (sublist_cons_self x l2)
    · rw [update_of_ne hne]
  constructor
  case links =>
    simp only [fmDetach, hget]
    exact hf.links.remove hl
  case bucket => exact fun h' y hy => hf.bucket h' y ((hsub h').subset hy)
  case sorted => exact fun h' hh => (hf.sorted h' hh).sublist (hsub h')
  case no =>
    intro h'
    show update qm.no _ _ h' = _
    rcases eq_or_ne h' h with rfl | hne
    · rw [update_self, update_self, hf.no, hl]
      simp only [length_append, length_cons]
      omega
    · rw [update_of_ne hne, update_of_ne hne, hf.no]
  case bitmap =>
    intro h'
    have hno : qm.no h - 1 = (l1 ++ l2).length := by
      rw [hf.no, hl]
      simp only [length_append, length_cons]
      omega
    show fmBmpIsSet h' (if qm.no h - 1 = 0 then _ else _) = true ↔ _
    rw [hno]
    rcases eq_or_ne h' h with rfl | hne
    · rw [update_self]
      split_ifs with hempty
      · simp [fmBmpIsSet_reset, eq_nil_of_length_eq_zero hempty]
      · rw [hf.bitmap, hl]
        have hne : l1 ++ l2 ≠ [] := fun heq => hempty (by rw [heq]; rfl)
        simp [hne]
    · rw [update_of_ne hne, ← hf.bitmap]
      split_ifs
      · simp [fmBmpIsSet_reset, hne]
      · exact .rfl

/-- Only the fragments in the lists matter. -/
theorem FreeLists.congr {qm'} (hlinks : qm'.links.Holds f)
    (hsize : ∀ h, ∀ x ∈ f h, qm'.fragSize x = qm.fragSize x) (hno : qm'.no = qm.no)
    (hbitmap : qm'.freeBitmap = qm.freeBitmap) : FreeLists qm' f where
  links := hlinks
  bucket h x hx := by rw [hsize h x hx, hf.bucket h x hx]
  sorted h hh := by
    refine (hf.sorted h hh).imp_of_mem ?_
    intro x y hx hy hle
    rw [hsize h x hx, hsize h y hy]
    exact hle
  no h := by rw [hno, hf.no]
  bitmap h := by rw [hbitmap, hf.bitmap]

/-- The search of `fm_realloc` for a fragment finds it. -/
theorem FreeLists.find (hx : x ∈ f h) : ∃ l1 l2, f h = l1 ++ x :: l2 ∧ qm.links.walk
    (fun y => y = x) (qm.no h) (.head h) = after h l1 := by
  obtain ⟨l1, l2, hl, hwalk, hpass, hend⟩ := hf.links.walk_head
    (fun y => y = x) (le_of_eq (hf.no h).symm)
  have hx1 : x ∉ l1 := fun hmem => by simpa using hpass x hmem
  rw [hl] at hx
  cases l2 with
  | nil => simp [hx1] at hx
  | cons y l2 =>
    obtain rfl : y = x := by simpa using hend y rfl
    exact ⟨l1, l2, hl, hwalk⟩

/-! ### The search -/

/-- What the search in the lists for powers of two finds. -/
theorem FreeLists.searchBig {size hash} (hsearch : fmSearchBig size qm hash = some (h, r)) :
    ∃ l1 x l2, f h = l1 ++ x :: l2 ∧ r = after h l1 ∧ size ≤ qm.fragSize x := by
  fun_induction fmSearchBig size qm hash with
  | case1 hash place hfound =>
    obtain ⟨rfl, rfl⟩ := Prod.mk.inj (Option.some.inj hsearch)
    obtain ⟨l1, l2, hl, hwalk, -, hend⟩ := hf.links.walk_head
      (fun x => size ≤ qm.fragSize x) (le_of_eq (hf.no hash).symm)
    have hplace : place = after hash l1 := hwalk
    rw [hplace, hf.links.get_after hl] at hfound
    cases l2 with
    | nil => exact absurd rfl hfound
    | cons x l2 => exact ⟨l1, x, l2, hl, hplace, by simpa using hend x rfl⟩
  | case2 hash place _ _ next hnext _ ih => exact ih hsearch
  | case3 => cases hsearch
  | case4 => cases hsearch

/-- What the search of `fm_malloc` finds is in its list, and big enough. -/
theorem FreeLists.search {size} (hsize : 8 ∣ size) (hsearch : fmSearch size qm = some (h, r)) :
    ∃ l1 x l2, f h = l1 ++ x :: l2 ∧ r = after h l1 ∧ size ≤ qm.fragSize x := by
  unfold fmSearch at hsearch
  cases hfirst : fmBmpFirstSet qm.freeBitmap (getHash size) with
  | none =>
    rw [hfirst] at hsearch
    cases hsearch
  | some hash =>
    simp only [hfirst] at hsearch
    split_ifs at hsearch with hsmall
    · obtain ⟨rfl, rfl⟩ := Prod.mk.inj (Option.some.inj hsearch)
      have hne := (hf.bitmap hash).1 ((fmBmpFirstSet_isFirst ..).isSet hash hfirst).2
      obtain ⟨x, l, hl⟩ := exists_cons_of_ne_nil hne
      have hbucket := hf.bucket hash x (hl ▸ mem_cons_self ..)
      refine ⟨[], x, l, hl, rfl, le_of_getHash_le hsize ?_ ?_⟩
      · rw [hbucket]
        exact le_fmBmpFirstSet hfirst
      · rw [hbucket]
        exact hsmall
    · exact hf.searchBig hsearch

/-- A list without a fragment that is big enough. -/
theorem FreeLists.walk_null {size}
    (hnull : qm.links.get (qm.links.walk (fun x => size ≤ qm.fragSize x) (qm.no h) (.head h)) = 0) :
    ∀ x ∈ f h, qm.fragSize x < size := by
  obtain ⟨l1, l2, hl, hwalk, hpass, -⟩ := hf.links.walk_head (fun x => size ≤ qm.fragSize x) (le_of_eq (hf.no h).symm)
  rw [hwalk, hf.links.get_after hl] at hnull
  cases l2 with
  | nil =>
    rw [hl, append_nil]
    exact fun x hx => by simpa using hpass x hx
  | cons y l2 =>
    cases (show y = 0 from hnull)
    exact absurd (hl ▸ mem_append_right _ mem_cons_self) (hf.links.nonnull h)

/-- The lists that the bitmap leaves out are empty. -/
theorem FreeLists.nil_of_first {found start} (hfirst : fmBmpFirstSet qm.freeBitmap start = found) (hstart : start ≤ h)
    (hlast : h < fHashSize) (hbefore : ∀ k, found = some k → h < k) : f h = [] := by
  have hset := (hfirst ▸ fmBmpFirstSet_isFirst ..).least h hstart (hlast.trans (by decide)) hbefore
  by_contra hne
  rw [(hf.bitmap h).2 hne] at hset
  cases hset

theorem FreeLists.searchBig_none {size hash} (hsearch : fmSearchBig size qm hash = none)
    (hle : hash ≤ h) (hlast : h < fHashSize) :
    ∀ x ∈ f h, qm.fragSize x < size := by
  fun_induction fmSearchBig size qm hash with
  | case1 => cases hsearch
  | case2 hash place hnull _ next hnext _ ih =>
    rcases hle.eq_or_lt with rfl | hlt
    · exact hf.walk_null (not_not.1 hnull)
    · by_cases hnx : next ≤ h
      · exact ih hsearch hnx
      · simp [hf.nil_of_first hnext hlt hlast fun k hk => by cases hk; omega]
  | case3 hash place hnull _ hnext =>
    rcases hle.eq_or_lt with rfl | hlt
    · exact hf.walk_null (not_not.1 hnull)
    · simp [hf.nil_of_first hnext hlt hlast nofun]
  | case4 hash place hnull hend =>
    obtain rfl : hash = h := by omega
    exact hf.walk_null (not_not.1 hnull)

/-- When the search of `fm_malloc` finds nothing, no fragment is big enough. -/
theorem FreeLists.search_none {size} (hsearch : fmSearch size qm = none) (hx : x ∈ f h)
    (hlast : h < fHashSize) : qm.fragSize x < size := by
  by_contra hge
  have hhash := hf.bucket h x hx ▸ getHash_mono (Nat.le_of_not_lt hge)
  unfold fmSearch at hsearch
  cases hfirst : fmBmpFirstSet qm.freeBitmap (getHash size) with
  | none =>
    rw [hf.nil_of_first hfirst hhash hlast nofun] at hx
    cases hx
  | some hash =>
    simp only [hfirst] at hsearch
    split_ifs at hsearch
    by_cases hle : hash ≤ h
    · exact hge (hf.searchBig_none hsearch hle hlast x hx)
    · rw [hf.nil_of_first hfirst hhash hlast fun k hk => by cases hk; omega] at hx
      cases hx

end FreeLists

/-! ## The invariant -/

/-- The heap has the fragments `frags`: those of `taken` are in the hands of users, the others are in the
lists `f`. -/
structure HeapOk (qm : FmBlock) (frags : List Nat) (f : Nat → List Nat) (taken : List Nat) : Prop where
  tiles : Tiles fragOverhead qm.fragSize qm.firstFrag frags (qm.lastFrag + fragOverhead)
  first : 0 < qm.firstFrag
  fits : qm.lastFrag + fragOverhead ≤ 2 ^ 64
  lists : FreeLists qm f
  frag : ∀ x, x ∈ frags ↔ x ∈ taken ∨ ∃ h, x ∈ f h
  apart : ∀ x ∈ taken, ∀ h, x ∉ f h
  nodup : taken.Nodup
  marked : ∀ x ∈ taken, qm.links.next x = 0

namespace HeapOk

variable {qm : FmBlock} {frags taken l1 l2 : List Nat} {f : Nat → List Nat} {x n h size : Nat}

section

variable (hok : HeapOk qm frags f taken)

include hok

theorem mem_taken (hx : x ∈ taken) : x ∈ frags := (hok.frag x).2 (.inl hx)

theorem mem_free (hx : x ∈ f h) : x ∈ frags := (hok.frag x).2 (.inr ⟨h, hx⟩)

theorem ne_zero (hx : x ∈ frags) : x ≠ 0 := by
  have hle := (hok.tiles.bounds hx).1
  have hfirst := hok.first
  omega

/-- The counters of the statistics do not matter. -/
theorem stats (used realUsed maxRealUsed : Int) : HeapOk { qm with used, realUsed, maxRealUsed } frags f taken :=
  ⟨hok.tiles, hok.first, hok.fits, ⟨hok.lists.links, hok.lists.bucket, hok.lists.sorted,
    hok.lists.no, hok.lists.bitmap⟩,
    hok.frag, hok.apart, hok.nodup, hok.marked⟩

theorem release (hx : x ∈ taken) : ∃ f', HeapOk (fmInsertFree x qm) frags f' (taken.erase x) := by
  obtain ⟨f', hlists, hmem, hnext⟩ := hok.lists.insert (hok.ne_zero (hok.mem_taken hx)) (hok.apart x hx)
  have htaken : ∀ {y}, y ∈ taken.erase x ↔ y ≠ x ∧ y ∈ taken := hok.nodup.mem_erase_iff
  refine ⟨f', hok.tiles, hok.first, hok.fits, hlists, ?_, ?_, hok.nodup.erase x, ?_⟩
  · intro y
    simp only [hok.frag, htaken, hmem, exists_or, exists_eq_left]
    rcases eq_or_ne y x with rfl | hne
    · simp [hx]
    · simp [hne]
  · intro y hy h hyf
    obtain ⟨hne, hy⟩ := htaken.1 hy
    rcases (hmem h y).1 hyf with hyf | ⟨-, heq⟩
    · exact hok.apart y hy h hyf
    · exact hne heq
  · intro y hy
    obtain ⟨hne, hy⟩ := htaken.1 hy
    rw [hnext y hne (hok.apart y hy)]
    exact hok.marked y hy

/-- A free fragment is taken off its list and marked. -/
theorem take (hl : f h = l1 ++ x :: l2) :
    let qm' := fmDetach h (after h l1) qm
    HeapOk { qm' with links := qm'.links.set (.next x) 0 } frags (update f h (l1 ++ l2))
      (x :: taken) := by
  intro qm'
  have hget := hok.lists.links.get_after hl
  have hxf : x ∈ f h := hl ▸ mem_append_right _ (mem_cons_self ..)
  have hmem := hok.lists.links.mem_remove hl
  have hlists := hok.lists.detach hl
  have hfree : ∀ h', x ∉ update f h (l1 ++ l2) h' := fun h' hx => ((hmem h' x).1 hx).2 rfl
  have hxt : x ∉ taken := fun hx => hok.apart x hx h hxf
  refine ⟨hok.tiles, hok.first, hok.fits,
    hlists.congr (hlists.links.set_next hfree) (fun _ _ _ => rfl) rfl rfl, ?_, ?_,
    nodup_cons.2 ⟨hxt, hok.nodup⟩, ?_⟩
  · intro y
    simp only [hok.frag, hmem, mem_cons]
    rcases eq_or_ne y x with rfl | hne
    · simp only [true_or, iff_true]
      exact .inr ⟨h, hxf⟩
    · simp [hne]
  · intro y hy h' hyf
    obtain ⟨hyf, hne⟩ := (hmem h' y).1 hyf
    exact hok.apart y (mem_of_ne_of_mem hne hy) h' hyf
  · intro y hy
    show update qm'.links.next x 0 y = 0
    rcases mem_cons.1 hy with rfl | hy
    · exact update_self ..
    · have hne : y ≠ x := fun heq => hxt (heq ▸ hy)
      have hyl : y ∉ l1 := fun hmem => hok.apart y hy h (hl ▸ mem_append_left _ hmem)
      rw [update_of_ne hne]
      exact (Links.next_set_after _ _ hyl _).trans (hok.marked y hy)

/-- What `fm_split_frag` leaves behind a fragment goes to the lists. -/
theorem split (hx : x ∈ taken) (hsize : size ≤ qm.fragSize x) :
    ∃ frags' f', HeapOk (fmSplitFrag x size qm) frags' f' taken ∧
    size ≤ (fmSplitFrag x size qm).fragSize x := by
  unfold fmSplitFrag
  extract_lets rest qm1 n qm2
  split_ifs with hbig
  · have hover : fragOverhead = 16 := rfl
    have hn : n = x + fragOverhead + size := congrArg (x + fragOverhead + ·) (update_self ..)
    have hnx : n ≠ x := by omega
    have hsx : qm2.fragSize x = size := (update_of_ne hnx.symm ..).trans (update_self ..)
    have hsn : qm2.fragSize n = rest - fragOverhead := update_self ..
    have hother : ∀ y, y ≠ x → y ≠ n → qm2.fragSize y = qm.fragSize y := fun y hyx hyn =>
      (update_of_ne hyn ..).trans (update_of_ne hyx ..)
    have hrest : rest = qm.fragSize x - size := rfl
    have hcut : qm.fragSize x = qm2.fragSize x + fragOverhead + qm2.fragSize n := by omega
    -- the rest begins, so no fragment was there
    have hnf : n ∉ frags := by
      intro hmem
      have hapart := hok.tiles.apart (hok.mem_taken hx) hmem hnx.symm
      omega
    have hlists : FreeLists qm2 f := by
      refine hok.lists.congr hok.lists.links ?_ rfl rfl
      intro h y hy
      refine hother y ?_ ?_
      · rintro rfl
        exact hok.apart y hx h hy
      · rintro rfl
        exact hnf (hok.mem_free hy)
    obtain ⟨f', hlists', hmem, hnext⟩ := hlists.insert (by omega) fun h hy => hnf (hok.mem_free hy)
    obtain ⟨l1, l2, hfrags⟩ := append_of_mem (hok.mem_taken hx)
    have htiles := hok.tiles
    rw [hfrags] at htiles
    refine ⟨l1 ++ x :: n :: l2, f', ⟨htiles.split (by decide) (hsx.symm ▸ hn) hcut hother,
      hok.first, hok.fits, hlists', ?_, ?_, hok.nodup, ?_⟩,
      hsx.ge⟩
    · intro y
      have hfrag : y ∈ l1 ++ x :: n :: l2 ↔ y ∈ frags ∨ y = n := by
        rw [hfrags]
        simp only [mem_append, mem_cons]
        tauto
      simp only [hfrag, hok.frag, hmem, exists_or, exists_eq_left, or_assoc]
    · intro y hy h hyf
      rcases (hmem h y).1 hyf with hyf | ⟨-, rfl⟩
      · exact hok.apart y hy h hyf
      · exact hnf (hok.mem_taken hy)
    · intro y hy
      have hyn : y ≠ n := fun heq => hnf (heq ▸ hok.mem_taken hy)
      rw [hnext y hyn (hok.apart y hy)]
      exact hok.marked y hy
  · exact ⟨frags, f, hok, hsize⟩

/-- The free fragment behind a taken one is found, and joined with it. -/
theorem join (hx : x ∈ taken) (hn : n = qm.fragNext x)
    (hlast : n < qm.lastFrag) (hfree : qm.links.next n ≠ 0) :
    let h := getHash (qm.fragSize n)
    ∃ l1 l2, f h = l1 ++ n :: l2 ∧
      qm.links.walk (fun y => y = n) (qm.no h) (.head h) = after h l1 ∧
      ∃ frags', HeapOk { fmDetach h (after h l1) qm with
        fragSize := update qm.fragSize x (qm.fragSize x + (qm.fragSize n + fragOverhead)) }
        frags' (update f h (l1 ++ l2)) taken := by
  intro hash
  -- the fragment is not the last, so one begins
  obtain ⟨m1, m, rfl⟩ := append_of_mem (hok.mem_taken hx)
  have hnext := hn.trans hok.tiles.next_eq
  obtain ⟨m2, rfl⟩ : ∃ m2, m = n :: m2 := by
    cases m with
    | nil =>
      have hend : n = qm.lastFrag + fragOverhead := hnext
      omega
    | cons y m2 => exact ⟨m2, by rw [hnext]; rfl⟩
  have hxn : x ≠ n := by
    have hover : n = x + 16 + qm.fragSize x := hn
    omega
  -- taken fragments are marked, so it is a free one
  have hnt : n ∉ taken := fun hmem => hfree (hok.marked n hmem)
  obtain ⟨h, hnf⟩ : ∃ h, n ∈ f h := ((hok.frag n).1 (by simp)).resolve_left hnt
  obtain rfl : hash = h := hok.lists.bucket h n hnf
  obtain ⟨l1, l2, hl, hwalk⟩ := hok.lists.find hnf
  have hmem := hok.lists.links.mem_remove hl
  have hlists := hok.lists.detach hl
  have hother : ∀ y, y ≠ x → update qm.fragSize x
      (qm.fragSize x + (qm.fragSize n + fragOverhead)) y = qm.fragSize y :=
    fun y hy => update_of_ne hy ..
  have hself : update qm.fragSize x (qm.fragSize x + (qm.fragSize n + fragOverhead)) x =
      qm.fragSize x + fragOverhead + qm.fragSize n := by
    rw [update_self]
    omega
  refine ⟨l1, l2, hl, hwalk, m1 ++ x :: m2, ?_, hok.first, hok.fits, ?_, ?_, ?_, hok.nodup, ?_⟩
  · exact hok.tiles.join (by decide) hself hother
  · refine hlists.congr hlists.links ?_ rfl rfl
    intro h y hy
    refine hother y ?_
    rintro rfl
    exact hok.apart y hx h ((hmem h y).1 hy).1
  · intro y
    have hnodup := hok.tiles.nodup (by decide)
    rw [append_cons, nodup_middle, nodup_cons, ← append_cons] at hnodup
    have hfrag : y ∈ m1 ++ x :: n :: m2 ↔ y = n ∨ y ∈ m1 ++ x :: m2 := by
      rw [append_cons, perm_middle.mem_iff, mem_cons, ← append_cons]
    have hold := hfrag.symm.trans (hok.frag y)
    simp only [hmem]
    rcases eq_or_ne y n with rfl | hne
    · simp [hnodup.1, hnt]
    · simpa [hne] using hold
  · exact fun y hy h hyf => hok.apart y hy h ((hmem h y).1 hyf).1
  · intro y hy
    have hyl : y ∉ l1 := fun hmem => hok.apart y hy _ (hl ▸ mem_append_left _ hmem)
    exact (Links.next_set_after _ _ hyl _).trans (hok.marked y hy)

/-! ### The calls -/

theorem perm {taken'} (hperm : taken.Perm taken') : HeapOk qm frags f taken' where
  tiles := hok.tiles
  first := hok.first
  fits := hok.fits
  lists := hok.lists
  frag x := by rw [hok.frag, hperm.mem_iff]
  apart x hx := hok.apart x (hperm.mem_iff.2 hx)
  nodup := hperm.nodup_iff.1 hok.nodup
  marked x hx := hok.marked x (hperm.mem_iff.2 hx)

/-- `fm_malloc` finds nothing when no free fragment is big enough, or takes one that is. -/
theorem malloc (size : Nat) : fmMalloc size qm = (qm, 0) ∧ (∀ h, ∀ x ∈ f h, qm.fragSize x < roundup size) ∨
      ∃ qm' x frags' f', fmMalloc size qm = (qm', x + fragOverhead) ∧
        HeapOk qm' frags' f' (x :: taken) ∧ roundup size ≤ qm'.fragSize x := by
  cases hsearch : fmSearch (roundup size) qm with
  | none =>
    refine .inl ⟨by simp only [fmMalloc, hsearch], fun h x hx => hok.lists.search_none hsearch hx ?_⟩
    have hend := (hok.tiles.bounds (hok.mem_free hx)).2
    have hfits := hok.fits
    have hover : fragOverhead = 16 := rfl
    rw [← hok.lists.bucket h x hx]
    exact getHash_lt (by omega)
  | some found =>
    obtain ⟨h, r⟩ := found
    obtain ⟨l1, x, l2, hl, rfl, hsize⟩ := hok.lists.search (dvd_roundup) hsearch
    have hget := hok.lists.links.get_after hl
    obtain ⟨frags', f', hok', hle⟩ := (hok.take hl).split (mem_cons_self ..) hsize
    right
    simp only [fmMalloc, hsearch, hget]
    exact ⟨_, x, frags', f', rfl, hok'.stats _ _ _, hle⟩

theorem free (hx : x ∈ taken) : ∃ f', HeapOk (fmFree (x + fragOverhead) qm) frags f' (taken.erase x) := by
  have hp : x + fragOverhead ≠ 0 := Nat.succ_ne_zero _
  simp only [fmFree, hp, if_false, Nat.add_sub_cancel]
  exact (hok.stats _ _ qm.maxRealUsed).release hx

theorem shrink (hx : x ∈ taken) (hsize : size ≤ qm.fragSize x) :
    ∃ frags' f', HeapOk (fmShrink x size qm) frags' f' taken := by
  obtain ⟨frags', f', hok', -⟩ := hok.split hx hsize
  exact ⟨frags', f', hok'.stats _ _ _⟩

/-- The search for the fragment to join with does not fail. -/
theorem grow (hx : x ∈ taken) (hn : n = qm.fragNext x) (hlast : n < qm.lastFrag) (hfree : qm.links.next n ≠ 0) {size} :
    ∃ qm' frags' f', fmJoin x n size qm = some qm' ∧ HeapOk qm' frags' f' taken := by
  obtain ⟨l1, l2, hl, hwalk, frags', hok'⟩ := hok.join hx hn hlast hfree
  have hget : qm.links.get (after (getHash (qm.fragSize n)) l1) = n := hok.lists.links.get_after hl
  have hn0 : n ≠ 0 := by
    rintro rfl
    exact hok.lists.links.nonnull _ (hl ▸ mem_append_right _ (mem_cons_self ..))
  have hjoined := hok'.stats qm.used (qm.realUsed - fragOverhead) qm.maxRealUsed
  simp only [fmJoin, hwalk, hget, hn0, if_false]
  split_ifs with hlt
  · obtain ⟨frags'', f'', hok'', -⟩ := hjoined.split hx (Nat.le_of_lt hlt)
    exact ⟨_, frags'', f'', rfl, hok''.stats _ _ _⟩
  · exact ⟨_, frags', _, rfl, hjoined.stats _ _ _⟩

/-- `fm_realloc` of a taken fragment fails and changes nothing, or leaves another one in its place. -/
theorem realloc (hx : x ∈ taken) (hsize : size ≠ 0) : fmRealloc (x + fragOverhead) size qm = some (qm, 0) ∨
      ∃ qm' y frags' f', fmRealloc (x + fragOverhead) size qm = some (qm', y + fragOverhead) ∧
        HeapOk qm' frags' f' (y :: taken.erase x) := by
  have hp : x + fragOverhead ≠ 0 := Nat.succ_ne_zero _
  have hsame := perm_cons_erase hx
  simp only [fmRealloc, hsize, hp, if_false, Nat.add_sub_cancel]
  split_ifs with hless hmore hjoin hptr
  · obtain ⟨frags', f', hok'⟩ := hok.shrink hx (Nat.le_of_lt hless)
    exact .inr ⟨_, x, frags', f', rfl, hok'.perm hsame⟩
  · obtain ⟨qm', frags', f', hgrow, hok'⟩ := hok.grow hx rfl hjoin.1 hjoin.2.1
    exact .inr ⟨qm', x, frags', f', by rw [hgrow]; rfl, hok'.perm hsame⟩
  · rcases hok.malloc (roundup size) with ⟨hmalloc, -⟩ | ⟨qm', y, frags', f', hmalloc, hok', -⟩
    · exact absurd (congrArg Prod.snd hmalloc) hptr
    · obtain ⟨f'', hok''⟩ := hok'.free (mem_cons_of_mem y hx)
      have hyx : y ≠ x := by
        rintro rfl
        exact (nodup_cons.1 hok'.nodup).1 hx
      rw [erase_cons_tail (by simpa using hyx)] at hok''
      exact .inr ⟨_, y, frags', f'', by rw [hmalloc], hok''⟩
  · rcases hok.malloc (roundup size) with ⟨hmalloc, -⟩ | ⟨qm', y, frags', f', hmalloc, hok', -⟩
    · exact .inl (by rw [hmalloc])
    · refine absurd ?_ hptr
      rw [hmalloc]
      exact Nat.succ_ne_zero _
  · exact .inr ⟨qm, x, frags, f, rfl, hok.perm hsame⟩

end

/-- One fragment that is put in the empty lists. -/
theorem single (hhead : ∀ h, qm.links.head h = 0) (hno : ∀ h, qm.no h = 0)
    (hbitmap : ∀ i, qm.freeBitmap i = 0) (hfirst : 0 < qm.firstFrag)
    (htile : qm.firstFrag + fragOverhead + qm.fragSize qm.firstFrag = qm.lastFrag + fragOverhead)
    (hfits : qm.lastFrag + fragOverhead ≤ 2 ^ 64) :
    ∃ f, HeapOk (fmInsertFree qm.firstFrag qm) [qm.firstFrag] f [] := by
  have hempty : FreeLists qm fun _ => [] := by
    refine ⟨⟨hhead, fun _ => not_mem_nil, fun _ => nodup_nil, by simp⟩, by simp, fun _ _ => List.Pairwise.nil, hno, ?_⟩
    simp [fmBmpIsSet, hbitmap]
  obtain ⟨f, hlists, hmem, -⟩ := hempty.insert hfirst.ne' fun _ => not_mem_nil
  refine ⟨f, ⟨rfl, htile⟩, hfirst, hfits, hlists, ?_, by simp, nodup_nil, by simp⟩
  intro x
  simp [hmem]

/-- `fm_malloc_init` leaves one free fragment. -/
theorem init {links fragSize address}
    (hinit : fmMallocInit links fragSize address size = some qm) (hmem : address + size ≤ 2 ^ 64) :
    ∃ f, HeapOk qm [qm.firstFrag] f [] := by
  have hblock : roundup fmBlockSize = 33896 := by decide
  have hinitOverhead : initOverhead = 33912 := by decide
  have hover : fragOverhead = 16 := rfl
  unfold fmMallocInit at hinit
  extract_lets start size1 size2 firstFrag lastFrag at hinit
  split_ifs at hinit with hstart hmin hroom
  obtain rfl := Option.some.inj hinit
  have hfirst : firstFrag = start + roundup fmBlockSize := rfl
  have hlast : lastFrag = start + size2 - fragOverhead := rfl
  have hround : size2 ≤ size1 := Nat.div_mul_le_self ..
  have hsize1 : size1 = size - (start - address) := rfl
  -- a fragment without memory has its header where `last_frag` is
  have hsize : update (update fragSize firstFrag (size2 - initOverhead)) lastFrag 0 firstFrag =
      size2 - initOverhead := by
    rcases eq_or_ne firstFrag lastFrag with heq | hne
    · rw [heq, update_self]
      omega
    · rw [update_of_ne hne, update_self]
  refine single (fun _ => rfl) (fun _ => rfl) (fun _ => rfl) ?_ ?_ ?_
  · show 0 < firstFrag
    omega
  · refine (congrArg (firstFrag + fragOverhead + ·) hsize).trans ?_
    show firstFrag + fragOverhead + (size2 - initOverhead) = lastFrag + fragOverhead
    omega
  · show lastFrag + fragOverhead ≤ 2 ^ 64
    omega

end HeapOk

end SipRouter.Mem
