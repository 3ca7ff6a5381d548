import SipRouter.Mem.Heap

/-!
# Calls of the fast allocator

A program calls `fm_malloc`, `fm_free` and `fm_realloc` in any order and with any sizes; it gives
back only blocks it has been given. The heap then keeps its shape, and no call aborts
(`fm_heap_ok`).
-/

namespace SipRouter.Mem

open Lib Linked List Option

/-- The heap and the blocks in the hands of its users, by the pointers they were given. -/
structure FmHeap where
  qm : FmBlock
  live : List Nat

inductive FmCall where
  | malloc (size : Nat)
  | free (p : Nat)
  | realloc (p size : Nat)

namespace FmHeap

/-- The memory of a block. -/
def blockSize (s : FmHeap) (p : Nat) : Nat := s.qm.fragSize (p - fragOverhead)

/-- A call, `none` if it aborts. A block that could not be moved stays with its user. -/
def call (s : FmHeap) : FmCall → Option FmHeap
  | .malloc size =>
    let (qm, ptr) := fmMalloc size s.qm
    some { qm, live := if ptr = 0 then s.live else ptr :: s.live }
  | .free p => some { qm := fmFree p s.qm, live := s.live.erase p }
  | .realloc p size =>
    (fmRealloc p size s.qm).map fun (qm, ptr) =>
      { qm
        live := if size = 0 then s.live.erase p
          else if ptr = 0 then s.live
          else ptr :: s.live.erase p }

def run (s : FmHeap) (calls : List FmCall) : Option FmHeap := calls.foldlM call s

/-- The pointer of a call is a live block or null. -/
def legalCall (s : FmHeap) : FmCall → Bool
  | .malloc _ => true
  | .free p => p == 0 || s.live.contains p
  | .realloc p _ => p == 0 || s.live.contains p

/-- Each call of a run is legal when it is made. -/
def legal (s : FmHeap) : List FmCall → Bool
  | [] => true
  | c :: calls => s.legalCall c && ((s.call c).elim true fun s => s.legal calls)

/-- The users have the taken fragments. -/
def Ok (s : FmHeap) : Prop := ∃ frags f taken, HeapOk s.qm frags f taken ∧ s.live = taken.map (· + fragOverhead)

/-! ## A call -/

section Call

variable {s : FmHeap} {qm : FmBlock} {frags taken : List Nat} {f : Nat → List Nat}

theorem map_erase_frag (x : Nat) :
    (taken.map (· + fragOverhead)).erase (x + fragOverhead) = (taken.erase x).map (· + fragOverhead) :=
  (map_erase (fun _ _ heq => Nat.add_right_cancel heq) taken).symm

theorem null_notMem : 0 ∉ taken.map (· + fragOverhead) := by
  simp [fragOverhead]

theorem ok_malloc (h : s.Ok) (size : Nat) : ∃ s', s.call (.malloc size) = some s' ∧ s'.Ok := by
  obtain ⟨frags, f, taken, hok, hlive⟩ := h
  rcases hok.malloc size with ⟨hmalloc, -⟩ | ⟨qm', x, frags', f', hmalloc, hok', -⟩
  · exact ⟨s, by simp [call, hmalloc], frags, f, taken, hok, hlive⟩
  · refine ⟨⟨qm', (x + fragOverhead) :: s.live⟩, ?_, frags', f', x :: taken, hok',
      congrArg ((x + fragOverhead) :: ·) hlive⟩
    have hptr : x + fragOverhead ≠ 0 := Nat.succ_ne_zero _
    simp only [call, hmalloc, if_neg hptr]

theorem ok_free (h : s.Ok) {p} (hp : p = 0 ∨ p ∈ s.live) : Ok { qm := fmFree p s.qm, live := s.live.erase p } := by
  obtain ⟨frags, f, taken, hok, hlive⟩ := h
  rw [hlive] at hp ⊢
  rcases hp with rfl | hp
  · rw [erase_of_not_mem (null_notMem)]
    exact ⟨frags, f, taken, hok, rfl⟩
  · obtain ⟨x, hx, rfl⟩ := mem_map.1 hp
    obtain ⟨f', hok'⟩ := hok.free hx
    exact ⟨frags, f', taken.erase x, hok', map_erase_frag x⟩

theorem ok_realloc (h : s.Ok) {p} (hp : p = 0 ∨ p ∈ s.live) (size : Nat) :
    ∃ s', s.call (.realloc p size) = some s' ∧ s'.Ok := by
  rcases Nat.eq_zero_or_pos size with rfl | hsize
  · -- the same as `fm_free`
    refine ⟨_, ?_, ok_free h hp⟩
    have hfree : fmRealloc p 0 s.qm = some (fmFree p s.qm, 0) := by
      rcases eq_or_ne p 0 with rfl | hp0
      · rfl
      · simp [fmRealloc, hp0]
    simp [call, hfree]
  · have hsize' : size ≠ 0 := hsize.ne'
    rcases eq_or_ne p 0 with rfl | hp0
    · -- the same as `fm_malloc`
      obtain ⟨s', hcall, hok⟩ := ok_malloc h size
      refine ⟨s', ?_, hok⟩
      obtain ⟨frags, f, taken, -, hlive⟩ := h
      have herase := erase_of_not_mem (hlive ▸ null_notMem)
      rw [← hcall]
      simp [call, fmRealloc, hsize', herase]
    · obtain ⟨frags, f, taken, hok, hlive⟩ := h
      rw [hlive] at hp
      obtain ⟨x, hx, rfl⟩ := mem_map.1 (hp.resolve_left hp0)
      rcases hok.realloc hx hsize' with hrealloc | ⟨qm', y, frags', f', hrealloc, hok'⟩
      · exact ⟨s, by simp [call, hrealloc, hsize'], frags, f, taken, hok, hlive⟩
      · refine ⟨⟨qm', (y + fragOverhead) :: s.live.erase (x + fragOverhead)⟩, ?_, frags', f',
          y :: taken.erase x, hok', ?_⟩
        · have hptr : y + fragOverhead ≠ 0 := Nat.succ_ne_zero _
          simp only [call, hrealloc, map_some, if_neg hsize', if_neg hptr]
        · rw [hlive, map_erase_frag]
          rfl

end Call

variable {s : FmHeap} {f : Nat → List Nat}

/-- Every legal call returns, and keeps the shape of the heap. -/
theorem ok_call (h : s.Ok) {c} (hc : s.legalCall c = true) : ∃ s', s.call c = some s' ∧ s'.Ok := by
  cases c with
  | malloc size => exact ok_malloc h size
  | free p => exact ⟨_, rfl, ok_free h (by simpa [legalCall] using hc)⟩
  | realloc p size => exact ok_realloc h (by simpa [legalCall] using hc) size

/-- So does every run, by induction on its calls. -/
theorem ok_run (h : s.Ok) {calls} (hc : s.legal calls = true) : ∃ s', s.run calls = some s' ∧ s'.Ok := by
  induction calls generalizing s with
  | nil => exact ⟨s, rfl, h⟩
  | cons c calls ih =>
    obtain ⟨hlegal, hrest⟩ := Bool.and_eq_true_iff.1 hc
    obtain ⟨s1, hcall, h1⟩ := ok_call h hlegal
    rw [hcall] at hrest
    obtain ⟨s2, hrun, h2⟩ := ih h1 hrest
    refine ⟨s2, ?_, h2⟩
    rw [run, foldlM_cons, hcall]
    exact hrun

/-! ## What the shape of the heap says of the blocks -/

/-- The fragments tile the heap from `first_frag` to an end, each live block is the memory of one of them and no two
overlap, and the free lists have the fragments that are not live, as `FreeLists` says. -/
def Shape (s : FmHeap) (limit : Nat) : Prop :=
  ∃ frags free, Tiles fragOverhead s.qm.fragSize s.qm.firstFrag frags limit ∧
    s.live.Nodup ∧ (∀ p ∈ s.live, ∃ x ∈ frags, p = x + fragOverhead) ∧
    (∀ p ∈ s.live, ∀ q ∈ s.live, p ≠ q → p + s.blockSize p ≤ q ∨ q + s.blockSize q ≤ p) ∧
    (∀ x, (∃ h, x ∈ free h) ↔ x ∈ frags ∧ x + fragOverhead ∉ s.live) ∧
    FreeLists s.qm free

/-- The blocks of users do not overlap. -/
theorem blocks_apart {frags taken} (hok : HeapOk s.qm frags f taken)
    (hlive : s.live = taken.map (· + fragOverhead)) {p q}
    (hp : p ∈ s.live) (hq : q ∈ s.live) (hne : p ≠ q) : p + s.blockSize p ≤ q ∨ q + s.blockSize q ≤ p := by
  rw [hlive] at hp hq
  obtain ⟨x, hx, rfl⟩ := mem_map.1 hp
  obtain ⟨y, hy, rfl⟩ := mem_map.1 hq
  have hxy : x ≠ y := fun heq => hne (congrArg (· + fragOverhead) heq)
  have hapart := hok.tiles.apart (hok.mem_taken hx) (hok.mem_taken hy) hxy
  simp only [blockSize, Nat.add_sub_cancel]
  omega

/-- The fragments in the lists are those that no user has. -/
theorem free_iff {frags taken} (hok : HeapOk s.qm frags f taken)
    (hlive : s.live = taken.map (· + fragOverhead)) (x : Nat) :
    (∃ h, x ∈ f h) ↔ x ∈ frags ∧ x + fragOverhead ∉ s.live := by
  have hmem : x + fragOverhead ∈ s.live ↔ x ∈ taken := by simp [hlive]
  rw [hmem, hok.frag]
  constructor
  · rintro ⟨h, hx⟩
    exact ⟨.inr ⟨h, hx⟩, fun ht => hok.apart x ht h hx⟩
  · rintro ⟨hx, ht⟩
    exact hx.resolve_left ht

theorem Ok.shape (h : s.Ok) : s.Shape (s.qm.lastFrag + fragOverhead) := by
  obtain ⟨frags, f, taken, hok, hlive⟩ := h
  refine ⟨frags, f, hok.tiles, ?_, ?_, ?_, free_iff hok hlive, hok.lists⟩
  · rw [hlive]
    exact hok.nodup.map fun _ _ heq => Nat.add_right_cancel heq
  · intro p hp
    rw [hlive] at hp
    obtain ⟨x, hx, rfl⟩ := mem_map.1 hp
    exact ⟨x, hok.mem_taken hx, rfl⟩
  · exact fun p hp q hq hne => blocks_apart hok hlive hp hq hne

/-- The heap ends at one place: the free lists and the live blocks say which fragments there are. -/
theorem Shape.limit_le {limit limit'} (h : s.Shape limit) (h' : s.Shape limit') : limit ≤ limit' := by
  obtain ⟨frags, free, htiles, -, -, -, hfree, hlists⟩ := h
  obtain ⟨frags', free', htiles', -, hlive', -, hfree', hlists'⟩ := h'
  obtain rfl := hlists.links.unique hlists'.links
  refine htiles.le_of_subset htiles' fun x hx => ?_
  by_cases hlive : x + fragOverhead ∈ s.live
  · obtain ⟨y, hy, heq⟩ := hlive' _ hlive
    exact Nat.add_right_cancel heq ▸ hy
  · exact ((hfree' x).1 ((hfree x).2 ⟨hx, hlive⟩)).1

end FmHeap

/-- A small heap, at address 4096. -/
def smallHeap : Option FmBlock := fmMallocInit ⟨fun _ => 0, fun _ => 0⟩ (fun _ => 0) 4096 40000

/-- Blocks are taken and given back, and the first is joined with the one behind it. -/
def joinedCalls : List FmCall :=
  [.malloc 100, .malloc 50, .malloc 20, .malloc 50, .free 38240, .free 38128, .realloc 38008 150]

/-- After `fm_malloc_init` and any legal calls, none of which aborts, the heap has its shape, but its end is not
`last_frag`: it is behind the header that is there. -/
theorem fm_heap_ok {links : Links Nat} {fragSize : Nat → Nat} {address size : Nat} {qm : FmBlock}
    (hinit : fmMallocInit links fragSize address size = some qm) (hmem : address + size ≤ 2 ^ 64)
    (calls : List FmCall) (hlegal : FmHeap.legal ⟨qm, []⟩ calls = true) :
    ∃ s, FmHeap.run ⟨qm, []⟩ calls = some s ∧ s.Shape (s.qm.lastFrag + fragOverhead) ∧ ¬ s.Shape s.qm.lastFrag := by
  obtain ⟨f₀, hok₀⟩ := HeapOk.init hinit hmem
  have hstart : FmHeap.Ok ⟨qm, []⟩ := ⟨_, f₀, [], hok₀, rfl⟩
  obtain ⟨s, hrun, hok⟩ := FmHeap.ok_run hstart hlegal
  refine ⟨s, hrun, hok.shape, ?_⟩
  intro hshape
  have hle := hok.shape.limit_le hshape
  simp only [fragOverhead] at hle
  omega

theorem fm_heap_ok_joined :
    ∃ qm, smallHeap = some qm ∧ FmHeap.legal ⟨qm, []⟩ joinedCalls = true ∧
      ∃ s, FmHeap.run ⟨qm, []⟩ joinedCalls = some s ∧ s.live = [38008, 38200] ∧ s.blockSize 38008 = 176 ∧
        s.Shape (s.qm.lastFrag + fragOverhead) ∧ ¬ s.Shape s.qm.lastFrag := by
  have hlegal : smallHeap.any (fun qm => FmHeap.legal ⟨qm, []⟩ joinedCalls) = true := by decide +kernel
  have hlive : (smallHeap.bind fun qm => (FmHeap.run ⟨qm, []⟩ joinedCalls).map
      fun s => (s.live, s.blockSize 38008)) = some ([38008, 38200], 176) := by decide +kernel
  obtain ⟨qm, hqm⟩ : ∃ qm, smallHeap = some qm := ⟨_, rfl⟩
  rw [hqm, any_some] at hlegal
  obtain ⟨s, hrun, hshape⟩ := fm_heap_ok hqm (by decide) joinedCalls hlegal
  rw [hqm, bind_some, hrun] at hlive
  obtain ⟨hl, hsize⟩ := Prod.mk.inj (Option.some.inj hlive)
  exact ⟨qm, hqm, hlegal, s, hrun, hl, hsize, hshape⟩

/-- The first fragment goes beyond `last_frag` when the heap has just been made, so no fragments tile the heap from
`first_frag` to `last_frag`. -/
theorem fragments_pass_last_frag :
    ∃ qm, smallHeap = some qm ∧ ∀ frags, ¬ Tiles fragOverhead qm.fragSize qm.firstFrag frags qm.lastFrag := by
  have hheap : smallHeap.map (fun qm => (qm.firstFrag, qm.lastFrag, qm.fragSize 37992)) =
      some (37992, 44080, 6088) := by decide +kernel
  obtain ⟨qm, hqm, heq⟩ := map_eq_some_iff.1 hheap
  simp only [Prod.mk.injEq] at heq
  obtain ⟨hfirst, hlast, hsize⟩ := heq
  refine ⟨qm, hqm, ?_⟩
  intro frags htiles
  cases frags with
  | nil =>
    have hend : qm.firstFrag = qm.lastFrag := htiles
    omega
  | cons x frags =>
    obtain ⟨rfl, hrest⟩ := Tiles.cons.1 htiles
    have hle := hrest.le
    rw [hfirst, hsize, hlast] at hle
    exact absurd hle (by decide)

/-- A block that `fm_malloc` returns has the size asked for exactly if the size is not so near to
the end of its type that rounding it up wraps; and null is returned only if no free fragment has the
rounded size. `fm_bmp_first_set` finds the first bit that is set. -/
theorem fm_malloc_sound_complete {links : Links Nat} {fragSize : Nat → Nat} {address total : Nat} {qm : FmBlock}
    (hinit : fmMallocInit links fragSize address total = some qm) (hmem : address + total ≤ 2 ^ 64)
    (calls : List FmCall) (hlegal : FmHeap.legal ⟨qm, []⟩ calls = true) {size : Nat} (hsize : size < 2 ^ 64) :
    (∀ bm start, IsFirst bm start (fmBmpFirstSet bm start)) ∧
    ∃ s, FmHeap.run ⟨qm, []⟩ calls = some s ∧
      let r := fmMalloc size s.qm
      (r.2 ≠ 0 → (size ≤ r.1.fragSize (r.2 - fragOverhead) ↔ size + 7 < 2 ^ 64)) ∧
      ∃ frags, Tiles fragOverhead s.qm.fragSize s.qm.firstFrag frags (s.qm.lastFrag + fragOverhead) ∧
        (r.2 = 0 → ∀ x ∈ frags, x + fragOverhead ∉ s.live → s.qm.fragSize x < roundup size) := by
  obtain ⟨f₀, hok₀⟩ := HeapOk.init hinit hmem
  obtain ⟨s, hrun, frags, f, taken, hok, hlive⟩ := FmHeap.ok_run ⟨_, f₀, [], hok₀, rfl⟩ hlegal
  refine ⟨fmBmpFirstSet_isFirst, s, hrun, ?_⟩
  rcases hok.malloc size with ⟨hmalloc, hnone⟩ | ⟨qm', x, frags', f', hmalloc, hok', hle⟩ <;> rw [hmalloc]
  · refine ⟨fun hne => absurd rfl hne, frags, hok.tiles, fun _ x hx hfree => ?_⟩
    obtain ⟨h, hxf⟩ := (FmHeap.free_iff hok hlive x).2 ⟨hx, hfree⟩
    exact hnone h x hxf
  · refine ⟨fun _ => ?_, frags, hok.tiles, fun heq => absurd heq (Nat.succ_ne_zero _)⟩
    have hend := (hok'.tiles.bounds (hok'.mem_taken mem_cons_self)).2
    have hfits := hok'.fits
    simp only [Nat.add_sub_cancel]
    simp only [roundup, roundto, fragOverhead] at *
    omega

theorem fm_malloc_sound_complete_first : ∃ qm, smallHeap = some qm ∧ (fmMalloc 100 qm).2 = 38008 ∧
    100 ≤ (fmMalloc 100 qm).1.fragSize 37992 := by
  have hptr : smallHeap.map (fun qm => (fmMalloc 100 qm).2) = some 38008 := by decide +kernel
  obtain ⟨qm, hqm, heq⟩ := map_eq_some_iff.1 hptr
  obtain ⟨-, s, hrun, hblock, -⟩ := fm_malloc_sound_complete hqm (by decide) [] rfl (show 100 < 2 ^ 64 by decide)
  cases hrun
  rw [heq] at hblock
  exact ⟨qm, hqm, heq, (hblock (by decide)).2 (by decide)⟩

/-- The largest size is rounded up to 0, and a block without memory is returned. -/
theorem fm_malloc_wraps : smallHeap.map
    (fun qm => let r := fmMalloc (2 ^ 64 - 1) qm; (r.2, r.1.fragSize (r.2 - fragOverhead))) =
    some (38008, 0) := by decide +kernel

end SipRouter.Mem
