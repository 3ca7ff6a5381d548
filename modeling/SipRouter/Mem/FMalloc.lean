import SipRouter.Lib.Linked
import SipRouter.Mem.Bitmap

/-!
# The fast allocator (`f_malloc.c`)

The heap is a row of fragments, each a header and the memory behind it. Free fragments are in
`free_hash`, an array of singly linked lists: one list for each size up to 16384 in steps of 8, then
one for each power of two, sorted by size. A bitmap has a bit for each list that is not empty.

This is the code for 64 bits with `F_MALLOC_HASH_BITMAP`, `MEM_FRAG_AVOIDANCE` and
`MALLOC_STATS`, not `DBG_F_MALLOC`. An address is a number. A loop along a list is run for as many
steps as the list is long.
-/

namespace SipRouter.Mem

open Lib.Linked Function

/-- `FRAG_OVERHEAD`, the size of `struct fm_frag`. -/
def fragOverhead : Nat := 16

/-- The size of `struct fm_block`: six words, the bitmap and the lists. -/
def fmBlockSize : Nat := 6 * 8 + fmHashBmpSize * 8 + fHashSize * 16

/-- `ROUNDUP`, of an unsigned long. -/
def roundup (s : Nat) : Nat := (s + (roundto - 1)) % 2 ^ 64 / roundto * roundto

/-- `ROUNDDOWN`. -/
def rounddown (s : Nat) : Nat := s / roundto * roundto

/-- `INIT_OVERHEAD`. -/
def initOverhead : Nat := roundup fmBlockSize + fragOverhead

/-- `GET_HASH`. `bit_scan_reverse` is the index of the highest bit. -/
def getHash (s : Nat) : Nat :=
  if s ≤ fMallocOptimize then s / roundto
  else fMallocOptimize / roundto + Nat.log 2 s - fMallocOptimizeFactor + 1

/-! ## The heap -/

/-- `struct fm_block` and the headers of the fragments: `links` are the heads of the lists and
`u.nxt_free` of the fragments, `fragSize` their `size`. The counters are taken as integers. -/
structure FmBlock where
  size : Nat
  used : Int
  realUsed : Int
  maxRealUsed : Int
  firstFrag : Nat
  lastFrag : Nat
  freeBitmap : Bitmap
  no : Nat → Nat
  links : Links Nat
  fragSize : Nat → Nat

/-- `FRAG_NEXT`. -/
def FmBlock.fragNext (qm : FmBlock) (f : Nat) : Nat := f + fragOverhead + qm.fragSize f

/-- `fm_insert_free`. -/
def fmInsertFree (frag : Nat) (qm : FmBlock) : FmBlock :=
  let hash := getHash (qm.fragSize frag)
  let f : Ref Nat :=
    if fMallocOptimize < qm.fragSize frag then
      qm.links.walk (fun x => qm.fragSize frag ≤ qm.fragSize x) (qm.no hash) (.head hash)
    else .head hash
  { qm with
    links := (qm.links.set (.next frag) (qm.links.get f)).set f frag
    no := update qm.no hash (qm.no hash + 1)
    freeBitmap := fmBmpSet hash qm.freeBitmap }

/-- `fm_split_frag`. -/
def fmSplitFrag (frag size : Nat) (qm : FmBlock) : FmBlock :=
  let rest := qm.fragSize frag - size
  if fragOverhead + fMallocOptimize < rest ∨ fragOverhead + size ≤ rest then
    let qm := { qm with fragSize := update qm.fragSize frag size }
    let n := qm.fragNext frag
    let qm := { qm with
      fragSize := update qm.fragSize n (rest - fragOverhead)
      realUsed := qm.realUsed + fragOverhead }
    fmInsertFree n qm
  else qm

/-- `fm_malloc_init`, in memory with any contents. -/
def fmMallocInit (links : Links Nat) (fragSize : Nat → Nat) (address size : Nat) : Option FmBlock :=
  let start := roundup address
  if size < start - address then none
  else
    let size := size - (start - address)
    if size < roundto + fragOverhead then none
    else
      let size := rounddown size
      if size < initOverhead then none
      else
        let firstFrag := start + roundup fmBlockSize
        let lastFrag := start + size - fragOverhead
        some (fmInsertFree firstFrag {
          size := size
          used := 0
          realUsed := initOverhead
          maxRealUsed := initOverhead
          firstFrag := firstFrag
          lastFrag := lastFrag
          freeBitmap := fun _ => 0
          no := fun _ => 0
          links := { links with head := fun _ => 0 }
          fragSize := update (update fragSize firstFrag (size - initOverhead)) lastFrag 0 })

/-- Taking the fragment at `f` off its list, as `fm_malloc` and `fm_realloc` do. -/
def fmDetach (hash : Nat) (f : Ref Nat) (qm : FmBlock) : FmBlock :=
  { qm with
    links := qm.links.set f (qm.links.next (qm.links.get f))
    no := update qm.no hash (qm.no hash - 1)
    freeBitmap := if qm.no hash - 1 = 0 then fmBmpReset hash qm.freeBitmap else qm.freeBitmap }

/-- The search of `fm_malloc` for a big fragment, in the lists from `hash` on. -/
def fmSearchBig (size : Nat) (qm : FmBlock) (hash : Nat) : Option (Nat × Ref Nat) :=
  let f := qm.links.walk (fun x => size ≤ qm.fragSize x) (qm.no hash) (.head hash)
  if qm.links.get f ≠ 0 then some (hash, f)
  else if hash + 1 < fHashSize then
    match hnext : fmBmpFirstSet qm.freeBitmap (hash + 1) with
    | some next =>
      have _hlt : hash < next := le_fmBmpFirstSet hnext
      fmSearchBig size qm next
    | none => none
  else none
termination_by fHashSize - hash
decreasing_by omega

/-- The search of `fm_malloc`: the list and the place of the fragment in it. -/
def fmSearch (size : Nat) (qm : FmBlock) : Option (Nat × Ref Nat) :=
  match fmBmpFirstSet qm.freeBitmap (getHash size) with
  | none => none
  | some hash => if hash ≤ fMallocOptimize / roundto then some (hash, .head hash) else fmSearchBig size qm hash

/-- `fm_malloc`, 0 if it finds nothing. -/
def fmMalloc (size : Nat) (qm : FmBlock) : FmBlock × Nat :=
  let size := roundup size
  match fmSearch size qm with
  | none => (qm, 0)
  | some (hash, f) =>
    let frag := qm.links.get f
    let qm := fmDetach hash f qm
    let qm := { qm with links := qm.links.set (.next frag) 0 }
    let qm := fmSplitFrag frag size qm
    let qm := { qm with
      realUsed := qm.realUsed + qm.fragSize frag
      used := qm.used + qm.fragSize frag }
    let qm := { qm with maxRealUsed := max qm.maxRealUsed qm.realUsed }
    (qm, frag + fragOverhead)

/-- `fm_free`. -/
def fmFree (p : Nat) (qm : FmBlock) : FmBlock :=
  if p = 0 then qm
  else
    let f := p - fragOverhead
    fmInsertFree f { qm with
      used := qm.used - qm.fragSize f
      realUsed := qm.realUsed - qm.fragSize f }

/-- The part of `fm_realloc` that makes a block smaller. -/
def fmShrink (f size : Nat) (qm : FmBlock) : FmBlock :=
  let origSize := qm.fragSize f
  let qm := fmSplitFrag f size qm
  { qm with
    realUsed := qm.realUsed - (origSize - qm.fragSize f - fragOverhead)
    used := qm.used - (origSize - qm.fragSize f) }

/-- The part of `fm_realloc` that joins a block with the free fragment `n` behind it; `none` if it is not in
its list, when the source aborts. -/
def fmJoin (f n size : Nat) (qm : FmBlock) : Option FmBlock :=
  let origSize := qm.fragSize f
  let hash := getHash (qm.fragSize n)
  let pf := qm.links.walk (fun x => x = n) (qm.no hash) (.head hash)
  if qm.links.get pf = 0 then none
  else
    let qm := fmDetach hash pf qm
    let qm := { qm with
      fragSize := update qm.fragSize f (qm.fragSize f + (qm.fragSize n + fragOverhead))
      realUsed := qm.realUsed - fragOverhead }
    let qm := if size < qm.fragSize f then fmSplitFrag f size qm else qm
    some { qm with
      realUsed := qm.realUsed + (qm.fragSize f - origSize)
      used := qm.used + (qm.fragSize f - origSize) }

/-- `fm_realloc`. The contents of the blocks are left out. -/
def fmRealloc (p size : Nat) (qm : FmBlock) : Option (FmBlock × Nat) :=
  if size = 0 then some (if p = 0 then qm else fmFree p qm, 0)
  else if p = 0 then some (fmMalloc size qm)
  else
    let f := p - fragOverhead
    let size := roundup size
    if size < qm.fragSize f then some (fmShrink f size qm, p)
    else if qm.fragSize f < size then
      let diff := size - qm.fragSize f
      let n := qm.fragNext f
      if n < qm.lastFrag ∧ qm.links.next n ≠ 0 ∧ diff ≤ qm.fragSize n + fragOverhead then
        (fmJoin f n size qm).map fun qm => (qm, p)
      else
        let (qm, ptr) := fmMalloc size qm
        some (if ptr ≠ 0 then fmFree p qm else qm, ptr)
    else some (qm, p)

end SipRouter.Mem
