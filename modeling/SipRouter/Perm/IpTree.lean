import SipRouter.Lib.BitTrie

/-!
# Trees of networks (`modules/permissions/ip_tree.c`)

A leaf has the bits that all its networks go on with, as bytes and a number of bits. If it
has no next leaves then it is a network, and otherwise the next bit of the address decides
where to go on. Addresses and leaves are read bit by bit with a pointer to a byte and a
mask, and so are the bytes of new leaves written.
-/

namespace SipRouter.Perm

/-- A place in a byte string: a byte of it and the mask of a bit. -/
structure Cursor where
  byte : Nat
  mask : UInt8

namespace Cursor

def start : Cursor := ⟨0, 0x80⟩

def next (c : Cursor) : Cursor := if c.mask = 0x01 then ⟨c.byte + 1, 0x80⟩ else ⟨c.byte, c.mask / 2⟩

end Cursor

/-- `(*p & mask) != 0`. -/
def bitAt (s : List UInt8) (c : Cursor) : Bool := s.getD c.byte 0 &&& c.mask != 0

/-- `struct ip_tree_leaf`, or a null pointer to it. -/
inductive Leaf where
  | null
  | leaf (prefixMatchLen : Nat) (next0 next1 : Leaf) (prefixMatch : List UInt8)

/-- What `ip_tree_find_ip` returns. -/
inductive Ret where
  | notFound
  | found
  | foundUpperSet
  deriving DecidableEq

def Ret.value : Ret → Int
  | .notFound => 0
  | .found => 1
  | .foundUpperSet => 2

/-- The cursors of `struct ip_tree_find`. -/
structure Compare where
  ip : Cursor
  ipLen : Nat
  leafPrefixMatch : Cursor
  leafPrefixMatchLen : Nat

/-- `struct ip_tree_find`. The leaf is given by the way to it from the root. -/
structure Find extends Compare where
  path : List Bool
  leaf : Leaf

/-- How the comparison with the bits of a leaf ends. -/
inductive Matched where
  | differs
  | ipEnds
  | leafEnds

/-- The loop over the bits of a leaf: as many as the first argument are left. -/
def matchLoop (ip prefixMatch : List UInt8) : Nat → Compare → Matched × Compare
  | 0, h => (.leafEnds, h)
  | left + 1, h =>
    if bitAt ip h.ip != bitAt prefixMatch h.leafPrefixMatch then (.differs, h)
    else
      let h := { h with leafPrefixMatchLen := h.leafPrefixMatchLen + 1, ipLen := h.ipLen - 1 }
      if h.ipLen = 0 then (.ipEnds, h)
      else matchLoop ip prefixMatch left { h with ip := h.ip.next, leafPrefixMatch := h.leafPrefixMatch.next }

/-- `ip_tree_find_ip` from a leaf on. -/
def findFrom (ip : List UInt8) : Leaf → Cursor → Nat → Ret × Find
  | .null, c, ipLen => (.found, ⟨⟨c, ipLen, .start, 0⟩, [], .null⟩)
  | .leaf prefixMatchLen next0 next1 prefixMatch, c, ipLen =>
    let leaf := Leaf.leaf prefixMatchLen next0 next1 prefixMatch
    if ipLen = 0 then (.foundUpperSet, ⟨⟨c, ipLen, .start, 0⟩, [], leaf⟩)
    else
      let r := matchLoop ip prefixMatch prefixMatchLen ⟨c, ipLen, .start, 0⟩
      match r.1 with
      | .differs => (.notFound, ⟨r.2, [], leaf⟩)
      | .ipEnds => (.foundUpperSet, ⟨r.2, [], leaf⟩)
      | .leafEnds =>
        let bit := bitAt ip r.2.ip
        let rest := match bit with
          | false => findFrom ip next0 r.2.ip.next (r.2.ipLen - 1)
          | true => findFrom ip next1 r.2.ip.next (r.2.ipLen - 1)
        (rest.1, { rest.2 with path := bit :: rest.2.path })

/-- `ip_tree_find_ip`. -/
def ipTreeFindIp (tree : Leaf) (ip : List UInt8) (ipLen : Nat) : Ret × Find :=
  match tree with
  | .null => (.notFound, ⟨⟨.start, ipLen, .start, 0⟩, [], .null⟩)
  | tree => findFrom ip tree .start ipLen

/-- The leaf at the end of a way is changed. -/
def Leaf.modify (f : Leaf → Leaf) : List Bool → Leaf → Leaf
  | [], l => f l
  | _ :: _, .null => .null
  | false :: path, .leaf len next0 next1 pm => .leaf len (modify f path next0) next1 pm
  | true :: path, .leaf len next0 next1 pm => .leaf len next0 (modify f path next1) pm

/-- A bit is written at a cursor: its byte is cleared at the first bit. -/
def putBit (out : List UInt8) (c : Cursor) (bit : Bool) : List UInt8 :=
  let out := if c.mask = 0x80 then out ++ [0x00] else out
  if bit then out.modify c.byte (· ||| c.mask) else out

/-- The bits behind a cursor are copied. -/
def copyBits (src : List UInt8) : Nat → Cursor → List UInt8 → Cursor → List UInt8
  | 0, _, out, _ => out
  | n + 1, c, out, d => copyBits src n c.next (putBit out d (bitAt src c.next)) d.next

/-- All subleaves are deleted, and the prefix match is reduced. -/
def reduce (h : Compare) : Leaf → Leaf
  | .null => .null
  | .leaf _ _ _ pm => .leaf h.leafPrefixMatchLen .null .null pm

/-- A leaf is split into two leaves at the bit that does not match. -/
def split (ip : List UInt8) (h : Compare) : Leaf → Leaf
  | .null => .null
  | .leaf len next0 next1 pm =>
    let n := h.ipLen - 1
    let l1 := Leaf.leaf n .null .null (copyBits ip n h.ip [] .start)
    let n := len - h.leafPrefixMatchLen - 1
    let l0 := Leaf.leaf n next0 next1 (copyBits pm n h.leafPrefixMatch [] .start)
    let i := bitAt pm h.leafPrefixMatch
    .leaf h.leafPrefixMatchLen (if i then l1 else l0) (if i then l0 else l1) pm

/-- The first leaf of a tree. -/
def firstLeaf (ip : List UInt8) (ipLen : Nat) : Leaf :=
  .leaf ipLen .null .null (if 0 < ipLen then ip.take ((ipLen - 1) / 8 + 1) else [])

/-- The switch of `ip_tree_add_ip`, with memory for new leaves. -/
def addAt (tree : Leaf) (ip : List UInt8) (ipLen : Nat) (r : Ret × Find) : Leaf :=
  match r.1 with
  | .foundUpperSet => tree.modify (reduce r.2.toCompare) r.2.path
  | .found => tree
  | .notFound =>
    match r.2.leaf with
    | .null => firstLeaf ip ipLen
    | .leaf .. => tree.modify (split ip r.2.toCompare) r.2.path

/-- `ip_tree_add_ip`. -/
def ipTreeAddIp (tree : Leaf) (ip : List UInt8) (ipLen : Nat) : Ret × Leaf :=
  let r := ipTreeFindIp tree ip ipLen
  (r.1, addAt tree ip ipLen r)

end SipRouter.Perm
