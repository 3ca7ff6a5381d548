import Mathlib.Data.List.Nodup
import Mathlib.Logic.Function.Basic

/-!
# Singly linked lists in memory

`Links` are the pointers of a family of lists: the heads and, for each address, the pointer
to the next element; 0 is the null pointer. Code that inserts and removes walks with a
pointer to the pointer it has come to, a `Ref`, and reads and writes through it.

`Holds L f` says that the pointers `L` are those of the lists `f`. The loop that looks for
a place is `walk`; what it finds splits the list (`Holds.walk`), and the two writes
through the place insert there (`Holds.insert`) or remove (`Holds.remove`).
-/

namespace SipRouter.Lib.Linked

open Function List

/-- Following `next` from `p` one comes through `l` to `q`. -/
def Seg (next : Nat → Nat) : Nat → List Nat → Nat → Prop
  | p, [], q => p = q
  | p, a :: l, q => p = a ∧ Seg next (next a) l q

section Seg

variable {next next' : Nat → Nat} {p q a : Nat} {l l1 l2 : List Nat}

theorem seg_append : Seg next p (l1 ++ l2) q ↔ ∃ m, Seg next p l1 m ∧ Seg next m l2 q := by
  induction l1 generalizing p with
  | nil => simp [Seg]
  | cons a l1 ih =>
    simp only [cons_append, Seg, ih]
    constructor
    · rintro ⟨rfl, m, h1, h2⟩
      exact ⟨m, ⟨rfl, h1⟩, h2⟩
    · rintro ⟨m, ⟨rfl, h1⟩, h2⟩
      exact ⟨rfl, m, h1, h2⟩

theorem Seg.congr (h : Seg next p l q) (heq : ∀ a ∈ l, next' a = next a) : Seg next' p l q := by
  induction l generalizing p with
  | nil => exact h
  | cons a l ih =>
    obtain ⟨rfl, h⟩ := h
    refine ⟨rfl, ?_⟩
    rw [heq p (mem_cons_self ..)]
    exact ih h fun b hb => heq b (mem_cons_of_mem _ hb)

/-- A pointer that is not on the way may be written. -/
theorem Seg.update (h : Seg next p l q) (ha : a ∉ l) (v : Nat) : Seg (update next a v) p l q := by
  apply h.congr
  intro b hb
  have hne : b ≠ a := fun heq => ha (heq ▸ hb)
  exact update_of_ne hne ..

theorem Seg.eq_headD (h : Seg next p l q) : p = l.headD q := by
  cases l with
  | nil => exact h
  | cons a l => exact h.1

theorem seg_snoc : Seg next p (l ++ [a]) q ↔ Seg next p l a ∧ next a = q := by
  rw [seg_append]
  constructor
  · rintro ⟨m, h, rfl, hq⟩
    exact ⟨h, hq⟩
  · rintro ⟨h, hq⟩
    exact ⟨a, h, rfl, hq⟩

/-- The way to an address is the only one that does not go through it. -/
theorem Seg.unique (h1 : Seg next p l1 q) (h2 : Seg next p l2 q) (hq1 : q ∉ l1) (hq2 : q ∉ l2) : l1 = l2 := by
  induction l1 generalizing p l2 with
  | nil =>
    cases l2 with
    | nil => rfl
    | cons b l2 => exact absurd (h1.symm.trans h2.1 ▸ mem_cons_self) hq2
  | cons a l1 ih =>
    cases l2 with
    | nil => exact absurd (h2.symm.trans h1.1 ▸ mem_cons_self) hq1
    | cons b l2 =>
      obtain ⟨rfl, h1⟩ := h1
      obtain ⟨rfl, h2⟩ := h2
      rw [ih h1 h2 (fun hq => hq1 (mem_cons_of_mem _ hq)) fun hq => hq2 (mem_cons_of_mem _ hq)]

end Seg

variable {η : Type}

/-- The heads of the lists and the pointers of the elements. -/
structure Links (η : Type) where
  head : η → Nat
  next : Nat → Nat

/-- The address of a pointer. -/
inductive Ref (η : Type) where
  | head (h : η)
  | next (a : Nat)
  deriving DecidableEq

namespace Links

def get (L : Links η) : Ref η → Nat
  | .head h => L.head h
  | .next a => L.next a

def set [DecidableEq η] (L : Links η) (r : Ref η) (v : Nat) : Links η :=
  match r with
  | .head h => { L with head := update L.head h v }
  | .next a => { L with next := update L.next a v }

/-- Go on along a list until its end or an element to stop at, at most `n` times. -/
def walk (L : Links η) (stop : Nat → Bool) : Nat → Ref η → Ref η
  | 0, r => r
  | n + 1, r => if L.get r = 0 || stop (L.get r) then r else walk L stop n (.next (L.get r))

/-- The pointers of the lists `f`. -/
structure Holds (L : Links η) (f : η → List Nat) : Prop where
  seg : ∀ h, Seg L.next (L.head h) (f h) 0
  nonnull : ∀ h, 0 ∉ f h
  nodup : ∀ h, (f h).Nodup
  disjoint : ∀ h h', h ≠ h' → ∀ x ∈ f h, x ∉ f h'

end Links

/-- The pointer behind the elements `l` of a list. -/
def after (h : η) (l : List Nat) : Ref η :=
  match l.getLast? with
  | none => .head h
  | some a => .next a

theorem after_nil (h : η) : after h [] = .head h := rfl

theorem after_snoc (h : η) (l : List Nat) (a : Nat) : after h (l ++ [a]) = .next a := by
  simp [after]

section Holds

variable {L : Links η} {f : η → List Nat} {h : η} {l1 l2 : List Nat} {x n : Nat}

/-- The pointers are those of one family of lists. -/
theorem Links.Holds.unique {f'} (hL : L.Holds f) (hL' : L.Holds f') : f = f' :=
  funext fun h => (hL.seg h).unique (hL'.seg h) (hL.nonnull h) (hL'.nonnull h)

/-- Up to a place and from there on. -/
theorem Links.Holds.split (hL : L.Holds f) (hf : f h = l1 ++ l2) : Seg L.next (L.get (after h l1)) l2 0 := by
  have hseg := hL.seg h
  rw [hf] at hseg
  rcases eq_nil_or_concat l1 with rfl | ⟨l, a, rfl⟩
  · exact hseg
  · rw [concat_eq_append, seg_append] at hseg
    obtain ⟨m, h1, h2⟩ := hseg
    obtain ⟨-, rfl⟩ := seg_snoc.1 h1
    rw [concat_eq_append, after_snoc]
    exact h2

theorem Links.Holds.get_after (hL : L.Holds f) (hf : f h = l1 ++ l2) :
    L.get (after h l1) = l2.headD 0 :=
  (hL.split hf).eq_headD

/-- What a walk finds: it has passed elements it need not stop at, and has come to the end of the list or to
one to stop at. -/
theorem Links.Holds.walk (hL : L.Holds f) (stop : Nat → Bool) (hf : f h = l1 ++ l2) (hn : l2.length ≤ n) :
    ∃ m1 m2, l2 = m1 ++ m2 ∧ L.walk stop n (after h l1) = after h (l1 ++ m1) ∧
      (∀ y ∈ m1, stop y = false) ∧ ∀ y ∈ m2.head?, stop y = true := by
  induction n generalizing l1 l2 with
  | zero =>
    obtain rfl := eq_nil_of_length_eq_zero (Nat.le_zero.1 hn)
    exact ⟨[], [], rfl, by simp [Links.walk], nofun, nofun⟩
  | succ n ih =>
    rw [Links.walk, hL.get_after hf]
    cases l2 with
    | nil => exact ⟨[], [], rfl, by simp, nofun, nofun⟩
    | cons y l2 =>
      have hy : y ≠ 0 := by
        rintro rfl
        exact hL.nonnull h (hf ▸ mem_append_right _ (mem_cons_self ..))
      cases hstop : stop y with
      | true => exact ⟨[], y :: l2, rfl, by simp [hstop], nofun, by simpa using hstop⟩
      | false =>
        have hf' : f h = (l1 ++ [y]) ++ l2 := by rw [hf, append_assoc, singleton_append]
        obtain ⟨m1, m2, rfl, hwalk, hpass, hend⟩ := ih hf' (Nat.le_of_succ_le_succ hn)
        rw [after_snoc] at hwalk
        refine ⟨y :: m1, m2, rfl, ?_, ?_, hend⟩
        · simp [hy, hstop, hwalk]
        · intro z hz
          rcases mem_cons.1 hz with rfl | hz
          · exact hstop
          · exact hpass z hz

theorem Links.Holds.walk_head (hL : L.Holds f) (stop : Nat → Bool) (hn : (f h).length ≤ n) :
    ∃ l1 l2, f h = l1 ++ l2 ∧ L.walk stop n (.head h) = after h l1 ∧ (∀ y ∈ l1, stop y = false) ∧
      ∀ y ∈ l2.head?, stop y = true :=
  hL.walk stop (nil_append (f h)).symm hn

variable [DecidableEq η]

/-- The pointer of an element that is in no list may be written. -/
theorem Links.Holds.set_next (hL : L.Holds f) (hx : ∀ h, x ∉ f h) {v} : (L.set (.next x) v).Holds f where
  seg h := (hL.seg h).update (hx h) v
  nonnull := hL.nonnull
  nodup := hL.nodup
  disjoint := hL.disjoint

/-- A write to a place changes no pointer of an element that is not in front of it. -/
theorem Links.next_set_after (L : Links η) (h : η) {y} (hy : y ∉ l1) (v : Nat) :
    (L.set (after h l1) v).next y = L.next y := by
  rcases eq_nil_or_concat l1 with rfl | ⟨l, a, rfl⟩
  · rfl
  · rw [concat_eq_append] at *
    rw [after_snoc]
    have hne : y ≠ a := by
      rintro rfl
      exact hy (mem_append_right _ (mem_singleton_self y))
    exact update_of_ne hne ..

/-- Writing to a place puts another list behind it. -/
theorem Links.Holds.splice (hL : L.Holds f) (hf : f h = l1 ++ l2) {v m}
    (hm : Seg L.next v m 0) (hnodup : (l1 ++ m).Nodup) (hnonnull : 0 ∉ m)
    (hdisjoint : ∀ h', h ≠ h' → ∀ y ∈ m, y ∉ f h') :
    (L.set (after h l1) v).Holds (update f h (l1 ++ m)) := by
  have hl1 : ∀ y ∈ l1, y ∈ f h := fun y hy => hf ▸ mem_append_left _ hy
  have hother : ∀ h', h ≠ h' → ∀ y ∈ l1 ++ m, y ∉ f h' := by
    intro h' hne y hy
    rcases mem_append.1 hy with hy | hy
    · exact hL.disjoint h h' hne y (hl1 y hy)
    · exact hdisjoint h' hne y hy
  constructor
  case seg =>
    intro h'
    rcases eq_or_ne h' h with rfl | hne
    · rw [update_self]
      rcases eq_nil_or_concat l1 with rfl | ⟨l, a, rfl⟩
      · simpa [after_nil, Links.set] using hm
      · rw [concat_eq_append] at *
        have hseg := hL.seg h'
        rw [hf, seg_append] at hseg
        obtain ⟨_, hfront, -⟩ := hseg
        obtain ⟨hfront, -⟩ := seg_snoc.1 hfront
        rw [nodup_append, nodup_append] at hnodup
        obtain ⟨⟨-, -, hal⟩, -, ham⟩ := hnodup
        rw [after_snoc, seg_append]
        refine ⟨v, seg_snoc.2 ⟨hfront.update ?_ v, update_self ..⟩, hm.update ?_ v⟩
        · exact fun ha => hal a ha a (mem_singleton_self a) rfl
        · exact fun ha => ham a (mem_append_right _ (mem_singleton_self a)) a ha rfl
    · rw [update_of_ne hne]
      rcases eq_nil_or_concat l1 with rfl | ⟨l, a, rfl⟩
      · simpa [after_nil, Links.set, hne] using hL.seg h'
      · rw [concat_eq_append] at *
        rw [after_snoc]
        refine (hL.seg h').update ?_ v
        exact hother h' hne.symm a (mem_append_left _ (mem_append_right _ (mem_singleton_self a)))
  case nonnull =>
    intro h'
    rcases eq_or_ne h' h with rfl | hne
    · rw [update_self, mem_append]
      rintro (h0 | h0)
      · exact hL.nonnull h' (hl1 0 h0)
      · exact hnonnull h0
    · rw [update_of_ne hne]
      exact hL.nonnull h'
  case nodup =>
    intro h'
    rcases eq_or_ne h' h with rfl | hne
    · rw [update_self]
      exact hnodup
    · rw [update_of_ne hne]
      exact hL.nodup h'
  case disjoint =>
    intro h' h'' hne y hy
    rcases eq_or_ne h' h with rfl | hne'
    · rw [update_self] at hy
      rw [update_of_ne hne.symm]
      exact hother h'' hne y hy
    · rw [update_of_ne hne'] at hy
      rcases eq_or_ne h'' h with rfl | hne''
      · rw [update_self]
        exact fun hy' => hother h' hne.symm y hy' hy
      · rw [update_of_ne hne'']
        exact hL.disjoint h' h'' hne y hy

/-- An element is inserted at a place: its pointer is written, then the place. -/
theorem Links.Holds.insert (hL : L.Holds f) (hf : f h = l1 ++ l2) (hx0 : x ≠ 0) (hx : ∀ h, x ∉ f h) :
    ((L.set (.next x) (L.get (after h l1))).set (after h l1) x).Holds (update f h (l1 ++ x :: l2)) := by
  have hmem : ∀ {y}, y ∈ l1 ++ l2 → y ∈ f h := fun hy => hf ▸ hy
  have hxl : x ∉ l1 ++ l2 := fun hy => hx h (hmem hy)
  have hnodup := hf ▸ hL.nodup h
  refine (hL.set_next hx).splice hf (m := x :: l2) ?_ ?_ ?_ ?_
  · refine ⟨rfl, ?_⟩
    show Seg _ (update L.next x _ x) l2 0
    rw [update_self]
    exact (hL.split hf).update (fun hy => hxl (mem_append_right _ hy)) _
  · exact nodup_middle.2 (nodup_cons.2 ⟨hxl, hnodup⟩)
  · intro h0
    rcases mem_cons.1 h0 with h0 | h0
    · exact hx0 h0.symm
    · exact hL.nonnull h (hmem (mem_append_right _ h0))
  · intro h' hne y hy
    rcases mem_cons.1 hy with rfl | hy
    · exact hx h'
    · exact hL.disjoint h h' hne y (hmem (mem_append_right _ hy))

/-- The element at a place is removed. -/
theorem Links.Holds.remove (hL : L.Holds f) (hf : f h = l1 ++ x :: l2) :
    (L.set (after h l1) (L.next x)).Holds (update f h (l1 ++ l2)) := by
  have hmem : ∀ {y}, y ∈ l2 → y ∈ f h := fun hy => hf ▸ mem_append_right _ (mem_cons_of_mem _ hy)
  have hnodup := hf ▸ hL.nodup h
  refine hL.splice hf (hL.split hf).2 ?_ ?_ ?_
  · exact (nodup_cons.1 (nodup_middle.1 hnodup)).2
  · exact fun h0 => hL.nonnull h (hmem h0)
  · exact fun h' hne y hy => hL.disjoint h h' hne y (hmem hy)

/-- What is left when an element is removed. -/
theorem Links.Holds.mem_remove (hL : L.Holds f) (hf : f h = l1 ++ x :: l2) (h' : η) (y : Nat) :
    y ∈ update f h (l1 ++ l2) h' ↔ y ∈ f h' ∧ y ≠ x := by
  rcases eq_or_ne h' h with rfl | hne
  · have hnodup := nodup_middle.1 (hf ▸ hL.nodup h')
    have hx : x ∉ l1 ++ l2 := (nodup_cons.1 hnodup).1
    rw [update_self, hf]
    constructor
    · intro hy
      refine ⟨?_, fun heq => hx (heq ▸ hy)⟩
      exact (perm_middle.mem_iff).2 (mem_cons_of_mem x hy)
    · rintro ⟨hy, hyx⟩
      exact mem_of_ne_of_mem hyx (perm_middle.mem_iff.1 hy)
  · rw [update_of_ne hne]
    refine ⟨fun hy => ⟨hy, ?_⟩, And.left⟩
    rintro rfl
    exact hL.disjoint h h' hne.symm y (hf ▸ mem_append_right _ (mem_cons_self ..)) hy

end Holds

end SipRouter.Lib.Linked
