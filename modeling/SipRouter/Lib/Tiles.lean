import SipRouter.Lib.Linked

/-!
# Fragments that tile memory

A fragment at address `a` is a header of `hdr` bytes and `size a` bytes behind it. Fragments
`l` tile the memory from `p` to `q` if the first is at `p`, each is where the one before it ends,
and the last ends at `q`. So they do not overlap (`Tiles.apart`). A fragment may be split in
two and two neighbours joined to one.
-/

namespace SipRouter.Lib

open Linked List

def Tiles (hdr : Nat) (size : Nat → Nat) (p : Nat) (l : List Nat) (q : Nat) : Prop :=
  Seg (fun a => a + hdr + size a) p l q

namespace Tiles

variable {hdr : Nat} {size size' : Nat → Nat} {p q a b n : Nat} {l l1 l2 : List Nat}

theorem congr (h : Tiles hdr size p l q) (heq : ∀ a ∈ l, size' a = size a) :
    Tiles hdr size' p l q :=
  Seg.congr h fun a ha => by rw [heq a ha]

theorem append : Tiles hdr size p (l1 ++ l2) q ↔ ∃ m, Tiles hdr size p l1 m ∧ Tiles hdr size m l2 q := seg_append

theorem cons : Tiles hdr size p (a :: l) q ↔ p = a ∧ Tiles hdr size (a + hdr + size a) l q := .rfl

section

variable (h : Tiles hdr size p l q)

include h

theorem le : p ≤ q := by
  induction l generalizing p with
  | nil => exact Nat.le_of_eq h
  | cons a l ih =>
    obtain ⟨rfl, h⟩ := cons.1 h
    have hle := ih h
    omega

/-- A fragment is between the ends. -/
theorem bounds (ha : a ∈ l) : p ≤ a ∧ a + hdr + size a ≤ q := by
  obtain ⟨l1, l2, rfl⟩ := append_of_mem ha
  obtain ⟨m, h1, h2⟩ := append.1 h
  obtain ⟨rfl, h2⟩ := h2
  exact ⟨le h1, le h2⟩

/-- Each fragment ends before the next. -/
theorem pairwise : l.Pairwise fun a b => a + hdr + size a ≤ b := by
  induction l generalizing p with
  | nil => exact List.Pairwise.nil
  | cons a l ih =>
    obtain ⟨rfl, h⟩ := h
    exact pairwise_cons.2 ⟨fun b hb => (bounds h hb).1, ih h⟩

theorem nodup (hhdr : 0 < hdr) : l.Nodup := h.pairwise.imp fun hle => by omega

/-- Fragments that are among others do not reach beyond them. -/
theorem le_of_subset {l' q'} (h' : Tiles hdr size p l' q') (hsub : l ⊆ l') : q ≤ q' := by
  rcases eq_nil_or_concat' l with rfl | ⟨l, a, rfl⟩
  · exact Nat.le_trans (Nat.le_of_eq (Eq.symm h)) (le h')
  · obtain ⟨-, rfl⟩ := seg_snoc.1 h
    exact (bounds h' (hsub (mem_append_right l mem_cons_self))).2

end

/-- What comes before a fragment and what comes behind it. -/
theorem around (h : Tiles hdr size p (l1 ++ a :: l2) q) :
    Tiles hdr size p l1 a ∧ Tiles hdr size (a + hdr + size a) l2 q := by
  obtain ⟨m, h1, rfl, h2⟩ := append.1 h
  exact ⟨h1, h2⟩

/-- Two fragments do not overlap. -/
theorem apart (h : Tiles hdr size p l q) (ha : a ∈ l) (hb : b ∈ l) (hne : a ≠ b) :
    a + hdr + size a ≤ b ∨ b + hdr + size b ≤ a := by
  obtain ⟨l1, l2, rfl⟩ := append_of_mem ha
  obtain ⟨h1, h2⟩ := h.around
  rcases mem_append.1 hb with hb | hb
  · exact .inr (bounds h1 hb).2
  · rcases mem_cons.1 hb with rfl | hb
    · exact absurd rfl hne
    · exact .inl (bounds h2 hb).1

theorem of_around (h1 : Tiles hdr size p l1 a) (h2 : Tiles hdr size (a + hdr + size a) l2 q) :
    Tiles hdr size p (l1 ++ a :: l2) q :=
  append.2 ⟨a, h1, rfl, h2⟩

/-- The fragment behind another one. -/
theorem next_eq (h : Tiles hdr size p (l1 ++ a :: l2) q) : a + hdr + size a = l2.headD q := Seg.eq_headD h.around.2

/-- A fragment is split. -/
theorem split (h : Tiles hdr size p (l1 ++ a :: l2) q) (hhdr : 0 < hdr) (hn : n = a + hdr + size' a)
    (hsize : size a = size' a + hdr + size' n) (hother : ∀ b, b ≠ a → b ≠ n → size' b = size b) :
    Tiles hdr size' p (l1 ++ a :: n :: l2) q := by
  obtain ⟨h1, h2⟩ := h.around
  have hend : n + hdr + size' n = a + hdr + size a := by omega
  refine of_around (h1.congr ?_) ⟨hn.symm, ?_⟩
  · intro b hb
    have hle := (bounds h1 hb).2
    exact hother b (by omega) (by omega)
  · show Tiles hdr size' (n + hdr + size' n) l2 q
    rw [hend]
    apply h2.congr
    intro b hb
    have hle := (bounds h2 hb).1
    exact hother b (by omega) (by omega)

/-- Two neighbours are joined. -/
theorem join (h : Tiles hdr size p (l1 ++ a :: n :: l2) q) (hhdr : 0 < hdr)
    (hsize : size' a = size a + hdr + size n) (hother : ∀ b, b ≠ a → size' b = size b) :
    Tiles hdr size' p (l1 ++ a :: l2) q := by
  obtain ⟨h1, hrest⟩ := h.around
  obtain ⟨hn, h2⟩ := cons.1 hrest
  have hend : a + hdr + size' a = n + hdr + size n := by omega
  refine of_around (h1.congr ?_) ?_
  · intro b hb
    have hle := (bounds h1 hb).2
    exact hother b (by omega)
  · rw [hend]
    apply h2.congr
    intro b hb
    have hle := (bounds h2 hb).1
    exact hother b (by omega)

end Tiles

end SipRouter.Lib
