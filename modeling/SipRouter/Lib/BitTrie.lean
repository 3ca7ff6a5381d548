import Mathlib.Data.List.Basic

/-!
# Path compressed binary tries

A trie is a set of words over two letters: a node has the letters that all words below it
go on with, and either any rest of the word is in the set (`all`) or the next letter
decides (`fork`). A node has two children or none. Inserting `p` adds the words that start
with `p` (`mem_insert`). If a trie is no higher than a word is long, the word is in the
set if it does not disagree with the trie on the way down (`hits_iff`).
-/

namespace SipRouter.Lib

open List

inductive BitTrie where
  | all (bits : List Bool)
  | fork (bits : List Bool) (zero one : BitTrie)

namespace BitTrie

variable {x : Bool} {t t' : BitTrie} {w : List Bool}

/-- A word is in the set. -/
def Mem (w : List Bool) : BitTrie → Prop
  | all bits => bits <+: w
  | fork bits zero one => ∃ b rest, w = bits ++ b :: rest ∧ if b then one.Mem rest else zero.Mem rest

/-- The trie below one more letter. -/
def push (x : Bool) : BitTrie → BitTrie
  | all bits => all (x :: bits)
  | fork bits zero one => fork (x :: bits) zero one

/-- A fork at the first letter. -/
def branch (x : Bool) (t t' : BitTrie) : BitTrie := if x then fork [] t' t else fork [] t t'

/-- `p` is compared with `bits`: `rest` is what is below the bits not compared yet, and `deep` is
used where `p` goes on behind all of them. -/
def splice (rest : List Bool → BitTrie) (deep : Bool → List Bool → BitTrie) : List Bool → List Bool → BitTrie
  | _, [] => all []
  | [], b :: p => deep b p
  | x :: bits, b :: p => if x = b then (splice rest deep bits p).push x else branch x (rest bits) (all p)

def insert (p : List Bool) : BitTrie → BitTrie
  | all bits => splice all (fun _ _ => all []) bits p
  | fork bits zero one =>
    splice (fun bits => fork bits zero one) (fun b p => if b then fork [] zero (one.insert p)
      else fork [] (zero.insert p) one) bits p

/-! ## Inserting -/

/-- The trie below more letters. -/
def pushes (bits : List Bool) (t : BitTrie) : BitTrie := bits.foldr push t

theorem pushes_all {bits bits'} : pushes bits (all bits') = all (bits ++ bits') := by
  induction bits with
  | nil => rfl
  | cons x bits ih =>
    rw [pushes, foldr_cons, ← pushes, ih]
    rfl

theorem pushes_fork (bits bits' : List Bool) (zero one : BitTrie) :
    pushes bits (fork bits' zero one) = fork (bits ++ bits') zero one := by
  induction bits with
  | nil => rfl
  | cons x bits ih =>
    rw [pushes, foldr_cons, ← pushes, ih]
    rfl

section Splice

variable (rest : List Bool → BitTrie) (deep : Bool → List Bool → BitTrie)

/-- `p` ends in the bits. -/
theorem splice_within (p bits : List Bool) : splice rest deep (p ++ bits) p = all p := by
  induction p with
  | nil => rw [splice]
  | cons x p ih =>
    rw [cons_append, splice, if_pos rfl, ih]
    rfl

/-- `p` goes on behind the bits. -/
theorem splice_past {bits b p} : splice rest deep bits (bits ++ b :: p) = pushes bits (deep b p) := by
  induction bits with
  | nil => rfl
  | cons x bits ih =>
    rw [cons_append, splice, if_pos rfl, ih]
    rfl

/-- `p` and the bits differ. -/
theorem splice_differs {c bits p x} :
    splice rest deep (c ++ x :: bits) (c ++ (!x) :: p) = pushes c (branch x (rest bits) (all p)) := by
  induction c with
  | nil => exact if_neg (by cases x <;> decide)
  | cons y c ih =>
    rw [cons_append, cons_append, splice, if_pos rfl, ih]
    rfl

end Splice

/-- What is behind the bits of a fork. -/
theorem mem_fork {bits zero one} : (fork bits zero one).Mem w ↔
    ∃ w', w = bits ++ w' ∧ ∃ b rest, w' = b :: rest ∧ if b then one.Mem rest else zero.Mem rest := by
  constructor
  · rintro ⟨b, rest, rfl, h⟩
    exact ⟨_, rfl, b, rest, rfl, h⟩
  · rintro ⟨w', rfl, b, rest, rfl, h⟩
    exact ⟨b, rest, rfl, h⟩

theorem mem_push (t : BitTrie) : (t.push x).Mem w ↔ ∃ w', w = x :: w' ∧ t.Mem w' := by
  cases t with
  | all bits =>
    constructor
    · rintro ⟨r, rfl⟩
      exact ⟨bits ++ r, rfl, r, rfl⟩
    · rintro ⟨w', rfl, r, rfl⟩
      exact ⟨r, rfl⟩
  | fork bits zero one =>
    constructor
    · rintro ⟨b, rest, rfl, h⟩
      exact ⟨_, rfl, b, rest, rfl, h⟩
    · rintro ⟨w', rfl, b, rest, rfl, h⟩
      exact ⟨b, rest, rfl, h⟩

theorem mem_branch :
    (branch x t t').Mem w ↔ (∃ w', w = x :: w' ∧ t.Mem w') ∨ ∃ w', w = (!x) :: w' ∧ t'.Mem w' := by
  rcases w with _ | ⟨b, w⟩
  · cases x <;> simp [branch, Mem]
  · cases x <;> cases b <;> simp [branch, Mem]

/-- What is behind the bits is the set `P`, and `deep` adds to it. -/
theorem mem_splice {rest : List Bool → BitTrie} {deep : Bool → List Bool → BitTrie} {P : List Bool → Prop}
    (hrest : ∀ bits w, (rest bits).Mem w ↔ ∃ w', w = bits ++ w' ∧ P w')
    (hdeep : ∀ b p w, (deep b p).Mem w ↔ b :: p <+: w ∨ P w) (bits p w : List Bool) :
    (splice rest deep bits p).Mem w ↔ p <+: w ∨ ∃ w', w = bits ++ w' ∧ P w' := by
  induction bits generalizing p w with
  | nil =>
    rcases p with _ | ⟨b, p⟩
    · simp [splice, Mem]
    · rw [splice, hdeep]
      simp
  | cons x bits ih =>
    rcases p with _ | ⟨b, p⟩
    · simp [splice, Mem]
    · unfold splice
      by_cases hxb : x = b
      · subst hxb
        rw [if_pos rfl, mem_push]
        constructor
        · rintro ⟨w, rfl, h⟩
          rcases (ih p w).1 h with h | ⟨w', rfl, hP⟩
          · exact .inl (cons_prefix_cons.2 ⟨rfl, h⟩)
          · exact .inr ⟨w', rfl, hP⟩
        · rintro (⟨r, rfl⟩ | ⟨w', rfl, h⟩)
          · exact ⟨p ++ r, rfl, (ih _ _).2 (.inl ⟨r, rfl⟩)⟩
          · exact ⟨bits ++ w', rfl, (ih _ _).2 (.inr ⟨w', rfl, h⟩)⟩
      · -- the words of the trie go on with `x`, the new ones with the other letter
        have hb : b = !x := by cases x <;> cases b <;> simp_all
        subst hb
        rw [if_neg hxb, mem_branch, or_comm]
        refine or_congr ?_ ?_
        · constructor
          · rintro ⟨w', rfl, h⟩
            exact cons_prefix_cons.2 ⟨rfl, h⟩
          · rintro ⟨r, rfl⟩
            exact ⟨p ++ r, rfl, r, rfl⟩
        · constructor
          · rintro ⟨w, rfl, h⟩
            obtain ⟨w', rfl, hP⟩ := (hrest bits w).1 h
            exact ⟨w', rfl, hP⟩
          · rintro ⟨w', rfl, h⟩
            exact ⟨bits ++ w', rfl, (hrest _ _).2 ⟨w', rfl, h⟩⟩

/-- Inserting `p` adds the words that start with `p`. -/
theorem mem_insert (t : BitTrie) (p w : List Bool) : (t.insert p).Mem w ↔ p <+: w ∨ t.Mem w := by
  induction t generalizing p w with
  | all bits =>
    rw [insert, mem_splice (P := fun _ => True)]
    · simp only [Mem, prefix_iff_eq_append, and_true]
      refine or_congr .rfl ⟨?_, ?_⟩
      · rintro ⟨w', rfl⟩
        simp
      · intro h
        exact ⟨_, h.symm⟩
    · intro bits w
      exact ⟨fun ⟨r, h⟩ => ⟨r, h.symm, trivial⟩, fun ⟨r, h, _⟩ => ⟨r, h.symm⟩⟩
    · intro b p w
      simp [Mem]
  | fork bits zero one ihz iho =>
    rw [insert, mem_splice (P := fun w => ∃ b rest, w = b :: rest ∧ if b then one.Mem rest else zero.Mem rest)]
    · exact or_congr .rfl mem_fork.symm
    · exact fun bits w => mem_fork
    · intro b p w
      rcases w with _ | ⟨c, w⟩
      · cases b <;> simp [Mem]
      · cases b <;> cases c <;> simp [Mem, ihz, iho, cons_prefix_cons]

/-! ## Looking up -/

/-- The length of the longest way down. -/
def height : BitTrie → Nat
  | all bits => bits.length
  | fork bits zero one => bits.length + 1 + max zero.height one.height

theorem height_push : (t.push x).height = t.height + 1 := by
  cases t with
  | all bits => rfl
  | fork bits zero one =>
    simp only [push, height, length_cons]
    omega

theorem height_branch : (branch x t t').height = 1 + max t.height t'.height := by
  cases x
  · simp only [branch, height, length_nil, Bool.false_eq_true, if_false]
  · simp only [branch, height, length_nil, if_true]
    omega

theorem height_splice (rest : List Bool → BitTrie) (deep : Bool → List Bool → BitTrie) {m}
    (hrest : ∀ bits, (rest bits).height ≤ bits.length + m) (hdeep : ∀ b p, (deep b p).height ≤ max (p.length + 1) m)
    (bits p : List Bool) : (splice rest deep bits p).height ≤ max p.length (bits.length + m) := by
  induction bits generalizing p with
  | nil =>
    rcases p with _ | ⟨b, p⟩
    · exact Nat.zero_le _
    · have h := hdeep b p
      simp only [splice, length_cons, length_nil]
      omega
  | cons x bits ih =>
    rcases p with _ | ⟨b, p⟩
    · exact Nat.zero_le _
    · unfold splice
      simp only [length_cons]
      split
      · have h := ih p
        rw [height_push]
        omega
      · have h := hrest bits
        rw [height_branch]
        simp only [height]
        omega

theorem height_insert (t : BitTrie) (p : List Bool) : (t.insert p).height ≤ max p.length t.height := by
  induction t generalizing p with
  | all bits =>
    exact height_splice _ _ (m := 0) (fun _ => Nat.le_refl _) (fun _ _ => Nat.zero_le _) bits p
  | fork bits zero one ihz iho =>
    have h := height_splice (fun bits => fork bits zero one) (fun b p => if b then
        fork [] zero (one.insert p) else fork [] (zero.insert p) one)
      (m := 1 + max zero.height one.height) (fun bits => by simp only [height]; omega) (fun b p => by
        have hz := ihz p
        have ho := iho p
        cases b <;> simp only [height, length_nil, Bool.false_eq_true, if_false, if_true] <;> omega) bits p
    simp only [insert, height]
    omega

/-- A word does not disagree with the trie on the way down, as far as it goes. -/
def hits : BitTrie → List Bool → Bool
  | all _, [] => true
  | all [], _ :: _ => true
  | all (x :: bits), b :: w => x == b && hits (all bits) w
  | fork _ _ _, [] => true
  | fork [] zero one, b :: w => if b then one.hits w else zero.hits w
  | fork (x :: bits) zero one, b :: w => x == b && hits (fork bits zero one) w
termination_by structural _ w => w

theorem hits_nil (t : BitTrie) : t.hits [] = true := by
  cases t <;> simp [hits]

theorem hits_push (x b : Bool) (t : BitTrie) (w : List Bool) : (t.push x).hits (b :: w) = (x == b && t.hits w) := by
  cases t <;> simp [push, hits]

theorem hits_pushes (bits : List Bool) (t : BitTrie) (w : List Bool) :
    (pushes bits t).hits (bits ++ w) = t.hits w := by
  induction bits with
  | nil => rfl
  | cons x bits ih =>
    rw [pushes, foldr_cons, ← pushes, cons_append, hits_push, ih, beq_self_eq_true, Bool.true_and]

theorem hits_all (bits w : List Bool) (h : bits.length ≤ w.length) : (all bits).hits w ↔ (all bits).Mem w := by
  induction bits generalizing w with
  | nil => cases w <;> simp [hits, Mem]
  | cons x bits ih =>
    rcases w with _ | ⟨b, w⟩
    · cases h
    · have ih := ih w (by simpa using h)
      simp only [Mem] at ih
      simp [hits, Mem, cons_prefix_cons, ih]

theorem hits_iff (t : BitTrie) (w : List Bool) (h : t.height ≤ w.length) : t.hits w ↔ t.Mem w := by
  induction t generalizing w with
  | all bits => exact hits_all bits w h
  | fork bits zero one ihz iho =>
    induction bits generalizing w with
    | nil =>
      rcases w with _ | ⟨b, w⟩
      · simp only [height, length_nil] at h
        omega
      · simp only [height, length_nil, length_cons] at h
        cases b
        · simpa [hits, Mem] using ihz w (by omega)
        · simpa [hits, Mem] using iho w (by omega)
    | cons x bits ih =>
      rcases w with _ | ⟨b, w⟩
      · simp only [height, length_nil, length_cons] at h
        omega
      · have ih := ih w (by simp only [height, length_cons] at h ⊢; omega)
        simp only [hits, Bool.and_eq_true, beq_iff_eq, ih]
        exact ⟨fun ⟨hx, h⟩ => hx ▸ (mem_push _).2 ⟨w, rfl, h⟩, fun h => by
          obtain ⟨w', hw, h⟩ := (mem_push (fork bits zero one)).1 h
          cases hw
          exact ⟨rfl, h⟩⟩

end BitTrie

end SipRouter.Lib
