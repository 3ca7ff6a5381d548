import SipRouter.Lib.Linked

/-!
# Lists linked both ways

Each element also has a pointer to the one in front of it, null for the first. An element can then be removed
without a walk: the pointer in front of it, or the head, is found through the element itself.
-/

namespace SipRouter.Lib.Doubly

open Function Linked
open List hiding after

variable {η : Type}

/-- Heads, and for each element the pointers to the next and the previous one. -/
structure Chains (η : Type) extends Links η where
  prev : Nat → Nat

/-- The pointer behind `a`, or the head if that is null. -/
def behind (h : η) (a : Nat) : Ref η :=
  if a = 0 then .head h else .next a

/-- The element a pointer belongs to, null for a head. -/
def holder : Ref η → Nat
  | .head _ => 0
  | .next a => a

/-- The elements from one on, at most `n`. -/
def Chains.from (C : Chains η) : Nat → Nat → List Nat
  | 0, _ => []
  | n + 1, p => if p = 0 then [] else p :: C.from n (C.next p)

/-- The pointers of the lists `f`. -/
structure Chains.Holds (C : Chains η) (f : η → List Nat) : Prop extends C.toLinks.Holds f where
  back : ∀ h l₁ x l₂, f h = l₁ ++ x :: l₂ → C.prev x = l₁.getLastD 0

section Holds

variable {C : Chains η} {f : η → List Nat} {h : η} {l₁ l₂ l : List Nat} {x n : Nat}

theorem holder_after (h : η) : holder (after h l) = l.getLastD 0 := by
  rcases eq_nil_or_concat l with rfl | ⟨l, a, rfl⟩
  · rfl
  · simp [after, holder]

theorem behind_getLastD (h : η) (hl : 0 ∉ l) : behind h (l.getLastD 0) = after h l := by
  rcases eq_nil_or_concat l with rfl | ⟨l, a, rfl⟩
  · rfl
  · have ha : a ≠ 0 := by
      rintro rfl
      exact hl (by simp)
    simp [behind, after, ha]

/-- From an element on come the rest of its list. -/
theorem from_eq {next} {C : Chains η} (hC : C.next = next) {p} (hl : Seg next p l 0)
    (h0 : 0 ∉ l) (hn : l.length ≤ n) : C.from n p = l := by
  induction l generalizing p n with
  | nil =>
    obtain rfl : p = 0 := hl
    cases n <;> simp [Chains.from]
  | cons a l ih =>
    obtain ⟨rfl, hl⟩ := hl
    cases n with
    | zero => simp at hn
    | succ n =>
      have hp : p ≠ 0 := by
        rintro rfl
        exact h0 (mem_cons_self ..)
      rw [Chains.from, if_neg hp, hC, ih hl (fun h => h0 (mem_cons_of_mem _ h)) (Nat.le_of_succ_le_succ hn)]

theorem Chains.Holds.walk_end (hC : C.Holds f) (hn : (f h).length ≤ n) :
    C.walk (fun _ => false) n (.head h) = after h (f h) := by
  obtain ⟨l₁, l₂, hf, hwalk, -, hend⟩ := hC.walk_head (fun _ => false) hn
  have hl2 : l₂ = [] := by
    cases l₂ with
    | nil => rfl
    | cons y l₂ => exact absurd (hend y rfl) Bool.false_ne_true
  rw [hwalk, hf, hl2, append_nil]

theorem Chains.Holds.next_eq (hC : C.Holds f) (hf : f h = l₁ ++ x :: l₂) : C.next x = l₂.headD 0 := by
  have hf' : f h = (l₁ ++ [x]) ++ l₂ := by rw [hf, append_assoc, singleton_append]
  have hget := hC.get_after hf'
  rwa [after_snoc] at hget

/-- Every occurrence in a list with one more element. -/
theorem cons_cases {m1 m2 x y} (hl : l ++ [x] = m1 ++ y :: m2) :
    (m1 = l ∧ y = x ∧ m2 = []) ∨ ∃ m, m2 = m ++ [x] ∧ l = m1 ++ y :: m := by
  rcases eq_nil_or_concat m2 with rfl | ⟨m, z, rfl⟩
  · obtain ⟨rfl, h⟩ := append_inj' hl rfl
    exact .inl ⟨rfl, (singleton_inj.1 h).symm, rfl⟩
  · rw [concat_eq_append, ← cons_append, ← append_assoc] at hl
    obtain ⟨rfl, h⟩ := append_inj' hl rfl
    exact .inr ⟨m, by rw [concat_eq_append, singleton_inj.1 h], rfl⟩

variable [DecidableEq η]

/-- Append an element, with a walk of at most `n` steps to the end. -/
def Chains.append (C : Chains η) (n : Nat) (h : η) (x : Nat) : Chains η :=
  let r := C.walk (fun _ => false) n (.head h)
  { toLinks := (C.set (.next x) 0).set r x, prev := update C.prev x (holder r) }

/-- Remove an element through its own pointers. -/
def Chains.unlink (C : Chains η) (h : η) (x : Nat) : Chains η :=
  { toLinks := C.set (behind h (C.prev x)) (C.next x)
    prev := if C.next x = 0 then C.prev else update C.prev (C.next x) (C.prev x) }

theorem Chains.Holds.append (hC : C.Holds f) (hn : (f h).length ≤ n) (hx0 : x ≠ 0) (hx : ∀ h, x ∉ f h) :
    (C.append n h x).Holds (update f h (f h ++ [x])) := by
  have hget : C.get (after h (f h)) = 0 := hC.get_after (append_nil (f h)).symm
  have hlinks := hC.insert (append_nil (f h)).symm hx0 hx
  rw [hget] at hlinks
  have hback : ∀ y, y ≠ x → (C.append n h x).prev y = C.prev y := fun y hy => update_of_ne hy ..
  refine ⟨by simpa only [Chains.append, hC.walk_end hn] using hlinks, fun h' l₁ y l₂ hf => ?_⟩
  rcases eq_or_ne h' h with rfl | hne
  · rw [update_self] at hf
    rcases cons_cases hf with ⟨rfl, rfl, rfl⟩ | ⟨m, rfl, hm⟩
    · simp only [Chains.append, hC.walk_end hn, update_self, holder_after]
    · have hy : y ≠ x := by
        rintro rfl
        exact hx h' (hm ▸ mem_append_right _ (mem_cons_self ..))
      rw [hback y hy]
      exact hC.back h' l₁ y m hm
  · rw [update_of_ne hne] at hf
    have hy : y ≠ x := by
      rintro rfl
      exact hx h' (hf ▸ mem_append_right _ (mem_cons_self ..))
    rw [hback y hy]
    exact hC.back h' l₁ y l₂ hf

/-- What is in front of an element when another one is removed. -/
theorem Chains.Holds.back_remove (hC : C.Holds f) (hf : f h = l₁ ++ x :: l₂) {m1 m2 y}
    (hy : l₁ ++ l₂ = m1 ++ y :: m2) : (C.unlink h x).prev y = m1.getLastD 0 := by
  have hnodup := hf ▸ hC.nodup h
  have hnext := hC.next_eq hf
  have hother : y ≠ C.next x → (C.unlink h x).prev y = C.prev y := by
    intro hne
    simp only [Chains.unlink]
    split
    · rfl
    · exact update_of_ne hne ..
  have hat : ∀ m2', l₂ = y :: m2' → (C.unlink h x).prev y = l₁.getLastD 0 := by
    rintro m2' rfl
    have hy0 : y ≠ 0 := by
      rintro rfl
      exact hC.nonnull h (hf ▸ mem_append_right _ (mem_cons_of_mem _ (mem_cons_self ..)))
    rw [headD_cons] at hnext
    simp only [Chains.unlink, hnext, if_neg hy0, update_self]
    exact hC.back h l₁ x _ hf
  rcases append_eq_append_iff.1 hy with ⟨c, hm1, hl2⟩ | ⟨c, hl1, hl2⟩
  · cases c with
    | nil =>
      rw [hm1, append_nil]
      exact hat m2 hl2
    | cons b c =>
      subst hl2 hm1
      have hyb : y ≠ b := by
        rintro rfl
        simp [nodup_append] at hnodup
      rw [hother (by rw [hnext]; exact hyb), hC.back h (l₁ ++ x :: b :: c) y m2 (by simp [hf])]
      simp [getLastD_eq_getLast?]
  · cases c with
    | nil =>
      rw [append_nil] at hl1
      rw [← hl1]
      exact hat m2 hl2.symm
    | cons b c =>
      obtain ⟨rfl, rfl⟩ := List.cons.inj hl2
      subst hl1
      have hyn : y ≠ C.next x := by
        rw [hnext]
        rintro rfl
        cases l₂ with
        | nil => exact hC.nonnull h (by simp [hf])
        | cons z l₂ => simp [nodup_append] at hnodup
      rw [hother hyn]
      exact hC.back h m1 y (c ++ x :: l₂) (by simp [hf])

theorem Chains.Holds.unlink (hC : C.Holds f) (hf : f h = l₁ ++ x :: l₂) :
    (C.unlink h x).Holds (update f h (l₁ ++ l₂)) := by
  have hl1 : 0 ∉ l₁ := fun h0 => hC.nonnull h (hf ▸ mem_append_left _ h0)
  have hlinks := hC.remove hf
  rw [← behind_getLastD h hl1, ← hC.back h l₁ x l₂ hf] at hlinks
  refine ⟨hlinks, fun h' m1 y m2 hy => ?_⟩
  rcases eq_or_ne h' h with rfl | hne
  · rw [update_self] at hy
    exact hC.back_remove hf hy
  · rw [update_of_ne hne] at hy
    have hmem : y ∈ f h' := hy ▸ mem_append_right _ (mem_cons_self ..)
    have hyn : C.next x ≠ 0 → y ≠ C.next x := by
      rintro h0 rfl
      rw [hC.next_eq hf] at h0 hmem
      cases l₂ with
      | nil => exact h0 rfl
      | cons z l₂ => exact hC.disjoint h h' hne.symm z (by simp [hf]) hmem
    rw [← hC.back h' m1 y m2 hy]
    simp only [Chains.unlink]
    split
    · rfl
    · next h0 => exact update_of_ne (hyn h0) ..

end Holds

end SipRouter.Lib.Doubly
