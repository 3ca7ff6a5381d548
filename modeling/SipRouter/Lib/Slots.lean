import Mathlib.Logic.Function.Basic

/-!
# Slots whose owners know them

A table has slots with a handle and a label. Items outside the table have a handle and
know the place of their slot; the label of a slot is the owner of the item, which may own
several. `Kept owner T R` says that in the places `R` the table and the items agree, in
both directions: a slot with a handle is the one some item knows, and the slots without
one have no label. What is in the other places does not matter, so that a table can be
compacted in place: a slot without a handle is left out of `R`, and a slot is moved from a
place of `R` to one that is not.
-/

namespace SipRouter.Lib.Slots

open Function Option

variable {φ ο σ : Type}

structure Table (φ ο σ : Type) where
  handle : Nat → Option φ
  label : Nat → Option ο
  has : σ → Option φ
  place : σ → Option Nat

/-- The table and the items agree in the places `R`. -/
structure Kept (owner : σ → ο) (T : Table φ ο σ) (R : Nat → Prop) : Prop where
  free : ∀ i, R i → T.handle i = none → T.label i = none
  owned : ∀ i x, R i → T.handle i = some x → ∃ s, T.label i = some (owner s) ∧ T.has s = some x ∧ T.place s = some i
  item : ∀ s x, T.has s = some x → ∃ i, R i ∧ T.place s = some i ∧ T.handle i = some x ∧ T.label i = some (owner s)
  inj : ∀ s s' x, T.has s = some x → T.has s' = some x → s = s'

section Kept

variable {owner : σ → ο} {T T' : Table φ ο σ} {R R' : Nat → Prop} {s : σ} {x : φ} {i j : Nat}

section

variable (h : Kept owner T R)

include h

theorem Kept.mono (hR : ∀ i, R' i ↔ R i) : Kept owner T R' := by
  obtain rfl : R' = R := funext fun i => propext (hR i)
  exact h

/-- Places of items without a handle do not matter. -/
theorem Kept.congr (hhandle : T'.handle = T.handle) (hlabel : T'.label = T.label)
    (hhas : T'.has = T.has) (hplace : ∀ s, T.has s ≠ none → T'.place s = T.place s) : Kept owner T' R where
  free i hR := by
    rw [hhandle, hlabel]
    exact h.free i hR
  owned i x hR hx := by
    rw [hhandle] at hx
    obtain ⟨s, hl, hs, hp⟩ := h.owned i x hR hx
    exact ⟨s, hlabel ▸ hl, hhas ▸ hs, (hplace s (by simp [hs])).trans hp⟩
  item s x hs := by
    rw [hhas] at hs
    obtain ⟨i, hR, hp, hx, hl⟩ := h.item s x hs
    exact ⟨i, hR, (hplace s (by simp [hs])).trans hp, hhandle ▸ hx, hlabel ▸ hl⟩
  inj := by
    rw [hhas]
    exact h.inj

/-- A handle is in one slot. -/
theorem Kept.eq_of_handle (hi : R i) (hj : R j) (hxi : T.handle i = some x) (hxj : T.handle j = some x) : i = j := by
  obtain ⟨s, -, hs, hp⟩ := h.owned i x hi hxi
  obtain ⟨s', -, hs', hp'⟩ := h.owned j x hj hxj
  obtain rfl := h.inj s s' x hs hs'
  exact some.inj (hp.symm.trans hp')

/-- Different items have different places. -/
theorem Kept.eq_of_place {s s'} (hs : T.has s ≠ none) (hs' : T.has s' ≠ none)
    (hp : T.place s = some i) (hp' : T.place s' = some i) : s = s' := by
  obtain ⟨x, hx⟩ := ne_none_iff_exists'.1 hs
  obtain ⟨x', hx'⟩ := ne_none_iff_exists'.1 hs'
  obtain ⟨j, -, hj, hxj, -⟩ := h.item s x hx
  obtain ⟨j', -, hj', hxj', -⟩ := h.item s' x' hx'
  obtain rfl : i = j := some.inj (hp.symm.trans hj)
  obtain rfl : i = j' := some.inj (hp'.symm.trans hj')
  obtain rfl : x = x' := some.inj (hxj.symm.trans hxj')
  exact h.inj s s' x hx hx'

/-- A slot without a handle may be left out. -/
theorem Kept.skip (hi : T.handle i = none) : Kept owner T fun k => R k ∧ k ≠ i where
  free k hk := h.free k hk.1
  owned k x hk := h.owned k x hk.1
  item s x hs := by
    obtain ⟨k, hk, hp, hx, hl⟩ := h.item s x hs
    refine ⟨k, ⟨hk, ?_⟩, hp, hx, hl⟩
    rintro rfl
    simp [hi] at hx
  inj := h.inj

end

variable [DecidableEq σ]

/-- A new item in a place that is not used. -/
def Table.add (owner : σ → ο) (T : Table φ ο σ) (s : σ) (x : φ) (i : Nat) : Table φ ο σ where
  handle := update T.handle i (some x)
  label := update T.label i (some (owner s))
  has := update T.has s (some x)
  place := update T.place s (some i)

/-- An item leaves its slot. -/
def Table.clear (T : Table φ ο σ) (s : σ) (i : Nat) : Table φ ο σ where
  handle := update T.handle i none
  label := update T.label i none
  has := update T.has s none
  place := T.place

/-- The slot of an item is copied to another place. -/
def Table.move (T : Table φ ο σ) (s : σ) (i j : Nat) : Table φ ο σ where
  handle := update T.handle j (T.handle i)
  label := update T.label j (T.label i)
  has := T.has
  place := update T.place s (some j)

theorem Kept.add (h : Kept owner T R) (hi : ¬R i) (hs : T.has s = none) (hx : ∀ s', T.has s' ≠ some x) :
    Kept owner (T.add owner s x i) fun k => R k ∨ k = i := by
  have hold : ∀ k, R k → (T.add owner s x i).handle k = T.handle k ∧ (T.add owner s x i).label k = T.label k := by
    intro k hk
    have hne : k ≠ i := fun heq => hi (heq ▸ hk)
    exact ⟨update_of_ne hne .., update_of_ne hne ..⟩
  have hitem : ∀ s', s' ≠ s → (T.add owner s x i).has s' = T.has s' ∧ (T.add owner s x i).place s' = T.place s' :=
    fun s' hne => ⟨update_of_ne hne .., update_of_ne hne ..⟩
  have hself : (T.add owner s x i).handle i = some x ∧ (T.add owner s x i).label i = some (owner s) ∧
      (T.add owner s x i).has s = some x ∧ (T.add owner s x i).place s = some i := by
    simp [Table.add]
  constructor
  case free =>
    rintro k (hk | rfl) hnone
    · rw [(hold k hk).1] at hnone
      exact (hold k hk).2.trans (h.free k hk hnone)
    · simp [hself.1] at hnone
  case owned =>
    rintro k y (hk | rfl) hy
    · rw [(hold k hk).1] at hy
      obtain ⟨s', hl, hs', hp⟩ := h.owned k y hk hy
      have hne : s' ≠ s := by
        rintro rfl
        simp [hs] at hs'
      exact ⟨s', (hold k hk).2.trans hl, (hitem s' hne).1.trans hs', (hitem s' hne).2.trans hp⟩
    · obtain ⟨h1, h2, h3, h4⟩ := hself
      exact ⟨s, h2, by rw [h3, ← h1, hy], h4⟩
  case item =>
    intro s' y hy
    by_cases hne : s' = s
    · subst hne
      obtain ⟨h1, h2, h3, h4⟩ := hself
      exact ⟨i, .inr rfl, h4, by rw [h1, ← h3, hy], h2⟩
    · rw [(hitem s' hne).1] at hy
      obtain ⟨k, hk, hp, hx, hl⟩ := h.item s' y hy
      exact ⟨k, .inl hk, (hitem s' hne).2.trans hp, (hold k hk).1.trans hx, (hold k hk).2.trans hl⟩
  case inj =>
    intro s1 s2 y h1 h2
    by_cases hne1 : s1 = s <;> by_cases hne2 : s2 = s
    · rw [hne1, hne2]
    · subst hne1
      rw [hself.2.2.1] at h1
      rw [(hitem s2 hne2).1, ← h1] at h2
      exact absurd h2 (hx s2)
    · subst hne2
      rw [hself.2.2.1] at h2
      rw [(hitem s1 hne1).1, ← h2] at h1
      exact absurd h1 (hx s1)
    · rw [(hitem s1 hne1).1] at h1
      rw [(hitem s2 hne2).1] at h2
      exact h.inj s1 s2 y h1 h2

theorem Kept.clear (h : Kept owner T R) (hs : T.has s ≠ none) (hp : T.place s = some i) :
    Kept owner (T.clear s i) R := by
  have hslot : ∀ k, k ≠ i → (T.clear s i).handle k = T.handle k ∧ (T.clear s i).label k = T.label k :=
    fun k hne => ⟨update_of_ne hne .., update_of_ne hne ..⟩
  have hitem : ∀ s' y, (T.clear s i).has s' = some y → s' ≠ s ∧ T.has s' = some y := by
    intro s' y hy
    by_cases hne : s' = s
    · subst hne
      simp [Table.clear] at hy
    · exact ⟨hne, (update_of_ne hne ..).symm.trans hy⟩
  constructor
  case free =>
    intro k hk hnone
    by_cases hne : k = i
    · subst hne
      exact update_self ..
    · rw [(hslot k hne).1] at hnone
      exact (hslot k hne).2.trans (h.free k hk hnone)
  case owned =>
    intro k y hk hy
    have hne : k ≠ i := by
      rintro rfl
      simp [Table.clear] at hy
    rw [(hslot k hne).1] at hy
    obtain ⟨s', hl, hs', hp'⟩ := h.owned k y hk hy
    have hne' : s' ≠ s := by
      rintro rfl
      exact hne (some.inj (hp'.symm.trans hp))
    exact ⟨s', (hslot k hne).2.trans hl, (update_of_ne hne' ..).trans hs', hp'⟩
  case item =>
    intro s' y hy
    obtain ⟨hne, hhas⟩ := hitem s' y hy
    obtain ⟨k, hk, hp', hx, hl⟩ := h.item s' y hhas
    have hki : k ≠ i := by
      rintro rfl
      exact hne (h.eq_of_place (hhas ▸ some_ne_none y) hs hp' hp)
    exact ⟨k, hk, hp', (hslot k hki).1.trans hx, (hslot k hki).2.trans hl⟩
  case inj =>
    intro s1 s2 y h1 h2
    exact h.inj s1 s2 y (hitem s1 y h1).2 (hitem s2 y h2).2

theorem Kept.move (h : Kept owner T R) (hs : T.has s ≠ none) (hp : T.place s = some i) (hj : ¬R j) :
    Kept owner (T.move s i j) fun k => (R k ∧ k ≠ i) ∨ k = j := by
  obtain ⟨x, hx⟩ := ne_none_iff_exists'.1 hs
  obtain ⟨i', hi, hp', hxi, hli⟩ := h.item s x hx
  obtain rfl : i = i' := some.inj (hp.symm.trans hp')
  have hold : ∀ k, R k → (T.move s i j).handle k = T.handle k ∧ (T.move s i j).label k = T.label k := by
    intro k hk
    have hne : k ≠ j := fun heq => hj (heq ▸ hk)
    exact ⟨update_of_ne hne .., update_of_ne hne ..⟩
  have hself : (T.move s i j).handle j = some x ∧ (T.move s i j).label j = some (owner s) ∧
      (T.move s i j).place s = some j := by
    simp [Table.move, hxi, hli]
  have hplace : ∀ s', s' ≠ s → (T.move s i j).place s' = T.place s' := fun s' hne => update_of_ne hne ..
  constructor
  case free =>
    rintro k (⟨hk, -⟩ | rfl) hnone
    · rw [(hold k hk).1] at hnone
      exact (hold k hk).2.trans (h.free k hk hnone)
    · simp [hself.1] at hnone
  case owned =>
    rintro k y (⟨hk, hki⟩ | rfl) hy
    · rw [(hold k hk).1] at hy
      obtain ⟨s', hl, hs', hp''⟩ := h.owned k y hk hy
      have hne : s' ≠ s := by
        rintro rfl
        exact hki (some.inj (hp''.symm.trans hp))
      exact ⟨s', (hold k hk).2.trans hl, hs', (hplace s' hne).trans hp''⟩
    · exact ⟨s, hself.2.1, by rw [← hy, hself.1]; exact hx, hself.2.2⟩
  case item =>
    intro s' y hy
    by_cases hne : s' = s
    · subst hne
      exact ⟨j, .inr rfl, hself.2.2, by rw [hself.1, ← hx]; exact hy, hself.2.1⟩
    · obtain ⟨k, hk, hp'', hxk, hl⟩ := h.item s' y hy
      have hki : k ≠ i := by
        rintro rfl
        have hs' : T.has s' ≠ none := fun hnone => some_ne_none y (hy.symm.trans hnone)
        exact hne (h.eq_of_place hs' hs hp'' hp)
      exact ⟨k, .inl ⟨hk, hki⟩, (hplace s' hne).trans hp'', (hold k hk).1.trans hxk, (hold k hk).2.trans hl⟩
  case inj => exact h.inj

end Kept

end SipRouter.Lib.Slots
