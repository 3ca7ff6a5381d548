import Mathlib.Data.List.Basic

/-!
# Keyed tables behind a cache

A table is a list of rows, one for a key. A cache in front of it knows of some rows that they are
in the table as it has them (they are clean), and for some keys it answers for
what is in the table (it owns them). `Backed` says that clean rows are there and that there are
no others than owned ones. When everything owned is clean the table is what the cache says.
-/

namespace SipRouter.Lib.Keyed

variable {ρ κ : Type} [DecidableEq κ] {key : ρ → κ} {rows : List ρ} {r x : ρ} {k : κ}

/-- Write a row, in place of the one with its key. -/
def put (key : ρ → κ) (r : ρ) (rows : List ρ) : List ρ := r :: rows.filter fun x => key x ≠ key r

/-- Delete the row with a key. -/
def del (key : ρ → κ) (k : κ) (rows : List ρ) : List ρ := rows.filter fun x => key x ≠ k

theorem mem_put : x ∈ put key r rows ↔ x = r ∨ x ∈ rows ∧ key x ≠ key r := by
  simp [put]

theorem mem_del : x ∈ del key k rows ↔ x ∈ rows ∧ key x ≠ k := by
  simp [del]

/-- The table holds the clean rows, and none but those of owned keys. -/
structure Backed (key : ρ → κ) (rows : List ρ) (clean : ρ → Prop) (owned : κ → Prop) : Prop where
  clean_mem : ∀ r, clean r → r ∈ rows
  owned_key : ∀ r ∈ rows, owned (key r)
  single : ∀ r ∈ rows, ∀ r' ∈ rows, key r = key r' → r = r'

namespace Backed

variable {clean clean' : ρ → Prop} {owned owned' : κ → Prop}

omit [DecidableEq κ] in
theorem empty : Backed key [] (fun _ => False) owned where
  clean_mem _ h := h.elim
  owned_key _ h := nomatch h
  single _ h := nomatch h

omit [DecidableEq κ] in
/-- A cache may know less and own more. -/
theorem mono (h : Backed key rows clean owned) (hclean : ∀ r, clean' r → clean r)
    (howned : ∀ k, owned k → owned' k) : Backed key rows clean' owned' where
  clean_mem r hr := h.clean_mem r (hclean r hr)
  owned_key r hr := howned _ (h.owned_key r hr)
  single := h.single

theorem put (h : Backed key rows clean owned) (r : ρ) :
    Backed key (put key r rows) (fun x => x = r ∨ clean x ∧ key x ≠ key r)
      (fun k => k = key r ∨ owned k) where
  clean_mem x hx := by
    rcases hx with rfl | ⟨hx, hk⟩
    · exact mem_put.2 (.inl rfl)
    · exact mem_put.2 (.inr ⟨h.clean_mem x hx, hk⟩)
  owned_key x hx := by
    rcases mem_put.1 hx with rfl | ⟨hx, -⟩
    · exact .inl rfl
    · exact .inr (h.owned_key x hx)
  single x hx y hy heq := by
    rcases mem_put.1 hx with rfl | ⟨hx, hxk⟩
    · rcases mem_put.1 hy with rfl | ⟨-, hyk⟩
      · rfl
      · exact absurd heq.symm hyk
    · rcases mem_put.1 hy with rfl | ⟨hy, -⟩
      · exact absurd heq hxk
      · exact h.single x hx y hy heq

theorem del (h : Backed key rows clean owned) (k : κ) :
    Backed key (del key k rows) (fun x => clean x ∧ key x ≠ k) (fun k' => owned k' ∧ k' ≠ k) where
  clean_mem x hx := mem_del.2 ⟨h.clean_mem x hx.1, hx.2⟩
  owned_key x hx := ⟨h.owned_key x (mem_del.1 hx).1, (mem_del.1 hx).2⟩
  single x hx y hy := h.single x (mem_del.1 hx).1 y (mem_del.1 hy).1

omit [DecidableEq κ] in
/-- When everything owned is clean the table is what the cache says. -/
theorem mem_iff (h : Backed key rows clean owned) (hall : ∀ k, owned k → ∃ r, clean r ∧ key r = k) :
    r ∈ rows ↔ clean r := by
  constructor
  · intro hr
    obtain ⟨r', hr', hkey⟩ := hall _ (h.owned_key r hr)
    rwa [← h.single r' (h.clean_mem r' hr') r hr hkey]
  · exact h.clean_mem r

end Backed

end SipRouter.Lib.Keyed
