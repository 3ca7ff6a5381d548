import SipRouter.Lib.Buckets

/-!
# Rings of lists

A ring is a family of lists that is used round and round: number `k` of an endless
sequence of lists is the list `slot k`, and as long as at most `N` successive
numbers are in use they have different lists. `entries` are the elements of
the lists in use, in their order and each with the number of its list: a queue, to which
elements are added in the last list and taken from the first.

A `Ledger` is what a queue owes: everything that was queued was served, is
waiting or was withdrawn, and what was served and what is waiting are in the order in
which they were queued.
-/

namespace SipRouter.Lib.Ring

open Buckets Function
open List hiding drop

variable {κ α : Type} {slot : Nat → κ} {b : κ → List α} {first n : Nat}

/-- The elements of the `n` lists from number `first` on. -/
def entries (slot : Nat → κ) (b : κ → List α) (first n : Nat) : List (α × Nat) :=
  (List.range' first n).flatMap fun k => (b (slot k)).map fun x => (x, k)

/-- Numbers less than `N` apart have different lists. -/
def Apart (slot : Nat → κ) (N : Nat) : Prop := ∀ {k k'}, k < k' → k' < k + N → slot k ≠ slot k'

theorem mem_entries {x k} : (x, k) ∈ entries slot b first n ↔ first ≤ k ∧ k < first + n ∧ x ∈ b (slot k) := by
  simp only [entries, mem_flatMap, mem_range'_1, mem_map, Prod.mk.injEq]
  constructor
  · rintro ⟨k', ⟨hle, hlt⟩, x', hx, rfl, rfl⟩
    exact ⟨hle, hlt, hx⟩
  · rintro ⟨hle, hlt, hx⟩
    exact ⟨k, ⟨hle, hlt⟩, x, hx, rfl, rfl⟩

theorem entries_cons (slot : Nat → κ) (b : κ → List α) (first n : Nat) :
    entries slot b first (n + 1) = (b (slot first)).map (fun x => (x, first)) ++ entries slot b (first + 1) n := by
  rw [entries, range'_succ, flatMap_cons, entries]

theorem entries_snoc :
    entries slot b first (n + 1) = entries slot b first n ++ (b (slot (first + n))).map fun x => (x, first + n) := by
  rw [entries, range'_concat, flatMap_append, entries]
  simp

theorem entries_congr {b'} (h : ∀ k, first ≤ k → k < first + n → b' (slot k) = b (slot k)) :
    entries slot b' first n = entries slot b first n := by
  rw [entries, entries]
  apply flatMap_congr
  intro k hk
  obtain ⟨hle, hlt⟩ := mem_range'_1.1 hk
  rw [h k hle hlt]

/-- An empty first list can be left. -/
theorem entries_leave (h : b (slot first) = []) : entries slot b first (n + 1) = entries slot b (first + 1) n := by
  rw [entries_cons, h]
  rfl

/-- An empty list can be taken into use. -/
theorem entries_extend (h : b (slot (first + n)) = []) : entries slot b first (n + 1) = entries slot b first n := by
  rw [entries_snoc, h]
  simp

/-- An element that is dropped leaves its place to those behind it. -/
theorem entries_drop [DecidableEq α] {x} : entries slot (drop x b) first n =
    (entries slot b first n).filter fun e => !decide (e.1 = x) := by
  rw [entries, entries, filter_flatMap]
  apply flatMap_congr
  intro k _
  simp only [drop, filter_map, ← decide_not]
  rfl

/-- An element that is pushed to the last list is the last. -/
theorem entries_push [DecidableEq κ] {N} (hslot : Apart slot N) (hn : n < N) {x} :
    entries slot (push (slot (first + n)) x b) first (n + 1) = entries slot b first (n + 1) ++ [(x, first + n)] := by
  have hold : entries slot (push (slot (first + n)) x b) first n = entries slot b first n := by
    apply entries_congr
    intro k hle hlt
    exact update_of_ne (hslot hlt (by omega)) ..
  rw [entries_snoc, entries_snoc, hold, push, update_self, map_append, append_assoc]
  rfl

/-- Those that leave a queue bring others no further back. -/
theorem idxOf_filter_le [BEq α] [LawfulBEq α] {p x} (hx : p x = true) (l : List α) :
    (l.filter p).idxOf x ≤ l.idxOf x := by
  induction l with
  | nil => exact le_refl _
  | cons y l ih =>
    by_cases hy : y = x
    · subst hy
      rw [filter_cons_of_pos hx, idxOf_cons_self, idxOf_cons_self]
    · rw [idxOf_cons_ne _ hy, filter_cons]
      split_ifs
      · rw [idxOf_cons_ne _ hy]
        exact Nat.succ_le_succ ih
      · exact Nat.le_succ_of_le ih

/-! ## What a queue owes -/

structure Ledger (queued served waiting withdrawn : List (α × Nat)) (last : Nat) : Prop where
  balance : queued.Perm (served ++ waiting ++ withdrawn)
  order : (served ++ waiting).Sublist queued
  sorted : queued.Pairwise fun e e' => e.2 ≤ e'.2
  bound : ∀ e ∈ queued, e.2 ≤ last

namespace Ledger

variable {queued served waiting withdrawn : List (α × Nat)} {last : Nat}

theorem empty (last : Nat) : Ledger ([] : List (α × Nat)) [] [] [] last where
  balance := List.Perm.refl []
  order := List.Sublist.refl []
  sorted := List.Pairwise.nil
  bound _ h := nomatch h

theorem later (h : Ledger queued served waiting withdrawn last) {last'} (hle : last ≤ last') :
    Ledger queued served waiting withdrawn last' :=
  { h with bound := fun e he => (h.bound e he).trans hle }

/-- An element is queued with the last number. -/
theorem queue (h : Ledger queued served waiting withdrawn last) {x} :
    Ledger (queued ++ [(x, last)]) served (waiting ++ [(x, last)]) withdrawn last where
  balance := by
    have hmove : (served ++ waiting ++ withdrawn ++ [(x, last)]).Perm
        (served ++ (waiting ++ [(x, last)]) ++ withdrawn) := by
      rw [← append_assoc served, append_assoc (served ++ waiting), append_assoc (served ++ waiting)]
      exact perm_append_comm.append_left _
    exact (h.balance.append_right _).trans hmove
  order := by
    rw [← append_assoc]
    exact h.order.append (List.Sublist.refl _)
  sorted := by
    rw [pairwise_append]
    refine ⟨h.sorted, pairwise_singleton _ _, ?_⟩
    intro e he e' he'
    rw [mem_singleton.1 he']
    exact h.bound e he
  bound e he := by
    rcases mem_append.1 he with he | he
    · exact h.bound e he
    · rw [mem_singleton.1 he]

/-- The first that waits is served. -/
theorem serve {e} (h : Ledger queued served (e :: waiting) withdrawn last) :
    Ledger queued (served ++ [e]) waiting withdrawn last where
  balance := by simpa using h.balance
  order := by simpa using h.order
  sorted := h.sorted
  bound := h.bound

/-- Elements that wait are withdrawn. -/
theorem withdraw (h : Ledger queued served waiting withdrawn last) (p : α × Nat → Bool) :
    Ledger queued served (waiting.filter fun e => !p e) (withdrawn ++ waiting.filter p) last where
  balance := by
    have hsplit := perm_append_comm.trans (filter_append_perm p waiting)
    have hmove : (waiting ++ withdrawn).Perm
        (waiting.filter (fun e => !p e) ++ (withdrawn ++ waiting.filter p)) := by
      refine (hsplit.symm.append_right withdrawn).trans ?_
      rw [append_assoc]
      exact perm_append_comm.append_left _
    refine h.balance.trans ?_
    rw [append_assoc, append_assoc]
    exact hmove.append_left served
  order := ((List.Sublist.refl served).append filter_sublist).trans h.order
  sorted := h.sorted
  bound := h.bound

end Ledger

end SipRouter.Lib.Ring
