import Mathlib.Data.List.Nodup

/-!
# Arrays with one entry for a key

The place of a key in such an array is found by a search. To erase or modify the entry at
that place is to do it for the key.
-/

namespace SipRouter.Lib

open List

variable {α κ : Type} [DecidableEq κ] {f : α → κ} {l a b : List α} {x : κ}

theorem filter_key_of_notMem (h : x ∉ l.map f) : (l.filter fun e => f e ≠ x) = l := by
  apply filter_eq_self.2
  intro e he
  have : f e ≠ x := fun heq => h (heq ▸ mem_map_of_mem he)
  simpa using this

theorem eraseIdx_findIdx_key (h : (l.map f).Nodup) {x} :
    l.eraseIdx (l.findIdx fun e => f e = x) = l.filter fun e => f e ≠ x := by
  induction l with
  | nil => rfl
  | cons e l ih =>
    rw [map_cons, nodup_cons] at h
    rw [findIdx_cons]
    by_cases he : f e = x
    · have hx : x ∉ l.map f := he ▸ h.1
      simp only [he, decide_true, cond_true, eraseIdx_cons_zero]
      rw [filter_cons_of_neg (by simp [he]), filter_key_of_notMem hx]
    · simp only [he, decide_false, cond_false, eraseIdx_cons_succ]
      rw [filter_cons_of_pos (by simp [he]), ih h.2]

theorem modify_findIdx_key (h : (l.map f).Nodup) {x g} :
    l.modify (l.findIdx fun e => f e = x) g = l.map fun e => if f e = x then g e else e := by
  induction l with
  | nil => rfl
  | cons e l ih =>
    rw [map_cons, nodup_cons] at h
    rw [findIdx_cons]
    by_cases he : f e = x
    · have hsame : (l.map fun e => if f e = x then g e else e) = l := by
        refine (map_congr_left fun e' he' => if_neg ?_).trans (map_id l)
        exact fun heq => h.1 (he.trans heq.symm ▸ mem_map_of_mem he')
      simp [he, hsame]
    · simp [he, ih h.2]

/-- The entry at a place is found there. -/
theorem findIdx_key_eq (h : (l.map f).Nodup) {r e} (hr : l[r]? = some e) : (l.findIdx fun e' => f e' = f e) = r := by
  induction l generalizing r with
  | nil => simp at hr
  | cons e' l ih =>
    rw [map_cons, nodup_cons] at h
    rw [findIdx_cons]
    cases r with
    | zero =>
      rw [getElem?_cons_zero, Option.some.injEq] at hr
      simp [hr]
    | succ r =>
      rw [getElem?_cons_succ] at hr
      have hne : f e' ≠ f e := fun heq => h.1 (heq ▸ mem_map_of_mem (mem_of_getElem? hr))
      simp [hne, ih h.2 hr]

theorem findIdx_key_lt_iff : (l.findIdx fun e => f e = x) < l.length ↔ x ∈ l.map f := by
  rw [findIdx_lt_length]
  simp

/-- If the key is in the first part, that part gets shorter by one. -/
theorem length_filter_key (h : (l.map f).Nodup) (hx : x ∈ l.map f) :
    (l.filter fun e => f e ≠ x).length + 1 = l.length := by
  have hlt := findIdx_key_lt_iff.2 hx
  rw [← eraseIdx_findIdx_key h, length_eraseIdx_of_lt hlt]
  omega

theorem findIdx_key_append : (((a ++ b).findIdx fun e => f e = x) < a.length) ↔ x ∈ a.map f := by
  rw [findIdx_append]
  by_cases hx : x ∈ a.map f
  · have hlt := findIdx_key_lt_iff.2 hx
    simp [hx, hlt]
  · have hge : ¬ (a.findIdx fun e => f e = x) < a.length := fun h => hx (findIdx_key_lt_iff.1 h)
    simp [hx, hge]

end SipRouter.Lib
