import Mathlib

/-!
# Walking a cyclic counter

`ahead m p i` is the number of steps, at least one, from `p` to the next number
that is `i` modulo `m`. A counter that is read through several of its bit
ranges meets each residue once a turn, and `ahead` says when. The three facts a
client needs are that the walk arrives (`add_ahead`), that nothing earlier does
(`ahead_unique`), and that a step either arrives or shortens the walk by one
(`ahead_eq_one_iff`, `ahead_succ`).
-/

namespace SipRouter.Lib

/-- Steps, at least one, from `p` to the next number that is `i` modulo `m`. -/
def ahead (m p i : Nat) : Nat := (i + (m - 1 - p % m)) % m + 1

theorem ahead_pos (m p i : Nat) : 1 ≤ ahead m p i := by
  unfold ahead
  omega

variable {m i p n k : Nat}

theorem ahead_le (hm : 0 < m) (p i : Nat) : ahead m p i ≤ m := by
  unfold ahead
  have := Nat.mod_lt (i + (m - 1 - p % m)) hm
  omega

/-- The walk ends on the residue it was asked for. -/
theorem add_ahead (p : Nat) (hi : i < m) : (p + ahead m p i) % m = i := by
  have hp : p % m < m := Nat.mod_lt p (by omega)
  have hsum : p % m + (i + (m - 1 - p % m) + 1) = i + m := by omega
  calc (p + ahead m p i) % m
      = (p % m + (i + (m - 1 - p % m) + 1)) % m := by
        unfold ahead
        rw [Nat.mod_add_mod, ← Nat.add_assoc, ← Nat.add_assoc, Nat.add_mod _ 1, Nat.add_mod p,
          Nat.mod_mod, ← Nat.add_mod p, ← Nat.add_mod]
    _ = i := by rw [hsum, Nat.add_mod_right, Nat.mod_eq_of_lt hi]

/-- No two distances of one turn end on the same residue. -/
theorem turn_inj (hn : 1 ≤ n) (hnm : n ≤ m) (hk : 1 ≤ k) (hkm : k ≤ m) (h : (p + n) % m = (p + k) % m) : n = k := by
  have hmod : n ≡ k [MOD m] := Nat.ModEq.add_left_cancel' p h
  rcases lt_trichotomy n k with hlt | heq | hgt
  · have hd := (Nat.modEq_iff_dvd' (Nat.le_of_lt hlt)).1 hmod
    have := Nat.le_of_dvd (by omega) hd
    omega
  · exact heq
  · have hd := (Nat.modEq_iff_dvd' (Nat.le_of_lt hgt)).1 hmod.symm
    have := Nat.le_of_dvd (by omega) hd
    omega

/-- The first arrival of a turn is `ahead`. -/
theorem ahead_unique (hi : i < m) (hn : 1 ≤ n) (hnm : n ≤ m) (h : (p + n) % m = i) : ahead m p i = n :=
  turn_inj (ahead_pos m p i) (ahead_le (by omega) p i) hn hnm
    ((add_ahead p hi).trans h.symm)

/-- One step arrives exactly when the next number has the residue. -/
theorem ahead_eq_one_iff {p} (hi : i < m) : ahead m p i = 1 ↔ (p + 1) % m = i := by
  constructor
  · intro h
    have := add_ahead p hi
    rwa [h] at this
  · intro h
    exact ahead_unique hi (le_refl 1) (by omega) h

/-- A step that does not arrive leaves one step less. -/
theorem ahead_succ (hi : i < m) (h : ahead m p i ≠ 1) : ahead m (p + 1) i + 1 = ahead m p i := by
  have hpos := ahead_pos m p i
  have hle := ahead_le (by omega : 0 < m) p i
  have hend := add_ahead p hi
  have : ahead m (p + 1) i = ahead m p i - 1 := by
    apply ahead_unique hi (by omega) (by omega)
    rw [show p + 1 + (ahead m p i - 1) = p + ahead m p i by omega]
    exact hend
  omega

/-- A counter reduced modulo a multiple of `m` walks the same residues. -/
theorem ahead_mod {p i} (h : m ∣ k) : ahead m (p % k) i = ahead m p i := by
  unfold ahead
  rw [Nat.mod_mod_of_dvd p h]

/-- Any later visit gives the next one. -/
theorem ahead_eq_mod (hk : k < m) (hn : 1 ≤ n) (h : (p + n) % m = k) : ahead m p k = (n - 1) % m + 1 := by
  have hlt := Nat.mod_lt (n - 1) (Nat.zero_lt_of_lt hk)
  refine ahead_unique hk (by omega) (by omega) ?_
  calc (p + ((n - 1) % m + 1)) % m
      = (p + 1 + (n - 1) % m) % m := by congr 1; omega
    _ = (p + 1 + (n - 1)) % m := Nat.add_mod_mod ..
    _ = (p + n) % m := by congr 1; omega
    _ = k := h

end SipRouter.Lib
