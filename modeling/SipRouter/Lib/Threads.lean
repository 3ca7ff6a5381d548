import Mathlib

/-!
# Interleaved processes

Any number of processes run the same code, one atomic step of one of them at a
time. A process is at a program point `κ`; from there `code` takes its next step
on the shared state `σ`. A process that has returned may be called again at an
entry point. A run may be restricted to steps that meet a condition: `own` on the
point of the process and the shared state, `beside` on its point and the point of
each other process.

`Reach.safe` is the rule for proof outlines: an invariant of the shared state, an assertion at
every point and a relation between any two points hold in every state reached if
each step keeps its own assertion and those of the others.
-/

namespace SipRouter.Lib

open Function

structure Threads (κ σ : Type) where
  code : κ → σ → κ × σ
  returned : κ → Bool
  entry : κ → σ → Bool

structure System (ι κ σ : Type) where
  shared : σ
  point : ι → κ

variable {ι κ σ : Type} [DecidableEq ι] {T : Threads κ σ}

/-- Process `i` is called at `k`. -/
def System.enter (s : System ι κ σ) (i : ι) (k : κ) : System ι κ σ := { s with point := update s.point i k }

/-- Process `i` takes its next step. -/
def System.fire (T : Threads κ σ) (s : System ι κ σ) (i : ι) : System ι κ σ where
  shared := (T.code (s.point i) s.shared).2
  point := update s.point i (T.code (s.point i) s.shared).1

/-- A condition on the steps of a run. -/
structure Cond (κ σ : Type) where
  own : κ → σ → Bool := fun _ _ => true
  beside : κ → κ → Bool := fun _ _ => true

/-- No condition. -/
def Cond.none : Cond κ σ := {}

/-- The step of process `i` meets the condition. -/
def Cond.Meets (C : Cond κ σ) (s : System ι κ σ) (i : ι) : Prop :=
  C.own (s.point i) s.shared ∧ ∀ j, j ≠ i → C.beside (s.point i) (s.point j)

/-- The states of the runs from `s₀` whose steps meet the condition. -/
inductive Reach (T : Threads κ σ) (C : Cond κ σ) (s₀ : System ι κ σ) : System ι κ σ → Prop
  | start : Reach T C s₀ s₀
  | call {s : System ι κ σ} {i : ι} {k : κ} (h : Reach T C s₀ s) (hret : T.returned (s.point i))
      (hk : T.entry k s.shared) : Reach T C s₀ (s.enter i k)
  | go {s : System ι κ σ} {i : ι} (h : Reach T C s₀ s) (hi : C.Meets s i) :
      Reach T C s₀ (s.fire T i)

/-- An invariant `G`, an assertion `L` at each point and a relation `M` between the points of two
processes. -/
structure Outline (κ σ : Type) where
  G : σ → Prop
  L : κ → σ → Prop
  M : κ → κ → Prop

/-- The outline describes a state. -/
structure Outline.Holds (P : Outline κ σ) (s : System ι κ σ) : Prop where
  inv : P.G s.shared
  at_point : ∀ i, P.L (s.point i) s.shared
  pair : ∀ i j, i ≠ j → P.M (s.point i) (s.point j)

/-- The outline is one for the code, under a condition on the steps. -/
structure Outline.Valid (P : Outline κ σ) (T : Threads κ σ) (C : Cond κ σ) : Prop where
  symm : ∀ {k j}, P.M k j → P.M j k
  entry_at : ∀ {k s}, P.G s → T.entry k s → P.L k s
  entry_pair : ∀ {k j s}, T.entry k s → P.M k j
  keep : ∀ {k s}, P.G s → P.L k s → C.own k s → P.G (T.code k s).2
  own : ∀ {k s}, P.G s → P.L k s → C.own k s → P.L (T.code k s).1 (T.code k s).2
  other : ∀ {k j s}, P.G s → P.L k s → P.L j s → P.M k j → C.own k s → C.beside k j →
    P.L j (T.code k s).2
  pair : ∀ {k j s}, P.G s → P.L k s → P.L j s → P.M k j → C.own k s → C.beside k j →
    P.M (T.code k s).1 j

namespace Outline

variable {P : Outline κ σ} {C : Cond κ σ} {s s₀ : System ι κ σ} {i : ι}

theorem Holds.enter (h : P.Holds s) (hv : P.Valid T C) {k} (hk : T.entry k s.shared) : P.Holds (s.enter i k) where
  inv := h.inv
  at_point := by
    intro j
    rcases eq_or_ne j i with rfl | hj
    · simp only [System.enter, update_self]
      exact hv.entry_at h.inv hk
    · simp only [System.enter, update_of_ne hj]
      exact h.at_point j
  pair := by
    intro j l hjl
    simp only [System.enter]
    rcases eq_or_ne j i with rfl | hj
    · rw [update_self]
      exact hv.entry_pair hk
    · rw [update_of_ne hj]
      rcases eq_or_ne l i with rfl | hl
      · rw [update_self]
        exact hv.symm (hv.entry_pair hk)
      · rw [update_of_ne hl]
        exact h.pair j l hjl

theorem Holds.fire (h : P.Holds s) (hv : P.Valid T C) (hi : C.Meets s i) : P.Holds (s.fire T i) where
  inv := hv.keep h.inv (h.at_point i) hi.1
  at_point := by
    intro j
    rcases eq_or_ne j i with rfl | hj
    · simp only [System.fire, update_self]
      exact hv.own h.inv (h.at_point j) hi.1
    · simp only [System.fire, update_of_ne hj]
      exact hv.other h.inv (h.at_point i) (h.at_point j) (h.pair i j hj.symm) hi.1 (hi.2 j hj)
  pair := by
    -- the stepping process on the left, on the right, or neither of the two
    have hleft : ∀ l, l ≠ i → P.M (T.code (s.point i) s.shared).1 (s.point l) := fun l hl =>
      hv.pair h.inv (h.at_point i) (h.at_point l) (h.pair i l hl.symm) hi.1 (hi.2 l hl)
    intro j l hjl
    simp only [System.fire]
    rcases eq_or_ne j i with rfl | hj
    · rw [update_self, update_of_ne hjl.symm]
      exact hleft l hjl.symm
    · rw [update_of_ne hj]
      rcases eq_or_ne l i with rfl | hl
      · rw [update_self]
        exact hv.symm (hleft j hj)
      · rw [update_of_ne hl]
        exact h.pair j l hjl

end Outline

/-- A valid outline describes every state reached. -/
theorem Reach.safe {P : Outline κ σ} {C : Cond κ σ} {s s₀ : System ι κ σ} (h : Reach T C s₀ s)
    (hv : P.Valid T C) (h0 : P.Holds s₀) : P.Holds s := by
  induction h with
  | start => exact h0
  | call _ _ hk ih => exact ih.enter hv hk
  | go _ hi ih => exact ih.fire hv hi

/-! ## Runs that are written down -/

/-- What happens next in a run. -/
inductive Act (ι κ : Type) where
  | call (i : ι) (k : κ)
  | go (i : ι)

/-- The processes of a run with two. -/
abbrev p0 : Fin 2 := ⟨0, Nat.two_pos⟩
abbrev p1 : Fin 2 := ⟨1, Nat.one_lt_two⟩

/-- The state after the acts. -/
def System.play (T : Threads κ σ) : List (Act ι κ) → System ι κ σ → System ι κ σ
  | [], s => s
  | .call i k :: acts, s => play T acts (s.enter i k)
  | .go i :: acts, s => play T acts (s.fire T i)

/-- Each act may happen when it does. -/
def Act.Fine (T : Threads κ σ) (C : Cond κ σ) : List (Act ι κ) → System ι κ σ → Prop
  | [], _ => True
  | .call i k :: acts, s => T.returned (s.point i) ∧ T.entry k s.shared ∧ Fine T C acts (s.enter i k)
  | .go i :: acts, s => C.Meets s i ∧ Fine T C acts (s.fire T i)

instance Cond.decidableMeets [Fintype ι] (C : Cond κ σ) (s : System ι κ σ) (i : ι) :
    Decidable (C.Meets s i) :=
  inferInstanceAs (Decidable (_ ∧ ∀ j, j ≠ i → _))

instance Act.decidableFine [Fintype ι] (T : Threads κ σ) (C : Cond κ σ) :
    ∀ (acts : List (Act ι κ)) (s : System ι κ σ), Decidable (Act.Fine T C acts s)
  | [], _ => isTrue trivial
  | .call i k :: acts, s =>
    have := decidableFine T C acts (s.enter i k)
    inferInstanceAs (Decidable (_ ∧ _ ∧ _))
  | .go i :: acts, s =>
    have := decidableFine T C acts (s.fire T i)
    inferInstanceAs (Decidable (_ ∧ _))

theorem Reach.play {C s s₀} (h : Reach T C s₀ s)
    (acts : List (Act ι κ)) (ha : Act.Fine T C acts s) : Reach T C s₀ (s.play T acts) := by
  induction acts generalizing s with
  | nil => exact h
  | cons a acts ih =>
    cases a with
    | call i k => exact ih (h.call ha.1 ha.2.1) ha.2.2
    | go i => exact ih (h.go ha.1) ha.2

/-! ## A process alone -/

/-- The first `n` steps of a call at `k`, run alone. -/
def Threads.alone (T : Threads κ σ) : Nat → κ → σ → κ × σ
  | 0, k, s => (k, s)
  | n + 1, k, s => T.alone n (T.code k s).1 (T.code k s).2

end SipRouter.Lib
