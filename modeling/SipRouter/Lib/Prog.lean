import Mathlib

/-!
# Programs over a shared state

A program accesses the shared state `σ` one atomic step at a time and shows
events `ε`, between which other programs may run. `wp I p Q` is the condition
under which `p`, run alone, ends with `Q`, and meets `I` at each of its events.
-/

namespace SipRouter.Lib

/-- A program with results in `α`. A step changes the state by `f` and goes on with what it
read, the state before. -/
inductive Prog (σ ε α : Type) where
  | ret (a : α)
  | step (f : σ → σ) (k : σ → Prog σ ε α)
  | event (e : ε) (k : Prog σ ε α)

namespace Prog

variable {σ ε α β : Type}

protected def bind : Prog σ ε α → (α → Prog σ ε β) → Prog σ ε β
  | .ret a, g => g a
  | .step f k, g => .step f fun s => (k s).bind g
  | .event e k, g => .event e (k.bind g)

instance : Monad (Prog σ ε) where
  pure := .ret
  bind := .bind

/-- A value computed from the state. -/
def read (f : σ → α) : Prog σ ε α := .step id fun s => .ret (f s)

/-- A change of the state. -/
def update (f : σ → σ) : Prog σ ε Unit := .step f fun _ => .ret ()

/-- A change of the state, and a value computed from it in the same step. -/
def modifyGet (f : σ → α × σ) : Prog σ ε α := .step (fun s => (f s).2) fun s => .ret (f s).1

/-- An event. -/
def emit (e : ε) : Prog σ ε Unit := .event e (.ret ())

/-- A program that is run if `b` holds. -/
def when (b : Bool) (p : Prog σ ε Unit) : Prog σ ε Unit := if b then p else pure ()

/-! ## Weakest preconditions -/

def wp (I : σ → Prop) : Prog σ ε α → (α → σ → Prop) → σ → Prop
  | .ret a, Q, s => Q a s
  | .step f k, Q, s => wp I (k s) Q (f s)
  | .event _ k, Q, s => I s ∧ wp I k Q s

variable {c : Prop} {p q : Prog σ ε α} {g : α → Prog σ ε β} {f : σ → α × σ}

section Rules

variable {I : σ → Prop} {Q Q' : α → σ → Prop} {s : σ}

@[simp] theorem wp_pure {a} : wp I (pure a : Prog σ ε α) Q s ↔ Q a s := .rfl

@[simp] theorem wp_read {f} : wp I (read f : Prog σ ε α) Q s ↔ Q (f s) s := .rfl

@[simp] theorem wp_update {Q f} : wp I (update f : Prog σ ε Unit) Q s ↔ Q () (f s) := .rfl

@[simp] theorem wp_modifyGet {f} : wp I (modifyGet f : Prog σ ε α) Q s ↔ Q (f s).1 (f s).2 := .rfl

@[simp] theorem wp_emit {Q e} : wp I (emit e : Prog σ ε Unit) Q s ↔ I s ∧ Q () s := .rfl

@[simp] theorem wp_when {Q} (b : Bool) (p : Prog σ ε Unit) :
    wp I (when b p) Q s ↔ if b then wp I p Q s else Q () s := by
  cases b <;> rfl

/-- One program after another. -/
@[simp] theorem wp_bind (p : Prog σ ε α) (g : α → Prog σ ε β) {Q} :
    wp I (p >>= g) Q s ↔ wp I p (fun a => wp I (g a) Q) s := by
  show wp I (p.bind g) Q s ↔ _
  induction p generalizing s with
  | ret a => rfl
  | step f k ih => exact ih s
  | event e k ih =>
    constructor
    · intro h
      exact ⟨h.1, ih.1 h.2⟩
    · intro h
      exact ⟨h.1, ih.2 h.2⟩

theorem wp_when_emit {Q} (b : Bool) (e : ε) : wp (fun _ => True) (when b (emit e) : Prog σ ε Unit) Q s ↔ Q () s := by
  cases b <;> simp

theorem wp_ite [Decidable c] (hp : c → wp I p Q s) (hq : ¬ c → wp I q Q s) : wp I (if c then p else q) Q s := by
  split_ifs with h
  · exact hp h
  · exact hq h

theorem wp_mono {I'} (h : wp I p Q s) (hI : ∀ s', I s' → I' s') (hQ : ∀ a s', Q a s' → Q' a s') : wp I' p Q' s := by
  induction p generalizing s with
  | ret a => exact hQ a s h
  | step f k ih => exact ih s h
  | event e k ih => exact ⟨hI s h.1, ih h.2⟩

theorem wp_imp (h : wp I p Q s) (hQ : ∀ a s', Q a s' → Q' a s') : wp I p Q' s := wp_mono h (fun _ => id) hQ

end Rules

/-! ## What a program does to the state -/

/-- The state at the end is related to the one at the start. -/
def Moves (R : σ → σ → Prop) (p : Prog σ ε α) : Prop := ∀ s, wp (fun _ => True) p (fun _ => R s) s

namespace Moves

variable {R : σ → σ → Prop}

theorem pure (hrefl : ∀ s, R s s) (a : α) : Moves R (Pure.pure a : Prog σ ε α) := hrefl

theorem read (hrefl : ∀ s, R s s) (f : σ → α) : Moves R (Prog.read f : Prog σ ε α) := hrefl

theorem update {f} (hf : ∀ s, R s (f s)) : Moves R (Prog.update f : Prog σ ε Unit) := hf

theorem modifyGet (hf : ∀ s, R s (f s).2) : Moves R (Prog.modifyGet f : Prog σ ε α) := hf

theorem emit (hrefl : ∀ s, R s s) (e : ε) : Moves R (Prog.emit e : Prog σ ε Unit) := fun s => ⟨trivial, hrefl s⟩

theorem bind [IsTrans σ R] (hp : Moves R p) (hg : ∀ a, Moves R (g a)) : Moves R (p >>= g) := by
  intro s
  rw [wp_bind]
  refine wp_imp (hp s) fun a s' hs => wp_imp (hg a s') fun b s'' hs' => ?_
  exact IsTrans.trans s s' s'' hs hs'

theorem when (hrefl : ∀ s, R s s) {p : Prog σ ε Unit} (b : Bool) (hp : b = true → Moves R p) :
    Moves R (Prog.when b p) := by
  cases b with
  | false => exact pure hrefl ()
  | true => exact hp rfl

theorem ite [Decidable c] (hp : c → Moves R p) (hq : ¬ c → Moves R q) : Moves R (if c then p else q) := by
  split_ifs with h
  · exact hp h
  · exact hq h

end Moves

end Prog

end SipRouter.Lib
