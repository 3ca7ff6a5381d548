import Mathlib.Logic.Function.Basic

/-!
# Programs that may wait for ever

A program over a state is a `StateT σ Option`: it has no result if it waits for something
that does not come. `Returns m s Q` says that it ends, and how. The rules follow the
program.
-/

namespace SipRouter.Lib

open Option

variable {σ α β : Type} {s : σ} {Q Q' : α → σ → Prop}

def Returns (m : StateT σ Option α) (s : σ) (Q : α → σ → Prop) : Prop := ∃ a s', m s = some (a, s') ∧ Q a s'

namespace Returns

@[simp] theorem pure_iff {a} : Returns (pure a : StateT σ Option α) s Q ↔ Q a s := by
  constructor
  · rintro ⟨_, _, h, hQ⟩
    cases h
    exact hQ
  · exact fun h => ⟨a, s, rfl, h⟩

variable {m : StateT σ Option α} {f : α → StateT σ Option β}

@[simp] theorem bind_iff {Q} : Returns (m >>= f) s Q ↔ Returns m s fun a s' => Returns (f a) s' Q := by
  constructor
  · rintro ⟨b, s'', h, hQ⟩
    obtain ⟨⟨a, s'⟩, hm, hf⟩ := bind_eq_some_iff.1 h
    exact ⟨a, s', hm, b, s'', hf, hQ⟩
  · rintro ⟨a, s', hm, b, s'', hf, hQ⟩
    exact ⟨b, s'', bind_eq_some_iff.2 ⟨(a, s'), hm, hf⟩, hQ⟩

@[simp] theorem get_iff {Q} : Returns (get : StateT σ Option σ) s Q ↔ Q s s := by
  constructor
  · rintro ⟨_, _, h, hQ⟩
    cases h
    exact hQ
  · exact fun h => ⟨s, s, rfl, h⟩

@[simp] theorem modify_iff {f Q} : Returns (modify f : StateT σ Option PUnit) s Q ↔ Q ⟨⟩ (f s) := by
  constructor
  · rintro ⟨_, _, h, hQ⟩
    cases h
    exact hQ
  · exact fun h => ⟨⟨⟩, f s, rfl, h⟩

theorem ite {c} [Decidable c] {m'} (h : c → Returns m s Q) (h' : ¬ c → Returns m' s Q) :
    Returns (if c then m else m') s Q := by
  split
  · exact h ‹_›
  · exact h' ‹_›

theorem mono (h : Returns m s Q) (hQ : ∀ a s', Q a s' → Q' a s') : Returns m s Q' := by
  obtain ⟨a, s', hm, hq⟩ := h
  exact ⟨a, s', hm, hQ a s' hq⟩

theorem bind {R} (h : Returns m s Q) (hf : ∀ a s', Q a s' → Returns (f a) s' R) :
    Returns (m >>= f) s R :=
  bind_iff.2 (h.mono hf)

end Returns

end SipRouter.Lib
