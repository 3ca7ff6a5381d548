import SipRouter.Lib.Prog

/-!
# Programs with a lock

The events of a program are to take and to release a lock, and to enter and to
leave the functions `F` that want the lock held when they are called and
released when they return. `exec` runs one program alone: it is stuck when it
takes a lock that it holds. A `Config` runs any number of programs, a step of
one of them at a time. `Obeys` is the discipline of a single program under a
`Protocol`, which says what a process does to the state and what it may expect of
the others, with the lock and without; `Turns` has its rules. If all programs
obey it, no process of a configuration ever breaks the rules of the lock
(`Config.Ok.allowed`), one of them can always go on (`Config.Ok.progress`), and
what the steps of the protocol keep holds in every configuration that is reached
(`Config.ReachBy.ok`).
-/

namespace SipRouter.Lib

inductive LockEvent (F : Type) where
  | lock
  | unlock
  | enter (f : F)
  | leave (f : F)
  deriving DecidableEq

open Prog Function

variable {σ F α β : Type}

/-! ## One program -/

/-- Runs a program alone. There is no result if it waits for a lock that it holds itself. -/
def exec : Prog σ (LockEvent F) α → Bool → σ → Option α × Bool × σ
  | .ret a, held, s => (some a, held, s)
  | .step f k, held, s => exec (k s) held (f s)
  | .event .lock k, held, s => if held then (none, held, s) else exec k true s
  | .event .unlock k, _, s => exec k false s
  | .event (.enter _) k, held, s => exec k held s
  | .event (.leave _) k, held, s => exec k held s

variable {p : Prog σ (LockEvent F) α}

/-- What `wp` says about a program holds when it is run: the invariant where it is stuck, the
postcondition where it ends. -/
theorem exec_of_wp {I s} {Q : α → σ → Prop} (h : wp I p Q s) (held : Bool) :
    match exec p held s with | (none, _, s') => I s' | (some a, _, s') => Q a s' := by
  induction p generalizing held s with
  | ret a => exact h
  | step f k ih => exact ih s h held
  | event e k ih =>
    cases e with
    | lock =>
      cases held with
      | false => exact ih h.2 true
      | true => exact h.1
    | unlock => exact ih h.2 false
    | enter f | leave f => exact ih h.2 held

/-! ## The discipline of a program -/

/-- What processes with a lock do to the state they share. `γ` is what each of them notes. -/
structure Protocol (σ γ : Type) where
  inv : σ → Prop
  /-- what the others do while a process has the lock, or has it not -/
  other : Bool → σ → σ → Prop
  /-- what a process does, with the lock or without, and what it notes -/
  own : Bool → γ → σ → γ → σ → Prop
  refl : ∀ held s, other held s s
  trans : ∀ {held s s' s''}, other held s s' → other held s' s'' → other held s s''
  mono : ∀ {s s'}, other true s s' → other false s s'
  stable : ∀ {held s s'}, other held s s' → inv s → inv s'
  own_refl : ∀ held g s, own held g s g s
  /-- to the others a process is one of the others, and only one of them has the lock -/
  own_other : ∀ {held g s g' s'}, own held g s g' s' →
    ∀ held', ¬ (held = true ∧ held' = true) → other held' s s'

namespace Protocol

variable {γ : Type} {G : Protocol σ γ} {J K : γ → σ → Prop} {held : Bool} {s s' : σ}

theorem inv_own {g g'} (h : G.own held g s g' s') (hs : G.inv s) : G.inv s' := by
  refine G.stable (G.own_other h (!held) ?_) hs
  cases held <;> simp

/-- A change that any process may make and that is nothing to note. -/
def Quiet (G : Protocol σ γ) (s s' : σ) : Prop := ∀ held g, G.own held g s g s'

theorem Quiet.other (h : G.Quiet s s') (g : γ) : G.other held s s' := G.own_other (h false g) held (by simp)

/-- An assertion that the others leave true, while the process has the lock or has it not. -/
class Stable (G : Protocol σ γ) (held : Bool) (J : γ → σ → Prop) : Prop where
  of_other : ∀ {g s s'}, G.other held s s' → J g s → J g s'

instance (P : Prop) : G.Stable held fun _ _ => P := ⟨fun _ h => h⟩

instance [G.Stable held J] [G.Stable held K] : G.Stable held fun g s => J g s ∧ K g s :=
  ⟨fun hs h => ⟨Stable.of_other hs h.1, Stable.of_other hs h.2⟩⟩

instance {P : Prop} [G.Stable held J] : G.Stable held fun g s => P → J g s :=
  ⟨fun hs h hP => Stable.of_other hs (h hP)⟩

instance [G.Stable false J] : G.Stable true J := ⟨fun hs h => Stable.of_other (G.mono hs) h⟩

end Protocol

open Protocol

variable {γ : Type} {G : Protocol σ γ}

/-- A program that obeys the lock, started with it held or not: it takes the lock only when it
does not hold it, releases it only when it does, holds it when it enters a function and does not
when it leaves one. Between two of its steps the others change the state as `G` says, and its own
steps are those of `G`. `Q` is about how it ends. -/
def Obeys (G : Protocol σ γ) :
    Prog σ (LockEvent F) α → Bool → γ → σ → (α → Bool → γ → σ → Prop) → Prop
  | .ret a, held, g, s, Q => ∀ s', G.other held s s' → Q a held g s'
  | .step f k, held, g, s, Q =>
    ∀ s', G.other held s s' → ∃ g', G.own held g s' g' (f s') ∧ Obeys G (k s') held g' (f s') Q
  | .event .lock k, held, g, s, Q =>
    held = false ∧ ∀ s', G.other held s s' → Obeys G k true g s' Q
  | .event .unlock k, held, g, s, Q =>
    held = true ∧ ∀ s', G.other held s s' → Obeys G k false g s' Q
  | .event (.enter _) k, held, g, s, Q => held = true ∧ Obeys G k held g s Q
  | .event (.leave _) k, held, g, s, Q => held = false ∧ Obeys G k held g s Q

section Obeys

variable {held : Bool} {g : γ} {s : σ} {Q Q' : α → Bool → γ → σ → Prop}

theorem Obeys.mono (h : Obeys G p held g s Q) (hQ : ∀ a b g' s', Q a b g' s' → Q' a b g' s') :
    Obeys G p held g s Q' := by
  induction p generalizing held g s with
  | ret a => exact fun s' hs' => hQ a held g s' (h s' hs')
  | step f k ih =>
    intro s' hs'
    obtain ⟨g', hown, h⟩ := h s' hs'
    exact ⟨g', hown, ih s' h⟩
  | event e k ih =>
    cases e with
    | lock | unlock => exact ⟨h.1, fun s' hs' => ih (h.2 s' hs')⟩
    | enter f | leave f => exact ⟨h.1, ih h.2⟩

/-- The others may run first. -/
theorem Obeys.stable (h : Obeys G p held g s Q) {s'} (hs : G.other held s s') : Obeys G p held g s' Q := by
  induction p generalizing held g s s' with
  | ret a | step f k ih => exact fun s'' hs' => h s'' (G.trans hs hs')
  | event e k ih =>
    cases e with
    | lock | unlock => exact ⟨h.1, fun s'' hs' => h.2 s'' (G.trans hs hs')⟩
    | enter f | leave f => exact ⟨h.1, ih h.2 hs⟩

theorem Obeys.bind {k : α → Prog σ (LockEvent F) β} {R}
    (h : Obeys G p held g s fun a b g' s' => Obeys G (k a) b g' s' R) : Obeys G (p >>= k) held g s R := by
  show Obeys G (p.bind k) held g s R
  induction p generalizing held g s with
  | ret a => exact h s (G.refl held s)
  | step f _ ih =>
    intro s' hs'
    obtain ⟨g', hown, h⟩ := h s' hs'
    exact ⟨g', hown, ih s' h⟩
  | event e _ ih =>
    cases e with
    | lock | unlock => exact ⟨h.1, fun s' hs' => ih (h.2 s' hs')⟩
    | enter f | leave f => exact ⟨h.1, ih h.2⟩

/-- Run alone, the program ends. -/
theorem Obeys.exec (h : Obeys G p held g s Q) :
    ∃ a b g' s', exec p held s = (some a, b, s') ∧ Q a b g' s' := by
  induction p generalizing held g s with
  | ret a => exact ⟨a, held, g, s, rfl, h s (G.refl held s)⟩
  | step f k ih =>
    obtain ⟨g', _, h⟩ := h s (G.refl held s)
    exact ih s h
  | event e k ih =>
    cases e with
    | lock =>
      obtain ⟨rfl, h⟩ := h
      exact ih (h s (G.refl false s))
    | unlock => exact ih (h.2 s (G.refl held s))
    | enter f | leave f => exact ih h.2

end Obeys

/-- A program that obeys the lock from any state with the invariant where `A` holds, started with
the lock held or not as `h` says and ended as `h'` says, where `B` holds. -/
def Turns (G : Protocol σ γ) (A : γ → σ → Prop) (p : Prog σ (LockEvent F) α) (h h' : Bool)
    (B : α → γ → σ → Prop) : Prop :=
  ∀ g s, G.inv s → A g s → Obeys G p h g s fun a held g' s' => held = h' ∧ G.inv s' ∧ B a g' s'

namespace Turns

variable {h h' h'' : Bool} {A A' J : γ → σ → Prop} {B : α → γ → σ → Prop} {C : β → γ → σ → Prop}
  {k : α → Prog σ (LockEvent F) β}

theorem access [hA : G.Stable h A] [hB : ∀ a, G.Stable h (B a)] {f : σ → σ} {r : σ → α}
    (hf : ∀ g s, G.inv s → A g s → ∃ g', G.own h g s g' (f s) ∧ B (r s) g' (f s)) :
    Turns G A (.step f fun s => .ret (r s) : Prog σ (LockEvent F) α) h h B := by
  intro g s hs ha s' hs'
  have hinv := G.stable hs' hs
  obtain ⟨g', hown, hb⟩ := hf g s' hinv (hA.of_other hs' ha)
  refine ⟨g', hown, fun s'' hs'' => ⟨rfl, G.stable hs'' (inv_own hown hinv), ?_⟩⟩
  exact (hB _).of_other hs'' hb

theorem value [hA : G.Stable h A] {a} (hB : ∀ g s, A g s → B a g s) :
    Turns G A (Pure.pure a : Prog σ (LockEvent F) α) h h B :=
  fun g _ hs ha s' hs' => ⟨rfl, G.stable hs' hs, hB g s' (hA.of_other hs' ha)⟩

theorem pure [G.Stable h J] {a} : Turns G J (Pure.pure a : Prog σ (LockEvent F) α) h h fun _ => J :=
  value fun _ _ => id

theorem inspect [G.Stable h A] [∀ a, G.Stable h (B a)] {f : σ → α}
    (hf : ∀ g s, G.inv s → A g s → B (f s) g s) :
    Turns G A (Prog.read f : Prog σ (LockEvent F) α) h h B :=
  access fun g s hs ha => ⟨g, G.own_refl h g s, hf g s hs ha⟩

theorem read [G.Stable h J] (f : σ → α) :
    Turns G J (Prog.read f : Prog σ (LockEvent F) α) h h fun _ => J :=
  inspect fun _ _ _ => id

theorem update [G.Stable h A] [G.Stable h A'] {f : σ → σ}
    (hf : ∀ g s, G.inv s → A g s → ∃ g', G.own h g s g' (f s) ∧ A' g' (f s)) :
    Turns G A (Prog.update f : Prog σ (LockEvent F) Unit) h h fun _ => A' :=
  access hf

theorem quiet [hJ : G.Stable h J] {f : σ → σ} (hf : ∀ s, G.Quiet s (f s)) :
    Turns G J (Prog.update f : Prog σ (LockEvent F) Unit) h h fun _ => J :=
  update fun g s _ hj => ⟨g, hf s h g, hJ.of_other ((hf s).other g) hj⟩

theorem modifyGet [hJ : G.Stable h J] {f : σ → α × σ} (hf : ∀ s, G.Quiet s (f s).2) :
    Turns G J (Prog.modifyGet f : Prog σ (LockEvent F) α) h h fun _ => J :=
  access fun g s _ hj => ⟨g, hf s h g, hJ.of_other ((hf s).other g) hj⟩

theorem lock [G.Stable false J] : Turns G J (emit .lock : Prog σ (LockEvent F) Unit) false true fun _ => J := by
  refine fun g s hs hj => ⟨rfl, fun s' hs' s'' hs'' => ⟨rfl, ?_, ?_⟩⟩
  · exact G.stable hs'' (G.stable hs' hs)
  · exact Stable.of_other hs'' (Stable.of_other hs' hj)

theorem unlock [G.Stable false J] : Turns G J (emit .unlock : Prog σ (LockEvent F) Unit) true false fun _ => J := by
  refine fun g s hs hj => ⟨rfl, fun s' hs' s'' hs'' => ⟨rfl, ?_, ?_⟩⟩
  · exact G.stable hs'' (G.stable hs' hs)
  · exact Stable.of_other hs'' (Stable.of_other hs' hj)

theorem enter [G.Stable true J] (f : F) :
    Turns G J (emit (.enter f) : Prog σ (LockEvent F) Unit) true true fun _ => J :=
  fun _ _ hs hj => ⟨rfl, fun _ hs' => ⟨rfl, G.stable hs' hs, Stable.of_other hs' hj⟩⟩

theorem leave [G.Stable false J] (f : F) :
    Turns G J (emit (.leave f) : Prog σ (LockEvent F) Unit) false false fun _ => J :=
  fun _ _ hs hj => ⟨rfl, fun _ hs' => ⟨rfl, G.stable hs' hs, Stable.of_other hs' hj⟩⟩

theorem bind (hp : Turns G A p h h' B) (hk : ∀ a, Turns G (B a) (k a) h' h'' C) : Turns G A (p >>= k) h h'' C := by
  intro g s hs ha
  refine ((hp g s hs ha).mono ?_).bind
  rintro a held g' s' ⟨rfl, hs', hb⟩
  exact hk a g' s' hs' hb

theorem pre (hp : Turns G A p h h' B) (hA : ∀ g s, A' g s → A g s) : Turns G A' p h h' B :=
  fun g s hs ha => hp g s hs (hA g s ha)

theorem post {B' : α → γ → σ → Prop} (hp : Turns G A p h h' B) (hB : ∀ a g s, B a g s → B' a g s) :
    Turns G A p h h' B' :=
  fun g s hs ha => (hp g s hs ha).mono fun a _ g' s' hb => ⟨hb.1, hb.2.1, hB a g' s' hb.2.2⟩

/-- What does not depend on the state may be used in the proof. -/
theorem assume {P : Prop} (hp : P → Turns G A p h h' B) : Turns G (fun g s => A g s ∧ P) p h h' B :=
  fun g s hs ha => hp ha.2 g s hs ha.1

theorem ite {c} [Decidable c] {q} (hp : c → Turns G A p h h' B) (hq : ¬ c → Turns G A q h h' B) :
    Turns G A (if c then p else q) h h' B := by
  split_ifs with hc
  · exact hp hc
  · exact hq hc

theorem when [G.Stable h J] {p : Prog σ (LockEvent F) Unit} (b : Bool)
    (hp : b = true → Turns G J p h h fun _ => J) : Turns G J (Prog.when b p) h h fun _ => J := by
  cases b with
  | false => exact pure
  | true => exact hp rfl

/-- Run alone, the program ends, with what `wp` says about it. -/
theorem exec_of_wp {g s} (hp : Turns G A p h h' B) (hs : G.inv s) (ha : A g s) {Q : α → σ → Prop}
    (hwp : wp (fun _ => True) p Q s) : ∃ a s', exec p h s = (some a, h', s') ∧ Q a s' := by
  obtain ⟨a, held, _, s', hexec, rfl, _⟩ := (hp g s hs ha).exec
  have hq := Lib.exec_of_wp hwp h
  rw [hexec] at hq
  exact ⟨a, s', hexec, hq⟩

end Turns

/-! ## Many programs -/

/-- Processes `ι` that share a state and a lock. -/
structure Config (ι σ F : Type) where
  shared : σ
  owner : Option ι
  prog : ι → Prog σ (LockEvent F) Unit

namespace Config

variable {ι : Type} [DecidableEq ι]

/-- Process `i` goes on with `p`. -/
def goOn (c : Config ι σ F) (i : ι) (p : Prog σ (LockEvent F) Unit) : Config ι σ F :=
  { c with prog := update c.prog i p }

/-- A step of process `i`. A process waits for a lock that another has, or that it has itself. -/
inductive Step (i : ι) : Config ι σ F → Config ι σ F → Prop
  | step {c : Config ι σ F} {f k} (h : c.prog i = .step f k) :
      Step i c { c.goOn i (k c.shared) with shared := f c.shared }
  | lock {c : Config ι σ F} {k} (h : c.prog i = .event .lock k) (hfree : c.owner = none) :
      Step i c { c.goOn i k with owner := some i }
  | unlock {c : Config ι σ F} {k} (h : c.prog i = .event .unlock k) :
      Step i c { c.goOn i k with owner := none }
  | enter {c : Config ι σ F} {f k} (h : c.prog i = .event (.enter f) k) : Step i c (c.goOn i k)
  | leave {c : Config ι σ F} {f k} (h : c.prog i = .event (.leave f) k) : Step i c (c.goOn i k)

/-- The configurations that processes reach that run programs of `P`, one after the other. -/
inductive Reach (P : Prog σ (LockEvent F) Unit → Prop) (s : σ) : Config ι σ F → Prop
  | init : Reach P s ⟨s, none, fun _ => .ret ()⟩
  | start {c : Config ι σ F} (i : ι) (p : Prog σ (LockEvent F) Unit) (h : Reach P s c)
      (hidle : c.prog i = .ret ()) (hp : P p) : Reach P s (c.goOn i p)
  | next {c c' : Config ι σ F} (i : ι) (h : Reach P s c) (hs : Step i c c') : Reach P s c'

/-- Those that are reached by steps that all meet `C`. -/
inductive ReachBy (P : Prog σ (LockEvent F) Unit → Prop) (C : Config ι σ F → Config ι σ F → Prop)
    (s : σ) : Config ι σ F → Prop
  | init : ReachBy P C s ⟨s, none, fun _ => .ret ()⟩
  | start {c : Config ι σ F} (i : ι) (p : Prog σ (LockEvent F) Unit) (h : ReachBy P C s c)
      (hidle : c.prog i = .ret ()) (hp : P p) : ReachBy P C s (c.goOn i p)
  | next {c c' : Config ι σ F} (i : ι) (h : ReachBy P C s c) (hs : Step i c c') (hc : C c c') :
      ReachBy P C s c'

/-- What process `i` is about to do keeps to the rules: the lock is taken only by a process that
does not hold it and released only by the one that does, it is held when a function is entered,
and not held when a function is left and when the program ends. -/
def Allowed (c : Config ι σ F) (i : ι) : Prop :=
  match c.prog i with
  | .step _ _ => True
  | .event .lock _ => c.owner ≠ some i
  | .event .unlock _ => c.owner = some i
  | .event (.enter _) _ => c.owner = some i
  | .event (.leave _) _ => c.owner ≠ some i
  | .ret _ => c.owner ≠ some i

/-- Every process obeys the lock from where it stands, with what it has noted. -/
structure Ok (G : Protocol σ γ) (note : ι → γ) (c : Config ι σ F) : Prop where
  shared : G.inv c.shared
  obeys : ∀ i, Obeys G (c.prog i) (decide (c.owner = some i)) (note i) c.shared
    fun _ held _ _ => held = false

variable {P : Prog σ (LockEvent F) Unit → Prop} {C : Config ι σ F → Config ι σ F → Prop} {s : σ}
  {c c' : Config ι σ F} {i : ι} {note : ι → γ} {p : Prog σ (LockEvent F) Unit}

theorem Reach.reachBy (h : Reach P s c) : ReachBy P (fun _ _ => True) s c := by
  induction h with
  | init => exact .init
  | start i p _ hidle hp ih => exact .start i p ih hidle hp
  | next i _ hs ih => exact .next i ih hs trivial

theorem Ok.obeys_of_eq (h : Ok G note c) (hp : c.prog i = p) :
    Obeys G p (decide (c.owner = some i)) (note i) c.shared fun _ held _ _ => held = false :=
  hp ▸ h.obeys i

/-- The other processes obey the lock as before, if they hold it as before. -/
theorem Ok.goOn (h : Ok G note c) {shared owner g} (hinv : G.inv shared)
    (hother : ∀ j, j ≠ i → G.other (decide (c.owner = some j)) c.shared shared)
    (hp : Obeys G p (decide (owner = some i)) g shared fun _ held _ _ => held = false)
    (howner : ∀ j, j ≠ i → (owner = some j ↔ c.owner = some j)) :
    Ok G (update note i g) ⟨shared, owner, update c.prog i p⟩ where
  shared := hinv
  obeys := by
    intro j
    by_cases hj : j = i
    · subst hj
      simpa only [update_self] using hp
    · simp only [update_of_ne hj, decide_eq_decide.2 (howner j hj)]
      exact (h.obeys j).stable (hother j hj)

/-- What a step is: the process does what the protocol allows, or leaves the state alone. -/
theorem Ok.step (h : Ok G note c) (hs : Step i c c') :
    ∃ g, Ok G (update note i g) c' ∧
      G.own (decide (c.owner = some i)) (note i) c.shared g c'.shared := by
  have hsame : ∀ j, j ≠ i → G.other (decide (c.owner = some j)) c.shared c.shared :=
    fun j _ => G.refl _ _
  cases hs with
  | step hp =>
    obtain ⟨g, hown, hob⟩ := h.obeys_of_eq hp c.shared (G.refl _ _)
    refine ⟨g, h.goOn (inv_own hown h.shared) (fun j hj => G.own_other hown _ ?_) hob fun j _ => Iff.rfl, hown⟩
    simp only [decide_eq_true_eq]
    rintro ⟨hi, hj'⟩
    exact hj (Option.some.inj (hj'.symm.trans hi))
  | lock hp hfree =>
    have hob := (h.obeys_of_eq hp).2 c.shared (G.refl _ _)
    refine ⟨note i, h.goOn h.shared hsame (by simpa [Config.goOn] using hob) fun j hj => ?_, G.own_refl _ _ _⟩
    rw [hfree]
    simp [Ne.symm hj]
  | unlock hp =>
    obtain ⟨hheld, hob⟩ := h.obeys_of_eq hp
    have howner := of_decide_eq_true hheld
    have hob := hob c.shared (G.refl _ _)
    refine ⟨note i, h.goOn h.shared hsame (by simpa [Config.goOn] using hob) fun j hj => ?_, G.own_refl _ _ _⟩
    rw [howner]
    simp [Ne.symm hj]
  | enter hp | leave hp =>
    have hob := (h.obeys_of_eq hp).2
    exact ⟨note i, h.goOn h.shared hsame hob fun j _ => Iff.rfl, G.own_refl _ _ _⟩

/-- Processes whose programs obey the lock do so in every configuration they reach, and what the
steps of the protocol keep holds there. -/
theorem ReachBy.ok (I : (ι → γ) → σ → Prop) (note : ι → γ) (hs : G.inv s)
    (hP : ∀ p, P p → Turns G (fun _ _ => True) p false false fun _ _ _ => True) (hI : I note s)
    (hstep : ∀ {c c' i note g}, C c c' → I note c.shared →
      G.own (decide (c.owner = some i)) (note i) c.shared g c'.shared → I (update note i g) c'.shared)
    (h : ReachBy P C s c) : ∃ note, Ok G note c ∧ I note c.shared := by
  induction h with
  | init => exact ⟨note, ⟨hs, fun i _ _ => rfl⟩, hI⟩
  | @start c i p _ hidle hp ih =>
    obtain ⟨note, hok, hI⟩ := ih
    have hfree := hok.obeys_of_eq hidle c.shared (G.refl _ _)
    have hob : Obeys G p (decide (c.owner = some i)) (note i) c.shared fun _ held _ _ => held = false := by
      rw [hfree]
      exact (hP p hp (note i) c.shared hok.shared trivial).mono fun _ _ _ _ h => h.1
    have hok' := hok.goOn hok.shared (fun j _ => G.refl _ _) hob fun j _ => Iff.rfl
    rw [update_eq_self] at hok'
    exact ⟨note, hok', hI⟩
  | next i _ hst hc ih =>
    obtain ⟨note, hok, hI⟩ := ih
    obtain ⟨g, hok', hown⟩ := hok.step hst
    exact ⟨update note i g, hok', hstep hc hI hown⟩

theorem Ok.allowed (h : Ok G note c) (i : ι) : Allowed c i := by
  unfold Allowed
  cases hp : c.prog i with
  | ret a => exact of_decide_eq_false (h.obeys_of_eq hp c.shared (G.refl _ _))
  | step f k => trivial
  | event e k =>
    have hob := h.obeys_of_eq hp
    cases e with
    | lock | leave f => exact of_decide_eq_false hob.1
    | unlock | enter f => exact of_decide_eq_true hob.1

/-- A process that is not done, or the one that holds the lock, can make a step. -/
theorem Ok.progress (h : Ok G note c) (hrun : ∃ i, ∀ a, c.prog i ≠ .ret a) : ∃ i c', Step i c c' := by
  obtain ⟨i, hi⟩ : ∃ i, (∀ a, c.prog i ≠ .ret a) ∧ (c.owner = none ∨ c.owner = some i) := by
    cases howner : c.owner with
    | none => exact hrun.imp fun i hi => ⟨hi, .inl rfl⟩
    | some j =>
      refine ⟨j, fun a ha => ?_, .inr rfl⟩
      have := h.allowed j
      simp only [Allowed, ha] at this
      exact this howner
  obtain ⟨hnot, howner⟩ := hi
  refine ⟨i, ?_⟩
  have hallowed := h.allowed i
  unfold Allowed at hallowed
  cases hp : c.prog i with
  | ret a => exact absurd hp (hnot a)
  | step f k => exact ⟨_, .step hp⟩
  | event e k =>
    simp only [hp] at hallowed
    cases e with
    | lock =>
      rcases howner with hnone | hsome
      · exact ⟨_, .lock hp hnone⟩
      · exact absurd hsome hallowed
    | unlock => exact ⟨_, .unlock hp⟩
    | enter f => exact ⟨_, .enter hp⟩
    | leave f => exact ⟨_, .leave hp⟩

/-! ## Schedules -/

/-- Process `i` makes a step if it can. -/
def advance (c : Config ι σ F) (i : ι) : Config ι σ F :=
  match c.prog i with
  | .ret _ => c
  | .step f k => { c.goOn i (k c.shared) with shared := f c.shared }
  | .event .lock k => if c.owner.isNone then { c.goOn i k with owner := some i } else c
  | .event .unlock k => { c.goOn i k with owner := none }
  | .event (.enter _) k => c.goOn i k
  | .event (.leave _) k => c.goOn i k

theorem advance_cases (c : Config ι σ F) (i : ι) : c.advance i = c ∨ Step i c (c.advance i) := by
  unfold advance
  split
  · exact .inl rfl
  · exact .inr (.step ‹_›)
  · split_ifs with hfree
    · exact .inr (.lock ‹_› (Option.isNone_iff_eq_none.1 hfree))
    · exact .inl rfl
  · exact .inr (.unlock ‹_›)
  · exact .inr (.enter ‹_›)
  · exact .inr (.leave ‹_›)

/-- The steps of the processes in this order all meet `C`. -/
def Along (C : Config ι σ F → Config ι σ F → Prop) : List ι → Config ι σ F → Prop
  | [], _ => True
  | i :: is, c => C c (c.advance i) ∧ Along C is (c.advance i)

instance Along.decide [DecidableRel C] : ∀ (is : List ι) (c : Config ι σ F), Decidable (Along C is c)
  | [], _ => isTrue trivial
  | i :: is, c => @instDecidableAnd _ _ (inferInstance : Decidable (C c (c.advance i))) (Along.decide is (c.advance i))

theorem ReachBy.run (h : ReachBy P C s c) (is : List ι) (his : Along C is c) :
    ReachBy P C s (is.foldl advance c) := by
  induction is generalizing c with
  | nil => exact h
  | cons i is ih =>
    refine ih ?_ his.2
    rcases c.advance_cases i with heq | hstep
    · rwa [heq]
    · exact .next i h hstep his.1

theorem Reach.run (h : Reach P s c) (is : List ι) : Reach P s (is.foldl advance c) := by
  induction is generalizing c with
  | nil => exact h
  | cons i is ih =>
    refine ih ?_
    rcases c.advance_cases i with heq | hstep
    · rwa [heq]
    · exact .next i h hstep

end Config

end SipRouter.Lib
