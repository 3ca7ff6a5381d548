import SipRouter.Script.Structured

/-!
# Scripts end, and follow their structure

Every run ends: a level has its own lists to go through, and there are at most
`ROUTE_MAX_REC_LEV` levels. After an `exit`, or a module function that returned 0, nothing
is executed. And scripts without lists after a `return` in one condition do what their
structure says.
-/

namespace SipRouter.Script

open List Bool

variable {σ : Type}

/-! ## Runs end -/

/-- What ends the whole script. -/
def Event.ends : Event → Bool
  | .drop flag => flag = .exit
  | .module _ ret => ret = 0
  | _ => false

/-- Something was executed from `h` to `h'`, and none of it ends the script. -/
def Calm (h h' : Store σ) : Prop := ∃ evs, h'.log = h.log ++ evs ∧ ∀ e ∈ evs, e.ends = false

/-- Something was executed from `h` to `h'`, and the last of it ends the script. -/
def Ended (h h' : Store σ) : Prop :=
  ∃ evs e, h'.log = h.log ++ evs ++ [e] ∧ (∀ e ∈ evs, e.ends = false) ∧ e.ends = true

theorem Calm.refl (h : Store σ) : Calm h h := ⟨[], by simp, by simp⟩

variable {h' st st' : Store σ} {h : Ctx σ} {v : Int} {r : Option (Res σ)}
  {f : Int → Ctx σ → Option (Res σ)} {fuel : Nat}
variable {o : Outcome × Store σ}

variable {h'' : Store σ} {e : Event} {d lev : Nat} {l : List Action} {h1 : Ctx σ} {routes : Routes}
  {env : Env σ} {a : Action}

theorem Calm.trans {h} (h1 : Calm h h') (h2 : Calm h' h'') : Calm h h'' := by
  obtain ⟨evs, hlog, hcalm⟩ := h1
  obtain ⟨evs', hlog', hcalm'⟩ := h2
  refine ⟨evs ++ evs', by rw [hlog', hlog, append_assoc], fun e he => ?_⟩
  rcases mem_append.1 he with he | he
  · exact hcalm e he
  · exact hcalm' e he

theorem Calm.ended {h} (h1 : Calm h h') (h2 : Ended h' h'') : Ended h h'' := by
  obtain ⟨evs, hlog, hcalm⟩ := h1
  obtain ⟨evs', e, hlog', hcalm', hends⟩ := h2
  refine ⟨evs ++ evs', e, by rw [hlog', hlog, append_assoc h.log], fun e he => ?_, hends⟩
  rcases mem_append.1 he with he | he
  · exact hcalm e he
  · exact hcalm' e he

/-- One more event. -/
theorem calm_put {h} (hlog : h'.log = h.log ++ [e]) (he : e.ends = false) : Calm h h' := ⟨[e], hlog, by simpa using he⟩

theorem ended_put {h} (hlog : h'.log = h.log ++ [e]) (he : e.ends = true) : Ended h h' :=
  ⟨[], e, by simpa using hlog, by simp, he⟩

/-- A function returns on the level on which it was called, or jumps because of what was executed last. -/
def Res.Fine (h : Ctx σ) : Res σ → Prop
  | .ret _ h' => h'.recLev = h.recLev ∧ h'.exitF = false ∧ Calm h.toStore h'.toStore
  | .jump h' => Ended h.toStore h'.toStore

/-- It does so with a result. -/
def Ends (h : Ctx σ) (r : Option (Res σ)) : Prop := ∃ x, r = some x ∧ x.Fine h

/-- An action may also leave the flag for `exit` behind. -/
def ActEnds (h : Ctx σ) (r : Option (Res σ)) : Prop :=
  Ends h r ∨ ∃ v h', r = some (.ret v h') ∧ h'.exitF = true ∧ Ended h.toStore h'.toStore

theorem Ends.ret {h'} (hlev : h'.recLev = h.recLev) (hexit : h'.exitF = false) (hcalm : Calm h.toStore h'.toStore) :
    Ends h (some (.ret v h')) := ⟨_, rfl, hlev, hexit, hcalm⟩

/-- The start of a run may be moved back. -/
theorem Ends.of_calm {h'} (hr : Ends h' r) (hlev : h'.recLev = h.recLev)
    (hcalm : Calm h.toStore h'.toStore) : Ends h r := by
  obtain ⟨x, rfl, hx⟩ := hr
  refine ⟨x, rfl, ?_⟩
  cases x with
  | ret v h'' => exact ⟨hx.1.trans hlev, hx.2.1, hcalm.trans hx.2.2⟩
  | jump h'' => exact hcalm.ended hx

theorem Ends.andThen (hr : Ends h r)
    (hf : ∀ v h', h'.recLev = h.recLev → h'.exitF = false → Ends h' (f v h')) :
    Ends h (Res.andThen r f) := by
  obtain ⟨x, rfl, hx⟩ := hr
  cases x with
  | ret v h' => exact (hf v h' hx.1 hx.2.1).of_calm hx.1 hx.2.2
  | jump h' => exact ⟨_, rfl, hx⟩

section

variable (env : Env σ) (routes : Routes) {run : Ctx σ → List Action → Option (Res σ)}

theorem evalExpr_ends (hrun : ∀ h l, h.recLev = lev → h.exitF = false → Ends h (run h l)) (e : Expr)
    (hlev : h.recLev = lev)
    (hexit : h.exitF = false) : Ends h (evalExpr env run e h) := by
  induction e using Expr.cond_induction generalizing h with
  | elem x => exact .ret rfl hexit (calm_put rfl rfl)
  | action l => exact (hrun h l hlev hexit).andThen fun v h' _ hexit' => .ret rfl hexit' (.refl _)
  | and l r ihl ihr | or l r ihl ihr =>
    refine (ihl hlev hexit).andThen fun v h' hlev' hexit' => ?_
    split_ifs
    · exact .ret rfl hexit' (.refl _)
    · exact ihr (hlev'.trans hlev) hexit'
  | not e ih => exact (ih hlev hexit).andThen fun v h' _ hexit' => .ret rfl hexit' (.refl _)

theorem setAvp_ends {attr value ret} (hexit : h.exitF = false) :
    Ends h (setAvp env attr value ret h) :=
  .ret rfl hexit (.refl _)

section

variable (hrun : ∀ h l, h.recLev = lev → h.exitF = false → Ends h (run h l))

include hrun

theorem doAction_ends (hlev : h.recLev = lev) (hexit : h.exitF = false) : ActEnds h (doAction env routes run a h) := by
  cases a with
  | drop code flag =>
    cases flag with
    | exit => exact .inr ⟨_, _, rfl, rfl, ended_put rfl rfl⟩
    | ret => exact .inl (.ret rfl hexit (calm_put rfl rfl))
  | route n =>
    left
    have hput : Calm h.toStore (h.put (.route n)).toStore := calm_put rfl rfl
    simp only [doAction]
    cases block routes n with
    | none => exact .ret rfl hexit hput
    | some l =>
      have hblock := hrun (h.put (.route n)) l hlev hexit
      exact .of_calm (h := h) (hblock.andThen fun v h' _ hexit' => .ret rfl hexit' (.refl _)) rfl hput
  | ifThen e thn els =>
    left
    have hcond := evalExpr_ends env hrun e (h := h.put .ifThen) hlev hexit
    refine .of_calm (.andThen hcond fun v h' hlev' hexit' => ?_) rfl (calm_put rfl rfl)
    rw [if_neg (by simp [hexit'])]
    dsimp only
    split_ifs
    · exact .ret rfl hexit' (.refl _)
    · exact (hrun { h' with returnF := false } _ (hlev'.trans hlev) hexit').of_calm rfl (.refl _)
    · exact .ret rfl hexit' (.refl _)
    · exact (hrun { h' with returnF := false } _ (hlev'.trans hlev) hexit').of_calm rfl (.refl _)
  | module f =>
    unfold doAction
    dsimp only
    by_cases hzero : (env.module f h.msg).1 = 0
    · rw [if_pos hzero]
      exact .inr ⟨_, _, rfl, rfl, ended_put rfl (by simp [Event.ends, hzero])⟩
    · rw [if_neg hzero]
      exact .inl (.ret rfl hexit (calm_put rfl (by simp [Event.ends, hzero])))
  | assign attr a =>
    left
    have hright := hrun { h.put (.assign attr) with msg := env.delAvp attr h.msg } [a] hlev hexit
    exact (hright.andThen fun v h' _ hexit' => setAvp_ends env hexit').of_calm rfl (calm_put rfl rfl)
  | assignExpr attr e =>
    left
    have hright := evalExpr_ends env hrun e
      (h := { h.put (.assign attr) with msg := env.delAvp attr h.msg }) hlev hexit
    refine .of_calm (.andThen hright fun v h' _ hexit' => ?_) rfl (calm_put rfl rfl)
    split_ifs
    · exact .ret rfl hexit' (.refl _)
    all_goals exact setAvp_ends env hexit'
  | prim p => exact .inl (.ret rfl hexit (calm_put rfl rfl))

theorem loop_ends (l) (ret : Int) (hlev : h.recLev = lev) (hexit : h.exitF = false) :
    Ends h (loop env routes run l ret h) := by
  induction l generalizing ret h with
  | nil => exact .ret rfl hexit (.refl _)
  | cons a l ih =>
    rcases doAction_ends env routes hrun hlev hexit with hact | ⟨v, h', heq, hexit', hended⟩
    · refine hact.andThen fun v h' hlev' hexit' => ?_
      rw [if_neg (by simp [hexit'])]
      split_ifs
      · exact .ret rfl hexit' (.refl _)
      · exact ih v (hlev'.trans hlev) hexit'
    · refine ⟨.jump { h' with lastRetcode := v }, ?_, hended⟩
      simp [loop, heq, Res.andThen, hexit']

end

end

/-- Below the first level, with so many levels left. -/
theorem runActions_ends (hd : lev + d = maxRecLev) (hpos : 0 < lev) (hfuel : d < fuel)
    (h : Ctx σ) (l) (hlev : h.recLev = lev) (hexit : h.exitF = false) : Ends h (runActions env routes fuel h l) := by
  induction d generalizing fuel lev h l with
  | zero =>
    obtain ⟨fuel, rfl⟩ : ∃ n, fuel = n + 1 := ⟨fuel - 1, by omega⟩
    rw [runActions, if_pos (by omega)]
    exact .ret rfl hexit (.refl _)
  | succ d ih =>
    obtain ⟨fuel, rfl⟩ : ∃ n, fuel = n + 1 := ⟨fuel - 1, by omega⟩
    rw [runActions, if_neg (by omega), if_neg (by omega)]
    have hnext : ∀ (h : Ctx σ) (l : List Action),
        h.recLev = lev + 1 → h.exitF = false → Ends h (runActions env routes fuel h l) :=
      fun h l => ih (by omega) (by omega) (by omega) h l
    have hloop := loop_ends env routes hnext l (if l.isEmpty then 1 else eUnspec)
      (h := { h with recLev := h.recLev + 1 }) (by simp [hlev]) hexit
    obtain ⟨x, hx, hfine⟩ := hloop
    rw [hx]
    cases x with
    | ret v h' =>
      have hlev' : h'.recLev = h.recLev + 1 := hfine.1
      have hne : ¬(h'.recLev - 1 = 0 ∧ v = 0) := by omega
      refine ⟨.ret v { h' with recLev := h'.recLev - 1 }, by simp [Res.andThen, finish, hne], ?_, hfine.2.1, hfine.2.2⟩
      simp [hlev']
    | jump h' => exact ⟨.jump h', rfl, hfine⟩

/-! ## Runs follow the structure -/

/-- The context after something was done. -/
def Ctx.upd (h : Ctx σ) (st : Store σ) (returnF : Bool) : Ctx σ :=
  { h with toStore := st, exitF := false, returnF := returnF }

/-- A list was run as its structure says. -/
def SimRun (h : Ctx σ) (r : Option (Res σ)) : Outcome × Store σ → Prop
  | (.done v, st) => r = some (.ret v (h.upd st false))
  | (.returned v, st) => r = some (.ret v (h.upd st true))
  | (.exited v, st) => st.lastRetcode = v ∧ ∃ h', r = some (.jump h') ∧ h'.toStore = st

/-- A condition was evaluated as its structure says; a `return` in it may have left its flag. -/
def SimCond (h : Ctx σ) (e : Expr) (r : Option (Res σ)) : Outcome × Store σ → Prop
  | (.done v, st) => ∃ b, r = some (.ret v (h.upd st b)) ∧ (b = true → h.returnF = true ∨ e.opens = true)
  | (.returned _, _) => False
  | (.exited v, st) => st.lastRetcode = v ∧ ∃ h', r = some (.jump h') ∧ h'.toStore = st

/-- An action was executed as its structure says. One that ends the script leaves its flag. -/
def SimAct (h : Ctx σ) (r : Option (Res σ)) (o : Outcome × Store σ) : Prop :=
  SimRun h r o ∨ ∃ v h', o = (.exited v, { h'.toStore with lastRetcode := v }) ∧ r = some (.ret v h') ∧ h'.exitF = true

section

variable (env : Env σ) (routes : Routes) {run : Ctx σ → List Action → Option (Res σ)}
  {srun : List Action → Store σ → Outcome × Store σ} {lev : Nat}

/-- Lists are run as their structure says on the next level. -/
def Sims (run : Ctx σ → List Action → Option (Res σ))
    (srun : List Action → Store σ → Outcome × Store σ) (lev : Nat) : Prop :=
  ∀ (h : Ctx σ) (l : List Action), h.recLev = lev → h.exitF = false → h.returnF = false → tameAll l = true →
    SimRun h (run h l) (srun l h.toStore)

/-- Only a `return` in a list leaves it. -/
def Opens (srun : List Action → Store σ → Outcome × Store σ) : Prop :=
  ∀ l st v st', srun l st = (.returned v, st') → opensAny l = true

variable {P : Option (Res σ) → Outcome × Store σ → Prop} {g : Int → Store σ → Outcome × Store σ}

/-- What follows a list that is a block of its own. -/
theorem SimRun.within (hsim : SimRun h r o) (hdone : ∀ v st, o = (.done v, st) → P (f v (h.upd st false)) (g v st))
    (hret : ∀ v st, o = (.returned v, st) → P (f v (h.upd st true)) (g v st))
    (hexit : ∀ {v st}, (st.lastRetcode = v ∧ ∃ h',
      Res.andThen r f = some (.jump h') ∧ h'.toStore = st) → P (Res.andThen r f) (.exited v, st)) :
    P (Res.andThen r f) (Outcome.within o g) := by
  obtain ⟨o, st⟩ := o
  cases o with
  | done v =>
    cases hsim
    exact hdone v st rfl
  | returned v =>
    cases hsim
    exact hret v st rfl
  | exited v =>
    obtain ⟨hv, h', rfl, hst⟩ := hsim
    exact hexit ⟨hv, h', rfl, hst⟩

/-- What follows a condition. -/
theorem SimCond.andThen {e} (hsim : SimCond h e r o)
    (hnext : ∀ v st b, (b = true → h.returnF = true ∨ e.opens = true) → P (f v (h.upd st b)) (g v st))
    (hexit : ∀ {v st}, (st.lastRetcode = v ∧ ∃ h',
      Res.andThen r f = some (.jump h') ∧ h'.toStore = st) → P (Res.andThen r f) (.exited v, st)) :
    P (Res.andThen r f) (Outcome.andThen o g) := by
  obtain ⟨o, st⟩ := o
  cases o with
  | done v =>
    obtain ⟨b, rfl, hb⟩ := hsim
    exact hnext v st b hb
  | returned v => exact absurd hsim id
  | exited v =>
    obtain ⟨hv, h', rfl, hst⟩ := hsim
    exact hexit ⟨hv, h', rfl, hst⟩

/-- The second operand is evaluated where the first one ended. -/
theorem SimCond.of_upd {b e e'}
    (hsim : SimCond (h.upd st b) e r o) (hb : b = true → h.returnF = true ∨ e'.opens = true)
    (hopen : e.opens = true → e'.opens = true) :
    SimCond h e' r o := by
  obtain ⟨o, st'⟩ := o
  cases o with
  | done v =>
    obtain ⟨b', heq, hb'⟩ := hsim
    exact ⟨b', heq, fun ht => (hb' ht).elim hb fun ho => .inr (hopen ho)⟩
  | returned v | exited v => exact hsim

theorem evalExpr_sim (hrun : Sims run srun lev) (hopens : Opens srun) {e} (htame : e.tame = true)
    (hlev : h.recLev = lev)
    (hexit : h.exitF = false) (hplain : h.returnF = true → e.plain = true) :
    SimCond h e (evalExpr env run e h) (Structured.cond env srun e h.toStore) := by
  induction e using Expr.cond_induction generalizing h with
  | elem x => exact ⟨h.returnF, by cases h; cases hexit; rfl, .inl⟩
  | action l =>
    have hret : h.returnF = false := by
      cases hf : h.returnF with
      | false => rfl
      | true => cases hplain hf
    refine (hrun h l hlev hexit hret htame).within (fun v st _ => ⟨false, rfl, nofun⟩)
      (fun v st ho => ⟨true, rfl, fun _ => ?_⟩) id
    exact .inr (hopens l _ v st ho)
  | and l r ihl ihr | or l r ihl ihr =>
    simp only [Expr.tame, and_eq_true, or_eq_true, not_eq_true'] at htame
    simp only [Expr.plain, and_eq_true] at hplain
    refine (ihl htame.1.1 hlev hexit fun hf => (hplain hf).1).andThen (fun v st b hb => ?_) id
    have hopen : b = true → h.returnF = true ∨ (l.opens || r.opens) = true :=
      fun hbt => (hb hbt).imp_right fun ho => by simp [ho]
    split_ifs
    · exact ⟨b, rfl, hopen⟩
    · -- a list in the second operand is run only if no flag was left
      have hplain' : b = true → r.plain = true := by
        intro hbt
        rcases hb hbt with hf | ho
        · exact (hplain hf).2
        · exact htame.2.resolve_left (by simp [ho])
      exact (ihr (h := h.upd st b) htame.1.2 hlev rfl hplain').of_upd hopen fun ho => by simp [Expr.opens, ho]
  | not e ih => exact (ih htame hlev hexit hplain).andThen (fun v st b hb => ⟨b, rfl, hb⟩) id

section

variable (hroutes : ∀ l ∈ routes, tameAll l = true)

include hroutes

theorem block_tame {n} (hl : block routes n = some l) : tameAll l = true := by
  unfold block at hl
  split_ifs at hl
  exact hroutes l (mem_of_getElem? hl)

theorem doAction_sim (hrun : Sims run srun lev) (hopens : Opens srun)
    (htame : a.tame = true) (hlev : h.recLev = lev) (hexit : h.exitF = false) (hret : h.returnF = false) :
    SimAct h (doAction env routes run a h) (Structured.act env routes srun a h.toStore) := by
  obtain ⟨st, recLev, exitF, returnF⟩ := h
  cases hexit
  cases hret
  cases a with
  | drop code flag =>
    cases flag with
    | exit => exact .inr ⟨_, _, rfl, rfl, rfl⟩
    | ret => exact .inl rfl
  | route n =>
    left
    simp only [doAction, Structured.act]
    cases hl : block routes n with
    | none => rfl
    | some l =>
      have hblock := hrun (Ctx.put ⟨st, recLev, false, false⟩ (.route n)) l hlev rfl rfl (block_tame routes hroutes hl)
      exact hblock.within (fun v st _ => rfl) (fun v st _ => rfl) id
  | ifThen e thn els =>
    left
    simp only [Action.tame, and_eq_true] at htame
    have hcond := evalExpr_sim env hrun hopens (h := Ctx.put ⟨st, recLev, false, false⟩ .ifThen)
      htame.1.1 hlev rfl (by simp [Ctx.put])
    refine hcond.andThen (fun v st b _ => ?_) id
    rw [if_neg (by simp [Ctx.upd])]
    have hbranch : tameAll (if 0 < v then thn else els) = true := by
      split_ifs
      · exact htame.1.2
      · exact htame.2
    dsimp only
    generalize (if 0 < v then thn else els) = l at hbranch ⊢
    split_ifs
    · rfl
    · exact hrun ⟨st, recLev, false, false⟩ l hlev rfl rfl hbranch
  | module f =>
    by_cases hzero : (env.module f st.msg).1 = 0
    · refine .inr ⟨_, _, ?_, rfl, ?_⟩
      · simp [Structured.act, hzero, Store.put, Ctx.put]
      · simp [hzero]
    · refine .inl ?_
      simp only [doAction, Structured.act, if_neg hzero]
      rfl
  | assign attr a =>
    left
    have hright := hrun
      { Ctx.put ⟨st, recLev, false, false⟩ (.assign attr) with msg := env.delAvp attr st.msg }
      [a] hlev rfl rfl (by simpa [tameAll, Action.tame] using htame)
    simp only [doAction, Structured.act]
    cases ho : srun [a] { st.put (.assign attr) with msg := env.delAvp attr st.msg } with
    | mk o st' =>
      have hsim := ho ▸ hright
      cases o with
      | done v | returned v =>
        rw [hsim]
        rfl
      | exited v =>
        obtain ⟨hv, h', hr, hst⟩ := hsim
        exact ⟨hv, h', by rw [hr]; rfl, hst⟩
  | assignExpr attr e =>
    left
    simp only [Action.tame, and_eq_true, not_eq_true'] at htame
    have hright := evalExpr_sim env hrun hopens
      (h := { Ctx.put ⟨st, recLev, false,
        false⟩ (.assign
        attr) with msg := env.delAvp attr st.msg }) htame.1 hlev rfl (by simp [Ctx.put])
    refine hright.andThen (fun v st b hb => ?_) id
    have hb' : b = false := by
      cases b with
      | false => rfl
      | true => exact absurd (hb rfl) (by simp [htame.2, Ctx.put])
    subst hb'
    split_ifs
    all_goals rfl
  | prim p => exact .inl rfl

theorem loop_sim (hrun : Sims run srun lev) (hopens : Opens srun) (ret : Int)
    (htame : tameAll l = true) (hlev : h.recLev = lev) (hexit : h.exitF = false) (hret : h.returnF = false) :
    SimRun h (loop env routes run l ret h) (Structured.seq env routes srun l ret h.toStore) := by
  induction l generalizing ret h with
  | nil =>
    obtain ⟨st, recLev, exitF, returnF⟩ := h
    cases hexit
    cases hret
    rfl
  | cons a l ih =>
    simp only [tameAll, and_eq_true] at htame
    simp only [loop, Structured.seq]
    rcases doAction_sim env routes hroutes hrun hopens htame.1 hlev hexit hret with hact | ⟨v, h', ho, hr, hexit'⟩
    · generalize Structured.act env routes srun a h.toStore = o at hact
      obtain ⟨o, st⟩ := o
      cases o with
      | done v =>
        rw [hact]
        exact ih v (h := h.upd st false) htame.2 hlev rfl rfl
      | returned v =>
        rw [hact]
        rfl
      | exited v =>
        obtain ⟨hv, h', hr, hst⟩ := hact
        exact ⟨hv, h', by rw [hr]; rfl, hst⟩
    · rw [ho, hr]
      refine ⟨rfl, { h' with lastRetcode := v }, ?_, rfl⟩
      simp [Res.andThen, hexit']

end

end

/-! ### What leaves a list -/

namespace Structured

variable (env : Env σ) (routes : Routes) {srun : List Action → Store σ → Outcome × Store σ}

variable (srun) in

/-- A condition is not left by a `return`. -/
theorem cond_not_returned (e : Expr) (st) : ∀ v st', cond env srun e st ≠ (.returned v, st') := by
  induction e using Expr.cond_induction generalizing st with
  | elem x => exact nofun
  | action l =>
    intro v st'
    simp only [cond]
    obtain ⟨o, st1⟩ := srun l st
    cases o <;> exact nofun
  | and l r ihl ihr | or l r ihl ihr =>
    intro v st'
    have hl := ihl st
    simp only [cond]
    generalize cond env srun l st = o at hl ⊢
    obtain ⟨o, st1⟩ := o
    cases o with
    | done w =>
      simp only [Outcome.andThen]
      split_ifs
      · exact nofun
      · exact ihr st1 v st'
    | returned w => exact absurd rfl (hl w st1)
    | exited w => exact nofun
  | not e ih =>
    intro v st'
    have he := ih st
    simp only [cond]
    generalize cond env srun e st = o at he ⊢
    obtain ⟨o, st1⟩ := o
    cases o with
    | done w | exited w => exact nofun
    | returned w => exact absurd rfl (he w st1)

theorem act_opens (hopens : Opens srun) {st} (h : act env routes srun a st = (.returned v, st')) : a.opens = true := by
  cases a with
  | drop code flag =>
    cases flag with
    | exit => cases h
    | ret => rfl
  | route n =>
    simp only [act] at h
    cases hl : block routes n with
    | none =>
      rw [hl] at h
      cases h
    | some l =>
      simp only [hl] at h
      generalize srun l (st.put (.route n)) = o at h
      obtain ⟨o, st1⟩ := o
      cases o <;> cases h
  | ifThen e thn els =>
    simp only [act] at h
    have hcond := cond_not_returned env srun e (st.put .ifThen)
    generalize cond env srun e (st.put .ifThen) = o at h hcond
    obtain ⟨o, st1⟩ := o
    cases o with
    | done w =>
      have hopen : opensAny (if 0 < w then thn else els) = true → (Action.ifThen e thn els).opens = true := by
        intro hb
        split_ifs at hb <;> simp [Action.opens, hb]
      simp only [Outcome.andThen] at h
      generalize (if 0 < w then thn else els) = l at h hopen
      split_ifs at h
      · cases h
      · exact hopen (hopens l st1 v st' h)
    | returned w => exact absurd rfl (hcond w st1)
    | exited w => cases h
  | module f =>
    simp only [act] at h
    split_ifs at h <;> cases h
  | assign attr a =>
    simp only [act] at h
    cases ho : srun [a] { st.put (.assign attr) with msg := env.delAvp attr st.msg } with
    | mk o st1 =>
      rw [ho] at h
      cases o with
      | done w | exited w => cases h
      | returned w => simpa [opensAny, Action.opens] using hopens _ _ _ _ ho
  | assignExpr attr e =>
    simp only [act] at h
    have hcond := cond_not_returned env srun e { st.put (.assign attr) with msg := env.delAvp attr st.msg }
    generalize cond env srun e { st.put (.assign attr) with msg := env.delAvp attr st.msg } = o at h hcond
    obtain ⟨o, st1⟩ := o
    cases o with
    | done w =>
      simp only [Outcome.andThen] at h
      split_ifs at h <;> cases h
    | returned w => exact absurd rfl (hcond w st1)
    | exited w => cases h
  | prim p => cases h

theorem seq_opens (hopens : Opens srun) (ret : Int) (st)
    (h : seq env routes srun l ret st = (.returned v, st')) : opensAny l = true := by
  induction l generalizing ret st with
  | nil => cases h
  | cons a l ih =>
    simp only [seq] at h
    cases ho : act env routes srun a st with
    | mk o st1 =>
      rw [ho] at h
      cases o with
      | done w => simp [opensAny, ih w st1 h]
      | returned w => simp [opensAny, act_opens env routes hopens ho]
      | exited w => cases h

theorem run_opens (d : Nat) : Opens (run env routes d) := by
  induction d with
  | zero => exact fun _ _ _ _ h => by cases h
  | succ d ih => exact fun l st v st' h => seq_opens env routes ih _ st h

end Structured

/-- Below the first level, with so many levels left. -/
theorem runActions_sim (hroutes : ∀ l ∈ routes, tameAll l = true)
    (hd : lev + d = maxRecLev) (hpos : 0 < lev) (hfuel : d < fuel) :
    Sims (runActions env routes fuel) (Structured.run env routes d) lev := by
  induction d generalizing fuel lev with
  | zero =>
    intro h l hlev hexit hret htame
    obtain ⟨fuel, rfl⟩ : ∃ n, fuel = n + 1 := ⟨fuel - 1, by omega⟩
    obtain ⟨st, recLev, exitF, returnF⟩ := h
    cases hexit
    cases hret
    have hlev' : recLev = lev := hlev
    rw [runActions, if_pos (by dsimp only; omega)]
    rfl
  | succ d ih =>
    intro h l hlev hexit hret htame
    obtain ⟨fuel, rfl⟩ : ∃ n, fuel = n + 1 := ⟨fuel - 1, by omega⟩
    have hnext : Sims (runActions env routes fuel) (Structured.run env routes d) (lev + 1) :=
      ih (by omega) (by omega) (by omega)
    have hloop := loop_sim env routes hroutes hnext (Structured.run_opens env routes d)
      (if l.isEmpty then 1 else eUnspec) (h := { h with recLev := h.recLev + 1 }) htame
      (by simp [hlev]) hexit hret
    rw [runActions, if_neg (by omega), if_neg (by omega), Structured.run]
    have hne : h.recLev ≠ 0 := by omega
    dsimp only at hloop
    generalize Structured.seq env routes (Structured.run env routes d) l (if l.isEmpty then 1
      else eUnspec) h.toStore = o at hloop ⊢
    obtain ⟨o, st⟩ := o
    cases o with
    | done v | returned v =>
      rw [hloop]
      simp [Res.andThen, finish, Ctx.upd, hne, SimRun]
    | exited v =>
      obtain ⟨hv, h', hr, hst⟩ := hloop
      exact ⟨hv, h', by rw [hr]; rfl, hst⟩

/-! ## Scripts -/

/-- Nothing was executed after what ended the script. -/
def EndsLast (st st' : Store σ) : Prop :=
  ∃ evs, st'.log = st.log ++ evs ∧ ∀ evs₁ e evs₂, evs = evs₁ ++ e :: evs₂ → e.ends = true → evs₂ = []

theorem Calm.endsLast (h : Calm st st') : EndsLast st st' := by
  obtain ⟨evs, hlog, hcalm⟩ := h
  refine ⟨evs, hlog, fun evs1 e evs2 heq hends => ?_⟩
  have he := hcalm e (by simp [heq])
  rw [hends] at he
  cases he

theorem Ended.endsLast (h : Ended st st') : EndsLast st st' := by
  obtain ⟨evs, e, hlog, hcalm, _⟩ := h
  refine ⟨evs ++ [e], by rw [hlog, append_assoc], fun evs1 e1 evs2 heq hends => ?_⟩
  by_contra hne
  obtain ⟨evs3, e2, rfl⟩ := eq_nil_or_concat evs2 |>.resolve_left hne
  have hmem : e1 ∈ evs := by
    have hcat : evs ++ [e] = (evs1 ++ e1 :: evs3) ++ [e2] := by simpa [concat_eq_append] using heq
    simp [(append_inj' hcat rfl).1]
  rw [hcalm e1 hmem] at hends
  cases hends

/-- A call of `run_actions` on the first level. -/
structure RunsScript (env : Env σ) (routes : Routes) (l : List Action) (h : Ctx σ) (v : Int) (h' : Ctx σ) : Prop where
  recLev : h'.recLev = 0
  /-- nothing is executed after an `exit` or a module function that returned 0 -/
  ends : EndsLast h.toStore h'.toStore
  /-- a script that is tame does what its structure says -/
  follows : tameAll l = true → (∀ l ∈ routes, tameAll l = true) →
    (v, h'.toStore) = Structured.script env routes l h.toStore

theorem SimRun.ret (hsim : SimRun h (some (.ret v h1)) o) : Structured.code o.1 = v ∧ o.2 = h1.toStore := by
  obtain ⟨o, st⟩ := o
  cases o with
  | done w | returned w =>
    cases hsim
    exact ⟨rfl, rfl⟩
  | exited w =>
    obtain ⟨_, _, hr, _⟩ := hsim
    cases hr

theorem SimRun.jump (hsim : SimRun h (some (.jump h1)) o) :
    Structured.code o.1 = h1.lastRetcode ∧ o.2 = h1.toStore := by
  obtain ⟨o, st⟩ := o
  cases o with
  | done w | returned w => cases hsim
  | exited w =>
    obtain ⟨hw, _, hr, hst⟩ := hsim
    cases hr
    exact ⟨by rw [hst, hw]; rfl, hst.symm⟩

/-- The end of the first level. -/
theorem finish_runs (h h1) (h0 : h1.recLev = 0)
    (hlast : EndsLast h.toStore h1.toStore)
    (hfollows : tameAll l = true → (∀ l ∈ routes, tameAll l = true) →
      Structured.code (Structured.run env routes maxRecLev l { h.toStore with lastRetcode := 0 }).1 = v ∧
        (Structured.run env routes maxRecLev l { h.toStore with lastRetcode := 0 }).2 = h1.toStore) :
    ∃ h', finish env v h1 = some (.ret v h') ∧ RunsScript env routes l h v h' := by
  refine ⟨_, rfl, ?_, ?_, fun hl hroutes => ?_⟩
  · split_ifs <;> exact h0
  · split_ifs <;> exact hlast
  · obtain ⟨hcode, hst⟩ := hfollows hl hroutes
    rw [Structured.script, hcode, hst]
    by_cases hv : v = 0 <;> simp [hv, h0]

/-- The context in which the first level goes through its list. -/
def Ctx.first (h : Ctx σ) : Ctx σ := { h with recLev := 1, exitF := false, returnF := false, lastRetcode := 0 }

theorem runActions_first {fuel} (h0 : h.recLev = 0) :
    runActions env routes (fuel + 1) h l =
      match loop env routes (runActions env routes fuel) l (if l.isEmpty then 1 else eUnspec) h.first with
      | none => none
      | some (.ret ret h) => finish env ret { h with recLev := h.recLev - 1 }
      | some (.jump h) => finish env h.lastRetcode { h with recLev := 0 } := by
  have hmax : maxRecLev = 100 := rfl
  rw [runActions, if_neg (by omega), if_pos h0]
  rfl

theorem runActions_top (hfuel : maxRecLev < fuel)
    (h0 : h.recLev = 0) :
    ∃ v h', runActions env routes fuel h l = some (.ret v h') ∧ RunsScript env routes l h v h' := by
  obtain ⟨fuel, rfl⟩ : ∃ n, fuel = n + 1 := ⟨fuel - 1, by omega⟩
  have hmax : maxRecLev = 99 + 1 := rfl
  have hends : ∀ (h : Ctx σ) (l : List Action), h.recLev = 1 → h.exitF = false →
      Ends h (runActions env routes fuel h l) :=
    fun h l => runActions_ends (d := 99) (by omega) (by omega) (by omega) h l
  have hsim : tameAll l = true → (∀ l ∈ routes, tameAll l = true) → SimRun h.first
      (loop env routes (runActions env routes fuel) l (if l.isEmpty then 1 else eUnspec) h.first)
      (Structured.run env routes maxRecLev l { h.toStore with lastRetcode := 0 }) := by
    intro hl hroutes
    have hnext : Sims (runActions env routes fuel) (Structured.run env routes 99) 1 :=
      runActions_sim hroutes (by omega) (by omega) (by omega)
    exact loop_sim env routes hroutes hnext (Structured.run_opens env routes 99) _ (h := h.first) hl rfl rfl rfl
  obtain ⟨x, hx, hfine⟩ := loop_ends env routes hends l (if l.isEmpty then 1 else eUnspec) (h := h.first) rfl rfl
  rw [hx] at hsim
  rw [runActions_first h0, hx]
  cases x with
  | ret v h1 =>
    have hlev : h1.recLev = 1 := hfine.1
    obtain ⟨h', heq, hruns⟩ := finish_runs h { h1 with recLev := h1.recLev - 1 } (by simp [hlev]) hfine.2.2.endsLast
      fun hl hroutes => (hsim hl hroutes).ret
    exact ⟨v, h', heq, hruns⟩
  | jump h1 =>
    obtain ⟨h', heq, hruns⟩ :=
      finish_runs h { h1 with recLev := 0 } rfl (Ended.endsLast hfine) fun hl hroutes =>
        (hsim hl hroutes).jump
    exact ⟨h1.lastRetcode, h', heq, hruns⟩

/-- A message that nothing changes, module functions that return their number and elements that are
true for even numbers. -/
def quietEnv : Env Unit where
  module f st := (f, st)
  prim _ st := (1, st)
  elem x _ st := (if x % 2 = 0 then 1 else 0, st)
  delAvp _ st := st
  addAvp _ _ st := (true, st)
  onBreak st := st

/-- Nothing was executed yet. -/
def freshCtx : Ctx Unit := { lastRetcode := 0, msg := (), log := [], recLev := 0, exitF := false, returnF := false }

/-- A block that returns from inside of an `if`, after which the caller goes on to a module function that returns 0. -/
def aScript : List Action := [.route 0, .module 0, .prim 2]
def aBlock : List Action := [.ifThen (.and (.elem 0) (.elem 2)) [.drop (some 5) .ret, .prim 0] [], .prim 1]

/-- Scripts end on their first level, with nothing after an `exit`, and follow their structure if
they are tame; on a level that is too deep nothing is executed. -/
theorem runActions_structured (env : Env σ) (routes : Routes) :
    (∀ fuel (h : Ctx σ) l, maxRecLev < fuel → h.recLev = 0 →
      ∃ v h', runActions env routes fuel h l = some (.ret v h') ∧ RunsScript env routes l h v h') ∧
    ∀ fuel (h : Ctx σ) l, 0 < fuel → maxRecLev ≤ h.recLev →
      runActions env routes fuel h l = some (.ret eUnspec h) := by
  refine ⟨fun fuel h l hfuel h0 => runActions_top hfuel h0, fun fuel h l hfuel hlev => ?_⟩
  obtain ⟨fuel, rfl⟩ : ∃ n, fuel = n + 1 := ⟨fuel - 1, by omega⟩
  rw [runActions, if_pos (by omega)]

theorem runActions_structured_block :
    tameAll aScript = true ∧ tameAll aBlock = true ∧
      ∃ v h', runActions quietEnv [aBlock] 101 freshCtx aScript = some (.ret v h') ∧
        RunsScript quietEnv [aBlock] aScript freshCtx v h' :=
  ⟨by decide, by decide, (runActions_structured quietEnv [aBlock]).1 101 freshCtx aScript (by decide) rfl⟩

/-- What was executed by a script that returned. -/
def executed : Option (Res Unit) → Option (List Event)
  | some (.ret _ h) => some h.log
  | _ => none

/-- A `return` in a condition ends the condition only; and it stops the next list of the condition
after its first action. -/
theorem return_in_condition :
    executed (runActions quietEnv [] 101 freshCtx [.ifThen (.action [.drop (some 1) .ret]) [] [], .prim 0]) =
        some [.ifThen, .drop .ret, .prim 0] ∧
      executed (runActions quietEnv [] 101 freshCtx
        [.ifThen (.and (.action [.drop (some 1) .ret]) (.action [.prim 0, .prim 1])) [] []]) =
        some [.ifThen, .drop .ret, .prim 0] := by
  decide +kernel

end SipRouter.Script
