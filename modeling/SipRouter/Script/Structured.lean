import SipRouter.Script.Interp

/-!
# Scripts as structured programs

The meaning of a script without flags, counters and jumps: a list of actions is done, is
left by `return`, which ends the innermost routing block, or by `exit`, which ends
everything. A list that is run as a condition is a block of its own for `return`; its
value is the code that was returned.

The interpreter follows this meaning, but for one case: the flag that a `return` in a
condition leaves is taken away when the whole condition is evaluated, so the next list in
the same condition stops after its first action.
-/

namespace SipRouter.Script

variable {σ : Type}

/-- How a list of actions or a condition ends, with the code. -/
inductive Outcome where
  | done (v : Int)
  | returned (v : Int)
  | exited (v : Int)

/-- What follows when it is done. -/
def Outcome.andThen (o : Outcome × Store σ) (g : Int → Store σ → Outcome × Store σ) : Outcome × Store σ :=
  match o with
  | (.done v, st) => g v st
  | (.returned v, st) => (.returned v, st)
  | (.exited v, st) => (.exited v, st)

/-- What follows when it is done or was left by a `return`, which has no effect outside of it. -/
def Outcome.within (o : Outcome × Store σ) (g : Int → Store σ → Outcome × Store σ) : Outcome × Store σ :=
  match o with
  | (.done v, st) => g v st
  | (.returned v, st) => g v st
  | (.exited v, st) => (.exited v, st)

namespace Structured

section

variable (env : Env σ) (routes : Routes) (run : List Action → Store σ → Outcome × Store σ)

/-- A condition. -/
def cond : Expr → Store σ → Outcome × Store σ
  | .elem x, st =>
    let r := env.elem x st.lastRetcode st.msg
    (.done r.1, { st.put (.elem x) with msg := r.2 })
  | .action l, st => Outcome.within (run l st) fun v st => (.done (if v ≤ 0 then 0 else 1), st)
  | .and l r, st => Outcome.andThen (cond l st) fun v st => if v ≤ 0 then (.done v, st) else cond r st
  | .or l r, st => Outcome.andThen (cond l st) fun v st => if 0 < v then (.done v, st) else cond r st
  | .not e, st => Outcome.andThen (cond e st) fun v st => (.done (if 0 < v then 0 else 1), st)

/-- An assignment, if `add_avp` has memory. -/
def set (attr : Nat) (value ret : Int) (st : Store σ) : Int × Store σ :=
  let r := env.addAvp attr value st.msg
  (if r.1 then ret else eUnspec, { st with msg := r.2 })

/-- One action. -/
def act (a : Action) (st : Store σ) : Outcome × Store σ :=
  match a with
  | .drop code .exit =>
    let v := code.getD st.lastRetcode
    (.exited v, { st.put (.drop .exit) with lastRetcode := v })
  | .drop code .ret => (.returned (code.getD st.lastRetcode), st.put (.drop .ret))
  | .route n =>
    match block routes n with
    | none => (.done eCfg, st.put (.route n))
    | some l => Outcome.within (run l (st.put (.route n))) fun v st => (.done v, { st with lastRetcode := v })
  | .ifThen e thn els =>
    Outcome.andThen (cond env run e (st.put .ifThen)) fun v st =>
      let l := if 0 < v then thn else els
      if l.isEmpty then (.done 1, st) else run l st
  | .module f =>
    let r := env.module f st.msg
    (if r.1 = 0 then .exited r.1 else .done r.1, { st.put (.module f r.1) with msg := r.2, lastRetcode := r.1 })
  | .assign attr a =>
    match run [a] { st.put (.assign attr) with msg := env.delAvp attr st.msg } with
    | (.done v, st) => (.done (set env attr v v st).1, (set env attr v v st).2)
    | (.returned v, st) => (.returned (set env attr v v st).1, (set env attr v v st).2)
    | (.exited v, st) => (.exited v, st)
  | .assignExpr attr e =>
    Outcome.andThen (cond env run e { st.put (.assign attr) with msg := env.delAvp attr st.msg }) fun v st =>
      if v = exprDrop then (.done 0, st)
      else
        let value := if v < 0 then 0 else v
        (.done (set env attr value eBug st).1, (set env attr value eBug st).2)
  | .prim p =>
    let r := env.prim p st.msg
    (.done r.1, { st.put (.prim p) with msg := r.2 })

/-- Actions in their order, until one of them is left. -/
def seq : List Action → Int → Store σ → Outcome × Store σ
  | [], ret, st => (.done ret, st)
  | a :: l, _, st => Outcome.andThen (act env routes run a st) (seq l)

end

/-- A list, with so many levels left; without one, nothing is executed. -/
def run (env : Env σ) (routes : Routes) : Nat → List Action → Store σ → Outcome × Store σ
  | 0, _, st => (.done eUnspec, st)
  | d + 1, l, st => seq env routes (run env routes d) l (if l.isEmpty then 1 else eUnspec) st

/-- The code of an outcome. -/
def code : Outcome → Int
  | .done v | .returned v | .exited v => v

/-- A script, and the handlers of the modules. -/
def script (env : Env σ) (routes : Routes) (l : List Action) (st : Store σ) : Int × Store σ :=
  let r := run env routes maxRecLev l { st with lastRetcode := 0 }
  (code r.1, if code r.1 = 0 then { r.2 with msg := env.onBreak r.2.msg } else r.2)

end Structured

/-! ## Returns in conditions -/

mutual

/-- A `return` in the action leaves the list it is in. -/
def Action.opens : Action → Bool
  | .drop _ flag => flag = .ret
  | .ifThen _ thn els => opensAny thn || opensAny els
  | .assign _ a => a.opens
  | _ => false

def opensAny : List Action → Bool
  | [] => false
  | a :: l => a.opens || opensAny l

end

/-- A list in the condition may be left by a `return`. -/
def Expr.opens : Expr → Bool
  | .elem _ => false
  | .action l => opensAny l
  | .and l r | .or l r => l.opens || r.opens
  | .not e => e.opens

/-- No list is run as a part of the condition. -/
def Expr.plain : Expr → Bool
  | .elem _ => true
  | .action _ => false
  | .and l r | .or l r => l.plain && r.plain
  | .not e => e.plain

mutual

/-- In no condition there is a list after one that a `return` may leave, and there is no such list
in the condition of an assignment. -/
def Action.tame : Action → Bool
  | .ifThen e thn els => e.tame && tameAll thn && tameAll els
  | .assign _ a => a.tame
  | .assignExpr _ e => e.tame && !e.opens
  | _ => true

def Expr.tame : Expr → Bool
  | .elem _ => true
  | .action l => tameAll l
  | .and l r | .or l r => l.tame && r.tame && (!l.opens || r.plain)
  | .not e => e.tame

def tameAll : List Action → Bool
  | [] => true
  | a :: l => a.tame && tameAll l

end

/-- Conditions are built from elements and lists. -/
@[elab_as_elim]
theorem Expr.cond_induction {P : Expr → Prop} (elem : ∀ x, P (.elem x)) (action : ∀ l, P (.action l))
    (and : ∀ l r, P l → P r → P (.and l r)) (or : ∀ l r, P l → P r → P (.or l r))
    (not : ∀ e, P e → P (.not e)) : ∀ e, P e
  | .elem x => elem x
  | .action l => action l
  | .and l r => and l r (cond_induction elem action and or not l) (cond_induction elem action and or not r)
  | .or l r => or l r (cond_induction elem action and or not l) (cond_induction elem action and or not r)
  | .not e => not e (cond_induction elem action and or not e)

end SipRouter.Script
