import Mathlib.Data.List.Basic

/-!
# The interpreter of routing scripts (`action.c`, `route.c`)

`run_actions` goes through a list of actions, `do_action` executes one of them and
`eval_expr` evaluates a condition; an action may run another list, as a routing block, as
a branch of an `if`, as a condition or as the right side of an assignment. They share a
context: the recursion level, two run flags, for `return` and for `exit`, the last return
code and a jump buffer, which is set on the first level.

What other actions, module functions and elements of conditions do to the message is a
parameter. The context also lists what was executed.
-/

namespace SipRouter.Script

/-- `EXIT_R_F` and `RETURN_R_F`. -/
inductive RunFlag where
  | exit
  | ret
deriving DecidableEq

mutual

/-- `struct action`. The attributes, module functions and other actions are numbered. -/
inductive Action where
  /-- `DROP_T`; without a code it is `RETCODE_ST` -/
  | drop (code : Option Int) (flag : RunFlag)
  /-- `ROUTE_T` -/
  | route (n : Int)
  /-- `IF_T` -/
  | ifThen (e : Expr) (thn els : List Action)
  /-- `MODULE_T` -/
  | module (f : Nat)
  /-- `ASSIGN_T` with `ACTION_ST` -/
  | assign (attr : Nat) (a : Action)
  /-- `ASSIGN_T` with `EXPR_ST` -/
  | assignExpr (attr : Nat) (e : Expr)
  /-- any other action -/
  | prim (p : Nat)

/-- `struct expr`. -/
inductive Expr where
  /-- `ELEM_T`, `ACTION_O` apart -/
  | elem (x : Nat)
  /-- `ACTION_O` -/
  | action (l : List Action)
  /-- `LOGAND_OP` -/
  | and (l r : Expr)
  /-- `LOGOR_OP` -/
  | or (l r : Expr)
  /-- `NOT_OP` -/
  | not (e : Expr)

end

/-- What was executed. -/
inductive Event where
  | drop (flag : RunFlag)
  | route (n : Int)
  | ifThen
  | module (f : Nat) (ret : Int)
  | assign (attr : Nat)
  | prim (p : Nat)
  | elem (x : Nat)
deriving DecidableEq

/-- The message, and what the others do to it; an element of a condition may read the last return code. -/
structure Env (σ : Type) where
  module : Nat → σ → Int × σ
  prim : Nat → σ → Int × σ
  elem : Nat → Int → σ → Int × σ
  delAvp : Nat → σ → σ
  /-- false if there is no memory -/
  addAvp : Nat → Int → σ → Bool × σ
  onBreak : σ → σ

/-- `main_rt.rlist`. -/
abbrev Routes := List (List Action)

/-- The last return code, the message and what was executed. -/
structure Store (σ : Type) where
  lastRetcode : Int
  msg : σ
  log : List Event

/-- `struct run_act_ctx`. -/
structure Ctx (σ : Type) extends Store σ where
  recLev : Nat
  exitF : Bool
  returnF : Bool

/-- A function returns, or jumps to the first level. -/
inductive Res (σ : Type) where
  | ret (v : Int) (h : Ctx σ)
  | jump (h : Ctx σ)

/-- `ROUTE_MAX_REC_LEV`. -/
def maxRecLev : Nat := 100

def eUnspec : Int := -1
def eBug : Int := -5
def eCfg : Int := -6

/-- `EXPR_DROP`. -/
def exprDrop : Int := -127

variable {σ : Type}

def Store.put (st : Store σ) (e : Event) : Store σ := { st with log := st.log ++ [e] }

/-- Something is executed. -/
def Ctx.put (h : Ctx σ) (e : Event) : Ctx σ := { h with log := h.log ++ [e] }

/-- What follows when a function has returned. -/
def Res.andThen (r : Option (Res σ)) (f : Int → Ctx σ → Option (Res σ)) : Option (Res σ) :=
  match r with
  | none => none
  | some (.jump h) => some (.jump h)
  | some (.ret v h) => f v h

section

variable (env : Env σ) (routes : Routes)

/-- `main_rt.rlist[n]`, if there is one. -/
def block (n : Int) : Option (List Action) := if n < 0 then none else routes[n.toNat]?

variable (run : Ctx σ → List Action → Option (Res σ))

/-- `eval_expr`, with `eval_elem`. -/
def evalExpr : Expr → Ctx σ → Option (Res σ)
  | .elem x, h =>
    let r := env.elem x h.lastRetcode h.msg
    some (.ret r.1 { h.put (.elem x) with msg := r.2 })
  | .action l, h => Res.andThen (run h l) fun v h => some (.ret (if v ≤ 0 then 0 else 1) h)
  | .and l r, h => Res.andThen (evalExpr l h) fun v h => if v ≤ 0 then some (.ret v h) else evalExpr r h
  | .or l r, h => Res.andThen (evalExpr l h) fun v h => if 0 < v then some (.ret v h) else evalExpr r h
  | .not e, h => Res.andThen (evalExpr e h) fun v h => some (.ret (if 0 < v then 0 else 1) h)

/-- `add_avp` at the end of an assignment that would return `ret`. -/
def setAvp (attr : Nat) (value ret : Int) (h : Ctx σ) : Option (Res σ) :=
  let r := env.addAvp attr value h.msg
  some (.ret (if r.1 then ret else eUnspec) { h with msg := r.2 })

/-- `do_action`. -/
def doAction (a : Action) (h : Ctx σ) : Option (Res σ) :=
  match a with
  | .drop code flag =>
    let h' := h.put (.drop flag)
    some (.ret (code.getD h.lastRetcode) (match flag with
      | .exit => { h' with exitF := true }
      | .ret => { h' with returnF := true }))
  | .route n =>
    match block routes n with
    | none => some (.ret eCfg (h.put (.route n)))
    | some l =>
      Res.andThen (run (h.put (.route n)) l) fun v h =>
        some (.ret v { h with lastRetcode := v, returnF := false })
  | .ifThen e thn els =>
    Res.andThen (evalExpr env run e (h.put .ifThen)) fun v h =>
      if h.exitF then some (.ret 0 h)
      else
        let l := if 0 < v then thn else els
        if l.isEmpty then some (.ret 1 { h with returnF := false }) else run { h with returnF := false } l
  | .module f =>
    let r := env.module f h.msg
    let h' := { h.put (.module f r.1) with msg := r.2, lastRetcode := r.1 }
    some (.ret r.1 (if r.1 = 0 then { h' with exitF := true } else h'))
  | .assign attr a =>
    let h' := h.put (.assign attr)
    Res.andThen (run { h' with msg := env.delAvp attr h.msg } [a]) fun v h => setAvp env attr v v h
  | .assignExpr attr e =>
    let h' := h.put (.assign attr)
    Res.andThen (evalExpr env run e { h' with msg := env.delAvp attr h.msg }) fun v h =>
      if v = exprDrop then some (.ret 0 h) else setAvp env attr (if v < 0 then 0 else v) eBug h
  | .prim p =>
    let r := env.prim p h.msg
    some (.ret r.1 { h.put (.prim p) with msg := r.2 })

/-- The loop of `run_actions`. -/
def loop : List Action → Int → Ctx σ → Option (Res σ)
  | [], ret, h => some (.ret ret h)
  | a :: l, _, h =>
    Res.andThen (doAction env routes run a h) fun ret h =>
      if h.exitF then some (.jump { h with lastRetcode := ret })
      else if h.returnF then some (.ret ret h)
      else loop l ret h

/-- The end of `run_actions`: the handlers of the modules. -/
def finish (ret : Int) (h : Ctx σ) : Option (Res σ) :=
  some (.ret ret (if h.recLev = 0 ∧ ret = 0 then { h with msg := env.onBreak h.msg } else h))

end

/-- `run_actions`. Without fuel there is no result. -/
def runActions (env : Env σ) (routes : Routes) : Nat → Ctx σ → List Action → Option (Res σ)
  | 0, _, _ => none
  | fuel + 1, h, l =>
    if h.recLev + 1 > maxRecLev then some (.ret eUnspec h)
    else if h.recLev = 0 then
      match loop env routes (runActions env routes fuel) l (if l.isEmpty then 1 else eUnspec)
          { h with recLev := 1, exitF := false, returnF := false, lastRetcode := 0 } with
      | none => none
      | some (.ret ret h) => finish env ret { h with recLev := h.recLev - 1 }
      | some (.jump h) => finish env h.lastRetcode { h with recLev := 0 }
    else
      Res.andThen (loop env routes (runActions env routes fuel) l (if l.isEmpty then 1
        else eUnspec) { h with recLev := h.recLev + 1 })
        fun ret h => finish env ret { h with recLev := h.recLev - 1 }

end SipRouter.Script
