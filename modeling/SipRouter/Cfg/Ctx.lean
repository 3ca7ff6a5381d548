import SipRouter.Lib.Returns
import Mathlib

/-!
# Changing the configuration (`cfg/cfg_ctx.c`)

The values of the configuration are in a block that all processes share, and that is never
changed, except for a value of which an atomic change is allowed: a change makes a new
block and installs it. Changes can be made at once, or prepared in a context and committed
together.

An allocation that fails is given by the number of the allocation. A process that takes a
lock which is held waits for ever: the calls of a run do not overlap, so nobody releases
it. Strings that are freed and the lock inside `cfg_install_global` are left out.
-/

namespace SipRouter.Cfg

open Lib Function

inductive VarType where
  | int
  | string
  | str
  | pointer
deriving DecidableEq

inductive InputType where
  | int
  | string
  | str
deriving DecidableEq

/-- A `void *`: what it is read as. -/
structure VoidPtr where
  int : Int
  string : Option (List UInt8)
  str : Option (List UInt8)
  pointer : Nat

/-- A value in a block, where strings are copies in shared memory. -/
inductive CfgVal where
  | int (i : Int)
  | string (s : Option (List UInt8))
  | str (s : Option (List UInt8))
  | pointer (p : Nat)
deriving DecidableEq

/-- The values of a block, by variable. -/
abbrev Vars := Nat → CfgVal

/-- A `cfg_def_t` with the group it is in. `on_change_cb` gets the values of a handle and may change
the new value; `none` is an error. -/
structure CfgDef where
  group : Nat
  type : VarType
  input : InputType
  atomic : Bool
  readonly : Bool
  min : Int
  max : Int
  onChangeCb : Option (Vars → VoidPtr → Option VoidPtr)
  onSetChildCb : Bool

/-- What the calls use: the variables, how numbers and strings are converted, and if an allocation succeeds. -/
structure Env where
  lookupVar : List UInt8 → List UInt8 → Option Nat
  var : Nat → CfgDef
  strtol : List UInt8 → Option Int
  str2sint : List UInt8 → Option Int
  int2str : Int → List UInt8
  malloc : Nat → Bool

structure CfgCtx where
  locked : Bool
  /-- `changed_first`: the variables with their new values -/
  changed : List (Nat × CfgVal)

structure CfgState where
  shmized : Bool
  /-- `*cfg_global` -/
  global : Vars
  /-- the values before there is a block -/
  early : Vars
  ctx : Nat → CfgCtx
  writerLocked : Bool
  /-- the variables of the per-child callbacks, as they were installed -/
  childCbs : List Nat
  mallocs : Nat

abbrev CfgM := StateT CfgState Option

namespace CfgState

def setCtx (s : CfgState) (c : Nat) (ctx : CfgCtx) : CfgState := { s with ctx := update s.ctx c ctx }

def setLocked (s : CfgState) (c : Nat) (locked : Bool) : CfgState := s.setCtx c { s.ctx c with locked := locked }

def setChanged (s : CfgState) (c : Nat) (changed : List (Nat × CfgVal)) : CfgState :=
  s.setCtx c { s.ctx c with changed := changed }

end CfgState

/-- `CFG_CTX_LOCK`. -/
def ctxLock (c : Nat) : CfgM Unit := fun s => if (s.ctx c).locked then none else some ((), s.setLocked c true)

def ctxUnlock (c : Nat) : CfgM Unit := modify fun s => s.setLocked c false

/-- `CFG_WRITER_LOCK`. -/
def writerLock : CfgM Unit := fun s => if s.writerLocked then none else some ((), { s with writerLocked := true })

def writerUnlock : CfgM Unit := modify fun s => { s with writerLocked := false }

/-- The next allocation: if there is memory. -/
def malloc (env : Env) : CfgM Bool := fun s => some (env.malloc s.mallocs, { s with mallocs := s.mallocs + 1 })

/-- An allocation that is only made if it is needed. -/
def mallocIf (env : Env) (needed : Bool) : CfgM Bool := if needed then malloc env else return true

/-- `cfg_clone_str`, `none` if there is no memory. -/
def cloneStr (env : Env) (s : Option (List UInt8)) : CfgM (Option (Option (List UInt8))) := do
  let ok ← mallocIf env s.isSome
  return if ok then some s else none

/-- A value as it is put in. -/
inductive CfgInput where
  | int (i : Int)
  | string (s : Option (List UInt8))
  | str (s : Option (List UInt8))

def VoidPtr.ofInt (i : Int) : VoidPtr := ⟨i, none, none, 0⟩
def VoidPtr.ofString (s : Option (List UInt8)) : VoidPtr := ⟨0, s, none, 0⟩
def VoidPtr.ofStr (s : Option (List UInt8)) : VoidPtr := ⟨0, none, s, 0⟩

/-- `convert_val`. A `str` is copied to end it with a 0. -/
def convertVal (env : Env) (val : CfgInput) (input : InputType) : CfgM (Option VoidPtr) :=
  match input, val with
  | .int, .int i => return some (.ofInt i)
  | .int, .string s => return (s.bind fun s => if s = [] then none else env.strtol s).map .ofInt
  | .int, .str s => return (s.bind fun s => if s = [] then none else env.str2sint s).map .ofInt
  | .string, .int i => return some (.ofString (some (env.int2str i)))
  | .string, .string s => return some (.ofString s)
  | .string, .str none => return some (.ofString none)
  | .string, .str (some s) => do
    let ok ← malloc env
    return if ok then some (.ofString (some s)) else none
  | .str, .int i => return some (.ofStr (some (env.int2str i)))
  | .str, .string s => return some (.ofStr s)
  | .str, .str s => return some (.ofStr s)

/-- `(int)(long)v`. -/
def toInt32 (i : Int) : Int := Int.bmod i (2 ^ 32)

/-- The check of an integer against its range. -/
def CfgDef.inRange (d : CfgDef) (v : VoidPtr) : Bool :=
  !(d.input = .int && (d.min ≠ 0 || d.max ≠ 0)) || (d.min ≤ toInt32 v.int && toInt32 v.int ≤ d.max)

/-- The value that is stored for a variable; strings are copied. -/
def newVal (env : Env) (type : VarType) (v : VoidPtr) : CfgM (Option CfgVal) :=
  match type with
  | .int => return some (.int (toInt32 v.int))
  | .string => return (← cloneStr env v.string).map .string
  | .str => return (← cloneStr env v.str).map .str
  | .pointer => return some (.pointer v.pointer)

/-- The value is a string, which has to be freed if it is replaced. -/
def CfgVal.isString : CfgVal → Bool
  | .string s => s.isSome
  | .str s => s.isSome
  | _ => false

/-- What a setting of a variable needs from the caller: the context, the names, the value, and the
values of the process's own handle. -/
structure SetArgs where
  ctx : Option Nat
  groupName : List UInt8
  varName : List UInt8
  val : CfgInput
  handle : Vars

/-- Make a new block and install it, with the callbacks for the children. -/
def installGlobal (block : Vars) (cbs : List Nat) : CfgM Unit :=
  modify fun s => { s with global := block, childCbs := s.childCbs ++ cbs }

/-- The callbacks that are made for a changed variable. -/
def childCb (env : Env) (x : Nat) : List Nat := if (env.var x).onSetChildCb then [x] else []

/-- The value that is replaced is noted if it is a string, and the copy of the block is installed, if there is one. -/
def installVal (env : Env) (x : Nat) (old : CfgVal) (block : Vars) : CfgM Bool := do
  let ok ← mallocIf env old.isString
  unless ok do return false
  unless (env.var x).atomic do installGlobal block (childCb env x)
  return true

/-- A value is changed in place if that is allowed, or in a copy of the block: if there was memory for it. -/
def replaceVal (env : Env) (x : Nat) (v : VoidPtr) : CfgM Bool := do
  let ok ← mallocIf env !(env.var x).atomic
  unless ok do return false
  let some val ← newVal env (env.var x).type v | return false
  let s ← get
  let block := update s.global x val
  if (env.var x).atomic then modify fun s => { s with global := block }
  installVal env x (s.global x) block

/-- The end of `cfg_set_now` when there is a block. -/
def setGlobal (env : Env) (x : Nat) (v : VoidPtr) : CfgM Int := do
  writerLock
  let ok ← replaceVal env x v
  writerUnlock
  return if ok then 0 else -1

/-- The end of `cfg_set_now` before there is a block. -/
def setEarly (env : Env) (x : Nat) (v : VoidPtr) : CfgM Int := do
  let some val ← newVal env (env.var x).type v | return -1
  modify fun s => { s with early := update s.early x val, childCbs := s.childCbs ++ childCb env x }
  return 0

/-- `on_change_cb`, if there is one. -/
def onChange (env : Env) (x : Nat) (handle : Vars) (v : VoidPtr) : Option VoidPtr :=
  match (env.var x).onChangeCb with
  | none => some v
  | some cb => cb handle v

/-- `cfg_set_now`. -/
def cfgSetNow (env : Env) (args : SetArgs) : CfgM Int := do
  if args.ctx = none then return -1
  let some x := env.lookupVar args.groupName args.varName | return 1
  if (env.var x).readonly then return -1
  let some v ← convertVal env args.val (env.var x).input | return -1
  unless (env.var x).inRange v do return -1
  let s ← get
  let some v := onChange env x (if s.shmized then args.handle else s.early) v | return -1
  let ok ← mallocIf env (env.var x).onSetChildCb
  unless ok do return -1
  if s.shmized then setGlobal env x v else setEarly env x v

/-- Changes are applied to the values in the order they were made. -/
def applyChanges (changed : List (Nat × CfgVal)) (vars : Vars) : Vars :=
  changed.foldl (fun vars c => update vars c.1 c.2) vars

/-- The fixup of `cfg_set_delayed` sees the changes of the group that are not committed, in a copy of the handle. -/
def delayedFixup (env : Env) (c x : Nat) (handle : Vars) (v : VoidPtr) : CfgM (Option VoidPtr) := do
  if (env.var x).onChangeCb.isNone then return some v
  let s ← get
  let changed := (s.ctx c).changed
  let ok ← mallocIf env !changed.isEmpty
  unless ok do return none
  return onChange env x (applyChanges (changed.filter fun y => (env.var y.1).group = (env.var x).group) handle) v

/-- The part of `cfg_set_delayed` with the lock of the context: if the change was added. -/
def addChange (env : Env) (c x : Nat) (handle : Vars) (v : VoidPtr) : CfgM Bool := do
  let some v ← delayedFixup env c x handle v | return false
  let ok ← malloc env
  unless ok do return false
  let some val ← newVal env (env.var x).type v | return false
  modify fun s => s.setChanged c ((s.ctx c).changed ++ [(x, val)])
  return true

/-- `cfg_set_delayed`. -/
def cfgSetDelayed (env : Env) (args : SetArgs) : CfgM Int := do
  unless (← get).shmized do return ← cfgSetNow env args
  let some c := args.ctx | return -1
  let some x := env.lookupVar args.groupName args.varName | return 1
  if (env.var x).readonly then return -1
  let some v ← convertVal env args.val (env.var x).input | return -1
  unless (env.var x).inRange v do return -1
  ctxLock c
  let ok ← addChange env c x args.handle v
  ctxUnlock c
  return if ok then 0 else -1

/-- The callbacks for a list of changes; `none` if there is no memory for one. -/
def newChildCbs (env : Env) : List Nat → CfgM (Option (List Nat))
  | [] => return some []
  | x :: xs => do
    let ok ← mallocIf env (env.var x).onSetChildCb
    unless ok do return none
    return (← newChildCbs env xs).map fun cbs => childCb env x ++ cbs

/-- The variable has a string. -/
def CfgDef.hasString (d : CfgDef) : Bool := d.type = .string || d.type = .str

/-- The part of `cfg_commit` behind the callbacks: if the new block was installed. -/
def commitBlock (env : Env) (changed : List (Nat × CfgVal)) (cbs : List Nat) : CfgM Bool := do
  let ok ← mallocIf env (changed.any fun c => (env.var c.1).hasString)
  unless ok do return false
  writerLock
  let ok ← malloc env
  if ok then installGlobal (applyChanges changed (← get).global) cbs
  writerUnlock
  return ok

/-- `cfg_commit`. If there is no memory for a callback the lock of the context is not released: the
jump is to `error0`. -/
def cfgCommit (env : Env) (ctx : Option Nat) : CfgM Int := do
  let some c := ctx | return -1
  unless (← get).shmized do return 0
  ctxLock c
  let changed := ((← get).ctx c).changed
  if changed = [] then
    ctxUnlock c
    return 0
  let some cbs ← newChildCbs env (changed.map (·.1)) | return -1
  let ok ← commitBlock env changed cbs
  unless ok do
    ctxUnlock c
    return -1
  modify fun s => s.setChanged c []
  ctxUnlock c
  return 0

/-- `cfg_rollback`. -/
def cfgRollback (ctx : Option Nat) : CfgM Int := do
  let some c := ctx | return -1
  unless (← get).shmized do return 0
  ctxLock c
  modify fun s => s.setChanged c []
  ctxUnlock c
  return 0

end SipRouter.Cfg
