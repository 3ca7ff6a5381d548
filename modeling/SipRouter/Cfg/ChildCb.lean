import SipRouter.Cfg.Ctx
import SipRouter.Lib.Threads

/-!
# Callbacks in the children (`cfg/cfg_struct.h`, `cfg/cfg_struct.c`)

A change of a variable with an `on_set_child_cb` appends an element to a linked list, and
each child runs along the list and executes the callbacks of the elements. Elements have a
reference counter, which is changed without the lock: a child counts the next element
before it leaves the previous one, and frees an element that nobody refers to if it is the
first of the list.

The processes interleave at each access to the shared memory. Elements are numbered in the
order in which they are linked, and the first one, which has no callback, is element 0.
Blocks are numbered as they are installed; their reference counters are left out, and so
is what is done with the values. An element that is freed keeps its number.
-/

namespace SipRouter.Cfg

open Lib Function

/-- The type of the values that are put in, for a variable whose definition does not say. -/
def VarType.input : VarType → Option InputType
  | .int => some .int
  | .string => some .string
  | .str => some .str
  | .pointer => none

/-- What `cfg_declare` requires of a definition: a fixup if the input has another type, and for a
change in place an integer that needs no callback. -/
def CfgDef.declared (d : CfgDef) : Bool :=
  (d.type.input = some d.input || d.onChangeCb.isSome) && (!d.atomic || (d.type = .int && !d.onSetChildCb))

structure CbList where
  /-- `CFG_LOCK` -/
  locked : Bool
  /-- `CFG_WRITER_LOCK` -/
  writerLocked : Bool
  /-- the number of `*cfg_global` -/
  global : Nat
  /-- the callbacks of the elements behind element 0, as they are linked -/
  cbs : List Nat
  /-- `*cfg_child_cb_first` -/
  first : Nat
  /-- `*cfg_child_cb_last` -/
  last : Nat
  refcnt : Nat → Int
  freed : Nat → Bool
  /-- the callbacks of all changes that were made, and how many there were for each block; nobody reads them -/
  changes : List Nat
  covers : Nat → Nat

namespace CbList

/-- `cfg_child_cb->next`. -/
def next (s : CbList) (n : Nat) : Option Nat := if n < s.cbs.length then some (n + 1) else none

/-- `cfg_child_cb->cb`. -/
def cb (s : CbList) (n : Nat) : Option Nat := if n = 0 then none else s.cbs[n - 1]?

end CbList

/-- What a process calls: `cfg_update`, `cfg_set_now` for a variable, or `cfg_commit` for the
changes of a context. A change fails if there is no memory. -/
inductive Job where
  | update
  | setNow (x : Nat) (fails : Bool)
  | commit (xs : List Nat) (fails : Bool)
deriving DecidableEq

/-- What is done with the writer lock. -/
inductive Write where
  | nothing
  | inPlace (x : Nat)
  | install (cbs : List Nat)
deriving DecidableEq

inductive Pc where
  | idle
  -- `cfg_update_local`
  | updateLock
  | readGlobal
  | readLast
  | updateUnlock
  | loop
  | inc
  | dec
  | freeLock
  | check
  | setFirst
  | freeUnlock
  | keepUnlock
  | free
  | execute
  -- `cfg_set_now` and `cfg_commit`
  | writerLock (w : Write)
  | inPlace (x : Nat)
  | installLock (cbs : List Nat)
  | setGlobal (cbs : List Nat)
  | setNext (cbs : List Nat)
  | setLast (cbs : List Nat)
  | installUnlock
  | writerUnlock
  /-- a null pointer was used -/
  | fault
deriving DecidableEq

/-- A process: if it is a registered child, the calls it will make, and its variables. -/
structure Proc where
  pc : Pc
  child : Bool
  jobs : List Job
  /-- `cfg_child_cb` -/
  cur : Nat
  /-- `cfg_local` -/
  loc : Option Nat
  lastCb : Nat
  prevCb : Nat
  /-- the callbacks it has executed -/
  ran : List Nat

/-- The start of a change: what will be done with the writer lock. -/
def Job.write (env : Env) : Job → Option Write
  | .update => none
  | .setNow x fails =>
    some (if fails then .nothing else if (env.var x).atomic then .inPlace x else .install (childCb env x))
  | .commit xs fails =>
    if xs = [] then none else some (if fails then .nothing else .install (xs.flatMap (childCb env)))

/-- The next call. A process that is not registered does not call `cfg_update`. -/
def Proc.begin (env : Env) (p : Proc) (s : CbList) : Proc :=
  match p.jobs with
  | [] => p
  | job :: jobs =>
    match job.write env with
    | some w => { p with jobs := jobs, pc := .writerLock w }
    | none =>
      if job = .update ∧ p.child ∧ p.loc ≠ some s.global then { p with jobs := jobs, pc := .updateLock }
      else { p with jobs := jobs }

/-- What follows when the writer lock was taken. -/
def Write.pc : Write → Pc
  | .nothing => .writerUnlock
  | .inPlace x => .inPlace x
  | .install cbs => .installLock cbs

/-- One step of a process. -/
def Proc.step (env : Env) (p : Proc) (s : CbList) : Proc × CbList :=
  match p.pc with
  | .idle => (p.begin env s, s)
  | .updateLock => if s.locked then (p, s) else ({ p with pc := .readGlobal }, { s with locked := true })
  | .readGlobal => ({ p with pc := .readLast, loc := some s.global }, s)
  | .readLast => ({ p with pc := .updateUnlock, lastCb := s.last }, s)
  | .updateUnlock => ({ p with pc := .loop }, { s with locked := false })
  | .loop =>
    if p.cur = p.lastCb then ({ p with pc := .idle }, s)
    else
      match s.next p.cur with
      | some n => ({ p with pc := .inc, prevCb := p.cur, cur := n }, s)
      | none => ({ p with pc := .fault }, s)
  | .inc => ({ p with pc := .dec }, { s with refcnt := update s.refcnt p.cur (s.refcnt p.cur + 1) })
  | .dec =>
    ({ p with pc := if s.refcnt p.prevCb - 1 = 0 then .freeLock else .execute },
      { s with refcnt := update s.refcnt p.prevCb (s.refcnt p.prevCb - 1) })
  | .freeLock => if s.locked then (p, s) else ({ p with pc := .check }, { s with locked := true })
  | .check => ({ p with pc := if s.first = p.prevCb then .setFirst else .keepUnlock }, s)
  | .setFirst => ({ p with pc := .freeUnlock }, { s with first := p.cur })
  | .freeUnlock => ({ p with pc := .free }, { s with locked := false })
  | .keepUnlock => ({ p with pc := .execute }, { s with locked := false })
  | .free => ({ p with pc := .execute }, { s with freed := update s.freed p.prevCb true })
  | .execute =>
    match s.cb p.cur with
    | some cb => ({ p with pc := .loop, ran := p.ran ++ [cb] }, s)
    | none => ({ p with pc := .fault }, s)
  | .writerLock w => if s.writerLocked then (p, s) else ({ p with pc := w.pc }, { s with writerLocked := true })
  | .inPlace x => ({ p with pc := .writerUnlock }, { s with changes := s.changes ++ childCb env x })
  | .installLock cbs => if s.locked then (p, s) else ({ p with pc := .setGlobal cbs }, { s with locked := true })
  | .setGlobal cbs =>
    ({ p with pc := if cbs = [] then .installUnlock else .setNext cbs },
      { s with global := s.global + 1, changes := s.changes ++ cbs,
               covers := update s.covers (s.global + 1) (s.changes ++ cbs).length })
  | .setNext cbs => ({ p with pc := .setLast cbs }, { s with cbs := s.cbs.take s.last ++ cbs })
  | .setLast cbs => ({ p with pc := .installUnlock }, { s with last := s.last + cbs.length })
  | .installUnlock => ({ p with pc := .writerUnlock }, { s with locked := false })
  | .writerUnlock => ({ p with pc := .idle }, { s with writerLocked := false })
  | .fault => (p, s)

/-- All the calls of a process are in its state. -/
def cfgThreads (env : Env) : Threads Proc CbList where
  code p s := p.step env s
  returned _ := false
  entry _ _ := false

/-- An element is found to be the first of the list, to be freed, while nobody refers to it. -/
def stillUnused : Cond Proc CbList where
  own p s := !(p.pc = .check && s.first = p.prevCb) || s.refcnt p.prevCb = 0

end SipRouter.Cfg
