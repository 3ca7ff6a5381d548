import SipRouter.Lib.Mutex
import SipRouter.Lib.Shares
import SipRouter.Lib.Threads

/-!
# Reloading the prefix tree (`modules/prefix_route/tree.c`)

Readers count themselves in the tree that is shared, with the lock, and leave the tree
without it. A reload reads which tree is shared, and then, with the lock taken a second
time, shares its own; it waits until nobody is counted in the tree it has read, and
flushes it. Two reloads that both read before either of them shares its tree flush the
same tree twice.

The processes interleave at each operation on the lock, the shared pointer and the
counters. Trees are numbered as they are allocated; one that is flushed keeps its number.
-/

namespace SipRouter.PrefixRoute

open Function Lib List

structure Shared where
  /-- `shared_tree_lock` -/
  locked : Bool
  /-- `*shared_tree` -/
  tree : Option Nat
  refcnt : Nat → Int
  /-- how many trees were allocated, how often each was flushed, and which were shared so far; nobody reads them -/
  next : Nat
  flushed : Nat → Nat
  published : List Nat

inductive Pc where
  | idle
  -- `tree_ref`
  | refLock
  | refRead
  | refInc (tree : Option Nat)
  | refRelease (tree : Nat)
  -- the rest of `tree_route_get`
  | lookup (tree : Nat)
  | deref (tree : Nat)
  -- `tree_swap`, in which `tree_alloc` may fail, with `tree_get`
  | alloc (ok : Bool)
  | getLock (new : Nat)
  | getRead (new : Nat)
  | getRelease (new : Nat) (old : Option Nat)
  | swapLock (new : Nat) (old : Option Nat)
  | swapWrite (new : Nat) (old : Option Nat)
  | swapRelease (old : Option Nat)
  -- `tree_flush`
  | wait (tree : Nat)
  | free (tree : Nat)
  /-- a null pointer was used -/
  | fault
deriving DecidableEq

variable {k : Pc}

/-- One step of a process. -/
def Pc.step (k : Pc) (s : Shared) : Pc × Shared :=
  match k with
  | .idle => (.idle, s)
  | .refLock => if s.locked then (.refLock, s) else (.refRead, { s with locked := true })
  | .refRead => (.refInc s.tree, s)
  | .refInc none => (.fault, s)
  | .refInc (some t) => (.refRelease t, { s with refcnt := update s.refcnt t (s.refcnt t + 1) })
  | .refRelease t => (.lookup t, { s with locked := false })
  | .lookup t => (.deref t, s)
  | .deref t => (.idle, { s with refcnt := update s.refcnt t (s.refcnt t - 1) })
  | .alloc false => (.idle, s)
  | .alloc true => (.getLock s.next, { s with next := s.next + 1, refcnt := update s.refcnt s.next 0 })
  | .getLock n => if s.locked then (.getLock n, s) else (.getRead n, { s with locked := true })
  | .getRead n => (.getRelease n s.tree, s)
  | .getRelease n old => (.swapLock n old, { s with locked := false })
  | .swapLock n old => if s.locked then (.swapLock n old, s) else (.swapWrite n old, { s with locked := true })
  | .swapWrite n old => (.swapRelease old, { s with tree := some n, published := s.published ++ [n] })
  | .swapRelease none => (.idle, { s with locked := false })
  | .swapRelease (some t) => (.wait t, { s with locked := false })
  | .wait t => if s.refcnt t ≤ 0 then (.free t, s) else (.wait t, s)
  | .free t => (.idle, { s with flushed := update s.flushed t (s.flushed t + 1) })
  | .fault => (.fault, s)

/-- The calls of `tree_route_get` and `tree_swap`. -/
def treeThreads : Threads Pc Shared where
  code := Pc.step
  returned k := k = .idle
  entry k _ := k = .refLock || k = .alloc true || k = .alloc false

/-- A reload that has read the shared tree, and has not shared its own yet. -/
def Pc.window : Pc → Bool
  | .getRelease _ _ | .swapLock _ _ | .swapWrite _ _ => true
  | _ => false

def Pc.readsOld : Pc → Bool
  | .getRead _ => true
  | _ => false

/-- No reload reads the shared tree while another one is between its reading and its writing, and no
reader reads it before the first one is shared. -/
def reloadsApart : Cond Pc Shared where
  own k s := k ≠ .refRead || s.tree.isSome
  beside k j := !(k.readsOld && j.window)

/-- After `tree_init`. -/
def start {ι : Type} : System ι Pc Shared where
  shared := { locked := false, tree := none, refcnt := fun _ => 0, next := 0, flushed := fun _ => 0, published := [] }
  point _ := .idle

/-! ## What a process has -/

/-- The lock is held. -/
def Pc.crit : Pc → Bool
  | .refRead | .refInc _ | .refRelease _ | .getRead _ | .getRelease _ _ | .swapWrite _ _
  | .swapRelease _ | .fault => true
  | _ => false

/-- If a reader is counted in tree `t`. -/
def Pc.refs (t : Nat) : Pc → Nat
  | .refRelease u | .lookup u | .deref u => if u = t then 1 else 0
  | _ => 0

/-- If a reader has obtained tree `t`, and has not dereferenced it yet. -/
def Pc.obtains (t : Nat) : Pc → Nat
  | .refInc (some u) | .refRelease u | .lookup u | .deref u => if u = t then 1 else 0
  | _ => 0

/-- If a reload has tree `t` to share. -/
def Pc.news (t : Nat) : Pc → Nat
  | .getLock n | .getRead n | .getRelease n _ | .swapLock n _ | .swapWrite n _ => if n = t then 1 else 0
  | _ => 0

/-- If a reload has replaced tree `t`, and has not flushed it yet. -/
def Pc.olds (t : Nat) : Pc → Nat
  | .swapRelease (some u) | .wait u | .free u => if u = t then 1 else 0
  | _ => 0

def Pc.owns (t : Nat) (k : Pc) : Nat := k.news t + k.olds t

/-- What holds where a process is. -/
def Pc.At (k : Pc) (s : Shared) : Prop :=
  match k with
  | .refInc tree => s.tree = tree ∧ tree ≠ none
  | .getRelease _ old | .swapLock _ old | .swapWrite _ old => s.tree = old
  | .fault => False
  | _ => True

/-- Tree `t` is shared, once, or was flushed, so many times. -/
def Shared.places (s : Shared) (t : Nat) : Nat := (if s.tree = some t then 1 else 0) + s.flushed t

/-! ## What a step changes -/

/-- What a call or a step can do. -/
inductive Step : Pc → Shared → Pc → Shared → Prop
  | stay (k s) : Step k s k s
  | callGet (s) : Step .idle s .refLock s
  | callSwap (ok s) : Step .idle s (.alloc ok) s
  | refLock {s} : s.locked = false → Step .refLock s .refRead { s with locked := true }
  | refRead (s) : Step .refRead s (.refInc s.tree) s
  | refFault (s) : Step (.refInc none) s .fault s
  | refInc (t s) : Step (.refInc (some t)) s (.refRelease t) { s with refcnt := update s.refcnt t (s.refcnt t + 1) }
  | refRelease (t s) : Step (.refRelease t) s (.lookup t) { s with locked := false }
  | lookup (t s) : Step (.lookup t) s (.deref t) s
  | deref (t s) : Step (.deref t) s .idle { s with refcnt := update s.refcnt t (s.refcnt t - 1) }
  | noAlloc (s) : Step (.alloc false) s .idle s
  | alloc (s) : Step (.alloc true) s (.getLock s.next)
      { s with next := s.next + 1, refcnt := update s.refcnt s.next 0 }
  | getLock {n s} : s.locked = false → Step (.getLock n) s (.getRead n) { s with locked := true }
  | getRead (n s) : Step (.getRead n) s (.getRelease n s.tree) s
  | getRelease (n old s) : Step (.getRelease n old) s (.swapLock n old) { s with locked := false }
  | swapLock {n old s} : s.locked = false → Step (.swapLock n old) s (.swapWrite n old) { s with locked := true }
  | swapWrite (n old s) :
      Step (.swapWrite n old) s (.swapRelease old)
      { s with tree := some n, published := s.published ++ [n] }
  | noFlush (s) : Step (.swapRelease none) s .idle { s with locked := false }
  | swapRelease (t s) : Step (.swapRelease (some t)) s (.wait t) { s with locked := false }
  | wait {t s} : s.refcnt t ≤ 0 → Step (.wait t) s (.free t) s
  | free (t s) : Step (.free t) s .idle { s with flushed := update s.flushed t (s.flushed t + 1) }

theorem Pc.step_cases (s) : Step k s (k.step s).1 (k.step s).2 := by
  have lock : ∀ {k k' : Pc} {s' : Shared}, (s.locked = false → Step k s k' s') →
      Step k s (if s.locked then (k, s) else (k', s')).1 (if s.locked then (k, s) else (k', s')).2 := by
    intro k k' s' h
    by_cases hl : s.locked = true
    · rw [if_pos hl]
      exact .stay k s
    · rw [if_neg hl]
      exact h (Bool.eq_false_of_not_eq_true hl)
  cases k with
  | idle | fault => exact .stay _ _
  | refLock => exact lock .refLock
  | refRead => exact .refRead s
  | refInc tree => cases tree with
    | none => exact .refFault s
    | some t => exact .refInc t s
  | refRelease t => exact .refRelease t s
  | lookup t => exact .lookup t s
  | deref t => exact .deref t s
  | alloc ok => cases ok with
    | false => exact .noAlloc s
    | true => exact .alloc s
  | getLock n => exact lock .getLock
  | getRead n => exact .getRead n s
  | getRelease n old => exact .getRelease n old s
  | swapLock n old => exact lock .swapLock
  | swapWrite n old => exact .swapWrite n old s
  | swapRelease old => cases old with
    | none => exact .noFlush s
    | some t => exact .swapRelease t s
  | wait t =>
    unfold Pc.step
    dsimp only
    split
    · rename_i h
      exact .wait h
    · exact .stay _ _
  | free t => exact .free t s

section Step

variable {k k' : Pc} {s s' : Shared} {t : Nat}

section

variable (h : Step k s k' s')

include h

theorem Step.lock : LockStep k.crit s.locked k'.crit s'.locked := by
  cases h with
  | refLock hl | getLock hl | swapLock hl => exact hl ▸ .take
  | refRelease | getRelease | noFlush | swapRelease => exact .release _
  | _ => exact .keep _ _

/-- The counter of a tree changes with those who are counted in it. -/
theorem Step.refcnt (hnext : s.refcnt s.next = 0) (t : Nat) :
    s'.refcnt t + (k.refs t : Int) = s.refcnt t + (k'.refs t : Int) := by
  cases h with
  | refInc u | deref u =>
    by_cases ht : u = t
    · subst ht
      simp [Pc.refs]
    · simp [Pc.refs, ht, update_of_ne (.symm ht)]
  | alloc =>
    by_cases ht : s.next = t
    · simp [Pc.refs, ← ht, hnext]
    · simp [Pc.refs, update_of_ne (.symm ht)]
  | _ => rfl

/-- A tree that is allocated is to be shared, is shared, is replaced or is flushed. -/
theorem Step.places (hat : k.At s) (t : Nat) :
    s'.places t + k'.owns t + (if t < s.next then 1 else 0) =
      s.places t + k.owns t + (if t < s'.next then 1 else 0) := by
  cases h with
  | alloc =>
    simp only [Shared.places, Pc.owns, Pc.news, Pc.olds]
    split_ifs <;> omega
  | swapWrite n old =>
    have htree : s.tree = old := hat
    subst htree
    cases htree : s.tree <;> simp [Shared.places, Pc.owns, Pc.news, Pc.olds, htree] <;> omega
  | free u =>
    by_cases ht : u = t
    · subst ht
      simp [Shared.places, Pc.owns, Pc.news, Pc.olds]
      omega
    · simp [Shared.places, Pc.owns, Pc.news, Pc.olds, ht, update_of_ne (Ne.symm ht)]
  | _ => rfl

theorem Step.tree : s'.tree = s.tree ∧ s'.published = s.published ∨
    ∃ n old, k = .swapWrite n old ∧ s'.tree = some n ∧ s'.published = s.published ++ [n] := by
  cases h with
  | swapWrite n old => exact .inr ⟨n, old, rfl, rfl, rfl⟩
  | _ => exact .inl ⟨rfl, rfl⟩

theorem Step.flushed : s'.flushed = s.flushed ∨ ∃ t, k = .free t ∧ s'.flushed = update s.flushed t
    (s.flushed t + 1) := by
  cases h with
  | free t => exact .inr ⟨t, rfl, rfl⟩
  | _ => exact .inl rfl

theorem Step.next_le : s.next ≤ s'.next := by
  cases h with
  | alloc => exact Nat.le_succ _
  | _ => exact Nat.le_refl _

theorem Step.window (hw : k'.window = true) : k.window = true ∨ k.readsOld = true := by
  cases h with
  | stay => exact .inl hw
  | getRead => exact .inr rfl
  | getRelease | swapLock => exact .inl rfl
  | _ => cases hw

end

theorem Step.mem_published (hs : Step k s k' s') (ht : t ∈ s.published) : t ∈ s'.published := by
  rcases hs.tree with ⟨_, hpub⟩ | ⟨n, old, _, _, hpub⟩
  · rwa [hpub]
  · rw [hpub]
    exact mem_append_left _ ht

/-- Only `tree_ref` obtains a tree, the one that is shared. -/
theorem Step.obtains (h : Step k s k' s') (t : Nat) : k'.obtains t ≤ k.obtains t ∨ s.tree = some t ∧ s' = s := by
  cases h with
  | refRead =>
    cases htree : s.tree with
    | none => exact .inl (Nat.le_refl _)
    | some u =>
      by_cases hu : u = t
      · exact .inr ⟨by rw [hu], rfl⟩
      · simp [Pc.obtains, hu]
  | deref => exact .inl (Nat.zero_le _)
  | _ => exact .inl (Nat.le_refl _)

theorem Step.to_free (h : Step k s (.free t) s') : k = .free t ∨ k = .wait t ∧ s.refcnt t ≤ 0 := by
  cases h with
  | stay => exact .inl rfl
  | wait hle => exact .inr ⟨rfl, hle⟩

theorem Step.news (h : Step k s k' s') (ht : 0 < k'.news t) : 0 < k.news t ∨ t = s.next := by
  cases h with
  | alloc =>
    simp only [Pc.news] at ht
    split_ifs at ht with hn
    · exact .inr hn.symm
    · cases ht
  | swapWrite | free => cases ht
  | _ => exact .inl ht

theorem Step.olds (h : Step k s k' s') (hat : k.At s) (ht : 0 < k'.olds t) : 0 < k.olds t ∨ s.tree = some t := by
  cases h with
  | swapWrite n old =>
    have htree : s.tree = old := hat
    cases old with
    | none => cases ht
    | some u =>
      simp only [Pc.olds] at ht
      split_ifs at ht with hu
      · exact .inr (hu ▸ htree)
      · cases ht
  | free => cases ht
  | _ => exact .inl ht

/-- What holds after a step of one's own. -/
theorem Step.at_own (h : Step k s k' s') (hat : k.At s) (hown : reloadsApart.own k s = true) : k'.At s' := by
  cases h with
  | stay | getRelease | swapLock => exact hat
  | refRead =>
    refine ⟨rfl, fun hnone => ?_⟩
    simp [reloadsApart, hnone] at hown
  | refFault => exact hat.2 rfl
  | getRead => rfl
  | _ => trivial

theorem Pc.At.of_tree (h : k.At s) (htree : s'.tree = s.tree) : k.At s' := by
  cases k with
  | refInc | getRelease | swapLock | swapWrite =>
    simp only [Pc.At] at h ⊢
    rwa [htree]
  | fault => exact h
  | _ => trivial

/-- Who neither holds the lock nor has read an old tree does not need the shared tree to stay. -/
theorem Pc.At.of_outside (h : k.At s) (hcrit : k.crit ≠ true) (hwin : k.window ≠ true) : k.At s' := by
  cases k with
  | refInc | fault => exact absurd rfl hcrit
  | getRelease | swapLock | swapWrite => exact absurd rfl hwin
  | _ => trivial

theorem Pc.refs_le_obtains (t : Nat) : k.refs t ≤ k.obtains t := by
  cases k with
  | refRelease | lookup | deref => exact Nat.le_refl _
  | _ => exact Nat.zero_le _

/-- A tree is obtained before the reader is counted in it, while it is shared. -/
theorem Pc.At.obtains (h : k.At s) (ho : 0 < k.obtains t) : 0 < k.refs t ∨ s.tree = some t := by
  cases k with
  | refInc tree =>
    cases tree with
    | none => cases ho
    | some u =>
      simp only [Pc.obtains] at ho
      split_ifs at ho with hu
      · exact .inr (hu ▸ h.1)
      · cases ho
  | refRelease | lookup | deref => exact .inl ho
  | _ => cases ho

end Step

/-! ## What holds in every state -/

variable {ι : Type} [Fintype ι] {s : System ι Pc Shared}

structure Sound (s : System ι Pc Shared) : Prop where
  mutex : Mutex (fun i => (s.point i).crit) s.shared.locked
  at_point : ∀ i, (s.point i).At s.shared
  apart : ∀ i j, (s.point i).window = true → (s.point j).window = true → i = j
  count : ∀ t, s.shared.refcnt t = shares (Pc.refs t) s.point
  places : ∀ t, s.shared.places t + shares (Pc.owns t) s.point = if t < s.shared.next then 1 else 0
  held : ∀ t, 0 < shares (Pc.obtains t) s.point → t < s.shared.next ∧ s.shared.flushed t = 0
  unused : ∀ i t, s.point i = .free t → shares (Pc.obtains t) s.point = 0
  last : s.shared.tree = s.shared.published.getLast?
  new : ∀ i t, 0 < (s.point i).news t → t ∉ s.shared.published
  old : ∀ i t, 0 < (s.point i).olds t → t ∈ s.shared.published
  flushed : ∀ t, 0 < s.shared.flushed t → t ∈ s.shared.published
  published : ∀ t ∈ s.shared.published, t < s.shared.next

namespace Sound

variable {i : ι} {t : Nat}

section

variable (h : Sound s) {s' : Shared} {k' : Pc}

include h

/-- The tree that is shared is nobody's, and was not flushed. -/
theorem shared_tree (ht : s.shared.tree = some t) :
    t < s.shared.next ∧ s.shared.flushed t = 0 ∧ shares (Pc.owns t) s.point = 0 := by
  have hlaw := h.places t
  simp only [Shared.places, ht, if_true] at hlaw
  split_ifs at hlaw <;> omega

theorem not_shared (ho : 0 < (s.point i).owns t) : s.shared.tree ≠ some t := by
  intro ht
  have hzero := shares_eq_zero.1 (h.shared_tree ht).2.2 i
  omega

theorem refcnt_next : s.shared.refcnt s.shared.next = 0 := by
  rw [h.count, Nat.cast_eq_zero, shares_eq_zero]
  intro i
  by_contra hne
  have hle := (s.point i).refs_le_obtains s.shared.next
  have hsum := le_shares (Pc.obtains s.shared.next) s.point i
  exact absurd (h.held s.shared.next (by omega)).1 (lt_irrefl _)

/-- Nobody has obtained a tree that was replaced and in which nobody is counted. -/
theorem wait_unused (hi : s.point i = .wait t) (hle : s.shared.refcnt t ≤ 0) : shares (Pc.obtains t) s.point = 0 := by
  rw [shares_eq_zero]
  intro j
  by_contra hne
  rcases (h.at_point j).obtains (pos_of_ne_zero hne) with href | htree
  · have hsum := le_shares (Pc.refs t) s.point j
    have hcount := h.count t
    omega
  · refine h.not_shared (i := i) ?_ htree
    simp [hi, Pc.owns, Pc.news, Pc.olds]

theorem tree_mem (ht : s.shared.tree = some t) : t ∈ s.shared.published := mem_of_getLast? (h.last ▸ ht)

theorem news_lt (ht : 0 < (s.point i).news t) : t < s.shared.next := by
  have hlaw := h.places t
  have hle := le_shares (Pc.owns t) s.point i
  have howns : 0 < (s.point i).owns t := Nat.add_pos_left ht _
  split_ifs at hlaw with hlt
  · exact hlt
  · omega

section

variable (hs : Step (s.point i) s.shared k' s')

include hs

theorem step_last : s'.tree = s'.published.getLast? := by
  rcases hs.tree with ⟨htree, hpub⟩ | ⟨n, old, _, htree, hpub⟩
  · rw [htree, hpub, h.last]
  · rw [htree, hpub, getLast?_concat]

theorem step_flushed (t : Nat) (ht : 0 < s'.flushed t) : t ∈ s'.published := by
  apply hs.mem_published
  rcases hs.flushed with hfl | ⟨u, hk, hfl⟩
  · exact h.flushed t (hfl ▸ ht)
  · rcases eq_or_ne t u with rfl | hne
    · exact h.old i t (by simp [hk, Pc.olds])
    · rw [hfl, update_of_ne hne] at ht
      exact h.flushed t ht

theorem step_published (t : Nat) (ht : t ∈ s'.published) : t < s'.next := by
  apply lt_of_lt_of_le _ hs.next_le
  rcases hs.tree with ⟨_, hpub⟩ | ⟨n, old, hk, _, hpub⟩
  · exact h.published t (hpub ▸ ht)
  · rw [hpub, mem_append, mem_singleton] at ht
    rcases ht with ht | rfl
    · exact h.published t ht
    · exact h.news_lt (i := i) (by simp [hk, Pc.news])

end

end

section Step

variable [DecidableEq ι] {k' : Pc} {s' : Shared}

section

variable (h : Sound s) (hs : Step (s.point i) s.shared k' s')

include h hs

theorem step_mutex : Mutex (fun j => (update s.point i k' j).crit) s'.locked := by
  have heq : (fun j => (update s.point i k' j).crit) = update (fun j => (s.point j).crit) i k'.crit :=
    funext fun j => Function.apply_update (fun _ => Pc.crit) s.point i k' j
  rw [heq]
  exact h.mutex.step hs.lock

theorem step_at (hC : reloadsApart.Meets s i) (j : ι) : (update s.point i k' j).At s' := by
  rcases eq_or_ne j i with rfl | hne
  · rw [update_self]
    exact hs.at_own (h.at_point j) hC.1
  · rw [update_of_ne hne]
    rcases hs.tree with ⟨htree, _⟩ | ⟨n, old, hk, _⟩
    · exact (h.at_point j).of_tree htree
    · -- the writer has the lock, and it alone has read an old tree
      apply (h.at_point j).of_outside
      · exact fun hj => hne (h.mutex.excl j i hj (by simp [hk, Pc.crit]))
      · exact fun hj => hne (h.apart j i hj (by simp [hk, Pc.window]))

theorem step_apart (hC : reloadsApart.Meets s i) (j l : ι)
    (hj : (update s.point i k' j).window = true) (hl : (update s.point i k' l).window = true) : j = l := by
  have hother : ∀ j, j ≠ i → k'.window = true → (s.point j).window ≠ true := by
    intro j hne hw hj
    rcases hs.window hw with hi | hi
    · exact hne (h.apart j i hj hi)
    · have hbeside := hC.2 j hne
      simp [reloadsApart, hi, hj] at hbeside
  rcases eq_or_ne j i with rfl | hji
  · rcases eq_or_ne l j with rfl | hlj
    · rfl
    · rw [update_self] at hj
      rw [update_of_ne hlj] at hl
      exact absurd hl (hother l hlj hj)
  · rw [update_of_ne hji] at hj
    rcases eq_or_ne l i with rfl | hli
    · rw [update_self] at hl
      exact absurd hj (hother j hji hl)
    · rw [update_of_ne hli] at hl
      exact h.apart j l hj hl

theorem step_count (t : Nat) : s'.refcnt t = shares (Pc.refs t) (update s.point i k') := by
  have hsum := shares_update (Pc.refs t) s.point i k'
  have hcnt := hs.refcnt h.refcnt_next t
  have hcount := h.count t
  omega

theorem step_places (t : Nat) :
    s'.places t + shares (Pc.owns t) (update s.point i k') = if t < s'.next then 1 else 0 := by
  have hsum := shares_update (Pc.owns t) s.point i k'
  have hstep := hs.places (h.at_point i) t
  have hlaw := h.places t
  omega

end

theorem step_obtains (hs : Step (s.point i) s.shared k' s') (t : Nat) :
    shares (Pc.obtains t) (update s.point i k') ≤ shares (Pc.obtains t) s.point ∨
      s.shared.tree = some t ∧ s' = s.shared := by
  have hsum := shares_update (Pc.obtains t) s.point i k'
  rcases hs.obtains t with hle | htree
  · left
    omega
  · exact .inr htree

variable (h : Sound s) (hs : Step (s.point i) s.shared k' s')

include h hs

theorem step_held (t : Nat) (ho : 0 < shares (Pc.obtains t) (update s.point i k')) :
    t < s'.next ∧ s'.flushed t = 0 := by
  rcases step_obtains hs t with hle | ⟨htree, rfl⟩
  · obtain ⟨hlt, hzero⟩ := h.held t (by omega)
    refine ⟨hlt.trans_le hs.next_le, ?_⟩
    rcases hs.flushed with hfl | ⟨u, hk, hfl⟩
    · rw [hfl, hzero]
    · have hne : t ≠ u := by
        rintro rfl
        have hun := h.unused i t hk
        omega
      rw [hfl, update_of_ne hne, hzero]
  · exact ⟨(h.shared_tree htree).1, (h.shared_tree htree).2.1⟩

theorem step_unused (j : ι) (t : Nat) (hj : update s.point i k' j = .free t) :
    shares (Pc.obtains t) (update s.point i k') = 0 := by
  -- the tree was replaced, and nobody had obtained it
  have hbefore : ∃ l, 0 < (s.point l).owns t ∧ shares (Pc.obtains t) s.point = 0 := by
    rcases eq_or_ne j i with rfl | hne
    · rw [update_self] at hj
      subst hj
      rcases hs.to_free with hk | ⟨hk, hle⟩
      · exact ⟨j, by simp [hk, Pc.owns, Pc.news, Pc.olds], h.unused j t hk⟩
      · exact ⟨j, by simp [hk, Pc.owns, Pc.news, Pc.olds], h.wait_unused hk hle⟩
    · rw [update_of_ne hne] at hj
      exact ⟨j, by simp [hj, Pc.owns, Pc.news, Pc.olds], h.unused j t hj⟩
  obtain ⟨l, howns, hzero⟩ := hbefore
  rcases step_obtains hs t with hle | ⟨htree, _⟩
  · omega
  · exact absurd htree (h.not_shared howns)

theorem step_new (j : ι) (t : Nat) (hj : 0 < (update s.point i k' j).news t) : t ∉ s'.published := by
  have hbefore : t ∉ s.shared.published := by
    rcases eq_or_ne j i with rfl | hne
    · rw [update_self] at hj
      rcases hs.news hj with hk | rfl
      · exact h.new j t hk
      · exact fun hmem => lt_irrefl _ (h.published _ hmem)
    · rw [update_of_ne hne] at hj
      exact h.new j t hj
  rcases hs.tree with ⟨_, hpub⟩ | ⟨n, old, hk, htree, hpub⟩
  · rwa [hpub]
  · rw [hpub, mem_append, mem_singleton, not_or]
    refine ⟨hbefore, ?_⟩
    rintro rfl
    -- it is shared now, so it is nobody's
    have hlaw := h.step_places hs t
    have hle := le_shares (Pc.owns t) (update s.point i k') j
    have howns : 0 < (update s.point i k' j).owns t := Nat.add_pos_left hj _
    simp only [Shared.places, htree, if_true] at hlaw
    split_ifs at hlaw <;> omega

theorem step_old (j : ι) (t : Nat) (hj : 0 < (update s.point i k' j).olds t) : t ∈ s'.published := by
  apply hs.mem_published
  rcases eq_or_ne j i with rfl | hne
  · rw [update_self] at hj
    rcases hs.olds (h.at_point j) hj with hk | htree
    · exact h.old j t hk
    · exact h.tree_mem htree
  · rw [update_of_ne hne] at hj
    exact h.old j t hj

/-- A step that meets the condition keeps all of it. -/
theorem step (hC : reloadsApart.Meets s i) : Sound ⟨s', update s.point i k'⟩ where
  mutex := h.step_mutex hs
  at_point := h.step_at hs hC
  apart := h.step_apart hs hC
  count := h.step_count hs
  places := h.step_places hs
  held := h.step_held hs
  unused := h.step_unused hs
  last := h.step_last hs
  new := h.step_new hs
  old := h.step_old hs
  flushed := h.step_flushed hs
  published := h.step_published hs

end Step

end Sound

theorem sound_start : Sound (start : System ι Pc Shared) where
  mutex := ⟨nofun, nofun, nofun⟩
  at_point _ := trivial
  apart := nofun
  count t := by simp [start, shares, Pc.refs]
  places t := by simp [start, shares, Shared.places, Pc.owns, Pc.news, Pc.olds]
  held t := by simp [start, shares, Pc.obtains]
  unused := nofun
  last := rfl
  new _ _ := by simp [start, Pc.news]
  old _ _ := by simp [start, Pc.olds]
  flushed _ := by simp [start]
  published := nofun

/-- In a state of a run that meets the condition. -/
theorem sound_of_reach [DecidableEq ι] (h : Reach treeThreads reloadsApart start s) : Sound s := by
  induction h with
  | start => exact sound_start
  | @call s i k _ hret hk ih =>
    have hidle : s.point i = .idle := by simpa [treeThreads] using hret
    have hmeets : reloadsApart.Meets s i := ⟨by simp [reloadsApart, hidle], by simp [reloadsApart, hidle, Pc.readsOld]⟩
    have hstep : Step (s.point i) s.shared k s.shared := by
      rw [hidle]
      simp only [treeThreads, Bool.or_eq_true, decide_eq_true_eq] at hk
      rcases hk with (rfl | rfl) | rfl
      · exact .callGet _
      · exact .callSwap true _
      · exact .callSwap false _
    exact ih.step hstep hmeets
  | @go s i _ hi ih => exact ih.step (Pc.step_cases _) hi

/-! ## Waiting ends -/

/-- How many steps are left at most, waiting apart. -/
def Pc.rank : Pc → Nat
  | .idle | .fault => 0
  | .deref _ => 1
  | .lookup _ => 2
  | .refRelease _ => 3
  | .refInc _ => 4
  | .refRead => 5
  | .refLock => 6
  | .free _ => 1
  | .wait _ => 2
  | .swapRelease _ => 3
  | .swapWrite _ _ => 4
  | .swapLock _ _ => 5
  | .getRelease _ _ => 6
  | .getRead _ => 7
  | .getLock _ => 8
  | .alloc _ => 9

/-- A process waits, or it comes nearer to its return. -/
theorem Pc.step_rank (s) : k.step s = (k, s) ∨ (k.step s).1.rank < k.rank := by
  cases k with
  | refLock | getLock | swapLock | wait =>
    unfold Pc.step
    dsimp only
    split_ifs
    all_goals simp [Pc.rank]
  | refInc tree | alloc tree | swapRelease tree => cases tree <;> exact .inr (by simp [Pc.step, Pc.rank])
  | idle | fault => exact .inl rfl
  | _ => exact .inr (by simp [Pc.step, Pc.rank])

/-- With the lock, or if nobody has it and nobody is counted in a tree to be flushed, a process does not wait. -/
theorem Pc.step_rank_lt (s) (hidle : k ≠ .idle) (hat : k.At s)
    (h : k.crit = true ∨ s.locked = false ∧ ∀ t, k = .wait t → s.refcnt t ≤ 0) : (k.step s).1.rank < k.rank := by
  cases k with
  | idle => exact absurd rfl hidle
  | fault => exact absurd hat id
  | refLock | getLock | swapLock =>
    have hlock := (h.resolve_left nofun).1
    simp [Pc.step, hlock, Pc.rank]
  | wait t =>
    have hcnt := (h.resolve_left nofun).2 t rfl
    simp [Pc.step, hcnt, Pc.rank]
  | refInc tree | alloc tree | swapRelease tree => cases tree <;> simp [Pc.step, Pc.rank]
  | _ => simp [Pc.step, Pc.rank]

/-- Unless all calls have returned, some process does not wait. -/
theorem Sound.progress (h : Sound s) (hbusy : ∃ i, s.point i ≠ .idle) :
    ∃ i, ((s.point i).step s.shared).1.rank < (s.point i).rank := by
  have hgo : ∀ i, s.point i ≠ .idle → ((s.point i).crit = true ∨ s.shared.locked = false ∧ ∀ t,
      s.point i = .wait t → s.shared.refcnt t ≤ 0) →
      ∃ i, ((s.point i).step s.shared).1.rank < (s.point i).rank :=
    fun i hi hcond => ⟨i, (s.point i).step_rank_lt s.shared hi (h.at_point i) hcond⟩
  cases hl : s.shared.locked with
  | true =>
    obtain ⟨i, hi⟩ := h.mutex.holder hl
    have hidle : s.point i ≠ .idle := by
      intro heq
      simp [heq, Pc.crit] at hi
    exact hgo i hidle (.inl hi)
  | false =>
    obtain ⟨i, hi⟩ := hbusy
    by_cases hwait : ∃ t, s.point i = .wait t ∧ 0 < s.shared.refcnt t
    · -- it waits for a reader, which has left the lock
      obtain ⟨t, _, hpos⟩ := hwait
      rw [h.count, Nat.cast_pos] at hpos
      obtain ⟨j, hj⟩ : ∃ j, (s.point j).refs t ≠ 0 := by
        by_contra hnone
        push Not at hnone
        exact absurd (shares_eq_zero.2 hnone) (ne_of_gt hpos)
      refine hgo j ?_ (.inr ⟨hl, ?_⟩)
      · intro heq
        exact hj (by simp [heq, Pc.refs])
      · intro u hu
        exact absurd (by simp [hu, Pc.refs]) hj
    · refine hgo i hi (.inr ⟨hl, fun t ht => ?_⟩)
      by_contra hpos
      exact hwait ⟨t, ht, by omega⟩

/-! ## Reclamation -/

/-- What the reloads do with the trees. -/
structure Reclaims (s : System ι Pc Shared) : Prop where
  /-- no tree is flushed twice, and only one that was shared and replaced -/
  once : ∀ t, s.shared.flushed t ≤ 1
  only : ∀ t, 0 < s.shared.flushed t → t ∈ s.shared.published ∧ s.shared.tree ≠ some t
  /-- a tree that was replaced is flushed, or a reload will do it -/
  replaced : ∀ t ∈ s.shared.published, s.shared.tree ≠ some t → s.shared.flushed t = 1 ∨ ∃ i, 0 < (s.point i).olds t
  /-- no tree is flushed while a reader has it -/
  held : ∀ i t, 0 < (s.point i).obtains t → s.shared.flushed t = 0
  no_fault : ∀ i, s.point i ≠ .fault
  last : s.shared.tree = s.shared.published.getLast?
  /-- when all calls have returned, the trees that were replaced are flushed, and the last one that
  was shared is the only one left -/
  done : (∀ i, s.point i = .idle) → (∀ t ∈ s.shared.published, s.shared.tree ≠ some t → s.shared.flushed t = 1) ∧
    ∀ t, t < s.shared.next ∧ s.shared.flushed t = 0 ↔ s.shared.tree = some t
  /-- a process waits, or comes nearer to its return; unless all calls have returned, some process does not wait -/
  nearer : ∀ i, (s.point i).step s.shared = (s.point i, s.shared) ∨
    ((s.point i).step s.shared).1.rank < (s.point i).rank
  progress : (∃ i, s.point i ≠ .idle) → ∃ i, ((s.point i).step s.shared).1.rank < (s.point i).rank

namespace Sound

variable {t : Nat}

theorem flushed_le (h : Sound s) (t : Nat) : s.shared.flushed t ≤ 1 := by
  have hlaw := h.places t
  simp only [Shared.places] at hlaw
  split_ifs at hlaw <;> omega

theorem replaced (h : Sound s) (ht : t ∈ s.shared.published) (htree : s.shared.tree ≠ some t) :
    s.shared.flushed t = 1 ∨ ∃ i, 0 < (s.point i).olds t := by
  have hlaw := h.places t
  rw [Shared.places, if_neg htree, if_pos (h.published t ht)] at hlaw
  by_cases hfl : s.shared.flushed t = 1
  · exact .inl hfl
  · have hne : shares (Pc.owns t) s.point ≠ 0 := by omega
    rw [Ne, shares_eq_zero] at hne
    push Not at hne
    obtain ⟨i, hi⟩ := hne
    refine .inr ⟨i, ?_⟩
    have hnew : ¬0 < (s.point i).news t := fun hn => h.new i t hn ht
    rw [Pc.owns] at hi
    omega

theorem rest (h : Sound s) (hidle : ∀ i, s.point i = .idle) (t : Nat) :
    t < s.shared.next ∧ s.shared.flushed t = 0 ↔ s.shared.tree = some t := by
  have hnone : shares (Pc.owns t) s.point = 0 := shares_eq_zero.2 fun i => by simp [hidle i, Pc.owns, Pc.news, Pc.olds]
  have hlaw := h.places t
  rw [hnone, Shared.places] at hlaw
  by_cases htree : s.shared.tree = some t
  · exact iff_of_true ⟨(h.shared_tree htree).1, (h.shared_tree htree).2.1⟩ htree
  · refine iff_of_false (fun hrest => ?_) htree
    rw [if_neg htree, if_pos hrest.1, hrest.2] at hlaw
    cases hlaw

theorem reclaims (h : Sound s) : Reclaims s where
  once := h.flushed_le
  only t ht := by
    refine ⟨h.flushed t ht, fun htree => ?_⟩
    have hzero := (h.shared_tree htree).2.1
    omega
  replaced _ := h.replaced
  held i t hi := (h.held t (hi.trans_le (le_shares (Pc.obtains t) s.point i))).2
  no_fault i hi := by
    have hat := h.at_point i
    rw [hi] at hat
    exact hat
  last := h.last
  done hidle := by
    refine ⟨fun t ht htree => (h.replaced ht htree).resolve_right ?_, h.rest hidle⟩
    rintro ⟨i, hi⟩
    simp [hidle i, Pc.olds] at hi
  nearer _ := Pc.step_rank _
  progress := h.progress

end Sound

variable [DecidableEq ι]

/-- So many steps of one process. -/
def goes (n : Nat) (i : Fin 2) : List (Act (Fin 2) Pc) := List.replicate n (.go i)

/-- A reload, then a reader, and a second reload while the reader has the first tree. -/
def aReload : List (Act (Fin 2) Pc) :=
  [[.call p0 (.alloc true)], goes 7 p0, [.call p1 .refLock], goes 4 p1, [.call p0 (.alloc true)],
    goes 8 p0, goes 2 p1, goes 2 p0].flatten

theorem aReload_fine : Act.Fine treeThreads reloadsApart aReload start := by decide +kernel

/-- As long as the reloads keep apart, each tree that is replaced is flushed once, when no reader has it. -/
theorem reload_reclaims {s : System ι Pc Shared} (h : Reach treeThreads reloadsApart start s) : Reclaims s :=
  (sound_of_reach h).reclaims

theorem reload_reclaims_two :
    Reach treeThreads reloadsApart start (System.play treeThreads aReload start) ∧
      Reclaims (System.play treeThreads aReload start) :=
  have hreach := Reach.start.play aReload aReload_fine
  ⟨hreach, reload_reclaims hreach⟩

/-- A first reload, and two that both read the first tree before they share their own. -/
def twoReloads : List (Act (Fin 2) Pc) :=
  [[.call p0 (.alloc true)], goes 7 p0, [.call p0 (.alloc true), .call p1 (.alloc true)], goes 4 p0,
    goes 4 p1, goes 5 p0, goes 5 p1].flatten

theorem twoReloads_fine : Act.Fine treeThreads Cond.none twoReloads start := by decide +kernel

/-- The first tree is flushed twice, and the second one never. -/
theorem reloads_flush_twice :
    ∃ s : System (Fin 2) Pc Shared, Reach treeThreads Cond.none start s ∧ (∀ i, s.point i = .idle) ∧
      s.shared.flushed 0 = 2 ∧ s.shared.flushed 1 = 0 ∧ s.shared.tree = some 2 ∧ s.shared.published = [0, 1, 2] := by
  refine ⟨_, Reach.start.play twoReloads twoReloads_fine, ?_⟩
  decide +kernel

/-- As long as the reloads keep apart, a tree's reference count is the number of readers counted in
it, and the lock keeps all but one process out. -/
theorem refcounts_exact {s : System ι Pc Shared} (h : Reach treeThreads reloadsApart start s) :
    (∀ t, s.shared.refcnt t = shares (Pc.refs t) s.point) ∧ ∀ i j, (s.point i).crit = true →
    (s.point j).crit = true → i = j :=
  ⟨(sound_of_reach h).count, (sound_of_reach h).mutex.excl⟩

theorem refcounts_exact_two :
    Act.Fine treeThreads reloadsApart aReload start ∧
      ∀ t, (System.play treeThreads aReload start).shared.refcnt t =
        shares (Pc.refs t) (System.play treeThreads aReload start).point :=
  ⟨aReload_fine, (refcounts_exact (Reach.start.play aReload aReload_fine)).1⟩

end SipRouter.PrefixRoute
