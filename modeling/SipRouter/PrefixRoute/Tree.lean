import Mathlib.Data.List.Induction
import SipRouter.Lib.Longest
import SipRouter.Msg.Lump

/-!
# The prefix tree of `prefix_route` (`modules/prefix_route/tree.c`)

A prefix is a string of digits that leads from the root to an item of the tree, and the
item has the number of a route if the prefix was added. Other characters are skipped, in
prefixes and in users. `tree_item_get` goes down along the digits of a user. It takes the
route of an item when it looks at the digit behind it, so it never takes that of the item
at which the digits end: the longest prefix wins among those that are shorter than the
digits of the user (`treeItemGet_longest`).
-/

namespace SipRouter.PrefixRoute

open Lib List Option Function

/-- `struct tree_item`, or a null pointer to it; `digits` are the child items. -/
inductive TreeItem where
  | null
  | item (route : Int) (digits : Fin 10 → TreeItem)

variable {item : TreeItem} {p : List UInt8} {q : List (Fin 10)}

/-- `tree_item_alloc`, with memory. -/
def treeItemAlloc : TreeItem := .item 0 fun _ => .null

theorem digit_lt {c : UInt8} (h : 48 ≤ c.toNat ∧ c.toNat ≤ 57) : c.toNat - 48 < 10 := by omega

/-- `isdigit`, and the digit. -/
def digit? (c : UInt8) : Option (Fin 10) :=
  if h : 48 ≤ c.toNat ∧ c.toNat ≤ 57 then some ⟨c.toNat - 48, digit_lt h⟩ else none

/-- The loop of `tree_item_add` over a prefix, from an item on. -/
def addFrom (routeIx : Int) : List UInt8 → TreeItem → TreeItem
  | _, .null => .null
  | [], .item _ digits => .item routeIx digits
  | c :: p, .item route digits =>
    match digit? c with
    | none => addFrom routeIx p (.item route digits)
    | some d =>
      let child := match digits d with
        | .null => treeItemAlloc
        | child => child
      .item route (update digits d (addFrom routeIx p child))

/-- `tree_item_add`: the return code and the tree. -/
def treeItemAdd (root : TreeItem) (pfx : List UInt8) (routeIx : Int) : Int × TreeItem :=
  match root with
  | .null => (-1, .null)
  | root => if routeIx ≤ 0 then (-1, root) else (0, addFrom routeIx pfx root)

/-- The loop of `tree_item_get`. -/
def getFrom : List UInt8 → TreeItem → Int → Int
  | [], _, route => route
  | c :: p, item, route =>
    match digit? c with
    | none => getFrom p item route
    | some d =>
      match item with
      | .null => route
      | .item itemRoute digits =>
        -- update route with best match so far
        let route := if itemRoute > 0 then itemRoute else route
        match digits d with
        | .null => route
        | child => getFrom p child route

/-- `tree_item_get`. -/
def treeItemGet (root : TreeItem) (user : List UInt8) : Int :=
  match root with
  | .null => -1
  | root => if user.length = 0 then -1 else getFrom user root 0

/-! ## What is added -/

/-- The digits of a string. -/
def digitsOf (s : List UInt8) : List (Fin 10) := s.filterMap digit?

theorem digitsOf_none {c s} (h : digit? c = none) : digitsOf (c :: s) = digitsOf s := filterMap_cons_none h

theorem digitsOf_some {c s d} (h : digit? c = some d) : digitsOf (c :: s) = d :: digitsOf s :=
  filterMap_cons_some h

/-- A call of `tree_item_add`. -/
structure Add where
  pfx : List UInt8
  routeIx : Int

/-- The tree after some calls. -/
def build (adds : List Add) : TreeItem :=
  adds.foldl (fun root add => (treeItemAdd root add.pfx add.routeIx).2) treeItemAlloc

/-- The route that the last addition of some digits gave; an addition with an invalid route number is none. -/
def added (adds : List Add) (digits : List (Fin 10)) : Option Int :=
  (adds.reverse.find? fun add => 0 < add.routeIx ∧ digitsOf add.pfx = digits).map Add.routeIx

/-- The route at an item below another, if it has a valid one. -/
def routeAt : List (Fin 10) → TreeItem → Option Int
  | _, .null => none
  | [], .item route _ => if 0 < route then some route else none
  | d :: q, .item _ digits => routeAt q (digits d)

theorem routeAt_alloc : routeAt q treeItemAlloc = none := by
  cases q with
  | nil => rfl
  | cons d q => cases q <;> rfl

theorem routeAt_child {q} :
    routeAt q (match item with | .null => treeItemAlloc | child => child) = routeAt q item := by
  cases item with
  | null =>
    rw [routeAt_alloc]
    cases q <;> rfl
  | item => rfl

theorem child_ne_null : (match item with | .null => treeItemAlloc | child => child) ≠ .null := by
  cases item <;> exact nofun

theorem addFrom_ne_null {routeIx p item} (h : item ≠ .null) : addFrom routeIx p item ≠ .null := by
  induction p generalizing item with
  | nil =>
    cases item with
    | null => exact h
    | item route digits => exact nofun
  | cons c p ih =>
    cases item with
    | null => exact absurd rfl h
    | item route digits =>
      unfold addFrom
      split
      · exact ih nofun
      · exact nofun

/-- Adding a prefix sets the route at its digits, and no other. -/
theorem routeAt_addFrom {routeIx} (hpos : 0 < routeIx) {item} (h : item ≠ .null) (q) :
    routeAt q (addFrom routeIx p item) = if digitsOf p = q then some routeIx else routeAt q item := by
  induction p generalizing item q with
  | nil =>
    cases item with
    | null => exact absurd rfl h
    | item route digits => cases q <;> simp [addFrom, routeAt, digitsOf, hpos]
  | cons c p ih =>
    cases item with
    | null => exact absurd rfl h
    | item route digits =>
      unfold addFrom
      cases hc : digit? c with
      | none =>
        rw [digitsOf_none hc]
        exact ih h q
      | some d =>
        rw [digitsOf_some hc]
        cases q with
        | nil => simp [routeAt]
        | cons e q =>
          by_cases he : e = d
          · subst he
            simp only [routeAt, update_self]
            rw [ih (child_ne_null) q, routeAt_child]
            simp
          · have hne : d ≠ e := .symm he
            simp [routeAt, update_of_ne he, hne]

theorem build_snoc {adds add} : build (adds ++ [add]) = (treeItemAdd (build adds) add.pfx add.routeIx).2 := by
  rw [build, foldl_append]
  rfl

theorem build_ne_null (adds) : build adds ≠ .null := by
  induction adds using List.reverseRecOn with
  | nil => exact nofun
  | append_singleton adds add ih =>
    rw [build_snoc]
    cases hb : build adds with
    | null => exact absurd hb ih
    | item route digits =>
      unfold treeItemAdd
      simp only
      split
      · exact nofun
      · exact addFrom_ne_null nofun

/-- The tree holds what was added. -/
theorem routeAt_build (adds q) : routeAt q (build adds) = added adds q := by
  induction adds using List.reverseRecOn with
  | nil => exact routeAt_alloc
  | append_singleton adds add ih =>
    have hne := build_ne_null adds
    rw [build_snoc, added, reverse_append, reverse_singleton, singleton_append, find?_cons]
    have htree : (treeItemAdd (build adds) add.pfx add.routeIx).2
        = if add.routeIx ≤ 0 then build adds else addFrom add.routeIx add.pfx (build adds) := by
      cases hb : build adds with
      | null => exact absurd hb hne
      | item route digits =>
        unfold treeItemAdd
        simp only
        split <;> rfl
    rw [htree]
    by_cases hpos : 0 < add.routeIx
    · rw [if_neg (by omega), routeAt_addFrom hpos hne, ih]
      by_cases hq : digitsOf add.pfx = q <;> simp [hq, hpos, added]
    · rw [if_pos (by omega), ih]
      simp [hpos, added]

/-! ## What is found -/

theorem routeAt_null : routeAt q .null = none := by
  cases q <;> rfl

/-- The loop takes the longest of the prefixes that are shorter than the digits. -/
theorem getFrom_longest (item) (route : Int) :
    ∃ r, Longest (fun q => routeAt q item) (StartsShort (digitsOf p)) r ∧
      getFrom p item route = (r.map Prod.snd).getD route := by
  induction p generalizing item route with
  | nil =>
    refine ⟨none, fun q hq => ?_, rfl⟩
    exact absurd (prefix_nil.1 hq.1) hq.2
  | cons c p ih =>
    unfold getFrom
    cases hc : digit? c with
    | none =>
      rw [digitsOf_none hc]
      exact ih item route
    | some d =>
      rw [digitsOf_some hc]
      cases item with
      | null => exact ⟨none, fun q _ => routeAt_null, rfl⟩
      | item itemRoute digits =>
        -- below the digit first, then the item itself
        have hchild : ∃ r, Longest (fun q => routeAt q (digits d)) (StartsShort (digitsOf p)) r ∧
            (match digits d with
              | .null => if itemRoute > 0 then itemRoute else route
              | child => getFrom p child (if itemRoute > 0 then itemRoute else route))
              = (r.map Prod.snd).getD (if itemRoute > 0 then itemRoute else route) := by
          cases hd : digits d with
          | null => exact ⟨none, fun q _ => routeAt_null, rfl⟩
          | item route' digits' => exact ih _ _
        obtain ⟨r, hr, hget⟩ := hchild
        refine ⟨_, (hr.cons d).congr fun q => startsShort_cons d (digitsOf p) q, ?_⟩
        simp only
        rw [hget]
        cases r with
        | some x => rfl
        | none =>
          unfold routeAt
          by_cases hpos : 0 < itemRoute <;> simp [hpos]

theorem treeItemGet_longest {adds user} (huser : user ≠ []) :
    ∃ r, Longest (added adds) (StartsShort (digitsOf user)) r ∧
      treeItemGet (build adds) user = (r.map Prod.snd).getD 0 := by
  obtain ⟨r, hr, hget⟩ := getFrom_longest (build adds) 0
  have hreg := funext (routeAt_build adds)
  rw [hreg] at hr
  refine ⟨r, hr, ?_⟩
  rw [← hget]
  have hlen : user.length ≠ 0 := fun h => huser (length_eq_zero_iff.1 h)
  unfold treeItemGet
  cases hb : build adds with
  | null => exact absurd hb (build_ne_null adds)
  | item route digits => simp [hlen]

/-- The answer of `tree_item_get` is the route of the longest added prefix of the digits of the user, or 0. -/
def FindsLongest (adds : List Add) (user : List UInt8) : Prop :=
  ∃ r, Longest (added adds) (Starts (digitsOf user)) r ∧ treeItemGet (build adds) user = (r.map Prod.snd).getD 0

/-- The digits of the user are not an added prefix themselves, or the longest one that is shorter
has the same route. -/
def ShorterAgrees (adds : List Add) (user : List UInt8) : Prop :=
  ∀ route, added adds (digitsOf user) = some route →
    ∃ p, Longest (added adds) (StartsShort (digitsOf user)) (some (p, route))

theorem added_pos {adds q route} (h : added adds q = some route) : 0 < route := by
  unfold added at h
  rw [map_eq_some_iff] at h
  obtain ⟨add, hfind, rfl⟩ := h
  have := find?_some hfind
  simp only [decide_eq_true_eq] at this
  exact this.1

/-- For every sequence of additions and every user: the longest prefix wins if and only if it is not
the digits of the user as a whole, or makes no difference there. -/
theorem findsLongest_iff (adds : List Add) (user : List UInt8) (huser : user ≠ []) :
    FindsLongest adds user ↔ ShorterAgrees adds user := by
  obtain ⟨r, hr, hget⟩ := treeItemGet_longest huser
  have hwhole := (hr.snoc (p := digitsOf user) fun q hq => hq.length_lt).congr fun q => starts_iff (digitsOf user) q
  unfold FindsLongest ShorterAgrees
  rw [hget]
  cases hd : added adds (digitsOf user) with
  | none =>
    rw [hd] at hwhole
    exact ⟨fun _ => nofun, fun _ => ⟨r, hwhole, rfl⟩⟩
  | some route =>
    rw [hd] at hwhole
    have hpos := added_pos hd
    constructor
    · rintro ⟨r', hr', heq⟩ _ ⟨⟩
      have hr'' := hr'.unique (fun _ _ hp hq => Starts.unique hp hq) hwhole
      subst hr''
      -- the shorter ones give the route of the whole
      cases r with
      | none => simp at heq; omega
      | some x =>
        obtain ⟨p, v⟩ := x
        simp only [map_some, or_some, getD_some] at heq
        exact ⟨p, heq ▸ hr⟩
    · intro h
      obtain ⟨p, hp⟩ := h route rfl
      refine ⟨_, hwhole, ?_⟩
      have heq := hr.unique (fun _ _ hp hq => Starts.unique hp.1 hq.1) hp
      rw [heq]
      rfl

theorem findsLongest_shorter :
    Msg.bytes "123" ≠ [] ∧ (FindsLongest [⟨Msg.bytes "12", 5⟩] (Msg.bytes "123") ↔
      ShorterAgrees [⟨Msg.bytes "12", 5⟩] (Msg.bytes "123")) :=
  ⟨by decide, findsLongest_iff [⟨Msg.bytes "12", 5⟩] (Msg.bytes "123") (by decide)⟩

/-- With the prefix `123` alone, the user `123` gets no route. -/
theorem whole_missed :
    Msg.bytes "123" ≠ [] ∧ added [⟨Msg.bytes "123", 5⟩] (digitsOf (Msg.bytes "123")) = some 5 ∧
      treeItemGet (build [⟨Msg.bytes "123", 5⟩]) (Msg.bytes "123") = 0 ∧
        ¬FindsLongest [⟨Msg.bytes "123", 5⟩] (Msg.bytes "123") := by
  have hadded : added [⟨Msg.bytes "123", 5⟩] (digitsOf (Msg.bytes "123")) = some 5 := by decide
  have hget : treeItemGet (build [⟨Msg.bytes "123", 5⟩]) (Msg.bytes "123") = 0 := by decide
  refine ⟨by decide, hadded, hget, ?_⟩
  rintro ⟨r, hr, hr'⟩
  cases r with
  | none => exact absurd (hr _ (prefix_refl _)) (by rw [hadded]; exact nofun)
  | some x =>
    have hpos := added_pos hr.2.1
    rw [hget] at hr'
    simp only [map_some, getD_some] at hr'
    omega

end SipRouter.PrefixRoute
