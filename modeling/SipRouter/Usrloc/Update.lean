import Mathlib.Data.List.TakeWhile
import SipRouter.Usrloc.Contact

/-!
# Contacts that are updated in place

`mem_update_ucontact` writes the new strings into the contact one after the other, and `q`
and the numbers at the end. It gives up at the first allocation that fails, with what is
written so far; and it leaves the contact at its place in the list, whatever its new `q`
is.
-/

namespace SipRouter.Usrloc

open List Option

/-! ## An update that fails -/

/-- For each string that is written: if its value stays the same, or `none` if the allocation for it fails. -/
def writes (alloc : Nat → Bool) (a : UArgs) (c : UContact) : List (Option Bool) :=
  [(setStr (alloc 0) c.aor a.aor).map (· == c.aor), (setStr (alloc 1) c.c a.c).map (· == c.c),
    (setStr (alloc 2) c.callid a.callid).map (· == c.callid),
    (setStr (alloc 3) c.userAgent a.ua).map (· == c.userAgent),
    (setOptStr (alloc 4) c.received a.recv).map (· == c.received),
    (setOptStr (alloc 5) c.inst a.inst).map (· == c.inst)]

theorem orFail_error {β : Type} {v : Option β} {c c' : UContact} {f : β → UContact}
    {g : UContact → Except UContact UContact}
    (h : (orFail v c f >>= g) = .error c') : (v = none ∧ c' = c) ∨ ∃ w, v = some w ∧ g (f w) = .error c' := by
  cases v with
  | none =>
    cases h
    exact .inl ⟨rfl, rfl⟩
  | some w => exact .inr ⟨w, rfl, h⟩

/-- A contact whose update fails keeps its `q`, and is as it was exactly if the strings written
before have not changed. -/
theorem memUpdateUcontact_error {alloc : Nat → Bool} {a : UArgs} {c c' : UContact}
    (h : memUpdateUcontact alloc a c = .error c') :
    c'.q = c.q ∧ (c' = c ↔ ∀ w ∈ (writes alloc a c).takeWhile isSome, w = some true) := by
  obtain ⟨aor, u, received, expires, q, callid, cseq, state, flags, userAgent, inst, serverId⟩ := c
  -- One string at a time: the update gives up here, or goes on with the string written.
  rcases orFail_error h with ⟨h0, rfl⟩ | ⟨v0, h0, h⟩
  · simp [writes, h0]
  rcases orFail_error h with ⟨h1, rfl⟩ | ⟨v1, h1, h⟩
  · simp [writes, h0, h1]
  rcases orFail_error h with ⟨h2, rfl⟩ | ⟨v2, h2, h⟩
  · simp [writes, h0, h1, h2]
  rcases orFail_error h with ⟨h3, rfl⟩ | ⟨v3, h3, h⟩
  · simp [writes, h0, h1, h2, h3]
  rcases orFail_error h with ⟨h4, rfl⟩ | ⟨v4, h4, h⟩
  · simp [writes, h0, h1, h2, h3, h4]
  rcases orFail_error h with ⟨h5, rfl⟩ | ⟨v5, h5, h⟩
  · simp [writes, h0, h1, h2, h3, h4, h5]
    tauto
  · cases h

/-- A contact with a `q`, for the examples. -/
def phone (q : Int) : UContact := ⟨[1], [2], none, 60, q, [], 1, .new, 0, [], none, 0⟩

/-- A new URI of two bytes for a contact, with an address of record and a `q`. -/
def longer (aor : Str) (q : Int) : UArgs := ⟨aor, [2, 3], 90, q, [], 2, 0, 0, 0, [], none, none, 0⟩

/-- An update that fails leaves the contact as it was exactly if the strings before the one without
memory have their new values already. -/
theorem failed_update_unchanged (alloc : Nat → Bool) (a : UArgs) (c : UContact)
    (h : (updateUcontact alloc a c).2 < 0) :
    (updateUcontact alloc a c).1 = c ↔ ∀ w ∈ (writes alloc a c).takeWhile isSome, w = some true := by
  unfold updateUcontact at h ⊢
  generalize hm : memUpdateUcontact alloc a c = m at h ⊢
  cases m with
  | error c' => exact (memUpdateUcontact_error hm).2
  | ok c' => exact absurd h (by simp)

theorem failed_update_unchanged_same : (updateUcontact (fun _ => false) (longer [1] 0) (phone 0)).1 = phone 0 ↔
    ∀ w ∈ (writes (fun _ => false) (longer [1] 0) (phone 0)).takeWhile isSome, w = some true :=
  failed_update_unchanged _ _ _ (by decide)

/-- The address of record is replaced before the allocation for the URI fails. -/
theorem failed_update_writes_aor : (updateUcontact (fun _ => false) (longer [7] 0) (phone 0)).2 = -1 ∧
    (updateUcontact (fun _ => false) (longer [7] 0) (phone 0)).1 = { phone 0 with aor := [7] } := by decide

/-! ## The order of the contacts -/

/-- What happens to the contacts of a record: `insert_ucontact`, `update_ucontact` and
`delete_ucontact` at a place, and the timer, which removes a contact. -/
inductive ContactOp where
  | insert (a : UArgs)
  | update (i : Nat) (a : UArgs) (alloc : Nat → Bool)
  | delete (i : Nat)
  | expire (i : Nat)

/-- The contacts afterwards, with `desc_time_order` off. -/
def ContactOp.step (l : List UContact) : ContactOp → List UContact
  | .insert a => memInsertUcontact false a l
  | .update i a alloc => l.modify i fun c => (updateUcontact alloc a c).1
  | .delete i => deleteUcontact i l
  | .expire i => l.eraseIdx i

/-- The order that `mem_insert_ucontact` makes: no contact is behind one with a lower `q`. -/
def Ordered (l : List UContact) : Prop := (l.map UContact.q).Pairwise (· ≥ ·)

/-- An update that succeeds brings a `q` that fits between those of the neighbours. -/
def ContactOp.InPlace (l : List UContact) : ContactOp → Prop
  | .update i a alloc => ∀ c, l[i]? = some c → (updateUcontact alloc a c).2 = 0 →
      (∀ p, l[i - 1]? = some p → 0 < i → a.q ≤ p.q) ∧ ∀ n, l[i + 1]? = some n → n.q ≤ a.q
  | _ => True

/-- Every update of a run fits at its place. -/
def InPlaceRun : List UContact → List ContactOp → Prop
  | _, [] => True
  | l, op :: ops => op.InPlace l ∧ InPlaceRun (op.step l) ops

section

variable {l : List UContact} (h : Ordered l)

include h

theorem Ordered.insert (a) : Ordered (memInsertUcontact false a l) := by
  rw [Ordered, ← takeWhile_append_dropWhile (p := fun p => decide (a.q ≤ p.q)) (l := l), map_append,
    pairwise_append] at h
  obtain ⟨htake, hdrop, hcross⟩ := h
  have hle : ∀ y ∈ (l.dropWhile fun p => a.q ≤ p.q).map UContact.q, a.q ≥ y := by
    have hhead := head?_dropWhile_not (fun p : UContact => decide (a.q ≤ p.q)) l
    cases hd : l.dropWhile fun p => a.q ≤ p.q with
    | nil => simp
    | cons c d =>
      rw [hd] at hhead hdrop
      have hc : c.q < a.q := by simpa using hhead
      intro y hy
      rw [map_cons, mem_cons] at hy
      rcases hy with rfl | hy
      · exact Int.le_of_lt hc
      · exact Int.le_trans ((pairwise_cons.1 hdrop).1 y hy) (Int.le_of_lt hc)
  rw [Ordered, memInsertUcontact, if_neg (by decide), map_append, map_cons, pairwise_append, pairwise_cons]
  refine ⟨htake, ⟨hle, hdrop⟩, fun x hx y hy => ?_⟩
  rcases mem_cons.1 hy with rfl | hy
  · obtain ⟨p, hp, rfl⟩ := mem_map.1 hx
    have hle := mem_takeWhile_imp hp
    exact of_decide_eq_true hle
  · exact hcross x hx y hy

/-- A `q` is replaced by one that fits between its neighbours. -/
theorem Ordered.set {i q} (hprev : ∀ p, l[i - 1]? = some p → 0 < i → q ≤ p.q)
    (hnext : ∀ n, l[i + 1]? = some n → n.q ≤ q) :
    ((l.map UContact.q).set i q).Pairwise (· ≥ ·) := by
  rw [Ordered, ← isChain_iff_pairwise, isChain_iff_getElem] at h
  rw [← isChain_iff_pairwise, isChain_iff_getElem]
  intro k hk
  rw [length_set] at hk
  have hold := h k hk
  rw [length_map] at hk
  rw [getElem_set, getElem_set]
  by_cases hi : i = k
  · subst hi
    simpa using hnext l[i + 1] (getElem?_eq_getElem hk)
  · rw [if_neg hi]
    by_cases hs : i = k + 1
    · subst hs
      simpa using hprev l[k] (getElem?_eq_getElem (by omega)) (by omega)
    · rwa [if_neg hs]

end

/-- An update that fails does not come to `q`. -/
theorem updateUcontact_q {alloc a c} :
    (updateUcontact alloc a c).1.q = if (updateUcontact alloc a c).2 = 0 then a.q else c.q := by
  unfold updateUcontact
  cases hm : memUpdateUcontact alloc a c with
  | error c' => exact (memUpdateUcontact_error hm).1
  | ok c' =>
    obtain ⟨-, -, -, hq, -⟩ := memUpdateUcontact_ok hm
    have hst : (stUpdateUcontact c').q = c'.q := by
      unfold stUpdateUcontact
      split <;> rfl
    exact hst.trans hq

theorem map_set_q {l : List UContact} {i} {c c' : UContact} (hc : l[i]? = some c) (hq : c'.q = c.q) :
    (l.set i c').map UContact.q = l.map UContact.q := by
  obtain ⟨hlt, rfl⟩ := List.getElem?_eq_some_iff.1 hc
  rw [map_set, hq, ← map_set, set_getElem_self]

theorem ContactOp.ordered_step {l} {op : ContactOp} (h : Ordered l) (hop : op.InPlace l) : Ordered (op.step l) := by
  have herase : ∀ i, Ordered (l.eraseIdx i) := fun i => h.sublist ((eraseIdx_sublist l i).map UContact.q)
  cases op with
  | insert a => exact h.insert a
  | update i a alloc =>
    cases hi : l[i]? with
    | none =>
      rw [ContactOp.step, modify_eq_self (by simpa using hi)]
      exact h
    | some c =>
      obtain ⟨hlt, rfl⟩ := List.getElem?_eq_some_iff.1 hi
      rw [ContactOp.step, Ordered, modify_eq_set_get _ hlt, map_set, updateUcontact_q, get_eq_getElem]
      split
      · next hok =>
        obtain ⟨hprev, hnext⟩ := hop _ hi hok
        exact h.set hprev hnext
      · rw [← map_set, map_set_q hi rfl]
        exact h
  | delete i =>
    rw [ContactOp.step, deleteUcontact]
    cases hi : l[i]? with
    | none => exact h
    | some c =>
      dsimp only
      cases hs : stDeleteUcontact c with
      | none => exact herase i
      | some c' =>
        have hq : c'.q = c.q := by
          unfold stDeleteUcontact at hs
          split at hs <;> cases hs <;> rfl
        rw [Ordered, map_set_q hi hq]
        exact h
  | expire i => exact herase i

/-- Two contacts are inserted, and the second gets another `q`. -/
def raise (q : Int) : List ContactOp :=
  [.insert (longer [1] 500), .insert (longer [2] 100), .update 1 (longer [2] q) fun _ => true]

/-- The contacts of a record whose updates fit at their places stay ordered by `q`. -/
theorem contacts_stay_ordered (ops : List ContactOp) {l : List UContact} (hl : Ordered l) (hops : InPlaceRun l ops) :
    Ordered (ops.foldl ContactOp.step l) := by
  induction ops generalizing l with
  | nil => exact hl
  | cons op ops ih =>
    obtain ⟨hop, hrest⟩ := hops
    exact ih (op.ordered_step hl hop) hrest

theorem contacts_stay_ordered_raised : Ordered ((raise 300).foldl ContactOp.step []) := by
  refine contacts_stay_ordered _ .nil ⟨trivial, trivial, fun c _ _ => ⟨fun p hp _ => ?_, fun n hn => ?_⟩, trivial⟩
  · cases hp
    decide
  · cases hn

/-- With the highest `q` it stays behind the first. -/
theorem update_breaks_order : ((raise 900).foldl ContactOp.step []).map UContact.q = [500, 900] := by decide

end SipRouter.Usrloc
