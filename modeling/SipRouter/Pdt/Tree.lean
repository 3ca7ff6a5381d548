import SipRouter.Lib.Longest
import SipRouter.Msg.Lump
import Mathlib

/-!
# The prefix-domain tree of `pdt` (`modules/pdt/pdtree.c`)

A node of the tree is an array with an entry for each digit, and a prefix is registered in
the entry of its last digit. The entry of a character is computed modulo the size of a
node. Of a new prefix all characters but the last are checked to be digits; the last one
is not, nor is any character of a prefix to remove or of a user. So `a` is found in the
entry of `9`, and a character below `0` has an index before the array.

A function has no result here (`none`) if it reads or writes outside of its string or of
the array of a node.
-/

namespace SipRouter.Pdt

open Function Lib List Option

/-- Domains. -/
abbrev Domain := List UInt8

/-- `pdt_node_t[PDT_NODE_SIZE]`, or a null pointer to it. -/
inductive Node where
  | null
  | node (domain : Fin 10 → Option Domain) (child : Fin 10 → Node)

/-- A node that was allocated and cleared. -/
def emptyNode : Node := .node (fun _ => none) fun _ => .null

/-- The node, allocated if there is none yet. -/
def orNew : Node → Node
  | .null => emptyNode
  | itn => itn

/-- `PDT_MAX_DEPTH`. -/
def maxDepth : Nat := 32

/-- The value of a `char`. -/
def charValue (c : UInt8) : Int := if c.toNat < 128 then c.toNat else c.toNat - 256

/-- `(c - '0') % PDT_NODE_SIZE`, if it is in the array. -/
def index (c : UInt8) : Option (Fin 10) :=
  if h : 0 ≤ (charValue c - 48).tmod 10 then
    some ⟨((charValue c - 48).tmod 10).toNat,
      by have := Int.tmod_lt_of_pos (charValue c - 48) (b := 10) (by decide); omega⟩
  else none

/-- The digit of a character that is neither below `0` nor above `9`. -/
def digit? (c : UInt8) : Option (Fin 10) :=
  if h : 48 ≤ c.toNat ∧ c.toNat ≤ 57 then some ⟨c.toNat - 48, by omega⟩ else none

/-- `pdt_add_to_tree` from a node on: the return code and the node. -/
def addFrom (sd : Domain) : List UInt8 → Node → Option (Int × Node)
  | _, .null => none
  | [], _ => none
  | [c], .node domain child =>
    match index c with
    | none => none
    | some i =>
      if (domain i).isSome then some (-1, .node domain child)
      else some (0, .node (update domain i (some sd)) child)
  | c :: c' :: sp, .node domain child =>
    match index c with
    | none => none
    | some _ =>
      match digit? c with
      | none => some (-1, .node domain child)
      | some d =>
        (addFrom sd (c' :: sp) (orNew (child d))).map fun r => (r.1, .node domain (update child d r.2))

/-- `pdt_add_to_tree`. -/
def pdtAddToTree (head : Node) (sp : List UInt8) (sd : Domain) : Option (Int × Node) :=
  if sp.length ≥ maxDepth then some (-1, head) else addFrom sd sp head

/-- `pdt_remove_from_tree` from a node on, `l` characters deep. -/
def removeFrom : List UInt8 → Node → Nat → Option Node
  | _, .null, _ => some .null
  | [], itn, _ => some itn
  | [c], .node domain child, _ => (index c).map fun i => .node (update domain i none) child
  | c :: c' :: sp, .node domain child, l =>
    if l < maxDepth then
      match index c with
      | none => none
      | some i => (removeFrom (c' :: sp) (child i) (l + 1)).map fun itn => .node domain (update child i itn)
    else some (.node domain child)

/-- `pdt_remove_from_tree`. -/
def pdtRemoveFromTree (head : Node) (sp : List UInt8) : Option Node := removeFrom sp head 1

/-- The loop of `pdt_get_domain`: the domain and the length of its prefix. -/
def getFrom : List UInt8 → Node → Nat → Option Domain × Nat → Option (Option Domain × Nat)
  | [], _, _, best => some best
  | _ :: _, .null, _, best => some best
  | c :: sp, .node domain child, l, best =>
    if l < maxDepth then
      match index c with
      | none => none
      | some i =>
        let best := match domain i with
          | some d => (some d, l + 1)
          | none => best
        getFrom sp (child i) (l + 1) best
    else some best

/-- `pdt_get_domain`. -/
def pdtGetDomain (head : Node) (sp : List UInt8) : Option (Option Domain × Nat) := getFrom sp head 0 (none, 0)

/-! ## What a tree holds -/

/-- The domain that is registered for a string of digits. -/
def domainAt : List UInt8 → Node → Option Domain
  | _, .null => none
  | [], _ => none
  | [c], .node domain _ => (digit? c).bind domain
  | c :: c' :: sp, .node _ child => (digit? c).bind fun d => domainAt (c' :: sp) (child d)

/-- No way down is longer than `n`. -/
def Depth : Nat → Node → Prop
  | _, .null => True
  | 0, .node _ _ => False
  | n + 1, .node _ child => ∀ d, Depth n (child d)

/-- The characters at which a walk down the tree looks are digits. -/
def Looks : List UInt8 → Node → Prop
  | _, .null => True
  | [], _ => True
  | c :: sp, .node _ child => ∃ d, digit? c = some d ∧ Looks sp (child d)

/-- The strings that are accepted. -/
def IsCode (sp : List UInt8) : Prop := sp ≠ [] ∧ (∀ c ∈ sp, (digit? c).isSome) ∧ sp.length < maxDepth

variable {c : UInt8} {d : Fin 10} {sp : List UInt8} {n l : Nat} {itn head : Node}

theorem index_of_digit (h : digit? c = some d) : index c = some d := by
  unfold digit? at h
  split at h
  · rename_i hc
    cases h
    unfold index charValue
    have hval : ((if c.toNat < 128 then (c.toNat : Int) else c.toNat - 256) - 48).tmod 10 =
        ((c.toNat - 48 : Nat) : Int) := by
      rw [if_pos (by omega), Int.tmod_eq_emod_of_nonneg (by omega)]
      omega
    simp only [hval]
    rw [dif_pos (by omega)]
    simp
  · cases h

theorem digit_inj {c'} (h : digit? c = some d) (h' : digit? c' = some d) : c = c' := by
  unfold digit? at h h'
  split at h <;> split at h'
  · have heq := h.trans h'.symm
    simp only [some.injEq, Fin.mk.injEq] at heq
    exact UInt8.toNat_inj.1 (by omega)
  · cases h'
  · cases h
  · cases h

theorem domainAt_null : domainAt sp .null = none := by
  rcases sp with _ | ⟨c, _ | ⟨c', sp⟩⟩ <;> rfl

theorem domainAt_nil : domainAt [] itn = none := by
  cases itn <;> rfl

theorem domainAt_empty (sp) : domainAt sp emptyNode = none := by
  rcases sp with _ | ⟨c, _ | ⟨c', sp⟩⟩
  · rfl
  all_goals simp [domainAt, emptyNode]

theorem domainAt_orNew (itn : Node) : domainAt sp (orNew itn) = domainAt sp itn := by
  cases itn with
  | null => rw [domainAt_null, orNew, domainAt_empty]
  | node => rfl

theorem orNew_ne_null (itn : Node) : (orNew itn) ≠ .null := by
  cases itn <;> exact nofun

/-- What is registered below the entry of a digit. -/
theorem domainAt_cons (h : digit? c = some d) (domain child)
    (hsp : sp ≠ []) : domainAt (c :: sp) (.node domain child) = domainAt sp (child d) := by
  rcases sp with _ | ⟨c', sp⟩
  · exact absurd rfl hsp
  · simp [domainAt, h]

section

variable {q : List UInt8}

variable (hd : digit? c = some d) (domain : Fin 10 → Option Domain) (child : Fin 10 → Node)

include hd domain child

/-- A domain is written into the entry of a digit. -/
theorem domainAt_setDomain (x) :
    domainAt q (.node (update domain d x) child) = if q = [c] then x else domainAt q (.node domain child) := by
  rcases q with _ | ⟨e, _ | ⟨e', q⟩⟩
  · simp [domainAt]
  · by_cases he : e = c
    · subst he
      simp [domainAt, hd]
    · simp only [List.cons.injEq, he, false_and, if_false, domainAt]
      cases hde : digit? e with
      | none => rfl
      | some d' =>
        have hne' : d' ≠ d := fun heq => he (digit_inj (heq ▸ hde) hd)
        simp [update_of_ne hne']
  · simp [domainAt]

/-- The node below the entry of a digit is replaced by one that differs at one code. -/
theorem domainAt_setChild (hsp : sp ≠ []) (hkeeps : ∀ q, q ≠ sp → domainAt q itn = domainAt q (child d)) :
    domainAt q (.node domain (update child d itn)) = if q = c :: sp then domainAt sp itn
      else domainAt q (.node domain child) := by
  rcases q with _ | ⟨e, _ | ⟨e', q⟩⟩
  · simp [domainAt]
  · simp [domainAt, hsp.symm]
  · cases hde : digit? e with
    | none =>
      have hne' : e ≠ c := fun heq => by rw [heq, hd] at hde; cases hde
      simp [domainAt, hde, hne']
    | some d' =>
      rw [domainAt_cons hde _ _ (by simp), domainAt_cons hde _ _ (by simp)]
      by_cases hdd : d' = d
      · subst hdd
        rw [update_self, digit_inj hde hd]
        by_cases hq : e' :: q = sp
        · rw [hq, if_pos rfl]
        · rw [if_neg (by simp [hq]), hkeeps _ hq]
      · have hne' : e ≠ c := fun heq => by rw [heq, hd] at hde; cases hde; exact hdd rfl
        rw [update_of_ne hdd]
        simp [hne']

end

theorem depth_setChild {domain child} (hn : Depth (n + 1) (.node domain child))
    (h : Depth n itn) : Depth (n + 1) (.node domain (update child d itn)) := by
  intro e
  by_cases hed : e = d
  · subst hed
    rw [update_self]
    exact h
  · rw [update_of_ne hed]
    exact hn e

/-! ## Adding -/

/-- The last character is a digit, unless one before it is not; the first that is not has an entry all the same. -/
def LastOk : List UInt8 → Prop
  | [] => False
  | [c] => (digit? c).isSome
  | c :: c' :: sp => (index c).isSome ∧ ((digit? c).isSome → LastOk (c' :: sp))

theorem depth_empty (n : Nat) : Depth (n + 1) emptyNode := fun _ => by cases n <;> trivial

theorem depth_orNew (hn : 0 < n) (h : Depth n itn) : Depth n (orNew itn) := by
  cases itn with
  | null =>
    cases n with
    | zero => exact absurd hn (Nat.lt_irrefl 0)
    | succ n => exact depth_empty n
  | node => exact h

/-- What `pdt_add_to_tree` does below a node. -/
structure Added (sd : Domain) (sp : List UInt8) (itn itn' : Node) (ret : Int) : Prop where
  zero_or : ret = 0 ∨ ret = -1
  accepts : ret = 0 ↔ (∀ c ∈ sp, (digit? c).isSome) ∧ domainAt sp itn = none
  keeps : ∀ q, domainAt q itn' = if ret = 0 ∧ q = sp then some sd else domainAt q itn
  ne_null : itn' ≠ .null
  depth : ∀ n, sp.length ≤ n → Depth n itn → Depth n itn'

theorem addFrom_spec (sd) (hne : itn ≠ .null) (hok : LastOk sp) :
    ∃ ret itn', addFrom sd sp itn = some (ret, itn') ∧ Added sd sp itn itn' ret := by
  induction sp generalizing itn with
  | nil => exact absurd hok id
  | cons c sp ih =>
    cases itn with
    | null => exact absurd rfl hne
    | node domain child =>
      cases sp with
      | nil =>
        obtain ⟨d, hd⟩ := isSome_iff_exists.1 hok
        have hi := index_of_digit hd
        have hat : domainAt [c] (.node domain child) = domain d := by simp [domainAt, hd]
        cases hdom : domain d with
        | some v =>
          refine ⟨-1, .node domain child,
            by simp [addFrom, hi, hdom], .inr rfl, ?_, fun q => ?_, nofun, fun n _ h => h⟩
          · simp [hat, hdom]
          · simp
        | none =>
          refine ⟨0, .node (update domain d (some sd)) child,
            by simp [addFrom, hi, hdom], .inl rfl, ?_, fun q => ?_, nofun, fun n hn h => ?_⟩
          · simp [hat, hdom, hd]
          · rw [domainAt_setDomain hd]
            simp
          · cases n with
            | zero => exact absurd hn (Nat.not_succ_le_zero _)
            | succ n => exact h
      | cons c' sp =>
        obtain ⟨i, hi⟩ := isSome_iff_exists.1 hok.1
        cases hd : digit? c with
        | none =>
          refine ⟨-1, .node domain child, by simp [addFrom, hi, hd], .inr rfl, ?_, fun q => ?_, nofun, fun n _ h => h⟩
          · simp [hd]
          · simp
        | some d =>
          obtain ⟨ret, itn', heq, hadd⟩ := ih (orNew_ne_null (child d)) (hok.2 (by simp [hd]))
          refine ⟨ret, .node domain (update child d itn'),
            by simp [addFrom, hi, hd, heq], hadd.zero_or, ?_, fun q => ?_, nofun, fun n hn h => ?_⟩
          · rw [hadd.accepts, domainAt_orNew, domainAt_cons hd domain child (by simp)]
            simp [hd]
          · rw [domainAt_setChild hd domain child (show c' :: sp ≠ [] by simp) fun q hq => by
              rw [hadd.keeps, if_neg (fun h => hq h.2), domainAt_orNew]]
            by_cases hq : q = c :: c' :: sp
            · rw [hq, hadd.keeps, domainAt_orNew, domainAt_cons hd domain child (by simp)]
              simp
            · rw [if_neg hq, if_neg (fun h => hq h.2)]
          · cases n with
            | zero => exact absurd hn (Nat.not_succ_le_zero _)
            | succ n =>
              refine depth_setChild h (hadd.depth n (Nat.le_of_succ_le_succ hn) ?_)
              exact depth_orNew (by simp only [length_cons] at hn; omega) (h d)

/-! ## Removing -/

/-- What `pdt_remove_from_tree` does below a node. -/
structure Removed (sp : List UInt8) (itn itn' : Node) : Prop where
  keeps : ∀ q, domainAt q itn' = if q = sp then none else domainAt q itn
  ne_null : itn ≠ .null → itn' ≠ .null
  depth : ∀ n, Depth n itn → Depth n itn'

theorem removeFrom_spec (hl : l + n ≤ maxDepth) (hn : Depth n itn) (h : Looks sp itn) :
    ∃ itn', removeFrom sp itn l = some itn' ∧ Removed sp itn itn' := by
  induction sp generalizing itn n l with
  | nil =>
    refine ⟨itn, by cases itn <;> rfl, fun q => ?_, id, fun _ h => h⟩
    by_cases hq : q = []
    · rw [if_pos hq, hq, domainAt_nil]
    · rw [if_neg hq]
  | cons c sp ih =>
    cases itn with
    | null => exact ⟨.null, by cases sp <;> rfl, fun q => by simp [domainAt_null], id, fun _ h => h⟩
    | node domain child =>
      obtain ⟨d, hd, hlook⟩ := h
      have hi := index_of_digit hd
      cases sp with
      | nil =>
        refine ⟨.node (update domain d none) child,
          by simp [removeFrom, hi], fun q => ?_, fun _ => nofun, fun n h => ?_⟩
        · exact domainAt_setDomain hd domain child none
        · cases n <;> exact h
      | cons c' sp =>
        cases n with
        | zero => exact absurd hn id
        | succ n =>
          have hlt : l < maxDepth := by omega
          obtain ⟨itn', heq, hrem⟩ := ih (l := l + 1) (n := n) (by omega) (hn d) hlook
          refine ⟨.node domain (update child d itn'),
            by simp [removeFrom, hlt, hi, heq], fun q => ?_, fun _ => nofun, fun m hm => ?_⟩
          · rw [domainAt_setChild hd domain child (show c' :: sp ≠ [] by simp) fun q hq =>
              by rw [hrem.keeps, if_neg hq], hrem.keeps, if_pos rfl]
          · cases m with
            | zero => exact absurd hm id
            | succ m => exact depth_setChild hm (hrem.depth m (hm d))

/-! ## Looking up -/

/-- The result for a longest prefix, after `l` characters. -/
def found (l : Nat) (best : Option Domain × Nat) : Option (List UInt8 × Domain) → Option Domain × Nat
  | some (p, d) => (some d, l + p.length)
  | none => best

theorem getFrom_spec (hl : l + n ≤ maxDepth) (hn : Depth n itn) (h : Looks sp itn) (best) :
    ∃ r, Longest (fun q => domainAt q itn) (Starts sp) r ∧ getFrom sp itn l best = some (found l best r) := by
  induction sp generalizing itn n l best with
  | nil =>
    refine ⟨none, fun q hq => ?_, by cases itn <;> rfl⟩
    rw [prefix_nil.1 hq]
    exact domainAt_nil
  | cons c sp ih =>
    cases itn with
    | null => exact ⟨none, fun q _ => domainAt_null, rfl⟩
    | node domain child =>
      obtain ⟨d, hd, hlook⟩ := h
      have hi := index_of_digit hd
      cases n with
      | zero => exact absurd hn id
      | succ n =>
        have hlt : l < maxDepth := by omega
        let best' := match domain d with
          | some d => (some d, l + 1)
          | none => best
        obtain ⟨r, hr, heq⟩ := ih (l := l + 1) (n := n) (by omega) (hn d) hlook best'
        -- below the digit, the entry itself stands for the empty rest
        have hreg : ∀ q, q ≠ [] → domainAt (c :: q) (.node domain child) = domainAt q (child d) :=
          fun q hq => domainAt_cons hd domain child hq
        have hbelow := hr.nil hreg (domainAt_nil) nil_prefix
        have hone : domainAt [c] (.node domain child) = domain d := by simp [domainAt, hd]
        refine ⟨_, (Longest.cons c hbelow).congr (starts_cons c sp), ?_⟩
        have hstep : getFrom (c :: sp) (.node domain child) l best = getFrom sp (child d) (l + 1) best' := by
          simp only [getFrom, hlt, hi, if_true, best']
        rw [hstep, heq]
        cases r with
        | some x => simp [found, Nat.add_assoc, Nat.add_comm 1]
        | none =>
          simp only [hone, domainAt_nil]
          cases hdom : domain d <;> simp [found, best', hdom]

/-! ## Runs -/

/-- The prefixes that are registered. -/
abbrev Registry := List UInt8 → Option Domain

instance (sp : List UInt8) : Decidable (IsCode sp) := by unfold IsCode; infer_instance

/-- A code that is not registered yet is registered. -/
def Registry.add (reg : Registry) (sp : List UInt8) (sd : Domain) : Registry :=
  if IsCode sp ∧ reg sp = none then update reg sp (some sd) else reg

def Registry.remove (reg : Registry) (sp : List UInt8) : Registry := update reg sp none

/-- `pdt_add_to_tree` refuses the string for its length, or its last character is fine. -/
def AddOk (sp : List UInt8) : Prop := maxDepth ≤ sp.length ∨ LastOk sp

/-- The calls on one tree, with the prefixes that should be registered after them. A call is made
with a string that is fine for it. -/
inductive Run : Node → Registry → Prop
  | init : Run emptyNode fun _ => none
  | add {head head' : Node} {reg : Registry} {sp : List UInt8} {sd : Domain} {ret : Int} : Run head reg → AddOk sp →
      pdtAddToTree head sp sd = some (ret, head') → Run head' (reg.add sp sd)
  | remove {head head' : Node} {reg : Registry} {sp : List UInt8} : Run head reg → Looks sp head →
      pdtRemoveFromTree head sp = some head' → Run head' (reg.remove sp)

/-- The tree holds the registered prefixes. -/
structure Holds (head : Node) (reg : Registry) : Prop where
  ne_null : head ≠ .null
  depth : Depth 31 head
  domainAt : ∀ q, domainAt q head = reg q

theorem LastOk.ne_nil (h : LastOk sp) : sp ≠ [] := by
  rintro rfl
  exact h

variable {reg : Registry}

theorem Holds.add (h : Holds head reg) (hok : AddOk sp) (sd) :
    ∃ ret head', pdtAddToTree head sp sd = some (ret, head') ∧ (ret = 0 ∨ ret = -1) ∧
      (ret = 0 ↔ IsCode sp ∧ reg sp = none) ∧
      Holds head' (reg.add sp sd) := by
  by_cases hlen : maxDepth ≤ sp.length
  · have hcode : ¬IsCode sp := fun hc => Nat.not_le.2 hc.2.2 hlen
    refine ⟨-1, head, by simp [pdtAddToTree, hlen], .inr rfl, by simp [hcode], ?_⟩
    rwa [Registry.add, if_neg fun hc => hcode hc.1]
  · have hlast := hok.resolve_left hlen
    have hmax : maxDepth = 32 := rfl
    obtain ⟨ret, head', heq, hadd⟩ := addFrom_spec sd h.ne_null hlast
    have hcode : ret = 0 ↔ IsCode sp ∧ reg sp = none := by
      rw [hadd.accepts, h.domainAt]
      exact ⟨fun hc => ⟨⟨hlast.ne_nil, hc.1, Nat.lt_of_not_le hlen⟩, hc.2⟩, fun hc => ⟨hc.1.2.1, hc.2⟩⟩
    refine ⟨ret, head', by simp [pdtAddToTree, hlen, heq], hadd.zero_or, hcode, hadd.ne_null, ?_, fun q => ?_⟩
    · exact hadd.depth 31 (by omega) h.depth
    · rw [hadd.keeps, h.domainAt, Registry.add]
      by_cases hc : IsCode sp ∧ reg sp = none
      · simp [hcode.2 hc, hc, update_apply]
      · rw [if_neg hc, if_neg fun hq => hc (hcode.1 hq.1)]

theorem Holds.remove (h : Holds head reg) (hlook : Looks sp head) :
    ∃ head', pdtRemoveFromTree head sp = some head' ∧ Holds head' (reg.remove sp) := by
  obtain ⟨head', heq, hrem⟩ := removeFrom_spec (n := 31) (l := 1) (by decide) h.depth hlook
  refine ⟨head', heq, hrem.ne_null h.ne_null, hrem.depth 31 h.depth, fun q => ?_⟩
  rw [hrem.keeps, h.domainAt, Registry.remove, update_apply]

theorem Run.holds (h : Run head reg) : Holds head reg := by
  induction h with
  | init => exact ⟨nofun, depth_empty 30, domainAt_empty⟩
  | add _ hok heq ih =>
    obtain ⟨_, _, heq', _, _, hholds⟩ := ih.add hok _
    rw [heq, some.injEq, Prod.mk.injEq] at heq'
    exact heq'.2 ▸ hholds
  | remove _ hlook heq ih =>
    obtain ⟨_, heq', hholds⟩ := ih.remove hlook
    rw [heq, some.injEq] at heq'
    exact heq' ▸ hholds

/-- `pdt_get_domain` returns the domain and the length of the longest registered prefix of `sp`. -/
def FindsDomain (head : Node) (reg : Registry) (sp : List UInt8) : Prop :=
  ∃ r, Longest reg (Starts sp) r ∧ pdtGetDomain head sp = some (found 0 (none, 0) r)

/-- `pdt_add_to_tree` accepts `sp` if it is a code that is not registered, and only then. -/
def AddsNewCode (head : Node) (reg : Registry) (sp : List UInt8) (sd : Domain) : Prop :=
  ∃ ret head', pdtAddToTree head sp sd = some (ret, head') ∧ (ret = 0 ∨ ret = -1) ∧
    (ret = 0 ↔ IsCode sp ∧ reg sp = none)

theorem Holds.findsDomain (h : Holds head reg) (hlook : Looks sp head) : FindsDomain head reg sp := by
  obtain ⟨r, hr, heq⟩ := getFrom_spec (n := 31) (l := 0) (by decide) h.depth hlook (none, 0)
  rw [funext h.domainAt] at hr
  exact ⟨r, hr, heq⟩

/-- The tree after `pdt_add_to_tree` for `9`. -/
def nineTree (sd : Domain) : Node := .node (update (fun _ => none) 9 (some sd)) fun _ => .null

theorem nine_run (sd) : Run (nineTree sd) (Registry.add (fun _ => none) [57] sd) :=
  have hadd : pdtAddToTree emptyNode [57] sd = some (0, nineTree sd) := rfl
  .add .init (.inr rfl) hadd

/-- As long as every call is made with digits where it looks, the tree is a map of prefixes. -/
theorem run_prefix_map {head : Node} {reg : Registry} (h : Run head reg) :
    (∀ sp, Looks sp head → FindsDomain head reg sp) ∧ (∀ sp sd, AddOk sp → AddsNewCode head reg sp sd) ∧
      ∀ sp, Looks sp head → ∃ head', pdtRemoveFromTree head sp = some head' := by
  refine ⟨fun sp hlook => h.holds.findsDomain hlook, fun sp sd hok => ?_, fun sp hlook => ?_⟩
  · obtain ⟨ret, head', heq, hret, hcode, _⟩ := h.holds.add hok sd
    exact ⟨ret, head', heq, hret, hcode⟩
  · obtain ⟨head', heq, _⟩ := h.holds.remove hlook
    exact ⟨head', heq⟩

/-- The tree after `91` was added as well. -/
def nestedTree (sd sd' : Domain) : Node :=
  .node (update (fun _ => none) 9 (some sd))
    (update (fun _ => .null) 9 (.node (update (fun _ => none) 1 (some sd')) fun _ => .null))

def nestedReg (sd sd' : Domain) : Registry := Registry.add (Registry.add (fun _ => none) [57] sd) [57, 49] sd'

theorem nested_run (sd sd') : Run (nestedTree sd sd') (nestedReg sd sd') :=
  have hadd : pdtAddToTree (nineTree sd) [57, 49] sd' = some (0, nestedTree sd sd') := rfl
  .add (nine_run sd) (.inr ⟨rfl, fun _ => rfl⟩) hadd

/-- With `9` and `91` registered, the user `912` has the domain of `91` and the user `92` the one of `9`. -/
theorem nested_prefix_map :
    let head := nestedTree (Msg.bytes "a.org") (Msg.bytes "b.org")
    let reg := nestedReg (Msg.bytes "a.org") (Msg.bytes "b.org")
    pdtGetDomain head (Msg.bytes "912") = some (some (Msg.bytes "b.org"), 2) ∧
      FindsDomain head reg (Msg.bytes "912") ∧
      pdtGetDomain head (Msg.bytes "92") = some (some (Msg.bytes "a.org"), 1) ∧
      FindsDomain head reg (Msg.bytes "92") :=
  have hrun := nested_run (Msg.bytes "a.org") (Msg.bytes "b.org")
  ⟨rfl, (run_prefix_map hrun).1 _ ⟨9, rfl, 1, rfl, trivial⟩, rfl, (run_prefix_map hrun).1 _ ⟨9, rfl, 2, rfl, trivial⟩⟩

/-- With `9` registered, `a` is found as well, with the index of `9`; and `1a` is accepted. -/
theorem letter_taken_for_nine :
    Run (nineTree [46]) (Registry.add (fun _ => none) [57] [46]) ∧
      pdtGetDomain (nineTree [46]) (Msg.bytes "a") = some (some [46], 1) ∧
      ¬FindsDomain (nineTree [46]) (Registry.add (fun _ => none) [57] [46]) (Msg.bytes "a") ∧
      ¬AddsNewCode emptyNode (fun _ => none) (Msg.bytes "1a") [46] := by
  have hget : pdtGetDomain (nineTree [46]) (Msg.bytes "a") = some (some [46], 1) := by rfl
  refine ⟨nine_run [46], hget, ?_, ?_⟩
  · rintro ⟨r, hr, heq⟩
    rw [hget] at heq
    cases r with
    | none => simp [found] at heq
    | some x =>
      obtain ⟨p, d⟩ := x
      -- only `9` is registered, and `a` does not start with it
      have hreg : ∀ q : List UInt8, q <+: Msg.bytes "a" → Registry.add (fun _ => none) [57] [46] q = none := by
        intro q hq
        have hne : q ≠ [57] := by
          rintro rfl
          exact absurd hq (by decide)
        unfold Registry.add
        split_ifs
        · exact update_of_ne hne ..
        · rfl
      have hsome := hr.2.1
      rw [hreg p hr.1] at hsome
      cases hsome
  · rintro ⟨ret, head', heq, -, hcode⟩
    have hret : (pdtAddToTree emptyNode (Msg.bytes "1a") [46]).map Prod.fst = some 0 := by rfl
    rw [heq] at hret
    have h0 : ret = 0 := by simpa using hret
    exact absurd (hcode.1 h0).1 (by decide)

/-- In every run the tree has the codes that are registered and no other, and is less than `PDT_MAX_DEPTH` deep. -/
theorem tree_holds_registry {head : Node} {reg : Registry} (h : Run head reg) :
    (∀ q, domainAt q head = reg q) ∧ Depth 31 head :=
  ⟨h.holds.domainAt, h.holds.depth⟩

theorem tree_holds_registry_nine : domainAt [57] (nineTree [46]) = Registry.add (fun _ => none) [57] [46] [57] :=
  (tree_holds_registry (nine_run [46])).1 [57]

end SipRouter.Pdt
