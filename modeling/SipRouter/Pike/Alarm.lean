import Mathlib.Algebra.Order.BigOperators.Group.Finset
import Mathlib.Data.List.Induction
import Mathlib.Logic.Function.Basic

/-!
# Floods of requests (`modules/pike`)

A tree over the bytes of source addresses counts requests: `hits` of a node that is not a
whole address decide whether it gets a child, `leaf_hits` of a whole address whether its
requests are refused. A child inherits hits when it is split off, and the first bytes of
an IPv6 address may be an IPv4 address. But what a child inherits as `leaf_hits` comes
from a node one byte shorter than an address, which has none, so that nobody is refused
for others (`no_false_alarm`).

The nodes without kids and those of whole addresses are in a timer list. A request that
finds a node there or not there against this rule fails an assertion, and one without
memory for its node leaves its branch locked: it returns in no later state.
-/

namespace SipRouter.Pike

open Function List Option

/-- `struct ip_node`: the counters of the previous and of the current interval. -/
structure IpNode where
  hitsPrev : UInt32
  hitsCurr : UInt32
  leafPrev : UInt32
  leafCurr : UInt32

/-- The nodes, by the bytes that lead to them. -/
abbrev IpTree := List UInt8 → Option IpNode

def isHot (prev curr limit : UInt32) : Bool := prev ≥ limit || curr ≥ limit || (prev + curr) >>> 1 ≥ limit

def IpNode.isHotNonLeaf (node : IpNode) (maxHits : UInt32) : Bool := isHot node.hitsPrev node.hitsCurr (maxHits >>> 2)

def IpNode.isHotLeaf (node : IpNode) (maxHits : UInt32) : Bool := isHot node.leafPrev node.leafCurr maxHits

/-- The increment, up to `MAX_TYPE_VAL - 1`. -/
def increment (hits : UInt32) : UInt32 := if hits < 0xfffffffe then hits + 1 else hits

/-- What `split_node` gives to the child. -/
def splitNode (dad : IpNode) : IpNode where
  hitsPrev := 0
  hitsCurr := if dad.hitsCurr ≥ 1 then dad.hitsCurr - 1 else 0
  leafPrev := if dad.leafCurr ≥ 1 then dad.leafPrev - 1 else 0
  leafCurr := 0

/-- The longest prefix of an address that has a node, and this node, from a prefix and its node on. -/
def search (T : IpTree) (p : List UInt8) (node : Option IpNode) : List UInt8 → List UInt8 × Option IpNode
  | [] => (p, node)
  | b :: ip =>
    match T (p ++ [b]) with
    | some kid => search T (p ++ [b]) (some kid) ip
    | none => (p, node)

/-- What `mark_node` returns: no node, a new one, or the one that it found, which may be red; a node
is given by how many bytes lead to it. -/
inductive Marked where
  | noNode
  | newNode (k : Nat)
  | oldNode (k : Nat) (red : Bool)

/-- `mem` says that a node can be allocated. -/
def markNode (T : IpTree) (maxHits : UInt32) (ip : List UInt8) (mem : Bool) : IpTree × Marked :=
  match search T [] none ip with
  | (_, none) =>
    if mem then (update T (ip.take 1) (some ⟨0, 1, 0, 0⟩), .newNode 1) else (T, .noNode)
  | (p, some node) =>
    if p.length = ip.length then
      let node := { node with leafCurr := increment node.leafCurr }
      (update T p (some node), .oldNode p.length (node.isHotLeaf maxHits))
    else
      let node := { node with hitsCurr := increment node.hitsCurr }
      let T := update T p (some node)
      if node.isHotNonLeaf maxHits then
        if mem then
          (update T (ip.take (p.length + 1)) (some (splitNode node)), .newNode (p.length + 1))
        else (T, .noNode)
      else (T, .oldNode p.length false)

def hasKids (T : IpTree) (p : List UInt8) : Bool :=
  (List.range 256).any fun b => (T (p ++ [b.toUInt8])).isSome

/-- The flags of a node, and whether it is in the timer list or in the one that `clean_routine` has
split from it (`has_timer_set`). -/
structure NodeFlags where
  expired : Bool := false
  inTimer : Bool := false
  ipLeaf : Bool := false
  linked : Bool := false

def NodeFlags.timed (f : NodeFlags) : Bool := f.linked && (f.expired || f.inTimer)

/-- The flags of the nodes, by the bytes that lead to them. -/
abbrev Flags := List UInt8 → NodeFlags

def refreshNode (node : IpNode) : IpNode := ⟨node.hitsCurr, 0, node.leafCurr, 0⟩

/-- The tree with the flags of its nodes, the nodes that `clean_routine` still has to look at, the
branches whose lock nobody will release, and how many requests each address has made in the current
interval of its branch and in the one before. -/
structure State where
  tree : IpTree
  flags : Flags
  split : List (List UInt8)
  held : UInt8 → Bool
  curr : List UInt8 → Nat
  prev : List UInt8 → Nat

/-- A new node goes into the timer list. With its first kid a father that is not an address leaves it. -/
def newTimer (T : IpTree) (F : Flags) (p father : List UInt8) : Option Flags :=
  let F := update F p { inTimer := true, linked := true }
  if father = [] ∨ (F father).ipLeaf ∨ hasKids T father then some F
  else if ¬ (F father).timed then none
  else if (F father).expired then some (update F father { F father with expired := false })
  else some (update F father { F father with linked := false, inTimer := false })

/-- The node that was found is in the timer list if it is an address or has no kids, and else not. -/
def oldTimer (T : IpTree) (F : Flags) (p : List UInt8) (whole : Bool) : Option Flags :=
  let F := if whole then update F p { F p with ipLeaf := true } else F
  if (F p).ipLeaf ∨ ¬ hasKids T p then
    if (F p).timed then some F else none
  else if (F p).linked ∨ (F p).inTimer ∨ (F p).expired then none
  else some F

/-- `pike_check_req` does not return if it fails an assertion or waits for a lock that is never
released. Without memory for a node it returns and releases none itself. -/
def pikeCheckReq (maxHits : UInt32) (s : State) (ip : List UInt8) (mem : Bool) : Option (State × Int) :=
  let branch := ip.headD 0
  if s.held branch then none
  else
    match markNode s.tree maxHits ip mem with
    | (T, .noNode) => some ({ s with tree := T, held := update s.held branch true }, 1)
    | (T, .newNode k) =>
      (newTimer s.tree s.flags (ip.take k) (ip.take (k - 1))).map fun F =>
        ({ s with tree := T, flags := F }, 1)
    | (T, .oldNode k red) =>
      (oldTimer s.tree s.flags (ip.take k) (k = ip.length)).map fun F =>
        ({ s with tree := T, flags := F }, if red then -1 else 1)

/-- What `clean_routine` does with a node of its list: one that has got a kid since is only
unlinked, one that was an address and has kids is one no more, and any other is removed, and its
father put into the timer list if this was the last kid. -/
def cleanNode (s : State) (p : List UInt8) : Option State :=
  let f := s.flags p
  let s := { s with
    split := s.split.filter (· ≠ p)
    flags := update s.flags p { f with linked := false, expired := false } }
  if ¬ f.expired then some s
  else if hasKids s.tree p then
    if f.ipLeaf then some { s with
      tree := update s.tree p ((s.tree p).map fun node => { node with leafCurr := 0 })
      flags := update s.flags p { s.flags p with ipLeaf := false } }
    else none
  else
    let dad := p.dropLast
    let s := { s with tree := update s.tree p none, flags := update s.flags p {} }
    if dad = [] ∨ hasKids s.tree dad then some s
    else if (s.flags dad).ipLeaf then if (s.flags dad).linked then some s else none
    else if (s.flags dad).linked then none
    else some { s with
      flags := update s.flags dad { s.flags dad with linked := true, inTimer := true } }

/-- The addresses of requests have 4 or 16 bytes. -/
abbrev IsAddr (ip : List UInt8) : Prop := ip.length = 4 ∨ ip.length = 16

/-- A request, the turn of a branch in `swap_routine`, and what `clean_routine` does: it splits
expired nodes from the timer list, and looks at one of them. -/
inductive Event where
  | request (ip : { ip : List UInt8 // IsAddr ip }) (mem : Bool)
  | swap (branch : UInt8)
  | expire (ps : List (List UInt8))
  | clean (p : List UInt8)

/-- The request is counted. -/
def State.count (s : State) (ip : List UInt8) : State :=
  { s with curr := update s.curr ip (s.curr ip + 1) }

def State.step (maxHits : UInt32) (s : State) : Event → Option State
  | .request ip mem => (pikeCheckReq maxHits s ip mem).map fun r => r.1.count ip
  | .swap branch =>
    if s.held branch then none
    else some { s with
      tree := fun p => if p.head? = some branch then (s.tree p).map refreshNode else s.tree p
      curr := fun a => if a.head? = some branch then 0 else s.curr a
      prev := fun a => if a.head? = some branch then s.curr a else s.prev a }
  | .expire ps => some { s with
      flags := fun p =>
        if p ∈ ps then { s.flags p with expired := true, inTimer := false } else s.flags p
      split := ps }
  | .clean p => if s.held (p.headD 0) then none else cleanNode s p

def State.empty : State where
  tree _ := none
  flags _ := {}
  split := []
  held _ := false
  curr _ := 0
  prev _ := 0

/-- The state after the events, if everything in them has returned. -/
def run (maxHits : UInt32) (events : List Event) : Option State :=
  events.foldlM (State.step maxHits) State.empty

/-- The hits of an address are requests that it has made, and other nodes have none. -/
def IpNode.Fair (node : IpNode) (p : List UInt8) (curr prev : Nat) : Prop :=
  if IsAddr p then node.leafCurr.toNat ≤ curr ∧ node.leafPrev.toNat ≤ prev else node.leafCurr = 0

def Fair (T : IpTree) (curr prev : List UInt8 → Nat) : Prop :=
  ∀ p node, T p = some node → node.Fair p (curr p) (prev p)

variable {T : IpTree} {curr prev : List UInt8 → Nat} {maxHits : UInt32} {p ip : List UInt8} {node : IpNode}

theorem IsAddr.one_lt (h : IsAddr p) : 1 < p.length := by
  rcases h with h | h <;> omega

theorem search_spec (p ip node) : ∃ k ≤ ip.length,
    search T p node ip = (p ++ ip.take k, if k = 0 then node else T (p ++ ip.take k)) ∧
      (0 < k → (T (p ++ ip.take k)).isSome) ∧ (k < ip.length → T (p ++ ip.take (k + 1)) = none) := by
  induction ip generalizing p node with
  | nil => exact ⟨0, by simp [search]⟩
  | cons b ip ih =>
    rw [search]
    cases hkid : T (p ++ [b]) with
    | none => exact ⟨0, by simp [hkid]⟩
    | some kid =>
      obtain ⟨k, hk, heq, hsome, hstop⟩ := ih (p ++ [b]) (some kid)
      refine ⟨k + 1, by simpa using hk, ?_⟩
      rcases k with _ | k
      · simp_all
      · simp_all

/-- What a request can find: its whole address, an empty branch, or a prefix whose next byte has no node. -/
inductive Marks (T : IpTree) (maxHits : UInt32) (ip : List UInt8) (mem : Bool) :
    IpTree × Marked → Prop
  | whole {node : IpNode} (hnode : T ip = some node) :
    Marks T maxHits ip mem (update T ip (some { node with leafCurr := increment node.leafCurr }),
      .oldNode ip.length (isHot node.leafPrev (increment node.leafCurr) maxHits))
  | empty (hnone : T (ip.take 1) = none) : Marks T maxHits ip mem
    (if mem then (update T (ip.take 1) (some ⟨0, 1, 0, 0⟩), .newNode 1) else (T, .noNode))
  | part {k : Nat} {node dad : IpNode} (hpos : 0 < k) (hlt : k < ip.length)
    (hnode : T (ip.take k) = some node)
    (hdad : dad = { node with hitsCurr := increment node.hitsCurr })
    (hnone : T (ip.take (k + 1)) = none) : Marks T maxHits ip mem
    (if dad.isHotNonLeaf maxHits then
      if mem then (update (update T (ip.take k) (some dad)) (ip.take (k + 1)) (some (splitNode dad)),
        .newNode (k + 1))
      else (update T (ip.take k) (some dad), .noNode)
    else (update T (ip.take k) (some dad), .oldNode k false))

theorem marks_markNode {mem m} (hip : IsAddr ip) (hm : markNode T maxHits ip mem = m) : Marks T maxHits ip mem m := by
  obtain ⟨k, hk, heq, hsome, hstop⟩ := search_spec [] ip none
  simp only [nil_append] at heq hsome hstop
  rw [← hm, markNode, heq]
  rcases eq_zero_or_pos k with rfl | hpos
  · exact .empty (hstop (by have := hip.one_lt; omega))
  obtain ⟨node, hnode⟩ := isSome_iff_exists.1 (hsome hpos)
  simp only [if_neg hpos.ne', hnode, length_take, min_eq_left hk]
  by_cases hl : k = ip.length
  · rw [if_pos hl]
    subst hl
    rw [take_length] at hnode ⊢
    exact .whole hnode
  · rw [if_neg hl]
    have hlt : k < ip.length := by omega
    exact .part hpos hlt hnode rfl (hstop hlt)

theorem toNat_increment (hits) :
    (increment hits).toNat = if hits.toNat < 0xfffffffe then hits.toNat + 1 else hits.toNat := by
  have hlt : hits < 0xfffffffe ↔ hits.toNat < 0xfffffffe := UInt32.lt_iff_toNat_lt
  rw [increment, apply_ite UInt32.toNat]
  refine ite_congr (propext hlt) (fun h => ?_) fun _ => rfl
  rw [UInt32.toNat_add]
  exact Nat.mod_eq_of_lt (by simp; omega)

theorem IpNode.Fair.of_isAddr {c d} (h : node.Fair p c d) (hp : IsAddr p) :
    node.leafCurr.toNat ≤ c ∧ node.leafPrev.toNat ≤ d := by
  unfold IpNode.Fair at h
  rwa [if_pos hp] at h

theorem IpNode.Fair.mono {c c' d} (h : node.Fair p c d) (hc : c ≤ c') : node.Fair p c' d := by
  unfold IpNode.Fair at h ⊢
  split_ifs at h ⊢
  · exact ⟨le_trans h.1 hc, h.2⟩
  · exact h

/-- A node without hits of an address. -/
theorem fair_of_zero {c d} (hcurr : node.leafCurr = 0)
    (hprev : IsAddr p → node.leafPrev.toNat ≤ d) : node.Fair p c d := by
  unfold IpNode.Fair
  split_ifs with hp
  · exact ⟨by simp [hcurr], hprev hp⟩
  · exact hcurr

theorem Fair.set {n} (h : Fair T curr prev) (hn : ∀ m, n = some m → m.Fair p (curr p) (prev p)) :
    Fair (update T p n) curr prev := by
  intro q m hq
  rcases eq_or_ne q p with rfl | hne
  · rw [update_self] at hq
    exact hn m hq
  · rw [update_of_ne hne] at hq
    exact h q m hq

theorem Fair.put (h : Fair T curr prev) (hnode : node.Fair p (curr p) (prev p)) :
    Fair (update T p (some node)) curr prev :=
  h.set fun _ hm => some.inj hm ▸ hnode

theorem Fair.mark (h : Fair T curr prev) (maxHits : UInt32) (hip : IsAddr ip) (mem : Bool) :
    Fair (markNode T maxHits ip mem).1 (update curr ip (curr ip + 1)) prev := by
  have hc : Fair T (update curr ip (curr ip + 1)) prev := by
    refine fun q n hq => (h q n hq).mono ?_
    rw [update_apply]
    split_ifs with hq <;> simp [hq]
  generalize hm : markNode T maxHits ip mem = m
  cases marks_markNode hip hm with
  | @whole node hnode =>
    refine hc.put ?_
    have hold := (h ip node hnode).of_isAddr hip
    have hinc := toNat_increment node.leafCurr
    rw [IpNode.Fair, if_pos hip, update_self]
    exact ⟨by simp only [hinc]; split_ifs <;> omega, hold.2⟩
  | empty =>
    cases mem with
    | false => exact hc
    | true => exact hc.put (fair_of_zero rfl fun _ => Nat.zero_le _)
  | @part k node dad hpos hlt hnode hdad =>
    have hput : Fair (update T (ip.take k) (some dad)) _ prev := hc.put (hdad ▸ hc _ node hnode)
    split_ifs
    · -- an address is one byte longer than its father, which has no hits of an address
      refine hput.put (fair_of_zero rfl fun haddr => ?_)
      have hold := h _ node hnode
      rw [IsAddr, length_take] at haddr
      rw [IpNode.Fair, if_neg (by rw [IsAddr, length_take]; omega)] at hold
      simp [splitNode, hdad, hold]
    · exact hput
    · exact hput

/-- What a request that returns has done to the counters. -/
theorem pikeCheckReq_spec {s s' : State} {mem r} (h : pikeCheckReq maxHits s ip mem = some (s', r)) :
    s'.tree = (markNode s.tree maxHits ip mem).1 ∧ s'.curr = s.curr ∧ s'.prev = s.prev ∧
      (r = -1 ↔ ∃ k, (markNode s.tree maxHits ip mem).2 = .oldNode k true) := by
  unfold pikeCheckReq at h
  simp only at h
  split_ifs at h
  generalize markNode s.tree maxHits ip mem = m at h ⊢
  match m with
  | (T, .noNode) =>
    cases h
    simp
  | (T, .newNode k) =>
    obtain ⟨F, -, heq⟩ := map_eq_some_iff.1 h
    cases heq
    simp
  | (T, .oldNode k red) =>
    obtain ⟨F, -, heq⟩ := map_eq_some_iff.1 h
    cases heq
    cases red <;> simp

/-- The counters of a node that `clean_routine` looks at stay, or it has no more hits of an address, or it is gone. -/
theorem cleanNode_spec {s s' : State} (h : cleanNode s p = some s') :
    s'.curr = s.curr ∧ s'.prev = s.prev ∧ (s'.tree = s.tree ∨ (s.flags p).expired = true ∧
      if hasKids s.tree p then
        s'.tree = update s.tree p ((s.tree p).map fun node => { node with leafCurr := 0 })
      else s'.tree = update s.tree p none) := by
  unfold cleanNode at h
  simp only at h
  split_ifs at h <;> cases h <;> simp_all

def State.Fair (s : State) : Prop := Pike.Fair s.tree s.curr s.prev

theorem State.Fair.step {s s' : State} {e} (h : s.Fair) (hs : s.step maxHits e = some s') : s'.Fair := by
  cases e with
  | request ip mem =>
    obtain ⟨⟨s₁, r⟩, hr, rfl⟩ := map_eq_some_iff.1 hs
    obtain ⟨htree, hcurr, hprev, -⟩ := pikeCheckReq_spec hr
    have hmark := h.mark maxHits ip.2 mem
    rwa [← htree, ← hcurr, ← hprev] at hmark
  | swap branch =>
    simp only [State.step] at hs
    split_ifs at hs
    cases hs
    intro q n hq
    simp only at hq ⊢
    split_ifs at hq ⊢
    · obtain ⟨m, hm, rfl⟩ := map_eq_some_iff.1 hq
      exact fair_of_zero rfl fun haddr => ((h q m hm).of_isAddr haddr).1
    · exact h q n hq
  | expire ps =>
    cases hs
    exact h
  | clean p =>
    simp only [State.step] at hs
    split_ifs at hs
    obtain ⟨hcurr, hprev, htree⟩ := cleanNode_spec hs
    rw [State.Fair, hcurr, hprev]
    split_ifs at htree
    · obtain htree | ⟨-, htree⟩ := htree
      · rwa [htree]
      · rw [htree]
        refine Fair.set h fun m hm => ?_
        obtain ⟨m', hm', rfl⟩ := map_eq_some_iff.1 hm
        exact fair_of_zero rfl fun haddr => ((h p m' hm').of_isAddr haddr).2
    · obtain htree | ⟨-, htree⟩ := htree
      · rwa [htree]
      · rw [htree]
        exact Fair.set h nofun

theorem State.Fair.foldlM {events : List Event} {s s' : State} (h : s.Fair)
    (hs : events.foldlM (State.step maxHits) s = some s') : s'.Fair := by
  induction events generalizing s with
  | nil => exact some.inj hs ▸ h
  | cons e events ih =>
    rw [List.foldlM_cons] at hs
    obtain ⟨s₁, hs₁, hs⟩ := Option.bind_eq_some_iff.1 hs
    exact ih (h.step hs₁) hs

theorem fair_run {events s} (h : run maxHits events = some s) : s.Fair :=
  State.Fair.foldlM (s := .empty) nofun h

theorem hits_of_isHot {a b : UInt32} (h : isHot a b maxHits = true) :
    maxHits.toNat ≤ b.toNat ∨ maxHits.toNat ≤ a.toNat ∨ 2 * maxHits.toNat ≤ b.toNat + a.toNat := by
  simp only [isHot, Bool.or_eq_true, decide_eq_true_eq, ge_iff_le, UInt32.le_iff_toNat_le,
    UInt32.toNat_shiftRight, UInt32.toNat_add] at h
  have hone : UInt32.toNat 1 % 32 = 1 := rfl
  rw [hone, Nat.shiftRight_eq_div_pow] at h
  have := Nat.mod_le (a.toNat + b.toNat) (2 ^ 32)
  omega

/-- A red node is the one of the whole address, and hot. -/
theorem hot_of_red (hip : IsAddr ip) {mem k} (h : (markNode T maxHits ip mem).2 = .oldNode k true) :
    ∃ node, (markNode T maxHits ip mem).1 ip = some node ∧ node.isHotLeaf maxHits = true := by
  generalize hm : markNode T maxHits ip mem = m at h ⊢
  cases marks_markNode hip hm with
  | whole => exact ⟨_, update_self .., (Marked.oldNode.inj h).2⟩
  | empty | part => split_ifs at h <;> cases h

/-- The address has made as many requests as it takes, in the current interval or in the one before,
or twice as many in both. -/
def State.Floods (s : State) (maxHits : UInt32) (ip : List UInt8) : Prop :=
  maxHits.toNat ≤ s.curr ip ∨ maxHits.toNat ≤ s.prev ip ∨ 2 * maxHits.toNat ≤ s.curr ip + s.prev ip

/-- `1.2.3.4`. -/
def source : { ip : List UInt8 // IsAddr ip } := ⟨[1, 2, 3, 4], by decide⟩

/-- A request is refused only if its address floods. -/
theorem no_false_alarm (maxHits : UInt32) (events : List Event) (s : State)
    (hrun : run maxHits events = some s) (ip : { ip : List UInt8 // IsAddr ip }) (mem : Bool)
    (s' : State) (h : pikeCheckReq maxHits s ip mem = some (s', -1)) :
    (s'.count ip).Floods maxHits ip := by
  obtain ⟨htree, -, -, hred⟩ := pikeCheckReq_spec h
  obtain ⟨k, hk⟩ := hred.1 rfl
  obtain ⟨node, hnode, hhot⟩ := hot_of_red ip.2 hk
  have hstep : s.step maxHits (.request ip mem) = some (s'.count ip) := by rw [State.step, h]; rfl
  have hfair := (fair_run hrun).step hstep
  obtain ⟨hcurr, hprev⟩ := (hfair ip node (htree ▸ hnode)).of_isAddr ip.2
  have hhits := hits_of_isHot hhot
  unfold State.Floods
  omega

/-- The fifth request, with a limit of one. -/
theorem no_false_alarm_fifth : ∃ s s', run 1 (List.replicate 4 (.request source true)) = some s ∧
    pikeCheckReq 1 s source true = some (s', -1) ∧ (s'.count source).Floods 1 source := by
  obtain ⟨s, hs⟩ := isSome_iff_exists.1 (show
    (run 1 (List.replicate 4 (.request source true))).isSome = true by decide +kernel)
  have hred : (run 1 (List.replicate 4 (.request source true))).bind (fun s =>
      (pikeCheckReq 1 s source true).map Prod.snd) = some (-1) := by decide +kernel
  rw [hs] at hred
  obtain ⟨⟨s', r⟩, hs', rfl⟩ := map_eq_some_iff.1 hred
  exact ⟨s, s', hs, hs', no_false_alarm 1 _ s hs source true s' hs'⟩

end SipRouter.Pike
