import SipRouter.Pike.Alarm

/-!
# What a flood can get through

A request that is not refused uses up a bounded number: it stops at some prefix of its
address, where it brings the next byte or the limit nearer (`left_mark`). This needs that
requests return. Where all addresses have one length, the timer list holds just the nodes
without kids, and no assertion fails (`Timed`).
-/

namespace SipRouter.Pike

open Function List Option

/-- Every event is as `P` says in the state in which it comes. -/
def Along (maxHits : UInt32) (P : State → Event → Prop) : State → List Event → Prop
  | _, [] => True
  | s, e :: events => P s e ∧ ∀ s', s.step maxHits e = some s' → Along maxHits P s' events

/-- One process runs `swap_routine` and `clean_routine`: it comes back to either when it is through
with the nodes it has split off, which were in the timer list. -/
def Event.Enabled (s : State) : Event → Prop
  | .request .. => True
  | .swap _ => s.split = []
  | .expire ps => s.split = [] ∧ ∀ p ∈ ps, (s.flags p).inTimer = true
  | .clean p => p ∈ s.split

/-- The address of a request has so many bytes, and there is memory for a node. -/
def Event.OfLength (len : Nat) : Event → Prop
  | .request ip mem => ip.1.length = len ∧ mem = true
  | _ => True

/-- The hits that make a node hot, at least one. -/
def quarter (maxHits : UInt32) : Nat := max 1 (maxHits.toNat / 4)

/-- How many requests of an address can still stop at a prefix of `k` bytes without alarm. -/
def level (T : IpTree) (maxHits : UInt32) (ip : List UInt8) (k : Nat) : Nat :=
  if k = ip.length then maxHits.toNat - 1 - (T ip).elim 0 (·.leafCurr.toNat)
  else if (T (ip.take (k + 1))).isSome then 0
  else if k = 0 then 1
  else (T (ip.take k)).elim (quarter maxHits) fun node => max 1 (quarter maxHits - node.hitsCurr.toNat)

def left (T : IpTree) (maxHits : UInt32) (ip : List UInt8) : Nat :=
  ∑ k ∈ Finset.range (ip.length + 1), level T maxHits ip k

/-- On the path of an address nodes stay, and their hits of the interval and the address's own too. -/
def Grows (ip : List UInt8) (T T' : IpTree) : Prop :=
  ∀ k node, T (ip.take k) = some node →
    ∃ node', T' (ip.take k) = some node' ∧ node.hitsCurr.toNat ≤ node'.hitsCurr.toNat ∧
      (ip.length ≤ k → node.leafCurr.toNat ≤ node'.leafCurr.toNat)

/-- Not a failed allocation, the swap of the address's branch, the removal of a node on its path, or
what takes the hits of its own node. -/
def Spares (ip : List UInt8) (s : State) : Event → Prop
  | .request _ mem => mem = true
  | .swap branch => ip.head? ≠ some branch
  | .expire _ => True
  | .clean p => (s.flags p).expired = true → p ≠ ip ∧ (p <+: ip → hasKids s.tree p = true)

def Event.isRequest (ip : List UInt8) : Event → Bool
  | .request a _ => a.1 = ip
  | _ => false

variable {T T' : IpTree} {maxHits : UInt32} {p ip : List UInt8} {node : IpNode} {s s' : State}

theorem along_of_forall {P : State → Event → Prop} {events : List Event} (h : ∀ s, ∀ e ∈ events, P s e) :
    Along maxHits P s events := by
  induction events generalizing s with
  | nil => trivial
  | cons e events ih =>
    exact ⟨h s e mem_cons_self, fun _ _ => ih fun s' e' he' => h s' e' (mem_cons_of_mem _ he')⟩

theorem quarter_pos (maxHits) : 1 ≤ quarter maxHits := le_max_left ..

theorem le_toNat_increment {hits} : hits.toNat ≤ (increment hits).toNat := by
  rw [toNat_increment]
  split_ifs <;> omega

theorem level_mono (h : Grows ip T T') (k : Nat) : level T' maxHits ip k ≤ level T maxHits ip k := by
  have hq := quarter_pos maxHits
  unfold level
  by_cases hl : k = ip.length
  · rw [if_pos hl, if_pos hl]
    cases hT : T ip with
    | none => simp
    | some node =>
      obtain ⟨node', hT', -, hle⟩ := h ip.length node (by rwa [take_length])
      rw [take_length] at hT'
      rw [hT']
      exact Nat.sub_le_sub_left (hle le_rfl) _
  rw [if_neg hl, if_neg hl]
  by_cases hs' : (T' (ip.take (k + 1))).isSome
  · rw [if_pos hs']
    exact Nat.zero_le _
  have hs : ¬ (T (ip.take (k + 1))).isSome := by
    intro hs
    obtain ⟨node, hnode⟩ := isSome_iff_exists.1 hs
    obtain ⟨node', hnode', -⟩ := h _ node hnode
    exact hs' (by rw [hnode']; rfl)
  rw [if_neg hs', if_neg hs]
  split_ifs
  · exact le_rfl
  cases hT : T (ip.take k) with
  | none =>
    cases T' (ip.take k) with
    | none => exact le_rfl
    | some node' => simp only [Option.elim]; omega
  | some node =>
    obtain ⟨node', hT', hle, -⟩ := h k node hT
    rw [hT']
    simp only [Option.elim]
    omega

theorem Grows.put {T0} (h : Grows ip T0 T)
    (hle : ∀ n, T p = some n → n.hitsCurr.toNat ≤ node.hitsCurr.toNat ∧
      (p = ip → n.leafCurr.toNat ≤ node.leafCurr.toNat)) :
    Grows ip T0 (update T p (some node)) := by
  intro k n hn
  obtain ⟨n', hn', hhits, hleaf⟩ := h k n hn
  rcases eq_or_ne (ip.take k) p with rfl | hne
  · rw [update_self]
    exact ⟨node, rfl, hhits.trans (hle n' hn').1, fun hk => (hleaf hk).trans ((hle n' hn').2 (take_of_length_le hk))⟩
  · rw [update_of_ne hne]
    exact ⟨n', hn', hhits, hleaf⟩

theorem Grows.refl (ip T) : Grows ip T T := fun _ node h => ⟨node, h, le_rfl, fun _ => le_rfl⟩

theorem take_succ_ne {k} (h : k < ip.length) : ip.take (k + 1) ≠ ip.take k := by
  intro heq
  have := congrArg List.length heq
  simp only [length_take] at this
  omega

theorem grows_mark {a} (ha : IsAddr a) {mem} : Grows ip T (markNode T maxHits a mem).1 := by
  generalize hm : markNode T maxHits a mem = m
  cases marks_markNode ha hm with
  | @whole node hnode =>
    refine (Grows.refl ip T).put fun n hn => ?_
    cases hnode.symm.trans hn
    exact ⟨le_rfl, fun _ => le_toNat_increment⟩
  | empty hnone =>
    cases mem with
    | false => exact .refl ip T
    | true => exact (Grows.refl ip T).put fun n hn => by rw [hnone] at hn; cases hn
  | @part k node dad hpos hlt hnode hdad hnone =>
    have hput : Grows ip T (update T (a.take k) (some dad)) := by
      refine (Grows.refl ip T).put fun n hn => ?_
      cases hnode.symm.trans hn
      rw [hdad]
      exact ⟨le_toNat_increment, fun _ => le_rfl⟩
    split_ifs
    · refine hput.put fun n hn => ?_
      rw [update_of_ne (take_succ_ne hlt), hnone] at hn
      cases hn
    · exact hput
    · exact hput

theorem grows_step {e} (h : Spares ip s e) (hs : s.step maxHits e = some s') : Grows ip s.tree s'.tree := by
  cases e with
  | request a mem =>
    obtain ⟨⟨s₁, r⟩, hr, rfl⟩ := map_eq_some_iff.1 hs
    simp only [State.count, (pikeCheckReq_spec hr).1]
    exact grows_mark a.2
  | swap branch =>
    simp only [State.step] at hs
    split_ifs at hs
    cases hs
    intro k node hnode
    have hne : (ip.take k).head? ≠ some branch := by
      cases ip with
      | nil => simp
      | cons b ip => cases k <;> simp_all [Spares]
    exact ⟨node, by simpa only [if_neg hne] using hnode, le_rfl, fun _ => le_rfl⟩
  | expire ps =>
    cases hs
    exact .refl ip s.tree
  | clean p =>
    simp only [State.step] at hs
    split_ifs at hs
    obtain ⟨-, -, htree | ⟨hexp, htree⟩⟩ := cleanNode_spec hs
    · rw [htree]
      exact .refl ip s.tree
    obtain ⟨hne, hkids⟩ := h hexp
    intro k node hnode
    by_cases hk : ip.take k = p
    · -- a node on the path keeps its hits, because it has kids
      rw [if_pos (hkids (hk ▸ take_prefix k ip))] at htree
      rw [htree, hk, update_self, ← hk, hnode]
      exact ⟨_, rfl, le_rfl, fun hle => absurd (hk.symm.trans (take_of_length_le hle)) hne⟩
    · refine ⟨node, ?_, le_rfl, fun _ => le_rfl⟩
      split_ifs at htree <;> rwa [htree, update_of_ne hk]

theorem lt_of_isHot_eq_false {a b limit} (h : isHot a b limit = false) : b.toNat < limit.toNat := by
  simp only [isHot, Bool.or_eq_false_iff, decide_eq_false_iff_not, ge_iff_le, UInt32.le_iff_toNat_le] at h
  exact Nat.lt_of_not_le h.1.2

/-- A request that is not refused uses up one of those left. -/
theorem left_mark (hip : IsAddr ip) (hmax : maxHits < 0xffffffff)
    (h : ∀ k, (markNode T maxHits ip true).2 ≠ .oldNode k true) :
    left (markNode T maxHits ip true).1 maxHits ip < left T maxHits ip := by
  refine Finset.sum_lt_sum (fun k _ => level_mono (grows_mark hip) k) ?_
  generalize hm : markNode T maxHits ip true = m at h ⊢
  cases marks_markNode hip hm with
  | @whole node hnode =>
    refine ⟨ip.length, by simp, ?_⟩
    have hlt := lt_of_isHot_eq_false (Bool.eq_false_iff.2 fun hhot => h ip.length (congrArg _ hhot))
    have hmax := UInt32.lt_iff_toNat_lt.1 hmax
    have hinc := toNat_increment node.leafCurr
    simp only [level, if_true, update_self, hnode, Option.elim]
    simp at hmax
    split_ifs at hinc <;> omega
  | empty hnone =>
    refine ⟨0, by simp, ?_⟩
    have hne : 0 ≠ ip.length := by have := hip.one_lt; omega
    simp [level, hne, hnone]
  | @part k node dad hpos hlt hnode hdad hnone =>
    refine ⟨k, by simp; omega, ?_⟩
    unfold level
    simp only [if_neg hlt.ne, if_neg hpos.ne', hnone, hnode, isSome_none, Option.elim]
    by_cases hhot : dad.isHotNonLeaf maxHits
    · simp [hhot]
    · have hcold := lt_of_isHot_eq_false (Bool.eq_false_iff.2 hhot)
      have hinc := toNat_increment node.hitsCurr
      simp only [hhot, Bool.false_eq_true, if_false, update_of_ne (take_succ_ne hlt), hnone, isSome_none,
        update_self, quarter]
      have hshift : (maxHits >>> 2).toNat = maxHits.toNat / 4 := Nat.shiftRight_eq_div_pow ..
      have hlt := maxHits.toNat_lt
      simp only [hdad, hshift] at hcold ⊢
      split_ifs at hinc <;> omega

theorem left_le (hip : IsAddr ip) (T maxHits) :
    left T maxHits ip ≤ 1 + (ip.length - 1) * quarter maxHits + (maxHits.toNat - 1) := by
  obtain ⟨n, hn⟩ : ∃ n, ip.length = n + 1 := ⟨ip.length - 1, (Nat.sub_add_cancel hip.one_lt.le).symm⟩
  rw [left, hn, Finset.sum_range_succ, Finset.sum_range_succ']
  have hmid : ∑ k ∈ Finset.range n, level T maxHits ip (k + 1) ≤ n * quarter maxHits := by
    refine (Finset.sum_le_card_nsmul _ _ (quarter maxHits) fun k hk => ?_).trans (by simp)
    have hne : k + 1 ≠ ip.length := by rw [hn]; have := Finset.mem_range.1 hk; omega
    have hq := quarter_pos maxHits
    rw [level, if_neg hne]
    split_ifs
    · omega
    · omega
    · cases T (ip.take (k + 1)) with
      | none => exact le_rfl
      | some node => simp only [Option.elim]; omega
  have hfirst : level T maxHits ip 0 ≤ 1 := by
    rw [level, if_neg (by omega)]
    split_ifs <;> omega
  have hlast : level T maxHits ip (n + 1) ≤ maxHits.toNat - 1 := by
    rw [level, if_pos hn.symm]
    exact Nat.sub_le ..
  simp only [Nat.add_sub_cancel]
  omega

/-- While no request of an address is refused, each one uses up one of those left. -/
theorem left_run {ip : { ip : List UInt8 // IsAddr ip }} (hmax : maxHits < 0xffffffff) {events : List Event}
    (hspares : Along maxHits (Spares ip) s events)
    (hrun : events.foldlM (State.step maxHits) s = some s')
    (hno : ∀ start rest s₁ s₂, events = start ++ .request ip true :: rest →
      start.foldlM (State.step maxHits) s = some s₁ → pikeCheckReq maxHits s₁ ip true ≠ some (s₂, -1)) :
    left s'.tree maxHits ip + events.countP (Event.isRequest ip) ≤ left s.tree maxHits ip := by
  induction events generalizing s with
  | nil =>
    cases hrun
    simp
  | cons e events ih =>
    rw [List.foldlM_cons] at hrun
    obtain ⟨s₁, hs₁, hrun⟩ := Option.bind_eq_some_iff.1 hrun
    obtain ⟨he, hrest⟩ := hspares
    have hstep : left s₁.tree maxHits ip + (if e.isRequest ip then 1 else 0) ≤ left s.tree maxHits ip := by
      have hle : left s₁.tree maxHits ip ≤ left s.tree maxHits ip :=
        Finset.sum_le_sum fun k _ => level_mono (grows_step he hs₁) k
      split_ifs with hreq
      · cases e with
        | request a mem =>
          obtain rfl : a = ip := Subtype.ext (by simpa [Event.isRequest] using hreq)
          obtain rfl : mem = true := he
          obtain ⟨⟨s₂, r⟩, hr, rfl⟩ := map_eq_some_iff.1 hs₁
          obtain ⟨htree, -, -, hred⟩ := pikeCheckReq_spec hr
          rw [State.count, htree]
          refine left_mark a.2 hmax fun k hk => ?_
          obtain rfl := hred.2 ⟨k, hk⟩
          exact hno [] events s s₂ rfl rfl hr
        | _ => cases hreq
      · exact hle
    have hrest := ih (hrest s₁ hs₁) hrun fun start rest s₂ s₃ heq hstart =>
      hno (e :: start) rest s₂ s₃ (by rw [heq]; rfl) (by rw [List.foldlM_cons, hs₁]; exact hstart)
    rw [countP_cons]
    omega

/-! ## Assertions -/

theorem hasKids_iff : hasKids T p = true ↔ ∃ b, (T (p ++ [b])).isSome = true := by
  simp only [hasKids, List.any_eq_true, List.mem_range]
  constructor
  · rintro ⟨b, -, hb⟩
    exact ⟨_, hb⟩
  · rintro ⟨b, hb⟩
    exact ⟨b.toNat, b.toNat_lt, by simpa using hb⟩

/-- Where a node belongs if addresses have `len` bytes: whole addresses have no kids, and nodes
without kids are in the timer list or split off from it. A node that got its first kid after it was
split off is linked for a while; it is hot, so that no request stops there. -/
structure NodeOk (maxHits : UInt32) (len : Nat) (s : State) (p : List UInt8) : Prop where
  size : (s.tree p).isSome = true → 0 < p.length ∧ p.length ≤ len
  leaf : (s.flags p).ipLeaf = true → p.length = len
  link : (s.flags p).linked = true →
    (s.tree p).isSome = true ∧ ((s.flags p).inTimer = true ∨ p ∈ s.split)
  timer : (s.flags p).inTimer = true → (s.flags p).linked = true ∧ p ∉ s.split
  expired : (s.flags p).expired = true → p ∈ s.split
  split : p ∈ s.split → (s.flags p).linked = true
  tip : (s.tree p).isSome = true → hasKids s.tree p = false → (s.flags p).timed = true
  inner : (s.tree p).isSome = true → hasKids s.tree p = true →
    (s.flags p).expired = false ∧ (s.flags p).inTimer = false ∧
      ((s.flags p).linked = true → ∃ node, s.tree p = some node ∧ node.isHotNonLeaf maxHits = true)

structure Timed (maxHits : UInt32) (len : Nat) (s : State) : Prop where
  free : ∀ b, s.held b = false
  node : ∀ p, NodeOk maxHits len s p
  father : ∀ p b, (s.tree (p ++ [b])).isSome = true → p ≠ [] → (s.tree p).isSome = true
  below : ∀ p b, p ++ [b] ∈ s.split → (s.flags p).linked = false

variable {len : Nat}

theorem timed_empty (maxHits len) : Timed maxHits len .empty := by
  refine ⟨fun _ => rfl, fun p => ?_, nofun, nofun⟩
  constructor <;> simp [State.empty]

/-- One more hit does not make a hot node cold. -/
theorem isHot_increment {a b : UInt32} (h : isHot a b (maxHits >>> 2) = true) :
    isHot a (increment b) (maxHits >>> 2) = true := by
  have hinc := toNat_increment b
  have hshift : (maxHits >>> 2).toNat = maxHits.toNat / 4 := Nat.shiftRight_eq_div_pow ..
  have hmax := maxHits.toNat_lt
  have ha := a.toNat_lt
  have hb := b.toNat_lt
  have hone : UInt32.toNat 1 % 32 = 1 := rfl
  simp only [isHot, Bool.or_eq_true, decide_eq_true_eq, ge_iff_le, UInt32.le_iff_toNat_le, UInt32.toNat_shiftRight,
    UInt32.toNat_add, hone, Nat.shiftRight_eq_div_pow, hshift] at h ⊢
  split_ifs at hinc <;> omega

/-- What a node depends on: itself, whether it has kids, and whether it is split off. -/
theorem NodeOk.congr (h : NodeOk maxHits len s p) (htree : s'.tree p = s.tree p)
    (hkids : hasKids s'.tree p = hasKids s.tree p) (hflags : s'.flags p = s.flags p)
    (hsplit : p ∈ s'.split ↔ p ∈ s.split) : NodeOk maxHits len s' p := by
  obtain ⟨h₁, h₂, h₃, h₄, h₅, h₆, h₇, h₈⟩ := h
  constructor <;> simpa only [htree, hkids, hflags, hsplit]

/-- A node of the timer list has no kids. -/
theorem NodeOk.no_kids (h : NodeOk maxHits len s p) (ht : (s.flags p).inTimer = true) : hasKids s.tree p = false := by
  refine Bool.eq_false_iff.2 fun hk => ?_
  have hin := (h.inner (h.link (h.timer ht).1).1 hk).2.1
  rw [ht] at hin
  cases hin

theorem NodeOk.not_ipLeaf (h : NodeOk maxHits len s p) (hlen : p.length < len) : (s.flags p).ipLeaf = false :=
  Bool.eq_false_iff.2 fun hl => hlen.ne (h.leaf hl)

/-- The node of a whole address has no kids. -/
theorem Timed.no_kids (h : Timed maxHits len s) (hp : len ≤ p.length) : hasKids s.tree p = false := by
  refine Bool.eq_false_iff.2 fun hk => ?_
  obtain ⟨b, hb⟩ := hasKids_iff.1 hk
  have hsize := (h.node _).size hb
  simp at hsize
  omega

/-- Nothing is below a node that is not there. -/
theorem Timed.no_kids_of_none (h : Timed maxHits len s) (hp : p ≠ []) (hnone : s.tree p = none) :
    hasKids s.tree p = false := by
  refine Bool.eq_false_iff.2 fun hk => ?_
  obtain ⟨b, hb⟩ := hasKids_iff.1 hk
  have hsome := h.father p b hb hp
  rw [hnone] at hsome
  cases hsome

theorem hasKids_congr (h : ∀ b, (T' (p ++ [b])).isSome = (T (p ++ [b])).isSome) : hasKids T' p = hasKids T p := by
  rw [Bool.eq_iff_iff, hasKids_iff, hasKids_iff]
  simp only [h]

theorem hasKids_update {d : List UInt8} {b : UInt8} (n : Option IpNode) (h : p ≠ d) :
    hasKids (update T (d ++ [b]) n) p = hasKids T p := by
  refine hasKids_congr fun b' => ?_
  have hne : p ++ [b'] ≠ d ++ [b] := fun heq => h (append_inj_left' heq rfl)
  rw [update_of_ne hne]

/-- Counters may change if no node that is split off turns cold. -/
theorem Timed.recount (h : Timed maxHits len s) (hs : ∀ p, (T p).isSome = (s.tree p).isSome)
    (hhot : ∀ p node, p ∈ s.split → s.tree p = some node → node.isHotNonLeaf maxHits = true →
      ∃ node', T p = some node' ∧ node'.isHotNonLeaf maxHits = true) :
    Timed maxHits len { s with tree := T } := by
  refine ⟨h.free, fun p => ?_, by simpa only [hs] using h.father, h.below⟩
  have hkids : hasKids T p = hasKids s.tree p := hasKids_congr fun b => hs _
  obtain ⟨hsize, hleaf, hlink, htimer, hexpired, hsplit, htip, hinner⟩ := h.node p
  rw [← hs, ← hkids] at htip hinner
  rw [← hs] at hsize hlink
  refine ⟨hsize, hleaf, hlink, htimer, hexpired, hsplit, htip, fun hp hk => ?_⟩
  obtain ⟨hexp, htim, hhot'⟩ := hinner hp hk
  refine ⟨hexp, htim, fun hl => ?_⟩
  obtain ⟨node, hnode, hot⟩ := hhot' hl
  exact hhot p node ((hlink hl).2.resolve_left (by simp [htim])) hnode hot

/-- One node is counted, and stays hot if it was. -/
theorem Timed.recountNode (h : Timed maxHits len s) {node node' : IpNode} (hnode : s.tree p = some node)
    (hhot : node.isHotNonLeaf maxHits = true → node'.isHotNonLeaf maxHits = true) :
    Timed maxHits len { s with tree := update s.tree p (some node') } := by
  refine h.recount (fun q => ?_) fun q n _ hn hot => ?_
  · by_cases hq : q = p <;> simp [hq, hnode]
  · by_cases hq : q = p
    · subst hq
      cases hnode.symm.trans hn
      exact ⟨node', update_self .., hhot hot⟩
    · exact ⟨n, by rw [update_of_ne hq]; exact hn, hot⟩

/-- A request that stops at a node which is not hot finds it in the timer list if it has no kids, and else not. -/
theorem Timed.oldTimer (h : Timed maxHits len s) {node : IpNode} (hnode : s.tree p = some node)
    (hcold : ¬ node.isHotNonLeaf maxHits = true) (hlen : p.length < len) :
    Pike.oldTimer s.tree s.flags p false = some s.flags := by
  simp only [Pike.oldTimer, Bool.false_eq_true, if_false, (h.node p).not_ipLeaf hlen, false_or]
  by_cases hkids : hasKids s.tree p = true
  · obtain ⟨hexp, htim, hlink⟩ := (h.node p).inner (by simp [hnode]) hkids
    rw [if_neg (not_not.2 hkids), if_neg]
    rintro (hl | hl | hl)
    · obtain ⟨n, hn, hot⟩ := hlink hl
      cases hnode.symm.trans hn
      exact hcold hot
    · simp [htim] at hl
    · simp [hexp] at hl
  · rw [if_pos hkids, if_pos ((h.node p).tip (by simp [hnode]) (Bool.eq_false_iff.2 hkids))]

/-- The flags that the timer reads stay. -/
theorem Timed.mark (h : Timed maxHits len s) (hp : p.length = len) :
    Timed maxHits len { s with flags := update s.flags p { s.flags p with ipLeaf := true } } := by
  refine ⟨h.free, fun q => ?_, h.father, fun q b hq => ?_⟩
  · rcases eq_or_ne q p with rfl | hne
    · obtain ⟨hsize, -, hlink, htimer, hexpired, hsplit, htip, hinner⟩ := h.node q
      constructor <;> simp only [update_self, NodeFlags.timed] <;> first | assumption | exact fun _ => hp
    · exact (h.node q).congr rfl rfl (update_of_ne hne ..) Iff.rfl
  · rcases eq_or_ne q p with rfl | hne
    · simpa only [update_self] using h.below q b hq
    · simpa only [update_of_ne hne] using h.below q b hq

theorem Timed.not_mem_split (h : Timed maxHits len s) (hnone : s.tree p = none) : p ∉ s.split := by
  intro hp
  have hsome := ((h.node p).link ((h.node p).split hp)).1
  rw [hnone] at hsome
  cases hsome

/-- A new node goes into the timer list, and its father leaves it unless it is split off already. -/
theorem Timed.add (h : Timed maxHits len s) {d : List UInt8} {b : UInt8} {f : NodeFlags} (n : IpNode)
    (hnone : s.tree (d ++ [b]) = none) (hlen : d.length < len)
    (hd : d ≠ [] → ∃ dad, s.tree d = some dad ∧ dad.isHotNonLeaf maxHits = true)
    (hexp : f.expired = false) (htim : f.inTimer = false) (hlink : f.linked = true ↔ d ∈ s.split)
    (hleaf : f.ipLeaf = (s.flags d).ipLeaf) :
    Timed maxHits len { s with
      tree := update s.tree (d ++ [b]) (some n)
      flags := update (update s.flags (d ++ [b]) { inTimer := true, linked := true }) d f } := by
  have hsplit := h.not_mem_split hnone
  have hne : d ≠ d ++ [b] := by simp
  have hfather : d ≠ [] → (s.tree d).isSome = true := by
    intro hdne
    obtain ⟨dad, hdad, -⟩ := hd hdne
    simp [hdad]
  have hsome : ∀ q, (s.tree q).isSome = true → (update s.tree (d ++ [b]) (some n) q).isSome = true := by
    intro q hq
    by_cases hqp : q = d ++ [b] <;> simp [hqp, hq]
  refine ⟨h.free, fun q => ?_, fun q b' hq hqne => ?_, fun q b' hq => ?_⟩
  · rcases eq_or_ne q d with rfl | hqd
    · have hkids : hasKids (update s.tree (q ++ [b]) (some n)) q = true := hasKids_iff.2 ⟨b, by simp⟩
      constructor <;> simp only [update_self, update_of_ne hne, hexp, htim, hleaf, hkids]
      · exact (h.node q).size
      · exact (h.node q).leaf
      · exact fun hl => ⟨((h.node q).link ((h.node q).split (hlink.1 hl))).1, .inr (hlink.1 hl)⟩
      · exact nofun
      · exact nofun
      · exact hlink.2
      · exact nofun
      · exact fun hq _ => ⟨trivial, trivial, fun _ => hd (ne_nil_of_length_pos ((h.node q).size hq).1)⟩
    rcases eq_or_ne q (d ++ [b]) with rfl | hqp
    · have hkids := (hasKids_update (T := s.tree) (b := b) (some n) hqd).trans (h.no_kids_of_none (by simp) hnone)
      constructor <;> simp [hkids, hsplit, NodeFlags.timed]
      omega
    · refine (h.node q).congr ?_ (hasKids_update _ hqd) ?_ Iff.rfl
      · simp only [update_of_ne hqp]
      · simp only [update_of_ne hqd, update_of_ne hqp]
  · dsimp only at hq ⊢
    by_cases hqp : q ++ [b'] = d ++ [b]
    · obtain rfl := append_inj_left' hqp rfl
      exact hsome q (hfather hqne)
    · rw [update_of_ne hqp] at hq
      exact hsome q (h.father q b' hq hqne)
  · dsimp only at hq ⊢
    rcases eq_or_ne q d with rfl | hqd
    · have hold := h.below q b' hq
      rw [update_self, Bool.eq_false_iff, Ne, hlink]
      intro hdm
      rw [(h.node q).split hdm] at hold
      cases hold
    rcases eq_or_ne q (d ++ [b]) with rfl | hqp
    · have hkid := ((h.node _).link ((h.node _).split hq)).1
      have hold := h.father _ b' hkid (by simp)
      rw [hnone] at hold
      cases hold
    · rw [update_of_ne hqd, update_of_ne hqp]
      exact h.below q b' hq

/-- The flags of a father after its kid has gone into the timer list. -/
theorem Timed.newTimer (h : Timed maxHits len s) {d : List UInt8} {b : UInt8} (hlen : d.length < len)
    (hd : d ≠ [] → (s.tree d).isSome = true) : ∃ f : NodeFlags,
      newTimer s.tree s.flags (d ++ [b]) d =
        some (update (update s.flags (d ++ [b]) { inTimer := true, linked := true }) d f) ∧
      f.expired = false ∧ f.inTimer = false ∧ (f.linked = true ↔ d ∈ s.split) ∧
      f.ipLeaf = (s.flags d).ipLeaf := by
  have hne : d ≠ d ++ [b] := by simp
  obtain ⟨hsize, hleaf, hlink, htimer, hexpired, hsplit, htip, hinner⟩ := h.node d
  have hno := (h.node d).not_ipLeaf hlen
  simp only [Pike.newTimer, update_of_ne hne, hno, Bool.false_eq_true, false_or]
  by_cases hkids : d = [] ∨ hasKids s.tree d = true
  · rw [if_pos hkids]
    have hf : (s.flags d).expired = false ∧ (s.flags d).inTimer = false := by
      by_cases hdne : d = []
      · have hl : (s.flags d).linked = false :=
          Bool.eq_false_iff.2 fun hl => by have := (hsize (hlink hl).1).1; simp [hdne] at this
        exact ⟨Bool.eq_false_iff.2 fun he => by simp [hsplit (hexpired he)] at hl,
          Bool.eq_false_iff.2 fun ht => by simp [(htimer ht).1] at hl⟩
      · have hin := hinner (hd hdne) (hkids.resolve_left hdne)
        exact ⟨hin.1, hin.2.1⟩
    refine ⟨s.flags d, ?_, hf.1, hf.2, ⟨fun hl => ?_, hsplit⟩, hno⟩
    · exact congrArg some (update_eq_self_iff.2 (update_of_ne hne ..).symm).symm
    · exact (hlink hl).2.resolve_left (by simp [hf.2])
  · rw [if_neg hkids]
    rw [not_or, Bool.not_eq_true] at hkids
    have htimed := htip (hd hkids.1) hkids.2
    rw [if_neg (by simp [htimed])]
    simp only [NodeFlags.timed, Bool.and_eq_true, Bool.or_eq_true] at htimed
    by_cases hexp : (s.flags d).expired = true
    · have hmem := hexpired hexp
      have htim : (s.flags d).inTimer = false := Bool.eq_false_iff.2 fun ht => (htimer ht).2 hmem
      rw [if_pos hexp]
      exact ⟨_, rfl, rfl, htim, iff_of_true htimed.1 hmem, rfl⟩
    · rw [if_neg hexp]
      have hmem := (htimer (htimed.2.resolve_left hexp)).2
      exact ⟨_, rfl, Bool.eq_false_iff.2 hexp, rfl, iff_of_false nofun hmem, rfl⟩

theorem newTimer_congr {F d} (h : hasKids T' d = hasKids T d) : newTimer T' F p d = newTimer T F p d := by
  simp only [newTimer, h]

/-- Requests with addresses of one length return. -/
theorem Timed.request (h : Timed maxHits len s) (hip : IsAddr ip) (hlen : ip.length = len) :
    ∃ s' r, pikeCheckReq maxHits s ip true = some (s', r) ∧ Timed maxHits len s' := by
  simp only [pikeCheckReq, h.free, Bool.false_eq_true, if_false]
  generalize hm : markNode s.tree maxHits ip true = m
  cases marks_markNode hip hm with
  | @whole node hnode =>
    have htimed := (h.node ip).tip (by simp [hnode]) (h.no_kids hlen.ge)
    have hold : Pike.oldTimer s.tree s.flags ip true =
        some (update s.flags ip { s.flags ip with ipLeaf := true }) := by
      simp only [Pike.oldTimer, if_true, update_self, true_or]
      exact if_pos htimed
    simp only [take_length, decide_true, hold, Option.map_some]
    exact ⟨_, _, rfl, (h.mark hlen).recountNode hnode fun hot => hot⟩
  | empty hnone =>
    obtain ⟨b, rest, rfl⟩ : ∃ b rest, ip = b :: rest := exists_cons_of_length_pos (by have := hip.one_lt; omega)
    have hlen0 : ([] : List UInt8).length < len := by simp [← hlen]
    obtain ⟨f, hf, hexp, htim, hlink, hleaf⟩ := h.newTimer (b := b) hlen0 (fun hne => absurd rfl hne)
    simp only [if_true, Nat.sub_self, take_zero, take_succ_cons, nil_append] at hf hnone ⊢
    rw [hf]
    exact ⟨_, _, rfl, h.add _ hnone hlen0 (fun hne => absurd rfl hne) hexp htim hlink hleaf⟩
  | @part k node dad hpos hlt hnode hdad hnone =>
    have hne : ip.take k ≠ [] := by
      refine ne_nil_of_length_pos ?_
      rw [length_take]
      omega
    have hlenk : (ip.take k).length < len := by
      rw [length_take]
      omega
    have hsome : ∀ q, (update s.tree (ip.take k) (some dad) q).isSome = (s.tree q).isSome := by
      intro q
      by_cases hq : q = ip.take k <;> simp [hq, hnode]
    have hstays : node.isHotNonLeaf maxHits = true → dad.isHotNonLeaf maxHits = true :=
      fun hot => hdad ▸ isHot_increment hot
    have hre := h.recountNode hnode hstays
    by_cases hhot : dad.isHotNonLeaf maxHits = true
    · have htake : ip.take (k + 1) = ip.take k ++ [ip[k]] := take_succ_eq_append_getElem hlt
      rw [htake] at hnone ⊢
      have hnone' : update s.tree (ip.take k) (some dad) (ip.take k ++ [ip[k]]) = none := by
        rw [update_of_ne (htake ▸ take_succ_ne hlt), hnone]
      obtain ⟨f, hf, hexp, htim, hlink, hleaf⟩ := hre.newTimer (b := ip[k]) hlenk fun _ => by simp
      rw [newTimer_congr (hasKids_congr fun b => hsome _)] at hf
      simp only [hhot, if_true, Nat.add_sub_cancel, htake]
      rw [hf]
      exact ⟨_, _, rfl, hre.add _ hnone' hlenk (fun _ => ⟨dad, update_self .., hhot⟩) hexp htim hlink hleaf⟩
    · simp only [hhot, Bool.false_eq_true, if_false, decide_eq_false hlt.ne]
      rw [h.oldTimer hnode (fun hot => hhot (hstays hot)) hlenk]
      exact ⟨_, _, rfl, hre⟩

theorem Timed.swap (h : Timed maxHits len s) (hsplit : s.split = []) (branch : UInt8) : Timed maxHits len { s with
    tree := fun p => if p.head? = some branch then (s.tree p).map refreshNode else s.tree p } := by
  refine h.recount (fun p => ?_) fun p node hp => ?_
  · split_ifs <;> simp
  · rw [hsplit] at hp
    cases hp

theorem Timed.expire (h : Timed maxHits len s) (hsplit : s.split = []) {ps : List (List UInt8)}
    (hps : ∀ p ∈ ps, (s.flags p).inTimer = true) : Timed maxHits len { s with
      flags := fun p => if p ∈ ps then { s.flags p with expired := true, inTimer := false } else s.flags p
      split := ps } := by
  have hlinked : ∀ p, (if p ∈ ps then { s.flags p with expired := true, inTimer := false }
      else s.flags p : NodeFlags).linked = (s.flags p).linked := by
    intro p
    split_ifs <;> rfl
  refine ⟨h.free, fun p => ?_, h.father, fun p b hp => ?_⟩
  · obtain ⟨hsize, hleaf, hlink, htimer, hexpired, -, htip, hinner⟩ := h.node p
    rw [hsplit] at hlink hexpired
    by_cases hp : p ∈ ps
    · have ht := hps p hp
      have hl := (htimer ht).1
      have hk := (h.node p).no_kids ht
      refine ⟨hsize, ?_, ?_, ?_, ?_, ?_, ?_, ?_⟩ <;> simp only [if_pos hp]
      · exact hleaf
      · exact fun _ => ⟨(hlink hl).1, .inr hp⟩
      · exact nofun
      · exact fun _ => hp
      · exact fun _ => hl
      · exact fun _ _ => by simp [NodeFlags.timed, hl]
      · exact fun _ hk' => by rw [hk] at hk'; cases hk'
    · refine ⟨hsize, ?_, ?_, ?_, ?_, ?_, ?_, ?_⟩ <;> simp only [if_neg hp]
      · exact hleaf
      · exact fun hl => ⟨(hlink hl).1, .inl ((hlink hl).2.resolve_right (not_mem_nil))⟩
      · exact fun ht => ⟨(htimer ht).1, hp⟩
      · exact fun he => absurd (hexpired he) not_mem_nil
      · exact fun hm => absurd hm hp
      · exact htip
      · exact hinner
  · -- its kid is in the timer list, so that it has left the list itself
    simp only [hlinked]
    refine Bool.eq_false_iff.2 fun hl => ?_
    have hmem := ((h.node p).link hl).2
    rw [hsplit] at hmem
    have hkid := ((h.node _).link ((h.node _).timer (hps _ hp)).1).1
    have hk := (h.node p).no_kids (hmem.resolve_right not_mem_nil)
    rw [hasKids_iff.2 ⟨b, hkid⟩] at hk
    cases hk

theorem mem_filter_ne {q : List UInt8} (h : q ≠ p) : q ∈ s.split.filter (· ≠ p) ↔ q ∈ s.split := by
  simp [h]

theorem not_mem_filter_ne : p ∉ s.split.filter (· ≠ p) := by
  simp

/-- A node that has got a kid since it was split off is unlinked. -/
theorem Timed.unlink (h : Timed maxHits len s) (hkids : hasKids s.tree p = true) : Timed maxHits len { s with
    split := s.split.filter (· ≠ p)
    flags := update s.flags p { s.flags p with linked := false, expired := false } } := by
  refine ⟨h.free, fun q => ?_, h.father, fun q b hq => ?_⟩
  · rcases eq_or_ne q p with rfl | hne
    · obtain ⟨hsize, hleaf, -, htimer, -, -, -, hinner⟩ := h.node q
      have htim : (s.flags q).inTimer = false := by
        refine Bool.eq_false_iff.2 fun ht => ?_
        rw [(h.node q).no_kids ht] at hkids
        cases hkids
      constructor <;> simp only [update_self, hkids, htim]
      · exact hsize
      · exact hleaf
      · exact nofun
      · exact nofun
      · exact nofun
      · exact fun hm => absurd hm not_mem_filter_ne
      · exact nofun
      · exact fun _ _ => ⟨trivial, trivial, nofun⟩
    · exact (h.node q).congr rfl rfl (update_of_ne hne ..) (mem_filter_ne hne)
  · have hold := h.below q b (mem_of_mem_filter hq)
    rcases eq_or_ne q p with rfl | hne
    · simp only [update_self]
    · simpa only [update_of_ne hne] using hold

/-- A node without kids is removed, and its father goes into the timer list with its last kid gone. -/
theorem Timed.remove (h : Timed maxHits len s) {d : List UInt8} {b : UInt8} {f : NodeFlags}
    (hp : d ++ [b] ∈ s.split) (hk : hasKids s.tree (d ++ [b]) = false)
    (hf : f = if d = [] ∨ hasKids (update s.tree (d ++ [b]) none) d = true then s.flags d
      else { s.flags d with linked := true, inTimer := true }) : Timed maxHits len { s with
        tree := update s.tree (d ++ [b]) none
        split := s.split.filter (· ≠ d ++ [b])
        flags := update (update s.flags (d ++ [b]) {}) d f } := by
  have hne : d ≠ d ++ [b] := by simp
  have hsome := ((h.node _).link ((h.node _).split hp)).1
  have hlinked := h.below d b hp
  have hsplit : d ∉ s.split := fun hd => by simp [(h.node d).split hd] at hlinked
  have hnone : ∀ q, q ∈ s.split.filter (· ≠ d ++ [b]) → q ∈ s.split := fun q => mem_of_mem_filter
  refine ⟨h.free, fun q => ?_, fun q b' hq hqne => ?_, fun q b' hq => ?_⟩
  · rcases eq_or_ne q d with rfl | hqd
    · obtain ⟨hsize, hleaf, hlink, htimer, hexpired, -, -, hinner⟩ := h.node q
      have hold : hasKids s.tree q = true := hasKids_iff.2 ⟨b, hsome⟩
      by_cases hkids : q = [] ∨ hasKids (update s.tree (q ++ [b]) none) q = true
      · rw [if_pos hkids] at hf
        by_cases hroot : q = []
        · have htree : ¬ (s.tree q).isSome = true := fun hq => by simpa [hroot] using (hsize hq).1
          constructor <;> simp only [update_self, update_of_ne hne, hf]
          · exact hsize
          · exact hleaf
          · exact fun hl => absurd (hlink hl).1 htree
          · exact fun ht => absurd (hlink (htimer ht).1).1 htree
          · exact fun he => absurd (hexpired he) hsplit
          · exact fun hm => absurd (hnone q hm) hsplit
          · exact fun hq => absurd hq htree
          · exact fun hq => absurd hq htree
        · refine (h.node q).congr ?_ ((hkids.resolve_left hroot).trans hold.symm) ?_ ?_
          · simp only [update_of_ne hne]
          · simp only [update_self, hf]
          · exact iff_of_false (fun hm => hsplit (hnone q hm)) hsplit
      · rw [if_neg hkids] at hf
        rw [not_or, Bool.not_eq_true] at hkids
        constructor <;> simp only [update_self, update_of_ne hne, hf, hkids.2]
        · exact hsize
        · exact hleaf
        · exact fun _ => ⟨h.father q b hsome hkids.1, .inl trivial⟩
        · exact fun _ => ⟨trivial, fun hm => hsplit (hnone q hm)⟩
        · exact fun he => absurd (hexpired he) hsplit
        · exact fun _ => trivial
        · exact fun _ _ => by simp [NodeFlags.timed]
        · exact nofun
    rcases eq_or_ne q (d ++ [b]) with rfl | hqp
    · constructor <;> simp
    · refine (h.node q).congr ?_ (hasKids_update _ hqd) ?_ (mem_filter_ne hqp)
      · simp only [update_of_ne hqp]
      · simp only [update_of_ne hqd, update_of_ne hqp]
  · dsimp only at hq ⊢
    have hqp : q ++ [b'] ≠ d ++ [b] := by
      rintro heq
      simp [heq] at hq
    rw [update_of_ne hqp] at hq
    rw [update_of_ne]
    · exact h.father q b' hq hqne
    · rintro rfl
      simp [hasKids_iff.2 ⟨b', hq⟩] at hk
  · dsimp only at hq ⊢
    have hold := h.below q b' (hnone _ hq)
    rcases eq_or_ne q d with rfl | hqd
    · have hkid := ((h.node _).link ((h.node _).split (hnone _ hq))).1
      have hqp : q ++ [b'] ≠ q ++ [b] := fun heq => not_mem_filter_ne (heq ▸ hq)
      rw [if_pos (.inr (hasKids_iff.2 ⟨b', by rwa [update_of_ne hqp]⟩))] at hf
      rwa [update_self, hf]
    rcases eq_or_ne q (d ++ [b]) with rfl | hqp
    · simp
    · rwa [update_of_ne hqd, update_of_ne hqp]

/-- What is split off can be cleaned. -/
theorem Timed.clean (h : Timed maxHits len s) (hp : p ∈ s.split) :
    ∃ s', cleanNode s p = some s' ∧ Timed maxHits len s' := by
  obtain ⟨hsize, -, hlink, htimer, -, hsplit, htip, hinner⟩ := h.node p
  have hsome := (hlink (hsplit hp)).1
  unfold cleanNode
  simp only
  by_cases hexp : (s.flags p).expired = true
  · have hkids : hasKids s.tree p = false := by
      refine Bool.eq_false_iff.2 fun hk => ?_
      have hin := (hinner hsome hk).1
      rw [hexp] at hin
      cases hin
    obtain ⟨d, b, rfl⟩ := eq_nil_or_concat' p |>.resolve_left (ne_nil_of_length_pos (hsize hsome).1)
    have hne : d ≠ d ++ [b] := by simp
    have hlen : d.length < len := by simpa [Nat.succ_le_iff] using (hsize hsome).2
    have hnoleaf := (h.node d).not_ipLeaf hlen
    have hremove := h.remove hp hkids rfl
    simp only [hexp, not_true_eq_false, if_false, hkids, Bool.false_eq_true, dropLast_concat, update_idem,
      update_of_ne hne, hnoleaf, h.below d b hp]
    by_cases hlast : d = [] ∨ hasKids (update s.tree (d ++ [b]) none) d = true
    · rw [if_pos hlast] at hremove ⊢
      rw [update_eq_self_iff.2 (update_of_ne hne ..).symm] at hremove
      exact ⟨_, rfl, hremove⟩
    · rw [if_neg hlast] at hremove ⊢
      exact ⟨_, rfl, by simpa only [hnoleaf] using hremove⟩
  · rw [if_pos hexp]
    refine ⟨_, rfl, h.unlink ?_⟩
    by_contra hk
    have htimed := htip hsome (Bool.eq_false_iff.2 hk)
    simp only [NodeFlags.timed, hexp, Bool.false_or, Bool.and_eq_true] at htimed
    exact (htimer htimed.2).2 hp

/-- Nothing fails an assertion while all addresses have one length. -/
theorem Timed.step {e} (h : Timed maxHits len s) (he : e.Enabled s) (hlen : e.OfLength len) :
    ∃ s', s.step maxHits e = some s' ∧ Timed maxHits len s' := by
  cases e with
  | request ip mem =>
    obtain ⟨hip, rfl⟩ := hlen
    obtain ⟨s', r, hs', h'⟩ := h.request ip.2 hip
    refine ⟨s'.count ip, by rw [State.step, hs']; rfl, ?_⟩
    exact ⟨h'.free, fun p => (h'.node p).congr rfl rfl rfl Iff.rfl, h'.father, h'.below⟩
  | swap branch =>
    have h' := h.swap he branch
    rw [State.step, h.free, if_neg Bool.false_ne_true]
    exact ⟨_, rfl, h'.free, fun p => (h'.node p).congr rfl rfl rfl Iff.rfl, h'.father, h'.below⟩
  | expire ps => exact ⟨_, rfl, h.expire he.1 he.2⟩
  | clean p =>
    rw [State.step, h.free, if_neg Bool.false_ne_true]
    exact h.clean he

theorem Timed.foldlM {events : List Event} (h : Timed maxHits len s)
    (horder : Along maxHits (fun s e => e.Enabled s) s events) (hlen : ∀ e ∈ events, e.OfLength len) :
    (events.foldlM (State.step maxHits) s).isSome = true := by
  induction events generalizing s with
  | nil => rfl
  | cons e events ih =>
    obtain ⟨s', hs', h'⟩ := h.step horder.1 (hlen e mem_cons_self)
    rw [List.foldlM_cons, hs']
    exact ih h' (horder.2 s' hs') fun e' he' => hlen e' (mem_cons_of_mem _ he')

/-- `2001:db8::`, and the IPv4 address of its first bytes. -/
def source6 : { ip : List UInt8 // IsAddr ip } :=
  ⟨[32, 1, 13, 184, 0, 0, 0, 0, 0, 0, 0, 0, 0, 0, 0, 0], by decide⟩

/-- With a limit of zero the path alone takes as many requests. And when five requests have made a
node for the fifth byte of an IPv6 address, the request of the IPv4 address in front of it fails an
assertion. -/
theorem zero_limit_missed :
    1 + (source.1.length - 1) * max 1 ((0 : UInt32).toNat / 4) + (0 : UInt32).toNat = 4 ∧
      (∀ n < 4, (run 0 (List.replicate n (.request source true))).bind
        (fun s => (pikeCheckReq 0 s source true).map Prod.snd) = some 1) ∧
      ((run 1 (List.replicate 5 (.request source6 true))).map
        fun s => (pikeCheckReq 1 s (source6.1.take 4) true).isSome) = some false := by
  decide +kernel

/-- An address whose branch is not swapped meanwhile cannot make more than so many requests that
return without one being refused; and all return while addresses have one length and there is
memory. -/
theorem flood_refused (maxHits : UInt32) (hpos : 1 ≤ maxHits) (hmax : maxHits < 0xffffffff)
    (before events : List Event)
    (ip : { ip : List UInt8 // IsAddr ip })
    (hspares : ∀ s, run maxHits before = some s → Along maxHits (Spares ip) s events)
    (hcount : 1 + (ip.1.length - 1) * max 1 (maxHits.toNat / 4) + maxHits.toNat ≤
      events.countP (Event.isRequest ip)) :
    ((∀ e ∈ before ++ events, e.OfLength ip.1.length) →
      Along maxHits (fun s e => e.Enabled s) .empty (before ++ events) →
      (run maxHits (before ++ events)).isSome = true) ∧
    ((run maxHits (before ++ events)).isSome = true → ∃ start rest s s',
      events = start ++ .request ip true :: rest ∧ run maxHits (before ++ start) = some s ∧
        pikeCheckReq maxHits s ip true = some (s', -1)) := by
  refine ⟨fun hlen horder => (timed_empty maxHits _).foldlM horder hlen, fun hrun => ?_⟩
  obtain ⟨s', hs'⟩ := isSome_iff_exists.1 hrun
  rw [run, foldlM_append] at hs'
  obtain ⟨s, hs, hs'⟩ := Option.bind_eq_some_iff.1 hs'
  by_contra hno
  have hleft := left_run hmax (hspares s hs) hs' fun start rest s₁ s₂ heq hstart h =>
    hno ⟨start, rest, s₁, s₂, heq, by rw [run, foldlM_append, hs]; exact hstart, h⟩
  have hle := left_le ip.2 s.tree maxHits
  have hpos := UInt32.le_iff_toNat_le.1 hpos
  unfold quarter at hle
  simp at hpos
  omega

/-- Five requests, with a limit of one. -/
theorem flood_refused_five : ∃ start rest s s',
    List.replicate 5 (.request source true) = start ++ .request source true :: rest ∧
      run 1 ([] ++ start) = some s ∧ pikeCheckReq 1 s source true = some (s', -1) := by
  obtain ⟨hreturn, hred⟩ := flood_refused 1 (by decide) (by decide) [] (List.replicate 5 (.request source true)) source
    (fun s _ => along_of_forall fun s e he => by rw [eq_of_mem_replicate he]; rfl) (by decide)
  refine hred (hreturn (fun e he => ?_) (along_of_forall fun s e he => ?_))
  · rw [eq_of_mem_replicate he]
    exact ⟨rfl, rfl⟩
  · rw [eq_of_mem_replicate he]
    trivial

end SipRouter.Pike
