import SipRouter.Io.Watch

/-!
# A pass of the I/O loop

Each descriptor that was reported has its turn, in the order of the array: `handle_io` is
called if it is still the same watch, and one for an event that was reported. The loop
over a changing array does exactly that. With `select` one condition is needed, since its
answer is kept by descriptor: a descriptor that was reported is not added again before the
pass is over.
-/

namespace SipRouter.Io

open Function Lib List

/-! ## What a pass is for -/

/-- A watch that was in the array, and what was reported for it. -/
structure Turn where
  fd : Int
  revents : Events
  since : Nat

/-- The events a watch is for: errors are always reported by `poll`. -/
def PollMethod.heard (method : PollMethod) (events : Events) : Events :=
  match method with
  | .poll => events ||| pollerr ||| pollhup
  | .select => events

/-- The calls of a script of `handle_io` for its descriptor. -/
def HandleIo.ops (io : HandleIo) (fd : Int) : List Op :=
  io.chgs.map (.chg fd) ++ (if io.del then [.del fd] else []) ++ io.rest

/-- Each turn, in order. -/
def turns (method : PollMethod) (max : Int) : List Turn → Watches → List HandleIo → List Call × Watches
  | [], w, _ => ([], w)
  | t :: ts, w, ios =>
    match w.of t.fd with
    | none => turns method max ts w ios
    | some m =>
      if m.since = t.since ∧ meets t.revents (method.heard m.events) then
        let w' := ((ios.headD ⟨[], false, []⟩).ops t.fd).foldl (Op.apply method max) w
        let rest := turns method max ts w' ios.tail
        (⟨t.fd, t.revents⟩ :: rest.1, rest.2)
      else turns method max ts w ios

/-- The watch is still the one that was reported. -/
def Turn.due (w : Watches) (t : Turn) : Bool := (w.of t.fd).any fun m => m.since = t.since

/-! ## The array in a pass -/

/-- The array has the entries the loop has passed, those whose turn will come, and new ones for
which nothing is reported. -/
structure Cut (h : IoWait) (sel : Int → Events) (ts : List Turn) (a b c : List PollFd) : Prop where
  array : h.fdArray = a ++ b ++ c
  due : b.map (fun e => (e.fd, h.revents sel e)) = (ts.filter (Turn.due h.watches)).map fun t => (t.fd, t.revents)
  fresh : ∀ e ∈ c, h.revents sel e = 0
  since : ∀ t ∈ ts, t.since < h.adds

variable {w : Watches} {method : PollMethod} {max : Int} {e : PollFd}

section Cut

variable {h h' : IoWait} {sel : Int → Events} {ts : List Turn} {a b c : List PollFd}

theorem revents_eq (hm : h'.method = h.method) {e' : PollFd} (hfd : e'.fd = e.fd) (hr : e'.revents = e.revents) :
    h'.revents sel e' = h.revents sel e := by
  simp only [IoWait.revents, hm, hfd, hr]

theorem Turn.due_iff {t : Turn} : t.due w = true ↔ ∃ m, w.of t.fd = some m ∧ m.since = t.since := by
  cases hw : w.of t.fd <;> simp [Turn.due, hw]

theorem Turn.due_congr {w' : Watches} {t : Turn} (hw : w'.of t.fd = w.of t.fd) : t.due w' = t.due w := by
  rw [Turn.due, Turn.due, hw]

/-- What a call leaves of the cut: the loop has passed the entries in front of its index, and no
turn comes up again. -/
structure Cut.Moves (h h' : IoWait) (sel : Int → Events) (ts : List Turn) (b a' b' c' : List PollFd) : Prop extends
    Cut h' sel ts a' b' c' where
  crt : (a'.length : Int) = h'.crt + 1
  fewer : (b'.map fun e => (e.fd, h'.revents sel e)).Sublist (b.map fun e => (e.fd, h.revents sel e))

/-- The call takes nothing out of the array. -/
theorem Cut.moves {a' b' c' : List PollFd} (hc : Cut h sel ts a b c) (hm : h'.method = h.method)
    (harray : h'.fdArray = a' ++ b' ++ c')
    (hb : b'.map (fun e => (e.fd, h.revents sel e)) = b.map fun e => (e.fd, h.revents sel e))
    (hdue : ∀ t ∈ ts, t.due h'.watches = t.due h.watches) (hfresh : ∀ e ∈ c', h.revents sel e = 0)
    (hadds : h.adds ≤ h'.adds)
    (hcrt : (a'.length : Int) = h'.crt + 1) : Cut.Moves h h' sel ts b a' b' c' := by
  have hsame : ∀ e, h'.revents sel e = h.revents sel e := fun e => revents_eq hm rfl rfl
  refine ⟨⟨harray, ?_, fun e he => ?_, fun t ht => (hc.since t ht).trans_le hadds⟩, hcrt, ?_⟩
  · simp only [hsame]
    rw [hb, hc.due, filter_congr hdue]
  · rw [hsame]
    exact hfresh e he
  · simp only [hsame]
    rw [hb]

/-- A descriptor that is taken out takes its turn with it, and the loop goes on behind the same entry. -/
theorem Cut.del (hc : Cut h sel ts a b c) (hm : h'.method = h.method) (hn : (h.fdArray.map (·.fd)).Nodup)
    (hcrt : (a.length : Int) = h.crt + 1) {fd : Int} (array : h'.fdArray = h.fdArray.filter fun e => e.fd ≠ fd)
    (crt : h'.crt = if (h.fdArray.findIdx fun e => e.fd = fd) ≤ h.crt ∧ 0 ≤ h.crt then h.crt - 1 else h.crt)
    (watches : h'.watches = ⟨update h.watches.of fd Option.none, h.adds⟩) :
    ∃ a' b' c', Cut.Moves h h' sel ts b a' b' c' := by
  have hsame : ∀ e, h'.revents sel e = h.revents sel e := fun e => revents_eq hm rfl rfl
  have hdue : ∀ t : Turn, t.due h'.watches = (t.due h.watches && decide (t.fd ≠ fd)) := by
    intro t
    rcases eq_or_ne t.fd fd with hfd | hfd
    · simp [Turn.due, watches, hfd]
    · have hof : h'.watches.of t.fd = h.watches.of t.fd := by rw [watches]; exact update_of_ne hfd _ _
      simp [Turn.due_congr hof, hfd]
  refine ⟨a.filter fun e => e.fd ≠ fd, b.filter fun e => e.fd ≠ fd, c.filter fun e => e.fd ≠ fd,
    ⟨⟨?_, ?_, fun e he => ?_, fun t ht => ?_⟩, ?_, ?_⟩⟩
  · rw [array, hc.array, filter_append, filter_append]
  · simp only [hsame]
    have hb : (b.filter fun e => e.fd ≠ fd).map (fun e => (e.fd, h.revents sel e)) =
        (b.map fun e => (e.fd, h.revents sel e)).filter fun x => x.1 ≠ fd := by
      rw [filter_map]
      rfl
    have hts : (ts.filter (Turn.due h'.watches)).map (fun t => (t.fd, t.revents)) =
        ((ts.filter (Turn.due h.watches)).map fun t => (t.fd, t.revents)).filter fun x => x.1 ≠ fd := by
      rw [filter_map, filter_filter]
      congr 1
      apply filter_congr
      intro t _
      rw [hdue t, Bool.and_comm]
      rfl
    rw [hb, hts, hc.due]
  · rw [hsame]
    exact hc.fresh e (mem_of_mem_filter he)
  · have hadds : h'.adds = h.adds := congrArg Watches.adds watches
    rw [hadds]
    exact hc.since t ht
  · have hna : (a.map (·.fd)).Nodup := by
      rw [hc.array, append_assoc, map_append] at hn
      exact hn.of_append_left
    rw [hc.array, append_assoc] at crt
    have hiff : ((a ++ (b ++ c)).findIdx fun e => e.fd = fd) < a.length ↔ fd ∈ a.map (·.fd) := findIdx_key_append
    by_cases hfd : fd ∈ a.map (·.fd)
    · have hlen := length_filter_key hna hfd
      have hlt := hiff.2 hfd
      rw [if_pos (by omega)] at crt
      omega
    · have hge : ¬ ((a ++ (b ++ c)).findIdx fun e => e.fd = fd) < a.length := fun hlt => hfd (hiff.1 hlt)
      rw [if_neg (by omega)] at crt
      rw [filter_key_of_notMem hfd, crt]
      exact hcrt
  · simp only [hsame]
    exact filter_sublist.map _

theorem Effect.cut (he : Effect h h') (hm : h'.method = h.method)
    (hn : (h.fdArray.map (·.fd)).Nodup) (hc : Cut h sel ts a b c)
    (hcrt : (a.length : Int) = h.crt + 1)
    (hadd : h.method = .select → ∀ fd, h.watches.of fd = none → h'.watches.of fd ≠ none →
      sel fd = 0) :
    ∃ a' b' c', Cut.Moves h h' sel ts b a' b' c' := by
  cases he with
  | keep array crt watches =>
    refine ⟨a, b, c, hc.moves hm (array.trans hc.array) rfl (fun t _ => by rw [watches]) hc.fresh ?_
      (by rw [crt]; exact hcrt)⟩
    exact (congrArg Watches.adds watches).ge
  | add fd m events free since array crt watches =>
    refine ⟨a, b, c ++ [⟨fd, events, 0⟩],
      hc.moves hm ?_ rfl (fun t ht => ?_) (fun e he => ?_) ?_ (by rw [crt]; exact hcrt)⟩
    · rw [array, hc.array, append_assoc]
    · rcases eq_or_ne t.fd fd with hfd | hfd
      · have hlt := hc.since t ht
        have hne : ¬ m.since = t.since := by omega
        simp [Turn.due, watches, hfd, free, hne]
      · exact Turn.due_congr (by rw [watches]; exact update_of_ne hfd _ _)
    · rcases mem_append.1 he with he | he
      · exact hc.fresh e he
      · rw [mem_singleton.1 he]
        cases hmethod : h.method with
        | poll => simp [IoWait.revents, hmethod]
        | select =>
          simp only [IoWait.revents, hmethod]
          exact hadd hmethod fd free (by rw [watches]; simp)
    · exact (Nat.le_succ _).trans (congrArg Watches.adds watches).ge
  | del fd array crt watches => exact hc.del hm hn hcrt array crt watches
  | chg fd m m' events old since array crt watches =>
    let f := fun e : PollFd => if e.fd = fd then { e with events := events } else e
    have hcore : ∀ e, ((f e).fd, h.revents sel (f e)) = (e.fd, h.revents sel e) := by
      intro e
      simp only [f]
      split <;> rfl
    refine ⟨a.map f, b.map f, c.map f,
      hc.moves hm ?_ ?_ (fun t _ => ?_) (fun e he => ?_) (congrArg Watches.adds watches).ge ?_⟩
    · rw [array, hc.array, map_append, map_append]
    · rw [map_map]
      exact map_congr_left fun e _ => hcore e
    · rcases eq_or_ne t.fd fd with hfd | hfd
      · simp [Turn.due, watches, hfd, old, since]
      · exact Turn.due_congr (by rw [watches]; exact update_of_ne hfd _ _)
    · obtain ⟨e', he', rfl⟩ := mem_map.1 he
      exact (Prod.mk.inj (hcore e')).2.trans (hc.fresh e' he')
    · rw [length_map, crt]
      exact hcrt

end Cut

/-! ## One call of `handle_io` -/

/-- The call adds no descriptor that was reported. -/
def Op.Calm (sel : Int → Events) : Op → Prop
  | .add fd _ _ _ => sel fd = 0
  | _ => True

theorem Watches.update_none {fd fd' v} (hnone : w.of fd = none) (hv : fd = fd' → v = none) :
    update w.of fd' v fd = none := by
  rcases eq_or_ne fd fd' with rfl | hne
  · exact (update_self _ _ _).trans (hv rfl)
  · exact (update_of_ne hne _ _).trans hnone

theorem Op.Calm.apply {sel} {op : Op} (hc : op.Calm sel) {fd}
    (hnone : w.of fd = none) (hsome : (op.apply method max w).of fd ≠ none) : sel fd = 0 := by
  cases op with
  | add fd' events type fcntl =>
    rcases eq_or_ne fd fd' with rfl | hne
    · exact hc
    · refine absurd ?_ hsome
      simp only [Op.apply]
      split
      · exact Watches.update_none hnone fun heq => absurd heq hne
      · exact hnone
  | del fd' =>
    refine absurd ?_ hsome
    simp only [Op.apply]
    split
    · exact Watches.update_none hnone fun _ => rfl
    · exact hnone
  | chg fd' events =>
    refine absurd ?_ hsome
    simp only [Op.apply]
    split
    · exact Watches.update_none hnone fun heq => by rw [← heq, hnone]; rfl
    · exact hnone

section Calls

variable {h : IoWait} {sel : Int → Events} {ts : List Turn} {a b c : List PollFd}

/-- The calls keep what is watched right, and do what they are for. -/
structure Keeps (h h' : IoWait) : Prop where
  watch : h'.Watch
  method : h'.method = h.method
  max : h'.maxFdNo = h.maxFdNo

section

variable (ops : List Op) (hw : h.Watch) (hv : ∀ op ∈ ops, op.Valid h.room)

include ops hw hv

theorem foldl_keeps : Keeps h (ops.foldl Op.run h) ∧ (ops.foldl Op.run h).watches = ops.foldl
    (Op.apply h.method h.maxFdNo) h.watches := by
  induction ops generalizing h with
  | nil => exact ⟨⟨hw, rfl, rfl⟩, rfl⟩
  | cons op ops ih =>
    have hd := Op.run_does hw (hv op (mem_cons_self))
    obtain ⟨hk, hwatches⟩ :=
      ih hd.watch fun op' hop' =>
        IoWait.room_congr hd.method hd.max ▸ hv op' (mem_cons_of_mem _ hop')
    refine ⟨⟨hk.watch, hk.method.trans hd.method, hk.max.trans hd.max⟩, ?_⟩
    rw [foldl_cons, hwatches, hd.watches, hd.method, hd.max, foldl_cons]

theorem foldl_cut (hcalm : h.method = .select → ∀ op ∈ ops, op.Calm sel) (hc : Cut h sel ts a b c)
    (hcrt : (a.length : Int) = h.crt + 1) :
    ∃ a' b' c', Cut.Moves h (ops.foldl Op.run h) sel ts b a' b' c' := by
  induction ops generalizing h a b c with
  | nil => exact ⟨a, b, c, ⟨hc, hcrt, List.Sublist.refl _⟩⟩
  | cons op ops ih =>
    have hd := Op.run_does hw (hv op (mem_cons_self))
    obtain ⟨a1, b1, c1, h1⟩ := hd.effect.cut hd.method hw.nodup hc hcrt fun hs fd hnone hsome =>
      (hcalm hs op (mem_cons_self)).apply hnone (hd.watches ▸ hsome)
    obtain ⟨a2, b2, c2, h2⟩ :=
      ih hd.watch (fun op' hop' => IoWait.room_congr hd.method hd.max ▸ hv op'
        (mem_cons_of_mem _ hop'))
      (fun hs op' hop' => hcalm (hd.method ▸ hs) op' (mem_cons_of_mem _ hop')) h1.toCut h1.crt
    exact ⟨a2, b2, c2, ⟨h2.toCut, h2.crt, h2.fewer.trans h1.fewer⟩⟩

end

variable {r : Nat} {events : Events}

section

variable (hn : (h.fdArray.map (·.fd)).Nodup) (hr : h.fdArray[r]? = some e)

include hn hr

theorem fixIdx_own : h.fixIdx e.fd (some r) = h.fixIdx e.fd none := (findIdx_key_eq hn hr).symm

theorem ioWatchChg_own : h.ioWatchChg e.fd events (some r) = h.ioWatchChg e.fd events none := by
  have hidx := fixIdx_own hn hr
  simp only [IoWait.ioWatchChg, IoWait.fdArrayChg, IoWait.fixIdx, IoWait.setEvents, IoWait.selectChg] at hidx ⊢
  rw [hidx]

theorem ioWatchDel_own : h.ioWatchDel e.fd (some r) = h.ioWatchDel e.fd none := by
  have hidx := fixIdx_own hn hr
  have hfix : ∀ g : IoWait, g.fdArray = h.fdArray → g.fixFdArray e.fd (some r) = g.fixFdArray e.fd none := by
    intro g hg
    have hg : g.fixIdx e.fd (some r) = g.fixIdx e.fd none := by
      simp only [IoWait.fixIdx, hg] at hidx ⊢
      exact hidx
    simp only [IoWait.fixFdArray, hg]
  unfold IoWait.ioWatchDel
  rw [hfix (h.unhashFdMap e.fd) rfl, hfix ((h.unhashFdMap e.fd).selectClr e.fd (h.hash e.fd).events) rfl]

end

/-- The own descriptor is still at its index after a change of its events. -/
theorem chg_index (hr : h.fdArray[r]? = some e) :
    ∃ e', ((Op.chg e.fd events).run h).fdArray[r]? = some e' ∧ e'.fd = e.fd := by
  simp only [Op.run, IoWait.ioWatchChg]
  split
  · exact ⟨e, hr, rfl⟩
  · split
    · exact ⟨e, hr, rfl⟩
    · split
      · exact ⟨e, hr, rfl⟩
      · have hmod : ∀ (i : Nat) (ev : Events), ∃ e',
            (h.fdArray.modify i fun e => { e with events := ev })[r]? = some e' ∧ e'.fd = e.fd := by
          intro i ev
          rw [getElem?_modify, hr]
          by_cases hi : i = r
          · exact ⟨{ e with events := ev }, by simp [hi], rfl⟩
          · exact ⟨e, by simp [hi], rfl⟩
        cases h.method with
        | poll | select => exact hmod _ _

theorem HandleIo.run_eq (io : HandleIo) (hw : h.Watch) (hr : h.fdArray[r]? = some e) :
    io.run e.fd r h = (io.ops e.fd).foldl Op.run h := by
  obtain ⟨chgs, del, rest⟩ := io
  induction chgs generalizing h e with
  | nil =>
    cases del with
    | false => rfl
    | true =>
      simp only [HandleIo.run, HandleIo.ops, foldl_nil, map_nil, if_true, nil_append, singleton_append,
        foldl_cons, ioWatchDel_own hw.nodup hr]
      rfl
  | cons events chgs ih =>
    have hd := @Op.run_does h hw (.chg e.fd events) trivial
    obtain ⟨e', hr', hfd⟩ := chg_index hr
    have hih := ih hd.watch hr'
    simp only [HandleIo.run, HandleIo.ops, foldl_cons, map_cons, cons_append, hfd] at hih ⊢
    rw [ioWatchChg_own hw.nodup hr]
    exact hih

end Calls

/-! ## The loop -/

section Loop

variable {h : IoWait} {sel : Int → Events} {ts : List Turn} {a b c : List PollFd} {t : Turn}

theorem counted_of_zero (hz : h.revents sel e = 0) : h.counted sel e = false := by
  unfold IoWait.counted
  rw [hz]
  cases h.method with
  | poll => exact zero_meets
  | select => rfl

theorem nextReady_end (ha : h.fdArray = a ++ c) (hf : ∀ e ∈ c, h.revents sel e = 0) :
    h.nextReady sel a.length = none := by
  rw [IoWait.nextReady, ha, drop_left, findIdx?_eq_none_iff.2, Option.map_none]
  exact fun e he => counted_of_zero (hf e he)

section

variable {ios : List HandleIo}

variable (ha : h.fdArray = a ++ e :: c)

include ha

theorem nextReady_here (he : h.counted sel e = true) : h.nextReady sel a.length = some a.length := by
  rw [IoWait.nextReady, ha, drop_left, findIdx?_cons, if_pos he, Option.map_some, add_zero]

theorem nextReady_pass (he : h.counted sel e = false) : h.nextReady sel a.length = h.nextReady sel (a.length + 1) := by
  have hdrop : (a ++ e :: c).drop (a.length + 1) = c := by
    rw [← drop_drop, drop_left]
    rfl
  rw [IoWait.nextReady, IoWait.nextReady, ha, drop_left, hdrop, findIdx?_cons, if_neg (by simp [he]), Option.map_map]
  congr 1
  funext i
  simp only [comp_apply]
  omega

theorem loop_pass (he : h.counted sel e = false) {n} :
    IoWait.loop sel n a.length h ios = IoWait.loop sel n (a.length + 1) h ios := by
  cases n with
  | zero => rfl
  | succ n => simp only [IoWait.loop, nextReady_pass ha he]

/-- The loop comes to an entry that is counted. -/
theorem loop_here (he : h.counted sel e = true) {n} :
    IoWait.loop sel (n + 1) a.length h ios =
      if h.called sel e then
        (⟨e.fd, h.revents sel e⟩ ::
            (IoWait.loop sel n
              (((ios.headD ⟨[], false, []⟩).run e.fd a.length { h with crt := a.length }).crt + 1).toNat
              ((ios.headD ⟨[], false, []⟩).run e.fd a.length { h with crt := a.length }) ios.tail).1,
          (IoWait.loop sel n
            (((ios.headD ⟨[], false, []⟩).run e.fd a.length { h with crt := a.length }).crt + 1).toNat
            ((ios.headD ⟨[], false, []⟩).run e.fd a.length { h with crt := a.length }) ios.tail).2)
      else IoWait.loop sel n (a.length + 1) (h.skip e a.length) ios := by
  have hget : h.fdArray[a.length]? = some e := by rw [ha, getElem?_append_right le_rfl, Nat.sub_self]; rfl
  simp only [IoWait.loop, nextReady_here ha he, hget]

end

/-- A turn that is due is the next entry. -/
theorem Cut.head (hc : Cut h sel (t :: ts) a b c) (hdue : t.due h.watches = true) :
    ∃ e b', b = e :: b' ∧ e.fd = t.fd ∧ h.revents sel e = t.revents ∧ Cut h sel ts (a ++ [e]) b' c := by
  have hdues := hc.due
  rw [filter_cons_of_pos hdue, map_cons] at hdues
  cases b with
  | nil => simp at hdues
  | cons e b' =>
    rw [map_cons, List.cons.injEq, Prod.mk.injEq] at hdues
    refine ⟨e, b', rfl, hdues.1.1, hdues.1.2, ?_, hdues.2, hc.fresh, fun t ht => hc.since t (mem_cons_of_mem _ ht)⟩
    rw [hc.array, append_assoc, append_assoc, append_assoc]
    rfl

theorem Cut.skip (hc : Cut h sel (t :: ts) a b c) (hdue : t.due h.watches = false) : Cut h sel ts a b c := by
  have hdues := hc.due
  rw [filter_cons_of_neg (by simp [hdue])] at hdues
  exact ⟨hc.array, hdues, hc.fresh, fun t ht => hc.since t (mem_cons_of_mem _ ht)⟩

/-- The index of the loop is not part of what is watched. -/
theorem IoWait.Watch.withCrt (hw : h.Watch) (r : Int) : IoWait.Watch { h with crt := r } :=
  ⟨hw.nodup, hw.mem, hw.events, hw.range, hw.rset, hw.wset, hw.max⟩

theorem Cut.withCrt (hc : Cut h sel ts a b c) (r : Int) : Cut { h with crt := r } sel ts a b c :=
  ⟨hc.array, hc.due, hc.fresh, hc.since⟩

/-- An entry of the array that is counted is called if its watch is for the event. -/
theorem called_iff (hw : h.Watch) (he : e ∈ h.fdArray) (hcount : h.counted sel e = true) :
    h.called sel e = meets (h.revents sel e) (h.method.heard (h.hash e.fd).events) := by
  have hmem : e.fd ∈ h.fdArray.map (·.fd) := mem_map_of_mem he
  have htype := (hw.mem e.fd).1 hmem
  have hsane : h.sane e = true := IoWait.inHash_maxFdNo (hw.range e.fd hmem)
  unfold IoWait.called IoWait.counted at *
  cases hm : h.method with
  | poll =>
    rw [hm] at hcount
    simp [hsane, htype, PollMethod.heard, hcount]
  | select => simp [htype, PollMethod.heard, meets_comm]

theorem skip_eq (hw : h.Watch) (he : e ∈ h.fdArray) {r} : h.skip e r = { h with crt := r } := by
  have hsane : h.sane e = true := IoWait.inHash_maxFdNo (hw.range e.fd (mem_map_of_mem he))
  apply if_neg
  simp [hsane]

theorem heard_of_not_counted (hcount : h.counted sel e = false) :
    meets (h.revents sel e) (h.method.heard (h.hash e.fd).events) = false := by
  unfold IoWait.counted at hcount
  cases hm : h.method with
  | poll => simpa [hm, PollMethod.heard] using hcount
  | select =>
    have hz : h.revents sel e = 0 := by simpa [hm] using hcount
    rw [hz]
    exact zero_meets

/-- What the loop did, and what the turns are. -/
structure Agrees (h : IoWait) (r : List Call × IoWait) (t : List Call × Watches) : Prop extends Keeps h r.2 where
  calls : r.1 = t.1
  watches : r.2.watches = t.2

variable {ios : List HandleIo}

theorem turns_skip (hdue : t.due w = false) : turns method max (t :: ts) w ios = turns method max ts w ios := by
  rw [turns]
  cases hof : w.of t.fd with
  | none => rfl
  | some m =>
    have hne : ¬ m.since = t.since := fun heq => by simp [Turn.due, hof, heq] at hdue
    simp [hne]

theorem turns_due {m} (hof : w.of t.fd = some m) (hsince : m.since = t.since) : turns method max (t :: ts) w ios =
      if meets t.revents (method.heard m.events) then (⟨t.fd, t.revents⟩ ::
            (turns method max ts (((ios.headD ⟨[], false, []⟩).ops t.fd).foldl (Op.apply method max) w) ios.tail).1,
          (turns method max ts (((ios.headD ⟨[], false, []⟩).ops t.fd).foldl (Op.apply method max) w) ios.tail).2)
      else turns method max ts w ios := by
  rw [turns, hof]
  simp only [hsince, true_and]

/-- The scripts call `io_watch_add` with a type and a descriptor that the hash has room for. -/
def Scripts (max : Int) (ios : List HandleIo) : Prop := ∀ io ∈ ios, ∀ op ∈ io.rest, op.Valid max

/-- The scripts add no descriptor that was reported. -/
def Calms (sel : Int → Events) (ios : List HandleIo) : Prop := ∀ io ∈ ios, ∀ op ∈ io.rest, op.Calm sel

/-- What holds of every call that is not about the own descriptor holds of every call. -/
theorem headD_ops {P : Op → Prop} (hchg : ∀ fd events, P (.chg fd events)) (hdel : ∀ fd, P (.del fd))
    (hP : ∀ io ∈ ios, ∀ op ∈ io.rest, P op) (fd : Int) : ∀ op ∈ (ios.headD ⟨[], false, []⟩).ops fd, P op := by
  have hone : ∀ io : HandleIo, (∀ op ∈ io.rest, P op) → ∀ op ∈ io.ops fd, P op := by
    intro io hrest op hop
    rw [HandleIo.ops, mem_append, mem_append, mem_map] at hop
    rcases hop with (⟨events, -, rfl⟩ | hop) | hop
    · exact hchg fd events
    · split at hop
      · rw [mem_singleton.1 hop]
        exact hdel fd
      · exact absurd hop not_mem_nil
    · exact hrest op hop
  cases ios with
  | nil => exact hone _ fun op hop => absurd hop not_mem_nil
  | cons io ios => exact hone io (hP io mem_cons_self)

/-- The loop gives each entry its turn. -/
theorem loop_turns {n : Nat} (hw : h.Watch) (hc : Cut h sel ts a b c)
    (hn : b.countP (fun e => h.revents sel e ≠ 0) ≤ n) (hv : Scripts h.room ios)
    (hcalm : h.method = .select → Calms sel ios) :
    Agrees h (IoWait.loop sel n a.length h ios) (turns h.method h.maxFdNo ts h.watches ios) := by
  induction ts generalizing n h a b c ios with
  | nil =>
    have hb : b = [] := map_eq_nil_iff.1 hc.due
    have ha : h.fdArray = a ++ c := by rw [hc.array, hb, append_nil]
    have hend : IoWait.loop sel n a.length h ios = ([], h) := by
      cases n with
      | zero => rfl
      | succ n => simp only [IoWait.loop, nextReady_end ha hc.fresh]
    rw [hend]
    exact ⟨⟨hw, rfl, rfl⟩, rfl, rfl⟩
  | cons t ts ih =>
    cases hdue : t.due h.watches with
    | false =>
      rw [turns_skip hdue]
      exact ih hw (hc.skip hdue) hn hv hcalm
    | true =>
      obtain ⟨e, b, rfl, hfd, hrev, hc'⟩ := hc.head hdue
      have ha : h.fdArray = a ++ e :: (b ++ c) := by rw [hc.array, append_assoc]; rfl
      have he : e ∈ h.fdArray := by rw [ha]; exact mem_append_right _ mem_cons_self
      have hget : h.fdArray[a.length]? = some e := by rw [ha, getElem?_append_right le_rfl, Nat.sub_self]; rfl
      have hlen : (a ++ [e]).length = a.length + 1 := by simp
      obtain ⟨m, hof, hsince⟩ := Turn.due_iff.1 hdue
      have hm : m = h.hash e.fd := by
        have hsome : h.watches.of e.fd = some (h.hash e.fd) := if_neg ((hw.mem e.fd).1 (mem_map_of_mem he))
        rw [hfd, hof] at hsome
        exact Option.some.inj (by rw [hsome, hfd])
      subst hm
      rw [turns_due hof hsince, ← hrev]
      rw [countP_cons] at hn
      cases hcount : h.counted sel e with
      | false =>
        -- the loop passes over the entry
        rw [heard_of_not_counted hcount, if_neg (by decide), loop_pass ha hcount, ← hlen]
        exact ih hw hc' (by omega) hv hcalm
      | true =>
        have hne : h.revents sel e ≠ 0 := fun hz => by rw [counted_of_zero hz] at hcount; cases hcount
        rw [if_pos (by simpa using hne)] at hn
        obtain ⟨n, rfl⟩ : ∃ k, n = k + 1 := ⟨n - 1, by omega⟩
        rw [loop_here ha hcount, called_iff hw he hcount]
        split
        · -- the call, after which the index says where the rest begins
          have hrun := HandleIo.run_eq (ios.headD ⟨[], false, []⟩) (hw.withCrt a.length) hget
          have hvalid := headD_ops (fun _ _ => trivial) (fun _ => trivial) hv e.fd
          obtain ⟨hk, hwatches⟩ := foldl_keeps ((ios.headD ⟨[], false, []⟩).ops e.fd) (hw.withCrt a.length) hvalid
          obtain ⟨a', b', c', hmoves⟩ := foldl_cut _ (hw.withCrt a.length) hvalid
            (fun hs => headD_ops (fun _ _ => trivial) (fun _ => trivial) (hcalm hs) e.fd)
              (hc'.withCrt a.length) (by simp)
          have hfewer := (hmoves.fewer.map Prod.snd).countP_le (p := fun x => x ≠ 0)
          rw [map_map, map_map, countP_map, countP_map] at hfewer
          have hstep := ih hk.watch hmoves.toCut (hfewer.trans (Nat.le_of_succ_le_succ hn))
            (fun io hio => by rw [IoWait.room_congr hk.method hk.max]; exact hv io (mem_of_mem_tail hio))
            (fun hs io hio => hcalm (hk.method ▸ hs) io (mem_of_mem_tail hio))
          have hidx : (((ios.headD ⟨[], false, []⟩).run e.fd a.length
              { h with crt := a.length }).crt + 1).toNat = a'.length := by
            rw [hrun]
            have := hmoves.crt
            omega
          rw [hidx, hrun]
          rw [hwatches, hk.method, hk.max] at hstep
          rw [← hfd]
          exact ⟨⟨hstep.watch, hstep.method.trans hk.method, hstep.max.trans hk.max⟩,
            congrArg _ hstep.calls, hstep.watches⟩
        · rw [skip_eq hw he, ← hlen]
          have hstep := ih (hw.withCrt a.length) (hc'.withCrt a.length) (Nat.le_of_succ_le_succ hn) hv hcalm
          exact ⟨⟨hstep.watch, hstep.method, hstep.max⟩, hstep.calls, hstep.watches⟩

end Loop

end SipRouter.Io
