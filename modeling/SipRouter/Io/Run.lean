import SipRouter.Io.Turns

/-!
# Runs of the I/O loop

A run of a process is any sequence of calls and passes. What was reported is said in terms
of what is watched, and the passes are shown to be the turns of what was reported.
-/

namespace SipRouter.Io

open List BitVec Function

/-! ## What is reported -/

/-- What is reported for a watch, when its descriptor is ready for some events. -/
def PollMethod.reports (method : PollMethod) (ready events : Events) : Events :=
  match method with
  | .poll => ready &&& (PollMethod.poll.asked events ||| pollerr ||| pollhup ||| pollnval)
  | .select => ready &&& events &&& (pollin ||| pollout)

/-- The turns of a pass: what is reported for each entry of the array. -/
def IoWait.reported (h : IoWait) (ready : Int → Events) : List Turn :=
  h.fdArray.map fun e => ⟨e.fd, h.method.reports (ready e.fd) (h.hash e.fd).events, (h.hash e.fd).since⟩

/-- Each watch has a number that was given. -/
def Watches.Numbered (w : Watches) : Prop := ∀ fd m, w.of fd = some m → m.since < w.adds

variable {w : Watches} {n r : Nat} {method : PollMethod} {max fd : Int} {sel : Int → Events}
  {io : HandleIo} {g h : IoWait} {ios : List HandleIo}

theorem Watches.Numbered.update (hn : w.Numbered) (fd : Int) {m}
    (hm : ∀ x, m = some x → x.since < n) (hle : w.adds ≤ n) : Watches.Numbered ⟨update w.of fd m, n⟩ := by
  intro fd' x hof
  rcases eq_or_ne fd' fd with rfl | hne
  · simp only [update_self] at hof
    exact hm x hof
  · simp only [update_of_ne hne] at hof
    exact (hn fd' x hof).trans_le hle

theorem Op.apply_numbered (hn : w.Numbered) (op : Op) : (op.apply method max w).Numbered := by
  cases op with
  | add fd events type fcntl =>
    simp only [Op.apply]
    split
    · apply hn.update fd
      · rintro x ⟨⟩
        exact Nat.lt_succ_self _
      · exact Nat.le_succ _
    · exact hn
  | del fd =>
    simp only [Op.apply]
    split
    · exact hn.update fd (by simp) le_rfl
    · exact hn
  | chg fd events =>
    simp only [Op.apply]
    split
    · apply hn.update fd
      · intro x hx
        obtain ⟨m, hm, rfl⟩ := Option.map_eq_some_iff.1 hx
        exact hn fd m hm
      · exact le_rfl
    · exact hn

theorem turns_numbered (hn : w.Numbered) (ts ios) : (turns method max ts w ios).2.Numbered := by
  have hfold : ∀ (ops : List Op) (w : Watches), w.Numbered → (ops.foldl (Op.apply method max) w).Numbered := by
    intro ops
    induction ops with
    | nil => exact fun w hw => hw
    | cons op ops ih => exact fun w hw => ih _ (Op.apply_numbered hw op)
  induction ts generalizing w ios with
  | nil => exact hn
  | cons t ts ih =>
    rw [turns]
    split
    · exact ih hn ios
    · split
      · exact ih (hfold _ _ hn) ios.tail
      · exact ih hn ios

theorem turns_sublist (method) (max : Int) (w ts ios) :
    (turns method max ts w ios).1.Sublist (ts.map fun t => ⟨t.fd, t.revents⟩) := by
  induction ts generalizing w ios with
  | nil => exact List.Sublist.refl _
  | cons t ts ih =>
    rw [turns, map_cons]
    split
    · exact (ih _ _).cons _
    · split
      · exact (ih _ _).cons_cons _
      · exact (ih _ _).cons _

/-! ## A pass -/

section Pass

variable {ready : Int → Events}

/-- The answer of `poll` is not part of what is watched. -/
theorem IoWait.Watch.polled (hw : h.Watch) (ready) : (h.polled ready).Watch := by
  have hmap : (h.polled ready).fdArray.map (·.fd) = h.fdArray.map (·.fd) := by
    simp only [IoWait.polled, map_map]
    rfl
  refine ⟨?_, fun fd => ?_, fun e he => ?_, ?_, hw.rset, hw.wset, ?_⟩
  · rw [hmap]
    exact hw.nodup
  · rw [hmap]
    exact hw.mem fd
  · obtain ⟨e', he', rfl⟩ := mem_map.1 he
    exact hw.events e' he'
  · rw [hmap]
    exact hw.range
  · rw [hmap]
    exact hw.max

/-- At the start of a pass each entry has its turn to come. -/
theorem Cut.start {ts} (hw : h.Watch) (hn : h.watches.Numbered)
    (hts : ts = h.fdArray.map fun e => ⟨e.fd, h.revents sel e, (h.hash e.fd).since⟩) :
    Cut h sel ts [] h.fdArray [] := by
  have hof : ∀ e ∈ h.fdArray, h.watches.of e.fd = some (h.hash e.fd) := fun e he =>
    if_neg ((hw.mem e.fd).1 (mem_map_of_mem he))
  subst hts
  refine ⟨by simp, ?_, by simp, fun t ht => ?_⟩
  · rw [filter_eq_self.2, map_map]
    · rfl
    · intro t ht
      obtain ⟨e, he, rfl⟩ := mem_map.1 ht
      exact Turn.due_iff.2 ⟨_, hof e he, rfl⟩
  · obtain ⟨e, he, rfl⟩ := mem_map.1 ht
    exact hn e.fd _ (hof e he)

/-- What `select` puts in its sets for a descriptor that is watched. -/
theorem selected_eq (hw : h.Watch) (hs : h.method = .select) (hfd : fd ∈ h.fdArray.map (·.fd)) :
    h.selected ready fd = PollMethod.select.reports (ready fd) (h.hash fd).events := by
  have hmax := hw.max hs fd hfd
  have htype := (hw.mem fd).1 hfd
  have hset : ∀ {set : Int → Bool} {i : Nat}, i < 16 → Tracks set (1#16 <<< i) h.hash →
      (if set fd && meets (ready fd) (1#16 <<< i) then 1#16 <<< i
        else 0) = ready fd &&& (h.hash fd).events &&& 1#16 <<< i := by
    intro set i hi htracks
    have hiff : set fd = meets (h.hash fd).events (1#16 <<< i) := by
      rw [Bool.eq_iff_iff, htracks fd]
      exact and_iff_right htype
    rw [and_bit, hiff, meets_bit hi, meets_bit hi, getLsbD_and, Bool.and_comm]
  rw [IoWait.selected, if_pos hmax, pollin, pollout, hset (by decide) (hw.rset hs),
    hset (by decide) (hw.wset hs), ← and_or_distrib_left]
  rfl

theorem countP_le_sum {α : Type} {p f} (l : List α) (hp : ∀ x, p x = true → 1 ≤ f x) : l.countP p ≤ (l.map f).sum := by
  induction l with
  | nil => exact le_rfl
  | cons x l ih =>
    rw [countP_cons, map_cons, sum_cons]
    split
    · have := hp x ‹_›
      omega
    · omega

/-- `select` counts at least one bit for each entry of the array that it reports. -/
theorem countP_le_selectCount (hw : h.Watch) (hs : h.method = .select) :
    h.fdArray.countP (fun e => h.revents (h.selected ready) e ≠ 0) ≤ h.selectCount ready := by
  have hone : ∀ fd, decide (h.selected ready fd ≠ 0) = true →
      1 ≤ (meets (h.selected ready fd) pollin).toNat + (meets (h.selected ready fd) pollout).toNat := by
    intro fd hfd
    have hbits : ∀ r w : Bool, (if r then pollin else 0) ||| (if w then pollout else 0) ≠ 0 →
        1 ≤ (meets ((if r then pollin else 0) ||| (if w then pollout else 0)) pollin).toNat +
          (meets ((if r then pollin else 0) ||| (if w then pollout else 0)) pollout).toNat := by decide
    have hne := of_decide_eq_true hfd
    unfold IoWait.selected at hne ⊢
    split at hne
    · rw [if_pos ‹_›]
      exact hbits _ _ hne
    · exact absurd rfl hne
  have hsub : h.fdArray.map (·.fd) ⊆ (List.range (h.maxFdSelect + 1).toNat).map fun (fd : Nat) => (fd : Int) := by
    intro fd hfd
    have hle := hw.max hs fd hfd
    have hge : 0 ≤ fd := (of_decide_eq_true (hw.range fd hfd)).1
    exact mem_map.2 ⟨fd.toNat, mem_range.2 (by omega), by omega⟩
  have hcount := (hw.nodup.subperm hsub).countP_le fun fd => decide (h.selected ready fd ≠ 0)
  rw [countP_map, countP_map] at hcount
  calc h.fdArray.countP (fun e => h.revents (h.selected ready) e ≠ 0)
    _ = h.fdArray.countP ((fun fd => decide (h.selected ready fd ≠ 0)) ∘ fun e => e.fd) := by
      simp only [IoWait.revents, hs]
      rfl
    _ ≤ (List.range (h.maxFdSelect + 1).toNat).countP
      ((fun fd => decide (h.selected ready fd ≠ 0)) ∘ fun (fd : Nat) => (fd : Int)) := hcount
    _ ≤ h.selectCount ready := countP_le_sum _ fun fd hfd => hone fd hfd

/-- A pass is the turns of what was reported. -/
theorem pass_turns (hw : h.Watch) (hn : h.watches.Numbered) (hv : Scripts h.room ios)
    (hcalm : h.method = .select → Calms (h.selected ready) ios) :
    Agrees h (h.pass ready ios) (turns h.method h.maxFdNo (h.reported ready) h.watches ios) := by
  unfold IoWait.pass
  cases hm : h.method with
  | poll =>
    have hts : h.reported ready = (h.polled ready).fdArray.map fun e =>
        ⟨e.fd, (h.polled ready).revents (fun _ => 0) e, ((h.polled ready).hash e.fd).since⟩ := by
      have hpolled : (h.polled ready).method = .poll := hm
      simp only [IoWait.reported, IoWait.revents, hpolled, hm]
      simp only [IoWait.polled, map_map]
      apply map_congr_left
      intro e he
      simp only [comp_apply, PollMethod.reports, hw.events e he, hm]
    have hstart := Cut.start (hw.polled ready) hn hts
    have hcount : (h.polled ready).fdArray.countP (fun e => (h.polled ready).revents (fun _ => 0) e ≠ 0) ≤
        (h.polled ready).fdArray.countP fun e => e.revents != 0 := by
      have hpolled : (h.polled ready).method = .poll := hm
      apply le_of_eq
      apply countP_congr
      intro e _
      simp [IoWait.revents, hpolled]
    have hloop := loop_turns (hw.polled ready) hstart hcount hv fun hs => absurd (hm.symm.trans hs) (by decide)
    have hmethod : (h.polled ready).method = .poll := hm
    rw [hmethod] at hloop
    exact ⟨⟨hloop.watch, hloop.method, hloop.max⟩, hloop.calls, hloop.watches⟩
  | select =>
    have hts : h.reported ready = h.fdArray.map fun e =>
        ⟨e.fd, h.revents (h.selected ready) e, (h.hash e.fd).since⟩ := by
      apply map_congr_left
      intro e he
      simp only [IoWait.revents, hm, selected_eq hw hm (mem_map_of_mem he)]
    have hloop := loop_turns hw (Cut.start hw hn hts) (countP_le_selectCount hw hm) hv hcalm
    rw [hm] at hloop
    exact hloop

end Pass

/-! ## Inside a pass -/

/-- A script that stops early. -/
def HandleIo.Starts (io' io : HandleIo) : Prop :=
  (io'.chgs <+: io.chgs ∧ io'.del = false ∧ io'.rest = []) ∨
    (io'.chgs = io.chgs ∧ io'.del = io.del ∧ io'.rest <+: io.rest)

/-- The states the loop goes through in the calls of `handle_io`: after each call that a script makes. -/
inductive Visits (sel : Int → Events) : Nat → Nat → IoWait → List HandleIo → IoWait → Prop
  | here {n r r' : Nat} {h : IoWait} {ios : List HandleIo} {e : PollFd} (io : HandleIo)
      (next : h.nextReady sel r = some r')
      (entry : h.fdArray[r']? = some e) (called : h.called sel e = true)
        (starts : io.Starts (ios.headD ⟨[], false, []⟩)) :
      Visits sel (n + 1) r h ios (io.run e.fd r' { h with crt := r' })
  | call {n r r' : Nat} {h h' g : IoWait} {ios : List HandleIo} {e : PollFd} (next : h.nextReady sel r = some r')
      (entry : h.fdArray[r']? = some e) (called : h.called sel e = true)
      (run : h' = (ios.headD ⟨[], false, []⟩).run e.fd r' { h with crt := r' })
      (rest : Visits sel n (h'.crt + 1).toNat h' ios.tail g) : Visits sel (n + 1) r h ios g
  | skip {n r r' : Nat} {h g : IoWait} {ios : List HandleIo} {e : PollFd} (next : h.nextReady sel r = some r')
      (entry : h.fdArray[r']? = some e) (skipped : h.called sel e = false)
        (rest : Visits sel n (r' + 1) (h.skip e r') ios g) :
      Visits sel (n + 1) r h ios g

/-- The states inside a pass. -/
def IoWait.Inside (h : IoWait) (ready : Int → Events) (ios : List HandleIo) (g : IoWait) : Prop :=
  match h.method with
  | .poll => Visits (fun _ => 0) ((h.polled ready).fdArray.countP fun e => e.revents != 0) 0 (h.polled ready) ios g
  | .select => Visits (h.selected ready) (h.selectCount ready) 0 h ios g

theorem HandleIo.Starts.valid {io' : HandleIo} (hs : io'.Starts io)
    (hv : ∀ op ∈ io.ops fd, op.Valid max) : ∀ op ∈ io'.ops fd, op.Valid max := by
  have hrest : ∀ op ∈ io'.rest, op.Valid max := by
    intro op hop
    rcases hs with ⟨-, -, hnil⟩ | ⟨-, -, hinit⟩
    · rw [hnil] at hop
      exact absurd hop not_mem_nil
    · exact hv op (mem_append_right _ (hinit.subset hop))
  apply @headD_ops [io'] (Op.Valid max) (fun _ _ => trivial) (fun _ => trivial) ?_ fd
  intro io hio
  rw [mem_singleton.1 hio]
  exact hrest

theorem HandleIo.run_keeps (hw : h.Watch) {e : PollFd} (hr : h.fdArray[r]? = some e)
    (hv : ∀ op ∈ io.ops e.fd, op.Valid h.room) : Keeps h (io.run e.fd r { h with crt := r }) := by
  rw [HandleIo.run_eq io (hw.withCrt r) hr]
  obtain ⟨hk, -⟩ := foldl_keeps (io.ops e.fd) (hw.withCrt r) hv
  exact ⟨hk.watch, hk.method, hk.max⟩

theorem Visits.watch (hvisit : Visits sel n r h ios g) (hw : h.Watch) (hv : Scripts h.room ios) : g.Watch := by
  induction hvisit with
  | here io next entry called starts =>
    have hvalid := headD_ops (fun _ _ => trivial) (fun _ => trivial) hv
    exact (HandleIo.run_keeps hw entry (starts.valid (hvalid _))).watch
  | call next entry called run rest ih =>
    have hvalid := headD_ops (fun _ _ => trivial) (fun _ => trivial) hv
    have hk := HandleIo.run_keeps hw entry (hvalid _)
    rw [← run] at hk
    exact ih hk.watch fun io hio => by rw [IoWait.room_congr hk.method hk.max]; exact hv io (mem_of_mem_tail hio)
  | skip next entry skipped rest ih =>
    rw [skip_eq hw (mem_of_getElem? entry)] at ih
    exact ih (hw.withCrt _) hv

theorem IoWait.Inside.watch {ready} (hi : h.Inside ready ios g) (hw : h.Watch)
    (hv : Scripts h.room ios) : g.Watch := by
  unfold IoWait.Inside at hi
  split at hi
  · exact hi.watch (hw.polled ready) hv
  · exact hi.watch hw hv

/-! ## Runs -/

/-- `init_io_wait`. -/
def IoWait.init (method : PollMethod) (max : Int) : IoWait where
  method := method
  maxFdNo := max
  hash := fun _ => ⟨0, 0, 0⟩
  fdArray := []
  crt := 0
  rset := fun _ => false
  wset := fun _ => false
  maxFdSelect := 0
  adds := 0

/-- What a process does: a call, or a pass with the descriptors ready for some events. -/
inductive Act where
  | call (op : Op)
  | pass (ready : Int → Events) (ios : List HandleIo)

def Act.run (h : IoWait) : Act → IoWait
  | .call op => op.run h
  | .pass ready ios => (h.pass ready ios).2

/-- The calls are valid, and with `select` a descriptor that was reported is not added before the pass is over. -/
def Act.Fine (h : IoWait) : Act → Prop
  | .call op => op.Valid h.room
  | .pass ready ios => Scripts h.room ios ∧ (h.method = .select → Calms (h.selected ready) ios)

/-- The states of a process. -/
inductive Reaches : IoWait → Prop
  | init (method : PollMethod) (max : Int) : Reaches (IoWait.init method max)
  | step {h : IoWait} (act : Act) (reach : Reaches h) (fine : act.Fine h) : Reaches (act.run h)

theorem init_watch : (IoWait.init method max).Watch := by
  refine ⟨nodup_nil, fun fd => ?_, fun e he => ?_, fun fd hfd => ?_, fun _ fd => ?_, fun _ fd => ?_,
    fun _ fd hfd => ?_⟩
  · simp [IoWait.init]
  · exact absurd he not_mem_nil
  · exact absurd hfd not_mem_nil
  · simp [IoWait.init]
  · simp [IoWait.init]
  · exact absurd hfd not_mem_nil

theorem Reaches.watch (hr : Reaches h) : h.Watch ∧ h.watches.Numbered := by
  induction hr with
  | init method max =>
    refine ⟨init_watch, fun fd m hof => ?_⟩
    simp [IoWait.watches, IoWait.init] at hof
  | step act _ fine ih =>
    obtain ⟨hw, hn⟩ := ih
    cases act with
    | call op =>
      have hd := Op.run_does hw fine
      refine ⟨hd.watch, ?_⟩
      rw [Act.run, hd.watches]
      exact Op.apply_numbered hn op
    | pass ready ios =>
      have hp := pass_turns hw hn fine.1 fine.2
      refine ⟨hp.watch, ?_⟩
      rw [Act.run, hp.watches]
      exact turns_numbered hn _ _

/-- The array has each descriptor with a type in the hash once, and no other, with the events it is watched for. -/
structure IoWait.Lists (h : IoWait) : Prop where
  once : (h.fdArray.map (·.fd)).Nodup
  mem : ∀ fd, fd ∈ h.fdArray.map (·.fd) ↔ (h.hash fd).type ≠ 0
  events : ∀ e ∈ h.fdArray, e.events = h.method.asked (h.hash e.fd).events

theorem IoWait.Watch.lists (hw : h.Watch) : h.Lists := ⟨hw.nodup, hw.mem, hw.events⟩

/-- Two descriptors are watched. -/
def sampleHandler : IoWait :=
  Act.run (Act.run (.init .poll 8) (.call (.add 3 pollin 1 true)))
    (.call (.add 4 (pollin ||| pollout) 1 true))

/-- The first descriptor is closed, the other is not watched any more and a new one is. -/
def sampleScripts : List HandleIo := [⟨[], true, [.del 4, .add 5 pollin 1 true]⟩]

theorem sampleHandler_reaches : Reaches sampleHandler :=
  .step _ (.step _ (.init .poll 8) ⟨by decide, by decide⟩) ⟨by decide, by decide⟩

theorem sampleScripts_valid : Scripts 8 sampleScripts := by
  simp [Scripts, sampleScripts, Op.Valid, inHash]

/-- In every state of a run, also inside the passes, the array is right; and the calls of
`handle_io` in a pass are one for each watch that was reported ready for an event it is still for
when its turn comes. -/
theorem io_loop_exact {h : IoWait} (hr : Reaches h) :
    h.Lists ∧
      ∀ ready ios, (Act.pass ready ios).Fine h →
        (∀ g, h.Inside ready ios g → g.Lists) ∧
          (h.pass ready ios).1 = (turns h.method h.maxFdNo (h.reported ready) h.watches ios).1 ∧
          (h.pass ready ios).2.watches = (turns h.method h.maxFdNo (h.reported ready) h.watches ios).2 ∧
          ((h.pass ready ios).1.map (·.fd)).Nodup := by
  obtain ⟨hw, hn⟩ := hr.watch
  refine ⟨hw.lists, fun ready ios hfine => ?_⟩
  have hp := pass_turns hw hn hfine.1 hfine.2
  refine ⟨fun g hg => (hg.watch hw hfine.1).lists, hp.calls, hp.watches, ?_⟩
  rw [hp.calls]
  have hsub := (turns_sublist h.method h.maxFdNo h.watches (h.reported ready) ios).map (·.fd)
  rw [map_map, IoWait.reported, map_map] at hsub
  exact hsub.nodup hw.nodup

theorem io_loop_exact_sample :
    sampleHandler.Lists ∧
      (sampleHandler.pass (fun _ => pollin) sampleScripts).1 =
        (turns .poll 8 (sampleHandler.reported fun _ => pollin) sampleHandler.watches sampleScripts).1 ∧
      (sampleHandler.pass (fun _ => pollin) sampleScripts).1 = [⟨3, pollin⟩] := by
  have hfine : (Act.pass (fun _ => pollin) sampleScripts).Fine sampleHandler :=
    ⟨sampleScripts_valid, fun hs => absurd hs (by decide)⟩
  obtain ⟨hlists, hpass⟩ := io_loop_exact sampleHandler_reaches
  exact ⟨hlists, (hpass _ _ hfine).2.1, by decide⟩

/-- With `select` a descriptor that is ready for reading and writing is called twice in a pass if it
is deleted and added again; and with `poll` the array has an event that the hash has not. -/
theorem select_calls_twice :
    (∃ h, Reaches h ∧ h.method = .select ∧
        (h.pass (fun _ => pollin ||| pollout) [⟨[], true, [.add 3 (pollin ||| pollout) 1 true]⟩]).1 =
          [⟨3, pollin ||| pollout⟩, ⟨3, pollin ||| pollout⟩]) ∧
      ∃ h, Reaches h ∧ h.method = .poll ∧ ∃ e ∈ h.fdArray, e.events ≠ (h.hash e.fd).events := by
  refine ⟨⟨Act.run (.init .select 8) (.call (.add 3 (pollin ||| pollout) 1 true)), ?_, rfl, by decide⟩,
    sampleHandler, sampleHandler_reaches, rfl, ⟨3, pollin ||| pollrdhup, 0⟩, ?_, by decide⟩
  · exact .step _ (.init .select 8) ⟨by decide, by decide⟩
  · exact mem_cons_self

/-- With `select` the sets have the descriptors that are watched for their event, in every state of
a run; all are in the hash, in the sets and not above the number that `select` is given. -/
theorem select_sets_exact {h : IoWait} (hr : Reaches h) (hsel : h.method = .select) :
    Tracks h.rset pollin h.hash ∧ Tracks h.wset pollout h.hash ∧
      ∀ fd, h.rset fd = true ∨ h.wset fd = true →
        inHash h.maxFdNo fd = true ∧ inHash fdSetSize fd = true ∧ fd ≤ h.maxFdSelect := by
  obtain ⟨hw, -⟩ := hr.watch
  have hr := hw.rset hsel
  have hwr := hw.wset hsel
  refine ⟨hr, hwr, fun fd hset => ?_⟩
  have hmem : fd ∈ h.fdArray.map (·.fd) :=
    (hw.mem fd).2 (hset.elim (fun h => ((hr fd).1 h).1) fun h => ((hwr fd).1 h).1)
  have hroom := hw.range fd hmem
  refine ⟨IoWait.inHash_maxFdNo hroom, ?_, hw.max hsel fd hmem⟩
  simp only [IoWait.room, hsel, inHash, decide_eq_true_eq] at hroom ⊢
  omega

theorem select_sets_exact_one :
    let h := Act.run (.init .select 8) (.call (.add 3 pollin 1 true))
    h.rset 3 = true ∧ (h.rset 3 = true ∨ h.wset 3 = true →
      inHash h.maxFdNo 3 = true ∧ inHash fdSetSize 3 = true ∧ (3 : Int) ≤ h.maxFdSelect) :=
  have hr := Reaches.step (.call (.add 3 pollin 1 true)) (.init .select 8) ⟨by decide, by decide⟩
  ⟨by decide, (select_sets_exact hr rfl).2.2 3⟩

end SipRouter.Io
