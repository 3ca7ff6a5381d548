import SipRouter.Parser.Headers

/-!
# Lazy parsing finds what a full parse finds

A field that was found depends on nothing but its offset, so the fields follow each other
in one way only: `Walk` says that a list is a first part of them. A call extends the list
and keeps every pointer at the first field of its type. It goes on at `unparsed`, which is
the end of the list as long as no call has returned -1 after it found a field.
-/

namespace SipRouter.Parser

open SipMsg List Function
open BitVec hiding or_self
open Option hiding map_map or_self

variable {V T : Type} {s : List UInt8} {P : Bodies V T}

/-! ## One field -/

/-- The number of the values of a `Via`. -/
def HdrField.values (hf : HdrField V T) : Nat :=
  match hf.parsed with
  | .via _ next => next.length + 1
  | _ => 0

theorem parseHname2_used {name} (h : parseHname2 s = some name) : 0 < name.used := by
  have hother : ∀ {p : Nat} {name : HName}, otherName s p = some name → 0 < name.used := by
    intro p name h
    obtain ⟨i, -, rfl⟩ := map_eq_some_iff.1 h
    exact Nat.succ_pos _
  have hnames : ∀ e ∈ names, 0 < (Msg.bytes e.1).length := by decide +kernel
  unfold parseHname2 at h
  split at h
  · cases h
  · split at h
    · rename_i name' hfound
      cases h
      cases hsome : names.findSome? (ofName s) with
      | some found =>
        obtain ⟨e, he, hof⟩ := exists_of_findSome?_eq_some hsome
        rw [hsome, getD_some] at hfound
        subst hfound
        unfold ofName at hof
        split at hof
        · split at hof
          · cases hof
            exact hnames e he
          · cases hof
        · cases hof
      | none =>
        rw [hsome, getD_none] at hfound
        unfold ofCompact at hfound
        (repeat' split at hfound) <;> cases hfound <;> exact Nat.succ_pos _
    · unfold dcEnd at h
      simp only at h
      split at h
      · cases h
        exact Nat.succ_pos _
      · exact hother h
    · exact hother h

theorem parseBody_via {type n parsed}
    (h : parseBody P type s = some (n, parsed)) : type = .via ↔ ∃ v next, parsed = .via v next := by
  cases type <;> simp only [parseBody, reduceCtorEq, false_iff, true_iff, map_eq_some_iff, Prod.mk.injEq] at h ⊢
  all_goals
    obtain ⟨r, -, -, rfl⟩ := h
    first | exact ⟨_, _, rfl⟩ | rintro ⟨v, next, ⟨⟩⟩

variable {hf : HdrField V T} {msg : SipMsg V T} {start : Nat}

theorem getHdrField_field {buf tmp} (h : getHdrField P buf tmp = .field hf) :
    hf.start = tmp ∧ 0 < hf.len ∧ (hf.type = .via ↔ ∃ v next, hf.parsed = .via v next) := by
  unfold getHdrField at h
  simp only at h
  split at h
  · cases h
  · split at h
    · cases h
    · rename_i name hname
      split at h
      · cases h
      · split at h
        · cases h
        · rename_i n parsed hbody
          cases h
          have hused := parseHname2_used hname
          exact ⟨rfl, by simp only; omega, parseBody_via hbody⟩

/-! ## The pointers -/

/-- The values of all the `Via` fields, in order. -/
def viaRefs (hs : List (HdrField V T)) : List (Nat × Nat) :=
  hs.zipIdx.flatMap fun e => (List.range e.1.values).map fun k => (e.2, k)

theorem viaRefs_append (hs : List (HdrField V T)) (hf : HdrField V T) :
    viaRefs (hs ++ [hf]) = viaRefs hs ++ (List.range hf.values).map fun k => (hs.length, k) := by
  simp [viaRefs, zipIdx_append]

/-- Every pointer is at the first field of its type in the list, and there is none if there is no such field. -/
structure Points (msg : SipMsg V T) : Prop where
  linked : ∀ type : HdrType, type.unlinked = false → msg.first type = msg.headers.findIdx? fun hf => hf.type = type
  unlinked : ∀ type : HdrType, type.unlinked = true → msg.first type = none
  via1 : msg.via1 = (viaRefs msg.headers)[0]?
  via2 : msg.via2 = (viaRefs msg.headers)[1]?
  hVia1 : msg.hVia1 = (viaRefs msg.headers)[0]?.map Prod.fst
  hVia2 : msg.hVia2 = (viaRefs msg.headers)[1]?.bind fun r => if r.2 = 0 then some r.1 else none

theorem init_points : Points (SipMsg.init start : SipMsg V T) := ⟨fun _ _ => rfl, fun _ _ => rfl, rfl, rfl, rfl, rfl⟩

theorem findIdx?_type (hs : List (HdrField V T)) (hf : HdrField V T) (type : HdrType) :
    (hs ++ [hf]).findIdx? (fun hf => hf.type = type) =
      (hs.findIdx? fun hf => hf.type = type).or (if hf.type = type then some hs.length else none) := by
  rw [findIdx?_append]
  congr 1
  by_cases h : hf.type = type <;> simp [findIdx?_cons, h]

/-- A field that is not a `Via`. -/
theorem Points.add_first (h : Points msg) (hnot : ∀ v next, hf.parsed ≠ .via v next) : Points (msg.add hf) := by
  have hvalues : hf.values = 0 := by
    unfold HdrField.values
    split
    · rename_i v next heq
      exact absurd heq (hnot v next)
    · rfl
  have hadd : msg.add hf = { msg.addFirst hf.type with headers := (msg.addFirst hf.type).headers ++ [hf] } := by
    unfold SipMsg.add
    split
    · rename_i v next heq
      exact absurd heq (hnot v next)
    · rfl
  have hrefs : viaRefs (msg.headers ++ [hf]) = viaRefs msg.headers := by simp [viaRefs_append, hvalues]
  rw [hadd]
  unfold SipMsg.addFirst
  split
  · rename_i hun
    refine ⟨fun type hlinked => ?_, h.unlinked, ?_, ?_, ?_, ?_⟩
    · have hne : hf.type ≠ type := by
        rintro rfl
        rw [hun] at hlinked
        cases hlinked
      rw [findIdx?_type, if_neg hne, or_none]
      exact h.linked type hlinked
    all_goals simp only [hrefs]
    exacts [h.via1, h.via2, h.hVia1, h.hVia2]
  · rename_i hun
    refine ⟨fun type hlinked => ?_, fun type hunlinked => ?_, ?_, ?_, ?_, ?_⟩
    · simp only [findIdx?_type, ← h.linked type hlinked]
      rcases eq_or_ne hf.type type with rfl | hne
      · cases hfirst : msg.first hf.type with
        | none => simp
        | some i => simp [hfirst]
      · rw [if_neg hne, or_none]
        split
        · exact update_of_ne hne.symm _ _
        · rfl
    · have hne : type ≠ hf.type := by
        rintro rfl
        exact hun hunlinked
      simp only
      split
      · exact (update_of_ne hne _ _).trans (h.unlinked type hunlinked)
      · exact h.unlinked type hunlinked
    all_goals simp only [hrefs]
    exacts [h.via1, h.via2, h.hVia1, h.hVia2]

/-- A `Via`. -/
theorem Points.add_via (h : Points msg) {v next} (hparsed : hf.parsed = .via v next)
    (htype : hf.type = .via) : Points (msg.add hf) := by
  have hvalues : hf.values = next.length + 1 := by simp [HdrField.values, hparsed]
  have hrefs : viaRefs (msg.headers ++ [hf]) = viaRefs msg.headers ++
      (List.range (next.length + 1)).map fun k => (msg.headers.length, k) := by
    rw [viaRefs_append, hvalues]
  have hlinked : ∀ type : HdrType, type.unlinked = false →
      (msg.headers ++ [hf]).findIdx? (fun hf => hf.type = type) = msg.first type := by
    intro type hl
    have hne : hf.type ≠ type := by
      rw [htype]
      rintro rfl
      cases hl
    rw [findIdx?_type, if_neg hne, or_none, h.linked type hl]
  have hadd : msg.add hf = { msg.addVia next with headers := (msg.addVia next).headers ++ [hf] } := by
    unfold SipMsg.add
    rw [hparsed]
  have h1 := h.via1
  have h2 := h.via2
  have h3 := h.hVia1
  have h4 := h.hVia2
  have hrange : (List.range (next.length + 1)).map (fun k => (msg.headers.length, k)) =
      (msg.headers.length, 0) :: (List.range next.length).map fun k => (msg.headers.length, k + 1) := by
    rw [range_succ_eq_map, map_cons, map_map]
    rfl
  rw [hrange] at hrefs
  rw [hadd]
  unfold SipMsg.addVia
  cases hold : viaRefs msg.headers with
  | nil =>
    rw [hold] at h1 h2 h3 h4 hrefs
    cases next with
    | nil =>
      simp only [h1, getElem?_nil, if_true]
      refine ⟨fun type hl => (hlinked type hl).symm, h.unlinked, ?_, ?_, ?_, ?_⟩
      all_goals simp [hrefs, h2, h4]
    | cons v' vs =>
      simp only [h1, getElem?_nil, if_true, reduceCtorEq, if_false]
      refine ⟨fun type hl => (hlinked type hl).symm, h.unlinked, ?_, ?_, ?_, ?_⟩
      all_goals simp [hrefs, h4, range_succ_eq_map]
  | cons r rs =>
    rw [hold] at h1 h2 h3 h4 hrefs
    cases rs with
    | nil =>
      simp only [h1, h2, getElem?_cons_zero, getElem?_cons_succ, getElem?_nil, reduceCtorEq, if_false, if_true]
      refine ⟨fun type hl => (hlinked type hl).symm, h.unlinked, ?_, ?_, ?_, ?_⟩
      all_goals simp [hrefs, h3]
    | cons r' rs =>
      simp only [h1, h2, getElem?_cons_zero, getElem?_cons_succ, reduceCtorEq, if_false]
      refine ⟨fun type hl => (hlinked type hl).symm, h.unlinked, ?_, ?_, ?_, ?_⟩
      all_goals simp [hrefs, h3, h4]

theorem Points.add (h : Points msg) (hvia : hf.type = .via ↔ ∃ v next, hf.parsed = .via v next) :
    Points (msg.add hf) := by
  by_cases htype : hf.type = .via
  · obtain ⟨v, next, hparsed⟩ := hvia.1 htype
    exact h.add_via hparsed htype
  · exact h.add_first fun v next hparsed => htype (hvia.2 ⟨v, next, hparsed⟩)

/-! ## The fields of a message -/

section Walk

variable {buf : List UInt8} {s start : Nat} {hs hs' : List (HdrField V T)}

/-- The fields follow each other from an offset on. -/
inductive Walk (P : Bodies V T) (buf : List UInt8) : Nat → List (HdrField V T) → Prop
  | nil {s : Nat} : Walk P buf s []
  | cons {s : Nat} {hf : HdrField V T} {hs : List (HdrField V T)} (inside : s < buf.length)
      (got : getHdrField P buf s = .field hf)
      (rest : Walk P buf (s + hf.len) hs) : Walk P buf s (hf :: hs)

/-- Where they end. -/
def endOf (s : Nat) (hs : List (HdrField V T)) : Nat := hs.foldl (fun p hf => p + hf.len) s

/-- The headers end at an offset. -/
def AtEoh (P : Bodies V T) (buf : List UInt8) (p : Nat) : Prop := getHdrField P buf p = .eoh

/-- No field is found at an offset. -/
def Stuck (P : Bodies V T) (buf : List UInt8) (p : Nat) : Prop :=
  ∀ hf, p < buf.length → getHdrField P buf p ≠ .field hf

theorem AtEoh.stuck {p} (h : AtEoh P buf p) : Stuck P buf p := by
  intro hf _ hgot
  rw [AtEoh.eq_1] at h
  rw [h] at hgot
  cases hgot

section

variable (hw : Walk P buf s hs)

include hw

theorem Walk.snoc (hin : endOf s hs < buf.length)
    (hgot : getHdrField P buf (endOf s hs) = .field hf) : Walk P buf s (hs ++ [hf]) := by
  induction hw with
  | nil => exact .cons hin hgot .nil
  | cons inside got rest ih => exact .cons inside got (ih hin hgot)

/-- The fields are found in one way only. -/
theorem Walk.isInit (hw' : Walk P buf s hs') (hstuck : Stuck P buf (endOf s hs')) : hs <+: hs' := by
  induction hw generalizing hs' with
  | nil => exact nil_prefix
  | cons inside got rest ih =>
    cases hw' with
    | nil => exact absurd got (hstuck _ inside)
    | cons inside' got' rest' =>
      rw [got, Got.field.injEq] at got'
      subst got'
      exact cons_prefix_cons.2 ⟨rfl, ih rest' hstuck⟩

theorem Walk.start_le : ∀ hf ∈ hs, s ≤ hf.start := by
  induction hw with
  | nil => exact fun hf hmem => absurd hmem not_mem_nil
  | cons inside got rest ih =>
    obtain ⟨hstart, -, -⟩ := getHdrField_field got
    intro hf hmem
    rcases mem_cons.1 hmem with rfl | hmem
    · exact hstart.ge
    · have := ih hf hmem
      omega

/-- No field is found twice. -/
theorem Walk.nodup : (hs.map (·.start)).Nodup := by
  induction hw with
  | nil => exact nodup_nil
  | cons inside got rest ih =>
    obtain ⟨hstart, hlen, -⟩ := getHdrField_field got
    rw [map_cons, nodup_cons]
    refine ⟨fun hmem => ?_, ih⟩
    obtain ⟨hf, hmem, heq⟩ := mem_map.1 hmem
    have := rest.start_le hf hmem
    omega

end

/-- The end of the last field of a list. -/
def listEnd (start : Nat) (hs : List (HdrField V T)) : Nat :=
  match hs.getLast? with
  | none => start
  | some hf => hf.start + hf.len

theorem Walk.listEnd_eq (hw : Walk P buf s hs) : listEnd s hs = endOf s hs := by
  induction hw with
  | nil => rfl
  | @cons s hf hs inside got rest ih =>
    obtain ⟨hstart, -, -⟩ := getHdrField_field got
    cases hs with
    | nil => simp [listEnd, endOf, hstart]
    | cons hf' hs' =>
      rw [listEnd, getLast?_cons_cons]
      simp only [endOf, foldl_cons] at ih ⊢
      rw [← ih]
      simp only [listEnd]
      cases hlast : (hf' :: hs').getLast? with
      | none => simp at hlast
      | some hf => rfl

end Walk

/-! ## The loop -/

section Loop

variable {P : Bodies V T} {buf : List UInt8} {start tmp fuel mem : Nat} {flags : HdrFlags} {msg : SipMsg V T}

/-- The first bit of the flags is only set at the end of the headers. -/
def SipMsg.ended (msg : SipMsg V T) : Bool := msg.parsedFlag.getLsbD 0

theorem ended_add {hf} : (msg.add hf).ended = msg.ended := by
  have hflag : ∀ type : HdrType, type.unlinked = false → type.flag.getLsbD 0 = false := by
    intro type
    cases type <;> decide
  have hvia : HdrType.via.flag.getLsbD 0 = false := by decide
  have hvia2 : HdrType.via2.flag.getLsbD 0 = false := by decide
  unfold SipMsg.add
  split
  · simp only [SipMsg.ended, SipMsg.addVia]
    split
    all_goals split <;> simp only [getLsbD_or, hvia, hvia2, Bool.or_false]
  · simp only [SipMsg.ended, SipMsg.addFirst]
    split
    · rfl
    · rename_i hun
      simp only [getLsbD_or, hflag hf.type (by simpa using hun), Bool.or_false]

@[simp] theorem headers_add (hf : HdrField V T) : (msg.add hf).headers = msg.headers ++ [hf] := by
  unfold SipMsg.add
  split
  · simp only [SipMsg.addVia]
    split
    all_goals split <;> rfl
  · simp only [SipMsg.addFirst]
    split <;> rfl

theorem eoh_add {hf} : (msg.add hf).eoh = msg.eoh := by
  unfold SipMsg.add
  split
  · simp only [SipMsg.addVia]
    split
    all_goals split <;> rfl
  · simp only [SipMsg.addFirst]
    split <;> rfl

theorem endOf_append (s : Nat) (hs : List (HdrField V T)) (hf : HdrField V T) :
    endOf s (hs ++ [hf]) = endOf s hs + hf.len := by
  simp [endOf]

/-- What the loop leaves: a list that was extended, and its pointers. -/
structure Extends (P : Bodies V T) (buf : List UInt8) (start : Nat) (msg msg' : SipMsg V T) : Prop where
  walk : Walk P buf start msg'.headers
  points : Points msg'
  ended : msg'.ended = true → msg.ended = true ∨ AtEoh P buf (endOf start msg'.headers)
  eoh : msg'.eoh = msg.eoh ∨ msg'.eoh = some (endOf start msg'.headers)
  seen : msg'.ended = true → msg.ended = false → msg'.eoh = some (endOf start msg'.headers)
  still : AtEoh P buf (endOf start msg.headers) → msg'.headers = msg.headers

theorem Extends.refl (hw : Walk P buf start msg.headers) (hp : Points msg) : Extends P buf start msg msg :=
  ⟨hw, hp, .inl, .inl rfl, fun h h' => absurd (h.symm.trans h') (by decide), fun _ => rfl⟩

/-- The loop goes on at the end of the list and stops there. -/
theorem loop_extends (hw : Walk P buf start msg.headers) (hp : Points msg) (htmp : tmp = endOf start msg.headers) :
    Extends P buf start msg (SipMsg.loop P buf flags fuel mem tmp msg).2.2 ∧
      (SipMsg.loop P buf flags fuel mem tmp msg).2.1 =
        endOf start (SipMsg.loop P buf flags fuel mem tmp msg).2.2.headers := by
  subst htmp
  induction fuel generalizing mem msg with
  | zero => exact ⟨.refl hw hp, rfl⟩
  | succ fuel ih =>
    rw [SipMsg.loop.eq_def]
    simp only
    split
    · rename_i hcond
      cases mem with
      | zero => exact ⟨.refl hw hp, rfl⟩
      | succ mem =>
        simp only
        cases hgot : getHdrField P buf (endOf start msg.headers) with
        | error => exact ⟨.refl hw hp, rfl⟩
        | eoh =>
          exact ⟨⟨hw, ⟨hp.linked, hp.unlinked, hp.via1, hp.via2, hp.hVia1, hp.hVia2⟩, fun _ => .inr hgot, .inr rfl,
            fun _ _ => rfl, fun _ => rfl⟩, rfl⟩
        | field hf =>
          have hwalk : Walk P buf start (msg.add hf).headers := by
            rw [headers_add]
            exact hw.snoc hcond.1 hgot
          have hnext := @ih mem _ hwalk (hp.add (getHdrField_field hgot).2.2)
          rw [headers_add, endOf_append] at hnext
          have heoh : (msg.add hf).eoh = msg.eoh := eoh_add
          refine ⟨⟨hnext.1.walk, hnext.1.points, fun h => ?_, heoh ▸ hnext.1.eoh, fun h h' => ?_,
            fun heoh => ?_⟩, hnext.2⟩
          · rw [← ended_add]
            exact hnext.1.ended h
          · exact hnext.1.seen h ((ended_add).trans h')
          · rw [AtEoh, hgot] at heoh
            cases heoh
    · exact ⟨.refl hw hp, rfl⟩

/-- Nothing is looked for. -/
theorem loop_idle (h : flags &&& msg.parsedFlag = flags) :
    SipMsg.loop P buf flags fuel mem tmp msg = (true, tmp, msg) := by
  cases fuel with
  | zero => rfl
  | succ fuel =>
    rw [SipMsg.loop.eq_def]
    exact if_neg fun hc => hc.2 h

/-- A call that asks for the end of the headers stops where no field is found. -/
theorem loop_stuck (hended : msg.ended = false) (hfuel : buf.length - tmp ≤ fuel) (hmem : buf.length - tmp < mem) :
    Stuck P buf (SipMsg.loop P buf HdrType.eoh.flag fuel mem tmp msg).2.1 := by
  have hout : ∀ {p : Nat}, buf.length ≤ p → Stuck P buf p := fun hle hf hlt => absurd hlt (by omega)
  induction fuel generalizing mem msg tmp with
  | zero => exact hout (p := tmp) (by omega)
  | succ fuel ih =>
    rw [SipMsg.loop.eq_def]
    simp only
    split
    · rename_i hcond
      cases mem with
      | zero => omega
      | succ mem =>
        simp only
        cases hgot : getHdrField P buf tmp with
        | error =>
          intro hf _ hfield
          rw [hgot] at hfield
          cases hfield
        | eoh => exact AtEoh.stuck hgot
        | field hf =>
          obtain ⟨-, hlen, -⟩ := getHdrField_field hgot
          exact ih ((ended_add).trans hended) (by omega) (by omega)
    · rename_i hcond
      by_cases hlt : tmp < buf.length
      · exfalso
        apply hcond
        refine ⟨hlt, fun heq => ?_⟩
        have hbit := congrArg (fun x : HdrFlags => x.getLsbD 0) heq
        have hnot : msg.parsedFlag.getLsbD 0 = false := hended
        simp only [getLsbD_and, hnot, Bool.and_false] at hbit
        exact absurd hbit (by decide)
      · exact hout (p := tmp) (by omega)

end Loop

/-! ## Runs -/

section Runs

variable {buf : List UInt8} {start : Nat} {msg' : SipMsg V T}

/-- A call of `parse_headers`. -/
structure Call where
  flags : HdrFlags
  next : Bool
  mem : Nat

/-- The call goes on at the end of the list, or has nothing to look for. -/
def Call.Fine (start : Nat) (msg : SipMsg V T) (c : Call) : Prop :=
  msg.unparsed = listEnd start msg.headers ∨ c.flags &&& (msg.ask c.flags c.next).parsedFlag = c.flags

/-- The states of a message whose headers begin at an offset. -/
inductive Reaches (P : Bodies V T) (buf : List UInt8) (start : Nat) : SipMsg V T → Prop
  | init : Reaches P buf start (.init start)
  | step {msg : SipMsg V T} (c : Call) (reach : Reaches P buf start msg) (fine : c.Fine start msg) :
      Reaches P buf start (msg.parseHeaders P buf c.flags c.next c.mem).2

/-- The fields of a message: what a full parse puts in the list. -/
def fields (P : Bodies V T) (buf : List UInt8) (start : Nat) : List (HdrField V T) :=
  ((SipMsg.init start).parseHeaders P buf HdrType.eoh.flag false (buf.length + 1)).2.headers

/-- The list is a first part of the fields with its pointers, and is all of them once the end of the
headers was seen. -/
structure Inv (P : Bodies V T) (buf : List UInt8) (start : Nat) (msg : SipMsg V T) : Prop where
  walk : Walk P buf start msg.headers
  points : Points msg
  ended : msg.ended = true → AtEoh P buf (endOf start msg.headers) ∧ msg.eoh = some (endOf start msg.headers)

theorem Inv.init : Inv P buf start (.init start) :=
  ⟨.nil, init_points, fun h => by simp [SipMsg.ended, SipMsg.init] at h⟩

theorem ask_ended {flags next} (h : (msg.ask flags next).ended = true) : msg.ended = true := by
  unfold SipMsg.ended SipMsg.ask at h
  simp only at h
  split at h
  · rw [getLsbD_and, Bool.and_eq_true] at h
    exact h.1
  · exact h

/-- Flags and the offset are not part of the list. -/
theorem Points.withFlags (h : Points msg) {unparsed flags} :
    Points { msg with unparsed := unparsed, parsedFlag := flags } :=
  ⟨h.linked, h.unlinked, h.via1, h.via2, h.hVia1, h.hVia2⟩

/-- A call leaves what the loop leaves, but for the flags and the offset. -/
theorem parseHeaders_eq (c : Call) :
    ∃ unparsed msg',
      msg' = (SipMsg.loop P buf c.flags (buf.length - msg.unparsed) c.mem msg.unparsed
        (msg.ask c.flags c.next)).2.2 ∧
      (msg.parseHeaders P buf c.flags c.next c.mem).2 =
        { msg' with
          unparsed := unparsed
          parsedFlag := msg'.parsedFlag ||| if c.next then msg.parsedFlag else 0 } := by
  unfold SipMsg.parseHeaders
  simp only
  split
  all_goals exact ⟨_, _, rfl, rfl⟩

theorem Inv.loop (hi : Inv P buf start msg) {c : Call} (hfine : c.Fine start msg) :
    Extends P buf start (msg.ask c.flags c.next)
      (SipMsg.loop P buf c.flags (buf.length - msg.unparsed) c.mem msg.unparsed (msg.ask c.flags c.next)).2.2 := by
  have hw : Walk P buf start (msg.ask c.flags c.next).headers := hi.walk
  have hp : Points (msg.ask c.flags c.next) := hi.points.withFlags
  rcases hfine with hsync | hidle
  · rw [hi.walk.listEnd_eq] at hsync
    exact (loop_extends hw hp hsync).1
  · rw [loop_idle hidle]
    exact .refl hw hp

theorem Inv.step (hi : Inv P buf start msg) {c : Call} (hfine : c.Fine start msg) :
    Inv P buf start (msg.parseHeaders P buf c.flags c.next c.mem).2 := by
  obtain ⟨unparsed, msg', hmsg', heq⟩ := parseHeaders_eq c
  have hext := hi.loop hfine
  rw [← hmsg'] at hext
  rw [heq]
  refine ⟨hext.walk, hext.points.withFlags, fun hended => ?_⟩
  -- the end was seen before, and then there was nothing to add; or now
  have hbefore : msg.ended = true → AtEoh P buf (endOf start msg'.headers) ∧
      msg'.eoh = some (endOf start msg'.headers) := by
    intro h
    obtain ⟨hat, hpos⟩ := hi.ended h
    have hstill := hext.still hat
    have hheaders : (msg.ask c.flags c.next).headers = msg.headers := rfl
    have heoh : (msg.ask c.flags c.next).eoh = msg.eoh := rfl
    have := hext.eoh
    rw [hstill, hheaders] at this ⊢
    rw [heoh, hpos, or_self] at this
    exact ⟨hat, this⟩
  rw [SipMsg.ended, getLsbD_or, Bool.or_eq_true] at hended
  rcases hended with h | h
  · cases hask : (msg.ask c.flags c.next).ended with
    | true => exact hbefore (ask_ended hask)
    | false => exact ⟨(hext.ended h).resolve_left (by simp [hask]), hext.seen h hask⟩
  · cases hnext : c.next with
    | true =>
      rw [hnext, if_pos rfl] at h
      exact hbefore h
    | false => simp [hnext] at h

theorem Reaches.inv (hr : Reaches P buf start msg) : Inv P buf start msg := by
  induction hr with
  | init => exact .init
  | step c _ fine ih => exact ih.step fine

/-- A full parse stops where no field is found. -/
theorem fields_walk : Walk P buf start (fields P buf start) ∧ Stuck P buf (endOf start (fields P buf start)) := by
  obtain ⟨unparsed, msg', hmsg', heq⟩ := parseHeaders_eq ⟨HdrType.eoh.flag, false, buf.length + 1⟩
  have hfields : fields P buf start = msg'.headers := (congrArg SipMsg.headers heq).trans rfl
  rw [hfields, hmsg']
  have hw : Walk P buf start ((SipMsg.init start).ask HdrType.eoh.flag false).headers := .nil
  obtain ⟨hext, hstop⟩ := loop_extends hw ((init_points).withFlags) rfl
  refine ⟨hext.walk, hstop ▸ loop_stuck ?_ ?_ ?_⟩
  · simp [SipMsg.ended, SipMsg.init, SipMsg.ask]
  · exact le_rfl
  · exact Nat.lt_succ_of_le (Nat.sub_le _ _)

/-- Every pointer is NULL, or at the first field or value of its kind in the message. -/
structure Firsts (all : List (HdrField V T)) (msg : SipMsg V T) : Prop where
  first : ∀ type i, msg.first type = some i → (all.findIdx? fun hf => hf.type = type) = some i
  via1 : ∀ r, msg.via1 = some r → (viaRefs all)[0]? = some r
  via2 : ∀ r, msg.via2 = some r → (viaRefs all)[1]? = some r
  hVia1 : ∀ i, msg.hVia1 = some i → (viaRefs all)[0]? = some (i, 0)
  hVia2 : ∀ i, msg.hVia2 = some i → (viaRefs all)[1]? = some (i, 0)

/-- Two messages have the same list and the same pointers. -/
structure SameView (msg msg' : SipMsg V T) : Prop where
  headers : msg.headers = msg'.headers
  first : msg.first = msg'.first
  via1 : msg.via1 = msg'.via1
  via2 : msg.via2 = msg'.via2
  hVia1 : msg.hVia1 = msg'.hVia1
  hVia2 : msg.hVia2 = msg'.hVia2
  eoh : msg.eoh = msg'.eoh

theorem viaRefs_isInit {hs all : List (HdrField V T)} (h : hs <+: all) : viaRefs hs <+: viaRefs all := by
  obtain ⟨rest, rfl⟩ := h
  rw [viaRefs, viaRefs, zipIdx_append, flatMap_append]
  exact prefix_append _ _

theorem viaRefs_head {hs : List (HdrField V T)} {r : Nat × Nat} (h : (viaRefs hs)[0]? = some r) : r.2 = 0 := by
  induction hs using List.reverseRecOn with
  | nil => simp [viaRefs] at h
  | append_singleton hs hf ih =>
    rw [viaRefs_append] at h
    cases hrefs : viaRefs hs with
    | nil =>
      rw [hrefs, nil_append, getElem?_map, map_eq_some_iff] at h
      obtain ⟨k, hk, rfl⟩ := h
      obtain ⟨-, rfl⟩ := List.getElem?_eq_some_iff.1 hk
      simp
    | cons r' rs =>
      rw [hrefs] at h ih
      exact ih h

theorem Points.firsts {all : List (HdrField V T)} (h : Points msg) (hinit : msg.headers <+: all) : Firsts all msg := by
  have hget : ∀ {i : Nat} {r : Nat × Nat}, (viaRefs msg.headers)[i]? = some r → (viaRefs all)[i]? = some r := by
    intro i r hr
    obtain ⟨rest, heq⟩ := viaRefs_isInit hinit
    obtain ⟨hlt, -⟩ := List.getElem?_eq_some_iff.1 hr
    rw [← heq, getElem?_append_left hlt, hr]
  constructor
  · intro type i hfirst
    cases hun : type.unlinked with
    | true =>
      rw [h.unlinked type hun] at hfirst
      cases hfirst
    | false =>
      rw [h.linked type hun] at hfirst
      obtain ⟨rest, rfl⟩ := hinit
      rw [findIdx?_append, hfirst, some_or]
  · intro r hr
    exact hget (h.via1 ▸ hr)
  · intro r hr
    exact hget (h.via2 ▸ hr)
  · intro i hi
    rw [h.hVia1, map_eq_some_iff] at hi
    obtain ⟨r, hr, rfl⟩ := hi
    rw [hget hr, ← viaRefs_head hr]
  · intro i hi
    rw [h.hVia2, bind_eq_some_iff] at hi
    obtain ⟨r, hr, hif⟩ := hi
    split at hif
    · rename_i hzero
      cases hif
      rw [hget hr, ← hzero]
    · cases hif

theorem Points.sameView (h : Points msg) (h' : Points msg') (hheaders : msg.headers = msg'.headers)
    (heoh : msg.eoh = msg'.eoh) :
    SameView msg msg' := by
  refine ⟨hheaders, funext fun type => ?_, ?_, ?_, ?_, ?_, heoh⟩
  · cases hun : type.unlinked with
    | true => rw [h.unlinked type hun, h'.unlinked type hun]
    | false => rw [h.linked type hun, h'.linked type hun, hheaders]
  · rw [h.via1, h'.via1, hheaders]
  · rw [h.via2, h'.via2, hheaders]
  · rw [h.hVia1, h'.hVia1, hheaders]
  · rw [h.hVia2, h'.hVia2, hheaders]

/-- Once the end of the headers was seen, the list is that of a full parse. -/
theorem Inv.full (hi : Inv P buf start msg) (hended : msg.ended = true) : msg.headers = fields P buf start := by
  obtain ⟨hwalk, hstuck⟩ := fields_walk
  have h1 := hi.walk.isInit hwalk hstuck
  have h2 := hwalk.isInit hi.walk (hi.ended hended).1.stuck
  exact h1.eq_of_length_le h2.length_le

/-- `HDR_EOH_F` was parsed. -/
def EohParsed (msg : SipMsg V T) : Prop := HdrType.eoh.flag &&& msg.parsedFlag = HdrType.eoh.flag

instance (msg : SipMsg V T) : Decidable (EohParsed msg) := inferInstanceAs (Decidable (_ = _))

theorem EohParsed.ended (h : EohParsed msg) : msg.ended = true := by
  have hbit := congrArg (fun x : HdrFlags => x.getLsbD 0) h
  have hone : HdrType.eoh.flag.getLsbD 0 = true := by decide
  simp only [getLsbD_and, hone, Bool.true_and] at hbit
  exact hbit

/-- Bodies of one value that take a line. -/
def sampleBodies : Bodies Unit Unit where
  parseVia s := (skipBody s).map fun n => (n, (), [])
  parseTo s := (skipBody s).map fun n => (n, ())

def sampleMessage : List UInt8 := Msg.bytes "OPTIONS sip:a SIP/2.0\ni: 1\nv: SIP/2.0/UDP a\n\n"

/-- A first call for the Call-ID, and a second one for all. -/
def sampleView : SipMsg Unit Unit :=
  (((SipMsg.init 22).parseHeaders sampleBodies sampleMessage HdrType.callid.flag false
    9).2.parseHeaders sampleBodies sampleMessage
    HdrType.eoh.flag true 9).2

theorem sampleView_reaches : Reaches sampleBodies sampleMessage 22 sampleView :=
  .step ⟨_, _, _⟩ (.step ⟨_, _, _⟩ .init (.inl rfl)) (.inl (by decide +kernel))

/-- In every run whose calls all go on at the end of the list, the list is a first part of the
fields of the message, without a field twice, every pointer is NULL or at the first of its kind, and
runs that have seen the end of the headers agree. -/
theorem lazy_headers (hr : Reaches P buf start msg) :
    msg.headers <+: fields P buf start ∧ (msg.headers.map (·.start)).Nodup ∧ Firsts (fields P buf start) msg ∧
      ∀ msg', Reaches P buf start msg' → EohParsed msg → EohParsed msg' → SameView msg msg' := by
  have hi := hr.inv
  obtain ⟨hwalk, hstuck⟩ := fields_walk
  have hinit := hi.walk.isInit hwalk hstuck
  refine ⟨hinit, hi.walk.nodup, hi.points.firsts hinit, fun msg' hr' h h' => ?_⟩
  have hi' := hr'.inv
  have hheaders := (hi.full h.ended).trans (hi'.full h'.ended).symm
  apply hi.points.sameView hi'.points hheaders
  rw [(hi.ended h.ended).2, (hi'.ended h'.ended).2, hheaders]

theorem lazy_headers_sample :
    sampleView.headers <+: fields sampleBodies sampleMessage 22 ∧ sampleView.headers.map (·.start) = [22, 27] ∧
      EohParsed sampleView ∧ sampleView.via1 = some (1, 0) ∧
        Firsts (fields sampleBodies sampleMessage 22) sampleView := by
  obtain ⟨hinit, -, hfirsts, -⟩ := lazy_headers sampleView_reaches
  have hview : sampleView.headers.map (·.start) = [22, 27] ∧ EohParsed sampleView ∧
      sampleView.via1 = some (1, 0) := by
    decide +kernel
  exact ⟨hinit, hview.1, hview.2.1, hview.2.2, hfirsts⟩

def badMessage : List UInt8 := Msg.bytes "OPTIONS sip:a SIP/2.0\nv: SIP/2.0/UDP a\nabcd"

/-- A call that returns -1 leaves the field it found in the list, and the next call finds it again:
it is listed twice, and the second `Via` is the first one. -/
theorem field_linked_twice :
    ((SipMsg.init 22).parseHeaders sampleBodies badMessage HdrType.eoh.flag false 9).1 = -1 ∧
      (((SipMsg.init 22).parseHeaders sampleBodies badMessage HdrType.eoh.flag false
        9).2.parseHeaders sampleBodies badMessage
        HdrType.eoh.flag false 9).2.headers.map (fun hf => (hf.type, hf.start)) = [(.via, 22), (.via, 22)] ∧
      (((SipMsg.init 22).parseHeaders sampleBodies badMessage HdrType.eoh.flag false
        9).2.parseHeaders sampleBodies badMessage
        HdrType.eoh.flag false 9).2.via2 = some (1, 0) := by
  decide +kernel

/-- The text of a header field. -/
def HdrField.text (buf : List UInt8) (hf : HdrField V T) : List UInt8 := (buf.drop hf.start).take hf.len

theorem Walk.text {s : Nat} (hw : Walk P buf s hs) :
    s ≤ endOf s hs ∧ hs.flatMap (·.text buf) = (buf.drop s).take (endOf s hs - s) := by
  induction hw with
  | nil => simp [endOf]
  | @cons s hf hs inside got rest ih =>
    obtain ⟨hle, htext⟩ := ih
    have hstart := (getHdrField_field got).1
    have hend : endOf s (hf :: hs) = endOf (s + hf.len) hs := rfl
    have hlen : endOf (s + hf.len) hs - s = hf.len + (endOf (s + hf.len) hs - (s + hf.len)) := by omega
    refine ⟨by omega, ?_⟩
    rw [flatMap_cons, htext, HdrField.text, hstart, hend, hlen, take_add, drop_drop]

/-- However a message is parsed: once its headers have ended, the fields in the list are the text
from the first line to the empty one, each of them once, in order and with nothing between. -/
theorem fields_tile_headers (hr : Reaches P buf start msg) (h : EohParsed msg) :
    ∃ eoh, msg.eoh = some eoh ∧ start ≤ eoh ∧ AtEoh P buf eoh ∧
      msg.headers.flatMap (·.text buf) = (buf.drop start).take (eoh - start) := by
  obtain ⟨heoh, hsome⟩ := hr.inv.ended h.ended
  obtain ⟨hle, htext⟩ := hr.inv.walk.text
  exact ⟨_, hsome, hle, heoh, htext⟩

theorem fields_tile_headers_sample : EohParsed sampleView ∧ sampleView.eoh = some 44 ∧
    ∃ eoh, sampleView.eoh = some eoh ∧ 22 ≤ eoh ∧ AtEoh sampleBodies sampleMessage eoh ∧
      sampleView.headers.flatMap (·.text sampleMessage) = (sampleMessage.drop 22).take (eoh - 22) :=
  have h : EohParsed sampleView := by decide +kernel
  ⟨h, by decide +kernel, fields_tile_headers sampleView_reaches h⟩

end Runs

end SipRouter.Parser
