import SipRouter.Lib.Edit
import SipRouter.Msg.Subst

/-!
# Applying lumps to a message (`lumps_len`, `process_lumps`)

`lumps_len` computes by how much a list of lumps changes the length of a message, and moves the lumps of the list
that overlap a deletion behind it. `process_lumps` then writes the message with its lumps applied. The lumps of a list
are an edit script for the message (`script`), and what the two functions do to it is to trim it
and to make one pass over the message (`lumpsLen_eq`, `processLumps_eq`).
-/

namespace SipRouter.Msg

open Lib List

section Lumps

variable (msg : MsgData) (sendInfo : Option DestInfo)

/-! ## `lumps_len` -/

/-- The length of the lumps of a chain, up to a condition that does not hold. -/
def chainLen : List AddOp → Rand → Nat × Rand
  | [], rand => (0, rand)
  | .add value :: ops, rand =>
    let rest := chainLen ops rand
    (value.length + rest.1, rest.2)
  | .addSubst subst :: ops, rand =>
    let rest := chainLen ops rand
    (substLumpLen msg sendInfo subst + rest.1, rest.2)
  | .addOpt cond :: ops, rand =>
    let check := lumpCheckOpt msg sendInfo cond rand
    if check.1 then chainLen ops check.2 else (0, check.2)

/-- The length of a lump of a list itself. -/
def addLen : AddOp → Nat
  | .add value => value.length
  | .addSubst subst => substLumpLen msg sendInfo subst
  | .addOpt _ => 0

/-- `lumps_len` from `s_offset` on: the length, and the list with its offsets changed. -/
def lumpsLenFrom : Nat → List Lump → Rand → Int × List Lump × Rand
  | _, [], rand => (0, [], rand)
  | sOffset, t :: lumps, rand =>
    match t.op with
    | .add op =>
      -- a condition of the list itself is for the lump and what hangs on it
      let check := match op with
        | .addOpt cond => lumpCheckOpt msg sendInfo cond rand
        | _ => (true, rand)
      if check.1 then
        let before := chainLen msg sendInfo (t.before.chain .before) check.2
        let after := chainLen msg sendInfo (t.after.chain .after) before.2
        let rest := lumpsLenFrom sOffset lumps after.2
        (before.1 + addLen msg sendInfo op + after.1 + rest.1, t :: rest.2.1, rest.2.2)
      else
        let rest := lumpsLenFrom sOffset lumps check.2
        (rest.1, t :: rest.2.1, rest.2.2)
    | .del offset len =>
      let before := chainLen msg sendInfo (t.before.chain .before) rand
      -- fix overlapping deleted zones
      let len := if offset < sOffset then (if sOffset - offset < len then len - (sOffset - offset) else 0) else len
      let offset := if offset < sOffset then sOffset else offset
      let after := chainLen msg sendInfo (t.after.chain .after) before.2
      let rest := lumpsLenFrom (offset + len) lumps after.2
      (before.1 - len + after.1 + rest.1, { t with op := .del offset len } :: rest.2.1, rest.2.2)
    | .nop offset =>
      let before := chainLen msg sendInfo (t.before.chain .before) rand
      -- fix offset if overlapping on a deleted zone
      let offset := if offset < sOffset then sOffset else offset
      let after := chainLen msg sendInfo (t.after.chain .after) before.2
      let rest := lumpsLenFrom offset lumps after.2
      (before.1 + after.1 + rest.1, { t with op := .nop offset } :: rest.2.1, rest.2.2)

/-- `lumps_len`. -/
def lumpsLen (lumps : List Lump) (rand : Rand) : Int × List Lump × Rand := lumpsLenFrom msg sendInfo 0 lumps rand

/-! ## `process_lumps` -/

/-- The text of the lumps of a chain, up to a condition that does not hold. -/
def chainText : List AddOp → Rand → List UInt8 × Rand
  | [], rand => ([], rand)
  | .add value :: ops, rand =>
    let rest := chainText ops rand
    (value ++ rest.1, rest.2)
  | .addSubst subst :: ops, rand =>
    let rest := chainText ops rand
    (substLump msg sendInfo subst ++ rest.1, rest.2)
  | .addOpt cond :: ops, rand =>
    let check := lumpCheckOpt msg sendInfo cond rand
    if check.1 then chainText ops check.2 else ([], check.2)

/-- The text of a lump of a list itself. -/
def addText : AddOp → List UInt8
  | .add value => value
  | .addSubst subst => substLump msg sendInfo subst
  | .addOpt _ => []

/-- `process_lumps` from `s_offset` of the message on: what is written, and where it has come to. -/
def processLumps : Nat → List Lump → Rand → List UInt8 × Nat × Rand
  | sOffset, [], rand => ([], sOffset, rand)
  | sOffset, t :: lumps, rand =>
    match t.op with
    | .add op =>
      let check := match op with
        | .addOpt cond => lumpCheckOpt msg sendInfo cond rand
        | _ => (true, rand)
      if check.1 then
        let before := chainText msg sendInfo (t.before.chain .before) check.2
        let after := chainText msg sendInfo (t.after.chain .after) before.2
        let rest := processLumps sOffset lumps after.2
        (before.1 ++ addText msg sendInfo op ++ after.1 ++ rest.1, rest.2)
      else processLumps sOffset lumps check.2
    | .del offset len =>
      -- overlapped lumps offsets, ignoring
      if offset < sOffset then processLumps sOffset lumps rand
      else
        let before := chainText msg sendInfo (t.before.chain .before) rand
        let after := chainText msg sendInfo (t.after.chain .after) before.2
        let rest := processLumps (offset + len) lumps after.2
        (Edit.part msg.buf sOffset offset ++ before.1 ++ after.1 ++ rest.1, rest.2)
    | .nop offset =>
      if offset < sOffset then processLumps sOffset lumps rand
      else
        let before := chainText msg sendInfo (t.before.chain .before) rand
        let after := chainText msg sendInfo (t.after.chain .after) before.2
        let rest := processLumps offset lumps after.2
        (Edit.part msg.buf sOffset offset ++ before.1 ++ after.1 ++ rest.1, rest.2)

/-- The two lists of a message applied to it from `s_offset` on and the rest copied, as the functions that
build a message do at their end. -/
def writeLumps (sOffset : Nat) (addRm bodyLumps : List Lump) (rand : Rand) : List UInt8 × Rand :=
  let headers := processLumps msg sendInfo sOffset addRm rand
  let body := processLumps msg sendInfo headers.2.1 bodyLumps headers.2.2
  (headers.1 ++ body.1 ++ Edit.part msg.buf body.2.1 msg.buf.length, body.2.2)

/-! ## Lumps as a script -/

/-- What a list of lumps means: an edit script for the message. -/
def script : List Lump → Rand → List (Edit UInt8) × Rand
  | [], rand => ([], rand)
  | t :: lumps, rand =>
    match t.op with
    | .add op =>
      let check := match op with
        | .addOpt cond => lumpCheckOpt msg sendInfo cond rand
        | _ => (true, rand)
      if check.1 then
        let before := chainText msg sendInfo (t.before.chain .before) check.2
        let after := chainText msg sendInfo (t.after.chain .after) before.2
        let rest := script lumps after.2
        (.ins (before.1 ++ addText msg sendInfo op ++ after.1) :: rest.1, rest.2)
      else script lumps check.2
    | .del offset len =>
      let before := chainText msg sendInfo (t.before.chain .before) rand
      let after := chainText msg sendInfo (t.after.chain .after) before.2
      let rest := script lumps after.2
      (.cut offset len before.1 after.1 :: rest.1, rest.2)
    | .nop offset =>
      let before := chainText msg sendInfo (t.before.chain .before) rand
      let after := chainText msg sendInfo (t.after.chain .after) before.2
      let rest := script lumps after.2
      (.cut offset 0 before.1 after.1 :: rest.1, rest.2)

variable {msg sendInfo} {lumps : List Lump} {s : Nat}

theorem chainLen_eq (ops) (rand : Rand) :
    chainLen msg sendInfo ops rand = ((chainText msg sendInfo ops rand).1.length,
      (chainText msg sendInfo ops rand).2) := by
  induction ops generalizing rand with
  | nil => rfl
  | cons op ops ih =>
    cases op with
    | add value => simp [chainLen, chainText, ih]
    | addSubst subst => simp [chainLen, chainText, ih, length_substLump]
    | addOpt cond =>
      simp only [chainLen, chainText]
      split_ifs
      · exact ih _
      · rfl

theorem addLen_eq {op} : addLen msg sendInfo op = (addText msg sendInfo op).length := by
  cases op with
  | add value | addOpt cond => rfl
  | addSubst subst => exact (length_substLump ..).symm

/-- The list that `lumps_len` leaves. -/
def fixLumps : Nat → List Lump → List Lump
  | _, [] => []
  | s, t :: lumps =>
    match t.op with
    | .add _ => t :: fixLumps s lumps
    | .del offset len =>
      { t with op := .del (max s offset) (offset + len - max s offset) } :: fixLumps (max s (offset + len)) lumps
    | .nop offset => { t with op := .nop (max s offset) } :: fixLumps (max s offset) lumps

theorem script_fixLumps {rand} :
    script msg sendInfo (fixLumps s lumps) rand = (Edit.fix s (script msg sendInfo lumps rand).1,
      (script msg sendInfo lumps rand).2) := by
  induction lumps generalizing s rand with
  | nil => rfl
  | cons t lumps ih =>
    obtain ⟨op, before, after⟩ := t
    cases op with
    | add op =>
      simp only [fixLumps, script]
      split_ifs
      · simp only [ih, Edit.fix]
      · exact ih ..
    | del offset len => simp only [fixLumps, script, ih, Edit.fix]
    | nop offset =>
      simp only [fixLumps, script, ih, Edit.fix, Nat.add_zero,
        Nat.sub_eq_zero_of_le (Nat.le_max_right ..)]

/-- `lumps_len` gives the change of length by the script as it leaves it. -/
theorem lumpsLenFrom_eq {s lumps rand} :
    lumpsLenFrom msg sendInfo s lumps rand =
      (Edit.delta (Edit.fix s (script msg sendInfo lumps rand).1), fixLumps s lumps,
        (script msg sendInfo lumps rand).2) := by
  induction lumps generalizing s rand with
  | nil => rfl
  | cons t lumps ih =>
    obtain ⟨op, before, after⟩ := t
    cases op with
    | add op =>
      simp only [lumpsLenFrom, script, fixLumps, chainLen_eq, addLen_eq]
      split_ifs
      · simp only [ih, Edit.fix, Edit.delta, length_append]
        refine Prod.ext ?_ rfl
        simp only
        omega
      · rw [ih]
    | del offset len =>
      have hoff : (if offset < s then s else offset) = max s offset := by
        split_ifs <;> omega
      have hlen : (if offset < s then (if s - offset < len then len - (s - offset) else 0)
          else len) = offset + len - max s offset := by
        split_ifs <;> omega
      have hend : max s offset + (offset + len - max s offset) = max s (offset + len) := by omega
      simp only [lumpsLenFrom, script, fixLumps, chainLen_eq, hoff, hlen, hend, ih, Edit.fix, Edit.delta]
      refine Prod.ext ?_ rfl
      simp only
      omega
    | nop offset =>
      have hoff : (if offset < s then s else offset) = max s offset := by
        split_ifs <;> omega
      have hlen : offset - max s offset = 0 := by omega
      simp only [lumpsLenFrom, script, fixLumps, chainLen_eq, hoff, ih, Edit.fix, Edit.delta, Nat.add_zero, hlen]
      refine Prod.ext ?_ rfl
      simp only
      omega

variable {s : Nat} {lumps : List Lump} {rand : Rand}

/-- `process_lumps` makes a pass over the message, if no lump is behind where it has come to. -/
theorem processLumps_eq (h : Edit.Ahead s (script msg sendInfo lumps rand).1) :
    processLumps msg sendInfo s lumps rand = ((Edit.pass msg.buf s (script msg sendInfo lumps rand).1).1,
        (Edit.pass msg.buf s (script msg sendInfo lumps rand).1).2, (script msg sendInfo lumps rand).2) := by
  induction lumps generalizing s rand with
  | nil => rfl
  | cons t lumps ih =>
    obtain ⟨op, before, after⟩ := t
    cases op with
    | add op =>
      simp only [processLumps, script] at h ⊢
      split_ifs at h ⊢
      · simp only [Edit.pass]
        rw [ih h]
      · exact ih h
    | del offset len =>
      simp only [processLumps, script] at h ⊢
      obtain ⟨hle, h⟩ := h
      rw [if_neg (Nat.not_lt.2 hle), ih h]
      rfl
    | nop offset =>
      simp only [processLumps, script] at h ⊢
      obtain ⟨hle, h⟩ := h
      rw [Nat.add_zero] at h
      rw [if_neg (Nat.not_lt.2 hle), ih h]
      rfl

theorem script_append (l1 l2) (rand : Rand) :
    script msg sendInfo (l1 ++ l2) rand =
      ((script msg sendInfo l1 rand).1 ++ (script msg sendInfo l2 (script msg sendInfo l1 rand).2).1,
        (script msg sendInfo l2 (script msg sendInfo l1 rand).2).2) := by
  induction l1 generalizing rand with
  | nil => rfl
  | cons t l1 ih =>
    obtain ⟨op, before, after⟩ := t
    cases op with
    | add op =>
      simp only [cons_append, script]
      split_ifs
      · simp only [ih, cons_append]
      · exact ih _
    | del offset len | nop offset => simp only [cons_append, script, ih]

/-- The script of a list has the places of the list. -/
theorem sorted_script (h : SortedByOffset lumps) {p}
    (hp : ∀ r ∈ ranges lumps, p ≤ r.1) (rand : Rand) : Edit.Sorted p (script msg sendInfo lumps rand).1 := by
  induction lumps generalizing p rand with
  | nil => exact trivial
  | cons t lumps ih =>
    rw [SortedByOffset] at h
    obtain ⟨op, before, after⟩ := t
    cases op with
    | add op =>
      rw [ranges, filterMap_cons_none rfl] at h hp
      simp only [script]
      split_ifs
      all_goals exact ih h hp _
    | del offset len | nop offset =>
      rw [ranges_cons rfl] at h hp
      obtain ⟨hle, h⟩ := pairwise_cons.1 h
      exact ⟨hp _ mem_cons_self, ih h hle _⟩

theorem reach_script_le {n} (hs : s ≤ n) (h : ∀ r ∈ ranges lumps, r.2 ≤ n)
    (rand : Rand) : Edit.reach s (script msg sendInfo lumps rand).1 ≤ n := by
  induction lumps generalizing s rand with
  | nil => exact hs
  | cons t lumps ih =>
    have htail : ∀ r ∈ ranges lumps, r.2 ≤ n := fun r hr => h r (mem_ranges_tail hr)
    obtain ⟨op, before, after⟩ := t
    cases op with
    | add op =>
      simp only [script]
      split_ifs
      all_goals exact ih hs htail _
    | del offset len | nop offset =>
      have hend := h _ (mem_ranges_head rfl)
      exact ih (Nat.max_le.2 ⟨hs, hend⟩) htail _

/-! ## Both lists -/

/-- `process_lumps` of a list as `lumps_len` leaves it. -/
theorem processLumps_fixLumps (h : Edit.Sorted s (script msg sendInfo lumps rand).1) :
    processLumps msg sendInfo s (fixLumps 0 lumps) rand =
      ((Edit.pass msg.buf s (Edit.fix s (script msg sendInfo lumps rand).1)).1,
        Edit.reach s (script msg sendInfo lumps rand).1, (script msg sendInfo lumps rand).2) := by
  have hfix := Edit.fix_congr h (Nat.zero_le s) (Nat.le_refl s)
  rw [processLumps_eq, script_fixLumps, hfix, Edit.pass_fix_snd]
  rw [script_fixLumps, hfix]
  exact Edit.ahead_fix ..

/-- Both lists, if the second begins where the first ends or later. -/
theorem writeLumps_fixLumps {l1 l2} (h1 : Edit.Sorted s (script msg sendInfo l1 rand).1)
    (h2 : Edit.Sorted (Edit.reach s (script msg sendInfo l1 rand).1)
      (script msg sendInfo l2 (script msg sendInfo l1 rand).2).1) :
    writeLumps msg sendInfo s (fixLumps 0 l1) (fixLumps 0 l2) rand =
      (Edit.output msg.buf s (Edit.fix s (script msg sendInfo (l1 ++ l2) rand).1),
        (script msg sendInfo (l1 ++ l2) rand).2) := by
  rw [writeLumps, processLumps_fixLumps h1, processLumps_fixLumps h2, script_append, Edit.fix_append, Edit.output,
    Edit.pass_append, Edit.pass_fix_snd, Edit.pass_fix_snd]

/-! ## Chance -/

def AddOp.random : AddOp → Bool
  | .addOpt .ifRand => true
  | _ => false

/-- The operations of a lump and of what hangs on it. -/
def Lump.addOps (t : Lump) : List AddOp :=
  (match t.op with
    | .add op => [op]
    | _ => []) ++ t.before.chain .before ++ t.after.chain .after

/-- No lump depends on chance. -/
def NoRand (lumps : List Lump) : Prop := ∀ t ∈ lumps, ∀ op ∈ t.addOps, op.random = false

instance (lumps : List Lump) : Decidable (NoRand lumps) := inferInstanceAs (Decidable (∀ t ∈ lumps, _))

theorem lumpCheckOpt_of_noRand (msg sendInfo) {cond} (h : (AddOp.addOpt cond).random = false) :
    ∃ on, ∀ rand, lumpCheckOpt msg sendInfo cond rand = (on, rand) := by
  refine lumpCheckOpt_of_ne msg sendInfo ?_
  rintro rfl
  cases h

theorem chainText_of_noRand {ops} (h : ∀ op ∈ ops, op.random = false) :
    ∃ text, ∀ rand, chainText msg sendInfo ops rand = (text, rand) := by
  induction ops with
  | nil => exact ⟨[], fun _ => rfl⟩
  | cons op ops ih =>
    obtain ⟨text, htext⟩ := ih fun op' hop' => h op' (mem_cons_of_mem op hop')
    cases op with
    | add value => exact ⟨value ++ text, fun rand => by simp only [chainText, htext]⟩
    | addSubst subst => exact ⟨substLump msg sendInfo subst ++ text, fun rand => by simp only [chainText, htext]⟩
    | addOpt cond =>
      obtain ⟨b, hb⟩ := lumpCheckOpt_of_noRand msg sendInfo (h _ mem_cons_self)
      cases b with
      | true => exact ⟨text, fun rand => by simp [chainText, hb, htext]⟩
      | false => exact ⟨[], fun rand => by simp [chainText, hb]⟩

/-- The texts that hang on a lump are then always the same. -/
theorem Lump.texts_of_noRand (msg sendInfo) {t : Lump} (h : ∀ op ∈ t.addOps, op.random = false) :
    ∃ before after, (∀ rand, chainText msg sendInfo (t.before.chain .before) rand = (before, rand)) ∧
      ∀ rand, chainText msg sendInfo (t.after.chain .after) rand = (after, rand) := by
  have hin : ∀ op, op ∈ t.before.chain .before ∨ op ∈ t.after.chain .after → op.random = false :=
    fun op hop => h op (by simp only [addOps, append_assoc, mem_append]; exact .inr hop)
  obtain ⟨before, hbefore⟩ := @chainText_of_noRand msg sendInfo _ fun op hop => hin op (.inl hop)
  obtain ⟨after, hafter⟩ := @chainText_of_noRand msg sendInfo _ fun op hop => hin op (.inr hop)
  exact ⟨before, after, hbefore, hafter⟩

/-- The script is then the same whenever it is made. -/
theorem script_of_noRand (h : NoRand lumps) : ∃ es, ∀ rand, script msg sendInfo lumps rand = (es, rand) := by
  induction lumps with
  | nil => exact ⟨[], fun _ => rfl⟩
  | cons t lumps ih =>
    obtain ⟨es, hes⟩ := ih fun t' ht' => h t' (mem_cons_of_mem t ht')
    have hops := h t (mem_cons_self ..)
    obtain ⟨before', after', hbefore, hafter⟩ := Lump.texts_of_noRand msg sendInfo hops
    obtain ⟨op, before, after⟩ := t
    cases op with
    | add op =>
      cases op with
      | addOpt cond =>
        obtain ⟨b, hb⟩ := lumpCheckOpt_of_noRand msg sendInfo (hops (.addOpt cond) (by simp [Lump.addOps]))
        simp only [script, hb, hbefore, hafter, hes]
        cases b with
        | true | false => exact ⟨_, fun _ => rfl⟩
      | _ =>
        simp only [script, hbefore, hafter, hes]
        exact ⟨_, fun _ => rfl⟩
    | _ =>
      simp only [script, hbefore, hafter, hes]
      exact ⟨_, fun _ => rfl⟩

theorem noRand_append {l1 l2} : NoRand (l1 ++ l2) ↔ NoRand l1 ∧ NoRand l2 := forall_mem_append

/-! ## Editing is exact -/

theorem fixLumps_fixLumps : fixLumps s (fixLumps s lumps) = fixLumps s lumps := by
  induction lumps generalizing s with
  | nil => rfl
  | cons t lumps ih =>
    obtain ⟨op, before, after⟩ := t
    cases op with
    | add op => simp only [fixLumps, ih]
    | del offset len =>
      have hoff : max s (max s offset) = max s offset := by omega
      have hend : max s (max s offset + (offset + len - max s offset)) = max s (offset + len) := by omega
      simp only [fixLumps, hoff, hend, ih, Nat.add_sub_cancel_left]
    | nop offset =>
      have hoff : max s (max s offset) = max s offset := by omega
      simp only [fixLumps, hoff, ih]

end Lumps

/-- What the lists of a message are written as. -/
theorem writeLumps_eq_apply {msg : SipMsg} (h : msg.LumpsOk)
    (hapart : ∀ r ∈ ranges msg.addRm, ∀ r' ∈ ranges msg.bodyLumps, r.2 ≤ r'.1) (sendInfo) (rand : Rand) :
    (writeLumps msg.toMsgData sendInfo 0 (fixLumps 0 msg.addRm) (fixLumps 0 msg.bodyLumps) rand).1 =
      Edit.apply msg.buf (script msg.toMsgData sendInfo (msg.addRm ++ msg.bodyLumps) rand).1 := by
  have hsorted := h.addRm.append h.bodyLumps hapart
  have hbody : ∀ r' ∈ ranges msg.bodyLumps, Edit.reach 0 (script msg.toMsgData sendInfo msg.addRm rand).1 ≤ r'.1 :=
    fun r' hr' => reach_script_le (Nat.zero_le _) (fun r hr => hapart r hr r' hr') rand
  rw [writeLumps_fixLumps (sorted_script h.addRm (fun _ _ => Nat.zero_le _) rand) (sorted_script h.bodyLumps hbody _)]
  exact Edit.output_fix_zero (sorted_script hsorted (fun _ _ => Nat.zero_le _) rand)

/-- A message that was received on no known socket. -/
def plainMsg (buf : List UInt8) (eoh : Nat) : SipMsg where
  buf := buf
  rcv := ⟨none, ⟨.inet, []⟩, 0, .udp⟩
  setGlobalAddress := []
  setGlobalPort := []
  headersEnd := .found eoh
  contentLength := none
  eoh := none
  addRm := []
  bodyLumps := []

/-- A message after some calls. -/
def callMsg (buf : List UInt8) (eoh : Nat) (calls : List LumpCall) : SipMsg :=
  (calls.foldlM LumpCall.step (plainMsg buf eoh)).getD (plainMsg buf eoh)

theorem built_callMsg {buf eoh calls}
    (h : (calls.foldlM LumpCall.step (plainMsg buf eoh)).isSome = true) : (callMsg buf eoh calls).Built := by
  obtain ⟨msg, hmsg⟩ := Option.isSome_iff_exists.1 h
  refine ⟨plainMsg buf eoh, ⟨rfl, rfl, nofun⟩, calls, ?_⟩
  rw [callMsg, hmsg]
  rfl

/-- Two deletions that overlap, with an anchor in them, and one of the body. -/
def overlapCalls : List LumpCall :=
  [.parseHeaders, .delLump 3 2, .delLump 1 3, .anchorLump 2, .insertNewLumpAfter .addRm 1 [] (bytes "x"),
    .insertNewLumpBefore .addRm 0 [] (bytes "y"), .delLump 8 1]

/-- The lists that a script has built are applied exactly: what no deletion covers is kept, and each text stands at the
offset of its lump. If no lump depends on chance, applying them again gives the same message. -/
theorem lumps_edit_exact {msg : SipMsg} (hbuilt : msg.Built)
    (hapart : ∀ r ∈ ranges msg.addRm, ∀ r' ∈ ranges msg.bodyLumps, r.2 ≤ r'.1) (sendInfo : Option DestInfo)
    (rand₁ rand₂ rand : Rand) :
    let addRm := (lumpsLen msg.toMsgData sendInfo msg.addRm rand₁).2.1
    let bodyLumps := (lumpsLen msg.toMsgData sendInfo msg.bodyLumps rand₂).2.1
    (writeLumps msg.toMsgData sendInfo 0 addRm bodyLumps rand).1 =
        Edit.apply msg.buf (script msg.toMsgData sendInfo (msg.addRm ++ msg.bodyLumps) rand).1 ∧
      (NoRand (msg.addRm ++ msg.bodyLumps) → ∀ rand₁' rand₂' rand',
        (writeLumps msg.toMsgData sendInfo 0 (lumpsLen msg.toMsgData sendInfo addRm rand₁').2.1
          (lumpsLen msg.toMsgData sendInfo bodyLumps rand₂').2.1 rand').1 =
        (writeLumps msg.toMsgData sendInfo 0 addRm bodyLumps rand).1) := by
  intro addRm bodyLumps
  have haddRm : addRm = fixLumps 0 msg.addRm := congrArg (·.2.1) (lumpsLenFrom_eq)
  have hbodyLumps : bodyLumps = fixLumps 0 msg.bodyLumps := congrArg (·.2.1) (lumpsLenFrom_eq)
  have hexact := writeLumps_eq_apply hbuilt.lumpsOk hapart sendInfo
  rw [haddRm, hbodyLumps]
  refine ⟨hexact rand, ?_⟩
  intro hrand rand₁' rand₂' rand'
  obtain ⟨es, hes⟩ : ∃ es, ∀ rand, script msg.toMsgData sendInfo (msg.addRm ++ msg.bodyLumps) rand = (es, rand) :=
    script_of_noRand hrand
  rw [lumpsLen, lumpsLen, lumpsLenFrom_eq, lumpsLenFrom_eq, fixLumps_fixLumps, fixLumps_fixLumps, hexact, hexact, hes,
    hes]

theorem lumps_edit_exact_overlap :
    let msg := callMsg (bytes "0123456789") 6 overlapCalls
    (writeLumps msg.toMsgData none 0 (lumpsLen msg.toMsgData none msg.addRm fun _ => true).2.1
        (lumpsLen msg.toMsgData none msg.bodyLumps fun _ => true).2.1 fun _ => true).1 = bytes "0yx5679" ∧
      Edit.apply msg.buf (script msg.toMsgData none (msg.addRm ++ msg.bodyLumps) fun _ => true).1 = bytes "0yx5679" ∧
      NoRand (msg.addRm ++ msg.bodyLumps) := by
  intro msg
  have hbuilt : msg.Built := built_callMsg (by decide)
  have hexact := (lumps_edit_exact hbuilt (by decide) none (fun _ => true) (fun _ => true) fun _ => true).1
  have happly :
      Edit.apply msg.buf (script msg.toMsgData none (msg.addRm ++ msg.bodyLumps) fun _ => true).1 =
      bytes "0yx5679" := by
    decide
  exact ⟨hexact.trans happly, happly, by decide⟩

/-- A text that depends on chance comes and goes, and a deletion of the body that begins in one of the headers is not
made. -/
theorem random_and_crossing_lumps :
    (let msg := callMsg (bytes "ab") 2
        [.anchorLump 1, .insertNewLumpAfter .addRm 0 [] (bytes "x"), .insertCondLumpAfter .addRm 0 [] .ifRand]
      let addRm := (lumpsLen msg.toMsgData none msg.addRm fun _ => true).2.1
      msg.Built ∧ (writeLumps msg.toMsgData none 0 addRm [] fun _ => true).1 = bytes "axb" ∧
        (writeLumps msg.toMsgData none 0 (lumpsLen msg.toMsgData none addRm fun _ => true).2.1
          [] fun _ => false).1 = bytes "ab") ∧
      let msg := callMsg (bytes "0123456789") 4 [.parseHeaders, .delLump 3 4, .delLump 5 4]
      let addRm := (lumpsLen msg.toMsgData none msg.addRm fun _ => true).2.1
      let bodyLumps := (lumpsLen msg.toMsgData none msg.bodyLumps fun _ => true).2.1
      msg.Built ∧ (writeLumps msg.toMsgData none 0 addRm bodyLumps fun _ => true).1 = bytes "012789" ∧
        Edit.apply msg.buf (script msg.toMsgData none (msg.addRm ++ msg.bodyLumps) fun _ =>
          true).1 = bytes "0129" := by
  refine ⟨⟨built_callMsg (by decide), ?_, ?_⟩, built_callMsg (by decide), ?_, ?_⟩
  all_goals decide

end SipRouter.Msg
