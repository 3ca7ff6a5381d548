import SipRouter.Msg.Sizes

/-!
# The Via of a forwarded request

The Via of the proxy hangs on an anchor where the first Via of the request begins. The
anchor goes behind all lumps of the same offset, and it is put in when the overlaps have
been fixed already; so it is applied unless a deletion that begins there or before ends
behind it. When it is applied, it is written once, and what follows is the message from
its first Via on; otherwise the message is written as if there were no anchor.
-/

namespace SipRouter.Msg

open Lib List Option

variable {s q v : Nat} {list body l₁ l₂ : List Lump} {rand : Rand}

section Pass

variable {msg : MsgData} {sendInfo : Option DestInfo}

/-- In front of the next lump the message is copied. -/
theorem processLumps_from {t} (hs : s ≤ q) (ht : ∃ r ∈ t.range, q ≤ r.1) {lumps} :
    processLumps msg sendInfo s (t :: lumps) rand =
      (Edit.part msg.buf s q ++ (processLumps msg sendInfo q (t :: lumps) rand).1,
        (processLumps msg sendInfo q (t :: lumps) rand).2) := by
  obtain ⟨r, hr, hle⟩ := ht
  obtain ⟨op, before, after⟩ := t
  cases op with
  | add op => cases hr
  | del offset len | nop offset =>
    obtain rfl := some.inj hr
    simp only at hle
    simp only [processLumps, not_lt.2 hle, not_lt.2 (le_trans hs hle), if_false,
      ← Edit.part_append hs hle, append_assoc]

theorem writeLumps_from (hs : s ≤ q) (hq : q ≤ msg.buf.length) (hstart : StartsAt q (list ++ body)) (rand : Rand) :
    (writeLumps msg sendInfo s list body rand).1 = Edit.part msg.buf s q ++
    (writeLumps msg sendInfo q list body rand).1 := by
  cases list with
  | cons t list =>
    have hhead := hstart t rfl
    simp only [writeLumps, processLumps_from hs hhead, append_assoc]
  | nil =>
    cases body with
    | cons t body =>
      have hhead := hstart t rfl
      simp only [writeLumps, processLumps_nil, processLumps_from hs hhead, nil_append, append_assoc]
    | nil =>
      simp only [writeLumps, processLumps_nil, nil_append]
      exact (Edit.part_append hs hq).symm

end Pass

/-! ## Fixed overlaps -/

theorem StartsAt.append (h1 : StartsAt q l₁) (h2 : StartsAt q l₂) : StartsAt q (l₁ ++ l₂) := by
  cases l₁ with
  | nil => exact h2
  | cons t l₁ => exact h1

/-! ## The Via -/

section Via

variable {core : ReqCore} {req : SipReq} {sendInfo : DestInfo} {rand : Rand} {b : BuiltReq}

/-- The lists when the anchor is put in: the lumps in front of it and those behind. -/
structure SipReq.AroundVia (req : SipReq) (core : ReqCore) (sendInfo : DestInfo) (b : BuiltReq) (p : PreparedReq)
    (l₁ l₂ : List Lump) : Prop where
  split : p.msg.addRm = l₁ ++ l₂
  begins : ∀ r ∈ ranges l₁, r.1 ≤ req.via1.hdr
  behind : ∀ r ∈ ranges (l₂ ++ p.msg.bodyLumps), req.via1.hdr < r.1
  head : StartsAt (req.via1.hdr + 1) l₂
  written : b.written = req.front ++ (writeLumps req.toMsgData (some sendInfo) req.start
    (l₁ ++ req.viaLump (core.createViaHf b.sendInfo) :: l₂) p.msg.bodyLumps p.rand).1

/-- The next lump behind the anchor has an offset. -/
theorem SipReq.AroundVia.startsAt {p} (h : req.AroundVia core sendInfo b p l₁ l₂)
    (hnext : (∃ r ∈ ranges p.msg.addRm, req.via1.hdr < r.1) ∨ ∀ t ∈ p.msg.bodyLumps.head?, t.range.isSome = true) :
    StartsAt (req.via1.hdr + 1) (l₂ ++ p.msg.bodyLumps) := by
  rcases hnext with ⟨r, hr, hlt⟩ | hbody
  · cases l₂ with
    | nil =>
      rw [h.split, append_nil] at hr
      exact absurd (h.begins r hr) (not_le.2 hlt)
    | cons t l₂ => exact h.head
  · refine h.head.append fun t ht => ?_
    obtain ⟨r, hr⟩ := isSome_iff_exists.1 (hbody t ht)
    refine ⟨r, hr, h.behind r ?_⟩
    rw [ranges_append]
    exact mem_append_right _ (mem_filterMap.2 ⟨t, mem_of_mem_head? ht, hr⟩)

theorem SipReq.Prepared.around {p clen params} (hok : req.LumpsOk) (hparsed : req.Parsed)
    (hprep : req.Prepared core sendInfo rand p clen params) (hsend : b.sendInfo = p.sendInfo)
    (hwritten : b.written = req.front ++ (writeLumps req.toMsgData (some sendInfo) req.start
      (insertByOffset req.via1.hdr (req.viaLump p.line) p.msg.addRm) p.msg.bodyLumps p.rand).1) :
    ∃ l₁ l₂, req.AroundVia core sendInfo b p l₁ l₂ := by
  obtain ⟨l₁, l₂, hlist, hput, hle, hhead⟩ := insertByOffset_eq req.via1.hdr (req.viaLump p.line) p.msg.addRm
  refine ⟨l₁, l₂, hlist, hle, ?_, hhead, ?_⟩
  · have haddRm : p.msg.addRm = fixLumps 0 (putAll req.addRm (clen ++ params)) := by rw [hprep.msg]
    have hbodyLumps : p.msg.bodyLumps = fixLumps 0 req.bodyLumps := by rw [hprep.msg]
    obtain ⟨hpair, hends⟩ := pairwise_fixLumps 0 (putAll req.addRm (clen ++ params))
    rw [← haddRm, hlist, ranges_append] at hpair hends
    have hsorted : SortedByOffset l₂ := (pairwise_append.1 hpair).2.1.imp_of_mem fun ha _ hab =>
      Nat.le_trans (hends _ (mem_append_right _ ha)).2 hab
    rw [ranges_append]
    refine forall_mem_append.2 ⟨hsorted.lt_of_head hhead, ?_⟩
    rw [hbodyLumps]
    exact le_fixLumps (hok.le_body fun _ => hparsed.hdr_lt_end) 0
  · rw [hwritten, hput, hsend, ← hprep.line]

end Via

end SipRouter.Msg
