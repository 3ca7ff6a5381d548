import SipRouter.Ctl.Binrpc

/-!
# What a call of `binrpc_read_record` consumes

A record is read from whatever bytes have arrived. If the call succeeds, what it returns
lies in the buffer and the offset counts what it consumed; if it fails, nothing has
changed, and after `E_BINRPC_MORE_DATA` the call is made again with more bytes. This is so
for records outside of structs with a length that fits their type. Inside of a struct a
name and its value are one record, whose second half is read by a recursive call that
counts its own bytes only and whose failure is not noticed.
-/

namespace SipRouter.Ctl

open List Option

/-- A text in the buffer, not before `start`. -/
def Inside (buf : List UInt8) (start s : Nat) (len : Int) : Prop := 0 ≤ len ∧ start ≤ s ∧ s + len ≤ buf.length

/-- A call that succeeds: it moves forward within the buffer, the offset counts what it consumed, and a name or
a text that it returns lies in what it consumed. -/
structure Consumes (buf : List UInt8) (ctx : ParseCtx) (start : Nat) (v : BinrpcVal) (r : ReadResult) : Prop where
  after : start < r.p
  le : r.p ≤ buf.length
  offset : r.ctx.offset = ctx.offset + UInt32.ofNat (r.p - start)
  name : ∀ s len, r.v.name = some (s, len) → v.name = some (s, len) ∨ Inside buf start s len
  text : r.v.type = tStr ∨ r.v.type = tBytes → ∃ s len, r.v.u = .strval s len ∧ Inside buf start s len

structure Contained (buf : List UInt8) (ctx : ParseCtx) (start : Nat) (v : BinrpcVal) : Prop where
  done : (readRecord buf ctx start v).err = 0 → Consumes buf ctx start v (readRecord buf ctx start v)
  failed : (readRecord buf ctx start v).err ≠ 0 → (readRecord buf ctx start v).p = start ∧
    (readRecord buf ctx start v).ctx = ctx
  again : (readRecord buf ctx start v).err = eMoreData → ∀ more,
    readRecord (buf ++ more) (readRecord buf ctx start v).ctx (readRecord buf ctx start v).p
      (readRecord buf ctx start v).v =
      readRecord (buf ++ more) ctx start v

/-- The record at `start`, if its type is asked for: a string has at least its 0, it is no byte
string of less than 8 bytes, and a name in a struct has no value behind it that is read. -/
structure Proper (buf : List UInt8) (ctx : ParseCtx) (h : ReadHead) : Prop where
  str : ctx.inStruct = 0 → h.type = tStr → 0 < h.len
  bytes : ctx.inStruct = 0 → h.type = tBytes → h.endTag = true
  avp : ctx.inStruct ≠ 0 → h.type = tAvp → 0 ≤ h.len ∧ ∀ b, buf[h.next]? = some b → b &&& 15 = tAvp ∨ b &&& 15 = tArray

/-! ## The beginning of a record -/

section Head

variable {buf : List UInt8} {ctx : ParseCtx} {start : Nat} {h : ReadHead}

theorem readIntFrom_some {len s i j more} (hread : readIntFrom buf len i s = some j) (hs : s ≤ buf.length) :
    s + len ≤ buf.length ∧ readIntFrom (buf ++ more) len i s = some j := by
  induction len generalizing i s with
  | zero => exact ⟨hs, hread⟩
  | succ len ih =>
    obtain ⟨b, hb, hrest⟩ := bind_eq_some_iff.1 hread
    have hlt := (List.getElem?_eq_some_iff.1 hb).1
    obtain ⟨hle, hmore⟩ := ih hrest hlt
    constructor
    · omega
    · rw [readIntFrom, getElem?_append_left hlt, hb]
      exact hmore

theorem readInt_some {len s p i} (more) (hread : readInt buf len s = some (i, p)) (hs : s ≤ buf.length) :
    p = s + len ∧ p ≤ buf.length ∧ readInt (buf ++ more) len s = some (i, p) := by
  obtain ⟨j, hj, heq⟩ := map_eq_some_iff.1 hread
  obtain ⟨rfl, rfl⟩ := Prod.mk.inj heq
  obtain ⟨hle, hmore⟩ := readIntFrom_some hj hs
  exact ⟨rfl, hle, by rw [readInt, hmore]; rfl⟩

/-- What the first bytes say is in the buffer, and stays so when more bytes arrive. -/
theorem readHead_ok (hhead : readHead buf ctx start = .ok h) :
    start < h.p ∧ h.p ≤ buf.length ∧ h.p + h.len ≤ buf.length ∧ (h.endTag = false → 0 ≤ h.len) ∧
      ∀ more, readHead (buf ++ more) ctx start = .ok h := by
  unfold readHead at hhead
  split_ifs at hhead with hinit hend
  cases hb : buf[start]? with
  | none => simp [hb] at hhead
  | some b =>
    have hlt := (List.getElem?_eq_some_iff.1 hb).1
    have hmore (more : List UInt8) : (buf ++ more)[start]? = some b := (getElem?_append_left hlt).trans hb
    simp only [hb] at hhead
    split_ifs at hhead with hshort hroom
    · obtain rfl := Except.ok.inj hhead
      refine ⟨Nat.lt_succ_self _, hlt, by simp only; omega, fun _ => Int.natCast_nonneg _, fun more => ?_⟩
      have hroom' : ¬ (buf ++ more).length < start + 1 + (b >>> 4).toNat := by
        rw [length_append]
        omega
      simp only [readHead, hinit, hend, hmore more, if_pos hshort, if_neg hroom', if_false, Bool.false_eq_true]
    · cases hread : readInt buf ((b >>> 4).toNat - 8) (start + 1) with
      | none => simp only [hread, reduceCtorEq] at hhead
      | some x =>
        obtain ⟨len, p⟩ := x
        simp only [hread] at hhead
        split_ifs at hhead with hroom
        obtain rfl := Except.ok.inj hhead
        have hp := readInt_some [] hread hlt
        refine ⟨by simp only; omega, hp.2.1, by simp only; omega, nofun, fun more => ?_⟩
        have hroom' : ¬ ((buf ++ more).length : Int) < p + toInt len := by
          rw [length_append]
          omega
        simp only [readHead, hinit, hend, hmore more, if_neg hshort,
          (readInt_some more hread hlt).2.2, if_neg hroom', if_false, Bool.false_eq_true]

theorem readHead_error {e} (hhead : readHead buf ctx start = .error e) : e ≠ 0 := by
  unfold readHead at hhead
  split_ifs at hhead
  · exact Except.error.inj hhead ▸ by decide
  · exact Except.error.inj hhead ▸ by decide
  · split at hhead
    · exact Except.error.inj hhead ▸ by decide
    · simp only at hhead
      split_ifs at hhead
      · exact Except.error.inj hhead ▸ by decide
      · split at hhead
        · exact Except.error.inj hhead ▸ by decide
        · split_ifs at hhead
          exact Except.error.inj hhead ▸ by decide

theorem recordInt_le (hp : h.p ≤ buf.length) : h.p ≤ (recordInt buf h).2 ∧ (recordInt buf h).2 ≤ buf.length := by
  unfold recordInt
  cases hread : readInt buf h.len.toNat h.p with
  | none => exact ⟨le_refl _, hp⟩
  | some x =>
    obtain ⟨hx, hle, -⟩ := readInt_some [] hread hp
    exact ⟨by simp only [getD_some]; omega, hle⟩

end Head

/-! ## The whole record -/

/-- How a call may end. -/
inductive Ends (buf : List UInt8) (ctx : ParseCtx) (start : Nat) (v : BinrpcVal) : ReadResult → Prop
  | done {r : ReadResult} (hr : r.err = 0) (hc : Consumes buf ctx start v r) : Ends buf ctx start v r
  | failed {v' : BinrpcVal} {e : Int} (he : e ≠ 0) (hmore : e ≠ eMoreData) : Ends buf ctx start v ⟨ctx, start, v', e⟩
  | more {v' : BinrpcVal} (hv : ∀ more, readRecord (buf ++ more) ctx start v' = readRecord (buf ++ more) ctx start v) :
      Ends buf ctx start v ⟨ctx, start, v', eMoreData⟩

theorem Ends.contained {buf ctx start v}
    (h : Ends buf ctx start v (readRecord buf ctx start v)) : Contained buf ctx start v := by
  generalize hr : readRecord buf ctx start v = r at h
  cases h with
  | done herr hc =>
    exact ⟨fun _ => hr ▸ hc, fun hne => absurd (hr ▸ herr) hne,
      fun hmore => absurd (herr.symm.trans (hr ▸ hmore)) (by decide)⟩
  | failed he hmore =>
    refine ⟨fun h0 => ?_, fun _ => ?_, fun h4 => ?_⟩
    · rw [hr] at h0
      exact absurd h0 he
    · rw [hr]
      exact ⟨rfl, rfl⟩
    · rw [hr] at h4
      exact absurd h4 hmore
  | more hv =>
    refine ⟨fun h0 => ?_, fun _ => ?_, fun _ more => ?_⟩
    · rw [hr] at h0
      exact absurd (show eMoreData = 0 from h0) (by decide)
    · rw [hr]
      exact ⟨rfl, rfl⟩
    · rw [hr]
      exact hv more

section Record

variable {buf : List UInt8} {ctx ctx' : ParseCtx} {start p : Nat} {v v' : BinrpcVal} {h : ReadHead}

/-- A record is read up to `p`. -/
theorem ends_recordOk (hoffset : ctx'.offset = ctx.offset) (hp : start < p) (hle : p ≤ buf.length)
    (hname : v'.name = v.name)
    (htext : v'.type = tStr ∨ v'.type = tBytes → ∃ s len, v'.u = .strval s len ∧ Inside buf start s len) :
    Ends buf ctx start v (recordOk ctx' start p v') := by
  refine .done rfl ⟨hp, hle, ?_, fun s len hs => .inl (hname ▸ hs), htext⟩
  show ctx'.offset + UInt32.ofNat p - UInt32.ofNat start = ctx.offset + UInt32.ofNat (p - start)
  rw [hoffset, UInt32.ofNat_sub (le_of_lt hp), UInt32.sub_eq_add_neg, UInt32.sub_eq_add_neg, UInt32.add_assoc]

/-- Outside of a struct. -/
theorem ends_readPlain (hhead : readHead buf ctx start = .ok h) (hin : ctx.inStruct = 0) (hproper : Proper buf ctx h) :
    Ends buf ctx start v (readPlain buf ctx h start v) := by
  obtain ⟨hp, hle, hlen, hshort, -⟩ := readHead_ok hhead
  obtain ⟨hint, hintle⟩ := recordInt_le (h := h) hle
  unfold readPlain readStructStart readArrayTag
  simp only
  split_ifs with hi hs hb hend ht hend ha hend harr hd
  · exact ends_recordOk rfl (by omega) hintle rfl fun h => absurd h (by simp only [hi]; decide)
  · have hpos := hproper.str hin hs
    have hnext : (h.next : Int) = h.p + h.len := Int.toNat_of_nonneg (by omega)
    exact ends_recordOk rfl (by omega) (by omega) rfl fun _ => ⟨h.p, h.len - 1, rfl, by omega, by omega, by omega⟩
  · exact .failed (by decide) (by decide)
  · exact absurd (hproper.bytes hin hb) hend
  · exact .failed (by decide) (by decide)
  · exact ends_recordOk rfl hp hle rfl fun h => absurd h (by simp only [ht]; decide)
  · exact ends_recordOk rfl hp hle rfl fun h => absurd h (by simp only [ha]; decide)
  · exact .failed (by decide) (by decide)
  · exact ends_recordOk rfl hp hle rfl fun h => absurd h (by simp only [ha]; decide)
  · exact ends_recordOk rfl (by omega) hintle rfl fun h => absurd h (by simp only [hd]; decide)
  · exact .failed (by decide) (by decide)

/-- A name in a struct, behind which nothing is read: at the end of the buffer the call is made
again with what it has written to `v`. -/
theorem ends_readAvp (hhead : readHead buf ctx start = .ok h) (hin : ctx.inStruct ≠ 0) (htype : h.type = tAvp)
    (hasked : ¬(v.type ≠ h.type ∧ v.type ≠ tAll)) (hproper : Proper buf ctx h) :
    Ends buf ctx start v (readAvp buf ctx h start v) := by
  have hnext := (hproper.avp hin htype).2
  unfold readAvp
  cases hb : buf[h.next]? with
  | none =>
    refine .more fun more => ?_
    have hhead' := (readHead_ok hhead).2.2.2.2 more
    have hstruct : ¬(h.type = tStruct ∧ h.endTag) := fun hs => absurd (htype.symm.trans hs.1) (by decide)
    simp only [readRecord, readTyped, hhead', if_neg hasked, if_neg hin, if_neg hstruct,
      if_pos htype, ne_eq, not_true, false_and, if_false]
    rfl
  | some b =>
    have hval : ¬(b &&& 15 ≠ tAvp ∧ b &&& 15 ≠ tArray) := by
      rintro ⟨h1, h2⟩
      rcases hnext b hb with heq | heq
      · exact h1 heq
      · exact h2 heq
    simp only [if_neg hval]
    exact .failed (by decide) (by decide)

end Record

/-- The context of a packet of 100 bytes, outside of a struct or in one. -/
def sampleCtx (inStruct : Nat) : ParseCtx := ⟨100, 0, binrpcReq, true, 0, inStruct, 0⟩

/-- A value of any type is asked for. -/
def anyType : BinrpcVal := ⟨none, tAll, .unset, 0⟩

theorem record_contained (buf : List UInt8) (ctx : ParseCtx) (start : Nat) (v : BinrpcVal)
    (hproper : ∀ h, readHead buf ctx start = .ok h → v.type = h.type ∨ v.type = tAll →
      Proper buf ctx h) : Contained buf ctx start v := by
  apply Ends.contained
  cases hhead : readHead buf ctx start with
  | error e =>
    have hr : readRecord buf ctx start v = ⟨ctx, start, v, e⟩ := by simp only [readRecord, readTyped, hhead]
    rw [hr]
    by_cases he : e = eMoreData
    · exact he ▸ .more fun _ => rfl
    · exact .failed (readHead_error hhead) he
  | ok h =>
    by_cases hasked : v.type ≠ h.type ∧ v.type ≠ tAll
    · have hr : readRecord buf ctx start v = ⟨ctx, start, v, eType⟩ := by
        simp only [readRecord, readTyped, hhead, if_pos hasked]
      rw [hr]
      exact .failed (by decide) (by decide)
    · have hrec := hproper h hhead (by
        by_contra hno
        exact hasked ⟨fun heq => hno (.inl heq), fun heq => hno (.inr heq)⟩)
      obtain ⟨hp, hle, -⟩ := readHead_ok hhead
      simp only [readRecord, readTyped, hhead, if_neg hasked]
      split_ifs with hin hend havp
      · exact ends_readPlain hhead hin hrec
      · exact ends_recordOk rfl hp hle rfl fun h => absurd h (by simp only [hend.1]; decide)
      · exact ends_readAvp hhead hin havp hasked hrec
      · exact .failed (by decide) (by decide)

/-- The string `a` with its 0. -/
theorem record_contained_string :
    (readRecord [0x21, 97, 0] (sampleCtx 0) 0 anyType).err = 0 ∧ Contained [0x21, 97, 0]
    (sampleCtx 0) 0 anyType := by
  refine ⟨by decide, record_contained _ _ _ _ fun h hh _ => ?_⟩
  obtain rfl : (⟨1, 2, false, 1⟩ : ReadHead) = h := Except.ok.inj hh
  exact ⟨fun _ _ => by decide, fun _ ht => absurd ht (by decide), fun hin => absurd rfl hin⟩

/-- The bytes of a name are not counted; a value that has not arrived moves the position behind the
name, and the same call with the whole value fails; the length of a string without its 0 is -1; and
a byte string opens a struct. -/
theorem member_offset_lost :
    ¬Contained [0x25, 97, 0, 0x10, 7] (sampleCtx 1) 0 anyType ∧
    (readRecord [0x25, 97, 0, 0x10, 7] (sampleCtx 1) 0 anyType).p = 5 ∧
    (readRecord [0x25, 97, 0, 0x10, 7] (sampleCtx 1) 0 anyType).ctx.offset = 2 ∧
    (∃ r, readRecord [0x25, 97, 0, 0x10] (sampleCtx 1) 0 anyType = r ∧ r.err = eMoreData ∧ r.p = 3 ∧
      (readRecord [0x25, 97, 0, 0x10, 7] r.ctx 0 r.v).err = eType) ∧
    ¬Contained [0x25, 97, 0, 0x10] (sampleCtx 1) 0 anyType ∧
    ¬Contained [0x01] (sampleCtx 0) 0 anyType ∧
    (readRecord [0x26, 1, 2] (sampleCtx 0) 0 anyType).ctx.inStruct = 1 := by
  refine ⟨fun h => ?_,
    by decide, by decide, ⟨_, rfl, by decide, by decide, by decide⟩, fun h => ?_, fun h => ?_, by decide⟩
  · have hoffset := (h.done (by decide)).offset
    exact absurd hoffset (by decide)
  · have hp := (h.failed (by decide)).1
    exact absurd hp (by decide)
  · obtain ⟨s, len, hu, hlen, -⟩ := (h.done (by decide)).text (by decide)
    have hlen' : (-1 : Int) = len := (ValU.mk.inj hu).2
    omega

end SipRouter.Ctl
