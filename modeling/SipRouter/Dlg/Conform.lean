import SipRouter.Dlg.State

/-!
# What a dialog keeps

A dialog lives through any sequence of replies, requests and calls of `set_dlg_target`.
`StepOk` says what each of them may do to it, and `Conforms` what follows for the whole
run.
-/

namespace SipRouter.Dlg

open Msg SipRouter.Parser List Option

/-! ## Runs -/

inductive Call where
  | response (m : Response) (refresh : TargetRefresh)
  | request (m : Request) (refresh : TargetRefresh)
  | setTarget (ruri : Str) (duri : Option Str)

/-- How a dialog is created: by a request that is sent, or by one that is received and replied to with `code`. -/
inductive Start where
  | uac (cid ltag : List UInt8) (lseq : Nat) (luri : List UInt8) (ruri : Str)
  | uas (m : Request) (code : Nat) (tag : List UInt8)

variable (parseUri : List UInt8 → Option SipUri)

def Dialog.step (d : Dialog) : Call → Int × Dialog
  | .response m refresh => d.dlgResponseUac parseUri m refresh
  | .request m refresh => d.dlgRequestUas parseUri m refresh
  | .setTarget ruri duri => d.setDlgTarget parseUri ruri duri

def Start.create : Start → Option Dialog
  | .uac cid ltag lseq luri ruri => newDlgUac parseUri cid ltag lseq luri ruri
  | .uas m code tag => newDlgUas parseUri m code tag

def Dialog.run (d : Dialog) (calls : List Call) : Dialog := calls.foldl (fun d call => (d.step parseUri call).2) d

theorem Dialog.run_append (d : Dialog) (pre post) :
    d.run parseUri (pre ++ post) = (d.run parseUri pre).run parseUri post :=
  foldl_append

theorem Dialog.run_cons (d : Dialog) (call : Call) (calls) :
    d.run parseUri (call :: calls) = (d.step parseUri call).2.run parseUri calls := rfl

/-! ## What should hold -/

/-- A positive final reply to a dialog that is not confirmed yet. -/
def Confirming (d : Dialog) (m : Response) : Prop := (d.state = .new ∨ d.state = .early) ∧ 200 ≤ m.code ∧ m.code ≤ 299

instance (d : Dialog) (m : Response) : Decidable (Confirming d m) := inferInstanceAs (Decidable (_ ∧ _))

/-- The target that a call brings, if it is accepted. -/
def Brings (d : Dialog) : Call → Option Str
  | .response m refresh =>
    if Confirming d m then m.contact.target
    else if d.state = .confirmed ∧ 200 ≤ m.code ∧ m.code ≤ 299 ∧ m.refreshes refresh then m.contact.target
    else none
  | .request m refresh =>
    if !m.cseq.any (fun n => d.remSeq.any (n ≤ ·)) ∧ m.refreshes refresh then m.contact.target else none
  | .setTarget ruri _ => some ruri

/-- The hooks are those of the route set and the target. -/
def Dialog.Hooked (d : Dialog) : Prop := ∃ nhop, d.calculateHooks parseUri = some (d.hooks, nhop)

/-- What one call may do. -/
structure StepOk (d : Dialog) (call : Call) (d' : Dialog) : Prop where
  confirmed : ∀ m refresh, call = .response m refresh → Confirming d m →
    d'.state = .confirmed ∧ d'.routeSet = (entries .recordRoute m.hdrs).reverse
  stays : d.state = .confirmed → d'.state = .confirmed ∨ d'.state = .destroyed
  destroyed : d.state = .destroyed → d'.state = .destroyed
  routes : (∀ m refresh, call = .response m refresh → ¬ Confirming d m) → d'.routeSet = d.routeSet
  target : d'.remTarget = (Brings d call).or d.remTarget
  older : ∀ m refresh n, call = .request m refresh → m.cseq = some n → d.remSeq.any (n ≤ ·) = true → d' = d
  newer : ∀ m refresh n, call = .request m refresh → m.cseq = some n →
    d.remSeq.any (n ≤ ·) = false → d'.remSeq = some n
  seq : (∀ m refresh, call ≠ .request m refresh) → d'.remSeq = d.remSeq
  hooked : d'.Hooked parseUri

/-- What a new dialog is. -/
def StartOk (d : Dialog) : Start → Prop
  | .uac _ _ _ _ ruri => d.state = .new ∧ d.routeSet = [] ∧ d.remTarget = none ∧ d.remUri = ruri ∧ d.remSeq = none
  | .uas m code _ => d.state = (if code < 100 then .new else if code < 200 then .early else .confirmed) ∧
      d.routeSet = entries .recordRoute m.hdrs ∧ d.remTarget = m.contact.target ∧ d.remSeq = m.cseq

/-- What a whole run keeps. -/
structure Conforms (start : Start) (d : Dialog) (calls : List Call) : Prop where
  created : StartOk d start ∧ d.Hooked parseUri
  steps : ∀ pre call post, calls = pre ++ call :: post →
    StepOk parseUri (d.run parseUri pre) call ((d.run parseUri pre).step parseUri call).2
  recorded : ∀ m code tag, start = .uas m code tag → (d.run parseUri calls).routeSet = entries .recordRoute m.hdrs
  replied : ∀ pre m refresh post, calls = pre ++ .response m refresh :: post → Confirming (d.run parseUri pre) m →
    (d.run parseUri calls).routeSet = (entries .recordRoute m.hdrs).reverse

/-! ## Messages that can be parsed -/

/-- Each Record-Route field has entries, and their URIs can be parsed. -/
def RoutesParse (hdrs : List Hdr) : Prop :=
  ∀ h ∈ hdrs, h.type = .recordRoute → ∃ r t, h.rr = some (r :: t) ∧ ∀ r' ∈ r :: t, (parseUri r'.uri.text).isSome

structure Response.Parses (m : Response) : Prop where
  headers : m.headers = true
  contact : m.contact ≠ .bad
  toTag : m.toTag.isSome
  routes : RoutesParse parseUri m.hdrs

structure Request.Parses (m : Request) : Prop where
  headers : m.headers = true
  contact : m.contact ≠ .bad
  cseq : m.cseq.isSome
  fields : m.fromTag.isSome ∧ m.callid.isSome ∧ m.fromUri.isSome ∧ m.toUri.isSome
  routes : RoutesParse parseUri m.hdrs

/-- The messages can be parsed. A positive final reply to a dialog that is not confirmed comes on
the side that sent the request, is not a 299 and has a Contact. -/
def Fine (start : Start) (d : Dialog) : Call → Prop
  | .response m _ =>
    m.Parses parseUri ∧ (Confirming d m → (∀ req code tag, start ≠ .uas req code tag) ∧
      m.code ≠ 299 ∧ m.contact.target.isSome)
  | .request m _ => m.Parses parseUri
  | .setTarget _ _ => True

/-! ## One call -/

variable {calls : List Call} {call : Call}

section Steps

variable {parseUri} {d : Dialog} {start : Start}

variable {hdrs : List Hdr} {m : Response} {refresh : TargetRefresh} {pre post : List Call} {d0 : Dialog}

section

variable (h : RoutesParse parseUri hdrs)

include h

theorem collect_eq (linked : Bool) (rs) :
    collect linked hdrs rs = some (if linked then rs ++ entries .recordRoute hdrs else rs) := by
  induction hdrs generalizing rs with
  | nil => cases linked <;> simp [collect, entries]
  | cons x hs ih =>
    have ih := ih fun y hy => h y (mem_cons_of_mem _ hy)
    unfold collect
    by_cases hx : x.type = .recordRoute
    · obtain ⟨r, t, hrr, -⟩ := h x mem_cons_self hx
      rw [if_neg (by simp [hx]), hrr]
      simp only [ih]
      cases linked <;> simp [entries, hx, hrr]
    · rw [if_pos hx, ih]
      simp [entries, hx]

theorem getRouteSet_nil (reverse : Bool) :
    getRouteSet hdrs [] reverse = some (if reverse then (entries .recordRoute hdrs).reverse
      else entries .recordRoute hdrs) := by
  unfold getRouteSet
  rw [collect_eq fun x hx => h x ((dropWhile_sublist _).mem hx), entries_dropWhile]
  rfl

theorem parses_of_mem {r} (hr : r ∈ entries .recordRoute hdrs) : (parseUri r.uri.text).isSome := by
  obtain ⟨x, hx, hmem⟩ := mem_flatMap.1 hr
  obtain ⟨hx, htype⟩ := mem_filter.1 hx
  obtain ⟨r', t, hrr, hall⟩ := h x hx (by simpa using htype)
  rw [hrr] at hmem
  exact hall r hmem

end

/-- The hooks can be computed if the URIs can be parsed. -/
theorem recalculate_spec (h : ∀ r ∈ d.routeSet, (parseUri r.uri.text).isSome) (err : Int) :
    ∃ hooks, d.recalculate parseUri err = (0, d.withHooks hooks) ∧ (d.withHooks hooks).Hooked parseUri := by
  have hsome : (d.calculateHooks parseUri).isSome := by
    unfold Dialog.calculateHooks
    cases hrs : d.routeSet with
    | nil => rfl
    | cons r rs =>
      have := h r (by rw [hrs]; exact mem_cons_self)
      simpa using this
  obtain ⟨⟨hooks, nhop⟩, hh⟩ := isSome_iff_exists.1 hsome
  refine ⟨hooks, ?_, nhop, hh⟩
  unfold Dialog.recalculate
  rw [hh]
  rfl

/-- A dialog in a run: its hooks are right, the URIs of its route set can be parsed, and on the side
that sent the request it has no route set before it is confirmed. -/
structure Inv (parseUri : List UInt8 → Option SipUri) (start : Start) (d : Dialog) : Prop where
  hooked : d.Hooked parseUri
  parse : ∀ r ∈ d.routeSet, (parseUri r.uri.text).isSome
  new : (∀ req code tag, start ≠ .uas req code tag) → d.state ≠ .early ∧ (d.state = .new → d.routeSet = [])

/-- A positive final reply to a dialog without a route set. -/
theorem confirm_spec (hm : m.Parses parseUri) (hrs : d.routeSet = []) :
    ∃ d', d.confirm parseUri m = (0, d') ∧ d'.state = .confirmed ∧
      d'.routeSet = (entries .recordRoute m.hdrs).reverse ∧
      d'.remTarget = m.contact.target ∧ d'.remSeq = d.remSeq ∧ d'.Hooked parseUri := by
  obtain ⟨tag, htag⟩ := isSome_iff_exists.1 hm.toTag
  have hcontact := hm.contact
  have hroutes := getRouteSet_nil hm.routes true
  have hresp : ∃ d', d.response2dlg m = (0, d') ∧
      d'.routeSet = (entries .recordRoute m.hdrs).reverse ∧ d'.remTarget = m.contact.target ∧
      d'.remSeq = d.remSeq := by
    unfold Dialog.response2dlg
    rw [hm.headers, htag]
    cases hc : m.contact with
    | bad => exact absurd hc hcontact
    | absent | uri s => by_cases htag : tag = [] <;> simp [htag, hrs, hroutes]
  obtain ⟨d', hd', hrs', htarget, hseq⟩ := hresp
  have hparse : ∀ r ∈ ({ d' with state := .confirmed } : Dialog).routeSet, (parseUri r.uri.text).isSome := by
    intro r hr
    rw [show ({ d' with state := .confirmed } : Dialog).routeSet = d'.routeSet from rfl, hrs', mem_reverse] at hr
    exact parses_of_mem hm.routes hr
  obtain ⟨hooks, hre, hhooked⟩ := recalculate_spec hparse (-2)
  refine ⟨({ d' with state := .confirmed } : Dialog).withHooks hooks, ?_, rfl, hrs', htarget, hseq, hhooked⟩
  unfold Dialog.confirm
  rw [hd']
  exact hre

/-- A target refresh. -/
theorem refresh_spec (h : ∀ r ∈ d.routeSet, (parseUri r.uri.text).isSome) (contact) (err : Int) :
    ∃ hooks, (d.refreshTarget contact).recalculate parseUri err = (0, (d.refreshTarget contact).withHooks hooks) ∧
      ((d.refreshTarget contact).withHooks hooks).Hooked parseUri := by
  apply recalculate_spec
  unfold Dialog.refreshTarget
  cases contact.target <;> exact h

theorem refreshTarget_fields (contact) :
    (d.refreshTarget contact).state = d.state ∧ (d.refreshTarget contact).routeSet = d.routeSet ∧
    (d.refreshTarget contact).remSeq = d.remSeq ∧
    (d.refreshTarget contact).remTarget = contact.target.or d.remTarget := by
  unfold Dialog.refreshTarget
  cases contact.target <;> exact ⟨rfl, rfl, rfl, rfl⟩

section

variable (h : d.Hooked parseUri) (hnot : ¬ Confirming d m) (hbrings : Brings d (.response m refresh) = none)

include h hnot hbrings

/-- A reply that does nothing, or only ends the dialog. -/
theorem stepOk_state {state} (hs : state = d.state ∨ state = .destroyed) :
    StepOk parseUri d (.response m refresh) { d with state := state } where
  confirmed := by
    rintro _ _ ⟨⟩ hc
    exact absurd hc hnot
  stays hc := hs.imp_left (·.trans hc)
  destroyed hd := hs.elim (·.trans hd) id
  routes _ := rfl
  target := by rw [hbrings, none_or]
  older _ _ _ h := by cases h
  newer _ _ _ h := by cases h
  seq _ := rfl
  hooked := h

end

theorem Inv.destroyed (h : Inv parseUri start d) :
    Inv parseUri start { d with state := .destroyed } :=
  ⟨h.hooked, h.parse, fun _ => ⟨nofun, nofun⟩⟩

theorem brings_none (hnot : ¬ Confirming d m)
    (h : d.state = .confirmed → 200 ≤ m.code → m.code ≤ 299 → m.refreshes refresh = false) :
    Brings d (.response m refresh) = none := by
  simp only [Brings]
  rw [if_neg hnot, if_neg]
  rintro ⟨hs, hlo, hhi, href⟩
  rw [h hs hlo hhi] at href
  cases href

/-- A reply that confirms the dialog. -/
theorem stepOk_confirm (h : Inv parseUri start d) (hf : Fine parseUri start d (.response m refresh))
    (hc : Confirming d m) :
    ∃ d', d.confirm parseUri m = (0, d') ∧ StepOk parseUri d (.response m refresh) d' ∧
      Inv parseUri start d' := by
  obtain ⟨hm, hfine⟩ := hf
  obtain ⟨hstart, -, hcontact⟩ := hfine hc
  obtain ⟨hearly, hnew⟩ := h.new hstart
  have hstate := hc.1.resolve_right hearly
  obtain ⟨d', hd', hs, hrs, htarget, hseq, hhooked⟩ := confirm_spec hm (hnew hstate)
  obtain ⟨s, hcontact⟩ := isSome_iff_exists.1 hcontact
  refine ⟨d', hd', ?_, ?_⟩
  · constructor
    · rintro _ _ ⟨⟩ _
      exact ⟨hs, hrs⟩
    · exact fun _ => .inl hs
    · rw [hstate]
      exact nofun
    · exact fun hnot => absurd hc (hnot m refresh rfl)
    · have hbrings : Brings d (.response m refresh) = m.contact.target := if_pos hc
      rw [hbrings, htarget, hcontact, some_or]
    · exact fun _ _ _ h => by cases h
    · exact fun _ _ _ h => by cases h
    · exact fun _ => hseq
    · exact hhooked
  · refine ⟨hhooked, ?_, fun _ => ⟨by rw [hs]; exact nofun, fun hnew => ?_⟩⟩
    · intro r hr
      rw [hrs, mem_reverse] at hr
      exact parses_of_mem hm.routes hr
    · rw [hs] at hnew
      cases hnew

theorem confirmedResp_refresh (hm : m.Parses parseUri) (hlo : 200 ≤ m.code) (hhi : m.code ≤ 299)
    (href : m.refreshes refresh = true) :
    d.dlgConfirmedRespUac parseUri m refresh = (d.refreshTarget m.contact).recalculate parseUri (-1) := by
  unfold Dialog.dlgConfirmedRespUac
  rw [if_neg (by omega), if_neg (by omega), if_pos href, hm.headers]
  cases hc : m.contact with
  | bad => exact absurd hc hm.contact
  | absent | uri s => rfl

theorem not_confirming_of_settled (hs : d.state = .confirmed ∨ d.state = .destroyed) : ¬ Confirming d m := by
  rintro ⟨hnew | hearly, -⟩
  · rcases hs with hs | hs <;> rw [hs] at hnew <;> cases hnew
  · rcases hs with hs | hs <;> rw [hs] at hearly <;> cases hearly

/-- A reply to a dialog that is confirmed. -/
theorem stepOk_confirmed (h : Inv parseUri start d) (hm : m.Parses parseUri)
    (hs : d.state = .confirmed) :
    StepOk parseUri d (.response m refresh) (d.dlgConfirmedRespUac parseUri m refresh).2 ∧
      Inv parseUri start (d.dlgConfirmedRespUac parseUri m refresh).2 := by
  have hnot : ¬ Confirming d m := not_confirming_of_settled (.inl hs)
  by_cases h481 : m.code = 481
  · unfold Dialog.dlgConfirmedRespUac
    rw [if_pos h481]
    refine ⟨stepOk_state h.hooked hnot (brings_none hnot fun _ _ hhi => ?_) (.inr rfl), h.destroyed⟩
    omega
  by_cases hcode : m.code < 200 ∨ 300 ≤ m.code
  · unfold Dialog.dlgConfirmedRespUac
    rw [if_neg h481, if_pos hcode]
    refine ⟨stepOk_state h.hooked hnot (brings_none hnot fun _ hlo hhi => ?_) (.inl rfl), h⟩
    omega
  cases href : m.refreshes refresh with
  | false =>
    unfold Dialog.dlgConfirmedRespUac
    rw [if_neg h481, if_neg hcode, if_neg (by simp [href])]
    exact ⟨stepOk_state h.hooked hnot (brings_none hnot fun _ _ _ => href) (.inl rfl), h⟩
  | true =>
    obtain ⟨hooks, hre, hhooked⟩ := refresh_spec h.parse m.contact (-1)
    obtain ⟨hstate, hrs, hseq, htarget⟩ := @refreshTarget_fields d m.contact
    have hstep := (confirmedResp_refresh hm (by omega) (by omega) href).trans hre
    rw [hstep]
    refine ⟨?_, hhooked, ?_, fun hstart => ?_⟩
    · constructor
      · rintro _ _ ⟨⟩ hc
        exact absurd hc hnot
      · exact fun _ => .inl (hstate.trans hs)
      · exact fun hd => hstate.trans hd
      · exact fun _ => hrs
      · have hbrings : Brings d (.response m refresh) = m.contact.target := by
          simp only [Brings]
          rw [if_neg hnot, if_pos ⟨hs, by omega, by omega, href⟩]
        rw [hbrings]
        exact htarget
      · exact fun _ _ _ h => by cases h
      · exact fun _ _ _ h => by cases h
      · exact fun _ => hseq
      · exact hhooked
    · change ∀ r ∈ (d.refreshTarget m.contact).routeSet, _
      rw [hrs]
      exact h.parse
    · change (d.refreshTarget m.contact).state ≠ _ ∧
        ((d.refreshTarget m.contact).state = _ → (d.refreshTarget m.contact).routeSet = _)
      rw [hstate, hrs]
      exact h.new hstart

theorem stepOk_response (h : Inv parseUri start d) (hf : Fine parseUri start d (.response m refresh)) :
    StepOk parseUri d (.response m refresh) (d.dlgResponseUac parseUri m refresh).2 ∧
      Inv parseUri start (d.dlgResponseUac parseUri m refresh).2 := by
  obtain ⟨hm, hfine⟩ := hf
  -- a reply that is no positive final one leaves the dialog as it is or ends it
  have hother : ∀ {d' : Dialog}, ¬ Confirming d m → d.state ≠ .confirmed → d' = d ∨
      d' = { d with state := .destroyed } →
      StepOk parseUri d (.response m refresh) d' ∧ Inv parseUri start d' := by
    intro d' hnot hs hd'
    have hbrings : Brings d (.response m refresh) = none := brings_none hnot fun hc => absurd hc hs
    rcases hd' with rfl | rfl
    · exact ⟨stepOk_state h.hooked hnot hbrings (.inl rfl), h⟩
    · exact ⟨stepOk_state h.hooked hnot hbrings (.inr rfl), h.destroyed⟩
  unfold Dialog.dlgResponseUac
  cases hs : d.state with
  | new =>
    unfold Dialog.dlgNewRespUac
    split_ifs with hlo hhi
    · exact hother (fun hc => by have := hc.2.1; omega) (by rw [hs]; exact nofun) (.inl rfl)
    · obtain ⟨d', hd', hok⟩ := stepOk_confirm h ⟨hm, hfine⟩ ⟨.inl hs, by omega, by omega⟩
      rw [hd']
      exact hok
    · refine hother (fun hc => ?_) (by rw [hs]; exact nofun) (.inr rfl)
      have hne := (hfine hc).2.1
      have hle := hc.2.2
      omega
  | early =>
    unfold Dialog.dlgEarlyRespUac
    split_ifs with hlo hhi
    · exact hother (fun hc => by have := hc.2.1; omega) (by rw [hs]; exact nofun) (.inl rfl)
    · obtain ⟨d', hd', hok⟩ := stepOk_confirm h ⟨hm, hfine⟩ ⟨.inr hs, by omega, by omega⟩
      rw [hd']
      exact hok
    · exact hother (fun hc => by have := hc.2.2; omega) (by rw [hs]; exact nofun) (.inr rfl)
  | confirmed => exact stepOk_confirmed h hm hs
  | destroyed => exact hother (not_confirming_of_settled (.inr hs)) (by rw [hs]; exact nofun) (.inl rfl)

/-- A request that is new and refreshes the target. -/
theorem requestUas_refresh {m n} (hm : m.Parses parseUri) (hn : m.cseq = some n)
    (hnew : d.remSeq.any (n ≤ ·) = false) (href : m.refreshes refresh = true) : d.dlgRequestUas parseUri m refresh =
      (({ d with remSeq := some n } : Dialog).refreshTarget m.contact).recalculate parseUri (-1) := by
  unfold Dialog.dlgRequestUas
  rw [hm.headers, hn]
  simp only [Bool.not_true, Bool.false_eq_true, if_false, hnew, href, if_true]
  cases hc : m.contact with
  | bad => exact absurd hc hm.contact
  | absent | uri s => rfl

theorem stepOk_request {m} (h : Inv parseUri start d) (hm : m.Parses parseUri) :
    StepOk parseUri d (.request m refresh) (d.dlgRequestUas parseUri m refresh).2 ∧
      Inv parseUri start (d.dlgRequestUas parseUri m refresh).2 := by
  obtain ⟨n, hn⟩ := isSome_iff_exists.1 hm.cseq
  cases hold : d.remSeq.any (n ≤ ·) with
  | true =>
    have hbrings : Brings d (.request m refresh) = none := by simp [Brings, hn, hold]
    have hstep : d.dlgRequestUas parseUri m refresh = (0, d) := by
      unfold Dialog.dlgRequestUas
      rw [hm.headers, hn]
      simp only [Bool.not_true, Bool.false_eq_true, if_false, hold, if_true]
    rw [hstep]
    refine ⟨⟨fun _ _ h => (by cases h), .inl, id, fun _ => rfl,
      by rw [hbrings, none_or], fun _ _ _ _ _ _ => rfl, ?_, fun _ => rfl, h.hooked⟩, h⟩
    rintro _ _ n' ⟨⟩ hn' hnew
    rw [hn] at hn'
    cases hn'
    rw [hold] at hnew
    cases hnew
  | false =>
    -- what is left to show is the same with and without a refresh
    have hok : ∀ {d' : Dialog}, d'.state = d.state → d'.routeSet = d.routeSet → d'.remSeq = some n →
        d'.remTarget = (Brings d (.request m refresh)).or d.remTarget → d'.Hooked parseUri →
        StepOk parseUri d (.request m refresh) d' ∧ Inv parseUri start d' := by
      intro d' hs hrs hseq htarget hhooked
      refine ⟨⟨fun _ _ h => (by cases h), fun hc => .inl (hs.trans hc), fun hd => hs.trans hd,
        fun _ => hrs, htarget, ?_, ?_, fun hne => absurd rfl (hne _ _),
        hhooked⟩, hhooked, hrs ▸ h.parse, by rw [hs, hrs]; exact h.new⟩
      · rintro _ _ n' ⟨⟩ hn' hold'
        rw [hn] at hn'
        cases hn'
        rw [hold] at hold'
        cases hold'
      · rintro _ _ n' ⟨⟩ hn' -
        rw [hn] at hn'
        cases hn'
        exact hseq
    cases href : m.refreshes refresh with
    | false =>
      have hstep : d.dlgRequestUas parseUri m refresh = (0, { d with remSeq := some n }) := by
        unfold Dialog.dlgRequestUas
        rw [hm.headers, hn]
        simp only [Bool.not_true, Bool.false_eq_true, if_false, hold, href]
      rw [hstep]
      exact hok rfl rfl rfl (by simp [Brings, href]) h.hooked
    | true =>
      obtain ⟨hooks, hre, hhooked⟩ := @refresh_spec parseUri { d with remSeq := some n } h.parse m.contact (-1)
      obtain ⟨hs, hrs, hseq, htarget⟩ := @refreshTarget_fields { d with remSeq := some n } m.contact
      rw [(requestUas_refresh hm hn hold href).trans hre]
      refine hok hs hrs hseq (htarget.trans ?_) hhooked
      simp [Brings, hn, hold, href]

theorem stepOk_setTarget (h : Inv parseUri start d) {ruri duri} :
    StepOk parseUri d (.setTarget ruri duri) (d.setDlgTarget parseUri ruri duri).2 ∧
      Inv parseUri start (d.setDlgTarget parseUri ruri duri).2 := by
  obtain ⟨hooks, hre, hhooked⟩ :=
    @recalculate_spec parseUri
      { d with remTarget := some ruri, dstUri := duri.filter (·.text ≠ []) } h.parse (-1)
  rw [Dialog.setDlgTarget, hre]
  exact ⟨⟨fun _ _ h => (by cases h), .inl, id, fun _ => rfl, rfl, fun _ _ _ h => (by cases h),
    fun _ _ _ h => (by cases h),
    fun _ => rfl, hhooked⟩, hhooked, h.parse, h.new⟩

/-- What a call does, in a dialog of a run. -/
theorem step_spec (h : Inv parseUri start d) (hf : Fine parseUri start d call) :
    StepOk parseUri d call (d.step parseUri call).2 ∧ Inv parseUri start (d.step parseUri call).2 := by
  cases call with
  | response m refresh => exact stepOk_response h hf
  | request m refresh => exact stepOk_request h hf
  | setTarget ruri duri => exact stepOk_setTarget h

/-! ## Runs -/

/-- Each call is fine in the state it finds. -/
def FineRun (parseUri : List UInt8 → Option SipUri) (start : Start) (d : Dialog) (calls : List Call) : Prop :=
  ∀ pre call post, calls = pre ++ call :: post → Fine parseUri start (d.run parseUri pre) call

theorem run_inv (h : Inv parseUri start d) (hf : FineRun parseUri start d calls) :
    Inv parseUri start (d.run parseUri calls) := by
  induction calls using List.reverseRecOn with
  | nil => exact h
  | append_singleton calls call ih =>
    have hpre : FineRun parseUri start d calls := fun pre c post heq => hf pre c (post ++ [call]) (by simp [heq])
    rw [Dialog.run_append]
    exact (step_spec (ih hpre) (hf calls call [] rfl)).2

theorem fineRun_pre (hf : FineRun parseUri start d (pre ++ post)) : FineRun parseUri start d pre :=
  fun pre' c post' heq => hf pre' c (post' ++ post) (by simp [heq])

section

variable (h : Inv parseUri start d) (hf : FineRun parseUri start d calls)

include h hf

/-- The route set stays as long as no reply confirms the dialog. -/
theorem routeSet_run
    (hnot : ∀ pre m refresh post, calls = pre ++ .response m refresh :: post →
      ¬ Confirming (d.run parseUri pre) m) :
    (d.run parseUri calls).routeSet = d.routeSet := by
  induction calls using List.reverseRecOn with
  | nil => rfl
  | append_singleton calls call ih =>
    have hpre := fineRun_pre hf
    have hstep := (step_spec (run_inv h hpre) (hf calls call [] rfl)).1
    rw [Dialog.run_append]
    refine (hstep.routes ?_).trans (ih hpre fun pre m refresh post heq => hnot pre m refresh
      (post ++ [call]) (by simp [heq]))
    rintro m refresh rfl
    exact hnot calls m refresh [] rfl

/-- A dialog that is confirmed or destroyed is never confirmed again. -/
theorem settled_run (hs : d.state = .confirmed ∨ d.state = .destroyed) :
    (d.run parseUri calls).state = .confirmed ∨ (d.run parseUri calls).state = .destroyed := by
  induction calls using List.reverseRecOn with
  | nil => exact hs
  | append_singleton calls call ih =>
    have hpre := fineRun_pre hf
    have hstep := (step_spec (run_inv h hpre) (hf calls call [] rfl)).1
    rw [Dialog.run_append]
    rcases ih hpre with hc | hd
    · exact hstep.stays hc
    · exact .inr (hstep.destroyed hd)

end

theorem FineRun.rest (hf : FineRun parseUri start d (pre ++ post)) :
    FineRun parseUri start (d.run parseUri pre) post := by
  intro pre' c post' heq
  rw [← Dialog.run_append]
  exact hf (pre ++ pre') c post' (by simp [heq])

/-- The reply that confirmed a dialog is the one its route set is from. -/
theorem replied_run (h : Inv parseUri start d)
    (hf : FineRun parseUri start d (pre ++ .response m refresh :: post)) (hc : Confirming (d.run parseUri pre) m) :
    (d.run parseUri (pre ++ .response m refresh :: post)).routeSet = (entries .recordRoute m.hdrs).reverse := by
  have hpre := run_inv h (fineRun_pre hf)
  obtain ⟨hstep, hinv⟩ := step_spec hpre (hf pre _ post rfl)
  obtain ⟨hs, hrs⟩ := hstep.confirmed m refresh rfl hc
  have hrest : FineRun parseUri start ((d.run parseUri pre).step parseUri (.response m refresh)).2 post :=
    @FineRun.rest parseUri (d.run parseUri pre) start [.response m refresh] post hf.rest
  rw [Dialog.run_append, Dialog.run_cons, ← hrs]
  apply routeSet_run hinv hrest
  rintro pre' m' refresh' post' rfl
  exact not_confirming_of_settled (settled_run hinv (fineRun_pre hrest) (.inl hs))

/-! ## New dialogs -/

theorem created_spec {err} (h : d0.created parseUri err = some d)
    (hparse : ∀ r ∈ d0.routeSet, (parseUri r.uri.text).isSome) :
    ∃ hooks, d = d0.withHooks hooks ∧ d.Hooked parseUri := by
  obtain ⟨hooks, hre, hhooked⟩ := recalculate_spec hparse err
  rw [Dialog.created, hre] at h
  cases h
  exact ⟨hooks, rfl, hhooked⟩

theorem uac_spec {cid ltag luri lseq ruri} (h : newDlgUac parseUri cid ltag lseq luri ruri = some d) :
    StartOk d (.uac cid ltag lseq luri ruri) ∧ Inv parseUri (.uac cid ltag lseq luri ruri) d := by
  obtain ⟨hooks, rfl, hhooked⟩ := created_spec h nofun
  exact ⟨⟨rfl, rfl, rfl, rfl, rfl⟩, hhooked, nofun, fun _ => ⟨nofun, fun _ => rfl⟩⟩

theorem request2dlg_spec {m} (hm : m.Parses parseUri) (h : request2dlg m .zero = some d0) :
    d0.routeSet = entries .recordRoute m.hdrs ∧ d0.remTarget = m.contact.target ∧ d0.remSeq = m.cseq := by
  obtain ⟨-, -, -, htarget⟩ := @refreshTarget_fields .zero m.contact
  have hrs := getRouteSet_nil hm.routes false
  obtain ⟨⟨rtag, hrtag⟩, ⟨callid, hcallid⟩, ⟨fromUri, hfrom⟩, ⟨toUri, hto⟩⟩ :=
    hm.fields.imp isSome_iff_exists.1 (And.imp isSome_iff_exists.1 (And.imp isSome_iff_exists.1 isSome_iff_exists.1))
  obtain ⟨cseq, hcseq⟩ := isSome_iff_exists.1 hm.cseq
  have hzero : Dialog.zero.routeSet = [] := rfl
  unfold request2dlg at h
  rw [hm.headers, hrtag, hcallid, hfrom, hto, hcseq, hzero, hrs] at h
  cases hc : m.contact with
  | bad => exact absurd hc hm.contact
  | absent =>
    rw [hc] at h
    cases h
    exact ⟨rfl, rfl, hcseq.symm⟩
  | uri s =>
    rw [hc] at h htarget
    cases h
    exact ⟨rfl, htarget.trans (or_none), hcseq.symm⟩

theorem uas_spec {m code tag} (hm : m.Parses parseUri) (h : newDlgUas parseUri m code tag = some d) :
    StartOk d (.uas m code tag) ∧ Inv parseUri (.uas m code tag) d := by
  obtain ⟨d0, hd0, h⟩ := bind_eq_some_iff.1 h
  obtain ⟨hrs, htarget, hseq⟩ := request2dlg_spec hm hd0
  have hparse : ∀ r ∈ d0.routeSet, (parseUri r.uri.text).isSome := by
    rw [hrs]
    exact fun r hr => parses_of_mem hm.routes hr
  obtain ⟨hooks, rfl, hhooked⟩ := created_spec h hparse
  exact ⟨⟨rfl, hrs, htarget, hseq⟩, hhooked, hparse, fun hne => absurd rfl (hne m code tag)⟩

end Steps

theorem FineRun.nil (start : Start) (d : Dialog) : FineRun parseUri start d [] := by
  intro pre call post heq
  cases pre <;> cases heq

theorem FineRun.cons {start d} (h : Fine parseUri start d call)
    (hf : FineRun parseUri start (d.step parseUri call).2 calls) : FineRun parseUri start d (call :: calls) := by
  intro pre call' post heq
  cases pre with
  | nil =>
    cases heq
    exact h
  | cons c pre =>
    cases heq
    exact hf pre call' post rfl

/-! Small messages: a request with two routes, and a reply with the given code, Contact and routes. -/

def smallRoutes : List Rr := [looseRoute, ⟨⟨200, bytes "<sip:s>"⟩, ⟨201, bytes "sip:s"⟩⟩]

def smallRequest : Request :=
  ⟨true, true, .absent, some 1, some [], some [], some ⟨10, bytes "<sip:a>"⟩,
    some (bytes "<sip:b>"), [⟨.recordRoute, some smallRoutes⟩]⟩

def smallResponse (code : Nat) (contact : Contact) (hdrs : List Hdr) : Response :=
  ⟨code, true, contact, some (bytes "r"), hdrs, none⟩

def smallStart : Start := .uac (bytes "c") (bytes "l") 1 (bytes "<sip:a>") ⟨10, bytes "<sip:b>"⟩

/-- A dialog conforms in every run in which the messages can be parsed and its positive final
replies come as they should. -/
theorem dialog_conforms (start : Start) (calls : List Call) {d : Dialog} (hd : start.create parseUri = some d)
    (hreq : ∀ m code tag, start = .uas m code tag → m.Parses parseUri) (hf : FineRun parseUri start d calls) :
    Conforms parseUri start d calls := by
  have hstart : StartOk d start ∧ Inv parseUri start d := by
    cases start with
    | uac cid ltag lseq luri ruri => exact uac_spec hd
    | uas m code tag => exact uas_spec (hreq m code tag rfl) hd
  obtain ⟨hok, hinv⟩ := hstart
  refine ⟨⟨hok, hinv.hooked⟩, ?_, ?_, ?_⟩
  · rintro pre call post rfl
    exact (step_spec (run_inv hinv (fineRun_pre hf)) (hf pre call post rfl)).1
  · rintro m code tag rfl
    have hnot : ∀ pre m' refresh post, calls = pre ++ .response m' refresh :: post →
        ¬ Confirming (d.run parseUri pre) m' :=
      fun pre m' refresh post heq hc => ((hf pre _ post heq).2 hc).1 m code tag rfl
    exact (routeSet_run hinv hf hnot).trans hok.2.1
  · rintro pre m refresh post rfl hc
    exact replied_run hinv hf hc

theorem dialog_conforms_uac : ∃ d, smallStart.create smallUri = some d ∧ Conforms smallUri smallStart d
    [.response (smallResponse 200 (.uri ⟨300, bytes "sip:b@h"⟩) [⟨.recordRoute, some smallRoutes⟩])
      .unknown, .request smallRequest .unknown] := by
  have hparse : RoutesParse smallUri [⟨.recordRoute, some smallRoutes⟩] := by
    intro h hh _
    cases mem_singleton.1 hh
    exact ⟨_, _, rfl, fun _ _ => rfl⟩
  have hresp : (smallResponse 200 (.uri ⟨300, bytes "sip:b@h"⟩) [⟨.recordRoute, some smallRoutes⟩]).Parses smallUri :=
    ⟨rfl, nofun, rfl, hparse⟩
  have hreq : smallRequest.Parses smallUri := ⟨rfl, nofun, rfl, ⟨rfl, rfl, rfl, rfl⟩, hparse⟩
  refine ⟨_, rfl, dialog_conforms smallUri smallStart _ rfl nofun
    (.cons _ ⟨hresp, fun _ => ⟨nofun, by decide, rfl⟩⟩ ?_)⟩
  exact .cons _ hreq (.nil _ _ _)

/-- A 299 ends a new dialog; a positive final reply to an early dialog of the other side turns its
route set around; and one without a Contact takes the target away that was set. -/
theorem dialog_breaks :
    (smallStart.create smallUri).map
    (fun d => (d.run smallUri [.response (smallResponse 299 .absent []) .unknown]).state) =
      some .destroyed ∧
    (newDlgUas smallUri smallRequest 180 []).map
    (fun d => (d.run smallUri [.response (smallResponse 200 .absent []) .unknown]).routeSet) =
      some smallRoutes.reverse ∧
    (smallStart.create smallUri).map (fun d =>
      (d.run smallUri [.setTarget ⟨300, bytes "sip:b@h"⟩ none,
        .response (smallResponse 200 .absent []) .unknown]).remTarget) = some none := by
  decide +kernel

end SipRouter.Dlg
