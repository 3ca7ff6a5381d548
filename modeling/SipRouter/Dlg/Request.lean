import SipRouter.Dlg.Hooks

/-!
# Requests within a dialog (`build_uac_req` in `t_msgbuilder.c`)

The length of a request is computed first and its text is written then, each by its own
walk over the dialog. Where the request is kept in the transaction, the Request-URI and
some fields are remembered by place and length.
-/

namespace SipRouter.Dlg

open Msg List
open Option hiding map_map

def routePrefix : List UInt8 := bytes "Route: "

def routeSeparator : List UInt8 := bytes ", "

def sipVersion : List UInt8 := bytes "SIP/2.0"

def tagParam : List UInt8 := bytes ";tag="

/-! ## The route set -/

def Dialog.withHooks (d : Dialog) (hooks : Hooks) : Dialog := { d with hooks := hooks }

/-- `calculate_routeset_length`. -/
def Dialog.calculateRoutesetLength (d : Dialog) : Int :=
  if d.routeSet = [] then 0
  else
    let len : Int :=
      routePrefix.length + (d.hooks.firstRoute.map fun r => r.text.text.length + routeSeparator.length).sum
    let len := match d.hooks.lastRoute with
      | some last => len + (if d.hooks.firstRoute ≠ [] then routeSeparator.length else 0) + (last.text.length + 2)
      | none => len - routeSeparator.length
    len + crlf.length

/-- The `while` of `print_routeset`. -/
def printRoutes (w : List UInt8) : List Rr → List UInt8
  | [] => w
  | r :: rs =>
    let w := w ++ r.text.text
    printRoutes (if rs ≠ [] then w ++ routeSeparator else w) rs

/-- `print_routeset`. -/
def Dialog.printRouteset (d : Dialog) (w : List UInt8) : List UInt8 :=
  let w := if d.hooks.firstRoute ≠ [] ∨ d.hooks.lastRoute.isSome then w ++ routePrefix else w
  let w := printRoutes w d.hooks.firstRoute
  let w := match d.hooks.lastRoute with
    | some last => (if d.hooks.firstRoute ≠ [] then w ++ routeSeparator else w) ++ bytes "<" ++ last.text ++ bytes ">"
    | none => w
  if d.hooks.firstRoute ≠ [] ∨ d.hooks.lastRoute.isSome then w ++ crlf else w

/-! ## The request -/

/-- A part of the buffer. -/
structure Slice where
  pos : Nat
  len : Nat
  deriving DecidableEq

def Slice.of (s : Slice) (text : List UInt8) : List UInt8 := (text.drop s.pos).take s.len

/-- `print_content_length`: nine digits at most. -/
def printContentLength (body : Option (List UInt8)) : Option (List UInt8) :=
  let text := int2str (body.getD []).length
  if 10 ≤ text.length then none else some text

/-- `print_cseq_num`. -/
def printCseqNum (value : Nat) : Option (List UInt8) :=
  let text := int2str value
  if 21 < text.length then none else some text

/-- `print_request_uri`. -/
def printRequestUri (w method uri : List UInt8) : List UInt8 × Slice :=
  let w := w ++ method ++ bytes " "
  (w ++ uri ++ (bytes " " ++ sipVersion ++ crlf), ⟨w.length, uri.length⟩)

/-- `print_to` and `print_from`. -/
def printAddr (w name uri tag : List UInt8) : List UInt8 × Slice :=
  let len := name.length + uri.length + crlf.length
  if tag ≠ [] then (w ++ name ++ uri ++ tagParam ++ tag ++ crlf, ⟨w.length, len + (tagParam.length + tag.length)⟩)
  else (w ++ name ++ uri ++ crlf, ⟨w.length, len⟩)

def Dialog.printTo (d : Dialog) (w : List UInt8) : List UInt8 × Slice :=
  printAddr w (bytes "To: ") d.remUri.text d.remTag

def Dialog.printFrom (d : Dialog) (w : List UInt8) : List UInt8 × Slice :=
  printAddr w (bytes "From: ") d.locUri d.locTag

/-- `print_cseq`: what is remembered ends before the method. -/
def printCseq (w cseq method : List UInt8) : List UInt8 × Slice :=
  (w ++ bytes "CSeq: " ++ cseq ++ bytes " " ++ method, ⟨w.length, (bytes "CSeq: ").length + cseq.length⟩)

/-- `print_callid`: it ends the line of the `CSeq` first. -/
def Dialog.printCallid (d : Dialog) (w : List UInt8) : List UInt8 × Slice :=
  let w := w ++ crlf
  (w ++ bytes "Call-ID: " ++ d.callId ++ crlf, ⟨w.length, (bytes "Call-ID: ").length + d.callId.length + crlf.length⟩)

/-- What `build_uac_req` is given besides the dialog. `via` is the field `assemble_via` makes,
`none` if it fails; `agent` is the `User-Agent` field without the line end, if there is to be one.
-/
structure UacReq where
  method : List UInt8
  headers : Option (List UInt8)
  body : Option (List UInt8)
  via : Option (List UInt8)
  agent : Option (List UInt8)

/-- A request that was built, and the places that are remembered. -/
structure Sent where
  text : List UInt8
  len : Int
  allocated : Int
  uri : Slice
  toHdr : Slice
  fromHdr : Slice
  cseqN : Slice
  callid : Slice

/-- The first part of `build_uac_req`, an `int`. -/
def UacReq.length (q : UacReq) (d : Dialog) (uri via cseq clen : List UInt8) : Int :=
  Tcp.toInt32 (q.method.length + 1 + uri.length + 1 + sipVersion.length + crlf.length + via.length +
    ((bytes "To: ").length + d.remUri.text.length + (if d.remTag ≠ [] then
      tagParam.length + d.remTag.length else 0) + crlf.length) +
    ((bytes "From: ").length + d.locUri.length + (if d.locTag ≠ [] then
      tagParam.length + d.locTag.length else 0) + crlf.length) +
    ((bytes "Call-ID: ").length + d.callId.length + crlf.length) +
    ((bytes "CSeq: ").length + cseq.length + 1 + q.method.length + crlf.length) + d.calculateRoutesetLength +
    ((bytes "Content-Length: ").length + clen.length + crlf.length) + (q.agent.elim 0 fun agent =>
      agent.length + crlf.length) +
    (q.headers.elim 0 List.length) + (q.body.elim 0 List.length) + crlf.length)

/-- What `build_uac_req` prints behind the routes. -/
def UacReq.printEnd (q : UacReq) (clen w : List UInt8) : List UInt8 :=
  let w := w ++ bytes "Content-Length: " ++ clen ++ crlf
  let w := q.agent.elim w fun agent => w ++ agent ++ crlf
  let w := q.headers.elim w (w ++ ·)
  let w := w ++ crlf
  q.body.elim w (w ++ ·)

/-- `build_uac_req`, if there is memory. -/
def UacReq.buildUacReq (q : UacReq) (d : Dialog) : Option Sent :=
  (printContentLength q.body).bind fun clen =>
  (printCseqNum d.locSeq).bind fun cseq =>
  d.hooks.requestUri.bind fun uri =>
  q.via.bind fun via =>
    let len := q.length d uri.text via cseq clen
    let (w, uri) := printRequestUri [] q.method uri.text
    let w := w ++ via
    let (w, toHdr) := d.printTo w
    let (w, fromHdr) := d.printFrom w
    let (w, cseqN) := printCseq w cseq q.method
    let (w, callid) := d.printCallid w
    let w := d.printRouteset w
    let w := q.printEnd clen w
    some ⟨w, len, len + 1, uri, toHdr, fromHdr, cseqN, callid⟩

/-! ## What a request should be -/

/-- A `To` or `From` field. -/
def addrField (name uri tag : List UInt8) : List UInt8 :=
  name ++ uri ++ (if tag ≠ [] then tagParam ++ tag else []) ++ crlf

/-- The Route field for a list of entries, if there is one. -/
def routeField (routes : List Entry) : List UInt8 :=
  if routes = [] then [] else routePrefix ++ routeSeparator.intercalate (routes.map Entry.text) ++ crlf

/-- The fields of a request, up to the ones of the caller. -/
def UacReq.fields (q : UacReq) (d : Dialog) (routes : List Entry) (via : List UInt8) : List (List UInt8) :=
  [via, addrField (bytes "To: ") d.remUri.text d.remTag, addrField (bytes "From: ") d.locUri d.locTag,
    bytes "CSeq: " ++ int2str d.locSeq ++ bytes " " ++ q.method ++ crlf,
      bytes "Call-ID: " ++ d.callId ++ crlf, routeField routes,
    bytes "Content-Length: " ++ int2str (q.body.getD []).length ++ crlf, q.agent.elim [] (· ++ crlf)]

/-- The text of a request that is routed in this way. -/
def UacReq.text (q : UacReq) (d : Dialog) (routing : Routing Entry) (via : List UInt8) : List UInt8 :=
  q.method ++ bytes " " ++ routing.requestUri.uri ++ (bytes " " ++ sipVersion ++ crlf) ++
    (q.fields d routing.routes via).flatten ++
    q.headers.getD [] ++ crlf ++ q.body.getD []

/-! ## Both walks over the route set -/

theorem printRoutes_eq {w rs} : printRoutes w rs = w ++ routeSeparator.intercalate (rs.map fun r => r.text.text) := by
  induction rs generalizing w with
  | nil => simp [printRoutes]
  | cons r rs ih =>
    rw [printRoutes, ih]
    cases rs with
    | nil => simp
    | cons r' rs => simp [intercalate_cons_cons]

theorem length_intercalate {sep : List UInt8} {xs : List (List UInt8)} (h : xs ≠ []) :
    (sep.intercalate xs).length + sep.length = (xs.map fun x => x.length + sep.length).sum := by
  induction xs with
  | nil => exact absurd rfl h
  | cons x xs ih =>
    cases xs with
    | nil => simp
    | cons y xs =>
      have := ih (cons_ne_nil _ _)
      rw [intercalate_cons_cons, length_append, length_append, map_cons, sum_cons, ← this]
      omega

theorem intercalate_concat {sep x : List UInt8} {xs} (h : xs ≠ []) :
    sep.intercalate (xs ++ [x]) = sep.intercalate xs ++ sep ++ x := by
  induction xs with
  | nil => exact absurd rfl h
  | cons y xs ih =>
    cases xs with
    | nil => simp [intercalate_cons_cons]
    | cons z xs =>
      have := ih (cons_ne_nil _ _)
      simp only [cons_append, intercalate_cons_cons] at this ⊢
      rw [this]
      simp only [append_assoc]

/-- The entries that are printed for the hooks. -/
def Hooks.routes (h : Hooks) : List Entry :=
  h.firstRoute.map Rr.entry ++ (h.lastRoute.map fun last => Entry.ofUri last.text).toList

theorem Hooks.map_text_routes (h : Hooks) : h.routes.map Entry.text =
    (h.firstRoute.map fun r => r.text.text) ++
    (h.lastRoute.map fun last => bytes "<" ++ last.text ++ bytes ">").toList := by
  unfold Hooks.routes
  rw [map_append, map_map]
  cases h.lastRoute <;> rfl

theorem printRouteset_eq (d : Dialog) (w) : d.printRouteset w = w ++ routeField d.hooks.routes := by
  have htext := d.hooks.map_text_routes
  unfold Dialog.printRouteset routeField
  rw [htext]
  unfold Hooks.routes
  cases d.hooks.firstRoute with
  | nil =>
    cases d.hooks.lastRoute with
    | none | some last => simp [printRoutes]
  | cons r rs =>
    cases d.hooks.lastRoute with
    | none => simp [printRoutes_eq]
    | some last =>
      simp only [printRoutes_eq, map_some, toList_some]
      rw [intercalate_concat (by simp)]
      simp

/-- What the first walk counts too much: with a strict router, a separator if there are entries and
a target, and the name and the end of a field that is not there if there is neither. -/
def Hooks.surplus (h : Hooks) : Nat :=
  if h.firstRoute = [] then if h.lastRoute.isSome then 0 else 7 else if h.lastRoute.isSome then 2 else 0

theorem routesetLength_eq {d : Dialog} (hne : d.routeSet ≠ []) :
    d.calculateRoutesetLength = (routeField d.hooks.routes).length + d.hooks.surplus := by
  have htext := d.hooks.map_text_routes
  have hlt : (bytes "<").length = 1 := rfl
  have hgt : (bytes ">").length = 1 := rfl
  have hsep : routeSeparator.length = 2 := rfl
  unfold Dialog.calculateRoutesetLength routeField Hooks.surplus
  rw [if_neg hne, htext]
  unfold Hooks.routes
  by_cases hfirst : d.hooks.firstRoute = []
  · rw [hfirst]
    cases d.hooks.lastRoute with
    | none => rfl
    | some last =>
      simp [hlt, hgt]
      omega
  · have hsum : (d.hooks.firstRoute.map fun r => r.text.text.length + routeSeparator.length).sum =
        (routeSeparator.intercalate (d.hooks.firstRoute.map fun r => r.text.text)).length + routeSeparator.length := by
      rw [length_intercalate (by simpa using hfirst), map_map]
      rfl
    have hconcat := fun last => @intercalate_concat routeSeparator last
      (d.hooks.firstRoute.map fun r => r.text.text) (by simpa using hfirst)
    rw [hsum]
    cases d.hooks.lastRoute with
    | none =>
      simp [hfirst]
      omega
    | some last =>
      simp [hfirst, hconcat, hlt, hgt, hsep]
      omega

/-! ## A request follows the dialog -/

/-- A dialog whose hooks can be calculated, and the target that they should be calculated for. -/
structure Dialog.Targets (parseUri : List UInt8 → Option SipUri) (d : Dialog) (target : List UInt8) : Prop where
  target : d.target.getRawUri.map Str.text = some target
  parsed : ∀ r ∈ d.routeSet.head?, (parseUri r.uri.text).isSome ∧ r.uri.Bare

/-- A strict router is the only entry and there is a remote target: for more entries the length is
too large, and without a target the walks differ or the target is not in the Route field. -/
def Dialog.Routable (parseUri : List UInt8 → Option SipUri) (d : Dialog) : Prop :=
  ∀ r ∈ d.routeSet.head?, r.entry.loose parseUri = false →
    d.routeSet = [r] ∧ ∃ t, d.remTarget = some t ∧ t.text ≠ [] ∧ t.Bare

theorem Str.length_getRawUri {s u : Str} (h : s.getRawUri = some u) :
    s.Bare ∧ u = s ∨ u.text.length < s.text.length := by
  unfold Str.getRawUri at h
  split_ifs at h with hlast
  · obtain ⟨i, -, rfl⟩ := map_eq_some_iff.1 h
    have hne : s.text ≠ [] := by
      rintro hnil
      simp [hnil] at hlast
    have hpos := length_pos_of_ne_nil hne
    right
    simp only [length_take, length_drop]
    omega
  · exact .inl ⟨hlast, (some.inj h).symm⟩

theorem length_routeField {routes : List Entry} (h : routes ≠ []) (e : Entry) :
    (routeField (routes ++ [e])).length = (routeField routes).length + (2 + e.text.length) := by
  unfold routeField
  rw [if_neg (by simp), if_neg h, map_append, map_cons, map_nil, intercalate_concat (by simpa using h)]
  simp only [length_append]
  have hsep : routeSeparator.length = 2 := rfl
  omega

theorem length_ofUri (uri : List UInt8) : (Entry.ofUri uri).text.length = uri.length + 2 := by
  have hlt : (bytes "<").length = 1 := rfl
  have hgt : (bytes ">").length = 1 := rfl
  simp only [Entry.ofUri, length_append, hlt, hgt]
  omega

theorem length_routeField_ofUri (uri : List UInt8) :
    (routeField [.ofUri uri]).length = routePrefix.length + (uri.length + 2) + crlf.length := by
  simp [routeField, length_ofUri, Nat.add_assoc]

/-- The hooks are for the Request-URI that they should be for, and nothing is counted too much for
routes of the right length if and only if they are the right ones. -/
theorem hooks_routing {parseUri} {d : Dialog} {target} (h : d.Targets parseUri target) :
    ∃ hooks nhop, d.calculateHooks parseUri = some (hooks, nhop) ∧
      hooks.requestUri.map Str.text =
        some (Routing.of (Entry.loose parseUri) (.ofUri target) (d.routeSet.map Rr.entry)).requestUri.uri ∧
      (d.routeSet = [] → hooks.routes = []) ∧
      (d.Routable parseUri →
        hooks.routes = (Routing.of (Entry.loose parseUri) (.ofUri target) (d.routeSet.map Rr.entry)).routes ∧
          (d.routeSet ≠ [] → hooks.surplus = 0)) ∧
      ((routeField hooks.routes).length =
          (routeField (Routing.of (Entry.loose parseUri) (.ofUri target) (d.routeSet.map Rr.entry)).routes).length →
        (d.routeSet ≠ [] → hooks.surplus = 0) → d.Routable parseUri) := by
  have htarget := h.target
  unfold Dialog.calculateHooks Dialog.Routable
  cases hrs : d.routeSet with
  | nil => exact ⟨_, _, rfl, htarget, fun _ => rfl, fun _ => ⟨rfl, fun hne => absurd rfl hne⟩, fun _ _ => nofun⟩
  | cons r rs =>
    obtain ⟨hparsed, hbare⟩ := h.parsed r (by rw [hrs]; rfl)
    obtain ⟨puri, hpuri⟩ := isSome_iff_exists.1 hparsed
    have hloose : r.entry.loose parseUri = puri.lr := by
      unfold Entry.loose Rr.entry
      rw [hpuri]
      rfl
    simp only [hpuri, map_some, map_cons, Routing.of, hloose, head?_cons, mem_some_iff, forall_eq']
    cases hlr : puri.lr with
    | true =>
      refine ⟨_, _, rfl, htarget, fun h => absurd h (cons_ne_nil _ _), fun _ => ⟨?_, fun _ => ?_⟩, fun _ _ => nofun⟩
      · simp [Hooks.routes]
      · simp [Hooks.surplus]
    | false =>
      refine ⟨_, _, rfl, ?_, fun h => absurd h (cons_ne_nil _ _), fun hrout => ?_, fun hlen hsurplus _ => ?_⟩
      · simp [Str.getRawUri_bare hbare, Rr.entry]
      · obtain ⟨hone, t, ht, hne, htbare⟩ := hrout rfl
        obtain rfl : rs = [] := (List.cons.inj hone).2
        have htext : t.text = target := by
          unfold Dialog.target at htarget
          rw [ht, getD_some, Str.getRawUri_bare htbare] at htarget
          exact Option.some.inj htarget
        subst htext
        simp [Hooks.routes, Hooks.surplus, ht, hne]
      · -- what is counted too much tells the number of entries, and the length that the target is there and bare
        have hzero := hsurplus (cons_ne_nil _ _)
        cases hlast : d.remTarget.filter (·.text ≠ []) with
        | none =>
          by_cases hnil : rs = []
          · simp only [Hooks.surplus, hlast, hnil, if_true, isSome_none, Bool.false_eq_true, if_false] at hzero
            omega
          · simp only [Hooks.routes, hlast, map_none, toList_none, append_nil, Bool.false_eq_true, if_false,
              length_routeField (show rs.map Rr.entry ≠ [] by simpa using hnil)] at hlen
            omega
        | some t =>
          obtain ⟨ht, hne⟩ := filter_eq_some_iff.1 hlast
          by_cases hnil : rs = []
          · refine ⟨by rw [hnil], t, ht, by simpa using hne, ?_⟩
            obtain ⟨u, hu, rfl⟩ := map_eq_some_iff.1 htarget
            rw [Dialog.target, ht, getD_some] at hu
            rcases Str.length_getRawUri hu with ⟨htbare, -⟩ | hlt
            · exact htbare
            · simp only [Hooks.routes, hlast, hnil, map_nil, map_some, toList_some, nil_append, Bool.false_eq_true,
                if_false, length_routeField_ofUri] at hlen
              omega
          · simp only [Hooks.surplus, hlast, hnil, if_false, isSome_some, if_true] at hzero
            omega

theorem printAddr_eq {w name uri tag} :
    printAddr w name uri tag = (w ++ addrField name uri tag, ⟨w.length, (addrField name uri tag).length⟩) := by
  unfold printAddr addrField
  split_ifs
  · simp only [append_assoc, length_append]
    congr 2
    omega
  · simp only [append_nil, append_assoc, length_append, add_assoc]

theorem Slice.of_eq {text w field len rest} (h : text = w ++ (field ++ rest)) (hlen : len = field.length) :
    (⟨w.length, len⟩ : Slice).of text = field := by
  rw [h, hlen, Slice.of, drop_left, take_left]

theorem printEnd_eq (q : UacReq) (clen w) : q.printEnd clen w =
    w ++ (bytes "Content-Length: " ++ clen ++ crlf ++ q.agent.elim [] (· ++ crlf) ++
      q.headers.getD [] ++ crlf ++ q.body.getD []) := by
  unfold UacReq.printEnd
  cases q.agent <;> cases q.headers <;> cases q.body <;> simp

/-- A number has no more digits than places. -/
theorem length_int2strFrom (i l : Nat) (digits) (k : Nat) (h : l < 10 ^ k) (hk : 0 < k) :
    (int2strFrom i l digits).length ≤ digits.length + k := by
  induction i generalizing l digits k with
  | zero => exact Nat.le_add_right _ _
  | succ i ih =>
    simp only [int2strFrom]
    split_ifs with hlast
    · simp only [length_cons]
      omega
    · obtain ⟨k, rfl⟩ : ∃ k', k = k' + 1 := ⟨k - 1, by omega⟩
      have hlt : l / 10 < 10 ^ k := by
        rw [pow_succ] at h
        omega
      have hpos : 0 < k := by
        rcases eq_zero_or_pos k with rfl | hpos
        · exact absurd hlt (by omega)
        · exact hpos
      have := ih (l / 10) ((48 + l % 10).toUInt8 :: digits) k hlt hpos
      rw [length_cons] at this
      omega

theorem printContentLength_of_lt {body} (h : (body.getD []).length < 10 ^ 9) :
    printContentLength body = some (int2str (body.getD []).length) := by
  have := length_int2strFrom 20 (body.getD []).length [] 9 h (by decide)
  unfold printContentLength int2str
  rw [if_neg (by rw [length_nil] at this; omega)]

theorem printCseqNum_of_lt {n} (h : n < 2 ^ 32) : printCseqNum n = some (int2str n) := by
  have := length_int2strFrom 20 n [] 10 (by omega) (by decide)
  unfold printCseqNum int2str
  rw [if_neg (by rw [length_nil] at this; omega)]

/-- The text that is written, and the places that are remembered, for any hooks. -/
theorem buildUacReq_text (q : UacReq) (d : Dialog) {uri : Str} {via}
    (huri : d.hooks.requestUri = some uri) (hvia : q.via = some via)
    (hbody : (q.body.getD []).length < 10 ^ 9) (hseq : d.locSeq < 2 ^ 32) (nextHop : Entry) :
    ∃ b, q.buildUacReq d = some b ∧ b.text = q.text d ⟨⟨[], uri.text⟩, nextHop, d.hooks.routes⟩ via ∧
      b.len = q.length d uri.text via (int2str d.locSeq) (int2str (q.body.getD []).length) ∧
        b.uri.of b.text = uri.text ∧
      b.toHdr.of b.text = addrField (bytes "To: ") d.remUri.text d.remTag ∧
        b.fromHdr.of b.text = addrField (bytes "From: ") d.locUri d.locTag ∧
      b.cseqN.of b.text = bytes "CSeq: " ++ int2str d.locSeq ∧
        b.callid.of b.text = bytes "Call-ID: " ++ d.callId ++ crlf := by
  unfold UacReq.buildUacReq
  rw [printContentLength_of_lt hbody, printCseqNum_of_lt hseq, huri, hvia]
  simp only [bind_some, printRequestUri, Dialog.printTo, Dialog.printFrom, printAddr_eq, printCseq,
    Dialog.printCallid, printRouteset_eq,
    printEnd_eq, nil_append]
  refine ⟨_, rfl, ?_, rfl, ?_, ?_, ?_, ?_, ?_⟩
  · simp [UacReq.text, UacReq.fields]
  · exact Slice.of_eq (by simp only [append_assoc]; rfl) rfl
  · exact Slice.of_eq (by simp only [append_assoc]; rfl) rfl
  · exact Slice.of_eq (by simp only [append_assoc]; rfl) rfl
  · exact Slice.of_eq (by simp only [append_assoc]; rfl) (by rw [length_append])
  · exact Slice.of_eq (by simp only [append_assoc]; rfl) (by simp only [length_append])

theorem length_addrField {name uri tag} :
    (addrField name uri tag).length = name.length + uri.length + (if tag ≠ [] then
      tagParam.length + tag.length else 0) + crlf.length := by
  unfold addrField
  split_ifs <;> simp only [length_append, length_nil]

/-- The length that is computed is the length of the text and what is counted too much for the routes. -/
theorem UacReq.length_eq (q : UacReq) (d : Dialog) (uri nextHop via) : q.length d uri via (int2str d.locSeq)
    (int2str (q.body.getD []).length) = Tcp.toInt32 ((q.text d ⟨⟨[], uri⟩, nextHop, d.hooks.routes⟩ via).length +
      (d.calculateRoutesetLength - (routeField d.hooks.routes).length)) := by
  have hspace : (bytes " ").length = 1 := rfl
  have hagent : (q.agent.elim 0 fun agent => agent.length + crlf.length : Nat) =
      (q.agent.elim [] (· ++ crlf)).length := by
    cases q.agent <;> simp
  have hheaders : q.headers.elim 0 List.length = (q.headers.getD []).length := by cases q.headers <;> rfl
  have hbody : q.body.elim 0 List.length = (q.body.getD []).length := by cases q.body <;> rfl
  unfold UacReq.length UacReq.text UacReq.fields
  rw [hagent, hheaders, hbody]
  simp only [flatten_cons, flatten_nil, length_append, append_nil, length_addrField, hspace]
  congr 1
  push_cast
  omega

/-- The text depends on the routes as their field does. -/
theorem length_text (q : UacReq) (d : Dialog) (uri : List UInt8) (e e' nextHop nextHop' : Entry) (routes routes' via)
    (he : e.uri = uri) (he' : e'.uri = uri) :
    (q.text d ⟨e, nextHop, routes⟩ via).length + (routeField routes').length =
      (q.text d ⟨e', nextHop', routes'⟩ via).length + (routeField routes).length := by
  unfold UacReq.text UacReq.fields
  simp only [flatten_cons, flatten_nil, length_append, append_nil, he, he']
  omega

/-! A small dialog with a loose router, and one whose first router is strict. -/

def smallUri (uri : List UInt8) : Option SipUri := some ⟨.sip, [], none, [], (bytes ";lr").isSuffixOf uri⟩

def smallReq : UacReq := ⟨bytes "BYE", none, some (bytes "x"), some (bytes "Via: SIP/2.0/UDP a\r\n"), none⟩

def looseRoute : Rr := ⟨⟨100, bytes "<sip:p;lr>"⟩, ⟨101, bytes "sip:p;lr"⟩⟩

def looseDialog : Dialog where
  callId := bytes "c"
  remTag := bytes "r"
  locTag := []
  locSeq := 1
  remSeq := none
  locUri := bytes "<sip:a>"
  remUri := ⟨10, bytes "<sip:b>"⟩
  remTarget := some ⟨50, bytes "sip:b@h"⟩
  dstUri := none
  state := .confirmed
  routeSet := [looseRoute]
  hooks := ⟨none, none, [], none⟩

/-- What is built in a dialog with a strict router, this target and these entries behind it. -/
def strictDialog (target : Option Str) (rs : List Rr) : Option Sent :=
  let d := { looseDialog with remTarget := target, routeSet := ⟨⟨200, bytes "<sip:s>"⟩, ⟨201, bytes "sip:s"⟩⟩ :: rs }
  (d.calculateHooks smallUri).bind fun h => smallReq.buildUacReq (d.withHooks h.1)

/-- The request is routed as it should be, has the fields of the dialog and the body, and is as long
as it is said to be; and the places that are remembered are those of the Request-URI and the fields.
-/
def UacReq.Exact (q : UacReq) (parseUri : List UInt8 → Option SipUri) (d : Dialog) (target via : List UInt8) : Prop :=
  ∃ hooks nhop b, d.calculateHooks parseUri = some (hooks, nhop) ∧ q.buildUacReq (d.withHooks hooks) = some b ∧
    b.text = q.text d (.of (Entry.loose parseUri) (.ofUri target) (d.routeSet.map Rr.entry)) via ∧
    b.len = b.text.length ∧ Msg.clenNumber (int2str (q.body.getD []).length) = (q.body.getD []).length ∧
    b.uri.of b.text = (Routing.of (Entry.loose parseUri) (.ofUri target) (d.routeSet.map Rr.entry)).requestUri.uri ∧
    b.toHdr.of b.text = addrField (bytes "To: ") d.remUri.text d.remTag ∧
    b.fromHdr.of b.text = addrField (bytes "From: ") d.locUri d.locTag ∧
    b.cseqN.of b.text = bytes "CSeq: " ++ int2str d.locSeq ∧
    b.callid.of b.text = bytes "Call-ID: " ++ d.callId ++ crlf

/-- A request within a dialog is exact if and only if a strict router is the only entry in front of a remote target. -/
theorem request_exact (parseUri : List UInt8 → Option SipUri) (q : UacReq) (d : Dialog) {target via : List UInt8}
    (h : d.Targets parseUri target) (hvia : q.via = some via) (hbody : (q.body.getD []).length < 10 ^ 9)
    (hseq : d.locSeq < 2 ^ 32)
    (hlen : (q.text d (.of (Entry.loose parseUri) (.ofUri target) (d.routeSet.map Rr.entry))
      via).length < 2147483648) :
    q.Exact parseUri d target via ↔ d.Routable parseUri := by
  obtain ⟨hooks, nhop, hhooks, huri, hempty, hright, hwrong⟩ := hooks_routing h
  obtain ⟨uri, hsome, htext⟩ := map_eq_some_iff.1 huri
  unfold UacReq.Exact
  generalize hrouting : Routing.of (Entry.loose parseUri) (.ofUri target) (d.routeSet.map Rr.entry) = routing at *
  obtain ⟨b, hb, hbtext, hblen, hburi, hplaces⟩ :=
    buildUacReq_text q (d.withHooks hooks) hsome hvia hbody hseq routing.nextHop
  have hlength := q.length_eq (d.withHooks hooks) uri.text routing.nextHop via
  have hsurplus : (d.withHooks hooks).calculateRoutesetLength - (routeField hooks.routes).length =
      if d.routeSet = [] then 0 else (hooks.surplus : Int) := by
    split_ifs with hnil
    · rw [Dialog.calculateRoutesetLength, if_pos (show (d.withHooks hooks).routeSet = [] from hnil), hempty hnil]
      rfl
    · rw [routesetLength_eq (d := d.withHooks hooks) hnil]
      exact add_sub_cancel_left ..
  rw [← hbtext, show (d.withHooks hooks).hooks = hooks from rfl, hsurplus] at hlength
  constructor
  · rintro ⟨hooks', nhop', b', hhooks', hb', hbtext', hblen', -⟩
    cases hhooks.symm.trans hhooks'
    cases hb.symm.trans hb'
    -- the texts have one length, and the number is the one of the text
    have hfields := length_text q d uri.text ⟨[], uri.text⟩ routing.requestUri routing.nextHop
      routing.nextHop hooks.routes routing.routes via rfl htext.symm
    have hsame : (q.text d ⟨⟨[], uri.text⟩, routing.nextHop, hooks.routes⟩ via).length =
        (q.text d routing via).length :=
      congrArg List.length (hbtext.symm.trans hbtext')
    refine hwrong ?_ fun hne => ?_
    · rw [hsame] at hfields
      exact (Nat.add_left_cancel hfields).symm
    have hle : hooks.surplus ≤ 7 := by
      unfold Hooks.surplus
      split_ifs <;> omega
    rw [hblen] at hblen'
    rw [hlength, if_neg hne, hbtext', Tcp.toInt32, Int.bmod_def] at hblen'
    split_ifs at hblen' <;> omega
  · intro hrout
    obtain ⟨hroutes, hzero⟩ := hright hrout
    have hsame : q.text (d.withHooks hooks) ⟨⟨[], uri.text⟩, routing.nextHop,
        hooks.routes⟩ via = q.text d routing via := by
      rw [htext, hroutes]
      rfl
    have hb' := hbtext.trans hsame
    refine ⟨hooks, nhop, b, hhooks, hb, hb', ?_, clenNumber_int2str (by omega), hburi.trans htext, hplaces⟩
    have hno : (if d.routeSet = [] then 0 else (hooks.surplus : Int)) = 0 := by
      split_ifs with hnil
      · rfl
      · exact congrArg Nat.cast (hzero hnil)
    rw [hno, Int.add_zero] at hlength
    rw [hblen, hlength]
    exact Tcp.toInt32_of_lt (by rw [hb']; omega)

theorem request_exact_loose :
    smallReq.Exact smallUri looseDialog (bytes "sip:b@h") (bytes "Via: SIP/2.0/UDP a\r\n") := by
  refine (request_exact smallUri smallReq looseDialog ⟨by decide +kernel, ?_⟩ rfl (by decide +kernel) (by decide)
    (by decide +kernel)).2 ?_
  · intro r hr
    cases hr
    exact ⟨rfl, by unfold Str.Bare; decide +kernel⟩
  · intro r hr hstrict
    cases hr
    exact absurd hstrict (by decide +kernel)

/-- With a strict router and another entry in front of the target, two more bytes are sent than were
written; with a strict router and no target, seven. -/
theorem strict_sends_more :
    (strictDialog (some ⟨50, bytes "sip:b@h"⟩) [looseRoute]).map (fun b => b.len - (b.text.length : Int)) = some 2 ∧
      (strictDialog none []).map (fun b => b.len - (b.text.length : Int)) = some 7 := by decide +kernel

end SipRouter.Dlg
