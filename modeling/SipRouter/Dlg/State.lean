import SipRouter.Dlg.Ack

/-!
# The state of a dialog (`dlg.c`)

A dialog is created on either side and then updated by the replies and the requests that
belong to it, and by `set_dlg_target`. Whenever its route set or its target change, the
hooks are computed again.

Messages are given as they are parsed. A text that is copied into the dialog is given with
the address of the copy; allocations succeed.
-/

namespace SipRouter.Dlg

open Msg SipRouter.Parser

/-! ## Messages -/

/-- What `get_contact_uri` finds. -/
inductive Contact where
  | absent | bad
  | uri (s : Str)

/-- The URI, if it is not empty. -/
def Contact.target : Contact → Option Str
  | .uri s => if s.text ≠ [] then some s else none
  | _ => none

/-- A reply. `headers` says if `parse_headers` succeeds; there is no tag without a `To`. -/
structure Response where
  code : Nat
  headers : Bool
  contact : Contact
  toTag : Option (List UInt8)
  hdrs : List Hdr
  cseqMethod : Option (List UInt8)

/-- A request. The fields that cannot be read are `none`; `fromUri` and `toUri` are without the tag. -/
structure Request where
  headers : Bool
  isInvite : Bool
  contact : Contact
  cseq : Option Nat
  fromTag : Option (List UInt8)
  callid : Option (List UInt8)
  fromUri : Option Str
  toUri : Option (List UInt8)
  hdrs : List Hdr

/-- `target_refresh_t`. -/
inductive TargetRefresh where
  | yes | no | unknown
  deriving DecidableEq

/-- `refresh_dialog_resp`. -/
def Response.refreshes (m : Response) : TargetRefresh → Bool
  | .no => false
  | .yes => true
  | .unknown => m.cseqMethod = some (bytes "INVITE")

/-- `refresh_dialog_req`. -/
def Request.refreshes (m : Request) : TargetRefresh → Bool
  | .no => false
  | .yes => true
  | .unknown => m.isInvite

/-! ## The route set -/

/-- The `while` of `get_route_set`. New entries are linked to each other, and to the route set only
if it was empty (`linked`). -/
def collect (linked : Bool) : List Hdr → List Rr → Option (List Rr)
  | [], rs => some rs
  | h :: hs, rs =>
    if h.type ≠ .recordRoute then collect linked hs rs
    else
      match h.rr with
      | none | some [] => none
      | some (r :: t) => collect linked hs (if linked then rs ++ (r :: t) else rs)

/-- `get_route_set`; `none` on an error. -/
def getRouteSet (hdrs : List Hdr) (rs : List Rr) (reverse : Bool) : Option (List Rr) :=
  (collect (rs = []) (hdrs.dropWhile (·.type ≠ .recordRoute)) rs).map fun rs => if reverse then rs.reverse else rs

/-! ## Replies -/

namespace Dialog

variable (parseUri : List UInt8 → Option SipUri)

/-- The hooks are computed and stored; `memset` clears them first. -/
def recalculate (err : Int) (d : Dialog) : Int × Dialog :=
  match d.calculateHooks parseUri with
  | some (hooks, _) => (0, { d with hooks := hooks })
  | none => (err, { d with hooks := ⟨none, none, [], none⟩ })

/-- `response2dlg`. -/
def response2dlg (m : Response) (d : Dialog) : Int × Dialog :=
  if !m.headers then (-1, d)
  else
    match m.contact with
    | .bad => (-2, d)
    | contact =>
      let d := { d with remTarget := contact.target, dstUri := none }
      match m.toTag with
      | none => (-4, { d with remTarget := none })
      | some tag =>
        let d := if tag ≠ [] then { d with remTag := tag } else d
        match getRouteSet m.hdrs d.routeSet true with
        | none => (-4, { d with routeSet := [], remTag := [], remTarget := none })
        | some rs => (0, { d with routeSet := rs })

/-- A positive final response. -/
def confirm (m : Response) (d : Dialog) : Int × Dialog :=
  let (ret, d) := d.response2dlg m
  if ret < 0 then (-1, d) else recalculate parseUri (-2) { d with state := .confirmed }

/-- `dlg_new_resp_uac`. -/
def dlgNewRespUac (m : Response) (d : Dialog) : Int × Dialog :=
  if m.code < 200 then (0, d)
  else if m.code < 299 then d.confirm parseUri m
  else (1, { d with state := .destroyed })

/-- `dlg_early_resp_uac`. -/
def dlgEarlyRespUac (m : Response) (d : Dialog) : Int × Dialog :=
  if m.code < 200 then (0, d)
  else if m.code ≤ 299 then d.confirm parseUri m
  else (1, { d with state := .destroyed })

/-- A new remote target, if the Contact has a URI. -/
def refreshTarget (contact : Contact) (d : Dialog) : Dialog :=
  match contact.target with
  | some s => { d with remTarget := some s, dstUri := none }
  | none => d

/-- `dlg_confirmed_resp_uac`. -/
def dlgConfirmedRespUac (m : Response) (refresh : TargetRefresh) (d : Dialog) : Int × Dialog :=
  if m.code = 481 then (1, { d with state := .destroyed })
  else if m.code < 200 ∨ 300 ≤ m.code then (0, d)
  else if m.refreshes refresh then
    if !m.headers then (-2, d)
    else
      match m.contact with
      | .bad => (-3, d)
      | contact => recalculate parseUri (-1) (d.refreshTarget contact)
  else (0, d)

/-- `dlg_response_uac`. -/
def dlgResponseUac (m : Response) (refresh : TargetRefresh) (d : Dialog) : Int × Dialog :=
  match d.state with
  | .new => d.dlgNewRespUac parseUri m
  | .early => d.dlgEarlyRespUac parseUri m
  | .confirmed => d.dlgConfirmedRespUac parseUri m refresh
  | .destroyed => (-2, d)

/-! ## Requests -/

/-- `dlg_request_uas`. The numbers are compared as `unsigned`. -/
def dlgRequestUas (m : Request) (refresh : TargetRefresh) (d : Dialog) : Int × Dialog :=
  if !m.headers then (-2, d)
  else
    match m.cseq with
    | none => (-3, d)
    | some cseq =>
      if d.remSeq.any (cseq ≤ ·) then (0, d)
      else
        let d := { d with remSeq := some cseq }
        if m.refreshes refresh then
          match m.contact with
          | .bad => (-5, d)
          | contact => recalculate parseUri (-1) (d.refreshTarget contact)
        else (0, d)

/-- `set_dlg_target` for a target that is given. -/
def setDlgTarget (ruri : Str) (duri : Option Str) (d : Dialog) : Int × Dialog :=
  recalculate parseUri (-1) { d with remTarget := some ruri, dstUri := duri.filter (·.text ≠ []) }

end Dialog

/-! ## New dialogs -/

/-- A dialog after `memset`. -/
def Dialog.zero : Dialog := ⟨[], [], [], 0, none, [], ⟨0, []⟩, none, none, .new, [], ⟨none, none, [], none⟩⟩

/-- The end of `new_dlg_uac` and `new_dlg_uas`: without hooks there is no dialog. -/
def Dialog.created (parseUri : List UInt8 → Option SipUri) (err : Int) (d : Dialog) : Option Dialog :=
  let r := d.recalculate parseUri err
  if r.1 < 0 then none else some r.2

/-- `new_dlg_uac`; `lseq` 0 stands for `DEFAULT_CSEQ`. -/
def newDlgUac (parseUri : List UInt8 → Option SipUri) (cid ltag : List UInt8) (lseq : Nat)
    (luri : List UInt8) (ruri : Str) : Option Dialog :=
  Dialog.created parseUri (-2)
    { Dialog.zero with
      callId := cid
      locTag := ltag
      locSeq := if lseq = 0 then 10 else lseq
      locUri := luri
      remUri := ruri }

/-- `request2dlg` for a new dialog. -/
def request2dlg (m : Request) (d : Dialog) : Option Dialog :=
  if !m.headers then none
  else
    match m.contact with
    | .bad => none
    | contact =>
      m.fromTag.bind fun rtag =>
      m.callid.bind fun callid =>
      m.cseq.bind fun cseq =>
      m.fromUri.bind fun fromUri =>
      m.toUri.bind fun toUri =>
      (getRouteSet m.hdrs d.routeSet false).map fun rs =>
        let d := d.refreshTarget contact
        { d with
          remTag := rtag
          callId := callid
          remSeq := some cseq
          remUri := fromUri
          locUri := toUri
          routeSet := rs }

/-- `new_dlg_uas`. -/
def newDlgUas (parseUri : List UInt8 → Option SipUri) (m : Request) (code : Nat) (tag : List UInt8) : Option Dialog :=
  (request2dlg m .zero).bind fun d =>
    Dialog.created parseUri (-6) { d with
      locTag := if 100 < code then tag else d.locTag
      state := if code < 100 then .new else if code < 200 then .early else .confirmed }

end SipRouter.Dlg
