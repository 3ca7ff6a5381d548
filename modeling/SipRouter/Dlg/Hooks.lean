import SipRouter.Msg.TopVia

/-!
# Dialogs and how their requests are routed (`dlg.h`, `dlg.c`)

A dialog keeps a route set and a remote target. `calculate_hooks` reads off them what a
request needs: its Request-URI, where it is sent, and the entries of its Route field. RFC
3261, 12.2.1.1 says what these are (`Routing`).

A text is kept with the address of its first byte: the hooks point into the texts of the
dialog. `parse_uri` is given.
-/

namespace SipRouter.Dlg

open Msg

/-! ## Routing -/

/-- How a request is routed. -/
structure Routing (α : Type) where
  requestUri : α
  nextHop : α
  routes : List α
  deriving DecidableEq

/-- RFC 3261, 12.2.1.1: a loose router leaves the Request-URI to the target; a strict router takes
it for itself, and the target goes to the end of the routes. -/
def Routing.of {α : Type} (loose : α → Bool) (target : α) : List α → Routing α
  | [] => ⟨target, target, []⟩
  | r :: rs => if loose r then ⟨target, r, r :: rs⟩ else ⟨r, r, rs ++ [target]⟩

/-- What stands in a Route field: the text of an entry, and the URI in it. -/
structure Entry where
  text : List UInt8
  uri : List UInt8
  deriving DecidableEq

/-- A URI as an entry. -/
def Entry.ofUri (uri : List UInt8) : Entry := ⟨bytes "<" ++ uri ++ bytes ">", uri⟩

/-! ## URIs -/

/-- A `str` that is not null. -/
structure Str where
  addr : Nat
  text : List UInt8
  deriving DecidableEq

/-- `find_not_quoted`, with the byte before. -/
def findNotQuoted (c : UInt8) : Bool → UInt8 → List UInt8 → Option Nat
  | _, _, [] => none
  | false, _, ch :: s =>
    if ch = '"'.toUInt8 then (findNotQuoted c true ch s).map (· + 1)
    else if ch = c then some 0
    else (findNotQuoted c false ch s).map (· + 1)
  | true, before, ch :: s => (findNotQuoted c (!(ch = '"'.toUInt8 && before ≠ '\\'.toUInt8)) ch s).map (· + 1)

/-- `get_raw_uri`: the URI between the brackets, if the text ends in one. Without an opening bracket
the pointer is wild. -/
def Str.getRawUri (s : Str) : Option Str :=
  if s.text.getLast? = some '>'.toUInt8 then
    (findNotQuoted '<'.toUInt8 false 0 s.text).map fun i =>
      ⟨s.addr + (i + 1), (s.text.drop (i + 1)).take (s.text.length - (i + 2))⟩
  else some s

/-- A text that does not end in a bracket. -/
def Str.Bare (s : Str) : Prop := s.text.getLast? ≠ some '>'.toUInt8

theorem Str.getRawUri_bare {s : Str} (h : s.Bare) : s.getRawUri = some s := if_neg h

/-- `enum _uri_type`. -/
inductive UriType where
  | sip | sips | tel | tels | other
  deriving DecidableEq

/-- What is looked at of a `struct sip_uri`. -/
structure SipUri where
  type : UriType
  host : List UInt8
  port : Option Nat
  transport : List UInt8
  lr : Bool
  deriving DecidableEq

/-! ## Dialogs -/

/-- `rr_t`: an entry of a route set. `text` has the name and the parameters. -/
structure Rr where
  text : Str
  uri : Str
  deriving DecidableEq

def Rr.entry (r : Rr) : Entry := ⟨r.text.text, r.uri.text⟩

/-- `dlg_hooks_t`. -/
structure Hooks where
  requestUri : Option Str
  nextHop : Option Str
  firstRoute : List Rr
  lastRoute : Option Str
  deriving DecidableEq

/-- `dlg_state_t`. -/
inductive State where
  | new | early | confirmed | destroyed
  deriving DecidableEq

/-- `dlg_t`. A sequence number that is not set is `none`. -/
structure Dialog where
  callId : List UInt8
  remTag : List UInt8
  locTag : List UInt8
  locSeq : Nat
  remSeq : Option Nat
  locUri : List UInt8
  remUri : Str
  remTarget : Option Str
  dstUri : Option Str
  state : State
  routeSet : List Rr
  hooks : Hooks
  deriving DecidableEq

/-- What `calculate_hooks` returns: 0, `F_RB_NH_LOOSE` or `F_RB_NH_STRICT`. -/
inductive NextHop where
  | direct | loose | strict
  deriving DecidableEq

/-- What the Request-URI is taken from when no strict router takes its place. -/
def Dialog.target (d : Dialog) : Str := d.remTarget.getD d.remUri

/-- `calculate_hooks`, `none` if the first URI cannot be parsed. -/
def Dialog.calculateHooks (parseUri : List UInt8 → Option SipUri) (d : Dialog) : Option (Hooks × NextHop) :=
  match d.routeSet with
  | [] => some (⟨d.target.getRawUri, (d.dstUri.getD d.target).getRawUri, [], none⟩, .direct)
  | r :: rs =>
    (parseUri r.uri.text).map fun puri =>
      if puri.lr then (⟨d.target.getRawUri, r.uri.getRawUri, r :: rs, none⟩, .loose)
      else (⟨r.uri.getRawUri, r.uri.getRawUri, rs, d.remTarget.filter (·.text ≠ [])⟩, .strict)

/-- The URI of an entry has the parameter `lr`. -/
def Entry.loose (parseUri : List UInt8 → Option SipUri) (e : Entry) : Bool := (parseUri e.uri).any (·.lr)

end SipRouter.Dlg
