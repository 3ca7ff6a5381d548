import SipRouter.Dlg.Hooks

/-!
# Forwarding to several destinations (`t_fwd.c`)

A request is forwarded to each destination as a branch of its transaction. For each of
them the message is built from the same request: the Request-URI and the lumps are saved,
the branch route runs, and then they are restored.

The URIs are texts with an address, since only the pointers are compared. A branch route
may rewrite the Request-URI, which frees the old one, have it parsed, and leave other
lumps; the headers of the request are parsed to the end before it runs.
-/

namespace SipRouter.Fwd

open Msg Dlg List Option Bool

/-! ## The request -/

/-- The request: where its URIs are, the text its parsed URI was made from (if `parsed_uri_ok`), and
what was given to `pkg_free`. -/
structure Request where
  req : SipReq
  methodLen : Nat
  newUriAddr : Nat
  uriAddr : Nat
  parsedUri : Option (List UInt8)
  forceSendSocket : Option SocketInfo
  freed : List Nat

namespace Request

variable {m : Request} {addRm bodyLumps : List Lump}

/-- `first_line.u.request.uri`. -/
def firstLineUri (m : Request) : Str :=
  ⟨m.uriAddr, Lib.Edit.part m.req.buf m.req.uri.1 (m.req.uri.1 + m.req.uri.2)⟩

/-- `new_uri`. -/
def newUri (m : Request) : Option Str := m.req.newUri.map (⟨m.newUriAddr, ·⟩)

def setNewUri (uri : Option Str) (m : Request) : Request :=
  { m with req := { m.req with newUri := uri.map Str.text }, newUriAddr := (uri.map Str.addr).getD m.newUriAddr }

def setLumps (addRm bodyLumps : List Lump) (m : Request) : Request :=
  { m with req := { m.req with toSipMsg := { m.req.toSipMsg with addRm := addRm, bodyLumps := bodyLumps } } }

theorem setLumps_buf : (m.setLumps addRm bodyLumps).req.buf = m.req.buf := rfl

theorem setLumps_uri : (m.setLumps addRm bodyLumps).req.uri = m.req.uri := rfl

end Request

/-- The `str` that a pointer to a URI points to. -/
inductive UriRef where
  | newUri
  | firstLine
  | branch (s : Str)

def Request.deref (m : Request) : UriRef → Str
  | .newUri => m.newUri.getD ⟨0, []⟩
  | .firstLine => m.firstLineUri
  | .branch s => s

/-- `GET_RURI`. -/
def Request.getRuri (m : Request) : UriRef :=
  if m.newUri.any (·.text ≠ []) then .newUri else .firstLine

/-! ## Branch routes -/

/-- What a branch route does: the texts the Request-URI is set to, one after the other, whether it
is parsed in the end, and the lumps. -/
structure Effect where
  rewrites : List Str
  parses : Bool
  addRm : List Lump
  bodyLumps : List Lump

/-- The Request-URI is set, and the old one freed. -/
def Request.rewriteUri (m : Request) (uri : Str) : Request :=
  { (m.setNewUri (some uri)) with parsedUri := none, freed := m.freed ++ (m.newUri.map Str.addr).toList }

def Effect.run (e : Effect) (m : Request) : Request :=
  let m := e.rewrites.foldl Request.rewriteUri m
  let m := if e.parses then { m with parsedUri := m.parsedUri.or (some (m.deref m.getRuri).text) } else m
  m.setLumps e.addRm e.bodyLumps

/-- What is given: the branch route, `uri2dst` with the socket that is forced and the next hop, what
the message is built with for a branch number, and chance. -/
structure Env where
  route : Request → Effect
  uri2dst : Option SocketInfo → List UInt8 → Option DestInfo
  core : Nat → ReqCore
  rand : Nat → Rand

/-! ## One branch -/

/-- The Request-URI is not the one of the branch, by address and length. -/
def Request.differs (m : Request) (uri : UriRef) : Bool :=
  let msgUri := m.deref m.getRuri
  msgUri.addr ≠ (m.deref uri).addr || msgUri.text.length ≠ (m.deref uri).text.length

/-- The URI of the branch is put in the place of the Request-URI. -/
def Request.enter (m : Request) (uri : UriRef) : Request :=
  if m.differs uri then { m.setNewUri (some (m.deref uri)) with parsedUri := none } else m

/-- The lumps are restored from the backup, and the URI if it was saved. -/
def Request.leave (m backup : Request) (backedUp : Bool) : Request :=
  let m := m.setLumps backup.req.addRm backup.req.bodyLumps
  if backedUp then { m with
    req := { m.req with newUri := backup.req.newUri }
    newUriAddr := backup.newUriAddr
    parsedUri := backup.parsedUri }
  else m

/-- `print_uac_request`, if there is memory. -/
def Env.printUacRequest (env : Env) (m : Request) (branch : Nat) (uri : UriRef) (dst : DestInfo) :
    Option (List UInt8) × Request :=
  let m' := (env.route (m.enter uri)).run (m.enter uri)
  ((buildReqBufFromSipReq (env.core branch) m'.req dst (env.rand branch)).map BuiltReq.written,
    m'.leave m (m.differs uri))

/-- `uac[branch]`: the buffer, and the place and the length of its URI. -/
structure Uac where
  buffer : List UInt8
  uriPos : Nat
  uriLen : Nat
  deriving DecidableEq

/-- The URI of a branch. -/
def Uac.uri (u : Uac) : List UInt8 := (u.buffer.drop u.uriPos).take u.uriLen

def maxBranches : Nat := 12

/-- `add_uac` for branch number `branch`, without a proxy. The length of the URI is read after the
message was built. -/
def Env.addUac (env : Env) (m : Request) (branch : Nat) (uri : UriRef) (nextHop : List UInt8) : Option Uac × Request :=
  if branch = maxBranches then (none, m)
  else
    match (env.uri2dst m.forceSendSocket nextHop).filter (·.sendSock.isSome) with
    | none => (none, m)
    | some dst =>
      let r := env.printUacRequest m branch uri dst
      (r.1.map fun buf => ⟨buf, m.methodLen + 1, (r.2.deref uri).text.length⟩, r.2)

/-! ## All branches -/

/-- A destination of the set (`struct branch`). -/
structure Dest where
  uri : Str
  dstUri : List UInt8
  forceSendSocket : Option SocketInfo

/-- `(dst_uri.len) ? (&dst_uri) : &current_uri`. -/
def Dest.nextHop (d : Dest) : List UInt8 := if d.dstUri ≠ [] then d.dstUri else d.uri.text

/-- One round of the `while` of `t_forward_nonack`. -/
def Env.addDest (env : Env) (s : List Uac × Request) (d : Dest) : List Uac × Request :=
  let r := env.addUac { s.2 with forceSendSocket := d.forceSendSocket } s.1.length (.branch d.uri) d.nextHop
  (s.1 ++ r.1.toList, r.2)

/-- The branches that `t_forward_nonack` adds, and the request afterwards. The first time the
current URI is a destination, with `nextHop` for `GET_NEXT_HOP`. -/
def Env.addBranches (env : Env) (uacs : List Uac) (m : Request) (nextHop : List UInt8)
    (dests : List Dest) : List Uac × Request :=
  let first := if uacs = [] then
      let r := env.addUac m 0 m.getRuri nextHop
      (r.1.toList, r.2)
    else (uacs, m)
  let r := dests.foldl env.addDest first
  (r.1, { r.2 with forceSendSocket := m.forceSendSocket })

/-! ## Each branch on its own -/

/-- A destination with all that is given to `add_uac` for it. -/
structure Target where
  uri : UriRef
  nextHop : List UInt8
  forceSendSocket : Option SocketInfo

def Dest.target (d : Dest) : Target := ⟨.branch d.uri, d.nextHop, d.forceSendSocket⟩

/-- The destinations of a request. -/
def targets (uacs : List Uac) (m : Request) (nextHop : List UInt8) (dests : List Dest) : List Target :=
  (if uacs = [] then [⟨m.getRuri, nextHop, m.forceSendSocket⟩] else []) ++ dests.map Dest.target

/-- The branch for a destination, from the request as it is. -/
def Env.alone (env : Env) (m : Request) (t : Target) (branch : Nat) : Option Uac :=
  (env.addUac { m with forceSendSocket := t.forceSendSocket } branch t.uri t.nextHop).1

/-- The branches for some destinations, each from the request as it is. -/
def Env.apart (env : Env) (m : Request) : Nat → List Target → List Uac
  | _, [] => []
  | branch, t :: ts =>
    match env.alone m t branch with
    | some u => u :: env.apart m (branch + 1) ts
    | none => env.apart m branch ts

/-- Lumps that stand behind a place. -/
def Behind (q : Nat) (list : List Lump) : Prop := ∀ t ∈ list, ∃ r, t.range = some r ∧ q ≤ r.1

/-- The branch route does not rewrite the URI of a destination, nor have the one of the request parsed that was not. -/
structure Env.Keeps (env : Env) (m : Request) (uri : UriRef) : Prop where
  rewrites : (env.route (m.enter uri)).rewrites = []
  parses : m.differs uri = false → (env.route (m.enter uri)).parses = true → m.parsedUri.isSome

/-- The branch route runs for a destination. -/
def Env.Reaches (env : Env) (branch : Nat) (t : Target) : Prop :=
  branch ≠ maxBranches ∧ (env.uri2dst t.forceSendSocket t.nextHop).any (·.sendSock.isSome) = true

/-- The branch route keeps the URI of every destination for which it runs. -/
def Env.Kept (env : Env) (m : Request) : Nat → List Target → Prop
  | _, [] => True
  | branch, t :: ts =>
    (env.Reaches branch t → env.Keeps { m with forceSendSocket := t.forceSendSocket } t.uri) ∧
      env.Kept m (branch + (env.alone m t branch).toList.length) ts

/-- The Request-URI that is sent. -/
def sentUri (req : SipReq) : List UInt8 :=
  req.newUri.getD (Lib.Edit.part req.buf req.uri.1 (req.uri.1 + req.uri.2))

/-- What is remembered is the Request-URI in the buffer: behind the beginning of the first line, as
long as what is sent. -/
def Uac.Denotes (u : Uac) (req : SipReq) : Prop :=
  ∃ rest, u.buffer = Lib.Edit.part req.buf 0 req.uri.1 ++ (sentUri req ++ rest) ∧
    u.uriPos = req.uri.1 ∧ u.uriLen = (sentUri req).length

/-- A request to be forwarded. -/
structure Request.Ready (m : Request) : Prop where
  parsed : m.req.Parsed
  uri : 0 < m.req.uri.2

section Restored

variable {env : Env} {m : Request} {branch : Nat} {uri : UriRef}

theorem run_of_keeps (h : (env.route m).rewrites = []) : (env.route m).run m =
    ({ m with parsedUri := if (env.route m).parses then m.parsedUri.or (some (m.deref m.getRuri).text)
      else m.parsedUri } : Request).setLumps (env.route m).addRm (env.route m).bodyLumps := by
  unfold Effect.run
  rw [h]
  cases (env.route m).parses <;> rfl

/-- The request is as before when a branch was printed. -/
theorem print_restores (h : env.Keeps m uri) (dst) : (env.printUacRequest m branch uri dst).2 = m := by
  unfold Env.printUacRequest
  simp only [run_of_keeps h.rewrites]
  cases hdiff : m.differs uri with
  | true =>
    simp only [Request.enter, hdiff]
    rfl
  | false =>
    have henter : m.enter uri = m := by rw [Request.enter, hdiff, if_neg Bool.false_ne_true]
    have hparses := h.parses hdiff
    rw [henter] at hparses ⊢
    have hkept : (if (env.route m).parses then m.parsedUri.or (some (m.deref m.getRuri).text) else m.parsedUri) =
        m.parsedUri := by
      split_ifs with hc
      · obtain ⟨text, htext⟩ := isSome_iff_exists.1 (hparses hc)
        rw [htext]
        rfl
      · rfl
    rw [hkept]
    rfl

/-- One destination: nothing is done, or the branch is printed. -/
theorem addUac_cases (env : Env) (m : Request) (branch : Nat) (uri : UriRef) (nextHop : List UInt8) :
    ((env.addUac m branch uri nextHop).2 = m ∧ ¬ env.Reaches branch ⟨uri, nextHop, m.forceSendSocket⟩) ∨
      ∃ dst, env.Reaches branch ⟨uri, nextHop, m.forceSendSocket⟩ ∧
        (env.addUac m branch uri nextHop).2 = (env.printUacRequest m branch uri dst).2 := by
  unfold Env.addUac Env.Reaches
  split_ifs with hmax
  · exact .inl ⟨rfl, fun h => h.1 hmax⟩
  · cases hdst : (env.uri2dst m.forceSendSocket nextHop).filter (·.sendSock.isSome) with
    | none =>
      refine .inl ⟨rfl, fun h => ?_⟩
      obtain ⟨dst, hmem, hsock⟩ := (Option.any_eq_true ..).1 h.2
      simp_all
    | some dst =>
      obtain ⟨hmem, hsock⟩ := filter_eq_some_iff.1 hdst
      exact .inr ⟨dst, ⟨hmax, by simpa [hmem] using hsock⟩, rfl⟩

/-- A destination in the loop, the current URI too. -/
def Env.addTarget (env : Env) (s : List Uac × Request) (t : Target) : List Uac × Request :=
  let r := env.addUac { s.2 with forceSendSocket := t.forceSendSocket } s.1.length t.uri t.nextHop
  (s.1 ++ r.1.toList, r.2)

theorem addBranches_eq (env : Env) (uacs m nextHop dests) : env.addBranches uacs m nextHop dests =
    (((targets uacs m nextHop dests).foldl env.addTarget (uacs, m)).1,
      { ((targets uacs m nextHop dests).foldl env.addTarget (uacs, m)).2 with
        forceSendSocket := m.forceSendSocket }) := by
  have hfold : ∀ s, dests.foldl env.addDest s = (dests.map Dest.target).foldl env.addTarget s := by
    intro s
    rw [foldl_map]
    rfl
  unfold Env.addBranches targets
  by_cases hnil : uacs = []
  · subst hnil
    simp only [if_true, hfold]
    rfl
  · simp only [if_neg hnil, hfold, nil_append]

theorem addTarget_eq {t : Target} {uacs : List Uac} (h : env.Reaches uacs.length t →
    env.Keeps { m with forceSendSocket := t.forceSendSocket } t.uri) (sock) :
    env.addTarget (uacs, { m with forceSendSocket := sock }) t =
      (uacs ++ (env.alone m t uacs.length).toList, { m with forceSendSocket := t.forceSendSocket }) := by
  refine Prod.ext rfl ?_
  rcases addUac_cases env { m with forceSendSocket := t.forceSendSocket } uacs.length t.uri t.nextHop with
    ⟨heq, -⟩ | ⟨dst, hreach, heq⟩
  · exact heq
  · exact heq.trans (print_restores (h hreach) dst)

/-- A loop in which the branch route keeps the URIs adds the branches that each destination has on its own. -/
theorem foldl_addTarget {ts : List Target} {uacs} (sock) (h : env.Kept m uacs.length ts) :
    ∃ sock', ts.foldl env.addTarget (uacs, { m with forceSendSocket := sock }) =
      (uacs ++ env.apart m uacs.length ts, { m with forceSendSocket := sock' }) := by
  induction ts generalizing uacs sock with
  | nil => exact ⟨sock, by simp [Env.apart]⟩
  | cons t ts ih =>
    have hrest := h.2
    rw [← length_append] at hrest
    obtain ⟨sock', hfold⟩ := ih t.forceSendSocket hrest
    refine ⟨sock', ?_⟩
    rw [foldl_cons, addTarget_eq h.1, hfold, Env.apart]
    cases env.alone m t uacs.length <;> simp

/-! ## What a branch route leaves -/

/-- The request is later than another one: no text that was freed or set is taken back. -/
def Later (m m' : Request) : Prop :=
  m.freed.length ≤ m'.freed.length ∧ (m.req.newUri.isSome → m'.req.newUri.isSome)

/-- What a branch route did is left in the request. -/
structure Changed (m m' : Request) : Prop where
  later : Later m m'
  left : m.freed.length < m'.freed.length ∨ (m.req.newUri = none ∧ m'.req.newUri.isSome) ∨
    (m.parsedUri = none ∧ m'.parsedUri.isSome)

theorem Changed.ne {m' : Request} (h : Changed m m') {sock} : { m' with forceSendSocket := sock } ≠ m := by
  rintro rfl
  rcases h.left with hlt | ⟨hnone, hsome⟩ | ⟨hnone, hsome⟩
  · exact lt_irrefl _ hlt
  all_goals
    dsimp only at hnone
    rw [hnone] at hsome
    cases hsome

/-- After a rewrite a URI is set, and the one before is freed. -/
theorem foldl_rewriteUri (uris : List Str) (m : Request) :
    (uris.foldl Request.rewriteUri m).req.newUri.isSome = (m.req.newUri.isSome || uris ≠ []) ∧
      m.freed.length + (if m.req.newUri.isSome ∧ uris ≠ [] then 1 else 0) ≤
        (uris.foldl Request.rewriteUri m).freed.length := by
  induction uris generalizing m with
  | nil => simp
  | cons uri uris ih =>
    obtain ⟨hset, hfreed⟩ := ih (m.rewriteUri uri)
    have hlen : (m.rewriteUri uri).freed.length = m.freed.length + (if m.req.newUri.isSome then 1 else 0) := by
      cases hnew : m.req.newUri <;> simp [Request.rewriteUri, Request.newUri, hnew]
    have hsome : (m.rewriteUri uri).req.newUri.isSome = true := rfl
    rw [foldl_cons]
    refine ⟨by simp [hset, hsome], ?_⟩
    have hone : (if m.req.newUri.isSome = true ∧ uri :: uris ≠ [] then 1 else 0) =
        if m.req.newUri.isSome = true then 1 else 0 := by simp
    omega

/-- What a branch that is printed does to a request. -/
theorem print_spec (env : Env) (m : Request) (branch : Nat) (uri : UriRef) (dst : DestInfo) :
    Later m (env.printUacRequest m branch uri dst).2 ∧
      ((env.route (m.enter uri)).rewrites = [] ∧
        (m.parsedUri.isSome → (env.printUacRequest m branch uri dst).2.parsedUri.isSome) ∨
      m.freed.length < (env.printUacRequest m branch uri dst).2.freed.length ∨
        (m.req.newUri = none ∧ (env.printUacRequest m branch uri dst).2.req.newUri.isSome)) := by
  obtain ⟨hset, hfreed⟩ := foldl_rewriteUri (env.route (m.enter uri)).rewrites (m.enter uri)
  have hfreed' : (env.printUacRequest m branch uri dst).2.freed =
      ((env.route (m.enter uri)).rewrites.foldl Request.rewriteUri (m.enter uri)).freed := by
    simp only [Env.printUacRequest, Request.leave, Effect.run, Request.setLumps]
    split_ifs <;> rfl
  rw [← hfreed'] at hfreed
  cases hdiff : m.differs uri with
  | true =>
    have hnew : (env.printUacRequest m branch uri dst).2.req.newUri = m.req.newUri ∧
        (env.printUacRequest m branch uri dst).2.parsedUri = m.parsedUri := by
      simp only [Env.printUacRequest, Request.leave, hdiff]
      exact ⟨rfl, rfl⟩
    have henter : (m.enter uri).req.newUri.isSome = true ∧ (m.enter uri).freed = m.freed := by
      simp only [Request.enter, hdiff]
      exact ⟨rfl, rfl⟩
    rw [henter.2] at hfreed
    refine ⟨⟨by omega, fun hsome => hnew.1 ▸ hsome⟩, ?_⟩
    by_cases hrew : (env.route (m.enter uri)).rewrites = []
    · exact .inl ⟨hrew, fun hp => hnew.2 ▸ hp⟩
    · rw [if_pos ⟨henter.1, hrew⟩] at hfreed
      exact .inr (.inl hfreed)
  | false =>
    have henter : m.enter uri = m := by rw [Request.enter, hdiff, if_neg Bool.false_ne_true]
    have hleave : (env.printUacRequest m branch uri dst).2 =
        ((env.route m).run m).setLumps m.req.addRm m.req.bodyLumps := by
      simp only [Env.printUacRequest, Request.leave, hdiff, henter]
      rfl
    rw [henter] at hset hfreed ⊢
    have hnew : (env.printUacRequest m branch uri dst).2.req.newUri.isSome =
        (m.req.newUri.isSome || (env.route m).rewrites ≠ []) := by
      rw [hleave, ← hset]
      simp only [Effect.run, Request.setLumps]
      split_ifs <;> rfl
    refine ⟨⟨by omega, fun hsome => by rw [hnew, hsome]; rfl⟩, ?_⟩
    by_cases hrew : (env.route m).rewrites = []
    · refine .inl ⟨hrew, fun hp => ?_⟩
      rw [hleave, run_of_keeps hrew]
      simp only [Request.setLumps]
      split_ifs
      · obtain ⟨text, htext⟩ := isSome_iff_exists.1 hp
        simp [htext]
      · exact hp
    · cases hold : m.req.newUri with
      | none => exact .inr (.inr ⟨rfl, by rw [hnew]; simp [hrew]⟩)
      | some text =>
        rw [if_pos ⟨by rw [hold]; rfl, hrew⟩] at hfreed
        exact .inr (.inl hfreed)

theorem Changed.print {m' : Request} (h : Changed m m') (dst) :
    Changed m (env.printUacRequest m' branch uri dst).2 := by
  obtain ⟨⟨hle, hset⟩, hleft⟩ := h
  obtain ⟨⟨hle', hset'⟩, hprint⟩ := print_spec env m' branch uri dst
  refine ⟨⟨hle.trans hle', fun hsome => hset' (hset hsome)⟩, ?_⟩
  rcases hleft with hlt | ⟨hnone, hsome⟩ | ⟨hnone, hsome⟩
  · exact .inl (hlt.trans_le hle')
  · exact .inr (.inl ⟨hnone, hset' hsome⟩)
  · rcases hprint with ⟨-, hparsed⟩ | hlt | ⟨hnew, hsome'⟩
    · exact .inr (.inr ⟨hnone, hparsed hsome⟩)
    · exact .inl (hle.trans_lt hlt)
    · refine .inr (.inl ⟨?_, hsome'⟩)
      cases hm : m.req.newUri with
      | none => rfl
      | some text =>
        rw [hm] at hset
        rw [hnew] at hset
        cases hset rfl

/-- A branch route that does not keep the URI leaves something. -/
theorem changed_of_not_keeps (branch : Nat) (h : ¬ env.Keeps m uri) (dst) :
    Changed m (env.printUacRequest m branch uri dst).2 := by
  obtain ⟨hlater, hprint⟩ := print_spec env m branch uri dst
  refine ⟨hlater, ?_⟩
  rcases hprint with ⟨hrew, -⟩ | hlt | hset
  · have hparses : m.differs uri = false ∧ (env.route (m.enter uri)).parses = true ∧ m.parsedUri = none := by
      by_contra hno
      exact h ⟨hrew, fun hdiff hp => by
        by_contra hnone
        exact hno ⟨hdiff, hp, by simpa using hnone⟩⟩
    obtain ⟨hdiff, hp, hnone⟩ := hparses
    refine .inr (.inr ⟨hnone, ?_⟩)
    have henter : m.enter uri = m := by rw [Request.enter, hdiff, if_neg Bool.false_ne_true]
    rw [henter] at hrew hp
    simp only [Env.printUacRequest, henter, run_of_keeps hrew, hp, hdiff, Request.leave, hnone]
    rfl
  · exact .inl hlt
  · exact .inr (.inl hset)

theorem Changed.foldl {ts : List Target} {s : List Uac × Request} (h : Changed m s.2) :
    Changed m (ts.foldl env.addTarget s).2 := by
  induction ts generalizing s with
  | nil => exact h
  | cons t ts ih =>
    refine ih ?_
    have hs : Changed m { s.2 with forceSendSocket := t.forceSendSocket } := ⟨h.later, h.left⟩
    rcases addUac_cases env { s.2 with forceSendSocket := t.forceSendSocket } s.1.length t.uri t.nextHop with
      ⟨heq, -⟩ | ⟨dst, -, heq⟩
    · exact heq.symm ▸ hs
    · exact heq.symm ▸ hs.print dst

/-- A loop after which the request is as before is one in which the branch route kept the URIs. -/
theorem kept_of_foldl {ts : List Target} {uacs} (sock)
    (h : ¬ Changed m (ts.foldl env.addTarget (uacs, { m with forceSendSocket := sock })).2) :
    env.Kept m uacs.length ts := by
  induction ts generalizing uacs sock with
  | nil => trivial
  | cons t ts ih =>
    have hkeeps : env.Reaches uacs.length t → env.Keeps { m with forceSendSocket := t.forceSendSocket } t.uri := by
      intro hreach
      by_contra hno
      refine h (Changed.foldl (s := env.addTarget (uacs, _) t) ?_)
      rcases addUac_cases env { m with forceSendSocket := t.forceSendSocket } uacs.length t.uri t.nextHop with
        ⟨-, hnot⟩ | ⟨dst, -, heq⟩
      · exact absurd hreach hnot
      · have hc := changed_of_not_keeps uacs.length hno dst
        rw [← heq] at hc
        exact ⟨hc.later, hc.left⟩
    refine ⟨hkeeps, ?_⟩
    rw [foldl_cons, addTarget_eq hkeeps] at h
    rw [← length_append]
    exact ih t.forceSendSocket h

end Restored

/-! ## The URI of a branch -/

section Uri

variable {core : ReqCore} {req : SipReq} {dst : DestInfo} {rand : Rand} {b : BuiltReq} {list : List Lump}

theorem Behind.fixLumps {q} (h : Behind q list) (s : Nat) : Behind q (fixLumps s list) := by
  induction list generalizing s with
  | nil => exact nofun
  | cons t list ih =>
    obtain ⟨r, hr, hle⟩ := h t mem_cons_self
    have ih := ih fun t' ht' => h t' (mem_cons_of_mem _ ht')
    obtain ⟨op, before, after⟩ := t
    cases op with
    | add op => cases hr
    | del offset len | nop offset =>
      obtain rfl := some.inj hr
      exact forall_mem_cons.2 ⟨⟨_, rfl, le_trans hle (le_max_right ..)⟩, ih _⟩

theorem Behind.startsAt {q} (h : Behind q list) : StartsAt q list := by
  intro t ht
  obtain ⟨r, hr, hle⟩ := h t (mem_of_mem_head? ht)
  exact ⟨r, hr, hle⟩

theorem uri_le (hparsed : req.Parsed) : req.uri.1 + req.uri.2 ≤ req.buf.length := by
  have hvia := hparsed.uriVia
  have hin := hparsed.viaIn
  have hparam := hparsed.via1.insertParam
  omega

/-- What was sent instead of the URI stands in its place. -/
theorem written_newUri {uri} (hparsed : req.Parsed) (huri : req.newUri = some uri)
    (h : buildReqBufFromSipReq core req dst rand = some b) :
    ∃ rest, b.written = Lib.Edit.part req.buf 0 req.uri.1 ++ (uri ++ rest) := by
  obtain ⟨p, clen, params, -, -, -, -, -, hwritten⟩ := buildReq_spec hparsed h
  have hfront : req.front = Lib.Edit.part req.buf 0 req.uri.1 ++ uri := by
    unfold SipReq.front
    rw [huri]
  rw [hfront, append_assoc] at hwritten
  exact ⟨_, hwritten⟩

/-- Without another URI the first line stays, if the lumps are behind it. -/
theorem written_uri (hparsed : req.Parsed) (huri : req.newUri = none)
    (hheaders : Behind (req.uri.1 + req.uri.2) req.addRm)
    (hbody : Behind (req.uri.1 + req.uri.2) req.bodyLumps) (h : buildReqBufFromSipReq core req dst rand = some b) :
    ∃ rest, b.written = Lib.Edit.part req.buf 0 req.uri.1 ++
      (Lib.Edit.part req.buf req.uri.1 (req.uri.1 + req.uri.2) ++ rest) := by
  obtain ⟨p, clen, params, -, hprep, -, -, -, hwritten⟩ := buildReq_spec hparsed h
  -- the lumps of the proxy are behind the URI even if another one is sent
  have hparsed' : ({ req with newUri := some [] } : SipReq).Parsed :=
    ⟨⟨hparsed.eoh, hparsed.clen, hparsed.clenEnd⟩, hparsed.via1, hparsed.viaIn, hparsed.viaEnd,
      hparsed.uriVia, hparsed.uriClen, hparsed.viaClen⟩
  have hown := SipReq.Prepared.own hparsed' ⟨hprep.adjusted, hprep.inVia, hprep.msg, hprep.chance,
      hprep.newLen, hprep.line⟩
  have hlist : Behind (req.uri.1 + req.uri.2) (insertByOffset req.via1.hdr (req.viaLump p.line) p.msg.addRm) := by
    rw [hprep.msg]
    intro t ht
    rcases mem_insertByOffset.1 ht with rfl | ht
    · exact ⟨_, rfl, hparsed.uriVia⟩
    · refine Behind.fixLumps ?_ 0 t ht
      intro t' ht'
      rcases mem_putAll.1 ht' with ht' | ht'
      · obtain ⟨-, r, hr, -, hle, -⟩ := hown t' ht'
        exact ⟨r, hr, hle⟩
      · exact hheaders t' ht'
  have hstart : StartsAt (req.uri.1 + req.uri.2)
      (insertByOffset req.via1.hdr (req.viaLump p.line) p.msg.addRm ++ p.msg.bodyLumps) := by
    refine StartsAt.append hlist.startsAt ?_
    rw [hprep.msg]
    exact (hbody.fixLumps 0).startsAt
  have hfront : req.front = [] := by
    unfold SipReq.front
    rw [huri]
  have hzero : req.start = 0 := by
    unfold SipReq.start
    rw [huri]
  rw [hfront, hzero, writeLumps_from (Nat.zero_le _) (uri_le hparsed) hstart,
    ← Lib.Edit.part_append (Nat.zero_le req.uri.1) (Nat.le_add_right req.uri.1 req.uri.2),
      nil_append, append_assoc] at hwritten
  exact ⟨_, hwritten⟩

end Uri

section Denotes

variable {m : Request} {branch : Nat} {env : Env} {uri : UriRef}

theorem Request.Ready.enter (hm : m.Ready) (uri) : (m.enter uri).req.Parsed := by
  have h := hm.parsed
  unfold Request.enter
  split_ifs
  · exact ⟨⟨h.eoh, h.clen, h.clenEnd⟩, h.via1, h.viaIn, h.viaEnd, h.uriVia, h.uriClen, h.viaClen⟩
  · exact h

theorem enter_buf (m : Request) (uri) : (m.enter uri).req.buf = m.req.buf ∧ (m.enter uri).req.uri = m.req.uri := by
  unfold Request.enter
  split_ifs <;> exact ⟨rfl, rfl⟩

/-- The text of a branch begins with the method and the URI. -/
theorem printed_uri {dst buf} (hrew : (env.route (m.enter uri)).rewrites = []) (hm : m.Ready)
    (hbehind : (m.enter uri).req.newUri = none →
      Behind (m.req.uri.1 + m.req.uri.2) (env.route (m.enter uri)).addRm ∧
        Behind (m.req.uri.1 + m.req.uri.2) (env.route (m.enter uri)).bodyLumps)
    (hbuf : (env.printUacRequest m branch uri dst).1 = some buf) :
    ∃ rest, buf = Lib.Edit.part m.req.buf 0 m.req.uri.1 ++ (sentUri (m.enter uri).req ++ rest) := by
  obtain ⟨b, hb, rfl⟩ := map_eq_some_iff.1 hbuf
  rw [run_of_keeps hrew] at hb
  have hparsed := hm.enter uri
  obtain ⟨hbuffer, hplace⟩ := enter_buf m uri
  have hparsed' : ((m.enter uri).setLumps (env.route (m.enter uri)).addRm
      (env.route (m.enter uri)).bodyLumps).req.Parsed :=
    ⟨⟨hparsed.eoh, hparsed.clen, hparsed.clenEnd⟩, hparsed.via1, hparsed.viaIn, hparsed.viaEnd, hparsed.uriVia,
      hparsed.uriClen, hparsed.viaClen⟩
  unfold sentUri
  cases hnew : (m.enter uri).req.newUri with
  | some text =>
    obtain ⟨rest, hrest⟩ := written_newUri hparsed' hnew hb
    exact ⟨rest, by rw [hrest, Request.setLumps_buf, Request.setLumps_uri, hbuffer, hplace, getD_some]⟩
  | none =>
    obtain ⟨hheaders, hbody⟩ := hbehind hnew
    rw [← hplace] at hheaders hbody
    obtain ⟨rest, hrest⟩ := written_uri hparsed' hnew hheaders hbody hb
    rw [Request.setLumps_buf, Request.setLumps_uri, hbuffer, hplace] at hrest
    exact ⟨rest, by rw [hrest, getD_none, hbuffer, hplace]⟩

/-- What is sent is as long as the URI that is given, unless the URI that is set is empty. -/
theorem length_sentUri (hm : m.Ready) (huri : uri = m.getRuri ∨ m.differs uri = true) :
    (m.deref uri).text.length = (sentUri (m.enter uri).req).length ↔ (uri = m.getRuri → m.req.newUri ≠ some []) := by
  cases hdiff : m.differs uri with
  | true =>
    have hne : uri ≠ m.getRuri := by
      rintro rfl
      simp [Request.differs] at hdiff
    simp only [Request.enter, hdiff]
    exact iff_of_true rfl fun heq => absurd heq hne
  | false =>
    obtain rfl := huri.resolve_right (by simp [hdiff])
    have henter : m.enter m.getRuri = m := by rw [Request.enter, hdiff, if_neg Bool.false_ne_true]
    rw [henter]
    unfold sentUri Request.getRuri Request.newUri
    cases hnew : m.req.newUri with
    | none => simp [Request.deref, Request.firstLineUri]
    | some text =>
      by_cases hempty : text = []
      · have hle := uri_le hm.parsed
        have hpos := hm.uri
        subst hempty
        simp [Request.deref, Request.firstLineUri, Lib.Edit.length_part hle]
        omega
      · simp [Request.deref, Request.newUri, hnew, hempty]

/-- What is built for a destination has its URI in the place that is remembered, if the request
begins with its method. -/
theorem alone_denotes {t : Target} {u : Uac} (hm : m.Ready)
    (h : env.Keeps { m with forceSendSocket := t.forceSendSocket } t.uri)
    (hbehind : ∀ m', m' = ({ m with forceSendSocket := t.forceSendSocket } : Request).enter t.uri →
      m'.req.newUri = none → Behind (m.req.uri.1 + m.req.uri.2) (env.route m').addRm ∧
        Behind (m.req.uri.1 + m.req.uri.2) (env.route m').bodyLumps)
    (ht : t.uri = m.getRuri ∨ ∃ s, t.uri = .branch s ∧ s.addr ≠ (m.deref m.getRuri).addr)
    (hu : env.alone m t branch = some u) : u.Denotes (m.enter t.uri).req ↔
      m.req.uri.1 = m.methodLen + 1 ∧ (t.uri = m.getRuri → m.req.newUri ≠ some []) := by
  have huri : t.uri = m.getRuri ∨ m.differs t.uri = true := by
    refine ht.imp id ?_
    rintro ⟨s, hs, hne⟩
    rw [hs, Request.differs, or_eq_true]
    exact .inl (decide_eq_true hne.symm)
  have henter :
      (m.enter t.uri).req =
      (({ m with forceSendSocket := t.forceSendSocket } : Request).enter t.uri).req := by
    unfold Request.enter
    rw [show ({ m with forceSendSocket := t.forceSendSocket } : Request).differs t.uri = m.differs t.uri from rfl]
    split_ifs <;> rfl
  obtain ⟨hbuffer, hplace⟩ := enter_buf m t.uri
  unfold Env.alone Env.addUac at hu
  split_ifs at hu
  split at hu
  · cases hu
  · rename_i dst _
    obtain ⟨buf, hbuf, rfl⟩ := map_eq_some_iff.1 hu
    obtain ⟨rest, hrest⟩ := printed_uri h.rewrites ⟨hm.parsed, hm.uri⟩ (hbehind _ rfl) hbuf
    rw [print_restores h, ← length_sentUri hm huri]
    unfold Uac.Denotes
    rw [hbuffer, hplace]
    constructor
    · rintro ⟨-, -, hpos, hlen⟩
      exact ⟨hpos.symm, hlen⟩
    · rintro ⟨hpos, hlen⟩
      exact ⟨rest, by rw [hrest, henter], hpos.symm, hlen⟩

end Denotes

/-! A small request, a branch route that adds a header behind the first line, and one that rewrites the Request-URI. -/

def sampleFwd : Request := ⟨sampleReq (some 12) [] [] none, 1, 0, 100, some (bytes "u"), none, []⟩

def sampleEnv (route : Request → Effect) : Env :=
  ⟨route, fun _ _ => some ⟨.udp, some ⟨⟨.inet, []⟩, [], 5060, [], .udp⟩⟩, fun _ => sampleCore, fun _ => noChance⟩

def addsHeader (m : Request) : Effect :=
  ⟨[], true, [⟨.nop (m.req.uri.1 + m.req.uri.2 + 1), .text (bytes "X:1\n"), .none⟩], []⟩

def rewritesUri (m : Request) : Effect := ⟨[⟨900, bytes "new"⟩], false, m.req.addRm, m.req.bodyLumps⟩

def sampleDests : List Dest := [⟨⟨700, bytes "b"⟩, [], none⟩]

/-- The branches do not depend on each other and the request is as before if and only if the branch
route keeps the URIs; and then a branch has the URI of its destination where it is remembered if and
only if the request begins with its method, and the URI that is set is not empty. -/
theorem branches_apart (env : Env) (uacs : List Uac) (m : Request) (nextHop : List UInt8) (dests : List Dest)
    (hm : m.Ready) (hdests : ∀ d ∈ dests, d.uri.addr ≠ (m.deref m.getRuri).addr) :
    (env.addBranches uacs m nextHop dests =
        (uacs ++ env.apart m uacs.length (targets uacs m nextHop dests), m) ↔
      env.Kept m uacs.length (targets uacs m nextHop dests)) ∧
    ∀ t ∈ targets uacs m nextHop dests, ∀ branch u, env.alone m t branch = some u →
      env.Keeps { m with forceSendSocket := t.forceSendSocket } t.uri →
      (∀ m', m' = ({ m with forceSendSocket := t.forceSendSocket } : Request).enter t.uri → m'.req.newUri = none →
        Behind (m.req.uri.1 + m.req.uri.2) (env.route m').addRm ∧
          Behind (m.req.uri.1 + m.req.uri.2) (env.route m').bodyLumps) →
      (u.Denotes (m.enter t.uri).req ↔
        m.req.uri.1 = m.methodLen + 1 ∧ (t.uri = m.getRuri → m.req.newUri ≠ some [])) := by
  constructor
  · rw [addBranches_eq]
    constructor
    · intro h
      refine kept_of_foldl m.forceSendSocket fun hc => hc.ne (congrArg Prod.snd h)
    · intro h
      obtain ⟨sock, hfold⟩ := foldl_addTarget m.forceSendSocket h
      rw [hfold]
  · intro t ht branch u hu hkeeps hbehind
    refine alone_denotes hm hkeeps hbehind ?_ hu
    rcases mem_append.1 ht with ht | ht
    · left
      split_ifs at ht with hnil
      · rw [mem_singleton.1 ht]
      · cases ht
    · obtain ⟨d, hd, rfl⟩ := mem_map.1 ht
      exact .inr ⟨d.uri, rfl, hdests d hd⟩

theorem branches_apart_sample :
    (sampleEnv addsHeader).addBranches [] sampleFwd (bytes "u") sampleDests =
      ([] ++ (sampleEnv addsHeader).apart sampleFwd 0 (targets [] sampleFwd (bytes "u") sampleDests), sampleFwd) ∧
    ∀ t ∈ targets [] sampleFwd (bytes "u") sampleDests, ∀ branch u,
      (sampleEnv addsHeader).alone sampleFwd t branch = some u → u.Denotes (sampleFwd.enter t.uri).req := by
  have hkeeps : ∀ sock uri, (sampleEnv addsHeader).Keeps { sampleFwd with forceSendSocket := sock } uri :=
    fun _ _ => ⟨rfl, fun _ _ => rfl⟩
  obtain ⟨hiff, hdenotes⟩ := branches_apart (sampleEnv addsHeader) [] sampleFwd (bytes "u") sampleDests
    ⟨sampleReq_parsed eoh_sample [] [] none, by decide⟩ (by decide)
  refine ⟨hiff.2 ⟨fun _ => hkeeps .., fun _ => hkeeps .., trivial⟩, fun t ht branch u hu => ?_⟩
  refine (hdenotes t ht branch u hu (hkeeps ..) ?_).2 ⟨rfl, fun _ => nofun⟩
  rintro m' rfl -
  refine ⟨forall_mem_singleton.2 ⟨_, rfl, ?_⟩, nofun⟩
  obtain ⟨-, hplace⟩ := enter_buf { sampleFwd with forceSendSocket := t.forceSendSocket } t.uri
  rw [hplace]
  exact Nat.le_succ _

/-- The Request-URI that the branch route sets for the first branch stays in the request; the URI of
that branch is not the one in its buffer; and for another destination the place of its URI in the
destination set is freed. -/
theorem branch_rewrite_stays :
    ((sampleEnv rewritesUri).addBranches [] sampleFwd (bytes "u") []).2.req.newUri = some
    (bytes "new") ∧ sampleFwd.req.newUri = none ∧
    ((sampleEnv rewritesUri).addBranches [] sampleFwd (bytes "u") []).1.map (fun u => (u.buffer, u.uri)) =
      [(bytes "I new\nV:u\nV:a\nC:b\n\nxy", bytes "n")] ∧
    700 ∈ ((sampleEnv rewritesUri).addBranches [] sampleFwd (bytes "u") sampleDests).2.freed := by
  decide +kernel

end SipRouter.Fwd
