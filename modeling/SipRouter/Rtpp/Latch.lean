import Mathlib.Data.List.Basic

/-!
# Where media may come from (`rtpproxy/main.c`, `rtpproxy/rtpp_command.c`)

A session and its RTCP twin record, for each side, the address from which packets come. A
command may fill an address in and allows it to be updated; a packet from elsewhere then
updates it, and unless it is the address from before the command, that was the only
update. When the RTP address is updated, the RTCP address is guessed from it, and may be
updated again.

A side has a leg for RTP and one for RTCP. Times are in any unit. Of a socket address the
host and the port are kept; logs, counters, sending and recording are left out.
-/

namespace SipRouter.Rtpp

open List Option

structure Addr where
  host : List UInt8
  port : Nat
deriving DecidableEq

/-- What a session has for one side. -/
structure Leg where
  addr : Option Addr
  prevAddr : Option Addr
  canupdate : Bool
  untrustedAddr : Bool
  asymmetric : Bool
  /-- 0 if no command found an address recorded -/
  lastUpdate : Int
deriving DecidableEq

variable {l : Leg} {raddr : Addr}

/-- One side, in a session and in its RTCP twin. -/
structure Side where
  rtp : Leg
  rtcp : Leg
deriving DecidableEq

inductive Kind where
  | rtp
  | rtcp
deriving DecidableEq

def Side.leg (s : Side) : Kind → Leg
  | .rtp => s.rtp
  | .rtcp => s.rtcp

def Side.setLeg (s : Side) : Kind → Leg → Side
  | .rtp, l => { s with rtp := l }
  | .rtcp, l => { s with rtcp := l }

/-- A packet, with its source and when it came, and if there is memory for an address where one is needed. -/
structure Packet where
  kind : Kind
  raddr : Addr
  dtime : Int
  memAddr : Bool
  memRtcp : Bool

/-! ## Packets -/

/-- The check of a packet in `rxmit_packets`: dropped, or if the address has to be updated. -/
def Leg.check (window : Int) (l : Leg) (raddr : Addr) (dtime : Int) : Option (Leg × Bool) :=
  match l.addr with
  | some a =>
    if l.asymmetric then if a.host = raddr.host then some (l, false) else none
    else if a ≠ raddr then if l.canupdate then some (l, true) else none
    else if l.canupdate ∧ l.lastUpdate ≠ 0 ∧ dtime - l.lastUpdate > window then
      some ({ l with canupdate := false }, false)
    else some (l, false)
  | none => some (l, true)

/-- The update of a recorded address. -/
def Leg.update (l : Leg) (raddr : Addr) : Leg :=
  { l with
    untrustedAddr := true
    addr := some raddr
    canupdate := if l.prevAddr = some raddr then l.canupdate else false }

/-- The guess of the RTCP address from a new RTP address. -/
def Leg.guess (l : Leg) (raddr : Addr) : Leg :=
  if (l.addr.map Addr.host) = some raddr.host then l
  else { l with addr := some { raddr with port := (raddr.port + 1) % 65536 }, canupdate := !l.asymmetric }

/-- One packet in `rxmit_packets`: if it is relayed, and what is recorded afterwards, unless the session is removed. -/
def rxmit (window : Int) (s : Side) (p : Packet) : Bool × Option Side :=
  match (s.leg p.kind).check window p.raddr p.dtime with
  | none => (false, some s)
  | some (l, false) => (true, some (s.setLeg p.kind l))
  | some (l, true) =>
    if l.addr.isNone ∧ !p.memAddr then (false, none)
    else
      match p.kind with
      | .rtp =>
        if s.rtcp.addr.isNone ∧ !p.memRtcp then (false, none)
        else (true, some ⟨l.update p.raddr, s.rtcp.guess p.raddr⟩)
      | .rtcp => (true, some { s with rtcp := l.update p.raddr })

/-- What is recorded after some packets, unless the session was removed. -/
def rxmitAll (window : Int) : Side → List Packet → Option Side
  | s, [] => some s
  | s, p :: ps => (rxmit window s p).2.bind fun s => rxmitAll window s ps

/-! ## Commands -/

/-- The address a command gives for a leg (`handle_command`). -/
def Leg.prefill (l : Leg) (ia : Option Addr) (asymmetric : Bool) (dtime : Int) : Leg :=
  let l := match ia with
    | none => l
    | some a =>
      let l := if l.addr.isSome then { l with lastUpdate := dtime } else l
      if l.untrustedAddr = false ∧ l.addr ≠ some a then
        { l with prevAddr := if l.addr.isSome ∧ l.canupdate = false then l.addr else l.prevAddr, addr := some a }
      else l
  { l with asymmetric := asymmetric, canupdate := !asymmetric }

/-- A command, with addresses for both sessions or none. -/
def Side.prefill (s : Side) (ia : Option (Addr × Addr)) (asymmetric : Bool) (dtime : Int) : Side :=
  ⟨s.rtp.prefill (ia.map Prod.fst) asymmetric dtime, s.rtcp.prefill (ia.map Prod.snd) asymmetric dtime⟩

/-- A side of a new session. -/
def newSide : Side :=
  let l : Leg :=
    { addr := none
      prevAddr := none
      canupdate := false
      untrustedAddr := false
      asymmetric := false
      lastUpdate := 0 }
  ⟨l, l⟩

/-! ## A leg -/

/-- What a packet from a known address can do to a leg: it may close it, or move an open one. -/
inductive Leg.Next (l : Leg) : Leg → Prop where
  | keep (b : Bool) (hb : b = true → l.canupdate = true) : Leg.Next l { l with canupdate := b }
  | move (raddr : Addr) (hopen : l.canupdate = true) (hne : l.addr ≠ some raddr) : Leg.Next l (l.update raddr)

section Leg

variable {l l' : Leg} {a raddr : Addr} {window dtime : Int}

theorem Leg.Next.refl : Leg.Next l l := .keep l.canupdate id

section

variable (h : Leg.Next l l')

include h

theorem Leg.Next.asymmetric_eq : l'.asymmetric = l.asymmetric := by
  cases h <;> rfl

theorem Leg.Next.prevAddr_eq : l'.prevAddr = l.prevAddr := by
  cases h <;> rfl

theorem Leg.Next.isSome_addr (hl : l.addr.isSome) : l'.addr.isSome := by
  cases h with
  | keep b hb => exact hl
  | move raddr hopen hne => rfl

/-- A closed leg stays as it is. -/
theorem Leg.Next.eq_of_closed (hl : l.canupdate = false) : l' = l := by
  cases h with
  | keep b hb =>
    have hb : b = false := by
      by_contra hb'
      simp [hb (by simpa using hb')] at hl
    subst hb
    rw [← hl]
  | move raddr hopen hne => simp [hl] at hopen

/-- A move to another address than the one before the command closes the leg. -/
theorem Leg.Next.closed_of_ne (hne : l'.addr ≠ l.addr) (hprev : l'.addr ≠ l.prevAddr) :
    l.canupdate = true ∧ l'.canupdate = false := by
  cases h with
  | keep b hb => exact absurd rfl hne
  | move raddr hopen hne' =>
    refine ⟨hopen, ?_⟩
    simp only [Leg.update] at hprev ⊢
    rw [if_neg (fun h => hprev h.symm)]

end

/-- A packet from elsewhere is accepted only if the address may be updated. -/
theorem Leg.check_other (window dtime : Int) (hsym : l.asymmetric = false) (ha : l.addr = some a) (hne : a ≠ raddr) :
    l.check window raddr dtime = if l.canupdate then some (l, true) else none := by
  simp [Leg.check, ha, hsym, hne]

/-- A packet from the recorded address is accepted, and closes the leg if it comes late after a command. -/
theorem Leg.check_same (hsym : l.asymmetric = false) (ha : l.addr = some raddr) :
    ∃ b, l.check window raddr dtime = some ({ l with canupdate := b }, false) ∧ (b = true → l.canupdate = true) ∧
      (l.lastUpdate ≠ 0 → dtime - l.lastUpdate > window → b = false) := by
  by_cases hw : l.canupdate ∧ l.lastUpdate ≠ 0 ∧ dtime - l.lastUpdate > window
  · exact ⟨false, by simp [Leg.check, ha, hsym, hw], nofun, fun _ _ => rfl⟩
  · refine ⟨l.canupdate, ?_, id, fun hlu hlt => ?_⟩
    · show l.check window raddr dtime = some (l, false)
      simp only [Leg.check, ha, hsym, if_neg hw, ne_eq, not_true, if_false, Bool.false_eq_true]
    · by_contra hcan
      exact hw ⟨by simpa using hcan, hlu, hlt⟩

end Leg

/-! ## A side -/

/-- A client that sends from where it receives. -/
structure Side.Symmetric (s : Side) : Prop where
  rtp : s.rtp.asymmetric = false
  rtcp : s.rtcp.asymmetric = false

/-- The addresses to which the recorded address of a leg changes. -/
def changes (window : Int) (k : Kind) : Side → List Packet → List (Option Addr)
  | _, [] => []
  | s, p :: ps =>
    match (rxmit window s p).2 with
    | none => []
    | some s' => (if (s'.leg k).addr = (s.leg k).addr then [] else [(s'.leg k).addr]) ++ changes window k s' ps

section Side

variable {window : Int} {s s' : Side} {p : Packet} {ps : List Packet} {a : Addr} {k : Kind}

@[simp]
theorem Side.leg_setLeg {k} : (s.setLeg k l).leg k = l := by
  cases k <;> rfl

theorem Side.leg_setLeg_of_ne {k k'} (hk : k' ≠ k) : (s.setLeg k l).leg k' = s.leg k' := by
  cases k <;> cases k' <;> first | rfl | exact absurd rfl hk

theorem Side.Symmetric.leg (hs : s.Symmetric) : (s.leg k).asymmetric = false := by
  cases k
  · exact hs.rtp
  · exact hs.rtcp

theorem Leg.guess_asymmetric : (l.guess raddr).asymmetric = l.asymmetric := by
  simp only [Leg.guess]
  split <;> rfl

/-- What a packet of a leg with a recorded address can do. -/
inductive Rxmit (window : Int) (s : Side) (p : Packet) (a : Addr) : Prop where
  /-- not from the recorded address, on a closed leg -/
  | drop (hne : a ≠ p.raddr) (hcl : (s.leg p.kind).canupdate = false) (h : rxmit window s p = (false, some s))
  /-- from the recorded address -/
  | keep (ha : a = p.raddr) (b : Bool) (hb : b = true → (s.leg p.kind).canupdate = true)
      (hw : (s.leg p.kind).lastUpdate ≠ 0 → p.dtime - (s.leg p.kind).lastUpdate > window → b = false)
      (h : rxmit window s p = (true, some (s.setLeg p.kind { s.leg p.kind with canupdate := b })))
  /-- not from the recorded address, on an open leg, when there is no memory for an RTCP address -/
  | fail (hop : (s.leg p.kind).canupdate = true) (h : rxmit window s p = (false, none))
  /-- not from the recorded address, on an open leg -/
  | move (s' : Side) (hne : a ≠ p.raddr) (hop : (s.leg p.kind).canupdate = true)
      (hleg : s'.leg p.kind = (s.leg p.kind).update p.raddr)
      (hrtcp : s'.rtcp.asymmetric = s.rtcp.asymmetric) (hrtp : p.kind = .rtcp → s'.rtp = s.rtp)
      (h : rxmit window s p = (true, some s'))

/-- A packet from elsewhere on an open leg. -/
theorem rxmit_other (hs : s.Symmetric) (ha : (s.leg p.kind).addr = some a) (hne : a ≠ p.raddr)
    (hop : (s.leg p.kind).canupdate = true) :
    rxmit window s p =
      match p.kind with
      | .rtp =>
        if s.rtcp.addr.isNone ∧ !p.memRtcp then (false, none)
        else (true, some ⟨(s.leg p.kind).update p.raddr, s.rtcp.guess p.raddr⟩)
      | .rtcp => (true, some { s with rtcp := (s.leg p.kind).update p.raddr }) := by
  have hcheck := Leg.check_other window p.dtime hs.leg ha hne
  rw [if_pos hop] at hcheck
  have hmem : ¬((s.leg p.kind).addr.isNone ∧ !p.memAddr) := by simp [ha]
  simp only [rxmit, hcheck, if_neg hmem]

theorem rxmit_spec (hs : s.Symmetric) (ha : (s.leg p.kind).addr = some a) : Rxmit window s p a := by
  by_cases hne : a = p.raddr
  · subst hne
    obtain ⟨b, hcheck, hb, hw⟩ := Leg.check_same hs.leg ha
    exact .keep rfl b hb hw (by simp [rxmit, hcheck])
  cases hcan : (s.leg p.kind).canupdate with
  | false => exact .drop hne hcan (by simp [rxmit, Leg.check_other window p.dtime hs.leg ha hne, hcan])
  | true =>
    have hrun : rxmit window s p = _ := rxmit_other hs ha hne hcan
    cases hk : p.kind with
    | rtp =>
      simp only [hk] at hrun
      by_cases hmem : s.rtcp.addr.isNone ∧ !p.memRtcp
      · exact .fail hcan (by rw [hrun, if_pos hmem])
      · rw [if_neg hmem] at hrun
        exact .move _ hne hcan (by rw [hk]; rfl) (Leg.guess_asymmetric) (by simp [hk]) hrun
    | rtcp =>
      simp only [hk] at hrun
      exact .move { s with rtcp := s.rtcp.update p.raddr } hne hcan (by rw [hk]; rfl) rfl (fun _ => rfl) hrun

end Side

/-! ## Sides of a session -/

/-- The sides that commands and packets lead to. -/
inductive Reached (window : Int) : Side → Prop where
  | new : Reached window newSide
  | command {s : Side} (h : Reached window s) (ia : Option (Addr × Addr)) (asymmetric : Bool) (dtime : Int) :
      Reached window (s.prefill ia asymmetric dtime)
  | packet {s s' : Side} (h : Reached window s) (p : Packet) (hp : (rxmit window s p).2 = some s') : Reached window s'

/-- The RTCP session follows the RTP session. -/
structure Side.Twins (s : Side) : Prop where
  asymmetric : s.rtcp.asymmetric = s.rtp.asymmetric
  known : s.rtp.addr.isSome → s.rtcp.addr.isSome
  untrusted : s.rtcp.untrustedAddr = true → s.rtcp.addr.isSome

section Twins

variable {window : Int} {s s' : Side} {p : Packet}

theorem Leg.check_frame {l l' : Leg} {raddr dtime upd}
    (h : l.check window raddr dtime = some (l', upd)) : ∃ b, l' = { l with canupdate := b } := by
  unfold Leg.check at h
  split at h
  · split_ifs at h <;> cases h <;> exact ⟨_, rfl⟩
  · cases h
    exact ⟨_, rfl⟩

theorem Leg.isSome_guess : (l.guess raddr).addr.isSome := by
  unfold Leg.guess
  split
  · next h =>
    rw [← isSome_map (f := Addr.host), h]
    rfl
  · rfl

theorem Side.Twins.setLeg {k} (ht : s.Twins) (b : Bool) : (s.setLeg k { s.leg k with canupdate := b }).Twins := by
  cases k <;> exact ⟨ht.asymmetric, ht.known, ht.untrusted⟩

theorem Side.Twins.step (ht : s.Twins) (h : (rxmit window s p).2 = some s') : s'.Twins := by
  unfold rxmit at h
  split at h
  · cases h
    exact ht
  · next l hc =>
    obtain ⟨b, rfl⟩ := Leg.check_frame hc
    cases h
    exact ht.setLeg b
  · next l hc =>
    obtain ⟨b, rfl⟩ := Leg.check_frame hc
    split at h
    · cases h
    cases hk : p.kind with
    | rtp =>
      simp only [hk] at h
      split at h <;> cases h
      exact ⟨(Leg.guess_asymmetric).trans ht.asymmetric, fun _ => Leg.isSome_guess, fun _ => Leg.isSome_guess⟩
    | rtcp =>
      simp only [hk] at h
      cases h
      exact ⟨ht.asymmetric, fun _ => rfl, fun _ => rfl⟩

/-- An address given is recorded, or another one was. -/
theorem Leg.prefill_some (a : Addr) (asymmetric : Bool) (dtime : Int) :
    (l.prefill (some a) asymmetric dtime).addr = some a ∨
      ((l.prefill (some a) asymmetric dtime).addr = l.addr ∧ (l.addr = some a ∨ l.untrustedAddr = true)) := by
  have hif : ∀ (c : Prop) [Decidable c] (l' : Leg), l'.addr = l.addr → l'.untrustedAddr = l.untrustedAddr →
      (if c then l' else l).addr = l.addr ∧ (if c then l' else l).untrustedAddr = l.untrustedAddr := by
    intro c _ l' h1 h2
    split
    · exact ⟨h1, h2⟩
    · exact ⟨rfl, rfl⟩
  obtain ⟨h1, h2⟩ := hif l.addr.isSome { l with lastUpdate := dtime } rfl rfl
  by_cases hc : l.untrustedAddr = false ∧ l.addr ≠ some a
  · left
    simp only [Leg.prefill]
    rw [if_pos (by rw [h1, h2]; exact hc)]
  · right
    simp only [Leg.prefill]
    rw [if_neg (by rw [h1, h2]; exact hc)]
    refine ⟨h1, ?_⟩
    by_contra hcon
    rw [not_or] at hcon
    exact hc ⟨by simpa using hcon.2, hcon.1⟩

theorem Side.Twins.prefill (ht : s.Twins) (ia) (asymmetric : Bool) (dtime : Int) :
    (s.prefill ia asymmetric dtime).Twins := by
  cases ia with
  | none => exact ⟨rfl, ht.known, ht.untrusted⟩
  | some ia =>
    have hsome : (s.rtcp.prefill (some ia.2) asymmetric dtime).addr.isSome := by
      rcases s.rtcp.prefill_some ia.2 asymmetric dtime with h | ⟨h, hr | hu⟩
      · rw [h]; rfl
      · rw [h, hr]; rfl
      · rw [h]; exact ht.untrusted hu
    exact ⟨rfl, fun _ => hsome, fun _ => hsome⟩

theorem Reached.twins (h : Reached window s) : s.Twins := by
  induction h with
  | new => exact ⟨rfl, nofun, nofun⟩
  | command h ia asymmetric dtime ih => exact ih.prefill ia asymmetric dtime
  | packet h p hp ih => exact ih.step hp

end Twins

/-! ## A run -/

section Run

variable {window : Int} {s s' : Side} {p : Packet} {ps : List Packet} {k : Kind}

/-- A symmetric side with a known address. -/
structure Side.Ready (s : Side) : Prop where
  symmetric : s.Symmetric
  known : ∀ k, (s.leg k).addr.isSome

theorem Reached.ready (h : Reached window s) (hsym : s.rtp.asymmetric = false)
    (hknown : s.rtp.addr.isSome) : s.Ready := by
  refine ⟨⟨hsym, h.twins.asymmetric.trans hsym⟩, fun k => ?_⟩
  cases k with
  | rtp => exact hknown
  | rtcp => exact h.twins.known hknown

theorem Side.Ready.cases (hs : s.Ready) (window : Int) (p) :
    ∃ a, (s.leg p.kind).addr = some a ∧ Rxmit window s p a := by
  obtain ⟨a, ha⟩ := isSome_iff_exists.mp (hs.known p.kind)
  exact ⟨a, ha, rxmit_spec hs.symmetric ha⟩

/-- A packet moves a leg as `Leg.Next` allows, the RTCP leg unless the RTP address changes. -/
theorem Side.Ready.next (hs : s.Ready) (h : (rxmit window s p).2 = some s')
    (hk : k = .rtcp → s'.rtp.addr = s.rtp.addr) : Leg.Next (s.leg k) (s'.leg k) := by
  obtain ⟨a, ha, hp⟩ := hs.cases window p
  cases hp with
  | drop hne hcl hrun =>
    rw [hrun] at h
    cases h
    exact .refl
  | keep hsame b hb hw hrun =>
    rw [hrun] at h
    cases h
    by_cases hkp : k = p.kind
    · subst hkp
      rw [Side.leg_setLeg]
      exact .keep b hb
    · rw [Side.leg_setLeg_of_ne hkp]
      exact .refl
  | fail hop hrun =>
    rw [hrun] at h
    cases h
  | move s1 hne hop hleg hrtcp hrtp hrun =>
    rw [hrun] at h
    cases h
    have hmove : (s.leg p.kind).addr ≠ some p.raddr := by
      rw [ha]
      simpa using hne
    by_cases hkp : k = p.kind
    · subst hkp
      rw [hleg]
      exact .move p.raddr hop hmove
    · -- the other leg: RTP is not touched by an RTCP packet, and the RTP address has not changed
      cases hpk : p.kind with
      | rtp =>
        cases k with
        | rtp => exact absurd hpk.symm hkp
        | rtcp =>
          rw [hpk] at hleg hmove
          have hupd := congrArg Leg.addr hleg
          exact absurd ((hk rfl).symm.trans hupd) hmove
      | rtcp =>
        cases k with
        | rtp =>
          show Leg.Next s.rtp s'.rtp
          rw [hrtp hpk]
          exact .refl
        | rtcp => exact absurd hpk.symm hkp

theorem Side.Ready.step (hs : s.Ready) (h : (rxmit window s p).2 = some s') : s'.Ready := by
  have hrtp := hs.next (k := .rtp) h nofun
  have ht : s'.Twins :=
    .step ⟨hs.symmetric.rtcp.trans hs.symmetric.rtp.symm, fun _ => hs.known .rtcp,
      fun _ => hs.known .rtcp⟩ h
  have hsym := hrtp.asymmetric_eq.trans hs.symmetric.rtp
  refine ⟨⟨hsym, ht.asymmetric.trans hsym⟩, fun k => ?_⟩
  cases k with
  | rtp => exact hrtp.isSome_addr (hs.known .rtp)
  | rtcp => exact ht.known (hrtp.isSome_addr (hs.known .rtp))

theorem Side.Ready.run (hs : s.Ready) (h : rxmitAll window s ps = some s') : s'.Ready := by
  induction ps generalizing s with
  | nil =>
    cases h
    exact hs
  | cons p ps ih =>
    obtain ⟨s1, h1, h2⟩ := bind_eq_some_iff.mp h
    exact ih (hs.step h1) h2

theorem changes_cons (h : (rxmit window s p).2 = some s') : changes window k s (p :: ps) =
      (if (s'.leg k).addr = (s.leg k).addr then [] else [(s'.leg k).addr]) ++ changes window k s' ps := by
  simp only [changes, h]

/-- Without changes of the RTP address there is none at the first packet, nor later. -/
theorem eq_of_changes_eq_nil (h : (rxmit window s p).2 = some s') (hc : changes window k s (p :: ps) = []) :
    (s'.leg k).addr = (s.leg k).addr ∧ changes window k s' ps = [] := by
  rw [changes_cons h, append_eq_nil_iff] at hc
  refine ⟨?_, hc.2⟩
  by_contra hne
  rw [if_neg hne] at hc
  exact absurd hc.1 (cons_ne_nil _ _)

/-- A leg moves once, but for a move to where it was before the command. -/
theorem Side.Ready.length_changes_le (hs : s.Ready) (h : rxmitAll window s ps = some s')
    (hk : k = .rtcp → changes window .rtp s ps = []) :
    ((changes window k s ps).filter (· ≠ (s.leg k).prevAddr)).length ≤ if (s.leg k).canupdate then 1 else 0 := by
  induction ps generalizing s with
  | nil => simp [changes]
  | cons p ps ih =>
    obtain ⟨s1, h1, h2⟩ := bind_eq_some_iff.mp h
    have hnext := hs.next h1 fun hr => (eq_of_changes_eq_nil h1 (hk hr)).1
    have hrest := ih (hs.step h1) h2 fun hr => (eq_of_changes_eq_nil h1 (hk hr)).2
    rw [hnext.prevAddr_eq] at hrest
    rw [changes_cons h1, filter_append, length_append]
    have hle : (if (s1.leg k).canupdate then 1 else 0) ≤ if (s.leg k).canupdate then 1 else 0 := by
      cases hcl : (s.leg k).canupdate with
      | false => simp [hnext.eq_of_closed hcl, hcl]
      | true => split <;> simp
    by_cases hmoved : (s1.leg k).addr = (s.leg k).addr
    · rw [if_pos hmoved, filter_nil, length_nil]
      omega
    by_cases hprev : (s1.leg k).addr = (s.leg k).prevAddr
    · rw [if_neg hmoved, filter_cons_of_neg (by simp [hprev]), filter_nil, length_nil]
      omega
    · obtain ⟨hop, hcl⟩ := hnext.closed_of_ne hmoved hprev
      rw [hcl, if_neg Bool.false_ne_true] at hrest
      rw [if_neg hmoved, if_pos hop, filter_cons_of_pos (by simpa using hprev), filter_nil, length_singleton]
      omega

/-- A closed leg stays as it is, the RTCP leg while the RTP address does not change. -/
theorem Side.Ready.eq_of_closed (hs : s.Ready) (h : rxmitAll window s ps = some s')
    (hk : k = .rtcp → changes window .rtp s ps = []) (hcl : (s.leg k).canupdate = false) :
    s'.leg k = s.leg k ∧ changes window k s ps = [] := by
  induction ps generalizing s with
  | nil =>
    cases h
    exact ⟨rfl, rfl⟩
  | cons p ps ih =>
    obtain ⟨s1, h1, h2⟩ := bind_eq_some_iff.mp h
    have hnext := hs.next h1 fun hr => (eq_of_changes_eq_nil h1 (hk hr)).1
    have heq := hnext.eq_of_closed hcl
    have hrest := ih (hs.step h1) h2 (fun hr => (eq_of_changes_eq_nil h1 (hk hr)).2) (heq ▸ hcl)
    refine ⟨hrest.1.trans heq, ?_⟩
    rw [changes_cons h1, if_pos (congrArg Leg.addr heq), hrest.2]
    rfl

/-- A packet is relayed if it comes from the address recorded, or then recorded. -/
theorem Side.Ready.relayed (hs : s.Ready) (h : (rxmit window s p).1 = true) : (s.leg p.kind).addr = some p.raddr ∨
      ∃ s', (rxmit window s p).2 = some s' ∧ (s'.leg p.kind).addr = some p.raddr := by
  obtain ⟨a, ha, hp⟩ := hs.cases window p
  cases hp with
  | drop hne hcl hrun | fail hop hrun => simp [hrun] at h
  | keep hsame b hb hw hrun => exact .inl (hsame ▸ ha)
  | move s1 hne hop hleg hrtcp hrtp hrun => exact .inr ⟨s1, by rw [hrun], congrArg Leg.addr hleg⟩

/-- What closes the leg of a packet: a change to another address than the one before the command, or a
packet from the recorded address when the window is over. -/
def closes (window : Int) (s : Side) (p : Packet) : Prop :=
  ((s.leg p.kind).addr ≠ some p.raddr ∧ (s.leg p.kind).canupdate = true ∧ (s.leg p.kind).prevAddr ≠ some p.raddr) ∨
    ((s.leg p.kind).addr = some p.raddr ∧ (s.leg p.kind).lastUpdate ≠ 0 ∧ p.dtime - (s.leg p.kind).lastUpdate > window)

theorem Side.Ready.closed (hs : s.Ready) (hc : closes window s p) (h : (rxmit window s p).2 = some s') :
    (s'.leg p.kind).canupdate = false ∧ (s'.leg p.kind).addr = some p.raddr := by
  obtain ⟨a, ha, hp⟩ := hs.cases window p
  rcases hc with ⟨hne, hop, hprev⟩ | ⟨hsame, hlu, hlt⟩
  · cases hp with
    | drop _ hcl _ => simp [hop] at hcl
    | keep hsame _ _ _ _ => exact absurd (hsame ▸ ha) hne
    | fail hop hrun => simp [hrun] at h
    | move s1 _ _ hleg _ _ hrun =>
      rw [hrun] at h
      cases h
      simp [hleg, Leg.update, hprev]
  · have hraddr : a = p.raddr := some.inj (ha.symm.trans hsame)
    cases hp with
    | drop hne _ _ | move s1 hne _ _ _ _ _ => exact absurd hraddr hne
    | keep _ b _ hw hrun =>
      rw [hrun] at h
      cases h
      simp [hw hlu hlt, hsame]
    | fail hop hrun => simp [hrun] at h

/-- A closed leg drops what comes from elsewhere. -/
theorem Side.Ready.rxmit_of_closed (hs : s.Ready) (hcl : (s.leg p.kind).canupdate = false)
    (hne : (s.leg p.kind).addr ≠ some p.raddr) : rxmit window s p = (false, some s) := by
  obtain ⟨a, ha, hp⟩ := hs.cases window p
  cases hp with
  | drop _ _ hrun => exact hrun
  | keep hsame _ _ _ _ => exact absurd (hsame ▸ ha) hne
  | fail hop _ | move _ _ hop _ _ _ _ => simp [hcl] at hop

end Run

/-! ## Latching -/

/-- A client on one host, which sends RTP from a port and RTCP from the next. -/
def hostAddr (h : UInt8) : Addr × Addr :=
  (⟨[192, 0, 2, h], 10000⟩, ⟨[192, 0, 2, h], 10001⟩)

/-- A packet of a client. -/
def packetOf (h : UInt8) (kind : Kind) (dtime : Int) : Packet :=
  { kind := kind
    raddr := match kind with
      | .rtp => (hostAddr h).1
      | .rtcp => (hostAddr h).2
    dtime := dtime, memAddr := true, memRtcp := true }

/-- A command that gives the address of a client that a command and a packet had given before. -/
def reinvited : Side :=
  ((rxmit 10 (newSide.prefill (some (hostAddr 1)) false 100) (packetOf 1 .rtp 101)).2.getD newSide).prefill
    (some (hostAddr 1)) false 200

theorem reached_reinvited : Reached 10 reinvited :=
  .command (.packet (.command .new (some (hostAddr 1)) false 100) (packetOf 1 .rtp 101) rfl)
    (some (hostAddr 1)) false 200

/-- On a symmetric side whose address is known, after any packets: a packet is relayed only from the
address recorded or then recorded; a recorded address changed at most once to another than the one
before the command, the RTCP address unless the RTP address changed; and once a packet closes its
leg, RTP for good and RTCP while the RTP address stays, what comes from elsewhere is dropped and
changes nothing. -/
theorem rxmitAll_latches (window : Int) (s s' : Side) (ps : List Packet) (hr : Reached window s)
    (hsym : s.rtp.asymmetric = false) (hknown : s.rtp.addr.isSome) (h : rxmitAll window s ps = some s') :
    (∀ p, (rxmit window s' p).1 = true → (s'.leg p.kind).addr = some p.raddr ∨
      ∃ s₁, (rxmit window s' p).2 = some s₁ ∧ (s₁.leg p.kind).addr = some p.raddr) ∧
    (∀ k, (k = .rtcp → changes window .rtp s ps = []) →
      ((changes window k s ps).filter (· ≠ (s.leg k).prevAddr)).length ≤ 1) ∧
    ∀ p s₁ qs s₂, closes window s' p → (rxmit window s' p).2 = some s₁ → rxmitAll window s₁ qs = some s₂ →
      (p.kind = .rtcp → changes window .rtp s₁ qs = []) →
        changes window p.kind s₁ qs = [] ∧ (s₂.leg p.kind).addr = some p.raddr ∧
          ∀ q, q.kind = p.kind → q.raddr ≠ p.raddr → rxmit window s₂ q = (false, some s₂) := by
  have hs : s.Ready := hr.ready hsym hknown
  have hs' : s'.Ready := hs.run h
  refine ⟨fun p hp => hs'.relayed hp, fun k hk => ?_, fun p s₁ qs s₂ hc h₁ h₂ hk => ?_⟩
  · exact Nat.le_trans (hs.length_changes_le h hk) (by split <;> simp)
  · obtain ⟨hcl, haddr⟩ := hs'.closed hc h₁
    obtain ⟨hleg, hnil⟩ := (hs'.step h₁).eq_of_closed h₂ hk hcl
    refine ⟨hnil, hleg ▸ haddr, fun q hq hne => ((hs'.step h₁).run h₂).rxmit_of_closed ?_ ?_⟩
    · rw [hq, hleg, hcl]
    · rw [hq, hleg, haddr]
      exact fun he => hne (some.inj he).symm

/-- With traffic from the client more than the window after the second command, a packet from
another host is dropped. -/
theorem reinvited_latches :
    (((rxmitAll 10 reinvited [packetOf 1 .rtcp 205]).bind fun s => (rxmit 10 s (packetOf 1 .rtp 211)).2).map fun s =>
      (rxmit 10 s (packetOf 9 .rtp 212)).1) = some false := by
  obtain ⟨s', h⟩ : ∃ s', rxmitAll 10 reinvited [packetOf 1 .rtcp 205] = some s' := ⟨_, rfl⟩
  obtain ⟨s₁, h₁⟩ : ∃ s₁, (rxmit 10 s' (packetOf 1 .rtp 211)).2 = some s₁ := by
    cases h
    exact ⟨_, rfl⟩
  have hcloses : closes 10 s' (packetOf 1 .rtp 211) := by
    cases h
    exact .inr (by decide)
  have hdrop := (rxmitAll_latches 10 reinvited s' [packetOf 1 .rtcp 205] reached_reinvited rfl rfl h).2.2
    (packetOf 1 .rtp 211) s₁ [] s₁ hcloses h₁ rfl nofun
  rw [h, bind_some, h₁, map_some, hdrop.2.2 (packetOf 9 .rtp 212) rfl (by decide)]

/-- After the first command for a client, however long it has sent, a packet from another host is
relayed and its address recorded. And after the RTP address has changed, to one not recorded before,
an RTCP packet from another host is relayed and its address recorded. -/
theorem hijacked_after_latching :
    ((rxmitAll 10 (newSide.prefill (some (hostAddr 1)) false 100) [packetOf 1 .rtp 101,
      packetOf 1 .rtp 1000]).map fun s =>
      ((rxmit 10 s (packetOf 9 .rtp 1001)).1, (rxmit 10 s (packetOf 9 .rtp 1001)).2.map fun s => s.rtp.addr)) =
        some (true, some (some (hostAddr 9).1)) ∧
    ((rxmitAll 10 (newSide.prefill (some (hostAddr 1)) false 100) [packetOf 2 .rtp 101]).map fun s =>
      (s.rtp.canupdate, (rxmit 10 s (packetOf 9 .rtcp 102)).1,
        (rxmit 10 s (packetOf 9 .rtcp 102)).2.map fun s => s.rtcp.addr)) =
        some (false, true, some (some (hostAddr 9).2)) := by
  decide

end SipRouter.Rtpp
