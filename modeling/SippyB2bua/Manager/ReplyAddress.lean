import SippyB2bua.Manager.Step

/-!
# Where responses are sent

The Via fix-up of `handleIncoming` decides the transport address of every
response to a request. The host is the source of the datagram exactly when the
sender did not put its own address into sent-by together with a `received`
parameter of its choice, and the port follows the source unless the request is
marked only after the `rport` parameter was written.
-/

namespace SippyB2bua.Manager
open Lib (Text)
open TM

/-- The address of responses is the source of the request: over udp the source
host, with the source port if `rport` was asked for or the request is marked,
and over wss the connection. -/
def RepliesToSource (ra : RemoteAddress) (req fixed : Req) : Prop :=
  ∀ (scode : ℤ) (reason rest : Text), ∃ (host : Option Text) (port : ℤ),
    (fixed.genResponse scode reason rest).via.getTAddr = some (host, port) ∧
    (ra.transport = RemoteAddress.udp → host = some ra.address.1 ∧
      (req.via.params.has SipVia.rport = true ∨ fixed.nated = true → port = ra.address.2)) ∧
    (ra.transport = RemoteAddress.wss → host = some ra.received)

/-- `Remote_address` as the two kinds of servers build it. -/
def RemoteAddress.Genuine (ra : RemoteAddress) : Prop :=
  (∃ address, ra = .ofUdp address) ∨ ∃ address connId, ra = .ofWss address connId

/-- Sent-by differs from the source, or the header already names the connection. -/
def HostSafe (ra : RemoteAddress) (via0 : SipVia) : Prop :=
  via0.hostname ≠ ra.address.1 ∨
  via0.params.get SipVia.received = some (some ra.received) ∨
  (via0.params.get SipVia.received = none ∧ via0.hostname = ra.received)

def unreachableContact : List (Lazy Contact) → Bool
  | .ok (.address u) :: _ => unreachable u
  | _ => false

def contactNated (natTraversal : Bool) (req : Req) : Bool :=
  natTraversal && req.vias.isEmpty && unreachableContact req.contacts

/-- The source port is written to `rport` and is a usable one, or the sent-by port
that is used instead happens to be the source port. -/
def PortSafe (natTraversal : Bool) (ra : RemoteAddress) (req : Req) : Prop :=
  if req.via.params.has SipVia.rport = true ∨ viaNated natTraversal ra req.via = true then
    ra.address.2 ≠ 0 ∨ req.via.port = some 0
  else contactNated natTraversal req = true → req.via.port.getD defaultPort = ra.address.2

/-- The requests whose responses go back to where they came from. -/
def ReplySafe (natTraversal : Bool) (ra : RemoteAddress) (req : Req) : Prop :=
  HostSafe ra req.via ∧ (ra.transport = RemoteAddress.udp → PortSafe natTraversal ra req)

theorem setParam_getTHost (v : SipVia) (val : Option Text) :
    (v.setParam SipVia.rport val).getTHost = v.getTHost := by
  have hne : SipVia.received ≠ SipVia.rport := by decide
  simp [SipVia.getTHost, SipVia.setParam, Params.get_set_other _ val hne, SipVia.getAddr]

theorem setReceived_getTHost (v : SipVia) (host : Text) :
    (v.setParam SipVia.received (some host)).getTHost = some host := by
  simp [SipVia.getTHost, SipVia.setParam]

theorem setReceived_has_rport (v : SipVia) (val : Option Text) :
    (v.setParam SipVia.received val).params.has SipVia.rport = v.params.has SipVia.rport := by
  have hne : SipVia.rport ≠ SipVia.received := by decide
  simp [SipVia.setParam, Params.has_set, hne]

theorem setRport_getTPort (v : SipVia) (port : ℕ) :
    (v.setParam SipVia.rport (some (Lib.Text.str port))).getTPort =
      some (if port = 0 then v.port.getD defaultPort else port) := by
  simp only [SipVia.getTPort, SipVia.setParam, Params.get_set_same, Option.join_some,
    Lib.Text.int_str, Option.map_some, SipVia.getAddr]
  by_cases h : port = 0
  · simp [h]
  · simp [h]

theorem getTPort_of_not_has {v : SipVia} (h : v.params.has SipVia.rport = false) :
    v.getTPort = some (v.port.getD defaultPort) := by
  have hget : v.params.get SipVia.rport = none := by simpa [Params.has] using h
  simp [SipVia.getTPort, hget, SipVia.getAddr]

theorem fixVia_getTHost (natTraversal : Bool) (ra : RemoteAddress) (via0 : SipVia) :
    (fixVia natTraversal ra via0).getTHost =
      if via0.hostname ≠ ra.address.1 then some ra.received else via0.getTHost := by
  simp only [fixVia]
  by_cases hhost : via0.hostname ≠ ra.address.1
  · split_ifs <;> simp [setParam_getTHost, setReceived_getTHost]
  · split_ifs <;> simp [setParam_getTHost]

theorem fixVia_getTPort (natTraversal : Bool) (ra : RemoteAddress) (via0 : SipVia) :
    (fixVia natTraversal ra via0).getTPort =
      some (if via0.params.has SipVia.rport = true ∨ viaNated natTraversal ra via0 = true then
        if ra.address.2 = 0 then via0.port.getD defaultPort else ra.address.2
      else via0.port.getD defaultPort) := by
  simp only [fixVia]
  by_cases hhost : via0.hostname ≠ ra.address.1
  · rw [if_pos hhost, setReceived_has_rport]
    by_cases hr : via0.params.has SipVia.rport = true ∨ viaNated natTraversal ra via0 = true
    · rw [if_pos (by simpa using hr), if_pos hr, setRport_getTPort]
      rfl
    · rw [if_neg (by simpa using hr), if_neg hr]
      have hno : via0.params.has SipVia.rport = false := by
        simpa using (not_or.mp hr).1
      exact getTPort_of_not_has ((setReceived_has_rport via0 _).trans hno)
  · rw [if_neg hhost]
    by_cases hr : via0.params.has SipVia.rport = true ∨ viaNated natTraversal ra via0 = true
    · rw [if_pos (by simpa using hr), if_pos hr, setRport_getTPort]
    · rw [if_neg (by simpa using hr), if_neg hr]
      exact getTPort_of_not_has (by simpa using (not_or.mp hr).1)

theorem natContact_marks {ra : RemoteAddress} {contacts : List (Lazy Contact)}
    {r : List (Lazy Contact) × Bool} (h : natContact ra contacts = .ok r) :
    r.2 = unreachableContact contacts := by
  match contacts with
  | [] => cases h; rfl
  | .error e :: cs => cases h
  | .ok .asterisk :: cs => cases h; rfl
  | .ok (.address u) :: cs =>
    simp only [natContact, Except.map, Except.ok.injEq] at h
    by_cases hu : unreachable u = true
    · rw [if_pos hu] at h; rw [← h, unreachableContact, hu]
    · rw [if_neg hu] at h; simp [← h, unreachableContact, hu]

theorem fixRequest_via {natTraversal : Bool} {ra : RemoteAddress} {req fixed : Req}
    (h : fixRequest natTraversal ra req = .ok fixed) :
    fixed.via = fixVia natTraversal ra req.via := by
  obtain ⟨contacts, nated, rfl⟩ := fixRequest_eq h
  rfl

theorem fixRequest_nated {natTraversal : Bool} {ra : RemoteAddress} {req fixed : Req}
    (h : fixRequest natTraversal ra req = .ok fixed) :
    fixed.nated = (viaNated natTraversal ra req.via || contactNated natTraversal req) := by
  simp only [fixRequest, Except.bind, Except.map] at h
  split at h
  · cases h
  · rename_i cn hcn
    have hmark : cn.2 = contactNated natTraversal req := by
      by_cases hu : natTraversal = true ∧ (decide (req.contacts ≠ [] ∧ req.vias = [])) = true
      · rw [if_pos hu] at hcn
        have hv : req.vias = [] := (of_decide_eq_true hu.2).2
        simp [contactNated, hu.1, hv, natContact_marks hcn]
      · rw [if_neg hu] at hcn
        cases hcn
        rcases hc : req.contacts with _ | ⟨c, cs⟩
        · simp [contactNated, hc, unreachableContact]
        · simp only [hc, not_and, decide_eq_true_eq, ne_eq, reduceCtorEq, not_false_eq_true,
            true_and] at hu
          by_cases hn : natTraversal = true
          · simp [contactNated, hu hn]
          · simp [contactNated, hn]
    split at h
    · cases h
    · cases h; simp [hmark]

theorem getTHost_eq_received {ra : RemoteAddress} {via0 : SipVia} :
    (if via0.hostname ≠ ra.address.1 then some ra.received else via0.getTHost) =
      some ra.received ↔ HostSafe ra via0 := by
  unfold HostSafe
  by_cases hhost : via0.hostname ≠ ra.address.1
  · simp [hhost]
  · cases hr : via0.params.get SipVia.received with
    | none => simp [hhost, SipVia.getTHost, hr, SipVia.getAddr]
    | some host => simp [hhost, SipVia.getTHost, hr]

theorem udp_ne_wss : RemoteAddress.udp ≠ RemoteAddress.wss := by decide

theorem genResponse_getTAddr {natTraversal : Bool} {ra : RemoteAddress} {req fixed : Req}
    (h : fixRequest natTraversal ra req = .ok fixed) (scode : ℤ) (reason rest : Text) :
    (fixed.genResponse scode reason rest).via.getTAddr =
      some ((fixVia natTraversal ra req.via).getTHost,
        if req.via.params.has SipVia.rport = true ∨ viaNated natTraversal ra req.via = true then
          if ra.address.2 = 0 then req.via.port.getD defaultPort else ra.address.2
        else req.via.port.getD defaultPort) := by
  have hvia : (fixed.genResponse scode reason rest).via = fixVia natTraversal ra req.via :=
    fixRequest_via h
  rw [hvia, SipVia.getTAddr, fixVia_getTPort]
  rfl

theorem portSafe_iff {natTraversal : Bool} {ra : RemoteAddress} {req fixed : Req}
    (h : fixRequest natTraversal ra req = .ok fixed) :
    (req.via.params.has SipVia.rport = true ∨ fixed.nated = true →
      (if req.via.params.has SipVia.rport = true ∨ viaNated natTraversal ra req.via = true then
          if ra.address.2 = 0 then req.via.port.getD defaultPort else ra.address.2
        else req.via.port.getD defaultPort) = (ra.address.2 : ℤ)) ↔
      PortSafe natTraversal ra req := by
  rw [fixRequest_nated h, PortSafe]
  by_cases hr : req.via.params.has SipVia.rport = true ∨ viaNated natTraversal ra req.via = true
  · have hor : req.via.params.has SipVia.rport = true ∨
        (viaNated natTraversal ra req.via || contactNated natTraversal req) = true := by
      rcases hr with hr | hr <;> simp [hr]
    rw [imp_iff_right hor, if_pos hr, if_pos hr]
    by_cases h0 : ra.address.2 = 0
    · cases req.via.port with
      | none => simp [h0, defaultPort]
      | some p => simp [h0]
    · simp [h0]
  · rw [if_neg hr, if_neg hr]
    obtain ⟨h1, h2⟩ := not_or.mp hr
    simp [h1, h2]

/-- Responses go back to the source of a request exactly if its Via and Contact
leave the fix-up nothing to be misled by. -/
theorem repliesToSource_iff {natTraversal : Bool} {ra : RemoteAddress} {req fixed : Req}
    (hra : RemoteAddress.Genuine ra) (h : fixRequest natTraversal ra req = .ok fixed) :
    RepliesToSource ra req fixed ↔ ReplySafe natTraversal ra req := by
  unfold RepliesToSource ReplySafe
  simp only [genResponse_getTAddr h, Option.some.injEq, Prod.mk.injEq, fixVia_getTHost]
  rcases hra with ⟨address, rfl⟩ | ⟨address, connId, rfl⟩
  · have ht : (RemoteAddress.ofUdp address).transport = RemoteAddress.udp := rfl
    have hrec : (RemoteAddress.ofUdp address).received = (RemoteAddress.ofUdp address).address.1 :=
      rfl
    constructor
    · intro hall
      obtain ⟨host, port, ⟨hhost, hport⟩, hudp, -⟩ := hall 200 [] []
      obtain ⟨hh, hp⟩ := hudp ht
      subst hhost hport
      exact ⟨getTHost_eq_received.mp (hh.trans (by rw [hrec])), fun _ => (portSafe_iff h).mp hp⟩
    · rintro ⟨hh, hp⟩ scode reason rest
      refine ⟨_, _, ⟨rfl, rfl⟩, fun _ => ⟨?_, (portSafe_iff h).mpr (hp ht)⟩, fun hw => ?_⟩
      · exact (getTHost_eq_received.mpr hh).trans (by rw [hrec])
      · exact absurd (ht.symm.trans hw) udp_ne_wss
  · have ht : (RemoteAddress.ofWss address connId).transport = RemoteAddress.wss := rfl
    constructor
    · intro hall
      obtain ⟨host, port, ⟨hhost, -⟩, -, hwss⟩ := hall 200 [] []
      subst hhost
      refine ⟨getTHost_eq_received.mp (hwss ht), fun hu => ?_⟩
      exact absurd (hu.symm.trans ht) udp_ne_wss
    · rintro ⟨hh, -⟩ scode reason rest
      refine ⟨_, _, ⟨rfl, rfl⟩, fun hu => ?_, fun _ => getTHost_eq_received.mpr hh⟩
      exact absurd (hu.symm.trans ht) udp_ne_wss

/-- An INVITE with the given top Via and nothing that matters beside it. -/
def plainInvite (via : SipVia) : Req where
  method := .invite
  ruri := ⟨"203.0.113.1".toList, none, none, false, []⟩
  callId := "c1@203.0.113.5".toList
  fromTag := some "f1".toList
  cseq := 1
  cseqMethod := .invite
  via := via
  vias := []
  toTag := .ok none
  contacts := []
  recordRoutes := []
  routes := []
  expires := none
  body := none
  target := none
  nated := false
  rest := []

/-- Sent-by is the source, and `received` names somebody else. -/
def forgedVia : SipVia where
  sipver := "SIP/2.0".toList
  transport := "UDP".toList
  hostname := "203.0.113.5".toList
  port := some 5060
  params := [(SipVia.received, some "198.51.100.9".toList),
    (SipVia.branch, some "z9hG4bK1".toList)]

example : SipVia.parse
    "SIP/2.0/UDP 203.0.113.5:5060;received=198.51.100.9;branch=z9hG4bK1".toList =
      some forgedVia := by decide

theorem repliesToSource_iff_plain :
    RepliesToSource (.ofUdp ("203.0.113.7".toList, 5060)) (plainInvite forgedVia)
        { plainInvite forgedVia with
          via := fixVia true (.ofUdp ("203.0.113.7".toList, 5060)) forgedVia } ↔
      ReplySafe true (.ofUdp ("203.0.113.7".toList, 5060)) (plainInvite forgedVia) :=
  repliesToSource_iff (.inl ⟨_, rfl⟩) rfl

/-- A forged `received` next to a genuine sent-by decides where responses go. -/
theorem forgedVia_not_repliesToSource :
    ¬ ∀ (natTraversal : Bool) (ra : RemoteAddress) (req fixed : Req), RemoteAddress.Genuine ra →
      fixRequest natTraversal ra req = .ok fixed → RepliesToSource ra req fixed := by
  intro hall
  have hrep := hall true (.ofUdp ("203.0.113.5".toList, 5060)) (plainInvite forgedVia)
    (plainInvite forgedVia) (.inl ⟨_, rfl⟩) rfl
  obtain ⟨host, port, haddr, hudp, -⟩ := hrep 200 [] []
  have hreal : ((plainInvite forgedVia).genResponse 200 [] []).via.getTAddr =
      some (some "198.51.100.9".toList, 5060) := by decide
  rw [hreal] at haddr
  cases haddr
  exact absurd (hudp rfl).1 (by decide)

end SippyB2bua.Manager
