import SippyB2bua.Manager.Client
import SippyB2bua.Manager.Step
import SippyB2bua.Ua.Handlers

/-!
# The route set of a dialog

The ACK of a 2xx is routed by the transaction manager, which reads the Contact and the
Record-Route headers of the response by itself. The user agent reads them once more for the
requests that follow in the dialog. Both go the same way unless there is an outbound proxy: the
transaction manager does not know of it.
-/

namespace SippyB2bua.Ua

open Lib (Text wp)
open Manager (CTr TM)
open Manager.TM (AckRoute contactTarget readAll routeAck)

/-- The URL as the transaction layer keeps it, with what it does not read as one text. -/
def Target.full (t : Target) : Url := { t.url with rest := t.url.rest ++ t.other ++ t.headers }

@[simp] theorem Target.full_lr (t : Target) : t.full.lr = t.url.lr := rfl

@[simp] theorem Target.full_getTAddr (t : Target) : t.full.getTAddr = t.url.getTAddr := rfl

/-- A 2xx as the two layers read it: the first Contact, if there is one, and the routes. -/
structure Seen (r : Resp) (resp : Response) (contact : Option Target) (rrs : List Target) : Prop where
  positive : 200 ≤ r.scode ∧ r.scode < 300
  scode : resp.scode = r.scode
  rContact : r.contacts.head? = contact.map fun c => .ok (.address c.full)
  contact : resp.contacts.head? = contact.map .ok
  rRoutes : r.recordRoutes = rrs.map fun t => .ok t.full
  routes : resp.recordRoutes = rrs.map .ok

/-- The Request-URI, the routes and the destination of a request. -/
structure Hops where
  ruri : Option Target
  routes : List Target
  target : Option (Addr × Text)

def SentRequest.hops (req : SentRequest) : Hops := ⟨req.ruri, req.routes, req.target⟩

def UA.hops (ua : UA) : Hops := ⟨ua.rTarget, ua.routes, ua.outboundProxy.or ua.rAddr⟩

def sendTo (a : Addr × Text) : TAddr := (some a.1.1, a.1.2)

/-- The request has the Request-URI and the routes of the ACK and goes where the ACK is sent. -/
structure Hops.Agree (hops : Hops) (ack : Req) (addr : TAddr) : Prop where
  ruri : hops.ruri.map Target.full = some ack.ruri
  routes : hops.routes.map Target.full = ack.routes
  target : hops.target = ack.target
  addr : hops.target.map sendTo = some addr

/-- What a user agent makes of a Contact and the routes of a 2xx. -/
def UA.followed (ua : UA) (contact : Option Target) (rrs : List Target) : Hops :=
  let rTarget := contact.or ua.rTarget
  match rrs.reverse with
  | [] => ⟨rTarget, [], ua.outboundProxy.or (rTarget.map fun target => target.url.getTAddr)⟩
  | first :: rest =>
    if first.url.lr = false then
      ⟨some first, rest ++ rTarget.toList, ua.outboundProxy.or (some first.url.getTAddr)⟩
    else match ua.outboundProxy with
      | some proxy =>
        ⟨some { first with url := { first.url with lr := false }, other := [], headers := [] },
          first :: rest ++ rTarget.toList, some proxy⟩
      | none => ⟨rTarget, first :: rest, some first.url.getTAddr⟩

/-- The outbound proxy of the UA, if there is one, is where the ACK goes anyway. -/
def UA.proxyAt (ua : UA) (a : Addr × Text) : Prop := ∀ proxy ∈ ua.outboundProxy, proxy = a

/-- What has to be for the ACK and the requests that follow to go the same way. Without a Contact
the ACK keeps the target of the INVITE, and the user agent the one it had. -/
def UA.sameHops (ua : UA) (t : CTr) (ack : Req) (contact : Option Target) (rrs : List Target) : Prop :=
  match contact, rrs.reverse with
  | some c, [] => ua.proxyAt c.url.getTAddr
  | some _, first :: _ =>
    if first.url.lr then ua.outboundProxy = none else ua.proxyAt first.url.getTAddr
  | none, [] =>
    ua.rTarget.map Target.full = some ack.ruri ∧
      ua.outboundProxy.or (ua.rTarget.map fun target => target.url.getTAddr) = ack.target ∧
      ack.target.map sendTo = some t.address
  | none, first :: _ =>
    first.url.lr = true ∧ ua.outboundProxy = none ∧ ua.rTarget.map Target.full = some ack.ruri

section Routing

variable {w : World} {t : CTr} {ack : Req} {r : Resp} {rnd : Text} {resp : Response}
variable {contact : Option Target} {rrs : List Target}

theorem readAll_ok {α β : Type} (f : α → β) (xs : List α) : readAll (xs.map fun x => .ok (f x)) = .ok (xs.map f) := by
  induction xs with
  | nil => rfl
  | cons x xs ih =>
    rw [List.map_cons, readAll, ih]
    rfl

theorem mapM_ok {α : Type} (xs : List α) : (xs.map Except.ok).mapM id = (.ok xs : Lazy (List α)) := by
  induction xs with
  | nil => rfl
  | cons x xs ih =>
    rw [List.map_cons, List.mapM_cons, ih]
    rfl

def routedBy (t : CTr) (ack : Req) (rnd : Text) (route : AckRoute) : Req × TAddr :=
  ({ ack with
      ruri := route.ruri.getD ack.ruri
      target := match route.rAddr with | none => ack.target | some a => some a
      routes := route.routes
      via := ack.via.setParam SipVia.branch (some rnd) },
    match route.rAddr with | none => t.address | some a => sendTo a)

theorem agree_routed {route : AckRoute} {a : Addr × Text} {hops : Hops} (h : route.rAddr = some a) :
    hops.Agree (routedBy t ack rnd route).1 (routedBy t ack rnd route).2 ↔
      hops.ruri.map Target.full = some (route.ruri.getD ack.ruri) ∧
        hops.routes.map Target.full = route.routes ∧ hops.target = some a := by
  simp only [routedBy, h]
  constructor
  · rintro ⟨hruri, hroutes, htarget, _⟩
    exact ⟨hruri, hroutes, htarget⟩
  · rintro ⟨hruri, hroutes, htarget⟩
    exact ⟨hruri, hroutes, htarget, by rw [htarget]; rfl⟩

theorem proxyAt_iff {ua : UA} {a : Addr × Text} : ua.outboundProxy.or (some a) = some a ↔ ua.proxyAt a := by
  unfold UA.proxyAt
  cases ua.outboundProxy <;> simp

/-- The two ways are the same exactly on the condition. -/
theorem followed_agree {ua : UA} (htarget : ua.rTarget.isSome) :
    (ua.followed contact rrs).Agree
        (routedBy t ack rnd (routeAck (contact.map Target.full) (rrs.map Target.full))).1
        (routedBy t ack rnd (routeAck (contact.map Target.full) (rrs.map Target.full))).2 ↔
      ua.sameHops t ack contact rrs := by
  obtain ⟨prev, hprev⟩ := Option.isSome_iff_exists.1 htarget
  rw [routeAck, ← List.map_reverse]
  cases hrrs : rrs.reverse with
  | nil =>
    cases contact with
    | none =>
      simp only [UA.followed, UA.sameHops, hrrs, hprev]
      constructor
      · rintro ⟨huri, -, hto, haddr⟩
        exact ⟨huri, hto, hto ▸ haddr⟩
      · rintro ⟨huri, hto, haddr⟩
        exact ⟨huri, rfl, hto, (congrArg (Option.map sendTo) hto).trans haddr⟩
    | some c =>
      rw [agree_routed rfl]
      simp only [UA.followed, UA.sameHops, hrrs, Option.some_or, Option.map_some, Option.getD_some,
        List.map_nil, true_and]
      exact proxyAt_iff
  | cons first rest =>
    cases hlr : first.url.lr with
    | false =>
      simp only [List.map_cons, Target.full_lr, hlr, Bool.false_eq_true, if_false]
      rw [agree_routed rfl]
      simp only [UA.followed, UA.sameHops, hrrs, hlr, if_true, Option.map_some, Option.getD_some, true_and,
        List.map_append, List.append_cancel_left_eq, Target.full_getTAddr, proxyAt_iff]
      cases contact with
      | none => simp [hprev, hlr]
      | some c => simp [hlr]
    | true =>
      simp only [List.map_cons, Target.full_lr, hlr, if_true]
      rw [agree_routed rfl]
      simp only [UA.followed, UA.sameHops, hrrs, hlr]
      cases ua.outboundProxy with
      | none => cases contact <;> simp [hprev, hlr]
      | some proxy => cases contact <;> simp [hprev, hlr]

theorem Seen.routedAck (h : Seen r resp contact rrs) :
    TM.routedAck t ack r rnd =
      .ok (routedBy t ack rnd (routeAck (contact.map Target.full) (rrs.map Target.full))) := by
  have hcontact : contactTarget r = .ok (contact.map Target.full) := by
    have hhead := h.rContact
    unfold contactTarget
    cases hc : r.contacts with
    | nil =>
      rw [hc] at hhead
      cases contact with
      | none => rfl
      | some c => simp at hhead
    | cons c cs =>
      rw [hc] at hhead
      cases contact with
      | none => simp at hhead
      | some c' =>
        simp only [List.head?_cons, Option.map_some, Option.some.injEq] at hhead
        rw [hhead]
        rfl
  rw [TM.routedAck, if_pos h.positive, hcontact, h.rRoutes, readAll_ok]
  rfl

theorem Seen.followContact (h : Seen r resp contact rrs) :
    wp (UacStateTrying.followContact resp)
      (fun _ w' => w' = { w with ua := { w.ua with rTarget := contact.or w.ua.rTarget } })
      (fun _ _ => False) w := by
  have hhead := h.contact
  unfold UacStateTrying.followContact
  cases hc : resp.contacts with
  | nil =>
    rw [hc] at hhead
    cases contact with
    | none => rfl
    | some c => simp at hhead
  | cons c cs =>
    rw [hc] at hhead
    cases contact with
    | none => simp at hhead
    | some c' =>
      simp only [List.head?_cons, Option.map_some, Option.some.injEq] at hhead
      simp [hhead]

theorem Seen.updateRoutes (h : Seen r resp contact rrs) (htarget : w.ua.rTarget.isSome) :
    wp (UacStateTrying.updateRoutes resp)
      (fun _ w' => w'.log = w.log ∧ w'.ua.hops = w.ua.followed contact rrs) (fun _ _ => False) w := by
  obtain ⟨prev, hprev⟩ := Option.isSome_iff_exists.1 htarget
  obtain ⟨target, hsome⟩ : ∃ target, contact.or w.ua.rTarget = some target := by
    rw [hprev]
    cases contact <;> simp
  rw [UacStateTrying.updateRoutes, Lib.wp_bind]
  refine Lib.wp_mono h.followContact ?_ fun _ _ hf => hf
  rintro _ w' rfl
  rw [h.routes, mapM_ok]
  simp only [Lib.wp_bind, wp_ofLazy, wp_upd, followRoutes, wp_getUA, UA.followed, hsome]
  cases rrs.reverse with
  | nil => exact ⟨rfl, rfl⟩
  | cons first rest =>
    cases hproxy : w.ua.outboundProxy <;> cases hlr : first.url.lr <;> simp [hlr, UA.hops]

theorem genRequest_hops {method : Method} {body : Option Body} {cqop : Cqop} {hs : List Header}
    {mf : Option ℤ} (hcqop : ∀ c, cqop ≠ .bare c) :
    wp (genRequest method body cqop hs mf) (fun req w' => req.hops = w.ua.hops ∧ w'.log = w.log)
      (fun _ _ => False) w := by
  cases cqop with
  | none => exact ⟨rfl, rfl⟩
  | pair c => exact ⟨rfl, rfl⟩
  | bare c => exact absurd rfl (hcqop c)

def SendsOn (w : World) (hops : Hops) (w' : World) : Prop :=
  ∃ acts, w'.log = w.log ++ acts ∧ ∀ req, Act.request req ∈ acts → req.hops = hops

theorem sendBYE_hops {hs : List Header} :
    wp (sendBYE hs) (fun _ w' => SendsOn w w.ua.hops w') (fun _ w' => SendsOn w w.ua.hops w') w := by
  rw [sendBYE, Lib.wp_bind]
  refine Lib.wp_mono (genRequest_hops fun _ => by simp) ?_ fun _ _ hf => hf.elim
  rintro req w' ⟨hhops, hlog⟩
  rw [newTransaction, wp_call]
  split
  · exact ⟨[], by simpa using hlog, by simp⟩
  · exact ⟨[.request req], by simp [hlog], by simpa using hhops⟩

theorem Seen.cancelling (h : Seen r resp contact rrs) (htarget : w.ua.rTarget.isSome) :
    wp (UacStateCancelling.recvResponse resp) (fun _ w' => SendsOn w (w.ua.followed contact rrs) w')
      (fun _ w' => SendsOn w (w.ua.followed contact rrs) w') w := by
  have hlow : ¬ resp.scode < 200 := by
    have hpos := h.positive.1
    rw [h.scode]
    omega
  have hhigh : resp.scode < 300 := by
    rw [h.scode]
    exact h.positive.2
  simp only [UacStateCancelling.recvResponse, if_neg hlow, if_pos hhigh, Lib.wp_bind, wp_upd, goto]
  refine Lib.wp_mono (h.updateRoutes htarget) ?_ fun _ _ hf => hf.elim
  rintro _ w₁ ⟨hlog, hhops⟩
  have hfollowed : w₁.ua.hops = w.ua.followed contact rrs := hhops
  have hsent {ua : UA} {w₂ : World} (hua : ua.hops = w₁.ua.hops)
      (hs : SendsOn { w₁ with ua := ua } ua.hops w₂) : SendsOn w (w.ua.followed contact rrs) w₂ := by
    obtain ⟨acts, hacts, hreq⟩ := hs
    exact ⟨acts, by rw [hacts]; exact congrArg (· ++ acts) hlog, by rwa [← hfollowed, ← hua]⟩
  rw [wp_ofLazy]
  cases resp.toTag with
  | error e => exact ⟨[], by simpa using hlog, by simp⟩
  | ok tag => exact Lib.wp_mono sendBYE_hops (fun _ _ hs => hsent rfl hs) fun _ _ hs => hsent rfl hs

/-- The ACK of a 2xx and the requests that follow it go the same way exactly when the first hop
is where the outbound proxy, if there is one, would take them. -/
theorem ack_follows_routes (t : CTr) (ack : Req) (rnd : Text) (h : Seen r resp contact rrs)
    (htarget : w.ua.rTarget.isSome) :
    ∃ ack' addr, TM.routedAck t ack r rnd = .ok (ack', addr) ∧
      (∀ method body cqop hs mf, (∀ c, cqop ≠ .bare c) →
        wp (do UacStateTrying.updateRoutes resp; genRequest method body cqop hs mf)
          (fun req _ => req.hops.Agree ack' addr ↔ w.ua.sameHops t ack contact rrs)
          (fun _ _ => False) w) ∧
      ∃ acts, (Lib.endState (UacStateCancelling.recvResponse resp) w).log = w.log ++ acts ∧
        ∀ req, Act.request req ∈ acts →
          (req.hops.Agree ack' addr ↔ w.ua.sameHops t ack contact rrs) := by
  refine ⟨_, _, h.routedAck, fun method body cqop hs mf hcqop => ?_, ?_⟩
  · rw [Lib.wp_bind]
    refine Lib.wp_mono (h.updateRoutes htarget) ?_ fun _ _ hf => hf
    rintro _ w₁ ⟨-, hhops⟩
    refine Lib.wp_mono (genRequest_hops hcqop) ?_ fun _ _ hf => hf
    rintro req _ ⟨hreq, -⟩
    rw [hreq, hhops]
    exact followed_agree htarget
  · obtain ⟨acts, hacts, hreq⟩ := Lib.endState_of_wp (h.cancelling htarget)
    refine ⟨acts, hacts, fun req hmem => ?_⟩
    rw [hreq req hmem]
    exact followed_agree htarget

end Routing

/-! The far end answers with a Contact at its own host, behind a proxy that stays in the path. -/

section Sample

def peer (host : Char) (lr : Bool) : Target := ⟨⟨[host], none, none, lr, []⟩, [], []⟩

/-- What the user agent reads of a 200 from the host `b`. -/
def recordedAnswer (rrs : List Target) : Response where
  scode := 200
  reason := []
  cseq := 1
  method := .invite
  rtime := 0
  body := none
  toTag := .ok (some ['t'])
  contacts := [.ok (peer 'b' false)]
  recordRoutes := rrs.map .ok
  wwwAuthenticate := []
  proxyAuthenticate := []
  reasonHf := none

def heldAck : Req := Manager.Sample.req .ack "z9hG4bK1".toList none

def recordedResp (rrs : List Target) : Resp :=
  { heldAck.genResponse 200 [] [] with
    contacts := [.ok (.address (peer 'b' false).full)], recordRoutes := rrs.map fun t => .ok t.full }

theorem recorded_seen (rrs : List Target) :
    Seen (recordedResp rrs) (recordedAnswer rrs) (some (peer 'b' false)) rrs where
  positive := by simp [recordedResp, heldAck, Req.genResponse]
  scode := rfl
  rContact := rfl
  contact := rfl
  rRoutes := rfl
  routes := rfl

/-- A caller whose outbound proxy is as given. -/
def proxiedWorld (proxy : Option (Addr × Text)) : World where
  ua := { UA.new with rTarget := some (peer 'b' false), outboundProxy := proxy }
  seq := 0
  io := .calm
  log := []

/-- Without an outbound proxy, behind a strict and a loose hop. -/
theorem ack_follows_routes_recorded :
    ∃ ack addr, TM.routedAck .blank heldAck (recordedResp [peer 'l' true, peer 's' false]) [] = .ok (ack, addr) ∧
      wp (do
          UacStateTrying.updateRoutes (recordedAnswer [peer 'l' true, peer 's' false])
          genRequest .bye none .none [] none)
        (fun req _ => req.hops.Agree ack addr) (fun _ _ => False) (proxiedWorld none) := by
  obtain ⟨ack, addr, hack, hreq, -⟩ :=
    ack_follows_routes (w := proxiedWorld none) .blank heldAck []
      (recorded_seen [peer 'l' true, peer 's' false]) rfl
  refine ⟨ack, addr, hack, ?_⟩
  refine Lib.wp_mono (hreq .bye none .none [] none fun _ => by simp) (fun req _ hiff => ?_) fun _ _ hf => hf
  rw [hiff]
  simp [UA.sameHops, proxiedWorld, UA.proxyAt, peer, UA.new]

/-- With an outbound proxy the ACK passes it by. -/
theorem proxied_ack_passes_by :
    ∃ ack addr, TM.routedAck .blank heldAck (recordedResp []) [] = .ok (ack, addr) ∧
      addr = (some ['b'], 5060) ∧
      wp (do
          UacStateTrying.updateRoutes (recordedAnswer [])
          genRequest .bye none .none [] none)
        (fun req _ => req.target = some ((['p'], 5060), ['u']) ∧ ¬ req.hops.Agree ack addr)
        (fun _ _ => False) (proxiedWorld (some ((['p'], 5060), ['u']))) := by
  refine ⟨_, _, (recorded_seen []).routedAck, rfl, rfl, fun h => ?_⟩
  have haddr := h.addr
  revert haddr
  decide

end Sample

end SippyB2bua.Ua
