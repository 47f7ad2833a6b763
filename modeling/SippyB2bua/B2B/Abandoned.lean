import SippyB2bua.B2B.Hunting
import SippyB2bua.Radius.Places

/-!
# Calls that end while they are authorised

A controller asks the RADIUS client for its call and keeps what `do_auth` returns, to cancel the
request if the caller's leg ends first. `RadiusAuthorisation.do_auth` returns nothing, so there
is never anything to cancel: a request that still waits in the queue is written all the same.
What comes back for a leg that is over places no other leg and sends a Stop record at most.
-/

namespace SippyB2bua.B2B
open Lib (Text Along run)
open Radius (Attribute Digest ExternalCommand Results Worker)
open Ua (UaState)

/-- The credentials of an INVITE; the digest is there if none of its four parameters is missing. -/
structure Auth where
  username : Option Text
  digest : Option Digest

/-- The INVITE of a new call. -/
structure Invite where
  cId : Text
  cli : Option Text
  cld : Text
  auth : Option Auth
  remoteIp : Text
  extraAttributes : List Attribute
  passHeaders : List Wire.SipHeader
  maxForwards : Option ℤ
  /-- A challenge was made for the call. -/
  challenge : Bool

/-- The credentials that `recvEvent` hands to `do_auth`; an empty username is none. -/
def Invite.credentials (i : Invite) : Text × Option Digest :=
  match i.auth with
  | some ⟨some username, digest⟩ => if username = [] then (i.remoteIp, none) else (username, digest)
  | _ => (i.remoteIp, none)

structure AuthConfig where
  env : RouteEnv
  /-- A copy of the configured route, if there is one. -/
  static : Option B2BRoute
  acctEnable : Bool
  maxCreditTime : Option ℤ

inductive AcctA
  | fake
  /-- `RadiusAccounting`, with `drec`. -/
  | radius (drec : Bool)

/-- A `CallController` from the INVITE on. -/
structure Controller where
  invite : Invite
  hunt : Hunt
  authProc : Option ℕ
  acctA : Option AcctA
  /-- The Stop records of the answering leg. -/
  stops : ℕ
  /-- The number of the request that `do_auth` made. -/
  request : ℕ
  /-- How often `rDone` was called. -/
  answered : ℕ
  /-- The caller's leg ended in `CCStateWaitRoute`. -/
  late : Bool
  /-- It ended while the request was in the queue. -/
  abandoned : Bool

namespace Controller

/-- `RadiusAccounting.disc`, which sends one record, or that of `FakeAccounting`. -/
def acctDisc (c : Controller) : Controller :=
  match c.acctA with
  | some (.radius false) => { c with acctA := some (.radius true), stops := c.stops + 1 }
  | _ => c

def rDone (cfg : AuthConfig) (results : Results) (c : Controller) : Controller :=
  let c := { c with answered := c.answered + 1 }
  if results.2 ≠ 0 then
    if c.hunt.uaA ≠ .uasTrying then c
    else if c.invite.challenge then { c with hunt := c.hunt.fail 401 "Unauthorized" }
    else { c with hunt := c.hunt.fail 403 "Auth Failed" }
  else
    let c := { c with acctA := some (if cfg.acctEnable then .radius false else .fake) }
    if c.hunt.uaA ≠ .uasTrying then c.acctDisc
    else
      -- what it raises is logged by the event loop
      { c with hunt := (c.hunt.rDone cfg.env cfg.static results.1
          ⟨some c.invite.cld, c.invite.cli, c.invite.passHeaders, cfg.maxCreditTime⟩).toOption.getD c.hunt }

def moveA (uaA : UaState) (c : Controller) : Controller := { c with hunt := { c.hunt with uaA := uaA } }

/-- `aDisc`, but for the cancellation; `queued` tells whether the request is in the queue. -/
def aDisc (queued : Bool) (c : Controller) : Controller :=
  let waits := decide (c.hunt.state = .waitRoute)
  let state := if c.hunt.placed ≠ [] ∧ c.hunt.state ≠ .dead then CCState.disconnecting else .dead
  { c with
    hunt := { c.hunt with state := state }
    authProc := if waits then none else c.authProc
    late := c.late || waits
    abandoned := c.abandoned || (waits && queued) }.acctDisc

end Controller

structure B2bua (m : ℕ) where
  radius : ExternalCommand m
  calls : List Controller

inductive AuthLabel (m : ℕ)
  | invite (i : Invite)
  /-- The caller's leg gets into another state; one that is over stays so. -/
  | leg (k : ℕ) (uaA : UaState)
  | originateEnded (k : ℕ) (code : Option ℤ)
  | groupExpires (k : ℕ) (skipto : ℤ)
  | acct (data : List Text) (origin : Text)
  | shutdown
  | take (w : Fin (m + 1)) (piped : Bool)
  | read (w : Fin (m + 1))
  | dispatch (delay : Text)

/-- The lines that `do_auth` puts in the queue. -/
def Invite.data (i : Invite) : List Text :=
  Radius.prepareAttributes .auth (Radius.doAuth i.credentials.1 i.cli i.cld i.cId i.remoteIp
    i.credentials.2 i.extraAttributes)

/-- `RadiusAuthorisation.do_auth`: the request, and what is returned; the work item that
`Radius_client.do_auth` returns is not passed on. -/
def doAuth {m : ℕ} (s : ExternalCommand m) (i : Invite) : ExternalCommand m × Option ℕ :=
  (s.processCommand i.data .authorisation, none)

/-- The callback of an authorisation that the event loop calls next. -/
def answerOf {m : ℕ} (s : ExternalCommand m) : Option (ℕ × Results) :=
  match s.events with
  | [] => none
  | (no, result) :: _ => match s.items[no]? with
    | some ⟨_, .authorisation, _⟩ => (Radius.processResult result).toOption.map fun r => (no, r)
    | _ => none

namespace B2bua
variable {m : ℕ}

def init (outs : Fin (m + 1) → Lib.Bytes) : B2bua m := ⟨.init outs, []⟩

def setCall (s : B2bua m) (k : ℕ) (c : Controller) : B2bua m := { s with calls := s.calls.set k c }

/-- The controller `k` goes through its part of a step. -/
def atCall (s : B2bua m) (k : ℕ) (f : Controller → B2bua m) : B2bua m :=
  match s.calls[k]? with
  | none => s
  | some c => f c

def recvInvite (s : B2bua m) (i : Invite) : B2bua m :=
  let r := doAuth s.radius i
  { radius := r.1
    calls := s.calls ++ [⟨i, ⟨.waitRoute, .uasTrying, .empty, none, i.maxForwards, []⟩, r.2, none, 0,
      s.radius.items.length, 0, false, false⟩] }

def aDisc (s : B2bua m) (k : ℕ) (c : Controller) : B2bua m :=
  let radius := match c.hunt.state, c.authProc with
    | .waitRoute, some no => s.radius.cancel no
    | _, _ => s.radius
  { s with radius := radius }.setCall k (c.aDisc (some c.request ∈ s.radius.work))

def moveA (s : B2bua m) (k : ℕ) (uaA : UaState) (c : Controller) : B2bua m :=
  if c.hunt.uaA.terminated then
    if uaA.terminated then s.setCall k (c.moveA uaA) else s
  else if uaA.terminated then s.aDisc k (c.moveA uaA)
  else s.setCall k (c.moveA uaA)

def step (cfg : AuthConfig) (s : B2bua m) : AuthLabel m → B2bua m
  | .invite i => s.recvInvite i
  | .leg k uaA => s.atCall k (s.moveA k uaA)
  | .originateEnded k code =>
    s.atCall k fun c => s.setCall k { c with hunt := c.hunt.step (.originateEnded code) }
  | .groupExpires k skipto =>
    s.atCall k fun c => s.setCall k { c with hunt := c.hunt.step (.groupExpires skipto) }
  | .acct data origin => { s with radius := s.radius.step (.request data (.accounting origin)) }
  | .shutdown => { s with radius := s.radius.step .shutdown }
  | .take w piped => { s with radius := s.radius.step (.take w piped) }
  | .read w => { s with radius := s.radius.step (.read w) }
  | .dispatch delay =>
    { radius := s.radius.step (.dispatch delay)
      calls := match answerOf s.radius with
        | none => s.calls
        | some (no, r) => s.calls.map fun c => if c.request = no then c.rDone cfg r else c }

end B2bua

/-- The steps that the RADIUS client sees. -/
def AuthLabel.command {m : ℕ} : AuthLabel m → Option (ExternalCommand.Label m)
  | .invite i => some (.request i.data .authorisation)
  | .acct data origin => some (.request data (.accounting origin))
  | .shutdown => some .shutdown
  | .take w piped => some (.take w piped)
  | .read w => some (.read w)
  | .dispatch delay => some (.dispatch delay)
  | .leg _ _ | .originateEnded _ _ | .groupExpires _ _ => none

namespace Hunt
variable {c c' : Hunt}

theorem placeOriginate_state (c : Hunt) (r : B2BRoute) :
    (c.placeOriginate r).state = c.state ∨ (c.placeOriginate r).state = .dead := by
  unfold placeOriginate
  dsimp only
  split
  · split
    · exact .inr rfl
    · exact .inl rfl
  · split
    · exact .inr rfl
    · exact .inl rfl

theorem placeNext_state (h : c.state ≠ .waitRoute) : c.placeNext.state ≠ .waitRoute := by
  unfold placeNext
  split
  · exact h
  · rename_i r _ _
    rcases placeOriginate_state { c with routes := c.routes.drop 1 } r with hstate | hstate <;> rw [hstate]
    · exact h
    · simp

theorem rDone_state {env : RouteEnv} {static : Option B2BRoute} {results : List Avp} {call : CallData}
    (h : c.rDone env static results call = .ok c') : c'.state ≠ .waitRoute := by
  unfold rDone at h
  obtain ⟨_, -, h⟩ := Lib.bind_ok.mp h
  split at h
  · cases h
    simp [fail]
  · obtain ⟨routes, -, h⟩ := Lib.bind_ok.mp h
    split at h
    · cases h
      simp [fail]
    · cases h
      exact placeNext_state (by simp)

theorem originateEnded_state {code : Option ℤ} (h : c.state ≠ .waitRoute)
    (hend : c.originateEnded code = .ok c') : c'.state ≠ .waitRoute := by
  unfold originateEnded at hend
  split at hend
  · obtain ⟨stop, -, hend⟩ := Lib.bind_ok.mp hend
    cases hend
    split
    · exact h
    · exact placeNext_state h
  · cases hend
    exact h

/-- No other leg is placed for a controller that has not got its routes. -/
theorem originateEnded_idle (h : c.state ≠ .arComplete) (code : Option ℤ) :
    c.originateEnded code = .ok (c.act .forwardA) := by
  unfold originateEnded
  rw [if_neg fun hc => h hc.1]

theorem groupExpires_same {skipto : ℤ} (hexp : c.groupExpires skipto = .ok c') :
    c'.state = c.state ∧ c'.uaA = c.uaA ∧ c'.placed = c.placed := by
  unfold groupExpires at hexp
  split at hexp
  · cases hexp
    exact ⟨rfl, rfl, rfl⟩
  · split at hexp
    · cases hexp
      exact ⟨rfl, rfl, rfl⟩
    · obtain ⟨first, hfirst, -⟩ := Lib.bind_ok.mp hexp
      exact absurd hfirst (by simp [B2BRoute.getItem])

end Hunt

namespace Controller
variable {c : Controller} {cfg : AuthConfig}

/-- An account of the answering leg that has still to send its Stop record. -/
def openAccount (c : Controller) : ℕ :=
  match c.acctA with
  | some (.radius false) => 1
  | _ => 0

/-- There is nothing to cancel, and a leg that ended while its routes were awaited is the last. -/
structure Fine (c : Controller) : Prop where
  handle : c.authProc = none
  waits : c.hunt.state = .waitRoute → c.hunt.placed = []
  late : c.late = true → c.hunt.placed = [] ∧ c.hunt.state = .dead ∧ c.hunt.uaA.terminated = true
  stops : c.stops + c.openAccount ≤ c.answered

theorem acctDisc_same (c : Controller) : c.acctDisc.hunt = c.hunt ∧ c.acctDisc.authProc = c.authProc ∧
    c.acctDisc.late = c.late ∧ c.acctDisc.abandoned = c.abandoned ∧ c.acctDisc.request = c.request ∧
      c.acctDisc.answered = c.answered ∧ c.acctDisc.stops + c.acctDisc.openAccount = c.stops + c.openAccount := by
  unfold acctDisc
  split
  next hacct => exact ⟨rfl, rfl, rfl, rfl, rfl, rfl, by simp [openAccount, hacct]⟩
  next => exact ⟨rfl, rfl, rfl, rfl, rfl, rfl, rfl⟩

theorem Fine.acctDisc (h : c.Fine) : c.acctDisc.Fine := by
  obtain ⟨hhunt, hauth, hlate, -, -, hanswered, hstops⟩ := c.acctDisc_same
  exact ⟨hauth ▸ h.handle, hhunt ▸ h.waits, by rw [hlate, hhunt]; exact h.late, by
    rw [hstops, hanswered]; exact h.stops⟩

theorem Fine.moveA (h : c.Fine) {uaA : UaState} (hover : c.hunt.uaA.terminated = true → uaA.terminated = true) :
    (c.moveA uaA).Fine :=
  ⟨h.handle, h.waits, fun hlate => ⟨(h.late hlate).1, (h.late hlate).2.1, hover (h.late hlate).2.2⟩, h.stops⟩

theorem Fine.aDisc (h : c.Fine) (hover : c.hunt.uaA.terminated = true) (queued : Bool) :
    (c.aDisc queued).Fine := by
  apply Fine.acctDisc
  refine ⟨?_, ?_, ?_, h.stops⟩
  · dsimp only
    split
    · rfl
    · exact h.handle
  · dsimp only
    split
    · exact fun hstate => absurd hstate (by simp)
    · exact fun hstate => absurd hstate (by simp)
  · intro hlate
    have hplaced : c.hunt.placed = [] := by
      dsimp only at hlate
      rcases Bool.or_eq_true_iff.mp hlate with hlate | hwaits
      · exact (h.late hlate).1
      · exact h.waits (of_decide_eq_true hwaits)
    refine ⟨hplaced, ?_, hover⟩
    dsimp only
    rw [if_neg fun hne => hne.1 hplaced]

/-- What comes of a step of the hunt is fine if it places nothing for a call that may place
nothing. -/
theorem Fine.hunt (h : c.Fine) {hunt : Hunt} (hwaits : hunt.state = .waitRoute → hunt.placed = [])
    (hdead : c.hunt.state = .dead → hunt.placed = c.hunt.placed ∧ hunt.state = .dead ∧ hunt.uaA = c.hunt.uaA) :
    { c with hunt }.Fine := by
  refine ⟨h.handle, hwaits, fun hlate => ?_, h.stops⟩
  obtain ⟨hplaced, hstate, hover⟩ := h.late hlate
  obtain ⟨hsame, hstate', hua⟩ := hdead hstate
  exact ⟨hsame.trans hplaced, hstate', hua ▸ hover⟩

theorem Fine.originateEnded (h : c.Fine) (code : Option ℤ) :
    { c with hunt := c.hunt.step (.originateEnded code) }.Fine := by
  unfold Hunt.step
  dsimp only
  by_cases hstate : c.hunt.state = .arComplete
  · refine h.hunt (fun hwaits => ?_) fun hdead => absurd (hstate.symm.trans hdead) (by simp)
    have hne : c.hunt.state ≠ .waitRoute := by simp [hstate]
    cases hend : c.hunt.originateEnded code with
    | error e =>
      rw [hend] at hwaits
      exact absurd hwaits hne
    | ok hunt =>
      rw [hend] at hwaits
      exact absurd hwaits (Hunt.originateEnded_state hne hend)
  · rw [Hunt.originateEnded_idle hstate]
    have hplaced : (c.hunt.act .forwardA).placed = c.hunt.placed := Hunt.act_placed _ rfl
    exact h.hunt (fun hwaits => hplaced.trans (h.waits hwaits)) fun hdead => ⟨hplaced, hdead, rfl⟩

theorem Fine.groupExpires (h : c.Fine) (skipto : ℤ) :
    { c with hunt := c.hunt.step (.groupExpires skipto) }.Fine := by
  unfold Hunt.step
  dsimp only
  cases hexp : c.hunt.groupExpires skipto with
  | error e => exact h
  | ok hunt =>
    obtain ⟨hstate, hua, hplaced⟩ := Hunt.groupExpires_same hexp
    exact h.hunt (fun hwaits => hplaced.trans (h.waits (hstate.symm.trans hwaits)))
      fun hdead => ⟨hplaced, hstate.trans hdead, hua⟩

/-- A late answer is for a leg that is over: nothing is placed, and the account is closed again. -/
theorem Fine.rDone (h : c.Fine) (cfg : AuthConfig) (results : Results) : (c.rDone cfg results).Fine := by
  have hcount : ({ c with answered := c.answered + 1 } : Controller).Fine :=
    ⟨h.handle, h.waits, h.late, Nat.le_succ_of_le h.stops⟩
  have hover : c.hunt.uaA = .uasTrying → c.late = false := by
    intro hua
    cases hlate : c.late with
    | false => rfl
    | true => exact absurd (h.late hlate).2.2 (by simp [hua, UaState.terminated])
  have hfail (code : ℤ) (reason : String) (hua : c.hunt.uaA = .uasTrying) :
      ({ c with answered := c.answered + 1, hunt := c.hunt.fail code reason } : Controller).Fine :=
    ⟨h.handle, fun hwaits => absurd hwaits (by simp [Hunt.fail]),
      fun hlate => absurd (hover hua) (by simp [show c.late = true from hlate]), hcount.stops⟩
  unfold Controller.rDone
  dsimp only
  split
  · split
    · exact hcount
    · rename_i hua
      split
      · exact hfail _ _ (not_not.mp hua)
      · exact hfail _ _ (not_not.mp hua)
  · have hnew (acctA : AcctA) :
        ({ c with answered := c.answered + 1, acctA := some acctA } : Controller).Fine := by
      refine ⟨h.handle, h.waits, h.late, ?_⟩
      have hopen : ({ c with answered := c.answered + 1, acctA := some acctA } : Controller).openAccount ≤ 1 := by
        unfold openAccount
        split <;> simp
      have hstops := h.stops
      dsimp only at hopen ⊢
      omega
    split
    · exact (hnew _).acctDisc
    · rename_i hua
      refine ⟨h.handle, fun hwaits => ?_, fun hlate => absurd (hover (not_not.mp hua)) (by
        simp [show c.late = true from hlate]), (hnew _).stops⟩
      dsimp only at hwaits ⊢
      cases hdone : c.hunt.rDone cfg.env cfg.static results.1
          ⟨some c.invite.cld, c.invite.cli, c.invite.passHeaders, cfg.maxCreditTime⟩ with
      | error e =>
        rw [hdone] at hwaits
        exact h.waits hwaits
      | ok hunt =>
        rw [hdone] at hwaits
        exact absurd hwaits (Hunt.rDone_state hdone)

theorem rDone_same (c : Controller) (cfg : AuthConfig) (results : Results) :
    (c.rDone cfg results).request = c.request ∧ (c.rDone cfg results).answered = c.answered + 1 ∧
      (c.rDone cfg results).abandoned = c.abandoned := by
  unfold rDone
  dsimp only
  split
  · split
    · exact ⟨rfl, rfl, rfl⟩
    · split <;> exact ⟨rfl, rfl, rfl⟩
  · split
    · obtain ⟨-, -, -, habandoned, hrequest, hanswered, -⟩ := acctDisc_same { c with
        answered := c.answered + 1, acctA := some (if cfg.acctEnable then .radius false else .fake) }
      exact ⟨hrequest, hanswered, habandoned⟩
    · exact ⟨rfl, rfl, rfl⟩

theorem aDisc_same (c : Controller) (queued : Bool) : (c.aDisc queued).request = c.request ∧
    (c.aDisc queued).answered = c.answered ∧
      (c.aDisc queued).abandoned = (c.abandoned || (decide (c.hunt.state = .waitRoute) && queued)) := by
  obtain ⟨-, -, -, habandoned, hrequest, hanswered, -⟩ := acctDisc_same { c with
    hunt := { c.hunt with
      state := if c.hunt.placed ≠ [] ∧ c.hunt.state ≠ .dead then CCState.disconnecting else .dead }
    authProc := if decide (c.hunt.state = .waitRoute) then none else c.authProc
    late := c.late || decide (c.hunt.state = .waitRoute)
    abandoned := c.abandoned || (decide (c.hunt.state = .waitRoute) && queued) }
  exact ⟨hrequest, hanswered, habandoned⟩

end Controller

namespace B2bua
variable {m : ℕ} {s : B2bua m} {cfg : AuthConfig} {k : ℕ} {c c' : Controller}

/-- What holds in every run: the controllers are fine, nothing is cancelled, and a request is in
one place at most until its answer comes. -/
structure Inv (s : B2bua m) : Prop where
  fine : ∀ c ∈ s.calls, c.Fine
  uncancelled : ∀ item ∈ s.radius.items, item.cancelled = false
  known : ∀ c ∈ s.calls, c.request < s.radius.items.length
  once : ∀ c ∈ s.calls, s.radius.places c.request + c.answered ≤ 1
  fresh : ∀ n, s.radius.items.length ≤ n → s.radius.places n = 0

theorem Inv.setCall (h : s.Inv) (hc : c ∈ s.calls) (hfine : c'.Fine) (hrequest : c'.request = c.request)
    (hanswered : c'.answered = c.answered) (k : ℕ) : (s.setCall k c').Inv := by
  have hall {P : Controller → Prop} (hP : P c') (h : ∀ d ∈ s.calls, P d) :
      ∀ d ∈ s.calls.set k c', P d := by
    intro d hd
    rcases List.mem_or_eq_of_mem_set hd with hd | rfl
    · exact h d hd
    · exact hP
  refine ⟨hall hfine h.fine, h.uncancelled, hall ?_ h.known, hall ?_ h.once, h.fresh⟩
  · rw [hrequest]
    exact h.known c hc
  · rw [hrequest, hanswered]
    exact h.once c hc

/-- A step of the workers, which brings no request to a place where it was not. -/
theorem Inv.served (h : s.Inv) {t : ExternalCommand m} (hitems : t.items = s.radius.items)
    (hplaces : ∀ n, t.places n ≤ s.radius.places n) : Inv { s with radius := t } := by
  refine ⟨h.fine, hitems ▸ h.uncancelled, hitems ▸ h.known, fun c hc => ?_, fun n hn => ?_⟩
  · have := h.once c hc
    have := hplaces c.request
    dsimp only
    omega
  · have := hplaces n
    rw [h.fresh n (hitems ▸ hn)] at this
    exact Nat.le_zero.mp this

theorem Inv.request (h : s.Inv) (data : List Text) (handler : Radius.Handler) :
    Inv { s with radius := s.radius.processCommand data handler } := by
  have hlen : (s.radius.processCommand data handler).items.length = s.radius.items.length + 1 := by
    simp [ExternalCommand.processCommand]
  refine ⟨h.fine, fun item hitem => ?_, fun c hc => ?_, fun c hc => ?_, fun n hn => ?_⟩
  · rcases List.mem_append.mp hitem with hitem | hitem
    · exact h.uncancelled item hitem
    · rw [List.mem_singleton.mp hitem]
  · have := h.known c hc
    dsimp only
    omega
  · dsimp only
    rw [ExternalCommand.places_processCommand, if_neg (Nat.ne_of_lt (h.known c hc))]
    exact h.once c hc
  · dsimp only at hn ⊢
    rw [ExternalCommand.places_processCommand, if_neg (by omega), h.fresh n (by omega)]

theorem Inv.recvInvite (h : s.Inv) (i : Invite) : (s.recvInvite i).Inv := by
  have hreq := h.request i.data .authorisation
  have hlen : (s.radius.processCommand i.data .authorisation).items.length = s.radius.items.length + 1 := by
    simp [ExternalCommand.processCommand]
  refine ⟨fun c hc => ?_, hreq.uncancelled, fun c hc => ?_, fun c hc => ?_, hreq.fresh⟩ <;>
    rcases List.mem_append.mp hc with hc | hc
  · exact hreq.fine c hc
  · rw [List.mem_singleton.mp hc]
    exact ⟨rfl, fun _ => rfl, fun hlate => absurd hlate (by simp), Nat.le_refl 0⟩
  · exact hreq.known c hc
  · rw [List.mem_singleton.mp hc]
    exact hlen ▸ Nat.lt_succ_self _
  · exact hreq.once c hc
  · rw [List.mem_singleton.mp hc]
    have hplaces := ExternalCommand.places_processCommand (s := s.radius) (n := s.radius.items.length)
      i.data .authorisation
    rw [h.fresh _ (Nat.le_refl _), if_pos rfl] at hplaces
    exact Nat.le_of_eq hplaces

theorem answerOf_event {t : ExternalCommand m} {no : ℕ} {r : Results} (h : answerOf t = some (no, r)) :
    t.events.head?.map Prod.fst = some no := by
  unfold answerOf at h
  split at h
  · exact absurd h (by simp)
  · rename_i no' result _ hevents
    split at h
    · obtain ⟨r', -, heq⟩ := Option.map_eq_some_iff.mp h
      cases heq
      rw [hevents]
      rfl
    · exact absurd h (by simp)

theorem Inv.dispatch (h : s.Inv) (delay : Text) : (s.step cfg (.dispatch delay)).Inv := by
  have hplaces (n : ℕ) := ExternalCommand.places_dispatch (n := n) s.radius delay
  have hless (n : ℕ) : (s.radius.dispatch delay).places n ≤ s.radius.places n := by
    have := hplaces n
    omega
  have hserved := h.served (ExternalCommand.items_dispatch s.radius delay) hless
  cases hanswer : answerOf s.radius with
  | none =>
    simp only [step, hanswer]
    exact hserved
  | some answer =>
    obtain ⟨no, r⟩ := answer
    have hhead := answerOf_event hanswer
    simp only [step, hanswer]
    have hall {P : Controller → Prop} (hold : ∀ c ∈ s.calls, P c)
        (hnew : ∀ c ∈ s.calls, c.request = no → P (c.rDone cfg r)) :
        ∀ c ∈ s.calls.map fun c => if c.request = no then c.rDone cfg r else c, P c := by
      intro d hd
      obtain ⟨c, hc, rfl⟩ := List.mem_map.mp hd
      split
      · exact hnew c hc ‹_›
      · exact hold c hc
    refine ⟨hall h.fine fun c hc _ => (h.fine c hc).rDone cfg r, hserved.uncancelled,
      hall hserved.known fun c hc _ => ?_, hall hserved.once fun c hc hno => ?_, hserved.fresh⟩
    · rw [(c.rDone_same cfg r).1]
      exact hserved.known c hc
    · rw [(c.rDone_same cfg r).1, (c.rDone_same cfg r).2.1]
      have honce := h.once c hc
      have hone := hplaces c.request
      rw [hhead, if_pos (by rw [hno])] at hone
      simp only [ExternalCommand.step]
      omega

/-- What a step of one controller keeps is kept by the whole. -/
theorem Inv.atCall (h : s.Inv) {f : Controller → B2bua m} (hf : ∀ c, s.calls[k]? = some c → (f c).Inv) :
    (s.atCall k f).Inv := by
  unfold B2bua.atCall
  split
  · exact h
  · exact hf _ ‹_›

theorem aDisc_radius (hhandle : c.authProc = none) (k : ℕ) :
    s.aDisc k c = s.setCall k (c.aDisc (some c.request ∈ s.radius.work)) := by
  unfold aDisc
  rw [hhandle]
  cases c.hunt.state <;> rfl

theorem Inv.moveA (h : s.Inv) (hc : s.calls[k]? = some c) (uaA : UaState) : (s.moveA k uaA c).Inv := by
  have hmem : c ∈ s.calls := List.mem_of_getElem? hc
  have hfine := h.fine c hmem
  unfold B2bua.moveA
  split
  · split
    · rename_i hover
      exact h.setCall hmem (hfine.moveA fun _ => hover) rfl rfl k
    · exact h
  · rename_i hold
    have hmoved : (c.moveA uaA).Fine := hfine.moveA fun hterm => absurd hterm hold
    split
    · rename_i hover
      obtain ⟨hrequest, hanswered, -⟩ := (c.moveA uaA).aDisc_same (some c.request ∈ s.radius.work)
      rw [aDisc_radius hmoved.handle]
      exact h.setCall hmem (hmoved.aDisc hover _) hrequest hanswered k
    · exact h.setCall hmem hmoved rfl rfl k

theorem Inv.step (h : s.Inv) (cfg : AuthConfig) (l : AuthLabel m) : (s.step cfg l).Inv := by
  cases l with
  | invite i => exact h.recvInvite i
  | leg k uaA => exact h.atCall fun c hc => h.moveA hc uaA
  | originateEnded k code =>
    exact h.atCall fun c hc => h.setCall (List.mem_of_getElem? hc)
      ((h.fine c (List.mem_of_getElem? hc)).originateEnded code) rfl rfl k
  | groupExpires k skipto =>
    exact h.atCall fun c hc => h.setCall (List.mem_of_getElem? hc)
      ((h.fine c (List.mem_of_getElem? hc)).groupExpires skipto) rfl rfl k
  | acct data origin => exact h.request data _
  | shutdown =>
    refine h.served rfl fun n => Nat.le_of_eq ?_
    simp [ExternalCommand.step, ExternalCommand.places, List.count_append]
  | take w piped =>
    exact h.served (ExternalCommand.items_take s.radius w piped)
      fun n => ExternalCommand.places_take s.radius w piped
  | read w => exact h.served (ExternalCommand.items_read s.radius w) fun n => ExternalCommand.places_read s.radius w
  | dispatch delay => exact h.dispatch delay

theorem inv_init (outs : Fin (m + 1) → Lib.Bytes) : (init outs).Inv := by
  refine ⟨by simp [init], by simp [init, ExternalCommand.init], by simp [init], by simp [init], fun n _ => ?_⟩
  simp [init, ExternalCommand.init, ExternalCommand.places, Radius.Worker.reads, Radius.Worker.doing]

theorem inv_run (cfg : AuthConfig) (outs : Fin (m + 1) → Lib.Bytes) (ls : List (AuthLabel m)) :
    (run (step cfg) (init outs) ls).Inv :=
  Lib.run_invariant (fun _ l h => h.step cfg l) (inv_init outs) ls

/-- Nothing that happens to a caller's leg reaches the RADIUS client. -/
theorem step_radius (h : s.Inv) (cfg : AuthConfig) (l : AuthLabel m) :
    (s.step cfg l).radius = l.command.elim s.radius s.radius.step := by
  cases l with
  | leg k uaA =>
    simp only [step, atCall, AuthLabel.command, Option.elim_none]
    split
    · rfl
    · rename_i c hc
      have hfine := h.fine c (List.mem_of_getElem? hc)
      unfold moveA
      split
      · split <;> rfl
      · split
        · rw [aDisc_radius (c := c.moveA uaA) hfine.handle]
          rfl
        · rfl
  | originateEnded k code =>
    simp only [step, atCall]
    split <;> rfl
  | groupExpires k skipto =>
    simp only [step, atCall]
    split <;> rfl
  | invite i => rfl
  | acct data origin => rfl
  | shutdown => rfl
  | take w piped => rfl
  | read w => rfl
  | dispatch delay => rfl

theorem run_radius (h : s.Inv) (cfg : AuthConfig) (ls : List (AuthLabel m)) :
    (run (step cfg) s ls).radius = run ExternalCommand.step s.radius (ls.filterMap AuthLabel.command) := by
  induction ls generalizing s with
  | nil => rfl
  | cons l ls ih =>
    rw [Lib.run_cons, ih (h.step cfg l), step_radius h]
    cases hl : l.command with
    | none => rw [List.filterMap_cons_none hl, Option.elim_none]
    | some l' => rw [List.filterMap_cons_some hl, Option.elim_some, Lib.run_cons]

/-- A worker has written the request to its process. -/
def Written (s : ExternalCommand m) (no : ℕ) : Prop :=
  ∃ w, (s.workers w).doing = some no ∨ no ∈ (s.workers w).served.map Prod.fst

/-- What an abandoned call should have: the request is cancelled, and the program does not get it. -/
structure Dropped (s : B2bua m) (c : Controller) : Prop where
  cancelled : ∃ item, s.radius.items[c.request]? = some item ∧ item.cancelled = true
  unwritten : ¬ Written s.radius c.request

/-- What a call that ended while it was authorised should have. -/
structure Settled (s : B2bua m) (c : Controller) : Prop where
  dropped : c.abandoned = true → s.Dropped c
  unplaced : c.late = true → c.hunt.placed = [] ∧ c.stops ≤ 1

/-- If the leg of a call that waits for its routes ends with this step, its request is not in the
queue any more. -/
def Timely (s : B2bua m) : AuthLabel m → Prop
  | .leg k uaA => ∀ c, s.calls[k]? = some c → c.hunt.uaA.terminated = false → uaA.terminated = true →
    c.hunt.state = .waitRoute → some c.request ∉ s.radius.work
  | _ => True

theorem Inv.unplaced (h : s.Inv) (hc : c ∈ s.calls) (hlate : c.late = true) :
    c.hunt.placed = [] ∧ c.stops ≤ 1 := by
  have hstops := (h.fine c hc).stops
  have honce := h.once c hc
  exact ⟨((h.fine c hc).late hlate).1, by omega⟩

theorem Inv.settled_iff (h : s.Inv) (hc : c ∈ s.calls) : s.Settled c ↔ c.abandoned = false := by
  constructor
  · intro hsettled
    refine Bool.eq_false_iff.mpr fun habandoned => ?_
    obtain ⟨item, hitem, hcancelled⟩ := (hsettled.dropped habandoned).cancelled
    have hnot := h.uncancelled item (List.mem_of_getElem? hitem)
    exact Bool.false_ne_true (hnot.symm.trans hcancelled)
  · intro hnot
    exact ⟨fun habandoned => absurd (hnot.symm.trans habandoned) Bool.false_ne_true, h.unplaced hc⟩

theorem mem_setCall (hk : s.calls[k]? = some c) : c' ∈ (s.setCall k c').calls := by
  obtain ⟨hlt, -⟩ := List.getElem?_eq_some_iff.mp hk
  exact List.mem_set hlt c'

theorem setCall_clean (hclean : ∀ d ∈ s.calls, d.abandoned = false) (hk : s.calls[k]? = some c) :
    (∀ d ∈ (s.setCall k c').calls, d.abandoned = false) ↔ c'.abandoned = false := by
  refine ⟨fun h => h c' (mem_setCall hk), fun h d hd => ?_⟩
  rcases List.mem_or_eq_of_mem_set hd with hd | rfl
  · exact hclean d hd
  · exact h

/-- A call is abandoned in a step exactly if the step is not timely. -/
theorem clean_step (h : s.Inv) (hclean : ∀ c ∈ s.calls, c.abandoned = false) (cfg : AuthConfig)
    (l : AuthLabel m) : (∀ c ∈ (s.step cfg l).calls, c.abandoned = false) ↔ s.Timely l := by
  have hat {f : Controller → Controller} (hf : ∀ c, (f c).abandoned = c.abandoned) (k : ℕ) :
      ∀ c ∈ (s.atCall k fun c => s.setCall k (f c)).calls, c.abandoned = false := by
    unfold atCall
    split
    · exact hclean
    · rename_i c hc
      exact (setCall_clean hclean hc).mpr ((hf c).trans (hclean c (List.mem_of_getElem? hc)))
  cases l with
  | leg k uaA =>
    simp only [step, atCall, Timely]
    cases hc : s.calls[k]? with
    | none => exact iff_of_true hclean fun c hsome => absurd hsome (by simp)
    | some c =>
      have hmem := List.mem_of_getElem? hc
      have hmoved : (c.moveA uaA).abandoned = false := hclean c hmem
      have hhandle : (c.moveA uaA).authProc = none := (h.fine c hmem).handle
      unfold moveA
      dsimp only
      cases hold : c.hunt.uaA.terminated with
      | true =>
        refine iff_of_true ?_ fun d hd hterm => ?_
        · rw [if_pos rfl]
          split
          · exact (setCall_clean hclean hc).mpr hmoved
          · exact hclean
        · cases hd
          exact absurd (hold.symm.trans hterm) (by simp)
      | false =>
        rw [if_neg Bool.false_ne_true]
        cases hnew : uaA.terminated with
        | false =>
          rw [if_neg Bool.false_ne_true]
          exact iff_of_true ((setCall_clean hclean hc).mpr hmoved) fun d _ _ hterm => absurd hterm (by simp)
        | true =>
          obtain ⟨-, -, habandoned⟩ := (c.moveA uaA).aDisc_same (some c.request ∈ s.radius.work)
          rw [if_pos rfl, aDisc_radius hhandle, setCall_clean hclean hc]
          refine (Eq.congr_left habandoned).trans ?_
          rw [hmoved]
          simp only [Bool.false_or, Bool.and_eq_false_imp, decide_eq_true_eq, decide_eq_false_iff_not]
          constructor
          · intro hqueue d hd _ _ hstate
            cases hd
            exact hqueue hstate
          · intro htimely hstate
            exact htimely c rfl hold trivial hstate
  | invite i =>
    refine iff_of_true (fun c hc => ?_) trivial
    rcases List.mem_append.mp hc with hc | hc
    · exact hclean c hc
    · rw [List.mem_singleton.mp hc]
  | originateEnded k code =>
    exact iff_of_true (hat (f := fun c => { c with hunt := c.hunt.step (.originateEnded code) })
      (fun _ => rfl) k) trivial
  | groupExpires k skipto =>
    exact iff_of_true (hat (f := fun c => { c with hunt := c.hunt.step (.groupExpires skipto) })
      (fun _ => rfl) k) trivial
  | dispatch delay =>
    refine iff_of_true ?_ trivial
    simp only [step]
    split
    · exact hclean
    · intro d hd
      obtain ⟨c, hc, rfl⟩ := List.mem_map.mp hd
      split
      · rw [(c.rDone_same cfg _).2.2]
        exact hclean c hc
      · exact hclean c hc
  | acct data origin => exact iff_of_true hclean trivial
  | shutdown => exact iff_of_true hclean trivial
  | take w piped => exact iff_of_true hclean trivial
  | read w => exact iff_of_true hclean trivial

/-- What holds after any run, abandoned calls or not. -/
structure Asked (outs : Fin (m + 1) → Lib.Bytes) (ls : List (AuthLabel m)) (s : B2bua m) : Prop where
  /-- An answer for a leg that is over places no leg and sends a Stop record at most. -/
  unplaced : ∀ c ∈ s.calls, c.late = true → c.hunt.placed = [] ∧ c.stops ≤ 1
  /-- No work item is ever cancelled. -/
  uncancelled : ∀ item ∈ s.radius.items, item.cancelled = false
  /-- The requests go the way that they go when no leg ends. -/
  others : s.radius = run ExternalCommand.step (.init outs) (ls.filterMap AuthLabel.command)
  order : Along ExternalCommand.step ExternalCommand.Meets (.init outs) (ls.filterMap AuthLabel.command) →
    ∀ w, (s.radius.line w).Pairwise (· < ·)
  /-- The request of an abandoned call is written when a worker gets to it. -/
  written : Along ExternalCommand.step ExternalCommand.Meets (.init outs) (ls.filterMap AuthLabel.command) →
    ∀ c ∈ s.calls, c.abandoned = true → some c.request ∈ s.radius.work ∨ Written s.radius c.request

theorem written_of_tracks {t : ExternalCommand m} {n : ℕ} {item : Radius.WorkItem} (h : t.Tracks n item)
    (hnot : item.cancelled = false) : some n ∈ t.work ∨ Written t n := by
  have hserved {w : Fin (m + 1)} {b : List Lib.Bytes} (hb : (n, b) ∈ (t.workers w).served) : Written t n :=
    ⟨w, .inr (List.mem_map.mpr ⟨(n, b), hb, rfl⟩)⟩
  cases h with
  | queued hw _ => exact .inl hw
  | dropped _ hc _ => exact absurd (hnot.symm.trans hc) Bool.false_ne_true
  | reading w _ hat => exact .inr ⟨w, .inl ((hat.doing w).mpr rfl)⟩
  | arrived w b _ hb _ => exact .inr (hserved hb)
  | answered _ hans =>
    obtain ⟨w, b, hb, -⟩ := hans
    exact .inr (hserved hb)

/-- In every state of a run the calls that ended while they were authorised are settled exactly if
each of them ended after a worker had taken its request. -/
theorem abandoned_iff (cfg : AuthConfig) (outs : Fin (m + 1) → Lib.Bytes) (ls : List (AuthLabel m)) :
    ((∀ ms, ms <+: ls → ∀ c ∈ (run (step cfg) (init outs) ms).calls,
        (run (step cfg) (init outs) ms).Settled c) ↔ Along (step cfg) Timely (init outs) ls) ∧
      Asked outs ls (run (step cfg) (init outs) ls) := by
  constructor
  · have hclean := @Lib.along_iff_prefix _ _ (step cfg) Timely Inv
      (fun s : B2bua m => ∀ c ∈ s.calls, c.abandoned = false) (fun s l h => h.step cfg l)
      (fun s l h hclean => clean_step h hclean cfg l) _ (inv_init outs) (by simp [init]) ls
    rw [← hclean]
    refine forall₂_congr fun ms _ => forall₂_congr fun c hc => ?_
    exact (inv_run cfg outs ms).settled_iff hc
  · have hinv := inv_run cfg outs ls
    have hradius : (run (step cfg) (init outs) ls).radius =
        run ExternalCommand.step (.init outs) (ls.filterMap AuthLabel.command) :=
      run_radius (inv_init outs) cfg ls
    refine ⟨fun c hc hlate => hinv.unplaced hc hlate, hinv.uncancelled, hradius, fun hmeets => ?_,
      fun hmeets c hc _ => ?_⟩
    · rw [hradius]
      exact (ExternalCommand.inv_run hmeets).order
    · have hitem := List.getElem?_eq_getElem (hinv.known c hc)
      refine written_of_tracks ?_ (hinv.uncancelled _ (List.mem_of_getElem? hitem))
      have htracks := (ExternalCommand.inv_run hmeets).tracks c.request
      rw [← hradius] at htracks
      exact htracks _ hitem

def plainInvite : Invite :=
  ⟨"1".toList, some "100".toList, "200".toList, none, "192.0.2.1".toList, [], [], none, false⟩

def plainConfig : AuthConfig := ⟨Hunt.plainEnv, none, true, none⟩

/-- The caller gives up while the only worker asks for the call; the answer comes late. -/
def lateAnswer : List (AuthLabel 0) :=
  [.invite plainInvite, .take (Fin.last 0) true, .leg 0 .disconnected, .read (Fin.last 0),
   .read (Fin.last 0), .dispatch []]

theorem abandoned_iff_late :
    (∀ ms, ms <+: lateAnswer → ∀ c ∈ (run (step plainConfig) (init fun _ => ExternalCommand.accepted) ms).calls,
      (run (step plainConfig) (init fun _ => ExternalCommand.accepted) ms).Settled c) ∧
    (run (step plainConfig) (init fun _ => ExternalCommand.accepted) lateAnswer).calls.map
      (fun c => (c.late, c.answered, c.stops)) = [(true, 1, 1)] := by
  refine ⟨(abandoned_iff plainConfig _ lateAnswer).1.mpr
    ⟨trivial, trivial, ?_, trivial, trivial, trivial, trivial⟩, by decide +kernel⟩
  intro c _ _ _ _
  exact List.not_mem_nil

/-- The caller gives up before the only worker takes the request: it is written. -/
theorem abandoned_written :
    (¬ ∀ c ∈ (run (step plainConfig) (init (m := 0) fun _ => [])
        [.invite plainInvite, .leg 0 .disconnected]).calls,
      (run (step plainConfig) (init (m := 0) fun _ => [])
        [.invite plainInvite, .leg 0 .disconnected]).Settled c) ∧
    (run (step plainConfig) (init (m := 0) fun _ => [])
      [.invite plainInvite, .leg 0 .disconnected, .take (Fin.last 0) true]).calls.map
        (fun c => (c.abandoned, c.request)) = [(true, 0)] ∧
    Written (run (step plainConfig) (init (m := 0) fun _ => [])
      [.invite plainInvite, .leg 0 .disconnected, .take (Fin.last 0) true]).radius 0 := by
  refine ⟨fun h => ?_, by decide +kernel, 0, .inl (by decide +kernel)⟩
  have hclean : ∀ c ∈ (run (step plainConfig) (init (m := 0) fun _ => [])
      [.invite plainInvite, .leg 0 .disconnected]).calls, c.abandoned = false :=
    fun c hc => ((inv_run plainConfig (fun _ => []) _).settled_iff hc).mp (h c hc)
  exact absurd hclean (by decide +kernel)

end B2bua
end SippyB2bua.B2B
