import SippyB2bua.B2B.Route
import SippyB2bua.Lib.Fallible
import SippyB2bua.Lib.Run
import SippyB2bua.Ua.State

/-!
# Hunting

`CallController.rDone` makes numbered routes of what the authorisation returned and places
the first originate leg; when a leg ends, the next route is taken. A group timeout is meant
to skip the routes below a number. Routes that may not be used leave gaps in the numbers.
-/

namespace SippyB2bua.B2B
open Lib (Text)
open Lib.Text (startsWith)
open Ua (UaState)

inductive CCState
  | idle | waitRoute | arComplete | connected | dead | disconnecting
  deriving DecidableEq

def B2BRoute.number (r : B2BRoute) : ℕ := r.rnum.getD 0

/-- Routes that are still to be tried, with increasing numbers. -/
@[ext] structure RouteList where
  list : List B2BRoute
  increasing : list.Pairwise fun r r' => r.number < r'.number

namespace RouteList

def empty : RouteList := ⟨[], .nil⟩

def drop (n : ℕ) (l : RouteList) : RouteList := ⟨l.list.drop n, l.increasing.drop⟩

def filter (p : B2BRoute → Bool) (l : RouteList) : RouteList := ⟨l.list.filter p, l.increasing.filter p⟩

end RouteList

abbrev Avp := Text × Text

def routingTag : Text := "Routing:".toList

def routingOf (results : List Avp) : List Text :=
  (results.filter fun x => x.1 = "h323-ivr-in".toList ∧ startsWith x.2 routingTag).map fun x => x.2.drop 8

def creditTimeOf (results : List Avp) : Lazy (Option ℤ) :=
  match results.find? fun x => x.1 = "h323-credit-time".toList with
  | none => .ok none
  | some x => (B2BRoute.parseInt x.2).map some

/-- What `customize` takes from the call and the configuration. -/
structure CallData where
  cld : Option Text
  cli : Option Text
  passHeaders : List Wire.SipHeader
  maxCreditTime : Option ℤ

/-- The default for a route without a number of the caller. -/
def cliOf (results : List Avp) (call : CallData) : Option Text :=
  match (results.filter fun x => x.1 = "h323-ivr-in".toList ∧ startsWith x.2 "CLI:".toList) with
  | [] => call.cli
  | x :: _ => B2BRoute.emptyToNone (x.2.drop 4)

def B2BRoute.usable (r : B2BRoute) : Bool := r.creditTime ≠ some 0 ∧ r.expires ≠ some 0

/-- The loop over the routes: each is numbered, those without time are left out. -/
def customizeAll (call : CallData) (creditTime : Option ℤ) :
    ℕ → List B2BRoute → Lazy (List B2BRoute)
  | _, [] => .ok []
  | rnum, r :: rs => do
    let r ← r.customize (rnum + 1) call.cld call.cli creditTime call.passHeaders call.maxCreditTime
    let rest ← customizeAll call creditTime (rnum + 1) rs
    return if r.usable then r :: rest else rest

section Numbers
variable {call : CallData} {creditTime : Option ℤ} {rnum : ℕ} {r r' : B2BRoute} {rs rs' : List B2BRoute}

theorem groupTimeout_number (h : r.groupTimeout rnum = .ok r') : r'.rnum = r.rnum := by
  unfold B2BRoute.groupTimeout at h
  split at h
  · split at h
    · exact absurd h (by simp)
    · obtain ⟨timeout, -, h⟩ := Lib.bind_ok.mp h
      obtain ⟨skip, -, h⟩ := Lib.bind_ok.mp h
      cases h
      rfl
  · exact absurd h (by simp)
  · cases h
    rfl

theorem customize_number {cld cli : Option Text} {hs : List Wire.SipHeader} {m : Option ℤ}
    (h : r.customize rnum cld cli creditTime hs m = .ok r') : r'.number = rnum := by
  obtain ⟨r'', hgroup, h⟩ := Lib.bind_ok.mp h
  cases h
  have hnumber := groupTimeout_number hgroup
  simp only [B2BRoute.number, hnumber, Option.getD_some]

theorem customizeAll_numbers (h : customizeAll call creditTime rnum rs = .ok rs') :
    (∀ r ∈ rs', rnum < r.number) ∧ rs'.Pairwise fun r r' => r.number < r'.number := by
  induction rs generalizing rnum rs' with
  | nil =>
    cases h
    exact ⟨by simp, .nil⟩
  | cons r rs ih =>
    obtain ⟨r', hr, h⟩ := Lib.bind_ok.mp h
    obtain ⟨rest, hrest, h⟩ := Lib.bind_ok.mp h
    have hnumber := customize_number hr
    obtain ⟨habove, hincreasing⟩ := ih hrest
    have hbelow : ∀ r'' ∈ rest, rnum < r''.number := fun r'' hr'' => by
      have hlt := habove r'' hr''
      omega
    cases h
    split
    · constructor
      · rw [List.forall_mem_cons]
        exact ⟨by omega, hbelow⟩
      · refine List.pairwise_cons.mpr ⟨fun r'' hr'' => ?_, hincreasing⟩
        rw [hnumber]
        exact habove r'' hr''
    · exact ⟨hbelow, hincreasing⟩

end Numbers

/-- The routes of a call; `static` is the copy of a configured one. -/
def routesOf (env : RouteEnv) (static : Option B2BRoute) (results : List Avp) (call : CallData) :
    Lazy RouteList := do
  let creditTime ← creditTimeOf results
  let routing ← match static with
    | some r => .ok [r]
    | none => (routingOf results).mapM (B2BRoute.parse env)
  match h : customizeAll { call with cli := cliOf results call } creditTime 0 routing with
  | .error e => .error e
  | .ok rs => .ok ⟨rs, (customizeAll_numbers h).2⟩

inductive HuntAct
  /-- `Timeout(self.group_expires, timeout, 1, skipto)`. -/
  | armGroup (timeout skipto : ℤ)
  /-- A user agent is made for the route and gets the event of the call. -/
  | originate (r : B2BRoute)
  | disconnectO
  | failA (code : ℤ) (reason : Text)
  /-- The event of the originate leg goes to the answering leg. -/
  | forwardA

/-- What hunting reads and changes of a `CallController`. -/
structure Hunt where
  state : CCState
  uaA : UaState
  routes : RouteList
  huntstop : Option RouteParam
  /-- `eTry.max_forwards`. -/
  maxForwards : Option ℤ
  acts : List HuntAct

namespace Hunt

def act (c : Hunt) (a : HuntAct) : Hunt := { c with acts := c.acts ++ [a] }

def fail (c : Hunt) (code : ℤ) (reason : String) : Hunt :=
  { c with state := .dead, acts := c.acts ++ [.failA code reason.toList] }

def tooManyHops (c : Hunt) : Bool := c.maxForwards.any fun n => n - 1 ≤ 0

def placeOriginate (c : Hunt) (r : B2BRoute) : Hunt :=
  let c := { c with huntstop := r.params "huntstop_scodes".toList }
  let c := match r.params "group_timeout".toList with
    | some (.groupTimeout timeout skipto) => c.act (.armGroup timeout skipto)
    | _ => c
  if c.tooManyHops then c.fail 483 "Too Many Hops" else c.act (.originate r)

/-- `placeOriginate(routes.pop(0))`. -/
def placeNext (c : Hunt) : Hunt :=
  match c.routes.list with
  | [] => c
  | r :: _ => { c with routes := c.routes.drop 1 }.placeOriginate r

/-- `rDone` of an accept while the caller still waits. -/
def rDone (env : RouteEnv) (static : Option B2BRoute) (results : List Avp) (call : CallData)
    (c : Hunt) : Lazy Hunt :=
  -- The credit time is read before the routes are looked for.
  creditTimeOf results >>= fun _ =>
  if static = none ∧ routingOf results = [] then .ok (c.fail 500 "Internal Server Error (2)")
  else do
    let routes ← routesOf env static results call
    if routes.list = [] then return c.fail 500 "Internal Server Error (3)"
    else return { c with state := .arComplete, routes := routes }.placeNext

/-- `code in huntstop_scodes`, for an event with a code. -/
def stops (c : Hunt) : Option ℤ → Lazy Bool
  | none => .ok false
  | some code => match c.huntstop with
    | none => .ok false
    | some (.huntstopScodes scodes) => .ok (code ∈ scodes)
    | some _ => .error .typeError

def callerWaits (c : Hunt) : Bool := c.uaA = .uasTrying ∨ c.uaA = .uasRinging

/-- `recvEvent` of a failure, with its code, or of a disconnect from the originate leg. -/
def originateEnded (c : Hunt) (code : Option ℤ) : Lazy Hunt :=
  if c.state = .arComplete ∧ c.callerWaits ∧ c.routes.list ≠ [] then do
    let stop ← c.stops code
    return if stop then c.act .forwardA else c.placeNext
  else .ok (c.act .forwardA)

/-- How many routes the loop of `group_expires` takes away. -/
def skipCount (skipto : ℤ) : List B2BRoute → Lazy ℕ
  | [] => .error .indexError
  | r :: rs => do
    if (← r.getItem 0) = skipto then return 0
    else return (← skipCount skipto rs) + 1

def groupExpires (c : Hunt) (skipto : ℤ) : Lazy Hunt :=
  if c.state ≠ .arComplete then .ok c
  else match c.routes.list with
    | [] => .ok c
    | r :: rs => do
      if (← r.getItem 0) > skipto ∨ ¬ c.callerWaits then return c
      else if skipto = (← ((r :: rs).getLastD r).getItem 0) + 1 then
        return { c with routes := .empty }
      else
        let n ← skipCount skipto (r :: rs)
        return { c with routes := c.routes.drop n }.act .disconnectO

inductive HuntStep
  | originateEnded (code : Option ℤ)
  | groupExpires (skipto : ℤ)
  /-- The answering leg, and with it the controller, gets into other states. -/
  | moved (state : CCState) (uaA : UaState)

/-- One step; a callback that raises leaves the controller as it was. -/
def step (c : Hunt) : HuntStep → Hunt
  | .originateEnded code => (c.originateEnded code).toOption.getD c
  | .groupExpires skipto => (c.groupExpires skipto).toOption.getD c
  | .moved state uaA => { c with state := state, uaA := uaA }

def HuntAct.route : HuntAct → Option B2BRoute
  | .originate r => some r
  | _ => none

def placed (c : Hunt) : List B2BRoute := c.acts.filterMap HuntAct.route

/-- The routes tried and those to be tried are some of these, in their order. -/
def Tries (c : Hunt) (rs : List B2BRoute) : Prop := (c.placed ++ c.routes.list).Sublist rs

section Order
variable {c c' : Hunt} {r : B2BRoute} {rs : List B2BRoute}

theorem act_placed (c : Hunt) {a : HuntAct} (ha : HuntAct.route a = none) : (c.act a).placed = c.placed := by
  simp [placed, act, ha]

theorem fail_placed (c : Hunt) (code : ℤ) (reason : String) : (c.fail code reason).placed = c.placed := by
  simp [placed, fail, HuntAct.route]

theorem placeOriginate_placed (c : Hunt) (r : B2BRoute) :
    ((c.placeOriginate r).placed = c.placed ++ [r] ∨ (c.placeOriginate r).placed = c.placed) ∧
      (c.placeOriginate r).routes = c.routes := by
  have hplace (d : Hunt) (hplaced : d.placed = c.placed) (hroutes : d.routes = c.routes) :
      let e := if d.tooManyHops then d.fail 483 "Too Many Hops" else d.act (.originate r)
      (e.placed = c.placed ++ [r] ∨ e.placed = c.placed) ∧ e.routes = c.routes := by
    dsimp only
    split
    · exact ⟨.inr ((fail_placed d _ _).trans hplaced), hroutes⟩
    · refine ⟨.inl ?_, hroutes⟩
      rw [← hplaced]
      simp [placed, act, HuntAct.route]
  unfold placeOriginate
  dsimp only
  split
  · exact hplace _ (act_placed _ rfl) rfl
  · exact hplace { c with huntstop := r.params "huntstop_scodes".toList } rfl rfl

theorem Tries.placeNext (h : c.Tries rs) : c.placeNext.Tries rs := by
  unfold Hunt.placeNext
  split
  · exact h
  · rename_i r rest hroutes
    obtain ⟨hplaced, hrest⟩ := placeOriginate_placed { c with routes := c.routes.drop 1 } r
    have hdrop : (c.routes.drop 1).list = rest := by simp [RouteList.drop, hroutes]
    have hsame : ({ c with routes := c.routes.drop 1 } : Hunt).placed = c.placed := rfl
    unfold Tries
    rw [hrest, hdrop]
    rcases hplaced with hplaced | hplaced
    · rw [hplaced, hsame, List.append_assoc, List.singleton_append, ← hroutes]
      exact h
    · rw [hplaced, hsame]
      have hskip : (c.placed ++ rest).Sublist (c.placed ++ c.routes.list) := by
        rw [hroutes]
        exact (List.sublist_cons_self r rest).append_left c.placed
      exact hskip.trans h

theorem Tries.sub (h : c.Tries rs) (hplaced : c'.placed = c.placed)
    (hroutes : c'.routes.list.Sublist c.routes.list) : c'.Tries rs := by
  unfold Tries
  rw [hplaced]
  exact (hroutes.append_left c.placed).trans h

theorem Tries.act (h : c.Tries rs) {a : HuntAct} (ha : HuntAct.route a = none) : (c.act a).Tries rs :=
  h.sub (act_placed c ha) (List.Sublist.refl _)

theorem Tries.originateEnded {code : Option ℤ} (h : c.Tries rs)
    (hend : c.originateEnded code = .ok c') : c'.Tries rs := by
  unfold Hunt.originateEnded at hend
  split at hend
  · obtain ⟨stop, -, hend⟩ := Lib.bind_ok.mp hend
    cases hend
    split
    · exact h.act rfl
    · exact h.placeNext
  · cases hend
    exact h.act rfl

theorem Tries.groupExpires {skipto : ℤ} (h : c.Tries rs)
    (hexp : c.groupExpires skipto = .ok c') : c'.Tries rs := by
  unfold Hunt.groupExpires at hexp
  split at hexp
  · cases hexp
    exact h
  · split at hexp
    · cases hexp
      exact h
    · obtain ⟨first, hfirst, -⟩ := Lib.bind_ok.mp hexp
      exact absurd hfirst (by simp [B2BRoute.getItem])

theorem Tries.step (h : c.Tries rs) (s : HuntStep) : (c.step s).Tries rs := by
  cases s with
  | originateEnded code =>
    cases hend : c.originateEnded code with
    | error e => simpa [Hunt.step, hend, Except.toOption] using h
    | ok c' => simpa [Hunt.step, hend, Except.toOption] using h.originateEnded hend
  | groupExpires skipto =>
    cases hexp : c.groupExpires skipto with
    | error e => simpa [Hunt.step, hexp, Except.toOption] using h
    | ok c' => simpa [Hunt.step, hexp, Except.toOption] using h.groupExpires hexp
  | moved state uaA => exact h

theorem Tries.run (h : c.Tries rs) (ss : List HuntStep) : (Lib.run Hunt.step c ss).Tries rs :=
  Lib.run_invariant (I := fun c : Hunt => c.Tries rs) (fun _ s hc => hc.step s) h ss

theorem rDone_tries {env : RouteEnv} {static : Option B2BRoute} {results : List Avp} {call : CallData}
    {routes : RouteList} (hstart : c.placed = []) (hnone : c.routes.list = [])
    (h : c.rDone env static results call = .ok c')
    (hroutes : routesOf env static results call = .ok routes) : c'.Tries routes.list := by
  have hfail (reason : String) : (c.fail 500 reason).Tries routes.list := by
    unfold Tries
    rw [fail_placed, hstart]
    simp [fail, hnone]
  unfold rDone at h
  obtain ⟨_, -, h⟩ := Lib.bind_ok.mp h
  split at h
  · cases h
    exact hfail _
  · rw [hroutes] at h
    obtain ⟨routes', heq, h⟩ := Lib.bind_ok.mp h
    cases heq
    split at h
    · cases h
      exact hfail _
    · cases h
      apply Tries.placeNext
      unfold Tries
      have hplaced : ({ c with state := .arComplete, routes := routes } : Hunt).placed = [] := hstart
      rw [hplaced, List.nil_append]

end Order

/-- What the timeout of a group is for: with the call still hunting, the routes below the
number are skipped and the current attempt ends, unless nothing would be left to try. -/
def afterGroup (c : Hunt) (skipto : ℤ) : Hunt :=
  if c.state = .arComplete ∧ c.callerWaits then
    if ∀ r ∈ c.routes.list, (r.number : ℤ) < skipto then { c with routes := .empty }
    else { c with routes := c.routes.filter fun r => skipto ≤ r.number }.act .disconnectO
  else c

theorem groupExpires_raises {c : Hunt} (hstate : c.state = .arComplete) (hroutes : c.routes.list ≠ [])
    (skipto : ℤ) : c.groupExpires skipto = .error .typeError := by
  obtain ⟨r, rs, hcons⟩ := List.exists_cons_of_ne_nil hroutes
  unfold groupExpires
  rw [if_neg (by simp [hstate]), hcons]
  rfl

/-- The timeout does what it is for exactly where the routes are not looked at. -/
theorem group_timeout_skips (c : Hunt) (skipto : ℤ) :
    c.groupExpires skipto = .ok (c.afterGroup skipto) ↔
      c.state ≠ .arComplete ∨ c.routes.list = [] := by
  by_cases hstate : c.state = .arComplete
  · by_cases hroutes : c.routes.list = []
    · have hafter : c.afterGroup skipto = c := by
        have hempty : RouteList.empty = c.routes := RouteList.ext hroutes.symm
        unfold afterGroup
        split
        · rw [if_pos (by simp [hroutes]), hempty]
        · rfl
      have hexpires : c.groupExpires skipto = .ok c := by
        unfold groupExpires
        rw [if_neg (by simp [hstate]), hroutes]
      rw [hafter, hexpires]
      simp [hroutes]
    · rw [groupExpires_raises hstate hroutes]
      simp [hstate, hroutes]
  · have hafter : c.afterGroup skipto = c := by
      unfold afterGroup
      rw [if_neg (fun h => hstate h.1)]
    have hexpires : c.groupExpires skipto = .ok c := by
      unfold groupExpires
      rw [if_pos hstate]
    rw [hafter, hexpires]
    simp [hstate]

/-- Names stand for themselves; there are no processors and no headers. -/
def plainEnv : RouteEnv where
  getaddrinfo host port af6 := .ok [(af6, host, port)]
  getTransProc _ := .error .attributeError
  sipHeader _ := .error .valueError

def gateways : List Avp :=
  [("h323-ivr-in".toList, "Routing:100@gw1.example.com;gt=5,2".toList),
    ("h323-ivr-in".toList, "Routing:100@gw2.example.com;expires=0".toList),
    ("h323-ivr-in".toList, "Routing:100@gw3.example.com".toList)]

def caller : CallData := ⟨some "100".toList, some "200".toList, [], none⟩

def waiting : Hunt := ⟨.waitRoute, .uasTrying, .empty, none, some 70, []⟩

/-- The timeout of the first gateway raises instead of going on with the third. -/
theorem gateway_not_skipped : ∃ c, waiting.rDone plainEnv none gateways caller = .ok c ∧
    c.acts.length = 2 ∧ c.groupExpires 3 ≠ .ok (c.afterGroup 3) := by
  have hstate : (waiting.rDone plainEnv none gateways caller).toOption.map
      (fun c => (c.state, c.routes.list.map B2BRoute.number, c.acts.length)) =
        some (.arComplete, [3], 2) := by
    decide +kernel
  cases hdone : waiting.rDone plainEnv none gateways caller with
  | error e =>
    rw [hdone] at hstate
    exact absurd hstate (by simp [Except.toOption])
  | ok c =>
    rw [hdone] at hstate
    simp only [Except.toOption, Option.map_some, Option.some.injEq, Prod.mk.injEq] at hstate
    obtain ⟨hstate, hroutes, hacts⟩ := hstate
    have hne : c.routes.list ≠ [] := by
      intro h
      rw [h] at hroutes
      exact absurd hroutes (by simp)
    refine ⟨c, rfl, hacts, ?_⟩
    rw [groupExpires_raises hstate hne]
    simp

/-- Whatever happens to a call after the authorisation, the attempts are routes of the call, tried in the
order of their numbers and each at most once. -/
theorem attempts_in_order {env : RouteEnv} {static : Option B2BRoute} {results : List Avp} {call : CallData}
    {routes : RouteList} {c c' : Hunt} (hstart : c.placed = []) (hnone : c.routes.list = [])
    (h : c.rDone env static results call = .ok c') (hroutes : routesOf env static results call = .ok routes)
    (ss : List HuntStep) : (Lib.run step c' ss).Tries routes.list ∧
      (Lib.run step c' ss).placed.Pairwise fun r r' => r.number < r'.number := by
  have htries := (rDone_tries hstart hnone h hroutes).run ss
  exact ⟨htries, routes.increasing.sublist ((List.sublist_append_left _ _).trans htries)⟩

theorem attempts_in_order_gateways : ∃ c routes, waiting.rDone plainEnv none gateways caller = .ok c ∧
    routesOf plainEnv none gateways caller = .ok routes ∧
      (Lib.run step c [.originateEnded (some 503)]).Tries routes.list := by
  have hdone : (waiting.rDone plainEnv none gateways caller).toOption.isSome = true := by decide +kernel
  have hroutes : (routesOf plainEnv none gateways caller).toOption.isSome = true := by decide +kernel
  cases hc : waiting.rDone plainEnv none gateways caller with
  | error e =>
    rw [hc] at hdone
    exact absurd hdone (by simp [Except.toOption])
  | ok c =>
    cases hr : routesOf plainEnv none gateways caller with
    | error e =>
      rw [hr] at hroutes
      exact absurd hroutes (by simp [Except.toOption])
    | ok routes => exact ⟨c, routes, rfl, rfl, (attempts_in_order rfl rfl hc hr _).1⟩

end Hunt

end SippyB2bua.B2B
