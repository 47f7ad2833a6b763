import SippyB2bua.B2B.Hunting
import SippyB2bua.Ua.Credit

/-!
# Prepaid calls

The time that a call may last: that of its route, or else that of the accept, and no more
than the configuration allows. It goes through the text of the route, `customize` and the
user agent of the originate leg, whose timer keeps it from the connection on.
-/

namespace SippyB2bua.B2B
open Lib (Text run Along)
open Lib.Text (splitAll split1)
open Ua (UA Mach Label UaState)

namespace B2BRoute

/-- A route as it was read, which has a credit time of its own or none at all. -/
def Declared (r : B2BRoute) : Prop :=
  r.crtSet = .flag true ∨ r.crtSet = .flag false ∧ r.creditTime = none

/-- The limit that the call of a route should get. -/
def limit (r : B2BRoute) (accept maxCreditTime : Option ℤ) : Option ℤ :=
  capped maxCreditTime (if r.crtSet = .flag true then r.creditTime else accept)

/-- The time of the accept is not what limits the call. -/
def Unneeded (r : B2BRoute) (accept maxCreditTime : Option ℤ) : Prop :=
  r.crtSet = .flag true ∨ accept = none ∨ ∃ m ∈ maxCreditTime, ∀ t ∈ accept, m ≤ t

/-- A user agent that `placeOriginate` may make for a route. -/
structure Makes (r : B2BRoute) (ua : UA) : Prop where
  unused : ua.Unused
  creditTime : ua.creditTime = r.creditTime.map (· * Ua.second)
  creditTimes : ua.creditTimes = []

/-- Once the call of a route is connected, it has a timer that ends it when its time is used up. -/
def Timed (r : B2BRoute) : Prop :=
  ∀ ua t ls, r.Makes ua → r.creditTime = some t → (∀ l ∈ ls, Label.resets l = false) →
    Along Mach.step (fun m l => m.keepsCredit l) (.start ua) ls →
    (run Mach.step (.start ua) ls).ua.state.any UaState.isConnected →
    (run Mach.step (.start ua) ls).ua.connectTs.isSome →
    ∃ T, Ua.ConnectedAt ua (t * Ua.second) ls T ∧
      (run Mach.step (.start ua) ls).ua.creditTimer.live = [T + t * Ua.second]

variable {r r' : B2BRoute} {env : RouteEnv}

/-- Whatever route comes out has been read only. -/
def Reads (x : Lazy B2BRoute) : Prop := ∀ r, x = .ok r → r.Declared

theorem Reads.ok (h : r.Declared) : Reads (.ok r) := by
  rintro _ ⟨⟩
  exact h

theorem Reads.map {α : Type} {x : Lazy α} {f : α → B2BRoute} (hf : ∀ a, (f a).Declared) : Reads (x.map f) := by
  cases x with
  | ok a => exact .ok (hf a)
  | error e => exact fun _ h => nomatch h

theorem Reads.ite {c : Prop} [Decidable c] {x y : Lazy B2BRoute} (hx : Reads x) (hy : Reads y) :
    Reads (if c then x else y) := by
  by_cases h : c
  · rw [if_pos h]
    exact hx
  · rw [if_neg h]
    exact hy

theorem Reads.bind {α : Type} {x : Lazy α} {f : α → Lazy B2BRoute} (hf : ∀ a, Reads (f a)) : Reads (x >>= f) := by
  intro r h
  obtain ⟨a, -, h⟩ := Lib.bind_ok.mp h
  exact hf a r h

theorem reads_parseAuth (hr : r.Declared) (v : Text) : Reads (r.parseAuth v) := by
  unfold parseAuth
  apply Reads.ite
  · exact .ok hr
  · split
    · exact fun _ h => nomatch h
    · exact .ok hr

theorem reads_parseParam (hr : r.Declared) (a v : Text) : Reads (r.parseParam env a v) := by
  have hsame (r' : B2BRoute) (hset : r'.crtSet = r.crtSet) (htime : r'.creditTime = r.creditTime) :
      r'.Declared := by
    unfold Declared
    rw [hset, htime]
    exact hr
  unfold parseParam
  -- Only the first of the parameters is about the credit time.
  refine .ite (.map fun t => .inl rfl) <| .ite (.map fun t => hsame _ rfl rfl) ?_
  refine .ite (.map fun scodes => hsame _ rfl rfl) <| .ite (.map fun t => hsame _ rfl rfl) ?_
  refine .ite (.map fun t => hsame _ rfl rfl) <| .ite (.ok (hsame _ rfl rfl)) ?_
  refine .ite (reads_parseAuth hr v) <| .ite (.ok (hsame _ rfl rfl)) ?_
  refine .ite (.ok (hsame _ rfl rfl)) <| .ite (.map fun h => hsame _ rfl rfl) ?_
  refine .ite (.map fun n => hsame _ rfl rfl) <| .ite (.map fun addr => hsame _ rfl rfl) ?_
  exact .ite (.map fun _ => hsame _ rfl rfl) (.ok (hsame _ rfl rfl))

theorem foldlM_declared {pairs : List (Text × Text)} (hr : r.Declared)
    (h : pairs.foldlM (fun r p => parseParam env r p.1 p.2) r = .ok r') : r'.Declared := by
  induction pairs generalizing r with
  | nil =>
    cases h
    exact hr
  | cons p pairs ih =>
    rw [List.foldlM_cons] at h
    obtain ⟨r₁, hp, h⟩ := Lib.bind_ok.mp h
    exact ih (reads_parseParam hr p.1 p.2 r₁ hp) h

theorem reads_parseDestination (dst : Text) : Reads (parseDestination env dst) := by
  unfold parseDestination
  dsimp only
  split
  all_goals
    refine .bind fun port => ?_
    exact .ite (.bind fun ainfo => .ok (.inr ⟨rfl, rfl⟩)) (.bind fun ainfo => .ok (.inr ⟨rfl, rfl⟩))

theorem parse_declared {sroute : Text} (h : parse env sroute = .ok r) : r.Declared := by
  obtain ⟨r₀, hdst, h⟩ := Lib.bind_ok.mp h
  obtain ⟨pairs, -, h⟩ := Lib.bind_ok.mp h
  exact foldlM_declared (reads_parseDestination _ _ hdst) h

theorem groupTimeout_creditTime {rnum : ℕ} (h : r.groupTimeout rnum = .ok r') : r'.creditTime = r.creditTime := by
  unfold groupTimeout at h
  split at h
  · split at h
    · cases h
    · obtain ⟨timeout, -, h⟩ := Lib.bind_ok.mp h
      obtain ⟨skip, -, h⟩ := Lib.bind_ok.mp h
      cases h
      rfl
  · cases h
  · cases h
    rfl

/-- `customize` stores the time of the accept in the wrong attribute. -/
theorem customize_creditTime {rnum : ℕ} {cld cli : Option Text} {creditTime m : Option ℤ}
    {hs : List Wire.SipHeader} (h : r.customize rnum cld cli creditTime hs m = .ok r') :
    r'.creditTime = capped m r.creditTime := by
  obtain ⟨r'', hgroup, h⟩ := Lib.bind_ok.mp h
  have htime := groupTimeout_creditTime hgroup
  cases h
  exact congrArg (capped m) htime

theorem timed (r : B2BRoute) : r.Timed := by
  intro ua t ls hmakes ht hresets hls hconn hsince
  have hlimit : ua.creditTime = some (t * Ua.second) := by
    rw [hmakes.creditTime, ht]
    rfl
  exact Ua.paid_until hmakes.unused hmakes.creditTimes hlimit hresets hls hconn hsince

/-- Without the time of the accept a route gets its limit exactly if that is not what limits the call. -/
theorem capped_eq_limit (hr : r.Declared) {accept m : Option ℤ} :
    capped m r.creditTime = r.limit accept m ↔ r.Unneeded accept m := by
  unfold limit Unneeded
  by_cases hset : r.crtSet = .flag true
  · simp [hset]
  · have hnone : r.creditTime = none := (hr.resolve_left hset).2
    rw [if_neg hset, hnone]
    cases m with
    | none => cases accept <;> simp [capped, hset]
    | some m => cases accept with
      | none => simp [capped, hset]
      | some t =>
        by_cases hle : t > m
        · simp only [capped, if_pos hle, hset, false_or, true_iff]
          exact .inr ⟨m, rfl, fun t' ht' => by cases ht'; omega⟩
        · simp only [capped, if_neg hle, hset, false_or, Option.some.injEq, reduceCtorEq, Option.mem_def,
            exists_eq_left', forall_eq']
          omega

end B2BRoute

/-- The routes as they were read or copied, before they are numbered. -/
def givenRoutes (env : RouteEnv) (static : Option B2BRoute) (results : List Avp) : Lazy (List B2BRoute) :=
  match static with
  | some r => .ok [r]
  | none => (routingOf results).mapM (B2BRoute.parse env)

section Given
variable {call : CallData} {creditTime : Option ℤ} {rnum : ℕ} {r : B2BRoute} {rs rs' : List B2BRoute}
variable {env : RouteEnv} {static : Option B2BRoute} {results : List Avp}

/-- What a route of the call comes from; `rnum` routes stand before the list. -/
structure ComesFrom (rs : List B2BRoute) (rnum : ℕ) (maxCreditTime : Option ℤ) (r o : B2BRoute) : Prop where
  given : rs[r.number - rnum - 1]? = some o
  above : rnum < r.number
  usable : r.usable = true
  creditTime : r.creditTime = B2BRoute.capped maxCreditTime o.creditTime

theorem customizeAll_comesFrom (h : customizeAll call creditTime rnum rs = .ok rs') (hr : r ∈ rs') :
    ∃ o, ComesFrom rs rnum call.maxCreditTime r o := by
  induction rs generalizing rnum rs' with
  | nil =>
    cases h
    cases hr
  | cons o rs ih =>
    obtain ⟨o', ho, h⟩ := Lib.bind_ok.mp h
    obtain ⟨rest, hrest, h⟩ := Lib.bind_ok.mp h
    have hnumber := customize_number ho
    have hbehind (hmem : r ∈ rest) : ∃ o', ComesFrom (o :: rs) rnum call.maxCreditTime r o' := by
      obtain ⟨o', hgiven, habove, husable, htime⟩ := ih hrest hmem
      have hindex : r.number - rnum - 1 = (r.number - (rnum + 1) - 1) + 1 := by omega
      refine ⟨o', ?_, by omega, husable, htime⟩
      rw [hindex, List.getElem?_cons_succ]
      exact hgiven
    cases h
    split at hr
    · rename_i husable
      rcases List.mem_cons.mp hr with rfl | hmem
      · refine ⟨o, ?_, by omega, husable, B2BRoute.customize_creditTime ho⟩
        have hindex : r.number - rnum - 1 = 0 := by omega
        rw [hindex]
        rfl
      · exact hbehind hmem
    · exact hbehind hr

theorem mapM_declared {texts : List Text} (h : texts.mapM (B2BRoute.parse env) = .ok rs) :
    ∀ o ∈ rs, o.Declared := by
  induction texts generalizing rs with
  | nil =>
    cases h
    exact fun o ho => absurd ho List.not_mem_nil
  | cons t texts ih =>
    rw [List.mapM_cons] at h
    obtain ⟨o, ho, h⟩ := Lib.bind_ok.mp h
    obtain ⟨rest, hrest, h⟩ := Lib.bind_ok.mp h
    cases h
    rw [List.forall_mem_cons]
    exact ⟨B2BRoute.parse_declared ho, ih hrest⟩

theorem givenRoutes_declared (hstatic : ∀ s ∈ static, s.Declared) (h : givenRoutes env static results = .ok rs) :
    ∀ o ∈ rs, o.Declared := by
  cases static with
  | some s =>
    cases h
    rw [List.forall_mem_singleton]
    exact hstatic s rfl
  | none => exact mapM_declared h

theorem routesOf_comesFrom {routes : RouteList} (h : routesOf env static results call = .ok routes) :
    ∃ given, givenRoutes env static results = .ok given ∧
      ∀ r ∈ routes.list, ∃ o, ComesFrom given 0 call.maxCreditTime r o := by
  obtain ⟨accept, -, h⟩ := Lib.bind_ok.mp h
  cases static with
  | some s =>
    refine ⟨[s], rfl, fun r hr => ?_⟩
    obtain ⟨given, hgiven, h⟩ := Lib.bind_ok.mp h
    cases hgiven
    beta_reduce at h
    split at h
    · cases h
    · rename_i rs hrs
      cases h
      have hfrom := customizeAll_comesFrom hrs hr
      exact hfrom
  | none =>
    obtain ⟨given, hgiven, h⟩ := Lib.bind_ok.mp h
    refine ⟨given, hgiven, fun r hr => ?_⟩
    beta_reduce at h
    split at h
    · cases h
    · rename_i rs hrs
      cases h
      have hfrom := customizeAll_comesFrom hrs hr
      exact hfrom

end Given

namespace Hunt

/-- A route that is tried in a run is one of the routes of the call. -/
theorem placed_comesFrom {env : RouteEnv} {static : Option B2BRoute} {results : List Avp} {call : CallData}
    {c c' : Hunt} (hstart : c.placed = []) (hnone : c.routes.list = [])
    (h : c.rDone env static results call = .ok c') {ss : List HuntStep} {r : B2BRoute}
    (hr : r ∈ (run step c' ss).placed) :
    ∃ given o, givenRoutes env static results = .ok given ∧ ComesFrom given 0 call.maxCreditTime r o := by
  cases hroutes : routesOf env static results call with
  | ok routes =>
    have hmem : r ∈ routes.list :=
      ((rDone_tries hstart hnone h hroutes).run ss).subset (List.mem_append_left _ hr)
    obtain ⟨given, hgiven, hall⟩ := routesOf_comesFrom hroutes
    obtain ⟨o, ho⟩ := hall r hmem
    exact ⟨given, o, hgiven, ho⟩
  | error e =>
    have hfail : ∃ code reason, c' = c.fail code reason := by
      obtain ⟨accept, -, h⟩ := Lib.bind_ok.mp h
      split at h
      · cases h
        exact ⟨_, _, rfl⟩
      · rw [hroutes] at h
        cases h
    obtain ⟨code, reason, rfl⟩ := hfail
    have htries : (c.fail code reason).Tries [] := by
      unfold Tries
      rw [fail_placed, hstart]
      exact hnone.symm ▸ List.Sublist.refl _
    have hmem := (htries.run ss).subset (List.mem_append_left _ hr)
    cases hmem

/-- The limit of every attempt of a call, and the timer that keeps it in the user agent of the attempt. -/
theorem prepaid_limit {env : RouteEnv} {static : Option B2BRoute} {results : List Avp} {call : CallData}
    {c c' : Hunt} (hstatic : ∀ s ∈ static, ∃ env' text, B2BRoute.parse env' text = .ok s)
    (hstart : c.placed = []) (hnone : c.routes.list = []) (h : c.rDone env static results call = .ok c')
    (ss : List HuntStep) : ∃ accept, creditTimeOf results = .ok accept ∧
      ∀ r ∈ (run step c' ss).placed,
        (∃ given o, givenRoutes env static results = .ok given ∧ given[r.number - 1]? = some o ∧
          (r.creditTime = o.limit accept call.maxCreditTime ↔ o.Unneeded accept call.maxCreditTime)) ∧
        r.creditTime ≠ some 0 ∧ r.Timed := by
  obtain ⟨accept, haccept, -⟩ := Lib.bind_ok.mp h
  refine ⟨accept, haccept, fun r hr => ?_⟩
  obtain ⟨given, o, hgiven, ho⟩ := placed_comesFrom hstart hnone h hr
  have hdeclared : o.Declared := by
    refine givenRoutes_declared (fun s hs => ?_) hgiven o (List.mem_of_getElem? ho.given)
    obtain ⟨env', text, hparse⟩ := hstatic s hs
    exact B2BRoute.parse_declared hparse
  refine ⟨⟨given, o, hgiven, by simpa using ho.given, ?_⟩, ?_, r.timed⟩
  · rw [ho.creditTime]
    exact B2BRoute.capped_eq_limit hdeclared
  · have husable := ho.usable
    simp only [B2BRoute.usable, decide_eq_true_eq] at husable
    exact husable.1

/-- The account has an hour, and the route of the call a minute or no limit of its own. -/
def hourAccept (params : String) : List Avp :=
  [("h323-credit-time".toList, "3600".toList),
    ("h323-ivr-in".toList, ("Routing:100@gw1.example.com" ++ params).toList)]

/-- The times of the attempts that are made at once. -/
def firstLimits (params : String) : Option (List (Option ℤ)) :=
  (waiting.rDone plainEnv none (hourAccept params) caller).toOption.map fun c => c.placed.map B2BRoute.creditTime

theorem firstLimits_eq {params : String} {t : Option ℤ} (h : firstLimits params = some [t]) :
    ∃ c r, waiting.rDone plainEnv none (hourAccept params) caller = .ok c ∧ r ∈ c.placed ∧ r.creditTime = t := by
  unfold firstLimits at h
  cases hdone : waiting.rDone plainEnv none (hourAccept params) caller with
  | error e =>
    rw [hdone] at h
    cases h
  | ok c =>
    rw [hdone] at h
    obtain ⟨r, hplaced, ht⟩ := List.map_eq_singleton_iff.mp (Option.some.inj h)
    exact ⟨c, r, rfl, by simp [hplaced], ht⟩

theorem prepaid_limit_minute : ∃ c r, waiting.rDone plainEnv none (hourAccept ";credit-time=60") caller = .ok c ∧
    r ∈ c.placed ∧ r.creditTime = some 60 ∧
      ∃ T, (Ua.creditedCall (.body (Ua.sampleBody ['z']))).ua.creditTimer.live = [T + 60 * Ua.second] := by
  obtain ⟨c, r, hdone, hr, ht⟩ := firstLimits_eq (show firstLimits ";credit-time=60" = some [some 60] by decide +kernel)
  obtain ⟨accept, -, hall⟩ := prepaid_limit (by simp) rfl rfl hdone []
  have hmakes : r.Makes Ua.creditedUA := ⟨Ua.creditedUA_unused, by rw [ht]; rfl, rfl⟩
  obtain ⟨T, -, hlive⟩ := (hall r hr).2.2 Ua.creditedUA 60
    (Ua.billedCall.take 2 ++ [Ua.creditedAnswer (.body (Ua.sampleBody ['z']))]) hmakes ht (by decide) (by decide)
    (by decide) (by decide)
  exact ⟨c, r, hdone, hr, ht, T, hlive⟩

/-- The route says nothing of its time: the call has no limit at all, although the account has an hour. -/
theorem accept_limit_lost : ∃ c r, waiting.rDone plainEnv none (hourAccept "") caller = .ok c ∧ r ∈ c.placed ∧
    creditTimeOf (hourAccept "") = .ok (some 3600) ∧ r.creditTime = none := by
  obtain ⟨c, r, hdone, hr, ht⟩ := firstLimits_eq (show firstLimits "" = some [none] by decide +kernel)
  exact ⟨c, r, hdone, hr, by decide +kernel, ht⟩

end Hunt

end SippyB2bua.B2B
