import SippyB2bua.Ua.Machine

/-!
# Challenges to a keep-alive

A connected user agent sends its INVITE again from time to time. A challenge to the INVITE
of a call goes to `processChallenge`, a challenge to a keep-alive to `keepAliveResp`, which
answers it in a way of its own. The two are compared from the same state.
-/

namespace SippyB2bua.Ua.UaStateConnected
open Lib (Text)

def kaChallenges (resp : Response) : List (Lazy Challenge) :=
  if resp.scode = 401 then resp.wwwAuthenticate
  else if resp.scode = 407 then resp.proxyAuthenticate
  else []

def credentialsHf (resp : Response) : Text :=
  if resp.scode = 401 then hfAuthorization else hfProxyAuthorization

/-- What `processChallenge` makes of the response to `sent`. -/
def processed (resp : Response) (sent : SentRequest) : M Bool :=
  UA.processChallenge (kaChallenges resp) resp.cseq (credentialsHf resp) sent []

/-- The call would be tried again with credentials. -/
def Retried (resp : Response) (sent : SentRequest) (w : World) : Prop :=
  ∃ w', processed resp sent w = .ok true w'

def plainFailure (resp : Response) : Response := { resp with scode := 500 }

/-- The keep-alive is tried again where the call would be, with the same request; anywhere
else it returns as after any other final response. -/
structure AgreesWithCall (n : ℕ) (resp : Response) (sent : SentRequest) (w : World) : Prop where
  retried : ∀ w', processed resp sent w = .ok true w' →
    ∃ w'', keepAliveResp n resp w = .ok .none w'' ∧ w''.log = w'.log
  continued : ¬ Retried resp sent w → ∃ done w', keepAliveResp n resp w = .ok done w' ∧
    keepAliveResp n (plainFailure resp) w = .ok done w'

section KeepAlive
variable {n : ℕ} {resp : Response} {sent : SentRequest} {w : World}

theorem kaChallenge_eq (resp : Response) : kaChallenge resp = (kaChallenges resp).head? := by
  unfold kaChallenge kaChallenges
  split
  · rfl
  · split <;> rfl

def goesOn (w : World) : World := { w with ua := { w.ua with
  kaTr := false, keepalives := w.ua.keepalives + 1, kaTimers := w.ua.stateNo :: w.ua.kaTimers } }

theorem keepAliveResp_goesOn (hcur : current w.ua n)
    (hno : kaChallenge resp = none ∨ w.ua.triedauth) (hfinal : ¬ resp.scode < 200)
    (hcode : ¬ (resp.scode = 408 ∨ resp.scode = 481 ∨ resp.scode = 486)) :
    keepAliveResp n resp w = .ok .none (goesOn w) := by
  apply Lib.eq_ok_of_wp
  unfold keepAliveResp
  rw [Lib.wp_bind, wp_getUA, Lib.wp_ite]
  refine ⟨fun h => absurd hcur (by simp [h]), fun _ => ?_⟩
  split
  · rename_i challenge hchallenge htried
    rcases hno with hno | hno
    · exact absurd hchallenge (by simp [hno])
    · exact absurd htried (by simp [hno])
  · rw [if_neg hfinal, Lib.wp_bind, wp_upd, if_neg hcode]
    exact ⟨rfl, rfl⟩

/-- The challenge reaches `genRequest` without the pair that it takes apart. -/
theorem keepAliveResp_raises (hcur : current w.ua n)
    (hcred : w.ua.username.isSome ∧ w.ua.password.isSome) (htried : w.ua.triedauth = false)
    (hsome : kaChallenge resp ≠ none) : ∃ e w', keepAliveResp n resp w = .error e w' := by
  obtain ⟨challenge, hchallenge⟩ := Option.ne_none_iff_exists'.mp hsome
  have hauth : (w.ua.username.isSome && w.ua.password.isSome && !w.ua.triedauth) = true := by
    simp [hcred, htried]
  have hraises : Lib.wp (keepAliveResp n resp) (fun _ _ => False) (fun _ _ => True) w := by
    unfold keepAliveResp
    rw [Lib.wp_bind, wp_getUA, Lib.wp_ite]
    refine ⟨fun h => absurd hcur (by simp [h]), fun _ => ?_⟩
    rw [hchallenge, hauth]
    dsimp only
    rw [Lib.wp_bind, keepAliveAuth, Lib.wp_bind, wp_ofLazy]
    cases challenge with
    | error e => trivial
    | ok c =>
      dsimp only
      rw [Lib.wp_bind, wp_getUA, Lib.wp_bind]
      trivial
  exact Lib.raises_of_wp hraises

theorem processed_sends {w' : World} (h : processed resp sent w = .ok true w') :
    w'.log.length = w.log.length + 1 := by
  have hsends : Lib.wp (processed resp sent) (fun b w' => b = true → w'.log.length = w.log.length + 1)
      (fun _ _ => True) w := by
    unfold processed UA.processChallenge
    rw [Lib.wp_bind, wp_getUA, Lib.wp_ite]
    refine ⟨fun _ h => absurd h (by simp), fun _ => ?_⟩
    rw [Lib.wp_bind, wp_ofLazy]
    split
    · rename_i found _
      split
      · exact fun h => absurd h (by simp)
      · rename_i c _
        rw [Lib.wp_bind, genRequest, Lib.wp_bind, wp_getUA]
        simp only [Lib.wp_bind, Lib.wp_pure, wp_upd, newUacTransaction, newTransaction, wp_call]
        split
        · trivial
        · intro _
          simp
    · trivial
  unfold Lib.wp at hsends
  rw [h] at hsends
  exact hsends rfl

theorem not_retried (hno : kaChallenge resp = none) : ¬ Retried resp sent w := by
  rintro ⟨w', h⟩
  have hnil : kaChallenges resp = [] := by
    rwa [kaChallenge_eq, List.head?_eq_none_iff] at hno
  have hfalse : Lib.wp (processed resp sent) (fun b _ => b = false) (fun _ _ => False) w := by
    unfold processed UA.processChallenge
    rw [hnil, Lib.wp_bind, wp_getUA, Lib.wp_ite]
    exact ⟨fun _ => rfl, fun _ => rfl⟩
  unfold Lib.wp at hfalse
  rw [h] at hfalse
  exact absurd hfalse (by simp)

/-- A keep-alive is treated like the call exactly where the response has no challenge; a
challenge that was tried before, which no keep-alive gets to, would have to be one that the
call does not answer either. -/
theorem keepAlive_agrees (hcur : current w.ua n)
    (hcred : w.ua.username.isSome ∧ w.ua.password.isSome)
    (hcode : resp.scode = 401 ∨ resp.scode = 407) :
    AgreesWithCall n resp sent w ↔
      kaChallenge resp = none ∨ (w.ua.triedauth = true ∧ ¬ Retried resp sent w) := by
  have hfinal : ¬ resp.scode < 200 := by omega
  have hlive : ¬ (resp.scode = 408 ∨ resp.scode = 481 ∨ resp.scode = 486) := by omega
  have hplain : keepAliveResp n (plainFailure resp) w = .ok .none (goesOn w) := by
    apply keepAliveResp_goesOn hcur (.inl _) <;> simp [plainFailure, kaChallenge]
  constructor
  · intro h
    by_cases hsome : kaChallenge resp = none
    · exact .inl hsome
    · cases htried : w.ua.triedauth with
      | false =>
        obtain ⟨e, w', hraise⟩ := keepAliveResp_raises hcur hcred htried hsome
        by_cases hretried : Retried resp sent w
        · obtain ⟨w₁, hprocessed⟩ := hretried
          obtain ⟨w₂, hok, -⟩ := h.retried w₁ hprocessed
          rw [hraise] at hok
          exact absurd hok (by simp)
        · obtain ⟨done, w₂, hok, -⟩ := h.continued hretried
          rw [hraise] at hok
          exact absurd hok (by simp)
      | true =>
        refine .inr ⟨rfl, ?_⟩
        rintro ⟨w₁, hprocessed⟩
        obtain ⟨w₂, hok, hlog⟩ := h.retried w₁ hprocessed
        rw [keepAliveResp_goesOn hcur (.inr htried) hfinal hlive] at hok
        cases hok
        have hlength := processed_sends hprocessed
        rw [← hlog] at hlength
        simp [goesOn] at hlength
  · intro h
    have hno : ¬ Retried resp sent w := by
      rcases h with hnone | ⟨-, hno⟩
      · exact not_retried hnone
      · exact hno
    have hgoes : keepAliveResp n resp w = .ok .none (goesOn w) :=
      keepAliveResp_goesOn hcur (h.imp_right And.left) hfinal hlive
    constructor
    · intro w' hprocessed
      exact absurd ⟨w', hprocessed⟩ hno
    · intro _
      exact ⟨.none, goesOn w, hgoes, hplain⟩

end KeepAlive

/-- A call with credentials whose keep-alive is under way. -/
def keptCall : World where
  ua := { UA.new with
    state := some .connected, stateNo := 4, username := some ['n'], password := some ['p'], kaTr := true }
  seq := 0
  io := .calm
  log := []

def keptInvite : SentRequest where
  method := .invite
  ruri := none
  routes := []
  target := none
  cseq := 2
  maxForwards := none
  headers := []
  body := none

theorem keepAlive_agrees_unchallenged :
    AgreesWithCall 4 (.bare 401 .invite 2) keptInvite keptCall ↔
      kaChallenge (.bare 401 .invite 2) = none ∨
        (keptCall.ua.triedauth = true ∧ ¬ Retried (.bare 401 .invite 2) keptInvite keptCall) :=
  keepAlive_agrees (by decide) (by decide) (by decide)

def keepAlive401 : Response :=
  { Response.bare 401 .invite 2 with wwwAuthenticate := [.ok ⟨false, none, true, ['c']⟩] }

/-- The call would be tried again, the keep-alive raises. -/
theorem keepAlive_challenge_raises : Retried keepAlive401 keptInvite keptCall ∧
    ¬ AgreesWithCall 4 keepAlive401 keptInvite keptCall := by
  have hretried : Retried keepAlive401 keptInvite keptCall :=
    Exists.intro _ (Eq.refl (processed keepAlive401 keptInvite keptCall))
  have hraises : ∃ e w', keepAliveResp 4 keepAlive401 keptCall = .error e w' :=
    keepAliveResp_raises (by decide) (by decide) (by decide) (by decide)
  obtain ⟨e, w', hraise⟩ := hraises
  refine ⟨hretried, fun h => ?_⟩
  obtain ⟨w₁, hprocessed⟩ := hretried
  obtain ⟨w₂, hok, -⟩ := h.retried w₁ hprocessed
  rw [hraise] at hok
  exact absurd hok (by simp)

end SippyB2bua.Ua.UaStateConnected
