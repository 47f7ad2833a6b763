import SippyB2bua.Ua.Reinvite
import SippyB2bua.Ua.Bye

/-!
# The way into Updating

A connected user agent hands a re-INVITE on and waits in Updating for the answer to it. Nothing else
leads there.
-/

namespace SippyB2bua.Ua
open Lib (Text wp wp_mono)

/-- A connected call asks for Updating when it gets the re-INVITE. -/
def World.offers (w : World) (req : Request) : Bool :=
  !w.io.raises 0 && (w.offered req).isSome && !w.ua.repeated req && !(w.ua.onRemote && w.io.declines)

def World.updates (w : World) (req : Request) : Bool := w.offers req && !(w.later 1).leaveRaises

/-- The step makes a connected user agent wait for the answer to a re-INVITE. -/
def Mach.updates (m : Mach) : Label → Bool
  | .input (.request req) io => m.idle && m.ua.state = some .connected && req.method = .invite &&
      !decide (m.ua.stale req) && (m.world io).updates req
  | _ => false

section Updating
variable {w : World} {req : Request}

theorem changeState_updating :
    wp (changeState ⟨.uasUpdating, none⟩)
      (fun _ w' => w'.ua.state = some .uasUpdating ∧ w.leaveRaises = false)
      (fun _ w' => w'.ua.state = w.ua.state ∧ w.leaveRaises = true) w := by
  unfold changeState
  rw [Lib.wp_bind]
  exact wp_mono leaveState_leg (fun _ _ h => ⟨rfl, h.1⟩) fun _ _ h => ⟨h.2.1, h.1⟩

theorem queueRemote_declines {b : Body} {e : CCEvent} :
    wp (queueRemote (some b) e)
      (fun _ w' => w'.ua.state = w.ua.state ∧ w'.leaveRaises = w.leaveRaises ∧ (w.ua.onRemote && w.io.declines) = false)
      (fun _ w' => w'.ua.state = w.ua.state ∧ (w.ua.onRemote && w.io.declines) = true) w := by
  unfold queueRemote remoteBody
  simp only [Lib.wp_bind, wp_getUA, Lib.wp_ite]
  refine ⟨fun hon => ?_, fun hon => ⟨rfl, rfl, by simp [hon]⟩⟩
  rw [wp_onSdpChange, hon]
  split
  · rename_i h
    exact ⟨rfl, rfl, by rw [Io.declines, h]; rfl⟩
  · rename_i h
    exact ⟨rfl, by rw [Io.declines, h]; rfl⟩
  · rename_i h
    exact ⟨rfl, rfl, by rw [Io.declines, h]; rfl⟩

theorem reinviteBody_offered :
    wp (UaStateConnected.reinviteBody req) (fun b w' => w' = w ∧ w.offered req = some b)
      (fun _ w' => w' = w ∧ w.offered req = none) w := by
  unfold UaStateConnected.reinviteBody World.offered
  cases req.body with
  | some b => exact ⟨rfl, rfl⟩
  | none =>
    dsimp only
    rw [Lib.wp_bind, wp_getUA]
    split
    · rename_i h
      exact ⟨rfl, by simp [h]⟩
    · rename_i h
      rw [Lib.wp_bind, Lib.wp_get, wp_ofLazy]
      have hsome : w.ua.rSDP.isSome := by simpa [Option.isSome_iff_ne_none] using h
      cases hheld : w.io.held with
      | ok b => exact ⟨rfl, by simp [hsome, Except.toOption]⟩
      | error e => exact ⟨rfl, by simp [Except.toOption]⟩

theorem sendUasResponse_state {code : Code} {reason : Text} {body : Option Body} {hs : List Header} :
    wp (sendUasResponse code reason body hs) (fun _ w' => w'.ua.state = w.ua.state)
      (fun _ w' => w'.ua.state = w.ua.state) w := by
  rw [wp_sendUasResponse]
  split
  · rfl
  · split
    · rfl
    · rw [wp_call]
      split
      · rfl
      · split <;> rfl

/-- What the handler of a re-INVITE comes to. -/
structure Offers (w : World) (req : Request) (ret : Ret) (w' : World) : Prop where
  state : w'.ua.state = w.ua.state
  next : w.offers req = true → ret = .change ⟨.uasUpdating, none⟩ ∧ w'.leaveRaises = (w.later 1).leaveRaises
  stays : w.offers req = false → ∀ c, ret ≠ .change c

theorem recvRequestInvite_offers :
    wp (UaStateConnected.recvRequestInvite req) (Offers w req)
      (fun _ w' => w'.ua.state = w.ua.state ∧ w.offers req = false) w := by
  unfold UaStateConnected.recvRequestInvite
  rw [Lib.wp_bind, wp_upd, Lib.wp_bind, wp_call]
  have hraises : w.io.raises 0 = w.io.faults.headD false := rfl
  split
  · rename_i hcall
    replace hcall : w.io.raises 0 = true := hcall
    exact ⟨rfl, by simp [World.offers, hcall]⟩
  · rename_i hcall
    replace hcall : w.io.raises 0 = false := by simpa [hraises] using hcall
    rw [Lib.wp_bind]
    refine wp_mono reinviteBody_offered ?_ ?_
    · rintro b _ ⟨rfl, hb⟩
      have hb : w.offered req = some b := hb
      have hsame : (req.body.isSome ∧ Body.str w.ua.rSDP = b.content) ↔ w.ua.repeated req = true := by
        unfold UA.repeated
        unfold World.offered at hb
        cases hbody : req.body with
        | none => simp
        | some b' =>
          obtain rfl : b' = b := by simpa [hbody] using hb
          simp
      rw [Lib.wp_bind, wp_getUA, Lib.wp_ite]
      refine ⟨fun hold => ?_, fun hnew => ?_⟩
      · have hno : w.offers req = false := by simp [World.offers, hsame.mp hold]
        rw [Lib.wp_bind]
        exact wp_mono sendUasResponse_state (fun _ _ h => ⟨h, by simp [hno], by simp⟩) fun _ _ h => ⟨h, hno⟩
      · have hnew : w.ua.repeated req = false := Bool.eq_false_of_not_eq_true fun h => hnew (hsame.mpr h)
        have hoffers : w.offers req = !(w.ua.onRemote && w.io.declines) := by
          simp [World.offers, hcall, hb, hnew]
        simp only [Lib.wp_bind, wp_newEvent]
        refine wp_mono queueRemote_declines ?_ ?_
        · rintro _ w' ⟨hstate, hleaves, htaken⟩
          have htaken : (w.ua.onRemote && w.io.declines) = false := htaken
          refine ⟨hstate, fun _ => ⟨rfl, hleaves.trans ?_⟩, fun h => by simp [hoffers, htaken] at h⟩
          simp [World.leaveRaises, World.later, Io.raises]
        · rintro _ w' ⟨hstate, hdeclines⟩
          have hdeclines : (w.ua.onRemote && w.io.declines) = true := hdeclines
          exact ⟨hstate, by rw [hoffers, hdeclines]; rfl⟩
    · rintro _ _ ⟨rfl, hb⟩
      have hb : w.offered req = none := hb
      exact ⟨rfl, by simp [World.offers, hb]⟩

theorem recvRequest_updates (hs : w.ua.state = some .connected) (hm : req.method = .invite)
    (hnew : ¬ w.ua.stale req) :
    wp (UA.recvRequest req) (fun _ w' => w'.ua.state = some .uasUpdating ↔ w.updates req)
      (fun _ w' => w'.ua.state = some .uasUpdating ↔ w.updates req) w := by
  have hsame {w' : World} (h : w'.ua.state = some .connected) (hno : w.updates req = false) :
      w'.ua.state = some .uasUpdating ↔ w.updates req := by simp [h, hno]
  have hhandler : stateRecvRequest .connected req = UaStateConnected.recvRequestInvite req := by
    simp only [stateRecvRequest, UaStateConnected.recvRequest, hm]
  let w₀ : World := { w with ua := { w.ua with rCSeq := some req.cseq } }
  have hwake : w₀.ua.state ≠ none := by simp [w₀, hs]
  have hoffers : w₀.offers req = w.offers req := rfl
  unfold UA.recvRequest UA.wake
  rw [Lib.wp_bind, wp_getUA, Lib.wp_ite]
  refine ⟨fun hold => absurd hold hnew, fun _ => ?_⟩
  simp only [Lib.wp_bind, wp_upd, wp_getUA, Lib.wp_ite]
  refine ⟨fun h => absurd h.1 hwake, fun _ => ?_⟩
  rw [Lib.wp_pure]
  split
  · rename_i hnone
    exact absurd hnone hwake
  · rename_i s hs'
    obtain rfl : s = .connected := Option.some.inj (hs'.symm.trans hs)
    rw [hhandler, Lib.wp_bind]
    refine wp_mono (recvRequestInvite_offers (w := w₀)) (fun ret w' h => ?_) fun _ w' h =>
      hsame (h.1.trans hs) (by rw [World.updates, ← hoffers, h.2]; rfl)
    have hstate : w'.ua.state = some .connected := h.state.trans hs
    cases hno : w.offers req with
    | true =>
      obtain ⟨rfl, hleaves⟩ := h.next (hoffers.trans hno)
      replace hleaves : w'.leaveRaises = (w.later 1).leaveRaises := hleaves
      have hupdates : w.updates req = !w'.leaveRaises := by rw [World.updates, hno, hleaves]; rfl
      unfold finish
      rw [Lib.wp_bind]
      refine wp_mono (changeState_updating (w := w')) (fun _ w'' h => ?_) fun _ w'' h => ?_
      · exact iff_of_true h.1 (by rw [hupdates, h.2]; rfl)
      · exact hsame (h.1.trans hstate) (by rw [hupdates, h.2]; rfl)
    | false =>
      have hupdates : w.updates req = false := by rw [World.updates, hno]; rfl
      have hstays := h.stays (hoffers.trans hno)
      cases ret with
      | change c => exact absurd rfl (hstays c)
      | none => exact hsame hstate hupdates
      | inject e => exact hsame hstate hupdates
      | code _ => exact hsame hstate hupdates
      | scode _ => exact hsame hstate hupdates

theorem Tick.updating {s : UaState} {d : Dispatch} {μ : Meter} (h : Tick w s d (.to .uasUpdating) μ) :
    s = .connected ∧ ∃ req, d = .request req ∧ req.method = .invite := by
  cases h with
  | updates hm => exact ⟨rfl, _, rfl, hm⟩
  | idle hr | acks hr | waits hr | accepts hr | sets hr => simp [Res.keeps] at hr
  | refuses _ _ h => simp at h
  | provisional _ _ h => simp [Res.keeps] at h

theorem Shift.updating {s : Option UaState} {s' : UaState} {ν ν' : Meter} {st : Option UaState}
    (h : Shift w s ν s' st ν') (hst : st = some .uasUpdating) : s' = .uasUpdating ∨ s = some .uasUpdating := by
  cases h with
  | done => exact .inl (Option.some.inj hst)
  | stuck => exact .inr hst
  | unburied => exact .inr hst

theorem Given.of_request {i : Input} {μ : Meter} (h : Given w i (.request req) μ) :
    i = .request req ∧ ¬ w.ua.stale req := by
  cases h with
  | request hnew => exact ⟨rfl, hnew⟩

/-- Only a re-INVITE leads there. -/
theorem Turn.updating {i : Input} {st : Option UaState} {μ : Meter} (h : Turn w i st μ)
    (hst : st = some .uasUpdating) (hs : w.ua.state ≠ some .uasUpdating) :
    w.ua.state = some .connected ∧ ∃ req, i = .request req ∧ req.method = .invite ∧ ¬ w.ua.stale req := by
  have hreceiver {s : UaState} {d : Dispatch} (hr : s ∈ w.ua.receiver d) (h : s = .uasUpdating) : False := by
    rcases receiver_eq hr with h' | ⟨-, h'⟩
    · exact hs (h ▸ h')
    · simp [h] at h'
  cases h with
  | rests | probes | resets | refers => exact absurd hst hs
  | handled _ hr => exact (hreceiver hr (Option.some.inj hst)).elim
  | shifted hg hr _ ht hshift =>
    rcases hshift.updating hst with rfl | h
    · obtain ⟨rfl, req, rfl, hm⟩ := ht.updating
      rcases receiver_eq hr with h | ⟨-, h⟩
      · obtain ⟨rfl, hnew⟩ := hg.of_request
        exact ⟨h, req, rfl, hm, hnew⟩
      · simp at h
    · exact (hreceiver hr (Option.some.inj h)).elim
  | cancelled _ hshift | unupdated _ hshift =>
    rcases hshift.updating hst with h | h
    · cases h
    · exact absurd h hs
  | dies _ hshift =>
    rcases hshift.updating hst with h | h
    · cases h
    · exact absurd h hs

theorem Mach.step_invite {m : Mach} {io : Io} (hidle : m.idle) (hs : m.ua.state = some .connected)
    (hm : req.method = .invite) (hnew : ¬ m.ua.stale req) :
    (m.step (.input (.request req) io)).ua.state = some .uasUpdating ↔ (m.world io).updates req := by
  have hspec := recvRequest_updates (w := m.world io) hs hm hnew
  have hstep : m.step (.input (.request req) io) = m.exec io m.todo (UA.recvRequest req) := by
    rw [Mach.step_input, hidle]
    rfl
  rw [hstep]
  unfold Lib.wp at hspec
  cases hrun : UA.recvRequest req (m.world io) with
  | ok td w' =>
    rw [hrun] at hspec
    rw [exec_ok m.todo hrun]
    exact hspec
  | error e w' =>
    rw [hrun] at hspec
    rw [exec_error m.todo hrun]
    exact hspec

theorem Mach.step_updating {m : Mach} {l : Label} (hsound : m.ua.Sound) (hs : m.ua.state ≠ some .uasUpdating) :
    (m.step l).ua.state = some .uasUpdating ↔ m.updates l := by
  constructor
  · intro h
    obtain ⟨-, hm⟩ := m.metered l hsound
    cases hm with
    | other hstate => exact absurd (hstate.symm.trans h) hs
    | method i io hi hio hposs _ turn _ =>
      obtain ⟨hconnected, req, rfl, hinvite, hnew⟩ := turn.updating h hs
      rcases method_cases hi with ⟨io', rfl⟩ | ⟨_, _, _, -, hi, -⟩
      · have hidle : m.idle = true := by
          by_contra hbusy
          rw [Mach.step_input, Bool.eq_false_of_not_eq_true hbusy] at h
          exact hs h
        have hstate : m.ua.state = some .connected := hconnected
        have hfresh : ¬ m.ua.stale req := hnew
        have hupdates := (Mach.step_invite hidle hstate hinvite hfresh).mp h
        simp [Mach.updates, hidle, hstate, hinvite, hfresh, hupdates]
      · cases hi
  · intro h
    unfold Mach.updates at h
    split at h
    · rename_i req io
      simp only [Bool.and_eq_true, decide_eq_true_eq, Bool.not_eq_true', decide_eq_false_iff_not] at h
      obtain ⟨⟨⟨⟨hidle, hstate⟩, hinvite⟩, hfresh⟩, hupdates⟩ := h
      exact (Mach.step_invite hidle hstate hinvite hfresh).mpr hupdates
    · cases h

end Updating

end SippyB2bua.Ua
