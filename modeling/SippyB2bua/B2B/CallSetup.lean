import SippyB2bua.B2B.CallMap
import SippyB2bua.Ua.Registration

/-!
# The setup of a call

`CallMap.recvRequest` gives the INVITE of a new call to a user agent and appends the controller to
the call map. The user agent is registered on the way, and nobody undoes that when a later step raises.
-/

namespace SippyB2bua.B2B
open Lib (Text wp)
open Ua (Act Io Mach Request TimerId UA UaState foldl_registers registered registered_append)

namespace CallController

/-- The label is done; an exception goes on. -/
def perform (cfg : CallConfig) (src : CallSource) (label : CallLabel) : C PUnit := do
  action cfg src (← get) label

/-- `CallMap.recvRequest` with the INVITE of a new call: the user agent gets it, and then what this brings
about is done piece by piece. -/
def recvInvite (cfg : CallConfig) (src : CallSource) (req : Request) (io : Io) (ios : List Io) : C PUnit := do
  perform cfg src (.invite req io)
  ios.forM fun io => perform cfg src (.work io)

/-- It has raised, or it has returned. -/
def Ended (p : C PUnit) (c : CallController) : Prop := Lib.returns p c → (Lib.endState p c).work = []

instance (p : C PUnit) (c : CallController) : Decidable (Ended p c) := inferInstanceAs (Decidable (_ → _))

/-- The call map has the call, whose user agent is alive and is to go to Dead if the call is over. -/
structure Listed (c : CallController) : Prop where
  inMap : c.inMap
  live : c.legA.any UaState.live
  timed : c.uaA.ua.Timed

/-- The exceptions that `handleIncoming` answers the request for: `RtpProxyError` and `SdpParseError`. -/
def isRefusal (e : Exn) : Bool := e = .rtpProxy || e = .sdpParse

/-- Nothing refers to the user agent, and the INVITE has a final response. -/
structure Undone (e : Option Exn) (c : CallController) : Prop where
  inMap : c.inMap = false
  unregistered : registered c.uaA.log = false
  unarmed : ∀ t : TimerId, t.scheduled c.uaA.ua = false
  answered : c.uaA.log.any Act.isFinal ∨ e.any isRefusal

def Atomic (p : C PUnit) (c : CallController) : Prop :=
  Listed (Lib.endState p c) ∨ Undone (Lib.exception p c) (Lib.endState p c)

/-- Reading a header raises no error of the SDP. -/
structure Readable (req : Request) : Prop where
  contact : ∀ e, req.contact = .error e → isRefusal e = false
  recordRoutes : ∀ e, req.recordRoutes.mapM id = .error e → isRefusal e = false

/-- What holds of a call from the registration on. -/
structure Begun (c : CallController) : Prop where
  sane : Sane c.legs
  live : c.legA.any UaState.live
  timed : c.uaA.ua.Timed
  registered : registered c.uaA.log

/-- The call map is to get the call last, or it has it. -/
def AppendsLast (c : CallController) : Prop := c.inMap = false ∧ Heaped [.append] c.work ∨ c.inMap ∧ c.work = []

section Working
variable {cfg : CallConfig} {src : CallSource} {c c' : CallController} {io : Io}

theorem Begun.of_legs (h : Begun c) (hsane : Sane c'.legs) (hA : c'.legs.1 = c.legs.1)
    (hlog : c'.uaA.log = c.uaA.log) : Begun c' := by
  have hua : c'.uaA.ua = c.uaA.ua := hA
  exact ⟨hsane, by rw [legA, hua]; exact h.live, hua ▸ h.timed, hlog ▸ h.registered⟩

/-- Nothing that is done for the INVITE undoes the registration, or ends the user agent. -/
theorem Begun.step {label : CallLabel} (h : Begun c) (hwork : c.work ≠ []) (hno : ∀ ws, c.work ≠ .append :: ws)
    (hs : Stepped cfg src c label c') : Begun c' ∧ (c.inMap = false → c'.inMap = false) := by
  have hsane := hs.sane h.sane
  cases hs with
  | rests hc => exact hc.symm ▸ ⟨h, id⟩
  | appended ws hw => exact absurd hw (hno ws)
  | manned _ hm =>
    refine ⟨h.of_legs hsane ?_ hm.log, fun hmap => hm.inMap.trans hmap⟩
    cases hm.made with
    | stays hlegs => rw [hlegs]
    | makes r nh proxied hA hlegs => rw [hlegs]
  | moved l ulabel hcauses hm =>
    have hmild := hcauses.mild hwork
    cases hm with
    | absent _ hlegs hlog hinMap => exact ⟨h.of_legs hsane (by rw [hlegs]) hlog, fun hmap => hinMap.trans hmap⟩
    | moved m ua hl hout hlegs hlog =>
      have hinMap (hmap : c.inMap = false) : c'.inMap = false := by
        cases hout with
        | stepped _ _ _ hinMap => simp [hinMap, hmap]
        | unburied _ _ _ _ _ hinMap => exact hinMap
      refine ⟨?_, hinMap⟩
      cases l with
      | uaO k => exact h.of_legs hsane (by rw [hlegs]; rfl) hlog
      | uaA =>
        obtain rfl : c.uaA = m := Option.some.inj hl
        have hsound : c.uaA.ua.Sound := h.sane.called
        have hlive := Mach.step_live (m := { c.uaA with seq := c.seq }) hsound h.live hmild
        obtain ⟨⟨acts, hacts, hnone⟩, htimed⟩ := Mach.step_lasts (m := { c.uaA with seq := c.seq }) hsound h.live hmild
        have hua := (hout.spared hsound (isDead_of_live hlive)).1
        have hA : c'.uaA.ua = ({ c.uaA with seq := c.seq }.step ulabel).ua :=
          (congrArg Prod.fst hlegs).trans hua
        refine ⟨hsane, by rw [legA, hA]; exact hlive, by rw [hA]; exact htimed h.timed, ?_⟩
        rw [hlog]
        show Ua.registered ({ c.uaA with seq := c.seq }.step ulabel).log
        rw [hacts]
        exact registered_append h.registered hnone

theorem perform_work (hc : Begun c) (hlast : c.AppendsLast) :
    wp (perform cfg src (.work io)) (fun _ c' => Begun c' ∧ c'.AppendsLast)
      (fun _ c' => registered c'.uaA.log ∧ c'.inMap = false) c := by
  unfold perform
  rw [Lib.wp_bind, Lib.wp_get]
  rcases hlast with ⟨hmap, new, hwork, hno⟩ | ⟨hmap, hwork⟩
  · cases new with
    | nil =>
      -- the controller is appended
      have haction : action cfg src c (.work io) =
          (do modify fun c => { c with work := [] }; workOn cfg src io .append) := by
        unfold action
        rw [hwork]
        rfl
      rw [haction]
      exact ⟨hc.of_legs hc.sane rfl rfl, .inr ⟨rfl, rfl⟩⟩
    | cons w new =>
      have hsteps := action_steps cfg src c (.work io)
      have hne : c.work ≠ [] := by simp [hwork]
      have hother (ws : List Work) : c.work ≠ .append :: ws := by
        rw [hwork, List.cons_append]
        rintro h
        obtain ⟨rfl, -⟩ := List.cons.inj h
        simp [Work.isAppend] at hno
      have hremaining : c.remaining (.work io) = new ++ [.append] := by simp [remaining, hwork]
      refine Lib.wp_mono hsteps (fun _ c' h => ?_) fun _ c' hs => ?_
      · obtain ⟨hs, hheaped⟩ := h
        obtain ⟨hbegun, hmap'⟩ := hc.step hne hother hs
        refine ⟨hbegun, .inl ⟨hmap' hmap, .trans ⟨new, rfl, ?_⟩ (hremaining ▸ hheaped)⟩⟩
        simp only [List.any_cons, Bool.or_eq_false_iff] at hno
        exact hno.2
      · obtain ⟨hbegun, hmap'⟩ := hc.step hne hother hs
        exact ⟨hbegun.registered, hmap' hmap⟩
  · have haction : action cfg src c (.work io) = pure ⟨⟩ := by
      unfold action
      rw [hwork]
    rw [haction]
    exact ⟨hc, .inr ⟨hmap, hwork⟩⟩

end Working

section Inviting
variable {cfg : CallConfig} {src : CallSource} {c c' : CallController} {req : Request} {io : Io}

theorem advance_raises {l : Leg} {label : Ua.Label} {m : Mach} (hl : c.leg l = some m)
    (hlives : dies m.ua ({ m with seq := c.seq }.step label).ua = false) :
    wp (advance l label) (fun _ _ => raisesAt { m with seq := c.seq } label = none)
      (fun e _ => raisesAt { m with seq := c.seq } label = some e) c := by
  unfold advance
  rw [Lib.wp_bind, Lib.wp_get, hl]
  dsimp only
  rw [Lib.wp_bind, Lib.wp_modify, Lib.wp_bind]
  refine Lib.wp_mono (heedAll_leaves l _) (fun _ c₁ _ => ?_) fun _ _ h => h.elim
  rw [hlives, Lib.wp_ite]
  refine ⟨fun h => by simp at h, fun _ => ?_⟩
  cases hraises : raisesAt { m with seq := c.seq } label with
  | none => rfl
  | some e => rfl

/-- The INVITE registers the user agent, or it is not answered. -/
theorem first_step {m : Mach} (hidle : m.idle) (hnone : m.ua.state = none) (hlog : m.log = [])
    (hm : req.method = .invite) (hnew : ¬ m.ua.stale req) (hreads : Readable req) :
    registered (m.step (.input (.request req) io)).log ∧ (m.step (.input (.request req) io)).ua.Timed ∨
      ∃ e, raisesAt m (.input (.request req) io) = some e ∧
        (m.step (.input (.request req) io)).log.any Act.isFinal = false ∧ isRefusal e = false := by
  have hstep : m.step (.input (.request req) io) = m.exec io m.todo (UA.recvRequest req) := by
    rw [Mach.step_input, hidle]
    rfl
  have hraises : raisesAt m (.input (.request req) io) = thrown (UA.recvRequest req) (m.world io) := by
    rw [raisesAt, hidle]
    rfl
  have hregistered {w' : Ua.World} (h : Ua.Registers (m.world io) w') : registered w'.log ∧ w'.ua.Timed := by
    obtain ⟨acts, hacts, hon, hno⟩ := h.log
    refine ⟨?_, h.timed⟩
    rw [registered, hacts, Mach.world, List.nil_append, foldl_registers hno, decide_eq_true hon, Bool.or_true]
  have hfirst := Ua.recvRequest_registers (w := m.world io) hnone hm hnew
  rw [hstep, hraises]
  unfold Lib.wp at hfirst
  unfold thrown Lib.exception
  cases hrun : UA.recvRequest req (m.world io) with
  | ok todo w' =>
    rw [hrun] at hfirst
    rw [Ua.exec_ok m.todo hrun, hlog, List.nil_append]
    exact .inl (hregistered hfirst)
  | error e w' =>
    rw [hrun] at hfirst
    rw [Ua.exec_error m.todo hrun, hlog, List.nil_append]
    rcases hfirst with h | h
    · exact .inl (hregistered h)
    · obtain ⟨acts, hacts, -, hfinal⟩ := h.log
      refine .inr ⟨e.exn, rfl, ?_, ?_⟩
      · rw [hacts, Mach.world, List.nil_append, List.any_eq_false]
        exact fun a ha => by simp [hfinal a ha]
      · rcases h.exn with h | h | h | h
        · rw [h]; rfl
        · rw [h]; rfl
        · exact hreads.contact _ h
        · exact hreads.recordRoutes _ h

/-- An exception leaves the user agent registered, or the INVITE without an answer. -/
def Failed (e : Exn) (c : CallController) : Prop :=
  c.inMap = false ∧ (registered c.uaA.log ∨ c.uaA.log.any Act.isFinal = false ∧ isRefusal e = false)

theorem perform_invite (hm : req.method = .invite) (hreads : Readable req) :
    wp (perform cfg src (.invite req io)) (fun _ c' => Begun c' ∧ c'.AppendsLast) Failed (start cfg) := by
  have haction : action cfg src (start cfg) (.invite req io) =
      (do push [.method .uaA, .append]; advance .uaA (.input (.request req) io)) := if_pos ⟨rfl, hm⟩
  generalize hlabel : Ua.Label.input (.request req) io = label at haction
  generalize hm' : Mach.step { (start cfg).uaA with seq := (start cfg).seq } label = m'
  have hsound : (start cfg).uaA.ua.Sound := start_sane.called
  have hnew : ¬ (calledUA cfg).stale req := by simp [UA.stale, calledUA, UA.new]
  have hlive : m'.ua.state.any UaState.live := by
    rw [← hm', ← hlabel]
    exact Mach.first_invite io rfl rfl hm hnew hsound
  have hfirst : registered m'.log ∧ m'.ua.Timed ∨ ∃ e,
      raisesAt { (start cfg).uaA with seq := (start cfg).seq } label = some e ∧
        m'.log.any Act.isFinal = false ∧ isRefusal e = false := by
    rw [← hm', ← hlabel]
    exact first_step rfl rfl rfl hm hnew hreads
  have hlives : dies (start cfg).uaA.ua m'.ua = false := by
    refine Bool.eq_false_iff.mpr fun hdies => ?_
    have hburies := Mach.step_buries (m := { (start cfg).uaA with seq := (start cfg).seq }) label hsound
    rw [hm'] at hburies
    rw [dies_dead hburies hdies] at hlive
    cases hlive
  unfold perform
  rw [Lib.wp_bind, Lib.wp_get, haction, Lib.wp_bind, wp_push]
  have hmoved {c' : CallController}
      (h : Moved { start cfg with work := [.method .uaA, .append] ++ (start cfg).work } .uaA label c') :
      c'.uaA.ua = m'.ua ∧ c'.uaA.log = m'.log ∧ c'.inMap = false ∧ Sane c'.legs := by
    cases h with
    | absent hl => cases hl
    | moved m ua hl hout hlegs hlog =>
      obtain rfl : (start cfg).uaA = m := Option.some.inj hl
      have hua : ua = m'.ua := by
        rw [← hm']
        refine (hout.spared hsound ?_).1
        rw [← hm'] at hlive
        exact isDead_of_live hlive
      refine ⟨(congrArg Prod.fst hlegs).trans hua, hlog.trans (congrArg Mach.log hm'), ?_, ?_⟩
      · cases hout with
        | stepped _ _ _ hinMap => exact hinMap
        | unburied _ _ _ _ _ hinMap => exact hinMap
      · rw [hlegs]
        exact Every.put start_sane (hout.sound hsound)
  rw [← hm'] at hlives
  refine Lib.wp_mono (Lib.wp_and (advance_moved .uaA label) (advance_raises rfl hlives)) ?_ ?_
  · rintro - c' ⟨⟨h, hheaped⟩, hraises⟩
    obtain ⟨hua, hlog, hinMap, hsane⟩ := hmoved h
    have hnone : ¬ ∃ e, raisesAt { (start cfg).uaA with seq := (start cfg).seq } label = some e ∧
        m'.log.any Act.isFinal = false ∧ isRefusal e = false := by
      rintro ⟨e, he, -⟩
      cases hraises.symm.trans he
    obtain ⟨hregistered, htimed⟩ := hfirst.resolve_right hnone
    refine ⟨⟨hsane, ?_, hua ▸ htimed, hlog ▸ hregistered⟩, .inl ⟨hinMap, .trans ⟨[.method .uaA], rfl, rfl⟩ hheaped⟩⟩
    rw [legA, hua]
    exact hlive
  · rintro e c' ⟨h, hraises⟩
    obtain ⟨-, hlog, hinMap, -⟩ := hmoved h
    refine ⟨hinMap, ?_⟩
    replace hlog : c'.uaA.log = m'.log := hlog
    rw [hlog]
    refine hfirst.imp And.left ?_
    rintro ⟨e', he', hfinal, hplain⟩
    obtain rfl : e = e' := Option.some.inj (hraises.symm.trans he')
    exact ⟨hfinal, hplain⟩

theorem recvInvite_sets (cfg : CallConfig) (src : CallSource) (hm : req.method = .invite) (hreads : Readable req)
    (io : Io) (ios : List Io) :
    wp (recvInvite cfg src req io ios) (fun _ c' => Begun c' ∧ c'.AppendsLast) Failed (start cfg) := by
  unfold recvInvite
  rw [Lib.wp_bind]
  refine Lib.wp_mono (perform_invite hm hreads) (fun _ c₁ h₁ => ?_) fun _ _ h => h
  induction ios generalizing c₁ with
  | nil => exact h₁
  | cons io ios ih =>
    show wp (perform cfg src (.work io) >>= fun _ => ios.forM fun io => perform cfg src (.work io)) _ _ c₁
    rw [Lib.wp_bind]
    exact Lib.wp_mono (perform_work h₁.1 h₁.2) (fun _ c₂ h₂ => ih c₂ h₂) fun _ _ h => ⟨h.2, .inl h.1⟩

theorem Failed.not_atomic {e : Exn} (h : Failed e c) : ¬ (Listed c ∨ Undone (some e) c) := by
  rintro (hlisted | hundone)
  · exact absurd (hlisted.inMap.symm.trans h.1) (by decide)
  · rcases h.2 with hon | ⟨hfinal, hplain⟩
    · exact absurd (hon.symm.trans hundone.unregistered) (by decide)
    · rcases hundone.answered with hanswered | hanswered
      · exact absurd (hanswered.symm.trans hfinal) (by decide)
      · exact absurd (hanswered.symm.trans hplain) (by decide)

/-- An exception leaves the user agent registered, or its INVITE without an answer; without one the call map
gets the call. -/
theorem setup_atomic_iff (cfg : CallConfig) (src : CallSource) (hm : req.method = .invite) (hreads : Readable req)
    (io : Io) (ios : List Io)
    (hends : Ended (recvInvite cfg src req io ios) (start cfg)) :
    Atomic (recvInvite cfg src req io ios) (start cfg) ↔
      Lib.returns (recvInvite cfg src req io ios) (start cfg) := by
  have h := Lib.exception_of_wp (recvInvite_sets cfg src hm hreads io ios)
  rw [Lib.returns_eq]
  unfold Atomic
  cases hraised : Lib.exception (recvInvite cfg src req io ios) (start cfg) with
  | some e =>
    rw [hraised] at h
    exact iff_of_false h.not_atomic (by simp)
  | none =>
    rw [hraised] at h
    obtain ⟨hbegun, hlast⟩ := h
    have hwork := hends (by rw [Lib.returns_eq, hraised]; rfl)
    refine iff_of_true (.inl ⟨?_, hbegun.live, hbegun.timed⟩) rfl
    rcases hlast with ⟨-, new, happend, -⟩ | ⟨hmap, -⟩
    · simp [hwork] at happend
    · exact hmap

end Inviting

section Offering

theorem readable_offeringInvite (cseq : ℤ) (content : Text) : Readable (offeringInvite cseq content) where
  contact _ h := by cases h
  recordRoutes _ h := by cases h

theorem setup_atomic_offer :
    Atomic (recvInvite proxiedConfig callerSource (offeringInvite 1 ['x']) .calm (List.replicate 12 .calm))
      (start proxiedConfig) :=
  (setup_atomic_iff proxiedConfig callerSource rfl (readable_offeringInvite 1 ['x']) .calm (List.replicate 12 .calm)
    (by decide +kernel)).mpr (by decide +kernel)

/-- The descriptions of calls are filtered, and the offer is refused. -/
def filteredConfig : CallConfig := { proxiedConfig with allowedPts := true }

def refusing : Io := { Io.calm with sdps := [.raise ⟨.sdpParse, []⟩] }

theorem refused_offer_stays :
    ¬ Atomic (recvInvite filteredConfig callerSource (offeringInvite 1 ['x']) refusing []) (start filteredConfig) := by
  have hreg : registered (Lib.endState (recvInvite filteredConfig callerSource (offeringInvite 1 ['x']) refusing [])
      (start filteredConfig)).uaA.log = true := by
    decide +kernel
  have hmap : (Lib.endState (recvInvite filteredConfig callerSource (offeringInvite 1 ['x']) refusing [])
      (start filteredConfig)).inMap = false := by
    decide +kernel
  rintro (h | h)
  · exact absurd (h.inMap.symm.trans hmap) (by decide)
  · exact absurd (hreg.symm.trans h.unregistered) (by decide)

end Offering

end CallController
end SippyB2bua.B2B
