import SippyB2bua.B2B.CallLegs
import SippyB2bua.Ua.Updating

/-!
# Re-INVITEs from both sides

A leg whose re-INVITE is handed to the other waits for the answer in Updating, and there no
other event for it counts. While the RTP proxy rewrites the description of a re-INVITE the leg that
it is for is still in Connected, and takes a re-INVITE of its own.
-/

namespace SippyB2bua.B2B
open Lib (Text)
open Ua (Mach Pending Request Response sampleBody UA)

namespace CallController

def updating (ua : UA) : Bool := ua.state = some .uasUpdating

/-- `uaA` and `uaO` wait for each other. -/
def locked (c : CallController) : Bool := updating c.uaA.ua && c.uaO.any fun m => updating m.ua

/-- The other side of the call has sent a re-INVITE that is not answered. -/
def awaited (c : CallController) : Leg → Bool
  | .uaA => c.uaO.any fun m => updating m.ua
  | .uaO k => k + 1 = c.uaOs.length && updating c.uaA.ua

/-- A leg takes a re-INVITE while the other side waits for the answer to one. -/
def glares (c : CallController) : CallLabel → Bool
  | .input l (.request req) io =>
    c.work.isEmpty && c.awaited l && (c.leg l).any fun m => m.updates (.input (.request req) io)
  | _ => false

section Legs
variable {cfg : CallConfig} {src : CallSource} {c c' : CallController}

theorem locked_eq (c : CallController) :
    c.locked = (updating c.legs.1 && c.legs.2.getLast?.any updating) := by
  simp [locked, legs, uaO, List.getLast?_map, Option.any_map]

theorem Outcome.updates_iff {l : Leg} {m : Mach} {label : Ua.Label} {ua : UA} (h : Outcome c l m label c' ua)
    (hm : m.ua.Sound) (hs : updating m.ua = false) : updating ua ↔ m.updates label := by
  replace hs : m.ua.state ≠ some .uasUpdating := by simpa [updating] using hs
  have hstep : ({ m with seq := c.seq }.step label).ua.state = some .uasUpdating ↔ m.updates label :=
    Mach.step_updating (m := { m with seq := c.seq }) hm hs
  simp only [updating, decide_eq_true_eq]
  cases h with
  | stepped ua hua => exact hua ▸ hstep
  | unburied ua hua hremoves =>
    have hburies : Ua.Buries m.ua ua := hua ▸ Mach.step_buries (m := { m with seq := c.seq }) label hm
    have hdead := dies_dead hburies (removes_dies hremoves).1
    refine iff_of_false hs fun h => ?_
    have hnext := hstep.mpr h
    rw [← hua, hdead] at hnext
    cases hnext

theorem Causes.updates {label : CallLabel} {l : Leg} {ulabel : Ua.Label} (h : Causes c label l ulabel)
    {m : Mach} (hl : c.leg l = some m) (hm : m.updates ulabel) :
    ∃ req io, c.work = [] ∧ label = .input l (.request req) io ∧ ulabel = .input (.request req) io := by
  cases h with
  | invite _ hA _ =>
    obtain rfl : c.uaA = m := Option.some.inj hl
    replace hA : c.uaA.ua.state = none := hA
    simp [Mach.updates, hA] at hm
  | @input _ i io hwork hon hi =>
    cases i with
    | request req => exact ⟨req, io, hwork, rfl, rfl⟩
    | _ => cases hm
  | method | returned | send | disconnect => cases hm

/-- The two sides wait for each other once the leg does what the other side does. -/
theorem locked_put {l : Leg} {m : Mach} {ua : UA} (hc : c.locked = false) (hl : c.leg l = some m)
    (h : c'.legs = putLeg c.legs l ua) : c'.locked = (c.awaited l && updating ua) := by
  rw [locked_eq, h]
  cases l with
  | uaA => simp [putLeg, legs, awaited, uaO, List.getLast?_map, Option.any_map, Bool.and_comm]
  | uaO k =>
    replace hl : c.uaOs[k]? = some m := hl
    have hk : k < c.uaOs.length := (List.getElem?_eq_some_iff.mp hl).1
    have hlength : c.legs.2.length = c.uaOs.length := by simp [legs]
    simp only [putLeg, awaited, List.getLast?_eq_getElem?, List.length_set, List.getElem?_set, hlength]
    by_cases hno : k + 1 = c.uaOs.length
    · have hlast : k = c.uaOs.length - 1 := by omega
      rw [if_pos hlast, if_pos hk]
      simp [hno, legs]
    · have hlast : k ≠ c.uaOs.length - 1 := by omega
      rw [if_neg hlast]
      rw [locked_eq, List.getLast?_eq_getElem?, hlength] at hc
      simp [hno, hc]

theorem awaited_resting {l : Leg} {m : Mach} (hc : c.locked = false) (hl : c.leg l = some m)
    (h : c.awaited l) : updating m.ua = false := by
  cases l with
  | uaA =>
    obtain rfl : c.uaA = m := Option.some.inj hl
    have hother : c.uaO.any (fun m => updating m.ua) = true := h
    simpa [locked, hother] using hc
  | uaO k =>
    replace hl : c.uaOs[k]? = some m := hl
    obtain ⟨hno, hother⟩ : k + 1 = c.uaOs.length ∧ updating c.uaA.ua = true := by simpa [awaited] using h
    have hlast : c.uaO = some m := by rw [uaO, List.getLast?_eq_getElem?, ← hno, Nat.add_sub_cancel, hl]
    simpa [locked, hother, hlast] using hc

theorem locked_glares {label : CallLabel} (hsane : Sane c.legs) (hc : c.locked = false)
    (hlocked : (step cfg src c label).locked) : c.glares label := by
  have hsame {c' : CallController} (h : c'.legs = c.legs) : c'.locked = false := by
    rwa [locked_eq, h, ← locked_eq]
  cases step_inversion cfg src c label with
  | rests h => simp [hsame (congrArg legs h)] at hlocked
  | appended ws hwork h =>
    have hlegs : (step cfg src c label).legs = c.legs := by rw [h]; rfl
    simp [hsame hlegs] at hlocked
  | manned _ h =>
    cases h.made with
    | stays h => simp [hsame h] at hlocked
    | makes r nh proxied hA h =>
      rw [locked_eq, h] at hlocked
      simp [updating, originateUA, UA.new] at hlocked
  | moved l ulabel hcauses h =>
    cases h with
    | absent _ h => simp [hsame h] at hlocked
    | moved m ua hl hua h =>
      obtain ⟨hawaited, hupdating⟩ : c.awaited l = true ∧ updating ua = true := by
        simpa [locked_put hc hl h] using hlocked
      have hnext := (hua.updates_iff (hsane.leg hl) (awaited_resting hc hl hawaited)).mp hupdating
      obtain ⟨req, io, hwork, rfl, rfl⟩ := hcauses.updates hl hnext
      simp [glares, hwork, hawaited, hl, hnext]

theorem glares_locked {label : CallLabel} (hsane : Sane c.legs) (hc : c.locked = false)
    (hglares : c.glares label) : (step cfg src c label).locked := by
  unfold glares at hglares
  split at hglares
  · rename_i l req io
    rw [Bool.and_eq_true, Bool.and_eq_true, Option.any_eq_true] at hglares
    obtain ⟨⟨hwork, hawaited⟩, m, hl, hnext⟩ := hglares
    have hon : c.isOn l = true := by
      have hstate : m.ua.state = some .connected := by
        simp only [Mach.updates, Bool.and_eq_true, decide_eq_true_eq] at hnext
        exact hnext.1.1.1.2
      simp [isOn, hl, hstate]
    cases step_input_moved cfg src (i := .request req) io (List.isEmpty_iff.mp hwork) hon rfl with
    | absent hnone _ => simp [hnone] at hl
    | moved m' ua hl' hua h =>
      obtain rfl : m = m' := Option.some.inj (hl.symm.trans hl')
      rw [locked_put hc hl h, hawaited]
      exact (hua.updates_iff (hsane.leg hl) (awaited_resting hc hl hawaited)).mpr hnext
  · cases hglares

/-- `uaA` and `uaO` never wait for each other exactly if no leg takes a re-INVITE while the other
side waits for the answer to one. -/
theorem never_locked_iff (cfg : CallConfig) (src : CallSource) (ls : List CallLabel) :
    (∀ ms, ms <+: ls → (Lib.run (step cfg src) (start cfg) ms).locked = false) ↔
      Lib.Along (step cfg src) (fun c label => c.glares label = false) (start cfg) ls := by
  have hstep (c : CallController) (label : CallLabel) (hsane : Sane c.legs) (hc : c.locked = false) :
      (step cfg src c label).locked = false ↔ c.glares label = false := by
    rw [← Bool.not_eq_true, ← Bool.not_eq_true]
    exact not_congr ⟨locked_glares hsane hc, glares_locked hsane hc⟩
  have hsane (c : CallController) (label : CallLabel) (h : Sane c.legs) : Sane (step cfg src c label).legs :=
    step_sane h
  have hunlocked : (start cfg).locked = false := rfl
  exact Lib.along_iff_prefix (I := fun c : CallController => Sane c.legs) hsane hstep start_sane hunlocked ls

end Legs

section Glaring

/-- Calls are authorised, and their media go through the RTP proxy. -/
def proxiedConfig : CallConfig where
  env := Hunt.plainEnv
  static := none
  authEnable := true
  maxCreditTime := none
  keepaliveAns := 0
  keepaliveOrig := 0
  rtpProxy := true
  newSession := fun _ => .ok ⟨⟩
  doAuth := fun _ => .ok ⟨⟩
  allowedPts := false
  staticTrIn := none
  staticTrOut := none
  hideCallId := none
  poProc := fun _ => .ok ⟨⟩
  myTransport := ['u']

def callerSource : CallSource := ⟨(['f'], 5060), ((['f'], 5060), ['u']), [], false⟩

def offeringInvite (cseq : ℤ) (content : Text) : Request :=
  { Request.bare .invite cseq with body := some (sampleBody content) }

/-- The offer as it goes to the RTP proxy. -/
def proxiedOffer : Pending :=
  ⟨false, ⟨.setup ⟨some "a-b2b_1".toList, none, some "100".toList, some (sampleBody ['x']), none, none⟩ none,
    0, none, 2, none⟩⟩

def proxiedAnswer : Pending :=
  ⟨true, ⟨.connect (.num 200) [] (some (sampleBody ['z'])), 0, some .callee, 3, none⟩⟩

/-- The label, and all that is done about it. -/
def done (label : CallLabel) : List CallLabel := label :: List.replicate 12 (.work .calm)

/-- A call that is answered, and then gets a re-INVITE from both sides, the second one before the RTP
proxy has seen to the first. -/
def glaringCall : List CallLabel :=
  done (.invite (offeringInvite 1 ['x']) .calm) ++
  done (.rDone (Hunt.gateways, 0) 0) ++
  done (.input (.uaO 0) (.sdpUpdated proxiedOffer ⟨['y'], ['y'], false⟩) .calm) ++
  done (.input (.uaO 0) (.response { Response.bare 200 .invite 1 with body := some (sampleBody ['z']) } []) .calm) ++
  done (.input (.uaO 0) (.sdpUpdated proxiedAnswer ⟨['w'], ['w'], false⟩) .calm) ++
  done (.input .uaA (.request (offeringInvite 2 ['v'])) .calm) ++
  done (.input (.uaO 0) (.request (offeringInvite 1 ['u'])) .calm)

theorem glaringCall_locked :
    (Lib.run (step proxiedConfig callerSource) (start proxiedConfig) glaringCall).locked = true := by
  decide +kernel

end Glaring

end CallController

end SippyB2bua.B2B
