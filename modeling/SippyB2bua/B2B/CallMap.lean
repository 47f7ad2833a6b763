import SippyB2bua.B2B.Glare
import SippyB2bua.Ua.Lifetime

/-!
# The call map

A call leaves the call map with the last of its legs that dies: each leg looks at the other when it
does. A leg that was made and never got an event does not die, and then the call stays.
-/

namespace SippyB2bua.B2B
open Lib (Text)
open Ua (Mach Request Response sampleBody UA UaState)

namespace CallController

/-- `ccmap.remove` is executed once at most, and the map has no call all of whose legs are at their end. -/
structure MapRight (c : CallController) : Prop where
  once : c.removals ≤ 1
  gone : c.uaA.ua.state = some .dead → (∀ m ∈ c.uaOs, m.ua.state = none ∨ m.ua.state = some .dead) →
    c.inMap = false

/-- The call is not in the call map yet. -/
def unlisted (c : CallController) : Bool := c.legA = none || c.listing

def revives (c : CallController) : CallLabel → Bool
  | .input l i _ => (c.leg l).any fun m => i.revives m.ua
  | _ => false

/-- Hops are left where a leg is to be made for the call, the INVITE is handled without an exception, and
no CANCEL comes for a dead leg. -/
def orderly (cfg : CallConfig) (src : CallSource) (c : CallController) (label : CallLabel) : Bool :=
  c.hopsLeft && !(c.unlisted && raises cfg src c label) && !c.revives label

/-- `uaA` and `uaO` are dead. -/
def allDead (legs : UA × List UA) : Bool := isDead legs.1 && legs.2.getLast?.all isDead

/-- What holds of a call that has begun. -/
structure Kept (c : CallController) : Prop where
  sane : Sane c.legs
  buried : Every (fun ua => isDead ua = !ua.deadCbs) c.legs
  hops : c.hops
  begun : c.legA.isSome
  unborn : ∀ k ua, c.legs.2[k]? = some ua → ua.state = none → k + 1 = c.legs.2.length ∧ c.waits ∧ c.Sends k
  answers : c.listing → c.legA.any UaState.live
  removed : c.removals = (allDead c.legs).toNat
  gone : allDead c.legs → c.inMap = false
  listed : allDead c.legs = false → c.inMap ∨ c.listing

section Keeping
variable {cfg : CallConfig} {src : CallSource} {c c' : CallController} {label : CallLabel}

theorem Kept.mapRight (h : Kept c) : MapRight c where
  once := by
    rw [h.removed]
    exact Bool.toNat_le _
  gone hA hO := by
    refine h.gone ?_
    have hlast (ua : UA) (hua : ua ∈ c.legs.2.getLast?) : isDead ua := by
      rw [List.getLast?_eq_getElem?] at hua
      obtain ⟨m, hm, rfl⟩ := List.mem_map.mp (List.mem_of_getElem? hua)
      rcases hO m hm with hnone | hdead
      · -- a leg that gets its first event next was made while the caller waits
        obtain ⟨-, hwaits, -⟩ := h.unborn _ _ hua hnone
        have hA : c.legA = some .dead := hA
        simp [waits, hA] at hwaits
      · simp [isDead, hdead]
    have hdead : isDead c.legs.1 := decide_eq_true hA
    simp only [allDead, hdead, Bool.true_and]
    cases hO' : c.legs.2.getLast? with
    | none => rfl
    | some ua => exact hlast ua hO'

theorem waits_alive (h : c.waits) : allDead c.legs = false := by
  have hA : isDead c.legs.1 = false := by
    rcases h with h | h <;> simp [isDead, legs, show c.uaA.ua.state = _ from h]
  simp [allDead, hA]

theorem isDead_of_live {ua : UA} (h : ua.state.any UaState.live) : isDead ua = false := by
  simp only [isDead, decide_eq_false_iff_not]
  intro hdead
  simp [hdead, UaState.live] at h

/-- A leg that was made is what the next step is about. -/
theorem Causes.unborn {l : Leg} {ulabel : Ua.Label} {k : ℕ} (h : Causes c label l ulabel) (hk : c.Sends k) :
    l = .uaO k ∧ ∃ e io, ulabel = .input (.event e) io ∧ UA.wakes e := by
  obtain ⟨⟨e, ws, he, hwork⟩, -⟩ := hk
  cases h with
  | invite h | input h | method h | returned h | disconnect h => simp [hwork] at h
  | send h =>
    rw [hwork] at h
    obtain ⟨⟨rfl, rfl⟩, -⟩ := by simpa using h
    exact ⟨rfl, _, _, rfl, he⟩

theorem Causes.mild {l : Leg} {ulabel : Ua.Label} (h : Causes c label l ulabel) (hwork : c.work ≠ []) :
    ulabel.mild := by
  cases h with
  | invite h | input h => exact absurd h hwork
  | method | returned | send | disconnect => rfl

theorem Causes.revives {l : Leg} {ulabel : Ua.Label} {m : Mach} (h : Causes c label l ulabel)
    (hl : c.leg l = some m) (hno : c.revives label = false) : ulabel.revives m.ua = false := by
  cases h with
  | input =>
    rw [CallController.revives, hl] at hno
    exact hno
  | invite | method | returned | send | disconnect => rfl

theorem listing_work (h : c.listing) : c.work ≠ [] := by
  rintro hwork
  simp [listing, hwork] at h

theorem lists_eq (hA : c.legA.isSome) (hwork : ∀ ws, c.work ≠ .append :: ws) : c.lists label = c.listing := by
  unfold lists remaining listing
  split
  · rename_i w ws _ hw
    cases w with
    | append => exact absurd hw (hwork ws)
    | method | recvEvent | returned | send | disconnect | dead => rw [hw]; rfl
  · rename_i hw
    have hsome : c.legA ≠ none := by
      rintro hnone
      simp [hnone] at hA
    simp [hw, hsome]
  · rfl

/-- The call is still to be listed once the step is done if it was before. -/
theorem listing_step (hA : c.legA.isSome) (hwork : ∀ ws, c.work ≠ .append :: ws) (hok : orderly cfg src c label) :
    (step cfg src c label).listing = c.listing := by
  rw [step_listing, lists_eq hA hwork]
  cases hl : c.listing with
  | false => rfl
  | true =>
    have hraises : raises cfg src c label = false := by
      simp only [orderly, unlisted, hl, Bool.or_true, Bool.true_and, Bool.and_eq_true, Bool.not_eq_true'] at hok
      exact hok.1.2
    simp [hraises]

/-- The legs are left alone, and none of them waits for its first event. -/
theorem Kept.of_legs (h : Kept c) (hlegs : c'.legs = c.legs) (hinMap : c'.inMap = c.inMap)
    (hremovals : c'.removals = c.removals) (hhops : c'.hops) (hlisting : c'.listing = c.listing)
    (hborn : ∀ k ua, c.legs.2[k]? = some ua → ¬ c.Sends k) : Kept c' := by
  have hA : c'.legA = c.legA := congrArg (fun l : UA × List UA => l.1.state) hlegs
  refine ⟨hlegs ▸ h.sane, hlegs ▸ h.buried, hhops, hA ▸ h.begun, fun k ua hk hnone => ?_, ?_, ?_, ?_, ?_⟩
  · rw [hlegs] at hk
    exact absurd (h.unborn k ua hk hnone).2.2 (hborn k ua hk)
  · rw [hlisting, hA]
    exact h.answers
  · rw [hremovals, hlegs]
    exact h.removed
  · rw [hinMap, hlegs]
    exact h.gone
  · rw [hinMap, hlegs, hlisting]
    exact h.listed

/-- A leg that was made gets its first event next. -/
theorem Kept.made (h : Kept c) {r : B2BRoute} {nh : Addr × Text} {proxied : Bool} (hA : c.waits)
    (hlegs : c'.legs = (c.legs.1, c.legs.2 ++ [originateUA cfg src r nh proxied])) (hinMap : c'.inMap = c.inMap)
    (hremovals : c'.removals = c.removals) (hhops : c'.hops) (hlisting : c'.listing = c.listing)
    (hborn : ∀ k, ¬ c.Sends k) (hsent : c'.Sends c.legs.2.length) : Kept c' := by
  have hA' : c'.legA = c.legA := congrArg (fun l : UA × List UA => l.1.state) hlegs
  have hwaits : c'.waits := by
    rw [waits, hA']
    exact hA
  have halive := waits_alive hA
  have halive' := waits_alive hwaits
  refine ⟨hlegs ▸ h.sane.append originateUA_sound, hlegs ▸ h.buried.append rfl, hhops, hA' ▸ h.begun,
    fun k ua hk hnone => ?_, ?_, ?_, ?_, ?_⟩
  · rw [hlegs] at hk ⊢
    by_cases hlt : k < c.legs.2.length
    · rw [List.getElem?_append_left hlt] at hk
      exact absurd (h.unborn k ua hk hnone).2.2 (hborn k)
    · have hle : k < (c.legs.2 ++ [originateUA cfg src r nh proxied]).length := (List.getElem?_eq_some_iff.mp hk).1
      rw [List.length_append, List.length_singleton] at hle ⊢
      obtain rfl : k = c.legs.2.length := by omega
      exact ⟨rfl, hwaits, hsent⟩
  · rw [hlisting, hA']
    exact h.answers
  · rw [hremovals, halive', h.removed, halive]
  · simp [halive']
  · rw [hinMap, hlisting]
    exact fun _ => h.listed halive

theorem isDead_step {m : Mach} {l : Ua.Label} {ua : UA} (hua : ua = ({ m with seq := c.seq }.step l).ua)
    (hsound : m.ua.Sound) (hm : isDead m.ua = !m.ua.deadCbs) (hno : l.revives m.ua = false) :
    isDead ua = !ua.deadCbs ∧ (isDead m.ua → isDead ua) ∧ dies m.ua ua = (isDead ua && !isDead m.ua) := by
  have hburies : Ua.Buries m.ua ua := hua ▸ Mach.step_buries (m := { m with seq := c.seq }) l hsound
  have hstays (h : isDead m.ua) : isDead ua := by
    have hdead : m.ua.state = some .dead := by simpa [isDead] using h
    simpa [isDead, hua] using Mach.step_dead (m := { m with seq := c.seq }) hsound hdead hno
  have hcbs : isDead ua = !ua.deadCbs := by
    rcases hburies.called with hsame | ⟨hcalled, hdead⟩
    · rw [hsame, ← hm]
      refine Bool.eq_iff_iff.mpr ⟨fun h => ?_, hstays⟩
      have hdead : ua.state = some .dead := by simpa [isDead] using h
      rcases hburies.dead hdead with hcalled | hold
      · rw [hm, ← hsame, hcalled]
        rfl
      · simpa [isDead, hold] using hdead
    · simp [isDead, hdead, hcalled]
  refine ⟨hcbs, hstays, ?_⟩
  rw [dies, hcbs, hm]
  cases m.ua.deadCbs <;> cases ua.deadCbs <;> rfl

/-- The death of a leg after the other is the one that `ccmap.remove` is executed for. -/
theorem allDead_put {l : Leg} {m : Mach} {ua : UA} (hl : c.leg l = some m) (hstays : isDead m.ua → isDead ua)
    (hdies : dies m.ua ua = (isDead ua && !isDead m.ua)) :
    allDead (putLeg c.legs l ua) = (allDead c.legs || removes c.legs l m.ua ua) ∧
      (allDead c.legs && removes c.legs l m.ua ua) = false := by
  have hbool (a b x : Bool) (h : a → b) :
      (b && x) = (a && x || (b && !a) && x) ∧ (a && x && ((b && !a) && x)) = false := by
    revert h
    cases a <;> cases b <;> cases x <;> decide
  cases l with
  | uaA =>
    obtain rfl : c.uaA = m := Option.some.inj hl
    rw [removes, hdies]
    exact hbool _ _ _ hstays
  | uaO k =>
    replace hl : c.legs.2[k]? = some m.ua := by
      have hk : c.uaOs[k]? = some m := hl
      simp [legs, hk]
    have hlt : k < c.legs.2.length := (List.getElem?_eq_some_iff.mp hl).1
    by_cases hlast : k + 1 = c.legs.2.length
    · have hold : c.legs.2.getLast? = some m.ua := by rw [List.getLast?_eq_getElem?, ← hlast, Nat.add_sub_cancel, hl]
      have hnew : (c.legs.2.set k ua).getLast? = some ua := by
        rw [List.getLast?_eq_getElem?, List.length_set, ← hlast, Nat.add_sub_cancel, List.getElem?_set_self hlt]
      have hother : otherDead c.legs (.uaO k) = isDead c.legs.1 := by simp [otherDead, hlast]
      simp only [allDead, putLeg, hold, hnew, removes, hdies, hother, Option.all_some]
      have := hbool _ _ (isDead c.legs.1) hstays
      simpa only [Bool.and_comm] using this
    · have hsame : (c.legs.2.set k ua).getLast? = c.legs.2.getLast? := by
        rw [List.getLast?_eq_getElem?, List.getLast?_eq_getElem?, List.length_set, List.getElem?_set_ne (by omega)]
      have hother : otherDead c.legs (.uaO k) = false := by simp [otherDead, hlast]
      simp [allDead, putLeg, hsame, removes, hother]

theorem not_append_of_causes {l : Leg} {ulabel : Ua.Label} (h : Causes c label l ulabel) (ws : List Work) :
    c.work ≠ .append :: ws := by
  cases h with
  | invite h | input h | method h | returned h | send h | disconnect h => simp [h]

/-- A leg that does not die has nothing removed. -/
theorem Outcome.spared {l : Leg} {m : Mach} {ulabel : Ua.Label} {ua : UA} (h : Outcome c l m ulabel c' ua)
    (hsound : m.ua.Sound) (halive : isDead ({ m with seq := c.seq }.step ulabel).ua = false) :
    ua = ({ m with seq := c.seq }.step ulabel).ua ∧ c'.removals = c.removals := by
  have hno {ua : UA} (hua : ua = ({ m with seq := c.seq }.step ulabel).ua) : removes c.legs l m.ua ua = false := by
    refine Bool.eq_false_iff.mpr fun hremoves => ?_
    have hburies : Ua.Buries m.ua ua := hua ▸ Mach.step_buries (m := { m with seq := c.seq }) ulabel hsound
    have hdead := dies_dead hburies (removes_dies hremoves).1
    rw [← hua] at halive
    simp [isDead, hdead] at halive
  cases h with
  | stepped ua hua hremovals => exact ⟨hua, by simp [hremovals, hno hua]⟩
  | unburied ua hua hremoves => simp [hno hua] at hremoves

/-- Once a leg has moved none is without a state. -/
theorem Kept.born (h : Kept c) {l : Leg} {ulabel : Ua.Label} (hcauses : Causes c label l ulabel) {m : Mach} {ua : UA}
    (hl : c.leg l = some m) (hua : ua = ({ m with seq := c.seq }.step ulabel).ua) {k : ℕ} {ua' : UA}
    (hk : (putLeg c.legs l ua).2[k]? = some ua') : ua'.state.isSome := by
  have hother (hk : c.legs.2[k]? = some ua') (hne : l ≠ .uaO k) : ua'.state.isSome := by
    rw [Option.isSome_iff_ne_none]
    exact fun hnone => hne (hcauses.unborn (h.unborn k ua' hk hnone).2.2).1
  cases l with
  | uaA => exact hother hk (by simp)
  | uaO j =>
    replace hk : (c.legs.2.set j ua)[k]? = some ua' := hk
    by_cases hne : j = k
    · subst hne
      have hj : c.uaOs[j]? = some m := hl
      have hold : c.legs.2[j]? = some m.ua := by simp [legs, hj]
      have hlt : j < c.legs.2.length := (List.getElem?_eq_some_iff.mp hold).1
      obtain rfl : ua = ua' := by simpa [List.getElem?_set_self hlt] using hk
      have hsound := h.sane.leg (l := .uaO j) hl
      rw [hua]
      cases hs : m.ua.state with
      | some s =>
        have hsome : m.ua.state.isSome := by simp [hs]
        exact Mach.step_isSome (m := { m with seq := c.seq }) hsound hsome
      | none =>
        obtain ⟨hlast, -, hsends⟩ := h.unborn j m.ua hold hs
        obtain ⟨-, e, io, rfl, he⟩ := hcauses.unborn hsends
        have hidle : m.idle := by
          have hlength : c.legs.2.length = c.uaOs.length := by simp [legs]
          have hO : c.uaO = some m := by
            rw [uaO, List.getLast?_eq_getElem?, ← hlength, ← hlast, Nat.add_sub_cancel, hj]
          simpa [hO] using hsends.2
        exact Mach.first_event (m := { m with seq := c.seq }) hidle hs he hsound
    · rw [List.getElem?_set_ne hne] at hk
      exact hother hk fun h => hne (Leg.uaO.inj h)

theorem Kept.moved (h : Kept c) {l : Leg} {ulabel : Ua.Label} (hcauses : Causes c label l ulabel)
    (hmoved : Moved c l ulabel c') (hno : c.revives label = false) (hlisting : c'.listing = c.listing) :
    Kept c' := by
  cases hmoved with
  | absent hl hlegs _ hinMap hremovals hhops =>
    refine h.of_legs hlegs hinMap hremovals (hhops h.hops) hlisting fun k ua hk hsends => ?_
    obtain ⟨rfl, -⟩ := hcauses.unborn hsends
    replace hl : c.uaOs[k]? = none := hl
    simp [legs, hl] at hk
  | moved m ua hl hout hlegs _ hhops =>
    have hsound := h.sane.leg hl
    have hm := h.buried.leg hl
    have hdead {ua : UA} (hua : ua = ({ m with seq := c.seq }.step ulabel).ua) :=
      isDead_step hua hsound hm (hcauses.revives hl hno)
    have hlive (hlist : c.listing) (hA : l = .uaA) :
        ({ m with seq := c.seq }.step ulabel).ua.state.any UaState.live := by
      subst hA
      obtain rfl : c.uaA = m := Option.some.inj hl
      have hmild := hcauses.mild (listing_work hlist)
      exact Mach.step_live (m := { c.uaA with seq := c.seq }) hsound (h.answers hlist) hmild
    have hheld {ua : UA} (hua : ua = ({ m with seq := c.seq }.step ulabel).ua) (hremoves : removes c.legs l m.ua ua) :
        c.inMap = true := by
      obtain ⟨hdies, hother⟩ := removes_dies hremoves
      have halive : allDead c.legs = false := by
        have hdisj := (allDead_put hl (hdead hua).2.1 (hdead hua).2.2).2
        simpa [hremoves] using hdisj
      refine (h.listed halive).resolve_right fun hlist => ?_
      cases l with
      | uaO k =>
        have hA : isDead c.legs.1 = false := isDead_of_live (h.answers hlist)
        simp [otherDead, hA] at hother
      | uaA =>
        have hburies : Ua.Buries m.ua ua := hua ▸ Mach.step_buries (m := { m with seq := c.seq }) ulabel hsound
        have hlive := hlive hlist rfl
        rw [← hua, dies_dead hburies hdies] at hlive
        cases hlive
    cases hout with
    | unburied ua hua hremoves hnone => simp [hheld hua hremoves] at hnone
    | stepped ua hua hremovals hinMap =>
      obtain ⟨hcbs, hstays, hdies⟩ := hdead hua
      obtain ⟨hall, hdisj⟩ := allDead_put hl hstays hdies
      have hsome (hs : m.ua.state.isSome) : ua.state.isSome :=
        hua ▸ Mach.step_isSome (m := { m with seq := c.seq }) hsound hs
      have hA : c'.legA = (putLeg c.legs l ua).1.state := congrArg (fun l : UA × List UA => l.1.state) hlegs
      refine ⟨hlegs ▸ h.sane.put ?_, hlegs ▸ h.buried.put hcbs, hhops h.hops, ?_, fun k ua' hk hnone => ?_,
        ?_, ?_, ?_, ?_⟩
      · exact hua ▸ (Mach.metered (m := { m with seq := c.seq }) ulabel hsound).1
      · rw [hA]
        cases l with
        | uaA =>
          obtain rfl : c.uaA = m := Option.some.inj hl
          exact hsome h.begun
        | uaO k => exact h.begun
      · rw [hlegs] at hk
        have hborn := h.born hcauses hl hua hk
        simp [hnone] at hborn
      · rw [hlisting]
        intro hlist
        rw [hA]
        cases l with
        | uaA => exact hua ▸ hlive hlist rfl
        | uaO k => exact h.answers hlist
      · rw [hremovals, hlegs, hall, h.removed]
        revert hdisj
        cases allDead c.legs <;> cases removes c.legs l m.ua ua <;> decide
      · rw [hlegs, hall, hinMap]
        intro hor
        rcases Bool.or_eq_true_iff.mp hor with hd | hr
        · simp [h.gone hd]
        · simp [hr]
      · rw [hlegs, hall, hinMap, hlisting]
        intro hnor
        obtain ⟨halive, hr⟩ := Bool.or_eq_false_iff.mp hnor
        simpa [hr] using h.listed halive

theorem Kept.next (hpo : ∀ value, cfg.poProc value = .ok ⟨⟩) (h : Kept c) (hok : orderly cfg src c label) :
    Kept (step cfg src c label) := by
  obtain ⟨⟨hhops, -⟩, hno⟩ : (c.hopsLeft = true ∧ (c.unlisted && raises cfg src c label) = false) ∧
      c.revives label = false := by
    simpa only [orderly, Bool.and_eq_true, Bool.not_eq_true'] using hok
  have hlisting (hwork : ∀ ws, c.work ≠ .append :: ws) := listing_step h.begun hwork hok
  cases step_inversion cfg src c label with
  | rests hc => rwa [hc]
  | appended ws hwork hc =>
    have hlist : c.listing := by simp [listing, hwork, Work.isAppend]
    have hA : isDead c.legs.1 = false := isDead_of_live (h.answers hlist)
    have halive : allDead c.legs = false := by simp [allDead, hA]
    rw [hc]
    refine ⟨h.sane, h.buried, h.hops, h.begun, fun k ua hk hnone => ?_, fun _ => h.answers hlist, h.removed,
      fun hd => absurd (hd.symm.trans halive) (by simp), fun _ => .inl rfl⟩
    obtain ⟨⟨e, ws', -, hsend⟩, -⟩ := (h.unborn k ua hk hnone).2.2
    simp [hwork] at hsend
  | manned hown hm =>
    have hborn (k : ℕ) : ¬ c.Sends k := by
      rintro ⟨⟨e, ws, -, hwork⟩, -⟩
      cases hown _ _ hwork
    have hlisting := hlisting fun ws hwork => by cases hown _ _ hwork
    cases hm.made with
    | stays hlegs =>
      exact h.of_legs hlegs hm.inMap hm.removals (hm.hops hhops h.hops) hlisting fun k _ _ => hborn k
    | makes r nh proxied hA hlegs hsent =>
      have hhops' := hm.hops hhops h.hops
      exact h.made hA hlegs hm.inMap hm.removals hhops' hlisting hborn (hsent hpo hhops')
  | moved l ulabel hcauses hmoved => exact h.moved hcauses hmoved hno (hlisting (not_append_of_causes hcauses))

/-- Nothing begins before the INVITE. -/
theorem step_start (h : ∀ req io, label = .invite req io → req.method ≠ .invite) :
    step cfg src (start cfg) label = start cfg := by
  have haction : action cfg src (start cfg) label = pure ⟨⟩ := by
    cases label with
    | invite req io => exact if_neg fun hc => h req io rfl hc.2
    | input l i io =>
      have hoff : (start cfg).isOn l = false := by cases l <;> rfl
      exact if_neg fun hc => by simp [hoff] at hc
    | work | rDone => rfl
    | groupExpires skipto => simp [action, start]
  unfold step
  rw [haction]
  rfl

theorem Kept.invited {req : Request} {io : Ua.Io} (hm : req.method = .invite)
    (hok : orderly cfg src (start cfg) (.invite req io)) : Kept (step cfg src (start cfg) (.invite req io)) := by
  generalize hc' : step cfg src (start cfg) (.invite req io) = c'
  have hmoved := step_invite_moved cfg src (c := start cfg) io rfl rfl hm
  have hlisting : c'.listing = true := by
    have hlists : (start cfg).lists (.invite req io) = true := by
      simp [lists, remaining, start, hm, legA, Mach.start, calledUA, UA.new, Work.isAppend]
    have hraises : raises cfg src (start cfg) (.invite req io) = false := by
      simp only [orderly, Bool.and_eq_true, Bool.not_eq_true'] at hok
      exact hok.1.2
    rw [← hc', step_listing, hlists, hraises]
    rfl
  rw [hc'] at hmoved
  cases hmoved with
  | absent hl => cases hl
  | moved m ua hl hout hlegs _ hhops =>
    obtain rfl : (start cfg).uaA = m := Option.some.inj hl
    have hsound : (start cfg).uaA.ua.Sound := start_sane.called
    have hnew : ¬ (calledUA cfg).stale req := by simp [UA.stale, calledUA, UA.new]
    have hfirst := Mach.first_invite (m := { (start cfg).uaA with seq := (start cfg).seq }) io rfl rfl hm hnew hsound
    obtain ⟨hua, hremovals⟩ := hout.spared hsound (isDead_of_live hfirst)
    rw [← hua] at hfirst
    have halive := isDead_of_live hfirst
    have hlegs : c'.legs = (ua, []) := hlegs
    have hA : c'.legA = ua.state := congrArg (fun l : UA × List UA => l.1.state) hlegs
    have hall : allDead c'.legs = false := by simp [hlegs, allDead, halive]
    refine ⟨?_, ?_, hhops rfl, ?_, ?_, fun _ => hA ▸ hfirst, ?_, fun hd => absurd (hd.symm.trans hall) (by simp),
      fun _ => .inr hlisting⟩
    · rw [hlegs, hua]
      exact ⟨(Mach.metered (m := { (start cfg).uaA with seq := (start cfg).seq }) _ hsound).1, by simp⟩
    · rw [hlegs]
      exact ⟨(isDead_step hua hsound rfl rfl).1, by simp⟩
    · rw [hA]
      exact Option.isSome_of_any hfirst
    · simp [hlegs]
    · rw [hremovals, hall]
      rfl

/-- The call map is right in every orderly run, if no processor that a route names raises. -/
theorem map_right (hpo : ∀ value, cfg.poProc value = .ok ⟨⟩) (src : CallSource) {ls : List CallLabel}
    (h : Lib.Along (step cfg src) (fun c label => orderly cfg src c label) (start cfg) ls) :
    MapRight (Lib.run (step cfg src) (start cfg) ls) := by
  have hstep (c : CallController) (label : CallLabel) (hok : orderly cfg src c label)
      (hc : c = start cfg ∨ Kept c) : step cfg src c label = start cfg ∨ Kept (step cfg src c label) := by
    rcases hc with rfl | hc
    · by_cases hinvite : ∃ req io, label = .invite req io ∧ req.method = .invite
      · obtain ⟨req, io, rfl, hm⟩ := hinvite
        exact .inr (.invited hm hok)
      · exact .inl (step_start fun req io hl hm => hinvite ⟨req, io, hl, hm⟩)
    · exact .inr (hc.next hpo hok)
  rcases h.invariant (I := fun c => c = start cfg ∨ Kept c) hstep (.inl rfl) with hc | hc
  · rw [hc]
    exact ⟨Nat.zero_le _, fun hdead => by cases hdead⟩
  · exact hc.mapRight

end Keeping

section Ending

/-- A call that is answered and hung up. -/
def endedCall : List CallLabel :=
  done (.invite (offeringInvite 1 ['x']) .calm) ++
  done (.rDone (Hunt.gateways, 0) 0) ++
  done (.input (.uaO 0) (.sdpUpdated proxiedOffer ⟨['y'], ['y'], false⟩) .calm) ++
  done (.input (.uaO 0) (.response { Response.bare 200 .invite 1 with body := some (sampleBody ['z']) } []) .calm) ++
  done (.input (.uaO 0) (.sdpUpdated proxiedAnswer ⟨['w'], ['w'], false⟩) .calm) ++
  done (.input .uaA (.request (Request.bare .bye 2)) .calm) ++
  done (.input .uaA (.timeout .goDead) .calm) ++
  done (.input (.uaO 0) (.timeout .goDead) .calm)

theorem map_right_endedCall : MapRight (Lib.run (step proxiedConfig callerSource) (start proxiedConfig) endedCall) :=
  map_right (fun _ => rfl) callerSource (by decide +kernel)

/-- A call with one hop left, which is refused and dies. -/
def lastHopCall : List CallLabel :=
  done (.invite { offeringInvite 1 ['x'] with maxForwards := some (.ok 1) } .calm) ++
  done (.rDone (Hunt.gateways, 0) 0) ++
  done (.input .uaA (.timeout .goDead) .calm)

theorem lastHopCall_stays :
    ¬ MapRight (Lib.run (step proxiedConfig callerSource) (start proxiedConfig) lastHopCall) := by
  intro h
  have hA : (Lib.run (step proxiedConfig callerSource) (start proxiedConfig) lastHopCall).uaA.ua.state =
      some .dead := by
    decide +kernel
  have hO : ∀ m ∈ (Lib.run (step proxiedConfig callerSource) (start proxiedConfig) lastHopCall).uaOs,
      m.ua.state = none ∨ m.ua.state = some .dead := by
    have hall : (Lib.run (step proxiedConfig callerSource) (start proxiedConfig) lastHopCall).uaOs.all
        (fun m => m.ua.state = none) = true := by
      decide +kernel
    exact fun m hm => .inl (by simpa using List.all_eq_true.mp hall m hm)
  have hmap : (Lib.run (step proxiedConfig callerSource) (start proxiedConfig) lastHopCall).inMap = true := by
    decide +kernel
  exact absurd (hmap.symm.trans (h.gone hA hO)) (by decide)

end Ending

end CallController
end SippyB2bua.B2B
