import SippyB2bua.B2B.CallController

/-!
# What a step of a call does to its legs

The controller makes a leg while the caller has no answer, and leaves those there are alone. Every
other step is a step of one leg.
-/

namespace SippyB2bua.B2B
open Lib (Text wp)
open Ua (Act CCEvent Input Io Kind Mach Request Time UA)

namespace CallController

/-- The user agents of the two sides. -/
def legs (c : CallController) : UA × List UA := (c.uaA.ua, c.uaOs.map (·.ua))

/-- The caller has no answer yet. -/
def waits (c : CallController) : Prop := c.legA = some .uasTrying ∨ c.legA = some .uasRinging

/-- The attempts have hops left. -/
def hops (c : CallController) : Bool := c.eTry.all fun e => e.2.2.all (1 < ·)

/-- The call map is still to get the call. -/
def listing (c : CallController) : Bool := c.work.any Work.isAppend

/-- Neither an event for a leg nor the call map is next. -/
def isOwn : Work → Bool
  | .send _ _ | .append => false
  | _ => true

/-- A leg that was made is to get its first event next. -/
def Sends (c : CallController) (k : ℕ) : Prop :=
  (∃ e ws, UA.wakes e ∧ c.work = .send (.uaO k) e :: ws) ∧ c.uaO.all Mach.idle

/-- What the controller itself does to the legs: it makes one at most, while the caller waits. -/
inductive Made (cfg : CallConfig) (src : CallSource) (c c' : CallController) : Prop
  | stays (h : c'.legs = c.legs)
  | makes (r : B2BRoute) (nh : Addr × Text) (proxied : Bool) (hA : c.waits)
      (h : c'.legs = (c.legs.1, c.legs.2 ++ [originateUA cfg src r nh proxied]))
      (hsent : (∀ value, cfg.poProc value = .ok ⟨⟩) → c'.hops → c'.Sends c.legs.2.length)

/-- Something is to be done first, but the call map does not get the call by it. -/
def Heaped (ws ws' : List Work) : Prop := ∃ new, ws' = new ++ ws ∧ new.any Work.isAppend = false

/-- The legs and the call map are left alone, and all that was to be done still is; `P` tells that the
event that is looked at has hops left. -/
structure Leaves (P : Prop) (c c' : CallController) : Prop where
  legs : c'.legs = c.legs
  log : c'.uaA.log = c.uaA.log
  inMap : c'.inMap = c.inMap
  removals : c'.removals = c.removals
  hops : P → c.hops → c'.hops
  work : Heaped c.work c'.work

structure Mans (cfg : CallConfig) (src : CallSource) (P : Prop) (c c' : CallController) : Prop where
  made : Made cfg src c c'
  log : c'.uaA.log = c.uaA.log
  inMap : c'.inMap = c.inMap
  removals : c'.removals = c.removals
  hops : P → c.hops → c'.hops

def MansAll (cfg : CallConfig) (src : CallSource) (P : Prop) (p : C PUnit) (c : CallController) : Prop :=
  wp p (fun _ c' => Mans cfg src P c c' ∧ Heaped c.work c'.work) (fun _ c' => Mans cfg src P c c'.abort) c

section Rules
variable {c : CallController} {Q : PUnit → CallController → Prop} {E : Exn → CallController → Prop}

@[simp] theorem wp_push {ws : List Work} : wp (push ws) Q E c ↔ Q ⟨⟩ { c with work := ws ++ c.work } := Iff.rfl

@[simp] theorem wp_newEvent {kind : Kind} {t : Time} {S : CCEvent → CallController → Prop} :
    wp (newEvent kind t) S E c ↔ S ⟨kind, t, none, c.seq, none⟩ { c with seq := c.seq + 1 } := Iff.rfl

end Rules

theorem legs_abort (c : CallController) : c.abort.legs = c.legs := by simp [abort, legs]

section Manning
variable {cfg : CallConfig} {src : CallSource} {now : Time} {P : Prop} {c c₁ c' : CallController} {α : Type}

theorem waits_of_legs (h : c₁.legs = c.legs) : c₁.waits ↔ c.waits := by
  have hA : c₁.legA = c.legA := congrArg (fun l : UA × List UA => l.1.state) h
  simp only [waits, hA]

theorem Heaped.refl (ws : List Work) : Heaped ws ws := ⟨[], rfl, rfl⟩

theorem Heaped.of_eq {ws ws' : List Work} (h : ws' = ws) : Heaped ws ws' := h ▸ .refl ws

theorem Heaped.trans {ws ws₁ ws' : List Work} (h : Heaped ws ws₁) (h' : Heaped ws₁ ws') : Heaped ws ws' := by
  obtain ⟨new, rfl, hno⟩ := h
  obtain ⟨new', rfl, hno'⟩ := h'
  exact ⟨new' ++ new, (List.append_assoc ..).symm, by simp [List.any_append, hno, hno']⟩

theorem Heaped.any_isAppend {ws ws' : List Work} (h : Heaped ws ws') :
    ws'.any Work.isAppend = ws.any Work.isAppend := by
  obtain ⟨new, rfl, hno⟩ := h
  rw [List.any_append, hno, Bool.false_or]

theorem Leaves.refl (c : CallController) : Leaves P c c := ⟨rfl, rfl, rfl, rfl, fun _ h => h, .refl _⟩

theorem Leaves.trans (h : Leaves P c c₁) (h' : Leaves P c₁ c') : Leaves P c c' where
  legs := h'.legs.trans h.legs
  log := h'.log.trans h.log
  inMap := h'.inMap.trans h.inMap
  removals := h'.removals.trans h.removals
  hops hP hc := h'.hops hP (h.hops hP hc)
  work := h.work.trans h'.work

theorem Leaves.mans (h : Leaves P c c') : Mans cfg src P c c' :=
  ⟨.stays h.legs, h.log, h.inMap, h.removals, h.hops⟩

theorem Leaves.aborts (h : Leaves P c c') : Mans cfg src P c c'.abort :=
  ⟨.stays ((legs_abort c').trans h.legs), h.log, h.inMap, h.removals, h.hops⟩

theorem Mans.after (h : Mans cfg src P c₁ c') (h₁ : Leaves P c c₁) : Mans cfg src P c c' := by
  refine ⟨?_, h.log.trans h₁.log, h.inMap.trans h₁.inMap, h.removals.trans h₁.removals,
    fun hP hc => h.hops hP (h₁.hops hP hc)⟩
  cases h.made with
  | stays h => exact .stays (h.trans h₁.legs)
  | makes r nh proxied hA h hsent =>
    exact .makes r nh proxied ((waits_of_legs h₁.legs).mp hA) (h₁.legs ▸ h) (h₁.legs ▸ hsent)

namespace MansAll

theorem leaves {p : C PUnit} (h : wp p (fun _ c' => Leaves P c c') (fun _ c' => Leaves P c c') c) :
    MansAll cfg src P p c := Lib.wp_mono h (fun _ _ h => ⟨h.mans, h.work⟩) fun _ _ h => h.aborts

theorem pure : MansAll cfg src P (Pure.pure ⟨⟩) c := leaves (.refl c)

theorem throw {e : Exn} : MansAll cfg src P (throw e) c := leaves (.refl c)

theorem get_bind {p : CallController → C PUnit} (h : MansAll cfg src P (p c) c) :
    MansAll cfg src P (get >>= p) c := h

/-- What goes before leaves the call alone. -/
theorem next {q : C α} {p : α → C PUnit} (hq : wp q (fun _ c' => Leaves P c c') (fun _ c' => Leaves P c c') c)
    (hp : ∀ a c₁, Leaves P c c₁ → MansAll cfg src P (p a) c₁) : MansAll cfg src P (q >>= p) c := by
  unfold MansAll
  rw [Lib.wp_bind]
  refine Lib.wp_mono hq (fun a c₁ h => ?_) fun _ _ h => h.aborts
  exact Lib.wp_mono (hp a c₁ h) (fun _ _ h' => ⟨h'.1.after h, h.work.trans h'.2⟩) fun _ _ h' => h'.after h

theorem update_bind {f : CallController → CallController} {p : PUnit → C PUnit}
    (hf : Leaves P c (f c)) (hp : ∀ c₁, Leaves P c c₁ → MansAll cfg src P (p ⟨⟩) c₁) :
    MansAll cfg src P (modify f >>= p) c := next hf fun _ => hp

theorem ite {d : Prop} [Decidable d] {p q : C PUnit} (hp : d → MansAll cfg src P p c)
    (hq : ¬ d → MansAll cfg src P q c) : MansAll cfg src P (if d then p else q) c := by
  split
  · exact hp ‹_›
  · exact hq ‹_›

theorem ofExcept_bind {x : Lazy α} {p : α → C PUnit} (hp : ∀ a, MansAll cfg src P (p a) c) :
    MansAll cfg src P (ofExcept x >>= p) c := by
  cases x with
  | ok a => exact hp a
  | error e => exact throw

theorem push {ws : List Work} (h : ws.any Work.isAppend = false) : MansAll cfg src P (push ws) c :=
  leaves ⟨rfl, rfl, rfl, rfl, fun _ h => h, ws, rfl, h⟩

theorem refuse {code : ℤ} {reason : String} : MansAll cfg src P (refuse code reason now) c :=
  leaves ⟨rfl, rfl, rfl, rfl, fun _ h => h, _, rfl, rfl⟩

end MansAll

/-- A part of the state is written that does not count here. -/
theorem leaves_update (hlegs : c'.legs = c.legs) (hlog : c'.uaA.log = c.uaA.log) (hinMap : c'.inMap = c.inMap)
    (hremovals : c'.removals = c.removals) (heTry : c'.eTry = c.eTry) (hwork : c'.work = c.work) : Leaves P c c' :=
  ⟨hlegs, hlog, hinMap, hremovals, fun _ h => by rwa [hops, heTry], .of_eq hwork⟩

theorem placeOriginate_mans (hA : c.waits) (r : B2BRoute) :
    MansAll cfg src P (placeOriginate cfg src now r) c := by
  refine .update_bind (leaves_update rfl rfl rfl rfl rfl rfl) fun c₁ h₁ => .get_bind ?_
  replace hA := (waits_of_legs h₁.legs).mpr hA
  split
  · exact .throw
  · rename_i eTry data maxForwards heTry
    refine .ofExcept_bind fun cld => .ofExcept_bind fun nh => .get_bind (.get_bind ?_)
    let ua := originateUA cfg src r nh (c₁.rtpSession && rtppParam r)
    have hmade (c' : CallController) (hleg : c'.uaA.ua = c₁.uaA.ua) (hlog : c'.uaA.log = c₁.uaA.log)
        (hlegs : c'.uaOs.map (·.ua) = c₁.uaOs.map (·.ua) ++ [ua])
        (hinMap : c'.inMap = c₁.inMap) (hremovals : c'.removals = c₁.removals) (heTry : c'.eTry = c₁.eTry)
        (hsent : (∀ value, cfg.poProc value = .ok ⟨⟩) → c'.hops → c'.Sends c₁.uaOs.length) :
        Mans cfg src P c₁ c' := by
      refine ⟨.makes r nh (c₁.rtpSession && rtppParam r) hA ?_ ?_, hlog, hinMap, hremovals,
        fun _ h => by rwa [hops, heTry]⟩
      · simp [legs, hleg, hlegs, ua]
      · simpa [legs] using hsent
    unfold MansAll
    simp only [Lib.wp_bind, Lib.wp_modify, Lib.wp_get, wp_newEvent, Lib.wp_ite]
    refine ⟨fun hfew => ?_, fun hmany => ?_⟩
    · have hnone : c₁.hops = false := by
        cases maxForwards with
        | none => simp at hfew
        | some n =>
          replace hfew : n - 1 ≤ 0 := by simpa using hfew
          have hle : n ≤ 1 := by omega
          simp [hops, heTry, hle]
      refine ⟨hmade _ rfl rfl (by simp [Mach.start, ua]) rfl rfl rfl fun _ h => ?_, _, rfl, rfl⟩
      exact absurd (h.symm.trans hnone) (by simp)
    · have hsends {no : ℕ} {e : CCEvent} {c' : CallController} (hwork : c'.work = .send (.uaO no) e :: c₁.work)
          (he : UA.wakes e) (hlast : c'.uaO.all Mach.idle) : c'.Sends no := ⟨⟨e, _, he, hwork⟩, hlast⟩
      split
      · rw [Lib.wp_bind, Lib.wp_ofExcept]
        split
        · refine ⟨hmade _ rfl rfl (by simp [Mach.start, ua]) rfl rfl rfl fun _ _ => ?_, _, rfl, rfl⟩
          exact hsends rfl rfl (by simp [uaO, Mach.start, Mach.idle])
        · rename_i value _ _ e hpo
          refine hmade _ rfl rfl (by simp [Mach.start, abort, ua]) rfl rfl rfl fun hno _ => ?_
          exact absurd (hpo.symm.trans (hno value)) (by simp)
      · refine ⟨hmade _ rfl rfl (by simp [Mach.start, ua]) rfl rfl rfl fun _ _ => ?_, _, rfl, rfl⟩
        exact hsends rfl rfl (by simp [uaO, Mach.start, Mach.idle])

theorem placeNext_mans (hA : c.waits) : MansAll cfg src P (placeNext cfg src now) c := by
  refine .get_bind ?_
  split
  · exact .pure
  · exact .update_bind (leaves_update rfl rfl rfl rfl rfl rfl) fun _ h =>
      placeOriginate_mans ((waits_of_legs h.legs).mpr hA) _

theorem rDone_mans (results : List Avp × ℤ) : MansAll cfg src P (rDone cfg src now results) c := by
  refine .get_bind (.ite (fun _ => .ite (fun _ => .ite (fun _ => .refuse) fun _ => .refuse) fun _ => .pure)
    fun _ => .ite (fun hA => ?_) fun _ => .pure)
  refine .update_bind (leaves_update rfl rfl rfl rfl rfl rfl) fun c₁ h₁ => ?_
  refine .next (by rw [Lib.wp_discard, Lib.wp_ofExcept]; split <;> exact .refl _) fun _ c₂ h₂ => ?_
  refine .ite (fun _ => .refuse) fun _ => .ofExcept_bind fun routes => ?_
  refine .update_bind (leaves_update rfl rfl rfl rfl rfl rfl) fun c₃ h₃ => .ite (fun _ => .refuse) fun _ => ?_
  refine .update_bind (leaves_update rfl rfl rfl rfl rfl rfl) fun c₄ h₄ => placeNext_mans ?_
  exact (waits_of_legs (h₄.legs.trans (h₃.legs.trans (h₂.legs.trans h₁.legs)))).mpr (.inl hA)

theorem recvEventA_mans (e : CCEvent)
    (hP : P → c.state = .idle → ∀ data mf, e.kind = .setup data mf → mf.all (1 < ·)) :
    MansAll cfg src P (recvEventA cfg src now e) c := by
  refine .get_bind (.ite (fun hidle => ?_) fun _ => .ite (fun _ => ?_) fun _ => .pure)
  · split
    · rename_i data mf hkind
      refine .update_bind (leaves_update rfl rfl rfl rfl rfl rfl) fun c₁ h₁ => ?_
      split
      · exact .refuse
      · refine .ofExcept_bind fun cld => .next ?_ fun _ c₂ h₂ => ?_
        · unfold makeSession
          rw [Lib.wp_ite, Lib.wp_ofExcept]
          refine ⟨fun _ => ?_, fun _ => .refl _⟩
          split <;> exact .refl _
        · refine .update_bind ⟨rfl, rfl, rfl, rfl, fun h _ => ?_, .refl _⟩ fun _ _ => ?_
          · exact hP h hidle data mf hkind
          · refine .ite (fun _ => .ofExcept_bind fun _ => ?_) fun _ => rDone_mans _
            exact .leaves (leaves_update rfl rfl rfl rfl rfl rfl)
    · exact .next (leaves_update rfl rfl rfl rfl rfl rfl) fun _ _ _ => .push rfl
  · split
    · exact .pure
    · exact .push rfl

theorem recvEventO_mans (e : CCEvent) : MansAll cfg src P (recvEventO cfg src now e) c := by
  refine .get_bind (.ite (fun h => .ofExcept_bind fun stop => ?_) fun _ => .push rfl)
  exact .ite (fun _ => .push rfl) fun _ => placeNext_mans h.2.2.1

theorem groupExpires_mans (skipto : ℤ) : MansAll cfg src P (groupExpires skipto) c := by
  refine .get_bind (.ofExcept_bind fun hunt => ?_)
  refine .update_bind (leaves_update rfl rfl rfl rfl rfl rfl) fun _ _ => .get_bind ?_
  split
  · exact .push rfl
  · exact .pure

end Manning
section Advancing
variable {c c₁ c' : CallController} {P : Prop}

/-- Another user agent in the place of a leg. -/
def putLeg (legs : UA × List UA) (l : Leg) (ua : UA) : UA × List UA :=
  match l with
  | .uaA => (ua, legs.2)
  | .uaO k => (legs.1, legs.2.set k ua)

theorem legs_setLeg (c : CallController) (l : Leg) (m : Mach) : (c.setLeg l m).legs = putLeg c.legs l m.ua := by
  cases l with
  | uaA => rfl
  | uaO k => simp [setLeg, legs, putLeg]

theorem putLeg_putLeg (legs : UA × List UA) (l : Leg) (ua ua' : UA) :
    putLeg (putLeg legs l ua) l ua' = putLeg legs l ua' := by
  cases l with
  | uaA => rfl
  | uaO k => simp [putLeg]

/-- The other side has died. -/
def otherDead (legs : UA × List UA) : Leg → Bool
  | .uaA => legs.2.getLast?.all isDead
  | .uaO k => k + 1 = legs.2.length && isDead legs.1

theorem otherDead_putLeg (legs : UA × List UA) (l : Leg) (ua : UA) :
    otherDead (putLeg legs l ua) l = otherDead legs l := by
  cases l with
  | uaA => rfl
  | uaO k =>
    show (decide (k + 1 = (legs.2.set k ua).length) && isDead legs.1) = _
    rw [List.length_set]
    rfl

/-- `ccmap.remove` is executed for the death of a leg. -/
def removes (legs : UA × List UA) (l : Leg) (ua ua' : UA) : Bool := dies ua ua' && otherDead legs l

theorem heed_leaves (l : Leg) (a : Act) : wp (heed l a) (fun _ c' => Leaves True c c') (fun _ _ => False) c := by
  unfold heed
  split
  · exact ⟨rfl, rfl, rfl, rfl, fun _ h => h, _, rfl, rfl⟩
  · exact leaves_update rfl rfl rfl rfl rfl rfl
  · exact leaves_update rfl rfl rfl rfl rfl rfl
  · exact leaves_update rfl rfl rfl rfl rfl rfl
  · exact .refl c

theorem heedAll_leaves (l : Leg) (acts : List Act) :
    wp (acts.forM (heed l)) (fun _ c' => Leaves True c c') (fun _ _ => False) c := by
  induction acts generalizing c with
  | nil => exact .refl c
  | cons a acts ih =>
    show wp (heed l a >>= fun _ => acts.forM (heed l)) _ _ c
    rw [Lib.wp_bind]
    refine Lib.wp_mono (heed_leaves l a) (fun _ c₁ h => ?_) fun _ _ h => h
    exact Lib.wp_mono ih (fun _ _ h' => h.trans h') fun _ _ h => h

/-- The call map after a removal, or after none. -/
structure Counts (b : Bool) (c c' : CallController) : Prop where
  legs : c'.legs = c.legs
  log : c'.uaA.log = c.uaA.log
  removals : c'.removals = c.removals + b.toNat
  inMap : c'.inMap = (c.inMap && !b)
  eTry : c'.eTry = c.eTry
  work : c'.work = c.work

theorem remove_counts :
    wp remove (fun _ c' => Counts true c c') (fun _ c' => Counts true c c' ∧ c.inMap = false) c := by
  unfold remove
  rw [Lib.wp_bind, Lib.wp_get, Lib.wp_bind, Lib.wp_modify, Lib.wp_ite]
  have hcounts : Counts true c { c with removals := c.removals + 1, inMap := false } :=
    ⟨rfl, rfl, rfl, by simp, rfl, rfl⟩
  exact ⟨fun h => ⟨hcounts, h⟩, fun _ => hcounts⟩

theorem bury_counts (l : Leg) :
    wp (bury l) (fun _ c' => Counts (otherDead c.legs l) c c')
      (fun _ c' => Counts true c c' ∧ otherDead c.legs l ∧ c.inMap = false) c := by
  have hnone (h : otherDead c.legs l = false) : Counts (otherDead c.legs l) c c :=
    h ▸ ⟨rfl, rfl, rfl, by simp, rfl, rfl⟩
  have hremove (h : otherDead c.legs l = true) : wp remove (fun _ c' => Counts (otherDead c.legs l) c c')
      (fun _ c' => Counts true c c' ∧ otherDead c.legs l ∧ c.inMap = false) c := by
    rw [h]
    exact Lib.wp_mono remove_counts (fun _ _ h => h) fun _ _ h => ⟨h.1, rfl, h.2⟩
  cases l with
  | uaA =>
    have hdead : (c.uaO.all fun m => isDead m.ua) = otherDead c.legs .uaA := by
      simp [otherDead, legs, uaO, List.getLast?_map, Option.all_map]
    unfold bury aDead
    rw [Lib.wp_bind, Lib.wp_get, hdead, Lib.wp_ite]
    exact ⟨hremove, fun h => hnone (by simpa using h)⟩
  | uaO k =>
    have hdead : (k + 1 = c.uaOs.length ∧ isDead c.uaA.ua = true) ↔ otherDead c.legs (.uaO k) = true := by
      simp [otherDead, legs]
    unfold bury oDead
    rw [Lib.wp_bind, Lib.wp_get, Lib.wp_ite]
    exact ⟨fun h => hremove (hdead.mp h), fun h => hnone (by simpa using fun h' => h (hdead.mpr h'))⟩

/-- How a step may leave the user agent of a leg, and the call map. -/
inductive Outcome (c : CallController) (l : Leg) (m : Mach) (label : Ua.Label) (c' : CallController) : UA → Prop
  | stepped (ua : UA) (hua : ua = ({ m with seq := c.seq }.step label).ua)
      (hremovals : c'.removals = c.removals + (removes c.legs l m.ua ua).toNat)
      (hinMap : c'.inMap = (c.inMap && !removes c.legs l m.ua ua)) : Outcome c l m label c' ua
  /-- `dead_cbs` raised. -/
  | unburied (ua : UA) (hua : ua = ({ m with seq := c.seq }.step label).ua)
      (hremoves : removes c.legs l m.ua ua) (hno : c.inMap = false)
      (hremovals : c'.removals = c.removals + 1) (hinMap : c'.inMap = false) :
      Outcome c l m label c' (unbury m.ua ua)

/-- What `uaA` has done once a leg has done what `log` holds. -/
def logAfter (c : CallController) (log : List Act) : Leg → List Act
  | .uaA => log
  | .uaO _ => c.uaA.log

/-- A leg has done a step. -/
inductive Moved (c : CallController) (l : Leg) (label : Ua.Label) (c' : CallController) : Prop
  | absent (hl : c.leg l = none) (hlegs : c'.legs = c.legs) (hlog : c'.uaA.log = c.uaA.log)
      (hinMap : c'.inMap = c.inMap) (hremovals : c'.removals = c.removals) (hops : c.hops → c'.hops)
  | moved (m : Mach) (ua : UA) (hl : c.leg l = some m) (hua : Outcome c l m label c' ua)
      (hlegs : c'.legs = putLeg c.legs l ua)
      (hlog : c'.uaA.log = c.logAfter ({ m with seq := c.seq }.step label).log l) (hops : c.hops → c'.hops)

/-- Nothing of this is changed. -/
structure Same (c c' : CallController) : Prop where
  legs : c'.legs = c.legs
  log : c'.uaA.log = c.uaA.log
  inMap : c'.inMap = c.inMap
  removals : c'.removals = c.removals
  eTry : c'.eTry = c.eTry

theorem same_abort (c : CallController) : Same c c.abort := ⟨legs_abort c, rfl, rfl, rfl, rfl⟩

theorem Moved.same {l : Leg} {label : Ua.Label} (h : Moved c l label c₁) (hs : Same c₁ c') : Moved c l label c' := by
  have hhops (h : c.hops → c₁.hops) (hc : c.hops) : c'.hops := by
    rw [hops, hs.eTry]
    exact h hc
  cases h with
  | absent hl hlegs hlog hinMap hremovals hops =>
    exact .absent hl (hs.legs.trans hlegs) (hs.log.trans hlog) (hs.inMap.trans hinMap) (hs.removals.trans hremovals)
      (hhops hops)
  | moved m ua hl hua hlegs hlog hops =>
    refine .moved m ua hl ?_ (hs.legs.trans hlegs) (hs.log.trans hlog) (hhops hops)
    cases hua with
    | stepped ua hua hremovals hinMap =>
      exact .stepped ua hua (hs.removals.trans hremovals) (hs.inMap.trans hinMap)
    | unburied ua hua hremoves hno hremovals hinMap =>
      exact .unburied ua hua hremoves hno (hs.removals.trans hremovals) (hs.inMap.trans hinMap)

theorem advance_moved (l : Leg) (label : Ua.Label) :
    wp (advance l label) (fun _ c' => Moved c l label c' ∧ Heaped c.work c'.work)
      (fun _ c' => Moved c l label c'.abort) c := by
  unfold advance
  rw [Lib.wp_bind, Lib.wp_get]
  cases hl : c.leg l with
  | none => exact ⟨.absent hl rfl rfl rfl rfl id, .refl _⟩
  | some m =>
    dsimp only
    rw [Lib.wp_bind, Lib.wp_modify, Lib.wp_bind]
    generalize hm' : Mach.step { m with seq := c.seq } label = m'
    have hua : m'.ua = (Mach.step { m with seq := c.seq } label).ua := by rw [hm']
    refine Lib.wp_mono (heedAll_leaves l _) (fun _ c₁ h₁ => ?_) fun _ _ h => h.elim
    have hlegs : c₁.legs = putLeg c.legs l m'.ua := h₁.legs.trans (legs_setLeg c l m')
    have hinMap : c₁.inMap = c.inMap := h₁.inMap.trans (by cases l <;> rfl)
    have hremovals : c₁.removals = c.removals := h₁.removals.trans (by cases l <;> rfl)
    have hhops (hc : c.hops) : c₁.hops := h₁.hops trivial (by cases l <;> exact hc)
    have hlog : c₁.uaA.log = c.logAfter m'.log l := h₁.log.trans (by cases l <;> rfl)
    have hwork : Heaped c.work c₁.work := .trans (.of_eq (by cases l <;> rfl)) h₁.work
    have hother : otherDead c₁.legs l = otherDead c.legs l := by rw [hlegs, otherDead_putLeg]
    have hstepped {c' : CallController} (hs : Counts (removes c.legs l m.ua m'.ua) c₁ c') : Moved c l label c' := by
      refine .moved m m'.ua hl ?_ (hs.legs.trans hlegs) (hm' ▸ hs.log.trans hlog) fun hc => ?_
      · refine .stepped m'.ua hua ?_ ?_
        · rw [hs.removals, hremovals]
        · rw [hs.inMap, hinMap]
      · rw [hops, hs.eTry]
        exact hhops hc
    have hends {c' : CallController} (hs : Counts (removes c.legs l m.ua m'.ua) c₁ c') :
        wp (raising (raisesAt { m with seq := c.seq } label))
          (fun _ c' => Moved c l label c' ∧ Heaped c.work c'.work) (fun _ c' => Moved c l label c'.abort) c' := by
      cases raisesAt { m with seq := c.seq } label with
      | none => exact ⟨hstepped hs, hwork.trans (.of_eq hs.work)⟩
      | some e => exact (hstepped hs).same (same_abort c')
    rw [Lib.wp_ite]
    refine ⟨fun hdies => ?_, fun hlives => ?_⟩
    · have hremoves : removes c.legs l m.ua m'.ua = otherDead c₁.legs l := by
        simp [removes, hdies, hother]
      rw [Lib.wp_bind, Lib.wp_tryCatch]
      refine Lib.wp_mono (bury_counts l) (fun _ c₂ hs => ?_) fun e c₂ ⟨hs, hdead, hno⟩ => ?_
      · rw [← hremoves] at hs
        exact hends hs
      · have hgone : c₂.inMap = false := by rw [hs.inMap, Bool.not_true, Bool.and_false]
        have hmore : c₂.removals = c.removals + 1 := by rw [hs.removals, hremovals, Bool.toNat_true]
        rw [Lib.wp_bind, Lib.wp_modify, Lib.wp_throw]
        refine Moved.same ?_ (same_abort _)
        refine .moved m (unbury m.ua m'.ua) hl ?_ ?_ ?_ fun hc => ?_
        · refine .unburied m'.ua hua (hremoves.trans hdead) (hinMap.symm.trans hno) ?_ ?_
          · cases l <;> exact hmore
          · cases l <;> exact hgone
        · rw [legs_setLeg, hs.legs, hlegs, putLeg_putLeg]
        · rw [hm']
          cases l with
          | uaA => rfl
          | uaO k => exact hs.log.trans hlog
        · have hc' : c₂.hops := by
            rw [hops, hs.eTry]
            exact hhops hc
          cases l <;> exact hc'
    · have hremoves : removes c.legs l m.ua m'.ua = false := by
        simp only [removes, Bool.and_eq_false_iff]
        exact .inl (by simpa using hlives)
      refine hends ?_
      rw [hremoves]
      exact ⟨rfl, rfl, rfl, by simp, rfl, rfl⟩

/-- What a step of the call makes a leg do. -/
inductive Causes (c : CallController) : CallLabel → Leg → Ua.Label → Prop
  | invite {req : Request} {io : Io} (hwork : c.work = []) (hA : c.legA = none) (hm : req.method = .invite) :
      Causes c (.invite req io) .uaA (.input (.request req) io)
  | input {l : Leg} {i : Input} {io : Io} (hwork : c.work = []) (hl : c.isOn l) (hi : isEvent i = false) :
      Causes c (.input l i io) l (.input i io)
  | method {l : Leg} {io : Io} {ws : List Work} (hwork : c.work = .method l :: ws) :
      Causes c (.work io) l (.tau io)
  | returned {l : Leg} {io : Io} {ws : List Work} (hwork : c.work = .returned l :: ws) :
      Causes c (.work io) l .ret
  | send {l : Leg} {e : CCEvent} {io : Io} {ws : List Work} (hwork : c.work = .send l e :: ws) :
      Causes c (.work io) l (.input (.event e) io)
  | disconnect {l : Leg} {io : Io} {ws : List Work} (hwork : c.work = .disconnect l :: ws) :
      Causes c (.work io) l (.input (.disconnect none none) io)

/-- The event of the call that is looked at has hops left. -/
def hopsLeft (c : CallController) : Bool :=
  match c.work with
  | .recvEvent .uaA e :: _ =>
    match e.kind with
    | .setup _ mf => c.state ≠ .idle || mf.all (1 < ·)
    | _ => true
  | _ => true

/-- A step moves one leg, or the controller does something of its own. -/
inductive Stepped (cfg : CallConfig) (src : CallSource) (c : CallController) (label : CallLabel)
    (c' : CallController) : Prop
  | rests (h : c' = c)
  | manned (hno : ∀ w ws, c.work = w :: ws → isOwn w) (h : Mans cfg src c.hopsLeft c c')
  | appended (ws : List Work) (hwork : c.work = .append :: ws) (h : c' = { c with work := ws, inMap := true })
  | moved (l : Leg) (ulabel : Ua.Label) (hl : Causes c label l ulabel) (h : Moved c l ulabel c')

/-- What is still to be done once the step has begun. -/
def remaining (c : CallController) (label : CallLabel) : List Work :=
  match c.work, label with
  | _ :: ws, .work _ => ws
  | [], .invite req _ => if c.legA = none ∧ req.method = .invite then [.append] else []
  | ws, _ => ws

/-- The call map is still to get the call once a step is done that does not raise. -/
def lists (c : CallController) (label : CallLabel) : Bool := (c.remaining label).any Work.isAppend

theorem Moved.of_work {l : Leg} {ulabel : Ua.Label} {ws : List Work}
    (h : Moved { c with work := ws } l ulabel c') : Moved c l ulabel c' := by
  cases h with
  | absent hl hlegs hlog hinMap hremovals hops => exact .absent hl hlegs hlog hinMap hremovals hops
  | moved m ua hl hua hlegs hlog hops =>
    refine .moved m ua hl ?_ hlegs hlog hops
    cases hua with
    | stepped ua hua hremovals hinMap => exact .stepped ua hua hremovals hinMap
    | unburied ua hua hremoves hno hremovals hinMap => exact .unburied ua hua hremoves hno hremovals hinMap

theorem push_advance_moved (ws : List Work) (l : Leg) (ulabel : Ua.Label) :
    wp (do push ws; advance l ulabel) (fun _ c' => Moved c l ulabel c' ∧ Heaped (ws ++ c.work) c'.work)
      (fun _ c' => Moved c l ulabel c'.abort) c := by
  rw [Lib.wp_bind, wp_push]
  exact Lib.wp_mono (advance_moved l ulabel) (fun _ _ h => ⟨h.1.of_work, h.2⟩) fun _ _ h => h.of_work

end Advancing

section Inverting
variable {cfg : CallConfig} {src : CallSource} {c c' : CallController} {label : CallLabel}

/-- What a program comes to that does what the label says. -/
def Steps (cfg : CallConfig) (src : CallSource) (c : CallController) (label : CallLabel) (p : C PUnit)
    (c₁ : CallController) : Prop :=
  wp p (fun _ c' => Stepped cfg src c label c' ∧ Heaped (c.remaining label) c'.work)
    (fun _ c' => Stepped cfg src c label c'.abort) c₁

theorem Mans.of_work {ws : List Work} {P : Prop} (h : Mans cfg src P { c with work := ws } c') :
    Mans cfg src P c c' := ⟨by cases h.made with
  | stays h => exact .stays h
  | makes r nh proxied hA h hsent => exact .makes r nh proxied hA h hsent, h.log, h.inMap, h.removals, h.hops⟩

theorem work_steps {w : Work} {ws : List Work} {io : Io} (hwork : c.work = w :: ws) :
    Steps cfg src c (.work io) (workOn cfg src io w) { c with work := ws } := by
  have hremaining : c.remaining (.work io) = ws := by simp [remaining, hwork]
  have hmans {p : C PUnit} (hown : isOwn w)
      (h : MansAll cfg src c.hopsLeft p { c with work := ws }) :
      Steps cfg src c (.work io) p { c with work := ws } := by
    have hno (w' : Work) (ws' : List Work) (hw : c.work = w' :: ws') : isOwn w' := by
      obtain rfl : w' = w := (List.cons.inj (hw.symm.trans hwork)).1
      exact hown
    exact Lib.wp_mono h (fun _ _ h => ⟨.manned hno h.1.of_work, hremaining.symm ▸ h.2⟩)
      fun _ _ h => .manned hno h.of_work
  have hmoves {p : C PUnit} {l : Leg} {ulabel : Ua.Label} (hl : Causes c (.work io) l ulabel)
      (h : wp p (fun _ c' => Moved { c with work := ws } l ulabel c' ∧ Heaped ws c'.work)
        (fun _ c' => Moved { c with work := ws } l ulabel c'.abort) { c with work := ws }) :
      Steps cfg src c (.work io) p { c with work := ws } :=
    Lib.wp_mono h (fun _ _ h => ⟨.moved l ulabel hl h.1.of_work, hremaining.symm ▸ h.2⟩)
      fun _ _ h => .moved l ulabel hl h.of_work
  have hpushed {l : Leg} {ulabel : Ua.Label} (hl : Causes c (.work io) l ulabel) :
      Steps cfg src c (.work io) (do push [.method l]; advance l ulabel) { c with work := ws } :=
    hmoves hl <| Lib.wp_mono (push_advance_moved _ l ulabel)
      (fun _ _ h => ⟨h.1, .trans ⟨[.method l], rfl, rfl⟩ h.2⟩) fun _ _ h => h
  cases w with
  | recvEvent l e =>
    cases l with
    | uaA =>
      refine hmans rfl (recvEventA_mans e fun hP hidle data mf hkind => ?_)
      have hidle : c.state = .idle := hidle
      simpa [hopsLeft, hwork, hkind, hidle] using hP
    | uaO k => exact hmans rfl (recvEventO_mans e)
  | dead => exact hmans rfl (.leaves (leaves_update rfl rfl rfl rfl rfl rfl))
  | append => exact ⟨.appended ws hwork rfl, .of_eq hremaining.symm⟩
  | returned l => exact hmoves (.returned hwork) (advance_moved l _)
  | send l e => exact hpushed (.send hwork)
  | disconnect l => exact hpushed (.disconnect hwork)
  | method l =>
    unfold workOn
    unfold Steps
    rw [Lib.wp_bind, Lib.wp_get]
    have hnone : MansAll cfg src c.hopsLeft (pure ⟨⟩) { c with work := ws } := .pure
    split
    · exact hmans rfl hnone
    · rw [Lib.wp_ite]
      exact ⟨fun _ => hmans rfl hnone, fun _ => hpushed (.method hwork)⟩

theorem action_steps (cfg : CallConfig) (src : CallSource) (c : CallController) (label : CallLabel) :
    Steps cfg src c label (action cfg src c label) c := by
  have hrests (h : c.remaining label = c.work) : Steps cfg src c label (pure ⟨⟩) c :=
    ⟨.rests rfl, .of_eq h.symm⟩
  have hmans {p : C PUnit} (hwork : c.work = []) (h : MansAll cfg src c.hopsLeft p c)
      (hremaining : c.remaining label = []) : Steps cfg src c label p c :=
    have hno (w : Work) (ws : List Work) (hw : c.work = w :: ws) : isOwn w := by simp [hwork] at hw
    Lib.wp_mono h (fun _ _ h => ⟨.manned hno h.1, hremaining.symm ▸ hwork ▸ h.2⟩) fun _ _ h => .manned hno h
  unfold action
  split
  case h_1 w ws io hwork =>
    unfold Steps
    rw [Lib.wp_bind, Lib.wp_modify]
    exact work_steps hwork
  case h_2 req io hwork =>
    split
    · rename_i h
      refine Lib.wp_mono (push_advance_moved _ .uaA _) (fun _ _ h' => ⟨.moved .uaA _ (.invite hwork h.1 h.2) h'.1, ?_⟩)
        fun _ _ h' => .moved .uaA _ (.invite hwork h.1 h.2) h'
      exact .trans ⟨[.method .uaA], by simp [remaining, hwork, h.1, h.2], rfl⟩ h'.2
    · rename_i h
      exact hrests (by simp [remaining, hwork, h])
  case h_3 l i io hwork =>
    split
    · rename_i h
      refine Lib.wp_mono (push_advance_moved _ l _) (fun _ _ h' => ⟨.moved l _ (.input hwork h.1 h.2) h'.1, ?_⟩)
        fun _ _ h' => .moved l _ (.input hwork h.1 h.2) h'
      exact .trans ⟨[.method l], by simp [remaining, hwork], rfl⟩ h'.2
    · exact hrests (by simp [remaining, hwork])
  case h_4 results now hwork =>
    split
    · exact hmans hwork (.update_bind (leaves_update rfl rfl rfl rfl rfl rfl) fun _ _ => rDone_mans results)
        (by simp [remaining, hwork])
    · exact hrests (by simp [remaining, hwork])
  case h_5 skipto hwork =>
    split
    · exact hmans hwork (.update_bind (leaves_update rfl rfl rfl rfl rfl rfl) fun _ _ => groupExpires_mans skipto)
        (by simp [remaining, hwork])
    · exact hrests (by simp [remaining, hwork])
  case h_6 label _ _ hwork hinvite _ _ _ =>
    refine hrests ?_
    cases hw : c.work with
    | nil =>
      cases label with
      | invite req io => exact (hinvite req io hw rfl).elim
      | work | input | rDone | groupExpires => simp [remaining, hw]
    | cons w ws =>
      cases label with
      | work io => exact (hwork w ws io hw rfl).elim
      | invite | input | rDone | groupExpires => simp [remaining, hw]

theorem step_inversion (cfg : CallConfig) (src : CallSource) (c : CallController) (label : CallLabel) :
    Stepped cfg src c label (step cfg src c label) := by
  have h := action_steps cfg src c label
  unfold Steps Lib.wp at h
  unfold step
  cases hp : action cfg src c label c with
  | ok _ c' =>
    rw [hp] at h
    exact h.1
  | error _ c' =>
    rw [hp] at h
    exact h

theorem step_listing (cfg : CallConfig) (src : CallSource) (c : CallController) (label : CallLabel) :
    (step cfg src c label).listing = (c.lists label && !raises cfg src c label) := by
  have h := action_steps cfg src c label
  unfold Steps Lib.wp at h
  unfold raises Lib.returns step
  cases hp : action cfg src c label c with
  | ok _ c' =>
    rw [hp] at h
    simpa [lists, listing] using h.2.any_isAppend
  | error _ c' => simp [listing, abort]

/-- The label makes the controller call a method of a leg. -/
theorem step_moved (ws : List Work) {l : Leg} {ulabel : Ua.Label}
    (haction : action cfg src c label = (do push ws; advance l ulabel)) :
    Moved c l ulabel (step cfg src c label) := by
  have h := push_advance_moved (c := c) ws l ulabel
  unfold Lib.wp at h
  unfold step
  rw [haction]
  cases hp : (do push ws; advance l ulabel : C PUnit) c with
  | ok _ c' =>
    rw [hp] at h
    exact h.1
  | error _ c' =>
    rw [hp] at h
    exact h

/-- A method of a leg is called while nothing else is to be done. -/
theorem step_input_moved (cfg : CallConfig) (src : CallSource) {l : Leg} {i : Input} (io : Io)
    (hwork : c.work = []) (hl : c.isOn l) (hi : isEvent i = false) :
    Moved c l (.input i io) (step cfg src c (.input l i io)) := by
  refine step_moved [.method l] ?_
  unfold action
  rw [hwork]
  exact if_pos ⟨hl, hi⟩

theorem step_invite_moved (cfg : CallConfig) (src : CallSource) {req : Request} (io : Io)
    (hwork : c.work = []) (hA : c.legA = none) (hm : req.method = .invite) :
    Moved c .uaA (.input (.request req) io) (step cfg src c (.invite req io)) := by
  refine step_moved [.method .uaA, .append] ?_
  unfold action
  rw [hwork]
  exact if_pos ⟨hA, hm⟩

end Inverting

section Keeping
variable {cfg : CallConfig} {src : CallSource} {c c' : CallController} {P : UA → Prop} {legs : UA × List UA}

/-- What holds of every leg of a call. -/
structure Every (P : UA → Prop) (legs : UA × List UA) : Prop where
  called : P legs.1
  calling : ∀ ua ∈ legs.2, P ua

abbrev Sane : UA × List UA → Prop := Every UA.Sound

theorem Every.leg (h : Every P c.legs) {l : Leg} {m : Mach} (hl : c.leg l = some m) : P m.ua := by
  cases l with
  | uaA =>
    obtain rfl : c.uaA = m := Option.some.inj hl
    exact h.called
  | uaO k => exact h.calling _ (List.mem_map_of_mem (List.mem_of_getElem? hl))

theorem Every.put (h : Every P legs) {l : Leg} {ua : UA} (hua : P ua) : Every P (putLeg legs l ua) := by
  cases l with
  | uaA => exact ⟨hua, h.calling⟩
  | uaO k =>
    refine ⟨h.called, fun ua' hua' => ?_⟩
    rcases List.mem_or_eq_of_mem_set hua' with h' | rfl
    · exact h.calling _ h'
    · exact hua

theorem Every.append (h : Every P legs) {ua : UA} (hua : P ua) : Every P (legs.1, legs.2 ++ [ua]) := by
  refine ⟨h.called, fun ua' hua' => ?_⟩
  rcases List.mem_append.mp hua' with hua' | hua'
  · exact h.calling _ hua'
  · rw [List.mem_singleton.mp hua']
    exact hua

theorem originateUA_sound {r : B2BRoute} {nh : Addr × Text} {proxied : Bool} :
    (originateUA cfg src r nh proxied).Sound :=
  UA.Unused.sound ⟨rfl, rfl, rfl, rfl, rfl, rfl, rfl, rfl, rfl, rfl, rfl⟩

theorem start_sane : Sane (start cfg).legs :=
  ⟨UA.Unused.sound ⟨rfl, rfl, rfl, rfl, rfl, rfl, rfl, rfl, rfl, rfl, rfl⟩, by simp [start, legs]⟩

section Outcomes
variable {m : Mach} {l : Leg} {label : Ua.Label} {ua : UA}

theorem dies_dead {ua ua' : UA} (h : Ua.Buries ua ua') (hd : dies ua ua') : ua'.state = some .dead := by
  obtain ⟨hbefore, hafter⟩ : ua.deadCbs = true ∧ ua'.deadCbs = false := by simpa [dies] using hd
  rcases h.called with hsame | hdead
  · simp [hsame, hbefore] at hafter
  · exact hdead.2

theorem removes_dies {ua ua' : UA} (h : removes legs l ua ua') : dies ua ua' ∧ otherDead legs l := by
  simpa [removes] using h

theorem Outcome.sound (h : Outcome c l m label c' ua) (hm : m.ua.Sound) : ua.Sound := by
  cases h with
  | stepped ua hua => exact hua ▸ (Mach.metered (m := { m with seq := c.seq }) label hm).1
  | unburied ua hua hremoves =>
    have hburies : Ua.Buries m.ua ua := hua ▸ Mach.step_buries (m := { m with seq := c.seq }) label hm
    exact (hburies.sound (dies_dead hburies (removes_dies hremoves).1)).of_rest rfl

end Outcomes

theorem Stepped.sane {label : CallLabel} (h : Stepped cfg src c label c') (hsane : Sane c.legs) : Sane c'.legs := by
  cases h with
  | rests h => exact h.symm ▸ hsane
  | appended ws hwork h => exact h.symm ▸ hsane
  | manned _ h =>
    cases h.made with
    | stays h => exact h ▸ hsane
    | makes r nh proxied hA h => exact h ▸ hsane.append originateUA_sound
  | moved l ulabel hcauses h =>
    cases h with
    | absent _ h => exact h ▸ hsane
    | moved m ua hl hua h => exact h ▸ hsane.put (hua.sound (hsane.leg hl))

theorem step_sane {label : CallLabel} (hsane : Sane c.legs) : Sane (step cfg src c label).legs :=
  (step_inversion cfg src c label).sane hsane

end Keeping

end CallController
end SippyB2bua.B2B
