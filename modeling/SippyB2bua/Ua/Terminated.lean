import SippyB2bua.Ua.Answer

/-!
# A call that is over

Failed, Disconnected, Cancelling and Dead are left only for one another. A user agent
in one of them still answers a challenge to its INVITE with a new one, and timers and
callbacks that were not cancelled still make it hand events over; with neither of the
two it is silent.
-/

namespace SippyB2bua.Ua
open Lib (Text run Along)

/-- The log has grown by acts that `A` holds of. -/
def LogGrows (A : Act → Prop) (m m' : Mach) : Prop := ∃ acts, m'.log = m.log ++ acts ∧ ∀ a ∈ acts, A a

theorem LogGrows.refl {A : Act → Prop} (m : Mach) : LogGrows A m m := ⟨[], by simp⟩

theorem LogGrows.trans {A : Act → Prop} {a b c : Mach} (h : LogGrows A a b) (h' : LogGrows A b c) :
    LogGrows A a c := by
  obtain ⟨l, hl, ha⟩ := h
  obtain ⟨l', hl', ha'⟩ := h'
  refine ⟨l ++ l', by rw [hl', hl, List.append_assoc], fun x hx => ?_⟩
  rcases List.mem_append.mp hx with hx | hx
  · exact ha x hx
  · exact ha' x hx

theorem LogGrows.countP {A : Act → Prop} {m m' : Mach} {p : Act → Bool} (h : LogGrows A m m')
    (hp : ∀ a, A a → p a = false) : m'.log.countP p = m.log.countP p := by
  obtain ⟨l, hl, ha⟩ := h
  have hzero : l.countP p = 0 := List.countP_eq_zero.mpr fun a h => by simp [hp a (ha a h)]
  rw [hl, List.countP_append, hzero, Nat.add_zero]

section Calm

/-- A response that makes the user agent call again. -/
def Reopens (m : Mach) : Label → Prop
  | .input (.response resp _) _ => m.ua.answers resp
  | _ => False

instance (m : Mach) (l : Label) : Decidable (Reopens m l) := by
  unfold Reopens
  split <;> infer_instance

abbrev uninviting : Limits := .only (·.isInvite = false)

theorem uninviting_wide : uninviting.Wide := fun _ h => h.2

theorem over_invites {ua : UA} {i : Input} (ho : ua.isOver)
    (hi : ∀ resp hs, i = .response resp hs → ¬ ua.answers resp) : i.invites ua = false := by
  cases i with
  | response resp hs => exact Bool.eq_false_of_not_eq_true (hi resp hs rfl)
  | timeout t => cases t <;> simp [Input.invites, ho]
  | _ => simp [Input.invites, ho]

theorem over_step {m : Mach} {l : Label} (ho : m.ua.isOver) (hl : ¬ Reopens m l) :
    (m.step l).ua.isOver ∧ LogGrows (·.isInvite = false) m (m.step l) := by
  have hinv (i : Input) (hi : i ∈ l.method m) : i.invites m.ua = false := by
    refine over_invites ho fun resp hs h hans => ?_
    obtain ⟨io, rfl⟩ | ⟨e, io, rest, -, rfl, -⟩ := method_cases hi
    · subst h
      exact hl hans
    · cases h
  have hs : Stepped uninviting True m l (m.step l) := m.stepped uninviting_wide l
    (fun i hi => by simp [hinv i hi]) (fun _ _ _ _ _ => trivial) (fun _ _ _ _ => spares_only)
    fun _ _ _ => trivial
  generalize m.step l = m' at hs ⊢
  cases hs with
  | method ps q m' hps hg _ => exact ⟨hg.isOver ho, hg.log⟩
  | completed p body io rest _ _ _ _ => exact ⟨ho, [], by simp⟩
  | handed io d es todo _ _ _ _ => exact ⟨ho, [.event d], rfl, by simp [Act.isInvite]⟩
  | settled es n cb todo _ _ _ _ => exact ⟨ho, [], by simp⟩

/-- Unless a challenge comes that it can answer, a user agent whose call is over sends no
INVITE. -/
theorem over_never_invites {m : Mach} {ls : List Label} (ho : m.ua.isOver)
    (hls : Along Mach.step (fun m l => ¬ Reopens m l) m ls) :
    (run Mach.step m ls).ua.isOver ∧ LogGrows (·.isInvite = false) m (run Mach.step m ls) :=
  hls.invariant (I := fun m' => m'.ua.isOver ∧ LogGrows (·.isInvite = false) m m')
    (fun _ _ hok h => ⟨(over_step h.1 hok).1, h.2.trans (over_step h.1 hok).2⟩) ⟨ho, .refl m⟩

/-- A user agent with credentials has called and was told to stop. -/
def cancelledCaller : Mach := run Mach.step
  (.start { UA.new with
    rAddr0 := some ((['f'], 5060), ['u']), username := some ['n'], password := some ['p'] })
  [.input (.event ⟨.setup ⟨none, none, some ['1'], some (sampleBody ['x']), none, none⟩ none, 0,
     none, 9, none⟩) .calm,
   .tau .calm,
   .input (.event ⟨.disconnect none, 0, none, 10, none⟩) .calm, .tau .calm]

def challenge401 : Response := { Response.bare 401 .invite 1 with
  wwwAuthenticate := [.ok ⟨false, none, true, ['c']⟩] }

theorem over_never_invites_refused :
    (run Mach.step cancelledCaller [.input (.response (.bare 487 .invite 1) []) .calm]).ua.isOver := by
  exact (over_never_invites (by decide) (by decide)).1

/-- The INVITE that was cancelled is challenged, and sent again. -/
theorem cancelledCaller_calls_again : cancelledCaller.ua.state = some .uacCancelling ∧
    ¬ LogGrows (·.isInvite = false) cancelledCaller
      (cancelledCaller.step (.input (.response challenge401 []) .calm)) := by
  refine ⟨by decide, fun h => ?_⟩
  have hcount := h.countP (p := Act.isInvite) fun _ h => by simpa using h
  exact absurd hcount (by decide)

end Calm

section Silent

/-- A call from outside for which a user agent with a callback hands an event over although
its call is over. -/
def Disturbs (m : Mach) : Label → Bool
  | .input (.sdpUpdated p _) _ => m.ua.eventCb && p.remote && !decide (m.ua.Stale p.event)
  | .input i _ => m.ua.eventCb && i.loud m.ua
  | _ => false

/-- The call is over, and no event is left that will be handed over. -/
structure Hushed (m : Mach) : Prop where
  isOver : m.ua.isOver
  queued : m.ua.eventCb → ∀ e ∈ m.ua.equeue, m.ua.Stale e
  emitted : m.ua.eventCb → ∀ e, .emitEvent e ∈ m.todo → m.ua.Stale e

abbrev eventless : Limits := .only Act.Inner

theorem eventless_wide : eventless.Wide := fun _ h => h.1

theorem Hushed.grown {q : List CCEvent} {m₁ m' : Mach} (h : Hushed m₁) (hg : Grown eventless q m₁ m')
    (hq : m₁.ua.eventCb → q = [] ∧ ∀ e, .emitEvent e ∈ m'.todo → .emitEvent e ∈ m₁.todo) :
    Hushed m' where
  isOver := hg.isOver h.isOver
  queued hcb e he := by
    have hcb₁ := hg.eventCb hcb
    rw [hg.equeue, (hq hcb₁).1, List.append_nil] at he
    rw [UA.Stale, hg.elastSeq]
    exact h.queued hcb₁ e he
  emitted hcb e he := by
    have hcb₁ := hg.eventCb hcb
    rw [UA.Stale, hg.elastSeq]
    exact h.emitted hcb₁ e ((hq hcb₁).2 e he)

theorem Hushed.step {m : Mach} {l : Label} (h : Hushed m) (hl : ¬ Disturbs m l) :
    Hushed (m.step l) ∧ LogGrows Act.Inner m (m.step l) := by
  have hloud (i : Input) (hi : i ∈ l.method m) (hi' : i.loud m.ua) : m.ua.eventCb = false := by
    refine Bool.eq_false_of_not_eq_true fun hcb => ?_
    obtain ⟨io, rfl⟩ | ⟨e, io, rest, -, rfl, -⟩ := method_cases hi
    · cases i with
      | sdpUpdated p body => simp [Input.loud] at hi'
      | _ => exact hl (by simp_all [Disturbs])
    · simp [Input.loud] at hi'
  have hs : Stepped eventless (m.ua.eventCb = false) m l (m.step l) := m.stepped eventless_wide l
    (fun _ _ _ _ => rfl) (fun _ _ _ _ _ => trivial) (fun _ _ _ _ => spares_only) hloud
  generalize m.step l = m' at hs ⊢
  cases hs with
  | method ps q m' hps hg silent =>
    have hawaiting : Hushed { m with ua := m.ua.awaiting ps } := ⟨h.isOver, h.queued, h.emitted⟩
    exact ⟨hawaiting.grown hg fun hcb => silent h.isOver fun hno => by simp_all [UA.awaiting], hg.log⟩
  | completed p body io rest hl' hr _ hrest =>
    subst hl'
    refine ⟨⟨h.isOver, fun hcb e he => ?_, fun hcb e he => ?_⟩, [], by simp⟩
    · rcases List.mem_append.mp he with he | he
      · exact h.queued hcb e he
      · rw [List.mem_singleton.mp he]
        exact not_not.mp fun hnew => hl (by simp_all [Disturbs, UA.completed, UA.Stale])
    · exact h.emitted hcb e (hrest _ (by simpa using he))
  | handed io d es todo _ hd hnew _ =>
    obtain ⟨hcb, -, -, hd⟩ := handing_mem hd
    exact absurd (hd.elim (h.queued hcb d) (h.emitted hcb d)) hnew
  | settled es n cb todo hes _ htodo _ =>
    exact ⟨⟨h.isOver, fun hcb e he => h.queued hcb e (hes.subset he),
      fun hcb e he => h.emitted hcb e (htodo _ he)⟩, [], by simp⟩

/-- Once its events are handed over a user agent whose call is over is silent, unless a timer
or a callback that was left, a call of `disconnect` or a late SDP update disturbs it. -/
theorem over_silent {m : Mach} {ls : List Label} (h : Hushed m)
    (hls : Along Mach.step (fun m l => ¬ Disturbs m l) m ls) :
    Hushed (run Mach.step m ls) ∧ LogGrows Act.Inner m (run Mach.step m ls) :=
  hls.invariant (I := fun m' => Hushed m' ∧ LogGrows Act.Inner m m')
    (fun _ _ hok h => ⟨(h.1.step hok).1, h.2.trans (h.1.step hok).2⟩) ⟨h, .refl m⟩

def cancelledCallee : Mach := run Mach.step (.start { UA.new with noProgressTime := some 60000 })
  [.input (.request { Request.bare .invite 1 with body := some (sampleBody ['x']) }) .calm,
   .tau .calm, .ret, .tau .calm, .tau .calm,
   .input (.cancel 5 none) .calm, .tau .calm, .ret]

theorem cancelledCallee_hushed : Hushed cancelledCallee where
  isOver := by decide
  queued := by decide
  emitted _ e he := by
    have htodo : cancelledCallee.todo = [] := by decide
    simp [htodo] at he

theorem over_silent_request : Hushed (run Mach.step cancelledCallee
    [.input (.request (.bare .bye 2)) .calm, .tau .calm]) :=
  (over_silent cancelledCallee_hushed (by decide)).1

/-- The no-progress timer was not cancelled. -/
theorem cancelledCallee_disconnects_again : Hushed cancelledCallee ∧
    ¬ LogGrows Act.Inner cancelledCallee (run Mach.step cancelledCallee
      [.input (.timeout (.noProgress 60000)) .calm, .tau .calm]) := by
  refine ⟨cancelledCallee_hushed, fun h => ?_⟩
  have hcount := h.countP (p := Act.isEvent) fun _ h => h
  exact absurd hcount (by decide)

end Silent

end SippyB2bua.Ua
