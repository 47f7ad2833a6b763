import SippyB2bua.Ua.Turn

/-!
# From the first message to Dead

A user agent gets a state with the first message that is for it, and has one from then on. Dead is
left only by a CANCEL that is still awaited.
-/

namespace SippyB2bua.Ua
open Lib (wp wp_mono)

/-- Begun, and neither before its first event nor at its end. -/
def UaState.live : UaState → Bool
  | .uacIdle | .dead => false
  | _ => true

/-- A message for the state object which is no response. -/
def Input.mild : Input → Bool
  | .request _ | .event _ | .disconnect _ _ => true
  | _ => false

def Label.mild : Label → Bool
  | .input i _ => i.mild
  | _ => true

/-- The CANCEL of a request that a dead user agent still awaits. -/
def Input.revives (ua : UA) : Input → Bool
  | .cancel _ _ => ua.state = some .dead && (ua.cancelCb = some .progressing || ua.cancelCb = some .updating)
  | _ => false

def Label.revives (ua : UA) : Label → Bool
  | .input i _ => i.revives ua
  | _ => false

section Turns
variable {w w₁ : World} {i : Input} {d : Dispatch} {s s' s₀ : UaState} {st st₀ : Option UaState} {μ ν ν' : Meter}

theorem Shift.keeps {P : Option UaState → Prop} (h : Shift w st₀ ν s' st ν') (hs : P st₀) (hs' : P (some s')) :
    P st := by
  cases h with
  | done => exact hs'
  | stuck | unburied => exact hs

theorem Tick.live (h : Tick w s d (.to s') μ) (hs : s.live) (hd : ∀ resp, d ≠ .response resp) : s'.live := by
  cases h with
  | idle hr | acks hr | waits hr | accepts hr | sets hr => simp [Res.keeps] at hr
  | drops => cases hs
  | gone => exact absurd rfl (hd _)
  | refuses _ _ hs' => rcases hs' with rfl | rfl <;> rfl
  | provisional => exact absurd rfl (hd _)
  | _ => rfl

theorem Tick.leaves_dead (h : Tick w .dead d (.to s') μ) : False := by
  cases h with
  | idle hr => simp [Res.keeps] at hr
  | updated hs => simp at hs
  | answers hs | preAnswers hs | refuses hs | hungUp hs | hangsUp hs | provisional hs | unheard hs | untagged hs
  | answered hs | late hs | spoiled hs | rejected hs => cases hs

theorem Given.no_response (h : Given w i d μ) (hi : i.mild) (resp : Response) : d ≠ .response resp := by
  cases h with
  | request | event | ending | ack | updated => simp
  | response => cases hi

theorem Turn.isSome (h : Turn w i st μ) (hs : w.ua.state.isSome) : st.isSome := by
  cases h with
  | rests | probes | resets | refers => exact hs
  | handled => rfl
  | shifted _ _ _ _ h => exact h.keeps (P := fun st => st.isSome) rfl rfl
  | cancelled _ h | unupdated _ h | dies _ h => exact h.keeps (P := fun st => st.isSome) hs rfl

theorem Turn.dead (h : Turn w i st μ) (hs : w.ua.state = some .dead) (hi : i.revives w.ua = false) :
    st = some .dead := by
  have hreceiver {s : UaState} {d : Dispatch} (hr : s ∈ w.ua.receiver d) : s = .dead := by
    rcases receiver_eq hr with h | ⟨h, -⟩
    · exact Option.some.inj (h.symm.trans hs)
    · simp [hs] at h
  cases h with
  | rests | probes | resets | refers => exact hs
  | handled _ hr => rw [hreceiver hr]
  | shifted _ hr _ ht =>
    obtain rfl := hreceiver hr
    exact ht.leaves_dead.elim
  | cancelled hcb | unupdated hcb => simp [Input.revives, hs, hcb] at hi
  | dies _ h => exact h.keeps (P := fun st => st = some .dead) hs rfl

theorem Turn.live (h : Turn w i st μ) (hs : w.ua.state.any UaState.live) (hi : i.mild) :
    st.any UaState.live := by
  have hreceiver {s : UaState} {d : Dispatch} (hr : s ∈ w.ua.receiver d) : s.live := by
    rcases receiver_eq hr with h | ⟨h, -⟩
    · simpa [h] using hs
    · simp [h] at hs
  cases h with
  | rests | probes | resets | refers => exact hs
  | handled _ hr => exact hreceiver hr
  | shifted hg hr _ ht h =>
    refine h.keeps (P := fun st => st.any UaState.live) (hreceiver hr) ?_
    exact ht.live (hreceiver hr) (hg.no_response hi)
  | cancelled _ h | unupdated _ h => cases hi
  | dies _ h => cases hi

/-- The first message is handled in the state that it brings. -/
theorem woken_first {k : Ret → List Todo} (hs₀ : s₀ = .uasIdle ∨ s₀ = .uacIdle) (hw : Since w w₁)
    (hnone : w.ua.state = none) (hsound : w₁.ua.Sound) (hg : Given (w.at (some s₀)) i d w₁.meter)
    {f : UA → M (List Todo)}
    (hsome : ∀ ua s, ua.state = some s → f ua = handler s d >>= fun ret => finish ret (k ret)) :
    wp (do UA.wake true s₀; f (← getUA)) (fun _ => Turned (w.at (some s₀)) i)
      (fun _ => Turned (w.at (some s₀)) i) w₁ := by
  rw [Lib.wp_bind]
  refine wp_mono (wake_turned hs₀ hsound) (fun _ w₂ ⟨hsound₂, hμ₂, hstate, hw₂⟩ => ?_) fun _ _ h => h.elim
  have hs : w₂.ua.state = some s₀ := by rw [hstate, hw.state, hnone]; rfl
  rw [Lib.wp_bind, wp_getUA, hsome _ s₀ hs]
  have hsince : Since (w.at (some s₀)) w₂ := (hw.at _).trans (hs ▸ hw₂)
  exact finish_turned (hμ₂ ▸ hg) (by simp [UA.receiver, World.at]) hsince hsound₂

theorem recvEvent_first {e : CCEvent} (hnone : w.ua.state = none) (he : UA.wakes e) (hsound : w.ua.Sound) :
    wp (UA.recvEvent e) (fun _ => Turned (w.at (some .uacIdle)) (.event e))
      (fun _ => Turned (w.at (some .uacIdle)) (.event e)) w := by
  have hg : Given (w.at (some .uacIdle)) (.event e) (.event e) w.meter := .event
  unfold UA.recvEvent
  rw [he]
  exact woken_first (k := fun _ => [.emitPending]) (.inr rfl) (.refl w) hnone hsound hg
    fun ua s h => by simp [h, handler]

theorem recvRequest_first {req : Request} (hnone : w.ua.state = none) (hm : req.method = .invite)
    (hnew : ¬ w.ua.stale req) (hsound : w.ua.Sound) :
    wp (UA.recvRequest req) (fun _ => Turned (w.at (some .uasIdle)) (.request req))
      (fun _ => Turned (w.at (some .uasIdle)) (.request req)) w := by
  have hupd : Since w { w with ua := { w.ua with rCSeq := some req.cseq } } := (Since.refl w).of_rest rfl
  have hg : Given (w.at (some .uasIdle)) (.request req) (.request req)
      (World.meter { w with ua := { w.ua with rCSeq := some req.cseq } }) := .request hnew
  unfold UA.recvRequest
  rw [Lib.wp_bind, wp_getUA, Lib.wp_ite]
  refine ⟨fun hold => absurd hold hnew, fun _ => ?_⟩
  rw [Lib.wp_bind, wp_upd, decide_eq_true hm]
  exact woken_first (k := fun ret => if ret.changes && req.method = .invite then [.emitPending, .accepted]
    else [.emitPending]) (.inl rfl) hupd hnone (hsound.since hupd) hg fun ua s h => by simp [h, handler, hm]

end Turns

section Steps
variable {m : Mach} {l : Label}

theorem Mach.step_isSome (hsound : m.ua.Sound) (hs : m.ua.state.isSome) : (m.step l).ua.state.isSome := by
  obtain ⟨i, io, w', todo, -, -, -, ht, hm⟩ | ⟨-, hstate, -⟩ := m.step_turned l hsound
  · rw [hm]
    exact ht.turn.isSome hs
  · exact hstate ▸ hs

theorem Mach.step_dead (hsound : m.ua.Sound) (hs : m.ua.state = some .dead) (hl : l.revives m.ua = false) :
    (m.step l).ua.state = some .dead := by
  obtain ⟨i, io, w', todo, hi, -, -, ht, hm⟩ | ⟨-, hstate, -⟩ := m.step_turned l hsound
  · have hno : i.revives m.ua = false := by
      rcases method_cases hi with ⟨io', rfl⟩ | ⟨e, io', rest, -, rfl, -⟩
      · exact hl
      · rfl
    rw [hm]
    exact ht.turn.dead hs hno
  · exact hstate.trans hs

theorem mild_of_method {i : Input} (hl : l.mild) (hi : l.method m = some i) : i.mild := by
  rcases method_cases hi with ⟨io', rfl⟩ | ⟨e, io', rest, -, rfl, -⟩
  · exact hl
  · rfl

theorem Mach.step_live (hsound : m.ua.Sound) (hs : m.ua.state.any UaState.live) (hl : l.mild) :
    (m.step l).ua.state.any UaState.live := by
  obtain ⟨i, io, w', todo, hi, -, -, ht, hm⟩ | ⟨-, hstate, -⟩ := m.step_turned l hsound
  · rw [hm]
    exact ht.turn.live hs (mild_of_method hl hi)
  · exact hstate ▸ hs

/-- What a method comes to that an idle user agent is called with. -/
theorem Mach.step_of_wp {i : Input} {io : Io} {P : World → Prop} (hidle : m.idle) (hposs : i.possible m.ua)
    (h : wp i.run (fun _ => P) (fun _ => P) (m.world io)) : ∃ w', P w' ∧ (m.step (.input i io)).ua = w'.ua := by
  rw [Mach.step_input, hidle, hposs]
  unfold Lib.wp at h
  cases hrun : i.run (m.world io) with
  | ok td w' =>
    rw [hrun] at h
    exact ⟨w', h, congrArg Mach.ua (exec_ok m.todo hrun)⟩
  | error e w' =>
    rw [hrun] at h
    exact ⟨w', h, congrArg Mach.ua (exec_error m.todo hrun)⟩

theorem Mach.first_event {e : CCEvent} {io : Io} (hidle : m.idle) (hnone : m.ua.state = none) (he : UA.wakes e)
    (hsound : m.ua.Sound) : (m.step (.input (.event e) io)).ua.state.isSome := by
  obtain ⟨w', ht, hm⟩ := Mach.step_of_wp (i := .event e) hidle rfl (recvEvent_first (w := m.world io) hnone he hsound)
  rw [hm]
  exact ht.turn.isSome rfl

theorem Mach.first_invite {req : Request} (io : Io) (hidle : m.idle) (hnone : m.ua.state = none)
    (hm : req.method = .invite) (hnew : ¬ m.ua.stale req) (hsound : m.ua.Sound) :
    (m.step (.input (.request req) io)).ua.state.any UaState.live := by
  obtain ⟨w', ht, hm⟩ := Mach.step_of_wp (i := .request req) hidle rfl
    (recvRequest_first (w := m.world io) hnone hm hnew hsound)
  rw [hm]
  exact ht.turn.live rfl rfl

end Steps

end SippyB2bua.Ua
