import SippyB2bua.Lib.Fallible
import SippyB2bua.Lib.Prog
import SippyB2bua.Lib.Run
import SippyB2bua.Lib.Text

/-!
# RTP parameters

The local address of a stream follows from its protocol and its target. Each of their two setters stores what it is
given and then looks up the address, which may raise.
-/

namespace SippyB2bua.Rtp
open Lib (Text run Along)
open Lib.Text (startsWith endsWith int)

inductive Family
  | inet | inet6
  deriving DecidableEq

inductive RtpExn
  | assertionError | valueError | attributeError | portAllocationError
  | osError (addrInUse : Bool)
  deriving DecidableEq

/-- What the parameters take from the system. -/
structure Env where
  /-- `str(ip_address(host))`, for a text that is an address. -/
  ipAddress : Text → Option Text
  local4remote : Text → Family → Except RtpExn Text

inductive RtpProto
  | ip4 | ip6
  deriving DecidableEq

def RtpProto.text : RtpProto → Text
  | ip4 => "IP4".toList
  | ip6 => "IP6".toList

def RtpProto.ofValue (rtpProto : Option Text) : Except RtpExn RtpProto :=
  match rtpProto.map (List.map Char.toUpper) with
  | none => .error .assertionError
  | some rtpProto =>
    if rtpProto = "IP4".toList then .ok ip4
    else if rtpProto = "IP6".toList then .ok ip6
    else .error .assertionError

structure Target where
  host : Text
  port : ℤ
  deriving DecidableEq

/-- A value that is assigned to `rtp_target`; `other` has no text for a host. -/
inductive TargetValue
  | none
  | pair (host : Text) (port : ℤ ⊕ Text)
  | other
  deriving DecidableEq

def TargetValue.of : Option Target → TargetValue
  | .none => none
  | some t => pair t.host (.inl t.port)

def canonicalizeRtpHost (env : Env) (host : Text) : Text :=
  let host := if startsWith host ['['] ∧ endsWith host [']'] then (host.drop 1).dropLast else host
  (env.ipAddress host).getD host

def canonicalizeRtpTarget (env : Env) : TargetValue → Except RtpExn (Option Target)
  | .none => .ok none
  | .pair host (.inl port) => .ok (some ⟨canonicalizeRtpHost env host, port⟩)
  | .pair host (.inr port) => match int port with
    | none => .error .valueError
    | some port => .ok (some ⟨canonicalizeRtpHost env host, port⟩)
  | .other => .error .assertionError

inductive Codec
  | g711 | g722
  deriving DecidableEq

structure RTPParams where
  rtpTarget : Option Target
  rtpProto : RtpProto
  rtpLaddr : Text
  rtpLport : ℤ
  outPtime : ℤ
  outSr : ℤ
  /-- The constructor does not set it. -/
  codec : Option Codec
  deriving DecidableEq

namespace RTPParams

def rtpFamily (p : RTPParams) : Family := if p.rtpProto = .ip4 then .inet else .inet6

def getLaddr (env : Env) (p : RTPParams) : Except RtpExn Text :=
  match p.rtpTarget with
  | none => .ok (if p.rtpFamily = .inet then "0.0.0.0".toList else "::".toList)
  | some target => do
    let rtpLaddr ← env.local4remote target.host p.rtpFamily
    return if p.rtpFamily = .inet6 then (rtpLaddr.drop 1).dropLast else rtpLaddr

/-- `self.rtp_laddr = self._get_laddr()`. -/
def updateLaddr (env : Env) : EStateM RtpExn RTPParams Unit := do
  let rtpLaddr ← ofExcept ((← get).getLaddr env)
  modify fun p => { p with rtpLaddr }

/-- The setter of `rtp_target`. -/
def setRtpTarget (env : Env) (rtpTarget : TargetValue) : EStateM RtpExn RTPParams Unit := do
  if rtpTarget = .of (← get).rtpTarget then pure ()
  else
    let newRtpTarget ← ofExcept (canonicalizeRtpTarget env rtpTarget)
    if newRtpTarget = (← get).rtpTarget then pure ()
    else
      modify fun p => { p with rtpTarget := newRtpTarget }
      updateLaddr env

/-- The setter of `rtp_proto`. -/
def setRtpProto (env : Env) (rtpProto : Option Text) : EStateM RtpExn RTPParams Unit := do
  let rtpProto ← ofExcept (RtpProto.ofValue rtpProto)
  if rtpProto = (← get).rtpProto then pure ()
  else
    modify fun p => { p with rtpProto }
    updateLaddr env

def default : RTPParams := ⟨none, .ip4, "0.0.0.0".toList, 0, 0, 0, none⟩

def create (env : Env) (rtpTarget : TargetValue) (outPtime outSr : ℤ) (rtpProto : Option Text) :
    EStateM RtpExn RTPParams Unit := do
  setRtpProto env rtpProto
  setRtpTarget env rtpTarget
  modify fun p => { p with outPtime, outSr }

/-- `RTPParams(rtp_target, out_ptime, out_sr, rtp_proto)`. -/
def init (env : Env) (rtpTarget : TargetValue) (outPtime outSr : ℤ) (rtpProto : Option Text) : Except RtpExn RTPParams :=
  match create env rtpTarget outPtime outSr rtpProto default with
  | .ok _ p => .ok p
  | .error e _ => .error e

/-- The local address is the one for the protocol and the target. -/
def Consistent (env : Env) (p : RTPParams) : Prop := p.getLaddr env = .ok p.rtpLaddr

end RTPParams

inductive Assignment
  | rtpProto (value : Option Text)
  | rtpTarget (value : TargetValue)

namespace Assignment

def exec (env : Env) : Assignment → EStateM RtpExn RTPParams Unit
  | rtpProto value => RTPParams.setRtpProto env value
  | rtpTarget value => RTPParams.setRtpTarget env value

def stored (env : Env) (p : RTPParams) : Assignment → Except RtpExn RTPParams
  | rtpProto value => (RtpProto.ofValue value).map fun rtpProto => { p with rtpProto }
  | rtpTarget value =>
    if value = .of p.rtpTarget then .ok p
    else (canonicalizeRtpTarget env value).map fun rtpTarget => { p with rtpTarget }

theorem stored_rtpProto (env : Env) (p : RTPParams) (value : Option Text) :
    (rtpProto value).stored env p = (RtpProto.ofValue value).map fun rtpProto => { p with rtpProto } := rfl

theorem stored_rtpTarget (env : Env) (p : RTPParams) (value : TargetValue) :
    (rtpTarget value).stored env p = if value = .of p.rtpTarget then .ok p
      else (canonicalizeRtpTarget env value).map fun rtpTarget => { p with rtpTarget } := rfl

/-- A value that changes something leads to a local address. -/
def Resolves (env : Env) (p : RTPParams) (a : Assignment) : Prop :=
  ∀ q, a.stored env p = .ok q → q ≠ p → ∃ rtpLaddr, q.getLaddr env = .ok rtpLaddr

theorem resolves_of_stored {env : Env} {p q : RTPParams} {a : Assignment} (h : a.stored env p = .ok q) :
    a.Resolves env p ↔ (q ≠ p → ∃ rtpLaddr, q.getLaddr env = .ok rtpLaddr) := by
  constructor
  · exact fun hresolves => hresolves q h
  · intro hfound q' hq'
    rw [h] at hq'
    cases hq'
    exact hfound

instance (env : Env) (p : RTPParams) (a : Assignment) : Decidable (a.Resolves env p) :=
  match h : a.stored env p with
  | .error _ => .isTrue fun _ hq => nomatch h.symm.trans hq
  | .ok q => match hladdr : q.getLaddr env with
    | .ok rtpLaddr => .isTrue ((resolves_of_stored h).mpr fun _ => ⟨rtpLaddr, hladdr⟩)
    | .error _ =>
      if hq : q = p then .isTrue ((resolves_of_stored h).mpr fun hne => absurd hq hne)
      else .isFalse fun hresolves =>
        let ⟨_, hok⟩ := (resolves_of_stored h).mp hresolves hq
        nomatch hladdr.symm.trans hok

end Assignment

def assign (env : Env) (p : RTPParams) (a : Assignment) : RTPParams := Lib.endState (a.exec env) p

/-- An assignment that raises has changed nothing. -/
def Undone (env : Env) (p : RTPParams) (a : Assignment) : Prop :=
  Lib.returns (a.exec env) p = false → assign env p a = p

section Setters
variable {env : Env} {p q : RTPParams} {a : Assignment}

open RTPParams

theorem getLaddr_congr (hproto : p.rtpProto = q.rtpProto) (htarget : p.rtpTarget = q.rtpTarget) :
    p.getLaddr env = q.getLaddr env := by
  unfold RTPParams.getLaddr RTPParams.rtpFamily
  rw [hproto, htarget]

theorem updateLaddr_ok {rtpLaddr : Text} (h : p.getLaddr env = .ok rtpLaddr) :
    updateLaddr env p = .ok () { p with rtpLaddr } := by
  show (ofExcept (p.getLaddr env) >>= fun rtpLaddr => modify fun p => { p with rtpLaddr } : EStateM _ _ _) p = _
  rw [h]
  rfl

theorem updateLaddr_error {e : RtpExn} (h : p.getLaddr env = .error e) : updateLaddr env p = .error e p := by
  show (ofExcept (p.getLaddr env) >>= fun rtpLaddr => modify fun p => { p with rtpLaddr } : EStateM _ _ _) p = _
  rw [h]
  rfl

theorem exec_eq (env : Env) (p : RTPParams) (a : Assignment) : a.exec env p = match a.stored env p with
    | .error e => .error e p
    | .ok q => if q = p then .ok () p else updateLaddr env q := by
  cases a with
  | rtpProto value =>
    rw [Assignment.stored_rtpProto]
    show (ofExcept (RtpProto.ofValue value) >>= _ : EStateM _ _ _) p = _
    cases RtpProto.ofValue value with
    | error e => rfl
    | ok rtpProto =>
      show (if rtpProto = p.rtpProto then _ else _ : EStateM _ _ _) p = if { p with rtpProto } = p then _ else _
      by_cases h : rtpProto = p.rtpProto
      · rw [if_pos h, if_pos (by rw [h])]
        rfl
      · rw [if_neg h, if_neg fun heq => h (congrArg RTPParams.rtpProto heq)]
        rfl
  | rtpTarget value =>
    rw [Assignment.stored_rtpTarget]
    show (if value = .of p.rtpTarget then _ else _ : EStateM _ _ _) p = _
    by_cases hvalue : value = .of p.rtpTarget
    · rw [if_pos hvalue, if_pos hvalue]
      exact (if_pos rfl).symm
    · rw [if_neg hvalue, if_neg hvalue]
      show (ofExcept (canonicalizeRtpTarget env value) >>= _ : EStateM _ _ _) p = _
      cases canonicalizeRtpTarget env value with
      | error e => rfl
      | ok rtpTarget =>
        show (if rtpTarget = p.rtpTarget then _ else _ : EStateM _ _ _) p = if { p with rtpTarget } = p then _ else _
        by_cases h : rtpTarget = p.rtpTarget
        · rw [if_pos h, if_pos (by rw [h])]
          rfl
        · rw [if_neg h, if_neg fun heq => h (congrArg RTPParams.rtpTarget heq)]
          rfl

theorem Consistent.updated {rtpLaddr : Text} (h : p.getLaddr env = .ok rtpLaddr) :
    Consistent env { p with rtpLaddr } := h

theorem exec_cases (env : Env) (p : RTPParams) (a : Assignment) :
    (∃ e, a.stored env p = .error e ∧ a.exec env p = .error e p) ∨
    (a.stored env p = .ok p ∧ a.exec env p = .ok () p) ∨
    ∃ q, a.stored env p = .ok q ∧ q ≠ p ∧
      ((∃ rtpLaddr, q.getLaddr env = .ok rtpLaddr ∧ a.exec env p = .ok () { q with rtpLaddr }) ∨
        ∃ e, q.getLaddr env = .error e ∧ a.exec env p = .error e q) := by
  rw [exec_eq]
  cases hstored : a.stored env p with
  | error e => exact .inl ⟨e, rfl, rfl⟩
  | ok q =>
    right
    by_cases hq : q = p
    · subst hq
      exact .inl ⟨rfl, if_pos rfl⟩
    · refine .inr ⟨q, rfl, hq, ?_⟩
      cases hladdr : q.getLaddr env with
      | ok rtpLaddr => exact .inl ⟨rtpLaddr, rfl, (if_neg hq).trans (updateLaddr_ok hladdr)⟩
      | error e => exact .inr ⟨e, rfl, (if_neg hq).trans (updateLaddr_error hladdr)⟩

theorem assign_of_ok {u : Unit} (h : a.exec env p = .ok u q) : assign env p a = q := by
  rw [assign, Lib.endState, h]

theorem assign_of_error {e : RtpExn} (h : a.exec env p = .error e q) : assign env p a = q := by
  rw [assign, Lib.endState, h]

theorem returns_of_error {e : RtpExn} (h : a.exec env p = .error e q) : Lib.returns (a.exec env) p = false := by
  rw [Lib.returns, h]

theorem returns_of_ok {u : Unit} (h : a.exec env p = .ok u q) : Lib.returns (a.exec env) p = true := by
  rw [Lib.returns, h]

/-- An assignment keeps the parameters right, or as they were if it raises, exactly if its address can be found. -/
theorem assign_iff (hp : p.Consistent env) (a : Assignment) :
    (assign env p a).Consistent env ∧ Undone env p a ↔ a.Resolves env p := by
  rcases exec_cases env p a with ⟨e, hstored, hexec⟩ | ⟨hstored, hexec⟩ | ⟨q, hstored, hq, hfound | hlost⟩
  · have hsame := assign_of_error hexec
    refine iff_of_true ⟨by rwa [hsame], fun _ => hsame⟩ ?_
    intro q hq
    rw [hstored] at hq
    cases hq
  · have hsame := assign_of_ok hexec
    refine iff_of_true ⟨by rwa [hsame], fun _ => hsame⟩ ?_
    exact (Assignment.resolves_of_stored hstored).mpr fun hne => absurd rfl hne
  · obtain ⟨rtpLaddr, hladdr, hexec⟩ := hfound
    refine iff_of_true ⟨?_, ?_⟩ ?_
    · rw [assign_of_ok hexec]
      exact Consistent.updated hladdr
    · intro hraised
      rw [returns_of_ok hexec] at hraised
      cases hraised
    · exact (Assignment.resolves_of_stored hstored).mpr fun _ => ⟨rtpLaddr, hladdr⟩
  · obtain ⟨e, hladdr, hexec⟩ := hlost
    apply iff_of_false
    · rintro ⟨-, hundone⟩
      have hsame := hundone (returns_of_error hexec)
      rw [assign_of_error hexec] at hsame
      exact hq hsame
    · intro hresolves
      obtain ⟨rtpLaddr, hfound⟩ := (Assignment.resolves_of_stored hstored).mp hresolves hq
      rw [hladdr] at hfound
      cases hfound

/-- Over a run, every state has the right address and every assignment that raises is undone exactly if the address of
each assignment can be found. -/
theorem run_iff (hp : p.Consistent env) (as : List Assignment) :
    (∀ bs, bs <+: as → (run (assign env) p bs).Consistent env) ∧ Along (assign env) (Undone env) p as ↔
      Along (assign env) (fun p a => a.Resolves env p) p as := by
  induction as generalizing p with
  | nil =>
    refine iff_of_true ⟨?_, trivial⟩ trivial
    intro bs hbs
    rw [List.prefix_nil.mp hbs]
    exact hp
  | cons a as ih =>
    constructor
    · rintro ⟨hstates, hundone, hrest⟩
      have hone : (assign env p a).Consistent env := hstates [a] ⟨as, rfl⟩
      have hlater : ∀ bs, bs <+: as → (run (assign env) (assign env p a) bs).Consistent env := fun bs hbs =>
        hstates (a :: bs) (List.cons_prefix_cons.mpr ⟨rfl, hbs⟩)
      exact ⟨(assign_iff hp a).mp ⟨hone, hundone⟩, (ih hone).mp ⟨hlater, hrest⟩⟩
    · rintro ⟨hresolves, hrest⟩
      obtain ⟨hone, hundone⟩ := (assign_iff hp a).mpr hresolves
      obtain ⟨hlater, hundones⟩ := (ih hone).mpr hrest
      refine ⟨?_, hundone, hundones⟩
      intro bs hbs
      cases bs with
      | nil => exact hp
      | cons b bs =>
        obtain ⟨rfl, hprefix⟩ := List.cons_prefix_cons.mp hbs
        exact hlater bs hprefix

theorem exec_consistent (hp : p.Consistent env) (a : Assignment) :
    Lib.wp (a.exec env) (fun _ q => q.Consistent env) (fun _ _ => True) p := by
  unfold Lib.wp
  rcases exec_cases env p a with ⟨e, -, hexec⟩ | ⟨-, hexec⟩ | ⟨q, -, -, ⟨rtpLaddr, hladdr, hexec⟩ | ⟨e, -, hexec⟩⟩
  · rw [hexec]
    trivial
  · rw [hexec]
    exact hp
  · rw [hexec]
    exact Consistent.updated hladdr
  · rw [hexec]
    trivial

theorem init_consistent {rtpTarget : TargetValue} {outPtime outSr : ℤ} {rtpProto : Option Text}
    (h : RTPParams.init env rtpTarget outPtime outSr rtpProto = .ok p) : p.Consistent env := by
  have hcreate : Lib.wp (create env rtpTarget outPtime outSr rtpProto) (fun _ q => q.Consistent env) (fun _ _ => True)
      default := by
    have hdefault : Consistent env default := rfl
    rw [create, Lib.wp_bind]
    apply Lib.wp_mono (exec_consistent hdefault (.rtpProto rtpProto))
    · intro _ q hq
      rw [Lib.wp_bind]
      apply Lib.wp_mono (exec_consistent hq (.rtpTarget rtpTarget))
      · intro _ q hq
        exact hq
      · exact fun _ _ h => h
    · exact fun _ _ h => h
  unfold Lib.wp at hcreate
  unfold RTPParams.init at h
  split at hcreate
  · rename_i u q hok
    rw [hok] at h
    cases h
    exact hcreate
  · rename_i e q herror
    rw [herror] at h
    cases h

end Setters

end SippyB2bua.Rtp
