import SippyB2bua.Rtp.Params

/-!
# RTP end points

An end point owns a channel and a writer for its parameters. An update takes over a parameter after the other, the
protocol before the target, and then brings the channel and the writer in line with them.
-/

namespace SippyB2bua.Rtp
open Lib (Text wp returns endState)

structure Channel where
  localPort : ℤ
  target : Option Target

structure Writer where
  rtpParams : RTPParams

/-- What an end point takes from the system besides. -/
structure EPointEnv extends Env where
  /-- `randint(0, rlen // 2)` at a try. -/
  randint : ℕ → ℤ
  /-- `create_channel` at a try, for a port. -/
  createChannel : ℕ → Family → Text → ℤ → Except RtpExn Channel
  setTarget : Channel → Target → Except RtpExn Channel
  close : Channel → Except RtpExn Unit
  /-- `make_writer` and the start of the writer. -/
  makeWriter : RTPParams → Except RtpExn Writer
  /-- `end` and `join` of a writer, whose assertions are about its channel. -/
  endWriter : Writer → Except RtpExn Unit
  streamUpdate : Except RtpExn Unit

structure PortAllocator where
  minPort : ℕ
  maxPort : ℕ

def PortAllocator.tries (a : PortAllocator) : ℕ := (a.maxPort - a.minPort) / 2 + 1

/-- `palloc(ntry)`. -/
def PortAllocator.call (env : EPointEnv) (a : PortAllocator) (ntry : ℕ) : Except RtpExn ℤ :=
  if (a.maxPort - a.minPort) / 2 < ntry then .error .portAllocationError
  else
    let port := a.minPort + env.randint ntry * 2
    if port ≤ a.maxPort then .ok port else .error .assertionError

structure RTPEPoint where
  rtpParams : RTPParams
  writer : Option Writer
  rserv : Option Channel
  /-- `_rtp_server` is there. -/
  rtpServer : Bool
  palloc : PortAllocator

/-- The loop over the ports of the allocator, with the tries that are left. -/
def bindAllocated (env : EPointEnv) (palloc : PortAllocator) (family : Family) (rtpLaddr : Text) :
    ℕ → Except RtpExn (Channel × ℤ)
  | 0 => .error .portAllocationError
  | left + 1 => do
    let ntry := palloc.tries - (left + 1)
    let bindPort ← palloc.call env ntry
    match env.createChannel ntry family rtpLaddr bindPort with
    | .ok channel => .ok (channel, bindPort)
    | .error (.osError true) => bindAllocated env palloc family rtpLaddr left
    | .error e => .error e

/-- `_bind_channel(rtp_server, rtp_laddr, palloc, preferred_port)` with the options of `make_udp_server_opts`. -/
def bindChannel (env : EPointEnv) (palloc : PortAllocator) (family : Family) (rtpParams : RTPParams)
    (preferredPort : ℤ) : Except RtpExn (Channel × ℤ) :=
  match env.createChannel 0 family rtpParams.rtpLaddr preferredPort with
  | .ok channel => .ok (channel, preferredPort)
  | .error (.osError true) =>
    if rtpParams.rtpLport = 0 then bindAllocated env palloc family rtpParams.rtpLaddr palloc.tries
    else (env.createChannel 0 family rtpParams.rtpLaddr rtpParams.rtpLport).map fun channel => (channel, rtpParams.rtpLport)
  | .error e => .error e

namespace RTPEPoint

def onParams (x : EStateM RtpExn RTPParams Unit) : EStateM RtpExn RTPEPoint Unit := fun e =>
  match x e.rtpParams with
  | .ok u rtpParams => .ok u { e with rtpParams }
  | .error ex rtpParams => .error ex { e with rtpParams }

/-- The assignments of `update` to the attributes without a setter. -/
def adoptPlain (rtpParams : RTPParams) : EStateM RtpExn RTPParams Unit := do
  modify fun p => { p with outPtime := rtpParams.outPtime, outSr := rtpParams.outSr }
  match rtpParams.codec with
  | none => throw .attributeError
  | some codec => modify fun p => { p with codec := some codec }

/-- The assignments of `update` to the parameters. -/
def adopt (env : Env) (rtpParams : RTPParams) : EStateM RtpExn RTPParams Unit := do
  RTPParams.setRtpProto env (some rtpParams.rtpProto.text)
  RTPParams.setRtpTarget env (.of rtpParams.rtpTarget)
  adoptPlain rtpParams

/-- `channel.set_target(target[0], target[1])`, if there is a target. -/
def aim (env : EPointEnv) (channel : Channel) (target : Option Target) : Except RtpExn Channel :=
  match target with
  | none => .ok channel
  | some target => env.setTarget channel target

/-- `_swap_channel(old_channel, rtp_params)`, where `old_channel` is still the channel. -/
def swapChannel (env : EPointEnv) (oldChannel : Channel) (rtpParams : RTPParams) : EStateM RtpExn RTPEPoint Unit := do
  let e ← get
  if e.rtpServer then
    let (newChannel, bindPort) ← ofExcept (bindChannel env e.palloc e.rtpParams.rtpFamily rtpParams oldChannel.localPort)
    modify fun e => { e with rtpParams := { e.rtpParams with rtpLport := bindPort } }
    let newChannel ← ofExcept (aim env newChannel rtpParams.rtpTarget)
    modify fun e => { e with rserv := some newChannel }
    ofExcept (env.close oldChannel)
  else pure ()

structure Changed where
  target : Bool
  proto : Bool
  ptime : Bool

/-- The part of `update` for the channel. -/
def retune (env : EPointEnv) (changed : Changed) (rtpParams : RTPParams) : EStateM RtpExn RTPEPoint Unit := do
  let e ← get
  match e.rserv with
  | none => pure ()
  | some channel =>
    if changed.proto then swapChannel env channel rtpParams
    else if changed.target then
      let channel ← ofExcept (aim env channel e.rtpParams.rtpTarget)
      modify fun e => { e with rserv := some channel }
    else pure ()

/-- The part of `update` for a new writer, which ends at once if the end point was shut down. -/
def renewWriter (env : EPointEnv) (rtpParams : RTPParams) : EStateM RtpExn RTPEPoint Unit := do
  let newWriter ← ofExcept (env.makeWriter rtpParams)
  let e ← get
  if e.rserv.isNone || e.rtpParams.rtpTarget.isNone then ofExcept (env.endWriter newWriter)
  else modify fun e => { e with writer := some newWriter }

def needNewWriter (e : RTPEPoint) (changed : Changed) : Bool :=
  e.rtpParams.rtpTarget.isSome && (e.writer.isNone || changed.ptime || changed.proto)

/-- The part of `update` for the old writer. -/
def endOldWriter (env : EPointEnv) (changed : Changed) : EStateM RtpExn RTPEPoint Unit := do
  let e ← get
  match e.writer with
  | none => pure ()
  | some oldWriter =>
    if e.rtpParams.rtpTarget.isNone || e.needNewWriter changed then
      modify fun e => { e with writer := none }
      ofExcept (env.endWriter oldWriter)
    else pure ()

/-- `update` after its assignments. -/
def finish (env : EPointEnv) (changed : Changed) (rtpParams : RTPParams) : EStateM RtpExn RTPEPoint Unit := do
  let e ← get
  endOldWriter env changed
  retune env changed rtpParams
  if e.needNewWriter changed then renewWriter env rtpParams else pure ()
  ofExcept env.streamUpdate

def update (env : EPointEnv) (rtpParams : RTPParams) : EStateM RtpExn RTPEPoint Unit := do
  let old := (← get).rtpParams
  let changed : Changed := ⟨old.rtpTarget ≠ rtpParams.rtpTarget, old.rtpProto ≠ rtpParams.rtpProto,
    old.outPtime ≠ rtpParams.outPtime⟩
  onParams (adopt env.toEnv rtpParams)
  finish env changed rtpParams

end RTPEPoint

def canonical (env : Env) (target : Option Target) : Option Target :=
  target.map fun t => ⟨canonicalizeRtpHost env t.host, t.port⟩

/-- The addresses that an update looks up can be found: the one of the old target with the new protocol, and the one of
the new target. -/
structure Resolvable (env : Env) (cur new : RTPParams) : Prop where
  proto : new.rtpProto = cur.rtpProto ∨ ∃ a, { cur with rtpProto := new.rtpProto }.getLaddr env = .ok a
  target : new.rtpTarget = cur.rtpTarget ∨ canonical env new.rtpTarget = cur.rtpTarget ∨
    ∃ a, { new with rtpTarget := canonical env new.rtpTarget }.getLaddr env = .ok a

/-- An update assigns the values that are there. -/
structure Idle (env : Env) (cur new : RTPParams) : Prop where
  proto : new.rtpProto = cur.rtpProto
  target : new.rtpTarget = cur.rtpTarget ∨ canonical env new.rtpTarget = cur.rtpTarget
  outPtime : new.outPtime = cur.outPtime
  outSr : new.outSr = cur.outSr
  codec : new.codec = none ∨ new.codec = cur.codec

/-- A channel for the new parameters can be bound and aimed in the place of one, and that one be closed. -/
def Swaps (env : EPointEnv) (palloc : PortAllocator) (family : Family) (new : RTPParams) (channel : Channel) : Prop :=
  (∃ newChannel port, bindChannel env palloc family new channel.localPort = .ok (newChannel, port) ∧
    ∃ aimed, RTPEPoint.aim env newChannel new.rtpTarget = .ok aimed) ∧
  env.close channel = .ok ()

/-- No call of an update raises after the addresses were looked up. -/
structure Goes (env : EPointEnv) (e : RTPEPoint) (new : RTPParams) : Prop where
  codec : new.codec ≠ none
  ended : new.rtpTarget = none ∨ new.outPtime ≠ e.rtpParams.outPtime ∨ new.rtpProto ≠ e.rtpParams.rtpProto →
    ∀ writer, e.writer = some writer → env.endWriter writer = .ok ()
  swap : new.rtpProto ≠ e.rtpParams.rtpProto → ∀ channel, e.rserv = some channel → e.rtpServer = true →
    Swaps env e.palloc new.rtpFamily new channel
  aim : new.rtpProto = e.rtpParams.rtpProto → new.rtpTarget ≠ e.rtpParams.rtpTarget → ∀ channel, e.rserv = some channel →
    ∃ aimed, RTPEPoint.aim env channel (canonical env.toEnv new.rtpTarget) = .ok aimed
  writer : new.rtpTarget ≠ none →
    e.writer = none ∨ new.outPtime ≠ e.rtpParams.outPtime ∨ new.rtpProto ≠ e.rtpParams.rtpProto →
    ∃ writer, env.makeWriter new = .ok writer ∧ (e.rserv = none → env.endWriter writer = .ok ())
  stream : env.streamUpdate = .ok ()

section Update
variable {env : EPointEnv} {cur new p : RTPParams} {e : RTPEPoint} {changed : RTPEPoint.Changed}

open RTPParams RTPEPoint

theorem canonicalizeRtpTarget_of (env : Env) (t : Option Target) :
    canonicalizeRtpTarget env (.of t) = .ok (canonical env t) := by
  cases t with
  | none => rfl
  | some t => rfl

theorem of_inj {t t' : Option Target} (h : TargetValue.of t = .of t') : t = t' := by
  cases t with
  | none => cases t' with
    | none => rfl
    | some t' => cases h
  | some t => cases t' with
    | none => cases h
    | some t' =>
      cases t
      cases t'
      cases h
      rfl

theorem setRtpProto_eq (env : Env) (p : RTPParams) (proto : RtpProto) :
    setRtpProto env (some proto.text) p =
      if proto = p.rtpProto then .ok () p else updateLaddr env { p with rtpProto := proto } := by
  have hvalue : RtpProto.ofValue (some proto.text) = .ok proto := by
    cases proto with
    | ip4 => rfl
    | ip6 => rfl
  have hexec := exec_eq env p (.rtpProto (some proto.text))
  rw [Assignment.stored_rtpProto, hvalue] at hexec
  refine hexec.trans ?_
  show (if { p with rtpProto := proto } = p then _ else _) = _
  by_cases h : proto = p.rtpProto
  · rw [if_pos h, if_pos (by rw [h])]
  · rw [if_neg h, if_neg fun heq => h (congrArg RTPParams.rtpProto heq)]

theorem setRtpTarget_eq (env : Env) (p : RTPParams) (t : Option Target) :
    setRtpTarget env (.of t) p =
      if t = p.rtpTarget ∨ canonical env t = p.rtpTarget then .ok () p
      else updateLaddr env { p with rtpTarget := canonical env t } := by
  have hexec := exec_eq env p (.rtpTarget (.of t))
  rw [Assignment.stored_rtpTarget, canonicalizeRtpTarget_of] at hexec
  refine hexec.trans ?_
  by_cases ht : t = p.rtpTarget
  · rw [if_pos (congrArg TargetValue.of ht), if_pos (Or.inl ht)]
    exact if_pos rfl
  · rw [if_neg fun heq => ht (of_inj heq)]
    show (if { p with rtpTarget := canonical env t } = p then _ else _) = _
    by_cases h : canonical env t = p.rtpTarget
    · rw [if_pos (show { p with rtpTarget := canonical env t } = p by rw [h]), if_pos (Or.inr h)]
    · rw [if_neg fun heq => h (congrArg RTPParams.rtpTarget heq), if_neg (not_or.mpr ⟨ht, h⟩)]

theorem wp_setRtpProto {env : Env} {proto : RtpProto} {Q : Unit → RTPParams → Prop} {E : RtpExn → RTPParams → Prop} :
    wp (setRtpProto env (some proto.text)) Q E p ↔ if proto = p.rtpProto then Q () p
      else wp (updateLaddr env) Q E { p with rtpProto := proto } := by
  unfold wp
  rw [setRtpProto_eq]
  by_cases h : proto = p.rtpProto
  · rw [if_pos h, if_pos h]
  · rw [if_neg h, if_neg h]

theorem wp_setRtpTarget {env : Env} {t : Option Target} {Q : Unit → RTPParams → Prop} {E : RtpExn → RTPParams → Prop} :
    wp (setRtpTarget env (.of t)) Q E p ↔ if t = p.rtpTarget ∨ canonical env t = p.rtpTarget then Q () p
      else wp (updateLaddr env) Q E { p with rtpTarget := canonical env t } := by
  unfold wp
  rw [setRtpTarget_eq]
  by_cases h : t = p.rtpTarget ∨ canonical env t = p.rtpTarget
  · rw [if_pos h, if_pos h]
  · rw [if_neg h, if_neg h]

theorem wp_updateLaddr {env : Env} {Q : Unit → RTPParams → Prop} {E : RtpExn → RTPParams → Prop} :
    wp (updateLaddr env) Q E p ↔ match p.getLaddr env with
      | .ok rtpLaddr => Q () { p with rtpLaddr }
      | .error ex => E ex p := by
  unfold wp
  cases h : p.getLaddr env with
  | ok rtpLaddr => rw [updateLaddr_ok h]
  | error ex => rw [updateLaddr_error h]

def adoptedTarget (env : Env) (cur new : RTPParams) : Option Target :=
  if new.rtpTarget = cur.rtpTarget ∨ canonical env new.rtpTarget = cur.rtpTarget then cur.rtpTarget
  else canonical env new.rtpTarget

/-- The parameters with an address after the assignments before the codec. -/
def adopted (env : Env) (cur new : RTPParams) (rtpLaddr : Text) : RTPParams :=
  { cur with
    rtpTarget := adoptedTarget env cur new
    rtpProto := new.rtpProto
    rtpLaddr
    outPtime := new.outPtime
    outSr := new.outSr }

/-- The end of the assignments: all of them are made, or all but that of a codec that is missing. -/
def AllAdopted (env : Env) (cur new p : RTPParams) : Prop :=
  ∃ a codec, (Idle env cur new → a = cur.rtpLaddr) ∧ new.codec = some codec ∧
    p = { adopted env cur new a with codec := some codec }

def CodecMissing (env : Env) (cur new p : RTPParams) : Prop :=
  ∃ a, (Idle env cur new → a = cur.rtpLaddr) ∧ new.codec = none ∧ p = adopted env cur new a

/-- Where an address cannot be found, the assignments raise with another protocol or another target. -/
theorem adopt_raises {env : Env} (h : ¬ Resolvable env cur new) :
    wp (adopt env new) (fun _ _ => False)
      (fun _ p => p.rtpProto ≠ cur.rtpProto ∨ p.rtpTarget ≠ cur.rtpTarget) cur := by
  have htarget : ∀ p : RTPParams, p.rtpProto = new.rtpProto → p.rtpTarget = cur.rtpTarget →
      (¬ (new.rtpTarget = cur.rtpTarget ∨ canonical env new.rtpTarget = cur.rtpTarget ∨
        ∃ a, { new with rtpTarget := canonical env new.rtpTarget }.getLaddr env = .ok a)) →
      ∀ f : Unit → EStateM RtpExn RTPParams Unit, wp (setRtpTarget env (.of new.rtpTarget) >>= f) (fun _ _ => False)
        (fun _ p => p.rtpProto ≠ cur.rtpProto ∨ p.rtpTarget ≠ cur.rtpTarget) p := by
    intro p hproto hold hlost f
    obtain ⟨hnew, hcanonical, hlost⟩ : new.rtpTarget ≠ cur.rtpTarget ∧ canonical env new.rtpTarget ≠ cur.rtpTarget ∧
        ¬ ∃ a, { new with rtpTarget := canonical env new.rtpTarget }.getLaddr env = .ok a := by
      simpa only [not_or] using hlost
    have hsame : { p with rtpTarget := canonical env new.rtpTarget }.getLaddr env =
        { new with rtpTarget := canonical env new.rtpTarget }.getLaddr env := getLaddr_congr hproto rfl
    rw [Lib.wp_bind, wp_setRtpTarget, hold, if_neg (not_or.mpr ⟨hnew, hcanonical⟩), wp_updateLaddr, hsame]
    cases hladdr : { new with rtpTarget := canonical env new.rtpTarget }.getLaddr env with
    | ok a => exact absurd ⟨a, hladdr⟩ hlost
    | error ex => exact .inr hcanonical
  rw [adopt, Lib.wp_bind, wp_setRtpProto]
  by_cases hproto : new.rtpProto = cur.rtpProto
  · rw [if_pos hproto]
    exact htarget cur hproto.symm rfl (fun ht => h ⟨.inl hproto, ht⟩) _
  · rw [if_neg hproto, wp_updateLaddr]
    cases hladdr : { cur with rtpProto := new.rtpProto }.getLaddr env with
    | ok a => exact htarget { cur with rtpProto := new.rtpProto, rtpLaddr := a } rfl rfl (fun ht => h ⟨.inr ⟨a, hladdr⟩, ht⟩) _
    | error ex => exact .inl hproto

theorem adopt_goes {env : Env} (h : Resolvable env cur new) :
    wp (adopt env new) (fun _ => AllAdopted env cur new) (fun _ => CodecMissing env cur new) cur := by
  have hplain : ∀ a, (Idle env cur new → a = cur.rtpLaddr) →
      wp (adoptPlain new) (fun _ => AllAdopted env cur new) (fun _ => CodecMissing env cur new)
        { cur with rtpProto := new.rtpProto, rtpTarget := adoptedTarget env cur new, rtpLaddr := a } := by
    intro a ha
    rw [adoptPlain, Lib.wp_bind, Lib.wp_modify]
    unfold AllAdopted CodecMissing
    cases new.codec with
    | none => exact ⟨a, ha, rfl, rfl⟩
    | some codec => exact ⟨a, codec, ha, rfl, rfl⟩
  have htarget : ∀ a, (Idle env cur new → a = cur.rtpLaddr) →
      wp (setRtpTarget env (.of new.rtpTarget)) (fun _ p => ∃ a, (Idle env cur new → a = cur.rtpLaddr) ∧
        p = { cur with rtpProto := new.rtpProto, rtpTarget := adoptedTarget env cur new, rtpLaddr := a })
        (fun _ _ => False) { cur with rtpProto := new.rtpProto, rtpLaddr := a } := by
    intro a ha
    rw [wp_setRtpTarget]
    unfold adoptedTarget
    by_cases hold : new.rtpTarget = cur.rtpTarget ∨ canonical env new.rtpTarget = cur.rtpTarget
    · rw [if_pos hold, if_pos hold]
      exact ⟨a, ha, rfl⟩
    · have hsame : { cur with rtpProto := new.rtpProto, rtpLaddr := a, rtpTarget := canonical env new.rtpTarget }.getLaddr
          env = { new with rtpTarget := canonical env new.rtpTarget }.getLaddr env := getLaddr_congr rfl rfl
      rw [if_neg hold, if_neg hold, wp_updateLaddr, hsame]
      obtain ⟨a', hladdr⟩ := (or_assoc.mpr h.target).resolve_left hold
      rw [hladdr]
      exact ⟨a', fun hidle => absurd hidle.target hold, rfl⟩
  have hrest : ∀ a, (Idle env cur new → a = cur.rtpLaddr) →
      wp (do setRtpTarget env (.of new.rtpTarget); adoptPlain new) (fun _ => AllAdopted env cur new)
        (fun _ => CodecMissing env cur new) { cur with rtpProto := new.rtpProto, rtpLaddr := a } := by
    intro a ha
    rw [Lib.wp_bind]
    apply Lib.wp_mono (htarget a ha)
    · rintro _ _ ⟨a', ha', rfl⟩
      exact hplain a' ha'
    · exact fun _ _ h => h.elim
  rw [adopt, Lib.wp_bind, wp_setRtpProto]
  by_cases hproto : new.rtpProto = cur.rtpProto
  · rw [if_pos hproto]
    have hcur := hrest cur.rtpLaddr fun _ => rfl
    rw [hproto] at hcur
    exact hcur
  · rw [if_neg hproto, wp_updateLaddr]
    obtain ⟨a, hladdr⟩ := h.proto.resolve_left hproto
    rw [hladdr]
    exact hrest a fun hidle => absurd hidle.proto hproto

/-- The parameters after the assignments differ at most in the local port, and not without a new channel. -/
structure Settled (changed : Changed) (e e' : RTPEPoint) : Prop where
  proto : e'.rtpParams.rtpProto = e.rtpParams.rtpProto
  target : e'.rtpParams.rtpTarget = e.rtpParams.rtpTarget
  rserv : e'.rserv.isNone = e.rserv.isNone
  all : changed.proto = false → e'.rtpParams = e.rtpParams

theorem Settled.refl (changed : Changed) (e : RTPEPoint) : Settled changed e e := ⟨rfl, rfl, rfl, fun _ => rfl⟩

theorem Settled.withWriter {e' : RTPEPoint} (h : Settled changed e e') (w : Option Writer) :
    Settled changed e { e' with writer := w } :=
  ⟨h.proto, h.target, h.rserv, h.all⟩

/-- The channel can be brought in line with the parameters. -/
structure Tunable (env : EPointEnv) (changed : Changed) (new : RTPParams) (e : RTPEPoint) : Prop where
  swap : changed.proto = true → ∀ channel, e.rserv = some channel → e.rtpServer = true →
    Swaps env e.palloc e.rtpParams.rtpFamily new channel
  aim : changed.proto = false → changed.target = true → ∀ channel, e.rserv = some channel →
    ∃ aimed, RTPEPoint.aim env channel e.rtpParams.rtpTarget = .ok aimed

theorem swapChannel_spec (env : EPointEnv) {channel : Channel} (new : RTPParams) {e : RTPEPoint}
    (hproto : changed.proto = true) (hrserv : e.rserv = some channel) :
    wp (swapChannel env channel new)
      (fun _ e' => Settled changed e e' ∧ (e.rtpServer = true → Swaps env e.palloc e.rtpParams.rtpFamily new channel))
      (fun _ e' => Settled changed e e' ∧ ¬ (e.rtpServer = true → Swaps env e.palloc e.rtpParams.rtpFamily new channel))
      e := by
  have hno : changed.proto = false → False := by
    rw [hproto]
    intro h
    cases h
  have hsettled : ∀ (port : ℤ) (c : Channel), Settled changed e
      { e with rtpParams := { e.rtpParams with rtpLport := port }, rserv := some c } := fun port c =>
    ⟨rfl, rfl, by rw [hrserv]; rfl, fun h => (hno h).elim⟩
  rw [swapChannel, Lib.wp_bind, Lib.wp_get, Lib.wp_ite]
  constructor
  · intro hserver
    rw [Lib.wp_bind, Lib.wp_ofExcept]
    cases hbind : bindChannel env e.palloc e.rtpParams.rtpFamily new channel.localPort with
    | error ex =>
      refine ⟨Settled.refl _ e, fun h => ?_⟩
      obtain ⟨⟨newChannel, port, hok, -⟩, -⟩ := h hserver
      rw [hbind] at hok
      cases hok
    | ok bound =>
      obtain ⟨newChannel, port⟩ := bound
      simp only [Lib.wp_bind, Lib.wp_modify, Lib.wp_ofExcept]
      cases haim : aim env newChannel new.rtpTarget with
      | error ex =>
        refine ⟨⟨rfl, rfl, rfl, fun h => (hno h).elim⟩, fun h => ?_⟩
        obtain ⟨⟨newChannel', port', hok, aimed, haimed⟩, -⟩ := h hserver
        rw [hbind] at hok
        cases hok
        rw [haim] at haimed
        cases haimed
      | ok aimed =>
        cases hclose : env.close channel with
        | ok u => exact ⟨hsettled port aimed, fun _ => ⟨⟨newChannel, port, hbind, aimed, haim⟩, hclose⟩⟩
        | error ex =>
          refine ⟨hsettled port aimed, fun h => ?_⟩
          have hclosed := (h hserver).2
          rw [hclose] at hclosed
          cases hclosed
  · intro hserver
    exact ⟨Settled.refl _ e, fun h => absurd h hserver⟩

theorem retune_spec (env : EPointEnv) (changed : Changed) (new : RTPParams) (e : RTPEPoint) :
    wp (retune env changed new) (fun _ e' => Settled changed e e' ∧ Tunable env changed new e)
      (fun _ e' => Settled changed e e' ∧ ¬ Tunable env changed new e) e := by
  have hsame : Settled changed e e := Settled.refl _ e
  rw [retune, Lib.wp_bind, Lib.wp_get]
  cases hrserv : e.rserv with
  | none =>
    refine ⟨hsame, ?_, ?_⟩
    · intro _ channel hchannel
      rw [hrserv] at hchannel
      cases hchannel
    · intro _ _ channel hchannel
      rw [hrserv] at hchannel
      cases hchannel
  | some channel =>
    have hchannel : ∀ c, e.rserv = some c → c = channel := by
      intro c hc
      rw [hrserv] at hc
      exact (Option.some.inj hc).symm
    show wp (if changed.proto = true then _ else _) _ _ e
    rw [Lib.wp_ite]
    constructor
    · intro hproto
      apply Lib.wp_mono (swapChannel_spec env new hproto hrserv)
      · rintro _ e' ⟨he', hgoes⟩
        refine ⟨he', ?_, ?_⟩
        · rintro _ c hc
          rw [hchannel c hc]
          exact hgoes
        · intro hno
          rw [hproto] at hno
          cases hno
      · rintro _ e' ⟨he', hstays⟩
        exact ⟨he', fun htunable => hstays (htunable.swap hproto channel hrserv)⟩
    · intro hproto
      have hproto : changed.proto = false := eq_false_of_ne_true hproto
      have hswap : changed.proto = true → False := by
        rw [hproto]
        intro h
        cases h
      rw [Lib.wp_ite]
      constructor
      · intro htarget
        rw [Lib.wp_bind, Lib.wp_ofExcept]
        cases haim : aim env channel e.rtpParams.rtpTarget with
        | ok aimed =>
          refine ⟨⟨rfl, rfl, by rw [hrserv]; rfl, fun _ => rfl⟩, fun h => (hswap h).elim, ?_⟩
          intro _ _ c hc
          rw [hchannel c hc]
          exact ⟨aimed, haim⟩
        | error ex =>
          refine ⟨hsame, fun htunable => ?_⟩
          obtain ⟨aimed, haimed⟩ := htunable.aim hproto htarget channel hrserv
          rw [haim] at haimed
          cases haimed
      · intro htarget
        exact ⟨hsame, fun h => (hswap h).elim, fun _ h => absurd h htarget⟩

/-- The old writer, where there is one to end, can be ended. -/
def Ends (env : EPointEnv) (changed : Changed) (e : RTPEPoint) : Prop :=
  (e.rtpParams.rtpTarget.isNone || e.needNewWriter changed) = true →
    ∀ writer, e.writer = some writer → env.endWriter writer = .ok ()

theorem endOldWriter_spec (env : EPointEnv) (changed : Changed) (e : RTPEPoint) :
    wp (endOldWriter env changed) (fun _ e' => (∃ w, e' = { e with writer := w }) ∧ Ends env changed e)
      (fun _ e' => (∃ w, e' = { e with writer := w }) ∧ ¬ Ends env changed e) e := by
  rw [endOldWriter, Lib.wp_bind, Lib.wp_get]
  cases hwriter : e.writer with
  | none =>
    refine ⟨⟨e.writer, rfl⟩, fun _ writer h => ?_⟩
    rw [hwriter] at h
    cases h
  | some oldWriter =>
    show wp (if (e.rtpParams.rtpTarget.isNone || e.needNewWriter changed) = true then _ else _) _ _ e
    rw [Lib.wp_ite]
    constructor
    · intro hends
      rw [Lib.wp_bind, Lib.wp_modify, Lib.wp_ofExcept]
      cases hend : env.endWriter oldWriter with
      | ok u =>
        refine ⟨⟨none, rfl⟩, fun _ writer h => ?_⟩
        rw [hwriter] at h
        cases h
        exact hend
      | error ex =>
        refine ⟨⟨none, rfl⟩, fun h => ?_⟩
        have hok := h hends oldWriter hwriter
        rw [hend] at hok
        cases hok
    · intro hkeeps
      exact ⟨⟨e.writer, rfl⟩, fun hends => absurd hends hkeeps⟩

/-- A new writer can be made, and be ended where the end point was shut down. -/
def Renews (env : EPointEnv) (new : RTPParams) (e : RTPEPoint) : Prop :=
  ∃ writer, env.makeWriter new = .ok writer ∧ (e.rserv = none → env.endWriter writer = .ok ())

theorem renewWriter_spec (env : EPointEnv) (new : RTPParams) {e e' : RTPEPoint} (h : Settled changed e e')
    (htarget : e.rtpParams.rtpTarget.isSome = true) :
    wp (renewWriter env new) (fun _ e' => Settled changed e e' ∧ Renews env new e)
      (fun _ e' => Settled changed e e' ∧ ¬ Renews env new e) e' := by
  have hshut : (e'.rserv.isNone || e'.rtpParams.rtpTarget.isNone) = true ↔ e.rserv = none := by
    rw [h.rserv, h.target, Option.isNone_eq_false_iff.mpr htarget, Bool.or_false, Option.isNone_iff_eq_none]
  rw [renewWriter, Lib.wp_bind, Lib.wp_ofExcept]
  cases hmake : env.makeWriter new with
  | error ex =>
    refine ⟨h, fun hrenews => ?_⟩
    obtain ⟨newWriter, hok, -⟩ := hrenews
    rw [hmake] at hok
    cases hok
  | ok newWriter =>
    show wp (get >>= _) _ _ e'
    rw [Lib.wp_bind, Lib.wp_get, Lib.wp_ite]
    constructor
    · intro hdown
      rw [Lib.wp_ofExcept]
      cases hend : env.endWriter newWriter with
      | ok u => exact ⟨h, newWriter, hmake, fun _ => hend⟩
      | error ex =>
        refine ⟨h, fun hrenews => ?_⟩
        obtain ⟨newWriter', hok, hended⟩ := hrenews
        rw [hmake] at hok
        cases hok
        have hended := hended (hshut.mp hdown)
        rw [hend] at hended
        cases hended
    · intro hup
      rw [Lib.wp_modify]
      exact ⟨h.withWriter _, newWriter, hmake, fun hdown => absurd (hshut.mpr hdown) hup⟩

/-- The channel, the writer and the stream follow the parameters. -/
structure Finishes (env : EPointEnv) (changed : Changed) (new : RTPParams) (e : RTPEPoint) : Prop where
  ends : Ends env changed e
  tunable : Tunable env changed new e
  writer : e.needNewWriter changed = true → Renews env new e
  stream : env.streamUpdate = .ok ()

theorem finish_spec (env : EPointEnv) (changed : Changed) (new : RTPParams) (e : RTPEPoint) :
    wp (finish env changed new) (fun _ e' => Settled changed e e' ∧ Finishes env changed new e)
      (fun _ e' => Settled changed e e' ∧ ¬ Finishes env changed new e) e := by
  have hstream : ∀ e', Settled changed e e' → Ends env changed e → Tunable env changed new e →
      (e.needNewWriter changed = true → Renews env new e) →
      wp (ofExcept env.streamUpdate : EStateM RtpExn RTPEPoint Unit) (fun _ e' => Settled changed e e' ∧ Finishes env changed new e)
        (fun _ e' => Settled changed e e' ∧ ¬ Finishes env changed new e) e' := by
    intro e' hsettled hends htunable hwriter
    rw [Lib.wp_ofExcept]
    cases hstream : env.streamUpdate with
    | ok u => exact ⟨hsettled, hends, htunable, hwriter, hstream⟩
    | error ex =>
      refine ⟨hsettled, fun hfinishes => ?_⟩
      have hok := hfinishes.stream
      rw [hstream] at hok
      cases hok
  rw [finish, Lib.wp_bind, Lib.wp_get, Lib.wp_bind]
  apply Lib.wp_mono (endOldWriter_spec env changed e)
  · rintro _ _ ⟨⟨w, rfl⟩, hends⟩
    rw [Lib.wp_bind]
    apply Lib.wp_mono (retune_spec env changed new { e with writer := w })
    · rintro _ e' ⟨⟨hproto, htarget, hrserv, hall⟩, ⟨hswap, haim⟩⟩
      have hsettled : Settled changed e e' := ⟨hproto, htarget, hrserv, hall⟩
      have htunable : Tunable env changed new e := ⟨hswap, haim⟩
      show wp (if e.needNewWriter changed = true then _ else _) _ _ e'
      rw [Lib.wp_ite]
      constructor
      · intro hneed
        have hsome : e.rtpParams.rtpTarget.isSome = true := (Bool.and_eq_true_iff.mp hneed).1
        rw [Lib.wp_bind]
        apply Lib.wp_mono (renewWriter_spec env new hsettled hsome)
        · rintro _ e'' ⟨hsettled', hrenews⟩
          exact hstream e'' hsettled' hends htunable fun _ => hrenews
        · rintro _ e'' ⟨hsettled', hlost⟩
          exact ⟨hsettled', fun hfinishes => hlost (hfinishes.writer hneed)⟩
      · intro hneed
        exact hstream e' hsettled hends htunable fun h => absurd h hneed
    · rintro _ e' ⟨⟨hproto, htarget, hrserv, hall⟩, hstays⟩
      exact ⟨⟨hproto, htarget, hrserv, hall⟩, fun hfinishes => hstays ⟨hfinishes.tunable.swap, hfinishes.tunable.aim⟩⟩
  · rintro _ _ ⟨⟨w, rfl⟩, hlost⟩
    exact ⟨(Settled.refl changed e).withWriter w, fun hfinishes => hlost hfinishes.ends⟩

theorem wp_onParams {x : EStateM RtpExn RTPParams Unit} {Q : Unit → RTPEPoint → Prop} {E : RtpExn → RTPEPoint → Prop} :
    wp (onParams x) Q E e ↔ wp x (fun u rtpParams => Q u { e with rtpParams }) (fun ex rtpParams => E ex { e with rtpParams })
      e.rtpParams := by
  unfold wp onParams
  cases x e.rtpParams with
  | ok u rtpParams => rfl
  | error ex rtpParams => rfl

theorem adoptedTarget_isSome (env : Env) (cur new : RTPParams) :
    (adoptedTarget env cur new).isSome = new.rtpTarget.isSome := by
  unfold adoptedTarget
  split
  · rename_i h
    rcases h with h | h
    · rw [h]
    · rw [← h, canonical, Option.isSome_map]
  · rw [canonical, Option.isSome_map]

/-- After the assignments the rest of an update goes on exactly if its calls do. -/
theorem finishes_iff {codec : Codec} {a : Text} (hcodec : new.codec = some codec) :
    Finishes env ⟨e.rtpParams.rtpTarget ≠ new.rtpTarget, e.rtpParams.rtpProto ≠ new.rtpProto,
      e.rtpParams.outPtime ≠ new.outPtime⟩ new
      { e with rtpParams := { adopted env.toEnv e.rtpParams new a with codec := some codec } } ↔ Goes env e new := by
  have hproto : decide (e.rtpParams.rtpProto ≠ new.rtpProto) = true ↔ new.rtpProto ≠ e.rtpParams.rtpProto := by
    rw [decide_eq_true_eq, ne_comm]
  have hkept : decide (e.rtpParams.rtpProto ≠ new.rtpProto) = false ↔ new.rtpProto = e.rtpParams.rtpProto := by
    rw [decide_eq_false_iff_not, not_not, eq_comm]
  have htarget : decide (e.rtpParams.rtpTarget ≠ new.rtpTarget) = true ↔ new.rtpTarget ≠ e.rtpParams.rtpTarget := by
    rw [decide_eq_true_eq, ne_comm]
  have hadopted : new.rtpTarget ≠ e.rtpParams.rtpTarget →
      adoptedTarget env.toEnv e.rtpParams new = canonical env.toEnv new.rtpTarget := by
    intro hne
    unfold adoptedTarget
    split
    · rename_i h
      exact (h.resolve_left hne).symm
    · rfl
  have hneed : ∀ p : RTPParams, p.rtpTarget = adoptedTarget env.toEnv e.rtpParams new →
      (needNewWriter { e with rtpParams := p } ⟨e.rtpParams.rtpTarget ≠ new.rtpTarget,
        e.rtpParams.rtpProto ≠ new.rtpProto, e.rtpParams.outPtime ≠ new.outPtime⟩ = true ↔
      new.rtpTarget ≠ none ∧
        (e.writer = none ∨ new.outPtime ≠ e.rtpParams.outPtime ∨ new.rtpProto ≠ e.rtpParams.rtpProto)) := by
    intro p hp
    unfold needNewWriter
    rw [hp, adoptedTarget_isSome]
    simp only [Bool.and_eq_true, Bool.or_eq_true, Option.isNone_iff_eq_none, Option.isSome_iff_ne_none,
      decide_eq_true_eq, or_assoc, ne_comm]
  have hended : ∀ p : RTPParams, p.rtpTarget = adoptedTarget env.toEnv e.rtpParams new → e.writer ≠ none →
      ((p.rtpTarget.isNone || needNewWriter { e with rtpParams := p } ⟨e.rtpParams.rtpTarget ≠ new.rtpTarget,
        e.rtpParams.rtpProto ≠ new.rtpProto, e.rtpParams.outPtime ≠ new.outPtime⟩) = true ↔
      new.rtpTarget = none ∨ new.outPtime ≠ e.rtpParams.outPtime ∨ new.rtpProto ≠ e.rtpParams.rtpProto) := by
    intro p hp hwriter
    have hnone : p.rtpTarget.isNone = true ↔ new.rtpTarget = none := by
      rw [← Option.not_isSome, hp, adoptedTarget_isSome, Option.not_isSome, Option.isNone_iff_eq_none]
    rw [Bool.or_eq_true, hnone, hneed p hp]
    tauto
  constructor
  · rintro ⟨hends, ⟨hswap, haim⟩, hwriter, hstream⟩
    refine ⟨?_, ?_, ?_, ?_, ?_, hstream⟩
    · rw [hcodec]
      simp
    · intro hchange writer hw
      exact hends ((hended _ rfl (by rw [hw]; simp)).mpr hchange) writer hw
    · intro hne
      exact hswap (hproto.mpr hne)
    · intro hsame hne
      rw [← hadopted hne]
      exact haim (hkept.mpr hsame) (htarget.mpr hne)
    · intro hsome hneeded
      exact hwriter ((hneed _ rfl).mpr ⟨hsome, hneeded⟩)
  · rintro ⟨-, hends, hswap, haim, hwriter, hstream⟩
    refine ⟨?_, ⟨?_, ?_⟩, ?_, hstream⟩
    · intro hchange writer hw
      have hsome : e.writer ≠ none := by
        intro hnone
        rw [hw] at hnone
        cases hnone
      exact hends ((hended _ rfl hsome).mp hchange) writer hw
    · intro hne
      exact hswap (hproto.mp hne)
    · intro hsame hne
      have hgo := haim (hkept.mp hsame) (htarget.mp hne)
      rw [← hadopted (htarget.mp hne)] at hgo
      exact hgo
    · intro hneeded
      obtain ⟨hsome, hneeded⟩ := (hneed _ rfl).mp hneeded
      exact hwriter hsome hneeded

/-- What an update should do: it succeeds or leaves the parameters as they are. -/
def Accepted (env : EPointEnv) (e : RTPEPoint) (new : RTPParams) : Prop :=
  returns (update env new) e = true ∨ (endState (update env new) e).rtpParams = e.rtpParams

theorem accepted_iff_wp : Accepted env e new ↔
    wp (update env new) (fun _ _ => True) (fun _ e' => e'.rtpParams = e.rtpParams) e := by
  unfold Accepted returns endState wp
  cases update env new e with
  | ok u e' => exact iff_of_true (.inl rfl) trivial
  | error ex e' => exact or_iff_right (by simp)

theorem wp_update {Q : Unit → RTPEPoint → Prop} {E : RtpExn → RTPEPoint → Prop} :
    wp (update env new) Q E e ↔ wp (adopt env.toEnv new)
      (fun _ p => wp (finish env ⟨e.rtpParams.rtpTarget ≠ new.rtpTarget, e.rtpParams.rtpProto ≠ new.rtpProto,
        e.rtpParams.outPtime ≠ new.outPtime⟩ new) Q E { e with rtpParams := p })
      (fun ex p => E ex { e with rtpParams := p }) e.rtpParams := by
  rw [update, Lib.wp_bind, Lib.wp_get, Lib.wp_bind, wp_onParams]

theorem adopted_iff {env : Env} {a : Text} (ha : Idle env cur new → a = cur.rtpLaddr) {codec : Option Codec}
    (hcodec : new.codec = none ∧ codec = cur.codec ∨ new.codec ≠ none ∧ codec = new.codec) :
    { adopted env cur new a with codec := codec } = cur ↔ Idle env cur new := by
  constructor
  · intro h
    have htarget : adoptedTarget env cur new = cur.rtpTarget := congrArg RTPParams.rtpTarget h
    have hproto := congrArg RTPParams.rtpProto h
    have hptime := congrArg RTPParams.outPtime h
    have hsr := congrArg RTPParams.outSr h
    refine ⟨hproto, ?_, hptime, hsr, ?_⟩
    · unfold adoptedTarget at htarget
      split at htarget
      · assumption
      · exact .inr htarget
    · rcases hcodec with ⟨hnone, -⟩ | ⟨-, hnew⟩
      · exact .inl hnone
      · exact .inr (hnew.symm.trans (congrArg RTPParams.codec h))
  · intro h
    have htarget : adoptedTarget env cur new = cur.rtpTarget := if_pos h.target
    have hcodec : codec = cur.codec := by
      rcases hcodec with ⟨-, hcodec⟩ | ⟨hsome, hcodec⟩
      · exact hcodec
      · exact hcodec.trans (h.codec.resolve_left hsome)
    unfold adopted
    rw [htarget, ha h, h.proto, h.outPtime, h.outSr, hcodec]

/-- An update ends well exactly if its calls go on; if it raises, the parameters are as before exactly if they are
assigned what they have. -/
theorem update_spec (hres : Resolvable env.toEnv e.rtpParams new) :
    wp (update env new) (fun _ _ => Goes env e new)
      (fun _ e' => ¬ Goes env e new ∧ (e'.rtpParams = e.rtpParams ↔ Idle env.toEnv e.rtpParams new)) e := by
  rw [wp_update]
  apply Lib.wp_mono (adopt_goes hres)
  · rintro _ p ⟨a, codec, ha, hcodec, rfl⟩
    apply Lib.wp_mono (finish_spec env _ new _)
    · rintro _ e' ⟨-, hfinishes⟩
      exact (finishes_iff hcodec).mp hfinishes
    · rintro _ e' ⟨hsettled, hstays⟩
      refine ⟨fun hgoes => hstays ((finishes_iff hcodec).mpr hgoes), ?_⟩
      have hiff : { adopted env.toEnv e.rtpParams new a with codec := some codec } = e.rtpParams ↔
          Idle env.toEnv e.rtpParams new :=
        adopted_iff ha (.inr ⟨by simp [hcodec], hcodec.symm⟩)
      constructor
      · intro hsame
        have hproto : new.rtpProto = e.rtpParams.rtpProto := by
          rw [← hsame]
          exact hsettled.proto.symm
        have hall := hsettled.all (decide_eq_false (not_not.mpr hproto.symm))
        exact hiff.mp (hall.symm.trans hsame)
      · intro hidle
        have hall := hsettled.all (decide_eq_false (not_not.mpr hidle.proto.symm))
        exact hall.trans (hiff.mpr hidle)
  · rintro _ p ⟨a, ha, hcodec, rfl⟩
    exact ⟨fun hgoes => hgoes.codec hcodec, adopted_iff ha (.inl ⟨hcodec, rfl⟩)⟩

/-- An update succeeds or changes nothing exactly if the addresses it looks up are found and its calls go on, or if it
assigns what is there. -/
theorem accepted_iff (env : EPointEnv) (e : RTPEPoint) (new : RTPParams) :
    Accepted env e new ↔ Resolvable env.toEnv e.rtpParams new ∧ (Goes env e new ∨ Idle env.toEnv e.rtpParams new) := by
  rw [accepted_iff_wp]
  by_cases hres : Resolvable env.toEnv e.rtpParams new
  · have hspec : wp (update env new) (fun _ _ => Goes env e new)
        (fun _ e' => ¬ Goes env e new ∧ (e'.rtpParams = e.rtpParams ↔ Idle env.toEnv e.rtpParams new)) e := update_spec hres
    constructor
    · intro h
      have hboth := Lib.wp_and h hspec
      unfold wp at hboth
      split at hboth
      · exact ⟨hres, .inl hboth.2⟩
      · exact ⟨hres, .inr (hboth.2.2.mp hboth.1)⟩
    · rintro ⟨-, hgoes | hidle⟩
      · exact Lib.wp_mono hspec (fun _ _ _ => trivial) fun _ _ h => absurd hgoes h.1
      · exact Lib.wp_mono hspec (fun _ _ _ => trivial) fun _ _ h => h.2.mpr hidle
  · refine iff_of_false (fun h => ?_) (fun h => hres h.1)
    have hraises : wp (update env new) (fun _ _ => False)
        (fun _ e' => e'.rtpParams.rtpProto ≠ e.rtpParams.rtpProto ∨ e'.rtpParams.rtpTarget ≠ e.rtpParams.rtpTarget) e := by
      rw [wp_update]
      exact Lib.wp_mono (adopt_raises hres) (fun _ _ h => h.elim) fun _ _ h => h
    have hboth := Lib.wp_and h hraises
    unfold wp at hboth
    split at hboth
    · exact hboth.2
    · rcases hboth.2 with hproto | htarget
      · exact hproto (congrArg RTPParams.rtpProto hboth.1)
      · exact htarget (congrArg RTPParams.rtpTarget hboth.1)

/-- A host of one family has no local address in the other, so that the old target is lost with a new protocol. -/
theorem not_resolvable {env : Env} {family : Text → Family}
    (hfamily : ∀ host af a, env.local4remote host af = .ok a → family host = af) (hcur : cur.Consistent env)
    (htarget : cur.rtpTarget ≠ none) (hproto : new.rtpProto ≠ cur.rtpProto) : ¬ Resolvable env cur new := by
  obtain ⟨t, ht⟩ := Option.ne_none_iff_exists'.mp htarget
  have hfound : ∀ p : RTPParams, p.rtpTarget = some t → (∃ a, p.getLaddr env = .ok a) → family t.host = p.rtpFamily := by
    rintro p hp ⟨a, ha⟩
    unfold RTPParams.getLaddr at ha
    rw [hp] at ha
    obtain ⟨a', ha', -⟩ := Lib.bind_ok.mp ha
    exact hfamily _ _ _ ha'
  have hfamilies : { cur with rtpProto := new.rtpProto }.rtpFamily ≠ cur.rtpFamily := by
    unfold RTPParams.rtpFamily
    cases hn : new.rtpProto with
    | ip4 => cases hc : cur.rtpProto with
      | ip4 => exact absurd (hn.trans hc.symm) hproto
      | ip6 => simp
    | ip6 => cases hc : cur.rtpProto with
      | ip4 => simp
      | ip6 => exact absurd (hn.trans hc.symm) hproto
  rintro ⟨hsame | hnew, -⟩
  · exact hproto hsame
  · have hold := hfound cur ht ⟨_, hcur⟩
    exact hfamilies ((hfound { cur with rtpProto := new.rtpProto } ht hnew).symm.trans hold)

end Update

/-- Exactly when the parameters stay consistent: over every run of assignments to parameters that were created, and with
an update of an end point; one that changes the protocol of a target of one family never does. -/
theorem parameters_iff (env : EPointEnv) :
    (∀ rtpTarget outPtime outSr rtpProto p,
      RTPParams.init env.toEnv rtpTarget outPtime outSr rtpProto = .ok p → ∀ as,
        ((∀ bs, bs <+: as → (Lib.run (assign env.toEnv) p bs).Consistent env.toEnv) ∧
            Lib.Along (assign env.toEnv) (Undone env.toEnv) p as ↔
          Lib.Along (assign env.toEnv) (fun p a => a.Resolves env.toEnv p) p as)) ∧
    (∀ e new, Accepted env e new ↔
      Resolvable env.toEnv e.rtpParams new ∧ (Goes env e new ∨ Idle env.toEnv e.rtpParams new)) ∧
    ∀ family : Text → Family, (∀ host af a, env.local4remote host af = .ok a → family host = af) →
      ∀ e new, e.rtpParams.Consistent env.toEnv → e.rtpParams.rtpTarget ≠ none →
        new.rtpProto ≠ e.rtpParams.rtpProto → ¬ Accepted env e new := by
  refine ⟨?_, accepted_iff env, ?_⟩
  · intro rtpTarget outPtime outSr rtpProto p hinit as
    exact run_iff (init_consistent hinit) as
  · intro family hfamily e new hcur htarget hproto h
    exact not_resolvable hfamily hcur htarget hproto ((accepted_iff env e new).mp h).1

/-- A system with one IPv4 network, and IPv6 on the host only. -/
def sampleEnv : EPointEnv where
  ipAddress host :=
    if host = "0:0:0:0:0:0:0:1".toList then some "::1".toList
    else if host = "::1".toList ∨ host = "10.0.0.1".toList ∨ host = "10.0.0.2".toList then some host
    else none
  local4remote host family :=
    if family = .inet ∧ (host = "10.0.0.1".toList ∨ host = "10.0.0.2".toList) then .ok "10.0.0.9".toList
    else if family = .inet6 ∧ host = "::1".toList then .ok "[::1]".toList
    else .error (.osError false)
  randint _ := 0
  createChannel _ _ _ port := .ok ⟨port, none⟩
  setTarget channel target := .ok { channel with target := some target }
  close _ := .ok ()
  makeWriter rtpParams := .ok ⟨rtpParams⟩
  endWriter _ := .ok ()
  streamUpdate := .ok ()

def sampleFamily (host : Text) : Family := if ':' ∈ host then .inet6 else .inet

def sampleIp4 : RTPParams := ⟨some ⟨"10.0.0.1".toList, 4000⟩, .ip4, "10.0.0.9".toList, 6000, 20, 8000, some .g711⟩

def sampleIp6 : RTPParams := ⟨some ⟨"::1".toList, 4002⟩, .ip6, "::1".toList, 0, 20, 8000, some .g711⟩

def sampleEPoint : RTPEPoint := ⟨sampleIp4, some ⟨sampleIp4⟩, some ⟨6000, sampleIp4.rtpTarget⟩, true, ⟨1024, 65535⟩⟩

/-- Assignments that can be made in any order but by way of a target without a local address. -/
def sampleAssignments : List Assignment :=
  [.rtpTarget (.pair "10.0.0.1".toList (.inr "4000".toList)), .rtpTarget .none, .rtpProto (some "ip6".toList),
    .rtpTarget (.pair "[0:0:0:0:0:0:0:1]".toList (.inl 4002)), .rtpProto (some "tcp".toList)]

theorem sampleFamily_of {host : Text} {af : Family} {a : Text} (h : sampleEnv.local4remote host af = .ok a) :
    sampleFamily host = af := by
  simp only [sampleEnv] at h
  split_ifs at h with hinet hinet6
  · obtain ⟨rfl, rfl | rfl⟩ := hinet
    · decide
    · decide
  · obtain ⟨rfl, rfl⟩ := hinet6
    decide

theorem parameters_iff_sample : ∃ p, RTPParams.init sampleEnv.toEnv .none 20 8000 (some "IP4".toList) = .ok p ∧
    (Lib.run (assign sampleEnv.toEnv) p sampleAssignments).Consistent sampleEnv.toEnv ∧
    Accepted sampleEnv sampleEPoint { sampleIp4 with rtpTarget := some ⟨"10.0.0.2".toList, 4004⟩ } ∧
    ¬ Accepted sampleEnv sampleEPoint sampleIp6 := by
  obtain ⟨hruns, hupdates, hswitches⟩ := parameters_iff sampleEnv
  have hinit : RTPParams.init sampleEnv.toEnv .none 20 8000 (some "IP4".toList) =
      .ok ⟨none, .ip4, "0.0.0.0".toList, 0, 20, 8000, none⟩ := by
    rfl
  have hresolves : Lib.Along (assign sampleEnv.toEnv) (fun p a => a.Resolves sampleEnv.toEnv p)
      ⟨none, .ip4, "0.0.0.0".toList, 0, 20, 8000, none⟩ sampleAssignments := by
    decide +kernel
  refine ⟨_, hinit, ?_, ?_, ?_⟩
  · exact ((hruns _ _ _ _ _ hinit _).mpr hresolves).1 _ List.prefix_rfl
  · refine (hupdates _ _).mpr ⟨⟨.inl rfl, .inr (.inr ⟨_, rfl⟩)⟩, .inl ⟨?_, fun _ _ _ => rfl, ?_, ?_, ?_, rfl⟩⟩
    · simp [sampleIp4]
    · intro hne
      exact absurd rfl hne
    · intro _ _ channel _
      exact ⟨_, rfl⟩
    · intro _ _
      exact ⟨_, rfl, fun _ => rfl⟩
  · exact hswitches sampleFamily (fun _ _ _ h => sampleFamily_of h) _ _ rfl (by simp [sampleEPoint, sampleIp4])
      (by simp [sampleEPoint, sampleIp4, sampleIp6])

/-- A target without a local address is stored all the same, and a switch to a target of the other family raises with
the new protocol and the old target. -/
theorem switch_changes :
    Lib.returns ((Assignment.rtpTarget (.pair "::1".toList (.inl 4002))).exec sampleEnv.toEnv) sampleIp4 = false ∧
      assign sampleEnv.toEnv sampleIp4 (.rtpTarget (.pair "::1".toList (.inl 4002))) ≠ sampleIp4 ∧
      ¬ (assign sampleEnv.toEnv sampleIp4 (.rtpTarget (.pair "::1".toList (.inl 4002)))).Consistent sampleEnv.toEnv ∧
      sampleIp6.Consistent sampleEnv.toEnv ∧ ¬ Accepted sampleEnv sampleEPoint sampleIp6 := by
  have hchanged : (RTPEPoint.update sampleEnv sampleIp6 |> Lib.endState <| sampleEPoint).rtpParams ≠ sampleIp4 := by
    decide +kernel
  refine ⟨by decide +kernel, by decide +kernel, ?_, rfl, ?_⟩
  · intro h
    cases h
  · rintro (h | h)
    · revert h
      decide +kernel
    · exact hchanged h

end SippyB2bua.Rtp
