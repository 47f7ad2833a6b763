import SippyB2bua.Lib.Breaks
import SippyB2bua.Lib.Run
import SippyB2bua.Message

/-!
# The health check of an RTP proxy

A client asks for the version of its proxy, then for its capabilities, and sends a heartbeat as long as the proxy is
online. Each reply leads to the next command or arms a timer for it; commands of others that time out put the client
offline between any two of them. A command is completed once, with a text or with nothing.
-/

namespace SippyB2bua.Rtpp
open Lib (Text run Along)
open Lib.Text (split1 int splitlines)

inductive Capability
  | copySupported | statSupported | tnotSupported | sbindSupported | wdntSupported | copyPSupported
  deriving DecidableEq

def CAPSTABLE : List (Text × Capability) :=
  [("20071218".toList, .copySupported), ("20080403".toList, .statSupported), ("20081224".toList, .tnotSupported),
    ("20090810".toList, .sbindSupported), ("20150617".toList, .wdntSupported), ("20250523".toList, .copyPSupported)]

/-- The commands of the health check; `VF` belongs to a `Rtpp_caps_checker`, by its number. -/
inductive HealthCommand
  | v
  | vf (checker : ℕ) (vname : Capability)
  | ib
  deriving DecidableEq

inductive HealthTimer
  | versionCheck | heartbeat
  deriving DecidableEq

structure RtppCapsChecker where
  capsRequested : ℕ
  capsReceived : ℕ
  deriving DecidableEq

structure Stats where
  sessionsCreated : ℤ
  activeSessions : ℤ
  activeStreams : ℤ
  preceived : ℤ
  ptransmitted : ℤ

structure RtpProxyClient where
  online : Bool
  shutDown : Bool
  capsDone : Bool
  supported : Capability → Bool
  sessionsCreated : Option ℤ
  activeSessions : Option ℤ
  activeStreams : Option ℤ
  preceived : Option ℤ
  ptransmitted : Option ℤ
  checkers : List RtppCapsChecker
  /-- The commands that are sent and not completed. -/
  inflight : List HealthCommand
  timers : List HealthTimer

namespace Stats

/-- `int(line_parts[1])`. -/
def part (value : Option Text) : Except Exn ℤ :=
  match value with
  | none => .error .indexError
  | some value => match int value with
    | none => .error .valueError
    | some n => .ok n

def readLine (s : Stats) (line : Text) : Except Exn Stats :=
  let (key, value) := split1 ':' line
  if key = "sessions created".toList then (part value).map fun n => { s with sessionsCreated := n }
  else if key = "active sessions".toList then (part value).map fun n => { s with activeSessions := n }
  else if key = "active streams".toList then (part value).map fun n => { s with activeStreams := n }
  else if key = "packets received".toList then (part value).map fun n => { s with preceived := n }
  else if key = "packets transmitted".toList then (part value).map fun n => { s with ptransmitted := n }
  else .ok s

def Readable (stats : Text) : Prop := ∃ s, (splitlines stats).foldlM readLine ⟨0, 0, 0, 0, 0⟩ = .ok s

end Stats

namespace RtpProxyClient

/-- `send_command(command, callback)`. -/
def send (c : RtpProxyClient) (command : HealthCommand) : RtpProxyClient := { c with inflight := c.inflight ++ [command] }

/-- `to = TimeoutInact(..)`, `to.go()`. -/
def arm (c : RtpProxyClient) (timer : HealthTimer) : RtpProxyClient := { c with timers := c.timers ++ [timer] }

def versionCheck (c : RtpProxyClient) : RtpProxyClient := if c.shutDown then c else c.send .v

def heartbeat (c : RtpProxyClient) : RtpProxyClient := if c.shutDown then c else c.send .ib

/-- `Rtpp_caps_checker(self)`. -/
def capsChecker (c : RtpProxyClient) : RtpProxyClient :=
  let checker := c.checkers.length
  let c := { c with capsDone := false, checkers := c.checkers ++ [⟨CAPSTABLE.length, 0⟩] }
  CAPSTABLE.foldl (fun c vers => c.send (.vf checker vers.2)) c

def goOnline (c : RtpProxyClient) : RtpProxyClient :=
  if c.shutDown then c
  else if c.online then c
  else if c.capsDone then { c with online := true }.heartbeat
  else c.capsChecker

def goOffline (c : RtpProxyClient) : RtpProxyClient :=
  if c.shutDown then c
  else if c.online then { c with online := false }.arm .versionCheck
  else c

def versionCheckReply (c : RtpProxyClient) (version : Option Text) : RtpProxyClient :=
  if c.shutDown then c
  else if version = some "20040107".toList then c.goOnline
  else if c.online then c.goOffline
  else c.arm .versionCheck

/-- `caps_query_done(result, vers)` of a checker. -/
def capsQueryDone (c : RtpProxyClient) (checker : ℕ) (vname : Capability) (result : Option Text) : RtpProxyClient :=
  match c.checkers[checker]? with
  | none => c
  | some k =>
    let k := { k with capsReceived := k.capsReceived + 1 }
    let c := { c with
      checkers := c.checkers.set checker k
      supported := fun v => if v = vname then result = some ['1'] else c.supported v }
    if k.capsReceived = k.capsRequested then { c with capsDone := true }.goOnline else c

def updateActive (c : RtpProxyClient) (s : Stats) : RtpProxyClient :=
  { c with
    sessionsCreated := some s.sessionsCreated, activeSessions := some s.activeSessions
    activeStreams := some s.activeStreams, preceived := some s.preceived, ptransmitted := some s.ptransmitted }

/-- The loop over the lines of the statistics; the first that cannot be read raises. -/
def readStats (c : RtpProxyClient) (s : Stats) : List Text → RtpProxyClient × Except Exn Unit
  | [] => (c, .ok ())
  | line :: lines => match s.readLine line with
    | .error e => (c, .error e)
    | .ok s => (c.updateActive s).readStats s lines

def heartbeatReply (c : RtpProxyClient) (stats : Option Text) : RtpProxyClient :=
  if c.shutDown then c
  else if ¬ c.online then c
  else match stats with
    | none => { c with activeSessions := none }.goOffline.arm .heartbeat
    | some stats => match c.readStats ⟨0, 0, 0, 0, 0⟩ (splitlines stats) with
      | (c, .ok _) => c.arm .heartbeat
      | (c, .error _) => c

def init : RtpProxyClient :=
  versionCheck ⟨false, false, false, fun _ => false, none, none, none, none, none, [], [], []⟩

inductive Label
  /-- A command in flight is completed. -/
  | reply (i : ℕ) (result : Option Text)
  /-- A timer runs out. -/
  | fire (i : ℕ)
  /-- A command of another part of the program times out. -/
  | goOffline
  | shutdown

def completed (c : RtpProxyClient) (result : Option Text) : HealthCommand → RtpProxyClient
  | .v => c.versionCheckReply result
  | .vf checker vname => c.capsQueryDone checker vname result
  | .ib => c.heartbeatReply result

def fired (c : RtpProxyClient) : HealthTimer → RtpProxyClient
  | .versionCheck => c.versionCheck
  | .heartbeat => c.heartbeat

def step (c : RtpProxyClient) : Label → RtpProxyClient
  | .reply i result => match c.inflight[i]? with
    | none => c
    | some command => { c with inflight := c.inflight.eraseIdx i }.completed result command
  | .fire i => match c.timers[i]? with
    | none => c
    | some timer => { c with timers := c.timers.eraseIdx i }.fired timer
  | .goOffline => c.goOffline
  | .shutdown => { c with shutDown := true }

/-- Something is pending that leads to the next probe. -/
inductive Driven (c : RtpProxyClient) : Prop
  | version (h : .v ∈ c.inflight)
  | capability (checker : ℕ) (vname : Capability) (h : .vf checker vname ∈ c.inflight)
  | timer (h : .versionCheck ∈ c.timers)
  | heartbeat (honline : c.online = true) (h : .ib ∈ c.inflight ∨ .heartbeat ∈ c.timers)

/-- All capability queries were answered. -/
def Answered (c : RtpProxyClient) : Prop :=
  c.capsDone = true ∧ (∃ k ∈ c.checkers, k.capsRequested = CAPSTABLE.length ∧ k.capsReceived = CAPSTABLE.length) ∧
    ∀ checker vname, .vf checker vname ∉ c.inflight

/-- The client goes on probing, and is online only when its capabilities are known. -/
structure Probing (c : RtpProxyClient) : Prop where
  driven : c.Driven
  answered : c.online = true → c.Answered

/-- The last command of an online client without a timer is not completed in vain: a heartbeat has statistics that can be
read, and a version is not the right one. -/
def Meets (c : RtpProxyClient) : Label → Prop
  | .reply i result => c.shutDown = false → c.online = true → c.timers = [] → i = 0 →
    (c.inflight = [.ib] → ∀ stats, result = some stats → Stats.Readable stats) ∧
      (c.inflight = [.v] → result ≠ some "20040107".toList)
  | _ => True

structure First (c : RtpProxyClient) : Prop where
  offline : c.online = false
  caps : c.capsDone = false
  checkers : c.checkers = []
  pending : c.inflight = [.v] ∧ c.timers = [] ∨ c.inflight = [] ∧ c.timers = [.versionCheck]

structure Asking (c : RtpProxyClient) (received : ℕ) : Prop where
  offline : c.online = false
  caps : c.capsDone = false
  checkers : c.checkers = [⟨CAPSTABLE.length, received⟩]
  timers : c.timers = []
  some : c.inflight ≠ []
  length : c.inflight.length + received = CAPSTABLE.length
  queries : ∀ command ∈ c.inflight, ∃ vname, command = .vf 0 vname

structure Known (c : RtpProxyClient) : Prop where
  caps : c.capsDone = true
  checkers : c.checkers = [⟨CAPSTABLE.length, CAPSTABLE.length⟩]
  commands : ∀ command ∈ c.inflight, command = .v ∨ command = .ib

def Returning (c : RtpProxyClient) : Prop := c.online = false → .v ∈ c.inflight ∨ .versionCheck ∈ c.timers

inductive Phase (c : RtpProxyClient) : Prop
  | first (h : c.First)
  | asking (received : ℕ) (h : c.Asking received)
  | known (h : c.Known) (hback : c.Returning)

section Steps
variable {c : RtpProxyClient} {i received : ℕ} {result : Option Text} {command : HealthCommand} {timer : HealthTimer}

theorem mem_eraseIdx {α : Type} {x y : α} {l : List α} (hy : l[i]? = some y) (hne : x ≠ y) (hx : x ∈ l) : x ∈ l.eraseIdx i := by
  obtain ⟨j, hj⟩ := List.mem_iff_getElem?.mp hx
  apply List.mem_eraseIdx_iff_getElem?.mpr
  refine ⟨j, ?_, hj⟩
  rintro rfl
  exact hne (Option.some.inj (hj.symm.trans hy))

theorem Known.send (h : c.Known) (hcommand : command = .v ∨ command = .ib) : (c.send command).Known := by
  refine ⟨h.caps, h.checkers, ?_⟩
  intro d hd
  rcases List.mem_append.mp hd with hd | hd
  · exact h.commands d hd
  · rw [List.mem_singleton.mp hd]
    exact hcommand

theorem Known.erase (h : c.Known) (i : ℕ) : { c with inflight := c.inflight.eraseIdx i }.Known :=
  ⟨h.caps, h.checkers, fun d hd => h.commands d (List.mem_of_mem_eraseIdx hd)⟩

theorem goOffline_of_online (hs : c.shutDown = false) (h : c.online = true) :
    c.goOffline = { c with online := false }.arm .versionCheck := by
  rw [goOffline, if_neg (by simp [hs]), if_pos h]

theorem goOffline_of_offline (h : c.online = false) : c.goOffline = c := by
  rw [goOffline, if_neg (show ¬ c.online = true by simp [h]), ite_self]

theorem goOnline_of_online (h : c.online = true) : c.goOnline = c := by
  rw [goOnline, if_pos h, ite_self]

theorem goOnline_of_offline (hs : c.shutDown = false) (h : c.online = false) :
    c.goOnline = if c.capsDone then { c with online := true }.send .ib else c.capsChecker := by
  have hbeat : { c with online := true }.heartbeat = { c with online := true }.send .ib := if_neg (by simp [hs])
  rw [goOnline, if_neg (by simp [hs]), if_neg (by simp [h]), hbeat]

/-- A version check ends with the client online, or on its way to the next one. -/
theorem versionCheckReply_eq (hs : c.shutDown = false) (result : Option Text) :
    c.versionCheckReply result = if result = some "20040107".toList then c.goOnline
      else { c with online := false }.arm .versionCheck := by
  rw [versionCheckReply, if_neg (by simp [hs])]
  split
  · rfl
  · split
    · rename_i h
      exact goOffline_of_online hs h
    · rename_i h
      rw [← eq_false_of_ne_true h]

theorem readStats_eq (c : RtpProxyClient) (s : Stats) (lines : List Text) :
    ((∃ t, lines.foldlM Stats.readLine s = .ok t) ↔ (c.readStats s lines).2 = .ok ()) ∧
      (c.readStats s lines).1.inflight = c.inflight ∧ (c.readStats s lines).1.timers = c.timers ∧
      (c.readStats s lines).1.online = c.online ∧ (c.readStats s lines).1.capsDone = c.capsDone ∧
      (c.readStats s lines).1.checkers = c.checkers := by
  induction lines generalizing c s with
  | nil => exact ⟨iff_of_true ⟨s, rfl⟩ rfl, rfl, rfl, rfl, rfl, rfl⟩
  | cons line lines ih =>
    rw [readStats, List.foldlM_cons]
    cases hline : s.readLine line with
    | error e => exact ⟨iff_of_false (fun ⟨t, h⟩ => nomatch h) (fun h => nomatch h), rfl, rfl, rfl, rfl, rfl⟩
    | ok t => exact ih (c.updateActive t) t

theorem heartbeatReply_of_offline (h : c.online = false) (result : Option Text) : c.heartbeatReply result = c := by
  unfold heartbeatReply
  rw [if_pos (show ¬ c.online = true by simp [h]), ite_self]

theorem heartbeatReply_of_online (hs : c.shutDown = false) (h : c.online = true) :
    c.heartbeatReply none = ({ c with activeSessions := none, online := false }.arm .versionCheck).arm .heartbeat ∧
    ∀ stats, ∃ c' : RtpProxyClient, c'.inflight = c.inflight ∧ c'.timers = c.timers ∧ c'.online = true ∧
      c'.capsDone = c.capsDone ∧ c'.checkers = c.checkers ∧
      (Stats.Readable stats → c.heartbeatReply (some stats) = c'.arm .heartbeat) ∧
      (¬ Stats.Readable stats → c.heartbeatReply (some stats) = c') := by
  have hon : ¬ ¬ c.online = true := not_not.mpr h
  constructor
  · have hoff : { c with activeSessions := none }.goOffline =
        { c with activeSessions := none, online := false }.arm .versionCheck := goOffline_of_online hs h
    unfold heartbeatReply
    rw [if_neg (show ¬ c.shutDown = true by simp [hs]), if_neg hon]
    exact congrArg (arm · .heartbeat) hoff
  · intro stats
    obtain ⟨hreadable, hinflight, htimers, honline, hcaps, hcheckers⟩ := c.readStats_eq ⟨0, 0, 0, 0, 0⟩ (splitlines stats)
    have heq : c.heartbeatReply (some stats) = match c.readStats ⟨0, 0, 0, 0, 0⟩ (splitlines stats) with
        | (c, .ok _) => c.arm .heartbeat
        | (c, .error _) => c := by
      unfold heartbeatReply
      rw [if_neg (show ¬ c.shutDown = true by simp [hs]), if_neg hon]
    refine ⟨_, hinflight, htimers, honline.trans h, hcaps, hcheckers, ?_, ?_⟩
    · intro hok
      have hok := hreadable.mp hok
      rw [heq]
      split
      · rename_i c' u hread
        rw [hread]
      · rename_i c' e hread
        rw [hread] at hok
        cases hok
    · intro herror
      rw [heq]
      split
      · rename_i c' u hread
        refine absurd (hreadable.mpr ?_) herror
        rw [hread]
      · rename_i c' e hread
        rw [hread]

theorem send_queries (c : RtpProxyClient) (checker : ℕ) (vers : List (Text × Capability)) :
    vers.foldl (fun c vers => c.send (.vf checker vers.2)) c =
      { c with inflight := c.inflight ++ vers.map fun v => .vf checker v.2 } := by
  induction vers generalizing c with
  | nil => simp
  | cons v vers ih =>
    rw [List.foldl_cons, ih]
    simp [send]

theorem capsChecker_asking (hoff : c.online = false) (hcheckers : c.checkers = []) (hinflight : c.inflight = [])
    (htimers : c.timers = []) : c.capsChecker.Asking 0 := by
  unfold capsChecker
  rw [send_queries, hcheckers, hinflight]
  refine ⟨hoff, rfl, rfl, htimers, ?_, rfl, ?_⟩
  · simp [CAPSTABLE]
  · intro command hcommand
    obtain ⟨v, -, rfl⟩ := List.mem_map.mp hcommand
    exact ⟨v.2, rfl⟩

theorem First.reply (h : c.First) (hs : c.shutDown = false) (i : ℕ) (result : Option Text) :
    (c.step (.reply i result)).Phase := by
  rcases h.pending with ⟨hinflight, htimers⟩ | ⟨hinflight, -⟩
  · cases i with
    | zero =>
      have hstep : c.step (.reply 0 result) = { c with inflight := [] }.versionCheckReply result := by
        rw [step, hinflight]
        rfl
      rw [hstep, versionCheckReply_eq (c := { c with inflight := [] }) hs]
      split
      · rw [goOnline_of_offline (c := { c with inflight := [] }) hs h.offline, if_neg (by simp [h.caps])]
        exact .asking 0 (capsChecker_asking h.offline h.checkers rfl htimers)
      · refine .first ⟨rfl, h.caps, h.checkers, .inr ⟨rfl, ?_⟩⟩
        show c.timers ++ [.versionCheck] = [.versionCheck]
        rw [htimers, List.nil_append]
    | succ i =>
      have hstep : c.step (.reply (i + 1) result) = c := by
        rw [step, hinflight]
        rfl
      rw [hstep]
      exact .first h
  · have hstep : c.step (.reply i result) = c := by
      rw [step, hinflight]
      rfl
    rw [hstep]
    exact .first h

theorem First.fire (h : c.First) (hs : c.shutDown = false) (i : ℕ) : (c.step (.fire i)).Phase := by
  rcases h.pending with ⟨-, htimers⟩ | ⟨hinflight, htimers⟩
  · have hstep : c.step (.fire i) = c := by
      rw [step, htimers]
      rfl
    rw [hstep]
    exact .first h
  · cases i with
    | zero =>
      have hstep : c.step (.fire 0) = { c with timers := [] }.send .v := by
        rw [step, htimers]
        exact if_neg (by simp [hs])
      rw [hstep]
      refine .first ⟨h.offline, h.caps, h.checkers, .inl ⟨?_, rfl⟩⟩
      show c.inflight ++ [.v] = [.v]
      rw [hinflight, List.nil_append]
    | succ i =>
      have hstep : c.step (.fire (i + 1)) = c := by
        rw [step, htimers]
        rfl
      rw [hstep]
      exact .first h

theorem Known.goOnline (h : c.Known) (hs : c.shutDown = false) : c.goOnline.Phase := by
  cases honline : c.online with
  | true =>
    rw [goOnline_of_online honline]
    refine .known h fun hoff => ?_
    rw [honline] at hoff
    cases hoff
  | false =>
    rw [goOnline_of_offline hs honline, if_pos h.caps]
    have hknown : { c with online := true }.Known := ⟨h.caps, h.checkers, h.commands⟩
    exact .known (hknown.send (.inr rfl)) fun hoff => nomatch hoff

theorem Asking.reply (h : c.Asking received) (hs : c.shutDown = false) (i : ℕ) (result : Option Text) :
    (c.step (.reply i result)).Phase := by
  cases hi : c.inflight[i]? with
  | none =>
    have hstep : c.step (.reply i result) = c := by rw [step, hi]
    rw [hstep]
    exact .asking received h
  | some command =>
    obtain ⟨hlt, -⟩ := List.getElem?_eq_some_iff.mp hi
    have hlength := h.length
    have herased : (c.inflight.eraseIdx i).length = c.inflight.length - 1 := List.length_eraseIdx_of_lt hlt
    obtain ⟨vname, rfl⟩ := h.queries command (List.mem_of_getElem? hi)
    have hstep : c.step (.reply i result) = { c with inflight := c.inflight.eraseIdx i }.capsQueryDone 0 vname result := by
      rw [step, hi]
      rfl
    unfold capsQueryDone at hstep
    simp only [h.checkers, List.getElem?_cons_zero, List.set_cons_zero] at hstep
    rw [hstep]
    split
    · -- the last query: all of them were answered
      rename_i hall
      have hnone : c.inflight.eraseIdx i = [] := List.length_eq_zero_iff.mp (by omega)
      rw [hall, hnone]
      exact Known.goOnline ⟨rfl, rfl, fun _ hcommand => nomatch hcommand⟩ hs
    · rename_i hmore
      refine .asking (received + 1) ⟨h.offline, h.caps, rfl, h.timers, ?_, ?_, ?_⟩
      · intro hnil
        have hzero : (c.inflight.eraseIdx i).length = 0 := List.length_eq_zero_iff.mpr hnil
        exact hmore (by omega)
      · show (c.inflight.eraseIdx i).length + (received + 1) = CAPSTABLE.length
        omega
      · intro command hcommand
        exact h.queries command (List.mem_of_mem_eraseIdx hcommand)

theorem Asking.fire (h : c.Asking received) (i : ℕ) : (c.step (.fire i)).Phase := by
  have hstep : c.step (.fire i) = c := by
    rw [step, h.timers]
    rfl
  rw [hstep]
  exact .asking received h

theorem Known.arm (h : c.Known) : (c.arm .versionCheck).Phase := by
  refine .known ⟨h.caps, h.checkers, h.commands⟩ ?_
  intro _
  exact .inr (List.mem_append_right _ (List.mem_singleton.mpr rfl))

theorem Known.reply (h : c.Known) (hback : c.Returning) (hs : c.shutDown = false) (i : ℕ) (result : Option Text) :
    (c.step (.reply i result)).Phase := by
  cases hi : c.inflight[i]? with
  | none =>
    have hstep : c.step (.reply i result) = c := by rw [step, hi]
    rw [hstep]
    exact .known h hback
  | some command =>
    have hstep : c.step (.reply i result) = { c with inflight := c.inflight.eraseIdx i }.completed result command := by
      rw [step, hi]
    have hrest : { c with inflight := c.inflight.eraseIdx i }.Known := h.erase i
    rw [hstep]
    rcases h.commands command (List.mem_of_getElem? hi) with rfl | rfl
    · rw [completed, versionCheckReply_eq (c := { c with inflight := c.inflight.eraseIdx i }) hs]
      split
      · exact hrest.goOnline hs
      · have hoff : { c with inflight := c.inflight.eraseIdx i, online := false }.Known :=
          ⟨hrest.caps, hrest.checkers, hrest.commands⟩
        exact hoff.arm
    · rw [completed]
      by_cases honline : c.online = true
      · obtain ⟨hnone, hsome⟩ := heartbeatReply_of_online (c := { c with inflight := c.inflight.eraseIdx i }) hs honline
        cases result with
        | none =>
          rw [hnone]
          refine .known ⟨h.caps, h.checkers, hrest.commands⟩ ?_
          intro _
          exact .inr (List.mem_append_left _ (List.mem_append_right _ (List.mem_singleton.mpr rfl)))
        | some stats =>
          obtain ⟨c', hinflight, -, hon, hcaps, hcheckers, hread, hunread⟩ := hsome stats
          have hknown : c'.Known := by
            refine ⟨hcaps.trans h.caps, hcheckers.trans h.checkers, ?_⟩
            rw [hinflight]
            exact hrest.commands
          have hback' : ∀ d : RtpProxyClient, d.online = true → d.Returning := by
            intro d hd hoff
            rw [hd] at hoff
            cases hoff
          by_cases hreadable : Stats.Readable stats
          · rw [hread hreadable]
            exact .known ⟨hknown.caps, hknown.checkers, hknown.commands⟩ (hback' _ hon)
          · rw [hunread hreadable]
            exact .known hknown (hback' _ hon)
      · have honline := eq_false_of_ne_true honline
        rw [heartbeatReply_of_offline (c := { c with inflight := c.inflight.eraseIdx i }) honline]
        refine .known hrest fun _ => ?_
        exact (hback honline).imp_left (mem_eraseIdx hi (by simp))

theorem Known.fire (h : c.Known) (hback : c.Returning) (hs : c.shutDown = false) (i : ℕ) : (c.step (.fire i)).Phase := by
  cases hi : c.timers[i]? with
  | none =>
    have hstep : c.step (.fire i) = c := by rw [step, hi]
    rw [hstep]
    exact .known h hback
  | some timer =>
    have hrest : { c with timers := c.timers.eraseIdx i }.Known := ⟨h.caps, h.checkers, h.commands⟩
    cases timer with
    | versionCheck =>
      have hstep : c.step (.fire i) = { c with timers := c.timers.eraseIdx i }.send .v := by
        rw [step, hi]
        exact if_neg (by simp [hs])
      rw [hstep]
      refine .known (hrest.send (.inl rfl)) fun _ => ?_
      exact .inl (List.mem_append_right _ (List.mem_singleton.mpr rfl))
    | heartbeat =>
      have hstep : c.step (.fire i) = { c with timers := c.timers.eraseIdx i }.send .ib := by
        rw [step, hi]
        exact if_neg (by simp [hs])
      rw [hstep]
      refine .known (hrest.send (.inr rfl)) fun hoff => ?_
      rcases hback hoff with hv | ht
      · exact .inl (List.mem_append_left _ hv)
      · exact .inr (mem_eraseIdx hi (by simp) ht)

theorem Phase.goOffline (h : c.Phase) (hs : c.shutDown = false) : c.goOffline.Phase := by
  cases honline : c.online with
  | false =>
    rw [goOffline_of_offline honline]
    exact h
  | true =>
    rw [goOffline_of_online hs honline]
    cases h with
    | first h => exact nomatch honline.symm.trans h.offline
    | asking received h => exact nomatch honline.symm.trans h.offline
    | known h _ =>
      have hoff : { c with online := false }.Known := ⟨h.caps, h.checkers, h.commands⟩
      exact hoff.arm

theorem Phase.step (h : c.Phase) (hs : c.shutDown = false) {l : Label} (hl : (c.step l).shutDown = false) :
    (c.step l).Phase := by
  cases l with
  | reply i result => cases h with
    | first h => exact h.reply hs i result
    | asking received h => exact h.reply hs i result
    | known h hback => exact h.reply hback hs i result
  | fire i => cases h with
    | first h => exact h.fire hs i
    | asking received h => exact h.fire i
    | known h hback => exact h.fire hback hs i
  | goOffline => exact h.goOffline hs
  | shutdown => cases hl

theorem Phase.probes_iff (h : c.Phase) : c.Probing ↔ (c.online = true → c.inflight ≠ [] ∨ c.timers ≠ []) := by
  cases h with
  | first h =>
    have hoff : ¬ c.online = true := by simp [h.offline]
    refine iff_of_true ⟨?_, fun hon => absurd hon hoff⟩ fun hon => absurd hon hoff
    rcases h.pending with ⟨hinflight, -⟩ | ⟨-, htimers⟩
    · exact .version (by simp [hinflight])
    · exact .timer (by simp [htimers])
  | asking received h =>
    have hoff : ¬ c.online = true := by simp [h.offline]
    refine iff_of_true ⟨?_, fun hon => absurd hon hoff⟩ fun hon => absurd hon hoff
    obtain ⟨command, hcommand⟩ := List.exists_mem_of_ne_nil _ h.some
    obtain ⟨vname, rfl⟩ := h.queries command hcommand
    exact .capability 0 vname hcommand
  | known h hback =>
    have hvf : ∀ checker vname, .vf checker vname ∉ c.inflight := by
      intro checker vname hmem
      rcases h.commands _ hmem with hv | hib
      · cases hv
      · cases hib
    have hanswered : c.Answered := ⟨h.caps, ⟨_, by rw [h.checkers]; exact List.mem_singleton.mpr rfl, rfl, rfl⟩, hvf⟩
    constructor
    · intro hprobing _
      cases hprobing.driven with
      | version hv => exact .inl (List.ne_nil_of_mem hv)
      | capability checker vname hvf => exact .inl (List.ne_nil_of_mem hvf)
      | timer ht => exact .inr (List.ne_nil_of_mem ht)
      | heartbeat _ hib => exact hib.imp List.ne_nil_of_mem List.ne_nil_of_mem
    · intro hbusy
      refine ⟨?_, fun _ => hanswered⟩
      by_cases hon : c.online = true
      · rcases hbusy hon with hinflight | htimers
        · obtain ⟨command, hcommand⟩ := List.exists_mem_of_ne_nil _ hinflight
          rcases h.commands command hcommand with rfl | rfl
          · exact .version hcommand
          · exact .heartbeat hon (.inl hcommand)
        · obtain ⟨timer, htimer⟩ := List.exists_mem_of_ne_nil _ htimers
          cases timer with
          | versionCheck => exact .timer htimer
          | heartbeat => exact .heartbeat hon (.inr htimer)
      · rcases hback (eq_false_of_ne_true hon) with hv | ht
        · exact .version hv
        · exact .timer ht

def Lively (c : RtpProxyClient) : Prop := c.online = true → c.inflight ≠ []

theorem lively_of_offline (h : c.online = false) : c.Lively := by
  intro hon
  rw [h] at hon
  cases hon

theorem lively_send (c : RtpProxyClient) (command : HealthCommand) : (c.send command).Lively :=
  fun _ => List.append_ne_nil_of_right_ne_nil _ (List.cons_ne_nil _ _)

theorem goOnline_lively (hs : c.shutDown = false) (h : c.online = false) : c.goOnline.Lively := by
  rw [goOnline_of_offline hs h]
  split
  · exact lively_send _ _
  · apply lively_of_offline
    rw [capsChecker, send_queries]
    exact h

theorem capsQueryDone_lively (hs : c.shutDown = false) (h : c.online = false) (checker : ℕ) (vname : Capability)
    (result : Option Text) : (c.capsQueryDone checker vname result).Lively := by
  unfold capsQueryDone
  cases c.checkers[checker]? with
  | none => exact lively_of_offline h
  | some k =>
    dsimp only
    split
    · exact goOnline_lively hs h
    · exact lively_of_offline h

theorem step_lively (hs : c.shutDown = false) (h : c.online = false) (l : Label) : (c.step l).Lively := by
  cases l with
  | reply i result =>
    rw [step]
    cases hi : c.inflight[i]? with
    | none => exact lively_of_offline h
    | some command =>
      cases command with
      | v =>
        have heq := versionCheckReply_eq (c := { c with inflight := c.inflight.eraseIdx i }) hs result
        show (versionCheckReply _ result).Lively
        rw [heq]
        split
        · exact goOnline_lively hs h
        · exact lively_of_offline rfl
      | vf checker vname => exact capsQueryDone_lively (c := { c with inflight := c.inflight.eraseIdx i }) hs h _ _ _
      | ib =>
        have heq := heartbeatReply_of_offline (c := { c with inflight := c.inflight.eraseIdx i }) h result
        show (heartbeatReply _ result).Lively
        rw [heq]
        exact lively_of_offline h
  | fire i =>
    rw [step]
    cases hi : c.timers[i]? with
    | none => exact lively_of_offline h
    | some timer =>
      cases timer with
      | versionCheck =>
        show (versionCheck _).Lively
        rw [versionCheck, if_neg (by simp [hs])]
        exact lively_send _ _
      | heartbeat =>
        show (heartbeat _).Lively
        rw [heartbeat, if_neg (by simp [hs])]
        exact lively_send _ _
  | goOffline =>
    rw [step, goOffline_of_offline h]
    exact lively_of_offline h
  | shutdown => exact lively_of_offline h

theorem last_iff (hi : c.inflight[i]? = some command) : (c.inflight.eraseIdx i ≠ [] ∨ c.timers ≠ []) ↔
    (c.timers = [] → i = 0 → c.inflight ≠ [command]) := by
  constructor
  · rintro (hinflight | htimers)
    · rintro - rfl hlast
      rw [hlast] at hinflight
      exact hinflight rfl
    · exact fun h => absurd h htimers
  · intro h
    by_contra hnone
    obtain ⟨herased, htimers⟩ := not_or.mp hnone
    obtain ⟨hlt, hget⟩ := List.getElem?_eq_some_iff.mp hi
    rcases List.eraseIdx_eq_nil_iff.mp (not_not.mp herased) with hnil | ⟨hone, rfl⟩
    · rw [hnil] at hlt
      exact absurd hlt (Nat.not_lt_zero i)
    · obtain ⟨d, hd⟩ := List.length_eq_one_iff.mp hone
      refine h (not_not.mp htimers) rfl ?_
      rw [hd] at hi ⊢
      exact congrArg (fun x => [x]) (Option.some.inj hi)

theorem probing_version (h : c.Known) (hback : c.Returning) (hs : c.shutDown = false) (hon : c.online = true)
    (hi : c.inflight[i]? = some .v) : (c.step (.reply i result)).Probing ↔
      (result = some "20040107".toList → c.timers = [] → i = 0 → c.inflight ≠ [.v]) := by
  have hstep : c.step (.reply i result) = { c with inflight := c.inflight.eraseIdx i }.versionCheckReply result := by
    rw [step, hi]
    rfl
  have heq := versionCheckReply_eq (c := { c with inflight := c.inflight.eraseIdx i }) hs result
  rw [(h.reply hback hs i result).probes_iff, hstep, heq]
  by_cases hright : result = some "20040107".toList
  · rw [if_pos hright, goOnline_of_online (c := { c with inflight := c.inflight.eraseIdx i }) hon, ← last_iff hi]
    exact ⟨fun hbusy _ => hbusy hon, fun hbusy _ => hbusy hright⟩
  · rw [if_neg hright]
    exact iff_of_true (fun hoff => nomatch hoff) fun h => absurd h hright

theorem probing_heartbeat (h : c.Known) (hback : c.Returning) (hs : c.shutDown = false) (hon : c.online = true)
    (hi : c.inflight[i]? = some .ib) : (c.step (.reply i result)).Probing ↔
      (∀ stats, result = some stats → ¬ Stats.Readable stats → c.timers = [] → i = 0 → c.inflight ≠ [.ib]) := by
  have hstep : c.step (.reply i result) = { c with inflight := c.inflight.eraseIdx i }.heartbeatReply result := by
    rw [step, hi]
    rfl
  obtain ⟨hnone, hsome⟩ := heartbeatReply_of_online (c := { c with inflight := c.inflight.eraseIdx i }) hs hon
  have harmed : ∀ d : RtpProxyClient, d.online = true → (d.arm .heartbeat).inflight ≠ [] ∨ (d.arm .heartbeat).timers ≠ [] :=
    fun d _ => .inr (List.append_ne_nil_of_right_ne_nil _ (List.cons_ne_nil _ _))
  rw [(h.reply hback hs i result).probes_iff, hstep]
  cases result with
  | none =>
    rw [hnone]
    exact iff_of_true (fun hoff => nomatch hoff) fun stats hstats => nomatch hstats
  | some stats =>
    obtain ⟨c', hinflight, htimers, hon', -, -, hread, hunread⟩ := hsome stats
    by_cases hreadable : Stats.Readable stats
    · rw [hread hreadable]
      refine iff_of_true (fun _ => harmed c' hon') ?_
      intro stats' hstats hbad
      cases hstats
      exact absurd hreadable hbad
    · rw [hunread hreadable, hinflight, htimers]
      constructor
      · intro hbusy stats' _ _
        exact (last_iff hi).mp (hbusy hon')
      · intro hlast _
        exact (last_iff hi).mpr (hlast stats rfl hreadable)

theorem goOnline_shutDown (c : RtpProxyClient) : c.goOnline.shutDown = c.shutDown := by
  unfold goOnline
  split
  · rfl
  · split
    · rfl
    · split
      · unfold heartbeat
        split
        · rfl
        · rfl
      · rw [capsChecker, send_queries]

theorem goOffline_shutDown (c : RtpProxyClient) : c.goOffline.shutDown = c.shutDown := by
  unfold goOffline
  split
  · rfl
  · split
    · rfl
    · rfl

theorem readStats_shutDown (c : RtpProxyClient) (s : Stats) (lines : List Text) :
    (c.readStats s lines).1.shutDown = c.shutDown := by
  induction lines generalizing c s with
  | nil => rfl
  | cons line lines ih =>
    rw [readStats]
    cases s.readLine line with
    | error e => rfl
    | ok t => exact ih (c.updateActive t) t

theorem completed_shutDown (c : RtpProxyClient) (result : Option Text) (command : HealthCommand) :
    (c.completed result command).shutDown = c.shutDown := by
  cases command with
  | v =>
    show (c.versionCheckReply result).shutDown = _
    unfold versionCheckReply
    split
    · rfl
    · split
      · exact goOnline_shutDown c
      · split
        · exact goOffline_shutDown c
        · rfl
  | vf checker vname =>
    show (c.capsQueryDone checker vname result).shutDown = _
    unfold capsQueryDone
    cases c.checkers[checker]? with
    | none => rfl
    | some k =>
      dsimp only
      split
      · exact goOnline_shutDown _
      · rfl
  | ib =>
    show (c.heartbeatReply result).shutDown = _
    unfold heartbeatReply
    split
    · rfl
    · split
      · rfl
      · cases result with
        | none => exact goOffline_shutDown _
        | some stats =>
          have hread := c.readStats_shutDown ⟨0, 0, 0, 0, 0⟩ (splitlines stats)
          dsimp only
          split
          · rename_i c' u heq
            rw [heq] at hread
            exact hread
          · rename_i c' e heq
            rw [heq] at hread
            exact hread

theorem probing_step (h : c.Phase) (hs : c.shutDown = false) (hprobing : c.Probing) (l : Label) :
    ((c.step l).shutDown = false → (c.step l).Probing) ↔ c.Meets l := by
  by_cases hon : c.online = true
  · obtain ⟨hknown, hback⟩ : c.Known ∧ c.Returning := by
      cases h with
      | first h => exact nomatch hon.symm.trans h.offline
      | asking received h => exact nomatch hon.symm.trans h.offline
      | known hknown hback => exact ⟨hknown, hback⟩
    cases l with
    | reply i result =>
      have hhead : ∀ command, i = 0 → c.inflight = [command] → c.inflight[i]? = some command := by
        rintro command rfl hlast
        rw [hlast]
        rfl
      cases hi : c.inflight[i]? with
      | none =>
        have hstep : c.step (.reply i result) = c := by rw [step, hi]
        rw [hstep]
        refine iff_of_true (fun _ => hprobing) ?_
        intro _ _ _ h0
        exact ⟨(fun hlast => nomatch hi.symm.trans (hhead _ h0 hlast)), fun hlast => nomatch hi.symm.trans (hhead _ h0 hlast)⟩
      | some command =>
        have hs' : (c.step (.reply i result)).shutDown = false := by
          rw [step, hi]
          exact (completed_shutDown _ _ _).trans hs
        rw [forall_prop_of_true hs']
        rcases hknown.commands command (List.mem_of_getElem? hi) with rfl | rfl
        · rw [probing_version hknown hback hs hon hi]
          constructor
          · intro hlast _ _ ht h0
            exact ⟨fun hib => (nomatch hi.symm.trans (hhead _ h0 hib)), fun hv hright => hlast hright ht h0 hv⟩
          · intro hmeets hright ht h0 hv
            exact (hmeets hs hon ht h0).2 hv hright
        · rw [probing_heartbeat hknown hback hs hon hi]
          constructor
          · intro hlast _ _ ht h0
            refine ⟨fun hib stats hstats => ?_, fun hv => nomatch hi.symm.trans (hhead _ h0 hv)⟩
            by_contra hbad
            exact hlast stats hstats hbad ht h0 hib
          · intro hmeets stats hstats hbad ht h0 hib
            exact hbad ((hmeets hs hon ht h0).1 hib stats hstats)
    | fire i =>
      refine iff_of_true ?_ trivial
      intro hs'
      rw [(h.step hs hs').probes_iff, step]
      intro _
      cases hi : c.timers[i]? with
      | none => exact h.probes_iff.mp hprobing hon
      | some timer =>
        refine .inl ?_
        cases timer with
        | versionCheck =>
          show (versionCheck _).inflight ≠ []
          rw [versionCheck, if_neg (by simp [hs])]
          exact List.append_ne_nil_of_right_ne_nil _ (List.cons_ne_nil _ _)
        | heartbeat =>
          show (heartbeat _).inflight ≠ []
          rw [heartbeat, if_neg (by simp [hs])]
          exact List.append_ne_nil_of_right_ne_nil _ (List.cons_ne_nil _ _)
    | goOffline =>
      refine iff_of_true ?_ trivial
      intro hs'
      rw [(h.step hs hs').probes_iff, step, goOffline_of_online hs hon]
      intro hoff
      cases hoff
    | shutdown => exact iff_of_true (fun h => nomatch h) trivial
  · have hoff := eq_false_of_ne_true hon
    refine iff_of_true ?_ ?_
    · intro hs'
      rw [(h.step hs hs').probes_iff]
      exact fun hon' => .inl (step_lively hs hoff l hon')
    · cases l with
      | reply i result => exact fun _ hon' => absurd hon' hon
      | fire i => trivial
      | goOffline => trivial
      | shutdown => trivial

end Steps

theorem step_shutDown {c : RtpProxyClient} (h : c.shutDown = true) (l : Label) : (c.step l).shutDown = true := by
  cases l with
  | reply i result =>
    rw [step]
    cases c.inflight[i]? with
    | none => exact h
    | some command => exact (completed_shutDown _ _ _).trans h
  | fire i =>
    rw [step]
    cases c.timers[i]? with
    | none => exact h
    | some timer =>
      cases timer with
      | versionCheck =>
        show (versionCheck _).shutDown = true
        rw [versionCheck, if_pos (show c.shutDown = true from h)]
        exact h
      | heartbeat =>
        show (heartbeat _).shutDown = true
        rw [heartbeat, if_pos (show c.shutDown = true from h)]
        exact h
  | goOffline => exact (goOffline_shutDown c).trans h
  | shutdown => rfl

/-- The client probes as long as it is not shut down. -/
def KeepsProbing (c : RtpProxyClient) : Prop := c.shutDown = false → c.Probing

/-- In every run the client keeps probing exactly if every step meets the condition. -/
theorem probing_iff (ls : List Label) :
    (∀ ms, ms <+: ls → (run step init ms).KeepsProbing) ↔ Along step Meets init ls := by
  have hphase : init.Phase := .first ⟨rfl, rfl, rfl, .inl ⟨rfl, rfl⟩⟩
  have hkept : ∀ c l, (c.shutDown = false → c.Phase) → (step c l).shutDown = false → (step c l).Phase := by
    intro c l h hs'
    cases hs : c.shutDown with
    | false => exact (h hs).step hs hs'
    | true => exact nomatch hs'.symm.trans (step_shutDown hs l)
  have hstep : ∀ c l, (c.shutDown = false → c.Phase) → c.KeepsProbing → ((step c l).KeepsProbing ↔ c.Meets l) := by
    intro c l h hgood
    cases hs : c.shutDown with
    | false => exact probing_step (h hs) hs (hgood hs) l
    | true =>
      refine iff_of_true (fun hs' => nomatch hs'.symm.trans (step_shutDown hs l)) ?_
      cases l with
      | reply i result => exact fun hs' => nomatch hs'.symm.trans hs
      | fire i => trivial
      | goOffline => trivial
      | shutdown => trivial
  have hgood : init.KeepsProbing := fun _ => hphase.probes_iff.mpr fun hon => nomatch hon
  exact Lib.along_iff_prefix hkept hstep (fun _ => hphase) hgood ls

def sampleStats : Text := "sessions created: 7\nactive sessions: n/a".toList

def sampleRun : List Label :=
  [.reply 0 (some "20040107".toList), .reply 0 (some ['1']), .reply 0 none, .reply 0 (some ['1']), .reply 0 (some ['1']),
    .reply 0 (some ['1']), .reply 0 (some ['0'])]

/-- The reply to the first heartbeat cannot be read, and nothing is left to drive the client. -/
theorem unreadable_stops : (run step init (sampleRun ++ [.reply 0 (some sampleStats)])).shutDown = false ∧
    (run step init (sampleRun ++ [.reply 0 (some sampleStats)])).online = true ∧
    (run step init (sampleRun ++ [.reply 0 (some sampleStats)])).inflight = [] ∧
    (run step init (sampleRun ++ [.reply 0 (some sampleStats)])).timers = [] ∧
    ¬ (run step init (sampleRun ++ [.reply 0 (some sampleStats)])).KeepsProbing := by
  have hon : (run step init (sampleRun ++ [.reply 0 (some sampleStats)])).shutDown = false ∧
      (run step init (sampleRun ++ [.reply 0 (some sampleStats)])).online = true ∧
      (run step init (sampleRun ++ [.reply 0 (some sampleStats)])).inflight = [] ∧
      (run step init (sampleRun ++ [.reply 0 (some sampleStats)])).timers = [] := by
    decide +kernel
  obtain ⟨hs, honline, hinflight, htimers⟩ := hon
  refine ⟨hs, honline, hinflight, htimers, fun h => ?_⟩
  cases (h hs).driven with
  | version hv =>
    rw [hinflight] at hv
    cases hv
  | capability checker vname hvf =>
    rw [hinflight] at hvf
    cases hvf
  | timer ht =>
    rw [htimers] at ht
    cases ht
  | heartbeat _ hib =>
    rw [hinflight, htimers] at hib
    simp at hib

end RtpProxyClient

end SippyB2bua.Rtpp
