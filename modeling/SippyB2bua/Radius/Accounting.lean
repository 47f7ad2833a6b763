import Mathlib.Data.Rat.Floor
import SippyB2bua.Lib.Round
import SippyB2bua.Lib.Text
import SippyB2bua.Message
import SippyB2bua.Ua.Event

/-!
# Accounting records

`RadiusAccounting` sends a record when a call is connected, at intervals while it lasts, and
when it ends. For the last one the user agent tells the duration. In between it is computed from
the time of the timer, which is that of the wall clock, and the time the call was connected at,
of which a subtraction takes the monotonic reading. Times are in seconds.
-/

namespace SippyB2bua.Radius
open Lib (Text Reaches roundHalfEven roundHalfEven_eq_iff roundHalfEven_intCast roundHalfEven_le_iff
  roundHalfEven_mono roundHalfEven_near roundHalfEven_nonneg)
open Ua (Origin)

structure MonoTime where
  monot : ℚ
  realt : ℚ
  deriving DecidableEq

/-- `__sub__` of two of them. -/
def MonoTime.sub (t x : MonoTime) : ℚ := t.monot - x.monot

/-- The `rtime` of a record: that of a message or an event, or what `time()` returns. -/
inductive Stamp
  | mono (t : MonoTime)
  | wall (t : ℚ)

/-- `rtime - t`. A number leaves it to `__rsub__`, which has only the monotonic reading. -/
def Stamp.sub : Stamp → MonoTime → ℚ
  | .mono rtime, t => rtime.monot - t.monot
  | .wall rtime, t => rtime - t.monot

/-- What the clocks show: `time()` and `MonoTime()`. -/
structure Clock where
  wall : ℚ
  now : MonoTime

/-- What the accounting reads of a user agent. -/
structure CallUA where
  setupTs : Option MonoTime
  connectTs : Option MonoTime
  disconnectTs : Option MonoTime
  p1xxTs : Option MonoTime
  p100Ts : Option MonoTime
  remoteUa : Option Text

def CallUA.getAcct (ua : CallUA) (now : MonoTime) : Lazy (ℚ × ℚ × Bool × Bool) :=
  let disconnectTs := ua.disconnectTs.getD now
  match ua.setupTs, ua.connectTs with
  | none, _ => .error .typeError
  | some setup, some connect =>
    .ok (disconnectTs.sub connect, connect.sub setup, true, ua.disconnectTs.isSome)
  | some setup, none => .ok (0, disconnectTs.sub setup, false, ua.disconnectTs.isSome)

/-- The value of an attribute; a time is written by `ftime`. -/
inductive Value
  | text (s : Text)
  | int (n : ℤ)
  | time (t : ℚ)
  deriving DecidableEq

inductive AcctType
  | start | alive | stop
  deriving DecidableEq

def AcctType.text : AcctType → Text
  | .start => "Start".toList
  | .alive => "Alive".toList
  | .stop => "Stop".toList

/-- The first items of `sipErrToH323Err`. -/
def sipErrToH323Err : List (ℤ × String) :=
  [(400, "7f"), (401, "39"), (402, "15"), (403, "39"), (404, "1"), (405, "7f"), (406, "7f"),
    (407, "15"), (408, "66"), (409, "29"), (410, "1"), (411, "7f"), (413, "7f"), (414, "7f"),
    (415, "4f"), (420, "7f"), (480, "12"), (481, "7f"), (482, "7f"), (483, "7f"), (484, "1c"),
    (485, "1"), (486, "11"), (487, "12"), (488, "7f"), (500, "29"), (501, "4f"), (502, "26"),
    (503, "3f"), (504, "66"), (505, "7f"), (580, "2f"), (600, "11"), (603, "15"), (604, "1"),
    (606, "3a")]

/-- What a record says of the end of the call, or of the time that has passed. -/
structure Session where
  disconnectTime : ℚ
  sessionTime : ℤ
  cause : Text

/-- A record that is sent, with the attributes that all records of the call have. -/
structure Record where
  base : List (Text × Value)
  status : AcctType
  session : Option Session
  releaseSource : Option Text
  connectTime : ℚ
  setupTime : ℚ
  userAgent : Option Text
  p1xxTime : Option ℤ
  p100Time : Option ℚ

/-- The attributes in the order of `asend`. -/
def Record.attributes (r : Record) : List (Text × Value) :=
  r.base ++
    (match r.session with
      | none => []
      | some s =>
        [("h323-disconnect-time".toList, .time s.disconnectTime),
          ("Acct-Session-Time".toList, .int s.sessionTime),
          ("h323-disconnect-cause".toList, .text s.cause)]) ++
    (r.releaseSource.map fun s => ("release-source".toList, .text s)).toList ++
    [("h323-connect-time".toList, .time r.connectTime),
      ("h323-setup-time".toList, .time r.setupTime),
      ("Acct-Status-Type".toList, .text r.status.text)] ++
    (r.userAgent.map fun s => ("h323-ivr-out".toList, .text ("sip_ua:".toList ++ s))).toList ++
    (r.p1xxTime.map fun n => ("Acct-Delay-Time".toList, .int n)).toList ++
    (r.p100Time.map fun t => ("provisional-timepoint".toList, .time t)).toList

structure RadiusAccounting where
  attributes : List (Text × Value)
  drec : Bool
  crec : Bool
  iTime : Option MonoTime
  cTime : Option MonoTime
  lperiod : Option ℚ
  el : Bool
  sendStart : Bool
  complete : Bool
  msPrecision : Bool
  userAgent : Option Text
  p1xxTs : Option MonoTime
  p100Ts : Option MonoTime
  /-- What `do_acct` was called with. -/
  sent : List Record

namespace RadiusAccounting

def init (origin : Text) (lperiod : Option ℚ) (sendStart msPrecision : Bool) : RadiusAccounting where
  attributes := [("h323-call-origin".toList, .text origin), ("h323-call-type".toList, .text "VoIP".toList),
    ("h323-session-protocol".toList, .text "sipv2".toList)]
  drec := false
  crec := false
  iTime := none
  cTime := none
  lperiod := lperiod
  el := false
  sendStart := sendStart
  complete := false
  msPrecision := msPrecision
  userAgent := none
  p1xxTs := none
  p100Ts := none
  sent := []

def setParams (a : RadiusAccounting) (username : Text) (caller : Option Text) (callee sipCid remoteIp : Text)
    (h323InCid : Option Text) : RadiusAccounting :=
  { a with
    attributes := a.attributes ++ [("User-Name".toList, .text username),
      ("Calling-Station-Id".toList, .text (caller.getD [])), ("Called-Station-Id".toList, .text callee),
      ("call-id".toList, .text sipCid), ("Acct-Session-Id".toList, .text sipCid),
      ("h323-remote-address".toList, .text remoteIp)] ++
      (h323InCid.map fun cid => ("h323-incoming-conf-id".toList, .text cid)).toList
    complete := true }

def rounded (a : RadiusAccounting) (t : ℚ) : ℚ := if a.msPrecision then t else roundHalfEven t

def cause (result : ℤ) : Text :=
  if 400 ≤ result then ((sipErrToH323Err.lookup result).getD "7f").toList
  else if result < 200 then "10".toList else "0".toList

def releaseSource : Option Origin → Text
  | some .caller => "2".toList
  | some .callee => "4".toList
  | none => "8".toList

/-- The duration and the delay: those of the user agent, or of the times the accounting has. -/
def durations (a : RadiusAccounting) (rtime : Stamp) (ua : Option CallUA) (now : MonoTime) : Lazy (ℚ × ℚ) :=
  match ua with
  | some ua => (ua.getAcct now).map fun acct => (acct.1, acct.2.1)
  | none =>
    match a.cTime, a.iTime with
    | some cTime, some iTime => .ok (rtime.sub cTime, cTime.sub iTime)
    | _, _ => .error .typeError

def asend (a : RadiusAccounting) (type : AcctType) (rtime : Option Stamp) (origin : Option Origin)
    (result : ℤ) (ua : Option CallUA) (clock : Clock) : Lazy RadiusAccounting :=
  if a.complete then do
    let (duration, delay) ← a.durations (rtime.getD (.wall clock.wall)) ua clock.now
    let duration := a.rounded duration
    let delay := a.rounded delay
    let iTime ← a.iTime.elim (.error .attributeError) fun t => .ok t.realt
    let record : Record := {
      base := a.attributes
      status := type
      session := if type = .start then none else some {
        disconnectTime := iTime + delay + duration, sessionTime := roundHalfEven duration,
        cause := cause result }
      releaseSource := if type = .stop then some (releaseSource origin) else none
      connectTime := iTime + delay
      setupTime := iTime
      userAgent := a.userAgent
      p1xxTime := a.p1xxTs.map fun t => roundHalfEven t.realt
      p100Time := a.p100Ts.map fun t => t.realt }
    return { a with sent := a.sent ++ [record] }
  else .ok a

def identify (a : RadiusAccounting) (ua : CallUA) : RadiusAccounting :=
  { a with userAgent := a.userAgent.or ua.remoteUa, p1xxTs := ua.p1xxTs.or a.p1xxTs,
           p100Ts := ua.p100Ts.or a.p100Ts }

/-- The first record gets the user agent in the place of the result, and so none to ask. -/
def conn (a : RadiusAccounting) (ua : CallUA) (rtime : MonoTime) (origin : Option Origin) (clock : Clock) :
    RadiusAccounting :=
  if a.crec then a
  else
    let a := { a with crec := true, iTime := ua.setupTs, cTime := ua.connectTs }.identify ua
    match (if a.sendStart then a.asend .start (some (.mono rtime)) origin 0 none clock else .ok a) with
    | .error _ => a
    | .ok a =>
      { a with
        attributes := a.attributes ++ [("h323-voice-quality".toList, .int 0),
          ("Acct-Terminate-Cause".toList, .text "User-Request".toList)]
        el := a.lperiod.any fun lperiod => 0 < lperiod }

/-- The timer calls `asend('Alive')`. -/
def alive (a : RadiusAccounting) (clock : Clock) : RadiusAccounting :=
  if a.el then
    match a.asend .alive none none 0 none clock with
    | .error _ => a
    | .ok a => a
  else a

def disc (a : RadiusAccounting) (ua : CallUA) (rtime : MonoTime) (origin : Option Origin) (result : ℤ)
    (clock : Clock) : RadiusAccounting :=
  if a.drec then a
  else
    let a := { a with drec := true, el := false, iTime := a.iTime.or ua.setupTs,
                      cTime := a.cTime.or (some rtime) }.identify ua
    match a.asend .stop (some (.mono rtime)) origin result (some ua) clock with
    | .error _ => a
    | .ok a => a

end RadiusAccounting

/-- A call from the moment it is connected, and the accounting of it: the times the user agent
stores, what the clocks show when the timer fires, and when the call ends. The wall clock is ahead
of the monotonic one by `offset`. -/
structure Call where
  offset : ℚ
  origin : Text
  lperiod : Option ℚ
  sendStart : Bool
  msPrecision : Bool
  setup : MonoTime
  connect : MonoTime
  disconnect : MonoTime
  /-- The fields of the user agent that do not matter, at the two ends. -/
  first : CallUA
  last : CallUA
  connRtime : MonoTime
  connOrigin : Option Origin
  connClock : Clock
  ticks : List Clock
  armed : ticks ≠ [] → ∃ period ∈ lperiod, 0 < period
  shown : ∀ t ∈ ticks, t.wall = t.now.monot + offset
  later : ticks.Pairwise fun t u => t.now.monot ≤ u.now.monot
  discRtime : MonoTime
  discOrigin : Option Origin
  result : ℤ
  discClock : Clock

namespace Call

variable (call : Call)

def atConn : CallUA :=
  { call.first with setupTs := some call.setup, connectTs := some call.connect, disconnectTs := none }

def atDisc : CallUA :=
  { call.last with
    setupTs := some call.setup, connectTs := some call.connect, disconnectTs := some call.disconnect }

/-- A new accounting is told about the call, its timer fires, and the call ends. -/
def run (username : Text) (caller : Option Text) (callee sipCid remoteIp : Text) (cid : Option Text) :
    RadiusAccounting :=
  let a := (RadiusAccounting.init call.origin call.lperiod call.sendStart call.msPrecision).setParams
    username caller callee sipCid remoteIp cid
  let a := a.conn call.atConn call.connRtime call.connOrigin call.connClock
  let a := call.ticks.foldl RadiusAccounting.alive a
  a.disc call.atDisc call.discRtime call.discOrigin call.result call.discClock

/-- The seconds since the call was connected, on the monotonic clock. -/
def elapsed (t : MonoTime) : ℤ := roundHalfEven (t.sub call.connect)

def rounded (t : ℚ) : ℚ := if call.msPrecision then t else roundHalfEven t

end Call

def sessionTimes (type : AcctType) (sent : List Record) : List ℤ :=
  sent.filterMap fun r => if r.status = type then r.session.map Session.sessionTime else none

/-- The session times are what has passed on the monotonic clock, they do not go down, and the
times of each record are in order. -/
structure Call.Faithful (call : Call) (sent : List Record) : Prop where
  alive : sessionTimes .alive sent = call.ticks.map fun t => call.elapsed t.now
  stop : sessionTimes .stop sent = [call.elapsed call.disconnect]
  grow : (0 :: sessionTimes .alive sent ++ sessionTimes .stop sent).Pairwise (· ≤ ·)
  ordered : ∀ r ∈ sent, r.setupTime ≤ r.connectTime ∧
    ∀ s ∈ r.session, r.connectTime ≤ s.disconnectTime

/-- The offset of the clocks takes no reading of the timer over the middle of a second of the call. -/
def Call.Aligned (call : Call) : Prop := ∀ t ∈ call.ticks, ∀ n : ℤ,
  Reaches n (t.now.monot + call.offset - call.connect.monot) ↔ Reaches n (t.now.monot - call.connect.monot)

def Call.slack (call : Call) : ℚ := if call.msPrecision then 0 else 1 / 2

/-- The call is set up, connected and ended in this order, and the timer fires in between. -/
structure Call.InOrder (call : Call) : Prop where
  connects : call.setup.monot ≤ call.connect.monot + call.slack
  disconnects : call.connect.monot ≤ call.disconnect.monot + call.slack
  ticks : ∀ t ∈ call.ticks, call.connect.monot ≤ t.now.monot + 1 / 2
  precise : call.msPrecision → ∀ t ∈ call.ticks, call.connect.monot ≤ t.now.monot + call.offset
  last : ∀ t ∈ call.ticks, ∀ n : ℤ, Reaches n (t.now.monot - call.connect.monot) →
    Reaches n (call.disconnect.monot - call.connect.monot)

section Sent

variable {call : Call} {a : RadiusAccounting} {clock : Clock} {d : ℚ} {r : Record}

structure Accounts (call : Call) (a : RadiusAccounting) : Prop where
  complete : a.complete = true
  precision : a.msPrecision = call.msPrecision
  iTime : a.iTime = some call.setup
  cTime : a.cTime = some call.connect

def Call.delay (call : Call) : ℚ := call.rounded (call.connect.sub call.setup)

structure Tells (call : Call) (type : AcctType) (d : ℚ) (r : Record) : Prop where
  status : r.status = type
  setupTime : r.setupTime = call.setup.realt
  connectTime : r.connectTime = call.setup.realt + call.delay
  silent : type = .start → r.session = none
  session : type ≠ .start → ∃ s, r.session = some s ∧ s.sessionTime = roundHalfEven d ∧
    s.disconnectTime = call.setup.realt + call.delay + call.rounded d

theorem Call.roundHalfEven_rounded (call : Call) (t : ℚ) :
    roundHalfEven (call.rounded t) = roundHalfEven t := by
  unfold Call.rounded
  split
  · rfl
  · exact roundHalfEven_intCast _

theorem Accounts.rounded (h : Accounts call a) (t : ℚ) : a.rounded t = call.rounded t := by
  rw [RadiusAccounting.rounded, h.precision, Call.rounded]

theorem Accounts.asend {rtime : Option Stamp} {ua : Option CallUA} (h : Accounts call a)
    (type : AcctType) (origin : Option Origin) (result : ℤ)
    (hd : a.durations (rtime.getD (.wall clock.wall)) ua clock.now =
      .ok (d, call.connect.sub call.setup)) :
    ∃ r, Tells call type d r ∧
      a.asend type rtime origin result ua clock = .ok { a with sent := a.sent ++ [r] } := by
  unfold RadiusAccounting.asend
  rw [if_pos h.complete, hd]
  simp only [bind, Except.bind, h.iTime, Option.elim_some, h.rounded]
  refine ⟨_, ⟨rfl, rfl, rfl, fun ht => ?_, fun ht => ?_⟩, rfl⟩
  · exact if_pos ht
  · exact ⟨_, if_neg ht, call.roundHalfEven_rounded d, rfl⟩

variable (call) in
theorem conn_accounts (hc : a.complete = true) (hp : a.msPrecision = call.msPrecision)
    (hl : a.lperiod = call.lperiod) (hcrec : a.crec = false) (hdrec : a.drec = false)
    (hsent : a.sent = []) :
    ∃ a', a.conn call.atConn call.connRtime call.connOrigin call.connClock = a' ∧ Accounts call a' ∧
      a'.el = (call.lperiod.any fun lperiod => 0 < lperiod) ∧ a'.drec = false ∧
      ∀ r ∈ a'.sent, ∃ d, Tells call .start d r := by
  obtain ⟨b, hb⟩ : ∃ b : RadiusAccounting, RadiusAccounting.identify
      { a with crec := true, iTime := call.atConn.setupTs, cTime := call.atConn.connectTs }
      call.atConn = b := ⟨_, rfl⟩
  have hbase : Accounts call b := by
    subst hb
    exact ⟨hc, hp, rfl, rfl⟩
  have hconn : a.conn call.atConn call.connRtime call.connOrigin call.connClock =
      match (if b.sendStart then
        b.asend .start (some (.mono call.connRtime)) call.connOrigin 0 none call.connClock else .ok b) with
      | .error _ => b
      | .ok a => { a with
          attributes := a.attributes ++ [("h323-voice-quality".toList, .int 0),
            ("Acct-Terminate-Cause".toList, .text "User-Request".toList)]
          el := a.lperiod.any fun lperiod => 0 < lperiod } := by
    rw [RadiusAccounting.conn, if_neg (by simp [hcrec]), hb]
  have hlb : b.lperiod = call.lperiod := by rw [← hb]; exact hl
  have hdb : b.drec = false := by rw [← hb]; exact hdrec
  have hsb : b.sent = [] := by rw [← hb]; exact hsent
  rw [hconn]
  cases b.sendStart with
  | false =>
    refine ⟨_, rfl, ⟨hbase.1, hbase.2, hbase.3, hbase.4⟩, ?_, hdb, ?_⟩
    · rw [← hlb]
      rfl
    · simp [hsb]
  | true =>
    have hd : b.durations ((some (.mono call.connRtime) : Option Stamp).getD (.wall call.connClock.wall)) none
        call.connClock.now = .ok (call.connRtime.sub call.connect, call.connect.sub call.setup) := by
      simp only [RadiusAccounting.durations, hbase.cTime, hbase.iTime]
      rfl
    obtain ⟨r, hr, hsend⟩ := hbase.asend .start call.connOrigin 0 hd
    rw [if_pos rfl, hsend]
    refine ⟨_, rfl, ⟨hbase.1, hbase.2, hbase.3, hbase.4⟩, ?_, hdb, ?_⟩
    · rw [← hlb]
    · simp only [hsb, List.nil_append, List.mem_singleton, forall_eq]
      exact ⟨_, hr⟩

variable (clock) in
theorem alive_accounts (h : Accounts call a) (hel : a.el = true) :
    ∃ r, Tells call .alive (clock.wall - call.connect.monot) r ∧
      a.alive clock = { a with sent := a.sent ++ [r] } := by
  have hd : a.durations ((none : Option Stamp).getD (.wall clock.wall)) none clock.now =
      .ok (clock.wall - call.connect.monot, call.connect.sub call.setup) := by
    simp only [RadiusAccounting.durations, h.cTime, h.iTime]
    rfl
  obtain ⟨r, hr, hsend⟩ := h.asend .alive none 0 hd
  exact ⟨r, hr, by rw [RadiusAccounting.alive, if_pos hel, hsend]⟩

theorem ticks_accounts (h : Accounts call a) (hel : a.el = true) (hdrec : a.drec = false)
    (ticks : List Clock) :
    ∃ rs a', ticks.foldl RadiusAccounting.alive a = a' ∧ Accounts call a' ∧ a'.drec = false ∧
      a'.sent = a.sent ++ rs ∧
      List.Forall₂ (fun t r => Tells call .alive (t.wall - call.connect.monot) r) ticks rs := by
  induction ticks generalizing a with
  | nil => exact ⟨[], a, rfl, h, hdrec, by simp, .nil⟩
  | cons t ticks ih =>
    obtain ⟨r, hr, halive⟩ := alive_accounts t h hel
    have h' : Accounts call { a with sent := a.sent ++ [r] } := ⟨h.1, h.2, h.3, h.4⟩
    obtain ⟨rs, a', hfold, ha', hdrec', hsent, htells⟩ := ih h' hel hdrec
    refine ⟨r :: rs, a', ?_, ha', hdrec', ?_, .cons hr htells⟩
    · rw [List.foldl_cons, halive, hfold]
    · rw [hsent, List.append_assoc, List.singleton_append]

theorem disc_accounts (h : Accounts call a) (hdrec : a.drec = false) :
    ∃ r, Tells call .stop (call.disconnect.sub call.connect) r ∧
      (a.disc call.atDisc call.discRtime call.discOrigin call.result call.discClock).sent = a.sent ++ [r] := by
  obtain ⟨b, hb⟩ : ∃ b : RadiusAccounting, RadiusAccounting.identify
      { a with drec := true, el := false, iTime := a.iTime.or call.atDisc.setupTs,
               cTime := a.cTime.or (some call.discRtime) } call.atDisc = b := ⟨_, rfl⟩
  have hbase : Accounts call b := by
    subst hb
    refine ⟨h.1, h.2, ?_, ?_⟩
    · simp [RadiusAccounting.identify, h.iTime]
    · simp [RadiusAccounting.identify, h.cTime]
  have hsb : b.sent = a.sent := by rw [← hb]; rfl
  have hd : b.durations ((some (.mono call.discRtime) : Option Stamp).getD (.wall call.discClock.wall))
      (some call.atDisc) call.discClock.now =
      .ok (call.disconnect.sub call.connect, call.connect.sub call.setup) := rfl
  obtain ⟨r, hr, hsend⟩ := hbase.asend .stop call.discOrigin call.result hd
  refine ⟨r, hr, ?_⟩
  rw [RadiusAccounting.disc, if_neg (by simp [hdrec]), hb]
  simp only [hsend, hsb]

structure Sends (call : Call) (starts alives : List Record) (stop : Record) : Prop where
  starts : ∀ r ∈ starts, ∃ d, Tells call .start d r
  alives : List.Forall₂ (fun t r => Tells call .alive (t.wall - call.connect.monot) r) call.ticks alives
  stop : Tells call .stop (call.disconnect.sub call.connect) stop

theorem run_sent (call : Call) (username : Text) (caller : Option Text) (callee sipCid remoteIp : Text)
    (cid : Option Text) :
    ∃ starts alives stop, (call.run username caller callee sipCid remoteIp cid).sent =
      starts ++ alives ++ [stop] ∧ Sends call starts alives stop := by
  obtain ⟨a, hconn, ha, hel, hdrec, hstarts⟩ := conn_accounts call
    (a := (RadiusAccounting.init call.origin call.lperiod call.sendStart call.msPrecision).setParams
      username caller callee sipCid remoteIp cid) rfl rfl rfl rfl rfl rfl
  have hticks : ∃ alives a', call.ticks.foldl RadiusAccounting.alive a = a' ∧ Accounts call a' ∧
      a'.drec = false ∧ a'.sent = a.sent ++ alives ∧
      List.Forall₂ (fun t r => Tells call .alive (t.wall - call.connect.monot) r) call.ticks alives := by
    by_cases hnil : call.ticks = []
    · rw [hnil]
      exact ⟨[], a, rfl, ha, hdrec, by simp, .nil⟩
    · obtain ⟨period, hperiod, hpos⟩ := call.armed hnil
      have hrun : a.el = true := by
        rw [hel, Option.mem_def.1 hperiod]
        simpa using hpos
      exact ticks_accounts ha hrun hdrec call.ticks
  obtain ⟨alives, a', hfold, ha', hdrec', hsent, halives⟩ := hticks
  obtain ⟨stop, hstop, hdisc⟩ := disc_accounts ha' hdrec'
  refine ⟨a.sent, alives, stop, ?_, hstarts, halives, hstop⟩
  rw [Call.run, hconn, hfold, hdisc, hsent]

theorem Tells.sessionTimes_other {type type' : AcctType} (h : Tells call type d r) (hne : type ≠ type') :
    sessionTimes type' [r] = [] := by
  simp [sessionTimes, h.status, hne]

theorem Tells.sessionTimes_self {type : AcctType} (h : Tells call type d r) (hne : type ≠ .start) :
    sessionTimes type [r] = [roundHalfEven d] := by
  obtain ⟨s, hs, htime, -⟩ := h.session hne
  simp [sessionTimes, h.status, hs, htime]

theorem sessionTimes_append (type : AcctType) (l l' : List Record) :
    sessionTimes type (l ++ l') = sessionTimes type l ++ sessionTimes type l' :=
  List.filterMap_append

theorem sessionTimes_cons (type : AcctType) (r : Record) (l : List Record) :
    sessionTimes type (r :: l) = sessionTimes type [r] ++ sessionTimes type l :=
  sessionTimes_append type [r] l

theorem sessionTimes_starts {type : AcctType} {l : List Record} (h : ∀ r ∈ l, ∃ d, Tells call .start d r)
    (hne : .start ≠ type) : sessionTimes type l = [] := by
  induction l with
  | nil => rfl
  | cons r l ih =>
    rw [List.forall_mem_cons] at h
    obtain ⟨d, hd⟩ := h.1
    rw [sessionTimes_cons, hd.sessionTimes_other hne, ih h.2]
    rfl

theorem sessionTimes_alives {ticks : List Clock} {l : List Record}
    (h : List.Forall₂ (fun t r => Tells call .alive (t.wall - call.connect.monot) r) ticks l) :
    sessionTimes .alive l = ticks.map (fun t => roundHalfEven (t.wall - call.connect.monot)) ∧
      sessionTimes .stop l = [] := by
  induction h with
  | nil => exact ⟨rfl, rfl⟩
  | cons hr _ ih =>
    rw [sessionTimes_cons, sessionTimes_cons .stop, hr.sessionTimes_self (by decide),
      hr.sessionTimes_other (by decide : AcctType.alive ≠ .stop), ih.1, ih.2]
    exact ⟨rfl, rfl⟩

theorem Sends.sessionTimes {starts alives : List Record} {stop : Record}
    (h : Sends call starts alives stop) :
    sessionTimes .alive (starts ++ alives ++ [stop]) =
        call.ticks.map (fun t => roundHalfEven (t.wall - call.connect.monot)) ∧
      sessionTimes .stop (starts ++ alives ++ [stop]) = [call.elapsed call.disconnect] := by
  obtain ⟨halive, hstop⟩ := sessionTimes_alives h.alives
  simp only [sessionTimes_append, sessionTimes_starts h.starts (by decide : AcctType.start ≠ .alive),
    sessionTimes_starts h.starts (by decide : AcctType.start ≠ .stop), halive, hstop,
    h.stop.sessionTimes_other (by decide : AcctType.stop ≠ .alive), h.stop.sessionTimes_self (by decide),
    List.nil_append, List.append_nil, Call.elapsed, and_self]

theorem Tells.ordered {type : AcctType} (h : Tells call type d r) (hne : type ≠ .start) :
    (r.setupTime ≤ r.connectTime ∧ ∀ s ∈ r.session, r.connectTime ≤ s.disconnectTime) ↔
      0 ≤ call.delay ∧ 0 ≤ call.rounded d := by
  obtain ⟨s, hs, -, htime⟩ := h.session hne
  rw [h.setupTime, h.connectTime, hs]
  simp [htime]

theorem ordered_alives {ticks : List Clock} {l : List Record}
    (h : List.Forall₂ (fun t r => Tells call .alive (t.wall - call.connect.monot) r) ticks l)
    (hdelay : 0 ≤ call.delay) :
    (∀ r ∈ l, r.setupTime ≤ r.connectTime ∧ ∀ s ∈ r.session, r.connectTime ≤ s.disconnectTime) ↔
      ∀ t ∈ ticks, 0 ≤ call.rounded (t.wall - call.connect.monot) := by
  induction h with
  | nil => simp
  | cons hr _ ih =>
    rw [List.forall_mem_cons, List.forall_mem_cons, hr.ordered (by decide), ih, and_iff_right hdelay]

theorem Sends.ordered {starts alives : List Record} {stop : Record} (h : Sends call starts alives stop) :
    (∀ r ∈ starts ++ alives ++ [stop], r.setupTime ≤ r.connectTime ∧
        ∀ s ∈ r.session, r.connectTime ≤ s.disconnectTime) ↔
      0 ≤ call.delay ∧ 0 ≤ call.rounded (call.disconnect.sub call.connect) ∧
        ∀ t ∈ call.ticks, 0 ≤ call.rounded (t.wall - call.connect.monot) := by
  constructor
  · intro hall
    obtain ⟨hdelay, hstop⟩ := (h.stop.ordered (by decide)).1 (hall stop (by simp))
    exact ⟨hdelay, hstop, (ordered_alives h.alives hdelay).1 fun r hr => hall r (by simp [hr])⟩
  · rintro ⟨hdelay, hstop, hticks⟩ r hr
    simp only [List.mem_append, List.mem_singleton] at hr
    obtain (hr | hr) | rfl := hr
    · obtain ⟨d, hd⟩ := h.starts r hr
      rw [hd.setupTime, hd.connectTime, hd.silent rfl]
      simpa using hdelay
    · exact (ordered_alives h.alives hdelay).2 hticks r hr
    · exact (h.stop.ordered (by decide)).2 ⟨hdelay, hstop⟩

theorem Call.rounded_nonneg (call : Call) (t : ℚ) : 0 ≤ call.rounded t ↔ -call.slack ≤ t := by
  unfold Call.rounded Call.slack
  split
  · rw [neg_zero]
  · rw [Int.cast_nonneg_iff, roundHalfEven_nonneg]

theorem Call.aligned_iff (call : Call) :
    call.ticks.map (fun t => roundHalfEven (t.wall - call.connect.monot)) =
      call.ticks.map (fun t => call.elapsed t.now) ↔ call.Aligned := by
  rw [List.map_inj_left]
  refine forall₂_congr fun t ht => ?_
  rw [call.shown t ht, Call.elapsed, MonoTime.sub, roundHalfEven_eq_iff]

/-- The ticks come one after the other, so it is for the first and the last to be in order. -/
theorem Call.grow_iff (call : Call) :
    (0 :: (call.ticks.map fun t => call.elapsed t.now) ++ [call.elapsed call.disconnect]).Pairwise (· ≤ ·) ↔
      (∀ t ∈ call.ticks, 0 ≤ call.elapsed t.now) ∧ 0 ≤ call.elapsed call.disconnect ∧
        ∀ t ∈ call.ticks, call.elapsed t.now ≤ call.elapsed call.disconnect := by
  have hticks : (call.ticks.map fun t => call.elapsed t.now).Pairwise (· ≤ ·) := by
    rw [List.pairwise_map]
    exact call.later.imp fun h => roundHalfEven_mono (sub_le_sub_right h _)
  rw [List.cons_append, List.pairwise_cons, List.pairwise_append]
  simp only [List.mem_append, List.mem_map, List.mem_singleton, or_imp, forall_and, forall_exists_index,
    and_imp, forall_apply_eq_imp_iff₂, forall_eq, hticks, List.pairwise_singleton, true_and]
  exact and_assoc

theorem Call.inOrder_iff {call : Call} (haligned : call.Aligned) :
    call.InOrder ↔ 0 ≤ call.delay ∧ 0 ≤ call.rounded (call.disconnect.sub call.connect) ∧
      (∀ t ∈ call.ticks, 0 ≤ call.rounded (t.wall - call.connect.monot)) ∧
      (∀ t ∈ call.ticks, 0 ≤ call.elapsed t.now) ∧ 0 ≤ call.elapsed call.disconnect ∧
        ∀ t ∈ call.ticks, call.elapsed t.now ≤ call.elapsed call.disconnect := by
  have hslack : call.slack ≤ 1 / 2 := by
    unfold Call.slack
    split <;> norm_num
  simp only [Call.delay, Call.rounded_nonneg, Call.elapsed, MonoTime.sub, roundHalfEven_nonneg,
    roundHalfEven_le_iff]
  constructor
  · rintro ⟨hconn, hdisc, hticks, hprecise, hlast⟩
    refine ⟨by linarith, by linarith, fun t ht => ?_, fun t ht => by linarith [hticks t ht], by linarith, hlast⟩
    have htick := hticks t ht
    rw [call.shown t ht]
    cases hms : call.msPrecision with
    | true =>
      have := hprecise hms t ht
      rw [Call.slack, hms, if_pos rfl]
      linarith
    | false =>
      have hzero : Reaches 0 (t.now.monot - call.connect.monot) :=
        Lib.le_roundHalfEven.mp (roundHalfEven_nonneg.mpr (by linarith))
      have := roundHalfEven_nonneg.mp (Lib.le_roundHalfEven.mpr ((haligned t ht 0).mpr hzero))
      rw [Call.slack, hms, if_neg Bool.false_ne_true]
      exact this
  · rintro ⟨hconn, hdisc, hwall, hticks, -, hlast⟩
    refine ⟨by linarith, by linarith, fun t ht => by linarith [hticks t ht], fun hms t ht => ?_, hlast⟩
    have := hwall t ht
    rw [call.shown t ht, Call.slack, if_pos hms] at this
    linarith

theorem Call.Aligned.offset_le (h : call.Aligned) (hticks : call.ticks ≠ []) : |call.offset| ≤ 1 := by
  obtain ⟨t, ht⟩ := List.exists_mem_of_ne_nil _ hticks
  have hsame := roundHalfEven_eq_iff.mpr (h t ht)
  obtain ⟨hlow, hhigh⟩ := roundHalfEven_near (t.now.monot + call.offset - call.connect.monot)
  obtain ⟨hlow', hhigh'⟩ := roundHalfEven_near (t.now.monot - call.connect.monot)
  rw [hsame] at hlow hhigh
  rw [abs_le]
  constructor <;> linarith

/-- The records of a call tell the time that has passed on the monotonic clock, in order, exactly
when the offset of the clocks does not show at the ticks and the times of the call are in order. With
a tick the clocks are then a second apart at most; without one, or without an offset, the order of
the times is all that matters. -/
theorem records_faithful (call : Call) (username : Text) (caller : Option Text)
    (callee sipCid remoteIp : Text) (cid : Option Text) :
    (call.Faithful (call.run username caller callee sipCid remoteIp cid).sent ↔
      call.Aligned ∧ call.InOrder) ∧
    (call.ticks ≠ [] → 1 < |call.offset| →
      ¬ call.Faithful (call.run username caller callee sipCid remoteIp cid).sent) ∧
    (call.ticks = [] ∨ call.offset = 0 →
      (call.Faithful (call.run username caller callee sipCid remoteIp cid).sent ↔ call.InOrder)) := by
  obtain ⟨starts, alives, stop, hsent, h⟩ := run_sent call username caller callee sipCid remoteIp cid
  obtain ⟨halive, hstop⟩ := h.sessionTimes
  have hiff : call.Faithful (call.run username caller callee sipCid remoteIp cid).sent ↔
      call.Aligned ∧ call.InOrder := by
    rw [hsent]
    constructor
    · intro hf
      have hsame := hf.alive
      rw [halive] at hsame
      have haligned := call.aligned_iff.mp hsame
      have hgrow := hf.grow
      rw [halive, hstop, hsame, call.grow_iff] at hgrow
      obtain ⟨hdelay, hdisc, hticks⟩ := h.ordered.1 hf.ordered
      exact ⟨haligned, (Call.inOrder_iff haligned).mpr ⟨hdelay, hdisc, hticks, hgrow⟩⟩
    · rintro ⟨haligned, horder⟩
      have hsame := call.aligned_iff.mpr haligned
      obtain ⟨hdelay, hdisc, hticks, hgrow⟩ := (Call.inOrder_iff haligned).mp horder
      refine ⟨halive.trans hsame, hstop, ?_, h.ordered.2 ⟨hdelay, hdisc, hticks⟩⟩
      rw [halive, hstop, hsame]
      exact call.grow_iff.mpr hgrow
  refine ⟨hiff, fun hticks hfar hf => ?_, fun hnear => hiff.trans (and_iff_right fun t ht n => ?_)⟩
  · exact absurd ((hiff.mp hf).1.offset_le hticks) (not_le_of_gt hfar)
  · rcases hnear with hnil | hzero
    · rw [hnil] at ht
      exact absurd ht List.not_mem_nil
    · rw [hzero, add_zero]

end Sent

/-- A call that is answered at 1000 s of the monotonic clock, with a record every minute. -/
def minuteCall (wall : ℚ) : Call where
  offset := wall
  origin := "answer".toList
  lperiod := some 60
  sendStart := false
  msPrecision := false
  setup := ⟨990, wall + 990⟩
  connect := ⟨1000, wall + 1000⟩
  disconnect := ⟨1090, wall + 1090⟩
  first := ⟨none, none, none, none, none, none⟩
  last := ⟨none, none, none, none, none, none⟩
  connRtime := ⟨1000, wall + 1000⟩
  connOrigin := some .callee
  connClock := ⟨wall + 1000, ⟨1000, wall + 1000⟩⟩
  ticks := [⟨wall + 1060, ⟨1060, wall + 1060⟩⟩]
  armed := fun _ => ⟨60, rfl, by norm_num⟩
  shown := by
    intro t ht
    rw [List.mem_singleton.mp ht]
    exact add_comm wall 1060
  later := List.pairwise_singleton _ _
  discRtime := ⟨1090, wall + 1090⟩
  discOrigin := some .caller
  result := 0
  discClock := ⟨wall + 1090, ⟨1090, wall + 1090⟩⟩

/-- The wall clock is years ahead of the monotonic one, and so is the record after a minute. -/
theorem minuteCall_runs_ahead :
    sessionTimes .alive ((minuteCall 1700000000).run [] none [] [] [] none).sent = [1700000060] ∧
      sessionTimes .stop ((minuteCall 1700000000).run [] none [] [] [] none).sent = [90] ∧
      ¬ (minuteCall 1700000000).Faithful ((minuteCall 1700000000).run [] none [] [] [] none).sent := by
  have halive : sessionTimes .alive ((minuteCall 1700000000).run [] none [] [] [] none).sent =
      [1700000060] := by
    decide +kernel
  have hstop : sessionTimes .stop ((minuteCall 1700000000).run [] none [] [] [] none).sent = [90] := by
    decide +kernel
  refine ⟨halive, hstop, fun h => ?_⟩
  have hsame := h.alive
  rw [halive] at hsame
  revert hsame
  decide +kernel

end SippyB2bua.Radius
