import Mathlib.Algebra.Order.Floor.Ring
import Mathlib.Data.List.Nodup
import Mathlib.Data.Rat.Floor
import SippyB2bua.Lib.Dict
import SippyB2bua.Lib.Run
import SippyB2bua.Lib.Words
import SippyB2bua.Message

/-!
# The UDP client of the RTP proxy

A command is sent with a cookie, and again each time its timer runs out, with the interval
doubled. A reply with the cookie, or the end of the tries, takes it out of the table of pending
requests and calls back. Delays are exact numbers here.
-/

namespace SippyB2bua.Rtpp
open Lib (Text Dict Along run run_nil run_cons)

/-- The loop of `getnretrans`, of at most `fuel` rounds. -/
def getnretransLoop : ℕ → ℚ → ℚ → ℕ
  | 0, _, _ => 0
  | fuel + 1, first, timeout =>
    if timeout - first < 0 then 0 else getnretransLoop fuel (first * 2) (timeout - first) + 1

def getnretrans (first timeout : ℚ) : Except Exn ℕ :=
  if first ≤ 0 then .error .valueError
  else .ok (getnretransLoop (⌊timeout / first⌋.toNat + 1) first timeout)

/-- `Rtp_proxy_cmd` or a text. -/
inductive UdpCommand
  | cmd (type : Text) (nretr : Option ℤ) (text : Text)
  | text (text : Text)

def UdpCommand.toText : UdpCommand → Text
  | .cmd _ _ t => t
  | .text t => t

def UdpCommand.expTime (c : UdpCommand) : ℚ :=
  match c with
  | .cmd type _ _ => if type = ['G'] then 1 else if type = ['I'] then 10 else 3
  | .text t => if Text.startsWith t ['I'] then 10 else if Text.startsWith t ['G'] then 1 else 3

def UdpCommand.tries (c : UdpCommand) (nextRetr : ℚ) : Except Exn ℤ :=
  match c with
  | .cmd _ (some nretr) _ => .ok nretr
  | _ => (getnretrans nextRetr c.expTime).map Nat.cast

/-- `Rtp_proxy_pending_req`; `no` stands for the callback and its parameters. -/
structure PendingReq where
  nextRetr : ℚ
  triesleft : ℤ
  /-- The timer, by its number. -/
  timer : ℕ
  command : Text
  no : ℕ
  stime : ℚ
  retransmits : ℕ

/-- What was asked for in a call of `send_command` that returned. -/
structure SentCommand where
  cookie : Text
  nretr : ℤ
  hasCb : Bool

/-- What the program asks the client for, also from inside a callback. -/
inductive Request
  /-- `send_command`, with the cookie that `token_hex` makes. -/
  | send (cookie : Text) (command : UdpCommand) (hasCb : Bool) (now : ℚ)
  | shutdown

def Request.cookie : Request → Option Text
  | .send c _ _ _ => some c
  | .shutdown => none

structure UdpClient where
  /-- `worker` is not `None`. -/
  worker : Bool
  online : Bool
  /-- `delay_flt.lastval`. -/
  lastval : ℚ
  pendingRequests : Dict Text PendingReq
  /-- The timers that are armed, with the cookie that `retransmit` is called with. -/
  timers : List (ℕ × Text)
  nextTimer : ℕ
  cookies : List Text
  asked : List SentCommand
  datagrams : List (ℕ × Text)
  /-- The cookies that `retransmit` was called with. -/
  expired : List Text
  replies : List (Text × Text)
  called : List (ℕ × Option Text)

namespace UdpClient

def init : UdpClient := ⟨true, false, 1 / 4, .empty, [], 0, [], [], [], [], [], []⟩

/-- `recfilter(0.95, 0.25).apply`. -/
def applyDelay (s : UdpClient) (x : ℚ) : UdpClient :=
  { s with lastval := (1 - 95 / 100) * x + 95 / 100 * s.lastval }

/-- `send_command`: the timer is armed first, and without a worker `send_to` raises. -/
def sendCommand (s : UdpClient) (cookie : Text) (command : UdpCommand) (hasCb : Bool) (now : ℚ) :
    UdpClient :=
  let s := { s with cookies := s.cookies ++ [cookie] }
  let nextRetr := s.lastval * 4
  match command.tries nextRetr with
  | .error _ => s
  | .ok nretr =>
    let text := cookie ++ ' ' :: command.toText
    let timer := s.nextTimer
    let s := { s with timers := (timer, cookie) :: s.timers, nextTimer := timer + 1 }
    if s.worker then
      let no := s.asked.length
      { s with
        datagrams := s.datagrams ++ [(no, text)]
        asked := s.asked ++ [⟨cookie, nretr, hasCb⟩]
        pendingRequests :=
          s.pendingRequests.set cookie ⟨nextRetr, nretr - 1, timer, text, no, now, 0⟩ }
    else s

def request (s : UdpClient) : Request → UdpClient
  | .send cookie command hasCb now => s.sendCommand cookie command hasCb now
  | .shutdown => { s with worker := false }

/-- `if preq.result_callback != None: preq.result_callback(..)`, which makes requests itself. -/
def callBack (s : UdpClient) (no : ℕ) (result : Option Text) (acts : List Request) : UdpClient :=
  if s.asked[no]?.any (·.hasCb) then run request { s with called := s.called ++ [(no, result)] } acts
  else s

/-- The timer runs out, and `retransmit` is called with its cookie. -/
def retransmit (s : UdpClient) (timer : ℕ) (cookie : Text) (acts : List Request) : UdpClient :=
  let s := { s with timers := s.timers.filter (·.1 ≠ timer), expired := s.expired ++ [cookie] }
  match s.pendingRequests cookie with
  | none => s
  | some preq =>
    if preq.triesleft ≤ 0 ∨ s.worker = false then
      let s := { s with pendingRequests := s.pendingRequests.del cookie, online := false }
      s.callBack preq.no none acts
    else { s with
      timers := (s.nextTimer, cookie) :: s.timers, nextTimer := s.nextTimer + 1
      datagrams := s.datagrams ++ [(preq.no, preq.command)]
      pendingRequests := s.pendingRequests.set cookie { preq with
        retransmits := preq.retransmits + 1, nextRetr := preq.nextRetr * 2
        timer := s.nextTimer, triesleft := preq.triesleft - 1 } }

/-- The cookie and the result in a reply; nothing if it is not ASCII or has only one word. -/
def splitReply (data : Option Text) : Option (Text × Text) :=
  match data.map (Text.wordsMax 1) with
  | some [cookie, result] => some (cookie, result)
  | _ => none

def processReply (s : UdpClient) (data : Option Text) (rtime : ℚ) (acts : List Request) : UdpClient :=
  match splitReply data with
  | none => s
  | some (cookie, result) =>
    match s.pendingRequests cookie with
    | none => s
    | some preq =>
      let s := { s with
        pendingRequests := s.pendingRequests.del cookie
        timers := s.timers.filter (·.1 ≠ preq.timer)
        replies := s.replies ++ [(cookie, result)] }
      if rtime ≤ preq.stime then s
      else
        let s := s.callBack preq.no (some (Text.strip result)) acts
        if preq.retransmits = 0 then s.applyDelay (rtime - preq.stime) else s

/-- A callback that is called in a step makes the requests `acts`. -/
inductive Label
  | call (act : Request)
  | reply (data : Option Text) (rtime : ℚ) (acts : List Request)
  | expire (timer : ℕ) (cookie : Text) (acts : List Request)

def step (s : UdpClient) : Label → UdpClient
  | .call act => s.request act
  | .reply data rtime acts => s.processReply data rtime acts
  | .expire timer cookie acts =>
    if (timer, cookie) ∈ s.timers then s.retransmit timer cookie acts else s

/-- The cookies that are made are new ones. -/
def Fresh (s : UdpClient) (acts : List Request) : Prop :=
  (acts.filterMap Request.cookie).Nodup ∧ ∀ c ∈ acts.filterMap Request.cookie, c ∉ s.cookies

/-- Cookies are new, and a reply comes after the request that it is for. -/
def Meets (s : UdpClient) : Label → Prop
  | .call act => s.Fresh [act]
  | .reply data rtime acts => s.Fresh acts ∧ ∀ cookie result, splitReply data = some (cookie, result) →
    ∀ preq, s.pendingRequests cookie = some preq → preq.stime < rtime
  | .expire _ _ acts => s.Fresh acts

def timersOf (s : UdpClient) (cookie : Text) : List ℕ :=
  (s.timers.filter (·.2 = cookie)).map Prod.fst

/-- What the callback of the `n`-th command was called with. -/
def callsOf (s : UdpClient) (n : ℕ) : List (Option Text) :=
  s.called.filterMap fun p => if p.1 = n then some p.2 else none

/-- How often the `n`-th command was sent. -/
def sentOf (s : UdpClient) (n : ℕ) : ℕ := (s.datagrams.filter (·.1 = n)).length

/-- A command that waits for its reply. -/
structure Waiting (s : UdpClient) (n : ℕ) (a : SentCommand) (p : PendingReq) : Prop where
  pending : s.pendingRequests a.cookie = some p
  no : p.no = n
  timer : s.timersOf a.cookie = [p.timer]
  calls : s.callsOf n = []
  sent : (s.sentOf n : ℤ) + max p.triesleft 0 = max 1 a.nretr
  expired : s.sentOf n = s.expired.count a.cookie + 1

/-- A command whose callback, if it has one, was called with `x`. -/
structure Done (s : UdpClient) (n : ℕ) (a : SentCommand) (x : Option Text) : Prop where
  pending : s.pendingRequests a.cookie = none
  timer : s.timersOf a.cookie = []
  calls : s.callsOf n = if a.hasCb then [x] else []
  sent : (s.sentOf n : ℤ) ≤ max 1 a.nretr
  exhausted : x = none → (s.sentOf n : ℤ) = max 1 a.nretr ∨ s.worker = false
  replied : ∀ r, x = some r → ∃ t, (a.cookie, t) ∈ s.replies ∧ r = Text.strip t

def Tracks (s : UdpClient) (n : ℕ) (a : SentCommand) : Prop := (∃ p, Waiting s n a p) ∨ ∃ x, Done s n a x

structure Inv (s : UdpClient) : Prop where
  cookies : (s.asked.map SentCommand.cookie).Nodup
  known : ∀ a ∈ s.asked, a.cookie ∈ s.cookies
  timers : ∀ t ∈ s.timers, t.2 ∈ s.cookies ∧ t.1 < s.nextTimer
  expired : ∀ c ∈ s.expired, c ∈ s.cookies
  ids : (s.timers.map Prod.fst).Nodup
  pending : ∀ c p, s.pendingRequests c = some p → ∃ a, s.asked[p.no]? = some a ∧ a.cookie = c
  numbers : ∀ n, s.asked.length ≤ n → s.callsOf n = [] ∧ s.sentOf n = 0
  tracks : ∀ n a, s.asked[n]? = some a → s.Tracks n a

section Invariant
variable {s t u : UdpClient} {n k : ℕ} {a : SentCommand} {c d : Text}

theorem Tracks.congr (h : s.Tracks n a) (hp : t.pendingRequests a.cookie = s.pendingRequests a.cookie)
    (ht : t.timersOf a.cookie = s.timersOf a.cookie) (hc : t.callsOf n = s.callsOf n)
    (hs : t.sentOf n = s.sentOf n) (he : t.expired.count a.cookie = s.expired.count a.cookie)
    (hw : s.worker = false → t.worker = false) (hr : s.replies ⊆ t.replies) : t.Tracks n a := by
  rcases h with ⟨p, h⟩ | ⟨x, h⟩
  · left
    refine ⟨p, hp.trans h.pending, h.no, ht.trans h.timer, hc.trans h.calls, ?_, ?_⟩
    · rw [hs]
      exact h.sent
    · rw [hs, he]
      exact h.expired
  · right
    refine ⟨x, hp.trans h.pending, ht.trans h.timer, hc.trans h.calls, ?_, fun hx => ?_, fun r hx => ?_⟩
    · rw [hs]
      exact h.sent
    · rw [hs]
      exact (h.exhausted hx).imp_right hw
    · obtain ⟨t, ht, hrt⟩ := h.replied r hx
      exact ⟨t, hr ht, hrt⟩

theorem Inv.cookie_inj (h : Inv s) {m : ℕ} {b : SentCommand} (ha : s.asked[n]? = some a)
    (hb : s.asked[m]? = some b) (heq : a.cookie = b.cookie) : n = m := by
  obtain ⟨hn, -⟩ := List.getElem?_eq_some_iff.1 ha
  apply (List.getElem?_inj (l := s.asked.map SentCommand.cookie) (by simpa using hn) h.cookies).1
  rw [List.getElem?_map, List.getElem?_map, ha, hb]
  exact congrArg some heq

theorem Inv.waiting (h : Inv s) {p : PendingReq} (hp : s.pendingRequests c = some p) :
    ∃ a, s.asked[p.no]? = some a ∧ a.cookie = c ∧ Waiting s p.no a p := by
  obtain ⟨a, ha, rfl⟩ := h.pending c p hp
  refine ⟨a, ha, rfl, ?_⟩
  rcases h.tracks _ _ ha with ⟨q, hw⟩ | ⟨x, hd⟩
  · obtain rfl := Option.some.inj (hp.symm.trans hw.pending)
    exact hw
  · exact nomatch hp.symm.trans hd.pending

theorem mem_timersOf : k ∈ s.timersOf d ↔ (k, d) ∈ s.timers := by
  unfold timersOf
  constructor
  · intro h
    obtain ⟨⟨k', d'⟩, hx, rfl⟩ := List.mem_map.1 h
    rw [List.mem_filter, decide_eq_true_eq] at hx
    exact hx.2 ▸ hx.1
  · intro h
    exact List.mem_map.2 ⟨(k, d), List.mem_filter.2 ⟨h, decide_eq_true rfl⟩, rfl⟩

/-- A command with this cookie was never sent, or its timer would be the one it waits for. -/
theorem Inv.stray (h : Inv s) (hk : (k, c) ∈ s.timers) (hc : s.pendingRequests c = none)
    (ha : s.asked[n]? = some a) : a.cookie ≠ c := by
  rintro rfl
  rcases h.tracks n a ha with ⟨p, hw⟩ | ⟨x, hd⟩
  · exact nomatch hc.symm.trans hw.pending
  · have hmem := mem_timersOf.2 hk
    rw [hd.timer] at hmem
    exact nomatch hmem

theorem timersOf_cancel (ht : t.timers = s.timers.filter (·.1 ≠ k)) :
    t.timersOf d = (s.timersOf d).filter (· ≠ k) := by
  rw [timersOf, ht, timersOf, List.filter_map, List.filter_filter, List.filter_filter]
  congr 1
  apply List.filter_congr
  intro x _
  simp [Bool.and_comm]

theorem timersOf_arm (ht : t.timers = (k, c) :: s.timers) :
    t.timersOf d = if c = d then k :: s.timersOf d else s.timersOf d := by
  rw [timersOf, ht, List.filter_cons, timersOf]
  by_cases hc : c = d <;> simp [hc]

theorem Inv.timer_inj (h : Inv s) (hc : (k, c) ∈ s.timers) (hd : (k, d) ∈ s.timers) : c = d :=
  congrArg Prod.snd (List.inj_on_of_nodup_map h.ids hc hd rfl)

theorem Inv.timersOf_other (h : Inv s) (hk : (k, c) ∈ s.timers) (hd : d ≠ c) :
    (s.timersOf d).filter (· ≠ k) = s.timersOf d := by
  rw [List.filter_eq_self]
  intro k' hk'
  rw [decide_eq_true_eq]
  rintro rfl
  exact hd (h.timer_inj (mem_timersOf.1 hk') hk)

theorem Inv.timersOf_new (h : Inv s) (hc : c ∉ s.cookies) : s.timersOf c = [] := by
  rw [List.eq_nil_iff_forall_not_mem]
  intro k hk
  exact hc (h.timers _ (mem_timersOf.1 hk)).1

theorem Inv.timers_filter (h : Inv s) (k : ℕ) :
    (∀ x ∈ s.timers.filter (·.1 ≠ k), x.2 ∈ s.cookies ∧ x.1 < s.nextTimer) ∧
      ((s.timers.filter (·.1 ≠ k)).map Prod.fst).Nodup :=
  ⟨fun x hx => h.timers x (List.mem_filter.1 hx).1,
    h.ids.sublist ((List.filter_sublist).map Prod.fst)⟩

theorem timers_arm {l : List (ℕ × Text)} (hl : ∀ x ∈ l, x.2 ∈ s.cookies ∧ x.1 < s.nextTimer)
    (hids : (l.map Prod.fst).Nodup) (hc : c ∈ s.cookies) :
    (∀ x ∈ (s.nextTimer, c) :: l, x.2 ∈ s.cookies ∧ x.1 < s.nextTimer + 1) ∧
      (((s.nextTimer, c) :: l).map Prod.fst).Nodup := by
  constructor
  · intro x hx
    rcases List.mem_cons.1 hx with rfl | hx
    · exact ⟨hc, Nat.lt_succ_self _⟩
    · exact ⟨(hl x hx).1, Nat.lt_succ_of_lt (hl x hx).2⟩
  · apply List.nodup_cons.2 ⟨fun hmem => ?_, hids⟩
    obtain ⟨x, hx, heq⟩ := List.mem_map.1 hmem
    have := (hl x hx).2
    omega

/-- What a step for the command `n` with the cookie `c` leaves alone. -/
structure Frame (n : ℕ) (c : Text) (s t : UdpClient) : Prop where
  asked : t.asked = s.asked
  cookies : t.cookies = s.cookies
  worker : t.worker = s.worker
  replies : s.replies ⊆ t.replies
  pending : ∀ d, d ≠ c → t.pendingRequests d = s.pendingRequests d
  timers : ∀ d, d ≠ c → t.timersOf d = s.timersOf d
  calls : ∀ m, m ≠ n → t.callsOf m = s.callsOf m
  sent : ∀ m, m ≠ n → t.sentOf m = s.sentOf m
  expired : t.expired = s.expired ∨ t.expired = s.expired ++ [c]

theorem Frame.count (hf : Frame n c s t) (hd : d ≠ c) : t.expired.count d = s.expired.count d := by
  rcases hf.expired with he | he
  · rw [he]
  · rw [he, List.count_append, List.count_singleton, if_neg (by simpa using hd.symm), Nat.add_zero]

theorem Inv.of_frame (h : Inv s) (ha : s.asked[n]? = some a) (hf : Frame n a.cookie s t)
    (htimers : (∀ x ∈ t.timers, x.2 ∈ s.cookies ∧ x.1 < t.nextTimer) ∧ (t.timers.map Prod.fst).Nodup)
    (hpending : ∀ p, t.pendingRequests a.cookie = some p → p.no = n) (htracks : t.Tracks n a) :
    Inv t := by
  have hlt : n < s.asked.length := (List.getElem?_eq_some_iff.1 ha).1
  refine ⟨hf.asked.symm ▸ h.cookies, ?_, hf.cookies.symm ▸ htimers.1, ?_, htimers.2, fun c p hp => ?_,
    fun m hm => ?_, fun m b hb => ?_⟩
  · rw [hf.asked, hf.cookies]
    exact h.known
  · rw [hf.cookies]
    intro c hc
    rcases hf.expired with he | he
    · exact h.expired c (he ▸ hc)
    · rw [he, List.mem_append, List.mem_singleton] at hc
      rcases hc with hc | rfl
      · exact h.expired c hc
      · exact h.known a (List.mem_of_getElem? ha)
  · rw [hf.asked]
    by_cases hc : c = a.cookie
    · subst hc
      rw [hpending p hp]
      exact ⟨a, ha, rfl⟩
    · rw [hf.pending c hc] at hp
      exact h.pending c p hp
  · rw [hf.asked] at hm
    have hne : m ≠ n := by omega
    rw [hf.calls m hne, hf.sent m hne]
    exact h.numbers m hm
  · rw [hf.asked] at hb
    by_cases hmn : m = n
    · subst hmn
      obtain rfl := Option.some.inj (ha.symm.trans hb)
      exact htracks
    · have hc : b.cookie ≠ a.cookie := fun heq => hmn (h.cookie_inj hb ha heq)
      exact (h.tracks m b hb).congr (hf.pending _ hc) (hf.timers _ hc) (hf.calls m hmn) (hf.sent m hmn)
        (hf.count hc) (fun hw => hf.worker.trans hw) hf.replies

theorem Inv.calm (h : Inv s) (b : Bool) (x : ℚ) (hw : s.worker = false → b = false) :
    Inv { s with worker := b, lastval := x } :=
  ⟨h.cookies, h.known, h.timers, h.expired, h.ids, h.pending, h.numbers,
    fun m b hb => (h.tracks m b hb).congr rfl rfl rfl rfl rfl hw (List.Subset.refl _)⟩

theorem Inv.applyDelay (h : Inv s) (x : ℚ) : Inv (s.applyDelay x) := h.calm s.worker _ id

theorem Inv.newCookie (h : Inv s) (c : Text) : Inv { s with cookies := s.cookies ++ [c] } :=
  ⟨h.cookies, fun a ha => List.mem_append_left _ (h.known a ha),
    fun x hx => ⟨List.mem_append_left _ (h.timers x hx).1, (h.timers x hx).2⟩,
    fun x hx => List.mem_append_left _ (h.expired x hx), h.ids, h.pending, h.numbers,
    fun m b hb => (h.tracks m b hb).congr rfl rfl rfl rfl rfl id (List.Subset.refl _)⟩

theorem Inv.arm (h : Inv s) (hc : c ∈ s.cookies) (hno : ∀ a ∈ s.asked, a.cookie ≠ c) :
    Inv { s with timers := (s.nextTimer, c) :: s.timers, nextTimer := s.nextTimer + 1 } := by
  obtain ⟨htimers, hids⟩ := timers_arm h.timers h.ids hc
  refine ⟨h.cookies, h.known, htimers, h.expired, hids, h.pending, h.numbers, fun m b hb => ?_⟩
  refine (h.tracks m b hb).congr rfl ?_ rfl rfl rfl id (List.Subset.refl _)
  rw [timersOf_arm rfl, if_neg (hno b (List.mem_of_getElem? hb)).symm]

theorem sentOf_append {m : ℕ} {x : Text} (ht : t.datagrams = s.datagrams ++ [(n, x)]) :
    t.sentOf m = s.sentOf m + if n = m then 1 else 0 := by
  rw [sentOf, ht, List.filter_append, List.length_append, sentOf]
  by_cases hm : n = m <;> simp [hm]

theorem Inv.ask (h : Inv s) {p : PendingReq} {x : Text} (hc : a.cookie ∈ s.cookies)
    (hno : ∀ b ∈ s.asked, b.cookie ≠ a.cookie) (hk : s.timersOf a.cookie = [p.timer])
    (he : a.cookie ∉ s.expired) (hp : p.no = s.asked.length) (htries : p.triesleft = a.nretr - 1) :
    Inv { s with
      datagrams := s.datagrams ++ [(s.asked.length, x)]
      asked := s.asked ++ [a]
      pendingRequests := s.pendingRequests.set a.cookie p } := by
  obtain ⟨hcalls, hsent⟩ := h.numbers s.asked.length (Nat.le_refl _)
  refine ⟨?_, fun b hb => ?_, h.timers, h.expired, h.ids, fun d q hq => ?_, fun m hm => ?_, fun m b hb => ?_⟩
  · rw [List.map_append]
    apply List.nodup_append.2 ⟨h.cookies, List.nodup_singleton _, fun d hd e he' => ?_⟩
    obtain ⟨b, hb, rfl⟩ := List.mem_map.1 hd
    rw [List.mem_singleton] at he'
    exact he' ▸ hno b hb
  · rcases List.mem_append.1 hb with hb | hb
    · exact h.known b hb
    · exact (List.mem_singleton.1 hb) ▸ hc
  · rcases Dict.set_eq_some.1 hq with ⟨rfl, rfl⟩ | ⟨-, hq⟩
    · exact ⟨a, by rw [hp]; exact List.getElem?_concat_length, rfl⟩
    · obtain ⟨b, hb, rfl⟩ := h.pending d q hq
      exact ⟨b, (List.getElem?_append_left (List.getElem?_eq_some_iff.1 hb).1).trans hb, rfl⟩
  · rw [List.length_append, List.length_singleton] at hm
    rw [sentOf_append rfl, if_neg (by omega)]
    exact h.numbers m (by omega)
  · rw [List.getElem?_append] at hb
    split at hb
    next hm =>
      have hne := hno b (List.mem_of_getElem? hb)
      refine (h.tracks m b hb).congr (Dict.set_other _ _ hne) rfl rfl ?_ rfl id (List.Subset.refl _)
      rw [sentOf_append rfl, if_neg (by omega), Nat.add_zero]
    next hm =>
      obtain ⟨hm', rfl⟩ : m = s.asked.length ∧ a = b := by
        rw [List.getElem?_singleton] at hb
        split at hb
        next h0 => exact ⟨by omega, Option.some.inj hb⟩
        next => exact nomatch hb
      subst hm'
      left
      refine ⟨p, Dict.set_same _ _ _, hp, hk, hcalls, ?_, ?_⟩
      · rw [sentOf_append rfl, hsent, if_pos rfl, htries]
        omega
      · rw [sentOf_append rfl, hsent, if_pos rfl]
        rw [List.count_eq_zero.2 he]

theorem Inv.sendCommand (h : Inv s) {command : UdpCommand} {hasCb : Bool} {now : ℚ}
    (hc : c ∉ s.cookies) : Inv (s.sendCommand c command hasCb now) := by
  have hmem : c ∈ s.cookies ++ [c] := List.mem_append_right _ (List.mem_singleton_self c)
  have hno : ∀ a ∈ s.asked, a.cookie ≠ c := fun a ha heq => hc (heq ▸ h.known a ha)
  unfold UdpClient.sendCommand
  dsimp only
  split
  next => exact h.newCookie c
  next nretr _ =>
    have harm := (h.newCookie c).arm hmem hno
    split
    · apply harm.ask (a := ⟨c, nretr, hasCb⟩) hmem hno _ (fun he => hc (h.expired c he)) rfl rfl
      rw [timersOf_arm (s := s) rfl, if_pos rfl, h.timersOf_new hc]
    · exact harm

theorem sendCommand_cookies {command : UdpCommand} {hasCb : Bool} {now : ℚ} :
    (s.sendCommand c command hasCb now).cookies = s.cookies ++ [c] := by
  unfold UdpClient.sendCommand
  dsimp only
  split
  · rfl
  · split <;> rfl

/-- The first of the new cookies is new, and the others stay new when it is used. -/
theorem Fresh.send {command : UdpCommand} {hasCb : Bool} {now : ℚ} {acts : List Request}
    (hf : s.Fresh (.send c command hasCb now :: acts)) :
    c ∉ s.cookies ∧ (s.sendCommand c command hasCb now).Fresh acts := by
  obtain ⟨hnd, hnew⟩ := hf
  rw [List.filterMap_cons_some (f := Request.cookie) (b := c) rfl] at hnd hnew
  refine ⟨hnew c List.mem_cons_self, (List.nodup_cons.1 hnd).2, fun d hd hmem => ?_⟩
  rw [sendCommand_cookies, List.mem_append, List.mem_singleton] at hmem
  rcases hmem with hmem | rfl
  · exact hnew d (List.mem_cons_of_mem _ hd) hmem
  · exact (List.nodup_cons.1 hnd).1 hd

theorem Inv.requests (h : Inv s) {acts : List Request} (hf : s.Fresh acts) : Inv (run request s acts) := by
  induction acts generalizing s with
  | nil => exact h
  | cons act acts ih =>
    rw [run_cons]
    cases act with
    | shutdown => exact ih (h.calm false _ fun _ => rfl) hf
    | send c command hasCb now =>
      obtain ⟨hc, hrest⟩ := hf.send
      exact ih (h.sendCommand hc) hrest

/-- What requests leave alone of a command that was sent before, with the cookie `c`. -/
structure Keeps (c : Text) (s t : UdpClient) : Prop where
  asked : s.asked <+: t.asked
  pending : t.pendingRequests c = s.pendingRequests c
  called : t.called = s.called
  expired : t.expired = s.expired
  replies : t.replies = s.replies
  sent : ∀ m < s.asked.length, t.sentOf m = s.sentOf m
  worker : s.worker = false → t.worker = false

theorem Keeps.refl (c : Text) (s : UdpClient) : Keeps c s s :=
  ⟨List.prefix_refl _, rfl, rfl, rfl, rfl, fun _ _ => rfl, id⟩

theorem Keeps.trans (h : Keeps c s t) (h' : Keeps c t u) : Keeps c s u :=
  ⟨h.asked.trans h'.asked, h'.pending.trans h.pending, h'.called.trans h.called,
    h'.expired.trans h.expired, h'.replies.trans h.replies,
    fun m hm => (h'.sent m (hm.trans_le h.asked.length_le)).trans (h.sent m hm),
    fun hw => h'.worker (h.worker hw)⟩

theorem Keeps.getElem? (h : Keeps c s t) (ha : s.asked[n]? = some a) : t.asked[n]? = some a := by
  obtain ⟨l, hl⟩ := h.asked
  rw [← hl, List.getElem?_append_left (List.getElem?_eq_some_iff.1 ha).1]
  exact ha

theorem sendCommand_keeps {command : UdpCommand} {hasCb : Bool} {now : ℚ} (hd : c ≠ d) :
    Keeps c s (s.sendCommand d command hasCb now) := by
  unfold UdpClient.sendCommand
  dsimp only
  split
  · exact ⟨List.prefix_refl _, rfl, rfl, rfl, rfl, fun _ _ => rfl, id⟩
  · split
    · refine ⟨List.prefix_append .., Dict.set_other _ _ hd, rfl, rfl, rfl, fun m hm => ?_, id⟩
      rw [sentOf_append (s := s) rfl, if_neg (Nat.ne_of_gt hm), Nat.add_zero]
    · exact ⟨List.prefix_refl _, rfl, rfl, rfl, rfl, fun _ _ => rfl, id⟩

theorem requests_keeps {acts : List Request} (hf : s.Fresh acts) (hc : c ∈ s.cookies) :
    Keeps c s (run request s acts) := by
  induction acts generalizing s with
  | nil => exact .refl c s
  | cons act acts ih =>
    rw [run_cons]
    cases act with
    | shutdown =>
      have hdown : Keeps c s { s with worker := false } :=
        ⟨List.prefix_refl _, rfl, rfl, rfl, rfl, fun _ _ => rfl, fun _ => rfl⟩
      exact hdown.trans (ih hf hc)
    | send d command hasCb now =>
      obtain ⟨hd, hrest⟩ := hf.send
      have hmem : c ∈ (s.sendCommand d command hasCb now).cookies := by
        rw [sendCommand_cookies]
        exact List.mem_append_left _ hc
      have hne : c ≠ d := fun heq => hd (heq ▸ hc)
      exact (sendCommand_keeps hne).trans (ih hrest hmem)

theorem callBack_keeps {acts : List Request} (no : ℕ) (x : Option Text) (hf : s.Fresh acts)
    (hc : c ∈ s.cookies) : Keeps c (s.callBack no x []) (s.callBack no x acts) := by
  unfold callBack
  split
  · exact requests_keeps (s := { s with called := _ }) hf hc
  · exact .refl c s

theorem callsOf_callBack {m no : ℕ} {x : Option Text} (hno : s.asked[no]? = some a) :
    (s.callBack no x []).callsOf m = s.callsOf m ++ if no = m ∧ a.hasCb then [x] else [] := by
  unfold callBack
  rw [hno]
  cases hcb : a.hasCb with
  | false => simp [hcb]
  | true =>
    rw [if_pos (by exact hcb), run_nil, callsOf, List.filterMap_append]
    by_cases hm : no = m <;> simp [hm, callsOf]

theorem callBack_state (no : ℕ) (x : Option Text) :
    (s.callBack no x []).asked = s.asked ∧ (s.callBack no x []).cookies = s.cookies ∧
      (s.callBack no x []).worker = s.worker ∧ (s.callBack no x []).replies = s.replies ∧
      (s.callBack no x []).pendingRequests = s.pendingRequests ∧
      (s.callBack no x []).timers = s.timers ∧ (s.callBack no x []).datagrams = s.datagrams ∧
      (s.callBack no x []).nextTimer = s.nextTimer ∧ (s.callBack no x []).expired = s.expired := by
  unfold callBack
  split <;> exact ⟨rfl, rfl, rfl, rfl, rfl, rfl, rfl, rfl, rfl⟩

theorem Inv.callBack {no : ℕ} {x : Option Text} {acts : List Request} (h : Inv (s.callBack no x []))
    (hf : s.Fresh acts) : Inv (s.callBack no x acts) := by
  unfold UdpClient.callBack at h ⊢
  split at h
  next hcb =>
    rw [if_pos hcb]
    exact h.requests hf
  next hcb =>
    rw [if_neg hcb]
    exact h

theorem Inv.finish (h : Inv s) {p : PendingReq} {x : Option Text} {acts : List Request}
    (ha : s.asked[n]? = some a) (hw : Waiting s n a p)
    (hu : u.asked = s.asked ∧ u.cookies = s.cookies ∧ u.worker = s.worker ∧
      u.pendingRequests = s.pendingRequests.del a.cookie ∧ u.timers = s.timers.filter (·.1 ≠ p.timer) ∧
      u.nextTimer = s.nextTimer ∧ u.datagrams = s.datagrams ∧ u.called = s.called)
    (hr : s.replies ⊆ u.replies) (he : u.expired = s.expired ∨ u.expired = s.expired ++ [a.cookie])
    (hx : x = none → (s.sentOf n : ℤ) = max 1 a.nretr ∨ s.worker = false)
    (hx' : ∀ r, x = some r → ∃ t, (a.cookie, t) ∈ u.replies ∧ r = Text.strip t) (hf : s.Fresh acts) :
    Inv (u.callBack n x acts) := by
  obtain ⟨ua, uc, uw, up, ut, un, ud, ucl⟩ := hu
  obtain ⟨ca, cc, cw, cr, cp, ct, cd, cn, ce⟩ := callBack_state (s := u) n x
  have hmem : (p.timer, a.cookie) ∈ s.timers := by
    rw [← mem_timersOf, hw.timer]
    exact List.mem_singleton_self _
  have htimers (d : Text) : (u.callBack n x []).timersOf d = (s.timersOf d).filter (· ≠ p.timer) :=
    timersOf_cancel (ct.trans ut)
  have hcalls (m : ℕ) :
      (u.callBack n x []).callsOf m = s.callsOf m ++ if n = m ∧ a.hasCb then [x] else [] := by
    rw [callsOf_callBack (ua ▸ ha), callsOf, ucl, callsOf]
  have hsent (m : ℕ) : (u.callBack n x []).sentOf m = s.sentOf m := by rw [sentOf, cd, ud, sentOf]
  have hle : (s.sentOf n : ℤ) ≤ max 1 a.nretr := by
    have := hw.sent
    omega
  apply Inv.callBack _ (by rwa [Fresh, uc])
  apply h.of_frame ha
  · refine ⟨ca.trans ua, cc.trans uc, cw.trans uw, ?_, fun d hd => ?_, fun d hd => ?_, fun m hm => ?_,
      fun m _ => hsent m, ?_⟩
    · rw [cr]
      exact hr
    · rw [cp, up, Dict.del_other _ hd]
    · rw [htimers, h.timersOf_other hmem hd]
    · rw [hcalls, if_neg (fun hc => hm hc.1.symm), List.append_nil]
    · rw [ce]
      exact he
  · rw [ct, cn, ut, un]
    exact h.timers_filter _
  · intro q hq
    rw [cp, up, Dict.del_same] at hq
    exact nomatch hq
  · right
    refine ⟨x, ?_, ?_, ?_, ?_, fun hn => ?_, fun r hr => ?_⟩
    · rw [cp, up, Dict.del_same]
    · rw [htimers, hw.timer]
      simp
    · rw [hcalls, hw.calls]
      simp
    · rw [hsent]
      exact hle
    · rw [hsent, cw, uw]
      exact hx hn
    · rw [cr]
      exact hx' r hr

theorem Inv.strayTimer (h : Inv s) (hk : (k, c) ∈ s.timers) (hc : s.pendingRequests c = none) :
    Inv { s with timers := s.timers.filter (·.1 ≠ k), expired := s.expired ++ [c] } := by
  obtain ⟨htimers, hids⟩ := h.timers_filter k
  refine ⟨h.cookies, h.known, htimers, fun d hd => ?_, hids, h.pending, h.numbers, fun m b hb => ?_⟩
  · rcases List.mem_append.1 hd with hd | hd
    · exact h.expired d hd
    · exact (List.mem_singleton.1 hd) ▸ (h.timers _ hk).1
  · have hne := h.stray hk hc hb
    refine (h.tracks m b hb).congr rfl ?_ rfl rfl ?_ id (List.Subset.refl _)
    · rw [timersOf_cancel rfl, h.timersOf_other hk hne]
    · rw [List.count_append, List.count_singleton, if_neg (by simpa using hne.symm), Nat.add_zero]

theorem Inv.again (h : Inv s) {p q : PendingReq} {x : Text} (ha : s.asked[n]? = some a)
    (hw : Waiting s n a p) (hq : q.no = n) (hqt : q.timer = s.nextTimer)
    (htries : 0 < p.triesleft) (hql : q.triesleft = p.triesleft - 1) :
    Inv { s with
      expired := s.expired ++ [a.cookie]
      timers := (s.nextTimer, a.cookie) :: s.timers.filter (·.1 ≠ p.timer)
      nextTimer := s.nextTimer + 1
      datagrams := s.datagrams ++ [(n, x)]
      pendingRequests := s.pendingRequests.set a.cookie q } := by
  have hmem : (p.timer, a.cookie) ∈ s.timers := by
    rw [← mem_timersOf, hw.timer]
    exact List.mem_singleton_self _
  have htimers (d : Text) (t : UdpClient)
      (ht : t.timers = (s.nextTimer, a.cookie) :: s.timers.filter (·.1 ≠ p.timer)) :
      t.timersOf d = if a.cookie = d then s.nextTimer :: (s.timersOf d).filter (· ≠ p.timer)
        else (s.timersOf d).filter (· ≠ p.timer) := by
    rw [timersOf_arm (s := { s with timers := s.timers.filter (·.1 ≠ p.timer) }) ht,
      timersOf_cancel (s := s) rfl]
  have hlast := hw.sent
  apply h.of_frame ha
  · refine ⟨rfl, rfl, rfl, List.Subset.refl _, fun d hd => Dict.set_other _ _ hd, fun d hd => ?_,
      fun m _ => rfl, fun m hm => ?_, .inr rfl⟩
    · rw [htimers d _ rfl, if_neg hd.symm, h.timersOf_other hmem hd]
    · rw [sentOf_append rfl, if_neg hm.symm, Nat.add_zero]
  · obtain ⟨hl, hids⟩ := h.timers_filter p.timer
    exact timers_arm hl hids (h.known a (List.mem_of_getElem? ha))
  · intro r hr
    obtain rfl := Option.some.inj ((Dict.set_same _ _ _).symm.trans hr)
    exact hq
  · left
    refine ⟨q, Dict.set_same _ _ _, hq, ?_, hw.calls, ?_, ?_⟩
    · rw [htimers _ _ rfl, if_pos rfl, hw.timer, hqt]
      simp
    · rw [sentOf_append rfl, if_pos rfl, hql]
      omega
    · rw [sentOf_append rfl, if_pos rfl, hw.expired, List.count_append, List.count_singleton_self]

theorem Inv.retransmit (h : Inv s) {acts : List Request} (hk : (k, c) ∈ s.timers) (hf : s.Fresh acts) :
    Inv (s.retransmit k c acts) := by
  unfold UdpClient.retransmit
  dsimp only
  split
  next hnone => exact h.strayTimer hk hnone
  next preq hp =>
    obtain ⟨a, ha, rfl, hw⟩ := h.waiting hp
    obtain rfl : k = preq.timer := by
      have hmem := mem_timersOf.2 hk
      rwa [hw.timer, List.mem_singleton] at hmem
    have hsent := hw.sent
    split
    next hlast =>
      refine h.finish (u := { s with
          timers := s.timers.filter (·.1 ≠ preq.timer), expired := s.expired ++ [a.cookie]
          pendingRequests := s.pendingRequests.del a.cookie, online := false }) ha hw
        ⟨rfl, rfl, rfl, rfl, rfl, rfl, rfl, rfl⟩ (List.Subset.refl _) (.inr rfl) ?_ ?_ ?_
      · intro _
        apply hlast.imp_left
        intro h0
        omega
      · exact fun r hr => absurd hr.symm (Option.some_ne_none r)
      · exact hf
    next hlast =>
      rw [not_or, Int.not_le] at hlast
      exact h.again ha hw rfl rfl hlast.1 rfl

theorem Inv.processReply (h : Inv s) {data : Option Text} {rtime : ℚ} {acts : List Request}
    (hf : s.Fresh acts) (hlate : ∀ cookie result, splitReply data = some (cookie, result) →
      ∀ preq, s.pendingRequests cookie = some preq → preq.stime < rtime) :
    Inv (s.processReply data rtime acts) := by
  unfold UdpClient.processReply
  split
  next => exact h
  next c result hsplit =>
    split
    next => exact h
    next preq hp =>
      dsimp only
      rw [if_neg (not_le_of_gt (hlate c result hsplit preq hp))]
      obtain ⟨a, ha, rfl, hw⟩ := h.waiting hp
      have hfinish : Inv (UdpClient.callBack { s with
          pendingRequests := s.pendingRequests.del a.cookie
          timers := s.timers.filter (·.1 ≠ preq.timer)
          replies := s.replies ++ [(a.cookie, result)] } preq.no (some (Text.strip result)) acts) :=
        h.finish ha hw ⟨rfl, rfl, rfl, rfl, rfl, rfl, rfl, rfl⟩
        (List.subset_append_left _ _) (.inl rfl) (fun hx => nomatch hx)
        (fun r hr => ⟨result, List.mem_append_right _ (List.mem_singleton_self _),
          (Option.some.inj hr).symm⟩) hf
      split
      · exact hfinish.applyDelay _
      · exact hfinish

theorem Inv.step (h : Inv s) {l : Label} (hl : s.Meets l) : Inv (s.step l) := by
  cases l with
  | call act =>
    change Inv (run UdpClient.request s [act])
    exact h.requests hl
  | reply data rtime acts => exact h.processReply hl.1 hl.2
  | expire k c acts =>
    unfold UdpClient.step
    dsimp only
    split
    next hk => exact h.retransmit hk hl
    next => exact h

theorem inv_init : Inv init := by
  constructor
  case cookies => exact List.nodup_nil
  case ids => exact List.nodup_nil
  case numbers => exact fun _ _ => ⟨rfl, rfl⟩
  all_goals simp [init]

theorem inv_run {ls : List Label} (h : Along step Meets init ls) : Inv (run step init ls) :=
  h.invariant (fun _ _ hl hs => hs.step hl) inv_init

theorem Waiting.tries {p : PendingReq} (h : Waiting s n a p) :
    (s.expired.count a.cookie : ℤ) < max 1 a.nretr := by
  have hsent := h.sent
  have hexpired := h.expired
  omega

theorem Inv.reply {p : PendingReq} {data : Option Text} {result : Text} {rtime : ℚ} {acts : List Request}
    (h : Inv s) (ha : s.asked[n]? = some a) (hw : Waiting s n a p)
    (hsplit : splitReply data = some (a.cookie, result)) (hm : s.Meets (.reply data rtime acts)) :
    Done (s.step (.reply data rtime acts)) n a (some (Text.strip result)) := by
  have hlate := hm.2 _ _ hsplit p hw.pending
  have hc : a.cookie ∈ s.cookies := h.known a (List.mem_of_getElem? ha)
  obtain ⟨v, hv⟩ : ∃ v : UdpClient, v = { s with
    pendingRequests := s.pendingRequests.del a.cookie
    timers := s.timers.filter (·.1 ≠ p.timer)
    replies := s.replies ++ [(a.cookie, result)] } := ⟨_, rfl⟩
  obtain ⟨w, hw'⟩ : ∃ w, w = v.callBack n (some (Text.strip result)) acts := ⟨_, rfl⟩
  have hstep : s.step (.reply data rtime acts) = w ∨
      s.step (.reply data rtime acts) = w.applyDelay (rtime - p.stime) := by
    simp only [UdpClient.step, UdpClient.processReply, hsplit, hw.pending, if_neg (not_le_of_gt hlate), ← hv,
      hw.no, ← hw']
    split
    · exact .inr rfl
    · exact .inl rfl
  have hkeeps : Keeps a.cookie (v.callBack n (some (Text.strip result)) []) w := by
    rw [hw']
    apply callBack_keeps
    · rw [hv]
      exact hm.1
    · rw [hv]
      exact hc
  obtain ⟨ca, -, -, cr, cp, -⟩ := callBack_state (s := v) n (some (Text.strip result))
  have hva : v.asked[n]? = some a := by rw [hv]; exact ha
  have hpending : w.pendingRequests a.cookie = none := by
    rw [hkeeps.pending, cp, hv]
    exact Dict.del_same ..
  have hcalls : w.callsOf n = if a.hasCb then [some (Text.strip result)] else [] := by
    rw [callsOf, hkeeps.called, ← callsOf, callsOf_callBack hva]
    have : v.callsOf n = s.callsOf n := by rw [hv]; rfl
    simp [this, hw.calls]
  have hreplies : (a.cookie, result) ∈ w.replies := by
    rw [hkeeps.replies, cr, hv]
    exact List.mem_append_right _ (List.mem_singleton_self _)
  have hasked : w.asked[n]? = some a := hkeeps.getElem? (by rw [ca]; exact hva)
  have hdone (t : UdpClient) (ht : Inv t) (hp : t.pendingRequests = w.pendingRequests)
      (htc : t.called = w.called) (hr : t.replies = w.replies) (hta : t.asked = w.asked) :
      Done t n a (some (Text.strip result)) := by
    rcases ht.tracks n a (hta ▸ hasked) with ⟨q, hq⟩ | ⟨x, hx⟩
    · rw [← hp, hq.pending] at hpending
      cases hpending
    · refine ⟨hx.pending, hx.timer, ?_, hx.sent, (fun h => absurd h (by simp)), fun r hr' => ⟨result, ?_, ?_⟩⟩
      · rw [callsOf, htc, ← callsOf, hcalls]
      · rw [hr]
        exact hreplies
      · exact (Option.some.inj hr').symm
  have hinv := h.step hm
  rcases hstep with heq | heq
  · rw [heq] at hinv ⊢
    exact hdone w hinv rfl rfl rfl rfl
  · rw [heq] at hinv ⊢
    exact hdone _ hinv rfl rfl rfl rfl

/-- When its timer runs out a command is sent once more, or it is given up. -/
theorem Inv.expire {p : PendingReq} {acts : List Request} (h : Inv s) (ha : s.asked[n]? = some a)
    (hw : Waiting s n a p) (hm : s.Meets (.expire p.timer a.cookie acts)) :
    (∃ q, Waiting (s.step (.expire p.timer a.cookie acts)) n a q ∧
        (s.step (.expire p.timer a.cookie acts)).sentOf n = s.sentOf n + 1) ∨
      Done (s.step (.expire p.timer a.cookie acts)) n a none := by
  have hc : a.cookie ∈ s.cookies := h.known a (List.mem_of_getElem? ha)
  have hmem : (p.timer, a.cookie) ∈ s.timers := by
    rw [← mem_timersOf, hw.timer]
    exact List.mem_singleton_self _
  have hinv := h.step hm
  obtain ⟨t, ht⟩ : ∃ t, t = s.step (.expire p.timer a.cookie acts) := ⟨_, rfl⟩
  have hstep : t = s.retransmit p.timer a.cookie acts := by
    rw [ht, UdpClient.step, if_pos hmem]
  rw [← ht] at hinv ⊢
  simp only [UdpClient.retransmit, hw.pending] at hstep
  split at hstep
  · next hlast =>
    right
    obtain ⟨v, hv⟩ : ∃ v : UdpClient, v = { s with
      timers := s.timers.filter (·.1 ≠ p.timer), expired := s.expired ++ [a.cookie]
      pendingRequests := s.pendingRequests.del a.cookie, online := false } := ⟨_, rfl⟩
    rw [← hv, hw.no] at hstep
    obtain ⟨ca, -, cw, -, cp, -, cd, -⟩ := callBack_state (s := v) n none
    have hva : v.asked[n]? = some a := by rw [hv]; exact ha
    have hkeeps : Keeps a.cookie (v.callBack n none []) t := by
      rw [hstep]
      apply callBack_keeps
      · rw [hv]
        exact hm
      · rw [hv]
        exact hc
    rcases hinv.tracks n a (hkeeps.getElem? (by rw [ca]; exact hva)) with ⟨q, hq⟩ | ⟨x, hx⟩
    · have hnone : t.pendingRequests a.cookie = none := by
        rw [hkeeps.pending, cp, hv]
        exact Dict.del_same ..
      cases hnone.symm.trans hq.pending
    · refine ⟨hx.pending, hx.timer, ?_, hx.sent, fun _ => ?_, fun r hr => absurd hr (by simp)⟩
      · have : v.callsOf n = s.callsOf n := by rw [hv]; rfl
        rw [callsOf, hkeeps.called, ← callsOf, callsOf_callBack hva]
        simp [this, hw.calls]
      · have hsent : t.sentOf n = s.sentOf n := by
          rw [hkeeps.sent n (by rw [ca]; exact (List.getElem?_eq_some_iff.1 hva).1), sentOf, cd, hv]
          rfl
        rw [hsent]
        refine hlast.imp (fun h0 => ?_) fun h0 => hkeeps.worker ?_
        · have := hw.sent
          omega
        · rw [cw, hv]
          exact h0
  · left
    have hpending : t.pendingRequests a.cookie ≠ none := by
      rw [hstep]
      exact ne_of_eq_of_ne (Dict.set_same ..) (Option.some_ne_none _)
    have hcount : t.expired.count a.cookie = s.expired.count a.cookie + 1 := by
      rw [hstep, List.count_append, List.count_singleton_self]
    rcases hinv.tracks n a (by rw [hstep]; exact ha) with ⟨q, hq⟩ | ⟨x, hx⟩
    · refine ⟨q, hq, ?_⟩
      rw [hq.expired, hcount, ← hw.expired]
    · exact absurd hx.pending hpending

end Invariant

end UdpClient

end SippyB2bua.Rtpp
