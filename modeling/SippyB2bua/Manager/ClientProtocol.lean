import SippyB2bua.Manager.ClientMoves

/-!
# The callback protocol of a client transaction

Whatever order responses, timers and calls come in, the upper layer sees any
number of provisional responses, then at most one final response, received or
made up by timer B, and nothing after it. The transaction is then removed once,
with no timer left: when the callback returns, by timer C, or by `sendACK` if
the ACK was deferred. The callback of a final response must return for this.
-/

namespace SippyB2bua.Manager
open Lib (Text Dict Timer modifyAt run Along)

def responses (c : ℕ) (log : List Act) : List Resp :=
  log.filterMap fun
    | .response c' resp => if c' = c then some resp else none
    | _ => none

def removals (c : ℕ) (log : List Act) : ℕ := log.count (.removed c)

def CView.delivering (v : CView) (c : ℕ) : Prop := ∃ resp, v.cb = some (.final c resp)

def Acked (c : ℕ) (log : List Act) : Prop := ∃ u data addr, .sent (.ack c) u data addr ∈ log

/-- A client transaction that was `new` if it does not exist yet and whose final
response is being delivered if `fin`, with the responses `rs` delivered so far
and `n` removals. -/
structure CTr.Ok (m : CMode) (t : CTr) (new fin : Prop) (rs : List Resp) (n : ℕ) : Prop where
  fresh : new → t.tid = none ∧ t.state = .terminated ∧ ¬ fin ∧ rs = []
  tightA : t.teA.Tight
  tightB : t.teB.Tight
  tightC : t.teC.Tight
  tightG : t.teG.Tight
  liveA : 0 < t.teA.live → t.state = .trying ∧ t.tid ≠ none ∧ ¬ fin
  liveB : 0 < t.teB.live → t.open ∧ t.tid ≠ none ∧ ¬ fin
  liveC : 0 < t.teC.live → t.state = .terminated ∧ t.tid ≠ none
  liveG : 0 < t.teG.live → t.state = .uack ∧ t.tid ≠ none
  waits : t.tid ≠ none → t.state = .terminated → 0 < t.teC.live
  states : t.open ∨ t.state = .terminated ∨ t.state = .uack
  timed : m.calm → m.returns → t.open → t.tid ≠ none → ¬ fin → 0 < t.teB.live
  ready : t.tid ≠ none → t.userv ≠ none ∧ (t.needack = true → t.ack ≠ none)
  gone : t.tid = none → t.ack = none
  deferred : t.ackRAddr ≠ none → t.state = .uack
  addressed : t.state = .uack → t.ackRAddr ≠ none ∧ (t.tid ≠ none → t.ack ≠ none)
  flagged : t.state = .uack → t.uack = true
  frame : fin → t.state = .uack ∨ (t.open ∧ t.tid ≠ none)
  r408 : ∀ r, t.r408 = some r → ∃ msg : Req, r = msg.genResponse 408 TM.requestTimeout []
  cancels : ∀ r, t.cancel = some r → r.method = .cancel
  order : m.returns → ∀ r ∈ rs.dropLast, r.scode < 200
  provisional : m.returns → t.open → t.tid ≠ none → ¬ fin → ∀ r ∈ rs, r.scode < 200
  kept : t.tid ≠ none ∨ new → n = 0
  removed : t.tid = none → ¬ new → n = 1

structure ClientInv (env : Env) (m : CMode) (v : CView) : Prop where
  link : v.Linked
  slot : ∀ c, (v.cheap c).Ok m (v.cnext ≤ c) (v.delivering c) (responses c v.log) (removals c v.log)
  origin : ∀ c resp, .response c resp ∈ v.log →
    Answered env v.log resp ∨ ∃ msg : Req, resp = msg.genResponse 408 TM.requestTimeout []
  acked : ∀ c, v.delivering c → (v.cheap c).open → (v.cheap c).needack = true → Acked c v.log
  sums : ∀ c, (v.cheap c).ackRAddr ≠ none → SumOfResponse env v.log (v.cheap c).ackChecksum

section Log
variable {c : ℕ} {log as : List Act}

@[simp] theorem responses_append : responses c (log ++ as) = responses c log ++ responses c as :=
  List.filterMap_append

@[simp] theorem removals_append : removals c (log ++ as) = removals c log + removals c as :=
  List.count_append

def Act.beside (c : ℕ) : Act → Bool
  | .response c' _ | .removed c' => c' ≠ c
  | _ => true

theorem Act.beside_of_ofClient {a : Act} (h : a.ofClient = false) (c : ℕ) : a.beside c = true := by
  cases a <;> simp_all [Act.ofClient, Act.beside]

theorem responses_beside (h : ∀ a ∈ as, a.beside c = true) : responses c as = [] := by
  refine List.filterMap_eq_nil_iff.mpr fun a ha => ?_
  have hb := h a ha
  cases a <;> simp_all [Act.beside]

theorem removals_beside (h : ∀ a ∈ as, a.beside c = true) : removals c as = 0 := by
  refine List.count_eq_zero.mpr fun hmem => ?_
  simpa [Act.beside] using h _ hmem

theorem AckSent.beside {needack : Bool} (h : AckSent c needack as) (c' : ℕ) :
    ∀ a ∈ as, a.beside c' = true := by
  unfold AckSent at h
  split at h
  · obtain ⟨u, data, addr, rfl⟩ := h
    simp [Act.beside]
  · simp [h]

theorem Answered.append {env : Env} {resp : Resp} (h : Answered env log resp) (as : List Act) :
    Answered env (log ++ as) resp := by
  obtain ⟨data, received, contacts, hmem, hrest⟩ := h
  exact ⟨data, received, contacts, List.mem_append_left _ hmem, hrest⟩

theorem SumOfResponse.append {env : Env} {checksum : Text} (h : SumOfResponse env log checksum)
    (as : List Act) : SumOfResponse env (log ++ as) checksum := by
  obtain ⟨data, hmem, hrest⟩ := h
  exact ⟨data, List.mem_append_left _ hmem, hrest⟩

theorem Acked.append (h : Acked c log) (as : List Act) : Acked c (log ++ as) := by
  obtain ⟨u, data, addr, hmem⟩ := h
  exact ⟨u, data, addr, List.mem_append_left _ hmem⟩

end Log

theorem CTr.open.ne_terminated {t : CTr} (h : t.open) : t.state ≠ .terminated := by
  rcases h with h | h <;> simp [h]

theorem CTr.open.ne_uack {t : CTr} (h : t.open) : t.state ≠ .uack := by
  rcases h with h | h <;> simp [h]

namespace CTr.Ok
variable {m : CMode} {t t' : CTr} {new fin : Prop} {rs : List Resp} {n : ℕ}

theorem same (h : t.Ok m new fin rs n) (hs : t.Same t') : t'.Ok m new fin rs n where
  fresh := hs.tid ▸ hs.state ▸ h.fresh
  tightA := hs.teA ▸ h.tightA
  tightB := hs.teB ▸ h.tightB
  tightC := hs.teC ▸ h.tightC
  tightG := hs.teG ▸ h.tightG
  liveA := hs.teA ▸ hs.state ▸ hs.tid ▸ h.liveA
  liveB := by simpa [CTr.open, hs.teB, hs.state, hs.tid] using h.liveB
  liveC := hs.teC ▸ hs.state ▸ hs.tid ▸ h.liveC
  liveG := hs.teG ▸ hs.state ▸ hs.tid ▸ h.liveG
  waits := hs.teC ▸ hs.state ▸ hs.tid ▸ h.waits
  states := by simpa [CTr.open, hs.state] using h.states
  timed := by simpa [CTr.open, hs.state, hs.tid, hs.teB] using h.timed
  ready := by simpa [hs.tid, hs.userv, hs.needack, hs.ack] using h.ready
  gone := by simpa [hs.tid, hs.ack] using h.gone
  deferred := hs.ackRAddr ▸ hs.state ▸ h.deferred
  addressed := by simpa [hs.state, hs.ackRAddr, hs.tid, hs.ack] using h.addressed
  flagged hu := hs.uack (h.flagged (hs.state ▸ hu))
  frame := by simpa [CTr.open, hs.state, hs.tid] using h.frame
  r408 := hs.r408 ▸ h.r408
  cancels r hr := by
    have hmap := hs.cancel
    rw [hr] at hmap
    obtain ⟨r', hr', hmethod⟩ := Option.map_eq_some_iff.mp hmap.symm
    exact hmethod ▸ h.cancels r' hr'
  order := h.order
  provisional := by simpa [CTr.open, hs.state, hs.tid] using h.provisional
  kept := hs.tid ▸ h.kept
  removed := hs.tid ▸ h.removed

theorem cleanup (h : t.Ok m new fin rs n) (hnew : ¬ new) (hA : t'.teA.live = 0)
    (hB : t'.teB.live = 0) (hC : t'.teC.live = 0) (hG : t'.teG.live = 0)
    (hstate : t'.state = t.state) (hraddr : t'.ackRAddr = t.ackRAddr) (huack : t'.uack = t.uack)
    {fin' : Prop} (hfin : fin' → t.state = .uack) : t'.cleanup.Ok m new fin' rs 1 where
  fresh hnew' := absurd hnew' hnew
  tightA := Lib.Timer.tight_of_live hA
  tightB := Lib.Timer.tight_of_live hB
  tightC := Lib.Timer.tight_of_live hC
  tightG := Lib.Timer.tight_of_live hG
  liveA hl := absurd hA (Nat.pos_iff_ne_zero.mp hl)
  liveB hl := absurd hB (Nat.pos_iff_ne_zero.mp hl)
  liveC hl := absurd hC (Nat.pos_iff_ne_zero.mp hl)
  liveG hl := absurd hG (Nat.pos_iff_ne_zero.mp hl)
  waits hne := absurd rfl hne
  states := by simpa [CTr.open, CTr.cleanup, hstate] using h.states
  timed _ _ _ hne := absurd rfl hne
  ready hne := absurd rfl hne
  gone _ := rfl
  deferred := by simpa [CTr.cleanup, hstate, hraddr] using h.deferred
  addressed hs := by
    have haddr := (h.addressed (hstate ▸ hs)).1
    exact ⟨hraddr ▸ haddr, fun hne => absurd rfl hne⟩
  flagged hu := huack ▸ h.flagged (hstate ▸ hu)
  frame hf := .inl (hstate.trans (hfin hf))
  r408 r hr := by simp [CTr.cleanup] at hr
  cancels r hr := by simp [CTr.cleanup] at hr
  order := h.order
  provisional _ _ hne := absurd rfl hne
  kept hk := hk.elim (fun hne => absurd rfl hne) fun hnew' => absurd hnew' hnew
  removed _ _ := rfl

theorem stopped_live (h : t.Ok m new fin rs n) (hs : t.open) :
    t.stopped.teA.live = 0 ∧ t.stopped.teB.live = 0 ∧ t.stopped.teC.live = 0 ∧
      t.stopped.teG.live = 0 := by
  have hnot : t.state ≠ .terminated ∧ t.state ≠ .uack := by
    rcases hs with hs | hs <;> simp [hs]
  refine ⟨?_, h.tightB.cancel_live, ?_, ?_⟩
  · unfold CTr.stopped
    dsimp only
    split
    · exact h.tightA.cancel_live
    · rename_i htry
      by_contra hl
      exact htry (h.liveA (Nat.pos_of_ne_zero hl)).1
  · by_contra hl
    exact hnot.1 (h.liveC (Nat.pos_of_ne_zero hl)).1
  · by_contra hl
    exact hnot.2 (h.liveG (Nat.pos_of_ne_zero hl)).1

theorem not_new (h : t.Ok m new fin rs n) (htid : t.tid ≠ none) : ¬ new :=
  fun hnew => htid (h.fresh hnew).1

theorem told (h : t.Ok m new fin rs n) (hs : t.open) (htid : t.tid ≠ none) (hfin : ¬ fin)
    {resp : Resp} (hcode : resp.scode < 200) : t.Ok m new fin (rs ++ [resp]) n :=
  { h with
    fresh := fun hnew => absurd hnew (h.not_new htid)
    order := fun hr r hmem => by
      rw [List.dropLast_concat] at hmem
      exact h.provisional hr hs htid hfin r hmem
    provisional := fun hr _ _ _ r hmem => by
      rcases List.mem_append.mp hmem with hmem | hmem
      · exact h.provisional hr hs htid hfin r hmem
      · rw [List.mem_singleton.mp hmem]; exact hcode }

theorem stopped (h : t.Ok m new fin rs n) (hs : t.open) (htid : t.tid ≠ none)
    {fin' : Prop} {rs' : List Resp} {state : TState} {ack : Option Req}
    (hstate : state = .trying ∨ state = .ringing) (hack : t.ack ≠ none → ack ≠ none)
    (htimed : m.calm → m.returns → fin') (horder : m.returns → ∀ r ∈ rs'.dropLast, r.scode < 200)
    (hprov : m.returns → ¬ fin' → ∀ r ∈ rs', r.scode < 200) :
    CTr.Ok m { t.stopped with state := state, ack := ack } new fin' rs' n := by
  obtain ⟨hA, hB, hC, hG⟩ := h.stopped_live hs
  exact {
    fresh := fun hnew => absurd hnew (h.not_new htid)
    tightA := Lib.Timer.tight_of_live hA
    tightB := Lib.Timer.tight_of_live hB
    tightC := h.tightC
    tightG := h.tightG
    liveA := fun hl => absurd hA (Nat.pos_iff_ne_zero.mp hl)
    liveB := fun hl => absurd hB (Nat.pos_iff_ne_zero.mp hl)
    liveC := fun hl => absurd hC (Nat.pos_iff_ne_zero.mp hl)
    liveG := fun hl => absurd hG (Nat.pos_iff_ne_zero.mp hl)
    waits := fun _ heq => by rcases hstate with rfl | rfl <;> cases heq
    states := .inl hstate
    timed := fun hc hr _ _ hf => absurd (htimed hc hr) hf
    ready := fun _ => ⟨(h.ready htid).1, fun hneed => hack ((h.ready htid).2 hneed)⟩
    gone := fun hnone => absurd hnone htid
    deferred := fun ha => absurd (h.deferred ha) hs.ne_uack
    addressed := fun heq => by rcases hstate with rfl | rfl <;> cases heq
    flagged := fun heq => by rcases hstate with rfl | rfl <;> cases heq
    frame := fun _ => .inr ⟨hstate, htid⟩
    r408 := h.r408
    cancels := h.cancels
    order := horder
    provisional := fun hr _ _ hf => hprov hr hf
    kept := h.kept
    removed := h.removed }

theorem rung (h : t.Ok m new fin rs n) (hs : t.open) (htid : t.tid ≠ none) (hfin : ¬ fin)
    (pending : Bool → Bool) : (t.rung pending).Ok m new fin rs n := by
  obtain ⟨hA, hB, hC, hG⟩ := h.stopped_live hs
  exact {
    fresh := fun hnew => absurd hnew (h.not_new htid)
    tightA := Lib.Timer.tight_of_live hA
    tightB := Lib.Timer.tight_arm hB
    tightC := h.tightC
    tightG := h.tightG
    liveA := fun hl => absurd hA (Nat.pos_iff_ne_zero.mp hl)
    liveB := fun _ => ⟨.inr rfl, htid, hfin⟩
    liveC := fun hl => absurd hC (Nat.pos_iff_ne_zero.mp hl)
    liveG := fun hl => absurd hG (Nat.pos_iff_ne_zero.mp hl)
    waits := fun _ heq => by cases heq
    states := .inl (.inr rfl)
    timed := fun _ _ _ _ _ => Nat.succ_pos _
    ready := h.ready
    gone := h.gone
    deferred := fun ha => absurd (h.deferred ha) hs.ne_uack
    addressed := fun heq => by cases heq
    flagged := fun heq => by cases heq
    frame := fun hf => absurd hf hfin
    r408 := h.r408
    cancels := h.cancels
    order := h.order
    provisional := fun hr _ _ hf => h.provisional hr hs htid hf
    kept := h.kept
    removed := h.removed }

theorem uacked (h : t.Ok m new fin rs n) (hs : t.open) (htid : t.tid ≠ none)
    (huack : t.uack = true) {fin' : Prop}
    {rs' : List Resp} (horder : m.returns → ∀ r ∈ rs'.dropLast, r.scode < 200) (ack : Req)
    (addr : TAddr) (checksum : Text) :
    CTr.Ok m { t.stopped with
      ack := some ack, state := .uack, ackRAddr := some addr, ackChecksum := checksum,
      teG := t.teG.arm } new fin' rs' n := by
  obtain ⟨hA, hB, hC, hG⟩ := h.stopped_live hs
  exact {
    fresh := fun hnew => absurd hnew (h.not_new htid)
    tightA := Lib.Timer.tight_of_live hA
    tightB := Lib.Timer.tight_of_live hB
    tightC := h.tightC
    tightG := Lib.Timer.tight_arm hG
    liveA := fun hl => absurd hA (Nat.pos_iff_ne_zero.mp hl)
    liveB := fun hl => absurd hB (Nat.pos_iff_ne_zero.mp hl)
    liveC := fun hl => absurd hC (Nat.pos_iff_ne_zero.mp hl)
    liveG := fun _ => ⟨rfl, htid⟩
    waits := fun _ heq => by cases heq
    states := .inr (.inr rfl)
    timed := fun _ _ ho => absurd rfl ho.ne_uack
    ready := fun _ => ⟨(h.ready htid).1, fun _ => by simp⟩
    gone := fun hnone => absurd hnone htid
    deferred := fun _ => rfl
    addressed := fun _ => ⟨by simp, fun _ => by simp⟩
    flagged := fun _ => huack
    frame := fun _ => .inl rfl
    r408 := h.r408
    cancels := h.cancels
    order := horder
    provisional := fun _ ho => absurd rfl ho.ne_uack
    kept := h.kept
    removed := h.removed }

theorem timedOut (h : t.Ok m new fin rs n) (hlive : 0 < t.teB.live) {fin' : Prop}
    {rs' : List Resp} (hfin : ¬ fin') (horder : m.returns → ∀ r ∈ rs'.dropLast, r.scode < 200) :
    CTr.Ok m { t with
      teB := t.teB.fire, teA := t.teA.cancel, state := .terminated, teC := t.teC.arm }
      new fin' rs' n := by
  obtain ⟨hs, htid, -⟩ := h.liveB hlive
  have hA := h.tightA.cancel_live
  have hB := h.tightB.fire_live
  obtain ⟨-, -, hC, hG⟩ := h.stopped_live hs
  exact {
    fresh := fun hnew => absurd hnew (h.not_new htid)
    tightA := Lib.Timer.tight_of_live hA
    tightB := Lib.Timer.tight_of_live hB
    tightC := Lib.Timer.tight_arm hC
    tightG := h.tightG
    liveA := fun hl => absurd hA (Nat.pos_iff_ne_zero.mp hl)
    liveB := fun hl => absurd hB (Nat.pos_iff_ne_zero.mp hl)
    liveC := fun _ => ⟨rfl, htid⟩
    liveG := fun hl => absurd hG (Nat.pos_iff_ne_zero.mp hl)
    waits := fun _ _ => Nat.succ_pos _
    states := .inr (.inl rfl)
    timed := fun _ _ ho => absurd rfl ho.ne_terminated
    ready := h.ready
    gone := h.gone
    deferred := fun ha => absurd (h.deferred ha) hs.ne_uack
    addressed := fun heq => by cases heq
    flagged := fun heq => by cases heq
    frame := fun hf => absurd hf hfin
    r408 := h.r408
    cancels := h.cancels
    order := horder
    provisional := fun _ ho => absurd rfl ho.ne_terminated
    kept := h.kept
    removed := h.removed }

/-- The callback of the final response is over and leaves the transaction as it is. -/
theorem ended (h : t.Ok m new fin rs n) {fin' : Prop} (hfin : ¬ fin')
    (hs : t.state = .uack ∨ t.tid = none ∨ ¬ m.returns) : t.Ok m new fin' rs n := by
  have hnot : m.returns → t.open → t.tid ≠ none → False := by
    intro hr ho htid
    rcases hs with hs | hs | hs
    · exact ho.ne_uack hs
    · exact htid hs
    · exact hs hr
  exact { h with
    fresh := fun hnew => ⟨(h.fresh hnew).1, (h.fresh hnew).2.1, hfin, (h.fresh hnew).2.2.2⟩
    liveA := fun hl => ⟨(h.liveA hl).1, (h.liveA hl).2.1, hfin⟩
    liveB := fun hl => ⟨(h.liveB hl).1, (h.liveB hl).2.1, hfin⟩
    timed := fun _ hr ho htid => (hnot hr ho htid).elim
    frame := fun hf => absurd hf hfin
    provisional := fun hr ho htid => (hnot hr ho htid).elim }

end CTr.Ok

theorem not_delivering {v : CView} {c : ℕ} (h : v.cb = none) : ¬ v.delivering c := by
  rintro ⟨resp, hcb⟩
  simp [h] at hcb

namespace ClientInv
variable {env : Env} {m : CMode} {v v' : CView}

/-- A move that concerns the transaction `c` only. -/
theorem of_slot (h : ClientInv env m v) {c : ℕ} {t : CTr} {d : Dict CTid ℕ}
    {b : Option Frame} {l : List Act}
    (hview : v' = { v with
      cheap := modifyAt v.cheap c fun _ => t, tclient := d, cb := b, log := v.log ++ l })
    (htab : ∀ k c', c' ≠ c → (d k = some c' ↔ v.tclient k = some c'))
    (hown : ∀ k, d k = some c ↔ t.tid = some k)
    (has : ∀ c', c' ≠ c → ∀ a ∈ l, a.beside c' = true)
    (hcb : ∀ c', c' ≠ c → (v'.delivering c' ↔ v.delivering c'))
    (hok : t.Ok m (v.cnext ≤ c) (v'.delivering c) (responses c v.log ++ responses c l)
      (removals c v.log + removals c l))
    (horigin : ∀ resp, .response c resp ∈ l →
      Answered env v.log resp ∨ ∃ msg : Req, resp = msg.genResponse 408 TM.requestTimeout [])
    (hacked : v'.delivering c → t.open → t.needack = true → Acked c (v.log ++ l))
    (hsum : t.ackRAddr ≠ none → SumOfResponse env v.log t.ackChecksum) : ClientInv env m v' := by
  subst hview
  refine ⟨⟨fun k c' => ?_, fun c' hge => ?_⟩, fun c' => ?_, fun c' resp hmem => ?_, fun c' => ?_,
    fun c' => ?_⟩
  · by_cases hc : c' = c
    · subst hc; simpa using hown k
    · dsimp only
      rw [Lib.modifyAt_other _ _ hc]
      exact (htab k c' hc).trans (h.link.keyed k c')
  · by_cases hc : c' = c
    · subst hc; simpa using (hok.fresh hge).1
    · dsimp only
      rw [Lib.modifyAt_other _ _ hc]
      exact h.link.beyond c' hge
  · by_cases hc : c' = c
    · subst hc; simpa using hok
    · dsimp only
      rw [Lib.modifyAt_other _ _ hc, responses_append, removals_append,
        responses_beside (has c' hc), removals_beside (has c' hc), propext (hcb c' hc)]
      simpa using h.slot c'
  · rcases List.mem_append.mp hmem with hold | hnew
    · exact (h.origin c' resp hold).imp_left fun ha => ha.append l
    · by_cases hc : c' = c
      · subst hc
        exact (horigin resp hnew).imp_left fun ha => ha.append l
      · simpa [Act.beside] using has c' hc _ hnew
  · by_cases hc : c' = c
    · subst hc; simpa using hacked
    · dsimp only
      rw [Lib.modifyAt_other _ _ hc, propext (hcb c' hc)]
      exact fun hd ho hn => (h.acked c' hd ho hn).append l
  · by_cases hc : c' = c
    · subst hc
      simpa using fun ha => (hsum ha).append l
    · dsimp only
      rw [Lib.modifyAt_other _ _ hc]
      exact fun ha => (h.sums c' ha).append l

theorem of_keep (h : ClientInv env m v) {c : ℕ} {f : CTr → CTr} {b : Option Frame}
    {l : List Act} (hview : v' = { v with
      cheap := modifyAt v.cheap c f, cb := b, log := v.log ++ l })
    (htid : (f (v.cheap c)).tid = (v.cheap c).tid)
    (has : ∀ c', c' ≠ c → ∀ a ∈ l, a.beside c' = true)
    (hcb : ∀ c', c' ≠ c → (v'.delivering c' ↔ v.delivering c'))
    (hok : (f (v.cheap c)).Ok m (v.cnext ≤ c) (v'.delivering c)
      (responses c v.log ++ responses c l) (removals c v.log + removals c l))
    (horigin : ∀ resp, .response c resp ∈ l →
      Answered env v.log resp ∨ ∃ msg : Req, resp = msg.genResponse 408 TM.requestTimeout [])
    (hacked : v'.delivering c → (f (v.cheap c)).open → (f (v.cheap c)).needack = true →
      Acked c (v.log ++ l))
    (hsum : (f (v.cheap c)).ackRAddr ≠ none →
      SumOfResponse env v.log (f (v.cheap c)).ackChecksum) : ClientInv env m v' :=
  h.of_slot (c := c) (t := f (v.cheap c)) (d := v.tclient) (b := b) (l := l) hview
    (fun _ _ _ => .rfl) (fun k => htid ▸ h.link.keyed k c) has hcb hok horigin hacked hsum

theorem of_timers (h : ClientInv env m v) {c : ℕ} {f : CTr → CTr} {l : List Act}
    (hview : v' = { v with cheap := modifyAt v.cheap c f, log := v.log ++ l })
    (htid : (f (v.cheap c)).tid = (v.cheap c).tid) (has : ∀ c', ∀ a ∈ l, a.beside c' = true)
    (hok : (f (v.cheap c)).Ok m (v.cnext ≤ c) (v.delivering c) (responses c v.log)
      (removals c v.log))
    (hopen : (f (v.cheap c)).open → (v.cheap c).open)
    (hneed : (f (v.cheap c)).needack = (v.cheap c).needack)
    (haddr : (f (v.cheap c)).ackRAddr = (v.cheap c).ackRAddr)
    (hsum : (f (v.cheap c)).ackChecksum = (v.cheap c).ackChecksum) : ClientInv env m v' := by
  refine h.of_keep hview htid (fun c' _ => has c') (fun c' _ => by subst hview; rfl) ?_
    (fun resp hmem => ?_) (fun hd ho hn => ?_) ?_
  · rw [responses_beside (has c), removals_beside (has c)]
    subst hview
    rw [List.append_nil, Nat.add_zero]
    exact hok
  · simpa [Act.beside] using has c _ hmem
  · subst hview
    exact (h.acked c hd (hopen ho) (hneed ▸ hn)).append l
  · rw [haddr, hsum]
    exact h.sums c

theorem of_remove (h : ClientInv env m v) {c : ℕ} {k : CTid} {f : CTr → CTr} {b : Option Frame}
    {l : List Act} (hview : v' = { v with
      cheap := modifyAt v.cheap c fun t => (f t).cleanup, tclient := v.tclient.del k, cb := b,
      log := v.log ++ (l ++ [.removed c]) })
    (htid : (v.cheap c).tid = some k) (has : ∀ c', ∀ a ∈ l, a.beside c' = true)
    (hcb : ∀ c', c' ≠ c → (v'.delivering c' ↔ v.delivering c'))
    (hfin : v'.delivering c → (v.cheap c).state = .uack)
    (hidle : (f (v.cheap c)).teA.live = 0 ∧ (f (v.cheap c)).teB.live = 0 ∧
      (f (v.cheap c)).teC.live = 0 ∧ (f (v.cheap c)).teG.live = 0)
    (hstate : (f (v.cheap c)).state = (v.cheap c).state)
    (haddr : (f (v.cheap c)).ackRAddr = (v.cheap c).ackRAddr)
    (huack : (f (v.cheap c)).uack = (v.cheap c).uack)
    (hsum : (f (v.cheap c)).ackChecksum = (v.cheap c).ackChecksum) : ClientInv env m v' := by
  have hslot := h.slot c
  have hin : v.tclient k = some c := (h.link.keyed k c).mpr htid
  have hne : (v.cheap c).tid ≠ none := by simp [htid]
  have has' : ∀ c', c' ≠ c → ∀ a ∈ l ++ [.removed c], a.beside c' = true := by
    intro c' hc a ha
    rcases List.mem_append.mp ha with ha | ha
    · exact has c' a ha
    · rw [List.mem_singleton.mp ha]; simpa [Act.beside] using hc.symm
  refine h.of_slot (c := c) (t := (f (v.cheap c)).cleanup) (d := v.tclient.del k) (b := b)
    (l := l ++ [Act.removed c]) hview (fun k' c' hc => Lib.Dict.del_eq_some_of_ne hin hc)
    (fun k' => ?_) has' hcb ?_ (fun resp hmem => ?_) (fun hd ho _ => ?_) (fun ha => ?_)
  · rw [Lib.Dict.del_eq_some]
    constructor
    · rintro ⟨hk', hin'⟩
      have := (h.link.keyed k' c).mp hin'
      exact absurd (Option.some.inj (this.symm.trans htid)) hk'
    · intro hnone
      cases hnone
  · have hresp : responses c (l ++ [.removed c]) = [] := by
      rw [responses_append, responses_beside (has c)]; rfl
    have hrem : removals c (l ++ [.removed c]) = 1 := by
      rw [removals_append, removals_beside (has c)]; simp [removals]
    rw [hresp, hrem, hslot.kept (.inl hne), List.append_nil, Nat.zero_add]
    exact hslot.cleanup (hslot.not_new hne) hidle.1 hidle.2.1 hidle.2.2.1 hidle.2.2.2 hstate haddr
      huack hfin
  · rcases List.mem_append.mp hmem with hmem | hmem
    · simpa [Act.beside] using has c _ hmem
    · simp at hmem
  · have ho : (v.cheap c).open := by simpa [CTr.open, CTr.cleanup, hstate] using ho
    exact absurd (hfin hd) ho.ne_uack
  · have hsum' := h.sums c (by simpa [CTr.cleanup, haddr] using ha)
    simpa [CTr.cleanup, hsum] using hsum'

theorem of_aside (h : ClientInv env m v) (ha : Aside v v') : ClientInv env m v' := by
  obtain ⟨as, has, hlog⟩ := ha.log
  have hbeside : ∀ c, ∀ a ∈ as, a.beside c = true := fun c a hmem =>
    Act.beside_of_ofClient (has a hmem) c
  have hcb : ∀ c, v'.delivering c ↔ v.delivering c := by
    intro c
    rcases ha.cb with hcb | ⟨hv, hv'⟩
    · simp [CView.delivering, hcb]
    · exact ⟨fun ⟨resp, hd⟩ => absurd ⟨_, hd, rfl⟩ hv', fun ⟨resp, hd⟩ => absurd ⟨_, hd, rfl⟩ hv⟩
  refine ⟨⟨fun k c => ?_, fun c => ?_⟩, fun c => ?_, fun c resp hmem => ?_, fun c => ?_,
    fun c => ?_⟩
  · rw [ha.tclient, ha.cheap]; exact h.link.keyed k c
  · rw [ha.cnext, ha.cheap]; exact h.link.beyond c
  · rw [ha.cheap, ha.cnext, hlog, propext (hcb c), responses_append, removals_append,
      responses_beside (hbeside c), removals_beside (hbeside c), List.append_nil, Nat.add_zero]
    exact h.slot c
  · rw [hlog] at hmem ⊢
    rcases List.mem_append.mp hmem with hold | hnew
    · exact (h.origin c resp hold).imp_left fun ha => ha.append as
    · simpa [Act.beside] using hbeside c _ hnew
  · rw [ha.cheap, hlog, propext (hcb c)]
    exact fun hd ho hn => (h.acked c hd ho hn).append as
  · rw [ha.cheap, hlog]
    exact fun haddr => (h.sums c haddr).append as

theorem of_start (h : ClientInv env m v) {t : CTr} {k : CTid} (ht : t.Fresh k)
    (hfree : v.tclient k = none) : ClientInv env m (v.started t k) := by
  have hnew := (h.slot v.cnext).fresh (Nat.le_refl _)
  have hold : ∀ c, c ≠ v.cnext → (v.started t k).cheap c = v.cheap c := fun c hc =>
    Function.update_of_ne hc _ _
  have hself : (v.started t k).cheap v.cnext = t := Function.update_self ..
  refine ⟨⟨fun k' c => ?_, fun c hge => ?_⟩, fun c => ?_, h.origin, fun c => ?_, fun c => ?_⟩
  · show v.tclient.set k v.cnext k' = some c ↔ _
    rw [Lib.Dict.set_eq_some]
    by_cases hc : c = v.cnext
    · subst hc
      rw [hself, ht.tid]
      constructor
      · rintro (⟨rfl, -⟩ | ⟨-, hk'⟩)
        · rfl
        · simp [(h.link.keyed k' _).mp hk'] at hnew
      · intro heq
        exact .inl ⟨(Option.some.inj heq).symm, rfl⟩
    · rw [hold c hc, ← h.link.keyed k' c]
      constructor
      · rintro (⟨-, heq⟩ | ⟨-, hk'⟩)
        · exact absurd heq.symm hc
        · exact hk'
      · intro hk'
        refine .inr ⟨?_, hk'⟩
        rintro rfl
        simp [hfree] at hk'
  · have hge : v.cnext + 1 ≤ c := hge
    rw [hold c (by omega)]
    exact h.link.beyond c (by omega)
  · by_cases hc : c = v.cnext
    · subst hc
      rw [hself]
      have hrs := hnew.2.2.2
      have hn := (h.slot v.cnext).kept (.inr (Nat.le_refl _))
      have hnf : ¬ (v.started t k).delivering v.cnext := hnew.2.2.1
      have htid : t.tid ≠ none := by simp [ht.tid]
      refine {
        fresh := fun hge => absurd hge (Nat.not_succ_le_self _)
        tightA := ht.teA ▸ Lib.Timer.tight_arm rfl
        tightB := ht.teB ▸ Lib.Timer.tight_arm rfl
        tightC := ht.teC ▸ Lib.Timer.tight_off
        tightG := ht.teG ▸ Lib.Timer.tight_off
        liveA := fun _ => ⟨ht.state, htid, hnf⟩
        liveB := fun _ => ⟨.inl ht.state, htid, hnf⟩
        liveC := fun hl => by simp [ht.teC] at hl
        liveG := fun hl => by simp [ht.teG] at hl
        waits := fun _ hs => by simp [ht.state] at hs
        states := .inl (.inl ht.state)
        timed := fun _ _ _ _ _ => by simp [ht.teB]
        ready := fun _ => ⟨ht.userv, ht.ack⟩
        gone := fun hnone => absurd hnone htid
        deferred := fun ha => absurd ht.ackRAddr ha
        addressed := fun hs => by simp [ht.state] at hs
        flagged := fun hs => by simp [ht.state] at hs
        frame := fun hf => absurd hf hnf
        r408 := ht.r408
        cancels := ht.cancel
        order := fun _ r hr => ?_
        provisional := fun _ _ _ _ r hr => ?_
        kept := fun _ => hn
        removed := fun hnone => absurd hnone htid }
      · simp [CView.started, hrs] at hr
      · simp [CView.started, hrs] at hr
    · rw [hold c hc]
      have hle : ((v.started t k).cnext ≤ c) = (v.cnext ≤ c) := by
        simp only [CView.started, eq_iff_iff]
        omega
      rw [hle]
      exact h.slot c
  · by_cases hc : c = v.cnext
    · subst hc
      exact fun hd => absurd hd hnew.2.2.1
    · rw [hold c hc]
      exact h.acked c
  · by_cases hc : c = v.cnext
    · subst hc
      rw [hself]
      exact fun ha => absurd ht.ackRAddr ha
    · rw [hold c hc]
      exact h.sums c

theorem of_cb (h : ClientInv env m v) {cb : Option Frame}
    (hcb : ∀ c, (CView.delivering { v with cb := cb } c ↔ v.delivering c)) :
    ClientInv env m { v with cb := cb } := by
  refine ⟨⟨h.link.keyed, h.link.beyond⟩, fun c => ?_, h.origin, fun c hd => ?_, h.sums⟩
  · rw [propext (hcb c)]
    exact h.slot c
  · exact h.acked c ((hcb c).mp hd)

theorem move (h : ClientInv env m v) (hm : CMove env m v v') : ClientInv env m v' := by
  cases hm with
  | aside ha => exact h.of_aside ha
  | returned c hcb =>
    refine h.of_cb fun c' => ⟨fun hd => absurd hd (not_delivering rfl), ?_⟩
    rintro ⟨resp, hd⟩
    rcases hcb with hcb | hcb <;> simp [hcb] at hd
  | start t k ht hfree => exact h.of_start ht hfree
  | touch c f hf =>
    refine h.of_timers (l := []) (by simp) hf.tid (by simp) ((h.slot c).same hf) ?_ hf.needack
      hf.ackRAddr hf.ackChecksum
    simp [CTr.open, hf.state]
  | ring c pending hcb hs htid =>
    exact h.of_timers (c := c) (f := CTr.rung pending) (l := []) (by simp) rfl (by simp)
      ((h.slot c).rung hs htid (not_delivering hcb) pending) (fun _ => hs) rfl rfl rfl
  | tell c resp hcb hs htid hcode horigin =>
    have hnf : ¬ v.delivering c := not_delivering hcb
    have hno : ∀ c', ¬ CView.delivering { v with
        cb := some (.provisional c), log := v.log ++ [.response c resp] } c' := by
      rintro c' ⟨resp', hd⟩
      cases hd
    refine h.of_keep (c := c) (f := id) (l := [.response c resp]) (by rw [Lib.modifyAt_id]) rfl
      (by intro c' hc; simpa [Act.beside] using hc.symm) (fun c' _ => ⟨fun hd => absurd hd (hno c'),
        fun hd => absurd hd (not_delivering hcb)⟩) ?_ (by simp; exact .inl horigin)
      (fun hd => absurd hd (hno c)) (h.sums c)
    rw [propext ⟨fun hd => absurd hd (hno c), fun hd => absurd hd hnf⟩]
    simpa [responses, removals] using (h.slot c).told (.inr hs) htid hnf hcode
  | stall c state ack hcb hs htid hstate hack hcalm =>
    have hnf : ¬ v.delivering c := not_delivering hcb
    have hok := h.slot c
    refine h.of_timers (c := c) (f := fun t => { t.stopped with state := state t.state, ack := ack })
      (l := []) (by simp) rfl (by simp) (hok.stopped hs htid ?_ hack (fun hc => absurd hc hcalm)
        hok.order fun hr hf => hok.provisional hr hs htid hf) (fun _ => hs) rfl rfl rfl
    rcases hstate with rfl | rfl
    · exact hs
    · exact .inr rfl
  | answer c ack as resp hcb hs htid hack hcode horigin has =>
    have hok := h.slot c
    have hnf : ¬ v.delivering c := not_delivering hcb
    have hbeside : ∀ c', ∀ a ∈ as, a.beside c' = true := has.beside
    refine h.of_keep (c := c) (f := fun t => { t.stopped with ack := ack })
      (l := as ++ [.response c resp]) rfl rfl ?_ (fun c' hc => ⟨fun hd => ?_, fun hd =>
        absurd hd (not_delivering hcb)⟩) ?_ (fun r hmem => ?_) (fun _ _ hneed => ?_)
      fun ha => h.sums c ha
    · intro c' hc a ha
      rcases List.mem_append.mp ha with ha | ha
      · exact hbeside c' a ha
      · rw [List.mem_singleton.mp ha]; simpa [Act.beside] using hc.symm
    · obtain ⟨r, hd⟩ := hd
      cases hd
      exact absurd rfl hc
    · rw [responses_append, removals_append, responses_beside (hbeside c),
        removals_beside (hbeside c)]
      refine hok.stopped hs htid hs hack (fun _ _ => ⟨resp, rfl⟩) (fun hr r hmem => ?_)
        fun _ hf => absurd ⟨resp, rfl⟩ hf
      simp only [responses, List.filterMap_cons, if_true, List.filterMap_nil, List.nil_append,
        List.dropLast_concat] at hmem
      exact hok.provisional hr hs htid hnf r hmem
    · rcases List.mem_append.mp hmem with hmem | hmem
      · simpa [Act.beside] using hbeside c _ hmem
      · cases List.mem_singleton.mp hmem
        exact .inl horigin
    · obtain ⟨u, data, addr, rfl⟩ : ∃ u data addr, as = [.sent (.ack c) u data addr] := by
        have hneed : (v.cheap c).needack = true := hneed
        simpa [AckSent, hneed] using has
      exact ⟨u, data, addr, by simp⟩
  | answerMute c k ack as hcb hs htid has =>
    exact h.of_remove (c := c) (k := k) (f := fun t => { t.stopped with ack := ack }) (b := v.cb)
      (l := as) rfl htid has.beside (fun _ _ => .rfl) (fun hd => absurd hd (not_delivering hcb))
      ((h.slot c).stopped_live hs) rfl rfl rfl rfl
  | defer c ack addr checksum cb as hcb hs htid huack horigin has =>
    have hok := h.slot c
    have hnf : ¬ v.delivering c := not_delivering hcb
    have hprov := fun hr => hok.provisional hr hs htid hnf
    refine h.of_keep (c := c) (f := fun t => { t.stopped with
      ack := some ack, state := .uack, ackRAddr := some addr, ackChecksum := checksum,
      teG := t.teG.arm }) (b := cb) (l := as) rfl rfl ?_ (fun c' hc => ⟨fun hd => ?_,
        fun hd => absurd hd (not_delivering hcb)⟩) ?_ (fun r hmem => ?_)
      (fun _ ho => absurd rfl ho.ne_uack) fun _ => horigin
    · rcases has with ⟨-, rfl⟩ | ⟨resp, -, -, -, rfl⟩
      · simp
      · intro c' hc; simpa [Act.beside] using hc.symm
    · obtain ⟨r, hd⟩ := hd
      rcases has with ⟨rfl, -⟩ | ⟨resp, -, -, rfl, -⟩
      · cases hd
      · cases hd
        exact absurd rfl hc
    · have hn : removals c as = 0 := by
        rcases has with ⟨-, rfl⟩ | ⟨resp, -, -, -, rfl⟩ <;> simp [removals]
      rw [hn, Nat.add_zero]
      refine hok.uacked hs htid huack (fun hr r hmem => ?_) ack addr checksum
      rcases has with ⟨-, rfl⟩ | ⟨resp, -, -, -, rfl⟩
      · exact hok.order hr r (by simpa [responses] using hmem)
      · exact hprov hr r (by simpa [responses] using hmem)
    · rcases has with ⟨-, rfl⟩ | ⟨resp, -, ha, -, rfl⟩
      · simp at hmem
      · cases List.mem_singleton.mp hmem
        exact .inl ha
  | finish c resp k hcb hs htid =>
    have hok := h.slot c
    have hfin : v.delivering c := ⟨resp, hcb⟩
    obtain ⟨ho, -⟩ := (hok.frame hfin).resolve_left hs
    refine h.of_remove (c := c) (k := k) (f := id) (b := none) (l := []) rfl htid (by simp)
      (fun c' hc => ⟨fun hd => absurd hd (not_delivering rfl), fun hd => ?_⟩)
      (fun hd => absurd hd (not_delivering rfl)) ⟨?_, ?_, ?_, ?_⟩ rfl rfl rfl rfl
    · obtain ⟨r, hd⟩ := hd
      cases hcb.symm.trans hd
      exact absurd rfl hc
    · by_contra hl
      exact (hok.liveA (Nat.pos_of_ne_zero hl)).2.2 hfin
    · by_contra hl
      exact (hok.liveB (Nat.pos_of_ne_zero hl)).2.2 hfin
    · exact (hok.stopped_live ho).2.2.1
    · exact (hok.stopped_live ho).2.2.2
  | finishLost c resp hcb hs =>
    have hnone : ¬ CView.delivering { v with cb := none } c := not_delivering rfl
    refine h.of_keep (c := c) (f := id) (b := none) (l := []) (by simp [Lib.modifyAt_id]) rfl
      (by simp) (fun c' hc => ⟨fun hd => absurd hd (not_delivering rfl), fun hd => ?_⟩) ?_
      (by simp) (fun hd => absurd hd hnone) (h.sums c)
    · obtain ⟨r, hd⟩ := hd
      cases hcb.symm.trans hd
      exact absurd rfl hc
    · simpa [responses, removals] using (h.slot c).ended hnone hs
  | expireB c cb as hcb hlive has =>
    have hok := h.slot c
    obtain ⟨hs, htid, hnf⟩ := hok.liveB hlive
    have hnone : ∀ c', ¬ CView.delivering { v with
        cheap := modifyAt v.cheap c fun t => { t with
          teB := t.teB.fire, teA := t.teA.cancel, state := .terminated, teC := t.teC.arm }
        cb := cb
        log := v.log ++ as } c' := by
      rintro c' ⟨r, hd⟩
      rcases has with ⟨rfl, -⟩ | ⟨resp, -, rfl, -⟩ <;> cases hd
    refine h.of_keep (c := c) (b := cb) (l := as) rfl rfl ?_
      (fun c' hc => ⟨fun hd => absurd hd (hnone c'), fun hd => absurd hd (not_delivering hcb)⟩) ?_
      (fun r hmem => ?_) (fun hd => absurd hd (hnone c)) fun ha => h.sums c ha
    · rcases has with ⟨-, rfl⟩ | ⟨resp, -, -, rfl⟩
      · simp
      · intro c' hc; simpa [Act.beside] using hc.symm
    · have hn : removals c as = 0 := by
        rcases has with ⟨-, rfl⟩ | ⟨resp, -, -, rfl⟩ <;> simp [removals]
      rw [hn, Nat.add_zero]
      refine hok.timedOut hlive (hnone c) fun hr r hmem => ?_
      rcases has with ⟨-, rfl⟩ | ⟨resp, -, -, rfl⟩
      · exact hok.order hr r (by simpa [responses] using hmem)
      · exact hok.provisional hr hs htid hnf r (by simpa [responses] using hmem)
    · rcases has with ⟨-, rfl⟩ | ⟨resp, h408, -, rfl⟩
      · simp at hmem
      · cases List.mem_singleton.mp hmem
        exact .inr (hok.r408 _ h408)
  | expireC c k hlive htid =>
    have hok := h.slot c
    obtain ⟨hs, -⟩ := hok.liveC hlive
    refine h.of_remove (c := c) (k := k) (f := fun t => { t with teC := t.teC.fire }) (b := v.cb)
      (l := []) rfl htid (by simp) (fun _ _ => .rfl) (fun hd => ?_) ⟨?_, ?_, ?_, ?_⟩ rfl rfl rfl rfl
    · rcases hok.frame hd with hu | ⟨ho, -⟩
      · exact hu
      · exact absurd hs ho.ne_terminated
    · by_contra hl
      have hA := (hok.liveA (Nat.pos_of_ne_zero hl)).1
      simp [hs] at hA
    · by_contra hl
      exact (hok.liveB (Nat.pos_of_ne_zero hl)).1.ne_terminated hs
    · exact hok.tightC.fire_live
    · by_contra hl
      have hG := (hok.liveG (Nat.pos_of_ne_zero hl)).1
      simp [hs] at hG
  | expireCLost c hlive htid => exact absurd htid ((h.slot c).liveC hlive).2
  | expireA c rearm hlive hr =>
    have hok := h.slot c
    have hA := hok.liveA hlive
    refine h.of_timers (c := c) (f := fun t => { t with teA := rearm t.teA.fired }) (l := [])
      (by simp) rfl (by simp) ?_ id rfl rfl rfl
    exact { hok with
      tightA := by
        rcases hr with rfl | rfl
        · exact Lib.Timer.tight_of_live hok.tightA.fired_live
        · exact Lib.Timer.tight_arm hok.tightA.fired_live
      liveA := fun _ => hA }
  | expireG c hlive =>
    have hok := h.slot c
    have hG := hok.tightG.fire_live
    refine h.of_timers (c := c) (f := fun t => { t with teG := t.teG.fire }) (l := [])
      (by simp) rfl (by simp) ?_ id rfl rfl rfl
    exact { hok with
      tightG := Lib.Timer.tight_of_live hG
      liveG := fun hl => absurd hG (Nat.pos_iff_ne_zero.mp hl) }
  | sendAckEarly c haddr =>
    exact h.of_timers (c := c) (f := id) (l := [.callSendACK c]) (by rw [Lib.modifyAt_id]) rfl
      (by simp [Act.beside]) (h.slot c) id rfl rfl rfl
  | sendAckFailed c haddr =>
    have hok := h.slot c
    have hG := hok.tightG.cancel_live
    refine h.of_timers (c := c) (l := [.callSendACK c]) rfl rfl (by simp [Act.beside]) ?_ id rfl
      rfl rfl
    exact { hok with
      tightG := Lib.Timer.tight_of_live hG
      liveG := fun hl => absurd hG (Nat.pos_iff_ne_zero.mp hl) }
  | sendAck c k u ack addr haddr hack htid =>
    have hok := h.slot c
    have hs := hok.deferred (by simp [haddr])
    refine h.of_remove (c := c) (k := k) (f := fun t => { t with teG := t.teG.cancel }) (b := v.cb)
      (l := [.callSendACK c, .sent (.sendACK c) u (env.reqStr ack u (v.cheap c).compact) addr])
      rfl htid (by simp [Act.beside]) (fun _ _ => .rfl) (fun _ => hs) ⟨?_, ?_, ?_, ?_⟩ rfl rfl rfl rfl
    · by_contra hl
      have hA := (hok.liveA (Nat.pos_of_ne_zero hl)).1
      simp [hs] at hA
    · by_contra hl
      exact (hok.liveB (Nat.pos_of_ne_zero hl)).1.ne_uack hs
    · by_contra hl
      have hC := (hok.liveC (Nat.pos_of_ne_zero hl)).1
      simp [hs] at hC
    · exact hok.tightG.cancel_live
  | sendAckLost c u data addr haddr htid hack => exact absurd ((h.slot c).gone htid) hack

theorem moves (h : ClientInv env m v) (hm : CMoves env m v v') : ClientInv env m v' := by
  induction hm with
  | refl => exact h
  | tail _ hmove ih => exact ih.move hmove

theorem step {tm : TM} {l : Label} (h : ClientInv env m tm.cview) (hkept : TM.Kept env m tm l) :
    ClientInv env m (TM.step env tm l).cview := h.moves (TM.step_cmoves h.link hkept)

theorem init (env : Env) (m : CMode) (natTraversal : Bool) (provisionalRetr : ℕ) (reqCb : Bool) :
    ClientInv env m (TM.init natTraversal provisionalRetr reqCb).cview := by
  refine ⟨⟨fun k c => ?_, fun c _ => rfl⟩, fun c => ?_, fun c resp hmem => ?_, fun c hd => ?_,
    fun c ha => absurd rfl ha⟩
  · constructor
    · intro hk; cases hk
    · intro hk; cases hk
  · have hnf : ¬ (TM.init natTraversal provisionalRetr reqCb).cview.delivering c :=
      not_delivering rfl
    exact {
      fresh := fun _ => ⟨rfl, rfl, hnf, rfl⟩
      tightA := Lib.Timer.tight_off
      tightB := Lib.Timer.tight_off
      tightC := Lib.Timer.tight_off
      tightG := Lib.Timer.tight_off
      liveA := fun hl => absurd hl (Nat.lt_irrefl 0)
      liveB := fun hl => absurd hl (Nat.lt_irrefl 0)
      liveC := fun hl => absurd hl (Nat.lt_irrefl 0)
      liveG := fun hl => absurd hl (Nat.lt_irrefl 0)
      waits := fun hne => absurd rfl hne
      states := .inr (.inl rfl)
      timed := fun _ _ _ hne => absurd rfl hne
      ready := fun hne => absurd rfl hne
      gone := fun _ => rfl
      deferred := fun ha => absurd rfl ha
      addressed := fun hs => by cases hs
      flagged := fun hs => by cases hs
      frame := fun hf => absurd hf hnf
      r408 := fun r hr => by cases hr
      cancels := fun r hr => by cases hr
      order := fun _ r hr => by cases hr
      provisional := fun _ _ hne => absurd rfl hne
      kept := fun _ => rfl
      removed := fun _ hn => absurd (Nat.zero_le c) hn }
  · cases hmem
  · exact absurd hd (not_delivering rfl)

theorem run (env : Env) (natTraversal : Bool) (provisionalRetr : ℕ) (reqCb : Bool)
    (ls : List Label) : ClientInv env ⟨False, False⟩
      (Lib.run (TM.step env) (TM.init natTraversal provisionalRetr reqCb) ls).cview :=
  Lib.run_invariant (I := fun tm : TM => ClientInv env ⟨False, False⟩ tm.cview)
    (fun _ _ hI => hI.step ⟨False.elim, False.elim⟩)
    (ClientInv.init env _ natTraversal provisionalRetr reqCb) ls

end ClientInv

def CTr.idle (t : CTr) : Prop :=
  t.teA.live = 0 ∧ t.teB.live = 0 ∧ t.teC.live = 0 ∧ t.teG.live = 0

namespace TM

/-- The callback of a final response does not raise. -/
def FinalReturns (tm : TM) (l : Label) : Prop :=
  ∀ c resp e rnd, tm.cb = some (.final c resp) → l ≠ .ret (.raise e) rnd

end TM

namespace Sample

def replyEnv : Env := env [] [(replyText 180, reply 180), (replyText 200, reply 200)]

def answered : List Label :=
  [startInvite, .recv (dgram (replyText 180)), .ret (.value .none) [],
    .recv (dgram (replyText 200)), .ret (.value .none) []]

end Sample

/-- The upper layer will send the ACK of the answer itself, and timer G runs out before it does. -/
def Sample.unacked : List Label :=
  [Sample.startInvite, .call (.setUack 0), .recv (Sample.dgram (Sample.replyText 180)), .ret (.value .none) [],
    .recv (Sample.dgram (Sample.replyText 200)), .ret (.value .none) [], .fire .clientG 0 []]

end SippyB2bua.Manager
