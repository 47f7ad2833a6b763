import SippyB2bua.Manager.ServerMoves

/-!
# One final response for each server transaction

Final responses come from the upper layer, from a CANCEL and from the expiry
timer. Whatever the order, a transaction completes at most once, the completion
directly follows the transmission of the final response, and from then on the
only thing that is sent for it is that response again.
-/

namespace SippyB2bua.Manager
open Lib (Text Dict Timer modifyAt run run_invariant)

/-- What may be logged after the transaction `s` was completed with `data`. -/
def Act.followsFinal (a : Act) (s : ℕ) (data : Text) : Prop :=
  match a with
  | .completed s' _ _ => s' ≠ s
  | .sent (.response s' _) _ _ _ => s' ≠ s
  | .discarded (.response s' _) _ => s' ≠ s
  | .sent (.timerF s') _ _ _ => s' ≠ s
  | .discarded (.timerF s') _ => s' ≠ s
  | .sent (.timerA s') _ data' _ => s' = s → data' = data
  | .discarded (.timerA s') data' => s' = s → data' = data
  | _ => True

/-- Nothing but the final response follows a completion. -/
def FinalOnce (log : List Act) : Prop :=
  log.Pairwise fun a b => ∀ s key data, a = .completed s key data → b.followsFinal s data

/-- A completion directly follows its final response, and the other way round. -/
def FinalSent (log : List Act) : Prop :=
  (∀ s key data, .completed s key data ∈ log →
    ∃ a scode, 200 ≤ scode ∧ a.answers s scode data ∧ [a, .completed s key data] <:+: log) ∧
  (∀ a s scode data, a ∈ log → 200 ≤ scode → a.answers s scode data →
    ∃ key, [a, .completed s key data] <:+: log)

/-- Entries that are no transmission for a server transaction and no completion. -/
def Act.silent : Act → Bool
  | .sent o _ _ _ => !o.ofServer
  | .discarded o _ => !o.ofServer
  | .completed _ _ _ => false
  | _ => true

theorem Act.silent_of_ofServer {a : Act} (h : a.ofServer = false) : a.silent = true := by
  cases a <;> simp_all [Act.ofServer, Act.silent]

theorem Act.followsFinal_of_silent {a : Act} (h : a.silent = true) (s : ℕ) (data : Text) :
    a.followsFinal s data := by
  cases a with
  | sent o u d addr => cases o <;> simp_all [Act.silent, Origin.ofServer, Act.followsFinal]
  | discarded o d => cases o <;> simp_all [Act.silent, Origin.ofServer, Act.followsFinal]
  | completed s' k d => simp [Act.silent] at h
  | _ => trivial

theorem Act.answers.not_silent {a : Act} {s : ℕ} {scode : ℤ} {data : Text}
    (h : a.answers s scode data) : a.silent = false := by
  rcases h with ⟨u, addr, rfl⟩ | rfl <;> rfl

theorem Act.answers.followsFinal {a : Act} {s s' : ℕ} {scode : ℤ} {data data' : Text}
    (h : a.answers s scode data) (hne : s ≠ s') : a.followsFinal s' data' := by
  rcases h with ⟨u, addr, rfl⟩ | rfl <;> exact hne

theorem Act.answers.ne_completed {a : Act} {s s' : ℕ} {scode : ℤ} {data data' : Text}
    {key : STid} (h : a.answers s scode data) : a ≠ .completed s' key data' := by
  rcases h with ⟨u, addr, rfl⟩ | rfl <;> simp

theorem Act.answers.unique {a : Act} {s s' : ℕ} {scode scode' : ℤ} {data data' : Text}
    (h : a.answers s scode data) (h' : a.answers s' scode' data') :
    s = s' ∧ scode = scode' ∧ data = data' := by
  rcases h with ⟨u, addr, rfl⟩ | rfl <;> rcases h' with ⟨u', addr', h⟩ | h <;> simp_all

theorem FinalOnce.append {log as : List Act} (h : FinalOnce log) (has : FinalOnce as)
    (hacross : ∀ s key data, .completed s key data ∈ log → ∀ b ∈ as, b.followsFinal s data) :
    FinalOnce (log ++ as) := by
  refine List.pairwise_append.mpr ⟨h, has, ?_⟩
  rintro a ha b hb s key data rfl
  exact hacross s key data ha b hb

theorem FinalOnce.silent {as : List Act} (h : ∀ a ∈ as, a.silent = true) : FinalOnce as := by
  refine List.pairwise_of_forall_mem_list ?_
  rintro a ha b hb s key data rfl
  exact Act.followsFinal_of_silent (h b hb) s data

theorem FinalSent.append {log as : List Act} (h : FinalSent log) (has : FinalSent as) :
    FinalSent (log ++ as) := by
  have left : ∀ {l : List Act}, l <:+: log → l <:+: log ++ as := fun h =>
    h.trans (List.prefix_append log as).isInfix
  have right : ∀ {l : List Act}, l <:+: as → l <:+: log ++ as := fun h =>
    h.trans (List.suffix_append log as).isInfix
  constructor
  · intro s key data hmem
    rcases List.mem_append.mp hmem with hmem | hmem
    · obtain ⟨a, scode, hcode, ha, hin⟩ := h.1 s key data hmem
      exact ⟨a, scode, hcode, ha, left hin⟩
    · obtain ⟨a, scode, hcode, ha, hin⟩ := has.1 s key data hmem
      exact ⟨a, scode, hcode, ha, right hin⟩
  · intro a s scode data hmem hcode ha
    rcases List.mem_append.mp hmem with hmem | hmem
    · obtain ⟨key, hin⟩ := h.2 a s scode data hmem hcode ha
      exact ⟨key, left hin⟩
    · obtain ⟨key, hin⟩ := has.2 a s scode data hmem hcode ha
      exact ⟨key, right hin⟩

theorem FinalSent.of_none {as : List Act} (h1 : ∀ s key data, .completed s key data ∉ as)
    (h2 : ∀ a ∈ as, ∀ s scode data, 200 ≤ scode → ¬ a.answers s scode data) : FinalSent as :=
  ⟨fun s key data hmem => absurd hmem (h1 s key data),
    fun a s scode data hmem hcode ha => absurd ha (h2 a hmem s scode data hcode)⟩

theorem FinalSent.silent {as : List Act} (h : ∀ a ∈ as, a.silent = true) : FinalSent as := by
  refine .of_none (fun s key data hmem => ?_) fun a ha s scode data _ hans => ?_
  · simpa [Act.silent] using h _ hmem
  · simpa [hans.not_silent] using h a ha

def STr.done (t : STr) : Prop := t.state = .completed ∨ t.state = .confirmed

theorem STr.open.not_done {t : STr} (h : t.open) : ¬ t.done := by
  rcases h.1 with h | h <;> simp [STr.done, h]

structure FinalInv (v : SView) : Prop where
  beyond : ∀ s, v.snext ≤ s → (v.sheap s).state = .confirmed
  kept : ∀ s key data, .completed s key data ∈ v.log →
    s < v.snext ∧ (v.sheap s).done ∧ (v.sheap s).data = some data
  once : FinalOnce v.log
  sent : FinalSent v.log

def STr.Keeps (t t' : STr) : Prop :=
  (t.done → t'.done ∧ t'.data = t.data) ∧ (t.state = .confirmed → t'.state = .confirmed)

theorem STr.Same.keeps {t t' : STr} (h : t.Same t') : t.Keeps t' := by
  simp only [STr.Keeps, STr.done, h.state, h.data]
  exact ⟨fun hd => ⟨hd, trivial⟩, id⟩

theorem STr.open.keeps {t t' : STr} (h : t.open) : t.Keeps t' :=
  ⟨fun hd => absurd hd h.not_done, fun hc => absurd (.inr hc) h.not_done⟩

theorem keeps_modifyAt {g : ℕ → STr} {s : ℕ} {f : STr → STr}
    (h : (g s).Keeps (f (g s))) (s' : ℕ) : (g s').Keeps (modifyAt g s f s') := by
  by_cases hs : s' = s
  · subst hs; simpa using h
  · rw [Lib.modifyAt_other _ _ hs]
    exact ⟨fun hd => ⟨hd, rfl⟩, id⟩

namespace FinalInv
variable {v v' : SView}

theorem kept_next (h : FinalInv v) {heap : ℕ → STr} (hheap : ∀ s, (v.sheap s).Keeps (heap s))
    {s : ℕ} {key : STid} {data : Text} (hmem : .completed s key data ∈ v.log) :
    s < v.snext ∧ (heap s).done ∧ (heap s).data = some data := by
  obtain ⟨hlt, hdone, hdata⟩ := h.kept s key data hmem
  obtain ⟨hdone', hdata'⟩ := (hheap s).1 hdone
  exact ⟨hlt, hdone', hdata'.trans hdata⟩

theorem of_silent (h : FinalInv v) {l : List Act} (has : ∀ a ∈ l, a.silent = true)
    (hlog : v'.log = v.log ++ l) (hnext : v'.snext = v.snext)
    (hheap : ∀ s, (v.sheap s).Keeps (v'.sheap s)) : FinalInv v' where
  beyond s hs := (hheap s).2 (h.beyond s (hnext ▸ hs))
  kept s key data hmem := by
    rcases List.mem_append.mp (hlog ▸ hmem) with hmem | hmem
    · exact hnext ▸ h.kept_next hheap hmem
    · simpa [Act.silent] using has _ hmem
  once := hlog ▸ h.once.append (.silent has) fun s key data _ b hb =>
    Act.followsFinal_of_silent (has b hb) s data
  sent := hlog ▸ h.sent.append (.silent has)

theorem open_lt (h : FinalInv v) {s : ℕ} (hs : (v.sheap s).open) : s < v.snext := by
  by_contra hge
  exact hs.not_done (.inr (h.beyond s (by omega)))

theorem ne_of_open (h : FinalInv v) {s s' : ℕ} {key : STid} {data : Text}
    (hs : (v.sheap s).open) (hmem : .completed s' key data ∈ v.log) : s ≠ s' := by
  rintro rfl
  exact hs.not_done (h.kept s key data hmem).2.1

theorem of_complete (h : FinalInv v) {s : ℕ} {key : STid} {scode : ℤ} {data : Text} {a : Act}
    {l : List Act} {f : STr → STr} (hs : (v.sheap s).open) (ha : a.answers s scode data) (hcode : 200 ≤ scode)
    (has : ∀ a ∈ l, a.silent = true)
    (hlog : v'.log = v.log ++ (a :: .completed s key data :: l)) (hnext : v'.snext = v.snext)
    (hf : v'.sheap = modifyAt v.sheap s f)
    (hdone : (f (v.sheap s)).state = .completed ∧ (f (v.sheap s)).data = some data) :
    FinalInv v' := by
  have hheap : ∀ s', (v.sheap s').Keeps (v'.sheap s') := hf ▸ keeps_modifyAt hs.keeps
  have hsilent : ∀ b ∈ l, ∀ s' key' data', b ≠ .completed s' key' data' := by
    rintro b hb s' key' data' rfl
    simpa [Act.silent] using has _ hb
  refine ⟨fun s' hs' => (hheap s').2 (h.beyond s' (hnext ▸ hs')), ?_, ?_, ?_⟩
  · intro s' key' data' hmem
    rcases List.mem_append.mp (hlog ▸ hmem) with hmem | hmem
    · exact hnext ▸ h.kept_next hheap hmem
    · rcases List.mem_cons.mp hmem with hmem | hmem
      · exact absurd hmem.symm ha.ne_completed
      · rcases List.mem_cons.mp hmem with hmem | hmem
        · cases hmem
          rw [hf, hnext, Lib.modifyAt_same]
          exact ⟨h.open_lt hs, .inl hdone.1, hdone.2⟩
        · exact absurd rfl (hsilent _ hmem _ _ _)
  · rw [hlog]
    refine h.once.append ?_ fun s' key' data' hmem b hb => ?_
    · refine List.pairwise_cons.mpr ⟨fun b _ s' key' data' heq => absurd heq ha.ne_completed, ?_⟩
      refine List.pairwise_cons.mpr ⟨fun b hb s' key' data' _ => Act.followsFinal_of_silent (has b hb) _ _, ?_⟩
      exact FinalOnce.silent has
    · have hne := h.ne_of_open hs hmem
      rcases List.mem_cons.mp hb with rfl | hb
      · exact ha.followsFinal hne
      · rcases List.mem_cons.mp hb with rfl | hb
        · exact hne
        · exact Act.followsFinal_of_silent (has b hb) _ _
  · rw [hlog]
    have hin : [a, .completed s key data] <:+: a :: .completed s key data :: l :=
      (List.prefix_append [a, .completed s key data] l).isInfix
    refine h.sent.append ⟨fun s' key' data' hmem => ?_, fun b s' scode' data' hmem hcode' hb => ?_⟩
    · rcases List.mem_cons.mp hmem with hmem | hmem
      · exact absurd hmem.symm ha.ne_completed
      · rcases List.mem_cons.mp hmem with hmem | hmem
        · cases hmem
          exact ⟨a, scode, hcode, ha, hin⟩
        · exact absurd rfl (hsilent _ hmem _ _ _)
    · rcases List.mem_cons.mp hmem with rfl | hmem
      · obtain ⟨rfl, rfl, rfl⟩ := ha.unique hb
        exact ⟨key, hin⟩
      · rcases List.mem_cons.mp hmem with rfl | hmem
        · exact absurd rfl hb.ne_completed
        · simpa [hb.not_silent] using has b hmem

theorem ackMove (h : FinalInv v) {s : ℕ} {c : Text} (hm : AckMove s c v v') : FinalInv v' := by
  cases hm with
  | broken hD =>
    exact h.of_silent (l := []) (by simp) (by simp) rfl
      (keeps_modifyAt ⟨fun _ => ⟨.inr rfl, rfl⟩, fun _ => rfl⟩)
  | lost hlost =>
    exact h.of_silent (l := [.delKeyError s]) (by simp [Act.silent]) rfl rfl
      (keeps_modifyAt ⟨fun _ => ⟨.inr rfl, rfl⟩, fun _ => rfl⟩)
  | call k g hk =>
    exact h.of_silent (l := [.ackCb s]) (by simp [Act.silent]) rfl rfl
      (keeps_modifyAt ⟨fun _ => ⟨.inr rfl, rfl⟩, fun _ => rfl⟩)
  | done k hk =>
    exact h.of_silent (l := []) (by simp) (by simp) rfl
      (keeps_modifyAt ⟨fun _ => ⟨.inr rfl, rfl⟩, fun _ => rfl⟩)

theorem move {env : Env} {m : Mode} (h : FinalInv v) (hm : SMove env m v v') : FinalInv v' := by
  cases hm with
  | quiet as cb l1 has hcb hl1 =>
    exact h.of_silent (fun a ha => Act.silent_of_ofServer (has a ha)) rfl rfl
      fun s => ⟨fun hd => ⟨hd, rfl⟩, id⟩
  | store t req htid hstate huserv hdata hmethod hack hA hD hnot horigin hfree hmiss hcancel =>
    refine ⟨fun s hs => ?_, fun s key data hmem => ?_, h.once, h.sent⟩
    · dsimp only at hs ⊢
      rw [Function.update_of_ne (by omega)]
      exact h.beyond s (by omega)
    · obtain ⟨hlt, hkept⟩ := h.kept s key data hmem
      dsimp only
      rw [Function.update_of_ne (by omega)]
      exact ⟨Nat.lt_succ_of_lt hlt, hkept⟩
  | askUpper s g hs =>
    exact h.of_silent (l := []) (by simp) (by simp) rfl fun s => ⟨fun hd => ⟨hd, rfl⟩, id⟩
  | touch s f hf =>
    exact h.of_silent (l := []) (by simp) (by simp) rfl (keeps_modifyAt hf.keeps)
  | draft s data addr hs hfail =>
    exact h.of_silent (l := []) (by simp) (by simp) rfl (keeps_modifyAt hs.keeps)
  | ring s scode r a teF hs ha hr hcode hcur =>
    have hheap := keeps_modifyAt (g := v.sheap) (s := s)
      (f := fun t => { t.drafted r with state := .ringing, teF := teF t.teF }) hs.keeps
    refine ⟨fun s' hs' => (hheap s').2 (h.beyond s' hs'), fun s' key data' hmem => ?_, ?_, ?_⟩
    · rcases List.mem_append.mp hmem with hmem | hmem
      · exact h.kept_next hheap hmem
      · exact absurd (List.mem_singleton.mp hmem).symm ha.ne_completed
    · refine h.once.append (List.pairwise_singleton _ a) fun s' key data' hmem b hb => ?_
      rw [List.mem_singleton.mp hb]
      exact ha.followsFinal (h.ne_of_open hs hmem)
    · refine h.sent.append (.of_none (fun s' key data' hmem => ?_) fun b hb s' scode' data' hc hb' =>
        ?_)
      · exact absurd (List.mem_singleton.mp hmem).symm ha.ne_completed
      · rw [List.mem_singleton.mp hb] at hb'
        obtain ⟨-, rfl, -⟩ := ha.unique hb'
        omega
  | completeKeep s k tag scode r a ackCb hs ha hr hcode hcur hack hk hfree =>
    exact h.of_complete (l := []) (f := fun t => { (t.drafted r).waitAck ackCb with
      tid := t.tid.map fun k => TM.rekey k tag, teA := t.teA.arm }) hs ha hcode (by simp) rfl rfl
      rfl ⟨rfl, rfl⟩
  | completeDrop s k key scode r a hs ha hr hcode hcur hack hk =>
    exact h.of_complete (l := []) (f := fun t => (t.drafted r).finished.cleanup) hs ha hcode
      (by simp) rfl rfl rfl ⟨rfl, rfl⟩
  | completeLost s key scode r a f hs ha hr hcode hcur hf hk =>
    refine h.of_complete (l := [.delKeyError s]) hs ha hcode (by simp [Act.silent]) rfl rfl
      rfl ?_
    rcases hf with hf | ⟨ackCb, hf⟩
    · simp [hf, STr.finished, STr.drafted]
    · simp [hf, STr.waitAck, STr.finished, STr.drafted]
  | expireD s k hlive hk =>
    exact h.of_silent (l := []) (by simp) (by simp) rfl
      (keeps_modifyAt ⟨fun hd => ⟨hd, rfl⟩, id⟩)
  | expireDLost s hlive hk =>
    exact h.of_silent (l := [.delKeyError s]) (by simp [Act.silent]) rfl rfl
      (keeps_modifyAt ⟨fun hd => ⟨hd, rfl⟩, id⟩)
  | noack s hlive hs =>
    exact h.of_silent (l := [.noackCb s]) (by simp [Act.silent]) rfl rfl
      (keeps_modifyAt ⟨fun hd => ⟨hd, rfl⟩, id⟩)
  | afterNoack s k hcb hk =>
    exact h.of_silent (l := []) (by simp) (by simp) rfl
      (keeps_modifyAt ⟨fun hd => ⟨hd, rfl⟩, id⟩)
  | afterNoackLost s hcb hk =>
    exact h.of_silent (l := [.delKeyError s]) (by simp [Act.silent]) rfl rfl
      fun s => ⟨fun hd => ⟨hd, rfl⟩, id⟩
  | retransA s u data addr hlive hu hdata =>
    have hheap := keeps_modifyAt (g := v.sheap) (s := s)
      (f := fun t => { t with teA := t.teA.fired.arm }) ⟨fun hd => ⟨hd, rfl⟩, id⟩
    refine ⟨fun s' hs' => (hheap s').2 (h.beyond s' hs'), fun s' key data' hmem => ?_, ?_, ?_⟩
    · rcases List.mem_append.mp hmem with hmem | hmem
      · exact h.kept_next hheap hmem
      · simp at hmem
    · refine h.once.append (List.pairwise_singleton _ _) fun s' key data' hmem b hb => ?_
      rw [List.mem_singleton.mp hb]
      rintro rfl
      exact Option.some.inj (hdata.symm.trans (h.kept s key data' hmem).2.2)
    · exact h.sent.append (.of_none (by simp) (by simp [Act.answers]))
  | missedA s hlive =>
    exact h.of_silent (l := []) (by simp) (by simp) rfl
      (keeps_modifyAt ⟨fun hd => ⟨hd, rfl⟩, id⟩)
  | retransF s u data addr hs =>
    refine ⟨h.beyond, fun s' key data' hmem => ?_, ?_, ?_⟩
    · rcases List.mem_append.mp hmem with hmem | hmem
      · exact h.kept s' key data' hmem
      · simp at hmem
    · refine h.once.append (List.pairwise_singleton _ _) fun s' key data' hmem b hb => ?_
      rw [List.mem_singleton.mp hb]
      rintro rfl
      rcases (h.kept s key data' hmem).2.1 with hd | hd <;> rw [hs] at hd <;> cases hd
    · exact h.sent.append (.of_none (by simp) (by simp [Act.answers]))
  | ack s k c hcb hk hs horigin hcur hm => exact h.ackMove hm
  | afterAck s g hcb hcur =>
    exact h.of_silent (l := []) (by simp) (by simp) rfl
      (keeps_modifyAt ⟨fun hd => ⟨hd, rfl⟩, id⟩)
  | dropped s g hcb hA hD tserver ht =>
    exact h.of_silent (l := []) (by simp) (by simp) rfl
      (keeps_modifyAt ⟨fun hd => ⟨hd, rfl⟩, id⟩)

theorem moves {env : Env} {m : Mode} (h : FinalInv v) (hm : SMoves env m v v') : FinalInv v' := by
  induction hm with
  | refl => exact h
  | tail _ hmove ih => exact ih.move hmove

theorem arrived {tm : TM} (h : FinalInv tm.sview) (data : Text) :
    FinalInv (tm.record (.arrived data)).sview :=
  h.of_silent (l := [.arrived data]) (by simp [Act.silent]) rfl rfl
    fun s => ⟨fun hd => ⟨hd, rfl⟩, id⟩

theorem purged {tm : TM} (h : FinalInv tm.sview) : FinalInv tm.rCachePurge.sview :=
  h.of_silent (l := [.purged]) (by simp [Act.silent]) rfl rfl fun s => ⟨fun hd => ⟨hd, rfl⟩, id⟩

theorem arrival {tm : TM} (h : FinalInv tm.sview) (l : Label) :
    FinalInv (TM.arrival tm l).sview := by
  unfold TM.arrival
  split
  · exact h.arrived _
  · exact h.purged
  · exact h

theorem step (env : Env) {tm : TM} (h : FinalInv tm.sview) (l : Label) :
    FinalInv (TM.step env tm l).sview :=
  (h.arrival l).moves (TM.step_moves (m := .any) (fun _ _ => trivial) fun _ _ _ _ =>
    ⟨False.elim, False.elim, False.elim⟩)

theorem init (natTraversal : Bool) (provisionalRetr : ℕ) (reqCb : Bool) :
    FinalInv (TM.init natTraversal provisionalRetr reqCb).sview where
  beyond _ _ := rfl
  kept _ _ _ hmem := by simp [TM.init, TM.sview] at hmem
  once := List.Pairwise.nil
  sent := .silent (by simp [TM.init, TM.sview])

end FinalInv

/-- In every run a server transaction completes at most once, right after its
final response was transmitted. After that no response is transmitted on it and
no provisional one is repeated, and what timer A sends is the final response. -/
theorem final_response_once (env : Env) (natTraversal : Bool) (provisionalRetr : ℕ) (reqCb : Bool)
    (ls : List Label) :
    FinalOnce (run (TM.step env) (TM.init natTraversal provisionalRetr reqCb) ls).log ∧
    FinalSent (run (TM.step env) (TM.init natTraversal provisionalRetr reqCb) ls).log := by
  have hinv := run_invariant (I := fun tm : TM => FinalInv tm.sview) (fun _ l h => h.step env l)
    (FinalInv.init natTraversal provisionalRetr reqCb) ls
  exact ⟨hinv.once, hinv.sent⟩

end SippyB2bua.Manager
