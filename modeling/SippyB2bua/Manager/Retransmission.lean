import SippyB2bua.Manager.ServerTable
import SippyB2bua.Manager.ClientProtocol

/-!
# Copies of a request

A copy of a request that was answered is absorbed in two places. Two generations
of a cache, indexed by the checksum of the datagram, answer a byte-identical
copy with the last response until the second rotation. The transaction table
answers any copy while the transaction is stored under its branch; the final
response on an INVITE moves it to the key under which the ACK is looked up, and
from then on a copy with other bytes starts a new transaction.
-/

namespace SippyB2bua.Manager
open Lib (Text Dict Timer modifyAt run Along)

/-- A response on the transaction `s`, transmitted or lost on purpose. -/
def Act.responds (s : ℕ) : Act → Bool
  | .sent (.response s' _) _ _ _ | .discarded (.response s' _) _ => s' = s
  | _ => false

def latestStep (s : ℕ) (acc : Option (Act × ℕ)) (a : Act) : Option (Act × ℕ) :=
  if a.responds s then some (a, 0)
  else if a = .purged then acc.map fun p => (p.1, p.2 + 1) else acc

/-- The last response on the transaction, and the number of rotations since then. -/
def latest (s : ℕ) (log : List Act) : Option (Act × ℕ) := log.foldl (latestStep s) none

def Act.hushed : Act → Bool
  | .sent (.response _ _) _ _ _ | .discarded (.response _ _) _ | .purged | .arrived _ => false
  | _ => true

section Latest
variable {s : ℕ} {log as : List Act}

theorem latest_append : latest s (log ++ as) = as.foldl (latestStep s) (latest s log) :=
  List.foldl_append

theorem latestStep_hushed {a : Act} (h : a.hushed = true) (acc : Option (Act × ℕ)) :
    latestStep s acc a = acc := by
  have hr : a.responds s = false := by
    cases a with
    | sent o _ _ _ => cases o <;> simp_all [Act.hushed, Act.responds]
    | discarded o _ => cases o <;> simp_all [Act.hushed, Act.responds]
    | _ => rfl
  have hp : a ≠ .purged := by
    rintro rfl
    simp [Act.hushed] at h
  simp [latestStep, hr, hp]

theorem latest_hushed (h : ∀ a ∈ as, a.hushed = true) : latest s (log ++ as) = latest s log := by
  rw [latest_append]
  induction as generalizing log with
  | nil => rfl
  | cons a as ih =>
    rw [List.foldl_cons, latestStep_hushed (h a List.mem_cons_self)]
    exact ih fun b hb => h b (List.mem_cons_of_mem _ hb)

theorem Act.answers.responds {a : Act} {scode : ℤ} {data : Text} (h : a.answers s scode data)
    (s' : ℕ) : a.responds s' = decide (s = s') := by
  rcases h with ⟨u, addr, rfl⟩ | rfl <;> rfl

theorem Act.answers.ne_purged {a : Act} {scode : ℤ} {data : Text} (h : a.answers s scode data) :
    a ≠ .purged := by
  rcases h with ⟨u, addr, rfl⟩ | rfl <;> simp

theorem latest_answer {a : Act} {scode : ℤ} {data : Text} (h : a.answers s scode data)
    (has : ∀ b ∈ as, b.hushed = true) : latest s (log ++ a :: as) = some (a, 0) := by
  have hcons : log ++ a :: as = (log ++ [a]) ++ as := by simp
  rw [hcons, latest_hushed has, latest_append]
  simp [latestStep, h.responds]

theorem latest_other {a : Act} {scode : ℤ} {data : Text} (h : a.answers s scode data)
    (has : ∀ b ∈ as, b.hushed = true) {s' : ℕ} (hs : s' ≠ s) :
    latest s' (log ++ a :: as) = latest s' log := by
  have hcons : log ++ a :: as = (log ++ [a]) ++ as := by simp
  rw [hcons, latest_hushed has, latest_append]
  simp [latestStep, h.responds, hs.symm, h.ne_purged]

theorem latest_purged {a : Act} {n : ℕ} (h : latest s (log ++ [.purged]) = some (a, n)) :
    ∃ n', n = n' + 1 ∧ latest s log = some (a, n') := by
  simp only [latest_append, List.foldl_cons, List.foldl_nil, latestStep, Act.responds,
    Bool.false_eq_true, if_false, if_true, Option.map_eq_some_iff, Prod.mk.injEq] at h
  obtain ⟨⟨a', n'⟩, hlog, rfl, rfl⟩ := h
  exact ⟨n', rfl, hlog⟩

end Latest

/-- The cache answers the checksum from `r`, `n` rotations after `r` was stored. -/
def Held (v : SView) (checksum : Text) (n : ℕ) (r : Retransmit) : Prop :=
  (n = 0 ∧ v.l1 checksum = some (some r)) ∨
    (n = 1 ∧ v.l1 checksum = none ∧ v.l2 checksum = some (some r))

structure CopyInv (env : Env) (v : SView) : Prop where
  table : TableInv (fun _ _ => False) (fun _ => False) v
  final : FinalInv v
  distinct : ∀ d d', .arrived d ∈ v.log → .arrived d' ∈ v.log → env.md5 d = env.md5 d' → d = d'
  origin : ∀ s, s < v.snext → ∃ req, Received env v.log (v.sheap s).checksum req ∧
    req.method ≠ .ack ∧ req.method ≠ .cancel ∧ (v.sheap s).method = req.method ∧
    ((v.sheap s).open → (v.sheap s).tid = some req.tid)
  ackFrame : ∀ s g, v.cb = some (.ack s g) →
    ∃ req, Received env v.log g.checksum req ∧ req.method = .ack
  known : ∀ s a n, latest s v.log = some (a, n) → s < v.snext
  held : ∀ s a n, latest s v.log = some (a, n) → n ≤ 1 →
    ∃ r, Held v (v.sheap s).checksum n r ∧ ∀ o u data addr, a = .sent o u data addr →
      r = ⟨u, data, addr, 0⟩ ∧ env.sendOk u addr = true
  alone : ∀ s a n, latest s v.log = some (a, n) → n ≤ 1 →
    ∀ s', (v.sheap s').open → s' ≠ s → (v.sheap s').checksum ≠ (v.sheap s).checksum
  last : ∀ s o u data addr n, latest s v.log = some (.sent o u data addr, n) →
    (v.sheap s).data = some data ∧ env.sendOk u addr = true ∧ ((v.sheap s).userv ≠ none →
      (v.sheap s).userv = some u ∧ (v.sheap s).address = some addr)

def Clear (m : Mode) (v : SView) : Prop :=
  ∀ s a n, latest s v.log = some (a, n) → n ≤ 1 → ¬ m.cur (v.sheap s).checksum

/-- A transaction that does not open and keeps its identity and its last response. -/
structure STr.Fades (t t' : STr) : Prop where
  checksum : t'.checksum = t.checksum := by rfl
  method : t'.method = t.method := by rfl
  open_ : t'.open → t.open ∧ t'.tid = t.tid
  data : t'.data = t.data := by rfl
  userv : t'.userv ≠ none → t'.userv = t.userv ∧ t'.address = t.address

theorem STr.Fades.refl (t : STr) : t.Fades t :=
  ⟨rfl, rfl, fun h => ⟨h, rfl⟩, rfl, fun _ => ⟨rfl, rfl⟩⟩

theorem STr.Same.fades {t t' : STr} (h : t.Same t') : t.Fades t' :=
  ⟨h.checksum, h.method, by simp [STr.open, h.state, h.userv, h.tid], h.data, fun _ => ⟨h.userv, h.address⟩⟩

theorem fades_modifyAt {heap : ℕ → STr} {s : ℕ} {f : STr → STr}
    (h : (heap s).Fades (f (heap s))) (s' : ℕ) : (heap s').Fades (modifyAt heap s f s') := by
  by_cases hs : s' = s
  · subst hs; simpa using h
  · rw [Lib.modifyAt_other _ _ hs]
    exact .refl _

theorem Received.append {env : Env} {log : List Act} {checksum : Text} {req : Req}
    (h : Received env log checksum req) (as : List Act) :
    Received env (log ++ as) checksum req := by
  obtain ⟨data, hmem, hrest⟩ := h
  exact ⟨data, List.mem_append_left _ hmem, hrest⟩

namespace CopyInv
variable {env : Env} {m : Mode} {v v' : SView}

theorem unique (h : CopyInv env v) {checksum : Text} {req req' : Req}
    (hreq : Received env v.log checksum req) (hreq' : Received env v.log checksum req') :
    req = req' := by
  obtain ⟨d, hd, hsum, -, hparse⟩ := hreq
  obtain ⟨d', hd', hsum', -, hparse'⟩ := hreq'
  obtain rfl := h.distinct d d' hd hd' (hsum.trans hsum'.symm)
  cases hparse.symm.trans hparse'
  rfl

theorem of_fades (h : CopyInv env v) (hclear : Clear m v)
    (htable : TableInv (fun _ _ => False) (fun _ => False) v') (hfinal : FinalInv v')
    {l : List Act} (hheap : ∀ s, (v.sheap s).Fades (v'.sheap s)) (hnext : v'.snext = v.snext)
    (hl1 : ∀ c, ¬ m.cur c → v'.l1 c = v.l1 c) (hl2 : v'.l2 = v.l2)
    (hlog : v'.log = v.log ++ l) (has : ∀ a ∈ l, a.hushed = true)
    (hcb : ∀ s g, v'.cb = some (.ack s g) → v.cb = some (.ack s g) ∨
      ∃ req, Received env v.log g.checksum req ∧ req.method = .ack) :
    CopyInv env v' ∧ Clear m v' := by
  have hlatest : ∀ s, latest s v'.log = latest s v.log := fun s => by
    rw [hlog, latest_hushed has]
  have harr : ∀ d, .arrived d ∈ v'.log → .arrived d ∈ v.log := by
    intro d hmem
    rw [hlog] at hmem
    refine (List.mem_append.mp hmem).resolve_right fun hin => ?_
    simpa [Act.hushed] using has _ hin
  refine ⟨⟨htable, hfinal, fun d d' hd hd' => h.distinct d d' (harr d hd) (harr d' hd'),
    fun s hs => ?_, fun s g hg => ?_, fun s a n hl => ?_, fun s a n hl hn => ?_,
    fun s a n hl hn s' ho hs => ?_, fun s o u data addr n hl => ?_⟩, fun s a n hl hn => ?_⟩
  · obtain ⟨req, hreq, hack, hcancel, hm, htid⟩ := h.origin s (hnext ▸ hs)
    refine ⟨req, ?_, hack, hcancel, (hheap s).method.trans hm, fun ho => ?_⟩
    · rw [(hheap s).checksum, hlog]; exact hreq.append l
    · rw [((hheap s).open_ ho).2]; exact htid ((hheap s).open_ ho).1
  · rw [hlog]
    rcases hcb s g hg with hold | ⟨req, hreq, hm⟩
    · obtain ⟨req, hreq, hm⟩ := h.ackFrame s g hold
      exact ⟨req, hreq.append l, hm⟩
    · exact ⟨req, hreq.append l, hm⟩
  · rw [hlatest] at hl
    exact hnext ▸ h.known s a n hl
  · rw [hlatest] at hl
    obtain ⟨r, hr, hsent⟩ := h.held s a n hl hn
    refine ⟨r, ?_, hsent⟩
    unfold Held
    rw [(hheap s).checksum, hl1 _ (hclear s a n hl hn), hl2]
    exact hr
  · rw [hlatest] at hl
    rw [(hheap s).checksum, (hheap s').checksum]
    exact h.alone s a n hl hn s' ((hheap s').open_ ho).1 hs
  · rw [hlatest] at hl
    obtain ⟨hdata, hsend, hserver⟩ := h.last s o u data addr n hl
    refine ⟨(hheap s).data.trans hdata, hsend, fun hu => ?_⟩
    obtain ⟨hu', ha'⟩ := (hheap s).userv hu
    rw [hu', ha']
    exact hserver (hu' ▸ hu)
  · rw [hlatest] at hl
    rw [(hheap s).checksum]
    exact hclear s a n hl hn

theorem checksum_ne (h : CopyInv env v) {s s' : ℕ} (hs : (v.sheap s).open)
    (hs' : (v.sheap s').open) (hne : s' ≠ s) : (v.sheap s').checksum ≠ (v.sheap s).checksum := by
  intro hsum
  obtain ⟨req, hreq, -, -, -, htid⟩ := h.origin s ((h.table.slot s).lt_of_open hs)
  obtain ⟨req', hreq', -, -, -, htid'⟩ := h.origin s' ((h.table.slot s').lt_of_open hs')
  obtain rfl := h.unique hreq (hsum ▸ hreq')
  have hk := (h.table.slot s).ok.key_iff hs.2 hs.ne_confirmed (htid hs)
  have hk' := (h.table.slot s').ok.key_iff hs'.2 hs'.ne_confirmed (htid' hs')
  exact hne (Option.some.inj (hk'.symm.trans hk))

theorem of_response (h : CopyInv env v) (hclear : Clear m v)
    (htable : TableInv (fun _ _ => False) (fun _ => False) v') (hfinal : FinalInv v')
    {s : ℕ} {scode : ℤ} {r : Retransmit} {a : Act} {l : List Act} {f : STr → STr}
    (hs : (v.sheap s).open) (ha : a.answers s scode r.data)
    (hr : a.repeats env (v.sheap s).userv r) (hcur : ¬ m.cur (v.sheap s).checksum)
    (hheap : v'.sheap = modifyAt v.sheap s f)
    (hsum : (f (v.sheap s)).checksum = (v.sheap s).checksum)
    (hmeth : (f (v.sheap s)).method = (v.sheap s).method)
    (hopen : (f (v.sheap s)).open → (f (v.sheap s)).tid = (v.sheap s).tid)
    (hdata : (f (v.sheap s)).data = some r.data)
    (huserv : (f (v.sheap s)).userv ≠ none → (f (v.sheap s)).userv = (v.sheap s).userv ∧
      (f (v.sheap s)).address = some r.address)
    (hnext : v'.snext = v.snext)
    (hl1 : v'.l1 = v.l1.set (v.sheap s).checksum (some r)) (hl2 : v'.l2 = v.l2)
    (hcb : v'.cb = v.cb) (hlog : v'.log = v.log ++ a :: l) (has : ∀ b ∈ l, b.hushed = true) :
    CopyInv env v' ∧ Clear m v' := by
  have hlt := (h.table.slot s).lt_of_open hs
  have hself : v'.sheap s = f (v.sheap s) := by rw [hheap, Lib.modifyAt_same]
  have hother : ∀ s', s' ≠ s → v'.sheap s' = v.sheap s' := fun s' hne => by
    rw [hheap, Lib.modifyAt_other _ _ hne]
  have hchecksum : ∀ s', (v'.sheap s').checksum = (v.sheap s').checksum := by
    intro s'
    by_cases hne : s' = s
    · subst hne; rw [hself, hsum]
    · rw [hother s' hne]
  have hmethod : ∀ s', (v'.sheap s').method = (v.sheap s').method := by
    intro s'
    by_cases hne : s' = s
    · subst hne; rw [hself, hmeth]
    · rw [hother s' hne]
  have hwas : ∀ s', (v'.sheap s').open → (v.sheap s').open := by
    intro s' ho
    by_cases hne : s' = s
    · subst hne; exact hs
    · rwa [hother s' hne] at ho
  have hmine : latest s v'.log = some (a, 0) := by rw [hlog]; exact latest_answer ha has
  have htheirs : ∀ s', s' ≠ s → latest s' v'.log = latest s' v.log := fun s' hne => by
    rw [hlog]; exact latest_other ha has hne
  have harr : ∀ d, .arrived d ∈ v'.log → .arrived d ∈ v.log := by
    intro d hmem
    rw [hlog] at hmem
    rcases List.mem_append.mp hmem with hin | hin
    · exact hin
    · rcases List.mem_cons.mp hin with hin | hin
      · rcases ha with ⟨u, addr, rfl⟩ | rfl <;> cases hin
      · simpa [Act.hushed] using has _ hin
  refine ⟨⟨htable, hfinal, fun d d' hd hd' => h.distinct d d' (harr d hd) (harr d' hd'),
    fun s' hs' => ?_, fun s' g hg => ?_, fun s' b n hl => ?_, fun s' b n hl hn => ?_,
    fun s' b n hl hn s'' ho hne => ?_, fun s' o u data addr n hl => ?_⟩, fun s' b n hl hn => ?_⟩
  · obtain ⟨req, hreq, hack, hcancel, hm, htid⟩ := h.origin s' (hnext ▸ hs')
    refine ⟨req, ?_, hack, hcancel, (hmethod s').trans hm, fun ho => ?_⟩
    · rw [hchecksum, hlog]; exact hreq.append _
    · by_cases hne : s' = s
      · subst hne
        rw [hself] at ho ⊢
        exact (hopen ho).trans (htid hs)
      · rw [hother s' hne]
        exact htid (hwas s' ho)
  · obtain ⟨req, hreq, hm⟩ := h.ackFrame s' g (hcb ▸ hg)
    exact ⟨req, hlog ▸ hreq.append _, hm⟩
  · by_cases hne : s' = s
    · subst hne; exact hnext ▸ hlt
    · rw [htheirs s' hne] at hl
      exact hnext ▸ h.known s' b n hl
  · by_cases hne : s' = s
    · subst hne
      cases hmine.symm.trans hl
      exact ⟨r, .inl ⟨rfl, by rw [hl1, hchecksum, Lib.Dict.set_same]⟩, hr.2⟩
    · rw [htheirs s' hne] at hl
      obtain ⟨r', hr', hsent⟩ := h.held s' b n hl hn
      refine ⟨r', ?_, hsent⟩
      have hsums : (v.sheap s').checksum ≠ (v.sheap s).checksum :=
        (h.alone s' b n hl hn s hs (Ne.symm hne)).symm
      unfold Held
      rw [hchecksum, hl1, hl2, Lib.Dict.set_other _ _ hsums]
      exact hr'
  · rw [hchecksum, hchecksum]
    by_cases hne' : s' = s
    · subst hne'
      exact h.checksum_ne hs (hwas s'' ho) hne
    · rw [htheirs s' hne'] at hl
      exact h.alone s' b n hl hn s'' (hwas s'' ho) hne
  · by_cases hne : s' = s
    · subst hne
      cases hmine.symm.trans hl
      obtain ⟨rfl, hsend⟩ := hr.2 _ _ _ _ rfl
      rw [hself]
      refine ⟨hdata, hsend, fun hu => ?_⟩
      exact ⟨(huserv hu).1.trans hr.1, (huserv hu).2⟩
    · rw [htheirs s' hne] at hl
      rw [hother s' hne]
      exact h.last s' o u data addr n hl
  · rw [hchecksum]
    by_cases hne : s' = s
    · subst hne; exact hcur
    · rw [htheirs s' hne] at hl
      exact hclear s' b n hl hn

theorem of_store (h : CopyInv env v) (hclear : Clear m v) {t : STr} {req : Req}
    (htable : TableInv (fun _ _ => False) (fun _ => False) { v with
      sheap := Function.update v.sheap v.snext t
      snext := v.snext + 1
      tserver := v.tserver.set req.tid v.snext })
    (hfinal : FinalInv { v with
      sheap := Function.update v.sheap v.snext t
      snext := v.snext + 1
      tserver := v.tserver.set req.tid v.snext })
    (htid : t.tid = some req.tid) (hmethod : t.method = req.method)
    (hnot : req.method ≠ .ack ∧ req.method ≠ .cancel)
    (horigin : Received env v.log t.checksum req)
    (hmiss : v.l1 t.checksum = none ∧ v.l2 t.checksum = none) :
    CopyInv env { v with
      sheap := Function.update v.sheap v.snext t
      snext := v.snext + 1
      tserver := v.tserver.set req.tid v.snext } ∧
    Clear m { v with
      sheap := Function.update v.sheap v.snext t
      snext := v.snext + 1
      tserver := v.tserver.set req.tid v.snext } := by
  have hold : ∀ s a n, latest s v.log = some (a, n) →
      Function.update v.sheap v.snext t s = v.sheap s := fun s a n hl =>
    Function.update_of_ne (Nat.ne_of_lt (h.known s a n hl)) _ _
  refine ⟨⟨htable, hfinal, h.distinct, fun s hs => ?_, h.ackFrame, fun s a n hl =>
    Nat.lt_succ_of_lt (h.known s a n hl), fun s a n hl hn => ?_, fun s a n hl hn s' ho hne => ?_,
    fun s o u data addr n hl => ?_⟩, fun s a n hl hn => ?_⟩
  · dsimp only at hs ⊢
    by_cases hs' : s = v.snext
    · subst hs'
      rw [Function.update_self]
      exact ⟨req, horigin, hnot.1, hnot.2, hmethod, fun _ => htid⟩
    · rw [Function.update_of_ne hs']
      exact h.origin s (by omega)
  · dsimp only
    rw [hold s a n hl]
    exact h.held s a n hl hn
  · dsimp only at ho ⊢
    rw [hold s a n hl]
    by_cases hs' : s' = v.snext
    · subst hs'
      rw [Function.update_self]
      intro hsum
      obtain ⟨r, hr, -⟩ := h.held s a n hl hn
      rcases hr with ⟨-, hr⟩ | ⟨-, -, hr⟩
      · simp [← hsum, hmiss.1] at hr
      · simp [← hsum, hmiss.2] at hr
    · rw [Function.update_of_ne hs'] at ho ⊢
      exact h.alone s a n hl hn s' ho hne
  · dsimp only
    rw [hold s _ n hl]
    exact h.last s o u data addr n hl
  · dsimp only
    rw [hold s a n hl]
    exact hclear s a n hl hn

/-- The callback that runs is not that of an ACK, or it is the same as before. -/
theorem frame_of_plain {cb : Option Frame} (hcb : cb = v.cb ∨ cb = none ∨
    ∃ f, cb = some f ∧ f.plain = true) : ∀ s g, cb = some (.ack s g) → v.cb = some (.ack s g) ∨
      ∃ req, Received env v.log g.checksum req ∧ req.method = .ack := by
  intro s g hg
  rcases hcb with rfl | rfl | ⟨f, rfl, hf⟩
  · exact .inl hg
  · cases hg
  · cases hg
    simp [Frame.plain] at hf

theorem hushed_of_ofServer {a : Act} (h : a.ofServer = false) : a.hushed = true := by
  cases a with
  | sent o _ _ _ => cases o <;> simp_all [Act.ofServer, Origin.ofServer, Act.hushed]
  | discarded o _ => cases o <;> simp_all [Act.ofServer, Origin.ofServer, Act.hushed]
  | _ => simp_all [Act.ofServer, Act.hushed]

theorem set_of_not_cur {l1 : Dict Text (Option Retransmit)} {checksum : Text}
    (hcur : m.cur checksum) (e : Option Retransmit) :
    ∀ c, ¬ m.cur c → l1.set checksum e c = l1 c := by
  intro c hc
  refine Lib.Dict.set_other _ _ ?_
  rintro rfl
  exact hc hcur

theorem fades_of_closed {t t' : STr} (hsum : t'.checksum = t.checksum)
    (hm : t'.method = t.method) (hdata : t'.data = t.data) (hopen : t'.open → False) (huserv : t'.userv ≠ none → t'.userv = t.userv ∧
      t'.address = t.address) : t.Fades t' := ⟨hsum, hm, fun ho => (hopen ho).elim, hdata, huserv⟩

theorem fades_cleanup {t t' : STr} (hsum : t'.checksum = t.checksum) (hm : t'.method = t.method)
    (hdata : t'.data = t.data) : t.Fades t'.cleanup :=
  fades_of_closed hsum hm hdata (fun ho => ho.2 rfl) fun hu => absurd rfl hu

theorem fades_confirmed {t t' : STr} (hsum : t'.checksum = t.checksum)
    (hm : t'.method = t.method) (hdata : t'.data = t.data)
    (hs : t'.state = .confirmed) (huserv : t'.userv = t.userv)
    (haddr : t'.address = t.address) : t.Fades t' :=
  fades_of_closed hsum hm hdata (fun ho => ho.ne_confirmed hs) fun _ => ⟨huserv, haddr⟩

theorem of_ack (h : CopyInv env v) (hclear : Clear m v)
    (htable : TableInv (fun _ _ => False) (fun _ => False) v') (hfinal : FinalInv v') {s : ℕ}
    {checksum : Text} (horigin : ∃ req, Received env v.log checksum req ∧ req.method = .ack)
    (hcur : m.cur checksum) (hm : AckMove s checksum v v') : CopyInv env v' ∧ Clear m v' := by
  cases hm with
  | broken hD =>
    exact h.of_fades hclear htable hfinal (l := [])
      (fades_modifyAt (f := fun t => { t with state := .confirmed, teA := t.teA.cancel })
        (fades_confirmed rfl rfl rfl rfl rfl rfl)) rfl (fun _ _ => rfl) rfl (by simp)
      (by simp) fun _ _ hg => .inl hg
  | lost hlost =>
    exact h.of_fades hclear htable hfinal (l := [.delKeyError s])
      (fades_modifyAt (f := fun t => { t with
        state := .confirmed, teA := t.teA.cancel, teD := t.teD.cancel })
        (fades_confirmed rfl rfl rfl rfl rfl rfl)) rfl (fun _ _ => rfl) rfl rfl
      (by simp [Act.hushed]) fun _ _ hg => .inl hg
  | call k g hk hg =>
    refine h.of_fades hclear htable hfinal (l := [.ackCb s])
      (fades_modifyAt (f := fun t => { t with
        state := .confirmed, teA := t.teA.cancel, teD := t.teD.cancel })
        (fades_confirmed rfl rfl rfl rfl rfl rfl)) rfl (fun _ _ => rfl) rfl rfl
      (by simp [Act.hushed]) fun s' g' hg' => .inr ?_
    cases hg'
    rw [hg]
    exact horigin
  | done k hk =>
    exact h.of_fades hclear htable hfinal (l := [])
      (fades_modifyAt (f := fun t => STr.cleanup { t with
        state := .confirmed, teA := t.teA.cancel, teD := t.teD.cancel }) (fades_cleanup rfl rfl rfl)) rfl
      (set_of_not_cur hcur none) rfl (by simp) (by simp) fun _ _ hg => .inl hg

theorem move (h : CopyInv env v) (hclear : Clear m v) (hst : m.strict) (hsends : m.sends)
    (hclean : m.clean) (hm : SMove env m v v') : CopyInv env v' ∧ Clear m v' := by
  have htable := h.table.move h.final hst hm
  have hfinal := h.final.move hm
  cases hm with
  | quiet as cb l1 has hcb hl1 =>
    exact h.of_fades hclear htable hfinal (fun s => .refl _) rfl hl1 rfl rfl
      (fun a ha => hushed_of_ofServer (has a ha)) (frame_of_plain hcb)
  | store t req htid hstate huserv hdata hmethod hack hA hD hnot horigin hfree hmiss hcancel =>
    exact h.of_store hclear htable hfinal htid hmethod hnot horigin hmiss
  | askUpper s g hs =>
    exact h.of_fades hclear htable hfinal (l := []) (fun s => .refl _) rfl (fun _ _ => rfl) rfl
      (by simp) (by simp) fun _ _ hg => by cases hg
  | touch s f hf =>
    exact h.of_fades hclear htable hfinal (l := []) (fades_modifyAt hf.fades) rfl
      (fun _ _ => rfl) rfl (by simp) (by simp) fun _ _ hg => .inl hg
  | draft s data addr hs hfail => exact absurd hsends hfail
  | ring s scode r a teF hs ha hr hcode hcur =>
    exact h.of_response hclear htable hfinal (l := [])
      (f := fun t => { t.drafted r with state := .ringing, teF := teF t.teF }) hs ha hr
      (hcur hclean) rfl rfl rfl (fun _ => rfl) rfl (fun _ => ⟨rfl, rfl⟩) rfl rfl rfl rfl rfl
      (by simp)
  | completeKeep s k tag scode r a ackCb hs ha hr hcode hcur hack hk hfree =>
    refine h.of_response hclear htable hfinal (l := [.completed s (TM.rekey k tag) r.data])
      (f := fun t => { (t.drafted r).waitAck ackCb with
        tid := t.tid.map fun k => TM.rekey k tag, teA := t.teA.arm }) hs ha hr (hcur hclean) rfl rfl rfl
      (fun ho => ?_) rfl (fun _ => ⟨rfl, rfl⟩) rfl rfl rfl rfl rfl
      (by simp [Act.hushed])
    exact absurd (.inl rfl) ho.not_done
  | completeDrop s k key scode r a hs ha hr hcode hcur hack hk =>
    refine h.of_response hclear htable hfinal (l := [.completed s key r.data])
      (f := fun t => (t.drafted r).finished.cleanup) hs ha hr (hcur hclean) rfl rfl rfl
      (fun ho => ?_) rfl (fun hu => absurd rfl hu) rfl rfl rfl rfl rfl
      (by simp [Act.hushed])
    exact absurd (.inl rfl) ho.not_done
  | completeLost s key scode r a f hs ha hr hcode hcur hf hk =>
    obtain ⟨k, hkeyed⟩ := h.table.keyed_of_used hs.2 hs.ne_confirmed
    exact absurd hkeyed (hk k)
  | expireD s k hlive hk =>
    exact h.of_fades hclear htable hfinal (l := []) (fades_modifyAt (f := fun t =>
      STr.cleanup { t with teD := t.teD.fire, teA := t.teA.cancel }) (fades_cleanup rfl rfl rfl)) rfl
      (fun _ _ => rfl) rfl (by simp) (by simp) fun _ _ hg => .inl hg
  | expireDLost s hlive hk =>
    exact h.of_fades hclear htable hfinal (l := [.delKeyError s])
      (fades_modifyAt (f := fun t => { t with teD := t.teD.fire, teA := t.teA.cancel })
        ⟨rfl, rfl, fun ho => ⟨ho, rfl⟩, rfl, fun _ => ⟨rfl, rfl⟩⟩) rfl (fun _ _ => rfl) rfl rfl
      (by simp [Act.hushed]) fun _ _ hg => .inl hg
  | noack s hlive hs =>
    exact h.of_fades hclear htable hfinal (l := [.noackCb s])
      (fades_modifyAt (f := fun t => { t with teD := t.teD.fire, teA := t.teA.cancel })
        ⟨rfl, rfl, fun ho => ⟨ho, rfl⟩, rfl, fun _ => ⟨rfl, rfl⟩⟩) rfl (fun _ _ => rfl) rfl rfl
      (by simp [Act.hushed]) fun _ _ hg => by cases hg
  | afterNoack s k hcb hk =>
    exact h.of_fades hclear htable hfinal (l := []) (fades_modifyAt (fades_cleanup rfl rfl rfl)) rfl
      (fun _ _ => rfl) rfl (by simp) (by simp) fun _ _ hg => by cases hg
  | afterNoackLost s hcb hk =>
    exact h.of_fades hclear htable hfinal (l := [.delKeyError s]) (fun s => .refl _) rfl
      (fun _ _ => rfl) rfl rfl (by simp [Act.hushed]) fun _ _ hg => by cases hg
  | retransA s u data addr hlive hu hdata =>
    exact h.of_fades hclear htable hfinal (l := [.sent (.timerA s) u data addr])
      (fades_modifyAt (f := fun t => { t with teA := t.teA.fired.arm })
        ⟨rfl, rfl, fun ho => ⟨ho, rfl⟩, rfl, fun _ => ⟨rfl, rfl⟩⟩) rfl (fun _ _ => rfl) rfl rfl
      (by simp [Act.hushed]) fun _ _ hg => .inl hg
  | missedA s hlive =>
    exact h.of_fades hclear htable hfinal (l := [])
      (fades_modifyAt (f := fun t => { t with teA := t.teA.fired })
        ⟨rfl, rfl, fun ho => ⟨ho, rfl⟩, rfl, fun _ => ⟨rfl, rfl⟩⟩) rfl (fun _ _ => rfl) rfl (by simp)
      (by simp) fun _ _ hg => .inl hg
  | retransF s u data addr hs =>
    exact h.of_fades hclear htable hfinal (l := [.sent (.timerF s) u data addr])
      (fun s => .refl _) rfl (fun _ _ => rfl) rfl rfl (by simp [Act.hushed])
      fun _ _ hg => .inl hg
  | ack s k c hcb hk hs horigin hcur hm => exact h.of_ack hclear htable hfinal horigin hcur hm
  | afterAck s g hcb hcur =>
    exact h.of_fades hclear htable hfinal (l := []) (fades_modifyAt (fades_cleanup rfl rfl rfl)) rfl
      (set_of_not_cur hcur none) rfl (by simp) (by simp) fun _ _ hg => by cases hg
  | dropped s g hcb hA hD tserver ht =>
    exact h.of_fades hclear htable hfinal (l := []) (fades_modifyAt (fades_cleanup rfl rfl rfl)) rfl
      (fun _ _ => rfl) rfl (by simp) (by simp) fun _ _ hg => by cases hg

theorem moves (h : CopyInv env v) (hclear : Clear m v) (hst : m.strict) (hsends : m.sends)
    (hclean : m.clean) (hm : SMoves env m v v') : CopyInv env v' := by
  have hboth : CopyInv env v' ∧ Clear m v' := by
    induction hm with
    | refl => exact ⟨h, hclear⟩
    | tail _ hmove ih => exact ih.1.move ih.2 hst hsends hclean hmove
  exact hboth.1

theorem arrived {tm : TM} (h : CopyInv env tm.sview) {data : Text}
    (hdata : ∀ d, .arrived d ∈ tm.log → env.md5 d = env.md5 data → d = data) :
    CopyInv env (tm.record (.arrived data)).sview := by
  have hlatest : ∀ s, latest s (tm.record (.arrived data)).sview.log = latest s tm.log := fun s => by
    simp [TM.record, TM.sview, latest_append, latestStep, Act.responds]
  refine ⟨h.table.arrived_any data, h.final.arrived data, fun d d' hd hd' hsum => ?_,
    fun s hs => ?_, fun s g hg => ?_, fun s a n hl => ?_, fun s a n hl => ?_, fun s a n hl => ?_,
    fun s o u d addr n hl => ?_⟩
  · rcases List.mem_append.mp hd with hd | hd <;> rcases List.mem_append.mp hd' with hd' | hd'
    · exact h.distinct d d' hd hd' hsum
    · cases List.mem_singleton.mp hd'
      exact hdata d hd hsum
    · cases List.mem_singleton.mp hd
      exact (hdata d' hd' hsum.symm).symm
    · cases List.mem_singleton.mp hd
      cases List.mem_singleton.mp hd'
      rfl
  · obtain ⟨req, hreq, hrest⟩ := h.origin s hs
    exact ⟨req, hreq.append _, hrest⟩
  · obtain ⟨req, hreq, hm⟩ := h.ackFrame s g hg
    exact ⟨req, hreq.append _, hm⟩
  · exact h.known s a n ((hlatest s).symm.trans hl)
  · exact h.held s a n ((hlatest s).symm.trans hl)
  · exact h.alone s a n ((hlatest s).symm.trans hl)
  · exact h.last s o u d addr n ((hlatest s).symm.trans hl)

theorem purged {tm : TM} (h : CopyInv env tm.sview) : CopyInv env tm.rCachePurge.sview := by
  have hlatest : ∀ s a n, latest s tm.rCachePurge.sview.log = some (a, n) →
      ∃ n', n = n' + 1 ∧ latest s tm.log = some (a, n') := fun s a n hl => latest_purged hl
  refine ⟨h.table.purged, h.final.purged, fun d d' hd hd' => h.distinct d d' ?_ ?_,
    fun s hs => ?_, fun s g hg => ?_, fun s a n hl => ?_, fun s a n hl hn => ?_,
    fun s a n hl hn => ?_, fun s o u d addr n hl => ?_⟩
  · simpa [TM.rCachePurge, TM.record, TM.sview] using hd
  · simpa [TM.rCachePurge, TM.record, TM.sview] using hd'
  · obtain ⟨req, hreq, hrest⟩ := h.origin s hs
    exact ⟨req, hreq.append _, hrest⟩
  · obtain ⟨req, hreq, hm⟩ := h.ackFrame s g hg
    exact ⟨req, hreq.append _, hm⟩
  · obtain ⟨n', -, hl⟩ := hlatest s a n hl
    exact h.known s a n' hl
  · obtain ⟨n', rfl, hold⟩ := hlatest s a n hl
    obtain rfl : n' = 0 := by omega
    obtain ⟨r, hr, hsent⟩ := h.held s a 0 hold (Nat.zero_le 1)
    refine ⟨r, .inr ⟨rfl, rfl, ?_⟩, hsent⟩
    rcases hr with ⟨-, hr⟩ | ⟨hone, -⟩
    · exact hr
    · cases hone
  · obtain ⟨n', rfl, hold⟩ := hlatest s a n hl
    exact h.alone s a n' hold (by omega)
  · obtain ⟨n', -, hl⟩ := hlatest s _ n hl
    exact h.last s o u d addr n' hl

theorem lookup {tm : TM} (h : CopyInv env tm.sview) {s n : ℕ} {a : Act}
    (hl : latest s tm.log = some (a, n)) (hn : n ≤ 1) :
    ∃ r, tm.lookup (tm.sheap s).checksum = some (some r) ∧ ∀ o u data addr,
      a = .sent o u data addr → r = ⟨u, data, addr, 0⟩ ∧ env.sendOk u addr = true := by
  obtain ⟨r, hr, hsent⟩ := h.held s a n hl hn
  refine ⟨r, ?_, hsent⟩
  rcases hr with ⟨-, hr⟩ | ⟨-, hnone, hr⟩
  · have hr : tm.l1rcache (tm.sheap s).checksum = some (some r) := hr
    simp [TM.lookup, hr]
  · have hnone : tm.l1rcache (tm.sheap s).checksum = none := hnone
    have hr : tm.l2rcache (tm.sheap s).checksum = some (some r) := hr
    simp [TM.lookup, hnone, hr]

/-- What a step writes to the cache on its own account is not the entry of a request
that was answered. -/
theorem not_foreign {tm : TM} {l : Label} (h : CopyInv env tm.sview)
    (hclient : ClientInv env ⟨False, False⟩ tm.cview) {s n : ℕ} {a : Act}
    (hl : latest s tm.log = some (a, n)) (hn : n ≤ 1) :
    ¬ TM.Foreign env tm l (tm.sheap s).checksum := by
  obtain ⟨req, hreq, hack, -⟩ := h.origin s (h.known s a n hl)
  intro hf
  cases l with
  | recv dg =>
    obtain ⟨r, hr, -⟩ := h.lookup hl hn
    simp [hf.2] at hr
  | ret r rnd =>
    obtain ⟨s', g, hcb, hsum⟩ := hf
    obtain ⟨req', hreq', hm⟩ := h.ackFrame s' g hcb
    rw [← hsum] at hreq'
    obtain rfl := h.unique hreq hreq'
    exact hack hm
  | call api =>
    cases api with
    | sendACK c =>
      obtain ⟨d, hd, hsum, hreq, -⟩ := hreq
      obtain ⟨d', hd', hsum', hresp⟩ := hclient.sums c hf.1
      have hsums : env.md5 d' = (tm.sheap s).checksum := hsum'.trans hf.2.symm
      obtain rfl := h.distinct d' d hd' hd (hsums.trans hsum.symm)
      simp [hreq] at hresp
    | _ => exact hf
  | _ => exact hf

end CopyInv

namespace TM

/-- The steps that take over no key, transmit their responses and receive no
datagram with the checksum of a different one. -/
structure CopyStep (env : Env) (tm : TM) (l : Label) : Prop where
  rekey : RekeyFree env tm l
  sent : AllSent env tm l
  distinct : ∀ dg d, l = .recv dg → .arrived d ∈ tm.log → env.md5 d = env.md5 dg.data →
    d = dg.data

theorem CopyStep.clean {env : Env} {tm : TM} {l : Label} (hok : CopyStep env tm l)
    (h : CopyInv env tm.sview) {s : ℕ} {resp : Resp} {rnd : Text}
    (hans : Answers env tm l s resp rnd) : ¬ Foreign env tm l (tm.sheap s).checksum := by
  intro hf
  cases hans with
  | call resp s ackCb lossemul rnd => exact hf
  | callByBranch resp s ackCb lossemul rnd hs => exact hf
  | expired s r rnd hr => exact hf
  | returned s g resp c n rnd hcb =>
    obtain ⟨s', g', hcb', -⟩ := hf
    cases hcb.symm.trans hcb'
  | failed f g e s rnd hcb hg he hs =>
    obtain ⟨req, hreq, hack, -⟩ := h.origin s ((h.table.slot s).lt_of_stored hs)
    obtain ⟨s', g', hcb', hsum⟩ := hf
    obtain ⟨req', hreq', hm⟩ := h.ackFrame s' g' hcb'
    rw [← hsum] at hreq'
    obtain rfl := h.unique hreq hreq'
    exact hack hm
  | cancelled dg req s r hparse hcancel hs hr =>
    obtain ⟨req', ⟨d, hd, hsum, -, hparse'⟩, -, hnot, -⟩ :=
      h.origin s ((h.table.slot s).lt_of_stored hs)
    obtain rfl := hok.distinct dg d rfl hd (hsum.trans hf.1)
    cases hparse.symm.trans hparse'
    exact hnot hcancel

theorem step_copyInv {env : Env} {tm : TM} {l : Label} (h : CopyInv env tm.sview)
    (hclient : ClientInv env ⟨False, False⟩ tm.cview) (hok : CopyStep env tm l) :
    CopyInv env (step env tm l).sview := by
  have hmoves := step_moves (m := ⟨True, True, True, Foreign env tm l⟩) (fun _ hc => hc)
    fun s resp rnd hans => ⟨fun _ => hok.rekey s resp rnd hans, fun _ => hok.sent s resp rnd hans,
      fun _ => hok.clean h hans⟩
  have hsame : arrival tm l = tm → CopyInv env (step env tm l).sview := by
    intro harr
    rw [harr] at hmoves
    exact h.moves (fun s a n hl hn => h.not_foreign hclient hl hn) trivial trivial trivial hmoves
  cases hcb : tm.cb with
  | some f => exact hsame (by cases l <;> simp [arrival, hcb])
  | none =>
    cases l with
    | recv dg =>
      have harr : arrival tm (.recv dg) = tm.record (.arrived dg.data) := by simp [arrival, hcb]
      rw [harr] at hmoves
      refine (h.arrived (hok.distinct dg · rfl)).moves (fun s a n hl hn => ?_) trivial trivial
        trivial hmoves
      have hold : latest s tm.log = some (a, n) := by
        simpa [record, sview, latest_append, latestStep, Act.responds] using hl
      exact h.not_foreign (l := .recv dg) hclient hold hn
    | purge =>
      simp only [step, hcb]
      exact h.purged
    | fire k i rnd => exact hsame (by simp [arrival])
    | call a => exact hsame (by simp [arrival])
    | ret r rnd => exact hsame (by simp [arrival])

end TM

/-- The datagram holds a request with the identifier and the method of a transaction
that is stored under that identifier. -/
structure IsCopy (env : Env) (tm : TM) (s : ℕ) (dg : Dgram) (req : Req) : Prop where
  request : Lib.Text.startsWith dg.data TM.sip20 = false
  parsed : env.parseReq dg.data = .ok req
  stored : tm.tserver req.tid = some s
  method : req.method = (tm.sheap s).method

/-- The datagram is no fragment, its bytes are not in the cache, its Contact can be
read and it is not taken for a request of our own. -/
structure Accepted (env : Env) (tm : TM) (dg : Dgram) (req : Req) : Prop where
  size : 32 ≤ TM.size dg
  miss : tm.lookup (env.md5 dg.data) = none
  fixed : ∃ fixed, TM.fixRequest tm.natTraversal dg.ra req = .ok fixed
  ours : req.ctids.findSome? tm.tclient = none

/-- How copies of an answered request fare: a byte-identical one that arrives before
the second rotation is answered from the cache with the last response, one that
arrives while the transaction is stored under its branch never reaches the upper
layer, and if its bytes are not in the cache it is answered with the last response. -/
structure CopiesAbsorbed (env : Env) (tm : TM) : Prop where
  identical : ∀ s o u data addr n dg, latest s tm.log = some (.sent o u data addr, n) → n ≤ 1 →
    env.md5 dg.data = (tm.sheap s).checksum → 32 ≤ TM.size dg →
    (TM.step env tm (.recv dg)).log = tm.log ++ [.arrived dg.data, .sent .cached u data addr]
  never : ∀ s dg req, IsCopy env tm s dg req → ∀ s' r c,
    .request s' r c ∈ (TM.step env tm (.recv dg)).log → .request s' r c ∈ tm.log
  stored : ∀ s o u data addr n dg req, latest s tm.log = some (.sent o u data addr, n) →
    IsCopy env tm s dg req → Accepted env tm dg req →
    (TM.step env tm (.recv dg)).log = tm.log ++ [.arrived dg.data, .sent (.duplicate s) u data addr]

namespace TM

def Unasked (tm tm' : TM) : Prop := ∀ s r c, .request s r c ∈ tm'.log → .request s r c ∈ tm.log

section Unasked
variable {tm tm' : TM} {env : Env}

theorem Unasked.record (h : Unasked tm tm') {a : Act} (ha : ∀ s r c, a ≠ .request s r c) :
    Unasked tm (tm'.record a) := by
  intro s r c hmem
  rcases List.mem_append.mp hmem with hmem | hmem
  · exact h s r c hmem
  · exact absurd (List.mem_singleton.mp hmem).symm (ha s r c)

theorem transmitData_unasked {o : Origin} {userv : Server} {data : Text} {addr : TAddr}
    {cachesum : Option Text} {lossemul : ℕ} (h : Unasked tm tm') :
    Unasked tm (transmitData env tm' o userv data addr cachesum lossemul).1 := by
  unfold transmitData
  split
  · exact h
  · have hrec := h.record (a := if lossemul = 0 then .sent o userv data addr
        else .discarded o data) (by intro s r c; split <;> simp)
    cases cachesum with
    | none => exact hrec
    | some c => exact hrec

theorem transmitResp_unasked {userv : Server} {resp : Resp} {c : Text} {compact : Bool}
    (h : Unasked tm tm') : Unasked tm (transmitResp env tm' userv resp c compact).1 := by
  unfold transmitResp
  split
  · exact h
  · exact transmitData_unasked h

theorem settle_unasked {r : Out} (h : Unasked tm r.1) : Unasked tm (settle r) := by
  unfold settle
  split
  · exact h
  · exact h.record (by simp)

theorem existing_copy {g : Guard} {rnd : Text} {s : ℕ}
    (hm : g.req.method = (tm.sheap s).method) :
    existing env tm s g rnd = match (tm.sheap s).data with
      | none => tm.ok
      | some _ => retransmitS env tm (.duplicate s) s (some g.checksum) := by
  unfold existing
  exact if_pos hm

theorem incomingRequest_copy {g : Guard} {userv : Except Exn Server} {consumer : Option Bool}
    {rnd : Text} {s : ℕ} (hack : g.req.method ≠ .ack) (hs : tm'.tserver g.req.tid = some s)
    (hm : g.req.method = (tm'.sheap s).method) (h : Unasked tm tm') :
    Unasked tm (incomingRequest env tm' g userv consumer rnd).1 := by
  unfold incomingRequest
  split
  · exact transmitResp_unasked h
  · simp only [if_neg hack, hs, existing_copy hm]
    split
    · exact h
    · unfold retransmitS
      split
      · exact transmitData_unasked h
      · exact h

theorem handleIncoming_copy {dg : Dgram} {req : Req} {s : ℕ} (hcopy : IsCopy env tm s dg req)
    (hack : req.method ≠ .ack) : Unasked tm (handleIncoming env tm dg).1 := by
  have harr : Unasked tm (tm.record (.arrived dg.data)) :=
    Unasked.record (fun _ _ _ hmem => hmem) (by simp)
  unfold handleIncoming
  dsimp only
  split
  · exact harr
  · split
    · exact harr
    · exact transmitData_unasked harr
    · simp only [hcopy.request, Bool.false_eq_true, if_false, handleRequest, hcopy.parsed]
      split
      · exact harr
      · rename_i fixed hfixed
        refine incomingRequest_copy (s := s) ?_ ?_ ?_ harr
        · rw [fixRequest_method hfixed]; exact hack
        · rw [fixRequest_tid hfixed]; exact hcopy.stored
        · rw [fixRequest_method hfixed]; exact hcopy.method

end Unasked

theorem handleIncoming_cached {env : Env} {tm : TM} {dg : Dgram} {u : Server} {data : Text}
    {addr : TAddr} (hsize : 32 ≤ size dg)
    (hlookup : tm.lookup (env.md5 dg.data) = some (some ⟨u, data, addr, 0⟩))
    (hsend : env.sendOk u addr = true) :
    handleIncoming env tm dg =
      ok ((tm.record (.arrived dg.data)).record (.sent .cached u data addr)) := by
  have hlookup' : (tm.record (.arrived dg.data)).lookup (env.md5 dg.data) =
    some (some ⟨u, data, addr, 0⟩) := hlookup
  have hnot : ¬ size dg < 32 := by omega
  simp [handleIncoming, hnot, hlookup', transmitData, hsend]

theorem handleIncoming_duplicate {env : Env} {tm : TM} {dg : Dgram} {req : Req} {s : ℕ}
    {u : Server} {data : Text} {addr : TAddr} (hcopy : IsCopy env tm s dg req)
    (hacc : Accepted env tm dg req) (hack : req.method ≠ .ack)
    (hu : (tm.sheap s).userv = some u) (hdata : (tm.sheap s).data = some data)
    (haddr : (tm.sheap s).address = some addr) (hsend : env.sendOk u addr = true) :
    ∃ tm', handleIncoming env tm dg = ok tm' ∧
      tm'.log = tm.log ++ [.arrived dg.data, .sent (.duplicate s) u data addr] := by
  obtain ⟨fixed, hfixed⟩ := hacc.fixed
  have hmiss : (tm.record (.arrived dg.data)).lookup (env.md5 dg.data) = none := hacc.miss
  have hfixed' : fixRequest (tm.record (.arrived dg.data)).natTraversal dg.ra req = .ok fixed :=
    hfixed
  have hours : fixed.ctids.findSome? (tm.record (.arrived dg.data)).tclient = none := by
    rw [fixRequest_ctids hfixed]; exact hacc.ours
  have hack' : fixed.method ≠ .ack := by rw [fixRequest_method hfixed]; exact hack
  have hs : (tm.record (.arrived dg.data)).tserver fixed.tid = some s := by
    rw [fixRequest_tid hfixed]; exact hcopy.stored
  have hm : fixed.method = ((tm.record (.arrived dg.data)).sheap s).method := by
    rw [fixRequest_method hfixed]; exact hcopy.method
  have hnot : ¬ size dg < 32 := by have := hacc.size; omega
  simp only [handleIncoming, hnot, if_false, hmiss, hcopy.request, Bool.false_eq_true,
    handleRequest, hcopy.parsed, hfixed', incomingRequest, hours, hack', hs]
  rw [existing_copy (g := ⟨fixed, env.md5 dg.data, dg.server⟩) hm]
  simp only [retransmitS, record, hu, hdata, haddr, transmitData, hsend, if_true]
  exact ⟨_, rfl, by simp⟩

end TM

theorem CopyInv.copiesAbsorbed {env : Env} {tm : TM} (h : CopyInv env tm.sview)
    (hcb : tm.cb = none) : CopiesAbsorbed env tm := by
  have hstored : ∀ {s k}, tm.tserver k = some s → s < tm.snext := fun hs =>
    (h.table.slot _).lt_of_stored hs
  have hack : ∀ {s dg req}, IsCopy env tm s dg req → req.method ≠ .ack := by
    intro s dg req hcopy hm
    obtain ⟨req', -, hnot, -, hmethod, -⟩ := h.origin s (hstored hcopy.stored)
    exact hnot (hmethod.symm.trans (hcopy.method.symm.trans hm))
  refine ⟨fun s o u data addr n dg hl hn hsum hsize => ?_, fun s dg req hcopy => ?_,
    fun s o u data addr n dg req hl hcopy hacc => ?_⟩
  · obtain ⟨r, hr, hsent⟩ := h.lookup hl hn
    obtain ⟨rfl, hsend⟩ := hsent o u data addr rfl
    rw [← hsum] at hr
    simp [TM.step, hcb, TM.handleIncoming_cached hsize hr hsend, TM.ok, TM.settle, TM.record]
  · simp only [TM.step, hcb]
    exact TM.settle_unasked (TM.handleIncoming_copy hcopy (hack hcopy))
  · obtain ⟨hdata, hsend, hserver⟩ := h.last s o u data addr n hl
    obtain ⟨hu, haddr⟩ := hserver (h.table.userv_of_stored hcopy.stored)
    obtain ⟨tm', heq, hlog⟩ := TM.handleIncoming_duplicate hcopy hacc (hack hcopy) hu hdata haddr
      hsend
    simp [TM.step, hcb, heq, TM.ok, TM.settle, hlog]

theorem CopyInv.init (env : Env) (natTraversal : Bool) (provisionalRetr : ℕ) (reqCb : Bool) :
    CopyInv env (TM.init natTraversal provisionalRetr reqCb).sview where
  table := TableInv.init _ natTraversal provisionalRetr reqCb
  final := FinalInv.init natTraversal provisionalRetr reqCb
  distinct d d' hd := by cases hd
  origin s hs := absurd hs (Nat.not_lt_zero s)
  ackFrame s g hg := by cases hg
  known s a n hl := by cases hl
  held s a n hl := by cases hl
  alone s a n hl := by cases hl
  last s o u data addr n hl := by cases hl

/-- In every run whose steps take over no key, transmit their responses and receive
no colliding datagram, copies of answered requests are absorbed in every state in
which a datagram can be handled. -/
theorem copies_absorbed {env : Env} {natTraversal : Bool} {provisionalRetr : ℕ} {reqCb : Bool}
    {ls : List Label}
    (h : Along (TM.step env) (TM.CopyStep env) (TM.init natTraversal provisionalRetr reqCb) ls)
    (hcb : (run (TM.step env) (TM.init natTraversal provisionalRetr reqCb) ls).cb = none) :
    CopiesAbsorbed env (run (TM.step env) (TM.init natTraversal provisionalRetr reqCb) ls) := by
  have hinv : CopyInv env
        (run (TM.step env) (TM.init natTraversal provisionalRetr reqCb) ls).sview ∧
      ClientInv env ⟨False, False⟩
        (run (TM.step env) (TM.init natTraversal provisionalRetr reqCb) ls).cview :=
    h.invariant (I := fun tm : TM => CopyInv env tm.sview ∧ ClientInv env ⟨False, False⟩ tm.cview)
      (fun tm l hok hI => ⟨TM.step_copyInv hI.1 hI.2 hok, hI.2.step ⟨False.elim, False.elim⟩⟩)
      ⟨CopyInv.init env natTraversal provisionalRetr reqCb,
        ClientInv.init env _ natTraversal provisionalRetr reqCb⟩
  exact hinv.1.copiesAbsorbed hcb

/-- The datagram holds the request of the transaction `s` once more, with the same
identifier and the same method. -/
structure Again (env : Env) (tm : TM) (s : ℕ) (d : Text) (dg : Dgram) (req₀ req : Req) : Prop where
  arrived : .arrived d ∈ tm.log
  checksum : env.md5 d = (tm.sheap s).checksum
  first : env.parseReq d = .ok req₀
  again : env.parseReq dg.data = .ok req
  tid : req.tid = req₀.tid
  method : req.method = req₀.method

namespace Sample

theorem refuse_allSent : TM.AllSent inviteEnv asking (refuse branch1) := by
  obtain ⟨hcb, -, -⟩ := asking_reads
  intro s resp rnd hans
  cases hans with
  | returned s g _ _ _ _ hcb' =>
    obtain ⟨rfl, -⟩ := Frame.req.inj (Option.some.inj (hcb.symm.trans hcb'))
    exact ⟨(some "203.0.113.7".toList, 5060), by decide +kernel, fun _ _ => rfl⟩

def changed : Text := text .invite branch1 tag1 ++ "\r\n".toList

def changedEnv : Env := env
  [(text .invite branch1 tag1, req .invite branch1 tag1), (changed, req .invite branch1 tag1)] []

def refusedTm : TM := run (TM.step changedEnv) (TM.init false 0 true) (refused.take 2)

end Sample

open Sample in
theorem copies_absorbed_refused :
    CopiesAbsorbed inviteEnv (run (TM.step inviteEnv) (TM.init false 0 true) (refused.take 2)) := by
  obtain ⟨hinvite, -, -⟩ := texts_read
  refine copies_absorbed ⟨⟨recv_rekeyFree hinvite (by decide), ?_, ?_⟩,
    ⟨refuse_rekeyFree, refuse_allSent, ?_⟩, trivial⟩ (by decide +kernel)
  · intro s resp rnd hans
    cases hans with
    | cancelled _ r _ _ hparse hcancel _ _ =>
      cases hinvite.symm.trans hparse
      exact absurd hcancel (by decide)
  · intro dg d heq hmem
    cases hmem
  · intro dg d heq
    cases heq

open Sample in
theorem changed_not_absorbed :
    ¬ ∀ (env : Env) (ls : List Label) (s : ℕ) (o : Origin) (u : Server) (data : Text) (addr : TAddr)
        (n : ℕ) (d : Text) (dg : Dgram) (req₀ req : Req) (k : STid),
      latest s (run (TM.step env) (TM.init false 0 true) ls).log =
          some (.sent o u data addr, n) →
        Again env (run (TM.step env) (TM.init false 0 true) ls) s d dg req₀ req →
        (run (TM.step env) (TM.init false 0 true) ls).tserver k = some s →
        (run (TM.step env) (TM.init false 0 true) ls).cb = none →
        ∀ s' r c,
          .request s' r c ∈
              (TM.step env (run (TM.step env) (TM.init false 0 true) ls) (.recv dg)).log →
            .request s' r c ∈ (run (TM.step env) (TM.init false 0 true) ls).log := by
  intro hall
  obtain ⟨harrived, hsum, hfirst, hsecond, hlatest, hkey, hcb, hnew, hold⟩ :
      .arrived (text .invite branch1 tag1) ∈ refusedTm.log ∧
        changedEnv.md5 (text .invite branch1 tag1) = (refusedTm.sheap 0).checksum ∧
        changedEnv.parseReq (text .invite branch1 tag1) = .ok (req .invite branch1 tag1) ∧
        changedEnv.parseReq (dgram changed).data = .ok (req .invite branch1 tag1) ∧
        latest 0 refusedTm.log = some (.sent (.response 0 500) server
          (changedEnv.respStr ((req .invite branch1 tag1).genResponse 500 [] []) server false)
          (some "203.0.113.7".toList, 5060), 0) ∧
        refusedTm.tserver ⟨"c1".toList, some "f1".toList, 1, tag1⟩ = some 0 ∧
        refusedTm.cb = none ∧
        .request 1 (req .invite branch1 tag1) changed ∈
          (TM.step changedEnv refusedTm (.recv (dgram changed))).log ∧
        .request 1 (req .invite branch1 tag1) changed ∉ refusedTm.log := by
    decide +kernel
  have hagain : Again changedEnv refusedTm 0 (text .invite branch1 tag1) (dgram changed)
      (req .invite branch1 tag1) (req .invite branch1 tag1) :=
    ⟨harrived, hsum, hfirst, hsecond, rfl, rfl⟩
  have hrun : run (TM.step changedEnv) (TM.init false 0 true) (refused.take 2) = refusedTm := rfl
  have hsame := hall changedEnv (refused.take 2)
  rw [hrun] at hsame
  exact hold (hsame 0 _ _ _ _ 0 _ _ _ _ _ hlatest hagain hkey hcb _ _ _ hnew)

end SippyB2bua.Manager
