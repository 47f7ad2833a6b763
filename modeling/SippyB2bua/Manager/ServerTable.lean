import Mathlib.Data.List.Induction
import SippyB2bua.Manager.FinalResponse

/-!
# Integrity of the server transaction table

A transaction is stored under its own identifier for as long as one of its
timers A and D is scheduled, deleting it never fails, and `noack_cb` is called
only for a transaction whose ACK has not arrived. This holds in every run in
which no final response takes over the key of another transaction and no ACK
of a completed transaction is swallowed before it reaches the table.
-/

namespace SippyB2bua.Manager
open Lib (Text Dict Timer modifyAt run Along)

/-- The datagram is an ACK with the Call-ID, From tag, CSeq and To tag of `key`. -/
def IsAck (env : Env) (data : Text) (key : STid) : Prop :=
  Lib.Text.startsWith data TM.sip20 = false ∧
    ∃ req, env.parseReq data = .ok req ∧ req.method = .ack ∧ req.tidTo = .ok key

/-- No ACK of the transaction arrived after its final response, where `acks` tells
which datagrams count as one. -/
def Unacked (acks : Text → STid → Prop) (s : ℕ) (log : List Act) : Prop :=
  log.Pairwise fun a b => ∀ key data ack, a = .completed s key data → b = .arrived ack →
    ¬ acks ack key

/-- Whenever `noack_cb` was called, the ACK had not arrived until then. -/
def NoackOk (acks : Text → STid → Prop) (log : List Act) : Prop :=
  ∀ s l, l ++ [.noackCb s] <+: log → Unacked acks s l

/-- A transaction whose entries in the table are `K`. -/
structure STr.Ok (t : STr) (K : STid → Prop) : Prop where
  keyed : ∀ k, K k → t.tid = some k
  stored : t.userv ≠ none → t.state ≠ .confirmed → ∃ k, K k
  tightA : t.teA.Tight
  tightD : t.teD.Tight
  liveA : 0 < t.teA.live → t.state = .completed ∧ t.userv ≠ none
  liveD : 0 < t.teD.live → t.state = .completed ∧ t.userv ≠ none
  invite : t.state = .completed → t.userv ≠ none → t.method = .invite
  needack : t.needack = true ↔ t.method = .invite
  cleaned : t.userv = none → t.tid = none

/-- What the suspended callback relies on when it ends. -/
def FrameOk (cb : Option Frame) (s : ℕ) (t : STr) (K : STid → Prop) : Prop :=
  match cb with
  | some (.req s' _) => s' = s → t.state ≠ .confirmed
  | some (.ack s' _) => s' = s →
    t.state = .confirmed ∧ t.userv ≠ none ∧ (∀ k, ¬ K k) ∧ t.teA.live = 0 ∧ t.teD.live = 0
  | some (.noack s') => s' = s →
    t.state = .completed ∧ t.userv ≠ none ∧ t.teA.live = 0 ∧ t.teD.live = 0
  | _ => True

structure Slot (v : SView) (s : ℕ) : Prop where
  ok : (v.sheap s).Ok fun k => v.tserver k = some s
  frame : FrameOk v.cb s (v.sheap s) fun k => v.tserver k = some s
  beyond : v.snext ≤ s →
    (v.sheap s).state = .confirmed ∧ (v.sheap s).userv = none ∧ ∀ k, v.tserver k ≠ some s
  key : ∀ key data, .completed s key data ∈ v.log → 0 < (v.sheap s).teD.live →
    (v.sheap s).tid = some key

structure TableInv (acks : Text → STid → Prop) (exempt : ℕ → Prop) (v : SView) : Prop where
  slot : ∀ s, Slot v s
  noKeyError : ∀ s, .delKeyError s ∉ v.log
  unacked : ∀ s, ¬ exempt s → 0 < (v.sheap s).teD.live → Unacked acks s v.log
  noack : NoackOk acks v.log

namespace STr.Ok
variable {t t' : STr} {K : STid → Prop}

theorem same (h : t.Ok K) (hs : t.Same t') : t'.Ok K where
  keyed k hk := hs.tid ▸ h.keyed k hk
  stored := hs.userv ▸ hs.state ▸ h.stored
  tightA := hs.teA ▸ h.tightA
  tightD := hs.teD ▸ h.tightD
  liveA := hs.teA ▸ hs.state ▸ hs.userv ▸ h.liveA
  liveD := hs.teD ▸ hs.state ▸ hs.userv ▸ h.liveD
  invite := hs.state ▸ hs.userv ▸ hs.method ▸ h.invite
  needack := hs.needack ▸ hs.method ▸ h.needack
  cleaned := hs.userv ▸ hs.tid ▸ h.cleaned

theorem idle_of_open (h : t.Ok K) (ho : t.open) : t.teA.live = 0 ∧ t.teD.live = 0 := by
  constructor
  · by_contra hl
    exact ho.not_done (.inl (h.liveA (by omega)).1)
  · by_contra hl
    exact ho.not_done (.inl (h.liveD (by omega)).1)

theorem key_iff (h : t.Ok K) (hu : t.userv ≠ none) (hs : t.state ≠ .confirmed) {k : STid}
    (htid : t.tid = some k) : K k := by
  obtain ⟨k', hk'⟩ := h.stored hu hs
  obtain rfl : k' = k := Option.some.inj ((h.keyed k' hk').symm.trans htid)
  exact hk'

theorem cleanup (hA : t.teA.live = 0) (hD : t.teD.live = 0)
    (hn : t.needack = true ↔ t.method = .invite) (hK : ∀ k, ¬ K k) : t.cleanup.Ok K where
  keyed k hk := (hK k hk).elim
  stored hu := absurd rfl hu
  tightA := Lib.Timer.tight_of_live hA
  tightD := Lib.Timer.tight_of_live hD
  liveA h := absurd hA (Nat.pos_iff_ne_zero.mp h)
  liveD h := absurd hD (Nat.pos_iff_ne_zero.mp h)
  invite _ hu := absurd rfl hu
  needack := hn
  cleaned _ := rfl

end STr.Ok

theorem STr.open.ne_confirmed {t : STr} (h : t.open) : t.state ≠ .confirmed :=
  fun hc => h.not_done (.inr hc)

namespace FrameOk
variable {cb : Option Frame} {s : ℕ} {t t' : STr} {K K' : STid → Prop}

theorem same (h : FrameOk cb s t K) (hs : t.Same t') : FrameOk cb s t' K := by
  unfold FrameOk at *
  rw [hs.state, hs.userv, hs.teA, hs.teD]
  exact h

theorem of_open (h : FrameOk cb s t K) (ho : t.open) (hs : t'.state ≠ .confirmed) :
    FrameOk cb s t' K' := by
  unfold FrameOk at *
  split
  · exact fun _ => hs
  · rename_i s' g
    rintro rfl
    exact absurd (h rfl).1 ho.ne_confirmed
  · rename_i s'
    rintro rfl
    exact absurd (.inl (h rfl).1) ho.not_done
  · trivial

theorem of_fresh (h : FrameOk cb s t K) (hs : t.state = .confirmed) (hu : t.userv = none) :
    FrameOk cb s t' K' := by
  unfold FrameOk at *
  split
  · rintro rfl
    exact absurd hs (h rfl)
  · rintro rfl
    exact absurd hu (h rfl).2.1
  · rintro rfl
    exact absurd hu (h rfl).2.1
  · trivial

/-- Nobody but a request callback waits for a transaction with a scheduled timer. -/
theorem of_live (h : FrameOk cb s t K) (hl : 0 < t.teA.live ∨ 0 < t.teD.live)
    (hs : t'.state ≠ .confirmed) : FrameOk cb s t' K' := by
  unfold FrameOk at *
  split
  · exact fun _ => hs
  · rintro rfl
    obtain ⟨-, -, -, hA, hD⟩ := h rfl
    omega
  · rintro rfl
    obtain ⟨-, -, hA, hD⟩ := h rfl
    omega
  · trivial

theorem of_plain (h : cb = none ∨ ∃ f, cb = some f ∧ f.plain = true) : FrameOk cb s t K := by
  rcases h with rfl | ⟨f, rfl, hf⟩
  · trivial
  · cases f <;> trivial

end FrameOk

namespace Slot
variable {v v' : SView} {s : ℕ}

theorem other (h : Slot v s) (hheap : v'.sheap s = v.sheap s)
    (htab : ∀ k, v'.tserver k = some s ↔ v.tserver k = some s) (hnext : v.snext ≤ v'.snext)
    (hcb : FrameOk v'.cb s (v.sheap s) fun k => v.tserver k = some s)
    (hlog : ∀ key data, .completed s key data ∈ v'.log → .completed s key data ∈ v.log) :
    Slot v' s := by
  have hK : (fun k => v'.tserver k = some s) = fun k => v.tserver k = some s :=
    funext fun k => propext (htab k)
  refine ⟨?_, ?_, fun hs => ?_, fun key data hmem => ?_⟩
  · rw [hheap, hK]; exact h.ok
  · rw [hheap, hK]; exact hcb
  · rw [hheap]
    obtain ⟨h1, h2, h3⟩ := h.beyond (hnext.trans hs)
    exact ⟨h1, h2, fun k hk => h3 k ((htab k).mp hk)⟩
  · rw [hheap]; exact h.key key data (hlog key data hmem)

theorem lt_of_open (h : Slot v s) (ho : (v.sheap s).open) : s < v.snext := by
  by_contra hge
  exact ho.2 (h.beyond (by omega)).2.1

theorem lt_of_stored (h : Slot v s) {k : STid} (hk : v.tserver k = some s) : s < v.snext := by
  by_contra hge
  exact (h.beyond (by omega)).2.2 k hk

end Slot

section Log
variable {acks : Text → STid → Prop} {s : ℕ} {log as : List Act}

theorem Unacked.append (h : Unacked acks s log) (has : ∀ data, .arrived data ∉ as) :
    Unacked acks s (log ++ as) := by
  have hno : ∀ b ∈ as, ∀ ack, b ≠ .arrived ack := by
    rintro b hb ack rfl
    exact has ack hb
  refine List.pairwise_append.mpr ⟨h, List.pairwise_of_forall_mem_list ?_, ?_⟩
  · intro a _ b hb key data ack _ heq
    exact absurd heq (hno b hb ack)
  · intro a _ b hb key data ack _ heq
    exact absurd heq (hno b hb ack)

theorem Unacked.of_incomplete (h : ∀ key data, .completed s key data ∉ log) :
    Unacked acks s log := by
  refine List.pairwise_of_forall_mem_list ?_
  rintro a ha b _ key data ack rfl
  exact absurd ha (h key data)

theorem NoackOk.append (h : NoackOk acks log) (has : ∀ s, .noackCb s ∉ as) :
    NoackOk acks (log ++ as) := by
  induction as using List.reverseRecOn with
  | nil => simpa using h
  | append_singleton as a ih =>
    have hlog := ih fun s hmem => has s (List.mem_append_left _ hmem)
    intro s l hpre
    rw [← List.append_assoc, List.prefix_concat_iff] at hpre
    rcases hpre with heq | hpre
    · have hlast : a = .noackCb s := by
        simpa using (congrArg List.getLast? heq).symm
      exact absurd (by simp [hlast]) (has s)
    · exact hlog s l hpre

theorem NoackOk.call (h : NoackOk acks log) (hun : Unacked acks s log) :
    NoackOk acks (log ++ [.noackCb s]) := by
  intro s' l hpre
  rcases List.prefix_concat_iff.mp hpre with heq | hpre
  · obtain ⟨rfl, hcb⟩ := List.append_inj' heq rfl
    cases hcb
    exact hun
  · exact h s' l hpre

end Log

/-- Entries that say nothing about the table and about other transactions. -/
def Act.tame (s : ℕ) : Act → Bool
  | .arrived _ | .noackCb _ | .delKeyError _ => false
  | .completed s' _ _ => s' = s
  | _ => true

theorem Act.tame_of_ofServer {a : Act} (s : ℕ) (h : a.ofServer = false) : a.tame s = true := by
  cases a <;> simp_all [Act.ofServer, Act.tame]

theorem Act.answers.tame {a : Act} {s : ℕ} {scode : ℤ} {data : Text} (h : a.answers s scode data)
    (s' : ℕ) : a.tame s' = true := by
  rcases h with ⟨u, addr, rfl⟩ | rfl <;> rfl

namespace TableInv
variable {acks : Text → STid → Prop} {env : Env} {exempt : ℕ → Prop} {v v' : SView} {m : Mode}

/-- A move that concerns the transaction `s` only. -/
theorem of_slot (h : TableInv acks exempt v) {exempt' : ℕ → Prop} {s : ℕ} {l : List Act}
    (hlog : v'.log = v.log ++ l) (hslot : Slot v' s)
    (hheap : ∀ s', s' ≠ s → v'.sheap s' = v.sheap s')
    (htab : ∀ s', s' ≠ s → ∀ k, v'.tserver k = some s' ↔ v.tserver k = some s')
    (hnext : v.snext ≤ v'.snext)
    (hcb : ∀ s', s' ≠ s → FrameOk v'.cb s' (v.sheap s') fun k => v.tserver k = some s')
    (hother : ∀ s' key data, s' ≠ s → .completed s' key data ∉ l)
    (hplain : (∀ data, .arrived data ∉ l) ∧ ∀ s', .delKeyError s' ∉ l)
    (hnoack : NoackOk acks v'.log) (hex : ∀ s', s' ≠ s → exempt s' → exempt' s')
    (hun : ¬ exempt' s → 0 < (v'.sheap s).teD.live → Unacked acks s v'.log) :
    TableInv acks exempt' v' := by
  refine ⟨fun s' => ?_, fun s' hmem => ?_, fun s' he hlive => ?_, hnoack⟩
  · by_cases hs : s' = s
    · exact hs ▸ hslot
    · refine (h.slot s').other (hheap s' hs) (htab s' hs) hnext (hcb s' hs) fun key data hmem => ?_
      rcases List.mem_append.mp (hlog ▸ hmem) with hmem | hmem
      · exact hmem
      · exact absurd hmem (hother s' key data hs)
  · rcases List.mem_append.mp (hlog ▸ hmem) with hmem | hmem
    · exact h.noKeyError s' hmem
    · exact hplain.2 s' hmem
  · by_cases hs : s' = s
    · subst hs; exact hun he hlive
    · rw [hheap s' hs] at hlive
      exact hlog ▸ (h.unacked s' (fun hx => he (hex s' hs hx)) hlive).append hplain.1

/-- A move that changes the transaction `s` and its entries. -/
theorem of_modify (h : TableInv acks exempt v) {s : ℕ} {f : STr → STr} {d : Dict STid ℕ}
    {e : Dict Text (Option Retransmit)} {b : Option Frame} {l : List Act}
    (has : ∀ a ∈ l, a.tame s = true)
    (htab : ∀ s', s' ≠ s → ∀ k, d k = some s' ↔ v.tserver k = some s')
    (hcb : ∀ s', s' ≠ s → FrameOk b s' (v.sheap s') fun k => v.tserver k = some s')
    (hok : (f (v.sheap s)).Ok fun k => d k = some s)
    (hframe : FrameOk b s (f (v.sheap s)) fun k => d k = some s)
    (hbeyond : v.snext ≤ s → (f (v.sheap s)).state = .confirmed ∧ (f (v.sheap s)).userv = none ∧
      ∀ k, d k ≠ some s)
    (hlive : 0 < (f (v.sheap s)).teD.live → 0 < (v.sheap s).teD.live ∧
      (f (v.sheap s)).tid = (v.sheap s).tid ∧ ∀ key data, .completed s key data ∉ l) :
    TableInv acks exempt { v with
      sheap := modifyAt v.sheap s f, tserver := d, l1 := e, cb := b,
      log := v.log ++ l } := by
  have hwild : ∀ a : Act, a.tame s = false → a ∉ l := fun a ha hmem => by simp [has a hmem] at ha
  refine h.of_slot (s := s) rfl ?_ (fun s' hs => Lib.modifyAt_other _ _ hs) htab (Nat.le_refl _) hcb
    (fun s' key data hs => hwild _ (by simpa [Act.tame] using hs))
    ⟨fun data => hwild _ rfl, fun s' => hwild _ rfl⟩
    (h.noack.append fun s' => hwild _ rfl) (fun s' _ hx => hx) fun hx hl => ?_
  · refine ⟨?_, ?_, fun hs => ?_, fun key data hmem hl => ?_⟩
    · simpa using hok
    · simpa using hframe
    · simpa using hbeyond hs
    · simp only [Lib.modifyAt_same] at hl ⊢
      obtain ⟨hl, htid, hnone⟩ := hlive hl
      rcases List.mem_append.mp hmem with hmem | hmem
      · exact htid.trans ((h.slot s).key key data hmem hl)
      · exact absurd hmem (hnone key data)
  · simp only [Lib.modifyAt_same] at hl
    exact (h.unacked s hx (hlive hl).1).append fun data => hwild _ rfl

theorem gone (h : TableInv acks exempt v) {s : ℕ} {k : STid} (hk : v.tserver k = some s) (j : STid) :
    v.tserver.del k j ≠ some s := by
  intro hj
  obtain ⟨hne, hj⟩ := Lib.Dict.del_eq_some.mp hj
  have h1 := (h.slot s).ok.keyed j hj
  have h2 := (h.slot s).ok.keyed k hk
  exact hne (Option.some.inj (h1.symm.trans h2))

theorem of_remove (h : TableInv acks exempt v) {s : ℕ} {k : STid} {t : STr}
    {e : Dict Text (Option Retransmit)} {b : Option Frame} {l : List Act}
    (has : ∀ a ∈ l, a.tame s = true) (hk : v.tserver k = some s) (hcb : b = v.cb ∨ b = none)
    (hown : b = v.cb → FrameOk b s t.cleanup fun k' => v.tserver.del k k' = some s)
    (hA : t.teA.live = 0) (hD : t.teD.live = 0) (hn : t.needack = true ↔ t.method = .invite) :
    TableInv acks exempt { v with
      sheap := modifyAt v.sheap s fun _ => t.cleanup
      tserver := v.tserver.del k
      l1 := e
      cb := b
      log := v.log ++ l } := by
  have hlt := (h.slot s).lt_of_stored hk
  refine h.of_modify has (fun s' hs j => Lib.Dict.del_eq_some_of_ne hk hs) ?_
    (.cleanup hA hD hn (h.gone hk)) ?_ (fun hge => absurd hlt (by omega))
    (fun hl => absurd hD (Nat.pos_iff_ne_zero.mp hl))
  · intro s' _
    rcases hcb with rfl | rfl
    · exact (h.slot s').frame
    · trivial
  · rcases hcb with hcb | hcb
    · exact hown hcb
    · exact .of_plain (.inl hcb)

theorem of_quiet (h : TableInv acks exempt v) {l : List Act} {b : Option Frame}
    {e l2 : Dict Text (Option Retransmit)} (has : ∀ a ∈ l, ∀ s, a.tame s = true)
    (hcb : b = v.cb ∨ b = none ∨ ∃ f, b = some f ∧ f.plain = true) :
    TableInv acks exempt { v with log := v.log ++ l, cb := b, l1 := e, l2 := l2 } := by
  have hframe : ∀ s, FrameOk b s (v.sheap s) fun k => v.tserver k = some s := by
    intro s
    rcases hcb with rfl | hcb
    · exact (h.slot s).frame
    · exact .of_plain hcb
  have hwild : ∀ (a : Act) (s : ℕ), a.tame s = false → a ∉ l := fun a s ha hmem => by
    simp [has a hmem s] at ha
  have hdone : ∀ s key data, .completed s key data ∉ l := fun s key data =>
    hwild _ (s + 1) (by simp [Act.tame])
  have harr : ∀ data, .arrived data ∉ l := fun data => hwild _ 0 rfl
  refine h.of_slot (s := 0) rfl ?_ (fun _ _ => rfl) (fun _ _ _ => .rfl) (Nat.le_refl _)
    (fun s _ => hframe s) (fun s key data _ => hdone s key data) ⟨harr, fun _ => hwild _ 0 rfl⟩
    (h.noack.append fun _ => hwild _ 0 rfl) (fun _ _ hx => hx)
    fun hx hl => (h.unacked 0 hx hl).append harr
  refine (h.slot 0).other rfl (fun _ => .rfl) (Nat.le_refl _) (hframe 0) fun key data hmem => ?_
  rcases List.mem_append.mp hmem with hmem | hmem
  · exact hmem
  · exact absurd hmem (hdone 0 key data)

theorem of_store (h : TableInv acks exempt v) {t : STr} {k : STid} (htid : t.tid = some k)
    (hstate : t.state = .trying) (huserv : t.userv ≠ none)
    (hack : t.needack = true ↔ t.method = .invite) (hA : t.teA = .off) (hD : t.teD = .off)
    (hfree : v.tserver k = none) (hnew : ∀ key data, .completed v.snext key data ∉ v.log) :
    TableInv acks exempt { v with
      sheap := Function.update v.sheap v.snext t
      snext := v.snext + 1
      tserver := v.tserver.set k v.snext } := by
  have hbeyond := ((h.slot v.snext).beyond (Nat.le_refl _)).2.2
  have hkey : ∀ k', v.tserver.set k v.snext k' = some v.snext ↔ k' = k := by
    intro k'
    rw [Lib.Dict.set_eq_some]
    constructor
    · rintro (⟨rfl, -⟩ | ⟨-, hk'⟩)
      · rfl
      · exact absurd hk' (hbeyond k')
    · rintro rfl
      exact .inl ⟨rfl, rfl⟩
  refine h.of_slot (s := v.snext) (l := []) (by simp) ?_
    (fun s' hs => Function.update_of_ne hs _ _) (fun s' hs k' => ?_) (Nat.le_succ _)
    (fun s' _ => (h.slot s').frame) (by simp) (by simp) h.noack (fun _ _ hx => hx)
    fun _ hl => ?_
  · refine ⟨?_, ?_, fun hs => absurd hs (by simp), fun key data hmem => ?_⟩
    · simp only [Function.update_self]
      exact {
        keyed := fun k' hk' => by rw [htid, (hkey k').mp hk']
        stored := fun _ _ => ⟨k, (hkey k).mpr rfl⟩
        tightA := hA ▸ Lib.Timer.tight_off
        tightD := hD ▸ Lib.Timer.tight_off
        liveA := fun hl => by simp [hA] at hl
        liveD := fun hl => by simp [hD] at hl
        invite := fun hs => by simp [hstate] at hs
        needack := hack
        cleaned := fun hu => absurd hu huserv }
    · simp only [Function.update_self]
      have hfresh := (h.slot v.snext).beyond (Nat.le_refl _)
      exact FrameOk.of_fresh (h.slot v.snext).frame hfresh.1 hfresh.2.1
    · exact absurd hmem (hnew key data)
  · rw [Lib.Dict.set_eq_some]
    constructor
    · rintro (⟨-, hk'⟩ | ⟨-, hk'⟩)
      · exact absurd hk'.symm hs
      · exact hk'
    · intro hk'
      refine .inr ⟨?_, hk'⟩
      rintro rfl
      simp [hfree] at hk'
  · simp [hD] at hl

theorem of_completeKeep (h : TableInv acks exempt v) (hfin : FinalInv v) {s : ℕ} {k : STid}
    {tag : Option Text} {scode : ℤ} {r : Retransmit} {a : Act} {ackCb : Bool}
    {e : Dict Text (Option Retransmit)}
    (hs : (v.sheap s).open) (ha : a.answers s scode r.data) (hack : (v.sheap s).needack = true)
    (htid : (v.sheap s).tid = some k)
    (hfree : ∀ s', v.tserver (TM.rekey k tag) = some s' → s' = s) :
    TableInv acks exempt { v with
      sheap := modifyAt v.sheap s fun t =>
        { (t.drafted r).waitAck ackCb with
          tid := t.tid.map fun k => TM.rekey k tag, teA := t.teA.arm }
      tserver := (v.tserver.del k).set (TM.rekey k tag) s
      l1 := e
      log := v.log ++ [a, .completed s (TM.rekey k tag) r.data] } := by
  have hok := (h.slot s).ok
  have hk : v.tserver k = some s := hok.key_iff hs.2 hs.ne_confirmed htid
  obtain ⟨hA, hD⟩ := hok.idle_of_open hs
  have hnew : ∀ key d, .completed s key d ∉ v.log := fun key d hmem =>
    absurd rfl (hfin.ne_of_open hs hmem)
  have hkey : ∀ k', (v.tserver.del k).set (TM.rekey k tag) s k' = some s ↔
      k' = TM.rekey k tag := by
    intro k'
    rw [Lib.Dict.set_eq_some]
    constructor
    · rintro (⟨rfl, -⟩ | ⟨-, hk'⟩)
      · rfl
      · exact absurd hk' (h.gone hk k')
    · rintro rfl
      exact .inl ⟨rfl, rfl⟩
  have harr : ∀ d, .arrived d ∉ [a, .completed s (TM.rekey k tag) r.data] := by
    rcases ha with ⟨u, addr, rfl⟩ | rfl <;> simp
  refine h.of_slot (s := s) rfl ?_ (fun s' hs' => by simp [Lib.modifyAt_other _ _ hs'])
    (fun s' hs' k' => ?_) (Nat.le_refl _) (fun s' _ => (h.slot s').frame) ?_ ⟨harr, ?_⟩ (h.noack.append ?_)
    (fun _ _ hx => hx) fun _ _ => (Unacked.of_incomplete hnew).append harr
  · refine ⟨?_, ?_, fun hge => absurd ((h.slot s).lt_of_open hs) (Nat.not_lt.mpr hge), ?_⟩
    · simp only [Lib.modifyAt_same]
      exact {
        keyed := fun k' hk' => by simp [htid, (hkey k').mp hk']
        stored := fun _ _ => ⟨_, (hkey _).mpr rfl⟩
        tightA := Lib.Timer.tight_arm hA
        tightD := Lib.Timer.tight_arm hD
        liveA := fun _ => ⟨rfl, hs.2⟩
        liveD := fun _ => ⟨rfl, hs.2⟩
        invite := fun _ _ => hok.needack.mp hack
        needack := hok.needack
        cleaned := fun hu => absurd hu hs.2 }
    · simp only [Lib.modifyAt_same]
      exact FrameOk.of_open (h.slot s).frame hs (by simp [STr.waitAck, STr.finished])
    · intro key d hmem _
      have hlast : key = TM.rekey k tag := by
        rcases List.mem_append.mp hmem with hmem | hmem
        · exact absurd hmem (hnew key d)
        · rcases List.mem_cons.mp hmem with hmem | hmem
          · exact absurd hmem.symm ha.ne_completed
          · cases List.mem_singleton.mp hmem; rfl
      simp [STr.waitAck, htid, hlast]
  · rw [Lib.Dict.set_eq_some]
    constructor
    · rintro (⟨-, heq⟩ | ⟨-, hk'⟩)
      · exact absurd heq.symm hs'
      · exact (Lib.Dict.del_eq_some_of_ne hk hs').mp hk'
    · intro hk'
      refine .inr ⟨?_, (Lib.Dict.del_eq_some_of_ne hk hs').mpr hk'⟩
      rintro rfl
      exact hs' (hfree s' hk')
  · rintro s' key d hs' hmem
    rcases List.mem_cons.mp hmem with hmem | hmem
    · exact absurd hmem.symm ha.ne_completed
    · cases List.mem_singleton.mp hmem
      exact hs' rfl
  · rcases ha with ⟨u, addr, rfl⟩ | rfl <;> simp
  · rcases ha with ⟨u, addr, rfl⟩ | rfl <;> simp

theorem of_noack (h : TableInv acks exempt v) {s : ℕ} (hlive : 0 < (v.sheap s).teD.live)
    (hex : ¬ exempt s) :
    TableInv acks exempt { v with
      sheap := modifyAt v.sheap s fun t => { t with teD := t.teD.fire, teA := t.teA.cancel }
      cb := some (.noack s)
      log := v.log ++ [.noackCb s] } := by
  have hok := (h.slot s).ok
  obtain ⟨hstate, huserv⟩ := hok.liveD hlive
  have hA := hok.tightA.cancel_live
  have hD := hok.tightD.fire_live
  refine h.of_slot (s := s) rfl ?_ (fun s' hs' => by simp [Lib.modifyAt_other _ _ hs'])
    (fun _ _ _ => .rfl) (Nat.le_refl _) (fun s' hs' heq => absurd heq.symm hs') (by simp) (by simp)
    (h.noack.call (h.unacked s hex hlive)) (fun _ _ hx => hx) fun _ hl => ?_
  · refine ⟨?_, ?_, fun hge => ?_, fun key data _ hl => ?_⟩
    · simp only [Lib.modifyAt_same]
      exact {
        keyed := hok.keyed
        stored := hok.stored
        tightA := Lib.Timer.tight_of_live hA
        tightD := Lib.Timer.tight_of_live hD
        liveA := fun hl => absurd hA (Nat.pos_iff_ne_zero.mp hl)
        liveD := fun hl => absurd hD (Nat.pos_iff_ne_zero.mp hl)
        invite := hok.invite
        needack := hok.needack
        cleaned := hok.cleaned }
    · simp only [Lib.modifyAt_same]
      exact fun _ => ⟨hstate, huserv, hA, hD⟩
    · exact absurd ((h.slot s).beyond hge).2.1 huserv
    · simp only [Lib.modifyAt_same] at hl
      exact absurd hD (Nat.pos_iff_ne_zero.mp hl)
  · simp only [Lib.modifyAt_same] at hl
    exact absurd hD (Nat.pos_iff_ne_zero.mp hl)

theorem userv_of_stored (h : TableInv acks exempt v) {s : ℕ} {k : STid}
    (hk : v.tserver k = some s) : (v.sheap s).userv ≠ none := by
  intro hu
  have htid := (h.slot s).ok.keyed k hk
  simp [(h.slot s).ok.cleaned hu] at htid

theorem keyed_of_stored (h : TableInv acks exempt v) {s : ℕ} {k : STid}
    (hk : v.tserver k = some s) : v.keyed s k := ⟨(h.slot s).ok.keyed k hk, by simp [hk]⟩

theorem keyed_of_used (h : TableInv acks exempt v) {s : ℕ} (hu : (v.sheap s).userv ≠ none)
    (hs : (v.sheap s).state ≠ .confirmed) : ∃ k, v.keyed s k := by
  obtain ⟨k, hk⟩ := (h.slot s).ok.stored hu hs
  exact ⟨k, h.keyed_of_stored hk⟩

theorem of_ack (h : TableInv acks exempt v) {s : ℕ} {k : STid} (hcb : v.cb = none)
    (hk : v.tserver k = some s) (hs : (v.sheap s).state = .completed)
    (hex : ∀ s', exempt s' → s' = s) {c : Text} (hm : AckMove s c v v') :
    TableInv acks (fun _ => False) v' := by
  have hok := (h.slot s).ok
  have huserv := h.userv_of_stored hk
  have hlt := (h.slot s).lt_of_stored hk
  have hA := hok.tightA.cancel_live
  have hD := hok.tightD.cancel_live
  have hkeyed : ∀ k', v.keyed s k' → v.tserver k' = some s := fun k' hk' =>
    hok.key_iff huserv (by simp [hs]) hk'.1
  have hdone : ∀ s', s' ≠ s → exempt s' → False := fun s' hs' hx => hs' (hex s' hx)
  cases hm with
  | broken href =>
    have hD' := hok.tightD.live_of_ref href
    refine h.of_slot (s := s) (l := []) (by simp) ?_
      (fun s' hs' => by simp [Lib.modifyAt_other _ _ hs']) (fun _ _ _ => .rfl) (Nat.le_refl _)
      (fun s' _ => (h.slot s').frame) (by simp) (by simp) h.noack hdone fun _ hl => ?_
    · refine ⟨?_, .of_plain (.inl hcb), fun hge => absurd hlt (Nat.not_lt.mpr hge), ?_⟩
      · simp only [Lib.modifyAt_same]
        exact {
          keyed := hok.keyed
          stored := fun _ hc => absurd rfl hc
          tightA := Lib.Timer.tight_of_live hA
          tightD := hok.tightD
          liveA := fun hl => absurd hA (Nat.pos_iff_ne_zero.mp hl)
          liveD := fun hl => absurd hD' (Nat.pos_iff_ne_zero.mp hl)
          invite := fun hc => by cases hc
          needack := hok.needack
          cleaned := hok.cleaned }
      · intro key data hmem hl
        simp only [Lib.modifyAt_same] at hl
        exact absurd hD' (Nat.pos_iff_ne_zero.mp hl)
    · simp only [Lib.modifyAt_same] at hl
      exact absurd hD' (Nat.pos_iff_ne_zero.mp hl)
  | lost hlost => exact absurd (h.keyed_of_stored hk) (hlost k)
  | call k' g hk' hg =>
    have hk' := hkeyed k' hk'
    refine h.of_slot (s := s) (l := [.ackCb s]) rfl ?_
      (fun s' hs' => by simp [Lib.modifyAt_other _ _ hs'])
      (fun s' hs' j => Lib.Dict.del_eq_some_of_ne hk' hs') (Nat.le_refl _)
      (fun s' hs' heq => absurd heq.symm hs') (by simp) (by simp) (h.noack.append (by simp)) hdone
      fun _ hl => ?_
    · refine ⟨?_, ?_, fun hge => absurd hlt (Nat.not_lt.mpr hge), ?_⟩
      · simp only [Lib.modifyAt_same]
        exact {
          keyed := fun j hj => absurd hj (h.gone hk' j)
          stored := fun _ hc => absurd rfl hc
          tightA := Lib.Timer.tight_of_live hA
          tightD := Lib.Timer.tight_of_live hD
          liveA := fun hl => absurd hA (Nat.pos_iff_ne_zero.mp hl)
          liveD := fun hl => absurd hD (Nat.pos_iff_ne_zero.mp hl)
          invite := fun hc => by cases hc
          needack := hok.needack
          cleaned := hok.cleaned }
      · simp only [Lib.modifyAt_same]
        exact fun _ => ⟨rfl, huserv, h.gone hk', hA, hD⟩
      · intro key data hmem hl
        simp only [Lib.modifyAt_same] at hl
        exact absurd hD (Nat.pos_iff_ne_zero.mp hl)
    · simp only [Lib.modifyAt_same] at hl
      exact absurd hD (Nat.pos_iff_ne_zero.mp hl)
  | done k' hk' =>
    have hk' := hkeyed k' hk'
    refine h.of_slot (s := s) (l := []) (by simp) ?_
      (fun s' hs' => by simp [Lib.modifyAt_other _ _ hs'])
      (fun s' hs' j => Lib.Dict.del_eq_some_of_ne hk' hs') (Nat.le_refl _)
      (fun s' _ => (h.slot s').frame) (by simp) (by simp) h.noack hdone fun _ hl => ?_
    · refine ⟨?_, .of_plain (.inl hcb), fun hge => absurd hlt (Nat.not_lt.mpr hge), ?_⟩
      · simp only [Lib.modifyAt_same]
        exact .cleanup hA hD hok.needack (h.gone hk')
      · intro key data hmem hl
        simp only [Lib.modifyAt_same] at hl
        exact absurd hD (Nat.pos_iff_ne_zero.mp hl)
    · simp only [Lib.modifyAt_same] at hl
      exact absurd hD (Nat.pos_iff_ne_zero.mp hl)

theorem move (h : TableInv acks (fun _ => False) v) (hfin : FinalInv v) (hst : m.strict)
    (hm : SMove env m v v') : TableInv acks (fun _ => False) v' := by
  cases hm with
  | quiet as cb l1 has hcb hl1 =>
    exact h.of_quiet (fun a ha s => Act.tame_of_ofServer s (has a ha)) hcb
  | store t req htid hstate huserv hdata hmethod hack hA hD hnot horigin hfree hmiss hcancel =>
    exact h.of_store htid hstate huserv hack hA hD hfree fun key data hmem =>
      absurd (hfin.kept _ key data hmem).1 (Nat.lt_irrefl _)
  | askUpper s g hs =>
    refine h.of_slot (s := s) (l := []) (by simp) ?_ (fun _ _ => rfl) (fun _ _ _ => .rfl)
      (Nat.le_refl _) (fun s' hs' heq => absurd heq.symm hs') (by simp) (by simp) h.noack
      (fun _ _ hx => hx) fun hx hl => h.unacked s hx hl
    exact ⟨(h.slot s).ok, fun _ => hs, (h.slot s).beyond, (h.slot s).key⟩
  | touch s f hf =>
    have := h.of_modify (s := s) (f := f) (d := v.tserver) (e := v.l1) (b := v.cb)
      (l := []) (by simp) (fun _ _ _ => .rfl) (fun s' _ => (h.slot s').frame) ((h.slot s).ok.same hf)
      (FrameOk.same (h.slot s).frame hf) (fun hge => by
        obtain ⟨h1, h2, h3⟩ := (h.slot s).beyond hge
        exact ⟨hf.state.trans h1, hf.userv.trans h2, h3⟩) fun hl => ⟨hf.teD ▸ hl, hf.tid, by simp⟩
    simpa using this
  | draft s data addr hs hfail =>
    have hok := (h.slot s).ok
    have := h.of_modify (s := s)
      (f := fun t => { t with data := some data, address := addr t.address }) (e := v.l1)
      (d := v.tserver) (b := v.cb) (l := []) (by simp) (fun _ _ _ => .rfl)
      (fun s' _ => (h.slot s').frame)
      ⟨hok.keyed, hok.stored, hok.tightA, hok.tightD, hok.liveA, hok.liveD, hok.invite,
        hok.needack, hok.cleaned⟩
      (FrameOk.of_open (h.slot s).frame hs hs.ne_confirmed) (h.slot s).beyond
      fun hl => ⟨hl, rfl, by simp⟩
    simpa using this
  | ring s scode r a teF hs ha hr hcode hcur =>
    have hok := (h.slot s).ok
    obtain ⟨hA, hD⟩ := hok.idle_of_open hs
    exact h.of_modify (s := s)
      (f := fun t => { t.drafted r with state := .ringing, teF := teF t.teF })
      (d := v.tserver) (b := v.cb) (l := [a]) (by simpa using ha.tame s)
      (fun _ _ _ => .rfl) (fun s' _ => (h.slot s').frame)
      { keyed := hok.keyed
        stored := fun _ _ => hok.stored hs.2 hs.ne_confirmed
        tightA := hok.tightA
        tightD := hok.tightD
        liveA := fun hl => absurd hA (Nat.pos_iff_ne_zero.mp hl)
        liveD := fun hl => absurd hD (Nat.pos_iff_ne_zero.mp hl)
        invite := fun hc => by cases hc
        needack := hok.needack
        cleaned := hok.cleaned }
      (FrameOk.of_open (h.slot s).frame hs (by simp))
      (fun hge => absurd ((h.slot s).lt_of_open hs) (Nat.not_lt.mpr hge))
      fun hl => absurd hD (Nat.pos_iff_ne_zero.mp hl)
  | completeKeep s k tag scode r a ackCb hs ha hr hcode hcur hack hk hfree =>
    exact h.of_completeKeep hfin hs ha hack hk.1 (hfree hst)
  | completeDrop s k key scode r a hs ha hr hcode hcur hack hk =>
    have hok := (h.slot s).ok
    obtain ⟨hA, hD⟩ := hok.idle_of_open hs
    have hstored : v.tserver k = some s := hok.key_iff hs.2 hs.ne_confirmed hk.1
    have htame : (Act.completed s key r.data).tame s = true := by simp [Act.tame]
    exact h.of_remove (t := ((v.sheap s).drafted r).finished) (b := v.cb) (by simp [ha.tame s, htame])
      hstored (.inl rfl) (fun _ => FrameOk.of_open (h.slot s).frame hs (by
        simp [STr.cleanup, STr.finished])) hA hD hok.needack
  | completeLost s key scode r a f hs ha hr hcode hcur hf hk =>
    obtain ⟨k, hkeyed⟩ := h.keyed_of_used hs.2 hs.ne_confirmed
    exact absurd hkeyed (hk k)
  | expireD s k hlive hk =>
    have hok := (h.slot s).ok
    obtain ⟨hstate, huserv⟩ := hok.liveD hlive
    have hstored : v.tserver k = some s := hok.key_iff huserv (by simp [hstate]) hk.1
    have := h.of_remove (e := v.l1) (l := []) (t := { v.sheap s with
      teD := (v.sheap s).teD.fire, teA := (v.sheap s).teA.cancel }) (b := v.cb) (by simp) hstored
      (.inl rfl) (fun _ => FrameOk.of_live (h.slot s).frame (.inr hlive) (by
        simp [STr.cleanup, hstate])) hok.tightA.cancel_live hok.tightD.fire_live hok.needack
    rw [List.append_nil] at this
    exact this
  | expireDLost s hlive hk =>
    obtain ⟨hstate, huserv⟩ := (h.slot s).ok.liveD hlive
    obtain ⟨k, hkeyed⟩ := h.keyed_of_used huserv (by simp [hstate])
    exact absurd hkeyed (hk k)
  | noack s hlive hs => exact h.of_noack hlive id
  | afterNoack s k hcb hk =>
    have hok := (h.slot s).ok
    obtain ⟨hstate, huserv, hA, hD⟩ : (v.sheap s).state = .completed ∧ (v.sheap s).userv ≠ none ∧
        (v.sheap s).teA.live = 0 ∧ (v.sheap s).teD.live = 0 := by
      have hf := (h.slot s).frame
      rw [hcb] at hf
      exact hf rfl
    have hstored : v.tserver k = some s := hok.key_iff huserv (by simp [hstate]) hk.1
    have := h.of_remove (e := v.l1) (l := []) (t := v.sheap s) (by simp) hstored (.inr rfl) (by simp [hcb]) hA
      hD hok.needack
    rw [List.append_nil] at this
    exact this
  | afterNoackLost s hcb hk =>
    have hf := (h.slot s).frame
    rw [hcb] at hf
    obtain ⟨hstate, huserv, -⟩ := hf rfl
    obtain ⟨k, hkeyed⟩ := h.keyed_of_used huserv (by simp [hstate])
    exact absurd hkeyed (hk k)
  | retransA s u data addr hlive hu hdata =>
    have hok := (h.slot s).ok
    obtain ⟨hstate, huserv⟩ := hok.liveA hlive
    exact h.of_modify (s := s) (f := fun t => { t with teA := t.teA.fired.arm })
      (d := v.tserver) (b := v.cb) (l := [_]) (by simp [Act.tame])
      (fun _ _ _ => .rfl) (fun s' _ => (h.slot s').frame)
      { hok with
        tightA := Lib.Timer.tight_arm hok.tightA.fired_live
        liveA := fun _ => ⟨hstate, huserv⟩ }
      (FrameOk.of_live (h.slot s).frame (.inl hlive) (by simp [hstate])) (h.slot s).beyond
      fun hl => ⟨hl, rfl, by simp⟩
  | missedA s hlive =>
    have hok := (h.slot s).ok
    obtain ⟨hstate, huserv⟩ := hok.liveA hlive
    have := h.of_modify (s := s) (f := fun t => { t with teA := t.teA.fired })
      (d := v.tserver) (e := v.l1) (b := v.cb) (l := []) (by simp) (fun _ _ _ => .rfl)
      (fun s' _ => (h.slot s').frame)
      { hok with
        tightA := Lib.Timer.tight_of_live hok.tightA.fired_live
        liveA := fun _ => ⟨hstate, huserv⟩ }
      (FrameOk.of_live (h.slot s).frame (.inl hlive) (by simp [hstate])) (h.slot s).beyond
      fun hl => ⟨hl, rfl, by simp⟩
    simpa using this
  | retransF s u data addr hs =>
    have hsame := h.of_modify (s := s) (f := id) (d := v.tserver) (e := v.l1) (b := v.cb)
      (l := [.sent (.timerF s) u data addr]) (by simp [Act.tame]) (fun _ _ _ => .rfl)
      (fun s' _ => (h.slot s').frame) (h.slot s).ok (h.slot s).frame (h.slot s).beyond
      fun hl => ⟨hl, rfl, by simp⟩
    rw [Lib.modifyAt_id] at hsame
    exact hsame
  | ack s k c hcb hk hs horigin hcur hm => exact h.of_ack hcb hk hs (fun _ hx => hx.elim) hm
  | afterAck s g hcb hcur =>
    have hok := (h.slot s).ok
    have hf := (h.slot s).frame
    rw [hcb] at hf
    obtain ⟨hstate, -, hK, hA, hD⟩ := hf rfl
    have := h.of_modify (s := s) (f := STr.cleanup) (d := v.tserver)
      (e := v.l1.set g.checksum none) (b := none) (l := []) (by simp) (fun _ _ _ => .rfl)
      (fun _ _ => trivial) (.cleanup hA hD hok.needack hK) trivial
      (fun _ => ⟨hstate, rfl, hK⟩) fun hl => absurd hD (Nat.pos_iff_ne_zero.mp hl)
    simpa using this
  | dropped s g hcb hA hD tserver ht =>
    have hok := (h.slot s).ok
    have hf := (h.slot s).frame
    rw [hcb] at hf
    have hstate := hf rfl
    have hA := hok.tightA.live_of_ref hA
    have hD := hok.tightD.live_of_ref hD
    rcases ht with ⟨htid, rfl⟩ | ⟨k, htid, rfl⟩
    · have hK : ∀ k, v.tserver k ≠ some s := fun k hk => by simp [hok.keyed k hk] at htid
      have := h.of_modify (s := s) (f := STr.cleanup) (d := v.tserver) (e := v.l1)
        (b := none) (l := []) (by simp) (fun _ _ _ => .rfl) (fun _ _ => trivial)
        (.cleanup hA hD hok.needack hK) trivial
        (fun hge => ⟨((h.slot s).beyond hge).1, rfl, hK⟩)
        fun hl => absurd hD (Nat.pos_iff_ne_zero.mp hl)
      simpa using this
    · have huserv : (v.sheap s).userv ≠ none := fun hu => by simp [hok.cleaned hu] at htid
      have hstored : v.tserver k = some s := hok.key_iff huserv hstate htid
      have := h.of_remove (e := v.l1) (l := []) (t := v.sheap s) (by simp) hstored (.inr rfl) (by simp [hcb])
        hA hD hok.needack
      rw [List.append_nil] at this
      exact this

theorem moves (h : TableInv acks (fun _ => False) v) (hfin : FinalInv v) (hst : m.strict)
    (hm : SMoves env m v v') : TableInv acks (fun _ => False) v' := by
  have hboth : TableInv acks (fun _ => False) v' ∧ FinalInv v' := by
    induction hm with
    | refl => exact ⟨h, hfin⟩
    | tail _ hmove ih => exact ⟨ih.1.move ih.2 hst hmove, ih.2.move hmove⟩
  exact hboth.1

def Addressed (env : Env) (tm : TM) (data : Text) (s : ℕ) : Prop :=
  ∃ key, IsAck env data key ∧ tm.tserver key = some s ∧ (tm.sheap s).state = .completed

theorem purged {tm : TM} (h : TableInv acks exempt tm.sview) :
    TableInv acks exempt tm.rCachePurge.sview :=
  h.of_quiet (l := [.purged]) (by simp [Act.tame]) (.inl rfl)

theorem arrived_any {tm : TM} (h : TableInv (fun _ _ => False) exempt tm.sview) (data : Text) :
    TableInv (fun _ _ => False) exempt (tm.record (.arrived data)).sview := by
  refine ⟨fun s => ?_, fun s hmem => ?_, fun s _ _ => ?_, h.noack.append (by simp)⟩
  · refine (h.slot s).other rfl (fun _ => .rfl) (Nat.le_refl _) (h.slot s).frame
      fun key d hmem => ?_
    simpa [TM.record, TM.sview] using hmem
  · exact h.noKeyError s (by simpa [TM.record, TM.sview] using hmem)
  · exact List.pairwise_of_forall fun _ _ _ _ _ _ _ => id

theorem addressed_unique {tm : TM} {data : Text} {s s' : ℕ} (h : Addressed env tm data s)
    (h' : Addressed env tm data s') : s' = s := by
  obtain ⟨key, ⟨-, req, hparse, -, hkey⟩, hs, -⟩ := h
  obtain ⟨key', ⟨-, req', hparse', -, hkey'⟩, hs', -⟩ := h'
  cases hparse.symm.trans hparse'
  cases hkey.symm.trans hkey'
  exact Option.some.inj (hs'.symm.trans hs)

theorem arrived {tm : TM} (h : TableInv (IsAck env) (fun _ => False) tm.sview) (data : Text) :
    TableInv (IsAck env) (Addressed env tm data) (tm.record (.arrived data)).sview := by
  refine ⟨fun s => ?_, fun s hmem => ?_, fun s hex hl => ?_, h.noack.append (by simp)⟩
  · refine (h.slot s).other rfl (fun _ => .rfl) (Nat.le_refl _) (h.slot s).frame
      fun key d hmem => ?_
    rcases List.mem_append.mp hmem with hmem | hmem
    · exact hmem
    · simp at hmem
  · rcases List.mem_append.mp hmem with hmem | hmem
    · exact h.noKeyError s hmem
    · simp at hmem
  · refine List.pairwise_append.mpr ⟨h.unacked s id hl, List.pairwise_singleton _ _, ?_⟩
    rintro a ha b hb key d ack rfl rfl hack
    cases List.mem_singleton.mp hb
    obtain ⟨hstate, huserv⟩ := (h.slot s).ok.liveD hl
    have hused : (tm.sview.sheap s).state ≠ .confirmed := by rw [hstate]; simp
    have htid := (h.slot s).key key d ha hl
    exact hex ⟨key, hack, (h.slot s).ok.key_iff huserv hused htid, hstate⟩

end TableInv

namespace TM

/-- An ACK of a completed transaction reaches the table: it is no fragment, it is
not answered from the cache, its Contact can be read and it is not taken for a
request of our own. -/
def AckPasses (env : Env) (tm : TM) (l : Label) : Prop :=
  ∀ dg req s, l = .recv dg → TableInv.Addressed env tm dg.data s →
    env.parseReq dg.data = .ok req →
    32 ≤ size dg ∧ tm.lookup (env.md5 dg.data) = none ∧
    (∃ fixed, fixRequest tm.natTraversal dg.ra req = .ok fixed) ∧
    req.ctids.findSome? tm.tclient = none

theorem handleIncoming_ack {env : Env} {tm : TM} {dg : Dgram} {s : ℕ}
    (hinv : TableInv (IsAck env) (fun _ => False) tm.sview) (haddr : TableInv.Addressed env tm dg.data s)
    (hpass : AckPasses env tm (.recv dg)) :
    ∃ g, handleIncoming env tm dg = recvAck (tm.record (.arrived dg.data)) s g := by
  obtain ⟨key, ⟨hreq, req, hparse, hmethod, hkey⟩, hs, hstate⟩ := id haddr
  obtain ⟨hsize, hcache, ⟨fixed, hfixed⟩, hloop⟩ := hpass dg req s rfl haddr hparse
  have hinvite : (tm.sheap s).method = .invite :=
    (hinv.slot s).ok.invite hstate (hinv.userv_of_stored hs)
  have hm : fixed.method = .ack := (fixRequest_method hfixed).trans hmethod
  refine ⟨⟨fixed, env.md5 dg.data, dg.server⟩, ?_⟩
  have hcache' : (tm.record (.arrived dg.data)).lookup (env.md5 dg.data) = none := hcache
  have hfixed' : fixRequest (tm.record (.arrived dg.data)).natTraversal dg.ra req = .ok fixed :=
    hfixed
  have hloop' : fixed.ctids.findSome? (tm.record (.arrived dg.data)).tclient = none := by
    rw [fixRequest_ctids hfixed]; exact hloop
  have hkey' : fixed.tidTo = .ok key := (fixRequest_tidTo hfixed).trans hkey
  have hs' : (tm.record (.arrived dg.data)).tserver key = some s := hs
  have hnot : ¬ size dg < 32 := by omega
  simp only [handleIncoming, hnot, if_false, hcache', hreq, handleRequest, hparse, hfixed',
    incomingRequest, hloop', hm, if_true, hkey', hs', existing]
  have hm' : ((tm.record (.arrived dg.data)).sheap s).method = .invite := hinvite
  rw [if_neg (by simp), if_neg (by simp [hm']), if_neg (by simp), if_pos ⟨trivial, hstate⟩]

theorem step_tableInv {env : Env} {tm : TM} {l : Label}
    (hinv : TableInv (IsAck env) (fun _ => False) tm.sview) (hfin : FinalInv tm.sview)
    (hrekey : RekeyFree env tm l) (hpass : AckPasses env tm l) :
    TableInv (IsAck env) (fun _ => False) (step env tm l).sview := by
  have hmoves := step_moves (m := ⟨True, False, False, fun _ => True⟩) (fun _ _ => trivial)
    fun s resp rnd hans => ⟨fun _ => hrekey s resp rnd hans, False.elim, False.elim⟩
  cases hcb : tm.cb with
  | some f =>
    have harr : arrival tm l = tm := by cases l <;> simp [arrival, hcb]
    rw [harr] at hmoves
    exact hinv.moves hfin trivial hmoves
  | none =>
    cases l with
    | recv dg =>
      by_cases hex : ∃ s, TableInv.Addressed env tm dg.data s
      · obtain ⟨s, haddr⟩ := hex
        obtain ⟨key, hack, hs, hstate⟩ := id haddr
        obtain ⟨g, hg⟩ := handleIncoming_ack hinv haddr hpass
        have hdone := (hinv.arrived dg.data).of_ack hcb hs hstate
          (fun s' => TableInv.addressed_unique haddr) (recvAck_move _ s g)
        simp only [step, hcb, hg]
        unfold settle
        split
        · exact hdone
        · exact hdone.of_quiet (l := [.raised _]) (by simp [Act.tame]) (.inl rfl)
      · have harr := hinv.arrived dg.data
        have hno : TableInv.Addressed env tm dg.data = fun _ => False :=
          funext fun s => eq_false fun hs => hex ⟨s, hs⟩
        rw [hno] at harr
        have hstart : arrival tm (.recv dg) = tm.record (.arrived dg.data) := by
          simp [arrival, hcb]
        rw [hstart] at hmoves
        exact harr.moves (hstart ▸ hfin.arrival (.recv dg)) trivial hmoves
    | fire k i rnd => exact hinv.moves hfin trivial hmoves
    | purge =>
      simp only [step, hcb]
      exact hinv.purged
    | call a => exact hinv.moves hfin trivial hmoves
    | ret r rnd => exact hinv.moves hfin trivial hmoves

/-- The steps that neither take over a key nor swallow an ACK. -/
def TableStep (env : Env) (tm : TM) (l : Label) : Prop := RekeyFree env tm l ∧ AckPasses env tm l

end TM

/-- What the table promises: entries are stored under their own identifier, a
transaction with a scheduled timer A or D is stored, no deletion fails and
`noack_cb` is not called for a transaction whose ACK has arrived. -/
structure ServerTableOk (env : Env) (tm : TM) : Prop where
  keyed : ∀ k s, tm.tserver k = some s → (tm.sheap s).tid = some k
  stored : ∀ s, 0 < (tm.sheap s).teA.live ∨ 0 < (tm.sheap s).teD.live →
    ∃ k, (tm.sheap s).tid = some k ∧ tm.tserver k = some s
  noKeyError : ∀ s, .delKeyError s ∉ tm.log
  noack : NoackOk (IsAck env) tm.log

theorem TableInv.serverTableOk {env : Env} {tm : TM}
    (h : TableInv (IsAck env) (fun _ => False) tm.sview) : ServerTableOk env tm where
  keyed k s hk := (h.slot s).ok.keyed k hk
  stored s hl := by
    have hok := (h.slot s).ok
    obtain ⟨hstate, huserv⟩ : (tm.sheap s).state = .completed ∧ (tm.sheap s).userv ≠ none :=
      hl.elim hok.liveA hok.liveD
    obtain ⟨k, hk⟩ := hok.stored huserv (by rw [TM.sview_sheap, hstate]; simp)
    exact ⟨k, hok.keyed k hk, hk⟩
  noKeyError := h.noKeyError
  noack := h.noack

theorem TableInv.init (acks : Text → STid → Prop) (natTraversal : Bool) (provisionalRetr : ℕ)
    (reqCb : Bool) :
    TableInv acks (fun _ => False) (TM.init natTraversal provisionalRetr reqCb).sview where
  slot s := {
    ok := {
      keyed := fun k hk => by cases hk
      stored := fun hu => absurd rfl hu
      tightA := Lib.Timer.tight_off
      tightD := Lib.Timer.tight_off
      liveA := fun hl => absurd hl (Nat.lt_irrefl 0)
      liveD := fun hl => absurd hl (Nat.lt_irrefl 0)
      invite := fun _ hu => absurd rfl hu
      needack := by simp [TM.sview, TM.init, STr.blank]
      cleaned := fun _ => rfl }
    frame := trivial
    beyond := fun _ => ⟨rfl, rfl, fun k hk => by cases hk⟩
    key := fun key data hmem => by cases hmem }
  noKeyError s hmem := by cases hmem
  unacked s _ _ := List.Pairwise.nil
  noack s l hpre := by
    have := List.prefix_nil.mp hpre
    simp at this

/-- In every run whose steps take over no key and swallow no ACK, the table keeps
its promises in every state. -/
theorem serverTable_ok {env : Env} {natTraversal : Bool} {provisionalRetr : ℕ} {reqCb : Bool}
    {ls : List Label}
    (h : Along (TM.step env) (TM.TableStep env) (TM.init natTraversal provisionalRetr reqCb) ls) :
    ServerTableOk env (run (TM.step env) (TM.init natTraversal provisionalRetr reqCb) ls) := by
  have hinv : TableInv (IsAck env) (fun _ => False)
        (run (TM.step env) (TM.init natTraversal provisionalRetr reqCb) ls).sview ∧
      FinalInv (run (TM.step env) (TM.init natTraversal provisionalRetr reqCb) ls).sview :=
    h.invariant (I := fun tm : TM => TableInv (IsAck env) (fun _ => False) tm.sview ∧ FinalInv tm.sview)
      (fun tm l hok hI => ⟨TM.step_tableInv hI.1 hI.2 hok.1 hok.2, hI.2.step env l⟩)
      ⟨TableInv.init (IsAck env) natTraversal provisionalRetr reqCb,
        FinalInv.init natTraversal provisionalRetr reqCb⟩
  exact hinv.1.serverTableOk

namespace Sample

/-- Two INVITEs of one dialog with the same CSeq and different branches, and the
ACK of either. -/
def inviteEnv : Env := env
  [(text .invite branch1 tag1, req .invite branch1 tag1),
    (text .invite branch2 tag1, req .invite branch2 tag1),
    (text .ack branch1 tag1, req .ack branch1 tag1)] []

def refuse (branch : Text) : Label :=
  .ret (.value (.triple (some ((req .invite branch tag1).genResponse 500 [] [])) false false)) []

def refused : List Label :=
  [.recv (dgram (text .invite branch1 tag1)), refuse branch1,
    .recv (dgram (text .ack branch1 tag1))]

/-- The second refusal takes over the key of the first, whose timer D then
deletes the entry of the second. -/
def takeOver : List Label :=
  [.recv (dgram (text .invite branch1 tag1)), refuse branch1,
    .recv (dgram (text .invite branch2 tag1)), refuse branch2,
    .fire .serverD 0 [], .fire .serverD 1 []]

def asking : TM := TM.step inviteEnv (TM.init false 0 true) (.recv (dgram (text .invite branch1 tag1)))

theorem texts_read :
    inviteEnv.parseReq (text .invite branch1 tag1) = .ok (req .invite branch1 tag1) ∧
      inviteEnv.parseReq (text .ack branch1 tag1) = .ok (req .ack branch1 tag1) ∧
      32 ≤ TM.size (dgram (text .ack branch1 tag1)) := by
  decide +kernel

theorem recv_rekeyFree {tm : TM} {data : Text} {r : Req}
    (hparse : inviteEnv.parseReq data = .ok r) (hr : r.method ≠ .cancel) :
    TM.RekeyFree inviteEnv tm (.recv (dgram data)) := by
  intro s resp rnd hans
  cases hans with
  | cancelled _ r' _ _ hparse' hcancel hs _ =>
    cases hparse.symm.trans hparse'
    exact absurd hcancel hr

/-- What the manager holds while the upper layer is asked: the request it
asks about, the key of its transaction, and no entry under the key that
transaction would be moved to. -/
theorem asking_reads :
    asking.cb = some (.req 0 ⟨req .invite branch1 tag1, text .invite branch1 tag1, server⟩) ∧
      (asking.sheap 0).tid = some ⟨"c1".toList, some "f1".toList, 1, some branch1⟩ ∧
      asking.tserver (TM.rekey ⟨"c1".toList, some "f1".toList, 1, some branch1⟩
        (TM.responseTag ((req .invite branch1 tag1).genResponse 500 [] []) [] tag1)) = none := by
  decide +kernel

theorem refuse_rekeyFree : TM.RekeyFree inviteEnv asking (refuse branch1) := by
  obtain ⟨hcb, htid, hnone⟩ := asking_reads
  intro s resp rnd hans
  cases hans with
  | returned s g _ _ _ _ hcb' =>
    obtain ⟨rfl, -⟩ := Frame.req.inj (Option.some.inj (hcb.symm.trans hcb'))
    rintro tag htag - - k s' hk hs'
    cases htag
    cases htid.symm.trans hk
    rw [hnone] at hs'
    cases hs'

end Sample

open Sample in
theorem serverTable_ok_refused :
    ServerTableOk inviteEnv (run (TM.step inviteEnv) (TM.init false 0 true) refused) := by
  obtain ⟨hinvite, hack, hsize⟩ := texts_read
  -- after the refusal nothing is held that the ACK could be taken for
  obtain ⟨hlookup, hfixed, hclient⟩ :
      (TM.step inviteEnv asking (refuse branch1)).lookup (inviteEnv.md5 (text .ack branch1 tag1)) =
          none ∧
        TM.fixRequest (TM.step inviteEnv asking (refuse branch1)).natTraversal
            (dgram (text .ack branch1 tag1)).ra (req .ack branch1 tag1) =
          .ok (req .ack branch1 tag1) ∧
        (req .ack branch1 tag1).ctids.findSome?
          (TM.step inviteEnv asking (refuse branch1)).tclient = none := by
    decide +kernel
  refine serverTable_ok ⟨⟨recv_rekeyFree hinvite (by decide), ?_⟩, ⟨refuse_rekeyFree, ?_⟩,
    ⟨recv_rekeyFree hack (by decide), ?_⟩, trivial⟩
  · rintro dg r s heq ⟨key, -, hs, -⟩
    cases hs
  · rintro dg r s heq
    cases heq
  · rintro dg r s heq - hparse
    cases heq
    cases hack.symm.trans hparse
    exact ⟨hsize, hlookup, ⟨req .ack branch1 tag1, hfixed⟩, hclient⟩

open Sample in
theorem takeOver_not_serverTableOk :
    ¬ ServerTableOk inviteEnv (run (TM.step inviteEnv) (TM.init false 0 true) takeOver) := by
  intro h
  exact h.noKeyError 1 (by decide +kernel)

end SippyB2bua.Manager
