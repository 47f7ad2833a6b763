import Mathlib.Algebra.Field.GeomSum
import Mathlib.Order.Bounds.Defs
import SippyB2bua.Rtpp.UdpClient

/-!
# How often a command is tried

Each interval is twice the one before it, so `n` of them take `2 ^ n - 1` times the first. The loop of
`getnretrans` subtracts them one by one from the timeout. The first interval is four times the smoothed
delay, which is positive as long as all measured delays are.
-/

namespace SippyB2bua.Rtpp
open Lib (Along run)
open scoped BigOperators

/-- The loop of `getnretrans` ends after `n` rounds that were counted. -/
inductive Ends : ℚ → ℚ → ℕ → Prop
  | done {first timeout : ℚ} (h : timeout - first < 0) : Ends first timeout 0
  | again {first timeout : ℚ} {n : ℕ} (h : ¬ timeout - first < 0) (hn : Ends (first * 2) (timeout - first) n) :
      Ends first timeout (n + 1)

section Loop
variable {first timeout : ℚ} {n m fuel : ℕ}

theorem ends_loop (hf : 0 < first) (h : timeout < fuel * first) :
    Ends first timeout (getnretransLoop fuel first timeout) := by
  induction fuel generalizing first timeout with
  | zero =>
    rw [Nat.cast_zero, zero_mul] at h
    apply Ends.done
    linarith
  | succ fuel ih =>
    rw [getnretransLoop]
    split
    · exact .done ‹_›
    · rename_i hrest
      apply Ends.again hrest
      apply ih (by linarith)
      push_cast at h
      have hnonneg : 0 ≤ (fuel : ℚ) * first := mul_nonneg (Nat.cast_nonneg fuel) hf.le
      linarith

theorem timeout_lt_fuel (hf : 0 < first) : timeout < ((⌊timeout / first⌋.toNat + 1 : ℕ) : ℚ) * first := by
  have hle : (⌊timeout / first⌋ : ℚ) ≤ (⌊timeout / first⌋.toNat : ℚ) := by
    exact_mod_cast Int.self_le_toNat _
  have hfloor := Int.lt_floor_add_one (timeout / first)
  apply (div_lt_iff₀ hf).mp
  push_cast
  linarith

theorem getnretrans_ends (hf : 0 < first) (timeout : ℚ) :
    ∃ n, getnretrans first timeout = .ok n ∧ Ends first timeout n := by
  refine ⟨_, ?_, ends_loop hf (timeout_lt_fuel hf)⟩
  rw [getnretrans, if_neg (not_le.mpr hf)]

theorem Ends.bounds (h : Ends first timeout n) (ht : 0 ≤ timeout) :
    first * (2 ^ n - 1) ≤ timeout ∧ timeout < first * (2 ^ (n + 1) - 1) := by
  induction h with
  | @done first timeout h =>
    constructor
    · simpa using ht
    · norm_num
      linarith
  | @again first timeout n h _ ih =>
    obtain ⟨hle, hlt⟩ := ih (not_lt.mp h)
    constructor
    · have hpow : first * (2 ^ (n + 1) - 1) = first * 2 * (2 ^ n - 1) + first := by ring
      linarith
    · have hpow : first * (2 ^ (n + 1 + 1) - 1) = first * 2 * (2 ^ (n + 1) - 1) + first := by ring
      linarith

theorem Ends.isGreatest (h : Ends first timeout n) (hf : 0 < first) (ht : 0 ≤ timeout) :
    IsGreatest {n : ℕ | first * (2 ^ n - 1) ≤ timeout} n := by
  obtain ⟨hle, hlt⟩ := h.bounds ht
  refine ⟨hle, fun m hm => ?_⟩
  have hpow : first * (2 ^ m - 1) < first * ((2 : ℚ) ^ (n + 1) - 1) := lt_of_le_of_lt hm hlt
  have hexp : (2 : ℚ) ^ m < 2 ^ (n + 1) := by
    have hlt := lt_of_mul_lt_mul_left hpow hf.le
    linarith
  have hm := (pow_lt_pow_iff_right₀ one_lt_two).mp hexp
  omega

theorem sum_intervals (first : ℚ) (n : ℕ) : ∑ i ∈ Finset.range n, first * 2 ^ i = first * (2 ^ n - 1) := by
  have hgeom := geom_sum_mul (2 : ℚ) n
  rw [← Finset.mul_sum, ← hgeom]
  ring

end Loop

namespace UdpClient
variable {s t : UdpClient} {x : ℚ}

theorem applyDelay_pos (h : 0 < s.lastval) (hx : 0 < x) : 0 < (s.applyDelay x).lastval := by
  unfold applyDelay
  dsimp only
  linarith

def history (s : UdpClient) (delays : List ℚ) : UdpClient := delays.foldl applyDelay s

theorem history_pos {delays : List ℚ} (h : ∀ x ∈ delays, 0 < x) (hs : 0 < s.lastval) :
    0 < (s.history delays).lastval := by
  induction delays generalizing s with
  | nil => exact hs
  | cons x delays ih =>
    have hx := applyDelay_pos hs (h x List.mem_cons_self)
    exact ih (fun y hy => h y (List.mem_cons_of_mem x hy)) hx

theorem request_lastval (s : UdpClient) (act : Request) : (s.request act).lastval = s.lastval := by
  cases act with
  | shutdown => rfl
  | send cookie command hasCb now =>
    rw [request, sendCommand]
    split
    · rfl
    · dsimp only
      split <;> rfl

theorem requests_lastval (s : UdpClient) (acts : List Request) : (run request s acts).lastval = s.lastval := by
  induction acts generalizing s with
  | nil => rfl
  | cons act acts ih => exact (ih (s.request act)).trans (s.request_lastval act)

theorem callBack_lastval (s : UdpClient) (no : ℕ) (result : Option Lib.Text) (acts : List Request) :
    (s.callBack no result acts).lastval = s.lastval := by
  unfold callBack
  split
  · exact requests_lastval _ acts
  · rfl

theorem step_pos (h : 0 < s.lastval) (l : Label) : 0 < (s.step l).lastval := by
  cases l with
  | call act =>
    rw [step, request_lastval]
    exact h
  | expire timer cookie acts =>
    rw [step]
    split
    · unfold retransmit
      dsimp only
      split
      · exact h
      · split
        · rw [callBack_lastval]
          exact h
        · exact h
    · exact h
  | reply data rtime acts =>
    rw [step, processReply]
    split
    · exact h
    · split
      · exact h
      · rename_i preq _
        dsimp only
        split
        · exact h
        · rename_i hlate
          split
          · apply applyDelay_pos
            · rw [callBack_lastval]
              exact h
            · linarith [not_le.mp hlate]
          · rw [callBack_lastval]
            exact h

/-- In every run of the client each command gets its tries. -/
theorem tries_run (ls : List Label) (c : UdpCommand) :
    0 < (run step init ls).lastval * 4 ∧ ∃ n, c.tries ((run step init ls).lastval * 4) = .ok n := by
  have hinit : 0 < init.lastval := by
    unfold init
    norm_num
  have hpos : 0 < (run step init ls).lastval :=
    @Lib.run_invariant _ _ step (fun s => 0 < s.lastval) (fun s l h => step_pos h l) init hinit ls
  have hfour : 0 < (run step init ls).lastval * 4 := by linarith
  refine ⟨hfour, ?_⟩
  obtain ⟨n, hn, -⟩ := getnretrans_ends hfour c.expTime
  unfold UdpCommand.tries
  split
  · exact ⟨_, rfl⟩
  · rw [hn]
    exact ⟨_, rfl⟩

end UdpClient

/-- The number of tries is the largest one whose intervals fit into the timeout, and after every history of positive
delays the first interval is positive. -/
theorem retries_within_timeout :
    (∀ first timeout : ℚ, 0 < first → 0 ≤ timeout → ∃ n, Ends first timeout n ∧ getnretrans first timeout = .ok n ∧
      IsGreatest {n : ℕ | first * (2 ^ n - 1) ≤ timeout} n) ∧
    ∀ delays : List ℚ, (∀ x ∈ delays, 0 < x) → 0 < (UdpClient.init.history delays).lastval * 4 ∧
      ∀ timeout : ℚ, 0 ≤ timeout → ∃ n, getnretrans ((UdpClient.init.history delays).lastval * 4) timeout = .ok n ∧
        ∑ i ∈ Finset.range n, (UdpClient.init.history delays).lastval * 4 * 2 ^ i ≤ timeout := by
  constructor
  · intro first timeout hf ht
    obtain ⟨n, hn, hends⟩ := getnretrans_ends hf timeout
    exact ⟨n, hends, hn, hends.isGreatest hf ht⟩
  · intro delays hdelays
    have hinit : 0 < UdpClient.init.lastval := by
      unfold UdpClient.init
      norm_num
    have hpos := UdpClient.history_pos hdelays hinit
    have hfour : 0 < (UdpClient.init.history delays).lastval * 4 := by linarith
    refine ⟨hfour, fun timeout ht => ?_⟩
    obtain ⟨n, hn, hends⟩ := getnretrans_ends hfour timeout
    refine ⟨n, hn, ?_⟩
    rw [sum_intervals]
    exact (hends.bounds ht).1

theorem retries_within_timeout_quarter :
    (∃ n, Ends (1 / 4 : ℚ) 3 n ∧ getnretrans (1 / 4) 3 = .ok n ∧
      IsGreatest {n : ℕ | (1 / 4 : ℚ) * (2 ^ n - 1) ≤ 3} n) ∧
    0 < (UdpClient.init.history [1 / 100]).lastval * 4 := by
  refine ⟨retries_within_timeout.1 (1 / 4) 3 (by norm_num) (by norm_num),
    (retries_within_timeout.2 [1 / 100] fun x hx => ?_).1⟩
  rw [List.mem_singleton.mp hx]
  norm_num

end SippyB2bua.Rtpp
