import Mathlib.Algebra.BigOperators.Group.List.Basic
import SippyB2bua.Rtpp.Update

/-!
# Replies to an update

`process_rtpp_result` once more, with all that can be seen of it: the results that it hands to
the subcommands, the calls of the callback with the errors as they are worded, and what it
raises. A reply is decoded if the callback is called once and nothing is raised; the results
reach the commands that they belong to, and a reply that does not read as one is an error.
-/

namespace SippyB2bua.Rtpp
open Lib (Text)
open Sdp

/-- The errors of an update, by what their texts name. -/
inductive RtpProxyError
  | errored
  | refused (word : Text)
  | tooMany (actual expected : ℕ)
  | failed (command result : Text)
  | unexpected (name : SubName) (results : List Text)
  | badPort (word : Text)
  deriving DecidableEq, Repr

/-- `handle_results`: what it raises, or what it returns. A subcommand that has results of its
own reads the first one. -/
def Subcommand.handle (c : Subcommand) (results : List Text) : Except Exn (Except RtpProxyError Fin) :=
  let unexpected := .ok (.error (.unexpected c.name results))
  if results.length ≠ c.commands.length then unexpected
  else match c.name, results with
    | .dtls, [] | .ice, [] => .error .indexError
    | .dtls, r :: _ =>
      match Text.wordsMax 1 r with
      | [mode, fingerprint] => .ok (.ok (.dtls mode fingerprint))
      | _ => unexpected
    | .ice, r :: _ =>
      match Text.words r with
      | lufrag :: lpwd :: cand :: cands =>
        .ok (.ok (.ice lufrag lpwd ((cand :: cands).map fun r => SipURL.unquote (r.drop 2))))
      | _ => unexpected
    | .dedtls, _ => if results.any (· != "0".toList) then unexpected else .ok (.ok .dedtls)
    | .deice, _ => if results.any (· != "0".toList) then unexpected else .ok (.ok .deice)

structure Handed where
  commands : List Text
  results : List Text
  deriving DecidableEq, Repr

/-- What can be seen of `process_rtpp_result`. -/
structure Outcome where
  handed : List Handed
  calls : List (Except RtpProxyError UpdateResult)
  raised : Option Exn

namespace Outcome

def report (handed : List Handed) (ex : RtpProxyError) : Outcome := ⟨handed, [.error ex], none⟩
def succeed (handed : List Handed) (ur : UpdateResult) : Outcome := ⟨handed, [.ok ur], none⟩
def raise (handed : List Handed) (e : Exn) : Outcome := ⟨handed, [], some e⟩

def pairs (o : Outcome) : List (Text × Text) := o.handed.flatMap fun h => h.commands.zip h.results

end Outcome

/-- The loop over the subcommands, which ends when no results are left. -/
def handOut : List Subcommand → List Text → List Handed × Except Exn (Except RtpProxyError (List Fin))
  | [], _ => ([], .ok (.ok []))
  | c :: cs, ress =>
    let results := ress.take c.commands.length
    let rest := ress.drop c.commands.length
    match c.handle results with
    | .error e => ([⟨c.commands, results⟩], .error e)
    | .ok (.error ex) => ([⟨c.commands, results⟩], .ok (.error ex))
    | .ok (.ok f) =>
      if rest = [] then ([⟨c.commands, results⟩], .ok (.ok [f]))
      else
        let r := handOut cs rest
        (⟨c.commands, results⟩ :: r.1, r.2.map (·.map (f :: ·)))

/-- The command at a position, which is counted from one, in the groups of the subcommands. -/
def failedCommand : ℕ → List Subcommand → Option Text
  | _, [] => none
  | foff, c :: cs =>
    if foff > c.commands.length then failedCommand (foff - c.commands.length) cs else c.commands[foff - 1]?

/-- `subc_ress` of the second part of a reply. -/
def subReplies (tail : Option Text) : List Text :=
  tail.elim [] fun t => (Text.pieces "&&".toList t).map Text.strip

namespace UpdateParams

def expected (up : UpdateParams) : ℕ := (up.subcommands.map fun c => c.commands.length).sum

def padded (up : UpdateParams) (ress : List Text) : List Text :=
  ress ++ List.replicate (up.expected - ress.length) "0".toList

/-- The part of `process_rtpp_result` that is about the subcommands. -/
def subProcess (up : UpdateParams) (ress : List Text) :
    List Handed × Except Exn (Except RtpProxyError (List Fin)) :=
  if up.subcommands = [] then ([], .ok (.ok []))
  else if ress.length > up.expected then ([], .ok (.error (.tooMany ress.length up.expected)))
  else
    let failed := if ress.getLast? = some "-1".toList then failedCommand ress.length up.subcommands else none
    match failed with
    | some command => ([], .ok (.error (.failed command "-1".toList)))
    | none => handOut up.subcommands (up.padded ress)

/-- `process_rtpp_result`. -/
def process (up : UpdateParams) (client : Option Client) (result : Option Text) : Outcome :=
  match result with
  | none => .report [] .errored
  | some result =>
    let t0 := Text.pieces1 "&&".toList (Text.rstrip result)
    let t1 := Text.words t0.1
    match t1 with
    | [] => .raise [] .indexError
    | word :: _ =>
      if word.head? = some 'E' then .report [] (.refused word)
      else
        let r := up.subProcess (subReplies t0.2)
        match r.2 with
        | .error e => .raise r.1 e
        | .ok (.error ex) => .report r.1 ex
        | .ok (.ok fins) =>
          match Text.int word with
          | none => .raise r.1 .valueError
          | some port =>
            if port = 0 then .report r.1 (.badPort word)
            else match UpdateParams.address client t1 with
              | .error e => .raise r.1 e
              | .ok (family, addr) => .succeed r.1 ⟨addr, port, family, up.onHold, fins⟩

end UpdateParams

def replyWords (reply : Text) : List Text := Text.words (Text.pieces1 "&&".toList (Text.rstrip reply)).1

def replyResults (reply : Text) : List Text := subReplies (Text.pieces1 "&&".toList (Text.rstrip reply)).2

def UpdateParams.commands (up : UpdateParams) : List Text := up.subcommands.flatMap Subcommand.commands

/-- A reply tells a port that is a number other than zero, and no more results than there are
commands. -/
structure Replies (up : UpdateParams) (reply : Text) (port : ℤ) : Prop where
  word : (replyWords reply).head?.bind Text.int = some port
  port : port ≠ 0
  results : (replyResults reply).length ≤ up.commands.length

def replyAddress (client : Option Client) (reply : Text) : Option (Text × Text) :=
  match (replyWords reply)[1]? with
  | none => client.map fun c => ("IP4".toList, c.proxyAddress)
  | some addr => some (if (replyWords reply)[2]? = some ['6'] then "IP6".toList else "IP4".toList, addr)

def refusal (reply : Text) : Bool := (replyWords reply).head?.any fun word => word.head? = some 'E'

structure Decodes (up : UpdateParams) (client : Option Client) (reply : Option Text) (o : Outcome) : Prop where
  returns : o.raised = none
  once : o.calls.length = 1
  /-- A success is for a reply that tells a port and has the address of the reply; the results, with
  zeros for those that are missing, are handed to the commands in order. -/
  success : ∀ ur, o.calls = [.ok ur] → ∃ r, reply = some r ∧ Replies up r ur.rtpproxyPort ∧
    replyAddress client r = some (ur.family, ur.rtpproxyAddress) ∧
    (up.padded (replyResults r)).length = up.commands.length ∧
    o.pairs = up.commands.zip (up.padded (replyResults r))
  /-- The error of a result `-1` at the end names the command at that position. -/
  named : ∀ r, reply = some r → replyWords r ≠ [] → refusal r = false →
    (replyResults r).length ≤ up.commands.length → (replyResults r).getLast? = some "-1".toList →
    ∃ command, up.commands[(replyResults r).length - 1]? = some command ∧
      o.calls = [.error (.failed command "-1".toList)]

/-- The subcommands with the results that the loop would hand to them. -/
def shares : List Subcommand → List Text → List (Subcommand × List Text)
  | [], _ => []
  | c :: cs, ress =>
    let rest := ress.drop c.commands.length
    (c, ress.take c.commands.length) :: if rest = [] then [] else shares cs rest

def accepts (p : Subcommand × List Text) : Bool :=
  match p.1.handle p.2 with
  | .ok (.ok _) => true
  | _ => false

/-- The results are too many, or the last of them is an error. -/
def UpdateParams.Refused (up : UpdateParams) (ress : List Text) : Prop :=
  up.subcommands ≠ [] ∧ (up.commands.length < ress.length ∨ ress.getLast? = some "-1".toList)

def UpdateParams.objector (up : UpdateParams) (ress : List Text) : Option (Subcommand × List Text) :=
  (shares up.subcommands (up.padded ress)).find? fun p => !accepts p

/-- A reply has a word before the results of the subcommands. If it is no error and all subcommands
accept their results, the word is a number, and if that is not zero, there is an address to be had
and no result that nobody asked for. A subcommand that objects has a result to read. -/
def UpdateParams.Decodable (up : UpdateParams) (client : Option Client) (r : Text) : Prop :=
  ∃ word rest, replyWords r = word :: rest ∧
    (word.head? = some 'E' ∨ up.Refused (replyResults r) ∨
      match up.objector (replyResults r) with
      | some p => (p.1.handle p.2).isOk
      | none => ∃ port, Text.int word = some port ∧ (port = 0 ∨
          (rest ≠ [] ∨ client.isSome) ∧ (up.subcommands = [] → replyResults r = [])))

section Decoding
variable {up : UpdateParams} {client : Option Client} {r : Text} {ress : List Text} {cs : List Subcommand}

theorem expected_eq (up : UpdateParams) : up.expected = up.commands.length := by
  rw [UpdateParams.expected, UpdateParams.commands, List.length_flatMap]

theorem padded_length (h : ress.length ≤ up.commands.length) :
    (up.padded ress).length = up.commands.length := by
  rw [UpdateParams.padded, List.length_append, List.length_replicate, expected_eq]
  omega

theorem failedCommand_eq {k : ℕ} (hk : 0 < k) : failedCommand k cs = (cs.flatMap Subcommand.commands)[k - 1]? := by
  induction cs generalizing k with
  | nil => rfl
  | cons c cs ih =>
    rw [failedCommand, List.flatMap_cons]
    split
    · rename_i hgt
      have hrest : 0 < k - c.commands.length := by omega
      have hindex : k - 1 - c.commands.length = k - c.commands.length - 1 := by omega
      rw [ih hrest, List.getElem?_append_right (by omega), hindex]
    · rw [List.getElem?_append_left (by omega)]

theorem handOut_pairs {fins : List Fin} (hlen : ress.length = (cs.flatMap Subcommand.commands).length)
    (h : (handOut cs ress).2 = .ok (.ok fins)) :
    ((handOut cs ress).1.flatMap fun x => x.commands.zip x.results) = (cs.flatMap Subcommand.commands).zip ress := by
  induction cs generalizing ress fins with
  | nil => rfl
  | cons c cs ih =>
    rw [List.flatMap_cons, List.length_append] at hlen
    have hgroup : c.commands.length = (ress.take c.commands.length).length := by
      rw [List.length_take]
      omega
    have hrest : (ress.drop c.commands.length).length = (cs.flatMap Subcommand.commands).length := by
      rw [List.length_drop]
      omega
    have hzip : (c.commands ++ cs.flatMap Subcommand.commands).zip ress =
        c.commands.zip (ress.take c.commands.length) ++
          (cs.flatMap Subcommand.commands).zip (ress.drop c.commands.length) := by
      rw [← List.zip_append hgroup, List.take_append_drop]
    rw [List.flatMap_cons, hzip]
    unfold handOut at h ⊢
    cases hc : c.handle (ress.take c.commands.length) with
    | error e =>
      simp only [hc] at h
      exact absurd h (by simp)
    | ok x =>
      cases x with
      | error ex =>
        simp only [hc] at h
        exact absurd h (by simp)
      | ok f =>
        simp only [hc] at h ⊢
        split
        · rename_i hnil
          rw [hnil]
          simp
        · rename_i hne
          rw [if_neg hne] at h
          cases hr : (handOut cs (ress.drop c.commands.length)).2 with
          | error e =>
            simp only [hr] at h
            exact absurd h (by simp [Except.map])
          | ok y =>
            cases y with
            | error ex =>
              simp only [hr] at h
              exact absurd h (by simp [Except.map])
            | ok fs =>
              rw [List.flatMap_cons, ih hrest hr]

theorem handOut_accepted (h : (shares cs ress).find? (fun p => !accepts p) = none) :
    ∃ fins, (handOut cs ress).2 = .ok (.ok fins) := by
  induction cs generalizing ress with
  | nil => exact ⟨[], rfl⟩
  | cons c cs ih =>
    rw [shares, List.find?_cons] at h
    cases hc : c.handle (ress.take c.commands.length) with
    | error e => simp [accepts, hc] at h
    | ok x =>
      cases x with
      | error ex => simp [accepts, hc] at h
      | ok f =>
        have haccepts : accepts (c, ress.take c.commands.length) = true := by simp only [accepts, hc]
        rw [haccepts] at h
        simp only [handOut, hc]
        split
        · exact ⟨_, rfl⟩
        · rename_i hne
          rw [if_neg hne] at h
          obtain ⟨fins, hfins⟩ := ih h
          exact ⟨f :: fins, by rw [hfins]; rfl⟩

theorem handOut_objected {p : Subcommand × List Text}
    (h : (shares cs ress).find? (fun p => !accepts p) = some p) :
    (∃ e, p.1.handle p.2 = .error e ∧ (handOut cs ress).2 = .error e) ∨
      ∃ ex, p.1.handle p.2 = .ok (.error ex) ∧ (handOut cs ress).2 = .ok (.error ex) := by
  induction cs generalizing ress with
  | nil => exact absurd h (by simp [shares])
  | cons c cs ih =>
    rw [shares, List.find?_cons] at h
    cases hc : c.handle (ress.take c.commands.length) with
    | error e =>
      have hobjects : accepts (c, ress.take c.commands.length) = false := by simp only [accepts, hc]
      rw [hobjects] at h
      obtain rfl := Option.some.inj h
      exact .inl ⟨e, hc, by simp only [handOut, hc]⟩
    | ok x =>
      cases x with
      | error ex =>
        have hobjects : accepts (c, ress.take c.commands.length) = false := by simp only [accepts, hc]
        rw [hobjects] at h
        obtain rfl := Option.some.inj h
        exact .inr ⟨ex, hc, by simp only [handOut, hc]⟩
      | ok f =>
        have haccepts : accepts (c, ress.take c.commands.length) = true := by simp only [accepts, hc]
        rw [haccepts] at h
        simp only [handOut, hc]
        split
        · rename_i hnil
          rw [if_pos hnil] at h
          exact absurd h (by simp)
        · rename_i hne
          rw [if_neg hne] at h
          rcases ih h with ⟨e, he, hout⟩ | ⟨ex, hex, hout⟩
          · exact .inl ⟨e, he, by rw [hout]; rfl⟩
          · exact .inr ⟨ex, hex, by rw [hout]; rfl⟩

theorem subProcess_loop (h : ¬ up.Refused ress) :
    up.subProcess ress = handOut up.subcommands (up.padded ress) := by
  unfold UpdateParams.Refused at h
  unfold UpdateParams.subProcess
  by_cases hnil : up.subcommands = []
  · rw [if_pos hnil, hnil]
    rfl
  · have hnot : ¬ (up.commands.length < ress.length ∨ ress.getLast? = some "-1".toList) :=
      fun hor => h ⟨hnil, hor⟩
    rw [not_or] at hnot
    rw [if_neg hnil, if_neg (by rw [expected_eq]; exact hnot.1), if_neg hnot.2]

/-- Results that are refused make an error, which for a result `-1` names its command. -/
theorem subProcess_refused (h : up.Refused ress) :
    ∃ ex, up.subProcess ress = ([], .ok (.error ex)) ∧ (ress.length ≤ up.commands.length →
      ∃ command, up.commands[ress.length - 1]? = some command ∧ ex = .failed command "-1".toList) := by
  obtain ⟨hne, hor⟩ := h
  unfold UpdateParams.subProcess
  rw [if_neg hne, expected_eq]
  by_cases hlen : ress.length > up.commands.length
  · rw [if_pos hlen]
    exact ⟨_, rfl, fun hle => absurd hle (by omega)⟩
  · have hlast : ress.getLast? = some "-1".toList := hor.resolve_left hlen
    have hpos : 0 < ress.length := by
      cases ress with
      | nil => exact absurd hlast (by simp)
      | cons x xs => exact Nat.succ_pos _
    have hcommand : failedCommand ress.length up.subcommands = up.commands[ress.length - 1]? :=
      failedCommand_eq hpos
    obtain ⟨command, hsome⟩ : ∃ command, up.commands[ress.length - 1]? = some command :=
      ⟨_, List.getElem?_eq_getElem (by omega)⟩
    rw [if_neg hlen, if_pos hlast, hcommand, hsome]
    exact ⟨_, rfl, fun _ => ⟨_, rfl, rfl⟩⟩

theorem address_eq (client : Option Client) {word : Text} {rest : List Text} (hw : replyWords r = word :: rest) :
    UpdateParams.address client (word :: rest) = (replyAddress client r).elim (.error .attributeError) .ok := by
  unfold replyAddress
  rw [hw]
  match rest with
  | [] => cases client <;> rfl
  | [addr] => rfl
  | addr :: family :: more =>
    unfold UpdateParams.address
    by_cases hsix : family = ['6']
    · subst hsix
      rfl
    · simp [hsix]

theorem replyAddress_isSome (client : Option Client) {word : Text} {rest : List Text} (hw : replyWords r = word :: rest) :
    (replyAddress client r).isSome ↔ rest ≠ [] ∨ client.isSome := by
  unfold replyAddress
  rw [hw]
  cases rest with
  | nil => simp
  | cons addr more => simp

theorem report_decodes {handed : List Handed} {ex : RtpProxyError} (hnamed : replyWords r ≠ [] → refusal r = false →
    (replyResults r).length ≤ up.commands.length → (replyResults r).getLast? = some "-1".toList →
    ∃ command, up.commands[(replyResults r).length - 1]? = some command ∧ ex = .failed command "-1".toList) :
    Decodes up client (some r) (.report handed ex) := by
  refine ⟨rfl, rfl, fun ur hur => absurd hur (by simp [Outcome.report]), fun r' hr' hne href hle hlast => ?_⟩
  obtain rfl := Option.some.inj hr'
  obtain ⟨command, hcommand, rfl⟩ := hnamed hne href hle hlast
  exact ⟨command, hcommand, rfl⟩

theorem raise_not_decodes {reply : Option Text} {handed : List Handed} {e : Exn} :
    ¬ Decodes up client reply (.raise handed e) := fun h => nomatch h.returns

theorem process_nil (hw : replyWords r = []) : up.process client (some r) = .raise [] .indexError := by
  have hwords : Text.words (Text.pieces1 "&&".toList (Text.rstrip r)).1 = [] := hw
  simp only [UpdateParams.process, hwords]

theorem process_refused {word : Text} {rest : List Text} (hw : replyWords r = word :: rest)
    (hE : word.head? = some 'E') : up.process client (some r) = .report [] (.refused word) := by
  have hwords : Text.words (Text.pieces1 "&&".toList (Text.rstrip r)).1 = word :: rest := hw
  simp only [UpdateParams.process, hwords, if_pos hE]

/-- The part of a reply that is not an error, once its first word is known. -/
theorem process_eq {word : Text} {rest : List Text} (hw : replyWords r = word :: rest)
    (hE : word.head? ≠ some 'E') : up.process client (some r) =
      match (up.subProcess (replyResults r)).2 with
      | .error e => .raise (up.subProcess (replyResults r)).1 e
      | .ok (.error ex) => .report (up.subProcess (replyResults r)).1 ex
      | .ok (.ok fins) =>
        match Text.int word with
        | none => .raise (up.subProcess (replyResults r)).1 .valueError
        | some port =>
          if port = 0 then .report (up.subProcess (replyResults r)).1 (.badPort word)
          else match (replyAddress client r) with
            | none => .raise (up.subProcess (replyResults r)).1 .attributeError
            | some (family, addr) =>
              .succeed (up.subProcess (replyResults r)).1 ⟨addr, port, family, up.onHold, fins⟩ := by
  have hwords : Text.words (Text.pieces1 "&&".toList (Text.rstrip r)).1 = word :: rest := hw
  have hres : subReplies (Text.pieces1 "&&".toList (Text.rstrip r)).2 = replyResults r := rfl
  have haddr := address_eq client hw
  simp only [UpdateParams.process, hwords, hres, if_neg hE, haddr]
  cases replyAddress client r <;> rfl

theorem accepted_iff {word : Text} {rest : List Text} {fins : List Fin} (hw : replyWords r = word :: rest)
    (hE : word.head? ≠ some 'E') (href : ¬ up.Refused (replyResults r))
    (hfins : (handOut up.subcommands (up.padded (replyResults r))).2 = .ok (.ok fins)) :
    Decodes up client (some r) (up.process client (some r)) ↔
      ∃ port, Text.int word = some port ∧ (port = 0 ∨
        (rest ≠ [] ∨ client.isSome) ∧ (up.subcommands = [] → replyResults r = [])) := by
  have hnot (hle : (replyResults r).length ≤ up.commands.length)
      (hlast : (replyResults r).getLast? = some "-1".toList) : False := by
    apply href
    refine ⟨fun hnil => ?_, .inr hlast⟩
    rw [UpdateParams.commands, hnil, List.flatMap_nil, List.length_nil, Nat.le_zero,
      List.length_eq_zero_iff] at hle
    rw [hle] at hlast
    exact absurd hlast (by simp)
  rw [process_eq hw hE, subProcess_loop href, hfins, ← replyAddress_isSome client hw]
  dsimp only
  cases hint : Text.int word with
  | none => exact iff_of_false raise_not_decodes (by simp)
  | some port =>
    dsimp only
    by_cases hzero : port = 0
    · rw [if_pos hzero]
      have hport : ∃ p, some port = some p ∧ (p = 0 ∨ (replyAddress client r).isSome ∧
          (up.subcommands = [] → replyResults r = [])) := ⟨port, rfl, .inl hzero⟩
      exact iff_of_true (report_decodes fun _ _ hle hlast => (hnot hle hlast).elim) hport
    · rw [if_neg hzero]
      cases haddr : replyAddress client r with
      | none =>
        apply iff_of_false raise_not_decodes
        rintro ⟨p, hp, hor⟩
        obtain rfl := Option.some.inj hp
        rcases hor with h | ⟨h, _⟩
        · exact hzero h
        · exact absurd h (by simp)
      | some fa =>
        dsimp only
        constructor
        · intro h
          obtain ⟨r', hr', hreplies, _, hlen, _⟩ := h.success _ rfl
          obtain rfl := Option.some.inj hr'
          refine ⟨port, rfl, .inr ⟨rfl, fun hnil => ?_⟩⟩
          have hle := hreplies.results
          rw [UpdateParams.commands, hnil, List.flatMap_nil, List.length_nil, Nat.le_zero,
            List.length_eq_zero_iff] at hle
          exact hle
        · rintro ⟨p, hp, hor⟩
          obtain rfl := Option.some.inj hp
          obtain ⟨_, hnone⟩ := hor.resolve_left hzero
          have hle : (replyResults r).length ≤ up.commands.length := by
            by_cases hnil : up.subcommands = []
            · rw [hnone hnil]
              exact Nat.zero_le _
            · exact Nat.not_lt.mp fun hlt => href ⟨hnil, .inl hlt⟩
          refine ⟨rfl, rfl, fun ur hur => ?_, fun r' hr' _ _ _ hlast => ?_⟩
          · obtain rfl : _ = ur := by simpa [Outcome.succeed] using hur
            refine ⟨r, rfl, ⟨?_, hzero, hle⟩, haddr, padded_length hle, ?_⟩
            · rw [hw]
              exact hint
            · exact handOut_pairs (padded_length hle) hfins
          · obtain rfl := Option.some.inj hr'
            exact (hnot hle hlast).elim

end Decoding

/-- The replies to an update that are decoded, with one call of the callback: no reply, and exactly
those that meet the condition. -/
theorem replies_decoded_iff (up : UpdateParams) (client : Option Client) (reply : Option Text) :
    Decodes up client reply (up.process client reply) ↔ ∀ r, reply = some r → up.Decodable client r := by
  cases reply with
  | none =>
    have hnone : Decodes up client none (up.process client none) :=
      ⟨rfl, rfl, fun ur hur => absurd hur (by simp [UpdateParams.process, Outcome.report]),
        fun r hr => absurd hr (by simp)⟩
    exact iff_of_true hnone fun r hr => absurd hr (by simp)
  | some r =>
    have hiff : (∀ r', some r = some r' → up.Decodable client r') ↔ up.Decodable client r :=
      ⟨fun h => h r rfl, fun h r' hr' => Option.some.inj hr' ▸ h⟩
    rw [hiff]
    cases hw : replyWords r with
    | nil =>
      rw [process_nil hw]
      apply iff_of_false raise_not_decodes
      rintro ⟨word, rest, hcons, _⟩
      exact absurd (hw.symm.trans hcons) (by simp)
    | cons word rest =>
      have hcond (P : Text → List Text → Prop) : (∃ w ws, replyWords r = w :: ws ∧ P w ws) ↔ P word rest := by
        simp [hw]
      unfold UpdateParams.Decodable
      rw [hcond fun word rest => word.head? = some 'E' ∨ up.Refused (replyResults r) ∨
        match up.objector (replyResults r) with
        | some p => (p.1.handle p.2).isOk
        | none => ∃ port, Text.int word = some port ∧ (port = 0 ∨
            (rest ≠ [] ∨ client.isSome) ∧ (up.subcommands = [] → replyResults r = []))]
      by_cases hE : word.head? = some 'E'
      · rw [process_refused hw hE]
        refine iff_of_true (report_decodes fun _ href => ?_) (.inl hE)
        rw [refusal, hw] at href
        exact absurd href (by simp [hE])
      · by_cases href : up.Refused (replyResults r)
        · obtain ⟨ex, hsub, hex⟩ := subProcess_refused href
          rw [process_eq hw hE, hsub]
          exact iff_of_true (report_decodes fun _ _ hle _ => hex hle) (.inr (.inl href))
        · rw [or_iff_right hE, or_iff_right href]
          cases hobj : up.objector (replyResults r) with
          | none =>
            obtain ⟨fins, hfins⟩ := handOut_accepted hobj
            exact accepted_iff hw hE href hfins
          | some p =>
            rw [process_eq hw hE, subProcess_loop href]
            rcases handOut_objected hobj with ⟨e, he, hout⟩ | ⟨ex, hex, hout⟩
            · rw [hout]
              exact iff_of_false raise_not_decodes (by simp [he, Except.isOk, Except.toBool])
            · rw [hout]
              refine iff_of_true (report_decodes fun hne hf hle hlast => ?_) (by simp [hex, Except.isOk, Except.toBool])
              refine absurd ⟨fun hnil => ?_, .inr hlast⟩ href
              rw [UpdateParams.objector, hnil] at hobj
              exact absurd hobj (by simp [shares])

def plainUpdate : UpdateParams where
  remoteIp := "10.0.0.2".toList
  remotePort := 4000
  atype := "IP4".toList
  options := []
  index := 0
  subcommands := []
  body := 0
  sect := 0
  sects := [0]

/-- A word that is no number is not reported: it is raised, and nobody is called. -/
theorem busy_not_decoded :
    (plainUpdate.process none (some "busy".toList)).calls = [] ∧
      ¬ Decodes plainUpdate none (some "busy".toList) (plainUpdate.process none (some "busy".toList)) := by
  have hprocess : plainUpdate.process none (some "busy".toList) = .raise [] .valueError := by rfl
  rw [hprocess]
  exact ⟨rfl, raise_not_decodes⟩

section Erase
variable {up : UpdateParams} {client : Option Client}

def plain {α : Type} (x : Except RtpProxyError α) : Except Exn α := x.mapError fun _ => .rtpProxy

def Outcome.result (o : Outcome) : Except Exn (Except Exn UpdateResult) :=
  match o.raised with
  | some e => .error e
  | none => .ok (plain (o.calls.headD (.error .errored)))

def UpdateParams.Commanded (up : UpdateParams) : Prop := ∀ c ∈ up.subcommands, c.commands ≠ []

theorem handle_plain {c : Subcommand} (hc : c.commands ≠ []) (results : List Text) :
    (c.handle results).map plain = .ok (c.handleResults results) := by
  unfold Subcommand.handle Subcommand.handleResults
  by_cases hlen : results.length ≠ c.commands.length
  · rw [if_pos hlen, if_pos hlen]
    rfl
  · rw [if_neg hlen, if_neg hlen]
    cases results with
    | nil => exact absurd (List.length_eq_zero_iff.mp (not_not.mp hlen).symm) hc
    | cons r rs =>
      cases c.name with
      | dtls =>
        dsimp only [List.headD_cons]
        generalize Text.wordsMax 1 r = ws
        match ws with
        | [] | [_] | [_, _] | _ :: _ :: _ :: _ => rfl
      | ice =>
        dsimp only [List.headD_cons]
        generalize Text.words r = ws
        match ws with
        | [] | [_] | [_, _] | _ :: _ :: _ :: _ => rfl
      | dedtls | deice =>
        dsimp only
        split <;> rfl

theorem handOut_plain {cs : List Subcommand} (hcs : ∀ c ∈ cs, c.commands ≠ []) (ress : List Text) :
    (handOut cs ress).2.map plain = .ok (handleAll cs ress) := by
  induction cs generalizing ress with
  | nil => rfl
  | cons c cs ih =>
    have hhead := handle_plain (hcs c List.mem_cons_self) (ress.take c.commands.length)
    have htail := ih (fun d hd => hcs d (List.mem_cons_of_mem c hd)) (ress.drop c.commands.length)
    cases hc : c.handle (ress.take c.commands.length) with
    | error e =>
      rw [hc] at hhead
      exact nomatch hhead
    | ok x =>
      rw [hc] at hhead
      have hx : c.handleResults (ress.take c.commands.length) = plain x := (Except.ok.inj hhead).symm
      cases x with
      | error ex =>
        simp only [handOut, hc, handleAll, hx]
        rfl
      | ok f =>
        simp only [handOut, hc, handleAll, hx]
        by_cases hnil : ress.drop c.commands.length = []
        · rw [if_pos hnil]
          simp only [hnil]
          rfl
        · rw [if_neg hnil]
          cases hout : (handOut cs (ress.drop c.commands.length)).2 with
          | error e =>
            rw [hout] at htail
            exact nomatch htail
          | ok y =>
            rw [hout] at htail
            have hy : handleAll cs (ress.drop c.commands.length) = plain y := (Except.ok.inj htail).symm
            simp only [plain, Except.mapError, bind, Except.bind, if_neg hnil, hy]
            cases y <;> rfl

theorem subProcess_plain (h : up.Commanded) (tail : Option Text) :
    (up.subProcess (subReplies tail)).2.map plain = .ok (up.subResults tail) := by
  have hsub : up.subResults tail = if up.subcommands = [] then .ok []
      else if (subReplies tail).length > up.expected then .error .rtpProxy
      else if (subReplies tail).getLast? = some "-1".toList then .error .rtpProxy
      else handleAll up.subcommands (up.padded (subReplies tail)) := rfl
  rw [hsub]
  by_cases href : up.Refused (subReplies tail)
  · obtain ⟨ex, hout, _⟩ := subProcess_refused href
    rw [hout]
    obtain ⟨hne, hor⟩ := href
    rw [if_neg hne]
    by_cases hlen : (subReplies tail).length > up.expected
    · rw [if_pos hlen]
      rfl
    · rw [expected_eq] at hlen
      rw [expected_eq, if_neg hlen, if_pos (hor.resolve_left hlen)]
      rfl
  · rw [subProcess_loop href, handOut_plain h]
    by_cases hnil : up.subcommands = []
    · rw [if_pos hnil, hnil]
      rfl
    · have hlen : ¬ (subReplies tail).length > up.expected := by
        rw [expected_eq]
        exact fun hlt => href ⟨hnil, .inl hlt⟩
      rw [if_neg hnil, if_neg hlen, if_neg fun hlast => href ⟨hnil, .inr hlast⟩]

theorem process_result (h : up.Commanded) (reply : Option Text) :
    (up.process client reply).result = up.processRtppResult client reply := by
  cases reply with
  | none => rfl
  | some r =>
    have hsub := subProcess_plain h (Text.pieces1 "&&".toList (Text.rstrip r)).2
    simp only [UpdateParams.process, UpdateParams.processRtppResult]
    cases Text.words (Text.pieces1 "&&".toList (Text.rstrip r)).1 with
    | nil => rfl
    | cons word rest =>
      dsimp only
      by_cases hE : word.head? = some 'E'
      · rw [if_pos hE, if_pos hE]
        rfl
      · rw [if_neg hE, if_neg hE]
        generalize up.subProcess (subReplies (Text.pieces1 "&&".toList (Text.rstrip r)).2) = out at hsub
        obtain ⟨handed, x⟩ := out
        cases x with
        | error e => cases hsub
        | ok y =>
          rw [← Except.ok.inj hsub]
          cases y with
          | error ex => rfl
          | ok fins =>
            dsimp only [plain, Except.mapError]
            cases Text.int word with
            | none => rfl
            | some port =>
              dsimp only
              by_cases hzero : port = 0
              · rw [if_pos hzero, if_pos hzero]
                rfl
              · rw [if_neg hzero, if_neg hzero]
                cases UpdateParams.address client (word :: rest) <;> rfl

end Erase

end SippyB2bua.Rtpp
