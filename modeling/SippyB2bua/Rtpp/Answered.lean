import SippyB2bua.Rtpp.Offer

/-!
# Every offer is answered once

The invariant of a session: for each body that was given to it, the results that came and the
updates that wait make up the sections that were asked for, and the answers are those that the
results call for.
-/

namespace SippyB2bua.Rtpp
open Lib (Text Sequencer Along run)
open Sdp

/-- The answer that the results of `n` sections call for, if they call for one: the first error,
or that all is well. -/
def verdict (n : ℕ) (outcomes : List (Option Exn)) : Option (Option Exn) :=
  match (outcomes.filterMap id).head? with
  | some e => some (some e)
  | none => if outcomes.length = n then some none else none

section Verdict
variable {n : ℕ} {outcomes : List (Option Exn)} {e : Exn}

theorem verdict_eq_none : verdict n outcomes = none ↔
    outcomes.filterMap id = [] ∧ outcomes.length ≠ n := by
  unfold verdict
  cases outcomes.filterMap id with
  | nil => simp
  | cons e es => simp

theorem verdict_fine (h : verdict n outcomes = some none) :
    outcomes.filterMap id = [] ∧ outcomes.length = n := by
  unfold verdict at h
  cases hr : outcomes.filterMap id with
  | nil =>
    rw [hr] at h
    simpa using h
  | cons e es =>
    rw [hr] at h
    simp at h

theorem verdict_append_error (h : verdict n outcomes = none) :
    verdict n (outcomes ++ [some e]) = some (some e) := by
  rw [verdict, List.filterMap_append, (verdict_eq_none.1 h).1]
  rfl

theorem verdict_append_fine (h : verdict n outcomes = none) :
    verdict n (outcomes ++ [none]) = if outcomes.length + 1 = n then some none else none := by
  rw [verdict, List.filterMap_append, (verdict_eq_none.1 h).1, List.length_append]
  rfl

theorem verdict_append_of_error (h : verdict n outcomes = some (some e)) (o : Option Exn) :
    verdict n (outcomes ++ [o]) = some (some e) := by
  unfold verdict at h ⊢
  rw [List.filterMap_append]
  cases hr : outcomes.filterMap id with
  | nil =>
    rw [hr] at h
    simp at h
  | cons e' es =>
    rw [hr] at h
    exact h

end Verdict

def Answer.exn : Answer → Option Exn
  | .updated _ => none
  | .failed e => some e

/-- The section and the outcome, of a result for the `k`-th body. -/
def Note.outcome (k : ℕ) : Note → Option (ℕ × Option Exn)
  | .result j i ex => if j = k then some (i, ex) else none
  | _ => none

def Note.answer (k : ℕ) : Note → Option Answer
  | .answered j a => if j = k then some a else none
  | _ => none

/-- The section that an update for the `k`-th body is about. -/
def Command.sectOf (k : ℕ) (c : Command) : Option ℕ :=
  c.cb.bind fun p => if p.2.body = k then some p.2.sect else none

namespace Session

def outcomes (s : Session) (k : ℕ) : List (ℕ × Option Exn) := s.log.filterMap (Note.outcome k)

def answers (s : Session) (k : ℕ) : List Answer := s.log.filterMap (Note.answer k)

/-- The sections of the `k`-th body whose results are still to come. -/
def waits (s : Session) (k : ℕ) : List ℕ := s.seq.waiting.filterMap (Command.sectOf k)

end Session

/-- A body that waits for some of its sections and has the results of the others. -/
structure Open (body : MsgBody) (b : SdpBody) (waits sects : List ℕ) : Prop where
  needsUpdate : body.needsUpdate = true
  content : body.content = .sdp b
  oHeader : b.oHeader.isSome
  wait : ∀ i ∈ waits, ∃ sect, b.sections[i]? = some sect ∧ sect.cHeader.isSome ∧
    sect.mHeader.isSome ∧ sect.needsUpdate = true
  done : ∀ i ∈ sects, i ∉ waits → (b.sections[i]?.any (·.needsUpdate)) = false

/-- The sections are updated, all of them. -/
def Answer.Rewritten (sects : List ℕ) : Answer → Prop
  | .updated body => body.needsUpdate = false ∧
    ∃ b, body.content = .sdp b ∧ ∀ i ∈ sects, (b.sections[i]?.any (·.needsUpdate)) = false
  | .failed _ => True

structure Asked (s : Session) (k : ℕ) (sects : List ℕ) : Prop where
  order : (s.outcomes k).map Prod.fst ++ s.waits k = sects
  ne_nil : sects ≠ []
  nodup : sects.Nodup
  answers : (s.answers k).map Answer.exn =
    (verdict sects.length ((s.outcomes k).map Prod.snd)).toList
  rewritten : ∀ a ∈ s.answers k, a.Rewritten sects
  pending : verdict sects.length ((s.outcomes k).map Prod.snd) = none →
    ∃ body b, s.bodies[k]? = some body ∧ Open body b (s.waits k) sects
  done : verdict sects.length ((s.outcomes k).map Prod.snd) ≠ none →
    ∃ body, s.bodies[k]? = some body ∧ body.needsUpdate = false

/-- A body for which there was a return or an exception at once. -/
structure Quiet (s : Session) (k : ℕ) (sects : List ℕ) : Prop where
  sects : sects = []
  outcomes : s.outcomes k = []
  waits : s.waits k = []
  answers : s.answers k = []

def Tracks (s : Session) (k : ℕ) (sects : List ℕ) : Except Exn (Option MsgBody) → Prop
  | .ok none => Asked s k sects
  | _ => Quiet s k sects

structure Inv (s : Session) : Prop where
  seq : s.seq.Sound
  live : s.client.isSome → s.seq.live = true
  deleted : s.seq.deleted = true → s.client = none
  /-- The notes and the commands are about bodies that came. -/
  notes : ∀ k, s.bodies.length ≤ k → s.outcomes k = [] ∧ s.answers k = [] ∧ s.waits k = []
  changes : ∀ k sects ret, .change k sects ret ∈ s.log → k < s.bodies.length ∧ Tracks s k sects ret
  noted : ∀ k < s.bodies.length, ∃ sects ret, .change k sects ret ∈ s.log
  unique : ∀ k sects ret sects' ret', .change k sects ret ∈ s.log → .change k sects' ret' ∈ s.log →
    sects = sects' ∧ ret = ret'
  commands : ∀ c ∈ s.seq.waiting, ∀ n up, c.cb = some (n, up) → .change up.body up.sects (.ok none) ∈ s.log

section Frame
variable {s s' : Session} {k : ℕ} {sects : List ℕ} {ret : Except Exn (Option MsgBody)}

theorem Tracks.congr (h : Tracks s k sects ret) (ho : s'.outcomes k = s.outcomes k)
    (ha : s'.answers k = s.answers k) (hw : s'.waits k = s.waits k)
    (hb : s'.bodies[k]? = s.bodies[k]?) : Tracks s' k sects ret := by
  match ret with
  | .error e | .ok (some b) =>
    obtain ⟨h1, h2, h3, h4⟩ := h
    exact ⟨h1, ho.trans h2, hw.trans h3, ha.trans h4⟩
  | .ok none =>
    obtain ⟨h1, h2, h3, h4, h5, h6, h7⟩ := h
    rw [← ho, ← hw] at h1
    rw [← ha, ← ho] at h4
    rw [← ha] at h5
    rw [← ho, ← hw, ← hb] at h6
    rw [← ho, ← hb] at h7
    exact ⟨h1, h2, h3, h4, h5, h6, h7⟩

end Frame

section Update
variable {s : Session} {n : SideName} {up : UpdateParams} {b : SdpBody} {k : ℕ} {sects : List ℕ}

theorem update_none (n : SideName) (up : UpdateParams) (hc : s.client = none) :
    ∃ m, s.update n up = ({ s with maxIndex := m }, some .attributeError) :=
  ⟨_, by rw [Session.update, hc]⟩

theorem update_eq (n : SideName) (up : UpdateParams) (hc : s.client.isSome) :
    ∃ s' cmd, s.update n up = (s', none) ∧ s'.seq = s.seq.sendCommand ⟨cmd, some (n, up)⟩ ∧
      s'.client = s.client ∧ s'.bodies = s.bodies ∧ s'.log = s.log ∧ s'.prepare n = s.prepare n := by
  obtain ⟨client, seq, callId, fromTag, toTag, caller, callee, maxIndex, notifySocket, notifyTag,
    mediaTimeoutIndex, insertNortpp, myAddress, originId, bodies, log⟩ := s
  obtain ⟨rtpc, rfl⟩ := Option.isSome_iff_exists.1 hc
  cases n with
  | caller => exact ⟨_, _, rfl, rfl, rfl, rfl, rfl, rfl⟩
  | callee => exact ⟨_, _, rfl, rfl, rfl, rfl, rfl, rfl⟩

/-- An update for the `k`-th body, one of the sections. -/
def Command.About (k : ℕ) (sects : List ℕ) (i : ℕ) (c : Command) : Prop :=
  ∃ n up, c.cb = some (n, up) ∧ up.body = k ∧ up.sects = sects ∧ up.sect = i

theorem prepare_eq {index i : ℕ} (h : s.prepare n k b sects index i = .ok up) :
    up.body = k ∧ up.sects = sects ∧ up.sect = i := by
  unfold Session.prepare at h
  split at h
  · exact nomatch h
  · split at h
    · cases hsub : s.subcommands n b _ with
      | error e =>
        rw [hsub] at h
        exact nomatch h
      | ok subs =>
        rw [hsub] at h
        cases h
        exact ⟨rfl, rfl, rfl⟩
    · exact nomatch h

/-- What a call for a body does to the session before its sections are asked for. -/
structure Adds (s s' : Session) (cmds : List Command) : Prop where
  waiting : s'.seq.waiting = s.seq.waiting ++ cmds
  sound : s'.seq.Sound
  live : s'.seq.live = s.seq.live
  deleted : s'.seq.deleted = s.seq.deleted
  client : s'.client = s.client
  bodies : s'.bodies = s.bodies
  log : s'.log = s.log

theorem updateAll_eq {l : List (ℕ × ℕ)} (hs : s.seq.Sound) (hlive : s.seq.live = true)
    (hc : s.client.isSome) (hl : ∀ p ∈ l, (s.prepare n k b sects p.2 p.1).isOk) :
    ∃ s' cmds, Session.updateAll n k b sects s l = (s', none, l.map Prod.fst) ∧ Adds s s' cmds ∧
      List.Forall₂ (Command.About k sects) (l.map Prod.fst) cmds := by
  induction l generalizing s with
  | nil => exact ⟨s, [], rfl, ⟨by simp, hs, rfl, rfl, rfl, rfl, rfl⟩, .nil⟩
  | cons p l ih =>
    obtain ⟨hp, hl⟩ := List.forall_mem_cons.1 hl
    cases hprep : s.prepare n k b sects p.2 p.1 with
    | error e =>
      rw [hprep] at hp
      exact nomatch hp
    | ok up =>
      obtain ⟨s1, cmd, hup, hseq, hcl, hb, hlog, hprep1⟩ := update_eq n up hc
      have hw : s1.seq.waiting = s.seq.waiting ++ [⟨cmd, some (n, up)⟩] := by
        rw [hseq, hs.waiting_sendCommand hlive]
      have hlive1 : s1.seq.live = s.seq.live := by rw [hseq, Sequencer.live_sendCommand]
      have hdel1 : s1.seq.deleted = s.seq.deleted := by rw [hseq, Sequencer.deleted_sendCommand]
      obtain ⟨s2, cmds, hall, hadds, habout⟩ := ih (hseq ▸ hs.sendCommand _) (hlive1.trans hlive)
        (hcl ▸ hc) (by rwa [hprep1])
      refine ⟨s2, ⟨cmd, some (n, up)⟩ :: cmds, ?_, ?_, ?_⟩
      · rw [Session.updateAll, hprep]
        simp only [hup, hall, List.map_cons]
      · refine ⟨?_, hadds.sound, hadds.live.trans hlive1, hadds.deleted.trans hdel1,
          hadds.client.trans hcl, hadds.bodies.trans hb, hadds.log.trans hlog⟩
        rw [hadds.waiting, hw, List.append_assoc, List.singleton_append]
      · exact .cons ⟨n, up, rfl, prepare_eq hprep⟩ habout

theorem updateAll_error {p : ℕ × ℕ} {l : List (ℕ × ℕ)} (hs : s.seq.Sound)
    (h : s.client = none ∨ (s.prepare n k b sects p.2 p.1).isOk = false) :
    ∃ s' e, Session.updateAll n k b sects s (p :: l) = (s', some e, []) ∧ Adds s s' [] := by
  rw [Session.updateAll]
  cases hprep : s.prepare n k b sects p.2 p.1 with
  | error e => exact ⟨s, e, rfl, by simp, hs, rfl, rfl, rfl, rfl, rfl⟩
  | ok up =>
    rcases h with h | h
    · obtain ⟨m, hup⟩ := update_none n up h
      simp only [hup]
      exact ⟨_, _, rfl, by simp, hs, rfl, rfl, rfl, rfl, rfl⟩
    · rw [hprep] at h
      exact nomatch h

end Update

def Session.asks (s : Session) (n : SideName) (b : SdpBody) (i : ℕ) : Bool :=
  b.sections[i]?.all fun sect => (s.subcommands n b sect).isOk

/-- A description that will be answered: a new and complete one with a section that is supported.
An exception while the sections are asked for comes before the first update. -/
structure Askable (s : Session) (n : SideName) (body : MsgBody) (b : SdpBody) : Prop where
  needsUpdate : body.needsUpdate = true
  sane : b.sane = true
  supported : sectsOf b ≠ []
  fresh : ∀ i ∈ sectsOf b, b.sections[i]?.all (·.needsUpdate)
  asks : s.client = none ∨ (∀ i ∈ sectsOf b, s.asks n b i) ∨ ∀ i ∈ (sectsOf b).head?, s.asks n b i = false

/-- A result that tells something about a section which still waits, and a section that can be
finished with it. -/
structure Tells (s : Session) (n : SideName) (up : UpdateParams) (body : MsgBody)
    (r : Option Text) : Prop where
  readable : up.readable s.client r
  repacketize : ∀ ur, up.processRtppResult s.client r = .ok (.ok ur) →
    (s.side n).conf.softRepacketize → (s.side n).conf.repacketize.isSome
  deice : ∀ ur, up.processRtppResult s.client r = .ok (.ok ur) → .deice ∈ ur.sdpSectFins →
    ∀ b sect, body.content = .sdp b → b.sections[up.sect]? = some sect → msidOk sect.aHeaders

/-- A step that does not leave anybody waiting. -/
def Session.Meets (mixed : Text → Except Exn Unit) (s : Session) : Label → Prop
  | .change n body => ∀ body', body.parse mixed = .ok body' → match body'.content with
    | .text _ => False
    | .mixed => True
    | .sdp b => Askable s n body' b
  | .result r => ∀ n up, s.seq.inflight.bind Command.cb = some (n, up) →
    ∀ body, s.bodies[up.body]? = some body → body.needsUpdate = true → Tells s n up body r
  | _ => True

section Change
variable {mixed : Text → Except Exn Unit} {s : Session} {n : SideName} {body : MsgBody} {b : SdpBody}
variable {i : ℕ}

theorem mem_sectsOf : i ∈ sectsOf b ↔ ∃ sect, b.sections[i]? = some sect ∧ supportedSect sect := by
  rw [sectsOf, List.mem_filter, List.mem_range]
  constructor
  · intro h
    obtain ⟨sect, hsect⟩ : ∃ sect, b.sections[i]? = some sect := ⟨_, List.getElem?_eq_getElem h.1⟩
    rw [hsect] at h
    exact ⟨sect, hsect, h.2⟩
  · rintro ⟨sect, hsect, hs⟩
    rw [hsect]
    exact ⟨(List.getElem?_eq_some_iff.1 hsect).1, hs⟩

theorem sectsOf_nodup : (sectsOf b).Nodup := List.nodup_range.filter _

theorem sane_sect (h : b.sane = true) {sect : SdpMediaDescription} (hs : b.sections[i]? = some sect) :
    sect.cHeader.isSome ∧ sect.mHeader.isSome := by
  rw [SdpBody.sane, Bool.and_eq_true, List.all_eq_true] at h
  exact (Bool.and_eq_true _ _).mp (h.2 sect (List.mem_of_getElem? hs))

theorem prepare_isOk (h : b.sane = true) (hi : i ∈ sectsOf b) (k : ℕ) (sects : List ℕ) (index : ℕ) :
    (s.prepare n k b sects index i).isOk = s.asks n b i := by
  obtain ⟨sect, hsect, -⟩ := mem_sectsOf.1 hi
  obtain ⟨hc, hm⟩ := sane_sect h hsect
  obtain ⟨c, hc⟩ := Option.isSome_iff_exists.1 hc
  obtain ⟨m, hm⟩ := Option.isSome_iff_exists.1 hm
  unfold Session.prepare Session.asks
  simp only [hsect, hc, hm, Option.all_some]
  cases s.subcommands n b sect <;> rfl

def Session.codecs (s : Session) (n : SideName) (codecs : Text) : Session :=
  s.setSide n { s.side n with codecs := some codecs }

theorem prepare_codecs (s : Session) (n : SideName) (codecs : Text) :
    (s.codecs n codecs).prepare n = s.prepare n := by
  cases n <;> rfl

theorem Adds.of_codecs {s' : Session} {cmds : List Command} {codecs : Text}
    (h : Adds (s.codecs n codecs) s' cmds) : Adds s s' cmds := by
  cases n <;> exact ⟨h.1, h.2, h.3, h.4, h.5, h.6, h.7⟩

theorem Adds.refl (h : s.seq.Sound) : Adds s s [] := ⟨by simp, h, rfl, rfl, rfl, rfl, rfl⟩

theorem Askable.open (h : Askable s n body b) (hb : body.content = .sdp b) :
    Open body b (sectsOf b) (sectsOf b) := by
  have ho : b.oHeader.isSome := by
    have := h.sane
    rw [SdpBody.sane, Bool.and_eq_true, Bool.and_eq_true] at this
    exact this.1.1
  refine ⟨h.needsUpdate, hb, ho, fun i hi => ?_, fun i hi hn => absurd hi hn⟩
  obtain ⟨sect, hsect, -⟩ := mem_sectsOf.1 hi
  have hfresh := h.fresh i hi
  rw [hsect] at hfresh
  exact ⟨sect, hsect, (sane_sect h.sane hsect).1, (sane_sect h.sane hsect).2, hfresh⟩

/-- A call raises before anything is asked for, or returns nothing and has asked for all of the
sections. -/
theorem onSdpChange_eq (hs : s.seq.Sound) (hlive : s.client.isSome → s.seq.live = true)
    (hm : s.Meets mixed (.change n body)) :
    ∃ body' s' sects ret cmds, s.onSdpChange mixed n body = (s', sects, ret) ∧
      Adds { s with bodies := s.bodies ++ [body'] } s' cmds ∧
      List.Forall₂ (Command.About s.bodies.length sects) sects cmds ∧
      ((sects = [] ∧ ∃ e, ret = .error e) ∨
        (ret = .ok none ∧ sects ≠ [] ∧ sects.Nodup ∧ ∃ b, Open body' b sects sects)) := by
  unfold Session.onSdpChange Session._onSdpChange
  cases hp : body.parse mixed with
  | error e =>
    exact ⟨body, _, _, _, [], rfl, .refl hs, .nil, .inl ⟨rfl, _, rfl⟩⟩
  | ok body' =>
    have hbody := hm body' hp
    cases hb : body'.content with
    | text t =>
      rw [hb] at hbody
      exact hbody.elim
    | mixed =>
      simp only [hb]
      exact ⟨body', _, _, _, [], rfl, .refl hs, .nil, .inl ⟨rfl, _, rfl⟩⟩
    | sdp b =>
      rw [hb] at hbody
      replace hbody : Askable s n body' b := hbody
      have hheaders : b.sections.any (·.mHeader.isNone) = false := by
        rw [List.any_eq_false]
        intro sect hsect
        obtain ⟨j, hj⟩ := List.mem_iff_getElem?.1 hsect
        rw [Option.isNone_eq_false_iff.2 (sane_sect hbody.sane hj).2]
        exact Bool.false_ne_true
      have hopen := hbody.open hb
      have hnodup := sectsOf_nodup (b := b)
      cases hsects : sectsOf b with
      | nil => exact absurd hsects hbody.supported
      | cons i is =>
        obtain ⟨codecs, hcodecs⟩ : ∃ codecs, ",".toList.intercalate
          ((b.sections[i]?.bind (·.mHeader)).elim [] fun m => m.formats.texts) = codecs := ⟨_, rfl⟩
        rw [hsects] at hopen hnodup
        simp only [hb, hheaders, hsects, hcodecs]
        obtain ⟨s1, hs1⟩ : ∃ s1 : Session, { s with bodies := s.bodies ++ [body'] } = s1 := ⟨_, rfl⟩
        have hprep : ∀ p ∈ (i :: is).zipIdx, ((s1.codecs n codecs).prepare n s.bodies.length b (i :: is)
            p.2 p.1).isOk = s.asks n b p.1 := by
          rintro ⟨j, index⟩ hj
          have hj' : j ∈ sectsOf b := hsects ▸ List.fst_mem_of_mem_zipIdx hj
          rw [prepare_codecs, prepare_isOk hbody.sane hj', ← hs1]
          cases n <;> rfl
        have hsound : (s1.codecs n codecs).seq.Sound := by
          rw [← hs1]
          cases n <;> exact hs
        have hclient : (s1.codecs n codecs).client = s.client := by
          rw [← hs1]
          cases n <;> rfl
        have hseq : (s1.codecs n codecs).seq = s.seq := by
          rw [← hs1]
          cases n <;> rfl
        have herror (h : s.client = none ∨ s.asks n b i = false) :
            ∃ s' e, Session.updateAll n s.bodies.length b (i :: is) (s1.codecs n codecs) (i :: is).zipIdx =
              (s', some e, []) ∧ Adds (s1.codecs n codecs) s' [] := by
          apply updateAll_error hsound
          rw [hclient]
          exact h.imp_right fun h => (hprep (i, 0) (List.mem_cons_self ..)).trans h
        have hall (hc : s.client.isSome) (h : ∀ j ∈ sectsOf b, s.asks n b j) :
            ∃ s' cmds, Session.updateAll n s.bodies.length b (i :: is) (s1.codecs n codecs) (i :: is).zipIdx =
              (s', none, i :: is) ∧ Adds (s1.codecs n codecs) s' cmds ∧
              List.Forall₂ (Command.About s.bodies.length (i :: is)) (i :: is) cmds := by
          have := updateAll_eq (l := (i :: is).zipIdx) hsound (by rw [hseq]; exact hlive hc) (hclient ▸ hc)
            fun p hp => (hprep p hp).trans (h p.1 (hsects ▸ List.fst_mem_of_mem_zipIdx hp))
          rwa [List.zipIdx_map_fst] at this
        rw [hs1, if_neg Bool.false_ne_true]
        unfold Session.codecs at herror hall
        have hcases : (s.client = none ∨ s.asks n b i = false) ∨
            (s.client.isSome ∧ ∀ j ∈ sectsOf b, s.asks n b j) := by
          cases hc : s.client with
          | none => exact .inl (.inl rfl)
          | some rtpc =>
            rcases hbody.asks with h | h | h
            · exact nomatch hc.symm.trans h
            · exact .inr ⟨rfl, h⟩
            · exact .inl (.inr (h i (by rw [hsects]; rfl)))
        rcases hcases with h | ⟨hc, h⟩
        · obtain ⟨s', e, heq, hadds⟩ := herror h
          rw [heq]
          exact ⟨body', s', [], _, [], rfl, hs1 ▸ hadds.of_codecs, .nil, .inl ⟨rfl, e, rfl⟩⟩
        · obtain ⟨s', cmds, heq, hadds, habout⟩ := hall hc h
          rw [heq]
          exact ⟨body', s', i :: is, _, cmds, rfl, hs1 ▸ hadds.of_codecs, habout,
            .inr ⟨rfl, List.cons_ne_nil i is, hnodup, b, hopen⟩⟩

end Change

section Notes
variable {s : Session} {j k i : ℕ} {sects : List ℕ}

@[simp] theorem outcomes_change (ret : Except Exn (Option MsgBody)) :
    (s.note (.change k sects ret)).outcomes j = s.outcomes j := by
  simp [Session.outcomes, Session.note, Note.outcome]

@[simp] theorem outcomes_answered (a : Answer) : (s.note (.answered k a)).outcomes j = s.outcomes j := by
  simp [Session.outcomes, Session.note, Note.outcome]

theorem outcomes_result (ex : Option Exn) : (s.note (.result k i ex)).outcomes j =
    s.outcomes j ++ if k = j then [(i, ex)] else [] := by
  by_cases h : k = j <;> simp [Session.outcomes, Session.note, Note.outcome, h]

@[simp] theorem answers_change (ret : Except Exn (Option MsgBody)) :
    (s.note (.change k sects ret)).answers j = s.answers j := by
  simp [Session.answers, Session.note, Note.answer]

@[simp] theorem answers_result (ex : Option Exn) : (s.note (.result k i ex)).answers j = s.answers j := by
  simp [Session.answers, Session.note, Note.answer]

theorem answers_answered (a : Answer) : (s.note (.answered k a)).answers j =
    s.answers j ++ if k = j then [a] else [] := by
  by_cases h : k = j <;> simp [Session.answers, Session.note, Note.answer, h]

theorem sectsOf_about {l : List ℕ} {cmds : List Command} (h : List.Forall₂ (Command.About k sects) l cmds) :
    cmds.filterMap (Command.sectOf k) = l := by
  induction h with
  | nil => rfl
  | cons hc _ ih =>
    obtain ⟨n, up, hcb, hbody, -, hsect⟩ := hc
    rw [List.filterMap_cons, ih]
    simp [Command.sectOf, hcb, hbody, hsect]

theorem sectsOf_about_other {l : List ℕ} {cmds : List Command} (hjk : k ≠ j)
    (h : List.Forall₂ (Command.About k sects) l cmds) : cmds.filterMap (Command.sectOf j) = [] := by
  induction h with
  | nil => rfl
  | cons hc _ ih =>
    obtain ⟨n, up, hcb, hbody, -, -⟩ := hc
    rw [List.filterMap_cons, ih]
    simp [Command.sectOf, hcb, hbody, hjk]

theorem about_of_mem {l : List ℕ} {cmds : List Command} {c : Command}
    (h : List.Forall₂ (Command.About k sects) l cmds) (hc : c ∈ cmds) :
    ∃ n up, c.cb = some (n, up) ∧ up.body = k ∧ up.sects = sects := by
  induction h with
  | nil => exact nomatch hc
  | cons hd _ ih =>
    rcases List.mem_cons.1 hc with rfl | hc
    · obtain ⟨n, up, hcb, hbody, hsects, -⟩ := hd
      exact ⟨n, up, hcb, hbody, hsects⟩
    · exact ih hc

end Notes

section Asked
variable {s t : Session} {k i : ℕ} {sects : List ℕ} {o : Option Exn} {e : Exn}

theorem Asked.order_next (h : Asked s k sects) (ho : t.outcomes k = s.outcomes k ++ [(i, o)])
    (hw : s.waits k = i :: t.waits k) : (t.outcomes k).map Prod.fst ++ t.waits k = sects := by
  rw [ho, List.map_append, List.append_assoc, ← h.order, hw]
  rfl

theorem Asked.length (h : Asked s k sects) :
    ((s.outcomes k).map Prod.snd).length + (s.waits k).length = sects.length := by
  rw [← h.order]
  simp

theorem Asked.after_error (h : Asked s k sects)
    (hv : verdict sects.length ((s.outcomes k).map Prod.snd) = some (some e))
    (ho : t.outcomes k = s.outcomes k ++ [(i, o)]) (hw : s.waits k = i :: t.waits k)
    (ha : t.answers k = s.answers k) (hb : t.bodies[k]? = s.bodies[k]?) : Asked t k sects := by
  have hv' : verdict sects.length ((t.outcomes k).map Prod.snd) = some (some e) := by
    rw [ho, List.map_append]
    exact verdict_append_of_error hv o
  refine ⟨h.order_next ho hw, h.ne_nil, h.nodup, ?_, ha ▸ h.rewritten, fun hn => ?_, fun _ => ?_⟩
  · rw [hv', ha, h.answers, hv]
  · exact nomatch hv'.symm.trans hn
  · rw [hb]
    exact h.done (by simp [hv])

theorem Asked.fails {body : MsgBody} (h : Asked s k sects)
    (hv : verdict sects.length ((s.outcomes k).map Prod.snd) = none)
    (ho : t.outcomes k = s.outcomes k ++ [(i, some e)]) (hw : s.waits k = i :: t.waits k)
    (ha : t.answers k = s.answers k ++ [.failed e]) (hb : t.bodies[k]? = some body)
    (hn : body.needsUpdate = false) : Asked t k sects := by
  have hv' : verdict sects.length ((t.outcomes k).map Prod.snd) = some (some e) := by
    rw [ho, List.map_append]
    exact verdict_append_error hv
  refine ⟨h.order_next ho hw, h.ne_nil, h.nodup, ?_, ?_, fun hn => ?_, fun _ => ⟨body, hb, hn⟩⟩
  · rw [hv', ha, List.map_append, h.answers, hv]
    rfl
  · rw [ha]
    intro a ha
    rcases List.mem_append.1 ha with ha | ha
    · exact h.rewritten a ha
    · rw [List.mem_singleton.1 ha]
      exact trivial
  · exact nomatch hv'.symm.trans hn

theorem Asked.goes_on (h : Asked s k sects)
    (hv : verdict sects.length ((s.outcomes k).map Prod.snd) = none)
    (ho : t.outcomes k = s.outcomes k ++ [(i, none)]) (hw : s.waits k = i :: t.waits k)
    (hne : t.waits k ≠ []) (ha : t.answers k = s.answers k)
    (hb : ∃ body b, t.bodies[k]? = some body ∧ Open body b (t.waits k) sects) : Asked t k sects := by
  have hlen := h.length
  have hv' : verdict sects.length ((t.outcomes k).map Prod.snd) = none := by
    rw [ho, List.map_append]
    refine (verdict_append_fine hv).trans (if_neg fun heq => hne ?_)
    rw [hw, List.length_cons] at hlen
    exact List.length_eq_zero_iff.1 (by omega)
  refine ⟨h.order_next ho hw, h.ne_nil, h.nodup, ?_, ha ▸ h.rewritten, fun _ => hb, fun hn => ?_⟩
  · rw [hv', ha, h.answers, hv]
  · exact absurd hv' hn

theorem Asked.completes {body : MsgBody} (h : Asked s k sects)
    (hv : verdict sects.length ((s.outcomes k).map Prod.snd) = none)
    (ho : t.outcomes k = s.outcomes k ++ [(i, none)]) (hw : s.waits k = i :: t.waits k)
    (hnil : t.waits k = []) (ha : t.answers k = s.answers k ++ [.updated body])
    (hr : (Answer.updated body).Rewritten sects) (hb : t.bodies[k]? = some body) : Asked t k sects := by
  have hlen := h.length
  have hv' : verdict sects.length ((t.outcomes k).map Prod.snd) = some none := by
    rw [ho, List.map_append]
    refine (verdict_append_fine hv).trans (if_pos ?_)
    rw [hw, hnil] at hlen
    exact hlen
  refine ⟨h.order_next ho hw, h.ne_nil, h.nodup, ?_, ?_, fun hn => ?_, fun _ => ⟨body, hb, hr.1⟩⟩
  · rw [hv', ha, List.map_append, h.answers, hv]
    rfl
  · rw [ha]
    intro a ha
    rcases List.mem_append.1 ha with ha | ha
    · exact h.rewritten a ha
    · rw [List.mem_singleton.1 ha]
      exact hr
  · exact nomatch hv'.symm.trans hn

end Asked

section Open
variable {body : MsgBody} {b b' : SdpBody} {i : ℕ} {rest sects : List ℕ} {sect : SdpMediaDescription}

theorem Open.finish (h : Open body b (i :: rest) sects) (hnodup : (i :: rest).Nodup)
    (ho : b'.oHeader = b.oHeader) (hn : sect.needsUpdate = false) :
    Open { body with content := .sdp { b' with sections := b.sections.set i sect } }
      { b' with sections := b.sections.set i sect } rest sects := by
  have hi : i < b.sections.length := by
    obtain ⟨sect, hsect, -⟩ := h.wait i (List.mem_cons_self ..)
    exact (List.getElem?_eq_some_iff.1 hsect).1
  refine ⟨h.needsUpdate, rfl, ?_, fun j hj => ?_, fun j hj hjn => ?_⟩
  · exact (congrArg Option.isSome ho).trans h.oHeader
  · have hij : i ≠ j := fun heq => (List.nodup_cons.1 hnodup).1 (heq ▸ hj)
    simp only [List.getElem?_set_ne hij]
    exact h.wait j (List.mem_cons_of_mem i hj)
  · by_cases hij : i = j
    · subst hij
      simp only [List.getElem?_set_self hi]
      exact hn
    · simp only [List.getElem?_set_ne hij]
      refine h.done j hj fun hmem => ?_
      rcases List.mem_cons.1 hmem with heq | hmem
      · exact hij heq.symm
      · exact hjn hmem

/-- Whether a section still waits, as the code finds out. -/
theorem Open.any_needsUpdate (h : Open body b rest sects) (hsub : rest ⊆ sects) :
    (sects.any fun i => b.sections[i]?.any (·.needsUpdate)) = !rest.isEmpty := by
  cases rest with
  | nil =>
    rw [List.any_eq_false.2 fun i hi => ?_]
    · rfl
    · rw [h.done i hi (List.not_mem_nil)]
      exact Bool.false_ne_true
  | cons i rest =>
    refine List.any_eq_true.2 ⟨i, hsub (List.mem_cons_self ..), ?_⟩
    obtain ⟨sect, hsect, -, -, hn⟩ := h.wait i (List.mem_cons_self ..)
    rw [hsect]
    exact hn

theorem addAttribute_needsUpdate (b : SdpBody) (a : AHeader) (i : ℕ) :
    (b.addAttribute a).sections[i]?.any (·.needsUpdate) = b.sections[i]?.any (·.needsUpdate) := by
  unfold SdpBody.addAttribute
  cases hl : b.sections.getLast? with
  | none => rfl
  | some sect =>
    obtain ⟨ss, hss⟩ := List.getLast?_eq_some_iff.1 hl
    rw [hss, List.dropLast_concat]
    by_cases hi : i < ss.length
    · rw [List.getElem?_append_left hi, List.getElem?_append_left hi]
    · rw [List.getElem?_append_right (by omega), List.getElem?_append_right (by omega)]
      cases i - ss.length <;> rfl

end Open

/-- What work on the `k`-th body leaves alone. -/
structure Frame (k : ℕ) (s t : Session) : Prop where
  seq : t.seq = s.seq
  client : t.client = s.client
  length : t.bodies.length = s.bodies.length
  bodies : ∀ j, j ≠ k → t.bodies[j]? = s.bodies[j]?
  outcomes : ∀ j, j ≠ k → t.outcomes j = s.outcomes j
  answers : ∀ j, j ≠ k → t.answers j = s.answers j
  changes : ∀ j l r, Note.change j l r ∈ t.log ↔ Note.change j l r ∈ s.log

namespace Frame
variable {k : ℕ} {s t u : Session}

theorem of_eq (k : ℕ) (hseq : t.seq = s.seq) (hclient : t.client = s.client) (hbodies : t.bodies = s.bodies)
    (hlog : t.log = s.log) : Frame k s t := by
  refine ⟨hseq, hclient, by rw [hbodies], fun _ _ => by rw [hbodies], fun j _ => ?_, fun j _ => ?_, ?_⟩
  · rw [Session.outcomes, hlog, Session.outcomes]
  · rw [Session.answers, hlog, Session.answers]
  · rw [hlog]
    exact fun _ _ _ => Iff.rfl

theorem refl (k : ℕ) (s : Session) : Frame k s s := .of_eq k rfl rfl rfl rfl

theorem trans (h : Frame k s t) (h' : Frame k t u) : Frame k s u :=
  ⟨h'.seq.trans h.seq, h'.client.trans h.client, h'.length.trans h.length,
    fun j hj => (h'.bodies j hj).trans (h.bodies j hj),
    fun j hj => (h'.outcomes j hj).trans (h.outcomes j hj),
    fun j hj => (h'.answers j hj).trans (h.answers j hj),
    fun j l r => (h'.changes j l r).trans (h.changes j l r)⟩

theorem setSide (k : ℕ) (s : Session) (n : SideName) (x : Side) : Frame k s (s.setSide n x) := by
  cases n <;> exact .of_eq k rfl rfl rfl rfl

theorem originId (k : ℕ) (s : Session) (i : ℤ) : Frame k s { s with originId := i } :=
  .of_eq k rfl rfl rfl rfl

theorem setBody (k : ℕ) (s : Session) (b : MsgBody) : Frame k s (s.setBody k b) :=
  ⟨rfl, rfl, List.length_set, fun _ hj => List.getElem?_set_ne hj.symm, fun _ _ => rfl, fun _ _ => rfl,
    fun _ _ _ => Iff.rfl⟩

theorem result (k : ℕ) (s : Session) (i : ℕ) (ex : Option Exn) : Frame k s (s.note (.result k i ex)) := by
  refine ⟨rfl, rfl, rfl, fun _ _ => rfl, fun j hj => ?_, fun j _ => answers_result ex, fun j l r => ?_⟩
  · rw [outcomes_result, if_neg hj.symm, List.append_nil]
  · simp [Session.note]

theorem answered (k : ℕ) (s : Session) (a : Answer) : Frame k s (s.note (.answered k a)) := by
  refine ⟨rfl, rfl, rfl, fun _ _ => rfl, fun j _ => outcomes_answered a, fun j hj => ?_, fun j l r => ?_⟩
  · rw [answers_answered, if_neg hj.symm, List.append_nil]
  · simp [Session.note]

theorem setOrigin (k : ℕ) (s : Session) (n : SideName) (b : SdpBody) (o : SdpOrigin) :
    Frame k s (s.setOrigin n b o).1 :=
  (originId k s _).trans (setSide k _ n _)

theorem complete (k : ℕ) (s : Session) (n : SideName) (body : MsgBody) (b : SdpBody) :
    Frame k s (s.complete n k body b).1 := by
  unfold Session.complete
  split
  · exact .refl k s
  · exact ((setOrigin k s n b _).trans (setBody k _ _)).trans (answered k _ _)

theorem sdpChangeFinish (s : Session) (n : SideName) (up : UpdateParams) (r : Except Exn UpdateResult) :
    Frame up.body s (s.sdpChangeFinish n up r).1 := by
  unfold Session.sdpChangeFinish
  split
  · exact .refl _ s
  · split
    · exact .refl _ s
    · split
      · split
        · exact .refl _ s
        · split
          · exact (setBody _ s _).trans (answered _ _ _)
          · dsimp only
            split
            · exact setBody _ s _
            · split
              · exact setBody _ s _
              · exact (setBody _ s _).trans (complete _ _ n _ _)
      · exact .refl _ s

theorem updateResult (s : Session) (n : SideName) (up : UpdateParams) (r : Option Text) :
    Frame up.body s (s.updateResult n up r).1 := by
  unfold Session.updateResult
  dsimp only
  split
  · exact (setSide _ s n _).trans (result _ _ _ _)
  · exact ((setSide _ s n _).trans (result _ _ _ _)).trans (sdpChangeFinish _ n up _)
  · exact ((setSide _ s n _).trans (result _ _ _ _)).trans (sdpChangeFinish _ n up _)

end Frame

section Finish
variable {s : Session} {n : SideName} {up : UpdateParams} {body : MsgBody} {b : SdpBody}
variable {sect : SdpMediaDescription} {e : Exn} {ur : UpdateResult} {rest : List ℕ}

theorem finish_over (hbody : s.bodies[up.body]? = some body) (hn : body.needsUpdate = false)
    (r : Except Exn UpdateResult) : s.sdpChangeFinish n up r = (s, none) := by
  simp only [Session.sdpChangeFinish, hbody, if_pos hn]

theorem finish_error (hbody : s.bodies[up.body]? = some body) (hopen : Open body b (up.sect :: rest) up.sects) :
    ∃ body', (s.sdpChangeFinish n up (.error e)).1 =
      (s.setBody up.body body').note (.answered up.body (.failed e)) ∧ body'.needsUpdate = false := by
  obtain ⟨sect, hsect, -⟩ := hopen.wait up.sect (List.mem_cons_self ..)
  simp only [Session.sdpChangeFinish, hbody, hopen.needsUpdate, hopen.content, hsect, Bool.true_eq_false,
    if_false]
  exact ⟨_, rfl, rfl⟩

theorem complete_eq {k : ℕ} {sects : List ℕ} (hopen : Open body b [] sects) :
    ∃ s' body', (s.complete n k body b).1 = (s'.setBody k body').note (.answered k (.updated body')) ∧
      Frame k s s' ∧ s'.bodies = s.bodies ∧ s'.log = s.log ∧ (Answer.updated body').Rewritten sects := by
  obtain ⟨o, ho⟩ := Option.isSome_iff_exists.1 hopen.oHeader
  have hside (t : Session) (x : Side) : (t.setSide n x).bodies = t.bodies ∧ (t.setSide n x).log = t.log := by
    cases n <;> exact ⟨rfl, rfl⟩
  simp only [Session.complete, ho]
  refine ⟨_, _, rfl, .setOrigin k s n b o, (hside _ _).1, (hside _ _).2, rfl, _, rfl, fun i hi => ?_⟩
  split
  · rw [addAttribute_needsUpdate]
    exact hopen.done i hi List.not_mem_nil
  · exact hopen.done i hi List.not_mem_nil

theorem finish_fine (hbody : s.bodies[up.body]? = some body) (hopen : Open body b (up.sect :: rest) up.sects)
    (hnodup : (up.sect :: rest).Nodup) (hsub : up.sect :: rest ⊆ up.sects)
    (hcan : ∀ sect, b.sections[up.sect]? = some sect → CanFinish (s.side n).conf ur sect) :
    ∃ body' b', Open body' b' rest up.sects ∧ (s.sdpChangeFinish n up (.ok ur)).1 =
      if rest = [] then ((s.setBody up.body body').complete n up.body body' b').1
      else s.setBody up.body body' := by
  obtain ⟨sect, hsect, -⟩ := hopen.wait up.sect (List.mem_cons_self ..)
  obtain ⟨hok, hn, ho⟩ := finishSect_ok (b := b) (hcan sect hsect)
  have hopen' := hopen.finish hnodup ho hn
  refine ⟨_, _, hopen', ?_⟩
  have hany := hopen'.any_needsUpdate fun i hi => hsub (List.mem_cons_of_mem _ hi)
  simp only [Session.sdpChangeFinish, hbody, hopen.needsUpdate, hopen.content, hsect, hok, hany,
    Bool.true_eq_false, if_false, Option.isSome_none, Bool.false_eq_true]
  cases rest with
  | nil => rfl
  | cons j rest => rfl

end Finish

section Invariant
variable {mixed : Text → Except Exn Unit} {s : Session}

theorem Inv.change {n : SideName} {body : MsgBody} (h : Inv s) (hm : s.Meets mixed (.change n body)) :
    Inv (s.step mixed (.change n body)) := by
  obtain ⟨body', s', sects, ret, cmds, heq, hadds, habout, hret⟩ := onSdpChange_eq h.seq h.live hm
  obtain ⟨t, ht⟩ : ∃ t, t = s'.note (.change s.bodies.length sects ret) := ⟨_, rfl⟩
  have hstep : s.step mixed (.change n body) = t := by rw [Session.step, heq, ht]
  have hseq : t.seq = s'.seq := by rw [ht]; rfl
  have hbodies : t.bodies = s.bodies ++ [body'] := by rw [ht]; exact hadds.bodies
  have hlog : t.log = s.log ++ [.change s.bodies.length sects ret] := by
    rw [ht, Session.note, hadds.log]
  have ho (j : ℕ) : t.outcomes j = s.outcomes j := by
    rw [ht, outcomes_change, Session.outcomes, hadds.log]
    rfl
  have ha (j : ℕ) : t.answers j = s.answers j := by
    rw [ht, answers_change, Session.answers, hadds.log]
    rfl
  have hw (j : ℕ) : t.waits j = s.waits j ++ cmds.filterMap (Command.sectOf j) := by
    rw [Session.waits, hseq, hadds.waiting, List.filterMap_append]
    rfl
  rw [hstep]
  have hclient : t.client = s.client := by rw [ht]; exact hadds.client
  refine ⟨hseq ▸ hadds.sound, fun hc => ?_, fun hd => ?_, fun k hk => ?_, fun k sects' ret' hk => ?_,
    fun k hk => ?_, ?_, fun c hc n up hcb => ?_⟩
  · rw [hseq, hadds.live]
    exact h.live (hclient ▸ hc)
  · rw [hseq, hadds.deleted] at hd
    exact hclient.trans (h.deleted hd)
  · rw [hbodies, List.length_append, List.length_singleton] at hk
    obtain ⟨h1, h2, h3⟩ := h.notes k (by omega)
    exact ⟨(ho k).trans h1, (ha k).trans h2, by rw [hw, h3, sectsOf_about_other (by omega) habout]; rfl⟩
  · rw [hlog, List.mem_append, List.mem_singleton] at hk
    rcases hk with hk | hk
    · obtain ⟨hlt, htracks⟩ := h.changes k sects' ret' hk
      refine ⟨by rw [hbodies, List.length_append]; omega, htracks.congr (ho k) (ha k) ?_ ?_⟩
      · rw [hw, sectsOf_about_other (by omega) habout, List.append_nil]
      · rw [hbodies, List.getElem?_append_left hlt]
    · obtain ⟨rfl, rfl, rfl⟩ := Note.change.inj hk
      obtain ⟨h1, h2, h3⟩ := h.notes s.bodies.length le_rfl
      have hw' : t.waits s.bodies.length = sects' := by rw [hw, h3, sectsOf_about habout]; rfl
      refine ⟨by rw [hbodies, List.length_append]; simp, ?_⟩
      rcases hret with ⟨rfl, e, rfl⟩ | ⟨rfl, hne, hnodup, b, hopen⟩
      · exact ⟨rfl, (ho _).trans h1, hw', (ha _).trans h2⟩
      · have hverdict : verdict sects'.length ((t.outcomes s.bodies.length).map Prod.snd) = none := by
          rw [ho, h1, verdict_eq_none]
          exact ⟨rfl, fun h => hne (List.length_eq_zero_iff.1 h.symm)⟩
        refine ⟨?_, hne, hnodup, ?_, ?_, fun _ => ?_, fun h => absurd hverdict h⟩
        · rw [ho, h1, hw']
          rfl
        · rw [hverdict, ha, h2]
          rfl
        · rw [ha, h2]
          exact fun a ha => nomatch ha
        · refine ⟨body', b, ?_, hw'.symm ▸ hopen⟩
          rw [hbodies, List.getElem?_append_right le_rfl, Nat.sub_self]
          rfl
  · rw [hbodies, List.length_append, List.length_singleton] at hk
    rw [hlog]
    rcases Nat.lt_succ_iff_lt_or_eq.1 hk with hk | rfl
    · obtain ⟨l, r, hl⟩ := h.noted k hk
      exact ⟨l, r, List.mem_append_left _ hl⟩
    · exact ⟨sects, ret, List.mem_append_right _ (List.mem_singleton_self _)⟩
  · intro k l r l' r' hl hl'
    rw [hlog, List.mem_append, List.mem_singleton] at hl hl'
    rcases hl with hl | hl <;> rcases hl' with hl' | hl'
    · exact h.unique k l r l' r' hl hl'
    · have := (h.changes k l r hl).1
      simp [(Note.change.inj hl').1] at this
    · have := (h.changes k l' r' hl').1
      simp [(Note.change.inj hl).1] at this
    · obtain ⟨-, rfl, rfl⟩ := Note.change.inj hl
      obtain ⟨-, rfl, rfl⟩ := Note.change.inj hl'
      exact ⟨rfl, rfl⟩
  · rw [hseq, hadds.waiting, List.mem_append] at hc
    rw [hlog, List.mem_append, List.mem_singleton]
    rcases hc with hc | hc
    · exact .inl (h.commands c hc n up hcb)
    · obtain ⟨n', up', hcb', hbody', hsects'⟩ := about_of_mem habout hc
      obtain ⟨rfl, rfl⟩ := Prod.mk.inj (Option.some.inj (hcb.symm.trans hcb'))
      rcases hret with ⟨rfl, e, rfl⟩ | ⟨rfl, -, -, -⟩
      · cases habout
        exact nomatch hc
      · exact .inr (by rw [hbody', hsects'])

/-- After a result for the `k`-th body only that body has to be looked at. -/
theorem Inv.of_result {c : Command} {n : SideName} {up : UpdateParams} {t : Session} (h : Inv s)
    (hin : s.seq.inflight = some c) (hcb : c.cb = some (n, up))
    (hframe : Frame up.body { s with seq := s.seq.next } t) (hasked : Asked t up.body up.sects) :
    Inv t := by
  have hwaiting := h.seq.waiting_next hin
  have hmem : c ∈ s.seq.waiting := hwaiting ▸ List.mem_cons_self ..
  have hup := h.commands c hmem n up hcb
  have hw (j : ℕ) (hj : j ≠ up.body) : t.waits j = s.waits j := by
    rw [Session.waits, Session.waits, hframe.seq, hwaiting, List.filterMap_cons]
    simp [Command.sectOf, hcb, hj.symm]
  refine ⟨hframe.seq ▸ h.seq.next, fun hc => ?_, fun hd => ?_, fun k hk => ?_, fun k l r hk => ?_,
    fun k hk => ?_, ?_, ?_⟩
  · rw [hframe.client] at hc
    rw [hframe.seq]
    exact (Sequencer.live_next _).trans (h.live hc)
  · rw [hframe.seq] at hd
    exact hframe.client.trans (h.deleted ((Sequencer.deleted_next _).symm.trans hd))
  · rw [hframe.length] at hk
    obtain ⟨h1, h2, h3⟩ := h.notes k hk
    have hne : k ≠ up.body := by
      have := (h.changes _ _ _ hup).1
      dsimp only at hk
      omega
    exact ⟨(hframe.outcomes k hne).trans h1, (hframe.answers k hne).trans h2, (hw k hne).trans h3⟩
  · have hk' := (hframe.changes k l r).1 hk
    obtain ⟨hlt, htracks⟩ := h.changes k l r hk'
    refine ⟨hframe.length.symm ▸ hlt, ?_⟩
    by_cases hne : k = up.body
    · subst hne
      obtain ⟨rfl, rfl⟩ := h.unique _ _ _ _ _ hk' hup
      exact hasked
    · exact htracks.congr (hframe.outcomes k hne) (hframe.answers k hne) (hw k hne) (hframe.bodies k hne)
  · obtain ⟨l, r, hl⟩ := h.noted k (hframe.length ▸ hk)
    exact ⟨l, r, (hframe.changes ..).2 hl⟩
  · intro k l r l' r' hl hl'
    exact h.unique k l r l' r' ((hframe.changes ..).1 hl) ((hframe.changes ..).1 hl')
  · intro d hd n' up' hcb'
    rw [hframe.seq] at hd
    exact (hframe.changes ..).2 (h.commands d (hwaiting ▸ List.mem_cons_of_mem c hd) n' up' hcb')

theorem Asked.updateResult {c : Command} {n : SideName} {up : UpdateParams} {r : Option Text}
    (h : Asked s up.body up.sects) (hs : s.seq.Sound) (hin : s.seq.inflight = some c)
    (hcb : c.cb = some (n, up)) (hm : s.Meets mixed (.result r)) :
    Asked ({ s with seq := s.seq.next }.updateResult n up r).1 up.body up.sects := by
  obtain ⟨rest, hrest⟩ : ∃ rest, rest = s.seq.next.waiting.filterMap (Command.sectOf up.body) := ⟨_, rfl⟩
  have hw : s.waits up.body = up.sect :: rest := by
    rw [Session.waits, hs.waiting_next hin, List.filterMap_cons, hrest]
    simp [Command.sectOf, hcb]
  have hframe := Frame.updateResult { s with seq := s.seq.next } n up r
  have hwt : ({ s with seq := s.seq.next }.updateResult n up r).1.waits up.body = rest := by
    rw [Session.waits, hframe.seq, hrest]
  have hlen := h.length
  rw [hw, List.length_cons] at hlen
  have hsub : up.sect :: rest ⊆ up.sects := by
    rw [← h.order, hw]
    exact List.subset_append_right ..
  have hnodup : (up.sect :: rest).Nodup := by
    have := h.nodup
    rw [← h.order, hw] at this
    exact (List.nodup_append.1 this).2.1
  obtain ⟨s2, hs2⟩ : ∃ s2 : Session, s2 = { s with seq := s.seq.next }.setSide n
    { { s with seq := s.seq.next }.side n with sessionExists := true } := ⟨_, rfl⟩
  have hb2 : s2.bodies = s.bodies := by rw [hs2]; cases n <;> rfl
  have ho2 (k : ℕ) : s2.outcomes k = s.outcomes k := by rw [hs2]; cases n <;> rfl
  have ha2 (k : ℕ) : s2.answers k = s.answers k := by rw [hs2]; cases n <;> rfl
  have hc2 : s2.client = s.client := by rw [hs2]; cases n <;> rfl
  have hconf : (s2.side n).conf = (s.side n).conf := by rw [hs2]; cases n <;> rfl
  have hbody2 (o : Option Exn) (k : ℕ) :
      (s2.note (.result up.body up.sect o)).bodies[k]? = s.bodies[k]? := by
    rw [← hb2]
    rfl
  have hout (o : Option Exn) : (s2.note (.result up.body up.sect o)).outcomes up.body =
      s.outcomes up.body ++ [(up.sect, o)] := by
    rw [outcomes_result, if_pos rfl, ho2]
  have hans (o : Option Exn) : (s2.note (.result up.body up.sect o)).answers up.body = s.answers up.body := by
    rw [answers_result, ha2]
  have herror (e : Exn) (hp : up.processRtppResult s2.client r = .error e) :
      ({ s with seq := s.seq.next }.updateResult n up r).1 = s2.note (.result up.body up.sect (some e)) := by
    rw [Session.updateResult, ← hs2]
    simp only [hp]
  have hbad (e : Exn) (hp : up.processRtppResult s2.client r = .ok (.error e)) :
      ({ s with seq := s.seq.next }.updateResult n up r).1 =
        ((s2.note (.result up.body up.sect (some e))).sdpChangeFinish n up (.error e)).1 := by
    rw [Session.updateResult, ← hs2]
    simp only [hp]
  have hgood (ur : UpdateResult) (hp : up.processRtppResult s2.client r = .ok (.ok ur)) :
      ({ s with seq := s.seq.next }.updateResult n up r).1 =
        ((s2.note (.result up.body up.sect none)).sdpChangeFinish n up (.ok ur)).1 := by
    rw [Session.updateResult, ← hs2]
    simp only [hp]
  cases hv : verdict up.sects.length ((s.outcomes up.body).map Prod.snd) with
  | some v =>
    cases v with
    | none =>
      have := (verdict_fine hv).2
      omega
    | some e =>
      obtain ⟨body, hbody, hn⟩ := h.done (by simp [hv])
      obtain ⟨o, ho⟩ : ∃ o, ({ s with seq := s.seq.next }.updateResult n up r).1 =
          s2.note (.result up.body up.sect o) := by
        cases hp : up.processRtppResult s2.client r with
        | error e => exact ⟨_, herror e hp⟩
        | ok x =>
          cases x with
          | error e => exact ⟨_, (hbad e hp).trans (by rw [finish_over ((hbody2 _ _).trans hbody) hn])⟩
          | ok ur => exact ⟨_, (hgood ur hp).trans (by rw [finish_over ((hbody2 _ _).trans hbody) hn])⟩
      rw [ho] at hwt ⊢
      exact h.after_error hv (hout o) (hwt.symm ▸ hw) (hans o) (hbody2 o _)
  | none =>
    obtain ⟨body, b, hbody, hopen⟩ := h.pending hv
    rw [hw] at hopen
    have hlt : up.body < (s2.bodies).length := by
      rw [hb2]
      exact (List.getElem?_eq_some_iff.1 hbody).1
    have htells := hm n up (by rw [hin]; exact hcb) body hbody hopen.needsUpdate
    have hok := processRtppResult_isOk up s.client r
    rw [htells.readable, ← hc2] at hok
    cases hp : up.processRtppResult s2.client r with
    | error e =>
      rw [hp] at hok
      exact nomatch hok
    | ok x =>
      cases x with
      | error e =>
        obtain ⟨body', heq, hn⟩ := finish_error (n := n) (e := e) ((hbody2 (some e) _).trans hbody) hopen
        rw [hbad e hp, heq] at hwt ⊢
        refine h.fails (e := e) hv ?_ (hwt.symm ▸ hw) ?_ (List.getElem?_set_self hlt) hn
        · rw [outcomes_answered]
          exact hout (some e)
        · rw [answers_answered, if_pos rfl]
          exact congrArg (· ++ [Answer.failed e]) (hans (some e))
      | ok ur =>
        have hcan (sect : SdpMediaDescription) (hsect : b.sections[up.sect]? = some sect) :
            CanFinish ((s2.note (.result up.body up.sect none)).side n).conf ur sect := by
          obtain ⟨sect', hsect', hc, hm, -⟩ := hopen.wait up.sect (List.mem_cons_self ..)
          obtain rfl := Option.some.inj (hsect.symm.trans hsect')
          have hside : ((s2.note (.result up.body up.sect none)).side n).conf = (s.side n).conf := hconf
          rw [hside]
          exact ⟨hc, hm, htells.repacketize ur (hc2 ▸ hp), fun hd => htells.deice ur (hc2 ▸ hp) hd b sect hopen.content hsect⟩
        obtain ⟨body', b', hopen', heq⟩ := finish_fine ((hbody2 none _).trans hbody) hopen hnodup hsub hcan
        rw [hgood ur hp, heq] at hwt ⊢
        have hset : ((s2.note (.result up.body up.sect none)).setBody up.body body').bodies[up.body]? =
            some body' := List.getElem?_set_self hlt
        by_cases hrest : rest = []
        · subst hrest
          rw [if_pos rfl] at hwt ⊢
          obtain ⟨s3, body2, heq3, hframe3, hb3, hlog3, hr⟩ := complete_eq (n := n)
            (s := (s2.note (.result up.body up.sect none)).setBody up.body body') (k := up.body) hopen'
          rw [heq3] at hwt ⊢
          refine h.completes hv ?_ (hwt.symm ▸ hw) hwt ?_ hr ?_
          · rw [outcomes_answered, ← hout none]
            exact congrArg (List.filterMap _) hlog3
          · rw [answers_answered, if_pos rfl, ← hans none]
            exact congrArg (List.filterMap _ · ++ _) hlog3
          · refine List.getElem?_set_self ?_
            rw [hb3]
            exact (List.getElem?_eq_some_iff.1 hset).1
        · rw [if_neg hrest] at hwt ⊢
          exact h.goes_on hv (hout none) (hwt.symm ▸ hw) (hwt ▸ hrest) (hans none)
            ⟨body', b', hset, hwt.symm ▸ hopen'⟩

theorem Inv.result {r : Option Text} (h : Inv s) (hm : s.Meets mixed (.result r)) :
    Inv (s.step mixed (.result r)) := by
  rw [Session.step, Session.result]
  cases hin : s.seq.inflight with
  | none => exact h
  | some c =>
    dsimp only
    have hwaiting := h.seq.waiting_next hin
    cases hcb : c.cb with
    | none =>
      have hw (j : ℕ) : ({ s with seq := s.seq.next } : Session).waits j = s.waits j := by
        rw [Session.waits, Session.waits, hwaiting, List.filterMap_cons]
        simp [Command.sectOf, hcb]
      refine ⟨h.seq.next, fun hc => (Sequencer.live_next _).trans (h.live hc),
        fun hd => h.deleted ((Sequencer.deleted_next _).symm.trans hd), fun k hk => ?_,
        fun k l r hk => ?_, h.noted, h.unique, fun d hd n up hd' => ?_⟩
      · obtain ⟨h1, h2, h3⟩ := h.notes k hk
        exact ⟨h1, h2, (hw k).trans h3⟩
      · exact ⟨(h.changes k l r hk).1, (h.changes k l r hk).2.congr rfl rfl (hw k) rfl⟩
      · exact h.commands d (hwaiting ▸ List.mem_cons_of_mem c hd) n up hd'
    | some p =>
      obtain ⟨n, up⟩ := p
      have hup := h.commands c (hwaiting ▸ List.mem_cons_self ..) n up hcb
      have hasked : Asked s up.body up.sects := (h.changes _ _ _ hup).2
      exact h.of_result hin hcb (.updateResult _ n up r) (hasked.updateResult h.seq hin hcb hm)

theorem Inv.congr {t : Session} (h : Inv s) (hs : t.seq.Sound)
    (hlive : t.client.isSome → t.seq.live = true) (hdel : t.seq.deleted = true → t.client = none)
    (hbodies : t.bodies = s.bodies) (hlog : t.log = s.log)
    (hw : ∃ cmds, t.seq.waiting = s.seq.waiting ++ cmds ∧ ∀ c ∈ cmds, c.cb = none) : Inv t := by
  obtain ⟨cmds, hw, hcmds⟩ := hw
  have ho (k : ℕ) : t.outcomes k = s.outcomes k := by rw [Session.outcomes, hlog, Session.outcomes]
  have ha (k : ℕ) : t.answers k = s.answers k := by rw [Session.answers, hlog, Session.answers]
  have hw' (k : ℕ) : t.waits k = s.waits k := by
    have hnil : cmds.filterMap (Command.sectOf k) = [] := by
      rw [List.filterMap_eq_nil_iff]
      intro c hc
      rw [Command.sectOf, hcmds c hc]
      rfl
    rw [Session.waits, hw, List.filterMap_append, hnil, List.append_nil, Session.waits]
  refine ⟨hs, hlive, hdel, fun k hk => ?_, fun k l r hk => ?_, ?_, fun k => ?_, fun c hc n up hcb => ?_⟩
  · obtain ⟨h1, h2, h3⟩ := h.notes k (hbodies ▸ hk)
    exact ⟨(ho k).trans h1, (ha k).trans h2, (hw' k).trans h3⟩
  · rw [hlog] at hk
    obtain ⟨hlt, htracks⟩ := h.changes k l r hk
    exact ⟨hbodies.symm ▸ hlt, htracks.congr (ho k) (ha k) (hw' k) (by rw [hbodies])⟩
  · rw [hlog, hbodies]
    exact h.noted
  · rw [hlog]
    exact h.unique k
  · rw [hlog]
    rw [hw, List.mem_append] at hc
    rcases hc with hc | hc
    · exact h.commands c hc n up hcb
    · exact nomatch (hcmds c hc).symm.trans hcb

theorem waiting_send (h : s.seq.Sound) (mixed : Text → Except Exn Unit) (t : Text) :
    ∃ cmds, (s.step mixed (.send t)).seq.waiting = s.seq.waiting ++ cmds ∧ ∀ c ∈ cmds, c.cb = none := by
  cases hl : s.seq.live with
  | true => exact ⟨[⟨.other t, none⟩], h.waiting_sendCommand hl _, by simp⟩
  | false =>
    have hsend : s.seq.sendCommand ⟨.other t, none⟩ = s.seq := by
      rw [Sequencer.sendCommand, hl]
      rfl
    exact ⟨[], by rw [List.append_nil, Session.step, hsend], fun _ hc => absurd hc List.not_mem_nil⟩

theorem Inv.send {t : Text} (h : Inv s) : Inv (s.step mixed (.send t)) := by
  refine h.congr (h.seq.sendCommand _) (fun hc => ?_) (fun hd => h.deleted ?_) rfl rfl
    (waiting_send h.seq mixed t)
  · exact (Sequencer.live_sendCommand _ _).trans (h.live hc)
  · exact (Sequencer.deleted_sendCommand _ _).symm.trans hd

theorem deleteAll {q : Sequencer Command} (hq : q.Sound) (hlive : q.live = true) (f : ℤ → Cmd)
    (is : List ℤ) :
    ∃ cmds, (is.foldl (fun q i => q.sendCommand ⟨f i, none⟩) q).waiting = q.waiting ++ cmds ∧
      (∀ c ∈ cmds, c.cb = none) ∧ (is.foldl (fun q i => q.sendCommand ⟨f i, none⟩) q).Sound := by
  induction is generalizing q with
  | nil => exact ⟨[], by simp, (fun _ hc => nomatch hc), hq⟩
  | cons i is ih =>
    obtain ⟨cmds, hw, hcmds, hs⟩ := ih (hq.sendCommand ⟨f i, none⟩)
      ((Sequencer.live_sendCommand _ _).trans hlive)
    refine ⟨⟨f i, none⟩ :: cmds, ?_, List.forall_mem_cons.2 ⟨rfl, hcmds⟩, hs⟩
    rw [List.foldl_cons, hw, hq.waiting_sendCommand hlive, List.append_assoc, List.singleton_append]

theorem waiting_deleteSession (h : Inv s) :
    s.delete.seq.Sound ∧ (∃ cmds, s.delete.seq.waiting = s.seq.waiting ++ cmds ∧ ∀ c ∈ cmds, c.cb = none) ∧
      s.delete.client = none ∧ s.delete.bodies = s.bodies ∧ s.delete.log = s.log := by
  unfold Session.delete
  cases hc : s.client with
  | none => exact ⟨h.seq, ⟨[], (List.append_nil _).symm, fun _ hc => absurd hc List.not_mem_nil⟩, hc, rfl, rfl⟩
  | some rtpc =>
    have hlive : s.seq.live = true := h.live (by rw [hc]; rfl)
    obtain ⟨cmds, hw, hcmds, hs⟩ := deleteAll h.seq hlive
      (fun i => .delete (s.name i) s.fromTag s.toTag)
      (((List.range (s.maxIndex + 1).toNat).reverse.map Int.ofNat).filter fun i => s.mediaTimeoutIndex != some i)
    exact ⟨hs.delete, ⟨cmds, (Sequencer.waiting_delete _).trans hw, hcmds⟩, rfl, rfl, rfl⟩

theorem Inv.delete (h : Inv s) : Inv s.delete := by
  obtain ⟨hs, hw, hc, hbodies, hlog⟩ := waiting_deleteSession h
  refine h.congr hs (fun hsome => ?_) (fun _ => hc) hbodies hlog hw
  rw [hc] at hsome
  exact nomatch hsome

theorem Inv.step {l : Label} (h : Inv s) (hm : s.Meets mixed l) : Inv (s.step mixed l) := by
  cases l with
  | change n body => exact h.change hm
  | result r => exact h.result hm
  | send t => exact h.send
  | configure n conf =>
    refine h.congr ?_ ?_ ?_ ?_ ?_ ⟨[], ?_, fun _ hc => nomatch hc⟩
    all_goals cases n
    all_goals first | exact h.seq | exact h.live | exact h.deleted | rfl | exact (List.append_nil _).symm
  | client rtpc =>
    refine h.congr h.seq (fun hc => h.live ?_) (fun hd => ?_) rfl rfl
      ⟨[], (List.append_nil _).symm, fun _ hc => nomatch hc⟩
    · exact Option.isSome_map.symm.trans hc
    · exact congrArg (Option.map fun _ => rtpc) (h.deleted hd)
  | delete => exact h.delete
  | deleted =>
    rw [Session.step]
    split
    · next hd =>
      have hc := h.deleted hd
      refine h.congr h.seq.delete (fun hs => ?_) (fun _ => hc) rfl rfl
        ⟨[], (Sequencer.waiting_delete _).trans (List.append_nil _).symm, fun _ hc => nomatch hc⟩
      exact nomatch hc ▸ hs
    · exact h

theorem Session.Fresh.inv (h : s.Fresh) : Inv s := by
  have hlog := h.log
  have hw (k : ℕ) : s.waits k = [] := by rw [Session.waits, h.seq]; rfl
  refine ⟨h.seq ▸ Sequencer.sound_empty, fun _ => h.seq ▸ rfl, fun hd => ?_, fun k _ => ⟨?_, ?_, hw k⟩, ?_, ?_, ?_, ?_⟩
  · rw [h.seq] at hd
    exact nomatch hd
  · rw [Session.outcomes, hlog]
    rfl
  · rw [Session.answers, hlog]
    rfl
  · rw [hlog]
    exact fun _ _ _ hk => nomatch hk
  · rw [h.bodies]
    exact fun _ hk => nomatch hk
  · rw [hlog]
    exact fun _ _ _ _ _ hk => nomatch hk
  · rw [h.seq]
    exact fun _ hc => nomatch hc

end Invariant

def Label.results : Label → ℕ
  | .result _ => 1
  | _ => 0

section Progress
variable {mixed : Text → Except Exn Unit} {s t u : Session} {k n m : ℕ}

/-- After `n` results the commands that waited first are gone, and none for the `k`-th body came. -/
structure Later (k n : ℕ) (s t : Session) : Prop where
  bodies : s.bodies.length ≤ t.bodies.length
  changes : ∀ sects ret, .change k sects ret ∈ s.log → .change k sects ret ∈ t.log
  waiting : ∃ cmds, t.seq.waiting = s.seq.waiting.drop n ++ cmds ∧ ∀ c ∈ cmds, c.sectOf k = none

theorem Later.refl (k : ℕ) (s : Session) : Later k 0 s s :=
  ⟨le_rfl, fun _ _ h => h, [], (List.append_nil _).symm, fun _ hc => absurd hc List.not_mem_nil⟩

theorem Later.trans (h : Later k n s t) (h' : Later k m t u) : Later k (n + m) s u := by
  obtain ⟨cmds, hw, hcmds⟩ := h.waiting
  obtain ⟨cmds', hw', hcmds'⟩ := h'.waiting
  refine ⟨h.bodies.trans h'.bodies, fun l r hl => h'.changes l r (h.changes l r hl),
    cmds.drop (m - (s.seq.waiting.drop n).length) ++ cmds', ?_, fun c hc => ?_⟩
  · rw [hw', hw, List.drop_append, List.drop_drop, List.append_assoc]
  · rcases List.mem_append.1 hc with hc | hc
    · exact hcmds c (List.mem_of_mem_drop hc)
    · exact hcmds' c hc

/-- A step without a result that leaves the bodies and what is known of them alone. -/
theorem Later.of_send (k : ℕ) (hbodies : t.bodies = s.bodies) (hlog : t.log = s.log)
    (hw : ∃ cmds, t.seq.waiting = s.seq.waiting ++ cmds ∧ ∀ c ∈ cmds, c.cb = none) : Later k 0 s t := by
  obtain ⟨cmds, hw, hcmds⟩ := hw
  refine ⟨hbodies ▸ le_rfl, fun _ _ h => hlog ▸ h, cmds, hw, fun c hc => ?_⟩
  rw [Command.sectOf, hcmds c hc]
  rfl

theorem later_step {l : Label} (h : Inv s) (hm : s.Meets mixed l) (hk : k < s.bodies.length) :
    Later k l.results s (s.step mixed l) := by
  have hstay (q : Sequencer Command) (hq : q.waiting = s.seq.waiting) :
      ∃ cmds, q.waiting = s.seq.waiting ++ cmds ∧ ∀ c ∈ cmds, c.cb = none :=
    ⟨[], hq.trans (List.append_nil _).symm, fun _ hc => absurd hc List.not_mem_nil⟩
  cases l with
  | change n body =>
    obtain ⟨body', s', sects, ret, cmds, heq, hadds, habout, -⟩ := onSdpChange_eq h.seq h.live hm
    rw [Session.step, heq]
    refine ⟨?_, fun l r hl => ?_, cmds, hadds.waiting, fun c hc => ?_⟩
    · have hbodies : s'.bodies = s.bodies ++ [body'] := hadds.bodies
      change s.bodies.length ≤ s'.bodies.length
      rw [hbodies, List.length_append]
      exact Nat.le_add_right ..
    · refine List.mem_append_left _ ?_
      rw [hadds.log]
      exact hl
    · obtain ⟨n, up, hcb, hbody, -⟩ := about_of_mem habout hc
      have hne : up.body ≠ k := hbody ▸ Nat.ne_of_gt hk
      simp [Command.sectOf, hcb, hne]
  | result r =>
    rw [Session.step, Session.result]
    cases hin : s.seq.inflight with
    | none =>
      have hnil : s.seq.waiting = [] := by rw [Sequencer.waiting, hin, h.seq.queue hin]; rfl
      refine ⟨le_rfl, fun _ _ hl => hl, [], ?_, fun _ hc => absurd hc List.not_mem_nil⟩
      dsimp only
      rw [hnil]
      rfl
    | some c =>
      have hdrop : s.seq.next.waiting = s.seq.waiting.drop 1 ++ [] := by
        rw [h.seq.waiting_next hin, List.append_nil]
        rfl
      dsimp only
      cases hcb : c.cb with
      | none => exact ⟨le_rfl, fun _ _ hl => hl, [], hdrop, fun _ hc => absurd hc List.not_mem_nil⟩
      | some p =>
        obtain ⟨n, up⟩ := p
        have hf := Frame.updateResult { s with seq := s.seq.next } n up r
        refine ⟨hf.length.ge, fun l ret hl => (hf.changes ..).2 hl, [], ?_,
          fun _ hc => absurd hc List.not_mem_nil⟩
        dsimp only
        rw [hf.seq]
        exact hdrop
  | send t => exact .of_send k rfl rfl (waiting_send h.seq mixed t)
  | configure n conf => cases n <;> exact .of_send k rfl rfl (hstay _ rfl)
  | client rtpc => exact .of_send k rfl rfl (hstay _ rfl)
  | delete =>
    obtain ⟨-, hw, -, hbodies, hlog⟩ := waiting_deleteSession h
    exact .of_send k hbodies hlog hw
  | deleted =>
    rw [Session.step]
    split
    · exact .of_send k rfl rfl (hstay _ (Sequencer.waiting_delete _))
    · exact .refl k s

theorem later_run {ls : List Label} (h : Inv s) (hm : Along (Session.step mixed) (Session.Meets mixed) s ls)
    (hk : k < s.bodies.length) :
    Later k (ls.map Label.results).sum s (run (Session.step mixed) s ls) := by
  induction ls generalizing s with
  | nil => exact .refl k s
  | cons l ls ih =>
    have hstep := later_step h hm.1 hk
    rw [List.map_cons, List.sum_cons]
    exact hstep.trans (ih (h.step hm.1) hm.2 (hk.trans_le hstep.bodies))

/-- With as many results as there are commands the `k`-th body waits for nothing. -/
theorem Later.waits (h : Later k n s t) (hn : s.seq.waiting.length ≤ n) : t.waits k = [] := by
  obtain ⟨cmds, hw, hcmds⟩ := h.waiting
  rw [Session.waits, hw, List.drop_of_length_le hn, List.nil_append, List.filterMap_eq_nil_iff]
  exact hcmds

end Progress

/-- What the user agent that gave the `k`-th body relies on. A return or an exception at once is
all there is. Otherwise there is one answer: it comes with the first error, or with the result that
leaves no section to be updated. -/
structure Settled (s : Session) (k : ℕ) (sects : List ℕ) (ret : Except Exn (Option MsgBody)) : Prop where
  atOnce : ret ≠ .ok none → s.answers k = []
  atMost : (s.answers k).length ≤ 1
  finished : ret = .ok none → s.waits k = [] → (s.answers k).length = 1
  broken : ret = .ok none → (∃ o ∈ s.outcomes k, o.2.isSome) → (s.answers k).length = 1
  updated : ∀ b, .updated b ∈ s.answers k →
    (∀ i ∈ sects, (i, none) ∈ s.outcomes k) ∧ (Answer.updated b).Rewritten sects
  failed : ∀ e, .failed e ∈ s.answers k → ((s.outcomes k).filterMap Prod.snd).head? = some e

section Settle
variable {mixed : Text → Except Exn Unit} {s : Session} {k : ℕ} {sects : List ℕ}

theorem outcomes_head {e : Exn} {n : ℕ} {l : List (ℕ × Option Exn)}
    (h : verdict n (l.map Prod.snd) = some (some e)) : (l.filterMap Prod.snd).head? = some e := by
  unfold verdict at h
  rw [List.filterMap_map, Function.id_comp] at h
  cases hl : l.filterMap Prod.snd with
  | nil =>
    rw [hl] at h
    simp at h
  | cons e' es =>
    rw [hl] at h
    exact Option.some.inj h

theorem Asked.length_answers (h : Asked s k sects) :
    (s.answers k).length = (verdict sects.length ((s.outcomes k).map Prod.snd)).toList.length := by
  rw [← h.answers, List.length_map]

theorem Asked.settled (h : Asked s k sects) : Settled s k sects (.ok none) := by
  have hlen := h.length
  have hans := h.length_answers
  refine ⟨fun hne => absurd rfl hne, ?_, fun _ hw => ?_, fun _ ho => ?_, fun b hb => ?_, fun e he => ?_⟩
  · rw [hans]
    cases verdict sects.length ((s.outcomes k).map Prod.snd) <;> simp
  · cases hv : verdict sects.length ((s.outcomes k).map Prod.snd) with
    | some v => rw [hans, hv]; rfl
    | none =>
      rw [hw] at hlen
      exact absurd hlen (verdict_eq_none.1 hv).2
  · obtain ⟨⟨i, o⟩, ho, hsome⟩ := ho
    obtain ⟨e, rfl⟩ := Option.isSome_iff_exists.1 hsome
    cases hv : verdict sects.length ((s.outcomes k).map Prod.snd) with
    | some v => rw [hans, hv]; rfl
    | none =>
      have hmem : e ∈ ((s.outcomes k).map Prod.snd).filterMap id := by
        rw [List.filterMap_map, List.mem_filterMap]
        exact ⟨_, ho, rfl⟩
      rw [(verdict_eq_none.1 hv).1] at hmem
      exact nomatch hmem
  · have hmem : none ∈ (s.answers k).map Answer.exn := List.mem_map.2 ⟨_, hb, rfl⟩
    rw [h.answers, Option.mem_toList] at hmem
    obtain ⟨hfine, hall⟩ := verdict_fine hmem
    refine ⟨fun i hi => ?_, h.rewritten _ hb⟩
    have hw : s.waits k = [] := List.length_eq_zero_iff.1 (by omega)
    rw [← h.order, hw, List.append_nil, List.mem_map] at hi
    obtain ⟨⟨j, o⟩, ho, rfl⟩ := hi
    cases o with
    | none => exact ho
    | some e =>
      have hmem : e ∈ ((s.outcomes k).map Prod.snd).filterMap id := by
        rw [List.filterMap_map, List.mem_filterMap]
        exact ⟨_, ho, rfl⟩
      rw [hfine] at hmem
      exact nomatch hmem
  · have hmem : some e ∈ (s.answers k).map Answer.exn := List.mem_map.2 ⟨_, he, rfl⟩
    rw [h.answers, Option.mem_toList] at hmem
    exact outcomes_head hmem

theorem Tracks.settled {ret : Except Exn (Option MsgBody)} (h : Tracks s k sects ret) :
    Settled s k sects ret := by
  match ret with
  | .ok none => exact Asked.settled h
  | .error e | .ok (some b) =>
    obtain ⟨-, -, -, h⟩ := h
    refine ⟨fun _ => h, by rw [h]; simp, (fun h => nomatch h), (fun h => nomatch h), fun b hb => ?_, fun e he => ?_⟩
    · rw [h] at hb
      exact nomatch hb
    · rw [h] at he
      exact nomatch he

/-- However the run goes on, with the results that are due the `k`-th body has its answer. -/
def Session.Answers (mixed : Text → Except Exn Unit) (s : Session) (k : ℕ) : Prop :=
  ∀ ms, Along (Session.step mixed) (Session.Meets mixed) s ms →
    s.seq.waiting.length ≤ (ms.map Label.results).sum →
      ((run (Session.step mixed) s ms).answers k).length = 1

theorem Inv.answers (h : Inv s) (hnote : .change k sects (.ok none) ∈ s.log) : s.Answers mixed k := by
  intro ms hms hlen
  have hlater := later_run h hms (h.changes _ _ _ hnote).1
  have hinv := hms.invariant (fun s l hm hi => Inv.step hi hm) h
  have htracks := (hinv.changes k sects _ (hlater.changes _ _ hnote)).2
  exact htracks.settled.finished rfl (hlater.waits hlen)

/-- If every body is a description that can be answered and every result can be read, each
body is answered once: at once, or when the results that are due have come. -/
theorem offers_answered (hs : s.Fresh) {ls : List Label}
    (h : Along (Session.step mixed) (Session.Meets mixed) s ls) :
    ∀ k < (run (Session.step mixed) s ls).bodies.length, ∃ sects ret,
      .change k sects ret ∈ (run (Session.step mixed) s ls).log ∧
        Settled (run (Session.step mixed) s ls) k sects ret ∧
        (ret = .ok none → (run (Session.step mixed) s ls).Answers mixed k) := by
  have hinv := h.invariant (fun s l hm hi => Inv.step hi hm) hs.inv
  intro k hk
  obtain ⟨sects, ret, hnote⟩ := hinv.noted k hk
  refine ⟨sects, ret, hnote, (hinv.changes k sects ret hnote).2.settled, fun hret => ?_⟩
  subst hret
  exact hinv.answers hnote

end Settle

def audioOffer : MsgBody := .ofText
  "v=0\r\no=- 1 1 IN IP4 3.3.3.3\r\ns=-\r\nc=IN IP4 3.3.3.3\r\nt=0 0\r\nm=audio 4000 RTP/AVP 0".toList
  "application/sdp".toList

def noMixed : Text → Except Exn Unit := fun _ => .error .other

def audioRun : List Label := [.change .caller audioOffer]

def audioResult : List Label := [.result (some "5000 2.2.2.2".toList)]

def audioSect : SdpMediaDescription where
  mHeader := some ⟨"audio".toList, 4000, "RTP/AVP".toList, .payloads [0]⟩
  cHeader := some ⟨"IN".toList, "IP4".toList, "3.3.3.3".toList⟩
  headers := []
  aHeaders := []
  needsUpdate := true

def audioBody : SdpBody where
  oHeader := some ⟨"-".toList, .text "1".toList, .text "1".toList, "IN".toList, "IP4".toList, "3.3.3.3".toList⟩
  cHeader := none
  headers := [("v".toList, "0".toList), ("s".toList, "-".toList), ("t".toList, "0 0".toList)]
  aHeaders := []
  sections := [audioSect]

def audioUp : UpdateParams where
  remoteIp := "3.3.3.3".toList
  remotePort := 4000
  atype := "IP4".toList
  options := []
  index := 0
  subcommands := []
  body := 0
  sect := 0
  sects := [0]

theorem audioOffer_parse : audioOffer.parse noMixed =
    .ok { audioOffer with content := .sdp audioBody, parsed := true } := by
  unfold audioOffer
  rewrite [String.toList_ofList]
  rfl

theorem audioOffer_sent :
    ((Session.new localClient).step noMixed (.change .caller audioOffer)).seq.inflight.bind Command.cb =
        some (.caller, audioUp) ∧
      ((Session.new localClient).step noMixed (.change .caller audioOffer)).client = some localClient ∧
      (((Session.new localClient).step noMixed (.change .caller audioOffer)).side .caller).conf.softRepacketize =
        false := by
  unfold audioOffer
  rewrite [String.toList_ofList]
  exact ⟨rfl, rfl, rfl⟩

theorem audioRun_meets : Along (Session.step noMixed) (Session.Meets noMixed) (Session.new localClient)
    (audioRun ++ audioResult) := by
  obtain ⟨hup, hclient, hsoft⟩ := audioOffer_sent
  refine ⟨fun body' h => ?_, fun n up h body hb _ => ?_, trivial⟩
  · obtain rfl := Except.ok.inj (h.symm.trans audioOffer_parse)
    exact ⟨rfl, by decide, by decide, by decide, .inr (.inl (by decide))⟩
  · obtain ⟨rfl, rfl⟩ := Prod.mk.inj (Option.some.inj (h.symm.trans hup))
    have hread : audioUp.processRtppResult (some localClient) (some "5000 2.2.2.2".toList) =
        .ok (.ok ⟨"2.2.2.2".toList, 5000, "IP4".toList, false, []⟩) := by rfl
    refine ⟨?_, fun _ _ h => absurd (h.symm.trans hsoft) (by decide), fun ur hur hd => ?_⟩
    · rw [hclient]
      decide +kernel
    · rw [hclient] at hur
      obtain rfl := Except.ok.inj (Except.ok.inj (hur.symm.trans hread))
      exact nomatch hd

theorem audioRun_log : (run (Session.step noMixed) (Session.new localClient) audioRun).log =
    [.change 0 [0] (.ok none)] := by
  unfold audioRun audioOffer
  rewrite [String.toList_ofList]
  rfl

/-- The call for the body returns nothing, and its one result makes the one answer. -/
theorem offers_answered_audio :
    .change 0 [0] (.ok none) ∈ (run (Session.step noMixed) (Session.new localClient) audioRun).log ∧
      ((run (Session.step noMixed) (Session.new localClient) (audioRun ++ audioResult)).answers 0).length = 1 := by
  obtain ⟨hask, hresult⟩ := Lib.along_append.1 audioRun_meets
  obtain ⟨sects, ret, hnote, -, hanswers⟩ :=
    offers_answered (Session.new_fresh localClient) hask 0 (by decide +kernel)
  rw [audioRun_log, List.mem_singleton] at hnote
  obtain ⟨-, rfl, rfl⟩ := Note.change.inj hnote
  refine ⟨by rw [audioRun_log]; exact List.mem_singleton_self _, ?_⟩
  rw [Lib.run_append]
  exact hanswers rfl audioResult hresult (by decide +kernel)

section Silent
variable {mixed : Text → Except Exn Unit} {s : Session} {k : ℕ}

/-- The `k`-th body has no answer and waits for none. -/
structure Silent (k : ℕ) (s : Session) : Prop where
  below : k < s.bodies.length
  waiting : ∀ c ∈ s.seq.waiting, c.sectOf k = none
  answers : s.answers k = []

theorem updateAll_waiting {n : SideName} {j : ℕ} {b : SdpBody} (sects : List ℕ) (hne : j ≠ k)
    (l : List (ℕ × ℕ)) (hw : ∀ c ∈ s.seq.waiting, c.sectOf k = none) :
    (∀ c ∈ (Session.updateAll n j b sects s l).1.seq.waiting, c.sectOf k = none) ∧
      (Session.updateAll n j b sects s l).1.bodies = s.bodies ∧
      (Session.updateAll n j b sects s l).1.log = s.log := by
  induction l generalizing s with
  | nil => exact ⟨hw, rfl, rfl⟩
  | cons p l ih =>
    rw [Session.updateAll]
    cases hprep : s.prepare n j b sects p.2 p.1 with
    | error e => exact ⟨hw, rfl, rfl⟩
    | ok up =>
      cases hc : s.client with
      | none =>
        obtain ⟨m, hup⟩ := update_none n up hc
        dsimp only
        rw [hup]
        exact ⟨hw, rfl, rfl⟩
      | some rtpc =>
        obtain ⟨s1, cmd, hup, hseq, -, hb, hlog, -⟩ := update_eq n up (s := s) (by rw [hc]; rfl)
        simp only [hup]
        obtain ⟨h1, h2, h3⟩ := ih (s := s1) fun c hc => by
          rw [hseq] at hc
          rcases Sequencer.mem_waiting_sendCommand hc with hc | rfl
          · exact hw c hc
          · simp [Command.sectOf, (prepare_eq hprep).1, hne]
        exact ⟨h1, h2.trans hb, h3.trans hlog⟩

theorem onSdpChange_silent (mixed : Text → Except Exn Unit) (n : SideName) (body : MsgBody) (h : Silent k s) :
    Silent k (s.onSdpChange mixed n body).1 ∧ (s.onSdpChange mixed n body).1.log = s.log := by
  have hlt (b : MsgBody) : k < (s.bodies ++ [b]).length := by
    rw [List.length_append]
    have := h.below
    omega
  unfold Session.onSdpChange Session._onSdpChange
  cases body.parse mixed with
  | error e => exact ⟨⟨hlt _, h.waiting, h.answers⟩, rfl⟩
  | ok body' =>
    dsimp only
    split
    · exact ⟨⟨hlt _, h.waiting, h.answers⟩, rfl⟩
    · exact ⟨⟨hlt _, h.waiting, h.answers⟩, rfl⟩
    · split
      · exact ⟨⟨hlt _, h.waiting, h.answers⟩, rfl⟩
      · split
        · exact ⟨⟨hlt _, h.waiting, h.answers⟩, rfl⟩
        · next b _ _ _ i is _ =>
          obtain ⟨codecs, hcodecs⟩ : ∃ codecs, ",".toList.intercalate
            ((b.sections[i]?.bind (·.mHeader)).elim [] fun m => m.formats.texts) = codecs := ⟨_, rfl⟩
          rw [hcodecs]
          obtain ⟨s1, hs1, hseq, hb, hlog⟩ : ∃ s1 : Session, ({ s with bodies := s.bodies ++ [body'] } : Session).codecs n codecs = s1 ∧
              s1.seq = s.seq ∧ s1.bodies = s.bodies ++ [body'] ∧ s1.log = s.log := by
            cases n <;> exact ⟨_, rfl, rfl, rfl, rfl⟩
          obtain ⟨h1, h2, h3⟩ := updateAll_waiting (s := s1) (n := n) (b := b) (i :: is)
            (Nat.ne_of_gt h.below) (i :: is).zipIdx (hseq ▸ h.waiting)
          unfold Session.codecs at hs1
          rw [hs1]
          refine ⟨⟨?_, h1, ?_⟩, h3.trans hlog⟩
          · rw [h2, hb]
            exact hlt _
          · rw [Session.answers, h3, hlog]
            exact h.answers

theorem Silent.step {l : Label} (h : Silent k s) : Silent k (s.step mixed l) := by
  cases l with
  | change n body =>
    obtain ⟨h1, -⟩ := onSdpChange_silent mixed n body h
    exact ⟨h1.below, h1.waiting, (answers_change _).trans h1.answers⟩
  | result r =>
    rw [Session.step, Session.result]
    cases hin : s.seq.inflight with
    | none => exact h
    | some c =>
      have hc : c ∈ s.seq.waiting := by
        rw [Sequencer.waiting, hin]
        exact List.mem_cons_self ..
      have hnext : ∀ d ∈ s.seq.next.waiting, d.sectOf k = none :=
        fun d hd => h.waiting d (Sequencer.mem_waiting_next hd)
      dsimp only
      cases hcb : c.cb with
      | none => exact ⟨h.below, hnext, h.answers⟩
      | some p =>
        obtain ⟨n, up⟩ := p
        have hne : k ≠ up.body := by
          intro heq
          have := h.waiting c hc
          rw [Command.sectOf, hcb] at this
          simp [heq] at this
        have hf := Frame.updateResult { s with seq := s.seq.next } n up r
        refine ⟨?_, ?_, (hf.answers k hne).trans h.answers⟩
        · rw [hf.length]
          exact h.below
        · rw [hf.seq]
          exact hnext
  | send t =>
    refine ⟨h.below, fun c hc => ?_, h.answers⟩
    rcases Sequencer.mem_waiting_sendCommand hc with hc | rfl
    · exact h.waiting c hc
    · rfl
  | configure n conf => cases n <;> exact ⟨h.below, h.waiting, h.answers⟩
  | client rtpc => exact ⟨h.below, h.waiting, h.answers⟩
  | delete =>
    rw [Session.step, Session.delete]
    split
    · exact h
    · refine ⟨h.below, fun c hc => ?_, h.answers⟩
      rw [Sequencer.waiting_delete] at hc
      exact List.foldlRecOn (motive := fun q : Sequencer Command => ∀ c ∈ q.waiting, c.sectOf k = none)
        _ _ h.waiting (fun q hq i _ c hc => by
          rcases Sequencer.mem_waiting_sendCommand hc with hc | rfl
          · exact hq c hc
          · rfl) c hc
  | deleted =>
    rw [Session.step]
    split
    · exact ⟨h.below, (Sequencer.waiting_delete _).symm ▸ h.waiting, h.answers⟩
    · exact h

end Silent

def dtmfRelay : MsgBody := .ofText "Signal=5".toList "application/dtmf-relay".toList

/-- A text is passed back by the side and lost by the session: the call returns nothing and is
never called back. -/
theorem dtmfRelay_unanswered :
    .change 0 [] (.ok none) ∈ ((Session.new localClient).step noMixed (.change .caller dtmfRelay)).log ∧
      ∀ ls : List Label, (run (Session.step noMixed)
        ((Session.new localClient).step noMixed (.change .caller dtmfRelay)) ls).answers 0 = [] := by
  refine ⟨List.mem_singleton_self _, fun ls => ?_⟩
  have hs : Silent 0 ((Session.new localClient).step noMixed (.change .caller dtmfRelay)) :=
    ⟨Nat.zero_lt_one, (fun _ hc => nomatch hc), rfl⟩
  exact (Lib.run_invariant (fun s l h => Silent.step h) hs ls).answers

end SippyB2bua.Rtpp
