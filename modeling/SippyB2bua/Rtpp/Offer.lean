import SippyB2bua.Rtpp.Session

/-!
# Answers to the offers

A body that was given to a session is answered when its sections have their results: with
the rewritten body, or with the first error. Whoever gave the body waits for the answer, as
nothing is returned at once. The sequencer keeps the order of the updates, so that the
results of one body and the updates it waits for make up the list of its sections.
-/

namespace SippyB2bua.Rtpp
open Lib (Text Sequencer Along run)
open Sdp

section Results
variable {up : UpdateParams} {client : Option Client} {result : Option Text}

/-- The result can be read: it is an error, or it tells a port and an address. -/
def UpdateParams.readable (up : UpdateParams) (client : Option Client) (result : Option Text) : Bool :=
  result.all fun result =>
    let t0 := Text.pieces1 "&&".toList (Text.rstrip result)
    match Text.words t0.1 with
    | [] => false
    | port :: rest => port.head? = some 'E' || !(up.subResults t0.2).isOk ||
      (Text.int port).any fun p => p == 0 || !rest.isEmpty || client.isSome

theorem address_isOk (client : Option Client) (t1 : List Text) (port : Text) (rest : List Text) (ht : t1 = port :: rest) :
    (UpdateParams.address client t1).isOk = (!rest.isEmpty || client.isSome) := by
  subst ht
  match rest with
  | [] => cases client <;> rfl
  | [addr] => rfl
  | addr :: family :: more =>
    unfold UpdateParams.address
    split <;> simp_all [Except.isOk, Except.toBool]

theorem processRtppResult_isOk (up : UpdateParams) (client : Option Client) (result : Option Text) :
    (up.processRtppResult client result).isOk = up.readable client result := by
  cases result with
  | none => rfl
  | some result =>
    simp only [UpdateParams.processRtppResult, UpdateParams.readable, Option.all_some]
    cases ht : Text.words (Text.pieces1 "&&".toList (Text.rstrip result)).1 with
    | nil => rfl
    | cons port rest =>
      by_cases hE : port.head? = some 'E'
      · simp [hE, Except.isOk, Except.toBool]
      · cases hsub : up.subResults (Text.pieces1 "&&".toList (Text.rstrip result)).2 with
        | error e => simp [hE, Except.isOk, Except.toBool]
        | ok fins =>
          cases hp : Text.int port with
          | none => simp [hE, hp, Except.isOk, Except.toBool]
          | some p =>
            by_cases h0 : p = 0
            · simp [hE, hp, h0, Except.isOk, Except.toBool]
            · have haddr := address_isOk client _ port rest rfl
              cases ha : UpdateParams.address client (port :: rest) with
              | error e => simp_all [Except.isOk, Except.toBool, bind, Except.bind]
              | ok fa => simp_all [Except.isOk, Except.toBool, bind, Except.bind, pure, Except.pure]

/-- The attributes that `subcommand_deice` reads have two words. -/
def msidOk (as : List AHeader) : Bool :=
  as.all fun a => a.name != "ssrc".toList || a.value.any fun v => (Text.wordsMax 1 v).length == 2

theorem dropMsid_ok {as : List AHeader} (h : msidOk as) :
    (dropMsid as).2 = none ∧ msidOk (dropMsid as).1 := by
  induction as with
  | nil => exact ⟨rfl, rfl⟩
  | cons a as ih =>
    rw [msidOk, List.all_cons, Bool.and_eq_true] at h
    obtain ⟨ih2, ih1⟩ := ih h.2
    by_cases hn : a.name = "ssrc".toList
    · have ha : a.value.any (fun v => (Text.wordsMax 1 v).length == 2) := by
        simpa [hn] using h.1
      obtain ⟨v, hv, hlen⟩ := (Option.any_eq_true _ _).1 ha
      obtain ⟨w, attr, hw⟩ := List.length_eq_two.1 (beq_iff_eq.1 hlen)
      simp only [dropMsid, hn, ne_eq, not_true_eq_false, if_false, hv, hw]
      refine ⟨ih2, ?_⟩
      split
      · exact ih1
      · rw [msidOk, List.all_cons, ← msidOk, ih1, h.1]
        rfl
    · simp only [dropMsid, ne_eq, hn, not_false_eq_true, if_true]
      refine ⟨ih2, ?_⟩
      rw [msidOk, List.all_cons, ← msidOk, ih1, h.1]
      rfl

theorem msidOk_filter {as : List AHeader} (p : AHeader → Bool) (h : msidOk as) :
    msidOk (as.filter p) := by
  rw [msidOk, List.all_eq_true] at h ⊢
  intro a ha
  exact h a (List.mem_filter.1 ha).1

theorem msidOk_append {as bs : List AHeader} (ha : msidOk as) (hb : msidOk bs) :
    msidOk (as ++ bs) := by
  rw [msidOk, List.all_append, Bool.and_eq_true]
  exact ⟨ha, hb⟩

/-- What finishing a section leaves in place. -/
structure Kept (b : SdpBody) (sect : SdpMediaDescription) (r : SdpBody × SdpMediaDescription) : Prop where
  oHeader : r.1.oHeader = b.oHeader
  cHeader : r.2.cHeader.isSome = sect.cHeader.isSome
  mHeader : r.2.mHeader.isSome = sect.mHeader.isSome
  needsUpdate : r.2.needsUpdate = sect.needsUpdate

theorem Kept.trans {b : SdpBody} {sect : SdpMediaDescription} {r r' : SdpBody × SdpMediaDescription}
    (h : Kept b sect r) (h' : Kept r.1 r.2 r') : Kept b sect r' :=
  ⟨h'.1.trans h.1, h'.2.trans h.2, h'.3.trans h.3, h'.4.trans h.4⟩

theorem sdpSectFin_kept (f : Fin) (b : SdpBody) (sect : SdpMediaDescription) :
    Kept b sect (f.sdpSectFin b sect).1 := by
  cases f with
  | dtls | deice => exact ⟨rfl, rfl, rfl, rfl⟩
  | dedtls | ice =>
    refine ⟨rfl, rfl, ?_, rfl⟩
    exact Option.isSome_map

theorem sdpSectFins_kept (fs : List Fin) (b : SdpBody) (sect : SdpMediaDescription) :
    Kept b sect (sdpSectFins fs b sect).1 := by
  induction fs generalizing b sect with
  | nil => exact ⟨rfl, rfl, rfl, rfl⟩
  | cons f fs ih =>
    rw [sdpSectFins]
    have hf := sdpSectFin_kept f b sect
    rcases hr : f.sdpSectFin b sect with ⟨r, _ | e⟩
    · rw [hr] at hf
      exact hf.trans (ih r.1 r.2)
    · rw [hr] at hf
      exact hf

/-- The texts that the results add are no `ssrc` attributes. -/
theorem sdpSectFin_ok {f : Fin} {b : SdpBody} {sect : SdpMediaDescription} (h : msidOk sect.aHeaders) :
    (f.sdpSectFin b sect).2 = none ∧ msidOk (f.sdpSectFin b sect).1.2.aHeaders := by
  cases f with
  | dtls mode fingerprint => exact ⟨rfl, msidOk_append (msidOk_filter _ h) rfl⟩
  | dedtls => exact ⟨rfl, msidOk_filter _ h⟩
  | ice lufrag lpwd candidates =>
    refine ⟨rfl, msidOk_append (msidOk_filter _ h) ?_⟩
    rw [List.map_append, msidOk, List.all_append, Bool.and_eq_true]
    refine ⟨rfl, ?_⟩
    rw [List.map_map, List.all_map, List.all_eq_true]
    intro c _
    rfl
  | deice => exact dropMsid_ok (msidOk_filter _ h)

theorem sdpSectFins_ok {fs : List Fin} (b : SdpBody) {sect : SdpMediaDescription}
    (h : .deice ∈ fs → msidOk sect.aHeaders) : (sdpSectFins fs b sect).2 = none := by
  by_cases hd : Fin.deice ∈ fs
  · have hm := h hd
    clear h hd
    induction fs generalizing b sect with
    | nil => rfl
    | cons f fs ih =>
      rw [sdpSectFins]
      have hf := sdpSectFin_ok (f := f) (b := b) hm
      rcases hr : f.sdpSectFin b sect with ⟨r, _ | e⟩
      · rw [hr] at hf
        exact ih _ hf.2
      · rw [hr] at hf
        exact nomatch hf.1
  · clear h
    induction fs generalizing b sect with
    | nil => rfl
    | cons f fs ih =>
      rw [List.mem_cons, not_or] at hd
      rw [sdpSectFins]
      cases f with
      | dtls | dedtls | ice => exact ih _ hd.2
      | deice => exact absurd rfl hd.1

end Results

section Finish
variable {conf : SideConf} {ur : UpdateResult} {b : SdpBody} {sect : SdpMediaDescription}

/-- A section that can be finished: it has its headers, the packet length is known if packets are
to be cut, and its `ssrc` attributes can be read if ICE ends here. -/
structure CanFinish (conf : SideConf) (ur : UpdateResult) (sect : SdpMediaDescription) : Prop where
  cHeader : sect.cHeader.isSome
  mHeader : sect.mHeader.isSome
  repacketize : conf.softRepacketize → conf.repacketize.isSome
  deice : .deice ∈ ur.sdpSectFins → msidOk sect.aHeaders

theorem setAddress_eq (ur : UpdateResult) (hc : sect.cHeader.isSome) (hm : sect.mHeader.isSome) :
    ∃ sect', setAddress ur sect = some sect' ∧ sect'.needsUpdate = sect.needsUpdate := by
  obtain ⟨m, c, headers, as, needsUpdate⟩ := sect
  obtain ⟨c, rfl⟩ := Option.isSome_iff_exists.1 hc
  obtain ⟨m, rfl⟩ := Option.isSome_iff_exists.1 hm
  exact ⟨_, rfl, rfl⟩

theorem finishSect_ok (h : CanFinish conf ur sect) :
    (finishSect conf ur b sect).2 = none ∧
      (finishSect conf ur b sect).1.2.needsUpdate = false ∧
      (finishSect conf ur b sect).1.1.oHeader = b.oHeader := by
  have hok : (sdpSectFins ur.sdpSectFins b { sect with needsUpdate := false }).2 = none :=
    sdpSectFins_ok b h.deice
  have hkept := sdpSectFins_kept ur.sdpSectFins b { sect with needsUpdate := false }
  rcases hr : sdpSectFins ur.sdpSectFins b { sect with needsUpdate := false } with ⟨⟨b', sect'⟩, ex⟩
  rw [hr] at hok hkept
  obtain rfl : ex = none := hok
  have ho : b'.oHeader = b.oHeader := hkept.oHeader
  obtain ⟨sect2, hset, hn⟩ := setAddress_eq ur (hkept.cHeader.trans h.cHeader)
    (hkept.mHeader.trans h.mHeader)
  replace hn : sect2.needsUpdate = false := hn.trans hkept.needsUpdate
  unfold finishSect
  simp only [hr, hset]
  split
  · next hre =>
    cases hrep : conf.repacketize with
    | none =>
      rw [hrep, Option.isSome_none, Bool.false_eq_true, or_false] at hre
      have := h.repacketize hre
      rw [hrep] at this
      exact nomatch this
    | some r => exact ⟨rfl, hn, ho⟩
  · exact ⟨rfl, hn, ho⟩

end Finish

end SippyB2bua.Rtpp
