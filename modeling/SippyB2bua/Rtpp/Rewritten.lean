import SippyB2bua.Rtpp.Session
import SippyB2bua.SdpRoundTrip

/-!
# Descriptions that the proxy's address was written into

What `_sdp_change_finish` does to a description leaves it one that is read back from what is printed
of it: each address that it writes is a word, and each attribute that it adds or changes is the text of a line.
-/

namespace SippyB2bua.Rtpp
open Lib (Text)
open Lib.Text (Tidy Unbroken PlainWord)
open Sdp

/-- The texts that the proxy has for the attributes of a section. -/
def Fin.Tidy : Fin → Prop
  | .dtls mode fingerprint => Lib.Text.Tidy mode ∧ Lib.Text.Tidy fingerprint
  | .ice lufrag lpwd candidates =>
    Lib.Text.Tidy lufrag ∧ Lib.Text.Tidy lpwd ∧ ∀ c ∈ candidates, Lib.Text.Tidy c
  | .dedtls | .deice => True

structure UpdateResult.Tidy (ur : UpdateResult) : Prop where
  family : PlainWord ur.family
  address : PlainWord ur.rtpproxyAddress
  fins : ∀ f ∈ ur.sdpSectFins, f.Tidy

/-- The address in a reply of the proxy is a word of it, or the proxy's own. -/
theorem UpdateResult.tidy_of_reply {up : UpdateParams} {client : Option Client} {reply : Option Text} {ur : UpdateResult}
    (h : up.processRtppResult client reply = .ok (.ok ur)) (hclient : ∀ c ∈ client, PlainWord c.proxyAddress)
    (hfins : ∀ f ∈ ur.sdpSectFins, f.Tidy) : ur.Tidy := by
  have hip : PlainWord "IP4".toList ∧ PlainWord "IP6".toList := ⟨by decide, by decide⟩
  cases reply with
  | none => exact nomatch h
  | some reply =>
    unfold UpdateParams.processRtppResult at h
    dsimp only at h
    split at h
    · exact nomatch h
    · rename_i port rest hwords
      have hmem (w : Text) (hw : w ∈ port :: rest) : PlainWord w := Lib.Text.mem_words (hwords ▸ hw)
      split at h
      · exact nomatch Except.ok.inj h
      · split at h
        · exact nomatch Except.ok.inj h
        · split at h
          · exact nomatch h
          · split at h
            · exact nomatch Except.ok.inj h
            · obtain ⟨⟨family, addr⟩, haddress, heq⟩ := Lib.bind_ok.mp h
              cases heq
              rw [hwords] at haddress
              unfold UpdateParams.address at haddress
              split at haddress
              · rename_i heq
                cases haddress
                exact ⟨hip.2, hmem _ (by simp [heq]), hfins⟩
              · rename_i heq
                cases haddress
                exact ⟨hip.1, hmem _ (by simp [heq]), hfins⟩
              · cases hc : client with
                | none =>
                  rw [hc] at haddress
                  exact nomatch haddress
                | some c =>
                  rw [hc] at haddress
                  cases haddress
                  exact ⟨hip.1, hclient c hc, hfins⟩

def ownOrigin (o : OwnOrigin) : Origin := ⟨"-".toList, .own o.sessionId, .own o.version, "IN".toList, .my⟩

/-- The parts of a description that `_sdp_change_finish` reads. -/
def body (d : Description) : SdpBody := ⟨none, d.cHeader, d.headers, d.aHeaders, d.sections⟩

/-- The description that a side hands on, from the one that it was given: results are written into
its sections in any order, and in the end the origin line becomes our own. -/
inductive Rewritten (b : SdpBody) : Description → Prop
  | given : Rewritten b (.ofSdpBody b)
  | finished {d : Description} {sect sect' : SdpMediaDescription} {b' : SdpBody} {e : Option Exn} (conf : SideConf)
      {ur : UpdateResult} (i : ℕ) (hd : Rewritten b d) (hur : ur.Tidy) (hsect : d.sections[i]? = some sect)
      (h : finishSect conf ur (body d) sect = ((b', sect'), e)) :
      Rewritten b { d with aHeaders := b'.aHeaders, sections := d.sections.set i sect' }
  | origin {d : Description} (o : OwnOrigin) (hd : Rewritten b d) :
      Rewritten b { d with oHeader := some (ownOrigin o) }
  | nortpproxy {d : Description} {b' : SdpBody} (hd : Rewritten b d)
      (h : (body d).addAttribute (.ofText "nortpproxy:yes".toList) = b') :
      Rewritten b { d with aHeaders := b'.aHeaders, sections := b'.sections }

section Finish
variable {as : List AHeader} {a : AHeader} {sect : SdpMediaDescription} {b : SdpBody} {ur : UpdateResult} {t : Text}

theorem tidy_ofText (h : Tidy t) : (AHeader.ofText t).Fits Lib.Text.Tidy := AHeader.ofText_fits h

theorem tidy_label {label : Text} (hlabel : Unbroken label) (h : Tidy t) : Tidy (label ++ ':' :: t) :=
  h.cons_append (by decide) hlabel (by decide)

theorem tidy_addTexts (h : sect.Tidy) {ts : List Text} (hts : ∀ t ∈ ts, Tidy t) : (sect.addTexts ts).Tidy := by
  refine ⟨h.media, h.connection, h.headers, fun a ha => ?_⟩
  rcases List.mem_append.mp ha with ha | ha
  · exact h.attributes a ha
  · obtain ⟨t, ht, rfl⟩ := List.mem_map.mp ha
    exact AHeader.ofText_fits (hts t ht)

theorem tidy_setTransport (h : sect.Tidy) (ht : PlainWord t) : (sect.setTransport t).Tidy := by
  refine ⟨fun m hm => ?_, h.connection, h.headers, h.attributes⟩
  obtain ⟨m', hm', rfl⟩ := Option.map_eq_some_iff.mp hm
  have htidy := h.media m' hm'
  exact ⟨htidy.stype, ht, htidy.formats⟩

theorem tidy_attributes (h : sect.Tidy) (has : ∀ a ∈ as, a.Fits Lib.Text.Tidy) : { sect with aHeaders := as }.Tidy :=
  ⟨h.media, h.connection, h.headers, has⟩

theorem dropMsid_mem (h : a ∈ (dropMsid as).1) : a ∈ as := by
  induction as with
  | nil => exact h
  | cons a' as ih =>
    unfold dropMsid at h
    have hcons (hmem : a ∈ a' :: (dropMsid as).1) : a ∈ a' :: as := by
      rcases List.mem_cons.mp hmem with rfl | hmem
      · exact List.mem_cons_self
      · exact List.mem_cons_of_mem a' (ih hmem)
    split at h
    · exact hcons h
    · split at h
      · exact h
      · split at h
        · dsimp only at h
          split at h
          · exact List.mem_cons_of_mem a' (ih h)
          · exact hcons h
        · exact h

theorem sdpAttrsRm_tidy (names : List Text) (hb : ∀ a ∈ b.aHeaders, a.Fits Lib.Text.Tidy) (h : sect.Tidy) :
    (∀ a ∈ (sdpAttrsRm names b sect).1.aHeaders, a.Fits Lib.Text.Tidy) ∧ (sdpAttrsRm names b sect).2.Tidy :=
  ⟨fun a ha => hb a (List.mem_of_mem_filter ha),
    tidy_attributes h fun a ha => h.attributes a (List.mem_of_mem_filter ha)⟩

theorem plain_transports : PlainWord "RTP/AVP".toList ∧ PlainWord "UDP/TLS/RTP/SAVP".toList :=
  ⟨by decide, by decide⟩

theorem tidy_flags : Tidy "rtcp-mux".toList ∧ Tidy "ice-lite".toList ∧ Tidy "sendonly".toList ∧
    Tidy "nortpproxy:yes".toList :=
  ⟨⟨by decide, by decide⟩, ⟨by decide, by decide⟩, ⟨by decide, by decide⟩, by decide, by decide⟩

/-- What the subcommand's function does to the attributes of a section and of the session part. -/
theorem sdpSectFin_tidy {f : Fin} (hf : f.Tidy) (hb : ∀ a ∈ b.aHeaders, a.Fits Lib.Text.Tidy) (h : sect.Tidy) :
    (∀ a ∈ (f.sdpSectFin b sect).1.1.aHeaders, a.Fits Lib.Text.Tidy) ∧ (f.sdpSectFin b sect).1.2.Tidy ∧
      (f.sdpSectFin b sect).1.2.mHeader.isSome = sect.mHeader.isSome ∧
        (f.sdpSectFin b sect).1.2.cHeader = sect.cHeader := by
  obtain ⟨hbody, hsect⟩ := sdpAttrsRm_tidy dtlsAttrsRm hb h
  obtain ⟨hbody', hsect'⟩ := sdpAttrsRm_tidy iceAttrsRm hb h
  cases f with
  | dtls mode fingerprint =>
    refine ⟨hbody, tidy_addTexts hsect fun t ht => ?_, rfl, rfl⟩
    simp only [List.mem_cons, List.not_mem_nil, or_false] at ht
    rcases ht with rfl | rfl
    · exact @tidy_label _ "setup".toList (by decide) hf.1
    · exact @tidy_label _ "fingerprint".toList (by decide) hf.2
  | dedtls =>
    refine ⟨hbody, tidy_setTransport hsect plain_transports.1, ?_, rfl⟩
    exact Option.isSome_map
  | ice lufrag lpwd candidates =>
    obtain ⟨hufrag, hpwd, hcands⟩ := hf
    have htexts : ∀ t ∈ ["rtcp-mux".toList, "ice-lite".toList, "ice-ufrag:".toList ++ lufrag,
        "ice-pwd:".toList ++ lpwd] ++ candidates.map ("candidate:".toList ++ ·), Tidy t := by
      intro t ht
      rcases List.mem_append.mp ht with ht | ht
      · simp only [List.mem_cons, List.not_mem_nil, or_false] at ht
        rcases ht with rfl | rfl | rfl | rfl
        · exact tidy_flags.1
        · exact tidy_flags.2.1
        · exact @tidy_label _ "ice-ufrag".toList (by decide) hufrag
        · exact @tidy_label _ "ice-pwd".toList (by decide) hpwd
      · obtain ⟨c, hc, rfl⟩ := List.mem_map.mp ht
        exact @tidy_label _ "candidate".toList (by decide) (hcands c hc)
    refine ⟨hbody', tidy_setTransport (tidy_addTexts hsect' htexts) plain_transports.2, ?_, rfl⟩
    exact Option.isSome_map
  | deice => exact ⟨hbody', tidy_attributes hsect' fun a ha => hsect'.attributes a (dropMsid_mem ha), rfl, rfl⟩

theorem sdpSectFins_tidy {fs : List Fin} (hfs : ∀ f ∈ fs, f.Tidy) (hb : ∀ a ∈ b.aHeaders, a.Fits Lib.Text.Tidy) (h : sect.Tidy) :
    (∀ a ∈ (sdpSectFins fs b sect).1.1.aHeaders, a.Fits Lib.Text.Tidy) ∧ (sdpSectFins fs b sect).1.2.Tidy ∧
      (sdpSectFins fs b sect).1.2.mHeader.isSome = sect.mHeader.isSome ∧
        (sdpSectFins fs b sect).1.2.cHeader = sect.cHeader := by
  induction fs generalizing b sect with
  | nil => exact ⟨hb, h, rfl, rfl⟩
  | cons f fs ih =>
    obtain ⟨hbody, hsect, hm, hc⟩ := sdpSectFin_tidy (hfs f List.mem_cons_self) hb h
    unfold sdpSectFins
    cases hfin : f.sdpSectFin b sect with
    | mk r e =>
      rw [hfin] at hbody hsect hm hc
      cases e with
      | some e => exact ⟨hbody, hsect, hm, hc⟩
      | none =>
        obtain ⟨hbody', hsect', hm', hc'⟩ := ih (fun f' hf' => hfs f' (List.mem_cons_of_mem f hf')) hbody hsect
        exact ⟨hbody', hsect', hm'.trans hm, hc'.trans hc⟩

theorem setSendonly_tidy (has : ∀ a ∈ as, a.Fits Lib.Text.Tidy) : ∀ a ∈ setSendonly ur as, a.Fits Lib.Text.Tidy := by
  intro a ha
  unfold setSendonly at ha
  dsimp only at ha
  split_ifs at ha
  · exact has a (List.mem_of_mem_filter ha)
  · rcases List.mem_append.mp ha with ha | ha
    · exact has a (List.mem_of_mem_filter ha)
    · rw [List.mem_singleton.mp ha]
      exact tidy_ofText tidy_flags.2.2.1
  · exact has a ha

theorem dropPtime_mem (h : a ∈ (dropPtime as).1) : a ∈ as := by
  induction as using List.reverseRecOn with
  | nil => exact h
  | append_singleton as a' ih =>
    unfold dropPtime at h ih
    rw [List.foldl_append, List.foldl_cons, List.foldl_nil] at h
    split at h
    · exact List.mem_append_left _ (ih h)
    · rcases List.mem_append.mp h with h | h
      · exact List.mem_append_left _ (ih h)
      · exact List.mem_append_right _ h

theorem insertAt_mem {i : ℤ} {a' : AHeader} (h : a ∈ insertAt i a' as) : a = a' ∨ a ∈ as := by
  rcases List.mem_append.mp h with h | h
  · exact .inr (List.mem_of_mem_take h)
  · rcases List.mem_cons.mp h with h | h
    · exact .inl h
    · exact .inr (List.mem_of_mem_drop h)

theorem setRtcp_tidy (hur : ur.Tidy) (has : ∀ a ∈ as, a.Fits Lib.Text.Tidy) : ∀ a ∈ setRtcp ur as, a.Fits Lib.Text.Tidy := by
  intro a ha
  obtain ⟨a', ha', rfl⟩ := List.mem_map.mp ha
  split
  · rename_i hname
    refine ⟨by rw [hname]; decide, ?_⟩
    have hstart : Unbroken (Lib.Text.ofInt (ur.rtpproxyPort + 1) ++ " IN ".toList ++ ur.family ++ " ".toList) :=
      (((Lib.Text.plain_ofInt _).unbroken.append (by decide)).append hur.family.unbroken).append (by decide)
    have hlabel : Unbroken a'.name := by
      rw [hname]
      decide
    exact tidy_label hlabel (hur.address.tidy_append hstart)
  · exact has a' ha'

theorem setAddress_tidy (hur : ur.Tidy) (h : sect.Tidy) {sect' : SdpMediaDescription}
    (hset : setAddress ur sect = some sect') :
    sect'.Tidy ∧ sect'.mHeader.isSome ∧ sect'.cHeader.isSome := by
  unfold setAddress at hset
  split at hset
  · rename_i c m hc hm
    cases hset
    have hc' := h.connection c hc
    have hm' := h.media m hm
    refine ⟨⟨fun m'' hmem => ?_, fun c'' hmem => ?_, h.headers, h.attributes⟩, rfl, rfl⟩
    · cases hmem
      exact ⟨hm'.stype, hm'.transport, hm'.formats⟩
    · cases hmem
      exact ⟨hc'.ntype, hur.family, hur.address⟩
  · exact absurd hset.symm (Option.some_ne_none _)

/-- What `_sdp_change_finish` does to a section, wherever it ends. -/
theorem finishSect_tidy (conf : SideConf) (hur : ur.Tidy) (hb : ∀ a ∈ b.aHeaders, a.Fits Lib.Text.Tidy) (h : sect.Tidy)
    (hm : sect.mHeader.isSome) (hc : sect.cHeader.isSome) :
    (∀ a ∈ (finishSect conf ur b sect).1.1.aHeaders, a.Fits Lib.Text.Tidy) ∧ (finishSect conf ur b sect).1.2.Tidy ∧
      (finishSect conf ur b sect).1.2.mHeader.isSome ∧ (finishSect conf ur b sect).1.2.cHeader.isSome := by
  have hstart : { sect with needsUpdate := false }.Tidy := ⟨h.media, h.connection, h.headers, h.attributes⟩
  obtain ⟨hbody, hsect, hm', hc'⟩ := sdpSectFins_tidy hur.fins hb hstart
  unfold finishSect
  cases hfins : sdpSectFins ur.sdpSectFins b { sect with needsUpdate := false } with
  | mk r e =>
    obtain ⟨b', sect'⟩ := r
    rw [hfins] at hbody hsect hm' hc'
    dsimp only at hbody hsect hm' hc'
    have hm'' : sect'.mHeader.isSome := by rw [hm', hm]
    have hc'' : sect'.cHeader.isSome := by rw [hc', hc]
    cases e with
    | some e => exact ⟨hbody, hsect, hm'', hc''⟩
    | none =>
      dsimp only
      cases hset : setAddress ur sect' with
      | none => exact ⟨hbody, hsect, hm'', hc''⟩
      | some sect'' =>
        obtain ⟨htidy, hmedia, hconn⟩ := setAddress_tidy hur hsect hset
        have hsend := @setSendonly_tidy _ ur htidy.attributes
        have hptime : ∀ a ∈ (dropPtime (setSendonly ur sect''.aHeaders)).1, a.Fits Lib.Text.Tidy := fun a ha =>
          hsend a (dropPtime_mem ha)
        dsimp only
        split
        · cases conf.repacketize with
          | none => exact ⟨hbody, tidy_attributes htidy hptime, hmedia, hconn⟩
          | some r =>
            have hnew : (AHeader.ofText ("ptime:".toList ++ Lib.Text.ofInt r)).Fits Lib.Text.Tidy :=
              tidy_ofText (@tidy_label _ "ptime".toList (by decide) (Lib.Text.plain_ofInt r).tidy)
            refine ⟨hbody, tidy_attributes htidy (setRtcp_tidy hur fun a ha => ?_), hmedia, hconn⟩
            rcases insertAt_mem ha with rfl | ha
            · exact hnew
            · exact hptime a ha
        · exact ⟨hbody, tidy_attributes htidy (setRtcp_tidy hur hsend), hmedia, hconn⟩

end Finish

section RoundTrip
variable {b : SdpBody} {d : Description} {myAddress : Text}

theorem ownOrigin_tidy (o : OwnOrigin) : (ownOrigin o).Tidy := by
  have hdash : PlainWord "-".toList := by decide
  have hin : PlainWord "IN".toList := by decide
  exact ⟨hdash, Lib.Text.plain_ofInt _, Lib.Text.plain_ofInt _, hin, trivial⟩

theorem addAttribute_tidy {a : AHeader} (ha : a.Fits Lib.Text.Tidy) (h : d.Tidy) (hw : d.Whole) :
    (∀ a' ∈ ((body d).addAttribute a).aHeaders, a'.Fits Lib.Text.Tidy) ∧
      (∀ sect ∈ ((body d).addAttribute a).sections, sect.Tidy ∧ sect.mHeader.isSome ∧ sect.cHeader.isSome) ∧
        (d.sections = [] → ((body d).addAttribute a).sections = []) := by
  have hall (s : SdpMediaDescription) (hs : s ∈ d.sections) : s.Tidy ∧ s.mHeader.isSome ∧ s.cHeader.isSome :=
    ⟨h.sections s hs, hw.media s hs, hw.connections s hs⟩
  unfold SdpBody.addAttribute
  split
  · rename_i sect hlast
    have hmem : sect ∈ d.sections := List.mem_of_getLast? hlast
    refine ⟨h.attributes, fun s hs => ?_, fun hnil => ?_⟩
    · rcases List.mem_append.mp hs with hs | hs
      · exact hall s (List.dropLast_subset d.sections hs)
      · obtain ⟨htidy, hm, hc⟩ := hall sect hmem
        rw [List.mem_singleton.mp hs]
        refine ⟨tidy_attributes htidy fun a' ha' => ?_, hm, hc⟩
        rcases List.mem_append.mp ha' with ha' | ha'
        · exact htidy.attributes a' ha'
        · rw [List.mem_singleton.mp ha']
          exact ha
    · rw [hnil] at hmem
      exact absurd hmem List.not_mem_nil
  · refine ⟨fun a' ha' => ?_, hall, id⟩
    rcases List.mem_append.mp ha' with ha' | ha'
    · exact h.attributes a' ha'
    · rw [List.mem_singleton.mp ha']
      exact ha

/-- What the side does to a description keeps it one that can be read back. -/
theorem Rewritten.tidy (h : Rewritten b d) (hb : (Description.ofSdpBody b).Tidy) (hw : (Description.ofSdpBody b).Whole) :
    d.Tidy ∧ d.Whole := by
  induction h with
  | given => exact ⟨hb, hw⟩
  | @finished d sect sect' b' e conf ur i _ hur hsect hfinish ih =>
    obtain ⟨htidy, hwhole⟩ := ih
    have hmem : sect ∈ d.sections := List.mem_of_getElem? hsect
    have hresult := finishSect_tidy conf hur (b := body d) htidy.attributes (htidy.sections sect hmem)
      (hwhole.media sect hmem) (hwhole.connections sect hmem)
    rw [hfinish] at hresult
    obtain ⟨hbody, hsect', hm, hc⟩ := hresult
    have hall {P : SdpMediaDescription → Prop} (hP : ∀ s ∈ d.sections, P s) (hP' : P sect') :
        ∀ s ∈ d.sections.set i sect', P s := by
      intro s hs
      rcases List.mem_or_eq_of_mem_set hs with hs | rfl
      · exact hP s hs
      · exact hP'
    refine ⟨⟨htidy.origin, htidy.connection, htidy.headers, hbody, hall htidy.sections hsect'⟩,
      hwhole.origin, hwhole.headers, hall hwhole.media hm, hall hwhole.connections hc, ?_⟩
    exact hwhole.hoisted.imp (fun hnil => by rw [hnil]; rfl) id
  | origin o _ ih =>
    obtain ⟨htidy, hwhole⟩ := ih
    refine ⟨⟨fun o' ho' => ?_, htidy.connection, htidy.headers, htidy.attributes, htidy.sections⟩,
      rfl, hwhole.headers, hwhole.media, hwhole.connections, hwhole.hoisted⟩
    cases ho'
    exact ownOrigin_tidy o
  | nortpproxy _ hadd ih =>
    obtain ⟨htidy, hwhole⟩ := ih
    subst hadd
    obtain ⟨hbody, hsections, hnil⟩ := addAttribute_tidy (tidy_ofText tidy_flags.2.2.2) htidy hwhole
    refine ⟨⟨htidy.origin, htidy.connection, htidy.headers, hbody, fun s hs => (hsections s hs).1⟩,
      hwhole.origin, hwhole.headers, fun s hs => (hsections s hs).2.1, fun s hs => (hsections s hs).2.2, ?_⟩
    exact hwhole.hoisted.imp hnil id

/-- A description that was read, and whatever a side makes of it, is read back from `str` and from
`localStr` of every local address. -/
theorem printed_round_trip {text : Text} (h : SdpBody.parse text = .ok b)
    (hlines : ∀ l ∈ SdpBody.lines text, Lib.Text.rstrip l = l) (hd : Rewritten b d) :
    ((d.own = true → PlainWord myAddress) → ∃ b', SdpBody.parse (d.str myAddress) = .ok b' ∧ d.Same b') ∧
      ∀ la : Addr × Text, (d.own = true → Host la.1.1) →
        ∃ s b', d.localStr myAddress (some la) = .ok s ∧ SdpBody.parse s = .ok b' ∧ d.Same b' := by
  obtain ⟨htidy, hwhole⟩ := SdpBody.parse_tidy h hlines
  obtain ⟨htidy, hwhole⟩ := hd.tidy htidy hwhole
  constructor
  · intro hmy
    rw [Description.str_written]
    exact htidy.round_trip hwhole fun hown => twoWords_my (hmy hown)
  · intro la hla
    obtain ⟨s, hs⟩ := Description.localStr_ok hwhole myAddress la
    obtain ⟨b', hb', hsame⟩ := htidy.round_trip hwhole fun hown => (hla hown).twoWords
    refine ⟨s, b', hs, ?_, hsame⟩
    rw [Description.localStr_written hs]
    exact hb'

end RoundTrip

def twoStreams : Text :=
  ["v=0\r\no=- 1 1 IN IP4 10.0.0.1\r\ns=-\r\nc=IN IP4 10.0.0.1\r\nt=0 0\r\n",
    "m=audio 4000 RTP/AVP 0\r\na=sendrecv\r\nm=video 4002 RTP/AVP 31\r\n"].flatMap String.toList

def streamOf (stype : Text) (port : ℤ) (pt : ℤ) (as : List AHeader) : SdpMediaDescription where
  mHeader := some ⟨stype, port, "RTP/AVP".toList, .payloads [pt]⟩
  cHeader := some ⟨"IN".toList, "IP4".toList, "10.0.0.1".toList⟩
  headers := []
  aHeaders := as
  needsUpdate := true

def twoStreamsBody : SdpBody where
  oHeader := some ⟨"-".toList, .text "1".toList, .text "1".toList, "IN".toList, "IP4".toList, "10.0.0.1".toList⟩
  cHeader := none
  headers := [("v".toList, "0".toList), ("s".toList, "-".toList), ("t".toList, "0 0".toList)]
  aHeaders := []
  sections := [streamOf "audio".toList 4000 0 [⟨"sendrecv".toList, none⟩], streamOf "video".toList 4002 31 []]

def twentyMs : SideConf := ⟨none, none, some 20, false, .pass, false, false⟩

def holdUpdate : UpdateParams := ⟨"0.0.0.0".toList, 4000, "IP4".toList, [], 0, [], 0, 0, [0]⟩

def heldResult : UpdateResult := ⟨"10.0.0.2".toList, 5000, "IP4".toList, true, []⟩

def audioStream : SdpMediaDescription := streamOf "audio".toList 4000 0 [⟨"sendrecv".toList, none⟩]

def heldFirst : (SdpBody × SdpMediaDescription) × Option Exn :=
  finishSect twentyMs heldResult (body (.ofSdpBody twoStreamsBody)) audioStream

/-- The description when the first stream has the proxy's address. -/
def heldStreams : Description :=
  { Description.ofSdpBody twoStreamsBody with
    aHeaders := heldFirst.1.1.aHeaders
    sections := twoStreamsBody.sections.set 0 heldFirst.1.2
    oHeader := some (ownOrigin ⟨7, 7⟩) }

theorem heldStreams_rewritten : Rewritten twoStreamsBody heldStreams := by
  have hreply : holdUpdate.processRtppResult none (some "5000 10.0.0.2\n".toList) = .ok (.ok heldResult) := by
    decide +kernel
  have hur : heldResult.Tidy := UpdateResult.tidy_of_reply hreply (fun c hc => nomatch hc) fun f hf => nomatch hf
  have hsect : (Description.ofSdpBody twoStreamsBody).sections[0]? = some audioStream := rfl
  have hfinish : finishSect twentyMs heldResult (body (.ofSdpBody twoStreamsBody)) audioStream =
      ((heldFirst.1.1, heldFirst.1.2), heldFirst.2) := rfl
  exact .origin ⟨7, 7⟩ (.finished twentyMs 0 .given hur hsect hfinish)

theorem printed_round_trip_twoStreams :
    ((∃ b', SdpBody.parse (heldStreams.str "10.0.0.9".toList) = .ok b' ∧ heldStreams.Same b') ∧
      ∃ s b', heldStreams.localStr "10.0.0.9".toList (some (("[::1]".toList, 5060), "udp".toList)) = .ok s ∧
        SdpBody.parse s = .ok b' ∧ heldStreams.Same b') := by
  have hparse : SdpBody.parse twoStreams = .ok twoStreamsBody := by decide +kernel
  have hlines : ∀ l ∈ SdpBody.lines twoStreams, Lib.Text.rstrip l = l := by decide +kernel
  have hround := @printed_round_trip _ _ "10.0.0.9".toList _ hparse hlines heldStreams_rewritten
  exact ⟨hround.1 fun _ => by decide, hround.2 _ fun _ => (by decide : PlainWord "::1".toList)⟩

end SippyB2bua.Rtpp
