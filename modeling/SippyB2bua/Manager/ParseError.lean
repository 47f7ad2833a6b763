import SippyB2bua.Manager.Step
import SippyB2bua.Wire.Octets

/-!
# Requests that cannot be parsed

`SipMsg.init_body` raises a `SipParseError` for a body that is shorter than the Content-Length
says, and `SipRequest` puts a response 400 into it. `handleIncoming` means to send this response
and to remember the checksum of the datagram. It calls `getResponse()` without the request, which
is a `TypeError`, so that it does neither.
-/

namespace SippyB2bua.Manager
open Lib (Text)
open Wire (SipMsg)

/-- `SipRequest(data)` raises a `SipParseError`; `url` tells what `SipURL` accepts. -/
def malformed (url : Text → Bool) (data : Text) : Bool :=
  match SipMsg.ofText url .sipRequest data with
  | .error (.sipParseError _) => true
  | _ => false

/-- The `SipParseError`s of the environment are those of `SipRequest`. -/
def Env.Reads (env : Env) (url : Text → Bool) : Prop :=
  ∀ data, malformed url data → env.parseReq data = .error true

namespace TM

def reply (env : Env) (dg : Dgram) (resp : Resp) (o : Origin) : Act :=
  .sent o dg.server (env.respStr resp dg.server false) (some dg.ra.address.1, dg.ra.address.2)

/-- A request that cannot be parsed is answered with the response of the exception, if there is one,
and so is a copy of it, from the cache. -/
structure Refuses (env : Env) (tm : TM) (dg : Dgram) (resp : Option Resp) : Prop where
  returns : (handleIncoming env tm dg).2 = none
  sent : ∀ r ∈ resp, ∃ o, (handleIncoming env tm dg).1.log =
    tm.log ++ [.arrived dg.data, reply env dg r o]
  cached : ((handleIncoming env tm dg).1.l1rcache (env.md5 dg.data)).isSome
  again : ∀ r ∈ resp, (handleIncoming env (handleIncoming env tm dg).1 dg).1.log =
    (handleIncoming env tm dg).1.log ++ [.arrived dg.data, reply env dg r .cached]

variable {env : Env} {tm : TM} {dg : Dgram} {url : Text → Bool}

/-- Nothing but the arrival of the datagram is left, and the `TypeError`. -/
theorem handleIncoming_malformed (henv : env.Reads url) (hbad : malformed url dg.data)
    (hsize : 32 ≤ size dg) (hreq : Lib.Text.startsWith dg.data sip20 = false)
    (hnew : tm.lookup (env.md5 dg.data) = none) :
    handleIncoming env tm dg = (tm.record (.arrived dg.data)).raise .typeError := by
  have hlookup : (tm.record (.arrived dg.data)).lookup (env.md5 dg.data) = none := hnew
  unfold handleIncoming
  dsimp only
  rw [if_neg (Nat.not_lt.mpr hsize), hlookup, hreq]
  dsimp only
  rw [if_neg (by decide), handleRequest, henv _ hbad]

/-- A request for which `SipRequest` raises a `SipParseError` is never answered: the datagram and
each copy of it end in a `TypeError`, nothing is sent and nothing remembered. -/
theorem malformed_never_refused (henv : env.Reads url) (hbad : malformed url dg.data)
    (hsize : 32 ≤ size dg) (hreq : Lib.Text.startsWith dg.data sip20 = false)
    (hnew : tm.lookup (env.md5 dg.data) = none) (resp : Option Resp) :
    ¬ Refuses env tm dg resp ∧
      ∃ tm', handleIncoming env tm dg = (tm', some .typeError) ∧
        tm'.log = tm.log ++ [.arrived dg.data] ∧ tm'.lookup (env.md5 dg.data) = none ∧
        (handleIncoming env tm' dg).2 = some .typeError ∧
        (handleIncoming env tm' dg).1.log = tm'.log ++ [.arrived dg.data] := by
  have hfirst := handleIncoming_malformed henv hbad hsize hreq hnew
  have hcopy : handleIncoming env (tm.record (.arrived dg.data)) dg =
      ((tm.record (.arrived dg.data)).record (.arrived dg.data)).raise .typeError :=
    handleIncoming_malformed henv hbad hsize hreq hnew
  refine ⟨fun h => ?_, tm.record (.arrived dg.data), hfirst, rfl, hnew, by rw [hcopy]; rfl, by rw [hcopy]; rfl⟩
  have hreturns := h.returns
  rw [hfirst] at hreturns
  cases hreturns

end TM

namespace Sample
open Wire (anyUrl)

/-- An INVITE that announces ten octets of a body it does not have. -/
def bodiless : Text :=
  ("INVITE sip:b@203.0.113.1 SIP/2.0\r\nVia: SIP/2.0/UDP 203.0.113.7;branch=z9hG4bK1\r\n" ++
    "From: <sip:a@203.0.113.7>;tag=f1\r\nTo: <sip:b@203.0.113.1>\r\nCall-ID: c1\r\nCSeq: 1 INVITE\r\n" ++
    "Content-Length: 10\r\n\r\n").toList

/-- The 400 that `SipRequest` prepares for it. -/
def badRequest : Resp :=
  (req .invite branch1 none).genResponse 400 ("Bad Request - ".toList ++ Wire.missedBody 10) []

/-- An environment that tells a `SipParseError` of `SipRequest` from the others. -/
def parsing : Env := { env [] [] with
  parseReq data := if malformed anyUrl data then .error true else .error false }

theorem parsing_reads : parsing.Reads anyUrl := fun _ h => if_pos h

theorem bodiless_malformed : malformed anyUrl (dgram bodiless).data := by decide +kernel

/-- It raises, so that the response is not sent. -/
theorem bodiless_not_refused : malformed anyUrl (dgram bodiless).data ∧
    ¬ TM.Refuses parsing (.init false 0 true) (dgram bodiless) (some badRequest) := by
  refine ⟨bodiless_malformed, fun h => ?_⟩
  have hraises : TM.handleIncoming parsing (.init false 0 true) (dgram bodiless) = _ :=
    TM.handleIncoming_malformed parsing_reads bodiless_malformed (by decide +kernel) (by decide +kernel) rfl
  have hreturns := h.returns
  rw [hraises] at hreturns
  cases hreturns

theorem malformed_never_refused_bodiless :
    ∃ tm', TM.handleIncoming parsing (.init false 0 true) (dgram bodiless) = (tm', some .typeError) ∧
      tm'.log = [.arrived (dgram bodiless).data] := by
  have hnever : ¬ TM.Refuses parsing (.init false 0 true) (dgram bodiless) (some badRequest) ∧ _ :=
    TM.malformed_never_refused parsing_reads bodiless_malformed (by decide +kernel) (by decide +kernel) rfl _
  obtain ⟨-, tm', h, hlog, -⟩ := hnever
  exact ⟨tm', h, hlog.trans (List.nil_append _)⟩

end Sample
end SippyB2bua.Manager
