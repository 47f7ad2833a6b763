import SippyB2bua.Sdp
import SippyB2bua.SipURL

/-!
# Subcommands of an update

What the RTP proxy is asked to do besides rewriting an address: to end DTLS or ICE on one
of the sides. A subcommand is made from the description, reads the proxy's results for it
and leaves a function behind that finishes the media section.
-/

namespace SippyB2bua.Rtpp
open Lib (Text)
open Sdp

def dtlsTransports : List Text := ["UDP/TLS/RTP/SAVP".toList, "UDP/TLS/RTP/SAVPF".toList]

def dtlsAttrs : List Text := ["setup", "fingerprint", "rtcp", "ssrc"].map String.toList

def dtlsAttrsRm : List Text := dtlsAttrs.filter (· != "ssrc".toList)

def iceAttrsRm : List Text :=
  ["ice-ufrag", "ice-pwd", "candidate", "ice-options", "rtcp-mux", "end-of-candidates",
    "ice-options", "extmap", "extmap-allow-mixed", "msid", "msid-semantic", "mid", "group",
    "rtcp-fb"].map String.toList

def dtlsGw : Text := "M4:1".toList
def iceLite : Text := "M5:1".toList

/-- The `name` of a subcommand. -/
inductive SubName
  | dtls | dedtls | ice | deice
  deriving DecidableEq, Repr

structure Subcommand where
  name : SubName
  commands : List Text
  deriving DecidableEq, Repr

/-- `sdp_sect_fin`, with what the results gave it. -/
inductive Fin
  | dtls (mode fingerprint : Text)
  | dedtls
  | ice (lufrag lpwd : Text) (candidates : List Text)
  | deice
  deriving DecidableEq, Repr

def strValue (v : Option Text) : Text := v.getD "None".toList

def subcommandDtls : Subcommand := ⟨.dtls, [dtlsGw ++ " S".toList]⟩

def subcommandIce : Subcommand := ⟨.ice, [iceLite ++ " S".toList]⟩

def firstValue (as : List AHeader) (name : Text) : Option (Option Text) :=
  (as.find? (·.name == name)).map AHeader.value

def lastValue (as : List AHeader) (name : Text) : Option (Option Text) :=
  firstValue as.reverse name

def subcommandDedtls (sdp : SdpBody) (sect : SdpMediaDescription) : Except Exn Subcommand :=
  let as := sect.aHeaders ++ sdp.aHeaders
  match firstValue as "setup".toList, firstValue as "fingerprint".toList with
  | some setup, some fingerprint => do
    let mode ←
      if setup = some "active".toList ∨ setup = some "actpass".toList then .ok "A".toList
      else if setup = some "passive".toList then .ok "P".toList
      else .error .sdpParse
    let command := dtlsGw ++ " ".toList ++ mode ++ " ".toList ++ strValue fingerprint
    match firstValue as "ssrc".toList with
    | none => return ⟨.dedtls, [command]⟩
    | some none => .error .attributeError
    | some (some v) =>
      match Text.wordsMax 1 v with
      | [] => .error .indexError
      | ssrc :: _ => return ⟨.dedtls, [command ++ " ".toList ++ ssrc]⟩
  | _, _ => .error .sdpParse

def candidate (v : Option Text) : Except Exn (Option Text) :=
  match v with
  | none => .error .attributeError
  | some cand =>
    let pts := Text.wordsMax 4 cand
    match pts[2]? with
    | none => .error .indexError
    | some transport =>
      if Text.lower transport ≠ "udp".toList then .ok none
      else match pts[4]? with
        | none => .error .indexError
        | some rest =>
          if Text.startsWith rest "192.".toList ∧ ¬ Text.startsWith rest "192.168.".toList then
            .ok none
          else .ok (some (iceLite ++ " C ".toList ++ cand))

def subcommandDeice (sect : SdpMediaDescription) : Except Exn Subcommand :=
  match lastValue sect.aHeaders "ice-ufrag".toList, lastValue sect.aHeaders "ice-pwd".toList with
  | some ufrag, some pwd => do
    let cands := sect.aHeaders.filter (·.name == "candidate".toList)
    let commands ← cands.mapM fun a => candidate a.value
    return ⟨.deice, (iceLite ++ " A ".toList ++ strValue ufrag ++ " ".toList ++ strValue pwd) ::
      commands.reduceOption⟩
  | _, _ => .error .sdpParse

/-- `handle_results`; the exception is one that is returned. -/
def Subcommand.handleResults (c : Subcommand) (results : List Text) : Except Exn Fin :=
  if results.length ≠ c.commands.length then .error .rtpProxy
  else match c.name with
    | .dtls =>
      match Text.wordsMax 1 (results.headD []) with
      | [mode, fingerprint] => .ok (.dtls mode fingerprint)
      | _ => .error .rtpProxy
    | .ice =>
      match Text.words (results.headD []) with
      | lufrag :: lpwd :: cand :: cands =>
        .ok (.ice lufrag lpwd ((cand :: cands).map fun r => SipURL.unquote (r.drop 2)))
      | _ => .error .rtpProxy
    | .dedtls => if results.any (· != "0".toList) then .error .rtpProxy else .ok .dedtls
    | .deice => if results.any (· != "0".toList) then .error .rtpProxy else .ok .deice

/-- `_sdp_attrs_rm`: what the section does not have is removed from the session part. -/
def sdpAttrsRm (names : List Text) (sdp : SdpBody) (sect : SdpMediaDescription) :
    SdpBody × SdpMediaDescription :=
  let removed := (sect.aHeaders.map AHeader.name).filter (· ∈ names)
  ({ sdp with aHeaders := sdp.aHeaders.filter fun a => a.name ∉ names ∨ a.name ∈ removed },
    { sect with aHeaders := sect.aHeaders.filter fun a => a.name ∉ names })

/-- The loop of `subcommand_deice.sdp_sect_fin` over the `ssrc` attributes: those that it
keeps, and the exception at one that has no attribute of its own. -/
def dropMsid : List AHeader → List AHeader × Option Exn
  | [] => ([], none)
  | a :: as =>
    if a.name ≠ "ssrc".toList then ((a :: (dropMsid as).1), (dropMsid as).2)
    else match a.value with
      | none => (a :: as, some .attributeError)
      | some v =>
        match Text.wordsMax 1 v with
        | [_, attr] =>
          let r := dropMsid as
          (if Text.startsWith (Text.lower attr) "msid:".toList then r.1 else a :: r.1, r.2)
        | _ => (a :: as, some .valueError)

/-- `sdp_sect_fin(sdp_bc, sect)`, as far as it gets. -/
def Fin.sdpSectFin (f : Fin) (sdp : SdpBody) (sect : SdpMediaDescription) :
    (SdpBody × SdpMediaDescription) × Option Exn :=
  match f with
  | .dtls mode fingerprint =>
    let r := sdpAttrsRm dtlsAttrsRm sdp sect
    ((r.1, r.2.addTexts ["setup:".toList ++ mode, "fingerprint:".toList ++ fingerprint]), none)
  | .dedtls =>
    let r := sdpAttrsRm dtlsAttrsRm sdp sect
    ((r.1, r.2.setTransport "RTP/AVP".toList), none)
  | .ice lufrag lpwd candidates =>
    let r := sdpAttrsRm iceAttrsRm sdp sect
    ((r.1, (r.2.addTexts (["rtcp-mux".toList, "ice-lite".toList, "ice-ufrag:".toList ++ lufrag,
      "ice-pwd:".toList ++ lpwd] ++ candidates.map ("candidate:".toList ++ ·))).setTransport
      "UDP/TLS/RTP/SAVP".toList), none)
  | .deice =>
    let r := sdpAttrsRm iceAttrsRm sdp sect
    let d := dropMsid r.2.aHeaders
    ((r.1, { r.2 with aHeaders := d.1 }), d.2)

end SippyB2bua.Rtpp
