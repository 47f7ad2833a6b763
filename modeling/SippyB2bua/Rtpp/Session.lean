import SippyB2bua.Lib.Run
import SippyB2bua.Lib.Sequencer
import SippyB2bua.Rtpp.Update

/-!
# Sessions of the RTP proxy

A session rewrites the addresses in the descriptions of both sides of a call. It asks the
RTP proxy for one media section at a time; the answer to the user agent that gave the body
follows when the last section has its result, or with the first result that is an error.
-/

namespace SippyB2bua.Rtpp
open Lib (Text Sequencer)
open Sdp

inductive SideName
  | caller | callee
  deriving DecidableEq, Repr

def SideName.other : SideName → SideName
  | .caller => .callee
  | .callee => .caller

inductive GatewayDtls
  | pass | dtls | rtp
  deriving DecidableEq, Repr

structure SideConf where
  raddress : Option Text
  laddress : Option Text
  repacketize : Option ℤ
  softRepacketize : Bool
  gatewayDtls : GatewayDtls
  deice : Bool
  needsNewPort : Bool
  deriving DecidableEq, Repr

structure OwnOrigin where
  sessionId : ℤ
  version : ℤ
  deriving DecidableEq, Repr

def OwnOrigin.getCopy (o : OwnOrigin) (myAddress : Text) : SdpOrigin :=
  ⟨"-".toList, .own o.sessionId, .own o.version, "IN".toList, "IP4".toList, myAddress⟩

/-- `_rtpps_side`. -/
structure Side where
  conf : SideConf
  sessionExists : Bool
  codecs : Option Text
  origin : OwnOrigin
  ohRemote : Option SdpOrigin
  deriving DecidableEq, Repr

/-- A command to the RTP proxy, in the parts of its text. -/
inductive Cmd
  | update (options session remoteIp : Text) (remotePort : ℤ) (fromTag : Text)
      (toTag : Option Text) (notify : Option (Text × Text × ℕ)) (subcommands : List Text)
  | delete (session fromTag toTag : Text)
  | other (text : Text)
  deriving DecidableEq, Repr

/-- A command and, if it is an update, what its result is for. -/
structure Command where
  cmd : Cmd
  cb : Option (SideName × UpdateParams)
  deriving DecidableEq, Repr

/-- What `result_callback` is called with. -/
inductive Answer
  | updated (b : MsgBody)
  | failed (e : Exn)
  deriving DecidableEq, Repr

/-- What happened to the bodies, which are numbered as they came. -/
inductive Note
  /-- How the call for a body ended, and the sections for which updates were sent. -/
  | change (k : ℕ) (sects : List ℕ) (ret : Except Exn (Option MsgBody))
  /-- The result for a section: an error of the proxy or of reading it, or none. -/
  | result (k sect : ℕ) (ex : Option Exn)
  | answered (k : ℕ) (a : Answer)

structure Session where
  client : Option Client
  seq : Sequencer Command
  callId : Text
  fromTag : Text
  toTag : Text
  caller : Side
  callee : Side
  maxIndex : ℤ
  notifySocket : Option Text
  notifyTag : Option Text
  mediaTimeoutIndex : Option ℤ
  insertNortpp : Bool
  myAddress : Text
  /-- `SdpOrigin._session_id`. -/
  originId : ℤ
  bodies : List MsgBody
  log : List Note

def supportedTrtypes : List Text :=
  ["rtp/avp", "rtp/savp", "rtp/savpf", "udp/tls/rtp/savp", "udp/tls/rtp/savpf", "udp", "udptl",
    "udp/bfcp"].map String.toList

def supportedSect (sect : SdpMediaDescription) : Bool :=
  sect.mHeader.any fun m => Text.lower m.transport ∈ supportedTrtypes

def sectsOf (b : SdpBody) : List ℕ :=
  (List.range b.sections.length).filter fun i => b.sections[i]?.any supportedSect

namespace Session

def side (s : Session) : SideName → Side
  | .caller => s.caller
  | .callee => s.callee

def setSide (s : Session) (n : SideName) (x : Side) : Session :=
  match n with
  | .caller => { s with caller := x }
  | .callee => { s with callee := x }

def note (s : Session) (n : Note) : Session := { s with log := s.log ++ [n] }

def setBody (s : Session) (k : ℕ) (b : MsgBody) : Session := { s with bodies := s.bodies.set k b }

/-- `'%s-%d' % (call_id, index)`. -/
def name (s : Session) (index : ℤ) : Text := s.callId ++ "-".toList ++ Text.ofInt index

def gettags (s : Session) : SideName → Text × Text
  | .caller => (s.fromTag, s.toTag)
  | .callee => (s.toTag, s.fromTag)

/-- The address that the proxy is to bind to. -/
def bindOption (rtpc : Client) (conf : SideConf) : Text :=
  if rtpc.sbindSupported then
    match conf.raddress, conf.laddress with
    | some host, _ => 'R' :: host
    | none, some host => if rtpc.isLocal then 'L' :: host else []
    | none, none => []
  else []

def updateCmd (s : Session) (rtpc : Client) (n : SideName) (up : UpdateParams) : Cmd :=
  let newPort := if (s.side n.other).conf.needsNewPort then ['N'] else []
  .update (up.options ++ bindOption rtpc (s.side n).conf ++ newPort) (s.name up.index)
    up.remoteIp up.remotePort (s.gettags n).1
    (if (s.side n.other).sessionExists then some (s.gettags n).2 else none)
    (match s.notifySocket, s.notifyTag with
      | some socket, some tag => if rtpc.tnotSupported then some (socket, tag, up.index) else none
      | _, _ => none)
    (up.subcommands.flatMap Subcommand.commands)

def update (s : Session) (n : SideName) (up : UpdateParams) : Session × Option Exn :=
  let s := { s with maxIndex := max s.maxIndex up.index }
  match s.client with
  | none => (s, some .attributeError)
  | some rtpc =>
    let other := s.side n.other
    let cmd := s.updateCmd rtpc n up
    let s := s.setSide n.other { other with conf := { other.conf with needsNewPort := false } }
    ({ s with seq := s.seq.sendCommand ⟨cmd, some (n, up)⟩ }, none)

/-- The subcommands for a section: those that the other side wants, then those of the own. -/
def subcommands (s : Session) (n : SideName) (b : SdpBody) (sect : SdpMediaDescription) :
    Except Exn (List Subcommand) := do
  let other := (s.side n.other).conf
  let own := (s.side n).conf
  let dtls := if other.gatewayDtls = .dtls then [subcommandDtls] else []
  let ice := if other.deice then [subcommandIce] else []
  let dedtls ←
    if own.gatewayDtls = .dtls ∧ sect.mHeader.any (fun m => m.transport ∈ dtlsTransports) then
      List.singleton <$> subcommandDedtls b sect
    else pure []
  let deice ← if own.deice then List.singleton <$> subcommandDeice sect else pure []
  return dtls ++ ice ++ dedtls ++ deice

/-- The parameters of the update for one of the sections. -/
def prepare (s : Session) (n : SideName) (k : ℕ) (b : SdpBody) (sects : List ℕ) (index i : ℕ) :
    Except Exn UpdateParams :=
  match b.sections[i]? with
  | none => .error .indexError
  | some sect =>
    match sect.cHeader, sect.mHeader with
    | some c, some m => do
      let conf := (s.side n).conf
      let z := match conf.repacketize with
        | some r => if conf.softRepacketize then [] else 'z' :: Text.ofInt r
        | none => []
      return {
        remoteIp := c.addr, remotePort := m.port, atype := c.atype
        options := (if c.atype = "IP6".toList then ['6'] else []) ++ z
        index := index, subcommands := ← s.subcommands n b sect
        body := k, sect := i, sects := sects }
    | _, _ => .error .attributeError

/-- The loop over the sections; the first exception ends it. The third component tells
the sections for which updates were sent. -/
def updateAll (n : SideName) (k : ℕ) (b : SdpBody) (sects : List ℕ) :
    Session → List (ℕ × ℕ) → Session × Option Exn × List ℕ
  | s, [] => (s, none, [])
  | s, (i, index) :: rest =>
    match s.prepare n k b sects index i with
    | .error e => (s, some e, [])
    | .ok up =>
      match s.update n up with
      | (s, some e) => (s, some e, [])
      | (s, none) =>
        let r := updateAll n k b sects s rest
        (r.1, r.2.1, i :: r.2.2)

/-- `_rtpps_side._on_sdp_change`. The body is one that the session has not seen before. -/
def _onSdpChange (mixed : Text → Except Exn Unit) (s : Session) (n : SideName) (body : MsgBody) :
    Session × List ℕ × Except Exn (Option MsgBody) :=
  let k := s.bodies.length
  match body.parse mixed with
  | .error _ => ({ s with bodies := s.bodies ++ [body] }, [], .error .sdpParse)
  | .ok body =>
    match body.content with
    | .text _ =>
      let body := { body with needsUpdate := false }
      ({ s with bodies := s.bodies ++ [body] }, [], .ok (some body))
    | .mixed => ({ s with bodies := s.bodies ++ [body] }, [], .error .attributeError)
    | .sdp b =>
      if b.sections.any (·.mHeader.isNone) then
        ({ s with bodies := s.bodies ++ [body] }, [], .error .attributeError)
      else match sectsOf b with
        | [] =>
          let body := { body with needsUpdate := false }
          ({ s with bodies := s.bodies ++ [body] }, [], .ok (some body))
        | i :: is =>
          let s := { s with bodies := s.bodies ++ [body] }
          let formats := (b.sections[i]?.bind (·.mHeader)).elim [] fun m => m.formats.texts
          let s := s.setSide n { s.side n with codecs := some (",".toList.intercalate formats) }
          let r := updateAll n k b (i :: is) s (i :: is).zipIdx
          (r.1, r.2.2, r.2.1.elim (.ok none) .error)

/-- `on_caller_sdp_change` and `on_callee_sdp_change`: what the side returns is not returned. -/
def onSdpChange (mixed : Text → Except Exn Unit) (s : Session) (n : SideName) (body : MsgBody) :
    Session × List ℕ × Except Exn (Option MsgBody) :=
  let r := s._onSdpChange mixed n body
  (r.1, r.2.1, r.2.2.map fun _ => none)

end Session

/-- The functions that the results left behind, as far as they get. -/
def sdpSectFins : List Fin → SdpBody → SdpMediaDescription →
    (SdpBody × SdpMediaDescription) × Option Exn
  | [], b, sect => ((b, sect), none)
  | f :: fs, b, sect =>
    match f.sdpSectFin b sect with
    | (r, some e) => (r, some e)
    | (r, none) => sdpSectFins fs r.1 r.2

/-- `sect.c_header` and `sect.m_header` get the address of the proxy. -/
def setAddress (ur : UpdateResult) (sect : SdpMediaDescription) : Option SdpMediaDescription :=
  match sect.cHeader, sect.mHeader with
  | some c, some m => some { sect with
      cHeader := some { c with atype := ur.family, addr := ur.rtpproxyAddress }
      mHeader := some { m with port := if m.port = 0 then 0 else ur.rtpproxyPort } }
  | _, _ => none

def setSendonly (ur : UpdateResult) (as : List AHeader) : List AHeader :=
  if ur.sendonly then
    let as := as.filter (·.name != "sendrecv".toList)
    if as.any (·.name == "sendonly".toList) then as else as ++ [.ofText "sendonly".toList]
  else as

/-- The loop that removes `ptime`, and where the new one is to be inserted. -/
def dropPtime (as : List AHeader) : List AHeader × ℤ :=
  as.foldl (fun r a =>
    if a.name = "ptime".toList then (r.1, r.1.length)
    else (r.1 ++ [a], if r.2 = -1 ∧ a.name = "fmtp".toList then r.1.length + 1 else r.2)) ([], -1)

/-- `list.insert(i, a)`. -/
def insertAt (i : ℤ) (a : AHeader) (as : List AHeader) : List AHeader :=
  let n := if i < 0 then (as.length + i).toNat else min i.toNat as.length
  as.take n ++ a :: as.drop n

def setRtcp (ur : UpdateResult) (as : List AHeader) : List AHeader :=
  as.map fun a =>
    if a.name = "rtcp".toList then
      { a with value := some (Text.ofInt (ur.rtpproxyPort + 1) ++ " IN ".toList ++ ur.family ++
          " ".toList ++ ur.rtpproxyAddress) }
    else a

/-- `_sdp_change_finish` on the section. -/
def finishSect (conf : SideConf) (ur : UpdateResult) (b : SdpBody) (sect : SdpMediaDescription) :
    (SdpBody × SdpMediaDescription) × Option Exn :=
  match sdpSectFins ur.sdpSectFins b { sect with needsUpdate := false } with
  | (r, some e) => (r, some e)
  | ((b, sect), none) =>
    match setAddress ur sect with
    | none => ((b, sect), some .attributeError)
    | some sect =>
      let sect := { sect with aHeaders := setSendonly ur sect.aHeaders }
      if conf.softRepacketize ∨ conf.repacketize.isSome then
        let p := dropPtime sect.aHeaders
        match conf.repacketize with
        | none => ((b, { sect with aHeaders := p.1 }), some .typeError)
        | some r =>
          let as := insertAt p.2 (.ofText ("ptime:".toList ++ Text.ofInt r)) p.1
          ((b, { sect with aHeaders := setRtcp ur as }), none)
      else ((b, { sect with aHeaders := setRtcp ur sect.aHeaders }), none)

namespace Session

/-- The origin line becomes our own, which changes as the one of the other end does. -/
def setOrigin (s : Session) (n : SideName) (b : SdpBody) (o : SdpOrigin) : Session × SdpBody :=
  let x := s.side n
  let new : OwnOrigin × ℤ := match x.ohRemote with
    | none => (x.origin, s.originId)
    | some oh =>
      if oh.sessionId ≠ o.sessionId then (⟨s.originId, s.originId⟩, s.originId + 1)
      else if oh.version ≠ o.version then
        ({ x.origin with version := x.origin.version + 1 }, s.originId)
      else (x.origin, s.originId)
  let s := { s with originId := new.2 }
  (s.setSide n { x with origin := new.1, ohRemote := some o },
    { b with oHeader := some (new.1.getCopy s.myAddress) })

/-- The end of `_sdp_change_finish`, when all sections are updated. -/
def complete (s : Session) (n : SideName) (k : ℕ) (body : MsgBody) (b : SdpBody) :
    Session × Option Exn :=
  match b.oHeader with
  | none => (s, some .attributeError)
  | some o =>
    let r := s.setOrigin n b o
    let b := if s.insertNortpp then r.2.addAttribute (.ofText "nortpproxy:yes".toList) else r.2
    let body := { body with content := .sdp b, needsUpdate := false }
    ((r.1.setBody k body).note (.answered k (.updated body)), none)

def sdpChangeFinish (s : Session) (n : SideName) (up : UpdateParams)
    (r : Except Exn UpdateResult) : Session × Option Exn :=
  match s.bodies[up.body]? with
  | none => (s, some .indexError)
  | some body =>
    if body.needsUpdate = false then (s, none)
    else match body.content with
      | .sdp b =>
        match b.sections[up.sect]? with
        | none => (s, some .indexError)
        | some sect =>
          match r with
          | .error e =>
            let sections := b.sections.set up.sect { sect with needsUpdate := false }
            let body := { body with content := .sdp { b with sections := sections }, needsUpdate := false }
            ((s.setBody up.body body).note (.answered up.body (.failed e)), none)
          | .ok ur =>
            let f := finishSect (s.side n).conf ur b sect
            let b := { f.1.1 with sections := b.sections.set up.sect f.1.2 }
            let body := { body with content := .sdp b }
            let s := s.setBody up.body body
            if f.2.isSome then (s, f.2)
            else if up.sects.any fun i => b.sections[i]?.any (·.needsUpdate) then (s, none)
            else s.complete n up.body body b
      | _ => (s, some .attributeError)

def updateResult (s : Session) (n : SideName) (up : UpdateParams) (result : Option Text) :
    Session × Option Exn :=
  let s := s.setSide n { s.side n with sessionExists := true }
  match up.processRtppResult s.client result with
  | .error e => (s.note (.result up.body up.sect (some e)), some e)
  | .ok (.error e) =>
    (s.note (.result up.body up.sect (some e))).sdpChangeFinish n up (.error e)
  | .ok (.ok ur) => (s.note (.result up.body up.sect none)).sdpChangeFinish n up (.ok ur)

def result (s : Session) (r : Option Text) : Session × Option Exn :=
  match s.seq.inflight with
  | none => (s, none)
  | some c =>
    let s := { s with seq := s.seq.next }
    match c.cb with
    | none => (s, none)
    | some (n, up) => s.updateResult n up r

def delete (s : Session) : Session :=
  if s.client.isNone then s
  else
    let indexes := ((List.range (s.maxIndex + 1).toNat).reverse.map Int.ofNat).filter fun i =>
      s.mediaTimeoutIndex != some i
    let seq := indexes.foldl (fun q i =>
      q.sendCommand ⟨.delete (s.name i) s.fromTag s.toTag, none⟩) s.seq
    { s with maxIndex := min s.maxIndex (-1), client := none, seq := seq.delete }

end Session

inductive Label
  | change (n : SideName) (body : MsgBody)
  | result (r : Option Text)
  /-- Another command than an update. -/
  | send (text : Text)
  | configure (n : SideName) (conf : SideConf)
  | client (rtpc : Client)
  | delete
  /-- The sequencer was deleted while a command was in flight and has returned from the
  callback for its result. -/
  | deleted

def Session.step (mixed : Text → Except Exn Unit) (s : Session) : Label → Session
  | .change n body =>
    let r := s.onSdpChange mixed n body
    r.1.note (.change s.bodies.length r.2.1 r.2.2)
  | .result r => (s.result r).1
  | .send text => { s with seq := s.seq.sendCommand ⟨.other text, none⟩ }
  | .configure n conf => s.setSide n { s.side n with conf := conf }
  | .client rtpc => { s with client := s.client.map fun _ => rtpc }
  | .delete => s.delete
  | .deleted => if s.seq.deleted then { s with seq := s.seq.delete } else s

/-- A new session. -/
structure Session.Fresh (s : Session) : Prop where
  client : s.client.isSome
  seq : s.seq = .empty
  bodies : s.bodies = []
  log : s.log = []

/-- A session as `__init__` leaves it. -/
def Session.new (rtpc : Client) : Session where
  client := some rtpc
  seq := .empty
  callId := "c".toList
  fromTag := "f".toList
  toTag := "t".toList
  caller := ⟨⟨none, none, none, false, .pass, false, false⟩, false, none, ⟨1, 1⟩, none⟩
  callee := ⟨⟨none, none, none, false, .pass, false, false⟩, false, none, ⟨2, 2⟩, none⟩
  maxIndex := -1
  notifySocket := none
  notifyTag := none
  mediaTimeoutIndex := none
  insertNortpp := false
  myAddress := "1.1.1.1".toList
  originId := 3
  bodies := []
  log := []

theorem Session.new_fresh (rtpc : Client) : (Session.new rtpc).Fresh := ⟨rfl, rfl, rfl, rfl⟩

def localClient : Client := ⟨true, true, true, "2.2.2.2".toList⟩

end SippyB2bua.Rtpp
