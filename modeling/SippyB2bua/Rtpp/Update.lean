import SippyB2bua.Rtpp.Subcommand

/-!
# Results of an update

`update_params` keeps what an update of one media section was asked for, and reads the
text that the RTP proxy answers: an error, or the port and the address to write into the
section, together with the results of the subcommands.
-/

namespace SippyB2bua.Rtpp
open Lib (Text)
open Sdp

/-- `Rtp_proxy_client`, as far as a session reads it. -/
structure Client where
  sbindSupported : Bool
  tnotSupported : Bool
  isLocal : Bool
  proxyAddress : Text
  deriving DecidableEq, Repr

/-- `update_params`, with the arguments that the result callback is bound to: the number
of the body, that of the section and those of all sections that are updated. -/
structure UpdateParams where
  remoteIp : Text
  remotePort : ℤ
  atype : Text
  options : Text
  index : ℕ
  subcommands : List Subcommand
  body : ℕ
  sect : ℕ
  sects : List ℕ
  deriving DecidableEq, Repr

structure UpdateResult where
  rtpproxyAddress : Text
  rtpproxyPort : ℤ
  family : Text
  sendonly : Bool
  sdpSectFins : List Fin
  deriving DecidableEq, Repr

/-- The subcommands' results: those that are missing are zeros. -/
def handleAll : List Subcommand → List Text → Except Exn (List Fin)
  | [], _ => .ok []
  | c :: cs, ress => do
    let f ← c.handleResults (ress.take c.commands.length)
    let rest := ress.drop c.commands.length
    if rest = [] then return [f] else return f :: (← handleAll cs rest)

/-- The results of all subcommands; the exception is handed to the callback. -/
def UpdateParams.subResults (up : UpdateParams) (tail : Option Text) : Except Exn (List Fin) :=
  if up.subcommands = [] then .ok []
  else
    let ress := tail.elim [] fun t => (Text.pieces "&&".toList t).map Text.strip
    let expected := (up.subcommands.map fun c => c.commands.length).sum
    if ress.length > expected then .error .rtpProxy
    else if ress.getLast? = some "-1".toList then .error .rtpProxy
    else handleAll up.subcommands (ress ++ List.replicate (expected - ress.length) "0".toList)

def UpdateParams.address (client : Option Client) : List Text → Except Exn (Text × Text)
  | _ :: addr :: ['6'] :: _ => .ok ("IP6".toList, addr)
  | _ :: addr :: _ => .ok ("IP4".toList, addr)
  | _ => (client.map Client.proxyAddress).elim (.error .attributeError) fun a =>
    .ok ("IP4".toList, a)

def UpdateParams.onHold (up : UpdateParams) : Bool :=
  (up.atype == "IP4".toList && up.remoteIp == "0.0.0.0".toList) ||
    (up.atype == "IP6".toList && up.remoteIp == "::".toList)

/-- `process_rtpp_result`: the exception it raises, or what it calls the callback with,
which is the result or `None` and an exception. -/
def UpdateParams.processRtppResult (up : UpdateParams) (client : Option Client)
    (result : Option Text) : Except Exn (Except Exn UpdateResult) :=
  match result with
  | none => .ok (.error .rtpProxy)
  | some result =>
    let t0 := Text.pieces1 "&&".toList (Text.rstrip result)
    let t1 := Text.words t0.1
    match t1 with
    | [] => .error .indexError
    | port :: _ =>
      if port.head? = some 'E' then .ok (.error .rtpProxy)
      else match up.subResults t0.2 with
        | .error e => .ok (.error e)
        | .ok fins =>
          match Text.int port with
          | none => .error .valueError
          | some port =>
            if port = 0 then .ok (.error .rtpProxy)
            else do
              let (family, addr) ← UpdateParams.address client t1
              return .ok ⟨addr, port, family, up.onHold, fins⟩

end SippyB2bua.Rtpp
