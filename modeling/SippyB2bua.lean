import SippyB2bua.Lib.Run
import SippyB2bua.Lib.Dict
import SippyB2bua.Lib.Timer
import SippyB2bua.Lib.Text
import SippyB2bua.Lib.Lines
import SippyB2bua.Via
import SippyB2bua.Message
import SippyB2bua.SipURL
import SippyB2bua.Manager.State
import SippyB2bua.Manager.Server
import SippyB2bua.Manager.Client
import SippyB2bua.Manager.Step
import SippyB2bua.Manager.ReplyAddress
import SippyB2bua.Manager.ServerMoves
import SippyB2bua.Manager.FinalResponse
import SippyB2bua.Manager.ServerTable
import SippyB2bua.Manager.ClientMoves
import SippyB2bua.Manager.ClientProtocol
import SippyB2bua.Manager.ClientTimers
import SippyB2bua.Manager.DeferredAck
import SippyB2bua.Manager.Retransmission
import SippyB2bua.Manager.ParseError
import SippyB2bua.Lib.Prog
import SippyB2bua.Lib.Alarm
import SippyB2bua.Ua.Event
import SippyB2bua.Ua.State
import SippyB2bua.Ua.Uas
import SippyB2bua.Ua.Uac
import SippyB2bua.Ua.Connected
import SippyB2bua.Ua.Machine
import SippyB2bua.Ua.Effect
import SippyB2bua.Ua.Handlers
import SippyB2bua.Ua.Closed
import SippyB2bua.Ua.Method
import SippyB2bua.Ua.Step
import SippyB2bua.Ua.Answer
import SippyB2bua.Ua.Terminated
import SippyB2bua.Ua.Challenge
import SippyB2bua.Ua.Reinvite
import SippyB2bua.Ua.Meter
import SippyB2bua.Ua.Tick
import SippyB2bua.Ua.Turn
import SippyB2bua.Ua.Bill
import SippyB2bua.Ua.Hangup
import SippyB2bua.Ua.Credit
import SippyB2bua.Ua.Bye
import SippyB2bua.Ua.SetupTimers
import SippyB2bua.Radius.Client
import SippyB2bua.Lib.Words
import SippyB2bua.Sdp
import SippyB2bua.Rtpp.Subcommand
import SippyB2bua.Rtpp.Update
import SippyB2bua.Security.Digest
import SippyB2bua.Ua.RouteSet
import SippyB2bua.Radius.Accounting
import SippyB2bua.Lib.Sequencer
import SippyB2bua.Rtpp.Answered
import SippyB2bua.Radius.Command
import SippyB2bua.Rtpp.CmdSequencer
import SippyB2bua.Rtpp.UdpClient
import SippyB2bua.Manager.CancelMatch
import SippyB2bua.Manager.DeferredCancel
import SippyB2bua.Lib.Breaks
import SippyB2bua.Lib.Letters
import SippyB2bua.Lib.Trim
import SippyB2bua.Wire.Compact
import SippyB2bua.Wire.ContentType
import SippyB2bua.Wire.Lines
import SippyB2bua.Wire.RoundTrip
import SippyB2bua.Lib.Pieces
import SippyB2bua.Wire.Multipart
import SippyB2bua.Wire.AddressList
import SippyB2bua.Wire.Octets
import SippyB2bua.B2B.Hunting
import SippyB2bua.Ua.KeepAlive
import SippyB2bua.Security.DigestHeaders
import SippyB2bua.Security.Verification
import SippyB2bua.Security.AnswerText
import SippyB2bua.Security.ChallengeText
import SippyB2bua.Address.HeaderParams
import SippyB2bua.Address.NameAddr
import SippyB2bua.Wire.TransactionId
import SippyB2bua.Address.LocalStr
import SippyB2bua.Lib.Template
import SippyB2bua.SdpText
import SippyB2bua.Security.SentRequest
import SippyB2bua.Rtpp.Media
import SippyB2bua.Rtpp.RtpProxyCmd
import SippyB2bua.B2B.FilterSdp
import SippyB2bua.Rtpp.Gateway
import SippyB2bua.Lib.Tidy
import SippyB2bua.SdpLines
import SippyB2bua.SdpRoundTrip
import SippyB2bua.Rtpp.Rewritten
import SippyB2bua.SdpKept
import SippyB2bua.B2B.PassHeaders
import SippyB2bua.B2B.Prepaid
import SippyB2bua.Radius.Places
import SippyB2bua.B2B.Abandoned
import SippyB2bua.Ua.Updating
import SippyB2bua.B2B.CallController
import SippyB2bua.B2B.CallLegs
import SippyB2bua.B2B.Glare
import SippyB2bua.Ua.Lifetime
import SippyB2bua.B2B.CallMap
import SippyB2bua.Ua.Registration
import SippyB2bua.B2B.CallSetup
import SippyB2bua.Rtpp.Retries
import SippyB2bua.Wire.SipReason
import SippyB2bua.Rtp.EPoint
import SippyB2bua.Rtpp.HealthCheck
import SippyB2bua.Lib.Ledger
import SippyB2bua.Rtpp.Teardown
import SippyB2bua.Rtp.OutputWorker
import SippyB2bua.Core.EventDispatcher
