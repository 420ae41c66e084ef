import Tahi.Cm.BtList
import Tahi.Cm.BtListArray
import Tahi.Cm.BtSet
import Tahi.Cm.BtSetCount
import Tahi.Cm.BtSetVirtual
import Tahi.Cm.CmDispatch
import Tahi.Cm.CmMatch
import Tahi.Cm.CmMatchFind
import Tahi.Cm.CmSet
import Tahi.Cm.CmSockAddr
import Tahi.Cm.CmStream
import Tahi.Cm.TimerQueue
import Tahi.Dns.KDns
import Tahi.Dns.KDnsAddress
import Tahi.Dns.KDnsBounds
import Tahi.Dns.KDnsName
import Tahi.Dns.KDnsRdata
import Tahi.Dns.RdataRoundTrip
import Tahi.General.Assignment
import Tahi.General.Base128
import Tahi.General.BitField
import Tahi.General.Cbc
import Tahi.General.CircularQueue
import Tahi.General.CounterMode
import Tahi.General.Decimal
import Tahi.General.Der
import Tahi.General.Fields
import Tahi.General.FirstFit
import Tahi.General.Framing
import Tahi.General.FuelLoop
import Tahi.General.GapBuffer
import Tahi.General.GreedyMatching
import Tahi.General.LinearProbing
import Tahi.General.LinkedList
import Tahi.General.MarkedLists
import Tahi.General.Nibbles
import Tahi.General.OnesComplement
import Tahi.General.PerlHex
import Tahi.General.PerlQuote
import Tahi.General.PerlString
import Tahi.General.PointerChase
import Tahi.General.RadixTree
import Tahi.General.RecordLayout
import Tahi.General.Refinement
import Tahi.General.RoundUp
import Tahi.General.Slices
import Tahi.General.SourceRoute
import Tahi.General.Tiling
import Tahi.General.TracedMemory
import Tahi.General.TracedOctets
import Tahi.General.Xcbc
import Tahi.Ike.CbcPadding
import Tahi.Ike.GenExplicit
import Tahi.Ike.GenLengths
import Tahi.Ike.KConsts
import Tahi.Ike.KDec
import Tahi.Ike.KEncryptionMaterial
import Tahi.Ike.KGen
import Tahi.Ike.KGenSA
import Tahi.Ike.KIKE
import Tahi.Ike.KJudge
import Tahi.Ike.KJudgeCompare
import Tahi.Ike.KJudgeElements
import Tahi.Ike.KJudgeProposals
import Tahi.Ike.KJudgeSubstructures
import Tahi.Ike.KKeyStream
import Tahi.Ike.ParseTermination
import Tahi.Ike.PayloadPlaces
import Tahi.Ike.SAAttributes
import Tahi.Ike.SARoundTrip
import Tahi.Kink.Cutting
import Tahi.Kink.DecTermination
import Tahi.Kink.DecTurns
import Tahi.Kink.ISAKMP
import Tahi.Kink.ISAKMPEncode
import Tahi.Kink.KDec
import Tahi.Kink.KEnc
import Tahi.Kink.KUtil
import Tahi.Kink.Kerberos
import Tahi.Kink.KerberosRoundTrip
import Tahi.Kink.KrbErrorDer
import Tahi.Kink.Message
import Tahi.Kink.MessageCutting
import Tahi.Kink.QuickMode
import Tahi.Kink.QuickModeRoundTrip
import Tahi.Koi.CommandAcks
import Tahi.Koi.IcmpSend
import Tahi.Koi.KAesCtr
import Tahi.Koi.KBuffer
import Tahi.Koi.KData
import Tahi.Koi.KDataInbox
import Tahi.Koi.KDataLog
import Tahi.Koi.KDispatcher
import Tahi.Koi.KDispatcherCommand
import Tahi.Koi.KDispatcherRequest
import Tahi.Koi.KMakeData
import Tahi.Koi.KPacket
import Tahi.Koi.KRecvTimeoutTimer
import Tahi.Koi.KRecvTimerAcks
import Tahi.Koi.KSocket
import Tahi.Koi.KSocketAnswers
import Tahi.Koi.KSocketCandidates
import Tahi.Koi.KSocketClose
import Tahi.Koi.KSocketCloseTimer
import Tahi.Koi.KSocketCreation
import Tahi.Koi.KSocketFamily
import Tahi.Koi.KSocketOpen
import Tahi.Koi.KSocketReuse
import Tahi.Koi.KSocketSend
import Tahi.Koi.KSocketSendCalls
import Tahi.Koi.PKTSendCMD
import Tahi.Koi.RequestAgreement
import Tahi.Koi.SockinfoAck
import Tahi.Koi.SockinfoAckRuns
import Tahi.Koi.UnixdCommands
import Tahi.Koi.UnixdStream
import Tahi.Pkt.BpfAgent
import Tahi.Pkt.BpfAgentFailures
import Tahi.Pkt.Ringbuf
import Tahi.Pz.CountMgr
import Tahi.Pz.DnsMessage
import Tahi.Pz.EspLengths
import Tahi.Pz.EspTrailer
import Tahi.Pz.EvaluateMatches
import Tahi.Pz.ExtentTermination
import Tahi.Pz.GeneratedLength
import Tahi.Pz.IPinfo
import Tahi.Pz.IcvOverwrite
import Tahi.Pz.ItPosition
import Tahi.Pz.ItPositionRuns
import Tahi.Pz.McDNS
import Tahi.Pz.McDNSEntries
import Tahi.Pz.McDNSFields
import Tahi.Pz.McDNSHistory
import Tahi.Pz.McDNSName
import Tahi.Pz.McDNSQuiet
import Tahi.Pz.McDNSSections
import Tahi.Pz.McDNSTxt
import Tahi.Pz.McESP
import Tahi.Pz.McHdrExt
import Tahi.Pz.McLayout
import Tahi.Pz.McObject
import Tahi.Pz.McObjectReverse
import Tahi.Pz.McOption
import Tahi.Pz.MfAesCtr
import Tahi.Pz.MfAesXcbc
import Tahi.Pz.MfAlgorithm
import Tahi.Pz.MmChecksum
import Tahi.Pz.MmHeader
import Tahi.Pz.MvDnsName
import Tahi.Pz.MvHexStr
import Tahi.Pz.MvObjectID
import Tahi.Pz.MvSubstr
import Tahi.Pz.OptionProgress
import Tahi.Pz.OptionTermination
import Tahi.Pz.PAlgorithm
import Tahi.Pz.PrologueTiles
import Tahi.Pz.PseudoHeader
import Tahi.Pz.PvNumber
import Tahi.Pz.PvObjectID
import Tahi.Pz.PvOctets
import Tahi.Pz.PvOctetsChunk
import Tahi.Pz.PvOctetsCopy
import Tahi.Pz.PvOctetsEncode
import Tahi.Pz.PvOctetsField
import Tahi.Pz.PvOctetsUint
import Tahi.Pz.PvV6Addr
import Tahi.Pz.RControl
import Tahi.Pz.TObject
import Tahi.Pz.TObjectFrame
import Tahi.Pz.WtNode
import Tahi.Pz.WvComb
import Tahi.Tg.AcceptReports
import Tahi.Tg.AgntAside
import Tahi.Tg.CommandAnswers
import Tahi.Tg.EndOfFile
import Tahi.Tg.LatestOpen
import Tahi.Tg.ListenFirst
import Tahi.Tg.RecvEffect
import Tahi.Tg.SyncBarrier
import Tahi.Tg.SyncMoves
import Tahi.Tg.SyncOnce
import Tahi.Tg.SyncRuns
import Tahi.Tg.TcSocket
import Tahi.Tg.TcUDPSocket
import Tahi.Tg.TeServer
import Tahi.Tg.TgAgntCtrl
import Tahi.Tg.TgFrame
import Tahi.Tg.TgReqElm
import Tahi.Tg.TgReqFind
import Tahi.Tg.TgServer
import Tahi.Tg.TgSession
import Tahi.Tg.TgStmtConnect
import Tahi.Tg.TgSyncEvent
import Tahi.Tg.ThreadOrder
import Tahi.Tg.Turnaround
