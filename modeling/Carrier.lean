import Carrier.Common.IdsHeap
import Carrier.Core.FileRefs
import Carrier.Core.FileUnlinks
import Carrier.Core.FriendEvents
import Carrier.Core.Friends
import Carrier.Core.RemoteStrings
import Carrier.Session.Framing
import Carrier.Session.OptionNegotiation
import Carrier.Session.Pipeline
import Carrier.Session.StreamRefs
import Carrier.Session.ChannelLink
import Carrier.Session.ChannelLife
import Carrier.Session.PacketSafety
import Carrier.Session.SessionRequests
import Carrier.Session.ForwardingMux
import Carrier.Session.SocketDiscipline
import Carrier.Session.CloseOnce
import Carrier.Persistence.ConcurrentStore
import Carrier.Persistence.CrashSafety
import Carrier.Session.ReliableWrite
import Carrier.Session.KeepAlive
import Carrier.Session.ReliableClock
import Carrier.Session.CandidateLines
import Carrier.Core.FileControls
import Carrier.Core.FileChunks
import Carrier.Common.Iterators
import Carrier.Core.Enumerations
import Carrier.Core.InviteReplies
import Carrier.Common.TimerHeapPoll
import Carrier.Session.LocalSdp
import Carrier.Common.BitSearch
import Carrier.Common.BitsetCompare
import Carrier.Common.ListFind
import Carrier.Core.FileRejections
import Carrier.Core.FriendDescriptions
import Carrier.Core.SenderPaths
import Carrier.Persistence.LabelReads
import Carrier.Session.FlexBufferLaws
import Carrier.Core.RosterView
import Carrier.Session.FifoTape
import Carrier.Session.ReliableUptime
import Carrier.Session.TcpFormat
