import Carrier.Common.Bitset
import Carrier.Session.TcpFifo

/-! The pseudo-TCP sockets of `pseudotcp.c`, over which the reliable streams run. A `guint32` is a
`BitVec 32` and wraps around; a `gsize` is a natural number. `none` is an assertion that fails, a freed
segment that is used, or a value that C leaves undefined. -/
namespace Carrier.Session
open Carrier.Common Carrier.Lib

/-- The `PACKET_MAXIMUMS`: standard MTUs, down to the end of the list. -/
def PACKET_MAXIMUMS : List ℕ := [65535, 32000, 17914, 8166, 4352, 2002, 1492, 1006, 508, 296, 0]

def DEF_MTU : BitVec 32 := 1400

def MAX_PACKET : ℕ := 65532

def MIN_PACKET : BitVec 32 := 296

def HEADER_SIZE : ℕ := 24

/-- `PACKET_OVERHEAD`: the header, and those of UDP, IP and Jingle. -/
def PACKET_OVERHEAD : BitVec 32 := 24 + 8 + 20 + 64

def MIN_RTO : BitVec 32 := 1000

def DEF_RTO : BitVec 32 := 1000

def MAX_RTO : BitVec 32 := 60000

def DEFAULT_TIMEOUT : BitVec 32 := 4000

def CLOSED_TIMEOUT : BitVec 32 := 60 * 1000

def TIME_WAIT_TIMEOUT : BitVec 32 := 1

def DEFAULT_ACK_DELAY : BitVec 32 := 100

def DEFAULT_RCV_BUF_SIZE : BitVec 32 := 60 * 1024

def DEFAULT_SND_BUF_SIZE : BitVec 32 := 90 * 1024

def TCP_OPT_EOL : UInt8 := 0

def TCP_OPT_NOOP : UInt8 := 1

def TCP_OPT_WND_SCALE : UInt8 := 3

def TCP_OPT_FIN_ACK : UInt8 := 254

def FLAG_NONE : UInt8 := 0

def FLAG_FIN : UInt8 := 1

def FLAG_CTL : UInt8 := 2

def FLAG_RST : UInt8 := 4

def CTL_CONNECT : UInt8 := 0

def Larger (a b : BitVec 32) : Prop := a - b - 1 < 0x7FFFFFFF

def LargerOrEqual (a b : BitVec 32) : Prop := a - b < 0x7FFFFFFF

def Smaller (a b : BitVec 32) : Prop := Larger b a

def SmallerOrEqual (a b : BitVec 32) : Prop := LargerOrEqual b a

instance (a b : BitVec 32) : Decidable (Larger a b) := inferInstanceAs (Decidable (_ < _))

instance (a b : BitVec 32) : Decidable (LargerOrEqual a b) := inferInstanceAs (Decidable (_ < _))

instance (a b : BitVec 32) : Decidable (Smaller a b) := inferInstanceAs (Decidable (Larger b a))

instance (a b : BitVec 32) : Decidable (SmallerOrEqual a b) :=
  inferInstanceAs (Decidable (LargerOrEqual b a))

/-- The macro `min`. -/
def minOf (a b : BitVec 32) : BitVec 32 := if a < b then a else b

/-- The macro `max`. -/
def maxOf (a b : BitVec 32) : BitVec 32 := if b < a then a else b

def bound (lower middle upper : BitVec 32) : BitVec 32 := minOf (maxOf lower middle) upper

def timeIsBetween (later middle earlier : BitVec 32) : Bool :=
  if earlier ≤ later then earlier ≤ middle ∧ middle ≤ later
  else ¬(later < middle ∧ middle < earlier)

/-- `time_diff`. The `long` values fit in a `gint32` but for one, which is as far ahead as behind. -/
def timeDiff (later earlier : BitVec 32) : ℤ :=
  if timeIsBetween (earlier + 0x80000000) later earlier then
    if earlier ≤ later then ((later - earlier).toNat : ℤ).bmod (2 ^ 32)
    else ((later + (0xFFFFFFFF - earlier) + 1).toNat : ℤ).bmod (2 ^ 32)
  else
    if later ≤ earlier then (-((earlier - later).toNat : ℤ)).bmod (2 ^ 32)
    else (-((earlier + (0xFFFFFFFF - later) + 1).toNat : ℤ)).bmod (2 ^ 32)

/-- `PseudoTcpState` -/
inductive PseudoTcpState where
  | listen
  | synSent
  | synReceived
  | established
  | closed
  | finWait1
  | finWait2
  | closing
  | timeWait
  | closeWait
  | lastAck
  deriving DecidableEq

namespace PseudoTcpState

def hasSentFin : PseudoTcpState → Bool
  | .listen | .synSent | .synReceived | .established | .closeWait => false
  | .closed | .finWait1 | .finWait2 | .closing | .timeWait | .lastAck => true

def hasReceivedFin : PseudoTcpState → Bool
  | .listen | .synSent | .synReceived | .established | .finWait1 | .finWait2 => false
  | .closed | .closing | .timeWait | .closeWait | .lastAck => true

def hasReceivedFinAck : PseudoTcpState → Bool
  | .closed | .timeWait => true
  | _ => false

/-- The transitions that `set_state` accepts. -/
def transition : PseudoTcpState → PseudoTcpState → Bool
  | .closed, .synSent | .synSent, .closed | .closed, .listen | .listen, .closed
  | .listen, .synSent | .listen, .synReceived | .synSent, .synReceived
  | .synReceived, .established | .synSent, .established | .synReceived, .finWait1
  | .established, .finWait1 | .established, .closeWait | .finWait1, .finWait2
  | .finWait1, .closing | .closeWait, .lastAck | .finWait2, .timeWait
  | .closing, .timeWait | .lastAck, .closed | .timeWait, .closed
  | .synReceived, .listen | .finWait1, .timeWait => true
  | _, _ => false

end PseudoTcpState

/-- The error numbers of a socket; `.ok` is zero. -/
inductive SocketError where
  | ok
  | EINVAL
  | EMSGSIZE
  | EWOULDBLOCK
  | ENOTCONN
  | EPIPE
  | ECONNABORTED
  | ECONNRESET
  | ETIMEDOUT
  deriving DecidableEq

/-- `PseudoTcpWriteResult` -/
inductive WriteResult where
  | success
  | tooLarge
  | fail
  deriving DecidableEq

/-- `Shutdown` -/
inductive Shutdown where
  | none
  | graceful
  | forceful
  deriving DecidableEq

/-- `PseudoTcpShutdown` -/
inductive PseudoTcpShutdown where
  | rd
  | wr
  | rdwr
  deriving DecidableEq

/-- `SendFlags` -/
inductive SendFlags where
  | none
  | delayedAck
  | immediateAck
  | fin
  | rst
  | duplicateAck
  deriving DecidableEq

/-- `ClosedownSource` -/
inductive ClosedownSource where
  | locally
  | remotely
  deriving DecidableEq

/-- `Segment`. Its length is the one of its data. -/
structure Segment where
  conv : BitVec 32
  seq : BitVec 32
  ack : BitVec 32
  flags : UInt8
  wnd : BitVec 16
  data : Bytes
  tsval : BitVec 32
  tsecr : BitVec 32
  deriving DecidableEq

def Segment.len (g : Segment) : BitVec 32 := BitVec.ofNat 32 g.data.length

def Segment.has (g : Segment) (flag : UInt8) : Bool := g.flags &&& flag ≠ 0

/-- The packet of a segment, as `packet` lays it out. -/
def Segment.encode (g : Segment) : Bytes :=
  toBE 4 g.conv.toNat ++ toBE 4 g.seq.toNat ++ toBE 4 g.ack.toNat ++ [0, g.flags] ++
    toBE 2 g.wnd.toNat ++ toBE 4 g.tsval.toNat ++ toBE 4 g.tsecr.toNat ++ g.data

/-- The segment of a packet, as `parse` takes it apart. -/
def Segment.decode (buffer : Bytes) : Segment where
  conv := BitVec.ofNat 32 (ofBE (readAt buffer 0 4))
  seq := BitVec.ofNat 32 (ofBE (readAt buffer 4 4))
  ack := BitVec.ofNat 32 (ofBE (readAt buffer 8 4))
  flags := (buffer[13]?).getD 0
  wnd := BitVec.ofNat 16 (ofBE (readAt buffer 14 2))
  data := buffer.drop HEADER_SIZE
  tsval := BitVec.ofNat 32 (ofBE (readAt buffer 16 4))
  tsecr := BitVec.ofNat 32 (ofBE (readAt buffer 20 4))

/-- `SSegment`, with a number for its address. -/
structure SSegment where
  id : ℕ
  seq : BitVec 32
  len : BitVec 32
  xmit : ℕ
  flags : UInt8
  deriving DecidableEq

/-- `RSegment` -/
structure RSegment where
  seq : BitVec 32
  len : BitVec 32
  deriving DecidableEq

/-- The incoming data of a socket. -/
structure Incoming where
  rlist : List RSegment
  rbufLen : BitVec 32
  rcvNxt : BitVec 32
  rcvWnd : BitVec 32
  lastrecv : BitVec 32
  rwndScale : ℕ
  rbuf : PseudoTcpFifo
  rcvFin : BitVec 32
  deriving DecidableEq

/-- The outgoing data of a socket. The segments not sent yet are given by their addresses, and
`nextId` is the next address. -/
structure Outgoing where
  slist : List SSegment
  unsentSlist : List ℕ
  sbufLen : BitVec 32
  sndNxt : BitVec 32
  sndWnd : BitVec 32
  lastsend : BitVec 32
  sndUna : BitVec 32
  swndScale : ℕ
  sbuf : PseudoTcpFifo
  nextId : ℕ
  deriving DecidableEq

/-- The timers of a socket, and its measures of the path. -/
structure Timing where
  rtoBase : BitVec 32
  tsRecent : BitVec 32
  tsLastack : BitVec 32
  rxRttvar : BitVec 32
  rxSrtt : BitVec 32
  rxRto : BitVec 32
  tAck : BitVec 32
  lastAckedTs : BitVec 32
  ackDelay : BitVec 32
  currentTime : BitVec 32
  deriving DecidableEq

/-- The sizes of segments, and how much of them may be under way. -/
structure Congestion where
  mss : BitVec 32
  msslevel : ℕ
  largest : BitVec 32
  mtuAdvise : BitVec 32
  ssthresh : BitVec 32
  cwnd : BitVec 32
  dupAcks : BitVec 8
  recover : BitVec 32
  fastRecovery : Bool
  useNagling : Bool
  deriving DecidableEq

/-- The callbacks of a socket, apart from `WritePacket`. -/
inductive TcpCall where
  | opened
  | readable
  | writable
  | closed (err : SocketError)
  deriving DecidableEq

/-- What has passed between a socket and what is around it: the packets that `WritePacket` has
taken and how often it was called, how often the clock was read, the other callbacks, the bytes put
into the send buffer, and those handed out by `pseudo_tcp_socket_recv`. -/
structure TcpLog where
  packets : List Bytes
  writes : ℕ
  ticks : ℕ
  calls : List TcpCall
  written : Bytes
  read : Bytes
  deriving DecidableEq

/-- `PseudoTcpSocketPrivate` -/
structure PseudoTcpSocket where
  shutdown : Shutdown
  shutdownReads : Bool
  error : SocketError
  state : PseudoTcpState
  conv : BitVec 32
  bReadEnable : Bool
  bWriteEnable : Bool
  bOutgoing : Bool
  lastTraffic : BitVec 32
  incoming : Incoming
  outgoing : Outgoing
  timing : Timing
  congestion : Congestion
  supportWndScale : Bool
  supportFinAck : Bool
  log : TcpLog
  deriving DecidableEq

/-- What an application does with a socket that tells it that it has opened. -/
inductive AppCall where
  | send (buffer : Bytes)
  | close
  deriving DecidableEq

/-- The surroundings of a socket during a call: the readings of the clock, the results of
`WritePacket`, what the callback for an opened socket does, and the shifts of the target. -/
structure TcpEnv where
  clock : ℕ → BitVec 32
  write : ℕ → WriteResult
  opened : List AppCall
  shift : IntShift

namespace PseudoTcpSocket

theorem rcvBufSize_pos : 0 < DEFAULT_RCV_BUF_SIZE.toNat := by decide

theorem sndBufSize_pos : 0 < DEFAULT_SND_BUF_SIZE.toNat := by decide

def new (conversation : BitVec 32) : PseudoTcpSocket where
  shutdown := .none
  shutdownReads := false
  error := .ok
  state := .listen
  conv := conversation
  bReadEnable := true
  bWriteEnable := false
  bOutgoing := false
  lastTraffic := 0
  incoming :=
    { rlist := [], rbufLen := DEFAULT_RCV_BUF_SIZE, rcvNxt := 0, rcvWnd := DEFAULT_RCV_BUF_SIZE,
      lastrecv := 0, rwndScale := 0,
      rbuf := .init DEFAULT_RCV_BUF_SIZE.toNat rcvBufSize_pos, rcvFin := 0 }
  outgoing :=
    { slist := [], unsentSlist := [], sbufLen := DEFAULT_SND_BUF_SIZE, sndNxt := 0, sndWnd := 1,
      lastsend := 0, sndUna := 0, swndScale := 0,
      sbuf := .init DEFAULT_SND_BUF_SIZE.toNat sndBufSize_pos, nextId := 0 }
  timing :=
    { rtoBase := 0, tsRecent := 0, tsLastack := 0, rxRttvar := 0, rxSrtt := 0, rxRto := DEF_RTO,
      tAck := 0, lastAckedTs := 0, ackDelay := DEFAULT_ACK_DELAY, currentTime := 0 }
  congestion :=
    { mss := MIN_PACKET - PACKET_OVERHEAD, msslevel := 0, largest := 0, mtuAdvise := DEF_MTU,
      ssthresh := DEFAULT_RCV_BUF_SIZE, cwnd := 2 * (MIN_PACKET - PACKET_OVERHEAD), dupAcks := 0,
      recover := 0, fastRecovery := false, useNagling := true }
  supportWndScale := true
  supportFinAck := true
  log := ⟨[], 0, 0, [], [], []⟩

/-- `get_current_time`: the reading, and the socket after it. -/
def getCurrentTime (E : TcpEnv) (s : PseudoTcpSocket) : BitVec 32 × PseudoTcpSocket :=
  if s.timing.currentTime ≠ 0 then (s.timing.currentTime, s)
  else (E.clock s.log.ticks, { s with log.ticks := s.log.ticks + 1 })

/-- A callback other than `WritePacket`. -/
def call (s : PseudoTcpSocket) (k : TcpCall) : PseudoTcpSocket :=
  { s with log.calls := s.log.calls ++ [k] }

def setState (s : PseudoTcpSocket) (newState : PseudoTcpState) : Option PseudoTcpSocket :=
  if newState = s.state then some s
  else if s.state.transition newState then some { s with state := newState }
  else none

def setStateClosed (s : PseudoTcpSocket) (err : SocketError) : Option PseudoTcpSocket := do
  let s ← s.setState .closed
  some (if err ≠ .ok then s.call (.closed err) else s)

/-- The part of `closedown` behind the `RST` segment: the way through the states to `CLOSED`. -/
def closeStates (s : PseudoTcpSocket) (err : SocketError) : Option PseudoTcpSocket := do
  let s ←
    match s.state with
    | .synReceived | .established => do
      let s ← s.setState .finWait1
      let s ← s.setState .finWait2
      s.setState .timeWait
    | .finWait1 => do
      let s ← s.setState .finWait2
      s.setState .timeWait
    | .finWait2 | .closing => s.setState .timeWait
    | .closeWait => s.setState .lastAck
    | .listen | .synSent | .lastAck | .timeWait | .closed => some s
  s.setStateClosed err

def adjustMTU (s : PseudoTcpSocket) : PseudoTcpSocket :=
  -- The first level that fits; the last one before the end of the list fits anything.
  let msslevel := (PACKET_MAXIMUMS.take 9).findIdx (· ≤ s.congestion.mtuAdvise.toNat)
  let mss := s.congestion.mtuAdvise - PACKET_OVERHEAD
  { s with
    congestion.msslevel := msslevel
    congestion.mss := mss
    congestion.ssthresh := maxOf s.congestion.ssthresh (2 * mss)
    congestion.cwnd := maxOf s.congestion.cwnd mss }

def notifyMtu (s : PseudoTcpSocket) (mtu : BitVec 16) : PseudoTcpSocket :=
  let s := { s with congestion.mtuAdvise := mtu.setWidth 32 }
  if s.state = .established then s.adjustMTU else s

end PseudoTcpSocket

end Carrier.Session
