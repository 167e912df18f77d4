import Carrier.Session.TcpQueue

/-! What two pseudo-TCP sockets have in common, seen as two streams of bytes, one in each direction. -/
namespace Carrier.Session
open Carrier.Lib PseudoTcpSocket

/-- The connect message of a socket with the default buffers. -/
def connectBytes : Bytes := [0, 3, 1, 0, 254, 1, 0]

/-- The send buffer holds what has been written to the stream and not been acknowledged. -/
structure SendBuffer (sbuf : PseudoTcpFifo) (una : ℕ) (stream : Bytes) : Prop where
  length : una + sbuf.dataLength = stream.length
  capacity : sbuf.bufferLength = DEFAULT_SND_BUF_SIZE.toNat
  cells : ∀ i < sbuf.dataLength, sbuf.cell i = stream[una + i]?

/-- What a socket has written in a state: the connect message comes first. -/
def Begun (state : PseudoTcpState) (stream : Bytes) : Prop :=
  match state with
  | .listen => stream = []
  | .synSent | .synReceived | .established => connectBytes <+: stream
  | .closed => stream = [] ∨ connectBytes <+: stream
  | _ => False

/-- A segment whose data, if it has any, are those of the stream at its place, up to `limit`. -/
def Genuine (stream : Bytes) (limit : ℕ) (g : Segment) : Prop :=
  g.conv = 1 ∧
    (g.data = [] ∧ (g.flags = FLAG_NONE ∨ g.flags = FLAG_RST) ∨
      Allowed g.flags g.seq.toNat g.data.length ∧
        g.data = readAt stream g.seq.toNat g.data.length ∧ g.seq.toNat + g.data.length ≤ limit)

/-- A segment whose acknowledgment its sender has given; before there are data the window is wide
enough for a connect message. -/
def Told (rcvNxt : BitVec 32) (g : Segment) : Prop :=
  g.ack.toNat ≤ rcvNxt.toNat ∧ (g.ack.toNat = 0 ∨ 7 ≤ g.ack.toNat) ∧
    (g.ack.toNat ≤ 7 → 7 ≤ g.wnd.toNat)

/-- Where the numbers of a stream lie in the buffer of its receiver: those in order, and those of
segments that came too early. -/
def Held (rlist : List RSegment) (rcvNxt : BitVec 32) (j : ℕ) : Prop :=
  j < rcvNxt.toNat ∨ ∃ r ∈ rlist, r.seq.toNat ≤ j ∧ j < r.seq.toNat + r.len.toNat

/-- What a receiver has of a stream that has been sent up to `limit`. The bytes behind the connect
message have been handed out, or lie in the buffer at their places. -/
structure Inbound (stream : Bytes) (limit : ℕ) (rlist : List RSegment) (rcvNxt : BitVec 32)
    (rbuf : PseudoTcpFifo) (read : Bytes) : Prop where
  synced : rcvNxt.toNat = 0 ∧ rlist = [] ∧ rbuf.dataLength = 0 ∧ read = [] ∨
    rcvNxt.toNat = 7 + read.length + rbuf.dataLength
  le : rcvNxt.toNat ≤ limit
  handed : read <+: stream.drop 7
  cells : ∀ j, 7 + read.length ≤ j → Held rlist rcvNxt j →
    rbuf.cell (j - (7 + read.length)) = stream[j]?
  ahead : ∀ r ∈ rlist, r.seq.toNat + r.len.toNat ≤ limit ∧
    r.seq.toNat + r.len.toNat ≤ 7 + read.length + rbuf.bufferLength
  capacity : rbuf.bufferLength = DEFAULT_RCV_BUF_SIZE.toNat

/-- The sender keeps to the window of the receiver, and the receiver has room for its window. -/
structure InWindow (una wnd nxt rcvNxt rcvWnd : BitVec 32) (rbuf : PseudoTcpFifo)
    (packets : List Bytes) : Prop where
  wnd : una.toNat + wnd.toNat ≤ rcvNxt.toNat + rcvWnd.toNat
  nxt : nxt.toNat ≤ rcvNxt.toNat + rcvWnd.toNat
  room : rcvWnd.toNat ≤ rbuf.getWriteRemaining
  packets : ∀ p ∈ packets, (Segment.decode p).ack.toNat + (Segment.decode p).wnd.toNat ≤
    rcvNxt.toNat + rcvWnd.toNat

/-- The send queue of a socket. -/
abbrev Queued (s : PseudoTcpSocket) (sent unsent : List SSegment) : Prop :=
  SendQueue s.outgoing.slist s.outgoing.unsentSlist s.outgoing.nextId s.outgoing.sndUna.toNat
    s.outgoing.sndNxt.toNat s.log.written.length sent unsent

/-- The stream from one socket to the other, sent up to `limit`. While the sender is closing it
does not keep to the window. -/
structure Flow (limit : ℕ) (closing : Prop) (X Y : PseudoTcpSocket) : Prop where
  finAck : X.supportFinAck = true
  wndScale : X.supportWndScale = true
  shutdown : X.shutdown = .none
  conv : X.conv = 1
  swndScale : X.outgoing.swndScale = 0
  mtu : X.congestion.mtuAdvise = DEF_MTU
  mss : 180 ≤ X.congestion.mss.toNat ∧ X.congestion.mss.toNat ≤ 65419
  ssthresh : 0 < X.congestion.ssthresh.toNat
  nxt_le : X.outgoing.sndNxt.toNat ≤ limit
  limit_le : limit ≤ X.log.written.length
  bound : X.log.written.length < seqBound
  queue : ∃ sent unsent, Queued X sent unsent
  buffer : SendBuffer X.outgoing.sbuf X.outgoing.sndUna.toNat X.log.written
  begun : Begun X.state X.log.written
  fresh : ¬closing → X.state = .listen → X.outgoing.slist = []
  reads : X.shutdownReads = true → X.state = .closed
  timer : X.timing.rtoBase ≠ 0 → ∃ g ∈ X.outgoing.slist.head?, g.xmit ≠ 0
  recover : X.congestion.recover.toNat ≤ X.outgoing.sndNxt.toNat
  wnd_lt : X.outgoing.sndWnd.toNat < 2 ^ 16
  early : X.outgoing.sndNxt.toNat = 0 → X.congestion.dupAcks = 0 ∧ 7 ≤ X.congestion.cwnd.toNat ∧
    (X.log.written ≠ [] → 7 ≤ X.outgoing.sndWnd.toNat)
  packets : ∀ p ∈ X.log.packets, Genuine X.log.written limit (.decode p)
  rcvFin : Y.incoming.rcvFin = 0
  rwndScale : Y.incoming.rwndScale = 0
  rbufLen : Y.incoming.rbufLen = DEFAULT_RCV_BUF_SIZE
  inbound : Inbound X.log.written limit Y.incoming.rlist Y.incoming.rcvNxt Y.incoming.rbuf Y.log.read
  wide : Y.incoming.rcvNxt.toNat ≤ 7 → Y.incoming.rcvWnd = DEFAULT_RCV_BUF_SIZE
  una_le : X.outgoing.sndUna.toNat ≤ Y.incoming.rcvNxt.toNat
  told : ∀ p ∈ Y.log.packets, Told Y.incoming.rcvNxt (.decode p)
  window : ¬closing → X.state ≠ .closed → InWindow X.outgoing.sndUna X.outgoing.sndWnd
    X.outgoing.sndNxt Y.incoming.rcvNxt Y.incoming.rcvWnd Y.incoming.rbuf Y.log.packets

/-- Both streams between two sockets. -/
structure Joined (Y X : PseudoTcpSocket) : Prop where
  out : Flow X.outgoing.sndNxt.toNat False X Y
  back : Flow Y.outgoing.sndNxt.toNat False Y X

theorem Joined.symm {X Y : PseudoTcpSocket} (h : Joined Y X) : Joined X Y := ⟨h.back, h.out⟩

/-- Both streams of a socket in the course of a call that sends, which leaves what has been received
and written as it is. -/
structure Linked (limit : ℕ) (closing : Prop) (Y : PseudoTcpSocket) (inc : Incoming) (stream : Bytes)
    (X : PseudoTcpSocket) : Prop where
  out : Flow limit closing X Y
  back : Flow Y.outgoing.sndNxt.toNat False Y X
  incoming : X.incoming = inc
  written : X.log.written = stream

/-- The same, with the stream sent as far as the socket says. -/
abbrev Steady (closing : Prop) (Y : PseudoTcpSocket) (inc : Incoming) (stream : Bytes)
    (X : PseudoTcpSocket) : Prop :=
  Linked X.outgoing.sndNxt.toNat closing Y inc stream X

theorem Joined.steady {X Y : PseudoTcpSocket} (h : Joined Y X) :
    Steady False Y X.incoming X.log.written X := ⟨h.out, h.back, rfl, rfl⟩

theorem Linked.joined {X Y : PseudoTcpSocket} {inc : Incoming} {stream : Bytes}
    (h : Steady False Y inc stream X) : Joined Y X := ⟨h.out, h.back⟩

/-- What a call that sends leaves as it was: what has been received, the stream, and the segments. -/
structure Kept (s s' : PseudoTcpSocket) : Prop where
  incoming : s'.incoming = s.incoming
  outgoing : s'.outgoing = { s.outgoing with lastsend := s'.outgoing.lastsend }
  state : s'.state = s.state
  written : s'.log.written = s.log.written

theorem Kept.refl (s : PseudoTcpSocket) : Kept s s := ⟨rfl, rfl, rfl, rfl⟩

theorem Kept.after {s s' s'' : PseudoTcpSocket} (h : Kept s' s'') (hincoming : s'.incoming = s.incoming)
    (houtgoing : s'.outgoing = s.outgoing) (hstate : s'.state = s.state)
    (hwritten : s'.log.written = s.log.written) : Kept s s'' := by
  refine ⟨h.incoming.trans hincoming, ?_, h.state.trans hstate, h.written.trans hwritten⟩
  rw [← houtgoing]
  exact h.outgoing

theorem Kept.trans {s s' s'' : PseudoTcpSocket} (h : Kept s s') (h' : Kept s' s'') : Kept s s'' := by
  refine ⟨h'.incoming.trans h.incoming, ?_, h'.state.trans h.state, h'.written.trans h.written⟩
  rw [h'.outgoing, h.outgoing]

end Carrier.Session
