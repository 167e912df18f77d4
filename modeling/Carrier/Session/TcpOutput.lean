import Carrier.Session.PseudoTcp

/-! What a pseudo-TCP socket sends: its queues, the packets, and the calls that start from the
application. -/
namespace Carrier.Session
open Carrier.Lib

namespace PseudoTcpSocket

/-- A segment by its address; `none` is one that has been freed. -/
def segment? (s : PseudoTcpSocket) (id : ℕ) : Option SSegment :=
  s.outgoing.slist.find? (fun g => g.id = id)

def queue (s : PseudoTcpSocket) (data : Bytes) (flags : UInt8) : Option (ℕ × PseudoTcpSocket) := do
  let availableSpace := s.outgoing.sbuf.getWriteRemaining
  let data ←
    if availableSpace < data.length then
      if flags = FLAG_NONE then some (data.take availableSpace) else none
    else some data
  let len := BitVec.ofNat 32 data.length
  let append := s.outgoing.slist.getLast?.any (fun g => g.flags = flags ∧ g.xmit = 0)
  let s :=
    -- The last segment is of the same type and has not been transmitted yet.
    if append then
      { s with
        outgoing.slist := s.outgoing.slist.modify (s.outgoing.slist.length - 1)
          (fun g => { g with len := g.len + len }) }
    else
      let seq := s.outgoing.sndUna + BitVec.ofNat 32 s.outgoing.sbuf.getBuffered
      { s with
        outgoing.slist := s.outgoing.slist ++ [⟨s.outgoing.nextId, seq, len, 0, flags⟩]
        outgoing.unsentSlist := s.outgoing.unsentSlist ++ [s.outgoing.nextId]
        outgoing.nextId := s.outgoing.nextId + 1 }
  let (copied, sbuf) := s.outgoing.sbuf.write data
  some (copied, { s with
    outgoing.sbuf := sbuf
    log.written := s.log.written ++ data.take copied })

/-- What `queue_connect_message` sends. -/
def connectMessage (s : PseudoTcpSocket) : Bytes :=
  [CTL_CONNECT] ++
    (if s.supportWndScale then [TCP_OPT_WND_SCALE, 1, UInt8.ofNat s.incoming.rwndScale] else []) ++
    (if s.supportFinAck then [TCP_OPT_FIN_ACK, 1, 0] else [])

def queueConnectMessage (s : PseudoTcpSocket) : Option PseudoTcpSocket := do
  let message := s.connectMessage
  let s := { s with outgoing.sndWnd := BitVec.ofNat 32 message.length }
  let (_, s) ← s.queue message FLAG_CTL
  some s

def queueFinMessage (s : PseudoTcpSocket) : Option PseudoTcpSocket :=
  if s.supportFinAck then (s.queue [] FLAG_FIN).map Prod.snd else none

def queueRstMessage (s : PseudoTcpSocket) : Option PseudoTcpSocket :=
  if s.supportFinAck then (s.queue [] FLAG_RST).map Prod.snd else none

/-- The segment that `packet` sends. -/
def outgoingSegment (s : PseudoTcpSocket) (seq : BitVec 32) (flags : UInt8) (data : Bytes)
    (now : BitVec 32) : Segment where
  conv := s.conv
  seq := seq
  ack := s.incoming.rcvNxt
  flags := flags
  wnd := (s.incoming.rcvWnd >>> s.incoming.rwndScale).setWidth 16
  data := data
  tsval := now
  tsecr := s.timing.tsRecent

/-- A call of `WritePacket`. -/
def writePacket (E : TcpEnv) (s : PseudoTcpSocket) (buffer : Bytes) : WriteResult × PseudoTcpSocket :=
  let wres := E.write s.log.writes
  (wres, { s with
    log.writes := s.log.writes + 1
    log.packets := if wres = .success then s.log.packets ++ [buffer] else s.log.packets })

def packet (E : TcpEnv) (s : PseudoTcpSocket) (seq : BitVec 32) (flags : UInt8)
    (offset len : BitVec 32) (now : BitVec 32) : Option (WriteResult × PseudoTcpSocket) :=
  let data := if len ≠ 0 then s.outgoing.sbuf.readOffset len.toNat offset.toNat else []
  if HEADER_SIZE + len.toNat ≤ MAX_PACKET ∧ data.length = len.toNat then
    let segment := s.outgoingSegment seq flags data now
    let s := { s with timing.tsLastack := s.incoming.rcvNxt }
    let (wres, s) := s.writePacket E segment.encode
    if wres ≠ .success ∧ len ≠ 0 then some (wres, s)
    else
      some (.success, { s with
        timing.tAck := 0
        outgoing.lastsend := if 0 < len then now else s.outgoing.lastsend
        lastTraffic := now
        bOutgoing := true })
  else none

/-- An acknowledgment, `packet` without data. Its result is not looked at. -/
def ackPacket (E : TcpEnv) (s : PseudoTcpSocket) (seq now : BitVec 32) : Option PseudoTcpSocket :=
  (s.packet E seq FLAG_NONE 0 0 now).map Prod.snd

/-- The inner loop of `transmit`: the next level below the size of the segment, and whether there
is one. -/
def lowerMss : ℕ → PseudoTcpSocket → BitVec 32 → Bool × PseudoTcpSocket
  | 0, s, _ => (false, s)
  | fuel + 1, s, nTransmit =>
    let size := PACKET_MAXIMUMS.getD (s.congestion.msslevel + 1) 0
    if size = 0 then (false, s)
    else
      let mss := BitVec.ofNat 32 size - PACKET_OVERHEAD
      let s := { s with
        congestion.msslevel := s.congestion.msslevel + 1
        congestion.mss := mss
        congestion.cwnd := 2 * mss }
      if mss < nTransmit then (true, s) else lowerMss fuel s nTransmit

/-- The outer loop of `transmit`: the error, the length that has been sent, and the socket. -/
def transmitLoop (E : TcpEnv) (g : SSegment) (now : BitVec 32) :
    ℕ → PseudoTcpSocket → BitVec 32 → Option (SocketError × BitVec 32 × PseudoTcpSocket)
  | 0, _, _ => none
  | fuel + 1, s, nTransmit =>
    if (g.seq - s.outgoing.sndUna).toNat ≤ 1024 * 1024 * 64 then do
      let (wres, s) ← s.packet E g.seq g.flags (g.seq - s.outgoing.sndUna) nTransmit now
      match wres with
      | .success => some (.ok, nTransmit, s)
      | .fail => some (.ECONNABORTED, nTransmit, s)
      | .tooLarge =>
        let (lowered, s) := lowerMss PACKET_MAXIMUMS.length s nTransmit
        if lowered then transmitLoop E g now fuel s s.congestion.mss
        else some (.EMSGSIZE, nTransmit, s)
    else none

/-- An element behind the one that `p` finds; where there is none, `g_queue_insert_after` puts it
first. -/
def insertAfter {α : Type*} (p : α → Bool) (x : α) (l : List α) : List α :=
  match l.dropWhile (!p ·) with
  | [] => x :: l
  | y :: rest => l.takeWhile (!p ·) ++ y :: x :: rest

/-- A segment cut in two behind its first `n` bytes. A second half that has not been transmitted
is also queued as unsent. -/
def cutSegment (s : PseudoTcpSocket) (g : SSegment) (n : BitVec 32) (xmit : ℕ) : PseudoTcpSocket :=
  let subseg : SSegment := ⟨s.outgoing.nextId, g.seq + n, g.len - n, xmit, g.flags⟩
  let slist := s.outgoing.slist.map (fun h => if h.id = g.id then { h with len := n } else h)
  { s with
    outgoing.slist := insertAfter (fun h => h.id = g.id) subseg slist
    outgoing.unsentSlist :=
      if xmit = 0 then insertAfter (· = g.id) subseg.id s.outgoing.unsentSlist
      else s.outgoing.unsentSlist
    outgoing.nextId := s.outgoing.nextId + 1 }

/-- A segment that goes out for the first time is no longer unsent; a `FIN` takes a number of the
sequence. -/
def firstTransmit (s : PseudoTcpSocket) (g : SSegment) : Option PseudoTcpSocket :=
  if s.outgoing.unsentSlist.head? = some g.id then
    let fin : BitVec 32 := if g.len = 0 ∧ g.flags &&& FLAG_FIN ≠ 0 then 1 else 0
    some { s with
      outgoing.unsentSlist := s.outgoing.unsentSlist.tail
      outgoing.sndNxt := s.outgoing.sndNxt + g.len + fin }
  else none

/-- A segment counted as transmitted once more. -/
def countTransmit (s : PseudoTcpSocket) (id : ℕ) (now : BitVec 32) : PseudoTcpSocket :=
  { s with
    outgoing.slist :=
      s.outgoing.slist.map (fun h => if h.id = id then { h with xmit := h.xmit + 1 } else h)
    timing.rtoBase := if s.timing.rtoBase = 0 then now else s.timing.rtoBase }

/-- `transmit`; `.ok` is its result zero. -/
def transmit (E : TcpEnv) (s : PseudoTcpSocket) (id : ℕ) (now : BitVec 32) :
    Option (SocketError × PseudoTcpSocket) := do
  let g ← s.segment? id
  if (if s.state = .established then 15 else 30) ≤ g.xmit then some (.ETIMEDOUT, s)
  else do
    let (err, nTransmit, s) ←
      transmitLoop E g now PACKET_MAXIMUMS.length s (minOf g.len s.congestion.mss)
    if err ≠ .ok then some (err, s)
    else do
      let s := if nTransmit < g.len then s.cutSegment g nTransmit g.xmit else s
      let s ← if g.xmit = 0 then s.firstTransmit { g with len := nTransmit } else some s
      some (.ok, s.countTransmit id now)

/-- `nAvailable` of `attempt_send`: how much of the data not sent yet may go out now. -/
def available (s : PseudoTcpSocket) : BitVec 32 :=
  let c := s.congestion
  let cwnd := if c.dupAcks = 1 ∨ c.dupAcks = 2 then c.cwnd + c.dupAcks.setWidth 32 * c.mss else c.cwnd
  let nWindow := minOf s.outgoing.sndWnd cwnd
  let nInFlight := s.outgoing.sndNxt - s.outgoing.sndUna
  let nUseable := if nInFlight < nWindow then nWindow - nInFlight else 0
  let sndBuffered := s.outgoing.sbuf.getBuffered
  let nAvailable :=
    if sndBuffered < nInFlight.toNat then 0
    else BitVec.ofNat 32 (min (sndBuffered - nInFlight.toNat) c.mss.toNat)
  if nUseable < nAvailable then if nUseable * 4 < nWindow then 0 else nUseable else nAvailable

/-- The loop of `attempt_send`. A segment that cannot be transmitted closes the socket, as
`CLOSEDOWN_REMOTE` does. -/
def sendLoop (E : TcpEnv) (now : BitVec 32) :
    ℕ → PseudoTcpSocket → SendFlags → Option PseudoTcpSocket
  | 0, _, _ => none
  | fuel + 1, s, sflags =>
    let nAvailable := s.available
    if sflags = .duplicateAck then do
      let s ← s.ackPacket E s.outgoing.sndNxt now
      sendLoop E now fuel s .none
    else if nAvailable = 0 ∧ sflags ≠ .fin ∧ sflags ≠ .rst then
      if sflags = .none then some s
      -- An immediate acknowledgment, or the second delayed one.
      else if sflags = .immediateAck ∨ s.timing.tAck ≠ 0 then s.ackPacket E s.outgoing.sndNxt now
      else some { s with timing.tAck := now }
    -- Nagle: hold off while data are in flight and there is not a full segment.
    else if s.congestion.useNagling ∧ sflags ≠ .fin ∧ sflags ≠ .rst ∧
        s.outgoing.sndUna < s.outgoing.sndNxt ∧ nAvailable < s.congestion.mss then some s
    else
      match s.outgoing.unsentSlist with
      | [] => some s
      | id :: _ => do
        let g ← s.segment? id
        let s :=
          if nAvailable < g.len ∧ sflags ≠ .fin ∧ sflags ≠ .rst then s.cutSegment g nAvailable 0
          else s
        let (err, s) ← s.transmit E id now
        if err ≠ .ok then s.closeStates err
        else
          sendLoop E now fuel s
            (if sflags = .immediateAck ∨ sflags = .delayedAck then .none else sflags)

def unsent (s : PseudoTcpSocket) : List SSegment := s.outgoing.unsentSlist.filterMap s.segment?

/-- A bound on the rounds of `attempt_send`: one for every segment and every byte to be sent. -/
def rounds (s : PseudoTcpSocket) : ℕ := (s.unsent.map (fun g => g.len.toNat + 1)).sum + 2

def attemptSend (E : TcpEnv) (s : PseudoTcpSocket) (sflags : SendFlags) : Option PseudoTcpSocket :=
  let (now, s) := s.getCurrentTime E
  let s :=
    if (s.timing.rxRto.toNat : ℤ) < timeDiff now s.outgoing.lastsend then
      { s with congestion.cwnd := s.congestion.mss }
    else s
  sendLoop E now s.rounds s sflags

def closedown (E : TcpEnv) (s : PseudoTcpSocket) (err : SocketError) (source : ClosedownSource) :
    Option PseudoTcpSocket := do
  let s ←
    if source = .locally then
      if s.supportFinAck then do
        let s ← s.queueRstMessage
        s.attemptSend E .rst
      else some { s with shutdown := .forceful }
    else some s
  s.closeStates err

/-- `pseudo_tcp_socket_connect`; the result is whether the connection is under way. -/
def connect (E : TcpEnv) (s : PseudoTcpSocket) : Option (Bool × PseudoTcpSocket) :=
  if s.state ≠ .listen then some (false, { s with error := .EINVAL })
  else do
    let s ← s.setState .synSent
    let s ← s.queueConnectMessage
    let s ← s.attemptSend E .none
    some (true, s)

/-- The count that `pseudo_tcp_socket_send` returns as a `gint`; `none` is its result of `-1`. -/
def send (E : TcpEnv) (s : PseudoTcpSocket) (buffer : Bytes) :
    Option (Option ℕ × PseudoTcpSocket) :=
  if s.state ≠ .established then
    some (none, { s with error := if s.state.hasSentFin then .EPIPE else .ENOTCONN })
  else if s.outgoing.sbuf.getWriteRemaining = 0 then
    some (none, { s with bWriteEnable := true, error := .EWOULDBLOCK })
  else do
    let (written, s) ← s.queue buffer FLAG_NONE
    let s ← s.attemptSend E .none
    some (some written,
      if 0 < written ∧ written < buffer.length then { s with bWriteEnable := true } else s)

/-- `pseudo_tcp_socket_shutdown` -/
def shutdownSocket (E : TcpEnv) (s : PseudoTcpSocket) (how : PseudoTcpShutdown) :
    Option PseudoTcpSocket :=
  if ¬s.supportFinAck then
    some (if s.shutdown = .none then { s with shutdown := .graceful } else s)
  else
    let s := if how = .wr then s else { s with shutdownReads := true }
    if how = .rd then some s
    else
      match s.state with
      | .listen | .synSent => s.setStateClosed .ok
      | .synReceived | .established =>
        -- Data that nobody has read are reason for an `RST` in place of the `FIN`.
        if 0 < s.incoming.rbuf.getBuffered then s.closedown E .ECONNABORTED .locally
        else do
          let s ← s.queueFinMessage
          let s ← s.attemptSend E .fin
          s.setState .finWait1
      | .closeWait => do
        let s ← s.queueFinMessage
        let s ← s.attemptSend E .fin
        s.setState .lastAck
      | .closing | .closed | .finWait1 | .finWait2 | .timeWait | .lastAck => some s

def close (E : TcpEnv) (s : PseudoTcpSocket) (force : Bool) : Option PseudoTcpSocket :=
  if force ∧ s.state ≠ .closed then s.closedown E .ECONNABORTED .locally
  else s.shutdownSocket E .rdwr

/-- What the application does with a socket that has opened. The reliable handler only ever closes
it by force. -/
def appCall (E : TcpEnv) (s : PseudoTcpSocket) : AppCall → Option PseudoTcpSocket
  | .send buffer => (s.send E buffer).map Prod.snd
  | .close => s.close E true

def setStateEstablished (E : TcpEnv) (s : PseudoTcpSocket) : Option PseudoTcpSocket := do
  let s ← s.setState .established
  E.opened.foldlM (fun s k => s.appCall E k) (s.adjustMTU.call .opened)

end PseudoTcpSocket

end Carrier.Session
