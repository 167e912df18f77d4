import Carrier.Session.TcpOutput

/-! What a pseudo-TCP socket does with the clock and with the packets it receives. -/
namespace Carrier.Session
open Carrier.Lib

/-- More of the stream is in order: `n` bytes that are in the receive buffer. -/
def Incoming.accept (inc : Incoming) (n : BitVec 32) : Option Incoming := do
  let rbuf ← inc.rbuf.consumeWriteBuffer n.toNat
  some { inc with rbuf := rbuf, rcvNxt := inc.rcvNxt + n, rcvWnd := inc.rcvWnd - n }

namespace PseudoTcpSocket

/-- How many bits a size is shifted by to fit into 16 bits. -/
def scaleFactor : ℕ → BitVec 32 → ℕ
  | 0, _ => 0
  | n + 1, size => if 0xFFFF < size then scaleFactor n (size >>> 1) + 1 else 0

def resizeReceiveBuffer (s : PseudoTcpSocket) (newSize : BitVec 32) : Option PseudoTcpSocket :=
  if s.incoming.rbufLen = newSize then some s
  else do
    let scale := scaleFactor 16 newSize
    let newSize := newSize >>> scale <<< scale
    let rbuf ← s.incoming.rbuf.setCapacity newSize.toNat
    some { s with
      incoming.rbuf := rbuf
      incoming.rbufLen := newSize
      incoming.rwndScale := scale
      incoming.rcvWnd := BitVec.ofNat 32 rbuf.getWriteRemaining
      congestion.ssthresh := newSize }

def applyOption (s : PseudoTcpSocket) (kind : UInt8) (data : Bytes) : PseudoTcpSocket :=
  if kind = TCP_OPT_WND_SCALE then
    match data with
    | [scale] => { s with outgoing.swndScale := scale.toNat }
    | _ => s
  else if kind = TCP_OPT_FIN_ACK then { s with supportFinAck := true }
  else s

/-- The loop of `parse_options` from `pos` on. Beside the socket it says which of the options for
the window scale and for FIN-ACK it has met, unless the options end in the middle of one. -/
def optionsLoop (data : Bytes) :
    ℕ → PseudoTcpSocket → ℕ → Bool → Bool → Option (PseudoTcpSocket × Option (Bool × Bool))
  | 0, _, _, _, _ => none
  | fuel + 1, s, pos, windowScaling, finAck =>
    if data.length ≤ pos then some (s, some (windowScaling, finAck))
    else do
      let kind ← data[pos]?
      let pos := pos + 1
      if kind = TCP_OPT_EOL then some (s, some (windowScaling, finAck))
      else if kind = TCP_OPT_NOOP then optionsLoop data fuel s pos windowScaling finAck
      else if data.length < pos + 1 then some (s, none)
      else do
        let optLen ← data[pos]?
        let pos := pos + 1
        if data.length < pos + optLen.toNat then some (s, none)
        else
          let s := s.applyOption kind (readAt data pos optLen.toNat)
          optionsLoop data fuel s (pos + optLen.toNat) (windowScaling || kind = TCP_OPT_WND_SCALE)
            (finAck || kind = TCP_OPT_FIN_ACK)

def parseOptions (s : PseudoTcpSocket) (data : Bytes) : Option PseudoTcpSocket := do
  let (s, found) ← optionsLoop data (data.length + 1) s 0 false false
  match found with
  | none => some s
  | some (windowScaling, finAck) =>
    let s ←
      if ¬windowScaling ∧ 0 < s.incoming.rwndScale then do
        let s ← s.resizeReceiveBuffer DEFAULT_RCV_BUF_SIZE
        some { s with outgoing.swndScale := 0 }
      else some s
    some (if finAck then s else { s with supportFinAck := false })

/-- `TCP_ESTABLISHED` is not reached yet: the order of the states in their enumeration. -/
def connecting (s : PseudoTcpSocket) : Bool :=
  s.state = .listen ∨ s.state = .synSent ∨ s.state = .synReceived

/-- The timeout of `pseudo_tcp_socket_notify_clock`, once a segment has gone out again. -/
def backOff (s : PseudoTcpSocket) (now : BitVec 32) : PseudoTcpSocket :=
  let nInFlight := s.outgoing.sndNxt - s.outgoing.sndUna
  let recovering := 3 ≤ s.congestion.dupAcks
  { s with
    congestion.ssthresh := maxOf (nInFlight / 2) (2 * s.congestion.mss)
    congestion.cwnd := s.congestion.mss
    timing.rxRto := minOf (if s.connecting then DEF_RTO else MAX_RTO) (s.timing.rxRto * 2)
    timing.rtoBase := now
    congestion.recover := s.outgoing.sndNxt
    congestion.dupAcks := if recovering then 0 else s.congestion.dupAcks
    congestion.fastRecovery := if recovering then false else s.congestion.fastRecovery }

def passed (deadline now : BitVec 32) : Bool := timeDiff deadline now ≤ 0

/-- The retransmission of `pseudo_tcp_socket_notify_clock`, and whether the socket is still open. -/
def clockRetransmit (E : TcpEnv) (s : PseudoTcpSocket) (now : BitVec 32) :
    Option (Bool × PseudoTcpSocket) :=
  if s.timing.rtoBase ≠ 0 ∧ passed (s.timing.rtoBase + s.timing.rxRto) now then do
    let g ← s.outgoing.slist.head?
    let (err, s) ← s.transmit E g.id now
    if err ≠ .ok then do
      let s ← s.closedown E err .locally
      some (false, s)
    else some (true, s.backOff now)
  else some (true, s)

/-- The probe of a closed window in `pseudo_tcp_socket_notify_clock`, and whether the socket is
still open. -/
def clockProbe (E : TcpEnv) (s : PseudoTcpSocket) (now : BitVec 32) :
    Option (Bool × PseudoTcpSocket) :=
  if s.outgoing.sndWnd = 0 ∧ passed (s.outgoing.lastsend + s.timing.rxRto) now then
    if 15000 ≤ timeDiff now s.incoming.lastrecv then do
      let s ← s.closedown E .ECONNABORTED .locally
      some (false, s)
    else do
      let s ← s.ackPacket E (s.outgoing.sndNxt - 1) now
      some (true, { s with
        outgoing.lastsend := now
        timing.rxRto := minOf MAX_RTO (s.timing.rxRto * 2) })
  else some (true, s)

/-- The delayed acknowledgment of `pseudo_tcp_socket_notify_clock`. -/
def clockAck (E : TcpEnv) (s : PseudoTcpSocket) (now : BitVec 32) : Option PseudoTcpSocket :=
  if s.timing.tAck ≠ 0 ∧ passed (s.timing.tAck + s.timing.ackDelay) now then
    s.ackPacket E s.outgoing.sndNxt now
  else some s

/-- The part of `pseudo_tcp_socket_notify_clock` for the `TIME_WAIT` and `LAST_ACK` states. -/
def clockStates (E : TcpEnv) (s : PseudoTcpSocket) : Option PseudoTcpSocket := do
  let s ← if s.supportFinAck ∧ s.state = .timeWait then s.setStateClosed .ok else some s
  if s.supportFinAck ∧ s.state = .lastAck then do
    let s ← s.queueFinMessage
    s.attemptSend E .fin
  else some s

/-- The part of `pseudo_tcp_socket_notify_clock` behind it: the timers. -/
def clockTimers (E : TcpEnv) (s : PseudoTcpSocket) (now : BitVec 32) : Option PseudoTcpSocket := do
  let (go, s) ← s.clockRetransmit E now
  if ¬go then some s
  else do
    let (go, s) ← s.clockProbe E now
    if ¬go then some s else s.clockAck E now

def notifyClock (E : TcpEnv) (s : PseudoTcpSocket) : Option PseudoTcpSocket :=
  let (now, s) := s.getCurrentTime E
  if s.state = .closed then some s
  else do
    let s ← s.clockStates E
    s.clockTimers E now

/-- A timeout that comes no later than a deadline, if that is set. -/
def earlier (timeout : ℕ) (isSet : Bool) (deadline : BitVec 32) : ℕ :=
  if isSet then min timeout deadline.toNat else timeout

/-- The timeout of a socket that waits for an acknowledgment, or for something to do. -/
def nextTimeout (s : PseudoTcpSocket) (now : BitVec 32) (timeout : ℕ) : ℕ :=
  let timeout := min timeout (now + DEFAULT_TIMEOUT).toNat
  let timeout := earlier timeout (s.timing.tAck ≠ 0) (s.timing.tAck + s.timing.ackDelay)
  let timeout := earlier timeout (s.timing.rtoBase ≠ 0) (s.timing.rtoBase + s.timing.rxRto)
  earlier timeout (s.outgoing.sndWnd = 0) (s.outgoing.lastsend + s.timing.rxRto)

/-- `pseudo_tcp_socket_get_next_clock`: the next timeout, given the one before; `none` is its result
`FALSE`. The timeout is a `guint64`, and the sums are those of a `guint32`. -/
def getNextClock (E : TcpEnv) (s : PseudoTcpSocket) (timeout : ℕ) : Option (Option ℕ × PseudoTcpSocket) :=
  let (now, s) := s.getCurrentTime E
  if s.shutdown = .forceful then (s.closedown E .ok .remotely).map (none, ·)
  else if s.shutdown = .graceful ∧ (s.state ≠ .established ∨
      s.outgoing.sbuf.getBuffered = 0 ∧ s.timing.tAck = 0) then
    (s.closedown E .ok .remotely).map (none, ·)
  else
    let waiting : Bool := s.supportFinAck ∧ s.state = .timeWait
    let closedTimeout := if waiting then TIME_WAIT_TIMEOUT else CLOSED_TIMEOUT
    if s.supportFinAck ∧ s.state = .closed then some (none, s)
    else
      let timeout := if timeout = 0 ∨ timeout < now.toNat then (now + closedTimeout).toNat else timeout
      if waiting then some (some (min timeout (now + TIME_WAIT_TIMEOUT).toNat), s)
      else if s.state = .closed ∧ ¬s.supportFinAck then
        some (some (min timeout (now + CLOSED_TIMEOUT).toNat), s)
      else some (some (s.nextTimeout now timeout), s)

/-- The control data of a segment for `process`, which goes on unless the result is `none`: whether
they are a connect message. -/
def processControl (E : TcpEnv) (s : PseudoTcpSocket) (g : Segment) :
    Option (Option Bool × PseudoTcpSocket) :=
  if g.has FLAG_CTL then
    match g.data with
    | [] => some (none, s)
    | code :: options =>
      if code = CTL_CONNECT then do
        let s ← s.parseOptions options
        let s ←
          if s.state = .listen then do
            let s ← s.setState .synReceived
            s.queueConnectMessage
          else if s.state = .synSent then s.setStateEstablished E
          else some s
        some (some true, s)
      else some (none, s)
  else some (some false, s)

def updateTimestamp (s : PseudoTcpSocket) (g : Segment) : PseudoTcpSocket :=
  if SmallerOrEqual g.seq s.timing.tsLastack ∧ Smaller s.timing.tsLastack (g.seq + g.len) then
    { s with timing.tsRecent := g.tsval }
  else s

/-- The round trip time of a segment; `none` is one that lies in the future. -/
def updateRtt (s : PseudoTcpSocket) (g : Segment) (now : BitVec 32) : Option PseudoTcpSocket :=
  if g.tsecr = 0 then some s
  else
    let rtt := timeDiff now g.tsecr
    if 0 ≤ rtt then
      let t := s.timing
      let rttvar :=
        if t.rxSrtt = 0 then BitVec.ofInt 32 (rtt / 2)
        else BitVec.ofInt 32 (((3 * t.rxRttvar).toNat + |rtt - t.rxSrtt.toNat|) / 4)
      let srtt :=
        if t.rxSrtt = 0 then BitVec.ofInt 32 rtt
        else BitVec.ofInt 32 (((7 * t.rxSrtt).toNat + rtt) / 8)
      some { s with
        timing.rxRttvar := rttvar
        timing.rxSrtt := srtt
        timing.rxRto := bound MIN_RTO (srtt + maxOf 1 (4 * rttvar)) MAX_RTO
        timing.lastAckedTs := g.tsecr }
    else none

/-- The segments of the send queue behind the first `nFree` bytes, and the largest one met so far;
`none` is a queue that is too short. -/
def freeSegments : BitVec 32 → List SSegment → BitVec 32 → Option (List SSegment × BitVec 32)
  | nFree, [], largest => if nFree = 0 then some ([], largest) else none
  | nFree, g :: slist, largest =>
    if nFree = 0 then some (g :: slist, largest)
    else if nFree < g.len then
      some ({ g with len := g.len - nFree, seq := g.seq + nFree } :: slist, largest)
    else freeSegments (nFree - g.len) slist (maxOf g.len largest)

/-- The window of a segment, shifted as an `int`. The scale is a byte of the peer. -/
def scaledWindow (E : TcpEnv) (s : PseudoTcpSocket) (g : Segment) : BitVec 32 :=
  E.shift.shl (g.wnd.setWidth 32) s.outgoing.swndScale

/-- The data that a segment acknowledges leave the send buffer. Beside the socket it says how many
they are, and whether a `FIN` is among them. -/
def acknowledge (E : TcpEnv) (s : PseudoTcpSocket) (g : Segment) (now : BitVec 32) :
    Option (BitVec 32 × Bool × PseudoTcpSocket) := do
  let nAcked := g.ack - s.outgoing.sndUna
  let isFinAck :=
    nAcked.toNat = s.outgoing.sbuf.dataLength + 1 ∧ s.state.hasSentFin
  let nAcked := if isFinAck then nAcked - 1 else nAcked
  let sbuf ← s.outgoing.sbuf.consumeReadData nAcked.toNat
  let (slist, largest) ← freeSegments nAcked s.outgoing.slist s.congestion.largest
  some (nAcked, isFinAck, { s with
    outgoing.sndWnd := s.scaledWindow E g
    outgoing.sndUna := g.ack
    timing.rtoBase := if g.ack = s.outgoing.sndNxt then 0 else now
    outgoing.sbuf := sbuf
    outgoing.slist := slist
    congestion.largest := largest })

/-- The first segment of the queue once more; an error closes the socket. The result says whether
it is still open. -/
def recoveryTransmit (E : TcpEnv) (s : PseudoTcpSocket) (now : BitVec 32) :
    Option (Bool × PseudoTcpSocket) := do
  let g ← s.outgoing.slist.head?
  let (err, s) ← s.transmit E g.id now
  if err ≠ .ok then do
    let s ← s.closedown E err .locally
    some (false, s)
  else some (true, s)

/-- The congestion window after an acknowledgment, and whether the socket is still open. The window
grows by its quotient, so that it may not be zero. -/
def ackWindow (E : TcpEnv) (s : PseudoTcpSocket) (nAcked now : BitVec 32) :
    Option (Bool × PseudoTcpSocket) :=
  let c := s.congestion
  if 3 ≤ c.dupAcks then
    if LargerOrEqual s.outgoing.sndUna c.recover then
      let nInFlight := s.outgoing.sndNxt - s.outgoing.sndUna
      some (true, { s with
        congestion.cwnd := minOf c.ssthresh (maxOf nInFlight c.mss + c.mss)
        congestion.fastRecovery := false
        congestion.dupAcks := 0 })
    else do
      let (go, s) ← s.recoveryTransmit E now
      if ¬go then some (false, s)
      else
        let c := s.congestion
        some (true, { s with
          congestion.cwnd :=
            c.cwnd + ((if c.mss < nAcked then c.mss else 0) - minOf nAcked c.cwnd) })
  else
    let s := { s with congestion.dupAcks := 0 }
    if c.cwnd < c.ssthresh then some (true, { s with congestion.cwnd := c.cwnd + c.mss })
    else if c.cwnd = 0 then none
    else some (true, { s with congestion.cwnd := c.cwnd + maxOf 1 (c.mss * c.mss / c.cwnd) })

/-- A segment that acknowledges data. The result is `none` where `process` stops. -/
def valuableAck (E : TcpEnv) (s : PseudoTcpSocket) (g : Segment) (now : BitVec 32) :
    Option (Option Bool × PseudoTcpSocket) :=
  match s.updateRtt g now with
  | none => some (none, s)
  | some s => do
    let (nAcked, isFinAck, s) ← s.acknowledge E g now
    let (go, s) ← s.ackWindow E nAcked now
    some (if go then some isFinAck else none, s)

/-- The fast retransmission of the third duplicate, and whether the socket is still open. -/
def fastRetransmit (E : TcpEnv) (s : PseudoTcpSocket) (g : Segment) (now : BitVec 32) :
    Option (Bool × PseudoTcpSocket) :=
  if LargerOrEqual s.outgoing.sndUna s.congestion.recover ∨ g.tsecr = s.timing.lastAckedTs then do
    let (go, s) ← s.recoveryTransmit E now
    if ¬go then some (false, s)
    else
      let nInFlight := s.outgoing.sndNxt - s.outgoing.sndUna
      let ssthresh := maxOf (nInFlight / 2) (2 * s.congestion.mss)
      some (true, { s with
        congestion.recover := s.outgoing.sndNxt
        congestion.ssthresh := ssthresh
        congestion.cwnd := ssthresh + 3 * s.congestion.mss
        congestion.fastRecovery := true })
  else some (true, s)

/-- A segment that acknowledges what has been acknowledged before. The result is whether the socket
is still open. -/
def duplicateAck (E : TcpEnv) (s : PseudoTcpSocket) (g : Segment) (now : BitVec 32) :
    Option (Bool × PseudoTcpSocket) :=
  let s := { s with outgoing.sndWnd := s.scaledWindow E g }
  if 0 < g.len then some (true, s)
  else if s.outgoing.sndUna = s.outgoing.sndNxt then
    some (true, { s with congestion.dupAcks := 0 })
  else
    let s := { s with congestion.dupAcks := s.congestion.dupAcks + 1 }
    if s.congestion.dupAcks = 3 then s.fastRetransmit E g now
    else if 3 < s.congestion.dupAcks ∧ s.congestion.fastRecovery then
      some (true, { s with congestion.cwnd := s.congestion.cwnd + s.congestion.mss })
    else some (true, s)

/-- The acknowledgment of a segment for `process`, which goes on unless the result is `none`:
whether a `FIN` has been acknowledged. -/
def processAck (E : TcpEnv) (s : PseudoTcpSocket) (g : Segment) (now : BitVec 32) :
    Option (Option Bool × PseudoTcpSocket) :=
  if Larger g.ack s.outgoing.sndUna ∧ SmallerOrEqual g.ack s.outgoing.sndNxt then
    s.valuableAck E g now
  else if g.ack = s.outgoing.sndUna then do
    let (go, s) ← s.duplicateAck E g now
    some (if go then some false else none, s)
  else some (some false, s)

/-- The state after a `FIN`, or the acknowledgment of one. -/
def finStates (s : PseudoTcpSocket) (receivedFin isFinAck : Bool) : Option PseudoTcpSocket :=
  match s.state with
  | .established => if receivedFin then s.setState .closeWait else some s
  | .closing => if isFinAck then s.setState .timeWait else some s
  | .lastAck => if isFinAck then s.setStateClosed .ok else some s
  | .finWait1 =>
    if isFinAck ∧ receivedFin then s.setState .timeWait
    else if isFinAck then s.setState .finWait2
    else if receivedFin then s.setState .closing
    else some s
  | .finWait2 => if receivedFin then s.setState .timeWait else some s
  | .listen | .synSent | .synReceived | .timeWait | .closed | .closeWait => some s

/-- The `FIN` of a segment for `process`, which goes on unless the result is `none`: whether it has
been received in turn. -/
def processFin (s : PseudoTcpSocket) (g : Segment) (isFinAck : Bool) :
    Option (Option Bool × PseudoTcpSocket) :=
  if ¬s.supportFinAck then some (some false, s)
  else
    let s := if g.has FLAG_FIN then { s with incoming.rcvFin := g.seq } else s
    if g.has FLAG_FIN ∧ g.len ≠ 0 then some (none, s)
    else do
      let receivedFin :=
        s.incoming.rcvNxt ≠ 0 ∧ s.incoming.rcvNxt + g.len = s.incoming.rcvFin
      let s ← s.finStates receivedFin isFinAck
      some (some receivedFin, s)

def notifyWritable (s : PseudoTcpSocket) : PseudoTcpSocket :=
  let kIdealRefillSize := (s.outgoing.sbufLen + s.incoming.rbufLen) / 2
  if s.bWriteEnable ∧ s.outgoing.sbuf.getBuffered < kIdealRefillSize.toNat then
    { s with bWriteEnable := false }.call .writable
  else s

/-- The acknowledgment that a segment asks for. -/
def ackFlags (s : PseudoTcpSocket) (g : Segment) (receivedFin : Bool) : SendFlags :=
  if g.seq ≠ s.incoming.rcvNxt then .duplicateAck
  else if g.len ≠ 0 then if s.timing.ackDelay = 0 then .immediateAck else .delayedAck
  else if receivedFin then .immediateAck
  else .none

/-- A segment without what has been received before. -/
def trimLeft (s : PseudoTcpSocket) (g : Segment) : Segment :=
  if Smaller g.seq s.incoming.rcvNxt then
    let nAdjust := s.incoming.rcvNxt - g.seq
    if nAdjust < g.len then { g with seq := g.seq + nAdjust, data := g.data.drop nAdjust.toNat }
    else { g with data := [] }
  else g

/-- A segment without what there is no room for. -/
def trimRight (s : PseudoTcpSocket) (g : Segment) : Segment :=
  let availableSpace := s.incoming.rbuf.getWriteRemaining
  let past := g.seq + g.len - s.incoming.rcvNxt
  if availableSpace < past.toNat then
    let nAdjust := past - BitVec.ofNat 32 availableSpace
    if nAdjust < g.len then { g with data := g.data.take (g.len - nAdjust).toNat }
    else { g with data := [] }
  else g

/-- The segments behind the one just received: those it joins are accepted, and the flag says
whether there were any. -/
def recoverLoop : List RSegment → Incoming → Bool → Option (Incoming × Bool)
  | [], inc, found => some ({ inc with rlist := [] }, found)
  | r :: rlist, inc, found =>
    if SmallerOrEqual r.seq inc.rcvNxt then
      if Larger (r.seq + r.len) inc.rcvNxt then do
        let inc ← inc.accept (r.seq + r.len - inc.rcvNxt)
        recoverLoop rlist inc true
      else recoverLoop rlist inc found
    else some ({ inc with rlist := r :: rlist }, found)

/-- A segment that came too early, kept in the order of the sequence. -/
def insertRSegment (r : RSegment) (rlist : List RSegment) : List RSegment :=
  rlist.takeWhile (fun x => Smaller x.seq r.seq) ++
    r :: rlist.dropWhile (fun x => Smaller x.seq r.seq)

/-- The data of a segment for `process`: the socket, the acknowledgment to send, and whether there
are new data to read. -/
def storeData (s : PseudoTcpSocket) (g : Segment) (sflags : SendFlags) :
    Option (PseudoTcpSocket × SendFlags × Bool) :=
  let bIgnoreData := g.has FLAG_CTL || (!s.supportFinAck && s.shutdown ≠ .none)
  if g.len = 0 then some (s, sflags, false)
  else if bIgnoreData then
    some (if g.seq = s.incoming.rcvNxt then
        { s with incoming.rcvNxt := s.incoming.rcvNxt + g.len }
      else s, sflags, false)
  else
    let (res, rbuf) :=
      s.incoming.rbuf.writeOffset g.data (g.seq - s.incoming.rcvNxt).toNat
    if res ≠ g.data.length then none
    else
      let inc := { s.incoming with rbuf := rbuf }
      if g.seq = inc.rcvNxt then do
        let inc ← inc.accept g.len
        let (inc, found) ← recoverLoop inc.rlist inc false
        some ({ s with incoming := inc }, if found then .immediateAck else sflags, true)
      else
        some ({ s with incoming := { inc with rlist := insertRSegment ⟨g.seq, g.len⟩ inc.rlist } },
          sflags, false)

/-- The data of a segment for `process`, from the callback for the send queue on. -/
def processStore (E : TcpEnv) (s : PseudoTcpSocket) (g : Segment) (receivedFin : Bool) :
    Option (Bool × PseudoTcpSocket) := do
  let s := s.notifyWritable
  let sflags := s.ackFlags g receivedFin
  let (s, sflags, bNewData) ← s.storeData (s.trimRight (s.trimLeft g)) sflags
  let s := if receivedFin then { s with incoming.rcvNxt := s.incoming.rcvNxt + 1 } else s
  let s ← s.attemptSend E sflags
  some (true, if bNewData ∧ s.bReadEnable then s.call .readable else s)

/-- The `FIN` and the data of a segment for `process`. -/
def processReceive (E : TcpEnv) (s : PseudoTcpSocket) (g : Segment) (isFinAck : Bool) :
    Option (Bool × PseudoTcpSocket) := do
  let (fin, s) ← s.processFin g isFinAck
  match fin with
  | none => some (false, s)
  | some receivedFin => s.processStore E g receivedFin

/-- The part of `process` behind the acknowledgment: the state of the connection, and the data. -/
def processData (E : TcpEnv) (s : PseudoTcpSocket) (g : Segment) (bConnect isFinAck : Bool) :
    Option (Bool × PseudoTcpSocket) :=
  if s.state = .synReceived ∧ ¬bConnect then do
    let s ← s.setStateEstablished E
    s.processReceive E g isFinAck
  else s.processReceive E g isFinAck

/-- The part of `process` behind the control data. -/
def processAckData (E : TcpEnv) (s : PseudoTcpSocket) (g : Segment) (now : BitVec 32) (bConnect : Bool) :
    Option (Bool × PseudoTcpSocket) := do
  let (ack, s) ← (s.updateTimestamp g).processAck E g now
  match ack with
  | none => some (false, s)
  | some isFinAck => s.processData E g bConnect isFinAck

/-- `process` for a connection that is not closed. -/
def processSegment (E : TcpEnv) (s : PseudoTcpSocket) (g : Segment) (now : BitVec 32) :
    Option (Bool × PseudoTcpSocket) := do
  let (control, s) ← s.processControl E g
  match control with
  | none => some (false, s)
  | some bConnect => s.processAckData E g now bConnect

/-- The times of a packet that has arrived. -/
def noticed (s : PseudoTcpSocket) (now : BitVec 32) : PseudoTcpSocket :=
  { s with lastTraffic := now, incoming.lastrecv := now, bOutgoing := false }

def process (E : TcpEnv) (s : PseudoTcpSocket) (g : Segment) : Option (Bool × PseudoTcpSocket) :=
  if g.conv ≠ s.conv then some (false, s)
  else
    let (now, s) := s.getCurrentTime E
    let s := s.noticed now
    if s.state = .closed ∨ s.state.hasReceivedFinAck ∧ g.len ≠ 0 then
      if g.has FLAG_RST then some (false, s)
      else (s.closedown E .ok .locally).map (false, ·)
    else if g.has FLAG_RST then (s.closedown E .ECONNRESET .remotely).map (false, ·)
    else s.processSegment E g now

/-- `pseudo_tcp_socket_notify_packet`, with `parse` -/
def notifyPacket (E : TcpEnv) (s : PseudoTcpSocket) (buffer : Bytes) :
    Option (Bool × PseudoTcpSocket) :=
  if MAX_PACKET < buffer.length then some (false, { s with error := .EMSGSIZE })
  else if buffer.length < HEADER_SIZE then some (false, { s with error := .EINVAL })
  else s.process E (.decode buffer)

/-- What `pseudo_tcp_socket_recv` returns: the bytes, or `-1`. -/
def recv (E : TcpEnv) (s : PseudoTcpSocket) (len : ℕ) :
    Option (Option Bytes × PseudoTcpSocket) :=
  if s.supportFinAck ∧ s.shutdownReads then some (some [], s)
  else if ¬s.supportFinAck ∧ s.state = .closed then some (some [], s)
  else if ¬s.supportFinAck ∧ s.state ≠ .established then
    some (none, { s with error := .ENOTCONN })
  else if len = 0 then some (some [], s)
  else
    let (data, rbuf) := s.incoming.rbuf.read len
    let s := { s with incoming.rbuf := rbuf, log.read := s.log.read ++ data }
    if data = [] ∧ ¬(s.state.hasReceivedFin ∨ s.state.hasReceivedFinAck) then
      some (none, { s with bReadEnable := true, error := .EWOULDBLOCK })
    else
      let availableSpace := s.incoming.rbuf.getWriteRemaining
      -- The difference is one of 64-bit sizes.
      if (minOf (s.incoming.rbufLen / 2) s.congestion.mss).toNat ≤
          subSize availableSpace s.incoming.rcvWnd.toNat then
        let bWasClosed := s.incoming.rcvWnd = 0
        let s := { s with incoming.rcvWnd := BitVec.ofNat 32 availableSpace }
        if bWasClosed then (s.attemptSend E .immediateAck).map (some data, ·)
        else some (some data, s)
      else some (some data, s)

/-- A turn of the loop in the handler's callback for data to read. At the end of the stream it closes
the socket. -/
def readable (E : TcpEnv) (s : PseudoTcpSocket) (len : ℕ) : Option PseudoTcpSocket := do
  let (data, s) ← s.recv E len
  if data = some [] then s.close E false else some s

end PseudoTcpSocket

end Carrier.Session
