import Carrier.Lib.Descriptors
import Carrier.Lib.OrderedMap
import Carrier.Session.MuxRun
import Carrier.Session.StreamStates

/-! The sockets of a reliable stream with port forwarding: `session/portforwarding.c`,
`session/fdset.c`, and the multiplex handler that calls them. Calls are not interrupted by one
another, the callbacks of the application do not call back, and memory does not run out. A socket is
its descriptor; a call of the system that fails gives none. -/
namespace Carrier.Session
open Carrier.Lib Carrier.Common

/-- What a socket is opened for; `data` are those that are accepted or connected. -/
inductive SockKind where
  | listening
  | data
  deriving DecidableEq

def fdSetSize : ℕ := 1024

def maxPortforwardingId : ℕ := 64

/-- `PortForwardingProtocol_TCP` -/
def tcpProtocol : ℕ := 1

structure FdSet where
  event : ℕ
  rfds : Finset ℕ
  deriving DecidableEq

/-- `FD_SET`. A set has no bit for a descriptor from `FD_SETSIZE` on; the macro then writes past its
end, of which nothing is said here. -/
def fdSet (fd : ℕ) (set : Finset ℕ) : Finset ℕ := if fd < fdSetSize then insert fd set else set

def fdsetInit (event : ℕ) : FdSet := ⟨event, fdSet event ∅⟩

def fdsetAddSocket (fdset : FdSet) (socket : ℕ) : FdSet :=
  if socket ∉ fdset.rfds then { fdset with rfds := fdSet socket fdset.rfds } else fdset

def fdsetRemoveSocket (fdset : FdSet) (socket : ℕ) : FdSet :=
  if socket ∈ fdset.rfds then { fdset with rfds := fdset.rfds.erase socket } else fdset

structure PortForwarding where
  id : ℕ
  protocol : ℕ
  service : Bytes
  sock : ℕ
  deriving DecidableEq

/-- What a call meets: the clock, the callbacks of the application for a new channel and for data,
the result of the write of its packet and the error with which the reliable handler stops in the
course of that write, if it does; the protocols of the services of the session by name, if it has a
table of services; the descriptor that `accept`, `socket_connect` or `socket_create` returns; and the
results of `listen`, `send` and `recv`. -/
structure WorkerEnv where
  shift : IntShift
  now : TimeVal
  channelOpen : Channel → Option Bytes → Bool
  channelData : Channel → Bytes → Bool
  written : ℤ
  stop : Option ℤ
  services : Option (Bytes → Option ℕ)
  socket : Option ℕ
  listen : Bool
  send : Bool
  recv : Bytes

def WorkerEnv.mux (E : WorkerEnv) : MuxEnv :=
  ⟨E.shift, E.now, fun _ => E.written, fun _ => E.stop, E.channelOpen, E.channelData⟩

/-- The stream. `sock` is the field of the `TcpChannel` with an id, `running` that of the worker,
`stopping` that of the ICE handler. -/
structure ForwardingStream where
  handler : MultiplexHandler
  sock : ℕ → ℕ
  fdset : FdSet
  running : Bool
  portforwardings : List PortForwarding
  pfIds : IdsHeap
  state : StreamState
  stopping : Bool
  destroyed : Bool
  log : List (FdEvent SockKind)

namespace ForwardingStream

/-- `multiplex_handler_create` and `portforwarding_worker_create`, given the event descriptor. -/
def init (event : ℕ) : ForwardingStream where
  handler := multiplexHandlerCreate true true
  sock _ := 0
  fdset := fdsetInit event
  running := false
  portforwardings := []
  pfIds := idsHeapInit maxPortforwardingId
  state := .raw
  stopping := false
  destroyed := false
  log := []

def socketOpen (s : ForwardingStream) (kind : SockKind) (fd : ℕ) : ForwardingStream :=
  { s with log := .opened kind fd :: s.log }

def socketClose (s : ForwardingStream) (fd : ℕ) : ForwardingStream :=
  { s with log := .closed fd :: s.log }

def addSocket (s : ForwardingStream) (fd : ℕ) : ForwardingStream :=
  { s with fdset := fdsetAddSocket s.fdset fd }

def removeSocket (s : ForwardingStream) (fd : ℕ) : ForwardingStream :=
  { s with fdset := fdsetRemoveSocket s.fdset fd }

/-- `channels_put` of a new channel, all of whose other fields are zero. -/
def enter (s : ForwardingStream) (ch : Channel) : ForwardingStream :=
  { s with handler := s.handler.enter ch, sock := Function.update s.sock ch.id 0 }

def set (s : ForwardingStream) (ch : Channel) : ForwardingStream :=
  { s with handler := s.handler.set ch }

def setSock (s : ForwardingStream) (id fd : ℕ) : ForwardingStream :=
  { s with sock := Function.update s.sock id fd }

/-- `channels_remove`. The functions below may still hold a reference to the channel; its id goes back
when they return, and no channel is opened in between. -/
def remove (E : WorkerEnv) (s : ForwardingStream) (id : ℕ) : ForwardingStream :=
  { s with handler := s.handler.remove E.mux id }

/-- `notify_channel_close` with the callback for TCP; what the application is told has no effect. -/
def notifyChannelClose (s : ForwardingStream) (ch : Channel) : ForwardingStream :=
  if ch.type = .tcpPortForwarding then
    (s.removeSocket (s.sock ch.id)).socketClose (s.sock ch.id)
  else s

/-- The loop of `multiplex_handler_close_channels`. -/
def closeEach (E : WorkerEnv) : List Channel → ForwardingStream → ForwardingStream
  | [], s => s
  | ch :: rest, s => closeEach E rest ((s.remove E ch.id).notifyChannelClose ch)

def closeChannels (E : WorkerEnv) (s : ForwardingStream) : ForwardingStream :=
  closeEach E s.handler.channels s

/-- `multiplex_handler_on_state_changed`, and then `stream_base_on_state_chagned`. -/
def onStateChanged (E : WorkerEnv) (s : ForwardingStream) (state : StreamState) :
    ForwardingStream :=
  if StreamState.closed.code ≤ state.code then { s.closeChannels E with state := state }
  else { s with state := state }

/-- `ice_handler_stop`, which reports the state from within the call. -/
def iceHandlerStop (E : WorkerEnv) (s : ForwardingStream) (error : ℤ) : ForwardingStream :=
  if s.stopping then s
  else
    let s := { s with stopping := true }
    if s.state.code ≤ StreamState.connected.code then
      s.onStateChanged E (if error = 0 then .closed else .failed)
    else s

def reliableHandlerWrite (E : WorkerEnv) (s : ForwardingStream) : ForwardingStream × ℤ :=
  if s.state ≠ .connected then (s, intError .wrongState)
  else (E.stop.elim s (s.iceHandlerStop E), E.written)

/-- `multiplex_handler_send_packet`; what the packet says does not matter here. -/
def sendPacket (E : WorkerEnv) (s : ForwardingStream) (payload : Bytes) : ForwardingStream × ℤ :=
  let (s, sent) := s.reliableHandlerWrite E
  (s, if sent < 0 then sent else payload.length)

def tcpPortforwardingChannelOpen (E : WorkerEnv) (s : ForwardingStream) (ch : Channel)
    (cookie : Option Bytes) : Bool × ForwardingStream :=
  match cookie, E.services with
  | none, _ => (false, s)
  | some _, none => (false, s)
  | some cookie, some services =>
    if services cookie ≠ some tcpProtocol then (false, s)
    else
      match E.socket with
      | none => (false, s)
      | some fd => (true, (s.socketOpen .data fd).setSock ch.id fd)

/-- `tcp_portforwarding_channel_data`: whether the socket takes all of the data. -/
def tcpPortforwardingChannelData (E : WorkerEnv) (data : Bytes) : Bool := data = [] ∨ E.send

/-- `notify_channel_open`; UDP has no callbacks. -/
def notifyChannelOpen (E : WorkerEnv) (s : ForwardingStream) (ch : Channel)
    (cookie : Option Bytes) : Bool × ForwardingStream :=
  match ch.type with
  | .user => (E.channelOpen ch cookie, s)
  | .udpPortForwarding => (true, s)
  | .tcpPortForwarding => s.tcpPortforwardingChannelOpen E ch cookie

def notifyChannelData (E : WorkerEnv) (ch : Channel) (data : Bytes) : Bool :=
  match ch.type with
  | .user => E.channelData ch data
  | .udpPortForwarding => true
  | .tcpPortForwarding => tcpPortforwardingChannelData E data

/-- `notify_channel_opened` and `notify_channel_resume`, which do the same for TCP. -/
def notifyChannelOpened (s : ForwardingStream) (ch : Channel) : ForwardingStream :=
  if ch.type = .tcpPortForwarding then s.addSocket (s.sock ch.id) else s

def notifyChannelPending (s : ForwardingStream) (ch : Channel) : ForwardingStream :=
  if ch.type = .tcpPortForwarding then s.removeSocket (s.sock ch.id) else s

/-- `notify_channel_close` and then `channels_remove`. -/
def closeAndRemove (E : WorkerEnv) (s : ForwardingStream) (ch : Channel) : ForwardingStream :=
  (s.notifyChannelClose ch).remove E ch.id

/-- The `Open` packet. -/
def notifyOpen (E : WorkerEnv) (s : ForwardingStream) (pb : ProtocolBuffer) : ForwardingStream :=
  match incomingChannel E.mux s.handler pb with
  | none =>
    if (s.handler.openType pb).isSome then (s.sendPacket E []).1
    else s
  | some ch =>
    let (ok, s) := (s.enter ch).notifyChannelOpen E ch pb.cookie
    let (s, rc) := s.sendPacket E []
    if !ok then s.remove E ch.id
    else if rc < 0 then s.closeAndRemove E ch
    else
      (s.set (updateRemoteTimestamp E.mux { ch with status := .open })).notifyChannelOpened ch

/-- The other packets, for the channel they name. -/
def notifyChannel (E : WorkerEnv) (s : ForwardingStream) (ch : Channel) (pb : ProtocolBuffer) :
    ForwardingStream :=
  match PacketType.ofCode pb.type with
  | some .channelOpenConfirmation =>
    if ch.status ≠ .opening then s
    else if pb.remoteChannelId ≠ 0 then
      let open_ := { ch with status := .open, remoteId := pb.remoteChannelId }
      (s.set (updateRemoteTimestamp E.mux open_)).notifyChannelOpened ch
    else s.closeAndRemove E ch
  | some .channelData =>
    if ch.status ≠ .pending ∧ ch.status ≠ .open then s
    else if notifyChannelData E ch pb.payload then s.set (updateRemoteTimestamp E.mux ch)
    else s.closeAndRemove E ch
  | some .channelKeepAlive => s.set { ch with remoteTimestamp := E.now }
  | some .channelPending =>
    if ch.status ≠ .open then s
    else
      (s.set (updateRemoteTimestamp E.mux { ch with status := .pending })).notifyChannelPending
        ch
  | some .channelResume =>
    if ch.status ≠ .pending then s
    else
      (s.set (updateRemoteTimestamp E.mux { ch with status := .open })).notifyChannelOpened ch
  | some .channelClose => s.closeAndRemove E ch
  | some .channelOpen => s
  | none => s

/-- `multiplex_handler_notify_packet`. A packet for channel 0 has no result, as the hash table does
not admit 0 as a key. -/
def notifyPacket (E : WorkerEnv) (s : ForwardingStream) (p : Bytes) : Option ForwardingStream :=
  match receivedPacket p with
  | none => some s
  | some pb =>
    if pb.remoteChannelId = 0 ∧ pb.localChannelId = 0 ∧ pb.type = PacketType.channelData.code then
      some s
    else if pb.type = PacketType.channelOpen.code then some (s.notifyOpen E pb)
    else if pb.localChannelId = 0 then none
    else
      match channelsGet s.handler.channels pb.localChannelId with
      | none => some s
      | some ch => some (s.notifyChannel E ch pb)

/-- `multiplex_handler_open_channel`; `sock` is the variable argument, of which only TCP makes use. -/
def openChannel (E : WorkerEnv) (s : ForwardingStream) (type : ChannelType) (cookie : Option Bytes)
    (timeout : ℤ) (sock : ℕ) : ForwardingStream × ℤ :=
  let cid := (idsHeapAlloc s.handler.channelIds).2
  if cid < 0 then (s, intError .limitExceeded)
  else
    let ch := newChannel E.mux s.handler type timeout
    let s := s.enter ch
    let s := if type = .tcpPortForwarding then s.setSock ch.id sock else s
    let (s, rc) := s.sendPacket E (cookie.elim [] (· ++ [0]))
    if rc < 0 then (s.remove E ch.id, rc) else (s, cid)

def closeChannel (E : WorkerEnv) (s : ForwardingStream) (cid : ℕ) : ForwardingStream :=
  match channelsGet s.handler.channels cid with
  | none => s
  | some ch =>
    let s := if ch.remoteId = 0 then s else (s.sendPacket E []).1
    s.closeAndRemove E ch

/-- What `write_channel`, `pend_channel` and `resume_channel` share. -/
def sendOnChannel (E : WorkerEnv) (s : ForwardingStream) (cid : ℕ) (payload : Bytes)
    (keeps : ℤ → Bool) : ForwardingStream :=
  match channelsGet s.handler.channels cid with
  | none => s
  | some ch =>
    if ch.status ≠ .open ∧ ch.status ≠ .pending then s
    else if ch.remoteId = 0 then s
    else
      let (s, rc) := s.sendPacket E payload
      if keeps rc then s.set (updateLocalTimestamp E.mux ch) else s

def writeChannel (E : WorkerEnv) (s : ForwardingStream) (cid : ℕ) (data : Bytes) :
    ForwardingStream :=
  if cid = 0 then (s.sendPacket E data).1
  else s.sendOnChannel E cid data (fun rc => 0 ≤ rc)

def handleTcpPortforwardingChannel (E : WorkerEnv) (s : ForwardingStream) (cid : ℕ) :
    ForwardingStream :=
  if E.recv = [] then s.closeChannel E cid else s.writeChannel E cid E.recv

/-- `handle_tcp_portofrwarding` -/
def handleTcpPortforwarding (E : WorkerEnv) (s : ForwardingStream) (pf : PortForwarding) :
    ForwardingStream :=
  match E.socket with
  | none => s
  | some sock =>
    let (s, cid) := (s.socketOpen .data sock).openChannel E .tcpPortForwarding (some pf.service) 0 sock
    if cid ≤ 0 then s.socketClose sock else s

def portforwardingsGet (htab : List PortForwarding) (id : ℕ) : Option PortForwarding :=
  htab.find? (fun pf => pf.id = id)

/-- `portforwarding_open` of a protocol that passes the assertion. -/
def portforwardingOpen (E : WorkerEnv) (s : ForwardingStream) (service : Bytes) : ForwardingStream :=
  match E.socket with
  | none => s
  | some sock =>
    let s := s.socketOpen .listening sock
    if !E.listen then s.socketClose sock
    else
      let (ids, id) := idsHeapAlloc s.pfIds
      let s := { s with pfIds := ids }
      if id < 0 then s.socketClose sock
      else
        let pf : PortForwarding := ⟨id.toNat, tcpProtocol, service, sock⟩
        { s with
          portforwardings := putEntry (fun x => x.id = pf.id) s.portforwardings pf }.addSocket sock

def portforwardingClose (E : WorkerEnv) (s : ForwardingStream) (pfid : ℕ) : ForwardingStream :=
  match portforwardingsGet s.portforwardings pfid with
  | none => s
  | some pf =>
    let s := { s with portforwardings := removeEntry (fun x => x.id = pfid) s.portforwardings }
    let s := (s.removeSocket pf.sock).socketClose pf.sock
    { s with pfIds := idsHeapFree E.shift s.pfIds pfid }

def multiplexHandlerStop (E : WorkerEnv) (s : ForwardingStream) (error : ℤ) : ForwardingStream :=
  { s.closeChannels E with running := false }.iceHandlerStop E error

/-- `multiplex_handler_destroy`: the port forwardings that are left close their sockets, the channels
are dropped. -/
def multiplexHandlerDestroy (s : ForwardingStream) : ForwardingStream :=
  { s with
    handler := { s.handler with channels := [] }
    portforwardings := []
    destroyed := true
    log := s.portforwardings.foldl (fun log pf => .closed pf.sock :: log) s.log }

/-- `IOEX_session_remove_stream`; `last` tells whether no other reference is left. -/
def removeStream (E : WorkerEnv) (s : ForwardingStream) (last : Bool) : ForwardingStream :=
  let s := s.multiplexHandlerStop E 0
  if last then s.multiplexHandlerDestroy else s

/-- What happens to a stream. `accept` and `readable` are the worker's, for a descriptor that `select`
reports; `handlerStop` is a stop of the reliable handler outside of a write. -/
inductive Op where
  | start
  | openPortforwarding (service : Bytes)
  | closePortforwarding (pfid : ℕ)
  | accept (pfid : ℕ)
  | readable (cid : ℕ)
  | receive (p : Bytes)
  | openChannel (cookie : Option Bytes)
  | closeChannel (cid : ℕ)
  | writeChannel (cid : ℕ) (data : Bytes)
  | pendChannel (cid : ℕ)
  | resumeChannel (cid : ℕ)
  | stateChanged (state : StreamState)
  | handlerStop (error : ℤ)
  | removeStream (last : Bool)

def InUse (s : ForwardingStream) (fd : ℕ) : Prop :=
  fd = s.fdset.event ∨ (FdEvent.current s.log fd).isSome

instance (s : ForwardingStream) (fd : ℕ) : Decidable (s.InUse fd) :=
  inferInstanceAs (Decidable (_ ∨ _))

def call (E : WorkerEnv) (s : ForwardingStream) : Op → Option ForwardingStream
  | .start => some { s with running := true }
  | .openPortforwarding service => some (s.portforwardingOpen E service)
  | .closePortforwarding pfid => some (s.portforwardingClose E pfid)
  | .accept pfid =>
    match portforwardingsGet s.portforwardings pfid with
    | none => none
    | some pf =>
      if s.running ∧ pf.sock ∈ s.fdset.rfds then
        some (if pf.protocol = tcpProtocol then s.handleTcpPortforwarding E pf else s)
      else none
  | .readable cid =>
    match channelsGet s.handler.channels cid with
    | none => none
    | some ch =>
      if s.running ∧ ch.type = .tcpPortForwarding ∧ s.sock ch.id ∈ s.fdset.rfds then
        some (s.handleTcpPortforwardingChannel E cid)
      else none
  | .receive p => s.notifyPacket E p
  | .openChannel cookie =>
    some (if s.state = .connected then (s.openChannel E .user cookie 0 0).1 else s)
  | .closeChannel cid => some (s.closeChannel E cid)
  | .writeChannel cid data => some (s.writeChannel E cid data)
  | .pendChannel cid => some (s.sendOnChannel E cid [] (fun rc => rc = 0))
  | .resumeChannel cid => some (s.sendOnChannel E cid [] (fun rc => rc = 0))
  | .stateChanged state => some (s.onStateChanged E state)
  | .handlerStop error => some (s.iceHandlerStop E error)
  | .removeStream last => some (s.removeStream E last)

/-- One call, given what it meets. The system hands out no descriptor that is in use. -/
def step (s : ForwardingStream) (act : WorkerEnv × Op) : Option ForwardingStream :=
  if s.destroyed ∨ ∃ fd ∈ act.1.socket, s.InUse fd then none else s.call act.1 act.2

end ForwardingStream

end Carrier.Session
