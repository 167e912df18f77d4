import Carrier.Common.Error
import Carrier.Common.IdsHeap
import Carrier.Session.Reassembly

/-! The channel operations and the packet handler of `session/multiplex_handler.c`. Callbacks that
call back into the multiplexer are left out, and so is running out of memory. -/
namespace Carrier.Session
open Carrier.Lib Carrier.Common

/-- `struct timeval` -/
structure TimeVal where
  sec : ℤ
  usec : ℤ
  deriving DecidableEq

def maxChannelId : ℕ := 2048

inductive PacketType where
  | channelOpen
  | channelOpenConfirmation
  | channelData
  | channelKeepAlive
  | channelPending
  | channelResume
  | channelClose
  deriving DecidableEq

def PacketType.code : PacketType → ℕ
  | .channelOpen => 1
  | .channelOpenConfirmation => 2
  | .channelData => 3
  | .channelKeepAlive => 4
  | .channelPending => 5
  | .channelResume => 6
  | .channelClose => 7

def PacketType.ofCode : ℕ → Option PacketType
  | 1 => some .channelOpen
  | 2 => some .channelOpenConfirmation
  | 3 => some .channelData
  | 4 => some .channelKeepAlive
  | 5 => some .channelPending
  | 6 => some .channelResume
  | 7 => some .channelClose
  | _ => none

inductive ChannelType where
  | user
  | udpPortForwarding
  | tcpPortForwarding
  deriving DecidableEq

def ChannelType.code : ChannelType → ℕ
  | .user => 0
  | .udpPortForwarding => 1
  | .tcpPortForwarding => 2

def ChannelType.ofCode : ℕ → Option ChannelType
  | 0 => some .user
  | 1 => some .udpPortForwarding
  | 2 => some .tcpPortForwarding
  | _ => none

inductive ChannelStatus where
  | opening
  | open
  | pending
  | closing
  deriving DecidableEq

inductive CloseReason where
  | normal
  | timeout
  | error
  deriving DecidableEq

/-- A packet in host byte order. On the wire the ids are those of the receiver: `localChannelId`
is the channel the packet is for, `remoteChannelId` the one it comes from. -/
structure ProtocolBuffer where
  type : ℕ
  option : ℕ
  localChannelId : ℕ
  remoteChannelId : ℕ
  payloadLen : ℕ
  payload : Bytes
  deriving DecidableEq

structure Channel where
  id : ℕ
  remoteId : ℕ
  type : ChannelType
  status : ChannelStatus
  localTimestamp : TimeVal
  remoteTimestamp : TimeVal
  lastActivity : TimeVal
  timeout : ℤ
  deriving DecidableEq

/-- The table of channels, ordered as its entries are linked. -/
abbrev Channels := List Channel

def channelsGet (htab : Channels) (id : ℕ) : Option Channel := htab.find? (fun ch => ch.id = id)

def channelsSet (htab : Channels) (ch : Channel) : Channels :=
  htab.map (fun c => if c.id = ch.id then ch else c)

def channelsPut (htab : Channels) (ch : Channel) : Channels :=
  if (channelsGet htab ch.id).isSome then channelsSet htab ch else htab ++ [ch]

def channelsRemove (htab : Channels) (id : ℕ) : Channels := htab.filter (fun ch => ch.id ≠ id)

theorem channelsGet_id {htab : Channels} {id : ℕ} {ch : Channel}
    (h : channelsGet htab id = some ch) : ch.id = id := by
  simpa using List.find?_some h

theorem channelsGet_set (htab : Channels) (ch : Channel) (id : ℕ) :
    channelsGet (channelsSet htab ch) id =
      if id = ch.id then (channelsGet htab id).map (fun _ => ch) else channelsGet htab id := by
  induction htab with
  | nil => split <;> rfl
  | cons c htab ih =>
    simp only [channelsGet, channelsSet, List.map_cons, List.find?_cons] at ih ⊢
    by_cases hc : c.id = ch.id
    · by_cases hid : id = ch.id
      · simp [hc, hid]
      · have hne : ch.id ≠ id := Ne.symm hid
        simpa [hc, hne, hid] using ih
    · by_cases hid : c.id = id
      · have hne : id ≠ ch.id := fun h => hc (hid.trans h)
        simp [hid, hne]
      · simpa [hc, hid] using ih

theorem channelsGet_put (htab : Channels) (ch : Channel) (id : ℕ) :
    channelsGet (channelsPut htab ch) id = if id = ch.id then some ch else channelsGet htab id := by
  unfold channelsPut
  split_ifs with hsome hid hid
  · obtain ⟨c, hc⟩ := Option.isSome_iff_exists.mp hsome
    rw [channelsGet_set, if_pos hid, hid, hc, Option.map_some]
  · rw [channelsGet_set, if_neg hid]
  · have hnone : channelsGet htab id = none := by simpa [hid] using hsome
    unfold channelsGet at hnone ⊢
    rw [List.find?_append, hnone]
    simp [hid]
  · have hne : ch.id ≠ id := Ne.symm hid
    unfold channelsGet
    rw [List.find?_append]
    simp [hne]

theorem channelsGet_remove (htab : Channels) (id' id : ℕ) :
    channelsGet (channelsRemove htab id') id =
      if id = id' then none else channelsGet htab id := by
  unfold channelsGet channelsRemove
  rw [List.find?_filter]
  split_ifs with h
  · simp [h]
  · congr 1
    funext c
    by_cases hc : c.id = id
    · simp [hc, h]
    · simp [hc]

/-- The handler; `worker` is whether it has a port forwarding worker. -/
structure MultiplexHandler where
  channels : Channels
  channelIds : IdsHeap
  worker : Bool
  reliable : Bool

def multiplexHandlerCreate (worker reliable : Bool) : MultiplexHandler :=
  ⟨[], idsHeapInit maxChannelId, worker, reliable⟩

/-- What a call of the handler meets: the clock, the result of the next handler's write, the error
with which the reliable handler stops in the course of that write, if it does, and the results of the
callbacks. -/
structure MuxEnv where
  shift : IntShift
  now : TimeVal
  next : ProtocolBuffer → ℤ
  stop : ProtocolBuffer → Option ℤ
  channelOpen : Channel → Option Bytes → Bool
  channelData : Channel → Bytes → Bool

/-- What a call of the handler does to its neighbours, in order. -/
inductive MuxEvent where
  | send (pb : ProtocolBuffer)
  | onData (data : Bytes)
  | channelOpen (id : ℕ) (cookie : Option Bytes)
  | channelOpened (id : ℕ)
  | channelData (id : ℕ) (data : Bytes)
  | channelPending (id : ℕ)
  | channelResume (id : ℕ)
  | channelClose (id : ℕ) (reason : CloseReason)
  deriving DecidableEq

/-- `multiplex_handler_send_packet`: the packet written, and the result. -/
def multiplexHandlerSendPacket (E : MuxEnv) (type : PacketType) (option localId remoteId : ℕ)
    (payload : Bytes) : ProtocolBuffer × ℤ :=
  let pb : ProtocolBuffer :=
    ⟨type.code, option, remoteId, localId, payload.length % 2 ^ 16, payload⟩
  (pb, if E.next pb < 0 then E.next pb else payload.length)

def updateRemoteTimestamp (E : MuxEnv) (ch : Channel) : Channel :=
  { ch with remoteTimestamp := E.now, lastActivity := E.now }

def updateLocalTimestamp (E : MuxEnv) (ch : Channel) : Channel :=
  { ch with localTimestamp := E.now, lastActivity := E.now }

namespace MultiplexHandler

/-- `channels_remove`; the last reference gives the id back. -/
def remove (E : MuxEnv) (h : MultiplexHandler) (id : ℕ) : MultiplexHandler :=
  if (channelsGet h.channels id).isSome then
    { h with
      channels := channelsRemove h.channels id
      channelIds := idsHeapFree E.shift h.channelIds id }
  else h

def set (h : MultiplexHandler) (ch : Channel) : MultiplexHandler :=
  { h with channels := channelsSet h.channels ch }

def put (h : MultiplexHandler) (ch : Channel) : MultiplexHandler :=
  { h with channels := channelsPut h.channels ch }

/-- The type of channel an `Open` packet asks for, if the stream has it. -/
def openType (h : MultiplexHandler) (pb : ProtocolBuffer) : Option ChannelType :=
  match ChannelType.ofCode pb.option with
  | some .udpPortForwarding => if h.worker then some .udpPortForwarding else none
  | some .tcpPortForwarding => if h.worker ∧ h.reliable then some .tcpPortForwarding else none
  | some .user => some .user
  | none => none

end MultiplexHandler

/-- One round of the loop of `multiplex_handler_close_channels`. -/
def closeChannelsRound (E : MuxEnv) (reason : CloseReason) (h : MultiplexHandler) (ch : Channel) :
    MultiplexHandler × List MuxEvent :=
  (h.remove E ch.id, [.channelClose ch.id reason])

/-- A loop over the table. As no callback changes the table, the iterator meets the channels that
were in it at the start, each as it was then. -/
def iterateChannels (round : MultiplexHandler → Channel → MultiplexHandler × List MuxEvent) :
    MultiplexHandler → List Channel → MultiplexHandler × List MuxEvent
  | h, [] => (h, [])
  | h, ch :: rest =>
    let (h, events) := round h ch
    let (h, events') := iterateChannels round h rest
    (h, events ++ events')

def multiplexHandlerCloseChannels (E : MuxEnv) (h : MultiplexHandler) (reason : CloseReason) :
    MultiplexHandler × List MuxEvent :=
  iterateChannels (closeChannelsRound E reason) h h.channels

namespace MultiplexHandler

/-- Why the channels are closed when the write of `pb` stops the stream. Below an unreliable stream
there is no handler that stops it in a write. -/
def stops (E : MuxEnv) (h : MultiplexHandler) (pb : ProtocolBuffer) : Option CloseReason :=
  if h.reliable then (E.stop pb).map (fun error => if error = 0 then .normal else .error) else none

/-- The next handler's write. `ice_handler_stop` reports the new state from within it, so that all
channels are closed by the time it returns. -/
def written (E : MuxEnv) (h : MultiplexHandler) (pb : ProtocolBuffer) :
    MultiplexHandler × List MuxEvent :=
  match h.stops E pb with
  | none => (h, [.send pb])
  | some reason =>
    let (h, events) := multiplexHandlerCloseChannels E h reason
    (h, .send pb :: events)

theorem written_of_stops_eq_none {E : MuxEnv} {h : MultiplexHandler} {pb : ProtocolBuffer}
    (hstops : h.stops E pb = none) : h.written E pb = (h, [.send pb]) := by
  rw [written, hstops]

end MultiplexHandler

/-- The `Open` packet. Without a free id the refusal goes to the `remote_id` of a channel that has
not been filled in yet. -/
def notifyChannelOpen (E : MuxEnv) (h : MultiplexHandler) (pb : ProtocolBuffer) :
    MultiplexHandler × List MuxEvent :=
  match h.openType pb with
  | none => (h, [])
  | some type =>
    let (ids, cid) := idsHeapAlloc h.channelIds
    let h := { h with channelIds := ids }
    if cid < 0 then
      h.written E (multiplexHandlerSendPacket E .channelOpenConfirmation 0 0 0 []).1
    else
      let ch : Channel :=
        { id := cid.toNat % 2 ^ 16
          remoteId := pb.remoteChannelId
          type := type
          status := .opening
          localTimestamp := ⟨0, 0⟩
          remoteTimestamp := E.now
          lastActivity := E.now
          timeout := 0 }
      let h := h.put ch
      let cookie := if pb.payloadLen = 0 then none else some pb.payload
      let ok := E.channelOpen ch cookie
      let (confirmation, rc) := multiplexHandlerSendPacket E .channelOpenConfirmation 0
        (if ok then ch.id else 0) ch.remoteId []
      -- the channel may be gone after the write, which is not looked at
      let (h, sent) := h.written E confirmation
      let events := .channelOpen ch.id cookie :: sent
      if !ok then (h.remove E ch.id, events)
      else if rc < 0 then (h.remove E ch.id, events ++ [.channelClose ch.id .error])
      else
        (h.set (updateRemoteTimestamp E { ch with status := .open }),
          events ++ [.channelOpened ch.id])

/-- The other packets, for the channel they name. -/
def notifyChannel (E : MuxEnv) (h : MultiplexHandler) (ch : Channel) (pb : ProtocolBuffer) :
    MultiplexHandler × List MuxEvent :=
  match PacketType.ofCode pb.type with
  | some .channelOpenConfirmation =>
    if ch.status ≠ .opening then (h, [])
    else if pb.remoteChannelId ≠ 0 then
      let ch := { ch with status := .open, remoteId := pb.remoteChannelId }
      (h.set (updateRemoteTimestamp E ch), [.channelOpened ch.id])
    else (h.remove E ch.id, [.channelClose ch.id .error])
  | some .channelData =>
    if ch.status ≠ .pending ∧ ch.status ≠ .open then (h, [])
    else if E.channelData ch pb.payload then
      (h.set (updateRemoteTimestamp E ch), [.channelData ch.id pb.payload])
    else (h.remove E ch.id, [.channelData ch.id pb.payload, .channelClose ch.id .error])
  | some .channelKeepAlive => (h.set { ch with remoteTimestamp := E.now }, [])
  | some .channelPending =>
    if ch.status ≠ .open then (h, [])
    else
      (h.set (updateRemoteTimestamp E { ch with status := .pending }), [.channelPending ch.id])
  | some .channelResume =>
    if ch.status ≠ .pending then (h, [])
    else (h.set (updateRemoteTimestamp E { ch with status := .open }), [.channelResume ch.id])
  | some .channelClose => (h.remove E ch.id, [.channelClose ch.id .normal])
  | some .channelOpen => (h, [])
  | none => (h, [])

/-- `multiplex_handler_notify_packet` on a packet with a whole header. There is no result when the
type has no name to log, or when the channel asked for is 0, which the hash table does not
admit as a key. -/
def multiplexHandlerNotifyPacket (E : MuxEnv) (h : MultiplexHandler) (pb : ProtocolBuffer) :
    Option (MultiplexHandler × List MuxEvent) :=
  if pb.payload.length ≠ pb.payloadLen then some (h, [])
  else if pb.remoteChannelId = 0 ∧ pb.localChannelId = 0 ∧ pb.type = PacketType.channelData.code
  then some (h, [.onData pb.payload])
  else if 8 ≤ pb.type then none
  else if pb.type = PacketType.channelOpen.code then some (notifyChannelOpen E h pb)
  else if pb.localChannelId = 0 then none
  else
    match channelsGet h.channels pb.localChannelId with
    | none => some (h, [])
    | some ch => some (notifyChannel E h ch pb)

/-- What a call of the application leaves behind, and its result. -/
structure MuxCall where
  handler : MultiplexHandler
  events : List MuxEvent
  result : ℤ

/-- `multiplex_handler_open_channel`; a type the stream does not have fails an assertion. -/
def multiplexHandlerOpenChannel (E : MuxEnv) (h : MultiplexHandler) (type : ChannelType)
    (cookie : Option Bytes) (timeout : ℤ) : Option MuxCall :=
  if type = .udpPortForwarding ∧ ¬h.worker ∨
      type = .tcpPortForwarding ∧ ¬(h.worker ∧ h.reliable) then none
  else
    let (ids, cid) := idsHeapAlloc h.channelIds
    let h := { h with channelIds := ids }
    if cid < 0 then some ⟨h, [], intError .limitExceeded⟩
    else
      let ch : Channel :=
        { id := cid.toNat % 2 ^ 16
          remoteId := 0
          type := type
          status := .opening
          localTimestamp := ⟨0, 0⟩
          remoteTimestamp := E.now
          lastActivity := E.now
          timeout := timeout }
      let h := h.put ch
      let payload := cookie.elim [] (· ++ [0])
      let (pb, rc) :=
        multiplexHandlerSendPacket E .channelOpen type.code ch.id ch.remoteId payload
      let (h, sent) := h.written E pb
      if rc < 0 then some ⟨h.remove E cid.toNat, sent, rc⟩
      else some ⟨h, sent, cid⟩

/-- `multiplex_handler_close_channel`. As the remote id of an unconfirmed channel is not known,
its peer is not told. -/
def multiplexHandlerCloseChannel (E : MuxEnv) (h : MultiplexHandler) (cid : ℕ) : Option MuxCall :=
  if cid = 0 then none
  else
    match channelsGet h.channels cid with
    | none => some ⟨h, [], intError .notExist⟩
    | some ch =>
      let (h, sent) := if ch.remoteId = 0 then (h, []) else
        h.written E (multiplexHandlerSendPacket E .channelClose 0 ch.id ch.remoteId []).1
      some ⟨h.remove E cid, sent ++ [.channelClose ch.id .normal], 0⟩

/-- What `write_channel`, `pend_channel` and `resume_channel` share: a packet on a channel that is
confirmed, and `keeps` decides on its result whether the channel has been active. -/
def sendOnChannel (E : MuxEnv) (h : MultiplexHandler) (cid : ℕ) (type : PacketType)
    (payload : Bytes) (keeps : ℤ → Bool) : MuxCall :=
  match channelsGet h.channels cid with
  | none => ⟨h, [], intError .notExist⟩
  | some ch =>
    if ch.status ≠ .open ∧ ch.status ≠ .pending then ⟨h, [], intError .wrongState⟩
    else if ch.remoteId = 0 then ⟨h, [], intError .wrongState⟩
    else
      let (pb, rc) := multiplexHandlerSendPacket E type 0 ch.id ch.remoteId payload
      let (h, sent) := h.written E pb
      ⟨if keeps rc then h.set (updateLocalTimestamp E ch) else h, sent, rc⟩

def multiplexHandlerWriteChannel (E : MuxEnv) (h : MultiplexHandler) (cid : ℕ) (data : Bytes) :
    MuxCall :=
  if cid = 0 then
    let (pb, rc) := multiplexHandlerSendPacket E .channelData 0 0 0 data
    let (h, sent) := h.written E pb
    ⟨h, sent, rc⟩
  else sendOnChannel E h cid .channelData data (fun rc => 0 ≤ rc)

def multiplexHandlerPendChannel (E : MuxEnv) (h : MultiplexHandler) (cid : ℕ) : Option MuxCall :=
  if cid = 0 then none else some (sendOnChannel E h cid .channelPending [] (fun rc => rc = 0))

def multiplexHandlerResumeChannel (E : MuxEnv) (h : MultiplexHandler) (cid : ℕ) : Option MuxCall :=
  if cid = 0 then none else some (sendOnChannel E h cid .channelResume [] (fun rc => rc = 0))

end Carrier.Session
