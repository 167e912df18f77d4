import Carrier.Session.ChannelCalls
import Carrier.Session.PacketBytes
import Carrier.Session.Sdp

/-! Runs of one multiplex handler: received bytes, calls of the application, checkpoints and
changes of the stream's state, with any results of its neighbours. -/
namespace Carrier.Session
open Carrier.Lib Carrier.Common

def keepaliveInterval : ℤ := 30000

def keepaliveTimeoutInterval : ℤ := 130000

/-- A value kept in an `int`. -/
def toInt (x : ℤ) : ℤ := x.bmod (2 ^ 32)

theorem toInt_of_small {x : ℤ} (hlow : -2 ^ 31 ≤ x) (hhigh : x < 2 ^ 31) : toInt x = x := by
  unfold toInt
  rw [Int.bmod_eq_of_le (by omega) (by omega)]

/-- The milliseconds since `t`, as the checkpoint computes them. -/
def intervalSince (now t : TimeVal) : ℤ :=
  toInt (toInt ((now.sec - t.sec) * 1000) + toInt ((now.usec - t.usec).tdiv 1000))

/-- One round of the loop of `multiplex_handler_checkpoint`. It runs on unreliable streams only, whose
writes stop nothing. -/
def checkpointChannel (E : MuxEnv) (h : MultiplexHandler) (ch : Channel) :
    MultiplexHandler × List MuxEvent :=
  if ch.timeout ≠ 0 ∧ toInt (ch.timeout * 1000) ≤ intervalSince E.now ch.lastActivity ∨
      keepaliveTimeoutInterval ≤ intervalSince E.now ch.remoteTimestamp then
    (h.remove E ch.id, [.channelClose ch.id .timeout])
  else if keepaliveInterval ≤ intervalSince E.now ch.localTimestamp then
    let (pb, rc) := multiplexHandlerSendPacket E .channelKeepAlive 0 ch.id ch.remoteId []
    (if rc = 0 then h.set { ch with localTimestamp := E.now } else h, [.send pb])
  else (h, [])

def multiplexHandlerCheckpoint (E : MuxEnv) (h : MultiplexHandler) :
    MultiplexHandler × List MuxEvent :=
  iterateChannels (checkpointChannel E) h h.channels

def multiplexHandlerOnStateChanged (E : MuxEnv) (h : MultiplexHandler) :
    StreamState → MultiplexHandler × List MuxEvent
  | .closed => multiplexHandlerCloseChannels E h .normal
  | .failed => multiplexHandlerCloseChannels E h .error
  | _ => (h, [])

/-- The cookie that `notify_packet` hands to the callback. -/
def ProtocolBuffer.cookie (pb : ProtocolBuffer) : Option Bytes :=
  if pb.payloadLen = 0 then none else some pb.payload

/-- The channel that an `Open` packet puts into the table. -/
def incomingChannel (E : MuxEnv) (h : MultiplexHandler) (pb : ProtocolBuffer) : Option Channel :=
  match h.openType pb with
  | none => none
  | some type =>
    let cid := (idsHeapAlloc h.channelIds).2
    if cid < 0 then none
    else
      some
        { id := cid.toNat % 2 ^ 16
          remoteId := pb.remoteChannelId
          type := type
          status := .opening
          localTimestamp := ⟨0, 0⟩
          remoteTimestamp := E.now
          lastActivity := E.now
          timeout := 0 }

/-- What the peer is told of the close of a channel. -/
def closeNotice (ch : Channel) : ProtocolBuffer := sentPacket .channelClose 0 ch.id ch.remoteId []

/-- The answer to an `Open` packet that puts `ch` into the table. -/
def openAnswer (E : MuxEnv) (ch : Channel) (pb : ProtocolBuffer) : ProtocolBuffer :=
  sentPacket .channelOpenConfirmation 0 (if E.channelOpen ch pb.cookie then ch.id else 0) ch.remoteId
    []

/-- What can go wrong in handling a packet: a failed assertion, or an access outside of a table or
a payload. -/
inductive Fault where
  | shortPacket
  | packetTypeName
  | nullKey
  | unterminatedCookie
  | tcpCookie
  | tcpData
  deriving DecidableEq

/-- What the callback for a new channel relies on. There are no callbacks for UDP. -/
def channelOpenFault (type : ChannelType) (cookie : Option Bytes) : Option Fault :=
  match type, cookie with
  | .user, none => none
  | .user, some cookie => if 0 ∈ cookie then none else some .unterminatedCookie
  | .udpPortForwarding, _ => none
  | .tcpPortForwarding, none => some .tcpCookie
  | .tcpPortForwarding, some cookie =>
    if cookie.head? = some 0 then some .tcpCookie
    else if 0 ∈ cookie then none
    else some .unterminatedCookie

/-- What the callback for data relies on. -/
def channelDataFault (type : ChannelType) (data : Bytes) : Option Fault :=
  if type = .tcpPortForwarding ∧ data = [] then some .tcpData else none

/-- `multiplex_handler_notify_packet` on the bytes of a buffer. The name of the packet's type is
looked up when the log level admits traces. -/
def multiplexHandlerNotifyBytes (E : MuxEnv) (trace : Bool) (h : MultiplexHandler) (p : Bytes) :
    Except Fault (MultiplexHandler × List MuxEvent) :=
  if p.length < protocolHeadLen then .error .shortPacket
  else
    match receivedPacket p with
    | none => .ok (h, [])
    | some pb =>
      if pb.remoteChannelId = 0 ∧ pb.localChannelId = 0 ∧ pb.type = PacketType.channelData.code then
        .ok (h, [.onData pb.payload])
      else if trace ∧ 8 ≤ pb.type then .error .packetTypeName
      else if pb.type = PacketType.channelOpen.code then
        match (incomingChannel E h pb).bind (fun ch => channelOpenFault ch.type pb.cookie) with
        | some fault => .error fault
        | none => .ok (notifyChannelOpen E h pb)
      else if pb.localChannelId = 0 then .error .nullKey
      else
        match channelsGet h.channels pb.localChannelId with
        | none => .ok (h, [])
        | some ch =>
          let delivers := pb.type = PacketType.channelData.code ∧
            (ch.status = .pending ∨ ch.status = .open)
          match if delivers then channelDataFault ch.type pb.payload else none with
          | some fault => .error fault
          | none => .ok (notifyChannel E h ch pb)

/-- Where no assertion fails, the bytes are handled as the packet that they hold. -/
theorem notifyPacket_of_notifyBytes {E : MuxEnv} {h : MultiplexHandler} {p : Bytes} {pb : ProtocolBuffer}
    {r : MultiplexHandler × List MuxEvent} (hp : receivedPacket p = some pb)
    (hr : multiplexHandlerNotifyBytes E true h p = .ok r) :
    multiplexHandlerNotifyPacket E h pb = some r := by
  have hlen : pb.payload.length = pb.payloadLen := (receivedPacket_eq_some hp).2.1
  unfold multiplexHandlerNotifyBytes at hr
  unfold multiplexHandlerNotifyPacket
  split_ifs at hr
  rw [hp] at hr
  dsimp only at hr
  simp only [true_and] at hr
  rw [if_neg (not_not.mpr hlen)]
  split_ifs at hr ⊢
  · exact congrArg some (Except.ok.inj hr)
  · split at hr
    · cases hr
    · exact congrArg some (Except.ok.inj hr)
  · cases hget : channelsGet h.channels pb.localChannelId with
    | none =>
      rw [hget] at hr
      exact congrArg some (Except.ok.inj hr)
    | some ch =>
      rw [hget] at hr
      dsimp only at hr
      split at hr
      · cases hr
      · exact congrArg some (Except.ok.inj hr)

/-- What a handler is asked to do. -/
inductive MuxOp where
  | receive (trace : Bool) (p : Bytes)
  | openChannel (type : ChannelType) (cookie : Option Bytes) (timeout : ℤ)
  | closeChannel (cid : ℕ)
  | writeChannel (cid : ℕ) (data : Bytes)
  | pendChannel (cid : ℕ)
  | resumeChannel (cid : ℕ)
  | checkpoint
  | stateChanged (state : StreamState)
  | stop

/-- One call of a handler; there is no result when an assertion fails. -/
def muxCall (E : MuxEnv) (h : MultiplexHandler) : MuxOp → Option MuxCall
  | .receive trace p =>
    match multiplexHandlerNotifyBytes E trace h p with
    | .error _ => none
    | .ok r => some ⟨r.1, r.2, 0⟩
  | .openChannel type cookie timeout => multiplexHandlerOpenChannel E h type cookie timeout
  | .closeChannel cid => multiplexHandlerCloseChannel E h cid
  | .writeChannel cid data => some (multiplexHandlerWriteChannel E h cid data)
  | .pendChannel cid => multiplexHandlerPendChannel E h cid
  | .resumeChannel cid => multiplexHandlerResumeChannel E h cid
  | .checkpoint =>
    let r := multiplexHandlerCheckpoint E h
    some ⟨r.1, r.2, 0⟩
  | .stateChanged state =>
    let r := multiplexHandlerOnStateChanged E h state
    some ⟨r.1, r.2, 0⟩
  | .stop =>
    let r := multiplexHandlerCloseChannels E h .normal
    some ⟨r.1, r.2, 0⟩

/-- A call together with the neighbours it meets. -/
abbrev MuxAct := MuxEnv × MuxOp

def muxStep (h : MultiplexHandler) (act : MuxAct) : Option MultiplexHandler :=
  (muxCall act.1 h act.2).map MuxCall.handler

/-- The states a handler can get into. -/
def MultiplexHandler.Reachable (h : MultiplexHandler) : Prop :=
  ∃ worker reliable acts, exec muxStep (multiplexHandlerCreate worker reliable) acts = some h

/-- What one channel goes through. `created` marks a channel opened by a local call, which no
callback reports; `open` holds what the callback returned. -/
inductive LifeEvent where
  | created
  | open (accepted : Bool)
  | opened
  | data
  | pending
  | resume
  | close
  deriving DecidableEq

/-- The callbacks among the events of a call; `accepted` is what a callback for a new channel
returned. -/
def MuxEvent.life (accepted : Bool) : MuxEvent → Option (ℕ × LifeEvent)
  | .send _ => none
  | .onData _ => none
  | .channelOpen id _ => some (id, .open accepted)
  | .channelOpened id => some (id, .opened)
  | .channelData id _ => some (id, .data)
  | .channelPending id => some (id, .pending)
  | .channelResume id => some (id, .resume)
  | .channelClose id _ => some (id, .close)

/-- The callback accepts the channel of a received packet. -/
def acceptsOpen (E : MuxEnv) (h : MultiplexHandler) (p : Bytes) : Bool :=
  (receivedPacket p).any (fun pb =>
    (incomingChannel E h pb).any (fun ch => E.channelOpen ch pb.cookie))

/-- What a call does in the lives of the channels. A local call that fails has opened no channel,
unless its write has stopped the stream: the new channel is then reported as closed with the
others. -/
def callLife (E : MuxEnv) (h : MultiplexHandler) (op : MuxOp) (r : MuxCall) :
    List (ℕ × LifeEvent) :=
  match op with
  | .openChannel _ _ _ =>
    let closed := r.events.filterMap (MuxEvent.life true)
    if 0 < r.result ∨ closed ≠ [] then
      ((idsHeapAlloc h.channelIds).2.toNat, .created) :: closed
    else []
  | .receive _ p => r.events.filterMap (MuxEvent.life (acceptsOpen E h p))
  | _ => r.events.filterMap (MuxEvent.life true)

/-- The call makes no write that stops the stream and then goes on with a channel of its own: the
`Close` of a channel, and the answer to an `Open`. -/
def KeepsStream (E : MuxEnv) (h : MultiplexHandler) : MuxOp → Prop
  | .closeChannel cid => ∀ ch ∈ channelsGet h.channels cid, ch.remoteId ≠ 0 →
    h.stops E (closeNotice ch) = none
  | .receive _ p => ∀ pb ∈ receivedPacket p, pb.type = PacketType.channelOpen.code →
    ∀ ch ∈ incomingChannel E h pb, h.stops E (openAnswer E ch pb) = none
  | _ => True

instance (E : MuxEnv) (h : MultiplexHandler) : ∀ op, Decidable (KeepsStream E h op)
  | .closeChannel _ => inferInstanceAs (Decidable (∀ _ ∈ _, _ → _))
  | .receive _ _ => inferInstanceAs (Decidable (∀ _ ∈ _, _ → ∀ _ ∈ _, _))
  | .openChannel _ _ _ => inferInstanceAs (Decidable True)
  | .writeChannel _ _ => inferInstanceAs (Decidable True)
  | .pendChannel _ => inferInstanceAs (Decidable True)
  | .resumeChannel _ => inferInstanceAs (Decidable True)
  | .checkpoint => inferInstanceAs (Decidable True)
  | .stateChanged _ => inferInstanceAs (Decidable True)
  | .stop => inferInstanceAs (Decidable True)

/-- How the status of a channel in the table can change, and what its callbacks are told. -/
inductive Turn : ChannelStatus → List LifeEvent → ChannelStatus → Prop where
  | stay (st : ChannelStatus) : Turn st [] st
  | opened : Turn .opening [.opened] .open
  | data {st : ChannelStatus} (h : st = .pending ∨ st = .open) : Turn st [.data] st
  | pending : Turn .open [.pending] .pending
  | resume : Turn .pending [.resume] .open

namespace MultiplexHandler

/-- A channel put into the table under the next free id. -/
def enter (h : MultiplexHandler) (ch : Channel) : MultiplexHandler :=
  { h with channelIds := (idsHeapAlloc h.channelIds).1 }.put ch

/-- The handler can put `ch` into its table. -/
structure Fresh (h : MultiplexHandler) (ch : Channel) : Prop where
  id : (idsHeapAlloc h.channelIds).2 = ch.id
  status : ch.status = .opening
  remoteId : ch.remoteId < 2 ^ 16
  tcp : ch.type = .tcpPortForwarding → h.reliable = true

end MultiplexHandler

/-- The changes every call is made of. -/
inductive Move (h : MultiplexHandler) : List (ℕ × LifeEvent) → MultiplexHandler → Prop where
  | enter {ch : Channel} (hch : h.Fresh ch) {start : LifeEvent}
      (hstart : start = .created ∨ start = .open true) :
      Move h [(ch.id, start)] (h.enter ch)
  | bounce (E : MuxEnv) {ch : Channel} (hch : h.Fresh ch) {events : List (ℕ × LifeEvent)}
      (hev : events = [] ∨ events = [(ch.id, .open false)]) :
      Move h events ((h.enter ch).remove E ch.id)
  | change {ch ch' : Channel} {events : List LifeEvent}
      (hget : channelsGet h.channels ch.id = some ch) (hid : ch'.id = ch.id)
      (htype : ch'.type = ch.type) (hremote : ch'.remoteId < 2 ^ 16)
      (hturn : Turn ch.status events ch'.status) :
      Move h (events.map (fun e => (ch.id, e))) (h.set ch')
  | leave (E : MuxEnv) {ch : Channel} (hget : channelsGet h.channels ch.id = some ch) :
      Move h [(ch.id, .close)] (h.remove E ch.id)

inductive Moves : MultiplexHandler → List (ℕ × LifeEvent) → MultiplexHandler → Prop where
  | refl (h : MultiplexHandler) : Moves h [] h
  | step {h m h' : MultiplexHandler} {events events' : List (ℕ × LifeEvent)}
      (hmove : Move h events m) (hrest : Moves m events' h') : Moves h (events ++ events') h'

namespace Moves

variable {h m h' : MultiplexHandler} {events events' : List (ℕ × LifeEvent)}

theorem single (hmove : Move h events h') : Moves h events h' := by
  have hstep := Moves.step hmove (.refl h')
  rwa [List.append_nil] at hstep

theorem trans (hm : Moves h events m) (hm' : Moves m events' h') :
    Moves h (events ++ events') h' := by
  induction hm with
  | refl => exact hm'
  | step hmove _ ih =>
    rw [List.append_assoc]
    exact .step hmove (ih hm')

/-- A call that is made of moves, which tell what it reports where `p` holds. -/
def When (p : Prop) (h : MultiplexHandler) (events : List (ℕ × LifeEvent))
    (h' : MultiplexHandler) : Prop :=
  ∃ told, Moves h told h' ∧ (p → told = events)

theorem when (hm : Moves h events h') (p : Prop) : When p h events h' := ⟨events, hm, fun _ => rfl⟩

end Moves

/-- What holds of a handler at all times. -/
structure MultiplexHandler.Inv (h : MultiplexHandler) : Prop where
  heap : h.HeapOk
  nodup : (h.channels.map Channel.id).Nodup
  marked : ∀ ch ∈ h.channels, h.channelIds.marked ch.id
  remoteId : ∀ ch ∈ h.channels, ch.remoteId < 2 ^ 16
  tcp : ∀ ch ∈ h.channels, ch.type = .tcpPortForwarding → h.reliable = true
  status : ∀ ch ∈ h.channels, ch.status ≠ .closing

theorem mem_channelsSet {htab : Channels} {ch c : Channel} (h : c ∈ channelsSet htab ch) :
    c = ch ∨ c ∈ htab := by
  unfold channelsSet at h
  obtain ⟨old, hold, heq⟩ := List.mem_map.mp h
  split_ifs at heq with hid
  · exact .inl heq.symm
  · exact .inr (heq ▸ hold)

theorem map_id_channelsSet (htab : Channels) (ch : Channel) :
    (channelsSet htab ch).map Channel.id = htab.map Channel.id := by
  unfold channelsSet
  rw [List.map_map]
  apply List.map_congr_left
  intro c _
  by_cases hid : c.id = ch.id
  · simp [hid]
  · simp [hid]

theorem channelsPut_of_get_eq_none {htab : Channels} {ch : Channel}
    (h : channelsGet htab ch.id = none) : channelsPut htab ch = htab ++ [ch] := by
  unfold channelsPut
  rw [h]
  rfl

theorem channelsGet_eq_none {htab : Channels} {id : ℕ} (h : ∀ ch ∈ htab, ch.id ≠ id) :
    channelsGet htab id = none := by
  unfold channelsGet
  rw [List.find?_eq_none]
  intro ch hch
  simpa using h ch hch

theorem mem_of_channelsGet {htab : Channels} {id : ℕ} {ch : Channel}
    (h : channelsGet htab id = some ch) : ch ∈ htab := List.mem_of_find?_eq_some h

theorem channelsGet_of_mem {htab : Channels} (hnd : (htab.map Channel.id).Nodup) {ch : Channel}
    (h : ch ∈ htab) : channelsGet htab ch.id = some ch := by
  induction htab with
  | nil => cases h
  | cons c htab ih =>
    rw [List.map_cons, List.nodup_cons] at hnd
    unfold channelsGet
    rw [List.find?_cons]
    rcases List.mem_cons.mp h with rfl | hmem
    · simp
    · have hne : c.id ≠ ch.id := fun heq => hnd.1 (heq ▸ List.mem_map_of_mem hmem)
      simpa [hne, channelsGet] using ih hnd.2 hmem

namespace MultiplexHandler

variable {h h' : MultiplexHandler} {events : List (ℕ × LifeEvent)}

theorem inv_create (worker reliable : Bool) : (multiplexHandlerCreate worker reliable).Inv where
  heap := ⟨idsHeapInit_wf (by decide), rfl⟩
  nodup := List.nodup_nil
  marked _ hch := by cases hch
  remoteId _ hch := by cases hch
  tcp _ hch := by cases hch
  status _ hch := by cases hch

theorem Inv.fresh_get (hinv : h.Inv) {ch : Channel} (hch : h.Fresh ch) :
    channelsGet h.channels ch.id = none := by
  apply channelsGet_eq_none
  intro c hc hid
  have hm := hinv.marked c hc
  rcases idsHeapAlloc_marked hinv.heap.1 with ⟨n, -, -, hn, hfree, -⟩ | ⟨hnone, -⟩
  · have hnat : n = ch.id := by exact_mod_cast hn.symm.trans hch.id
    exact hfree (hnat ▸ hid ▸ hm)
  · have hid := hch.id
    rw [hnone] at hid
    omega

theorem Inv.fresh_id (hinv : h.Inv) {ch : Channel} (hch : h.Fresh ch) :
    1 ≤ ch.id ∧ ch.id ≤ maxChannelId ∧ ¬h.channelIds.marked ch.id ∧
      ∀ i, (idsHeapAlloc h.channelIds).1.marked i ↔ i = ch.id ∨ h.channelIds.marked i := by
  rcases idsHeapAlloc_marked hinv.heap.1 with ⟨n, h1, hmax, hn, hfree, hmarked⟩ | ⟨hnone, -⟩
  · have hnat : n = ch.id := by exact_mod_cast hn.symm.trans hch.id
    rw [hinv.heap.2] at hmax
    exact hnat ▸ ⟨h1, hmax, hfree, hmarked⟩
  · have hid := hch.id
    rw [hnone] at hid
    omega

theorem Inv.enter_channels (hinv : h.Inv) {ch : Channel} (hch : h.Fresh ch) :
    (h.enter ch).channels = h.channels ++ [ch] :=
  channelsPut_of_get_eq_none (hinv.fresh_get hch)

theorem Inv.enter (hinv : h.Inv) {ch : Channel} (hch : h.Fresh ch) : (h.enter ch).Inv := by
  have hchannels := hinv.enter_channels hch
  obtain ⟨-, -, -, hmarked⟩ := hinv.fresh_id hch
  have hget := hinv.fresh_get hch
  constructor
  · exact hinv.heap.alloc
  · rw [hchannels, List.map_append, List.nodup_append]
    refine ⟨hinv.nodup, by simp, ?_⟩
    intro i hi j hj
    obtain ⟨c, hc, rfl⟩ := List.mem_map.mp hi
    have hj' : j = ch.id := by simpa using hj
    rintro rfl
    have hsome := channelsGet_of_mem hinv.nodup hc
    rw [hj', hget] at hsome
    cases hsome
  · intro c hc
    rw [hchannels, List.mem_append, List.mem_singleton] at hc
    apply (hmarked c.id).mpr
    rcases hc with hc | rfl
    · exact .inr (hinv.marked c hc)
    · exact .inl rfl
  · intro c hc
    rw [hchannels, List.mem_append, List.mem_singleton] at hc
    rcases hc with hc | rfl
    · exact hinv.remoteId c hc
    · exact hch.remoteId
  · intro c hc
    rw [hchannels, List.mem_append, List.mem_singleton] at hc
    rcases hc with hc | rfl
    · exact hinv.tcp c hc
    · exact hch.tcp
  · intro c hc
    rw [hchannels, List.mem_append, List.mem_singleton] at hc
    rcases hc with hc | rfl
    · exact hinv.status c hc
    · rw [hch.status]
      decide

theorem Inv.set (hinv : h.Inv) {ch ch' : Channel} (hget : channelsGet h.channels ch.id = some ch)
    (hid : ch'.id = ch.id) (htype : ch'.type = ch.type) (hremote : ch'.remoteId < 2 ^ 16)
    (hstatus : ch'.status ≠ .closing) : (h.set ch').Inv := by
  have hmem := mem_of_channelsGet hget
  constructor
  · exact hinv.heap
  · rw [MultiplexHandler.set, map_id_channelsSet]
    exact hinv.nodup
  · intro c hc
    rcases mem_channelsSet hc with rfl | hc
    · exact hid ▸ hinv.marked ch hmem
    · exact hinv.marked c hc
  · intro c hc
    rcases mem_channelsSet hc with rfl | hc
    · exact hremote
    · exact hinv.remoteId c hc
  · intro c hc
    rcases mem_channelsSet hc with rfl | hc
    · exact htype ▸ hinv.tcp ch hmem
    · exact hinv.tcp c hc
  · intro c hc
    rcases mem_channelsSet hc with rfl | hc
    · exact hstatus
    · exact hinv.status c hc

theorem Inv.remove (hinv : h.Inv) (E : MuxEnv) (id : ℕ) : (h.remove E id).Inv := by
  by_cases hsome : (channelsGet h.channels id).isSome
  · obtain ⟨ch, hget⟩ := Option.isSome_iff_exists.mp hsome
    have hmarked := channelsGet_id hget ▸ hinv.marked ch (mem_of_channelsGet hget)
    have heap := hinv.heap.remove E id
    unfold MultiplexHandler.remove at heap ⊢
    rw [if_pos hsome] at heap ⊢
    have hsub {c : Channel} (hc : c ∈ channelsRemove h.channels id) : c ∈ h.channels ∧ c.id ≠ id := by
      simpa [channelsRemove] using List.mem_filter.mp hc
    constructor
    · exact heap
    · exact hinv.nodup.sublist (List.filter_sublist.map Channel.id)
    · intro c hc
      obtain ⟨hmem, hne⟩ := hsub hc
      exact (idsHeapFree_marked E.shift hmarked c.id).mpr
        ⟨hinv.marked c hmem, fun heq => absurd heq hne⟩
    · exact fun c hc => hinv.remoteId c (hsub hc).1
    · exact fun c hc => hinv.tcp c (hsub hc).1
    · exact fun c hc => hinv.status c (hsub hc).1
  · unfold MultiplexHandler.remove
    rwa [if_neg hsome]

theorem turn_status {st st' : ChannelStatus} {events : List LifeEvent} (hturn : Turn st events st')
    (hst : st ≠ .closing) : st' ≠ .closing := by
  cases hturn with
  | stay => exact hst
  | data => exact hst
  | opened => decide
  | pending => decide
  | resume => decide

theorem Inv.move (hinv : h.Inv) (hmove : Move h events h') : h'.Inv := by
  cases hmove with
  | enter hch => exact hinv.enter hch
  | bounce E hch => exact (hinv.enter hch).remove E _
  | change hget hid htype hremote hturn =>
    have hst := hinv.status _ (mem_of_channelsGet hget)
    exact hinv.set hget hid htype hremote (turn_status hturn hst)
  | leave E => exact hinv.remove E _

theorem Inv.moves (hinv : h.Inv) (hmoves : Moves h events h') : h'.Inv := by
  induction hmoves with
  | refl => exact hinv
  | step hmove _ ih => exact ih (hinv.move hmove)

end MultiplexHandler

section Calls

variable {E : MuxEnv} {h h' : MultiplexHandler} {pb : ProtocolBuffer}

theorem alloc_eq_self (hinv : h.Inv) (hneg : (idsHeapAlloc h.channelIds).2 < 0) :
    { h with channelIds := (idsHeapAlloc h.channelIds).1 } = h := by
  rcases idsHeapAlloc_marked hinv.heap.1 with ⟨n, -, -, hn, -⟩ | ⟨hnone, -⟩
  · omega
  · rw [hnone]

/-- What an allocation gives fits the 16 bits of a channel's id. -/
theorem alloc_toNat (hinv : h.Inv) (hpos : ¬(idsHeapAlloc h.channelIds).2 < 0) :
    (idsHeapAlloc h.channelIds).2 =
        (((idsHeapAlloc h.channelIds).2.toNat % 2 ^ 16 : ℕ) : ℤ) ∧
      (idsHeapAlloc h.channelIds).2.toNat % 2 ^ 16 = (idsHeapAlloc h.channelIds).2.toNat := by
  rcases idsHeapAlloc_marked hinv.heap.1 with ⟨n, -, hmax, hn, -⟩ | ⟨hnone, -⟩
  · rw [hinv.heap.2, maxChannelId] at hmax
    have hmod : n % 2 ^ 16 = n := Nat.mod_eq_of_lt (by omega)
    rw [hn, Int.toNat_natCast, hmod]
    exact ⟨rfl, rfl⟩
  · rw [hnone] at hpos
    exact absurd (show (-1 : ℤ) < 0 by decide) hpos

theorem openType_tcp {type : ChannelType} (htype : h.openType pb = some type) :
    type = .tcpPortForwarding → h.reliable = true := by
  rintro rfl
  unfold MultiplexHandler.openType at htype
  split at htype
  · split_ifs at htype
    cases htype
  · split_ifs at htype with hok
    exact hok.2
  · cases htype
  · cases htype

theorem incomingChannel_eq_some (hinv : h.Inv) (hremote : pb.remoteChannelId < 2 ^ 16) {ch : Channel}
    (hch : incomingChannel E h pb = some ch) :
    h.Fresh ch ∧ h.openType pb = some ch.type ∧ ch.remoteId = pb.remoteChannelId := by
  unfold incomingChannel at hch
  split at hch
  · cases hch
  · next type htype =>
    dsimp only at hch
    split_ifs at hch with hneg
    cases hch
    exact ⟨⟨(alloc_toNat hinv hneg).1, rfl, hremote, openType_tcp htype⟩, htype, rfl⟩

theorem notifyChannelOpen_unsupported (htype : h.openType pb = none) :
    notifyChannelOpen E h pb = (h, []) := by
  unfold notifyChannelOpen
  rw [htype]

theorem notifyChannelOpen_full (hinv : h.Inv) {type : ChannelType}
    (htype : h.openType pb = some type) (hch : incomingChannel E h pb = none) :
    notifyChannelOpen E h pb = h.written E (sentPacket .channelOpenConfirmation 0 0 0 []) := by
  unfold incomingChannel at hch
  rw [htype] at hch
  dsimp only at hch
  split_ifs at hch with hneg
  unfold notifyChannelOpen
  rw [htype]
  dsimp only
  rw [if_pos hneg, alloc_eq_self hinv hneg]
  rfl

/-- The result of `multiplex_handler_send_packet` has the sign of that of the write. -/
theorem sendPacket_neg_iff {type : PacketType} {option localId remoteId : ℕ} {payload : Bytes} :
    (multiplexHandlerSendPacket E type option localId remoteId payload).2 < 0 ↔
      E.next (sentPacket type option localId remoteId payload) < 0 := by
  unfold multiplexHandlerSendPacket sentPacket
  dsimp only
  split_ifs with hneg
  · exact iff_of_true hneg hneg
  · exact iff_of_false (Int.natCast_nonneg _).not_gt hneg

/-- What the `Open` branch does after its write. -/
def afterAnswer (E : MuxEnv) (ch : Channel) (pb : ProtocolBuffer)
    (w : MultiplexHandler × List MuxEvent) : MultiplexHandler × List MuxEvent :=
  let events := .channelOpen ch.id pb.cookie :: w.2
  if E.channelOpen ch pb.cookie then
    if E.next (openAnswer E ch pb) < 0 then
      (w.1.remove E ch.id, events ++ [.channelClose ch.id .error])
    else
      (w.1.set (updateRemoteTimestamp E { ch with status := .open }),
        events ++ [.channelOpened ch.id])
  else (w.1.remove E ch.id, events)

/-- With a free id the channel enters the table and the callback decides. -/
theorem notifyChannelOpen_incoming {ch : Channel} (hch : incomingChannel E h pb = some ch) :
    notifyChannelOpen E h pb =
      afterAnswer E ch pb ((h.enter ch).written E (openAnswer E ch pb)) := by
  unfold incomingChannel at hch
  split at hch
  · cases hch
  · next type htype =>
    dsimp only at hch
    split_ifs at hch with hneg
    cases hch
    unfold notifyChannelOpen afterAnswer openAnswer ProtocolBuffer.cookie
    rw [htype]
    dsimp only
    rw [if_neg hneg]
    simp only [sendPacket_neg_iff]
    generalize E.channelOpen _ _ = ok
    cases ok with
    | false => rfl
    | true => rfl

theorem channelsGet_enter (h : MultiplexHandler) (ch : Channel) :
    channelsGet (h.enter ch).channels ch.id = some ch := by
  rw [MultiplexHandler.enter, MultiplexHandler.put, channelsGet_put, if_pos rfl]

theorem moves_change {ch : Channel} (hget : channelsGet h.channels ch.id = some ch) (ch' : Channel)
    {events : List LifeEvent} (hturn : Turn ch.status events ch'.status) (hid : ch'.id = ch.id)
    (htype : ch'.type = ch.type) (hremote : ch'.remoteId < 2 ^ 16) :
    Moves h (events.map (fun e => (ch.id, e))) (h.set ch') :=
  .single (.change hget hid htype hremote hturn)

theorem set_self (hinv : h.Inv) {ch : Channel} (hget : channelsGet h.channels ch.id = some ch) :
    h.set ch = h := by
  have hsame : channelsSet h.channels ch = h.channels := by
    unfold channelsSet
    conv_rhs => rw [← List.map_id h.channels]
    apply List.map_congr_left
    intro c hc
    split_ifs with hid
    · have hc' := channelsGet_of_mem hinv.nodup hc
      rw [hid, hget] at hc'
      exact Option.some.inj hc'
    · rfl
  rw [MultiplexHandler.set, hsame]

theorem channelsGet_handler_remove (E : MuxEnv) (h : MultiplexHandler) (id i : ℕ) :
    channelsGet (h.remove E id).channels i = if i = id then none else channelsGet h.channels i := by
  unfold MultiplexHandler.remove
  split_ifs with hsome hi hi
  · rw [channelsGet_remove, if_pos hi]
  · rw [channelsGet_remove, if_neg hi]
  · rw [hi]
    exact Option.not_isSome_iff_eq_none.mp hsome
  · rfl

/-- A round of a loop over the table moves the channel it is at and no other. -/
def Round (round : MultiplexHandler → Channel → MultiplexHandler × List MuxEvent) : Prop :=
  ∀ accepted h ch, h.Inv → channelsGet h.channels ch.id = some ch →
    Moves h ((round h ch).2.filterMap (MuxEvent.life accepted)) (round h ch).1 ∧
      ∀ id, id ≠ ch.id → channelsGet (round h ch).1.channels id = channelsGet h.channels id

theorem iterateChannels_moves
    {round : MultiplexHandler → Channel → MultiplexHandler × List MuxEvent} (hround : Round round)
    {rest : List Channel} (hinv : h.Inv) (hnd : (rest.map Channel.id).Nodup)
    (hrest : ∀ ch ∈ rest, channelsGet h.channels ch.id = some ch) (accepted : Bool) :
    Moves h ((iterateChannels round h rest).2.filterMap (MuxEvent.life accepted))
      (iterateChannels round h rest).1 := by
  induction rest generalizing h with
  | nil => exact .refl h
  | cons ch rest ih =>
    rw [List.map_cons, List.nodup_cons] at hnd
    obtain ⟨hmoves, hother⟩ := hround accepted h ch hinv (hrest ch List.mem_cons_self)
    have hlater : ∀ c ∈ rest, channelsGet (round h ch).1.channels c.id = some c := by
      intro c hc
      have hne : c.id ≠ ch.id := fun heq => hnd.1 (heq ▸ List.mem_map_of_mem hc)
      rw [hother c.id hne]
      exact hrest c (List.mem_cons_of_mem _ hc)
    have hih := ih (hinv.moves hmoves) hnd.2 hlater
    rw [iterateChannels]
    dsimp only
    rw [List.filterMap_append]
    exact hmoves.trans hih

theorem round_closeChannels (E : MuxEnv) (reason : CloseReason) :
    Round (closeChannelsRound E reason) := by
  intro accepted h ch _ hget
  exact ⟨.single (.leave E hget), fun id hne =>
    (channelsGet_handler_remove E h ch.id id).trans (if_neg hne)⟩

theorem closeChannels_moves (hinv : h.Inv) (reason : CloseReason) (accepted : Bool) :
    Moves h ((multiplexHandlerCloseChannels E h reason).2.filterMap (MuxEvent.life accepted))
      (multiplexHandlerCloseChannels E h reason).1 :=
  iterateChannels_moves (round_closeChannels E reason) hinv hinv.nodup
    (fun _ hch => channelsGet_of_mem hinv.nodup hch) accepted

theorem channels_handler_remove (E : MuxEnv) (h : MultiplexHandler) (id : ℕ) :
    (h.remove E id).channels = channelsRemove h.channels id := by
  unfold MultiplexHandler.remove
  split_ifs with hsome
  · rfl
  · symm
    apply List.filter_eq_self.mpr
    intro ch hch
    have hne : ch.id ≠ id := by
      rintro rfl
      apply hsome
      rw [channelsGet, List.find?_isSome]
      exact ⟨ch, hch, by simp⟩
    exact decide_eq_true hne

theorem iterate_closeChannelsRound_channels (reason : CloseReason) (rest : List Channel) :
    (iterateChannels (closeChannelsRound E reason) h rest).1.channels =
      h.channels.filter (fun ch => ch.id ∉ rest.map Channel.id) := by
  induction rest generalizing h with
  | nil => simp [iterateChannels]
  | cons ch rest ih =>
    rw [iterateChannels]
    dsimp only
    rw [ih, closeChannelsRound, channels_handler_remove, channelsRemove, List.filter_filter]
    apply List.filter_congr
    intro c _
    rw [List.map_cons, ← Bool.decide_and, decide_eq_decide, List.mem_cons, not_or, and_comm]

theorem closeChannels_channels (E : MuxEnv) (h : MultiplexHandler) (reason : CloseReason) :
    (multiplexHandlerCloseChannels E h reason).1.channels = [] := by
  rw [multiplexHandlerCloseChannels, iterate_closeChannelsRound_channels, List.filter_eq_nil_iff]
  intro ch hch
  simpa using ⟨ch, hch, rfl⟩

theorem closeChannels_events (E : MuxEnv) (h : MultiplexHandler) (reason : CloseReason) :
    (multiplexHandlerCloseChannels E h reason).2 =
      h.channels.map (fun ch => .channelClose ch.id reason) := by
  have hrounds (rest : List Channel) (h : MultiplexHandler) :
      (iterateChannels (closeChannelsRound E reason) h rest).2 =
        rest.map (fun ch => .channelClose ch.id reason) := by
    induction rest generalizing h with
    | nil => rfl
    | cons ch rest ih =>
      rw [iterateChannels, List.map_cons, ← ih (closeChannelsRound E reason h ch).1]
      rfl
  exact hrounds h.channels h

theorem written_channels {reason : CloseReason} (hstops : h.stops E pb = some reason) :
    (h.written E pb).1.channels = [] := by
  rw [MultiplexHandler.written, hstops]
  exact closeChannels_channels E h reason

theorem remove_of_channels_eq_nil (hnil : h.channels = []) (id : ℕ) : h.remove E id = h := by
  rw [MultiplexHandler.remove, hnil]
  rfl

theorem set_of_channels_eq_nil (hnil : h.channels = []) (ch : Channel) : h.set ch = h := by
  obtain ⟨channels, ids, worker, reliable⟩ := h
  cases hnil
  rfl

/-- A write reports nothing but closes, and these only when it stops the stream. -/
theorem written_moves (hinv : h.Inv) (pb : ProtocolBuffer) (accepted : Bool) :
    Moves h ((h.written E pb).2.filterMap (MuxEvent.life accepted)) (h.written E pb).1 := by
  unfold MultiplexHandler.written
  cases h.stops E pb with
  | none => exact .refl h
  | some reason => exact closeChannels_moves hinv reason accepted

/-- A new channel whose answer does not stop the stream is refused, closed or opened. -/
theorem afterAnswer_moves {ch : Channel} (hfresh : h.Fresh ch) :
    Moves h ((afterAnswer E ch pb (h.enter ch, [.send (openAnswer E ch pb)])).2.filterMap
        (MuxEvent.life (E.channelOpen ch pb.cookie)))
      (afterAnswer E ch pb (h.enter ch, [.send (openAnswer E ch pb)])).1 := by
  have hget := channelsGet_enter h ch
  unfold afterAnswer
  dsimp only
  cases E.channelOpen ch pb.cookie with
  | false => exact .single (.bounce E hfresh (.inr rfl))
  | true =>
    rw [if_pos rfl]
    have henter : Move h [(ch.id, .open true)] (h.enter ch) := .enter hfresh (.inr rfl)
    split_ifs with hrc
    · exact .step henter (.single (.leave E hget))
    · have hturn : Turn ch.status [.opened] .open := hfresh.status ▸ .opened
      exact .step henter (moves_change hget (updateRemoteTimestamp E { ch with status := .open })
        hturn rfl rfl hfresh.remoteId)

/-- After a write that has stopped the stream there is nothing left to change. -/
theorem afterAnswer_of_channels_eq_nil {ch : Channel} {w : MultiplexHandler × List MuxEvent}
    (hnil : w.1.channels = []) : (afterAnswer E ch pb w).1 = w.1 := by
  unfold afterAnswer
  dsimp only
  split_ifs
  · exact remove_of_channels_eq_nil hnil ch.id
  · exact set_of_channels_eq_nil hnil _
  · exact remove_of_channels_eq_nil hnil ch.id

theorem notifyChannelOpen_moves (hinv : h.Inv) (hremote : pb.remoteChannelId < 2 ^ 16)
    {accepted : Bool}
    (hacc : ∀ ch, incomingChannel E h pb = some ch → E.channelOpen ch pb.cookie = accepted) :
    Moves.When (∀ ch ∈ incomingChannel E h pb, h.stops E (openAnswer E ch pb) = none) h
      ((notifyChannelOpen E h pb).2.filterMap (MuxEvent.life accepted))
      (notifyChannelOpen E h pb).1 := by
  cases htype : h.openType pb with
  | none =>
    rw [notifyChannelOpen_unsupported htype]
    exact (Moves.refl h).when _
  | some type =>
    cases hch : incomingChannel E h pb with
    | none =>
      rw [notifyChannelOpen_full hinv htype hch]
      exact (written_moves hinv _ accepted).when _
    | some ch =>
      obtain ⟨hfresh, -, -⟩ := incomingChannel_eq_some hinv hremote hch
      rw [notifyChannelOpen_incoming hch, ← hacc ch hch]
      cases hstops : h.stops E (openAnswer E ch pb) with
      | none =>
        rw [MultiplexHandler.written_of_stops_eq_none (h := h.enter ch) hstops]
        exact (afterAnswer_moves hfresh).when _
      | some reason =>
        have hnil := written_channels (h := h.enter ch) hstops
        rw [afterAnswer_of_channels_eq_nil hnil]
        have henter := Moves.single (.enter hfresh (.inr rfl))
        refine ⟨_, henter.trans (written_moves (hinv.enter hfresh) _ true), fun hkeeps => ?_⟩
        cases hstops.symm.trans (hkeeps ch rfl)

theorem notifyChannel_moves (hinv : h.Inv) (hremote : pb.remoteChannelId < 2 ^ 16) {ch : Channel}
    (hget : channelsGet h.channels ch.id = some ch) (accepted : Bool) :
    Moves h ((notifyChannel E h ch pb).2.filterMap (MuxEvent.life accepted))
      (notifyChannel E h ch pb).1 := by
  have hrid := hinv.remoteId ch (mem_of_channelsGet hget)
  have hleave : Moves h [(ch.id, .close)] (h.remove E ch.id) := .single (.leave E hget)
  unfold notifyChannel
  cases PacketType.ofCode pb.type with
  | none => exact .refl h
  | some t =>
    cases t with
    | channelOpen => exact .refl h
    | channelOpenConfirmation =>
      dsimp only
      split_ifs with hst hsrc
      · exact .refl h
      · rw [not_not] at hst
        have hturn : Turn ch.status [.opened] .open := hst ▸ .opened
        exact moves_change hget (updateRemoteTimestamp E
          { ch with status := .open, remoteId := pb.remoteChannelId }) hturn rfl rfl hremote
      · exact hleave
    | channelData =>
      dsimp only
      split_ifs with hst hok
      · exact .refl h
      · have hopen : ch.status = .pending ∨ ch.status = .open := by tauto
        exact moves_change hget (updateRemoteTimestamp E ch) (.data hopen) rfl rfl hrid
      · have hopen : ch.status = .pending ∨ ch.status = .open := by tauto
        have hdata := moves_change hget ch (.data hopen) rfl rfl hrid
        rw [set_self hinv hget] at hdata
        exact hdata.trans hleave
    | channelKeepAlive =>
      exact moves_change hget { ch with remoteTimestamp := E.now } (.stay _) rfl rfl hrid
    | channelPending =>
      dsimp only
      split_ifs with hst
      · exact .refl h
      · rw [not_not] at hst
        have hturn : Turn ch.status [.pending] .pending := hst ▸ .pending
        exact moves_change hget (updateRemoteTimestamp E { ch with status := .pending }) hturn rfl
          rfl hrid
    | channelResume =>
      dsimp only
      split_ifs with hst
      · exact .refl h
      · rw [not_not] at hst
        have hturn : Turn ch.status [.resume] .open := hst ▸ .resume
        exact moves_change hget (updateRemoteTimestamp E { ch with status := .open }) hturn rfl
          rfl hrid
    | channelClose => exact hleave

theorem round_checkpoint (E : MuxEnv) : Round (checkpointChannel E) := by
  intro accepted h ch hinv hget
  have hrid := hinv.remoteId ch (mem_of_channelsGet hget)
  unfold checkpointChannel
  dsimp only
  split_ifs with hdead hidle hrc
  · exact ⟨.single (.leave E hget), fun id hne =>
    (channelsGet_handler_remove E h ch.id id).trans (if_neg hne)⟩
  · refine ⟨moves_change hget { ch with localTimestamp := E.now } (.stay _) rfl rfl hrid, ?_⟩
    intro id hne
    rw [MultiplexHandler.set, channelsGet_set, if_neg hne]
  · exact ⟨.refl h, fun _ _ => rfl⟩
  · exact ⟨.refl h, fun _ _ => rfl⟩

/-- A call that goes on with nothing but the time stamp of a channel. -/
theorem written_set_moves (hinv : h.Inv) (pb : ProtocolBuffer) {ch ch' : Channel}
    (hget : channelsGet h.channels ch.id = some ch) (hst : ch'.status = ch.status)
    (hid : ch'.id = ch.id) (htype : ch'.type = ch.type) (hremote : ch'.remoteId = ch.remoteId) :
    Moves h ((h.written E pb).2.filterMap (MuxEvent.life true)) ((h.written E pb).1.set ch') := by
  cases hstops : h.stops E pb with
  | none =>
    rw [MultiplexHandler.written_of_stops_eq_none hstops]
    have hturn : Turn ch.status [] ch'.status := hst ▸ Turn.stay ch.status
    exact moves_change hget ch' hturn hid htype (hremote ▸ hinv.remoteId ch (mem_of_channelsGet hget))
  | some reason =>
    rw [set_of_channels_eq_nil (written_channels hstops)]
    exact written_moves hinv pb true

theorem sendOnChannel_moves (hinv : h.Inv) (cid : ℕ) (t : PacketType) (payload : Bytes)
    (keeps : ℤ → Bool) :
    Moves h ((sendOnChannel E h cid t payload keeps).events.filterMap (MuxEvent.life true))
      (sendOnChannel E h cid t payload keeps).handler := by
  unfold sendOnChannel
  split
  · exact .refl h
  · next ch hget =>
    rw [← channelsGet_id hget] at hget
    dsimp only
    split_ifs
    · exact .refl h
    · exact .refl h
    · exact written_set_moves hinv _ hget rfl rfl rfl rfl
    · exact written_moves hinv _ true

theorem writeChannel_moves (hinv : h.Inv) (cid : ℕ) (data : Bytes) :
    Moves h ((multiplexHandlerWriteChannel E h cid data).events.filterMap (MuxEvent.life true))
      (multiplexHandlerWriteChannel E h cid data).handler := by
  unfold multiplexHandlerWriteChannel
  split_ifs
  · exact written_moves hinv _ true
  · exact sendOnChannel_moves hinv _ _ _ _

/-- The channel that `multiplex_handler_open_channel` puts into the table. -/
def newChannel (E : MuxEnv) (h : MultiplexHandler) (type : ChannelType) (timeout : ℤ) : Channel where
  id := (idsHeapAlloc h.channelIds).2.toNat % 2 ^ 16
  remoteId := 0
  type := type
  status := .opening
  localTimestamp := ⟨0, 0⟩
  remoteTimestamp := E.now
  lastActivity := E.now
  timeout := timeout

def openRequest (ch : Channel) (cookie : Option Bytes) : ProtocolBuffer :=
  sentPacket .channelOpen ch.type.code ch.id 0 (cookie.elim [] (· ++ [0]))

/-- What `multiplex_handler_open_channel` does after its write. -/
def afterRequest (E : MuxEnv) (ch : Channel) (cookie : Option Bytes)
    (w : MultiplexHandler × List MuxEvent) : MuxCall :=
  if E.next (openRequest ch cookie) < 0 then
    ⟨w.1.remove E ch.id, w.2, E.next (openRequest ch cookie)⟩
  else ⟨w.1, w.2, ch.id⟩

/-- A local call finds no id, or puts a channel into the table and writes its request. -/
theorem openChannel_eq_some (hinv : h.Inv) {type : ChannelType} {cookie : Option Bytes}
    {timeout : ℤ} {r : MuxCall}
    (hr : multiplexHandlerOpenChannel E h type cookie timeout = some r) :
    (idsHeapAlloc h.channelIds).2 < 0 ∧ r = ⟨h, [], intError .limitExceeded⟩ ∨
      ∃ ch, ch = newChannel E h type timeout ∧ h.Fresh ch ∧
        ch.id = (idsHeapAlloc h.channelIds).2.toNat ∧
        r = afterRequest E ch cookie ((h.enter ch).written E (openRequest ch cookie)) := by
  unfold multiplexHandlerOpenChannel at hr
  split_ifs at hr with hbad
  dsimp only at hr
  have htcp : type = .tcpPortForwarding → h.reliable = true := by
    intro heq
    by_contra hrel
    exact hbad (.inr ⟨heq, fun hok => hrel hok.2⟩)
  by_cases hneg : (idsHeapAlloc h.channelIds).2 < 0
  · rw [if_pos hneg, alloc_eq_self hinv hneg] at hr
    cases hr
    exact .inl ⟨hneg, rfl⟩
  · rw [if_neg hneg] at hr
    obtain ⟨hid, hmod⟩ := alloc_toNat hinv hneg
    refine .inr ⟨newChannel E h type timeout, rfl, ⟨hid, rfl, Nat.two_pow_pos 16, htcp⟩, hmod, ?_⟩
    have hsent : (multiplexHandlerSendPacket E .channelOpen type.code
        ((idsHeapAlloc h.channelIds).2.toNat % 2 ^ 16) 0 (cookie.elim [] (· ++ [0]))).2 < 0 ↔
        E.next (openRequest (newChannel E h type timeout) cookie) < 0 := sendPacket_neg_iff
    unfold afterRequest
    split_ifs with hrc
    · rw [if_pos (hsent.mpr hrc)] at hr
      cases hr
      rw [MuxCall.mk.injEq]
      exact ⟨congrArg _ hmod.symm, rfl, if_pos hrc⟩
    · rw [if_neg (mt hsent.mp hrc)] at hr
      cases hr
      rw [MuxCall.mk.injEq]
      exact ⟨rfl, rfl, hid⟩

theorem openChannel_moves (hinv : h.Inv) {type : ChannelType} {cookie : Option Bytes} {timeout : ℤ}
    {r : MuxCall} (hr : multiplexHandlerOpenChannel E h type cookie timeout = some r) :
    Moves h (callLife E h (.openChannel type cookie timeout) r) r.handler := by
  unfold callLife
  dsimp only
  rcases openChannel_eq_some hinv hr with ⟨-, rfl⟩ | ⟨ch, -, hfresh, hid, rfl⟩
  · rw [if_neg (not_or.mpr ⟨(intError_neg .limitExceeded).not_gt, fun hne => hne rfl⟩)]
    exact .refl h
  have hpos := (hinv.fresh_id hfresh).1
  have henter := Moves.single (.enter hfresh (.inl rfl))
  have hsent := henter.trans (written_moves (E := E) (hinv.enter hfresh) (openRequest ch cookie) true)
  rw [← hid]
  unfold afterRequest
  split_ifs with hrc hclosed hclosed
  · -- the write has stopped the stream, and with it closed the new channel
    cases hstops : h.stops E (openRequest ch cookie) with
    | none =>
      rw [MultiplexHandler.written_of_stops_eq_none (h := h.enter ch) hstops] at hclosed
      exact absurd rfl (hclosed.resolve_left hrc.not_gt)
    | some reason =>
      rw [remove_of_channels_eq_nil (written_channels (h := h.enter ch) hstops)]
      exact hsent
  · cases hstops : h.stops E (openRequest ch cookie) with
    | none =>
      rw [MultiplexHandler.written_of_stops_eq_none (h := h.enter ch) hstops]
      exact .single (.bounce E hfresh (.inl rfl))
    | some reason =>
      refine absurd (.inr ?_) hclosed
      have hevents := closeChannels_events E (h.enter ch) reason
      rw [MultiplexHandler.written, show (h.enter ch).stops E _ = _ from hstops]
      dsimp only
      rw [hevents, hinv.enter_channels hfresh]
      simp [MuxEvent.life]
  · exact hsent
  · exact absurd (.inl (Int.natCast_pos.mpr hpos)) hclosed

/-- A close finds no channel, or tells the peer of it and then removes it. -/
theorem closeChannel_eq_some {cid : ℕ} {r : MuxCall}
    (hr : multiplexHandlerCloseChannel E h cid = some r) :
    channelsGet h.channels cid = none ∧ r = ⟨h, [], intError .notExist⟩ ∨
      ∃ ch w, channelsGet h.channels ch.id = some ch ∧ ch.id = cid ∧
        w = (if ch.remoteId = 0 then (h, []) else h.written E (closeNotice ch)) ∧
        r = ⟨w.1.remove E ch.id, w.2 ++ [.channelClose ch.id .normal], 0⟩ := by
  unfold multiplexHandlerCloseChannel at hr
  split_ifs at hr
  split at hr
  · next hget =>
    cases hr
    exact .inl ⟨hget, rfl⟩
  · next ch hget =>
    obtain rfl := channelsGet_id hget
    exact .inr ⟨ch, _, hget, rfl, rfl, (Option.some.inj hr).symm⟩

theorem closeChannel_moves (hinv : h.Inv) {cid : ℕ} {r : MuxCall}
    (hr : multiplexHandlerCloseChannel E h cid = some r) :
    Moves.When (KeepsStream E h (.closeChannel cid)) h
      (r.events.filterMap (MuxEvent.life true)) r.handler := by
  rcases closeChannel_eq_some hr with ⟨-, rfl⟩ | ⟨ch, w, hget, rfl, rfl, rfl⟩
  · exact (Moves.refl h).when _
  have hleave : Moves h [(ch.id, .close)] (h.remove E ch.id) := .single (.leave E hget)
  split_ifs with hrid
  · exact hleave.when _
  · cases hstops : h.stops E (closeNotice ch) with
    | none =>
      rw [MultiplexHandler.written_of_stops_eq_none hstops]
      exact hleave.when _
    | some reason =>
      rw [remove_of_channels_eq_nil (written_channels hstops)]
      refine ⟨_, written_moves hinv (closeNotice ch) true, fun hkeeps => ?_⟩
      cases hstops.symm.trans (hkeeps ch hget hrid)

theorem notifyBytes_moves (hinv : h.Inv) {trace : Bool} {p : Bytes}
    {r : MultiplexHandler × List MuxEvent}
    (hr : multiplexHandlerNotifyBytes E trace h p = .ok r) :
    Moves.When (KeepsStream E h (.receive trace p)) h
      (r.2.filterMap (MuxEvent.life (acceptsOpen E h p))) r.1 := by
  unfold multiplexHandlerNotifyBytes at hr
  split_ifs at hr
  cases hpb : receivedPacket p with
  | none =>
    rw [hpb] at hr
    cases hr
    exact (Moves.refl h).when _
  | some pb =>
    have hremote := (receivedPacket_eq_some hpb).1.remoteChannelId
    rw [hpb] at hr
    dsimp only at hr
    split_ifs at hr
    · cases hr
      exact (Moves.refl h).when _
    · next hopen =>
      split at hr
      · cases hr
      · cases hr
        have hacc (ch : Channel) (hch : incomingChannel E h pb = some ch) :
            E.channelOpen ch pb.cookie = acceptsOpen E h p := by
          rw [acceptsOpen, hpb, Option.any_some, hch, Option.any_some]
        obtain ⟨told, hmoves, htold⟩ := notifyChannelOpen_moves hinv hremote hacc
        exact ⟨told, hmoves, fun hkeeps => htold (hkeeps pb hpb hopen)⟩
    · split at hr
      · cases hr
        exact (Moves.refl h).when _
      · next ch hget =>
        rw [← channelsGet_id hget] at hget
        split at hr
        · cases hr
        · cases hr
          exact (notifyChannel_moves hinv hremote hget _).when _

/-- Every call is made of moves, and tells of them what `callLife` says unless it stops the stream
where it should not. -/
theorem muxCall_moves (hinv : h.Inv) {op : MuxOp} {r : MuxCall} (hr : muxCall E h op = some r) :
    Moves.When (KeepsStream E h op) h (callLife E h op r) r.handler := by
  cases op with
  | receive trace p =>
    simp only [muxCall] at hr
    split at hr
    · cases hr
    · next hok =>
      cases hr
      exact notifyBytes_moves hinv hok
  | openChannel type cookie timeout => exact (openChannel_moves hinv hr).when _
  | closeChannel cid => exact closeChannel_moves hinv hr
  | writeChannel cid data =>
    cases hr
    exact (writeChannel_moves hinv cid data).when _
  | pendChannel cid =>
    simp only [muxCall, multiplexHandlerPendChannel] at hr
    split_ifs at hr
    cases hr
    exact (sendOnChannel_moves hinv _ _ _ _).when _
  | resumeChannel cid =>
    simp only [muxCall, multiplexHandlerResumeChannel] at hr
    split_ifs at hr
    cases hr
    exact (sendOnChannel_moves hinv _ _ _ _).when _
  | checkpoint =>
    cases hr
    exact (iterateChannels_moves (round_checkpoint E) hinv hinv.nodup
      (fun _ hch => channelsGet_of_mem hinv.nodup hch) true).when _
  | stateChanged state =>
    cases hr
    cases state with
    | closed => exact (closeChannels_moves hinv .normal true).when _
    | failed => exact (closeChannels_moves hinv .error true).when _
    | _ => exact (Moves.refl h).when _
  | stop =>
    cases hr
    exact (closeChannels_moves hinv .normal true).when _

theorem muxCall_inv (hinv : h.Inv) {op : MuxOp} {r : MuxCall} (hr : muxCall E h op = some r) :
    r.handler.Inv := by
  obtain ⟨told, hmoves, -⟩ := muxCall_moves hinv hr
  exact hinv.moves hmoves

end Calls

theorem MultiplexHandler.Reachable.inv {h : MultiplexHandler} (hreach : h.Reachable) : h.Inv := by
  obtain ⟨worker, reliable, acts, hrun⟩ := hreach
  refine exec_invariant ?_ (MultiplexHandler.inv_create worker reliable) hrun
  intro s act s' hinv hstep
  obtain ⟨r, hr, rfl⟩ := Option.map_eq_some_iff.mp hstep
  exact muxCall_inv hinv hr

end Carrier.Session
