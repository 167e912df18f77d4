import Carrier.Session.PortForwarding

/-! What a stream with port forwarding does to its channels is what its multiplex handler does. -/
namespace Carrier.Session
open Carrier.Lib Carrier.Common

namespace ForwardingStream

def acceptsChannel (E : WorkerEnv) (ch : Channel) (cookie : Option Bytes) : Bool :=
  match ch.type with
  | .user => E.channelOpen ch cookie
  | .udpPortForwarding => true
  | .tcpPortForwarding =>
    cookie.any (fun cookie => E.services.any (fun services => services cookie = some tcpProtocol)) &&
      E.socket.isSome

/-- What the multiplex handler meets in the stream: the reliable handler, and the callbacks of the
channels of each type. -/
def mux (E : WorkerEnv) (s : ForwardingStream) : MuxEnv where
  shift := E.shift
  now := E.now
  next _ := if s.state = .connected then E.written else intError .wrongState
  stop _ := if s.state = .connected ∧ ¬s.stopping then E.stop else none
  channelOpen := acceptsChannel E
  channelData := notifyChannelData E

/-- The call of the multiplex handler that an operation makes. -/
def muxOp (E : WorkerEnv) (s : ForwardingStream) : Op → Option MuxOp
  | .start | .openPortforwarding _ | .closePortforwarding _ => none
  | .accept pfid =>
    match portforwardingsGet s.portforwardings pfid, E.socket with
    | some pf, some _ =>
      if pf.protocol = tcpProtocol then some (.openChannel .tcpPortForwarding (some pf.service) 0)
      else none
    | _, _ => none
  | .readable cid => some (if E.recv = [] then .closeChannel cid else .writeChannel cid E.recv)
  | .receive p => some (.receive false p)
  | .openChannel cookie => if s.state = .connected then some (.openChannel .user cookie 0) else none
  | .closeChannel cid => some (.closeChannel cid)
  | .writeChannel cid data => some (.writeChannel cid data)
  | .pendChannel cid => some (.pendChannel cid)
  | .resumeChannel cid => some (.resumeChannel cid)
  | .stateChanged state => some (.stateChanged state)
  | .handlerStop error =>
    if s.stopping ∨ ¬s.state.code ≤ StreamState.connected.code then none
    else some (.stateChanged (if error = 0 then .closed else .failed))
  | .removeStream _ => some .stop

section Writes

variable {E : WorkerEnv} {s : ForwardingStream} {M : MuxEnv}

theorem closeEach_handler (hshift : M.shift = E.shift) (reason : CloseReason) (chs : List Channel)
    (s : ForwardingStream) :
    (closeEach E chs s).handler = (iterateChannels (closeChannelsRound M reason) s.handler chs).1 := by
  induction chs generalizing s with
  | nil => rfl
  | cons ch rest ih =>
    rw [closeEach, ih, iterateChannels]
    dsimp only [closeChannelsRound]
    congr 2
    unfold notifyChannelClose
    split_ifs
    all_goals
      change s.handler.remove E.mux ch.id = s.handler.remove M ch.id
      unfold MultiplexHandler.remove
      rw [hshift]
      rfl

theorem closeChannels_handler (hshift : M.shift = E.shift) (s : ForwardingStream)
    (reason : CloseReason) :
    (s.closeChannels E).handler = (multiplexHandlerCloseChannels M s.handler reason).1 :=
  closeEach_handler hshift reason s.handler.channels s

theorem onStateChanged_handler (hshift : M.shift = E.shift) (s : ForwardingStream) (state : StreamState) :
    (s.onStateChanged E state).handler = (multiplexHandlerOnStateChanged M s.handler state).1 := by
  unfold onStateChanged
  cases state with
  | closed => exact closeChannels_handler hshift s .normal
  | failed => exact closeChannels_handler hshift s .error
  | _ => rfl

theorem iceHandlerStop_handler (hshift : M.shift = E.shift) (hstopping : s.stopping ≠ true)
    (hstate : s.state.code ≤ StreamState.connected.code) (error : ℤ) :
    (s.iceHandlerStop E error).handler =
      (multiplexHandlerOnStateChanged M s.handler (if error = 0 then .closed else .failed)).1 := by
  unfold iceHandlerStop
  rw [if_neg hstopping]
  dsimp only
  rw [if_pos hstate]
  exact onStateChanged_handler hshift _ _

theorem sendPacket_handler (hreliable : s.handler.reliable = true) (payload : Bytes)
    (pb : ProtocolBuffer) :
    (s.sendPacket E payload).1.handler = (s.handler.written (s.mux E) pb).1 := by
  unfold sendPacket reliableHandlerWrite MultiplexHandler.written MultiplexHandler.stops
  dsimp only
  rw [if_pos hreliable]
  by_cases hstate : s.state = .connected
  · rw [if_neg (not_not.mpr hstate)]
    cases hstop : E.stop with
    | none => simp [mux, hstop]
    | some error =>
      by_cases hstopping : s.stopping = true
      · simp [mux, hstopping, iceHandlerStop]
      · have hmux : (s.mux E).stop pb = some error := by
          simp [mux, hstate, hstopping, hstop]
        have hice := iceHandlerStop_handler (M := s.mux E) rfl hstopping (hstate ▸ le_rfl) error
        rw [hmux]
        simp only [Option.elim_some, Option.map_some, hice]
        split_ifs
        · rfl
        · rfl
  · simp [mux, hstate]

theorem sendPacket_result (type : PacketType) (o l r : ℕ) (payload : Bytes) :
    (s.sendPacket E payload).2 = (multiplexHandlerSendPacket (s.mux E) type o l r payload).2 := by
  unfold sendPacket reliableHandlerWrite multiplexHandlerSendPacket
  by_cases hstate : s.state = .connected
  · simp [mux, hstate]
  · simp [mux, hstate]

end Writes

section Calls

variable {E : WorkerEnv} {s : ForwardingStream} {pb : ProtocolBuffer}

theorem remove_handler (s : ForwardingStream) (id : ℕ) :
    (s.remove E id).handler = s.handler.remove (s.mux E) id := rfl

theorem notifyChannelClose_handler (s : ForwardingStream) (ch : Channel) :
    (s.notifyChannelClose ch).handler = s.handler := by
  unfold notifyChannelClose
  split_ifs
  · rfl
  · rfl

theorem notifyChannelOpened_handler (s : ForwardingStream) (ch : Channel) :
    (s.notifyChannelOpened ch).handler = s.handler := by
  unfold notifyChannelOpened
  split_ifs
  · rfl
  · rfl

theorem notifyChannelPending_handler (s : ForwardingStream) (ch : Channel) :
    (s.notifyChannelPending ch).handler = s.handler := by
  unfold notifyChannelPending
  split_ifs
  · rfl
  · rfl

theorem closeAndRemove_handler (M : MuxEnv) (hshift : M.shift = E.shift) (s : ForwardingStream)
    (ch : Channel) : (s.closeAndRemove E ch).handler = s.handler.remove M ch.id := by
  change (s.notifyChannelClose ch).handler.remove E.mux ch.id = _
  rw [notifyChannelClose_handler]
  unfold MultiplexHandler.remove
  rw [hshift]
  rfl

/-- A callback for a new channel may open a socket, and changes nothing else. -/
theorem notifyChannelOpen_handler (s : ForwardingStream) (ch : Channel) (cookie : Option Bytes) :
    (s.notifyChannelOpen E ch cookie).1 = acceptsChannel E ch cookie ∧
      (s.notifyChannelOpen E ch cookie).2.handler = s.handler ∧
      (s.notifyChannelOpen E ch cookie).2.mux E = s.mux E := by
  unfold notifyChannelOpen acceptsChannel tcpPortforwardingChannelOpen
  cases ch.type with
  | user => exact ⟨rfl, rfl, rfl⟩
  | udpPortForwarding => exact ⟨rfl, rfl, rfl⟩
  | tcpPortForwarding =>
    cases cookie with
    | none => exact ⟨rfl, rfl, rfl⟩
    | some cookie =>
      cases hservices : E.services with
      | none => exact ⟨rfl, rfl, rfl⟩
      | some services =>
        by_cases hname : services cookie = some tcpProtocol
        · cases E.socket with
          | none => simp [hname]
          | some fd => simp [hname]; exact ⟨rfl, rfl⟩
        · simp [hname]

theorem notifyOpen_handler (hinv : s.handler.Inv) (hreliable : s.handler.reliable = true) :
    (s.notifyOpen E pb).handler = (Session.notifyChannelOpen (s.mux E) s.handler pb).1 := by
  have hsame : incomingChannel E.mux s.handler pb = incomingChannel (s.mux E) s.handler pb := rfl
  unfold notifyOpen
  rw [hsame]
  cases hch : incomingChannel (s.mux E) s.handler pb with
  | none =>
    cases htype : s.handler.openType pb with
    | none =>
      rw [notifyChannelOpen_unsupported htype]
      rfl
    | some type =>
      rw [notifyChannelOpen_full hinv htype hch]
      exact sendPacket_handler hreliable _ _
  | some ch =>
    obtain ⟨hok, hcalled, hmux⟩ := notifyChannelOpen_handler (E := E) (s.enter ch) ch pb.cookie
    rw [notifyChannelOpen_incoming hch]
    unfold afterAnswer
    dsimp only
    rw [hok]
    generalize ((s.enter ch).notifyChannelOpen E ch pb.cookie).2 = s₁ at hcalled hmux
    have hsent : (s₁.sendPacket E []).1.handler =
        ((s.handler.enter ch).written (s.mux E) (openAnswer (s.mux E) ch pb)).1 := by
      rw [sendPacket_handler (hcalled ▸ hreliable) [] (openAnswer (s.mux E) ch pb), hcalled, hmux]
      rfl
    have hresult : (s₁.sendPacket E []).2 < 0 ↔ (s.mux E).next (openAnswer (s.mux E) ch pb) < 0 := by
      rw [sendPacket_result .channelOpenConfirmation 0
        (if acceptsChannel E ch pb.cookie then ch.id else 0) ch.remoteId, hmux]
      exact sendPacket_neg_iff ..
    change _ = (if acceptsChannel E ch pb.cookie then _ else _ : MultiplexHandler × List MuxEvent).1
    cases acceptsChannel E ch pb.cookie with
    | false =>
      change (s₁.sendPacket E []).1.handler.remove (s.mux E) ch.id = _
      rw [hsent]
      rfl
    | true =>
      by_cases hneg : (s₁.sendPacket E []).2 < 0
      · simp only [hresult.mp hneg, hneg, if_true]
        rw [← hsent]
        exact closeAndRemove_handler (s.mux E) rfl _ ch
      · simp only [mt hresult.mpr hneg, hneg, if_false, if_true]
        rw [← hsent]
        exact notifyChannelOpened_handler _ ch

theorem notifyChannel_handler (s : ForwardingStream) (ch : Channel) (pb : ProtocolBuffer) :
    (s.notifyChannel E ch pb).handler = (Session.notifyChannel (s.mux E) s.handler ch pb).1 := by
  have hclose := closeAndRemove_handler (s.mux E) rfl s ch
  unfold notifyChannel Session.notifyChannel
  cases PacketType.ofCode pb.type with
  | none => rfl
  | some type =>
    cases type with
    | channelOpen => rfl
    | channelOpenConfirmation =>
      dsimp only
      split_ifs
      · rfl
      · exact notifyChannelOpened_handler _ ch
      · exact hclose
    | channelClose => exact hclose
    | channelData =>
      change _ = (if _ then _ else if notifyChannelData E ch pb.payload then _ else _ :
        MultiplexHandler × List MuxEvent).1
      dsimp only
      split_ifs
      · rfl
      · rfl
      · exact hclose
    | channelPending =>
      dsimp only
      split_ifs
      · rfl
      · exact notifyChannelPending_handler _ ch
    | channelResume =>
      dsimp only
      split_ifs
      · rfl
      · exact notifyChannelOpened_handler _ ch
    | channelKeepAlive => rfl

theorem notifyPacket_handler {t : ForwardingStream} {p : Bytes} (hinv : s.handler.Inv)
    (hreliable : s.handler.reliable = true) (ht : s.notifyPacket E p = some t)
    {r : MultiplexHandler × List MuxEvent}
    (hr : multiplexHandlerNotifyBytes (s.mux E) false s.handler p = .ok r) : t.handler = r.1 := by
  unfold notifyPacket at ht
  unfold multiplexHandlerNotifyBytes at hr
  split_ifs at hr
  cases hp : receivedPacket p with
  | none =>
    rw [hp] at ht hr
    cases ht
    cases hr
    rfl
  | some pb =>
    rw [hp] at ht hr
    dsimp only at ht hr
    by_cases hdata : pb.remoteChannelId = 0 ∧ pb.localChannelId = 0 ∧
        pb.type = PacketType.channelData.code
    · rw [if_pos hdata] at ht hr
      cases ht
      cases hr
      rfl
    · rw [if_neg hdata] at ht hr
      simp only [false_and, if_false] at hr
      by_cases hopen : pb.type = PacketType.channelOpen.code
      · rw [if_pos hopen] at ht hr
        cases ht
        split at hr
        · cases hr
        · cases hr
          exact notifyOpen_handler hinv hreliable
      · rw [if_neg hopen] at ht hr
        by_cases hzero : pb.localChannelId = 0
        · rw [if_pos hzero] at ht
          cases ht
        · rw [if_neg hzero] at ht hr
          cases hget : channelsGet s.handler.channels pb.localChannelId with
          | none =>
            rw [hget] at ht hr
            cases ht
            cases hr
            rfl
          | some ch =>
            rw [hget] at ht hr
            dsimp only at ht hr
            cases ht
            split at hr
            · cases hr
            · cases hr
              exact notifyChannel_handler s ch pb

/-- A new channel goes, if its request cannot be written. -/
theorem request_handler {s₁ : ForwardingStream} {ch : Channel} (cookie : Option Bytes) (cid : ℤ)
    (hreliable : s.handler.reliable = true) (hs₁ : s₁.handler = s.handler.enter ch)
    (hmux : s₁.mux E = s.mux E) {r : ForwardingStream × ℤ}
    (hr : s₁.sendPacket E (cookie.elim [] (· ++ [0])) = r) :
    (if r.2 < 0 then (r.1.remove E ch.id, r.2) else (r.1, cid)).1.handler = (afterRequest (s.mux E) ch
      cookie ((s.handler.enter ch).written (s.mux E) (openRequest ch cookie))).handler := by
  have hreliable₁ : s₁.handler.reliable = true := by
    rw [hs₁]
    exact hreliable
  have hsent := sendPacket_handler (E := E) hreliable₁ (cookie.elim [] (· ++ [0]))
    (openRequest ch cookie)
  have hresult : r.2 < 0 ↔ (s.mux E).next (openRequest ch cookie) < 0 := by
    rw [← hr, sendPacket_result .channelOpen ch.type.code ch.id 0, hmux]
    exact sendPacket_neg_iff ..
  rw [hs₁, hmux, hr] at hsent
  unfold afterRequest
  by_cases hneg : r.2 < 0
  · rw [if_pos hneg, if_pos (hresult.mp hneg), ← hsent]
    rfl
  · rw [if_neg hneg, if_neg (mt hresult.mpr hneg)]
    exact hsent

theorem openChannel_handler (hinv : s.handler.Inv) (hreliable : s.handler.reliable = true)
    {type : ChannelType} {cookie : Option Bytes} {timeout : ℤ} (sock : ℕ) {r : MuxCall}
    (hr : multiplexHandlerOpenChannel (s.mux E) s.handler type cookie timeout = some r) :
    (s.openChannel E type cookie timeout sock).1.handler = r.handler := by
  unfold openChannel
  obtain ⟨hneg, rfl⟩ | ⟨ch, hch, hfresh, -, rfl⟩ := openChannel_eq_some hinv hr
  · dsimp only
    rw [if_pos hneg]
  · have hpos : ¬(idsHeapAlloc s.handler.channelIds).2 < 0 := by
      rw [hfresh.id]
      omega
    have hsame : newChannel E.mux s.handler type timeout = ch := hch.symm
    dsimp only
    rw [if_neg hpos, hsame]
    by_cases htcp : type = .tcpPortForwarding
    · rw [if_pos htcp]
      refine request_handler cookie _ hreliable ?_ ?_ rfl
      · rfl
      · rfl
    · rw [if_neg htcp]
      refine request_handler cookie _ hreliable ?_ ?_ rfl
      · rfl
      · rfl

theorem closeChannel_handler (hreliable : s.handler.reliable = true) {cid : ℕ} {r : MuxCall}
    (hr : multiplexHandlerCloseChannel (s.mux E) s.handler cid = some r) :
    (s.closeChannel E cid).handler = r.handler := by
  obtain ⟨hget, rfl⟩ | ⟨ch, w, hget, rfl, rfl, rfl⟩ := closeChannel_eq_some hr
  · rw [closeChannel, hget]
  · rw [closeChannel, hget]
    dsimp only
    rw [closeAndRemove_handler (s.mux E) rfl]
    congr 1
    split_ifs
    · rfl
    · exact sendPacket_handler hreliable [] (closeNotice ch)

theorem sendOnChannel_handler (hreliable : s.handler.reliable = true) (cid : ℕ) (type : PacketType)
    (payload : Bytes) (keeps : ℤ → Bool) : (s.sendOnChannel E cid payload keeps).handler =
      (Session.sendOnChannel (s.mux E) s.handler cid type payload keeps).handler := by
  unfold sendOnChannel Session.sendOnChannel
  cases hget : channelsGet s.handler.channels cid with
  | none => rfl
  | some ch =>
    have hsent := sendPacket_handler (E := E) hreliable payload
      (sentPacket type 0 ch.id ch.remoteId payload)
    have hresult := sendPacket_result (E := E) (s := s) type 0 ch.id ch.remoteId payload
    generalize s.sendPacket E payload = r at hsent hresult
    obtain ⟨s₁, rc⟩ := r
    dsimp only at hsent hresult ⊢
    subst hresult
    split_ifs
    · rfl
    · rfl
    · exact congrArg (MultiplexHandler.set · (updateLocalTimestamp (s.mux E) ch)) hsent
    · exact hsent

theorem writeChannel_handler (hreliable : s.handler.reliable = true) (cid : ℕ) (data : Bytes) :
    (s.writeChannel E cid data).handler =
      (multiplexHandlerWriteChannel (s.mux E) s.handler cid data).handler := by
  unfold writeChannel multiplexHandlerWriteChannel
  split_ifs
  · exact sendPacket_handler hreliable data _
  · exact sendOnChannel_handler hreliable cid .channelData data _

theorem portforwardingOpen_handler (s : ForwardingStream) (service : Bytes) :
    (s.portforwardingOpen E service).handler = s.handler := by
  unfold portforwardingOpen
  cases E.socket with
  | none => rfl
  | some sock =>
    dsimp only
    split_ifs
    · rfl
    · rfl
    · rfl

theorem portforwardingClose_handler (s : ForwardingStream) (pfid : ℕ) :
    (s.portforwardingClose E pfid).handler = s.handler := by
  unfold portforwardingClose
  cases portforwardingsGet s.portforwardings pfid with
  | none => rfl
  | some pf => rfl

/-- `handle_tcp_portofrwarding` with a socket that has been accepted. -/
theorem handleTcpPortforwarding_handler (hinv : s.handler.Inv) (hreliable : s.handler.reliable = true)
    {fd : ℕ} (hfd : E.socket = some fd) {pf : PortForwarding} {r : MuxCall}
    (hr : multiplexHandlerOpenChannel (s.mux E) s.handler .tcpPortForwarding (some pf.service) 0 =
      some r) : (s.handleTcpPortforwarding E pf).handler = r.handler := by
  have hopened : ((s.socketOpen .data fd).openChannel E .tcpPortForwarding (some pf.service) 0
      fd).1.handler = r.handler := by
    apply openChannel_handler
    · exact hinv
    · exact hreliable
    · exact hr
  rw [handleTcpPortforwarding, hfd]
  dsimp only
  generalize (s.socketOpen .data fd).openChannel E .tcpPortForwarding (some pf.service) 0 fd = q at hopened
  split_ifs
  · exact hopened
  · exact hopened

theorem onStateChanged_empty {s : ForwardingStream} (hempty : s.handler.channels = [])
    (state : StreamState) : (s.onStateChanged E state).handler = s.handler := by
  have hclose : s.closeChannels E = s := by
    rw [closeChannels, hempty]
    rfl
  rw [onStateChanged, hclose]
  split_ifs
  · rfl
  · rfl

theorem iceHandlerStop_empty {s : ForwardingStream} (hempty : s.handler.channels = []) (error : ℤ) :
    (s.iceHandlerStop E error).handler = s.handler := by
  have hstopping : { s with stopping := true }.handler.channels = [] := hempty
  unfold iceHandlerStop
  dsimp only
  split_ifs
  · rfl
  · exact onStateChanged_empty hstopping _
  · exact onStateChanged_empty hstopping _
  · rfl

theorem removeStream_handler (s : ForwardingStream) (last : Bool) : (s.removeStream E last).handler =
    (multiplexHandlerCloseChannels (s.mux E) s.handler .normal).1 := by
  have hclosed := closeChannels_handler (M := s.mux E) rfl s .normal
  have hempty := closeChannels_channels (s.mux E) s.handler .normal
  rw [← hclosed] at hempty
  have hidle : { s.closeChannels E with running := false }.handler.channels = [] := hempty
  have hstopped : (s.multiplexHandlerStop E 0).handler = (s.closeChannels E).handler :=
    iceHandlerStop_empty hidle 0
  rw [← hclosed]
  cases last with
  | false => exact hstopped
  | true =>
    change { (s.multiplexHandlerStop E 0).handler with channels := [] } = (s.closeChannels E).handler
    rw [hstopped, ← hempty]

/-- The operation leaves the multiplex handler as its call does, or as it was. -/
def Mirrors (E : WorkerEnv) (s : ForwardingStream) (op : Op) (t : ForwardingStream) : Prop :=
  match s.muxOp E op with
  | none => t.handler = s.handler
  | some op' => ∀ r, muxCall (s.mux E) s.handler op' = some r → t.handler = r.handler

theorem accept_handler {t : ForwardingStream} {pfid : ℕ} (hinv : s.handler.Inv)
    (hreliable : s.handler.reliable = true) (ht : s.call E (.accept pfid) = some t) :
    s.Mirrors E (.accept pfid) t := by
  dsimp only [Mirrors, muxOp]
  unfold call at ht
  dsimp only at ht
  cases hpf : portforwardingsGet s.portforwardings pfid with
  | none =>
    rw [hpf] at ht
    cases ht
  | some pf =>
    rw [hpf] at ht
    dsimp only at ht
    split_ifs at ht with hready htcp
    · cases ht
      cases hfd : E.socket with
      | none =>
        rw [handleTcpPortforwarding, hfd]
      | some fd =>
        dsimp only
        rw [if_pos htcp]
        intro r hr
        exact handleTcpPortforwarding_handler hinv hreliable hfd hr
    · cases ht
      cases E.socket with
      | none => rfl
      | some fd =>
        dsimp only
        rw [if_neg htcp]

theorem readable_handler {t : ForwardingStream} {cid : ℕ} (hreliable : s.handler.reliable = true)
    (ht : s.call E (.readable cid) = some t) : s.Mirrors E (.readable cid) t := by
  intro r hr
  unfold call at ht
  dsimp only at ht
  cases hget : channelsGet s.handler.channels cid with
  | none =>
    rw [hget] at ht
    cases ht
  | some ch =>
    rw [hget] at ht
    dsimp only at ht
    split_ifs at ht
    cases ht
    unfold handleTcpPortforwardingChannel
    split_ifs at hr ⊢
    · exact closeChannel_handler hreliable hr
    · cases hr
      exact writeChannel_handler hreliable cid E.recv

/-- A second stop, or one of a stream that has failed, closes no channel. -/
theorem handlerStop_handler (s : ForwardingStream) (error : ℤ) :
    s.Mirrors E (.handlerStop error) (s.iceHandlerStop E error) := by
  dsimp only [Mirrors, muxOp]
  by_cases hdone : s.stopping ∨ ¬s.state.code ≤ StreamState.connected.code
  · rw [if_pos hdone]
    unfold iceHandlerStop
    obtain hstopping | hstate := hdone
    · rw [if_pos hstopping]
    · dsimp only
      rw [if_neg hstate]
      split_ifs
      · rfl
      · rfl
  · obtain ⟨hstopping, hstate⟩ := not_or.mp hdone
    rw [if_neg hdone]
    intro r hr
    cases hr
    exact iceHandlerStop_handler (M := s.mux E) rfl hstopping (not_not.mp hstate) error

/-- Every operation on the stream is a call of its multiplex handler, or leaves the handler alone. -/
theorem call_handler {op : Op} {t : ForwardingStream} (hinv : s.handler.Inv)
    (hreliable : s.handler.reliable = true) (ht : s.call E op = some t) : s.Mirrors E op t := by
  cases op with
  | start =>
    cases ht
    rfl
  | openPortforwarding service =>
    cases ht
    exact portforwardingOpen_handler s service
  | closePortforwarding pfid =>
    cases ht
    exact portforwardingClose_handler s pfid
  | accept pfid => exact accept_handler hinv hreliable ht
  | readable cid => exact readable_handler hreliable ht
  | receive p =>
    intro r hr
    unfold muxCall at hr
    dsimp only at hr
    split at hr
    · cases hr
    · next hbytes =>
      cases hr
      exact notifyPacket_handler hinv hreliable ht hbytes
  | openChannel cookie =>
    cases ht
    dsimp only [Mirrors, muxOp]
    by_cases hstate : s.state = .connected
    · rw [if_pos hstate, if_pos hstate]
      intro r hr
      exact openChannel_handler hinv hreliable 0 hr
    · rw [if_neg hstate, if_neg hstate]
  | closeChannel cid =>
    cases ht
    intro r hr
    exact closeChannel_handler hreliable hr
  | writeChannel cid data =>
    cases ht
    intro r hr
    cases hr
    exact writeChannel_handler hreliable cid data
  | pendChannel cid =>
    cases ht
    intro r hr
    unfold muxCall multiplexHandlerPendChannel at hr
    dsimp only at hr
    split_ifs at hr
    cases hr
    exact sendOnChannel_handler hreliable cid .channelPending [] _
  | resumeChannel cid =>
    cases ht
    intro r hr
    unfold muxCall multiplexHandlerResumeChannel at hr
    dsimp only at hr
    split_ifs at hr
    cases hr
    exact sendOnChannel_handler hreliable cid .channelResume [] _
  | stateChanged state =>
    cases ht
    intro r hr
    cases hr
    exact onStateChanged_handler rfl s state
  | handlerStop error =>
    cases ht
    exact handlerStop_handler s error
  | removeStream last =>
    cases ht
    intro r hr
    cases hr
    exact removeStream_handler s last

end Calls

end ForwardingStream

end Carrier.Session
