import Carrier.Session.MuxRun

/-! The clocks of the channels: what the checkpoint of a handler does with its channels, against the
exact times that have passed since something was received or sent. -/
namespace Carrier.Session
open Carrier.Lib Carrier.Common

/-- A clock reading of whole milliseconds since the epoch. -/
structure TimeVal.WholeMs (t : TimeVal) : Prop where
  sec : 0 ≤ t.sec
  nonneg : 0 ≤ t.usec
  lt : t.usec < 1000000
  whole : t.usec % 1000 = 0

def TimeVal.ms (t : TimeVal) : ℤ := t.sec * 1000 + t.usec / 1000

/-- A packet on the established channel `id`, and not one that opens or closes it. -/
def ProtocolBuffer.IsOn (pb : ProtocolBuffer) (id : ℕ) : Prop :=
  pb.remoteChannelId = id ∧ PacketType.channelData.code ≤ pb.type ∧
    pb.type < PacketType.channelClose.code

instance (pb : ProtocolBuffer) (id : ℕ) : Decidable (pb.IsOn id) :=
  inferInstanceAs (Decidable (_ ∧ _))

/-- Something has been sent on the channel `id`. -/
def sentOn (E : MuxEnv) (events : List MuxEvent) (id : ℕ) : Bool :=
  events.any (fun
    | .send pb => decide (pb.IsOn id ∧ 0 ≤ E.next pb)
    | _ => false)

/-- A handler, and for every id when something was last sent on the channel that has it. -/
structure LoggedHandler where
  handler : MultiplexHandler
  lastSent : ℕ → Option TimeVal

def loggedStep (s : LoggedHandler) (act : MuxAct) : Option LoggedHandler :=
  (muxCall act.1 s.handler act.2).map (fun r =>
    ⟨r.handler, fun id =>
      if (channelsGet s.handler.channels id).isNone then none
      else if sentOn act.1 r.events id then some act.1.now
      else s.lastSent id⟩)

/-- A handler of an unreliable stream, before any channel. -/
def loggedCreate (worker : Bool) : LoggedHandler :=
  ⟨multiplexHandlerCreate worker false, fun _ => none⟩

/-- What a call leaves of the time stamps of a channel, `old` being the channel under its id before
the call. -/
structure Stamped (E : MuxEnv) (old : Option Channel) (sent : Bool) (ch : Channel) : Prop where
  localTimestamp : ch.localTimestamp =
    old.elim ⟨0, 0⟩ (fun c => if sent then E.now else c.localTimestamp)
  remoteTimestamp : ch.remoteTimestamp = E.now ∨ ∃ c ∈ old, ch.remoteTimestamp = c.remoteTimestamp
  lastActivity : ch.lastActivity = E.now ∨ ∃ c ∈ old, ch.lastActivity = c.lastActivity

/-- A call stamps its channels: those it has sent something on, and those it has received for. -/
def Stamps (E : MuxEnv) (h : MultiplexHandler) (events : List MuxEvent) (h' : MultiplexHandler) :
    Prop :=
  ∀ id ch, channelsGet h'.channels id = some ch →
    Stamped E (channelsGet h.channels id) (sentOn E events id) ch

section Calls

variable {E : MuxEnv} {h : MultiplexHandler} {pb : ProtocolBuffer} {events : List MuxEvent}

theorem Stamped.same (E : MuxEnv) (ch : Channel) : Stamped E (some ch) false ch :=
  ⟨rfl, .inr ⟨ch, rfl, rfl⟩, .inr ⟨ch, rfl, rfl⟩⟩

theorem stamps_same (E : MuxEnv) (h : MultiplexHandler) (hev : ∀ id, sentOn E events id = false) :
    Stamps E h events h := by
  intro id ch hget
  rw [hev, hget]
  exact .same E ch

theorem stamps_of_channels_eq_nil {h' : MultiplexHandler} (hnil : h'.channels = []) :
    Stamps E h events h' := by
  intro id ch hget
  rw [hnil] at hget
  cases hget

theorem stamps_remove (E : MuxEnv) (h : MultiplexHandler) (cid : ℕ)
    (hev : ∀ id, sentOn E events id = false) : Stamps E h events (h.remove E cid) := by
  intro id ch hget
  rw [channelsGet_handler_remove] at hget
  split_ifs at hget
  rw [hev, hget]
  exact .same E ch

theorem stamps_set {ch ch' : Channel} (hget : channelsGet h.channels ch.id = some ch)
    (hid : ch'.id = ch.id) (hstamped : Stamped E (some ch) (sentOn E events ch.id) ch')
    (hev : ∀ id, id ≠ ch.id → sentOn E events id = false) : Stamps E h events (h.set ch') := by
  intro id c hc
  rw [MultiplexHandler.set, channelsGet_set, hid] at hc
  split_ifs at hc with hsame
  · rw [hsame, hget, Option.map_some] at hc
    cases hc
    rwa [hsame, hget]
  · rw [hev id hsame, hc]
    exact .same E c

/-- A channel enters the table with no local stamp. -/
theorem stamps_enter (hinv : h.Inv) {ch ch' : Channel} (hch : h.Fresh ch)
    {h' : MultiplexHandler} (hget' : ∀ id, channelsGet h'.channels id =
      if id = ch.id then some ch' else channelsGet h.channels id)
    (hlocal : ch'.localTimestamp = ⟨0, 0⟩) (hremote : ch'.remoteTimestamp = E.now)
    (hlast : ch'.lastActivity = E.now) (hev : ∀ id, sentOn E events id = false) :
    Stamps E h events h' := by
  intro id c hc
  rw [hget'] at hc
  split_ifs at hc with hid
  · cases hc
    rw [hid, hinv.fresh_get hch]
    exact ⟨hlocal, .inl hremote, .inl hlast⟩
  · rw [hev, hc]
    exact .same E c

@[simp] theorem sentOn_nil (E : MuxEnv) (id : ℕ) : sentOn E [] id = false := rfl

theorem sentOn_append (E : MuxEnv) (events events' : List MuxEvent) (id : ℕ) :
    sentOn E (events ++ events') id = (sentOn E events id || sentOn E events' id) :=
  List.any_append

theorem sentOn_send (E : MuxEnv) (t : PacketType) (option localId remoteId : ℕ) (payload : Bytes)
    (id : ℕ) : sentOn E [.send (sentPacket t option localId remoteId payload)] id =
      decide (localId = id ∧ PacketType.channelData.code ≤ t.code ∧
        t.code < PacketType.channelClose.code ∧
          0 ≤ E.next (sentPacket t option localId remoteId payload)) := by
  unfold sentOn
  rw [List.any_cons, List.any_nil, Bool.or_false]
  exact decide_eq_decide.mpr (by simp only [ProtocolBuffer.IsOn, sentPacket, and_assoc])

theorem written_stamps (hev : ∀ id, sentOn E [.send pb] id = false) :
    Stamps E h (h.written E pb).2 (h.written E pb).1 := by
  cases hstops : h.stops E pb with
  | none =>
    rw [MultiplexHandler.written_of_stops_eq_none hstops]
    exact stamps_same E h hev
  | some reason => exact stamps_of_channels_eq_nil (written_channels hstops)

theorem notifyChannelOpen_stamps (hinv : h.Inv) (hremote : pb.remoteChannelId < 2 ^ 16) :
    Stamps E h (notifyChannelOpen E h pb).2 (notifyChannelOpen E h pb).1 := by
  cases htype : h.openType pb with
  | none =>
    rw [notifyChannelOpen_unsupported htype]
    exact stamps_same E h (fun _ => rfl)
  | some type =>
    cases hch : incomingChannel E h pb with
    | none =>
      rw [notifyChannelOpen_full hinv htype hch]
      apply written_stamps
      intro id
      rw [sentOn_send]
      simp [PacketType.code]
    | some ch =>
      obtain ⟨hfresh, -, -⟩ := incomingChannel_eq_some hinv hremote hch
      have hstamps : ch.localTimestamp = ⟨0, 0⟩ := by
        unfold incomingChannel at hch
        rw [htype] at hch
        dsimp only at hch
        split_ifs at hch
        cases hch
        rfl
      have hgone {events : List MuxEvent} (hev : ∀ id, sentOn E events id = false) :
          Stamps E h events ((h.enter ch).remove E ch.id) := by
        intro id c hc
        rw [channelsGet_handler_remove] at hc
        split_ifs at hc with hid
        rw [MultiplexHandler.enter, MultiplexHandler.put, channelsGet_put, if_neg hid] at hc
        rw [hev, hc]
        exact .same E c
      have hquiet (id : ℕ) : ¬(openAnswer E ch pb).IsOn id := by
        simp [ProtocolBuffer.IsOn, openAnswer, sentPacket, PacketType.code]
      rw [notifyChannelOpen_incoming hch]
      rcases hstops : h.stops E (openAnswer E ch pb) with _ | reason
      swap
      · have hnil := written_channels (h := h.enter ch) hstops
        apply stamps_of_channels_eq_nil
        rw [afterAnswer_of_channels_eq_nil hnil, hnil]
      rw [MultiplexHandler.written_of_stops_eq_none (h := h.enter ch) hstops]
      unfold afterAnswer
      dsimp only
      split_ifs with hok hrc
      · exact hgone (fun id => by simp [sentOn, hquiet])
      · set opened := updateRemoteTimestamp E { ch with status := .open } with hopened
        have hget : ∀ id, channelsGet ((h.enter ch).set opened).channels id =
            if id = ch.id then some opened else channelsGet h.channels id := by
          intro id
          rw [MultiplexHandler.set, channelsGet_set, MultiplexHandler.enter, MultiplexHandler.put,
            channelsGet_put]
          by_cases hid : id = ch.id
          · simp [hid, hopened, updateRemoteTimestamp]
          · simp [hid, hopened, updateRemoteTimestamp]
        exact stamps_enter hinv hfresh hget hstamps rfl rfl (fun id => by simp [sentOn, hquiet])
      · exact hgone (fun id => by simp [sentOn, hquiet])

theorem notifyChannel_stamps {ch : Channel} (hget : channelsGet h.channels ch.id = some ch) :
    Stamps E h (notifyChannel E h ch pb).2 (notifyChannel E h ch pb).1 := by
  have hset {events : List MuxEvent} (hev : ∀ id, sentOn E events id = false) (ch' : Channel)
      (hid : ch'.id = ch.id) (hlocal : ch'.localTimestamp = ch.localTimestamp)
      (hremote : ch'.remoteTimestamp = E.now)
      (hlast : ch'.lastActivity = E.now ∨ ch'.lastActivity = ch.lastActivity) :
      Stamps E h events (h.set ch') := by
    apply stamps_set hget hid ?_ (fun id _ => hev id)
    rw [hev]
    exact ⟨hlocal, .inl hremote, hlast.imp_right (fun heq => ⟨ch, rfl, heq⟩)⟩
  have hremove {events : List MuxEvent} (hev : ∀ id, sentOn E events id = false) :
      Stamps E h events (h.remove E ch.id) := stamps_remove E h ch.id hev
  have hsame : Stamps E h [] h := stamps_same E h (fun _ => rfl)
  unfold notifyChannel
  cases PacketType.ofCode pb.type with
  | none => exact hsame
  | some t =>
    cases t with
    | channelOpen => exact hsame
    | channelOpenConfirmation =>
      dsimp only
      split_ifs
      · exact hsame
      · exact hset (fun _ => rfl) _ rfl rfl rfl (.inl rfl)
      · exact hremove (fun _ => rfl)
    | channelData =>
      dsimp only
      split_ifs
      · exact hsame
      · exact hset (fun _ => rfl) _ rfl rfl rfl (.inl rfl)
      · exact hremove (fun _ => rfl)
    | channelKeepAlive => exact hset (fun _ => rfl) _ rfl rfl rfl (.inr rfl)
    | channelPending =>
      dsimp only
      split_ifs
      · exact hsame
      · exact hset (fun _ => rfl) _ rfl rfl rfl (.inl rfl)
    | channelResume =>
      dsimp only
      split_ifs
      · exact hsame
      · exact hset (fun _ => rfl) _ rfl rfl rfl (.inl rfl)
    | channelClose => exact hremove (fun _ => rfl)

theorem notifyBytes_stamps (hinv : h.Inv) {trace : Bool} {p : Bytes}
    {r : MultiplexHandler × List MuxEvent} (hr : multiplexHandlerNotifyBytes E trace h p = .ok r) :
    Stamps E h r.2 r.1 := by
  unfold multiplexHandlerNotifyBytes at hr
  split_ifs at hr
  cases hpb : receivedPacket p with
  | none =>
    rw [hpb] at hr
    cases hr
    exact stamps_same E h (fun _ => rfl)
  | some pb =>
    have hremote := (receivedPacket_eq_some hpb).1.remoteChannelId
    rw [hpb] at hr
    dsimp only at hr
    split_ifs at hr
    · cases hr
      exact stamps_same E h (fun _ => rfl)
    · split at hr
      · cases hr
      · cases hr
        exact notifyChannelOpen_stamps hinv hremote
    · split at hr
      · cases hr
        exact stamps_same E h (fun _ => rfl)
      · next ch hget =>
        rw [← channelsGet_id hget] at hget
        split at hr
        · cases hr
        · cases hr
          exact notifyChannel_stamps hget

/-- A packet that is kept track of is one that has gone out on the channel. -/
theorem sendOnChannel_stamps (cid : ℕ) {t : PacketType} (payload : Bytes) {keeps : ℤ → Bool}
    (ht : PacketType.channelData.code ≤ t.code ∧ t.code < PacketType.channelClose.code)
    (hkeeps : ∀ rc : ℤ, keeps (if rc < 0 then rc else payload.length) = decide (0 ≤ rc)) :
    Stamps E h (sendOnChannel E h cid t payload keeps).events
      (sendOnChannel E h cid t payload keeps).handler := by
  unfold sendOnChannel
  split
  · exact stamps_same E h (fun _ => rfl)
  · next ch hget =>
    rw [← channelsGet_id hget] at hget
    dsimp only
    split_ifs with hst hrid hkept
    · exact stamps_same E h (fun _ => rfl)
    · exact stamps_same E h (fun _ => rfl)
    · rcases hstops : h.stops E (sentPacket t 0 ch.id ch.remoteId payload) with _ | reason
      swap
      · have hnil := written_channels hstops
        exact stamps_of_channels_eq_nil ((congrArg _ (set_of_channels_eq_nil hnil _)).trans hnil)
      have hwritten : h.written E (multiplexHandlerSendPacket E t 0 ch.id ch.remoteId payload).1 =
          (h, [.send (multiplexHandlerSendPacket E t 0 ch.id ch.remoteId payload).1]) :=
        MultiplexHandler.written_of_stops_eq_none hstops
      rw [hwritten]
      have hnext : 0 ≤ E.next (sentPacket t 0 ch.id ch.remoteId payload) := by
        simpa [multiplexHandlerSendPacket, sentPacket, hkeeps] using hkept
      have hev (id : ℕ) : sentOn E [.send (multiplexHandlerSendPacket E t 0 ch.id ch.remoteId
          payload).1] id = decide (ch.id = id) := by
        have hsend := sentOn_send E t 0 ch.id ch.remoteId payload id
        simp only [ht, hnext, and_true] at hsend
        exact hsend
      refine stamps_set hget rfl ?_ (fun id hne => ?_)
      · rw [hev, decide_eq_true rfl]
        exact ⟨rfl, .inr ⟨ch, rfl, rfl⟩, .inl rfl⟩
      · rw [hev]
        exact decide_eq_false (Ne.symm hne)
    · apply written_stamps
      intro id
      have hnext : ¬0 ≤ E.next (sentPacket t 0 ch.id ch.remoteId payload) := by
        simpa [multiplexHandlerSendPacket, sentPacket, hkeeps] using hkept
      have hsend := sentOn_send E t 0 ch.id ch.remoteId payload id
      simp only [hnext, and_false, decide_false] at hsend
      exact hsend

theorem openChannel_stamps (hinv : h.Inv) {type : ChannelType} {cookie : Option Bytes}
    {timeout : ℤ} {r : MuxCall}
    (hr : multiplexHandlerOpenChannel E h type cookie timeout = some r) :
    Stamps E h r.events r.handler := by
  rcases openChannel_eq_some hinv hr with ⟨-, rfl⟩ | ⟨ch, hch, hfresh, -, rfl⟩
  · exact stamps_same E h (fun _ => rfl)
  have hget (id : ℕ) : channelsGet (h.enter ch).channels id =
      if id = ch.id then some ch else channelsGet h.channels id := by
    rw [MultiplexHandler.enter, MultiplexHandler.put, channelsGet_put]
  have hev (id : ℕ) : sentOn E [.send (openRequest ch cookie)] id = false := by
    rw [openRequest, sentOn_send]
    simp [PacketType.code]
  unfold afterRequest
  cases hstops : h.stops E (openRequest ch cookie) with
  | some reason =>
    have hnil := written_channels (h := h.enter ch) hstops
    split_ifs
    · exact stamps_of_channels_eq_nil ((congrArg _ (remove_of_channels_eq_nil hnil _)).trans hnil)
    · exact stamps_of_channels_eq_nil hnil
  | none =>
    rw [MultiplexHandler.written_of_stops_eq_none (h := h.enter ch) hstops]
    split_ifs with hrc
    · intro id c hc
      rw [channelsGet_handler_remove, hget] at hc
      split_ifs at hc
      rw [hev, hc]
      exact .same E c
    · subst hch
      exact stamps_enter hinv hfresh hget rfl rfl rfl hev

theorem closeChannel_stamps {cid : ℕ} {r : MuxCall}
    (hr : multiplexHandlerCloseChannel E h cid = some r) : Stamps E h r.events r.handler := by
  rcases closeChannel_eq_some hr with ⟨-, rfl⟩ | ⟨ch, w, -, rfl, rfl, rfl⟩
  · exact stamps_same E h (fun _ => rfl)
  split_ifs
  · exact stamps_remove E h ch.id (fun _ => rfl)
  cases hstops : h.stops E (closeNotice ch) with
  | some reason =>
    have hnil := written_channels hstops
    exact stamps_of_channels_eq_nil ((congrArg _ (remove_of_channels_eq_nil hnil _)).trans hnil)
  | none =>
    rw [MultiplexHandler.written_of_stops_eq_none hstops]
    apply stamps_remove
    intro id
    dsimp only
    rw [sentOn_append, closeNotice, sentOn_send]
    simp [sentOn, PacketType.code]

end Calls

section Rounds

variable {E : MuxEnv} {h : MultiplexHandler}

/-- What a round leaves of the channel it is at, without regard to the rest of the table. -/
structure RoundResult (round : MultiplexHandler → Channel → MultiplexHandler × List MuxEvent)
    (left : Channel → Option Channel) (events : Channel → List MuxEvent) : Prop where
  events : ∀ h ch, (round h ch).2 = events ch
  get : ∀ h ch, channelsGet h.channels ch.id = some ch → ∀ id,
    channelsGet (round h ch).1.channels id =
      if id = ch.id then left ch else channelsGet h.channels id

theorem iterateChannels_events
    {round : MultiplexHandler → Channel → MultiplexHandler × List MuxEvent}
    {left : Channel → Option Channel} {events : Channel → List MuxEvent}
    (hround : RoundResult round left events) (h : MultiplexHandler) (rest : List Channel) :
    (iterateChannels round h rest).2 = rest.flatMap events := by
  induction rest generalizing h with
  | nil => rfl
  | cons ch rest ih =>
    rw [iterateChannels, List.flatMap_cons, ← hround.events h ch, ← ih]

theorem iterateChannels_get
    {round : MultiplexHandler → Channel → MultiplexHandler × List MuxEvent}
    {left : Channel → Option Channel} {events : Channel → List MuxEvent}
    (hround : RoundResult round left events) {rest : List Channel}
    (hnd : (rest.map Channel.id).Nodup)
    (hrest : ∀ ch ∈ rest, channelsGet h.channels ch.id = some ch) (id : ℕ) :
    channelsGet (iterateChannels round h rest).1.channels id =
      if id ∈ rest.map Channel.id then (channelsGet h.channels id).bind left
      else channelsGet h.channels id := by
  induction rest generalizing h with
  | nil => rfl
  | cons ch rest ih =>
    rw [List.map_cons, List.nodup_cons] at hnd
    have hget := hround.get h ch (hrest ch List.mem_cons_self)
    have hlater : ∀ c ∈ rest, channelsGet (round h ch).1.channels c.id = some c := by
      intro c hc
      have hne : c.id ≠ ch.id := fun heq => hnd.1 (heq ▸ List.mem_map_of_mem hc)
      rw [hget, if_neg hne]
      exact hrest c (List.mem_cons_of_mem _ hc)
    rw [iterateChannels]
    dsimp only
    rw [ih hnd.2 hlater, hget, List.map_cons]
    by_cases hid : id = ch.id
    · have hout : id ∉ rest.map Channel.id := hid ▸ hnd.1
      rw [if_neg hout, if_pos hid, if_pos (hid ▸ List.mem_cons_self), hid,
        hrest ch List.mem_cons_self, Option.bind_some]
    · simp [hid]

/-- A loop over the whole table. -/
theorem iterateChannels_get_all
    {round : MultiplexHandler → Channel → MultiplexHandler × List MuxEvent}
    {left : Channel → Option Channel} {events : Channel → List MuxEvent}
    (hround : RoundResult round left events) (hinv : h.Inv) (id : ℕ) :
    channelsGet (iterateChannels round h h.channels).1.channels id =
      (channelsGet h.channels id).bind left := by
  rw [iterateChannels_get hround hinv.nodup (fun _ hc => channelsGet_of_mem hinv.nodup hc)]
  split_ifs with hid
  · rfl
  · have hnone : channelsGet h.channels id = none :=
      channelsGet_eq_none (fun c hc heq => hid (heq ▸ List.mem_map_of_mem hc))
    rw [hnone, Option.bind_none]

/-- The tests of the checkpoint on which it closes a channel. -/
def Expires (E : MuxEnv) (ch : Channel) : Prop :=
  ch.timeout ≠ 0 ∧ toInt (ch.timeout * 1000) ≤ intervalSince E.now ch.lastActivity ∨
    keepaliveTimeoutInterval ≤ intervalSince E.now ch.remoteTimestamp

instance (E : MuxEnv) (ch : Channel) : Decidable (Expires E ch) :=
  inferInstanceAs (Decidable (_ ∨ _))

def keepAlivePacket (ch : Channel) : ProtocolBuffer :=
  sentPacket .channelKeepAlive 0 ch.id ch.remoteId []

def checkpointEvents (E : MuxEnv) (ch : Channel) : List MuxEvent :=
  if Expires E ch then [.channelClose ch.id .timeout]
  else if keepaliveInterval ≤ intervalSince E.now ch.localTimestamp then
    [.send (keepAlivePacket ch)]
  else []

def checkpointLeft (E : MuxEnv) (ch : Channel) : Option Channel :=
  if Expires E ch then none
  else if keepaliveInterval ≤ intervalSince E.now ch.localTimestamp ∧
      0 ≤ E.next (keepAlivePacket ch) then
    some { ch with localTimestamp := E.now }
  else some ch

theorem checkpointChannel_eq (E : MuxEnv) (h : MultiplexHandler) (ch : Channel) :
    checkpointChannel E h ch =
      if Expires E ch then (h.remove E ch.id, [.channelClose ch.id .timeout])
      else if keepaliveInterval ≤ intervalSince E.now ch.localTimestamp then
        (if 0 ≤ E.next (keepAlivePacket ch) then h.set { ch with localTimestamp := E.now } else h,
          [.send (keepAlivePacket ch)])
      else (h, []) := by
  have hrc : (multiplexHandlerSendPacket E .channelKeepAlive 0 ch.id ch.remoteId []).2 =
      if E.next (keepAlivePacket ch) < 0 then E.next (keepAlivePacket ch) else 0 := rfl
  unfold checkpointChannel
  by_cases hexp : Expires E ch
  · rw [if_pos hexp]
    exact if_pos hexp
  · rw [if_neg hexp]
    refine (if_neg hexp).trans ?_
    by_cases hidle : keepaliveInterval ≤ intervalSince E.now ch.localTimestamp
    · rw [if_pos hidle, if_pos hidle]
      dsimp only
      rw [hrc]
      by_cases hsent : 0 ≤ E.next (keepAlivePacket ch)
      · rw [if_neg hsent.not_gt, if_pos rfl, if_pos hsent]
        rfl
      · rw [if_pos (not_le.mp hsent), if_neg (not_le.mp hsent).ne, if_neg hsent]
        rfl
    · rw [if_neg hidle, if_neg hidle]

theorem roundResult_checkpoint (E : MuxEnv) :
    RoundResult (checkpointChannel E) (checkpointLeft E) (checkpointEvents E) := by
  constructor
  · intro h ch
    rw [checkpointChannel_eq]
    unfold checkpointEvents
    by_cases hexp : Expires E ch
    · rw [if_pos hexp, if_pos hexp]
    · rw [if_neg hexp, if_neg hexp]
      by_cases hidle : keepaliveInterval ≤ intervalSince E.now ch.localTimestamp
      · rw [if_pos hidle, if_pos hidle]
      · rw [if_neg hidle, if_neg hidle]
  · intro h ch hget id
    have hsame : channelsGet h.channels id =
        if id = ch.id then some ch else channelsGet h.channels id := by
      by_cases hid : id = ch.id
      · rw [if_pos hid, hid, hget]
      · rw [if_neg hid]
    rw [checkpointChannel_eq, checkpointLeft]
    by_cases hexp : Expires E ch
    · rw [if_pos hexp, if_pos hexp]
      exact channelsGet_handler_remove E h ch.id id
    · rw [if_neg hexp, if_neg hexp]
      by_cases hidle : keepaliveInterval ≤ intervalSince E.now ch.localTimestamp
      · by_cases hsent : 0 ≤ E.next (keepAlivePacket ch)
        · have hkept := And.intro hidle hsent
          rw [if_pos hidle, if_pos hkept]
          dsimp only
          rw [if_pos hsent, MultiplexHandler.set, channelsGet_set]
          by_cases hid : id = ch.id
          · rw [if_pos hid, if_pos hid, hid, hget, Option.map_some]
          · rw [if_neg hid, if_neg hid]
        · have hkept := not_and_of_not_right (keepaliveInterval ≤
            intervalSince E.now ch.localTimestamp) hsent
          rw [if_pos hidle, if_neg hkept]
          dsimp only
          rw [if_neg hsent]
          exact hsame
      · have hkept := not_and_of_not_left (0 ≤ E.next (keepAlivePacket ch)) hidle
        rw [if_neg hidle, if_neg hkept]
        exact hsame

theorem roundResult_closeChannels (E : MuxEnv) (reason : CloseReason) :
    RoundResult (closeChannelsRound E reason) (fun _ => none)
      (fun ch => [.channelClose ch.id reason]) where
  events _ _ := rfl
  get h ch _ id := channelsGet_handler_remove E h ch.id id

/-- The events of a loop that concern one channel. -/
theorem mem_flatMap_own (hinv : h.Inv) {events : Channel → List MuxEvent} {ch : Channel}
    (hch : ch ∈ h.channels) {e : MuxEvent}
    (hown : ∀ c, e ∈ events c → c.id = ch.id) :
    e ∈ h.channels.flatMap events ↔ e ∈ events ch := by
  rw [List.mem_flatMap]
  constructor
  · rintro ⟨c, hc, he⟩
    have hsame : c = ch := by
      have hget := channelsGet_of_mem hinv.nodup hc
      rw [hown c he, channelsGet_of_mem hinv.nodup hch] at hget
      exact (Option.some.inj hget).symm
    exact hsame ▸ he
  · exact fun he => ⟨ch, hch, he⟩

theorem sentOn_eq_true {events : List MuxEvent} {id : ℕ} :
    sentOn E events id = true ↔ ∃ pb, .send pb ∈ events ∧ pb.IsOn id ∧ 0 ≤ E.next pb := by
  unfold sentOn
  rw [List.any_eq_true]
  constructor
  · rintro ⟨e, he, hsent⟩
    cases e with
    | send pb => exact ⟨pb, he, of_decide_eq_true hsent⟩
    | _ => cases hsent
  · rintro ⟨pb, hpb, hsent⟩
    exact ⟨.send pb, hpb, decide_eq_true hsent⟩

theorem keepAlivePacket_isOn (ch : Channel) (id : ℕ) : (keepAlivePacket ch).IsOn id ↔ ch.id = id := by
  simp [ProtocolBuffer.IsOn, keepAlivePacket, sentPacket, PacketType.code]

/-- The only packet a round sends. -/
theorem send_mem_checkpointEvents {ch : Channel} {pb : ProtocolBuffer} :
    .send pb ∈ checkpointEvents E ch ↔
      pb = keepAlivePacket ch ∧ ¬Expires E ch ∧
        keepaliveInterval ≤ intervalSince E.now ch.localTimestamp := by
  unfold checkpointEvents
  split_ifs with hexp hidle
  · simp [hexp]
  · simp [hexp, hidle]
  · simp [hidle]

theorem checkpoint_stamps (hinv : h.Inv) :
    Stamps E h (multiplexHandlerCheckpoint E h).2 (multiplexHandlerCheckpoint E h).1 := by
  intro id ch' hget'
  unfold multiplexHandlerCheckpoint at hget' ⊢
  rw [iterateChannels_get_all (roundResult_checkpoint E) hinv, Option.bind_eq_some_iff] at hget'
  obtain ⟨ch, hget, hleft⟩ := hget'
  have hid := channelsGet_id hget
  rw [hget, iterateChannels_events (roundResult_checkpoint E)]
  have hsent : sentOn E (h.channels.flatMap (checkpointEvents E)) id = true ↔
      ¬Expires E ch ∧ keepaliveInterval ≤ intervalSince E.now ch.localTimestamp ∧
        0 ≤ E.next (keepAlivePacket ch) := by
    rw [sentOn_eq_true]
    constructor
    · rintro ⟨pb, hpb, hon, hnext⟩
      have hown (c : Channel) (hc : .send pb ∈ checkpointEvents E c) : c.id = ch.id := by
        obtain ⟨rfl, -⟩ := send_mem_checkpointEvents.mp hc
        exact ((keepAlivePacket_isOn c id).mp hon).trans hid.symm
      obtain ⟨rfl, hexp, hidle⟩ := send_mem_checkpointEvents.mp
        ((mem_flatMap_own hinv (mem_of_channelsGet hget) hown).mp hpb)
      exact ⟨hexp, hidle, hnext⟩
    · rintro ⟨hexp, hidle, hnext⟩
      exact ⟨keepAlivePacket ch, List.mem_flatMap.mpr ⟨ch, mem_of_channelsGet hget,
        send_mem_checkpointEvents.mpr ⟨rfl, hexp, hidle⟩⟩, (keepAlivePacket_isOn ch id).mpr hid, hnext⟩
  unfold checkpointLeft at hleft
  by_cases hexp : Expires E ch
  · rw [if_pos hexp] at hleft
    cases hleft
  · rw [if_neg hexp] at hleft
    by_cases hkept : keepaliveInterval ≤ intervalSince E.now ch.localTimestamp ∧
        0 ≤ E.next (keepAlivePacket ch)
    · rw [if_pos hkept] at hleft
      cases hleft
      rw [hsent.mpr ⟨hexp, hkept⟩]
      exact ⟨rfl, .inr ⟨ch, rfl, rfl⟩, .inr ⟨ch, rfl, rfl⟩⟩
    · rw [if_neg hkept] at hleft
      cases hleft
      rw [Bool.eq_false_iff.mpr (fun hyes => hkept (hsent.mp hyes).2)]
      exact .same E ch'

theorem closeChannels_stamps (hinv : h.Inv) (reason : CloseReason) :
    Stamps E h (multiplexHandlerCloseChannels E h reason).2
      (multiplexHandlerCloseChannels E h reason).1 := by
  intro id ch' hget'
  unfold multiplexHandlerCloseChannels at hget'
  rw [iterateChannels_get_all (roundResult_closeChannels E reason) hinv] at hget'
  obtain ⟨ch, -, hleft⟩ := Option.bind_eq_some_iff.mp hget'
  cases hleft

theorem muxCall_stamps (hinv : h.Inv) {op : MuxOp} {r : MuxCall} (hr : muxCall E h op = some r) :
    Stamps E h r.events r.handler := by
  have hempty : ∀ rc : ℤ, decide ((if rc < 0 then rc else (([] : Bytes).length : ℤ)) = 0) =
      decide (0 ≤ rc) := by
    intro rc
    apply decide_eq_decide.mpr
    rw [List.length_nil]
    split_ifs <;> omega
  cases op with
  | receive trace p =>
    simp only [muxCall] at hr
    split at hr
    · cases hr
    · next hok =>
      cases hr
      exact notifyBytes_stamps hinv hok
  | openChannel type cookie timeout => exact openChannel_stamps hinv hr
  | closeChannel cid => exact closeChannel_stamps hr
  | writeChannel cid data =>
    cases hr
    unfold multiplexHandlerWriteChannel
    split_ifs
    · -- The datagrams of the stream itself go to channel 0, which is in no table.
      rcases hstops : h.stops E (sentPacket .channelData 0 0 0 data) with _ | reason
      swap
      · exact stamps_of_channels_eq_nil (written_channels hstops)
      have hwritten : h.written E (multiplexHandlerSendPacket E .channelData 0 0 0 data).1 =
          (h, [.send (sentPacket .channelData 0 0 0 data)]) :=
        MultiplexHandler.written_of_stops_eq_none hstops
      dsimp only
      rw [hwritten]
      intro id ch hget
      have hne : 0 ≠ id := by
        have hpos := (hinv.marked ch (mem_of_channelsGet hget)).1
        rw [channelsGet_id hget] at hpos
        omega
      have hsend := sentOn_send E .channelData 0 0 0 data id
      simp only [hne, false_and, decide_false] at hsend
      rw [hget]
      exact hsend ▸ .same E ch
    · exact sendOnChannel_stamps cid data (by decide) (fun rc => by
        apply decide_eq_decide.mpr
        split_ifs <;> omega)
  | pendChannel cid =>
    simp only [muxCall, multiplexHandlerPendChannel] at hr
    split_ifs at hr
    cases hr
    exact sendOnChannel_stamps cid [] (by decide) hempty
  | resumeChannel cid =>
    simp only [muxCall, multiplexHandlerResumeChannel] at hr
    split_ifs at hr
    cases hr
    exact sendOnChannel_stamps cid [] (by decide) hempty
  | checkpoint =>
    cases hr
    exact checkpoint_stamps hinv
  | stateChanged state =>
    cases hr
    cases state with
    | closed => exact closeChannels_stamps hinv .normal
    | failed => exact closeChannels_stamps hinv .error
    | _ => exact stamps_same E h (fun _ => rfl)
  | stop =>
    cases hr
    exact closeChannels_stamps hinv .normal

end Rounds

/-- The stamps are clock readings, and the local one is that of the last packet sent. -/
structure LoggedHandler.Ok (s : LoggedHandler) : Prop where
  inv : s.handler.Inv
  lastActivity : ∀ ch ∈ s.handler.channels, ch.lastActivity.WholeMs
  remoteTimestamp : ∀ ch ∈ s.handler.channels, ch.remoteTimestamp.WholeMs
  lastSent : ∀ ch ∈ s.handler.channels, ∀ t ∈ s.lastSent ch.id, t.WholeMs
  localTimestamp : ∀ ch ∈ s.handler.channels,
    ch.localTimestamp = (s.lastSent ch.id).getD ⟨0, 0⟩

namespace LoggedHandler

theorem ok_create (worker : Bool) : (loggedCreate worker).Ok where
  inv := MultiplexHandler.inv_create worker false
  lastActivity _ hch := by cases hch
  remoteTimestamp _ hch := by cases hch
  lastSent _ hch := by cases hch
  localTimestamp _ hch := by cases hch

theorem Ok.step {s s' : LoggedHandler} {act : MuxAct} (hok : s.Ok) (hclock : act.1.now.WholeMs)
    (h : loggedStep s act = some s') : s'.Ok := by
  obtain ⟨r, hr, rfl⟩ := Option.map_eq_some_iff.mp h
  have hinv := muxCall_inv hok.inv hr
  have hstamps := muxCall_stamps hok.inv hr
  have hstamped {ch : Channel} (hch : ch ∈ r.handler.channels) :=
    hstamps ch.id ch (channelsGet_of_mem hinv.nodup hch)
  constructor
  · exact hinv
  · intro ch hch
    rcases (hstamped hch).lastActivity with heq | ⟨c, hc, heq⟩
    · exact heq ▸ hclock
    · exact heq ▸ hok.lastActivity c (mem_of_channelsGet hc)
  · intro ch hch
    rcases (hstamped hch).remoteTimestamp with heq | ⟨c, hc, heq⟩
    · exact heq ▸ hclock
    · exact heq ▸ hok.remoteTimestamp c (mem_of_channelsGet hc)
  · intro ch hch t ht
    dsimp only at ht
    split_ifs at ht with hnew hsent
    · cases ht
    · cases ht
      exact hclock
    · cases hget : channelsGet s.handler.channels ch.id with
      | none =>
        rw [hget] at hnew
        exact absurd rfl hnew
      | some c =>
        have hid := channelsGet_id hget
        exact hok.lastSent c (mem_of_channelsGet hget) t (hid ▸ ht)
  · intro ch hch
    have hlocal := (hstamped hch).localTimestamp
    dsimp only
    cases hget : channelsGet s.handler.channels ch.id with
    | none =>
      rw [hget] at hlocal
      exact hlocal
    | some c =>
      rw [hget] at hlocal
      rw [if_neg (by simp)]
      dsimp only [Option.elim_some] at hlocal
      split_ifs at hlocal ⊢
      · exact hlocal
      · rw [hlocal, hok.localTimestamp c (mem_of_channelsGet hget), channelsGet_id hget]

theorem reachable_of_exec {worker : Bool} {acts : List MuxAct} {s : LoggedHandler}
    (h : exec loggedStep (loggedCreate worker) acts = some s) : s.handler.Reachable := by
  have hstep (s : LoggedHandler) (act : MuxAct) :
      muxStep s.handler act = (loggedStep s act).map LoggedHandler.handler := by
    unfold muxStep loggedStep
    rw [Option.map_map]
    rfl
  have hrun := exec_map hstep (loggedCreate worker) acts
  rw [h] at hrun
  exact ⟨worker, false, acts, hrun⟩

theorem exec_ok {worker : Bool} {acts : List MuxAct} {s : LoggedHandler}
    (hclock : ∀ act ∈ acts, act.1.now.WholeMs)
    (h : exec loggedStep (loggedCreate worker) acts = some s) : s.Ok :=
  exec_invariant_along (C := fun _ act => act.1.now.WholeMs)
    (fun _ _ _ hok hc hs => hok.step hc hs) (ok_create worker)
    (along_of_mem (fun act hact _ => hclock act hact) _) h

end LoggedHandler

/-- Differences of whole milliseconds are narrowed as a whole. -/
theorem intervalSince_eq {now t : TimeVal} (hnow : now.WholeMs) (ht : t.WholeMs) :
    intervalSince now t = toInt (now.ms - t.ms) := by
  have hdiff : now.usec - t.usec = 1000 * (now.usec / 1000 - t.usec / 1000) := by
    have h1 := hnow.whole
    have h2 := ht.whole
    omega
  have hms : (now.sec - t.sec) * 1000 + (now.usec / 1000 - t.usec / 1000) = now.ms - t.ms := by
    unfold TimeVal.ms
    ring
  unfold intervalSince toInt
  rw [hdiff, Int.mul_tdiv_cancel_left _ (by decide), Int.bmod_add_bmod, Int.add_bmod_bmod, hms]

/-- A narrowed difference reaches a bound that fits an `int`. -/
theorem le_toInt_iff {b : ℤ} (hb : 0 ≤ b) (d : ℤ) :
    b ≤ toInt d ↔ b ≤ d % 2 ^ 32 ∧ d % 2 ^ 32 < 2 ^ 31 := by
  have hmod := Int.emod_nonneg d (show (2 ^ 32 : ℤ) ≠ 0 by decide)
  have hlt := Int.emod_lt_of_pos d (show (0 : ℤ) < 2 ^ 32 by decide)
  unfold toInt
  rw [Int.bmod_def]
  push_cast
  split_ifs
  · omega
  · omega

/-- By exact times, the data timeout of the channel has elapsed or its peer has been silent. -/
def Expired (now : TimeVal) (ch : Channel) : Prop :=
  ch.timeout ≠ 0 ∧ ch.timeout * 1000 ≤ now.ms - ch.lastActivity.ms ∨
    130000 ≤ now.ms - ch.remoteTimestamp.ms

/-- Nothing has been sent for 30 seconds, or ever. -/
def SilentSince (now : TimeVal) (last : Option TimeVal) : Prop := ∀ t ∈ last, 30000 ≤ now.ms - t.ms

/-- The checkpoint closes the channel as soon as it has expired, and keeps an open one alive. -/
structure KeptAlive (E : MuxEnv) (s : LoggedHandler) (ch : Channel) : Prop where
  closed : (.channelClose ch.id .timeout ∈ (multiplexHandlerCheckpoint E s.handler).2 ∧
    channelsGet (multiplexHandlerCheckpoint E s.handler).1.channels ch.id = none) ↔
      Expired E.now ch
  keepAlive : ¬Expired E.now ch → ch.status = .open → SilentSince E.now (s.lastSent ch.id) →
    ch.remoteId ≠ 0 ∧
      .send (keepAlivePacket ch) ∈ (multiplexHandlerCheckpoint E s.handler).2

/-- A difference in milliseconds reaches the bound `b` in the lower 32 bits, read as an `int`. -/
def Reaches (b d : ℤ) : Prop := b ≤ d % 2 ^ 32 ∧ d % 2 ^ 32 < 2 ^ 31

/-- Where the lower 32 bits of the differences tell what the differences tell. A channel nothing has
been sent on counts from the epoch. -/
structure ClocksFit (now : TimeVal) (last : Option TimeVal) (ch : Channel) : Prop where
  expired : Expired now ch ↔
    ch.timeout ≠ 0 ∧ toInt (ch.timeout * 1000) ≤ toInt (now.ms - ch.lastActivity.ms) ∨
      Reaches 130000 (now.ms - ch.remoteTimestamp.ms)
  idle : ¬Expired now ch → ch.status = .open → SilentSince now last →
    ch.remoteId ≠ 0 ∧ Reaches 30000 (now.ms - last.elim 0 TimeVal.ms)

/-- The events of a checkpoint that concern a channel of the table. -/
theorem checkpoint_mem {E : MuxEnv} {h : MultiplexHandler} (hinv : h.Inv) {ch : Channel}
    (hch : ch ∈ h.channels) :
    ((.channelClose ch.id .timeout ∈ (multiplexHandlerCheckpoint E h).2 ∧
      channelsGet (multiplexHandlerCheckpoint E h).1.channels ch.id = none) ↔ Expires E ch) ∧
      (.send (keepAlivePacket ch) ∈ (multiplexHandlerCheckpoint E h).2 ↔
        ¬Expires E ch ∧ keepaliveInterval ≤ intervalSince E.now ch.localTimestamp) := by
  have hclose (c : Channel) (hc : .channelClose ch.id .timeout ∈ checkpointEvents E c) :
      c.id = ch.id := by
    unfold checkpointEvents at hc
    split_ifs at hc
    · exact (MuxEvent.channelClose.inj (List.mem_singleton.mp hc)).1.symm
    · simp at hc
    · simp at hc
  have hsend (c : Channel) (hc : .send (keepAlivePacket ch) ∈ checkpointEvents E c) :
      c.id = ch.id := by
    have hpacket := (send_mem_checkpointEvents.mp hc).1
    have hon := (keepAlivePacket_isOn ch ch.id).mpr rfl
    rw [hpacket] at hon
    exact (keepAlivePacket_isOn c ch.id).mp hon
  unfold multiplexHandlerCheckpoint
  rw [iterateChannels_events (roundResult_checkpoint E),
    iterateChannels_get_all (roundResult_checkpoint E) hinv, channelsGet_of_mem hinv.nodup hch,
    mem_flatMap_own hinv hch hclose, mem_flatMap_own hinv hch hsend, Option.bind_some]
  constructor
  · by_cases hexp : Expires E ch
    · unfold checkpointEvents checkpointLeft
      rw [if_pos hexp, if_pos hexp]
      simp [hexp]
    · refine iff_of_false (fun hboth => ?_) hexp
      have hmem := hboth.1
      unfold checkpointEvents at hmem
      rw [if_neg hexp] at hmem
      split_ifs at hmem
      · simp at hmem
      · simp at hmem
  · rw [send_mem_checkpointEvents]
    simp

/-- In every state a handler can get into, the checkpoint does right by a channel exactly if the
lower halves of the differences compare as the differences do. -/
theorem keptAlive_iff {worker : Bool} {acts : List MuxAct} {s : LoggedHandler}
    (hrun : exec loggedStep (loggedCreate worker) acts = some s)
    (hclock : ∀ act ∈ acts, act.1.now.WholeMs) {E : MuxEnv} (hnow : E.now.WholeMs) {ch : Channel}
    (hch : ch ∈ s.handler.channels) :
    KeptAlive E s ch ↔ ClocksFit E.now (s.lastSent ch.id) ch := by
  have hok := LoggedHandler.exec_ok hclock hrun
  obtain ⟨hclosed, hsent⟩ := checkpoint_mem (E := E) hok.inv hch
  have hexpires : Expires E ch ↔
      ch.timeout ≠ 0 ∧ toInt (ch.timeout * 1000) ≤ toInt (E.now.ms - ch.lastActivity.ms) ∨
        Reaches 130000 (E.now.ms - ch.remoteTimestamp.ms) := by
    unfold Expires keepaliveTimeoutInterval
    rw [intervalSince_eq hnow (hok.lastActivity ch hch),
      intervalSince_eq hnow (hok.remoteTimestamp ch hch),
      le_toInt_iff (show (0 : ℤ) ≤ 130000 by decide)]
    exact Iff.rfl
  have hlocal : ch.localTimestamp.WholeMs ∧
      ch.localTimestamp.ms = (s.lastSent ch.id).elim 0 TimeVal.ms := by
    rw [hok.localTimestamp ch hch]
    cases hlast : s.lastSent ch.id with
    | none => exact ⟨⟨by decide, by decide, by decide, by decide⟩, rfl⟩
    | some t => exact ⟨hok.lastSent ch hch t hlast, rfl⟩
  have hidle : keepaliveInterval ≤ intervalSince E.now ch.localTimestamp ↔
      Reaches 30000 (E.now.ms - (s.lastSent ch.id).elim 0 TimeVal.ms) := by
    unfold keepaliveInterval
    rw [intervalSince_eq hnow hlocal.1, hlocal.2, le_toInt_iff (show (0 : ℤ) ≤ 30000 by decide)]
    exact Iff.rfl
  constructor
  · intro hkept
    have hexp : Expired E.now ch ↔ Expires E ch := hkept.closed.symm.trans hclosed
    refine ⟨hexp.trans hexpires, fun hnot hopen hquiet => ?_⟩
    obtain ⟨hid, hmem⟩ := hkept.keepAlive hnot hopen hquiet
    exact ⟨hid, hidle.mp (hsent.mp hmem).2⟩
  · intro hfit
    have hexp : Expired E.now ch ↔ Expires E ch := hfit.expired.trans hexpires.symm
    refine ⟨hclosed.trans hexp.symm, fun hnot hopen hquiet => ?_⟩
    obtain ⟨hid, hreach⟩ := hfit.idle hnot hopen hquiet
    exact ⟨hid, hsent.mpr ⟨mt hexp.mpr hnot, hidle.mpr hreach⟩⟩

/-- Differences that fit an `int` are no trouble, once something has been sent on the channel. -/
theorem clocksFit_of_small {now t : TimeVal} {ch : Channel} (hid : ch.status = .open → ch.remoteId ≠ 0)
    (htimeout : -2 ^ 31 ≤ ch.timeout * 1000 ∧ ch.timeout * 1000 < 2 ^ 31)
    (hlast : -2 ^ 31 ≤ now.ms - ch.lastActivity.ms ∧ now.ms - ch.lastActivity.ms < 2 ^ 31)
    (hremote : -2 ^ 31 ≤ now.ms - ch.remoteTimestamp.ms ∧ now.ms - ch.remoteTimestamp.ms < 2 ^ 31)
    (hsent : now.ms - t.ms < 2 ^ 31) : ClocksFit now (some t) ch := by
  have hreach {b d : ℤ} (hb : 0 ≤ b) (hlow : -2 ^ 31 ≤ d) (hhigh : d < 2 ^ 31) :
      Reaches b d ↔ b ≤ d := by
    have hnarrow := le_toInt_iff hb d
    rw [toInt_of_small hlow hhigh] at hnarrow
    exact hnarrow.symm
  constructor
  · unfold Expired
    rw [toInt_of_small htimeout.1 htimeout.2, toInt_of_small hlast.1 hlast.2,
      hreach (by decide) hremote.1 hremote.2]
  · intro _ hopen hidle
    have hquiet := hidle t rfl
    refine ⟨hid hopen, (hreach (by decide) ?_ hsent).mpr hquiet⟩
    omega

/-- Neighbours that accept everything, at a time in seconds. -/
def calmEnv (sec : ℤ) : MuxEnv :=
  ⟨.modWidth, ⟨sec, 0⟩, fun _ => 0, fun _ => none, fun _ _ => true, fun _ _ => true⟩

/-- The peer opens a channel, as its number 7, and nothing is ever sent on it. -/
def receiveOnly (sec : ℤ) : List MuxAct :=
  [(calmEnv sec, .receive false (sentPacket .channelOpen 0 7 0 []).bytes)]

def receivedChannel (sec : ℤ) : Channel :=
  ⟨1, 7, .user, .open, ⟨0, 0⟩, ⟨sec, 0⟩, ⟨sec, 0⟩, 0⟩

theorem exec_receiveOnly (sec : ℤ) :
    ∃ s, exec loggedStep (loggedCreate false) (receiveOnly sec) = some s ∧
      s.handler.channels = [receivedChannel sec] ∧ s.lastSent 1 = none :=
  ⟨_, rfl, rfl, rfl⟩

theorem wholeMs_calm {sec : ℤ} (h : 0 ≤ sec) : (calmEnv sec).now.WholeMs :=
  ⟨h, le_rfl, show (0 : ℤ) < 1000000 by decide, rfl⟩

theorem wholeMs_receiveOnly {sec : ℤ} (h : 0 ≤ sec) :
    ∀ act ∈ receiveOnly sec, act.1.now.WholeMs := by
  intro act hact
  rw [List.mem_singleton.mp hact]
  exact wholeMs_calm h

/-- On one day of October 2023 the channel is kept alive, -/
theorem keptAlive_receiveOnly :
    ∃ s, exec loggedStep (loggedCreate false) (receiveOnly 1696999960) = some s ∧
      KeptAlive (calmEnv 1697000000) s (receivedChannel 1696999960) := by
  obtain ⟨s, hrun, hchannels, hlast⟩ := exec_receiveOnly 1696999960
  refine ⟨s, hrun, (keptAlive_iff hrun (wholeMs_receiveOnly (by decide)) (wholeMs_calm (by decide))
    (hchannels ▸ List.mem_cons_self)).mpr ?_⟩
  rw [show s.lastSent (receivedChannel 1696999960).id = none from hlast]
  constructor
  · unfold Expired Reaches
    decide
  · intro _ _ _
    refine ⟨by decide, ?_⟩
    unfold Reaches
    decide

/-- and on one of November it is not: the time since the epoch is negative in 32 bits. -/
theorem not_keptAlive_receiveOnly :
    (∀ act ∈ receiveOnly 1700000000, act.1.now.WholeMs) ∧ (calmEnv 1700000040).now.WholeMs ∧
      ∃ s, exec loggedStep (loggedCreate false) (receiveOnly 1700000000) = some s ∧
      receivedChannel 1700000000 ∈ s.handler.channels ∧
      ¬KeptAlive (calmEnv 1700000040) s (receivedChannel 1700000000) := by
  obtain ⟨s, hrun, hchannels, hlast⟩ := exec_receiveOnly 1700000000
  refine ⟨wholeMs_receiveOnly (by decide), wholeMs_calm (by decide), s, hrun,
    hchannels ▸ List.mem_cons_self, fun hkept => ?_⟩
  have hidle : SilentSince (calmEnv 1700000040).now (s.lastSent (receivedChannel 1700000000).id) := by
    rw [show s.lastSent (receivedChannel 1700000000).id = none from hlast]
    exact fun _ ht => nomatch ht
  have hmem := (hkept.keepAlive (by unfold Expired; decide) rfl hidle).2
  unfold multiplexHandlerCheckpoint at hmem
  rw [iterateChannels_events (roundResult_checkpoint _), hchannels] at hmem
  exact absurd hmem (by decide)

end Carrier.Session
