import Carrier.Session.MuxRun

/-! What `multiplex_handler_notify_packet` does with requests to open a channel, and with bytes that
no honest peer sends. -/
namespace Carrier.Session
open Carrier.Lib Carrier.Common

/-- The packets a call has tried to send. -/
def sentIn (events : List MuxEvent) : List ProtocolBuffer :=
  events.filterMap (fun
    | .send pb => some pb
    | _ => none)

/-- A well-formed `Open` packet of a type the stream supports, with what its callback needs. -/
structure OpenPacket (h : MultiplexHandler) (p : Bytes) (pb : ProtocolBuffer) : Prop where
  received : receivedPacket p = some pb
  type : pb.type = PacketType.channelOpen.code
  supported : ∃ type, h.openType pb = some type ∧ channelOpenFault type pb.cookie = none
  source : pb.remoteChannelId ≠ 0

/-- The packet is answered once, to its sender: with the id of an open channel if the callback
accepted and the answer could be sent; with 0 and everything as before if the callback refused or
no id was free. -/
def AnswersOpen (E : MuxEnv) (trace : Bool) (h : MultiplexHandler) (p : Bytes)
    (pb : ProtocolBuffer) : Prop :=
  ∃ h' events answer, multiplexHandlerNotifyBytes E trace h p = .ok (h', events) ∧
    sentIn events = [answer] ∧ answer.type = PacketType.channelOpenConfirmation.code ∧
    answer.localChannelId = pb.remoteChannelId ∧
    (acceptsOpen E h p = true → 0 ≤ E.next answer →
      ∃ ch, channelsGet h'.channels answer.remoteChannelId = some ch ∧ ch.status = .open ∧
        ch.remoteId = pb.remoteChannelId) ∧
    (acceptsOpen E h p = false →
      answer.remoteChannelId = 0 ∧ h'.channels = h.channels ∧
        ∀ id, h'.channelIds.marked id ↔ h.channelIds.marked id)

/-- What has to hold of an id for the answer to stand. If the callback accepts, the write that takes
the answer does not stop the stream. If it refuses, `bitset_isset` reports the bit of the id that is
given back, and the write does not stop the stream while other channels are open. -/
def AnswerStands (E : MuxEnv) (h : MultiplexHandler) (p : Bytes) (pb : ProtocolBuffer) (id : ℕ) :
    Prop :=
  if acceptsOpen E h p then
    let answer := sentPacket .channelOpenConfirmation 0 id pb.remoteChannelId []
    h.stops E answer = none ∨ E.next answer < 0
  else
    bitsetIsset E.shift (idsHeapAlloc h.channelIds).1.bitsetIds ((id - 1 : ℕ) : ℤ) ≠ 0 ∧
      (h.stops E (sentPacket .channelOpenConfirmation 0 0 pb.remoteChannelId []) = none ∨
        h.channels = [])

section Open

variable {E : MuxEnv} {trace : Bool} {h : MultiplexHandler} {p : Bytes} {pb : ProtocolBuffer}

theorem notifyBytes_open (hopen : OpenPacket h p pb) :
    multiplexHandlerNotifyBytes E trace h p = .ok (notifyChannelOpen E h pb) := by
  obtain ⟨hreceived, htype, ⟨type, hsupported, hfault⟩, hsource⟩ := hopen
  have hlen : ¬p.length < protocolHeadLen := by
    intro hshort
    rw [receivedPacket, if_pos hshort] at hreceived
    cases hreceived
  have hcallback : (incomingChannel E h pb).bind
      (fun ch => channelOpenFault ch.type pb.cookie) = none := by
    unfold incomingChannel
    rw [hsupported]
    dsimp only
    split_ifs
    · rfl
    · exact hfault
  unfold multiplexHandlerNotifyBytes
  rw [if_neg hlen, hreceived]
  dsimp only
  rw [if_neg (fun hdata => hsource hdata.1), htype,
    if_neg (fun hname => absurd hname.2 (by decide)), if_pos rfl, hcallback]

theorem enter_remove_channels (hinv : h.Inv) {ch : Channel} (hch : h.Fresh ch) :
    ((h.enter ch).remove E ch.id).channels = h.channels := by
  have hsome : (channelsGet (h.enter ch).channels ch.id).isSome := by
    rw [channelsGet_enter, Option.isSome_some]
  unfold MultiplexHandler.remove
  rw [if_pos hsome]
  dsimp only
  rw [hinv.enter_channels hch, channelsRemove, List.filter_append]
  have hkeep : ∀ c ∈ h.channels, decide (c.id ≠ ch.id) = true := by
    intro c hc
    have hnone := hinv.fresh_get hch
    rw [decide_eq_true_eq]
    intro heq
    rw [← heq, channelsGet_of_mem hinv.nodup hc] at hnone
    cases hnone
  rw [List.filter_eq_self.mpr hkeep]
  simp

theorem enter_remove_marked (hinv : h.Inv) {ch : Channel} (hch : h.Fresh ch) :
    (∀ id, ((h.enter ch).remove E ch.id).channelIds.marked id ↔ h.channelIds.marked id) ↔
      bitsetIsset E.shift (idsHeapAlloc h.channelIds).1.bitsetIds ((ch.id - 1 : ℕ) : ℤ) ≠ 0 := by
  obtain ⟨-, -, hfree, hmarked⟩ := hinv.fresh_id hch
  have hsome : (channelsGet (h.enter ch).channels ch.id).isSome := by
    rw [channelsGet_enter, Option.isSome_some]
  have hheld : (h.enter ch).channelIds.marked ch.id := (hmarked ch.id).mpr (.inl rfl)
  unfold MultiplexHandler.remove
  rw [if_pos hsome]
  dsimp only
  constructor
  · intro hall hzero
    exact hfree ((hall ch.id).mp ((idsHeapFree_marked _ hheld _).mpr ⟨hheld, fun _ => hzero⟩))
  · intro hbit id
    rw [idsHeapFree_marked _ hheld]
    constructor
    · rintro ⟨hid, hno⟩
      rcases (hmarked id).mp hid with heq | hid
      · exact absurd (hno heq) hbit
      · exact hid
    · intro hid
      exact ⟨(hmarked id).mpr (.inr hid), fun heq => absurd (heq ▸ hid) hfree⟩

theorem closeChannels_singleton {ch : Channel} (hchannels : h.channels = [ch])
    (reason : CloseReason) : (multiplexHandlerCloseChannels E h reason).1 = h.remove E ch.id := by
  unfold multiplexHandlerCloseChannels
  rw [hchannels]
  rfl

/-- The table and the ids after a channel has been refused. -/
theorem refused_iff (hinv : h.Inv) {ch : Channel} (hfresh : h.Fresh ch) (pb : ProtocolBuffer) :
    ((((h.enter ch).written E pb).1.remove E ch.id).channels = h.channels ∧
        ∀ id, (((h.enter ch).written E pb).1.remove E ch.id).channelIds.marked id ↔
          h.channelIds.marked id) ↔
      bitsetIsset E.shift (idsHeapAlloc h.channelIds).1.bitsetIds ((ch.id - 1 : ℕ) : ℤ) ≠ 0 ∧
        (h.stops E pb = none ∨ h.channels = []) := by
  rw [← enter_remove_marked hinv hfresh]
  cases hstops : h.stops E pb with
  | none =>
    rw [MultiplexHandler.written_of_stops_eq_none (h := h.enter ch) hstops]
    dsimp only
    rw [enter_remove_channels hinv hfresh]
    simp
  | some reason =>
    have hnil := written_channels (h := h.enter ch) hstops
    rw [remove_of_channels_eq_nil hnil, hnil]
    by_cases hempty : h.channels = []
    · have honly : (h.enter ch).channels = [ch] := by
        rw [hinv.enter_channels hfresh, hempty, List.nil_append]
      have hclosed : ((h.enter ch).written E pb).1 = (h.enter ch).remove E ch.id := by
        rw [MultiplexHandler.written, show (h.enter ch).stops E pb = some reason from hstops]
        exact closeChannels_singleton honly reason
      rw [hclosed]
      simp [hempty]
    · simp [hempty, Ne.symm hempty]

/-- The table after a channel has been accepted and its answer sent. -/
theorem accepted_iff (ch : Channel) (answer : ProtocolBuffer) :
    (∃ c, channelsGet (((h.enter ch).written E answer).1.set
        (updateRemoteTimestamp E { ch with status := .open })).channels ch.id = some c ∧
        c.status = .open ∧ c.remoteId = ch.remoteId) ↔ h.stops E answer = none := by
  cases hstops : h.stops E answer with
  | none =>
    rw [MultiplexHandler.written_of_stops_eq_none (h := h.enter ch) hstops]
    refine iff_of_true ⟨updateRemoteTimestamp E { ch with status := .open }, ?_, rfl, rfl⟩ rfl
    dsimp only [MultiplexHandler.set]
    rw [channelsGet_set, channelsGet_enter, Option.map_some]
    exact if_pos rfl
  | some reason =>
    have hnil := written_channels (h := h.enter ch) hstops
    rw [set_of_channels_eq_nil hnil, hnil]
    apply iff_of_false
    · rintro ⟨c, hc, -⟩
      cases hc
    · nofun

/-- Whatever the write does, nothing else is sent. -/
theorem sentIn_written (h : MultiplexHandler) (pb : ProtocolBuffer) :
    sentIn (h.written E pb).2 = [pb] := by
  unfold MultiplexHandler.written
  cases h.stops E pb with
  | none => rfl
  | some reason =>
    dsimp only
    rw [closeChannels_events]
    simp [sentIn, List.filterMap_map]

theorem sentIn_afterAnswer (ch : Channel) (w : MultiplexHandler × List MuxEvent) :
    sentIn (afterAnswer E ch pb w).2 = sentIn w.2 := by
  unfold afterAnswer sentIn
  dsimp only
  split_ifs
  · simp
  · simp
  · rfl

/-- What remains to be shown of a packet that is handled and answered once. -/
theorem answersOpen_of_sent {r : MultiplexHandler × List MuxEvent} {answer : ProtocolBuffer}
    (hr : multiplexHandlerNotifyBytes E trace h p = .ok r) (hsent : sentIn r.2 = [answer]) :
    AnswersOpen E trace h p pb ↔ answer.type = PacketType.channelOpenConfirmation.code ∧
      answer.localChannelId = pb.remoteChannelId ∧
      (acceptsOpen E h p = true → 0 ≤ E.next answer →
        ∃ ch, channelsGet r.1.channels answer.remoteChannelId = some ch ∧ ch.status = .open ∧
          ch.remoteId = pb.remoteChannelId) ∧
      (acceptsOpen E h p = false →
        answer.remoteChannelId = 0 ∧ r.1.channels = h.channels ∧
          ∀ id, r.1.channelIds.marked id ↔ h.channelIds.marked id) := by
  constructor
  · rintro ⟨h', events, answer', hres, hanswers, hrest⟩
    cases hr.symm.trans hres
    cases hsent.symm.trans hanswers
    exact hrest
  · intro hrest
    exact ⟨r.1, r.2, answer, hr, hsent, hrest⟩

/-- A request to open a channel is answered as it should be exactly when an id is free and the
answer stands. -/
theorem answersOpen_iff (hreach : h.Reachable) (hopen : OpenPacket h p pb) (E : MuxEnv)
    (trace : Bool) : AnswersOpen E trace h p pb ↔
      ∃ id : ℕ, (idsHeapAlloc h.channelIds).2 = id ∧ AnswerStands E h p pb id := by
  have hinv := hreach.inv
  have hremote := (receivedPacket_eq_some hopen.received).1.remoteChannelId
  have hok : multiplexHandlerNotifyBytes E trace h p = .ok (notifyChannelOpen E h pb) :=
    notifyBytes_open hopen
  obtain ⟨type, htype, -⟩ := hopen.supported
  cases hch : incomingChannel E h pb with
  | none =>
    have hfull : (idsHeapAlloc h.channelIds).2 < 0 := by
      unfold incomingChannel at hch
      rw [htype] at hch
      dsimp only at hch
      split_ifs at hch with hneg
      exact hneg
    rw [notifyChannelOpen_full hinv htype hch] at hok
    rw [answersOpen_of_sent hok (sentIn_written h _)]
    apply iff_of_false
    · rintro ⟨-, hdest, -⟩
      exact hopen.source hdest.symm
    · rintro ⟨id, hid, -⟩
      omega
  | some ch =>
    obtain ⟨hfresh, -, hrid⟩ := incomingChannel_eq_some hinv hremote hch
    have hacc : acceptsOpen E h p = E.channelOpen ch pb.cookie := by
      rw [acceptsOpen, hopen.received, Option.any_some, hch, Option.any_some]
    have hid (id : ℕ) : (idsHeapAlloc h.channelIds).2 = id ↔ id = ch.id := by
      rw [hfresh.id, Nat.cast_inj, eq_comm]
    rw [notifyChannelOpen_incoming hch] at hok
    rw [answersOpen_of_sent hok ((sentIn_afterAnswer ch _).trans (sentIn_written _ _))]
    simp only [hid, exists_eq_left]
    unfold AnswerStands
    rw [hacc, ← hrid]
    cases hacc : E.channelOpen ch pb.cookie with
    | true =>
      have hanswer : openAnswer E ch pb = sentPacket .channelOpenConfirmation 0 ch.id ch.remoteId [] := by
        rw [openAnswer, hacc, if_pos rfl]
      have hopened := accepted_iff (E := E) (h := h) ch (openAnswer E ch pb)
      rw [afterAnswer, hacc, if_pos rfl, if_pos rfl]
      dsimp only
      rw [← hanswer]
      have htype : (openAnswer E ch pb).type = PacketType.channelOpenConfirmation.code := hanswer ▸ rfl
      have hdest : (openAnswer E ch pb).localChannelId = ch.remoteId := hanswer ▸ rfl
      have hsource : (openAnswer E ch pb).remoteChannelId = ch.id := hanswer ▸ rfl
      rw [hsource]
      split_ifs with hneg
      · exact iff_of_true ⟨htype, hdest, fun _ hnext => absurd hneg hnext.not_gt, False.elim⟩ (.inr hneg)
      · rw [or_iff_left hneg, ← hopened]
        constructor
        · rintro ⟨-, -, hgood, -⟩
          exact hgood rfl (not_lt.mp hneg)
        · exact fun hthere => ⟨htype, hdest, fun _ _ => hthere, False.elim⟩
    | false =>
      have hanswer : openAnswer E ch pb = sentPacket .channelOpenConfirmation 0 0 ch.remoteId [] := by
        rw [openAnswer, hacc, if_neg Bool.false_ne_true]
      have hrefused := refused_iff (E := E) hinv hfresh (openAnswer E ch pb)
      rw [afterAnswer, hacc, if_neg Bool.false_ne_true, if_neg Bool.false_ne_true]
      dsimp only
      rw [← hanswer, ← hrefused]
      have htype : (openAnswer E ch pb).type = PacketType.channelOpenConfirmation.code := hanswer ▸ rfl
      have hdest : (openAnswer E ch pb).localChannelId = ch.remoteId := hanswer ▸ rfl
      have hsource : (openAnswer E ch pb).remoteChannelId = 0 := hanswer ▸ rfl
      constructor
      · rintro ⟨-, -, -, hback⟩
        exact (hback rfl).2
      · exact fun hbefore => ⟨htype, hdest, fun haccepted => absurd haccepted Bool.false_ne_true,
          fun _ => ⟨hsource, hbefore⟩⟩

/-- A local call takes the next free id. -/
theorem openChannel_linkEnv (P : IntShift) (now : TimeVal)
    (hpos : ¬(idsHeapAlloc h.channelIds).2 < 0) :
    ∃ h', muxStep h (linkEnv P now, .openChannel .user none 0) = some h' ∧
      h'.channelIds = (idsHeapAlloc h.channelIds).1 := by
  unfold muxStep muxCall multiplexHandlerOpenChannel
  dsimp only
  rw [if_neg (by simp), if_neg hpos, sendPacket_linkEnv]
  simp only [written_linkEnv]
  rw [if_neg (by simp)]
  exact ⟨_, rfl, rfl⟩

/-- The ids go out in order. -/
theorem exec_opens (P : IntShift) (now : TimeVal) {n : ℕ} (hn : n ≤ maxChannelId) :
    ∃ h, exec muxStep (multiplexHandlerCreate false false)
        (List.replicate n (linkEnv P now, .openChannel .user none 0)) = some h ∧
      h.channelIds.latestIndex = (n : ℤ) - 1 ∧ ∀ id, h.channelIds.marked id ↔ 1 ≤ id ∧ id ≤ n := by
  induction n with
  | zero =>
    refine ⟨_, rfl, rfl, fun id => ?_⟩
    have hno : ¬(idsHeapInit maxChannelId).marked id := idsHeapInit_marked maxChannelId id
    exact iff_of_false hno (by omega)
  | succ n ih =>
    obtain ⟨h, hrun, hlatest, hmarked⟩ := ih (by omega)
    have hinv : h.Inv := MultiplexHandler.Reachable.inv ⟨false, false, _, hrun⟩
    have hmax := hinv.heap.2
    have hnext : (h.channelIds.latestIndex + 1).toNat % h.channelIds.maxIndex = n := by
      rw [hlatest, hmax, show ((n : ℤ) - 1 + 1).toNat = n by omega]
      exact Nat.mod_eq_of_lt hn
    have hclear : h.channelIds.bitsetIds.isSet n = false := by
      have hno := (hmarked (n + 1)).not.mpr (by omega)
      simpa [IdsHeap.marked] using hno
    have halloc := idsHeapAlloc_next hinv.heap.1 hnext hclear
    have hpos : ¬(idsHeapAlloc h.channelIds).2 < 0 := by
      rw [halloc]
      dsimp only
      omega
    obtain ⟨h', hstep, hids⟩ := openChannel_linkEnv P now hpos
    refine ⟨h', ?_, ?_, fun id => ?_⟩
    · rw [List.replicate_succ', exec_append_eq_some]
      exact ⟨h, hrun, exec_cons_eq_some.mpr ⟨h', hstep, rfl⟩⟩
    · rw [hids, halloc]
      push_cast
      omega
    · have hlt : n < h.channelIds.bitsetIds.size := by
        rw [hinv.heap.1.size_eq, hmax]
        exact hn
      rw [hids, halloc]
      simp only [IdsHeap.marked, bitsetSet_isSet _ hlt, Bool.or_eq_true, decide_eq_true_eq]
      have hold := hmarked id
      unfold IdsHeap.marked at hold
      constructor
      · rintro ⟨h1, heq | hset⟩
        · omega
        · have := hold.mp ⟨h1, hset⟩
          omega
      · rintro ⟨h1, hle⟩
        by_cases heq : id - 1 = n
        · exact ⟨h1, .inl heq⟩
        · exact ⟨h1, .inr (hold.mpr ⟨h1, by omega⟩).2⟩

end Open

/-- A request to open a user channel, from channel 7. -/
def openFromSeven : Bytes := [1, 0, 0, 0, 0, 7, 0, 0]

theorem openPacket_openFromSeven (h : MultiplexHandler) :
    OpenPacket h openFromSeven ⟨1, 0, 0, 7, 0, []⟩ :=
  ⟨by decide, rfl, ⟨.user, rfl, rfl⟩, by decide⟩

/-- A fresh handler whose application accepts the channel. -/
theorem answersOpen_fresh :
    AnswersOpen (linkEnv .modWidth ⟨0, 0⟩) true (multiplexHandlerCreate false false) openFromSeven
      ⟨1, 0, 0, 7, 0, []⟩ := by
  have hreach : (multiplexHandlerCreate false false).Reachable := ⟨false, false, [], rfl⟩
  apply (answersOpen_iff hreach (openPacket_openFromSeven _) _ _).mpr
  have hid : (idsHeapAlloc (multiplexHandlerCreate false false).channelIds).2 = (1 : ℕ) := by
    decide +kernel
  have hacc : acceptsOpen (linkEnv .modWidth ⟨0, 0⟩) (multiplexHandlerCreate false false)
      openFromSeven = true := by decide +kernel
  refine ⟨1, hid, ?_⟩
  rw [AnswerStands, if_pos hacc]
  exact .inl rfl

/-- With all 2048 ids in use the refusal goes to channel 0, and channel 7 waits for ever. -/
theorem answersOpen_fails_full :
    ∃ h : MultiplexHandler, h.Reachable ∧ OpenPacket h openFromSeven ⟨1, 0, 0, 7, 0, []⟩ ∧
      (∀ id, 1 ≤ id → id ≤ maxChannelId → h.channelIds.marked id) ∧
      multiplexHandlerNotifyBytes (linkEnv .modWidth ⟨0, 0⟩) true h openFromSeven =
        .ok (h, [.send ⟨2, 0, 0, 0, 0, []⟩]) ∧
      ¬AnswersOpen (linkEnv .modWidth ⟨0, 0⟩) true h openFromSeven ⟨1, 0, 0, 7, 0, []⟩ := by
  obtain ⟨h, hrun, -, hmarked⟩ := exec_opens .modWidth ⟨0, 0⟩ (le_refl maxChannelId)
  have hreach : h.Reachable := ⟨false, false, _, hrun⟩
  have hopen := openPacket_openFromSeven h
  have hall : ∀ id, 1 ≤ id → id ≤ maxChannelId → h.channelIds.marked id :=
    fun id h1 hle => (hmarked id).mpr ⟨h1, hle⟩
  have halloc : (idsHeapAlloc h.channelIds).2 < 0 := by
    rcases idsHeapAlloc_marked hreach.inv.heap.1 with ⟨c, h1, hle, -, hfree, -⟩ | ⟨hnone, -⟩
    · rw [hreach.inv.heap.2] at hle
      exact absurd (hall c h1 hle) hfree
    · rw [hnone]
      exact (by decide : (-1 : ℤ) < 0)
  have hch : incomingChannel (linkEnv .modWidth ⟨0, 0⟩) h ⟨1, 0, 0, 7, 0, []⟩ = none := by
    unfold incomingChannel
    exact if_pos halloc
  have hres : multiplexHandlerNotifyBytes (linkEnv .modWidth ⟨0, 0⟩) true h openFromSeven =
      .ok (h, [.send ⟨2, 0, 0, 0, 0, []⟩]) := by
    rw [notifyBytes_open hopen, notifyChannelOpen_full hreach.inv rfl hch, written_linkEnv]
    rfl
  refine ⟨h, hreach, hopen, hall, hres, ?_⟩
  rintro ⟨h', events, answer, hok, hsent, -, hdest, -⟩
  rw [hres] at hok
  cases hok
  cases hsent
  cases hdest

/-- What bytes must be like to be handled without a fault: a whole header; and if the length in it
is right and they are not data of the stream itself, a type that has a name when names are logged,
a channel other than 0 unless they ask for one, and a NUL in the cookie for a user channel that
gets an id. -/
def Admissible (trace : Bool) (h : MultiplexHandler) (p : Bytes) : Prop :=
  protocolHeadLen ≤ p.length ∧ ∀ pb, receivedPacket p = some pb →
    pb.remoteChannelId = 0 ∧ pb.localChannelId = 0 ∧ pb.type = PacketType.channelData.code ∨
      (trace = true → pb.type < 8) ∧
        (pb.type ≠ PacketType.channelOpen.code → pb.localChannelId ≠ 0) ∧
        (pb.type = PacketType.channelOpen.code → pb.option = ChannelType.user.code →
          pb.payloadLen ≠ 0 → (∃ id, 1 ≤ id ∧ id ≤ maxChannelId ∧ ¬h.channelIds.marked id) →
          0 ∈ pb.payload)

section Faults

variable {E : MuxEnv} {h : MultiplexHandler} {pb : ProtocolBuffer}

/-- An id is found exactly when one is free. -/
theorem alloc_neg_iff (hinv : h.Inv) :
    ¬(idsHeapAlloc h.channelIds).2 < 0 ↔
      ∃ id, 1 ≤ id ∧ id ≤ maxChannelId ∧ ¬h.channelIds.marked id := by
  rcases idsHeapAlloc_marked hinv.heap.1 with ⟨c, h1, hle, hc, hfree, -⟩ | ⟨hnone, hall⟩
  · rw [hinv.heap.2] at hle
    exact iff_of_true (by omega) ⟨c, h1, hle, hfree⟩
  · rw [hinv.heap.2] at hall
    apply iff_of_false
    · rw [hnone]
      exact not_not.mpr (by decide : (-1 : ℤ) < 0)
    · rintro ⟨id, h1, hle, hfree⟩
      exact hfree (hall id h1 hle)

theorem ChannelType.code_of_ofCode {n : ℕ} {type : ChannelType} (h : ChannelType.ofCode n = some type) :
    n = type.code := by
  unfold ChannelType.ofCode at h
  split at h
  all_goals cases h
  all_goals rfl

theorem option_of_openType {type : ChannelType} (htype : h.openType pb = some type) :
    pb.option = type.code := by
  apply ChannelType.code_of_ofCode
  unfold MultiplexHandler.openType at htype
  split at htype
  · next hcode =>
    split_ifs at htype
    rw [hcode, htype]
  · next hcode =>
    split_ifs at htype
    rw [hcode, htype]
  · next hcode => rw [hcode, htype]
  · cases htype

/-- The only callback of an unreliable stream that reads its cookie is the application's. -/
theorem incomingChannel_fault_iff (hinv : h.Inv) (hunreliable : h.reliable = false) (E : MuxEnv)
    (pb : ProtocolBuffer) :
    (incomingChannel E h pb).bind (fun ch => channelOpenFault ch.type pb.cookie) = none ↔
      (pb.option = ChannelType.user.code → pb.payloadLen ≠ 0 →
        (∃ id, 1 ≤ id ∧ id ≤ maxChannelId ∧ ¬h.channelIds.marked id) → 0 ∈ pb.payload) := by
  rw [← alloc_neg_iff hinv]
  unfold incomingChannel
  cases htype : h.openType pb with
  | none =>
    have hoption : pb.option ≠ ChannelType.user.code := by
      intro heq
      rw [MultiplexHandler.openType, heq] at htype
      cases htype
    exact iff_of_true rfl (fun heq => absurd heq hoption)
  | some type =>
    dsimp only
    split_ifs with hneg
    · exact iff_of_true rfl (fun _ _ hpos => absurd hneg hpos)
    · have hoption := option_of_openType htype
      simp only [Option.bind_some]
      cases type with
      | user =>
        unfold ProtocolBuffer.cookie
        by_cases hlen : pb.payloadLen = 0
        · rw [if_pos hlen]
          exact iff_of_true rfl (fun _ hne => absurd hlen hne)
        · rw [if_neg hlen]
          dsimp only [channelOpenFault]
          constructor
          · intro hnone _ _ _
            split_ifs at hnone with hnul
            exact hnul
          · intro hnul
            rw [if_pos (hnul hoption hlen hneg)]
      | udpPortForwarding =>
        apply iff_of_true rfl
        intro huser
        rw [hoption] at huser
        cases huser
      | tcpPortForwarding =>
        rw [openType_tcp htype rfl] at hunreliable
        cases hunreliable

/-- Without TCP channels no callback relies on the length of its data. -/
theorem channelDataFault_of_unreliable (hinv : h.Inv) (hunreliable : h.reliable = false)
    {id : ℕ} {ch : Channel} (hget : channelsGet h.channels id = some ch) (data : Bytes) :
    channelDataFault ch.type data = none := by
  have htcp : ch.type ≠ .tcpPortForwarding := by
    intro heq
    have hrel := hinv.tcp ch (mem_of_channelsGet hget) heq
    rw [hunreliable] at hrel
    cases hrel
  unfold channelDataFault
  rw [if_neg (fun hbad => htcp hbad.1)]

/-- On an unreliable stream bytes are handled without a fault exactly when they are admissible. -/
theorem notifyBytes_ok_iff (hreach : h.Reachable) (hunreliable : h.reliable = false) (E : MuxEnv)
    (trace : Bool) (p : Bytes) :
    (∃ r, multiplexHandlerNotifyBytes E trace h p = .ok r) ↔ Admissible trace h p := by
  have hinv := hreach.inv
  unfold multiplexHandlerNotifyBytes Admissible
  by_cases hshort : p.length < protocolHeadLen
  · rw [if_pos hshort]
    apply iff_of_false
    · rintro ⟨r, hr⟩
      cases hr
    · rintro ⟨hlen, -⟩
      omega
  rw [if_neg hshort]
  have hlen : protocolHeadLen ≤ p.length := not_lt.mp hshort
  cases hpb : receivedPacket p with
  | none => exact iff_of_true ⟨_, rfl⟩ ⟨hlen, fun pb hsome => by cases hsome⟩
  | some pb =>
    simp only [hlen, true_and, Option.some.injEq, forall_eq']
    by_cases hstream : pb.remoteChannelId = 0 ∧ pb.localChannelId = 0 ∧
        pb.type = PacketType.channelData.code
    · rw [if_pos hstream]
      exact iff_of_true ⟨_, rfl⟩ (.inl hstream)
    rw [if_neg hstream, or_iff_right hstream]
    by_cases hname : trace = true ∧ 8 ≤ pb.type
    · rw [if_pos hname]
      apply iff_of_false
      · rintro ⟨r, hr⟩
        cases hr
      · rintro ⟨htype, -⟩
        have := htype hname.1
        omega
    rw [if_neg hname]
    have htype : trace = true → pb.type < 8 := fun ht => not_le.mp (fun hle => hname ⟨ht, hle⟩)
    by_cases hopen : pb.type = PacketType.channelOpen.code
    · rw [if_pos hopen]
      have hcallback := incomingChannel_fault_iff hinv hunreliable E pb
      cases hfault : (incomingChannel E h pb).bind
          (fun ch => channelOpenFault ch.type pb.cookie) with
      | none =>
        exact iff_of_true ⟨_, rfl⟩
          ⟨htype, fun hne => absurd hopen hne, fun _ => hcallback.mp hfault⟩
      | some fault =>
        apply iff_of_false
        · rintro ⟨r, hr⟩
          cases hr
        · rintro ⟨-, -, hcookie⟩
          rw [hcallback.mpr (hcookie hopen)] at hfault
          cases hfault
    · rw [if_neg hopen]
      by_cases hzero : pb.localChannelId = 0
      · rw [if_pos hzero]
        apply iff_of_false
        · rintro ⟨r, hr⟩
          cases hr
        · rintro ⟨-, hid, -⟩
          exact hid hopen hzero
      · rw [if_neg hzero]
        apply iff_of_true
        · cases hget : channelsGet h.channels pb.localChannelId with
          | none => exact ⟨_, rfl⟩
          | some ch =>
            have hdata := channelDataFault_of_unreliable hinv hunreliable hget pb.payload
            dsimp only
            rw [hdata, ite_self]
            exact ⟨_, rfl⟩
        · exact ⟨htype, fun _ => hzero, fun heq => absurd heq hopen⟩

end Faults

/-- A keep-alive for a channel that does not exist. -/
theorem notifyBytes_ok_keepAlive :
    ∃ r, multiplexHandlerNotifyBytes (linkEnv .modWidth ⟨0, 0⟩) true
      (multiplexHandlerCreate false false) [4, 0, 0, 9, 0, 3, 0, 0] = .ok r := by
  have hreach : (multiplexHandlerCreate false false).Reachable := ⟨false, false, [], rfl⟩
  apply (notifyBytes_ok_iff hreach rfl _ _ _).mpr
  refine ⟨by decide, fun pb hpb => ?_⟩
  have heq : receivedPacket [4, 0, 0, 9, 0, 3, 0, 0] = some ⟨4, 0, 9, 3, 0, []⟩ := by decide
  rw [heq] at hpb
  cases hpb
  exact .inr ⟨fun _ => by decide, fun _ => by decide, fun hopen => by cases hopen⟩

/-- The keep-alive that a peer sends for a channel of its own whose confirmation is still on its
way: its destination is 0. -/
theorem notifyBytes_fault_keepAlive :
    (multiplexHandlerCreate false false).Reachable ∧
      multiplexHandlerNotifyBytes (linkEnv .modWidth ⟨0, 0⟩) false
        (multiplexHandlerCreate false false) [4, 0, 0, 0, 0, 3, 0, 0] = .error .nullKey :=
  ⟨⟨false, false, [], rfl⟩, rfl⟩

end Carrier.Session
