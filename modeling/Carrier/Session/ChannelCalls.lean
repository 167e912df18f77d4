import Carrier.Session.ChannelPairing

/-! What one call of a multiplex handler on a reliable link does to its channels. -/
namespace Carrier.Session
open Carrier.Lib Carrier.Common

/-- The neighbours of a handler on a reliable link: every write succeeds, and the callbacks accept
what they are told. -/
def linkEnv (P : IntShift) (now : TimeVal) : MuxEnv where
  shift := P
  now := now
  next pb := protocolHeadLen + pb.payload.length
  stop _ := none
  channelOpen _ _ := true
  channelData _ _ := true

namespace MultiplexHandler

def view (h : MultiplexHandler) (id : ℕ) : Option (ChannelStatus × ℕ) :=
  (channelsGet h.channels id).map (fun ch => (ch.status, ch.remoteId))

/-- The ids are those of a heap of `MAX_CHANNEL_ID`. -/
def HeapOk (h : MultiplexHandler) : Prop :=
  h.channelIds.WF ∧ h.channelIds.maxIndex = maxChannelId

variable {h : MultiplexHandler}

theorem view_put (h : MultiplexHandler) (ch : Channel) :
    (h.put ch).view = Function.update h.view ch.id (some (ch.status, ch.remoteId)) := by
  funext id
  rw [view, put, channelsGet_put]
  by_cases hid : id = ch.id
  · rw [if_pos hid, hid, Function.update_self, Option.map_some]
  · rw [if_neg hid, Function.update_of_ne hid, view]

theorem view_set {ch old : Channel} (hold : channelsGet h.channels ch.id = some old) :
    (h.set ch).view = Function.update h.view ch.id (some (ch.status, ch.remoteId)) := by
  funext id
  rw [view, set, channelsGet_set]
  by_cases hid : id = ch.id
  · rw [if_pos hid, hid, hold, Function.update_self, Option.map_some, Option.map_some]
  · rw [if_neg hid, Function.update_of_ne hid, view]

theorem view_put_set (h : MultiplexHandler) {ch ch' : Channel} (hid : ch'.id = ch.id) :
    ((h.put ch).set ch').view = Function.update h.view ch.id (some (ch'.status, ch'.remoteId)) := by
  have hget : channelsGet (h.put ch).channels ch'.id = some ch := by
    rw [put, channelsGet_put, if_pos hid]
  rw [view_set hget, view_put, hid, Function.update_idem]

theorem view_remove (E : MuxEnv) (h : MultiplexHandler) (id : ℕ) :
    (h.remove E id).view = Function.update h.view id none := by
  funext id'
  unfold remove
  split_ifs with hsome
  · rw [view, channelsGet_remove]
    by_cases hid : id' = id
    · rw [if_pos hid, hid, Function.update_self, Option.map_none]
    · rw [if_neg hid, Function.update_of_ne hid, view]
  · have hnone : h.view id = none := by
      rw [view, Option.not_isSome_iff_eq_none.mp hsome, Option.map_none]
    rw [← hnone, Function.update_eq_self]

theorem view_of_get {id : ℕ} {ch : Channel} (hget : channelsGet h.channels id = some ch) :
    h.view id = some (ch.status, ch.remoteId) := by
  rw [view, hget, Option.map_some]

theorem view_set_same {id : ℕ} {ch ch' : Channel} (hget : channelsGet h.channels id = some ch)
    (hid : ch'.id = id) (hst : ch'.status = ch.status) (hr : ch'.remoteId = ch.remoteId) :
    (h.set ch').view = h.view := by
  rw [view_set (by rw [hid]; exact hget), hst, hr, hid, ← view_of_get hget, Function.update_eq_self]

theorem HeapOk.remove (hok : h.HeapOk) (E : MuxEnv) (id : ℕ) : (h.remove E id).HeapOk := by
  unfold MultiplexHandler.remove
  split_ifs
  · exact ⟨(idsHeapFree_wf _ hok.1 _).1, (idsHeapFree_wf _ hok.1 _).2.trans hok.2⟩
  · exact hok

theorem HeapOk.alloc (hok : h.HeapOk) :
    HeapOk { h with channelIds := (idsHeapAlloc h.channelIds).1 } :=
  ⟨(idsHeapAlloc_wf hok.1).1, (idsHeapAlloc_wf hok.1).2.trans hok.2⟩

/-- An allocation fails or gives an id that fits its 16 bits. -/
theorem HeapOk.alloc_cases (hok : h.HeapOk) :
    (∃ c : ℕ, c ≠ 0 ∧ (idsHeapAlloc h.channelIds).2 = c ∧ c % 2 ^ 16 = c) ∨
      (idsHeapAlloc h.channelIds).2 = -1 := by
  rcases idsHeapAlloc_spec hok.1 with ⟨p, hp, -, ha⟩ | ⟨-, ha⟩
  · refine .inl ⟨p + 1, by omega, by rw [ha]; push_cast; rfl, Nat.mod_eq_of_lt ?_⟩
    rw [hok.2, maxChannelId] at hp
    omega
  · exact .inr (by rw [ha])

/-- The options of the stream, which no call changes. -/
def SameStream (h h' : MultiplexHandler) : Prop :=
  h'.worker = h.worker ∧ h'.reliable = h.reliable

theorem SameStream.openType {h' : MultiplexHandler} (hs : SameStream h h') (pb : ProtocolBuffer) :
    h'.openType pb = h.openType pb := by
  rw [MultiplexHandler.openType, MultiplexHandler.openType, hs.1, hs.2]

theorem sameStream_remove (E : MuxEnv) (h : MultiplexHandler) (id : ℕ) :
    SameStream h (h.remove E id) := by
  unfold MultiplexHandler.remove
  split_ifs <;> exact ⟨rfl, rfl⟩

end MultiplexHandler

@[simp] theorem PacketType.ofCode_code (t : PacketType) : PacketType.ofCode t.code = some t := by
  cases t <;> rfl

/-- The packets of a call that have been sent, under the incarnations that sent them. -/
def sentPackets (inc : ℕ → ℕ) (events : List MuxEvent) : List InFlight :=
  events.filterMap (fun
    | .send pb => some ⟨pb, if pb.remoteChannelId = 0 then none else some (inc pb.remoteChannelId)⟩
    | _ => none)

/-- The channel a call has opened for the other side. -/
def openedChannel (events : List MuxEvent) : Option ℕ :=
  events.findSome? (fun
    | .channelOpen id _ => some id
    | _ => none)

section Calls

variable {P : IntShift} {now : TimeVal} {h h' : MultiplexHandler}

theorem written_linkEnv (P : IntShift) (now : TimeVal) (h : MultiplexHandler)
    (pb : ProtocolBuffer) : h.written (linkEnv P now) pb = (h, [.send pb]) :=
  MultiplexHandler.written_of_stops_eq_none (ite_self none)

theorem sendPacket_linkEnv (P : IntShift) (now : TimeVal) (t : PacketType) (o l r : ℕ) (p : Bytes) :
    multiplexHandlerSendPacket (linkEnv P now) t o l r p =
      (⟨t.code, o, r, l, p.length % 2 ^ 16, p⟩, (p.length : ℤ)) := by
  unfold multiplexHandlerSendPacket linkEnv
  dsimp only
  rw [if_neg (by omega)]

/-- An open either finds no id, or puts a channel under the next one and sends `Open`. -/
theorem openChannel_cases (hok : h.HeapOk) {type : ChannelType} {cookie : Option Bytes}
    {timeout : ℤ} {r : MuxCall}
    (hr : multiplexHandlerOpenChannel (linkEnv P now) h type cookie timeout = some r) :
    r.handler.HeapOk ∧ h.SameStream r.handler ∧
      ((idsHeapAlloc h.channelIds).2 = -1 ∧ r.result < 0 ∧ r.events = [] ∧
          r.handler.view = h.view ∨
        ∃ (c : ℕ) (payload : Bytes), c ≠ 0 ∧ (idsHeapAlloc h.channelIds).2 = c ∧ r.result = c ∧
          r.handler.view = Function.update h.view c (some (.opening, 0)) ∧
          r.events = [.send ⟨PacketType.channelOpen.code, type.code, 0, c,
            payload.length % 2 ^ 16, payload⟩]) := by
  unfold multiplexHandlerOpenChannel at hr
  split_ifs at hr
  rcases hok.alloc_cases with ⟨c, hc, halloc, hmod⟩ | halloc
  · dsimp only at hr
    simp only [halloc, sendPacket_linkEnv, written_linkEnv, Int.toNat_natCast, hmod] at hr
    rw [if_neg (by omega), if_neg (by omega)] at hr
    cases hr
    exact ⟨hok.alloc, ⟨rfl, rfl⟩, .inr ⟨c, cookie.elim [] (· ++ [0]), hc, halloc, rfl,
      MultiplexHandler.view_put _ _, rfl⟩⟩
  · dsimp only at hr
    simp only [halloc] at hr
    rw [if_pos (by decide)] at hr
    cases hr
    exact ⟨hok.alloc, ⟨rfl, rfl⟩, .inl ⟨halloc, intError_neg _, rfl, rfl⟩⟩

/-- A close does nothing, or removes the channel after a `Close` to its remote id, if known. -/
theorem closeChannel_cases (hok : h.HeapOk) {cid : ℕ} {r : MuxCall}
    (hr : multiplexHandlerCloseChannel (linkEnv P now) h cid = some r) :
    r.handler.HeapOk ∧ h.SameStream r.handler ∧
      (r.handler = h ∧ r.events = [] ∨
        ∃ st rid, h.view cid = some (st, rid) ∧ cid ≠ 0 ∧
          r.handler.view = Function.update h.view cid none ∧
          r.events = (if rid = 0 then [] else
            [.send ⟨PacketType.channelClose.code, 0, rid, cid, 0, []⟩]) ++
              [.channelClose cid .normal]) := by
  unfold multiplexHandlerCloseChannel at hr
  split_ifs at hr with hcid
  split at hr
  · cases hr
    exact ⟨hok, ⟨rfl, rfl⟩, .inl ⟨rfl, rfl⟩⟩
  · next ch hget =>
    have hid := channelsGet_id hget
    have hview := MultiplexHandler.view_of_get hget
    have hheap := hok.remove (linkEnv P now) cid
    have hsame := MultiplexHandler.sameStream_remove (linkEnv P now) h cid
    have hgone := MultiplexHandler.view_remove (linkEnv P now) h cid
    simp only [sendPacket_linkEnv, written_linkEnv, hid] at hr
    split_ifs at hr with hrid
    · cases hr
      exact ⟨hheap, hsame, .inr ⟨ch.status, ch.remoteId, hview, hcid, hgone, by rw [if_pos hrid]⟩⟩
    · cases hr
      exact ⟨hheap, hsame, .inr ⟨ch.status, ch.remoteId, hview, hcid, hgone, by
        rw [if_neg hrid]
        rfl⟩⟩

/-- A packet on a channel is not sent, or goes from a confirmed channel to its remote id. -/
theorem sendOnChannel_cases (hok : h.HeapOk) {cid : ℕ} {t : PacketType} {payload : Bytes}
    {keeps : ℤ → Bool} {r : MuxCall}
    (hr : sendOnChannel (linkEnv P now) h cid t payload keeps = r) :
    r.handler.HeapOk ∧ h.SameStream r.handler ∧ r.handler.view = h.view ∧
      (r.events = [] ∧ r.result < 0 ∨
        ∃ st rid, h.view cid = some (st, rid) ∧ rid ≠ 0 ∧ 0 ≤ r.result ∧
          r.events = [.send ⟨t.code, 0, rid, cid, payload.length % 2 ^ 16, payload⟩]) := by
  unfold sendOnChannel at hr
  split at hr
  · subst hr
    exact ⟨hok, ⟨rfl, rfl⟩, rfl, .inl ⟨rfl, intError_neg _⟩⟩
  · next ch hget =>
    have hid := channelsGet_id hget
    simp only [sendPacket_linkEnv, written_linkEnv] at hr
    split_ifs at hr with hstatus hrid hkeep
    · subst hr
      exact ⟨hok, ⟨rfl, rfl⟩, rfl, .inl ⟨rfl, intError_neg _⟩⟩
    · subst hr
      exact ⟨hok, ⟨rfl, rfl⟩, rfl, .inl ⟨rfl, intError_neg _⟩⟩
    all_goals subst hr
    · exact ⟨hok, ⟨rfl, rfl⟩, MultiplexHandler.view_set_same hget hid rfl rfl,
        .inr ⟨ch.status, ch.remoteId, MultiplexHandler.view_of_get hget, hrid,
          Int.natCast_nonneg _, by rw [hid]⟩⟩
    · exact ⟨hok, ⟨rfl, rfl⟩, rfl,
        .inr ⟨ch.status, ch.remoteId, MultiplexHandler.view_of_get hget, hrid,
          Int.natCast_nonneg _, by rw [hid]⟩⟩

/-- An `Open` packet is ignored, refused for want of an id, or opens a channel and confirms it. -/
theorem notifyChannelOpen_cases (hok : h.HeapOk) {pb : ProtocolBuffer} {events : List MuxEvent}
    (hr : notifyChannelOpen (linkEnv P now) h pb = (h', events)) :
    h'.HeapOk ∧ h.SameStream h' ∧
      (h.openType pb = none ∧ h' = h ∧ events = [] ∨
        (h.openType pb).isSome ∧ (idsHeapAlloc h.channelIds).2 = -1 ∧ h'.view = h.view ∧
          events = [.send ⟨PacketType.channelOpenConfirmation.code, 0, 0, 0, 0, []⟩] ∨
        (h.openType pb).isSome ∧ ∃ (c : ℕ) (cookie : Option Bytes), c ≠ 0 ∧
          (idsHeapAlloc h.channelIds).2 = c ∧
          h'.view = Function.update h.view c (some (.open, pb.remoteChannelId)) ∧
          events = [.channelOpen c cookie, .send ⟨PacketType.channelOpenConfirmation.code, 0,
            pb.remoteChannelId, c, 0, []⟩, .channelOpened c]) := by
  unfold notifyChannelOpen at hr
  split at hr
  · next htype =>
    cases hr
    exact ⟨hok, ⟨rfl, rfl⟩, .inl ⟨htype, rfl, rfl⟩⟩
  · next type htype =>
    have hsome : (h.openType pb).isSome := by rw [htype, Option.isSome_some]
    rcases hok.alloc_cases with ⟨c, hc, halloc, hmod⟩ | halloc
    · dsimp only at hr
      simp only [halloc, sendPacket_linkEnv, written_linkEnv, Int.toNat_natCast, hmod] at hr
      rw [if_neg (by omega)] at hr
      cases hr
      exact ⟨hok.alloc, ⟨rfl, rfl⟩, .inr (.inr ⟨hsome, c, _, hc, halloc,
        MultiplexHandler.view_put_set _ rfl, rfl⟩)⟩
    · dsimp only at hr
      simp only [halloc, sendPacket_linkEnv, written_linkEnv] at hr
      rw [if_pos (by decide)] at hr
      cases hr
      exact ⟨hok.alloc, ⟨rfl, rfl⟩, .inr (.inl ⟨hsome, halloc, rfl, rfl⟩)⟩

/-- The packets that change the channel they are for. -/
def controlTypes : List PacketType :=
  [.channelOpenConfirmation, .channelPending, .channelResume, .channelClose]

/-- What handling a packet that opens no channel comes to: only the channel it is for changes, and
only if the packet acts on its status. -/
structure Handled (h h' : MultiplexHandler) (pb : ProtocolBuffer) (events : List MuxEvent) :
    Prop where
  heap : h'.HeapOk
  stream : h.SameStream h'
  view : h'.view = Function.update h.view pb.localChannelId
    (pb.after pb.localChannelId (h.view pb.localChannelId))
  sent : ∀ inc, sentPackets inc events = []
  opened : openedChannel events = none
  data : ∀ id data, .channelData id data ∈ events →
    id = pb.localChannelId ∧ data = pb.payload ∧ pb.kind = some .channelData ∧
      ∃ st r, h.view id = some (st, r) ∧ pb.Acts id st
  change : ∀ t ∈ controlTypes, pb.type = t.code →
    ∀ id, channelsGet h'.channels id ≠ channelsGet h.channels id →
      ∃ st r, h.view id = some (st, r) ∧ pb.Acts id st

/-- A packet that does not act on its channel, and of which nobody is told. -/
theorem handled_quiet (hok : h.HeapOk) {pb : ProtocolBuffer} {events : List MuxEvent}
    (hsent : ∀ inc, sentPackets inc events = []) (hopened : openedChannel events = none)
    (hdata : ∀ id data, .channelData id data ∉ events)
    (hacts : ∀ st r, h.view pb.localChannelId = some (st, r) → ¬pb.Acts pb.localChannelId st) :
    Handled h h pb events where
  heap := hok
  stream := ⟨rfl, rfl⟩
  view := by
    have hafter : pb.after pb.localChannelId (h.view pb.localChannelId) =
        h.view pb.localChannelId := by
      cases hv : h.view pb.localChannelId with
      | none => rfl
      | some v => exact ProtocolBuffer.after_of_not_acts (hacts v.1 v.2 hv) v.2
    rw [hafter, Function.update_eq_self]
  sent := hsent
  opened := hopened
  data id data hmem := absurd hmem (hdata id data)
  change _ _ _ _ hne := absurd rfl hne

/-- The channel of the packet is closed. -/
theorem handled_remove (hok : h.HeapOk) (E : MuxEnv) {pb : ProtocolBuffer} {t : PacketType}
    {ch : Channel} {reason : CloseReason} (hget : channelsGet h.channels pb.localChannelId = some ch)
    (ht : pb.kind = some t) (hacts : pb.Acts pb.localChannelId ch.status)
    (hafter : afterPacket ch.status ch.remoteId t pb.remoteChannelId = none) :
    Handled h (h.remove E ch.id) pb [.channelClose ch.id reason] where
  heap := hok.remove E _
  stream := MultiplexHandler.sameStream_remove E h _
  view := by
    rw [MultiplexHandler.view_remove, MultiplexHandler.view_of_get hget,
      ProtocolBuffer.after_of_acts hacts ht, hafter, channelsGet_id hget]
  sent _ := rfl
  opened := rfl
  data _ _ hmem := by simp at hmem
  change _ _ _ id hne := by
    refine ⟨ch.status, ch.remoteId, ?_⟩
    by_cases hid : id = pb.localChannelId
    · rw [hid]
      exact ⟨MultiplexHandler.view_of_get hget, hacts⟩
    · refine absurd ?_ hne
      unfold MultiplexHandler.remove
      split_ifs
      · rw [channelsGet_remove, channelsGet_id hget, if_neg hid]
      · rfl

/-- The channel of the packet takes the status and the remote id that the packet gives it. -/
theorem handled_set (hok : h.HeapOk) {pb : ProtocolBuffer} {t : PacketType} {ch ch' : Channel}
    {events : List MuxEvent} (hget : channelsGet h.channels pb.localChannelId = some ch)
    (ht : pb.kind = some t) (hid : ch'.id = ch.id) (hacts : pb.Acts pb.localChannelId ch.status)
    (hafter : afterPacket ch.status ch.remoteId t pb.remoteChannelId =
      some (ch'.status, ch'.remoteId))
    (hsent : ∀ inc, sentPackets inc events = []) (hopened : openedChannel events = none)
    (hdata : ∀ id data, .channelData id data ∈ events →
      id = ch.id ∧ data = pb.payload ∧ t = .channelData) :
    Handled h (h.set ch') pb events where
  heap := hok
  stream := ⟨rfl, rfl⟩
  view := by
    have hid' : ch'.id = pb.localChannelId := hid.trans (channelsGet_id hget)
    rw [MultiplexHandler.view_set (by rw [hid']; exact hget), MultiplexHandler.view_of_get hget,
      ProtocolBuffer.after_of_acts hacts ht, hafter, hid']
  sent := hsent
  opened := hopened
  data id data hmem := by
    obtain ⟨rfl, hpay, rfl⟩ := hdata id data hmem
    rw [channelsGet_id hget]
    exact ⟨rfl, hpay, ht, ch.status, ch.remoteId, MultiplexHandler.view_of_get hget, hacts⟩
  change _ _ _ id hne := by
    refine ⟨ch.status, ch.remoteId, ?_⟩
    by_cases hloc : id = pb.localChannelId
    · rw [hloc]
      exact ⟨MultiplexHandler.view_of_get hget, hacts⟩
    · refine absurd ?_ hne
      rw [MultiplexHandler.set, channelsGet_set, hid, channelsGet_id hget, if_neg hloc]

theorem handled_notifyChannel (hok : h.HeapOk) {pb : ProtocolBuffer} {ch : Channel}
    {events : List MuxEvent} (hget : channelsGet h.channels pb.localChannelId = some ch)
    (hne : pb.localChannelId ≠ 0) (hlen : pb.payload.length = pb.payloadLen)
    (hr : notifyChannel (linkEnv P now) h ch pb = (h', events)) : Handled h h' pb events := by
  have hkind : pb.kind = PacketType.ofCode pb.type := if_pos hlen
  have hview := MultiplexHandler.view_of_get hget
  have hid := channelsGet_id hget
  -- A packet acts on the channel as soon as its type does.
  have acts (t : PacketType) (ht : PacketType.ofCode pb.type = some t)
      (hreacts : ch.status.reacts t = true) : pb.Acts pb.localChannelId ch.status :=
    ⟨rfl, hne, t, hkind.trans ht, hreacts⟩
  have quiet (hno : ∀ t, PacketType.ofCode pb.type = some t → ch.status.reacts t = false) :
      Handled h h pb [] := by
    refine handled_quiet hok (fun _ => rfl) rfl (fun _ _ => List.not_mem_nil) ?_
    rintro st r hst ⟨-, -, t, ht, hreacts⟩
    rw [hview] at hst
    cases hst
    rw [hno t (hkind.symm.trans ht)] at hreacts
    cases hreacts
  unfold notifyChannel at hr
  cases ht : PacketType.ofCode pb.type with
  | none =>
    rw [ht] at hr
    cases hr
    exact quiet (fun t hcode => by rw [ht] at hcode; cases hcode)
  | some t =>
    have hk : pb.kind = some t := hkind.trans ht
    have quiet' (hno : ch.status.reacts t = false) : Handled h h pb [] :=
      quiet (fun t' hcode => by
        obtain rfl := Option.some.inj (ht.symm.trans hcode)
        exact hno)
    rw [ht] at hr
    cases t with
    | channelOpen =>
      cases hr
      exact quiet' rfl
    | channelOpenConfirmation =>
      dsimp only at hr
      split_ifs at hr with hst hsrc
      · cases hr
        exact quiet' (by simpa [ChannelStatus.reacts] using hst)
      · cases hr
        rw [not_not] at hst
        exact handled_set hok hget hk rfl (acts _ ht (by simpa [ChannelStatus.reacts] using hst))
          (if_neg hsrc) (fun _ => rfl) rfl (by simp)
      · cases hr
        rw [not_not] at hst hsrc
        exact handled_remove hok _ hget hk (acts _ ht (by simpa [ChannelStatus.reacts] using hst))
          (if_pos hsrc)
    | channelData =>
      simp only [linkEnv, if_true] at hr
      split_ifs at hr with hst
      · cases hr
        refine quiet' ?_
        simpa [ChannelStatus.reacts, and_comm] using hst
      · cases hr
        have hreacts : ch.status.reacts .channelData = true := by
          simp only [ChannelStatus.reacts, decide_eq_true_eq]
          tauto
        exact handled_set hok hget hk rfl (acts _ ht hreacts) rfl (fun _ => rfl) rfl
          (by simp)
    | channelKeepAlive =>
      cases hr
      -- Only the time stamp changes, which is no control packet's doing.
      have hq := quiet' rfl
      refine ⟨hok, ⟨rfl, rfl⟩, ?_, fun _ => rfl, rfl, fun _ _ hmem => absurd hmem
        List.not_mem_nil, fun t' hctl htype => ?_⟩
      · have hsame : (h.set { ch with remoteTimestamp := (linkEnv P now).now }).view = h.view :=
          MultiplexHandler.view_set_same hget hid rfl rfl
        rw [hsame]
        exact hq.view
      · rw [htype, PacketType.ofCode_code] at ht
        cases ht
        exact absurd hctl (by decide)
    | channelPending =>
      dsimp only at hr
      split_ifs at hr with hst
      · cases hr
        exact quiet' (by simpa [ChannelStatus.reacts] using hst)
      · cases hr
        rw [not_not] at hst
        exact handled_set hok hget hk rfl (acts _ ht (by simpa [ChannelStatus.reacts] using hst))
          rfl (fun _ => rfl) rfl (by simp)
    | channelResume =>
      dsimp only at hr
      split_ifs at hr with hst
      · cases hr
        exact quiet' (by simpa [ChannelStatus.reacts] using hst)
      · cases hr
        rw [not_not] at hst
        exact handled_set hok hget hk rfl (acts _ ht (by simpa [ChannelStatus.reacts] using hst))
          rfl (fun _ => rfl) rfl (by simp)
    | channelClose =>
      cases hr
      exact handled_remove hok _ hget hk (acts _ ht rfl) rfl

/-- A packet opens a channel, is refused for want of an id, or is handled by its channel. -/
theorem notifyPacket_cases (hok : h.HeapOk) {pb : ProtocolBuffer} {events : List MuxEvent}
    (hr : multiplexHandlerNotifyPacket (linkEnv P now) h pb = some (h', events)) :
    h'.HeapOk ∧ h.SameStream h' ∧
      (Handled h h' pb events ∨
        pb.kind = some .channelOpen ∧ h'.view = h.view ∧
          events = [.send ⟨PacketType.channelOpenConfirmation.code, 0, 0, 0, 0, []⟩] ∨
        pb.kind = some .channelOpen ∧ (h.openType pb).isSome ∧
          ∃ (c : ℕ) (cookie : Option Bytes), c ≠ 0 ∧ (idsHeapAlloc h.channelIds).2 = c ∧
            h'.view = Function.update h.view c (some (.open, pb.remoteChannelId)) ∧
            events = [.channelOpen c cookie, .send ⟨PacketType.channelOpenConfirmation.code, 0,
              pb.remoteChannelId, c, 0, []⟩, .channelOpened c]) := by
  have lift {Q : Prop} (hh : Handled h h' pb events) :
      h'.HeapOk ∧ h.SameStream h' ∧ (Handled h h' pb events ∨ Q) := ⟨hh.heap, hh.stream, .inl hh⟩
  unfold multiplexHandlerNotifyPacket at hr
  split_ifs at hr with hlen hstream htype hopen hzero
  · cases hr
    refine lift (handled_quiet hok (fun _ => rfl) rfl (fun _ _ => List.not_mem_nil) ?_)
    rintro st r - ⟨-, -, t, ht, -⟩
    rw [ProtocolBuffer.kind, if_neg hlen] at ht
    cases ht
  · cases hr
    refine lift (handled_quiet hok (fun _ => rfl) rfl (by simp) ?_)
    rintro st r - ⟨-, hne, -⟩
    exact hne hstream.2.1
  · rw [not_not] at hlen
    have hkind : pb.kind = some .channelOpen := by
      rw [ProtocolBuffer.kind, if_pos hlen, hopen, PacketType.ofCode_code]
    obtain ⟨hheap, hsame, hcases⟩ := notifyChannelOpen_cases hok (Option.some.inj hr)
    refine ⟨hheap, hsame, ?_⟩
    rcases hcases with ⟨-, rfl, rfl⟩ | ⟨hsome, -, hview, hev⟩ | ⟨hsome, hcase⟩
    · refine .inl (handled_quiet hok (fun _ => rfl) rfl (fun _ _ => List.not_mem_nil) ?_)
      rintro st r - hacts
      have := hacts.reacts hkind
      cases this
    · exact .inr (.inl ⟨hkind, hview, hev⟩)
    · exact .inr (.inr ⟨hkind, hsome, hcase⟩)
  · rw [not_not] at hlen
    split at hr
    · next hget =>
      cases hr
      refine lift (handled_quiet hok (fun _ => rfl) rfl (fun _ _ => List.not_mem_nil) ?_)
      intro st r hst
      rw [MultiplexHandler.view, hget] at hst
      cases hst
    · next ch hget =>
      exact lift (handled_notifyChannel hok hget hzero hlen (Option.some.inj hr))

end Calls

end Carrier.Session
