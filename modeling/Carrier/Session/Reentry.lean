import Carrier.Session.MuxRun

/-! Callbacks that close channels while `session/multiplex_handler.c` is in the middle of a call: its
functions once more, with `IOEX_stream_close_channel` called from the callbacks. -/
namespace Carrier.Session
open Carrier.Lib Carrier.Common

/-- The callbacks that may close channels. -/
inductive Callback where
  | opened (id : ℕ)
  | data (id : ℕ) (payload : Bytes)
  | pending (id : ℕ)
  | resume (id : ℕ)
  | close (id : ℕ) (reason : CloseReason)

def Callback.event : Callback → MuxEvent
  | .opened id => .channelOpened id
  | .data id payload => .channelData id payload
  | .pending id => .channelPending id
  | .resume id => .channelResume id
  | .close id reason => .channelClose id reason

/-- A handler in the middle of a call. `modCount` is that of the table of channels, `incarnation`
numbers the channels that had an id, and `reports` are the calls of `channel_close` so far. The
channels of `reporting` are in such a call and leave the table after it; in one that the checkpoint
makes, `scanning` is set. -/
structure Reentry where
  handler : MultiplexHandler
  modCount : ℕ
  incarnation : ℕ → ℕ
  log : List MuxEvent
  reports : List (ℕ × ℕ)
  reporting : List ℕ
  scanning : Bool

/-- What an application does in a callback: the channels it closes, one after the other, and what it
then returns from `channel_data`. Both may depend on all that has happened. -/
structure Application where
  closes : Reentry → Callback → List ℕ
  result : Reentry → Callback → Bool

/-- Why a call does not return: it takes more than the rounds it is given, or it was watched and
something happened that should not. -/
inductive Stop where
  | fuel
  | careless
  deriving DecidableEq

namespace Reentry

def init (worker reliable : Bool) : Reentry :=
  ⟨multiplexHandlerCreate worker reliable, 0, fun _ => 0, [], [], [], false⟩

def ids (s : Reentry) : List ℕ := s.handler.channels.map Channel.id

def emit (s : Reentry) (events : List MuxEvent) : Reentry := { s with log := s.log ++ events }

/-- `channels_put` of a new channel. -/
def enter (s : Reentry) (ch : Channel) : Reentry :=
  { s with
    handler := s.handler.enter ch
    modCount := s.modCount + 1
    incarnation := Function.update s.incarnation ch.id (s.incarnation ch.id + 1) }

def set (s : Reentry) (ch : Channel) : Reentry := { s with handler := s.handler.set ch }

/-- `channels_remove`. The functions below hold a reference to the channel, so the id goes back when
they return; no callback opens a channel in between. -/
def remove (E : MuxEnv) (s : Reentry) (id : ℕ) : Reentry :=
  if (channelsGet s.handler.channels id).isSome then
    { s with handler := s.handler.remove E id, modCount := s.modCount + 1 }
  else s

/-- `update_remote_timestamp` of a channel that may have left the table in a callback. -/
def touch (E : MuxEnv) (s : Reentry) (id : ℕ) : Reentry :=
  match channelsGet s.handler.channels id with
  | none => s
  | some ch => s.set (updateRemoteTimestamp E ch)

/-- In a callback the application closes a channel whose own close is being reported, or any channel
while the checkpoint reports one. -/
def careless (s : Reentry) (cid : ℕ) : Bool :=
  (channelsGet s.handler.channels cid).isSome ∧ (cid ∈ s.reporting ∨ s.scanning)

end Reentry

section Calls

variable (app : Application) (watch : Bool) (E : MuxEnv)

def closeAll (close : Reentry → ℕ → Except Stop Reentry) : List ℕ → Reentry → Except Stop Reentry
  | [], s => .ok s
  | cid :: cids, s =>
    if watch && s.careless cid then .error .careless
    else (close s cid).bind (closeAll close cids)

def notify (close : Reentry → ℕ → Except Stop Reentry) (s : Reentry) (cb : Callback) :
    Except Stop Reentry :=
  let s := s.emit [cb.event]
  closeAll watch close (app.closes s cb) s

/-- `notify_channel_close` -/
def notifyClose (close : Reentry → ℕ → Except Stop Reentry) (s : Reentry) (id : ℕ)
    (reason : CloseReason) : Except Stop Reentry :=
  notify app watch close { s with reports := s.reports ++ [(id, s.incarnation id)] }
    (.close id reason)

/-- `notify_channel_close` and then `channels_remove`. -/
def notifyThenRemove (close : Reentry → ℕ → Except Stop Reentry) (s : Reentry) (id : ℕ)
    (reason : CloseReason) : Except Stop Reentry :=
  (notifyClose app watch close { s with reporting := id :: s.reporting } id reason).map
    (fun t => { t.remove E id with reporting := s.reporting })

/-- The loop of `multiplex_handler_close_channels`, which removes a channel before its report. -/
def closeChannelsLoop (close : Reentry → ℕ → Except Stop Reentry) (reason : CloseReason) :
    ℕ → Reentry → List ℕ → ℕ → Except Stop Reentry
  | 0, _, _, _ => .error .fuel
  | _ + 1, s, [], _ => .ok s
  | rounds + 1, s, id :: rest, expected =>
    if expected ≠ s.modCount then closeChannelsLoop close reason rounds s s.ids s.modCount
    else
      let s := s.remove E id
      (notifyClose app watch close s id reason).bind (fun t =>
        closeChannelsLoop close reason rounds t rest s.modCount)

/-- The next handler's write; `rounds` are those of the loop that closes the channels. -/
def written (close : Reentry → ℕ → Except Stop Reentry) (rounds : ℕ) (s : Reentry)
    (pb : ProtocolBuffer) : Except Stop Reentry :=
  let s := s.emit [.send pb]
  match s.handler.stops E pb with
  | none => .ok s
  | some reason => closeChannelsLoop app watch E close reason rounds s s.ids s.modCount

/-- A write whose caller then reports a channel as closed, whether or not the write has done so. -/
def writtenThenReported (close : Reentry → ℕ → Except Stop Reentry) (rounds : ℕ) (s : Reentry)
    (pb : ProtocolBuffer) : Except Stop Reentry :=
  if watch && (s.handler.stops E pb).isSome then .error .careless
  else written app watch E close rounds s pb

/-- `multiplex_handler_close_channel`, up to `fuel` calls deep. -/
def closeChannel : ℕ → Reentry → ℕ → Except Stop Reentry
  | 0, _, _ => .error .fuel
  | fuel + 1, s, cid =>
    match channelsGet s.handler.channels cid with
    | none => .ok s
    | some ch =>
      let told := if ch.remoteId = 0 then .ok s else
        writtenThenReported app watch E (closeChannel fuel) fuel s (closeNotice ch)
      told.bind (fun s => notifyThenRemove app watch E (closeChannel fuel) s ch.id .normal)

/-- The `Open` packet. -/
def reNotifyChannelOpen (fuel : ℕ) (s : Reentry) (pb : ProtocolBuffer) : Except Stop Reentry :=
  let close := closeChannel app watch E fuel
  match incomingChannel E s.handler pb with
  | none =>
    if (s.handler.openType pb).isSome then
      written app watch E close fuel s
        (multiplexHandlerSendPacket E .channelOpenConfirmation 0 0 0 []).1
    else .ok s
  | some ch =>
    let ok := E.channelOpen ch pb.cookie
    let (confirmation, rc) := multiplexHandlerSendPacket E .channelOpenConfirmation 0
      (if ok then ch.id else 0) ch.remoteId []
    let s := (s.enter ch).emit [.channelOpen ch.id pb.cookie]
    let sent := if ok && rc < 0 then writtenThenReported app watch E close fuel s confirmation
      else written app watch E close fuel s confirmation
    sent.bind (fun s =>
      if !ok then .ok (s.remove E ch.id)
      else if rc < 0 then notifyThenRemove app watch E close s ch.id .error
      else
        (notify app watch close (s.set { ch with status := .open }) (.opened ch.id)).map
          (fun t => t.touch E ch.id))

/-- The other packets, for the channel they name. -/
def reNotifyChannel (fuel : ℕ) (s : Reentry) (ch : Channel) (pb : ProtocolBuffer) :
    Except Stop Reentry :=
  let close := closeChannel app watch E fuel
  match PacketType.ofCode pb.type with
  | some .channelOpenConfirmation =>
    if ch.status ≠ .opening then .ok s
    else if pb.remoteChannelId ≠ 0 then
      let s := s.set { ch with status := .open, remoteId := pb.remoteChannelId }
      (notify app watch close s (.opened ch.id)).map (fun t => t.touch E ch.id)
    else notifyThenRemove app watch E close s ch.id .error
  | some .channelData =>
    if ch.status ≠ .pending ∧ ch.status ≠ .open then .ok s
    else
      (notify app watch close s (.data ch.id pb.payload)).bind (fun t =>
        if app.result t (.data ch.id pb.payload) then .ok (t.touch E ch.id)
        else if watch && (channelsGet t.handler.channels ch.id).isNone then .error .careless
        else notifyThenRemove app watch E close t ch.id .error)
  | some .channelKeepAlive => .ok (s.set { ch with remoteTimestamp := E.now })
  | some .channelPending =>
    if ch.status ≠ .open then .ok s
    else
      (notify app watch close (s.set { ch with status := .pending }) (.pending ch.id)).map
        (fun t => t.touch E ch.id)
  | some .channelResume =>
    if ch.status ≠ .pending then .ok s
    else
      (notify app watch close (s.set { ch with status := .open }) (.resume ch.id)).map
        (fun t => t.touch E ch.id)
  | some .channelClose => notifyThenRemove app watch E close s ch.id .normal
  | some .channelOpen => .ok s
  | none => .ok s

/-- `multiplex_handler_notify_packet` on bytes that make none of its assertions fail. -/
def reNotifyBytes (fuel : ℕ) (s : Reentry) (p : Bytes) : Except Stop Reentry :=
  match receivedPacket p with
  | none => .ok s
  | some pb =>
    if pb.remoteChannelId = 0 ∧ pb.localChannelId = 0 ∧ pb.type = PacketType.channelData.code then
      .ok (s.emit [.onData pb.payload])
    else if pb.type = PacketType.channelOpen.code then reNotifyChannelOpen app watch E fuel s pb
    else
      match channelsGet s.handler.channels pb.localChannelId with
      | none => .ok s
      | some ch => reNotifyChannel app watch E fuel s ch pb

def timedOut (ch : Channel) : Bool :=
  ch.timeout ≠ 0 ∧ toInt (ch.timeout * 1000) ≤ intervalSince E.now ch.lastActivity ∨
    keepaliveTimeoutInterval ≤ intervalSince E.now ch.remoteTimestamp

/-- The loop of `multiplex_handler_checkpoint`: the iterator is at `rest`, and fails when the table
does not have the modification count it expects. -/
def checkpointLoop (fuel : ℕ) : ℕ → Reentry → List ℕ → ℕ → Except Stop Reentry
  | 0, _, _, _ => .error .fuel
  | _ + 1, s, [], _ => .ok s
  | rounds + 1, s, id :: rest, expected =>
    if expected ≠ s.modCount then checkpointLoop fuel rounds s s.ids s.modCount
    else
      match channelsGet s.handler.channels id with
      | none => checkpointLoop fuel rounds s rest expected
      | some ch =>
        if timedOut E ch then
          (notifyClose app watch (closeChannel app watch E fuel)
            { s with reporting := id :: s.reporting, scanning := true } id .timeout).bind (fun t =>
              let t := { t with reporting := s.reporting, scanning := false }
              if expected ≠ t.modCount then checkpointLoop fuel rounds t rest expected
              else
                let t := t.remove E id
                checkpointLoop fuel rounds t rest t.modCount)
        else
          let (h, events) := checkpointChannel E s.handler ch
          checkpointLoop fuel rounds ({ s with handler := h }.emit events) rest expected

/-- `multiplex_handler_open_channel` -/
def reOpenChannel (fuel : ℕ) (s : Reentry) (type : ChannelType) (cookie : Option Bytes)
    (timeout : ℤ) : Except Stop Reentry :=
  if (idsHeapAlloc s.handler.channelIds).2 < 0 then .ok s
  else
    let ch := newChannel E s.handler type timeout
    let (pb, rc) := multiplexHandlerSendPacket E .channelOpen type.code ch.id ch.remoteId
      (cookie.elim [] (· ++ [0]))
    (written app watch E (closeChannel app watch E fuel) fuel (s.enter ch) pb).map
      (fun s => if rc < 0 then s.remove E ch.id else s)

/-- What `write_channel`, `pend_channel` and `resume_channel` share. -/
def reSendOnChannel (fuel : ℕ) (s : Reentry) (cid : ℕ) (type : PacketType) (payload : Bytes)
    (keeps : ℤ → Bool) : Except Stop Reentry :=
  match channelsGet s.handler.channels cid with
  | none => .ok s
  | some ch =>
    if ch.status ≠ .open ∧ ch.status ≠ .pending then .ok s
    else if ch.remoteId = 0 then .ok s
    else
      let (pb, rc) := multiplexHandlerSendPacket E type 0 ch.id ch.remoteId payload
      (written app watch E (closeChannel app watch E fuel) fuel s pb).map
        (fun s => if keeps rc then s.set (updateLocalTimestamp E ch) else s)

/-- `multiplex_handler_write_channel` -/
def reWriteChannel (fuel : ℕ) (s : Reentry) (cid : ℕ) (data : Bytes) : Except Stop Reentry :=
  if cid = 0 then
    written app watch E (closeChannel app watch E fuel) fuel s
      (multiplexHandlerSendPacket E .channelData 0 0 0 data).1
  else reSendOnChannel app watch E fuel s cid .channelData data (fun rc => 0 ≤ rc)

/-- One call of the handler, with `fuel` for nested calls and for the rounds of a loop. -/
def reCall (fuel : ℕ) (s : Reentry) (op : MuxOp) : Except Stop Reentry :=
  let close := closeChannel app watch E fuel
  match op with
  | .receive _ p => reNotifyBytes app watch E fuel s p
  | .openChannel type cookie timeout => reOpenChannel app watch E fuel s type cookie timeout
  | .closeChannel cid => close s cid
  | .writeChannel cid data => reWriteChannel app watch E fuel s cid data
  | .pendChannel cid =>
    reSendOnChannel app watch E fuel s cid .channelPending [] (fun rc => rc = 0)
  | .resumeChannel cid =>
    reSendOnChannel app watch E fuel s cid .channelResume [] (fun rc => rc = 0)
  | .checkpoint => checkpointLoop app watch E fuel fuel s s.ids s.modCount
  | .stateChanged .closed => closeChannelsLoop app watch E close .normal fuel s s.ids s.modCount
  | .stateChanged .failed => closeChannelsLoop app watch E close .error fuel s s.ids s.modCount
  | .stateChanged _ => .ok s
  | .stop => closeChannelsLoop app watch E close .normal fuel s s.ids s.modCount

end Calls

/-- A run; it ends at a call that makes an assertion fail. -/
def reRun (app : Application) (watch : Bool) (fuel : ℕ) : Reentry → List MuxAct → Except Stop Reentry
  | s, [] => .ok s
  | s, (E, op) :: acts =>
    match muxCall E s.handler op with
    | none => .ok s
    | some _ => (reCall app watch E fuel s op).bind (fun t => reRun app watch fuel t acts)

/-- Every run returns, whatever its callbacks close, and reports each channel as closed at most
once. -/
def ClosesOnce (app : Application) (worker reliable : Bool) (acts : List MuxAct) : Prop :=
  ∃ least, ∀ fuel ≥ least, ∃ s, reRun app false fuel (.init worker reliable) acts = .ok s ∧
    ∀ id incarnation, s.reports.count (id, incarnation) ≤ 1

/-- In no callback of the run the application closes a channel whose close is being reported or, from
the report of a checkpoint, any channel; where it returns false from `channel_data`, it has not
closed that channel; and no stream is stopped by the write of a `Close` packet, or of the answer to an
accepted `Open` that fails. -/
def Careful (app : Application) (worker reliable : Bool) (acts : List MuxAct) : Prop :=
  ∀ fuel, reRun app true fuel (.init worker reliable) acts ≠ .error .careless

namespace Reentry

variable {s t u : Reentry} {id : ℕ}

theorem get_isSome_iff (s : Reentry) (id : ℕ) :
    (channelsGet s.handler.channels id).isSome ↔ id ∈ s.ids := by
  unfold channelsGet ids
  rw [List.find?_isSome, List.mem_map]
  simp

@[simp] theorem ids_set (s : Reentry) (ch : Channel) : (s.set ch).ids = s.ids :=
  map_id_channelsSet s.handler.channels ch

theorem ids_remove (E : MuxEnv) (s : Reentry) (id : ℕ) :
    (s.remove E id).ids = s.ids.filter (· ≠ id) := by
  unfold remove
  split
  · rename_i hsome
    unfold MultiplexHandler.remove
    rw [if_pos hsome]
    unfold ids channelsRemove
    rw [List.filter_map]
    rfl
  · rename_i hnone
    rw [get_isSome_iff] at hnone
    symm
    rw [List.filter_eq_self]
    intro x hx
    rw [decide_eq_true_eq]
    rintro rfl
    exact hnone hx

theorem length_ids_enter (hinv : s.handler.Inv) {ch : Channel} (hfresh : s.handler.Fresh ch) :
    (s.enter ch).ids.length = s.ids.length + 1 := by
  unfold Reentry.enter ids
  dsimp only
  rw [hinv.enter_channels hfresh, List.map_append, List.length_append]
  rfl

@[simp] theorem remove_reports (E : MuxEnv) (s : Reentry) (id : ℕ) :
    (s.remove E id).reports = s.reports := by
  unfold remove
  split_ifs <;> rfl

@[simp] theorem remove_incarnation (E : MuxEnv) (s : Reentry) (id : ℕ) :
    (s.remove E id).incarnation = s.incarnation := by
  unfold remove
  split_ifs <;> rfl

@[simp] theorem remove_reporting (E : MuxEnv) (s : Reentry) (id : ℕ) :
    (s.remove E id).reporting = s.reporting := by
  unfold remove
  split_ifs <;> rfl

@[simp] theorem remove_scanning (E : MuxEnv) (s : Reentry) (id : ℕ) :
    (s.remove E id).scanning = s.scanning := by
  unfold remove
  split_ifs <;> rfl

@[simp] theorem remove_log (E : MuxEnv) (s : Reentry) (id : ℕ) : (s.remove E id).log = s.log := by
  unfold remove
  split_ifs <;> rfl

@[simp] theorem remove_handler (E : MuxEnv) (s : Reentry) (id : ℕ) :
    (s.remove E id).handler = s.handler.remove E id := by
  unfold remove
  split_ifs with hsome
  · rfl
  · rw [MultiplexHandler.remove, if_neg hsome]

theorem remove_modCount (E : MuxEnv) (s : Reentry) (id : ℕ) :
    (s.remove E id).modCount = if id ∈ s.ids then s.modCount + 1 else s.modCount := by
  have hiff := get_isSome_iff s id
  unfold remove
  by_cases hid : id ∈ s.ids
  · rw [if_pos (hiff.mpr hid), if_pos hid]
  · rw [if_neg (mt hiff.mp hid), if_neg hid]

/-- The channels whose close is not being reported. -/
def openIds (s : Reentry) : List ℕ := s.ids.filter (fun id => id ∉ s.reporting)

/-- What holds of the reports in the middle of a call. -/
structure Inv (s : Reentry) : Prop where
  handler : s.handler.Inv
  once : ∀ p, s.reports.count p ≤ 1
  known : ∀ id inc, (id, inc) ∈ s.reports → inc ≤ s.incarnation id
  fresh : ∀ id ∈ s.ids, id ∉ s.reporting → (id, s.incarnation id) ∉ s.reports

/-- What a nested call leaves: no channel has come, the modification count tells whether one has
gone, and while the checkpoint reports none has. -/
structure Within (s t : Reentry) : Prop where
  ids : t.ids.Sublist s.ids
  incarnation : t.incarnation = s.incarnation
  reporting : t.reporting = s.reporting
  scanning : t.scanning = s.scanning
  modCount : s.modCount ≤ t.modCount
  same : t.modCount = s.modCount → t.ids = s.ids
  still : s.scanning = true → t.modCount = s.modCount

/-- A change that leaves the table's channels where they are. -/
theorem Within.of_ids (hids : t.ids = s.ids) (hinc : t.incarnation = s.incarnation)
    (hrep : t.reporting = s.reporting) (hscan : t.scanning = s.scanning)
    (hmod : t.modCount = s.modCount) : Within s t :=
  ⟨hids ▸ List.Sublist.refl _, hinc, hrep, hscan, hmod.ge, fun _ => hids, fun _ => hmod⟩

theorem Within.refl (s : Reentry) : Within s s := .of_ids rfl rfl rfl rfl rfl

theorem Within.emit (s : Reentry) (events : List MuxEvent) : Within s (s.emit events) :=
  .of_ids rfl rfl rfl rfl rfl

theorem Within.set (s : Reentry) (ch : Channel) : Within s (s.set ch) :=
  .of_ids (ids_set s ch) rfl rfl rfl rfl

theorem Within.touch (E : MuxEnv) (s : Reentry) (id : ℕ) : Within s (s.touch E id) := by
  unfold Reentry.touch
  split
  · exact .refl s
  · exact .set s _

theorem Within.trans (h : Within s t) (h' : Within t u) : Within s u where
  ids := h'.ids.trans h.ids
  incarnation := h'.incarnation.trans h.incarnation
  reporting := h'.reporting.trans h.reporting
  scanning := h'.scanning.trans h.scanning
  modCount := h.modCount.trans h'.modCount
  same heq := by
    have h1 := h.modCount
    have h2 := h'.modCount
    rw [h'.same (by omega), h.same (by omega)]
  still hscan := (h'.still (h.scanning.trans hscan)).trans (h.still hscan)

theorem Within.openIds_le (h : Within s t) : t.openIds.length ≤ s.openIds.length := by
  unfold openIds
  rw [h.reporting]
  exact (h.ids.filter _).length_le

/-- A report of a channel that has not been reported, for a state in which it is not open any
more. -/
theorem Inv.report (h : s.Inv) (hid : id ∈ s.ids) (hnot : id ∉ s.reporting)
    (hhandler : t.handler.Inv) (hreports : t.reports = s.reports ++ [(id, s.incarnation id)])
    (hinc : t.incarnation = s.incarnation)
    (hopen : ∀ x ∈ t.ids, x ∉ t.reporting → x ∈ s.ids ∧ x ∉ s.reporting ∧ x ≠ id) : t.Inv where
  handler := hhandler
  once p := by
    rw [hreports, List.count_append, List.count_singleton]
    by_cases hp : (id, s.incarnation id) = p
    · rw [← hp, List.count_eq_zero_of_not_mem (h.fresh id hid hnot)]
      simp
    · have := h.once p
      simp [hp, this]
  known x inc hmem := by
    rw [hreports, List.mem_append, List.mem_singleton] at hmem
    rw [hinc]
    rcases hmem with hmem | hmem
    · exact h.known x inc hmem
    · rw [Prod.mk.injEq] at hmem
      rw [hmem.1, hmem.2]
  fresh x hx hrep hmem := by
    obtain ⟨hxs, hxrep, hne⟩ := hopen x hx hrep
    rw [hreports, hinc, List.mem_append, List.mem_singleton, Prod.mk.injEq] at hmem
    rcases hmem with hmem | hmem
    · exact h.fresh x hxs hxrep hmem
    · exact hne hmem.1

/-- A state with the same reports and no more open channels. -/
theorem Inv.congr (h : s.Inv) (hhandler : t.handler.Inv) (hreports : t.reports = s.reports)
    (hinc : t.incarnation = s.incarnation)
    (hopen : ∀ x ∈ t.ids, x ∉ t.reporting → x ∈ s.ids ∧ x ∉ s.reporting) : t.Inv where
  handler := hhandler
  once p := hreports ▸ h.once p
  known x inc hmem := by
    rw [hinc]
    exact h.known x inc (hreports ▸ hmem)
  fresh x hx hrep := by
    obtain ⟨hxs, hxrep⟩ := hopen x hx hrep
    rw [hreports, hinc]
    exact h.fresh x hxs hxrep

/-- A new incarnation of an id. -/
theorem Inv.bump (h : s.Inv) (hhandler : t.handler.Inv) (hreports : t.reports = s.reports)
    (hinc : t.incarnation = Function.update s.incarnation id (s.incarnation id + 1))
    (hreporting : t.reporting = s.reporting) (hids : ∀ x ∈ t.ids, x = id ∨ x ∈ s.ids) :
    t.Inv where
  handler := hhandler
  once p := hreports ▸ h.once p
  known x inc hmem := by
    have hle := h.known x inc (hreports ▸ hmem)
    rw [hinc]
    by_cases hx : x = id
    · subst hx
      rw [Function.update_self]
      omega
    · rwa [Function.update_of_ne hx]
  fresh x hx hrep := by
    rw [hreports, hinc]
    by_cases hxid : x = id
    · subst hxid
      rw [Function.update_self]
      intro hmem
      have := h.known x _ hmem
      omega
    · rw [Function.update_of_ne hxid]
      exact h.fresh x ((hids x hx).resolve_left hxid) (hreporting ▸ hrep)

theorem Inv.emit (h : s.Inv) (events : List MuxEvent) : (s.emit events).Inv :=
  h.congr h.handler rfl rfl (fun _ hx hrep => ⟨hx, hrep⟩)

theorem Inv.set (h : s.Inv) {ch ch' : Channel} (hget : channelsGet s.handler.channels ch.id = some ch)
    (hid : ch'.id = ch.id) (htype : ch'.type = ch.type) (hremote : ch'.remoteId < 2 ^ 16)
    (hstatus : ch'.status ≠ .closing) : (s.set ch').Inv :=
  h.congr (h.handler.set hget hid htype hremote hstatus) rfl rfl
    (fun _ hx hrep => ⟨ids_set s ch' ▸ hx, hrep⟩)

theorem Inv.remove (h : s.Inv) (E : MuxEnv) (id : ℕ) : (s.remove E id).Inv := by
  apply h.congr
  · rw [remove_handler]
    exact h.handler.remove E id
  · exact remove_reports E s id
  · exact remove_incarnation E s id
  · intro x hx hrep
    rw [ids_remove] at hx
    rw [remove_reporting] at hrep
    exact ⟨List.mem_of_mem_filter hx, hrep⟩

/-- A channel that leaves the table after the report of its close. -/
theorem Inv.leave (h : s.Inv) {reporting : List ℕ} (hrep : s.reporting = id :: reporting)
    {E : MuxEnv} (hhandler : t.handler = s.handler.remove E id) (hreports : t.reports = s.reports)
    (hinc : t.incarnation = s.incarnation) (hrep' : t.reporting = reporting) : t.Inv := by
  have hids : t.ids = s.ids.filter (· ≠ id) := by
    rw [← ids_remove E, ids, ids, hhandler, remove_handler]
  refine h.congr (hhandler ▸ h.handler.remove E id) hreports hinc ?_
  intro x hx hnot
  rw [hids, List.mem_filter, decide_eq_true_eq] at hx
  rw [hrep'] at hnot
  rw [hrep, List.mem_cons, not_or]
  exact ⟨hx.1, hx.2, hnot⟩

theorem Inv.touch (h : s.Inv) (E : MuxEnv) (id : ℕ) : (s.touch E id).Inv := by
  unfold Reentry.touch
  split
  · exact h
  · rename_i ch hget
    have hmem := mem_of_channelsGet hget
    rw [← channelsGet_id hget] at hget
    exact h.set hget rfl rfl (h.handler.remoteId ch hmem) (h.handler.status ch hmem)

end Reentry

/-- An application that closes no channel in a callback and answers to data as `E` does. -/
structure Quiet (app : Application) (E : MuxEnv) : Prop where
  closes : ∀ s cb, app.closes s cb = []
  result : ∀ s ch payload, channelsGet s.handler.channels ch.id = some ch →
    app.result s (.data ch.id payload) = E.channelData ch payload

/-- A call that returns with a handler and has told of `events`. -/
def Tells (s : Reentry) (h : MultiplexHandler) (events : List MuxEvent) (x : Except Stop Reentry) :
    Prop :=
  ∃ t, x = .ok t ∧ t.handler = h ∧ t.log = s.log ++ events

section Quiet
open Reentry

variable {app : Application} {watch : Bool} {E : MuxEnv} {s t : Reentry} {h : MultiplexHandler}
  {close : Reentry → ℕ → Except Stop Reentry} {events' : List MuxEvent}
  {x : Except Stop Reentry}

theorem tells_ok (s : Reentry) : Tells s s.handler [] (.ok s) :=
  ⟨s, rfl, rfl, (List.append_nil _).symm⟩

/-- A call goes on from where another has left it. -/
theorem Tells.bind {h' : MultiplexHandler} {events : List MuxEvent}
    {f : Reentry → Except Stop Reentry} (htells : Tells s h events x)
    (hf : ∀ t, t.handler = h → Tells t h' events' (f t)) :
    Tells s h' (events ++ events') (x.bind f) := by
  obtain ⟨t, rfl, hh, hlog⟩ := htells
  obtain ⟨u, hu, hh', hlog'⟩ := hf t hh
  exact ⟨u, hu, hh', by rw [hlog', hlog, List.append_assoc]⟩

theorem Tells.map {h' : MultiplexHandler} {events : List MuxEvent} {f : Reentry → Reentry}
    (htells : Tells s h events x)
    (hf : ∀ t, t.handler = h → (f t).handler = h' ∧ (f t).log = t.log) :
    Tells s h' events (x.map f) := by
  obtain ⟨t, rfl, hh, hlog⟩ := htells
  obtain ⟨hh', hlog'⟩ := hf t hh
  exact ⟨f t, rfl, hh', hlog'.trans hlog⟩

theorem Tells.after (htells : Tells t h events' x) (events : List MuxEvent)
    (hlog : t.log = s.log ++ events) : Tells s h (events ++ events') x := by
  obtain ⟨u, hu, hh, hlog'⟩ := htells
  exact ⟨u, hu, hh, by rw [hlog', hlog, List.append_assoc]⟩

theorem Quiet.notify (hq : Quiet app E) (s : Reentry) (cb : Callback) :
    notify app watch close s cb = .ok (s.emit [cb.event]) := by
  unfold Session.notify
  dsimp only
  rw [hq.closes]
  rfl

theorem Quiet.notifyThenRemove (hq : Quiet app E) (s : Reentry) (id : ℕ) (reason : CloseReason) :
    Tells s (s.handler.remove E id) [.channelClose id reason]
      (notifyThenRemove app watch E close s id reason) := by
  unfold Session.notifyThenRemove notifyClose
  rw [hq.notify]
  exact ⟨_, rfl, remove_handler E _ id, remove_log E _ id⟩

theorem handler_set_set (h : MultiplexHandler) {ch ch' : Channel} (hid : ch'.id = ch.id) :
    (h.set ch).set ch' = h.set ch' := by
  have hsame : channelsSet (channelsSet h.channels ch) ch' = channelsSet h.channels ch' := by
    unfold channelsSet
    rw [List.map_map]
    apply List.map_congr_left
    intro c _
    by_cases hc : c.id = ch.id
    · simp [hc, hid]
    · simp [hc, hid]
  unfold MultiplexHandler.set
  rw [hsame]

theorem set_of_get_eq_none {ch : Channel} (hget : channelsGet h.channels ch.id = none) :
    h.set ch = h := by
  have hsame : channelsSet h.channels ch = h.channels := by
    unfold channelsSet
    conv_rhs => rw [← List.map_id h.channels]
    apply List.map_congr_left
    intro c hc
    have hne : c.id ≠ ch.id := by
      intro heq
      rw [channelsGet, List.find?_eq_none] at hget
      exact hget c hc (decide_eq_true heq)
    rw [if_neg hne, id]
  rw [MultiplexHandler.set, hsame]

theorem touch_of_get {id : ℕ} {ch : Channel} (hget : channelsGet s.handler.channels id = some ch) :
    s.touch E id = s.set (updateRemoteTimestamp E ch) := by
  unfold Reentry.touch
  rw [hget]

/-- A callback for a channel as it was just set, and then its timestamp. -/
theorem Quiet.notify_touch (hq : Quiet app E) (ch : Channel) (cb : Callback) :
    Tells s (s.handler.set (updateRemoteTimestamp E ch)) [cb.event]
      ((Session.notify app watch close (s.set ch) cb).map (fun t => t.touch E ch.id)) := by
  rw [hq.notify]
  dsimp only [Except.map]
  have hset := channelsGet_set s.handler.channels ch ch.id
  rw [if_pos rfl] at hset
  cases hold : channelsGet s.handler.channels ch.id with
  | none =>
    have hnone : channelsGet ((s.set ch).emit [cb.event]).handler.channels ch.id = none := by
      rw [hold] at hset
      exact hset
    have hstamped : channelsGet s.handler.channels (updateRemoteTimestamp E ch).id = none := hold
    rw [set_of_get_eq_none hstamped, Reentry.touch, hnone]
    exact ⟨_, rfl, set_of_get_eq_none hold, rfl⟩
  | some old =>
    have hget : channelsGet ((s.set ch).emit [cb.event]).handler.channels ch.id = some ch := by
      rw [hold] at hset
      exact hset
    rw [touch_of_get hget]
    exact ⟨_, rfl, handler_set_set s.handler rfl, rfl⟩

/-- A loop whose rounds leave the iterator valid goes over the table as `iterateChannels` does. -/
theorem tells_iterateChannels {loop : ℕ → Reentry → List ℕ → ℕ → Except Stop Reentry}
    {round : MultiplexHandler → Channel → MultiplexHandler × List MuxEvent} (hround : Round round)
    (hnil : ∀ rounds s expected, loop (rounds + 1) s [] expected = .ok s)
    (hcons : ∀ rounds s ch rest, channelsGet s.handler.channels ch.id = some ch →
      ∃ t, loop (rounds + 1) s (ch.id :: rest) s.modCount = loop rounds t rest t.modCount ∧
        t.handler = (round s.handler ch).1 ∧ t.log = s.log ++ (round s.handler ch).2)
    {rounds : ℕ} {rest : List Channel} (hinv : s.handler.Inv) (hnd : (rest.map Channel.id).Nodup)
    (hrest : ∀ ch ∈ rest, channelsGet s.handler.channels ch.id = some ch)
    (hrounds : rest.length < rounds) :
    Tells s (iterateChannels round s.handler rest).1 (iterateChannels round s.handler rest).2
      (loop rounds s (rest.map Channel.id) s.modCount) := by
  induction rest generalizing s rounds with
  | nil =>
    obtain ⟨rounds, rfl⟩ := Nat.exists_eq_succ_of_ne_zero (Nat.ne_zero_of_lt hrounds)
    rw [List.map_nil, hnil]
    exact tells_ok s
  | cons ch rest ih =>
    obtain ⟨rounds, rfl⟩ := Nat.exists_eq_succ_of_ne_zero (Nat.ne_zero_of_lt hrounds)
    rw [List.map_cons, List.nodup_cons] at hnd
    have hget := hrest ch List.mem_cons_self
    obtain ⟨t, hloop, hhandler, hlog⟩ := hcons rounds s ch (rest.map Channel.id) hget
    obtain ⟨hmoves, hother⟩ := hround true s.handler ch hinv hget
    have hlater : ∀ c ∈ rest, channelsGet t.handler.channels c.id = some c := by
      intro c hc
      have hne : c.id ≠ ch.id := fun heq => hnd.1 (heq ▸ List.mem_map_of_mem hc)
      rw [hhandler, hother c.id hne]
      exact hrest c (List.mem_cons_of_mem _ hc)
    have hih := ih (hhandler ▸ hinv.moves hmoves) hnd.2 hlater (Nat.lt_of_succ_lt_succ hrounds)
    rw [List.map_cons, hloop, iterateChannels]
    dsimp only
    rw [← hhandler]
    exact hih.after _ hlog

theorem Quiet.checkpointLoop (hq : Quiet app E) {fuel : ℕ} (hinv : s.handler.Inv)
    (hfuel : s.ids.length < fuel) :
    Tells s (multiplexHandlerCheckpoint E s.handler).1 (multiplexHandlerCheckpoint E s.handler).2
      (checkpointLoop app watch E fuel fuel s s.ids s.modCount) := by
  refine tells_iterateChannels (round_checkpoint E) (fun _ _ _ => rfl) ?_ hinv hinv.nodup
    (fun _ hch => channelsGet_of_mem hinv.nodup hch) (by rwa [← List.length_map Channel.id])
  intro rounds s ch rest hget
  rw [Session.checkpointLoop, if_neg (not_not.mpr rfl), hget]
  dsimp only
  cases htime : timedOut E ch with
  | true =>
    have hround : checkpointChannel E s.handler ch =
        (s.handler.remove E ch.id, [.channelClose ch.id .timeout]) := by
      unfold timedOut at htime
      rw [decide_eq_true_eq] at htime
      rw [checkpointChannel, if_pos htime]
    rw [if_pos rfl, hround, notifyClose, hq.notify]
    refine ⟨_, if_neg (not_not.mpr rfl), ?_, ?_⟩
    · exact remove_handler E _ ch.id
    · exact remove_log E _ ch.id
  | false =>
    rw [if_neg Bool.false_ne_true]
    exact ⟨_, rfl, rfl, rfl⟩

theorem Quiet.closeChannelsLoop (hq : Quiet app E) {rounds : ℕ} (reason : CloseReason)
    (hinv : s.handler.Inv) (hrounds : s.ids.length < rounds) :
    Tells s (multiplexHandlerCloseChannels E s.handler reason).1
      (multiplexHandlerCloseChannels E s.handler reason).2
      (closeChannelsLoop app watch E close reason rounds s s.ids s.modCount) := by
  refine tells_iterateChannels (round_closeChannels E reason) (fun _ _ _ => rfl) ?_ hinv hinv.nodup
    (fun _ hch => channelsGet_of_mem hinv.nodup hch) (by rwa [← List.length_map Channel.id])
  intro rounds s ch rest _
  rw [Session.closeChannelsLoop, if_neg (not_not.mpr rfl)]
  dsimp only
  rw [notifyClose, hq.notify]
  refine ⟨_, rfl, remove_handler E s ch.id, ?_⟩
  exact congrArg (· ++ [MuxEvent.channelClose ch.id reason]) (remove_log E s ch.id)

theorem Quiet.written (hq : Quiet app E) (watch : Bool)
    (close : Reentry → ℕ → Except Stop Reentry) {rounds : ℕ} (pb : ProtocolBuffer)
    (hinv : s.handler.Inv) (hrounds : s.ids.length < rounds) :
    Tells s (s.handler.written E pb).1 (s.handler.written E pb).2
      (Session.written app watch E close rounds s pb) := by
  unfold Session.written MultiplexHandler.written
  dsimp only [Reentry.emit]
  cases s.handler.stops E pb with
  | none => exact ⟨_, rfl, rfl, rfl⟩
  | some reason =>
    exact (hq.closeChannelsLoop (s := s.emit [.send pb]) reason hinv hrounds).after [.send pb] rfl

theorem Quiet.closeChannel (hq : Quiet app E) {fuel cid : ℕ} (hinv : s.handler.Inv)
    (hfuel : s.ids.length + 1 < fuel) {r : MuxCall}
    (hr : multiplexHandlerCloseChannel E s.handler cid = some r) :
    Tells s r.handler r.events (closeChannel app false E fuel s cid) := by
  obtain ⟨fuel, rfl⟩ := Nat.exists_eq_succ_of_ne_zero (Nat.ne_zero_of_lt hfuel)
  rw [Session.closeChannel]
  rcases closeChannel_eq_some hr with ⟨hget, rfl⟩ | ⟨ch, w, hget, rfl, rfl, rfl⟩
  · rw [hget]
    exact tells_ok s
  · rw [hget]
    dsimp only
    split_ifs with hrid
    · exact hq.notifyThenRemove s ch.id .normal
    · refine (hq.written _ _ (closeNotice ch) hinv (Nat.succ_lt_succ_iff.mp hfuel)).bind ?_
      rintro t ht
      rw [← ht]
      exact hq.notifyThenRemove t ch.id .normal

theorem Quiet.notifyChannelOpen (hq : Quiet app E) {fuel : ℕ} {pb : ProtocolBuffer}
    (hinv : s.handler.Inv) (hremote : pb.remoteChannelId < 2 ^ 16)
    (hfuel : s.ids.length + 1 < fuel) :
    Tells s (notifyChannelOpen E s.handler pb).1 (notifyChannelOpen E s.handler pb).2
      (reNotifyChannelOpen app false E fuel s pb) := by
  unfold reNotifyChannelOpen
  dsimp only
  cases hch : incomingChannel E s.handler pb with
  | none =>
    cases htype : s.handler.openType pb with
    | none =>
      rw [notifyChannelOpen_unsupported htype]
      exact tells_ok s
    | some type =>
      rw [notifyChannelOpen_full hinv htype hch]
      exact hq.written _ _ _ hinv (by omega)
  | some ch =>
    obtain ⟨hfresh, -, -⟩ := incomingChannel_eq_some hinv hremote hch
    have hinv1 : (s.enter ch).handler.Inv := hinv.enter hfresh
    have hids : (s.enter ch).ids.length = s.ids.length + 1 := length_ids_enter hinv hfresh
    set u : Reentry := (s.enter ch).emit [.channelOpen ch.id pb.cookie]
    have hwritten := hq.written (s := u) false (Session.closeChannel app false E fuel)
      (openAnswer E ch pb) hinv1 (hids.trans_lt hfuel)
    have hsent : (multiplexHandlerSendPacket E .channelOpenConfirmation 0
        (if E.channelOpen ch pb.cookie then ch.id else 0) ch.remoteId []).2 < 0 ↔
        E.next (openAnswer E ch pb) < 0 := sendPacket_neg_iff
    have hplain (v : Reentry) (answer : ProtocolBuffer) :
        writtenThenReported app false E (Session.closeChannel app false E fuel) fuel v answer =
          Session.written app false E (Session.closeChannel app false E fuel) fuel v answer := rfl
    have hheld : Session.written app false E (Session.closeChannel app false E fuel) fuel
        ((s.enter ch).emit [.channelOpen ch.id pb.cookie])
        (multiplexHandlerSendPacket E .channelOpenConfirmation 0
          (if E.channelOpen ch pb.cookie then ch.id else 0) ch.remoteId []).1 =
        Session.written app false E (Session.closeChannel app false E fuel) fuel u
          (openAnswer E ch pb) := rfl
    have htold {h : MultiplexHandler} {events : List MuxEvent} {x : Except Stop Reentry}
        (hx : Tells u h events x) : Tells s h (.channelOpen ch.id pb.cookie :: events) x :=
      hx.after [.channelOpen ch.id pb.cookie] rfl
    rw [notifyChannelOpen_incoming hch]
    unfold afterAnswer
    simp only [hsent, hplain, ite_self, hheld]
    set w := (s.handler.enter ch).written E (openAnswer E ch pb)
    cases hok : E.channelOpen ch pb.cookie with
    | false =>
      rw [if_neg Bool.false_ne_true, ← List.append_nil w.2]
      refine htold (hwritten.bind fun t ht => ⟨t.remove E ch.id, rfl, ?_, ?_⟩)
      · exact (remove_handler E t ch.id).trans (congrArg (MultiplexHandler.remove E · ch.id) ht)
      · rw [remove_log, List.append_nil]
    | true =>
      rw [if_pos rfl]
      simp only [Bool.not_true, Bool.false_eq_true, if_false]
      split_ifs with hrc
      · refine htold (hwritten.bind fun t ht => ?_)
        rw [← show t.handler = w.1 from ht]
        exact hq.notifyThenRemove t ch.id .error
      · refine htold (hwritten.bind fun t ht => ?_)
        rw [← show t.handler = w.1 from ht]
        exact hq.notify_touch { ch with status := .open } (.opened ch.id)

theorem Quiet.notifyChannel (hq : Quiet app E) {fuel : ℕ} (pb : ProtocolBuffer) {ch : Channel}
    (hget : channelsGet s.handler.channels ch.id = some ch) :
    Tells s (notifyChannel E s.handler ch pb).1 (notifyChannel E s.handler ch pb).2
      (reNotifyChannel app watch E fuel s ch pb) := by
  unfold Session.notifyChannel reNotifyChannel
  cases PacketType.ofCode pb.type with
  | none => exact tells_ok s
  | some t =>
    cases t with
    | channelOpen => exact tells_ok s
    | channelOpenConfirmation =>
      dsimp only
      split_ifs with hst hsrc
      · exact tells_ok s
      · exact hq.notify_touch { ch with status := .open, remoteId := pb.remoteChannelId }
          (.opened ch.id)
      · exact hq.notifyThenRemove s ch.id .error
    | channelData =>
      dsimp only
      by_cases hst : ch.status ≠ .pending ∧ ch.status ≠ .open
      · rw [if_pos hst, if_pos hst]
        exact tells_ok s
      · rw [if_neg hst, if_neg hst, hq.notify]
        set t : Reentry := s.emit [(Callback.data ch.id pb.payload).event]
        have hresult : app.result t (.data ch.id pb.payload) = E.channelData ch pb.payload :=
          hq.result t ch pb.payload hget
        have hthere : (channelsGet t.handler.channels ch.id).isNone = false := by
          rw [show channelsGet t.handler.channels ch.id = some ch from hget, Option.isNone_some]
        dsimp only [Except.bind]
        rw [hresult, hthere, Bool.and_false, if_neg Bool.false_ne_true]
        split_ifs
        · rw [touch_of_get (s := t) hget]
          exact ⟨_, rfl, rfl, rfl⟩
        · exact (hq.notifyThenRemove t ch.id .error).after [_] rfl
    | channelKeepAlive => exact ⟨_, rfl, rfl, (List.append_nil _).symm⟩
    | channelPending =>
      dsimp only
      split_ifs with hst
      · exact tells_ok s
      · exact hq.notify_touch { ch with status := .pending } (.pending ch.id)
    | channelResume =>
      dsimp only
      split_ifs with hst
      · exact tells_ok s
      · exact hq.notify_touch { ch with status := .open } (.resume ch.id)
    | channelClose => exact hq.notifyThenRemove s ch.id .normal

theorem Quiet.notifyBytes (hq : Quiet app E) {fuel : ℕ} {trace : Bool} {p : Bytes}
    {r : MultiplexHandler × List MuxEvent} (hinv : s.handler.Inv) (hfuel : s.ids.length + 1 < fuel)
    (hr : multiplexHandlerNotifyBytes E trace s.handler p = .ok r) :
    Tells s r.1 r.2 (reNotifyBytes app false E fuel s p) := by
  unfold multiplexHandlerNotifyBytes at hr
  split_ifs at hr
  unfold reNotifyBytes
  cases hpb : receivedPacket p with
  | none =>
    rw [hpb] at hr
    cases hr
    exact tells_ok s
  | some pb =>
    rw [hpb] at hr
    dsimp only at hr ⊢
    split_ifs at hr ⊢
    · cases hr
      exact ⟨_, rfl, rfl, rfl⟩
    · split at hr
      · cases hr
      · cases hr
        exact hq.notifyChannelOpen hinv (receivedPacket_eq_some hpb).1.remoteChannelId hfuel
    · cases hget : channelsGet s.handler.channels pb.localChannelId with
      | none =>
        rw [hget] at hr
        cases hr
        exact tells_ok s
      | some ch =>
        rw [hget] at hr
        rw [← channelsGet_id hget] at hget
        dsimp only at hr
        split at hr
        · cases hr
        · cases hr
          exact hq.notifyChannel pb hget

theorem Quiet.openChannel (hq : Quiet app E) {fuel : ℕ} {type : ChannelType}
    {cookie : Option Bytes} {timeout : ℤ} {r : MuxCall} (hinv : s.handler.Inv)
    (hfuel : s.ids.length + 1 < fuel)
    (hr : multiplexHandlerOpenChannel E s.handler type cookie timeout = some r) :
    Tells s r.handler r.events (reOpenChannel app watch E fuel s type cookie timeout) := by
  unfold reOpenChannel
  rcases openChannel_eq_some hinv hr with ⟨hneg, rfl⟩ | ⟨ch, hch, hfresh, hid, rfl⟩
  · rw [if_pos hneg]
    exact tells_ok s
  · have hpos : ¬(idsHeapAlloc s.handler.channelIds).2 < 0 := by
      rw [hfresh.id]
      exact (Int.natCast_nonneg _).not_gt
    subst hch
    have hinv1 := hinv.enter hfresh
    set ch := newChannel E s.handler type timeout
    have hids : (s.enter ch).ids.length = s.ids.length + 1 := length_ids_enter hinv hfresh
    have hwritten := hq.written (s := s.enter ch) watch (Session.closeChannel app watch E fuel)
      (openRequest ch cookie) hinv1 (hids.trans_lt hfuel)
    have hsent : (multiplexHandlerSendPacket E .channelOpen type.code ch.id ch.remoteId
        (cookie.elim [] (· ++ [0]))).2 < 0 ↔ E.next (openRequest ch cookie) < 0 := sendPacket_neg_iff
    rw [if_neg hpos]
    unfold afterRequest
    simp only [hsent]
    split_ifs with hrc
    · refine hwritten.map fun t ht => ⟨?_, remove_log E t ch.id⟩
      exact (remove_handler E t ch.id).trans (congrArg (MultiplexHandler.remove E · ch.id) ht)
    · exact hwritten.map fun t ht => ⟨ht, rfl⟩

theorem Quiet.sendOnChannel (hq : Quiet app E) {fuel cid : ℕ} {type : PacketType} {payload : Bytes}
    {keeps : ℤ → Bool} (hinv : s.handler.Inv) (hfuel : s.ids.length < fuel) :
    Tells s (sendOnChannel E s.handler cid type payload keeps).handler
      (sendOnChannel E s.handler cid type payload keeps).events
      (reSendOnChannel app watch E fuel s cid type payload keeps) := by
  unfold Session.sendOnChannel reSendOnChannel
  cases channelsGet s.handler.channels cid with
  | none => exact tells_ok s
  | some ch =>
    dsimp only
    split_ifs with hst hrid hkeeps
    · exact tells_ok s
    · exact tells_ok s
    · apply (hq.written _ _ _ hinv hfuel).map
      intro t ht
      rw [← ht]
      exact ⟨rfl, rfl⟩
    · apply (hq.written _ _ _ hinv hfuel).map
      exact fun t ht => ⟨ht, rfl⟩

theorem Quiet.writeChannel (hq : Quiet app E) {fuel cid : ℕ} {data : Bytes} (hinv : s.handler.Inv)
    (hfuel : s.ids.length < fuel) :
    Tells s (multiplexHandlerWriteChannel E s.handler cid data).handler
      (multiplexHandlerWriteChannel E s.handler cid data).events
      (reWriteChannel app watch E fuel s cid data) := by
  unfold multiplexHandlerWriteChannel reWriteChannel
  split_ifs
  · exact hq.written _ _ _ hinv hfuel
  · exact hq.sendOnChannel hinv hfuel

/-- With an application that closes nothing in its callbacks, the calls are those of `muxCall`. -/
theorem Quiet.reCall (hq : Quiet app E) {fuel : ℕ} (hinv : s.handler.Inv)
    (hfuel : s.ids.length + 1 < fuel) {op : MuxOp} {r : MuxCall}
    (hr : muxCall E s.handler op = some r) :
    Tells s r.handler r.events (reCall app false E fuel s op) := by
  have hlen : s.ids.length < fuel := by omega
  cases op with
  | receive trace p =>
    simp only [muxCall] at hr
    split at hr
    · cases hr
    · next hok =>
      cases hr
      exact hq.notifyBytes hinv hfuel hok
  | openChannel type cookie timeout => exact hq.openChannel hinv hfuel hr
  | closeChannel cid => exact hq.closeChannel hinv hfuel hr
  | writeChannel cid data =>
    cases hr
    exact hq.writeChannel hinv hlen
  | pendChannel cid =>
    simp only [muxCall, multiplexHandlerPendChannel] at hr
    split_ifs at hr
    cases hr
    exact hq.sendOnChannel hinv hlen
  | resumeChannel cid =>
    simp only [muxCall, multiplexHandlerResumeChannel] at hr
    split_ifs at hr
    cases hr
    exact hq.sendOnChannel hinv hlen
  | checkpoint =>
    cases hr
    exact hq.checkpointLoop hinv hlen
  | stateChanged state =>
    cases hr
    cases state with
    | closed => exact hq.closeChannelsLoop .normal hinv hlen
    | failed => exact hq.closeChannelsLoop .error hinv hlen
    | _ => exact tells_ok s
  | stop =>
    cases hr
    exact hq.closeChannelsLoop .normal hinv hlen

/-- The runs of such an application are those of `muxStep`. -/
theorem Quiet.reRun {acts : List MuxAct} (hq : ∀ act ∈ acts, Quiet app act.1) (hinv : h.Inv) :
    ∃ least, ∀ fuel ≥ least, ∀ s : Reentry, s.handler = h →
      ∃ t, reRun app false fuel s acts = .ok t ∧ t.handler = execUntil muxStep h acts := by
  induction acts generalizing h with
  | nil => exact ⟨0, fun _ _ s hs => ⟨s, rfl, hs⟩⟩
  | cons act acts ih =>
    obtain ⟨E, op⟩ := act
    cases hr : muxCall E h op with
    | none =>
      refine ⟨0, fun fuel _ s hs => ⟨s, ?_, ?_⟩⟩
      · rw [Session.reRun, hs, hr]
      · rw [execUntil, muxStep, hr, hs]
        rfl
    | some r =>
      obtain ⟨least, hleast⟩ := ih (fun act hact => hq act (List.mem_cons_of_mem _ hact))
        (muxCall_inv hinv hr)
      refine ⟨max least (h.channels.length + 2), fun fuel hfuel s hs => ?_⟩
      subst hs
      have hlen : s.ids.length + 1 < fuel := by
        rw [Reentry.ids, List.length_map]
        omega
      obtain ⟨t, ht, hhandler, -⟩ := (hq (E, op) List.mem_cons_self).reCall hinv hlen hr
      obtain ⟨u, hu, hend⟩ := hleast fuel (le_of_max_le_left hfuel) t hhandler
      refine ⟨u, ?_, ?_⟩
      · rw [Session.reRun, hr]
        dsimp only
        rw [ht]
        exact hu
      · rw [hend, execUntil, muxStep, hr]
        rfl

end Quiet

end Carrier.Session
