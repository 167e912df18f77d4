import Carrier.Session.PortForwarding

/-! Who has the sockets of a stream with port forwarding, and what the steps that every call is made
of do to that. -/
namespace Carrier.Session
open Carrier.Lib Carrier.Common

/-- Who has a socket. -/
inductive Owner where
  | portforwarding (id : ℕ)
  | channel (id : ℕ)
  deriving DecidableEq

def Owner.kind : Owner → SockKind
  | .portforwarding _ => .listening
  | .channel _ => .data

/-- What a channel has of the socket `fd`: TCP channels read from it while they are open. -/
def Channel.custody (ch : Channel) (fd : ℕ) : Option (ℕ × Bool) :=
  if ch.type = .tcpPortForwarding then some (fd, decide (ch.status = .open)) else none

namespace ForwardingStream

/-- A write in this call stops the stream, and thereby closes its channels. -/
def Stops (E : WorkerEnv) (s : ForwardingStream) : Prop :=
  s.state = .connected ∧ s.stopping = false ∧ E.stop.isSome

instance (E : WorkerEnv) (s : ForwardingStream) : Decidable (s.Stops E) :=
  inferInstanceAs (Decidable (_ ∧ _ ∧ _))

/-- The socket of every owner, and whether it reads from it. -/
def custody (s : ForwardingStream) : Owner → Option (ℕ × Bool)
  | .portforwarding id => (portforwardingsGet s.portforwardings id).map (fun pf => (pf.sock, true))
  | .channel id => (channelsGet s.handler.channels id).bind (fun ch => ch.custody (s.sock id))

/-- The table of port forwardings, with their ids. -/
structure PfTable (ids : IdsHeap) (pfs : List PortForwarding) : Prop where
  heap : ids.WF
  nodup : (pfs.map PortForwarding.id).Nodup
  marked : ∀ pf ∈ pfs, ids.marked pf.id

/-- The invariant of a stream that has not been destroyed. -/
structure Sound (s : ForwardingStream) : Prop where
  mux : s.handler.Inv
  reliable : s.handler.reliable = true
  pfs : PfTable s.pfIds s.portforwardings
  custody : Custody Owner.kind s.fdset.event s.log s.fdset.rfds s.custody
  small : ∀ fd, (FdEvent.current s.log fd).isSome → fd < fdSetSize

section Tables

variable {s : ForwardingStream} {E : WorkerEnv} {ch : Channel} {id fd : ℕ}

theorem addSocket_rfds (fdset : FdSet) (hfd : fd < fdSetSize) :
    fdsetAddSocket fdset fd = { fdset with rfds := insert fd fdset.rfds } := by
  unfold fdsetAddSocket fdSet
  split_ifs with hmem
  · rw [Finset.insert_eq_of_mem hmem]
  · rfl

theorem removeSocket_rfds (fdset : FdSet) (fd : ℕ) :
    fdsetRemoveSocket fdset fd = { fdset with rfds := fdset.rfds.erase fd } := by
  unfold fdsetRemoveSocket
  split_ifs with hmem
  · rfl
  · rw [Finset.erase_eq_of_notMem hmem]

theorem channelsSet_of_get_eq_none {htab : Channels} (h : channelsGet htab ch.id = none) :
    channelsSet htab ch = htab := by
  unfold channelsGet at h
  rw [List.find?_eq_none] at h
  unfold channelsSet
  rw [List.map_congr_left (g := id), List.map_id]
  intro c hc
  rw [if_neg (by simpa using h c hc)]
  rfl

theorem custody_remove (s : ForwardingStream) (E : WorkerEnv) (id : ℕ) :
    (s.remove E id).custody = Function.update s.custody (.channel id) none := by
  funext o
  cases o with
  | portforwarding _ => rw [Function.update_of_ne (by simp)]; rfl
  | channel i =>
    rw [Function.update_apply]
    simp only [custody, remove, channelsGet_handler_remove, Owner.channel.injEq]
    split_ifs
    · rfl
    · rfl

theorem custody_enter (s : ForwardingStream) (ch : Channel) (fd : ℕ) :
    ((s.enter ch).setSock ch.id fd).custody =
      Function.update s.custody (.channel ch.id) (ch.custody fd) := by
  funext o
  cases o with
  | portforwarding _ => rw [Function.update_of_ne (by simp)]; rfl
  | channel i =>
    rw [Function.update_apply]
    simp only [custody, setSock, enter, MultiplexHandler.enter, MultiplexHandler.put,
      channelsGet_put, Owner.channel.injEq]
    split_ifs with hi
    · rw [hi, Option.bind_some, Function.update_self]
    · rw [Function.update_of_ne hi, Function.update_of_ne hi]

theorem custody_set (hget : (channelsGet s.handler.channels ch.id).isSome) :
    (s.set ch).custody = Function.update s.custody (.channel ch.id) (ch.custody (s.sock ch.id)) := by
  obtain ⟨old, hold⟩ := Option.isSome_iff_exists.mp hget
  funext o
  cases o with
  | portforwarding _ => rw [Function.update_of_ne (by simp)]; rfl
  | channel i =>
    rw [Function.update_apply]
    simp only [custody, set, MultiplexHandler.set, channelsGet_set, Owner.channel.injEq]
    split_ifs with hi
    · rw [hi, hold, Option.map_some, Option.bind_some]
    · rfl

theorem custody_channel (hget : channelsGet s.handler.channels ch.id = some ch) :
    s.custody (.channel ch.id) = ch.custody (s.sock ch.id) := by
  rw [ForwardingStream.custody, hget, Option.bind_some]

theorem custody_tcp (hget : channelsGet s.handler.channels ch.id = some ch)
    (htype : ch.type = .tcpPortForwarding) :
    s.custody (.channel ch.id) = some (s.sock ch.id, decide (ch.status = .open)) := by
  rw [custody_channel hget, Channel.custody, if_pos htype]

theorem custody_other (htype : ∀ ch ∈ channelsGet s.handler.channels id,
    ch.type ≠ .tcpPortForwarding) : s.custody (.channel id) = none := by
  rw [ForwardingStream.custody]
  cases hget : channelsGet s.handler.channels id with
  | none => rfl
  | some ch => rw [Option.bind_some, Channel.custody, if_neg (htype ch hget)]

theorem portforwardingsGet_id {pfs : List PortForwarding} {pf : PortForwarding}
    (h : portforwardingsGet pfs id = some pf) : pf.id = id := by
  simpa using List.find?_some h

theorem portforwardingsGet_of_mem {pfs : List PortForwarding}
    (hnd : (pfs.map PortForwarding.id).Nodup) {pf : PortForwarding} (hpf : pf ∈ pfs) :
    portforwardingsGet pfs pf.id = some pf := by
  induction pfs with
  | nil => cases hpf
  | cons x pfs ih =>
    rw [List.map_cons, List.nodup_cons] at hnd
    unfold portforwardingsGet
    rw [List.find?_cons]
    rcases List.mem_cons.mp hpf with rfl | hmem
    · simp
    · have hne : x.id ≠ pf.id := fun heq => hnd.1 (heq ▸ List.mem_map_of_mem hmem)
      simpa [hne, portforwardingsGet] using ih hnd.2 hmem

theorem portforwardingsGet_append {pfs : List PortForwarding} {pf : PortForwarding}
    (h : portforwardingsGet pfs pf.id = none) (i : ℕ) :
    portforwardingsGet (pfs ++ [pf]) i = if i = pf.id then some pf else portforwardingsGet pfs i := by
  unfold portforwardingsGet at h ⊢
  rw [List.find?_append]
  split_ifs with hi
  · rw [hi, h]
    simp
  · have hne : pf.id ≠ i := Ne.symm hi
    simp [hne]

theorem portforwardingsGet_removeEntry (pfs : List PortForwarding) (id i : ℕ) :
    portforwardingsGet (removeEntry (fun x => x.id = id) pfs) i =
      if i = id then none else portforwardingsGet pfs i := by
  unfold portforwardingsGet removeEntry
  rw [List.find?_filter]
  split_ifs with hi
  · simp [hi]
  · congr 1
    funext x
    by_cases hx : x.id = i
    · simp [hx, hi]
    · simp [hx]

end Tables

namespace PfTable

variable {ids : IdsHeap} {pfs : List PortForwarding} {pf : PortForwarding} {id : ℕ}

theorem get_eq_none (h : PfTable ids pfs) (hfree : ¬ids.marked id) :
    portforwardingsGet pfs id = none := by
  cases hget : portforwardingsGet pfs id with
  | none => rfl
  | some pf =>
    have hmarked := h.marked pf (List.mem_of_find?_eq_some hget)
    rw [portforwardingsGet_id hget] at hmarked
    exact absurd hmarked hfree

theorem append (h : PfTable ids pfs) (hfree : ¬ids.marked pf.id)
    (hmarked : ∀ i, (idsHeapAlloc ids).1.marked i ↔ i = pf.id ∨ ids.marked i) :
    PfTable (idsHeapAlloc ids).1 (pfs ++ [pf]) where
  heap := (idsHeapAlloc_wf h.heap).1
  nodup := by
    rw [List.map_append, List.nodup_append]
    refine ⟨h.nodup, List.nodup_singleton _, ?_⟩
    intro i hi j hj
    obtain ⟨x, hx, rfl⟩ := List.mem_map.mp hi
    rw [List.map_singleton, List.mem_singleton] at hj
    rintro hij
    exact hfree (hj ▸ hij ▸ h.marked x hx)
  marked x hx := by
    rw [hmarked]
    rcases List.mem_append.mp hx with hx | hx
    · exact .inr (h.marked x hx)
    · exact .inl (by rw [List.mem_singleton.mp hx])

theorem remove (h : PfTable ids pfs) (P : IntShift) (hid : ids.marked id) :
    PfTable (idsHeapFree P ids id) (removeEntry (fun x => x.id = id) pfs) where
  heap := (idsHeapFree_wf P h.heap id).1
  nodup := h.nodup.sublist (List.filter_sublist.map PortForwarding.id)
  marked x hx := by
    obtain ⟨hmem, hne⟩ := List.mem_filter.mp hx
    rw [idsHeapFree_marked P hid]
    exact ⟨h.marked x hmem, fun heq => by simp [heq] at hne⟩

end PfTable

namespace Sound

variable {s : ForwardingStream} {E : WorkerEnv} {ch old : Channel} {id fd : ℕ}

theorem sock_lt (h : s.Sound) (hget : channelsGet s.handler.channels ch.id = some ch)
    (htype : ch.type = .tcpPortForwarding) : s.sock ch.id < fdSetSize := by
  apply h.small
  rw [h.custody.current_eq (custody_tcp hget htype), Option.isSome_some]

theorem small_closed (h : s.Sound) (fd : ℕ) {fd' : ℕ}
    (hopen : (FdEvent.current (.closed fd :: s.log) fd').isSome) : fd' < fdSetSize := by
  apply h.small
  rw [FdEvent.current, Function.update_apply] at hopen
  split_ifs at hopen
  · cases hopen
  · exact hopen

/-- A change of a channel that leaves it as open as it was. -/
theorem setChannel (h : s.Sound) (ch : Channel) (hremote : ch.remoteId < 2 ^ 16)
    (hstatus : ch.status ≠ .closing)
    (hold : ∀ old ∈ channelsGet s.handler.channels ch.id,
      ch.type = old.type ∧ (old.type = .tcpPortForwarding → (ch.status = .open ↔ old.status = .open))) :
    (s.set ch).Sound := by
  cases hget : channelsGet s.handler.channels ch.id with
  | none =>
    have hsame : s.set ch = s := by
      unfold ForwardingStream.set MultiplexHandler.set
      rw [channelsSet_of_get_eq_none hget]
    rwa [hsame]
  | some old =>
    obtain ⟨htype, hopen⟩ := hold old hget
    have hid := channelsGet_id hget
    have hcustody : (s.set ch).custody = s.custody := by
      rw [custody_set (by rw [hget, Option.isSome_some]), ← hid,
        Function.update_eq_self_iff, custody_channel (hid ▸ hget)]
      unfold Channel.custody
      rw [htype]
      split_ifs with htcp
      · rw [decide_eq_decide.mpr (hopen htcp)]
      · rfl
    refine ⟨h.mux.set (hid ▸ hget) hid.symm htype hremote hstatus, h.reliable, h.pfs, ?_, h.small⟩
    rw [hcustody]
    exact h.custody

/-- A TCP channel is put into or taken out of the fd set as its status says. -/
theorem rewatch (h : s.Sound) (hget : channelsGet s.handler.channels ch.id = some old)
    (htype : ch.type = old.type) (hremote : ch.remoteId < 2 ^ 16) (hstatus : ch.status ≠ .closing)
    {fdset : FdSet} (hfdset : fdset = if old.type = .tcpPortForwarding then
      (if ch.status = .open then fdsetAddSocket s.fdset (s.sock ch.id)
        else fdsetRemoveSocket s.fdset (s.sock ch.id)) else s.fdset) :
    Sound { s.set ch with fdset := fdset } := by
  have hid := channelsGet_id hget
  have hget' : channelsGet s.handler.channels old.id = some old := hid ▸ hget
  have hmux := h.mux.set hget' hid.symm htype hremote hstatus
  by_cases htcp : old.type = .tcpPortForwarding
  · have hlt : s.sock ch.id < fdSetSize := hid ▸ h.sock_lt hget' htcp
    have hold : s.custody (.channel ch.id) = some (s.sock ch.id, decide (old.status = .open)) :=
      hid ▸ custody_tcp hget' htcp
    have hch : ch.custody (s.sock ch.id) = some (s.sock ch.id, decide (ch.status = .open)) := by
      rw [Channel.custody, if_pos (htype.trans htcp)]
    have hwatch := h.custody.rewatched hold (decide (ch.status = .open))
    rw [← hch, ← custody_set (by rw [hget, Option.isSome_some])] at hwatch
    rw [if_pos htcp] at hfdset
    refine ⟨hmux, h.reliable, h.pfs, ?_, h.small⟩
    by_cases hopen : ch.status = .open
    · rw [if_pos hopen, addSocket_rfds _ hlt] at hfdset
      simp only [hopen, decide_true, if_true] at hwatch
      rw [hfdset]
      exact hwatch
    · rw [if_neg hopen, removeSocket_rfds] at hfdset
      simp only [hopen, decide_false, Bool.false_eq_true, if_false] at hwatch
      rw [hfdset]
      exact hwatch
  · rw [if_neg htcp] at hfdset
    rw [hfdset]
    apply h.setChannel ch hremote hstatus
    intro old' hold'
    obtain rfl := Option.some.inj (hget.symm.trans hold')
    exact ⟨htype, fun htcp' => absurd htcp' htcp⟩

theorem removeOther (h : s.Sound) (htype : ∀ ch ∈ channelsGet s.handler.channels id,
    ch.type ≠ .tcpPortForwarding) : (s.remove E id).Sound := by
  refine ⟨h.mux.remove _ _, ?_, h.pfs, ?_, h.small⟩
  · exact (MultiplexHandler.sameStream_remove _ _ _).2.trans h.reliable
  · rw [custody_remove, Function.update_eq_self_iff.mpr (custody_other htype).symm]
    exact h.custody

theorem closeAndRemove (h : s.Sound) (hget : channelsGet s.handler.channels ch.id = some ch) :
    (s.closeAndRemove E ch).Sound := by
  unfold ForwardingStream.closeAndRemove notifyChannelClose
  split_ifs with htype
  · have hclose := h.custody.closed (custody_tcp hget htype)
    rw [← custody_remove s E] at hclose
    refine ⟨h.mux.remove _ _, ?_, h.pfs, ?_, ?_⟩
    · exact (MultiplexHandler.sameStream_remove _ _ _).2.trans h.reliable
    · simp only [removeSocket, socketClose, ForwardingStream.remove, removeSocket_rfds]
      exact hclose
    · intro fd hopen
      exact h.small_closed _ hopen
  · apply h.removeOther
    intro c hc
    obtain rfl := Option.some.inj (hget.symm.trans hc)
    exact htype

theorem opened (h : s.Sound) (hget : channelsGet s.handler.channels ch.id = some old)
    (htype : ch.type = old.type) (hid : ch.id = old.id) (hremote : ch.remoteId < 2 ^ 16)
    (hopen : ch.status = .open) : ((s.set ch).notifyChannelOpened old).Sound := by
  have hwatch := h.rewatch hget htype hremote (by rw [hopen]; decide) rfl
  unfold notifyChannelOpened
  split_ifs with htcp
  · rw [if_pos htcp, if_pos hopen, hid] at hwatch
    exact hwatch
  · rw [if_neg htcp] at hwatch
    exact hwatch

theorem pending (h : s.Sound) (hget : channelsGet s.handler.channels ch.id = some old)
    (htype : ch.type = old.type) (hid : ch.id = old.id) (hremote : ch.remoteId < 2 ^ 16)
    (hpending : ch.status = .pending) : ((s.set ch).notifyChannelPending old).Sound := by
  have hwatch := h.rewatch hget htype hremote (by rw [hpending]; decide) rfl
  unfold notifyChannelPending
  split_ifs with htcp
  · rw [if_pos htcp, if_neg (by rw [hpending]; decide), hid] at hwatch
    exact hwatch
  · rw [if_neg htcp] at hwatch
    exact hwatch

theorem enterOther (h : s.Sound) (hch : s.handler.Fresh ch) (htype : ch.type ≠ .tcpPortForwarding) :
    (s.enter ch).Sound := by
  have hnone : s.custody (.channel ch.id) = none := by
    rw [ForwardingStream.custody, h.mux.fresh_get hch, Option.bind_none]
  have hcustody : (s.enter ch).custody = s.custody := by
    have henter := custody_enter s ch 0
    rw [Channel.custody, if_neg htype, Function.update_eq_self_iff.mpr hnone.symm, setSock] at henter
    rw [← henter]
    simp only [enter, Function.update_idem]
  refine ⟨h.mux.enter hch, h.reliable, h.pfs, ?_, h.small⟩
  rw [hcustody]
  exact h.custody

/-- A TCP channel enters the table with a socket just opened for it. -/
theorem enterTcp (h : s.Sound) (hch : s.handler.Fresh ch) (htype : ch.type = .tcpPortForwarding)
    (hfree : ¬s.InUse fd) (hfd : fd < fdSetSize) :
    (((s.enter ch).socketOpen .data fd).setSock ch.id fd).Sound := by
  have hnone : s.custody (.channel ch.id) = none := by
    rw [ForwardingStream.custody, h.mux.fresh_get hch, Option.bind_none]
  rw [InUse, not_or, Option.not_isSome_iff_eq_none] at hfree
  have hopen := h.custody.opened hnone hfree.2 hfree.1
  have henter := custody_enter s ch fd
  rw [Channel.custody, if_pos htype, hch.status, decide_eq_false (by decide)] at henter
  rw [← henter] at hopen
  refine ⟨h.mux.enter hch, h.reliable, h.pfs, hopen, ?_⟩
  intro fd' hopen'
  simp only [setSock, socketOpen, enter, FdEvent.current] at hopen'
  rw [Function.update_apply] at hopen'
  split_ifs at hopen' with hself
  · rw [hself]
    exact hfd
  · exact h.small fd' hopen'

theorem bounce (h : s.Sound) (hch : s.handler.Fresh ch) : ((s.enter ch).remove E ch.id).Sound := by
  have hnone : s.custody (.channel ch.id) = none := by
    rw [ForwardingStream.custody, h.mux.fresh_get hch, Option.bind_none]
  refine ⟨(h.mux.enter hch).remove _ _, ?_, h.pfs, ?_, h.small⟩
  · exact (MultiplexHandler.sameStream_remove _ _ _).2.trans h.reliable
  · have hsame : s.enter ch = (s.enter ch).setSock ch.id 0 := by
      simp only [enter, setSock, Function.update_idem]
    rw [custody_remove, hsame, custody_enter, Function.update_idem,
      Function.update_eq_self_iff.mpr hnone.symm]
    exact h.custody

theorem openedClosed (h : s.Sound) (kind : SockKind) (hfree : ¬s.InUse fd) :
    ((s.socketOpen kind fd).socketClose fd).Sound := by
  rw [InUse, not_or, Option.not_isSome_iff_eq_none] at hfree
  have hcurrent : FdEvent.current (.closed fd :: .opened kind fd :: s.log) =
      FdEvent.current s.log := by
    rw [FdEvent.current, FdEvent.current, Function.update_idem,
      Function.update_eq_self_iff.mpr hfree.2.symm]
  have hc := h.custody
  refine ⟨h.mux, h.reliable, h.pfs, ⟨⟨?_, hfree.2, hc.clean⟩, ?_, hc.unique, ?_, hc.mem_watched⟩, ?_⟩
  · simp only [socketOpen, FdEvent.current, Function.update_self, Option.isSome_some]
  · intro fd' k
    rw [socketClose, socketOpen, hcurrent]
    exact hc.held fd' k
  · rw [socketClose, socketOpen, hcurrent]
    exact hc.event_closed
  · intro fd'
    rw [socketClose, socketOpen, hcurrent]
    exact h.small fd'

/-- The loop closes the socket of one channel after the other and leaves none. -/
theorem closeEach (h : s.Sound) {l : List Channel} (hl : s.handler.channels = l) :
    (closeEach E l s).Sound ∧ (ForwardingStream.closeEach E l s).handler.channels = [] := by
  induction l generalizing s with
  | nil => exact ⟨h, hl⟩
  | cons ch rest ih =>
    have hnd := h.mux.nodup
    have hget : channelsGet s.handler.channels ch.id = some ch :=
      channelsGet_of_mem hnd (hl ▸ List.mem_cons_self)
    have hswap : (s.remove E ch.id).notifyChannelClose ch = s.closeAndRemove E ch := by
      unfold ForwardingStream.closeAndRemove notifyChannelClose
      split_ifs <;> rfl
    have hrest : (s.closeAndRemove E ch).handler.channels = rest := by
      have hchannels : (s.closeAndRemove E ch).handler.channels =
          channelsRemove s.handler.channels ch.id := by
        rw [← hswap]
        unfold notifyChannelClose
        have hremove : (s.remove E ch.id).handler.channels =
            channelsRemove s.handler.channels ch.id := by
          simp only [ForwardingStream.remove, MultiplexHandler.remove, hget, Option.isSome_some,
            if_true]
        split_ifs <;> exact hremove
      rw [hl, List.map_cons, List.nodup_cons] at hnd
      rw [hchannels, hl, channelsRemove, List.filter_cons_of_neg (by simp),
        List.filter_eq_self]
      intro c hc
      rw [decide_eq_true_eq]
      intro hid
      exact hnd.1 (hid ▸ List.mem_map_of_mem hc)
    rw [ForwardingStream.closeEach, hswap]
    exact ih (h.closeAndRemove hget) hrest

theorem closeChannels (h : s.Sound) :
    (s.closeChannels E).Sound ∧ (s.closeChannels E).handler.channels = [] :=
  h.closeEach rfl

/-- The fields that say how far the stream is do not matter. -/
theorem congr {t : ForwardingStream} (h : s.Sound) (hhandler : t.handler = s.handler)
    (hsock : t.sock = s.sock) (hfdset : t.fdset = s.fdset)
    (hpfs : t.portforwardings = s.portforwardings) (hids : t.pfIds = s.pfIds)
    (hlog : t.log = s.log) : t.Sound := by
  have hcustody : t.custody = s.custody := by
    funext o
    cases o with
    | portforwarding _ => rw [ForwardingStream.custody, ForwardingStream.custody, hpfs]
    | channel _ => rw [ForwardingStream.custody, ForwardingStream.custody, hhandler, hsock]
  refine ⟨hhandler ▸ h.mux, hhandler ▸ h.reliable, hids ▸ hpfs ▸ h.pfs, ?_, hlog ▸ h.small⟩
  rw [hfdset, hlog, hcustody]
  exact h.custody

theorem onStateChanged (h : s.Sound) (state : StreamState) : (s.onStateChanged E state).Sound := by
  unfold ForwardingStream.onStateChanged
  split_ifs
  · exact h.closeChannels.1.congr rfl rfl rfl rfl rfl rfl
  · exact h.congr rfl rfl rfl rfl rfl rfl

/-- A change of state keeps the channels, or none of them. -/
theorem onStateChanged_channels (h : s.Sound) (state : StreamState) :
    (s.onStateChanged E state).handler.channels = s.handler.channels ∨
      (s.onStateChanged E state).handler.channels = [] := by
  unfold ForwardingStream.onStateChanged
  split_ifs
  · exact .inr h.closeChannels.2
  · exact .inl rfl

theorem iceHandlerStop (h : s.Sound) (error : ℤ) :
    (s.iceHandlerStop E error).Sound ∧
      ((s.iceHandlerStop E error).handler.channels = s.handler.channels ∨
        (s.iceHandlerStop E error).handler.channels = []) := by
  have hstopping : Sound { s with stopping := true } := h.congr rfl rfl rfl rfl rfl rfl
  unfold ForwardingStream.iceHandlerStop
  by_cases hs : s.stopping = true
  · rw [if_pos hs]
    exact ⟨h, .inl rfl⟩
  · rw [if_neg hs]
    dsimp only
    by_cases hcode : s.state.code ≤ StreamState.connected.code
    · rw [if_pos hcode]
      exact ⟨hstopping.onStateChanged _, hstopping.onStateChanged_channels _⟩
    · rw [if_neg hcode]
      exact ⟨hstopping, .inl rfl⟩

theorem sendPacket (h : s.Sound) (payload : Bytes) :
    (s.sendPacket E payload).1.Sound ∧
      ((s.sendPacket E payload).1.handler.channels = s.handler.channels ∨
        (s.sendPacket E payload).1.handler.channels = []) := by
  unfold ForwardingStream.sendPacket reliableHandlerWrite
  split_ifs
  · exact ⟨h, .inl rfl⟩
  · cases E.stop with
    | none => exact ⟨h, .inl rfl⟩
    | some error => exact h.iceHandlerStop error

theorem sendPacket_get (h : s.Sound) {payload : Bytes}
    (hget : channelsGet (s.sendPacket E payload).1.handler.channels id = some ch) :
    channelsGet s.handler.channels id = some ch := by
  rcases (h.sendPacket payload (E := E)).2 with hsame | hnone
  · rwa [hsame] at hget
  · rw [hnone] at hget
    cases hget

end Sound

theorem sendPacket_eq_self {s : ForwardingStream} {E : WorkerEnv} (hstops : ¬s.Stops E)
    (payload : Bytes) : (s.sendPacket E payload).1 = s := by
  unfold sendPacket reliableHandlerWrite
  split_ifs with hstate
  · rfl
  · cases hstop : E.stop with
    | none => rfl
    | some error =>
      have hstopping : s.stopping = true := by
        by_contra hne
        exact hstops ⟨not_not.mp hstate, Bool.eq_false_iff.mpr hne, by rw [hstop]; rfl⟩
      simp only [Option.elim_some, iceHandlerStop, hstopping, if_true]

end ForwardingStream

end Carrier.Session
