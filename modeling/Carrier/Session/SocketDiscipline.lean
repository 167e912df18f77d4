import Carrier.Session.SocketCustody

/-! Every socket of a stream with port forwarding has one owner, is watched as long as its owner
reads from it, and is closed once. -/
namespace Carrier.Session
open Carrier.Lib Carrier.Common

namespace ForwardingStream

/-- The close of this channel does not stop the stream by its packet. -/
def ClosesSafely (E : WorkerEnv) (s : ForwardingStream) (cid : ℕ) : Prop :=
  ∀ ch ∈ channelsGet s.handler.channels cid,
    ch.type = .tcpPortForwarding → ch.remoteId ≠ 0 → ¬s.Stops E

instance (E : WorkerEnv) (s : ForwardingStream) (cid : ℕ) : Decidable (s.ClosesSafely E cid) :=
  inferInstanceAs (Decidable (∀ _ ∈ _, _))

/-- The packet asks for no TCP channel whose confirmation stops the stream. -/
def OpensSafely (E : WorkerEnv) (s : ForwardingStream) (p : Bytes) : Prop :=
  ∀ pb ∈ receivedPacket p, pb.type = PacketType.channelOpen.code →
    ∀ ch ∈ incomingChannel E.mux s.handler pb, ch.type = .tcpPortForwarding → ¬s.Stops E

instance (E : WorkerEnv) (s : ForwardingStream) (p : Bytes) : Decidable (s.OpensSafely E p) :=
  inferInstanceAs (Decidable (∀ _ ∈ _, _ → ∀ _ ∈ _, _))

/-- No write stops the stream while the call that makes it still has a socket of its own to close
or to watch. -/
def KeepsStream (E : WorkerEnv) (s : ForwardingStream) : Op → Prop
  | .accept _ =>
    0 ≤ (idsHeapAlloc s.handler.channelIds).2 → s.Stops E → 0 ≤ E.written
  | .readable cid => E.recv = [] → s.ClosesSafely E cid
  | .closeChannel cid => s.ClosesSafely E cid
  | .receive p => s.OpensSafely E p
  | _ => True

instance (E : WorkerEnv) (s : ForwardingStream) : ∀ op, Decidable (s.KeepsStream E op)
  | .accept _ => inferInstanceAs (Decidable (_ → _))
  | .readable _ => inferInstanceAs (Decidable (_ → _))
  | .closeChannel _ => inferInstanceAs (Decidable (ClosesSafely ..))
  | .receive _ => inferInstanceAs (Decidable (OpensSafely ..))
  | .start => inferInstanceAs (Decidable True)
  | .openPortforwarding _ => inferInstanceAs (Decidable True)
  | .closePortforwarding _ => inferInstanceAs (Decidable True)
  | .openChannel _ => inferInstanceAs (Decidable True)
  | .writeChannel _ _ => inferInstanceAs (Decidable True)
  | .pendChannel _ => inferInstanceAs (Decidable True)
  | .resumeChannel _ => inferInstanceAs (Decidable True)
  | .stateChanged _ => inferInstanceAs (Decidable True)
  | .handlerStop _ => inferInstanceAs (Decidable True)
  | .removeStream _ => inferInstanceAs (Decidable True)

/-- Besides, an `fd_set` has a place for the descriptor that the system hands out. -/
def Safe (s : ForwardingStream) (act : WorkerEnv × Op) : Prop :=
  (∀ fd ∈ act.1.socket, fd < fdSetSize) ∧ s.KeepsStream act.1 act.2

instance (s : ForwardingStream) (act : WorkerEnv × Op) : Decidable (s.Safe act) :=
  inferInstanceAs (Decidable (_ ∧ _))

namespace Sound

variable {s : ForwardingStream} {E : WorkerEnv} {ch : Channel} {pb : ProtocolBuffer} {id fd : ℕ}

/-- The close of a channel that has no socket, and that may have left the table. -/
theorem closeOther (h : s.Sound) (htype : ch.type ≠ .tcpPortForwarding)
    (hget : ∀ c ∈ channelsGet s.handler.channels ch.id, c.type ≠ .tcpPortForwarding) :
    (s.closeAndRemove E ch).Sound := by
  unfold ForwardingStream.closeAndRemove notifyChannelClose
  rw [if_neg htype]
  exact h.removeOther hget

theorem not_tcp_of_get (htype : ch.type ≠ .tcpPortForwarding)
    (hget : channelsGet s.handler.channels ch.id = some ch) :
    ∀ c ∈ channelsGet s.handler.channels ch.id, c.type ≠ .tcpPortForwarding := by
  intro c hc
  obtain rfl := Option.some.inj (hget.symm.trans hc)
  exact htype

/-- The answer to an `Open` packet for a channel that has been accepted. -/
theorem confirm (h : s.Sound) (hget : channelsGet s.handler.channels ch.id = some ch)
    (hsafe : ch.type = .tcpPortForwarding → ¬s.Stops E) :
    (if (s.sendPacket E []).2 < 0 then (s.sendPacket E []).1.closeAndRemove E ch
      else ((s.sendPacket E []).1.set
        (updateRemoteTimestamp E.mux { ch with status := .open })).notifyChannelOpened ch).Sound := by
  have hremote := h.mux.remoteId ch (mem_of_channelsGet hget)
  by_cases htype : ch.type = .tcpPortForwarding
  · rw [sendPacket_eq_self (hsafe htype)]
    split_ifs
    · exact h.closeAndRemove hget
    · exact h.opened hget rfl rfl hremote rfl
  · have hother := not_tcp_of_get htype hget
    have hsent := (h.sendPacket [] (E := E)).1
    split_ifs
    · exact hsent.closeOther htype fun c hc => hother c (h.sendPacket_get hc)
    · rw [notifyChannelOpened, if_neg htype]
      refine hsent.setChannel (updateRemoteTimestamp E.mux { ch with status := .open }) hremote
        (fun hst => by cases hst) fun c hc => ?_
      obtain rfl := Option.some.inj (hget.symm.trans (h.sendPacket_get hc))
      exact ⟨rfl, fun htcp => absurd htcp htype⟩

/-- The callback for a new channel leaves the stream alone, or connects a socket for TCP. -/
theorem channelOpen_cases (s : ForwardingStream) (E : WorkerEnv) (ch : Channel)
    (cookie : Option Bytes) :
    (∃ ok, s.notifyChannelOpen E ch cookie = (ok, s) ∧ (ch.type = .tcpPortForwarding → ok = false)) ∨
      ch.type = .tcpPortForwarding ∧ ∃ fd ∈ E.socket,
        s.notifyChannelOpen E ch cookie = (true, (s.socketOpen .data fd).setSock ch.id fd) := by
  unfold notifyChannelOpen
  cases ch.type with
  | user => exact .inl ⟨_, rfl, fun htype => by cases htype⟩
  | udpPortForwarding => exact .inl ⟨_, rfl, fun htype => by cases htype⟩
  | tcpPortForwarding =>
    dsimp only
    unfold tcpPortforwardingChannelOpen
    cases cookie with
    | none => exact .inl ⟨_, rfl, fun _ => rfl⟩
    | some cookie =>
      cases E.services with
      | none => exact .inl ⟨_, rfl, fun _ => rfl⟩
      | some services =>
        dsimp only
        split_ifs
        · exact .inl ⟨_, rfl, fun _ => rfl⟩
        · cases hfd : E.socket with
          | none => exact .inl ⟨_, rfl, fun _ => rfl⟩
          | some fd => exact .inr ⟨rfl, fd, rfl, rfl⟩

theorem notifyOpen (h : s.Sound) (hremote : pb.remoteChannelId < 2 ^ 16)
    (hfree : ∀ fd ∈ E.socket, ¬s.InUse fd) (hlt : ∀ fd ∈ E.socket, fd < fdSetSize)
    (hsafe : ∀ ch ∈ incomingChannel E.mux s.handler pb,
      ch.type = .tcpPortForwarding → ¬s.Stops E) : (s.notifyOpen E pb).Sound := by
  unfold ForwardingStream.notifyOpen
  cases hch : incomingChannel E.mux s.handler pb with
  | none =>
    dsimp only
    split_ifs
    · exact (h.sendPacket []).1
    · exact h
  | some ch =>
    obtain ⟨hfresh, -, -⟩ := incomingChannel_eq_some h.mux hremote hch
    have hget := channelsGet_enter s.handler ch
    dsimp only
    rcases channelOpen_cases (s.enter ch) E ch pb.cookie with
      ⟨ok, hopen, htcp⟩ | ⟨htype, fd, hfd, hopen⟩
    · rw [hopen]
      dsimp only
      by_cases htype : ch.type = .tcpPortForwarding
      · have hstops : ¬(s.enter ch).Stops E := hsafe ch hch htype
        rw [htcp htype, sendPacket_eq_self hstops]
        exact h.bounce hfresh
      · have henter := h.enterOther hfresh htype
        have hother := not_tcp_of_get (s := s.enter ch) htype hget
        cases ok with
        | false =>
          exact (henter.sendPacket []).1.removeOther fun c hc => hother c (henter.sendPacket_get hc)
        | true => exact henter.confirm hget fun htcp => absurd htcp htype
    · rw [hopen]
      exact (h.enterTcp hfresh htype (hfree fd hfd) (hlt fd hfd)).confirm hget
        fun _ => hsafe ch hch htype

theorem notifyChannel (h : s.Sound) (hget : channelsGet s.handler.channels ch.id = some ch)
    (hremote : pb.remoteChannelId < 2 ^ 16) : (s.notifyChannel E ch pb).Sound := by
  have hmem := mem_of_channelsGet hget
  have hch := h.mux.remoteId ch hmem
  have touch (ch' : Channel) (hid : ch'.id = ch.id) (htype : ch'.type = ch.type)
      (hrem : ch'.remoteId = ch.remoteId) (hst : ch'.status = ch.status) : (s.set ch').Sound := by
    apply h.setChannel ch' (hrem ▸ hch) (hst ▸ h.mux.status ch hmem)
    intro c hc
    rw [hid] at hc
    obtain rfl := Option.some.inj (hget.symm.trans hc)
    exact ⟨htype, fun _ => by rw [hst]⟩
  unfold ForwardingStream.notifyChannel
  cases PacketType.ofCode pb.type with
  | none => exact h
  | some t =>
    cases t with
    | channelOpen => exact h
    | channelOpenConfirmation =>
      dsimp only
      split_ifs
      · exact h
      · exact h.opened hget rfl rfl hremote rfl
      · exact h.closeAndRemove hget
    | channelData =>
      dsimp only
      split_ifs
      · exact h
      · exact touch _ rfl rfl rfl rfl
      · exact h.closeAndRemove hget
    | channelKeepAlive => exact touch _ rfl rfl rfl rfl
    | channelPending =>
      dsimp only
      split_ifs
      · exact h
      · exact h.pending hget rfl rfl hch rfl
    | channelResume =>
      dsimp only
      split_ifs
      · exact h
      · exact h.opened hget rfl rfl hch rfl
    | channelClose => exact h.closeAndRemove hget

theorem notifyPacket (h : s.Sound) {p : Bytes} {t : ForwardingStream}
    (hfree : ∀ fd ∈ E.socket, ¬s.InUse fd) (hlt : ∀ fd ∈ E.socket, fd < fdSetSize)
    (hsafe : s.OpensSafely E p) (ht : s.notifyPacket E p = some t) : t.Sound := by
  unfold ForwardingStream.notifyPacket at ht
  cases hp : receivedPacket p with
  | none =>
    rw [hp] at ht
    cases ht
    exact h
  | some pb =>
    have hremote := (receivedPacket_eq_some hp).1.remoteChannelId
    rw [hp] at ht
    dsimp only at ht
    split_ifs at ht with hdata hopen hzero
    · cases ht
      exact h
    · cases ht
      exact h.notifyOpen hremote hfree hlt (hsafe pb hp hopen)
    · cases hget : channelsGet s.handler.channels pb.localChannelId with
      | none =>
        rw [hget] at ht
        cases ht
        exact h
      | some ch =>
        rw [hget] at ht
        cases ht
        exact h.notifyChannel (channelsGet_id hget ▸ hget) hremote

theorem fresh_newChannel (hinv : s.handler.Inv) (hreliable : s.handler.reliable = true)
    (hpos : ¬(idsHeapAlloc s.handler.channelIds).2 < 0) (E : WorkerEnv) (type : ChannelType)
    (timeout : ℤ) : s.handler.Fresh (newChannel E.mux s.handler type timeout) :=
  ⟨(alloc_toNat hinv hpos).1, rfl, Nat.two_pow_pos 16, fun _ => hreliable⟩

theorem openUserChannel (h : s.Sound) (cookie : Option Bytes) (timeout : ℤ) :
    (s.openChannel E .user cookie timeout 0).1.Sound := by
  unfold ForwardingStream.openChannel
  dsimp only
  by_cases hneg : (idsHeapAlloc s.handler.channelIds).2 < 0
  · rw [if_pos hneg]
    exact h
  · have hfresh := fresh_newChannel h.mux h.reliable hneg E .user timeout
    have hne : (newChannel E.mux s.handler .user timeout).type ≠ .tcpPortForwarding := by
      intro htcp
      cases htcp
    have henter := h.enterOther hfresh hne
    have hother := not_tcp_of_get (s := s.enter _) hne (channelsGet_enter s.handler _)
    rw [if_neg hneg, if_neg (show ChannelType.user ≠ .tcpPortForwarding by decide)]
    split_ifs
    · exact (henter.sendPacket (cookie.elim [] (· ++ [0]))).1.removeOther fun c hc =>
        hother c (henter.sendPacket_get hc)
    · exact (henter.sendPacket (cookie.elim [] (· ++ [0]))).1

/-- A write succeeds only where the write of the reliable handler does. -/
theorem sendPacket_result (s : ForwardingStream) (E : WorkerEnv) (payload : Bytes) :
    (s.sendPacket E payload).2 < 0 ↔ s.state ≠ .connected ∨ E.written < 0 := by
  unfold ForwardingStream.sendPacket reliableHandlerWrite
  by_cases hstate : s.state ≠ .connected
  · have hneg := intError_neg .wrongState
    rw [if_pos hstate]
    dsimp only
    rw [if_pos hneg]
    exact iff_of_true hneg (.inl hstate)
  · rw [if_neg hstate]
    dsimp only
    rw [or_iff_right hstate]
    split_ifs with hneg
    · exact Iff.rfl
    · exact iff_of_false (by omega) hneg

/-- The creator closes the socket of a channel that never opened, and that the fd set never saw. -/
theorem abandon (h : s.Sound) (hget : channelsGet s.handler.channels ch.id = some ch)
    (htype : ch.type = .tcpPortForwarding) (hstatus : ch.status = .opening) :
    ((s.remove E ch.id).socketClose (s.sock ch.id)).Sound := by
  have hcustody := custody_tcp hget htype
  have hwatch : s.sock ch.id ∉ s.fdset.rfds := by
    rw [h.custody.mem_watched, not_or]
    refine ⟨h.custody.ne_event hcustody, ?_⟩
    rintro ⟨o, ho⟩
    have hself := h.custody.unique _ _ _ _ _ ho hcustody
    rw [hself, hcustody, hstatus] at ho
    cases ho
  have hclose := h.closeAndRemove (E := E) hget
  unfold ForwardingStream.closeAndRemove notifyChannelClose removeSocket fdsetRemoveSocket at hclose
  rw [if_pos htype, if_neg hwatch] at hclose
  exact hclose

/-- The end of an accept: if the `Open` packet of the new channel cannot be written, the socket is
closed. -/
theorem sendOpen (h : s.Sound) (hget : channelsGet s.handler.channels ch.id = some ch)
    (htype : ch.type = .tcpPortForwarding) (hstatus : ch.status = .opening)
    (hsafe : s.Stops E → 0 ≤ E.written) {cid : ℤ} (hcid : 0 < cid) (payload : Bytes)
    {r : ForwardingStream × ℤ} (hr : r = if (s.sendPacket E payload).2 < 0 then
      ((s.sendPacket E payload).1.remove E ch.id, (s.sendPacket E payload).2)
      else ((s.sendPacket E payload).1, cid)) :
    (if r.2 ≤ 0 then r.1.socketClose (s.sock ch.id) else r.1).Sound := by
  by_cases hrc : (s.sendPacket E payload).2 < 0
  · have hstops : ¬s.Stops E := by
      intro hstops
      rcases (sendPacket_result s E payload).mp hrc with hstate | hwritten
      · exact hstate hstops.1
      · exact absurd (hsafe hstops) (by omega)
    rw [if_pos hrc, sendPacket_eq_self hstops] at hr
    rw [hr]
    dsimp only
    rw [if_pos hrc.le]
    exact h.abandon hget htype hstatus
  · rw [if_neg hrc] at hr
    rw [hr]
    dsimp only
    rw [if_neg (by omega)]
    exact (h.sendPacket payload).1

/-- An accepted socket becomes that of a new channel, or is closed. -/
theorem handleTcpPortforwarding (h : s.Sound) (pf : PortForwarding)
    (hfree : ∀ fd ∈ E.socket, ¬s.InUse fd) (hlt : ∀ fd ∈ E.socket, fd < fdSetSize)
    (hsafe : 0 ≤ (idsHeapAlloc s.handler.channelIds).2 → s.Stops E → 0 ≤ E.written) :
    (s.handleTcpPortforwarding E pf).Sound := by
  unfold ForwardingStream.handleTcpPortforwarding
  cases hsock : E.socket with
  | none => exact h
  | some fd =>
    have hfree := hfree fd hsock
    dsimp only
    unfold ForwardingStream.openChannel
    dsimp only
    by_cases hneg : (idsHeapAlloc (s.socketOpen .data fd).handler.channelIds).2 < 0
    · have hlimit := intError_neg .limitExceeded
      rw [if_pos hneg]
      dsimp only
      rw [if_pos hlimit.le]
      exact h.openedClosed .data hfree
    · have hfresh := fresh_newChannel h.mux h.reliable hneg E .tcpPortForwarding 0
      have henter := h.enterTcp hfresh rfl hfree (hlt fd hsock)
      have hpos : 0 < (idsHeapAlloc s.handler.channelIds).2 := by
        have hid := (h.mux.fresh_id hfresh).1
        rw [hfresh.id]
        exact_mod_cast hid
      have hopen := henter.sendOpen (E := E) (channelsGet_enter s.handler _) rfl rfl (hsafe hpos.le) hpos
        (pf.service ++ [0]) rfl
      rw [if_neg hneg, if_pos rfl]
      simp only [setSock, Function.update_self] at hopen
      exact hopen

/-- A close reaches the socket of the channel as the channel left it, unless its own packet stops the
stream. -/
theorem closeChannel (h : s.Sound) {cid : ℕ} (hsafe : s.ClosesSafely E cid) :
    (s.closeChannel E cid).Sound := by
  unfold ForwardingStream.closeChannel
  cases hget : channelsGet s.handler.channels cid with
  | none => exact h
  | some ch =>
    have hself : channelsGet s.handler.channels ch.id = some ch := channelsGet_id hget ▸ hget
    dsimp only
    split_ifs with hremote
    · exact h.closeAndRemove hself
    · by_cases htype : ch.type = .tcpPortForwarding
      · rw [sendPacket_eq_self (hsafe ch hget htype hremote)]
        exact h.closeAndRemove hself
      · have hother := not_tcp_of_get htype hself
        exact (h.sendPacket []).1.closeOther htype fun c hc => hother c (h.sendPacket_get hc)

theorem sendOnChannel (h : s.Sound) (cid : ℕ) (payload : Bytes) (keeps : ℤ → Bool) :
    (s.sendOnChannel E cid payload keeps).Sound := by
  unfold ForwardingStream.sendOnChannel
  cases hget : channelsGet s.handler.channels cid with
  | none => exact h
  | some ch =>
    have hmem := mem_of_channelsGet hget
    have hself : channelsGet s.handler.channels ch.id = some ch := channelsGet_id hget ▸ hget
    dsimp only
    split_ifs
    · exact h
    · exact h
    · refine (h.sendPacket payload).1.setChannel (updateLocalTimestamp E.mux ch)
        (h.mux.remoteId ch hmem) (h.mux.status ch hmem) fun c hc => ?_
      obtain rfl := Option.some.inj (hself.symm.trans (h.sendPacket_get hc))
      exact ⟨rfl, fun _ => Iff.rfl⟩
    · exact (h.sendPacket payload).1

theorem writeChannel (h : s.Sound) (cid : ℕ) (data : Bytes) : (s.writeChannel E cid data).Sound := by
  unfold ForwardingStream.writeChannel
  split_ifs
  · exact (h.sendPacket data).1
  · exact h.sendOnChannel cid data _

theorem handleTcpPortforwardingChannel (h : s.Sound) {cid : ℕ}
    (hsafe : E.recv = [] → s.ClosesSafely E cid) :
    (s.handleTcpPortforwardingChannel E cid).Sound := by
  unfold ForwardingStream.handleTcpPortforwardingChannel
  split_ifs with heof
  · exact h.closeChannel (hsafe heof)
  · exact h.writeChannel cid E.recv

theorem custody_portforwarding {pf : PortForwarding}
    (hget : portforwardingsGet s.portforwardings pf.id = some pf) :
    s.custody (.portforwarding pf.id) = some (pf.sock, true) := by
  rw [ForwardingStream.custody, hget, Option.map_some]

/-- A new port forwarding is in the fd set from the start. -/
theorem enterPortforwarding (h : s.Sound) (pf : PortForwarding) (hnew : ¬s.pfIds.marked pf.id)
    (hmarked : ∀ i, (idsHeapAlloc s.pfIds).1.marked i ↔ i = pf.id ∨ s.pfIds.marked i)
    (hfree : ¬s.InUse pf.sock) (hlt : pf.sock < fdSetSize) :
    Sound { s with
      log := .opened .listening pf.sock :: s.log
      pfIds := (idsHeapAlloc s.pfIds).1
      portforwardings := putEntry (fun x => x.id = pf.id) s.portforwardings pf
      fdset := fdsetAddSocket s.fdset pf.sock } := by
  have hget := h.pfs.get_eq_none hnew
  have hput : putEntry (fun x => x.id = pf.id) s.portforwardings pf = s.portforwardings ++ [pf] :=
    putEntry_of_find_none hget
  have hnone : s.custody (.portforwarding pf.id) = none := by
    rw [ForwardingStream.custody, hget, Option.map_none]
  rw [InUse, not_or, Option.not_isSome_iff_eq_none] at hfree
  have hopen := (h.custody.opened hnone hfree.2 hfree.1).rewatched (Function.update_self ..) true
  rw [Function.update_idem, if_pos rfl] at hopen
  rw [hput, addSocket_rfds _ hlt]
  refine ⟨h.mux, h.reliable, h.pfs.append hnew hmarked, ?_, ?_⟩
  · have hcustody : Function.update s.custody (.portforwarding pf.id) (some (pf.sock, true)) =
        ForwardingStream.custody { s with
          log := .opened .listening pf.sock :: s.log
          pfIds := (idsHeapAlloc s.pfIds).1
          portforwardings := s.portforwardings ++ [pf]
          fdset := { s.fdset with rfds := insert pf.sock s.fdset.rfds } } := by
      funext o
      cases o with
      | channel _ => rw [Function.update_of_ne (by simp)]; rfl
      | portforwarding i =>
        rw [Function.update_apply]
        simp only [ForwardingStream.custody, portforwardingsGet_append hget,
          Owner.portforwarding.injEq]
        split_ifs
        · rfl
        · rfl
    rw [← hcustody]
    exact hopen
  · intro fd' hopen'
    simp only [FdEvent.current] at hopen'
    rw [Function.update_apply] at hopen'
    split_ifs at hopen' with hself
    · rw [hself]
      exact hlt
    · exact h.small fd' hopen'

/-- A listening socket becomes that of a new port forwarding, or is closed. -/
theorem portforwardingOpen (h : s.Sound) (service : Bytes) (hfree : ∀ fd ∈ E.socket, ¬s.InUse fd)
    (hlt : ∀ fd ∈ E.socket, fd < fdSetSize) : (s.portforwardingOpen E service).Sound := by
  unfold ForwardingStream.portforwardingOpen
  cases hsock : E.socket with
  | none => exact h
  | some fd =>
    have hfree := hfree fd hsock
    have hlt := hlt fd hsock
    have hclosed := h.openedClosed .listening hfree
    dsimp only
    split_ifs with hlisten hneg
    · exact hclosed
    · rcases idsHeapAlloc_marked h.pfs.heap with ⟨n, -, -, hn, -⟩ | ⟨hnone, -⟩
      · have hpos : ¬(idsHeapAlloc s.pfIds).2 < 0 := by omega
        exact absurd hneg hpos
      · have hids : (idsHeapAlloc s.pfIds).1 = s.pfIds := by rw [hnone]
        exact hclosed.congr rfl rfl rfl rfl hids rfl
    · rcases idsHeapAlloc_marked h.pfs.heap with ⟨n, -, -, hn, hnew, hmarked⟩ | ⟨hnone, -⟩
      · have hid : (idsHeapAlloc s.pfIds).2.toNat = n := by rw [hn, Int.toNat_natCast]
        have hmarked' : ∀ i, (idsHeapAlloc s.pfIds).1.marked i ↔
            i = (idsHeapAlloc s.pfIds).2.toNat ∨ s.pfIds.marked i := by
          intro i
          rw [hmarked i, hid]
        rw [← hid] at hnew
        exact h.enterPortforwarding ⟨_, tcpProtocol, service, fd⟩ hnew hmarked' hfree hlt
      · rw [socketOpen, hnone] at hneg
        exact absurd (show (-1 : ℤ) < 0 by decide) hneg

theorem portforwardingClose (h : s.Sound) (pfid : ℕ) : (s.portforwardingClose E pfid).Sound := by
  unfold ForwardingStream.portforwardingClose
  cases hget : portforwardingsGet s.portforwardings pfid with
  | none => exact h
  | some pf =>
    obtain rfl := portforwardingsGet_id hget
    have hclose := h.custody.closed (custody_portforwarding hget)
    have hmarked := h.pfs.marked pf (List.mem_of_find?_eq_some hget)
    refine ⟨h.mux, h.reliable, h.pfs.remove E.shift hmarked, ?_, ?_⟩
    · simp only [removeSocket, socketClose, removeSocket_rfds]
      have hcustody : Function.update s.custody (.portforwarding pf.id) none =
          ForwardingStream.custody { s with
            portforwardings := removeEntry (fun x => x.id = pf.id) s.portforwardings } := by
        funext o
        cases o with
        | channel _ => rw [Function.update_of_ne (by simp)]; rfl
        | portforwarding i =>
          rw [Function.update_apply]
          simp only [ForwardingStream.custody, portforwardingsGet_removeEntry,
            Owner.portforwarding.injEq]
          split_ifs
          · rfl
          · rfl
      rw [hcustody] at hclose
      exact hclose
    · intro fd hopen
      exact h.small_closed _ hopen

theorem multiplexHandlerStop (h : s.Sound) (error : ℤ) :
    (s.multiplexHandlerStop E error).Sound ∧
      (s.multiplexHandlerStop E error).handler.channels = [] := by
  obtain ⟨hclosed, hnone⟩ := h.closeChannels (E := E)
  have hstopped : Sound { s.closeChannels E with running := false } :=
    hclosed.congr rfl rfl rfl rfl rfl rfl
  obtain ⟨hsound, hchannels⟩ := hstopped.iceHandlerStop (E := E) error
  refine ⟨hsound, ?_⟩
  rcases hchannels with hsame | hempty
  · exact hsame.trans hnone
  · exact hempty

end Sound

/-- What port forwardings alone have. -/
def pfCustody (pfs : List PortForwarding) : Owner → Option (ℕ × Bool)
  | .portforwarding id => (portforwardingsGet pfs id).map (fun pf => (pf.sock, true))
  | .channel _ => none

/-- Once every port forwarding has closed its socket, all sockets are closed. -/
theorem closed_of_foldl {pfs : List PortForwarding} (hnd : (pfs.map PortForwarding.id).Nodup)
    {event : ℕ} {log : List (FdEvent SockKind)} {watched : Finset ℕ}
    (h : Custody Owner.kind event log watched (pfCustody pfs)) :
    FdEvent.Clean (pfs.foldl (fun log pf => .closed pf.sock :: log) log) ∧
      ∀ fd, FdEvent.current (pfs.foldl (fun log pf => .closed pf.sock :: log) log) fd = none := by
  induction pfs generalizing log watched with
  | nil =>
    refine ⟨h.clean, fun fd => h.current_eq_none fun o w ho => ?_⟩
    cases o <;> cases ho
  | cons pf pfs ih =>
    have hget : pfCustody (pf :: pfs) (.portforwarding pf.id) = some (pf.sock, true) := by
      rw [pfCustody, portforwardingsGet_of_mem hnd List.mem_cons_self, Option.map_some]
    rw [List.map_cons, List.nodup_cons] at hnd
    have hrest : Function.update (pfCustody (pf :: pfs)) (.portforwarding pf.id) none =
        pfCustody pfs := by
      funext o
      cases o with
      | channel _ => rw [Function.update_of_ne (by simp)]; rfl
      | portforwarding i =>
        rw [Function.update_apply]
        simp only [pfCustody, portforwardingsGet, Owner.portforwarding.injEq, List.find?_cons]
        split_ifs with hi
        · subst hi
          symm
          rw [Option.map_eq_none_iff, List.find?_eq_none]
          intro x hx hid
          exact hnd.1 (of_decide_eq_true hid ▸ List.mem_map_of_mem hx)
        · rw [decide_eq_false (Ne.symm hi)]
    have hclose := h.closed hget
    rw [hrest] at hclose
    exact ih hnd.2 hclose

/-- What is left of a stream that has been destroyed. -/
structure Over (s : ForwardingStream) : Prop where
  destroyed : s.destroyed = true
  channels : s.handler.channels = []
  clean : FdEvent.Clean s.log
  closed : ∀ fd, FdEvent.current s.log fd = none

theorem Sound.destroy {s : ForwardingStream} (h : s.Sound) (hnone : s.handler.channels = []) :
    s.multiplexHandlerDestroy.Over := by
  have hcustody : s.custody = pfCustody s.portforwardings := by
    funext o
    cases o with
    | portforwarding _ => rfl
    | channel _ => rw [ForwardingStream.custody, hnone]; rfl
  obtain ⟨hclean, hclosed⟩ := closed_of_foldl h.pfs.nodup (hcustody ▸ h.custody)
  exact ⟨rfl, rfl, hclean, hclosed⟩

theorem Sound.call {s t : ForwardingStream} {E : WorkerEnv} {op : Op} (h : s.Sound)
    (hfree : ∀ fd ∈ E.socket, ¬s.InUse fd) (hlt : ∀ fd ∈ E.socket, fd < fdSetSize)
    (hkeeps : s.KeepsStream E op) (ht : s.call E op = some t) : t.Sound ∨ t.Over := by
  cases op with
  | start =>
    cases ht
    exact .inl (h.congr rfl rfl rfl rfl rfl rfl)
  | openPortforwarding service =>
    cases ht
    exact .inl (h.portforwardingOpen service hfree hlt)
  | closePortforwarding pfid =>
    cases ht
    exact .inl (h.portforwardingClose pfid)
  | accept pfid =>
    rw [ForwardingStream.call] at ht
    split at ht
    · cases ht
    · split_ifs at ht
      · cases ht
        exact .inl (h.handleTcpPortforwarding _ hfree hlt hkeeps)
      · cases ht
        exact .inl h
  | readable cid =>
    rw [ForwardingStream.call] at ht
    split at ht
    · cases ht
    · split_ifs at ht
      cases ht
      exact .inl (h.handleTcpPortforwardingChannel hkeeps)
  | receive p => exact .inl (h.notifyPacket hfree hlt hkeeps ht)
  | openChannel cookie =>
    cases ht
    split_ifs
    · exact .inl (h.openUserChannel cookie 0)
    · exact .inl h
  | closeChannel cid =>
    cases ht
    exact .inl (h.closeChannel hkeeps)
  | writeChannel cid data =>
    cases ht
    exact .inl (h.writeChannel cid data)
  | pendChannel cid =>
    cases ht
    exact .inl (h.sendOnChannel cid [] _)
  | resumeChannel cid =>
    cases ht
    exact .inl (h.sendOnChannel cid [] _)
  | stateChanged state =>
    cases ht
    exact .inl (h.onStateChanged state)
  | handlerStop error =>
    cases ht
    exact .inl (h.iceHandlerStop error).1
  | removeStream last =>
    cases ht
    obtain ⟨hsound, hnone⟩ := h.multiplexHandlerStop (E := E) 0
    cases last with
    | false => exact .inl hsound
    | true => exact .inr (hsound.destroy hnone)

end ForwardingStream

end Carrier.Session
