import Carrier.Session.TcpLink

/-! The limits of a pseudo-TCP socket, whoever sends the packets that arrive: how long it waits, how
often it sends a segment, how large a segment is. -/
namespace Carrier.Session
open Carrier.Lib PseudoTcpSocket

/-- A socket within its limits, at a time when its clock has not passed `T`. -/
structure Limited (T : ℕ) (s : PseudoTcpSocket) : Prop where
  currentTime : s.timing.currentTime = 0
  ackDelay : s.timing.ackDelay = DEFAULT_ACK_DELAY
  tAck : s.timing.tAck.toNat ≤ T
  rtoBase : s.timing.rtoBase.toNat ≤ T
  lastsend : s.outgoing.lastsend.toNat ≤ T
  rxRto : 1000 ≤ s.timing.rxRto.toNat ∧ s.timing.rxRto.toNat ≤ 60000
  mss : Sized s.congestion.mss
  mtuAdvise : s.congestion.mtuAdvise = DEF_MTU
  ssthresh : s.congestion.ssthresh ≠ 0
  rwndScale : s.incoming.rwndScale = 0
  tried : Tried s.outgoing.slist s.outgoing.nextId

def ClosedAt (stream : Bytes) (s : PseudoTcpSocket) : Prop := s.state = .closed ∧ s.log.written = stream

/-- What every call does: the socket stays within its limits, and closed if it was, with the stream it
had then. -/
structure Onward (T : ℕ) (s s' : PseudoTcpSocket) : Prop where
  limited : Limited T s'
  closed : ∀ stream, ClosedAt stream s → ClosedAt stream s'

/-- What a call does that no packet is the reason of: what waits for its acknowledgment waits on. -/
structure Awaiting (T : ℕ) (s s' : PseudoTcpSocket) : Prop extends Onward T s s' where
  waiting : Waiting s.outgoing.slist s'.outgoing.slist

section Relations

variable {T : ℕ} {now : BitVec 32} {E : TcpEnv} {s s' s'' : PseudoTcpSocket}

theorem Onward.refl (h : Limited T s) : Onward T s s := ⟨h, fun _ => id⟩

theorem Onward.trans (h : Onward T s s') (h' : Onward T s' s'') : Onward T s s'' :=
  ⟨h'.limited, fun stream => h'.closed stream ∘ h.closed stream⟩

theorem Onward.stays (h : Onward T s s') (hclosed : s.state = .closed) : s'.state = .closed :=
  (h.closed s.log.written ⟨hclosed, rfl⟩).1

theorem Awaiting.refl (h : Limited T s) : Awaiting T s s := ⟨.refl h, .refl _⟩

theorem Awaiting.trans (h : Awaiting T s s') (h' : Awaiting T s' s'') : Awaiting T s s'' :=
  ⟨h.toOnward.trans h'.toOnward, h.waiting.trans h'.waiting⟩

theorem Limited.times (h : Limited T s) : Timed T s := ⟨h.tAck, h.rtoBase, h.lastsend⟩

theorem Sent.awaiting (hsent : Sent now s s') (hnow : now.toNat ≤ T) (h : Limited T s) :
    Awaiting T s s' where
  limited :=
    { currentTime := hsent.currentTime.trans h.currentTime
      ackDelay := hsent.ackDelay.trans h.ackDelay
      tAck := (hsent.times T hnow h.times).tAck
      rtoBase := (hsent.times T hnow h.times).rtoBase
      lastsend := (hsent.times T hnow h.times).lastsend
      rxRto := by
        rw [hsent.rxRto]
        exact h.rxRto
      mss := hsent.mss h.mss
      mtuAdvise := hsent.mtuAdvise.trans h.mtuAdvise
      ssthresh := by
        rw [hsent.ssthresh]
        exact h.ssthresh
      rwndScale := by
        rw [hsent.incoming]
        exact h.rwndScale
      tried := hsent.tried h.tried }
  closed stream := fun hclosed => ⟨hsent.closed hclosed.1, hsent.written.trans hclosed.2⟩
  waiting := hsent.waiting

theorem Limited.reading (h : Limited T s) (hclock : ∀ n, (E.clock n).toNat ≤ T) :
    (s.getCurrentTime E).1.toNat ≤ T := by
  rw [getCurrentTime, if_neg (not_not.mpr h.currentTime)]
  exact hclock _

end Relations

section Calls

variable {T : ℕ} {E : TcpEnv} {s : PseudoTcpSocket} {now : BitVec 32}

/-- More data in the last segment, or in a new one behind it. -/
theorem enqueue_tried (h : Tried s.outgoing.slist s.outgoing.nextId) (data : Bytes) (flags : UInt8) :
    Tried (enqueue s data flags).outgoing.slist (enqueue s data flags).outgoing.nextId ∧
      Waiting s.outgoing.slist (enqueue s data flags).outgoing.slist := by
  unfold enqueue
  split_ifs with happend
  · obtain ⟨g, hlast, -⟩ := (Option.any_eq_true ..).mp happend
    obtain ⟨front, hslist⟩ := List.getLast?_eq_some_iff.mp hlast
    rw [hslist] at h
    dsimp only
    rw [hslist, modify_last]
    constructor
    · refine ⟨?_, fun x hx => ?_, fun x hx => ?_⟩
      · rw [List.map_append, List.map_singleton]
        have hnodup := h.nodup
        rw [List.map_append, List.map_singleton] at hnodup
        exact hnodup
      · obtain hx | hx := List.mem_append.mp hx
        · exact h.fresh x (List.mem_append_left _ hx)
        · rw [List.mem_singleton.mp hx]
          exact h.fresh g List.mem_concat_self
      · obtain hx | hx := List.mem_append.mp hx
        · exact h.xmit x (List.mem_append_left _ hx)
        · rw [List.mem_singleton.mp hx]
          exact h.xmit g List.mem_concat_self
    · intro x hx
      cases front with
      | nil =>
        obtain rfl := Option.some.inj hx
        exact ⟨_, rfl, rfl, le_rfl⟩
      | cons y front => exact ⟨x, hx, rfl, le_rfl⟩
  · refine ⟨h.add rfl (Nat.zero_le 30) (List.perm_append_singleton _ _), ?_⟩
    intro g hg
    refine ⟨g, ?_, rfl, le_rfl⟩
    dsimp only
    rw [List.head?_append, Option.mem_def.mp hg]
    rfl

theorem queue_awaiting (h : Limited T s) {data : Bytes} {flags : UInt8}
    (hdata : data = [] ∨ s.state ≠ .closed) : Gives (fun r => Awaiting T s r.2) (s.queue data flags) := by
  by_cases hfits : flags = FLAG_NONE ∨ data.length ≤ s.outgoing.sbuf.getWriteRemaining
  · obtain ⟨htried, hwaiting⟩ := enqueue_tried h.tried (kept s data) flags
    rw [queue_eq hfits, enqueue_same]
    refine gives_some ⟨⟨{ h with tried := htried }, ?_⟩, hwaiting⟩
    rintro stream ⟨hclosed, hstream⟩
    have hnil : kept s data = [] := by
      rw [hdata.resolve_right (not_not.mpr hclosed)]
      exact List.take_nil
    refine ⟨hclosed, ?_⟩
    dsimp only
    rw [hnil, List.take_nil, List.append_nil]
    exact hstream
  · obtain ⟨hne, hlong⟩ := not_or.mp hfits
    unfold queue
    dsimp only
    rw [if_pos (not_le.mp hlong), if_neg hne]
    exact gives_none

theorem queueConnectMessage_awaiting (h : Limited T s) (hopen : s.state ≠ .closed) :
    Gives (Awaiting T s) s.queueConnectMessage := by
  have hwnd : Limited T { s with outgoing.sndWnd := BitVec.ofNat 32 s.connectMessage.length } :=
    { h with }
  unfold queueConnectMessage
  dsimp only
  refine (queue_awaiting hwnd (.inr hopen)).bind (fun r hr => gives_some ?_)
  exact ⟨⟨hr.limited, hr.closed⟩, hr.waiting⟩

theorem queueRstMessage_awaiting (h : Limited T s) : Gives (Awaiting T s) s.queueRstMessage := by
  unfold queueRstMessage
  split_ifs with hsupport
  · exact (queue_awaiting h (.inl rfl)).map (fun r hr => hr)
  · exact gives_none

theorem queueFinMessage_awaiting (h : Limited T s) : Gives (Awaiting T s) s.queueFinMessage := by
  unfold queueFinMessage
  split_ifs with hsupport
  · exact (queue_awaiting h (.inl rfl)).map (fun r hr => hr)
  · exact gives_none

/-- Another state, which a closed socket does not get to. -/
theorem setState_awaiting (h : Limited T s) {newState : PseudoTcpState} (hclosed : s.state = .closed →
      newState = .closed ∨ PseudoTcpState.transition .closed newState = false) :
    Gives (Awaiting T s) (s.setState newState) := by
  unfold setState
  split_ifs with hsame hstep
  · exact gives_some (.refl h)
  · refine gives_some ⟨⟨{ h with }, fun stream hclosedAt => ⟨?_, hclosedAt.2⟩⟩, .refl _⟩
    obtain ⟨hstate, -⟩ := hclosedAt
    rw [hstate] at hstep
    exact (hclosed hstate).resolve_right (fun hnot => absurd (hstep.symm.trans hnot) (by decide))
  · exact gives_none

theorem setStateClosed_awaiting (h : Limited T s) (err : SocketError) :
    Gives (Awaiting T s) (s.setStateClosed err) := by
  have hsent : Gives (fun s' => Sent 0 s s' ∧ s'.state = .closed) (s.setStateClosed err) :=
    setStateClosed_sent ⟨s.state, rfl⟩ err
  exact hsent.imp (fun s₁ hs₁ => hs₁.1.awaiting (Nat.zero_le T) h)

theorem closeStates_awaiting (h : Limited T s) (err : SocketError) :
    Gives (fun s' => Awaiting T s s' ∧ s'.state = .closed) (s.closeStates err) := by
  have hsent : Gives (fun s' => Sent 0 s s' ∧ s'.state = .closed) (s.closeStates err) :=
    closeStates_sent s err
  exact hsent.imp (fun s₁ hs₁ => ⟨hs₁.1.awaiting (Nat.zero_le T) h, hs₁.2⟩)

theorem adjustMTU_awaiting (h : Limited T s) : Awaiting T s s.adjustMTU := by
  have hmss : s.congestion.mtuAdvise - PACKET_OVERHEAD = 1284 := by
    rw [h.mtuAdvise]
    decide
  unfold adjustMTU
  dsimp only
  rw [hmss]
  refine ⟨⟨{ h with mss := ?_, ssthresh := ?_ }, fun _ => id⟩, .refl _⟩
  · change Sized 1284
    unfold Sized
    decide
  · intro hzero
    have hlow : ((2 : BitVec 32) * 1284).toNat ≤ (maxOf s.congestion.ssthresh (2 * 1284)).toNat := by
      rw [toNat_maxOf]
      exact le_max_right _ _
    dsimp only at hzero
    rw [hzero] at hlow
    exact absurd hlow (by decide)

section Clock

variable (hclock : ∀ n, (E.clock n).toNat ≤ T)
include hclock

theorem attemptSend_awaiting (h : Limited T s) (sflags : SendFlags) :
    Gives (Awaiting T s) (s.attemptSend E sflags) :=
  attemptSend_sent.imp (fun _ hs => hs.awaiting (h.reading hclock) h)

theorem closedown_awaiting (h : Limited T s) (err : SocketError) (source : ClosedownSource) :
    Gives (fun s' => Awaiting T s s' ∧ s'.state = .closed) (s.closedown E err source) := by
  have hclose : ∀ s₁, Awaiting T s s₁ →
      Gives (fun s' => Awaiting T s s' ∧ s'.state = .closed) (s₁.closeStates err) :=
    fun s₁ hs₁ => (closeStates_awaiting hs₁.limited err).imp (fun s₂ hs₂ => ⟨hs₁.trans hs₂.1, hs₂.2⟩)
  unfold closedown
  by_cases hsource : source = .locally
  · rw [if_pos hsource]
    by_cases hsupport : s.supportFinAck = true
    · rw [if_pos hsupport]
      refine (queueRstMessage_awaiting h).bind (fun s₁ hs₁ => ?_)
      have hsent := attemptSend_awaiting hclock hs₁.limited .rst
      exact hsent.bind (fun s₂ hs₂ => hclose s₂ (hs₁.trans hs₂))
    · rw [if_neg hsupport]
      exact hclose _ ⟨⟨{ h with }, fun _ => id⟩, .refl _⟩
  · rw [if_neg hsource]
    exact hclose s (.refl h)

theorem connect_awaiting (h : Limited T s) : Gives (fun r => Awaiting T s r.2) (s.connect E) := by
  unfold connect
  by_cases hstate : s.state = .listen
  · rw [if_neg (not_not.mpr hstate)]
    have hset : s.setState .synSent = some { s with state := .synSent } :=
      setState_eq (by rw [hstate]; rfl)
    have hs₁ := setState_awaiting h (fun hclosed => nomatch hstate.symm.trans hclosed) _ hset
    rw [hset]
    refine (queueConnectMessage_awaiting hs₁.limited nofun).bind (fun s₂ hs₂ => ?_)
    refine (attemptSend_awaiting hclock hs₂.limited .none).bind (fun s₃ hs₃ => ?_)
    exact gives_some ((hs₁.trans hs₂).trans hs₃)
  · rw [if_pos hstate]
    exact gives_some ⟨⟨{ h with }, fun _ => id⟩, .refl _⟩

theorem send_awaiting (h : Limited T s) (buffer : Bytes) :
    Gives (fun r => Awaiting T s r.2) (s.send E buffer) := by
  unfold send
  by_cases hstate : s.state ≠ .established
  · rw [if_pos hstate]
    exact gives_some ⟨⟨{ h with }, fun _ => id⟩, .refl _⟩
  · rw [if_neg hstate]
    by_cases hfull : s.outgoing.sbuf.getWriteRemaining = 0
    · rw [if_pos hfull]
      exact gives_some ⟨⟨{ h with }, fun _ => id⟩, .refl _⟩
    · rw [if_neg hfull]
      have hopen : s.state ≠ .closed := by
        rw [not_not.mp hstate]
        exact nofun
      refine (queue_awaiting h (.inr hopen)).bind ?_
      rintro ⟨written, s₁⟩ hs₁
      refine (attemptSend_awaiting hclock hs₁.limited .none).bind (fun s₂ hs₂ => gives_some ?_)
      have hsent := Awaiting.trans hs₁ hs₂
      dsimp only
      split_ifs with hpart
      · exact ⟨⟨{ hsent.limited with }, hsent.closed⟩, hsent.waiting⟩
      · exact hsent

theorem shutdownSocket_awaiting (h : Limited T s) (how : PseudoTcpShutdown) :
    Gives (Awaiting T s) (s.shutdownSocket E how) := by
  have hquick {shutdown : Shutdown} {shutdownReads : Bool} :
      Awaiting T s { s with shutdown := shutdown, shutdownReads := shutdownReads } :=
    ⟨⟨{ h with }, fun _ => id⟩, .refl _⟩
  have hfin : ∀ s₁, Awaiting T s s₁ → ∀ newState, PseudoTcpState.transition .closed newState = false →
      Gives (Awaiting T s) (s₁.queueFinMessage.bind (fun s => (s.attemptSend E .fin).bind
        (fun s => s.setState newState))) := by
    intro s₁ hs₁ newState hnew
    refine (queueFinMessage_awaiting hs₁.limited).bind (fun s₂ hs₂ => ?_)
    refine (attemptSend_awaiting hclock hs₂.limited .fin).bind (fun s₃ hs₃ => ?_)
    have hset := setState_awaiting hs₃.limited (fun _ => .inr hnew)
    exact hset.imp (fun s₄ hs₄ => ((hs₁.trans hs₂).trans hs₃).trans hs₄)
  unfold shutdownSocket
  by_cases hsupport : ¬s.supportFinAck = true
  · rw [if_pos hsupport]
    split_ifs with hnone
    · exact gives_some hquick
    · exact gives_some (.refl h)
  · rw [if_neg hsupport]
    have hreads : Awaiting T s (if how = .wr then s else { s with shutdownReads := true }) := by
      split_ifs with hwr
      · exact .refl h
      · exact hquick
    dsimp only
    generalize (if how = .wr then s else { s with shutdownReads := true }) = s₁ at hreads ⊢
    by_cases hrd : how = .rd
    · rw [if_pos hrd]
      exact gives_some hreads
    · rw [if_neg hrd]
      have hclosing : Gives (Awaiting T s) (s₁.setStateClosed .ok) :=
        (setStateClosed_awaiting hreads.limited .ok).imp (fun s₂ hs₂ => hreads.trans hs₂)
      have hopen : Gives (Awaiting T s) (if 0 < s₁.incoming.rbuf.getBuffered then
          s₁.closedown E .ECONNABORTED .locally else s₁.queueFinMessage.bind (fun s =>
            (s.attemptSend E .fin).bind (fun s => s.setState .finWait1))) := by
        split_ifs with hunread
        · have hdown := closedown_awaiting hclock hreads.limited .ECONNABORTED .locally
          exact hdown.imp (fun s₂ hs₂ => hreads.trans hs₂.1)
        · exact hfin s₁ hreads .finWait1 rfl
      cases s₁.state with
      | listen => exact hclosing
      | synSent => exact hclosing
      | synReceived => exact hopen
      | established => exact hopen
      | closeWait => exact hfin s₁ hreads .lastAck rfl
      | closing => exact gives_some hreads
      | closed => exact gives_some hreads
      | finWait1 => exact gives_some hreads
      | finWait2 => exact gives_some hreads
      | timeWait => exact gives_some hreads
      | lastAck => exact gives_some hreads

theorem close_awaiting (h : Limited T s) (force : Bool) : Gives (Awaiting T s) (s.close E force) := by
  unfold close
  split_ifs with hforce
  · exact (closedown_awaiting hclock h .ECONNABORTED .locally).imp (fun _ hs => hs.1)
  · exact shutdownSocket_awaiting hclock h .rdwr

theorem appCall_awaiting (h : Limited T s) (k : AppCall) : Gives (Awaiting T s) (s.appCall E k) := by
  cases k with
  | send buffer => exact (send_awaiting hclock h buffer).map (fun _ hr => hr)
  | close => exact close_awaiting hclock h true

theorem setStateEstablished_awaiting (h : Limited T s) :
    Gives (Awaiting T s) (s.setStateEstablished E) := by
  unfold setStateEstablished
  refine (setState_awaiting h (fun _ => .inr rfl)).bind (fun s₁ hs₁ => ?_)
  have hopened : Awaiting T s (s₁.adjustMTU.call .opened) := by
    have hadjusted := hs₁.trans (adjustMTU_awaiting hs₁.limited)
    exact ⟨⟨{ hadjusted.limited with }, hadjusted.closed⟩,
      hadjusted.waiting⟩
  refine Gives.foldlM (fun s₂ k hs₂ => ?_) hopened
  exact (appCall_awaiting hclock hs₂.limited k).imp (fun s₃ hs₃ => hs₂.trans hs₃)

end Clock

end Calls

section Clock

variable {T : ℕ} {E : TcpEnv} {s : PseudoTcpSocket} {now : BitVec 32}

theorem maxOf_mss_ne {a mss : BitVec 32} (hmss : Sized mss) : maxOf a (2 * mss) ≠ 0 := by
  intro hzero
  have hmax := toNat_maxOf a (2 * mss)
  unfold Sized at hmss
  rw [hzero] at hmax
  bv_omega

theorem minOf_rto {limit rto : BitVec 32} (hlimit : 1000 ≤ limit.toNat ∧ limit.toNat ≤ 60000)
    (hrto : 1000 ≤ rto.toNat ∧ rto.toNat ≤ 60000) :
    1000 ≤ (minOf limit (rto * 2)).toNat ∧ (minOf limit (rto * 2)).toNat ≤ 60000 := by
  rw [toNat_minOf]
  bv_omega

theorem backOff_awaiting (h : Limited T s) (hnow : now.toNat ≤ T) : Awaiting T s (s.backOff now) := by
  have hlimit : 1000 ≤ (if s.connecting then DEF_RTO else MAX_RTO).toNat ∧
      (if s.connecting then DEF_RTO else MAX_RTO).toNat ≤ 60000 := by
    split_ifs <;> decide
  refine ⟨⟨{ h with rtoBase := hnow, rxRto := ?_, ssthresh := ?_ }, fun _ => id⟩, .refl _⟩
  · exact minOf_rto hlimit h.rxRto
  · exact maxOf_mss_ne h.mss

/-- The timer of the retransmissions has expired. -/
def RtoExpired (s : PseudoTcpSocket) (now : BitVec 32) : Prop :=
  s.timing.rtoBase ≠ 0 ∧ passed (s.timing.rtoBase + s.timing.rxRto) now

instance (s : PseudoTcpSocket) (now : BitVec 32) : Decidable (RtoExpired s now) :=
  inferInstanceAs (Decidable (_ ∧ _))

/-- The segment that has waited longest has been sent once more. -/
def Retried (s s' : PseudoTcpSocket) : Prop :=
  ∃ g' ∈ s'.outgoing.slist.head?, 0 < g'.xmit ∧ ∀ g ∈ s.outgoing.slist.head?, g.xmit < g'.xmit

theorem Retried.waiting {s' s'' : PseudoTcpSocket} (h : Retried s s')
    (h' : Waiting s'.outgoing.slist s''.outgoing.slist) : Retried s s'' := by
  obtain ⟨g', hg', hpos, hlt⟩ := h
  obtain ⟨g'', hg'', -, hle⟩ := h' g' hg'
  exact ⟨g'', hg'', hpos.trans_le hle, fun g hg => (hlt g hg).trans_le hle⟩

theorem Retried.after {s' s'' : PseudoTcpSocket} (h : Waiting s.outgoing.slist s'.outgoing.slist)
    (h' : Retried s' s'') : Retried s s'' := by
  obtain ⟨g'', hg'', hpos, hlt⟩ := h'
  refine ⟨g'', hg'', hpos, fun g hg => ?_⟩
  obtain ⟨g', hg', -, hle⟩ := h g hg
  exact hle.trans_lt (hlt g' hg')

/-- A timer that has expired is the reason for another try, or for the end. -/
theorem clockRetransmit_awaiting (hclock : ∀ n, (E.clock n).toNat ≤ T) (h : Limited T s)
    (hnow : now.toNat ≤ T) : Gives (fun r => Awaiting T s r.2 ∧ (r.1 = false → r.2.state = .closed) ∧
      (RtoExpired s now → r.2.state ≠ .closed → Retried s r.2)) (s.clockRetransmit E now) := by
  unfold clockRetransmit
  by_cases hexpired : s.timing.rtoBase ≠ 0 ∧ passed (s.timing.rtoBase + s.timing.rxRto) now
  · rw [if_pos hexpired]
    cases hhead : s.outgoing.slist.head? with
    | none => exact gives_none
    | some g =>
      refine transmit_sent.bind ?_
      rintro ⟨err, s₁⟩ ⟨hsent, htried⟩
      have hawaiting := Sent.awaiting hsent hnow h
      dsimp only at htried ⊢
      by_cases herr : err = .ok
      · rw [if_neg (not_not.mpr herr)]
        obtain ⟨g', hg', -, hlt⟩ := htried g hhead rfl herr
        refine gives_some ⟨hawaiting.trans (backOff_awaiting hawaiting.limited hnow), ?_, ?_⟩
        · exact fun heq => nomatch heq
        · intro _ _
          refine ⟨g', hg', (Nat.zero_le _).trans_lt hlt, fun x hx => ?_⟩
          obtain rfl := Option.some.inj (hhead.symm.trans hx)
          exact hlt
      · rw [if_pos herr]
        refine (closedown_awaiting hclock hawaiting.limited err .locally).bind ?_
        rintro s₂ ⟨hs₂, hclosed⟩
        exact gives_some ⟨hawaiting.trans hs₂, fun _ => hclosed, fun _ hopen => absurd hclosed hopen⟩
  · rw [if_neg hexpired]
    exact gives_some ⟨.refl h, (fun heq => nomatch heq), fun hcase => absurd hcase hexpired⟩

theorem clockProbe_awaiting (hclock : ∀ n, (E.clock n).toNat ≤ T) (h : Limited T s)
    (hnow : now.toNat ≤ T) : Gives (fun r => Awaiting T s r.2) (s.clockProbe E now) := by
  unfold clockProbe
  split_ifs with hprobe hlong
  · refine (closedown_awaiting hclock h .ECONNABORTED .locally).bind (fun s₁ hs₁ => ?_)
    exact gives_some hs₁.1
  · refine ackPacket_sent.bind (fun s₁ hs₁ => ?_)
    have hsent := hs₁.awaiting hnow h
    have hlimit : 1000 ≤ MAX_RTO.toNat ∧ MAX_RTO.toNat ≤ 60000 := by decide
    refine gives_some ⟨⟨{ hsent.limited with lastsend := hnow, rxRto := ?_ }, hsent.closed⟩, hsent.waiting⟩
    exact minOf_rto hlimit hsent.limited.rxRto
  · exact gives_some (.refl h)

theorem clockAck_awaiting (h : Limited T s) (hnow : now.toNat ≤ T) :
    Gives (Awaiting T s) (s.clockAck E now) := by
  unfold clockAck
  split_ifs with hack
  · exact ackPacket_sent.imp (fun s₁ hs₁ => hs₁.awaiting hnow h)
  · exact gives_some (.refl h)

theorem clockTimers_awaiting (hclock : ∀ n, (E.clock n).toNat ≤ T) (h : Limited T s) (hnow : now.toNat ≤ T) :
    Gives (fun s' => Awaiting T s s' ∧ (RtoExpired s now → s'.state ≠ .closed → Retried s s'))
      (clockTimers E s now) := by
  refine (clockRetransmit_awaiting hclock h hnow).bind ?_
  rintro ⟨go, s₁⟩ ⟨hs₁, hstop, hretried⟩
  dsimp only at hs₁ hstop hretried ⊢
  have hrest : ∀ s₂, Awaiting T s₁ s₂ →
      Awaiting T s s₂ ∧ (RtoExpired s now → s₂.state ≠ .closed → Retried s s₂) := by
    intro s₂ hs₂
    refine ⟨hs₁.trans hs₂, fun hexpired hopen => ?_⟩
    exact (hretried hexpired (fun hclosed => hopen (hs₂.stays hclosed))).waiting hs₂.waiting
  by_cases hgo : go = true
  · rw [if_neg (not_not.mpr hgo)]
    refine (clockProbe_awaiting hclock hs₁.limited hnow).bind ?_
    rintro ⟨go, s₂⟩ hs₂
    dsimp only at hs₂ ⊢
    by_cases hgo : go = true
    · rw [if_neg (not_not.mpr hgo)]
      exact (clockAck_awaiting hs₂.limited hnow).imp (fun s₃ hs₃ => hrest s₃ (hs₂.trans hs₃))
    · rw [if_pos hgo]
      exact gives_some (hrest s₂ hs₂)
  · rw [if_pos hgo]
    exact gives_some (hrest s₁ (.refl hs₁.limited))

theorem clockStates_awaiting (hclock : ∀ n, (E.clock n).toNat ≤ T) (h : Limited T s) :
    Gives (Awaiting T s) (s.clockStates E) := by
  have hlater : ∀ s₁, Awaiting T s s₁ → Gives (Awaiting T s)
      (if s₁.supportFinAck ∧ s₁.state = .lastAck then
        s₁.queueFinMessage.bind (fun s => s.attemptSend E .fin) else some s₁) := by
    intro s₁ hs₁
    split_ifs with hlast
    · refine (queueFinMessage_awaiting hs₁.limited).bind (fun s₂ hs₂ => ?_)
      exact (attemptSend_awaiting hclock hs₂.limited .fin).imp (fun s₃ hs₃ => (hs₁.trans hs₂).trans hs₃)
    · exact gives_some hs₁
  unfold clockStates
  by_cases hwait : s.supportFinAck ∧ s.state = .timeWait
  · rw [if_pos hwait]
    exact (setStateClosed_awaiting h .ok).bind hlater
  · rw [if_neg hwait]
    exact hlater s (.refl h)

/-- The clock finds the timer of the retransmissions expired. -/
def clockExpires (E : TcpEnv) (s : PseudoTcpSocket) : Bool :=
  let (now, s) := s.getCurrentTime E
  s.state ≠ .closed && (s.clockStates E).any (fun s => RtoExpired s now)

/-- The clock of a socket: an expired timer is the reason for another try, or for the end. -/
theorem notifyClock_awaiting (hclock : ∀ n, (E.clock n).toNat ≤ T) (h : Limited T s) :
    Gives (fun s' => Awaiting T s s' ∧ (clockExpires E s = true → s'.state ≠ .closed → Retried s s'))
      (s.notifyClock E) := by
  have hnow := h.reading hclock
  have hread : s.getCurrentTime E = (E.clock s.log.ticks, { s with log.ticks := s.log.ticks + 1 }) :=
    if_neg (not_not.mpr h.currentTime)
  unfold notifyClock clockExpires
  rw [hread] at hnow ⊢
  generalize E.clock s.log.ticks = now at hnow ⊢
  have hticked : Awaiting T s { s with log.ticks := s.log.ticks + 1 } :=
    ⟨⟨{ h with }, fun _ => id⟩, .refl _⟩
  generalize ({ s with log.ticks := s.log.ticks + 1 } : PseudoTcpSocket) = s₁ at hticked ⊢
  dsimp only
  by_cases hclosed : s₁.state = .closed
  · rw [if_pos hclosed, hclosed]
    exact gives_some ⟨hticked, fun hexpires => nomatch hexpires⟩
  · rw [if_neg hclosed]
    intro s' hs'
    obtain ⟨s₂, hs₂, hs'⟩ := Option.bind_eq_some_iff.mp hs'
    have hstates := hticked.trans (clockStates_awaiting hclock hticked.limited s₂ hs₂)
    obtain ⟨htimers, hretried⟩ := clockTimers_awaiting hclock hstates.limited hnow s' hs'
    refine ⟨hstates.trans htimers, fun hexpires hopen => ?_⟩
    have hexpired := (Bool.and_eq_true_iff.mp hexpires).2
    rw [hs₂, Option.any_some] at hexpired
    exact (hretried (of_decide_eq_true hexpired) hopen).after hstates.waiting

end Clock

end Carrier.Session
