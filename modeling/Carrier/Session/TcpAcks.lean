import Carrier.Session.TcpCalls

/-! Acknowledgments, retransmissions and the clock keep both streams of a pseudo-TCP socket. -/
namespace Carrier.Session
open Carrier.Lib PseudoTcpSocket

/-- A segment that a socket has sent. -/
def Arrived (Y : PseudoTcpSocket) (g : Segment) : Prop := ∃ p ∈ Y.log.packets, Segment.decode p = g

section Facts

variable {s Y : PseudoTcpSocket} {closing : Prop} {inc : Incoming} {stream : Bytes} {g : Segment}

theorem Arrived.genuine (hg : Arrived Y g) (h : Steady closing Y inc stream s) :
    Genuine Y.log.written Y.outgoing.sndNxt.toNat g := by
  obtain ⟨p, hp, rfl⟩ := hg
  exact h.back.packets p hp

theorem Arrived.told (hg : Arrived Y g) (h : Steady closing Y inc stream s) : Told Y.incoming.rcvNxt g := by
  obtain ⟨p, hp, rfl⟩ := hg
  exact h.out.told p hp

theorem Arrived.window (hg : Arrived Y g) (h : Steady closing Y inc stream s) (hclosing : ¬closing)
    (hstate : s.state ≠ .closed) :
    g.ack.toNat + g.wnd.toNat ≤ Y.incoming.rcvNxt.toNat + Y.incoming.rcvWnd.toNat := by
  obtain ⟨p, hp, rfl⟩ := hg
  exact (h.out.window hclosing hstate).packets p hp

/-- Once something has been sent, the windows of the congestion may be any. -/
theorem Linked.recongest (h : Steady closing Y inc stream s) (hnxt : s.outgoing.sndNxt.toNat ≠ 0)
    {c : Congestion} (hmss : c.mss = s.congestion.mss) (hmtu : c.mtuAdvise = s.congestion.mtuAdvise)
    (hssthresh : 0 < c.ssthresh.toNat) (hrecover : c.recover.toNat ≤ s.outgoing.sndNxt.toNat) :
    Steady closing Y inc stream { s with congestion := c } := by
  have hsize := h.out.mss
  have hadvise := h.out.mtu
  rw [← hmss] at hsize
  rw [← hmtu] at hadvise
  exact ⟨{ h.out with
    mss := hsize
    mtu := hadvise
    ssthresh := hssthresh
    recover := hrecover
    early := fun hzero => absurd hzero hnxt }, { h.back with }, h.incoming, h.written⟩

theorem ssthresh_pos (h : Steady closing Y inc stream s) (n : BitVec 32) :
    0 < (maxOf n (2 * s.congestion.mss)).toNat := by
  have hmss := h.out.mss
  have hmax := toNat_maxOf n (2 * s.congestion.mss)
  have htwice : (2 * s.congestion.mss).toNat = 2 * s.congestion.mss.toNat := by bv_omega
  omega

end Facts

section Acknowledgments

variable {E : TcpEnv} {s Y : PseudoTcpSocket} {inc : Incoming} {stream : Bytes} {g : Segment}
  {now : BitVec 32}

theorem SendQueue.sent_cons {slist sent unsent : List SSegment} {unsentSlist : List ℕ}
    {nextId una nxt len : ℕ} (h : SendQueue slist unsentSlist nextId una nxt len sent unsent)
    (hlt : una < nxt) : sent ≠ [] := by
  rintro rfl
  have heq : una = nxt := h.sentTiles
  omega

/-- The first segment once more. -/
theorem recoveryTransmit_spec (h : Steady False Y inc stream s)
    (hlt : s.outgoing.sndUna.toNat < s.outgoing.sndNxt.toNat) :
    Yields (fun r => Steady False Y inc stream r.2 ∧
        (r.1 = true → r.2.outgoing.sndNxt = s.outgoing.sndNxt))
      (s.recoveryTransmit E now) := by
  obtain ⟨sent, unsent, hqueue⟩ := h.out.queue
  have hne := hqueue.sent_cons hlt
  cases sent with
  | nil => exact absurd rfl hne
  | cons g sent =>
    have hhead : s.outgoing.slist.head? = some g := by
      rw [hqueue.slist]
      rfl
    unfold recoveryTransmit
    rw [hhead]
    refine (transmit_again h hqueue).bind ?_
    rintro ⟨err, s₁⟩ ⟨hsteady, hok⟩
    by_cases herr : err = .ok
    · dsimp only
      rw [if_neg (not_not.mpr herr)]
      exact yields_some ⟨hsteady, fun _ => (hok herr).nxt⟩
    · dsimp only
      rw [if_pos herr]
      refine (closedown_spec hsteady err .locally).bind ?_
      rintro s₂ ⟨hs₂, -⟩
      exact yields_some ⟨hs₂, fun hfalse => nomatch hfalse⟩

theorem scaledWindow_eq (h : Steady False Y inc stream s) (g : Segment) :
    s.scaledWindow E g = BitVec.ofNat 32 g.wnd.toNat := by
  rw [scaledWindow, h.out.swndScale, E.shift.shl_of_lt _ 0 (by decide), BitVec.shiftLeft_zero,
    BitVec.ofNat_toNat]

theorem window_lt (g : Segment) : (BitVec.ofNat 32 g.wnd.toNat).toNat = g.wnd.toNat ∧ g.wnd.toNat < 2 ^ 16 := by
  have hlt := g.wnd.isLt
  rw [BitVec.toNat_ofNat]
  omega

theorem SendBuffer.skip {sbuf : PseudoTcpFifo} {una n : ℕ} (h : SendBuffer sbuf una stream)
    (hle : n ≤ sbuf.dataLength) : SendBuffer (sbuf.skip n) (una + n) stream := by
  have hlength := h.length
  refine ⟨?_, h.capacity, ?_⟩
  · rw [sbuf.skip_dataLength]
    omega
  · intro i hi
    rw [sbuf.skip_dataLength] at hi
    rw [sbuf.skip_cell, h.cells _ (by omega), Nat.add_assoc]

/-- An acknowledgment of data under way frees them, and no `FIN` is among them. -/
theorem acknowledge_spec (h : Steady False Y inc stream s) (hg : Arrived Y g)
    (hlow : s.outgoing.sndUna.toNat < g.ack.toNat) (hhigh : g.ack.toNat ≤ s.outgoing.sndNxt.toNat) :
    Yields (fun r => r.2.1 = false ∧ Steady False Y inc stream r.2.2 ∧
        r.2.2.outgoing.sndNxt = s.outgoing.sndNxt)
      (s.acknowledge E g now) := by
  obtain ⟨sent, unsent, hqueue⟩ := h.out.queue
  obtain ⟨htold, hwhole, -⟩ := hg.told h
  have hbound : s.log.written.length < 2 ^ 31 - 1 := h.out.bound
  have hnxt := hqueue.nxt_le
  have hlength := h.out.buffer.length
  have hacked : (g.ack - s.outgoing.sndUna).toNat = g.ack.toNat - s.outgoing.sndUna.toNat := by bv_omega
  have hfin : ¬((g.ack - s.outgoing.sndUna).toNat = s.outgoing.sbuf.dataLength + 1 ∧
      s.state.hasSentFin = true) := by
    rintro ⟨heq, -⟩
    omega
  have hsum : s.outgoing.sndUna.toNat + (g.ack - s.outgoing.sndUna).toNat = g.ack.toNat := by omega
  have hctl : ∀ x ∈ sent, x.flags = FLAG_CTL →
      x.seq.toNat + x.len.toNat ≤ s.outgoing.sndUna.toNat + (g.ack - s.outgoing.sndUna).toNat := by
    intro x hx hflags
    obtain ⟨-, hseq, hlen⟩ | ⟨hbad, -⟩ | ⟨hbad, -⟩ := hqueue.stocked.allowed x (List.mem_append_left _ hx)
    · omega
    · rw [hflags] at hbad
      exact absurd hbad (by decide)
    · rw [hflags] at hbad
      exact absurd hbad (by decide)
  have hfree := freeSegments_spec s.congestion.largest hqueue.sentTiles (by omega) (by omega) hctl
    hqueue.xmit hqueue.stocked
  rw [← hqueue.slist, hsum] at hfree
  unfold acknowledge
  rw [scaledWindow_eq h]
  dsimp only [Option.bind_eq_bind]
  rw [if_neg hfin, decide_eq_false hfin, PseudoTcpFifo.consumeReadData_eq (by omega), Option.bind_some]
  refine hfree.bind ?_
  rintro ⟨slist, largest⟩ ⟨sent', rfl, htiles, hxmit, hstocked⟩
  obtain ⟨hwnd, hlt⟩ := window_lt g
  have hqueue' : SendQueue (sent' ++ unsent) s.outgoing.unsentSlist s.outgoing.nextId g.ack.toNat
      s.outgoing.sndNxt.toNat s.log.written.length sent' unsent :=
    ⟨rfl, hqueue.ids, hstocked, hxmit, hqueue.unsent_xmit, htiles, hqueue.unsentTiles⟩
  have hbuffer := h.out.buffer.skip (n := (g.ack - s.outgoing.sndUna).toNat) (by omega)
  rw [hsum] at hbuffer
  refine yields_some ⟨rfl, ⟨{ h.out with
    queue := ⟨sent', unsent, hqueue'⟩
    buffer := hbuffer
    fresh := ?_
    timer := ?_
    wnd_lt := hwnd.trans_lt hlt
    early := fun hzero => ?_
    una_le := htold
    window := ?_ }, { h.back with }, h.incoming, h.written⟩, rfl⟩
  · intro _ hlisten
    obtain ⟨-, -, hidle, -⟩ := h.idle hlisten
    omega
  · intro htimer
    apply hqueue'.head?
    apply hqueue'.sent_cons
    by_contra hall
    have heq : g.ack = s.outgoing.sndNxt := by bv_omega
    exact htimer (if_pos heq)
  · change s.outgoing.sndNxt.toNat = 0 at hzero
    omega
  · intro hclosing hstate
    have hin := hg.window h hclosing hstate
    refine { h.out.window hclosing hstate with wnd := ?_ }
    rw [hwnd]
    exact hin

/-- The numbers of the send queue are below the bound of the comparisons. -/
theorem Linked.nxt_lt (h : Steady False Y inc stream s) :
    s.outgoing.sndUna.toNat ≤ s.outgoing.sndNxt.toNat ∧ s.outgoing.sndNxt.toNat < seqBound := by
  obtain ⟨sent, unsent, hqueue⟩ := h.out.queue
  exact ⟨hqueue.una_le, hqueue.nxt_le.trans_lt h.out.bound⟩

/-- The congestion window never gets to a division by zero: it has reached the threshold there. -/
theorem ackWindow_spec {nAcked : BitVec 32} (h : Steady False Y inc stream s)
    (hnxt : s.outgoing.sndNxt.toNat ≠ 0) :
    Yields (fun r => Steady False Y inc stream r.2) (s.ackWindow E nAcked now) := by
  obtain ⟨hle, hlt⟩ := h.nxt_lt
  have hrecover := h.out.recover
  have hssthresh := h.out.ssthresh
  unfold ackWindow
  dsimp only
  by_cases hthird : 3 ≤ s.congestion.dupAcks
  · rw [if_pos hthird]
    by_cases hdone : LargerOrEqual s.outgoing.sndUna s.congestion.recover
    · rw [if_pos hdone]
      exact yields_some (h.recongest hnxt rfl rfl hssthresh hrecover)
    · rw [if_neg hdone]
      rw [largerOrEqual_iff (by omega) (by omega)] at hdone
      refine (recoveryTransmit_spec h (by omega)).bind ?_
      rintro ⟨go, s₁⟩ ⟨hs₁, hgo⟩
      cases go with
      | false => exact yields_some hs₁
      | true =>
        have hsame := hgo rfl
        have hnxt₁ : s₁.outgoing.sndNxt.toNat ≠ 0 := by
          rw [hsame]
          exact hnxt
        exact yields_some (hs₁.recongest hnxt₁ rfl rfl hs₁.out.ssthresh hs₁.out.recover)
  · rw [if_neg hthird]
    by_cases hslow : s.congestion.cwnd < s.congestion.ssthresh
    · rw [if_pos hslow]
      exact yields_some (h.recongest hnxt rfl rfl hssthresh hrecover)
    · have hcwnd : s.congestion.cwnd ≠ 0 := by bv_omega
      rw [if_neg hslow, if_neg hcwnd]
      exact yields_some (h.recongest hnxt rfl rfl hssthresh hrecover)

theorem updateRtt_spec {s' : PseudoTcpSocket} (h : Steady False Y inc stream s)
    (hs' : s.updateRtt g now = some s') :
    Steady False Y inc stream s' ∧ s'.outgoing = s.outgoing := by
  unfold updateRtt at hs'
  dsimp only at hs'
  by_cases hzero : g.tsecr = 0
  · rw [if_pos hzero] at hs'
    obtain rfl := Option.some.inj hs'
    exact ⟨h, rfl⟩
  · rw [if_neg hzero] at hs'
    by_cases hpast : 0 ≤ timeDiff now g.tsecr
    · rw [if_pos hpast] at hs'
      obtain rfl := Option.some.inj hs'
      exact ⟨⟨{ h.out with }, { h.back with }, h.incoming, h.written⟩, rfl⟩
    · rw [if_neg hpast] at hs'
      exact nomatch hs'

/-- What `process` goes on with behind the acknowledgment: no `FIN` has been acknowledged. -/
def NoFin (r : Option Bool × PseudoTcpSocket) : Prop := ∀ b, r.1 = some b → b = false

theorem valuableAck_spec (h : Steady False Y inc stream s) (hg : Arrived Y g)
    (hlow : s.outgoing.sndUna.toNat < g.ack.toNat) (hhigh : g.ack.toNat ≤ s.outgoing.sndNxt.toNat) :
    Yields (fun r => Steady False Y inc stream r.2 ∧ NoFin r) (s.valuableAck E g now) := by
  unfold valuableAck
  cases hrtt : s.updateRtt g now with
  | none => exact yields_some ⟨h, fun b hb => nomatch hb⟩
  | some s₁ =>
    obtain ⟨hs₁, hsame⟩ := updateRtt_spec h hrtt
    rw [← hsame] at hlow hhigh
    refine (acknowledge_spec hs₁ hg hlow hhigh).bind ?_
    rintro ⟨nAcked, isFinAck, s₂⟩ ⟨hfin, hs₂, hnxt⟩
    have hpos : s₂.outgoing.sndNxt.toNat ≠ 0 := by
      rw [hnxt]
      omega
    refine (ackWindow_spec hs₂ hpos).bind ?_
    rintro ⟨go, s₃⟩ hs₃
    refine yields_some ⟨hs₃, ?_⟩
    intro b hb
    change (if go then some isFinAck else none) = some b at hb
    split_ifs at hb with hgo
    obtain rfl := Option.some.inj hb
    exact hfin

theorem fastRetransmit_spec (h : Steady False Y inc stream s)
    (hlt : s.outgoing.sndUna.toNat < s.outgoing.sndNxt.toNat) :
    Yields (fun r => Steady False Y inc stream r.2) (s.fastRetransmit E g now) := by
  unfold fastRetransmit
  split_ifs with hfast
  · refine (recoveryTransmit_spec h hlt).bind ?_
    rintro ⟨go, s₁⟩ ⟨hs₁, hgo⟩
    cases go with
    | false => exact yields_some hs₁
    | true =>
      have hsame := hgo rfl
      have hnxt₁ : s₁.outgoing.sndNxt.toNat ≠ 0 := by
        rw [hsame]
        omega
      exact yields_some (hs₁.recongest hnxt₁ rfl rfl (ssthresh_pos hs₁ _) le_rfl)
  · exact yields_some h

/-- The window of a segment that acknowledges nothing new. -/
theorem Linked.rewindow (h : Steady False Y inc stream s) (hg : Arrived Y g)
    (hack : g.ack = s.outgoing.sndUna) :
    Steady False Y inc stream { s with outgoing.sndWnd := BitVec.ofNat 32 g.wnd.toNat } := by
  obtain ⟨hwnd, hlt⟩ := window_lt g
  obtain ⟨-, -, hwide⟩ := hg.told h
  obtain ⟨hle, -⟩ := h.nxt_lt
  refine ⟨{ h.out with wnd_lt := hwnd.trans_lt hlt, early := ?_, window := ?_ }, { h.back with },
    h.incoming, h.written⟩
  · intro hzero
    change s.outgoing.sndNxt.toNat = 0 at hzero
    obtain ⟨hdup, hcwnd, -⟩ := h.out.early hzero
    refine ⟨hdup, hcwnd, fun _ => ?_⟩
    change 7 ≤ (BitVec.ofNat 32 g.wnd.toNat).toNat
    rw [hwnd]
    apply hwide
    rw [hack]
    omega
  · intro hclosing hstate
    have hin := hg.window h hclosing hstate
    rw [hack, ← hwnd] at hin
    exact { h.out.window hclosing hstate with wnd := hin }

theorem duplicateAck_spec (h : Steady False Y inc stream s) (hg : Arrived Y g)
    (hack : g.ack = s.outgoing.sndUna) :
    Yields (fun r => Steady False Y inc stream r.2) (s.duplicateAck E g now) := by
  have hwindow := h.rewindow hg hack
  obtain ⟨hle, -⟩ := h.nxt_lt
  have hrecover := h.out.recover
  have hssthresh := h.out.ssthresh
  unfold duplicateAck
  rw [scaledWindow_eq h]
  dsimp only
  by_cases hdata : 0 < g.len
  · rw [if_pos hdata]
    exact yields_some hwindow
  · rw [if_neg hdata]
    by_cases hall : s.outgoing.sndUna = s.outgoing.sndNxt
    · rw [if_pos hall]
      refine yields_some ⟨{ hwindow.out with early := ?_ }, { hwindow.back with }, h.incoming, h.written⟩
      intro hzero
      obtain ⟨-, hcwnd, hwnd⟩ := hwindow.out.early hzero
      exact ⟨rfl, hcwnd, hwnd⟩
    · rw [if_neg hall]
      have hlt : s.outgoing.sndUna.toNat < s.outgoing.sndNxt.toNat := by bv_omega
      have hnxt : s.outgoing.sndNxt.toNat ≠ 0 := by omega
      have hcounted : Steady False Y inc stream { s with
          outgoing.sndWnd := BitVec.ofNat 32 g.wnd.toNat
          congestion.dupAcks := s.congestion.dupAcks + 1 } :=
        hwindow.recongest hnxt rfl rfl hssthresh hrecover
      split_ifs with hthird hmore
      · exact fastRetransmit_spec hcounted hlt
      · exact yields_some (hcounted.recongest hnxt rfl rfl hssthresh hrecover)
      · exact yields_some hcounted

theorem processAck_spec (h : Steady False Y inc stream s) (hg : Arrived Y g) :
    Yields (fun r => Steady False Y inc stream r.2 ∧ NoFin r) (s.processAck E g now) := by
  obtain ⟨hle, hlt⟩ := h.nxt_lt
  obtain ⟨htold, -⟩ := hg.told h
  have hrcv := h.out.inbound.le
  unfold processAck
  by_cases hvaluable : Larger g.ack s.outgoing.sndUna ∧ SmallerOrEqual g.ack s.outgoing.sndNxt
  · rw [if_pos hvaluable]
    rw [larger_iff (by omega) (by omega)] at hvaluable
    exact valuableAck_spec h hg hvaluable.1 (htold.trans hrcv)
  · rw [if_neg hvaluable]
    by_cases hsame : g.ack = s.outgoing.sndUna
    · rw [if_pos hsame]
      refine (duplicateAck_spec h hg hsame).bind ?_
      rintro ⟨go, s₁⟩ hs₁
      refine yields_some ⟨hs₁, ?_⟩
      intro b hb
      change (if go then some false else none) = some b at hb
      split_ifs at hb with hgo
      exact (Option.some.inj hb).symm
    · rw [if_neg hsame]
      exact yields_some ⟨h, fun b hb => (Option.some.inj hb).symm⟩

end Acknowledgments

section Clock

variable {E : TcpEnv} {s Y : PseudoTcpSocket} {inc : Incoming} {stream : Bytes} {now : BitVec 32}

theorem backOff_spec (h : Steady False Y inc stream s)
    (hhead : ∃ g ∈ s.outgoing.slist.head?, g.xmit ≠ 0) : Steady False Y inc stream (s.backOff now) := by
  have hmss := h.out.mss
  refine ⟨{ h.out with
    ssthresh := ssthresh_pos h _
    recover := le_rfl
    timer := fun _ => hhead
    early := ?_ }, { h.back with }, h.incoming, h.written⟩
  intro hzero
  obtain ⟨hdup, -, hwnd⟩ := h.out.early hzero
  refine ⟨?_, hmss.1.trans' (by decide), hwnd⟩
  change (if 3 ≤ s.congestion.dupAcks then 0 else s.congestion.dupAcks) = 0
  rw [hdup, ite_self]

theorem clockRetransmit_spec (h : Steady False Y inc stream s) :
    Yields (fun r => Steady False Y inc stream r.2) (s.clockRetransmit E now) := by
  unfold clockRetransmit
  by_cases hdue : s.timing.rtoBase ≠ 0 ∧ passed (s.timing.rtoBase + s.timing.rxRto) now
  · rw [if_pos hdue]
    obtain ⟨sent, unsent, hqueue⟩ := h.out.queue
    have hne := hqueue.sent_ne (h.out.timer hdue.1)
    cases sent with
    | nil => exact absurd rfl hne
    | cons g sent =>
      have hhead : s.outgoing.slist.head? = some g := by
        rw [hqueue.slist]
        rfl
      rw [hhead]
      refine (transmit_again h hqueue).bind ?_
      rintro ⟨err, s₁⟩ ⟨hsteady, hok⟩
      dsimp only
      by_cases herr : err = .ok
      · rw [if_neg (not_not.mpr herr)]
        exact yields_some (backOff_spec hsteady (hok herr).head)
      · rw [if_pos herr]
        refine (closedown_spec hsteady err .locally).bind ?_
        rintro s₂ ⟨hs₂, -⟩
        exact yields_some hs₂
  · rw [if_neg hdue]
    exact yields_some h

theorem clockProbe_spec (h : Steady False Y inc stream s) :
    Yields (fun r => Steady False Y inc stream r.2) (s.clockProbe E now) := by
  unfold clockProbe
  split_ifs with hshut hlong
  · refine (closedown_spec h .ECONNABORTED .locally).bind ?_
    rintro s₁ ⟨hs₁, -⟩
    exact yields_some hs₁
  · refine (ackPacket_spec h).bind ?_
    rintro s₁ ⟨-, -, hs₁⟩
    exact yields_some ⟨{ hs₁.out with }, { hs₁.back with }, hs₁.incoming, hs₁.written⟩
  · exact yields_some h

theorem clockAck_spec (h : Steady False Y inc stream s) :
    Yields (Steady False Y inc stream) (s.clockAck E now) := by
  unfold clockAck
  split_ifs with hdue
  · exact (ackPacket_spec h).imp (fun s₁ hs₁ => hs₁.2.2)
  · exact yields_some h

theorem Linked.state_ne {state : PseudoTcpState} (h : Steady False Y inc stream s)
    (hnot : ¬Begun state s.log.written) : s.state ≠ state := by
  rintro rfl
  exact hnot h.out.begun

theorem clockTimers_spec (h : Steady False Y inc stream s) :
    Yields (Steady False Y inc stream) (s.clockTimers E now) := by
  apply (clockRetransmit_spec h).bind
  rintro ⟨go, s₁⟩ hs₁
  cases go with
  | false => exact yields_some hs₁
  | true =>
    apply (clockProbe_spec hs₁).bind
    rintro ⟨go, s₂⟩ hs₂
    cases go with
    | false => exact yields_some hs₂
    | true => exact clockAck_spec hs₂

/-- Outside of the states that end by themselves the clock goes right to the timers. -/
theorem clockStates_idle (hwait : ¬(s.supportFinAck ∧ s.state = .timeWait))
    (hlast : ¬(s.supportFinAck ∧ s.state = .lastAck)) : s.clockStates E = some s := by
  rw [clockStates, if_neg hwait, Option.bind_eq_bind, Option.bind_some]
  exact if_neg hlast

theorem notifyClock_spec (h : Steady False Y inc stream s) :
    Yields (Steady False Y inc stream) (s.notifyClock E) := by
  have hticked := Linked.ticked h E
  unfold notifyClock
  dsimp only
  generalize s.getCurrentTime E = r at hticked ⊢
  obtain ⟨now, s₁⟩ := r
  dsimp only at hticked ⊢
  by_cases hclosed : s₁.state = .closed
  · rw [if_pos hclosed]
    exact yields_some hticked
  · have hwait : s₁.state ≠ .timeWait := hticked.state_ne not_false
    have hlast : s₁.state ≠ .lastAck := hticked.state_ne not_false
    rw [if_neg hclosed, clockStates_idle (fun hboth => hwait hboth.2) (fun hboth => hlast hboth.2)]
    exact clockTimers_spec hticked

/-- `pseudo_tcp_socket_get_next_clock`; these sockets have not been shut down gracefully. -/
theorem getNextClock_spec (h : Steady False Y inc stream s) (timeout : ℕ) :
    Yields (fun r => Steady False Y inc stream r.2) (s.getNextClock E timeout) := by
  have hticked := Linked.ticked h E
  unfold getNextClock
  dsimp only
  generalize s.getCurrentTime E = r at hticked ⊢
  obtain ⟨now, s₁⟩ := r
  dsimp only at hticked ⊢
  have hforceful : s₁.shutdown ≠ .forceful := by
    rw [hticked.out.shutdown]
    exact nofun
  have hgraceful : s₁.shutdown ≠ .graceful := by
    rw [hticked.out.shutdown]
    exact nofun
  rw [if_neg hforceful, if_neg (fun hboth => hgraceful hboth.1)]
  split_ifs
  all_goals exact yields_some hticked

end Clock

end Carrier.Session
