import Carrier.Session.TcpFlow

/-! Sending keeps both streams of a pseudo-TCP socket: the packets carry the bytes of the stream, the
loops come to their ends, and no assertion fails. -/
namespace Carrier.Session
open Carrier.Lib PseudoTcpSocket

section Packets

variable {E : TcpEnv} {s Y : PseudoTcpSocket} {closing : Prop} {limit : ℕ}
  {inc : Incoming} {stream : Bytes}
  {seq offset len now : BitVec 32} {flags : UInt8}

/-- What is read from the send buffer are bytes of the stream. -/
theorem SendBuffer.readOffset {sbuf : PseudoTcpFifo} {una : ℕ} {stream : Bytes}
    (h : SendBuffer sbuf una stream) {len offset : ℕ} (hle : offset + len ≤ sbuf.dataLength) :
    sbuf.readOffset len offset = readAt stream (una + offset) len := by
  have hlen : (sbuf.readOffset len offset).length = len := by
    rw [PseudoTcpFifo.readOffset_length]
    omega
  apply List.ext_getElem?
  intro i
  rw [getElem?_readAt]
  split_ifs with hi
  · rw [sbuf.readOffset_getElem? hi (by omega), h.cells _ (by omega), Nat.add_assoc]
  · rw [List.getElem?_eq_none (by omega)]

/-- The segment of a packet is one of its stream, and its acknowledgment is one that the socket
gives. -/
theorem told_outgoingSegment (h : Linked limit closing Y inc stream s) (seq : BitVec 32) (flags : UInt8)
    (data : Bytes) (now : BitVec 32) :
    Told s.incoming.rcvNxt (s.outgoingSegment seq flags data now) := by
  refine ⟨le_refl _, ?_, ?_⟩
  · obtain ⟨hzero, -⟩ | hsynced := h.back.inbound.synced
    · exact .inl hzero
    · right
      change 7 ≤ s.incoming.rcvNxt.toNat
      omega
  · intro hle
    change 7 ≤ ((s.incoming.rcvWnd >>> s.incoming.rwndScale).setWidth 16).toNat
    rw [h.back.rwndScale, h.back.wide hle]
    decide

theorem window_outgoingSegment (s : PseudoTcpSocket) (seq : BitVec 32) (flags : UInt8) (data : Bytes)
    (now : BitVec 32) : (s.outgoingSegment seq flags data now).wnd.toNat ≤ s.incoming.rcvWnd.toNat := by
  change ((s.incoming.rcvWnd >>> s.incoming.rwndScale).setWidth 16).toNat ≤ _
  rw [BitVec.toNat_setWidth, BitVec.toNat_ushiftRight]
  exact (Nat.mod_le _ _).trans (Nat.shiftRight_le _ _)

/-- One more packet, of a segment of the stream. -/
theorem Linked.sent (h : Linked limit closing Y inc stream s) {g : Segment}
    (hg : Genuine s.log.written limit g) (htold : Told s.incoming.rcvNxt g)
    (hwnd : g.ack = s.incoming.rcvNxt ∧ g.wnd.toNat ≤ s.incoming.rcvWnd.toNat) :
    Linked limit closing Y inc stream { s with log.packets := s.log.packets ++ [g.encode] } := by
  have hnew {P : Segment → Prop} (hold : ∀ p ∈ s.log.packets, P (.decode p)) (hP : P g) :
      ∀ p ∈ s.log.packets ++ [g.encode], P (.decode p) := by
    intro p hp
    obtain hp | hp := List.mem_append.mp hp
    · exact hold p hp
    · rw [List.mem_singleton.mp hp, decode_encode]
      exact hP
  refine ⟨?_, ?_, h.incoming, h.written⟩
  · exact { h.out with packets := hnew h.out.packets hg }
  · refine { h.back with told := hnew h.back.told htold, window := ?_ }
    intro hclosing hstate
    have hwindow := h.back.window hclosing hstate
    have hle : g.ack.toNat + g.wnd.toNat ≤ s.incoming.rcvNxt.toNat + s.incoming.rcvWnd.toNat := by
      rw [hwnd.1]
      exact Nat.add_le_add_left hwnd.2 _
    let inside (g : Segment) : Prop :=
      g.ack.toNat + g.wnd.toNat ≤ s.incoming.rcvNxt.toNat + s.incoming.rcvWnd.toNat
    have hpackets := hnew (P := inside) hwindow.packets hle
    exact { hwindow with packets := hpackets }

theorem Genuine.mono {stream stream' : Bytes} {limit limit' : ℕ} {g : Segment}
    (h : Genuine stream limit g) (hstream : stream <+: stream') (hle : limit ≤ limit')
    (hlen : limit ≤ stream.length) : Genuine stream' limit' g := by
  refine ⟨h.1, ?_⟩
  obtain hbare | ⟨hallowed, hdata, hlimit⟩ := h.2
  · exact .inl hbare
  · refine .inr ⟨hallowed, ?_, hlimit.trans hle⟩
    rw [← readAt_of_isPrefix hstream (hlimit.trans hlen)]
    exact hdata

theorem Inbound.mono {stream stream' read : Bytes} {limit limit' : ℕ} {rlist : List RSegment}
    {rcvNxt : BitVec 32} {rbuf : PseudoTcpFifo} (h : Inbound stream limit rlist rcvNxt rbuf read)
    (hstream : stream <+: stream') (hle : limit ≤ limit') (hlen : limit ≤ stream.length) :
    Inbound stream' limit' rlist rcvNxt rbuf read := by
  obtain ⟨rest, rfl⟩ := hstream
  refine { h with le := h.le.trans hle, handed := ?_, cells := ?_, ahead := ?_ }
  · refine h.handed.trans ?_
    rw [List.drop_append]
    exact List.prefix_append _ _
  · intro j hj hheld
    have hlt : j < limit := by
      obtain hlow | ⟨r, hr, -, hhigh⟩ := hheld
      · exact hlow.trans_le h.le
      · exact hhigh.trans_le (h.ahead r hr).1
    rw [h.cells j hj hheld, List.getElem?_append_left (hlt.trans_le hlen)]
  · intro r hr
    exact ⟨(h.ahead r hr).1.trans hle, (h.ahead r hr).2⟩

theorem Flow.mono {X : PseudoTcpSocket} (h : Flow limit closing X Y) {limit' : ℕ}
    (hle : limit ≤ limit') (hlen : limit' ≤ X.log.written.length) : Flow limit' closing X Y :=
  { h with
    nxt_le := h.nxt_le.trans hle
    limit_le := hlen
    packets := fun p hp => (h.packets p hp).mono List.prefix_rfl hle h.limit_le
    inbound := h.inbound.mono List.prefix_rfl hle h.limit_le }

/-- A packet that is an acknowledgment, or carries a piece of the stream up to the limit. -/
def Sendable (s : PseudoTcpSocket) (limit : ℕ) (seq : BitVec 32) (flags : UInt8)
    (offset len : BitVec 32) : Prop :=
  len = 0 ∧ (flags = FLAG_NONE ∨ flags = FLAG_RST) ∨
    Allowed flags seq.toNat len.toNat ∧ seq.toNat = s.outgoing.sndUna.toNat + offset.toNat ∧
      seq.toNat + len.toNat ≤ limit ∧ HEADER_SIZE + len.toNat ≤ MAX_PACKET

def packetData (s : PseudoTcpSocket) (offset len : BitVec 32) : Bytes :=
  if len ≠ 0 then s.outgoing.sbuf.readOffset len.toNat offset.toNat else []

theorem packetData_spec (h : Linked limit closing Y inc stream s)
    (hsend : Sendable s limit seq flags offset len) (now : BitVec 32) :
    HEADER_SIZE + len.toNat ≤ MAX_PACKET ∧ (packetData s offset len).length = len.toNat ∧
      Genuine s.log.written limit (s.outgoingSegment seq flags (packetData s offset len) now) := by
  by_cases hlen : len = 0
  · have hdata : packetData s offset len = [] := if_neg (not_not.mpr hlen)
    rw [hdata, hlen]
    refine ⟨by decide, rfl, h.out.conv, ?_⟩
    obtain ⟨-, hflags⟩ | ⟨hallowed, -, hlimit, -⟩ := hsend
    · exact .inl ⟨rfl, hflags⟩
    · right
      rw [hlen] at hallowed hlimit
      exact ⟨hallowed, rfl, hlimit⟩
  · obtain ⟨hzero, -⟩ | ⟨hallowed, hseq, hlimit, hmax⟩ := hsend
    · exact absurd hzero hlen
    · have hbuffer := h.out.buffer.length
      have hlimit_le := h.out.limit_le
      have hdata : packetData s offset len = readAt s.log.written seq.toNat len.toNat := by
        rw [packetData, if_pos hlen, h.out.buffer.readOffset (by omega), hseq]
      have hlength : (packetData s offset len).length = len.toNat := by
        rw [hdata, length_readAt]
        omega
      refine ⟨hmax, hlength, h.out.conv, .inr ?_⟩
      change Allowed flags seq.toNat (packetData s offset len).length ∧
        packetData s offset len = readAt s.log.written seq.toNat (packetData s offset len).length ∧
          seq.toNat + (packetData s offset len).length ≤ limit
      rw [hlength]
      exact ⟨hallowed, hdata, hlimit⟩

/-- `packet` sends a piece of the stream, or an acknowledgment. -/
theorem packet_spec (h : Linked s.outgoing.sndNxt.toNat closing Y inc stream s)
    (hle : s.outgoing.sndNxt.toNat ≤ limit) (hlimit : limit ≤ s.log.written.length)
    (hsend : Sendable s limit seq flags offset len) :
    Yields (fun r => Kept s r.2 ∧ r.2.congestion = s.congestion ∧
        (r.1 = .success → Linked limit closing Y inc stream r.2) ∧
        (r.1 ≠ .success → Linked s.outgoing.sndNxt.toNat closing Y inc stream r.2))
      (s.packet E seq flags offset len now) := by
  have hlinked : Linked limit closing Y inc stream s := ⟨h.out.mono hle hlimit, h.back, h.incoming, h.written⟩
  obtain ⟨hmax, hlength, hgenuine⟩ := packetData_spec hlinked hsend now
  have hsent := hlinked.sent hgenuine (told_outgoingSegment hlinked _ _ _ _)
    ⟨rfl, window_outgoingSegment s _ _ _ _⟩
  unfold packetData at hlength hsent
  unfold packet writePacket
  dsimp only
  rw [if_pos ⟨hmax, hlength⟩]
  by_cases hwrite : E.write s.log.writes = .success
  · simp only [hwrite, ne_eq, not_true_eq_false, false_and, if_false, if_true]
    refine yields_some ⟨⟨rfl, rfl, rfl, rfl⟩, rfl, fun _ => ?_, fun hne => absurd rfl hne⟩
    exact ⟨{ hsent.out with }, { hsent.back with }, hsent.incoming, hsent.written⟩
  · by_cases hlen : len = 0
    -- A lost acknowledgment counts as sent.
    · simp only [hwrite, hlen, ne_eq, not_true_eq_false, and_false, if_false]
      refine yields_some ⟨⟨rfl, rfl, rfl, rfl⟩, rfl, fun _ => ?_, fun hne => absurd rfl hne⟩
      exact ⟨{ hlinked.out with }, { hlinked.back with }, hlinked.incoming, hlinked.written⟩
    · simp only [hwrite, hlen, ne_eq, not_false_eq_true, and_self, if_true, if_false]
      refine yields_some ⟨⟨rfl, rfl, rfl, rfl⟩, rfl, fun heq => absurd heq hwrite, fun _ => ?_⟩
      exact ⟨{ h.out with }, { h.back with }, h.incoming, h.written⟩

theorem ackPacket_spec (h : Steady closing Y inc stream s) :
    Yields (fun s' => Kept s s' ∧ s'.congestion = s.congestion ∧ Steady closing Y inc stream s')
      (s.ackPacket E seq now) := by
  refine (packet_spec h le_rfl h.out.limit_le (.inl ⟨rfl, .inl rfl⟩)).map ?_
  rintro r ⟨hkept, hcongestion, hsent, hlost⟩
  refine ⟨hkept, hcongestion, ?_⟩
  rw [Steady, hkept.outgoing]
  by_cases hres : r.1 = .success
  · exact hsent hres
  · exact hlost hres

end Packets

section Transmit

variable {E : TcpEnv} {s Y : PseudoTcpSocket} {closing : Prop} {limit : ℕ}
  {inc : Incoming} {stream : Bytes} {now : BitVec 32}

theorem packetMaximums_bounds (k : ℕ) :
    PACKET_MAXIMUMS.getD (k + 1) 0 = 0 ∨
      k < 9 ∧ 296 ≤ PACKET_MAXIMUMS.getD (k + 1) 0 ∧ PACKET_MAXIMUMS.getD (k + 1) 0 ≤ 32000 := by
  by_cases hk : k < 10
  · revert k
    decide
  · left
    have hlen : PACKET_MAXIMUMS.length = 11 := rfl
    rw [List.getD_eq_getElem?_getD, List.getElem?_eq_none (by omega)]
    rfl

/-- Lower levels of the segment size leave the streams as they are. -/
theorem lowerMss_spec (h : Linked limit closing Y inc stream s) (fuel : ℕ) (nTransmit : BitVec 32) :
    Kept s (lowerMss fuel s nTransmit).2 ∧ Linked limit closing Y inc stream (lowerMss fuel s nTransmit).2 ∧
      ((lowerMss fuel s nTransmit).1 = true →
        (lowerMss fuel s nTransmit).2.congestion.mss < nTransmit ∧
        s.congestion.msslevel < (lowerMss fuel s nTransmit).2.congestion.msslevel ∧
        (lowerMss fuel s nTransmit).2.congestion.msslevel ≤ 9) := by
  induction fuel generalizing s with
  | zero => exact ⟨Kept.refl s, h, fun hfalse => by cases hfalse⟩
  | succ fuel ih =>
    rw [lowerMss]
    obtain hzero | ⟨hlevel, hlow, hhigh⟩ := packetMaximums_bounds s.congestion.msslevel
    · simp only [hzero, if_true]
      exact ⟨Kept.refl s, h, fun hfalse => by cases hfalse⟩
    · generalize hsize : PACKET_MAXIMUMS.getD (s.congestion.msslevel + 1) 0 = size at hlow hhigh ⊢
      have hne : size ≠ 0 := by omega
      have hmss : (BitVec.ofNat 32 size - PACKET_OVERHEAD).toNat = size - 116 := by
        unfold PACKET_OVERHEAD
        bv_omega
      have hlinked : Linked limit closing Y inc stream { s with
          congestion.msslevel := s.congestion.msslevel + 1
          congestion.mss := BitVec.ofNat 32 size - PACKET_OVERHEAD
          congestion.cwnd := 2 * (BitVec.ofNat 32 size - PACKET_OVERHEAD) } := by
        refine ⟨{ h.out with mss := ?_, early := ?_ }, { h.back with }, h.incoming, h.written⟩
        · change 180 ≤ (BitVec.ofNat 32 size - PACKET_OVERHEAD).toNat ∧
            (BitVec.ofNat 32 size - PACKET_OVERHEAD).toNat ≤ 65419
          omega
        · intro hzero
          obtain ⟨hdup, -, hwnd⟩ := h.out.early hzero
          refine ⟨hdup, ?_, hwnd⟩
          change 7 ≤ (2 * (BitVec.ofNat 32 size - PACKET_OVERHEAD)).toNat
          bv_omega
      simp only [if_neg hne]
      split_ifs with hlt
      · exact ⟨⟨rfl, rfl, rfl, rfl⟩, hlinked, fun _ => ⟨hlt, Nat.lt_succ_self _, hlevel⟩⟩
      · obtain ⟨hkept, hrest, hlowered⟩ := ih hlinked
        refine ⟨hkept.after rfl rfl rfl rfl, hrest, ?_⟩
        intro htrue
        obtain ⟨hlt, hmore, hle⟩ := hlowered htrue
        exact ⟨hlt, (Nat.lt_succ_self _).trans hmore, hle⟩

/-- A piece of a segment that `transmit` may send: all of it, or as much as a level allows. -/
structure Piece (g : SSegment) (n : BitVec 32) : Prop where
  le : n.toNat ≤ g.len.toNat
  whole : n = g.len ∨ 180 ≤ n.toNat
  max : n.toNat ≤ 65419

/-- A segment of the stream that lies in the send buffer. -/
structure Buffered (s : PseudoTcpSocket) (g : SSegment) : Prop where
  allowed : g.Allowed
  low : s.outgoing.sndUna.toNat ≤ g.seq.toNat
  high : g.seq.toNat + g.len.toNat ≤ s.log.written.length

theorem Piece.allowed {g : SSegment} {n : BitVec 32} (h : Piece g n) (hg : g.Allowed) :
    n = 0 ∧ (g.flags = FLAG_NONE ∨ g.flags = FLAG_RST) ∨ Allowed g.flags g.seq.toNat n.toNat := by
  have hle := h.le
  obtain ⟨hflags, hseq, hlen⟩ | ⟨hflags, hseq⟩ | ⟨hflags, hlen⟩ := hg
  · right
    obtain hwhole | hwhole := h.whole
    · rw [hwhole]
      exact .inl ⟨hflags, hseq, hlen⟩
    · omega
  · exact .inr (.inr (.inl ⟨hflags, hseq⟩))
  · exact .inl ⟨by bv_omega, .inr hflags⟩

theorem Kept.buffered {s' : PseudoTcpSocket} {g : SSegment} (h : Kept s s') (hg : Buffered s g) :
    Buffered s' g := by
  obtain ⟨hallowed, hlow, hhigh⟩ := hg
  refine ⟨hallowed, ?_, ?_⟩
  · rw [h.outgoing]
    exact hlow
  · rw [h.written]
    exact hhigh

theorem Kept.sndNxt {s' : PseudoTcpSocket} (h : Kept s s') :
    s'.outgoing.sndNxt = s.outgoing.sndNxt := by
  rw [h.outgoing]

/-- The packets of `transmit`: one of them gets through, with a piece of the segment, or the result is
an error and none does. -/
theorem transmitLoop_spec {g : SSegment} {n : BitVec 32} {fuel : ℕ} (h : Steady closing Y inc stream s)
    (hg : Buffered s g) (hn : Piece g n) (hfuel : 0 < fuel) (hlevels : 10 ≤ fuel + s.congestion.msslevel) :
    Yields (fun r => Kept s r.2.2 ∧ Piece g r.2.1 ∧
        (r.1 = .ok → Linked (max s.outgoing.sndNxt.toNat (g.seq.toNat + r.2.1.toNat)) closing Y inc stream r.2.2) ∧
        (r.1 ≠ .ok → Steady closing Y inc stream r.2.2))
      (transmitLoop E g now fuel s n) := by
  induction fuel generalizing s n with
  | zero => omega
  | succ fuel ih =>
    have hlow := hg.low
    have hhigh := hg.high
    have hlength := h.out.buffer.length
    have hcapacity : s.outgoing.sbuf.dataLength ≤ 92160 :=
      s.outgoing.sbuf.dataLength_le_bufferLength.trans_eq h.out.buffer.capacity
    have hbound : s.log.written.length < 2 ^ 31 - 1 := h.out.bound
    have hoffset : (g.seq - s.outgoing.sndUna).toNat = g.seq.toNat - s.outgoing.sndUna.toNat := by
      bv_omega
    have hle := hn.le
    have hmax := hn.max
    have hsend : Sendable s (max s.outgoing.sndNxt.toNat (g.seq.toNat + n.toNat)) g.seq g.flags
        (g.seq - s.outgoing.sndUna) n := by
      obtain hbare | hallowed := hn.allowed hg.allowed
      · exact .inl hbare
      · refine .inr ⟨hallowed, by omega, le_max_right _ _, ?_⟩
        unfold HEADER_SIZE MAX_PACKET
        omega
    rw [transmitLoop, if_pos (by omega)]
    refine (packet_spec h (le_max_left _ _) (max_le h.out.limit_le (by omega)) hsend).bind ?_
    rintro ⟨wres, s₁⟩ ⟨hkept, hcongestion, hsent, hlost⟩
    cases wres with
    | success => exact yields_some ⟨hkept, hn, fun _ => hsent rfl, fun hne => absurd rfl hne⟩
    | fail =>
      refine yields_some ⟨hkept, hn, fun heq => (nomatch heq), fun _ => ?_⟩
      rw [Steady, hkept.sndNxt]
      exact hlost (fun heq => nomatch heq)
    | tooLarge =>
      have hsteady : Steady closing Y inc stream s₁ := by
        rw [Steady, hkept.sndNxt]
        exact hlost (fun heq => nomatch heq)
      obtain ⟨hkept', hlinked, hlowered⟩ := lowerMss_spec hsteady PACKET_MAXIMUMS.length n
      have hkept₂ := hkept.trans hkept'
      rw [← hkept'.sndNxt] at hlinked
      simp only []
      generalize lowerMss PACKET_MAXIMUMS.length s₁ n = r at hkept' hlinked hlowered hkept₂ ⊢
      obtain ⟨lowered, s₂⟩ := r
      cases lowered with
      | false => exact yields_some ⟨hkept₂, hn, fun heq => (nomatch heq), fun _ => hlinked⟩
      | true =>
        obtain ⟨hlt, hmore, hlevel⟩ := hlowered rfl
        have hmss := hlinked.out.mss
        have hsame : s₁.congestion.msslevel = s.congestion.msslevel := by rw [hcongestion]
        have hpiece : Piece g s₂.congestion.mss := ⟨by bv_omega, .inr hmss.1, hmss.2⟩
        refine (ih hlinked (hkept₂.buffered hg) hpiece (by omega) (by omega)).imp ?_
        rintro ⟨err, n', s₃⟩ ⟨hkept₃, hn', hok, herr⟩
        refine ⟨hkept₂.trans hkept₃, hn', ?_, herr⟩
        intro heq
        rw [← hkept₂.sndNxt]
        exact hok heq

/-- The rounds that the segments not sent yet may take. -/
def listCost (l : List SSegment) : ℕ := (l.map (fun g => g.len.toNat + 1)).sum

theorem SendQueue.head? {slist sent unsent : List SSegment} {unsentSlist : List ℕ}
    {nextId una nxt len : ℕ} (h : SendQueue slist unsentSlist nextId una nxt len sent unsent)
    (hne : sent ≠ []) : ∃ g ∈ slist.head?, g.xmit ≠ 0 := by
  cases sent with
  | nil => exact absurd rfl hne
  | cons g sent =>
    refine ⟨g, ?_, h.xmit g List.mem_cons_self⟩
    rw [h.slist]
    rfl

/-- The queue after a segment has gone out: the socket is steady again. -/
theorem Linked.transmitted {nxt rtoBase : BitVec 32} {slist sent unsent : List SSegment} {ids : List ℕ}
    {nextId : ℕ} (h : Linked nxt.toNat closing Y inc stream s)
    (hqueue : SendQueue slist ids nextId s.outgoing.sndUna.toNat nxt.toNat s.log.written.length sent
      unsent) (hsent : sent ≠ []) (hne : s.outgoing.slist ≠ [])
    (hwindow : ¬closing → s.state ≠ .closed →
      nxt.toNat ≤ Y.incoming.rcvNxt.toNat + Y.incoming.rcvWnd.toNat) :
    Steady closing Y inc stream { s with
      outgoing.slist := slist
      outgoing.unsentSlist := ids
      outgoing.nextId := nextId
      outgoing.sndNxt := nxt
      timing.rtoBase := rtoBase } := by
  refine ⟨{ h.out with
    nxt_le := le_rfl
    queue := ⟨sent, unsent, hqueue⟩
    fresh := fun hclosing hstate => absurd (h.out.fresh hclosing hstate) hne
    timer := fun _ => hqueue.head? hsent
    recover := h.out.recover.trans h.out.nxt_le
    early := fun hzero => h.out.early (Nat.le_zero.mp (h.out.nxt_le.trans hzero.le))
    window := ?_ }, { h.back with }, h.incoming, h.written⟩
  intro hclosing hstate
  exact { h.out.window hclosing hstate with nxt := hwindow hclosing hstate }

/-- What `transmit` does with a segment once a piece of it has been sent. -/
def afterTransmit (s : PseudoTcpSocket) (g : SSegment) (n now : BitVec 32) :
    Option (SocketError × PseudoTcpSocket) := do
  let s := if n < g.len then s.cutSegment g n g.xmit else s
  let s ← if g.xmit = 0 then s.firstTransmit { g with len := n } else some s
  some (.ok, s.countTransmit g.id now)

theorem transmit_eq {g : SSegment} (hfind : s.segment? g.id = some g) :
    s.transmit E g.id now =
      if (if s.state = .established then 15 else 30) ≤ g.xmit then some (.ETIMEDOUT, s)
      else (transmitLoop E g now PACKET_MAXIMUMS.length s (minOf g.len s.congestion.mss)).bind
        (fun r => if r.1 ≠ .ok then some (r.1, r.2.2) else afterTransmit r.2.2 g r.2.1 now) := by
  rw [transmit, hfind]
  rfl

theorem SSegment.Allowed.noFin {g : SSegment} (h : g.Allowed) : g.flags &&& FLAG_FIN = 0 := by
  obtain ⟨hflags, -⟩ | ⟨hflags, -⟩ | ⟨hflags, -⟩ := h
  · rw [hflags]
    decide
  · rw [hflags]
    decide
  · rw [hflags]
    decide

theorem Piece.of_min {g : SSegment} (h : Steady closing Y inc stream s) :
    Piece g (minOf g.len s.congestion.mss) := by
  have hmin := toNat_minOf g.len s.congestion.mss
  have hmss := h.out.mss
  refine ⟨by omega, ?_, by omega⟩
  by_cases hle : g.len.toNat ≤ s.congestion.mss.toNat
  · left
    bv_omega
  · right
    omega

theorem Piece.noCtl {g : SSegment} {n : BitVec 32} (h : Piece g n) (hg : g.Allowed)
    (hlt : n < g.len) : g.flags ≠ FLAG_CTL ∧ 180 ≤ n.toNat := by
  have hbig : 180 ≤ n.toNat := by
    obtain hwhole | hbig := h.whole
    · bv_omega
    · exact hbig
  refine ⟨?_, hbig⟩
  intro hctl
  obtain ⟨-, -, hlen⟩ | ⟨hflags, -⟩ | ⟨hflags, -⟩ := hg
  · have hle := h.le
    omega
  · rw [hctl] at hflags
    exact absurd hflags (by decide)
  · rw [hctl] at hflags
    exact absurd hflags (by decide)

theorem firstTransmit_eq {g : SSegment} {n : BitVec 32}
    (hhead : s.outgoing.unsentSlist.head? = some g.id) (hfin : g.flags &&& FLAG_FIN = 0) :
    s.firstTransmit { g with len := n } = some { s with
      outgoing.unsentSlist := s.outgoing.unsentSlist.tail
      outgoing.sndNxt := s.outgoing.sndNxt + n } := by
  have hzero : s.outgoing.sndNxt + n + 0 = s.outgoing.sndNxt + n := BitVec.add_zero _
  rw [firstTransmit, if_pos hhead, if_neg (fun hboth => hboth.2 hfin)]
  dsimp only
  rw [hzero]

theorem Queued.cut {sent unsent : List SSegment} {g : SSegment} {n : BitVec 32}
    (h : Queued s sent (g :: unsent)) (hlen : s.log.written.length < 2 ^ 32)
    (hctl : g.flags ≠ FLAG_CTL) (hlt : n < g.len) :
    Queued (s.cutSegment g n g.xmit) sent
      ({ g with len := n } :: subsegment g s.outgoing.nextId n :: unsent) := by
  have hxmit : g.xmit = 0 := h.unsent_xmit g List.mem_cons_self
  have hcut := h.cutUnsent hlen hctl hlt
  unfold Queued cutSegment
  dsimp only
  rw [if_pos hxmit]
  exact hcut

theorem listCost_cons (g : SSegment) (l : List SSegment) :
    listCost (g :: l) = g.len.toNat + 1 + listCost l := by
  rw [listCost, List.map_cons, List.sum_cons, listCost]

/-- The last part of `transmit` for a segment that goes out for the first time. -/
theorem afterTransmit_first {sent unsent : List SSegment} {g : SSegment} {n : BitVec 32}
    (h : Linked (s.outgoing.sndNxt.toNat + n.toNat) closing Y inc stream s) (hqueue : Queued s sent (g :: unsent))
    (hn : Piece g n) (hwindow : ¬closing → s.state ≠ .closed →
      s.outgoing.sndNxt.toNat + n.toNat ≤ Y.incoming.rcvNxt.toNat + Y.incoming.rcvWnd.toNat) :
    Yields (fun r => Steady closing Y inc stream r.2 ∧ ∃ sent' unsent', Queued r.2 sent' unsent' ∧
        (unsent' = unsent ∨ listCost unsent' + 2 ≤ listCost (g :: unsent)))
      (afterTransmit s g n now) := by
  have hxmit : g.xmit = 0 := hqueue.unsent_xmit g List.mem_cons_self
  have hallowed : g.Allowed := hqueue.stocked.head
  have hbound : s.log.written.length < 2 ^ 31 - 1 := h.out.bound
  have hlimit := h.out.limit_le
  have hnxt : (s.outgoing.sndNxt + n).toNat = s.outgoing.sndNxt.toNat + n.toNat := by bv_omega
  have hne : s.outgoing.slist ≠ [] := by
    rw [hqueue.slist]
    simp
  rw [← hnxt] at h hwindow
  unfold afterTransmit
  by_cases hlt : n < g.len
  · obtain ⟨hctl, hbig⟩ := hn.noCtl hallowed hlt
    have hcut := hqueue.cut (by omega) hctl hlt
    have hhead : (s.cutSegment g n g.xmit).outgoing.unsentSlist.head? = some g.id := by
      rw [hcut.ids]
      rfl
    have hfirst := hcut.first hnxt
    rw [if_pos hlt, if_pos hxmit, firstTransmit_eq hhead hallowed.noFin]
    refine yields_some ⟨h.transmitted hfirst (by simp) hne hwindow, _, _, hfirst, .inr ?_⟩
    rw [listCost_cons, listCost_cons]
    change (g.len - n).toNat + 1 + listCost unsent + 2 ≤ g.len.toNat + 1 + listCost unsent
    bv_omega
  · have hwhole : n = g.len := by
      have hle := hn.le
      bv_omega
    have hhead : s.outgoing.unsentSlist.head? = some g.id := by
      rw [hqueue.ids]
      rfl
    have hfirst := hqueue.first (hnxt.trans (by rw [hwhole]))
    rw [if_neg hlt, if_pos hxmit, firstTransmit_eq hhead hallowed.noFin]
    exact yields_some ⟨h.transmitted hfirst (by simp) hne hwindow, _, _, hfirst, .inl rfl⟩

theorem Queued.cutAgain {sent unsent : List SSegment} {g : SSegment} {n : BitVec 32}
    (h : Queued s (g :: sent) unsent) (hlen : s.log.written.length < 2 ^ 32)
    (hctl : g.flags ≠ FLAG_CTL) (hlt : n < g.len) :
    Queued (s.cutSegment g n g.xmit)
      ({ g with len := n } :: subsegment g s.outgoing.nextId n :: sent) unsent := by
  have hxmit : g.xmit ≠ 0 := h.xmit g List.mem_cons_self
  have hcut := h.cutSent hlen hctl hlt
  unfold Queued cutSegment
  dsimp only
  rw [if_neg hxmit]
  exact hcut

/-- A segment that has been sent lies at the head of the queue, and no other has been sent since. -/
structure Resent (s s' : PseudoTcpSocket) : Prop where
  nxt : s'.outgoing.sndNxt = s.outgoing.sndNxt
  head : ∃ g ∈ s'.outgoing.slist.head?, g.xmit ≠ 0

/-- The last part of `transmit` for a segment that goes out again. -/
theorem afterTransmit_again {sent unsent : List SSegment} {g : SSegment} {n : BitVec 32}
    (h : Steady closing Y inc stream s) (hqueue : Queued s (g :: sent) unsent) (hn : Piece g n) :
    Yields (fun r => Steady closing Y inc stream r.2 ∧ Resent s r.2) (afterTransmit s g n now) := by
  have hxmit : g.xmit ≠ 0 := hqueue.xmit g List.mem_cons_self
  have hallowed : g.Allowed := hqueue.stocked.allowed g (by simp)
  have hbound : s.log.written.length < 2 ^ 31 - 1 := h.out.bound
  have hlinked : Linked s.outgoing.sndNxt.toNat closing Y inc stream s := h
  have hne : s.outgoing.slist ≠ [] := by
    rw [hqueue.slist]
    simp
  have hwindow : ¬closing → s.state ≠ .closed → s.outgoing.sndNxt.toNat ≤
      Y.incoming.rcvNxt.toNat + Y.incoming.rcvWnd.toNat :=
    fun hclosing hstate => (h.out.window hclosing hstate).nxt
  unfold afterTransmit
  by_cases hlt : n < g.len
  · obtain ⟨hctl, -⟩ := hn.noCtl hallowed hlt
    have hcut := hqueue.cutAgain (by omega) hctl hlt
    rw [if_pos hlt, if_neg hxmit]
    have hagain := hcut.again
    have hsent := List.cons_ne_nil (α := SSegment) { g with len := n, xmit := g.xmit + 1 }
      (subsegment g s.outgoing.nextId n :: sent)
    exact yields_some ⟨hlinked.transmitted hagain hsent hne hwindow, rfl, hagain.head? hsent⟩
  · rw [if_neg hlt, if_neg hxmit]
    have hagain := hqueue.again
    have hsent := List.cons_ne_nil (α := SSegment) { g with xmit := g.xmit + 1 } sent
    exact yields_some ⟨hlinked.transmitted hagain hsent hne hwindow, rfl, hagain.head? hsent⟩

theorem Kept.queued {s' : PseudoTcpSocket} {sent unsent : List SSegment} (h : Kept s s')
    (hqueue : Queued s sent unsent) : Queued s' sent unsent := by
  rw [Queued, h.outgoing, h.written]
  exact hqueue

theorem transmitLoop_start {g : SSegment} (h : Steady closing Y inc stream s) (hg : Buffered s g) :
    Yields (fun r => Kept s r.2.2 ∧ Piece g r.2.1 ∧
        (r.1 = .ok → Linked (max s.outgoing.sndNxt.toNat (g.seq.toNat + r.2.1.toNat)) closing Y inc stream r.2.2) ∧
        (r.1 ≠ .ok → Steady closing Y inc stream r.2.2))
      (transmitLoop E g now PACKET_MAXIMUMS.length s (minOf g.len s.congestion.mss)) :=
  transmitLoop_spec h hg (Piece.of_min h) (by decide) (Nat.le_add_right_of_le (by decide))

/-- `transmit` of the first segment that has not been sent. -/
theorem transmit_first {sent unsent : List SSegment} {g : SSegment} (h : Steady closing Y inc stream s)
    (hqueue : Queued s sent (g :: unsent)) (hwindow : ¬closing → s.state ≠ .closed →
      s.outgoing.sndNxt.toNat + g.len.toNat ≤ Y.incoming.rcvNxt.toNat + Y.incoming.rcvWnd.toNat) :
    Yields (fun r => Steady closing Y inc stream r.2 ∧ (r.1 = .ok → ∃ sent' unsent', Queued r.2 sent' unsent' ∧
        (unsent' = unsent ∨ listCost unsent' + 2 ≤ listCost (g :: unsent))))
      (s.transmit E g.id now) := by
  obtain ⟨hseq, hend⟩ := hqueue.unsentTiles.head
  have hbuffered : Buffered s g := by
    refine ⟨hqueue.stocked.head, ?_, ?_⟩
    · rw [hseq]
      exact hqueue.una_le
    · rw [hseq]
      exact hend
  rw [transmit_eq hqueue.find_unsent]
  by_cases htired : (if s.state = .established then 15 else 30) ≤ g.xmit
  · rw [if_pos htired]
    exact yields_some ⟨h, fun heq => nomatch heq⟩
  · rw [if_neg htired]
    refine (transmitLoop_start h hbuffered).bind ?_
    rintro ⟨err, n, s₁⟩ ⟨hkept, hpiece, hok, herr⟩
    by_cases heq : err = .ok
    · have hle := hpiece.le
      have hlinked := hok heq
      rw [hseq, max_eq_right (Nat.le_add_right _ _), ← hkept.sndNxt] at hlinked
      rw [if_neg (not_not.mpr heq)]
      refine (afterTransmit_first hlinked (hkept.queued hqueue) hpiece ?_).imp ?_
      · intro hclosing hstate
        rw [hkept.state] at hstate
        have hroom := hwindow hclosing hstate
        rw [hkept.sndNxt]
        omega
      · intro r ⟨hsteady, hrest⟩
        exact ⟨hsteady, fun _ => hrest⟩
    · rw [if_pos heq]
      exact yields_some ⟨herr heq, fun hok => absurd hok heq⟩

/-- `transmit` of the first segment under way. -/
theorem transmit_again {sent unsent : List SSegment} {g : SSegment} (h : Steady closing Y inc stream s)
    (hqueue : Queued s (g :: sent) unsent) :
    Yields (fun r => Steady closing Y inc stream r.2 ∧ (r.1 = .ok → Resent s r.2))
      (s.transmit E g.id now) := by
  obtain ⟨hseq, hend⟩ := hqueue.sentTiles.head
  have hnxt := hqueue.nxt_le
  have hbuffered : Buffered s g :=
    ⟨hqueue.stocked.allowed g (by simp), hseq.ge, by rw [hseq]; exact hend.trans hnxt⟩
  rw [transmit_eq hqueue.find_sent]
  by_cases htired : (if s.state = .established then 15 else 30) ≤ g.xmit
  · rw [if_pos htired]
    exact yields_some ⟨h, fun heq => nomatch heq⟩
  · rw [if_neg htired]
    refine (transmitLoop_start h hbuffered).bind ?_
    rintro ⟨err, n, s₁⟩ ⟨hkept, hpiece, hok, herr⟩
    by_cases heq : err = .ok
    · have hle := hpiece.le
      have hlinked := hok heq
      rw [max_eq_left (by omega), ← hkept.sndNxt] at hlinked
      rw [if_neg (not_not.mpr heq)]
      refine (afterTransmit_again hlinked (hkept.queued hqueue) hpiece).imp ?_
      rintro r ⟨hr, hnxt, hhead⟩
      exact ⟨hr, fun _ => ⟨hnxt.trans hkept.sndNxt, hhead⟩⟩
    · rw [if_pos heq]
      exact yields_some ⟨herr heq, fun hok => absurd hok heq⟩

end Transmit

section Loops

variable {E : TcpEnv} {s Y : PseudoTcpSocket} {closing : Prop} {limit : ℕ} {inc : Incoming}
  {stream : Bytes} {now : BitVec 32} {sent unsent : List SSegment}

theorem Begun.closed {state : PseudoTcpState} (h : Begun state stream) : Begun .closed stream := by
  cases state with
  | listen => exact .inl h
  | synSent => exact .inr h
  | synReceived => exact .inr h
  | established => exact .inr h
  | closed => exact h
  | finWait1 => exact h.elim
  | finWait2 => exact h.elim
  | closing => exact h.elim
  | timeWait => exact h.elim
  | closeWait => exact h.elim
  | lastAck => exact h.elim

theorem closeStates_eq (h : Begun s.state stream) (err : SocketError) :
    s.closeStates err = some (if err ≠ .ok then { s with state := .closed }.call (.closed err)
      else { s with state := .closed }) := by
  cases hstate : s.state with
  | listen => simp [closeStates, hstate, setStateClosed, setState, PseudoTcpState.transition]
  | synSent => simp [closeStates, hstate, setStateClosed, setState, PseudoTcpState.transition]
  | synReceived => simp [closeStates, hstate, setStateClosed, setState, PseudoTcpState.transition]
  | established => simp [closeStates, hstate, setStateClosed, setState, PseudoTcpState.transition]
  | closed =>
    have hsame : { s with state := .closed } = s := by rw [← hstate]
    simp [closeStates, hstate, setStateClosed, setState, hsame]
  | finWait1 => exact (hstate ▸ h : Begun .finWait1 stream).elim
  | finWait2 => exact (hstate ▸ h : Begun .finWait2 stream).elim
  | closing => exact (hstate ▸ h : Begun .closing stream).elim
  | timeWait => exact (hstate ▸ h : Begun .timeWait stream).elim
  | closeWait => exact (hstate ▸ h : Begun .closeWait stream).elim
  | lastAck => exact (hstate ▸ h : Begun .lastAck stream).elim

theorem Linked.close (h : Linked limit closing Y inc stream s) :
    Linked limit False Y inc stream { s with state := .closed } :=
  ⟨{ h.out with
      begun := h.out.begun.closed
      fresh := fun _ hstate => nomatch hstate
      reads := fun _ => rfl
      window := fun _ hstate => absurd rfl hstate },
    { h.back with }, h.incoming, h.written⟩

theorem closeStates_spec (h : Steady closing Y inc stream s) (err : SocketError) :
    Yields (fun s' => Steady False Y inc stream s' ∧ s'.state = .closed) (s.closeStates err) := by
  have hclosed := h.close
  rw [closeStates_eq h.out.begun]
  apply yields_some
  split_ifs with herr
  · exact ⟨⟨{ hclosed.out with }, { hclosed.back with }, hclosed.incoming, hclosed.written⟩, rfl⟩
  · exact ⟨hclosed, rfl⟩

theorem Linked.weaken (h : Linked limit False Y inc stream s) (closing : Prop) :
    Linked limit closing Y inc stream s :=
  ⟨{ h.out with
      fresh := fun _ => h.out.fresh not_false
      window := fun _ => h.out.window not_false }, h.back, h.incoming, h.written⟩

/-- What `attempt_send` takes from a segment fits into the window of the peer. -/
theorem available_window (h : Steady closing Y inc stream s) (hne : s.available ≠ 0) :
    s.outgoing.sndNxt.toNat + s.available.toNat ≤
      s.outgoing.sndUna.toNat + s.outgoing.sndWnd.toNat := by
  obtain ⟨sent, unsent, hqueue⟩ := h.out.queue
  have hle := hqueue.una_le
  have hwnd := h.out.wnd_lt
  unfold available at hne ⊢
  dsimp only at hne ⊢
  generalize (if s.congestion.dupAcks = 1 ∨ s.congestion.dupAcks = 2 then
    s.congestion.cwnd + s.congestion.dupAcks.setWidth 32 * s.congestion.mss
    else s.congestion.cwnd) = cwnd at hne ⊢
  generalize (if s.outgoing.sbuf.getBuffered < (s.outgoing.sndNxt - s.outgoing.sndUna).toNat then 0
    else BitVec.ofNat 32 (min (s.outgoing.sbuf.getBuffered -
      (s.outgoing.sndNxt - s.outgoing.sndUna).toNat) s.congestion.mss.toNat)) = nAvailable at hne ⊢
  have hwindow := toNat_minOf s.outgoing.sndWnd cwnd
  generalize minOf s.outgoing.sndWnd cwnd = nWindow at hwindow hne ⊢
  split_ifs at hne ⊢ with huse hless hless
  · exact absurd rfl hne
  · bv_omega
  · bv_omega
  · exact absurd rfl hne
  · exact absurd rfl hne
  · bv_omega

theorem available_early (h : Steady closing Y inc stream s) (hnxt : s.outgoing.sndNxt.toNat = 0)
    (hlen : 7 ≤ s.log.written.length) : 7 ≤ s.available.toNat := by
  obtain ⟨sent, unsent, hqueue⟩ := h.out.queue
  have hle := hqueue.una_le
  have hbuffer := h.out.buffer.length
  have hbound : s.log.written.length < 2 ^ 31 - 1 := h.out.bound
  have hmss := h.out.mss
  obtain ⟨hdup, hcwnd, hwnd⟩ := h.out.early hnxt
  have hsnd := hwnd (fun hnil => by rw [hnil] at hlen; exact absurd hlen (by decide))
  have hlt := h.out.wnd_lt
  have hflight : s.outgoing.sndNxt - s.outgoing.sndUna = 0 := by bv_omega
  have hflag : ¬(s.congestion.dupAcks = 1 ∨ s.congestion.dupAcks = 2) := by
    rw [hdup]
    decide
  have hwindow := toNat_minOf s.outgoing.sndWnd s.congestion.cwnd
  have hbuffered : s.outgoing.sbuf.getBuffered = s.log.written.length := by
    unfold PseudoTcpFifo.getBuffered
    omega
  have hdata : (BitVec.ofNat 32 (min s.log.written.length s.congestion.mss.toNat)).toNat =
      min s.log.written.length s.congestion.mss.toNat := by
    rw [BitVec.toNat_ofNat]
    omega
  have hzero : (0 : BitVec 32).toNat = 0 := rfl
  unfold available
  dsimp only
  rw [if_neg hflag, hflight, hbuffered, hzero, if_neg (Nat.not_lt_zero _), Nat.sub_zero]
  generalize BitVec.ofNat 32 (min s.log.written.length s.congestion.mss.toNat) = nAvailable at hdata ⊢
  generalize minOf s.outgoing.sndWnd s.congestion.cwnd = nWindow at hwindow ⊢
  split_ifs with huse hless hmany hmore
  · bv_omega
  · bv_omega
  · bv_omega
  · bv_omega
  · bv_omega
  · bv_omega

/-- A first segment under way is not one of those that are still to be sent. -/
theorem SendQueue.sent_ne {slist : List SSegment} {unsentSlist : List ℕ} {nextId una nxt len : ℕ}
    (h : SendQueue slist unsentSlist nextId una nxt len sent unsent)
    (hhead : ∃ g ∈ slist.head?, g.xmit ≠ 0) : sent ≠ [] := by
  rintro rfl
  obtain ⟨g, hg, hxmit⟩ := hhead
  rw [h.slist, List.nil_append] at hg
  exact hxmit (h.unsent_xmit g (List.mem_of_mem_head? hg))

/-- The first segment not sent yet, cut to what may go out. -/
theorem Linked.cutFirst {g : SSegment} {n : BitVec 32} (h : Steady closing Y inc stream s)
    (hqueue : Queued s sent (g :: unsent)) (hctl : g.flags ≠ FLAG_CTL) (hlt : n < g.len) :
    Steady closing Y inc stream (s.cutSegment g n 0) ∧
      Queued (s.cutSegment g n 0) sent ({ g with len := n } :: subsegment g s.outgoing.nextId n :: unsent) := by
  have hbound : s.log.written.length < 2 ^ 31 - 1 := h.out.bound
  have hxmit : g.xmit = 0 := hqueue.unsent_xmit g List.mem_cons_self
  have hcut := hqueue.cut (by omega) hctl hlt
  have hsame : s.cutSegment g n g.xmit = s.cutSegment g n 0 := by rw [hxmit]
  rw [hsame] at hcut
  have hne : s.outgoing.slist ≠ [] := by
    rw [hqueue.slist]
    simp
  refine ⟨⟨{ h.out with
    queue := ⟨_, _, hcut⟩
    fresh := fun hclosing hstate => absurd (h.out.fresh hclosing hstate) hne
    timer := fun htimer => hcut.head? (hqueue.sent_ne (h.out.timer htimer)) }, { h.back with },
    h.incoming, h.written⟩, hcut⟩

theorem Queued.noCtl {g : SSegment} (h : Steady closing Y inc stream s)
    (hqueue : Queued s sent (g :: unsent)) (hlt : s.available < g.len) : g.flags ≠ FLAG_CTL := by
  intro hctl
  obtain ⟨hseq, hend⟩ := hqueue.unsentTiles.head
  have hallowed : g.Allowed := hqueue.stocked.head
  obtain ⟨-, hzero, hlen⟩ | ⟨hflags, -⟩ | ⟨hflags, -⟩ := hallowed
  · have hearly := available_early h (by omega) (by omega)
    bv_omega
  · rw [hctl] at hflags
    exact absurd hflags (by decide)
  · rw [hctl] at hflags
    exact absurd hflags (by decide)

/-- A round of `attempt_send` that transmits: there is less to be sent behind it. -/
theorem sendRound {g : SSegment} {sflags : SendFlags} (h : Steady closing Y inc stream s)
    (hqueue : Queued s sent (g :: unsent)) (hrst : sflags = .rst → closing) (hfin : sflags ≠ .fin)
    (hopen : sflags ≠ .rst → s.available ≠ 0) :
    Yields (fun (r : SocketError × PseudoTcpSocket) => Steady closing Y inc stream r.2 ∧
        (r.1 = .ok → ∃ sent' unsent', Queued r.2 sent' unsent' ∧
          listCost unsent' < listCost (g :: unsent)))
      ((if s.available < g.len ∧ sflags ≠ .fin ∧ sflags ≠ .rst then s.cutSegment g s.available 0
        else s).transmit E g.id now) := by
  have hroom : ¬closing → s.state ≠ .closed → s.outgoing.sndNxt.toNat + s.available.toNat ≤
      Y.incoming.rcvNxt.toNat + Y.incoming.rcvWnd.toNat := by
    intro hclosing hstate
    have hwindow := available_window h (hopen (fun heq => hclosing (hrst heq)))
    exact hwindow.trans (h.out.window hclosing hstate).wnd
  split_ifs with hcut
  · obtain ⟨hlt, -, hnot⟩ := hcut
    obtain ⟨hsteady, hqueue'⟩ := h.cutFirst hqueue (hqueue.noCtl h hlt) hlt
    have hpos := hopen hnot
    refine (transmit_first hsteady hqueue' hroom).imp ?_
    rintro r ⟨hr, hok⟩
    refine ⟨hr, fun heq => ?_⟩
    obtain ⟨sent', unsent', hrest, hcost⟩ := hok heq
    refine ⟨sent', unsent', hrest, ?_⟩
    have hlen : (subsegment g s.outgoing.nextId s.available).len = g.len - s.available := rfl
    rw [listCost_cons, listCost_cons, hlen] at hcost
    rw [listCost_cons]
    obtain rfl | hless := hcost
    · rw [listCost_cons, hlen]
      bv_omega
    · dsimp only at hless
      bv_omega
  · have hfits : ¬closing → g.len.toNat ≤ s.available.toNat := by
      intro hclosing
      have hnot : ¬s.available < g.len := fun hlt => hcut ⟨hlt, hfin, fun heq => hclosing (hrst heq)⟩
      bv_omega
    refine (transmit_first h hqueue ?_).imp ?_
    · intro hclosing hstate
      have hfit := hfits hclosing
      have hin := hroom hclosing hstate
      omega
    · rintro r ⟨hr, hok⟩
      refine ⟨hr, fun heq => ?_⟩
      obtain ⟨sent', unsent', hrest, hcost⟩ := hok heq
      refine ⟨sent', unsent', hrest, ?_⟩
      obtain rfl | hless := hcost
      · rw [listCost_cons]
        omega
      · omega

/-- The loop of `attempt_send` comes to its end, and keeps the streams. -/
theorem sendLoop_spec {sflags : SendFlags} {fuel : ℕ} (h : Steady closing Y inc stream s)
    (hqueue : Queued s sent unsent) (hrst : sflags = .rst → closing) (hfin : sflags ≠ .fin)
    (hfuel : listCost unsent + (if sflags = .duplicateAck then 1 else 0) < fuel) :
    Yields (Steady closing Y inc stream) (sendLoop E now fuel s sflags) := by
  induction fuel generalizing s sent unsent sflags with
  | zero => exact absurd hfuel (Nat.not_lt_zero _)
  | succ fuel ih =>
    rw [sendLoop]
    dsimp only
    by_cases hdup : sflags = .duplicateAck
    · rw [if_pos hdup] at hfuel ⊢
      refine (ackPacket_spec h).bind ?_
      rintro s₁ ⟨hkept, -, hsteady⟩
      exact ih hsteady (hkept.queued hqueue) (fun heq => nomatch heq) (fun heq => nomatch heq)
        (by rw [if_neg (by decide)]; omega)
    · rw [if_neg hdup] at hfuel ⊢
      by_cases hidle : s.available = 0 ∧ sflags ≠ .fin ∧ sflags ≠ .rst
      · rw [if_pos hidle]
        split_ifs with hnone hack
        · exact yields_some h
        · exact (ackPacket_spec h).imp (fun s₁ hs₁ => hs₁.2.2)
        · exact yields_some ⟨{ h.out with }, { h.back with }, h.incoming, h.written⟩
      · rw [if_neg hidle]
        by_cases hnagle : s.congestion.useNagling ∧ sflags ≠ .fin ∧ sflags ≠ .rst ∧
            s.outgoing.sndUna < s.outgoing.sndNxt ∧ s.available < s.congestion.mss
        · rw [if_pos hnagle]
          exact yields_some h
        · rw [if_neg hnagle]
          have hids := hqueue.ids
          cases unsent with
          | nil =>
            rw [hids]
            exact yields_some h
          | cons g unsent =>
            have hopen : sflags ≠ .rst → s.available ≠ 0 :=
              fun hnot hzero => hidle ⟨hzero, hfin, hnot⟩
            have hfind : s.segment? g.id = some g := hqueue.find_unsent
            rw [hids, List.map_cons]
            dsimp only
            rw [hfind]
            refine (sendRound h hqueue hrst hfin hopen).bind ?_
            rintro ⟨err, s₁⟩ ⟨hsteady, hok⟩
            have hnext : (if sflags = .immediateAck ∨ sflags = .delayedAck then .none else sflags) = .none ∨
                (if sflags = .immediateAck ∨ sflags = .delayedAck then .none else sflags) = sflags := by
              split_ifs with hack
              · exact .inl rfl
              · exact .inr rfl
            dsimp only
            generalize (if sflags = .immediateAck ∨ sflags = .delayedAck then .none else sflags) = next
              at hnext ⊢
            by_cases herr : err = .ok
            · obtain ⟨sent', unsent', hqueue', hcost⟩ := hok herr
              rw [if_neg (not_not.mpr herr)]
              obtain rfl | rfl := hnext
              · exact ih hsteady hqueue' (fun heq => nomatch heq) (fun heq => nomatch heq)
                  (by rw [if_neg (by decide)]; omega)
              · exact ih hsteady hqueue' hrst hfin (by rw [if_neg hdup]; omega)
            · rw [if_pos herr]
              refine (closeStates_spec hsteady err).imp ?_
              rintro s₂ ⟨hclosed, -⟩
              exact hclosed.weaken closing

theorem SendQueue.find_mem {slist : List SSegment} {unsentSlist : List ℕ} {nextId una nxt len : ℕ}
    (h : SendQueue slist unsentSlist nextId una nxt len sent unsent) {g : SSegment} (hg : g ∈ unsent) :
    slist.find? (fun x => x.id = g.id) = some g := by
  obtain ⟨pre, post, rfl⟩ := List.append_of_mem hg
  have hnodup := h.stocked.nodup
  rw [← List.append_assoc] at hnodup
  rw [h.slist, ← List.append_assoc]
  exact find?_id hnodup

theorem Queued.unsent_eq (h : Queued s sent unsent) : s.unsent = unsent := by
  have hfind : ∀ g ∈ unsent, s.segment? g.id = some g := fun g hg => h.find_mem hg
  rw [PseudoTcpSocket.unsent, h.ids, List.filterMap_map]
  nth_rewrite 2 [← List.filterMap_some (l := unsent)]
  exact List.filterMap_congr hfind

theorem Linked.ticked (h : Steady closing Y inc stream s) (E : TcpEnv) :
    Steady closing Y inc stream (s.getCurrentTime E).2 := by
  unfold getCurrentTime
  split_ifs with hzero
  · exact h
  · exact ⟨{ h.out with }, { h.back with }, h.incoming, h.written⟩

/-- `attempt_send` keeps the streams. It sends an `RST` only for a socket that is closing, and these
sockets never send a `FIN`. -/
theorem attemptSend_spec {sflags : SendFlags} (h : Steady closing Y inc stream s)
    (hrst : sflags = .rst → closing) (hfin : sflags ≠ .fin) :
    Yields (Steady closing Y inc stream) (s.attemptSend E sflags) := by
  have hticked := Linked.ticked h E
  unfold attemptSend
  dsimp only
  generalize s.getCurrentTime E = r at hticked ⊢
  obtain ⟨now, s₁⟩ := r
  dsimp only at hticked ⊢
  have hstart : Steady closing Y inc stream
      (if (s₁.timing.rxRto.toNat : ℤ) < timeDiff now s₁.outgoing.lastsend then
        { s₁ with congestion.cwnd := s₁.congestion.mss } else s₁) := by
    split_ifs with hlong
    · have hmss := hticked.out.mss
      refine ⟨{ hticked.out with early := fun hzero => ?_ }, { hticked.back with }, hticked.incoming,
        hticked.written⟩
      obtain ⟨hdup, -, hwnd⟩ := hticked.out.early hzero
      exact ⟨hdup, hmss.1.trans' (by decide), hwnd⟩
    · exact hticked
  obtain ⟨sent, unsent, hqueue⟩ := hstart.out.queue
  refine sendLoop_spec hstart hqueue hrst hfin ?_
  rw [rounds, hqueue.unsent_eq, ← listCost]
  split_ifs
  · omega
  · omega

end Loops

end Carrier.Session
