import Carrier.Session.TcpReceiving

/-! Two pseudo-TCP sockets whose packets may be lost, doubled and exchanged: what the one application
reads is what the other has written. -/
namespace Carrier.Session
open Carrier.Lib PseudoTcpSocket

/-- What may happen to a socket: calls of its handler, and the arrival of a packet, by its number in
the log of the peer. A packet that never arrives is lost. -/
inductive TcpOp where
  | connect
  | send (buffer : Bytes)
  | readable (len : ℕ)
  | clock
  | nextClock (timeout : ℕ)
  | close
  | deliver (i : ℕ)
  deriving DecidableEq

/-- An event on one side, with what surrounds the socket there. -/
structure TcpAct where
  side : Side
  env : TcpEnv
  op : TcpOp

/-- The bytes that an event may add to the stream of its socket. -/
def TcpOp.bytes (E : TcpEnv) : TcpOp → ℕ
  | .connect => connectBytes.length
  | .send buffer => buffer.length
  | .deliver _ => connectBytes.length + E.bytes
  | .readable _ | .clock | .nextClock _ | .close => 0

/-- A packet that carries data of the stream only if the connect message has been received. -/
def InTurn (s : PseudoTcpSocket) (buffer : Bytes) : Prop :=
  s.incoming.rcvNxt = 0 →
    (Segment.decode buffer).has FLAG_CTL = true ∨ (Segment.decode buffer).data = []

instance (s : PseudoTcpSocket) (buffer : Bytes) : Decidable (InTurn s buffer) :=
  inferInstanceAs (Decidable (_ → _))

/-- The sockets of both sides. -/
abbrev TcpLink := Side → PseudoTcpSocket

namespace TcpLink

/-- The sockets that the reliable handlers prepare. -/
def init : TcpLink := fun _ => (PseudoTcpSocket.new 1).notifyMtu 1400

def call (E : TcpEnv) (s : PseudoTcpSocket) (packets : List Bytes) : TcpOp → Option PseudoTcpSocket
  | .connect => (s.connect E).map Prod.snd
  | .send buffer => (s.send E buffer).map Prod.snd
  | .readable len => s.readable E len
  | .clock => s.notifyClock E
  | .nextClock timeout => (s.getNextClock E timeout).map Prod.snd
  | .close => s.close E true
  | .deliver i =>
    match packets[i]? with
    | none => some s
    | some buffer => (s.notifyPacket E buffer).map Prod.snd

def step (l : TcpLink) (a : TcpAct) : Option TcpLink :=
  (call a.env (l a.side) (l a.side.other).log.packets a.op).map (Function.update l a.side)

/-- The handler reads into a buffer that has room, and no data come ahead of the connect message. -/
def Expected (s : PseudoTcpSocket) (packets : List Bytes) : TcpOp → Prop
  | .readable len => 0 < len
  | .deliver i => ∀ buffer ∈ packets[i]?, InTurn s buffer
  | .connect | .send _ | .clock | .nextClock _ | .close => True

instance (s : PseudoTcpSocket) (packets : List Bytes) (op : TcpOp) : Decidable (Expected s packets op) := by
  unfold Expected
  split <;> infer_instance

/-- An event as expected, after which the stream is still shorter than the comparisons of its numbers
allow. -/
def Orderly (l : TcpLink) (a : TcpAct) : Prop :=
  Expected (l a.side) (l a.side.other).log.packets a.op ∧
    (l a.side).log.written.length + a.op.bytes a.env < seqBound

instance (l : TcpLink) (a : TcpAct) : Decidable (Orderly l a) := inferInstanceAs (Decidable (_ ∧ _))

def Consistent (l : TcpLink) : Prop := ∀ side : Side, Joined (l side.other) (l side)

theorem init_flow : Flow 0 False ((PseudoTcpSocket.new 1).notifyMtu 1400)
    ((PseudoTcpSocket.new 1).notifyMtu 1400) where
  finAck := rfl
  wndScale := rfl
  shutdown := rfl
  conv := rfl
  swndScale := rfl
  mtu := rfl
  mss := by
    change 180 ≤ (MIN_PACKET - PACKET_OVERHEAD).toNat ∧ (MIN_PACKET - PACKET_OVERHEAD).toNat ≤ 65419
    decide
  ssthresh := by
    change 0 < DEFAULT_RCV_BUF_SIZE.toNat
    decide
  nxt_le := le_rfl
  limit_le := le_rfl
  bound := by
    change 0 < seqBound
    decide
  queue := ⟨[], [], rfl, rfl, ⟨List.nodup_nil, nofun, nofun⟩, nofun, nofun, rfl, rfl⟩
  buffer := ⟨rfl, PseudoTcpFifo.length_zeros _, nofun⟩
  begun := rfl
  fresh _ _ := rfl
  reads hreads := nomatch hreads
  timer htimer := absurd rfl htimer
  recover := le_rfl
  wnd_lt := by
    change (1 : BitVec 32).toNat < 2 ^ 16
    decide
  early _ := by
    refine ⟨rfl, ?_, fun hwritten => absurd rfl hwritten⟩
    change 7 ≤ (2 * (MIN_PACKET - PACKET_OVERHEAD)).toNat
    decide
  packets := nofun
  rcvFin := rfl
  rwndScale := rfl
  rbufLen := rfl
  inbound := by
    refine ⟨.inl ⟨rfl, rfl, rfl, rfl⟩, le_rfl, List.nil_prefix, ?_, nofun, PseudoTcpFifo.length_zeros _⟩
    rintro j - (hlow | ⟨r, hr, -⟩)
    · exact absurd hlow (Nat.not_lt_zero j)
    · exact nomatch hr
  wide _ := rfl
  una_le := le_rfl
  told := nofun
  window _ _ := by
    refine ⟨?_, Nat.zero_le _, ?_, nofun⟩
    · change 0 + (1 : BitVec 32).toNat ≤ 0 + DEFAULT_RCV_BUF_SIZE.toNat
      decide
    · exact (PseudoTcpFifo.init_getWriteRemaining _ rcvBufSize_pos).ge

theorem init_consistent : Consistent init := by
  intro side
  exact ⟨init_flow, init_flow⟩

section Step

variable {E : TcpEnv} {s Y : PseudoTcpSocket} {op : TcpOp}

/-- What an event leaves: both streams, the one of the socket maybe longer. -/
structure Lengthened (n : ℕ) (Y s s' : PseudoTcpSocket) : Prop where
  joined : Joined Y s'
  length : s'.log.written.length ≤ s.log.written.length + n

theorem lengthened_of_grown {n : ℕ} {inc : Incoming} {s' : PseudoTcpSocket}
    (h : Grown n Y inc s.log.written s') : Lengthened n Y s s' := by
  obtain ⟨data, hle, hs'⟩ := h
  refine ⟨Linked.joined hs', ?_⟩
  rw [hs'.written, List.length_append]
  exact Nat.add_le_add_left hle _

theorem lengthened_of_steady {n : ℕ} {inc : Incoming} {s' : PseudoTcpSocket}
    (h : Steady False Y inc s.log.written s') : Lengthened n Y s s' :=
  lengthened_of_grown (h.grown n)

theorem call_spec (h : Joined Y s) (hop : Expected s Y.log.packets op)
    (hbound : s.log.written.length + op.bytes E < seqBound) :
    Yields (Lengthened (op.bytes E) Y s) (call E s Y.log.packets op) := by
  have hsteady := h.steady
  cases op with
  | connect => exact (connect_spec hsteady).map (fun r hr => lengthened_of_grown hr)
  | send buffer => exact (send_spec hsteady hbound).map (fun r hr => lengthened_of_grown hr)
  | readable len =>
    refine (readable_spec hsteady hop).imp ?_
    rintro s' ⟨inc, hs'⟩
    exact lengthened_of_steady hs'
  | clock => exact (notifyClock_spec hsteady).imp (fun s' hs' => lengthened_of_steady hs')
  | nextClock timeout =>
    exact (getNextClock_spec hsteady timeout).map (fun r hr => lengthened_of_steady hr)
  | close => exact (close_spec hsteady).imp (fun s' hs' => lengthened_of_steady hs'.1)
  | deliver i =>
    dsimp only [call]
    cases hpacket : Y.log.packets[i]? with
    | none => exact yields_some (lengthened_of_steady hsteady)
    | some buffer =>
      have hturn := hop buffer hpacket
      refine (notifyPacket_spec hsteady (List.mem_of_getElem? hpacket) hturn hbound).map ?_
      rintro r ⟨inc, hr⟩
      exact lengthened_of_grown hr

end Step

section Runs

variable {l l' : TcpLink} {a : TcpAct} {as : List TcpAct}

/-- An orderly event is admitted, and keeps both streams. -/
theorem step_consistent (h : Consistent l) (ha : Orderly l a) :
    ∃ l', step l a = some l' ∧ Consistent l' ∧ (l' a.side.other) = l a.side.other ∧
      (l' a.side).log.written.length ≤ (l a.side).log.written.length + a.op.bytes a.env := by
  obtain ⟨hop, hbound⟩ := ha
  obtain ⟨s, hs, hjoined, hlength⟩ := call_spec (h a.side) hop hbound
  refine ⟨Function.update l a.side s, ?_, ?_, ?_, ?_⟩
  · rw [step, hs]
    rfl
  · intro side
    obtain hside | hside := Side.eq_or_eq_other a.side side
    · rw [hside, Function.update_self, Function.update_of_ne (Side.other_ne _)]
      exact hjoined
    · rw [hside, Side.other_other, Function.update_self, Function.update_of_ne (Side.other_ne _)]
      exact hjoined.symm
  · exact Function.update_of_ne (Side.other_ne _) s l
  · rw [Function.update_self]
    exact hlength

theorem run_consistent (hrun : Along step Orderly init as) :
    ∃ l, exec step init as = some l ∧ Consistent l := by
  refine exec_progress_along (fun l a h ha => ?_) init_consistent hrun
  obtain ⟨l', hl', hconsistent, -⟩ := step_consistent h ha
  exact ⟨l', hl', hconsistent⟩

theorem exec_consistent (hrun : Along step Orderly init as) (hl : exec step init as = some l) :
    Consistent l := by
  obtain ⟨l', hl', hconsistent⟩ := run_consistent hrun
  rw [hl] at hl'
  obtain rfl := Option.some.inj hl'
  exact hconsistent

/-- In a run of orderly events no assertion of the sockets fails, no freed segment is used, and every
loop comes to its end. -/
theorem run_proceeds (hrun : Along step Orderly init as) : (exec step init as).isSome := by
  obtain ⟨l, hl, -⟩ := run_consistent hrun
  rw [hl]
  rfl

/-- Whatever is lost, doubled or exchanged: what the one application has read is the beginning of what
the other has written, behind the connect message. -/
theorem read_isPrefix (hrun : Along step Orderly init as) (hl : exec step init as = some l) (side : Side) :
    ((l side.other).log.written = [] ∨ connectBytes <+: (l side.other).log.written) ∧
      (l side).log.read <+: (l side.other).log.written.drop connectBytes.length := by
  have hback := (exec_consistent hrun hl side).back
  refine ⟨?_, hback.inbound.handed⟩
  by_cases hnil : (l side.other).log.written = []
  · exact .inl hnil
  · exact .inr (Begun.connected hback.begun hnil)

/-- What has been received in order, read or not, is the stream up to the next number. -/
theorem inbound_contents {stream read : Bytes} {limit : ℕ} {rlist : List RSegment} {rcvNxt : BitVec 32}
    {rbuf : PseudoTcpFifo} (h : Inbound stream limit rlist rcvNxt rbuf read) (hpos : rcvNxt.toNat ≠ 0) :
    read ++ rbuf.readOffset rbuf.dataLength 0 = (stream.take rcvNxt.toNat).drop connectBytes.length := by
  have hprefix : read ++ rbuf.readOffset rbuf.dataLength 0 <+: stream.drop 7 :=
    (h.afterRead rbuf.dataLength).handed
  have hlength : (read ++ rbuf.readOffset rbuf.dataLength 0).length = rcvNxt.toNat - 7 := by
    rw [List.length_append, rbuf.readOffset_length, h.position hpos]
    omega
  rw [List.prefix_iff_eq_take.mp hprefix, hlength, List.drop_take]
  rfl

/-- A number is acknowledged only when it has been received, and received only when it has been sent.
The receiver has the stream up to its next number, and the sender still has it from the first one that
has not been acknowledged. -/
theorem stream_held (hrun : Along step Orderly init as) (hl : exec step init as = some l) (side : Side) :
    (l side.other).outgoing.sndUna.toNat ≤ (l side).incoming.rcvNxt.toNat ∧
      (l side).incoming.rcvNxt.toNat ≤ (l side.other).outgoing.sndNxt.toNat ∧
      ((l side).incoming.rcvNxt ≠ 0 →
        (l side).log.read ++ (l side).incoming.rbuf.readOffset (l side).incoming.rbuf.dataLength 0 =
          ((l side.other).log.written.take (l side).incoming.rcvNxt.toNat).drop connectBytes.length) ∧
      (l side.other).outgoing.sbuf.readOffset (l side.other).outgoing.sbuf.dataLength 0 =
        (l side.other).log.written.drop (l side.other).outgoing.sndUna.toNat := by
  have hback := (exec_consistent hrun hl side).back
  refine ⟨hback.una_le, hback.inbound.le, ?_, ?_⟩
  · intro hne
    exact inbound_contents hback.inbound (fun hzero => hne (by bv_omega))
  · have hlength := hback.buffer.length
    rw [hback.buffer.readOffset (by omega), Nat.add_zero, readAt, List.take_of_length_le]
    rw [List.length_drop]
    omega

/-- As long as the sender has not closed it keeps to the window, the window is not wider than the room
in the receive buffer, and there is room for whatever may still arrive. -/
theorem window_kept (hrun : Along step Orderly init as) (hl : exec step init as = some l) (side : Side)
    (hopen : (l side.other).state ≠ .closed) :
    (l side.other).outgoing.sndNxt.toNat ≤
        (l side).incoming.rcvNxt.toNat + (l side).incoming.rcvWnd.toNat ∧
      (l side).incoming.rcvWnd.toNat ≤ (l side).incoming.rbuf.getWriteRemaining ∧
      ∀ buffer ∈ (l side.other).log.packets, (Segment.decode buffer).data ≠ [] →
        (Segment.decode buffer).seq.toNat + (Segment.decode buffer).data.length ≤
          (l side).incoming.rcvNxt.toNat + (l side).incoming.rbuf.getWriteRemaining := by
  have hback := (exec_consistent hrun hl side).back
  have hwindow := hback.window not_false hopen
  refine ⟨hwindow.nxt, hwindow.room, ?_⟩
  intro buffer hbuffer hdata
  have hnxt := hwindow.nxt
  have hroom := hwindow.room
  obtain ⟨-, ⟨hnil, -⟩ | ⟨-, -, hend⟩⟩ := hback.packets buffer hbuffer
  · exact absurd hnil hdata
  · omega

/-- Packets that carry the same byte wherever they carry the same number. -/
def Agreeing (packets : List Bytes) : Prop :=
  ∀ p ∈ packets, ∀ q ∈ packets, ∀ j,
    (Segment.decode p).seq.toNat ≤ j → j < (Segment.decode p).seq.toNat + (Segment.decode p).data.length →
    (Segment.decode q).seq.toNat ≤ j → j < (Segment.decode q).seq.toNat + (Segment.decode q).data.length →
      (Segment.decode p).data[j - (Segment.decode p).seq.toNat]? =
        (Segment.decode q).data[j - (Segment.decode q).seq.toNat]?

/-- Whatever a socket sends again, in whatever pieces, carries the bytes that it has carried before. -/
theorem packets_agree (hrun : Along step Orderly init as) (hl : exec step init as = some l) (side : Side) :
    Agreeing (l side).log.packets := by
  have hout := (exec_consistent hrun hl side).out
  have hbyte : ∀ p ∈ (l side).log.packets, ∀ j, (Segment.decode p).seq.toNat ≤ j →
      j < (Segment.decode p).seq.toNat + (Segment.decode p).data.length →
        (Segment.decode p).data[j - (Segment.decode p).seq.toNat]? = (l side).log.written[j]? := by
    intro p hp j hlow hhigh
    obtain ⟨-, ⟨hnil, -⟩ | ⟨-, hdata, -⟩⟩ := hout.packets p hp
    · rw [hnil, List.length_nil] at hhigh
      omega
    · rw [hdata, getElem?_readAt, if_pos (by omega)]
      congr 1
      omega
  intro p hp q hq j hlowp hhighp hlowq hhighq
  rw [hbyte p hp j hlowp hhighp, hbyte q hq j hlowq hhighq]

end Runs

section Hello

/-- Surroundings where the clock stands, the network takes everything and nothing is sent at once. -/
def quiet (now : BitVec 32) : TcpEnv := ⟨fun _ => now, fun _ => .success, [], .modWidth⟩

/-- The sockets connect. Of the two bytes that are sent then the first packet is lost; they are read from
the second. -/
def hello : List TcpAct :=
  [⟨.a, quiet 1, .connect⟩, ⟨.b, quiet 1, .deliver 0⟩, ⟨.a, quiet 1, .deliver 0⟩,
    ⟨.a, quiet 1, .send [104, 105]⟩, ⟨.a, quiet 5000, .nextClock 0⟩, ⟨.a, quiet 5000, .clock⟩,
    ⟨.b, quiet 5000, .deliver 2⟩, ⟨.b, quiet 5000, .readable 10⟩]

/-- One evaluation of the run: most of its work is the length of the buffers. -/
theorem hello_runs : Along step Orderly init hello ∧ (exec step init hello).any (fun l =>
    (l .b).log.read = [104, 105] ∧ (l .a).log.packets.length = 3 ∧ (l .a).state = .established ∧
      (l .a).outgoing.sndUna = 7 ∧ (l .a).outgoing.sndNxt = 9 ∧ (l .b).incoming.rcvNxt = 9) = true := by
  decide +kernel

theorem run_proceeds_hello : (exec step init hello).isSome := run_proceeds hello_runs.1

theorem read_isPrefix_hello : ∃ l, exec step init hello = some l ∧ (l .b).log.read = [104, 105] ∧
    ((l Side.b.other).log.written = [] ∨ connectBytes <+: (l Side.b.other).log.written) ∧
      (l .b).log.read <+: (l Side.b.other).log.written.drop connectBytes.length := by
  obtain ⟨l, hl, hfacts⟩ := (Option.any_eq_true ..).mp hello_runs.2
  obtain ⟨hread, -⟩ := of_decide_eq_true hfacts
  exact ⟨l, hl, hread, read_isPrefix hello_runs.1 hl .b⟩

/-- The two bytes have been received, and are not acknowledged yet. -/
theorem stream_held_hello : ∃ l, exec step init hello = some l ∧
    (l .a).outgoing.sndUna = 7 ∧ (l .b).incoming.rcvNxt = 9 ∧
    (l Side.b.other).outgoing.sndUna.toNat ≤ (l .b).incoming.rcvNxt.toNat ∧
      (l .b).incoming.rcvNxt.toNat ≤ (l Side.b.other).outgoing.sndNxt.toNat ∧
      ((l .b).incoming.rcvNxt ≠ 0 →
        (l .b).log.read ++ (l .b).incoming.rbuf.readOffset (l .b).incoming.rbuf.dataLength 0 =
          ((l Side.b.other).log.written.take (l .b).incoming.rcvNxt.toNat).drop connectBytes.length) ∧
      (l Side.b.other).outgoing.sbuf.readOffset (l Side.b.other).outgoing.sbuf.dataLength 0 =
        (l Side.b.other).log.written.drop (l Side.b.other).outgoing.sndUna.toNat := by
  obtain ⟨l, hl, hfacts⟩ := (Option.any_eq_true ..).mp hello_runs.2
  obtain ⟨-, -, -, huna, -, hnxt⟩ := of_decide_eq_true hfacts
  exact ⟨l, hl, huna, hnxt, stream_held hello_runs.1 hl .b⟩

/-- The last two packets carry the same bytes. -/
theorem packets_agree_hello : ∃ l, exec step init hello = some l ∧ (l .a).log.packets.length = 3 ∧
    Agreeing (l .a).log.packets := by
  obtain ⟨l, hl, hfacts⟩ := (Option.any_eq_true ..).mp hello_runs.2
  obtain ⟨-, hthree, -⟩ := of_decide_eq_true hfacts
  exact ⟨l, hl, hthree, packets_agree hello_runs.1 hl .a⟩

theorem window_kept_hello : ∃ l, exec step init hello = some l ∧ (l .a).outgoing.sndNxt = 9 ∧
    (l Side.b.other).outgoing.sndNxt.toNat ≤
        (l .b).incoming.rcvNxt.toNat + (l .b).incoming.rcvWnd.toNat ∧
      (l .b).incoming.rcvWnd.toNat ≤ (l .b).incoming.rbuf.getWriteRemaining ∧
      ∀ buffer ∈ (l Side.b.other).log.packets, (Segment.decode buffer).data ≠ [] →
        (Segment.decode buffer).seq.toNat + (Segment.decode buffer).data.length ≤
          (l .b).incoming.rcvNxt.toNat + (l .b).incoming.rbuf.getWriteRemaining := by
  obtain ⟨l, hl, hfacts⟩ := (Option.any_eq_true ..).mp hello_runs.2
  obtain ⟨-, -, hstate, -, hnxt, -⟩ := of_decide_eq_true hfacts
  have hopen : (l Side.b.other).state ≠ .closed := by
    rw [show (l Side.b.other).state = .established from hstate]
    exact nofun
  exact ⟨l, hl, hnxt, window_kept hello_runs.1 hl .b hopen⟩

end Hello

end TcpLink

end Carrier.Session
