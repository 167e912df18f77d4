import Carrier.Session.TcpFrames
import Carrier.Session.TcpReassembly

/-! Receiving keeps both streams of a pseudo-TCP socket. -/
namespace Carrier.Session
open Carrier.Lib PseudoTcpSocket

section Data

variable {E : TcpEnv} {s Y : PseudoTcpSocket} {inc inc' : Incoming} {stream read : Bytes} {g : Segment}
  {sflags : SendFlags}

/-- The socket once it has received more. -/
theorem Linked.advance (h : Steady False Y inc stream s)
    (hadvanced : Advanced Y.outgoing.sndNxt.toNat s.incoming inc')
    (hinbound : Inbound Y.log.written Y.outgoing.sndNxt.toNat inc'.rlist inc'.rcvNxt inc'.rbuf read) :
    Steady False Y inc' stream { s with incoming := inc', log.read := read } := by
  have hle := hadvanced.le
  refine ⟨{ h.out with }, { h.back with
    rcvFin := hadvanced.rcvFin.trans h.back.rcvFin
    rwndScale := hadvanced.rwndScale.trans h.back.rwndScale
    rbufLen := hadvanced.rbufLen.trans h.back.rbufLen
    inbound := hinbound
    wide := hadvanced.wide h.back.wide
    una_le := h.back.una_le.trans hle
    told := ?_
    window := ?_ }, rfl, h.written⟩
  · intro p hp
    obtain ⟨hack, hrest⟩ := h.back.told p hp
    exact ⟨hack.trans hle, hrest⟩
  · intro hclosing hstate
    have hwindow := h.back.window hclosing hstate
    obtain ⟨hedge, hroom⟩ := hadvanced.window hwindow.nxt hwindow.room
    exact ⟨hwindow.wnd.trans hedge, hwindow.nxt.trans hedge, hroom,
      fun p hp => (hwindow.packets p hp).trans hedge⟩

theorem advanced_write (limit : ℕ) (inc : Incoming) (data : Bytes) (offset : ℕ) (rlist : List RSegment) :
    Advanced limit inc { inc with rbuf := (inc.rbuf.writeOffset data offset).2, rlist := rlist } := by
  refine ⟨le_rfl, ?_, id, rfl, rfl, rfl⟩
  intro _ hroom
  unfold PseudoTcpFifo.getWriteRemaining at hroom ⊢
  rw [PseudoTcpFifo.writeOffset_bufferLength, PseudoTcpFifo.writeOffset_dataLength]
  exact ⟨le_rfl, hroom⟩

theorem mem_insertRSegment {r x : RSegment} {rlist : List RSegment} (hx : x ∈ insertRSegment r rlist) :
    x ∈ r :: rlist := by
  rw [insertRSegment] at hx
  obtain hx | hx := List.mem_append.mp hx
  · exact List.mem_cons_of_mem _ ((List.takeWhile_prefix _).subset hx)
  · obtain rfl | hx := List.mem_cons.mp hx
    · exact List.mem_cons_self
    · exact List.mem_cons_of_mem _ ((List.dropWhile_suffix _).subset hx)

/-- What `storeData` leaves: both streams, and an acknowledgment that is no end of the stream. -/
def Stored (Y : PseudoTcpSocket) (stream : Bytes) (sflags : SendFlags)
    (r : PseudoTcpSocket × SendFlags × Bool) : Prop :=
  (∃ inc, Steady False Y inc stream r.1) ∧ (r.2.1 = sflags ∨ r.2.1 = .immediateAck)

/-- Data that fit are stored: in order they join the stream, with those that came too early. -/
theorem storeData_fitting (h : Steady False Y inc stream s)
    (hg : Fitting Y.log.written Y.outgoing.sndNxt.toNat s.incoming.rcvNxt s.incoming.rbuf g)
    (hctl : g.has FLAG_CTL = false) (hpos : s.incoming.rcvNxt.toNat ≠ 0) (hne : g.data ≠ []) :
    Yields (Stored Y stream sflags) (s.storeData g sflags) := by
  have hlimit : Y.outgoing.sndNxt.toNat < seqBound := h.back.limit_le.trans_lt h.back.bound
  have hend := hg.limit
  have hlen := Segment.toNat_len (hend.trans_lt hlimit)
  have hsome : 0 < g.data.length := List.length_pos_of_ne_nil hne
  have hzero : g.len ≠ 0 := by
    intro heq
    rw [heq] at hlen
    exact absurd hlen (by change 0 ≠ _; omega)
  have hignore : (g.has FLAG_CTL || (!s.supportFinAck && decide (s.shutdown ≠ .none))) = false := by
    rw [hctl, h.out.finAck]
    rfl
  obtain ⟨hcount, -⟩ := hg.written h.back.inbound hpos
  have hwrite := h.back.inbound.write hg hpos (by unfold seqBound at hlimit; omega)
  have hadvanced := advanced_write Y.outgoing.sndNxt.toNat s.incoming g.data
    (g.seq - s.incoming.rcvNxt).toNat
  unfold storeData
  rw [hignore]
  dsimp only
  rw [if_neg hzero, if_neg Bool.false_ne_true]
  generalize s.incoming.rbuf.writeOffset g.data (g.seq - s.incoming.rcvNxt).toNat = w
    at hcount hwrite hadvanced ⊢
  obtain ⟨res, rbuf⟩ := w
  dsimp only at hcount hwrite hadvanced ⊢
  rw [if_neg (not_not.mpr hcount)]
  by_cases horder : g.seq = s.incoming.rcvNxt
  · rw [if_pos horder]
    rw [horder] at hwrite
    have hjoin := join_spec { s.incoming with rbuf := rbuf } hwrite hlimit hpos hzero
    obtain ⟨⟨inc₂, found⟩, heq, hjoined, hinbound⟩ := hjoin
    obtain ⟨inc₁, haccept, hloop⟩ := Option.bind_eq_some_iff.mp heq
    rw [haccept, Option.bind_eq_bind, Option.bind_some, hloop]
    refine yields_some ⟨⟨_, h.advance ((hadvanced s.incoming.rlist).trans hjoined) hinbound⟩, ?_⟩
    cases found with
    | false => exact .inl rfl
    | true => exact .inr rfl
  · rw [if_neg horder]
    refine yields_some ⟨⟨_, h.advance (hadvanced _) ?_⟩, .inl rfl⟩
    exact hwrite.subset hpos (fun x hx => mem_insertRSegment hx)

theorem storeData_nil (hg : g.data = []) (h : Steady False Y inc stream s) :
    Yields (Stored Y stream sflags) (s.storeData g sflags) := by
  have hlen : g.len = 0 := by
    rw [Segment.len, hg]
    rfl
  unfold storeData
  dsimp only
  rw [if_pos hlen]
  exact yields_some ⟨⟨_, h⟩, .inl rfl⟩

/-- The stream of a socket that has sent anything begins with its connect message. -/
theorem Begun.connected {state : PseudoTcpState} (h : Begun state stream) (hne : stream ≠ []) :
    connectBytes <+: stream := by
  cases state with
  | listen => exact absurd h hne
  | synSent => exact h
  | synReceived => exact h
  | established => exact h
  | closed => exact h.resolve_left hne
  | finWait1 => exact h.elim
  | finWait2 => exact h.elim
  | closing => exact h.elim
  | timeWait => exact h.elim
  | closeWait => exact h.elim
  | lastAck => exact h.elim

/-- A control segment is the connect message; the others have no such flag. -/
theorem Arrived.control (hg : Arrived Y g) (h : Steady False Y inc stream s) :
    g.flags = FLAG_CTL ∧ g.seq = 0 ∧ g.data = connectBytes ∧ 7 ≤ Y.outgoing.sndNxt.toNat ∨
      g.has FLAG_CTL = false := by
  obtain ⟨-, ⟨-, hflags⟩ | ⟨hallowed, hdata, hend⟩⟩ := hg.genuine h
  · right
    obtain hflags | hflags := hflags
    · rw [Segment.has, hflags]
      decide
    · rw [Segment.has, hflags]
      decide
  · obtain ⟨hflags, hseq, hlen⟩ | ⟨hflags, -⟩ | ⟨hflags, -⟩ := hallowed
    · left
      have hlimit := h.back.limit_le
      have hne : Y.log.written ≠ [] := by
        intro hnil
        rw [hnil, List.length_nil] at hlimit
        omega
      obtain ⟨rest, hrest⟩ := Begun.connected h.back.begun hne
      refine ⟨hflags, by bv_omega, ?_, by omega⟩
      rw [hdata, hseq, hlen, ← hrest]
      rfl
    · right
      rw [Segment.has, hflags]
      decide
    · right
      rw [Segment.has, hflags]
      decide

/-- The connect message is the beginning of the stream. -/
theorem Linked.connected (h : Steady False Y inc stream s) (hzero : s.incoming.rcvNxt.toNat = 0)
    (hend : 7 ≤ Y.outgoing.sndNxt.toNat) :
    Steady False Y { s.incoming with rcvNxt := 7 } stream { s with incoming.rcvNxt := 7 } := by
  obtain ⟨-, hrlist, hdata, hread⟩ := h.back.inbound.synced.resolve_right (by omega)
  have hseven : (7 : BitVec 32).toNat = 7 := rfl
  have hadvanced : Advanced Y.outgoing.sndNxt.toNat s.incoming { s.incoming with rcvNxt := 7 } := by
    refine ⟨?_, ?_, ?_, rfl, rfl, rfl⟩
    · rw [hzero]
      exact Nat.zero_le _
    · intro _ hroom
      dsimp only
      rw [hzero, hseven]
      exact ⟨by omega, hroom⟩
    · intro hwide _
      exact hwide (by omega)
  refine h.advance hadvanced { h.back.inbound with synced := .inr ?_, le := hend, cells := ?_ }
  · dsimp only
    rw [hseven, hread, hdata]
    rfl
  · intro j hj hheld
    rw [hread, List.length_nil, Nat.add_zero] at hj
    obtain hlow | ⟨r, hr, -⟩ := hheld
    · dsimp only at hlow
      omega
    · dsimp only at hr
      rw [hrlist] at hr
      exact absurd hr List.not_mem_nil

/-- A connect message is not stored: it is the beginning of the stream, or has been received before. -/
theorem storeData_connect (h : Steady False Y inc stream s) (hg : g.data = connectBytes)
    (hseq : g.seq = 0) (hflags : g.flags = FLAG_CTL) (hend : 7 ≤ Y.outgoing.sndNxt.toNat) :
    Yields (Stored Y stream sflags) (s.storeData (s.trimRight (s.trimLeft g)) sflags) := by
  have hlen : g.len = 7 := by
    rw [Segment.len, hg]
    rfl
  have hlimit : Y.outgoing.sndNxt.toNat < seqBound := h.back.limit_le.trans_lt h.back.bound
  have hle := h.back.inbound.le
  have hrcv : s.incoming.rcvNxt.toNat < seqBound := by omega
  have hsmaller := smaller_iff (a := 0) (b := s.incoming.rcvNxt) (by decide) hrcv
  by_cases hzero : s.incoming.rcvNxt.toNat = 0
  · have hnxt : s.incoming.rcvNxt = 0 := by bv_omega
    obtain ⟨-, -, hdata, -⟩ := h.back.inbound.synced.resolve_right (by omega)
    have hleft : s.trimLeft g = g := by
      unfold trimLeft
      rw [hseq, if_neg]
      rw [hsmaller, hzero]
      exact lt_irrefl _
    have hspace : s.incoming.rbuf.getWriteRemaining = DEFAULT_RCV_BUF_SIZE.toNat := by
      rw [PseudoTcpFifo.getWriteRemaining, hdata, h.back.inbound.capacity]
      rfl
    have hright : s.trimRight g = g := by
      unfold trimRight
      dsimp only
      rw [hspace, hseq, hlen, hnxt, if_neg (by decide)]
    have hcontrol : g.has FLAG_CTL = true := by
      rw [Segment.has, hflags]
      decide
    have hseven : s.incoming.rcvNxt + g.len = 7 := by
      rw [hnxt, hlen]
      decide
    rw [hleft, hright]
    unfold storeData
    dsimp only
    rw [hcontrol, Bool.true_or, if_neg (by rw [hlen]; decide), if_pos rfl, if_pos (by rw [hseq, hnxt]),
      hseven]
    exact yields_some ⟨⟨_, h.connected hzero hend⟩, .inl rfl⟩
  · have hposition := h.back.inbound.position hzero
    have hnil : (s.trimLeft g).data = [] := by
      unfold trimLeft
      dsimp only
      rw [hseq, if_pos (hsmaller.mpr (by change 0 < _; omega)), hlen, if_neg (by bv_omega)]
    exact storeData_nil (trimRight_nil hnil) h

/-- The data of a segment, in whatever part they are new and there is room for them. -/
theorem storeData_spec (h : Steady False Y inc stream s) (hg : Arrived Y g)
    (hturn : inc.rcvNxt = 0 → g.has FLAG_CTL = true ∨ g.data = []) :
    Yields (Stored Y stream sflags) (s.storeData (s.trimRight (s.trimLeft g)) sflags) := by
  have hlimit : Y.outgoing.sndNxt.toNat < seqBound := h.back.limit_le.trans_lt h.back.bound
  have hle := h.back.inbound.le
  obtain ⟨hflags, hseq, hconnect, hend⟩ | hplain := hg.control h
  · exact storeData_connect h hconnect hseq hflags hend
  · by_cases hnil : g.data = []
    · exact storeData_nil (trimRight_nil (trimLeft_nil hnil)) h
    · have hpos : s.incoming.rcvNxt.toNat ≠ 0 := by
        intro hzero
        rw [← h.incoming] at hturn
        obtain hcontrol | hnil' := hturn (by bv_omega)
        · rw [hplain] at hcontrol
          exact Bool.false_ne_true hcontrol
        · exact hnil hnil'
      have hcarries : Brings Y.log.written Y.outgoing.sndNxt.toNat g := by
        obtain ⟨-, ⟨hnil', -⟩ | ⟨-, hcarries⟩⟩ := hg.genuine h
        · exact absurd hnil' hnil
        · exact hcarries
      obtain hleft | ⟨hleft, hlow⟩ := trimLeft_spec hcarries hlimit (hle.trans_lt hlimit)
      · exact storeData_nil (trimRight_nil hleft) h
      · obtain hright | hright := trimRight_spec hleft hlimit h.back.inbound.capacity hlow
        · exact storeData_nil hright h
        · have hctl : (s.trimRight (s.trimLeft g)).has FLAG_CTL = false := by
            rw [Segment.has, trimRight_flags, trimLeft_flags]
            exact hplain
          by_cases hempty : (s.trimRight (s.trimLeft g)).data = []
          · exact storeData_nil hempty h
          · exact storeData_fitting h hright hctl hpos hempty

end Data

section Process

variable {E : TcpEnv} {s Y : PseudoTcpSocket} {inc : Incoming} {stream : Bytes} {g : Segment}
  {now : BitVec 32}

/-- The options of the connect message are those that the socket has itself. -/
theorem parseOptions_connect (h : Steady False Y inc stream s) :
    s.parseOptions [3, 1, 0, 254, 1, 0] = some s := by
  have hparse : s.parseOptions [3, 1, 0, 254, 1, 0] =
      some { s with outgoing.swndScale := 0, supportFinAck := true } := rfl
  rw [hparse, ← h.out.swndScale, ← h.out.finAck]

/-- A connect message opens the connection from one side; other segments pass. -/
theorem processControl_spec (h : Steady False Y inc stream s) (hg : Arrived Y g)
    (hbound : stream.length + (7 + E.bytes) < seqBound) :
    Yields (fun r => r = (some false, s) ∨
        g.has FLAG_CTL = true ∧ r.1 = some true ∧ Grown (7 + E.bytes) Y inc stream r.2)
      (s.processControl E g) := by
  unfold processControl
  obtain ⟨hflags, -, hdata, -⟩ | hplain := hg.control h
  · have hctl : g.has FLAG_CTL = true := by
      rw [Segment.has, hflags]
      decide
    have hcode : (0 : UInt8) = CTL_CONNECT := rfl
    rw [if_pos hctl, hdata]
    dsimp only [connectBytes]
    rw [if_pos hcode, parseOptions_connect h]
    dsimp only [Option.bind_eq_bind, Option.bind_some]
    by_cases hlisten : s.state = .listen
    · have hset : s.setState .synReceived = some { s with state := .synReceived } := by
        apply setState_eq
        rw [hlisten]
        rfl
      obtain ⟨hnil, -⟩ := h.idle hlisten
      rw [if_pos hlisten, hset]
      refine (queueConnect_spec h hlisten (.inr rfl)).bind ?_
      intro s₁ hs₁
      refine yields_some (.inr ⟨hctl, rfl, connectBytes, Nat.le_add_right _ _, ?_⟩)
      rw [hnil]
      exact hs₁
    · rw [if_neg hlisten]
      by_cases hsent : s.state = .synSent
      · rw [if_pos hsent]
        refine (setStateEstablished_spec h (.inl hsent) (by omega)).bind ?_
        rintro s₁ ⟨data, hle, hs₁⟩
        exact yields_some (.inr ⟨hctl, rfl, data, hle.trans (Nat.le_add_left _ _), hs₁⟩)
      · rw [if_neg hsent]
        exact yields_some (.inr ⟨hctl, rfl, h.grown _⟩)
  · rw [if_neg (by rw [hplain]; exact Bool.false_ne_true)]
    exact yields_some (.inl rfl)

theorem Arrived.noFin (hg : Arrived Y g) (h : Steady False Y inc stream s) : g.has FLAG_FIN = false := by
  obtain ⟨-, ⟨-, hflags⟩ | ⟨hallowed, -⟩⟩ := hg.genuine h
  · obtain hflags | hflags := hflags
    · rw [Segment.has, hflags]
      decide
    · rw [Segment.has, hflags]
      decide
  · obtain ⟨hflags, -⟩ | ⟨hflags, -⟩ | ⟨hflags, -⟩ := hallowed
    · rw [Segment.has, hflags]
      decide
    · rw [Segment.has, hflags]
      decide
    · rw [Segment.has, hflags]
      decide

/-- No `FIN` is taken to have been received: zero is behind every segment that has not been. -/
theorem processFin_eq (h : Steady False Y inc stream s) (hg : Arrived Y g) :
    s.processFin g false = some (some false, s) := by
  have hfin := hg.noFin h
  have hlimit : Y.outgoing.sndNxt.toNat < seqBound := h.back.limit_le.trans_lt h.back.bound
  have hle := h.back.inbound.le
  have hnone : decide (s.incoming.rcvNxt ≠ 0 ∧ s.incoming.rcvNxt + g.len = s.incoming.rcvFin) = false := by
    apply decide_eq_false
    rw [h.back.rcvFin]
    rintro ⟨hpos, hsum⟩
    have hlen : g.len.toNat ≤ Y.outgoing.sndNxt.toNat := by
      obtain ⟨-, ⟨hnil, -⟩ | ⟨-, -, hend⟩⟩ := hg.genuine h
      · rw [Segment.len, hnil]
        exact Nat.zero_le _
      · rw [Segment.toNat_len (hend.trans_lt hlimit)]
        omega
    unfold seqBound at hlimit
    bv_omega
  have hstates : s.finStates false false = some s := by
    unfold finStates
    cases s.state <;> rfl
  unfold processFin
  dsimp only
  rw [if_neg (not_not.mpr h.out.finAck), hfin, if_neg Bool.false_ne_true,
    if_neg (fun hboth => Bool.false_ne_true hboth.1), hnone, hstates]
  rfl

theorem ackFlags_ne (s : PseudoTcpSocket) (g : Segment) :
    s.ackFlags g false ≠ .fin ∧ s.ackFlags g false ≠ .rst := by
  unfold ackFlags
  split_ifs <;> decide

theorem notifyWritable_spec (h : Steady False Y inc stream s) :
    Steady False Y inc stream s.notifyWritable := by
  unfold notifyWritable
  dsimp only
  split_ifs with hroom
  · exact ⟨{ h.out with }, { h.back with }, h.incoming, h.written⟩
  · exact h

/-- A socket that has both streams, of which the one it sends may be up to `n` bytes longer. -/
def Continued (n : ℕ) (Y : PseudoTcpSocket) (stream : Bytes) (X : PseudoTcpSocket) : Prop :=
  ∃ inc, Grown n Y inc stream X

/-- The data of a segment, and the acknowledgment that goes with them. -/
theorem processStore_spec (h : Steady False Y inc stream s) (hg : Arrived Y g)
    (hturn : inc.rcvNxt = 0 → g.has FLAG_CTL = true ∨ g.data = []) :
    Yields (fun r => ∃ inc, Steady False Y inc stream r.2) (s.processStore E g false) := by
  obtain ⟨hfin, hrst⟩ := ackFlags_ne s.notifyWritable g
  unfold processStore
  dsimp only
  refine (storeData_spec (notifyWritable_spec h) hg hturn).bind ?_
  rintro ⟨s₁, sflags', bNewData⟩ ⟨⟨inc₁, hs₁⟩, hflags'⟩
  have hsend : Yields (Steady False Y inc₁ stream) (s₁.attemptSend E sflags') := by
    obtain heq | heq := hflags'
    · dsimp only at heq
      rw [heq]
      exact attemptSend_spec hs₁ (fun heq => absurd heq hrst) hfin
    · dsimp only at heq
      rw [heq]
      exact attemptSend_spec hs₁ (fun heq => nomatch heq) (by decide)
  refine hsend.bind ?_
  intro s₂ hs₂
  refine yields_some ⟨inc₁, ?_⟩
  dsimp only
  split_ifs with hread
  · exact ⟨{ hs₂.out with }, { hs₂.back with }, hs₂.incoming, hs₂.written⟩
  · exact hs₂

theorem processReceive_spec (h : Steady False Y inc stream s) (hg : Arrived Y g)
    (hturn : inc.rcvNxt = 0 → g.has FLAG_CTL = true ∨ g.data = []) :
    Yields (fun r => ∃ inc, Steady False Y inc stream r.2) (s.processReceive E g false) := by
  unfold processReceive
  rw [processFin_eq h hg]
  dsimp only [Option.bind_eq_bind, Option.bind_some]
  exact processStore_spec h hg hturn

/-- The part of `process` behind the acknowledgment. A connection that is being opened from the other
side is established by the first segment that is no connect message. -/
theorem processData_spec {bConnect : Bool} {n : ℕ} (h : Steady False Y inc stream s) (hg : Arrived Y g)
    (hturn : inc.rcvNxt = 0 → g.has FLAG_CTL = true ∨ g.data = [])
    (hbound : bConnect = false → E.bytes ≤ n ∧ stream.length + n < seqBound) :
    Yields (fun r => Continued n Y stream r.2) (s.processData E g bConnect false) := by
  have hgrown {s₁ : PseudoTcpSocket} (hs₁ : Grown n Y inc stream s₁) :
      Yields (fun r => Continued n Y stream r.2) (s₁.processReceive E g false) := by
    obtain ⟨data, hle, hsteady⟩ := hs₁
    refine (processReceive_spec hsteady hg hturn).imp ?_
    rintro r ⟨inc₁, hr⟩
    exact ⟨inc₁, data, hle, hr⟩
  unfold processData
  by_cases hopens : s.state = .synReceived ∧ ¬bConnect
  · obtain ⟨hstate, hplain⟩ := hopens
    obtain ⟨hle, hroom⟩ := hbound (Bool.eq_false_of_not_eq_true hplain)
    rw [if_pos ⟨hstate, hplain⟩]
    refine (setStateEstablished_spec h (.inr hstate) (by omega)).bind ?_
    rintro s₁ ⟨data, hdata, hs₁⟩
    exact hgrown ⟨data, hdata.trans hle, hs₁⟩
  · rw [if_neg hopens]
    exact hgrown (h.grown n)

theorem updateTimestamp_spec (h : Steady False Y inc stream s) :
    Steady False Y inc stream (s.updateTimestamp g) := by
  unfold updateTimestamp
  split_ifs with hold
  · exact ⟨{ h.out with }, { h.back with }, h.incoming, h.written⟩
  · exact h

/-- The acknowledgment of a segment, and what is behind it. -/
theorem processAckData_spec {bConnect : Bool} {n : ℕ} (h : Steady False Y inc stream s) (hg : Arrived Y g)
    (hturn : inc.rcvNxt = 0 → g.has FLAG_CTL = true ∨ g.data = [])
    (hbound : bConnect = false → E.bytes ≤ n ∧ stream.length + n < seqBound) :
    Yields (fun r => Continued n Y stream r.2) (s.processAckData E g now bConnect) := by
  unfold processAckData
  refine (processAck_spec (updateTimestamp_spec h) hg).bind ?_
  rintro ⟨ack, s₁⟩ ⟨hs₁, hfin⟩
  cases ack with
  | none => exact yields_some ⟨inc, hs₁.grown n⟩
  | some isFinAck =>
    obtain rfl : isFinAck = false := hfin isFinAck rfl
    exact processData_spec hs₁ hg hturn hbound

/-- `process` for an open connection. -/
theorem processSegment_spec (h : Steady False Y inc stream s) (hg : Arrived Y g)
    (hturn : inc.rcvNxt = 0 → g.has FLAG_CTL = true ∨ g.data = [])
    (hbound : stream.length + (7 + E.bytes) < seqBound) :
    Yields (fun r => Continued (7 + E.bytes) Y stream r.2) (s.processSegment E g now) := by
  unfold processSegment
  refine (processControl_spec h hg hbound).bind ?_
  rintro ⟨control, s₁⟩ (heq | ⟨-, hcontrol, data, hle, hs₁⟩)
  · obtain ⟨rfl, rfl⟩ := Prod.mk.inj heq
    exact processAckData_spec h hg hturn (fun _ => ⟨Nat.le_add_left _ _, hbound⟩)
  · obtain rfl : control = some true := hcontrol
    have hrest : Yields (fun r => Continued 0 Y (stream ++ data) r.2) (s₁.processAckData E g now true) :=
      processAckData_spec hs₁ hg hturn (fun hfalse => absurd hfalse (by decide))
    refine hrest.imp ?_
    rintro r ⟨inc₁, more, hmore, hr⟩
    rw [List.append_assoc] at hr
    refine ⟨inc₁, data ++ more, ?_, hr⟩
    rw [List.length_append]
    omega

/-- `process` for a segment that the peer has sent. -/
theorem process_spec (h : Steady False Y inc stream s) (hg : Arrived Y g)
    (hturn : inc.rcvNxt = 0 → g.has FLAG_CTL = true ∨ g.data = [])
    (hbound : stream.length + (7 + E.bytes) < seqBound) :
    Yields (fun r => Continued (7 + E.bytes) Y stream r.2) (s.process E g) := by
  have hconv : g.conv = s.conv := (hg.genuine h).1.trans h.out.conv.symm
  have hticked := Linked.ticked h E
  unfold process
  rw [if_neg (not_not.mpr hconv)]
  dsimp only
  generalize s.getCurrentTime E = r at hticked ⊢
  obtain ⟨now, s₁⟩ := r
  dsimp only at hticked ⊢
  have hstart : Steady False Y { inc with lastrecv := now } stream (s₁.noticed now) := by
    have hincoming := hticked.incoming
    refine ⟨{ hticked.out with }, { hticked.back with }, ?_, hticked.written⟩
    rw [← hincoming]
    rfl
  have hclosed (err : SocketError) (source : ClosedownSource) :
      Yields (fun r : Bool × PseudoTcpSocket => Continued (7 + E.bytes) Y stream r.2)
        (((s₁.noticed now).closedown E err source).map (false, ·)) := by
    refine (closedown_spec hstart err source).map ?_
    rintro s₂ ⟨hs₂, -⟩
    exact ⟨_, hs₂.grown _⟩
  split_ifs with hdead hreset hreset
  · exact yields_some ⟨_, hstart.grown _⟩
  · exact hclosed .ok .locally
  · exact hclosed .ECONNRESET .remotely
  · exact processSegment_spec hstart hg hturn hbound

end Process

section Reading

variable {E : TcpEnv} {s Y : PseudoTcpSocket} {inc : Incoming} {stream read : Bytes} {limit : ℕ}
  {rlist : List RSegment} {rcvNxt : BitVec 32} {rbuf : PseudoTcpFifo}

/-- `pseudo_tcp_socket_notify_packet` for a packet that the peer has sent. -/
theorem notifyPacket_spec {buffer : Bytes} (h : Steady False Y inc stream s)
    (hbuffer : buffer ∈ Y.log.packets)
    (hturn : inc.rcvNxt = 0 → (Segment.decode buffer).has FLAG_CTL = true ∨ (Segment.decode buffer).data = [])
    (hbound : stream.length + (7 + E.bytes) < seqBound) :
    Yields (fun r => Continued (7 + E.bytes) Y stream r.2) (s.notifyPacket E buffer) := by
  have herror (err : SocketError) : Steady False Y inc stream { s with error := err } :=
    ⟨{ h.out with }, { h.back with }, h.incoming, h.written⟩
  unfold notifyPacket
  split_ifs with hlong hshort
  · exact yields_some ⟨inc, (herror .EMSGSIZE).grown _⟩
  · exact yields_some ⟨inc, (herror .EINVAL).grown _⟩
  · exact process_spec h ⟨buffer, hbuffer, rfl⟩ hturn hbound

theorem Inbound.afterRead (h : Inbound stream limit rlist rcvNxt rbuf read) (len : ℕ) :
    Inbound stream limit rlist rcvNxt (rbuf.read len).2 (read ++ (rbuf.read len).1) := by
  have hlen : (rbuf.read len).1.length = min len rbuf.dataLength := by
    change (rbuf.readOffset len 0).length = _
    rw [rbuf.readOffset_length, Nat.sub_zero]
  have hskip : (rbuf.read len).2 = rbuf.skip (rbuf.read len).1.length := rfl
  have hhanded : read ++ (rbuf.read len).1 <+: stream.drop 7 := by
    obtain ⟨rest, hrest⟩ := h.handed
    rw [← hrest, List.prefix_append_right_inj, List.prefix_iff_getElem?]
    intro i hi
    have hdata : i < rbuf.dataLength := by omega
    have hcell : (rbuf.read len).1[i]? = rbuf.cell i := by
      change (rbuf.readOffset len 0)[i]? = _
      rw [rbuf.readOffset_getElem? (by omega) (by omega), Nat.zero_add]
    have hposition : rcvNxt.toNat = 7 + read.length + rbuf.dataLength :=
      h.synced.resolve_left (fun hzero => by omega)
    have hstream := h.cells (7 + read.length + i) (by omega) (.inl (by omega))
    have hrest' : rest[i]? = stream[7 + read.length + i]? := by
      have hdrop : (read ++ rest)[read.length + i]? = (stream.drop 7)[read.length + i]? := by rw [hrest]
      rw [List.getElem?_append_right (by omega), Nat.add_sub_cancel_left, List.getElem?_drop,
        ← Nat.add_assoc] at hdrop
      exact hdrop
    rw [Nat.add_sub_cancel_left] at hstream
    rw [← List.getElem?_eq_getElem hi, hcell, hrest', hstream]
  refine ⟨?_, h.le, hhanded, ?_, ?_, h.capacity⟩
  · rw [List.length_append, hskip, PseudoTcpFifo.skip_dataLength]
    obtain ⟨hzero, hrlist, hdata, hread⟩ | hsynced := h.synced
    · have hnil : (rbuf.read len).1 = [] := List.eq_nil_of_length_eq_zero (by omega)
      exact .inl ⟨hzero, hrlist, by omega, by rw [hread, hnil]; rfl⟩
    · right
      omega
  · intro j hj hheld
    rw [List.length_append] at hj ⊢
    rw [hskip, PseudoTcpFifo.skip_cell, ← h.cells j (by omega) hheld]
    congr 1
    omega
  · intro r hr
    obtain ⟨hend, hroom⟩ := h.ahead r hr
    rw [List.length_append]
    refine ⟨hend, ?_⟩
    change _ ≤ _ + rbuf.bufferLength
    omega

/-- Reading makes room, and the window may be opened as far as that goes. -/
theorem Linked.reopened (h : Steady False Y inc stream s) :
    Steady False Y { s.incoming with rcvWnd := BitVec.ofNat 32 s.incoming.rbuf.getWriteRemaining } stream
      { s with incoming.rcvWnd := BitVec.ofNat 32 s.incoming.rbuf.getWriteRemaining } := by
  have hspace : s.incoming.rbuf.getWriteRemaining ≤ 61440 :=
    (Nat.sub_le _ _).trans_eq h.back.inbound.capacity
  have hwnd : (BitVec.ofNat 32 s.incoming.rbuf.getWriteRemaining).toNat =
      s.incoming.rbuf.getWriteRemaining := by
    rw [BitVec.toNat_ofNat]
    omega
  refine h.advance ⟨le_rfl, ?_, ?_, rfl, rfl, rfl⟩ h.back.inbound
  · intro _ hroom
    dsimp only
    rw [hwnd]
    exact ⟨Nat.add_le_add_left hroom _, le_rfl⟩
  · intro _ hle
    have hempty : s.incoming.rbuf.dataLength = 0 := by
      dsimp only at hle
      obtain ⟨-, -, hdata, -⟩ | hsynced := h.back.inbound.synced
      · exact hdata
      · omega
    dsimp only
    rw [PseudoTcpFifo.getWriteRemaining, hempty, h.back.inbound.capacity]
    decide

theorem Linked.ended (h : Steady False Y inc stream s)
    (hfin : s.state.hasReceivedFin ∨ s.state.hasReceivedFinAck) : s.state = .closed := by
  have hbegun := h.out.begun
  cases hstate : s.state with
  | closed => rfl
  | listen =>
    rw [hstate] at hfin
    exact absurd hfin (by decide)
  | synSent =>
    rw [hstate] at hfin
    exact absurd hfin (by decide)
  | synReceived =>
    rw [hstate] at hfin
    exact absurd hfin (by decide)
  | established =>
    rw [hstate] at hfin
    exact absurd hfin (by decide)
  | finWait1 => exact (hstate ▸ hbegun : Begun .finWait1 _).elim
  | finWait2 => exact (hstate ▸ hbegun : Begun .finWait2 _).elim
  | closing => exact (hstate ▸ hbegun : Begun .closing _).elim
  | timeWait => exact (hstate ▸ hbegun : Begun .timeWait _).elim
  | closeWait => exact (hstate ▸ hbegun : Begun .closeWait _).elim
  | lastAck => exact (hstate ▸ hbegun : Begun .lastAck _).elim

/-- `pseudo_tcp_socket_recv` hands out the next bytes of the stream. It hands out none of them only
for a socket that has closed. -/
theorem recv_spec {len : ℕ} (h : Steady False Y inc stream s) (hlen : 0 < len) :
    Yields (fun r => (∃ inc, Steady False Y inc stream r.2) ∧ (r.1 = some [] → r.2.state = .closed))
      (s.recv E len) := by
  have hread : Steady False Y { s.incoming with rbuf := (s.incoming.rbuf.read len).2 } stream
      { s with
        incoming.rbuf := (s.incoming.rbuf.read len).2
        log.read := s.log.read ++ (s.incoming.rbuf.read len).1 } := by
    refine h.advance ⟨le_rfl, ?_, id, rfl, rfl, rfl⟩ (h.back.inbound.afterRead len)
    intro _ hroom
    refine ⟨le_rfl, hroom.trans ?_⟩
    change _ ≤ s.incoming.rbuf.bufferLength - (s.incoming.rbuf.dataLength - _)
    unfold PseudoTcpFifo.getWriteRemaining
    omega
  have hreopened := hread.reopened
  have hend : ¬((s.incoming.rbuf.read len).1 = [] ∧
      ¬(s.state.hasReceivedFin = true ∨ s.state.hasReceivedFinAck = true)) →
        some (s.incoming.rbuf.read len).1 = some [] → s.state = .closed :=
    fun hsome heq => h.ended (not_not.mp (fun hnot => hsome ⟨Option.some.inj heq, hnot⟩))
  unfold recv
  dsimp only
  split_ifs with hshut hclosed hopen hzero hnone hedge hwas
  · exact yields_some ⟨⟨inc, h⟩, fun _ => h.out.reads hshut.2⟩
  · exact yields_some ⟨⟨inc, h⟩, fun _ => hclosed.2⟩
  · exact yields_some ⟨⟨inc, { h.out with }, { h.back with }, h.incoming, h.written⟩,
      fun heq => nomatch heq⟩
  · exact absurd hzero hlen.ne'
  · exact yields_some ⟨⟨_, { hread.out with }, { hread.back with }, rfl, hread.written⟩,
      fun heq => nomatch heq⟩
  · obtain ⟨s₁, hsend, hs₁⟩ := attemptSend_spec (E := E) hreopened
      (fun heq => absurd heq (by decide : SendFlags.immediateAck ≠ .rst)) (by decide)
    rw [hsend]
    exact yields_some ⟨⟨_, hs₁⟩, fun heq => (attemptSend_sent s₁ hsend).closed (hend hnone heq)⟩
  · exact yields_some ⟨⟨_, hreopened⟩, hend hnone⟩
  · exact yields_some ⟨⟨_, hread⟩, hend hnone⟩

theorem readable_spec {len : ℕ} (h : Steady False Y inc stream s) (hlen : 0 < len) :
    Yields (fun s' => ∃ inc, Steady False Y inc stream s') (s.readable E len) := by
  unfold readable
  refine (recv_spec h hlen).bind ?_
  rintro ⟨data, s₁⟩ ⟨⟨inc₁, hs₁⟩, hend⟩
  dsimp only
  split_ifs with hnil
  · refine (close_closed hs₁ (hend hnil) false).imp ?_
    rintro s₂ ⟨hs₂, -⟩
    exact ⟨inc₁, hs₂⟩
  · exact yields_some ⟨inc₁, hs₁⟩

end Reading

end Carrier.Session
