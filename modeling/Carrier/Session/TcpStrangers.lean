import Carrier.Session.TcpLimits

/-! What holds of a pseudo-TCP socket in every run, whoever sends the packets that arrive. -/
namespace Carrier.Session
open Carrier.Lib PseudoTcpSocket

section Receiving

variable {T : ℕ} {E : TcpEnv} {s : PseudoTcpSocket} {g : Segment} {now : BitVec 32}

theorem applyOption_awaiting (h : Limited T s) (kind : UInt8) (data : Bytes) :
    Awaiting T s (s.applyOption kind data) := by
  unfold applyOption
  split
  · split
    · exact ⟨⟨{ h with }, fun _ => id⟩, .refl _⟩
    · exact .refl h
  · split
    · exact ⟨⟨{ h with }, fun _ => id⟩, .refl _⟩
    · exact .refl h

theorem optionsLoop_awaiting (h : Limited T s) {data : Bytes} {fuel pos : ℕ} {windowScaling finAck : Bool} :
    Gives (fun r => Awaiting T s r.1) (optionsLoop data fuel s pos windowScaling finAck) := by
  induction fuel generalizing s pos windowScaling finAck with
  | zero => exact gives_none
  | succ fuel ih =>
    rw [optionsLoop]
    split_ifs with hend
    · exact gives_some (.refl h)
    · cases data[pos]? with
      | none => exact gives_none
      | some kind =>
        rw [Option.bind_eq_bind, Option.bind_some]
        dsimp only
        split_ifs with heol hnoop hcut
        · exact gives_some (.refl h)
        · exact ih h
        · exact gives_some (.refl h)
        · cases data[pos + 1]? with
          | none => exact gives_none
          | some optLen =>
            rw [Option.bind_some]
            split_ifs with hshort
            · exact gives_some (.refl h)
            · have happlied := applyOption_awaiting h kind (readAt data (pos + 1 + 1) optLen.toNat)
              exact (ih happlied.limited).imp (fun r hr => happlied.trans hr)

/-- The options of a peer do not reach the receive buffer, which has its default size. -/
theorem parseOptions_awaiting (h : Limited T s) (data : Bytes) :
    Gives (Awaiting T s) (s.parseOptions data) := by
  unfold parseOptions
  refine (optionsLoop_awaiting h).bind ?_
  rintro ⟨s₁, found⟩ hs₁
  cases found with
  | none => exact gives_some hs₁
  | some found =>
    obtain ⟨windowScaling, finAck⟩ := found
    have hscale : ¬(¬windowScaling = true ∧ 0 < s₁.incoming.rwndScale) := by
      intro hscaled
      rw [hs₁.limited.rwndScale] at hscaled
      exact absurd hscaled.2 (lt_irrefl 0)
    dsimp only
    rw [if_neg hscale]
    refine gives_some ?_
    split_ifs with hfin
    · exact hs₁
    · exact ⟨⟨{ hs₁.limited with }, hs₁.closed⟩, hs₁.waiting⟩

variable (hclock : ∀ n, (E.clock n).toNat ≤ T)

section

include hclock

theorem processControl_onward (h : Limited T s) : Gives (fun r => Onward T s r.2) (s.processControl E g) := by
  unfold processControl
  split_ifs with hctl
  · cases g.data with
    | nil => exact gives_some (.refl h)
    | cons code options =>
      dsimp only
      split_ifs with hconnect
      · refine (parseOptions_awaiting h options).bind (fun s₁ hs₁ => ?_)
        by_cases hlisten : s₁.state = .listen
        · rw [if_pos hlisten]
          have hset : s₁.setState .synReceived = some { s₁ with state := .synReceived } :=
            setState_eq (by rw [hlisten]; rfl)
          have hs₂ := setState_awaiting hs₁.limited (fun _ => .inr rfl) _ hset
          rw [hset]
          refine (queueConnectMessage_awaiting hs₂.limited nofun).bind (fun s₃ hs₃ => ?_)
          exact gives_some ((hs₁.trans hs₂).trans hs₃).toOnward
        · rw [if_neg hlisten]
          by_cases hsent : s₁.state = .synSent
          · rw [if_pos hsent]
            refine (setStateEstablished_awaiting hclock hs₁.limited).bind (fun s₂ hs₂ => ?_)
            exact gives_some (hs₁.trans hs₂).toOnward
          · rw [if_neg hsent]
            exact gives_some hs₁.toOnward
      · exact gives_some (.refl h)
  · exact gives_some (.refl h)

theorem recoveryTransmit_onward (h : Limited T s) (hnow : now.toNat ≤ T) :
    Gives (fun r => Onward T s r.2) (s.recoveryTransmit E now) := by
  unfold recoveryTransmit
  cases s.outgoing.slist.head? with
  | none => exact gives_none
  | some g =>
    refine transmit_sent.bind ?_
    rintro ⟨err, s₁⟩ ⟨hsent, -⟩
    have hs₁ := (Sent.awaiting hsent hnow h).toOnward
    dsimp only
    split_ifs with herr
    · refine (closedown_awaiting hclock hs₁.limited err .locally).bind (fun s₂ hs₂ => ?_)
      exact gives_some (hs₁.trans hs₂.1.toOnward)
    · exact gives_some hs₁

theorem ackWindow_onward (h : Limited T s) (nAcked : BitVec 32) (hnow : now.toNat ≤ T) :
    Gives (fun r => Onward T s r.2) (s.ackWindow E nAcked now) := by
  unfold ackWindow
  dsimp only
  split_ifs with hmany hdone hslow hzero
  · exact gives_some ⟨{ h with }, fun _ => id⟩
  · refine (recoveryTransmit_onward hclock h hnow).bind ?_
    rintro ⟨go, s₁⟩ hs₁
    dsimp only at hs₁ ⊢
    by_cases hgo : go = true
    · rw [if_neg (not_not.mpr hgo)]
      exact gives_some ⟨{ hs₁.limited with }, hs₁.closed⟩
    · rw [if_pos hgo]
      exact gives_some hs₁
  · exact gives_some ⟨{ h with }, fun _ => id⟩
  · exact gives_none
  · exact gives_some ⟨{ h with }, fun _ => id⟩

theorem fastRetransmit_onward (h : Limited T s) (hnow : now.toNat ≤ T) :
    Gives (fun r => Onward T s r.2) (s.fastRetransmit E g now) := by
  unfold fastRetransmit
  split_ifs with hrecover
  · refine (recoveryTransmit_onward hclock h hnow).bind ?_
    rintro ⟨go, s₁⟩ hs₁
    dsimp only at hs₁ ⊢
    split_ifs with hgo
    · refine gives_some ⟨{ hs₁.limited with ssthresh := ?_ }, hs₁.closed⟩
      exact maxOf_mss_ne hs₁.limited.mss
    · exact gives_some hs₁
  · exact gives_some (.refl h)

theorem duplicateAck_onward (h : Limited T s) (hnow : now.toNat ≤ T) :
    Gives (fun r => Onward T s r.2) (s.duplicateAck E g now) := by
  have hwnd : Onward T s { s with outgoing.sndWnd := s.scaledWindow E g } :=
    ⟨{ h with }, fun _ => id⟩
  have hdup : Onward T s { s with
      outgoing.sndWnd := s.scaledWindow E g, congestion.dupAcks := s.congestion.dupAcks + 1 } :=
    ⟨{ h with }, fun _ => id⟩
  unfold duplicateAck
  dsimp only
  split_ifs with hdata hidle hthird hmore
  · exact gives_some hwnd
  · exact gives_some ⟨{ h with }, fun _ => id⟩
  · exact (fastRetransmit_onward hclock hdup.limited hnow).imp (fun r hr => hdup.trans hr)
  · exact gives_some ⟨{ h with }, fun _ => id⟩
  · exact gives_some hdup

end

theorem bound_rto (rto : BitVec 32) :
    1000 ≤ (bound MIN_RTO rto MAX_RTO).toNat ∧ (bound MIN_RTO rto MAX_RTO).toNat ≤ 60000 := by
  have hmin : MIN_RTO.toNat = 1000 := rfl
  have hmax : MAX_RTO.toNat = 60000 := rfl
  rw [bound, toNat_minOf, toNat_maxOf]
  omega

theorem updateRtt_onward (h : Limited T s) {s' : PseudoTcpSocket} (hs' : s.updateRtt g now = some s') :
    Onward T s s' := by
  unfold updateRtt at hs'
  dsimp only at hs'
  by_cases hzero : g.tsecr = 0
  · rw [if_pos hzero] at hs'
    obtain rfl := Option.some.inj hs'
    exact .refl h
  · rw [if_neg hzero] at hs'
    by_cases hpast : 0 ≤ timeDiff now g.tsecr
    · rw [if_pos hpast] at hs'
      obtain rfl := Option.some.inj hs'
      exact ⟨{ h with rxRto := bound_rto _ }, fun _ => id⟩
    · rw [if_neg hpast] at hs'
      exact nomatch hs'

theorem freeSegments_tried {nFree largest : BitVec 32} {slist : List SSegment} {nextId : ℕ}
    (h : Tried slist nextId) : Gives (fun r => Tried r.1 nextId) (freeSegments nFree slist largest) := by
  induction slist generalizing nFree largest with
  | nil =>
    rw [freeSegments]
    split_ifs
    · exact gives_some h
    · exact gives_none
  | cons x slist ih =>
    rw [freeSegments]
    split_ifs with hzero hpart
    · exact gives_some h
    · refine gives_some ⟨h.nodup, fun y hy => ?_, fun y hy => ?_⟩
      · obtain rfl | hy := List.mem_cons.mp hy
        · exact h.fresh x List.mem_cons_self
        · exact h.fresh y (List.mem_cons_of_mem _ hy)
      · obtain rfl | hy := List.mem_cons.mp hy
        · exact h.xmit x List.mem_cons_self
        · exact h.xmit y (List.mem_cons_of_mem _ hy)
    · exact ih ⟨(List.nodup_cons.mp h.nodup).2, fun y hy => h.fresh y (List.mem_cons_of_mem _ hy),
        fun y hy => h.xmit y (List.mem_cons_of_mem _ hy)⟩

theorem acknowledge_onward (h : Limited T s) (hnow : now.toNat ≤ T) :
    Gives (fun r => Onward T s r.2.2) (s.acknowledge E g now) := by
  unfold acknowledge
  dsimp only
  refine Gives.bind (P := fun _ => True) (fun _ _ => trivial) (fun sbuf _ => ?_)
  refine (freeSegments_tried h.tried).bind ?_
  rintro ⟨slist, largest⟩ htried
  refine gives_some ⟨{ h with rtoBase := ?_, tried := htried }, fun _ => id⟩
  dsimp only
  split_ifs
  · exact Nat.zero_le T
  · exact hnow

theorem finStates_onward (h : Limited T s) (receivedFin isFinAck : Bool) :
    Gives (Onward T s) (s.finStates receivedFin isFinAck) := by
  have hset : ∀ newState, PseudoTcpState.transition .closed newState = false →
      Gives (Onward T s) (s.setState newState) :=
    fun newState hnew => (setState_awaiting h (fun _ => .inr hnew)).imp (fun _ hs => hs.toOnward)
  have hsame : Gives (Onward T s) (some s) := gives_some (.refl h)
  unfold finStates
  cases s.state with
  | established =>
    dsimp only
    split_ifs
    · exact hset .closeWait rfl
    · exact hsame
  | closing =>
    dsimp only
    split_ifs
    · exact hset .timeWait rfl
    · exact hsame
  | lastAck =>
    dsimp only
    split_ifs
    · exact (setStateClosed_awaiting h .ok).imp (fun _ hs => hs.toOnward)
    · exact hsame
  | finWait1 =>
    dsimp only
    split_ifs
    · exact hset .timeWait rfl
    · exact hset .finWait2 rfl
    · exact hset .closing rfl
    · exact hsame
  | finWait2 =>
    dsimp only
    split_ifs
    · exact hset .timeWait rfl
    · exact hsame
  | listen => exact hsame
  | synSent => exact hsame
  | synReceived => exact hsame
  | timeWait => exact hsame
  | closed => exact hsame
  | closeWait => exact hsame

theorem processFin_onward (h : Limited T s) (isFinAck : Bool) :
    Gives (fun r => Onward T s r.2) (s.processFin g isFinAck) := by
  have hseen : Onward T s (if g.has FLAG_FIN then { s with incoming.rcvFin := g.seq } else s) := by
    split_ifs
    · exact ⟨{ h with }, fun _ => id⟩
    · exact .refl h
  unfold processFin
  by_cases hsupport : ¬s.supportFinAck = true
  · rw [if_pos hsupport]
    exact gives_some (.refl h)
  · rw [if_neg hsupport]
    dsimp only
    generalize (if g.has FLAG_FIN then { s with incoming.rcvFin := g.seq } else s) = s₁ at hseen ⊢
    split_ifs with hdata
    · exact gives_some hseen
    · refine (finStates_onward hseen.limited _ _).bind (fun s₂ hs₂ => ?_)
      exact gives_some (hseen.trans hs₂)

theorem notifyWritable_onward (h : Limited T s) : Onward T s s.notifyWritable := by
  unfold notifyWritable
  dsimp only
  split_ifs with hroom
  · exact ⟨{ h with }, fun _ => id⟩
  · exact .refl h

theorem accept_rwndScale {inc : Incoming} {n : BitVec 32} :
    Gives (fun inc' => inc'.rwndScale = inc.rwndScale) (inc.accept n) := by
  unfold Incoming.accept
  cases inc.rbuf.consumeWriteBuffer n.toNat with
  | none => exact gives_none
  | some rbuf => exact gives_some rfl

theorem recoverLoop_rwndScale {rlist : List RSegment} {inc : Incoming} {found : Bool} :
    Gives (fun r => r.1.rwndScale = inc.rwndScale) (recoverLoop rlist inc found) := by
  induction rlist generalizing inc found with
  | nil => exact gives_some rfl
  | cons r rlist ih =>
    rw [recoverLoop]
    split_ifs with hnear hnew
    · refine accept_rwndScale.bind (fun inc₁ hinc₁ => ?_)
      exact ih.imp (fun _ hr => hr.trans hinc₁)
    · exact ih
    · exact gives_some rfl

theorem storeData_onward (h : Limited T s) (sflags : SendFlags) :
    Gives (fun r => Onward T s r.1) (s.storeData g sflags) := by
  unfold storeData
  dsimp only
  split_ifs with hempty hignore hnext hroom hnext
  · exact gives_some (.refl h)
  · exact gives_some ⟨{ h with }, fun _ => id⟩
  · exact gives_some (.refl h)
  · exact gives_none
  · refine accept_rwndScale.bind (fun inc hinc => ?_)
    refine recoverLoop_rwndScale.bind (fun r hr => ?_)
    refine gives_some ⟨{ h with rwndScale := ?_ }, fun _ => id⟩
    exact (hr.trans hinc).trans h.rwndScale
  · exact gives_some ⟨{ h with }, fun _ => id⟩

theorem updateTimestamp_onward (h : Limited T s) : Onward T s (s.updateTimestamp g) := by
  unfold updateTimestamp
  split_ifs
  · exact ⟨{ h with }, fun _ => id⟩
  · exact .refl h

section

include hclock

theorem valuableAck_onward (h : Limited T s) (hnow : now.toNat ≤ T) :
    Gives (fun r => Onward T s r.2) (s.valuableAck E g now) := by
  unfold valuableAck
  cases hrtt : s.updateRtt g now with
  | none => exact gives_some (.refl h)
  | some s₁ =>
    have hs₁ := updateRtt_onward h hrtt
    refine (acknowledge_onward hs₁.limited hnow).bind (fun r hr => ?_)
    refine (ackWindow_onward hclock hr.limited r.1 hnow).bind (fun r' hr' => ?_)
    exact gives_some ((hs₁.trans hr).trans hr')

theorem processAck_onward (h : Limited T s) (hnow : now.toNat ≤ T) :
    Gives (fun r => Onward T s r.2) (s.processAck E g now) := by
  unfold processAck
  split_ifs with hvaluable hsame
  · exact valuableAck_onward hclock h hnow
  · exact (duplicateAck_onward hclock h hnow).bind (fun r hr => gives_some hr)
  · exact gives_some (.refl h)

theorem processStore_onward (h : Limited T s) (receivedFin : Bool) :
    Gives (fun r => Onward T s r.2) (s.processStore E g receivedFin) := by
  have hroom := notifyWritable_onward h
  unfold processStore
  refine (storeData_onward hroom.limited _).bind ?_
  rintro ⟨s₁, sflags, bNewData⟩ hs₁
  have hstored := hroom.trans hs₁
  have hfin : Onward T s (if receivedFin then
      { s₁ with incoming.rcvNxt := s₁.incoming.rcvNxt + 1 } else s₁) := by
    split_ifs
    · exact ⟨{ hstored.limited with }, hstored.closed⟩
    · exact hstored
  refine (attemptSend_awaiting hclock hfin.limited sflags).bind (fun s₂ hs₂ => gives_some ?_)
  have hsent := hfin.trans hs₂.toOnward
  dsimp only
  split_ifs
  · exact ⟨{ hsent.limited with }, hsent.closed⟩
  · exact hsent

theorem processReceive_onward (h : Limited T s) (isFinAck : Bool) :
    Gives (fun r => Onward T s r.2) (s.processReceive E g isFinAck) := by
  unfold processReceive
  refine (processFin_onward h isFinAck).bind ?_
  rintro ⟨fin, s₁⟩ hs₁
  cases fin with
  | none => exact gives_some hs₁
  | some receivedFin =>
    exact (processStore_onward hclock hs₁.limited receivedFin).imp (fun r hr => hs₁.trans hr)

theorem processData_onward (h : Limited T s) (bConnect isFinAck : Bool) :
    Gives (fun r => Onward T s r.2) (s.processData E g bConnect isFinAck) := by
  unfold processData
  split_ifs with hopens
  · refine (setStateEstablished_awaiting hclock h).bind (fun s₁ hs₁ => ?_)
    exact (processReceive_onward hclock hs₁.limited isFinAck).imp (fun r hr => hs₁.toOnward.trans hr)
  · exact processReceive_onward hclock h isFinAck

theorem processSegment_onward (h : Limited T s) (hnow : now.toNat ≤ T) :
    Gives (fun r => Onward T s r.2) (s.processSegment E g now) := by
  unfold processSegment
  refine (processControl_onward hclock h).bind ?_
  rintro ⟨control, s₁⟩ hs₁
  cases control with
  | none => exact gives_some hs₁
  | some bConnect =>
    have hstamped : Onward T s (s₁.updateTimestamp g) := hs₁.trans (updateTimestamp_onward hs₁.limited)
    dsimp only
    unfold processAckData
    refine (processAck_onward hclock hstamped.limited hnow).bind ?_
    rintro ⟨ack, s₂⟩ hs₂
    cases ack with
    | none => exact gives_some (hstamped.trans hs₂)
    | some isFinAck =>
      refine (processData_onward hclock hs₂.limited bConnect isFinAck).imp (fun r hr => ?_)
      exact (hstamped.trans hs₂).trans hr

theorem notifyPacket_onward (h : Limited T s) (buffer : Bytes) :
    Gives (fun r => Onward T s r.2) (s.notifyPacket E buffer) := by
  unfold notifyPacket
  split_ifs with hlong hshort
  · exact gives_some ⟨{ h with }, fun _ => id⟩
  · exact gives_some ⟨{ h with }, fun _ => id⟩
  · generalize Segment.decode buffer = g
    have hnow := h.reading hclock
    have hread : s.getCurrentTime E = (E.clock s.log.ticks, { s with log.ticks := s.log.ticks + 1 }) :=
      if_neg (not_not.mpr h.currentTime)
    unfold process
    rw [hread] at hnow ⊢
    generalize E.clock s.log.ticks = now at hnow ⊢
    have hnoticed : Onward T s (noticed { s with log.ticks := s.log.ticks + 1 } now) :=
      ⟨{ h with }, fun _ => id⟩
    have hdown (err : SocketError) (source : ClosedownSource) : Gives (fun r => Onward T s r.2)
        (((noticed { s with log.ticks := s.log.ticks + 1 } now).closedown E err source).map (false, ·)) :=
      (closedown_awaiting hclock hnoticed.limited err source).map (fun _ hs => hnoticed.trans hs.1.toOnward)
    dsimp only
    split_ifs with hconv hdead hrst hrst
    · exact gives_some (.refl h)
    · exact gives_some hnoticed
    · exact hdown .ok .locally
    · exact hdown .ECONNRESET .remotely
    · exact (processSegment_onward hclock hnoticed.limited hnow).imp (fun r hr => hnoticed.trans hr)

theorem recv_awaiting (h : Limited T s) (len : ℕ) : Gives (fun r => Awaiting T s r.2) (s.recv E len) := by
  unfold recv
  split_ifs with hdown hclosed hidle hnothing
  · exact gives_some (.refl h)
  · exact gives_some (.refl h)
  · exact gives_some ⟨⟨{ h with }, fun _ => id⟩, .refl _⟩
  · exact gives_some (.refl h)
  · dsimp only
    have hread : Awaiting T s { s with
        incoming.rbuf := (s.incoming.rbuf.read len).2
        log.read := s.log.read ++ (s.incoming.rbuf.read len).1 } :=
      ⟨⟨{ h with }, fun _ => id⟩, .refl _⟩
    generalize s.incoming.rbuf.read len = r at hread ⊢
    obtain ⟨data, rbuf⟩ := r
    dsimp only at hread ⊢
    have hwider (rcvWnd : BitVec 32) : Awaiting T s { s with
        incoming.rbuf := rbuf, incoming.rcvWnd := rcvWnd, log.read := s.log.read ++ data } :=
      ⟨⟨{ h with }, fun _ => id⟩, .refl _⟩
    split_ifs with hnone hwide hshut
    · exact gives_some ⟨⟨{ h with }, fun _ => id⟩, .refl _⟩
    · exact (attemptSend_awaiting hclock (hwider _).limited .immediateAck).map
        (fun _ hs => (hwider _).trans hs)
    · exact gives_some (hwider _)
    · exact gives_some hread

theorem getNextClock_awaiting (h : Limited T s) (timeout : ℕ) :
    Gives (fun r => Awaiting T s r.2) (s.getNextClock E timeout) := by
  have hread : s.getCurrentTime E = (E.clock s.log.ticks, { s with log.ticks := s.log.ticks + 1 }) :=
    if_neg (not_not.mpr h.currentTime)
  have hticked : Awaiting T s { s with log.ticks := s.log.ticks + 1 } :=
    ⟨⟨{ h with }, fun _ => id⟩, .refl _⟩
  unfold getNextClock
  rw [hread]
  generalize ({ s with log.ticks := s.log.ticks + 1 } : PseudoTcpSocket) = s₁ at hticked ⊢
  have hdown : Gives (fun r => Awaiting T s r.2)
      ((s₁.closedown E .ok .remotely).map ((none : Option ℕ), ·)) :=
    (closedown_awaiting hclock hticked.limited .ok .remotely).map (fun _ hs => hticked.trans hs.1)
  dsimp only
  split_ifs
  · exact hdown
  · exact hdown
  all_goals exact gives_some hticked

theorem readable_awaiting (h : Limited T s) (len : ℕ) : Gives (Awaiting T s) (s.readable E len) := by
  unfold readable
  refine (recv_awaiting hclock h len).bind ?_
  rintro ⟨data, s₁⟩ hs₁
  dsimp only
  split_ifs with hend
  · exact (close_awaiting hclock hs₁.limited false).imp (fun s₂ hs₂ => hs₁.trans hs₂)
  · exact gives_some hs₁

end

end Receiving

/-- An event of a socket, with what surrounds it: the packets that may arrive are any. -/
structure TcpTurn where
  env : TcpEnv
  packets : List Bytes
  op : TcpOp

def turn (s : PseudoTcpSocket) (t : TcpTurn) : Option PseudoTcpSocket := TcpLink.call t.env s t.packets t.op

def prepared : PseudoTcpSocket := (PseudoTcpSocket.new 1).notifyMtu 1400

def TcpTurn.silent (t : TcpTurn) : Prop := ∀ i, t.op ≠ .deliver i

/-- How often in a run the clock finds the timer of the retransmissions expired. -/
def expiries : PseudoTcpSocket → List TcpTurn → ℕ
  | _, [] => 0
  | s, t :: ts =>
    (if t.op = .clock ∧ clockExpires t.env s then 1 else 0) +
      ((turn s t).map (expiries · ts)).getD 0

section Runs

variable {T : ℕ} {s s' : PseudoTcpSocket} {t : TcpTurn} {ts ts' : List TcpTurn}

theorem prepared_limited (T : ℕ) : Limited T prepared where
  currentTime := rfl
  ackDelay := rfl
  tAck := Nat.zero_le T
  rtoBase := Nat.zero_le T
  lastsend := Nat.zero_le T
  rxRto := by
    change 1000 ≤ DEF_RTO.toNat ∧ DEF_RTO.toNat ≤ 60000
    decide
  mss := by
    change Sized (MIN_PACKET - PACKET_OVERHEAD)
    unfold Sized
    decide
  mtuAdvise := rfl
  ssthresh := by
    change DEFAULT_RCV_BUF_SIZE ≠ 0
    decide
  rwndScale := rfl
  tried := ⟨List.nodup_nil, nofun, nofun⟩

theorem turn_awaiting (h : Limited T s) (hclock : ∀ n, (t.env.clock n).toNat ≤ T) (hsilent : t.silent) :
    Gives (fun s' => Awaiting T s s' ∧ (t.op = .clock ∧ clockExpires t.env s →
      s'.state ≠ .closed → Retried s s')) (turn s t) := by
  obtain ⟨E, packets, op⟩ := t
  have hother {s' : PseudoTcpSocket} (hs' : Awaiting T s s') (hop : op ≠ .clock) : Awaiting T s s' ∧
      (op = .clock ∧ clockExpires E s → s'.state ≠ .closed → Retried s s') :=
    ⟨hs', fun hcase => absurd hcase.1 hop⟩
  unfold turn TcpLink.call
  cases op with
  | connect => exact (connect_awaiting hclock h).map (fun r hr => hother hr (fun heq => nomatch heq))
  | send buffer => exact (send_awaiting hclock h buffer).map (fun r hr => hother hr (fun heq => nomatch heq))
  | readable len => exact (readable_awaiting hclock h len).imp (fun s' hs' => hother hs' (fun heq => nomatch heq))
  | close => exact (close_awaiting hclock h true).imp (fun s' hs' => hother hs' (fun heq => nomatch heq))
  | clock => exact (notifyClock_awaiting hclock h).imp (fun s' hs' => ⟨hs'.1, fun hcase => hs'.2 hcase.2⟩)
  | nextClock timeout =>
    exact (getNextClock_awaiting hclock h timeout).map (fun r hr => hother hr (fun heq => nomatch heq))
  | deliver i => exact absurd rfl (hsilent i)

theorem turn_onward (h : Limited T s) (hclock : ∀ n, (t.env.clock n).toNat ≤ T) :
    Gives (Onward T s) (turn s t) := by
  by_cases hsilent : t.silent
  · exact (turn_awaiting h hclock hsilent).imp (fun s' hs' => hs'.1.toOnward)
  · obtain ⟨i, hop⟩ := not_forall_not.mp hsilent
    unfold turn TcpLink.call
    rw [hop]
    dsimp only
    cases t.packets[i]? with
    | none => exact gives_some (.refl h)
    | some buffer => exact (notifyPacket_onward hclock h buffer).map (fun r hr => hr)

theorem exec_onward (h : Limited T s) (hclock : ∀ t ∈ ts, ∀ n, (t.env.clock n).toNat ≤ T)
    (hs' : exec turn s ts = some s') : Onward T s s' := by
  induction ts generalizing s with
  | nil =>
    obtain rfl := Option.some.inj hs'
    exact .refl h
  | cons t ts ih =>
    obtain ⟨s₁, hs₁, hrest⟩ := exec_cons_eq_some.mp hs'
    have hfirst := turn_onward h (hclock t List.mem_cons_self) s₁ hs₁
    exact hfirst.trans (ih hfirst.limited (fun t ht => hclock t (List.mem_cons_of_mem _ ht)) hrest)

theorem clock_lt (t : TcpTurn) (n : ℕ) : (t.env.clock n).toNat ≤ 2 ^ 32 - 1 :=
  Nat.le_sub_one_of_lt (t.env.clock n).isLt

/-- The first segment has been sent as often as the timer has expired, at least. -/
theorem expiries_le {m : ℕ} (h : Limited T s) (hclock : ∀ t ∈ ts, ∀ n, (t.env.clock n).toNat ≤ T)
    (hsilent : ∀ t ∈ ts, t.silent) (hs' : exec turn s ts = some s') (hopen : s'.state ≠ .closed)
    (hm : m = 0 ∨ ∃ g ∈ s.outgoing.slist.head?, m ≤ g.xmit) : m + expiries s ts ≤ 30 := by
  induction ts generalizing s m with
  | nil =>
    obtain rfl | ⟨g, hg, hle⟩ := hm
    · exact Nat.zero_le 30
    · exact hle.trans (h.tried.xmit g (List.mem_of_mem_head? hg))
  | cons t ts ih =>
    obtain ⟨s₁, hs₁, hrest⟩ := exec_cons_eq_some.mp hs'
    have hclock' : ∀ t ∈ ts, ∀ n, (t.env.clock n).toNat ≤ T :=
      fun t ht => hclock t (List.mem_cons_of_mem _ ht)
    obtain ⟨hfirst, hretried⟩ := turn_awaiting h (hclock t List.mem_cons_self)
      (hsilent t List.mem_cons_self) s₁ hs₁
    have hopen₁ : s₁.state ≠ .closed :=
      fun hclosed => hopen ((exec_onward hfirst.limited hclock' hrest).stays hclosed)
    have hlater {m : ℕ} := ih (m := m) hfirst.limited hclock'
      (fun t ht => hsilent t (List.mem_cons_of_mem _ ht)) hrest
    unfold expiries
    rw [hs₁, Option.map_some, Option.getD_some]
    split_ifs with hexpired
    · obtain ⟨g', hg', hpos, hlt⟩ := hretried hexpired hopen₁
      have hmore : m + 1 ≤ g'.xmit := by
        obtain rfl | ⟨x, hx, hle⟩ := hm
        · exact hpos
        · exact hle.trans_lt (hlt x hx)
      have hcount := hlater (.inr ⟨g', hg', hmore⟩)
      omega
    · have hcount : m + expiries s₁ ts ≤ 30 := by
        apply hlater
        obtain rfl | ⟨x, hx, hle⟩ := hm
        · exact .inl rfl
        · obtain ⟨x', hx', -, hle'⟩ := hfirst.waiting x hx
          exact .inr ⟨x', hx', hle.trans hle'⟩
      omega

/-- Whatever arrives: the timeout of the retransmissions and the size of the segments stay within their
bounds, and no segment is sent more than thirty times. -/
theorem limits_kept (hs : exec turn prepared ts = some s) :
    (1000 ≤ s.timing.rxRto.toNat ∧ s.timing.rxRto.toNat ≤ 60000) ∧
      (180 ≤ s.congestion.mss.toNat ∧ s.congestion.mss.toNat ≤ 65419) ∧ s.congestion.ssthresh ≠ 0 ∧
      (s.outgoing.slist.map SSegment.id).Nodup ∧ ∀ g ∈ s.outgoing.slist, g.xmit ≤ 30 := by
  have hlimited := (exec_onward (prepared_limited _) (fun t _ => clock_lt t) hs).limited
  exact ⟨hlimited.rxRto, hlimited.mss, hlimited.ssthresh, hlimited.tried.nodup, hlimited.tried.xmit⟩

/-- Whatever arrives and is called: a socket that has closed stays closed, and takes no more data. -/
theorem closed_final (hs : exec turn prepared ts = some s) (hs' : exec turn s ts' = some s')
    (hclosed : s.state = .closed) : s'.state = .closed ∧ s'.log.written = s.log.written := by
  have hlimited := (exec_onward (prepared_limited _) (fun t _ => clock_lt t) hs).limited
  exact (exec_onward hlimited (fun t _ => clock_lt t) hs').closed _ ⟨hclosed, rfl⟩

/-- A peer that has gone is noticed: as long as no packet arrives, the timer of the retransmissions
expires at most thirty times before the socket closes. -/
theorem retries_bounded (hs : exec turn prepared ts = some s) (hs' : exec turn s ts' = some s')
    (hsilent : ∀ t ∈ ts', t.silent) (hopen : s'.state ≠ .closed) : expiries s ts' ≤ 30 := by
  have hlimited := (exec_onward (prepared_limited _) (fun t _ => clock_lt t) hs).limited
  have hcount := expiries_le hlimited (fun t _ => clock_lt t) hsilent hs' hopen (.inl rfl)
  rw [Nat.zero_add] at hcount
  exact hcount

end Runs

section Strangers

/-- A packet of a peer that has received the connect message and sent nothing yet. -/
def strangePacket (conv : BitVec 32) (flags : UInt8) (data : Bytes) : Bytes :=
  Segment.encode ⟨conv, 0, 7, flags, 65535, data, 1, 0⟩

def arrivals (packets : List Bytes) : List TcpTurn :=
  (List.range packets.length).map (fun i => ⟨TcpLink.quiet 1, packets, .deliver i⟩)

/-- The peer answers with a window scale of 20, a packet of another conversation and three bytes of no
packet, and data are sent to it. -/
def met : List TcpTurn :=
  ⟨TcpLink.quiet 1, [], .connect⟩ ::
    arrivals [strangePacket 1 FLAG_CTL [CTL_CONNECT, TCP_OPT_WND_SCALE, 1, 20, TCP_OPT_FIN_ACK, 1, 0],
      strangePacket 2 FLAG_RST [], [1, 2, 3]] ++
    [⟨TcpLink.quiet 1, [], .send [1, 2, 3]⟩]

def gone : List TcpTurn :=
  [⟨TcpLink.quiet 2000, [], .clock⟩, ⟨TcpLink.quiet 4001, [], .clock⟩, ⟨TcpLink.quiet 4002, [], .nextClock 0⟩]

def reset : List TcpTurn := arrivals [strangePacket 1 FLAG_RST []]

/-- The application goes on, and the peer connects once more. -/
def afterReset : List TcpTurn :=
  ⟨TcpLink.quiet 2, [], .send [4]⟩ :: arrivals [strangePacket 1 FLAG_CTL [CTL_CONNECT, TCP_OPT_FIN_ACK, 1, 0]]

/-- One evaluation for all of these runs: most of its work is the length of the buffers. -/
theorem met_runs :
    (exec turn prepared met).any (fun s => s.outgoing.swndScale = 20 ∧ s.outgoing.slist.length = 1 ∧
      expiries s gone = 2 ∧ (exec turn s gone).any (fun s' => s'.state ≠ .closed) ∧
      (s.getNextClock (TcpLink.quiet 1) 0).any (fun r => r.1 = some 1001) ∧ s.state = .established) = true ∧
    (exec turn prepared (met ++ reset)).any (fun s => s.state = .closed ∧
      (exec turn s afterReset).isSome) = true := by
  decide +kernel

theorem limits_kept_met : ∃ s, exec turn prepared met = some s ∧
    s.outgoing.swndScale = 20 ∧ s.outgoing.slist.length = 1 ∧
      (1000 ≤ s.timing.rxRto.toNat ∧ s.timing.rxRto.toNat ≤ 60000) ∧
        (180 ≤ s.congestion.mss.toNat ∧ s.congestion.mss.toNat ≤ 65419) ∧ s.congestion.ssthresh ≠ 0 ∧
        (s.outgoing.slist.map SSegment.id).Nodup ∧ ∀ g ∈ s.outgoing.slist, g.xmit ≤ 30 := by
  obtain ⟨s, hs, hfacts⟩ := (Option.any_eq_true ..).mp met_runs.1
  obtain ⟨hscale, hone, -⟩ := of_decide_eq_true hfacts
  exact ⟨s, hs, hscale, hone, limits_kept hs⟩

theorem closed_final_met : ∃ s s', exec turn prepared (met ++ reset) = some s ∧
    exec turn s afterReset = some s' ∧ s.state = .closed ∧
      s'.state = .closed ∧ s'.log.written = s.log.written := by
  obtain ⟨s, hs, hfacts⟩ := (Option.any_eq_true ..).mp met_runs.2
  obtain ⟨hclosed, hafter⟩ := of_decide_eq_true hfacts
  obtain ⟨s', hs'⟩ := Option.isSome_iff_exists.mp hafter
  exact ⟨s, s', hs, hs', hclosed, closed_final hs hs' hclosed⟩

theorem retries_bounded_met : ∃ s, exec turn prepared met = some s ∧
    expiries s gone = 2 ∧ expiries s gone ≤ 30 := by
  obtain ⟨s, hs, hfacts⟩ := (Option.any_eq_true ..).mp met_runs.1
  obtain ⟨-, -, htwice, hopen, -⟩ := of_decide_eq_true hfacts
  obtain ⟨s', hs', hopen⟩ := (Option.any_eq_true ..).mp hopen
  have hsilent : ∀ t ∈ gone, t.silent := by
    simp [gone, TcpTurn.silent]
  exact ⟨s, hs, htwice, retries_bounded hs hs' hsilent (of_decide_eq_true hopen)⟩

end Strangers

end Carrier.Session
