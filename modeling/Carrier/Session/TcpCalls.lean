import Carrier.Session.TcpSending

/-! What an application does with a pseudo-TCP socket keeps both of its streams. -/
namespace Carrier.Session
open Carrier.Lib PseudoTcpSocket

section Queue

variable {E : TcpEnv} {s Y : PseudoTcpSocket} {closing : Prop} {inc : Incoming} {stream data : Bytes}
  {flags : UInt8} {sent unsent : List SSegment}

/-- Data that there is room for, behind those in the send buffer. -/
theorem SendBuffer.write {sbuf : PseudoTcpFifo} {una : ℕ} (h : SendBuffer sbuf una stream)
    (hfit : data.length ≤ sbuf.getWriteRemaining) :
    (sbuf.write data).1 = data.length ∧ SendBuffer (sbuf.write data).2 una (stream ++ data) := by
  have hlength := h.length
  have hcount : (sbuf.write data).1 = data.length := by
    change (sbuf.writeOffset data 0).1 = data.length
    rw [sbuf.writeOffset_count, Nat.sub_zero]
    exact min_eq_left hfit
  have hdata : (sbuf.write data).2.dataLength = sbuf.dataLength + data.length := by
    rw [← hcount, ← sbuf.writeOffset_dataLength data 0]
    rfl
  have hcap : (sbuf.write data).2.bufferLength = sbuf.bufferLength := sbuf.writeOffset_bufferLength data 0
  refine ⟨hcount, ?_, hcap.trans h.capacity, ?_⟩
  · rw [hdata, List.length_append]
    omega
  · intro i hi
    rw [hdata] at hi
    have hroom : i < sbuf.bufferLength := by
      unfold PseudoTcpFifo.getWriteRemaining at hfit
      have hle := sbuf.dataLength_le_bufferLength
      omega
    have hcell : (sbuf.write data).2.cell i = (sbuf.writeOffset data 0).2.cell i := rfl
    have hcount' : (sbuf.writeOffset data 0).1 = data.length := hcount
    rw [hcell, sbuf.writeOffset_cell data 0 hroom, hcount', Nat.add_zero]
    by_cases hold : i < sbuf.dataLength
    · rw [if_neg (by omega), h.cells i hold, List.getElem?_append_left (by omega)]
    · rw [if_pos (by omega), List.getElem?_append_right (by omega)]
      congr 1
      omega

theorem modify_last {α : Type*} (l : List α) (x : α) (f : α → α) :
    (l ++ [x]).modify ((l ++ [x]).length - 1) f = l ++ [f x] := by
  rw [List.length_append, List.length_singleton, Nat.add_sub_cancel,
    List.modify_eq_take_cons_drop (by simp)]
  simp

/-- What `queue` leaves: the same socket, but for its segments and its stream. -/
structure Enqueued (s s' : PseudoTcpSocket) (data : Bytes) (sent unsent : List SSegment) : Prop where
  queue : Queued s' sent unsent
  buffer : SendBuffer s'.outgoing.sbuf s.outgoing.sndUna.toNat (s.log.written ++ data)
  same : s' = { s with
    outgoing.slist := s'.outgoing.slist
    outgoing.unsentSlist := s'.outgoing.unsentSlist
    outgoing.nextId := s'.outgoing.nextId
    outgoing.sbuf := s'.outgoing.sbuf
    log.written := s.log.written ++ data }

def kept (s : PseudoTcpSocket) (data : Bytes) : Bytes := data.take s.outgoing.sbuf.getWriteRemaining

/-- What `queue` does with the segments once the data fit. -/
def enqueue (s : PseudoTcpSocket) (data : Bytes) (flags : UInt8) : PseudoTcpSocket :=
  if s.outgoing.slist.getLast?.any (fun g => g.flags = flags ∧ g.xmit = 0) then
    { s with
      outgoing.slist := s.outgoing.slist.modify (s.outgoing.slist.length - 1)
        (fun g => { g with len := g.len + BitVec.ofNat 32 data.length }) }
  else
    { s with
      outgoing.slist := s.outgoing.slist ++ [⟨s.outgoing.nextId,
        s.outgoing.sndUna + BitVec.ofNat 32 s.outgoing.sbuf.getBuffered,
        BitVec.ofNat 32 data.length, 0, flags⟩]
      outgoing.unsentSlist := s.outgoing.unsentSlist ++ [s.outgoing.nextId]
      outgoing.nextId := s.outgoing.nextId + 1 }

theorem queue_eq (hfits : flags = FLAG_NONE ∨ data.length ≤ s.outgoing.sbuf.getWriteRemaining) :
    s.queue data flags =
      some (((enqueue s (kept s data) flags).outgoing.sbuf.write (kept s data)).1,
        { enqueue s (kept s data) flags with
          outgoing.sbuf := ((enqueue s (kept s data) flags).outgoing.sbuf.write (kept s data)).2
          log.written := (enqueue s (kept s data) flags).log.written ++
            (kept s data).take ((enqueue s (kept s data) flags).outgoing.sbuf.write (kept s data)).1 }) := by
  by_cases hlong : s.outgoing.sbuf.getWriteRemaining < data.length
  · have hnone : flags = FLAG_NONE := hfits.resolve_right (not_le.mpr hlong)
    unfold queue
    dsimp only
    rw [if_pos hlong, if_pos hnone]
    rfl
  · have hkept : kept s data = data := List.take_of_length_le (not_lt.mp hlong)
    unfold queue
    dsimp only
    rw [if_neg hlong, hkept]
    rfl

/-- What is appended to a segment, or begins one, has a segment of its kind. -/
theorem allowed_more {g : SSegment} {n : ℕ} (hg : g.Allowed) (hctl : g.flags ≠ FLAG_CTL)
    (hn : Allowed g.flags s.log.written.length n) : Allowed g.flags g.seq.toNat (g.len.toNat + n) := by
  obtain ⟨hflags, -⟩ | ⟨hflags, hseq⟩ | ⟨hflags, hlen⟩ := hg
  · exact absurd hflags hctl
  · exact .inr (.inl ⟨hflags, hseq⟩)
  · rw [hflags] at hn ⊢
    obtain ⟨hbad, -⟩ | ⟨hbad, -⟩ | ⟨-, hzero⟩ := hn
    · exact absurd hbad (by decide)
    · exact absurd hbad (by decide)
    · exact .inr (.inr ⟨rfl, by omega⟩)

/-- The segments with the new data are a queue of the longer stream. -/
theorem enqueue_queued (hqueue : Queued s sent unsent)
    (hbuffer : SendBuffer s.outgoing.sbuf s.outgoing.sndUna.toNat s.log.written)
    (hbound : s.log.written.length + data.length < seqBound)
    (hctl : flags = FLAG_CTL → s.outgoing.slist = [])
    (hnew : Allowed flags s.log.written.length data.length) :
    ∃ unsent', SendQueue (enqueue s data flags).outgoing.slist (enqueue s data flags).outgoing.unsentSlist
      (enqueue s data flags).outgoing.nextId s.outgoing.sndUna.toNat s.outgoing.sndNxt.toNat
      (s.log.written.length + data.length) sent unsent' := by
  have hlen : (BitVec.ofNat 32 data.length).toNat = data.length := by
    unfold seqBound at hbound
    rw [BitVec.toNat_ofNat]
    omega
  unfold enqueue
  by_cases happend : s.outgoing.slist.getLast?.any (fun g => g.flags = flags ∧ g.xmit = 0)
  · rw [if_pos happend]
    obtain ⟨g, hlast, hg⟩ := (Option.any_eq_true ..).mp happend
    obtain ⟨hflags, hxmit⟩ := of_decide_eq_true hg
    have hslist := hqueue.slist
    obtain rfl | ⟨unsent, x, rfl⟩ := List.eq_nil_or_concat unsent
    · rw [List.append_nil] at hslist
      rw [hslist] at hlast
      exact absurd hxmit (hqueue.xmit g (List.mem_of_getLast? hlast))
    · rw [List.concat_eq_append] at hqueue hslist
      rw [← List.append_assoc] at hslist
      rw [hslist, List.getLast?_concat] at hlast
      obtain rfl := Option.some.inj hlast
      have hg : x.Allowed := hqueue.stocked.allowed x (by simp)
      have hnot : x.flags ≠ FLAG_CTL := by
        intro heq
        have hnil := hctl (hflags.symm.trans heq)
        rw [hslist] at hnil
        exact absurd hnil (by simp)
      have htiles := hqueue.unsentTiles
      rw [tiles_append] at htiles
      obtain ⟨b, -, -, hend⟩ := htiles
      have hsum : (x.len + BitVec.ofNat 32 data.length).toNat = x.len.toNat + data.length := by
        change b + x.len.toNat = _ at hend
        unfold seqBound at hbound
        bv_omega
      have hallowed : SSegment.Allowed { x with len := x.len + BitVec.ofNat 32 data.length } := by
        rw [SSegment.Allowed, hsum]
        exact allowed_more hg hnot (hflags ▸ hnew)
      have hgrown := hqueue.grow { x with len := x.len + BitVec.ofNat 32 data.length } rfl rfl rfl
        (by rw [hsum]; exact Nat.le_add_right _ _) hallowed
      dsimp only at hgrown ⊢
      rw [hsum, Nat.add_sub_cancel_left] at hgrown
      rw [hslist, modify_last, List.append_assoc]
      exact ⟨_, hgrown⟩
  · rw [if_neg happend]
    have hseq : (s.outgoing.sndUna + BitVec.ofNat 32 s.outgoing.sbuf.getBuffered).toNat =
        s.log.written.length := by
      have hlength := hbuffer.length
      unfold seqBound at hbound
      unfold PseudoTcpFifo.getBuffered
      bv_omega
    have hpush := hqueue.push (g := ⟨s.outgoing.nextId,
        s.outgoing.sndUna + BitVec.ofNat 32 s.outgoing.sbuf.getBuffered,
        BitVec.ofNat 32 data.length, 0, flags⟩) rfl hseq rfl
      (by rw [SSegment.Allowed, hseq, hlen]; exact hnew)
    rw [hlen] at hpush
    exact ⟨_, hpush⟩

theorem enqueue_same (s : PseudoTcpSocket) (data : Bytes) (flags : UInt8) :
    enqueue s data flags = { s with
      outgoing.slist := (enqueue s data flags).outgoing.slist
      outgoing.unsentSlist := (enqueue s data flags).outgoing.unsentSlist
      outgoing.nextId := (enqueue s data flags).outgoing.nextId } := by
  unfold enqueue
  split_ifs with happend
  · rfl
  · rfl

theorem length_kept (s : PseudoTcpSocket) (data : Bytes) :
    (kept s data).length = min s.outgoing.sbuf.getWriteRemaining data.length := List.length_take

/-- `queue` puts what there is room for behind the stream. -/
theorem queue_spec (hqueue : Queued s sent unsent)
    (hbuffer : SendBuffer s.outgoing.sbuf s.outgoing.sndUna.toNat s.log.written)
    (hbound : s.log.written.length + data.length < seqBound)
    (hfits : flags = FLAG_NONE ∨ data.length ≤ s.outgoing.sbuf.getWriteRemaining)
    (hctl : flags = FLAG_CTL → s.outgoing.slist = [])
    (hnew : Allowed flags s.log.written.length (kept s data).length) :
    Yields (fun r => r.1 = (kept s data).length ∧ ∃ unsent', Enqueued s r.2 (kept s data) sent unsent')
      (s.queue data flags) := by
  have hkept := length_kept s data
  have hle : (kept s data).length ≤ s.outgoing.sbuf.getWriteRemaining := by omega
  obtain ⟨hcount, hwritten⟩ := hbuffer.write hle
  have hlong : s.log.written.length + (kept s data).length < seqBound := by omega
  obtain ⟨unsent', hqueue'⟩ := enqueue_queued hqueue hbuffer hlong hctl hnew
  have hsame := enqueue_same s (kept s data) flags
  rw [queue_eq hfits]
  generalize enqueue s (kept s data) flags = s₁ at hqueue' hsame ⊢
  have hsbuf : s₁.outgoing.sbuf = s.outgoing.sbuf := by rw [hsame]
  have hlog : s₁.log = s.log := by rw [hsame]
  have hall : (kept s data).take (kept s data).length = kept s data := List.take_length
  rw [hsbuf, hcount, hlog, hall]
  rw [← List.length_append] at hqueue'
  refine yields_some ⟨rfl, unsent', ?_, hwritten, ?_⟩
  · unfold Queued
    rw [hsame]
    exact hqueue'
  · rw [hsame]

/-- A socket that has put data behind its stream, maybe in a new state and with the window that goes
with it, has both streams as before. -/
theorem Linked.enqueued {s' : PseudoTcpSocket} {state : PseudoTcpState} {wnd : BitVec 32}
    {unsent' : List SSegment} (h : Steady closing Y inc stream s) (hqueue : Queued s sent unsent)
    (hnew : Enqueued { s with state := state, outgoing.sndWnd := wnd } s' data sent unsent')
    (hbound : stream.length + data.length < seqBound) (hbegun : Begun state (stream ++ data))
    (hfresh : ¬closing → state ≠ .listen) (hreads : s.shutdownReads = true → state = .closed)
    (hwnd : wnd.toNat < 2 ^ 16)
    (hearly : s.outgoing.sndNxt.toNat = 0 → stream ++ data ≠ [] → 7 ≤ wnd.toNat)
    (hwindow : ¬closing → state ≠ .closed → InWindow s.outgoing.sndUna wnd s.outgoing.sndNxt
      Y.incoming.rcvNxt Y.incoming.rcvWnd Y.incoming.rbuf Y.log.packets) :
    Steady closing Y inc (stream ++ data) s' := by
  obtain ⟨hqueue', hbuffer, hsame⟩ := hnew
  have hwritten := h.written
  have hprefix : s.log.written <+: s.log.written ++ data := List.prefix_append _ _
  subst hwritten
  rw [Steady, hsame]
  rw [Queued, hsame] at hqueue'
  refine ⟨{ h.out with
    limit_le := h.out.limit_le.trans hprefix.length_le
    bound := ?_
    queue := ⟨sent, unsent', hqueue'⟩
    buffer := hbuffer
    begun := hbegun
    fresh := fun hclosing hstate => absurd hstate (hfresh hclosing)
    reads := hreads
    timer := fun htimer => hqueue'.head? (hqueue.sent_ne (h.out.timer htimer))
    wnd_lt := hwnd
    early := ?_
    packets := fun p hp => (h.out.packets p hp).mono hprefix le_rfl h.out.limit_le
    inbound := h.out.inbound.mono hprefix le_rfl h.out.limit_le
    window := hwindow }, { h.back with }, h.incoming, rfl⟩
  · change (s.log.written ++ data).length < seqBound
    rw [List.length_append]
    exact hbound
  · intro hzero
    obtain ⟨hdup, hcwnd, -⟩ := h.out.early hzero
    exact ⟨hdup, hcwnd, hearly hzero⟩

end Queue

section Calls

variable {E : TcpEnv} {s Y : PseudoTcpSocket} {closing : Prop} {inc : Incoming} {stream : Bytes}

/-- A socket as before, but that the stream may be up to `n` bytes longer. -/
def Grown (n : ℕ) (Y : PseudoTcpSocket) (inc : Incoming) (stream : Bytes) (X : PseudoTcpSocket) : Prop :=
  ∃ data : Bytes, data.length ≤ n ∧ Steady False Y inc (stream ++ data) X

theorem Linked.grown (h : Steady False Y inc stream s) (n : ℕ) : Grown n Y inc stream s := by
  refine ⟨[], Nat.zero_le _, ?_⟩
  rw [List.append_nil]
  exact h

theorem queueRst_spec (h : Steady True Y inc stream s) :
    Yields (Steady True Y inc stream) s.queueRstMessage := by
  obtain ⟨sent, unsent, hqueue⟩ := h.out.queue
  have hbound : s.log.written.length + ([] : Bytes).length < seqBound := h.out.bound
  have hlen : (kept s []).length = 0 := by
    rw [kept, List.take_nil]
    rfl
  unfold queueRstMessage
  rw [if_pos h.out.finAck]
  refine (queue_spec hqueue h.out.buffer hbound (.inr (Nat.zero_le _))
    (fun heq => absurd heq (by decide)) (.inr (.inr ⟨rfl, hlen⟩))).map ?_
  rintro ⟨n, s'⟩ ⟨-, unsent', hnew⟩
  have hnil : kept s [] = [] := List.take_nil
  rw [hnil] at hnew
  have hbegun := h.out.begun
  rw [h.written] at hbound hbegun
  have hsame : stream ++ [] = stream := List.append_nil stream
  have hearly : s.outgoing.sndNxt.toNat = 0 → stream ++ [] ≠ [] → 7 ≤ s.outgoing.sndWnd.toNat := by
    rw [hsame, ← h.written]
    exact fun hzero => (h.out.early hzero).2.2
  rw [← hsame] at hbegun ⊢
  exact h.enqueued hqueue hnew hbound hbegun (fun hnot => absurd trivial hnot) h.out.reads h.out.wnd_lt hearly
    (fun hnot => absurd trivial hnot)

/-- `closedown` sends an `RST` if the socket is the one that closes, and closes. -/
theorem closedown_spec (h : Steady False Y inc stream s) (err : SocketError) (source : ClosedownSource) :
    Yields (fun s' => Steady False Y inc stream s' ∧ s'.state = .closed) (s.closedown E err source) := by
  unfold closedown
  by_cases hsource : source = .locally
  · rw [if_pos hsource, if_pos h.out.finAck]
    refine (queueRst_spec (h.weaken True)).bind ?_
    intro s₁ hqueued
    have hsent : Yields (Steady True Y inc stream) (s₁.attemptSend E .rst) :=
      attemptSend_spec hqueued (fun _ => trivial) (by decide)
    exact hsent.bind (fun s₂ hs₂ => closeStates_spec hs₂ err)
  · rw [if_neg hsource]
    exact closeStates_spec h err

theorem connectMessage_eq (h : Steady closing Y inc stream s) : s.connectMessage = connectBytes := by
  rw [connectMessage, h.out.wndScale, h.out.finAck, h.back.rwndScale]
  rfl

theorem Linked.idle (h : Steady closing Y inc stream s) (hstate : s.state = .listen) :
    stream = [] ∧ s.outgoing.sndUna.toNat = 0 ∧ s.outgoing.sndNxt.toNat = 0 ∧
      s.outgoing.sbuf.dataLength = 0 ∧ Y.incoming.rcvNxt.toNat = 0 := by
  have hbegun := h.out.begun
  rw [hstate, h.written] at hbegun
  have hnil : stream = [] := hbegun
  have hlimit := h.out.limit_le
  have hlength := h.out.buffer.length
  have hrcv := h.out.inbound.le
  rw [h.written, hnil, List.length_nil] at hlimit hlength
  exact ⟨hnil, by omega, by omega, by omega, by omega⟩

theorem setState_eq {newState : PseudoTcpState} (h : s.state.transition newState = true) :
    s.setState newState = some { s with state := newState } := by
  unfold setState
  split_ifs with heq
  · rw [heq]
  · rfl

theorem queueConnect_spec {state : PseudoTcpState} (h : Steady False Y inc stream s)
    (hlisten : s.state = .listen) (hstate : state = .synSent ∨ state = .synReceived) :
    Yields (Steady False Y inc connectBytes) (queueConnectMessage { s with state := state }) := by
  obtain ⟨hnil, huna, hnxt, hdata, hrcv⟩ := h.idle hlisten
  obtain ⟨sent, unsent, hqueue⟩ := h.out.queue
  have hwritten : s.log.written = [] := h.written.trans hnil
  have hmessage : connectMessage { s with state := state } = connectBytes := by
    change s.connectMessage = connectBytes
    exact connectMessage_eq h
  have hroom : connectBytes.length ≤ s.outgoing.sbuf.getWriteRemaining := by
    rw [PseudoTcpFifo.getWriteRemaining, hdata, h.out.buffer.capacity]
    decide
  have hkept : kept { s with state := state, outgoing.sndWnd := 7 } connectBytes = connectBytes :=
    List.take_of_length_le hroom
  have hbound : s.log.written.length + connectBytes.length < seqBound := by
    rw [hwritten]
    decide
  have hallowed : Allowed FLAG_CTL s.log.written.length
      (kept { s with state := state, outgoing.sndWnd := 7 } connectBytes).length := by
    rw [hkept, hwritten]
    exact .inl ⟨rfl, rfl, rfl⟩
  have hspec := queue_spec (s := { s with state := state, outgoing.sndWnd := 7 }) hqueue h.out.buffer hbound
    (.inr hroom) (fun _ => h.out.fresh not_false hlisten) hallowed
  unfold queueConnectMessage
  dsimp only
  rw [hmessage]
  refine hspec.bind ?_
  rintro ⟨n, s'⟩ ⟨-, unsent', hnew⟩
  rw [hkept] at hnew
  apply yields_some
  rw [hnil] at h
  refine h.enqueued hqueue hnew (by decide) ?_ ?_ ?_ (by decide) (fun _ _ => le_rfl) ?_
  · obtain rfl | rfl := hstate
    · exact List.prefix_rfl
    · exact List.prefix_rfl
  · intro _ heq
    obtain rfl | rfl := hstate
    · cases heq
    · cases heq
  · intro hreads
    have hclosed := h.out.reads hreads
    rw [hlisten] at hclosed
    cases hclosed
  · intro hclosing _
    have hopen : s.state ≠ .closed := by
      intro heq
      rw [hlisten] at heq
      cases heq
    refine { h.out.window hclosing hopen with wnd := ?_ }
    rw [huna, hrcv, h.out.wide (by omega)]
    decide

theorem connect_spec (h : Steady False Y inc stream s) :
    Yields (fun r => Grown 7 Y inc stream r.2) (s.connect E) := by
  unfold connect
  by_cases hlisten : s.state = .listen
  · obtain ⟨hnil, -⟩ := h.idle hlisten
    have hset : s.setState .synSent = some { s with state := .synSent } := by
      apply setState_eq
      rw [hlisten]
      rfl
    rw [if_neg (not_not.mpr hlisten), hset]
    refine (queueConnect_spec h hlisten (.inl rfl)).bind ?_
    intro s₁ hqueued
    have hsent : Yields (Steady False Y inc connectBytes) (s₁.attemptSend E .none) :=
      attemptSend_spec hqueued (fun heq => nomatch heq) (by decide)
    refine hsent.bind ?_
    intro s₂ hs₂
    refine yields_some ⟨connectBytes, by decide, ?_⟩
    rw [hnil]
    exact hs₂
  · have hsteady : Steady False Y inc stream { s with error := .EINVAL } :=
      ⟨{ h.out with }, { h.back with }, h.incoming, h.written⟩
    rw [if_pos hlisten]
    exact yields_some (hsteady.grown 7)

theorem send_spec {buffer : Bytes} (h : Steady False Y inc stream s)
    (hbound : stream.length + buffer.length < seqBound) :
    Yields (fun r => Grown buffer.length Y inc stream r.2) (s.send E buffer) := by
  unfold send
  by_cases hstate : s.state = .established
  · rw [if_neg (not_not.mpr hstate)]
    by_cases hfull : s.outgoing.sbuf.getWriteRemaining = 0
    · have hsteady : Steady False Y inc stream { s with bWriteEnable := true, error := .EWOULDBLOCK } :=
        ⟨{ h.out with }, { h.back with }, h.incoming, h.written⟩
      rw [if_pos hfull]
      exact yields_some (hsteady.grown _)
    · rw [if_neg hfull]
      obtain ⟨sent, unsent, hqueue⟩ := h.out.queue
      have hbegun : connectBytes <+: s.log.written := by
        have hbegun := h.out.begun
        rw [hstate] at hbegun
        exact hbegun
      have hlong : 7 ≤ s.log.written.length := hbegun.length_le
      have hbound' : s.log.written.length + buffer.length < seqBound := by
        rw [h.written]
        exact hbound
      have hle : (kept s buffer).length ≤ buffer.length := by
        rw [length_kept]
        exact min_le_right _ _
      refine (queue_spec hqueue h.out.buffer hbound' (.inl rfl) (fun heq => absurd heq (by decide))
        (.inr (.inl ⟨rfl, hlong⟩))).bind ?_
      rintro ⟨n, s₁⟩ ⟨-, unsent', hnew⟩
      have hsteady : Steady False Y inc (stream ++ kept s buffer) s₁ := by
        refine h.enqueued hqueue hnew (by omega) ?_ ?_ h.out.reads h.out.wnd_lt ?_ h.out.window
        · rw [hstate, ← h.written]
          exact hbegun.trans (List.prefix_append _ _)
        · rw [hstate]
          exact fun _ heq => nomatch heq
        · intro hzero _
          refine (h.out.early hzero).2.2 ?_
          intro hnil
          rw [hnil] at hlong
          exact absurd hlong (by decide)
      have hsent : Yields (Steady False Y inc (stream ++ kept s buffer)) (s₁.attemptSend E .none) :=
        attemptSend_spec hsteady (fun heq => nomatch heq) (by decide)
      refine hsent.bind ?_
      intro s₂ hs₂
      refine yields_some ⟨kept s buffer, hle, ?_⟩
      dsimp only
      split_ifs with hpart
      · exact ⟨{ hs₂.out with }, { hs₂.back with }, hs₂.incoming, hs₂.written⟩
      · exact hs₂
  · rw [if_pos hstate]
    have hsteady : Steady False Y inc stream
        { s with error := if s.state.hasSentFin then .EPIPE else .ENOTCONN } :=
      ⟨{ h.out with }, { h.back with }, h.incoming, h.written⟩
    exact yields_some (hsteady.grown _)

/-- A socket that has closed only shuts down its reads when it is closed. -/
theorem close_closed (h : Steady False Y inc stream s) (hstate : s.state = .closed) (force : Bool) :
    Yields (fun s' => Steady False Y inc stream s' ∧ s'.state = .closed) (s.close E force) := by
  have hshut : s.shutdownSocket E .rdwr = some { s with shutdownReads := true } := by
    unfold shutdownSocket
    rw [if_neg (not_not.mpr h.out.finAck)]
    dsimp only
    rw [hstate]
    rfl
  rw [close, if_neg (fun hboth => hboth.2 hstate), hshut]
  exact yields_some ⟨⟨{ h.out with reads := fun _ => hstate }, { h.back with }, h.incoming, h.written⟩,
    hstate⟩

theorem close_spec (h : Steady False Y inc stream s) :
    Yields (fun s' => Steady False Y inc stream s' ∧ s'.state = .closed) (s.close E true) := by
  by_cases hstate : s.state = .closed
  · exact close_closed h hstate true
  · rw [close, if_pos ⟨rfl, hstate⟩]
    exact closedown_spec h .ECONNABORTED .locally

/-- The bytes that a call may add to the stream. -/
def AppCall.bytes : AppCall → ℕ
  | .send buffer => buffer.length
  | .close => 0

/-- The bytes that an application may add to the stream of a socket that opens. -/
def TcpEnv.bytes (E : TcpEnv) : ℕ := (E.opened.map AppCall.bytes).sum

theorem appCall_spec {k : AppCall} (h : Steady False Y inc stream s)
    (hbound : stream.length + k.bytes < seqBound) :
    Yields (Grown k.bytes Y inc stream) (s.appCall E k) := by
  cases k with
  | send buffer => exact (send_spec h hbound).map (fun r hr => hr)
  | close => exact (close_spec h).imp (fun s' hs' => hs'.1.grown 0)

theorem adjustMTU_spec (h : Steady False Y inc stream s) : Steady False Y inc stream s.adjustMTU := by
  have hmss : s.congestion.mtuAdvise - PACKET_OVERHEAD = 1284 := by
    rw [h.out.mtu]
    decide
  unfold adjustMTU
  dsimp only
  rw [hmss]
  have hsize : 180 ≤ (1284 : BitVec 32).toNat ∧ (1284 : BitVec 32).toNat ≤ 65419 := by decide
  refine ⟨{ h.out with mss := hsize, ssthresh := ?_, early := ?_ }, { h.back with }, h.incoming,
    h.written⟩
  · change 0 < (maxOf s.congestion.ssthresh (2 * 1284)).toNat
    rw [toNat_maxOf]
    exact lt_max_of_lt_right (by decide)
  · intro hzero
    obtain ⟨hdup, -, hwnd⟩ := h.out.early hzero
    refine ⟨hdup, ?_, hwnd⟩
    change 7 ≤ (maxOf s.congestion.cwnd 1284).toNat
    rw [toNat_maxOf]
    exact le_max_of_le_right (by decide)

/-- A socket that opens, and what the application does then. -/
theorem setStateEstablished_spec (h : Steady False Y inc stream s)
    (hstate : s.state = .synSent ∨ s.state = .synReceived)
    (hbound : stream.length + E.bytes < seqBound) :
    Yields (Grown E.bytes Y inc stream) (s.setStateEstablished E) := by
  have hset : s.setState .established = some { s with state := .established } := by
    apply setState_eq
    obtain hstate | hstate := hstate
    · rw [hstate]
      rfl
    · rw [hstate]
      rfl
  have hopen : s.state ≠ .closed := by
    obtain hstate | hstate := hstate
    · rw [hstate]
      exact fun heq => nomatch heq
    · rw [hstate]
      exact fun heq => nomatch heq
  have hbegun : Begun .established s.log.written := by
    have hbegun := h.out.begun
    obtain hstate | hstate := hstate
    · rw [hstate] at hbegun
      exact hbegun
    · rw [hstate] at hbegun
      exact hbegun
  have hopened : Steady False Y inc stream { s with state := .established } :=
    ⟨{ h.out with
        begun := hbegun
        fresh := fun _ heq => nomatch heq
        reads := fun hreads => absurd (h.out.reads hreads) hopen
        window := fun hclosing _ => h.out.window hclosing hopen }, { h.back with }, h.incoming, h.written⟩
  have hadjusted := adjustMTU_spec hopened
  have hcalled : Steady False Y inc stream ((adjustMTU { s with state := .established }).call .opened) :=
    ⟨{ hadjusted.out with }, { hadjusted.back with }, hadjusted.incoming, hadjusted.written⟩
  unfold setStateEstablished
  rw [hset]
  let I (s : PseudoTcpSocket) (rest : List AppCall) : Prop :=
    ∃ data : Bytes, data.length + (rest.map AppCall.bytes).sum ≤ E.bytes ∧ Steady False Y inc (stream ++ data) s
  have hstep : ∀ s k rest, I s (k :: rest) → Yields (I · rest) (s.appCall E k) := by
    rintro s k rest ⟨data, hle, hs⟩
    rw [List.map_cons, List.sum_cons] at hle
    refine (appCall_spec hs (by rw [List.length_append]; omega)).imp ?_
    rintro s' ⟨more, hmore, hs'⟩
    rw [List.append_assoc] at hs'
    refine ⟨data ++ more, ?_, hs'⟩
    rw [List.length_append]
    omega
  have hstart : I ((adjustMTU { s with state := .established }).call .opened) E.opened := by
    refine ⟨[], ?_, ?_⟩
    · rw [List.length_nil, Nat.zero_add, TcpEnv.bytes]
    · rw [List.append_nil]
      exact hcalled
  refine (Yields.foldlM hstep hstart).imp ?_
  rintro s' ⟨data, hle, hs'⟩
  exact ⟨data, hle, hs'⟩

end Calls

end Carrier.Session
