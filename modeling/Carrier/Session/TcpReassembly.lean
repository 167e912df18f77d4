import Carrier.Session.TcpAcks

/-! The receive buffer of a pseudo-TCP socket: segments are trimmed to what there is room for, those
that come too early are kept, and what is in order joins the stream. -/
namespace Carrier.Session
open Carrier.Lib PseudoTcpSocket

section Buffer

variable {stream read : Bytes} {limit : ℕ} {rlist rlist' : List RSegment} {rcvNxt : BitVec 32}
  {rbuf : PseudoTcpFifo}

theorem Held.mono {j : ℕ} (h : Held rlist' rcvNxt j) (hsub : ∀ r ∈ rlist', r ∈ rlist) :
    Held rlist rcvNxt j := by
  obtain hlow | ⟨r, hr, hin⟩ := h
  · exact .inl hlow
  · exact .inr ⟨r, hsub r hr, hin⟩

theorem Inbound.subset (h : Inbound stream limit rlist rcvNxt rbuf read) (hpos : rcvNxt.toNat ≠ 0)
    (hsub : ∀ r ∈ rlist', r ∈ rlist) : Inbound stream limit rlist' rcvNxt rbuf read :=
  { h with
    synced := .inr (h.synced.resolve_left (fun hzero => hpos hzero.1))
    cells := fun j hj hheld => h.cells j hj (hheld.mono hsub)
    ahead := fun r hr => h.ahead r (hsub r hr) }

/-- Where a byte of the stream lies in the buffer, for a socket that has the connect message. -/
theorem Inbound.position (h : Inbound stream limit rlist rcvNxt rbuf read) (hpos : rcvNxt.toNat ≠ 0) :
    rcvNxt.toNat = 7 + read.length + rbuf.dataLength :=
  h.synced.resolve_left (fun hzero => hpos hzero.1)

/-- A segment of data behind the ones in order, for which there is room. -/
structure Fitting (stream : Bytes) (limit : ℕ) (rcvNxt : BitVec 32) (rbuf : PseudoTcpFifo)
    (g : Segment) : Prop where
  data : g.data = readAt stream g.seq.toNat g.data.length
  low : rcvNxt.toNat ≤ g.seq.toNat
  limit : g.seq.toNat + g.data.length ≤ limit
  room : g.seq.toNat + g.data.length ≤ rcvNxt.toNat + rbuf.getWriteRemaining

variable {g : Segment}

/-- The data of a segment are written to their place in the buffer, all of them. -/
theorem Fitting.written (hg : Fitting stream limit rcvNxt rbuf g)
    (h : Inbound stream limit rlist rcvNxt rbuf read) (hpos : rcvNxt.toNat ≠ 0) :
    (rbuf.writeOffset g.data (g.seq - rcvNxt).toNat).1 = g.data.length ∧
      ∀ j, 7 + read.length ≤ j → j < 7 + read.length + rbuf.bufferLength →
        (rbuf.writeOffset g.data (g.seq - rcvNxt).toNat).2.cell (j - (7 + read.length)) =
          if g.seq.toNat ≤ j ∧ j < g.seq.toNat + g.data.length then stream[j]?
          else rbuf.cell (j - (7 + read.length)) := by
  have hposition := h.position hpos
  have hcap := rbuf.dataLength_le_bufferLength
  have hlow := hg.low
  have hroom := hg.room
  unfold PseudoTcpFifo.getWriteRemaining at hroom
  have hoffset : (g.seq - rcvNxt).toNat = g.seq.toNat - rcvNxt.toNat := by bv_omega
  have hcount : (rbuf.writeOffset g.data (g.seq - rcvNxt).toNat).1 = g.data.length := by
    rw [rbuf.writeOffset_count, hoffset]
    omega
  refine ⟨hcount, ?_⟩
  intro j hj hjcap
  rw [rbuf.writeOffset_cell _ _ (by omega), hcount, hoffset]
  by_cases hin : g.seq.toNat ≤ j ∧ j < g.seq.toNat + g.data.length
  · rw [if_pos (by omega), if_pos hin, hg.data, getElem?_readAt, if_pos (by omega)]
    congr 1
    omega
  · rw [if_neg (by omega), if_neg hin]

/-- Behind the write the buffer holds what it held, and the segment. -/
theorem Inbound.write (h : Inbound stream limit rlist rcvNxt rbuf read)
    (hg : Fitting stream limit rcvNxt rbuf g) (hpos : rcvNxt.toNat ≠ 0) (hlen : g.data.length < 2 ^ 32) :
    Inbound stream limit (⟨g.seq, g.len⟩ :: rlist) rcvNxt
      (rbuf.writeOffset g.data (g.seq - rcvNxt).toNat).2 read := by
  obtain ⟨-, hcells⟩ := hg.written h hpos
  have hposition := h.position hpos
  have hcap := rbuf.dataLength_le_bufferLength
  have hlimit := hg.limit
  have hroom := hg.room
  unfold PseudoTcpFifo.getWriteRemaining at hroom
  have hglen : g.len.toNat = g.data.length := by
    rw [Segment.len, BitVec.toNat_ofNat]
    exact Nat.mod_eq_of_lt hlen
  refine ⟨.inr ?_, h.le, h.handed, ?_, ?_, ?_⟩
  · rw [rbuf.writeOffset_dataLength]
    exact hposition
  · intro j hj hheld
    have hjcap : j < 7 + read.length + rbuf.bufferLength := by
      obtain hin | ⟨r, hr, -, hhigh⟩ := hheld
      · omega
      · obtain rfl | hr := List.mem_cons.mp hr
        · dsimp only at hhigh
          omega
        · exact hhigh.trans_le (h.ahead r hr).2
    rw [hcells j hj hjcap]
    split_ifs with hin
    · rfl
    · apply h.cells j hj
      obtain hlow | ⟨r, hr, hwithin⟩ := hheld
      · exact .inl hlow
      · obtain rfl | hr := List.mem_cons.mp hr
        · dsimp only at hwithin
          omega
        · exact .inr ⟨r, hr, hwithin⟩
  · intro r hr
    rw [rbuf.writeOffset_bufferLength]
    obtain rfl | hr := List.mem_cons.mp hr
    · dsimp only
      omega
    · exact h.ahead r hr
  · rw [rbuf.writeOffset_bufferLength]
    exact h.capacity

end Buffer

/-- What has been received may only grow: the edge of the window does not move back, and where the
sender keeps to the window there is room for it. -/
structure Advanced (limit : ℕ) (inc inc' : Incoming) : Prop where
  le : inc.rcvNxt.toNat ≤ inc'.rcvNxt.toNat
  window : limit ≤ inc.rcvNxt.toNat + inc.rcvWnd.toNat →
    inc.rcvWnd.toNat ≤ inc.rbuf.getWriteRemaining →
      inc.rcvNxt.toNat + inc.rcvWnd.toNat ≤ inc'.rcvNxt.toNat + inc'.rcvWnd.toNat ∧
        inc'.rcvWnd.toNat ≤ inc'.rbuf.getWriteRemaining
  wide : (inc.rcvNxt.toNat ≤ 7 → inc.rcvWnd = DEFAULT_RCV_BUF_SIZE) →
    inc'.rcvNxt.toNat ≤ 7 → inc'.rcvWnd = DEFAULT_RCV_BUF_SIZE
  rcvFin : inc'.rcvFin = inc.rcvFin
  rwndScale : inc'.rwndScale = inc.rwndScale
  rbufLen : inc'.rbufLen = inc.rbufLen

namespace Advanced

variable {limit : ℕ} {inc inc' inc'' : Incoming}

theorem trans (h : Advanced limit inc inc') (h' : Advanced limit inc' inc'') :
    Advanced limit inc inc'' := by
  refine ⟨h.le.trans h'.le, ?_, h'.wide ∘ h.wide, h'.rcvFin.trans h.rcvFin,
    h'.rwndScale.trans h.rwndScale, h'.rbufLen.trans h.rbufLen⟩
  intro hlimit hroom
  obtain ⟨hedge, hroom'⟩ := h.window hlimit hroom
  obtain ⟨hedge', hroom''⟩ := h'.window (hlimit.trans hedge) hroom'
  exact ⟨hedge.trans hedge', hroom''⟩

end Advanced

section Joining

variable {stream read : Bytes} {limit : ℕ} {rlist : List RSegment} {inc : Incoming} {r : RSegment}

/-- A segment that joins what is in order is accepted up to its end. -/
theorem accept_spec (h : Inbound stream limit (r :: rlist) inc.rcvNxt inc.rbuf read)
    (hlimit : limit < seqBound) (hpos : inc.rcvNxt.toNat ≠ 0) (hlow : r.seq.toNat ≤ inc.rcvNxt.toNat)
    (hhigh : inc.rcvNxt.toNat < r.seq.toNat + r.len.toNat) :
    Yields (fun inc' => Advanced limit inc inc' ∧ inc'.rcvNxt.toNat ≠ 0 ∧ inc'.rlist = inc.rlist ∧
        Inbound stream limit rlist inc'.rcvNxt inc'.rbuf read)
      (inc.accept (r.seq + r.len - inc.rcvNxt)) := by
  obtain ⟨hend, hcap⟩ := h.ahead r List.mem_cons_self
  have hposition := h.position hpos
  have hcapacity := inc.rbuf.dataLength_le_bufferLength
  unfold seqBound at hlimit
  have hn : (r.seq + r.len - inc.rcvNxt).toNat = r.seq.toNat + r.len.toNat - inc.rcvNxt.toNat := by
    bv_omega
  have hfit : (r.seq + r.len - inc.rcvNxt).toNat ≤ inc.rbuf.bufferLength - inc.rbuf.dataLength := by
    omega
  have hnxt : (inc.rcvNxt + (r.seq + r.len - inc.rcvNxt)).toNat = r.seq.toNat + r.len.toNat := by
    bv_omega
  unfold Incoming.accept
  rw [PseudoTcpFifo.consumeWriteBuffer_eq hfit]
  refine yields_some ⟨⟨?_, ?_, ?_, rfl, rfl, rfl⟩, ?_, rfl, ⟨?_, ?_, h.handed, ?_, ?_, h.capacity⟩⟩
  · dsimp only
    omega
  · intro hwindow hroom
    have hwnd : (inc.rcvWnd - (r.seq + r.len - inc.rcvNxt)).toNat =
        inc.rcvWnd.toNat - (r.seq + r.len - inc.rcvNxt).toNat := by
      bv_omega
    unfold PseudoTcpFifo.getWriteRemaining at hroom ⊢
    dsimp only
    rw [hwnd, hnxt, PseudoTcpFifo.extend_bufferLength, PseudoTcpFifo.extend_dataLength]
    omega
  · intro _ hle
    dsimp only at hle
    omega
  · dsimp only
    omega
  · right
    dsimp only
    rw [PseudoTcpFifo.extend_dataLength]
    omega
  · dsimp only
    omega
  · intro j hj hheld
    dsimp only at hheld ⊢
    rw [PseudoTcpFifo.extend_cell]
    apply h.cells j hj
    obtain hin | ⟨x, hx, hwithin⟩ := hheld
    · by_cases hold : j < inc.rcvNxt.toNat
      · exact .inl hold
      · exact .inr ⟨r, List.mem_cons_self, by omega, by omega⟩
    · exact .inr ⟨x, List.mem_cons_of_mem _ hx, hwithin⟩
  · intro x hx
    exact h.ahead x (List.mem_cons_of_mem _ hx)

/-- The segments that came too early join what is in order as far as they reach it. -/
theorem recoverLoop_spec {found : Bool} (h : Inbound stream limit rlist inc.rcvNxt inc.rbuf read)
    (hlimit : limit < seqBound) (hpos : inc.rcvNxt.toNat ≠ 0) :
    Yields (fun x => Advanced limit inc x.1 ∧
        Inbound stream limit x.1.rlist x.1.rcvNxt x.1.rbuf read)
      (recoverLoop rlist inc found) := by
  induction rlist generalizing inc found with
  | nil => exact yields_some ⟨⟨le_rfl, fun _ hroom => ⟨le_rfl, hroom⟩, id, rfl, rfl, rfl⟩, h⟩
  | cons r rlist ih =>
    obtain ⟨hend, -⟩ := h.ahead r List.mem_cons_self
    have hle := h.le
    have hseq : r.seq.toNat < seqBound := by omega
    have hrcv : inc.rcvNxt.toNat < seqBound := by omega
    have hsum : (r.seq + r.len).toNat = r.seq.toNat + r.len.toNat := by
      unfold seqBound at hlimit
      bv_omega
    rw [recoverLoop]
    by_cases hreach : SmallerOrEqual r.seq inc.rcvNxt
    · rw [if_pos hreach]
      rw [smallerOrEqual_iff hseq hrcv] at hreach
      by_cases hmore : Larger (r.seq + r.len) inc.rcvNxt
      · rw [if_pos hmore]
        rw [larger_iff (by omega) hrcv, hsum] at hmore
        refine (accept_spec h hlimit hpos hreach hmore).bind ?_
        rintro inc₁ ⟨hadvanced, hpos₁, -, hinbound⟩
        refine (ih hinbound hpos₁).imp ?_
        rintro x ⟨hx, hrest⟩
        exact ⟨hadvanced.trans hx, hrest⟩
      · rw [if_neg hmore]
        exact ih (h.subset hpos (fun x hx => List.mem_cons_of_mem _ hx)) hpos
    · rw [if_neg hreach]
      exact yields_some ⟨⟨le_rfl, fun _ hroom => ⟨le_rfl, hroom⟩, id, rfl, rfl, rfl⟩, h⟩

/-- A segment in order joins the stream, and those that came too early behind it. -/
theorem join_spec (inc : Incoming) {len : BitVec 32}
    (h : Inbound stream limit (⟨inc.rcvNxt, len⟩ :: inc.rlist) inc.rcvNxt inc.rbuf read)
    (hlimit : limit < seqBound) (hpos : inc.rcvNxt.toNat ≠ 0) (hlen : len ≠ 0) :
    Yields (fun x => Advanced limit inc x.1 ∧
        Inbound stream limit x.1.rlist x.1.rcvNxt x.1.rbuf read)
      ((inc.accept len).bind (fun inc => recoverLoop inc.rlist inc false)) := by
  have hwhole : inc.rcvNxt + len - inc.rcvNxt = len := by bv_omega
  have haccept := accept_spec h hlimit hpos le_rfl (by dsimp only; bv_omega)
  dsimp only at haccept
  rw [hwhole] at haccept
  refine haccept.bind ?_
  rintro inc₁ ⟨hadvanced, hpos₁, hrlist, hinbound⟩
  rw [hrlist]
  refine (recoverLoop_spec hinbound hlimit hpos₁).imp ?_
  rintro x ⟨hx, hrest⟩
  exact ⟨hadvanced.trans hx, hrest⟩

end Joining

section Trimming

variable {stream : Bytes} {limit : ℕ} {s : PseudoTcpSocket} {g : Segment}

theorem drop_readAt (buf : Bytes) (pos len k : ℕ) :
    (readAt buf pos len).drop k = readAt buf (pos + k) (len - k) := by
  rw [readAt, readAt, List.drop_take, List.drop_drop]

theorem take_readAt (buf : Bytes) (pos len k : ℕ) :
    (readAt buf pos len).take k = readAt buf pos (min k len) := by
  rw [readAt, readAt, List.take_take]

/-- A segment that carries bytes of a stream. -/
def Brings (stream : Bytes) (limit : ℕ) (g : Segment) : Prop :=
  g.data = readAt stream g.seq.toNat g.data.length ∧ g.seq.toNat + g.data.length ≤ limit

theorem Segment.toNat_len (hg : g.seq.toNat + g.data.length < seqBound) :
    g.len.toNat = g.data.length := by
  unfold seqBound at hg
  rw [Segment.len, BitVec.toNat_ofNat]
  omega

theorem trimLeft_flags (s : PseudoTcpSocket) (g : Segment) : (s.trimLeft g).flags = g.flags := by
  unfold trimLeft
  dsimp only
  split_ifs
  · rfl
  · rfl
  · rfl

theorem trimRight_flags (s : PseudoTcpSocket) (g : Segment) : (s.trimRight g).flags = g.flags := by
  unfold trimRight
  dsimp only
  split_ifs
  · rfl
  · rfl
  · rfl

theorem trimRight_nil (hg : g.data = []) : (s.trimRight g).data = [] := by
  unfold trimRight
  dsimp only
  split_ifs
  · rw [hg, List.take_nil]
  · rfl
  · exact hg

theorem trimLeft_nil (hg : g.data = []) : (s.trimLeft g).data = [] := by
  unfold trimLeft
  dsimp only
  split_ifs
  · rw [hg, List.drop_nil]
  · rfl
  · exact hg

/-- What is left of a segment begins behind what has been received. -/
theorem trimLeft_spec (hg : Brings stream limit g) (hlimit : limit < seqBound)
    (hrcv : s.incoming.rcvNxt.toNat < seqBound) :
    (s.trimLeft g).data = [] ∨
      Brings stream limit (s.trimLeft g) ∧ s.incoming.rcvNxt.toNat ≤ (s.trimLeft g).seq.toNat := by
  obtain ⟨hdata, hend⟩ := hg
  have hlen := Segment.toNat_len (hend.trans_lt hlimit)
  have hseq : g.seq.toNat < seqBound := by omega
  have hsmaller := smaller_iff hseq hrcv
  unfold seqBound at hlimit
  unfold trimLeft
  dsimp only
  split_ifs with hold hpart
  · right
    rw [hsmaller] at hold
    have hadjust : (s.incoming.rcvNxt - g.seq).toNat = s.incoming.rcvNxt.toNat - g.seq.toNat := by
      bv_omega
    have hsum : (g.seq + (s.incoming.rcvNxt - g.seq)).toNat = s.incoming.rcvNxt.toNat := by bv_omega
    have hless : (s.incoming.rcvNxt - g.seq).toNat < g.data.length := by bv_omega
    refine ⟨⟨?_, ?_⟩, hsum.ge⟩
    · dsimp only
      rw [hsum, List.length_drop, hadjust]
      nth_rewrite 1 [hdata]
      rw [drop_readAt]
      congr 1
      omega
    · dsimp only
      rw [hsum, List.length_drop]
      omega
  · exact .inl rfl
  · rw [hsmaller] at hold
    exact .inr ⟨⟨hdata, hend⟩, not_lt.mp hold⟩

/-- What is left of a segment fits into the buffer. -/
theorem trimRight_spec (hg : Brings stream limit g) (hlimit : limit < seqBound)
    (hcap : s.incoming.rbuf.bufferLength = DEFAULT_RCV_BUF_SIZE.toNat)
    (hlow : s.incoming.rcvNxt.toNat ≤ g.seq.toNat) :
    (s.trimRight g).data = [] ∨
      Fitting stream limit s.incoming.rcvNxt s.incoming.rbuf (s.trimRight g) := by
  obtain ⟨hdata, hend⟩ := hg
  have hlen := Segment.toNat_len (hend.trans_lt hlimit)
  have hspace : s.incoming.rbuf.getWriteRemaining ≤ 61440 :=
    (Nat.sub_le _ _).trans_eq hcap
  unfold seqBound at hlimit
  have hpast : (g.seq + g.len - s.incoming.rcvNxt).toNat =
      g.seq.toNat + g.data.length - s.incoming.rcvNxt.toNat := by
    bv_omega
  unfold trimRight
  dsimp only
  rw [hpast]
  split_ifs with hmore hpart
  · right
    have hadjust : (g.seq + g.len - s.incoming.rcvNxt -
        BitVec.ofNat 32 s.incoming.rbuf.getWriteRemaining).toNat =
          g.seq.toNat + g.data.length - s.incoming.rcvNxt.toNat - s.incoming.rbuf.getWriteRemaining := by
      bv_omega
    have hkeep : (g.len - (g.seq + g.len - s.incoming.rcvNxt -
        BitVec.ofNat 32 s.incoming.rbuf.getWriteRemaining)).toNat =
          s.incoming.rcvNxt.toNat + s.incoming.rbuf.getWriteRemaining - g.seq.toNat := by
      bv_omega
    rw [BitVec.lt_def, hadjust, hlen] at hpart
    refine ⟨?_, hlow, ?_, ?_⟩
    · dsimp only
      rw [List.length_take]
      nth_rewrite 1 [hdata]
      rw [take_readAt]
    · dsimp only
      rw [List.length_take]
      omega
    · dsimp only
      rw [List.length_take, hkeep]
      omega
  · exact .inl rfl
  · exact .inr ⟨hdata, hlow, hend, by omega⟩

end Trimming

end Carrier.Session
