import Carrier.Session.Pipeline

/-! What `IOEX_stream_write` returns. Every handler makes its result out of the result of the handler
below, which has been given a buffer and may leave it with another offset and size. -/
namespace Carrier.Session
open Carrier.Lib Carrier.Common

/-- The buffer as a write of a handler leaves it, and the result. -/
structure Written where
  buf : FlexBuffer
  result : ℤ

def pjEbusy : ℕ := 70011

/-- `ice_handler_write_packet`, on the status of `pj_ice_strans_sendto`; 0 is `PJ_SUCCESS`. -/
def iceHandlerWritePacket (status : ℕ) : ℤ :=
  if status ≠ 0 then toInt (if status = pjEbusy then generalError .busy else iceError status)
  else 0

/-- `ice_handler_write`. The header stays in front of the data. -/
def iceHandlerWritten? (pktLen : ℕ) (sendto : Bytes → ℕ) (buf : FlexBuffer) : Option Written := do
  let packet ← iceHandlerWrite? pktLen buf
  let back ← backwardOffset? buf sizeofIcePacket
  let back ← store? back (packet.take sizeofIcePacket)
  let rc := iceHandlerWritePacket (sendto packet)
  some ⟨back, if rc ≠ 0 then rc else buf.size⟩

/-- `crypto_handler_write`, above the write `next`. -/
def cryptoHandlerWritten? (box : BoxCipher) (ws : IOEXSession) (next : FlexBuffer → Option Written)
    (buf : FlexBuffer) : Option Written := do
  let bufs ← cryptoHandlerWrite? box ws buf
  let below ← bufs.mapM next
  let w := cryptoHandlerWrite box
    (fun cipherBuf => (below.head?.map (fun b => (b.buf, b.result))).getD (cipherBuf, 0)) ws buf
  some ⟨w.buf, w.written⟩

/-- An answer of `pseudo_tcp_socket_send`: the bytes it has taken, or -1 and its error. -/
inductive SendAnswer where
  | sent (n : ℕ)
  | failed (error : ℕ)
  deriving DecidableEq

def ewouldblock : ℕ := 11

/-- The loop of `reliable_handler_write`; `none` while the socket has not answered. -/
def reliableSend? (len : ℕ) : FlexBuffer → List SendAnswer → Option Written
  | buf, [] => if buf.size = 0 then some ⟨buf, len⟩ else none
  | buf, answer :: answers =>
    if buf.size = 0 then some ⟨buf, len⟩
    else
      match answer with
      | .failed error =>
        if error ≠ ewouldblock then some ⟨buf, sysError error⟩ else reliableSend? len buf answers
      | .sent n => (forwardOffset? buf n).bind (reliableSend? len · answers)

/-- `reliable_handler_write`. Its errors are unsigned values, so that the results are positive. -/
def reliableHandlerWritten? (state : StreamState) (answers : List SendAnswer) (buf : FlexBuffer) :
    Option Written :=
  if state ≠ .connected then some ⟨buf, generalError .wrongState⟩
  else reliableSend? buf.size buf answers

/-- `multiplex_handler_write`, above the write `next`. -/
def multiplexHandlerWritten? (next : FlexBuffer → Option Written) (buf : FlexBuffer) :
    Option Written := do
  let packet ← multiplexHandlerWrite? buf
  let w ← next packet
  some ⟨w.buf, if w.result < 0 then toInt w.result else toInt buf.size⟩

/-- What is below the handlers of a stream: the status of `pj_ice_strans_sendto` for a packet, and
what the pseudo-TCP socket of a reliable stream answers in the course of a write. -/
structure Transport where
  sendto : Bytes → ℕ
  answers : List SendAnswer

namespace Stream

/-- The write of the handler below the root handler, of the stack that `IOEX_session_add_stream`
builds. -/
def write? (pktLen : ℕ) (box : BoxCipher) (ws : IOEXSession) (t : Transport) (s : Stream) :
    FlexBuffer → Option Written :=
  let ice := iceHandlerWritten? pktLen t.sendto
  let crypto := if s.unencrypt then ice else cryptoHandlerWritten? box ws ice
  let reliable := if s.reliable then reliableHandlerWritten? s.state t.answers else crypto
  if s.multiplexing then multiplexHandlerWritten? reliable else reliable

/-- `IOEX_stream_write` -/
def streamWritten? (pktLen : ℕ) (box : BoxCipher) (ws : IOEXSession) (t : Transport) (s : Stream)
    (data : Bytes) : Option ℤ :=
  if data.length = 0 ∨ maxUserDataLen < data.length then some (-1)
  else if s.type = .audio ∨ s.type = .video then some (-1)
  else if s.state ≠ .connected then some (-1)
  else do
    let w ← s.write? pktLen box ws t (flexBufferFrom flexPaddingLen data)
    some (if w.result < 0 then -1 else w.result)

/-- The socket takes `n` bytes, in as many pieces and after as many retries as it likes. -/
def Takes : List SendAnswer → ℕ → Prop
  | _, 0 => True
  | [], _ + 1 => False
  | .failed error :: answers, n + 1 => error = ewouldblock ∧ Takes answers (n + 1)
  | .sent k :: answers, n + 1 => k ≤ n + 1 ∧ Takes answers (n + 1 - k)

/-- The transport accepts what is written: the packet of an unreliable stream, or all the bytes
handed to the socket of a reliable one. -/
def Accepted (pktLen : ℕ) (box : BoxCipher) (ws : IOEXSession) (t : Transport) (s : Stream)
    (data : Bytes) : Prop :=
  if s.reliable then
    Takes t.answers (data.length + if s.multiplexing then protocolHeadLen else 0)
  else
    ∃ packet, streamWrite? pktLen box ws ⟨s.multiplexing, s.unencrypt⟩ data = some [packet] ∧
      t.sendto packet = 0

end Stream

section Layers

variable {buf c : FlexBuffer} {box : BoxCipher} {ws : IOEXSession}

/-- A packet that is accepted counts the data without its header, but leaves the buffer with it. -/
theorem iceHandlerWritten?_accepted {pktLen : ℕ} {sendto : Bytes → ℕ} {packet : Bytes}
    (h : iceHandlerWrite? pktLen buf = some packet) (hsent : sendto packet = 0) :
    ∃ w, iceHandlerWritten? pktLen sendto buf = some w ∧ w.result = buf.size ∧
      w.buf.size = buf.size + sizeofIcePacket := by
  have hpacket := h
  unfold iceHandlerWrite? at h
  split_ifs at h with hsmall
  have hoff : sizeofIcePacket ≤ buf.offset := by omega
  simp only [Option.bind_eq_bind, Option.bind_eq_some_iff] at h
  obtain ⟨back, hback, stored, hstore, -⟩ := h
  have hfit : back.offset + sizeofIcePacket ≤ back.capacity := by
    unfold store? at hstore
    split_ifs at hstore with hfit
    simpa [sizeofIcePacket] using hfit
  have hsize : back.size = buf.size + sizeofIcePacket := by
    rw [backwardOffset?_eq_some hback, flexBufferBackwardOffset_eq hoff]
  have hheader : store? back (packet.take sizeofIcePacket) =
      some { back with
        buffer := writeAt back.buffer back.offset (packet.take sizeofIcePacket) } := by
    have htake : (packet.take sizeofIcePacket).length ≤ sizeofIcePacket := List.length_take_le _ _
    rw [store?, if_pos (by omega)]
  refine ⟨⟨{ back with buffer := writeAt back.buffer back.offset (packet.take sizeofIcePacket) },
    buf.size⟩, ?_, rfl, hsize⟩
  simp [iceHandlerWritten?, hpacket, hback, hheader, hsent, iceHandlerWritePacket]

/-- The buffer handed on is longer than the data by the authentication tag. -/
theorem cryptoHandlerWrite?_size {offset : ℕ} {data : Bytes} (hholds : Holds buf offset data)
    (hoff : zeroBytes ≤ offset) (hsmall : data.length + flexPaddingLen < 2 ^ 64)
    (h : cryptoHandlerWrite? box ws buf = some [c]) : c.size = buf.size + macBytes := by
  obtain ⟨back, pad, hback, hpad, hheld⟩ := hholds.backward hoff
  have hload := hheld.load
  have hsize := hholds.size
  unfold cryptoHandlerWrite? at h
  simp only [Option.bind_eq_bind, hback, hload, Option.bind_some, Option.bind_eq_some_iff] at h
  obtain ⟨stored, -, fwd, -, h⟩ := h
  split at h
  · cases h
  · simp only [Option.bind_eq_some_iff] at h
    obtain ⟨cbuf, hcbuf, last, hlast, heq⟩ := h
    cases heq
    have hlen : (pad ++ data).length = data.length + zeroBytes := by
      rw [List.length_append, hpad, Nat.add_comm]
    have hfit : (flexBufferSetSize cbuf (pad ++ data).length).offset + (zeroBytes - macBytes) ≤
        (flexBufferSetSize cbuf (pad ++ data).length).capacity := by
      unfold forwardOffset? at hlast
      split_ifs at hlast with hfit
      exact hfit
    rw [forwardOffset?_eq_some hlast, flexBufferForwardOffset, if_pos hfit]
    dsimp only [flexBufferSetSize]
    rw [hlen, subSize_of_le (by simp [zeroBytes, macBytes])
      (by simp only [flexPaddingLen, zeroBytes] at *; omega), hsize]
    simp only [zeroBytes, macBytes]
    omega

/-- The result of `crypto_handler_write` comes from the buffer that it has handed on. -/
theorem cryptoHandlerWrite_written {offset : ℕ} {data : Bytes} (hholds : Holds buf offset data)
    (hoff : zeroBytes ≤ offset) {next : FlexBuffer → FlexBuffer × ℤ}
    (h : (cryptoHandlerWrite box next ws buf).sent = some c) :
    (cryptoHandlerWrite box next ws buf).written =
      if (next c).2 = (next c).1.size then (buf.size : ℤ) else (next c).2 := by
  have hle : zeroBytes ≤ buf.offset := hholds.offset ▸ hoff
  have hback := flexBufferBackwardOffset_eq hle
  have hbound := hholds.wf.bound
  have hsmall := hholds.wf.small
  have hfit : (flexBufferBackwardOffset buf zeroBytes).offset + zeroBytes ≤
      (flexBufferBackwardOffset buf zeroBytes).capacity := by
    rw [hback]
    dsimp only
    omega
  have hsize : subSize (flexBufferBackwardOffset buf zeroBytes).size zeroBytes = buf.size := by
    rw [hback]
    dsimp only
    rw [subSize_of_le (by omega) (by simp only [zeroBytes] at *; omega), Nat.add_sub_cancel]
  revert h
  unfold cryptoHandlerWrite
  dsimp only
  cases hcipher : (cryptoEncrypt2 box ws.cryptoKey ws.nonce
      (flexBufferBackwardOffset buf zeroBytes).payload).2 with
  | none => simp
  | some cipher =>
    dsimp only
    intro h
    rw [Option.some.inj h]
    unfold flexBufferForwardOffset
    dsimp only
    rw [if_pos hfit, hsize]

theorem cryptoHandlerWritten?_below {offset : ℕ} {data : Bytes} (hholds : Holds buf offset data)
    (hoff : zeroBytes ≤ offset) (h : cryptoHandlerWrite? box ws buf = some [c])
    {next : FlexBuffer → Option Written} {below : Written} (hnext : next c = some below) :
    ∃ w, cryptoHandlerWritten? box ws next buf = some w ∧
      w.result = if below.result = below.buf.size then (buf.size : ℤ) else below.result := by
  have hbelow : [c].mapM next = some [below] := by simp [hnext]
  unfold cryptoHandlerWritten?
  simp only [h, hbelow, Option.bind_eq_bind, Option.bind_some, List.head?_cons, Option.map_some,
    Option.getD_some]
  exact ⟨_, rfl, cryptoHandlerWrite_written hholds hoff (cryptoHandlerWrite?_sent h _)⟩

/-- The socket takes all of the buffer: the loop comes to its end, and the result is the length it
started with. -/
theorem reliableSend?_takes (len : ℕ) {answers : List SendAnswer} (hwf : buf.WF)
    (h : Stream.Takes answers buf.size) :
    ∃ w, reliableSend? len buf answers = some w ∧ w.result = len := by
  induction answers generalizing buf with
  | nil =>
    cases hsize : buf.size with
    | zero => exact ⟨⟨buf, len⟩, by simp [reliableSend?, hsize], rfl⟩
    | succ n =>
      rw [hsize] at h
      exact h.elim
  | cons answer answers ih =>
    cases hsize : buf.size with
    | zero => exact ⟨⟨buf, len⟩, by simp [reliableSend?, hsize], rfl⟩
    | succ n =>
      rw [hsize] at h
      cases answer with
      | failed error =>
        obtain ⟨herror, hrest⟩ := h
        obtain ⟨w, hw, hresult⟩ := ih hwf (hsize ▸ hrest)
        exact ⟨w, by simp [reliableSend?, hsize, herror, hw], hresult⟩
      | sent k =>
        obtain ⟨hk, hrest⟩ := h
        have hle : k ≤ buf.size := hsize ▸ hk
        have hbound := hwf.bound
        have hforward : forwardOffset? buf k = some (flexBufferForwardOffset buf k) :=
          if_pos (by omega)
        have hleft : (flexBufferForwardOffset buf k).size = n + 1 - k := by
          rw [flexBufferForwardOffset_eq hwf hle, ← hsize]
        obtain ⟨w, hw, hresult⟩ := ih (flexBufferForwardOffset_wf hwf hle) (hleft ▸ hrest)
        exact ⟨w, by simp [reliableSend?, hsize, hforward, hw], hresult⟩

end Layers

namespace Stream

variable {pktLen : ℕ} {box : BoxCipher} {ws : IOEXSession} {t : Transport} {s : Stream}

/-- The layers of an unreliable stream below multiplexing. An encrypted packet is counted with its
authentication tag: the count of `ice_handler_write` is compared with the size of a buffer that has the
header of the packet in it by then. -/
theorem crypto_written {buf c : FlexBuffer} {offset : ℕ} {data packet : Bytes}
    (hholds : Holds buf offset data) (hoff : zeroBytes ≤ offset)
    (hsmall : data.length + flexPaddingLen < 2 ^ 64)
    (hcrypto : StreamOptions.cryptoWrite? ⟨s.multiplexing, s.unencrypt⟩ box ws buf = some [c])
    (hice : iceHandlerWrite? pktLen c = some packet) (hsent : t.sendto packet = 0) :
    ∃ w, (if s.unencrypt then iceHandlerWritten? pktLen t.sendto
        else cryptoHandlerWritten? box ws (iceHandlerWritten? pktLen t.sendto)) buf = some w ∧
      w.result = buf.size + if s.unencrypt then 0 else macBytes := by
  obtain ⟨below, hbelow, hresult, hleft⟩ := iceHandlerWritten?_accepted hice hsent
  unfold StreamOptions.cryptoWrite? at hcrypto
  cases hplain : s.unencrypt with
  | true =>
    simp only [hplain, if_true] at hcrypto
    cases hcrypto
    exact ⟨below, by simpa using hbelow, by simpa using hresult⟩
  | false =>
    simp only [hplain, Bool.false_eq_true, if_false] at hcrypto
    obtain ⟨w, hw, hcount⟩ := cryptoHandlerWritten?_below hholds hoff hcrypto hbelow
    have hne : ¬below.result = below.buf.size := by
      rw [hresult, hleft, sizeofIcePacket]
      omega
    have hsize := cryptoHandlerWrite?_size hholds hoff hsmall hcrypto
    refine ⟨w, by simpa using hw, ?_⟩
    rw [hcount, if_neg hne, hresult, hsize]
    simp

/-- The layers below multiplexing. -/
theorem reliable_written {buf : FlexBuffer} {offset : ℕ} {data : Bytes}
    (hholds : Holds buf offset data) (hoff : zeroBytes ≤ offset)
    (hsmall : data.length + flexPaddingLen < 2 ^ 64) (hstate : s.state = .connected)
    (hacc : if s.reliable then Takes t.answers buf.size else
      ∃ c packet, StreamOptions.cryptoWrite? ⟨s.multiplexing, s.unencrypt⟩ box ws buf = some [c] ∧
        iceHandlerWrite? pktLen c = some packet ∧ t.sendto packet = 0) :
    ∃ w, (if s.reliable then reliableHandlerWritten? s.state t.answers
        else if s.unencrypt then iceHandlerWritten? pktLen t.sendto
        else cryptoHandlerWritten? box ws (iceHandlerWritten? pktLen t.sendto)) buf = some w ∧
      w.result = buf.size + if s.unencrypt ∨ s.reliable then 0 else macBytes := by
  cases hreliable : s.reliable with
  | true =>
    rw [hreliable] at hacc
    obtain ⟨w, hw, hresult⟩ := reliableSend?_takes buf.size hholds.wf hacc
    refine ⟨w, ?_, by simpa using hresult⟩
    simp only [if_true, reliableHandlerWritten?, hstate, ne_eq, not_true_eq_false, if_false, hw]
  | false =>
    rw [hreliable] at hacc
    obtain ⟨c, packet, hcrypto, hice, hsent⟩ := hacc
    obtain ⟨w, hw, hresult⟩ := crypto_written hholds hoff hsmall hcrypto hice hsent
    exact ⟨w, by simpa using hw, by simpa using hresult⟩

/-- What is accepted is what the layers below multiplexing are given. -/
theorem accepted_below {buf : FlexBuffer} {offset : ℕ} {data : Bytes} (hlen : 1 ≤ data.length)
    (hmax : data.length ≤ maxUserDataLen)
    (hmux : StreamOptions.muxWrite? ⟨s.multiplexing, s.unencrypt⟩
      (flexBufferFrom flexPaddingLen data) = some buf)
    (hholds : Holds buf offset (StreamOptions.frame ⟨s.multiplexing, s.unencrypt⟩ data))
    (hacc : s.Accepted pktLen box ws t data) :
    if s.reliable then Takes t.answers buf.size else
      ∃ c packet, StreamOptions.cryptoWrite? ⟨s.multiplexing, s.unencrypt⟩ box ws buf = some [c] ∧
        iceHandlerWrite? pktLen c = some packet ∧ t.sendto packet = 0 := by
  unfold Accepted at hacc
  cases hreliable : s.reliable with
  | true =>
    have hsize : buf.size = data.length + if s.multiplexing then protocolHeadLen else 0 := by
      rw [hholds.size, StreamOptions.frame]
      cases s.multiplexing with
      | true =>
        simp [ProtocolBuffer.bytes, ProtocolBuffer.length_header, sentPacket, Nat.add_comm]
      | false => simp
    rw [hreliable, if_pos rfl, ← hsize] at hacc
    rwa [if_pos rfl]
  | false =>
    rw [hreliable, if_neg (by decide)] at hacc
    obtain ⟨packet, hwrite, hsent⟩ := hacc
    unfold streamWrite? at hwrite
    rw [if_neg (by omega)] at hwrite
    simp only [Option.bind_eq_bind, hmux, Option.bind_some, Option.bind_eq_some_iff] at hwrite
    obtain ⟨bufs, hcrypto, hpackets⟩ := hwrite
    rw [if_neg (by decide)]
    -- One packet has been handed over, so there has been one buffer.
    cases bufs with
    | nil => simp at hpackets
    | cons c rest =>
      cases rest with
      | nil =>
        have hice : iceHandlerWrite? pktLen c = some packet := by
          simpa [Option.bind_eq_some_iff] using hpackets
        exact ⟨c, packet, hcrypto, hice, hsent⟩
      | cons c' rest => simp [List.mapM_cons, Option.bind_eq_some_iff] at hpackets

/-- An accepted write of an encrypted stream without further handlers counts the tag. -/
theorem streamWritten?_accepted {data : Bytes} (hlen : 1 ≤ data.length)
    (hmax : data.length ≤ maxUserDataLen) (htype : s.type ≠ .audio ∧ s.type ≠ .video)
    (hstate : s.state = .connected) (hacc : s.Accepted pktLen box ws t data) :
    s.streamWritten? pktLen box ws t data = some (data.length +
      if s.unencrypt ∨ s.reliable ∨ s.multiplexing then 0 else macBytes) := by
  have hsmall : data.length + flexPaddingLen < 2 ^ 64 := by
    simp only [maxUserDataLen, flexPaddingLen] at *
    omega
  have hfresh := Holds.fresh flexPaddingLen hsmall
  obtain ⟨buf, offset, hmux, hoff, hholds⟩ := frame_spec ⟨s.multiplexing, s.unencrypt⟩ hfresh
  have hframe := (length_frame ⟨s.multiplexing, s.unencrypt⟩ data).2
  obtain ⟨w, hw, hresult⟩ := reliable_written hholds hoff
    (by simp only [maxUserDataLen, flexPaddingLen, protocolHeadLen] at *; omega) hstate
    (accepted_below hlen hmax hmux hholds hacc)
  have hwritten : ∃ w, s.write? pktLen box ws t (flexBufferFrom flexPaddingLen data) = some w ∧
      w.result = data.length +
        (if s.unencrypt ∨ s.reliable ∨ s.multiplexing then 0 else macBytes : ℕ) := by
    unfold write?
    unfold StreamOptions.muxWrite? at hmux
    cases hmultiplexing : s.multiplexing with
    | true =>
      simp only [hmultiplexing, if_true] at hmux
      refine ⟨⟨w.buf, toInt (flexBufferFrom flexPaddingLen data).size⟩, ?_, ?_⟩
      · have hnonneg : ¬w.result < 0 := by
          rw [hresult]
          omega
        simp only [if_true, multiplexHandlerWritten?, hmux, Option.bind_eq_bind, Option.bind_some, hw,
          if_neg hnonneg]
      · have hint : toInt (data.length : ℤ) = data.length := by
          simp only [maxUserDataLen] at hmax
          exact toInt_of_small (by omega) (by omega)
        simpa [flexBufferFrom] using hint
    | false =>
      simp only [hmultiplexing, Bool.false_eq_true, if_false, Option.some.injEq] at hmux
      subst hmux
      refine ⟨w, by simpa using hw, ?_⟩
      rw [hresult]
      simp [flexBufferFrom]
  obtain ⟨w, hw, hresult⟩ := hwritten
  have hnonneg : ¬w.result < 0 := by
    rw [hresult]
    omega
  unfold streamWritten?
  rw [if_neg (by omega), if_neg (by tauto), if_neg (by simpa using hstate)]
  simp only [hw, Option.bind_eq_bind, Option.bind_some, if_neg hnonneg]
  rw [hresult]
  push_cast
  rfl

/-- An accepted write returns the number of bytes written, exactly if the stream is plain or has
another handler above the cipher. -/
theorem streamWritten?_eq_length_iff {data : Bytes} (hlen : 1 ≤ data.length)
    (hmax : data.length ≤ maxUserDataLen) (htype : s.type ≠ .audio ∧ s.type ≠ .video)
    (hstate : s.state = .connected) (hacc : s.Accepted pktLen box ws t data) :
    s.streamWritten? pktLen box ws t data = some (data.length : ℤ) ↔
      s.unencrypt ∨ s.reliable ∨ s.multiplexing := by
  rw [streamWritten?_accepted hlen hmax htype hstate hacc]
  by_cases hstack : s.unencrypt ∨ s.reliable ∨ s.multiplexing
  · simp [hstack]
  · simp [hstack, macBytes]

/-- A stream of `Peers.sessionWith` that has been connected. -/
def connectedStream (multiplexing : Bool) : Stream :=
  { Peers.oneStream with state := .connected, multiplexing := multiplexing }

theorem connectedStream_accepted (multiplexing : Bool) :
    (connectedStream multiplexing).Accepted 2076 helloCipher SecurePeers.connected.a
      ⟨fun _ => 0, []⟩ (ascii "hello") := by
  cases multiplexing
  · exact ⟨_, rfl, rfl⟩
  · exact ⟨_, rfl, rfl⟩

/-- Encrypted and multiplexed. -/
theorem streamWritten?_hello :
    (connectedStream true).streamWritten? 2076 helloCipher SecurePeers.connected.a ⟨fun _ => 0, []⟩
      (ascii "hello") = some 5 :=
  (streamWritten?_eq_length_iff (by decide) (by decide) (by decide) rfl
    (connectedStream_accepted true)).mpr (by decide)

/-- Encrypted only. -/
theorem streamWritten?_hello_tag :
    (connectedStream false).Accepted 2076 helloCipher SecurePeers.connected.a ⟨fun _ => 0, []⟩
        (ascii "hello") ∧
      (connectedStream false).streamWritten? 2076 helloCipher SecurePeers.connected.a
        ⟨fun _ => 0, []⟩ (ascii "hello") = some 21 := by
  have hacc := connectedStream_accepted false
  exact ⟨hacc, streamWritten?_accepted (by decide) (by decide) (by decide) rfl hacc⟩

end Stream

end Carrier.Session
