import Carrier.Session.CryptoHandler
import Carrier.Session.MuxRun

/-! The handlers of an unreliable stream from `IOEX_stream_write` to `pj_ice_strans_sendto`, and from
`stream_on_rx_data` to the `stream_data` callback. All of them share one buffer and move its
offset; a move past its ends or an access outside of its storage ends the call. -/
namespace Carrier.Session
open Carrier.Lib Carrier.Common

/-- `flex_buffer_backward_offset` with its assertion. -/
def backwardOffset? (buf : FlexBuffer) (bytes : ℕ) : Option FlexBuffer :=
  if bytes ≤ buf.offset then some (flexBufferBackwardOffset buf bytes) else none

/-- `flex_buffer_forward_offset` with its assertion. -/
def forwardOffset? (buf : FlexBuffer) (bytes : ℕ) : Option FlexBuffer :=
  if buf.offset + bytes ≤ buf.capacity then some (flexBufferForwardOffset buf bytes) else none

/-- A write through `flex_buffer_mutable_ptr`. -/
def store? (buf : FlexBuffer) (src : Bytes) : Option FlexBuffer :=
  if buf.offset + src.length ≤ buf.capacity then
    some { buf with buffer := writeAt buf.buffer buf.offset src }
  else none

/-- The bytes behind `flex_buffer_ptr`. -/
def load? (buf : FlexBuffer) (len : ℕ) : Option Bytes :=
  if buf.offset + len ≤ buf.capacity then some (readAt buf.buffer buf.offset len) else none

/-- `multiplex_handler_write`: the buffer handed on by `multiplex_handler_send_packet`. -/
def multiplexHandlerWrite? (buf : FlexBuffer) : Option FlexBuffer := do
  let pb : ProtocolBuffer :=
    ⟨PacketType.channelData.code, 0, 0, 0, buf.size % 2 ^ 16, []⟩
  let buf ← backwardOffset? buf protocolHeadLen
  store? buf pb.header

/-- `crypto_handler_write`: the buffers handed on, none of them when the cipher fails. -/
def cryptoHandlerWrite? (box : BoxCipher) (ws : IOEXSession) (buf : FlexBuffer) :
    Option (List FlexBuffer) := do
  let cipherBuf := flexBufferNew (buf.size + flexPaddingLen) (flexPaddingLen - zeroBytes)
  let buf ← backwardOffset? buf zeroBytes
  let plain ← load? buf buf.size
  let (padded, cipher) := cryptoEncrypt2 box ws.cryptoKey ws.nonce plain
  let buf ← store? buf padded
  let _ ← forwardOffset? buf zeroBytes
  match cipher with
  | none => some []
  | some cipher => do
    let cipherBuf ← store? cipherBuf cipher
    let cipherBuf := flexBufferSetSize cipherBuf plain.length
    let cipherBuf ← forwardOffset? cipherBuf (zeroBytes - macBytes)
    some [cipherBuf]

def sizeofIcePacket : ℕ := 4

/-- `PKT_SHUTDOWN`, `PKT_KEEPALIVE` and `PKT_DATA`. -/
inductive IcePacketType where
  | shutdown
  | keepalive
  | data
  deriving DecidableEq

def IcePacketType.code : IcePacketType → ℕ
  | .shutdown => 0
  | .keepalive => 1
  | .data => 2

/-- `ice_handler_write`: the bytes handed to `pj_ice_strans_sendto`. `pktLen` is
`PJ_STUN_SOCK_PKT_LEN`. -/
def iceHandlerWrite? (pktLen : ℕ) (buf : FlexBuffer) : Option Bytes :=
  if pktLen < buf.size + sizeofIcePacket ∨ buf.offset < sizeofIcePacket then none
  else do
    let len := buf.size % 2 ^ 16
    let buf ← backwardOffset? buf sizeofIcePacket
    let buf ← store? buf (toBE 1 0 ++ toBE 1 IcePacketType.data.code ++ toBE 2 len)
    if pktLen < len + sizeofIcePacket then none else load? buf (sizeofIcePacket + len)

/-- The options that choose the handlers of an unreliable stream. -/
structure StreamOptions where
  multiplexing : Bool
  unencrypt : Bool

/-- The multiplex handler, where the stream has one. -/
def StreamOptions.muxWrite? (o : StreamOptions) (buf : FlexBuffer) : Option FlexBuffer :=
  if o.multiplexing then multiplexHandlerWrite? buf else some buf

/-- The crypto handler, where the stream has one. -/
def StreamOptions.cryptoWrite? (o : StreamOptions) (box : BoxCipher) (ws : IOEXSession)
    (buf : FlexBuffer) : Option (List FlexBuffer) :=
  if o.unencrypt then some [buf] else cryptoHandlerWrite? box ws buf

/-- `IOEX_stream_write` on a connected stream without `IOEX_STREAM_RELIABLE`: what is handed to
`pj_ice_strans_sendto`. -/
def streamWrite? (pktLen : ℕ) (box : BoxCipher) (ws : IOEXSession) (o : StreamOptions)
    (data : Bytes) : Option (List Bytes) :=
  if data.length = 0 ∨ maxUserDataLen < data.length then some []
  else do
    let buf := flexBufferFrom flexPaddingLen data
    let buf ← o.muxWrite? buf
    let bufs ← o.cryptoWrite? box ws buf
    bufs.mapM (iceHandlerWrite? pktLen)

/-- `crypto_handler_on_rx_data`: the buffers handed up. -/
def cryptoHandlerOnRxData? (box : BoxCipher) (ws : IOEXSession) (buf : FlexBuffer) :
    Option (List FlexBuffer) := do
  let plainBuf :=
    flexBufferNew (buf.size + flexPaddingLen) (flexPaddingLen - (zeroBytes - macBytes))
  let buf ← backwardOffset? buf (zeroBytes - macBytes)
  let size := buf.size
  let encrypted ← load? buf size
  let (padded, plain) := cryptoDecrypt2 box ws.cryptoKey ws.nonce encrypted
  let buf ← store? buf padded
  let _ ← forwardOffset? buf (zeroBytes - macBytes)
  match plain with
  | none => some []
  | some plain => do
    let plainBuf ← store? plainBuf plain
    let plainBuf := flexBufferSetSize plainBuf size
    let plainBuf ← forwardOffset? plainBuf zeroBytes
    some [plainBuf]

/-- What a call of the multiplexer hands up as data of the stream itself. -/
def streamData (events : List MuxEvent) : List Bytes :=
  events.filterMap (fun
    | .onData data => some data
    | _ => none)

/-- `multiplex_handler_on_data`: the buffers handed up as data of the stream itself. The ids and the
length are brought to host order in place before anything else. -/
def multiplexHandlerOnData? (E : MuxEnv) (trace : Bool) (h : MultiplexHandler) (buf : FlexBuffer) :
    Option (List FlexBuffer) := do
  let p ← load? buf buf.size
  let pb := protocolBufferAt p
  let buf ← store? buf (toBE 1 pb.type ++ toBE 1 pb.option ++ toLE 2 pb.localChannelId ++
    toLE 2 pb.remoteChannelId ++ toLE 2 pb.payloadLen)
  match multiplexHandlerNotifyBytes E trace h p with
  | .error _ => none
  | .ok r =>
    (streamData r.2).mapM (fun _ => forwardOffset? buf protocolHeadLen)

def StreamOptions.cryptoRead? (o : StreamOptions) (box : BoxCipher) (ws : IOEXSession)
    (buf : FlexBuffer) : Option (List FlexBuffer) :=
  if o.unencrypt then some [buf] else cryptoHandlerOnRxData? box ws buf

def StreamOptions.muxRead? (o : StreamOptions) (E : MuxEnv) (trace : Bool) (h : MultiplexHandler)
    (buf : FlexBuffer) : Option (List FlexBuffer) :=
  if o.multiplexing then multiplexHandlerOnData? E trace h buf else some [buf]

/-- `stream_on_rx_data`: the `stream_data` callbacks, on a stream in state `state`. -/
def streamOnRxData? (box : BoxCipher) (E : MuxEnv) (trace : Bool) (ws : IOEXSession)
    (o : StreamOptions) (h : MultiplexHandler) (state : StreamState) (packet : Bytes) :
    Option (List Bytes) :=
  if state ≠ .connecting ∧ state ≠ .connected then some []
  else if packet.length < sizeofIcePacket then none
  else
    let version := ofBE (readAt packet 0 1)
    let pkttype := ofBE (readAt packet 1 1)
    let len := ofBE (readAt packet 2 2)
    if version ≠ 0 ∨ len + sizeofIcePacket ≠ packet.length ∨ IcePacketType.data.code < pkttype then
      some []
    else if pkttype ≠ IcePacketType.data.code then some []
    else do
      let buf := flexBufferFrom flexPaddingLen (readAt packet sizeofIcePacket len)
      let bufs ← o.cryptoRead? box ws buf
      let bufs ← bufs.mapM (o.muxRead? E trace h)
      bufs.flatten.mapM (fun buf => load? buf buf.size)

/-- The buffer is well formed and has `data` behind `offset` spare bytes. -/
structure Holds (buf : FlexBuffer) (offset : ℕ) (data : Bytes) : Prop where
  wf : buf.WF
  offset : buf.offset = offset
  payload : buf.payload = data

namespace Holds

variable {buf : FlexBuffer} {offset : ℕ} {data : Bytes}

theorem size (h : Holds buf offset data) : buf.size = data.length := by
  rw [← h.payload, h.wf.length_payload]

theorem bound (h : Holds buf offset data) : offset + data.length ≤ buf.capacity := by
  have hb := h.wf.bound
  rwa [h.offset, h.size] at hb

theorem load (h : Holds buf offset data) : load? buf buf.size = some data := by
  unfold load?
  rw [if_pos h.wf.bound]
  exact congrArg some h.payload

theorem fresh (offset : ℕ) {data : Bytes} (hsmall : data.length + offset < 2 ^ 64) :
    Holds (flexBufferFrom offset data) offset data := by
  refine ⟨⟨?_, ?_, hsmall⟩, rfl, flexBufferFrom_payload offset data⟩
  · simp [flexBufferFrom, Nat.add_comm]
  · simp [flexBufferFrom, Nat.add_comm]

/-- Going back uncovers spare bytes in front of the data. -/
theorem backward (h : Holds buf offset data) {k : ℕ} (hk : k ≤ offset) :
    ∃ buf' pad, backwardOffset? buf k = some buf' ∧ pad.length = k ∧
      Holds buf' (offset - k) (pad ++ data) := by
  have hk' : k ≤ buf.offset := h.offset ▸ hk
  have hw : (flexBufferBackwardOffset buf k).WF := by
    have hb := h.wf.bound
    rw [flexBufferBackwardOffset_eq hk']
    exact ⟨h.wf.storage, by dsimp only; omega, h.wf.small⟩
  have hsize : (flexBufferBackwardOffset buf k).size = buf.size + k := by
    rw [flexBufferBackwardOffset_eq hk']
  refine ⟨flexBufferBackwardOffset buf k, (flexBufferBackwardOffset buf k).payload.take k, ?_, ?_,
    hw, ?_, ?_⟩
  · rw [backwardOffset?, if_pos hk']
  · rw [List.length_take, hw.length_payload, hsize]
    omega
  · rw [flexBufferBackwardOffset_eq hk', ← h.offset]
  · rw [← h.payload, ← flexBufferBackwardOffset_payload hk', List.take_append_drop]

theorem store (h : Holds buf offset data) (src : Bytes) (hlen : src.length ≤ data.length) :
    ∃ buf', store? buf src = some buf' ∧ Holds buf' offset (src ++ data.drop src.length) := by
  have hb := h.bound
  have hstorage := h.wf.storage
  refine ⟨{ buf with buffer := writeAt buf.buffer buf.offset src }, ?_, ⟨?_, h.wf.bound, h.wf.small⟩,
    h.offset, ?_⟩
  · rw [store?, if_pos (by rw [h.offset]; omega)]
  · dsimp only
    rw [length_writeAt _ _ _ (by rw [h.offset]; omega)]
    exact hstorage
  · rw [FlexBuffer.payload_writeAt (by rw [h.offset]; omega) (by rw [h.size]; exact hlen), h.payload]

theorem store_all (h : Holds buf offset data) {src : Bytes} (hlen : src.length = data.length) :
    ∃ buf', store? buf src = some buf' ∧ Holds buf' offset src := by
  obtain ⟨buf', hstore, hholds⟩ := h.store src hlen.le
  refine ⟨buf', hstore, ?_⟩
  rwa [hlen, List.drop_length, List.append_nil] at hholds

theorem forward {pad : Bytes} (h : Holds buf offset (pad ++ data)) :
    ∃ buf', forwardOffset? buf pad.length = some buf' ∧ Holds buf' (offset + pad.length) data := by
  have hb := h.bound
  have hsize := h.size
  rw [List.length_append] at hb hsize
  have hk : pad.length ≤ buf.size := by omega
  refine ⟨flexBufferForwardOffset buf pad.length, ?_, flexBufferForwardOffset_wf h.wf hk, ?_, ?_⟩
  · rw [forwardOffset?, if_pos (by rw [h.offset]; omega)]
  · rw [flexBufferForwardOffset_eq h.wf hk, ← h.offset]
  · rw [flexBufferForwardOffset_payload h.wf hk, h.payload, List.drop_left]

theorem push (h : Holds buf offset data) (head : Bytes) (hk : head.length ≤ offset) :
    ∃ buf', (backwardOffset? buf head.length).bind (store? · head) = some buf' ∧
      Holds buf' (offset - head.length) (head ++ data) := by
  obtain ⟨back, pad, hback, hpad, hholds⟩ := h.backward hk
  obtain ⟨buf', hstore, hholds'⟩ := hholds.store head (by simp [hpad])
  refine ⟨buf', by rw [hback, Option.bind_some, hstore], ?_⟩
  rwa [← hpad, List.drop_left, hpad] at hholds'

end Holds

/-- A text put into new storage that it just fits. -/
theorem holds_new (capacity offset : ℕ) {src : Bytes} (hfit : offset + src.length ≤ capacity)
    (hsmall : capacity < 2 ^ 64) :
    ∃ buf', store? (flexBufferNew capacity offset) src = some buf' ∧
      Holds (flexBufferSetSize buf' src.length) offset src := by
  refine ⟨{ flexBufferNew capacity offset with
      buffer := writeAt (flexBufferNew capacity offset).buffer offset src }, ?_,
    ⟨⟨?_, hfit, hsmall⟩, rfl, ?_⟩⟩
  · exact if_pos hfit
  · simp only [flexBufferSetSize, flexBufferNew]
    rw [length_writeAt _ _ _ (by simpa using hfit), List.length_replicate]
  · exact readAt_writeAt (by simp only [flexBufferNew, List.length_replicate]; omega) src

/-- What is assumed of the cipher: under this key and nonce a padded text is turned into a padded
text of the same length, and back. -/
def BoxCipher.Opens (box : BoxCipher) (key nonce : Bytes) : Prop :=
  ∀ m : Bytes, ∃ c : Bytes, c.length = m.length + macBytes ∧
    box.afternm (List.replicate zeroBytes 0 ++ m) nonce key =
      some (List.replicate (zeroBytes - macBytes) 0 ++ c) ∧
    box.openAfternm (List.replicate (zeroBytes - macBytes) 0 ++ c) nonce key =
      some (List.replicate zeroBytes 0 ++ m)

section Layers

variable {buf : FlexBuffer} {offset : ℕ} {data : Bytes}

theorem multiplexHandlerWrite?_spec (h : Holds buf offset data) (hoff : protocolHeadLen ≤ offset) :
    ∃ buf', multiplexHandlerWrite? buf = some buf' ∧
      Holds buf' (offset - protocolHeadLen) (sentPacket .channelData 0 0 0 data).bytes := by
  let pb : ProtocolBuffer := ⟨PacketType.channelData.code, 0, 0, 0, buf.size % 2 ^ 16, []⟩
  have hhead : pb.header.length = protocolHeadLen := pb.length_header
  obtain ⟨buf', hpush, hholds⟩ := h.push pb.header (by rw [hhead]; exact hoff)
  rw [hhead] at hpush hholds
  refine ⟨buf', hpush, ?_⟩
  have hbytes : pb.header ++ data = (sentPacket .channelData 0 0 0 data).bytes := by
    have hsize := h.size
    simp only [pb, ProtocolBuffer.bytes, ProtocolBuffer.header, sentPacket, hsize]
  rwa [hbytes] at hholds

/-- The padding goes in front of the text, and the cipher text just fits its own buffer. -/
theorem cryptoHandlerWrite?_spec {box : BoxCipher} {ws : IOEXSession}
    (hbox : box.Opens ws.cryptoKey ws.nonce) (h : Holds buf offset data)
    (hoff : zeroBytes ≤ offset) (hsmall : data.length + flexPaddingLen < 2 ^ 64) :
    ∃ buf' c, cryptoHandlerWrite? box ws buf = some [buf'] ∧
      Holds buf' (flexPaddingLen - macBytes) c ∧ c.length = data.length + macBytes ∧
      box.openAfternm (List.replicate (zeroBytes - macBytes) 0 ++ c) ws.nonce ws.cryptoKey =
        some (List.replicate zeroBytes 0 ++ data) := by
  obtain ⟨c, hclen, hseal, hopen⟩ := hbox data
  obtain ⟨back, pad, hback, hpad, hheld⟩ := h.backward hoff
  have hload := hheld.load
  have hwrite : writeAt (pad ++ data) 0 (List.replicate zeroBytes 0) =
      List.replicate zeroBytes 0 ++ data := by
    have hle : (List.replicate zeroBytes (0 : UInt8)).length ≤ pad.length := by simp [hpad]
    rw [writeAt_append_left hle, List.length_replicate, ← hpad, List.drop_length, List.nil_append]
  have hencrypt : cryptoEncrypt2 box ws.cryptoKey ws.nonce (pad ++ data) =
      (List.replicate zeroBytes 0 ++ data, some (List.replicate (zeroBytes - macBytes) 0 ++ c)) := by
    have hne : (pad ++ data).length ≠ 0 := by
      rw [List.length_append, hpad, zeroBytes]
      omega
    unfold cryptoEncrypt2
    rw [if_neg hne, hwrite]
    dsimp only
    rw [hseal]
  obtain ⟨stored, hstore, hstored⟩ := hheld.store_all
    (show (List.replicate zeroBytes 0 ++ data).length = (pad ++ data).length by simp [hpad])
  obtain ⟨plainBuf, hforward, -⟩ := hstored.forward
  rw [List.length_replicate] at hforward
  have hsize := h.size
  have htotal : (List.replicate (zeroBytes - macBytes) (0 : UInt8) ++ c).length =
      (pad ++ data).length := by
    rw [List.length_append, List.length_append, List.length_replicate, hclen, hpad, zeroBytes,
      macBytes]
    omega
  obtain ⟨cipherBuf, hcipher, hnew⟩ := holds_new (buf.size + flexPaddingLen)
    (flexPaddingLen - zeroBytes)
    (by rw [htotal, List.length_append, hpad, hsize, flexPaddingLen, zeroBytes]; omega)
    (by rw [hsize]; exact hsmall)
  obtain ⟨buf', hlast, hholds⟩ := hnew.forward
  rw [List.length_replicate, htotal] at hlast
  refine ⟨buf', c, ?_, ?_, hclen, hopen⟩
  · unfold cryptoHandlerWrite?
    simp only [Option.bind_eq_bind, hback, hload, hencrypt, hstore, hforward, hcipher, hlast,
      Option.bind_some]
  · rw [List.length_replicate] at hholds
    exact hholds

/-- The header goes in front of the data, which are small enough for one packet. -/
theorem iceHandlerWrite?_spec {pktLen : ℕ} (h : Holds buf offset data)
    (hoff : sizeofIcePacket ≤ offset) (hlen : data.length < 2 ^ 16)
    (hpkt : data.length + sizeofIcePacket ≤ pktLen) :
    iceHandlerWrite? pktLen buf =
      some (toBE 1 0 ++ toBE 1 IcePacketType.data.code ++ toBE 2 data.length ++ data) := by
  have hsize := h.size
  have hmod : buf.size % 2 ^ 16 = data.length := by rw [hsize, Nat.mod_eq_of_lt hlen]
  have hhead : (toBE 1 0 ++ toBE 1 IcePacketType.data.code ++ toBE 2 data.length).length =
      sizeofIcePacket := by simp [sizeofIcePacket]
  obtain ⟨back, pad, hback, hpad, hheld⟩ := h.backward hoff
  obtain ⟨packet, hstore, hholds⟩ := hheld.store
    (toBE 1 0 ++ toBE 1 IcePacketType.data.code ++ toBE 2 data.length)
    (by rw [hhead, List.length_append, hpad]; omega)
  rw [hhead, ← hpad, List.drop_left] at hholds
  have hload := hholds.load
  rw [hholds.size, List.length_append, hhead] at hload
  unfold iceHandlerWrite?
  rw [if_neg (by rw [hsize, h.offset]; omega)]
  simp only [Option.bind_eq_bind, hmod, hback, hstore, Option.bind_some]
  rw [if_neg (by omega), hload]

/-- The text comes back out of the cipher, at the place the sender had it. -/
theorem cryptoHandlerOnRxData?_spec {box : BoxCipher} {ws : IOEXSession} {plain : Bytes}
    (h : Holds buf offset data) (hoff : zeroBytes - macBytes ≤ offset)
    (hlen : data.length = plain.length + macBytes) (hpos : 1 ≤ plain.length)
    (hsmall : data.length + flexPaddingLen < 2 ^ 64)
    (hopen : box.openAfternm (List.replicate (zeroBytes - macBytes) 0 ++ data) ws.nonce ws.cryptoKey =
      some (List.replicate zeroBytes 0 ++ plain)) :
    ∃ buf', cryptoHandlerOnRxData? box ws buf = some [buf'] ∧
      Holds buf' (flexPaddingLen + macBytes) plain := by
  obtain ⟨back, pad, hback, hpad, hheld⟩ := h.backward hoff
  have hload := hheld.load
  have hwrite : writeAt (pad ++ data) 0 (List.replicate (zeroBytes - macBytes) 0) =
      List.replicate (zeroBytes - macBytes) 0 ++ data := by
    have hle : (List.replicate (zeroBytes - macBytes) (0 : UInt8)).length ≤ pad.length := by
      simp [hpad]
    rw [writeAt_append_left hle, List.length_replicate, ← hpad, List.drop_length, List.nil_append]
  have htotal : (List.replicate zeroBytes (0 : UInt8) ++ plain).length = (pad ++ data).length := by
    rw [List.length_append, List.length_append, List.length_replicate, hlen, hpad, zeroBytes,
      macBytes]
    omega
  have hdecrypt : cryptoDecrypt2 box ws.cryptoKey ws.nonce (pad ++ data) =
      (List.replicate (zeroBytes - macBytes) 0 ++ data,
        some (List.replicate zeroBytes 0 ++ plain)) := by
    have hlong : ¬(pad ++ data).length ≤ zeroBytes := by
      rw [← htotal, List.length_append, List.length_replicate]
      omega
    unfold cryptoDecrypt2
    rw [if_neg hlong, hwrite]
    dsimp only
    rw [hopen]
  obtain ⟨stored, hstore, hstored⟩ := hheld.store_all
    (show (List.replicate (zeroBytes - macBytes) 0 ++ data).length = (pad ++ data).length by
      simp [hpad])
  obtain ⟨cipherBuf, hforward, -⟩ := hstored.forward
  rw [List.length_replicate] at hforward
  have hsize := h.size
  obtain ⟨plainBuf, hplain, hnew⟩ := holds_new (buf.size + flexPaddingLen)
    (flexPaddingLen - (zeroBytes - macBytes))
    (by rw [htotal, List.length_append, hpad, hsize, flexPaddingLen, zeroBytes, macBytes]; omega)
    (by rw [hsize]; exact hsmall)
  obtain ⟨buf', hlast, hholds⟩ := hnew.forward
  rw [List.length_replicate, htotal, ← hheld.size] at hlast
  refine ⟨buf', ?_, ?_⟩
  · unfold cryptoHandlerOnRxData?
    simp only [Option.bind_eq_bind, hback, hload, hdecrypt, hstore, hforward, hplain, hlast,
      Option.bind_some]
  · rw [List.length_replicate] at hholds
    exact hholds

theorem notifyBytes_streamData {plain : Bytes} (hlen : plain.length < 2 ^ 16) (E : MuxEnv)
    (trace : Bool) (m : MultiplexHandler) :
    multiplexHandlerNotifyBytes E trace m (sentPacket .channelData 0 0 0 plain).bytes =
      .ok (m, [.onData plain]) := by
  have hlong : ¬(sentPacket .channelData 0 0 0 plain).bytes.length < protocolHeadLen := by
    rw [ProtocolBuffer.bytes, List.length_append, ProtocolBuffer.length_header]
    omega
  have hreceived := @receivedPacket_sentPacket .channelData 0 0 0 (by decide) (by decide)
    (by decide) plain
  rw [if_pos hlen] at hreceived
  unfold multiplexHandlerNotifyBytes
  rw [if_neg hlong, hreceived]
  exact if_pos ⟨rfl, rfl, rfl⟩

/-- Data of the stream itself go up without their header. -/
theorem multiplexHandlerOnData?_spec {plain : Bytes}
    (h : Holds buf offset (sentPacket .channelData 0 0 0 plain).bytes)
    (hlen : plain.length < 2 ^ 16) (E : MuxEnv) (trace : Bool) (m : MultiplexHandler) :
    ∃ buf', multiplexHandlerOnData? E trace m buf = some [buf'] ∧
      Holds buf' (offset + protocolHeadLen) plain := by
  have hnotify := notifyBytes_streamData hlen E trace m
  have hload := h.load
  set p := (sentPacket .channelData 0 0 0 plain).bytes with hp
  let pb := protocolBufferAt p
  let head := toBE 1 pb.type ++ toBE 1 pb.option ++ toLE 2 pb.localChannelId ++
    toLE 2 pb.remoteChannelId ++ toLE 2 pb.payloadLen
  have hhead : head.length = protocolHeadLen := by simp [head, protocolHeadLen]
  have hdrop : p.drop protocolHeadLen = plain := by
    rw [hp, ProtocolBuffer.bytes, List.drop_left' (ProtocolBuffer.length_header _)]
    rfl
  have hlong : protocolHeadLen ≤ p.length := by
    rw [hp, ProtocolBuffer.bytes, List.length_append, ProtocolBuffer.length_header]
    omega
  obtain ⟨stored, hstore, hstored⟩ := h.store head (by rw [hhead]; exact hlong)
  rw [hhead, hdrop] at hstored
  obtain ⟨buf', hforward, hholds⟩ := hstored.forward
  rw [hhead] at hforward hholds
  refine ⟨buf', ?_, hholds⟩
  unfold multiplexHandlerOnData?
  simp only [Option.bind_eq_bind, hload, Option.bind_some]
  rw [show store? buf _ = some stored from hstore, Option.bind_some, hnotify]
  simp only [streamData, List.filterMap_cons, List.filterMap_nil, List.mapM_cons, List.mapM_nil,
    hforward]
  rfl

end Layers

/-- What the stream hands to the cipher: the datagram, behind a header if it is multiplexed. -/
def StreamOptions.frame (o : StreamOptions) (data : Bytes) : Bytes :=
  if o.multiplexing then (sentPacket .channelData 0 0 0 data).bytes else data

section Stream

variable {buf : FlexBuffer} {offset : ℕ} {data : Bytes}

theorem length_frame (o : StreamOptions) (data : Bytes) :
    data.length ≤ (o.frame data).length ∧ (o.frame data).length ≤ data.length + protocolHeadLen := by
  unfold StreamOptions.frame
  split_ifs
  · rw [ProtocolBuffer.bytes, List.length_append, ProtocolBuffer.length_header]
    dsimp only [sentPacket]
    omega
  · omega

theorem frame_spec (o : StreamOptions) (h : Holds buf flexPaddingLen data) :
    ∃ buf' offset, o.muxWrite? buf = some buf' ∧ zeroBytes ≤ offset ∧
      Holds buf' offset (o.frame data) := by
  unfold StreamOptions.muxWrite? StreamOptions.frame
  split_ifs
  · obtain ⟨buf', hwrite, hholds⟩ := multiplexHandlerWrite?_spec h (by decide)
    exact ⟨buf', _, hwrite, by decide, hholds⟩
  · exact ⟨buf, _, rfl, by decide, h⟩

theorem unframe_spec (o : StreamOptions) (h : Holds buf offset (o.frame data))
    (hlen : data.length < 2 ^ 16) (E : MuxEnv) (trace : Bool) (m : MultiplexHandler) :
    ∃ buf' offset', o.muxRead? E trace m buf = some [buf'] ∧ Holds buf' offset' data := by
  unfold StreamOptions.frame at h
  unfold StreamOptions.muxRead?
  split_ifs at h ⊢
  · obtain ⟨buf', hdata, hholds⟩ := multiplexHandlerOnData?_spec h hlen E trace m
    exact ⟨buf', _, hdata, hholds⟩
  · exact ⟨buf, _, rfl, h⟩

/-- The ciphers of the two ends, if they have one. -/
theorem seal_spec {box : BoxCipher} {ws ws' : IOEXSession}
    (hbox : box.Opens ws.cryptoKey ws.nonce) (hkey : ws'.cryptoKey = ws.cryptoKey)
    (hnonce : ws'.nonce = ws.nonce) (o : StreamOptions) (h : Holds buf offset data)
    (hoff : zeroBytes ≤ offset) (hpos : 1 ≤ data.length) (hlen : data.length < 2 ^ 16) :
    ∃ buf' offset' c, o.cryptoWrite? box ws buf = some [buf'] ∧
      Holds buf' offset' c ∧ sizeofIcePacket ≤ offset' ∧ c.length ≤ data.length + macBytes ∧
      ∀ rx, Holds rx flexPaddingLen c → ∃ rx' offset'',
        o.cryptoRead? box ws' rx = some [rx'] ∧ Holds rx' offset'' data := by
  unfold StreamOptions.cryptoWrite? StreamOptions.cryptoRead?
  by_cases hplain : o.unencrypt = true
  · have hoff' : sizeofIcePacket ≤ offset := le_trans (by decide) hoff
    simp only [if_pos hplain]
    exact ⟨buf, offset, data, rfl, h, hoff', Nat.le_add_right _ _,
      fun rx hrx => ⟨rx, flexPaddingLen, rfl, hrx⟩⟩
  · have hsmall : data.length + flexPaddingLen < 2 ^ 64 := by
      rw [flexPaddingLen]
      omega
    obtain ⟨buf', c, hwrite, hholds, hclen, hopen⟩ := cryptoHandlerWrite?_spec hbox h hoff hsmall
    simp only [if_neg hplain]
    refine ⟨buf', _, c, hwrite, hholds, by decide, hclen.le, fun rx hrx => ?_⟩
    rw [← hkey, ← hnonce] at hopen
    obtain ⟨rx', hread, hrx'⟩ := cryptoHandlerOnRxData?_spec hrx (by decide) hclen hpos
      (by rw [hclen, flexPaddingLen, macBytes]; omega) hopen
    exact ⟨rx', _, hread, hrx'⟩

theorem icePacket_fields {c : Bytes} (hlen : c.length < 2 ^ 16) :
    let packet := toBE 1 0 ++ toBE 1 IcePacketType.data.code ++ toBE 2 c.length ++ c
    packet.length = c.length + sizeofIcePacket ∧ ofBE (readAt packet 0 1) = 0 ∧
      ofBE (readAt packet 1 1) = IcePacketType.data.code ∧ ofBE (readAt packet 2 2) = c.length ∧
      readAt packet sizeofIcePacket c.length = c := by
  have hmod : c.length % 65536 = c.length := Nat.mod_eq_of_lt hlen
  have htail : readAt c 0 c.length = c := by simp [readAt]
  dsimp only
  simp only [List.append_assoc, sizeofIcePacket, List.length_append, length_toBE,
    readAt_append_right, readAt_append_left, ofBE_toBE, Nat.reduceLeDiff, Nat.reduceSub,
    Nat.reducePow, hmod, htail]
  exact ⟨by omega, trivial, rfl, trivial, trivial⟩

end Stream

/-- Bytes written on an unreliable stream reach the callback of a peer with the same options, key
and nonce, once and as they were written, and nothing on the way leaves its buffer. -/
theorem streamOnRxData?_streamWrite? {pktLen : ℕ} (hpkt : 2076 ≤ pktLen) {box : BoxCipher}
    {ws ws' : IOEXSession} (hbox : box.Opens ws.cryptoKey ws.nonce)
    (hkey : ws'.cryptoKey = ws.cryptoKey) (hnonce : ws'.nonce = ws.nonce) (o : StreamOptions)
    (E : MuxEnv) (trace : Bool) (m : MultiplexHandler) {data : Bytes} (hpos : 1 ≤ data.length)
    (hmax : data.length ≤ maxUserDataLen) :
    ∃ packet, streamWrite? pktLen box ws o data = some [packet] ∧
      streamOnRxData? box E trace ws' o m .connected packet = some [data] := by
  have hmax' : data.length ≤ 2048 := hmax
  have hfresh : Holds (flexBufferFrom flexPaddingLen data) flexPaddingLen data :=
    .fresh flexPaddingLen (by rw [flexPaddingLen]; omega)
  obtain ⟨hge, hle⟩ := length_frame o data
  rw [protocolHeadLen] at hle
  obtain ⟨buf₁, off₁, hframe, hoff₁, hbuf₁⟩ := frame_spec o hfresh
  obtain ⟨buf₂, off₂, c, hseal, hbuf₂, hoff₂, hclen, hrx⟩ :=
    seal_spec hbox hkey hnonce o hbuf₁ hoff₁ (by omega) (by omega)
  rw [macBytes] at hclen
  have hice := iceHandlerWrite?_spec hbuf₂ hoff₂ (by omega)
    (show c.length + sizeofIcePacket ≤ pktLen by rw [sizeofIcePacket]; omega)
  obtain ⟨hplen, hversion, htype, hplen', hbody⟩ := icePacket_fields (c := c) (by omega)
  set packet := toBE 1 0 ++ toBE 1 IcePacketType.data.code ++ toBE 2 c.length ++ c with hpacket
  obtain ⟨rx, off₃, hread, hrxHolds⟩ := hrx (flexBufferFrom flexPaddingLen c)
    (.fresh flexPaddingLen (by rw [flexPaddingLen]; omega))
  obtain ⟨up, off₄, hdata, hup⟩ := unframe_spec o hrxHolds (by omega) E trace m
  refine ⟨packet, ?_, ?_⟩
  · unfold streamWrite?
    rw [if_neg (by rw [maxUserDataLen]; omega)]
    simp only [Option.bind_eq_bind, hframe, hseal, Option.bind_some, List.mapM_cons, List.mapM_nil,
      hice]
    rfl
  · unfold streamOnRxData?
    rw [if_neg (by decide), if_neg (by rw [hplen]; omega)]
    simp only [hversion, htype, hplen', hbody]
    rw [if_neg (by rw [hplen]; simp), if_neg (by simp)]
    simp only [Option.bind_eq_bind, hread, hdata, Option.bind_some, List.mapM_cons, List.mapM_nil,
      List.flatten_cons, List.flatten_nil, List.append_nil, pure, hup.load]

/-- What `crypto_box` makes of `hello` under the shared key and the nonce of the offerer. -/
def sealedHello : Bytes := toBE 21 0x1e0194b312ca6faa98e565147e7222bc8d6c9c057e

/-- That value of `crypto_box`, completed to a function that can be undone everywhere. -/
def helloCipher : BoxCipher where
  afternm plain nonce key :=
    if key = Peers.sharedKey ∧ nonce = Peers.offerDrawn.nonce ∧
        plain.drop zeroBytes = ascii "hello" then
      some (List.replicate (zeroBytes - macBytes) 0 ++ sealedHello)
    else
      some (List.replicate (zeroBytes - macBytes) 0 ++
        (plain.drop zeroBytes ++ List.replicate macBytes 0))
  openAfternm encrypted nonce key :=
    let c := encrypted.drop (zeroBytes - macBytes)
    if key = Peers.sharedKey ∧ nonce = Peers.offerDrawn.nonce ∧ c = sealedHello then
      some (List.replicate zeroBytes 0 ++ ascii "hello")
    else some (List.replicate zeroBytes 0 ++ c.take (c.length - macBytes))

theorem helloCipher_opens : helloCipher.Opens Peers.sharedKey Peers.offerDrawn.nonce := by
  intro m
  have hdrop (n : ℕ) (l : Bytes) : (List.replicate n 0 ++ l).drop n = l :=
    List.drop_left' (List.length_replicate)
  by_cases hm : m = ascii "hello"
  · subst hm
    refine ⟨sealedHello, by decide, ?_, ?_⟩
    · unfold helloCipher
      dsimp only
      rw [hdrop, if_pos ⟨rfl, rfl, rfl⟩]
    · unfold helloCipher
      dsimp only
      rw [hdrop, if_pos ⟨rfl, rfl, rfl⟩]
  · -- A text that ends in the padding is not what `hello` becomes.
    have hne : m ++ List.replicate macBytes 0 ≠ sealedHello := by
      intro heq
      have hlast := congrArg List.getLast? heq
      rw [List.getLast?_append_of_ne_nil _ (by decide)] at hlast
      exact absurd hlast (by decide)
    refine ⟨m ++ List.replicate macBytes 0, by simp, ?_, ?_⟩
    · unfold helloCipher
      dsimp only
      rw [hdrop, if_neg (fun hhello => hm hhello.2.2)]
    · unfold helloCipher
      dsimp only
      rw [hdrop, if_neg (fun hsealed => hne hsealed.2.2), List.length_append, List.length_replicate,
        Nat.add_sub_cancel, List.take_left]

/-- An encrypted stream without multiplexing. -/
theorem streamOnRxData?_hello :
    ∃ packet, streamWrite? 2076 helloCipher SecurePeers.connected.a ⟨false, false⟩ (ascii "hello") =
        some [packet] ∧
      streamOnRxData? helloCipher (linkEnv .modWidth ⟨0, 0⟩) false SecurePeers.connected.b
        ⟨false, false⟩ (multiplexHandlerCreate false false) .connected packet =
          some [ascii "hello"] :=
  streamOnRxData?_streamWrite? le_rfl helloCipher_opens rfl rfl _ _ _ _ (by decide) (by decide)

section Checked

variable {box : BoxCipher} {ws : IOEXSession} {buf buf' : FlexBuffer}

theorem backwardOffset?_eq_some {k : ℕ} (h : backwardOffset? buf k = some buf') :
    buf' = flexBufferBackwardOffset buf k := by
  unfold backwardOffset? at h
  split_ifs at h
  exact (Option.some.inj h).symm

theorem forwardOffset?_eq_some {k : ℕ} (h : forwardOffset? buf k = some buf') :
    buf' = flexBufferForwardOffset buf k := by
  unfold forwardOffset? at h
  split_ifs at h
  exact (Option.some.inj h).symm

theorem store?_eq_some {src : Bytes} (h : store? buf src = some buf') :
    buf' = { buf with buffer := writeAt buf.buffer buf.offset src } := by
  unfold store? at h
  split_ifs at h
  exact (Option.some.inj h).symm

theorem load?_eq_some {data : Bytes} (h : load? buf buf.size = some data) : data = buf.payload := by
  unfold load? at h
  split_ifs at h
  exact (Option.some.inj h).symm

/-- With its checks passed, `crypto_handler_write` hands on what it does without them. -/
theorem cryptoHandlerWrite?_sent (h : cryptoHandlerWrite? box ws buf = some [buf'])
    (next : FlexBuffer → FlexBuffer × ℤ) : (cryptoHandlerWrite box next ws buf).sent = some buf' := by
  unfold cryptoHandlerWrite? at h
  simp only [Option.bind_eq_bind, Option.bind_eq_some_iff] at h
  obtain ⟨back, hback, plain, hload, stored, hstore, fwd, -, h⟩ := h
  have hplain := load?_eq_some hload
  rw [backwardOffset?_eq_some hback] at hplain
  subst hplain
  unfold cryptoHandlerWrite
  dsimp only
  cases hcipher : (cryptoEncrypt2 box ws.cryptoKey ws.nonce
      (flexBufferBackwardOffset buf zeroBytes).payload).2 with
  | none =>
    rw [hcipher] at h
    cases h
  | some cipher =>
    rw [hcipher] at h
    simp only [Option.bind_eq_some_iff] at h
    obtain ⟨cbuf, hcbuf, last, hlast, heq⟩ := h
    cases heq
    rw [forwardOffset?_eq_some hlast, store?_eq_some hcbuf]

/-- And so does `crypto_handler_on_rx_data`. -/
theorem cryptoHandlerOnRxData?_plain (h : cryptoHandlerOnRxData? box ws buf = some [buf']) :
    (cryptoHandlerOnRxData box ws buf).2 = some buf' := by
  unfold cryptoHandlerOnRxData? at h
  simp only [Option.bind_eq_bind, Option.bind_eq_some_iff] at h
  obtain ⟨back, hback, enc, hload, stored, hstore, fwd, -, h⟩ := h
  have henc := load?_eq_some hload
  rw [backwardOffset?_eq_some hback] at henc
  subst henc
  unfold cryptoHandlerOnRxData
  dsimp only
  cases hplain : (cryptoDecrypt2 box ws.cryptoKey ws.nonce
      (flexBufferBackwardOffset buf (zeroBytes - macBytes)).payload).2 with
  | none =>
    rw [hplain] at h
    cases h
  | some plain =>
    rw [hplain] at h
    simp only [Option.bind_eq_some_iff] at h
    obtain ⟨pbuf, hpbuf, last, hlast, heq⟩ := h
    cases heq
    rw [forwardOffset?_eq_some hlast, store?_eq_some hpbuf, backwardOffset?_eq_some hback]

end Checked

end Carrier.Session
