import Carrier.Lib.Scanf
import Carrier.Session.Multiplex

/-! Multiplexed packets as bytes: what `multiplex_handler_send_packet` writes before the payload,
and what `multiplex_handler_notify_packet` reads back. -/
namespace Carrier.Session
open Carrier.Lib

/-- The packed header of a packet, its numbers in network order. -/
def ProtocolBuffer.header (pb : ProtocolBuffer) : Bytes :=
  toBE 1 pb.type ++ toBE 1 pb.option ++ toBE 2 pb.localChannelId ++ toBE 2 pb.remoteChannelId ++
    toBE 2 pb.payloadLen

def ProtocolBuffer.bytes (pb : ProtocolBuffer) : Bytes := pb.header ++ pb.payload

/-- The buffer that `multiplex_handler_send_packet` hands to the next handler; `none` is a packet
without payload. -/
def sendPacketBuffer (type : PacketType) (option localId remoteId : ℕ) (buf : Option FlexBuffer) :
    FlexBuffer :=
  let buf := buf.getD (flexBufferNew flexPaddingLen flexPaddingLen)
  let pb : ProtocolBuffer := ⟨type.code, option, remoteId, localId, buf.size % 2 ^ 16, []⟩
  let buf := flexBufferBackwardOffset buf protocolHeadLen
  { buf with buffer := writeAt buf.buffer buf.offset pb.header }

/-- The packet `multiplex_handler_send_packet` makes, as its receiver sees it. -/
def sentPacket (type : PacketType) (option localId remoteId : ℕ) (payload : Bytes) :
    ProtocolBuffer :=
  ⟨type.code, option, remoteId, localId, payload.length % 2 ^ 16, payload⟩

/-- A packet whose numbers have been brought to host order. -/
def protocolBufferAt (p : Bytes) : ProtocolBuffer where
  type := ofBE (readAt p 0 1)
  option := ofBE (readAt p 1 1)
  localChannelId := ofBE (readAt p 2 2)
  remoteChannelId := ofBE (readAt p 4 2)
  payloadLen := ofBE (readAt p 6 2)
  payload := p.drop protocolHeadLen

/-- The packet in a received buffer, if the checks at the head of
`multiplex_handler_notify_packet` let it pass. -/
def receivedPacket (p : Bytes) : Option ProtocolBuffer :=
  if p.length < protocolHeadLen then none
  else if p.length ≠ (protocolBufferAt p).payloadLen + protocolHeadLen then none
  else some (protocolBufferAt p)

@[simp] theorem ProtocolBuffer.length_header (pb : ProtocolBuffer) :
    pb.header.length = protocolHeadLen := by
  simp [header, protocolHeadLen]

/-- The fields of a packet fit their places. -/
structure ProtocolBuffer.Fits (pb : ProtocolBuffer) : Prop where
  type : pb.type < 2 ^ 8
  option : pb.option < 2 ^ 8
  localChannelId : pb.localChannelId < 2 ^ 16
  remoteChannelId : pb.remoteChannelId < 2 ^ 16
  payloadLen : pb.payloadLen < 2 ^ 16

theorem protocolBufferAt_bytes {pb : ProtocolBuffer} (h : pb.Fits) :
    protocolBufferAt pb.bytes = pb := by
  have h1 : pb.type % 256 = pb.type := Nat.mod_eq_of_lt h.type
  have h2 : pb.option % 256 = pb.option := Nat.mod_eq_of_lt h.option
  have h3 : pb.localChannelId % 65536 = pb.localChannelId := Nat.mod_eq_of_lt h.localChannelId
  have h4 : pb.remoteChannelId % 65536 = pb.remoteChannelId := Nat.mod_eq_of_lt h.remoteChannelId
  have h5 : pb.payloadLen % 65536 = pb.payloadLen := Nat.mod_eq_of_lt h.payloadLen
  have hbytes : pb.bytes = toBE 1 pb.type ++ (toBE 1 pb.option ++ (toBE 2 pb.localChannelId ++
      (toBE 2 pb.remoteChannelId ++ (toBE 2 pb.payloadLen ++ pb.payload)))) := by
    simp only [ProtocolBuffer.bytes, ProtocolBuffer.header, List.append_assoc]
  have hpayload : pb.bytes.drop protocolHeadLen = pb.payload := by
    rw [ProtocolBuffer.bytes, List.drop_left' pb.length_header]
  unfold protocolBufferAt
  rw [hpayload, hbytes]
  simp only [readAt_append_right, readAt_append_left, length_toBE, ofBE_toBE, Nat.reduceLeDiff,
    Nat.reduceSub, Nat.reducePow, h1, h2, h3, h4, h5]

theorem receivedPacket_bytes {pb : ProtocolBuffer} (h : pb.Fits) :
    receivedPacket pb.bytes = if pb.payload.length = pb.payloadLen then some pb else none := by
  have hlen : pb.bytes.length = pb.payload.length + protocolHeadLen := by
    rw [ProtocolBuffer.bytes, List.length_append, ProtocolBuffer.length_header, Nat.add_comm]
  unfold receivedPacket
  rw [protocolBufferAt_bytes h, if_neg (by omega), hlen]
  by_cases heq : pb.payload.length = pb.payloadLen
  · rw [if_neg (by omega), if_pos heq]
  · rw [if_pos (by omega), if_neg heq]

/-- A packet is received if the 16 bits of its length can tell how long its payload is. -/
theorem receivedPacket_sentPacket (type : PacketType) {option localId remoteId : ℕ}
    (hoption : option < 2 ^ 8) (hlocal : localId < 2 ^ 16) (hremote : remoteId < 2 ^ 16)
    (payload : Bytes) :
    receivedPacket (sentPacket type option localId remoteId payload).bytes =
      if payload.length < 2 ^ 16 then
        some ⟨type.code, option, remoteId, localId, payload.length, payload⟩
      else none := by
  have hcode : type.code < 2 ^ 8 := by cases type <;> decide
  have hfits : (sentPacket type option localId remoteId payload).Fits :=
    ⟨hcode, hoption, hremote, hlocal, Nat.mod_lt _ (by decide)⟩
  rw [receivedPacket_bytes hfits]
  by_cases hlen : payload.length < 2 ^ 16
  · have hmod : payload.length % 2 ^ 16 = payload.length := Nat.mod_eq_of_lt hlen
    rw [if_pos hlen, sentPacket, hmod, if_pos rfl]
  · have hmod : payload.length % 2 ^ 16 < 2 ^ 16 := Nat.mod_lt _ (by decide)
    rw [if_neg hlen, if_neg (by dsimp only [sentPacket]; omega)]

theorem receivedPacket_eq_some {p : Bytes} {pb : ProtocolBuffer} (h : receivedPacket p = some pb) :
    pb.Fits ∧ pb.payload.length = pb.payloadLen ∧ pb = protocolBufferAt p := by
  unfold receivedPacket at h
  split_ifs at h with hshort hlen
  have hpb := (Option.some.inj h).symm
  have hfield (pos n : ℕ) : ofBE (readAt p pos n) < 256 ^ n :=
    (ofBE_lt _).trans_le (Nat.pow_le_pow_right (by decide) (by simp [readAt]))
  refine ⟨?_, ?_, hpb⟩
  · rw [hpb]
    exact ⟨hfield 0 1, hfield 1 1, hfield 2 2, hfield 4 2, hfield 6 2⟩
  · rw [hpb]
    simp only [ne_eq, not_not] at hlen
    simp only [protocolBufferAt, List.length_drop] at hlen ⊢
    omega

/-- The bytes handed on are those of the packet that the handler has been asked to send. -/
theorem sendPacketBuffer_payload (type : PacketType) (option localId remoteId : ℕ)
    {buf : FlexBuffer} (hin : buf.offset ≤ buf.buffer.length) (hoff : protocolHeadLen ≤ buf.offset)
    (hlen : buf.payload.length = buf.size) :
    (sendPacketBuffer type option localId remoteId (some buf)).payload =
      (sentPacket type option localId remoteId buf.payload).bytes := by
  have hback := flexBufferBackwardOffset_eq hoff
  have hsize : (flexBufferBackwardOffset buf protocolHeadLen).size = buf.size + protocolHeadLen := by
    rw [hback]
  have hin' : (flexBufferBackwardOffset buf protocolHeadLen).offset ≤
      (flexBufferBackwardOffset buf protocolHeadLen).buffer.length := by
    rw [hback]
    exact (Nat.sub_le _ _).trans hin
  unfold sendPacketBuffer
  dsimp only [Option.getD_some]
  rw [FlexBuffer.payload_writeAt hin' (by rw [ProtocolBuffer.length_header, hsize]; omega),
    ProtocolBuffer.length_header, flexBufferBackwardOffset_payload hoff, ← hlen]
  rfl

theorem flexBufferFrom_payload (offset : ℕ) (src : Bytes) :
    (flexBufferFrom offset src).payload = src := by
  simp [flexBufferFrom, FlexBuffer.payload, readAt]

/-- A packet sent from a fresh buffer with `src` in it. -/
theorem sendPacketBuffer_from (type : PacketType) (option localId remoteId : ℕ)
    (src : Bytes) :
    (sendPacketBuffer type option localId remoteId
        (some (flexBufferFrom flexPaddingLen src))).payload =
      (sentPacket type option localId remoteId src).bytes := by
  have hpay := flexBufferFrom_payload flexPaddingLen src
  have hin : (flexBufferFrom flexPaddingLen src).offset ≤
      (flexBufferFrom flexPaddingLen src).buffer.length := by simp [flexBufferFrom]
  have h := sendPacketBuffer_payload type option localId remoteId hin
    (show 8 ≤ 128 by decide) (by rw [hpay]; rfl)
  rw [h, hpay]

/-- A packet without payload is sent from a buffer with nothing in it. -/
theorem sendPacketBuffer_none (type : PacketType) (option localId remoteId : ℕ) :
    sendPacketBuffer type option localId remoteId none =
      sendPacketBuffer type option localId remoteId (some (flexBufferFrom flexPaddingLen [])) := by
  unfold sendPacketBuffer
  rfl

/-- The packets the public functions make the handler send: data, on the stream or on a channel;
packets without payload; and a request to open a channel, with its cookie. -/
inductive Emits : PacketType → ℕ → ℕ → ℕ → Option FlexBuffer → Prop where
  | write (data : Bytes) (hpos : 1 ≤ data.length) (hmax : data.length ≤ maxUserDataLen) :
      Emits .channelData 0 0 0 (some (flexBufferFrom flexPaddingLen data))
  | writeChannel (localId remoteId : ℕ) (hl : localId < 2 ^ 16) (hr : remoteId < 2 ^ 16)
      (data : Bytes) (hpos : 1 ≤ data.length) (hmax : data.length ≤ maxUserDataLen) :
      Emits .channelData 0 localId remoteId (some (flexBufferFrom flexPaddingLen data))
  | control (type : PacketType) (hdata : type ≠ .channelData) (hopen : type ≠ .channelOpen)
      (localId remoteId : ℕ) (hl : localId < 2 ^ 16) (hr : remoteId < 2 ^ 16) :
      Emits type 0 localId remoteId none
  | openChannel (type : ChannelType) (localId : ℕ) (hl : localId < 2 ^ 16) :
      Emits .channelOpen type.code localId 0 none
  | openCookie (type : ChannelType) (localId : ℕ) (hl : localId < 2 ^ 16) (cookie : Bytes)
      (hnul : NoNul cookie) :
      Emits .channelOpen type.code localId 0 (some (flexBufferFrom flexPaddingLen (cookie ++ [0])))

namespace Emits

variable {type : PacketType} {option localId remoteId : ℕ} {buf : Option FlexBuffer}

/-- The payload a packet is sent with. -/
abbrev payload (buf : Option FlexBuffer) : Bytes := buf.elim [] FlexBuffer.payload

theorem bounds (h : Emits type option localId remoteId buf) :
    option < 2 ^ 8 ∧ localId < 2 ^ 16 ∧ remoteId < 2 ^ 16 := by
  cases h with
  | write => decide
  | writeChannel => exact ⟨by decide, by assumption, by assumption⟩
  | control => exact ⟨by decide, by assumption, by assumption⟩
  | openChannel type => exact ⟨by cases type <;> decide, by assumption, by decide⟩
  | openCookie type => exact ⟨by cases type <;> decide, by assumption, by decide⟩

theorem sent (h : Emits type option localId remoteId buf) :
    (sendPacketBuffer type option localId remoteId buf).payload =
      (sentPacket type option localId remoteId (payload buf)).bytes := by
  cases h with
  | write data | writeChannel _ _ _ _ data | openCookie _ _ _ data =>
    rw [sendPacketBuffer_from, payload, Option.elim_some, flexBufferFrom_payload]
  | control | openChannel =>
    rw [sendPacketBuffer_none, sendPacketBuffer_from, payload, Option.elim_none]

end Emits

/-- A packet arrives as it was sent, with the ids seen from the other side, unless its payload is
longer than the 16 bits of its length can tell. -/
theorem receivedPacket_sendPacketBuffer_iff {type : PacketType} {option localId remoteId : ℕ}
    {buf : Option FlexBuffer} (h : Emits type option localId remoteId buf) :
    receivedPacket (sendPacketBuffer type option localId remoteId buf).payload =
        some ⟨type.code, option, remoteId, localId, (Emits.payload buf).length, Emits.payload buf⟩ ↔
      (Emits.payload buf).length < 2 ^ 16 := by
  obtain ⟨hoption, hlocal, hremote⟩ := h.bounds
  rw [h.sent, receivedPacket_sentPacket type hoption hlocal hremote]
  split_ifs with hlen
  · exact iff_of_true rfl hlen
  · exact iff_of_false (by simp) hlen

/-- A request with the cookie `echo`. -/
theorem receivedPacket_sendPacketBuffer_echo :
    NoNul (ascii "echo") ∧
      (receivedPacket (sendPacketBuffer .channelOpen 0 7 0
          (some (flexBufferFrom flexPaddingLen (ascii "echo" ++ [0])))).payload =
        some ⟨1, 0, 0, 7, 5, ascii "echo" ++ [0]⟩ ↔ 5 < 2 ^ 16) := by
  have hnul : NoNul (ascii "echo") := by decide
  exact ⟨hnul, receivedPacket_sendPacketBuffer_iff (.openCookie .user 7 (by decide) _ hnul)⟩

/-- The shortest cookie that does not get through: with its NUL it is 65536 bytes, and its packet
says that it has none. -/
theorem receivedPacket_long_cookie :
    NoNul (List.replicate 65535 0x61) ∧
      receivedPacket (sendPacketBuffer .channelOpen 0 7 0
        (some (flexBufferFrom flexPaddingLen (List.replicate 65535 0x61 ++ [0])))).payload =
          none := by
  have hnul : NoNul (List.replicate 65535 0x61) := by
    intro b hb
    rw [List.eq_of_mem_replicate hb]
    decide
  have hlen : (List.replicate 65535 (0x61 : UInt8) ++ [0]).length = 65536 := by
    rw [List.length_append, List.length_replicate, List.length_singleton]
  refine ⟨hnul, ?_⟩
  rw [sendPacketBuffer_from, receivedPacket_sentPacket _ (by decide) (by decide) (by decide), hlen,
    if_neg (by decide)]

end Carrier.Session
