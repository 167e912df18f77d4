import Carrier.Lib.Bytes

/-! `session/flex_buffer.h`. -/
namespace Carrier.Session
open Carrier.Lib

def flexPaddingLen : ℕ := 128

def maxUserDataLen : ℕ := 2048

def flexBufferMaxLen : ℕ := flexPaddingLen * 2 + maxUserDataLen

/-- The storage is `buffer`; the data are its `size` bytes from `offset` on. -/
structure FlexBuffer where
  capacity : ℕ
  offset : ℕ
  size : ℕ
  buffer : Bytes
  deriving DecidableEq

def flexBufferInit (buffer : Bytes) (capacity offset : ℕ) : FlexBuffer := ⟨capacity, offset, 0, buffer⟩

/-- The macro `flex_buffer_from`: fresh storage with `src` behind `offset` spare bytes. -/
def flexBufferFrom (offset : ℕ) (src : Bytes) : FlexBuffer :=
  ⟨src.length + offset, offset, src.length, List.replicate offset 0 ++ src⟩

/-- The macro `flex_buffer`. -/
def flexBufferNew (capacity offset : ℕ) : FlexBuffer :=
  ⟨capacity, offset, 0, List.replicate capacity 0⟩

def flexBufferReset (buf : FlexBuffer) (offset : ℕ) : FlexBuffer :=
  { buf with offset := offset, size := 0 }

def flexBufferAvailable (buf : FlexBuffer) : ℕ :=
  subSize (subSize buf.capacity buf.offset) buf.size

def flexBufferSetSize (buf : FlexBuffer) (size : ℕ) : FlexBuffer := { buf with size := size }

def flexBufferForwardOffset (buf : FlexBuffer) (bytes : ℕ) : FlexBuffer :=
  let bytes := if buf.offset + bytes ≤ buf.capacity then bytes
    else subSize (subSize buf.capacity buf.offset) 1
  { buf with offset := buf.offset + bytes, size := subSize buf.size bytes }

def flexBufferBackwardOffset (buf : FlexBuffer) (bytes : ℕ) : FlexBuffer :=
  let bytes := if bytes ≤ buf.offset then bytes else buf.offset
  { buf with offset := buf.offset - bytes, size := buf.size + bytes }

/-- `flex_buffer_append2`: at most `len` bytes, cut to the space left. -/
def flexBufferAppend2 (dest src : FlexBuffer) (len : ℕ) : FlexBuffer :=
  let available := flexBufferAvailable dest
  let len := if len < available then len else available
  { dest with
    buffer := writeAt dest.buffer (dest.offset + dest.size) (readAt src.buffer src.offset len)
    size := dest.size + len }

def flexBufferAppend (dest src : FlexBuffer) : FlexBuffer := flexBufferAppend2 dest src src.size

namespace FlexBuffer

def payload (b : FlexBuffer) : Bytes := readAt b.buffer b.offset b.size

/-- The data lie inside the storage. -/
structure WF (b : FlexBuffer) : Prop where
  storage : b.buffer.length = b.capacity
  bound : b.offset + b.size ≤ b.capacity
  small : b.capacity < 2 ^ 64

variable {b src : FlexBuffer}

theorem WF.length_payload (h : b.WF) : b.payload.length = b.size := by
  have h1 := h.storage
  have h2 := h.bound
  simp only [payload, readAt, List.length_take, List.length_drop]
  omega

end FlexBuffer

theorem flexBufferAvailable_of_wf {b : FlexBuffer} (h : b.WF) :
    flexBufferAvailable b = b.capacity - b.offset - b.size := by
  have h2 := h.bound
  have h3 := h.small
  rw [flexBufferAvailable, subSize_of_le (by omega) h3, subSize_of_le (by omega) (by omega)]

theorem flexBufferReset_wf {b : FlexBuffer} {off : ℕ} (hs : b.buffer.length = b.capacity)
    (hoff : off ≤ b.capacity) (hc : b.capacity < 2 ^ 64) : (flexBufferReset b off).WF :=
  ⟨hs, hoff, hc⟩

@[simp] theorem flexBufferReset_payload (b : FlexBuffer) (off : ℕ) :
    (flexBufferReset b off).payload = [] := by
  simp [flexBufferReset, FlexBuffer.payload, readAt]

theorem flexBufferForwardOffset_eq {b : FlexBuffer} (h : b.WF) {k : ℕ} (hk : k ≤ b.size) :
    flexBufferForwardOffset b k = { b with offset := b.offset + k, size := b.size - k } := by
  have h2 := h.bound
  have h3 := h.small
  simp only [flexBufferForwardOffset, if_pos (show b.offset + k ≤ b.capacity by omega),
    subSize_of_le hk (by omega)]

theorem flexBufferForwardOffset_wf {b : FlexBuffer} (h : b.WF) {k : ℕ} (hk : k ≤ b.size) :
    (flexBufferForwardOffset b k).WF := by
  have h2 := h.bound
  rw [flexBufferForwardOffset_eq h hk]
  exact ⟨h.storage, by simp only; omega, h.small⟩

theorem flexBufferForwardOffset_payload {b : FlexBuffer} (h : b.WF) {k : ℕ} (hk : k ≤ b.size) :
    (flexBufferForwardOffset b k).payload = b.payload.drop k := by
  rw [flexBufferForwardOffset_eq h hk]
  simp only [FlexBuffer.payload, readAt, List.drop_take, List.drop_drop]

theorem flexBufferBackwardOffset_eq {b : FlexBuffer} {k : ℕ} (hk : k ≤ b.offset) :
    flexBufferBackwardOffset b k = { b with offset := b.offset - k, size := b.size + k } := by
  rw [flexBufferBackwardOffset, if_pos hk]

theorem flexBufferBackwardOffset_payload {b : FlexBuffer} {k : ℕ} (hk : k ≤ b.offset) :
    (flexBufferBackwardOffset b k).payload.drop k = b.payload := by
  rw [flexBufferBackwardOffset_eq hk]
  simp only [FlexBuffer.payload, readAt, List.drop_take, List.drop_drop]
  rw [Nat.add_sub_cancel, Nat.sub_add_cancel hk]

theorem FlexBuffer.payload_writeAt {b : FlexBuffer} (h : b.offset ≤ b.buffer.length)
    {src : Bytes} (hlen : src.length ≤ b.size) :
    FlexBuffer.payload { b with buffer := writeAt b.buffer b.offset src } =
      src ++ b.payload.drop src.length := by
  have hsplit : b.buffer = b.buffer.take b.offset ++ b.buffer.drop b.offset :=
    (List.take_append_drop _ _).symm
  have hpos : (b.buffer.take b.offset).length = b.offset := by
    rw [List.length_take]
    omega
  have hwrite : writeAt b.buffer b.offset src =
      b.buffer.take b.offset ++ (src ++ (b.buffer.drop b.offset).drop src.length) := by
    conv_lhs => rw [hsplit]
    rw [writeAt_append_right hpos.le, hpos, Nat.sub_self]
    simp [writeAt]
  simp only [payload, readAt, hwrite]
  rw [List.drop_append_of_le_length hpos.ge, List.drop_eq_nil_iff.mpr hpos.le, List.nil_append,
    List.take_append, List.take_of_length_le hlen, List.drop_take]

/-- What an append stores: the part of the request that fits behind the data. -/
theorem flexBufferAppend2_spec {d s : FlexBuffer} (hd : d.WF) (hs : s.WF) {len : ℕ}
    (hlen : len ≤ s.size) :
    (flexBufferAppend2 d s len).WF ∧
      (flexBufferAppend2 d s len).capacity = d.capacity ∧
      (flexBufferAppend2 d s len).offset = d.offset ∧
      (flexBufferAppend2 d s len).payload =
        d.payload ++ s.payload.take (min len (d.capacity - d.offset - d.size)) := by
  have h1 := hd.storage
  have h2 := hd.bound
  have h3 := hd.small
  have h4 := hs.storage
  have h5 := hs.bound
  have hmin : (if len < flexBufferAvailable d then len else flexBufferAvailable d) =
      min len (d.capacity - d.offset - d.size) := by
    rw [flexBufferAvailable_of_wf hd]
    split_ifs <;> omega
  set m := min len (d.capacity - d.offset - d.size) with hm
  have hread : readAt s.buffer s.offset m = s.payload.take m := by
    rw [FlexBuffer.payload, readAt, readAt, List.take_take, min_eq_left (by omega)]
  have hl : (s.payload.take m).length = m := by
    rw [List.length_take, hs.length_payload]
    omega
  have heq : flexBufferAppend2 d s len =
      ⟨d.capacity, d.offset, d.size + m, writeAt d.buffer (d.offset + d.size) (s.payload.take m)⟩ := by
    simp only [flexBufferAppend2, hmin, hread]
  rw [heq]
  refine ⟨⟨?_, ?_, h3⟩, rfl, rfl, ?_⟩
  · simp only
    rw [length_writeAt _ _ _ (by omega), h1]
  · simp only
    omega
  · have ht := take_writeAt d.buffer (d.offset + d.size) (s.payload.take m) (by omega)
    rw [hl] at ht
    generalize s.payload.take m = copied at ht ⊢
    simp only [FlexBuffer.payload, readAt]
    rw [show d.size + m = (d.offset + d.size + m) - d.offset by omega, ← List.drop_take, ht,
      List.drop_append_of_le_length (by rw [List.length_take]; omega), List.drop_take,
      Nat.add_sub_cancel_left]

end Carrier.Session
