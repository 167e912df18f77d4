import Carrier.Lib.RingBuffer

/-! The `PseudoTcpFifo` of `pseudotcp.c`: a ring of bytes that can be written ahead of its end. -/
namespace Carrier.Session
open Carrier.Lib

/-- `PseudoTcpFifo`. The array is never empty: no capacity of zero is ever set. -/
structure PseudoTcpFifo where
  buffer : Bytes
  dataLength : ℕ
  readPosition : ℕ
  dataLength_le : dataLength ≤ buffer.length
  readPosition_lt : readPosition < buffer.length
  deriving DecidableEq

namespace PseudoTcpFifo

def bufferLength (b : PseudoTcpFifo) : ℕ := b.buffer.length

theorem bufferLength_pos (b : PseudoTcpFifo) : 0 < b.bufferLength :=
  Nat.zero_lt_of_lt b.readPosition_lt

theorem dataLength_le_bufferLength (b : PseudoTcpFifo) : b.dataLength ≤ b.bufferLength :=
  b.dataLength_le

def atStart (buffer : Bytes) (dataLength : ℕ) (hdata : dataLength ≤ buffer.length)
    (hpos : 0 < buffer.length) : PseudoTcpFifo :=
  ⟨buffer, dataLength, 0, hdata, hpos⟩

/-- The same fifo over an array of the same length. -/
def setBuffer (b : PseudoTcpFifo) (buffer : Bytes) (h : buffer.length = b.buffer.length) :
    PseudoTcpFifo :=
  ⟨buffer, b.dataLength, b.readPosition, b.dataLength_le.trans_eq h.symm,
    b.readPosition_lt.trans_eq h.symm⟩

/-- Fresh memory is zero here; nothing depends on it. -/
def zeros (size : ℕ) : Bytes := List.replicate size 0

theorem length_zeros (size : ℕ) : (zeros size).length = size := List.length_replicate

def init (size : ℕ) (hpos : 0 < size) : PseudoTcpFifo :=
  atStart (zeros size) 0 (Nat.zero_le _) (hpos.trans_eq (length_zeros size).symm)

def getBuffered (b : PseudoTcpFifo) : ℕ := b.dataLength

def getWriteRemaining (b : PseudoTcpFifo) : ℕ := b.bufferLength - b.dataLength

/-- The array that `pseudo_tcp_fifo_set_capacity` copies the data to. -/
def moved (b : PseudoTcpFifo) (size : ℕ) : Bytes :=
  writeAt (zeros size) 0 (readRing b.buffer b.readPosition b.dataLength)

theorem length_moved (b : PseudoTcpFifo) {size : ℕ} (h : b.dataLength ≤ size) :
    (b.moved size).length = size := by
  rw [moved, length_writeAt, length_zeros]
  rw [length_readRing b.readPosition_lt b.dataLength_le, length_zeros]
  omega

theorem lt_of_lt_of_ne {size : ℕ} (b : PseudoTcpFifo) (h : ¬size < b.dataLength)
    (hne : size ≠ b.dataLength) : 0 < size := by
  omega

/-- `pseudo_tcp_fifo_set_capacity`. It compares the size with the length of the data, not with the
one of the array: a fifo that is asked for the capacity its data have keeps the one it has. -/
def setCapacity (b : PseudoTcpFifo) (size : ℕ) : Option PseudoTcpFifo :=
  if h : size < b.dataLength then none
  else if hne : size ≠ b.dataLength then
    some (atStart (b.moved size) b.dataLength
      ((not_lt.mp h).trans_eq (b.length_moved (not_lt.mp h)).symm)
      ((b.lt_of_lt_of_ne h hne).trans_eq (b.length_moved (not_lt.mp h)).symm))
  else some b

/-- The fifo without its first `size` bytes. -/
def skip (b : PseudoTcpFifo) (size : ℕ) : PseudoTcpFifo :=
  ⟨b.buffer, b.dataLength - size, (b.readPosition + size) % b.bufferLength,
    (Nat.sub_le _ _).trans b.dataLength_le, Nat.mod_lt _ b.bufferLength_pos⟩

theorem add_le_of_le_sub (b : PseudoTcpFifo) {size : ℕ}
    (h : size ≤ b.bufferLength - b.dataLength) : b.dataLength + size ≤ b.buffer.length :=
  Nat.add_le_of_le_sub' b.dataLength_le h

/-- The fifo with the next `size` bytes of its array as data. -/
def extend (b : PseudoTcpFifo) (size : ℕ) (h : size ≤ b.bufferLength - b.dataLength) :
    PseudoTcpFifo :=
  ⟨b.buffer, b.dataLength + size, b.readPosition, b.add_le_of_le_sub h, b.readPosition_lt⟩

/-- `pseudo_tcp_fifo_consume_read_data`; `none` is its assertion. -/
def consumeReadData (b : PseudoTcpFifo) (size : ℕ) : Option PseudoTcpFifo :=
  if size ≤ b.dataLength then some (b.skip size) else none

/-- `pseudo_tcp_fifo_consume_write_buffer`; `none` is its assertion. -/
def consumeWriteBuffer (b : PseudoTcpFifo) (size : ℕ) : Option PseudoTcpFifo :=
  if h : size ≤ b.bufferLength - b.dataLength then some (b.extend size h) else none

def readOffset (b : PseudoTcpFifo) (bytes offset : ℕ) : Bytes :=
  if b.dataLength ≤ offset then []
  else
    readRing b.buffer ((b.readPosition + offset) % b.bufferLength) (min bytes (b.dataLength - offset))

/-- How much of `bytes` bytes there is room for. -/
def copied (b : PseudoTcpFifo) (bytes offset : ℕ) : ℕ :=
  min bytes (b.bufferLength - b.dataLength - offset)

/-- The array with the bytes there is room for. -/
def written (b : PseudoTcpFifo) (data : Bytes) (offset : ℕ) : Bytes :=
  writeRing b.buffer ((b.readPosition + b.dataLength + offset) % b.bufferLength)
    (data.take (b.copied data.length offset))

theorem length_written (b : PseudoTcpFifo) (data : Bytes) (offset : ℕ) :
    (b.written data offset).length = b.buffer.length := by
  apply length_writeRing (Nat.mod_lt _ b.bufferLength_pos)
  rw [List.length_take, copied, bufferLength]
  omega

def writeOffset (b : PseudoTcpFifo) (data : Bytes) (offset : ℕ) : ℕ × PseudoTcpFifo :=
  if b.bufferLength ≤ b.dataLength + offset then (0, b)
  else (b.copied data.length offset, b.setBuffer (b.written data offset) (b.length_written data offset))

theorem writeOffset_le (b : PseudoTcpFifo) (data : Bytes) :
    (b.writeOffset data 0).1 ≤
      (b.writeOffset data 0).2.bufferLength - (b.writeOffset data 0).2.dataLength := by
  unfold writeOffset
  split_ifs with h
  · exact Nat.zero_le _
  · change b.copied data.length 0 ≤ (b.written data 0).length - b.dataLength
    rw [b.length_written data 0]
    exact Nat.min_le_right _ _

def read (b : PseudoTcpFifo) (bytes : ℕ) : Bytes × PseudoTcpFifo :=
  let data := b.readOffset bytes 0
  (data, b.skip data.length)

def write (b : PseudoTcpFifo) (data : Bytes) : ℕ × PseudoTcpFifo :=
  let r := b.writeOffset data 0
  (r.1, r.2.extend r.1 (b.writeOffset_le data))

/-- The byte `i` places behind the read position, be it data or not. -/
def cell (b : PseudoTcpFifo) (i : ℕ) : Option UInt8 := ringCell b.buffer b.readPosition i

theorem init_getWriteRemaining (size : ℕ) (hpos : 0 < size) : (init size hpos).getWriteRemaining = size := by
  have hlength : (init size hpos).bufferLength = size := length_zeros size
  have hdata : (init size hpos).dataLength = 0 := rfl
  rw [getWriteRemaining, hlength, hdata, Nat.sub_zero]

@[simp] theorem skip_dataLength (b : PseudoTcpFifo) (n : ℕ) :
    (b.skip n).dataLength = b.dataLength - n := rfl

@[simp] theorem skip_cell (b : PseudoTcpFifo) (n i : ℕ) : (b.skip n).cell i = b.cell (n + i) :=
  ringCell_forward b.buffer b.readPosition n i

section Extend

variable (b : PseudoTcpFifo) {n : ℕ} (h : n ≤ b.bufferLength - b.dataLength)

@[simp] theorem extend_bufferLength : (b.extend n h).bufferLength = b.bufferLength := rfl

@[simp] theorem extend_dataLength : (b.extend n h).dataLength = b.dataLength + n := rfl

@[simp] theorem extend_cell (i : ℕ) : (b.extend n h).cell i = b.cell i := rfl

end Extend

theorem consumeReadData_eq {b : PseudoTcpFifo} {n : ℕ} (h : n ≤ b.dataLength) :
    b.consumeReadData n = some (b.skip n) := if_pos h

theorem consumeWriteBuffer_eq {b : PseudoTcpFifo} {n : ℕ} (h : n ≤ b.bufferLength - b.dataLength) :
    b.consumeWriteBuffer n = some (b.extend n h) := dif_pos h

theorem readOffset_length (b : PseudoTcpFifo) (bytes offset : ℕ) :
    (b.readOffset bytes offset).length = min bytes (b.dataLength - offset) := by
  have hle := b.dataLength_le
  unfold readOffset
  split_ifs with h
  · rw [List.length_nil]
    omega
  · apply length_readRing (Nat.mod_lt _ b.bufferLength_pos)
    omega

theorem readOffset_getElem? (b : PseudoTcpFifo) {bytes offset i : ℕ} (hi : i < bytes)
    (hdata : offset + i < b.dataLength) : (b.readOffset bytes offset)[i]? = b.cell (offset + i) := by
  have hle := b.dataLength_le
  have hcells := getElem?_readRing (n := min bytes (b.dataLength - offset)) (i := i)
    (Nat.mod_lt (b.readPosition + offset) b.bufferLength_pos) (by omega) (by omega)
  rw [readOffset, if_neg (by omega), bufferLength, hcells, ringCell_forward, cell]

@[simp] theorem writeOffset_bufferLength (b : PseudoTcpFifo) (data : Bytes) (offset : ℕ) :
    (b.writeOffset data offset).2.bufferLength = b.bufferLength := by
  unfold writeOffset
  split_ifs with h
  · rfl
  · exact b.length_written data offset

@[simp] theorem writeOffset_dataLength (b : PseudoTcpFifo) (data : Bytes) (offset : ℕ) :
    (b.writeOffset data offset).2.dataLength = b.dataLength := by
  unfold writeOffset
  split_ifs with h
  · rfl
  · rfl

theorem writeOffset_count (b : PseudoTcpFifo) (data : Bytes) (offset : ℕ) :
    (b.writeOffset data offset).1 = min data.length (b.bufferLength - b.dataLength - offset) := by
  unfold writeOffset
  split_ifs with h
  · change 0 = _
    omega
  · rfl

theorem written_cell (b : PseudoTcpFifo) {data : Bytes} {offset i : ℕ}
    (hroom : b.dataLength + offset < b.bufferLength) (hi : i < b.bufferLength) :
    ringCell (b.written data offset) b.readPosition i =
      if b.dataLength + offset ≤ i ∧ i < b.dataLength + offset + b.copied data.length offset then
        data[i - (b.dataLength + offset)]?
      else b.cell i := by
  have hlen : (data.take (b.copied data.length offset)).length = b.copied data.length offset := by
    rw [List.length_take, copied]
    omega
  have hfit : b.dataLength + offset + (data.take (b.copied data.length offset)).length ≤
      b.buffer.length := by
    rw [hlen, copied]
    unfold bufferLength at hroom ⊢
    omega
  rw [written, Nat.add_assoc b.readPosition, bufferLength, ringCell_writeRing_forward hfit hi, hlen]
  split_ifs with hin
  · exact List.getElem?_take_of_lt (by omega)
  · rfl

/-- What is written shows in its cells, and only there. -/
theorem writeOffset_cell (b : PseudoTcpFifo) (data : Bytes) (offset : ℕ) {i : ℕ}
    (hi : i < b.bufferLength) :
    (b.writeOffset data offset).2.cell i =
      if b.dataLength + offset ≤ i ∧ i < b.dataLength + offset + (b.writeOffset data offset).1 then
        data[i - (b.dataLength + offset)]?
      else b.cell i := by
  by_cases hfull : b.bufferLength ≤ b.dataLength + offset
  · rw [writeOffset, if_pos hfull, if_neg (by omega)]
  · rw [writeOffset, if_neg hfull]
    exact b.written_cell (not_le.mp hfull) hi

end PseudoTcpFifo

end Carrier.Session
