import Carrier.Lib.Run
import Carrier.Lib.Tape
import Carrier.Session.TcpFifo

/-! The ring of a `PseudoTcpFifo` is a tape: whatever is written ahead of the data comes out at its place,
however often the ring has been gone round. -/
namespace Carrier.Session
open Carrier.Lib

theorem PseudoTcpFifo.moved_cell (b : PseudoTcpFifo) {size i : ℕ} (hle : b.dataLength ≤ size)
    (hi : i < b.dataLength) : ringCell (b.moved size) 0 i = b.cell i := by
  have hdata := b.dataLength_le
  have hread := length_readRing b.readPosition_lt b.dataLength_le
  have hfit : 0 + (readRing b.buffer b.readPosition b.dataLength).length ≤ (zeros size).length := by
    rw [hread, length_zeros]
    omega
  rw [ringCell, b.length_moved hle, Nat.zero_add, Nat.mod_eq_of_lt (hi.trans_le hle), moved,
    getElem?_writeAt hfit, if_pos (by omega), Nat.sub_zero,
    getElem?_readRing b.readPosition_lt hdata hi, cell]

theorem PseudoTcpFifo.read_eq (b : PseudoTcpFifo) (n : ℕ) :
    b.read n = (b.readOffset (min n b.dataLength) 0, b.skip (min n b.dataLength)) := by
  have hlength := b.readOffset_length n 0
  have hsame : b.readOffset n 0 = b.readOffset (min n b.dataLength) 0 := by
    rw [readOffset, readOffset, Nat.sub_zero, min_assoc, min_self]
  rw [read, hlength, hsame, Nat.sub_zero]

/-- A fifo, and the bytes that have left it. -/
structure FifoRun where
  fifo : PseudoTcpFifo
  out : Bytes

namespace FifoRun

def init (size : ℕ) (hpos : 0 < size) : FifoRun := ⟨.init size hpos, []⟩

def step (r : FifoRun) : TapeOp UInt8 → Option FifoRun
  | .write data => some { r with fifo := (r.fifo.write data).2 }
  | .writeOffset data offset => some { r with fifo := (r.fifo.writeOffset data offset).2 }
  | .grow n => (r.fifo.consumeWriteBuffer n).map (fun b => { r with fifo := b })
  | .read n => some ⟨(r.fifo.read n).2, r.out ++ (r.fifo.read n).1⟩
  | .drop n => (r.fifo.consumeReadData n).map (fun b => ⟨b, r.out ++ r.fifo.readOffset n 0⟩)
  | .resize n => (r.fifo.setCapacity n).map (fun b => { r with fifo := b })

end FifoRun

/-- What is known of a tape is in the fifo, or has left it, at its place. -/
structure Represents (t : Tape UInt8) (r : FifoRun) : Prop where
  bounded : t.Bounded
  capacity : r.fifo.bufferLength = t.capacity
  len : r.fifo.dataLength = t.len
  head : r.out.length = t.head
  cells : ∀ i < t.capacity, ∀ x ∈ t.cell (t.head + i), r.fifo.cell i = some x
  out : ∀ j < t.head, ∀ x ∈ t.cell j, r.out[j]? = some x

section Steps

variable {t : Tape UInt8} {r : FifoRun} {n : ℕ}

theorem Represents.put (h : Represents t r) (data : Bytes) (offset : ℕ) :
    Represents (t.put data offset) { r with fifo := (r.fifo.writeOffset data offset).2 } where
  bounded := h.bounded.put data offset
  capacity := (r.fifo.writeOffset_bufferLength data offset).trans h.capacity
  len := (r.fifo.writeOffset_dataLength data offset).trans h.len
  head := h.head
  cells i hi x hx := by
    have hcount := r.fifo.writeOffset_count data offset
    rw [h.capacity, h.len] at hcount
    rw [PseudoTcpFifo.writeOffset_cell _ _ _ (hi.trans_eq h.capacity.symm), hcount, h.len]
    change x ∈ (t.put data offset).cell (t.head + i) at hx
    rw [Tape.put_cell, Tape.room] at hx
    by_cases hin : t.head + t.len + offset ≤ t.head + i ∧
        t.head + i < t.head + t.len + offset + min data.length (t.capacity - t.len - offset)
    · rw [if_pos hin] at hx
      rw [if_pos (by omega), show i - (t.len + offset) = t.head + i - (t.head + t.len + offset) by omega]
      exact hx
    · rw [if_neg hin] at hx
      rw [if_neg (by omega)]
      exact h.cells i hi x hx
  out j hj x hx := by
    dsimp only [Tape.put] at hj hx
    rw [if_neg (by omega)] at hx
    exact h.out j hj x hx

theorem Represents.grow (h : Represents t r) (hn : n ≤ r.fifo.bufferLength - r.fifo.dataLength) :
    Represents (t.grow n) { r with fifo := r.fifo.extend n hn } := by
  have hn' : n ≤ t.capacity - t.len := by
    rw [← h.capacity, ← h.len]
    exact hn
  exact
    { bounded := h.bounded.grow hn'
      capacity := h.capacity
      len := congrArg (· + n) h.len
      head := h.head
      cells := h.cells
      out := h.out }

theorem Represents.pass (h : Represents t r) (hn : n ≤ t.len) :
    Represents (t.pass n) ⟨r.fifo.skip n, r.out ++ r.fifo.readOffset n 0⟩ where
  bounded := h.bounded.pass n
  capacity := h.capacity
  len := congrArg (· - n) h.len
  head := by
    have hlen := h.len
    rw [List.length_append, PseudoTcpFifo.readOffset_length, h.head]
    dsimp only [Tape.pass]
    omega
  cells i hi x hx := by
    -- Cells that the head leaves room for hold nothing yet.
    have hlt := h.bounded.cell_lt _ x hx
    dsimp only [Tape.pass] at hi hx hlt
    rw [PseudoTcpFifo.skip_cell]
    rw [Nat.add_assoc] at hx
    exact h.cells (n + i) (by omega) x hx
  out j hj x hx := by
    have hlen := h.len
    have hle := h.bounded.len_le
    dsimp only [Tape.pass] at hj hx
    by_cases hold : j < t.head
    · rw [List.getElem?_append_left (hold.trans_eq h.head.symm)]
      exact h.out j hold x hx
    · have hmem : x ∈ t.cell (t.head + (j - t.head)) := by
        rw [Nat.add_sub_cancel' (not_lt.mp hold)]
        exact hx
      rw [List.getElem?_append_right (by rw [h.head]; omega), h.head,
        PseudoTcpFifo.readOffset_getElem? _ (by omega) (by omega), Nat.zero_add]
      exact h.cells _ (by omega) x hmem

theorem Represents.resize (h : Represents t r) (hn : t.len ≤ n) (hne : n ≠ t.len) {b : PseudoTcpFifo}
    (hb : r.fifo.setCapacity n = some b) : Represents (t.resize n) { r with fifo := b } := by
  rw [PseudoTcpFifo.setCapacity, dif_neg (by rw [h.len]; omega), dif_pos (by rw [h.len]; exact hne)] at hb
  cases hb
  have hle : r.fifo.dataLength ≤ n := h.len.trans_le hn
  exact
    { bounded := Tape.Bounded.resize hn
      capacity := r.fifo.length_moved hle
      len := h.len
      head := h.head
      cells := fun i hi x hx => by
        dsimp only [Tape.resize] at hi hx
        have hdata : i < t.len := by
          by_contra hlt
          rw [if_neg (by omega)] at hx
          exact nomatch hx
        rw [if_pos (by omega)] at hx
        have hcell := h.cells i (hdata.trans_le h.bounded.len_le) x hx
        exact (r.fifo.moved_cell hle (hdata.trans_eq h.len.symm)).trans hcell
      out := fun j hj x hx => by
        dsimp only [Tape.resize] at hj hx
        rw [if_pos (by omega)] at hx
        exact h.out j hj x hx }

/-- Every operation does to the fifo what it does to the tape, and fails on both or on neither. -/
theorem Represents.step (h : Represents t r) (op : TapeOp UInt8) :
    Option.Rel Represents (Tape.step t op) (FifoRun.step r op) := by
  have hlen := h.len
  have hcap := h.capacity
  cases op with
  | write data =>
    have hcount := r.fifo.writeOffset_count data 0
    rw [hcap, hlen] at hcount
    have hput := (h.put data 0).grow (r.fifo.writeOffset_le data)
    have hroom : t.room data.length 0 = (r.fifo.writeOffset data 0).1 := hcount.symm
    dsimp only [Tape.step, FifoRun.step]
    rw [hroom]
    exact .some hput
  | writeOffset data offset => exact .some (h.put data offset)
  | grow n =>
    dsimp only [Tape.step, FifoRun.step]
    by_cases hn : n ≤ t.capacity - t.len
    · have hn' : n ≤ r.fifo.bufferLength - r.fifo.dataLength := by
        rw [hcap, hlen]
        exact hn
      rw [if_pos hn, PseudoTcpFifo.consumeWriteBuffer_eq hn']
      exact .some (h.grow hn')
    · rw [if_neg hn, PseudoTcpFifo.consumeWriteBuffer, dif_neg (by rw [hcap, hlen]; exact hn)]
      exact .none
  | read n =>
    have hpass := h.pass (Nat.min_le_right n t.len)
    rw [← hlen] at hpass
    dsimp only [Tape.step, FifoRun.step]
    rw [← hlen, PseudoTcpFifo.read_eq]
    exact .some hpass
  | drop n =>
    dsimp only [Tape.step, FifoRun.step]
    by_cases hn : n ≤ t.len
    · rw [if_pos hn, PseudoTcpFifo.consumeReadData_eq (hn.trans_eq hlen.symm)]
      exact .some (h.pass hn)
    · rw [if_neg hn, PseudoTcpFifo.consumeReadData, if_neg (by rw [hlen]; exact hn)]
      exact .none
  | resize n =>
    dsimp only [Tape.step, FifoRun.step]
    by_cases hn : n < t.len
    · rw [if_pos hn, PseudoTcpFifo.setCapacity, dif_pos (hn.trans_eq hlen.symm)]
      exact .none
    · by_cases hne : n ≠ t.len
      · obtain ⟨b, hb⟩ : ∃ b, r.fifo.setCapacity n = some b := by
          have hn' : ¬n < r.fifo.dataLength := by
            rw [hlen]
            exact hn
          have hne' : n ≠ r.fifo.dataLength := by
            rw [hlen]
            exact hne
          exact ⟨_, (dif_neg hn').trans (dif_pos hne')⟩
        rw [if_neg hn, if_pos hne, hb]
        exact .some (h.resize (not_lt.mp hn) hne hb)
      · rw [if_neg hn, if_neg hne, PseudoTcpFifo.setCapacity, dif_neg (by rw [hlen]; exact hn),
          dif_neg (by rw [hlen]; exact hne)]
        exact .some h

end Steps

theorem init_represents (size : ℕ) (hpos : 0 < size) :
    Represents (.empty size) (.init size hpos) where
  bounded := Tape.empty_bounded size
  capacity := PseudoTcpFifo.length_zeros size
  len := rfl
  head := rfl
  cells _ _ _ hx := nomatch hx
  out _ hj := nomatch hj


/-- What a tape is told to do, a fifo of the same size does: the bytes that leave it are the tape's up
to its head, and it stops at the operation that the tape stops at. -/
theorem fifo_refines (size : ℕ) (hpos : 0 < size) (ops : List (TapeOp UInt8)) :
    Option.Rel Represents (exec Tape.step (.empty size) ops)
      (exec FifoRun.step (.init size hpos) ops) :=
  exec_rel (fun _ _ op h => h.step op) (init_represents size hpos) ops

/-- Around a ring of four: two bytes come before the one they follow. -/
def aroundOps : List (TapeOp UInt8) :=
  [.write [1, 2, 3], .read 2, .writeOffset [5, 6] 1, .write [4], .grow 2, .read 9]

theorem fifo_refines_around :
    Option.Rel Represents (exec Tape.step (.empty 4) aroundOps)
        (exec FifoRun.step (.init 4 (by decide)) aroundOps) ∧
      (exec FifoRun.step (.init 4 (by decide)) aroundOps).map FifoRun.out =
        some [1, 2, 3, 4, 5, 6] :=
  ⟨fifo_refines 4 (by decide) aroundOps, by decide⟩

end Carrier.Session
