import Carrier.Session.FlexBuffer

/-! The operations of `session/flex_buffer.h` on sizes of 64 bits, and the laws that they are used
by. A copy outside of the storage of a buffer is `none`; two buffers do not share their storage. -/
namespace Carrier.Session
open Carrier.Lib

/-- A `FlexBuffer` with sizes that wrap. -/
structure RawFlexBuffer where
  capacity : BitVec 64
  offset : BitVec 64
  size : BitVec 64
  buffer : Bytes
  deriving DecidableEq

/-- `memcpy` of `len` bytes, from `start` of one array to `pos` of another -/
def memcpy (dest : Bytes) (pos : ℕ) (src : Bytes) (start len : ℕ) : Option Bytes :=
  if pos + len ≤ dest.length ∧ start + len ≤ src.length then
    some (writeAt dest pos (readAt src start len))
  else none

namespace RawFlexBuffer

def init (buffer : Bytes) (capacity offset : BitVec 64) : RawFlexBuffer := ⟨capacity, offset, 0, buffer⟩

def reset (buf : RawFlexBuffer) (offset : BitVec 64) : RawFlexBuffer :=
  { buf with offset := offset, size := 0 }

def available (buf : RawFlexBuffer) : BitVec 64 := buf.capacity - buf.offset - buf.size

def setSize (buf : RawFlexBuffer) (size : BitVec 64) : RawFlexBuffer := { buf with size := size }

def forwardOffset (buf : RawFlexBuffer) (bytes : BitVec 64) : RawFlexBuffer :=
  let bytes := if buf.offset + bytes ≤ buf.capacity then bytes else buf.capacity - buf.offset - 1
  { buf with offset := buf.offset + bytes, size := buf.size - bytes }

def backwardOffset (buf : RawFlexBuffer) (bytes : BitVec 64) : RawFlexBuffer :=
  let bytes := if bytes ≤ buf.offset then bytes else buf.offset
  { buf with offset := buf.offset - bytes, size := buf.size + bytes }

/-- `flex_buffer_copy`, which takes no account of the offsets -/
def copy (dest src : RawFlexBuffer) : Option RawFlexBuffer :=
  let len := dest.capacity - dest.offset
  let len := if src.size < len then src.size else len
  (memcpy dest.buffer 0 src.buffer 0 len.toNat).map
    (fun buffer => { dest with buffer := buffer, size := len })

def append2 (dest src : RawFlexBuffer) (len : BitVec 64) : Option RawFlexBuffer :=
  let available := dest.capacity - dest.offset - dest.size
  let len := if len < available then len else available
  (memcpy dest.buffer (dest.offset.toNat + dest.size.toNat) src.buffer src.offset.toNat len.toNat).map
    (fun buffer => { dest with buffer := buffer, size := dest.size + len })

def append (dest src : RawFlexBuffer) : Option RawFlexBuffer := dest.append2 src src.size

def payload (b : RawFlexBuffer) : Bytes := readAt b.buffer b.offset.toNat b.size.toNat

def Bounded (b : RawFlexBuffer) : Prop := b.offset.toNat + b.size.toNat ≤ b.capacity.toNat

instance (b : RawFlexBuffer) : Decidable b.Bounded := inferInstanceAs (Decidable (_ ≤ _))

/-- A bounded buffer with storage of its capacity. -/
structure Valid (b : RawFlexBuffer) : Prop where
  bound : b.Bounded
  storage : b.buffer.length = b.capacity.toNat

def room (b : RawFlexBuffer) : ℕ := b.capacity.toNat - b.offset.toNat - b.size.toNat

/-- The buffer with sizes that do not wrap. -/
def toFlex (b : RawFlexBuffer) : FlexBuffer :=
  ⟨b.capacity.toNat, b.offset.toNat, b.size.toNat, b.buffer⟩

end RawFlexBuffer

open RawFlexBuffer

/-- A call on a buffer. -/
inductive FlexCall where
  | init (buffer : Bytes) (capacity offset : BitVec 64)
  | reset (offset : BitVec 64)
  | setSize (size : BitVec 64)
  | forward (bytes : BitVec 64)
  | backward (bytes : BitVec 64)
  | copy (src : RawFlexBuffer)
  | append (src : RawFlexBuffer)
  | append2 (src : RawFlexBuffer) (len : BitVec 64)

namespace FlexCall

def perform (b : RawFlexBuffer) : FlexCall → Option RawFlexBuffer
  | init buffer capacity offset => some (.init buffer capacity offset)
  | reset offset => some (b.reset offset)
  | setSize size => some (b.setSize size)
  | forward bytes => some (b.forwardOffset bytes)
  | backward bytes => some (b.backwardOffset bytes)
  | copy src => b.copy src
  | append src => b.append src
  | append2 src len => b.append2 src len

/-- The assertion of the call, and what it is given: storage of the capacity, valid buffers. -/
def Admitted (b : RawFlexBuffer) : FlexCall → Prop
  | init buffer capacity _ => buffer.length = capacity.toNat
  | forward bytes => b.offset + bytes ≤ b.capacity
  | backward bytes => bytes ≤ b.offset
  | copy src | append src | append2 src _ => src.Valid
  | reset _ | setSize _ => True

/-- What the call is for, besides keeping the data inside the capacity: the two moves undo each
other, and the others copy the part of a payload that fits. -/
def Law (b b' : RawFlexBuffer) : FlexCall → Prop
  | forward bytes => (backward bytes).Admitted b' ∧ b'.backwardOffset bytes = b
  | backward bytes => (forward bytes).Admitted b' ∧ b'.forwardOffset bytes = b
  | copy src => b'.payload = src.payload.take (b.capacity.toNat - b.offset.toNat)
  | append src => b'.payload = b.payload ++ src.payload.take b.room ∧
      b'.buffer.take (b.offset.toNat + b.size.toNat) = b.buffer.take (b.offset.toNat + b.size.toNat)
  | append2 src len => b'.payload = b.payload ++ src.payload.take (min len.toNat b.room) ∧
      b'.buffer.take (b.offset.toNat + b.size.toNat) = b.buffer.take (b.offset.toNat + b.size.toNat)
  | init _ _ _ | reset _ | setSize _ => True

/-- The call obeys its law and leaves the data inside the capacity. -/
def Lawful (b : RawFlexBuffer) (call : FlexCall) : Prop :=
  ∃ b', call.perform b = some b' ∧ b'.Bounded ∧ call.Law b b'

/-- The arguments that the assertions do not ask for: an offset or a size inside the capacity, a
move inside the data, no more bytes than the source has, and a copy that finds the bytes of the
payload where it looks for them. -/
def Sound (b : RawFlexBuffer) : FlexCall → Prop
  | init _ capacity offset => offset.toNat ≤ capacity.toNat
  | reset offset => offset.toNat ≤ b.capacity.toNat
  | setSize size => b.offset.toNat + size.toNat ≤ b.capacity.toNat
  | forward bytes => bytes.toNat ≤ b.size.toNat
  | append2 src len => min len.toNat b.room ≤ src.size.toNat
  | copy src =>
    let len := min src.size.toNat (b.capacity.toNat - b.offset.toNat)
    ∀ i < len, (if b.offset.toNat + i < len then src.buffer[b.offset.toNat + i]?
      else b.buffer[b.offset.toNat + i]?) = src.buffer[src.offset.toNat + i]?
  | backward _ | append _ => True

theorem lawful_iff {b b' : RawFlexBuffer} {call : FlexCall} (hperform : call.perform b = some b') :
    call.Lawful b ↔ b'.Bounded ∧ call.Law b b' := by
  constructor
  · intro ⟨r, hr, hlawful⟩
    cases hperform.symm.trans hr
    exact hlawful
  · intro hlawful
    exact ⟨b', hperform, hlawful⟩

end FlexCall

namespace RawFlexBuffer

variable {b src : RawFlexBuffer}

theorem Valid.wf (h : b.Valid) : b.toFlex.WF := ⟨h.storage, h.bound, b.capacity.isLt⟩

theorem Valid.length_payload (h : b.Valid) : b.payload.length = b.size.toNat :=
  h.wf.length_payload

theorem available_toNat (h : b.Bounded) : b.available.toNat = b.room := by
  unfold Bounded at h
  unfold available room
  bv_omega

theorem forwardOffset_eq {bytes : BitVec 64} (hassert : b.offset + bytes ≤ b.capacity) :
    b.forwardOffset bytes = { b with offset := b.offset + bytes, size := b.size - bytes } := by
  rw [forwardOffset, if_pos hassert]

theorem backwardOffset_eq {bytes : BitVec 64} (hassert : bytes ≤ b.offset) :
    b.backwardOffset bytes = { b with offset := b.offset - bytes, size := b.size + bytes } := by
  rw [backwardOffset, if_pos hassert]

/-- A move forward leaves the data inside the capacity if it is a move inside them, or if the sum in
the assertion has wrapped. -/
theorem forwardOffset_bounded_iff (hb : b.Bounded) {bytes : BitVec 64}
    (hassert : b.offset + bytes ≤ b.capacity) : (b.forwardOffset bytes).Bounded ↔
      bytes.toNat ≤ b.size.toNat ∨ 2 ^ 64 ≤ b.offset.toNat + bytes.toNat := by
  rw [forwardOffset_eq hassert]
  unfold Bounded at *
  dsimp only
  bv_omega

theorem backward_admitted_iff {bytes : BitVec 64} (hassert : b.offset + bytes ≤ b.capacity) :
    bytes ≤ (b.forwardOffset bytes).offset ↔ b.offset.toNat + bytes.toNat < 2 ^ 64 := by
  rw [forwardOffset_eq hassert]
  dsimp only
  bv_omega

theorem backwardOffset_forwardOffset {bytes : BitVec 64}
    (hassert : b.offset + bytes ≤ b.capacity) (hback : bytes ≤ (b.forwardOffset bytes).offset) :
    (b.forwardOffset bytes).backwardOffset bytes = b := by
  rw [backwardOffset_eq hback, forwardOffset_eq hassert]
  dsimp only
  rw [BitVec.add_sub_cancel, BitVec.sub_add_cancel]

theorem backwardOffset_bounded (hb : b.Bounded) {bytes : BitVec 64} (hassert : bytes ≤ b.offset) :
    (b.backwardOffset bytes).Bounded := by
  rw [backwardOffset_eq hassert]
  unfold Bounded at *
  dsimp only
  bv_omega

theorem forward_admitted (hb : b.Bounded) {bytes : BitVec 64} (hassert : bytes ≤ b.offset) :
    (b.backwardOffset bytes).offset + bytes ≤ (b.backwardOffset bytes).capacity := by
  rw [backwardOffset_eq hassert]
  unfold Bounded at hb
  dsimp only
  bv_omega

theorem forwardOffset_backwardOffset (hb : b.Bounded) {bytes : BitVec 64}
    (hassert : bytes ≤ b.offset) : (b.backwardOffset bytes).forwardOffset bytes = b := by
  rw [forwardOffset_eq (forward_admitted hb hassert), backwardOffset_eq hassert]
  dsimp only
  rw [BitVec.sub_add_cancel, BitVec.add_sub_cancel]

theorem append2_len (h : b.Bounded) (len : BitVec 64) :
    (if len < b.available then len else b.available).toNat = min len.toNat b.room := by
  have havailable := available_toNat h
  split_ifs with hlt
  · rw [BitVec.lt_def, havailable] at hlt
    omega
  · rw [BitVec.lt_def, havailable] at hlt
    omega

/-- An append copies as many of the bytes asked for as there is space for. -/
theorem append2_unfold (hb : b.Bounded) (src : RawFlexBuffer) (len : BitVec 64) :
    b.append2 src len =
      (memcpy b.buffer (b.offset.toNat + b.size.toNat) src.buffer src.offset.toNat
        (min len.toNat b.room)).map
      (fun buffer => ⟨b.capacity, b.offset, .ofNat 64 (b.size.toNat + min len.toNat b.room), buffer⟩) := by
  have hcopied := append2_len hb len
  have hsize : b.size + (if len < b.available then len else b.available) =
      .ofNat 64 (b.size.toNat + min len.toNat b.room) := by
    apply BitVec.eq_of_toNat_eq
    rw [BitVec.toNat_add, hcopied, BitVec.toNat_ofNat]
  rw [← hsize, ← hcopied]
  rfl

section Append

variable (hb : b.Valid) (hsrc : src.Valid) (len : BitVec 64)
include hb hsrc

/-- Within the payload of the source, an append does what it does without wrapping. -/
theorem append2_eq (hlen : min len.toNat b.room ≤ src.size.toNat) :
    ∃ b', b.append2 src len = some b' ∧
      b'.toFlex = flexBufferAppend2 b.toFlex src.toFlex (min len.toNat b.room) ∧
      b'.buffer.take (b.offset.toNat + b.size.toNat) =
        b.buffer.take (b.offset.toNat + b.size.toNat) := by
  have hbound : b.offset.toNat + b.size.toNat ≤ b.capacity.toNat := hb.bound
  have hsrcBound : src.offset.toNat + src.size.toNat ≤ src.capacity.toNat := hsrc.bound
  have hstorage := hb.storage
  have hsrcStorage := hsrc.storage
  have hcapacity := b.capacity.isLt
  have hroom : b.room = b.capacity.toNat - b.offset.toNat - b.size.toNat := rfl
  rw [append2_unfold hb.bound]
  set m := min len.toNat b.room with hm
  have hfits : b.offset.toNat + b.size.toNat + m ≤ b.buffer.length ∧
      src.offset.toNat + m ≤ src.buffer.length := by
    omega
  have hsize : (BitVec.ofNat 64 (b.size.toNat + m)).toNat = b.size.toNat + m := by
    rw [BitVec.toNat_ofNat]
    exact Nat.mod_eq_of_lt (by omega)
  have hmin : (if m < flexBufferAvailable b.toFlex then m else flexBufferAvailable b.toFlex) = m := by
    have hflex : flexBufferAvailable b.toFlex = b.room := flexBufferAvailable_of_wf hb.wf
    rw [hflex]
    split_ifs <;> omega
  rw [memcpy, if_pos hfits]
  refine ⟨_, rfl, ?_, ?_⟩
  · rw [toFlex, flexBufferAppend2]
    dsimp only
    rw [hmin, hsize]
    rfl
  · have htake := congrArg (List.take (b.offset.toNat + b.size.toNat))
      (take_writeAt b.buffer (b.offset.toNat + b.size.toNat)
        (readAt src.buffer src.offset.toNat m) (by omega))
    rw [List.take_take, min_eq_left (Nat.le_add_right _ _), List.take_append_of_le_length
      (by rw [List.length_take]; omega), List.take_take, min_self] at htake
    exact htake

/-- Such an append puts the part of the source that fits behind the data. -/
theorem append2_lawful (hlen : min len.toNat b.room ≤ src.size.toNat) :
    ∃ b', b.append2 src len = some b' ∧ b'.Bounded ∧
      b'.payload = b.payload ++ src.payload.take (min len.toNat b.room) ∧
      b'.buffer.take (b.offset.toNat + b.size.toNat) =
        b.buffer.take (b.offset.toNat + b.size.toNat) := by
  obtain ⟨b', happend, hflex, hkept⟩ := append2_eq hb hsrc len hlen
  obtain ⟨hwf, -, -, hpayload⟩ := flexBufferAppend2_spec hb.wf hsrc.wf hlen
  rw [← hflex] at hwf hpayload
  have hroom : min (min len.toNat b.room) b.room = min len.toNat b.room :=
    min_eq_left (min_le_right _ _)
  refine ⟨b', happend, hwf.bound, ?_, hkept⟩
  calc b'.payload = b.payload ++ src.payload.take (min (min len.toNat b.room) b.room) := hpayload
    _ = b.payload ++ src.payload.take (min len.toNat b.room) := by rw [hroom]

/-- An append of more bytes than the source has is out of its storage, or longer than its payload. -/
theorem append2_too_long (hlen : src.size.toNat < min len.toNat b.room) {b' : RawFlexBuffer}
    (h : b.append2 src len = some b') :
    b'.payload ≠ b.payload ++ src.payload.take (min len.toNat b.room) := by
  have hbound : b.offset.toNat + b.size.toNat ≤ b.capacity.toNat := hb.bound
  have hstorage := hb.storage
  have hcapacity := b.capacity.isLt
  have hroom : b.room = b.capacity.toNat - b.offset.toNat - b.size.toNat := rfl
  rw [append2_unfold hb.bound, memcpy] at h
  split_ifs at h with hfits
  · cases h
    set m := min len.toNat b.room with hm
    have hsize : (BitVec.ofNat 64 (b.size.toNat + m)).toNat = b.size.toNat + m := by
      rw [BitVec.toNat_ofNat]
      exact Nat.mod_eq_of_lt (by omega)
    have hcopied : (readAt src.buffer src.offset.toNat m).length = m := by
      rw [readAt, List.length_take, List.length_drop]
      omega
    intro hpayload
    have hlength := congrArg List.length hpayload
    rw [List.length_append, List.length_take, hb.length_payload, hsrc.length_payload, payload,
      readAt, List.length_take, List.length_drop] at hlength
    dsimp only at hlength
    rw [hsize, length_writeAt _ _ _ (by omega)] at hlength
    omega
  · cases h

end Append

/-- The space from the offset on, and what a copy puts there. -/
theorem copy_eq (hb : b.Valid) (hsrc : src.Valid) : ∃ b', b.copy src = some b' ∧ b'.Bounded ∧
    b'.payload = readAt (writeAt b.buffer 0 (readAt src.buffer 0
        (min src.size.toNat (b.capacity.toNat - b.offset.toNat)))) b.offset.toNat
      (min src.size.toNat (b.capacity.toNat - b.offset.toNat)) := by
  have hbound : b.offset.toNat + b.size.toNat ≤ b.capacity.toNat := hb.bound
  have hsrcBound : src.offset.toNat + src.size.toNat ≤ src.capacity.toNat := hsrc.bound
  have hstorage := hb.storage
  have hsrcStorage := hsrc.storage
  have hlen : (if src.size < b.capacity - b.offset then src.size else b.capacity - b.offset).toNat =
      min src.size.toNat (b.capacity.toNat - b.offset.toNat) := by
    split_ifs with hlt <;> bv_omega
  have hfits : 0 + min src.size.toNat (b.capacity.toNat - b.offset.toNat) ≤ b.buffer.length ∧
      0 + min src.size.toNat (b.capacity.toNat - b.offset.toNat) ≤ src.buffer.length := by
    omega
  unfold copy
  dsimp only
  rw [hlen, memcpy, if_pos hfits]
  refine ⟨_, rfl, ?_, ?_⟩
  · unfold Bounded
    dsimp only
    rw [hlen]
    omega
  · rw [payload]
    dsimp only
    rw [hlen]

/-- The copy is one of the payload exactly if the bytes it leaves at the offset are those of it. -/
theorem copy_lawful_iff (hb : b.Valid) (hsrc : src.Valid) :
    (FlexCall.copy src).Lawful b ↔ (FlexCall.copy src).Sound b := by
  obtain ⟨b', hcopy, hbounded, hpayload⟩ := copy_eq hb hsrc
  have hsrcBound : src.offset.toNat + src.size.toNat ≤ src.capacity.toNat := hsrc.bound
  have hsrcStorage := hsrc.storage
  have hprefix : src.payload.take (b.capacity.toNat - b.offset.toNat) =
      readAt src.buffer src.offset.toNat
        (min src.size.toNat (b.capacity.toNat - b.offset.toNat)) := by
    rw [payload, readAt, readAt, List.take_take, min_comm]
  have hlaw : (FlexCall.copy src).Lawful b ↔
      b'.payload = src.payload.take (b.capacity.toNat - b.offset.toNat) := by
    have hperform : (FlexCall.copy src).perform b = some b' := hcopy
    exact (FlexCall.lawful_iff hperform).trans (and_iff_right hbounded)
  rw [hlaw, hpayload, hprefix, readAt_eq_iff, FlexCall.Sound]
  set len := min src.size.toNat (b.capacity.toNat - b.offset.toNat) with hlen
  have hread : (readAt src.buffer 0 len).length = len := by
    rw [readAt, List.length_take, List.length_drop]
    omega
  apply forall₂_congr
  intro i hi
  rw [getElem?_writeAt_zero, hread, getElem?_readAt, Nat.zero_add]
  split_ifs
  · rfl
  · rfl

end RawFlexBuffer

namespace FlexCall

variable {b : RawFlexBuffer}

/-- For every admitted call on a valid buffer, the law holds exactly if the arguments are sound. -/
theorem lawful_iff_sound (hb : b.Valid) {call : FlexCall} (hcall : call.Admitted b) :
    call.Lawful b ↔ call.Sound b := by
  have hbound : b.offset.toNat + b.size.toNat ≤ b.capacity.toNat := hb.bound
  cases call with
  | init buffer capacity offset =>
    have hperform : (init buffer capacity offset).perform b = some (RawFlexBuffer.init buffer capacity offset) := rfl
    exact (lawful_iff hperform).trans (and_iff_left trivial)
  | reset offset =>
    have hperform : (reset offset).perform b = some (b.reset offset) := rfl
    exact (lawful_iff hperform).trans (and_iff_left trivial)
  | setSize size =>
    have hperform : (setSize size).perform b = some (b.setSize size) := rfl
    exact (lawful_iff hperform).trans (and_iff_left trivial)
  | forward bytes =>
    constructor
    · rintro ⟨b', hb', hbounded, hback, -⟩
      cases hb'
      have hwrapped := (backward_admitted_iff hcall).mp hback
      exact ((forwardOffset_bounded_iff hb.bound hcall).mp hbounded).resolve_right (by omega)
    · intro hsound
      have hbounded := (forwardOffset_bounded_iff hb.bound hcall).mpr (.inl hsound)
      have hback := (backward_admitted_iff hcall).mpr (by change _ ≤ _ at hsound; omega)
      exact ⟨_, rfl, hbounded, hback, backwardOffset_forwardOffset hcall hback⟩
  | backward bytes =>
    apply iff_of_true _ trivial
    exact ⟨_, rfl, backwardOffset_bounded hb.bound hcall, forward_admitted hb.bound hcall,
      forwardOffset_backwardOffset hb.bound hcall⟩
  | copy src => exact copy_lawful_iff hb hcall
  | append src =>
    apply iff_of_true _ trivial
    obtain ⟨b', happend, hbounded, hpayload, hkept⟩ :=
      append2_lawful hb hcall src.size (min_le_left _ _)
    refine ⟨b', happend, hbounded, ?_, hkept⟩
    have htake : src.payload.take (min src.size.toNat b.room) = src.payload.take b.room := by
      have hlength := Valid.length_payload hcall
      rw [← hlength, min_comm, ← List.take_take, List.take_length]
    rw [hpayload, htake]
  | append2 src len =>
    constructor
    · rintro ⟨b', happend, -, hpayload, -⟩
      by_contra hlong
      exact append2_too_long hb hcall len (not_le.mp hlong) happend hpayload
    · intro hsound
      exact append2_lawful hb hcall len hsound

def small (offset size : BitVec 64) (buffer : Bytes) : RawFlexBuffer := ⟨4, offset, size, buffer⟩

/-- The data of the source start behind two others, which are copied in their place. -/
theorem copy_not_lawful :
    (small 0 0 [0, 0, 0, 0]).Valid ∧ (copy (small 2 2 [1, 2, 3, 4])).Admitted (small 0 0 [0, 0, 0, 0]) ∧
      ¬(copy (small 2 2 [1, 2, 3, 4])).Lawful (small 0 0 [0, 0, 0, 0]) := by
  refine ⟨⟨by decide, rfl⟩, ⟨by decide, rfl⟩, ?_⟩
  rintro ⟨b', hb', -, hlaw⟩
  cases hb'
  change _ = _ at hlaw
  exact absurd hlaw (by decide)

theorem append_lawful :
    (append (small 2 2 [1, 2, 3, 4])).Lawful (small 1 1 [0, 9, 0, 0]) := by
  have hb : (small 1 1 [0, 9, 0, 0]).Valid := ⟨by decide, rfl⟩
  have hcall : (append (small 2 2 [1, 2, 3, 4])).Admitted (small 1 1 [0, 9, 0, 0]) :=
    ⟨by decide, rfl⟩
  exact (lawful_iff_sound hb hcall).mpr trivial

end FlexCall

end Carrier.Session
