import Carrier.Session.PseudoTcp

/-! The numbers of a pseudo-TCP stream, and the segments on the wire. -/
namespace Carrier.Session
open Carrier.Lib

section SerialNumbers

variable {a b : BitVec 32}

/-- Below this bound the comparisons of sequence numbers are those of the numbers themselves. -/
def seqBound : ℕ := 2 ^ 31 - 1

theorem larger_iff (ha : a.toNat < seqBound) (hb : b.toNat < seqBound) :
    Larger a b ↔ b.toNat < a.toNat := by
  unfold Larger seqBound at *
  bv_omega

theorem largerOrEqual_iff (ha : a.toNat < seqBound) (hb : b.toNat < seqBound) :
    LargerOrEqual a b ↔ b.toNat ≤ a.toNat := by
  unfold LargerOrEqual seqBound at *
  bv_omega

theorem smaller_iff (ha : a.toNat < seqBound) (hb : b.toNat < seqBound) :
    Smaller a b ↔ a.toNat < b.toNat := larger_iff hb ha

theorem smallerOrEqual_iff (ha : a.toNat < seqBound) (hb : b.toNat < seqBound) :
    SmallerOrEqual a b ↔ a.toNat ≤ b.toNat := largerOrEqual_iff hb ha

theorem toNat_minOf (a b : BitVec 32) : (minOf a b).toNat = min a.toNat b.toNat := by
  unfold minOf
  split_ifs with h
  · bv_omega
  · bv_omega

theorem toNat_maxOf (a b : BitVec 32) : (maxOf a b).toNat = max a.toNat b.toNat := by
  unfold maxOf
  split_ifs with h
  · bv_omega
  · bv_omega

theorem bmod_neg_toNat (a b : BitVec 32) :
    (-((b - a).toNat : ℤ)).bmod (2 ^ 32) = ((a - b).toNat : ℤ).bmod (2 ^ 32) := by
  have hsum : (a - b).toNat = (2 ^ 32 - (b - a).toNat) % 2 ^ 32 := by bv_omega
  have hlt := (b - a).isLt
  rw [Int.bmod_def, Int.bmod_def]
  omega

/-- `time_diff` is the distance of the two times as a signed number, wherever they lie. -/
theorem timeDiff_eq (later earlier : BitVec 32) :
    timeDiff later earlier = (later - earlier).toInt := by
  have hforward : later + (0xFFFFFFFF - earlier) + 1 = later - earlier := by bv_omega
  have hback : earlier + (0xFFFFFFFF - later) + 1 = earlier - later := by bv_omega
  rw [timeDiff, hforward, hback, ite_self, ite_self, bmod_neg_toNat, ite_self,
    BitVec.toInt_eq_toNat_bmod]

end SerialNumbers

theorem length_encode (g : Segment) : g.encode.length = HEADER_SIZE + g.data.length := by
  simp only [Segment.encode, List.length_append, length_toBE, List.length_cons, List.length_nil,
    HEADER_SIZE]

/-- What `parse` makes of a packet is the segment that `packet` has sent. -/
theorem decode_encode (g : Segment) : Segment.decode g.encode = g := by
  have h32 (x : BitVec 32) : BitVec.ofNat 32 (x.toNat % 4294967296) = x := by
    rw [Nat.mod_eq_of_lt x.isLt, BitVec.ofNat_toNat, BitVec.setWidth_eq]
  have h16 (x : BitVec 16) : BitVec.ofNat 16 (x.toNat % 65536) = x := by
    rw [Nat.mod_eq_of_lt x.isLt, BitVec.ofNat_toNat, BitVec.setWidth_eq]
  have hbehind {n k : ℕ} (v : ℕ) (h : n ≤ k) : (toBE n v).drop k = [] := by
    rw [List.drop_eq_nil_iff, length_toBE]
    exact h
  cases g
  rw [Segment.decode]
  simp [Segment.encode, readAt, List.drop_append, List.getElem?_append, h32, h16, hbehind,
    HEADER_SIZE]

end Carrier.Session
