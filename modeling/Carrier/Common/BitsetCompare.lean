import Carrier.Common.Bitset
import Carrier.Lib.WordBytes

/-! The comparisons of `common/bitset.h`. -/
namespace Carrier.Common
open Carrier.Lib

/-- The third argument of the `memcmp`: a number of words, where a number of bytes is asked for. -/
def comparedBytes (len : ℕ) : ℕ := (len + 63) >>> 6

def bitsetCompare (order : ByteOrder) (set1 set2 : Bitset) (len : ℕ) : ℤ :=
  memcmp (order.bytes set1.bits) (order.bytes set2.bits) (comparedBytes len)

/-- `bitset_compare2`; a length of zero stands for the size. -/
def bitsetCompare2 (order : ByteOrder) (set : Bitset) (bits : List (BitVec 64)) (len : ℕ) : ℤ :=
  memcmp (order.bytes set.bits) (order.bytes bits)
    (comparedBytes (if len = 0 then set.size else len))

variable {a b : Bitset}

theorem bitsetCompare_eq_zero_iff (order : ByteOrder) (hsize : a.size = b.size) {len : ℕ}
    (hlen : len ≤ a.size) : bitsetCompare order a b len = 0 ↔
      ∀ i, order.byteOf i < comparedBytes len → a.isSet i = b.isSet i := by
  have hwords : a.bits.length = b.bits.length := by rw [a.length_bits, b.length_bits, hsize]
  have hbytes : comparedBytes len ≤ 8 * a.bits.length := by
    rw [a.length_bits, comparedBytes, Nat.shiftRight_eq_div_pow, Nat.shiftRight_eq_div_pow]
    omega
  rw [bitsetCompare, memcmp_eq_zero_iff, ByteOrder.take_bytes_eq_iff hwords hbytes]
  · exact Iff.rfl
  · rw [ByteOrder.length_bytes]
    exact hbytes
  · rw [ByteOrder.length_bytes, ← hwords]
    exact hbytes

theorem isSet_eq_of_size_le {i : ℕ} (ha : a.size ≤ i) (hb : b.size ≤ i) : a.isSet i = b.isSet i := by
  rw [Bitset.isSet, Bitset.isSet, a.clear_tail i ha, b.clear_tail i hb]

/-- The comparison decides equality, and the one on raw words agrees with it. -/
def ComparesEqual (order : ByteOrder) (a b : Bitset) (n : ℕ) : Prop :=
  (bitsetCompare order a b n = 0 ↔ ∀ i < n, a.isSet i = b.isSet i) ∧
    bitsetCompare2 order a b.bits n = bitsetCompare order a b n

/-- It does exactly if the sets are equal, or differ in a byte that takes part. -/
theorem comparesEqual_iff (order : ByteOrder) {n : ℕ} (ha : a.size = n) (hb : b.size = n) :
    ComparesEqual order a b n ↔
      (∀ i < n, a.isSet i = b.isSet i) ∨
        ∃ i < n, order.byteOf i < comparedBytes n ∧ a.isSet i ≠ b.isSet i := by
  have hraw : bitsetCompare2 order a b.bits n = bitsetCompare order a b n := by
    unfold bitsetCompare2
    split
    · rw [ha]
      rfl
    · rfl
  have hzero := bitsetCompare_eq_zero_iff order (ha.trans hb.symm) ha.ge
  unfold ComparesEqual
  rw [and_iff_left hraw, hzero]
  constructor
  · intro hdecides
    by_cases hall : ∀ i < n, a.isSet i = b.isSet i
    · exact .inl hall
    · right
      by_contra hnone
      apply hall
      apply hdecides.mp
      intro i hi
      by_contra hne
      by_cases hlt : i < n
      · exact hnone ⟨i, hlt, hi, hne⟩
      · exact hne (isSet_eq_of_size_le (by omega) (by omega))
  · intro hcase
    constructor
    · intro hsame
      rcases hcase with hall | ⟨i, -, hi, hne⟩
      · exact hall
      · exact absurd (hsame i hi) hne
    · intro hall i _
      by_cases hlt : i < n
      · exact hall i hlt
      · exact isSet_eq_of_size_le (by omega) (by omega)

/-- Of 64 bits, one byte is compared. -/
theorem bitsetCompare_misses :
    bitsetCompare .little (bitsetSet (bitsetInit 64) 8).1 (bitsetInit 64) 64 = 0 ∧
      (bitsetSet (bitsetInit 64) 8).1.isSet 8 ≠ (bitsetInit 64).isSet 8 := by
  constructor <;> decide

theorem bitsetCompare_sees :
    ComparesEqual .little (bitsetSet (bitsetInit 64) 7).1 (bitsetInit 64) 64 := by
  have ha : (bitsetSet (bitsetInit 64) 7).1.size = 64 := rfl
  have hb : (bitsetInit 64).size = 64 := rfl
  apply (comparesEqual_iff .little ha hb).mpr
  right
  exact ⟨7, by decide, by decide, by decide⟩

end Carrier.Common
