import Carrier.Lib.Bytes
import Carrier.Lib.PackedBits

/-! Arrays of 64-bit words as bytes in memory. -/
namespace Carrier.Lib

/-- The order in which a machine stores the bytes of a word. -/
inductive ByteOrder where
  | little | big

namespace ByteOrder

/-- Which byte of a word, from the low end, is stored at an offset in it; or the other way round. -/
def lane : ByteOrder → ℕ → ℕ
  | little, r => r
  | big, r => 7 - r

/-- The offset in memory of the byte with bit `i` of an array. -/
def byteOf (order : ByteOrder) (i : ℕ) : ℕ := 8 * (i / 64) + order.lane (i % 64 / 8)

def byteAt (order : ByteOrder) (ws : List (BitVec 64)) (m : ℕ) : UInt8 :=
  UInt8.ofBitVec ((ws.getD (m / 8) 0#64).extractLsb' (8 * order.lane (m % 8)) 8)

/-- The memory that an array of words takes. -/
def bytes (order : ByteOrder) (ws : List (BitVec 64)) : Bytes :=
  (List.range (8 * ws.length)).map (order.byteAt ws)

variable {order : ByteOrder} {ws vs : List (BitVec 64)}

theorem lane_lt (order : ByteOrder) {r : ℕ} (hr : r < 8) : order.lane r < 8 := by
  cases order with
  | little => exact hr
  | big => exact (Nat.sub_le 7 r).trans_lt (by norm_num)

theorem lane_lane {r : ℕ} (hr : r < 8) : order.lane (order.lane r) = r := by
  cases order with
  | little => rfl
  | big => exact Nat.sub_sub_self (Nat.le_of_lt_succ hr)

/-- Every bit of the byte at `m` is a bit of the array. -/
theorem getLsbD_byteAt (m : ℕ) {t : ℕ} (ht : t < 8) :
    (order.byteAt ws m).toBitVec.getLsbD t =
      packedBit ws (m / 8 * 64 + (8 * order.lane (m % 8) + t)) := by
  have hlane := lane_lt order (Nat.mod_lt m (by norm_num : 0 < 8))
  rw [packedBit_word ws _ (by omega), byteAt, UInt8.toBitVec_ofBitVec, BitVec.getLsbD_extractLsb']
  simp [ht]

theorem byteOf_bit (m : ℕ) {t : ℕ} (ht : t < 8) :
    order.byteOf (m / 8 * 64 + (8 * order.lane (m % 8) + t)) = m := by
  have hmod := Nat.mod_lt m (by norm_num : 0 < 8)
  have hlane := lane_lt order hmod
  have hword : (m / 8 * 64 + (8 * order.lane (m % 8) + t)) / 64 = m / 8 := by omega
  have hoffset : (m / 8 * 64 + (8 * order.lane (m % 8) + t)) % 64 / 8 = order.lane (m % 8) := by
    omega
  rw [byteOf, hword, hoffset, lane_lane hmod]
  omega

/-- Two bytes agree if the arrays agree on the bits that lie there. -/
theorem byteAt_eq_iff (m : ℕ) : order.byteAt ws m = order.byteAt vs m ↔
    ∀ i, order.byteOf i = m → packedBit ws i = packedBit vs i := by
  constructor
  · intro heq i hi
    have hlane := lane_lt order (by omega : i % 64 / 8 < 8)
    have hword : m / 8 = i / 64 := by
      rw [← hi, byteOf]
      omega
    have hoffset : order.lane (m % 8) = i % 64 / 8 := by
      rw [← hi, byteOf, Nat.mul_add_mod, Nat.mod_eq_of_lt hlane, lane_lane (by omega)]
    have hbit := congrArg (fun b => b.toBitVec.getLsbD (i % 8)) heq
    simp only [getLsbD_byteAt m (Nat.mod_lt i (by norm_num : 0 < 8)), hword, hoffset] at hbit
    rwa [show i / 64 * 64 + (8 * (i % 64 / 8) + i % 8) = i by omega] at hbit
  · intro hbits
    apply UInt8.toBitVec_inj.mp
    apply BitVec.eq_of_getLsbD_eq
    intro t ht
    rw [getLsbD_byteAt m ht, getLsbD_byteAt m ht]
    exact hbits _ (byteOf_bit m ht)

/-- The first `k` bytes agree if the arrays agree on the bits that lie there. -/
theorem take_bytes_eq_iff (hlen : ws.length = vs.length) {k : ℕ} (hk : k ≤ 8 * ws.length) :
    (order.bytes ws).take k = (order.bytes vs).take k ↔
      ∀ i, order.byteOf i < k → packedBit ws i = packedBit vs i := by
  have htake : ∀ us : List (BitVec 64), k ≤ 8 * us.length →
      (order.bytes us).take k = (List.range k).map (order.byteAt us) := by
    intro us hus
    rw [bytes, ← List.map_take, List.take_range, min_eq_left hus]
  rw [htake ws hk, htake vs (hlen ▸ hk), List.map_inj_left]
  constructor
  · intro h i hi
    exact (byteAt_eq_iff _).mp (h _ (List.mem_range.mpr hi)) i rfl
  · intro h m hm
    apply (byteAt_eq_iff m).mpr
    intro i hi
    exact h i (hi ▸ List.mem_range.mp hm)

@[simp] theorem length_bytes : (order.bytes ws).length = 8 * ws.length := by
  simp [bytes]

end ByteOrder

end Carrier.Lib
