import Carrier.Lib.Bytes

/-! A ring buffer: bytes of an array, from a position on and around the array's end. -/
namespace Carrier.Lib

/-- The `i`-th cell of a ring that begins at `start`. -/
def ringCell (ring : Bytes) (start i : ℕ) : Option UInt8 := ring[(start + i) % ring.length]?

/-- `n` bytes of a ring: a piece up to the array's end, and the rest from its beginning. -/
def readRing (ring : Bytes) (start n : ℕ) : Bytes :=
  let tail := min n (ring.length - start)
  readAt ring start tail ++ readAt ring 0 (n - tail)

/-- A copy into a ring, in the same two pieces. -/
def writeRing (ring : Bytes) (start : ℕ) (src : Bytes) : Bytes :=
  let tail := min src.length (ring.length - start)
  writeAt (writeAt ring start (src.take tail)) 0 (src.drop tail)

/-- The array's index of a cell: the sum, less the array's length where it goes around. -/
theorem ring_index {len start i : ℕ} (hstart : start < len) (hi : i < len) :
    (start + i) % len = if start + i < len then start + i else start + i - len := by
  split_ifs with h
  · exact Nat.mod_eq_of_lt h
  · rw [Nat.mod_eq_sub_mod (not_lt.mp h), Nat.mod_eq_of_lt (by omega)]

/-- A ring that begins `k` cells further on. -/
theorem ringCell_forward (ring : Bytes) (start k i : ℕ) :
    ringCell ring ((start + k) % ring.length) i = ringCell ring start (k + i) := by
  rw [ringCell, ringCell, Nat.mod_add_mod, Nat.add_assoc]

theorem length_readAt (buf : Bytes) {pos len : ℕ} (h : pos + len ≤ buf.length) :
    (readAt buf pos len).length = len := by
  rw [readAt, List.length_take, List.length_drop]
  omega

theorem length_readRing {ring : Bytes} {start n : ℕ} (hstart : start < ring.length)
    (hn : n ≤ ring.length) : (readRing ring start n).length = n := by
  rw [readRing, List.length_append, length_readAt ring (by omega), length_readAt ring (by omega)]
  omega

/-- What is read from a ring are its cells. -/
theorem getElem?_readRing {ring : Bytes} {start n i : ℕ} (hstart : start < ring.length)
    (hn : n ≤ ring.length) (hi : i < n) : (readRing ring start n)[i]? = ringCell ring start i := by
  rw [readRing, ringCell, ring_index hstart (by omega), List.getElem?_append,
    length_readAt ring (by omega), getElem?_readAt, getElem?_readAt]
  by_cases htail : i < ring.length - start
  · rw [if_pos (by omega), if_pos (by omega), if_pos (by omega)]
  · rw [if_neg (by omega), if_pos (by omega), if_neg (by omega)]
    congr 1
    omega

/-- A copy changes the bytes it covers and no others. -/
theorem getElem?_writeAt {buf src : Bytes} {pos : ℕ} (h : pos + src.length ≤ buf.length) (j : ℕ) :
    (writeAt buf pos src)[j]? =
      if pos ≤ j ∧ j < pos + src.length then src[j - pos]? else buf[j]? := by
  have hpos : (buf.take pos).length = pos := by
    rw [List.length_take]
    omega
  rw [writeAt, List.append_assoc, List.getElem?_append, hpos, List.getElem?_append]
  by_cases hlow : j < pos
  · rw [if_pos hlow, if_neg (by omega), List.getElem?_take_of_lt hlow]
  · by_cases hhigh : j < pos + src.length
    · rw [if_neg hlow, if_pos (by omega), if_pos (by omega)]
    · rw [if_neg hlow, if_neg (by omega), if_neg (by omega), List.getElem?_drop]
      congr 1
      omega

theorem length_writeRing {ring src : Bytes} {start : ℕ} (hstart : start < ring.length)
    (hsrc : src.length ≤ ring.length) : (writeRing ring start src).length = ring.length := by
  have hfirst : (writeAt ring start
      (src.take (min src.length (ring.length - start)))).length = ring.length := by
    apply length_writeAt
    rw [List.length_take]
    omega
  rw [writeRing, length_writeAt, hfirst]
  rw [hfirst, List.length_drop]
  omega

/-- A copy into a ring puts its bytes into the first cells, and leaves the others. -/
theorem ringCell_writeRing {ring src : Bytes} {start i : ℕ} (hstart : start < ring.length)
    (hsrc : src.length ≤ ring.length) (hi : i < ring.length) :
    ringCell (writeRing ring start src) start i =
      if i < src.length then src[i]? else ringCell ring start i := by
  have hlen := length_writeRing hstart hsrc
  have hfirst : start + (src.take (min src.length (ring.length - start))).length ≤ ring.length := by
    rw [List.length_take]
    omega
  rw [ringCell, hlen, ringCell, ring_index hstart hi, writeRing, getElem?_writeAt, getElem?_writeAt hfirst,
    List.length_drop, List.length_take, List.getElem?_drop]
  · by_cases htail : start + i < ring.length
    · rw [if_pos htail, if_neg (by omega)]
      by_cases hin : i < src.length
      · rw [if_pos (by omega), if_pos hin, List.getElem?_take_of_lt (by omega)]
        congr 1
        omega
      · rw [if_neg (by omega), if_neg hin]
    · rw [if_neg htail]
      by_cases hin : i < src.length
      · rw [if_pos (by omega), if_pos hin]
        congr 1
        omega
      · rw [if_neg (by omega), if_neg hin, if_neg (by omega)]
  · rw [length_writeAt ring _ _ hfirst, List.length_drop]
    omega

/-- A copy into a ring from its cell `k` on. -/
theorem ringCell_writeRing_forward {ring src : Bytes} {start k i : ℕ}
    (hsrc : k + src.length ≤ ring.length) (hi : i < ring.length) :
    ringCell (writeRing ring ((start + k) % ring.length) src) start i =
      if k ≤ i ∧ i < k + src.length then src[i - k]? else ringCell ring start i := by
  have hpos : 0 < ring.length := by omega
  have hfrom : (start + k) % ring.length < ring.length := Nat.mod_lt _ hpos
  have hlen : (writeRing ring ((start + k) % ring.length) src).length = ring.length :=
    length_writeRing hfrom (by omega)
  -- Seen from the copy's first cell, the cells before it come last.
  have hshift (r : Bytes) (hr : r.length = ring.length) :
      ringCell r start i =
        ringCell r ((start + k) % ring.length) (if k ≤ i then i - k else ring.length - k + i) := by
    rw [← hr, ringCell_forward, ringCell, ringCell]
    split_ifs with hki
    · rw [Nat.add_sub_cancel' hki]
    · rw [show start + (k + (r.length - k + i)) = start + i + r.length by omega, Nat.add_mod_right]
  rw [hshift _ hlen, hshift ring rfl, ringCell_writeRing hfrom (by omega) (by split_ifs <;> omega)]
  by_cases hki : k ≤ i
  · rw [if_pos hki]
    by_cases hin : i < k + src.length
    · rw [if_pos (by omega), if_pos ⟨hki, hin⟩]
    · rw [if_neg (by omega), if_neg (by omega)]
  · rw [if_neg hki, if_neg (by omega), if_neg (by omega)]

end Carrier.Lib
