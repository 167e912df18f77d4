import Carrier.Lib.BitScan

/-! `common/bitset.h` and the clear-bit search of `common/bitset.c`. -/
namespace Carrier.Common
open Carrier.Lib

/-- A bitset of `size` bits. The word array has the size `bitset_t` declares, and no
operation ever sets a bit at or past `size`. -/
structure Bitset where
  size : ℕ
  bits : List (BitVec 64)
  length_bits : bits.length = (size + 63) >>> 6
  clear_tail : ∀ i, size ≤ i → packedBit bits i = false

namespace Bitset

def isSet (s : Bitset) (i : ℕ) : Bool := packedBit s.bits i

theorem isSet_lt {s : Bitset} {i : ℕ} (h : s.isSet i = true) : i < s.size := by
  by_contra hn
  rw [isSet, s.clear_tail i (by omega)] at h
  cases h

theorem word_lt (s : Bitset) {i : ℕ} (h : i < s.size) : i / 64 < s.bits.length := by
  rw [s.length_bits, Nat.shiftRight_eq_div_pow]
  omega

end Bitset

/-- `bitset_init`, with the `memset` of `bitset_reset`. -/
def bitsetInit (size : ℕ) : Bitset where
  size := size
  bits := List.replicate ((size + 63) >>> 6) 0#64
  length_bits := List.length_replicate
  clear_tail _ _ := packedBit_replicate_zero _ _

def bitsetSet (set : Bitset) (bit : ℤ) : Bitset × ℤ :=
  if h : bit < 0 ∨ (set.size : ℤ) ≤ bit then (set, -1)
  else
    ({ size := set.size
       bits := set.bits.modify (bit.toNat / 64) (· ||| 1#64 <<< (bit.toNat % 64))
       length_bits := by rw [List.length_modify, set.length_bits]
       clear_tail := fun i hi => by
        rw [packedBit_modify_or _ _ _ (by norm_num) (set.word_lt (by omega)),
          set.clear_tail i hi, Bool.or_false]
        exact decide_eq_false (by omega) }, 0)

def bitsetClear (set : Bitset) (bit : ℤ) : Bitset × ℤ :=
  if h : bit < 0 ∨ (set.size : ℤ) ≤ bit then (set, -1)
  else
    ({ size := set.size
       bits := set.bits.modify (bit.toNat / 64) (· &&& ~~~(1#64 <<< (bit.toNat % 64)))
       length_bits := by rw [List.length_modify, set.length_bits]
       clear_tail := fun i hi => by
        rw [packedBit_modify_andNot _ _ _ (by norm_num) (set.word_lt (by omega)),
          set.clear_tail i hi, Bool.and_false] }, 0)

/-- What the target computes for `x << n` on its 32-bit `int`. Counts below 32 are fixed;
from 32 on the language leaves the result undefined, so the target may choose it. -/
structure IntShift where
  shl : BitVec 32 → ℕ → BitVec 32
  shl_of_lt : ∀ x, ∀ n < 32, shl x n = x <<< n

/-- The shifters of x86-64 and AArch64 take the count modulo the operand width. -/
def IntShift.modWidth : IntShift where
  shl x n := x <<< (n % 32)
  shl_of_lt _ n h := by rw [Nat.mod_eq_of_lt h]

/-- A target whose undefined shifts give zero, as the register shifts of 32-bit ARM do. -/
def IntShift.zeroWide : IntShift where
  shl x n := if n < 32 then x <<< n else 0
  shl_of_lt _ _ h := if_pos h

/-- The mask `1 << offset` is an `int`: it is sign extended before it meets the word. -/
def bitsetIsset (P : IntShift) (set : Bitset) (bit : ℤ) : ℤ :=
  if bit < 0 ∨ (set.size : ℤ) ≤ bit then -1
  else if set.bits.getD (bit.toNat / 64) 0#64 &&& (P.shl 1#32 (bit.toNat % 64)).signExtend 64 ≠ 0#64 then 1
  else 0

/-- The loop of `bitset_next_clear_bit` at word `index`, with the words after it. -/
def nextClearLoop (size index : ℕ) (word : BitVec 64) : List (BitVec 64) → ℤ
  | [] =>
    let pos := if word ≠ 0#64 then index * 64 + lowestBit word else (index + 1) * 64
    if pos = size then -1 else pos
  | next :: rest =>
    if word ≠ 0#64 then
      let pos := index * 64 + lowestBit word
      if pos = size then -1 else pos
    else nextClearLoop size (index + 1) (~~~next) rest

def bitsetNextClearBit (set : Bitset) (frm : ℕ) : ℤ :=
  let index := frm / 64
  nextClearLoop set.size index
    (~~~(set.bits.getD index 0#64) &&& (BitVec.allOnes 64 <<< (frm % 64))) (set.bits.drop (index + 1))

theorem bitsetInit_isSet (size i : ℕ) : (bitsetInit size).isSet i = false :=
  packedBit_replicate_zero _ _

@[simp] theorem bitsetSet_size (s : Bitset) (b : ℤ) : (bitsetSet s b).1.size = s.size := by
  unfold bitsetSet
  split_ifs <;> rfl

@[simp] theorem bitsetClear_size (s : Bitset) (b : ℤ) : (bitsetClear s b).1.size = s.size := by
  unfold bitsetClear
  split_ifs <;> rfl

theorem bitsetSet_isSet (s : Bitset) {j : ℕ} (hj : j < s.size) (i : ℕ) :
    (bitsetSet s j).1.isSet i = (decide (i = j) || s.isSet i) := by
  rw [bitsetSet, dif_neg (by omega)]
  exact packedBit_modify_or _ _ _ (by norm_num) (s.word_lt hj)

theorem bitsetClear_isSet (s : Bitset) {j : ℕ} (hj : j < s.size) (i : ℕ) :
    (bitsetClear s j).1.isSet i = (!decide (i = j) && s.isSet i) := by
  rw [bitsetClear, dif_neg (by omega)]
  exact packedBit_modify_andNot _ _ _ (by norm_num) (s.word_lt hj)

namespace Bitset

/-- The positions from `frm` on with the value `v`; those past the size count as clear. -/
def valuedFrom (s : Bitset) (v : Bool) (frm : ℕ) : Set ℕ := {i | frm ≤ i ∧ s.isSet i = v}

theorem marks_set (s : Bitset) (index : ℕ) :
    Marks {i | s.isSet i = true} index (s.bits.getD index 0#64) := by
  intro k hk
  change _ ↔ packedBit s.bits (index * 64 + k) = true
  rw [packedBit_word _ _ hk]

theorem marks_clear (s : Bitset) (index : ℕ) :
    Marks {i | s.isSet i = false} index (~~~(s.bits.getD index 0#64)) := by
  intro k hk
  change _ ↔ packedBit s.bits (index * 64 + k) = false
  rw [packedBit_word _ _ hk, BitVec.getLsbD_not]
  simp [hk]

theorem size_mem_valuedFrom (s : Bitset) {frm : ℕ} (hfrm : frm < s.size) :
    s.size ∈ s.valuedFrom false frm := by
  constructor
  · exact hfrm.le
  · exact s.clear_tail _ le_rfl

theorem next_word (s : Bitset) {index : ℕ} {next : BitVec 64} {rest : List (BitVec 64)}
    (h : s.bits.drop (index + 1) = next :: rest) :
    index + 1 < s.bits.length ∧ s.bits.getD (index + 1) 0#64 = next ∧
      s.bits.drop (index + 1 + 1) = rest := by
  have hlen : index + 1 < s.bits.length := by
    by_contra hn
    rw [List.drop_eq_nil_of_le (by omega)] at h
    cases h
  rw [List.drop_eq_getElem_cons hlen, List.cons.injEq] at h
  constructor
  · exact hlen
  constructor
  · rw [← h.1]
    simp [List.getD_eq_getElem?_getD, hlen]
  · exact h.2

/-- With no word left and no clear position in the last one, the sizes meet. -/
theorem size_of_passed (s : Bitset) {frm index : ℕ} (hfrm : frm < s.size)
    (hrest : s.bits.drop (index + 1) = []) (h : ScanUp (s.valuedFrom false frm) index 0#64) :
    (index + 1) * 64 = s.size ∧ IsLeast (s.valuedFrom false frm) s.size := by
  have hlen : s.bits.length ≤ index + 1 := List.drop_eq_nil_iff.mp hrest
  have hsize := s.length_bits
  rw [Nat.shiftRight_eq_div_pow] at hsize
  have hmem := s.size_mem_valuedFrom hfrm
  have hpassed := h.passed s.size hmem
  have heq : (index + 1) * 64 = s.size := by omega
  constructor
  · exact heq
  · constructor
    · exact hmem
    · intro i hi
      rw [← heq]
      exact h.passed i hi

end Bitset

private theorem nextClearLoop_isLeast (s : Bitset) (frm : ℕ) (hfrm : frm < s.size)
    (index : ℕ) (word : BitVec 64) (hindex : frm / 64 ≤ index)
    (h : ScanUp (s.valuedFrom false frm) index word) :
    ∃ p, IsLeast (s.valuedFrom false frm) p ∧
      nextClearLoop s.size index word (s.bits.drop (index + 1)) = if p = s.size then -1 else (p : ℤ) := by
  -- Induction on the words not yet visited; a zero word passes the invariant to the next one.
  induction hr : s.bits.drop (index + 1) generalizing index word with
  | nil =>
    by_cases hw : word = 0#64
    · subst hw
      obtain ⟨heq, hleast⟩ := s.size_of_passed hfrm hr h
      exact ⟨s.size, hleast, by simp [nextClearLoop, heq]⟩
    · exact ⟨_, h.found hw, by simp [nextClearLoop, hw]⟩
  | cons next rest ih =>
    by_cases hw : word = 0#64
    · subst hw
      obtain ⟨-, hnext, hrest⟩ := s.next_word hr
      have hmarks := marks_from frm (s.marks_clear (index + 1)) (by omega)
      rw [hnext] at hmarks
      obtain ⟨p, hp, he⟩ := ih (index + 1) (~~~next) (by omega) (h.next hmarks) hrest
      exact ⟨p, hp, by simpa [nextClearLoop] using he⟩
    · exact ⟨_, h.found hw, by simp [nextClearLoop, hw]⟩

/-- The search returns the first clear bit from `frm` on, or -1 when all of them are set. -/
theorem bitsetNextClearBit_spec (s : Bitset) (frm : ℕ) (hfrm : frm < s.size) :
    (∃ p : ℕ, bitsetNextClearBit s frm = p ∧ frm ≤ p ∧ p < s.size ∧ s.isSet p = false ∧
      ∀ j, frm ≤ j → j < p → s.isSet j = true) ∨
    (bitsetNextClearBit s frm = -1 ∧ ∀ j, frm ≤ j → j < s.size → s.isSet j = true) := by
  have hfirst : ScanUp (s.valuedFrom false frm) (frm / 64)
      (~~~(s.bits.getD (frm / 64) 0#64) &&& (BitVec.allOnes 64 <<< (frm % 64))) :=
    ScanUp.first frm (s.marks_clear _)
  obtain ⟨p, ⟨⟨hle, hclear⟩, hleast⟩, hres⟩ :=
    nextClearLoop_isLeast s frm hfrm _ _ le_rfl hfirst
  have hp : p ≤ s.size := hleast (s.size_mem_valuedFrom hfrm)
  have hset : ∀ j, frm ≤ j → j < p → s.isSet j = true := by
    intro j hj hlt
    by_contra hn
    have hpj := hleast ⟨hj, by simpa using hn⟩
    omega
  change bitsetNextClearBit s frm = _ at hres
  by_cases he : p = s.size
  · right
    rw [if_pos he] at hres
    exact ⟨hres, fun j hj hlt => hset j hj (by omega)⟩
  · left
    rw [if_neg he] at hres
    exact ⟨p, hres, hle, by omega, hclear, hset⟩

/-- Below offset 32 the narrow mask still holds the bit it is meant for. -/
theorem getLsbD_shl_self (P : IntShift) {n : ℕ} (hn : n < 32) :
    ((P.shl 1#32 n).signExtend 64).getLsbD n = true := by
  rw [P.shl_of_lt _ n hn, BitVec.getLsbD_signExtend, if_pos hn, getLsbD_oneHot _ _ hn]
  simp
  omega

/-- A set bit is seen by `bitset_isset` when its offset in the word is below 32. -/
theorem bitsetIsset_of_isSet (P : IntShift) (s : Bitset) {j : ℕ} (hs : s.isSet j = true)
    (hj : j % 64 < 32) : bitsetIsset P s j = 1 := by
  have hlt := Bitset.isSet_lt hs
  have hne : s.bits.getD (j / 64) 0#64 &&& (P.shl 1#32 (j % 64)).signExtend 64 ≠ 0#64 := by
    intro h0
    have hb := congrArg (fun x => x.getLsbD (j % 64)) h0
    simp only [BitVec.getLsbD_and, getLsbD_shl_self P hj, Bool.and_true] at hb
    rw [Bitset.isSet, packedBit, List.getD_eq_getElem?_getD] at hs
    simp [hs] at hb
  rw [bitsetIsset, if_neg (by omega), if_pos (by simpa using hne)]

/-- On a target whose wide shifts give zero, no bit with an offset from 32 on is ever seen. -/
theorem bitsetIsset_zeroWide (s : Bitset) {j : ℕ} (hlt : j < s.size) (hj : 32 ≤ j % 64) :
    bitsetIsset .zeroWide s j = 0 := by
  have hz : (IntShift.zeroWide.shl 1#32 (j % 64)) = 0 := if_neg (by omega)
  rw [bitsetIsset, if_neg (by omega), if_neg]
  simp [hz]

end Carrier.Common
