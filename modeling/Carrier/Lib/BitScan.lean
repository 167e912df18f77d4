import Carrier.Lib.PackedBits
import Mathlib.Order.Bounds.Basic

/-! Looking for a position of a set word by word, upward and downward. -/
namespace Carrier.Lib

variable {w : ℕ}

theorem getLsbD_allOnes_shiftLeft (c : ℕ) {k : ℕ} (hk : k < w) :
    (BitVec.allOnes w <<< c).getLsbD k = decide (c ≤ k) := by
  have hsub : k - c < w := by omega
  rw [BitVec.getLsbD_shiftLeft, BitVec.getLsbD_allOnes]
  by_cases hc : k < c
  · simp [hc, not_le.mpr hc]
  · simp [hk, hsub, hc, not_lt.mp hc]

theorem getLsbD_allOnes_ushiftRight (c k : ℕ) :
    (BitVec.allOnes w >>> c).getLsbD k = decide (c + k < w) := by
  simp

/-- The leading zeros of a word end at its highest set bit. -/
theorem clz_spec (x : BitVec w) (hx : x ≠ 0#w) :
    x.clz.toNat < w ∧ x.getLsbD (w - 1 - x.clz.toNat) = true ∧
      ∀ j, w - 1 - x.clz.toNat < j → x.getLsbD j = false := by
  have hw : 0 < w := by
    by_contra h
    obtain rfl : w = 0 := by omega
    exact hx x.eq_nil
  have hlt : x.clz.toNat < w := by
    have h := BitVec.clz_lt_iff_ne_zero.mpr hx
    rw [BitVec.lt_def, BitVec.natCast_eq_ofNat, BitVec.toNat_ofNat] at h
    exact lt_of_lt_of_le h (Nat.mod_le _ _)
  constructor
  · exact hlt
  constructor
  · exact BitVec.getLsbD_true_clz_of_ne_zero hw hx
  · intro j hj
    apply Nat.testBit_lt_two_pow
    calc
      x.toNat < 2 ^ (w - x.clz.toNat) := BitVec.toNat_lt_two_pow_sub_clz
      _ ≤ 2 ^ j := Nat.pow_le_pow_right (by norm_num) (by omega)

/-- The bits of `word` say which positions of word `index` belong to the set. -/
def Marks (S : Set ℕ) (index : ℕ) (word : BitVec w) : Prop :=
  ∀ k < w, word.getLsbD k = true ↔ index * w + k ∈ S

theorem marks_masked {P Q : ℕ → Prop} {index : ℕ} {word mask : BitVec w}
    (hword : Marks {i | P i} index word) (hmask : Marks {i | Q i} index mask) :
    Marks {i | Q i ∧ P i} index (word &&& mask) := by
  intro k hk
  rw [BitVec.getLsbD_and, Bool.and_eq_true, hword k hk, hmask k hk, and_comm]
  exact Iff.rfl

theorem marks_from {P : ℕ → Prop} {index : ℕ} (frm : ℕ) {word : BitVec w}
    (hword : Marks {i | P i} index word) (hfrm : frm ≤ index * w) :
    Marks {i | frm ≤ i ∧ P i} index word := by
  intro k hk
  rw [hword k hk]
  exact (and_iff_right (by omega)).symm

theorem marks_upTo {P : ℕ → Prop} {index frm : ℕ} {word : BitVec w}
    (hword : Marks {i | P i} index word) (hfrm : (index + 1) * w ≤ frm + 1) :
    Marks {i | i ≤ frm ∧ P i} index word := by
  intro k hk
  rw [Nat.succ_mul] at hfrm
  rw [hword k hk]
  exact (and_iff_right (by omega)).symm

theorem marks_shiftLeft (frm : ℕ) :
    Marks {i | frm ≤ i} (frm / w) (BitVec.allOnes w <<< (frm % w)) := by
  intro k hk
  have hfrm := Nat.div_add_mod' frm w
  rw [getLsbD_allOnes_shiftLeft _ hk, decide_eq_true_iff]
  change frm % w ≤ k ↔ frm ≤ frm / w * w + k
  omega

theorem marks_ushiftRight (frm : ℕ) :
    Marks {i | i ≤ frm} (frm / w) (BitVec.allOnes w >>> (w - 1 - frm % w)) := by
  intro k hk
  have hfrm := Nat.div_add_mod' frm w
  have hmod := Nat.mod_lt frm (by omega : 0 < w)
  rw [getLsbD_allOnes_ushiftRight, decide_eq_true_iff]
  change w - 1 - frm % w + k < w ↔ frm / w * w + k ≤ frm
  omega

/-- A search upward stands at word `index`: no position of the set lies below. -/
structure ScanUp (S : Set ℕ) (index : ℕ) (word : BitVec w) : Prop where
  below : ∀ i ∈ S, index * w ≤ i
  marks : Marks S index word

namespace ScanUp

variable {S : Set ℕ} {index : ℕ} {word : BitVec w}

/-- The first word is read without the positions below `frm`. -/
theorem first {P : ℕ → Prop} (frm : ℕ) (hword : Marks {i | P i} (frm / w) word) :
    ScanUp {i | frm ≤ i ∧ P i} (frm / w) (word &&& (BitVec.allOnes w <<< (frm % w))) := by
  constructor
  · intro i hi
    exact (Nat.div_mul_le_self frm w).trans hi.1
  · exact marks_masked hword (marks_shiftLeft frm)

theorem found (h : ScanUp S index word) (hw : word ≠ 0#w) :
    IsLeast S (index * w + lowestBit word) := by
  obtain ⟨hlt, hbit, hlow⟩ := lowestBit_spec word hw
  constructor
  · exact (h.marks _ hlt).mp hbit
  · intro j hj
    by_contra hlower
    have hbelow := h.below j hj
    have hmark := (h.marks (j - index * w) (by omega)).mpr (by rwa [Nat.add_sub_cancel' hbelow])
    rw [hlow _ (by omega)] at hmark
    cases hmark

theorem passed (h : ScanUp S index 0#w) : ∀ i ∈ S, (index + 1) * w ≤ i := by
  intro j hj
  by_contra hlower
  have hbelow := h.below j hj
  rw [Nat.succ_mul] at hlower
  have hmark := (h.marks (j - index * w) (by omega)).mpr (by rwa [Nat.add_sub_cancel' hbelow])
  simp at hmark

theorem next (h : ScanUp S index 0#w) {next : BitVec w} (hnext : Marks S (index + 1) next) :
    ScanUp S (index + 1) next := ⟨h.passed, hnext⟩

end ScanUp

/-- A search downward stands at word `index`: no position of the set lies above. -/
structure ScanDown (S : Set ℕ) (index : ℕ) (word : BitVec w) : Prop where
  above : ∀ i ∈ S, i < (index + 1) * w
  marks : Marks S index word

namespace ScanDown

variable {S : Set ℕ} {index : ℕ} {word : BitVec w}

/-- The first word is read without the positions above `frm`. -/
theorem first {P : ℕ → Prop} (frm : ℕ) (hw : 0 < w) (hword : Marks {i | P i} (frm / w) word) :
    ScanDown {i | i ≤ frm ∧ P i} (frm / w) (word &&& (BitVec.allOnes w >>> (w - 1 - frm % w))) := by
  constructor
  · intro i hi
    exact hi.1.trans_lt (Nat.lt_mul_of_div_lt (Nat.lt_succ_self _) hw)
  · exact marks_masked hword (marks_ushiftRight frm)

theorem found (h : ScanDown S index word) (hw : word ≠ 0#w) :
    IsGreatest S (index * w + (w - 1 - word.clz.toNat)) := by
  obtain ⟨hlt, hbit, hhigh⟩ := clz_spec word hw
  constructor
  · exact (h.marks _ (by omega)).mp hbit
  · intro j hj
    by_contra hhigher
    have habove := h.above j hj
    rw [Nat.succ_mul] at habove
    have hmark := (h.marks (j - index * w) (by omega)).mpr
      (by rwa [Nat.add_sub_cancel' (by omega)])
    rw [hhigh _ (by omega)] at hmark
    cases hmark

theorem passed (h : ScanDown S index 0#w) : ∀ i ∈ S, i < index * w := by
  intro j hj
  by_contra hhigher
  have habove := h.above j hj
  rw [Nat.succ_mul] at habove
  have hmark := (h.marks (j - index * w) (by omega)).mpr
    (by rwa [Nat.add_sub_cancel' (by omega)])
  simp at hmark

theorem next (h : ScanDown S (index + 1) 0#w) {next : BitVec w} (hnext : Marks S index next) :
    ScanDown S index next := ⟨h.passed, hnext⟩

end ScanDown

end Carrier.Lib
