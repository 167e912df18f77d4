import Mathlib.Data.List.Basic
import Mathlib.Data.Nat.Find
import Mathlib.Tactic

/-! Bit arrays packed into lists of machine words, read as predicates on bit positions. -/
namespace Carrier.Lib

variable {w : ℕ}

/-- Bit `i` of a packed array. Positions past the last word read as clear. -/
def packedBit (ws : List (BitVec w)) (i : ℕ) : Bool :=
  (ws.getD (i / w) 0#w).getLsbD (i % w)

theorem packedBit_word (ws : List (BitVec w)) (index : ℕ) {k : ℕ} (hk : k < w) :
    packedBit ws (index * w + k) = (ws.getD index 0#w).getLsbD k := by
  have hw : 0 < w := by omega
  rw [packedBit, mul_comm, Nat.mul_add_div hw, Nat.div_eq_of_lt hk, Nat.mul_add_mod,
    Nat.mod_eq_of_lt hk, add_zero]

theorem packedBit_replicate_zero (n i : ℕ) :
    packedBit (List.replicate n 0#w) i = false := by
  unfold packedBit
  rw [List.getD_eq_getElem?_getD, List.getElem?_replicate]
  split <;> simp

/-- Rewriting one word changes only the positions it holds. -/
theorem packedBit_modify (ws : List (BitVec w)) (k i : ℕ) (f : BitVec w → BitVec w)
    (hk : k < ws.length) :
    packedBit (ws.modify k f) i =
      if i / w = k then (f (ws.getD k 0#w)).getLsbD (i % w) else packedBit ws i := by
  unfold packedBit
  simp only [List.getD_eq_getElem?_getD, List.getElem?_modify]
  split_ifs with h1 h2 h2
  · subst h1
    simp [List.getElem?_eq_getElem hk]
  · exact absurd h1.symm h2
  · exact absurd h2.symm h1
  · simp

/-- A one-bit mask holds exactly its own position. -/
theorem getLsbD_oneHot (n m : ℕ) (hn : n < w) :
    (1#w <<< n).getLsbD m = decide (m = n) := by
  rcases Nat.lt_trichotomy m n with h | h | h
  · simp [h, h.ne]
  · simp [h, hn]
  · have hne : m - n ≠ 0 := by omega
    simp [h.ne', hne]

/-- Within one word a position is determined by its offset. -/
theorem eq_iff_mod_eq {i j : ℕ} (h : i / w = j / w) : i = j ↔ i % w = j % w := by
  constructor
  · rintro rfl; rfl
  · intro hm
    rw [← Nat.div_add_mod i w, ← Nat.div_add_mod j w, h, hm]

theorem packedBit_modify_or (ws : List (BitVec w)) (j i : ℕ) (hw : 0 < w)
    (hj : j / w < ws.length) :
    packedBit (ws.modify (j / w) (· ||| 1#w <<< (j % w))) i =
      (decide (i = j) || packedBit ws i) := by
  rw [packedBit_modify _ _ _ _ hj]
  split_ifs with h
  · rw [BitVec.getLsbD_or, getLsbD_oneHot _ _ (Nat.mod_lt j hw), packedBit, h, Bool.or_comm]
    simp only [eq_iff_mod_eq h]
  · have hne : i ≠ j := fun e => h (by rw [e])
    simp [hne]

theorem packedBit_modify_andNot (ws : List (BitVec w)) (j i : ℕ) (hw : 0 < w)
    (hj : j / w < ws.length) :
    packedBit (ws.modify (j / w) (· &&& ~~~(1#w <<< (j % w)))) i =
      (!decide (i = j) && packedBit ws i) := by
  rw [packedBit_modify _ _ _ _ hj]
  split_ifs with h
  · rw [BitVec.getLsbD_and, BitVec.getLsbD_not, getLsbD_oneHot _ _ (Nat.mod_lt j hw), packedBit, h,
      Bool.and_comm]
    simp [eq_iff_mod_eq h, Nat.mod_lt i hw]
  · have hne : i ≠ j := fun e => h (by rw [e])
    simp [hne]

/-- Index of the lowest set bit, `w` for the zero word. -/
def lowestBit (x : BitVec w) : ℕ :=
  ((List.range w).find? (fun i => x.getLsbD i)).getD w

theorem lowestBit_spec (x : BitVec w) (hx : x ≠ 0#w) :
    lowestBit x < w ∧ x.getLsbD (lowestBit x) = true ∧
      ∀ j < lowestBit x, x.getLsbD j = false := by
  unfold lowestBit
  cases hf : (List.range w).find? (fun i => x.getLsbD i) with
  | none =>
    exfalso
    apply hx
    apply BitVec.eq_of_getLsbD_eq
    intro i hi
    have := List.find?_eq_none.mp hf i (List.mem_range.mpr hi)
    simpa using this
  | some k =>
    obtain ⟨hk, as, bs, hsplit, has⟩ := List.find?_eq_some_iff_append.mp hf
    have hkw : k < w := List.mem_range.mp (List.mem_of_find?_eq_some hf)
    refine ⟨hkw, hk, ?_⟩
    intro j hj
    rw [Option.getD_some] at hj
    have hlen : as.length = k := by
      have := congrArg (fun l => l[as.length]?) hsplit
      have hlt : as.length < w := by
        have := congrArg List.length hsplit
        simp at this
        omega
      simp [List.getElem?_range hlt] at this
      exact this
    have hmem : j ∈ as := by
      have h1 : (List.range w)[j]? = some j := List.getElem?_range (by omega)
      rw [hsplit, List.getElem?_append_left (by simpa [hlen] using hj)] at h1
      exact List.mem_of_getElem? h1
    simpa using has j hmem

end Carrier.Lib
