import Carrier.Common.Bitset
import Carrier.Lib.MachineInts

/-! The four searches of `common/bitset.c`, with the shifts they perform and the `int` they compute. -/
namespace Carrier.Common
open Carrier.Lib

/-- What the target computes for `word_mask << n` and `word_mask >> n`. Counts below 64 are fixed;
from 64 on the language leaves the results undefined. -/
structure WordShift where
  shl : ℕ → BitVec 64
  shr : ℕ → BitVec 64
  shl_of_lt : ∀ n < 64, shl n = BitVec.allOnes 64 <<< n
  shr_of_lt : ∀ n < 64, shr n = BitVec.allOnes 64 >>> n

/-- The shifters of x86-64 and AArch64 take the count modulo the operand width. -/
def WordShift.modWidth : WordShift where
  shl n := BitVec.allOnes 64 <<< (n % 64)
  shr n := BitVec.allOnes 64 >>> (n % 64)
  shl_of_lt n h := by rw [Nat.mod_eq_of_lt h]
  shr_of_lt n h := by rw [Nat.mod_eq_of_lt h]

/-- The counts of the shifts that a search performs and what it returns, `none` after an `int` has
overflowed. -/
structure Searched where
  shifts : List ℕ
  result : Option ℤ

/-- The position in `bitset_prev_set_bit` and `bitset_prev_clear_bit`, once a word is not zero. -/
def prevPos (index : ℕ) (word : BitVec 64) : Option ℤ :=
  (fitInt ((index + 1) * 64)).map (fun (pos : ℕ) => (pos : ℤ) - 1 - word.clz.toNat)

/-- The loop of the searches downward at word `index`; `read` gives the words after the first. -/
def prevLoop (read : BitVec 64 → BitVec 64) (bits : List (BitVec 64)) : ℕ → BitVec 64 → Option ℤ
  | 0, word => if word ≠ 0#64 then prevPos 0 word else some (-1)
  | index + 1, word =>
    if word ≠ 0#64 then prevPos (index + 1) word
    else prevLoop read bits index (read (bits.getD index 0#64))

/-- The count of `word_mask >> (-(from + 1) % 64 + 64)`; the remainder has the sign of the dividend. -/
def prevShift (frm : ℕ) : ℕ := ((-((frm : ℤ) + 1)).tmod 64 + 64).toNat

/-- `bitset_prev_set_bit` and `bitset_prev_clear_bit` -/
def prevBit (T : WordShift) (read : BitVec 64 → BitVec 64) (set : Bitset) (frm : ℕ) : Searched where
  shifts := [prevShift frm]
  result := (fitInt (frm + 1)).bind fun _ =>
    prevLoop read set.bits (frm / 64) (read (set.bits.getD (frm / 64) 0#64) &&& T.shr (prevShift frm))

/-- The loop of `bitset_next_set_bit` at word `index`, with the words after it. -/
def nextSetLoop (index : ℕ) (word : BitVec 64) : List (BitVec 64) → Option ℤ
  | [] =>
    if word ≠ 0#64 then (fitInt (index * 64 + lowestBit word)).map fun (pos : ℕ) => (pos : ℤ)
    else (fitInt (index + 1)).map fun _ => -1
  | next :: rest =>
    if word ≠ 0#64 then (fitInt (index * 64 + lowestBit word)).map fun (pos : ℕ) => (pos : ℤ)
    else (fitInt (index + 1)).bind fun _ => nextSetLoop (index + 1) next rest

/-- The loop of `bitset_next_clear_bit`, as `nextClearLoop` but on `int`. -/
def nextClearIntLoop (size index : ℕ) (word : BitVec 64) : List (BitVec 64) → Option ℤ
  | [] =>
    if word ≠ 0#64 then
      (fitInt (index * 64 + lowestBit word)).map fun (pos : ℕ) => if pos = size then -1 else (pos : ℤ)
    else (fitInt ((index + 1) * 64)).map fun (pos : ℕ) => if pos = size then -1 else (pos : ℤ)
  | next :: rest =>
    if word ≠ 0#64 then
      (fitInt (index * 64 + lowestBit word)).map fun (pos : ℕ) => if pos = size then -1 else (pos : ℤ)
    else (fitInt (index + 1)).bind fun _ => nextClearIntLoop size (index + 1) (~~~next) rest

namespace WordShift

def bitsetPrevSetBit (T : WordShift) (set : Bitset) (frm : ℕ) : Searched := prevBit T id set frm

def bitsetPrevClearBit (T : WordShift) (set : Bitset) (frm : ℕ) : Searched :=
  prevBit T (fun word => ~~~word) set frm

def bitsetNextSetBit (T : WordShift) (set : Bitset) (frm : ℕ) : Searched where
  shifts := [frm]
  result := nextSetLoop (frm / 64) (set.bits.getD (frm / 64) 0#64 &&& T.shl frm)
    (set.bits.drop (frm / 64 + 1))

def bitsetNextClearBit (T : WordShift) (set : Bitset) (frm : ℕ) : Searched where
  shifts := [frm % 64]
  result := nextClearIntLoop set.size (frm / 64)
    (~~~(set.bits.getD (frm / 64) 0#64) &&& T.shl (frm % 64)) (set.bits.drop (frm / 64 + 1))

end WordShift

/-- The sets that `bitset_init`, `bitset_set` and `bitset_clear` build; the bit is an `int`. -/
inductive Bitset.Built : Bitset → Prop where
  | init (size : ℕ) : Built (bitsetInit size)
  | set {s : Bitset} (bit : BitVec 32) : Built s → Built (bitsetSet s bit.toInt).1
  | clear {s : Bitset} (bit : BitVec 32) : Built s → Built (bitsetClear s bit.toInt).1

/-- The searches of the header. -/
inductive BitSearch where
  | prevSet | nextSet | prevClear | nextClear

namespace BitSearch

def run (T : WordShift) (s : Bitset) (frm : ℕ) : BitSearch → Searched
  | prevSet => T.bitsetPrevSetBit s frm
  | nextSet => T.bitsetNextSetBit s frm
  | prevClear => T.bitsetPrevClearBit s frm
  | nextClear => T.bitsetNextClearBit s frm

/-- `r` is the nearest position of a set in the direction of the search, or -1 if the set has none. -/
def Nearest (bound : Set ℕ → ℕ → Prop) (S : Set ℕ) (r : ℤ) : Prop :=
  (∃ p : ℕ, r = p ∧ bound S p) ∨ (r = -1 ∧ S = ∅)

/-- What a search is for: the nearest position below the size with the wanted value. -/
def Answers (s : Bitset) (frm : ℕ) : BitSearch → ℤ → Prop
  | prevSet => Nearest IsGreatest {i | i ≤ frm ∧ i < s.size ∧ s.isSet i = true}
  | nextSet => Nearest IsLeast {i | frm ≤ i ∧ i < s.size ∧ s.isSet i = true}
  | prevClear => Nearest IsGreatest {i | i ≤ frm ∧ i < s.size ∧ s.isSet i = false}
  | nextClear => Nearest IsLeast {i | frm ≤ i ∧ i < s.size ∧ s.isSet i = false}

/-- The search returns the nearest position, and shifts a word by counts below 64. -/
def Finds (T : WordShift) (s : Bitset) (frm : ℕ) (search : BitSearch) : Prop :=
  (∀ c ∈ (search.run T s frm).shifts, c < 64) ∧
    ∃ r, (search.run T s frm).result = some r ∧ search.Answers s frm r

/-- Upward for a set bit, the search must start in the first word; downward, not at the end of a word.
And the positions that the search passes or finds have to fit an `int`. -/
def Sound (s : Bitset) (frm : ℕ) : BitSearch → Prop
  | prevSet => frm % 64 ≠ 63 ∧ ∀ i ≤ frm, 2 ^ 31 - 64 ≤ i → s.isSet i = false
  | nextSet => frm < 64 ∧ (s.bits.length < 2 ^ 31 ∨ ∃ i, frm ≤ i ∧ s.isSet i = true)
  | prevClear => frm % 64 ≠ 63 ∧ ∀ i ≤ frm, 2 ^ 31 - 64 ≤ i → s.isSet i = true
  | nextClear => s.size < 2 ^ 31 ∨ ∃ i, frm ≤ i ∧ i < 2 ^ 31 ∧ s.isSet i = false

end BitSearch

theorem Bitset.Built.isSet_lt {s : Bitset} (h : s.Built) {i : ℕ} (hi : s.isSet i = true) :
    i < 2 ^ 31 := by
  induction h with
  | init size =>
    rw [bitsetInit_isSet] at hi
    cases hi
  | @set s bit _ ih =>
    by_cases hout : bit.toInt < 0 ∨ (s.size : ℤ) ≤ bit.toInt
    · rw [bitsetSet, dif_pos hout] at hi
      exact ih hi
    · obtain ⟨j, hj⟩ := Int.eq_ofNat_of_zero_le (by omega : 0 ≤ bit.toInt)
      have hbit := BitVec.toInt_lt (x := bit)
      rw [hj, bitsetSet_isSet s (by omega), Bool.or_eq_true, decide_eq_true_iff] at hi
      rcases hi with heq | hold
      · omega
      · exact ih hold
  | @clear s bit _ ih =>
    by_cases hout : bit.toInt < 0 ∨ (s.size : ℤ) ≤ bit.toInt
    · rw [bitsetClear, dif_pos hout] at hi
      exact ih hi
    · obtain ⟨j, hj⟩ := Int.eq_ofNat_of_zero_le (by omega : 0 ≤ bit.toInt)
      rw [hj, bitsetClear_isSet s (by omega), Bool.and_eq_true] at hi
      exact ih hi.2

theorem prevShift_eq (frm : ℕ) : prevShift frm = 64 - (frm + 1) % 64 := by
  unfold prevShift
  rw [Int.neg_tmod, Int.tmod_eq_emod_of_nonneg (by omega)]
  omega

/-- A word that is not zero has the greatest position of the set. -/
theorem prevPos_isGreatest {S : Set ℕ} {index : ℕ} {word : BitVec 64} (h : ScanDown S index word)
    (hw : word ≠ 0#64) :
    ∃ p, IsGreatest S p ∧
      prevPos index word = (fitInt ((p / 64 + 1) * 64)).map (fun _ => (p : ℤ)) := by
  obtain ⟨hlt, -, -⟩ := clz_spec word hw
  have hdiv : (index * 64 + (64 - 1 - word.clz.toNat)) / 64 = index := by omega
  refine ⟨_, h.found hw, ?_⟩
  rw [hdiv, prevPos]
  by_cases hfit : (index + 1) * 64 < 2 ^ 31
  · rw [fitInt_of_lt hfit, Option.map_some, Option.map_some, Option.some.injEq]
    push_cast
    omega
  · rw [fitInt_of_le (not_lt.mp hfit)]
    rfl

/-- The loop downward ends at the greatest position, if the end of its word fits an `int`. -/
theorem prevLoop_spec {S : Set ℕ} {read : BitVec 64 → BitVec 64} {bits : List (BitVec 64)}
    {index : ℕ} {word : BitVec 64} (h : ScanDown S index word)
    (hread : ∀ j < index, Marks S j (read (bits.getD j 0#64))) :
    (S = ∅ ∧ prevLoop read bits index word = some (-1)) ∨
      ∃ p, IsGreatest S p ∧
        prevLoop read bits index word = (fitInt ((p / 64 + 1) * 64)).map (fun _ => (p : ℤ)) := by
  induction index generalizing word with
  | zero =>
    by_cases hw : word = 0#64
    · subst hw
      left
      constructor
      · apply Set.eq_empty_of_forall_notMem
        intro i hi
        have hpassed := h.passed i hi
        omega
      · simp [prevLoop]
    · right
      rw [prevLoop, if_pos hw]
      exact prevPos_isGreatest h hw
  | succ index ih =>
    by_cases hw : word = 0#64
    · subst hw
      have hnext := h.next (hread index (Nat.lt_succ_self _))
      have hrest := ih hnext (fun j hj => hread j (by omega))
      simpa [prevLoop] using hrest
    · right
      rw [prevLoop, if_pos hw]
      exact prevPos_isGreatest h hw

/-- The loop upward ends at the least position, or at the number of words, if that fits an `int`. -/
theorem nextSetLoop_spec (s : Bitset) (frm index : ℕ) (word : BitVec 64) (hindex : frm / 64 ≤ index)
    (hlen : index < s.bits.length) (h : ScanUp (s.valuedFrom true frm) index word) :
    (s.valuedFrom true frm = ∅ ∧ nextSetLoop index word (s.bits.drop (index + 1)) =
        (fitInt s.bits.length).map (fun _ => -1)) ∨
      ∃ p, IsLeast (s.valuedFrom true frm) p ∧ nextSetLoop index word (s.bits.drop (index + 1)) =
        (fitInt p).map (fun (pos : ℕ) => (pos : ℤ)) := by
  -- Induction on the words not yet visited; where the index overflows, so does every later result.
  induction hr : s.bits.drop (index + 1) generalizing index word with
  | nil =>
    by_cases hw : word = 0#64
    · subst hw
      left
      have hle : s.bits.length ≤ index + 1 := List.drop_eq_nil_iff.mp hr
      have hsize := s.length_bits
      rw [Nat.shiftRight_eq_div_pow] at hsize
      constructor
      · apply Set.eq_empty_of_forall_notMem
        intro i hi
        have hpassed := h.passed i hi
        have hlt := Bitset.isSet_lt hi.2
        omega
      · have heq : index + 1 = s.bits.length := by omega
        simp [nextSetLoop, heq]
    · exact .inr ⟨_, h.found hw, by simp [nextSetLoop, hw]⟩
  | cons next rest ih =>
    by_cases hw : word = 0#64
    · subst hw
      obtain ⟨hlen', hnext, hrest⟩ := s.next_word hr
      have hmarks := marks_from frm (s.marks_set (index + 1)) (by omega)
      rw [hnext] at hmarks
      have hstep := ih (index + 1) next (by omega) hlen' (h.next hmarks) hrest
      by_cases hfit : index + 1 < 2 ^ 31
      · simpa [nextSetLoop, fitInt_of_lt hfit] using hstep
      · have hnone : nextSetLoop index 0#64 (next :: rest) = none := by
          simp [nextSetLoop, fitInt_of_le (not_lt.mp hfit)]
        rw [hnone]
        rcases hstep with ⟨hempty, -⟩ | ⟨p, hp, -⟩
        · left
          rw [fitInt_of_le (by omega)]
          exact ⟨hempty, rfl⟩
        · right
          have hpassed := h.passed p hp.1
          refine ⟨p, hp, ?_⟩
          rw [fitInt_of_le (by omega)]
          rfl
    · exact .inr ⟨_, h.found hw, by simp [nextSetLoop, hw]⟩

theorem nextClearIntLoop_found (size index : ℕ) {word : BitVec 64} (hw : word ≠ 0#64)
    (rest : List (BitVec 64)) : nextClearIntLoop size index word rest =
      (fitInt (index * 64 + lowestBit word)).map (fun _ => nextClearLoop size index word rest) := by
  by_cases hfit : index * 64 + lowestBit word < 2 ^ 31
  · cases rest <;> simp [nextClearIntLoop, nextClearLoop, hw, fitInt_of_lt hfit]
  · cases rest <;> simp [nextClearIntLoop, hw, fitInt_of_le (not_lt.mp hfit)]

/-- On `int`, the search for a clear bit needs the first one to fit; then nothing overflows. -/
theorem nextClearIntLoop_spec (s : Bitset) (frm : ℕ) (hfrm : frm < s.size) (index : ℕ)
    (word : BitVec 64) (hindex : frm / 64 ≤ index) (h : ScanUp (s.valuedFrom false frm) index word) :
    ∃ p, IsLeast (s.valuedFrom false frm) p ∧
      nextClearIntLoop s.size index word (s.bits.drop (index + 1)) =
        (fitInt p).map (fun _ => nextClearLoop s.size index word (s.bits.drop (index + 1))) := by
  induction hr : s.bits.drop (index + 1) generalizing index word with
  | nil =>
    by_cases hw : word = 0#64
    · subst hw
      obtain ⟨heq, hleast⟩ := s.size_of_passed hfrm hr h
      refine ⟨s.size, hleast, ?_⟩
      by_cases hfit : s.size < 2 ^ 31
      · simp [nextClearIntLoop, nextClearLoop, heq, fitInt_of_lt hfit]
      · simp [nextClearIntLoop, heq, fitInt_of_le (not_lt.mp hfit)]
    · exact ⟨_, h.found hw, nextClearIntLoop_found _ _ hw _⟩
  | cons next rest ih =>
    by_cases hw : word = 0#64
    · subst hw
      obtain ⟨-, hnext, hrest⟩ := s.next_word hr
      have hmarks := marks_from frm (s.marks_clear (index + 1)) (by omega)
      rw [hnext] at hmarks
      obtain ⟨p, hp, he⟩ := ih (index + 1) (~~~next) (by omega) (h.next hmarks) hrest
      refine ⟨p, hp, ?_⟩
      by_cases hfit : index + 1 < 2 ^ 31
      · simpa [nextClearIntLoop, nextClearLoop, fitInt_of_lt hfit] using he
      · have hpassed := h.passed p hp.1
        simp [nextClearIntLoop, fitInt_of_le (not_lt.mp hfit), fitInt_of_le (by omega : 2 ^ 31 ≤ p)]
    · exact ⟨_, h.found hw, nextClearIntLoop_found _ _ hw _⟩

/-- A defined search for a clear bit returns what the search without overflow does. -/
theorem bitsetNextClearBit_result (T : WordShift) (s : Bitset) {frm : ℕ} (hfrm : frm < s.size) :
    ∃ p, IsLeast (s.valuedFrom false frm) p ∧
      (T.bitsetNextClearBit s frm).result = (fitInt p).map (fun _ => bitsetNextClearBit s frm) := by
  have hfirst := ScanUp.first frm (s.marks_clear (frm / 64))
  obtain ⟨p, hp, hres⟩ := nextClearIntLoop_spec s frm hfrm _ _ le_rfl hfirst
  refine ⟨p, hp, ?_⟩
  rw [← T.shl_of_lt _ (Nat.mod_lt _ (by norm_num))] at hres
  rw [WordShift.bitsetNextClearBit, hres, T.shl_of_lt _ (Nat.mod_lt _ (by norm_num)),
    bitsetNextClearBit]

namespace BitSearch

variable {T : WordShift} {s : Bitset} {frm : ℕ}

theorem prevBit_counts_iff (read : BitVec 64 → BitVec 64) :
    (∀ c ∈ (prevBit T read s frm).shifts, c < 64) ↔ frm % 64 ≠ 63 := by
  have hshift := prevShift_eq frm
  rw [prevBit, List.forall_mem_singleton]
  omega

theorem prevBit_result (read : BitVec 64 → BitVec 64) (hint : frm < 2 ^ 31)
    (hend : frm % 64 ≠ 63) :
    (prevBit T read s frm).result = prevLoop read s.bits (frm / 64)
      (read (s.bits.getD (frm / 64) 0#64) &&& (BitVec.allOnes 64 >>> (64 - 1 - frm % 64))) := by
  have hshift := prevShift_eq frm
  have hcount : prevShift frm = 64 - 1 - frm % 64 := by omega
  rw [prevBit, fitInt_of_lt (by omega), Option.bind_some, hcount, T.shr_of_lt _ (by omega)]

theorem upTo_lt_size (hfrm : frm < s.size) (v : Bool) :
    {i | i ≤ frm ∧ i < s.size ∧ s.isSet i = v} = {i | i ≤ frm ∧ s.isSet i = v} := by
  ext i
  constructor
  · intro h
    exact ⟨h.1, h.2.2⟩
  · intro h
    exact ⟨h.1, h.1.trans_lt hfrm, h.2⟩

theorem from_lt_size (s : Bitset) (frm : ℕ) :
    {i | frm ≤ i ∧ i < s.size ∧ s.isSet i = true} = s.valuedFrom true frm := by
  ext i
  constructor
  · intro h
    exact ⟨h.1, h.2.2⟩
  · intro h
    exact ⟨h.1, Bitset.isSet_lt h.2, h.2⟩

/-- Of the two searches downward: away from the end of a word the shift is fixed, and the end of the
word with the position found must fit an `int`. -/
theorem prevBit_finds_iff {v : Bool} (read : BitVec 64 → BitVec 64)
    (hread : ∀ index, Marks {i | s.isSet i = v} index (read (s.bits.getD index 0#64)))
    (hfrm : frm < s.size) (hint : frm < 2 ^ 31) :
    ((∀ c ∈ (prevBit T read s frm).shifts, c < 64) ∧ ∃ r, (prevBit T read s frm).result = some r ∧
        Nearest IsGreatest {i | i ≤ frm ∧ i < s.size ∧ s.isSet i = v} r) ↔
      frm % 64 ≠ 63 ∧ ∀ i ≤ frm, 2 ^ 31 - 64 ≤ i → s.isSet i ≠ v := by
  rw [prevBit_counts_iff]
  apply and_congr_right
  intro hend
  have hspec := prevLoop_spec (ScanDown.first frm (by norm_num) (hread (frm / 64)))
    (fun j hj => marks_upTo (hread j) (by omega))
  rw [upTo_lt_size hfrm, prevBit_result read hint hend]
  rcases hspec with ⟨hempty, hloop⟩ | ⟨p, hp, hloop⟩
  · apply iff_of_true
    · exact ⟨-1, hloop, .inr ⟨rfl, hempty⟩⟩
    · intro i hi _ hv
      have hmem : i ∈ {i | i ≤ frm ∧ s.isSet i = v} := ⟨hi, hv⟩
      rw [hempty] at hmem
      exact hmem
  · constructor
    · rintro ⟨r, hr, -⟩ i hi hhigh hv
      rw [hloop, fitInt_map_eq_some_iff] at hr
      have hle := hp.2 ⟨hi, hv⟩
      omega
    · intro hlow
      have hbound : p < 2 ^ 31 - 64 := by
        by_contra hhigh
        exact hlow p hp.1.1 (not_lt.mp hhigh) hp.1.2
      refine ⟨p, ?_, .inl ⟨p, rfl, hp⟩⟩
      rw [hloop, fitInt_of_lt (by omega), Option.map_some]

/-- Upward for a set bit: the count of the shift is the start itself. -/
theorem nextSet_finds_iff (hs : s.Built) (hfrm : frm < s.size) :
    nextSet.Finds T s frm ↔ nextSet.Sound s frm := by
  have hcounts : (∀ c ∈ (nextSet.run T s frm).shifts, c < 64) ↔ frm < 64 :=
    List.forall_mem_singleton
  change _ ∧ (∃ r, _ = some r ∧ Nearest _ _ r) ↔ _ ∧ _
  rw [hcounts, from_lt_size]
  apply and_congr_right
  intro hfirst
  have hscan := ScanUp.first frm (s.marks_set (frm / 64))
  rw [Nat.mod_eq_of_lt hfirst, ← T.shl_of_lt _ hfirst] at hscan
  have hspec := nextSetLoop_spec s frm _ _ le_rfl (s.word_lt hfrm) hscan
  change (∃ r, nextSetLoop _ _ _ = some r ∧ _) ↔ _
  rcases hspec with ⟨hempty, hloop⟩ | ⟨p, hp, hloop⟩
  · rw [hloop]
    constructor
    · rintro ⟨r, hr, -⟩
      exact .inl (fitInt_map_eq_some_iff.mp hr).1
    · rintro (hlen | ⟨i, hi, hv⟩)
      · exact ⟨-1, fitInt_map_eq_some_iff.mpr ⟨hlen, rfl⟩, .inr ⟨rfl, hempty⟩⟩
      · have hmem : i ∈ s.valuedFrom true frm := ⟨hi, hv⟩
        rw [hempty] at hmem
        exact hmem.elim
  · apply iff_of_true
    · refine ⟨p, ?_, .inl ⟨p, rfl, hp⟩⟩
      rw [hloop, fitInt_of_lt (hs.isSet_lt hp.1.2), Option.map_some]
    · exact .inr ⟨p, hp.1.1, hp.1.2⟩

theorem nextClear_finds_iff (hfrm : frm < s.size) :
    nextClear.Finds T s frm ↔ nextClear.Sound s frm := by
  have hcounts : ∀ c ∈ (nextClear.run T s frm).shifts, c < 64 := by
    intro c hc
    rw [run, WordShift.bitsetNextClearBit, List.mem_singleton] at hc
    omega
  obtain ⟨p, hp, hresult⟩ := bitsetNextClearBit_result T s hfrm
  have hsize : p ≤ s.size := hp.2 (s.size_mem_valuedFrom hfrm)
  change _ ∧ (∃ r, (T.bitsetNextClearBit s frm).result = some r ∧ Nearest _ _ r) ↔ _
  rw [and_iff_right hcounts, hresult]
  constructor
  · rintro ⟨r, hr, -⟩
    right
    exact ⟨p, hp.1.1, (fitInt_map_eq_some_iff.mp hr).1, hp.1.2⟩
  · intro hsound
    have hfit : p < 2 ^ 31 := by
      rcases hsound with hsmall | ⟨i, hi, hlt, hv⟩
      · exact hsize.trans_lt hsmall
      · exact (hp.2 ⟨hi, hv⟩).trans_lt hlt
    refine ⟨_, fitInt_map_eq_some_iff.mpr ⟨hfit, rfl⟩, ?_⟩
    rcases bitsetNextClearBit_spec s frm hfrm with ⟨q, hq, hle, hlt, hclear, hbelow⟩ | ⟨hq, hall⟩
    · left
      refine ⟨q, hq, ⟨hle, hlt, hclear⟩, ?_⟩
      intro i ⟨hi, _, hv⟩
      by_contra hlower
      rw [hbelow i hi (not_le.mp hlower)] at hv
      cases hv
    · right
      refine ⟨hq, ?_⟩
      apply Set.eq_empty_of_forall_notMem
      intro i ⟨hi, hlt, hv⟩
      rw [hall i hi hlt] at hv
      cases hv

/-- Each search finds the nearest bit, with shifts the language defines, exactly if it is sound. -/
theorem finds_iff_sound (T : WordShift) (hs : s.Built) (hfrm : frm < s.size) (hint : frm < 2 ^ 31)
    (search : BitSearch) : search.Finds T s frm ↔ search.Sound s frm := by
  cases search with
  | prevSet =>
    have hread := prevBit_finds_iff (T := T) id s.marks_set hfrm hint
    simp only [ne_eq, Bool.not_eq_true] at hread
    exact hread
  | nextSet => exact nextSet_finds_iff hs hfrm
  | prevClear =>
    have hread := prevBit_finds_iff (T := T) (fun word => ~~~word) s.marks_clear hfrm hint
    simp only [ne_eq, Bool.not_eq_false] at hread
    exact hread
  | nextClear => exact nextClear_finds_iff hfrm

/-- From the last bit of a word, a search downward shifts by the width of the word. -/
theorem prevSet_not_finds :
    (bitsetInit 64).Built ∧ 63 < (bitsetInit 64).size ∧
      ¬prevSet.Finds .modWidth (bitsetInit 64) 63 := by
  constructor
  · exact .init 64
  constructor
  · decide
  · intro h
    exact absurd (h.1 64 (by decide)) (by decide)

theorem nextClear_finds : nextClear.Finds .modWidth (bitsetInit 64) 63 :=
  (finds_iff_sound .modWidth (.init 64) (by decide) (by decide) nextClear).mpr (.inl (by decide))

end BitSearch

end Carrier.Common
