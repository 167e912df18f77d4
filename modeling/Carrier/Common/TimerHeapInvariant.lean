import Carrier.Common.TimerHeapOrder
import Carrier.Lib.Linked

/-! The invariant of a timer heap: its slots, the ids and the freelist in them. -/
namespace Carrier.Common
open Carrier.Lib

namespace TimerHeap

section Invariant

variable {E : Type*}

def running (ht : TimerHeap E) : Set E := {e | 1 ≤ ht.timerId e}

/-- The freelist passes the ids `l`, which are those not in use, and ends behind the arrays. -/
structure FreeList (ht : TimerHeap E) (l : List ℤ) : Prop where
  chain : Seg (fun x : ℤ => x) (fun x => some (-ht.timerIds x.toNat)) (some ht.timerIdsFreelist) l
    (some (ht.maxSize : ℤ))
  nodup : l.Nodup
  mem : ∀ x, x ∈ l ↔ 1 ≤ x ∧ x < ht.maxSize ∧ ∀ e, ht.timerId e ≠ x

structure Inv (ht : TimerHeap E) : Prop where
  bound : ht.curSize + 2 ≤ ht.maxSize
  placed : Placed ht ht.curSize ht.running
  order : HeapOrder ht.key ht.curSize
  free : ∃ l, ht.FreeList l
  zero : ht.timerIds 0 < 0
  entries : ∀ e ∈ ht.running, (ht.timerValue e).Canonical ∧ ht.hasCb e = true

variable {ht ht' : TimerHeap E} {l : List ℤ} {n : ℕ} {S : Set E} {e : E}

theorem Placed.slot_inj (h : Placed ht n S) {i j : ℕ} (hi : i < n) (hj : j < n)
    (hei : ht.heap i = some e) (hej : ht.heap j = some e) : i = j := by
  obtain ⟨x, -, hx, hidx⟩ := h.placed i hi
  obtain ⟨y, -, hy, hidy⟩ := h.placed j hj
  rw [hei] at hx
  rw [hej] at hy
  cases hx
  cases hy
  exact_mod_cast hidx.symm.trans hidy

theorem chain_head {ids : ℕ → ℤ} {y max : ℤ}
    (h : Seg (fun x : ℤ => x) (fun x => some (-ids x.toNat)) (some y) l (some max)) (hmax : 1 ≤ max)
    (hl : ∀ x ∈ l, 1 ≤ x ∧ x < max) : 1 ≤ y ∧ y ≤ max := by
  cases l with
  | nil =>
    have heq : y = max := Option.some.inj h
    omega
  | cons x l =>
    have heq : y = x := Option.some.inj h.1
    have hx := hl x List.mem_cons_self
    omega

theorem FreeList.bounds (h : ht.FreeList l) : ∀ x ∈ l, 1 ≤ x ∧ x < ht.maxSize := by
  intro x hx
  obtain ⟨hpos, hlt, -⟩ := (h.mem x).mp hx
  exact ⟨hpos, hlt⟩

theorem FreeList.of_sameBut (h : ht.FreeList l) (hsame : SameBut S ht ht')
    (hpos : ∀ e ∈ S, 1 ≤ ht.timerId e) : ht'.FreeList l := by
  refine ⟨?_, h.nodup, ?_⟩
  · rw [hsame.freelist, hsame.maxSize]
    refine h.chain.congr (fun x hx => ?_)
    obtain ⟨hx1, -, hfree⟩ := (h.mem x).mp hx
    have hout : ∀ e ∈ S, (ht.timerId e).toNat ≠ x.toNat := by
      intro e he heq
      have := hpos e he
      exact hfree e (by omega)
    rw [hsame.ids _ hout]
  · rw [hsame.maxSize, hsame.timerId]
    exact h.mem

theorem Inv.free_ne_nil (h : ht.Inv) (hl : ht.FreeList l) : l ≠ [] := by
  rintro rfl
  -- each id is that of a slot
  have hsub : Finset.Icc 1 (ht.maxSize - 1) ⊆ (Finset.range ht.curSize).image
      (fun i => ((ht.heap i).elim 0 ht.timerId).toNat) := by
    intro x hx
    rw [Finset.mem_Icc] at hx
    have hbound := h.bound
    have hused : ¬∀ e, ht.timerId e ≠ (x : ℤ) := by
      intro hall
      exact absurd ((hl.mem x).mpr ⟨by omega, by omega, hall⟩) List.not_mem_nil
    push Not at hused
    obtain ⟨e, he⟩ := hused
    have hrun : e ∈ ht.running := by
      change 1 ≤ ht.timerId e
      omega
    obtain ⟨i, hi, hheap⟩ := h.placed.covered e hrun
    refine Finset.mem_image.mpr ⟨i, Finset.mem_range.mpr hi, ?_⟩
    rw [hheap, Option.elim_some, he, Int.toNat_natCast]
  have hcard := (Finset.card_le_card hsub).trans Finset.card_image_le
  rw [Nat.card_Icc, Finset.card_range] at hcard
  have := h.bound
  omega

/-- New ids in their order, each of them linked to the next. -/
theorem seg_range' {ids : ℕ → ℤ} (a k : ℕ) (h : ∀ i, a ≤ i → i < a + k → ids i = -(i + 1 : ℕ)) :
    Seg (fun x : ℤ => x) (fun x => some (-ids x.toNat)) (some (a : ℤ))
      ((List.range' a k).map Nat.cast) (some ((a + k : ℕ) : ℤ)) := by
  induction k generalizing a with
  | zero => rfl
  | succ k ih =>
    refine ⟨rfl, ?_⟩
    have hnext : -ids (Int.toNat (a : ℤ)) = ((a + 1 : ℕ) : ℤ) := by
      rw [Int.toNat_natCast, h a le_rfl (by omega), neg_neg]
    have hrest := ih (a + 1) (fun i hi hlt => h i (by omega) (by omega))
    rw [Nat.add_right_comm, Nat.add_assoc] at hrest
    dsimp only
    rw [hnext]
    exact hrest

/-- What `grow_heap` may change: the arrays get longer. -/
structure Grown (ht ht' : TimerHeap E) : Prop where
  eq : ht' = { ht with maxSize := ht'.maxSize, heap := ht'.heap, timerIds := ht'.timerIds }
  le : ht.maxSize ≤ ht'.maxSize
  small : ht'.maxSize < 2 ^ 31
  heap : ∀ i < ht.maxSize, ht'.heap i = ht.heap i
  ids : ∀ i < ht.maxSize, ht'.timerIds i = ht.timerIds i
  news : ∀ i, ht.maxSize ≤ i → i < ht'.maxSize → ht'.timerIds i = -(i + 1 : ℕ)

namespace Grown

theorem curSize (h : Grown ht ht') : ht'.curSize = ht.curSize := by rw [h.eq]

theorem freelist (h : Grown ht ht') : ht'.timerIdsFreelist = ht.timerIdsFreelist := by rw [h.eq]

theorem timerId (h : Grown ht ht') : ht'.timerId = ht.timerId := by rw [h.eq]

theorem timerValue (h : Grown ht ht') : ht'.timerValue = ht.timerValue := by rw [h.eq]

theorem hasCb (h : Grown ht ht') : ht'.hasCb = ht.hasCb := by rw [h.eq]

theorem key (h : Grown ht ht') {i : ℕ} (hi : i < ht.maxSize) : ht'.key i = ht.key i := by
  rw [TimerHeap.key, TimerHeap.key, h.heap i hi, h.timerValue]

theorem sifting (h : Grown ht ht') {s : ℕ} (hs : Sifting ht n s e S) : Sifting ht' n s e S := by
  have hslots := hs.slots
  have hle := h.le
  have hid : ∀ x ∈ S, ht'.timerIds (ht.timerId x).toNat = ht.timerIds (ht.timerId x).toNat := by
    intro x hx
    have hpos := hs.id_pos x hx
    have hlt := hs.id_lt x hx
    exact h.ids _ (by omega)
  have hsized : Sized ht' n S := by
    refine hs.toSized.mono (hslots.trans hle) hle h.small (fun x hx => ⟨hx, ?_⟩)
    rw [h.timerId]
  refine ⟨hsized, hs.slot, hs.mem, ?_, ?_⟩
  · intro i hi his
    obtain ⟨x, hx, hne, hheap, hslot⟩ := hs.placed i hi his
    refine ⟨x, hx, hne, ?_, ?_⟩
    · rw [h.heap i (hi.trans_le hslots)]
      exact hheap
    · rw [h.timerId, hid x hx]
      exact hslot
  · intro x hx hne
    obtain ⟨i, hi, his, hheap⟩ := hs.covered x hx hne
    refine ⟨i, hi, his, ?_⟩
    rw [h.heap i (hi.trans_le hslots)]
    exact hheap

theorem freeList (h : Grown ht ht') (hl : ht.FreeList l) (hlt : ∀ e, ht.timerId e < ht.maxSize)
    (hmax : 1 ≤ ht.maxSize) :
    ht'.FreeList (l ++ (List.range' ht.maxSize (ht'.maxSize - ht.maxSize)).map Nat.cast) := by
  have hle := h.le
  have hnew {x : ℤ} : x ∈ (List.range' ht.maxSize (ht'.maxSize - ht.maxSize)).map Nat.cast ↔
      (ht.maxSize : ℤ) ≤ x ∧ x < ht'.maxSize := by
    rw [List.mem_map]
    constructor
    · rintro ⟨i, hi, rfl⟩
      rw [List.mem_range'_1] at hi
      omega
    · rintro ⟨hge, hx⟩
      exact ⟨x.toNat, List.mem_range'_1.mpr (by omega), Int.toNat_of_nonneg (by omega)⟩
  refine ⟨seg_append.mpr ⟨some (ht.maxSize : ℤ), ?_, ?_⟩, ?_, ?_⟩
  · rw [h.freelist]
    refine hl.chain.congr (fun x hx => ?_)
    have hx := hl.bounds x hx
    rw [h.ids _ (by omega)]
  · have hlinks : ∀ i, ht.maxSize ≤ i → i < ht.maxSize + (ht'.maxSize - ht.maxSize) →
        ht'.timerIds i = -(i + 1 : ℕ) := fun i hge hi => h.news i hge (by omega)
    have hseg := seg_range' ht.maxSize (ht'.maxSize - ht.maxSize) hlinks
    rwa [Nat.add_sub_cancel' hle] at hseg
  · refine List.nodup_append.mpr ⟨hl.nodup, ?_, ?_⟩
    · exact List.Nodup.map Nat.cast_injective List.nodup_range'
    · rintro x hx _ hy rfl
      have hx := hl.bounds x hx
      have hy := hnew.mp hy
      omega
  · intro x
    rw [List.mem_append, hnew, hl.mem, h.timerId]
    constructor
    · rintro (⟨hpos, hx, hfree⟩ | ⟨hge, hx⟩)
      · exact ⟨hpos, by omega, hfree⟩
      · refine ⟨by omega, hx, fun e heq => ?_⟩
        have := hlt e
        omega
    · rintro ⟨hpos, hx, hfree⟩
      rcases lt_or_ge x ht.maxSize with hlt | hge
      · exact .inl ⟨hpos, hlt, hfree⟩
      · exact .inr ⟨hge, hx⟩

end Grown

/-- An insertion that has to grow the heap gets the memory, and the ids stay below `INT_MAX`. -/
def Grows (ht : TimerHeap E) (memory : Realloc E) : Prop :=
  ht.maxSize ≤ ht.curSize + 2 → memory.isSome ∧ 2 * ht.maxSize < 2 ^ 31

/-- After the first line of `insert_node` there is room. -/
theorem Grows.room {memory : Realloc E} (h : ht.Grows memory) (hbound : ht.curSize + 2 ≤ ht.maxSize)
    (hsmall : ht.maxSize < 2 ^ 31) :
    ∃ ht', (if ht.maxSize ≤ ht.curSize + 2 then ht.growHeap memory else some ht) = some ht' ∧
      Grown ht ht' ∧ ht.curSize + 3 ≤ ht'.maxSize := by
  by_cases hfull : ht.maxSize ≤ ht.curSize + 2
  · obtain ⟨hmemory, hmax⟩ := h hfull
    obtain ⟨behind, rfl⟩ := Option.isSome_iff_exists.mp hmemory
    have hsize : ht.maxSize * 2 % 2 ^ 64 = ht.maxSize * 2 := Nat.mod_eq_of_lt (by omega)
    rw [if_pos hfull]
    refine ⟨_, rfl, ⟨rfl, ?_, ?_, ?_, ?_, ?_⟩, ?_⟩
    · dsimp only
      omega
    · dsimp only
      omega
    · exact fun i hi => if_pos hi
    · exact fun i hi => if_pos hi
    · intro i hge hi
      dsimp only at hi ⊢
      have hnext : int32 ((i + 1 : ℕ) : ℤ) = (i + 1 : ℕ) := int32_eq (by omega) (by omega)
      rw [if_neg (by omega), hnext, int32_eq (by omega) (by omega)]
    · dsimp only
      omega
  · rw [if_neg hfull]
    exact ⟨ht, rfl, ⟨rfl, le_rfl, hsmall, fun _ _ => rfl, fun _ _ => rfl, by omega⟩, by omega⟩

/-- The entries have been sifted into the first `n` slots. -/
theorem Inv.sifted (hn : n + 2 ≤ ht.maxSize) (hl : ht.FreeList l) (hzero : ht.timerIds 0 < 0)
    (hentries : ∀ e ∈ ht.running, (ht.timerValue e).Canonical ∧ ht.hasCb e = true)
    (hplaced : Placed ht' n ht.running) (horder : HeapOrder ht'.key n)
    (hsame : SameBut ht.running ht ht') : Inv { ht' with curSize := n } := by
  have hrunning : ht'.running = ht.running := by rw [running, running, hsame.timerId]
  constructor
  · change n + 2 ≤ ht'.maxSize
    rw [hsame.maxSize]
    exact hn
  · rw [← hrunning] at hplaced
    have hsized := hplaced.toSized
    refine ⟨hsized.mono hsized.slots le_rfl hsized.small (fun x hx => ⟨hx, rfl⟩), ?_, ?_⟩
    · exact hplaced.placed
    · exact hplaced.covered
  · exact horder
  · have hfree := hl.of_sameBut hsame (fun _ he => he)
    exact ⟨l, hfree.chain, hfree.nodup, hfree.mem⟩
  · change ht'.timerIds 0 < 0
    rw [hsame.ids 0 (fun e (he : 1 ≤ ht.timerId e) => by omega)]
    exact hzero
  · change ∀ e ∈ ht'.running, (ht'.timerValue e).Canonical ∧ ht'.hasCb e = true
    rw [hrunning, hsame.timerValue, hsame.hasCb]
    exact hentries

/-- The other fields of the entries do not matter, nor does the id of an entry that has none. -/
theorem Inv.frame (h : ht.Inv) (heq : ht' = { ht with id := ht'.id, timerId := ht'.timerId })
    (hid : ∀ x, ht'.timerId x = ht.timerId x ∨ ht'.timerId x < 1 ∧ ht.timerId x < 1) : ht'.Inv := by
  have hmax : ht'.maxSize = ht.maxSize := by rw [heq]
  have hcur : ht'.curSize = ht.curSize := by rw [heq]
  have hheap : ht'.heap = ht.heap := by rw [heq]
  have hids : ht'.timerIds = ht.timerIds := by rw [heq]
  have hvalue : ht'.timerValue = ht.timerValue := by rw [heq]
  have hcb : ht'.hasCb = ht.hasCb := by rw [heq]
  have hkey : ht'.key = ht.key := by rw [heq]; rfl
  have hlist : ht'.timerIdsFreelist = ht.timerIdsFreelist := by rw [heq]
  have hrunning : ht'.running = ht.running := by
    apply Set.ext
    intro x
    change 1 ≤ ht'.timerId x ↔ 1 ≤ ht.timerId x
    rcases hid x with hx | hx
    · rw [hx]
    · omega
  have hsame : ∀ x ∈ ht.running, ht'.timerId x = ht.timerId x := by
    intro x (hx : 1 ≤ ht.timerId x)
    rcases hid x with heq | hlt
    · exact heq
    · omega
  constructor
  · rw [hcur, hmax]
    exact h.bound
  · rw [hcur, hrunning]
    refine ⟨h.placed.toSized.mono ?_ hmax.ge ?_ (fun x hx => ⟨hx, hsame x hx⟩), ?_, ?_⟩
    · rw [hmax]
      exact h.placed.slots
    · rw [hmax]
      exact h.placed.small
    · intro i hi
      obtain ⟨x, hx, hxheap, hxid⟩ := h.placed.placed i hi
      refine ⟨x, hx, ?_, ?_⟩
      · rw [hheap]
        exact hxheap
      · rw [hids, hsame x hx]
        exact hxid
    · rw [hheap]
      exact h.placed.covered
  · rw [hkey, hcur]
    exact h.order
  · obtain ⟨l, hl⟩ := h.free
    refine ⟨l, ?_, hl.nodup, fun z => ?_⟩
    · rw [hids, hlist, hmax]
      exact hl.chain
    · rw [hl.mem, hmax]
      refine and_congr_right (fun hz => and_congr_right (fun _ => forall_congr' fun x => ?_))
      rcases hid x with hx | hx
      · rw [hx]
      · exact iff_of_true (by omega) (by omega)
  · rw [hids]
    exact h.zero
  · rw [hrunning, hvalue, hcb]
    exact h.entries

end Invariant

end TimerHeap

end Carrier.Common
