import Carrier.Common.Bitset
import Carrier.Lib.Run
import Mathlib.Data.Finset.Basic

/-! `common/ids_heap.c`: the round-robin id allocator over a bitset. The lock around each
operation is taken for granted, so its `-EDEADLK` exits are left out. -/
namespace Carrier.Common
open Carrier.Lib

structure IdsHeap where
  latestIndex : ℤ
  maxIndex : ℕ
  bitsetIds : Bitset

def idsHeapInit (maxIndex : ℕ) : IdsHeap where
  latestIndex := -1
  maxIndex := maxIndex
  bitsetIds := bitsetInit maxIndex

def idsHeapAlloc (h : IdsHeap) : IdsHeap × ℤ :=
  let frm := (h.latestIndex + 1).toNat % h.maxIndex
  let pos := bitsetNextClearBit h.bitsetIds frm
  let pos := if pos = -1 ∧ frm ≠ 0 then bitsetNextClearBit h.bitsetIds 0 else pos
  if pos ≠ -1 then
    ({ h with bitsetIds := (bitsetSet h.bitsetIds pos).1, latestIndex := pos }, pos + 1)
  else (h, pos)

def idsHeapFree (P : IntShift) (h : IdsHeap) (id : ℤ) : IdsHeap :=
  if bitsetIsset P h.bitsetIds (id - 1) ≠ 0 then
    { h with bitsetIds := (bitsetClear h.bitsetIds (id - 1)).1 }
  else h

/-- What `ids_heap_init` establishes and both operations keep. -/
structure IdsHeap.WF (h : IdsHeap) : Prop where
  max_pos : 1 ≤ h.maxIndex
  size_eq : h.bitsetIds.size = h.maxIndex
  latest_ge : -1 ≤ h.latestIndex

/-- The id `n + 1` is marked as taken. -/
def IdsHeap.marked (h : IdsHeap) (id : ℕ) : Prop := 1 ≤ id ∧ h.bitsetIds.isSet (id - 1) = true

instance (h : IdsHeap) (id : ℕ) : Decidable (h.marked id) :=
  inferInstanceAs (Decidable (_ ∧ _))

theorem idsHeapInit_wf {n : ℕ} (hn : 1 ≤ n) : (idsHeapInit n).WF := ⟨hn, rfl, le_rfl⟩

theorem idsHeapInit_marked (n id : ℕ) : ¬(idsHeapInit n).marked id := by
  rintro ⟨-, h⟩
  rw [idsHeapInit, bitsetInit_isSet] at h
  cases h

/-- Allocation finds a clear bit whenever there is one, whatever the starting point. -/
theorem idsHeapAlloc_spec {h : IdsHeap} (hw : h.WF) :
    (∃ p : ℕ, p < h.maxIndex ∧ h.bitsetIds.isSet p = false ∧
      idsHeapAlloc h =
        ({ h with bitsetIds := (bitsetSet h.bitsetIds p).1, latestIndex := p }, (p : ℤ) + 1)) ∨
    ((∀ j < h.maxIndex, h.bitsetIds.isSet j = true) ∧ idsHeapAlloc h = (h, -1)) := by
  obtain ⟨hmax, hsize, -⟩ := hw
  have hfrm : (h.latestIndex + 1).toNat % h.maxIndex < h.bitsetIds.size := by
    rw [hsize]
    exact Nat.mod_lt _ hmax
  have found : ∀ p : ℕ, (if bitsetNextClearBit h.bitsetIds
      ((h.latestIndex + 1).toNat % h.maxIndex) = -1 ∧ (h.latestIndex + 1).toNat % h.maxIndex ≠ 0
      then bitsetNextClearBit h.bitsetIds 0
      else bitsetNextClearBit h.bitsetIds ((h.latestIndex + 1).toNat % h.maxIndex)) = (p : ℤ) →
      idsHeapAlloc h =
        ({ h with bitsetIds := (bitsetSet h.bitsetIds p).1, latestIndex := p }, (p : ℤ) + 1) := by
    intro p hp
    have hne : (p : ℤ) ≠ -1 := by omega
    simp only [idsHeapAlloc, hp, if_pos hne]
  rcases bitsetNextClearBit_spec h.bitsetIds _ hfrm with ⟨p, hp, -, hlt, hclear, -⟩ | ⟨hp, hall⟩
  · left
    refine ⟨p, hsize ▸ hlt, hclear, found p ?_⟩
    rw [hp, if_neg (by omega)]
  by_cases hz : (h.latestIndex + 1).toNat % h.maxIndex = 0
  · right
    rw [hz] at hall
    refine ⟨fun j hj => hall j (Nat.zero_le _) (by omega), ?_⟩
    simp [idsHeapAlloc, hz, show bitsetNextClearBit h.bitsetIds 0 = -1 from hz ▸ hp]
  rcases bitsetNextClearBit_spec h.bitsetIds 0 (by omega) with ⟨p, hp0, -, hlt, hclear, -⟩ | ⟨hp0, hall0⟩
  · left
    refine ⟨p, hsize ▸ hlt, hclear, found p ?_⟩
    rw [if_pos ⟨hp, hz⟩, hp0]
  · right
    refine ⟨fun j hj => hall0 j (Nat.zero_le _) (by omega), ?_⟩
    simp [idsHeapAlloc, hp, hz, hp0]

/-- The search begins behind the latest id. -/
theorem idsHeapAlloc_next {h : IdsHeap} (hw : h.WF) {p : ℕ}
    (hp : (h.latestIndex + 1).toNat % h.maxIndex = p) (hclear : h.bitsetIds.isSet p = false) :
    idsHeapAlloc h =
      ({ h with bitsetIds := (bitsetSet h.bitsetIds p).1, latestIndex := p }, (p : ℤ) + 1) := by
  have hlt : p < h.bitsetIds.size := by
    rw [← hp, hw.size_eq]
    exact Nat.mod_lt _ hw.max_pos
  have hpos : bitsetNextClearBit h.bitsetIds p = (p : ℤ) := by
    rcases bitsetNextClearBit_spec h.bitsetIds p hlt with ⟨q, hq, hle, -, -, hleast⟩ | ⟨-, hall⟩
    · have hqp : q = p := by
        by_contra hne
        have := hleast p le_rfl (by omega)
        rw [hclear] at this
        cases this
      rw [hq, hqp]
    · have := hall p le_rfl hlt
      rw [hclear] at this
      cases this
  have hne : (p : ℤ) ≠ -1 := by omega
  simp only [idsHeapAlloc, hp, hpos, hne, false_and, if_false, ne_eq, not_false_eq_true, if_true]

theorem idsHeapAlloc_wf {h : IdsHeap} (hw : h.WF) :
    (idsHeapAlloc h).1.WF ∧ (idsHeapAlloc h).1.maxIndex = h.maxIndex := by
  rcases idsHeapAlloc_spec hw with ⟨p, -, -, ha⟩ | ⟨-, ha⟩
  · rw [ha]
    exact ⟨⟨hw.max_pos, by simp [hw.size_eq], by simp⟩, rfl⟩
  · rw [ha]
    exact ⟨hw, rfl⟩

/-- An allocation takes an id that was free, or finds all of them taken. -/
theorem idsHeapAlloc_marked {h : IdsHeap} (hw : h.WF) :
    (∃ c : ℕ, 1 ≤ c ∧ c ≤ h.maxIndex ∧ (idsHeapAlloc h).2 = c ∧ ¬h.marked c ∧
      ∀ id, (idsHeapAlloc h).1.marked id ↔ id = c ∨ h.marked id) ∨
    (idsHeapAlloc h = (h, -1) ∧ ∀ id, 1 ≤ id → id ≤ h.maxIndex → h.marked id) := by
  rcases idsHeapAlloc_spec hw with ⟨p, hp, hclear, ha⟩ | ⟨hall, ha⟩
  · have hlt : p < h.bitsetIds.size := hw.size_eq ▸ hp
    refine .inl ⟨p + 1, by omega, by omega, by rw [ha]; push_cast; rfl, ?_, fun id => ?_⟩
    · intro hm
      have hset := hm.2
      rw [Nat.add_sub_cancel, hclear] at hset
      cases hset
    · rw [ha]
      simp only [IdsHeap.marked, bitsetSet_isSet _ hlt, Bool.or_eq_true, decide_eq_true_eq]
      constructor
      · rintro ⟨h1, he | he⟩
        · exact .inl (by omega)
        · exact .inr ⟨h1, he⟩
      · rintro (rfl | ⟨h1, he⟩)
        · exact ⟨by omega, .inl (by omega)⟩
        · exact ⟨h1, .inr he⟩
  · exact .inr ⟨ha, fun id h1 hle => ⟨h1, hall (id - 1) (by omega)⟩⟩

/-- Freeing gives up the id alone, and not even that if its bit is not found set. -/
theorem idsHeapFree_marked (P : IntShift) {h : IdsHeap} {id : ℕ} (hm : h.marked id) (i : ℕ) :
    (idsHeapFree P h id).marked i ↔
      h.marked i ∧ (i = id → bitsetIsset P h.bitsetIds ((id - 1 : ℕ) : ℤ) = 0) := by
  obtain ⟨h1, hset⟩ := hm
  have hlt := Bitset.isSet_lt hset
  have hcast : (id : ℤ) - 1 = ((id - 1 : ℕ) : ℤ) := by omega
  unfold idsHeapFree
  rw [hcast]
  split_ifs with hbit
  · simp only [IdsHeap.marked, bitsetClear_isSet _ hlt, Bool.and_eq_true, Bool.not_eq_true',
      decide_eq_false_iff_not]
    constructor
    · rintro ⟨hi, hne, he⟩
      exact ⟨⟨hi, he⟩, fun heq => absurd (by omega) hne⟩
    · rintro ⟨⟨hi, he⟩, hno⟩
      exact ⟨hi, fun heq => hbit (hno (by omega)), he⟩
  · rw [not_not] at hbit
    exact ⟨fun hi => ⟨hi, fun _ => hbit⟩, fun hi => hi.1⟩

theorem idsHeapFree_wf (P : IntShift) {h : IdsHeap} (hw : h.WF) (id : ℤ) :
    (idsHeapFree P h id).WF ∧ (idsHeapFree P h id).maxIndex = h.maxIndex := by
  unfold idsHeapFree
  split_ifs
  · exact ⟨⟨hw.max_pos, by simp [hw.size_eq], hw.latest_ge⟩, rfl⟩
  · exact ⟨hw, rfl⟩

/-- `ids_heap_free` of a marked id clears exactly that id, provided its bit lies in the half of
the word the narrow mask can test. -/
theorem idsHeapFree_spec (P : IntShift) {h : IdsHeap} {id : ℕ} (hm : h.marked id)
    (hid : (id - 1) % 64 < 32) :
    idsHeapFree P h id = { h with bitsetIds := (bitsetClear h.bitsetIds ((id - 1 : ℕ) : ℤ)).1 } := by
  obtain ⟨h1, hset⟩ := hm
  have hcast : (id : ℤ) - 1 = ((id - 1 : ℕ) : ℤ) := by omega
  rw [idsHeapFree, hcast, bitsetIsset_of_isSet P _ hset hid, if_pos (by norm_num)]

theorem idsHeapFree_low (P : IntShift) {h : IdsHeap} {id : ℕ} (hm : h.marked id)
    (hid : (id - 1) % 64 < 32) (i : ℕ) :
    (idsHeapFree P h id).marked i ↔ h.marked i ∧ i ≠ id := by
  rw [idsHeapFree_marked P hm, bitsetIsset_of_isSet P h.bitsetIds hm.2 hid]
  simp

inductive IdsOp
  | alloc
  | free (id : ℕ)
  deriving DecidableEq

/-- The heap, with the set of ids handed out and not yet given back. -/
structure IdsRun where
  heap : IdsHeap
  live : Finset ℕ

def IdsRun.init (maxIndex : ℕ) : IdsRun := ⟨idsHeapInit maxIndex, ∅⟩

/-- Only ids currently allocated may be freed. -/
def idsStep (P : IntShift) (s : IdsRun) : IdsOp → Option IdsRun
  | .alloc =>
    let r := idsHeapAlloc s.heap
    some ⟨r.1, if 0 < r.2 then insert r.2.toNat s.live else s.live⟩
  | .free id => if id ∈ s.live then some ⟨idsHeapFree P s.heap id, s.live.erase id⟩ else none

/-- The allocator is right in this state: the set bits are the live ids, and the next
allocation returns a free id of the range, failing exactly when there is none. -/
structure IdsRun.Correct (s : IdsRun) : Prop where
  bits : ∀ id, s.heap.marked id ↔ id ∈ s.live
  range : ∀ r, (idsHeapAlloc s.heap).2 = r → r ≠ -1 →
    1 ≤ r ∧ r ≤ s.heap.maxIndex ∧ r.toNat ∉ s.live
  fail : (idsHeapAlloc s.heap).2 = -1 ↔ ∀ id, 1 ≤ id → id ≤ s.heap.maxIndex → id ∈ s.live

/-- The invariant of runs: well formed, and bits and live ids agree. -/
private def Agree (s : IdsRun) : Prop := s.heap.WF ∧ ∀ id, s.heap.marked id ↔ id ∈ s.live

private theorem Agree.correct {s : IdsRun} (h : Agree s) : s.Correct := by
  obtain ⟨hw, hb⟩ := h
  rcases idsHeapAlloc_marked hw with ⟨c, h1, hmax, hc, hfree, -⟩ | ⟨hnone, hall⟩
  · have hlive : c ∉ s.live := mt (hb c).mpr hfree
    refine ⟨hb, ?_, ?_⟩
    · rintro r rfl -
      rw [hc, Int.toNat_natCast]
      exact ⟨by omega, by omega, hlive⟩
    · rw [hc]
      refine ⟨fun he => by omega, fun hl => ?_⟩
      exact absurd (hl c h1 hmax) hlive
  · refine ⟨hb, fun r hr hne => ?_, ?_⟩
    · rw [hnone] at hr
      exact absurd hr.symm hne
    · rw [hnone]
      exact ⟨fun _ id h1 hle => (hb id).mp (hall id h1 hle), fun _ => rfl⟩

private theorem Agree.alloc {s s' : IdsRun} {P : IntShift} (h : Agree s)
    (hs : idsStep P s .alloc = some s') : Agree s' := by
  obtain ⟨hw, hb⟩ := h
  cases Option.some.inj hs
  refine ⟨(idsHeapAlloc_wf hw).1, fun id => ?_⟩
  rcases idsHeapAlloc_marked hw with ⟨n, h1, -, hn, -, hmarked⟩ | ⟨hnone, -⟩
  · have hpos : (0 : ℤ) < n := by omega
    dsimp only
    rw [hn, if_pos hpos, Int.toNat_natCast, Finset.mem_insert, hmarked, hb]
  · rw [hnone]
    exact hb id

private theorem Agree.free {s s' : IdsRun} {P : IntShift} {id : ℕ} (h : Agree s)
    (hid : (id - 1) % 64 < 32) (hs : idsStep P s (.free id) = some s') : Agree s' := by
  obtain ⟨hw, hb⟩ := h
  simp only [idsStep] at hs
  split_ifs at hs with hl
  cases Option.some.inj hs
  refine ⟨(idsHeapFree_wf P hw id).1, fun i => ?_⟩
  rw [idsHeapFree_low P ((hb id).mpr hl) hid, hb, Finset.mem_erase, and_comm]

private theorem Agree.init {n : ℕ} (hn : 1 ≤ n) : Agree (.init n) := by
  refine ⟨idsHeapInit_wf hn, fun id => ?_⟩
  simp [IdsRun.init, idsHeapInit_marked]

private theorem Agree.step {s s' : IdsRun} {P : IntShift} {op : IdsOp} (h : Agree s)
    (hop : ∀ id, op = .free id → (id - 1) % 64 < 32) (hs : idsStep P s op = some s') :
    Agree s' := by
  cases op with
  | alloc => exact h.alloc hs
  | free id => exact h.free (hop id rfl) hs

private theorem Agree.run {P : IntShift} {s s' : IdsRun} {ops : List IdsOp} (h : Agree s)
    (hops : ∀ id, IdsOp.free id ∈ ops → (id - 1) % 64 < 32)
    (hs : exec (idsStep P) s ops = some s') : Agree s' := by
  refine exec_invariant_along (fun _ _ _ hI hC hstep => hI.step hC hstep) h
    (along_of_mem (C := fun _ op => ∀ id, op = .free id → (id - 1) % 64 < 32) ?_ s) hs
  rintro op hop - id rfl
  exact hops id hop

private theorem Agree.step_eq {P Q : IntShift} {s : IdsRun} {op : IdsOp} (h : Agree s)
    (hop : ∀ id, op = .free id → (id - 1) % 64 < 32) : idsStep P s op = idsStep Q s op := by
  cases op with
  | alloc => rw [idsStep, idsStep]
  | free id =>
    by_cases hl : id ∈ s.live
    · have hm := (h.2 id).mpr hl
      have hP := idsHeapFree_spec P hm (hop id rfl)
      have hQ := idsHeapFree_spec Q hm (hop id rfl)
      rw [idsStep, idsStep, if_pos hl, if_pos hl, hP, hQ]
    · rw [idsStep, idsStep, if_neg hl, if_neg hl]

/-- As long as only low offsets are freed, the undefined shifts are never reached and the run
is the same on every target. -/
private theorem Agree.run_eq {P Q : IntShift} {s : IdsRun} {ops : List IdsOp} (h : Agree s)
    (hops : ∀ id, IdsOp.free id ∈ ops → (id - 1) % 64 < 32) :
    exec (idsStep P) s ops = exec (idsStep Q) s ops := by
  induction ops generalizing s with
  | nil => rw [exec_nil, exec_nil]
  | cons op ops ih =>
    have hop : ∀ id, op = .free id → (id - 1) % 64 < 32 := by
      rintro id rfl
      exact hops id List.mem_cons_self
    rw [exec_cons, exec_cons, h.step_eq (Q := Q) hop]
    cases hm : idsStep Q s op with
    | none => rw [Option.bind_none, Option.bind_none]
    | some m =>
      rw [Option.bind_some, Option.bind_some]
      exact ih (h.step hop hm) (fun id hmem => hops id (List.mem_cons_of_mem _ hmem))

/-- A run frees only ids whose bit has an offset below 32 in its word. -/
def FreesLow (ops : List IdsOp) : Prop := ∀ id, IdsOp.free id ∈ ops → (id - 1) % 64 < 32

private theorem exists_first_high {ops : List IdsOp} (h : ¬FreesLow ops) :
    ∃ pre id post, ops = pre ++ IdsOp.free id :: post ∧ 32 ≤ (id - 1) % 64 ∧ FreesLow pre := by
  induction ops with
  | nil => exact absurd (fun id hmem => by cases hmem) h
  | cons op ops ih =>
    by_cases hop : ∃ id, op = .free id ∧ 32 ≤ (id - 1) % 64
    · obtain ⟨id, rfl, hid⟩ := hop
      exact ⟨[], id, ops, rfl, hid, fun _ hmem => by cases hmem⟩
    · have hhead : ∀ id, op = .free id → (id - 1) % 64 < 32 := fun id he => by
        by_contra hge
        exact hop ⟨id, he, by omega⟩
      have htail : ¬FreesLow ops := fun hl => h fun id hmem => by
        rcases List.mem_cons.mp hmem with he | he
        · exact hhead id he.symm
        · exact hl id he
      obtain ⟨pre, id, post, rfl, hid, hpre⟩ := ih htail
      refine ⟨op :: pre, id, post, rfl, hid, fun i hmem => ?_⟩
      rcases List.mem_cons.mp hmem with he | he
      · exact hhead i he.symm
      · exact hpre i he

/-- The narrow test is the only defect: every state of a run is right on every target exactly
when the run never frees an id whose bit lies in the upper half of its word. -/
theorem idsHeap_correct_iff {n : ℕ} (hn : 1 ≤ n) (ops : List IdsOp)
    (hrun : ∃ P s, exec (idsStep P) (.init n) ops = some s) :
    (∀ P pre s, pre <+: ops → exec (idsStep P) (.init n) pre = some s → s.Correct) ↔
      FreesLow ops := by
  constructor
  · intro hall
    by_contra hlow
    -- Cut the run at its first free of a high offset.
    obtain ⟨pre, id, post, rfl, hid, hpre⟩ := exists_first_high hlow
    obtain ⟨P, s, hs⟩ := hrun
    obtain ⟨m, hm, hrest⟩ := exec_append_eq_some.mp hs
    obtain ⟨m', hm', -⟩ := exec_cons_eq_some.mp hrest
    have hI : Agree m := (Agree.init hn).run hpre hm
    have hl : id ∈ m.live := by
      simp only [idsStep] at hm'
      split_ifs at hm' with hl
      exact hl
    have hmark := (hI.2 id).mpr hl
    have hzero : idsHeapFree .zeroWide m.heap id = m.heap := by
      have h1 := hmark.1
      have hcast : (id : ℤ) - 1 = ((id - 1 : ℕ) : ℤ) := by omega
      rw [idsHeapFree, hcast, bitsetIsset_zeroWide _ (Bitset.isSet_lt hmark.2) hid]
      rfl
    have hex : exec (idsStep .zeroWide) (.init n) (pre ++ [.free id]) =
        some ⟨m.heap, m.live.erase id⟩ := by
      rw [exec_append, (Agree.init hn).run_eq (Q := P) hpre, hm, Option.bind_some, exec_cons,
        idsStep, if_pos hl, hzero]
      rfl
    have hc := hall .zeroWide _ _ ⟨post, by simp⟩ hex
    exact Finset.notMem_erase id m.live ((hc.bits id).mp hmark)
  · intro hlow P pre s hpre hs
    exact ((Agree.init hn).run (fun id hmem => hlow id (hpre.subset hmem)) hs).correct

theorem idsHeap_correct_iff_low :
    FreesLow [.alloc, .alloc, .free 2] ∧
      ((∀ P pre s, pre <+: [.alloc, .alloc, .free 2] →
        exec (idsStep P) (.init 256) pre = some s → s.Correct) ↔
          FreesLow [.alloc, .alloc, .free 2]) := by
  have hlow : FreesLow [.alloc, .alloc, .free 2] := by
    intro id hmem
    obtain rfl : id = 2 := by simpa using hmem
    norm_num
  refine ⟨hlow, idsHeap_correct_iff (by norm_num) _ ⟨.modWidth, ?_⟩⟩
  exact Option.isSome_iff_exists.mp (by decide +kernel)

/-- Thirty-three allocations, then the first and the last id are given back. With the shift
count taken modulo 32 the test for bit 32 looks at bit 0, which is clear by then. -/
theorem idsHeap_free_33_keeps_bit :
    ∃ s, exec (idsStep .modWidth) (.init 64)
        (List.replicate 33 .alloc ++ [.free 1, .free 33]) = some s ∧
      33 ∉ s.live ∧ s.heap.marked 33 ∧ ¬s.Correct := by
  have hany : (exec (idsStep .modWidth) (.init 64)
      (List.replicate 33 .alloc ++ [.free 1, .free 33])).any
        (fun s => decide (33 ∉ s.live ∧ s.heap.marked 33)) = true := by decide +kernel
  obtain ⟨s, hs, hd⟩ := (Option.any_eq_true _ _).mp hany
  obtain ⟨hlive, hmark⟩ := of_decide_eq_true hd
  exact ⟨s, hs, hlive, hmark, fun hc => hlive ((hc.bits 33).mp hmark)⟩

end Carrier.Common
