import Carrier.Common.TimerHeapInvariant

/-! What the calls do to a timer heap, and its invariant in every run of them. -/
namespace Carrier.Common
open Carrier.Lib

namespace TimerHeap

variable {E : Type*} {ht ht' : TimerHeap E} {l : List ℤ} {n s : ℕ} {S : Set E}
  {e : E} {x y : ℤ} {t : TimeVal}

theorem create_inv {mem : TimerHeap E} (hmem : ∀ e, mem.timerId e < 1) {size : ℕ}
    (hsize : size + 2 < 2 ^ 31) : (timerHeapCreate size mem).Inv := by
  have hmax : (timerHeapCreate size mem).maxSize = size + 2 := Nat.mod_eq_of_lt (by omega)
  have hstopped : ∀ e, e ∉ (timerHeapCreate size mem).running :=
    fun e (he : 1 ≤ mem.timerId e) => absurd he (by have := hmem e; omega)
  have hids : ∀ i < size + 2, (timerHeapCreate size mem).timerIds i = -(i + 1 : ℕ) := by
    intro i hi
    have hnext : int32 ((i + 1 : ℕ) : ℤ) = (i + 1 : ℕ) := int32_eq (by omega) (by omega)
    change (if i < (timerHeapCreate size mem).maxSize then int32 (-int32 (i + 1 : ℕ)) else _) = _
    rw [hmax, if_pos hi, hnext, int32_eq (by omega) (by omega)]
  have hcur : (timerHeapCreate size mem).curSize = 0 := rfl
  constructor
  · rw [hcur, hmax]
    omega
  · refine ⟨⟨?_, ?_, ?_, ?_, ?_⟩, ?_, ?_⟩
    · rw [hcur]
      exact Nat.zero_le _
    · rw [hmax]
      exact hsize
    · exact fun e he => absurd he (hstopped e)
    · exact fun e he => absurd he (hstopped e)
    · exact fun e he => absurd he (hstopped e)
    · rw [hcur]
      exact fun i hi => absurd hi (Nat.not_lt_zero i)
    · exact fun e he => absurd he (hstopped e)
  · rw [hcur]
    exact fun i _ hi => absurd hi (Nat.not_lt_zero i)
  · refine ⟨(List.range' 1 (size + 1)).map Nat.cast, ?_, ?_, fun x => ?_⟩
    · have hlinks : ∀ i, 1 ≤ i → i < 1 + (size + 1) →
          (timerHeapCreate size mem).timerIds i = -(i + 1 : ℕ) := fun i _ hi => hids i (by omega)
      have hseg := seg_range' 1 (size + 1) hlinks
      rw [hmax, show size + 2 = 1 + (size + 1) by omega]
      exact hseg
    · exact List.Nodup.map Nat.cast_injective List.nodup_range'
    · rw [hmax, List.mem_map]
      constructor
      · rintro ⟨i, hi, rfl⟩
        rw [List.mem_range'_1] at hi
        refine ⟨by omega, by omega, fun e (heq : mem.timerId e = i) => ?_⟩
        have := hmem e
        omega
      · rintro ⟨hpos, hlt, -⟩
        exact ⟨x.toNat, List.mem_range'_1.mpr (by omega), Int.toNat_of_nonneg (by omega)⟩
  · rw [hids 0 (by omega)]
    omega
  · exact fun e he => absurd he (hstopped e)

theorem mem_running_iff : e ∈ ht.running ↔ ht.timerEntryRunning e = true := by
  change 1 ≤ ht.timerId e ↔ decide (1 ≤ ht.timerId e) = true
  rw [decide_eq_true_eq]

theorem Inv.running_eq_empty (h : ht.Inv) (hcur : ht.curSize = 0) : ht.running = ∅ := by
  apply Set.eq_empty_of_forall_notMem
  intro e he
  obtain ⟨i, hi, -⟩ := h.placed.covered e he
  omega

theorem Inv.root (h : ht.Inv) (hcur : ht.curSize ≠ 0) :
    ∃ e ∈ ht.running, ht.heap 0 = some e ∧ ht.readHeap 0 = some e ∧
      ∀ e' ∈ ht.running, (ht.timerValue e).key ≤ (ht.timerValue e').key := by
  have hbound := h.bound
  obtain ⟨e, he, hheap, -⟩ := h.placed.placed 0 (by omega)
  have hread : ht.readHeap 0 = some e := by rw [readHeap, if_pos (by omega), hheap]
  refine ⟨e, he, hheap, hread, fun e' he' => ?_⟩
  obtain ⟨i, hi, hheap'⟩ := h.placed.covered e' he'
  have hle := h.order.root_le hi
  rwa [key, key, hheap, hheap'] at hle

/-- The delay is the time until the first of the entries, or the marker. -/
def DelayAt (ht : TimerHeap E) (now delay : TimeVal) : Prop :=
  (ht.running = ∅ ∧ delay = noDelay) ∨ ∃ e ∈ ht.running,
    (∀ e' ∈ ht.running, (ht.timerValue e).toMsec ≤ (ht.timerValue e').toMsec) ∧
    delay.toMsec = max 0 ((ht.timerValue e).toMsec - now.toMsec) ∧ delay.Canonical

theorem Inv.pollEnd (h : ht.Inv) (poll : Poll) :
    ∃ delay, ht.pollEnd poll = some (if poll.nextDelay then some delay else none) ∧
      ht.DelayAt poll.now delay := by
  unfold TimerHeap.pollEnd
  by_cases hcur : ht.curSize = 0
  · refine ⟨noDelay, ?_, .inl ⟨h.running_eq_empty hcur, rfl⟩⟩
    rw [if_neg (fun hboth => hboth.1 hcur)]
  · obtain ⟨e, he, -, hread, hfirst⟩ := h.root hcur
    refine ⟨_, ?_, .inr ⟨e, he, fun e' he' => ?_, TimeVal.sub_clamped (ht.timerValue e) poll.now rfl⟩⟩
    · by_cases hdelay : poll.nextDelay = true
      · rw [if_pos ⟨hcur, hdelay⟩, hread, if_pos hdelay]
        rfl
      · rw [if_neg (fun hboth => hdelay hboth.2), if_neg hdelay, if_neg hdelay]
    · exact ((h.entries e he).1.key_le_iff (h.entries e' he').1).mp (hfirst e' he')

variable [DecidableEq E]

section Schedule

/-- An entry with the id `x` from the freelist, and its expiry. -/
def entered (ht : TimerHeap E) (e : E) (x y : ℤ) (t : TimeVal) : TimerHeap E :=
  { ht with
    timerIdsFreelist := y
    timerId := Function.update ht.timerId e x
    timerValue := Function.update ht.timerValue e t }

theorem entered_running (hx : 1 ≤ x) : (ht.entered e x y t).running = insert e ht.running := by
  apply Set.ext
  intro e'
  change 1 ≤ Function.update ht.timerId e x e' ↔ e' = e ∨ 1 ≤ ht.timerId e'
  by_cases heq : e' = e
  · subst heq
    rw [Function.update_self]
    exact iff_of_true hx (.inl rfl)
  · rw [Function.update_of_ne heq]
    exact (or_iff_right heq).symm

theorem FreeList.pop (h : ht.FreeList (x :: l)) (hmax : 1 ≤ ht.maxSize)
    (hsmall : ht.maxSize < 2 ^ 31) (he : e ∉ ht.running) (t : TimeVal) :
    ∃ y, ht.popFreelist = some ({ ht with timerIdsFreelist := y }, x) ∧
      (ht.entered e x y t).FreeList l := by
  obtain ⟨hpos, hlt, hfree⟩ := (h.mem x).mp List.mem_cons_self
  obtain ⟨hx, hchain⟩ := h.chain
  have hx : ht.timerIdsFreelist = x := Option.some.inj hx
  have hnext := chain_head hchain (by exact_mod_cast hmax)
    (fun z hz => h.bounds z (List.mem_cons_of_mem _ hz))
  dsimp only at hnext
  have hnot : x ∉ l := (List.nodup_cons.mp h.nodup).1
  refine ⟨-ht.timerIds x.toNat, ?_, ⟨hchain, (List.nodup_cons.mp h.nodup).2, fun z => ?_⟩⟩
  · rw [popFreelist, hx, readId, if_pos ⟨by omega, hlt⟩, Option.map_some,
      int32_eq (by omega) (by omega)]
  · change z ∈ l ↔ 1 ≤ z ∧ z < ht.maxSize ∧ ∀ e', Function.update ht.timerId e x e' ≠ z
    constructor
    · intro hz
      obtain ⟨hz1, hz2, hunused⟩ := (h.mem z).mp (List.mem_cons_of_mem _ hz)
      refine ⟨hz1, hz2, fun e' => ?_⟩
      by_cases heq : e' = e
      · rw [heq, Function.update_self]
        exact fun hxz => hnot (hxz ▸ hz)
      · rw [Function.update_of_ne heq]
        exact hunused e'
    · rintro ⟨hz1, hz2, hunused⟩
      have hzx : z ≠ x := by
        have := hunused e
        rw [Function.update_self] at this
        exact this.symm
      have hold : ∀ e', ht.timerId e' ≠ z := by
        intro e'
        by_cases heq : e' = e
        · intro hid
          exact he (show 1 ≤ ht.timerId e by rw [← heq, hid]; exact hz1)
        · have := hunused e'
          rwa [Function.update_of_ne heq] at this
      exact List.mem_of_ne_of_mem hzx ((h.mem z).mpr ⟨hz1, hz2, hold⟩)

/-- The entry is to go behind the others. -/
theorem Inv.entered (h : ht.Inv) (he : e ∉ ht.running) (hpos : 1 ≤ x) (hlt : x < ht.maxSize)
    (hfree : ∀ e', ht.timerId e' ≠ x) (y : ℤ) (t : TimeVal) :
    Sifting (ht.entered e x y t) (ht.curSize + 1) ht.curSize e (insert e ht.running) ∧
      ∀ i < ht.curSize, (ht.entered e x y t).key i = ht.key i := by
  have hbound := h.bound
  have hne : ∀ e' ∈ ht.running, e' ≠ e := fun e' he' heq => he (heq ▸ he')
  have hid : ∀ e', e' ≠ e → (ht.entered e x y t).timerId e' = ht.timerId e' :=
    fun e' hne => Function.update_of_ne hne _ _
  have hself : (ht.entered e x y t).timerId e = x := Function.update_self _ _ _
  refine ⟨⟨⟨?_, h.placed.small, ?_, ?_, ?_⟩, Nat.lt_succ_self _, Set.mem_insert _ _, ?_, ?_⟩, ?_⟩
  · change ht.curSize + 1 ≤ ht.maxSize
    omega
  · rintro e' (rfl | he')
    · rw [hself]
      exact hpos
    · rw [hid e' (hne e' he')]
      exact h.placed.id_pos e' he'
  · rintro e' (rfl | he')
    · rw [hself]
      exact hlt
    · rw [hid e' (hne e' he')]
      exact h.placed.id_lt e' he'
  · rintro e₁ (rfl | he₁) e₂ (rfl | he₂)
    · exact fun _ => rfl
    · rw [hself, hid e₂ (hne e₂ he₂)]
      exact fun heq => absurd heq.symm (hfree e₂)
    · rw [hself, hid e₁ (hne e₁ he₁)]
      exact fun heq => absurd heq (hfree e₁)
    · rw [hid e₁ (hne e₁ he₁), hid e₂ (hne e₂ he₂)]
      exact h.placed.id_inj e₁ he₁ e₂ he₂
  · intro i hi his
    obtain ⟨e', he', hheap, hslot⟩ := h.placed.placed i (by omega)
    refine ⟨e', Set.mem_insert_of_mem _ he', hne e' he', hheap, ?_⟩
    rw [hid e' (hne e' he')]
    exact hslot
  · rintro e' (rfl | he') hne'
    · exact absurd rfl hne'
    · obtain ⟨i, hi, hheap⟩ := h.placed.covered e' he'
      exact ⟨i, by omega, by omega, hheap⟩
  · intro i hi
    obtain ⟨e', he', hheap, -⟩ := h.placed.placed i hi
    change ((ht.heap i).elim _ (Function.update ht.timerValue e t)).key = ht.key i
    rw [TimerHeap.key, hheap, Option.elim_some, Option.elim_some,
      Function.update_of_ne (hne e' he')]

/-- `schedule_entry` of an entry that does not run. -/
theorem Inv.scheduleEntry (h : ht.Inv) (he : e ∉ ht.running) (hcb : ht.hasCb e = true)
    (htime : t.Canonical) {memory : Realloc E} (hgrows : ht.Grows memory) :
    ∃ ht', ht.scheduleEntry e t memory = some (ht', 0) ∧ ht'.Inv ∧
      ht'.running = insert e ht.running ∧
      ht'.timerValue = Function.update ht.timerValue e t := by
  have hbound := h.bound
  have hsmall := h.placed.small
  obtain ⟨l, hl⟩ := h.free
  obtain ⟨x, l, rfl⟩ := List.exists_cons_of_ne_nil (h.free_ne_nil hl)
  obtain ⟨hpos, hlt, hfree⟩ := (hl.mem x).mp List.mem_cons_self
  obtain ⟨y, hpop, hrest⟩ := hl.pop (by omega) hsmall he t
  obtain ⟨hsift, hkey⟩ := h.entered he hpos hlt hfree y t
  have hrunning : (ht.entered e x y t).running = insert e ht.running := entered_running hpos
  set ht₁ := ht.entered e x y t with hht₁
  -- the arrays grow when there is no room left
  have hgrows₁ : ht₁.Grows memory := hgrows
  obtain ⟨ht₂, hroom, hgrown, hsize⟩ := hgrows₁.room hbound hsmall
  have hids : ∀ e', ht₁.timerId e' < ht₁.maxSize := by
    intro e'
    by_cases hrun : e' ∈ insert e ht.running
    · exact hsift.id_lt e' hrun
    · rw [← hrunning] at hrun
      have hstopped : ht₁.timerId e' < 1 := not_le.mp hrun
      change ht₁.timerId e' < ht.maxSize
      omega
  have hfree₂ := hgrown.freeList hrest hids (show 1 ≤ ht.maxSize by omega)
  have hsift₂ := hgrown.sifting hsift
  -- the entry rises from the slot behind the others
  have horder : HeapOrder ht₂.key ht.curSize := by
    refine h.order.congr (fun i hi => ?_)
    rw [hgrown.key (show i < ht.maxSize by omega), hkey i hi]
  obtain ⟨hhole, habove⟩ := horder.behind (x := (ht₂.timerValue e).key)
  obtain ⟨ht₃, hup, hplaced, horder₃, hsame⟩ :=
    hsift₂.reheapUp hhole habove (Nat.lt_add_one ht.curSize)
  have hid₃ : ht₃.timerId = ht₁.timerId := hsame.timerId.trans hgrown.timerId
  have hvalue₃ : ht₃.timerValue = ht₁.timerValue := hsame.timerValue.trans hgrown.timerValue
  have hrunning₃ : ht₃.running = insert e ht.running := by
    rw [← hrunning, running, running, hid₃]
  refine ⟨{ ht₃ with curSize := ht.curSize + 1 }, ?_, ?_, hrunning₃, hvalue₃⟩
  · have hcur : ht₂.curSize = ht.curSize := hgrown.curSize
    have hinsert : ht₁.insertNode e memory = some { ht₃ with curSize := ht.curSize + 1 } := by
      rw [insertNode, hroom, Option.bind_some, hcur, hup, Option.map_some]
    rw [TimerHeap.scheduleEntry, if_pos (by omega), hpop, Option.bind_some]
    exact congrArg (Option.map fun ht => (ht, (0 : ℤ))) hinsert
  · have hrunning₂ : ht₂.running = insert e ht.running := by
      rw [← hrunning, running, running, hgrown.timerId]
    rw [← hrunning₂] at hplaced hsame
    refine Inv.sifted hsize hfree₂ ?_ ?_ hplaced horder₃ hsame
    · rw [hgrown.ids 0 (show 0 < ht.maxSize by omega)]
      exact h.zero
    · rw [hrunning₂, hgrown.timerValue, hgrown.hasCb]
      rintro e' (rfl | he')
      · change (Function.update ht.timerValue e' t e').Canonical ∧ ht.hasCb e' = true
        rw [Function.update_self]
        exact ⟨htime, hcb⟩
      · change (Function.update ht.timerValue e t e').Canonical ∧ ht.hasCb e' = true
        rw [Function.update_of_ne (fun heq : e' = e => he (heq ▸ he'))]
        exact h.entries e' he'

end Schedule

section Remove

/-- A heap after the first lines of `remove_node`. -/
def stopped (ht : TimerHeap E) (e : E) (ids : ℕ → ℤ) : TimerHeap E :=
  { ht with
    curSize := ht.curSize - 1
    timerIds := ids
    timerIdsFreelist := ht.timerId e
    timerId := Function.update ht.timerId e (-1) }

theorem stopped_running (ids : ℕ → ℤ) : (ht.stopped e ids).running = ht.running \ {e} := by
  apply Set.ext
  intro e'
  change 1 ≤ Function.update ht.timerId e (-1) e' ↔ 1 ≤ ht.timerId e' ∧ e' ≠ e
  by_cases heq : e' = e
  · rw [heq, Function.update_self]
    exact iff_of_false (by omega) (fun h => h.2 rfl)
  · rw [Function.update_of_ne heq]
    exact (and_iff_left heq).symm

/-- `push_freelist` of the id of an entry that stops. -/
theorem FreeList.push (h : ht.FreeList l) (hsized : Sized ht n ht.running) (he : e ∈ ht.running)
    (hmax : 1 ≤ ht.maxSize) :
    ∃ ids, ht.pushFreelist (ht.timerId e) =
        some { ht with timerIds := ids, timerIdsFreelist := ht.timerId e } ∧
      (∀ i, i ≠ (ht.timerId e).toNat → ids i = ht.timerIds i) ∧
      (ht.stopped e ids).FreeList (ht.timerId e :: l) := by
  have hpos := hsized.id_pos e he
  have hlt := hsized.id_lt e he
  have hsmall := hsized.small
  have hhead := chain_head h.chain (by exact_mod_cast hmax) h.bounds
  have hnot : ht.timerId e ∉ l := fun hmem => ((h.mem _).mp hmem).2.2 e rfl
  refine ⟨Function.update ht.timerIds (ht.timerId e).toNat (-ht.timerIdsFreelist), ?_, ?_, ?_⟩
  · rw [pushFreelist, writeId, if_pos ⟨by omega, hlt⟩, Option.map_some,
      int32_eq (by omega) (by omega)]
  · exact fun i hi => Function.update_of_ne hi _ _
  · refine ⟨⟨rfl, ?_⟩, List.nodup_cons.mpr ⟨hnot, h.nodup⟩, fun z => ?_⟩
    · dsimp only [stopped]
      rw [Function.update_self, neg_neg]
      refine h.chain.congr (fun z hz => ?_)
      have hz1 := h.bounds z hz
      have hne : z ≠ ht.timerId e := fun heq => hnot (heq ▸ hz)
      rw [Function.update_of_ne (by omega)]
    · change z ∈ ht.timerId e :: l ↔
        1 ≤ z ∧ z < ht.maxSize ∧ ∀ e', Function.update ht.timerId e (-1) e' ≠ z
      rw [List.mem_cons, h.mem]
      constructor
      · rintro (rfl | ⟨hz1, hz2, hunused⟩)
        · refine ⟨hpos, hlt, fun e' hid => ?_⟩
          by_cases heq : e' = e
          · rw [heq, Function.update_self] at hid
            omega
          · rw [Function.update_of_ne heq] at hid
            have he' : 1 ≤ ht.timerId e' := by omega
            exact heq (hsized.id_inj e' he' e he hid)
        · refine ⟨hz1, hz2, fun e' => ?_⟩
          by_cases heq : e' = e
          · rw [heq, Function.update_self]
            omega
          · rw [Function.update_of_ne heq]
            exact hunused e'
      · rintro ⟨hz1, hz2, hunused⟩
        by_cases hz : z = ht.timerId e
        · exact .inl hz
        · refine .inr ⟨hz1, hz2, fun e' hid => ?_⟩
          by_cases heq : e' = e
          · exact hz (by rw [← hid, heq])
          · have := hunused e'
            rw [Function.update_of_ne heq] at this
            exact this hid

/-- The others have the slots that they had. -/
theorem Inv.stopped (h : ht.Inv) (hs : s < ht.curSize) (hheap : ht.heap s = some e)
    (he : e ∈ ht.running) {ids : ℕ → ℤ}
    (hids : ∀ i, i ≠ (ht.timerId e).toNat → ids i = ht.timerIds i) :
    Sized (ht.stopped e ids) (ht.curSize - 1) (ht.stopped e ids).running ∧
      (∀ i < ht.curSize, i ≠ s → ∃ x ∈ (ht.stopped e ids).running, ht.heap i = some x ∧
        ids ((ht.stopped e ids).timerId x).toNat = i) ∧
      ∀ x ∈ (ht.stopped e ids).running, ∃ i < ht.curSize, i ≠ s ∧ ht.heap i = some x := by
  have hbound := h.bound
  have hid : ∀ x ∈ ht.running \ {e}, (ht.stopped e ids).timerId x = ht.timerId x :=
    fun x hx => Function.update_of_ne hx.2 _ _
  rw [stopped_running]
  have hsized : Sized (ht.stopped e ids) (ht.curSize - 1) (ht.running \ {e}) := by
    refine h.placed.toSized.mono ?_ le_rfl h.placed.small (fun x hx => ⟨hx.1, hid x hx⟩)
    change ht.curSize - 1 ≤ ht.maxSize
    omega
  refine ⟨hsized, ?_, ?_⟩
  · intro i hi his
    obtain ⟨x, hx, hxheap, hxid⟩ := h.placed.placed i hi
    have hxe : x ≠ e := fun heq => his (h.placed.slot_inj hi hs (heq ▸ hxheap) hheap)
    have hne : (ht.timerId x).toNat ≠ (ht.timerId e).toNat :=
      fun heq => hxe (h.placed.toNat_inj hx he heq)
    refine ⟨x, ⟨hx, hxe⟩, hxheap, ?_⟩
    rw [hid x ⟨hx, hxe⟩, hids _ hne]
    exact hxid
  · intro x hx
    obtain ⟨i, hi, hxheap⟩ := h.placed.covered x hx.1
    refine ⟨i, hi, fun his => ?_, hxheap⟩
    rw [his, hheap] at hxheap
    exact hx.2 (Option.some.inj hxheap).symm

/-- The slot is filled again, if it is not behind the others. -/
theorem Inv.refill (h : ht.Inv) (hs : s < ht.curSize) (hheap : ht.heap s = some e)
    (he : e ∈ ht.running) {ids : ℕ → ℤ}
    (hids : ∀ i, i ≠ (ht.timerId e).toNat → ids i = ht.timerIds i) :
    ∃ ht', (if s < ht.curSize - 1 then (ht.stopped e ids).moveLast s else some (ht.stopped e ids)) =
        some ht' ∧ Placed ht' (ht.curSize - 1) (ht.stopped e ids).running ∧
      HeapOrder ht'.key (ht.curSize - 1) ∧
      SameBut (ht.stopped e ids).running (ht.stopped e ids) ht' := by
  have hbound := h.bound
  obtain ⟨hsized, hplaced, hcovered⟩ := h.stopped hs hheap he hids
  by_cases hlast : s < ht.curSize - 1
  · obtain ⟨m, hm, hmheap, -⟩ := hplaced (ht.curSize - 1) (by omega) (by omega)
    -- the entry that moves is in no other slot
    have hslot : ∀ i < ht.curSize, ht.heap i = some m → i = ht.curSize - 1 :=
      fun i hi hi' => h.placed.slot_inj hi (by omega) hi' hmheap
    have hsift : Sifting (ht.stopped e ids) (ht.curSize - 1) s m (ht.stopped e ids).running := by
      refine ⟨hsized, hlast, hm, ?_, ?_⟩
      · intro i hi his
        obtain ⟨x, hx, hxheap, hxid⟩ := hplaced i (by omega) his
        refine ⟨x, hx, fun heq => ?_, hxheap, hxid⟩
        have := hslot i (by omega) (heq ▸ hxheap)
        omega
      · intro x hx hxm
        obtain ⟨i, hi, his, hxheap⟩ := hcovered x hx
        refine ⟨i, ?_, his, hxheap⟩
        have hne : i ≠ ht.curSize - 1 := by
          intro heq
          rw [heq, hmheap] at hxheap
          exact hxm (Option.some.inj hxheap).symm
        omega
    have hmax : ht.curSize - 1 < (ht.stopped e ids).maxSize := by
      change ht.curSize - 1 < ht.maxSize
      omega
    rw [if_pos hlast]
    exact hsift.moveLast rfl hmax hmheap (h.order.hole (by omega) hs)
  · rw [if_neg hlast]
    refine ⟨_, rfl, ⟨hsized, ?_, ?_⟩, ?_, SameBut.refl _ _⟩
    · exact fun i hi => hplaced i (by omega) (by omega)
    · intro x hx
      obtain ⟨i, hi, his, hxheap⟩ := hcovered x hx
      exact ⟨i, by omega, hxheap⟩
    · exact fun i hpos hi => h.order i hpos (by omega)

/-- What `remove_node` does besides the slots and the ids. -/
def Removed (ht ht' : TimerHeap E) (e : E) : Prop :=
  ht' = { ht.stopped e ht'.timerIds with heap := ht'.heap }

theorem Inv.removeNode (h : ht.Inv) (hs : s < ht.curSize) (hheap : ht.heap s = some e) :
    ∃ ht', ht.removeNode s = some (ht', e) ∧ ht'.Inv ∧ Removed ht ht' e := by
  have hbound := h.bound
  obtain ⟨e', he, hheap', -⟩ := h.placed.placed s hs
  cases hheap.symm.trans hheap'
  obtain ⟨l, hl⟩ := h.free
  obtain ⟨ids, hpush, hids, hfree⟩ := hl.push h.placed.toSized he (by omega)
  obtain ⟨ht', hrefill, hplaced, horder, hsame⟩ := h.refill hs hheap he hids
  have hread : ht.readHeap s = some e := by rw [readHeap, if_pos (by omega), hheap]
  have hcur : ht'.curSize = ht.curSize - 1 := hsame.curSize
  refine ⟨ht', ?_, ?_, hsame.eq⟩
  · rw [TimerHeap.removeNode, hread, Option.bind_some, hpush, Option.bind_some]
    exact congrArg (Option.map fun ht => (ht, e)) hrefill
  · have hid := h.placed.id_pos e he
    have hbound : ht.curSize - 1 + 2 ≤ (ht.stopped e ids).maxSize :=
      show ht.curSize - 1 + 2 ≤ ht.maxSize by omega
    have hinv := Inv.sifted hbound hfree ?_ ?_ hplaced horder hsame
    · rwa [← hcur] at hinv
    · change ids 0 < 0
      rw [hids 0 (by omega)]
      exact h.zero
    · rw [stopped_running]
      exact fun x hx => h.entries x hx.1

end Remove

section Cancel

theorem Inv.setTimerId (h : ht.Inv) (he : e ∉ ht.running) : (ht.setTimerId e (-1)).Inv := by
  refine h.frame rfl (fun x => ?_)
  by_cases hx : x = e
  · have hstopped : ht.timerId e < 1 := not_le.mp he
    have hself : (ht.setTimerId e (-1)).timerId e = -1 := Function.update_self _ _ _
    exact .inr (by rw [hx, hself]; omega)
  · exact .inl (Function.update_of_ne hx _ _)

theorem Inv.cancel (h : ht.Inv) (e : E) (dontAssert : Bool) :
    ∃ ht', ht.cancel e dontAssert = some (ht', if ht.timerEntryRunning e then 1 else 0) ∧
      ht'.Inv ∧ ht'.timerId = Function.update ht.timerId e (-1) := by
  have hbound := h.bound
  unfold TimerHeap.cancel timerEntryRunning
  by_cases he : 1 ≤ ht.timerId e
  · have hlt := h.placed.id_lt e he
    obtain ⟨i, hi, hheap⟩ := h.placed.covered e he
    obtain ⟨e', -, hheap', hid⟩ := h.placed.placed i hi
    cases hheap.symm.trans hheap'
    obtain ⟨ht', hremove, hinv, hremoved⟩ := h.removeNode hi hheap
    have hread : ht.readId (ht.timerId e) = some (i : ℤ) := by
      rw [readId, if_pos ⟨by omega, hlt⟩, hid]
    rw [if_neg (by omega), hread, Option.bind_some, if_neg (by omega), if_neg (by omega),
      Int.toNat_natCast, if_neg (not_not.mpr hheap), hremove, if_pos (decide_eq_true he)]
    refine ⟨ht', rfl, hinv, ?_⟩
    rw [hremoved]
    rfl
  · have hstopped := h.setTimerId (e := e) he
    rw [if_neg (fun hrun => he (of_decide_eq_true hrun))]
    refine ⟨_, ?_, hstopped, rfl⟩
    by_cases hneg : ht.timerId e < 0
    · rw [if_pos (.inl hneg)]
    · have hzero : ht.timerId e = 0 := by omega
      have hread : ht.readId 0 = some (ht.timerIds 0) := if_pos ⟨le_rfl, by omega⟩
      rw [hzero, if_neg (by omega), hread, Option.bind_some, if_pos h.zero]

end Cancel

section Poll

/-- A round removes the root when it is due, or is the last one. -/
theorem Inv.pollRound (h : ht.Inv) (poll : Poll) :
    (∃ ht' e, ht.pollRound poll = some (ht', some e) ∧ ht'.Inv ∧ Removed ht ht' e ∧
      e ∈ ht.running ∧ (∀ e' ∈ ht.running, (ht.timerValue e).key ≤ (ht.timerValue e').key) ∧
      (ht.timerValue e).key ≤ poll.now.key ∧ poll.count < ht.maxEntriesPerPoll) ∨
    ht.pollRound poll = some (ht, none) ∧ (ht.maxEntriesPerPoll ≤ poll.count ∨
      ∀ e ∈ ht.running, poll.now.key < (ht.timerValue e).key) := by
  unfold TimerHeap.pollRound
  by_cases hcur : ht.curSize = 0
  · rw [if_pos hcur]
    refine .inr ⟨rfl, .inr ?_⟩
    rw [h.running_eq_empty hcur]
    exact fun e he => absurd he (Set.notMem_empty e)
  · obtain ⟨e, he, hheap, hread, hfirst⟩ := h.root hcur
    rw [if_neg hcur, hread, Option.bind_some]
    by_cases hdue : (ht.timerValue e).lte poll.now = true ∧ poll.count < ht.maxEntriesPerPoll
    · obtain ⟨ht', hremove, hinv, hremoved⟩ := h.removeNode (by omega) hheap
      rw [if_pos hdue, hremove, Option.map_some]
      exact .inl ⟨ht', e, rfl, hinv, hremoved, he, hfirst, (TimeVal.lte_iff _ _).mp hdue.1, hdue.2⟩
    · rw [if_neg hdue]
      refine .inr ⟨rfl, ?_⟩
      by_cases hcount : poll.count < ht.maxEntriesPerPoll
      · have hlate : poll.now.key < (ht.timerValue e).key := by
          rw [TimeVal.lte_iff] at hdue
          exact not_le.mp (fun hle => hdue ⟨hle, hcount⟩)
        exact .inr (fun e' he' => hlate.trans_le (hfirst e' he'))
      · exact .inl (not_lt.mp hcount)

end Poll

section Runs

/-- `timer_heap_schedule` of an entry with a callback that does not run. -/
theorem Inv.timerHeapSchedule (h : ht.Inv) (hcb : ht.hasCb e = true) (he : e ∉ ht.running)
    (delay : TimeVal) (tv : Timeval) {memory : Realloc E} (hgrows : ht.Grows memory) :
    ∃ ht', ht.timerHeapSchedule e delay tv memory = some (ht', 0) ∧ ht'.Inv ∧
      ht'.running = insert e ht.running := by
  have hcanonical : (TimeVal.add (.gettickcount tv) delay).Canonical :=
    (TimeVal.normalize_spec _).2
  obtain ⟨ht', hschedule, hinv, hrunning, -⟩ := h.scheduleEntry he hcb hcanonical hgrows
  refine ⟨ht', ?_, hinv, hrunning⟩
  have hstopped : ¬1 ≤ ht.timerId e := he
  rw [TimerHeap.timerHeapSchedule, hcb, if_neg (by decide), if_neg hstopped]
  exact hschedule

/-- What a timer heap is to have at any time. -/
structure Sound (ht : TimerHeap E) : Prop where
  order : ∀ i, 0 < i → i < ht.curSize → ∃ p e, ht.heap (heapParent i) = some p ∧
    ht.heap i = some e ∧ (ht.timerValue p).toMsec ≤ (ht.timerValue e).toMsec
  slots : ∀ i < ht.curSize, ∃ e, ht.heap i = some e ∧ ht.timerEntryRunning e ∧
    ht.timerIds (ht.timerId e).toNat = i
  running : ∀ e, ht.timerEntryRunning e → ∃ i < ht.curSize, ht.heap i = some e
  distinct : ∀ e e', ht.timerEntryRunning e → ht.timerEntryRunning e' →
    ht.timerId e = ht.timerId e' → e = e'
  inside : ht.curSize ≤ ht.maxSize ∧ ∀ e, ht.timerId e < ht.maxSize
  free : ∃ l, ht.FreeList l
  schedules : ∀ e delay tv memory, ht.hasCb e → ht.timerEntryRunning e = false →
    ht.Grows memory → ∃ ht', ht.timerHeapSchedule e delay tv memory = some (ht', 0) ∧
      ht'.timerEntryRunning e

theorem Inv.sound (h : ht.Inv) : ht.Sound := by
  have hbound := h.bound
  constructor
  · intro i hpos hi
    obtain ⟨p, hp, hpheap, -⟩ := h.placed.placed (heapParent i) ((heapParent_lt hpos).trans hi)
    obtain ⟨e, he, heheap, -⟩ := h.placed.placed i hi
    have hle := h.order i hpos hi
    rw [key, key, hpheap, heheap] at hle
    exact ⟨p, e, hpheap, heheap,
      ((h.entries p hp).1.key_le_iff (h.entries e he).1).mp hle⟩
  · intro i hi
    obtain ⟨e, he, hheap, hid⟩ := h.placed.placed i hi
    exact ⟨e, hheap, mem_running_iff.mp he, hid⟩
  · exact fun e he => h.placed.covered e (mem_running_iff.mpr he)
  · exact fun e e' he he' => h.placed.id_inj e (mem_running_iff.mpr he) e' (mem_running_iff.mpr he')
  · refine ⟨by omega, fun e => ?_⟩
    by_cases he : e ∈ ht.running
    · exact h.placed.id_lt e he
    · have hstopped : ht.timerId e < 1 := not_le.mp he
      omega
  · exact h.free
  · intro e delay tv memory hcb hstopped hgrows
    have he : e ∉ ht.running := by
      rw [mem_running_iff, hstopped]
      exact Bool.false_ne_true
    obtain ⟨ht', hschedule, -, hrun⟩ := h.timerHeapSchedule hcb he delay tv hgrows
    have hmem : e ∈ ht'.running := hrun ▸ Set.mem_insert e _
    exact ⟨ht', hschedule, mem_running_iff.mp hmem⟩

end Runs

end TimerHeap

namespace Timers

variable {E : Type*} [DecidableEq E] {s : Timers E}

/-- A call that inserts an entry gets the memory for it. -/
def Granted (s : Timers E) : TimerOp E → Prop
  | .schedule entry _ _ memory =>
    s.heap.hasCb entry → s.heap.timerEntryRunning entry = false → s.heap.Grows memory
  | _ => True

theorem step_inv (h : s.heap.Inv) {op : TimerOp E} (hop : s.Granted op) :
    ∃ s', s.step op = some s' ∧ s'.heap.Inv := by
  cases op with
  | schedule entry delay tv memory =>
    by_cases hcb : s.heap.hasCb entry = true
    · by_cases hrun : 1 ≤ s.heap.timerId entry
      · refine ⟨s, ?_, h⟩
        rw [step, TimerHeap.timerHeapSchedule, hcb, if_neg (by decide), if_pos hrun]
        rfl
      · obtain ⟨ht', hschedule, hinv, -⟩ :=
          h.timerHeapSchedule hcb hrun delay tv (hop hcb (decide_eq_false hrun))
        exact ⟨⟨ht', s.polls⟩, by rw [step, hschedule]; rfl, hinv⟩
    · have hnone : s.heap.hasCb entry = false := Bool.eq_false_iff.mpr hcb
      refine ⟨s, ?_, h⟩
      rw [step, TimerHeap.timerHeapSchedule, hnone, if_pos (by decide)]
      rfl
  | cancel entry =>
    obtain ⟨ht', hcancel, hinv, -⟩ := h.cancel entry false
    exact ⟨⟨ht', s.polls⟩, by rw [step, TimerHeap.timerHeapCancel, hcancel]; rfl, hinv⟩
  | cancelIfActive entry idVal =>
    obtain ⟨ht', hcancel, hinv, -⟩ := h.cancel entry true
    refine ⟨⟨{ ht' with id := Function.update ht'.id entry idVal }, s.polls⟩, ?_, ?_⟩
    · rw [step, TimerHeap.timerHeapCancelIfActive, hcancel]
      rfl
    · exact hinv.frame rfl (fun _ => .inl rfl)
  | poll tv nextDelay => exact ⟨_, rfl, h⟩
  | pollRound =>
    rw [step]
    cases s.polls with
    | nil => exact ⟨s, rfl, h⟩
    | cons poll polls =>
      dsimp only
      rcases h.pollRound poll with ⟨ht', e, hround, hinv, -⟩ | ⟨hround, -⟩
      · exact ⟨⟨ht', { poll with count := poll.count + 1 } :: polls⟩, by rw [hround]; rfl, hinv⟩
      · obtain ⟨delay, hend, -⟩ := h.pollEnd poll
        refine ⟨⟨s.heap, polls⟩, ?_, h⟩
        rw [hround, Option.bind_some]
        dsimp only
        rw [hend, Option.map_some]

/-- A heap whose arrays and ids fit into an `int` when it is created, and whose arrays grow when they
have to, keeps its invariant; no access is outside of the arrays. -/
theorem run_inv {mem : TimerHeap E} (hmem : ∀ e, mem.timerId e < 1) {size : ℕ}
    (hsize : size + 2 < 2 ^ 31) {ops : List (TimerOp E)}
    (hops : Along step Granted (create size mem) ops) :
    ∃ s, exec step (create size mem) ops = some s ∧ s.heap.Inv :=
  exec_progress_along (I := fun s : Timers E => s.heap.Inv) (fun _ _ h hop => step_inv h hop)
    (TimerHeap.create_inv hmem hsize) hops

/-- Such a heap is sound at any time. -/
theorem run_sound (mem : TimerHeap E) (hmem : ∀ e, mem.timerId e < 1) (size : ℕ)
    (hsize : size + 2 < 2 ^ 31) (ops : List (TimerOp E))
    (hops : Along step Granted (create size mem) ops) :
    ∃ s, exec step (create size mem) ops = some s ∧ s.heap.Sound := by
  obtain ⟨s, hexec, hinv⟩ := run_inv hmem hsize hops
  exact ⟨s, hexec, hinv.sound⟩

def idle : TimerHeap ℕ where
  maxSize := 0
  curSize := 0
  maxEntriesPerPoll := 0
  heap := fun _ => none
  timerIds := fun _ => 0
  timerIdsFreelist := 0
  id := fun _ => 0
  hasCb := fun _ => true
  timerId := fun _ => -1
  timerValue := fun _ => ⟨0, 0⟩

/-- A call of `timer_heap_schedule` a second after the Epoch. -/
def scheduleAt (entry : ℕ) (memory : Realloc ℕ) : TimerOp ℕ :=
  .schedule entry ⟨5, 0⟩ (.ofSec 1) memory

theorem run_sound_growing : ∃ s, exec step (create 0 idle)
    [scheduleAt 1 (some fun _ => none), scheduleAt 2 none, .cancel 1] = some s ∧ s.heap.Sound :=
  run_sound idle (fun _ => (by decide : (-1 : ℤ) < 1)) 0 (by norm_num) _
    ⟨fun _ _ _ => ⟨rfl, by decide⟩, fun s₁ h₁ => by
      cases h₁
      exact ⟨fun _ _ hfull => absurd hfull (by decide), fun s₂ h₂ => by
        cases h₂
        exact ⟨trivial, fun _ _ => trivial⟩⟩⟩

/-- The size of the arrays wraps to one, in which there is no id, or to zero, or `realloc` returns
`NULL`. -/
theorem not_run_sound :
    exec step (create (2 ^ 64 - 1) idle) [scheduleAt 1 (some fun _ => none)] = none ∧
    ((create (2 ^ 64 - 2) idle).heap.timerHeapSchedule 1 ⟨5, 0⟩ (.ofSec 1)
      (some fun _ => none)).map Prod.snd = some (-1) ∧
    exec step (create 0 idle) [scheduleAt 1 none] = none :=
  ⟨rfl, rfl, rfl⟩

end Timers

end Carrier.Common
