import Carrier.Common.TimerHeapRuns
import Mathlib.Data.Set.Card

/-! Polls whose callbacks do not touch the heap. -/
namespace Carrier.Common
open Carrier.Lib

namespace TimerHeap

variable {E : Type*} {ht ht' ht₁ : TimerHeap E} {now : TimeVal} {limit : ℕ}
  {fired : List E} {e : E}

/-- The entries fired at the time `now`, `limit` at most: the first ones, in their order. -/
structure Polled (ht ht' : TimerHeap E) (now : TimeVal) (limit : ℕ) (fired : List E) : Prop where
  value : ht'.timerValue = ht.timerValue
  running : ht'.running = ht.running \ {e | e ∈ fired}
  nodup : fired.Nodup
  due : ∀ e ∈ fired, e ∈ ht.running ∧ (ht.timerValue e).key ≤ now.key
  sorted : fired.Pairwise fun e e' => (ht.timerValue e).key ≤ (ht.timerValue e').key
  first : ∀ e ∈ fired, ∀ e' ∈ ht'.running, (ht.timerValue e).key ≤ (ht.timerValue e').key
  length_le : fired.length ≤ limit
  stop : limit ≤ fired.length ∨ ∀ e ∈ ht'.running, now.key < (ht.timerValue e).key

theorem Polled.nil (h : limit = 0 ∨ ∀ e ∈ ht.running, now.key < (ht.timerValue e).key) :
    Polled ht ht now limit [] := by
  constructor
  · rfl
  · apply Set.ext
    exact fun e => (and_iff_left List.not_mem_nil).symm
  · exact List.nodup_nil
  · exact fun e he => absurd he List.not_mem_nil
  · exact List.Pairwise.nil
  · exact fun e he => absurd he List.not_mem_nil
  · exact Nat.zero_le _
  · exact h.imp (fun hzero => hzero.le) (fun hlate => hlate)

/-- The root is fired before the others. -/
theorem Polled.cons (hvalue : ht₁.timerValue = ht.timerValue)
    (hrunning : ht₁.running = ht.running \ {e}) (he : e ∈ ht.running)
    (hdue : (ht.timerValue e).key ≤ now.key)
    (hfirst : ∀ e' ∈ ht.running, (ht.timerValue e).key ≤ (ht.timerValue e').key)
    (h : Polled ht₁ ht' now limit fired) : Polled ht ht' now (limit + 1) (e :: fired) := by
  have hmem : ∀ x ∈ ht'.running, x ∈ ht.running := by
    intro x hx
    rw [h.running, hrunning] at hx
    exact hx.1.1
  have hdue' := h.due
  have hsorted := h.sorted
  have hfirst' := h.first
  have hstop := h.stop
  rw [hvalue] at hdue' hsorted hfirst' hstop
  rw [hrunning] at hdue'
  constructor
  · rw [h.value, hvalue]
  · rw [h.running, hrunning]
    apply Set.ext
    intro x
    change (x ∈ ht.running ∧ x ≠ e) ∧ x ∉ fired ↔ x ∈ ht.running ∧ x ∉ e :: fired
    rw [List.mem_cons, not_or, and_assoc]
  · exact List.nodup_cons.mpr ⟨fun hx => (hdue' e hx).1.2 rfl, h.nodup⟩
  · intro x hx
    rcases List.mem_cons.mp hx with rfl | hx
    · exact ⟨he, hdue⟩
    · exact ⟨(hdue' x hx).1.1, (hdue' x hx).2⟩
  · exact List.pairwise_cons.mpr ⟨fun x hx => hfirst x (hdue' x hx).1.1, hsorted⟩
  · intro x hx y hy
    rcases List.mem_cons.mp hx with rfl | hx
    · exact hfirst y (hmem y hy)
    · exact hfirst' x hx y hy
  · exact Nat.succ_le_succ h.length_le
  · exact hstop.imp Nat.succ_le_succ (fun hlate => hlate)

/-- The entries whose expiry is not after `now`. -/
def due (ht : TimerHeap E) (now : TimeVal) : Set E :=
  {e | ht.timerEntryRunning e ∧ (ht.timerValue e).toMsec ≤ now.toMsec}

theorem Inv.due_finite (h : ht.Inv) (now : TimeVal) : (ht.due now).Finite := by
  refine (Set.finite_range fun i : Fin ht.curSize => ht.heap i).preimage
    (Set.injOn_of_injective (Option.some_injective E)) |>.subset ?_
  intro e he
  obtain ⟨i, hi, hheap⟩ := h.placed.covered e (mem_running_iff.mpr he.1)
  exact ⟨⟨i, hi⟩, hheap⟩

theorem Inv.mem_due_iff (h : ht.Inv) (hnow : now.Canonical) :
    e ∈ ht.due now ↔ e ∈ ht.running ∧ (ht.timerValue e).key ≤ now.key := by
  rw [mem_running_iff]
  refine and_congr_right (fun he => ?_)
  exact ((h.entries e (mem_running_iff.mpr he)).1.key_le_iff hnow).symm

theorem Polled.length_eq (h : Polled ht ht' now limit fired) (hinv : ht.Inv)
    (hnow : now.Canonical) : fired.length = min (ht.due now).ncard limit := by
  classical
  have hcard : fired.length = (fired.toFinset : Set E).ncard := by
    rw [Set.ncard_coe_finset, List.toFinset_card_of_nodup h.nodup]
  have hsub : (fired.toFinset : Set E) ⊆ ht.due now := by
    intro e he
    exact (hinv.mem_due_iff hnow).mpr (h.due e (List.mem_toFinset.mp he))
  have hle : fired.length ≤ (ht.due now).ncard := by
    rw [hcard]
    exact Set.ncard_le_ncard hsub (hinv.due_finite now)
  rcases h.stop with hstop | hlate
  · rw [le_antisymm h.length_le hstop, min_eq_right (hstop.trans hle)]
  · have hall : (fired.toFinset : Set E) = ht.due now := by
      refine Set.Subset.antisymm hsub (fun e he => ?_)
      obtain ⟨hrun, hdue⟩ := (hinv.mem_due_iff hnow).mp he
      by_contra hnot
      have hrest : e ∈ ht'.running := by
        rw [h.running]
        exact ⟨hrun, fun hmem => hnot (List.mem_toFinset.mpr hmem)⟩
      exact absurd hdue (not_le.mpr (hlate e hrest))
    rw [← hall, ← hcard, min_eq_left h.length_le]

variable [DecidableEq E]

/-- The loop of `timer_heap_poll`, up to `fuel` rounds, with the entries whose callbacks it invokes. -/
def pollLoop : ℕ → TimerHeap E → Poll → Option (TimerHeap E × List E × Poll)
  | 0, _, _ => none
  | fuel + 1, ht, poll =>
    (ht.pollRound poll).bind fun (ht, node) =>
      match node with
      | some node =>
        (pollLoop fuel ht { poll with count := poll.count + 1 }).map fun (ht', fired, poll) =>
          (ht', if ht.hasCb node then node :: fired else fired, poll)
      | none => some (ht, [], poll)

/-- `timer_heap_poll` at the time `tv`: the callbacks it invokes, what it returns, and the delay for
a caller who wants it. -/
def timerHeapPoll (ht : TimerHeap E) (tv : Timeval) (nextDelay : Bool) :
    Option (TimerHeap E × List E × ℕ × Option TimeVal) :=
  match ht.pollStart tv nextDelay with
  | none => some (ht, [], 0, some noDelay)
  | some poll =>
    (pollLoop (ht.curSize + 1) ht poll).bind fun (ht, fired, poll) =>
      (ht.pollEnd poll).map fun delay => (ht, fired, poll.count, delay)

theorem Inv.pollLoop (h : ht.Inv) {fuel : ℕ} (hfuel : ht.curSize < fuel) (poll : Poll) :
    ∃ ht' fired, TimerHeap.pollLoop fuel ht poll =
        some (ht', fired, { poll with count := poll.count + fired.length }) ∧
      ht'.Inv ∧ Polled ht ht' poll.now (ht.maxEntriesPerPoll - poll.count) fired := by
  induction fuel generalizing ht poll with
  | zero => omega
  | succ fuel ih =>
    rw [TimerHeap.pollLoop]
    rcases h.pollRound poll with ⟨ht₁, e, hround, hinv, hremoved, he, hfirst, hdue, hcount⟩ |
      ⟨hround, hlast⟩
    · have hcur : ht₁.curSize = ht.curSize - 1 := by rw [hremoved]; rfl
      have hmax : ht₁.maxEntriesPerPoll = ht.maxEntriesPerPoll := by rw [hremoved]; rfl
      have hcb : ht₁.hasCb e = true := by
        rw [hremoved]
        exact (h.entries e he).2
      have hrunning : ht₁.running = ht.running \ {e} := by
        rw [hremoved]
        exact stopped_running ht₁.timerIds
      have hvalue : ht₁.timerValue = ht.timerValue := by rw [hremoved]; rfl
      have hnonempty : ht.curSize ≠ 0 := by
        intro hzero
        rw [h.running_eq_empty hzero] at he
        exact absurd he (Set.notMem_empty e)
      obtain ⟨ht', fired, hloop, hinv', hpolled⟩ :=
        ih hinv (by omega) { poll with count := poll.count + 1 }
      refine ⟨ht', e :: fired, ?_, hinv', ?_⟩
      · rw [hround, Option.bind_some]
        dsimp only
        rw [hloop, Option.map_some, if_pos hcb, List.length_cons, Nat.add_assoc, Nat.add_comm 1]
      · have hcons := Polled.cons hvalue hrunning he hdue hfirst hpolled
        have hlimit : ht₁.maxEntriesPerPoll - (poll.count + 1) + 1 =
            ht.maxEntriesPerPoll - poll.count := by omega
        rwa [hlimit] at hcons
    · refine ⟨ht, [], ?_, h, Polled.nil (hlast.imp (fun hle => by omega) fun hlate => hlate)⟩
      rw [hround]
      rfl

/-- A poll returns what its loop has done. -/
theorem Inv.timerHeapPoll (h : ht.Inv) (tv : Timeval) (nextDelay : Bool) :
    ∃ ht' fired delay, ht.timerHeapPoll tv nextDelay =
        some (ht', fired, fired.length, if nextDelay then some delay else none) ∧
      Polled ht ht' (.gettickcount tv) ht.maxEntriesPerPoll fired ∧
      ht'.DelayAt (.gettickcount tv) delay := by
  unfold TimerHeap.timerHeapPoll pollStart
  by_cases hearly : ht.curSize = 0 ∧ nextDelay = true
  · have hempty := h.running_eq_empty hearly.1
    refine ⟨ht, [], noDelay, ?_, Polled.nil (.inr ?_), .inl ⟨hempty, rfl⟩⟩
    · rw [if_pos hearly, if_pos hearly.2]
      rfl
    · rw [hempty]
      exact fun e he => absurd he (Set.notMem_empty e)
  · obtain ⟨ht', fired, hloop, hinv, hpolled⟩ :=
      h.pollLoop (Nat.lt_succ_self _) ⟨.gettickcount tv, 0, nextDelay⟩
    obtain ⟨delay, hend, hdelay⟩ := hinv.pollEnd ⟨.gettickcount tv, 0 + fired.length, nextDelay⟩
    refine ⟨ht', fired, delay, ?_, hpolled, hdelay⟩
    rw [if_neg hearly]
    dsimp only at hloop hend ⊢
    rw [hloop, Option.bind_some]
    dsimp only
    rw [hend, Option.map_some, Nat.zero_add]

/-- A poll fires the first entries that are due, each once and in their order; the others stay. -/
theorem timerHeapPoll_fires (h : ht.Inv) (tv : Timeval) (nextDelay : Bool) :
    ∃ ht' fired delay, ht.timerHeapPoll tv nextDelay =
        some (ht', fired, fired.length, if nextDelay then some delay else none) ∧
      fired.length = min (ht.due (.gettickcount tv)).ncard ht.maxEntriesPerPoll ∧
      fired.Nodup ∧ (∀ e ∈ fired, e ∈ ht.due (.gettickcount tv)) ∧
      fired.Pairwise (fun e e' => (ht.timerValue e).toMsec ≤ (ht.timerValue e').toMsec) ∧
      (∀ e ∈ fired, ∀ e', ht'.timerEntryRunning e' →
        (ht.timerValue e).toMsec ≤ (ht.timerValue e').toMsec) ∧
      (∀ e, ht'.timerEntryRunning e ↔ ht.timerEntryRunning e ∧ e ∉ fired) ∧
      ht'.timerValue = ht.timerValue ∧ ht'.DelayAt (.gettickcount tv) delay := by
  have hnow := TimeVal.gettickcount_canonical tv
  obtain ⟨ht', fired, delay, hpoll, hpolled, hdelay⟩ := h.timerHeapPoll tv nextDelay
  have hmem : ∀ e, e ∈ ht'.running ↔ e ∈ ht.running ∧ e ∉ fired := by
    intro e
    rw [hpolled.running]
    rfl
  have hle : ∀ {e e'}, e ∈ ht.running → e' ∈ ht.running →
      (ht.timerValue e).key ≤ (ht.timerValue e').key →
      (ht.timerValue e).toMsec ≤ (ht.timerValue e').toMsec :=
    fun he he' => ((h.entries _ he).1.key_le_iff (h.entries _ he').1).mp
  refine ⟨ht', fired, delay, hpoll, hpolled.length_eq h hnow, hpolled.nodup, ?_, ?_, ?_, ?_,
    hpolled.value, hdelay⟩
  · exact fun e he => (h.mem_due_iff hnow).mpr (hpolled.due e he)
  · refine hpolled.sorted.imp_of_mem (fun he he' => ?_)
    exact hle (hpolled.due _ he).1 (hpolled.due _ he').1
  · intro e he e' he'
    have hrest := mem_running_iff.mpr he'
    exact hle (hpolled.due e he).1 ((hmem e').mp hrest).1 (hpolled.first e he e' hrest)
  · intro e
    rw [← mem_running_iff, ← mem_running_iff]
    exact hmem e

/-- An entry set one second after the Epoch. -/
def setAt (ht : TimerHeap ℕ) (e : ℕ) (delay : TimeVal) : TimerHeap ℕ :=
  (ht.timerHeapSchedule e delay (.ofSec 1) none).elim ht Prod.fst

theorem setAt_inv {ht : TimerHeap ℕ} (h : ht.Inv) {e : ℕ} (hcb : ht.hasCb e = true)
    (he : e ∉ ht.running) (hgrows : ht.Grows none) (delay : TimeVal) : (setAt ht e delay).Inv := by
  obtain ⟨ht', hschedule, hinv, -⟩ := h.timerHeapSchedule hcb he delay (.ofSec 1) hgrows
  rw [setAt, hschedule]
  exact hinv

/-- Entries that expire six, four and sixty-one seconds after the Epoch. -/
def threeTimers : TimerHeap ℕ :=
  setAt (setAt (setAt (timerHeapCreate 8 Timers.idle) 1 ⟨5, 0⟩) 2 ⟨3, 0⟩) 3 ⟨60, 0⟩

theorem threeTimers_inv : threeTimers.Inv := by
  have hcreate : (timerHeapCreate 8 Timers.idle).Inv :=
    create_inv (fun _ => (by decide : (-1 : ℤ) < 1)) (by norm_num)
  have hone := setAt_inv hcreate (e := 1) rfl (by decide : ¬(1 : ℤ) ≤ -1)
    (fun hfull => absurd hfull (by decide)) ⟨5, 0⟩
  have htwo := setAt_inv hone (e := 2) (by decide +kernel)
    (show ¬1 ≤ (setAt (timerHeapCreate 8 Timers.idle) 1 ⟨5, 0⟩).timerId 2 by decide +kernel)
    (fun hfull => absurd hfull (by decide +kernel)) ⟨3, 0⟩
  exact setAt_inv htwo (by decide +kernel)
    (show ¬1 ≤ (setAt (setAt (timerHeapCreate 8 Timers.idle) 1 ⟨5, 0⟩) 2 ⟨3, 0⟩).timerId 3 by
      decide +kernel)
    (fun hfull => absurd hfull (by decide +kernel)) ⟨60, 0⟩

/-- Two of the entries are due after six seconds, and fire in the order of their times. -/
theorem timerHeapPoll_fires_threeTimers :
    ∃ ht' fired delay, threeTimers.timerHeapPoll (.ofSec 7) true =
        some (ht', fired, fired.length, some delay) ∧ fired = [2, 1] ∧
      fired.length = min (threeTimers.due (.gettickcount (.ofSec 7))).ncard 64 ∧
      fired.Pairwise (fun e e' =>
        (threeTimers.timerValue e).toMsec ≤ (threeTimers.timerValue e').toMsec) ∧
      ht'.DelayAt (.gettickcount (.ofSec 7)) delay := by
  have hevaluated : (threeTimers.timerHeapPoll (.ofSec 7) true).map (fun r => r.2.1) = some [2, 1] := by
    decide +kernel
  obtain ⟨ht', fired, delay, hpoll, hlength, -, -, hsorted, -, -, -, hdelay⟩ :=
    timerHeapPoll_fires threeTimers_inv (.ofSec 7) true
  rw [hpoll] at hevaluated
  exact ⟨ht', fired, delay, hpoll, Option.some.inj hevaluated, hlength, hsorted, hdelay⟩

end TimerHeap

end Carrier.Common
