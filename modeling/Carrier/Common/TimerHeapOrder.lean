import Carrier.Common.TimerHeap
import Mathlib.Data.Set.Basic

/-! What sifting does to a timer heap: the entries stay, each with its slot under its id, and their
expiry times come into the order of the heap. -/
namespace Carrier.Common
open Carrier.Lib

namespace TimerHeap

variable {E : Type*} {ht ht' ht₁ : TimerHeap E} {n s p slot : ℕ} {moved e : E}
  {S : Set E}

/-- The expiry of the entry in a slot, in the order of the macros. -/
def key (ht : TimerHeap E) (i : ℕ) : ℤ ×ₗ ℤ := ((ht.heap i).elim ⟨0, 0⟩ ht.timerValue).key

/-- The entries of `S` have ids of their own, and `n` slots. -/
structure Sized (ht : TimerHeap E) (n : ℕ) (S : Set E) : Prop where
  slots : n ≤ ht.maxSize
  small : ht.maxSize < 2 ^ 31
  id_pos : ∀ e ∈ S, 1 ≤ ht.timerId e
  id_lt : ∀ e ∈ S, ht.timerId e < ht.maxSize
  id_inj : ∀ e ∈ S, ∀ e' ∈ S, ht.timerId e = ht.timerId e' → e = e'

/-- The first `n` slots hold the entries of `S`, and under the id of each is its slot. -/
structure Placed (ht : TimerHeap E) (n : ℕ) (S : Set E) : Prop extends Sized ht n S where
  placed : ∀ i < n, ∃ e ∈ S, ht.heap i = some e ∧ ht.timerIds (ht.timerId e).toNat = i
  covered : ∀ e ∈ S, ∃ i < n, ht.heap i = some e

/-- They do so but for the entry `moved`, whose slot is to be `s`. -/
structure Sifting (ht : TimerHeap E) (n s : ℕ) (moved : E) (S : Set E) : Prop
    extends Sized ht n S where
  slot : s < n
  mem : moved ∈ S
  placed : ∀ i < n, i ≠ s →
    ∃ e ∈ S, e ≠ moved ∧ ht.heap i = some e ∧ ht.timerIds (ht.timerId e).toNat = i
  covered : ∀ e ∈ S, e ≠ moved → ∃ i < n, i ≠ s ∧ ht.heap i = some e

/-- Only the slots, and what is under the ids of `S`, may be different. -/
structure SameBut (S : Set E) (ht ht' : TimerHeap E) : Prop where
  eq : ht' = { ht with heap := ht'.heap, timerIds := ht'.timerIds }
  ids : ∀ i, (∀ e ∈ S, (ht.timerId e).toNat ≠ i) → ht'.timerIds i = ht.timerIds i

namespace SameBut

theorem refl (S : Set E) (ht : TimerHeap E) : SameBut S ht ht := ⟨rfl, fun _ _ => rfl⟩

theorem maxSize (h : SameBut S ht ht') : ht'.maxSize = ht.maxSize := by rw [h.eq]

theorem curSize (h : SameBut S ht ht') : ht'.curSize = ht.curSize := by rw [h.eq]

theorem freelist (h : SameBut S ht ht') : ht'.timerIdsFreelist = ht.timerIdsFreelist := by rw [h.eq]

theorem timerId (h : SameBut S ht ht') : ht'.timerId = ht.timerId := by rw [h.eq]

theorem timerValue (h : SameBut S ht ht') : ht'.timerValue = ht.timerValue := by rw [h.eq]

theorem hasCb (h : SameBut S ht ht') : ht'.hasCb = ht.hasCb := by rw [h.eq]

theorem trans (h : SameBut S ht ht₁) (h' : SameBut S ht₁ ht') : SameBut S ht ht' := by
  refine ⟨?_, fun i hi => ?_⟩
  · rw [h'.eq, h.eq]
  · rw [h'.ids i (by rw [h.timerId]; exact hi), h.ids i hi]

end SameBut

theorem Sized.toNat_inj (h : Sized ht n S) {e e' : E} (he : e ∈ S) (he' : e' ∈ S)
    (heq : (ht.timerId e).toNat = (ht.timerId e').toNat) : e = e' := by
  have hpos := h.id_pos e he
  have hpos' := h.id_pos e' he'
  exact h.id_inj e he e' he' (by omega)

/-- Ids stay good in longer arrays, for fewer entries, and for any slots in the arrays. -/
theorem Sized.mono (h : Sized ht n S) {n' : ℕ} {S' : Set E} (hn : n' ≤ ht'.maxSize)
    (hmax : ht.maxSize ≤ ht'.maxSize) (hsmall : ht'.maxSize < 2 ^ 31)
    (hid : ∀ e ∈ S', e ∈ S ∧ ht'.timerId e = ht.timerId e) : Sized ht' n' S' := by
  refine ⟨hn, hsmall, ?_, ?_, ?_⟩
  · intro e he
    rw [(hid e he).2]
    exact h.id_pos e (hid e he).1
  · intro e he
    have hlt := h.id_lt e (hid e he).1
    rw [(hid e he).2]
    omega
  · intro e he e' he'
    rw [(hid e he).2, (hid e' he').2]
    exact h.id_inj e (hid e he).1 e' (hid e' he').1

theorem Sized.of_sameBut (h : Sized ht n S) (hsame : SameBut S ht ht') : Sized ht' n S := by
  have hmax := hsame.maxSize
  refine h.mono ?_ hmax.ge ?_ (fun e he => ⟨he, by rw [hsame.timerId]⟩)
  · rw [hmax]
    exact h.slots
  · rw [hmax]
    exact h.small

/-- A heap after `copy_node`. -/
def copied (ht : TimerHeap E) (slot : ℕ) (e : E) : TimerHeap E :=
  { ht with
    heap := Function.update ht.heap slot (some e)
    timerIds := Function.update ht.timerIds (ht.timerId e).toNat slot }

theorem copyNode_eq (h : Sized ht n S) (hslot : slot < n) (he : e ∈ S) :
    ht.copyNode slot e = some (ht.copied slot e) := by
  have hsize := h.slots
  have hsmall := h.small
  have hpos := h.id_pos e he
  have hlt := h.id_lt e he
  unfold copyNode writeHeap writeId
  rw [if_pos (by omega), Option.bind_some, if_pos ⟨by omega, hlt⟩,
    int32_eq (by omega) (by omega)]
  rfl

theorem copied_sameBut (he : e ∈ S) : SameBut S ht (ht.copied slot e) := by
  refine ⟨rfl, fun i hi => ?_⟩
  exact Function.update_of_ne (hi e he).symm _ _

theorem copied_key (ht : TimerHeap E) (slot : ℕ) (e : E) :
    (ht.copied slot e).key = Function.update ht.key slot (ht.timerValue e).key := by
  funext i
  unfold key copied
  dsimp only
  by_cases hi : i = slot
  · rw [hi, Function.update_self, Function.update_self]
    rfl
  · rw [Function.update_of_ne hi, Function.update_of_ne hi]

namespace Sifting

theorem readHeap (h : Sifting ht n s moved S) (hp : p < n) (hps : p ≠ s) :
    ∃ e ∈ S, e ≠ moved ∧ ht.heap p = some e ∧ ht.readHeap p = some e ∧
      ht.key p = (ht.timerValue e).key := by
  obtain ⟨e, he, hne, hheap, -⟩ := h.placed p hp hps
  have hsize := h.slots
  refine ⟨e, he, hne, hheap, ?_, ?_⟩
  · rw [TimerHeap.readHeap, if_pos (by omega), hheap]
  · rw [key, hheap]
    rfl

theorem move (h : Sifting ht n s moved S) (hp : p < n) (hps : p ≠ s) (he : e ∈ S)
    (hheap : ht.heap p = some e) (hne : e ≠ moved) : Sifting (ht.copied s e) n p moved S := by
  have hcopied : SameBut S ht (ht.copied s e) := copied_sameBut he
  have hsized := h.toSized.of_sameBut hcopied
  refine ⟨hsized, hp, h.mem, ?_, ?_⟩
  · intro i hi hip
    by_cases his : i = s
    · subst his
      refine ⟨e, he, hne, Function.update_self _ _ _, Function.update_self _ _ _⟩
    · obtain ⟨x, hx, hxm, hxheap, hxid⟩ := h.placed i hi his
      have hxe : x ≠ e := by
        intro heq
        subst heq
        obtain ⟨y, hy, -, hyheap, hyid⟩ := h.placed p hp hps
        rw [hheap] at hyheap
        cases hyheap
        exact hip (by exact_mod_cast hxid.symm.trans hyid)
      refine ⟨x, hx, hxm, ?_, ?_⟩
      · exact (Function.update_of_ne his _ _).trans hxheap
      · refine (Function.update_of_ne ?_ _ _).trans hxid
        exact fun heq => hxe (h.toNat_inj hx he heq)
  · intro x hx hxm
    by_cases hxe : x = e
    · subst hxe
      exact ⟨s, h.slot, hps.symm, Function.update_self _ _ _⟩
    · obtain ⟨i, hi, his, hxheap⟩ := h.covered x hx hxm
      refine ⟨i, hi, ?_, (Function.update_of_ne his _ _).trans hxheap⟩
      rintro rfl
      rw [hheap] at hxheap
      exact hxe (Option.some.inj hxheap).symm

theorem self (h : Sifting ht n s moved S) : Sifting (ht.copied s moved) n s moved S := by
  have hcopied : SameBut S ht (ht.copied s moved) := copied_sameBut h.mem
  have hsized := h.toSized.of_sameBut hcopied
  refine ⟨hsized, h.slot, h.mem, ?_, ?_⟩
  · intro i hi his
    obtain ⟨x, hx, hxm, hxheap, hxid⟩ := h.placed i hi his
    refine ⟨x, hx, hxm, (Function.update_of_ne his _ _).trans hxheap, ?_⟩
    refine (Function.update_of_ne ?_ _ _).trans hxid
    exact fun heq => hxm (h.toNat_inj hx h.mem heq)
  · intro x hx hxm
    obtain ⟨i, hi, his, hxheap⟩ := h.covered x hx hxm
    exact ⟨i, hi, his, (Function.update_of_ne his _ _).trans hxheap⟩

theorem fill (h : Sifting ht n s moved S) : Placed (ht.copied s moved) n S := by
  have hself := h.self
  refine ⟨hself.toSized, ?_, ?_⟩
  · intro i hi
    by_cases his : i = s
    · subst his
      exact ⟨moved, h.mem, Function.update_self _ _ _, Function.update_self _ _ _⟩
    · obtain ⟨x, hx, -, hrest⟩ := hself.placed i hi his
      exact ⟨x, hx, hrest⟩
  · intro x hx
    by_cases hxm : x = moved
    · subst hxm
      exact ⟨s, h.slot, Function.update_self _ _ _⟩
    · obtain ⟨i, hi, -, hxheap⟩ := hself.covered x hx hxm
      exact ⟨i, hi, hxheap⟩

/-- The end of both loops. -/
theorem finish (h : Sifting ht n s moved S) (hhole : HeapHole ht.key n s)
    (habove : AboveChildren ht.key n s (ht.timerValue moved).key)
    (hbelow : BelowParent ht.key s (ht.timerValue moved).key) :
    ∃ ht', ht.copyNode s moved = some ht' ∧ Placed ht' n S ∧ HeapOrder ht'.key n ∧
      SameBut S ht ht' := by
  refine ⟨_, copyNode_eq h.toSized h.slot h.mem, h.fill, ?_, copied_sameBut h.mem⟩
  rw [copied_key]
  exact hhole.fill habove hbelow

theorem reheapUp (h : Sifting ht n s moved S) (hhole : HeapHole ht.key n s)
    (habove : AboveChildren ht.key n s (ht.timerValue moved).key) {fuel : ℕ} (hfuel : s < fuel) :
    ∃ ht', reheapUp fuel ht moved s (heapParent s) = some ht' ∧ Placed ht' n S ∧
      HeapOrder ht'.key n ∧ SameBut S ht ht' := by
  induction fuel generalizing ht s with
  | zero => omega
  | succ fuel ih =>
    rw [TimerHeap.reheapUp]
    by_cases hs : 0 < s
    · have hps := heapParent_lt hs
      obtain ⟨e, he, hne, hheap, hread, hkey⟩ := h.readHeap (hps.trans h.slot) hps.ne
      rw [if_pos hs, hread, Option.bind_some]
      by_cases hlt : (ht.timerValue moved).lt (ht.timerValue e) = true
      · rw [if_pos hlt, copyNode_eq h.toSized h.slot he, Option.bind_some]
        have hx : (ht.timerValue moved).key < ht.key (heapParent s) := by
          rw [hkey]
          exact (TimeVal.lt_iff _ _).mp hlt
        have hup := hhole.up hs h.slot hx
        rw [hkey, ← copied_key] at hup
        obtain ⟨ht', hrun, hplaced, horder, hsame⟩ :=
          ih (h.move (hps.trans h.slot) hps.ne he hheap hne) hup.1 hup.2 (by omega)
        exact ⟨ht', hrun, hplaced, horder, (copied_sameBut he).trans hsame⟩
      · rw [if_neg hlt]
        refine h.finish hhole habove (fun _ => ?_)
        rw [hkey]
        exact not_lt.mp ((TimeVal.lt_iff _ _).not.mp hlt)
    · rw [if_neg hs]
      exact h.finish hhole habove (fun hpos => absurd hpos hs)

theorem smallerChild (h : Sifting ht n s moved S) (hcur : ht.curSize = n) (hleft : heapLeft s < n) :
    ∃ c, ht.smallerChild (heapLeft s) = some c ∧ 0 < c ∧ c < n ∧ heapParent c = s ∧
      AboveChildren ht.key n s (ht.key c) := by
  have hsl := lt_heapLeft s
  have hchildren {c d : ℕ} (hd : 0 < d) (hparent : heapParent d = s)
      (hl : ht.key c ≤ ht.key (heapLeft s))
      (hr : heapLeft s + 1 < n → ht.key c ≤ ht.key (heapLeft s + 1)) (hlt : d < n) :
      ht.key c ≤ ht.key d := by
    rcases (heapParent_eq_iff hd).mp hparent with rfl | rfl
    · exact hl
    · exact hr hlt
  have hparentL : heapParent (heapLeft s) = s := (heapParent_eq_iff (by omega)).mpr (.inl rfl)
  have hparentR : heapParent (heapLeft s + 1) = s := (heapParent_eq_iff (by omega)).mpr (.inr rfl)
  unfold TimerHeap.smallerChild
  rw [hcur]
  by_cases hright : heapLeft s + 1 < n
  · obtain ⟨er, -, -, -, hreadR, hkeyR⟩ := h.readHeap hright (by omega)
    obtain ⟨el, -, -, -, hreadL, hkeyL⟩ := h.readHeap hleft (by omega)
    rw [if_pos hright, hreadR, Option.bind_some, hreadL, Option.map_some]
    by_cases hlt : (ht.timerValue er).lt (ht.timerValue el) = true
    · have hle : ht.key (heapLeft s + 1) < ht.key (heapLeft s) := by
        rw [hkeyR, hkeyL]
        exact (TimeVal.lt_iff _ _).mp hlt
      rw [if_pos hlt]
      exact ⟨_, rfl, Nat.succ_pos _, hright, hparentR,
        fun d hd hdn hparent => hchildren hd hparent hle.le (fun _ => le_rfl) hdn⟩
    · have hle : ht.key (heapLeft s) ≤ ht.key (heapLeft s + 1) := by
        rw [hkeyR, hkeyL]
        exact not_lt.mp ((TimeVal.lt_iff _ _).not.mp hlt)
      rw [if_neg hlt]
      exact ⟨_, rfl, by omega, hleft, hparentL,
        fun d hd hdn hparent => hchildren hd hparent le_rfl (fun _ => hle) hdn⟩
  · rw [if_neg hright]
    exact ⟨_, rfl, by omega, hleft, hparentL,
      fun d hd hdn hparent => hchildren hd hparent le_rfl (fun h => absurd h hright) hdn⟩

theorem reheapDown (h : Sifting ht n s moved S) (hcur : ht.curSize = n)
    (hhole : HeapHole ht.key n s) (hbelow : BelowParent ht.key s (ht.timerValue moved).key)
    {fuel : ℕ} (hfuel : n < s + fuel) :
    ∃ ht', reheapDown fuel ht moved s (heapLeft s) = some ht' ∧ Placed ht' n S ∧
      HeapOrder ht'.key n ∧ SameBut S ht ht' := by
  induction fuel generalizing ht s with
  | zero =>
    have := h.slot
    omega
  | succ fuel ih =>
    rw [TimerHeap.reheapDown, hcur]
    by_cases hleft : heapLeft s < n
    · obtain ⟨c, hsmaller, hc, hcn, hparent, hfirst⟩ := h.smallerChild hcur hleft
      have hsc : s < c := hparent ▸ heapParent_lt hc
      obtain ⟨e, he, hne, hheap, hread, hkey⟩ := h.readHeap hcn hsc.ne'
      rw [if_pos hleft, hsmaller, Option.bind_some, hread, Option.bind_some]
      by_cases hlt : (ht.timerValue e).lt (ht.timerValue moved) = true
      · rw [if_pos hlt, copyNode_eq h.toSized h.slot he, Option.bind_some]
        have hx : ht.key c < (ht.timerValue moved).key := by
          rw [hkey]
          exact (TimeVal.lt_iff _ _).mp hlt
        have hdown := hhole.down hbelow hc hcn hparent hfirst hx
        rw [hkey, ← copied_key] at hdown
        obtain ⟨ht', hrun, hplaced, horder, hsame⟩ :=
          ih (h.move hcn hsc.ne' he hheap hne) hcur hdown.1 hdown.2 (by omega)
        exact ⟨ht', hrun, hplaced, horder, (copied_sameBut he).trans hsame⟩
      · rw [if_neg hlt]
        refine h.finish hhole (fun d hd hdn hdp => ?_) hbelow
        have hle : (ht.timerValue moved).key ≤ ht.key c := by
          rw [hkey]
          exact not_lt.mp ((TimeVal.lt_iff _ _).not.mp hlt)
        exact hle.trans (hfirst d hd hdn hdp)
    · rw [if_neg hleft]
      refine h.finish hhole (fun d hd hdn hdp => ?_) hbelow
      rcases (heapParent_eq_iff hd).mp hdp with rfl | rfl
      · exact absurd hdn hleft
      · omega

/-- The last entry moves into a slot whose entry is gone. -/
theorem moveLast (h : Sifting ht n s e S) (hcur : ht.curSize = n) (hn : n < ht.maxSize)
    (hlast : ht.heap n = some e) (hhole : HeapHole ht.key n s) :
    ∃ ht', ht.moveLast s = some ht' ∧ Placed ht' n S ∧ HeapOrder ht'.key n ∧ SameBut S ht ht' := by
  have hslot := h.slot
  have hread : ht.readHeap n = some e := by rw [TimerHeap.readHeap, if_pos hn, hlast]
  have hself := h.self
  have hsame : SameBut S ht (ht.copied s e) := copied_sameBut h.mem
  have hkey := copied_key ht s e
  have hkey_ne : ∀ i, i ≠ s → (ht.copied s e).key i = ht.key i := by
    intro i hi
    rw [hkey, Function.update_of_ne hi]
  have hhole' := hhole.congr (fun i _ hi => hkey_ne i hi) hslot
  have hvalue : (ht.copied s e).timerValue = ht.timerValue := rfl
  have hcur' : (ht.copied s e).curSize = n := hcur
  -- the entry in the parent's slot
  have hparent : ∃ p, (ht.copied s e).readHeap (heapParent s) = some p ∧
      (ht.copied s e).key (heapParent s) = (ht.timerValue p).key := by
    rcases Nat.eq_zero_or_pos s with rfl | hpos
    · have hmax : 0 < (ht.copied 0 e).maxSize := hslot.trans hn
      refine ⟨e, ?_, ?_⟩
      · rw [heapParent_zero, TimerHeap.readHeap, if_pos hmax]
        change Function.update ht.heap 0 (some e) 0 = some e
        rw [Function.update_self]
      · rw [heapParent_zero, hkey, Function.update_self]
    · have hlt := heapParent_lt hpos
      obtain ⟨p, -, -, -, hreadp, hkeyp⟩ := hself.readHeap (hlt.trans hslot) hlt.ne
      exact ⟨p, hreadp, hkeyp⟩
  obtain ⟨p, hreadp, hkeyp⟩ := hparent
  have hmoved {ht' : TimerHeap E} (hrun : Placed ht' n S ∧ HeapOrder ht'.key n ∧
      SameBut S (ht.copied s e) ht') :
      Placed ht' n S ∧ HeapOrder ht'.key n ∧ SameBut S ht ht' :=
    ⟨hrun.1, hrun.2.1, hsame.trans hrun.2.2⟩
  rw [TimerHeap.moveLast, hcur, hread, Option.bind_some, copyNode_eq h.toSized hslot h.mem,
    Option.bind_some, hreadp, Option.bind_some, hvalue, hcur']
  by_cases hgte : (ht.timerValue e).gte (ht.timerValue p) = true
  · have hbelow : BelowParent (ht.copied s e).key s (ht.timerValue e).key := by
      intro _
      rw [hkeyp]
      exact (TimeVal.gte_iff _ _).mp hgte
    have hfuel : n < s + (n + 1) := by omega
    obtain ⟨ht', hdown, hrun⟩ := hself.reheapDown hcur' hhole' hbelow hfuel
    rw [if_pos hgte]
    exact ⟨ht', hdown, hmoved hrun⟩
  · have hlt : (ht.timerValue e).key < (ht.copied s e).key (heapParent s) := by
      rw [hkeyp]
      exact not_le.mp ((TimeVal.gte_iff _ _).not.mp hgte)
    have hpos : 0 < s := by
      rcases Nat.eq_zero_or_pos s with rfl | hpos
      · rw [heapParent_zero, hkey, Function.update_self] at hlt
        exact absurd hlt (lt_irrefl _)
      · exact hpos
    obtain ⟨ht', hup, hrun⟩ :=
      hself.reheapUp hhole' (hhole'.aboveChildren hpos hlt) (Nat.lt_add_one s)
    rw [if_neg hgte]
    exact ⟨ht', hup, hmoved hrun⟩

end Sifting

end TimerHeap

end Carrier.Common
