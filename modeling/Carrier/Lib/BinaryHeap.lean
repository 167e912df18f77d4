import Mathlib.Tactic

/-! Binary heaps in an array of keys. While a key sinks or rises, its slot is a hole: the keys around
it are in order without it. -/
namespace Carrier.Lib

def heapParent (i : ℕ) : ℕ := if i = 0 then 0 else (i - 1) / 2

def heapLeft (i : ℕ) : ℕ := i + i + 1

theorem heapParent_zero : heapParent 0 = 0 := rfl

theorem heapParent_lt {i : ℕ} (h : 0 < i) : heapParent i < i := by
  unfold heapParent
  rw [if_neg h.ne']
  omega

theorem heapParent_eq_iff {c s : ℕ} (hc : 0 < c) :
    heapParent c = s ↔ c = heapLeft s ∨ c = heapLeft s + 1 := by
  unfold heapParent heapLeft
  rw [if_neg hc.ne']
  omega

theorem lt_heapLeft (s : ℕ) : s < heapLeft s := by
  unfold heapLeft
  omega

variable {K : Type*} [LinearOrder K] {v : ℕ → K} {n m s c : ℕ} {x : K}

/-- No key comes before that of its parent. -/
def HeapOrder (v : ℕ → K) (n : ℕ) : Prop := ∀ i, 0 < i → i < n → v (heapParent i) ≤ v i

/-- The keys are in order around the slot `s`, whatever is in it. -/
structure HeapHole (v : ℕ → K) (n s : ℕ) : Prop where
  off : ∀ i, 0 < i → i < n → i ≠ s → heapParent i ≠ s → v (heapParent i) ≤ v i
  skip : 0 < s → ∀ c, 0 < c → c < n → heapParent c = s → v (heapParent s) ≤ v c

/-- The key `x` in the hole is not after the keys below it. -/
def AboveChildren (v : ℕ → K) (n s : ℕ) (x : K) : Prop :=
  ∀ c, 0 < c → c < n → heapParent c = s → x ≤ v c

/-- The key `x` in the hole is not before the key above it. -/
def BelowParent (v : ℕ → K) (s : ℕ) (x : K) : Prop := 0 < s → v (heapParent s) ≤ x

/-- The root comes first. -/
theorem HeapOrder.root_le (h : HeapOrder v n) {i : ℕ} (hi : i < n) : v 0 ≤ v i := by
  induction i using Nat.strongRecOn with
  | ind i ih =>
    rcases Nat.eq_zero_or_pos i with rfl | hpos
    · exact le_rfl
    · have hlt := heapParent_lt hpos
      exact (ih (heapParent i) hlt (hlt.trans hi)).trans (h i hpos hi)

/-- Any slot can be made a hole, also in fewer keys. -/
theorem HeapOrder.hole (h : HeapOrder v n) (hm : m ≤ n) (hs : s < n) : HeapHole v m s := by
  constructor
  · exact fun i hpos hi _ _ => h i hpos (hi.trans_le hm)
  · intro hpos c hc hlt hparent
    have hup := h s hpos hs
    have hdown := h c hc (hlt.trans_le hm)
    rw [hparent] at hdown
    exact hup.trans hdown

/-- The slot behind the keys is a hole without children. -/
theorem HeapOrder.behind (h : HeapOrder v n) :
    HeapHole v (n + 1) n ∧ AboveChildren v (n + 1) n x := by
  have hleaf : ∀ c, 0 < c → c < n + 1 → heapParent c ≠ n := by
    intro c hc hlt hparent
    have := heapParent_lt hc
    omega
  constructor
  · constructor
    · exact fun i hpos hi hne _ => h i hpos (by omega)
    · exact fun _ c hc hlt hparent => absurd hparent (hleaf c hc hlt)
  · exact fun c hc hlt hparent => absurd hparent (hleaf c hc hlt)

/-- A key before the one above the hole may have the hole above it. -/
theorem HeapHole.aboveChildren (h : HeapHole v n s) (hs : 0 < s) (hx : x < v (heapParent s)) :
    AboveChildren v n s x :=
  fun c hc hlt hparent => hx.le.trans (h.skip hs c hc hlt hparent)

/-- The key above the hole moves into it. -/
theorem HeapHole.up (h : HeapHole v n s) (hs : 0 < s) (hn : s < n) (hx : x < v (heapParent s)) :
    HeapHole (Function.update v s (v (heapParent s))) n (heapParent s) ∧
      AboveChildren (Function.update v s (v (heapParent s))) n (heapParent s) x := by
  have hps := heapParent_lt hs
  -- the keys beside the hole
  have hside : ∀ c, 0 < c → c < n → c ≠ s → heapParent c = heapParent s →
      v (heapParent s) ≤ v c := by
    intro c hc hlt hne hparent
    have hoff := h.off c hc hlt hne (by omega)
    rwa [hparent] at hoff
  refine ⟨⟨?_, ?_⟩, ?_⟩
  · intro i hpos hi hip hparent
    have his : i ≠ s := fun heq => hparent (heq ▸ rfl)
    rw [Function.update_of_ne his]
    by_cases hchild : heapParent i = s
    · rw [hchild, Function.update_self]
      exact h.skip hs i hpos hi hchild
    · rw [Function.update_of_ne hchild]
      exact h.off i hpos hi his hchild
  · intro hp c hc hlt hparent
    have hpps := heapParent_lt hp
    have hup : v (heapParent (heapParent s)) ≤ v (heapParent s) :=
      h.off _ hp (hps.trans hn) hps.ne (by omega)
    rw [Function.update_of_ne (by omega)]
    by_cases hcs : c = s
    · rw [hcs, Function.update_self]
      exact hup
    · rw [Function.update_of_ne hcs]
      exact hup.trans (hside c hc hlt hcs hparent)
  · intro c hc hlt hparent
    by_cases hcs : c = s
    · rw [hcs, Function.update_self]
      exact hx.le
    · rw [Function.update_of_ne hcs]
      exact hx.le.trans (hside c hc hlt hcs hparent)

/-- The smaller of the keys below the hole moves into it. -/
theorem HeapHole.down (h : HeapHole v n s) (hbelow : BelowParent v s x) (hc : 0 < c) (hn : c < n)
    (hparent : heapParent c = s) (hfirst : AboveChildren v n s (v c)) (hx : v c < x) :
    HeapHole (Function.update v s (v c)) n c ∧
      BelowParent (Function.update v s (v c)) c x := by
  have hsc : s < c := hparent ▸ heapParent_lt hc
  refine ⟨⟨?_, ?_⟩, ?_⟩
  · intro i hpos hi hic hchild
    by_cases his : i = s
    · subst his
      have hne := (heapParent_lt hpos).ne
      rw [Function.update_self, Function.update_of_ne hne]
      exact h.skip hpos c hc hn hparent
    · rw [Function.update_of_ne his]
      by_cases hps : heapParent i = s
      · rw [hps, Function.update_self]
        exact hfirst i hpos hi hps
      · rw [Function.update_of_ne hps]
        exact h.off i hpos hi his hps
  · intro _ d hd hlt hdc
    have hcd : c < d := hdc ▸ heapParent_lt hd
    have hoff := h.off d hd hlt (by omega) (by omega)
    rw [hdc] at hoff
    rw [hparent, Function.update_self, Function.update_of_ne (by omega)]
    exact hoff
  · intro _
    rw [hparent, Function.update_self]
    exact hx.le

/-- A key that fits fills the hole. -/
theorem HeapHole.fill (h : HeapHole v n s) (habove : AboveChildren v n s x)
    (hbelow : BelowParent v s x) : HeapOrder (Function.update v s x) n := by
  intro i hpos hi
  by_cases his : i = s
  · subst his
    rw [Function.update_self, Function.update_of_ne (heapParent_lt hpos).ne]
    exact hbelow hpos
  · rw [Function.update_of_ne his]
    by_cases hps : heapParent i = s
    · rw [hps, Function.update_self]
      exact habove i hpos hi hps
    · rw [Function.update_of_ne hps]
      exact h.off i hpos hi his hps

/-- What is in the hole does not matter. -/
theorem HeapHole.congr {v' : ℕ → K} (h : HeapHole v n s) (heq : ∀ i < n, i ≠ s → v' i = v i)
    (hs : s < n) : HeapHole v' n s := by
  constructor
  · intro i hpos hi his hps
    rw [heq i hi his, heq _ ((heapParent_lt hpos).trans hi) hps]
    exact h.off i hpos hi his hps
  · intro hpos c hc hlt hparent
    have hps := heapParent_lt hpos
    have hsc := hparent ▸ heapParent_lt hc
    rw [heq c hlt hsc.ne', heq _ (hps.trans hs) hps.ne]
    exact h.skip hpos c hc hlt hparent

/-- The order only depends on the keys. -/
theorem HeapOrder.congr {v' : ℕ → K} (h : HeapOrder v n) (heq : ∀ i < n, v' i = v i) :
    HeapOrder v' n := by
  intro i hpos hi
  rw [heq i hi, heq _ ((heapParent_lt hpos).trans hi)]
  exact h i hpos hi

end Carrier.Lib
