import Mathlib.Data.Prod.Lex
import Mathlib.Tactic

/-! `time_val_t` of `common/timerheap.c`. A `long` that overflows is undefined: the fields are
integers. -/
namespace Carrier.Common

structure TimeVal where
  sec : ℤ
  msec : ℤ
  deriving DecidableEq

/-- What `gettimeofday` gives: the seconds since the Epoch, and microseconds. -/
structure Timeval where
  sec : ℕ
  usec : ℕ
  usec_lt : usec < 1000000

def Timeval.ofSec (sec : ℕ) : Timeval := ⟨sec, 0, by decide⟩

namespace TimeVal

/-- `TIME_VAL_MSEC` -/
def toMsec (t : TimeVal) : ℤ := t.sec * 1000 + t.msec

def eq (t₁ t₂ : TimeVal) : Bool := t₁.sec = t₂.sec ∧ t₁.msec = t₂.msec

def gt (t₁ t₂ : TimeVal) : Bool := t₂.sec < t₁.sec ∨ t₁.sec = t₂.sec ∧ t₂.msec < t₁.msec

def gte (t₁ t₂ : TimeVal) : Bool := gt t₁ t₂ || eq t₁ t₂

def lt (t₁ t₂ : TimeVal) : Bool := !gte t₁ t₂

def lte (t₁ t₂ : TimeVal) : Bool := !gt t₁ t₂

/-- The loop of `time_val_normalize`, up to `fuel` rounds. -/
def borrow : ℕ → TimeVal → TimeVal
  | 0, t => t
  | fuel + 1, t => if t.msec ≤ -1000 then borrow fuel ⟨t.sec - 1, t.msec + 1000⟩ else t

/-- The first part of `time_val_normalize` -/
def carry (t : TimeVal) : TimeVal :=
  if 1000 ≤ t.msec then ⟨t.sec + t.msec.tdiv 1000, t.msec.tmod 1000⟩
  else if t.msec ≤ -1000 then borrow t.msec.natAbs t
  else t

def normalize (t : TimeVal) : TimeVal :=
  let t := carry t
  if 1 ≤ t.sec ∧ t.msec < 0 then ⟨t.sec - 1, t.msec + 1000⟩
  else if t.sec < 0 ∧ 0 < t.msec then ⟨t.sec + 1, t.msec - 1000⟩
  else t

def add (t₁ t₂ : TimeVal) : TimeVal := normalize ⟨t₁.sec + t₂.sec, t₁.msec + t₂.msec⟩

def sub (t₁ t₂ : TimeVal) : TimeVal := normalize ⟨t₁.sec - t₂.sec, t₁.msec - t₂.msec⟩

def gettickcount (tv : Timeval) : TimeVal := ⟨tv.sec, (tv.usec / 1000 : ℕ)⟩

/-- The order of the macros is that of the pairs. -/
def key (t : TimeVal) : ℤ ×ₗ ℤ := toLex (t.sec, t.msec)

theorem gt_iff (t₁ t₂ : TimeVal) : gt t₁ t₂ = true ↔ t₂.key < t₁.key := by
  rw [key, key, Prod.Lex.toLex_lt_toLex, gt, decide_eq_true_eq, eq_comm (a := t₂.sec)]

theorem gte_iff (t₁ t₂ : TimeVal) : gte t₁ t₂ = true ↔ t₂.key ≤ t₁.key := by
  have heq : eq t₁ t₂ = true ↔ t₂.key = t₁.key := by
    rw [key, key, eq, decide_eq_true_eq, toLex_inj, Prod.mk.injEq, eq_comm, eq_comm (a := t₁.msec)]
  rw [gte, Bool.or_eq_true, gt_iff, heq, le_iff_lt_or_eq]

theorem lt_iff (t₁ t₂ : TimeVal) : lt t₁ t₂ = true ↔ t₁.key < t₂.key := by
  rw [lt, Bool.not_eq_true', ← Bool.not_eq_true, gte_iff, not_le]

theorem lte_iff (t₁ t₂ : TimeVal) : lte t₁ t₂ = true ↔ t₁.key ≤ t₂.key := by
  rw [lte, Bool.not_eq_true', ← Bool.not_eq_true, gt_iff, not_lt]

/-- Less than a second in `msec`, with the sign of `sec`. -/
def Canonical (t : TimeVal) : Prop :=
  (0 ≤ t.sec ∧ 0 ≤ t.msec ∧ t.msec < 1000) ∨ (t.sec ≤ 0 ∧ -1000 < t.msec ∧ t.msec ≤ 0)

theorem borrow_spec {fuel : ℕ} {t : TimeVal} (hfuel : -(fuel : ℤ) ≤ t.msec) (hneg : t.msec ≤ 0) :
    (borrow fuel t).toMsec = t.toMsec ∧ -1000 < (borrow fuel t).msec ∧ (borrow fuel t).msec ≤ 0 := by
  induction fuel generalizing t with
  | zero => exact ⟨rfl, by rw [borrow]; omega, hneg⟩
  | succ fuel ih =>
    rw [borrow]
    split_ifs with hloop
    · obtain ⟨htotal, hrest⟩ := @ih ⟨t.sec - 1, t.msec + 1000⟩ (by dsimp only; omega) (by dsimp only; omega)
      refine ⟨?_, hrest⟩
      rw [htotal, toMsec, toMsec]
      ring
    · exact ⟨rfl, by omega, hneg⟩

theorem carry_spec (t : TimeVal) :
    (carry t).toMsec = t.toMsec ∧ -1000 < (carry t).msec ∧ (carry t).msec < 1000 := by
  unfold carry
  split_ifs with hhigh hlow
  · have hdiv := Int.mul_tdiv_add_tmod t.msec 1000
    have hnonneg : 0 ≤ t.msec.tmod 1000 := Int.tmod_nonneg 1000 (by omega)
    have hlt : t.msec.tmod 1000 < 1000 := Int.tmod_lt_of_pos t.msec (by norm_num)
    refine ⟨?_, by dsimp only; omega, hlt⟩
    rw [toMsec, toMsec]
    dsimp only
    linarith
  · obtain ⟨htotal, hlow', hhigh'⟩ := @borrow_spec t.msec.natAbs t (by omega) (by omega)
    exact ⟨htotal, hlow', by omega⟩
  · exact ⟨rfl, by omega, by omega⟩

theorem normalize_spec (t : TimeVal) :
    (normalize t).toMsec = t.toMsec ∧ (normalize t).Canonical := by
  obtain ⟨htotal, hlow, hhigh⟩ := carry_spec t
  unfold normalize
  dsimp only
  rw [← htotal]
  split_ifs with h₁ h₂
  · refine ⟨?_, .inl ⟨?_, ?_, ?_⟩⟩
    · rw [toMsec, toMsec]
      ring
    all_goals dsimp only; omega
  · refine ⟨?_, .inr ⟨?_, ?_, ?_⟩⟩
    · rw [toMsec, toMsec]
      ring
    all_goals dsimp only; omega
  · refine ⟨rfl, ?_⟩
    unfold Canonical
    omega

theorem sub_clamped (t₁ t₂ : TimeVal) {d : TimeVal}
    (hd : d = if (sub t₁ t₂).sec < 0 ∨ (sub t₁ t₂).msec < 0 then ⟨0, 0⟩ else sub t₁ t₂) :
    d.toMsec = max 0 (t₁.toMsec - t₂.toMsec) ∧ d.Canonical := by
  obtain ⟨htotal, hcanonical⟩ := normalize_spec ⟨t₁.sec - t₂.sec, t₁.msec - t₂.msec⟩
  change (sub t₁ t₂).toMsec = _ at htotal
  change (sub t₁ t₂).Canonical at hcanonical
  unfold toMsec Canonical at *
  split_ifs at hd with hneg
  all_goals
    subst hd
    dsimp only at *
    omega

/-- Among canonical times the order of the pairs is that of the times. -/
theorem Canonical.key_le_iff {t₁ t₂ : TimeVal} (h₁ : t₁.Canonical) (h₂ : t₂.Canonical) :
    t₁.key ≤ t₂.key ↔ t₁.toMsec ≤ t₂.toMsec := by
  unfold Canonical at h₁ h₂
  rw [key, key, Prod.Lex.toLex_le_toLex, toMsec, toMsec]
  dsimp only
  omega

/-- A canonical time has less than a second in `msec`, and no field of the other's sign. -/
theorem canonical_iff (t : TimeVal) : t.Canonical ↔ |t.msec| < 1000 ∧ 0 ≤ t.sec * t.msec := by
  rw [Canonical, abs_lt, mul_nonneg_iff]
  omega

theorem Canonical.eq_of_toMsec_eq {t₁ t₂ : TimeVal} (h₁ : t₁.Canonical) (h₂ : t₂.Canonical)
    (htotal : t₁.toMsec = t₂.toMsec) : t₁ = t₂ := by
  have hle := (h₁.key_le_iff h₂).mpr htotal.le
  have hge := (h₂.key_le_iff h₁).mpr htotal.ge
  have hkey : toLex (t₁.sec, t₁.msec) = toLex (t₂.sec, t₂.msec) := le_antisymm hle hge
  rw [toLex_inj, Prod.mk.injEq] at hkey
  cases t₁
  cases t₂
  rw [mk.injEq]
  exact hkey

/-- Among canonical times the macros compare the totals. -/
structure OrderedByTotal (t₁ t₂ : TimeVal) : Prop where
  gt : gt t₁ t₂ = true ↔ t₂.toMsec < t₁.toMsec
  gte : gte t₁ t₂ = true ↔ t₂.toMsec ≤ t₁.toMsec
  lt : lt t₁ t₂ = true ↔ t₁.toMsec < t₂.toMsec
  lte : lte t₁ t₂ = true ↔ t₁.toMsec ≤ t₂.toMsec
  eq : eq t₁ t₂ = true ↔ t₁.toMsec = t₂.toMsec

theorem Canonical.orderedByTotal {t₁ t₂ : TimeVal} (h₁ : t₁.Canonical) (h₂ : t₂.Canonical) :
    OrderedByTotal t₁ t₂ where
  gt := by rw [gt_iff, ← not_le, h₁.key_le_iff h₂, not_le]
  gte := by rw [gte_iff, h₂.key_le_iff h₁]
  lt := by rw [lt_iff, ← not_le, h₂.key_le_iff h₁, not_le]
  lte := by rw [lte_iff, h₁.key_le_iff h₂]
  eq := by
    rw [TimeVal.eq, decide_eq_true_eq]
    constructor
    · intro hfields
      rw [toMsec, toMsec, hfields.1, hfields.2]
    · intro htotal
      rw [h₁.eq_of_toMsec_eq h₂ htotal]
      exact ⟨rfl, rfl⟩

/-- Once the fuel covers the milliseconds, more of it changes nothing. -/
theorem borrow_congr {m n : ℕ} {t : TimeVal} (hm : -(m : ℤ) ≤ t.msec) (hn : -(n : ℤ) ≤ t.msec) :
    borrow m t = borrow n t := by
  induction m generalizing n t with
  | zero =>
    have hexit : ¬ t.msec ≤ -1000 := by omega
    cases n with
    | zero => rfl
    | succ n => rw [borrow, borrow, if_neg hexit]
  | succ m ih =>
    by_cases hloop : t.msec ≤ -1000
    · cases n with
      | zero => omega
      | succ n =>
        rw [borrow, borrow, if_pos hloop, if_pos hloop]
        apply ih
        all_goals dsimp only; omega
    · cases n with
      | zero => rw [borrow, borrow, if_neg hloop]
      | succ n => rw [borrow, borrow, if_neg hloop, if_neg hloop]

/-- The loop entered at `t` leaves by its own condition after finitely many rounds. -/
def BorrowEnds (t : TimeVal) : Prop :=
  ∃ rounds, ∀ fuel, rounds ≤ fuel → borrow fuel t = borrow rounds t ∧ -1000 < (borrow fuel t).msec

theorem borrowEnds {t : TimeVal} (hneg : t.msec ≤ -1000) : BorrowEnds t := by
  refine ⟨t.msec.natAbs, fun fuel hfuel => ?_⟩
  have henough : -(fuel : ℤ) ≤ t.msec := by omega
  constructor
  · exact borrow_congr henough (by omega)
  · exact (borrow_spec henough (by omega)).2.1

/-- What `time_val_normalize` makes of a time with the total `total`. -/
structure ExactFor (total : ℤ) (t : TimeVal) : Prop where
  total : t.toMsec = total
  msec_lt : |t.msec| < 1000
  same_sign : 0 ≤ t.sec * t.msec

theorem normalize_exactFor (t : TimeVal) : ExactFor t.toMsec (normalize t) := by
  obtain ⟨htotal, hcanonical⟩ := normalize_spec t
  obtain ⟨hmsec, hsign⟩ := (canonical_iff _).mp hcanonical
  exact ⟨htotal, hmsec, hsign⟩

theorem ExactFor.canonical {total : ℤ} {t : TimeVal} (h : ExactFor total t) : t.Canonical :=
  (canonical_iff t).mpr ⟨h.msec_lt, h.same_sign⟩

theorem add_exactFor (t₁ t₂ : TimeVal) : ExactFor (t₁.toMsec + t₂.toMsec) (add t₁ t₂) := by
  have hexact := normalize_exactFor ⟨t₁.sec + t₂.sec, t₁.msec + t₂.msec⟩
  have htotal : toMsec ⟨t₁.sec + t₂.sec, t₁.msec + t₂.msec⟩ = t₁.toMsec + t₂.toMsec := by
    unfold toMsec
    ring
  rwa [htotal] at hexact

theorem sub_exactFor (t₁ t₂ : TimeVal) : ExactFor (t₁.toMsec - t₂.toMsec) (sub t₁ t₂) := by
  have hexact := normalize_exactFor ⟨t₁.sec - t₂.sec, t₁.msec - t₂.msec⟩
  have htotal : toMsec ⟨t₁.sec - t₂.sec, t₁.msec - t₂.msec⟩ = t₁.toMsec - t₂.toMsec := by
    unfold toMsec
    ring
  rwa [htotal] at hexact

/-- The loop of the normaliser ends, the normaliser, `TIME_VAL_ADD` and `TIME_VAL_SUB` are exact,
and on exact times of any totals the macros compare the totals. -/
theorem normalize_exact (t₁ t₂ : TimeVal) :
    (t₁.msec ≤ -1000 → BorrowEnds t₁) ∧
    ExactFor t₁.toMsec (normalize t₁) ∧
    ExactFor (t₁.toMsec + t₂.toMsec) (add t₁ t₂) ∧
    ExactFor (t₁.toMsec - t₂.toMsec) (sub t₁ t₂) ∧
    ∀ total₁ total₂ : ℤ, ∀ u₁ u₂ : TimeVal, ExactFor total₁ u₁ → ExactFor total₂ u₂ →
      OrderedByTotal u₁ u₂ := by
  refine ⟨borrowEnds, normalize_exactFor t₁, add_exactFor t₁ t₂, sub_exactFor t₁ t₂, ?_⟩
  intro total₁ total₂ u₁ u₂ h₁ h₂
  exact h₁.canonical.orderedByTotal h₂.canonical

theorem normalize_exact_negative :
    BorrowEnds ⟨0, -2500⟩ ∧ OrderedByTotal ⟨-2, -500⟩ ⟨-1, -500⟩ := by
  obtain ⟨hloop, -, -, -, hordered⟩ := normalize_exact ⟨0, -2500⟩ ⟨1, 0⟩
  constructor
  · exact hloop (by norm_num)
  · apply hordered (-2500) (-1500)
    · exact ⟨by decide, by norm_num, by norm_num⟩
    · exact ⟨by decide, by norm_num, by norm_num⟩

example : sub ⟨0, 0⟩ ⟨1, 500⟩ = ⟨-1, -500⟩ := by decide

theorem gettickcount_canonical (tv : Timeval) : (gettickcount tv).Canonical := by
  have := tv.usec_lt
  unfold Canonical gettickcount
  dsimp only
  omega

end TimeVal

end Carrier.Common
