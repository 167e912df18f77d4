import Mathlib.Tactic

/-! Conversions between the integers of a machine. -/
namespace Carrier.Lib

/-- The conversion to `int`. -/
def int32 (z : ℤ) : ℤ := z.bmod (2 ^ 32)

theorem int32_eq {z : ℤ} (hlow : -2 ^ 31 ≤ z) (hhigh : z < 2 ^ 31) : int32 z = z := by
  unfold int32
  rw [Int.bmod_eq_of_le] <;> omega

/-- A value that is computed as an `int`; `none` is an overflow. -/
def fitInt (n : ℕ) : Option ℕ := if n < 2 ^ 31 then some n else none

theorem fitInt_of_lt {n : ℕ} (h : n < 2 ^ 31) : fitInt n = some n := if_pos h

theorem fitInt_of_le {n : ℕ} (h : 2 ^ 31 ≤ n) : fitInt n = none := if_neg (not_lt.mpr h)

theorem fitInt_map_eq_some_iff {α : Type*} {n : ℕ} {f : ℕ → α} {a : α} :
    (fitInt n).map f = some a ↔ n < 2 ^ 31 ∧ f n = a := by
  by_cases hn : n < 2 ^ 31
  · rw [fitInt_of_lt hn, Option.map_some, Option.some.injEq, and_iff_right hn]
  · rw [fitInt_of_le (not_lt.mp hn)]
    constructor
    · intro h
      cases h
    · intro h
      exact absurd h.1 hn

end Carrier.Lib
