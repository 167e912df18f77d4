import Mathlib.Tactic

/-! Queues that can be written ahead of their end, as tapes: every item lies at its place for good, a
head has passed what has been taken out, and behind it lie the data and the room for more. -/
namespace Carrier.Lib

/-- A tape of which the cells from `head` on are data, `len` of them, and `capacity` may be written. -/
structure Tape (α : Type*) where
  capacity : ℕ
  head : ℕ
  len : ℕ
  cell : ℕ → Option α

/-- What is done with a tape. -/
inductive TapeOp (α : Type*) where
  | write (data : List α)
  | writeOffset (data : List α) (offset : ℕ)
  | grow (n : ℕ)
  | read (n : ℕ)
  | drop (n : ℕ)
  | resize (n : ℕ)

namespace Tape

variable {α : Type*}

def empty (capacity : ℕ) : Tape α := ⟨capacity, 0, 0, fun _ => none⟩

/-- How many of `count` items there is room for behind a gap. -/
def room (t : Tape α) (count offset : ℕ) : ℕ := min count (t.capacity - t.len - offset)

/-- Items behind a gap after the data. -/
def put (t : Tape α) (data : List α) (offset : ℕ) : Tape α :=
  let start := t.head + t.len + offset
  { t with
    cell := fun j =>
      if start ≤ j ∧ j < start + t.room data.length offset then data[j - start]? else t.cell j }

/-- The next `n` cells are data. -/
def grow (t : Tape α) (n : ℕ) : Tape α := { t with len := t.len + n }

/-- The head passes `n` cells. -/
def pass (t : Tape α) (n : ℕ) : Tape α := { t with head := t.head + n, len := t.len - n }

/-- Another capacity; nothing but the data is kept. -/
def resize (t : Tape α) (n : ℕ) : Tape α :=
  { t with
    capacity := n
    cell := fun j => if j < t.head + t.len then t.cell j else none }

def step (t : Tape α) : TapeOp α → Option (Tape α)
  | .write data => some ((t.put data 0).grow (t.room data.length 0))
  | .writeOffset data offset => some (t.put data offset)
  | .grow n => if n ≤ t.capacity - t.len then some (t.grow n) else none
  | .read n => some (t.pass (min n t.len))
  | .drop n => if n ≤ t.len then some (t.pass n) else none
  | .resize n => if n < t.len then none else if n ≠ t.len then some (t.resize n) else some t

/-- Nothing lies behind the capacity. -/
structure Bounded (t : Tape α) : Prop where
  len_le : t.len ≤ t.capacity
  cell_lt : ∀ j, ∀ x ∈ t.cell j, j < t.head + t.capacity

variable {t : Tape α}

theorem empty_bounded (capacity : ℕ) : (empty capacity : Tape α).Bounded :=
  ⟨Nat.zero_le _, fun _ _ hx => nomatch hx⟩

theorem put_cell (data : List α) (offset j : ℕ) :
    (t.put data offset).cell j =
      if t.head + t.len + offset ≤ j ∧ j < t.head + t.len + offset + t.room data.length offset then
        data[j - (t.head + t.len + offset)]?
      else t.cell j := rfl

theorem Bounded.put (h : t.Bounded) (data : List α) (offset : ℕ) : (t.put data offset).Bounded := by
  refine ⟨h.len_le, fun j x hx => ?_⟩
  have hle := h.len_le
  dsimp only [Tape.put] at hx ⊢
  split_ifs at hx with hin
  · unfold room at hin
    omega
  · exact h.cell_lt j x hx

theorem Bounded.grow (h : t.Bounded) {n : ℕ} (hn : n ≤ t.capacity - t.len) : (t.grow n).Bounded :=
  ⟨Nat.add_le_of_le_sub' h.len_le hn, h.cell_lt⟩

theorem Bounded.pass (h : t.Bounded) (n : ℕ) : (t.pass n).Bounded := by
  refine ⟨(Nat.sub_le _ _).trans h.len_le, fun j x hx => ?_⟩
  have hlt := h.cell_lt j x hx
  dsimp only [Tape.pass]
  omega

theorem Bounded.resize {n : ℕ} (hn : t.len ≤ n) : (t.resize n).Bounded := by
  refine ⟨hn, fun j x hx => ?_⟩
  dsimp only [Tape.resize] at hx ⊢
  split_ifs at hx with hin
  · omega
  · exact nomatch hx

end Tape

end Carrier.Lib
