import Carrier.Lib.Bytes

/-! Tables of fields at positions, as the builder of a flat buffer takes them and its accessors read
them. A scalar that has its default value is not stored. -/
namespace Carrier.Lib

/-- A stored field. Strings are without their terminator. -/
inductive Slot where
  | bool (v : Bool)
  | uint8 (v : UInt8)
  | int (v : BitVec 32)
  | long (v : BitVec 64)
  | string (s : Bytes)
  | vector (v : Bytes)
  deriving DecidableEq

namespace Slot

def asBool : Slot → Option Bool
  | .bool v => some v
  | _ => none

def asUInt8 : Slot → Option UInt8
  | .uint8 v => some v
  | _ => none

def asInt : Slot → Option (BitVec 32)
  | .int v => some v
  | _ => none

def asLong : Slot → Option (BitVec 64)
  | .long v => some v
  | _ => none

def asString : Slot → Option Bytes
  | .string s => some s
  | _ => none

def asVector : Slot → Option Bytes
  | .vector v => some v
  | _ => none

end Slot

/-- What is stored at each position. -/
abbrev Table := ℕ → Option Slot

namespace Table

def empty : Table := fun _ => none

def add (t : Table) (pos : ℕ) (s : Slot) : Table := Function.update t pos (some s)

def isPresent (t : Table) (pos : ℕ) : Bool := (t pos).isSome

/-- A field of any type; one that is stored with another type reads as absent. -/
def field {α : Type*} (t : Table) (pos : ℕ) (as : Slot → Option α) : Option α := (t pos).bind as

section Scalars

variable {α : Type*}

def addScalar [DecidableEq α] (t : Table) (pos : ℕ) (mk : α → Slot) (default v : α) : Table :=
  if v = default then t else t.add pos (mk v)

def scalar (t : Table) (pos : ℕ) (as : Slot → Option α) (default : α) : α :=
  (t.field pos as).getD default

@[simp] theorem add_self (t : Table) (pos : ℕ) (s : Slot) : t.add pos s pos = some s :=
  Function.update_self ..

@[simp] theorem add_ne {pos pos' : ℕ} (h : pos' ≠ pos) (t : Table) (s : Slot) :
    t.add pos s pos' = t pos' := Function.update_of_ne h ..

@[simp] theorem addScalar_ne [DecidableEq α] {pos pos' : ℕ} (h : pos' ≠ pos) (t : Table) (mk : α → Slot)
    (default v : α) : t.addScalar pos mk default v pos' = t pos' := by
  unfold addScalar
  split_ifs
  · rfl
  · exact add_ne h t (mk v)

@[simp] theorem scalar_add_ne {pos pos' : ℕ} (h : pos' ≠ pos) (t : Table) (s : Slot)
    (as : Slot → Option α) (default : α) :
    (t.add pos s).scalar pos' as default = t.scalar pos' as default := by
  rw [scalar, field, add_ne h]
  rfl

@[simp] theorem scalar_addScalar_ne {β : Type*} [DecidableEq β] {pos pos' : ℕ} (h : pos' ≠ pos)
    (t : Table) (mk : β → Slot) (default' v : β) (as : Slot → Option α) (default : α) :
    (t.addScalar pos mk default' v).scalar pos' as default = t.scalar pos' as default := by
  rw [scalar, field, addScalar_ne h]
  rfl

/-- A scalar reads as what was added, whether or not it has been stored. -/
theorem scalar_addScalar [DecidableEq α] {t : Table} {pos : ℕ} (mk : α → Slot)
    (as : Slot → Option α) (has : ∀ v, as (mk v) = some v) (habsent : t pos = none)
    (default v : α) : (t.addScalar pos mk default v).scalar pos as default = v := by
  unfold addScalar scalar field
  split_ifs with h
  · rw [habsent, h]
    rfl
  · rw [add_self, Option.bind_some, has]
    rfl

end Scalars

end Table

/-- A root table with a union: a tag and a table of its own. -/
structure Root where
  table : Table
  union : Option (ℕ × Table)

/-- A library that writes a root table to a buffer and finds it there. -/
structure BufferLibrary where
  finalize : Root → Bytes
  asRoot : Bytes → Option Root

/-- The root table is read back with everything that was added to it. -/
def BufferLibrary.ReadsBack (flatcc : BufferLibrary) (root : Root) : Prop :=
  flatcc.asRoot (flatcc.finalize root) = some root

end Carrier.Lib
