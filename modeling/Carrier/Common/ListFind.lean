import Carrier.Common.ListRing

/-! The search of `common/linkedlist.c`: `list_create` is given a comparison, and `list_find` uses the
one of the list. -/
namespace Carrier.Common
open Carrier.Lib

/-- `ListEntryCompare` -/
abbrev ListEntryCompare (D : Type*) := ListEntry D → ListEntry D → ℤ

/-- A list with its member `compare`, which may be `NULL`. -/
structure ComparingList (D : Type*) where
  ring : RingList D
  compare : Option (ListEntryCompare D)

namespace ComparingList

variable {D : Type*} [DecidableEq D]

/-- `list_create`. The comparison is not stored, and `rc_zalloc` leaves the member `NULL`. -/
def listCreate (_compare : ListEntryCompare D) (mem : RingList D) : ComparingList D :=
  ⟨RingList.listCreate mem, none⟩

/-- The other calls do not touch the comparison. -/
def run (t : ComparingList D) (ops : List (ListOp D)) :
    Option (ComparingList D × List (ListResult D)) :=
  (t.ring.run ops).map (fun (ring, results) => ({ t with ring := ring }, results))

/-- The condition in the loop of `list_find`. -/
def stops (t : ComparingList D) (probe e : ListEntry D) : Bool :=
  match t.compare with
  | some compare => compare e probe = 0
  | none => e.data = probe.data

/-- The loop of `list_find` from the node `ent` on, with `rounds` to go; `none` is an access to the
data of the head, or to `NULL`. -/
def findLoop (t : ComparingList D) (probe : ListEntry D) : ℕ → Option ℕ → ℤ → Option ℤ
  | 0, _, index => some index
  | _ + 1, none, _ => none
  | rounds + 1, some ent, index =>
    if t.stops probe ⟨ent, t.ring.data ent⟩ then some index
    else (t.ring.next (some ent)).bind (t.findLoop probe rounds · (index + 1))

/-- `list_find`; an `int` counts the entries that are looked at. -/
def listFind (t : ComparingList D) (probe : ListEntry D) : Option ℤ :=
  (t.ring.next none).bind fun ent =>
    (t.findLoop probe (int32 t.ring.size).toNat ent 0).map
      (fun index => if int32 t.ring.size ≤ index then -1 else index)

end ComparingList

section Sequence

variable {D : Type*}

/-- `index` is the least of an entry that compares equal to the probe, or -1. -/
def LeastEqual (compare : ListEntryCompare D) (xs : List (ListEntry D)) (probe : ListEntry D)
    (index : ℤ) : Prop :=
  (∃ l e r, xs = l ++ e :: r ∧ index = l.length ∧ compare e probe = 0 ∧
    ∀ x ∈ l, compare x probe ≠ 0) ∨
  index = -1 ∧ ∀ x ∈ xs, compare x probe ≠ 0

/-- Among the entries that an `int` counts, the first with the data of the probe is the first of all
that compares equal to it, or neither is there. -/
def DataDecides (compare : ListEntryCompare D) (xs : List (ListEntry D)) (probe : ListEntry D) :
    Prop :=
  (∃ l e r, xs = l ++ e :: r ∧ l.length < (int32 xs.length).toNat ∧ e.data = probe.data ∧
    compare e probe = 0 ∧ ∀ x ∈ l, x.data ≠ probe.data ∧ compare x probe ≠ 0) ∨
  (∀ x ∈ xs.take (int32 xs.length).toNat, x.data ≠ probe.data) ∧ ∀ x ∈ xs, compare x probe ≠ 0

end Sequence

theorem int32_natCast_toNat_le (n : ℕ) : (int32 n).toNat ≤ n := by
  unfold int32 Int.bmod
  dsimp only
  split_ifs <;> omega

namespace ComparingList

section Search

variable {D : Type*} [DecidableEq D] {t : ComparingList D} {probe : ListEntry D}

/-- The loop stops at the first entry that it is to stop at. -/
theorem findLoop_found {v : Option ℕ} {l r : List (ListEntry D)} {e : ListEntry D} {rounds : ℕ}
    (hseg : Seg some (Option.join ∘ t.ring.next) v ((l ++ e :: r).map ListEntry.addr) none)
    (hlinked : ∀ x ∈ l, t.ring.next (some x.addr) =
      some ((Option.join ∘ t.ring.next) (some x.addr)))
    (hdata : ∀ x ∈ l ++ e :: r, t.ring.data x.addr = x.data) (hstop : t.stops probe e = true)
    (hpass : ∀ x ∈ l, t.stops probe x = false) (hrounds : l.length < rounds) (index : ℤ) :
    t.findLoop probe rounds v index = some (index + l.length) := by
  induction l generalizing v rounds index with
  | nil =>
    obtain ⟨rounds, rfl⟩ := Nat.exists_eq_succ_of_ne_zero hrounds.ne'
    obtain ⟨rfl, -⟩ := hseg
    have he := hdata e List.mem_cons_self
    rw [findLoop, he, if_pos hstop]
    simp
  | cons x l ih =>
    obtain ⟨rounds, rfl⟩ := Nat.exists_eq_succ_of_ne_zero (Nat.ne_zero_of_lt hrounds)
    obtain ⟨rfl, hrest⟩ := hseg
    have hx := hdata x List.mem_cons_self
    have hpassed : ¬t.stops probe x = true := by
      rw [hpass x List.mem_cons_self]
      exact Bool.false_ne_true
    rw [findLoop, hx, if_neg hpassed, hlinked x List.mem_cons_self, Option.bind_some,
      ih hrest (fun y hy => hlinked y (List.mem_cons_of_mem x hy))
        (fun y hy => hdata y (List.mem_cons_of_mem x hy))
        (fun y hy => hpass y (List.mem_cons_of_mem x hy)) (Nat.lt_of_succ_lt_succ hrounds),
      List.length_cons]
    push_cast
    congr 1
    ring

/-- Otherwise it goes on for all its rounds. -/
theorem findLoop_absent {v : Option ℕ} {xs : List (ListEntry D)} {rounds : ℕ}
    (hseg : Seg some (Option.join ∘ t.ring.next) v (xs.map ListEntry.addr) none)
    (hlinked : ∀ x ∈ xs, t.ring.next (some x.addr) =
      some ((Option.join ∘ t.ring.next) (some x.addr)))
    (hdata : ∀ x ∈ xs, t.ring.data x.addr = x.data) (hrounds : rounds ≤ xs.length)
    (hpass : ∀ x ∈ xs.take rounds, t.stops probe x = false) (index : ℤ) :
    t.findLoop probe rounds v index = some (index + rounds) := by
  induction rounds generalizing v xs index with
  | zero =>
    rw [findLoop]
    simp
  | succ rounds ih =>
    cases xs with
    | nil => exact absurd hrounds (Nat.not_succ_le_zero rounds)
    | cons x xs =>
      obtain ⟨rfl, hrest⟩ := hseg
      have hx := hdata x List.mem_cons_self
      have hpassed : ¬t.stops probe x = true := by
        rw [hpass x List.mem_cons_self]
        exact Bool.false_ne_true
      rw [findLoop, hx, if_neg hpassed, hlinked x List.mem_cons_self, Option.bind_some,
        ih hrest (fun y hy => hlinked y (List.mem_cons_of_mem x hy))
          (fun y hy => hdata y (List.mem_cons_of_mem x hy)) (Nat.le_of_succ_le_succ hrounds)
          (fun y hy => hpass y (List.mem_cons_of_mem x hy))]
      push_cast
      congr 1
      ring

variable {xs : List (ListEntry D)} {base : D → ℤ}

/-- `list_find` among the entries that an `int` counts. -/
theorem listFind_found {l r : List (ListEntry D)} {e : ListEntry D} (h : t.ring.Holds xs base)
    (hsplit : xs = l ++ e :: r) (hcount : l.length < (int32 xs.length).toNat)
    (hstop : t.stops probe e = true) (hpass : ∀ x ∈ l, t.stops probe x = false) :
    t.listFind probe = some (l.length : ℤ) := by
  subst hsplit
  have hlinked : ∀ x ∈ l, t.ring.next (some x.addr) =
      some ((Option.join ∘ t.ring.next) (some x.addr)) := by
    intro x hx
    exact h.reads.next_some (.inr ⟨_, List.mem_map_of_mem (List.mem_append_left _ hx), rfl⟩)
  rw [← h.size] at hcount
  rw [listFind, h.reads.next_some (.inl rfl), Option.bind_some,
    findLoop_found h.reads.ring.next hlinked h.data hstop hpass hcount, Option.map_some, zero_add,
    if_neg (by omega)]

theorem listFind_absent (probe : ListEntry D) (h : t.ring.Holds xs base)
    (hpass : ∀ x ∈ xs.take (int32 xs.length).toNat, t.stops probe x = false) :
    t.listFind probe = some (-1) := by
  have hlinked : ∀ x ∈ xs, t.ring.next (some x.addr) =
      some ((Option.join ∘ t.ring.next) (some x.addr)) := by
    intro x hx
    exact h.reads.next_some (.inr ⟨_, List.mem_map_of_mem hx, rfl⟩)
  have hcount := int32_natCast_toNat_le xs.length
  rw [listFind, h.reads.next_some (.inl rfl), Option.bind_some, h.size,
    findLoop_absent h.reads.ring.next hlinked h.data hcount hpass, Option.map_some, zero_add,
    if_pos (Int.self_le_toNat _)]

theorem stops_eq_true (hcompare : t.compare = none) (probe e : ListEntry D) :
    t.stops probe e = true ↔ e.data = probe.data := by
  rw [stops, hcompare, decide_eq_true_eq]

theorem stops_eq_false (hcompare : t.compare = none) (probe e : ListEntry D) :
    t.stops probe e = false ↔ e.data ≠ probe.data := by
  rw [← Bool.not_eq_true, stops_eq_true hcompare]

/-- In a list without a comparison, `list_find` looks for the data of the probe. -/
theorem listFind_cases (h : t.ring.Holds xs base) (hcompare : t.compare = none)
    (probe : ListEntry D) :
    (∃ l e r, xs = l ++ e :: r ∧ l.length < (int32 xs.length).toNat ∧ e.data = probe.data ∧
      (∀ x ∈ l, x.data ≠ probe.data) ∧ t.listFind probe = some (l.length : ℤ)) ∨
    (∀ x ∈ xs.take (int32 xs.length).toNat, x.data ≠ probe.data) ∧
      t.listFind probe = some (-1) := by
  cases hfind : (xs.take (int32 xs.length).toNat).find? (t.stops probe) with
  | none =>
    right
    have hpass : ∀ x ∈ xs.take (int32 xs.length).toNat, t.stops probe x = false := by
      intro x hx
      exact Bool.eq_false_of_not_eq_true (List.find?_eq_none.mp hfind x hx)
    refine ⟨?_, listFind_absent probe h hpass⟩
    intro x hx
    exact (stops_eq_false hcompare probe x).mp (hpass x hx)
  | some e =>
    left
    obtain ⟨hstop, l, r, hsplit, hbefore⟩ := List.find?_eq_some_iff_append.mp hfind
    have hpass : ∀ x ∈ l, t.stops probe x = false := by
      intro x hx
      exact (Bool.not_eq_true' _).mp (hbefore x hx)
    have hxs : xs = l ++ e :: (r ++ xs.drop (int32 xs.length).toNat) := by
      conv_lhs => rw [← List.take_append_drop (int32 xs.length).toNat xs, hsplit]
      rw [List.append_assoc, List.cons_append]
    have hcount : l.length < (int32 xs.length).toNat := by
      have hlength := congrArg List.length hsplit
      rw [List.length_take, List.length_append, List.length_cons] at hlength
      omega
    refine ⟨l, e, _, hxs, hcount, (stops_eq_true hcompare probe e).mp hstop, ?_,
      listFind_found h hxs hcount hstop hpass⟩
    intro x hx
    exact (stops_eq_false hcompare probe x).mp (hpass x hx)

/-- The result is the one that the comparison asks for exactly if the data decide alike. -/
theorem leastEqual_iff (h : t.ring.Holds xs base) (hcompare : t.compare = none)
    (compare : ListEntryCompare D) (probe : ListEntry D) :
    (∃ index, t.listFind probe = some index ∧ LeastEqual compare xs probe index) ↔
      DataDecides compare xs probe := by
  constructor
  · rintro ⟨index, hindex, hleast⟩
    obtain ⟨l, e, r, hxs, hcount, hdata, hbefore, hresult⟩ | ⟨hpass, hresult⟩ :=
      listFind_cases h hcompare probe
    · cases hresult.symm.trans hindex
      obtain ⟨l', e', r', hxs', hlength, hequal, hnone⟩ | ⟨hneg, -⟩ := hleast
      · obtain ⟨rfl, hrest⟩ := List.append_inj (hxs.symm.trans hxs') (Int.ofNat.inj hlength)
        cases hrest
        exact .inl ⟨l, e, r, hxs, hcount, hdata, hequal, fun x hx => ⟨hbefore x hx, hnone x hx⟩⟩
      · omega
    · cases hresult.symm.trans hindex
      obtain ⟨l', e', r', -, hlength, -⟩ | ⟨-, hnone⟩ := hleast
      · omega
      · exact .inr ⟨hpass, hnone⟩
  · rintro (⟨l, e, r, hxs, hcount, hdata, hequal, hboth⟩ | ⟨hpass, hnone⟩)
    · have hstop := (stops_eq_true hcompare probe e).mpr hdata
      have hresult := listFind_found h hxs hcount hstop
        (fun x hx => (stops_eq_false hcompare probe x).mpr (hboth x hx).1)
      exact ⟨l.length, hresult, .inl ⟨l, e, r, hxs, rfl, hequal, fun x hx => (hboth x hx).2⟩⟩
    · have hresult := listFind_absent probe h
        (fun x hx => (stops_eq_false hcompare probe x).mpr (hpass x hx))
      exact ⟨-1, hresult, .inr ⟨rfl, hnone⟩⟩

end Search

/-- A run of a new list leaves it without a comparison. -/
theorem run_listCreate {D : Type*} [DecidableEq D] (compare : ListEntryCompare D) (mem : RingList D)
    {ops : List (ListOp D)} (hfits : RingList.RunFits [] ops) : ∃ t base,
      (listCreate compare mem).run ops = some (t, (seqRun [] ops).2) ∧
        t.ring.Holds (seqRun [] ops).1 base ∧ t.compare = none := by
  obtain ⟨ring, hrun, hholds⟩ := RingList.run_refines mem hfits
  refine ⟨⟨ring, none⟩, _, ?_, hholds, rfl⟩
  rw [run, listCreate, hrun]
  rfl

/-- Whatever comparison the list is created with and whatever it holds, `list_find` finds what the
comparison asks for exactly if the data decide alike. -/
theorem listFind_leastEqual_iff {D : Type*} [DecidableEq D] (compare : ListEntryCompare D)
    (mem : RingList D) {ops : List (ListOp D)} (hfits : RingList.RunFits [] ops) (probe : ListEntry D) :
    ∃ t results, (listCreate compare mem).run ops = some (t, results) ∧
      ((∃ index, t.listFind probe = some index ∧
          LeastEqual compare (seqRun [] ops).1 probe index) ↔
        DataDecides compare (seqRun [] ops).1 probe) := by
  obtain ⟨t, base, hrun, hholds, hcompare⟩ := run_listCreate compare mem hfits
  exact ⟨t, _, hrun, leastEqual_iff hholds hcompare compare probe⟩

/-- The data are addresses; all that they point to is equal. -/
def alwaysEqual : ListEntryCompare ℕ := fun _ _ => 0

def oneEntry : List (ListOp ℕ) := [.insert 0 10 1]

theorem oneEntry_fits : RingList.RunFits [] oneEntry :=
  ⟨⟨by decide, by simp⟩, fun _ _ => trivial⟩

/-- Another object with the same contents is not found. -/
theorem listFind_not_least : ∃ t results,
    (listCreate alwaysEqual RingList.zeroMem).run oneEntry = some (t, results) ∧
      t.listFind ⟨20, 2⟩ = some (-1) ∧ ¬LeastEqual alwaysEqual [⟨10, 1⟩] ⟨20, 2⟩ (-1) := by
  obtain ⟨t, base, hrun, hholds, hcompare⟩ :=
    run_listCreate alwaysEqual RingList.zeroMem oneEntry_fits
  refine ⟨t, _, hrun, listFind_absent _ hholds ?_, ?_⟩
  · intro x hx
    obtain rfl : x = ⟨10, 1⟩ := List.mem_singleton.mp (List.mem_of_mem_take hx)
    exact (stops_eq_false hcompare _ _).mpr (by decide)
  · rintro (⟨l, e, r, -, hlength, -⟩ | ⟨-, hnone⟩)
    · omega
    · exact hnone ⟨10, 1⟩ List.mem_cons_self rfl

/-- Data are equal when they have the same last digit. -/
def sameDigit : ListEntryCompare ℕ := fun a b => (a.data % 10 : ℤ) - b.data % 10

def threeEntries : List (ListOp ℕ) := [.insert (-1) 10 1, .insert (-1) 20 2, .insert 1 30 3]

theorem threeEntries_fits : RingList.RunFits [] threeEntries := by
  refine ⟨⟨by decide, by simp⟩, fun _ h₁ => ?_⟩
  cases h₁
  refine ⟨⟨by decide, by decide⟩, fun _ h₂ => ?_⟩
  cases h₂
  exact ⟨⟨by decide, by decide⟩, fun _ _ => trivial⟩

/-- An inserted entry itself is found, behind others. -/
theorem listFind_least_itself : ∃ t results index,
    (listCreate sameDigit RingList.zeroMem).run threeEntries = some (t, results) ∧
      t.listFind ⟨20, 2⟩ = some index ∧
        LeastEqual sameDigit [⟨10, 1⟩, ⟨30, 3⟩, ⟨20, 2⟩] ⟨20, 2⟩ index := by
  have hdecides : DataDecides sameDigit (seqRun [] threeEntries).1 ⟨20, 2⟩ :=
    .inl ⟨[⟨10, 1⟩, ⟨30, 3⟩], ⟨20, 2⟩, [], rfl, by decide, rfl, rfl, by decide⟩
  obtain ⟨t, results, hrun, hleast⟩ :=
    listFind_leastEqual_iff sameDigit RingList.zeroMem threeEntries_fits ⟨20, 2⟩
  obtain ⟨index, hfind, hindex⟩ := hleast.mpr hdecides
  exact ⟨t, results, index, hrun, hfind, hindex⟩

end ComparingList

end Carrier.Common
