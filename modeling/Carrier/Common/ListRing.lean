import Carrier.Common.LinkedList
import Carrier.Lib.Linked
import Carrier.Lib.MachineInts
import Carrier.Lib.Run

/-! `common/linkedlist.c` in memory: a ring of entries through the head of the list. The calls with an
index act on the sequence that the ring holds. The checks that repeat the assertions decide where these
are compiled out, as in a release; up to the first failing assertion both builds do the same. -/
namespace Carrier.Common
open Carrier.Lib

/-- A list with the memory it lives in; an entry is its address. A node is an entry or, as `none`, the
head. A pointer to a node may be `NULL`, the outer `none`. -/
structure RingList (D : Type*) where
  size : ℕ
  modCount : BitVec 32
  data : ℕ → D
  next : Option ℕ → Option (Option ℕ)
  prev : Option ℕ → Option (Option ℕ)
  nrefs : D → ℤ

namespace RingList

variable {D : Type*} [DecidableEq D]

/-- `list_create` in a memory with any contents. -/
def listCreate (mem : RingList D) : RingList D :=
  { mem with
    size := 0
    modCount := 0
    next := Function.update mem.next none (some none)
    prev := Function.update mem.prev none (some none) }

def ref (t : RingList D) (d : D) : RingList D :=
  { t with nrefs := Function.update t.nrefs d (t.nrefs d + 1) }

def deref (t : RingList D) (d : D) : RingList D :=
  { t with nrefs := Function.update t.nrefs d (t.nrefs d - 1) }

def setData (t : RingList D) (ent : ℕ) (data : D) : RingList D :=
  { t with data := Function.update t.data ent data }

/-- The end of `list_insert`: `ent` goes behind the node `cur`. -/
def linkBehind (t : RingList D) (cur : Option ℕ) (ent : ℕ) : Option (RingList D) :=
  let prev := Function.update t.prev (some ent) (some cur)
  let next := Function.update t.next (some ent) (t.next cur)
  (next cur).map (fun n =>
    { t with
      size := t.size + 1
      modCount := t.modCount + 1
      prev := Function.update prev n (some (some ent))
      next := Function.update next cur (some (some ent)) })

/-- `list_insert`, after the caller has set the data of the entry. -/
def listInsert (t : RingList D) (index : ℤ) (ent : ℕ) (data : D) : Option (RingList D × Bool) :=
  let t := t.setData ent data
  if index < int32 (-int32 (t.size + 1 : ℕ)) ∨ int32 t.size < index then some (t, false)
  else
    let t := t.ref data
    let cur := if 0 ≤ index then walk t.next index.toNat none else walk t.prev (-index).toNat none
    (cur.bind (t.linkBehind · ent)).map (·, true)

/-- The end of `list_remove_entry` and `list_remove`: `ent` is taken out of the ring. -/
def unlink (t : RingList D) (ent : ℕ) : Option (RingList D × D) :=
  (t.next (some ent)).bind fun n =>
    (t.prev (some ent)).bind fun p =>
      let prev := Function.update t.prev n (some p)
      (prev (some ent)).map fun p =>
        let next := Function.update t.next p (t.next (some ent))
        ({ t with
            size := t.size - 1
            modCount := t.modCount + 1
            prev := Function.update prev (some ent) none
            next := Function.update next (some ent) none }, t.data ent)

def listRemoveEntry (t : RingList D) (ent : ℕ) : Option (RingList D × Option D) :=
  if t.next (some ent) = none ∨ t.prev (some ent) = none then some (t, none)
  else (t.unlink ent).map (fun (t, val) => (t, some val))

/-- The loops of `list_remove` and `list_get`, which start at the first entry or at the head; `none` is
an access to `NULL`, or to the data of the head. -/
def entryAt (t : RingList D) (index : ℤ) : Option ℕ :=
  (if 0 ≤ index then (t.next none).bind (walk t.next index.toNat)
    else walk t.prev (-index).toNat none).join

def listRemove (t : RingList D) (index : ℤ) : Option (RingList D × Option D) :=
  if index < int32 (-int32 t.size) ∨ int32 t.size ≤ index then some (t, none)
  else ((t.entryAt index).bind t.unlink).map (fun (t, val) => (t, some val))

/-- `list_get`; the caller gets a reference. -/
def listGet (t : RingList D) (index : ℤ) : Option (RingList D × Option D) :=
  if index < int32 (-int32 t.size) ∨ int32 t.size ≤ index then some (t, none)
  else (t.entryAt index).map (fun ent => (t.ref (t.data ent), some (t.data ent)))

/-- The loop of `list_clear_i`, from the node `ent` on. -/
def clearLoop : ℕ → RingList D → Option ℕ → Option (RingList D)
  | _, t, none => some t
  | 0, _, some _ => none
  | fuel + 1, t, some cur => (t.next (some cur)).bind (clearLoop fuel (t.deref (t.data cur)))

/-- `list_clear`; the links of the entries stay as they are. -/
def listClear (t : RingList D) : Option (RingList D) :=
  ((t.next none).bind (clearLoop t.size t)).map (fun t =>
    { t with
      size := 0
      modCount := t.modCount + 1
      next := Function.update t.next none (some none)
      prev := Function.update t.prev none (some none) })

end RingList

inductive ListOp (D : Type*) where
  | insert (index : ℤ) (ent : ℕ) (data : D)
  | remove (index : ℤ)
  | removeEntry (ent : ℕ)
  | get (index : ℤ)
  | clear

inductive ListResult (D : Type*) where
  | inserted (ok : Bool)
  | removed (data : Option D)
  | got (data : Option D)
  | cleared
  deriving DecidableEq

section Sequence

variable {D : Type*}

/-- Where an insertion at an index of a sequence of length `n` goes. -/
def insertPos (n : ℕ) (index : ℤ) : Option ℕ :=
  if 0 ≤ index ∧ index ≤ n then some index.toNat
  else if -(n + 1) ≤ index ∧ index < 0 then some (n + 1 + index).toNat
  else none

/-- The position that an index stands for in a sequence of length `n`. -/
def accessPos (n : ℕ) (index : ℤ) : Option ℕ :=
  if 0 ≤ index ∧ index < n then some index.toNat
  else if -n ≤ index ∧ index < 0 then some (n + index).toNat
  else none

def seqStep (xs : List (ListEntry D)) : ListOp D → List (ListEntry D) × ListResult D
  | .insert index ent data =>
    match insertPos xs.length index with
    | none => (xs, .inserted false)
    | some p => (xs.insertIdx p ⟨ent, data⟩, .inserted true)
  | .remove index =>
    match accessPos xs.length index with
    | none => (xs, .removed none)
    | some p => (xs.eraseIdx p, .removed (xs[p]?.map ListEntry.data))
  | .removeEntry ent =>
    (xs.eraseP (·.addr = ent), .removed ((xs.find? (·.addr = ent)).map ListEntry.data))
  | .get index =>
    (xs, .got ((accessPos xs.length index).bind (fun p => xs[p]?.map ListEntry.data)))
  | .clear => ([], .cleared)

/-- An index is only used while an `int` holds the size of the list, and an entry is only inserted
while it is not in the list, and only removed while it is. -/
def ListOp.Fits (xs : List (ListEntry D)) : ListOp D → Prop
  | .insert _ ent _ => xs.length < 2 ^ 31 ∧ ∀ e ∈ xs, e.addr ≠ ent
  | .remove _ | .get _ => xs.length < 2 ^ 31
  | .removeEntry ent => ∃ e ∈ xs, e.addr = ent
  | .clear => True

/-- The references on `d` that the caller gets with a result. -/
def ListResult.handed [DecidableEq D] : ListResult D → D → ℕ
  | .removed data, d | .got data, d => data.toList.count d
  | .inserted _, _ | .cleared, _ => 0

def seqRun : List (ListEntry D) → List (ListOp D) → List (ListEntry D) × List (ListResult D)
  | xs, [] => (xs, [])
  | xs, op :: ops =>
    let (xs, result) := seqStep xs op
    let (xs, results) := seqRun xs ops
    (xs, result :: results)

end Sequence

namespace RingList

variable {D : Type*} [DecidableEq D]

/-- One call of `linkedlist.c`; `none` is an access to `NULL`. -/
def step (t : RingList D) : ListOp D → Option (RingList D × ListResult D)
  | .insert index ent data => (t.listInsert index ent data).map (fun (t, ok) => (t, .inserted ok))
  | .remove index => (t.listRemove index).map (fun (t, val) => (t, .removed val))
  | .removeEntry ent => (t.listRemoveEntry ent).map (fun (t, val) => (t, .removed val))
  | .get index => (t.listGet index).map (fun (t, val) => (t, .got val))
  | .clear => t.listClear.map (·, .cleared)

def run : RingList D → List (ListOp D) → Option (RingList D × List (ListResult D))
  | t, [] => some (t, [])
  | t, op :: ops =>
    (t.step op).bind (fun (t, result) =>
      (run t ops).map (fun (t, results) => (t, result :: results)))

/-- The ring reads as the addresses `as` forward and as their reverse backward, and no link of its
nodes is `NULL`. -/
structure Reads (t : RingList D) (as : List ℕ) : Prop where
  ring : Ring (Option.join ∘ t.next) (Option.join ∘ t.prev) as
  linked : ∀ p, p = none ∨ (∃ a ∈ as, p = some a) → t.next p ≠ none ∧ t.prev p ≠ none

/-- The list holds the sequence `xs`, with one reference on the data of each entry next to the
references `base` of everybody else. -/
structure Holds (t : RingList D) (xs : List (ListEntry D)) (base : D → ℤ) : Prop where
  size : t.size = xs.length
  nodup : (xs.map ListEntry.addr).Nodup
  data : ∀ e ∈ xs, t.data e.addr = e.data
  reads : t.Reads (xs.map ListEntry.addr)
  refs : ∀ d, t.nrefs d = base d + ((xs.map ListEntry.data).count d : ℕ)

section Links

variable {D : Type*} {t : RingList D} {as pre post : List ℕ} {ent : ℕ}

theorem Reads.next_some (h : t.Reads as) {p : Option ℕ} (hp : p = none ∨ ∃ a ∈ as, p = some a) :
    t.next p = some ((Option.join ∘ t.next) p) := by
  obtain ⟨q, hq⟩ := Option.ne_none_iff_exists'.mp (h.linked p hp).1
  rw [Function.comp, hq, Option.join_some]

theorem Reads.prev_some (h : t.Reads as) {p : Option ℕ} (hp : p = none ∨ ∃ a ∈ as, p = some a) :
    t.prev p = some ((Option.join ∘ t.prev) p) := by
  obtain ⟨q, hq⟩ := Option.ne_none_iff_exists'.mp (h.linked p hp).2
  rw [Function.comp, hq, Option.join_some]

/-- Reference counts and the data of other entries are of no concern to the links. -/
theorem Reads.congr {t' : RingList D} (h : t.Reads as) (hnext : t'.next = t.next)
    (hprev : t'.prev = t.prev) : t'.Reads as := by
  constructor
  · rw [hnext, hprev]
    exact h.ring
  · rw [hnext, hprev]
    exact h.linked

theorem getLast?_node (as : List ℕ) : as.getLast? = none ∨ ∃ a ∈ as, as.getLast? = some a := by
  cases h : as.getLast? with
  | none => exact .inl rfl
  | some a => exact .inr ⟨a, List.mem_of_getLast? h, rfl⟩

theorem Reads.linkBehind (h : t.Reads (pre ++ post)) (hnd : (pre ++ post).Nodup)
    (hnot : ent ∉ pre ++ post) :
    ∃ t', t.linkBehind pre.getLast? ent = some t' ∧ t'.Reads (pre ++ ent :: post) ∧
      t'.size = t.size + 1 ∧ t'.data = t.data ∧ t'.nrefs = t.nrefs := by
  have hnode : pre.getLast? = none ∨ ∃ a ∈ pre ++ post, pre.getLast? = some a := by
    rcases getLast?_node pre with hnil | ⟨a, ha, hlast⟩
    · exact .inl hnil
    · exact .inr ⟨a, List.mem_append_left _ ha, hlast⟩
  have hne : pre.getLast? ≠ some ent := by
    intro heq
    exact hnot (List.mem_append_left _ (List.mem_of_getLast? heq))
  have hcur : t.next pre.getLast? = some ((Option.join ∘ t.next) pre.getLast?) := h.next_some hnode
  unfold RingList.linkBehind
  dsimp only
  rw [Function.update_of_ne hne, hcur, Option.map_some]
  refine ⟨_, rfl, ⟨?_, ?_⟩, rfl, rfl, rfl⟩
  · have hring := h.ring.insert hnd hnot
    dsimp only
    rw [Function.comp_update, Function.comp_update, Function.comp_update, Function.comp_update]
    exact hring
  · have hlinked : ∀ p, p = none ∨ (∃ a ∈ pre ++ ent :: post, p = some a) →
        p = some ent ∨ t.next p ≠ none ∧ t.prev p ≠ none := by
      rintro p (rfl | ⟨a, ha, rfl⟩)
      · exact .inr (h.linked none (.inl rfl))
      · rw [List.mem_append, List.mem_cons, or_left_comm, ← List.mem_append] at ha
        rcases ha with rfl | ha
        · exact .inl rfl
        · exact .inr (h.linked _ (.inr ⟨a, ha, rfl⟩))
    intro p hp
    rcases hlinked p hp with rfl | ⟨hnext, hprev⟩
    · simp only [Function.update_apply, if_true]
      constructor <;> split_ifs <;> exact Option.some_ne_none _
    · simp only [Function.update_apply]
      constructor
      · split_ifs
        · exact Option.some_ne_none _
        · exact Option.some_ne_none _
        · exact hnext
      · split_ifs
        · exact Option.some_ne_none _
        · exact Option.some_ne_none _
        · exact hprev

theorem Reads.unlink (h : t.Reads (pre ++ ent :: post)) (hnd : (pre ++ ent :: post).Nodup) :
    ∃ t', t.unlink ent = some (t', t.data ent) ∧ t'.Reads (pre ++ post) ∧
      t'.size = t.size - 1 ∧ t'.data = t.data ∧ t'.nrefs = t.nrefs ∧
      t'.modCount = t.modCount + 1 := by
  have hnot : ent ∉ pre ++ post := (List.nodup_cons.mp (List.nodup_middle.mp hnd)).1
  have hself : some ent = none ∨ ∃ a ∈ pre ++ ent :: post, some ent = some a :=
    .inr ⟨ent, by simp, rfl⟩
  have hnext : t.next (some ent) = some post.head? := by
    rw [h.next_some hself, h.ring.next_eq]
  have hprev : t.prev (some ent) = some pre.getLast? := by
    rw [h.prev_some hself, h.ring.prev_eq]
  have hne : some ent ≠ post.head? := by
    intro heq
    exact hnot (List.mem_append_right _ (List.mem_of_head? heq.symm))
  unfold RingList.unlink
  rw [hnext, Option.bind_some, hprev, Option.bind_some]
  dsimp only
  rw [Function.update_of_ne hne, hprev, Option.map_some]
  refine ⟨_, rfl, ⟨?_, ?_⟩, rfl, rfl, rfl, rfl⟩
  · have hring := (h.ring.unlink hnd).update_outside hnot none none
    rw [h.ring.next_eq, h.ring.prev_eq] at hring
    dsimp only
    rw [Function.comp_update, Function.comp_update, Function.comp_update, Function.comp_update]
    exact hring
  · intro p hp
    have hold : p = none ∨ ∃ a ∈ pre ++ ent :: post, p = some a := by
      rcases hp with rfl | ⟨a, ha, rfl⟩
      · exact .inl rfl
      · refine .inr ⟨a, ?_, rfl⟩
        rw [List.mem_append, List.mem_cons]
        rw [List.mem_append] at ha
        tauto
    have hpe : p ≠ some ent := by
      rintro rfl
      rcases hp with hp | ⟨a, ha, heq⟩
      · cases hp
      · exact hnot (Option.some.inj heq ▸ ha)
    obtain ⟨hn, hp'⟩ := h.linked p hold
    dsimp only
    rw [Function.update_of_ne hpe, Function.update_of_ne hpe]
    simp only [Function.update_apply]
    constructor
    · split_ifs
      · exact Option.some_ne_none _
      · exact hn
    · split_ifs
      · exact Option.some_ne_none _
      · exact hp'

theorem Reads.walk_next (h : t.Reads as) {i : ℕ} (hi : i ≤ as.length) :
    walk t.next (i + 1) none = some as[i]? :=
  walk_ring h.ring (fun _ hp => h.next_some hp) hi

theorem Reads.walk_prev (h : t.Reads as) {i : ℕ} (hi : i ≤ as.length) :
    walk t.prev (i + 1) none = some as.reverse[i]? := by
  apply walk_ring h.ring.symm
  · intro p hp
    apply h.prev_some
    simpa using hp
  · rwa [List.length_reverse]

end Links

section Indices

/-- The lower bound of an index, also where `-(int)(size + 1)` overflows. -/
theorem int32_neg {n : ℕ} (hn : n ≤ 2 ^ 31) : int32 (-int32 n) = -n := by
  rcases hn.lt_or_eq with hlt | rfl
  · rw [int32_eq (z := n) (by omega) (by omega), int32_eq (by omega) (by omega)]
  · decide

theorem insert_fails_iff {n : ℕ} (hn : n < 2 ^ 31) (index : ℤ) :
    index < int32 (-int32 (n + 1 : ℕ)) ∨ int32 n < index ↔ insertPos n index = none := by
  rw [int32_neg (by omega), int32_eq (z := n) (by omega) (by omega)]
  unfold insertPos
  split_ifs with h₁ h₂
  · simp
    omega
  · simp
    omega
  · simp
    omega

theorem access_fails_iff {n : ℕ} (hn : n < 2 ^ 31) (index : ℤ) :
    index < int32 (-int32 n) ∨ int32 n ≤ index ↔ accessPos n index = none := by
  rw [int32_neg (by omega), int32_eq (z := n) (by omega) (by omega)]
  unfold accessPos
  split_ifs with h₁ h₂
  · simp
    omega
  · simp
    omega
  · simp
    omega

theorem insertIdx_append {α : Type*} (l r : List α) (x : α) :
    (l ++ r).insertIdx l.length x = l ++ x :: r := by
  induction l with
  | nil => rfl
  | cons y l ih =>
    rw [List.cons_append, List.length_cons, List.insertIdx_succ_cons, ih]
    rfl

theorem getLast?_take_succ {as : List ℕ} {i : ℕ} (hi : i < as.length) :
    (as.take (i + 1)).getLast? = as[i]? := by
  rw [List.getLast?_take, if_neg (Nat.succ_ne_zero i), Nat.add_sub_cancel,
    List.getElem?_eq_getElem hi, Option.some_or]

variable {D : Type*} {t : RingList D} {as : List ℕ} {index : ℤ} {p : ℕ}

/-- The node that `list_insert` walks to is the one in front of the position. -/
theorem Reads.walk_insert (h : t.Reads as) (hp : insertPos as.length index = some p) :
    p ≤ as.length ∧
      (if 0 ≤ index then walk t.next index.toNat none else walk t.prev (-index).toNat none) =
        some (as.take p).getLast? := by
  unfold insertPos at hp
  split_ifs at hp with hnonneg hneg
  · have hpos : index.toNat = p := Option.some.inj hp
    rw [if_pos hnonneg.1, hpos]
    cases p with
    | zero => exact ⟨Nat.zero_le _, rfl⟩
    | succ i =>
      have hi : i < as.length := by omega
      exact ⟨hi, by rw [h.walk_next hi.le, getLast?_take_succ hi]⟩
  · have hpos : (as.length + 1 + index).toNat = p := Option.some.inj hp
    obtain ⟨i, hi⟩ : ∃ i, (-index).toNat = i + 1 := ⟨(-index).toNat - 1, by omega⟩
    have hle : i ≤ as.length := by omega
    rw [if_neg (by omega), hi, h.walk_prev hle]
    refine ⟨by omega, ?_⟩
    rcases hle.lt_or_eq with hlt | rfl
    · obtain ⟨j, hj⟩ : ∃ j, as.length = i + (j + 1) := ⟨as.length - i - 1, by omega⟩
      have hpj : p = j + 1 := by omega
      rw [hpj, getLast?_take_succ (by omega), List.getElem?_reverse hlt]
      congr 2
      omega
    · have hp0 : p = 0 := by omega
      rw [hp0, List.take_zero, List.getLast?_nil, List.getElem?_eq_none (by simp)]

/-- The entry that `list_remove` and `list_get` walk to is the one at the position. -/
theorem Reads.entryAt (h : t.Reads as) (hp : accessPos as.length index = some p) :
    p < as.length ∧ t.entryAt index = as[p]? := by
  unfold accessPos at hp
  unfold RingList.entryAt
  split_ifs at hp with hnonneg hneg
  · have hpos : index.toNat = p := Option.some.inj hp
    have hlt : p < as.length := by omega
    rw [if_pos hnonneg.1, hpos]
    refine ⟨hlt, ?_⟩
    change (walk t.next (p + 1) none).join = _
    rw [h.walk_next hlt.le, Option.join_some]
  · have hpos : (as.length + index).toNat = p := Option.some.inj hp
    obtain ⟨i, hi⟩ : ∃ i, (-index).toNat = i + 1 := ⟨(-index).toNat - 1, by omega⟩
    have hlt : i < as.length := by omega
    rw [if_neg (by omega), hi, h.walk_prev hlt.le, Option.join_some, List.getElem?_reverse hlt]
    refine ⟨by omega, ?_⟩
    congr 1
    omega

end Indices

theorem split_at {α : Type*} {xs : List α} {p : ℕ} (hp : p < xs.length) :
    ∃ l e r, xs = l ++ e :: r ∧ l.length = p ∧ xs[p]? = some e ∧ xs.eraseIdx p = l ++ r := by
  refine ⟨xs.take p, xs[p], xs.drop (p + 1), by simp, List.length_take_of_le hp.le,
    List.getElem?_eq_getElem hp, List.eraseIdx_eq_take_drop_succ xs p⟩

section Refinement

variable {D : Type*} [DecidableEq D] {t : RingList D} {xs : List (ListEntry D)} {base : D → ℤ}
  {index : ℤ} {ent : ℕ}

theorem ref_nrefs (t : RingList D) (d x : D) :
    (t.ref d).nrefs x = t.nrefs x + if d = x then 1 else 0 := by
  by_cases h : d = x
  · simp [ref, h]
  · simp [ref, h, Function.update_of_ne (Ne.symm h)]

theorem deref_nrefs (t : RingList D) (d x : D) :
    (t.deref d).nrefs x = t.nrefs x - if d = x then 1 else 0 := by
  by_cases h : d = x
  · simp [deref, h]
  · simp [deref, h, Function.update_of_ne (Ne.symm h)]

theorem count_data_append (l r : List (ListEntry D)) (d : D) :
    ((l ++ r).map ListEntry.data).count d =
      (l.map ListEntry.data).count d + (r.map ListEntry.data).count d := by
  rw [List.map_append, List.count_append]

theorem count_data_cons (e : ListEntry D) (l : List (ListEntry D)) (d : D) :
    ((e :: l).map ListEntry.data).count d =
      (l.map ListEntry.data).count d + if e.data = d then 1 else 0 := by
  simp [List.count_cons]

theorem Holds.ref (h : t.Holds xs base) (data : D) :
    (t.ref data).Holds xs (fun d => base d + if data = d then 1 else 0) := by
  refine ⟨h.size, h.nodup, h.data, h.reads.congr rfl rfl, fun d => ?_⟩
  rw [ref_nrefs, h.refs d]
  ring

theorem Holds.deref (h : t.Holds xs base) (data : D) :
    (t.deref data).Holds xs (fun d => base d - if data = d then 1 else 0) := by
  refine ⟨h.size, h.nodup, h.data, h.reads.congr rfl rfl, fun d => ?_⟩
  rw [deref_nrefs, h.refs d]
  ring

/-- `list_insert` at a position. -/
theorem Holds.insert (h : t.Holds xs base) (data : D) {p : ℕ} (hlen : xs.length < 2 ^ 31)
    (hnew : ∀ e ∈ xs, e.addr ≠ ent) (hp : insertPos xs.length index = some p) :
    ∃ t', t.listInsert index ent data = some (t', true) ∧
      t'.Holds (xs.insertIdx p ⟨ent, data⟩) base := by
  have hreads : ((t.setData ent data).ref data).Reads (xs.map ListEntry.addr) :=
    h.reads.congr rfl rfl
  have hlength : (xs.map ListEntry.addr).length = xs.length := List.length_map _
  have hpos : insertPos (xs.map ListEntry.addr).length index = some p := by rw [hlength, hp]
  obtain ⟨hple, hwalk⟩ := hreads.walk_insert hpos
  rw [hlength] at hple
  -- around the position
  obtain ⟨l, r, hlr, hl⟩ : ∃ l r, xs = l ++ r ∧ l.length = p :=
    ⟨xs.take p, xs.drop p, (List.take_append_drop p xs).symm, List.length_take_of_le hple⟩
  subst hlr
  have htake : ((l ++ r).map ListEntry.addr).take p = l.map ListEntry.addr := by
    rw [List.map_append, ← hl, ← List.length_map (f := ListEntry.addr), List.take_left]
  have hsplit : (l ++ r).map ListEntry.addr = l.map ListEntry.addr ++ r.map ListEntry.addr :=
    List.map_append
  have hnot : ent ∉ l.map ListEntry.addr ++ r.map ListEntry.addr := by
    rw [← hsplit]
    intro hmem
    obtain ⟨e, he, haddr⟩ := List.mem_map.mp hmem
    exact hnew e he haddr
  have hnd := h.nodup
  rw [hsplit] at hreads hnd
  obtain ⟨t', hlink, hreads', hsize, hdata, hrefs⟩ := hreads.linkBehind hnd hnot
  have hins : (l ++ r).insertIdx p ⟨ent, data⟩ = l ++ ⟨ent, data⟩ :: r := by
    rw [← hl, insertIdx_append]
  refine ⟨t', ?_, ?_⟩
  · unfold listInsert
    have hguard := (insert_fails_iff hlen index).not.mpr (by rw [hp]; exact Option.some_ne_none p)
    rw [← h.size] at hguard
    refine (if_neg hguard).trans ?_
    dsimp only
    rw [hwalk, Option.bind_some, htake, hlink]
    rfl
  · rw [hins]
    constructor
    · rw [hsize]
      change t.size + 1 = _
      rw [h.size]
      simp
      omega
    · rw [List.map_append, List.map_cons, List.nodup_middle, List.nodup_cons]
      exact ⟨hnot, hnd⟩
    · intro e he
      rw [hdata]
      rw [List.mem_append, List.mem_cons, or_left_comm, ← List.mem_append] at he
      rcases he with rfl | he
      · exact Function.update_self _ _ _
      · exact (Function.update_of_ne (hnew e he) _ _).trans (h.data e he)
    · rw [List.map_append, List.map_cons]
      exact hreads'
    · intro d
      have hd := h.refs d
      rw [count_data_append] at hd
      rw [hrefs, ref_nrefs, count_data_append, count_data_cons]
      change t.nrefs d + _ = _
      push_cast at hd ⊢
      omega

/-- An entry is taken out of the list, and its reference goes to the caller. -/
theorem Holds.unlink {l r : List (ListEntry D)} {e : ListEntry D} (h : t.Holds (l ++ e :: r) base) :
    ∃ t', t.unlink e.addr = some (t', e.data) ∧
      t'.Holds (l ++ r) (fun d => base d + if e.data = d then 1 else 0) ∧
      t'.modCount = t.modCount + 1 := by
  have hreads := h.reads
  have hnd := h.nodup
  rw [List.map_append, List.map_cons] at hreads hnd
  obtain ⟨t', hunlink, hreads', hsize, hdata, hrefs, hmod⟩ := hreads.unlink hnd
  have hsub : (l ++ r).Sublist (l ++ e :: r) := (List.sublist_cons_self e r).append_left l
  refine ⟨t', ?_, ⟨?_, h.nodup.sublist (hsub.map _), ?_, ?_, ?_⟩, hmod⟩
  · rw [hunlink, h.data e (by simp)]
  · rw [hsize, h.size]
    simp
  · intro x hx
    rw [hdata]
    exact h.data x (hsub.mem hx)
  · rw [List.map_append]
    exact hreads'
  · intro d
    have hd := h.refs d
    rw [count_data_append, count_data_cons] at hd
    rw [hrefs, count_data_append, hd]
    push_cast
    ring

/-- `list_remove` at a position. -/
theorem Holds.remove (h : t.Holds xs base) {p : ℕ} (hlen : xs.length < 2 ^ 31)
    (hp : accessPos xs.length index = some p) :
    ∃ e t', xs[p]? = some e ∧ t.listRemove index = some (t', some e.data) ∧
      t'.Holds (xs.eraseIdx p) (fun d => base d + if e.data = d then 1 else 0) := by
  have hlength : (xs.map ListEntry.addr).length = xs.length := List.length_map _
  have hpos : accessPos (xs.map ListEntry.addr).length index = some p := by rw [hlength, hp]
  obtain ⟨hplt, hentry⟩ := h.reads.entryAt hpos
  rw [hlength] at hplt
  obtain ⟨l, e, r, hlr, -, hget, herase⟩ := split_at hplt
  rw [List.getElem?_map, hget, Option.map_some] at hentry
  have hguard := (access_fails_iff hlen index).not.mpr (by rw [hp]; exact Option.some_ne_none p)
  rw [← h.size] at hguard
  obtain ⟨t', hunlink, hholds, -⟩ := (hlr ▸ h).unlink
  refine ⟨e, t', hget, ?_, herase ▸ hholds⟩
  rw [listRemove, if_neg hguard, hentry, Option.bind_some, hunlink]
  rfl

/-- `list_get` at a position. -/
theorem Holds.get (h : t.Holds xs base) {p : ℕ} (hlen : xs.length < 2 ^ 31)
    (hp : accessPos xs.length index = some p) :
    ∃ e t', xs[p]? = some e ∧ t.listGet index = some (t', some e.data) ∧
      t'.Holds xs (fun d => base d + if e.data = d then 1 else 0) := by
  have hlength : (xs.map ListEntry.addr).length = xs.length := List.length_map _
  have hpos : accessPos (xs.map ListEntry.addr).length index = some p := by rw [hlength, hp]
  obtain ⟨hplt, hentry⟩ := h.reads.entryAt hpos
  rw [hlength] at hplt
  obtain ⟨l, e, r, hlr, -, hget, -⟩ := split_at hplt
  rw [List.getElem?_map, hget, Option.map_some] at hentry
  have hguard := (access_fails_iff hlen index).not.mpr (by rw [hp]; exact Option.some_ne_none p)
  rw [← h.size] at hguard
  have hdata : t.data e.addr = e.data := h.data e (List.mem_of_getElem? hget)
  refine ⟨e, t.ref e.data, hget, ?_, h.ref e.data⟩
  rw [listGet, if_neg hguard, hentry, Option.map_some, hdata]

/-- The loop of `list_clear_i` gives up one reference for each entry. -/
theorem clearLoop_spec {v : Option ℕ} (xs : List (ListEntry D))
    (hring : Seg some (Option.join ∘ t.next) v (xs.map ListEntry.addr) none)
    (hlinked : ∀ e ∈ xs, t.next (some e.addr) = some ((Option.join ∘ t.next) (some e.addr)))
    (hdata : ∀ e ∈ xs, t.data e.addr = e.data) :
    ∃ nrefs, clearLoop xs.length t v = some { t with nrefs := nrefs } ∧
      ∀ d, nrefs d = t.nrefs d - ((xs.map ListEntry.data).count d : ℕ) := by
  induction xs generalizing t v with
  | nil =>
    have hv : v = none := hring
    subst hv
    exact ⟨t.nrefs, rfl, fun d => by simp⟩
  | cons e xs ih =>
    obtain ⟨rfl, hrest⟩ := hring
    have he := hdata e List.mem_cons_self
    have hnext := hlinked e List.mem_cons_self
    obtain ⟨nrefs, hloop, hnrefs⟩ := ih (t := t.deref e.data) hrest
      (fun x hx => hlinked x (List.mem_cons_of_mem _ hx))
      (fun x hx => hdata x (List.mem_cons_of_mem _ hx))
    refine ⟨nrefs, ?_, fun d => ?_⟩
    · rw [List.length_cons, clearLoop, he, hnext, Option.bind_some]
      exact hloop
    · rw [hnrefs, deref_nrefs, count_data_cons]
      push_cast
      ring

theorem Holds.clear (h : t.Holds xs base) :
    ∃ t', t.listClear = some t' ∧ t'.Holds [] base := by
  have hlinked : ∀ e ∈ xs, t.next (some e.addr) = some ((Option.join ∘ t.next) (some e.addr)) :=
    fun e he => h.reads.next_some (.inr ⟨_, List.mem_map_of_mem he, rfl⟩)
  obtain ⟨nrefs, hloop, hnrefs⟩ := clearLoop_spec xs h.reads.ring.next hlinked h.data
  unfold listClear
  rw [h.reads.next_some (.inl rfl), Option.bind_some, h.size, hloop, Option.map_some]
  refine ⟨_, rfl, rfl, List.nodup_nil, by simp, ⟨?_, ?_⟩, fun d => ?_⟩
  · apply Ring.empty <;> simp
  · rintro p (rfl | ⟨a, ha, -⟩)
    · simp
    · exact absurd ha List.not_mem_nil
  · have hd := h.refs d
    dsimp only
    rw [hnrefs, hd]
    simp

/-- Setting the data of an entry outside of the list changes nothing in it. -/
theorem Holds.setData (h : t.Holds xs base) (hnew : ∀ e ∈ xs, e.addr ≠ ent) (data : D) :
    (t.setData ent data).Holds xs base := by
  refine ⟨h.size, h.nodup, fun e he => ?_, h.reads.congr rfl rfl, h.refs⟩
  exact (Function.update_of_ne (hnew e he) _ _).trans (h.data e he)

/-- `list_remove_entry` of an entry of the list. -/
theorem Holds.removeEntry {l r : List (ListEntry D)} {e : ListEntry D}
    (h : t.Holds (l ++ e :: r) base) :
    ∃ t', t.listRemoveEntry e.addr = some (t', some e.data) ∧
      t'.Holds (l ++ r) (fun d => base d + if e.data = d then 1 else 0) ∧
      t'.modCount = t.modCount + 1 := by
  obtain ⟨t', hunlink, hholds, hmod⟩ := h.unlink
  have hlinked := h.reads.linked (some e.addr) (.inr ⟨e.addr, by simp, rfl⟩)
  refine ⟨t', ?_, hholds, hmod⟩
  rw [listRemoveEntry, if_neg (not_or.mpr hlinked), hunlink]
  rfl

/-- One call does on the list what it does on the sequence. -/
theorem Holds.step {op : ListOp D} (h : t.Holds xs base) (hfits : op.Fits xs) :
    ∃ t', t.step op = some (t', (seqStep xs op).2) ∧
      t'.Holds (seqStep xs op).1 (fun d => base d + ((seqStep xs op).2.handed d : ℕ)) := by
  cases op with
  | insert index ent data =>
    obtain ⟨hlen, hnew⟩ := hfits
    cases hp : insertPos xs.length index with
    | none =>
      have hguard := (insert_fails_iff hlen index).mpr hp
      rw [← h.size] at hguard
      refine ⟨t.setData ent data, ?_, ?_⟩
      · rw [RingList.step, listInsert, seqStep, hp]
        dsimp only
        rw [show (t.setData ent data).size = t.size from rfl, if_pos hguard]
        rfl
      · simpa [seqStep, hp, ListResult.handed] using h.setData hnew data
    | some p =>
      obtain ⟨t', hcall, hholds⟩ := h.insert data hlen hnew hp
      refine ⟨t', ?_, ?_⟩
      · rw [RingList.step, hcall, seqStep, hp]
        rfl
      · simpa [seqStep, hp, ListResult.handed] using hholds
  | remove index =>
    cases hp : accessPos xs.length index with
    | none =>
      have hguard := (access_fails_iff hfits index).mpr hp
      rw [← h.size] at hguard
      refine ⟨t, ?_, ?_⟩
      · rw [RingList.step, listRemove, if_pos hguard, seqStep, hp]
        rfl
      · simpa [seqStep, hp, ListResult.handed] using h
    | some p =>
      obtain ⟨e, t', hget, hcall, hholds⟩ := h.remove hfits hp
      refine ⟨t', ?_, ?_⟩
      · rw [RingList.step, hcall, seqStep, hp]
        dsimp only
        rw [hget]
        rfl
      · simpa [seqStep, hp, hget, ListResult.handed, List.count_singleton] using hholds
  | removeEntry ent =>
    obtain ⟨e, he, rfl⟩ := hfits
    obtain ⟨l, r, rfl⟩ := List.append_of_mem he
    have herase := eraseP_addr h.nodup
    have hfind := find?_addr h.nodup
    obtain ⟨t', hcall, hholds, -⟩ := h.removeEntry
    refine ⟨t', ?_, ?_⟩
    · rw [RingList.step, hcall, seqStep, hfind]
      rfl
    · simpa [seqStep, herase, hfind, ListResult.handed, List.count_singleton] using hholds
  | get index =>
    cases hp : accessPos xs.length index with
    | none =>
      have hguard := (access_fails_iff hfits index).mpr hp
      rw [← h.size] at hguard
      refine ⟨t, ?_, ?_⟩
      · rw [RingList.step, listGet, if_pos hguard, seqStep, hp]
        rfl
      · simpa [seqStep, hp, ListResult.handed] using h
    | some p =>
      obtain ⟨e, t', hget, hcall, hholds⟩ := h.get hfits hp
      refine ⟨t', ?_, ?_⟩
      · rw [RingList.step, hcall, seqStep, hp, Option.bind_some, hget]
        rfl
      · simpa [seqStep, hp, hget, ListResult.handed, List.count_singleton] using hholds
  | clear =>
    obtain ⟨t', hcall, hholds⟩ := h.clear
    refine ⟨t', ?_, ?_⟩
    · rw [RingList.step, hcall]
      rfl
    · simpa [seqStep, ListResult.handed] using hholds

end Refinement

def handedRefs {D : Type*} [DecidableEq D] (results : List (ListResult D)) (d : D) : ℕ :=
  (results.map (·.handed d)).sum

/-- Every call of a run fits the sequence it is made on. -/
def RunFits {D : Type*} (xs : List (ListEntry D)) (ops : List (ListOp D)) : Prop :=
  Along (fun xs op => some (seqStep xs op).1) ListOp.Fits xs ops

/-- A whole run does. -/
theorem Holds.run {t : RingList D} {xs : List (ListEntry D)} {base : D → ℤ} {ops : List (ListOp D)}
    (h : t.Holds xs base) (hfits : RunFits xs ops) :
    ∃ t', t.run ops = some (t', (seqRun xs ops).2) ∧
      t'.Holds (seqRun xs ops).1 (fun d => base d + (handedRefs (seqRun xs ops).2 d : ℕ)) := by
  induction ops generalizing t xs base with
  | nil => exact ⟨t, rfl, by simpa [seqRun, handedRefs] using h⟩
  | cons op ops ih =>
    obtain ⟨t₁, hcall, hholds⟩ := h.step hfits.1
    obtain ⟨t', hrun, hrest⟩ := ih hholds (hfits.2 _ rfl)
    refine ⟨t', ?_, ?_⟩
    · rw [RingList.run, hcall, Option.bind_some]
      dsimp only
      rw [hrun]
      rfl
    · refine ⟨hrest.size, hrest.nodup, hrest.data, hrest.reads, fun d => ?_⟩
      have hd := hrest.refs d
      simp only [seqRun, handedRefs, List.map_cons, List.sum_cons] at hd ⊢
      push_cast at hd ⊢
      linarith

theorem holds_create (mem : RingList D) : (listCreate mem).Holds [] mem.nrefs := by
  refine ⟨rfl, List.nodup_nil, by simp, ⟨?_, ?_⟩, fun d => by simp [listCreate]⟩
  · apply Ring.empty <;> simp [listCreate]
  · rintro p (rfl | ⟨a, ha, -⟩)
    · simp [listCreate]
    · exact absurd ha List.not_mem_nil

/-- Every run of a new list whose calls fit gives the results of the sequence, and leaves the
sequence in the ring with one reference on the data of each entry. -/
theorem run_refines (mem : RingList D) {ops : List (ListOp D)} (hfits : RunFits [] ops) :
    ∃ t, (listCreate mem).run ops = some (t, (seqRun [] ops).2) ∧
      t.Holds (seqRun [] ops).1
        (fun d => mem.nrefs d + (handedRefs (seqRun [] ops).2 d : ℕ)) :=
  (holds_create mem).run hfits

def zeroMem : RingList ℕ := ⟨0, 0, fun _ => 0, fun _ => none, fun _ => none, fun _ => 0⟩

/-- Two entries put at either end by negative indices, one read and one removed. -/
def mixedOps : List (ListOp ℕ) :=
  [.insert (-1) 10 1, .insert (-2) 11 2, .get (-1), .remove 0, .get 5]

theorem run_refines_mixed : ∃ t, (listCreate zeroMem).run mixedOps =
      some (t, [.inserted true, .inserted true, .got (some 1), .removed (some 2), .got none]) ∧
    t.Holds [⟨10, 1⟩] (fun d => if d = 1 ∨ d = 2 then 1 else 0) := by
  have hfits : RunFits [] mixedOps := by
    refine ⟨⟨by decide, by simp⟩, fun _ h₁ => ?_⟩
    cases h₁
    refine ⟨⟨by decide, by decide⟩, fun _ h₂ => ?_⟩
    cases h₂
    refine ⟨show _ < _ by decide, fun _ h₃ => ?_⟩
    cases h₃
    refine ⟨show _ < _ by decide, fun _ h₄ => ?_⟩
    cases h₄
    exact ⟨show _ < _ by decide, fun _ _ => trivial⟩
  obtain ⟨t, hrun, hholds⟩ := run_refines zeroMem hfits
  refine ⟨t, hrun, hholds.size, hholds.nodup, hholds.data, hholds.reads, fun d => ?_⟩
  rw [hholds.refs d]
  by_cases h₁ : d = 1
  · subst h₁
    rfl
  by_cases h₂ : d = 2
  · subst h₂
    rfl
  simp [zeroMem, handedRefs, mixedOps, seqRun, seqStep, insertPos, accessPos, ListResult.handed,
    h₁, h₂, Ne.symm h₁, Ne.symm h₂]

def twiceOps : List (ListOp ℕ) := [.insert 0 10 1, .insert 0 10 1]

/-- `n` entries, each put in front of the ones before. -/
def fillOps (first n : ℕ) : List (ListOp ℕ) := (List.range' first n).map (.insert 0 · 1)

theorem fillOps_fits {n first : ℕ} {xs : List (ListEntry ℕ)} (hlen : xs.length + n ≤ 2 ^ 31)
    (hnew : ∀ e ∈ xs, e.addr < first) :
    RunFits xs (fillOps first n) ∧ (seqRun xs (fillOps first n)).1.length = xs.length + n := by
  induction n generalizing first xs with
  | zero => exact ⟨trivial, rfl⟩
  | succ n ih =>
    have hstep : (seqStep xs (.insert 0 first 1)).1 = ⟨first, 1⟩ :: xs := by
      simp [seqStep, insertPos]
    have hnew' : ∀ e ∈ (⟨first, 1⟩ : ListEntry ℕ) :: xs, e.addr < first + 1 := by
      intro e he
      rcases List.mem_cons.mp he with rfl | he
      · exact Nat.lt_succ_self first
      · exact (hnew e he).trans (Nat.lt_succ_self first)
    obtain ⟨hfits, hlength⟩ := ih (by rw [List.length_cons]; omega) hnew'
    have hops : fillOps first (n + 1) = .insert 0 first 1 :: fillOps (first + 1) n := rfl
    rw [hops]
    refine ⟨⟨⟨by omega, fun e he => (hnew e he).ne⟩, fun s hs => ?_⟩, ?_⟩
    · cases hs
      rw [hstep]
      exact hfits
    · rw [seqRun]
      dsimp only
      rw [hstep, hlength, List.length_cons]
      omega

/-- With `2 ^ 31` entries, `(int)lst->size` is negative. -/
theorem get_full :
    ∃ n t results xs base, (listCreate zeroMem).run (fillOps 0 n) = some (t, results) ∧
      t.Holds xs base ∧ n = 2 ^ 31 ∧ xs.length = n ∧ t.listGet 0 = some (t, none) := by
  obtain ⟨n, hn⟩ : ∃ n, n = 2 ^ 31 := ⟨_, rfl⟩
  obtain ⟨hfits, hlength⟩ : RunFits [] (fillOps 0 n) ∧ _ := fillOps_fits (by simp [hn]) (by simp)
  obtain ⟨t, hrun, hholds⟩ := (holds_create zeroMem).run hfits
  rw [List.length_nil, Nat.zero_add] at hlength
  refine ⟨n, t, _, _, _, hrun, hholds, hn, hlength, ?_⟩
  have hguard : (0 : ℤ) < int32 (-int32 t.size) ∨ int32 t.size ≤ 0 := by
    right
    rw [hholds.size, hlength, hn]
    decide
  rw [listGet, if_pos hguard]

/-- An insertion at the front, whether or not the entry is in the list. -/
theorem listInsert_front {t : RingList ℕ} {v : Option ℕ} (ent data : ℕ) (hsize : t.size ≤ 1)
    (hhead : t.next none = some v) :
    ∃ t', t.listInsert 0 ent data = some (t', true) ∧ t'.size = t.size + 1 ∧
      t'.next none = some (some ent) ∧ t'.next (some ent) = some v := by
  have hguard : ¬((0 : ℤ) < int32 (-int32 (t.size + 1 : ℕ)) ∨ int32 t.size < 0) := by
    rw [int32_neg (by omega), int32_eq (z := t.size) (by omega) (by omega)]
    omega
  have hcell : Function.update t.next (some ent) (t.next none) none = some v := by
    rw [Function.update_of_ne (Option.some_ne_none ent).symm, hhead]
  have hcall : t.listInsert 0 ent data =
      (((t.setData ent data).ref data).linkBehind none ent).map (·, true) := by
    unfold listInsert
    refine (if_neg hguard).trans ?_
    dsimp only
    rw [if_pos le_rfl, Int.toNat_zero, walk, Option.bind_some]
  rw [hcall]
  unfold linkBehind
  dsimp only [setData, ref]
  rw [hcell]
  refine ⟨_, rfl, rfl, ?_, ?_⟩
  · simp
  · dsimp only
    rw [Function.update_of_ne (Option.some_ne_none ent), Function.update_self, hhead]

/-- An entry inserted twice leaves a ring that does not come back to its head, and a list of
`2 ^ 31` entries has none at index 0. -/
theorem not_run_refines :
    (∃ t results, (listCreate zeroMem).run twiceOps = some (t, results) ∧ t.size = 2 ∧
      ∀ as, ¬ t.Reads as) ∧
    ∃ n t results xs base, (listCreate zeroMem).run (fillOps 0 n) = some (t, results) ∧
      t.Holds xs base ∧ n = 2 ^ 31 ∧ xs.length = n ∧ t.listGet 0 = some (t, none) := by
  refine ⟨?_, get_full⟩
  obtain ⟨t₁, hfirst, hsize₁, hhead₁, -⟩ :=
    listInsert_front (t := listCreate zeroMem) (v := none) 10 1 (Nat.zero_le 1)
      (by simp [listCreate])
  have hsize₁' : t₁.size = 1 := hsize₁
  obtain ⟨t, hsecond, hsize, hhead, hnext⟩ := listInsert_front 10 1 hsize₁'.le hhead₁
  refine ⟨t, [.inserted true, .inserted true], ?_, by rw [hsize, hsize₁'], fun as hreads => ?_⟩
  · rw [twiceOps, run, step, hfirst, Option.map_some, Option.bind_some]
    dsimp only
    rw [run, step, hsecond, Option.map_some, Option.bind_some]
    rfl
  · have hself : ∀ as : List ℕ, ¬ Seg some (Option.join ∘ t.next) (some 10) as none := by
      intro as
      induction as with
      | nil => simp [Seg]
      | cons a as ih =>
        rintro ⟨ha, hrest⟩
        cases ha
        rw [Function.comp, hnext] at hrest
        exact ih hrest
    have hring := hreads.ring.next
    rw [Function.comp, hhead] at hring
    exact hself as hring

end RingList

end Carrier.Common
