import Carrier.Lib.Bytes
import Carrier.Lib.Linked

/-! `common/linkedhashtable.c`: bucket chains through the entries, and a ring through all of them in
the order they came. Memory is one map per field of an entry. -/
namespace Carrier.Common
open Carrier.Lib

/-- The hash function and the comparison a table is created with. A key is the pointer with its
length, neither of them zero. -/
structure HashOps (K : Type*) where
  hashCode : K → BitVec 32
  keyCompare : K → K → ℤ

/-- `default_hash_code`; a `char` is signed. -/
def defaultHashCode (key : Bytes) : BitVec 32 :=
  key.foldl (fun h c => 31 * h + c.toBitVec.signExtend 32) 0

/-- What a `HashEntry_i **` points to: a bucket, or the `next` of an entry. -/
inductive Slot (A : Type*) where
  | bucket (idx : ℕ)
  | next (entry : A)
  deriving DecidableEq

/-- A table with the memory it lives in: `K` are the keys, `A` the addresses of entries and `D`
those of data. In the ring `none` is `lst_head`. -/
structure Hashtable (K A D : Type*) where
  capacity : ℕ
  count : ℕ
  modCount : BitVec 32
  key : A → K
  data : A → D
  hashCode : A → BitVec 32
  link : Slot A → Option A
  lstNext : Option A → Option A
  lstPrev : Option A → Option A
  nrefs : D → ℤ

variable {K A D : Type*} [DecidableEq A] [DecidableEq D] (H : HashOps K)

/-- `hashtable_create` in a memory with any contents. -/
def hashtableCreate (capacity : ℕ) (mem : Hashtable K A D) : Hashtable K A D :=
  let capacity := if capacity = 0 then 128 else capacity
  { mem with
    capacity := capacity
    count := 0
    modCount := 0
    link := fun
      | .bucket _ => none
      | .next entry => mem.link (.next entry)
    lstNext := Function.update mem.lstNext none none
    lstPrev := Function.update mem.lstPrev none none }

namespace Hashtable

/-- `rc_alloc` gives a new object one reference. -/
def rcAlloc (t : Hashtable K A D) (d : D) : Hashtable K A D :=
  { t with nrefs := Function.update t.nrefs d 1 }

def ref (t : Hashtable K A D) (d : D) : Hashtable K A D :=
  { t with nrefs := Function.update t.nrefs d (t.nrefs d + 1) }

def deref (t : Hashtable K A D) (d : D) : Hashtable K A D :=
  { t with nrefs := Function.update t.nrefs d (t.nrefs d - 1) }

/-- The caller sets the key and the data of an entry. -/
def setEntry (t : Hashtable K A D) (ent : A) (key : K) (data : D) : Hashtable K A D :=
  { t with key := Function.update t.key ent key, data := Function.update t.data ent data }

end Hashtable

/-- The bucket of a hash code. `idx` is an `int`: from `2 ^ 31` on it is negative, and
`buckets[idx]` is no bucket of the table. -/
def bucketIdx? (capacity : ℕ) (hashCode : BitVec 32) : Option ℕ :=
  let idx := hashCode.toNat % capacity
  if idx < 2 ^ 31 then some idx else none

/-- `hashtable_add` with the bucket of the entry. -/
def hashtableAddAt (t : Hashtable K A D) (ent : A) (hashCode : BitVec 32) (idx : ℕ) :
    Hashtable K A D :=
  let link := Function.update t.link (.next ent) (t.link (.bucket idx))
  let lstPrev := Function.update t.lstPrev (some ent) (t.lstPrev none)
  let lstNext := Function.update t.lstNext (some ent) none
  let lstNext := Function.update lstNext (lstPrev none) (some ent)
  let lstPrev := Function.update lstPrev none (some ent)
  let link := Function.update link (.bucket idx) (some ent)
  { t with
    hashCode := Function.update t.hashCode ent hashCode
    link := link
    lstNext := lstNext
    lstPrev := lstPrev
    count := t.count + 1 }

def hashtableAdd (t : Hashtable K A D) (ent : A) : Option (Hashtable K A D) :=
  let hashCode := H.hashCode (t.key ent)
  (bucketIdx? t.capacity hashCode).map (hashtableAddAt t ent hashCode)

/-- The loop of `hashtable_get_entry`, up to `fuel` rounds; `none` when they do not suffice. -/
def getEntryLoop (t : Hashtable K A D) (key : K) (hashCode : BitVec 32) :
    ℕ → Slot A → Option (Option (Slot A))
  | 0, _ => none
  | fuel + 1, slot =>
    match t.link slot with
    | none => some none
    | some ent =>
      if t.hashCode ent = hashCode ∧ H.keyCompare (t.key ent) key = 0 then some (some slot)
      else getEntryLoop t key hashCode fuel (.next ent)

/-- `hashtable_get_entry`: where the entry of the key hangs, `some none` for no entry. A chain has
at most `count` entries. -/
def hashtableGetEntry (t : Hashtable K A D) (key : K) : Option (Option (Slot A)) :=
  let hashCode := H.hashCode key
  (bucketIdx? t.capacity hashCode).bind
    (fun idx => getEntryLoop H t key hashCode (t.count + 1) (.bucket idx))

/-- The entry `new` in the place of `ent`, which hangs in `slot`. -/
def hashtableReplace (t : Hashtable K A D) (slot : Slot A) (ent new : A) : Hashtable K A D :=
  let link := Function.update t.link (.next new) (t.link (.next ent))
  let lstPrev := Function.update t.lstPrev (some new) (t.lstPrev (some ent))
  let lstNext := Function.update t.lstNext (some new) (t.lstNext (some ent))
  let lstNext' := Function.update lstNext (lstPrev (some new)) (some new)
  let lstPrev' := Function.update lstPrev (lstNext' (some new)) (some new)
  let t := t.deref (t.data ent)
  { t with
    hashCode := Function.update t.hashCode new (t.hashCode ent)
    lstNext := lstNext'
    lstPrev := lstPrev'
    link := Function.update link slot (some new) }

/-- `hashtable_put` of the entry `new`, after the caller has set its key and its data. -/
def hashtablePut (t : Hashtable K A D) (new : A) (key : K) (data : D) :
    Option (Hashtable K A D × D) :=
  let t := (t.setEntry new key data).ref data
  let put (t : Hashtable K A D) := ({ t with modCount := t.modCount + 1 }, t.data new)
  match hashtableGetEntry H t key with
  | none => none
  | some none => (hashtableAdd H t new).map put
  | some (some slot) => (t.link slot).map (fun ent => put (hashtableReplace t slot ent new))

/-- `hashtable_get`; the caller gets a reference. -/
def hashtableGet (t : Hashtable K A D) (key : K) : Option (Hashtable K A D × Option D) :=
  match hashtableGetEntry H t key with
  | none => none
  | some none => some (t, none)
  | some (some slot) => (t.link slot).map (fun ent => (t.ref (t.data ent), some (t.data ent)))

def hashtableExist (t : Hashtable K A D) (key : K) : Option Bool :=
  (hashtableGetEntry H t key).map Option.isSome

def hashtableIsEmpty (t : Hashtable K A D) : Bool := t.count = 0

/-- Takes `ent`, which hangs in `slot`, out of its chain and of the ring. -/
def hashtableUnlink (t : Hashtable K A D) (slot : Slot A) (ent : A) : Hashtable K A D :=
  let lstNext := Function.update t.lstNext (t.lstPrev (some ent)) (t.lstNext (some ent))
  let lstPrev := Function.update t.lstPrev (lstNext (some ent)) (t.lstPrev (some ent))
  { t with
    link := Function.update t.link slot (t.link (.next ent))
    lstNext := lstNext
    lstPrev := lstPrev
    count := t.count - 1
    modCount := t.modCount + 1 }

/-- `hashtable_remove`; the reference of the table goes to the caller. -/
def hashtableRemove (t : Hashtable K A D) (key : K) : Option (Hashtable K A D × Option D) :=
  match hashtableGetEntry H t key with
  | none => none
  | some none => some (t, none)
  | some (some slot) => (t.link slot).map (fun ent => (hashtableUnlink t slot ent, some (t.data ent)))

/-- The loop of `hashtable_clear_i`, which gives up the references of the entries from `entry` on. -/
def clearLoop : ℕ → Hashtable K A D → Option A → Option (Hashtable K A D)
  | _, t, none => some t
  | 0, _, some _ => none
  | fuel + 1, t, some cur => clearLoop fuel (t.deref (t.data cur)) (t.lstNext (some cur))

def hashtableClear (t : Hashtable K A D) : Option (Hashtable K A D) :=
  if t.count = 0 then some t
  else
    match clearLoop t.count t (t.lstNext none) with
    | none => none
    | some t =>
      some
        { t with
          link := fun
            | .bucket _ => none
            | .next entry => t.link (.next entry)
          lstNext := Function.update t.lstNext none none
          lstPrev := Function.update t.lstPrev none none
          count := 0
          modCount := t.modCount + 1 }

/-- `HashtableIterator_i`; in `next`, `none` is `lst_head`. -/
structure HashtableIterator (A : Type*) where
  current : Option A
  next : Option A
  expectedModCount : BitVec 32

def hashtableIterate (t : Hashtable K A D) : HashtableIterator A := ⟨none, t.lstNext none, t.modCount⟩

/-- `hashtable_iterator_next`: the key and the data of the next entry, and a reference with them;
`0` at the end and `-1` after a change of the table. -/
def hashtableIteratorNext (t : Hashtable K A D) (it : HashtableIterator A) :
    ℤ × Hashtable K A D × HashtableIterator A × Option (K × D) :=
  if it.expectedModCount ≠ t.modCount then (-1, t, it, none)
  else
    match it.next with
    | none => (0, t, it, none)
    | some ent =>
      (1, t.ref (t.data ent), { it with current := some ent, next := t.lstNext (some ent) },
        some (t.key ent, t.data ent))

/-- `hashtable_iterator_remove`; without a current entry its assertion fails. -/
def hashtableIteratorRemove (t : Hashtable K A D) (it : HashtableIterator A) :
    Option (ℤ × Hashtable K A D × HashtableIterator A) :=
  match it.current with
  | none => none
  | some ent =>
    if it.expectedModCount ≠ t.modCount then some (-1, t, it)
    else
      match hashtableRemove H t (t.key ent) with
      | none => none
      | some (t, none) => some (0, t, it)
      | some (t, some ptr) =>
        some (1, t.deref ptr,
          { it with current := none, expectedModCount := it.expectedModCount + 1 })

/-- The loop of a caller over the table. For each entry it goes on to it chooses whether to remove
it, and it keeps the references it is handed. -/
def iterateLoop : List Bool → Hashtable K A D → HashtableIterator A →
    Option (Hashtable K A D × List (K × D))
  | [], t, _ => some (t, [])
  | choice :: choices, t, it =>
    match hashtableIteratorNext t it with
    | (_, t, _, none) => some (t, [])
    | (_, t, it, some visited) =>
      let next := if choice then hashtableIteratorRemove H t it else some (0, t, it)
      next.bind (fun (_, t, it) =>
        (iterateLoop choices t it).map (fun (t, rest) => (t, visited :: rest)))

end Carrier.Common
