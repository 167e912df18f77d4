import Carrier.Common.HashtableRefinement
import Carrier.Common.ListRing
import Carrier.Lib.Cursor

/-! The iterators of `common/linkedhashtable.c` and `common/linkedlist.c`. Both are cursors over the
entries while nobody else changes the container, and both notice it if somebody does. -/
namespace Carrier.Common
open Carrier.Lib

def hashtableIteratorHasNext {A : Type*} (it : HashtableIterator A) : Bool := it.next.isSome

/-- `ListIterator_i`; `next` points to a node of the ring, or is `NULL`. -/
structure RingIterator where
  current : Option ℕ
  next : Option (Option ℕ)
  expectedModCount : BitVec 32

namespace RingList

variable {D : Type*} [DecidableEq D]

def listIterate (t : RingList D) : RingIterator := ⟨none, t.next none, t.modCount⟩

/-- `list_iterator_next`: the data of the next entry with a reference; `0` at the end and `-1` after a
change of the list. Where `it->next` is `NULL` its assertion fails. -/
def listIteratorNext (t : RingList D) (it : RingIterator) :
    Option (ℤ × RingList D × RingIterator × Option D) :=
  it.next.map fun next =>
    if it.expectedModCount ≠ t.modCount then (-1, t, it, none)
    else
      match next with
      | none => (0, t, it, none)
      | some ent =>
        (1, t.ref (t.data ent), { it with current := some ent, next := t.next (some ent) },
          some (t.data ent))

def listIteratorHasNext (it : RingIterator) : Option Bool := it.next.map Option.isSome

/-- `list_iterator_remove`; without a current entry its assertion fails. -/
def listIteratorRemove (t : RingList D) (it : RingIterator) :
    Option (ℤ × RingList D × RingIterator) :=
  if it.next = none then none
  else
    it.current.bind fun ent =>
      if it.expectedModCount ≠ t.modCount then some (-1, t, it)
      else
        (t.listRemoveEntry ent).map fun
          | (t, none) => (0, t, it)
          | (t, some ptr) =>
            (1, t.deref ptr,
              { it with current := none, expectedModCount := it.expectedModCount + 1 })

end RingList

/-- What the calls of an iterator return. -/
inductive IterResult (V : Type*) where
  | next (rc : ℤ) (out : Option V)
  | hasNext (yes : Bool)
  | removed (rc : ℤ)
  deriving DecidableEq

/-- The result of a cursor as its caller sees it. -/
def viewResult {E V : Type*} (view : E → V) : CursorResult E → IterResult V
  | .visited e => .next 1 (some (view e))
  | .ended => .next 0 none
  | .more yes => .hasNext yes
  | .removed _ => .removed 1

section Tables

variable {K A D : Type*} [DecidableEq A] [DecidableEq D]

/-- One call on a table and its iterator; `none` is an assertion that fails. -/
def hashIterStep (H : HashOps K) (s : Hashtable K A D × HashtableIterator A) :
    CursorOp → Option ((Hashtable K A D × HashtableIterator A) × IterResult (K × D))
  | .next =>
    let (rc, t, it, out) := hashtableIteratorNext s.1 s.2
    some ((t, it), .next rc out)
  | .hasNext => some (s, .hasNext (hashtableIteratorHasNext s.2))
  | .remove => (hashtableIteratorRemove H s.1 s.2).map (fun (rc, t, it) => ((t, it), .removed rc))

/-- The changes of the table that a call counts. -/
def HashOp.modifications (same : K → K → Bool) (es : List (Entry K A D)) : HashOp K A D → ℕ
  | .put .. => 1
  | .remove key => if es.any (same ·.key key) then 1 else 0
  | .clear => if es.isEmpty then 0 else 1
  | .iterate choices => es.length - (visit choices es).1.length
  | .get _ | .exist _ | .isEmpty => 0

def modifications (same : K → K → Bool) : List (Entry K A D) → List (HashOp K A D) → ℕ
  | _, [] => 0
  | es, op :: ops => op.modifications same es + modifications same (mapStep same es op).1 ops

/-- The buckets of the entries have indices that an `int` holds. -/
def KeysFit (H : HashOps K) (c : ℕ) (es : List (Entry K A D)) : Prop :=
  ∀ e ∈ es, (H.hashCode e.key).toNat % c < 2 ^ 31

end Tables

section Lookups

variable {K A D : Type*} {H : HashOps K} {c : ℕ} {t : Hashtable K A D} {key : K}

theorem hashtableGetEntry_unfit (hcap : t.capacity = c)
    (hbig : ¬(H.hashCode key).toNat % c < 2 ^ 31) : hashtableGetEntry H t key = none := by
  unfold hashtableGetEntry bucketIdx?
  rw [hcap]
  simp only [hbig, if_false, Option.bind_none]

theorem hashtableGet_modCount [DecidableEq D] {t' : Hashtable K A D} {data : Option D}
    (h : hashtableGet H t key = some (t', data)) : t'.modCount = t.modCount := by
  unfold hashtableGet at h
  split at h
  · cases h
  · cases h
    rfl
  · obtain ⟨ent, -, heq⟩ := Option.map_eq_some_iff.mp h
    cases heq
    rfl

theorem length_visit_le {E : Type*} (choices : List Bool) (es : List E) :
    (visit choices es).1.length ≤ es.length := by
  induction choices generalizing es with
  | nil => exact le_rfl
  | cons choice choices ih =>
    cases es with
    | nil => exact le_rfl
    | cons e es =>
      have hle := ih es
      cases choice with
      | false => exact Nat.succ_le_succ hle
      | true => exact hle.trans (Nat.le_succ _)

theorem visit_subset {E : Type*} (choices : List Bool) (es : List E) :
    (visit choices es).1 ⊆ es := by
  induction choices generalizing es with
  | nil => exact List.Subset.refl _
  | cons choice choices ih =>
    cases es with
    | nil => exact List.Subset.refl _
    | cons e es =>
      cases choice with
      | false => exact List.cons_subset_cons e (ih es)
      | true => exact List.subset_cons_of_subset e (ih es)

end Lookups

section TableRuns

variable {K A D : Type*} [DecidableEq A] [DecidableEq D] {H : HashOps K} {c : ℕ}
  {t t' : Hashtable K A D} {es : List (Entry K A D)} {base : D → ℤ} {op : HashOp K A D}
  {r : HashResult K D} (hsame : Equivalence (fun k k' => H.same k k' = true))
include hsame

/-- A call that does not leave the table does what it does on the map, and counts its changes. -/
theorem Holds.step_some (h : Holds H c t es base) (hfit : KeysFit H c es) (hown : op.Own es)
    (hstep : hashStep H t op = some (t', r)) :
    (∃ base', Holds H c t' (mapStep H.same es op).1 base') ∧
      KeysFit H c (mapStep H.same es op).1 ∧
      t'.modCount = t.modCount + BitVec.ofNat 32 (op.modifications H.same es) := by
  cases op with
  | put new key data =>
    by_cases hkey : (H.hashCode key).toNat % c < 2 ^ 31
    · obtain ⟨t₁, hcall, hholds, hmod⟩ := h.put hsame hkey hown
      rw [hashStep, hcall] at hstep
      cases hstep
      refine ⟨⟨base, hholds⟩, fun e he => ?_, hmod⟩
      rcases mem_of_mem_putEntry he with rfl | he
      · exact hkey
      · exact hfit e he
    · have hcap : ((t.setEntry new key data).ref data).capacity = c := h.rep.capacity
      rw [hashStep, hashtablePut, hashtableGetEntry_unfit hcap hkey] at hstep
      cases hstep
  | get key =>
    by_cases hkey : (H.hashCode key).toNat % c < 2 ^ 31
    · obtain ⟨t₁, hcall, hholds⟩ := h.get hsame hkey
      have hmod := hashtableGet_modCount hcall
      rw [hashStep, hcall] at hstep
      cases hstep
      exact ⟨⟨_, hholds⟩, hfit, hmod.trans (BitVec.add_zero _).symm⟩
    · rw [hashStep, hashtableGet, hashtableGetEntry_unfit h.rep.capacity hkey] at hstep
      cases hstep
  | exist key =>
    obtain ⟨yes, -, heq⟩ := Option.map_eq_some_iff.mp hstep
    cases heq
    exact ⟨⟨base, h⟩, hfit, (BitVec.add_zero _).symm⟩
  | isEmpty =>
    cases hstep
    exact ⟨⟨base, h⟩, hfit, (BitVec.add_zero _).symm⟩
  | remove key =>
    by_cases hkey : (H.hashCode key).toNat % c < 2 ^ 31
    · obtain ⟨t₁, hcall, hholds, hmod⟩ := h.remove hsame hkey
      rw [hashStep, hcall] at hstep
      cases hstep
      refine ⟨⟨_, hholds⟩, fun e he => hfit e (mem_of_mem_removeEntry he), ?_⟩
      rw [hmod, HashOp.modifications]
      split_ifs
      · rfl
      · rfl
    · rw [hashStep, hashtableRemove, hashtableGetEntry_unfit h.rep.capacity hkey] at hstep
      cases hstep
  | clear =>
    obtain ⟨t₁, hcall, hholds, hmod⟩ := h.clear
    rw [hashStep, hcall] at hstep
    cases hstep
    refine ⟨⟨base, hholds⟩, fun e he => absurd he List.not_mem_nil, ?_⟩
    rw [hmod, HashOp.modifications]
    split_ifs
    · rfl
    · rfl
  | iterate choices =>
    have hnext : (hashtableIterate t).next = (es.map Entry.addr).head? := h.rep.ring.next.head_eq
    have hnil : Holds H c t ([] ++ es) base := h
    obtain ⟨t₁, hcall, hholds, hmod⟩ := hnil.iterate hsame hfit hnext rfl choices
    rw [hashStep, hcall] at hstep
    cases hstep
    refine ⟨⟨_, hholds⟩, fun e he => hfit e (visit_subset choices es he), ?_⟩
    obtain ⟨n, hn⟩ := Nat.exists_eq_add_of_le (length_visit_le choices es)
    have hcount : (HashOp.iterate choices : HashOp K A D).modifications H.same es = n := by
      rw [HashOp.modifications]
      omega
    rw [hn, BitVec.ofNat_add, BitVec.add_comm (BitVec.ofNat 32 _), ← BitVec.add_assoc] at hmod
    rw [hcount]
    exact (BitVec.add_left_inj _).mp hmod

theorem Holds.run_some {ops : List (HashOp K A D)} {rs : List (HashResult K D)}
    (h : Holds H c t es base) (hfit : KeysFit H c es) (hown : OwnEntries H.same es ops)
    (hrun : hashRun H t ops = some (t', rs)) :
    (∃ base', Holds H c t' (mapRun H.same es ops).1 base') ∧
      KeysFit H c (mapRun H.same es ops).1 ∧
      t'.modCount = t.modCount + BitVec.ofNat 32 (modifications H.same es ops) := by
  induction ops generalizing t es base rs with
  | nil =>
    cases hrun
    exact ⟨⟨base, h⟩, hfit, (BitVec.add_zero _).symm⟩
  | cons op ops ih =>
    obtain ⟨hop, hops⟩ := ownEntries_cons.mp hown
    obtain ⟨⟨t₁, r⟩, hcall, hrest⟩ := Option.bind_eq_some_iff.mp hrun
    obtain ⟨⟨t₂, rest⟩, hrun', heq⟩ := Option.map_eq_some_iff.mp hrest
    cases heq
    obtain ⟨⟨base₁, h₁⟩, hfit₁, hmod₁⟩ := h.step_some hsame hfit hop hcall
    obtain ⟨hholds, hfit₂, hmod₂⟩ := ih h₁ hfit₁ hops hrun'
    refine ⟨hholds, hfit₂, ?_⟩
    rw [hmod₂, hmod₁, modifications, BitVec.ofNat_add, BitVec.add_assoc]

end TableRuns

section TableCursor

variable {K A D : Type*} [DecidableEq A] [DecidableEq D] {H : HashOps K} {c : ℕ}
  {full : D → ℤ} {s : Hashtable K A D × HashtableIterator A} {cur cur' : Cursor (Entry K A D)}
  {op : CursorOp} {r : CursorResult (Entry K A D)}

/-- A table and its iterator, which is where the cursor is. `full` are the references of the callers
once the iterator has passed all entries. -/
structure HashAt (H : HashOps K) (c : ℕ) (full : D → ℤ)
    (s : Hashtable K A D × HashtableIterator A) (cur : Cursor (Entry K A D)) : Prop where
  holds : Holds H c s.1 cur.elements (fun d => full d - entryRefs cur.ahead d)
  fit : KeysFit H c cur.elements
  current : s.2.current = cur.current.map Entry.addr
  next : s.2.next = (cur.ahead.map Entry.addr).head?
  sync : s.2.expectedModCount = s.1.modCount

/-- A call on the iterator does what it does on the cursor. -/
theorem HashAt.step (hsame : Equivalence (fun k k' => H.same k k' = true))
    (h : HashAt H c full s cur) (hop : cur.step op = some (cur', r)) :
    ∃ s', hashIterStep H s op = some (s', viewResult (fun e => (e.key, e.data)) r) ∧
      HashAt H c full s' cur' := by
  obtain ⟨t, it⟩ := s
  obtain ⟨passed, current, ahead⟩ := cur
  obtain ⟨hholds, hfit, hcurrent, hnext, hsync⟩ := h
  dsimp only at hholds hcurrent hnext hsync
  unfold Cursor.elements at hholds hfit
  dsimp only at hholds hfit
  cases op with
  | next =>
    cases ahead with
    | nil =>
      cases hop
      refine ⟨(t, it), ?_, hholds, hfit, hcurrent, hnext, hsync⟩
      rw [hashIterStep, hashtableIteratorNext_end hnext hsync]
      rfl
    | cons e ahead =>
      cases hop
      rw [← List.append_assoc] at hholds hfit
      have hbase : (fun d => full d - entryRefs (e :: ahead) d + if e.data = d then (1 : ℤ) else 0) =
          fun d => full d - entryRefs ahead d := by
        funext d
        rw [entryRefs_cons]
        push_cast
        ring
      have href := hholds.ref e.data
      rw [hbase] at href
      let it' : HashtableIterator A :=
        { it with current := some e.addr, next := (ahead.map Entry.addr).head? }
      refine ⟨(t.ref e.data, it'), ?_, href, hfit, rfl, rfl, hsync⟩
      rw [hashIterStep, hholds.iteratorNext hnext hsync]
      rfl
  | hasNext =>
    cases hop
    refine ⟨(t, it), ?_, hholds, hfit, hcurrent, hnext, hsync⟩
    have hmore : hashtableIteratorHasNext it = !ahead.isEmpty := by
      unfold hashtableIteratorHasNext
      rw [hnext]
      cases ahead with
      | nil => rfl
      | cons e ahead => rfl
    rw [hashIterStep, hmore]
    rfl
  | remove =>
    cases current with
    | none => cases hop
    | some e =>
      cases hop
      have hkey : (H.hashCode e.key).toNat % c < 2 ^ 31 := hfit e (by simp)
      obtain ⟨t', it', hcall, hholds', hnone, hnext', hsync', -⟩ :=
        hholds.iteratorRemove hsame hkey hcurrent hsync
      refine ⟨(t', it'), ?_, hholds', fun x hx => hfit x ?_, hnone, hnext'.trans hnext, hsync'⟩
      · rw [hashIterStep, hcall]
        rfl
      · have hx' : x ∈ passed ++ ahead := hx
        rw [List.mem_append] at hx'
        simp only [Option.toList_some, List.mem_append, List.mem_cons]
        tauto

end TableCursor

section ListCursor

variable {D : Type*} [DecidableEq D]

namespace RingList

/-- One call on a list and its iterator; `none` is an assertion that fails. -/
def iterStep (s : RingList D × RingIterator) :
    CursorOp → Option ((RingList D × RingIterator) × IterResult D)
  | .next => (s.1.listIteratorNext s.2).map (fun (rc, t, it, out) => ((t, it), .next rc out))
  | .hasNext => (listIteratorHasNext s.2).map (fun yes => (s, .hasNext yes))
  | .remove => (s.1.listIteratorRemove s.2).map (fun (rc, t, it) => ((t, it), .removed rc))

end RingList

/-- The references of the list on `d` for the entries `xs`. -/
def dataRefs (xs : List (ListEntry D)) (d : D) : ℕ := (xs.map ListEntry.data).count d

/-- A list and its iterator, which is where the cursor is. -/
structure RingAt (full : D → ℤ) (s : RingList D × RingIterator) (cur : Cursor (ListEntry D)) :
    Prop where
  holds : s.1.Holds cur.elements (fun d => full d - dataRefs cur.ahead d)
  current : s.2.current = cur.current.map ListEntry.addr
  next : s.2.next = some (cur.ahead.map ListEntry.addr).head?
  sync : s.2.expectedModCount = s.1.modCount

/-- `list_iterator_next` goes on to the entry in front of the iterator. -/
theorem RingList.Holds.iteratorNext {t : RingList D} {it : RingIterator}
    {before rest : List (ListEntry D)} {e : ListEntry D} {base : D → ℤ}
    (h : t.Holds (before ++ e :: rest) base) (hnext : it.next = some (some e.addr))
    (hmod : it.expectedModCount = t.modCount) :
    t.listIteratorNext it = some (1, t.ref e.data,
      { it with current := some e.addr, next := some (rest.map ListEntry.addr).head? },
      some e.data) := by
  have hreads := h.reads
  rw [List.map_append, List.map_cons] at hreads
  have hlink : t.next (some e.addr) = some (rest.map ListEntry.addr).head? := by
    rw [hreads.next_some (.inr ⟨e.addr, by simp, rfl⟩), hreads.ring.next_eq]
  have hdata := h.data e (by simp)
  unfold RingList.listIteratorNext
  rw [hnext, hmod]
  simp [hdata, hlink]

/-- `list_iterator_remove` takes out the entry the iterator is at. -/
theorem RingList.Holds.iteratorRemove {t : RingList D} {it : RingIterator}
    {before rest : List (ListEntry D)} {e : ListEntry D} {base : D → ℤ}
    (h : t.Holds (before ++ e :: rest) base) (hnext : it.next ≠ none)
    (hcurrent : it.current = some e.addr) (hmod : it.expectedModCount = t.modCount) :
    ∃ t' it', t.listIteratorRemove it = some (1, t', it') ∧ t'.Holds (before ++ rest) base ∧
      it'.current = none ∧ it'.next = it.next ∧ it'.expectedModCount = t'.modCount ∧
      t'.modCount = t.modCount + 1 := by
  obtain ⟨t₁, hcall, hholds, hmod₁⟩ := h.removeEntry
  have hderef := hholds.deref e.data
  simp only [add_sub_cancel_right] at hderef
  refine ⟨t₁.deref e.data,
    { it with current := none, expectedModCount := it.expectedModCount + 1 }, ?_, hderef, rfl, rfl,
    ?_, hmod₁⟩
  · unfold RingList.listIteratorRemove
    rw [if_neg hnext, hcurrent, hmod]
    simp [hcall]
  · rw [hmod, ← hmod₁]
    rfl

variable {full : D → ℤ} {s : RingList D × RingIterator} {cur cur' : Cursor (ListEntry D)}
  {op : CursorOp} {r : CursorResult (ListEntry D)}

theorem RingAt.step (h : RingAt full s cur) (hop : cur.step op = some (cur', r)) :
    ∃ s', RingList.iterStep s op = some (s', viewResult ListEntry.data r) ∧
      RingAt full s' cur' := by
  obtain ⟨t, it⟩ := s
  obtain ⟨passed, current, ahead⟩ := cur
  obtain ⟨hholds, hcurrent, hnext, hsync⟩ := h
  dsimp only at hholds hcurrent hnext hsync
  unfold Cursor.elements at hholds
  dsimp only at hholds
  cases op with
  | next =>
    cases ahead with
    | nil =>
      cases hop
      refine ⟨(t, it), ?_, hholds, hcurrent, hnext, hsync⟩
      rw [RingList.iterStep, RingList.listIteratorNext, hnext, hsync]
      simp [viewResult]
    | cons e ahead =>
      cases hop
      rw [← List.append_assoc] at hholds
      have hbase : (fun d => full d - dataRefs (e :: ahead) d + if e.data = d then (1 : ℤ) else 0) =
          fun d => full d - dataRefs ahead d := by
        funext d
        rw [dataRefs, RingList.count_data_cons, dataRefs]
        push_cast
        ring
      have href := hholds.ref e.data
      rw [hbase] at href
      let it' : RingIterator :=
        { it with current := some e.addr, next := some (ahead.map ListEntry.addr).head? }
      refine ⟨(t.ref e.data, it'), ?_, href, rfl, rfl, hsync⟩
      rw [RingList.iterStep, hholds.iteratorNext hnext hsync]
      rfl
  | hasNext =>
    cases hop
    refine ⟨(t, it), ?_, hholds, hcurrent, hnext, hsync⟩
    rw [RingList.iterStep, RingList.listIteratorHasNext, hnext]
    cases ahead with
    | nil => rfl
    | cons e ahead => rfl
  | remove =>
    cases current with
    | none => cases hop
    | some e =>
      cases hop
      have hnull : it.next ≠ none := by
        rw [hnext]
        exact Option.some_ne_none _
      obtain ⟨t', it', hcall, hholds', hnone, hnext', hsync', -⟩ :=
        hholds.iteratorRemove hnull hcurrent hsync
      refine ⟨(t', it'), ?_, hholds', hnone, hnext'.trans hnext, hsync'⟩
      rw [RingList.iterStep, hcall]
      rfl

end ListCursor

section ListRuns

variable {D : Type*} [DecidableEq D]

/-- The changes of the list that a call with this result has counted. -/
def ListResult.modifications : ListResult D → ℕ
  | .inserted true | .removed (some _) | .cleared => 1
  | .inserted false | .removed none | .got _ => 0

namespace RingList

variable {t t' : RingList D}

theorem clearLoop_modCount {fuel : ℕ} {p : Option ℕ} (h : clearLoop fuel t p = some t') :
    t'.modCount = t.modCount := by
  induction fuel generalizing t p with
  | zero =>
    cases p with
    | none =>
      cases h
      rfl
    | some cur => cases h
  | succ fuel ih =>
    cases p with
    | none =>
      cases h
      rfl
    | some cur =>
      obtain ⟨q, -, hrest⟩ := Option.bind_eq_some_iff.mp h
      exact (ih hrest).trans rfl

theorem unlink_modCount {D : Type*} {t t' : RingList D} {ent : ℕ} {val : D}
    (h : t.unlink ent = some (t', val)) :
    t'.modCount = t.modCount + 1 := by
  unfold unlink at h
  obtain ⟨n, -, h⟩ := Option.bind_eq_some_iff.mp h
  obtain ⟨p, -, h⟩ := Option.bind_eq_some_iff.mp h
  obtain ⟨q, -, heq⟩ := Option.map_eq_some_iff.mp h
  cases heq
  rfl

theorem listInsert_modCount {index : ℤ} {ent : ℕ} {data : D} {ok : Bool}
    (h : t.listInsert index ent data = some (t', ok)) :
    t'.modCount = t.modCount + BitVec.ofNat 32 (.inserted ok : ListResult D).modifications := by
  unfold listInsert at h
  dsimp only at h
  split_ifs at h
  · cases h
    exact (BitVec.add_zero _).symm
  all_goals
    obtain ⟨t₁, hlink, heq⟩ := Option.map_eq_some_iff.mp h
    cases heq
    obtain ⟨cur, -, hlink⟩ := Option.bind_eq_some_iff.mp hlink
    unfold linkBehind at hlink
    obtain ⟨n, -, heq⟩ := Option.map_eq_some_iff.mp hlink
    cases heq
    rfl

theorem listRemove_modCount {D : Type*} {t t' : RingList D} {index : ℤ} {val : Option D}
    (h : t.listRemove index = some (t', val)) :
    t'.modCount = t.modCount + BitVec.ofNat 32 (.removed val : ListResult D).modifications := by
  unfold listRemove at h
  split_ifs at h
  · cases h
    exact (BitVec.add_zero _).symm
  · obtain ⟨⟨t₁, v⟩, hunlink, heq⟩ := Option.map_eq_some_iff.mp h
    cases heq
    obtain ⟨ent, -, hunlink⟩ := Option.bind_eq_some_iff.mp hunlink
    exact unlink_modCount hunlink

theorem listRemoveEntry_modCount {D : Type*} {t t' : RingList D} {ent : ℕ} {val : Option D}
    (h : t.listRemoveEntry ent = some (t', val)) :
    t'.modCount = t.modCount + BitVec.ofNat 32 (.removed val : ListResult D).modifications := by
  unfold listRemoveEntry at h
  split_ifs at h
  · cases h
    exact (BitVec.add_zero _).symm
  · obtain ⟨⟨t₁, v⟩, hunlink, heq⟩ := Option.map_eq_some_iff.mp h
    cases heq
    exact unlink_modCount hunlink

theorem listGet_modCount {index : ℤ} {val : Option D} (h : t.listGet index = some (t', val)) :
    t'.modCount = t.modCount := by
  unfold listGet at h
  split_ifs at h
  · cases h
    rfl
  · obtain ⟨ent, -, heq⟩ := Option.map_eq_some_iff.mp h
    cases heq
    rfl

theorem listClear_modCount (h : t.listClear = some t') : t'.modCount = t.modCount + 1 := by
  obtain ⟨t₁, hloop, heq⟩ := Option.map_eq_some_iff.mp h
  cases heq
  obtain ⟨p, -, hloop⟩ := Option.bind_eq_some_iff.mp hloop
  exact congrArg (· + 1) (clearLoop_modCount hloop)

theorem step_modCount {op : ListOp D} {r : ListResult D} (h : t.step op = some (t', r)) :
    t'.modCount = t.modCount + BitVec.ofNat 32 r.modifications := by
  cases op with
  | insert index ent data =>
    rw [step, Option.map_eq_some_iff] at h
    obtain ⟨⟨t₁, ok⟩, hcall, heq⟩ := h
    cases heq
    exact listInsert_modCount hcall
  | remove index =>
    rw [step, Option.map_eq_some_iff] at h
    obtain ⟨⟨t₁, val⟩, hcall, heq⟩ := h
    cases heq
    exact listRemove_modCount hcall
  | removeEntry ent =>
    rw [step, Option.map_eq_some_iff] at h
    obtain ⟨⟨t₁, val⟩, hcall, heq⟩ := h
    cases heq
    exact listRemoveEntry_modCount hcall
  | get index =>
    rw [step, Option.map_eq_some_iff] at h
    obtain ⟨⟨t₁, val⟩, hcall, heq⟩ := h
    cases heq
    exact (listGet_modCount hcall).trans (BitVec.add_zero _).symm
  | clear =>
    rw [step, Option.map_eq_some_iff] at h
    obtain ⟨t₁, hcall, heq⟩ := h
    cases heq
    exact listClear_modCount hcall

theorem run_modCount {ops : List (ListOp D)} {rs : List (ListResult D)}
    (h : t.run ops = some (t', rs)) :
    t'.modCount = t.modCount + BitVec.ofNat 32 (rs.map ListResult.modifications).sum := by
  induction ops generalizing t rs with
  | nil =>
    cases h
    exact (BitVec.add_zero _).symm
  | cons op ops ih =>
    obtain ⟨⟨t₁, r⟩, hcall, hrest⟩ := Option.bind_eq_some_iff.mp h
    obtain ⟨⟨t₂, rest⟩, hrun, heq⟩ := Option.map_eq_some_iff.mp hrest
    cases heq
    rw [ih hrun, step_modCount hcall, List.map_cons, List.sum_cons, BitVec.ofNat_add,
      BitVec.add_assoc]

end RingList

end ListRuns

/-- An iterator over a container that somebody else has changed: both calls return `-1` and change
nothing. -/
def Refused {S V : Type*} (step : S → CursorOp → Option (S × IterResult V)) (s : S)
    (hasCurrent : Prop) : Prop :=
  step s .next = some (s, .next (-1) none) ∧
    (hasCurrent → step s .remove = some (s, .removed (-1)))

section Tables

variable {K A D : Type*} [DecidableEq A] [DecidableEq D]

/-- Every iteration over a table that calls have built visits its entries and leaves those that it
has not removed. After changes of others whose number is not a multiple of `2 ^ 32` it is refused. -/
def HashtableIterates (H : HashOps K) (capacity : ℕ) (mem : Hashtable K A D) : Prop :=
  ∀ built t builtResults, OwnEntries H.same [] built →
    hashRun H (hashtableCreate capacity mem) built = some (t, builtResults) →
    let es := (mapRun H.same [] built).1
    ∀ ops cur rs, trace Cursor.step (.start es) ops = some (cur, rs) →
      ∃ t' it, trace (hashIterStep H) (t, hashtableIterate t) ops =
          some ((t', it), rs.map (viewResult fun e => (e.key, e.data))) ∧
        Iterates es ops rs cur.elements ∧
        Holds H (if capacity = 0 then 128 else capacity) t' cur.elements
          (fun d => t.nrefs d - entryRefs es d + entryRefs (visitedOf rs) d) ∧
        ∀ others t'' results, OwnEntries H.same cur.elements others →
          hashRun H t' others = some (t'', results) →
          ¬2 ^ 32 ∣ modifications H.same cur.elements others →
          Refused (hashIterStep H) (t'', it) (it.current ≠ none)

theorem hashIter_refused {H : HashOps K} {t : Hashtable K A D} {it : HashtableIterator A}
    (h : it.expectedModCount ≠ t.modCount) :
    Refused (hashIterStep H) (t, it) (it.current ≠ none) := by
  constructor
  · rw [hashIterStep, hashtableIteratorNext, if_pos h]
  · intro hcurrent
    obtain ⟨ent, hent⟩ := Option.ne_none_iff_exists'.mp hcurrent
    rw [hashIterStep, hashtableIteratorRemove, hent]
    dsimp only
    rw [if_pos h]
    rfl

/-- A count is only where it was after a multiple of `2 ^ 32` changes. -/
theorem add_ofNat_ne {n : ℕ} (x : BitVec 32) (h : ¬2 ^ 32 ∣ n) : x ≠ x + BitVec.ofNat 32 n := by
  intro heq
  apply h
  have hzero : BitVec.ofNat 32 n = 0 := by simpa using heq.symm
  have hmod := congrArg BitVec.toNat hzero
  rw [BitVec.toNat_ofNat] at hmod
  exact Nat.dvd_of_mod_eq_zero hmod

theorem hashtableIterates {H : HashOps K} (hsame : Equivalence (fun k k' => H.same k k' = true))
    (capacity : ℕ) (mem : Hashtable K A D) : HashtableIterates H capacity mem := by
  intro built t results hown hbuilt es ops cur rs hcur
  have hcreate : Holds H (if capacity = 0 then 128 else capacity) (hashtableCreate capacity mem) []
      mem.nrefs := by
    by_cases hzero : capacity = 0
    · rw [hzero]
      exact holds_create H (show 1 ≤ 128 by decide) mem
    · rw [if_neg hzero]
      exact holds_create H (Nat.pos_of_ne_zero hzero) mem
  have hnone : KeysFit H (if capacity = 0 then 128 else capacity) ([] : List (Entry K A D)) :=
    fun e he => absurd he List.not_mem_nil
  obtain ⟨⟨base, hholds⟩, hfit, -⟩ := hcreate.run_some hsame hnone hown hbuilt
  have hrefs : (fun d => t.nrefs d - entryRefs es d) = base := by
    funext d
    rw [hholds.refs d]
    ring
  have hstart : HashAt H (if capacity = 0 then 128 else capacity) t.nrefs (t, hashtableIterate t)
      (.start es) := by
    refine ⟨?_, hfit, rfl, hholds.rep.ring.next.head_eq, rfl⟩
    change Holds H _ t es (fun d => t.nrefs d - entryRefs es d)
    rw [hrefs]
    exact hholds
  obtain ⟨⟨t', it⟩, htrace, hat⟩ :=
    trace_simulation (fun s c op c' r hrel hop => hrel.step hsame hop) hstart hcur
  have hiter := Cursor.iterates (List.Nodup.of_map Entry.addr hholds.rep.nodup) hcur
  have hahead : es = visitedOf rs ++ cur.ahead := Cursor.trace_ahead hcur
  refine ⟨t', it, htrace, hiter, ⟨hat.holds.rep, fun d => ?_⟩, ?_⟩
  · have hd := hat.holds.refs d
    have hsplit : entryRefs es d = entryRefs (visitedOf rs) d + entryRefs cur.ahead d := by
      rw [← entryRefs_append, ← hahead]
    push_cast [hsplit] at hd ⊢
    linarith
  · intro others t'' results' hown' hrun hmany
    obtain ⟨-, -, hmod⟩ := hat.holds.run_some hsame hat.fit hown' hrun
    apply hashIter_refused
    rw [hmod, hat.sync]
    exact add_ofNat_ne _ hmany

end Tables

section Lists

variable {D : Type*} [DecidableEq D]

/-- The same for a list that calls have built. -/
def ListIterates (mem : RingList D) : Prop :=
  ∀ built t builtResults, RingList.RunFits [] built →
    (RingList.listCreate mem).run built = some (t, builtResults) →
    let xs := (seqRun [] built).1
    ∀ ops cur rs, trace Cursor.step (.start xs) ops = some (cur, rs) →
      ∃ t' it, trace RingList.iterStep (t, t.listIterate) ops =
          some ((t', it), rs.map (viewResult ListEntry.data)) ∧
        Iterates xs ops rs cur.elements ∧
        t'.Holds cur.elements (fun d => t.nrefs d - dataRefs xs d + dataRefs (visitedOf rs) d) ∧
        ∀ others t'' results, t'.run others = some (t'', results) →
          ¬2 ^ 32 ∣ (results.map ListResult.modifications).sum →
          Refused RingList.iterStep (t'', it) (it.current ≠ none)

theorem ringIter_refused {t : RingList D} {it : RingIterator} (hnext : it.next ≠ none)
    (h : it.expectedModCount ≠ t.modCount) :
    Refused RingList.iterStep (t, it) (it.current ≠ none) := by
  constructor
  · obtain ⟨next, heq⟩ := Option.ne_none_iff_exists'.mp hnext
    rw [RingList.iterStep, RingList.listIteratorNext, heq, Option.map_some, if_pos h]
    rfl
  · intro hcurrent
    obtain ⟨ent, hent⟩ := Option.ne_none_iff_exists'.mp hcurrent
    rw [RingList.iterStep, RingList.listIteratorRemove, if_neg hnext, hent, Option.bind_some, if_pos h]
    rfl

theorem listIterates (mem : RingList D) : ListIterates mem := by
  intro built t results hfits hbuilt xs ops cur rs hcur
  obtain ⟨t₁, hrun, hholds⟩ := (RingList.holds_create mem).run hfits
  obtain ⟨rfl, -⟩ := Prod.mk.inj (Option.some.inj (hrun.symm.trans hbuilt))
  have hstart : RingAt t₁.nrefs (t₁, t₁.listIterate) (.start xs) := by
    refine ⟨⟨hholds.size, hholds.nodup, hholds.data, hholds.reads, fun d => ?_⟩, rfl, ?_, rfl⟩
    · change t₁.nrefs d = t₁.nrefs d - dataRefs xs d + dataRefs xs d
      ring
    · change t₁.next none = _
      rw [hholds.reads.next_some (.inl rfl), Function.comp]
      exact congrArg some hholds.reads.ring.next.head_eq
  obtain ⟨⟨t', it⟩, htrace, hat⟩ :=
    trace_simulation (fun s c op c' r hrel hop => hrel.step hop) hstart hcur
  have hiter := Cursor.iterates (List.Nodup.of_map ListEntry.addr hholds.nodup) hcur
  have hahead : xs = visitedOf rs ++ cur.ahead := Cursor.trace_ahead hcur
  refine ⟨t', it, htrace, hiter,
    ⟨hat.holds.size, hat.holds.nodup, hat.holds.data, hat.holds.reads, fun d => ?_⟩, ?_⟩
  · have hd := hat.holds.refs d
    have hsplit : dataRefs xs d = dataRefs (visitedOf rs) d + dataRefs cur.ahead d := by
      rw [hahead]
      exact RingList.count_data_append _ _ d
    push_cast [hsplit] at hd ⊢
    linarith
  · intro others t'' results' hrun' hmany
    apply ringIter_refused
    · rw [hat.next]
      exact Option.some_ne_none _
    · rw [RingList.run_modCount hrun', hat.sync]
      exact add_ofNat_ne _ hmany

end Lists

section Sequences

variable {D : Type*}

/-- A list in memory holds the entries of a list, and an `int` holds its count of modifications. -/
structure RingList.Linked [DecidableEq D] (t : RingList D) (lst : LinkedList D) (base : D → ℤ) : Prop where
  holds : t.Holds lst.entries base
  modCount : t.modCount = BitVec.ofInt 32 lst.modCount

/-- An iterator in memory stands where an iterator stands. -/
structure RingIterator.Stands (rit : RingIterator) (it : ListIterator) : Prop where
  current : rit.current = it.current
  next : rit.next = some it.next
  expectedModCount : rit.expectedModCount = BitVec.ofInt 32 it.expectedModCount

/-- An iterator whose `int` tells whether the list has been modified, and whose next entry is in a
list that has not. -/
structure ListIterator.Counts (it : ListIterator) (lst : LinkedList D) : Prop where
  le : it.expectedModCount ≤ lst.modCount
  lt : lst.modCount < it.expectedModCount + 2 ^ 32
  next : it.expectedModCount = lst.modCount →
    ∀ ent ∈ it.next, ent ∈ lst.entries.map ListEntry.addr

theorem ofInt_succ (n : ℤ) : BitVec.ofInt 32 (n + 1) = BitVec.ofInt 32 n + 1 := by
  rw [BitVec.ofInt_add]
  rfl

theorem ListIterator.Counts.expected_eq_iff {it : ListIterator} {lst : LinkedList D}
    (h : it.Counts lst) :
    BitVec.ofInt 32 it.expectedModCount = BitVec.ofInt 32 lst.modCount ↔
      it.expectedModCount = lst.modCount := by
  constructor
  · intro heq
    have hle := h.le
    have hlt := h.lt
    have hnat := congrArg BitVec.toNat heq
    rw [BitVec.toNat_ofInt, BitVec.toNat_ofInt] at hnat
    omega
  · exact congrArg (BitVec.ofInt 32)

namespace RingList

variable [DecidableEq D] {t : RingList D} {lst : LinkedList D} {base : D → ℤ} {rit : RingIterator}
  {it : ListIterator}

theorem linked_create (mem : RingList D) :
    (RingList.listCreate mem).Linked Common.listCreate mem.nrefs := ⟨holds_create mem, rfl⟩

/-- `list_push_tail` is `list_insert` at `-1`. -/
theorem Linked.pushTail (h : t.Linked lst base) {e : ListEntry D}
    (hlen : lst.entries.length < 2 ^ 31) (hnew : ∀ x ∈ lst.entries, x.addr ≠ e.addr) :
    ∃ t', t.listInsert (-1) e.addr e.data = some (t', true) ∧
      t'.Linked (listPushTail lst e) base := by
  have hpos : insertPos lst.entries.length (-1) = some lst.entries.length := by
    unfold insertPos
    rw [if_neg (by omega), if_pos (by omega)]
    congr 1
    omega
  obtain ⟨t', hcall, hholds⟩ := h.holds.insert e.data hlen hnew hpos
  rw [List.insertIdx_length_self] at hholds
  refine ⟨t', hcall, hholds, ?_⟩
  rw [listInsert_modCount hcall, h.modCount]
  exact (ofInt_succ lst.modCount).symm

/-- `list_remove_entry`; its reference goes to the caller. -/
theorem Linked.removeEntry (h : t.Linked lst base) {e : ListEntry D} (he : e ∈ lst.entries) :
    ∃ t', t.listRemoveEntry e.addr = some (t', some e.data) ∧
      t'.Linked (Common.listRemoveEntry lst e.addr)
        (fun d => base d + if e.data = d then 1 else 0) := by
  obtain ⟨pre, post, hsplit⟩ := List.append_of_mem he
  have hnd := h.holds.nodup
  have hheld := h.holds
  rw [hsplit] at hnd hheld
  obtain ⟨t', hcall, hholds, hmod⟩ := hheld.removeEntry
  refine ⟨t', hcall, ?_, ?_⟩
  · rw [Common.listRemoveEntry, hsplit, eraseP_addr hnd]
    exact hholds
  · rw [hmod, h.modCount]
    exact (ofInt_succ lst.modCount).symm

theorem Linked.iterate (h : t.Linked lst base) :
    t.listIterate.Stands (Common.listIterate lst) := by
  refine ⟨rfl, ?_, h.modCount⟩
  change t.next none = _
  rw [h.holds.reads.next_some (.inl rfl), Function.comp, Common.listIterate, ← List.head?_map]
  exact congrArg some h.holds.reads.ring.next.head_eq

/-- `list_iterator_next` returns what it returns for the list, and the iterators go on alike. -/
theorem Linked.iteratorNext (h : t.Linked lst base) (hit : rit.Stands it) (hcounts : it.Counts lst) :
    match Common.listIteratorNext it lst with
    | .modified => t.listIteratorNext rit = some (-1, t, rit, none)
    | .done => t.listIteratorNext rit = some (0, t, rit, none)
    | .entry it' e => ∃ rit', rit'.Stands it' ∧
        t.listIteratorNext rit = some (1, t.ref e.data, rit', some e.data) := by
  have hsame : rit.expectedModCount = t.modCount ↔ it.expectedModCount = lst.modCount := by
    rw [hit.expectedModCount, h.modCount, hcounts.expected_eq_iff]
  unfold Common.listIteratorNext
  by_cases hmod : it.expectedModCount = lst.modCount
  · rw [if_neg (not_not.mpr hmod)]
    cases hnext : it.next with
    | none =>
      simp [RingList.listIteratorNext, hit.next, hnext, hsame.mpr hmod]
    | some ent =>
      obtain ⟨e, he, rfl⟩ := List.mem_map.mp (hcounts.next hmod ent hnext)
      obtain ⟨pre, post, hsplit⟩ := List.append_of_mem he
      have hheld := h.holds
      have hnd := h.holds.nodup
      rw [hsplit] at hheld hnd
      have hat : it.At lst pre (e :: post) := ⟨hsplit, hnext, hmod⟩
      obtain ⟨it', hcall, hat', hcurrent⟩ := hat.next_cons h.holds.nodup
      rw [Common.listIteratorNext, if_neg (not_not.mpr hmod), hnext] at hcall
      rw [hcall]
      refine ⟨_, ⟨hcurrent.symm, ?_, ?_⟩,
        hheld.iteratorNext (hit.next.trans (congrArg some hnext)) (hsame.mpr hmod)⟩
      · rw [hat'.next, List.head?_map]
      · rw [hsame.mpr hmod, h.modCount, hat'.sync]
  · rw [if_pos hmod]
    simp [RingList.listIteratorNext, hit.next, mt hsame.mp hmod]

/-- `list_iterator_remove`, of an entry that is still in the list if nobody has modified it. -/
theorem Linked.iteratorRemove (h : t.Linked lst base) (hit : rit.Stands it) (hcounts : it.Counts lst)
    {e : ListEntry D} (hcurrent : it.current = some e.addr)
    (he : it.expectedModCount = lst.modCount → e ∈ lst.entries) :
    ∃ t' rit', t.listIteratorRemove rit =
        some (if it.expectedModCount = lst.modCount then 1 else -1, t', rit') ∧
      rit'.Stands (Common.listIteratorRemove it lst).1 ∧
      t'.Linked (Common.listIteratorRemove it lst).2 base := by
  have hsame : rit.expectedModCount = t.modCount ↔ it.expectedModCount = lst.modCount := by
    rw [hit.expectedModCount, h.modCount, hcounts.expected_eq_iff]
  have hnull : rit.next ≠ none := by
    rw [hit.next]
    exact Option.some_ne_none _
  have hent : rit.current = some e.addr := hit.current.trans hcurrent
  unfold Common.listIteratorRemove
  rw [hcurrent]
  by_cases hmod : it.expectedModCount = lst.modCount
  · obtain ⟨pre, post, hsplit⟩ := List.append_of_mem (he hmod)
    have hheld := h.holds
    have hnd := h.holds.nodup
    rw [hsplit] at hheld hnd
    obtain ⟨t', rit', hcall, hholds, hnone, hnext, hsync, hcount⟩ :=
      hheld.iteratorRemove hnull hent (hsame.mpr hmod)
    have hmodCount : t'.modCount = BitVec.ofInt 32 (lst.modCount + 1) := by
      rw [hcount, h.modCount, ofInt_succ]
    simp only [if_neg (not_not.mpr hmod), if_pos hmod]
    refine ⟨t', rit', hcall, ⟨hnone, hnext.trans hit.next, ?_⟩, ?_, hmodCount⟩
    · rw [hsync, hmodCount, hmod]
    · rw [Common.listRemoveEntry, hsplit, eraseP_addr hnd]
      exact hholds
  · simp only [if_pos hmod, if_neg hmod]
    refine ⟨t, rit, ?_, hit, h⟩
    rw [RingList.listIteratorRemove, if_neg hnull, hent, Option.bind_some,
      if_pos (mt hsame.mp hmod)]

end RingList

end Sequences
/-- Iterators visit every entry once, leave those that were not removed, and notice the changes of
others. -/
theorem iterators_visit {K A D E : Type*} [DecidableEq A] [DecidableEq D] [DecidableEq E]
    {H : HashOps K} (hsame : Equivalence (fun k k' => H.same k k' = true)) (capacity : ℕ)
    (table : Hashtable K A D) (list : RingList E) :
    HashtableIterates H capacity table ∧ ListIterates list :=
  ⟨hashtableIterates hsame capacity table, listIterates list⟩

theorem numberKeys_same : Equivalence (fun k k' => numberKeys.same k k' = true) := by
  have hiff (k k' : BitVec 32) : numberKeys.same k k' = true ↔ k = k' := by
    simp [HashOps.same, numberKeys]
  simp only [hiff]
  exact eq_equivalence

theorem iterators_visit_numberKeys :
    HashtableIterates numberKeys 32 zeroMemory ∧ ListIterates RingList.zeroMem :=
  iterators_visit numberKeys_same 32 zeroMemory RingList.zeroMem

theorem mapRun_cons_fst {K A D : Type*} (same : K → K → Bool) (es : List (Entry K A D))
    (op : HashOp K A D) (ops : List (HashOp K A D)) :
    (mapRun same es (op :: ops)).1 = (mapRun same (mapStep same es op).1 ops).1 := rfl

def putAgain (n : ℕ) : List (HashOp (BitVec 32) ℕ ℕ) := List.replicate n (.put 20 2 8)

theorem putAgain_holds (n : ℕ) :
    OwnEntries numberKeys.same [⟨10, 1, 7⟩, ⟨20, 2, 8⟩] (putAgain n) ∧
      (mapRun numberKeys.same [⟨10, 1, 7⟩, ⟨20, 2, 8⟩] (putAgain n)).1 =
        [⟨10, 1, 7⟩, ⟨20, 2, 8⟩] ∧
      modifications numberKeys.same [⟨10, 1, 7⟩, ⟨20, 2, 8⟩] (putAgain n) = n := by
  have hstep : (mapStep numberKeys.same [⟨10, 1, 7⟩, ⟨20, 2, 8⟩]
      (.put 20 2 8 : HashOp (BitVec 32) ℕ ℕ)).1 = [⟨10, 1, 7⟩, ⟨20, 2, 8⟩] := rfl
  induction n with
  | zero => exact ⟨trivial, rfl, rfl⟩
  | succ n ih =>
    obtain ⟨hown, hrun, hcount⟩ := ih
    have hops : putAgain (n + 1) = .put 20 2 8 :: putAgain n := rfl
    rw [hops]
    refine ⟨ownEntries_cons.mpr ⟨?_, ?_⟩, ?_, ?_⟩
    · intro e he haddr
      simp only [List.mem_cons, List.not_mem_nil, or_false] at he
      rcases he with rfl | rfl
      · cases haddr
      · rfl
    · rw [hstep]
      exact hown
    · rw [mapRun_cons_fst, hstep]
      exact hrun
    · rw [modifications, hstep, hcount, HashOp.modifications, Nat.add_comm]

/-- `2 ^ 32` changes of a table of one entry, after which it has two, are not noticed. -/
theorem not_noticed : ∃ n t rs t' rs', n = 2 ^ 32 ∧
    hashRun numberKeys (hashtableCreate 32 zeroMemory) [.put 10 1 7] = some (t, rs) ∧
    hashRun numberKeys t (putAgain n) = some (t', rs') ∧
    (∃ base, Holds numberKeys 32 t' [⟨10, 1, 7⟩, ⟨20, 2, 8⟩] base) ∧
    (hashtableIteratorNext t' (hashtableIterate t)).1 = 1 := by
  obtain ⟨n, hn⟩ : ∃ n, n + 1 = 2 ^ 32 := ⟨2 ^ 32 - 1, by norm_num⟩
  have hfits : ∀ k, (numberKeys.hashCode k).toNat % 32 < 2 ^ 31 := by
    intro k
    have := Nat.mod_lt (numberKeys.hashCode k).toNat (show 32 > 0 by decide)
    omega
  have hcreate := holds_create numberKeys (show 1 ≤ 32 by decide) zeroMemory
  have hown₁ : OwnEntries numberKeys.same [] [(.put 10 1 7 : HashOp (BitVec 32) ℕ ℕ)] :=
    ownEntries_cons.mpr ⟨fun e he => absurd he List.not_mem_nil, trivial⟩
  obtain ⟨t, hrun, hholds⟩ := hcreate.run numberKeys_same hfits hown₁
  have hes : (mapRun numberKeys.same [] [(.put 10 1 7 : HashOp (BitVec 32) ℕ ℕ)]).1 =
      [⟨10, 1, 7⟩] := rfl
  rw [hes] at hholds
  obtain ⟨hown, hleft, hcount⟩ := putAgain_holds n
  have hops : putAgain (n + 1) = .put 20 2 8 :: putAgain n := rfl
  have hstep : (mapStep numberKeys.same [⟨10, 1, 7⟩]
      (.put 20 2 8 : HashOp (BitVec 32) ℕ ℕ)).1 = [⟨10, 1, 7⟩, ⟨20, 2, 8⟩] := rfl
  have hown₂ : OwnEntries numberKeys.same [⟨10, 1, 7⟩] (putAgain (n + 1)) := by
    rw [hops]
    refine ownEntries_cons.mpr ⟨fun e he haddr => ?_, by rw [hstep]; exact hown⟩
    rw [List.mem_singleton.mp he] at haddr
    cases haddr
  obtain ⟨t', hrun', hholds'⟩ := hholds.run numberKeys_same hfits hown₂
  obtain ⟨-, -, hmod⟩ := hholds.run_some numberKeys_same (fun e _ => hfits e.key) hown₂ hrun'
  have hes₂ : (mapRun numberKeys.same [⟨10, 1, 7⟩] (putAgain (n + 1))).1 =
      [⟨10, 1, 7⟩, ⟨20, 2, 8⟩] := by
    rw [hops, mapRun_cons_fst, hstep, hleft]
  rw [hes₂] at hholds'
  refine ⟨n + 1, t, _, t', _, hn, hrun, hrun', ⟨_, hholds'⟩, ?_⟩
  have hsync : (hashtableIterate t).expectedModCount = t'.modCount := by
    rw [hmod, hops, modifications, hstep, hcount, HashOp.modifications, Nat.add_comm, hn]
    exact (BitVec.add_zero _).symm
  have hnext : (hashtableIterate t).next = some 10 := hholds.rep.ring.next.head_eq
  have hback : Holds numberKeys 32 t' ([] ++ ⟨10, 1, 7⟩ :: [⟨20, 2, 8⟩]) _ := hholds'
  rw [hback.iteratorNext hnext hsync]

end Carrier.Common
