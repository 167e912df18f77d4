import Mathlib.Tactic

/-! `common/linkedlist.c`: lists that entries are pushed to and removed from, and their iterators,
which fail when the list has been modified. -/
namespace Carrier.Common

/-- An entry: its address and its data. -/
structure ListEntry (α : Type*) where
  addr : ℕ
  data : α
  deriving DecidableEq

structure LinkedList (α : Type*) where
  entries : List (ListEntry α)
  modCount : ℤ
  deriving DecidableEq

/-- An iterator. The address of an entry is `none` for the head of the list in `next` and for
`NULL` in `current`. -/
structure ListIterator where
  current : Option ℕ
  next : Option ℕ
  expectedModCount : ℤ
  deriving DecidableEq

variable {α : Type*}

def listCreate : LinkedList α := ⟨[], 0⟩

def listPushTail (lst : LinkedList α) (entry : ListEntry α) : LinkedList α :=
  ⟨lst.entries ++ [entry], lst.modCount + 1⟩

/-- `list_remove_entry`, of an entry of the list -/
def listRemoveEntry (lst : LinkedList α) (addr : ℕ) : LinkedList α :=
  ⟨lst.entries.eraseP (·.addr = addr), lst.modCount + 1⟩

/-- `entry->next` -/
def LinkedList.nextOf (lst : LinkedList α) (addr : ℕ) : Option ℕ :=
  (lst.entries.dropWhile (·.addr ≠ addr)).tail.head?.map ListEntry.addr

def listIterate (lst : LinkedList α) : ListIterator :=
  ⟨none, lst.entries.head?.map ListEntry.addr, lst.modCount⟩

/-- What `list_iterator_next` returns: 1 with an entry, 0, or -1. -/
inductive Next (α : Type*) where
  | entry (it : ListIterator) (e : ListEntry α)
  | done
  | modified

def listIteratorNext (it : ListIterator) (lst : LinkedList α) : Next α :=
  if it.expectedModCount ≠ lst.modCount then .modified
  else
    match it.next with
    | none => .done
    | some addr =>
      match lst.entries.find? (·.addr = addr) with
      | none => .done
      | some e => .entry { it with current := some addr, next := lst.nextOf addr } e

def listIteratorHasNext (it : ListIterator) : Bool := it.next.isSome

/-- `list_iterator_remove`: the entry it came to last, unless the list has been modified. -/
def listIteratorRemove (it : ListIterator) (lst : LinkedList α) : ListIterator × LinkedList α :=
  match it.current with
  | none => (it, lst)
  | some addr =>
    if it.expectedModCount ≠ lst.modCount then (it, lst)
    else
      ({ it with current := none, expectedModCount := it.expectedModCount + 1 },
        listRemoveEntry lst addr)

/-- An iterator that stands in front of the list. -/
def ListIterator.AtHead (it : ListIterator) (lst : LinkedList α) : Prop :=
  it.expectedModCount = lst.modCount ∧ it.next = lst.entries.head?.map ListEntry.addr

/-- An iterator that has come to the first entry, as long as nothing has been modified. -/
def ListIterator.AtFirst (it : ListIterator) (lst : LinkedList α) : Prop :=
  ∃ e rest, lst.entries = e :: rest ∧ it.current = some e.addr ∧
    (it.expectedModCount = lst.modCount → it.next = rest.head?.map ListEntry.addr)

theorem listIterate_atHead (lst : LinkedList α) : (listIterate lst).AtHead lst := ⟨rfl, rfl⟩

/-- From in front of a list the iterator comes to its first entry. -/
theorem ListIterator.AtHead.next {it : ListIterator} {lst : LinkedList α} (h : it.AtHead lst) :
    lst.entries = [] ∧ listIteratorNext it lst = .done ∨
      ∃ e rest it', lst.entries = e :: rest ∧ listIteratorNext it lst = .entry it' e ∧
        it'.AtFirst lst ∧ it'.expectedModCount = lst.modCount := by
  obtain ⟨hmod, hnext⟩ := h
  unfold listIteratorNext
  rw [if_neg (not_not.mpr hmod)]
  cases hentries : lst.entries with
  | nil =>
    rw [hentries] at hnext
    left
    rw [hnext]
    exact ⟨rfl, rfl⟩
  | cons e rest =>
    rw [hentries] at hnext
    right
    refine ⟨e, rest, { it with current := some e.addr, next := lst.nextOf e.addr }, rfl, ?_, ?_, hmod⟩
    · rw [hnext]
      simp
    · refine ⟨e, rest, hentries, rfl, fun _ => ?_⟩
      simp [LinkedList.nextOf, hentries]

/-- The first entry is removed exactly if nothing has been modified. -/
theorem ListIterator.AtFirst.remove {it : ListIterator} {lst : LinkedList α} (h : it.AtFirst lst) :
    (it.expectedModCount = lst.modCount ∧ (listIteratorRemove it lst).1.AtHead (listIteratorRemove it lst).2 ∧
        (listIteratorRemove it lst).2.entries = lst.entries.tail) ∨
      it.expectedModCount ≠ lst.modCount ∧ listIteratorRemove it lst = (it, lst) := by
  obtain ⟨e, rest, hentries, hcurrent, hnext⟩ := h
  unfold listIteratorRemove
  rw [hcurrent]
  by_cases hmod : it.expectedModCount = lst.modCount
  · left
    have herase : (listRemoveEntry lst e.addr).entries = rest := by
      simp [listRemoveEntry, hentries]
    simp only [if_neg (not_not.mpr hmod)]
    refine ⟨hmod, ⟨congrArg (· + 1) hmod, ?_⟩, ?_⟩
    · rw [herase]
      exact hnext hmod
    · rw [herase, hentries]
      rfl
  · exact .inr ⟨hmod, if_pos hmod⟩

/-- An iterator at the first entry stays there when another one is pushed, but has failed. -/
theorem ListIterator.AtFirst.pushTail {it : ListIterator} {lst : LinkedList α} (h : it.AtFirst lst)
    (entry : ListEntry α) (hmod : it.expectedModCount ≤ lst.modCount) :
    it.AtFirst (listPushTail lst entry) := by
  obtain ⟨e, rest, hentries, hcurrent, -⟩ := h
  refine ⟨e, rest ++ [entry], ?_, hcurrent, fun heq => ?_⟩
  · rw [listPushTail, hentries]
    rfl
  · exact absurd heq (Int.lt_add_one_of_le hmod).ne

/-- An iterator of an unmodified list that has passed the entries `pre` and has `post` in front of
it. -/
structure ListIterator.At (it : ListIterator) (lst : LinkedList α) (pre post : List (ListEntry α)) :
    Prop where
  entries : lst.entries = pre ++ post
  next : it.next = post.head?.map ListEntry.addr
  sync : it.expectedModCount = lst.modCount

theorem listIterate_at (lst : LinkedList α) : (listIterate lst).At lst [] lst.entries := ⟨rfl, rfl, rfl⟩

theorem listIteratorHasNext_eq {it : ListIterator} {post : List (ListEntry α)}
    (h : it.next = post.head?.map ListEntry.addr) : listIteratorHasNext it = !post.isEmpty := by
  unfold listIteratorHasNext
  rw [h]
  cases post with
  | nil => rfl
  | cons e post => rfl

theorem listIteratorNext_modified {it : ListIterator} {lst : LinkedList α}
    (h : it.expectedModCount ≠ lst.modCount) : listIteratorNext it lst = .modified := if_pos h

section Addresses

variable {pre post : List (ListEntry α)} {e : ListEntry α}

theorem addr_ne_of_nodup (hnd : ((pre ++ e :: post).map ListEntry.addr).Nodup) :
    ∀ x ∈ pre, x.addr ≠ e.addr := by
  rw [List.map_append, List.map_cons, List.nodup_middle, List.nodup_cons] at hnd
  intro x hx heq
  exact hnd.1 (List.mem_append_left _ (heq ▸ List.mem_map_of_mem hx))

theorem find?_addr (hnd : ((pre ++ e :: post).map ListEntry.addr).Nodup) :
    (pre ++ e :: post).find? (·.addr = e.addr) = some e := by
  rw [List.find?_append, List.find?_eq_none.mpr (by simpa using addr_ne_of_nodup hnd),
    Option.none_or, List.find?_cons_of_pos (by simp)]

theorem eraseP_addr (hnd : ((pre ++ e :: post).map ListEntry.addr).Nodup) :
    (pre ++ e :: post).eraseP (·.addr = e.addr) = pre ++ post := by
  rw [List.eraseP_append_right _ (by simpa using addr_ne_of_nodup hnd),
    List.eraseP_cons_of_pos (by simp)]

end Addresses

/-- The iterator goes on to the entry in front of it. -/
theorem ListIterator.At.next_cons {it : ListIterator} {lst : LinkedList α}
    {pre post : List (ListEntry α)} {e : ListEntry α} (h : it.At lst pre (e :: post))
    (hnd : (lst.entries.map ListEntry.addr).Nodup) :
    ∃ it', listIteratorNext it lst = .entry it' e ∧ it'.At lst (pre ++ [e]) post ∧
      it'.current = some e.addr := by
  obtain ⟨hentries, hnext, hsync⟩ := h
  rw [hentries] at hnd
  have hpre := addr_ne_of_nodup hnd
  have hfind : lst.entries.find? (·.addr = e.addr) = some e := by rw [hentries, find?_addr hnd]
  have hnextOf : lst.nextOf e.addr = post.head?.map ListEntry.addr := by
    have hdrop : lst.entries.dropWhile (·.addr ≠ e.addr) = e :: post := by
      rw [hentries, List.dropWhile_append_of_pos (by simpa using hpre)]
      simp
    rw [LinkedList.nextOf, hdrop, List.tail_cons]
  refine ⟨{ it with current := some e.addr, next := lst.nextOf e.addr }, ?_, ⟨?_, hnextOf, hsync⟩, rfl⟩
  · unfold listIteratorNext
    rw [if_neg (not_not.mpr hsync), hnext]
    simp only [List.head?_cons, Option.map_some, hfind]
  · rw [hentries, List.append_assoc, List.singleton_append]

/-- A list whose entries have different addresses. -/
structure Container (α : Type*) extends LinkedList α where
  nodup : (entries.map ListEntry.addr).Nodup

/-- What changes of a container leave: they count. A count that overflows is undefined. -/
def Container.Follows (c c' : Container α) : Prop := c' = c ∨ c.modCount < c'.modCount

namespace Container

def removeEntry (c : Container α) (addr : ℕ) : Container α where
  toLinkedList := listRemoveEntry c.toLinkedList addr
  nodup := c.nodup.sublist (List.eraseP_sublist.map _)

/-- `list_push_tail` of an entry with an address of its own -/
def pushTail (c : Container α) (e : ListEntry α) (hnew : ∀ x ∈ c.entries, x.addr ≠ e.addr) :
    Container α where
  toLinkedList := listPushTail c.toLinkedList e
  nodup := by
    have hnot : e.addr ∉ c.entries.map ListEntry.addr := by
      intro hmem
      obtain ⟨x, hx, haddr⟩ := List.mem_map.mp hmem
      exact hnew x hx haddr
    rw [listPushTail, List.map_append]
    exact List.nodup_append_comm.mp (List.nodup_cons.mpr ⟨hnot, c.nodup⟩)

theorem Follows.refl (c : Container α) : c.Follows c := .inl rfl

theorem follows_removeEntry (c : Container α) (addr : ℕ) : c.Follows (c.removeEntry addr) :=
  .inr (Int.lt_succ c.modCount)

end Container

end Carrier.Common
