import Carrier.Common.TimeVal
import Carrier.Lib.BinaryHeap
import Carrier.Lib.MachineInts
import Carrier.Lib.Run

/-! `common/timerheap.c`: a binary heap of timer entries, an array that takes the id of an entry to its
slot, and in it the list of free ids. `none` is an access outside of the arrays or to `NULL`, or an
assertion that fails. -/
namespace Carrier.Common
open Carrier.Lib

/-- A timer heap with the memory of its entries, which are the addresses `E`. The arrays have
`maxSize` elements; what is behind them is not theirs. -/
structure TimerHeap (E : Type*) where
  maxSize : ℕ
  curSize : ℕ
  maxEntriesPerPoll : ℕ
  heap : ℕ → Option E
  timerIds : ℕ → ℤ
  timerIdsFreelist : ℤ
  id : E → ℤ
  hasCb : E → Bool
  timerId : E → ℤ
  timerValue : E → TimeVal

def einval : ℤ := 22

/-- The result of a `realloc` of both arrays: `NULL`, or the memory behind the old heap array. -/
abbrev Realloc (E : Type*) := Option (ℕ → Option E)

namespace TimerHeap

variable {E : Type*} [DecidableEq E]

/-- `ht->heap[slot]`, which is not `NULL` -/
def readHeap (ht : TimerHeap E) (slot : ℕ) : Option E :=
  if slot < ht.maxSize then ht.heap slot else none

def writeHeap (ht : TimerHeap E) (slot : ℕ) (e : E) : Option (TimerHeap E) :=
  if slot < ht.maxSize then some { ht with heap := Function.update ht.heap slot (some e) } else none

/-- `ht->timer_ids[i]` -/
def readId (ht : TimerHeap E) (i : ℤ) : Option ℤ :=
  if 0 ≤ i ∧ i < ht.maxSize then some (ht.timerIds i.toNat) else none

def writeId (ht : TimerHeap E) (i v : ℤ) : Option (TimerHeap E) :=
  if 0 ≤ i ∧ i < ht.maxSize then
    some { ht with timerIds := Function.update ht.timerIds i.toNat v }
  else none

def setTimerId (ht : TimerHeap E) (e : E) (timerId : ℤ) : TimerHeap E :=
  { ht with timerId := Function.update ht.timerId e timerId }

def copyNode (ht : TimerHeap E) (slot : ℕ) (movedNode : E) : Option (TimerHeap E) :=
  (ht.writeHeap slot movedNode).bind (·.writeId (ht.timerId movedNode) (int32 slot))

def popFreelist (ht : TimerHeap E) : Option (TimerHeap E × ℤ) :=
  (ht.readId ht.timerIdsFreelist).map fun next =>
    ({ ht with timerIdsFreelist := int32 (-next) }, ht.timerIdsFreelist)

def pushFreelist (ht : TimerHeap E) (oldId : ℤ) : Option (TimerHeap E) :=
  (ht.writeId oldId (int32 (-ht.timerIdsFreelist))).map ({ · with timerIdsFreelist := oldId })

def smallerChild (ht : TimerHeap E) (child : ℕ) : Option ℕ :=
  if child + 1 < ht.curSize then
    (ht.readHeap (child + 1)).bind fun right =>
      (ht.readHeap child).map fun left =>
        if (ht.timerValue right).lt (ht.timerValue left) then child + 1 else child
  else some child

/-- `reheap_down`, up to `fuel` rounds -/
def reheapDown : ℕ → TimerHeap E → E → ℕ → ℕ → Option (TimerHeap E)
  | 0, _, _, _, _ => none
  | fuel + 1, ht, movedNode, slot, child =>
    if child < ht.curSize then
      (ht.smallerChild child).bind fun child =>
        (ht.readHeap child).bind fun node =>
          if (ht.timerValue node).lt (ht.timerValue movedNode) then
            (ht.copyNode slot node).bind (reheapDown fuel · movedNode child (heapLeft child))
          else ht.copyNode slot movedNode
    else ht.copyNode slot movedNode

/-- `reheap_up`, up to `fuel` rounds -/
def reheapUp : ℕ → TimerHeap E → E → ℕ → ℕ → Option (TimerHeap E)
  | 0, _, _, _, _ => none
  | fuel + 1, ht, movedNode, slot, parent =>
    if 0 < slot then
      (ht.readHeap parent).bind fun node =>
        if (ht.timerValue movedNode).lt (ht.timerValue node) then
          (ht.copyNode slot node).bind (reheapUp fuel · movedNode parent (heapParent parent))
        else ht.copyNode slot movedNode
    else ht.copyNode slot movedNode

/-- The end of `remove_node`, which puts the last node into the slot. -/
def moveLast (ht : TimerHeap E) (slot : ℕ) : Option (TimerHeap E) :=
  (ht.readHeap ht.curSize).bind fun movedNode =>
    (ht.copyNode slot movedNode).bind fun ht =>
      (ht.readHeap (heapParent slot)).bind fun parent =>
        if (ht.timerValue movedNode).gte (ht.timerValue parent) then
          reheapDown (ht.curSize + 1) ht movedNode slot (heapLeft slot)
        else reheapUp (slot + 1) ht movedNode slot (heapParent slot)

def removeNode (ht : TimerHeap E) (slot : ℕ) : Option (TimerHeap E × E) :=
  (ht.readHeap slot).bind fun removedNode =>
    (ht.pushFreelist (ht.timerId removedNode)).bind fun ht =>
      let ht := { ht with curSize := ht.curSize - 1 }.setTimerId removedNode (-1)
      (if slot < ht.curSize then ht.moveLast slot else some ht).map (·, removedNode)

/-- `grow_heap`; its callers do not look for `NULL`, which is accessed next. -/
def growHeap (ht : TimerHeap E) (memory : Realloc E) : Option (TimerHeap E) :=
  memory.map fun behind =>
    let newSize := ht.maxSize * 2 % 2 ^ 64
    { ht with
      heap := fun i => if i < ht.maxSize then ht.heap i else behind i
      timerIds := fun i => if i < ht.maxSize then ht.timerIds i else int32 (-int32 (i + 1 : ℕ))
      maxSize := newSize }

def insertNode (ht : TimerHeap E) (newNode : E) (memory : Realloc E) : Option (TimerHeap E) :=
  (if ht.maxSize ≤ ht.curSize + 2 then ht.growHeap memory else some ht).bind fun ht =>
    (reheapUp (ht.curSize + 1) ht newNode ht.curSize (heapParent ht.curSize)).map
      ({ · with curSize := ht.curSize + 1 })

def scheduleEntry (ht : TimerHeap E) (entry : E) (futureTime : TimeVal) (memory : Realloc E) :
    Option (TimerHeap E × ℤ) :=
  if ht.curSize < ht.maxSize then
    ht.popFreelist.bind fun (ht, newId) =>
      let ht := ht.setTimerId entry newId
      let ht := { ht with timerValue := Function.update ht.timerValue entry futureTime }
      (ht.insertNode entry memory).map (·, 0)
  else some (ht, -1)

/-- `timer_heap_schedule` at the time `tv` -/
def timerHeapSchedule (ht : TimerHeap E) (entry : E) (delay : TimeVal) (tv : Timeval)
    (memory : Realloc E) : Option (TimerHeap E × ℤ) :=
  if !ht.hasCb entry then some (ht, einval)
  else if 1 ≤ ht.timerId entry then some (ht, einval)
  else ht.scheduleEntry entry (.add (.gettickcount tv) delay) memory

/-- `cancel`, with `F_DONT_CALL` -/
def cancel (ht : TimerHeap E) (entry : E) (dontAssert : Bool) : Option (TimerHeap E × ℤ) :=
  if ht.timerId entry < 0 ∨ ht.maxSize < ht.timerId entry then some (ht.setTimerId entry (-1), 0)
  else
    (ht.readId (ht.timerId entry)).bind fun timerNodeSlot =>
      if timerNodeSlot < 0 then some (ht.setTimerId entry (-1), 0)
      else if ¬timerNodeSlot < ht.maxSize then none
      else if ht.heap timerNodeSlot.toNat ≠ some entry then
        if dontAssert then some (ht.setTimerId entry (-1), 0) else none
      else (ht.removeNode timerNodeSlot.toNat).map fun (ht, _) => (ht, 1)

def timerHeapCancel (ht : TimerHeap E) (entry : E) : Option (TimerHeap E × ℤ) :=
  ht.cancel entry false

def timerHeapCancelIfActive (ht : TimerHeap E) (entry : E) (idVal : ℤ) :
    Option (TimerHeap E × ℤ) :=
  (ht.cancel entry true).map fun (ht, count) =>
    ({ ht with id := Function.update ht.id entry idVal }, count)

def timerEntryRunning (ht : TimerHeap E) (entry : E) : Bool := 1 ≤ ht.timerId entry

/-- `timer_heap_create` in a memory with any entries, if it gets its arrays. -/
def timerHeapCreate (size : ℕ) (mem : TimerHeap E) : TimerHeap E :=
  let size := (size + 2) % 2 ^ 64
  { mem with
    maxSize := size
    curSize := 0
    maxEntriesPerPoll := 64
    timerIdsFreelist := 1
    heap := fun i => if i < size then none else mem.heap i
    timerIds := fun i => if i < size then int32 (-int32 (i + 1 : ℕ)) else mem.timerIds i }

end TimerHeap

/-- A call of `timer_heap_poll` that has not returned: the time it started at, the callbacks it has
invoked, and whether its caller wants the next delay. -/
structure Poll where
  now : TimeVal
  count : ℕ
  nextDelay : Bool

namespace TimerHeap

variable {E : Type*} [DecidableEq E]

/-- `INT32_MAX` in both fields -/
def noDelay : TimeVal := ⟨2 ^ 31 - 1, 2 ^ 31 - 1⟩

/-- The start of `timer_heap_poll`; `none` when it returns at once. -/
def pollStart (ht : TimerHeap E) (tv : Timeval) (nextDelay : Bool) : Option Poll :=
  if ht.curSize = 0 ∧ nextDelay then none else some ⟨.gettickcount tv, 0, nextDelay⟩

/-- One round of the loop of `timer_heap_poll`: the entry whose callback it invokes, or `none` at the
end of the loop. -/
def pollRound (ht : TimerHeap E) (poll : Poll) : Option (TimerHeap E × Option E) :=
  if ht.curSize = 0 then some (ht, none)
  else
    (ht.readHeap 0).bind fun root =>
      if (ht.timerValue root).lte poll.now ∧ poll.count < ht.maxEntriesPerPoll then
        (ht.removeNode 0).map fun (ht, node) => (ht, some node)
      else some (ht, none)

/-- The end of `timer_heap_poll`: the delay for a caller who wants it. -/
def pollEnd (ht : TimerHeap E) (poll : Poll) : Option (Option TimeVal) :=
  if ht.curSize ≠ 0 ∧ poll.nextDelay then
    (ht.readHeap 0).map fun root =>
      let delay := (ht.timerValue root).sub poll.now
      some (if delay.sec < 0 ∨ delay.msec < 0 then ⟨0, 0⟩ else delay)
  else some (if poll.nextDelay then some noDelay else none)

end TimerHeap

/-- A timer heap, with the calls of `timer_heap_poll` that are waiting for a callback, the innermost
first. -/
structure Timers (E : Type*) where
  heap : TimerHeap E
  polls : List Poll

/-- A poll is taken apart, since its callbacks may make any of these calls. -/
inductive TimerOp (E : Type*) where
  | schedule (entry : E) (delay : TimeVal) (tv : Timeval) (memory : Realloc E)
  | cancel (entry : E)
  | cancelIfActive (entry : E) (idVal : ℤ)
  | poll (tv : Timeval) (nextDelay : Bool)
  | pollRound

namespace Timers

variable {E : Type*} [DecidableEq E]

def step (s : Timers E) : TimerOp E → Option (Timers E)
  | .schedule entry delay tv memory =>
    (s.heap.timerHeapSchedule entry delay tv memory).map fun (ht, _) => { s with heap := ht }
  | .cancel entry => (s.heap.timerHeapCancel entry).map fun (ht, _) => { s with heap := ht }
  | .cancelIfActive entry idVal =>
    (s.heap.timerHeapCancelIfActive entry idVal).map fun (ht, _) => { s with heap := ht }
  | .poll tv nextDelay => some { s with polls := (s.heap.pollStart tv nextDelay).toList ++ s.polls }
  | .pollRound =>
    match s.polls with
    | [] => some s
    | poll :: polls =>
      (s.heap.pollRound poll).bind fun (ht, fired) =>
        match fired with
        | some _ => some ⟨ht, { poll with count := poll.count + 1 } :: polls⟩
        | none => (ht.pollEnd poll).map fun _ => ⟨ht, polls⟩

def create (size : ℕ) (mem : TimerHeap E) : Timers E := ⟨.timerHeapCreate size mem, []⟩

end Timers

end Carrier.Common
