import Carrier.Common.LinkedList
import Carrier.Lib.Bytes
import Carrier.Lib.Run

/-! The queue of friend events in `carrier/IOEX_carrier.c`. A run of `do_friend_events` is a sequence
of steps, since the callbacks it invokes may push further events. -/
namespace Carrier.Core
open Carrier.Lib Carrier.Common

inductive FriendEventType where
  | added
  | removed
  deriving DecidableEq

/-- `FriendEvent`, with what its callbacks read of the friend -/
structure FriendEvent where
  type : FriendEventType
  userid : Bytes
  connected : Bool
  deriving DecidableEq

inductive FriendCallback where
  | friendAdded (userid : Bytes)
  | friendConnection (userid : Bytes) (connected : Bool)
  | friendRemoved (userid : Bytes)
  deriving DecidableEq

/-- `do_friend_event`: the callbacks it invokes -/
def doFriendEvent (event : FriendEvent) : List FriendCallback :=
  match event.type with
  | .added => [.friendAdded event.userid]
  | .removed =>
    (if event.connected then [.friendConnection event.userid false] else []) ++
      [.friendRemoved event.userid]

/-- Where `do_friend_events` is: not running, at the head of its loop, or in `do_friend_event`. -/
inductive EventPhase where
  | idle
  | looping (it : ListIterator)
  | delivering (it : ListIterator)
  deriving DecidableEq

/-- The queue, with the events pushed and those passed to `do_friend_event` so far. -/
structure EventLoop where
  friendEvents : LinkedList FriendEvent
  phase : EventPhase
  pushed : List (ListEntry FriendEvent)
  delivered : List (ListEntry FriendEvent)
  deriving DecidableEq

inductive EventAction where
  | notify (event : FriendEvent) (alloc : Bool)
  | run
  | loop
  | callbackReturn
  deriving DecidableEq

namespace EventLoop

def init : EventLoop := ⟨listCreate, .idle, [], []⟩

/-- `notify_friend_added` and `notify_friend_removed`: an entry with a new address -/
def notifyFriend (w : EventLoop) (event : FriendEvent) : EventLoop :=
  let entry := ⟨w.pushed.length, event⟩
  { w with friendEvents := listPushTail w.friendEvents entry, pushed := w.pushed ++ [entry] }

/-- One round of the loop of `do_friend_events`, up to the event it delivers. -/
def loopStep (w : EventLoop) (it : ListIterator) : EventLoop :=
  if !listIteratorHasNext it then { w with phase := .idle }
  else
    match listIteratorNext it w.friendEvents with
    | .done => { w with phase := .idle }
    | .modified => { w with phase := .looping (listIterate w.friendEvents) }
    | .entry it e => { w with phase := .delivering it, delivered := w.delivered ++ [e] }

/-- The removal behind `do_friend_event`. -/
def removeStep (w : EventLoop) (it : ListIterator) : EventLoop :=
  let (it, lst) := listIteratorRemove it w.friendEvents
  { w with friendEvents := lst, phase := .looping it }

/-- Friends are added and removed between the runs and by callbacks. -/
def step (w : EventLoop) : EventAction → Option EventLoop
  | .notify event alloc =>
    match w.phase with
    | .looping _ => none
    | .idle | .delivering _ => some (if alloc then w.notifyFriend event else w)
  | .run =>
    match w.phase with
    | .idle => some { w with phase := .looping (listIterate w.friendEvents) }
    | .looping _ | .delivering _ => none
  | .loop =>
    match w.phase with
    | .looping it => some (w.loopStep it)
    | .idle | .delivering _ => none
  | .callbackReturn =>
    match w.phase with
    | .delivering it => some (w.removeStep it)
    | .idle | .looping _ => none

def entries (w : EventLoop) : List (ListEntry FriendEvent) := w.friendEvents.entries

def isDelivering : EventPhase → Bool
  | .delivering _ => true
  | .idle | .looping _ => false

/-- No event is pushed while one is being delivered. -/
def Quiet (w : EventLoop) : EventAction → Prop
  | .notify _ alloc => alloc → isDelivering w.phase = false
  | _ => True

instance (w : EventLoop) : ∀ a, Decidable (w.Quiet a)
  | .notify _ _ => inferInstanceAs (Decidable (_ → _))
  | .run | .loop | .callbackReturn => inferInstanceAs (Decidable True)

/-- Every event has been delivered at most once: those that are not in the queue any more, and the
one that is being delivered, which is still to be removed. -/
def Clean (w : EventLoop) : Prop :=
  match w.phase with
  | .idle | .looping _ => w.delivered.length + w.entries.length = w.pushed.length
  | .delivering it => w.delivered.length + w.entries.length = w.pushed.length + 1 ∧
      it.expectedModCount = w.friendEvents.modCount

/-- The events in the order in which they were pushed. -/
def Ordered (w : EventLoop) : Prop :=
  match w.phase with
  | .idle | .looping _ => w.delivered ++ w.entries = w.pushed
  | .delivering _ => w.delivered ++ w.entries.tail = w.pushed

/-- Where the iterator is, and that no delivery is ever taken back. -/
def Placed (w : EventLoop) : Prop :=
  match w.phase with
  | .idle => w.pushed.length ≤ w.delivered.length + w.entries.length
  | .looping it => w.pushed.length ≤ w.delivered.length + w.entries.length ∧
      (it.AtHead w.friendEvents ∨ it.expectedModCount ≠ w.friendEvents.modCount)
  | .delivering it => w.pushed.length + 1 ≤ w.delivered.length + w.entries.length ∧
      it.AtFirst w.friendEvents ∧ it.expectedModCount ≤ w.friendEvents.modCount

/-- The invariant. -/
structure Tracked (w : EventLoop) : Prop where
  placed : w.Placed
  ordered : w.Clean → w.Ordered

/-- What a step has to do: keep the invariant, and keep every event delivered at most once exactly
if it meets the condition. -/
def Keeps (w w' : EventLoop) (C : Prop) : Prop := w'.Tracked ∧ (w'.Clean ↔ w.Clean ∧ C)

theorem keeps_notifyFriend {w : EventLoop} (h : w.Tracked) (event : FriendEvent)
    (hloop : ∀ it, w.phase ≠ .looping it) :
    Keeps w (w.notifyFriend event) (isDelivering w.phase = false) := by
  obtain ⟨lst, phase, pushed, delivered⟩ := w
  have hlen : (listPushTail lst ⟨pushed.length, event⟩).entries.length = lst.entries.length + 1 :=
    List.length_append
  obtain ⟨hplaced, hordered⟩ := h
  cases phase with
  | looping it => exact absurd rfl (hloop it)
  | idle =>
    have hclean : (EventLoop.notifyFriend ⟨lst, .idle, pushed, delivered⟩ event).Clean ↔
        EventLoop.Clean ⟨lst, .idle, pushed, delivered⟩ := by
      simp only [notifyFriend, Clean, entries, hlen, List.length_append, List.length_singleton]
      omega
    refine ⟨⟨?_, fun h => ?_⟩, by simpa [isDelivering] using hclean⟩
    · simp only [notifyFriend, Placed, entries, hlen, List.length_append,
        List.length_singleton] at hplaced ⊢
      omega
    · have := hordered (hclean.mp h)
      simp only [notifyFriend, Ordered, entries, listPushTail] at this ⊢
      rw [← List.append_assoc, this]
  | delivering it =>
    obtain ⟨hle, hfirst, hmod⟩ := hplaced
    have hnot : ¬(EventLoop.notifyFriend ⟨lst, .delivering it, pushed, delivered⟩ event).Clean := by
      intro hclean
      exact absurd hclean.2 (Int.lt_add_one_of_le hmod).ne
    refine ⟨⟨⟨?_, hfirst.pushTail _ hmod, hmod.trans (Int.lt_add_one_of_le le_rfl).le⟩,
      fun h => absurd h hnot⟩, iff_of_false hnot (by simp [isDelivering])⟩
    simp only [notifyFriend, entries, hlen, List.length_append, List.length_singleton] at hle ⊢
    omega

theorem keeps_loopStep {w : EventLoop} {it : ListIterator} (h : w.Tracked)
    (hphase : w.phase = .looping it) : Keeps w (w.loopStep it) True := by
  obtain ⟨lst, phase, pushed, delivered⟩ := w
  cases hphase
  obtain ⟨⟨hle, hplaced⟩, hordered⟩ := h
  dsimp only at hplaced
  have hidle : Keeps ⟨lst, .looping it, pushed, delivered⟩ ⟨lst, .idle, pushed, delivered⟩ True :=
    ⟨⟨hle, hordered⟩, (and_iff_left trivial).symm⟩
  unfold loopStep
  split_ifs
  · exact hidle
  · obtain hhead | hmod := hplaced
    · obtain ⟨-, hdone⟩ | ⟨e, rest, it', hentries, hnext, hfirst, hmod⟩ := hhead.next
      · simp only [hdone]
        exact hidle
      · simp only [hnext]
        have hclean : EventLoop.Clean ⟨lst, .delivering it', pushed, delivered ++ [e]⟩ ↔
            EventLoop.Clean ⟨lst, .looping it, pushed, delivered⟩ := by
          simp only [Clean, entries, hmod, and_true, List.length_append, List.length_singleton]
          omega
        refine ⟨⟨⟨?_, hfirst, hmod.le⟩, fun h => ?_⟩, by rw [hclean, and_true]⟩
        · simp only [entries, List.length_append, List.length_singleton] at hle ⊢
          omega
        · have := hordered (hclean.mp h)
          simp only [Ordered, entries, hentries, List.tail_cons] at this ⊢
          rw [List.append_assoc]
          exact this
    · have hnext : listIteratorNext it lst = .modified := if_pos hmod
      simp only [hnext]
      exact ⟨⟨⟨hle, .inl (listIterate_atHead lst)⟩, hordered⟩, (and_iff_left trivial).symm⟩

theorem keeps_removeStep {w : EventLoop} {it : ListIterator} (h : w.Tracked)
    (hphase : w.phase = .delivering it) : Keeps w (w.removeStep it) True := by
  obtain ⟨lst, phase, pushed, delivered⟩ := w
  cases hphase
  obtain ⟨⟨hle, hfirst, -⟩, hordered⟩ := h
  dsimp only at hfirst
  unfold removeStep
  obtain ⟨hmod, hhead, htail⟩ | ⟨hmod, heq⟩ := hfirst.remove
  · obtain ⟨e, rest, hentries, -⟩ := hfirst
    generalize listIteratorRemove it lst = result at hhead htail
    obtain ⟨it', lst'⟩ := result
    dsimp only at hhead htail ⊢
    have hlen : lst.entries.length = lst'.entries.length + 1 := by
      rw [htail, hentries]
      rfl
    have hclean : EventLoop.Clean ⟨lst', .looping it', pushed, delivered⟩ ↔
        EventLoop.Clean ⟨lst, .delivering it, pushed, delivered⟩ := by
      simp only [Clean, entries, hmod, and_true, hlen]
      omega
    refine ⟨⟨⟨?_, .inl hhead⟩, fun h => ?_⟩, by rw [hclean, and_true]⟩
    · simp only [entries, hlen] at hle ⊢
      omega
    · have := hordered (hclean.mp h)
      simp only [Ordered, entries, htail] at this ⊢
      exact this
  · rw [heq]
    simp only [entries] at hle
    have hnot : ¬EventLoop.Clean ⟨lst, .looping it, pushed, delivered⟩ := by
      intro hclean
      simp only [Clean, entries] at hclean
      omega
    have hnot' : ¬EventLoop.Clean ⟨lst, .delivering it, pushed, delivered⟩ := fun h => hmod h.2
    refine ⟨⟨⟨?_, .inr hmod⟩, fun h => absurd h hnot⟩, iff_of_false hnot (fun h => hnot' h.1)⟩
    simp only [entries]
    omega

theorem keeps_step {w w' : EventLoop} {a : EventAction} (h : w.Tracked) (hstep : w.step a = some w') :
    Keeps w w' (w.Quiet a) := by
  cases a with
  | notify event alloc =>
    have hloop : ∀ it, w.phase ≠ .looping it := by
      intro it hphase
      simp [step, hphase] at hstep
    have hw' : (if alloc then w.notifyFriend event else w) = w' := by
      cases hphase : w.phase with
      | looping it => exact absurd hphase (hloop it)
      | idle => simpa [step, hphase] using hstep
      | delivering it => simpa [step, hphase] using hstep
    cases alloc with
    | false =>
      obtain rfl : w = w' := hw'
      exact ⟨h, by simp [Quiet]⟩
    | true =>
      obtain rfl : w.notifyFriend event = w' := hw'
      have hkeeps := keeps_notifyFriend h event hloop
      exact ⟨hkeeps.1, by rw [hkeeps.2]; simp [Quiet]⟩
  | run =>
    obtain ⟨lst, phase, pushed, delivered⟩ := w
    cases phase with
    | looping it => cases hstep
    | delivering it => cases hstep
    | idle =>
      cases hstep
      exact ⟨⟨⟨h.placed, .inl (listIterate_atHead lst)⟩, h.ordered⟩, (and_iff_left trivial).symm⟩
  | loop =>
    cases hphase : w.phase with
    | idle => simp [step, hphase] at hstep
    | delivering it => simp [step, hphase] at hstep
    | looping it =>
      obtain rfl : w.loopStep it = w' := by simpa [step, hphase] using hstep
      exact keeps_loopStep h hphase
  | callbackReturn =>
    cases hphase : w.phase with
    | idle => simp [step, hphase] at hstep
    | looping it => simp [step, hphase] at hstep
    | delivering it =>
      obtain rfl : w.removeStep it = w' := by simpa [step, hphase] using hstep
      exact keeps_removeStep h hphase

def waiting (w : EventLoop) : List FriendEvent :=
  match w.phase with
  | .idle | .looping _ => w.entries.map ListEntry.data
  | .delivering _ => w.entries.tail.map ListEntry.data

/-- A round of `do_friend_events`, and nothing that the application calls. -/
def Own : EventAction → Prop
  | .notify _ _ => False
  | .run | .loop | .callbackReturn => True

theorem Own.quiet {a : EventAction} (h : Own a) (w : EventLoop) : w.Quiet a := by
  cases a with
  | notify event alloc => cases h
  | run => trivial
  | loop => trivial
  | callbackReturn => trivial

theorem waiting_notifyFriend {w : EventLoop} (event : FriendEvent)
    (hphase : isDelivering w.phase = false) :
    (w.notifyFriend event).waiting = w.waiting ++ [event] := by
  obtain ⟨lst, phase, pushed, delivered⟩ := w
  cases phase with
  | idle => exact List.map_append
  | looping it => exact List.map_append
  | delivering it => cases hphase

/-- What has been delivered and what is waiting is what has been pushed. -/
theorem delivered_waiting {w : EventLoop} (h : w.Tracked) (hclean : w.Clean) :
    w.delivered.map ListEntry.data ++ w.waiting = w.pushed.map ListEntry.data := by
  have hordered := h.ordered hclean
  obtain ⟨lst, phase, pushed, delivered⟩ := w
  cases phase with
  | idle => exact List.map_append.symm.trans (congrArg _ hordered)
  | looping it => exact List.map_append.symm.trans (congrArg _ hordered)
  | delivering it => exact List.map_append.symm.trans (congrArg _ hordered)

/-- A round pushes nothing, and what it delivers is in the queue. -/
theorem step_own {w w' : EventLoop} {a : EventAction} (h : w.Tracked) (hown : Own a)
    (hstep : w.step a = some w') : w'.pushed = w.pushed ∧ w'.entries ⊆ w.entries ∧
      ∃ new, w'.delivered = w.delivered ++ new ∧ new ⊆ w.entries := by
  obtain ⟨lst, phase, pushed, delivered⟩ := w
  have hsame (phase' : EventPhase) : ∃ new, delivered = delivered ++ new ∧
      new ⊆ EventLoop.entries ⟨lst, phase', pushed, delivered⟩ :=
    ⟨[], (List.append_nil _).symm, List.nil_subset _⟩
  cases a with
  | notify event alloc => cases hown
  | run =>
    cases phase with
    | looping it => cases hstep
    | delivering it => cases hstep
    | idle =>
      cases hstep
      exact ⟨rfl, List.Subset.refl _, hsame .idle⟩
  | loop =>
    cases phase with
    | idle => cases hstep
    | delivering it => cases hstep
    | looping it =>
      cases hstep
      obtain ⟨-, hplaced⟩ := h.placed
      dsimp only at hplaced
      unfold loopStep
      split_ifs
      · exact ⟨rfl, List.Subset.refl _, hsame .idle⟩
      · obtain hhead | hmod := hplaced
        · obtain ⟨-, hdone⟩ | ⟨e, rest, it', hentries, hnext, -, -⟩ := hhead.next
          · simp only [hdone]
            exact ⟨trivial, List.Subset.refl _, hsame .idle⟩
          · simp only [hnext]
            refine ⟨trivial, List.Subset.refl _, [e], rfl, ?_⟩
            rw [entries, hentries]
            simp
        · have hnext : listIteratorNext it lst = .modified := if_pos hmod
          simp only [hnext]
          exact ⟨trivial, List.Subset.refl _, hsame .idle⟩
  | callbackReturn =>
    cases phase with
    | idle => cases hstep
    | looping it => cases hstep
    | delivering it =>
      cases hstep
      obtain ⟨-, hfirst, -⟩ := h.placed
      refine ⟨rfl, ?_, hsame .idle⟩
      change (listIteratorRemove it lst).2.entries ⊆ lst.entries
      obtain ⟨-, -, htail⟩ | ⟨-, heq⟩ := hfirst.remove
      · rw [htail]
        exact List.tail_subset _
      · rw [heq]
        exact List.Subset.refl _

/-- A round takes what it delivers from what is waiting. -/
theorem waiting_step {w w' : EventLoop} {a : EventAction} (h : w.Tracked) (hclean : w.Clean)
    (hown : Own a) (hstep : w.step a = some w') :
    w.waiting = (w'.delivered.drop w.delivered.length).map ListEntry.data ++ w'.waiting := by
  obtain ⟨hpushed, -, new, hdelivered, -⟩ := step_own h hown hstep
  obtain ⟨htracked', hclean'⟩ := keeps_step h hstep
  have hall := delivered_waiting htracked' (hclean'.mpr ⟨hclean, hown.quiet w⟩)
  rw [hpushed, ← delivered_waiting h hclean, hdelivered, List.map_append, List.append_assoc] at hall
  rw [hdelivered, List.drop_left]
  exact (List.append_cancel_left hall).symm

theorem init_tracked : init.Tracked ∧ init.Clean := ⟨⟨le_rfl, fun _ => rfl⟩, rfl⟩

theorem Tracked.clean_iff {w : EventLoop} (h : w.Tracked) (hempty : w.entries = []) :
    w.Clean ↔ w.delivered = w.pushed := by
  obtain ⟨lst, phase, pushed, delivered⟩ := w
  obtain ⟨hplaced, hordered⟩ := h
  have hsame : delivered.length + lst.entries.length = pushed.length ∧
      (delivered.length + lst.entries.length = pushed.length → delivered ++ lst.entries = pushed) ↔
      delivered = pushed := by
    change lst.entries = [] at hempty
    rw [hempty, List.append_nil]
    exact ⟨fun h => h.2 h.1, fun h => ⟨congrArg List.length h, fun _ => h⟩⟩
  cases phase with
  | idle => exact (and_iff_left_of_imp fun _ => hordered).symm.trans hsame
  | looping it => exact (and_iff_left_of_imp fun _ => hordered).symm.trans hsame
  | delivering it =>
    obtain ⟨-, ⟨e, rest, hentries, -⟩, -⟩ := hplaced
    cases hempty.symm.trans hentries

theorem exec_clean_iff {actions : List EventAction} {w : EventLoop}
    (h : exec step init actions = some w) :
    w.Tracked ∧ (w.Clean ↔ Along step Quiet init actions) := by
  have hstep : ∀ (w : EventLoop) (a : EventAction) (w' : EventLoop), w.Tracked →
      w.step a = some w' → w'.Tracked ∧ (w'.Clean ↔ w.Clean ∧ w.Quiet a) :=
    fun w a w' hw hw' => keeps_step hw hw'
  refine ⟨exec_invariant (fun w a w' hw hw' => (keeps_step hw hw').1) init_tracked.1 h, ?_⟩
  rw [exec_iff_along hstep init_tracked.1 h, and_iff_right init_tracked.2]

/-- When the queue is empty, every event has been delivered once and in order exactly if none was
pushed while another was being delivered. -/
theorem exec_delivered_iff {actions : List EventAction} {w : EventLoop}
    (h : exec step init actions = some w) (hempty : w.entries = []) :
    w.delivered = w.pushed ↔ Along step Quiet init actions := by
  obtain ⟨htracked, hclean⟩ := exec_clean_iff h
  rw [← htracked.clean_iff hempty, hclean]

def calls (w : EventLoop) : List FriendCallback := w.delivered.flatMap (doFriendEvent ·.data)

/-- At any time of such a run the callbacks so far are those of the events, in their order. -/
theorem calls_of_quiet {actions : List EventAction} {w : EventLoop}
    (h : exec step init actions = some w) (hquiet : Along step Quiet init actions) :
    w.calls <+: w.pushed.flatMap (doFriendEvent ·.data) := by
  obtain ⟨htracked, hclean⟩ := exec_clean_iff h
  have hordered := htracked.ordered (hclean.mpr hquiet)
  have hpart : w.delivered <+: w.pushed := by
    unfold Ordered at hordered
    split at hordered <;> exact ⟨_, hordered⟩
  obtain ⟨rest, hrest⟩ := hpart
  rw [calls, ← hrest, List.flatMap_append]
  exact List.prefix_append _ _

def friendEvent (userid : Bytes) : FriendEvent := ⟨.added, userid, false⟩

/-- Two friends that are added before the loop runs. -/
def addedTwo : List EventAction :=
  [.notify (friendEvent [49]) true, .notify (friendEvent [50]) true, .run, .loop, .callbackReturn,
    .loop, .callbackReturn, .loop]

theorem addedTwo_delivered : ∃ w, exec step init addedTwo = some w ∧ w.entries = [] ∧
    w.delivered = w.pushed := by
  obtain ⟨w, hw⟩ := Option.isSome_iff_exists.mp (show (exec step init addedTwo).isSome by rfl)
  have hempty : w.entries = [] := by
    cases hw
    rfl
  exact ⟨w, hw, hempty, (exec_delivered_iff hw hempty).mpr (by decide)⟩

/-- A callback that adds another friend: its own event stays in the queue and is delivered again. -/
theorem added_by_callback_delivered_twice : ∃ w, exec step init
    [.notify (friendEvent [49]) true, .run, .loop, .notify (friendEvent [50]) true, .callbackReturn,
      .loop, .run, .loop, .callbackReturn, .loop, .callbackReturn, .loop] = some w ∧
      w.entries = [] ∧ w.pushed.map (·.data.userid) = [[49], [50]] ∧
      w.delivered.map (·.data.userid) = [[49], [49], [50]] ∧ w.delivered ≠ w.pushed :=
  ⟨_, rfl, rfl, rfl, rfl, by decide⟩

end EventLoop

end Carrier.Core
