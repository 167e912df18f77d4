import Carrier.Common.Error
import Carrier.Common.LinkedList

/-! The enumerations of `carrier/IOEX_carrier.c`: `IOEX_get_friends`, `notify_friends` and
`IOEX_get_files`. Their callbacks may change what is enumerated. -/
namespace Carrier.Core
open Carrier.Common

/-- The friends, in the ring of their table, and the trackers of file transfers. -/
structure Records (F T : Type*) where
  friends : Container F
  senders : Container T
  receivers : Container T

def Records.Follows {F T : Type*} (w w' : Records F T) : Prop :=
  w.friends.Follows w'.friends ∧ w.senders.Follows w'.senders ∧ w.receivers.Follows w'.receivers

/-- What an enumeration does. A call is made with a record or with `NULL`; `wild` is the use of a
pointer that no step of the iterator has set. -/
inductive EnumEvent (R : Type*) where
  | obtained (e : ListEntry R)
  | released (e : ListEntry R)
  | called (arg : Option R)
  | wild
  deriving DecidableEq

/-- How a loop over a container ends: at its end, by the answer of the callback, or with a wild
pointer. -/
inductive Exit where
  | ended
  | stopped
  | wild
  deriving DecidableEq

/-- A loop that has ended: the calls it made, what they left, and what it did. -/
structure Pass (W R : Type*) where
  exit : Exit
  calls : ℕ
  world : W
  log : List (EnumEvent R)

def Pass.after {W R : Type*} (log : List (EnumEvent R)) (p : Pass W R) : Pass W R :=
  { p with log := log ++ p.log }

/-- The body of a loop on a record: what it leaves, whether to go on, and what it did. -/
abbrev EnumBody (W R : Type*) := ℕ → W → ListEntry R → W × Bool × List (EnumEvent R)

section Loop

variable {W R : Type*} (container : W → Container R) (body : EnumBody W R)

/-- The loop of an enumeration. Where `next` does not return 1, some go `again` to the head of the
loop; the others end at 0 and take -1 for 1, with the pointer as it is. -/
def enumLoop (again : Bool) : ℕ → ListIterator → ℕ → W → Option (Pass W R)
  | 0, _, _, _ => none
  | fuel + 1, it, i, w =>
    if !listIteratorHasNext it then some ⟨.ended, i, w, []⟩
    else
      match listIteratorNext it (container w).toLinkedList with
      | .entry it e =>
        let (w, goOn, log) := body i w e
        if goOn then (enumLoop again fuel it (i + 1) w).map (Pass.after log)
        else some ⟨.stopped, i + 1, w, log⟩
      | .done => if again then enumLoop again fuel it i w else some ⟨.ended, i, w, []⟩
      | .modified => if again then enumLoop again fuel it i w else some ⟨.wild, i, w, [.wild]⟩

/-- The body on one record after the other. -/
def enumPass : ℕ → W → List (ListEntry R) → Pass W R
  | i, w, [] => ⟨.ended, i, w, []⟩
  | i, w, e :: rest =>
    let (w, goOn, log) := body i w e
    if goOn then (enumPass (i + 1) w rest).after log else ⟨.stopped, i + 1, w, log⟩

/-- Until it asks to stop, only the call for the last record changes the container. -/
def Undisturbed : ℕ → W → List (ListEntry R) → Prop
  | _, _, [] => True
  | i, w, e :: rest =>
    let (w', goOn, _) := body i w e
    goOn = true → rest ≠ [] → container w' = container w ∧ Undisturbed (i + 1) w' rest

end Loop

/-- A callback over friends. It may depend on the calls before. -/
structure FriendsCallback (F T : Type*) where
  call : ℕ → Records F T → Option F → Records F T × Bool
  follows : ∀ i (w : Records F T) arg, w.Follows (call i w arg).1

/-- A callback over file transfers, of which 0 are sent and 1 received. -/
structure FilesCallback (F T : Type*) where
  call : ℕ → Records F T → ℕ → Option T → Records F T × Bool
  follows : ∀ i (w : Records F T) direction arg, w.Follows (call i w direction arg).1

/-- What an enumeration returns, leaves and has done. -/
structure Enumerated (F T R : Type*) where
  result : Except ℤ Unit
  world : Records F T
  log : List (EnumEvent R)

variable {F T : Type*}

/-- The body of `IOEX_get_friends`, which gives the record up before the call. -/
def getFriendsBody (callback : FriendsCallback F T) : EnumBody (Records F T) F := fun i w e =>
  let (w, goOn) := callback.call i w (some e.data)
  (w, goOn, [.obtained e, .released e, .called (some e.data)])

def getFriends (callback : Option (FriendsCallback F T)) (w : Records F T) (fuel : ℕ) :
    Option (Enumerated F T F) :=
  match callback with
  | none => some ⟨.error (intError .invalidArgs), w, []⟩
  | some callback =>
    (enumLoop Records.friends (getFriendsBody callback) true fuel
      (listIterate w.friends.toLinkedList) 0 w).map fun p =>
      match p.exit with
      | .ended => ⟨.ok (), (callback.call p.calls p.world none).1, p.log ++ [.called none]⟩
      | .stopped | .wild => ⟨.ok (), p.world, p.log⟩

/-- The body of `notify_friends`, which gives the record up after the call. -/
def notifyFriendsBody (friendList : Option (FriendsCallback F T)) : EnumBody (Records F T) F :=
  fun i w e =>
    match friendList with
    | none => (w, true, [.obtained e, .released e])
    | some friendList =>
      ((friendList.call i w (some e.data)).1, true,
        [.obtained e, .called (some e.data), .released e])

/-- `notify_friends`; its callback returns nothing. -/
def notifyFriends (friendList : Option (FriendsCallback F T)) (w : Records F T) (fuel : ℕ) :
    Option (Enumerated F T F) :=
  (enumLoop Records.friends (notifyFriendsBody friendList) true fuel
    (listIterate w.friends.toLinkedList) 0 w).map fun p =>
    match friendList with
    | none => ⟨.ok (), p.world, p.log⟩
    | some friendList =>
      ⟨.ok (), (friendList.call p.calls p.world none).1, p.log ++ [.called none]⟩

/-- The body of the loops of `IOEX_get_files`. -/
def getFilesBody (callback : FilesCallback F T) (direction : ℕ) : EnumBody (Records F T) T :=
  fun i w e =>
    let (w, goOn) := callback.call i w direction (some e.data)
    (w, goOn, [.obtained e, .released e, .called (some e.data)])

def getFiles (callback : Option (FilesCallback F T)) (w : Records F T) (fuel : ℕ) :
    Option (Enumerated F T T) :=
  match callback with
  | none => some ⟨.error (intError .invalidArgs), w, []⟩
  | some callback =>
    (enumLoop Records.senders (getFilesBody callback 0) false fuel
      (listIterate w.senders.toLinkedList) 0 w).bind fun p =>
      match p.exit with
      | .stopped | .wild => some ⟨.ok (), p.world, p.log⟩
      | .ended =>
        (enumLoop Records.receivers (getFilesBody callback 1) false fuel
          (listIterate p.world.receivers.toLinkedList) p.calls p.world).map fun q =>
          match q.exit with
          | .stopped | .wild => ⟨.ok (), q.world, p.log ++ q.log⟩
          | .ended =>
            ⟨.ok (), (callback.call q.calls q.world 0 none).1, p.log ++ q.log ++ [.called none]⟩

section Log

variable {R : Type*} [DecidableEq R]

/-- The callback is only called with records that were obtained, and each reference is released
once, after it was obtained. -/
structure CleanLog (log : List (EnumEvent R)) : Prop where
  tame : .wild ∉ log
  called : ∀ before r after, log = before ++ .called (some r) :: after →
    ∃ e, .obtained e ∈ before ∧ e.data = r
  once : ∀ e, log.count (.released e) = log.count (.obtained e)
  inTime : ∀ before, before <+: log → ∀ e, before.count (.released e) ≤ before.count (.obtained e)

/-- An enumeration ends, and has used its records well. -/
def Finishes {F T : Type*} (run : ℕ → Option (Enumerated F T R)) : Prop :=
  ∃ fuel out, run fuel = some out ∧ CleanLog out.log

theorem CleanLog.nil : CleanLog ([] : List (EnumEvent R)) := by
  constructor
  case tame => exact List.not_mem_nil
  case called => intro before r after h; cases before <;> cases h
  case once => exact fun e => rfl
  case inTime =>
    intro before h e
    rw [List.prefix_nil.mp h]
    exact le_rfl

/-- An event is in the one log or in the other. -/
theorem split_append {α : Type*} {l r before after : List α} {x : α}
    (h : l ++ r = before ++ x :: after) :
    (∃ after', l = before ++ x :: after') ∨ ∃ before', before = l ++ before' ∧
      r = before' ++ x :: after := by
  rcases List.append_eq_append_iff.mp h with ⟨mid, rfl, hr⟩ | ⟨mid, rfl, hx⟩
  · exact .inr ⟨mid, rfl, hr⟩
  · cases mid with
    | nil => exact .inr ⟨[], by simp, hx.symm⟩
    | cons y mid =>
      cases hx
      exact .inl ⟨mid, rfl⟩

theorem CleanLog.append {l r : List (EnumEvent R)} (hl : CleanLog l) (hr' : CleanLog r) :
    CleanLog (l ++ r) := by
  constructor
  case tame =>
    rw [List.mem_append, not_or]
    exact ⟨hl.tame, hr'.tame⟩
  case called =>
    intro before rec after h
    rcases split_append h with ⟨after', hin⟩ | ⟨before', rfl, hin⟩
    · exact hl.called before rec after' hin
    · obtain ⟨e, he, hdata⟩ := hr'.called before' rec after hin
      exact ⟨e, List.mem_append_right _ he, hdata⟩
  case once =>
    intro e
    rw [List.count_append, List.count_append, hl.once, hr'.once]
  case inTime =>
    intro before h e
    obtain ⟨after, heq⟩ := h
    rcases List.append_eq_append_iff.mp heq with ⟨mid, hmid, -⟩ | ⟨mid, rfl, hr⟩
    · exact hl.inTime before ⟨mid, hmid.symm⟩ e
    · have hle := hr'.inTime mid ⟨after, hr.symm⟩ e
      have hsame := hl.once e
      rw [List.count_append, List.count_append]
      omega

theorem CleanLog.called_none : CleanLog [(.called none : EnumEvent R)] := by
  constructor
  case tame => simp
  case called =>
    intro before r after h
    have hmem : EnumEvent.called (some r) ∈ [(.called none : EnumEvent R)] := by
      rw [h]
      exact List.mem_append_right _ List.mem_cons_self
    simp at hmem
  case once => simp
  case inTime =>
    intro before h e
    rcases List.prefix_cons_iff.mp h with rfl | ⟨l, rfl, hl⟩
    · exact le_rfl
    · rw [List.prefix_nil.mp hl]
      simp

/-- A record that is obtained and released, with a call for it before or after the release or not at
all. -/
theorem CleanLog.record {e : ListEntry R} {log : List (EnumEvent R)}
    (h : log = [.released e] ∨ log = [.released e, .called (some e.data)] ∨
      log = [.called (some e.data), .released e]) : CleanLog (.obtained e :: log) := by
  have hcalled : ∀ r, .called (some r) ∈ log → r = e.data := by
    intro r hr
    rcases h with rfl | rfl | rfl
    · simp at hr
    · simpa using hr
    · simpa using hr
  have hobtained : ∀ x, .obtained x ∉ log := by
    intro x hx
    rcases h with rfl | rfl | rfl <;> simp at hx
  have hreleased : ∀ x, log.count (.released x) = if e = x then 1 else 0 := by
    intro x
    rcases h with rfl | rfl | rfl <;> simp [List.count_cons]
  have hcount : ∀ x, (EnumEvent.obtained e :: log).count (.obtained x) = if e = x then 1 else 0 := by
    intro x
    rw [List.count_cons, List.count_eq_zero.mpr (hobtained x), Nat.zero_add]
    simp
  constructor
  case tame => rcases h with rfl | rfl | rfl <;> simp
  case called =>
    intro before r after hlog
    cases before with
    | nil => cases hlog
    | cons x before =>
      obtain ⟨rfl, rfl⟩ := List.cons.inj hlog
      exact ⟨e, List.mem_cons_self, (hcalled r (List.mem_append_right _ List.mem_cons_self)).symm⟩
  case once =>
    intro x
    rw [hcount, ← hreleased]
    exact List.count_cons_of_ne (by simp)
  case inTime =>
    intro before hprefix x
    cases before with
    | nil => exact le_rfl
    | cons y before =>
      obtain ⟨rfl, hbefore⟩ := List.cons_prefix_cons.mp hprefix
      calc (EnumEvent.obtained e :: before).count (.released x)
          = before.count (.released x) := List.count_cons_of_ne (by simp)
        _ ≤ log.count (.released x) := hbefore.sublist.count_le _
        _ = [EnumEvent.obtained e].count (.obtained x) := by rw [hreleased]; simp [List.count_cons]
        _ ≤ _ := List.Sublist.count_le _ (List.cons_sublist_cons.mpr (List.nil_sublist _))

end Log

section Loop

variable {W R : Type*} {container : W → Container R} {body : EnumBody W R} {again : Bool}
  {it : ListIterator} {i : ℕ} {w : W} {pre rest : List (ListEntry R)}

/-- A round of the loop with an entry in front of the iterator. -/
theorem enumLoop_entry {e : ListEntry R} (hat : it.At (container w).toLinkedList pre (e :: rest)) :
    ∃ it', it'.At (container w).toLinkedList (pre ++ [e]) rest ∧
      ∀ fuel, enumLoop container body again (fuel + 1) it i w =
        if (body i w e).2.1 then
          (enumLoop container body again fuel it' (i + 1) (body i w e).1).map
            (Pass.after (body i w e).2.2)
        else some ⟨.stopped, i + 1, (body i w e).1, (body i w e).2.2⟩ := by
  obtain ⟨it', hcall, hat', -⟩ := hat.next_cons (container w).nodup
  refine ⟨it', hat', fun fuel => ?_⟩
  rw [enumLoop, listIteratorHasNext_eq hat.next, hcall]
  rfl

/-- Undisturbed, the loop is the body on one record after the other. -/
theorem enumLoop_undisturbed (again : Bool) (hnext : it.next = rest.head?.map ListEntry.addr)
    (hat : rest ≠ [] → it.At (container w).toLinkedList pre rest)
    (h : Undisturbed container body i w rest) :
    enumLoop container body again (rest.length + 1) it i w = some (enumPass body i w rest) := by
  induction rest generalizing it i w pre with
  | nil =>
    rw [List.length_nil, enumLoop, listIteratorHasNext_eq hnext]
    rfl
  | cons e rest ih =>
    obtain ⟨it', hat', hround⟩ := enumLoop_entry (hat (List.cons_ne_nil e rest))
    rw [List.length_cons, hround, enumPass]
    rw [Undisturbed] at h
    dsimp only at h ⊢
    cases hgo : (body i w e).2.1 with
    | false => rfl
    | true =>
      have hrest : Undisturbed container body (i + 1) (body i w e).1 rest := by
        by_cases hnil : rest = []
        · rw [hnil]
          exact trivial
        · exact (h hgo hnil).2
      have hthere : rest ≠ [] →
          it'.At (container (body i w e).1).toLinkedList (pre ++ [e]) rest := by
        intro hne
        rw [(h hgo hne).1]
        exact hat'
      rw [if_pos rfl, if_pos rfl, ih hat'.next hthere hrest, Option.map_some]

/-- With entries in front of it, a loop over a modified container goes round for ever, or takes a
wild pointer. -/
theorem enumLoop_modified (hnext : it.next ≠ none)
    (hmod : it.expectedModCount ≠ (container w).modCount) :
    (again = true → ∀ fuel, enumLoop container body again fuel it i w = none) ∧
      (again = false → ∀ fuel p, enumLoop container body again fuel it i w = some p →
        p.exit = .wild ∧ .wild ∈ p.log) := by
  have hhas : listIteratorHasNext it = true := Option.isSome_iff_ne_none.mpr hnext
  constructor
  · rintro rfl fuel
    induction fuel with
    | zero => rfl
    | succ fuel ih =>
      rw [enumLoop, hhas, listIteratorNext_modified hmod]
      exact ih
  · rintro rfl fuel p hrun
    cases fuel with
    | zero => cases hrun
    | succ fuel =>
      rw [enumLoop, hhas, listIteratorNext_modified hmod] at hrun
      cases hrun
      exact ⟨rfl, List.mem_singleton_self _⟩

/-- A loop that is disturbed ends so. -/
theorem enumLoop_disturbed (again : Bool)
    (hfollows : ∀ i w e, (container w).Follows (container (body i w e).1))
    (hat : it.At (container w).toLinkedList pre rest)
    (h : ¬Undisturbed container body i w rest) :
    (again = true → ∀ fuel, enumLoop container body again fuel it i w = none) ∧
      (again = false → ∀ fuel p, enumLoop container body again fuel it i w = some p →
        p.exit = .wild ∧ .wild ∈ p.log) := by
  induction rest generalizing it i w pre with
  | nil => exact absurd trivial h
  | cons e rest ih =>
    obtain ⟨it', hat', hround⟩ := enumLoop_entry hat
    rw [Undisturbed] at h
    dsimp only at h
    push Not at h
    obtain ⟨hgo, hne, hlater⟩ := h
    rw [hgo] at hround
    have hsome : it'.next ≠ none := by
      rw [hat'.next]
      cases rest with
      | nil => exact absurd rfl hne
      | cons x rest => exact Option.some_ne_none _
    have htail : (again = true →
          ∀ fuel, enumLoop container body again fuel it' (i + 1) (body i w e).1 = none) ∧
        (again = false → ∀ fuel p,
          enumLoop container body again fuel it' (i + 1) (body i w e).1 = some p →
          p.exit = .wild ∧ .wild ∈ p.log) := by
      rcases hfollows i w e with hsame | hlt
      · have hthere : it'.At (container (body i w e).1).toLinkedList (pre ++ [e]) rest := by
          rw [hsame]
          exact hat'
        exact ih hthere (hlater hsame)
      · refine enumLoop_modified hsome ?_
        rw [hat'.sync]
        exact hlt.ne
    constructor
    · intro hagain fuel
      cases fuel with
      | zero => rfl
      | succ fuel =>
        rw [hround fuel, htail.1 hagain fuel]
        rfl
    · intro hagain fuel p hrun
      cases fuel with
      | zero => cases hrun
      | succ fuel =>
        rw [hround fuel] at hrun
        obtain ⟨q, hq, rfl⟩ := Option.map_eq_some_iff.mp hrun
        obtain ⟨hexit, hwild⟩ := htail.2 hagain fuel q hq
        exact ⟨hexit, List.mem_append_right _ hwild⟩

theorem enumLoop_mono {fuel : ℕ} {p : Pass W R}
    (h : enumLoop container body again fuel it i w = some p) (more : ℕ) :
    enumLoop container body again (fuel + more) it i w = some p := by
  induction fuel generalizing it i w p with
  | zero => cases h
  | succ fuel ih =>
    rw [Nat.add_right_comm]
    rw [enumLoop] at h ⊢
    by_cases hhas : (!listIteratorHasNext it) = true
    · rw [if_pos hhas] at h ⊢
      exact h
    · rw [if_neg hhas] at h ⊢
      have hround (p' : Option (Pass W R))
          (h : (if again then enumLoop container body again fuel it i w else p') = some p) :
          (if again then enumLoop container body again (fuel + more) it i w else p') = some p := by
        by_cases hagain : again = true
        · rw [if_pos hagain] at h ⊢
          exact ih h
        · rwa [if_neg hagain] at h ⊢
      cases hcall : listIteratorNext it (container w).toLinkedList with
      | entry it' e =>
        rw [hcall] at h
        dsimp only at h ⊢
        by_cases hgo : (body i w e).2.1 = true
        · rw [if_pos hgo] at h ⊢
          obtain ⟨q, hq, hp⟩ := Option.map_eq_some_iff.mp h
          rw [ih hq, Option.map_some, hp]
        · rwa [if_neg hgo] at h ⊢
      | done =>
        rw [hcall] at h
        exact hround _ h
      | modified =>
        rw [hcall] at h
        exact hround _ h

theorem enumLoop_unique {fuel fuel' : ℕ} {p p' : Pass W R}
    (h : enumLoop container body again fuel it i w = some p)
    (h' : enumLoop container body again fuel' it i w = some p') : p = p' := by
  have hsum := enumLoop_mono h fuel'
  rw [Nat.add_comm, enumLoop_mono h' fuel] at hsum
  exact (Option.some.inj hsum).symm

variable [DecidableEq R]

theorem enumPass_clean (hbody : ∀ i w e, CleanLog (body i w e).2.2) (i : ℕ) (w : W)
    (rest : List (ListEntry R)) :
    CleanLog (enumPass body i w rest).log ∧ (enumPass body i w rest).exit ≠ .wild := by
  induction rest generalizing i w with
  | nil => exact ⟨.nil, by simp [enumPass]⟩
  | cons e rest ih =>
    have hhere := hbody i w e
    rw [enumPass]
    rcases hcall : body i w e with ⟨w', goOn, log⟩
    rw [hcall] at hhere
    dsimp only at hhere ⊢
    cases goOn with
    | false => exact ⟨hhere, by simp⟩
    | true =>
      obtain ⟨hclean, hexit⟩ := ih (i + 1) w'
      exact ⟨hhere.append hclean, hexit⟩

end Loop

section Enumerations

variable {F T : Type*}

theorem getFriends_finishes_iff [DecidableEq F] (callback : FriendsCallback F T) (w : Records F T) :
    Finishes (getFriends (some callback) w) ↔
      Undisturbed Records.friends (getFriendsBody callback) 0 w w.friends.entries := by
  have hat := listIterate_at w.friends.toLinkedList
  have hfollows : ∀ i (w : Records F T) e,
      w.friends.Follows (getFriendsBody callback i w e).1.friends :=
    fun i w e => (callback.follows i w (some e.data)).1
  have hbody : ∀ i w e, CleanLog (getFriendsBody callback i w e).2.2 :=
    fun i w e => CleanLog.record (.inr (.inl rfl))
  constructor
  · rintro ⟨fuel, out, hrun, -⟩
    by_contra hdist
    rw [getFriends, (enumLoop_disturbed true hfollows hat hdist).1 rfl fuel] at hrun
    cases hrun
  · intro h
    have hclean := (enumPass_clean hbody 0 w w.friends.entries).1
    have hloop := enumLoop_undisturbed true hat.next (fun _ => hat) h
    refine ⟨w.friends.entries.length + 1, _, by rw [getFriends, hloop]; rfl, ?_⟩
    dsimp only
    split
    · exact hclean.append .called_none
    · exact hclean
    · exact hclean

theorem notifyFriends_finishes_iff [DecidableEq F] (friendList : Option (FriendsCallback F T)) (w : Records F T) :
    Finishes (notifyFriends friendList w) ↔
      Undisturbed Records.friends (notifyFriendsBody friendList) 0 w w.friends.entries := by
  have hat := listIterate_at w.friends.toLinkedList
  have hfollows : ∀ i (w : Records F T) e,
      w.friends.Follows (notifyFriendsBody friendList i w e).1.friends := by
    intro i w e
    cases friendList with
    | none => exact .inl rfl
    | some friendList => exact (friendList.follows i w (some e.data)).1
  have hbody : ∀ i w e, CleanLog (notifyFriendsBody friendList i w e).2.2 := by
    intro i w e
    cases friendList with
    | none => exact CleanLog.record (.inl rfl)
    | some friendList => exact CleanLog.record (.inr (.inr rfl))
  constructor
  · rintro ⟨fuel, out, hrun, -⟩
    by_contra hdist
    rw [notifyFriends, (enumLoop_disturbed true hfollows hat hdist).1 rfl fuel] at hrun
    cases hrun
  · intro h
    have hclean := (enumPass_clean hbody 0 w w.friends.entries).1
    have hloop := enumLoop_undisturbed true hat.next (fun _ => hat) h
    refine ⟨w.friends.entries.length + 1, _, by rw [notifyFriends, hloop]; rfl, ?_⟩
    cases friendList with
    | none => exact hclean
    | some friendList => exact hclean.append .called_none

/-- Undisturbed over the senders, and over the receivers if it comes to them. -/
def FilesUndisturbed (callback : FilesCallback F T) (w : Records F T) : Prop :=
  let p := enumPass (getFilesBody callback 0) 0 w w.senders.entries
  Undisturbed Records.senders (getFilesBody callback 0) 0 w w.senders.entries ∧
    (p.exit = .ended → Undisturbed Records.receivers (getFilesBody callback 1) p.calls p.world
      p.world.receivers.entries)

theorem getFiles_finishes_iff [DecidableEq T] (callback : FilesCallback F T) (w : Records F T) :
    Finishes (getFiles (some callback) w) ↔ FilesUndisturbed callback w := by
  have hat := listIterate_at w.senders.toLinkedList
  have hbody : ∀ direction i w e, CleanLog (getFilesBody callback direction i w e).2.2 :=
    fun direction i w e => CleanLog.record (.inr (.inl rfl))
  obtain ⟨hclean, hexit⟩ := enumPass_clean (hbody 0) 0 w w.senders.entries
  unfold FilesUndisturbed
  generalize hp : enumPass (getFilesBody callback 0) 0 w w.senders.entries = p at hclean hexit
  dsimp only
  have hat' := listIterate_at p.world.receivers.toLinkedList
  constructor
  · rintro ⟨fuel, out, hrun, hout⟩
    obtain ⟨q, hq, hrun⟩ := Option.bind_eq_some_iff.mp hrun
    by_contra hdist
    rw [not_and_or] at hdist
    by_cases hsend : Undisturbed Records.senders (getFilesBody callback 0) 0 w w.senders.entries
    · -- the receivers are disturbed
      have hrecv := hdist.resolve_left (not_not.mpr hsend)
      rw [Classical.not_imp] at hrecv
      obtain ⟨hended, hrecv⟩ := hrecv
      have hloop := enumLoop_undisturbed false hat.next (fun _ => hat) hsend
      rw [hp] at hloop
      obtain rfl := enumLoop_unique hq hloop
      rw [hended] at hrun
      obtain ⟨r, hr, rfl⟩ := Option.map_eq_some_iff.mp hrun
      obtain ⟨hwildExit, hwild⟩ := (enumLoop_disturbed false
        (fun i w e => (callback.follows i w 1 (some e.data)).2.2) hat' hrecv).2 rfl fuel r hr
      apply hout.tame
      rw [hwildExit]
      exact List.mem_append_right _ hwild
    · obtain ⟨hwildExit, hwild⟩ := (enumLoop_disturbed false
        (fun i w e => (callback.follows i w 0 (some e.data)).2.1) hat hsend).2 rfl fuel q hq
      rw [hwildExit] at hrun
      cases hrun
      exact hout.tame hwild
  · rintro ⟨hsend, hrecv⟩
    have hloop := enumLoop_undisturbed false hat.next (fun _ => hat) hsend
    rw [hp] at hloop
    cases hend : p.exit with
    | wild => exact absurd hend hexit
    | stopped =>
      refine ⟨w.senders.entries.length + 1, ⟨.ok (), p.world, p.log⟩, ?_, hclean⟩
      rw [getFiles, hloop, Option.bind_some, hend]
    | ended =>
      have hloop' := enumLoop_undisturbed false hat'.next (fun _ => hat') (hrecv hend)
      have hclean' := (enumPass_clean (hbody 1) p.calls p.world p.world.receivers.entries).1
      have hfirst := enumLoop_mono hloop (p.world.receivers.entries.length + 1)
      have hsecond := enumLoop_mono hloop' (w.senders.entries.length + 1)
      rw [Nat.add_comm] at hsecond
      refine ⟨_, _, by rw [getFiles, hfirst, Option.bind_some, hend]; dsimp only; rw [hsecond]; rfl, ?_⟩
      dsimp only
      split
      · exact hclean.append hclean'
      · exact hclean.append hclean'
      · exact (hclean.append hclean').append .called_none

/-- The enumerations end and use their records well exactly if, until the callback asks to stop, only
its call for the last record of a container changes that container. -/
theorem enumerations_finish_iff [DecidableEq F] [DecidableEq T] (w : Records F T)
    (callback friendList : Option (FriendsCallback F T)) (files : Option (FilesCallback F T)) :
    (Finishes (getFriends callback w) ↔ ∀ cb, callback = some cb →
        Undisturbed Records.friends (getFriendsBody cb) 0 w w.friends.entries) ∧
      (Finishes (notifyFriends friendList w) ↔
        Undisturbed Records.friends (notifyFriendsBody friendList) 0 w w.friends.entries) ∧
      (Finishes (getFiles files w) ↔ ∀ cb, files = some cb → FilesUndisturbed cb w) := by
  refine ⟨?_, notifyFriends_finishes_iff friendList w, ?_⟩
  · cases callback with
    | none => exact iff_of_true ⟨0, _, rfl, .nil⟩ (fun cb h => by cases h)
    | some cb => simpa using getFriends_finishes_iff cb w
  · cases files with
    | none => exact iff_of_true ⟨0, _, rfl, .nil⟩ (fun cb h => by cases h)
    | some cb => simpa using getFiles_finishes_iff cb w

/-- At its first call, a callback that removes the friend at the address 0. -/
def removeFriend : FriendsCallback ℕ ℕ where
  call i w _ := (if i = 0 then { w with friends := w.friends.removeEntry 0 } else w, true)
  follows i w _ := by
    dsimp only
    split_ifs
    · exact ⟨w.friends.follows_removeEntry 0, .refl _, .refl _⟩
    · exact ⟨.refl _, .refl _, .refl _⟩

/-- The same for a transfer to be sent, which is cancelled. -/
def cancelFile : FilesCallback ℕ ℕ where
  call i w _ _ := (if i = 0 then { w with senders := w.senders.removeEntry 0 } else w, true)
  follows i w _ _ := by
    dsimp only
    split_ifs
    · exact ⟨.refl _, w.senders.follows_removeEntry 0, .refl _⟩
    · exact ⟨.refl _, .refl _, .refl _⟩

def twoRecords : Records ℕ ℕ :=
  let two : Container ℕ := ⟨⟨[⟨0, 5⟩, ⟨1, 6⟩], 2⟩, by decide⟩
  ⟨two, two, ⟨listCreate, List.nodup_nil⟩⟩

/-- A friend removed from within the callback keeps the loops over friends from ending, and a file
cancelled there leads `IOEX_get_files` to a wild pointer. -/
theorem not_enumerations_finish :
    (∀ fuel, getFriends (some removeFriend) twoRecords fuel = none) ∧
      (∀ fuel, notifyFriends (some removeFriend) twoRecords fuel = none) ∧
      ∃ out, getFiles (some cancelFile) twoRecords 2 = some out ∧ .wild ∈ out.log := by
  have hmod : ¬(twoRecords.friends.removeEntry 0 = twoRecords.friends) := by
    intro heq
    have hcount := congrArg (fun c : Container ℕ => c.modCount) heq
    exact absurd hcount (by decide)
  have hne : [(⟨1, 6⟩ : ListEntry ℕ)] ≠ [] := List.cons_ne_nil _ _
  have hat := listIterate_at twoRecords.friends.toLinkedList
  refine ⟨fun fuel => ?_, fun fuel => ?_, _, rfl, by decide⟩
  · have hdist : ¬Undisturbed Records.friends (getFriendsBody removeFriend) 0 twoRecords
        twoRecords.friends.entries := fun h => hmod (h rfl hne).1
    rw [getFriends, (enumLoop_disturbed true (fun i w e => (removeFriend.follows i w (some e.data)).1)
      hat hdist).1 rfl fuel]
    rfl
  · have hdist : ¬Undisturbed Records.friends (notifyFriendsBody (some removeFriend)) 0 twoRecords
        twoRecords.friends.entries := fun h => hmod (h rfl hne).1
    rw [notifyFriends, (enumLoop_disturbed true (fun i w e => (removeFriend.follows i w (some e.data)).1)
      hat hdist).1 rfl fuel]
    rfl

end Enumerations

end Carrier.Core
