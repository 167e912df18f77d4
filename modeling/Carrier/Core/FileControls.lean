import Carrier.Core.FilePaths
import Carrier.Core.Ids
import Carrier.Lib.Scanf

/-! The controls of file transfers that take a tracker out of its list: a cancel or a reject, from
the peer or from the user. -/
namespace Carrier.Core
open Carrier.Lib Carrier.Common FileTracker

/-- `strtoul` to the base 10 -/
def strtoul (input : Bytes) : ℕ :=
  match scanInt (input.dropWhile isSpace) with
  | none => 0
  | some (z, _) => if 2 ^ 64 ≤ z.natAbs then 2 ^ 64 - 1 else (z % 2 ^ 64).toNat

/-- The tables, and the entries that `list_remove_entry` has been given; `none` is `NULL`. -/
structure Controls where
  files : Files
  removed : List (Option ℕ)

/-- A call of `IOEX_send_file_cancel` or `IOEX_send_file_reject`, with what the rest of the carrier
answers to it. -/
structure ControlCall where
  argsGiven : Bool
  friendid : Bytes
  fileindex : Bytes
  isReady : Bool
  dht : Bytes → Option ℕ
  dhtRc : ℤ

namespace ControlCall

/-- The checks in front of the lookup: the friend number, or the error. -/
def check (call : ControlCall) : Except ErrorCode ℕ :=
  if !call.argsGiven then .error .invalidArgs
  else if !isValidKey call.friendid then .error .invalidArgs
  else if !call.isReady then .error .notReady
  else getFriendNumber call.dht call.friendid

/-- `file_number`, a `uint32_t` -/
def fileNumber (call : ControlCall) : ℕ := strtoul call.fileindex % 2 ^ 32

/-- The end of the call, which sends the control. -/
def finish (call : ControlCall) : Except ℤ Unit := if call.dhtRc < 0 then .error call.dhtRc else .ok ()

end ControlCall

namespace Controls

def start (s : Files) : Controls := ⟨s, []⟩

def find (c : Controls) (l : FileList) (f n : ℕ) : Option ℕ × Controls :=
  let (i, files) := c.files.find l f n
  (i, { c with files := files })

/-- `remove_file_sender` and `remove_file_receiver`. The entry of a tracker lies at its start: that of
`NULL` is `NULL`. -/
def remove (c : Controls) (l : FileList) (i : Option ℕ) : Controls :=
  ⟨c.files.remove l i, c.removed ++ [(i.bind ((c.files.list l)[·]?)).map addr]⟩

/-- The part that `notify_file_canceled_cb` and `IOEX_send_file_cancel` share. -/
def cancel (c : Controls) (f n : ℕ) : Controls :=
  if isSender n then
    let (i, c) := c.find .senders f n
    c.remove .senders i
  else
    let (i, c) := c.find .receivers f n
    Controls.remove { c with files := c.files.unlinkFile i } .receivers i

def notifyFileCanceledCb (c : Controls) (f : FriendArg) (n : ℕ) : Controls :=
  match c.files.friendsGet f with
  | (none, _) => c
  | (some _, files) => Controls.cancel { c with files := files } f.number n

def notifyFileRejectedCb (c : Controls) (f : FriendArg) (n : ℕ) : Controls :=
  match c.files.friendsGet f with
  | (none, _) => c
  | (some _, files) =>
    let (i, c) := Controls.find { c with files := files } .senders f.number n
    if i = none then c else c.remove .senders i

def sendFileCancel (c : Controls) (call : ControlCall) : Controls × Except ℤ Unit :=
  match call.check with
  | .error e => (c, .error (intError e))
  | .ok f => (c.cancel f call.fileNumber, call.finish)

def sendFileReject (c : Controls) (call : ControlCall) : Controls × Except ℤ Unit :=
  match call.check with
  | .error e => (c, .error (intError e))
  | .ok f =>
    let (i, c) := c.find .receivers f call.fileNumber
    if i = none then (c, .error (intError .fileTrackerInvalid))
    else (c.remove .receivers i, call.finish)

end Controls

inductive Control where
  | canceled (f : FriendArg) (n : ℕ)
  | rejected (f : FriendArg) (n : ℕ)
  | sendCancel (call : ControlCall)
  | sendReject (call : ControlCall)

namespace Control

/-- What a control does, and what it returns if it is a call of the user. -/
def perform (c : Controls) : Control → Controls × Option (Except ℤ Unit)
  | canceled f n => (c.notifyFileCanceledCb f n, none)
  | rejected f n => (c.notifyFileRejectedCb f n, none)
  | sendCancel call => ((c.sendFileCancel call).1, some (c.sendFileCancel call).2)
  | sendReject call => ((c.sendFileReject call).1, some (c.sendFileReject call).2)

/-- The friend and the file number that a control comes to look up. -/
def target : Control → Option (ℕ × ℕ)
  | canceled f n | rejected f n => some (f.number, n)
  | sendCancel call | sendReject call => call.check.toOption.map (·, call.fileNumber)

def Unknown (s : Files) (control : Control) : Prop :=
  ∀ k ∈ control.target, ∀ l, ∀ t ∈ s.list l, t.hasKey k.1 k.2 = false

/-- A control of an unknown transfer is rejected: no entry is removed, the lists stay but for the
counts of the lookups, no file is unlinked, and a call fails. -/
structure Rejected (s : Files) (control : Control) : Prop where
  entries : none ∉ (control.perform (.start s)).1.removed
  lists : ∀ l, ((control.perform (.start s)).1.files.list l).map core = (s.list l).map core
  acts : (control.perform (.start s)).1.files.acts = s.acts
  fails : ∀ rc ∈ (control.perform (.start s)).2, ∃ e, rc = .error e

/-- A control that checks its tracker, or that does not get as far as to look it up. -/
def Checked (s : Files) : Control → Prop
  | canceled f _ => s.friends f.code = none
  | rejected _ _ | sendReject _ => True
  | sendCancel call => call.check.toOption = none

end Control

section Lookup

theorem findFileTracker_none {f n : ℕ} {l : List FileTracker} (h : ∀ t ∈ l, t.hasKey f n = false) :
    (findFileTracker f n l).1 = none := by
  induction l with
  | nil => rfl
  | cons t l ih =>
    have hrest := ih (fun u hu => h u (List.mem_cons_of_mem _ hu))
    unfold findFileTracker
    rw [h t List.mem_cons_self, if_neg Bool.false_ne_true]
    dsimp only
    rw [hrest, Option.map_none]

theorem list_find_core (s : Files) (l : FileList) (f n : ℕ) (l' : FileList) :
    ((s.find l f n).2.list l').map core = (s.list l').map core := by
  unfold Files.find
  dsimp only
  rw [Files.list_setList]
  split_ifs with hl
  · rw [Files.core_findFileTracker, hl]
  · rfl

namespace Controls

variable {s : Files} {f n : ℕ}

/-- Nothing has been removed from the lists or unlinked. -/
structure Unchanged (s : Files) (c : Controls) : Prop where
  lists : ∀ l, (c.files.list l).map core = (s.list l).map core
  acts : c.files.acts = s.acts

theorem Unchanged.start (s : Files) : Unchanged s (.start s) := ⟨fun _ => rfl, rfl⟩

theorem Unchanged.find {c : Controls} (h : Unchanged s c) (l : FileList) (f n : ℕ) :
    Unchanged s (c.find l f n).2 := by
  refine ⟨fun l' => ?_, ?_⟩
  · exact (list_find_core c.files l f n l').trans (h.lists l')
  · exact (Files.quiet_find c.files l f n).acts.trans h.acts

theorem Unchanged.friendsGet (s : Files) (f : FriendArg) : Unchanged s ⟨(s.friendsGet f).2, []⟩ :=
  ⟨fun l => by rw [Files.list_friendsGet], (Files.quiet_friendsGet s f).acts⟩

theorem find_none {c : Controls} {l : FileList} (h : ∀ t ∈ c.files.list l, t.hasKey f n = false) :
    (c.find l f n).1 = none := findFileTracker_none h

@[simp] theorem removed_find (c : Controls) (l : FileList) (f n : ℕ) :
    (c.find l f n).2.removed = c.removed := rfl

theorem removed_remove_none (c : Controls) (l : FileList) :
    (c.remove l none).removed = c.removed ++ [none] := rfl

theorem removed_cancel {c : Controls} (h : ∀ l, ∀ t ∈ c.files.list l, t.hasKey f n = false) :
    (c.cancel f n).removed = c.removed ++ [none] := by
  unfold cancel
  split_ifs
  · dsimp only
    rw [find_none (h .senders), removed_remove_none, removed_find]
  · dsimp only
    rw [find_none (h .receivers), removed_remove_none, removed_find]

/-- A cancellation does to the tables what it does without the record of entries. -/
theorem files_cancel (c : Controls) (f n : ℕ) : (c.cancel f n).files = c.files.cancel f n := by
  unfold cancel Files.cancel
  split_ifs <;> rfl

theorem files_notifyFileCanceledCb (c : Controls) (f : FriendArg) (n : ℕ) :
    (c.notifyFileCanceledCb f n).files = c.files.notifyFileCanceledCb f n := by
  unfold notifyFileCanceledCb Files.notifyFileCanceledCb Files.withFriend Files.friendsGet
  cases c.files.friends f.code with
  | none => rfl
  | some fi => exact files_cancel _ f.number n

theorem files_notifyFileRejectedCb (c : Controls) (f : FriendArg) (n : ℕ) :
    (c.notifyFileRejectedCb f n).files = c.files.notifyFileRejectedCb f n := by
  unfold notifyFileRejectedCb Files.notifyFileRejectedCb Files.withFriend Files.friendsGet
  cases c.files.friends f.code with
  | none => rfl
  | some fi =>
    dsimp only
    split_ifs with hnone
    · unfold Files.findThenRemove
      dsimp only [find] at hnone ⊢
      rw [hnone]
      rfl
    · rfl

end Controls

end Lookup

namespace Control

open Controls

variable {s : Files}

/-- `notify_file_rejected_cb` stops at a lookup that fails. -/
theorem rejected_unknown {f : FriendArg} {n : ℕ}
    (h : ∀ l, ∀ t ∈ s.list l, t.hasKey f.number n = false) :
    ((Controls.start s).notifyFileRejectedCb f n).removed = [] ∧
      Unchanged s ((Controls.start s).notifyFileRejectedCb f n) := by
  have hget := Unchanged.friendsGet s f
  have hlist : ∀ t ∈ (s.friendsGet f).2.list .senders, t.hasKey f.number n = false := by
    rw [Files.list_friendsGet]
    exact h .senders
  unfold notifyFileRejectedCb
  generalize heq : (Controls.start s).files.friendsGet f = r
  have hr : s.friendsGet f = r := heq
  rw [hr] at hget hlist
  obtain ⟨fi, files⟩ := r
  cases fi with
  | none => exact ⟨rfl, .start s⟩
  | some fi =>
    have hnone : (Controls.find ⟨files, []⟩ .senders f.number n).1 = none := find_none hlist
    have hfound := hget.find .senders f.number n
    dsimp only [Controls.start]
    rw [if_pos hnone]
    exact ⟨rfl, hfound⟩

theorem sendReject_unknown {call : ControlCall}
    (h : ∀ f, call.check = .ok f → ∀ t ∈ s.list .receivers, t.hasKey f call.fileNumber = false) :
    ((Controls.start s).sendFileReject call).1.removed = [] ∧
      Unchanged s ((Controls.start s).sendFileReject call).1 ∧
      ∃ e, ((Controls.start s).sendFileReject call).2 = .error e := by
  unfold sendFileReject
  cases hcheck : call.check with
  | error e => exact ⟨rfl, .start s, _, rfl⟩
  | ok f =>
    have hnone : ((Controls.start s).find .receivers f call.fileNumber).1 = none :=
      find_none (h f hcheck)
    dsimp only
    rw [if_pos hnone]
    exact ⟨rfl, (Unchanged.start s).find _ _ _, _, rfl⟩

/-- A cancellation goes on with the tracker it has not found. -/
theorem canceled_unknown {f : FriendArg} {n : ℕ} (hfriend : s.friends f.code ≠ none)
    (h : ∀ l, ∀ t ∈ s.list l, t.hasKey f.number n = false) :
    ((Controls.start s).notifyFileCanceledCb f n).removed = [none] := by
  have hlist : ∀ l, ∀ t ∈ (s.friendsGet f).2.list l, t.hasKey f.number n = false := by
    intro l
    rw [Files.list_friendsGet]
    exact h l
  obtain ⟨fi, hfi⟩ := Option.ne_none_iff_exists'.mp hfriend
  unfold notifyFileCanceledCb
  have hget : (s.friendsGet f).1 = some { fi with refs := fi.refs + 1 } := by
    rw [Files.friendsGet, hfi]
  generalize heq : (Controls.start s).files.friendsGet f = r
  have hr : s.friendsGet f = r := heq
  rw [hr] at hget hlist
  obtain ⟨found, files⟩ := r
  dsimp only at hget
  subst hget
  exact removed_cancel hlist

/-- A control of a transfer that there is no tracker for is rejected exactly if its tracker is
checked. -/
theorem rejected_iff {control : Control} (h : control.Unknown s) :
    control.Rejected s ↔ control.Checked s := by
  cases control with
  | canceled f n =>
    have hkey := h (f.number, n) rfl
    constructor
    · intro hrejected
      by_contra hfriend
      have hentries := hrejected.entries
      rw [perform, canceled_unknown hfriend hkey] at hentries
      exact hentries (List.mem_singleton_self none)
    · intro hfriend
      have hdropped : (Controls.start s).notifyFileCanceledCb f n = .start s := by
        unfold notifyFileCanceledCb Files.friendsGet
        rw [show (Controls.start s).files.friends f.code = none from hfriend]
      constructor <;> rw [perform, hdropped]
      · exact List.not_mem_nil
      · exact fun _ => rfl
      · rfl
      · exact fun _ hrc => absurd hrc (Option.not_mem_none _)
  | rejected f n =>
    obtain ⟨hremoved, hunchanged⟩ := rejected_unknown (h (f.number, n) rfl)
    refine iff_of_true ⟨?_, hunchanged.lists, hunchanged.acts, ?_⟩ trivial
    · rw [perform, hremoved]
      exact List.not_mem_nil
    · exact fun _ hrc => absurd hrc (Option.not_mem_none _)
  | sendCancel call =>
    cases hcheck : call.check with
    | error e =>
      have hfailed : (Controls.start s).sendFileCancel call = (.start s, .error (intError e)) := by
        rw [sendFileCancel, hcheck]
      refine iff_of_true ?_ (by rw [Checked, hcheck]; rfl)
      constructor <;> rw [perform, hfailed]
      · exact List.not_mem_nil
      · exact fun _ => rfl
      · rfl
      · rintro _ ⟨⟩
        exact ⟨_, rfl⟩
    | ok f =>
      have hkey := h (f, call.fileNumber) (by rw [target, hcheck]; rfl)
      refine iff_of_false (fun hrejected => ?_) (by rw [Checked, hcheck]; exact Option.some_ne_none f)
      have hentries := hrejected.entries
      rw [perform, sendFileCancel, hcheck] at hentries
      have hremoved := removed_cancel (c := .start s) hkey
      dsimp only at hentries
      rw [hremoved] at hentries
      exact hentries (List.mem_append_right _ (List.mem_singleton_self none))
  | sendReject call =>
    have hkey : ∀ f, call.check = .ok f →
        ∀ t ∈ s.list .receivers, t.hasKey f call.fileNumber = false := by
      intro f hcheck
      exact h (f, call.fileNumber) (by rw [target, hcheck]; rfl) .receivers
    obtain ⟨hremoved, hunchanged, e, he⟩ := sendReject_unknown hkey
    refine iff_of_true ⟨?_, hunchanged.lists, hunchanged.acts, ?_⟩ trivial
    · rw [perform, hremoved]
      exact List.not_mem_nil
    · rintro _ ⟨⟩
      exact ⟨e, he⟩

/-- One friend, with a transfer in either direction. -/
def twoTransfers : Files :=
  ((Files.init.addFriend 0 [49]).notifyFileRequestCb 0 65536 [120] true).sendFileRequest 0
    [47, 97, 47, 121] (some 0) true

theorem rejected_iff_twoTransfers : (rejected 0 5).Rejected twoTransfers := by
  have hunknown : (rejected 0 5).Unknown twoTransfers := by
    rintro _ ⟨⟩ l
    cases l <;> decide
  exact (rejected_iff hunknown).mpr trivial

/-- The peer cancels a transfer that there is not. -/
theorem canceled_not_rejected :
    (canceled 0 5).Unknown twoTransfers ∧ ¬(canceled 0 5).Rejected twoTransfers := by
  constructor
  · rintro _ ⟨⟩ l
    cases l <;> decide
  · intro h
    exact h.entries (.head _)

end Control

end Carrier.Core
