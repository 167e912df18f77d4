import Carrier.Core.FileTransfers
import Mathlib.Data.List.TakeWhile

/-! Which tracker a file number stands for, which file a chunk is read from, and which files are
unlinked. -/
namespace Carrier.Core
open Carrier.Lib

namespace FileTracker

/-- A tracker without its count. -/
def core (t : FileTracker) : FileTracker := { t with refs := 0 }

def key (t : FileTracker) : ℕ × ℕ := (t.friendNumber, t.fileIndex)

theorem hasKey_iff (t : FileTracker) (f n : ℕ) : t.hasKey f n ↔ t.key = (f, n) := by
  simp [hasKey, key]

@[simp] theorem core_key (t : FileTracker) : t.core.key = t.key := rfl

@[simp] theorem core_addr (t : FileTracker) : t.core.addr = t.addr := rfl

@[simp] theorem getFullpath_core (t : FileTracker) : getFullpath t.core = getFullpath t := rfl

end FileTracker

open FileTracker

namespace Files

/-- Trackers may go, and nothing of the others changes but their counts. -/
structure Trims (s s' : Files) : Prop where
  lists : ∀ l, List.Sublist ((s'.list l).map core) ((s.list l).map core)
  nextAddr : s'.nextAddr = s.nextAddr

theorem Trims.refl (s : Files) : Trims s s := ⟨fun _ => .refl _, rfl⟩

theorem Trims.trans {s s' s'' : Files} (h : Trims s s') (h' : Trims s' s'') : Trims s s'' :=
  ⟨fun l => (h'.lists l).trans (h.lists l), h'.nextAddr.trans h.nextAddr⟩

theorem Trims.mem {s s' : Files} (h : Trims s s') {l : FileList} {t : FileTracker}
    (ht : t ∈ s'.list l) : ∃ u ∈ s.list l, u.core = t.core := by
  have hmem := (h.lists l).subset (List.mem_map_of_mem ht)
  obtain ⟨u, hu, hcore⟩ := List.mem_map.mp hmem
  exact ⟨u, hu, hcore⟩

theorem core_findFileTracker (f n : ℕ) (l : List FileTracker) :
    (findFileTracker f n l).2.map core = l.map core := by
  induction l with
  | nil => rfl
  | cons t l ih =>
    unfold findFileTracker
    split_ifs
    · rfl
    · exact congrArg (t.core :: ·) ih

theorem trims_setList {s : Files} {l : FileList} {trackers : List FileTracker}
    (h : List.Sublist (trackers.map core) ((s.list l).map core)) : Trims s (s.setList l trackers) := by
  refine ⟨fun l' => ?_, setList_nextAddr s l trackers⟩
  rw [list_setList]
  split_ifs with hl
  · rw [hl]
    exact h
  · exact .refl _

theorem trims_find (s : Files) (l : FileList) (f n : ℕ) : Trims s (s.find l f n).2 :=
  trims_setList (by rw [core_findFileTracker])

theorem trims_putFriend (s : Files) (c : FriendCode) (fi : Option FriendInfo) :
    Trims s (s.putFriend c fi) :=
  ⟨fun l => by rw [list_putFriend], rfl⟩

theorem trims_act (s : Files) (a : FileAct) : Trims s (s.act a) :=
  ⟨fun l => by rw [list_act], rfl⟩

theorem trims_remove (s : Files) (l : FileList) (i : Option ℕ) : Trims s (s.remove l i) := by
  unfold remove
  split
  · exact .refl s
  · next i =>
    split
    · exact .refl s
    · have herase : Trims s (s.setList l ((s.list l).eraseIdx i)) :=
        trims_setList ((List.eraseIdx_sublist _ _).map core)
      dsimp only
      split_ifs
      · exact herase
      · refine ⟨fun l' => ?_, herase.nextAddr⟩
        have := herase.lists l'
        cases l' <;> exact this

/-- A change of counts that may drop trackers, and leaves the record alone. -/
structure Quiet (s s' : Files) : Prop where
  trims : Trims s s'
  acts : s'.acts = s.acts

theorem Quiet.refl (s : Files) : Quiet s s := ⟨.refl s, rfl⟩

theorem Quiet.trans {s s' s'' : Files} (h : Quiet s s') (h' : Quiet s' s'') : Quiet s s'' :=
  ⟨h.trims.trans h'.trims, h'.acts.trans h.acts⟩

theorem quiet_find (s : Files) (l : FileList) (f n : ℕ) : Quiet s (s.find l f n).2 :=
  ⟨trims_find s l f n, setList_acts ..⟩

theorem quiet_putFriend (s : Files) (c : FriendCode) (fi : Option FriendInfo) :
    Quiet s (s.putFriend c fi) := ⟨trims_putFriend s c fi, rfl⟩

theorem quiet_friendsGet (s : Files) (f : FriendArg) : Quiet s (s.friendsGet f).2 := by
  unfold friendsGet
  split
  · exact .refl s
  · exact quiet_putFriend s f.code _

theorem quiet_dropFriend (s : Files) (c : FriendCode) : Quiet s (s.dropFriend c) := by
  unfold dropFriend
  split
  · exact .refl s
  · dsimp only
    split_ifs
    · exact quiet_putFriend s c _
    · exact ⟨⟨fun l => by cases l <;> exact .refl _, rfl⟩, rfl⟩

theorem quiet_remove (s : Files) (l : FileList) (i : Option ℕ) : Quiet s (s.remove l i) := by
  refine ⟨trims_remove s l i, ?_⟩
  unfold remove
  split
  · rfl
  · split
    · rfl
    · dsimp only
      split_ifs <;> exact setList_acts ..

theorem quiet_findThenRemove (s : Files) (l : FileList) (f n : ℕ) :
    Quiet s (s.findThenRemove l f n) := (quiet_find s l f n).trans (quiet_remove _ _ _)

theorem list_friendsGet (s : Files) (f : FriendArg) (l : FileList) :
    (s.friendsGet f).2.list l = s.list l := by
  unfold friendsGet
  split
  · rfl
  · exact list_putFriend ..

theorem withFriend_cases (s : Files) (f : FriendArg) (body : Files → Files) :
    s.withFriend f body = s ∨
      s.friends f.code ≠ none ∧ s.withFriend f body = body (s.friendsGet f).2 := by
  unfold withFriend friendsGet
  cases s.friends f.code with
  | none => exact .inl rfl
  | some fi => exact .inr ⟨Option.some_ne_none fi, rfl⟩

theorem quiet_withFriend (s : Files) (f : FriendArg) {body : Files → Files} (h : ∀ s, Quiet s (body s)) :
    Quiet s (s.withFriend f body) := by
  obtain heq | ⟨hknown, heq⟩ := withFriend_cases s f body
  · rw [heq]
    exact .refl s
  · rw [heq]
    exact (quiet_friendsGet s f).trans (h _)

theorem findFileTracker_core (f n : ℕ) (l : List FileTracker) :
    ((findFileTracker f n l).1.bind ((findFileTracker f n l).2[·]?)).map core =
      (l.find? (·.hasKey f n)).map core := by
  induction l with
  | nil => rfl
  | cons t l ih =>
    unfold findFileTracker
    rw [List.find?_cons]
    cases hkey : t.hasKey f n with
    | true => rfl
    | false =>
      dsimp only
      rw [← ih, if_neg Bool.false_ne_true]
      cases (findFileTracker f n l).1 <;> rfl

/-- What a lookup finds is, but for its count, the first tracker with the key. -/
theorem find_first {s : Files} {l : FileList} {f n : ℕ} {t : FileTracker}
    (h : (s.find l f n).1.bind (((s.find l f n).2.list l)[·]?) = some t) :
    ∃ u, (s.list l).find? (·.hasKey f n) = some u ∧ u.core = t.core := by
  have hlist : (s.find l f n).2.list l = (findFileTracker f n (s.list l)).2 := by
    simp [find]
  rw [hlist] at h
  have hcore := (findFileTracker_core f n (s.list l)).symm.trans (congrArg (·.map core) h)
  obtain ⟨u, hu, hcore⟩ := Option.map_eq_some_iff.mp hcore
  exact ⟨u, hu, hcore⟩

theorem mem_of_find {l : List FileTracker} {f n : ℕ} {t : FileTracker}
    (h : l.find? (·.hasKey f n) = some t) : t ∈ l ∧ t.key = (f, n) :=
  ⟨List.mem_of_find?_eq_some h,
    (hasKey_iff t f n).mp (List.find?_some (p := fun t : FileTracker => t.hasKey f n) h)⟩

/-- A cancellation unlinks at most the file of the first receiver with the key. -/
theorem cancel_cases (s : Files) (f n : ℕ) : Quiet s (s.cancel f n) ∨
    ¬isSender n ∧ Trims s (s.cancel f n) ∧ ∃ t, s.receivers.find? (·.hasKey f n) = some t ∧
      (s.cancel f n).acts = .unlinked t.addr (getFullpath t) :: s.acts := by
  unfold cancel
  split_ifs with hsender
  · exact .inl (quiet_findThenRemove s .senders f n)
  · have hfind := quiet_find s .receivers f n
    have hremove := fun m => quiet_remove m .receivers (s.find .receivers f n).1
    cases ht : (s.find .receivers f n).1.bind ((s.find .receivers f n).2.receivers[·]?) with
    | none =>
      left
      simp only [unlinkFile, ht]
      exact hfind.trans (hremove _)
    | some t =>
      right
      simp only [unlinkFile, ht]
      obtain ⟨u, hu, hcore⟩ := find_first (l := .receivers) ht
      refine ⟨hsender, (hfind.trims.trans (trims_act _ _)).trans (hremove _).trims, u, hu, ?_⟩
      rw [(hremove _).acts, ← core_addr u, ← getFullpath_core u, hcore]
      exact congrArg (_ :: ·) hfind.acts

/-- The transfer of ours that an event cancels, if it is one we receive. -/
def canceled (s : Files) : Event → Option (ℕ × ℕ)
  | .fileControl f _ n .cancel =>
    if s.friends f.code ≠ none ∧ ¬isSender n then some (f.number, n) else none
  | .sendFileCancel f n => if isSender n then none else some (f, n)
  | _ => none

/-- What a handler does to the trackers and the record, given the event. -/
inductive Change (s : Files) : Event → Files → Prop where
  | quiet {ev : Event} {s' : Files} (h : Quiet s s') : Change s ev s'
  | unlink {ev : Event} {s' : Files} {f n : ℕ} {t : FileTracker}
      (hev : s.canceled ev = some (f, n))
      (ht : s.receivers.find? (·.hasKey f n) = some t) (htrims : Trims s s')
      (hacts : s'.acts = .unlinked t.addr (getFullpath t) :: s.acts) : Change s ev s'
  | serve {f : FriendArg} {n length : ℕ} {s' : Files} {t : FileTracker}
      (hknown : s.friends f.code ≠ none) (hlength : length ≠ 0)
      (ht : t ∈ s.senders) (hkey : t.key = (f.number, n)) (htrims : Trims s s')
      (hacts : s'.acts = .served f.number n (getFullpath t) :: s.acts) :
      Change s (.chunkRequest f n length true) s'
  | request {f n : ℕ} {fullpath : Bytes} {alloc : Bool} :
      Change s (.sendFileRequest f fullpath (some n) alloc) (s.act (.requested f n fullpath))
  | addSender {f n : ℕ} {fullpath : Bytes} :
      Change s (.sendFileRequest f fullpath (some n) true)
        ((s.act (.requested f n fullpath)).add .senders (newSender s.nextAddr f n fullpath))
  | addReceiver {f : FriendArg} {n : ℕ} {filename : Bytes} {m : Files}
      (hknown : s.friends f.code ≠ none) (h : Quiet s m) :
      Change s (.fileRequest f n filename true)
        (m.add .receivers (newReceiver m.nextAddr f.number n filename))
  | update {f n i : ℕ} {filename filepath : Bytes} {sent : Bool} {m : Files} {t : FileTracker}
      (h : Quiet s m) (ht : m.receivers[i]? = some t) :
      Change s (.sendFileAccept f n filename filepath true sent)
        ({ m with receivers := m.receivers.set i (updateFileReceiverPath t filename filepath) }.act
          (.updated t.addr filename filepath sent))

theorem chunkRequest_change (s : Files) (f : FriendArg) (n length : ℕ) (opens : Bool) :
    Change s (.chunkRequest f n length opens) (s.notifyFileChunkRequestCb f n length opens) := by
  unfold notifyFileChunkRequestCb
  obtain heq | ⟨hknown, heq⟩ := withFriend_cases s f _
  · rw [heq]
    exact .quiet (.refl s)
  · rw [heq]
    have hget := quiet_friendsGet s f
    have hfind := quiet_find (s.friendsGet f).2 .senders f.number n
    by_cases hlength : length = 0
    · simp only [if_pos hlength]
      exact .quiet ((hget.trans hfind).trans (quiet_remove _ _ _))
    · simp only [if_neg hlength]
      split
      · exact .quiet (hget.trans hfind)
      · next t ht =>
        cases opens with
        | false => exact .quiet (hget.trans hfind)
        | true =>
          obtain ⟨u, hu, hcore⟩ := find_first (l := .senders) ht
          rw [list_friendsGet] at hu
          obtain ⟨hmem, hkey⟩ := mem_of_find hu
          apply Change.serve hknown hlength hmem hkey
          · exact (hget.trims.trans hfind.trims).trans (trims_act _ _)
          · rw [← getFullpath_core u, hcore]
            exact congrArg (_ :: ·) (hget.trans hfind).acts

theorem fileRequest_change (s : Files) (f : FriendArg) (n : ℕ) (filename : Bytes) (alloc : Bool) :
    Change s (.fileRequest f n filename alloc) (s.notifyFileRequestCb f n filename alloc) := by
  unfold notifyFileRequestCb
  obtain heq | ⟨hknown, heq⟩ := withFriend_cases s f _
  · rw [heq]
    exact .quiet (.refl s)
  · rw [heq]
    cases alloc with
    | false => exact .quiet (quiet_friendsGet s f)
    | true => exact .addReceiver hknown (quiet_friendsGet s f)

theorem fileControl_change (s : Files) (f : FriendArg) (behind : Bytes) (n : ℕ)
    (control : FileControl) :
    Change s (.fileControl f behind n control) (s.notifyFileControlCb f behind n control) := by
  have hpaused := quiet_withFriend s f
    (fun s => quiet_find s (if isSender n then .senders else .receivers) f.number n)
  cases control with
  | pause => exact .quiet hpaused
  | resume =>
    exact .quiet (hpaused.trans (quiet_withFriend _ (f.again behind) (fun s => quiet_find s _ _ n)))
  | cancel =>
    have hrejected := fun s => quiet_withFriend s (f.again behind)
      (fun s => quiet_findThenRemove s .senders f.number n)
    change Change s _ ((s.withFriend f (fun s => s.cancel f.number n)).notifyFileRejectedCb
      (f.again behind) n)
    obtain heq | ⟨hknown, heq⟩ := withFriend_cases s f (fun s => s.cancel f.number n)
    · rw [heq]
      exact .quiet (hrejected s)
    · rw [heq]
      have hget := quiet_friendsGet s f
      obtain h | ⟨hsender, htrims, t, ht, hacts⟩ := cancel_cases (s.friendsGet f).2 f.number n
      · exact .quiet ((hget.trans h).trans (hrejected _))
      · have hlist : (s.friendsGet f).2.receivers = s.receivers := list_friendsGet s f .receivers
        rw [hlist] at ht
        have hcanceled : s.canceled (.fileControl f behind n .cancel) = some (f.number, n) :=
          if_pos ⟨hknown, hsender⟩
        apply Change.unlink hcanceled ht
        · exact (hget.trims.trans htrims).trans (hrejected _).trims
        · rw [← hget.acts, ← hacts]
          exact (hrejected _).acts

theorem handle_change (s : Files) (ev : Event) : Change s ev (s.handle ev) := by
  cases ev with
  | addFriend f userid =>
    apply Change.quiet
    exact (quiet_dropFriend s _).trans (quiet_putFriend _ _ _)
  | removeFriend f behind =>
    apply Change.quiet
    change Quiet s (s.removeFriend f behind)
    unfold removeFriend
    split
    · exact .refl s
    · exact quiet_dropFriend s _
  | friendConnection f connected =>
    apply Change.quiet
    change Quiet s (s.notifyFriendConnectionCb f connected)
    unfold notifyFriendConnectionCb friendsGet
    cases s.friends f.code with
    | none => exact .refl s
    | some fi =>
      have hget := quiet_putFriend s f.code (some { fi with refs := fi.refs + 1 })
      exact (hget.trans (quiet_putFriend _ _ _)).trans (quiet_putFriend _ _ _)
  | friendStatus f status =>
    apply Change.quiet
    change Quiet s (s.notifyFriendStatusCb f status)
    unfold notifyFriendStatusCb friendsGet
    cases s.friends f.code with
    | none => exact .refl s
    | some fi =>
      have hget := quiet_putFriend s f.code (some { fi with refs := fi.refs + 1 })
      dsimp only
      split_ifs
      · exact hget
      · exact (hget.trans (quiet_putFriend _ _ _)).trans (quiet_putFriend _ _ _)
  | fileRequest f n filename alloc => exact fileRequest_change s f n filename alloc
  | fileControl f behind n control => exact fileControl_change s f behind n control
  | chunkRequest f n length opens => exact chunkRequest_change s f n length opens
  | chunkReceive f n length =>
    apply Change.quiet
    apply quiet_withFriend
    intro s
    split_ifs
    · exact quiet_findThenRemove s _ _ n
    · exact quiet_find s _ _ n
  | sendFileRequest f fullpath number alloc =>
    cases number with
    | none => exact .quiet (.refl s)
    | some n =>
      cases alloc with
      | false => exact .request
      | true => exact .addSender
  | sendFileSeek f n => exact .quiet (quiet_find s _ f n)
  | sendFileAccept f n filename filepath writable sent =>
    change Change s _ (s.sendFileAccept f n filename filepath writable sent)
    unfold sendFileAccept
    cases writable with
    | false => exact .quiet (.refl s)
    | true =>
      have hfind := quiet_find s .receivers f n
      simp only [Bool.not_true, Bool.false_eq_true, if_false]
      split
      · exact .quiet hfind
      · next i t hit =>
        obtain ⟨j, hj, hjt⟩ := Option.bind_eq_some_iff.mp hit
        obtain ⟨u, hu, heq⟩ := Option.map_eq_some_iff.mp hjt
        cases heq
        exact .update hfind hu
  | sendFileReject f n => exact .quiet (quiet_findThenRemove s _ f n)
  | sendFilePause f n => exact .quiet (quiet_find s _ f n)
  | sendFileCancel f n =>
    obtain h | ⟨hsender, htrims, t, ht, hacts⟩ := cancel_cases s f n
    · exact .quiet h
    · exact .unlink (if_neg hsender) ht htrims hacts

/-- The path of the request that obtained a number most recently. -/
def lastRequested (f n : ℕ) : List FileAct → Option Bytes
  | [] => none
  | .requested f' n' fullpath :: acts =>
    if (f', n') = (f, n) then some fullpath else lastRequested f n acts
  | _ :: acts => lastRequested f n acts

/-- Every chunk was read from the path of the request that had obtained its number most recently. -/
def ServedRight : List FileAct → Prop
  | [] => True
  | .served f n path :: acts =>
    (∃ fullpath, lastRequested f n acts = some fullpath ∧ path = some fullpath) ∧ ServedRight acts
  | _ :: acts => ServedRight acts

/-- A path comes back from directory and name: it is in no root directory, has a single slash before
its name, and fits the arrays. -/
def PathKept (fullpath : Bytes) : Prop :=
  (slash ∈ fullpath → dirPart fullpath ≠ [] ∧ (dirPart fullpath).getLast? ≠ some slash) ∧
    (namePart fullpath).length ≤ maxFileNameLen ∧ (dirPart fullpath).length ≤ maxFileNameLen ∧
    fullpath.length < maxFullPathLen

/-- No two trackers of a list have the same key, and chunks come from the right files. -/
structure KeysUnique (s : Files) : Prop where
  senders : (s.senders.map key).Nodup
  receivers : (s.receivers.map key).Nodup
  served : ServedRight s.acts

/-- A number is handed out only when no tracker is left that has it, a path that is requested has a
directory that fits its array, and one that a chunk is read from comes back from directory and name. -/
def KeysFresh (s : Files) : Event → Prop
  | .sendFileRequest f fullpath (some n) alloc =>
    (∀ t ∈ s.senders, t.key ≠ (f, n)) ∧ (alloc → (dirPart fullpath).length ≤ maxFileNameLen)
  | .fileRequest f n _ alloc =>
    s.friends f.code ≠ none → alloc → ∀ t ∈ s.receivers, t.key ≠ (f.number, n)
  | .chunkRequest f n length opens =>
    s.friends f.code ≠ none → length ≠ 0 → opens → (∃ t ∈ s.senders, t.key = (f.number, n)) →
      ∀ fullpath ∈ lastRequested f.number n s.acts, PathKept fullpath
  | _ => True

instance PathKept.decidable (fullpath : Bytes) : Decidable (PathKept fullpath) := by
  unfold PathKept
  infer_instance

instance KeysFresh.decidable (s : Files) (ev : Event) : Decidable (s.KeysFresh ev) := by
  cases ev with
  | sendFileRequest f fullpath number alloc =>
    cases number <;> (unfold KeysFresh; infer_instance)
  | _ => unfold KeysFresh; infer_instance

theorem dirPart_append_namePart {fullpath : Bytes} (h : slash ∈ fullpath) :
    dirPart fullpath ++ slash :: namePart fullpath = fullpath := by
  have hsplit := List.takeWhile_append_dropWhile (p := (· ≠ slash)) (l := fullpath.reverse)
  unfold dirPart namePart
  cases hdrop : fullpath.reverse.dropWhile (· ≠ slash) with
  | nil =>
    have hall := List.dropWhile_eq_nil_iff.mp hdrop slash (List.mem_reverse.mpr h)
    simp at hall
  | cons b rest =>
    have hne : fullpath.reverse.dropWhile (· ≠ slash) ≠ [] := by
      rw [hdrop]
      exact List.cons_ne_nil b rest
    have hb := List.head_dropWhile_not (· ≠ slash) hne
    simp only [hdrop, List.head_cons, decide_eq_false_iff_not, not_not] at hb
    rw [hdrop, hb] at hsplit
    simpa using congrArg List.reverse hsplit

theorem namePart_of_not_mem {fullpath : Bytes} (h : slash ∉ fullpath) :
    namePart fullpath = fullpath ∧ dirPart fullpath = [] := by
  have hall : ∀ b ∈ fullpath.reverse, decide (b ≠ slash) = true := by
    intro b hb
    rw [decide_eq_true_eq]
    rintro rfl
    exact h (List.mem_reverse.mp hb)
  unfold namePart dirPart
  rw [List.takeWhile_eq_self_iff.mpr hall, List.dropWhile_eq_nil_iff.mpr hall]
  simp

theorem get_copyField {s : Bytes} (h : s.length ≤ maxFileNameLen) : (copyField s).get = some s := by
  have htext : s.take maxFileNameLen = s := List.take_of_length_le h
  rw [NameField.get, copyField, htext, if_pos (.inr (decide_eq_false (not_lt.mpr h)))]

theorem getFullpath_newSender {fullpath : Bytes} (h : PathKept fullpath) (addr f n : ℕ) :
    getFullpath (newSender addr f n fullpath) = some fullpath := by
  obtain ⟨hslash, hname, hdir, hlen⟩ := h
  have hjoin : joinPath (dirPart fullpath) (namePart fullpath) = fullpath := by
    unfold joinPath
    by_cases hmem : slash ∈ fullpath
    · rw [if_neg (hslash hmem).1, if_neg (hslash hmem).2, dirPart_append_namePart hmem]
    · obtain ⟨hn, hd⟩ := namePart_of_not_mem hmem
      rw [if_pos hd, hn]
  simp only [getFullpath, newSender, get_copyField hname, get_copyField hdir, hjoin]
  rw [List.take_of_length_le (by omega)]

theorem lastRequested_cons_of_ne {f n f' n' : ℕ} {fullpath : Bytes} {acts : List FileAct}
    (h : (f', n') ≠ (f, n)) :
    lastRequested f' n' (.requested f n fullpath :: acts) = lastRequested f' n' acts :=
  if_neg (Ne.symm h)

theorem map_set_of_eq {β : Type*} {g : FileTracker → β} {l : List FileTracker} {i : ℕ}
    {t : FileTracker} (t' : FileTracker) (ht : l[i]? = some t) (hg : g t' = g t) :
    (l.set i t').map g = l.map g := by
  obtain ⟨hi, rfl⟩ := List.getElem?_eq_some_iff.mp ht
  rw [List.map_set, hg, ← List.getElem_map g, List.set_getElem_self]
  rwa [List.length_map]

theorem nodup_append_key {l : List FileTracker} {t : FileTracker} (h : (l.map key).Nodup)
    (ht : ∀ u ∈ l, u.key ≠ t.key) : ((l ++ [t]).map key).Nodup := by
  rw [List.map_append, List.map_singleton, ← List.concat_eq_append]
  apply List.Nodup.concat _ h
  intro hmem
  obtain ⟨u, hu, hkey⟩ := List.mem_map.mp hmem
  exact ht u hu hkey

/-- A sender that was made for the path of the latest request. -/
def Sourced (acts : List FileAct) (t : FileTracker) : Prop :=
  ∃ fullpath, lastRequested t.friendNumber t.fileIndex acts = some fullpath ∧
    t.core = (newSender t.addr t.friendNumber t.fileIndex fullpath).core

theorem Sourced.congr {acts : List FileAct} {t u : FileTracker} (hcore : t.core = u.core)
    (h : Sourced acts t) : Sourced acts u := by
  obtain ⟨fullpath, hlast, hnew⟩ := h
  have hf : t.core.friendNumber = u.core.friendNumber := by rw [hcore]
  have hn : t.core.fileIndex = u.core.fileIndex := by rw [hcore]
  have ha : t.core.addr = u.core.addr := by rw [hcore]
  dsimp only [core] at hf hn ha
  exact ⟨fullpath, by rw [← hf, ← hn, hlast], by rw [← hcore, hnew, hf, hn, ha]⟩

theorem Sourced.acts {acts acts' : List FileAct} {t : FileTracker} (h : Sourced acts t)
    (hacts : lastRequested t.friendNumber t.fileIndex acts' =
      lastRequested t.friendNumber t.fileIndex acts) : Sourced acts' t := by
  unfold Sourced
  rw [hacts]
  exact h

theorem Sourced.getFullpath {acts : List FileAct} {t : FileTracker} (h : Sourced acts t)
    (hkept : ∀ fullpath ∈ lastRequested t.friendNumber t.fileIndex acts, PathKept fullpath) :
    ∃ fullpath, lastRequested t.friendNumber t.fileIndex acts = some fullpath ∧
      getFullpath t = some fullpath := by
  obtain ⟨fullpath, hlast, hnew⟩ := h
  refine ⟨fullpath, hlast, ?_⟩
  rw [← getFullpath_core, hnew, getFullpath_core]
  exact getFullpath_newSender (hkept fullpath hlast) _ _ _

/-- The invariant: besides, every sender was made for the path of the latest request. -/
structure Tracked (s : Files) : Prop where
  keys : ∀ l, ((s.list l).map key).Nodup
  source : ∀ t ∈ s.senders, Sourced s.acts t
  served : ServedRight s.acts

theorem Trims.keys {s s' : Files} (h : Trims s s') {l : FileList}
    (hkeys : ((s.list l).map key).Nodup) : ((s'.list l).map key).Nodup := by
  have hsub := (h.lists l).map key
  rw [List.map_map, List.map_map] at hsub
  exact hkeys.sublist hsub

theorem Trims.sourced {s s' : Files} (h : Trims s s') {acts : List FileAct}
    (hsource : ∀ t ∈ s.senders, Sourced acts t) : ∀ t ∈ s'.senders, Sourced acts t := by
  intro t ht
  obtain ⟨u, hu, hcore⟩ := h.mem (l := .senders) ht
  exact (hsource u hu).congr hcore

namespace Tracked

theorem quiet {s s' : Files} (h : s.Tracked) (hquiet : Quiet s s') : s'.Tracked := by
  refine ⟨fun l => hquiet.trims.keys (h.keys l), hquiet.trims.sourced ?_, ?_⟩
  · rw [hquiet.acts]
    exact h.source
  · rw [hquiet.acts]
    exact h.served

theorem step {s s' : Files} {ev : Event} (h : s.Tracked) (hfresh : s.KeysFresh ev)
    (hchange : Change s ev s') : s'.Tracked := by
  cases hchange with
  | quiet hquiet => exact h.quiet hquiet
  | unlink hev ht htrims hacts =>
    refine ⟨fun l => htrims.keys (h.keys l), htrims.sourced ?_, ?_⟩
    · rw [hacts]
      exact h.source
    · rw [hacts]
      exact h.served
  | @serve f n length _ t hknown hlength ht hkey htrims hacts =>
    refine ⟨fun l => htrims.keys (h.keys l), htrims.sourced ?_, ?_⟩
    · rw [hacts]
      exact h.source
    · rw [hacts]
      have hkept := hfresh hknown hlength rfl ⟨t, ht, hkey⟩
      obtain ⟨hf, rfl⟩ := Prod.mk.inj hkey
      rw [← hf] at hkept ⊢
      exact ⟨(h.source t ht).getFullpath hkept, h.served⟩
  | @request f n fullpath =>
    refine ⟨fun l => by rw [list_act]; exact h.keys l, fun t ht => (h.source t ht).acts ?_, h.served⟩
    exact lastRequested_cons_of_ne (hfresh.1 t ht)
  | @addSender f n fullpath =>
    have hrequested : ∀ t ∈ s.senders, Sourced (.requested f n fullpath :: s.acts) t :=
      fun t ht => (h.source t ht).acts (lastRequested_cons_of_ne (hfresh.1 t ht))
    refine ⟨fun l => ?_, fun t ht => ?_, h.served⟩
    · rw [list_add]
      split_ifs with hl
      · subst hl
        exact nodup_append_key (h.keys .senders) hfresh.1
      · rw [list_act]
        exact h.keys l
    · obtain ht | ht := List.mem_append.mp ht
      · exact hrequested t ht
      · obtain rfl := List.mem_singleton.mp ht
        exact ⟨fullpath, by simp [lastRequested, newSender, add, act], rfl⟩
  | @addReceiver f n filename m hknown hquiet =>
    have hm := h.quiet hquiet
    refine ⟨fun l => ?_, hm.source, hm.served⟩
    rw [list_add]
    split_ifs with hl
    · subst hl
      apply nodup_append_key (hm.keys .receivers)
      intro t ht
      obtain ⟨u, hu, hcore⟩ := hquiet.trims.mem (l := .receivers) ht
      rw [← core_key, ← hcore]
      exact hfresh hknown rfl u hu
    · exact hm.keys l
  | @update f n i filename filepath sent m t hquiet ht =>
    have hm := h.quiet hquiet
    refine ⟨fun l => ?_, hm.source, hm.served⟩
    cases l with
    | senders => exact hm.keys .senders
    | receivers =>
      have hkeys : (m.receivers.map key).Nodup := hm.keys .receivers
      change ((m.receivers.set i _).map key).Nodup
      rwa [map_set_of_eq (updateFileReceiverPath t filename filepath) ht rfl]

end Tracked

/-- As long as no number is handed out that a tracker is left of, every number has one tracker, and
a chunk is read from the file of the latest request for its number. -/
theorem exec_keysUnique {asserts : Bool} {events : List Event} {s : Files}
    (hfresh : Along (step asserts) KeysFresh init events)
    (h : exec (step asserts) init events = some s) : s.KeysUnique := by
  have hinit : init.Tracked := ⟨by simp, by simp [init], trivial⟩
  have htracked : s.Tracked := by
    apply exec_invariant_along _ hinit hfresh h
    intro s ev s' hs hev hs'
    obtain ⟨-, rfl⟩ := step_eq_some.mp hs'
    exact hs.step hev (handle_change s ev)
  exact ⟨htracked.keys .senders, htracked.keys .receivers, htracked.served⟩

/-- A file is sent and finished, and its number handed out for another. -/
def sentTwice : List Event :=
  [.addFriend 0 [49], .sendFileRequest 0 [47, 97, 47, 120] (some 0) true, .chunkRequest 0 0 100 true,
    .chunkRequest 0 0 0 true, .sendFileRequest 0 [47, 97, 47, 121] (some 0) true,
    .chunkRequest 0 0 100 true]

theorem sentTwice_keysUnique : ∃ s, exec (step true) init sentTwice = some s ∧ s.KeysUnique ∧
    s.acts.head? = some (.served 0 0 (some [47, 97, 47, 121])) := by
  obtain ⟨s, hs⟩ := Option.isSome_iff_exists.mp
    (show (exec (step true) init sentTwice).isSome by rfl)
  have hfresh : Along (step true) KeysFresh init sentTwice := by decide
  refine ⟨s, hs, exec_keysUnique hfresh hs, ?_⟩
  cases hs
  rfl

/-- A transfer that ends with the connection of the friend leaves its tracker behind. Chunks of the
next file with its number are then read from the old one. -/
theorem dropped_not_keysUnique : ∃ s, exec (step true) init
    [.addFriend 0 [49], .friendConnection 0 true,
      .sendFileRequest 0 [47, 97, 47, 120] (some 0) true, .friendConnection 0 false,
      .friendConnection 0 true, .sendFileRequest 0 [47, 97, 47, 121] (some 0) true,
      .chunkRequest 0 0 100 true] = some s ∧
      s.acts.head? = some (.served 0 0 (some [47, 97, 47, 120])) ∧ ¬s.KeysUnique := by
  refine ⟨_, rfl, rfl, ?_⟩
  intro h
  exact absurd h.senders (by decide)

end Files

end Carrier.Core
