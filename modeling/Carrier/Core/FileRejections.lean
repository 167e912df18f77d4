import Carrier.Core.FileControls

/-! What a cancel of the peer removes, and what the user is told of it. Both callbacks are set, and
make no calls themselves. -/
namespace Carrier.Core
open Carrier.Lib FileTracker

/-- A call of `file_canceled` or `file_rejected`. -/
inductive FileReport where
  | canceled (f n : ℕ)
  | rejected (f n : ℕ)
  deriving DecidableEq

/-- The tables with the entries that controls of the peer have removed, and the calls so far. -/
structure Reports where
  controls : Controls
  calls : List FileReport

namespace Reports

def init : Reports := ⟨.start .init, []⟩

def files (r : Reports) : Files := r.controls.files

def report (r : Reports) (call : FileReport) : Reports := { r with calls := r.calls ++ [call] }

/-- What changes the tables only. -/
def onFiles (r : Reports) (body : Files → Files) : Reports :=
  { r with controls := { r.controls with files := body r.files } }

def notifyFileCanceledCb (r : Reports) (f : FriendArg) (n : ℕ) : Reports :=
  match r.files.friendsGet f with
  | (none, _) => r
  | (some _, files) =>
    { r with controls := Controls.cancel { r.controls with files := files } f.number n }.report
      (.canceled f.number n)

def notifyFileRejectedCb (r : Reports) (f : FriendArg) (n : ℕ) : Reports :=
  match r.files.friendsGet f with
  | (none, _) => r
  | (some _, files) =>
    let (i, c) := Controls.find { r.controls with files := files } .senders f.number n
    if i = none then { r with controls := c }
    else { r with controls := c.remove .senders i }.report (.rejected f.number n)

/-- `notify_file_control_cb` of `dht/dht.c`; `behind` is on the stack of the second callback. -/
def notifyFileControlCb (r : Reports) (f : FriendArg) (behind : Bytes) (n : ℕ) :
    Files.FileControl → Reports
  | .cancel => (r.notifyFileCanceledCb f n).notifyFileRejectedCb (f.again behind) n
  | control => r.onFiles (·.notifyFileControlCb f behind n control)

def handle (r : Reports) : Files.Event → Reports
  | .fileControl f behind n control => r.notifyFileControlCb f behind n control
  | ev => r.onFiles (·.handle ev)

def step (asserts : Bool) (r : Reports) (ev : Files.Event) : Option Reports :=
  if r.files.Completes asserts ev then some (r.handle ev) else none

/-- The entries of the trackers of a transfer that we send. -/
def senderAddrs (r : Reports) (f n : ℕ) : List ℕ :=
  (r.files.senders.filter (·.hasKey f n)).map addr

/-- The rejection of a transfer is reported once, and every tracker of it removed once. -/
def RejectedOnce (r r' : Reports) (f n : ℕ) : Prop :=
  r'.calls.count (.rejected f n) = r.calls.count (.rejected f n) + 1 ∧
    ∀ a ∈ r.senderAddrs f n,
      r'.controls.removed.count (some a) = r.controls.removed.count (some a) + 1

/-- Whenever the peer cancels a transfer that has a tracker, its rejection is reported; and a request of
ours comes to its end. -/
def ReportsRejection (asserts : Bool) (r : Reports) (ev : Files.Event) : Prop :=
  match ev with
  | .fileControl f _ n .cancel => r.senderAddrs f.number n ≠ [] →
      ∃ r', r.step asserts ev = some r' ∧ r.RejectedOnce r' f.number n
  | .sendFileRequest _ _ _ _ => ∃ r', r.step asserts ev = some r'
  | _ => True

/-- The friend of a lookup is in the table. -/
def Knows (r : Reports) (f : FriendArg) : Prop := r.files.friends f.code ≠ none

instance (r : Reports) (f : FriendArg) : Decidable (r.Knows f) := inferInstanceAs (Decidable (_ ≠ _))

/-- How many trackers of a transfer the two handlers take out. -/
def taken (r : Reports) (f : FriendArg) (n : ℕ) : ℕ := if r.Knows f ∧ isSender n then 2 else 1

/-- `notify_file_canceled_cb` leaves a tracker for `notify_file_rejected_cb`, and this one none; where
the first one looks among the receivers, it has one to remove or there are no assertions. A request
has a directory that fits. -/
def LeavesOne (asserts : Bool) (r : Reports) : Files.Event → Prop
  | .fileControl f behind n .cancel => r.senderAddrs f.number n ≠ [] →
      r.Knows (f.again behind) ∧ (r.senderAddrs f.number n).length = r.taken f n ∧
        (asserts → ¬isSender n → r.Knows f → ∃ t ∈ r.files.receivers, t.hasKey f.number n)
  | .sendFileRequest _ fullpath (some _) true => (dirPart fullpath).length ≤ maxFileNameLen
  | _ => True

end Reports

def keyedAddrs (f n : ℕ) (l : List FileTracker) : List ℕ := (l.filter (·.hasKey f n)).map addr

theorem findFileTracker_addr (f n : ℕ) (l : List FileTracker) :
    ((findFileTracker f n l).1.bind ((findFileTracker f n l).2[·]?)).map addr =
      (keyedAddrs f n l).head? := by
  have hcore := congrArg (Option.map addr) (Files.findFileTracker_core f n l)
  simp only [Option.map_map] at hcore
  rw [keyedAddrs, List.head?_map, List.head?_filter]
  exact hcore

theorem findFileTracker_eq_none {f n : ℕ} {l : List FileTracker} :
    (findFileTracker f n l).1 = none ↔ keyedAddrs f n l = [] := by
  constructor
  · intro hnone
    have haddr := findFileTracker_addr f n l
    rw [hnone] at haddr
    exact List.head?_eq_none_iff.mp haddr.symm
  · intro hempty
    apply findFileTracker_none
    rw [keyedAddrs, List.map_eq_nil_iff, List.filter_eq_nil_iff] at hempty
    intro t ht
    exact Bool.eq_false_of_not_eq_true (hempty t ht)

/-- A removal of what a lookup has found leaves the others with the key. -/
theorem keyedAddrs_eraseIdx (f n : ℕ) (l : List FileTracker) :
    keyedAddrs f n ((findFileTracker f n l).1.elim (findFileTracker f n l).2
      (findFileTracker f n l).2.eraseIdx) = (keyedAddrs f n l).tail := by
  induction l with
  | nil => rfl
  | cons t l ih =>
    unfold findFileTracker
    cases hkey : t.hasKey f n with
    | true => simp [keyedAddrs, hkey]
    | false =>
      have hcons : ∀ l, keyedAddrs f n (t.ref :: l) = keyedAddrs f n l := by
        intro l
        have href : t.ref.hasKey f n = false := hkey
        rw [keyedAddrs, List.filter_cons, href]
        rfl
      have htail : keyedAddrs f n (t :: l) = keyedAddrs f n l := by
        rw [keyedAddrs, List.filter_cons, hkey]
        rfl
      rw [if_neg Bool.false_ne_true, htail, ← ih]
      obtain ⟨i, rest⟩ := findFileTracker f n l
      cases i with
      | none => exact hcons _
      | some i => exact hcons _

/-- Of distinct entries all are among the first `k` only if there are no more. -/
theorem forall_mem_take_iff {l : List ℕ} (h : l.Nodup) (k : ℕ) :
    (∀ a ∈ l, a ∈ l.take k) ↔ l.length ≤ k := by
  constructor
  · intro hall
    by_contra hlt
    have hk : k < l.length := not_le.mp hlt
    obtain ⟨i, hi, heq⟩ := List.mem_take_iff_getElem.mp (hall l[k] (List.getElem_mem hk))
    have hik := (h.getElem_inj_iff).mp heq
    omega
  · intro hle a ha
    rwa [List.take_of_length_le hle]

namespace Files

theorem list_remove (s : Files) (l : FileList) (i : Option ℕ) (l' : FileList) :
    (s.remove l i).list l' = if l' = l then i.elim (s.list l) (s.list l).eraseIdx else s.list l' := by
  cases i with
  | none =>
    split_ifs with hl
    · rw [hl]
      rfl
    · rfl
  | some i =>
    cases ht : (s.list l)[i]? with
    | none =>
      have hout : (s.list l).length ≤ i := List.getElem?_eq_none_iff.mp ht
      simp only [remove, ht, Option.elim_some]
      split_ifs with hl
      · rw [hl, List.eraseIdx_of_length_le hout]
      · rfl
    | some t =>
      rw [← list_setList s l l']
      simp only [remove, ht]
      split_ifs
      · rfl
      · cases l' <;> rfl

@[simp] theorem remove_friends (s : Files) (l : FileList) (i : Option ℕ) :
    (s.remove l i).friends = s.friends := by
  cases i with
  | none => rfl
  | some i =>
    cases ht : (s.list l)[i]? with
    | none => simp only [remove, ht]
    | some t =>
      simp only [remove, ht]
      split_ifs
      · exact setList_friends ..
      · exact setList_friends ..

theorem list_unlinkFile (s : Files) (i : Option ℕ) (l : FileList) :
    (s.unlinkFile i).list l = s.list l := by
  unfold unlinkFile
  split
  · rfl
  · exact list_act ..

@[simp] theorem unlinkFile_friends (s : Files) (i : Option ℕ) :
    (s.unlinkFile i).friends = s.friends := by
  unfold unlinkFile
  split <;> rfl

end Files

namespace Controls

theorem list_find (c : Controls) (l : FileList) (f n : ℕ) :
    (c.find l f n).2.files.list l = (findFileTracker f n (c.files.list l)).2 := by
  simp [find, Files.find]

/-- The entry that is removed is that of the first tracker with the key. -/
theorem removed_remove_find (c c' : Controls) (l : FileList) (f n : ℕ)
    (hlist : c'.files.list l = (c.find l f n).2.files.list l) (hremoved : c'.removed = c.removed) :
    (c'.remove l (c.find l f n).1).removed =
      c.removed ++ [(keyedAddrs f n (c.files.list l)).head?] := by
  rw [remove, hremoved, hlist, list_find]
  exact congrArg (c.removed ++ [·]) (findFileTracker_addr f n (c.files.list l))

/-- The other trackers with the key stay. -/
theorem keyedAddrs_remove_find (c c' : Controls) (l : FileList) (f n : ℕ)
    (hlist : c'.files.list l = (c.find l f n).2.files.list l) :
    keyedAddrs f n ((c'.remove l (c.find l f n).1).files.list l) =
      (keyedAddrs f n (c.files.list l)).tail := by
  change keyedAddrs f n ((c'.files.remove l (c.find l f n).1).list l) = _
  rw [Files.list_remove, if_pos rfl, hlist, list_find]
  exact keyedAddrs_eraseIdx f n (c.files.list l)

/-- A cancellation takes out the first tracker, of the list that the number belongs to. -/
theorem cancel_sender {f n : ℕ} (hsender : isSender n) (c : Controls) :
    (c.cancel f n).removed = c.removed ++ [(keyedAddrs f n c.files.senders).head?] ∧
      keyedAddrs f n (c.cancel f n).files.senders = (keyedAddrs f n c.files.senders).tail := by
  unfold cancel
  rw [if_pos hsender]
  constructor
  · exact removed_remove_find c _ .senders f n rfl rfl
  · exact keyedAddrs_remove_find c _ .senders f n rfl

theorem cancel_receiver {f n : ℕ} (hsender : ¬isSender n) (c : Controls) :
    (c.cancel f n).removed = c.removed ++ [(keyedAddrs f n c.files.receivers).head?] ∧
      (c.cancel f n).files.senders = c.files.senders := by
  unfold cancel
  rw [if_neg hsender]
  constructor
  · exact removed_remove_find c _ .receivers f n (Files.list_unlinkFile ..) rfl
  · have hremove := Files.list_remove ((c.find .receivers f n).2.files.unlinkFile
      (c.find .receivers f n).1) .receivers (c.find .receivers f n).1 .senders
    rw [if_neg (by decide), Files.list_unlinkFile] at hremove
    exact hremove

theorem cancel_friends (c : Controls) (f n : ℕ) : (c.cancel f n).files.friends = c.files.friends := by
  unfold cancel
  split_ifs
  · exact (Files.remove_friends ..).trans (Files.setList_friends ..)
  · exact ((Files.remove_friends ..).trans (Files.unlinkFile_friends ..)).trans
      (Files.setList_friends ..)

end Controls

/-- No two trackers lie at one address. -/
structure Files.AddrsDistinct (s : Files) : Prop where
  nodup : ((s.senders ++ s.receivers).map addr).Nodup
  fresh : ∀ t ∈ s.senders ++ s.receivers, t.addr < s.nextAddr

namespace Files.AddrsDistinct

variable {s s' : Files}

theorem trims (h : s.AddrsDistinct) (htrims : Trims s s') : s'.AddrsDistinct := by
  have hsub : List.Sublist ((s'.senders ++ s'.receivers).map addr)
      ((s.senders ++ s.receivers).map addr) := by
    have hcore := ((htrims.lists .senders).append (htrims.lists .receivers)).map addr
    rw [← List.map_append, ← List.map_append, List.map_map, List.map_map] at hcore
    exact hcore
  constructor
  · exact h.nodup.sublist hsub
  · intro t ht
    obtain ⟨u, hu, haddr⟩ := List.mem_map.mp (hsub.subset (List.mem_map_of_mem ht))
    rw [htrims.nextAddr, ← haddr]
    exact h.fresh u hu

theorem add (h : s.AddrsDistinct) (l : FileList) {t : FileTracker} (ht : t.addr = s.nextAddr) :
    (s.add l t).AddrsDistinct := by
  have hperm : ((s.add l t).senders ++ (s.add l t).receivers).Perm
      (t :: (s.senders ++ s.receivers)) := by
    cases l with
    | senders =>
      change (s.senders ++ [t] ++ s.receivers).Perm _
      rw [List.append_assoc]
      exact List.perm_middle
    | receivers =>
      change (s.senders ++ (s.receivers ++ [t])).Perm _
      rw [← List.append_assoc]
      exact List.perm_append_singleton t _
  constructor
  · rw [(hperm.map addr).nodup_iff, List.map_cons, List.nodup_cons]
    refine ⟨?_, h.nodup⟩
    intro hmem
    obtain ⟨u, hu, haddr⟩ := List.mem_map.mp hmem
    have hlt := h.fresh u hu
    omega
  · intro u hu
    change u.addr < s.nextAddr + 1
    obtain rfl | hu := List.mem_cons.mp (hperm.mem_iff.mp hu)
    · omega
    · exact (h.fresh u hu).trans (Nat.lt_succ_self _)

theorem set (h : s.AddrsDistinct) {i : ℕ} {t : FileTracker} (ht : s.receivers[i]? = some t)
    (t' : FileTracker) (haddr : t'.addr = t.addr) : AddrsDistinct { s with receivers := s.receivers.set i t' } := by
  have hsame : (s.senders ++ s.receivers.set i t').map addr = (s.senders ++ s.receivers).map addr := by
    rw [List.map_append, List.map_append, map_set_of_eq t' ht haddr]
  constructor
  · rw [hsame]
    exact h.nodup
  · intro u hu
    have hmem : u.addr ∈ (s.senders ++ s.receivers).map addr := by
      rw [← hsame]
      exact List.mem_map_of_mem hu
    obtain ⟨v, hv, hvaddr⟩ := List.mem_map.mp hmem
    rw [← hvaddr]
    exact h.fresh v hv

theorem act (h : s.AddrsDistinct) (a : FileAct) : (s.act a).AddrsDistinct := ⟨h.nodup, h.fresh⟩

theorem handle (h : s.AddrsDistinct) (ev : Event) : (s.handle ev).AddrsDistinct := by
  generalize hs' : s.handle ev = s'
  have hchange := handle_change s ev
  rw [hs'] at hchange
  cases hchange with
  | quiet hquiet => exact h.trims hquiet.trims
  | unlink hev ht htrims hacts => exact h.trims htrims
  | serve hknown hlength ht hkey htrims hacts => exact h.trims htrims
  | request => exact h.act _
  | addSender => exact (h.act _).add .senders rfl
  | addReceiver hknown hquiet => exact (h.trims hquiet.trims).add .receivers rfl
  | @update f n i filename filepath sent m t hquiet ht =>
    have hset := (h.trims hquiet.trims).set ht (updateFileReceiverPath t filename filepath) rfl
    exact hset.act _

end Files.AddrsDistinct

namespace Reports

variable {r : Reports} {f n : ℕ}

/-- A lookup that finds its friend takes a reference. -/
theorem friendsGet_known {f : FriendArg} (h : r.Knows f) : ∃ fi files,
    r.files.friendsGet f = (some fi, files) ∧
      (∀ c, files.friends c ≠ none ↔ r.files.friends c ≠ none) ∧
      ∀ l, files.list l = r.files.list l := by
  obtain ⟨fi, hfi⟩ := Option.ne_none_iff_exists'.mp h
  have hget : r.files.friendsGet f = (some { fi with refs := fi.refs + 1 },
      r.files.putFriend f.code (some { fi with refs := fi.refs + 1 })) := by
    rw [Files.friendsGet, hfi]
  refine ⟨_, _, hget, ?_, fun l => Files.list_putFriend ..⟩
  intro c
  rw [Files.putFriend_friends]
  split_ifs with hc
  · rw [hc, hfi]
    exact iff_of_true (Option.some_ne_none _) (Option.some_ne_none _)
  · exact Iff.rfl

theorem friendsGet_unknown {f : FriendArg} (h : ¬r.Knows f) :
    r.files.friendsGet f = (none, r.files) := by
  rw [Files.friendsGet, not_not.mp h]

theorem notifyFileCanceledCb_unknown {f : FriendArg} (h : ¬r.Knows f) :
    r.notifyFileCanceledCb f n = r := by
  unfold notifyFileCanceledCb
  rw [friendsGet_unknown h]

theorem notifyFileRejectedCb_unknown {f : FriendArg} (h : ¬r.Knows f) :
    r.notifyFileRejectedCb f n = r := by
  unfold notifyFileRejectedCb
  rw [friendsGet_unknown h]

/-- The second handler, for a friend that is known. -/
theorem notifyFileRejectedCb_known {f : FriendArg} (h : r.Knows f) :
    if r.senderAddrs f.number n = [] then
      (r.notifyFileRejectedCb f n).calls = r.calls ∧
        (r.notifyFileRejectedCb f n).controls.removed = r.controls.removed
    else
      (r.notifyFileRejectedCb f n).calls = r.calls ++ [.rejected f.number n] ∧
        (r.notifyFileRejectedCb f n).controls.removed =
          r.controls.removed ++ [(r.senderAddrs f.number n).head?] := by
  obtain ⟨fi, files, hget, -, hlist⟩ := friendsGet_known h
  have hsame : files.senders = r.files.senders := hlist .senders
  have hnone : (Controls.find { r.controls with files := files } .senders f.number n).1 = none ↔
      r.senderAddrs f.number n = [] := by
    rw [senderAddrs, ← hsame]
    exact findFileTracker_eq_none
  unfold notifyFileRejectedCb
  rw [hget]
  dsimp only
  split_ifs with hempty hmissing hmissing
  · exact ⟨rfl, rfl⟩
  · exact absurd (hnone.mpr hempty) hmissing
  · exact absurd (hnone.mp hmissing) hempty
  · refine ⟨rfl, ?_⟩
    have hremoved := Controls.removed_remove_find { r.controls with files := files } _ .senders
      f.number n rfl rfl
    rw [hlist] at hremoved
    exact hremoved

/-- The first handler, for a friend that is known. -/
theorem notifyFileCanceledCb_known {f : FriendArg} (h : r.Knows f) : ∃ c : Controls,
    c.removed = r.controls.removed ∧ (∀ l, c.files.list l = r.files.list l) ∧
      (∀ k, c.files.friends k ≠ none ↔ r.files.friends k ≠ none) ∧
      r.notifyFileCanceledCb f n = ⟨c.cancel f.number n, r.calls ++ [.canceled f.number n]⟩ := by
  obtain ⟨fi, files, hget, hknown, hlist⟩ := friendsGet_known h
  refine ⟨{ r.controls with files := files }, rfl, hlist, hknown, ?_⟩
  unfold notifyFileCanceledCb
  rw [hget]
  rfl

theorem knows_notifyFileCanceledCb (f g : FriendArg) :
    (r.notifyFileCanceledCb f n).Knows g ↔ r.Knows g := by
  by_cases hf : r.Knows f
  · obtain ⟨c, -, -, hfriend, hcanceled⟩ := notifyFileCanceledCb_known (n := n) hf
    rw [hcanceled]
    change (c.cancel f.number n).files.friends g.code ≠ none ↔ _
    rw [Controls.cancel_friends]
    exact hfriend g.code
  · rw [notifyFileCanceledCb_unknown hf]

/-- What the two handlers have done to a transfer: the first `k` trackers are removed, and the call is
made if there are as many. -/
def Handled (r r' : Reports) (f n k : ℕ) : Prop :=
  ∃ extra reports, (∀ a ∈ r.senderAddrs f n, some a ∉ extra) ∧ .rejected f n ∉ reports ∧
    r'.controls.removed = r.controls.removed ++ extra ++ ((r.senderAddrs f n).take k).map some ∧
    r'.calls = r.calls ++ reports ++
      if k ≤ (r.senderAddrs f n).length then [.rejected f n] else []

/-- The first handler does nothing, and the second takes the first tracker. -/
theorem handled_second {f : FriendArg} {behind : Bytes} (hf : ¬r.Knows f)
    (hagain : r.Knows (f.again behind)) (hne : r.senderAddrs f.number n ≠ []) :
    r.Handled ((r.notifyFileCanceledCb f n).notifyFileRejectedCb (f.again behind) n) f.number n 1 := by
  have hrejected := notifyFileRejectedCb_known (n := n) hagain
  rw [notifyFileCanceledCb_unknown hf]
  obtain ⟨a, rest, hA⟩ := List.exists_cons_of_ne_nil hne
  change if r.senderAddrs f.number n = [] then _ else _ at hrejected
  rw [if_neg hne] at hrejected
  refine ⟨[], [], by simp, by simp, ?_, ?_⟩
  · rw [hrejected.2]
    change _ ++ [(r.senderAddrs f.number n).head?] = _
    simp [hA]
  · rw [hrejected.1]
    simp [hA, FriendArg.again]

/-- Both handlers together take the first trackers out. -/
theorem handled_both {f : FriendArg} {behind : Bytes} (hf : r.Knows f)
    (hagain : r.Knows (f.again behind)) (hne : r.senderAddrs f.number n ≠ [])
    (hdistinct : ∀ a ∈ r.senderAddrs f.number n, a ∉ r.files.receivers.map addr) :
    r.Handled ((r.notifyFileCanceledCb f n).notifyFileRejectedCb (f.again behind) n) f.number n
      (if isSender n then 2 else 1) := by
  obtain ⟨c, hremoved, hlist, -, hcanceled⟩ := notifyFileCanceledCb_known (n := n) hf
  have hsenders : keyedAddrs f.number n c.files.senders = r.senderAddrs f.number n :=
    congrArg (keyedAddrs f.number n) (hlist .senders)
  have hknown := (knows_notifyFileCanceledCb (n := n) f (f.again behind)).mpr hagain
  rw [hcanceled] at hknown
  have hrejected := notifyFileRejectedCb_known (n := n) hknown
  have hother : FileReport.rejected f.number n ∉ [.canceled f.number n] := by simp
  rw [hcanceled]
  obtain ⟨a, rest, hA⟩ := List.exists_cons_of_ne_nil hne
  by_cases hsender : isSender n
  · obtain ⟨hfirst, hleft⟩ := Controls.cancel_sender hsender c
    rw [hsenders, hA, hremoved] at hfirst
    rw [hsenders, hA] at hleft
    have hleft' : (Reports.mk (c.cancel f.number n) (r.calls ++ [.canceled f.number n])).senderAddrs
        (f.again behind).number n = rest := hleft
    refine ⟨[], [.canceled f.number n], by simp, hother, ?_⟩
    rw [hleft'] at hrejected
    rw [hA, if_pos hsender]
    cases rest with
    | nil =>
      rw [if_pos rfl] at hrejected
      rw [hrejected.1, hrejected.2]
      simp [hfirst]
    | cons b rest =>
      rw [if_neg (List.cons_ne_nil b rest)] at hrejected
      rw [hrejected.1, hrejected.2]
      simp [hfirst, FriendArg.again]
  · obtain ⟨hfirst, hsame⟩ := Controls.cancel_receiver hsender c
    have hreceivers : c.files.receivers = r.files.receivers := hlist .receivers
    rw [hremoved, hreceivers] at hfirst
    have hleft : (Reports.mk (c.cancel f.number n) (r.calls ++ [.canceled f.number n])).senderAddrs
        (f.again behind).number n = a :: rest := by
      rw [← hA, ← hsenders, ← hsame]
      rfl
    refine ⟨[(keyedAddrs f.number n r.files.receivers).head?], [.canceled f.number n], ?_, hother, ?_⟩
    · intro b hb hmem
      apply hdistinct b hb
      obtain ⟨t, ht, hb'⟩ := List.mem_map.mp
        (List.mem_of_mem_head? (List.mem_singleton.mp hmem).symm)
      exact List.mem_map.mpr ⟨t, List.mem_of_mem_filter ht, hb'⟩
    · rw [hleft, if_neg (List.cons_ne_nil a rest)] at hrejected
      rw [hA, if_neg hsender, hrejected.1, hrejected.2]
      simp [hfirst, FriendArg.again]

/-- Of distinct entries, all have been removed once more if none is beyond the first ones. -/
theorem forall_count_iff {A : List ℕ} (hA : A.Nodup) {removed extra : List (Option ℕ)}
    (hextra : ∀ a ∈ A, some a ∉ extra) (k : ℕ) :
    (∀ a ∈ A, (removed ++ extra ++ (A.take k).map some).count (some a) =
      removed.count (some a) + 1) ↔ A.length ≤ k := by
  rw [← forall_mem_take_iff hA]
  apply forall₂_congr
  intro a ha
  have hzero : extra.count (some a) = 0 := List.count_eq_zero.mpr (hextra a ha)
  have hmap : ((A.take k).map some).count (some a) = (A.take k).count a :=
    List.count_map_of_injective _ some (Option.some_injective ℕ) a
  have htake : (A.take k).Nodup := hA.sublist (List.take_sublist k A)
  rw [List.count_append, List.count_append, hzero, hmap, htake.count]
  split_ifs with hmem <;> simp [hmem]

/-- Where the handlers take out `k` trackers, there have to be as many. -/
theorem Handled.rejectedOnce_iff {r' : Reports} {k : ℕ} (h : r.Handled r' f n k)
    (hnodup : (r.senderAddrs f n).Nodup) :
    r.RejectedOnce r' f n ↔ (r.senderAddrs f n).length = k := by
  obtain ⟨extra, reports, hextra, hreports, hremoved, hcalls⟩ := h
  have hcount : ∀ l, (r.calls ++ reports ++ l).count (.rejected f n) =
      r.calls.count (.rejected f n) + l.count (.rejected f n) := by
    intro l
    rw [List.count_append, List.count_append, List.count_eq_zero.mpr hreports, Nat.add_zero]
  rw [RejectedOnce, hremoved, hcalls, hcount, forall_count_iff hnodup hextra]
  split_ifs with hle
  · rw [List.count_singleton_self]
    omega
  · rw [List.count_nil]
    omega

theorem not_rejectedOnce {f : FriendArg} {behind : Bytes} (hagain : ¬r.Knows (f.again behind)) :
    ¬r.RejectedOnce ((r.notifyFileCanceledCb f n).notifyFileRejectedCb (f.again behind) n)
      f.number n := by
  intro honce
  have hunknown : ¬(r.notifyFileCanceledCb f n).Knows (f.again behind) := by
    rwa [knows_notifyFileCanceledCb]
  have hcount := honce.1
  rw [notifyFileRejectedCb_unknown hunknown] at hcount
  by_cases hf : r.Knows f
  · obtain ⟨c, -, -, -, hcanceled⟩ := notifyFileCanceledCb_known (n := n) hf
    rw [hcanceled, List.count_append] at hcount
    simp at hcount
  · rw [notifyFileCanceledCb_unknown hf] at hcount
    omega

/-- The state before a cancel decides whether the rejection is reported. -/
theorem rejectedOnce_iff {f : FriendArg} (behind : Bytes) (hne : r.senderAddrs f.number n ≠ [])
    (hnodup : (r.senderAddrs f.number n).Nodup)
    (hdistinct : ∀ a ∈ r.senderAddrs f.number n, a ∉ r.files.receivers.map addr) :
    r.RejectedOnce ((r.notifyFileCanceledCb f n).notifyFileRejectedCb (f.again behind) n) f.number n ↔
      r.Knows (f.again behind) ∧ (r.senderAddrs f.number n).length = r.taken f n := by
  by_cases hagain : r.Knows (f.again behind)
  · rw [and_iff_right hagain]
    by_cases hf : r.Knows f
    · have htaken : r.taken f n = if isSender n then 2 else 1 := by
        unfold taken
        simp only [hf, true_and]
      rw [htaken]
      exact (handled_both hf hagain hne hdistinct).rejectedOnce_iff hnodup
    · have htaken : r.taken f n = 1 := if_neg (fun h => hf h.1)
      rw [htaken]
      exact (handled_second hf hagain hne).rejectedOnce_iff hnodup
  · exact iff_of_false (not_rejectedOnce hagain) (fun h => hagain h.1)

theorem files_handle (r : Reports) (ev : Files.Event) : (r.handle ev).files = r.files.handle ev := by
  have hcanceled : ∀ r : Reports, ∀ f n,
      (r.notifyFileCanceledCb f n).files = r.files.notifyFileCanceledCb f n := by
    intro r f n
    change _ = r.controls.files.notifyFileCanceledCb f n
    rw [← Controls.files_notifyFileCanceledCb]
    unfold notifyFileCanceledCb Controls.notifyFileCanceledCb files
    cases hget : r.controls.files.friendsGet f with
    | mk fi files => cases fi <;> rfl
  have hrejected : ∀ r : Reports, ∀ f n,
      (r.notifyFileRejectedCb f n).files = r.files.notifyFileRejectedCb f n := by
    intro r f n
    change _ = r.controls.files.notifyFileRejectedCb f n
    rw [← Controls.files_notifyFileRejectedCb]
    unfold notifyFileRejectedCb Controls.notifyFileRejectedCb files
    cases hget : r.controls.files.friendsGet f with
    | mk fi files =>
      cases fi with
      | none => rfl
      | some fi =>
        dsimp only
        split_ifs <;> rfl
  cases ev with
  | fileControl f behind n control =>
    cases control with
    | cancel =>
      change ((r.notifyFileCanceledCb f n).notifyFileRejectedCb (f.again behind) n).files = _
      rw [hrejected, hcanceled]
      rfl
    | pause => rfl
    | resume => rfl
  | _ => rfl

theorem step_eq_some {asserts : Bool} {r r' : Reports} {ev : Files.Event} :
    r.step asserts ev = some r' ↔ r.files.Completes asserts ev ∧ r.handle ev = r' := by
  unfold step
  split_ifs with h <;> simp [h]

/-- A cancellation of a transfer that has a tracker has none to remove only among the receivers. -/
theorem completes_cancel_iff (asserts : Bool) {f : FriendArg} (behind : Bytes)
    (hne : r.senderAddrs f.number n ≠ []) :
    r.files.Completes asserts (.fileControl f behind n .cancel) ↔
      (asserts → ¬isSender n → r.Knows f → ∃ t ∈ r.files.receivers, t.hasKey f.number n) := by
  have hmissing : r.files.Missing f.number n ↔
      ¬isSender n ∧ keyedAddrs f.number n r.files.receivers = [] := by
    unfold Files.Missing Files.findByNumber Files.find
    by_cases hsender : isSender n
    · have hfound : ¬(findFileTracker f.number n (r.files.list .senders)).1 = none :=
        fun hnone => hne (findFileTracker_eq_none.mp hnone)
      simpa [hsender] using hfound
    · rw [if_neg hsender, and_iff_right hsender]
      exact findFileTracker_eq_none
  have hkeyed : keyedAddrs f.number n r.files.receivers ≠ [] ↔
      ∃ t ∈ r.files.receivers, t.hasKey f.number n := by
    rw [keyedAddrs, ne_eq, List.map_eq_nil_iff, List.filter_eq_nil_iff]
    simp
  change (asserts → r.Knows f → ¬r.files.Missing f.number n) ↔ _
  rw [hmissing, ← hkeyed]
  tauto

theorem reportsRejection_iff {asserts : Bool} {r : Reports} (h : r.files.AddrsDistinct)
    (ev : Files.Event) : r.ReportsRejection asserts ev ↔ r.LeavesOne asserts ev := by
  cases ev with
  | fileControl f behind n control =>
    cases control with
    | cancel =>
      have hnodup := h.nodup
      rw [List.map_append, List.nodup_append] at hnodup
      obtain ⟨hsenders, -, hdisjoint⟩ := hnodup
      have hsub : ∀ a ∈ r.senderAddrs f.number n, a ∈ r.files.senders.map addr := by
        intro a ha
        exact (List.filter_sublist.map addr).subset ha
      apply imp_congr_right
      intro hne
      have honce := rejectedOnce_iff behind hne
        (hsenders.sublist (List.filter_sublist.map addr))
        (fun a ha hreceiver => hdisjoint a (hsub a ha) a hreceiver rfl)
      rw [← completes_cancel_iff asserts behind hne, ← and_assoc, ← honce]
      constructor
      · rintro ⟨r', hr', h⟩
        obtain ⟨hcompletes, rfl⟩ := step_eq_some.mp hr'
        exact ⟨h, hcompletes⟩
      · rintro ⟨h, hcompletes⟩
        exact ⟨_, step_eq_some.mpr ⟨hcompletes, rfl⟩, h⟩
    | pause => exact Iff.rfl
    | resume => exact Iff.rfl
  | sendFileRequest f fullpath number alloc =>
    have hstep : r.ReportsRejection asserts (.sendFileRequest f fullpath number alloc) ↔
        r.files.Completes asserts (.sendFileRequest f fullpath number alloc) := by
      unfold ReportsRejection
      simp only [step_eq_some, exists_and_left, exists_eq', and_true]
    rw [hstep]
    cases number <;> cases alloc <;> exact Iff.rfl
  | _ => exact Iff.rfl

/-- A run reports all rejections exactly if every cancel that finds a tracker leaves one for the
second handler. -/
theorem along_reportsRejection_iff (asserts : Bool) (events : List Files.Event) :
    Along (step asserts) (ReportsRejection asserts) init events ↔
      Along (step asserts) (LeavesOne asserts) init events := by
  have hinit : init.files.AddrsDistinct := by
    constructor
    · exact List.nodup_nil
    · intro t ht
      cases ht
  apply along_congr (I := fun r => r.files.AddrsDistinct) _ _ hinit
  · intro r ev r' hr hstep
    obtain ⟨-, rfl⟩ := step_eq_some.mp hstep
    rw [files_handle]
    exact hr.handle ev
  · intro r ev hr
    exact reportsRejection_iff hr ev

/-- The peer cancels the only transfer there is. -/
def cancelSender : List Files.Event :=
  [.addFriend 0 [49], .sendFileRequest 0 [120] (some 0) true, .fileControl 0 [] 0 .cancel]

theorem cancelSender_not_reported : ¬Along (step true) (ReportsRejection true) init cancelSender := by
  intro h
  obtain ⟨r', hr', honce⟩ := ((h.2 _ rfl).2 _ rfl).1 (by decide)
  cases hr'
  exact absurd honce.1 (by decide)

end Reports

end Carrier.Core
