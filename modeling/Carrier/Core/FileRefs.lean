import Carrier.Core.FileTransfers

/-! The reference counts of friends and file trackers between calls and callbacks. -/
namespace Carrier.Core
open Carrier.Lib

namespace Files

/-- Every object is referenced by the table or list it is in, and by nothing else. -/
structure Balanced (s : Files) : Prop where
  friends : ∀ c fi, s.friends c = some fi → fi.refs = 1
  trackers : ∀ l, ∀ t ∈ s.list l, t.refs = 1
  lostFriends : s.lostFriends = []
  lostTrackers : s.lostTrackers = []

/-- What is in a table or list is referenced. -/
structure Positive (s : Files) : Prop where
  friends : ∀ c fi, s.friends c = some fi → 1 ≤ fi.refs
  trackers : ∀ l, ∀ t ∈ s.list l, 1 ≤ t.refs

/-- No friend is looked up by a callback that does not give the reference back, and no tracker is
passed by a lookup. -/
def GivesBack (s : Files) : Event → Prop
  | .addFriend _ _ | .removeFriend _ _ | .friendConnection _ _ | .sendFileRequest _ _ _ _ => True
  | .friendStatus f status => s.friends f.code = none ∨ 0 ≤ status ∧ status ≤ 2
  | .fileRequest f _ _ _ | .fileControl f _ _ .pause | .chunkRequest f _ _ _ | .chunkReceive f _ _ =>
    s.friends f.code = none
  | .fileControl f behind _ _ =>
    s.friends f.code = none ∧ s.friends (f.again behind).code = none
  | .sendFileSeek _ _ | .sendFileReject _ _ => s.receivers = []
  | .sendFileAccept _ _ _ _ writable _ => writable → s.receivers = []
  | .sendFilePause _ n | .sendFileCancel _ n =>
    s.list (if isSender n then .senders else .receivers) = []

instance GivesBack.decidable (s : Files) : ∀ ev, Decidable (s.GivesBack ev)
  | .addFriend _ _ | .removeFriend _ _ | .friendConnection _ _ | .sendFileRequest _ _ _ _ =>
    inferInstanceAs (Decidable True)
  | .friendStatus _ _ => inferInstanceAs (Decidable (_ ∨ _))
  | .fileRequest _ _ _ _ | .fileControl _ _ _ .pause | .chunkRequest _ _ _ _ | .chunkReceive _ _ _ =>
    inferInstanceAs (Decidable (_ = none))
  | .fileControl _ _ _ .resume | .fileControl _ _ _ .cancel => inferInstanceAs (Decidable (_ ∧ _))
  | .sendFileSeek _ _ | .sendFileReject _ _ => inferInstanceAs (Decidable (_ = []))
  | .sendFileAccept _ _ _ _ _ _ => inferInstanceAs (Decidable (_ → _))
  | .sendFilePause _ _ | .sendFileCancel _ _ => inferInstanceAs (Decidable (_ = []))

/-- A change that keeps what is referenced referenced, and the balance exactly if `C`. -/
def Keeps (s s' : Files) (C : Prop) : Prop :=
  s.Positive → s'.Positive ∧ (s'.Balanced ↔ s.Balanced ∧ C)

theorem Keeps.refl (s : Files) : Keeps s s True := fun h => ⟨h, (and_iff_left trivial).symm⟩

theorem Keeps.trans {s s' s'' : Files} {C D : Prop} (h : Keeps s s' C) (h' : Keeps s' s'' D) :
    Keeps s s'' (C ∧ D) := by
  intro hs
  obtain ⟨hs', hC⟩ := h hs
  obtain ⟨hs'', hD⟩ := h' hs'
  exact ⟨hs'', by rw [hD, hC, and_assoc]⟩

theorem Keeps.congr {s s' : Files} {C D : Prop} (h : Keeps s s' C) (hCD : C ↔ D) :
    Keeps s s' D := by rwa [← propext hCD]

theorem keeps_putFriend (s : Files) (c : FriendCode) (entry : Option FriendInfo) {C : Prop}
    (h : (∀ fi ∈ s.friends c, 1 ≤ fi.refs) → (∀ fi ∈ entry, 1 ≤ fi.refs) ∧
      ((∀ fi ∈ entry, fi.refs = 1) ↔ (∀ fi ∈ s.friends c, fi.refs = 1) ∧ C)) :
    Keeps s (s.putFriend c entry) C := by
  intro hs
  obtain ⟨hpos, hone⟩ := h (hs.friends c)
  constructor
  · refine ⟨fun c' fi hfi => ?_, by simpa using hs.trackers⟩
    rw [putFriend_friends] at hfi
    split_ifs at hfi
    · exact hpos fi hfi
    · exact hs.friends c' fi hfi
  · constructor
    · rintro ⟨hf, ht, hlf, hlt⟩
      have hentry := hf c
      rw [putFriend_friends, if_pos rfl] at hentry
      obtain ⟨hold, hC⟩ := hone.mp hentry
      refine ⟨⟨fun c' fi hfi => ?_, by simpa using ht, hlf, hlt⟩, hC⟩
      by_cases hc' : c' = c
      · exact hold fi (hc' ▸ hfi)
      · apply hf c' fi
        rw [putFriend_friends, if_neg hc']
        exact hfi
    · rintro ⟨⟨hf, ht, hlf, hlt⟩, hC⟩
      refine ⟨fun c' fi hfi => ?_, by simpa using ht, hlf, hlt⟩
      rw [putFriend_friends] at hfi
      split_ifs at hfi
      · exact hone.mpr ⟨hf c, hC⟩ fi hfi
      · exact hf c' fi hfi

theorem keeps_friendsGet (s : Files) (f : FriendArg) :
    Keeps s (s.friendsGet f).2 (s.friends f.code = none) := by
  unfold friendsGet
  cases hf : s.friends f.code with
  | none => exact (Keeps.refl s).congr (iff_of_true trivial rfl)
  | some fi =>
    apply keeps_putFriend
    simp only [hf, Option.mem_some_iff, forall_eq']
    intro hpos
    constructor
    · omega
    · apply iff_of_false
      · omega
      · exact fun h => Option.some_ne_none _ h.2

theorem keeps_changeFriend (s : Files) (c : FriendCode) {fi fi' : FriendInfo}
    (hfi : s.friends c = some fi) (hrefs : fi'.refs = fi.refs) :
    Keeps s (s.putFriend c (some fi')) True := by
  apply keeps_putFriend
  simp only [hfi, Option.mem_some_iff, forall_eq', hrefs, and_true]
  exact id

theorem keeps_setList (s : Files) (l : FileList) (trackers : List FileTracker) {C : Prop}
    (hpos : (∀ t ∈ s.list l, 1 ≤ t.refs) → (∀ t ∈ trackers, 1 ≤ t.refs) ∧
      ((∀ t ∈ trackers, t.refs = 1) ↔ (∀ t ∈ s.list l, t.refs = 1) ∧ C)) :
    Keeps s (s.setList l trackers) C := by
  intro hs
  obtain ⟨hpos, hone⟩ := hpos (hs.trackers l)
  constructor
  · refine ⟨by simpa using hs.friends, fun l' t ht => ?_⟩
    rw [list_setList] at ht
    split_ifs at ht
    · exact hpos t ht
    · exact hs.trackers l' t ht
  · constructor
    · rintro ⟨hf, ht, hlf, hlt⟩
      have hl := ht l
      rw [list_setList, if_pos rfl, hone] at hl
      refine ⟨⟨by simpa using hf, fun l' => ?_, by simpa using hlf, by simpa using hlt⟩, hl.2⟩
      by_cases hl' : l' = l
      · rw [hl']
        exact hl.1
      · simpa [hl'] using ht l'
    · rintro ⟨⟨hf, ht, hlf, hlt⟩, hC⟩
      refine ⟨by simpa using hf, fun l' => ?_, by simpa using hlf, by simpa using hlt⟩
      rw [list_setList]
      split_ifs
      · exact hone.mpr ⟨ht l, hC⟩
      · exact ht l'

/-- A lookup leaves a reference on every tracker it passes, so it passes none. -/
theorem keeps_find (s : Files) (l : FileList) (f n : ℕ) :
    Keeps s (s.find l f n).2 (s.list l = []) := by
  apply keeps_setList
  intro hpos
  have hvisited := findFileTracker_visited f n (s.list l)
  constructor
  · intro t' ht'
    obtain ⟨t, ht, k, rfl⟩ := mem_findFileTracker ht'
    exact (hpos t ht).trans (Nat.le_add_right _ _)
  · cases hl : s.list l with
    | nil => simp [findFileTracker]
    | cons t rest =>
      have hhead : t.ref ∈ (findFileTracker f n (t :: rest)).2 := by
        unfold findFileTracker
        split_ifs <;> exact List.mem_cons_self
      have hpos' := hpos t (by rw [hl]; exact List.mem_cons_self)
      apply iff_of_false
      · intro hone
        have : t.refs + 1 = 1 := hone _ hhead
        omega
      · exact fun h => List.cons_ne_nil _ _ h.2

theorem Keeps.of_eq {s s' : Files} (hfriends : s'.friends = s.friends) (hlist : s'.list = s.list)
    (hlostFriends : s'.lostFriends = s.lostFriends)
    (hlostTrackers : s'.lostTrackers = s.lostTrackers) : Keeps s s' True := by
  intro hs
  constructor
  · exact ⟨hfriends ▸ hs.friends, hlist ▸ hs.trackers⟩
  · rw [and_true]
    constructor
    · rintro ⟨hf, ht, hlf, hlt⟩
      exact ⟨hfriends ▸ hf, hlist ▸ ht, hlostFriends ▸ hlf, hlostTrackers ▸ hlt⟩
    · rintro ⟨hf, ht, hlf, hlt⟩
      exact ⟨hfriends ▸ hf, hlist ▸ ht, hlostFriends ▸ hlf, hlostTrackers ▸ hlt⟩

theorem keeps_act (s : Files) (a : FileAct) : Keeps s (s.act a) True :=
  .of_eq rfl (funext (list_act s a)) rfl rfl

theorem keeps_add (s : Files) (l : FileList) {t : FileTracker} (ht : t.refs = 1) :
    Keeps s (s.add l t) True := by
  have h : Keeps s (s.setList l (s.list l ++ [t])) True := by
    apply keeps_setList
    simp only [List.forall_mem_append, List.forall_mem_singleton, ht, le_refl, and_true]
    exact id
  have hadd : Keeps (s.setList l (s.list l ++ [t])) (s.add l t) True := by
    apply Keeps.of_eq
    · cases l <;> rfl
    · funext l'
      cases l' <;> rfl
    · cases l <;> rfl
    · cases l <;> rfl
  exact (h.trans hadd).congr and_self_iff

/-- What is removed with a reference left over is lost, and was out of balance before. -/
theorem keeps_remove (s : Files) (l : FileList) (i : Option ℕ) : Keeps s (s.remove l i) True := by
  unfold remove
  split
  · exact Keeps.refl s
  · next i =>
    split
    · exact Keeps.refl s
    · next t ht =>
      have hmem : t ∈ s.list l := List.mem_of_getElem? ht
      dsimp only
      split_ifs with hrefs
      · apply keeps_setList
        intro hpos
        refine ⟨fun t' ht' => hpos t' (List.mem_of_mem_eraseIdx ht'), ?_⟩
        rw [and_true]
        obtain ⟨hi, rfl⟩ := List.getElem?_eq_some_iff.mp ht
        have hmem' : ∀ u, u ∈ s.list l ↔ u ∈ (s.list l)[i] :: (s.list l).eraseIdx i :=
          fun u => (List.getElem_cons_eraseIdx_perm hi).mem_iff.symm
        simp only [hmem', List.forall_mem_cons, hrefs, true_and]
      · intro hs
        have herase : (s.setList l ((s.list l).eraseIdx i)).Positive := by
          refine ⟨by simpa using hs.friends, fun l' t' ht' => ?_⟩
          rw [list_setList] at ht'
          split_ifs at ht' with hl
          · exact hs.trackers l t' (List.mem_of_mem_eraseIdx ht')
          · exact hs.trackers l' t' ht'
        refine ⟨⟨herase.friends, fun l' => ?_⟩, iff_of_false ?_ ?_⟩
        · have := herase.trackers l'
          cases l' <;> exact this
        · intro hb
          cases hb.lostTrackers
        · intro hb
          exact hrefs (hb.1.trackers l t hmem)

/-- A friend that is dropped with a reference left over is lost, and was out of balance before. -/
theorem keeps_dropFriend (s : Files) (c : FriendCode) : Keeps s (s.dropFriend c) True := by
  unfold dropFriend
  split
  · exact Keeps.refl s
  · next fi hfi =>
    dsimp only
    split_ifs with hrefs
    · apply keeps_putFriend
      simp [hfi, hrefs]
    · intro hs
      refine ⟨⟨fun c' fi' hfi' => ?_, fun l => ?_⟩, iff_of_false ?_ ?_⟩
      · have := (putFriend_friends s c none c').symm.trans hfi'
        split_ifs at this
        exact hs.friends c' fi' this
      · cases l with
        | senders => exact hs.trackers .senders
        | receivers => exact hs.trackers .receivers
      · intro hb
        cases hb.lostFriends
      · intro hb
        exact hrefs (hb.1.friends c fi hfi)

theorem dropFriend_friends (s : Files) (c : FriendCode) : (s.dropFriend c).friends c = none := by
  unfold dropFriend
  split
  · next hnone => exact hnone
  · dsimp only
    split_ifs
    · rw [putFriend_friends, if_pos rfl]
    · exact (putFriend_friends ..).trans (if_pos rfl)

theorem keeps_removeFriend (s : Files) (f : FriendArg) (behind : Bytes) :
    Keeps s (s.removeFriend f behind) True := by
  unfold removeFriend
  split
  · exact Keeps.refl s
  · exact keeps_dropFriend s _

theorem keeps_addFriend (s : Files) (f : ℕ) (userid : Bytes) : Keeps s (s.addFriend f userid) True := by
  unfold addFriend
  apply ((keeps_dropFriend s _).trans (keeps_putFriend _ _ _ _)).congr and_self_iff
  rw [dropFriend_friends]
  simp

theorem withFriend_none {s : Files} {f : FriendArg} (hf : s.friends f.code = none)
    (body : Files → Files) : s.withFriend f body = s := by
  simp only [withFriend, friendsGet, hf]

/-- A callback that does not give back its reference to the friend. -/
theorem keeps_withFriend (s : Files) (f : FriendArg) {body : Files → Files} {C : Files → Prop}
    (hbody : ∀ s, Keeps s (body s) (C s)) :
    Keeps s (s.withFriend f body) (s.friends f.code = none) := by
  cases hf : s.friends f.code with
  | none =>
    rw [withFriend_none hf]
    exact (Keeps.refl s).congr (iff_of_true trivial rfl)
  | some fi =>
    have hget := keeps_friendsGet s f
    have hwith : s.withFriend f body = body (s.friendsGet f).2 := by
      simp only [withFriend, friendsGet, hf]
    rw [hwith, ← hf]
    apply (hget.trans (hbody _)).congr
    simp [hf]

theorem friendsGet_put_deref {s : Files} {f : FriendArg} {fi : FriendInfo}
    (hfi : s.friends f.code = some fi) (fi' : FriendInfo) (hrefs : fi'.refs = fi.refs + 1) :
    Keeps s (((s.friendsGet f).2.putFriend f.code (some fi')).derefFriend f) True := by
  have hfinal : ((s.friendsGet f).2.putFriend f.code (some fi')).derefFriend f =
      s.putFriend f.code (some { fi' with refs := fi.refs }) := by
    simp [friendsGet, hfi, derefFriend, putFriend, hrefs]
  rw [hfinal]
  exact keeps_changeFriend s f.code hfi rfl

theorem keeps_unlinkFile (s : Files) (i : Option ℕ) : Keeps s (s.unlinkFile i) True := by
  unfold unlinkFile
  split
  · exact Keeps.refl s
  · exact keeps_act s _

theorem keeps_findThenRemove (s : Files) (l : FileList) (f n : ℕ) :
    Keeps s (s.findThenRemove l f n) (s.list l = []) :=
  ((keeps_find s l f n).trans (keeps_remove _ _ _)).congr (and_iff_left trivial)

theorem keeps_cancel (s : Files) (f n : ℕ) :
    Keeps s (s.cancel f n) (s.list (if isSender n then .senders else .receivers) = []) := by
  unfold cancel
  split_ifs
  · exact keeps_findThenRemove s .senders f n
  · apply ((keeps_find s .receivers f n).trans ((keeps_unlinkFile _ _).trans
      (keeps_remove _ _ _))).congr
    simp

theorem keeps_set (s : Files) {i : ℕ} {t : FileTracker} (t' : FileTracker)
    (ht : s.receivers[i]? = some t) (hrefs : t'.refs = t.refs) :
    Keeps s { s with receivers := s.receivers.set i t' } True := by
  have hmap : (s.receivers.set i t').map FileTracker.refs = s.receivers.map FileTracker.refs := by
    obtain ⟨hi, rfl⟩ := List.getElem?_eq_some_iff.mp ht
    rw [List.map_set, hrefs]
    exact (List.map_set ..).symm.trans (by rw [List.set_getElem_self])
  have hall : ∀ p : ℕ → Prop,
      (∀ u ∈ s.receivers.set i t', p u.refs) ↔ ∀ u ∈ s.receivers, p u.refs := by
    intro p
    rw [← List.forall_mem_map, hmap, List.forall_mem_map]
  apply keeps_setList s .receivers
  exact fun hpos => ⟨(hall _).mpr hpos, (hall (· = 1)).trans (and_iff_left trivial).symm⟩

theorem keeps_sendFileAccept (s : Files) (f n : ℕ) (filename filepath : Bytes)
    (writable sent : Bool) :
    Keeps s (s.sendFileAccept f n filename filepath writable sent)
      (writable → s.receivers = []) := by
  unfold sendFileAccept
  cases writable with
  | false => exact (Keeps.refl s).congr (by simp)
  | true =>
    have hfind := keeps_find s .receivers f n
    simp only [Bool.not_true, Bool.false_eq_true, if_false, forall_const]
    split
    · exact hfind
    · next i t hit =>
      obtain ⟨j, -, hj⟩ := Option.bind_eq_some_iff.mp hit
      obtain ⟨u, hu, heq⟩ := Option.map_eq_some_iff.mp hj
      cases heq
      have hset := keeps_set _ (updateFileReceiverPath t filename filepath) hu rfl
      have hupdate := hset.trans (keeps_act _ (.updated t.addr filename filepath sent))
      exact (hfind.trans hupdate).congr (by simp [list])

theorem keeps_fileControl (s : Files) (f : FriendArg) (behind : Bytes) (n : ℕ)
    (control : FileControl) :
    Keeps s (s.notifyFileControlCb f behind n control)
      (s.GivesBack (.fileControl f behind n control)) := by
  have hpaused : ∀ s, Keeps s (notifyFilePausedCb s f n) (s.friends f.code = none) :=
    fun s => keeps_withFriend s f (fun s => keeps_find s _ _ n)
  have haccepted : ∀ s f, Keeps s (notifyFileAcceptedCb s f n) (s.friends f.code = none) :=
    fun s f => keeps_withFriend s f (fun s => keeps_find s .senders _ n)
  have hcanceled : ∀ s, Keeps s (notifyFileCanceledCb s f n) (s.friends f.code = none) :=
    fun s => keeps_withFriend s f (fun s => keeps_cancel s _ n)
  have hrejected : ∀ s f, Keeps s (notifyFileRejectedCb s f n) (s.friends f.code = none) :=
    fun s f => keeps_withFriend s f (fun s => keeps_findThenRemove s .senders _ n)
  cases control with
  | pause => exact hpaused s
  | resume =>
    apply ((hpaused s).trans (haccepted _ (f.again behind))).congr
    apply and_congr_right
    intro hf
    rw [notifyFilePausedCb, withFriend_none hf]
  | cancel =>
    apply ((hcanceled s).trans (hrejected _ (f.again behind))).congr
    apply and_congr_right
    intro hf
    rw [notifyFileCanceledCb, withFriend_none hf]

/-- One event keeps the balance exactly if it gives back what it takes. -/
theorem keeps_handle (s : Files) (ev : Event) : Keeps s (s.handle ev) (s.GivesBack ev) := by
  cases ev with
  | addFriend f userid => exact keeps_addFriend s f userid
  | removeFriend f behind => exact keeps_removeFriend s f behind
  | friendConnection f connected =>
    unfold handle notifyFriendConnectionCb
    cases hf : s.friends f.code with
    | none =>
      simp only [friendsGet, hf]
      exact Keeps.refl s
    | some fi =>
      have h := friendsGet_put_deref hf { fi with
        status := if connected then .connected else .disconnected, refs := fi.refs + 1 } rfl
      simp only [friendsGet, hf] at h ⊢
      exact h
  | friendStatus f status =>
    unfold handle notifyFriendStatusCb
    cases hf : s.friends f.code with
    | none =>
      simp only [friendsGet, hf]
      exact (Keeps.refl s).congr (by simp [GivesBack, hf])
    | some fi =>
      have hget := keeps_friendsGet s f
      simp only [friendsGet, hf] at hget ⊢
      split_ifs with hstatus
      · apply hget.congr
        simp only [GivesBack, hf, reduceCtorEq, false_or, false_iff, not_and_or, not_le]
        exact hstatus
      · have h := friendsGet_put_deref hf { fi with
          presence := status.toNat, refs := fi.refs + 1 } rfl
        simp only [friendsGet, hf] at h
        apply h.congr
        simp only [GivesBack, hf, reduceCtorEq, false_or, true_iff]
        rwa [not_or, not_lt, not_lt] at hstatus
  | fileRequest f n filename alloc =>
    apply keeps_withFriend s f (C := fun _ => True)
    intro s
    split_ifs
    · exact keeps_add s .receivers rfl
    · exact Keeps.refl s
  | fileControl f behind n control => exact keeps_fileControl s f behind n control
  | chunkRequest f n length opens =>
    apply keeps_withFriend s f (C := fun s => s.senders = [])
    intro s
    have hfind := keeps_find s .senders f.number n
    by_cases hlen : length = 0
    · simp only [if_pos hlen]
      exact keeps_findThenRemove s .senders f.number n
    · simp only [if_neg hlen]
      split
      · exact hfind
      · split_ifs
        · exact (hfind.trans (keeps_act _ _)).congr (and_iff_left trivial)
        · exact hfind
  | chunkReceive f n length =>
    apply keeps_withFriend s f (C := fun s => s.receivers = [])
    intro s
    split_ifs
    · exact keeps_findThenRemove s .receivers f.number n
    · exact keeps_find s .receivers f.number n
  | sendFileRequest f fullpath number alloc =>
    cases number with
    | none => exact Keeps.refl s
    | some n =>
      cases alloc with
      | false => exact keeps_act s _
      | true => exact ((keeps_act s _).trans (keeps_add _ .senders rfl)).congr and_self_iff
  | sendFileSeek f n => exact keeps_find s .receivers f n
  | sendFileAccept f n filename filepath writable sent =>
    exact keeps_sendFileAccept s f n filename filepath writable sent
  | sendFileReject f n => exact keeps_findThenRemove s .receivers f n
  | sendFilePause f n => exact keeps_find s _ f n
  | sendFileCancel f n => exact keeps_cancel s f n

theorem init_balanced : init.Balanced := by
  constructor
  · intro c fi h
    cases h
  · simp
  · rfl
  · rfl

theorem Balanced.positive {s : Files} (h : s.Balanced) : s.Positive :=
  ⟨fun c fi hfi => (h.friends c fi hfi).ge, fun l t ht => (h.trackers l t ht).ge⟩

/-- An event comes to its end, and gives back what it takes. -/
def Orderly (asserts : Bool) (s : Files) (ev : Event) : Prop :=
  s.Completes asserts ev ∧ s.GivesBack ev

instance (asserts : Bool) (s : Files) (ev : Event) : Decidable (s.Orderly asserts ev) :=
  inferInstanceAs (Decidable (_ ∧ _))

/-- A run comes to its end with the counts right exactly if every one of its events does, and gives back
what it takes: a reference that is left over is never dropped. -/
theorem exec_balanced_iff (asserts : Bool) (evs : List Event) :
    (∃ s, exec (step asserts) init evs = some s ∧ s.Balanced) ↔
      Along (step asserts) (Orderly asserts) init evs := by
  apply exists_exec_iff_along (I := Positive) _ _ init_balanced.positive init_balanced
  · intro s ev s' hpos hs'
    obtain ⟨hcompletes, rfl⟩ := step_eq_some.mp hs'
    obtain ⟨hpos', hiff⟩ := keeps_handle s ev hpos
    exact ⟨hpos', hiff.trans (and_congr_right' (and_iff_right hcompletes).symm)⟩
  · intro s ev horderly
    exact ⟨_, step_eq_some.mpr ⟨horderly.1, rfl⟩⟩

/-- A friend with a presence the protocol knows, and a request for a file of ours. -/
def quietFriend : List Event :=
  [.addFriend 0 [49], .friendConnection 0 true, .friendStatus 0 1,
    .sendFileRequest 0 [47, 97, 47, 120] (some 0) true, .removeFriend 0 []]

theorem quietFriend_balanced : ∃ s, exec (step true) init quietFriend = some s ∧ s.Balanced :=
  (exec_balanced_iff true quietFriend).mpr (by decide)

/-- A friend offers us a file, which keeps a reference, and then the removed friend is not freed. -/
theorem fileRequest_not_balanced : ∃ s, exec (step true) init
    [.addFriend 0 [49], .fileRequest 0 65536 [120] true, .removeFriend 0 []] = some s ∧
      s.lostFriends = [⟨0, [49], .disconnected, 0, 1⟩] ∧ ¬s.Balanced := by
  refine ⟨_, rfl, rfl, ?_⟩
  intro h
  cases h.lostFriends

end Files

end Carrier.Core
