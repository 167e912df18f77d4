import Carrier.Core.RosterSync

/-! Runs of a carrier with its friends: who is a friend in any state, and who is shut out for good. -/
namespace Carrier.Core
open Carrier.Lib Carrier.Common Schema

/-- A saved friend that `friends_iterate_cb` takes. -/
def SavedFriend.loads (flatcc : BufferLibrary) (f : SavedFriend) : Bool :=
  f.allocated && (decide (f.desc = []) || (userinfoIn flatcc f.desc).isSome)

/-- The saved friends from the first one on that is not taken. -/
def lostFriends (flatcc : BufferLibrary) (saved : List SavedFriend) : List ToxFriend :=
  (saved.dropWhile (SavedFriend.loads flatcc)).map SavedFriend.friend

section Loading

variable {flatcc : BufferLibrary} {saved : List SavedFriend} {friends friends' : List FriendEntry}
  {M : Set ℕ}

theorem unpackUserDesc_ne_none_iff {desc : Bytes} (hne : desc ≠ []) (info : UserInfo) :
    unpackUserDesc (ioexcpDecode flatcc desc) info ≠ none ↔ (userinfoIn flatcc desc).isSome := by
  cases huser : userinfoIn flatcc desc with
  | none => exact iff_of_false (not_not.mpr (unpackUserDesc_eq_none hne huser info)) Bool.false_ne_true
  | some cp =>
    obtain ⟨-, hdecode, htype⟩ := userinfoIn_eq_some huser
    refine iff_of_true (fun hnone => ?_) rfl
    rw [hdecode] at hnone
    exact unpackUserDesc_type.mp hnone htype

theorem putFriend_ident {f : ToxFriend} (htold : ToldApart M) (hf : f.number ∈ M)
    (hfriends : ∀ e ∈ friends, e.friendNumber ∈ M) (hnew : ∀ e ∈ friends, e.friendNumber ≠ f.number)
    {e : FriendEntry} (he : e.ident = f.ident) :
    (putFriend friends e).map FriendEntry.ident = friends.map FriendEntry.ident ++ [f.ident] := by
  have hnumber : e.friendNumber = f.number := congrArg Prod.fst he
  rw [← hnumber] at hf hnew
  rw [putFriend_eq_append htold hf hfriends hnew, List.map_append, List.map_singleton, he]

theorem friendsIterateCb_spec {f : SavedFriend} {success : Bool} (htold : ToldApart M)
    (hf : f.friend.number ∈ M) (hfriends : ∀ e ∈ friends, e.friendNumber ∈ M)
    (hnew : ∀ e ∈ friends, e.friendNumber ≠ f.friend.number)
    (h : friendsIterateCb flatcc friends f = some (friends', success)) :
    success = f.loads flatcc ∧ friends'.map FriendEntry.ident =
      friends.map FriendEntry.ident ++ if success then [f.friend.ident] else [] := by
  unfold friendsIterateCb at h
  dsimp only at h
  unfold SavedFriend.loads
  split_ifs at h with halloc hempty
  · cases h
    have hfalse : f.allocated = false := by simpa using halloc
    rw [hfalse]
    exact ⟨rfl, (List.append_nil _).symm⟩
  · cases h
    have htrue : f.allocated = true := by simpa using halloc
    rw [htrue, decide_eq_true hempty]
    exact ⟨rfl, putFriend_ident htold hf hfriends hnew rfl⟩
  · have htrue : f.allocated = true := by simpa using halloc
    rw [htrue, decide_eq_false hempty]
    split at h
    · rename_i hunpack
      cases h
      have hnone := mt (unpackUserDesc_ne_none_iff hempty _).mpr (not_not.mpr hunpack)
      rw [Bool.not_eq_true] at hnone
      rw [hnone]
      exact ⟨rfl, (List.append_nil _).symm⟩
    · rename_i info copies hunpack
      split_ifs at h with hfits
      cases h
      have hsome : (userinfoIn flatcc f.desc).isSome := by
        refine (unpackUserDesc_ne_none_iff hempty (newEntry f.friend.number _ (length_keyText
          f.friend.publicKey)).userInfo.val).mp (fun hnone => ?_)
        cases hunpack.symm.trans hnone
      rw [hsome]
      exact ⟨rfl, putFriend_ident htold hf hfriends hnew
        (congrArg (Prod.mk f.friend.number) (unpackUserDesc_userid hunpack))⟩

/-- What is loaded are the friends up to the first that is not taken. -/
theorem dhtGetFriends_spec (htold : ToldApart M) (hsaved : ∀ f ∈ saved, f.friend.number ∈ M)
    (hfriends : ∀ e ∈ friends, e.friendNumber ∈ M)
    (hnumbers : (saved.map (fun f => f.friend.number)).Nodup)
    (hnew : ∀ f ∈ saved, ∀ e ∈ friends, e.friendNumber ≠ f.friend.number)
    (h : dhtGetFriends flatcc friends saved = some friends') :
    friends'.map FriendEntry.ident = friends.map FriendEntry.ident ++
      (saved.takeWhile (SavedFriend.loads flatcc)).map (fun f => f.friend.ident) := by
  induction saved generalizing friends with
  | nil =>
    cases h
    exact (List.append_nil _).symm
  | cons f saved ih =>
    rw [List.map_cons, List.nodup_cons] at hnumbers
    unfold dhtGetFriends at h
    cases hcb : friendsIterateCb flatcc friends f with
    | none =>
      rw [hcb] at h
      cases h
    | some result =>
      obtain ⟨loaded, success⟩ := result
      obtain ⟨hsuccess, hloaded⟩ := friendsIterateCb_spec htold (hsaved f List.mem_cons_self)
        hfriends (hnew f List.mem_cons_self) hcb
      rw [hcb] at h
      cases success with
      | false =>
        cases h
        rw [hloaded, List.takeWhile_cons, ← hsuccess]
        rfl
      | true =>
        have hfrom : ∀ e ∈ loaded, (∃ x ∈ friends, x.friendNumber = e.friendNumber) ∨
            f.friend.number = e.friendNumber := by
          intro e he
          have hident := List.mem_map_of_mem (f := FriendEntry.ident) he
          rw [hloaded, if_pos rfl] at hident
          obtain hold | hone := List.mem_append.mp hident
          · obtain ⟨x, hx, heq⟩ := List.mem_map.mp hold
            exact .inl ⟨x, hx, congrArg Prod.fst heq⟩
          · exact .inr (congrArg Prod.fst (List.mem_singleton.mp hone)).symm
        have hin : ∀ e ∈ loaded, e.friendNumber ∈ M := by
          intro e he
          obtain ⟨x, hx, hnumber⟩ | hnumber := hfrom e he
          · exact hnumber ▸ hfriends x hx
          · exact hnumber ▸ hsaved f List.mem_cons_self
        have hlater : ∀ g ∈ saved, ∀ e ∈ loaded, e.friendNumber ≠ g.friend.number := by
          intro g hg e he heq
          obtain ⟨x, hx, hnumber⟩ | hnumber := hfrom e he
          · exact hnew g (List.mem_cons_of_mem _ hg) x hx (hnumber.trans heq)
          · exact hnumbers.1 (List.mem_map.mpr ⟨g, hg, (hnumber.trans heq).symm⟩)
        rw [ih (fun g hg => hsaved g (List.mem_cons_of_mem _ hg)) hin hnumbers.2 hlater h, hloaded,
          List.takeWhile_cons, ← hsuccess]
        simp

theorem ioexNew_synced {me base58Addr : Bytes} {r : Roster}
    (h : ioexNew flatcc me base58Addr saved = some r) (htox : ToxList (saved.map SavedFriend.friend)) :
    Synced (lostFriends flatcc saved) r := by
  obtain ⟨friends, hfriends, rfl⟩ := Option.map_eq_some_iff.mp h
  have hsplit : saved.map SavedFriend.friend =
      (saved.takeWhile (SavedFriend.loads flatcc)).map SavedFriend.friend ++ lostFriends flatcc saved := by
    rw [lostFriends, ← List.map_append, List.takeWhile_append_dropWhile]
  have hdisjoint : ∀ f ∈ (saved.takeWhile (SavedFriend.loads flatcc)).map SavedFriend.friend,
      f ∉ lostFriends flatcc saved := by
    have hnodup : (saved.map SavedFriend.friend).Nodup := htox.keys.of_map _
    rw [hsplit] at hnodup
    exact fun f hf hlost => (List.disjoint_of_nodup_append hnodup) hf hlost
  have hkept : (saved.map SavedFriend.friend).filter (fun f => f ∉ lostFriends flatcc saved) =
      (saved.takeWhile (SavedFriend.loads flatcc)).map SavedFriend.friend := by
    rw [hsplit, List.filter_append, List.filter_eq_self.mpr (fun f hf => decide_eq_true (hdisjoint f hf)),
      List.filter_eq_nil_iff.mpr (fun f hf => by simpa using hf), List.append_nil]
  refine ⟨htox, fun f hf => ?_, ?_⟩
  · rw [hsplit]
    exact List.mem_append_right _ hf
  · have hnumbers := htox.numbers
    rw [List.map_map] at hnumbers
    have hsaved : ∀ f ∈ saved, f.friend.number ∈ numbersOf (saved.map SavedFriend.friend) :=
      fun f hf => mem_numbersOf (List.mem_map_of_mem hf)
    rw [dhtGetFriends_spec htox.told hsaved (fun _ he => absurd he List.not_mem_nil) hnumbers
      (fun _ _ _ he => absurd he List.not_mem_nil) hfriends]
    change [] ++ _ = ((saved.map SavedFriend.friend).filter _).map _
    rw [hkept, List.map_map]
    rfl

end Loading

/-- No call and no event names a friend that is lost. -/
def Unnamed (lost : List ToxFriend) (r : Roster) : Prop :=
  ∀ f ∈ lost, (∀ call ∈ r.calls, call.about ≠ some (keyText f.publicKey)) ∧
    ∀ entry ∈ r.events.entries, entry.data.userid ≠ keyText f.publicKey

section Naming

variable {lost : List ToxFriend} {r r' : Roster} {e e' : FriendEntry} {f : ToxFriend}

theorem Synced.userid_ne (h : Synced lost r) (he : e ∈ r.friends) (hf : f ∈ lost) :
    e.userid ≠ keyText f.publicKey := by
  intro heq
  obtain ⟨f', hf', hnot, hident⟩ := h.mem_iff.mp ⟨e, he, rfl⟩
  have htext : keyText f'.publicKey = keyText f.publicKey := (congrArg Prod.snd hident).trans heq
  rw [h.tox.eq_of_text hf' (h.held f hf) htext] at hnot
  exact hnot hf

theorem Synced.newText_ne (h : Synced lost r) {publicKey : Bytes}
    (hlen : publicKey.length = dhtPublicKeySize) (hnew : ∀ f ∈ r.tox, f.publicKey ≠ publicKey)
    (hf : f ∈ lost) : keyText publicKey ≠ keyText f.publicKey := by
  intro heq
  have hheld := h.held f hf
  exact hnew f hheld (keyText_injective hlen (h.tox.length_key f hheld) heq).symm

theorem doFriendEvent_about {event : FriendEvent} {call : RosterCall}
    (h : call ∈ (doFriendEvent event).map RosterCall.friend) : call.about = some event.userid := by
  obtain ⟨type, userid, connected⟩ := event
  cases type <;> cases connected <;> simp [doFriendEvent] at h
  · rw [h]
    rfl
  · rw [h]
    rfl
  · rw [h]
    rfl
  · obtain rfl | rfl := h
    · rfl
    · rfl

theorem Relayed.about {calls : List RosterCall} (h : Relayed e e' calls) (hsame : e'.ident = e.ident)
    {call : RosterCall} (hcall : call ∈ calls) : call.about = some e.userid := by
  have hid : e'.userid = e.userid := congrArg Prod.snd hsame
  cases h with
  | connection hstatus =>
    rw [List.mem_singleton.mp hcall]
    rfl
  | presence hstatus =>
    rw [List.mem_singleton.mp hcall]
    rfl
  | info hstatus =>
    rw [List.mem_singleton.mp hcall, ← hid]
    rfl
  | silent hstatus => cases hcall

theorem Unnamed.notify (h : Unnamed lost r) {calls : List RosterCall}
    (hcalls : ∀ f ∈ lost, ∀ call ∈ calls, call.about ≠ some (keyText f.publicKey))
    (hevents : r'.events.entries ⊆ r.events.entries) (heq : r'.calls = r.calls ++ calls) :
    Unnamed lost r' := by
  intro f hf
  refine ⟨fun call hcall => ?_, fun entry hentry => (h f hf).2 entry (hevents hentry)⟩
  rw [heq] at hcall
  obtain hold | hnew := List.mem_append.mp hcall
  · exact (h f hf).1 call hold
  · exact hcalls f hf call hnew

theorem Unnamed.notifyFriend (h : Unnamed lost r) {type : FriendEventType} {queued : Bool}
    (he : ∀ f ∈ lost, e.userid ≠ keyText f.publicKey) :
    Unnamed lost (r.notifyFriend type e queued) := by
  cases queued with
  | false => exact h
  | true =>
    refine fun f hf => ⟨(h f hf).1, fun event hevent => ?_⟩
    obtain hold | hnew := List.mem_append.mp hevent
    · exact (h f hf).2 event hold
    · rw [List.mem_singleton.mp hnew]
      exact he f hf

theorem Effect.unnamed {settled : Prop} (heffect : Effect settled r r') (h : Synced lost r)
    (htracked : r.events.Tracked) (hunnamed : Unnamed lost r) : Unnamed lost r' := by
  cases heffect with
  | idle => exact hunnamed
  | run hrun =>
    refine hunnamed.notify (fun f hf call hcall => ?_) (List.Subset.refl _) rfl
    obtain hlist | hend := List.mem_append.mp hcall
    · obtain ⟨e, he, rfl⟩ := List.mem_map.mp hlist
      exact fun heq => h.userid_ne he hf (Option.some.inj heq)
    · rw [List.mem_singleton.mp hend]
      exact (Option.some_ne_none _).symm
  | connection hrun isReady calls hcalls =>
    refine hunnamed.notify (fun f hf call hcall => ?_) (List.Subset.refl _) rfl
    rw [hcalls call hcall]
    exact (Option.some_ne_none _).symm
  | added hready f queued hlen htold hnew hphase hqueued =>
    have hstored : Unnamed lost (r.store f.publicKey f.entry) := hunnamed
    exact hstored.notifyFriend (fun g hg => h.newText_ne hlen (fun f' hf' => (hnew f' hf').2) hg)
  | removed hready e queued he hphase hqueued =>
    have hdropped : Unnamed lost (r.without e.friendNumber) := hunnamed
    exact hdropped.notifyFriend (fun f hf => h.userid_ne he hf)
  | reported hrun e e' calls he hsame hcalls hidle =>
    refine hunnamed.notify (fun f hf call hcall => ?_) (List.Subset.refl _) rfl
    rw [hcalls.about hsame hcall]
    exact fun heq => h.userid_ne he hf (Option.some.inj heq)
  | requested hrun publicKey info hello hlen hid hnew hidle =>
    have hothers : ∀ f ∈ lost, ∀ call ∈ [RosterCall.friendRequest info hello],
        call.about ≠ some (keyText f.publicKey) := by
      intro f hf call hcall heq
      rw [List.mem_singleton.mp hcall] at heq
      exact h.newText_ne hlen hnew hf (hid.symm.trans (Option.some.inj heq))
    exact hunnamed.notify hothers (List.Subset.refl _) rfl
  | delivered hrun a w hown hstep =>
    obtain ⟨-, hentries, new, hdelivered, hnew⟩ := EventLoop.step_own htracked hown hstep
    apply hunnamed.notify _ hentries rfl
    intro f hf call hcall heq
    rw [hdelivered, List.drop_left] at hcall
    obtain ⟨c, hc, rfl⟩ := List.mem_map.mp hcall
    obtain ⟨entry, hentry, hc⟩ := List.mem_flatMap.mp hc
    have habout := doFriendEvent_about (List.mem_map_of_mem hc)
    rw [heq] at habout
    exact (hunnamed f hf).2 entry (hnew hentry) (Option.some.inj habout).symm

end Naming

/-- A friend that toxcore has and the carrier has not: every call on it fails, it cannot be added, and
nothing of it reaches the application. -/
structure ShutOut (flatcc : BufferLibrary) (f : ToxFriend) (r : Roster) : Prop where
  held : f ∈ r.tox
  notFriend : ∀ behind, r.isFriend (keyText f.publicKey) behind = false
  noInfo : ∀ behind, r.getFriendInfo (keyText f.publicKey) behind = some (.error .notExist)
  notAdded : ∀ address ctx, isValidAddress address = true → address ≠ r.base58Addr →
    r.isReady = true → Roster.addressKey address = f.publicKey →
      r.addFriend address ctx = .error (.general .alreadyExist)
  notAccepted : ∀ ctx, keyText f.publicKey ≠ r.me → r.isReady = true →
    r.acceptFriend (keyText f.publicKey) ctx = some (.error (.general .alreadyExist))
  notRemoved : ∀ behind behind' queued, r.isReady = true →
    r.removeFriend (keyText f.publicKey) behind behind' queued = some (.error (.general .notExist))
  requestDropped : ∀ greeting, r.notifyFriendRequestCb flatcc f.publicKey greeting = some r
  connectionDropped : ∀ behind connected, r.notifyFriendConnectionCb ⟨f.number, behind⟩ connected = r
  statusDropped : ∀ behind status, r.notifyFriendStatusCb ⟨f.number, behind⟩ status = r
  descriptionDropped : ∀ behind desc garbage,
    r.notifyFriendDescriptionCb flatcc ⟨f.number, behind⟩ desc garbage = some r
  unnamed : ∀ call ∈ r.calls, call.about ≠ some (keyText f.publicKey)

section Runs

variable {flatcc : BufferLibrary} {saved : List SavedFriend} {lost : List ToxFriend}
  {me base58Addr : Bytes} {r₀ r : Roster} {f : ToxFriend} {actions : List RosterAction}

theorem Synced.isFriend_iff (h : Synced lost r) {s : Bytes} (hs : FewOnes s) (behind : Bytes) :
    r.isFriend s behind = true ↔ ∃ f ∈ r.tox, f ∉ lost ∧ s = keyText f.publicKey := by
  unfold Roster.isFriend
  constructor
  · intro hfriend
    cases hnumber : getFriendNumber r.dhtGetFriendNumber s with
    | error e =>
      rw [hnumber] at hfriend
      cases hfriend
    | ok n =>
      rw [hnumber] at hfriend
      obtain ⟨publicKey, -, rfl, hknown⟩ := (getFriendNumber_ok_iff hs).mp hnumber
      have hmem := (dhtGetFriendNumber_eq_some_iff h.tox).mp hknown
      refine ⟨⟨n, publicKey⟩, hmem, fun hlost => ?_, rfl⟩
      have hnone := h.friendsGet_of_lost hlost behind
      simp only [hnone, Option.isSome_none, Bool.and_false] at hfriend
      cases hfriend
  · rintro ⟨f, hf, hlost, rfl⟩
    obtain ⟨e, hget, -⟩ := h.friendsGet_of_mem hf hlost behind
    rw [getFriendNumber_keyText _ (h.tox.length_key f hf), (dhtGetFriendNumber_eq_some_iff h.tox).mpr hf,
      Option.elim_some]
    simp only [hget, Option.isSome_some, Bool.and_true, decide_eq_true_eq]
    exact (h.tox.number_lt hf).ne

theorem error_ne_ok {code : ErrorCode} {p : FriendEntry → Prop} :
    ¬∃ e, (.error code : Except ErrorCode FriendEntry) = .ok e ∧ p e := by
  rintro ⟨e, heq, -⟩
  cases heq

/-- The assertion of `IOEX_get_friend_info` holds, and it knows those that are friends. -/
theorem Synced.getFriendInfo_spec (h : Synced lost r) {s : Bytes} (hs : FewOnes s) (behind : Bytes) :
    ∃ answer, r.getFriendInfo s behind = some answer ∧
      ((∃ e, answer = .ok e ∧ e.userid = s) ↔ r.isFriend s behind = true) := by
  unfold Roster.getFriendInfo
  cases hnumber : getFriendNumber r.dhtGetFriendNumber s with
  | error e =>
    refine ⟨.error e, rfl, iff_of_false error_ne_ok ?_⟩
    rw [Roster.isFriend, hnumber]
    exact Bool.false_ne_true
  | ok n =>
    obtain ⟨publicKey, -, rfl, hknown⟩ := (getFriendNumber_ok_iff hs).mp hnumber
    have hmem := (dhtGetFriendNumber_eq_some_iff h.tox).mp hknown
    have hnot : n ≠ 2 ^ 32 - 1 := (h.tox.number_lt hmem).ne
    dsimp only
    rw [if_neg hnot]
    cases hget : r.friendsGet ⟨n, behind⟩ with
    | none =>
      refine ⟨.error .notExist, rfl, iff_of_false error_ne_ok ?_⟩
      rw [Roster.isFriend, hnumber]
      simp only [hget, Option.isSome_none, Bool.and_false]
      exact Bool.false_ne_true
    | some e =>
      obtain ⟨he, hnumber'⟩ := h.friendsGet_eq_some (mem_numbersOf hmem) hget
      obtain ⟨f, hf, hlost, hnum, htext⟩ := h.of_mem he
      cases h.tox.eq_of_number hf hmem (hnum.trans hnumber')
      refine ⟨.ok e, if_pos htext.symm, iff_of_true ⟨e, rfl, htext⟩ ?_⟩
      exact (h.isFriend_iff hs behind).mpr ⟨_, hmem, hlost, rfl⟩

theorem Synced.shutOut (h : Synced lost r) (hunnamed : Unnamed lost r) (hf : f ∈ lost) :
    ShutOut flatcc f r := by
  have hheld := h.held f hf
  have hlen := h.tox.length_key f hheld
  have hone := keyText_fewOnes hlen
  have hget := h.friendsGet_of_lost hf
  have hnot : f.number ≠ 2 ^ 32 - 1 := (h.tox.number_lt hheld).ne
  have hknown : r.dhtGetFriendNumber f.publicKey = some f.number :=
    (dhtGetFriendNumber_eq_some_iff h.tox).mpr hheld
  have hnumber : getFriendNumber r.dhtGetFriendNumber (keyText f.publicKey) = .ok f.number := by
    rw [getFriendNumber_keyText _ hlen, hknown, Option.elim_some]
  have hvalid : isValidKey (keyText f.publicKey) = true :=
    (isValidKey_iff_keyText hone).mpr ⟨f.publicKey, hlen, rfl⟩
  exact
    { held := hheld
      notFriend := fun behind => by
        rw [Roster.isFriend, hnumber]
        simp only [hget, Option.isSome_none, Bool.and_false]
      noInfo := fun behind => by
        rw [Roster.getFriendInfo, hnumber]
        simp only [hget, if_neg hnot]
      notAdded := fun address ctx hvalid hown hready hkey => by
        have hsome : (r.dhtGetFriendNumber (Roster.addressKey address)).isSome = true := by
          rw [hkey, hknown]
          rfl
        rw [Roster.addFriend, hvalid, Bool.not_true, if_neg Bool.false_ne_true, if_neg hown, hready,
          Bool.not_true, if_neg Bool.false_ne_true, if_pos hsome]
      notAccepted := fun ctx hown hready => by
        have haccept : acceptFriendKey r.dhtGetFriendNumber r.me r.isReady (keyText f.publicKey) =
            .error .alreadyExist := by
          rw [acceptFriendKey, hvalid, Bool.not_true, if_neg Bool.false_ne_true, if_neg hown, hready,
            Bool.not_true, if_neg Bool.false_ne_true, hnumber]
          exact if_pos hnot
        rw [Roster.acceptFriend, haccept]
      notRemoved := fun behind behind' queued hready => by
        rw [Roster.removeFriend, hvalid, Bool.not_true, if_neg Bool.false_ne_true, hready,
          Bool.not_true, if_neg Bool.false_ne_true, hnumber]
        simp only [hget, if_neg hnot, Option.isNone_none, if_true]
      requestDropped := fun greeting => by
        rw [Roster.notifyFriendRequestCb, hknown]
        rfl
      connectionDropped := fun behind connected => by
        rw [Roster.notifyFriendConnectionCb, hget]
      statusDropped := fun behind status => by
        rw [Roster.notifyFriendStatusCb, hget]
      descriptionDropped := fun behind desc garbage => by
        rw [Roster.notifyFriendDescriptionCb, hget]
      unnamed := (hunnamed f hf).1 }

theorem exec_synced (hnew : ioexNew flatcc me base58Addr saved = some r₀)
    (htox : ToxList (saved.map SavedFriend.friend))
    (hdoc : Along (Roster.step flatcc) Roster.Documented r₀ actions)
    (hrun : exec (Roster.step flatcc) r₀ actions = some r) :
    Synced (lostFriends flatcc saved) r ∧ r.events.Tracked ∧ Unnamed (lostFriends flatcc saved) r := by
  have hfirst : r₀.events.Tracked ∧ Unnamed (lostFriends flatcc saved) r₀ := by
    obtain ⟨friends, -, rfl⟩ := Option.map_eq_some_iff.mp hnew
    exact ⟨EventLoop.init_tracked.1, fun f _ => ⟨List.forall_mem_nil _, List.forall_mem_nil _⟩⟩
  refine exec_invariant_along
    (I := fun s => Synced (lostFriends flatcc saved) s ∧ s.events.Tracked ∧
      Unnamed (lostFriends flatcc saved) s)
    (fun s a s' hs ha hs' => ?_) ⟨ioexNew_synced hnew htox, hfirst⟩ hdoc hrun
  obtain ⟨hsynced, htracked, hunnamed⟩ := hs
  have heffect := step_effect hsynced ha hs'
  exact ⟨heffect.synced hsynced, heffect.tracked htracked, heffect.unnamed hsynced htracked hunnamed⟩

/-- In every state the friends are those of toxcore without the lost ones, each under the text of its
key only, and `IOEX_get_friend_info` answers for these. -/
theorem friends_synced (hnew : ioexNew flatcc me base58Addr saved = some r₀)
    (htox : ToxList (saved.map SavedFriend.friend))
    (hdoc : Along (Roster.step flatcc) Roster.Documented r₀ actions)
    (hrun : exec (Roster.step flatcc) r₀ actions = some r) (s behind : Bytes) (hs : FewOnes s) :
    (r.isFriend s behind = true ↔
        ∃ f ∈ r.tox, f ∉ lostFriends flatcc saved ∧ s = keyText f.publicKey) ∧
      ∃ answer, r.getFriendInfo s behind = some answer ∧
        ((∃ e, answer = .ok e ∧ e.userid = s) ↔ r.isFriend s behind = true) := by
  have hsynced := (exec_synced hnew htox hdoc hrun).1
  exact ⟨hsynced.isFriend_iff hs behind, hsynced.getFriendInfo_spec hs behind⟩

/-- Two saved friends; the description of the second is no packet. -/
def savedPair : List SavedFriend :=
  [⟨⟨0, List.replicate 31 0 ++ [1]⟩, 0, [], true⟩, ⟨⟨1, List.replicate 31 0 ++ [2]⟩, 0, [1], true⟩]

def savedStart : Roster :=
  ⟨[], [], false, false, savedPair.map SavedFriend.friend,
    [ToxFriend.entry ⟨0, List.replicate 31 0 ++ [1]⟩], .init, []⟩

theorem ioexNew_savedPair : ioexNew plainLibrary [] [] savedPair = some savedStart := by
  rfl

theorem savedPair_toxList : ToxList (savedPair.map SavedFriend.friend) where
  numbers := by decide
  keys := by decide
  told := by
    apply toldApart_small.mono
    rintro _ ⟨f, hf, rfl⟩
    revert f
    decide
  length_key := by decide

/-- The carrier is connected, and so are the two; then the first of them is removed. -/
def connectedRun : List RosterAction :=
  [.run, .connection true, .friendConnection 0 true, .friendConnection 1 true,
    .removeFriend (keyText (List.replicate 31 0 ++ [1])) [] [] true, .doFriendEvents, .nextEvent,
    .eventReturn, .nextEvent]

theorem connectedRun_documented :
    Along (Roster.step plainLibrary) Roster.Documented savedStart connectedRun := by
  refine ⟨trivial, fun r₁ h₁ => ⟨trivial, fun r₂ h₂ => ?_⟩⟩
  obtain rfl := Option.some.inj h₁
  obtain rfl := Option.some.inj h₂
  refine ⟨⟨_, .head _, rfl⟩, fun r₃ h₃ => ?_⟩
  obtain rfl := Option.some.inj h₃
  refine ⟨⟨_, .tail _ (.head _), rfl⟩, fun _ _ => ⟨keyText_fewOnes rfl, fun _ _ => ?_⟩⟩
  exact ⟨trivial, fun _ _ => ⟨trivial, fun _ _ => ⟨trivial, fun _ _ => ⟨trivial, fun _ _ => trivial⟩⟩⟩⟩

theorem connectedRun_isSome :
    (exec (Roster.step plainLibrary) savedStart connectedRun).isSome = true := by
  decide +kernel

theorem friends_synced_savedPair : ∃ r,
    exec (Roster.step plainLibrary) savedStart connectedRun = some r ∧
      (r.isFriend (keyText (List.replicate 31 0 ++ [1])) [] = true ↔ ∃ f ∈ r.tox,
        f ∉ lostFriends plainLibrary savedPair ∧
          keyText (List.replicate 31 0 ++ [1]) = keyText f.publicKey) := by
  obtain ⟨r, hr⟩ := Option.isSome_iff_exists.mp connectedRun_isSome
  exact ⟨r, hr, (friends_synced ioexNew_savedPair savedPair_toxList connectedRun_documented hr _ _
    (keyText_fewOnes rfl)).1⟩

/-- A friend that was behind a bad description when the carrier was made is shut out in every state
of its run, whatever the application and the DHT do. -/
theorem friends_shutOut (hnew : ioexNew flatcc me base58Addr saved = some r₀)
    (htox : ToxList (saved.map SavedFriend.friend))
    (hdoc : Along (Roster.step flatcc) Roster.Documented r₀ actions)
    (hrun : exec (Roster.step flatcc) r₀ actions = some r) (hf : f ∈ lostFriends flatcc saved) :
    ShutOut flatcc f r := by
  obtain ⟨hsynced, -, hunnamed⟩ := exec_synced hnew htox hdoc hrun
  exact hsynced.shutOut hunnamed hf

theorem friends_shutOut_savedPair : ∃ r,
    exec (Roster.step plainLibrary) savedStart connectedRun = some r ∧
      ShutOut plainLibrary ⟨1, List.replicate 31 0 ++ [2]⟩ r := by
  obtain ⟨r, hr⟩ := Option.isSome_iff_exists.mp connectedRun_isSome
  exact ⟨r, hr, friends_shutOut ioexNew_savedPair savedPair_toxList connectedRun_documented hr
    (by decide)⟩

end Runs

end Carrier.Core
