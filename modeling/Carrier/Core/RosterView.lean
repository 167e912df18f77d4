import Carrier.Core.RosterRuns

/-! What the application is told of its friends: as long as the DHT reports nothing of a friend of which
an event is waiting, and no callback of an event adds or removes a friend, the calls about it never
contradict each other, and in the end they agree with the table. -/
namespace Carrier.Core
open Carrier.Lib Carrier.Common Schema

/-- What the application knows of a friend after a call about it: nothing, or whether it is connected.
`none` is a call that contradicts what it has known. -/
def hear (known : Option Bool) : RosterCall → Option (Option Bool)
  | .friendList info => if known = none then some (info.map FriendEntry.status) else none
  | .friend (.friendAdded _) => if known = none then some (some false) else none
  | .friend (.friendConnection _ connected) =>
    if known = some (!connected) then some (some connected) else none
  | .friend (.friendRemoved _) => if known = some false then some none else none
  | .friendInfo _ => if known.isSome then some known else none
  | .friendPresence _ _ => if known.isSome then some known else none
  | .friendRequest _ _ => if known = none then some none else none
  | .ready => some known
  | .connectionStatus _ => some known

def callsAbout (userid : Bytes) (calls : List RosterCall) : List RosterCall :=
  calls.filter (fun call => call.about = some userid)

/-- What the application knows of a friend after all the calls. -/
def heard (userid : Bytes) (calls : List RosterCall) : Option (Option Bool) :=
  exec hear none (callsAbout userid calls)

namespace Roster

/-- The calls that the waiting events will lead to. -/
def pending (r : Roster) : List RosterCall := (r.events.waiting.flatMap doFriendEvent).map .friend

/-- Whether a friend is connected, if it is one. -/
def statusOf (r : Roster) (userid : Bytes) : Option Bool :=
  (r.friends.find? (fun e => e.userid = userid)).map FriendEntry.status

end Roster

/-- The calls made and those to come agree with the table; before `IOEX_run` there are none. -/
structure Told (r : Roster) : Prop where
  events : r.events.Tracked ∧ r.events.Clean
  before : r.running = false → r.calls = [] ∧ r.events.waiting = [] ∧ r.isReady = false
  agree : r.running = true → ∀ userid, heard userid (r.calls ++ r.pending) = some (r.statusOf userid)

section Hearing

variable {userid : Bytes} {a b calls : List RosterCall} {known : Option Bool}

theorem callsAbout_append : callsAbout userid (a ++ b) = callsAbout userid a ++ callsAbout userid b :=
  List.filter_append ..

theorem callsAbout_none (h : ∀ call ∈ calls, call.about ≠ some userid) : callsAbout userid calls = [] :=
  List.filter_eq_nil_iff.mpr (fun call hcall => by simpa using h call hcall)

theorem callsAbout_all (h : ∀ call ∈ calls, call.about = some userid) :
    callsAbout userid calls = calls :=
  List.filter_eq_self.mpr (fun call hcall => decide_eq_true (h call hcall))

theorem heard_append (h : heard userid a = some known) :
    heard userid (a ++ b) = exec hear known (callsAbout userid b) := by
  rw [heard, callsAbout_append, exec_append, show exec hear none (callsAbout userid a) = _ from h,
    Option.bind_some]

end Hearing

section Telling

variable {lost : List ToxFriend} {settled : Prop} {r r' : Roster} {e e' : FriendEntry} {userid : Bytes}

theorem Synced.eq_of_userid (h : Synced lost r) (he : e ∈ r.friends) (he' : e' ∈ r.friends)
    (hid : e.userid = e'.userid) : e.ident = e'.ident := by
  obtain ⟨f, hf, -, hident⟩ := h.mem_iff.mp ⟨e, he, rfl⟩
  obtain ⟨f', hf', -, hident'⟩ := h.mem_iff.mp ⟨e', he', rfl⟩
  have htext : keyText f.publicKey = keyText f'.publicKey :=
    (congrArg Prod.snd hident).trans (hid.trans (congrArg Prod.snd hident').symm)
  rw [← hident, ← hident', h.tox.eq_of_text hf hf' htext]

theorem Synced.idents_nodup (h : Synced lost r) : (r.friends.map FriendEntry.ident).Nodup := by
  rw [h.friends]
  refine (List.Nodup.of_map ToxFriend.publicKey (h.tox.filter _).keys).map_on (fun f hf f' hf' heq => ?_)
  exact h.tox.eq_of_number (List.mem_of_mem_filter hf) (List.mem_of_mem_filter hf')
    (congrArg Prod.fst heq)

theorem Synced.userids_nodup (h : Synced lost r) : (r.friends.map FriendEntry.userid).Nodup := by
  have hnodup : r.friends.Nodup := h.idents_nodup.of_map _
  refine hnodup.map_on (fun e he e' he' hid => ?_)
  exact List.inj_on_of_nodup_map h.idents_nodup he he' (h.eq_of_userid he he' hid)

theorem Synced.statusOf_mem (h : Synced lost r) (he : e ∈ r.friends) :
    r.statusOf e.userid = some e.status := by
  unfold Roster.statusOf
  cases hfind : r.friends.find? (fun x => x.userid = e.userid) with
  | none => exact absurd (List.find?_eq_none.mp hfind e he) (by simp)
  | some x =>
    have hid : x.userid = e.userid := by simpa using List.find?_some hfind
    rw [List.inj_on_of_nodup_map h.userids_nodup (List.mem_of_find?_eq_some hfind) he hid]
    rfl

theorem statusOf_eq_none (h : ∀ e ∈ r.friends, e.userid ≠ userid) : r.statusOf userid = none := by
  have hfind : r.friends.find? (fun e => e.userid = userid) = none :=
    List.find?_eq_none.mpr (fun e he => by simpa using h e he)
  rw [Roster.statusOf, hfind]
  rfl

/-- Nothing is known under a key that is new to toxcore. -/
theorem Synced.statusOf_new (h : Synced lost r) {publicKey : Bytes}
    (hlen : publicKey.length = dhtPublicKeySize) (hnew : ∀ f ∈ r.tox, f.publicKey ≠ publicKey) :
    r.statusOf (keyText publicKey) = none := by
  refine statusOf_eq_none (fun e he heq => ?_)
  obtain ⟨f, hf, -, hident⟩ := h.mem_iff.mp ⟨e, he, rfl⟩
  have htext : keyText f.publicKey = keyText publicKey := (congrArg Prod.snd hident).trans heq
  exact hnew f hf (keyText_injective (h.tox.length_key f hf) hlen htext)

theorem pending_about {call : RosterCall} (h : call ∈ r.pending) :
    ∃ event ∈ r.events.waiting, call.about = some event.userid := by
  obtain ⟨c, hc, rfl⟩ := List.mem_map.mp h
  obtain ⟨event, hevent, hc⟩ := List.mem_flatMap.mp hc
  exact ⟨event, hevent, doFriendEvent_about (List.mem_map_of_mem hc)⟩

theorem callsAbout_pending (h : r.Idle userid) : callsAbout userid r.pending = [] := by
  refine callsAbout_none (fun call hcall heq => ?_)
  obtain ⟨event, hevent, habout⟩ := pending_about hcall
  exact h event hevent (Option.some.inj (habout.symm.trans heq))

theorem heard_list {friends : List FriendEntry} (hnodup : (friends.map FriendEntry.userid).Nodup) :
    heard userid (friends.map (fun e => .friendList (some e)) ++ [.friendList none]) =
      some ((friends.find? (fun e => e.userid = userid)).map FriendEntry.status) := by
  have hend : callsAbout userid [.friendList none] = [] :=
    callsAbout_none (fun call hcall heq => by
      rw [List.mem_singleton.mp hcall] at heq
      cases heq)
  rw [heard, callsAbout_append, hend, List.append_nil]
  induction friends with
  | nil => rfl
  | cons e friends ih =>
    obtain ⟨hnew, hrest⟩ := List.nodup_cons.mp hnodup
    by_cases hid : e.userid = userid
    · have hothers : callsAbout userid (friends.map (fun e => .friendList (some e))) = [] := by
        refine callsAbout_none (fun call hcall heq => ?_)
        obtain ⟨x, hx, rfl⟩ := List.mem_map.mp hcall
        exact hnew (List.mem_map.mpr ⟨x, hx, (Option.some.inj heq).trans hid.symm⟩)
      have hcalls : callsAbout userid ((e :: friends).map (fun e => .friendList (some e))) =
          [.friendList (some e)] := by
        rw [List.map_cons, ← List.singleton_append, callsAbout_append, hothers, List.append_nil]
        exact callsAbout_all (fun call hcall => by
          rw [List.mem_singleton.mp hcall]
          exact congrArg some hid)
      rw [hcalls, List.find?_cons_of_pos (by simpa using hid)]
      rfl
    · have hcalls : callsAbout userid ((e :: friends).map (fun e => .friendList (some e))) =
          callsAbout userid (friends.map (fun e => .friendList (some e))) := by
        rw [List.map_cons, ← List.singleton_append, callsAbout_append]
        rw [callsAbout_none (fun call hcall heq => ?_), List.nil_append]
        rw [List.mem_singleton.mp hcall] at heq
        exact hid (Option.some.inj heq)
      rw [hcalls, List.find?_cons_of_neg (by simpa using hid)]
      exact ih hrest

/-- What is known of a friend depends on its own entry only. -/
theorem statusOf_congr (h : Synced lost r) (h' : Synced lost r')
    (hsame : ∀ x, x.userid = userid → (x ∈ r'.friends ↔ x ∈ r.friends)) :
    r'.statusOf userid = r.statusOf userid := by
  by_cases hex : ∃ x ∈ r.friends, x.userid = userid
  · obtain ⟨x, hx, rfl⟩ := hex
    rw [h.statusOf_mem hx, h'.statusOf_mem ((hsame x rfl).mpr hx)]
  · have hnone : ∀ x ∈ r.friends, x.userid ≠ userid := fun x hx hid => hex ⟨x, hx, hid⟩
    rw [statusOf_eq_none hnone, statusOf_eq_none (fun x hx hid => hnone x ((hsame x hid).mp hx) hid)]

section Logs

variable {known : Option Bool} {calls : List RosterCall}

/-- Calls that are not about a friend leave what is known of it. -/
theorem heard_insert (h : heard userid (r.calls ++ r.pending) = some known)
    (hcalls : ∀ call ∈ calls, call.about ≠ some userid) :
    heard userid (r.calls ++ calls ++ r.pending) = some known := by
  rw [← h, heard, heard]
  simp only [callsAbout_append, callsAbout_none hcalls, List.append_nil]

theorem heard_extend (h : heard userid (r.calls ++ r.pending) = some known) (hidle : r.Idle userid)
    (hcalls : ∀ call ∈ calls, call.about = some userid) :
    heard userid (r.calls ++ calls ++ r.pending) = exec hear known calls := by
  have hnothing := callsAbout_pending hidle
  have hnow : heard userid r.calls = some known := by
    rw [← h, heard, heard, callsAbout_append, hnothing, List.append_nil]
  rw [List.append_assoc, heard_append hnow, callsAbout_append, hnothing, List.append_nil,
    callsAbout_all hcalls]

/-- An event that is put into the queue. -/
theorem heard_push (h : heard userid (r.calls ++ r.pending) = some known)
    (hphase : EventLoop.isDelivering r.events.phase = false) (type : FriendEventType)
    (e : FriendEntry) :
    heard userid ((r.notifyFriend type e true).calls ++ (r.notifyFriend type e true).pending) =
      exec hear known (callsAbout userid ((doFriendEvent ⟨type, e.userid, e.status⟩).map .friend)) := by
  have hpending : (r.notifyFriend type e true).pending =
      r.pending ++ (doFriendEvent ⟨type, e.userid, e.status⟩).map .friend := by
    change ((r.events.notifyFriend _).waiting.flatMap doFriendEvent).map RosterCall.friend = _
    rw [EventLoop.waiting_notifyFriend _ hphase, List.flatMap_append, List.map_append,
      List.flatMap_singleton]
    rfl
  change heard userid (r.calls ++ (r.notifyFriend type e true).pending) = _
  rw [hpending, ← List.append_assoc, heard_append h]

theorem callsAbout_other {event : FriendEvent} (hid : event.userid ≠ userid) :
    callsAbout userid ((doFriendEvent event).map .friend) = [] :=
  callsAbout_none (fun _ hcall heq => hid (Option.some.inj ((doFriendEvent_about hcall).symm.trans heq)))

theorem callsAbout_own (event : FriendEvent) :
    callsAbout event.userid ((doFriendEvent event).map .friend) = (doFriendEvent event).map .friend :=
  callsAbout_all (fun _ hcall => doFriendEvent_about hcall)

end Logs

section Steps

theorem Told.of_running (hrun : r.running = true) (hevents : r.events.Tracked ∧ r.events.Clean)
    (h : ∀ userid, heard userid (r.calls ++ r.pending) = some (r.statusOf userid)) : Told r where
  events := hevents
  before hfalse := absurd (hrun.symm.trans hfalse) (by decide)
  agree _ := h

theorem Told.running (ht : Told r) (hready : r.isReady = true) : r.running = true := by
  by_contra hrun
  rw [Bool.not_eq_true] at hrun
  exact Bool.false_ne_true ((ht.before hrun).2.2.symm.trans hready)

theorem heard_added {f : ToxFriend} (h : Synced lost r)
    (h' : Synced lost ((r.store f.publicKey f.entry).notifyFriend .added f.entry true))
    (hlen : f.publicKey.length = dhtPublicKeySize)
    (htold : ToldApart (insert f.number (numbersOf r.tox)))
    (hnew : ∀ f' ∈ r.tox, f'.number ≠ f.number ∧ f'.publicKey ≠ f.publicKey) :
    exec hear (r.statusOf userid)
        (callsAbout userid ((doFriendEvent ⟨.added, f.entry.userid, f.entry.status⟩).map .friend)) =
      some (((r.store f.publicKey f.entry).notifyFriend .added f.entry true).statusOf userid) := by
  have hput : putFriend r.friends f.entry = r.friends ++ [f.entry] := h.putFriend_eq htold hnew
  by_cases hid : f.entry.userid = userid
  · subst hid
    have hmem : f.entry ∈ ((r.store f.publicKey f.entry).notifyFriend .added f.entry true).friends := by
      change f.entry ∈ putFriend r.friends f.entry
      rw [hput]
      exact List.mem_append_right _ List.mem_cons_self
    have hnobody : r.statusOf f.entry.userid = none :=
      h.statusOf_new hlen (fun f' hf' => (hnew f' hf').2)
    rw [callsAbout_own ⟨.added, f.entry.userid, f.entry.status⟩, hnobody, h'.statusOf_mem hmem]
    rfl
  · rw [callsAbout_other hid, exec_nil]
    congr 1
    refine (statusOf_congr h h' (fun x hx => ?_)).symm
    change x ∈ putFriend r.friends f.entry ↔ _
    rw [hput, List.mem_append, List.mem_singleton]
    refine or_iff_left (fun heq => hid ?_)
    rw [← heq]
    exact hx

theorem heard_removed (h : Synced lost r)
    (h' : Synced lost ((r.without e.friendNumber).notifyFriend .removed e true)) (he : e ∈ r.friends) :
    exec hear (r.statusOf userid)
        (callsAbout userid ((doFriendEvent ⟨.removed, e.userid, e.status⟩).map .friend)) =
      some (((r.without e.friendNumber).notifyFriend .removed e true).statusOf userid) := by
  have hleft (x : FriendEntry) :
      x ∈ ((r.without e.friendNumber).notifyFriend .removed e true).friends ↔
        x ∈ r.friends ∧ x.friendNumber ≠ e.friendNumber := by
    change x ∈ r.friends.filter _ ↔ _
    rw [List.mem_filter]
    simp
  by_cases hid : e.userid = userid
  · subst hid
    have hnobody : ((r.without e.friendNumber).notifyFriend .removed e true).statusOf e.userid = none := by
      refine statusOf_eq_none (fun x hx heq => ?_)
      obtain ⟨hx, hnumber⟩ := (hleft x).mp hx
      exact hnumber (congrArg Prod.fst (h.eq_of_userid hx he heq))
    rw [callsAbout_own ⟨.removed, e.userid, e.status⟩, h.statusOf_mem he, hnobody]
    cases e.status with
    | false => rfl
    | true => rfl
  · rw [callsAbout_other hid, exec_nil]
    congr 1
    refine (statusOf_congr h h' (fun x hx => ?_)).symm
    rw [hleft]
    refine and_iff_left_of_imp (fun hmem hnumber => hid ?_)
    rw [← hx]
    exact (congrArg Prod.snd (h.ident_eq hmem he hnumber)).symm

theorem hear_relayed {calls : List RosterCall} (hcalls : Relayed e e' calls) :
    exec hear (some e.status) calls = some (some e'.status) := by
  cases hcalls with
  | connection hstatus =>
    have hknown : some e.status = some (!e'.status) :=
      congrArg some (Bool.eq_not_of_ne hstatus.symm)
    exact congrArg (Option.bind · _) (if_pos hknown)
  | presence hstatus =>
    rw [hstatus]
    rfl
  | info hstatus =>
    rw [hstatus]
    rfl
  | silent hstatus =>
    rw [hstatus]
    rfl

end Steps

/-- A pushed event keeps the queue in order. -/
theorem notifyFriend_events (h : r.events.Tracked ∧ r.events.Clean)
    (hphase : ∀ it, r.events.phase ≠ .looping it) (hfits : r.PushFits true) (type : FriendEventType)
    (e : FriendEntry) :
    (r.notifyFriend type e true).events.Tracked ∧ (r.notifyFriend type e true).events.Clean := by
  obtain ⟨htracked, hclean⟩ := EventLoop.keeps_notifyFriend h.1 ⟨type, e.userid, e.status⟩ hphase
  exact ⟨htracked, hclean.mpr ⟨h.2, hfits.2⟩⟩

/-- What a round of `do_friend_events` delivers has been waiting. -/
theorem heard_delivered (h : r.events.Tracked ∧ r.events.Clean) {a : EventAction} {w : EventLoop}
    (hown : EventLoop.Own a) (hstep : r.events.step a = some w) :
    (r.afterEvents w).calls ++ (r.afterEvents w).pending = r.calls ++ r.pending := by
  have hwaiting := EventLoop.waiting_step h.1 h.2 hown hstep
  have hcalls : (w.delivered.drop r.events.delivered.length).flatMap (doFriendEvent ·.data) =
      ((w.delivered.drop r.events.delivered.length).map ListEntry.data).flatMap doFriendEvent :=
    (List.flatMap_map ..).symm
  rw [Roster.pending, Roster.pending, hwaiting, List.flatMap_append, List.map_append,
    ← List.append_assoc, ← hcalls]
  rfl

/-- The friends whose entry is not the one that is changed are seen as before. -/
theorem statusOf_changed {calls : List RosterCall} (h : Synced lost r)
    (h' : Synced lost { r.changed e' with calls := calls }) (he : e ∈ r.friends)
    (hsame : e'.ident = e.ident) (hid : e.userid ≠ userid) :
    ({ r.changed e' with calls := calls } : Roster).statusOf userid = r.statusOf userid := by
  have hid' : e'.userid = e.userid := congrArg Prod.snd hsame
  have hnumber : e'.friendNumber = e.friendNumber := congrArg Prod.fst hsame
  apply statusOf_congr h h'
  intro x hx
  change x ∈ r.friends.map (fun x => if x.friendNumber = e'.friendNumber then e' else x) ↔ _
  rw [List.mem_map]
  constructor
  · rintro ⟨y, hy, rfl⟩
    split_ifs at hx ⊢ with heq
    · exact absurd (hid'.symm.trans hx) hid
    · exact hy
  · intro hxmem
    refine ⟨x, hxmem, if_neg (fun heq => hid ?_)⟩
    rw [← hx]
    exact congrArg Prod.snd (h.ident_eq he hxmem (hnumber.symm.trans heq.symm))

theorem Effect.told (heffect : Effect settled r r') (hset : settled) (h : Synced lost r) (ht : Told r) :
    Told r' := by
  have h' := heffect.synced h
  cases heffect with
  | idle => exact ht
  | run hrun =>
    obtain ⟨hcalls, hevents, -⟩ := ht.before hrun
    refine .of_running rfl ht.events (fun userid => ?_)
    change heard userid ((r.calls ++ _) ++ (r.events.waiting.flatMap doFriendEvent).map .friend) = _
    rw [hcalls, hevents, List.nil_append, List.flatMap_nil, List.map_nil, List.append_nil]
    exact heard_list h.userids_nodup
  | connection hrun isReady calls hcalls =>
    refine .of_running hrun ht.events (fun userid => ?_)
    exact heard_insert (ht.agree hrun userid)
      (fun call hcall heq => Option.some_ne_none userid (heq.symm.trans (hcalls call hcall)))
  | added hready f queued hlen htold hnew hphase hqueued =>
    have hfits := hqueued hset
    obtain rfl := hfits.1
    have hrun := ht.running hready
    refine .of_running hrun ?_ (fun userid => ?_)
    · exact notifyFriend_events (r := r.store f.publicKey f.entry) ht.events hphase hfits _ _
    · have hpush := heard_push (r := r.store f.publicKey f.entry) (ht.agree hrun userid) hfits.2
        .added f.entry
      exact hpush.trans (heard_added h h' hlen htold hnew)
  | removed hready e queued he hphase hqueued =>
    have hfits := hqueued hset
    obtain rfl := hfits.1
    have hrun := ht.running hready
    refine .of_running hrun ?_ (fun userid => ?_)
    · exact notifyFriend_events (r := r.without e.friendNumber) ht.events hphase hfits _ _
    · have hpush := heard_push (r := r.without e.friendNumber) (ht.agree hrun userid) hfits.2
        .removed e
      exact hpush.trans (heard_removed h h' he)
  | reported hrun e e' calls he hsame hcalls hidle =>
    refine .of_running hrun ht.events (fun userid => ?_)
    have hid' : e'.userid = e.userid := congrArg Prod.snd hsame
    have hnumber : e'.friendNumber = e.friendNumber := congrArg Prod.fst hsame
    by_cases hid : e.userid = userid
    · subst hid
      have hmem' : e' ∈ r.friends.map (fun x => if x.friendNumber = e'.friendNumber then e' else x) :=
        List.mem_map.mpr ⟨e, he, if_pos hnumber.symm⟩
      have hextend := heard_extend (ht.agree hrun e.userid) (hidle hset)
        (fun call hcall => hcalls.about hsame hcall)
      refine hextend.trans ?_
      rw [h.statusOf_mem he, hear_relayed hcalls, ← hid']
      exact congrArg some (h'.statusOf_mem hmem').symm
    · have hinsert := heard_insert (ht.agree hrun userid)
        (fun call hcall heq => hid (Option.some.inj ((hcalls.about hsame hcall).symm.trans heq)))
      exact hinsert.trans (congrArg some (statusOf_changed h h' he hsame hid).symm)
  | requested hrun publicKey info hello hlen hid hnew hidle =>
    refine .of_running hrun ht.events (fun userid => ?_)
    by_cases hown : keyText publicKey = userid
    · subst hown
      have habout : ∀ call ∈ [RosterCall.friendRequest info hello],
          call.about = some (keyText publicKey) := by
        intro call hcall
        rw [List.mem_singleton.mp hcall]
        exact congrArg some hid
      refine (heard_extend (ht.agree hrun (keyText publicKey)) (hidle hset) habout).trans ?_
      change _ = some (r.statusOf (keyText publicKey))
      rw [h.statusOf_new hlen hnew]
      rfl
    · have hothers : ∀ call ∈ [RosterCall.friendRequest info hello], call.about ≠ some userid := by
        intro call hcall heq
        rw [List.mem_singleton.mp hcall] at heq
        exact hown (hid.symm.trans (Option.some.inj heq))
      exact heard_insert (ht.agree hrun userid) hothers
  | delivered hrun a w hown hstep =>
    obtain ⟨htracked, hclean⟩ := EventLoop.keeps_step ht.events.1 hstep
    refine .of_running hrun ⟨htracked, hclean.mpr ⟨ht.events.2, hown.quiet _⟩⟩ (fun userid => ?_)
    rw [heard_delivered ht.events hown hstep]
    exact ht.agree hrun userid

end Telling

section Views

variable {flatcc : BufferLibrary} {saved : List SavedFriend} {me base58Addr : Bytes} {r₀ r : Roster}
  {actions : List RosterAction}

theorem exec_told (hnew : ioexNew flatcc me base58Addr saved = some r₀)
    (htox : ToxList (saved.map SavedFriend.friend))
    (hdoc : Along (Roster.step flatcc) (fun r a => r.Documented a ∧ r.Settled a) r₀ actions)
    (hrun : exec (Roster.step flatcc) r₀ actions = some r) :
    Synced (lostFriends flatcc saved) r ∧ Told r := by
  have hfirst : Told r₀ := by
    obtain ⟨friends, -, rfl⟩ := Option.map_eq_some_iff.mp hnew
    exact ⟨EventLoop.init_tracked, fun _ => ⟨rfl, rfl, rfl⟩, fun hrun => absurd hrun Bool.false_ne_true⟩
  refine exec_invariant_along (I := fun s => Synced (lostFriends flatcc saved) s ∧ Told s)
    (fun s a s' hs ha hs' => ?_) ⟨ioexNew_synced hnew htox, hfirst⟩ hdoc hrun
  have heffect := step_effect hs.1 ha.1 hs'
  exact ⟨heffect.synced hs.1, heffect.told ha.2 hs.1 hs.2⟩

/-- The calls about any friend never contradict each other, and once no event of it is waiting, what the
application knows of it is what the table says. -/
theorem friends_told (hnew : ioexNew flatcc me base58Addr saved = some r₀)
    (htox : ToxList (saved.map SavedFriend.friend))
    (hdoc : Along (Roster.step flatcc) (fun r a => r.Documented a ∧ r.Settled a) r₀ actions)
    (hrun : exec (Roster.step flatcc) r₀ actions = some r) (hrunning : r.running = true)
    (userid : Bytes) :
    ∃ known, heard userid r.calls = some known ∧ (r.Idle userid → known = r.statusOf userid) := by
  have hagree := (exec_told hnew htox hdoc hrun).2.agree hrunning userid
  cases hheard : heard userid r.calls with
  | none =>
    rw [heard, callsAbout_append, exec_append, show exec hear none (callsAbout userid r.calls) = none
      from hheard] at hagree
    cases hagree
  | some known =>
    refine ⟨known, rfl, fun hidle => ?_⟩
    rw [heard_append hheard, callsAbout_pending hidle] at hagree
    exact Option.some.inj hagree

theorem connectedRun_settled : Along (Roster.step plainLibrary)
    (fun r a => r.Documented a ∧ r.Settled a) savedStart connectedRun := by
  refine ⟨⟨trivial, trivial⟩, fun r₁ h₁ => ⟨⟨trivial, trivial⟩, fun r₂ h₂ => ?_⟩⟩
  obtain rfl := Option.some.inj h₁
  obtain rfl := Option.some.inj h₂
  refine ⟨⟨⟨_, .head _, rfl⟩, fun _ _ => List.forall_mem_nil _⟩, fun r₃ h₃ => ?_⟩
  obtain rfl := Option.some.inj h₃
  refine ⟨⟨⟨_, .tail _ (.head _), rfl⟩, fun _ _ => List.forall_mem_nil _⟩, fun r₄ h₄ => ?_⟩
  obtain rfl := Option.some.inj h₄
  refine ⟨⟨keyText_fewOnes rfl, fun _ _ => ⟨rfl, rfl⟩⟩, fun _ _ => ?_⟩
  exact ⟨⟨trivial, trivial⟩, fun _ _ => ⟨⟨trivial, trivial⟩, fun _ _ => ⟨⟨trivial, trivial⟩,
    fun _ _ => ⟨⟨trivial, trivial⟩, fun _ _ => trivial⟩⟩⟩⟩

theorem friends_told_savedPair : ∃ r,
    exec (Roster.step plainLibrary) savedStart connectedRun = some r ∧ ∃ known,
      heard (keyText (List.replicate 31 0 ++ [1])) r.calls = some known ∧
        (r.Idle (keyText (List.replicate 31 0 ++ [1])) →
          known = r.statusOf (keyText (List.replicate 31 0 ++ [1]))) := by
  have hrunning : (exec (Roster.step plainLibrary) savedStart connectedRun).map Roster.running =
      some true := by
    decide +kernel
  obtain ⟨r, hr, hrun⟩ := Option.map_eq_some_iff.mp hrunning
  exact ⟨r, hr, friends_told ioexNew_savedPair savedPair_toxList connectedRun_settled hr hrun _⟩

end Views

end Carrier.Core
