import Carrier.Core.Roster

/-! The friends of a carrier are those of toxcore, apart from the ones that loading did not come to:
`dht_get_friends` stops at the first description that is no user info, and what is behind it can neither
be used nor be added again. -/
namespace Carrier.Core
open Carrier.Lib Carrier.Common Schema

/-- `base58_decode` can count the ones that the text begins with. -/
def FewOnes (s : Bytes) : Prop := (s.takeWhile (· = 49)).length < 2 ^ 32

instance (s : Bytes) : Decidable (FewOnes s) := inferInstanceAs (Decidable (_ < _))

section Ids

variable {publicKey s : Bytes}

theorem keyText_eq (h : publicKey.length = dhtPublicKeySize) :
    keyText publicKey = base58Text publicKey := by
  have hle : (base58Text publicKey).length ≤ 44 := by
    apply length_base58Text_le
    rw [h, dhtPublicKeySize]
    norm_num
  rw [keyText, base58Encode_eq, if_neg (by rw [maxIdLen]; omega)]
  rfl

theorem keyText_injective {publicKey' : Bytes} (h : publicKey.length = dhtPublicKeySize)
    (h' : publicKey'.length = dhtPublicKeySize) (heq : keyText publicKey = keyText publicKey') :
    publicKey = publicKey' := by
  rw [keyText_eq h, keyText_eq h'] at heq
  have hbytes := base58Bytes_base58Text publicKey
  rw [heq, base58Bytes_base58Text] at hbytes
  exact (Option.some.inj hbytes).symm

theorem takeWhile_zero_lt (h : publicKey.length = dhtPublicKeySize) :
    (publicKey.takeWhile (· = 0)).length < 2 ^ 32 := by
  have hle : (publicKey.takeWhile (· = 0)).length ≤ publicKey.length :=
    (List.takeWhile_sublist _).length_le
  rw [h, dhtPublicKeySize] at hle
  omega

theorem keyText_fewOnes (h : publicKey.length = dhtPublicKeySize) : FewOnes (keyText publicKey) := by
  rw [FewOnes, keyText_eq h, takeWhile_base58Text]
  exact takeWhile_zero_lt h

theorem friendKey_eq_some_iff (hs : FewOnes s) :
    friendKey s = some (publicKey, dhtPublicKeySize) ↔
      publicKey.length = dhtPublicKeySize ∧ s = keyText publicKey := by
  unfold friendKey
  cases hbytes : base58Bytes s with
  | none =>
    rw [base58Decode_self_none hbytes]
    apply iff_of_false (Option.some_ne_none _).symm
    rintro ⟨hlen, rfl⟩
    rw [keyText_eq hlen, base58Bytes_base58Text] at hbytes
    cases hbytes
  | some bytes =>
    have hz : (bytes.takeWhile (· = 0)).length < 2 ^ 32 := by
      rw [← takeWhile_base58Text, ← base58Bytes_eq_some_iff.mp hbytes]
      exact hs
    rw [fills_iff hbytes hz]
    constructor
    · rintro ⟨hlen, rfl⟩
      exact ⟨hlen, (base58Bytes_eq_some_iff.mp hbytes).trans (keyText_eq hlen).symm⟩
    · rintro ⟨hlen, rfl⟩
      rw [keyText_eq hlen, base58Bytes_base58Text] at hbytes
      cases hbytes
      exact ⟨hlen, rfl⟩

theorem isValidKey_iff_keyText (hs : FewOnes s) :
    isValidKey s ↔ ∃ publicKey, publicKey.length = dhtPublicKeySize ∧ s = keyText publicKey := by
  have hone : OneSpelling s := by
    cases hbytes : base58Bytes s with
    | none => exact .of_none hbytes
    | some bytes =>
      apply OneSpelling.of_bytes hbytes
      rw [← takeWhile_base58Text, ← base58Bytes_eq_some_iff.mp hbytes]
      exact hs
  rw [hone.key]
  exact exists_congr (fun publicKey => friendKey_eq_some_iff hs)

theorem getFriendNumber_keyText (dht : Bytes → Option ℕ) (h : publicKey.length = dhtPublicKeySize) :
    getFriendNumber dht (keyText publicKey) = (dht publicKey).elim (.error .notExist) .ok := by
  have hkey := (friendKey_eq_some_iff (keyText_fewOnes h)).mpr ⟨h, rfl⟩
  unfold getFriendNumber
  simp only [hkey, ne_eq, not_true_eq_false, if_false]
  cases dht publicKey with
  | none => rfl
  | some n => rfl

/-- A number is found for the text of a key that the DHT knows, and for no other. -/
theorem getFriendNumber_ok_iff (hs : FewOnes s) {dht : Bytes → Option ℕ} {friendNumber : ℕ} :
    getFriendNumber dht s = .ok friendNumber ↔
      ∃ publicKey, publicKey.length = dhtPublicKeySize ∧ s = keyText publicKey ∧
        dht publicKey = some friendNumber := by
  constructor
  · intro hok
    unfold getFriendNumber at hok
    cases hkey : friendKey s with
    | none => simp [hkey] at hok
    | some result =>
      obtain ⟨publicKey, len⟩ := result
      simp only [hkey] at hok
      by_cases hlen : len = dhtPublicKeySize
      · subst hlen
        rw [if_neg (not_not.mpr rfl)] at hok
        obtain ⟨hlength, htext⟩ := (friendKey_eq_some_iff hs).mp hkey
        refine ⟨publicKey, hlength, htext, ?_⟩
        cases hdht : dht publicKey with
        | none => simp [hdht] at hok
        | some n =>
          rw [hdht] at hok
          cases hok
          rfl
      · rw [if_pos hlen] at hok
        cases hok
  · rintro ⟨publicKey, hlength, rfl, hdht⟩
    rw [getFriendNumber_keyText dht hlength, hdht, Option.elim_some]

end Ids

def ToxFriend.ident (f : ToxFriend) : ℕ × Bytes := (f.number, keyText f.publicKey)

def FriendEntry.ident (e : FriendEntry) : ℕ × Bytes := (e.friendNumber, e.userid)

/-- Friend numbers that the friends table tells apart. -/
structure ToldApart (M : Set ℕ) : Prop where
  lt : ∀ n ∈ M, n < 2 ^ 32 - 1
  plain : PlainNumbers (Set.image (BitVec.ofNat 32) M)

/-- The friend numbers of toxcore are indices of its list: as long as these are small, the table tells
them apart. -/
theorem toldApart_small : ToldApart {n | n < 65536} where
  lt n hn := by
    have hlt : n < 65536 := hn
    omega
  plain := by
    apply plainNumbers_small.mono
    rintro _ ⟨n, hn, rfl⟩
    have hlt : n < 65536 := hn
    change (BitVec.ofNat 32 n).toNat < 65536
    rw [BitVec.toNat_ofNat]
    omega

theorem ToldApart.mono {M M' : Set ℕ} (h : ToldApart M) (hsub : M' ⊆ M) : ToldApart M' where
  lt n hn := h.lt n (hsub hn)
  plain := h.plain.mono (Set.image_mono hsub)

theorem ToldApart.keyed_eq {M : Set ℕ} (h : ToldApart M) {f : FriendArg} (hf : f.number ∈ M)
    {e : FriendEntry} (he : e.friendNumber ∈ M) :
    keyed FriendEntry.key f.key e = decide (e.friendNumber = f.number) := by
  have hlt := h.lt _ hf
  have hlt' := h.lt _ he
  rw [h.plain.keyed_eq ⟨_, hf, rfl⟩ ⟨_, he, rfl⟩]
  apply decide_eq_decide.mpr
  change BitVec.ofNat 32 e.friendNumber = BitVec.ofNat 32 f.number ↔ _
  constructor
  · intro heq
    have hnat := congrArg BitVec.toNat heq
    rw [BitVec.toNat_ofNat, BitVec.toNat_ofNat] at hnat
    omega
  · exact fun heq => congrArg _ heq

def numbersOf (tox : List ToxFriend) : Set ℕ := {n | ∃ f ∈ tox, f.number = n}

theorem mem_numbersOf {tox : List ToxFriend} {f : ToxFriend} (h : f ∈ tox) : f.number ∈ numbersOf tox :=
  ⟨f, h, rfl⟩

/-- No number and no key comes twice in the list of toxcore, and the table tells the numbers apart. -/
structure ToxList (tox : List ToxFriend) : Prop where
  numbers : (tox.map ToxFriend.number).Nodup
  keys : (tox.map ToxFriend.publicKey).Nodup
  told : ToldApart (numbersOf tox)
  length_key : ∀ f ∈ tox, f.publicKey.length = dhtPublicKeySize

theorem ToxList.number_lt {tox : List ToxFriend} (h : ToxList tox) {f : ToxFriend} (hf : f ∈ tox) :
    f.number < 2 ^ 32 - 1 := h.told.lt _ (mem_numbersOf hf)

/-- The friends are those of toxcore that are not lost. -/
structure Synced (lost : List ToxFriend) (r : Roster) : Prop where
  tox : ToxList r.tox
  held : ∀ f ∈ lost, f ∈ r.tox
  friends : r.friends.map FriendEntry.ident = (r.tox.filter (fun f => f ∉ lost)).map ToxFriend.ident

section Lookup

variable {lost : List ToxFriend} {r : Roster} {f f' : ToxFriend} {e : FriendEntry} {n : ℕ}

theorem ToxList.eq_of_number {tox : List ToxFriend} (h : ToxList tox) (hf : f ∈ tox) (hf' : f' ∈ tox)
    (heq : f.number = f'.number) : f = f' :=
  List.inj_on_of_nodup_map h.numbers hf hf' heq

theorem ToxList.eq_of_key {tox : List ToxFriend} (h : ToxList tox) (hf : f ∈ tox) (hf' : f' ∈ tox)
    (heq : f.publicKey = f'.publicKey) : f = f' :=
  List.inj_on_of_nodup_map h.keys hf hf' heq

theorem ToxList.eq_of_text {tox : List ToxFriend} (h : ToxList tox) (hf : f ∈ tox) (hf' : f' ∈ tox)
    (heq : keyText f.publicKey = keyText f'.publicKey) : f = f' :=
  h.eq_of_key hf hf' (keyText_injective (h.length_key f hf) (h.length_key f' hf') heq)

theorem dhtGetFriendNumber_eq_some_iff (h : ToxList r.tox) {publicKey : Bytes} :
    r.dhtGetFriendNumber publicKey = some n ↔ ⟨n, publicKey⟩ ∈ r.tox := by
  unfold Roster.dhtGetFriendNumber
  rw [Option.map_eq_some_iff]
  constructor
  · rintro ⟨f, hfind, rfl⟩
    have hkey : f.publicKey = publicKey := by simpa using List.find?_some hfind
    subst hkey
    exact List.mem_of_find?_eq_some hfind
  · intro hmem
    cases hfind : r.tox.find? (fun f => f.publicKey = publicKey) with
    | none => exact absurd (List.find?_eq_none.mp hfind _ hmem) (by simp)
    | some f =>
      have hkey : f.publicKey = publicKey := by simpa using List.find?_some hfind
      have heq := h.eq_of_key (List.mem_of_find?_eq_some hfind) hmem hkey
      exact ⟨f, rfl, congrArg ToxFriend.number heq⟩

theorem Synced.mem_iff (h : Synced lost r) {ident : ℕ × Bytes} :
    (∃ e ∈ r.friends, e.ident = ident) ↔ ∃ f ∈ r.tox, f ∉ lost ∧ f.ident = ident := by
  have hmem : ident ∈ r.friends.map FriendEntry.ident ↔
      ident ∈ (r.tox.filter (fun f => f ∉ lost)).map ToxFriend.ident := by rw [h.friends]
  rw [List.mem_map, List.mem_map] at hmem
  rw [hmem]
  simp only [List.mem_filter, decide_eq_true_eq, and_assoc]

theorem Synced.of_mem (h : Synced lost r) (he : e ∈ r.friends) :
    ∃ f ∈ r.tox, f ∉ lost ∧ f.number = e.friendNumber ∧ e.userid = keyText f.publicKey := by
  obtain ⟨f, hf, hlost, hident⟩ := h.mem_iff.mp ⟨e, he, rfl⟩
  obtain ⟨hnum, htext⟩ := Prod.mk.inj hident
  exact ⟨f, hf, hlost, hnum, htext.symm⟩

theorem Synced.keyed_eq (h : Synced lost r) {arg : FriendArg} (harg : arg.number ∈ numbersOf r.tox) :
    ∀ e ∈ r.friends, keyed FriendEntry.key arg.key e = decide (e.friendNumber = arg.number) := by
  intro e he
  obtain ⟨f, hf, -, hnumber, -⟩ := h.of_mem he
  exact h.tox.told.keyed_eq harg ⟨f, hf, hnumber⟩

/-- What the lookup of a friend of toxcore finds has its number. -/
theorem Synced.friendsGet_eq_some (h : Synced lost r) {arg : FriendArg}
    (harg : arg.number ∈ numbersOf r.tox) (hget : r.friendsGet arg = some e) :
    e ∈ r.friends ∧ e.friendNumber = arg.number := by
  have he := mem_of_findFriend hget
  have hkeyed := keyed_of_findFriend hget
  refine ⟨he, ?_⟩
  rw [← decide_eq_true_eq (p := e.friendNumber = arg.number), ← h.keyed_eq harg e he]
  exact hkeyed

theorem Synced.friendsGet_of_mem (h : Synced lost r) (hf : f ∈ r.tox) (hlost : f ∉ lost)
    (behind : Bytes) : ∃ e, r.friendsGet ⟨f.number, behind⟩ = some e ∧ e.userid = keyText f.publicKey := by
  obtain ⟨e, he, hident⟩ := h.mem_iff.mpr ⟨f, hf, hlost, rfl⟩
  have hsome : (r.friendsGet ⟨f.number, behind⟩).isSome := by
    rw [Roster.friendsGet, findFriend, List.find?_isSome]
    refine ⟨e, he, ?_⟩
    rw [h.keyed_eq (mem_numbersOf hf) e he, decide_eq_true_eq]
    exact congrArg Prod.fst hident
  obtain ⟨e', hget⟩ := Option.isSome_iff_exists.mp hsome
  obtain ⟨he', hnumber'⟩ := h.friendsGet_eq_some (mem_numbersOf hf) hget
  obtain ⟨f', hf', -, hnumber, htext⟩ := h.of_mem he'
  cases h.tox.eq_of_number hf' hf (hnumber.trans hnumber')
  exact ⟨e', hget, htext⟩

theorem Synced.friendsGet_of_lost (h : Synced lost r) (hf : f ∈ lost) (behind : Bytes) :
    r.friendsGet ⟨f.number, behind⟩ = none := by
  by_contra hne
  obtain ⟨e, hget⟩ := Option.ne_none_iff_exists'.mp hne
  have hheld := h.held f hf
  obtain ⟨he, hnumber'⟩ := h.friendsGet_eq_some (mem_numbersOf hheld) hget
  obtain ⟨f', hf', hnot, hnumber, -⟩ := h.of_mem he
  cases h.tox.eq_of_number hf' hheld (hnumber.trans hnumber')
  exact hnot hf

end Lookup

/-- The friend that a call of the application is about. -/
def RosterCall.about : RosterCall → Option Bytes
  | .ready => none
  | .connectionStatus _ => none
  | .friendList info => info.map FriendEntry.userid
  | .friendInfo info => some info.userid
  | .friend (.friendAdded userid) => some userid
  | .friend (.friendConnection userid _) => some userid
  | .friend (.friendRemoved userid) => some userid
  | .friendPresence userid _ => some userid
  | .friendRequest info _ => some info.userid

/-- A number that toxcore hands out is free, and the table tells it from the others. -/
def FreshAnswer (tox : List ToxFriend) (answer : Except ℤ ℕ) : Prop :=
  ∀ n, answer = .ok n → (∀ f ∈ tox, f.number ≠ n) ∧ ToldApart (insert n (numbersOf tox))

/-- What toxcore promises of an action, and that a text that is taken for an id can be counted. -/
def Roster.Documented (r : Roster) : RosterAction → Prop
  | .addFriend _ ctx => FreshAnswer r.tox ctx.answer
  | .acceptFriend userid ctx => FewOnes userid ∧ FreshAnswer r.tox ctx.answer
  | .removeFriend friendid _ _ _ => FewOnes friendid
  | .friendConnection f _ | .friendStatus f _ | .description f _ _ => f.number ∈ numbersOf r.tox
  | .friendRequest publicKey _ => publicKey.length = dhtPublicKeySize
  | _ => True

def Roster.Idle (r : Roster) (userid : Bytes) : Prop :=
  ∀ event ∈ r.events.waiting, event.userid ≠ userid

/-- The event of a change finds memory, and no event is being delivered. -/
def Roster.PushFits (r : Roster) (queued : Bool) : Prop :=
  queued = true ∧ EventLoop.isDelivering r.events.phase = false

/-- A friend is added or removed with memory for its event, and by no callback of an event; and the DHT
reports nothing of a friend of which an event is waiting. -/
def Roster.Settled (r : Roster) : RosterAction → Prop
  | .addFriend address ctx => ∀ r', r.addFriend address ctx = .ok r' → r.PushFits ctx.queued
  | .acceptFriend userid ctx =>
    ∀ r', r.acceptFriend userid ctx = some (.ok r') → r.PushFits ctx.queued
  | .removeFriend friendid behind behind' queued =>
    ∀ r', r.removeFriend friendid behind behind' queued = some (.ok r') → r.PushFits queued
  | .friendConnection f _ | .friendStatus f _ | .description f _ _ =>
    ∀ e ∈ r.friendsGet f, r.Idle e.userid
  | .friendRequest publicKey _ => r.Idle (keyText publicKey)
  | _ => True

/-- How the calls that a report of the DHT leads to fit the change of the friend. -/
inductive Relayed (e e' : FriendEntry) : List RosterCall → Prop
  | connection (hstatus : e'.status ≠ e.status) :
      Relayed e e' [.friend (.friendConnection e.userid e'.status)]
  | presence (hstatus : e'.status = e.status) : Relayed e e' [.friendPresence e.userid e'.presence]
  | info (hstatus : e'.status = e.status) : Relayed e e' [.friendInfo e']
  | silent (hstatus : e'.status = e.status) : Relayed e e' []

/-- The entry of a friend that has just been added. -/
def ToxFriend.entry (f : ToxFriend) : FriendEntry :=
  newEntry f.number (keyText f.publicKey) (length_keyText _)

/-- The carrier without the friend of a number. -/
def Roster.without (r : Roster) (n : ℕ) : Roster :=
  { r with
    tox := r.tox.filter (fun f => f.number ≠ n)
    friends := r.friends.filter (fun e => e.friendNumber ≠ n) }

/-- The carrier with another entry of a friend. -/
def Roster.changed (r : Roster) (e : FriendEntry) : Roster :=
  { r with friends := r.friends.map (fun x => if x.friendNumber = e.friendNumber then e else x) }

/-- All that a step can do, and what more is known of it where it is settled. -/
inductive Effect (settled : Prop) (r : Roster) : Roster → Prop
  | idle : Effect settled r r
  | run (hrun : r.running = false) : Effect settled r { r.notifyFriends with running := true }
  | connection (hrun : r.running = true) (isReady : Bool) (calls : List RosterCall)
      (hcalls : ∀ c ∈ calls, c.about = none) :
      Effect settled r { r with isReady := isReady, calls := r.calls ++ calls }
  | added (hready : r.isReady = true) (f : ToxFriend) (queued : Bool)
      (hlen : f.publicKey.length = dhtPublicKeySize)
      (htold : ToldApart (insert f.number (numbersOf r.tox)))
      (hnew : ∀ f' ∈ r.tox, f'.number ≠ f.number ∧ f'.publicKey ≠ f.publicKey)
      (hphase : ∀ it, r.events.phase ≠ .looping it) (hqueued : settled → r.PushFits queued) :
      Effect settled r ((r.store f.publicKey f.entry).notifyFriend .added f.entry queued)
  | removed (hready : r.isReady = true) (e : FriendEntry) (queued : Bool) (he : e ∈ r.friends)
      (hphase : ∀ it, r.events.phase ≠ .looping it) (hqueued : settled → r.PushFits queued) :
      Effect settled r ((r.without e.friendNumber).notifyFriend .removed e queued)
  | reported (hrun : r.running = true) (e e' : FriendEntry) (calls : List RosterCall)
      (he : e ∈ r.friends) (hsame : e'.ident = e.ident)
      (hcalls : Relayed e e' calls) (hidle : settled → r.Idle e.userid) :
      Effect settled r { r.changed e' with calls := r.calls ++ calls }
  | requested (hrun : r.running = true) (publicKey : Bytes) (info : UserInfo) (hello : Bytes)
      (hlen : publicKey.length = dhtPublicKeySize) (hid : info.userid = keyText publicKey)
      (hnew : ∀ f ∈ r.tox, f.publicKey ≠ publicKey)
      (hidle : settled → r.Idle (keyText publicKey)) :
      Effect settled r (r.notify (.friendRequest info hello))
  | delivered (hrun : r.running = true) (a : EventAction) (w : EventLoop) (hown : EventLoop.Own a)
      (hstep : r.events.step a = some w) : Effect settled r (r.afterEvents w)

section Effects

variable {settled : Prop} {lost : List ToxFriend} {r r' : Roster} {publicKey : Bytes} {ctx : AddContext}
  {arg : FriendArg} {e : FriendEntry}

theorem new_of_dhtGetFriendNumber (h : r.dhtGetFriendNumber publicKey = none) :
    ∀ f ∈ r.tox, f.publicKey ≠ publicKey := by
  rw [Roster.dhtGetFriendNumber, Option.map_eq_none_iff] at h
  intro f hf
  simpa using List.find?_eq_none.mp h f hf

theorem Synced.drop_eq (h : Synced lost r) (harg : arg.number ∈ numbersOf r.tox) :
    r.drop arg = r.without arg.number := by
  have hfriends : dropFriend FriendEntry.key r.friends arg.key =
      r.friends.filter (fun e => e.friendNumber ≠ arg.number) := by
    apply List.filter_congr
    intro e he
    rw [h.keyed_eq harg e he]
    simp
  rw [Roster.drop, hfriends, Roster.without]

theorem Synced.update_eq (h : Synced lost r) (harg : arg.number ∈ numbersOf r.tox)
    (he : e.friendNumber = arg.number) : r.update arg e = r.changed e := by
  have hfriends : modifyFriend FriendEntry.key r.friends arg.key (fun _ => e) =
      r.friends.map (fun x => if x.friendNumber = e.friendNumber then e else x) := by
    apply List.map_congr_left
    intro x hx
    rw [h.keyed_eq harg x hx, he]
    simp
  rw [Roster.update, hfriends, Roster.changed]

theorem addKey_effect (hready : r.isReady = true) (hlen : publicKey.length = dhtPublicKeySize)
    (hkey : r.dhtGetFriendNumber publicKey = none) (hfresh : FreshAnswer r.tox ctx.answer)
    (hphase : ∀ it, r.events.phase ≠ .looping it) (hle : (keyText publicKey).length ≤ maxIdLen)
    (hqueued : settled → ∀ r', r.addKey publicKey (keyText publicKey) hle ctx = .ok r' →
      r.PushFits ctx.queued) :
    Effect settled r (r.afterCall (r.addKey publicKey (keyText publicKey) hle ctx)) := by
  unfold Roster.addKey at hqueued ⊢
  cases hanswer : ctx.answer with
  | error rc => exact .idle
  | ok n =>
    obtain ⟨hnumber, htold⟩ := hfresh n hanswer
    rw [hanswer] at hqueued
    exact .added hready ⟨n, publicKey⟩ ctx.queued hlen htold
      (fun f hf => ⟨hnumber f hf, new_of_dhtGetFriendNumber hkey f hf⟩) hphase
      (fun hset => hqueued hset _ rfl)

theorem length_addressKey {address : Bytes} (h : isValidAddress address = true) :
    (Roster.addressKey address).length = dhtPublicKeySize := by
  unfold isValidAddress at h
  unfold Roster.addressKey
  rw [base58Decode_bytes] at h ⊢
  cases hbytes : base58Bytes (textRead address address.length) with
  | none => simp [hbytes] at h
  | some bytes =>
    simp only [hbytes, Option.bind_some] at h ⊢
    split_ifs at h ⊢ with hfits
    rw [Option.elim_some, List.length_take, length_toBE]
    rfl

theorem addFriend_effect (address : Bytes) (hfresh : FreshAnswer r.tox ctx.answer)
    (hphase : ∀ it, r.events.phase ≠ .looping it)
    (hqueued : settled → ∀ r', r.addFriend address ctx = .ok r' → r.PushFits ctx.queued) :
    Effect settled r (r.afterCall (r.addFriend address ctx)) := by
  unfold Roster.addFriend at hqueued ⊢
  split_ifs at hqueued ⊢ with hvalid hown hready hkey halloc
  · exact .idle
  · exact .idle
  · exact .idle
  · exact .idle
  · exact .idle
  · have hnone : r.dhtGetFriendNumber (Roster.addressKey address) = none := by simpa using hkey
    exact addKey_effect (by simpa using hready) (length_addressKey (by simpa using hvalid)) hnone
      hfresh hphase _ hqueued

theorem acceptFriendKey_ok {dht : Bytes → Option ℕ} {self userid : Bytes} {isReady : Bool}
    {key : Option (Bytes × ℕ)} (hones : FewOnes userid)
    (hdht : ∀ publicKey n, dht publicKey = some n → n < 2 ^ 32 - 1)
    (h : acceptFriendKey dht self isReady userid = .ok key) :
    ∃ publicKey, publicKey.length = dhtPublicKeySize ∧ userid = keyText publicKey ∧
      isReady = true ∧ dht publicKey = none ∧ key = some (publicKey, dhtPublicKeySize) := by
  unfold acceptFriendKey at h
  split_ifs at h with hvalid hself hready
  obtain ⟨publicKey, hlen, rfl⟩ := (isValidKey_iff_keyText hones).mp (by simpa using hvalid)
  rw [getFriendNumber_keyText dht hlen, (friendKey_eq_some_iff hones).mpr ⟨hlen, rfl⟩] at h
  refine ⟨publicKey, hlen, rfl, by simpa using hready, ?_⟩
  cases hknown : dht publicKey with
  | none =>
    rw [hknown] at h
    exact ⟨rfl, (Except.ok.inj h).symm⟩
  | some n =>
    rw [hknown, Option.elim_some] at h
    dsimp only at h
    rw [if_pos (hdht publicKey n hknown).ne] at h
    cases h

theorem acceptFriend_effect {userid : Bytes} {result : Except CallError Roster} (htox : ToxList r.tox)
    (hones : FewOnes userid) (hfresh : FreshAnswer r.tox ctx.answer)
    (hphase : ∀ it, r.events.phase ≠ .looping it)
    (hqueued : settled → ∀ r', r.acceptFriend userid ctx = some (.ok r') → r.PushFits ctx.queued)
    (h : r.acceptFriend userid ctx = some result) : Effect settled r (r.afterCall result) := by
  have hdht : ∀ publicKey n, r.dhtGetFriendNumber publicKey = some n → n < 2 ^ 32 - 1 :=
    fun publicKey n hn => htox.number_lt ((dhtGetFriendNumber_eq_some_iff htox).mp hn)
  rw [h] at hqueued
  unfold Roster.acceptFriend at h
  cases haccept : acceptFriendKey r.dhtGetFriendNumber r.me r.isReady userid with
  | error e =>
    rw [haccept] at h
    cases h
    exact .idle
  | ok key =>
    obtain ⟨publicKey, hlen, rfl, hready, hknown, rfl⟩ := acceptFriendKey_ok hones hdht haccept
    rw [haccept] at h
    dsimp only at h
    rw [dif_pos (length_keyText publicKey)] at h
    split_ifs at h with halloc
    · cases h
      exact .idle
    · cases h
      exact addKey_effect hready hlen hknown hfresh hphase _
        (fun hset r' hr' => hqueued hset r' (congrArg some hr'))

theorem removeFriend_effect {friendid behind behind' : Bytes} {queued : Bool}
    {result : Except CallError Roster} (hsynced : Synced lost r) (hones : FewOnes friendid)
    (hphase : ∀ it, r.events.phase ≠ .looping it)
    (hqueued : settled → ∀ r', r.removeFriend friendid behind behind' queued = some (.ok r') →
      r.PushFits queued)
    (h : r.removeFriend friendid behind behind' queued = some result) :
    Effect settled r (r.afterCall result) := by
  rw [h] at hqueued
  unfold Roster.removeFriend at h
  split_ifs at h with hvalid hready
  · cases h
    exact .idle
  · cases h
    exact .idle
  · cases hnumber : getFriendNumber r.dhtGetFriendNumber friendid with
    | error e =>
      rw [hnumber] at h
      cases h
      exact .idle
    | ok n =>
      obtain ⟨publicKey, -, -, hknown⟩ := (getFriendNumber_ok_iff hones).mp hnumber
      have hn : n ∈ numbersOf r.tox :=
        mem_numbersOf ((dhtGetFriendNumber_eq_some_iff hsynced.tox).mp hknown)
      rw [hnumber] at h
      dsimp only at h
      split_ifs at h with hmax hexist
      · cases h
        exact .idle
      · obtain ⟨e, hget, rfl⟩ := Option.map_eq_some_iff.mp h
        obtain ⟨he, rfl⟩ := hsynced.friendsGet_eq_some hn hget
        rw [hsynced.drop_eq hn] at hqueued ⊢
        exact .removed (by simpa using hready) e queued he hphase (fun hset => hqueued hset _ rfl)

theorem notifyConnectionCb_effect (hrun : r.running = true) (connected : Bool) :
    Effect settled r (r.notifyConnectionCb connected) := by
  unfold Roster.notifyConnectionCb
  split_ifs with hfirst
  · have heffect : Effect settled r
        { r with isReady := true, calls := r.calls ++ [.ready, .connectionStatus connected] } :=
      .connection hrun true _ (by simp [RosterCall.about])
    rw [List.append_cons] at heffect
    exact heffect
  · exact .connection hrun r.isReady [.connectionStatus connected] (by simp [RosterCall.about])

theorem notifyFriendConnectionCb_effect (hsynced : Synced lost r) (hrun : r.running = true)
    (harg : arg.number ∈ numbersOf r.tox)
    (hidle : settled → ∀ e ∈ r.friendsGet arg, r.Idle e.userid) (connected : Bool) :
    Effect settled r (r.notifyFriendConnectionCb arg connected) := by
  unfold Roster.notifyFriendConnectionCb
  cases hget : r.friendsGet arg with
  | none => exact .idle
  | some e =>
    obtain ⟨he, hnumber⟩ := hsynced.friendsGet_eq_some harg hget
    dsimp only
    split_ifs with hchanged
    · have hupdate : r.update arg { e with status := connected } =
          r.changed { e with status := connected } := hsynced.update_eq harg hnumber
      rw [hupdate]
      exact .reported hrun e { e with status := connected } _ he rfl (.connection hchanged)
        (fun hset => hidle hset e hget)
    · exact .idle

theorem notifyFriendStatusCb_effect (hsynced : Synced lost r) (hrun : r.running = true)
    (harg : arg.number ∈ numbersOf r.tox)
    (hidle : settled → ∀ e ∈ r.friendsGet arg, r.Idle e.userid) (status : ℤ) :
    Effect settled r (r.notifyFriendStatusCb arg status) := by
  unfold Roster.notifyFriendStatusCb
  cases hget : r.friendsGet arg with
  | none => exact .idle
  | some e =>
    obtain ⟨he, hnumber⟩ := hsynced.friendsGet_eq_some harg hget
    dsimp only
    split_ifs with hrange hchanged
    · exact .idle
    · have hupdate : r.update arg { e with presence := status } =
          r.changed { e with presence := status } := hsynced.update_eq harg hnumber
      rw [hupdate]
      exact .reported hrun e { e with presence := status } _ he rfl (.presence rfl)
        (fun hset => hidle hset e hget)
    · exact .idle

theorem unpackUserDesc_userid {desc : Option IOEXCP} {info info' : UserInfo} {copies : List Copy}
    (h : unpackUserDesc desc info = some (info', copies)) : info'.userid = info.userid := by
  cases desc with
  | none => cases h
  | some cp =>
    have huserid := congrArg UserInfo.userid (eq_describedBy h)
    exact huserid

theorem unpackInto_userid {desc : Option IOEXCP} {info info' : StoredInfo} {changed changed' : Bool}
    (h : unpackInto desc info changed = some (info', changed')) :
    info'.val.userid = info.val.userid := by
  unfold unpackInto at h
  split at h
  · cases h
    rfl
  · rename_i ui copies hunpack
    split_ifs at h with hfits
    cases h
    exact unpackUserDesc_userid hunpack

theorem notifyFriendDescriptionCb_effect {flatcc : BufferLibrary} {desc : Bytes} {garbage : Bool}
    (hsynced : Synced lost r) (hrun : r.running = true) (harg : arg.number ∈ numbersOf r.tox)
    (hidle : settled → ∀ e ∈ r.friendsGet arg, r.Idle e.userid)
    (h : r.notifyFriendDescriptionCb flatcc arg desc garbage = some r') :
    Effect settled r r' := by
  unfold Roster.notifyFriendDescriptionCb at h
  cases hget : r.friendsGet arg with
  | none =>
    rw [hget] at h
    cases h
    exact .idle
  | some e =>
    rw [hget] at h
    dsimp only at h
    split_ifs at h with hempty
    · cases h
      exact .idle
    · cases hunpack : unpackInto (ioexcpDecode flatcc desc) e.userInfo garbage with
      | none =>
        rw [hunpack] at h
        cases h
      | some result =>
        obtain ⟨info, changed⟩ := result
        rw [hunpack] at h
        have hsame : ({ e with userInfo := info } : FriendEntry).ident = e.ident :=
          congrArg (Prod.mk e.friendNumber) (unpackInto_userid hunpack)
        obtain ⟨he, hnumber⟩ := hsynced.friendsGet_eq_some harg hget
        have hupdate : r.update arg { e with userInfo := info } =
            r.changed { e with userInfo := info } := hsynced.update_eq harg hnumber
        simp only [hupdate] at h
        cases changed with
        | true =>
          cases h
          exact .reported hrun e _ _ he hsame (.info rfl) (fun hset => hidle hset e hget)
        | false =>
          cases h
          have heffect := Effect.reported hrun e _ _ he hsame (.silent rfl)
            (fun hset => hidle hset e hget)
          rw [List.append_nil] at heffect
          exact heffect

theorem notifyFriendRequestCb_effect {flatcc : BufferLibrary} {greeting : Bytes}
    (hrun : r.running = true) (hlen : publicKey.length = dhtPublicKeySize)
    (hidle : settled → r.Idle (keyText publicKey))
    (h : r.notifyFriendRequestCb flatcc publicKey greeting = some r') : Effect settled r r' := by
  unfold Roster.notifyFriendRequestCb at h
  cases hknown : r.dhtGetFriendNumber publicKey with
  | some n =>
    rw [hknown, if_pos Option.isSome_some] at h
    cases h
    exact .idle
  | none =>
    rw [hknown, Option.isSome_none, if_neg Bool.false_ne_true] at h
    cases hcp : ioexcpDecode flatcc greeting with
    | none =>
      rw [hcp] at h
      cases h
      exact .idle
    | some cp =>
      rw [hcp] at h
      dsimp only at h
      split_ifs at h with htype hfits
      · cases h
        exact .idle
      · cases h
        exact .requested hrun publicKey _ _ hlen rfl (new_of_dhtGetFriendNumber hknown) hidle

theorem called_eq_some {next : Option (Except CallError Roster)} (h : r.called next = some r') :
    (∀ it, r.events.phase ≠ .looping it) ∧ ∃ result, next = some result ∧ r.afterCall result = r' := by
  unfold Roster.called at h
  cases hphase : r.events.phase with
  | looping it =>
    rw [hphase] at h
    cases h
  | idle =>
    rw [hphase] at h
    exact ⟨fun _ => EventPhase.noConfusion, Option.map_eq_some_iff.mp h⟩
  | delivering it =>
    rw [hphase] at h
    exact ⟨fun _ => EventPhase.noConfusion, Option.map_eq_some_iff.mp h⟩

theorem reported_eq_some {next : Option Roster} (h : r.reported next = some r') :
    r.running = true ∧ next = some r' := by
  unfold Roster.reported at h
  split_ifs at h with hrun
  exact ⟨hrun.1, h⟩

theorem inEvents_effect {a : EventAction} (hown : EventLoop.Own a) (h : r.inEvents a = some r') :
    Effect settled r r' := by
  unfold Roster.inEvents at h
  split_ifs at h with hrun
  obtain ⟨w, hstep, rfl⟩ := Option.map_eq_some_iff.mp h
  exact .delivered hrun a w hown hstep

theorem step_effect {flatcc : BufferLibrary} {a : RosterAction} (hsynced : Synced lost r)
    (hdoc : r.Documented a) (h : r.step flatcc a = some r') : Effect (r.Settled a) r r' := by
  cases a with
  | run =>
    unfold Roster.step at h
    split_ifs at h with hrun
    cases h
    exact .run (by simpa using hrun)
  | connection connected =>
    obtain ⟨hrun, hnext⟩ := reported_eq_some h
    cases hnext
    exact notifyConnectionCb_effect hrun connected
  | addFriend address ctx =>
    obtain ⟨hphase, result, hresult, rfl⟩ := called_eq_some h
    cases hresult
    exact addFriend_effect address hdoc hphase id
  | acceptFriend userid ctx =>
    obtain ⟨hphase, result, hresult, rfl⟩ := called_eq_some h
    exact acceptFriend_effect hsynced.tox hdoc.1 hdoc.2 hphase id hresult
  | removeFriend friendid behind behind' queued =>
    obtain ⟨hphase, result, hresult, rfl⟩ := called_eq_some h
    exact removeFriend_effect hsynced hdoc hphase id hresult
  | friendConnection f connected =>
    obtain ⟨hrun, hnext⟩ := reported_eq_some h
    cases hnext
    exact notifyFriendConnectionCb_effect hsynced hrun hdoc id connected
  | friendStatus f status =>
    obtain ⟨hrun, hnext⟩ := reported_eq_some h
    cases hnext
    exact notifyFriendStatusCb_effect hsynced hrun hdoc id status
  | description f desc garbage =>
    obtain ⟨hrun, hnext⟩ := reported_eq_some h
    exact notifyFriendDescriptionCb_effect hsynced hrun hdoc id hnext
  | friendRequest publicKey greeting =>
    obtain ⟨hrun, hnext⟩ := reported_eq_some h
    exact notifyFriendRequestCb_effect hrun hdoc id hnext
  | doFriendEvents => exact inEvents_effect (a := .run) trivial h
  | nextEvent => exact inEvents_effect (a := .loop) trivial h
  | eventReturn => exact inEvents_effect (a := .callbackReturn) trivial h

end Effects

section Keeping

variable {lost : List ToxFriend} {r r' : Roster} {e e' : FriendEntry}

@[simp] theorem notifyFriend_tox (type : FriendEventType) (queued : Bool) :
    (r.notifyFriend type e queued).tox = r.tox := by
  cases queued <;> rfl

@[simp] theorem notifyFriend_friends (type : FriendEventType) (queued : Bool) :
    (r.notifyFriend type e queued).friends = r.friends := by
  cases queued <;> rfl

theorem ToxList.append {tox : List ToxFriend} {f : ToxFriend} (h : ToxList tox)
    (hlen : f.publicKey.length = dhtPublicKeySize)
    (htold : ToldApart (insert f.number (numbersOf tox)))
    (hnew : ∀ f' ∈ tox, f'.number ≠ f.number ∧ f'.publicKey ≠ f.publicKey) :
    ToxList (tox ++ [f]) where
  numbers := by
    rw [List.map_append, List.map_singleton]
    apply h.numbers.append (List.nodup_singleton _)
    rw [List.disjoint_singleton]
    intro hmem
    obtain ⟨f', hf', heq⟩ := List.mem_map.mp hmem
    exact (hnew f' hf').1 heq
  keys := by
    rw [List.map_append, List.map_singleton]
    apply h.keys.append (List.nodup_singleton _)
    rw [List.disjoint_singleton]
    intro hmem
    obtain ⟨f', hf', heq⟩ := List.mem_map.mp hmem
    exact (hnew f' hf').2 heq
  told := by
    apply htold.mono
    rintro _ ⟨f', hf', rfl⟩
    obtain hf' | rfl := List.mem_append.mp hf' |>.imp_right List.mem_singleton.mp
    · exact .inr (mem_numbersOf hf')
    · exact .inl rfl
  length_key f' hf' := by
    obtain hf' | rfl := List.mem_append.mp hf' |>.imp_right List.mem_singleton.mp
    · exact h.length_key f' hf'
    · exact hlen

theorem ToxList.filter {tox : List ToxFriend} (h : ToxList tox) (p : ToxFriend → Bool) :
    ToxList (tox.filter p) where
  numbers := h.numbers.sublist (List.filter_sublist.map _)
  keys := h.keys.sublist (List.filter_sublist.map _)
  told := by
    apply h.told.mono
    rintro _ ⟨f, hf, rfl⟩
    exact mem_numbersOf (List.mem_of_mem_filter hf)
  length_key f hf := h.length_key f (List.mem_of_mem_filter hf)

theorem Synced.ident_eq (h : Synced lost r) (he : e ∈ r.friends) (he' : e' ∈ r.friends)
    (hnumber : e.friendNumber = e'.friendNumber) : e.ident = e'.ident := by
  obtain ⟨f, hf, -, hident⟩ := h.mem_iff.mp ⟨e, he, rfl⟩
  obtain ⟨f', hf', -, hident'⟩ := h.mem_iff.mp ⟨e', he', rfl⟩
  have hnum : f.number = f'.number :=
    (congrArg Prod.fst hident).trans (hnumber.trans (congrArg Prod.fst hident').symm)
  rw [← hident, ← hident', h.tox.eq_of_number hf hf' hnum]

/-- A friend whose number the table tells from the others comes to its end. -/
theorem putFriend_eq_append {M : Set ℕ} {friends : List FriendEntry} (htold : ToldApart M)
    (he : e.friendNumber ∈ M) (hfriends : ∀ x ∈ friends, x.friendNumber ∈ M)
    (hnew : ∀ x ∈ friends, x.friendNumber ≠ e.friendNumber) : putFriend friends e = friends ++ [e] := by
  apply putEntry_of_find_none
  rw [List.find?_eq_none]
  intro x hx
  have hkeyed := htold.keyed_eq (f := ⟨e.friendNumber, e.userid⟩) he (hfriends x hx)
  rw [show keyed FriendEntry.key e.key x = _ from hkeyed, decide_eq_true_eq]
  exact hnew x hx

theorem Synced.putFriend_eq {f : ToxFriend} (h : Synced lost r)
    (htold : ToldApart (insert f.number (numbersOf r.tox)))
    (hnew : ∀ f' ∈ r.tox, f'.number ≠ f.number ∧ f'.publicKey ≠ f.publicKey) :
    putFriend r.friends f.entry = r.friends ++ [f.entry] := by
  apply putFriend_eq_append htold (.inl rfl)
  · intro x hx
    obtain ⟨f', hf', -, hnumber, -⟩ := h.of_mem hx
    exact .inr ⟨f', hf', hnumber⟩
  · intro x hx heq
    obtain ⟨f', hf', -, hnumber, -⟩ := h.of_mem hx
    exact (hnew f' hf').1 (hnumber.trans heq)

theorem Synced.added {f : ToxFriend} {queued : Bool} (h : Synced lost r)
    (hlen : f.publicKey.length = dhtPublicKeySize)
    (htold : ToldApart (insert f.number (numbersOf r.tox)))
    (hnew : ∀ f' ∈ r.tox, f'.number ≠ f.number ∧ f'.publicKey ≠ f.publicKey) :
    Synced lost ((r.store f.publicKey f.entry).notifyFriend .added f.entry queued) where
  tox := by
    rw [notifyFriend_tox]
    exact h.tox.append hlen htold hnew
  held g hg := by
    rw [notifyFriend_tox]
    exact List.mem_append_left _ (h.held g hg)
  friends := by
    have hput := h.putFriend_eq htold hnew
    have hlost : f ∉ lost := fun hf => (hnew f (h.held f hf)).1 rfl
    rw [notifyFriend_friends, notifyFriend_tox]
    change (putFriend r.friends f.entry).map FriendEntry.ident =
      ((r.tox ++ [f]).filter (fun g => g ∉ lost)).map ToxFriend.ident
    rw [hput, List.map_append, h.friends, List.filter_append, List.map_append]
    congr 1
    rw [List.filter_singleton, decide_eq_true hlost]
    rfl

theorem Synced.removed {queued : Bool} (h : Synced lost r) (he : e ∈ r.friends) :
    Synced lost ((r.without e.friendNumber).notifyFriend .removed e queued) where
  tox := by
    rw [notifyFriend_tox]
    exact h.tox.filter _
  held g hg := by
    obtain ⟨f, hf, hlost, hnumber, -⟩ := h.of_mem he
    rw [notifyFriend_tox]
    refine List.mem_filter.mpr ⟨h.held g hg, decide_eq_true (fun heq => ?_)⟩
    rw [h.tox.eq_of_number (h.held g hg) hf (heq.trans hnumber.symm)] at hg
    exact hlost hg
  friends := by
    let other : ℕ × Bytes → Bool := fun ident => ident.1 ≠ e.friendNumber
    have hfriends : r.friends.filter (fun x => x.friendNumber ≠ e.friendNumber) =
        r.friends.filter (other ∘ FriendEntry.ident) := rfl
    have htox : r.tox.filter (fun f => f.number ≠ e.friendNumber) =
        r.tox.filter (other ∘ ToxFriend.ident) := rfl
    rw [notifyFriend_friends, notifyFriend_tox]
    change (r.friends.filter (fun x => x.friendNumber ≠ e.friendNumber)).map FriendEntry.ident =
      ((r.tox.filter (fun f => f.number ≠ e.friendNumber)).filter (fun g => g ∉ lost)).map ToxFriend.ident
    rw [hfriends, htox, ← List.filter_map, h.friends, List.filter_map, List.filter_comm]

theorem Synced.reported (h : Synced lost r) (he : e ∈ r.friends) (hsame : e'.ident = e.ident) :
    Synced lost (r.changed e') where
  tox := h.tox
  held := h.held
  friends := by
    have hnumber : e'.friendNumber = e.friendNumber := congrArg Prod.fst hsame
    refine Eq.trans ?_ h.friends
    change (r.friends.map (fun x => if x.friendNumber = e'.friendNumber then e' else x)).map _ = _
    rw [List.map_map]
    apply List.map_congr_left
    intro x hx
    rw [Function.comp_apply]
    split_ifs with heq
    · rw [hsame]
      exact h.ident_eq he hx (hnumber.symm.trans heq.symm)
    · rfl

theorem Effect.synced {settled : Prop} (heffect : Effect settled r r') (h : Synced lost r) : Synced lost r' := by
  cases heffect with
  | idle => exact h
  | run hrun => exact ⟨h.tox, h.held, h.friends⟩
  | connection hrun isReady calls hcalls => exact ⟨h.tox, h.held, h.friends⟩
  | added hready f queued hlen htold hnew hphase hqueued => exact h.added hlen htold hnew
  | removed hready e queued he hphase hqueued => exact h.removed he
  | reported hrun e e' calls he hsame hcalls hidle =>
    have hchanged := h.reported he hsame
    exact ⟨hchanged.tox, hchanged.held, hchanged.friends⟩
  | requested hrun publicKey info hello hlen hid hnew hidle => exact ⟨h.tox, h.held, h.friends⟩
  | delivered hrun a w hown hstep => exact ⟨h.tox, h.held, h.friends⟩

theorem Effect.tracked {settled : Prop} (heffect : Effect settled r r') (h : r.events.Tracked) :
    r'.events.Tracked := by
  have hpush (r : Roster) (h : r.events.Tracked) (hphase : ∀ it, r.events.phase ≠ .looping it)
      (type : FriendEventType) (e : FriendEntry) (queued : Bool) :
      (r.notifyFriend type e queued).events.Tracked := by
    cases queued with
    | false => exact h
    | true => exact (EventLoop.keeps_notifyFriend h _ hphase).1
  cases heffect with
  | idle => exact h
  | run hrun => exact h
  | connection hrun isReady calls hcalls => exact h
  | added hready f queued hlen htold hnew hphase hqueued =>
    exact hpush (r.store f.publicKey f.entry) h hphase _ _ _
  | removed hready e queued he hphase hqueued => exact hpush (r.without e.friendNumber) h hphase _ _ _
  | reported hrun e e' calls he hsame hcalls hidle => exact h
  | requested hrun publicKey info hello hlen hid hnew hidle => exact h
  | delivered hrun a w hown hstep => exact (EventLoop.keeps_step h hstep).1

end Keeping

end Carrier.Core
