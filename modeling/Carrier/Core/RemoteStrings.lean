import Carrier.Core.FriendTable
import Carrier.Core.Ids
import Carrier.Core.Protocol
import Carrier.Lib.Run

/-! Where `carrier/IOEX_carrier.c` and `carrier/thistory.h` copy strings that come from a peer:
descriptions, friend requests, invites and the answers to them. Assertions are compiled out, as in a
release; the one of `thistory.h` that a peer can make fail, that a transaction id is not zero, is about
no string. -/
namespace Carrier.Core
open Carrier.Lib Carrier.Common

/-- A string that is copied into an array. -/
structure Copy where
  capacity : ℕ
  string : Bytes
  deriving DecidableEq

def Copy.Fits (c : Copy) : Prop := c.string.length < c.capacity

instance (c : Copy) : Decidable c.Fits := inferInstanceAs (Decidable (_ < _))

def maxIdLen : ℕ := 45
def maxUserNameLen : ℕ := 63
def maxUserDescriptionLen : ℕ := 127
def maxPhoneLen : ℕ := 31
def maxEmailLen : ℕ := 127
def maxRegionLen : ℕ := 127
def maxGenderLen : ℕ := 31

/-- `IOEX_MAX_EXTENSION_NAME_LEN` of `thistory.h` -/
def maxExtensionNameLen : ℕ := 31

/-- The size of a history key, and of `from` in `handle_invite_request`. -/
def historyKeySize : ℕ := maxIdLen + maxExtensionNameLen + 4

/-- `IOEXUserInfo` -/
structure UserInfo where
  userid : Bytes
  name : Bytes
  description : Bytes
  hasAvatar : Bool
  gender : Bytes
  phone : Bytes
  email : Bytes
  region : Bytes
  deriving DecidableEq

/-- A user info that has only been given its id. -/
def UserInfo.ofId (userid : Bytes) : UserInfo := ⟨userid, [], [], false, [], [], [], []⟩

/-- The friends, the history of invites, and the copies made so far, the latest first. -/
structure Contacts where
  friends : FriendCode → Option UserInfo
  thistory : Bytes → Option (BitVec 64)
  copies : List Copy

/-- `base58_encode` of a public key into a `userid` that is zero. -/
def keyText (publicKey : Bytes) : Bytes := ((base58Encode publicKey (maxIdLen + 1)).join).getD []

/-- A string of a getter, or the empty one for `NULL`. -/
def orEmpty (s : Option (Option Bytes)) : Bytes := s.join.getD []

/-- The copy of a description's string, which is made if it differs from the old one. -/
def copyChanged (capacity : ℕ) (old new : Bytes) : List Copy :=
  if old = new then [] else [⟨capacity, new⟩]

/-- `unpack_user_desc` of what `IOEXcp_decode` returns, with the copies it makes; `none` is -1. -/
def unpackUserDesc (desc : Option IOEXCP) (info : UserInfo) : Option (UserInfo × List Copy) :=
  match desc with
  | none => none
  | some cp =>
    if cp.getType ≠ typeUserinfo then none
    else
      let name := orEmpty cp.getName
      let descr := orEmpty cp.getDescr
      let gender := orEmpty cp.getGender
      let phone := orEmpty cp.getPhone
      let email := orEmpty cp.getEmail
      let region := orEmpty cp.getRegion
      some (⟨info.userid, name, descr, cp.getHasAvatar.getD false, gender, phone, email, region⟩,
        copyChanged (maxUserNameLen + 1) info.name name ++
          copyChanged (maxUserDescriptionLen + 1) info.description descr ++
          copyChanged (maxGenderLen + 1) info.gender gender ++
          copyChanged (maxPhoneLen + 1) info.phone phone ++
          copyChanged (maxEmailLen + 1) info.email email ++
          copyChanged (maxRegionLen + 1) info.region region)

/-- A call of `IOEX_reply_friend_invite`: its address, whether its other arguments are valid, and
what the rest of the carrier answers to it. -/
structure ReplyCall where
  addr : Bytes
  valid : Bool
  isReady : Bool
  friendNumber : Option FriendArg
  encoded : Bool
  sent : Bool
  deriving DecidableEq

def colon : UInt8 := 58

def parseAddress (addr : Bytes) : Bytes × Option Bytes :=
  match addr.dropWhile (· ≠ colon) with
  | [] => (addr, none)
  | _ :: ext => (addr.takeWhile (· ≠ colon), some ext)

/-- `"ir_%s"` -/
def historyKey (userid : Bytes) : Bytes := [105, 114, 95] ++ userid

namespace Contacts

def init : Contacts := ⟨fun _ => none, fun _ => none, []⟩

def putFriend (w : Contacts) (f : FriendArg) (ui : Option UserInfo) : Contacts :=
  { w with friends := Function.update w.friends f.code ui }

def copied (w : Contacts) (copies : List Copy) : Contacts := { w with copies := copies ++ w.copies }

/-- `friends_iterate_cb`, with a description if there is one -/
def friendsIterateCb (w : Contacts) (f : FriendArg) (publicKey : Bytes) (desc : Option (Option IOEXCP)) :
    Contacts :=
  let ui := UserInfo.ofId (keyText publicKey)
  match desc with
  | none => w.putFriend f (some ui)
  | some desc =>
    match unpackUserDesc desc ui with
    | none => w
    | some (ui, copies) => (w.copied copies).putFriend f (some ui)

/-- `IOEX_add_friend`, once the friend is known to `toxcore` -/
def addFriend (w : Contacts) (f : FriendArg) (publicKey : Bytes) : Contacts :=
  w.putFriend f (some (.ofId (keyText publicKey)))

/-- `IOEX_accept_friend`, given the number that `toxcore` adds the friend with -/
def acceptFriend (w : Contacts) (f : FriendArg) (userid : Bytes) : Contacts :=
  if !isValidKey userid then w
  else (w.copied [⟨maxIdLen + 1, userid⟩]).putFriend f (some (.ofId userid))

def removeFriend (w : Contacts) (f : FriendArg) : Contacts := w.putFriend f none

/-- `notify_friend_description_cb`; a description of no bytes is dropped. -/
def notifyFriendDescriptionCb (w : Contacts) (f : FriendArg) (desc : Option (Option IOEXCP)) :
    Contacts :=
  match w.friends f.code, desc with
  | none, _ => w
  | _, none => w
  | some ui, some desc =>
    match unpackUserDesc desc ui with
    | none => w
    | some (ui, copies) => (w.copied copies).putFriend f (some ui)

/-- `notify_friend_request_cb`, given whether the friend exists already -/
def notifyFriendRequestCb (w : Contacts) (known : Bool) (cp : Option IOEXCP) : Contacts :=
  if known then w
  else
    match cp with
    | none => w
    | some cp =>
      if cp.getType ≠ typeFriendRequest then w
      else
        let name := orEmpty cp.getName
        let descr := orEmpty cp.getDescr
        w.copied (copyChanged (maxUserNameLen + 1) [] name ++
          copyChanged (maxUserDescriptionLen + 1) [] descr)

/-- `tansaction_history_put_invite` -/
def transactionHistoryPutInvite (w : Contacts) (userid : Bytes) (tid : BitVec 64) : Contacts :=
  { w.copied [⟨historyKeySize, historyKey userid⟩] with
    thistory := Function.update w.thistory (historyKey userid) (some tid) }

def transactionHistoryGetInvite (w : Contacts) (userid : Bytes) : BitVec 64 × Contacts :=
  ((w.thistory (historyKey userid)).getD 0, w.copied [⟨historyKeySize, historyKey userid⟩])

def transactionHistoryRemoveInvite (w : Contacts) (userid : Bytes) : Contacts :=
  { w.copied [⟨historyKeySize, historyKey userid⟩] with
    thistory := Function.update w.thistory (historyKey userid) none }

def handleInviteRequest (w : Contacts) (f : FriendArg) (cp : IOEXCP) : Contacts :=
  match w.friends f.code with
  | none => w
  | some ui =>
    let w := w.copied [⟨historyKeySize, ui.userid⟩]
    match cp.getExtension with
    | none => w.transactionHistoryPutInvite ui.userid (cp.getTid.getD 0)
    | some name =>
      let from_ := ui.userid ++ colon :: name
      let w := w.copied [⟨historyKeySize, from_⟩]
      w.transactionHistoryPutInvite from_ (cp.getTid.getD 0)

/-- `notify_friend_message_cb`: the messages of other types copy no strings of the peer. -/
def notifyFriendMessageCb (w : Contacts) (f : FriendArg) (cp : Option IOEXCP) : Contacts :=
  match cp with
  | none => w
  | some cp => if cp.getType = typeInviteRequest then w.handleInviteRequest f cp else w

/-- The checks of `IOEX_reply_friend_invite` in front of the history. -/
def admits (w : Contacts) (call : ReplyCall) : Bool :=
  let (userid, ext) := parseAddress call.addr
  call.valid && call.addr ≠ [] && isValidKey userid &&
    (ext.elim true (·.length ≤ maxUserNameLen)) && call.isReady &&
    (call.friendNumber.elim false (fun f => (w.friends f.code).isSome))

def replyFriendInvite (w : Contacts) (call : ReplyCall) : Contacts :=
  if !w.admits call then w
  else
    let (tid, w) := w.transactionHistoryGetInvite call.addr
    if tid = 0 then w
    else if !call.encoded then w
    else if !call.sent then w
    else w.transactionHistoryRemoveInvite call.addr

/-- What happens to a carrier. The packets are what `IOEXcp_decode` makes of the messages. -/
inductive Event where
  | friendLoaded (f : FriendArg) (publicKey : Bytes) (desc : Option (Option IOEXCP))
  | addFriend (f : FriendArg) (publicKey : Bytes)
  | acceptFriend (f : FriendArg) (userid : Bytes)
  | removeFriend (f : FriendArg)
  | description (f : FriendArg) (desc : Option (Option IOEXCP))
  | friendRequest (known : Bool) (cp : Option IOEXCP)
  | message (f : FriendArg) (cp : Option IOEXCP)
  | reply (call : ReplyCall)
  deriving DecidableEq

def handle (w : Contacts) : Event → Contacts
  | .friendLoaded f publicKey desc => w.friendsIterateCb f publicKey desc
  | .addFriend f publicKey => w.addFriend f publicKey
  | .acceptFriend f userid => w.acceptFriend f userid
  | .removeFriend f => w.removeFriend f
  | .description f desc => w.notifyFriendDescriptionCb f desc
  | .friendRequest known cp => w.notifyFriendRequestCb known cp
  | .message f cp => w.notifyFriendMessageCb f cp
  | .reply call => w.replyFriendInvite call

def step (w : Contacts) (ev : Event) : Option Contacts := some (w.handle ev)

def AllFit (w : Contacts) : Prop := ∀ c ∈ w.copies, c.Fits

end Contacts

/-- The strings of a description are as long as the fields of a user info admit. -/
structure DescFits (cp : IOEXCP) : Prop where
  name : (orEmpty cp.getName).length ≤ maxUserNameLen
  descr : (orEmpty cp.getDescr).length ≤ maxUserDescriptionLen
  gender : (orEmpty cp.getGender).length ≤ maxGenderLen
  phone : (orEmpty cp.getPhone).length ≤ maxPhoneLen
  email : (orEmpty cp.getEmail).length ≤ maxEmailLen
  region : (orEmpty cp.getRegion).length ≤ maxRegionLen

namespace Contacts

/-- The lengths that the event must keep to. An id of a friend and an extension, or the address of a
reply, become a history key; the check of an id bounds its length only if the count of its leading
ones does not wrap around. -/
def EventFits (w : Contacts) : Event → Prop
  | .friendLoaded _ _ (some (some cp)) => cp.getType = typeUserinfo → DescFits cp
  | .description f (some (some cp)) =>
    w.friends f.code ≠ none → cp.getType = typeUserinfo → DescFits cp
  | .friendRequest known (some cp) => known = false → cp.getType = typeFriendRequest →
      (orEmpty cp.getName).length ≤ maxUserNameLen ∧
        (orEmpty cp.getDescr).length ≤ maxUserDescriptionLen
  | .message f (some cp) => cp.getType = typeInviteRequest → ∀ ui ∈ w.friends f.code,
      ∀ ext ∈ cp.getExtension, ui.userid.length + ext.length < maxIdLen + maxExtensionNameLen
  | .reply call => w.admits call → call.addr.length ≤ maxIdLen + maxExtensionNameLen
  | .acceptFriend _ userid => isValidKey userid → userid.length ≤ maxIdLen
  | _ => True

end Contacts

/-- What a user info holds fits its fields. -/
structure UserInfo.Held (ui : UserInfo) : Prop where
  userid : ui.userid.length ≤ maxIdLen
  name : ui.name.length ≤ maxUserNameLen
  description : ui.description.length ≤ maxUserDescriptionLen
  gender : ui.gender.length ≤ maxGenderLen
  phone : ui.phone.length ≤ maxPhoneLen
  email : ui.email.length ≤ maxEmailLen
  region : ui.region.length ≤ maxRegionLen

theorem UserInfo.Held.ofId {userid : Bytes} (h : userid.length ≤ maxIdLen) :
    (UserInfo.ofId userid).Held :=
  ⟨h, Nat.zero_le _, Nat.zero_le _, Nat.zero_le _, Nat.zero_le _, Nat.zero_le _, Nat.zero_le _⟩

theorem length_keyText (publicKey : Bytes) : (keyText publicKey).length ≤ maxIdLen := by
  unfold keyText
  rw [base58Encode_eq]
  split_ifs with h
  · exact Nat.zero_le _
  · exact Nat.lt_succ_iff.mp (not_le.mp h)

theorem copyChanged_fits {n : ℕ} {old new : Bytes} (h : old.length ≤ n) :
    (∀ c ∈ copyChanged (n + 1) old new, c.Fits) ↔ new.length ≤ n := by
  unfold copyChanged
  split_ifs with heq
  · rw [heq] at h
    simp [h]
  · simp [Copy.Fits]

theorem copyChanged_nil_fits (n : ℕ) (new : Bytes) :
    (∀ c ∈ copyChanged (n + 1) [] new, c.Fits) ↔ new.length ≤ n :=
  copyChanged_fits (Nat.zero_le n)

/-- The copies of a description fit exactly if its strings do. -/
theorem unpackUserDesc_fits {cp : IOEXCP} {info ui : UserInfo} {copies : List Copy}
    (hinfo : info.Held) (h : unpackUserDesc (some cp) info = some (ui, copies)) :
    ((∀ c ∈ copies, c.Fits) ↔ DescFits cp) ∧ (DescFits cp → ui.Held) := by
  unfold unpackUserDesc at h
  dsimp only at h
  split_ifs at h
  cases h
  constructor
  · simp only [List.forall_mem_append, copyChanged_fits hinfo.name,
      copyChanged_fits hinfo.description, copyChanged_fits hinfo.gender,
      copyChanged_fits hinfo.phone, copyChanged_fits hinfo.email, copyChanged_fits hinfo.region]
    constructor
    · rintro ⟨⟨⟨⟨⟨hname, hdescr⟩, hgender⟩, hphone⟩, hemail⟩, hregion⟩
      exact ⟨hname, hdescr, hgender, hphone, hemail, hregion⟩
    · intro hfits
      exact ⟨⟨⟨⟨⟨hfits.name, hfits.descr⟩, hfits.gender⟩, hfits.phone⟩, hfits.email⟩, hfits.region⟩
  · intro hfits
    exact ⟨hinfo.userid, hfits.name, hfits.descr, hfits.gender, hfits.phone, hfits.email,
      hfits.region⟩

theorem unpackUserDesc_type {cp : IOEXCP} {info : UserInfo} :
    unpackUserDesc (some cp) info = none ↔ cp.getType ≠ typeUserinfo := by
  unfold unpackUserDesc
  dsimp only
  split_ifs with h
  · simp [h]
  · simpa using h

namespace Contacts

/-- As long as all copies have fitted, the friends hold what fits. -/
def Sound (w : Contacts) : Prop := w.AllFit → ∀ c, ∀ ui ∈ w.friends c, ui.Held

/-- A change whose copies fit exactly if `C`. -/
def Adds (w w' : Contacts) (C : Prop) : Prop :=
  w.Sound → w'.Sound ∧ (w'.AllFit ↔ w.AllFit ∧ C)

theorem Adds.refl (w : Contacts) : Adds w w True := fun h => ⟨h, (and_iff_left trivial).symm⟩

theorem Adds.congr {w w' : Contacts} {C D : Prop} (h : Adds w w' C) (hCD : C ↔ D) :
    Adds w w' D := by rwa [← propext hCD]

/-- The condition matters only where everything has fitted so far. -/
theorem Adds.congr_of_fit {w w' : Contacts} {C D : Prop} (h : Adds w w' C)
    (hCD : w.Sound → w.AllFit → (C ↔ D)) : Adds w w' D := by
  intro hw
  obtain ⟨hw', hC⟩ := h hw
  exact ⟨hw', by rw [hC]; exact and_congr_right (hCD hw)⟩

theorem Adds.trans {w w' w'' : Contacts} {C D : Prop} (h : Adds w w' C) (h' : Adds w' w'' D) :
    Adds w w'' (C ∧ D) := by
  intro hw
  obtain ⟨hw', hC⟩ := h hw
  obtain ⟨hw'', hD⟩ := h' hw'
  exact ⟨hw'', by rw [hD, hC, and_assoc]⟩

theorem allFit_copied (w : Contacts) (copies : List Copy) :
    (w.copied copies).AllFit ↔ w.AllFit ∧ ∀ c ∈ copies, c.Fits := by
  unfold AllFit copied
  rw [List.forall_mem_append, and_comm]

theorem adds_copied (w : Contacts) (copies : List Copy) :
    Adds w (w.copied copies) (∀ c ∈ copies, c.Fits) := by
  intro hw
  refine ⟨fun hfit => hw ((allFit_copied w copies).mp hfit).1, allFit_copied w copies⟩

theorem adds_putFriend {w : Contacts} (f : FriendArg) (ui : Option UserInfo)
    (h : w.AllFit → ∀ u ∈ ui, u.Held) : Adds w (w.putFriend f ui) True := by
  intro hw
  refine ⟨fun hfit f' u hu => ?_, (and_iff_left trivial).symm⟩
  change u ∈ Function.update w.friends f.code ui f' at hu
  rw [Function.update_apply] at hu
  split_ifs at hu
  · exact h hfit u hu
  · exact hw hfit f' u hu

theorem adds_history (w : Contacts) (key : Bytes) (value : Option (BitVec 64)) :
    Adds w { w with thistory := Function.update w.thistory key value } True :=
  fun hw => ⟨hw, (and_iff_left trivial).symm⟩

/-- A description of a friend whose strings fit so far. -/
theorem adds_description {w : Contacts} (f : FriendArg) {info : UserInfo} (desc : Option IOEXCP)
    (hinfo : w.Sound → w.AllFit → info.Held) :
    Adds w (match unpackUserDesc desc info with
      | none => w
      | some (ui, copies) => (w.copied copies).putFriend f (some ui))
      (∀ cp ∈ desc, cp.getType = typeUserinfo → DescFits cp) := by
  cases desc with
  | none => exact (Adds.refl w).congr (by simp)
  | some cp =>
    simp only [Option.mem_some, forall_eq']
    cases hunpack : unpackUserDesc (some cp) info with
    | none =>
      have htype := unpackUserDesc_type.mp hunpack
      exact (Adds.refl w).congr (by simp [htype])
    | some result =>
      obtain ⟨ui, copies⟩ := result
      have htype : cp.getType = typeUserinfo := by
        by_contra hne
        cases (unpackUserDesc_type.mpr hne).symm.trans hunpack
      intro hw
      by_cases hfit : w.AllFit
      · obtain ⟨hcopies, hheld⟩ := unpackUserDesc_fits (hinfo hw hfit) hunpack
        have hput := (adds_copied w copies).trans (adds_putFriend f (some ui) ?_)
        · apply (hput.congr _) hw
          simp [hcopies, htype]
        · intro hcopied u hu
          cases Option.mem_some.mp hu
          exact hheld (hcopies.mp ((allFit_copied w copies).mp hcopied).2)
      · have hnot : ¬(w.copied copies).AllFit := fun h => hfit ((allFit_copied w copies).mp h).1
        exact ⟨fun h => absurd h hnot, iff_of_false hnot (fun h => hfit h.1)⟩

theorem adds_putInvite (w : Contacts) (userid : Bytes) (tid : BitVec 64) :
    Adds w (w.transactionHistoryPutInvite userid tid) ((historyKey userid).length < historyKeySize) := by
  have hput := (adds_copied w [⟨historyKeySize, historyKey userid⟩]).trans
    (adds_history _ (historyKey userid) (some tid))
  exact hput.congr (by simp [Copy.Fits])

theorem length_historyKey (userid : Bytes) : (historyKey userid).length = 3 + userid.length := by
  rw [historyKey, List.length_append]
  rfl

/-- The key is longer than what it is made from, and fits in an array of the same size. -/
theorem adds_handleInviteRequest (w : Contacts) (f : FriendArg) (cp : IOEXCP) :
    Adds w (w.handleInviteRequest f cp) (∀ ui ∈ w.friends f.code, ∀ ext ∈ cp.getExtension,
      ui.userid.length + ext.length < maxIdLen + maxExtensionNameLen) := by
  unfold handleInviteRequest
  cases hui : w.friends f.code with
  | none => exact (Adds.refl w).congr (by simp)
  | some ui =>
    have huserid : w.Sound → w.AllFit → ui.userid.length ≤ maxIdLen :=
      fun hw hfit => (hw hfit f.code ui hui).userid
    have hcopied := adds_copied w [⟨historyKeySize, ui.userid⟩]
    dsimp only
    cases cp.getExtension with
    | none =>
      apply (hcopied.trans (adds_putInvite _ ui.userid _)).congr_of_fit
      intro hw hfit
      have := huserid hw hfit
      simp only [List.mem_singleton, forall_eq, Copy.Fits, length_historyKey, Option.mem_some,
        Option.not_mem_none, false_imp_iff, implies_true, iff_true]
      unfold historyKeySize maxIdLen maxExtensionNameLen at *
      omega
    | some ext =>
      have hfrom := adds_copied (w.copied [⟨historyKeySize, ui.userid⟩])
        [⟨historyKeySize, ui.userid ++ colon :: ext⟩]
      apply ((hcopied.trans hfrom).trans (adds_putInvite _ (ui.userid ++ colon :: ext) _)).congr
      simp only [List.mem_singleton, forall_eq, Copy.Fits, length_historyKey, Option.mem_some,
        forall_eq', List.length_append, List.length_cons]
      unfold historyKeySize maxIdLen maxExtensionNameLen
      omega

theorem adds_lookup (w : Contacts) (addr : Bytes) :
    Adds w (w.transactionHistoryGetInvite addr).2 (addr.length ≤ maxIdLen + maxExtensionNameLen) := by
  apply (adds_copied w [⟨historyKeySize, historyKey addr⟩]).congr
  simp only [List.mem_singleton, forall_eq, Copy.Fits, length_historyKey]
  unfold historyKeySize maxIdLen maxExtensionNameLen
  omega

theorem adds_removeInvite (w : Contacts) (addr : Bytes) :
    Adds w (w.transactionHistoryRemoveInvite addr)
      (addr.length ≤ maxIdLen + maxExtensionNameLen) :=
  ((adds_lookup w addr).trans (adds_history _ (historyKey addr) none)).congr (and_iff_left trivial)

theorem adds_replyFriendInvite (w : Contacts) (call : ReplyCall) :
    Adds w (w.replyFriendInvite call)
      (w.admits call → call.addr.length ≤ maxIdLen + maxExtensionNameLen) := by
  unfold replyFriendInvite
  cases w.admits call with
  | false => exact (Adds.refl w).congr (by simp)
  | true =>
    have hget := adds_lookup w call.addr
    simp only [Bool.not_true, Bool.false_eq_true, if_false, forall_const]
    split_ifs
    · exact hget
    · exact hget
    · exact hget
    · exact (hget.trans (adds_removeInvite _ call.addr)).congr and_self_iff

theorem adds_friendRequest (w : Contacts) (known : Bool) (cp : IOEXCP) :
    Adds w (w.notifyFriendRequestCb known (some cp)) (known = false →
      cp.getType = typeFriendRequest → (orEmpty cp.getName).length ≤ maxUserNameLen ∧
        (orEmpty cp.getDescr).length ≤ maxUserDescriptionLen) := by
  unfold notifyFriendRequestCb
  cases known with
  | true => exact (Adds.refl w).congr (by simp)
  | false =>
    simp only [Bool.false_eq_true, if_false, forall_const]
    split_ifs with htype
    · exact (Adds.refl w).congr (by simp [htype])
    · rw [not_not] at htype
      apply (adds_copied w _).congr
      rw [List.forall_mem_append, copyChanged_nil_fits, copyChanged_nil_fits]
      simp [htype]

/-- One event: what is copied fits exactly if the event keeps to the lengths. -/
theorem adds_handle (w : Contacts) (ev : Event) : Adds w (w.handle ev) (w.EventFits ev) := by
  cases ev with
  | friendLoaded f publicKey desc =>
    have hheld : (UserInfo.ofId (keyText publicKey)).Held := .ofId (length_keyText publicKey)
    obtain _ | desc := desc
    · exact adds_putFriend f _ (by simp [hheld])
    · have hdesc := adds_description (w := w) f desc (fun _ _ => hheld)
      cases desc with
      | none => exact hdesc.congr (by simp [EventFits])
      | some cp => exact hdesc.congr (by simp [EventFits])
  | addFriend f publicKey =>
    exact adds_putFriend f _ (by simp [UserInfo.Held.ofId (length_keyText publicKey)])
  | acceptFriend f userid =>
    change Adds w (w.acceptFriend f userid) (isValidKey userid → userid.length ≤ maxIdLen)
    unfold acceptFriend
    cases hvalid : isValidKey userid with
    | false => exact (Adds.refl w).congr (by simp)
    | true =>
      have hheld : (w.copied [⟨maxIdLen + 1, userid⟩]).AllFit →
          ∀ u ∈ some (UserInfo.ofId userid), u.Held := by
        intro hfit u hu
        cases hu
        have hcopy := ((allFit_copied w _).mp hfit).2 _ List.mem_cons_self
        exact .ofId (Nat.lt_succ_iff.mp hcopy)
      have hput := (adds_copied w [⟨maxIdLen + 1, userid⟩]).trans (adds_putFriend f _ hheld)
      apply hput.congr
      simp [Copy.Fits]
  | removeFriend f => exact adds_putFriend f _ (by simp)
  | description f desc =>
    change Adds w (w.notifyFriendDescriptionCb f desc) _
    unfold notifyFriendDescriptionCb
    cases hui : w.friends f.code with
    | none =>
      apply (Adds.refl w).congr
      obtain _ | _ | cp := desc <;> simp [EventFits, hui]
    | some ui =>
      obtain _ | desc := desc
      · exact Adds.refl w
      · have hdesc := adds_description (w := w) f desc (fun hw hfit => hw hfit f.code ui hui)
        cases desc with
        | none => exact hdesc.congr (by simp [EventFits])
        | some cp => exact hdesc.congr (by simp [EventFits, hui])
  | friendRequest known cp =>
    cases cp with
    | none =>
      change Adds w (w.notifyFriendRequestCb known none) True
      cases known <;> exact Adds.refl w
    | some cp => exact adds_friendRequest w known cp
  | message f cp =>
    cases cp with
    | none => exact Adds.refl w
    | some cp =>
      change Adds w (if cp.getType = typeInviteRequest then w.handleInviteRequest f cp else w) _
      split_ifs with htype
      · exact (adds_handleInviteRequest w f cp).congr (by simp [EventFits, htype])
      · exact (Adds.refl w).congr (by simp [EventFits, htype])
  | reply call => exact adds_replyFriendInvite w call

/-- Everything that is copied in a run fits exactly if every event keeps to the lengths. -/
theorem exec_allFit_iff {events : List Event} {w : Contacts} (h : exec step init events = some w) :
    w.AllFit ↔ Along step EventFits init events := by
  have hstep : ∀ (w : Contacts) (ev : Event) (w' : Contacts), w.Sound → w.step ev = some w' →
      w'.Sound ∧ (w'.AllFit ↔ w.AllFit ∧ w.EventFits ev) := by
    intro w ev w' hw hw'
    cases hw'
    exact adds_handle w ev hw
  have hsound : init.Sound := by
    intro _ f ui hui
    cases hui
  have hinit : init.AllFit := by
    intro c hc
    cases hc
  rw [exec_iff_along hstep hsound h, and_iff_right hinit]

/-- A message of a friend that invites us for an extension. -/
def inviteFor (ext : Bytes) : Event := .message 0 (Message.inviteRequest (some ext) 7 [1]).build

theorem eventFits_inviteFor (id ext : Bytes) :
    (init.putFriend 0 (some (.ofId id))).EventFits (inviteFor ext) ↔
      id.length + ext.length < maxIdLen + maxExtensionNameLen := by
  constructor
  · intro h
    exact h rfl _ rfl ext rfl
  · rintro h - ui hui ext' hext
    cases hui
    cases hext
    exact h

def onesKey : Bytes := List.replicate 32 1

theorem length_keyText_onesKey : (keyText onesKey).length = 43 := by
  have hval : 58 ^ 42 ≤ ofBE onesKey ∧ ofBE onesKey < 58 ^ 43 := by decide +kernel
  have hlower := (Nat.lt_digits_length_iff (by norm_num) (ofBE onesKey)).mpr hval.1
  have hupper := (Nat.digits_length_le_iff (by norm_num) (ofBE onesKey)).mpr hval.2
  have hzeros : onesKey.takeWhile (· = 0) = [] := by decide
  have htext : (base58Text onesKey).length = 43 := by
    rw [base58Text, hzeros, List.length_append, List.length_map, List.length_reverse,
      List.length_replicate, List.length_nil]
    omega
  unfold keyText
  rw [base58Encode_eq, htext]
  exact htext

/-- An invite for the longest extension name that `thistory.h` provides for. -/
theorem inviteFor_allFit :
    ∃ w, exec step init [.addFriend 0 onesKey, inviteFor (List.replicate maxExtensionNameLen 97)] =
      some w ∧ w.AllFit := by
  have hfits : Along step EventFits init
      [.addFriend 0 onesKey, inviteFor (List.replicate maxExtensionNameLen 97)] := by
    refine ⟨trivial, fun w hw => ⟨?_, fun _ _ => trivial⟩⟩
    obtain rfl := Option.some.inj hw
    apply (eventFits_inviteFor _ _).mpr
    rw [length_keyText_onesKey, List.length_replicate]
    decide
  exact ⟨_, rfl, (exec_allFit_iff rfl).mpr hfits⟩

/-- An invite for the longest name that `IOEX_invite_friend` takes. -/
theorem inviteFor_not_allFit :
    ∃ w, exec step init [.addFriend 0 onesKey, inviteFor (List.replicate maxUserNameLen 97)] =
      some w ∧ ¬w.AllFit := by
  refine ⟨_, rfl, ?_⟩
  intro h
  have hsound : (init.putFriend 0 (some (.ofId (keyText onesKey)))).Sound :=
    (adds_handle init (.addFriend 0 onesKey) (fun _ f ui hui => by cases hui)).1
  have hfits := ((adds_handle _ (inviteFor (List.replicate maxUserNameLen 97)) hsound).2.mp h).2
  have hlt := (eventFits_inviteFor _ _).mp hfits
  rw [length_keyText_onesKey, List.length_replicate] at hlt
  exact absurd hlt (by decide)

end Contacts

end Carrier.Core
