import Carrier.Core.FriendDescriptions
import Carrier.Core.FriendEvents
import Carrier.Core.FriendTable

/-! The life of a friend in `carrier/IOEX_carrier.c`: loading, adding, accepting and removing, what
the DHT reports, and the callbacks. A call of the API is one step; it comes between the steps of
`IOEX_run`, or from a callback of an event. Labels and the files that `store_persistence_data` writes
are left out. -/
namespace Carrier.Core
open Carrier.Lib Carrier.Common Schema

/-- `IOEXPresenceStatus_Busy`, the last one -/
def presenceBusy : ℤ := 2

def getPresenceStatus (userStatus : ℤ) : ℤ :=
  if userStatus < 0 then 0 else if presenceBusy < userStatus then presenceBusy else userStatus

/-- A friend in the list of toxcore. -/
structure ToxFriend where
  number : ℕ
  publicKey : Bytes
  deriving DecidableEq

/-- What toxcore has saved of a friend, and whether there is memory for its `FriendInfo`. -/
structure SavedFriend where
  friend : ToxFriend
  userStatus : ℤ
  desc : Bytes
  allocated : Bool
  deriving DecidableEq

/-- `FriendInfo` -/
structure FriendEntry where
  friendNumber : ℕ
  userInfo : StoredInfo
  status : Bool
  presence : ℤ
  deriving DecidableEq

def FriendEntry.userid (e : FriendEntry) : Bytes := e.userInfo.val.userid

/-- What the key of a friend points to. -/
def FriendEntry.key (e : FriendEntry) : FriendKey := ⟨BitVec.ofNat 32 e.friendNumber, e.userid⟩

/-- A call of one of the callbacks of the application. -/
inductive RosterCall where
  | ready
  | connectionStatus (connected : Bool)
  | friendList (info : Option FriendEntry)
  | friendInfo (info : FriendEntry)
  | friend (call : FriendCallback)
  | friendPresence (userid : Bytes) (presence : ℤ)
  | friendRequest (info : UserInfo) (hello : Bytes)
  deriving DecidableEq

/-- What `IOEX_get_error` tells of a call that failed: a general error, or one of the DHT. -/
inductive CallError where
  | general (code : ErrorCode)
  | dht (rc : ℤ)
  deriving DecidableEq

/-- What happens outside of the functions that add a friend: whether there is memory for the friend
and its request, what the DHT answers, and whether there is memory for the event. -/
structure AddContext where
  allocated : Bool
  answer : Except ℤ ℕ
  queued : Bool
  deriving DecidableEq

/-- The part of a carrier that friends are in, with the calls made so far. -/
structure Roster where
  me : Bytes
  base58Addr : Bytes
  isReady : Bool
  running : Bool
  tox : List ToxFriend
  friends : List FriendEntry
  events : EventLoop
  calls : List RosterCall
  deriving DecidableEq

/-- A `FriendInfo` as the functions that add a friend fill it in. -/
def newEntry (friendNumber : ℕ) (userid : Bytes) (h : userid.length ≤ maxIdLen) : FriendEntry :=
  ⟨friendNumber, ⟨.ofId userid, .ofId h⟩, false, 0⟩

/-- `friends_put` -/
def putFriend (friends : List FriendEntry) (e : FriendEntry) : List FriendEntry :=
  insertFriend FriendEntry.key friends e

/-- `friends_iterate_cb`: the friends, and whether to go on. `none` is a copy beyond its array. -/
def friendsIterateCb (flatcc : BufferLibrary) (friends : List FriendEntry) (f : SavedFriend) :
    Option (List FriendEntry × Bool) :=
  if !f.allocated then some (friends, false)
  else
    let ui := newEntry f.friend.number (keyText f.friend.publicKey) (length_keyText _)
    let e := { ui with presence := getPresenceStatus f.userStatus }
    if f.desc = [] then some (putFriend friends e, true)
    else
      match hunpack : unpackUserDesc (ioexcpDecode flatcc f.desc) e.userInfo.val with
      | none => some (friends, false)
      | some (info, copies) =>
        if hfits : ∀ c ∈ copies, c.Fits then
          let info := ⟨info, held_of_unpackUserDesc e.userInfo.property hunpack hfits⟩
          some (putFriend friends { e with userInfo := info }, true)
        else none

def dhtGetFriends (flatcc : BufferLibrary) :
    List FriendEntry → List SavedFriend → Option (List FriendEntry)
  | friends, [] => some friends
  | friends, f :: fs =>
    match friendsIterateCb flatcc friends f with
    | none => none
    | some (friends, success) => if success then dhtGetFriends flatcc friends fs else some friends

/-- `IOEX_new`, as far as it is about friends -/
def ioexNew (flatcc : BufferLibrary) (me base58Addr : Bytes) (saved : List SavedFriend) :
    Option Roster :=
  (dhtGetFriends flatcc [] saved).map
    (fun friends => ⟨me, base58Addr, false, false, saved.map SavedFriend.friend, friends, .init, []⟩)

namespace Roster

def dhtGetFriendNumber (r : Roster) (publicKey : Bytes) : Option ℕ :=
  (r.tox.find? (fun f => f.publicKey = publicKey)).map ToxFriend.number

/-- `friends_get`, behind its assertion. -/
def friendsGet (r : Roster) (f : FriendArg) : Option FriendEntry :=
  findFriend FriendEntry.key r.friends f.key

/-- Another friend, for the DHT and for the table. -/
def store (r : Roster) (publicKey : Bytes) (e : FriendEntry) : Roster :=
  { r with
    tox := r.tox ++ [⟨e.friendNumber, publicKey⟩]
    friends := putFriend r.friends e }

/-- `dht_friend_delete` and `friends_remove` -/
def drop (r : Roster) (f : FriendArg) : Roster :=
  { r with
    tox := r.tox.filter (fun g => g.number ≠ f.number)
    friends := dropFriend FriendEntry.key r.friends f.key }

/-- What is written to the friend that a lookup has found. -/
def update (r : Roster) (f : FriendArg) (e : FriendEntry) : Roster :=
  { r with friends := modifyFriend FriendEntry.key r.friends f.key (fun _ => e) }

def notify (r : Roster) (call : RosterCall) : Roster := { r with calls := r.calls ++ [call] }

/-- `notify_friend_added` and `notify_friend_removed` -/
def notifyFriend (r : Roster) (type : FriendEventType) (e : FriendEntry) (queued : Bool) : Roster :=
  if queued then { r with events := r.events.notifyFriend ⟨type, e.userid, e.status⟩ } else r

def notifyFriends (r : Roster) : Roster :=
  { r with calls := r.calls ++ (r.friends.map (fun e => .friendList (some e)) ++ [.friendList none]) }

/-- The end of `IOEX_add_friend` and `IOEX_accept_friend`, from the call of the DHT on. -/
def addKey (r : Roster) (publicKey userid : Bytes) (h : userid.length ≤ maxIdLen) (ctx : AddContext) :
    Except CallError Roster :=
  match ctx.answer with
  | .error rc => .error (.dht rc)
  | .ok friendNumber =>
    let e := newEntry friendNumber userid h
    .ok ((r.store publicKey e).notifyFriend .added e ctx.queued)

/-- The public key that an address begins with. -/
def addressKey (address : Bytes) : Bytes :=
  ((base58Decode address address.length dhtAddressSize).elim [] Prod.fst).take dhtPublicKeySize

def addFriend (r : Roster) (address : Bytes) (ctx : AddContext) : Except CallError Roster :=
  if !isValidAddress address then .error (.general .invalidArgs)
  else if address = r.base58Addr then .error (.general .invalidArgs)
  else if !r.isReady then .error (.general .notReady)
  else if (r.dhtGetFriendNumber (addressKey address)).isSome then .error (.general .alreadyExist)
  else if !ctx.allocated then .error (.general .outOfMemory)
  else r.addKey (addressKey address) (keyText (addressKey address)) (length_keyText _) ctx

/-- `IOEX_accept_friend`. `none` where it uses a key it has not decoded, or copies an id beyond its
array. -/
def acceptFriend (r : Roster) (userid : Bytes) (ctx : AddContext) :
    Option (Except CallError Roster) :=
  match acceptFriendKey r.dhtGetFriendNumber r.me r.isReady userid with
  | .error e => some (.error (.general e))
  | .ok key =>
    if !ctx.allocated then some (.error (.general .outOfMemory))
    else
      match key with
      | none => none
      | some (publicKey, _) =>
        if h : userid.length ≤ maxIdLen then some (r.addKey publicKey userid h ctx) else none

/-- `IOEX_remove_friend`, given what lies behind the number in `friends_exist` and in `friends_remove`.
`none` is an assertion. -/
def removeFriend (r : Roster) (friendid behind behind' : Bytes) (queued : Bool) :
    Option (Except CallError Roster) :=
  if !isValidKey friendid then some (.error (.general .invalidArgs))
  else if !r.isReady then some (.error (.general .notReady))
  else
    match getFriendNumber r.dhtGetFriendNumber friendid with
    | .error e => some (.error (.general e))
    | .ok friendNumber =>
      if friendNumber = 2 ^ 32 - 1 then none
      else if (r.friendsGet ⟨friendNumber, behind⟩).isNone then some (.error (.general .notExist))
      else
        (r.friendsGet ⟨friendNumber, behind'⟩).map
          (fun e => .ok ((r.drop ⟨friendNumber, behind'⟩).notifyFriend .removed e queued))

def isFriend (r : Roster) (userid behind : Bytes) : Bool :=
  match getFriendNumber r.dhtGetFriendNumber userid with
  | .error _ => false
  | .ok friendNumber =>
    friendNumber ≠ 2 ^ 32 - 1 && (r.friendsGet ⟨friendNumber, behind⟩).isSome

/-- `IOEX_get_friend_info`; `none` is an assertion. -/
def getFriendInfo (r : Roster) (friendid behind : Bytes) : Option (Except ErrorCode FriendEntry) :=
  match getFriendNumber r.dhtGetFriendNumber friendid with
  | .error e => some (.error e)
  | .ok friendNumber =>
    if friendNumber = 2 ^ 32 - 1 then none
    else
      match r.friendsGet ⟨friendNumber, behind⟩ with
      | none => some (.error .notExist)
      | some e => if friendid = e.userid then some (.ok e) else none

def notifyConnectionCb (r : Roster) (connected : Bool) : Roster :=
  let r := if !r.isReady && connected then { r with isReady := true }.notify .ready else r
  r.notify (.connectionStatus connected)

def notifyFriendConnectionCb (r : Roster) (f : FriendArg) (connected : Bool) : Roster :=
  match r.friendsGet f with
  | none => r
  | some e =>
    if connected ≠ e.status then
      (r.update f { e with status := connected }).notify
        (.friend (.friendConnection e.userid connected))
    else r

def notifyFriendStatusCb (r : Roster) (f : FriendArg) (status : ℤ) : Roster :=
  match r.friendsGet f with
  | none => r
  | some e =>
    if status < 0 ∨ presenceBusy < status then r
    else if status ≠ e.presence then
      (r.update f { e with presence := status }).notify (.friendPresence e.userid status)
    else r

/-- `notify_friend_description_cb`, given what `changed` holds at its entry -/
def notifyFriendDescriptionCb (flatcc : BufferLibrary) (r : Roster) (f : FriendArg)
    (desc : Bytes) (garbage : Bool) : Option Roster :=
  match r.friendsGet f with
  | none => some r
  | some e =>
    if desc = [] then some r
    else
      match unpackInto (ioexcpDecode flatcc desc) e.userInfo garbage with
      | none => none
      | some (info, changed) =>
        let e := { e with userInfo := info }
        some (if changed then (r.update f e).notify (.friendInfo e) else r.update f e)

/-- `notify_friend_request_cb`; `none` is a copy beyond its array. -/
def notifyFriendRequestCb (flatcc : BufferLibrary) (r : Roster) (publicKey greeting : Bytes) :
    Option Roster :=
  if (r.dhtGetFriendNumber publicKey).isSome then some r
  else
    match ioexcpDecode flatcc greeting with
    | none => some r
    | some cp =>
      if cp.getType ≠ typeFriendRequest then some r
      else
        let name := orEmpty cp.getName
        let descr := orEmpty cp.getDescr
        if name.length ≤ maxUserNameLen ∧ descr.length ≤ maxUserDescriptionLen then
          some (r.notify (.friendRequest
            { UserInfo.ofId (keyText publicKey) with name := name, description := descr }
            (orEmpty cp.getHello)))
        else none

/-- What `do_friend_events` leaves, and the calls for what it has delivered. -/
def afterEvents (r : Roster) (w : EventLoop) : Roster :=
  { r with
    events := w
    calls := r.calls ++
      ((w.delivered.drop r.events.delivered.length).flatMap (doFriendEvent ·.data)).map .friend }

end Roster

/-- What happens to the friends of a carrier. -/
inductive RosterAction where
  | run
  | connection (connected : Bool)
  | addFriend (address : Bytes) (ctx : AddContext)
  | acceptFriend (userid : Bytes) (ctx : AddContext)
  | removeFriend (friendid behind behind' : Bytes) (queued : Bool)
  | friendConnection (f : FriendArg) (connected : Bool)
  | friendStatus (f : FriendArg) (status : ℤ)
  | description (f : FriendArg) (desc : Bytes) (garbage : Bool)
  | friendRequest (publicKey greeting : Bytes)
  | doFriendEvents
  | nextEvent
  | eventReturn
  deriving DecidableEq

namespace Roster

/-- The state that a call of the API leaves. -/
def afterCall (r : Roster) : Except CallError Roster → Roster
  | .error _ => r
  | .ok r' => r'

/-- The application calls while `do_friend_events` does not run, or from its callbacks. -/
def called (r : Roster) (next : Option (Except CallError Roster)) : Option Roster :=
  match r.events.phase with
  | .looping _ => none
  | .idle | .delivering _ => next.map r.afterCall

/-- What the DHT reports comes in the loop of `IOEX_run`, outside of `do_friend_events`. -/
def reported (r : Roster) (next : Option Roster) : Option Roster :=
  if r.running ∧ r.events.phase = .idle then next else none

/-- `do_friend_events` in the loop of `IOEX_run`. -/
def inEvents (r : Roster) (a : EventAction) : Option Roster :=
  if r.running then (r.events.step a).map r.afterEvents else none

def step (flatcc : BufferLibrary) (r : Roster) : RosterAction → Option Roster
  | .run => if r.running then none else some { r.notifyFriends with running := true }
  | .connection connected => r.reported (some (r.notifyConnectionCb connected))
  | .addFriend address ctx => r.called (some (r.addFriend address ctx))
  | .acceptFriend userid ctx => r.called (r.acceptFriend userid ctx)
  | .removeFriend friendid behind behind' queued =>
    r.called (r.removeFriend friendid behind behind' queued)
  | .friendConnection f connected => r.reported (some (r.notifyFriendConnectionCb f connected))
  | .friendStatus f status => r.reported (some (r.notifyFriendStatusCb f status))
  | .description f desc garbage => r.reported (r.notifyFriendDescriptionCb flatcc f desc garbage)
  | .friendRequest publicKey greeting =>
    r.reported (r.notifyFriendRequestCb flatcc publicKey greeting)
  | .doFriendEvents => r.inEvents .run
  | .nextEvent => r.inEvents .loop
  | .eventReturn => r.inEvents .callbackReturn

end Roster

end Carrier.Core
