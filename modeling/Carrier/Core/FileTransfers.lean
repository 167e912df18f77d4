import Carrier.Core.FriendTable
import Carrier.Lib.Run

/-! The file transfers of `carrier/IOEX_carrier.c`: the lists of trackers, the friends they belong to
and the references the callbacks and calls take. Allocations that fail and the system calls are
inputs of the events; user callbacks come last in every handler and are events of their own. Builds
with and without assertions differ in one place, `list_remove_entry` of no entry. -/
namespace Carrier.Core
open Carrier.Lib

/-- `IOEX_MAX_FILE_NAME_LEN` and `IOEX_MAX_FILE_PATH_LEN` -/
def maxFileNameLen : ℕ := 511

def maxFullPathLen : ℕ := maxFileNameLen + maxFileNameLen + 1

def slash : UInt8 := 47

/-- A `char` array of `maxFileNameLen + 1` bytes: the text in front of the first zero among all bytes
but the last, and whether the last byte is not zero. -/
structure NameField where
  text : Bytes
  full : Bool
  deriving DecidableEq

/-- The string in the array, if it is terminated. -/
def NameField.get (a : NameField) : Option Bytes :=
  if a.text.length < maxFileNameLen ∨ a.full = false then some a.text else none

/-- A tracker with the address it has been allocated at. -/
structure FileTracker where
  addr : ℕ
  friendNumber : ℕ
  fileIndex : ℕ
  fileName : NameField
  filePath : NameField
  refs : ℕ
  deriving DecidableEq

inductive ConnectionStatus where
  | connected
  | disconnected
  deriving DecidableEq

structure FriendInfo where
  friendNumber : ℕ
  userid : Bytes
  status : ConnectionStatus
  presence : ℕ
  refs : ℕ
  deriving DecidableEq

/-- In the table a friend's number has the user id behind it. -/
def FriendInfo.arg (fi : FriendInfo) : FriendArg := ⟨fi.friendNumber, fi.userid⟩

/-- What a run shows: a number obtained for a path, a path written by `IOEX_send_file_accept` and
whether that call then succeeds, a path that is unlinked, one that a chunk is read from. -/
inductive FileAct where
  | requested (friendNumber fileNumber : ℕ) (path : Bytes)
  | updated (tracker : ℕ) (filename filepath : Bytes) (success : Bool)
  | unlinked (tracker : ℕ) (path : Option Bytes)
  | served (friendNumber fileNumber : ℕ) (path : Option Bytes)
  deriving DecidableEq

/-- The tables of the carrier, the objects that are in none of them but still referenced, and what
has been done so far, the latest first. -/
structure Files where
  friends : FriendCode → Option FriendInfo
  lostFriends : List FriendInfo
  senders : List FileTracker
  receivers : List FileTracker
  lostTrackers : List FileTracker
  nextAddr : ℕ
  acts : List FileAct

inductive FileList where
  | senders
  | receivers
  deriving DecidableEq

namespace Files

def init : Files := ⟨fun _ => none, [], [], [], [], 0, []⟩

def list (s : Files) : FileList → List FileTracker
  | .senders => s.senders
  | .receivers => s.receivers

@[simp] theorem list_init (l : FileList) : init.list l = [] := by cases l <;> rfl

def setList (s : Files) (l : FileList) (trackers : List FileTracker) : Files :=
  match l with
  | .senders => { s with senders := trackers }
  | .receivers => { s with receivers := trackers }

@[simp] theorem list_setList (s : Files) (l l' : FileList) (trackers : List FileTracker) :
    (s.setList l trackers).list l' = if l' = l then trackers else s.list l' := by
  cases l <;> cases l' <;> rfl

@[simp] theorem setList_friends (s : Files) (l : FileList) (trackers : List FileTracker) :
    (s.setList l trackers).friends = s.friends := by cases l <;> rfl

@[simp] theorem setList_lostFriends (s : Files) (l : FileList) (trackers : List FileTracker) :
    (s.setList l trackers).lostFriends = s.lostFriends := by cases l <;> rfl

@[simp] theorem setList_lostTrackers (s : Files) (l : FileList) (trackers : List FileTracker) :
    (s.setList l trackers).lostTrackers = s.lostTrackers := by cases l <;> rfl

@[simp] theorem setList_nextAddr (s : Files) (l : FileList) (trackers : List FileTracker) :
    (s.setList l trackers).nextAddr = s.nextAddr := by cases l <;> rfl

@[simp] theorem setList_acts (s : Files) (l : FileList) (trackers : List FileTracker) :
    (s.setList l trackers).acts = s.acts := by cases l <;> rfl

def act (s : Files) (a : FileAct) : Files := { s with acts := a :: s.acts }

def putFriend (s : Files) (c : FriendCode) (fi : Option FriendInfo) : Files :=
  { s with friends := Function.update s.friends c fi }

@[simp] theorem list_putFriend (s : Files) (c : FriendCode) (fi : Option FriendInfo) (l : FileList) :
    (s.putFriend c fi).list l = s.list l := by cases l <;> rfl

@[simp] theorem list_act (s : Files) (a : FileAct) (l : FileList) : (s.act a).list l = s.list l := by
  cases l <;> rfl

theorem putFriend_friends (s : Files) (c : FriendCode) (fi : Option FriendInfo) (c' : FriendCode) :
    (s.putFriend c fi).friends c' = if c' = c then fi else s.friends c' :=
  Function.update_apply ..

end Files

namespace FileTracker

def hasKey (t : FileTracker) (friendNumber fileNumber : ℕ) : Bool :=
  t.friendNumber = friendNumber && t.fileIndex = fileNumber

/-- `ref`, by an iterator -/
def ref (t : FileTracker) : FileTracker := { t with refs := t.refs + 1 }

end FileTracker

/-- Directory and name with what lies between them, without the terminator. -/
def joinPath (path name : Bytes) : Bytes :=
  if path = [] then name
  else if path.getLast? = some slash then path ++ name
  else path ++ slash :: name

/-- `get_fullpath` of a tracker, or nothing definite. -/
def getFullpath (t : FileTracker) : Option Bytes :=
  match t.filePath.get, t.fileName.get with
  | some path, some name => some ((joinPath path name).take (maxFullPathLen - 1))
  | _, _ => none

def isSender (fileNumber : ℕ) : Bool := fileNumber < 65536

/-- `_find_file_tracker`: the index of the first match. The iterator takes a reference on every
tracker it comes to, and nothing gives them back. -/
def findFileTracker (friendNumber fileNumber : ℕ) :
    List FileTracker → Option ℕ × List FileTracker
  | [] => (none, [])
  | t :: rest =>
    if t.hasKey friendNumber fileNumber then (some 0, t.ref :: rest)
    else
      let (i, rest) := findFileTracker friendNumber fileNumber rest
      (i.map (· + 1), t.ref :: rest)

/-- `strncpy` of a string into an array of `maxFileNameLen + 1` bytes, of its whole size. -/
def copyField (s : Bytes) : NameField := ⟨s.take maxFileNameLen, maxFileNameLen < s.length⟩

/-- `strncpy` of at most `maxFileNameLen` bytes: the last byte of the array stays. -/
def updateField (old : NameField) (s : Bytes) : NameField := ⟨s.take maxFileNameLen, old.full⟩

def updateFileReceiverPath (receiver : FileTracker) (filename filepath : Bytes) : FileTracker :=
  { receiver with
    fileName := updateField receiver.fileName filename
    filePath := updateField receiver.filePath filepath }

/-- The part of a path before its last slash, empty if there is none. -/
def dirPart (fullpath : Bytes) : Bytes := ((fullpath.reverse.dropWhile (· ≠ slash)).drop 1).reverse

/-- The part behind it, `strrchr` plus one. -/
def namePart (fullpath : Bytes) : Bytes := (fullpath.reverse.takeWhile (· ≠ slash)).reverse

/-- The tracker of `add_new_file_sender`, for a directory that fits: it is copied with as many bytes as
it has. -/
def newSender (addr friendNumber fileNumber : ℕ) (fullpath : Bytes) : FileTracker where
  addr := addr
  friendNumber := friendNumber
  fileIndex := fileNumber
  fileName := copyField (namePart fullpath)
  filePath := copyField (dirPart fullpath)
  refs := 1

def newReceiver (addr friendNumber fileNumber : ℕ) (filename : Bytes) : FileTracker where
  addr := addr
  friendNumber := friendNumber
  fileIndex := fileNumber
  fileName := copyField filename
  filePath := copyField (slash :: [116, 109, 112] ++ [slash])
  refs := 1

/-- The path that `IOEX_send_file_accept` tries to open. For an empty directory the byte in front of
it is taken not to be a slash. -/
def acceptFullpath (filename filepath : Bytes) : Bytes :=
  (if filepath.getLast? = some slash then filepath ++ filename
    else filepath ++ slash :: filename).take maxFullPathLen

theorem findFileTracker_visited (f n : ℕ) (l : List FileTracker) :
    List.Forall₂ (fun t t' => ∃ k, t' = { t with refs := t.refs + k }) l
      (findFileTracker f n l).2 := by
  induction l with
  | nil => exact .nil
  | cons t l ih =>
    unfold findFileTracker
    split_ifs
    · apply List.Forall₂.cons ⟨1, rfl⟩
      apply List.forall₂_same.mpr
      exact fun t _ => ⟨0, rfl⟩
    · exact .cons ⟨1, rfl⟩ ih

theorem mem_findFileTracker {f n : ℕ} {l : List FileTracker} {t' : FileTracker}
    (h : t' ∈ (findFileTracker f n l).2) : ∃ t ∈ l, ∃ k, t' = { t with refs := t.refs + k } := by
  have hrel := findFileTracker_visited f n l
  generalize (findFileTracker f n l).2 = l' at h hrel
  induction hrel with
  | nil => cases h
  | cons hab _ ih =>
    obtain rfl | h := List.mem_cons.mp h
    · exact ⟨_, List.mem_cons_self, hab⟩
    · obtain ⟨t, ht, hk⟩ := ih h
      exact ⟨t, List.mem_cons_of_mem _ ht, hk⟩

namespace Files

def friendsGet (s : Files) (f : FriendArg) : Option FriendInfo × Files :=
  match s.friends f.code with
  | none => (none, s)
  | some fi =>
    let fi := { fi with refs := fi.refs + 1 }
    (some fi, s.putFriend f.code (some fi))

/-- The head of most callbacks: the event is dropped if the friend is unknown. The reference is not
given back by any of them. -/
def withFriend (s : Files) (f : FriendArg) (body : Files → Files) : Files :=
  match s.friendsGet f with
  | (none, s) => s
  | (some _, s) => body s

/-- `deref` of the friend that `friends_get` has found. -/
def derefFriend (s : Files) (f : FriendArg) : Files :=
  s.putFriend f.code ((s.friends f.code).map (fun fi => { fi with refs := fi.refs - 1 }))

/-- The reference of the table on a friend is given up: with the last one the friend is freed. -/
def dropFriend (s : Files) (c : FriendCode) : Files :=
  match s.friends c with
  | none => s
  | some fi =>
    let s := s.putFriend c none
    if fi.refs = 1 then s
    else { s with lostFriends := { fi with refs := fi.refs - 1 } :: s.lostFriends }

def find (s : Files) (l : FileList) (f n : ℕ) : Option ℕ × Files :=
  let (i, trackers) := findFileTracker f n (s.list l)
  (i, s.setList l trackers)

/-- `find_file_sender` or `find_file_receiver`, by the number. -/
def findByNumber (s : Files) (f n : ℕ) : Option ℕ × Files :=
  s.find (if isSender n then .senders else .receivers) f n

/-- `remove_file_sender` and `remove_file_receiver`. Without a tracker `list_remove_entry` is given
no entry, and refuses it where it has no assertion. -/
def remove (s : Files) (l : FileList) : Option ℕ → Files
  | none => s
  | some i =>
    match (s.list l)[i]? with
    | none => s
    | some t =>
      let s := s.setList l ((s.list l).eraseIdx i)
      if t.refs = 1 then s
      else { s with lostTrackers := { t with refs := t.refs - 1 } :: s.lostTrackers }

def findThenRemove (s : Files) (l : FileList) (f n : ℕ) : Files :=
  let (i, s) := s.find l f n
  s.remove l i

/-- The part that both sides share: the tracker goes to the end of its list. -/
def add (s : Files) (l : FileList) (t : FileTracker) : Files :=
  { s.setList l (s.list l ++ [t]) with nextAddr := s.nextAddr + 1 }

theorem list_add (s : Files) (l : FileList) (t : FileTracker) (l' : FileList) :
    (s.add l t).list l' = if l' = l then s.list l ++ [t] else s.list l' := by
  cases l <;> cases l' <;> rfl

/-- `unlink` of the file of a receiver, if there is one. -/
def unlinkFile (s : Files) (i : Option ℕ) : Files :=
  match i.bind (s.receivers[·]?) with
  | none => s
  | some t => s.act (.unlinked t.addr (getFullpath t))

/-- The tail of a cancellation, by the peer or by the user. -/
def cancel (s : Files) (f n : ℕ) : Files :=
  if isSender n then s.findThenRemove .senders f n
  else
    let (i, s) := s.find .receivers f n
    (s.unlinkFile i).remove .receivers i

def notifyFriendConnectionCb (s : Files) (f : FriendArg) (connected : Bool) : Files :=
  match s.friendsGet f with
  | (none, s) => s
  | (some fi, s) =>
    let status := if connected then .connected else .disconnected
    let s := s.putFriend f.code (some { fi with status := status })
    s.derefFriend f

def notifyFriendStatusCb (s : Files) (f : FriendArg) (status : ℤ) : Files :=
  match s.friendsGet f with
  | (none, s) => s
  | (some fi, s) =>
    if status < 0 ∨ 2 < status then s
    else
      let s := s.putFriend f.code (some { fi with presence := status.toNat })
      s.derefFriend f

def notifyFileRequestCb (s : Files) (f : FriendArg) (n : ℕ) (filename : Bytes) (alloc : Bool) : Files :=
  s.withFriend f fun s =>
    if alloc then s.add .receivers (newReceiver s.nextAddr f.number n filename) else s

def notifyFileAcceptedCb (s : Files) (f : FriendArg) (n : ℕ) : Files :=
  s.withFriend f fun s => (s.find .senders f.number n).2

def notifyFileRejectedCb (s : Files) (f : FriendArg) (n : ℕ) : Files :=
  s.withFriend f fun s => s.findThenRemove .senders f.number n

/-- `notify_file_paused_cb` and `notify_file_resumed_cb` -/
def notifyFilePausedCb (s : Files) (f : FriendArg) (n : ℕ) : Files :=
  s.withFriend f fun s => (s.findByNumber f.number n).2

def notifyFileCanceledCb (s : Files) (f : FriendArg) (n : ℕ) : Files :=
  s.withFriend f fun s => s.cancel f.number n

/-- `notify_file_chunk_request_cb`, given whether the file can be opened. -/
def notifyFileChunkRequestCb (s : Files) (f : FriendArg) (n length : ℕ) (opens : Bool) : Files :=
  s.withFriend f fun s =>
    let (i, s) := s.find .senders f.number n
    if length = 0 then s.remove .senders i
    else
      match i.bind (s.senders[·]?) with
      | none => s
      | some t => if opens then s.act (.served f.number n (getFullpath t)) else s

def notifyFileChunkReceiveCb (s : Files) (f : FriendArg) (n length : ℕ) : Files :=
  s.withFriend f fun s =>
    if length = 0 then s.findThenRemove .receivers f.number n else (s.find .receivers f.number n).2

inductive FileControl where
  | pause
  | resume
  | cancel
  deriving DecidableEq

/-- `notify_file_control_cb` of `dht/dht.c`; `behind` is on the stack of the second callback. -/
def notifyFileControlCb (s : Files) (f : FriendArg) (behind : Bytes) (n : ℕ) : FileControl → Files
  | .pause => s.notifyFilePausedCb f n
  | .resume => (s.notifyFilePausedCb f n).notifyFileAcceptedCb (f.again behind) n
  | .cancel => (s.notifyFileCanceledCb f n).notifyFileRejectedCb (f.again behind) n

/-- `IOEX_send_file_request`, given the number `toxcore` returns, if it takes the request. -/
def sendFileRequest (s : Files) (f : ℕ) (fullpath : Bytes) (number : Option ℕ) (alloc : Bool) :
    Files :=
  match number with
  | none => s
  | some n =>
    let s := s.act (.requested f n fullpath)
    if alloc then s.add .senders (newSender s.nextAddr f n fullpath) else s

/-- `IOEX_send_file_accept`, given whether the path can be opened and whether the control can be
sent. -/
def sendFileAccept (s : Files) (f n : ℕ) (filename filepath : Bytes) (writable sent : Bool) : Files :=
  if !writable then s
  else
    let (i, s) := s.find .receivers f n
    match i.bind (fun i => (s.receivers[i]?).map (i, ·)) with
    | none => s
    | some (i, t) =>
      let t := updateFileReceiverPath t filename filepath
      { s with receivers := s.receivers.set i t }.act (.updated t.addr filename filepath sent)

def sendFileReject (s : Files) (f n : ℕ) : Files := s.findThenRemove .receivers f n

/-- `IOEX_add_friend` and `IOEX_accept_friend`, with the number from `toxcore`: a friend that the table
finds under the new key is replaced. -/
def addFriend (s : Files) (f : ℕ) (userid : Bytes) : Files :=
  let fi : FriendInfo := ⟨f, userid, .disconnected, 0, 1⟩
  (s.dropFriend fi.arg.code).putFriend fi.arg.code (some fi)

/-- `IOEX_remove_friend`; `behind` is on the stack of `friends_remove`. -/
def removeFriend (s : Files) (f : FriendArg) (behind : Bytes) : Files :=
  match s.friends f.code with
  | none => s
  | some _ => s.dropFriend (f.again behind).code

/-- The calls name a friend that `toxcore` has a number for; others return an error at once. The
calls that only look up a tracker and send a control are those of seeking, pausing and resuming. -/
inductive Event where
  | addFriend (f : ℕ) (userid : Bytes)
  | removeFriend (f : FriendArg) (behind : Bytes)
  | friendConnection (f : FriendArg) (connected : Bool)
  | friendStatus (f : FriendArg) (status : ℤ)
  | fileRequest (f : FriendArg) (n : ℕ) (filename : Bytes) (alloc : Bool)
  | fileControl (f : FriendArg) (behind : Bytes) (n : ℕ) (control : FileControl)
  | chunkRequest (f : FriendArg) (n length : ℕ) (opens : Bool)
  | chunkReceive (f : FriendArg) (n length : ℕ)
  | sendFileRequest (f : ℕ) (fullpath : Bytes) (number : Option ℕ) (alloc : Bool)
  | sendFileSeek (f n : ℕ)
  | sendFileAccept (f n : ℕ) (filename filepath : Bytes) (writable sent : Bool)
  | sendFileReject (f n : ℕ)
  | sendFilePause (f n : ℕ)
  | sendFileCancel (f n : ℕ)
  deriving DecidableEq

def handle (s : Files) : Event → Files
  | .addFriend f userid => s.addFriend f userid
  | .removeFriend f behind => s.removeFriend f behind
  | .friendConnection f connected => s.notifyFriendConnectionCb f connected
  | .friendStatus f status => s.notifyFriendStatusCb f status
  | .fileRequest f n filename alloc => s.notifyFileRequestCb f n filename alloc
  | .fileControl f behind n control => s.notifyFileControlCb f behind n control
  | .chunkRequest f n length opens => s.notifyFileChunkRequestCb f n length opens
  | .chunkReceive f n length => s.notifyFileChunkReceiveCb f n length
  | .sendFileRequest f fullpath number alloc => s.sendFileRequest f fullpath number alloc
  | .sendFileSeek f n => (s.find .receivers f n).2
  | .sendFileAccept f n filename filepath writable sent =>
    s.sendFileAccept f n filename filepath writable sent
  | .sendFileReject f n => s.sendFileReject f n
  | .sendFilePause f n => (s.findByNumber f n).2
  | .sendFileCancel f n => s.cancel f n

def Missing (s : Files) (f n : ℕ) : Prop :=
  (s.findByNumber f n).1 = none

/-- What an event needs in order to come to its end: `add_new_file_sender` copies no directory past its
array, `friends_remove` finds the friend that `friends_exist` has found, and in a build with assertions
a cancellation has a tracker to remove. -/
def Completes (asserts : Bool) (s : Files) : Event → Prop
  | .sendFileRequest _ fullpath (some _) true => (dirPart fullpath).length ≤ maxFileNameLen
  | .removeFriend f behind => s.friends f.code ≠ none → s.friends (f.again behind).code ≠ none
  | .fileControl f _ n .cancel => asserts → s.friends f.code ≠ none → ¬s.Missing f.number n
  | .sendFileCancel f n => asserts → ¬s.Missing f n
  | _ => True

instance (s : Files) (f n : ℕ) : Decidable (s.Missing f n) := inferInstanceAs (Decidable (_ = none))

instance Completes.decidable (asserts : Bool) (s : Files) : ∀ ev, Decidable (s.Completes asserts ev)
  | .sendFileRequest _ _ (some _) true => inferInstanceAs (Decidable (_ ≤ _))
  | .removeFriend _ _ => inferInstanceAs (Decidable (_ → _))
  | .fileControl _ _ _ .cancel | .sendFileCancel _ _ => inferInstanceAs (Decidable (_ → _))
  | .sendFileRequest _ _ none _ | .sendFileRequest _ _ (some _) false | .fileControl _ _ _ .pause
  | .fileControl _ _ _ .resume | .addFriend _ _ | .friendConnection _ _ | .friendStatus _ _
  | .fileRequest _ _ _ _ | .chunkRequest _ _ _ _ | .chunkReceive _ _ _ | .sendFileSeek _ _
  | .sendFileAccept _ _ _ _ _ _ | .sendFileReject _ _ | .sendFilePause _ _ =>
    inferInstanceAs (Decidable True)

def step (asserts : Bool) (s : Files) (ev : Event) : Option Files :=
  if s.Completes asserts ev then some (s.handle ev) else none

theorem step_eq_some {asserts : Bool} {s s' : Files} {ev : Event} :
    s.step asserts ev = some s' ↔ s.Completes asserts ev ∧ s.handle ev = s' := by
  unfold step
  split_ifs with h <;> simp [h]

end Files

end Carrier.Core
