import Carrier.Common.HashtableRefinement
import Carrier.Core.RemoteStrings

/-! Invites of friends that are answered, in `carrier/IOEX_carrier.c`, and the table of
`carrier/thistory.h`, in which they wait for the answers. `none` is a write behind an array. -/
namespace Carrier.Core
open Carrier.Lib Carrier.Common

def hidCompare (key1 key2 : Bytes) : ℤ :=
  if key2.length < key1.length then 1
  else if key1.length < key2.length then -1
  else strcmp key1 key2

def hidOps : HashOps Bytes := ⟨defaultHashCode, hidCompare⟩

structure HistoryItem where
  key : Bytes
  tid : BitVec 64
  deriving DecidableEq

/-- The history with its items, which are addressed in the order in which they were allocated. -/
structure InviteHistory where
  thistory : Hashtable Bytes ℕ ℕ
  items : List HistoryItem

/-- `sprintf(key, "ir_%s", userid)` -/
def sprintKey (userid : Bytes) : Option Bytes :=
  if (historyKey userid).length < historyKeySize then some (historyKey userid) else none

namespace InviteHistory

def create (mem : Hashtable Bytes ℕ ℕ) : InviteHistory := ⟨hashtableCreate 32 mem, []⟩

def putInvite (w : InviteHistory) (userid : Bytes) (tid : BitVec 64) : Option InviteHistory :=
  (sprintKey userid).bind fun key =>
    let item := w.items.length
    (hashtablePut hidOps (w.thistory.rcAlloc item) item key item).map fun (t, _) =>
      ⟨t.deref item, w.items ++ [⟨key, tid⟩]⟩

def getInvite (w : InviteHistory) (userid : Bytes) : Option (InviteHistory × BitVec 64) :=
  (sprintKey userid).bind fun key =>
    (hashtableGet hidOps w.thistory key).bind fun (t, item) =>
      match item with
      | none => some ({ w with thistory := t }, 0)
      | some item => w.items[item]?.map fun i => ({ w with thistory := t.deref item }, i.tid)

def removeInvite (w : InviteHistory) (userid : Bytes) : Option InviteHistory :=
  (sprintKey userid).bind fun key =>
    (hashtableRemove hidOps w.thistory key).map fun (t, item) =>
      { w with thistory := item.elim t t.deref }

end InviteHistory

/-- The friends: their ids by their numbers, and `dht_get_friend_number`. -/
structure FriendBook where
  userid : ℕ → Option Bytes
  dht : Bytes → Option ℕ

/-- The address of a friend, or of an extension of the friend. -/
def inviteAddress (userid : Bytes) (ext : Option Bytes) : Bytes :=
  ext.elim userid (userid ++ colon :: ·)

/-- `handle_invite_request`, up to the callbacks -/
def handleInviteRequest (book : FriendBook) (w : InviteHistory) (friendNumber : ℕ) (cp : IOEXCP) :
    Option InviteHistory :=
  match book.userid friendNumber with
  | none => some w
  | some friendid =>
    let from_ := inviteAddress friendid cp.getExtension
    if maxIdLen < friendid.length ∨ historyKeySize ≤ from_.length then none
    else w.putInvite from_ (cp.getTid.getD 0)

/-- A call of `IOEX_reply_friend_invite`: its arguments, and what the rest of the carrier answers to
it. -/
structure InviteReply where
  addr : Option Bytes
  status : BitVec 32
  reason : Option Bytes
  data : Option Bytes
  isReady : Bool
  encoded : Bool
  dhtRc : ℤ
  deriving DecidableEq

namespace InviteReply

/-- The checks in front of the history: the address, the extension in it and the friend number. -/
def check (book : FriendBook) (call : InviteReply) : Except ErrorCode (Bytes × Option Bytes × ℕ) :=
  match call.addr with
  | none => .error .invalidArgs
  | some addr =>
    if addr = [] ∨ (call.status ≠ 0 ∧ call.reason = none) ∨
      (call.status = 0 ∧ call.data.getD [] = []) then .error .invalidArgs
    else if !isValidKey (parseAddress addr).1 then .error .invalidArgs
    else if maxUserNameLen < ((parseAddress addr).2.getD []).length then .error .invalidArgs
    else if !call.isReady then .error .notReady
    else
      match getFriendNumber book.dht (parseAddress addr).1 with
      | .error _ => .error .invalidArgs
      | .ok friendNumber =>
        if (book.userid friendNumber).isNone then .error .notExist
        else .ok (addr, (parseAddress addr).2, friendNumber)

def message (call : InviteReply) (ext : Option Bytes) (tid : BitVec 64) : Message :=
  .inviteResponse ext tid call.status (call.reason.getD []) (call.data.getD [])

end InviteReply

/-- What a call returns: an error, or nothing when the answer is sent to the friend. -/
abbrev ReplyOutcome := Except ℤ (ℕ × Message)

/-- `IOEX_reply_friend_invite`, with the error it sets -/
def replyFriendInvite (book : FriendBook) (w : InviteHistory) (call : InviteReply) :
    Option (InviteHistory × ReplyOutcome) :=
  match call.check book with
  | .error e => some (w, .error (intError e))
  | .ok (addr, ext, friendNumber) =>
    (w.getInvite addr).bind fun (w, tid) =>
      if tid = 0 then some (w, .error (intError .noMatchedRequest))
      else if !call.encoded then some (w, .error (intError .outOfMemory))
      else if call.dhtRc < 0 then some (w, .error call.dhtRc)
      else (w.removeInvite addr).map (·, .ok (friendNumber, call.message ext tid))

inductive InviteAct where
  | request (friendNumber : ℕ) (cp : IOEXCP)
  | reply (call : InviteReply)

/-- The history of a carrier, with what the replies have returned so far. -/
structure Replier where
  history : InviteHistory
  outcomes : List ReplyOutcome

def Replier.step (book : FriendBook) (w : Replier) : InviteAct → Option Replier
  | .request friendNumber cp =>
    (handleInviteRequest book w.history friendNumber cp).map fun history => { w with history := history }
  | .reply call =>
    (replyFriendInvite book w.history call).map fun (history, outcome) =>
      ⟨history, w.outcomes ++ [outcome]⟩

/-- What the history is for: the invites of every friend and extension that have not been answered,
each with the id of its latest request. -/
structure OpenInvites where
  tid : ℕ → Option Bytes → Option (BitVec 64)
  outcomes : List ReplyOutcome

namespace OpenInvites

def empty : OpenInvites := ⟨fun _ _ => none, []⟩

def set (o : OpenInvites) (friendNumber : ℕ) (ext : Option Bytes) (tid : Option (BitVec 64)) :
    OpenInvites :=
  { o with tid := Function.update o.tid friendNumber (Function.update (o.tid friendNumber) ext tid) }

def returns (o : OpenInvites) (outcome : ReplyOutcome) : OpenInvites :=
  { o with outcomes := o.outcomes ++ [outcome] }

/-- A reply answers the latest request, and only a reply that is sent closes the invite. -/
def act (book : FriendBook) (o : OpenInvites) : InviteAct → OpenInvites
  | .request friendNumber cp =>
    if (book.userid friendNumber).isSome then o.set friendNumber cp.getExtension cp.getTid else o
  | .reply call =>
    match call.check book with
    | .error e => o.returns (.error (intError e))
    | .ok (_, ext, friendNumber) =>
      match o.tid friendNumber ext with
      | none => o.returns (.error (intError .noMatchedRequest))
      | some tid =>
        if !call.encoded then o.returns (.error (intError .outOfMemory))
        else if call.dhtRc < 0 then o.returns (.error call.dhtRc)
        else (o.set friendNumber ext none).returns (.ok (friendNumber, call.message ext tid))

/-- The open invites after these messages and calls. -/
def after (book : FriendBook) (acts : List InviteAct) : OpenInvites := acts.foldl (act book) empty

end OpenInvites

section Table

/-- A C string has no zero byte. -/
theorem hidOps_same_iff {key key' : Bytes} (h : (0 : UInt8) ∉ key) (h' : (0 : UInt8) ∉ key') :
    hidOps.same key key' = true ↔ key = key' := by
  have htake : ∀ {s : Bytes}, (0 : UInt8) ∉ s → s.takeWhile (· ≠ 0) = s := by
    intro s hs
    rw [List.takeWhile_eq_self_iff]
    intro b hb
    exact decide_eq_true (fun heq => hs (heq ▸ hb))
  unfold HashOps.same
  rw [decide_eq_true_eq]
  constructor
  · rintro ⟨-, hcompare⟩
    change hidCompare key key' = 0 at hcompare
    unfold hidCompare at hcompare
    split_ifs at hcompare with hgt hlt
    · exact absurd hcompare (by norm_num)
    · rwa [strcmp_eq_zero_iff, htake h, htake h'] at hcompare
  · rintro rfl
    refine ⟨rfl, ?_⟩
    change hidCompare key key = 0
    unfold hidCompare
    rw [if_neg (lt_irrefl _), if_neg (lt_irrefl _), strcmp_eq_zero_iff]

theorem hidOps_equivalence : Equivalence (fun k k' => hidOps.same k k' = true) := by
  have hsame : ∀ k k', hidOps.same k k' = true ↔
      (defaultHashCode k, k.length, k.takeWhile (· ≠ 0)) =
        (defaultHashCode k', k'.length, k'.takeWhile (· ≠ 0)) := by
    intro k k'
    unfold HashOps.same
    rw [decide_eq_true_eq, Prod.mk.injEq, Prod.mk.injEq]
    refine and_congr_right (fun _ => ?_)
    change hidCompare k k' = 0 ↔ _
    unfold hidCompare
    rw [← strcmp_eq_zero_iff]
    split_ifs with hgt hlt
    · exact iff_of_false (by norm_num) (fun h => hgt.ne' h.1)
    · exact iff_of_false (by norm_num) (fun h => hlt.ne h.1)
    · exact (and_iff_right (by omega)).symm
  simp only [hsame]
  exact ⟨fun _ => rfl, Eq.symm, Eq.trans⟩

theorem hidOps_fits (key : Bytes) : (hidOps.hashCode key).toNat % 32 < 2 ^ 31 := by
  have := Nat.mod_lt (hidOps.hashCode key).toNat (show 32 > 0 by decide)
  omega

def hasKey (key : Bytes) (e : Entry Bytes ℕ ℕ) : Bool := e.key = key

end Table

namespace InviteHistory

/-- The table holds the entries `es`, each of an item with the key of the entry. -/
structure Stored (w : InviteHistory) (es : List (Entry Bytes ℕ ℕ)) : Prop where
  rep : Rep hidOps 32 w.thistory es
  data : ∀ e ∈ es, e.data = e.addr
  item : ∀ e ∈ es, e.addr < w.items.length
  text : ∀ e ∈ es, (0 : UInt8) ∉ e.key

def tidOf (items : List HistoryItem) (es : List (Entry Bytes ℕ ℕ)) (key : Bytes) :
    Option (BitVec 64) :=
  (es.find? (hasKey key)).bind fun e => items[e.addr]?.map HistoryItem.tid

/-- The history has the ids `m`. -/
def Records (w : InviteHistory) (m : Bytes → Option (BitVec 64)) : Prop :=
  ∃ es, w.Stored es ∧ ∀ key, tidOf w.items es key = m key

variable {w : InviteHistory} {es : List (Entry Bytes ℕ ℕ)} {m : Bytes → Option (BitVec 64)}
  {userid key : Bytes}

theorem records_create (mem : Hashtable Bytes ℕ ℕ) : Records (create mem) (fun _ => none) :=
  ⟨[], ⟨(holds_create hidOps (by decide) mem).rep, by simp, by simp, by simp⟩, fun _ => rfl⟩

theorem Stored.same_eq (h : w.Stored es) (hkey : (0 : UInt8) ∉ key) :
    ∀ e ∈ es, hidOps.same e.key key = hasKey key e := by
  intro e he
  rw [Bool.eq_iff_iff, hidOps_same_iff (h.text e he) hkey, hasKey, decide_eq_true_eq]

theorem hasKey_disjoint {key key' : Bytes} (hne : key' ≠ key) (es : List (Entry Bytes ℕ ℕ)) :
    ∀ e ∈ es, hasKey key e = true → hasKey key' e = false := by
  intro e _ he
  rw [hasKey, decide_eq_true_eq] at he
  rw [hasKey, decide_eq_false_iff_not, he]
  exact hne.symm

theorem sprintKey_eq (h : userid.length ≤ maxIdLen + maxExtensionNameLen) :
    sprintKey userid = some (historyKey userid) := by
  unfold sprintKey
  rw [if_pos]
  rw [Contacts.length_historyKey, historyKeySize]
  omega

theorem historyKey_text (h : (0 : UInt8) ∉ userid) : (0 : UInt8) ∉ historyKey userid := by
  unfold historyKey
  rw [List.mem_append, not_or]
  exact ⟨by decide, h⟩

theorem Records.put (h : w.Records m) (hlength : userid.length ≤ maxIdLen + maxExtensionNameLen)
    (htext : (0 : UInt8) ∉ userid) (tid : BitVec 64) :
    ∃ w', w.putInvite userid tid = some w' ∧
      w'.Records (Function.update m (historyKey userid) (some tid)) := by
  obtain ⟨es, hstored, hm⟩ := h
  have hkey := historyKey_text htext
  have hrep : Rep hidOps 32 (w.thistory.rcAlloc w.items.length) es := hstored.rep.counters _ _
  have hown : ∀ e ∈ es, e.addr = w.items.length →
      e = ⟨w.items.length, historyKey userid, w.items.length⟩ :=
    fun e he haddr => absurd haddr (hstored.item e he).ne
  obtain ⟨t, hput, hholds, -⟩ :=
    hrep.holds.put hidOps_equivalence (hidOps_fits (historyKey userid)) hown
  rw [putEntry_congr (hstored.same_eq hkey)] at hholds
  refine ⟨⟨t.deref w.items.length, w.items ++ [⟨historyKey userid, tid⟩]⟩, ?_, _,
    ⟨hholds.rep.counters _ _, ?_, ?_, ?_⟩, fun key => ?_⟩
  · rw [putInvite, sprintKey_eq hlength, Option.bind_some]
    dsimp only
    rw [hput, Option.map_some]
  · intro e he
    rcases mem_of_mem_putEntry he with rfl | he
    · rfl
    · exact hstored.data e he
  · intro e he
    rw [List.length_append, List.length_singleton]
    rcases mem_of_mem_putEntry he with rfl | he
    · exact Nat.lt_succ_self _
    · exact (hstored.item e he).trans (Nat.lt_succ_self _)
  · intro e he
    rcases mem_of_mem_putEntry he with rfl | he
    · exact hkey
    · exact hstored.text e he
  · unfold tidOf
    by_cases hne : key = historyKey userid
    · subst hne
      have hself : hasKey (historyKey userid)
          ⟨w.items.length, historyKey userid, w.items.length⟩ = true := decide_eq_true rfl
      rw [find?_putEntry_self hself, Function.update_self, Option.bind_some,
        List.getElem?_concat_length]
      rfl
    · have hnew : hasKey key ⟨w.items.length, historyKey userid, w.items.length⟩ = false :=
        decide_eq_false (Ne.symm hne)
      rw [find?_putEntry_of_ne (hasKey_disjoint hne es) hnew, Function.update_of_ne hne, ← hm key, tidOf]
      cases hfind : es.find? (hasKey key) with
      | none => rfl
      | some e =>
        rw [Option.bind_some, Option.bind_some,
          List.getElem?_append_left (hstored.item e (List.mem_of_find?_eq_some hfind))]

theorem Records.get (h : w.Records m) (hlength : userid.length ≤ maxIdLen + maxExtensionNameLen)
    (htext : (0 : UInt8) ∉ userid) :
    ∃ w', w.getInvite userid = some (w', (m (historyKey userid)).getD 0) ∧ w'.Records m := by
  obtain ⟨es, hstored, hm⟩ := h
  have hkey := historyKey_text htext
  obtain ⟨t, hget, hholds⟩ :=
    hstored.rep.holds.get hidOps_equivalence (hidOps_fits (historyKey userid))
  have hrecords : ∀ nrefs : ℕ → ℤ, Records ⟨{ t with nrefs := nrefs }, w.items⟩ m := fun nrefs =>
    ⟨es, ⟨hholds.rep.counters _ _, hstored.data, hstored.item, hstored.text⟩, hm⟩
  rw [find?_congr_hit (hstored.same_eq hkey)] at hget
  rw [getInvite, sprintKey_eq hlength, Option.bind_some, hget, Option.bind_some, ← hm, tidOf]
  cases hfind : es.find? (hasKey (historyKey userid)) with
  | none => exact ⟨_, rfl, hrecords t.nrefs⟩
  | some e =>
    have he := List.mem_of_find?_eq_some hfind
    have hi := List.getElem?_eq_getElem (hstored.item e he)
    refine ⟨{ w with thistory := t.deref e.addr }, ?_, hrecords _⟩
    rw [Option.map_some, hstored.data e he, Option.bind_some]
    dsimp only
    rw [hi]
    rfl

theorem Records.remove (h : w.Records m) (hlength : userid.length ≤ maxIdLen + maxExtensionNameLen)
    (htext : (0 : UInt8) ∉ userid) :
    ∃ w', w.removeInvite userid = some w' ∧
      w'.Records (Function.update m (historyKey userid) none) := by
  obtain ⟨es, hstored, hm⟩ := h
  have hkey := historyKey_text htext
  obtain ⟨t, hremove, hholds, -⟩ :=
    hstored.rep.holds.remove hidOps_equivalence (hidOps_fits (historyKey userid))
  rw [find?_congr_hit (hstored.same_eq hkey)] at hremove
  rw [removeEntry_congr (hstored.same_eq hkey)] at hholds
  have hrecords : ∀ nrefs : ℕ → ℤ, Records ⟨{ t with nrefs := nrefs }, w.items⟩
      (Function.update m (historyKey userid) none) := by
    intro nrefs
    refine ⟨_, ⟨hholds.rep.counters _ _, ?_, ?_, ?_⟩, fun key => ?_⟩
    · exact fun e he => hstored.data e (mem_of_mem_removeEntry he)
    · exact fun e he => hstored.item e (mem_of_mem_removeEntry he)
    · exact fun e he => hstored.text e (mem_of_mem_removeEntry he)
    · unfold tidOf
      by_cases hne : key = historyKey userid
      · subst hne
        rw [find?_removeEntry_self, Function.update_self]
        rfl
      · rw [find?_removeEntry_of_ne (hasKey_disjoint hne es), Function.update_of_ne hne, ← hm key,
          tidOf]
  rw [removeInvite, sprintKey_eq hlength, Option.bind_some, hremove, Option.map_some]
  cases (es.find? (hasKey (historyKey userid))).map Entry.data with
  | none => exact ⟨_, rfl, hrecords t.nrefs⟩
  | some item => exact ⟨_, rfl, hrecords _⟩

end InviteHistory

section Addresses

variable {book : FriendBook} {userid addr key s : Bytes} {ext : Option Bytes} {n : ℕ}

theorem parseAddress_eq (addr : Bytes) :
    inviteAddress (parseAddress addr).1 (parseAddress addr).2 = addr := by
  have hsplit := List.takeWhile_append_dropWhile (p := (· ≠ colon)) (l := addr)
  unfold parseAddress
  cases hdrop : addr.dropWhile (· ≠ colon) with
  | nil => rfl
  | cons c ext =>
    have hc : c = colon := by
      have hhead := List.head?_dropWhile_not (· ≠ colon) addr
      rw [hdrop] at hhead
      simpa using hhead
    rw [hdrop, hc] at hsplit
    exact hsplit

theorem parseAddress_inviteAddress (h : colon ∉ userid) (ext : Option Bytes) :
    parseAddress (inviteAddress userid ext) = (userid, ext) := by
  have hall : ∀ b ∈ userid, decide (b ≠ colon) = true :=
    fun b hb => decide_eq_true (fun heq => h (heq ▸ hb))
  unfold parseAddress inviteAddress
  cases ext with
  | none => rw [Option.elim_none, List.dropWhile_eq_nil_iff.mpr hall]
  | some name =>
    rw [Option.elim_some, List.dropWhile_append_of_pos hall, List.takeWhile_append_of_pos hall,
      List.dropWhile_cons_of_neg (by simp), List.takeWhile_cons_of_neg (by simp), List.append_nil]

theorem historyKey_inj {s s' : Bytes} (h : historyKey s = historyKey s') : s = s' :=
  List.append_cancel_left h

/-- The texts of base58 have neither a colon nor a zero byte. -/
theorem base58Text_chars (data : Bytes) : ∀ b ∈ base58Text data, b ≠ colon ∧ b ≠ 0 := by
  have hdigit : ∀ d < 58, digitChar d ≠ colon ∧ digitChar d ≠ 0 := by decide
  intro b hb
  rcases List.mem_append.mp hb with hb | hb
  · rw [List.eq_of_mem_replicate hb]
    decide
  · obtain ⟨d, hd, rfl⟩ := List.mem_map.mp hb
    exact hdigit d (Nat.digits_lt_base (by norm_num) (List.mem_reverse.mp hd))

/-- A text that decodes to a public key is the one of the key, unless it is enormous. -/
theorem friendKey_text (hlength : s.length < 2 ^ 32)
    (h : friendKey s = some (key, dhtPublicKeySize)) : s = base58Text key ∧ s.length ≤ 44 := by
  have hone : OneSpelling s :=
    (oneSpelling_iff s).mpr (.inr ((List.takeWhile_sublist _).length_le.trans_lt hlength))
  have hbytes := base58Encode_eq_self_iff.mp (hone.spelled key dhtPublicKeySize h)
  exact ⟨(base58Text_base58Bytes hbytes).symm, hone.keyLength (hone.key.mpr ⟨key, h⟩)⟩

/-- The id of a friend is a text of the key that `toxcore` has for the number. -/
def FriendBook.Consistent (book : FriendBook) : Prop :=
  ∀ n userid, book.userid n = some userid → userid.length ≤ maxIdLen ∧
    ∃ key, friendKey userid = some (key, dhtPublicKeySize) ∧ ∀ key', book.dht key' = some n ↔ key' = key

theorem FriendBook.Consistent.text (hbook : book.Consistent) (hn : book.userid n = some userid) :
    userid.length ≤ 44 ∧ colon ∉ userid ∧ (0 : UInt8) ∉ userid ∧
      ∀ key, book.dht key = some n → userid = base58Text key := by
  obtain ⟨hlength, key, hkey, hdht⟩ := hbook n userid hn
  have hsmall : userid.length < 2 ^ 32 := hlength.trans_lt (by decide)
  obtain ⟨htext, hshort⟩ := friendKey_text hsmall hkey
  have hchars := base58Text_chars key
  rw [← htext] at hchars
  refine ⟨hshort, fun hmem => (hchars _ hmem).1 rfl, fun hmem => (hchars _ hmem).2 rfl, ?_⟩
  intro key' hkey'
  rw [(hdht key').mp hkey']
  exact htext

theorem FriendBook.Consistent.unique (hbook : book.Consistent) {n' : ℕ}
    (hn : book.userid n = some userid) (hn' : book.userid n' = some userid) : n = n' := by
  obtain ⟨-, key, hkey, hdht⟩ := hbook n userid hn
  obtain ⟨-, key', hkey', hdht'⟩ := hbook n' userid hn'
  obtain ⟨rfl, -⟩ := Prod.mk.inj (Option.some.inj (hkey.symm.trans hkey'))
  exact Option.some.inj (((hdht key).mpr rfl).symm.trans ((hdht' key).mpr rfl))

theorem getFriendNumber_ok {dht : Bytes → Option ℕ} (h : getFriendNumber dht s = .ok n) :
    ∃ key, friendKey s = some (key, dhtPublicKeySize) ∧ dht key = some n := by
  unfold getFriendNumber at h
  cases hkey : friendKey s with
  | none => rw [hkey] at h; cases h
  | some result =>
    obtain ⟨key, len⟩ := result
    rw [hkey] at h
    dsimp only at h
    split_ifs at h with hlen
    rw [not_not] at hlen
    subst hlen
    cases hdht : dht key with
    | none => rw [hdht] at h; cases h
    | some n' =>
      rw [hdht] at h
      cases h
      exact ⟨key, rfl, hdht⟩

namespace InviteReply

variable {call : InviteReply}

theorem check_ok (h : call.check book = .ok (addr, ext, n)) : call.addr = some addr ∧
    (parseAddress addr).2 = ext ∧ getFriendNumber book.dht (parseAddress addr).1 = .ok n ∧
    ∃ userid, book.userid n = some userid := by
  unfold check at h
  cases haddr : call.addr with
  | none => rw [haddr] at h; cases h
  | some addr' =>
    rw [haddr] at h
    dsimp only at h
    split_ifs at h
    cases hnumber : getFriendNumber book.dht (parseAddress addr').1 with
    | error e => rw [hnumber] at h; cases h
    | ok n' =>
      rw [hnumber] at h
      dsimp only at h
      split_ifs at h with hnone
      cases h
      rw [Option.isNone_iff_eq_none, ← ne_eq, Option.ne_none_iff_exists'] at hnone
      exact ⟨rfl, rfl, hnumber, hnone⟩

/-- An address that passes the checks is that of the friend, as the requests have it. -/
theorem check_address (hbook : book.Consistent) (h : call.check book = .ok (addr, ext, n))
    (hlength : addr.length ≤ maxIdLen + maxExtensionNameLen) :
    ∃ userid, book.userid n = some userid ∧ addr = inviteAddress userid ext := by
  obtain ⟨-, hext, hnumber, userid, huserid⟩ := check_ok h
  obtain ⟨key, hkey, hdht⟩ := getFriendNumber_ok hnumber
  have hparse := parseAddress_eq addr
  have hle : (parseAddress addr).1.length ≤ addr.length := by
    conv_rhs => rw [← hparse]
    unfold inviteAddress
    cases (parseAddress addr).2 with
    | none => exact le_rfl
    | some name =>
      rw [Option.elim_some, List.length_append]
      exact Nat.le_add_right _ _
  have hsmall : (parseAddress addr).1.length < 2 ^ 32 := (hle.trans hlength).trans_lt (by decide)
  obtain ⟨htext, -⟩ := friendKey_text hsmall hkey
  refine ⟨userid, huserid, ?_⟩
  rw [(hbook.text huserid).2.2.2 key hdht, ← htext, ← hext, hparse]

end InviteReply

end Addresses

/-- A request with an extension name of the length that the keys are made for, and with an id that
is not zero; names and addresses are C strings. -/
def InviteAct.InDomain : InviteAct → Prop
  | .request _ cp => (∃ tid, cp.getTid = some tid ∧ tid ≠ 0) ∧
    ∀ name ∈ cp.getExtension, name.length ≤ maxExtensionNameLen ∧ (0 : UInt8) ∉ name
  | .reply call => ∀ addr ∈ call.addr, (0 : UInt8) ∉ addr

/-- The address of a reply that comes to the history fits into a key. -/
def InviteAct.Short (book : FriendBook) : InviteAct → Prop
  | .request _ _ => True
  | .reply call => ∀ addr ext n, call.check book = .ok (addr, ext, n) →
    addr.length ≤ maxIdLen + maxExtensionNameLen

/-- The history has the open invites under the addresses of the friends and their extensions. -/
structure Refines (book : FriendBook) (w : Replier) (o : OpenInvites) : Prop where
  outcomes : w.outcomes = o.outcomes
  records : ∃ m, w.history.Records m ∧ ∀ n userid ext, book.userid n = some userid →
    m (historyKey (inviteAddress userid ext)) = o.tid n ext
  nonzero : ∀ n ext, o.tid n ext ≠ some 0

section Refinement

variable {book : FriendBook} {w : Replier} {o : OpenInvites} {act : InviteAct} {n : ℕ}
  {userid : Bytes} {ext : Option Bytes}

theorem inviteAddress_inj {u u' : Bytes} {ext' : Option Bytes} (hu : colon ∉ u) (hu' : colon ∉ u')
    (h : inviteAddress u ext = inviteAddress u' ext') : u = u' ∧ ext = ext' := by
  have hparse := congrArg parseAddress h
  rw [parseAddress_inviteAddress hu, parseAddress_inviteAddress hu'] at hparse
  exact Prod.mk.inj hparse

theorem inviteAddress_text (hu : (0 : UInt8) ∉ userid) (hext : ∀ name ∈ ext, (0 : UInt8) ∉ name) :
    (0 : UInt8) ∉ inviteAddress userid ext := by
  unfold inviteAddress
  cases ext with
  | none => exact hu
  | some name =>
    rw [Option.elim_some, List.mem_append, List.mem_cons, not_or, not_or]
    exact ⟨hu, by decide, hext name rfl⟩

/-- The key of a friend and an extension is that of no other friend or extension. -/
theorem records_update (hbook : book.Consistent) {m : Bytes → Option (BitVec 64)}
    (hm : ∀ n userid ext, book.userid n = some userid →
      m (historyKey (inviteAddress userid ext)) = o.tid n ext)
    (hn : book.userid n = some userid) (tid : Option (BitVec 64)) :
    ∀ n' userid' ext', book.userid n' = some userid' →
      Function.update m (historyKey (inviteAddress userid ext)) tid
        (historyKey (inviteAddress userid' ext')) = (o.set n ext tid).tid n' ext' := by
  intro n' userid' ext' hn'
  change _ = Function.update o.tid n (Function.update (o.tid n) ext tid) n' ext'
  by_cases hkey : historyKey (inviteAddress userid' ext') = historyKey (inviteAddress userid ext)
  · obtain ⟨rfl, rfl⟩ := inviteAddress_inj (hbook.text hn').2.1 (hbook.text hn).2.1
      (historyKey_inj hkey)
    have hsame := hbook.unique hn hn'
    subst hsame
    rw [Function.update_self, Function.update_self, Function.update_self]
  · rw [Function.update_of_ne hkey, hm n' userid' ext' hn']
    by_cases hnn : n' = n
    · subst hnn
      have hid : userid = userid' := Option.some.inj (hn.symm.trans hn')
      have hext : ext' ≠ ext := fun heq => hkey (by rw [heq, hid])
      rw [Function.update_self, Function.update_of_ne hext]
    · rw [Function.update_of_ne hnn]

theorem set_nonzero (h : ∀ n ext, o.tid n ext ≠ some 0) {tid : Option (BitVec 64)}
    (htid : tid ≠ some 0) (n : ℕ) (ext : Option Bytes) :
    ∀ n' ext', (o.set n ext tid).tid n' ext' ≠ some 0 := by
  intro n' ext'
  change Function.update o.tid n (Function.update (o.tid n) ext tid) n' ext' ≠ some 0
  by_cases hnn : n' = n
  · subst hnn
    rw [Function.update_self]
    by_cases hext : ext' = ext
    · rw [hext, Function.update_self]
      exact htid
    · rw [Function.update_of_ne hext]
      exact h n' ext'
  · rw [Function.update_of_ne hnn]
    exact h n' ext'

theorem inviteAddress_length (hu : userid.length ≤ 44)
    (hext : ∀ name ∈ ext, name.length ≤ maxExtensionNameLen) :
    (inviteAddress userid ext).length ≤ maxIdLen + maxExtensionNameLen := by
  unfold inviteAddress
  cases ext with
  | none => exact hu.trans (by decide)
  | some name =>
    have := hext name rfl
    rw [Option.elim_some, List.length_append, List.length_cons]
    unfold maxIdLen
    omega

theorem Refines.request (h : Refines book w o) (hbook : book.Consistent) {cp : IOEXCP}
    (hdomain : (InviteAct.request n cp).InDomain) :
    ∃ w', w.step book (.request n cp) = some w' ∧ Refines book w' (o.act book (.request n cp)) := by
  obtain ⟨⟨tid, htid, hne⟩, hname⟩ := hdomain
  rw [Replier.step, handleInviteRequest, OpenInvites.act]
  cases hn : book.userid n with
  | none => exact ⟨w, rfl, h⟩
  | some userid =>
    obtain ⟨hlength, -, htext, -⟩ := hbook.text hn
    obtain ⟨m, hrecords, hm⟩ := h.records
    have hfits := inviteAddress_length hlength (fun name hmem => (hname name hmem).1)
    obtain ⟨history, hput, hrecords'⟩ := hrecords.put hfits
      (inviteAddress_text htext (fun name hmem => (hname name hmem).2)) tid
    refine ⟨{ w with history := history }, ?_, h.outcomes, ⟨_, hrecords', ?_⟩, ?_⟩
    · dsimp only
      have hroom : ¬(maxIdLen < userid.length ∨
          historyKeySize ≤ (inviteAddress userid cp.getExtension).length) := by
        unfold historyKeySize
        unfold maxIdLen at *
        omega
      rw [if_neg hroom, htid, Option.getD_some, hput]
      rfl
    · rw [if_pos (Option.isSome_some), htid]
      exact records_update hbook hm hn (some tid)
    · rw [if_pos (Option.isSome_some), htid]
      exact set_nonzero h.nonzero (fun heq => hne (Option.some.inj heq)) n _

theorem Refines.reply (h : Refines book w o) (hbook : book.Consistent) {call : InviteReply}
    (hdomain : (InviteAct.reply call).InDomain) (hshort : (InviteAct.reply call).Short book) :
    ∃ w', w.step book (.reply call) = some w' ∧ Refines book w' (o.act book (.reply call)) := by
  have houtcomes : ∀ outcome, w.outcomes ++ [outcome] = (o.returns outcome).outcomes :=
    fun outcome => congrArg (· ++ [outcome]) h.outcomes
  rw [Replier.step, replyFriendInvite, OpenInvites.act]
  cases hcheck : call.check book with
  | error e => exact ⟨_, rfl, houtcomes _, h.records, h.nonzero⟩
  | ok result =>
    obtain ⟨addr, ext, n⟩ := result
    have hfits := hshort addr ext n hcheck
    have htext := hdomain addr (InviteReply.check_ok hcheck).1
    obtain ⟨userid, hn, rfl⟩ := InviteReply.check_address hbook hcheck hfits
    obtain ⟨m, hrecords, hm⟩ := h.records
    obtain ⟨history, hget, hrecords'⟩ := hrecords.get hfits htext
    have hstays : ∀ outcome, Refines book ⟨history, w.outcomes ++ [outcome]⟩ (o.returns outcome) :=
      fun outcome => ⟨houtcomes outcome, ⟨m, hrecords', hm⟩, h.nonzero⟩
    dsimp only
    rw [hget, Option.bind_some, hm n userid ext hn]
    cases htid : o.tid n ext with
    | none => exact ⟨_, rfl, hstays _⟩
    | some tid =>
      have hne : tid ≠ 0 := fun heq => h.nonzero n ext (by rw [htid, heq])
      dsimp only
      rw [Option.getD_some, if_neg hne]
      by_cases hencoded : (!call.encoded) = true
      · rw [if_pos hencoded, if_pos hencoded]
        exact ⟨_, rfl, hstays _⟩
      · rw [if_neg hencoded, if_neg hencoded]
        by_cases hrc : call.dhtRc < 0
        · rw [if_pos hrc, if_pos hrc]
          exact ⟨_, rfl, hstays _⟩
        · obtain ⟨history', hremove, hrecords''⟩ := hrecords'.remove hfits htext
          rw [if_neg hrc, if_neg hrc, hremove]
          exact ⟨_, rfl, houtcomes _, ⟨_, hrecords'', records_update hbook hm hn none⟩,
            set_nonzero h.nonzero (by simp) n ext⟩

theorem Refines.step (h : Refines book w o) (hbook : book.Consistent) (hdomain : act.InDomain)
    (hshort : act.Short book) : ∃ w', w.step book act = some w' ∧ Refines book w' (o.act book act) := by
  cases act with
  | request n cp => exact h.request hbook hdomain
  | reply call => exact h.reply hbook hdomain hshort

theorem step_eq_none (hlong : ¬act.Short book) (w : Replier) : w.step book act = none := by
  cases act with
  | request n cp => exact absurd trivial hlong
  | reply call =>
    unfold InviteAct.Short at hlong
    push Not at hlong
    obtain ⟨addr, ext, n, hcheck, hlength⟩ := hlong
    have hkey : sprintKey addr = none := by
      unfold sprintKey
      rw [if_neg]
      rw [Contacts.length_historyKey, historyKeySize]
      omega
    rw [Replier.step, replyFriendInvite, hcheck]
    dsimp only
    rw [InviteHistory.getInvite, hkey]
    rfl

theorem refines_empty (book : FriendBook) (mem : Hashtable Bytes ℕ ℕ) :
    Refines book ⟨.create mem, []⟩ .empty :=
  ⟨rfl, ⟨_, InviteHistory.records_create mem, fun _ _ _ _ => rfl⟩, fun _ _ h => by cases h⟩

theorem Refines.run (h : Refines book w o) (hbook : book.Consistent) {acts : List InviteAct}
    (hdomain : ∀ act ∈ acts, act.InDomain) (hshort : ∀ act ∈ acts, act.Short book) :
    ∃ w', exec (Replier.step book) w acts = some w' ∧
      Refines book w' (acts.foldl (OpenInvites.act book) o) := by
  induction acts generalizing w o with
  | nil => exact ⟨w, rfl, h⟩
  | cons act acts ih =>
    obtain ⟨hact, hacts⟩ := List.forall_mem_cons.mp hdomain
    obtain ⟨hfirst, hrest⟩ := List.forall_mem_cons.mp hshort
    obtain ⟨w₁, hstep, hrefines⟩ := h.step hbook hact hfirst
    obtain ⟨w', hexec, hrefines'⟩ := ih hrefines hacts hrest
    exact ⟨w', exec_cons_eq_some.mpr ⟨w₁, hstep, hexec⟩, hrefines'⟩

theorem short_of_exec {acts : List InviteAct} {w' : Replier}
    (h : exec (Replier.step book) w acts = some w') : ∀ act ∈ acts, act.Short book := by
  induction acts generalizing w with
  | nil => exact fun act hact => absurd hact List.not_mem_nil
  | cons act acts ih =>
    obtain ⟨w₁, hstep, hexec⟩ := exec_cons_eq_some.mp h
    refine List.forall_mem_cons.mpr ⟨?_, ih hexec⟩
    by_contra hlong
    cases (step_eq_none hlong w).symm.trans hstep

/-- The replies have answered the latest open invites, and the history has those that are open. -/
structure Answers (book : FriendBook) (acts : List InviteAct) (w : Replier) : Prop where
  outcomes : w.outcomes = (OpenInvites.after book acts).outcomes
  recorded : ∀ n userid ext, book.userid n = some userid →
    (∀ name ∈ ext, name.length ≤ maxExtensionNameLen ∧ (0 : UInt8) ∉ name) →
    ∃ history, w.history.getInvite (inviteAddress userid ext) =
      some (history, ((OpenInvites.after book acts).tid n ext).getD 0)

theorem Refines.answers {acts : List InviteAct} (hbook : book.Consistent)
    (h : Refines book w (OpenInvites.after book acts)) : Answers book acts w := by
  refine ⟨h.outcomes, fun n userid ext hn hext => ?_⟩
  obtain ⟨hlength, -, htext, -⟩ := hbook.text hn
  obtain ⟨m, hrecords, hm⟩ := h.records
  obtain ⟨history, hget, -⟩ := hrecords.get
    (inviteAddress_length hlength (fun name hmem => (hext name hmem).1))
    (inviteAddress_text htext (fun name hmem => (hext name hmem).2))
  rw [hm n userid ext hn] at hget
  exact ⟨history, hget⟩

/-- Replies answer the latest open invites as long as their addresses fit into the keys. -/
theorem replies_answer_iff (hbook : book.Consistent) (mem : Hashtable Bytes ℕ ℕ)
    (acts : List InviteAct) (hdomain : ∀ act ∈ acts, act.InDomain) :
    (∃ w, exec (Replier.step book) ⟨.create mem, []⟩ acts = some w ∧ Answers book acts w) ↔
      ∀ act ∈ acts, act.Short book := by
  constructor
  · rintro ⟨w, hexec, -⟩
    exact short_of_exec hexec
  · intro hshort
    obtain ⟨w, hexec, hrefines⟩ := (refines_empty book mem).run hbook hdomain hshort
    exact ⟨w, hexec, hrefines.answers hbook⟩

def zeroFriend : FriendBook where
  userid n := if n = 0 then some (List.replicate 32 49) else none
  dht key := if key = List.replicate 32 0 then some 0 else none

theorem zeroFriend_consistent : zeroFriend.Consistent := by
  intro n userid hn
  unfold zeroFriend at hn ⊢
  dsimp only at hn ⊢
  split_ifs at hn with hzero
  cases hn
  subst hzero
  refine ⟨by decide, List.replicate 32 0, by decide +kernel, fun key => ?_⟩
  split_ifs with hkey
  · exact iff_of_true rfl hkey
  · exact iff_of_false (by simp) hkey

def friendRequest (tid : BitVec 64) : InviteAct := .request 0 ⟨none, .ireq ⟨tid, 1, some [1]⟩⟩

def refusal (addr : Bytes) : InviteReply := ⟨some addr, 1, some [], none, true, true, 0⟩

def noHistory : Hashtable Bytes ℕ ℕ :=
  ⟨0, 0, 0, fun _ => [], fun _ => 0, fun _ => 0, fun _ => none, fun _ => none, fun _ => none,
    fun _ => 0⟩

theorem replies_answer_two : ∃ w, exec (Replier.step zeroFriend) ⟨.create noHistory, []⟩
    [friendRequest 5, friendRequest 7, .reply (refusal (List.replicate 32 49))] = some w ∧
      Answers zeroFriend
        [friendRequest 5, friendRequest 7, .reply (refusal (List.replicate 32 49))] w := by
  refine (replies_answer_iff zeroFriend_consistent noHistory _ ?_).mpr ?_
  · intro act hact
    simp only [List.mem_cons, List.not_mem_nil, or_false] at hact
    rcases hact with rfl | rfl | rfl
    · exact ⟨⟨5, rfl, by decide⟩, fun name hname => by cases hname⟩
    · exact ⟨⟨7, rfl, by decide⟩, fun name hname => by cases hname⟩
    · intro addr haddr
      cases haddr
      decide
  · intro act hact
    simp only [List.mem_cons, List.not_mem_nil, or_false] at hact
    rcases hact with rfl | rfl | rfl
    · trivial
    · trivial
    · intro addr ext n hcheck
      cases (InviteReply.check_ok hcheck).1
      decide

/-- A reply for an extension of 45 bytes, which has sent no request, overflows the key. -/
theorem not_replies_answer :
    (InviteAct.reply (refusal (List.replicate 32 49 ++ colon :: List.replicate 45 97))).InDomain ∧
    (OpenInvites.after zeroFriend [.reply (refusal (List.replicate 32 49 ++ colon ::
      List.replicate 45 97))]).outcomes = [.error (intError .noMatchedRequest)] ∧
    exec (Replier.step zeroFriend) ⟨.create noHistory, []⟩ [.reply (refusal
      (List.replicate 32 49 ++ colon :: List.replicate 45 97))] = none := by
  refine ⟨?_, ?_, ?_⟩
  · intro addr haddr
    cases haddr
    decide
  · have hcheck : (refusal (List.replicate 32 49 ++ colon :: List.replicate 45 97)).check zeroFriend =
        .ok (List.replicate 32 49 ++ colon :: List.replicate 45 97, some (List.replicate 45 97), 0) := by
      decide +kernel
    rw [OpenInvites.after, List.foldl_cons, List.foldl_nil, OpenInvites.act, hcheck]
    rfl
  · rw [← Option.isNone_iff_eq_none]
    decide +kernel

end Refinement

section SameHistory

/-- The friends of `c`, looked up with `behind` behind their numbers, and the numbers that `toxcore`
has for keys. -/
def Contacts.book (c : Contacts) (behind : Bytes) (dht : Bytes → Option ℕ) : FriendBook :=
  ⟨fun n => (c.friends (FriendArg.code ⟨n, behind⟩)).map UserInfo.userid, dht⟩

/-- What `Contacts` sees of a reply. -/
def InviteReply.seen (call : InviteReply) (behind : Bytes) (dht : Bytes → Option ℕ) : ReplyCall where
  addr := call.addr.getD []
  valid := call.addr.isSome && (call.status = 0 || call.reason.isSome) &&
    (call.status ≠ 0 || call.data.getD [] ≠ [])
  isReady := call.isReady
  friendNumber :=
    (getFriendNumber dht (parseAddress (call.addr.getD [])).1).toOption.map (FriendArg.mk · behind)
  encoded := call.encoded
  sent := 0 ≤ call.dhtRc

variable {c : Contacts} {w : InviteHistory} {behind : Bytes} {dht : Bytes → Option ℕ}

/-- An invite is recorded in the table as `Contacts` records it. -/
theorem InviteHistory.Records.handleInviteRequest (h : w.Records c.thistory) {n : ℕ} {cp : IOEXCP}
    (hid : ∀ ui ∈ c.friends (FriendArg.code ⟨n, behind⟩), ui.userid.length ≤ maxIdLen ∧ (0 : UInt8) ∉ ui.userid)
    (hext : ∀ name ∈ cp.getExtension, (0 : UInt8) ∉ name)
    (hfits : ∀ ui ∈ c.friends (FriendArg.code ⟨n, behind⟩), ∀ name ∈ cp.getExtension,
      ui.userid.length + name.length < maxIdLen + maxExtensionNameLen) :
    ∃ w', Core.handleInviteRequest (c.book behind dht) w n cp = some w' ∧
      w'.Records (c.handleInviteRequest ⟨n, behind⟩ cp).thistory := by
  have hbook : (c.book behind dht).userid n =
      (c.friends (FriendArg.code ⟨n, behind⟩)).map UserInfo.userid := rfl
  unfold Core.handleInviteRequest Contacts.handleInviteRequest
  rw [hbook]
  cases hf : c.friends (FriendArg.code ⟨n, behind⟩) with
  | none => exact ⟨w, rfl, h⟩
  | some ui =>
    obtain ⟨hlength, htext⟩ := hid ui hf
    have hroom : (inviteAddress ui.userid cp.getExtension).length ≤ maxIdLen + maxExtensionNameLen := by
      unfold inviteAddress
      cases hname : cp.getExtension with
      | none => exact hlength.trans (Nat.le_add_right _ _)
      | some name =>
        have := hfits ui hf name hname
        rw [Option.elim_some, List.length_append, List.length_cons]
        omega
    obtain ⟨w', hput, hrecords⟩ := h.put hroom (inviteAddress_text htext hext) (cp.getTid.getD 0)
    have hguard : ¬(maxIdLen < ui.userid.length ∨
        historyKeySize ≤ (inviteAddress ui.userid cp.getExtension).length) := by
      unfold historyKeySize
      omega
    refine ⟨w', ?_, ?_⟩
    · dsimp only [Option.map_some]
      rw [if_neg hguard, hput]
    · unfold inviteAddress at hrecords
      cases hname : cp.getExtension with
      | none =>
        rw [hname] at hrecords
        exact hrecords
      | some name =>
        rw [hname] at hrecords
        exact hrecords

theorem exists_ok_guard {ε α : Type*} {p : Prop} [Decidable p] {e : ε} {x : Except ε α} :
    (∃ r, (if p then .error e else x) = .ok r) ↔ ¬p ∧ ∃ r, x = .ok r := by
  split_ifs with h <;> simp [h]

/-- The checks of a reply pass where `Contacts` admits it. -/
theorem InviteReply.check_eq_ok_iff (c : Contacts) (behind : Bytes) (dht : Bytes → Option ℕ)
    (call : InviteReply) :
    (∃ r, call.check (c.book behind dht) = .ok r) ↔ c.admits (call.seen behind dht) := by
  have hdht : (c.book behind dht).dht = dht := rfl
  have hnone (n : ℕ) : ((c.book behind dht).userid n).isNone =
      (c.friends (FriendArg.code ⟨n, behind⟩)).isNone := Option.isNone_map
  unfold InviteReply.check Contacts.admits InviteReply.seen
  cases haddr : call.addr with
  | none => simp
  | some addr =>
    have hext : ((parseAddress addr).2.elim true (·.length ≤ maxUserNameLen)) = true ↔
        ¬maxUserNameLen < ((parseAddress addr).2.getD []).length := by
      cases (parseAddress addr).2 <;> simp
    dsimp only [Option.getD_some]
    simp only [exists_ok_guard, hdht, hnone, Bool.and_eq_true, hext]
    cases getFriendNumber dht (parseAddress addr).1 with
    | error e => simp [Except.toOption]
    | ok n =>
      simp only [Except.toOption, exists_ok_guard]
      simp [Option.isSome_iff_ne_none, imp_iff_not_or]
      tauto

/-- A reply takes from the table what it takes from the history of `Contacts`. -/
theorem InviteHistory.Records.replyFriendInvite (h : w.Records c.thistory) {call : InviteReply}
    (haddr : ∀ addr ∈ call.addr, (0 : UInt8) ∉ addr)
    (hshort : (InviteAct.reply call).Short (c.book behind dht)) :
    ∃ w' outcome, Core.replyFriendInvite (c.book behind dht) w call = some (w', outcome) ∧
      w'.Records (c.replyFriendInvite (call.seen behind dht)).thistory := by
  have hadmits := InviteReply.check_eq_ok_iff c behind dht call
  unfold Core.replyFriendInvite Contacts.replyFriendInvite
  cases hcheck : call.check (c.book behind dht) with
  | error e =>
    have hrefused : c.admits (call.seen behind dht) = false := by
      rw [hcheck] at hadmits
      simpa using hadmits
    simp only [hrefused]
    exact ⟨w, _, rfl, h⟩
  | ok result =>
    obtain ⟨addr, ext, n⟩ := result
    have hadmitted : c.admits (call.seen behind dht) = true := hadmits.mp ⟨_, hcheck⟩
    obtain ⟨haddr', -⟩ := InviteReply.check_ok hcheck
    have hlength := hshort addr ext n hcheck
    have htext := haddr addr haddr'
    obtain ⟨w₁, hget, hrecords⟩ := h.get hlength htext
    have hseen : (call.seen behind dht).addr = addr := by
      unfold InviteReply.seen
      rw [haddr']
      rfl
    have hsame : (call.seen behind dht).encoded = call.encoded := rfl
    simp only [hadmitted, Bool.not_true, Bool.false_eq_true, if_false, hget, Option.bind_some, hseen,
      hsame, Contacts.transactionHistoryGetInvite]
    by_cases htid : (c.thistory (historyKey addr)).getD 0 = 0
    · rw [if_pos htid, if_pos htid]
      exact ⟨w₁, _, rfl, hrecords⟩
    · rw [if_neg htid, if_neg htid]
      by_cases hencoded : (!call.encoded) = true
      · rw [if_pos hencoded, if_pos hencoded]
        exact ⟨w₁, _, rfl, hrecords⟩
      · rw [if_neg hencoded, if_neg hencoded]
        by_cases hrc : call.dhtRc < 0
        · have hunsent : (!(call.seen behind dht).sent) = true := by simp [InviteReply.seen, hrc]
          rw [if_pos hrc, if_pos hunsent]
          exact ⟨w₁, _, rfl, hrecords⟩
        · have hsent : ¬(!(call.seen behind dht).sent) = true := by
            simp [InviteReply.seen, not_lt.mp hrc]
          obtain ⟨w₂, hremove, hrecords'⟩ := hrecords.remove hlength htext
          rw [if_neg hrc, if_neg hsent, hremove]
          exact ⟨w₂, _, rfl, hrecords'⟩

end SameHistory

end Carrier.Core
