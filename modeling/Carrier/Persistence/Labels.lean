import Carrier.Persistence.Format
import Carrier.Core.FriendTable

/-! Friend labels in the extra section: `get_extra_savedata_size`, `get_extra_savedata`,
`apply_extra_data`, and the buffer `store_persistence_data` fills. The friends table finds a friend
by the hash and `strcmp` of its number, as `carrier/friends.h` does. -/
namespace Carrier.Persistence
open Carrier.Lib Carrier.Core

def maxUserNameLen : ℕ := 63

/-- `UINT32_MAX`, the number no friend has. -/
def noFriend : ℕ := 2 ^ 32 - 1

/-- The fields of a friend that persistence uses; `label` is a C string in a field of
`IOEX_MAX_USER_NAME_LEN + 1` bytes, and `userid` lies behind the number. -/
structure FriendInfo where
  friendNumber : ℕ
  userid : Bytes
  label : Bytes
  number_lt : friendNumber < noFriend
  label_noNul : NoNul label
  label_le : label.length ≤ maxUserNameLen

/-- The key of a friend number with the memory behind it. -/
def numberKey (n : ℕ) (behind : Bytes) : FriendKey := ⟨BitVec.ofNat 32 n, behind⟩

def FriendInfo.key (f : FriendInfo) : FriendKey := numberKey f.friendNumber f.userid

/-- The friends table, in iteration order. toxcore numbers its friends apart, and `friends_put`
replaces a friend under the same key. -/
structure Friends where
  entries : List FriendInfo
  nodup : (entries.map FriendInfo.friendNumber).Nodup
  apart : Apart FriendInfo.key entries

/-- `friends_get`, with what lies behind its argument on the stack. -/
def friendsGet (t : Friends) (n : ℕ) (behind : Bytes) : Option FriendInfo :=
  findFriend FriendInfo.key t.entries (numberKey n behind)

namespace Friends

def friend (t : Friends) (n : ℕ) : Option FriendInfo :=
  t.entries.find? (fun f => f.friendNumber = n)

def labelOf (t : Friends) (n : ℕ) : Option Bytes := (t.friend n).map FriendInfo.label

/-- The table is a faithful map: the lookup of a friend's number finds that friend, whatever lies
behind the number. -/
def Faithful (t : Friends) : Prop :=
  ∀ f ∈ t.entries, ∀ behind, friendsGet t f.friendNumber behind = some f

/-- Overwrite the label of the friend that a lookup finds, if there is one. -/
def setLabel (t : Friends) (k : FriendKey) (label : Bytes) (hn : NoNul label)
    (hl : label.length ≤ maxUserNameLen) : Friends where
  entries := modifyFriend FriendInfo.key t.entries k
    (fun f => { f with label := label, label_noNul := hn, label_le := hl })
  nodup := by
    unfold modifyFriend
    rw [List.map_map]
    convert t.nodup using 2
    funext f
    simp only [Function.comp]
    split_ifs <;> rfl
  apart := t.apart.modify k (fun _ => rfl)

end Friends

def getExtraSavedataSize (t : Friends) : ℕ :=
  (t.entries.map (fun f => if f.label = [] then 0 else 4 + f.label.length + 1)).sum

/-- The bytes `get_extra_savedata` writes into a space of `len` bytes. -/
def getExtraSavedata : List FriendInfo → ℕ → Bytes
  | [], _ => []
  | f :: fs, len =>
    if len = 0 then []
    else if f.label = [] then getExtraSavedata fs len
    else if len < 4 + f.label.length + 1 then []
    else toBE 4 f.friendNumber ++ (f.label ++ [0]) ++
      getExtraSavedata fs (len - (4 + f.label.length + 1))

/-- The buffer `store_persistence_data` writes to the journal. -/
def storeImage (sha : Sha256) (dht : Bytes) (t : Friends) : Bytes :=
  let extraDataLen := getExtraSavedataSize t
  let buf := List.replicate (256 + round256 dht.length + round256 extraDataLen) 0
  let buf := writeHeader buf dht.length extraDataLen
  let buf := writeAt buf 256 dht
  let buf := writeAt buf (256 + round256 dht.length)
    (getExtraSavedata t.entries (round256 extraDataLen))
  writeAt buf 16 (sha.digest (buf.drop 256))

/-- A record as `apply_extra_data` looks it up: `behind` lies behind the argument of `friends_get`
on the stack. -/
structure LabelCall where
  number : ℕ
  behind : Bytes
  label : Bytes

def LabelCall.key (c : LabelCall) : FriendKey := numberKey c.number c.behind

/-- Records in turn, the `i`th with `stack i` behind the argument. -/
def labelCalls (stack : ℕ → Bytes) (rs : List (ℕ × Bytes)) : List LabelCall :=
  rs.mapIdx (fun i r => ⟨r.1, stack i, r.2⟩)

/-- `friends_get` and `strcpy` for one record. `none` where the code aborts on the assertion of
`friends_get`, or copies a label past the end of its field. A label delimited by `strlen` has
no NUL. -/
def assignLabel (t : Friends) (c : LabelCall) : Option Friends :=
  if c.number = noFriend then none
  else if (friendsGet t c.number c.behind).isSome then
    if h : c.label.length ≤ maxUserNameLen ∧ NoNul c.label then
      some (t.setLabel c.key c.label h.2 h.1)
    else none
  else some t

/-- The loop of `apply_extra_data` over the memory from `pos` on, for a remaining length `len`.
`none` also where it reads past the memory. -/
def applyExtraLoop : ℕ → (ℕ → Bytes) → Friends → Bytes → ℕ → Option Friends
  | 0, _, _, _, _ => none
  | fuel + 1, stack, t, mem, len =>
    if len = 0 then some t
    else if mem.length < 4 then none
    else
      let friendNumber := ofBE (mem.take 4)
      let pos := mem.drop 4
      let labelLen := strlen pos
      if labelLen = pos.length then none
      else if labelLen = 0 then some t
      else (assignLabel t ⟨friendNumber, stack 0, pos.take labelLen⟩).bind
        (fun t => applyExtraLoop fuel (fun i => stack (i + 1)) t (pos.drop (labelLen + 1))
          (subSize len (4 + labelLen + 1)))

/-- Each round reads at least six bytes, so one more round than bytes is enough. -/
def applyExtraData (stack : ℕ → Bytes) (t : Friends) (extraSavedata : Bytes)
    (extraSavedataLen : ℕ) : Option Friends :=
  applyExtraLoop (extraSavedata.length + 1) stack t extraSavedata extraSavedataLen

def records (fs : List FriendInfo) : List (ℕ × Bytes) :=
  (fs.filter (fun f => f.label ≠ [])).map (fun f => (f.friendNumber, f.label))

theorem records_cons_empty {f : FriendInfo} (hf : f.label = []) (fs : List FriendInfo) :
    records (f :: fs) = records fs := by
  simp [records, hf]

theorem records_cons_label {f : FriendInfo} (hf : f.label ≠ []) (fs : List FriendInfo) :
    records (f :: fs) = (f.friendNumber, f.label) :: records fs := by
  simp [records, hf]

def encodeRecord (r : ℕ × Bytes) : Bytes := toBE 4 r.1 ++ (r.2 ++ [0])

def encodeRecords (rs : List (ℕ × Bytes)) : Bytes := (rs.map encodeRecord).flatten

@[simp] theorem length_encodeRecord (r : ℕ × Bytes) :
    (encodeRecord r).length = 4 + r.2.length + 1 := by
  simp [encodeRecord, Nat.add_assoc]

theorem encodeRecords_cons (r : ℕ × Bytes) (rs : List (ℕ × Bytes)) :
    encodeRecords (r :: rs) = encodeRecord r ++ encodeRecords rs := by
  simp [encodeRecords]

/-- The size pass counts exactly the bytes of the records. -/
theorem getExtraSavedataSize_eq (t : Friends) :
    getExtraSavedataSize t = (encodeRecords (records t.entries)).length := by
  rw [getExtraSavedataSize]
  induction t.entries with
  | nil => rfl
  | cons f fs ih =>
    rw [List.map_cons, List.sum_cons, ih]
    by_cases hf : f.label = []
    · simp [records_cons_empty hf, hf]
    · simp [records_cons_label hf, hf, encodeRecords_cons]

/-- The second pass writes all of them: its limit is never below what is left. -/
theorem getExtraSavedata_eq (fs : List FriendInfo) {len : ℕ}
    (h : (encodeRecords (records fs)).length < len) :
    getExtraSavedata fs len = encodeRecords (records fs) := by
  induction fs generalizing len with
  | nil => rfl
  | cons f fs ih =>
    rw [getExtraSavedata, if_neg (by omega)]
    by_cases hf : f.label = []
    · rw [records_cons_empty hf] at h ⊢
      rw [if_pos hf, ih h]
    · rw [records_cons_label hf, encodeRecords_cons, List.length_append, length_encodeRecord] at h
      simp only at h
      rw [if_neg hf, if_neg (by omega), records_cons_label hf, encodeRecords_cons, ih (by omega),
        encodeRecord]

theorem labelCalls_cons (stack : ℕ → Bytes) (r : ℕ × Bytes) (rs : List (ℕ × Bytes)) :
    labelCalls stack (r :: rs) =
      ⟨r.1, stack 0, r.2⟩ :: labelCalls (fun i => stack (i + 1)) rs := List.mapIdx_cons

theorem mem_labelCalls {stack : ℕ → Bytes} {rs : List (ℕ × Bytes)} {c : LabelCall}
    (h : c ∈ labelCalls stack rs) : (c.number, c.label) ∈ rs := by
  obtain ⟨i, hi, rfl⟩ := List.mem_mapIdx.mp h
  exact List.getElem_mem hi

/-- On well-formed records the loop is one assignment per record, up to the given length. -/
theorem applyExtraLoop_records {rs : List (ℕ × Bytes)} (fuel : ℕ) (stack : ℕ → Bytes)
    (t : Friends) (pad : Bytes)
    (hrs : ∀ r ∈ rs, r.1 < 2 ^ 32 ∧ r.2 ≠ [] ∧ NoNul r.2)
    (hlen : (encodeRecords rs).length < 2 ^ 64) (hfuel : rs.length < fuel) :
    applyExtraLoop fuel stack t (encodeRecords rs ++ pad) (encodeRecords rs).length =
      (labelCalls stack rs).foldlM assignLabel t := by
  induction rs generalizing fuel stack t with
  | nil =>
    obtain ⟨fuel, rfl⟩ : ∃ n, fuel = n + 1 := ⟨fuel - 1, by simp at hfuel; omega⟩
    rfl
  | cons r rs ih =>
    obtain ⟨fuel, rfl⟩ : ∃ n, fuel = n + 1 := ⟨fuel - 1, by omega⟩
    obtain ⟨hnum, hne, hnul⟩ := hrs r List.mem_cons_self
    have hpos : 0 < r.2.length := List.length_pos_iff.mpr hne
    have hmem : encodeRecords (r :: rs) ++ pad =
        toBE 4 r.1 ++ (r.2 ++ 0 :: (encodeRecords rs ++ pad)) := by
      simp [encodeRecords_cons, encodeRecord]
    have htot : (encodeRecords (r :: rs)).length =
        4 + r.2.length + 1 + (encodeRecords rs).length := by
      rw [encodeRecords_cons, List.length_append, length_encodeRecord]
    have htake : (toBE 4 r.1 ++ (r.2 ++ 0 :: (encodeRecords rs ++ pad))).take 4 = toBE 4 r.1 :=
      List.take_left' (length_toBE 4 _)
    have hdrop : (toBE 4 r.1 ++ (r.2 ++ 0 :: (encodeRecords rs ++ pad))).drop 4 =
        r.2 ++ 0 :: (encodeRecords rs ++ pad) := List.drop_left' (length_toBE 4 _)
    have hval : ofBE (toBE 4 r.1) = r.1 := by
      rw [ofBE_toBE]
      exact Nat.mod_eq_of_lt (by omega)
    rw [htot] at hlen
    rw [applyExtraLoop, hmem, htot, if_neg (by omega), if_neg (by simp)]
    simp only [htake, hdrop, hval, strlen_cstr hnul]
    rw [if_neg (by simp), if_neg (by omega), List.take_left, subSize_of_le (by omega) hlen,
      show 4 + r.2.length + 1 + (encodeRecords rs).length - (4 + r.2.length + 1) =
        (encodeRecords rs).length by omega]
    have hrest : (r.2 ++ 0 :: (encodeRecords rs ++ pad)).drop (r.2.length + 1) =
        encodeRecords rs ++ pad := by
      rw [← List.singleton_append, ← List.append_assoc]
      exact List.drop_left' (by simp)
    rw [hrest, labelCalls_cons, List.foldlM_cons]
    refine Option.bind_congr (fun t' _ => ?_)
    exact ih fuel _ t' (fun x hx => hrs x (List.mem_cons_of_mem _ hx)) (by omega)
      (by simpa using hfuel)

theorem records_length_le (rs : List (ℕ × Bytes)) : rs.length ≤ (encodeRecords rs).length := by
  induction rs with
  | nil => exact Nat.zero_le _
  | cons r rs ih =>
    rw [encodeRecords_cons, List.length_append, length_encodeRecord, List.length_cons]
    omega

theorem applyExtraData_records {rs : List (ℕ × Bytes)} (stack : ℕ → Bytes) (t : Friends) (pad : Bytes)
    (hrs : ∀ r ∈ rs, r.1 < 2 ^ 32 ∧ r.2 ≠ [] ∧ NoNul r.2)
    (hlen : (encodeRecords rs).length < 2 ^ 64) :
    applyExtraData stack t (encodeRecords rs ++ pad) (encodeRecords rs).length =
      (labelCalls stack rs).foldlM assignLabel t := by
  refine applyExtraLoop_records _ stack t pad hrs hlen ?_
  have := records_length_le rs
  rw [List.length_append]
  omega

/-- The label a sequence of records leaves for friend `n`: the last one naming it. -/
def lastLabel (n : ℕ) : List (ℕ × Bytes) → Option Bytes
  | [] => none
  | r :: rs => (lastLabel n rs).or (if r.1 = n then some r.2 else none)

/-- The label the calls leave for the friend with a key: the last one whose lookup takes it. -/
def lastTaken (k : FriendKey) : List LabelCall → Option Bytes
  | [] => none
  | c :: cs => (lastTaken k cs).or (if friendOps.same k c.key then some c.label else none)

namespace Friends

theorem mem_of_friend {t : Friends} {n : ℕ} {f : FriendInfo} (h : t.friend n = some f) :
    f ∈ t.entries ∧ f.friendNumber = n := by
  constructor
  · exact List.mem_of_find?_eq_some h
  · simpa using List.find?_some h

theorem friend_of_mem (t : Friends) {f : FriendInfo} (h : f ∈ t.entries) :
    t.friend f.friendNumber = some f := by
  apply find?_of_mem _ h (by simp)
  apply List.Pairwise.imp _ (List.pairwise_map.mp t.nodup)
  intro g g' hne hboth
  simp only [decide_eq_true_eq] at hboth
  exact hne (hboth.1.trans hboth.2.symm)

/-- The key and the label of the friend with a number. -/
def entryOf (t : Friends) (n : ℕ) : Option (FriendKey × Bytes) :=
  (t.friend n).map (fun f => (f.key, f.label))

theorem labelOf_eq (t : Friends) (n : ℕ) : t.labelOf n = (t.entryOf n).map Prod.snd := by
  rw [labelOf, entryOf, Option.map_map]
  rfl

theorem entryOf_setLabel (t : Friends) (k : FriendKey) (n : ℕ) (l : Bytes) (hn : NoNul l)
    (hl : l.length ≤ maxUserNameLen) :
    (t.setLabel k l hn hl).entryOf n = (t.entryOf n).map (fun e =>
      (e.1, if friendOps.same e.1 k then l else e.2)) := by
  have hnumber : ∀ f ∈ t.entries, ((fun f : FriendInfo => decide (f.friendNumber = n)) ∘
      fun f => if keyed FriendInfo.key k f then { f with label := l, label_le := hl, label_noNul := hn }
        else f) f = decide (f.friendNumber = n) := by
    intro f _
    by_cases hk : keyed FriendInfo.key k f = true <;> simp [hk]
  unfold entryOf friend setLabel modifyFriend
  rw [List.find?_map, Option.map_map, Option.map_map, find?_congr_hit hnumber]
  congr 1
  funext f
  change _ = (f.key, if keyed FriendInfo.key k f then l else f.label)
  rw [Function.comp_apply]
  by_cases hk : keyed FriendInfo.key k f = true
  · rw [if_pos hk, if_pos hk]
    rfl
  · rw [if_neg hk, if_neg hk]

end Friends

/-- One record overwrites the label of the friend that its lookup takes. -/
theorem entryOf_assignLabel {t t' : Friends} {c : LabelCall} (h : assignLabel t c = some t') (n : ℕ) :
    t'.entryOf n = (t.entryOf n).map (fun e =>
      (e.1, if friendOps.same e.1 c.key then c.label else e.2)) := by
  unfold assignLabel at h
  split_ifs at h with hmax hfound hfits
  · cases h
    exact t.entryOf_setLabel c.key n c.label _ _
  · cases h
    cases hfriend : t.friend n with
    | none => simp [Friends.entryOf, hfriend]
    | some f =>
      have hnone : friendsGet t c.number c.behind = none := by simpa using hfound
      have hmiss := List.find?_eq_none.mp hnone f (Friends.mem_of_friend hfriend).1
      have hsame : friendOps.same f.key c.key = false := by simpa [keyed, LabelCall.key] using hmiss
      simp [Friends.entryOf, hfriend, hsame]

/-- Applying records leaves every friend the last label whose lookup takes it, and its own
otherwise. -/
theorem entryOf_foldlM {cs : List LabelCall} {t t' : Friends}
    (h : cs.foldlM assignLabel t = some t') (n : ℕ) :
    t'.entryOf n = (t.entryOf n).map (fun e => (e.1, (lastTaken e.1 cs).getD e.2)) := by
  induction cs generalizing t with
  | nil =>
    cases h
    simp [lastTaken]
  | cons c cs ih =>
    rw [List.foldlM_cons] at h
    obtain ⟨m, hm, hrest⟩ := Option.bind_eq_some_iff.mp h
    rw [ih hrest, entryOf_assignLabel hm n, Option.map_map]
    congr 1
    funext e
    simp only [Function.comp, lastTaken]
    cases lastTaken e.1 cs with
    | none => by_cases hsame : friendOps.same e.1 c.key <;> simp [hsame]
    | some l => simp

/-- The header of a save before its digest is known. -/
def plainHeader (a b : ℕ) : Bytes :=
  toBE 4 persistenceMagic ++ (toBE 4 persistenceRevision ++ (toBE 4 a ++ (toBE 4 b ++
    List.replicate 240 0)))

theorem length_plainHeader (a b : ℕ) : (plainHeader a b).length = 256 := by
  simp only [plainHeader, List.length_append, length_toBE, List.length_replicate]

theorem writeHeader_zero (rest : Bytes) (a b : ℕ) :
    writeHeader (List.replicate 256 0 ++ rest) a b = plainHeader a b ++ rest := by
  have hsplit : List.replicate 256 (0 : UInt8) ++ rest =
      [] ++ (List.replicate 4 0 ++ (List.replicate 4 0 ++ (List.replicate 4 0 ++
        (List.replicate 4 0 ++ (List.replicate 240 0 ++ rest))))) := by
    simp only [List.nil_append, ← List.append_assoc, List.replicate_append_replicate]
  unfold writeHeader
  rw [hsplit]
  simp only
  rw [writeAt_middle (by simp) (by simp), List.nil_append, writeAt_middle (by simp) (by simp),
    ← List.append_assoc, writeAt_middle (by simp) (by simp), ← List.append_assoc,
    writeAt_middle (by simp) (by simp)]
  simp only [plainHeader, List.append_assoc]

/-- Both writers end the same way: the digest of the body goes behind the length fields. -/
theorem writeDigest_image (sha : Sha256) (c : Contents) :
    writeAt (plainHeader c.dht.length c.extra.length ++ c.body) 16 (sha.digest c.body) =
      c.image sha := by
  have h32 := sha.length_digest c.body
  have hsplit : plainHeader c.dht.length c.extra.length ++ c.body =
      (toBE 4 persistenceMagic ++ (toBE 4 persistenceRevision ++ (toBE 4 c.dht.length ++
        toBE 4 c.extra.length))) ++ (List.replicate 32 0 ++ (List.replicate 208 0 ++ c.body)) := by
    rw [plainHeader, show (240 : ℕ) = 32 + 208 from rfl, List.replicate_add]
    simp only [List.append_assoc]
  rw [hsplit, writeAt_middle (by simp) (by rw [h32, List.length_replicate]), Contents.image]
  simp only [List.append_assoc]

/-- Copying a section into zeroed space of its rounded size pads it. -/
theorem writeAt_section {a : Bytes} {pos : ℕ} (hp : a.length = pos) (s rest : Bytes) :
    writeAt (a ++ (List.replicate (round256 s.length) 0 ++ rest)) pos s =
      a ++ (padSection s ++ rest) := by
  have hs := round256_gt s.length
  rw [show round256 s.length = s.length + (round256 s.length - s.length) by omega,
    List.replicate_add, List.append_assoc, writeAt_middle hp (by rw [List.length_replicate]),
    padSection, List.append_assoc]

/-- What the records of a table occupy in a save. -/
def contentsOf (dht : Bytes) (t : Friends) : Contents := ⟨dht, encodeRecords (records t.entries)⟩

theorem storeImage_eq (sha : Sha256) (dht : Bytes) (t : Friends) :
    storeImage sha dht t = (contentsOf dht t).image sha := by
  have hextra := round256_gt (encodeRecords (records t.entries)).length
  have hzero : List.replicate (256 + round256 dht.length +
      round256 (encodeRecords (records t.entries)).length) (0 : UInt8) =
      List.replicate 256 0 ++ (List.replicate (round256 dht.length) 0 ++
        (List.replicate (round256 (encodeRecords (records t.entries)).length) 0 ++ [])) := by
    simp only [List.replicate_append_replicate, Nat.add_assoc, List.append_nil]
  unfold storeImage
  simp only
  rw [getExtraSavedataSize_eq, getExtraSavedata_eq _ (by omega), hzero, writeHeader_zero,
    writeAt_section (length_plainHeader _ _), ← List.append_assoc,
    writeAt_section (by rw [List.length_append, length_plainHeader, length_padSection]),
    List.append_nil, List.append_assoc, List.drop_left' (length_plainHeader _ _)]
  exact writeDigest_image sha (contentsOf dht t)

/-- What the code needs of a record: its number is one that a friend can have, and the label fits
the field of the friend that the lookup finds. -/
def LabelCall.Safe (t : Friends) (c : LabelCall) : Prop :=
  c.number ≠ noFriend ∧
    ((friendsGet t c.number c.behind).isSome → c.label.length ≤ maxUserNameLen)

instance (t : Friends) (c : LabelCall) : Decidable (c.Safe t) := by
  unfold LabelCall.Safe
  infer_instance

theorem assignLabel_isSome_iff (t : Friends) {c : LabelCall} (hnul : NoNul c.label) :
    (assignLabel t c).isSome ↔ c.Safe t := by
  unfold assignLabel LabelCall.Safe
  split_ifs with hmax hfound hfits
  · simp [hmax]
  · simp [hmax, hfits.1]
  · have hlong : ¬c.label.length ≤ maxUserNameLen := fun hl => hfits ⟨hl, hnul⟩
    simp [hfound, hlong]
  · simp [hmax, hfound]

theorem friendsGet_assignLabel {t t' : Friends} {c : LabelCall} (h : assignLabel t c = some t')
    (n : ℕ) (behind : Bytes) :
    (friendsGet t' n behind).isSome = (friendsGet t n behind).isSome := by
  unfold assignLabel at h
  split_ifs at h with hmax hfound hfits
  · cases h
    unfold friendsGet Friends.setLabel
    rw [findFriend_modifyFriend]
    · exact Option.isSome_map
    · exact fun _ => rfl
  · cases h
    rfl

theorem foldlM_assignLabel_isSome_iff {cs : List LabelCall} (t : Friends)
    (hnul : ∀ c ∈ cs, NoNul c.label) :
    (cs.foldlM assignLabel t).isSome ↔ ∀ c ∈ cs, c.Safe t := by
  induction cs generalizing t with
  | nil => simp
  | cons c cs ih =>
    have hhead := assignLabel_isSome_iff t (hnul c List.mem_cons_self)
    rw [List.foldlM_cons, List.forall_mem_cons, ← hhead]
    cases hm : assignLabel t c with
    | none => simp
    | some m =>
      change (cs.foldlM assignLabel m).isSome ↔ _
      rw [ih m (fun x hx => hnul x (List.mem_cons_of_mem _ hx))]
      simp only [LabelCall.Safe, friendsGet_assignLabel hm, Option.isSome_some, true_and]

theorem mem_records {fs : List FriendInfo} {r : ℕ × Bytes} (h : r ∈ records fs) :
    ∃ f ∈ fs, f.label ≠ [] ∧ r = (f.friendNumber, f.label) := by
  obtain ⟨f, hf, rfl⟩ := List.mem_map.mp h
  obtain ⟨hmem, hne⟩ := List.mem_filter.mp hf
  exact ⟨f, hmem, by simpa using hne, rfl⟩

theorem lastLabel_eq_none {n : ℕ} {rs : List (ℕ × Bytes)} (h : ∀ r ∈ rs, r.1 ≠ n) :
    lastLabel n rs = none := by
  induction rs with
  | nil => rfl
  | cons r rs ih =>
    rw [lastLabel, ih (fun x hx => h x (List.mem_cons_of_mem _ hx)),
      if_neg (h r List.mem_cons_self)]
    rfl

/-- The records of friends carry each friend's label once, unless it is empty. -/
theorem lastLabel_records {fs : List FriendInfo} (hnodup : (fs.map FriendInfo.friendNumber).Nodup)
    (n : ℕ) : lastLabel n (records fs) =
      ((fs.find? (fun f => f.friendNumber = n)).map FriendInfo.label).filter (fun l => l ≠ []) := by
  induction fs with
  | nil => rfl
  | cons f fs ih =>
    rw [List.map_cons, List.nodup_cons] at hnodup
    by_cases hf : f.friendNumber = n
    · -- No later entry has this number, so the record of `f` is the last one.
      have hlater : lastLabel n (records fs) = none := by
        refine lastLabel_eq_none (fun r hr hrn => ?_)
        obtain ⟨g, hg, -, rfl⟩ := mem_records hr
        exact hnodup.1 (List.mem_map.mpr ⟨g, hg, hrn.trans hf.symm⟩)
      rw [List.find?_cons_of_pos (by simpa using hf), Option.map_some]
      by_cases hl : f.label = []
      · rw [records_cons_empty hl, hlater, hl]
        rfl
      · rw [records_cons_label hl, lastLabel, hlater, if_pos hf, Option.none_or]
        simp [Option.filter, hl]
    · have hskip : lastLabel n (records (f :: fs)) = lastLabel n (records fs) := by
        by_cases hl : f.label = []
        · rw [records_cons_empty hl]
        · rw [records_cons_label hl, lastLabel, if_neg hf, Option.or_none]
      rw [hskip, ih hnodup.2, List.find?_cons_of_neg (by simpa using hf)]

/-- Of records that name friends of the table, a faithful lookup takes those with the number. -/
theorem Friends.Faithful.lastTaken_eq {t : Friends} (h : t.Faithful) {f : FriendInfo}
    (hf : f ∈ t.entries) (stack : ℕ → Bytes) {rs : List (ℕ × Bytes)}
    (hrs : ∀ r ∈ rs, (t.friend r.1).isSome) :
    lastTaken f.key (labelCalls stack rs) = lastLabel f.friendNumber rs := by
  induction rs generalizing stack with
  | nil => rfl
  | cons r rs ih =>
    have htest : friendOps.same f.key (numberKey r.1 (stack 0)) = true ↔ r.1 = f.friendNumber := by
      obtain ⟨g, hg⟩ := Option.isSome_iff_exists.mp (hrs r List.mem_cons_self)
      obtain ⟨hmem, hnumber⟩ := Friends.mem_of_friend hg
      have hfound := h g hmem (stack 0)
      rw [hnumber] at hfound
      constructor
      · intro hsame
        have hfound' : friendsGet t r.1 (stack 0) = some f := t.apart.findFriend_of_mem hf hsame
        rw [hfound, Option.some_inj] at hfound'
        rw [← hfound', hnumber]
      · intro heq
        have hgf := t.friend_of_mem hf
        rw [← heq, hg, Option.some_inj] at hgf
        rw [← hgf]
        exact keyed_of_findFriend hfound
    rw [labelCalls_cons, lastTaken, lastLabel, ih _ (fun x hx => hrs x (List.mem_cons_of_mem _ hx))]
    congr 1
    exact if_congr htest rfl rfl

/-- The lookup is faithful when each number has a zero byte and no two are one key. -/
theorem Friends.faithful_of_plain {t : Friends}
    (h : PlainNumbers {n | ∃ f ∈ t.entries, n = BitVec.ofNat 32 f.friendNumber}) : t.Faithful := by
  intro f hf behind
  apply t.apart.findFriend_of_mem hf
  have hnumber : f.key.number ∈ {n | ∃ f ∈ t.entries, n = BitVec.ofNat 32 f.friendNumber} :=
    ⟨f, hf, rfl⟩
  exact (h.keyed_eq (k := numberKey f.friendNumber behind) hnumber hnumber).trans
    (decide_eq_true rfl)

/-- A save read back hands out the DHT bytes, and its extra section restores every label in a
faithful table of the same friends without labels. -/
theorem loadPersistenceDataI_storeImage (sha : Sha256) (dht : Bytes) (t blank : Friends)
    (stack : ℕ → Bytes) (hdht : dht.length ≤ maxPersistenceSectionSize)
    (hextra : getExtraSavedataSize t ≤ maxPersistenceSectionSize)
    (hblank : ∀ n, blank.labelOf n = (t.labelOf n).map (fun _ => []))
    (hfaithful : blank.Faithful) :
    ∃ pd t', loadPersistenceDataI sha (storeImage sha dht t) = some pd ∧
      pd.dhtSavedataLen = dht.length ∧ pd.dhtSavedata.take pd.dhtSavedataLen = dht ∧
      applyExtraData stack blank pd.extraSavedata pd.extraSavedataLen = some t' ∧
      ∀ n, t'.labelOf n = t.labelOf n := by
  rw [getExtraSavedataSize_eq] at hextra
  have hmax : maxPersistenceSectionSize < 2 ^ 32 := by decide
  have hrs : ∀ r ∈ records t.entries, (blank.friend r.1).isSome ∧
      r.1 < noFriend ∧ r.2 ≠ [] ∧ r.2.length ≤ maxUserNameLen ∧ NoNul r.2 := by
    intro r hr
    obtain ⟨f, hf, hne, rfl⟩ := mem_records hr
    have hlabel := hblank f.friendNumber
    rw [Friends.labelOf, Friends.labelOf, t.friend_of_mem hf] at hlabel
    refine ⟨?_, f.number_lt, hne, f.label_le, f.label_noNul⟩
    cases hfriend : blank.friend f.friendNumber with
    | none => simp [hfriend] at hlabel
    | some g => rfl
  obtain ⟨t', ht'⟩ := Option.isSome_iff_exists.mp
    ((foldlM_assignLabel_isSome_iff blank (fun c hc => (hrs _ (mem_labelCalls hc)).2.2.2.2)).mpr
      (fun c (hc : c ∈ labelCalls stack (records t.entries)) => ⟨(hrs _ (mem_labelCalls hc)).2.1.ne,
        fun _ => (hrs _ (mem_labelCalls hc)).2.2.2.1⟩))
  refine ⟨(contentsOf dht t).view, t', ?_, rfl, ?_, ?_, fun n => ?_⟩
  · rw [storeImage_eq]
    exact loadPersistenceDataI_image sha ⟨hdht, hextra⟩
  · simp [Contents.view, Contents.body, contentsOf, padSection]
  · rw [← ht']
    refine applyExtraData_records stack blank _ (fun r hr => ?_) (by omega)
    obtain ⟨-, hnum, hne, -, hnul⟩ := hrs r hr
    exact ⟨by unfold noFriend at hnum; omega, hne, hnul⟩
  · have hlabel := lastLabel_records t.nodup n
    change _ = (t.labelOf n).filter _ at hlabel
    rw [Friends.labelOf_eq, entryOf_foldlM ht' n, Friends.entryOf]
    have hb := hblank n
    cases hfriend : blank.friend n with
    | none =>
      rw [Friends.labelOf, hfriend] at hb
      cases ho : t.labelOf n with
      | none => rfl
      | some l => simp [ho] at hb
    | some g =>
      obtain ⟨hmem, rfl⟩ := Friends.mem_of_friend hfriend
      rw [Friends.labelOf, hfriend] at hb
      cases ho : t.labelOf g.friendNumber with
      | none => simp [ho] at hb
      | some l =>
        rw [ho] at hb hlabel
        have hempty : g.label = [] := by simpa using hb
        rw [Option.map_some, Option.map_some, Option.map_some,
          hfaithful.lastTaken_eq hmem stack (fun r hr => (hrs r hr).1), hlabel, hempty]
        by_cases hl : l = [] <;> simp [hl, Option.filter]

/-- Two friends, the first of them with the given label. -/
def twoFriends (label : Bytes) (hn : NoNul label) (hl : label.length ≤ maxUserNameLen) :
    Friends where
  entries := [⟨3, [97], label, by decide, hn, hl⟩, ⟨7, [98], [], by decide, by decide, by decide⟩]
  nodup := by simp
  apart := by
    have hkeys : friendOps.same (numberKey 3 [97]) (numberKey 7 [98]) = false := by decide
    exact List.pairwise_pair.mpr hkeys

theorem labelOf_twoFriends (label : Bytes) (hn : NoNul label) (hl : label.length ≤ maxUserNameLen)
    (n : ℕ) : (twoFriends label hn hl).labelOf n =
      if 3 = n then some label else if 7 = n then some [] else none := by
  by_cases h3 : 3 = n <;> by_cases h7 : 7 = n <;>
    simp [Friends.labelOf, Friends.friend, twoFriends, h3, h7]

theorem faithful_twoFriends (label : Bytes) (hn : NoNul label) (hl : label.length ≤ maxUserNameLen) :
    (twoFriends label hn hl).Faithful := by
  have hnumbers : {n | ∃ f ∈ (twoFriends label hn hl).entries, n = BitVec.ofNat 32 f.friendNumber} =
      {3, 7} := by
    ext n
    simp [twoFriends]
  apply Friends.faithful_of_plain
  rw [hnumbers]
  constructor
  · simp only [Set.mem_insert_iff, Set.mem_singleton_iff, forall_eq_or_imp, forall_eq, HasZeroByte]
    decide
  · simp only [Set.mem_insert_iff, Set.mem_singleton_iff, forall_eq_or_imp, forall_eq, SameKey]
    decide

theorem loadPersistenceDataI_storeImage_two :
    ∃ pd t', loadPersistenceDataI sodiumSha256 (storeImage sodiumSha256 [1, 0, 2]
        (twoFriends [98, 111, 98] (by decide) (by decide))) = some pd ∧
      pd.dhtSavedataLen = 3 ∧ pd.dhtSavedata.take pd.dhtSavedataLen = [1, 0, 2] ∧
      applyExtraData (fun _ => [255]) (twoFriends [] (by decide) (by decide)) pd.extraSavedata
        pd.extraSavedataLen = some t' ∧
      ∀ n, t'.labelOf n = (twoFriends [98, 111, 98] (by decide) (by decide)).labelOf n := by
  refine loadPersistenceDataI_storeImage sodiumSha256 [1, 0, 2] _ _ (fun _ => [255]) (by decide)
    (by decide) (fun n => ?_) (faithful_twoFriends _ _ _)
  rw [labelOf_twoFriends, labelOf_twoFriends]
  split_ifs <;> rfl

end Carrier.Persistence
