import Carrier.Common.Base58Decode
import Carrier.Common.Error

/-! Ids and addresses as `carrier/IOEX_carrier.c` takes them from its callers: base58 texts of a
public key, and of a public key with a nospam value and a checksum. A C string is its contents. -/
namespace Carrier.Core
open Carrier.Lib Carrier.Common

def dhtPublicKeySize : ℕ := 32

def dhtAddressSize : ℕ := 38

def isValidKey (key : Bytes) : Bool :=
  match base58Decode key key.length 64 with
  | some (_, len) => len = 32
  | none => false

/-- `address_checksum`: the two bytes of `checksum`. -/
def addressChecksum (address : Bytes) : UInt8 × UInt8 :=
  address.zipIdx.foldl
    (fun checksum (b, i) =>
      if i % 2 = 0 then (checksum.1 ^^^ b, checksum.2) else (checksum.1, checksum.2 ^^^ b))
    (0, 0)

def addressCheck (address : Bytes) : UInt8 × UInt8 :=
  (address.getD (dhtPublicKeySize + 4) 0, address.getD (dhtPublicKeySize + 5) 0)

def isValidAddress (address : Bytes) : Bool :=
  match base58Decode address address.length dhtAddressSize with
  | some (addr, len) =>
    len = dhtAddressSize ∧ addressChecksum (addr.take (dhtAddressSize - 2)) = addressCheck addr
  | none => false

/-- The decoding of an id in `get_friend_number` and `IOEX_accept_friend`. -/
def friendKey (friendid : Bytes) : Option (Bytes × ℕ) :=
  base58Decode friendid friendid.length dhtPublicKeySize

/-- `get_friend_number`, with what `dht_get_friend_number` knows. -/
def getFriendNumber (dht : Bytes → Option ℕ) (friendid : Bytes) : Except ErrorCode ℕ :=
  match friendKey friendid with
  | none => .error .invalidArgs
  | some (publicKey, len) =>
    if len ≠ dhtPublicKeySize then .error .invalidArgs
    else
      match dht publicKey with
      | none => .error .notExist
      | some friendNumber => .ok friendNumber

/-- `IOEX_accept_friend` up to the decoding whose result goes to `dht_friend_add_norequest` without
a check. -/
def acceptFriendKey (dht : Bytes → Option ℕ) (self : Bytes) (isReady : Bool) (userid : Bytes) :
    Except ErrorCode (Option (Bytes × ℕ)) :=
  if !isValidKey userid then .error .invalidArgs
  else if userid = self then .error .invalidArgs
  else if !isReady then .error .notReady
  else
    match getFriendNumber dht userid with
    | .ok friendNumber =>
      if friendNumber ≠ 2 ^ 32 - 1 then .error .alreadyExist else .ok (friendKey userid)
    | .error _ => .ok (friendKey userid)

/-- What the callers rely on when they compare texts instead of keys. -/
structure OneSpelling (s : Bytes) : Prop where
  /-- A text that fills its buffer is the one that `base58_encode` makes of the buffer. -/
  spelled : ∀ data n, base58Decode s s.length n = some (data, n) →
    base58Encode data (s.length + 1) = some (some s)
  /-- The value returned does not depend on the buffer. -/
  sameValue : ∀ data r n n', base58Decode s s.length n = some (data, r) →
    ofBE data < 256 ^ n' → ∃ data', base58Decode s s.length n' = some (data', r)
  key : isValidKey s ↔ ∃ publicKey, friendKey s = some (publicKey, dhtPublicKeySize)
  keyLength : isValidKey s → s.length ≤ 44
  address : isValidAddress s ↔ ∃ a : Bytes, a.length = dhtAddressSize ∧
    base58Encode a (s.length + 1) = some (some s) ∧
    addressCheck a = addressChecksum (a.take (dhtAddressSize - 2))

theorem base58Encode_eq_self_iff {data s : Bytes} :
    base58Encode data (s.length + 1) = some (some s) ↔ base58Bytes s = some data := by
  rw [base58Encode_eq, base58Bytes_eq_some_iff]
  constructor
  · intro h
    split_ifs at h
    · cases h
    · exact (Option.some.inj (Option.some.inj h)).symm
  · rintro rfl
    rw [if_neg (Nat.not_succ_le_self _)]

theorem textRead_self (s : Bytes) : textRead s s.length = s := by
  unfold textRead
  split_ifs with hnil
  · rw [List.length_eq_zero_iff.mp hnil]
    rfl
  · exact List.take_length

section Spelling

variable {s bytes : Bytes}

/-- A C string that stands for bytes, and how it is decoded. -/
theorem base58Decode_self (h : base58Bytes s = some bytes)
    (hz : (bytes.takeWhile (· = 0)).length < 2 ^ 32) (n : ℕ) :
    base58Decode s s.length n =
      if ofBE bytes < 256 ^ n then some (toBE n (ofBE bytes), bytes.length) else none := by
  have hle : (bytes.takeWhile (· = 0)).length ≤ bytes.length := (List.takeWhile_sublist _).length_le
  rw [base58Decode_bytes, textRead_self, h]
  simp only [Option.bind_some, Nat.mod_eq_of_lt hz, Nat.sub_add_cancel hle]

theorem base58Decode_self_none (h : base58Bytes s = none) (n : ℕ) :
    base58Decode s s.length n = none := by
  rw [base58Decode_bytes, textRead_self, h, Option.bind_none]

theorem isValidKey_iff (h : base58Bytes s = some bytes)
    (hz : (bytes.takeWhile (· = 0)).length < 2 ^ 32) :
    isValidKey s ↔ bytes.length = dhtPublicKeySize := by
  unfold isValidKey
  rw [base58Decode_self h hz]
  constructor
  · intro hvalid
    split_ifs at hvalid
    simpa [dhtPublicKeySize] using hvalid
  · intro hlen
    have hfits : ofBE bytes < 256 ^ 64 := by
      refine lt_of_lt_of_le (ofBE_lt bytes) (Nat.pow_le_pow_right (by norm_num) ?_)
      rw [hlen, dhtPublicKeySize]
      norm_num
    simp only [if_pos hfits, hlen, dhtPublicKeySize, decide_true]

theorem fills_iff (h : base58Bytes s = some bytes)
    (hz : (bytes.takeWhile (· = 0)).length < 2 ^ 32) (n : ℕ) (data : Bytes) :
    base58Decode s s.length n = some (data, n) ↔ bytes.length = n ∧ data = bytes := by
  rw [base58Decode_self h hz]
  constructor
  · intro hdecode
    split_ifs at hdecode
    obtain ⟨rfl, hlen⟩ := Prod.mk.inj (Option.some.inj hdecode)
    exact ⟨hlen, by rw [← hlen, toBE_ofBE]⟩
  · rintro ⟨rfl, rfl⟩
    rw [if_pos (ofBE_lt data), toBE_ofBE]

theorem isValidAddress_iff (h : base58Bytes s = some bytes)
    (hz : (bytes.takeWhile (· = 0)).length < 2 ^ 32) :
    isValidAddress s ↔ bytes.length = dhtAddressSize ∧
      addressCheck bytes = addressChecksum (bytes.take (dhtAddressSize - 2)) := by
  unfold isValidAddress
  by_cases hlen : bytes.length = dhtAddressSize
  · rw [(fills_iff h hz dhtAddressSize bytes).mpr ⟨hlen, rfl⟩]
    simp [hlen, eq_comm]
  · rw [base58Decode_self h hz]
    by_cases hfits : ofBE bytes < 256 ^ dhtAddressSize
    · simp [hfits, hlen]
    · simp [hfits, hlen]

/-- A text with fewer than 2^32 leading ones is the only spelling of its bytes. -/
theorem OneSpelling.of_bytes (h : base58Bytes s = some bytes)
    (hz : (bytes.takeWhile (· = 0)).length < 2 ^ 32) : OneSpelling s where
  spelled data n hdecode := by
    obtain ⟨-, rfl⟩ := (fills_iff h hz n data).mp hdecode
    exact base58Encode_eq_self_iff.mpr h
  sameValue data r n n' hdecode hfits := by
    rw [base58Decode_self h hz] at hdecode ⊢
    split_ifs at hdecode with hn
    obtain ⟨rfl, rfl⟩ := Prod.mk.inj (Option.some.inj hdecode)
    rw [ofBE_toBE, Nat.mod_eq_of_lt hn] at hfits
    exact ⟨_, if_pos hfits⟩
  key := by
    rw [isValidKey_iff h hz]
    unfold friendKey
    simp only [fills_iff h hz, exists_and_left, exists_eq, and_true]
  keyLength hvalid := by
    rw [base58Bytes_eq_some_iff.mp h]
    apply length_base58Text_le
    rw [(isValidKey_iff h hz).mp hvalid, dhtPublicKeySize]
    norm_num
  address := by
    rw [isValidAddress_iff h hz]
    simp only [base58Encode_eq_self_iff, h, Option.some.injEq]
    constructor
    · rintro ⟨hlen, hcheck⟩
      exact ⟨bytes, hlen, rfl, hcheck⟩
    · rintro ⟨a, hlen, rfl, hcheck⟩
      exact ⟨hlen, hcheck⟩

theorem OneSpelling.of_none (h : base58Bytes s = none) : OneSpelling s where
  spelled data n hdecode := by
    rw [base58Decode_self_none h] at hdecode
    cases hdecode
  sameValue data r n n' hdecode := by
    rw [base58Decode_self_none h] at hdecode
    cases hdecode
  key := by
    simp [isValidKey, friendKey, base58Decode_self_none h]
  keyLength hvalid := by
    simp [isValidKey, base58Decode_self_none h] at hvalid
  address := by
    simp [isValidAddress, base58Decode_self_none h, base58Encode_eq_self_iff, h]

/-- With more leading ones the text also passes for the shorter byte string that their count modulo
2^32 makes. -/
theorem not_oneSpelling (h : base58Bytes s = some bytes)
    (hz : 2 ^ 32 ≤ (bytes.takeWhile (· = 0)).length) : ¬OneSpelling s := by
  intro hone
  set z := (bytes.takeWhile (· = 0)).length with hzdef
  have hle : z ≤ bytes.length := (List.takeWhile_sublist _).length_le
  have hmod : z % 2 ^ 32 < 2 ^ 32 := Nat.mod_lt _ (by norm_num)
  have hfits : ofBE bytes < 256 ^ (bytes.length - z + z % 2 ^ 32) := by
    have hlt := ofBE_lt (bytes.drop z)
    rw [ofBE_drop_zeros, List.length_drop] at hlt
    exact lt_of_lt_of_le hlt (Nat.pow_le_pow_right (by norm_num) (Nat.le_add_right _ _))
  have hdecode : base58Decode s s.length (bytes.length - z + z % 2 ^ 32) =
      some (toBE (bytes.length - z + z % 2 ^ 32) (ofBE bytes), bytes.length - z + z % 2 ^ 32) := by
    rw [base58Decode_bytes, textRead_self, h]
    exact if_pos hfits
  have hother := base58Encode_eq_self_iff.mp (hone.spelled _ _ hdecode)
  rw [h] at hother
  have hlen := congrArg List.length (Option.some.inj hother)
  rw [length_toBE] at hlen
  omega

/-- Ids and addresses have one spelling, except for texts with 2^32 leading ones and more. -/
theorem oneSpelling_iff (s : Bytes) :
    OneSpelling s ↔ base58Bytes s = none ∨ (s.takeWhile (· = 49)).length < 2 ^ 32 := by
  cases h : base58Bytes s with
  | none => exact iff_of_true (.of_none h) (.inl rfl)
  | some bytes =>
    have hones : (s.takeWhile (· = 49)).length = (bytes.takeWhile (· = 0)).length := by
      rw [base58Bytes_eq_some_iff.mp h, takeWhile_base58Text]
    rw [hones]
    simp only [reduceCtorEq, false_or]
    constructor
    · intro hone
      by_contra hge
      exact not_oneSpelling h (not_lt.mp hge) hone
    · exact .of_bytes h

end Spelling

/-- A text of ones is taken for a key whenever their count is 32 modulo 2^32. -/
theorem isValidKey_ones (n : ℕ) : isValidKey (List.replicate n 49) ↔ n % 2 ^ 32 = 32 := by
  have hbytes : base58Bytes (List.replicate n 49) = some (List.replicate n 0) :=
    base58Bytes_eq_some_iff.mpr (base58Text_zeros n).symm
  have hzero : ofBE (List.replicate n 0) = 0 := by
    rw [← ofBE_drop_zeros, List.takeWhile_replicate]
    simp
  unfold isValidKey
  rw [base58Decode_bytes, textRead_self, hbytes, Option.bind_some, hzero, List.takeWhile_replicate]
  simp

/-- A key of over four thousand million characters. -/
theorem isValidKey_long :
    isValidKey (List.replicate (2 ^ 32 + 32) 49) ∧
      44 < (List.replicate (2 ^ 32 + 32) (49 : UInt8)).length := by
  constructor
  · apply (isValidKey_ones _).mpr
    norm_num
  · rw [List.length_replicate]
    norm_num

end Carrier.Core
