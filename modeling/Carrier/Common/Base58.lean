import Carrier.Lib.Bytes
import Mathlib.Data.List.TakeWhile
import Mathlib.Data.Nat.Digits.Lemmas

/-! `common/base58.c`: keys, ids and nonces as text. Digit and word buffers are kept last cell
first, the order in which the loops walk them. -/
namespace Carrier.Common
open Carrier.Lib

def b58digitsOrdered : Bytes :=
  "123456789ABCDEFGHJKLMNPQRSTUVWXYZabcdefghijkmnopqrstuvwxyz".toList.map (fun c => c.toNat.toUInt8)

def b58digitsMap : List ℤ :=
  [-1,-1,-1,-1,-1,-1,-1,-1, -1,-1,-1,-1,-1,-1,-1,-1,
   -1,-1,-1,-1,-1,-1,-1,-1, -1,-1,-1,-1,-1,-1,-1,-1,
   -1,-1,-1,-1,-1,-1,-1,-1, -1,-1,-1,-1,-1,-1,-1,-1,
   -1, 0, 1, 2, 3, 4, 5, 6,  7, 8,-1,-1,-1,-1,-1,-1,
   -1, 9,10,11,12,13,14,15, 16,-1,17,18,19,20,21,-1,
   22,23,24,25,26,27,28,29, 30,31,32,-1,-1,-1,-1,-1,
   -1,33,34,35,36,37,38,39, 40,41,42,43,-1,44,45,46,
   47,48,49,50,51,52,53,54, 55,56,57,-1,-1,-1,-1,-1]

/-- `text[i] = b58digits_ordered[buf[j]]` -/
def digitChar (d : ℕ) : UInt8 := b58digitsOrdered.getD d 0

/-- The inner loop of `base58_encode`: it goes on for `high` cells and then while there is a
carry, and counts the cells it has passed. `none` is a cell before the buffer. -/
def carryLoop : List ℕ → ℕ → ℕ → Option (List ℕ × ℕ)
  | [], carry, high => if high = 0 ∧ carry = 0 then some ([], 0) else none
  | d :: buf, carry, high =>
    if high = 0 ∧ carry = 0 then some (d :: buf, 0)
    else
      let carry := carry + 256 * d
      (carryLoop buf (carry / 58) (high - 1)).map (fun (rest, n) => (carry % 58 :: rest, n + 1))

/-- The outer loop, over the bytes behind the leading zeros. -/
def digitLoop : Bytes → List ℕ → ℕ → Option (List ℕ)
  | [], buf, _ => some buf
  | b :: bin, buf, high =>
    (carryLoop buf b.toNat high).bind (fun (buf, high) => digitLoop bin buf high)

/-- `base58_encode`, without the terminating NUL. The inner result is `NULL` when the text does
not fit `textlen` bytes with its NUL. -/
def base58Encode (data : Bytes) (textlen : ℕ) : Option (Option Bytes) :=
  let zcount := (data.takeWhile (· = 0)).length
  let size := (data.length - zcount) * 138 / 100 + 1
  (digitLoop (data.drop zcount) (List.replicate size 0) 0).map (fun buf =>
    let digits := buf.reverse.dropWhile (· = 0)
    if textlen ≤ zcount + digits.length then none
    else some (List.replicate zcount 49 ++ digits.map digitChar))

/-- The loop over `outi` for one digit: `outi * 58 + c`, and the carry out of the first word. -/
def mulAddLoop : List ℕ → ℕ → List ℕ × ℕ
  | [], c => ([], c)
  | w :: outi, c =>
    let t := w * 58 + c
    let (rest, c) := mulAddLoop outi ((t &&& 0x3f00000000) >>> 32)
    ((t &&& 0xffffffff) :: rest, c)

/-- The first word of the buffer, the last one in this order. -/
def firstWord (outi : List ℕ) : ℕ := outi.getLastD 0

/-- The digits of the text behind the leading ones. -/
def decodeLoop (zeromask : ℕ) : Bytes → List ℕ → Option (List ℕ)
  | [], outi => some outi
  | ch :: text, outi =>
    if ch &&& 0x80 ≠ 0 then none
    else if b58digitsMap.getD ch.toNat (-1) = -1 then none
    else
      let (outi, c) := mulAddLoop outi (b58digitsMap.getD ch.toNat (-1)).toNat
      if c ≠ 0 then none
      else if firstWord outi &&& zeromask ≠ 0 then none
      else decodeLoop zeromask text outi

/-- `zeromask`: the bits of the first word above the bytes that are left. -/
def zeromaskOf (datalen : ℕ) : ℕ :=
  let bytesleft := datalen % 4
  if bytesleft ≠ 0 then (0xffffffff <<< (bytesleft * 8)) % 2 ^ 32 else 0

/-- `base58_decode`: the `datalen` bytes it writes and the length it returns; `none` is -1, with
nothing written. `text` is the memory from there on. `zerocount` is an `unsigned int`. -/
def base58Decode (text : Bytes) (textlen datalen : ℕ) : Option (Bytes × ℕ) :=
  let outisz := (datalen + 3) / 4
  let bytesleft := datalen % 4
  let textlen := if textlen = 0 then strlen text else textlen
  let textu := text.take textlen
  let zerocount := (textu.takeWhile (· = 49)).length
  (decodeLoop (zeromaskOf datalen) (textu.drop zerocount) (List.replicate outisz 0)).map (fun outi =>
    let binu :=
      if bytesleft ≠ 0 then
        toBE bytesleft (firstWord outi) ++ (outi.dropLast.reverse.map (toBE 4)).flatten
      else (outi.reverse.map (toBE 4)).flatten
    (binu, datalen - (binu.takeWhile (· = 0)).length + zerocount % 2 ^ 32))

/-- The canonical text: a one for every leading zero byte, then the digits of the number. -/
def base58Text (data : Bytes) : Bytes :=
  List.replicate (data.takeWhile (· = 0)).length 49 ++
    (Nat.digits 58 (ofBE data)).reverse.map digitChar

theorem carryLoop_spec {buf : List ℕ} {carry high : ℕ} (hh : high ≤ buf.length)
    (hz : ∀ d ∈ buf.drop high, d = 0)
    (hlt : 256 * Nat.ofDigits 58 buf + carry < 58 ^ buf.length) (hd : ∀ d ∈ buf, d < 58) :
    ∃ buf' n, carryLoop buf carry high = some (buf', n) ∧ buf'.length = buf.length ∧
      n ≤ buf'.length ∧ (∀ d ∈ buf'.drop n, d = 0) ∧ (∀ d ∈ buf', d < 58) ∧
      Nat.ofDigits 58 buf' = 256 * Nat.ofDigits 58 buf + carry := by
  induction buf generalizing carry high with
  | nil =>
    have hc : carry = 0 := by simpa [Nat.ofDigits] using hlt
    have hh0 : high = 0 := by simpa using hh
    exact ⟨[], 0, by simp [carryLoop, hc, hh0], rfl, le_refl 0, by simp, by simp, by simp [hc]⟩
  | cons d buf ih =>
    rw [carryLoop]
    by_cases hstop : high = 0 ∧ carry = 0
    · obtain ⟨rfl, rfl⟩ := hstop
      rw [List.drop_zero] at hz
      have hzero : Nat.ofDigits 58 (d :: buf) = 0 := by
        rw [List.eq_replicate_of_mem hz, Nat.ofDigits_replicate_zero]
      exact ⟨d :: buf, 0, if_pos ⟨rfl, rfl⟩, rfl, Nat.zero_le _, hz, hd, by rw [hzero]⟩
    · rw [Nat.ofDigits_cons, List.length_cons, pow_succ] at hlt
      have hmod := Nat.div_add_mod (carry + 256 * d) 58
      have hz₁ : ∀ x ∈ buf.drop (high - 1), x = 0 := by
        intro x hx
        refine hz x ?_
        cases high with
        | zero => exact List.mem_cons_of_mem _ (by simpa using hx)
        | succ k => simpa using hx
      have hlt₁ : 256 * Nat.ofDigits 58 buf + (carry + 256 * d) / 58 < 58 ^ buf.length := by
        omega
      obtain ⟨buf', n, hrun, hlen, hn, hz', hd', hval⟩ := ih
        (by simp only [List.length_cons] at hh; omega) hz₁ hlt₁
        (fun x hx => hd x (List.mem_cons_of_mem _ hx))
      refine ⟨(carry + 256 * d) % 58 :: buf', n + 1, ?_, by simp [hlen], by simp [hn],
        by simpa using hz', ?_, ?_⟩
      · rw [if_neg hstop]
        simp only [hrun, Option.map_some]
      · intro x hx
        rcases List.mem_cons.mp hx with rfl | hx
        · exact Nat.mod_lt _ (by norm_num)
        · exact hd' x hx
      · rw [Nat.ofDigits_cons, Nat.ofDigits_cons, hval]
        omega

theorem ofBE_cons (b : UInt8) (bs : Bytes) :
    ofBE (b :: bs) = b.toNat * 256 ^ bs.length + ofBE bs := by
  rw [← List.singleton_append, ofBE_append]
  simp [ofBE]

theorem digitLoop_spec {bin : Bytes} {buf : List ℕ} {high : ℕ} (hh : high ≤ buf.length)
    (hz : ∀ d ∈ buf.drop high, d = 0) (hd : ∀ d ∈ buf, d < 58)
    (hlt : Nat.ofDigits 58 buf * 256 ^ bin.length + ofBE bin < 58 ^ buf.length) :
    ∃ buf', digitLoop bin buf high = some buf' ∧ (∀ d ∈ buf', d < 58) ∧
      Nat.ofDigits 58 buf' = Nat.ofDigits 58 buf * 256 ^ bin.length + ofBE bin := by
  induction bin generalizing buf high with
  | nil => exact ⟨buf, rfl, hd, by simp⟩
  | cons b bin ih =>
    have hval : Nat.ofDigits 58 buf * 256 ^ (bin.length + 1) + ofBE (b :: bin) =
        (256 * Nat.ofDigits 58 buf + b.toNat) * 256 ^ bin.length + ofBE bin := by
      rw [ofBE_cons]
      ring
    rw [List.length_cons, hval] at hlt ⊢
    have hstep : 256 * Nat.ofDigits 58 buf + b.toNat < 58 ^ buf.length := by
      have hpos : 0 < 256 ^ bin.length := by positivity
      calc 256 * Nat.ofDigits 58 buf + b.toNat
          ≤ (256 * Nat.ofDigits 58 buf + b.toNat) * 256 ^ bin.length :=
            Nat.le_mul_of_pos_right _ hpos
        _ ≤ (256 * Nat.ofDigits 58 buf + b.toNat) * 256 ^ bin.length + ofBE bin :=
            Nat.le_add_right _ _
        _ < 58 ^ buf.length := hlt
    obtain ⟨buf₁, n, hrun, hlen, hn, hz₁, hd₁, hval₁⟩ := carryLoop_spec hh hz hstep hd
    rw [← hval₁, ← hlen] at hlt
    obtain ⟨buf', hrest, hd', hval'⟩ := ih hn hz₁ hd₁ hlt
    refine ⟨buf', ?_, hd', ?_⟩
    · rw [digitLoop, hrun]
      exact hrest
    · rw [hval', hval₁]

theorem pow_256_le (n : ℕ) : 256 ^ n ≤ 58 ^ (n * 138 / 100 + 1) := by
  have h100 : (256 ^ n) ^ 100 ≤ (58 ^ (n * 138 / 100 + 1)) ^ 100 := by
    calc (256 ^ n) ^ 100 = (256 ^ 100) ^ n := by rw [← pow_mul, ← pow_mul, Nat.mul_comm]
      _ ≤ (58 ^ 138) ^ n := Nat.pow_le_pow_left (by norm_num) n
      _ = 58 ^ (138 * n) := by rw [← pow_mul]
      _ ≤ 58 ^ ((n * 138 / 100 + 1) * 100) := Nat.pow_le_pow_right (by norm_num) (by omega)
      _ = (58 ^ (n * 138 / 100 + 1)) ^ 100 := by rw [pow_mul]
  exact (Nat.pow_le_pow_iff_left (by norm_num)).mp h100

/-- Without its leading zeros the digit buffer holds the digits of its value. -/
theorem dropWhile_reverse_eq {buf : List ℕ} (hd : ∀ d ∈ buf, d < 58) :
    buf.reverse.dropWhile (· = 0) = (Nat.digits 58 (Nat.ofDigits 58 buf)).reverse := by
  have hsplit := List.takeWhile_append_dropWhile (p := (· = 0)) (l := buf.reverse)
  set tw := buf.reverse.takeWhile (· = 0)
  set dw := buf.reverse.dropWhile (· = 0)
  have hzeros : tw = List.replicate tw.length 0 :=
    List.eq_replicate_of_mem (fun x hx => by simpa using List.mem_takeWhile_imp hx)
  have hbuf : buf = dw.reverse ++ List.replicate tw.length 0 := by
    rw [← List.reverse_reverse buf, ← hsplit, List.reverse_append, hzeros, List.reverse_replicate,
      List.length_replicate]
  have hval : Nat.ofDigits 58 buf = Nat.ofDigits 58 dw.reverse := by
    rw [hbuf, Nat.ofDigits_append_replicate_zero]
  rw [hval, Nat.digits_ofDigits 58 (by norm_num), List.reverse_reverse]
  · intro x hx
    exact hd x (by rw [hbuf]; exact List.mem_append_left _ hx)
  · intro hne
    have hdw : dw ≠ [] := by simpa using hne
    rw [List.getLast_reverse]
    simpa using List.head_dropWhile_not (fun x : ℕ => decide (x = 0)) hdw

theorem ofBE_drop_zeros (data : Bytes) :
    ofBE (data.drop (data.takeWhile (· = 0)).length) = ofBE data := by
  induction data with
  | nil => rfl
  | cons b data ih =>
    by_cases hb : b = 0
    · rw [List.takeWhile_cons_of_pos (by simpa using hb), List.length_cons, List.drop_succ_cons, ih,
        ofBE_cons, hb]
      simp
    · rw [List.takeWhile_cons_of_neg (by simpa using hb)]
      rfl

/-- The digits that the outer loop leaves are those of the number. -/
theorem digitLoop_data (data : Bytes) :
    ∃ buf, digitLoop (data.drop (data.takeWhile (· = 0)).length)
        (List.replicate ((data.length - (data.takeWhile (· = 0)).length) * 138 / 100 + 1) 0) 0 =
          some buf ∧
      buf.reverse.dropWhile (· = 0) = (Nat.digits 58 (ofBE data)).reverse := by
  set z := (data.takeWhile (· = 0)).length with hz
  set size := (data.length - z) * 138 / 100 + 1 with hsize
  have hlen : (data.drop z).length = data.length - z := List.length_drop
  have hlt : Nat.ofDigits 58 (List.replicate size 0) * 256 ^ (data.drop z).length +
      ofBE (data.drop z) < 58 ^ (List.replicate size 0).length := by
    rw [Nat.ofDigits_replicate_zero, Nat.zero_mul, Nat.zero_add, List.length_replicate]
    refine lt_of_lt_of_le (ofBE_lt _) ?_
    rw [hlen]
    exact pow_256_le _
  obtain ⟨buf, hrun, hd, hval⟩ := digitLoop_spec (Nat.zero_le _) (fun d hd => by
    rw [List.drop_zero] at hd
    exact List.eq_of_mem_replicate hd) (fun d hd => by
    rw [List.eq_of_mem_replicate hd]
    norm_num) hlt
  rw [Nat.ofDigits_replicate_zero, Nat.zero_mul, Nat.zero_add, hz, ofBE_drop_zeros] at hval
  exact ⟨buf, hrun, by rw [dropWhile_reverse_eq hd, hval]⟩

theorem length_base58Text (data : Bytes) :
    (base58Text data).length =
      (data.takeWhile (· = 0)).length + (Nat.digits 58 (ofBE data)).length := by
  simp [base58Text]

/-- `base58_encode` stays within its buffer and writes the canonical text if that fits. -/
theorem base58Encode_eq (data : Bytes) (textlen : ℕ) :
    base58Encode data textlen =
      some (if textlen ≤ (base58Text data).length then none else some (base58Text data)) := by
  obtain ⟨buf, hrun, hdigits⟩ := digitLoop_data data
  unfold base58Encode
  simp only [hrun, Option.map_some, hdigits, length_base58Text, List.length_reverse]
  rw [base58Text]

/-- The text of `n` bytes is no longer than that of the largest number of `n` bytes: a leading one
stands for a whole byte. -/
theorem length_base58Text_le {data : Bytes} {m : ℕ} (h : 256 ^ data.length ≤ 58 ^ m) :
    (base58Text data).length ≤ m := by
  set z := (data.takeWhile (· = 0)).length with hz
  have hzle : z ≤ data.length := (List.takeWhile_sublist _).length_le
  have hval : ofBE data < 256 ^ (data.length - z) := by
    have hlt := ofBE_lt (data.drop z)
    rwa [hz, ofBE_drop_zeros, List.length_drop] at hlt
  have hscaled : ofBE data * 58 ^ z < 58 ^ m := by
    calc ofBE data * 58 ^ z ≤ ofBE data * 256 ^ z :=
          Nat.mul_le_mul_left _ (Nat.pow_le_pow_left (by norm_num) z)
      _ < 256 ^ (data.length - z) * 256 ^ z := Nat.mul_lt_mul_of_pos_right hval (by positivity)
      _ = 256 ^ data.length := by rw [← pow_add, Nat.sub_add_cancel hzle]
      _ ≤ 58 ^ m := h
  have hzm : z ≤ m := by
    have hpow : 58 ^ z ≤ 58 ^ m := le_trans
      (le_trans (Nat.pow_le_pow_left (by norm_num) z) (Nat.pow_le_pow_right (by norm_num) hzle)) h
    exact (Nat.pow_le_pow_iff_right (by norm_num)).mp hpow
  have hdigits : (Nat.digits 58 (ofBE data)).length ≤ m - z := by
    apply (Nat.digits_length_le_iff (by norm_num) _).mpr
    apply Nat.lt_of_mul_lt_mul_right (a := 58 ^ z)
    rwa [← pow_add, Nat.sub_add_cancel hzm]
  rw [length_base58Text]
  omega

/-- What `base58_encode` leaves behind: whether it returns `text`, that buffer, and `*textlen`. -/
structure Encoded where
  returned : Bool
  text : Bytes
  textlen : ℕ
  deriving DecidableEq

/-- `base58_encode` with the buffer it writes to; there is no result for an access outside of the
digit buffer or of the text. -/
def base58EncodeTo (data text : Bytes) (textlen : ℕ) : Option Encoded :=
  let zcount := (data.takeWhile (· = 0)).length
  let size := (data.length - zcount) * 138 / 100 + 1
  (digitLoop (data.drop zcount) (List.replicate size 0) 0).bind (fun buf =>
    let digits := buf.reverse.dropWhile (· = 0)
    if textlen ≤ zcount + digits.length then some ⟨false, text, zcount + digits.length + 1⟩
    else
      let out := List.replicate zcount 49 ++ digits.map digitChar ++ [0]
      if text.length < out.length then none else some ⟨true, writeAt text 0 out, out.length⟩)

theorem base58EncodeTo_cases (data text : Bytes) (textlen : ℕ) :
    base58EncodeTo data text textlen =
      if (base58Text data).length < textlen then
        if text.length < (base58Text data).length + 1 then none
        else
          some ⟨true, base58Text data ++ 0 :: text.drop ((base58Text data).length + 1),
            (base58Text data).length + 1⟩
      else some ⟨false, text, (base58Text data).length + 1⟩ := by
  obtain ⟨buf, hrun, hdigits⟩ := digitLoop_data data
  have hout : List.replicate (data.takeWhile (· = 0)).length 49 ++
      (Nat.digits 58 (ofBE data)).reverse.map digitChar ++ [0] = base58Text data ++ [0] := by
    rw [base58Text]
  have hlen := length_base58Text data
  unfold base58EncodeTo
  simp only [hrun, Option.bind_some, hdigits, List.length_reverse, ← hlen]
  rw [hout]
  simp only [List.length_append, List.length_singleton]
  by_cases hfits : (base58Text data).length < textlen
  · rw [if_neg (not_le.mpr hfits), if_pos hfits]
    simp [writeAt]
  · rw [if_pos (not_lt.mp hfits), if_neg hfits]

/-- The canonical text with its NUL if it fits, else only the size needed. A key takes at most 44
characters, an address 52. -/
theorem base58EncodeTo_eq (data text : Bytes) {textlen : ℕ} (h : textlen ≤ text.length) :
    base58EncodeTo data text textlen =
        some (if (base58Text data).length < textlen then
          ⟨true, base58Text data ++ 0 :: text.drop ((base58Text data).length + 1),
            (base58Text data).length + 1⟩
        else ⟨false, text, (base58Text data).length + 1⟩) ∧
      (data.length = 32 → (base58Text data).length ≤ 44) ∧
      (data.length = 38 → (base58Text data).length ≤ 52) := by
  refine ⟨?_, fun hkey => length_base58Text_le (by rw [hkey]; norm_num),
    fun haddress => length_base58Text_le (by rw [haddress]; norm_num)⟩
  rw [base58EncodeTo_cases]
  by_cases hfits : (base58Text data).length < textlen
  · rw [if_pos hfits, if_pos hfits, if_neg (by omega)]
  · rw [if_neg hfits, if_neg hfits]

/-- Three bytes into a buffer with room to spare. -/
theorem base58EncodeTo_three :
    base58EncodeTo [0, 1, 2] (List.replicate 6 7) 4 = some ⟨true, [49, 53, 84, 0, 7, 7], 4⟩ := by
  have htext : base58Text [0, 1, 2] = [49, 53, 84] := by decide
  have heq := (base58EncodeTo_eq [0, 1, 2] (List.replicate 6 7)
    (show 4 ≤ (List.replicate 6 (7 : UInt8)).length by decide)).1
  rw [htext] at heq
  exact heq

end Carrier.Common
