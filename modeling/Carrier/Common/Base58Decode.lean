import Carrier.Common.Base58

/-! What `base58_decode` returns and writes, for every text and every size of the buffer. The texts
of base58 and the byte strings correspond one to one. -/
namespace Carrier.Common
open Carrier.Lib

def digitOf (ch : UInt8) : Option ℕ :=
  if ch &&& 0x80 ≠ 0 ∨ b58digitsMap.getD ch.toNat (-1) = -1 then none
  else some (b58digitsMap.getD ch.toNat (-1)).toNat

def base58Number (text : Bytes) : Option ℕ :=
  (text.mapM digitOf).map (fun ds => Nat.ofDigits 58 ds.reverse)

/-- The bytes that a text stands for: a zero byte for every leading one, then the number without
leading zeros. -/
def base58Bytes (text : Bytes) : Option Bytes :=
  (base58Number text).map (fun v =>
    List.replicate (text.takeWhile (· = 49)).length 0 ++ toBE (Nat.digits 256 v).length v)

/-- The part of the memory that `base58_decode` takes for its text. -/
def textRead (text : Bytes) (textlen : ℕ) : Bytes :=
  text.take (if textlen = 0 then strlen text else textlen)

theorem b58digitsMap_digitChar : ∀ d < 58,
    digitChar d &&& 0x80 = 0 ∧ b58digitsMap.getD (digitChar d).toNat (-1) = (d : ℤ) := by
  decide

theorem digitOf_digitChar {d : ℕ} (hd : d < 58) : digitOf (digitChar d) = some d := by
  obtain ⟨hhigh, hmap⟩ := b58digitsMap_digitChar d hd
  unfold digitOf
  rw [hmap, if_neg (by simp [hhigh]), Int.toNat_natCast]

theorem digitChar_toNat : ∀ n < 128, b58digitsMap.getD n (-1) ≠ -1 →
    (b58digitsMap.getD n (-1)).toNat < 58 ∧
      digitChar (b58digitsMap.getD n (-1)).toNat = UInt8.ofNat n := by
  decide +kernel

theorem digitOf_eq_some {ch : UInt8} {d : ℕ} (h : digitOf ch = some d) :
    d < 58 ∧ digitChar d = ch := by
  unfold digitOf at h
  split_ifs at h with hbad
  rw [not_or] at hbad
  have hlt : ch.toNat < 128 := by
    by_contra hge
    apply hbad.2
    rw [List.getD_eq_getElem?_getD, List.getElem?_eq_none (not_lt.mp hge)]
    rfl
  obtain ⟨hd, hchar⟩ := digitChar_toNat ch.toNat hlt hbad.2
  cases h
  exact ⟨hd, hchar.trans (UInt8.ofNat_toNat)⟩

theorem mapM_digitOf {text : Bytes} {ds : List ℕ} :
    text.mapM digitOf = some ds ↔ (∀ d ∈ ds, d < 58) ∧ text = ds.map digitChar := by
  constructor
  · intro h
    induction text generalizing ds with
    | nil =>
      cases h
      exact ⟨by simp, rfl⟩
    | cons ch text ih =>
      simp only [List.mapM_cons, Option.pure_def, Option.bind_eq_bind, Option.bind_eq_some_iff,
        Option.some.injEq] at h
      obtain ⟨d, hd, rest, hrest, rfl⟩ := h
      obtain ⟨hlt, hchar⟩ := digitOf_eq_some hd
      obtain ⟨hall, rfl⟩ := ih hrest
      exact ⟨List.forall_mem_cons.mpr ⟨hlt, hall⟩, by rw [List.map_cons, hchar]⟩
  · rintro ⟨hall, rfl⟩
    induction ds with
    | nil => rfl
    | cons d ds ih =>
      obtain ⟨hd, hds⟩ := List.forall_mem_cons.mp hall
      rw [List.map_cons, List.mapM_cons, digitOf_digitChar hd, ih hds]
      rfl

theorem base58Number_eq_some {text : Bytes} {v : ℕ} :
    base58Number text = some v ↔ ∃ ds : List ℕ, (∀ d ∈ ds, d < 58) ∧ text = ds.map digitChar ∧
      v = Nat.ofDigits 58 ds.reverse := by
  unfold base58Number
  rw [Option.map_eq_some_iff]
  constructor
  · rintro ⟨ds, hds, rfl⟩
    obtain ⟨hall, htext⟩ := mapM_digitOf.mp hds
    exact ⟨ds, hall, htext, rfl⟩
  · rintro ⟨ds, hall, htext, rfl⟩
    exact ⟨ds, mapM_digitOf.mpr ⟨hall, htext⟩, rfl⟩

theorem and_mask32 (t : ℕ) : t &&& 0xffffffff = t % 2 ^ 32 :=
  Nat.and_two_pow_sub_one_eq_mod t 32

theorem carry_of_lt {t : ℕ} (h : t < 2 ^ 38) : (t &&& 0x3f00000000) >>> 32 = t / 2 ^ 32 := by
  have hdiv : t / 2 ^ 32 < 64 := by omega
  rw [Nat.shiftRight_and_distrib, Nat.shiftRight_eq_div_pow,
    show 0x3f00000000 >>> 32 = 2 ^ 6 - 1 by decide, Nat.and_two_pow_sub_one_eq_mod]
  exact Nat.mod_eq_of_lt hdiv

/-- One digit: the words become their value times 58 plus the digit, up to the carry. -/
theorem mulAddLoop_spec {outi : List ℕ} {c : ℕ} (hw : ∀ w ∈ outi, w < 2 ^ 32) (hc : c < 64) :
    (mulAddLoop outi c).1.length = outi.length ∧ (∀ w ∈ (mulAddLoop outi c).1, w < 2 ^ 32) ∧
      Nat.ofDigits (2 ^ 32) (mulAddLoop outi c).1 +
        (2 ^ 32) ^ outi.length * (mulAddLoop outi c).2 = 58 * Nat.ofDigits (2 ^ 32) outi + c := by
  induction outi generalizing c with
  | nil => simp [mulAddLoop]
  | cons w outi ih =>
    have hw0 := hw w List.mem_cons_self
    have hdiv : (w * 58 + c) / 2 ^ 32 < 64 := by omega
    obtain ⟨hlen, hlt, hval⟩ := ih (fun x hx => hw x (List.mem_cons_of_mem _ hx)) hdiv
    have hmod := Nat.div_add_mod (w * 58 + c) (2 ^ 32)
    rw [mulAddLoop]
    simp only [and_mask32, carry_of_lt (show w * 58 + c < 2 ^ 38 by omega)]
    generalize mulAddLoop outi ((w * 58 + c) / 2 ^ 32) = r at hlen hlt hval ⊢
    refine ⟨congrArg (· + 1) hlen, ?_, ?_⟩
    · intro x hx
      rcases List.mem_cons.mp hx with rfl | hx
      · exact Nat.mod_lt _ (by norm_num)
      · exact hlt x hx
    · have hscaled := congrArg (2 ^ 32 * ·) hval
      simp only [Nat.ofDigits_cons, List.length_cons, pow_succ ((2 : ℕ) ^ 32) outi.length] at hscaled ⊢
      generalize ((2 : ℕ) ^ 32) ^ outi.length = B at hscaled ⊢
      linarith

theorem and_high_mask {x k m : ℕ} (hx : x < 2 ^ k) (hm : 2 ^ k ∣ m) : x &&& m = 0 := by
  obtain ⟨q, rfl⟩ := hm
  refine Nat.eq_of_testBit_eq (fun i => ?_)
  rw [Nat.testBit_and, Nat.zero_testBit, Nat.testBit_two_pow_mul]
  by_cases hi : k ≤ i
  · rw [Nat.testBit_lt_two_pow (lt_of_lt_of_le hx (Nat.pow_le_pow_right (by norm_num) hi))]
    rfl
  · simp [hi]

theorem pow_256_words (datalen : ℕ) :
    256 ^ datalen = (2 ^ 32) ^ (datalen / 4) * 2 ^ (datalen % 4 * 8) := by
  conv_lhs => rw [← Nat.div_add_mod datalen 4]
  rw [pow_add, show (256 : ℕ) = 2 ^ 8 from rfl, ← pow_mul, ← pow_mul, ← pow_mul]
  congr 2 <;> ring

theorem pow_256_le_words (datalen : ℕ) : 256 ^ datalen ≤ (2 ^ 32) ^ ((datalen + 3) / 4) := by
  rw [show (256 : ℕ) = 2 ^ 8 from rfl, ← pow_mul, ← pow_mul]
  exact Nat.pow_le_pow_right (by norm_num) (by omega)

theorem firstWord_lt {outi : List ℕ} {datalen : ℕ} (hlen : outi.length = (datalen + 3) / 4)
    (hr : datalen % 4 ≠ 0) (hv : Nat.ofDigits (2 ^ 32) outi < 256 ^ datalen) :
    firstWord outi < 2 ^ (datalen % 4 * 8) := by
  rcases List.eq_nil_or_concat outi with rfl | ⟨init, w, rfl⟩
  · simp only [List.length_nil] at hlen
    omega
  · have hinit : init.length = datalen / 4 := by
      rw [List.concat_eq_append, List.length_append, List.length_singleton] at hlen
      omega
    rw [List.concat_eq_append, Nat.ofDigits_append, Nat.ofDigits_singleton, hinit,
      pow_256_words] at hv
    have hw : (2 ^ 32) ^ (datalen / 4) * w < (2 ^ 32) ^ (datalen / 4) * 2 ^ (datalen % 4 * 8) :=
      lt_of_le_of_lt (Nat.le_add_left _ _) hv
    simpa [firstWord] using Nat.lt_of_mul_lt_mul_left hw

theorem firstWord_and_zeromask {outi : List ℕ} {datalen : ℕ}
    (hlen : outi.length = (datalen + 3) / 4)
    (hv : Nat.ofDigits (2 ^ 32) outi < 256 ^ datalen) :
    firstWord outi &&& zeromaskOf datalen = 0 := by
  unfold zeromaskOf
  by_cases hr : datalen % 4 ≠ 0
  · rw [if_pos hr]
    refine and_high_mask (firstWord_lt hlen hr hv) ?_
    have h32 : 2 ^ (datalen % 4 * 8) ∣ 2 ^ 32 := pow_dvd_pow 2 (by omega)
    rw [Nat.dvd_mod_iff h32, Nat.shiftLeft_eq]
    exact Dvd.intro_left _ rfl
  · rw [if_neg hr, Nat.and_zero]

theorem lt_of_and_shifted_mask {w k : ℕ} (hw : w < 2 ^ 32) (hk : k ≤ 32)
    (h : w &&& (0xffffffff <<< k) % 2 ^ 32 = 0) : w < 2 ^ k := by
  have hshift : w >>> k = (w &&& (0xffffffff <<< k) % 2 ^ 32) >>> k := by
    refine Nat.eq_of_testBit_eq (fun i => ?_)
    rw [Nat.testBit_shiftRight, Nat.testBit_shiftRight, Nat.testBit_and, Nat.testBit_mod_two_pow,
      Nat.testBit_shiftLeft, show (0xffffffff : ℕ) = 2 ^ 32 - 1 from rfl,
      Nat.testBit_two_pow_sub_one]
    by_cases hi : k + i < 32
    · simp only [hi, decide_true, Nat.le_add_right, Nat.add_sub_cancel_left,
        show i < 32 by omega, Bool.and_true]
    · rw [Nat.testBit_lt_two_pow
        (lt_of_lt_of_le hw (Nat.pow_le_pow_right (by norm_num) (not_lt.mp hi)))]
      rfl
  rw [h, Nat.zero_shiftRight, Nat.shiftRight_eq_div_pow] at hshift
  exact Nat.lt_of_div_eq_zero (by positivity) hshift

/-- A first word without bits under the mask leaves a number that fits the buffer. -/
theorem lt_of_firstWord {outi : List ℕ} {datalen : ℕ} (hlen : outi.length = (datalen + 3) / 4)
    (hw : ∀ w ∈ outi, w < 2 ^ 32) (h : firstWord outi &&& zeromaskOf datalen = 0) :
    Nat.ofDigits (2 ^ 32) outi < 256 ^ datalen := by
  have hall : Nat.ofDigits (2 ^ 32) outi < (2 ^ 32) ^ outi.length :=
    Nat.ofDigits_lt_base_pow_length (by norm_num) hw
  rw [pow_256_words]
  by_cases hr : datalen % 4 = 0
  · rw [hlen, show (datalen + 3) / 4 = datalen / 4 by omega] at hall
    rw [hr]
    simpa using hall
  · rcases List.eq_nil_or_concat outi with rfl | ⟨init, w, rfl⟩
    · simp only [List.length_nil] at hlen
      omega
    · rw [List.concat_eq_append] at *
      have hinit : init.length = datalen / 4 := by
        rw [List.length_append, List.length_singleton] at hlen
        omega
      have hfirst : w < 2 ^ (datalen % 4 * 8) := by
        have hword : w < 2 ^ 32 := hw w (by simp)
        rw [show firstWord (init ++ [w]) = w by simp [firstWord], zeromaskOf, if_pos hr] at h
        exact lt_of_and_shifted_mask hword (by omega) h
      have hlow : Nat.ofDigits (2 ^ 32) init < (2 ^ 32) ^ init.length :=
        Nat.ofDigits_lt_base_pow_length (by norm_num)
          (fun x hx => hw x (List.mem_append_left _ hx))
      rw [Nat.ofDigits_append, Nat.ofDigits_singleton, ← hinit]
      calc Nat.ofDigits (2 ^ 32) init + (2 ^ 32) ^ init.length * w
          < (2 ^ 32) ^ init.length + (2 ^ 32) ^ init.length * w := Nat.add_lt_add_right hlow _
        _ = (2 ^ 32) ^ init.length * (w + 1) := by ring
        _ ≤ (2 ^ 32) ^ init.length * 2 ^ (datalen % 4 * 8) := Nat.mul_le_mul_left _ hfirst

/-- The test for a number that is too big passes exactly the numbers that fit the buffer. -/
theorem mulAddLoop_fits_iff {datalen d : ℕ} {outi : List ℕ}
    (hlen : outi.length = (datalen + 3) / 4) (hw : ∀ w ∈ outi, w < 2 ^ 32) (hd : d < 64) :
    (mulAddLoop outi d).2 = 0 ∧ firstWord (mulAddLoop outi d).1 &&& zeromaskOf datalen = 0 ↔
      58 * Nat.ofDigits (2 ^ 32) outi + d < 256 ^ datalen := by
  obtain ⟨hlen', hw', hval⟩ := mulAddLoop_spec hw hd
  constructor
  · rintro ⟨hcarry, hfirst⟩
    rw [hcarry, Nat.mul_zero, Nat.add_zero] at hval
    rw [← hval]
    exact lt_of_firstWord (hlen'.trans hlen) hw' hfirst
  · intro hlt
    have hcarry : (mulAddLoop outi d).2 = 0 := by
      by_contra hne
      have hge : (2 ^ 32) ^ outi.length ≤ (2 ^ 32) ^ outi.length * (mulAddLoop outi d).2 :=
        Nat.le_mul_of_pos_right _ (Nat.pos_of_ne_zero hne)
      have hwords := pow_256_le_words datalen
      rw [← hlen] at hwords
      omega
    rw [hcarry, Nat.mul_zero, Nat.add_zero] at hval
    rw [← hval] at hlt
    exact ⟨hcarry, firstWord_and_zeromask (hlen'.trans hlen) hlt⟩

/-- One digit that is taken. -/
theorem decodeLoop_cons {datalen : ℕ} {ch : UInt8} {text : Bytes} {outi outi' : List ℕ}
    (hlen : outi.length = (datalen + 3) / 4) (hw : ∀ w ∈ outi, w < 2 ^ 32) :
    decodeLoop (zeromaskOf datalen) (ch :: text) outi = some outi' ↔ ∃ d, digitOf ch = some d ∧
      58 * Nat.ofDigits (2 ^ 32) outi + d < 256 ^ datalen ∧
      decodeLoop (zeromaskOf datalen) text (mulAddLoop outi d).1 = some outi' := by
  rw [decodeLoop]
  cases hdigit : digitOf ch with
  | none =>
    simp only [reduceCtorEq, false_and, exists_false, iff_false]
    unfold digitOf at hdigit
    split_ifs at hdigit with hbad
    by_cases hhigh : ch &&& 0x80 ≠ 0
    · simp [hhigh]
    · simp only [if_neg hhigh, if_pos (hbad.resolve_left hhigh), reduceCtorEq, not_false_eq_true]
  | some d =>
    obtain ⟨hd, rfl⟩ := digitOf_eq_some hdigit
    obtain ⟨hhigh, hmap⟩ := b58digitsMap_digitChar d hd
    have hfits := mulAddLoop_fits_iff hlen hw (show d < 64 by omega)
    have hne : (d : ℤ) ≠ -1 := by omega
    simp only [hhigh, hmap, hne, ne_eq, not_true_eq_false, if_false, Int.toNat_natCast,
      Option.some.injEq, exists_eq_left', ← hfits]
    by_cases hcarry : (mulAddLoop outi d).2 = 0
    · by_cases hfirst : firstWord (mulAddLoop outi d).1 &&& zeromaskOf datalen = 0
      · simp [hcarry, hfirst]
      · simp [hcarry, hfirst]
    · simp [hcarry]

/-- What the loop ends with is the number of the digits, and it fits. -/
theorem decodeLoop_sound {datalen : ℕ} {text : Bytes} {outi outi' : List ℕ}
    (hlen : outi.length = (datalen + 3) / 4) (hw : ∀ w ∈ outi, w < 2 ^ 32)
    (hv : Nat.ofDigits (2 ^ 32) outi < 256 ^ datalen)
    (h : decodeLoop (zeromaskOf datalen) text outi = some outi') :
    outi'.length = outi.length ∧ (∀ w ∈ outi', w < 2 ^ 32) ∧
      Nat.ofDigits (2 ^ 32) outi' < 256 ^ datalen ∧
      ∃ ds : List ℕ, (∀ d ∈ ds, d < 58) ∧ text = ds.map digitChar ∧
        Nat.ofDigits (2 ^ 32) outi' =
          Nat.ofDigits (2 ^ 32) outi * 58 ^ ds.length + Nat.ofDigits 58 ds.reverse := by
  induction text generalizing outi with
  | nil =>
    cases h
    exact ⟨rfl, hw, hv, [], by simp, rfl, by simp⟩
  | cons ch text ih =>
    obtain ⟨d, hdigit, hlt, hrest⟩ := (decodeLoop_cons hlen hw).mp h
    obtain ⟨hd, hchar⟩ := digitOf_eq_some hdigit
    obtain ⟨hlen₁, hw₁, hval₁⟩ := mulAddLoop_spec hw (show d < 64 by omega)
    rw [((mulAddLoop_fits_iff hlen hw (show d < 64 by omega)).mpr hlt).1, Nat.mul_zero,
      Nat.add_zero] at hval₁
    rw [← hval₁] at hlt
    obtain ⟨hlen', hw', hlt', ds, hds, htext, hval⟩ := ih (hlen₁.trans hlen) hw₁ hlt hrest
    refine ⟨hlen'.trans hlen₁, hw', hlt', d :: ds, List.forall_mem_cons.mpr ⟨hd, hds⟩, ?_, ?_⟩
    · rw [List.map_cons, hchar, ← htext]
    · rw [hval, hval₁, List.reverse_cons, Nat.ofDigits_append, Nat.ofDigits_singleton,
        List.length_reverse, List.length_cons]
      ring

/-- The digits of a number that fits are all taken in. -/
theorem decodeLoop_spec {datalen : ℕ} {ds outi : List ℕ} (hlen : outi.length = (datalen + 3) / 4)
    (hw : ∀ w ∈ outi, w < 2 ^ 32) (hds : ∀ d ∈ ds, d < 58)
    (hlt : Nat.ofDigits (2 ^ 32) outi * 58 ^ ds.length + Nat.ofDigits 58 ds.reverse <
      256 ^ datalen) :
    ∃ outi', decodeLoop (zeromaskOf datalen) (ds.map digitChar) outi = some outi' := by
  induction ds generalizing outi with
  | nil => exact ⟨outi, rfl⟩
  | cons d ds ih =>
    obtain ⟨hd, hds'⟩ := List.forall_mem_cons.mp hds
    have hval : Nat.ofDigits (2 ^ 32) outi * 58 ^ (d :: ds).length +
        Nat.ofDigits 58 (d :: ds).reverse =
        (58 * Nat.ofDigits (2 ^ 32) outi + d) * 58 ^ ds.length + Nat.ofDigits 58 ds.reverse := by
      rw [List.reverse_cons, Nat.ofDigits_append, Nat.ofDigits_singleton, List.length_reverse,
        List.length_cons]
      ring
    rw [hval] at hlt
    have hsmall : 58 * Nat.ofDigits (2 ^ 32) outi + d < 256 ^ datalen := by
      have hpos : 0 < 58 ^ ds.length := by positivity
      calc 58 * Nat.ofDigits (2 ^ 32) outi + d
          ≤ (58 * Nat.ofDigits (2 ^ 32) outi + d) * 58 ^ ds.length :=
            Nat.le_mul_of_pos_right _ hpos
        _ < 256 ^ datalen := lt_of_le_of_lt (Nat.le_add_right _ _) hlt
    obtain ⟨hlen₁, hw₁, hval₁⟩ := mulAddLoop_spec hw (show d < 64 by omega)
    rw [((mulAddLoop_fits_iff hlen hw (show d < 64 by omega)).mpr hsmall).1, Nat.mul_zero,
      Nat.add_zero] at hval₁
    rw [← hval₁] at hlt
    obtain ⟨outi', hrun⟩ := ih (hlen₁.trans hlen) hw₁ hds' hlt
    exact ⟨outi', (decodeLoop_cons hlen hw).mpr ⟨d, digitOf_digitChar hd, hsmall, hrun⟩⟩

theorem length_words (outi : List ℕ) :
    ((outi.reverse.map (toBE 4)).flatten).length = 4 * outi.length := by
  induction outi with
  | nil => rfl
  | cons w outi ih =>
    rw [List.reverse_cons, List.map_append, List.flatten_append, List.length_append, ih]
    simp only [List.map_cons, List.map_nil, List.flatten_cons, List.flatten_nil, List.append_nil,
      length_toBE, List.length_cons]
    omega

theorem ofBE_words {outi : List ℕ} (hw : ∀ w ∈ outi, w < 2 ^ 32) :
    ofBE ((outi.reverse.map (toBE 4)).flatten) = Nat.ofDigits (2 ^ 32) outi := by
  induction outi with
  | nil => rfl
  | cons w outi ih =>
    have hw0 : w % 256 ^ 4 = w := Nat.mod_eq_of_lt (by simpa using hw w List.mem_cons_self)
    rw [List.reverse_cons, List.map_append, List.flatten_append, ofBE_append,
      ih (fun x hx => hw x (List.mem_cons_of_mem _ hx)), Nat.ofDigits_cons]
    simp only [List.map_cons, List.map_nil, List.flatten_cons, List.flatten_nil, List.append_nil,
      length_toBE, ofBE_toBE, hw0]
    ring

/-- The bytes that are written: the words without the unused top of the first one. -/
theorem writtenBytes_eq {outi : List ℕ} {datalen : ℕ} (hlen : outi.length = (datalen + 3) / 4)
    (hw : ∀ w ∈ outi, w < 2 ^ 32) (hv : Nat.ofDigits (2 ^ 32) outi < 256 ^ datalen) :
    (if datalen % 4 ≠ 0 then
        toBE (datalen % 4) (firstWord outi) ++ (outi.dropLast.reverse.map (toBE 4)).flatten
      else (outi.reverse.map (toBE 4)).flatten) =
      toBE datalen (Nat.ofDigits (2 ^ 32) outi) := by
  have huniq : ∀ bs : Bytes, bs.length = datalen → ofBE bs = Nat.ofDigits (2 ^ 32) outi →
      bs = toBE datalen (Nat.ofDigits (2 ^ 32) outi) := by
    intro bs hbs hval
    rw [← hval, ← hbs, toBE_ofBE]
  by_cases hr : datalen % 4 ≠ 0
  · rw [if_pos hr]
    have hfirst := firstWord_lt hlen hr hv
    rcases List.eq_nil_or_concat outi with rfl | ⟨init, w, rfl⟩
    · simp only [List.length_nil] at hlen
      omega
    · rw [List.concat_eq_append] at *
      rw [List.length_append, List.length_singleton] at hlen
      have hfw : firstWord (init ++ [w]) = w := by simp [firstWord]
      rw [hfw] at hfirst ⊢
      have hmod : w % 256 ^ (datalen % 4) = w := by
        refine Nat.mod_eq_of_lt ?_
        rw [show (256 : ℕ) = 2 ^ 8 from rfl, ← pow_mul, Nat.mul_comm 8]
        exact hfirst
      refine huniq _ ?_ ?_
      · rw [List.dropLast_concat, List.length_append, length_toBE, length_words]
        omega
      · rw [List.dropLast_concat, ofBE_append, ofBE_toBE, hmod, length_words,
          ofBE_words (fun x hx => hw x (List.mem_append_left _ hx)), Nat.ofDigits_append,
          Nat.ofDigits_singleton, show (2 : ℕ) ^ 32 = 256 ^ 4 from rfl, ← pow_mul]
        ring
  · rw [if_neg hr]
    refine huniq _ ?_ (ofBE_words hw)
    rw [length_words, hlen]
    omega

/-- Bytes behind their leading zeros are the base 256 digits of their number. -/
theorem length_digits_ofBE (bs : Bytes) :
    (Nat.digits 256 (ofBE bs)).length = bs.length - (bs.takeWhile (· = 0)).length := by
  induction bs with
  | nil => rfl
  | cons b bs ih =>
    by_cases hb : b = 0
    · have hval : ofBE (b :: bs) = ofBE bs := by
        rw [ofBE_cons, hb]
        simp
      rw [hval, ih, List.takeWhile_cons_of_pos (by simpa using hb), List.length_cons,
        List.length_cons, Nat.add_sub_add_right]
    · have hpos : 0 < b.toNat := by
        have hne : b.toNat ≠ 0 := fun h => hb (UInt8.toNat_inj.mp h)
        omega
      have hupper : (Nat.digits 256 (ofBE (b :: bs))).length ≤ bs.length + 1 :=
        (Nat.digits_length_le_iff (by norm_num) _).mpr (ofBE_lt (b :: bs))
      have hlower : bs.length < (Nat.digits 256 (ofBE (b :: bs))).length := by
        apply (Nat.lt_digits_length_iff (by norm_num) _).mpr
        rw [ofBE_cons]
        exact le_trans (Nat.le_mul_of_pos_left _ hpos) (Nat.le_add_right _ _)
      rw [List.takeWhile_cons_of_neg (by simpa using hb), List.length_cons, List.length_nil]
      omega

theorem base58Number_cons_one (text : Bytes) : base58Number (49 :: text) = base58Number text := by
  have hone : digitOf 49 = some 0 := by decide
  unfold base58Number
  rw [List.mapM_cons, hone]
  cases text.mapM digitOf with
  | none => rfl
  | some ds => simp [Nat.ofDigits_append]

theorem base58Number_drop_ones (text : Bytes) :
    base58Number (text.drop (text.takeWhile (· = 49)).length) = base58Number text := by
  induction text with
  | nil => rfl
  | cons ch text ih =>
    by_cases hch : ch = 49
    · rw [List.takeWhile_cons_of_pos (by simpa using hch), List.length_cons, List.drop_succ_cons, ih,
        hch, base58Number_cons_one]
    · rw [List.takeWhile_cons_of_neg (by simpa using hch)]
      rfl

/-- `base58_decode` in one equation: it takes the texts whose number fits the buffer, writes that
number right-aligned, and counts its bytes and the leading ones. -/
theorem base58Decode_eq (text : Bytes) (textlen datalen : ℕ) :
    base58Decode text textlen datalen = (base58Number (textRead text textlen)).bind (fun v =>
      if v < 256 ^ datalen then
        some (toBE datalen v, (Nat.digits 256 v).length +
          ((textRead text textlen).takeWhile (· = 49)).length % 2 ^ 32)
      else none) := by
  have hread : text.take (if textlen = 0 then strlen text else textlen) = textRead text textlen := rfl
  unfold base58Decode
  simp only [hread]
  generalize textRead text textlen = t
  rw [← base58Number_drop_ones t]
  generalize t.drop (t.takeWhile (· = 49)).length = rest
  have hlen : (List.replicate ((datalen + 3) / 4) 0).length = (datalen + 3) / 4 :=
    List.length_replicate
  have hzero : ∀ w ∈ List.replicate ((datalen + 3) / 4) 0, w < 2 ^ 32 :=
    fun w hw => by rw [List.eq_of_mem_replicate hw]; norm_num
  have hval : Nat.ofDigits (2 ^ 32) (List.replicate ((datalen + 3) / 4) 0) = 0 :=
    Nat.ofDigits_replicate_zero
  cases hrun : decodeLoop (zeromaskOf datalen) rest (List.replicate ((datalen + 3) / 4) 0) with
  | none =>
    rw [Option.map_none, eq_comm, Option.bind_eq_none_iff]
    intro v hv
    obtain ⟨ds, hds, rfl, rfl⟩ := base58Number_eq_some.mp hv
    by_contra hne
    have hlt : Nat.ofDigits 58 ds.reverse < 256 ^ datalen := by
      by_contra hge
      exact hne (if_neg hge)
    obtain ⟨outi, hsome⟩ := decodeLoop_spec hlen hzero hds (by rwa [hval, Nat.zero_mul, Nat.zero_add])
    rw [hrun] at hsome
    cases hsome
  | some outi =>
    obtain ⟨hlen', hw', hlt, ds, hds, htext, hsum⟩ :=
      decodeLoop_sound hlen hzero (by rw [hval]; positivity) hrun
    rw [hval, Nat.zero_mul, Nat.zero_add] at hsum
    have hnumber : base58Number rest = some (Nat.ofDigits (2 ^ 32) outi) :=
      base58Number_eq_some.mpr ⟨ds, hds, htext, hsum⟩
    have hbytes := writtenBytes_eq (hlen'.trans hlen) hw' hlt
    have hcount := length_digits_ofBE (toBE datalen (Nat.ofDigits (2 ^ 32) outi))
    rw [ofBE_toBE, Nat.mod_eq_of_lt hlt, length_toBE] at hcount
    rw [hnumber, Option.map_some, Option.bind_some, if_pos hlt, hcount]
    simp only [hbytes]

theorem digitChar_ne_one : ∀ d < 58, digitChar d = 49 → d = 0 := by
  decide

/-- The leading ones of the canonical text are its leading zero bytes. -/
theorem takeWhile_base58Text (data : Bytes) :
    ((base58Text data).takeWhile (· = 49)).length = (data.takeWhile (· = 0)).length := by
  have hdigits : ((Nat.digits 58 (ofBE data)).reverse.map digitChar).takeWhile (· = 49) = [] := by
    cases hD : (Nat.digits 58 (ofBE data)).reverse with
    | nil => rfl
    | cons d D =>
      rw [List.map_cons, List.takeWhile_cons_of_neg]
      have hne : ofBE data ≠ 0 := by
        intro h0
        simp [h0] at hD
      have hlast := Nat.getLast_digit_ne_zero 58 hne
      have hhead : (Nat.digits 58 (ofBE data)).getLast (Nat.digits_ne_nil_iff_ne_zero.mpr hne) = d := by
        rw [← List.head_reverse (by rw [hD]; exact List.cons_ne_nil _ _)]
        simp [hD]
      have hd58 : d < 58 := Nat.digits_lt_base (by norm_num)
        (by rw [← List.mem_reverse, hD]; exact List.mem_cons_self)
      rw [hhead] at hlast
      simpa using fun h => hlast (digitChar_ne_one d hd58 h)
  rw [base58Text, List.takeWhile_append_of_pos (by
    intro x hx
    simpa using List.eq_of_mem_replicate hx), hdigits, List.append_nil, List.length_replicate]

theorem base58Bytes_base58Text (data : Bytes) : base58Bytes (base58Text data) = some data := by
  have hsplit := List.takeWhile_append_dropWhile (p := (· = 0)) (l := data)
  set z := (data.takeWhile (· = 0)).length with hz
  have hzeros : data.takeWhile (· = 0) = List.replicate z 0 :=
    List.eq_replicate_of_mem (fun b hb => by simpa using List.mem_takeWhile_imp hb)
  have hnumber : base58Number (base58Text data) = some (ofBE data) := by
    apply base58Number_eq_some.mpr
    refine ⟨List.replicate z 0 ++ (Nat.digits 58 (ofBE data)).reverse, ?_, ?_, ?_⟩
    · intro d hd
      rcases List.mem_append.mp hd with hd | hd
      · rw [List.eq_of_mem_replicate hd]
        norm_num
      · exact Nat.digits_lt_base (by norm_num) (List.mem_reverse.mp hd)
    · rw [List.map_append, List.map_replicate]
      rfl
    · rw [List.reverse_append, List.reverse_reverse, List.reverse_replicate,
        Nat.ofDigits_append_replicate_zero, Nat.ofDigits_digits]
  have hrest : data.drop z = data.dropWhile (· = 0) := drop_length_takeWhile _ data
  have hlen : (Nat.digits 256 (ofBE data)).length = (data.drop z).length := by
    rw [length_digits_ofBE, List.length_drop]
  have hvalue : ofBE data = ofBE (data.drop z) := (ofBE_drop_zeros data).symm
  unfold base58Bytes
  rw [hnumber, Option.map_some, takeWhile_base58Text, ← hz, hlen, hvalue, toBE_ofBE, ← hzeros, hrest,
    hsplit]

theorem base58Text_base58Bytes {text data : Bytes} (h : base58Bytes text = some data) :
    base58Text data = text := by
  obtain ⟨v, hv, rfl⟩ := Option.map_eq_some_iff.mp h
  rw [← base58Number_drop_ones] at hv
  obtain ⟨ds, hds, hrest, hval⟩ := base58Number_eq_some.mp hv
  set z := (text.takeWhile (· = 49)).length with hz
  set n := (Nat.digits 256 v).length with hn
  have hfit : v % 256 ^ n = v :=
    Nat.mod_eq_of_lt (Nat.lt_base_pow_length_digits (by norm_num))
  -- the digits of the number start with a digit that is not zero, in base 256 and in base 58
  have htop : ((toBE n v).takeWhile (· = 0)).length = 0 := by
    have hcount := length_digits_ofBE (toBE n v)
    have hle : ((toBE n v).takeWhile (· = 0)).length ≤ (toBE n v).length :=
      (List.takeWhile_sublist _).length_le
    rw [ofBE_toBE, hfit, ← hn, length_toBE] at hcount
    rw [length_toBE] at hle
    omega
  have hzeros : ((List.replicate z 0 ++ toBE n v).takeWhile (· = 0)).length = z := by
    rw [List.takeWhile_append_of_pos (fun b hb => by simp [List.eq_of_mem_replicate hb]),
      List.length_append, htop, List.length_replicate, Nat.add_zero]
  have hvalue : ofBE (List.replicate z 0 ++ toBE n v) = v := by
    have hdrop := ofBE_drop_zeros (List.replicate z 0 ++ toBE n v)
    rw [hzeros, List.drop_left' List.length_replicate, ofBE_toBE, hfit] at hdrop
    exact hdrop.symm
  have hdigits : Nat.digits 58 v = ds.reverse := by
    rw [hval]
    apply Nat.digits_ofDigits 58 (by norm_num)
    · intro d hd
      exact hds d (List.mem_reverse.mp hd)
    · intro hne
      have hhead := List.head?_dropWhile_not (· = 49) text
      rw [← drop_length_takeWhile, ← hz, hrest, List.head?_map] at hhead
      rw [List.getLast_reverse]
      intro h0
      rw [List.head?_eq_some_head (by simpa using hne), h0] at hhead
      simp [show digitChar 0 = 49 by decide] at hhead
  have hones : text.takeWhile (· = 49) = List.replicate z 49 :=
    List.eq_replicate_of_mem (fun b hb => by simpa using List.mem_takeWhile_imp hb)
  have htail : text.dropWhile (· = 49) = ds.map digitChar := by
    rw [← hrest, hz, drop_length_takeWhile]
  rw [base58Text, hzeros, hvalue, hdigits, List.reverse_reverse, ← hones, ← htail,
    List.takeWhile_append_dropWhile]

/-- Every text stands for at most one byte string, and every byte string has one text. -/
theorem base58Bytes_eq_some_iff {text data : Bytes} :
    base58Bytes text = some data ↔ text = base58Text data := by
  constructor
  · intro h
    exact (base58Text_base58Bytes h).symm
  · rintro rfl
    exact base58Bytes_base58Text data

/-- `base58_decode` by the bytes that its text stands for. -/
theorem base58Decode_bytes (text : Bytes) (textlen datalen : ℕ) :
    base58Decode text textlen datalen = (base58Bytes (textRead text textlen)).bind (fun bytes =>
      let zeros := (bytes.takeWhile (· = 0)).length
      if ofBE bytes < 256 ^ datalen then
        some (toBE datalen (ofBE bytes), bytes.length - zeros + zeros % 2 ^ 32)
      else none) := by
  rw [base58Decode_eq]
  cases hbytes : base58Bytes (textRead text textlen) with
  | none =>
    rw [Option.map_eq_none_iff.mp hbytes]
    rfl
  | some bytes =>
    obtain ⟨v, hv, hdef⟩ := Option.map_eq_some_iff.mp hbytes
    have htext := base58Bytes_eq_some_iff.mp hbytes
    have hvalue : ofBE bytes = v := by
      rw [← hdef, ofBE_append]
      have hzero : ofBE (List.replicate ((textRead text textlen).takeWhile (· = 49)).length 0) = 0 := by
        rw [← ofBE_drop_zeros, List.takeWhile_replicate]
        simp
      rw [hzero, ofBE_toBE, Nat.mod_eq_of_lt (Nat.lt_base_pow_length_digits (by norm_num))]
      simp
    have hones : ((textRead text textlen).takeWhile (· = 49)).length =
        (bytes.takeWhile (· = 0)).length := by
      rw [htext, takeWhile_base58Text]
    simp only [hv, Option.bind_some, hvalue, hones, ← length_digits_ofBE bytes]

section Claims

variable {text bytes : Bytes} {textlen datalen : ℕ}

theorem toBE_zero (n : ℕ) : toBE n 0 = List.replicate n 0 := by
  induction n with
  | zero => rfl
  | succ n ih =>
    rw [toBE, Nat.zero_div, ih, List.replicate_succ']
    rfl

/-- The buffer begins with the bytes of the text only if they fill it, or are all zero. -/
theorem take_toBE_eq_iff (hle : bytes.length ≤ datalen) :
    (toBE datalen (ofBE bytes)).take bytes.length = bytes ↔
      bytes.length = datalen ∨ ofBE bytes = 0 := by
  constructor
  · intro htake
    by_contra hne
    rw [not_or] at hne
    set data := toBE datalen (ofBE bytes) with hdata
    have hval : ofBE data = ofBE bytes * 256 ^ (datalen - bytes.length) +
        ofBE (data.drop bytes.length) := by
      conv_lhs => rw [← List.take_append_drop bytes.length data]
      rw [ofBE_append, htake, List.length_drop, hdata, length_toBE]
    have hmod : ofBE data ≤ ofBE bytes := by
      rw [hdata, ofBE_toBE]
      exact Nat.mod_le _ _
    have hpow : 256 ≤ 256 ^ (datalen - bytes.length) := Nat.le_self_pow (by omega) 256
    have hpos : 0 < ofBE bytes := Nat.pos_of_ne_zero hne.2
    have hscaled := Nat.mul_le_mul_left (ofBE bytes) hpow
    omega
  · rintro (hlen | hzero)
    · rw [← hlen, toBE_ofBE, List.take_length]
    · have hbytes := toBE_ofBE bytes
      rw [hzero, toBE_zero] at hbytes
      rw [hzero, toBE_zero, List.take_replicate, min_eq_left hle, hbytes]

/-- What is returned is the number of bytes written first exactly for the texts whose bytes are as
many as the buffer has, or all zero and no more. -/
theorem base58Decode_reports_iff (text : Bytes) (textlen datalen : ℕ) :
    (∀ data r, base58Decode text textlen datalen = some (data, r) →
        r ≤ datalen ∧ base58Bytes (textRead text textlen) = some (data.take r)) ↔
      ∀ bytes, base58Bytes (textRead text textlen) = some bytes → ofBE bytes < 256 ^ datalen →
        (bytes.takeWhile (· = 0)).length < 2 ^ 32 ∧
          (bytes.length = datalen ∨ ofBE bytes = 0 ∧ bytes.length ≤ datalen) := by
  rw [base58Decode_bytes]
  cases base58Bytes (textRead text textlen) with
  | none => simp
  | some bytes =>
    have hle : (bytes.takeWhile (· = 0)).length ≤ bytes.length :=
      (List.takeWhile_sublist _).length_le
    have hmod : (bytes.takeWhile (· = 0)).length % 2 ^ 32 ≤ (bytes.takeWhile (· = 0)).length :=
      Nat.mod_le _ _
    simp only [Option.bind_some, Option.some.injEq, forall_eq']
    by_cases hfits : ofBE bytes < 256 ^ datalen
    · simp only [hfits, if_true, Option.some.injEq, Prod.mk.injEq, and_imp, true_imp_iff]
      set z := (bytes.takeWhile (· = 0)).length with hz
      constructor
      · intro h
        obtain ⟨hr, htake⟩ := h _ _ rfl rfl
        have hlen : bytes.length = bytes.length - z + z % 2 ^ 32 := by
          conv_lhs => rw [htake, List.length_take, length_toBE, min_eq_left hr]
        rw [← hlen] at hr htake
        rcases (take_toBE_eq_iff hr).mp htake.symm with hfull | hzero
        · exact ⟨by omega, .inl hfull⟩
        · exact ⟨by omega, .inr ⟨hzero, hr⟩⟩
      · rintro ⟨hsmall, hcase⟩ data r rfl rfl
        have hlen : bytes.length - z + z % 2 ^ 32 = bytes.length := by
          rw [Nat.mod_eq_of_lt hsmall]
          omega
        rw [hlen]
        have hr : bytes.length ≤ datalen := by
          rcases hcase with hfull | ⟨-, hr⟩
          · exact hfull.le
          · exact hr
        exact ⟨hr, ((take_toBE_eq_iff hr).mpr (hcase.imp id And.left)).symm⟩
    · simp [hfits]

/-- Two ones do not fit one byte, but two is returned. -/
theorem base58Decode_ones_not_reported :
    ¬∀ data r, base58Decode [49, 49] 2 1 = some (data, r) →
      r ≤ 1 ∧ base58Bytes (textRead [49, 49] 2) = some (data.take r) := by
  intro h
  have hdecode : base58Decode [49, 49] 2 1 = some ([0], 2) := by decide
  exact absurd (h [0] 2 hdecode).1 (by decide)

theorem base58Text_ne_nil {data : Bytes} (h : data ≠ []) : base58Text data ≠ [] := by
  intro hnil
  obtain ⟨hz, hD⟩ := List.append_eq_nil_iff.mp hnil
  have hv : ofBE data = 0 := by
    by_contra hne
    exact Nat.digits_ne_nil_iff_ne_zero.mpr hne (by simpa using hD)
  cases data with
  | nil => exact h rfl
  | cons b bs =>
    rw [ofBE_cons] at hv
    have hb : b.toNat = 0 := by
      have hpos : 0 < 256 ^ bs.length := by positivity
      have : b.toNat * 256 ^ bs.length = 0 := by omega
      simpa [hpos.ne'] using this
    have hb0 : b = 0 := by simpa using congrArg UInt8.ofNat hb
    simp [hb0] at hz

theorem textRead_base58Text {data : Bytes} (h : data ≠ []) (rest : Bytes) :
    textRead (base58Text data ++ rest) (base58Text data).length = base58Text data := by
  have htext : (base58Text data).length ≠ 0 := by
    simpa using base58Text_ne_nil h
  rw [textRead, if_neg htext, List.take_left]

/-- Decoding into a buffer of the right size gives the bytes back, whatever follows the text, but
counts the leading ones modulo 2^32. -/
theorem base58Decode_base58Text {data : Bytes} (h : data ≠ []) (rest : Bytes) :
    base58Decode (base58Text data ++ rest) (base58Text data).length data.length =
      some (data, data.length - (data.takeWhile (· = 0)).length +
        (data.takeWhile (· = 0)).length % 2 ^ 32) := by
  rw [base58Decode_bytes, textRead_base58Text h, base58Bytes_base58Text, Option.bind_some,
    if_pos (ofBE_lt data), toBE_ofBE]

/-- Encoding and decoding again gives the bytes back, unless there are 2^32 leading zeros. -/
theorem base58Decode_base58EncodeTo_iff {data buf text : Bytes} {textlen n : ℕ} (h : data ≠ [])
    (hencode : base58EncodeTo data buf textlen = some ⟨true, text, n⟩) :
    base58Decode text (n - 1) data.length = some (data, data.length) ↔
      (data.takeWhile (· = 0)).length < 2 ^ 32 := by
  have hle : (data.takeWhile (· = 0)).length ≤ data.length := (List.takeWhile_sublist _).length_le
  rw [base58EncodeTo_cases] at hencode
  split_ifs at hencode
  · cases hencode
    rw [Nat.add_sub_cancel, base58Decode_base58Text h]
    simp only [Option.some.injEq, Prod.mk.injEq, true_and]
    omega
  · simp at hencode

/-- Three bytes, one of them a leading zero. -/
theorem base58Decode_base58EncodeTo_three :
    base58Decode [49, 53, 84, 0] 3 3 = some ([0, 1, 2], 3) :=
  (@base58Decode_base58EncodeTo_iff [0, 1, 2] [7, 7, 7, 7] [49, 53, 84, 0] 4 4 (by decide)
    (by decide)).mpr (by decide)

theorem base58Text_zeros (n : ℕ) : base58Text (List.replicate n 0) = List.replicate n 49 := by
  have hzero : ofBE (List.replicate n 0) = 0 := by
    rw [← ofBE_drop_zeros, List.takeWhile_replicate]
    simp
  rw [base58Text, hzero, List.takeWhile_replicate]
  simp

theorem base58Decode_zeros {n : ℕ} (h : n ≠ 0) :
    base58EncodeTo (List.replicate n 0) (List.replicate (n + 1) 0) (n + 1) =
        some ⟨true, List.replicate n 49 ++ [0], n + 1⟩ ∧
      base58Decode (List.replicate n 49 ++ [0]) n n = some (List.replicate n 0, n % 2 ^ 32) := by
  have htext := base58Text_zeros n
  have hlen : (base58Text (List.replicate n 0)).length = n := by
    rw [htext, List.length_replicate]
  have hne : List.replicate n (0 : UInt8) ≠ [] := by
    rwa [Ne, List.replicate_eq_nil_iff]
  constructor
  · rw [base58EncodeTo_cases, hlen, if_pos (Nat.lt_succ_self _), List.length_replicate,
      if_neg (lt_irrefl _), htext, List.drop_replicate, Nat.sub_self, List.replicate_zero]
  · have hdecode := base58Decode_base58Text hne [0]
    rw [hlen, htext, List.length_replicate, List.takeWhile_replicate] at hdecode
    simpa using hdecode

/-- For 2^32 zero bytes the count of the ones is 0 again. -/
theorem base58Decode_zeros_wrap :
    base58EncodeTo (List.replicate (2 ^ 32) 0) (List.replicate (2 ^ 32 + 1) 0) (2 ^ 32 + 1) =
        some ⟨true, List.replicate (2 ^ 32) 49 ++ [0], 2 ^ 32 + 1⟩ ∧
      base58Decode (List.replicate (2 ^ 32) 49 ++ [0]) (2 ^ 32) (2 ^ 32) =
        some (List.replicate (2 ^ 32) 0, 0) := by
  have hzeros := base58Decode_zeros (n := 2 ^ 32) (Nat.two_pow_pos 32).ne'
  rw [Nat.mod_self] at hzeros
  exact hzeros

end Claims

end Carrier.Common
