import Mathlib.Data.List.Basic
import Mathlib.Tactic

/-! Byte strings: fixed-width integers in both byte orders, C strings, and copies into a
buffer at a position. -/
namespace Carrier.Lib

abbrev Bytes := List UInt8

/-- The `n` low-order bytes of `v`, most significant first. -/
def toBE : ℕ → ℕ → Bytes
  | 0, _ => []
  | n + 1, v => toBE n (v / 256) ++ [UInt8.ofNat (v % 256)]

def ofBE (bs : Bytes) : ℕ := bs.foldl (fun acc b => acc * 256 + b.toNat) 0

def toLE (n v : ℕ) : Bytes := (toBE n v).reverse

def ofLE (bs : Bytes) : ℕ := ofBE bs.reverse

@[simp] theorem length_toBE (n v : ℕ) : (toBE n v).length = n := by
  induction n generalizing v with
  | zero => rfl
  | succ n ih => simp [toBE, ih]

@[simp] theorem length_toLE (n v : ℕ) : (toLE n v).length = n := by simp [toLE]

@[simp] theorem ofBE_nil : ofBE [] = 0 := rfl

theorem ofBE_append_singleton (bs : Bytes) (b : UInt8) :
    ofBE (bs ++ [b]) = ofBE bs * 256 + b.toNat := by
  simp [ofBE, List.foldl_append]

theorem ofBE_lt (bs : Bytes) : ofBE bs < 256 ^ bs.length := by
  induction bs using List.reverseRecOn with
  | nil => simp
  | append_singleton bs b ih =>
    rw [ofBE_append_singleton, List.length_append, List.length_singleton, pow_succ]
    have := b.toNat_lt
    omega

theorem ofBE_append (as bs : Bytes) : ofBE (as ++ bs) = ofBE as * 256 ^ bs.length + ofBE bs := by
  induction bs using List.reverseRecOn with
  | nil => simp
  | append_singleton bs b ih =>
    rw [← List.append_assoc, ofBE_append_singleton, ofBE_append_singleton, ih, List.length_append,
      List.length_singleton, pow_succ]
    ring

@[simp] theorem ofBE_toBE (n v : ℕ) : ofBE (toBE n v) = v % 256 ^ n := by
  induction n generalizing v with
  | zero => simp [toBE, Nat.mod_one]
  | succ n ih =>
    have hb : (UInt8.ofNat (v % 256)).toNat = v % 256 := by simp
    rw [toBE, ofBE_append_singleton, ih, hb, pow_succ', Nat.mod_mul]
    ring

@[simp] theorem toBE_ofBE (bs : Bytes) : toBE bs.length (ofBE bs) = bs := by
  induction bs using List.reverseRecOn with
  | nil => rfl
  | append_singleton bs b ih =>
    have hb := b.toNat_lt
    rw [List.length_append, List.length_singleton, toBE, ofBE_append_singleton,
      show (ofBE bs * 256 + b.toNat) / 256 = ofBE bs by omega,
      show (ofBE bs * 256 + b.toNat) % 256 = b.toNat by omega, ih]
    simp

@[simp] theorem ofLE_toLE (n v : ℕ) : ofLE (toLE n v) = v % 256 ^ n := by simp [ofLE, toLE]

def subSize (a b : ℕ) : ℕ := (a + 2 ^ 64 - b % 2 ^ 64) % 2 ^ 64

theorem subSize_of_le {a b : ℕ} (h : b ≤ a) (ha : a < 2 ^ 64) : subSize a b = a - b := by
  unfold subSize
  omega

/-- `len` bytes of a buffer from position `pos`. -/
def readAt (buf : Bytes) (pos len : ℕ) : Bytes := (buf.drop pos).take len

theorem readAt_append_right {a : Bytes} {pos : ℕ} (h : a.length ≤ pos) (b : Bytes) (len : ℕ) :
    readAt (a ++ b) pos len = readAt b (pos - a.length) len := by
  rw [readAt, readAt, List.drop_append, List.drop_eq_nil_iff.mpr h, List.nil_append]

theorem readAt_append_left {a : Bytes} {len : ℕ} (h : a.length = len) (b : Bytes) :
    readAt (a ++ b) 0 len = a := by
  rw [readAt, List.drop_zero, ← h, List.take_left]

/-- A beginning of a byte string reads like the whole, as far as it reaches. -/
theorem readAt_of_isPrefix {p f : Bytes} (h : p <+: f) {pos len : ℕ} (hlen : pos + len ≤ p.length) :
    readAt p pos len = readAt f pos len := by
  obtain ⟨q, rfl⟩ := h
  rw [readAt, readAt, List.drop_append_of_le_length (by omega),
    List.take_append_of_le_length (by rw [List.length_drop]; omega)]

theorem getElem?_readAt (a : Bytes) (pos len i : ℕ) :
    (readAt a pos len)[i]? = if i < len then a[pos + i]? else none := by
  rw [readAt, List.getElem?_take, List.getElem?_drop]

/-- Two arrays read alike exactly if their bytes do. -/
theorem readAt_eq_iff {a b : Bytes} {pos pos' len : ℕ} :
    readAt a pos len = readAt b pos' len ↔ ∀ i < len, a[pos + i]? = b[pos' + i]? := by
  constructor
  · intro h i hi
    have hi' := congrArg (·[i]?) h
    simp only [getElem?_readAt, if_pos hi] at hi'
    exact hi'
  · intro h
    apply List.ext_getElem?
    intro i
    rw [getElem?_readAt, getElem?_readAt]
    split_ifs with hi
    · exact h i hi
    · rfl

/-- A copy of `src` into a buffer at position `pos`; the buffer keeps its length. -/
def writeAt (buf : Bytes) (pos : ℕ) (src : Bytes) : Bytes :=
  buf.take pos ++ src ++ buf.drop (pos + src.length)

theorem length_writeAt (buf : Bytes) (pos : ℕ) (src : Bytes)
    (h : pos + src.length ≤ buf.length) : (writeAt buf pos src).length = buf.length := by
  simp only [writeAt, List.length_append, List.length_take, List.length_drop]
  omega

/-- Bytes before and within a copy: the old ones up to `pos`, then the copied ones. -/
theorem take_writeAt (buf : Bytes) (pos : ℕ) (src : Bytes) (hp : pos ≤ buf.length) :
    (writeAt buf pos src).take (pos + src.length) = buf.take pos ++ src := by
  have hlen : (buf.take pos ++ src).length = pos + src.length := by
    simp only [List.length_append, List.length_take]
    omega
  rw [writeAt, ← hlen, List.take_left]

/-- The bytes after a copy to the start. -/
theorem getElem?_writeAt_zero (buf src : Bytes) (j : ℕ) :
    (writeAt buf 0 src)[j]? = if j < src.length then src[j]? else buf[j]? := by
  rw [writeAt, List.take_zero, List.nil_append, Nat.zero_add, List.getElem?_append]
  split_ifs with hj
  · rfl
  · rw [List.getElem?_drop]
    congr 1
    omega

/-- What has been copied to a position is there. -/
theorem readAt_writeAt {buf : Bytes} {pos : ℕ} (hp : pos ≤ buf.length) (src : Bytes) :
    readAt (writeAt buf pos src) pos src.length = src := by
  have hlen : (buf.take pos).length = pos := by
    rw [List.length_take]
    omega
  have htake := take_writeAt buf pos src hp
  rw [readAt, ← Nat.add_sub_cancel_left (n := pos) (m := src.length), ← List.drop_take, htake,
    List.drop_left' hlen]

/-- A copy right behind a known beginning. -/
theorem writeAt_append (pre rest src : Bytes) :
    writeAt (pre ++ rest) pre.length src = pre ++ src ++ rest.drop src.length := by
  rw [writeAt, List.take_left, List.drop_append, List.drop_eq_nil_iff.mpr (by omega),
    Nat.add_sub_cancel_left, List.nil_append]

theorem writeAt_append_right {a : Bytes} {pos : ℕ} (h : a.length ≤ pos) (b src : Bytes) :
    writeAt (a ++ b) pos src = a ++ writeAt b (pos - a.length) src := by
  rw [writeAt, writeAt, List.take_append, List.take_of_length_le h, List.drop_append,
    List.drop_eq_nil_iff.mpr (by omega), List.nil_append,
    show pos + src.length - a.length = pos - a.length + src.length by omega]
  simp only [List.append_assoc]

theorem writeAt_append_left {a src : Bytes} (h : src.length ≤ a.length) (b : Bytes) :
    writeAt (a ++ b) 0 src = src ++ (a.drop src.length ++ b) := by
  simp [writeAt, List.drop_append_of_le_length h]

/-- A copy over a piece of the same length. -/
theorem writeAt_middle {pos : ℕ} {a b src : Bytes} (hp : a.length = pos)
    (hs : src.length = b.length) (c : Bytes) :
    writeAt (a ++ (b ++ c)) pos src = a ++ (src ++ c) := by
  rw [writeAt_append_right hp.le, hp, Nat.sub_self, writeAt_append_left hs.le, hs, List.drop_length,
    List.nil_append]

/-- A copy that ends within the first part leaves the second. -/
theorem writeAt_append_of_le {a src : Bytes} {pos : ℕ} (h : pos + src.length ≤ a.length)
    (b : Bytes) : writeAt (a ++ b) pos src = writeAt a pos src ++ b := by
  rw [writeAt, writeAt, List.take_append_of_le_length (by omega),
    List.drop_append_of_le_length h, List.append_assoc _ _ b]

theorem drop_length_takeWhile {α : Type*} (p : α → Bool) (l : List α) :
    l.drop (l.takeWhile p).length = l.dropWhile p := by
  induction l with
  | nil => rfl
  | cons a l ih =>
    by_cases ha : p a
    · rw [List.takeWhile_cons_of_pos ha, List.dropWhile_cons_of_pos ha, ← ih]
      rfl
    · rw [List.takeWhile_cons_of_neg ha, List.dropWhile_cons_of_neg ha]
      rfl

/-- Length of the C string at the head of a byte string. -/
def strlen (bs : Bytes) : ℕ := (bs.takeWhile (· ≠ 0)).length

/-- A byte string without NUL, as the contents of a C string. -/
def NoNul (bs : Bytes) : Prop := ∀ b ∈ bs, b ≠ 0

instance (bs : Bytes) : Decidable (NoNul bs) := List.decidableBAll (fun b => b ≠ 0) bs

theorem takeWhile_cstr {s : Bytes} (hs : NoNul s) (rest : Bytes) :
    (s ++ 0 :: rest).takeWhile (· ≠ 0) = s := by
  rw [List.takeWhile_append_of_pos (fun b hb => by simpa using hs b hb)]
  simp

theorem strlen_cstr {s : Bytes} (hs : NoNul s) (rest : Bytes) :
    strlen (s ++ 0 :: rest) = s.length := by
  rw [strlen, takeWhile_cstr hs]

/-- `strcmp` on the memory from two addresses on; behind it the memory is zero. -/
def strcmp : Bytes → Bytes → ℤ
  | [], [] => 0
  | [], y :: _ => -y.toNat
  | x :: _, [] => x.toNat
  | x :: xs, y :: ys => if x = y then (if x = 0 then 0 else strcmp xs ys) else x.toNat - y.toNat

theorem strcmp_eq_zero_iff (xs ys : Bytes) :
    strcmp xs ys = 0 ↔ xs.takeWhile (· ≠ 0) = ys.takeWhile (· ≠ 0) := by
  fun_induction strcmp xs ys with
  | case1 => simp
  | case2 y ys =>
    by_cases hy : y = 0
    · simp [hy]
    · have hpos : y.toNat ≠ 0 := by simpa [← UInt8.toNat_inj] using hy
      simp [hy, hpos]
  | case3 x xs =>
    by_cases hx : x = 0
    · simp [hx]
    · have hpos : x.toNat ≠ 0 := by simpa [← UInt8.toNat_inj] using hx
      simp [hx, hpos]
  | case4 xs ys => simp
  | case5 xs y ys hy ih => simp [hy, ih]
  | case6 x xs y ys hne =>
    have hdiff : (x.toNat : ℤ) - y.toNat ≠ 0 := by
      rw [← UInt8.toNat_inj] at hne
      omega
    simp only [hdiff, false_iff, List.takeWhile_cons]
    split <;> split <;> simp_all

/-- `memcmp` of `n` bytes. Of its result the standard fixes the sign. -/
def memcmp : Bytes → Bytes → ℕ → ℤ
  | x :: xs, y :: ys, n + 1 => if x = y then memcmp xs ys n else x.toNat - y.toNat
  | _, _, _ => 0

theorem memcmp_eq_zero_iff {xs ys : Bytes} {n : ℕ} (hx : n ≤ xs.length) (hy : n ≤ ys.length) :
    memcmp xs ys n = 0 ↔ xs.take n = ys.take n := by
  induction n generalizing xs ys with
  | zero => simp [memcmp]
  | succ n ih =>
    cases xs with
    | nil => simp at hx
    | cons x xs =>
      cases ys with
      | nil => simp at hy
      | cons y ys =>
        rw [List.length_cons] at hx hy
        by_cases h : x = y
        · have hrest := ih (Nat.le_of_succ_le_succ hx) (Nat.le_of_succ_le_succ hy)
          simp [memcmp, h, hrest]
        · have hdiff : (x.toNat : ℤ) - y.toNat ≠ 0 := by
            rw [← UInt8.toNat_inj] at h
            omega
          simp [memcmp, h, hdiff]

end Carrier.Lib
