import Carrier.Lib.Bytes

/-! The parts of formatted input and output the program uses: `sscanf` with `%Ns`, `%d` and
literals, and decimal output. -/
namespace Carrier.Lib

def ascii (s : String) : Bytes := s.toList.map (fun c => c.toNat.toUInt8)

/-- `%u` -/
def decimal (n : ℕ) : Bytes := (Nat.toDigits 10 n).map (fun c => c.toNat.toUInt8)

def isSpace (b : UInt8) : Bool := b = 32 || (9 ≤ b && b ≤ 13)

def isDigit (b : UInt8) : Bool := 48 ≤ b && b ≤ 57

/-- A directive, with the white space before it. -/
inductive Conv where
  | str (width : ℕ)
  | int
  | lit (s : Bytes)

inductive ScanArg where
  | str (s : Bytes)
  | int (z : ℤ)
  deriving DecidableEq

/-- `%d` on input without leading white space, and what is left of it. A number that an `int` does not
hold, which is undefined there, is read as it is. -/
def scanInt (input : Bytes) : Option (ℤ × Bytes) :=
  let (sign, rest) : ℤ × Bytes := match input with
    | 45 :: rest => (-1, rest)
    | 43 :: rest => (1, rest)
    | _ => (1, input)
  let digits := rest.takeWhile isDigit
  if digits = [] then none
  else some (sign * digits.foldl (fun n d => n * 10 + (d.toNat - 48 : ℕ)) 0,
    rest.drop digits.length)

/-- The arguments `sscanf` assigns, in order, up to the first directive that fails. -/
def sscanf : List Conv → Bytes → List ScanArg
  | [], _ => []
  | .str width :: format, input =>
    let input := input.dropWhile isSpace
    let token := (input.takeWhile (fun b => !isSpace b)).take width
    if token = [] then [] else .str token :: sscanf format (input.drop token.length)
  | .int :: format, input =>
    match scanInt (input.dropWhile isSpace) with
    | none => []
    | some (z, rest) => .int z :: sscanf format rest
  | .lit s :: format, input =>
    let input := input.dropWhile isSpace
    if s.isPrefixOf input then sscanf format (input.drop s.length) else []

def atoi (input : Bytes) : ℤ :=
  match scanInt (input.dropWhile isSpace) with
  | none => 0
  | some (z, _) => z

/-- A text that `%Ns` can take as a whole. -/
structure Word (token : Bytes) : Prop where
  ne_nil : token ≠ []
  noSpace : ∀ b ∈ token, isSpace b = false

theorem word_iff (token : Bytes) : Word token ↔ token.isEmpty = false ∧ token.any isSpace = false := by
  rw [List.isEmpty_eq_false_iff, List.any_eq_false]
  simp only [Bool.not_eq_true]
  exact ⟨fun h => ⟨h.ne_nil, h.noSpace⟩, fun h => ⟨h.1, h.2⟩⟩

instance (token : Bytes) : Decidable (Word token) := decidable_of_iff _ (word_iff token).symm

/-- Nothing, or white space. -/
def Break (rest : Bytes) : Prop := ∀ b ∈ rest.head?, isSpace b = true

instance (rest : Bytes) : Decidable (Break rest) :=
  decidable_of_iff (rest.head?.all isSpace = true) (by simp [Break, Option.all_eq_true])

section

variable {format : List Conv} {token rest : Bytes}

/-- No word is the beginning of blanks. -/
theorem Word.not_prefix_blanks (h : Word token) (n : ℕ) :
    ¬token <+: List.replicate n 32 := by
  intro hbegins
  obtain ⟨b, rest, rfl⟩ := List.exists_cons_of_ne_nil h.ne_nil
  have hb := List.eq_of_mem_replicate (hbegins.subset List.mem_cons_self)
  have hspace := h.noSpace b List.mem_cons_self
  rw [hb] at hspace
  cases hspace

@[simp] theorem break_space (rest : Bytes) : Break (32 :: rest) := by
  simp [Break, isSpace]

theorem isDigit_of_space (b : UInt8) (hb : isSpace b = true) : isDigit b = false := by
  unfold isSpace isDigit at *
  grind

theorem isSpace_of_digit {b : UInt8} (hb : isDigit b = true) : isSpace b = false := by
  by_contra hspace
  rw [isDigit_of_space b (by simpa using hspace)] at hb
  cases hb

/-- A digit is the same as a byte and as a character. -/
theorem toNat_digit {c : Char} (h : c.isDigit = true) :
    c.toNat.toUInt8.toNat = c.toNat ∧ 48 ≤ c.toNat ∧ c.toNat ≤ 57 := by
  have hrange : 48 ≤ c.toNat ∧ c.toNat ≤ 57 := by
    simpa [Char.isDigit, UInt32.le_iff_toNat_le] using h
  constructor
  · rw [Nat.toUInt8, UInt8.toNat_ofNat']
    omega
  · exact hrange

theorem isDigit_decimal (n : ℕ) : ∀ b ∈ decimal n, isDigit b = true := by
  intro b hb
  obtain ⟨c, hc, rfl⟩ := List.mem_map.mp hb
  obtain ⟨hbyte, hlow, hhigh⟩ := toNat_digit (Nat.isDigit_of_mem_toDigits (by decide) (by decide) hc)
  simp [isDigit, UInt8.le_iff_toNat_le, hbyte, hlow, hhigh]

theorem decimal_ne_nil (n : ℕ) : decimal n ≠ [] := by
  simp [decimal]

theorem word_decimal (n : ℕ) : Word (decimal n) :=
  ⟨decimal_ne_nil n, fun b hb => isSpace_of_digit (isDigit_decimal n b hb)⟩

theorem takeWhile_append_stop {p : UInt8 → Bool} (htoken : ∀ b ∈ token, p b = true)
    (hrest : ∀ b ∈ rest.head?, p b = false) : (token ++ rest).takeWhile p = token := by
  rw [List.takeWhile_append_of_pos htoken]
  cases rest with
  | nil => simp
  | cons b rest => simp [hrest b rfl]

/-- The value that `%d` makes of digits, in one pass from the left. -/
theorem foldl_digits (digits : List Char) (h : ∀ c ∈ digits, c.isDigit = true) (n : ℕ) :
    (digits.map (fun c => c.toNat.toUInt8)).foldl (fun n d => n * 10 + (d.toNat - 48)) n =
      Nat.ofDigitChars 10 digits n := by
  induction digits generalizing n with
  | nil => simp
  | cons c digits ih =>
    have hbyte : c.toNat.toUInt8.toNat = c.toNat := (toNat_digit (h c List.mem_cons_self)).1
    rw [List.map_cons, List.foldl_cons, hbyte, ih (fun c hc => h c (List.mem_cons_of_mem _ hc)),
      Nat.ofDigitChars_cons, Nat.mul_comm]
    rfl

theorem scanInt_decimal (n : ℕ) (hrest : ∀ b ∈ rest.head?, isDigit b = false) :
    scanInt (decimal n ++ rest) = some ((n : ℤ), rest) := by
  have hvalue : (decimal n).foldl (fun n d => n * 10 + (d.toNat - 48)) 0 = n := by
    have hfold := foldl_digits (Nat.toDigits 10 n)
      (fun c hc => Nat.isDigit_of_mem_toDigits (by decide) (by decide) hc) 0
    rwa [Nat.ofDigitChars_ten_toDigits] at hfold
  have hstop := takeWhile_append_stop (isDigit_decimal n) hrest
  -- a digit is no sign
  have hsign : (match decimal n ++ rest with
      | 45 :: rest => ((-1 : ℤ), rest)
      | 43 :: rest => (1, rest)
      | _ => (1, decimal n ++ rest)) = (1, decimal n ++ rest) := by
    obtain ⟨d, ds, hd⟩ := List.exists_cons_of_ne_nil (decimal_ne_nil n)
    have hdigit := isDigit_decimal n d (hd ▸ List.mem_cons_self)
    rw [hd]
    split
    · next heq =>
      cases heq
      cases hdigit
    · next heq =>
      cases heq
      cases hdigit
    · rfl
  unfold scanInt
  dsimp only
  rw [hsign]
  dsimp only
  rw [hstop, if_neg (decimal_ne_nil n), hvalue, one_mul, List.drop_left]

/-- White space in front of a directive is skipped. -/
theorem sscanf_space (conv : Conv) (input : Bytes) :
    sscanf (conv :: format) (32 :: input) = sscanf (conv :: format) input := by
  have hspace : (32 :: input).dropWhile isSpace = input.dropWhile isSpace := rfl
  cases conv <;> rw [sscanf, sscanf, hspace]

theorem dropWhile_word (h : Word token) (rest : Bytes) :
    (token ++ rest).dropWhile isSpace = token ++ rest := by
  obtain ⟨hne, hspace⟩ := h
  cases token with
  | nil => exact absurd rfl hne
  | cons b token => simp [hspace b List.mem_cons_self]

theorem sscanf_str (width : ℕ) (h : Word token) (hlen : token.length ≤ width) (hrest : Break rest) :
    sscanf (.str width :: format) (token ++ rest) = .str token :: sscanf format rest := by
  have hstop : (token ++ rest).takeWhile (fun b => !isSpace b) = token :=
    takeWhile_append_stop (fun b hb => by simp [h.noSpace b hb]) (fun b hb => by simp [hrest b hb])
  rw [sscanf, dropWhile_word h, hstop, List.take_of_length_le hlen, if_neg h.ne_nil, List.drop_left]

theorem sscanf_int (n : ℕ) (hrest : Break rest) :
    sscanf (.int :: format) (decimal n ++ rest) = .int n :: sscanf format rest := by
  rw [sscanf, dropWhile_word (word_decimal n), scanInt_decimal n (fun b hb =>
    isDigit_of_space b (hrest b hb))]

theorem sscanf_lit (h : Word token) (rest : Bytes) :
    sscanf (.lit token :: format) (token ++ rest) = sscanf format rest := by
  rw [sscanf, dropWhile_word h, if_pos (by simp), List.drop_left]

end

/-- `atoi` reads what `%u` prints. -/
theorem atoi_decimal (n : ℕ) : atoi (decimal n) = n := by
  have hscan := @scanInt_decimal [] n (by simp)
  have hdrop := dropWhile_word (word_decimal n) []
  rw [List.append_nil] at hscan hdrop
  rw [atoi, hdrop, hscan]

end Carrier.Lib
