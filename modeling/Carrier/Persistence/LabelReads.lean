import Carrier.Persistence.Labels
import Mathlib.Data.List.TakeWhile

/-! What the loop of `apply_extra_data` does with any section: the memory behind the section is zero
for at least 65 bytes, so that a label that runs over the end meets an empty one. -/
namespace Carrier.Persistence
open Carrier.Lib Carrier.Core

/-- The records at the start of a section, at most `n` of them: the number and the text behind it, up
to the first record without a text. -/
def takeRecords : ℕ → Bytes → List (ℕ × Bytes)
  | 0, _ => []
  | n + 1, content =>
    let label := (content.drop 4).takeWhile (· ≠ 0)
    if label = [] then []
    else (ofBE (content.take 4), label) :: takeRecords n (content.drop (4 + label.length + 1))

/-- The records of a section; the text of the last one may run to the end. -/
def sectionRecords (content : Bytes) : List (ℕ × Bytes) := takeRecords content.length content

/-- The zero bytes behind a section, and what lies behind them. -/
def padding (rest : Bytes) : Bytes := List.replicate 65 0 ++ rest

theorem takeRecords_short {content : Bytes} (h : content.length ≤ 4) (n : ℕ) :
    takeRecords n content = [] := by
  cases n with
  | zero => rfl
  | succ n => simp [takeRecords, List.drop_of_length_le h]

theorem takeRecords_nil (n : ℕ) : takeRecords n [] = [] := by
  apply takeRecords_short
  exact Nat.zero_le 4

/-- A text with a zero byte behind it is a record. -/
theorem takeRecords_record {number label : Bytes} (hnumber : number.length = 4) (hne : label ≠ [])
    (hnul : NoNul label) (rest : Bytes) (n : ℕ) :
    takeRecords (n + 1) (number ++ (label ++ 0 :: rest)) =
      (ofBE number, label) :: takeRecords n rest := by
  have hdrop : (number ++ (label ++ 0 :: rest)).drop 4 = label ++ 0 :: rest :=
    List.drop_left' hnumber
  have hrest : (number ++ (label ++ 0 :: rest)).drop (4 + label.length + 1) = rest := by
    rw [Nat.add_assoc, ← List.drop_drop, hdrop, List.drop_append,
      List.drop_of_length_le (Nat.le_succ _), Nat.add_sub_cancel_left]
    rfl
  rw [takeRecords, hdrop, takeWhile_cstr hnul, if_neg hne, hrest, List.take_left' hnumber]

/-- A text that ends with the section is the last record. -/
theorem takeRecords_last {number label : Bytes} (hnumber : number.length = 4) (hne : label ≠ [])
    (hnul : NoNul label) (n : ℕ) :
    takeRecords (n + 1) (number ++ label) = [(ofBE number, label)] := by
  have hall : label.takeWhile (· ≠ 0) = label := by
    rw [List.takeWhile_eq_self_iff]
    intro b hb
    exact decide_eq_true (hnul b hb)
  rw [takeRecords, List.drop_left' hnumber, hall, if_neg hne, List.take_left' hnumber,
    List.drop_of_length_le (by rw [List.length_append]; omega), takeRecords_nil]

theorem takeRecords_empty {number : Bytes} (hnumber : number.length = 4) (rest : Bytes) (n : ℕ) :
    takeRecords n (number ++ 0 :: rest) = [] := by
  cases n with
  | zero => rfl
  | succ n => simp [takeRecords, List.drop_left' hnumber]

section Loop

variable (fuel : ℕ) (stack : ℕ → Bytes) (t : Friends) {number : Bytes} (hnumber : number.length = 4)
  {len : ℕ} (hlen : len ≠ 0)
include hnumber hlen

theorem applyExtraLoop_empty (rest : Bytes) :
    applyExtraLoop (fuel + 1) stack t (number ++ 0 :: rest) len = some t := by
  have hdrop : (number ++ 0 :: rest).drop 4 = 0 :: rest := List.drop_left' hnumber
  have hstrlen : strlen (0 :: rest) = 0 := rfl
  rw [applyExtraLoop, if_neg hlen, if_neg (by rw [List.length_append]; omega), hdrop]
  dsimp only
  rw [hstrlen, if_neg (by simp), if_pos rfl]

/-- A label that is not empty is assigned. -/
theorem applyExtraLoop_record {label : Bytes} (hne : label ≠ []) (hnul : NoNul label)
    (rest : Bytes) :
    applyExtraLoop (fuel + 1) stack t (number ++ (label ++ 0 :: rest)) len =
      (assignLabel t ⟨ofBE number, stack 0, label⟩).bind (fun t =>
        applyExtraLoop fuel (fun i => stack (i + 1)) t rest (subSize len (4 + label.length + 1))) := by
  have hdrop : (number ++ (label ++ 0 :: rest)).drop 4 = label ++ 0 :: rest :=
    List.drop_left' hnumber
  have htake : (number ++ (label ++ 0 :: rest)).take 4 = number := List.take_left' hnumber
  have hpos : label.length ≠ 0 := fun h => hne (List.length_eq_zero_iff.mp h)
  have hrest : (label ++ 0 :: rest).drop (label.length + 1) = rest := by
    rw [List.drop_append, List.drop_of_length_le (Nat.le_succ _), Nat.add_sub_cancel_left]
    rfl
  rw [applyExtraLoop, if_neg hlen, if_neg (by rw [List.length_append]; omega), hdrop, htake]
  dsimp only
  rw [strlen_cstr hnul, if_neg (by simp), if_neg hpos, hrest, List.take_left]

end Loop

theorem exists_label (bs : Bytes) :
    ∃ label tail, bs = label ++ tail ∧ NoNul label ∧ (tail = [] ∨ ∃ rest, tail = 0 :: rest) := by
  refine ⟨bs.takeWhile (· ≠ 0), bs.dropWhile (· ≠ 0), List.takeWhile_append_dropWhile.symm, ?_, ?_⟩
  · intro b hb
    have hkept := List.mem_takeWhile_imp hb
    exact of_decide_eq_true hkept
  · cases hdrop : bs.dropWhile (· ≠ 0) with
    | nil => exact .inl rfl
    | cons b rest =>
      have hb := List.head_dropWhile_not (· ≠ (0 : UInt8)) (by rw [hdrop]; exact List.cons_ne_nil b rest)
      simp only [hdrop, List.head_cons, decide_eq_false_iff_not, not_not] at hb
      exact .inr ⟨rest, by rw [hb]⟩

/-- The section ends within the number of the record: the label is empty. -/
theorem applyExtraLoop_short {c : Bytes} (hpos : c ≠ []) (hshort : c.length ≤ 4) (fuel : ℕ)
    (stack : ℕ → Bytes) (t : Friends) (rest : Bytes) :
    applyExtraLoop (fuel + 1) stack t (c ++ padding rest) c.length = some t := by
  have hpad : padding rest = List.replicate (4 - c.length) 0 ++
      0 :: (List.replicate (60 + c.length) 0 ++ rest) := by
    rw [padding, ← List.singleton_append, ← List.append_assoc, ← List.append_assoc]
    congr 1
    rw [← List.replicate_one, List.replicate_append_replicate, List.replicate_append_replicate]
    congr 1
    omega
  rw [hpad, ← List.append_assoc]
  apply applyExtraLoop_empty
  · rw [List.length_append, List.length_replicate]
    omega
  · exact fun h => hpos (List.length_eq_zero_iff.mp h)

/-- The label runs over the end of the section: the length wraps, and the next label is empty. -/
theorem applyExtraLoop_wrapped {number label : Bytes} (hnumber : number.length = 4)
    (hne : label ≠ []) (hnul : NoNul label) (hlen : (number ++ label).length < 2 ^ 64) (fuel : ℕ)
    (stack : ℕ → Bytes) (t : Friends) (rest : Bytes) :
    applyExtraLoop (fuel + 2) stack t (number ++ label ++ padding rest) (number ++ label).length =
      assignLabel t ⟨ofBE number, stack 0, label⟩ := by
  have hpad : padding rest = 0 :: (List.replicate 4 0 ++ 0 :: (List.replicate 59 0 ++ rest)) := rfl
  have hnext : subSize (number ++ label).length (4 + label.length + 1) ≠ 0 := by
    rw [List.length_append, hnumber] at hlen ⊢
    unfold subSize
    omega
  have hpos : (number ++ label).length ≠ 0 := by
    rw [List.length_append]
    omega
  rw [List.append_assoc, hpad, applyExtraLoop_record (fuel + 1) stack t hnumber hpos hne hnul]
  have hend (t' : Friends) : applyExtraLoop (fuel + 1) (fun i => stack (i + 1)) t'
      (List.replicate 4 0 ++ 0 :: (List.replicate 59 0 ++ rest))
      (subSize (number ++ label).length (4 + label.length + 1)) = some t' :=
    applyExtraLoop_empty fuel _ t' (by rfl) hnext _
  simp only [hend]
  exact Option.bind_fun_some _

/-- The loop assigns the labels of the records of the section, in their order. -/
theorem applyExtraLoop_section {c : Bytes} (hlen : c.length < 2 ^ 64) {n fuel : ℕ}
    (hn : c.length ≤ n) (hfuel : c.length + 2 ≤ fuel) (stack : ℕ → Bytes) (t : Friends)
    (rest : Bytes) :
    applyExtraLoop fuel stack t (c ++ padding rest) c.length =
      (labelCalls stack (takeRecords n c)).foldlM assignLabel t := by
  induction hlength : c.length using Nat.strong_induction_on generalizing c n fuel stack t with
  | _ l ih =>
    rw [← hlength]
    obtain ⟨k, rfl⟩ : ∃ k, fuel = k + 2 := ⟨fuel - 2, by omega⟩
    by_cases hempty : c = []
    · subst hempty
      rw [takeRecords_nil]
      rfl
    by_cases hshort : c.length ≤ 4
    · rw [takeRecords_short hshort, applyExtraLoop_short hempty hshort]
      rfl
    · obtain ⟨m, rfl⟩ : ∃ m, n = m + 1 := ⟨n - 1, by omega⟩
      have hnumber : (c.take 4).length = 4 := by
        rw [List.length_take]
        omega
      obtain ⟨label, tail, hsplit, hnul, htail⟩ := exists_label (c.drop 4)
      have hc : c = c.take 4 ++ (label ++ tail) := by rw [← hsplit, List.take_append_drop]
      have hpos : c.length ≠ 0 := by omega
      by_cases hlabel : label = []
      · obtain rfl | ⟨rest', rfl⟩ := htail
        · rw [hlabel, List.append_nil, List.append_nil] at hc
          exact absurd (congrArg List.length hc) (by omega)
        · rw [hlabel, List.nil_append] at hc
          have hmem : c ++ padding rest = c.take 4 ++ 0 :: (rest' ++ padding rest) := by
            conv_lhs => rw [hc]
            rw [List.append_assoc, List.cons_append]
          rw [hmem, applyExtraLoop_empty _ stack t hnumber hpos, hc, takeRecords_empty hnumber]
          rfl
      · obtain rfl | ⟨c', rfl⟩ := htail
        · rw [List.append_nil] at hc
          have hwrapped := applyExtraLoop_wrapped hnumber hlabel hnul (by rwa [← hc]) k stack t rest
          rw [← hc] at hwrapped
          have hlast := takeRecords_last hnumber hlabel hnul m
          rw [← hc] at hlast
          rw [hwrapped, hlast, labelCalls_cons, List.foldlM_cons]
          exact (Option.bind_fun_some _).symm
        · have htotal : c.length = 4 + label.length + 1 + c'.length := by
            have := congrArg List.length hc
            rw [List.length_append, List.length_append, hnumber, List.length_cons] at this
            omega
          have hmem : c ++ padding rest = c.take 4 ++ (label ++ 0 :: (c' ++ padding rest)) := by
            conv_lhs => rw [hc]
            rw [List.append_assoc, List.append_assoc, List.cons_append]
          have hsub : subSize c.length (4 + label.length + 1) = c'.length := by
            rw [subSize_of_le (by omega) hlen]
            omega
          have htake := takeRecords_record hnumber hlabel hnul c' m
          rw [← hc] at htake
          rw [hmem, applyExtraLoop_record _ stack t hnumber hpos hlabel hnul, hsub, htake,
            labelCalls_cons, List.foldlM_cons]
          refine Option.bind_congr (fun t' _ => ?_)
          exact ih c'.length (by omega) (by omega) (by omega) (by omega) _ t' rfl

theorem applyExtraData_section {content : Bytes} (hlen : content.length < 2 ^ 64)
    (stack : ℕ → Bytes) (t : Friends) (rest : Bytes) :
    applyExtraData stack t (content ++ padding rest) content.length =
      (labelCalls stack (sectionRecords content)).foldlM assignLabel t := by
  apply applyExtraLoop_section hlen le_rfl
  rw [padding, List.length_append, List.length_append, List.length_replicate]
  omega

theorem takeRecords_noNul (n : ℕ) (content : Bytes) : ∀ r ∈ takeRecords n content, NoNul r.2 := by
  induction n generalizing content with
  | zero => simp [takeRecords]
  | succ n ih =>
    rw [takeRecords]
    split
    · simp
    · intro r hr
      obtain rfl | hr := List.mem_cons.mp hr
      · intro b hb
        have hkept := List.mem_takeWhile_imp hb
        exact of_decide_eq_true hkept
      · exact ih _ r hr

/-- The call is safe on a section: it returns, and the same whatever lies behind 65 zero bytes, also
where the memory ends there. -/
def SafeOn (stack : ℕ → Bytes) (t : Friends) (content : Bytes) : Prop :=
  ∃ t', ∀ rest, applyExtraData stack t (content ++ padding rest) content.length = some t'

theorem SafeOn.isSome {stack : ℕ → Bytes} {t : Friends} {content : Bytes} (h : SafeOn stack t content) :
    (applyExtraData stack t (content ++ padding []) content.length).isSome = true := by
  obtain ⟨t', ht'⟩ := h
  rw [ht' []]
  rfl

/-- The call is safe exactly on the sections each of whose records can be assigned. -/
theorem applyExtraData_safe_iff {content : Bytes} (hlen : content.length < 2 ^ 64)
    (stack : ℕ → Bytes) (t : Friends) :
    SafeOn stack t content ↔ ∀ c ∈ labelCalls stack (sectionRecords content), c.Safe t := by
  have hnul : ∀ c ∈ labelCalls stack (sectionRecords content), NoNul c.label :=
    fun c hc => takeRecords_noNul _ _ _ (mem_labelCalls hc)
  simp only [SafeOn, applyExtraData_section hlen, forall_const]
  rw [← foldlM_assignLabel_isSome_iff t hnul, Option.isSome_iff_exists]

/-- The only label runs over the end of its section. -/
theorem applyExtraData_safe_overrun :
    SafeOn (fun _ => []) (twoFriends [] (by decide) (by decide)) [0, 0, 0, 3, 98] :=
  (applyExtraData_safe_iff (by decide) _ _).mpr (by decide)

/-- A label of 64 bytes for friend 3, and a record of the number that no friend has. -/
theorem applyExtraData_unsafe :
    ¬SafeOn (fun _ => []) (twoFriends [] (by decide) (by decide))
      ([0, 0, 0, 3] ++ List.replicate 64 97 ++ [0]) ∧
    ¬SafeOn (fun _ => []) (twoFriends [] (by decide) (by decide)) [255, 255, 255, 255, 97, 0] := by
  constructor
  · intro h
    exact absurd h.isSome (by decide +kernel)
  · intro h
    exact absurd h.isSome (by decide +kernel)

theorem padSection_padding (content : Bytes) :
    ∃ rest, padSection content = content ++ padding rest := by
  have hgt := round256_gt content.length
  refine ⟨List.replicate (round256 content.length - content.length - 65) 0, ?_⟩
  rw [padSection, padding, List.replicate_append_replicate]
  congr 2
  omega

end Carrier.Persistence
