import Mathlib.Data.List.Basic
import Mathlib.Data.List.Count
import Mathlib.Tactic

/-! Finite maps in the order of insertion, as lists of entries. The entries of a key are those that
`hit` picks; there is at most one of them. -/
namespace Carrier.Lib

variable {E : Type*} (hit : E → Bool)

/-- A new entry takes the place of the one it hits, or goes to the end. -/
def putEntry (es : List E) (e : E) : List E :=
  if es.any hit then es.map (fun x => if hit x then e else x) else es ++ [e]

def removeEntry (es : List E) : List E := es.filter (fun x => !hit x)

/-- A walk over the entries that removes those chosen: what is left and what was seen. -/
def visit : List Bool → List E → List E × List E
  | [], es => (es, [])
  | _ :: _, [] => ([], [])
  | choice :: choices, e :: es =>
    let (left, seen) := visit choices es
    (if choice then left else e :: left, e :: seen)

variable {hit} {es l r : List E} {e new : E}

/-- Only what the key does to the entries that are there matters. -/
theorem putEntry_congr {hit' : E → Bool} (h : ∀ x ∈ es, hit x = hit' x) (new : E) :
    putEntry hit es new = putEntry hit' es new := by
  have hany : es.any hit = es.any hit' := by
    rw [Bool.eq_iff_iff, List.any_eq_true, List.any_eq_true]
    constructor
    · rintro ⟨x, hx, hhit⟩
      exact ⟨x, hx, h x hx ▸ hhit⟩
    · rintro ⟨x, hx, hhit⟩
      exact ⟨x, hx, h x hx ▸ hhit⟩
  have hmap : es.map (fun x => if hit x then new else x) =
      es.map (fun x => if hit' x then new else x) :=
    List.map_congr_left (fun x hx => by rw [h x hx])
  unfold putEntry
  rw [hany, hmap]

theorem removeEntry_congr {hit' : E → Bool} (h : ∀ x ∈ es, hit x = hit' x) :
    removeEntry hit es = removeEntry hit' es := by
  unfold removeEntry
  exact List.filter_congr (fun x hx => by rw [h x hx])

theorem find?_congr_hit {hit' : E → Bool} (h : ∀ x ∈ es, hit x = hit' x) :
    es.find? hit = es.find? hit' := by
  induction es with
  | nil => rfl
  | cons x es ih =>
    rw [List.find?_cons, List.find?_cons, h x List.mem_cons_self,
      ih (fun y hy => h y (List.mem_cons_of_mem _ hy))]

theorem putEntry_of_find_none (h : es.find? hit = none) : putEntry hit es new = es ++ [new] := by
  have hany : es.any hit = false := by
    rw [List.any_eq_false]
    exact List.find?_eq_none.mp h
  unfold putEntry
  rw [hany]
  simp

theorem removeEntry_of_find_none (h : es.find? hit = none) : removeEntry hit es = es := by
  unfold removeEntry
  rw [List.filter_eq_self]
  intro x hx
  have := List.find?_eq_none.mp h x hx
  simpa using this

/-- The entry hit, and those around it. -/
theorem split_of_find_some (h : es.find? hit = some e)
    (hone : es.Pairwise (fun x y => ¬(hit x ∧ hit y))) :
    ∃ l r, es = l ++ e :: r ∧ hit e ∧ (∀ x ∈ l, hit x = false) ∧ ∀ x ∈ r, hit x = false := by
  obtain ⟨he, l, r, rfl, hl⟩ := List.find?_eq_some_iff_append.mp h
  refine ⟨l, r, rfl, he, fun x hx => by simpa using hl x hx, fun x hx => ?_⟩
  have hpair := (List.pairwise_append.mp hone).2.1
  have := List.rel_of_pairwise_cons hpair hx
  simpa [he] using this

theorem find?_of_mem (hone : es.Pairwise (fun x y => ¬(hit x ∧ hit y))) (he : e ∈ es)
    (hhit : hit e) : es.find? hit = some e := by
  induction es with
  | nil => cases he
  | cons x es ih =>
    obtain ⟨hx, hrest⟩ := List.pairwise_cons.mp hone
    rcases List.mem_cons.mp he with rfl | he
    · simp [hhit]
    · have hnot : ¬hit x := fun hh => hx e he ⟨hh, hhit⟩
      rw [List.find?_cons_of_neg hnot]
      exact ih hrest he

theorem putEntry_split (he : hit e) (hl : ∀ x ∈ l, hit x = false) (hr : ∀ x ∈ r, hit x = false) :
    putEntry hit (l ++ e :: r) new = l ++ new :: r := by
  have hsame (xs : List E) (hxs : ∀ x ∈ xs, hit x = false) :
      xs.map (fun x => if hit x then new else x) = xs := by
    conv_rhs => rw [← List.map_id xs]
    refine List.map_congr_left (fun x hx => ?_)
    simp [hxs x hx]
  unfold putEntry
  rw [List.any_append, List.any_cons, he, Bool.true_or, Bool.or_true, if_pos rfl, List.map_append,
    List.map_cons, hsame l hl, hsame r hr, if_pos he]

theorem removeEntry_split (he : hit e) (hl : ∀ x ∈ l, hit x = false)
    (hr : ∀ x ∈ r, hit x = false) : removeEntry hit (l ++ e :: r) = l ++ r := by
  have hsame (xs : List E) (hxs : ∀ x ∈ xs, hit x = false) : xs.filter (fun x => !hit x) = xs := by
    rw [List.filter_eq_self]
    intro x hx
    simp [hxs x hx]
  unfold removeEntry
  rw [List.filter_append, List.filter_cons_of_neg (by simp [he]), hsame l hl, hsame r hr]

/-- The new entry is found under its key. -/
theorem find?_putEntry_self (he : hit new) : (putEntry hit es new).find? hit = some new := by
  unfold putEntry
  by_cases hany : es.any hit
  · rw [if_pos hany]
    induction es with
    | nil => cases hany
    | cons x es ih =>
      by_cases hx : hit x
      · simp [hx, he]
      · have hrest : es.any hit = true := by simpa [hx] using hany
        simp [hx, ih hrest]
  · rw [if_neg hany, List.find?_append]
    have hnone : es.find? hit = none := by
      rw [List.find?_eq_none]
      simpa using hany
    simp [hnone, he]

section Other

variable {other : E → Bool} (hdisj : ∀ x ∈ es, hit x → other x = false)
include hdisj

/-- Entries under another key are found as before. -/
theorem find?_putEntry_of_ne (hnew : other new = false) :
    (putEntry hit es new).find? other = es.find? other := by
  unfold putEntry
  by_cases hany : es.any hit
  · rw [if_pos hany]
    clear hany
    induction es with
    | nil => rfl
    | cons x es ih =>
      have hrest := ih (fun y hy => hdisj y (List.mem_cons_of_mem _ hy))
      by_cases hx : hit x
      · simp [hx, hnew, hdisj x List.mem_cons_self hx, hrest]
      · simp [hx, List.find?_cons, hrest]
  · rw [if_neg hany, List.find?_append]
    simp [hnew]

theorem find?_removeEntry_of_ne : (removeEntry hit es).find? other = es.find? other := by
  unfold removeEntry
  induction es with
  | nil => rfl
  | cons x es ih =>
    have hrest := ih (fun y hy => hdisj y (List.mem_cons_of_mem _ hy))
    by_cases hx : hit x
    · simp [hx, hdisj x List.mem_cons_self hx, hrest]
    · simp [hx, List.find?_cons, hrest]

end Other

theorem find?_removeEntry_self : (removeEntry hit es).find? hit = none := by
  rw [List.find?_eq_none]
  intro x hx
  simpa using (List.mem_filter.mp hx).2

theorem mem_putEntry_of_ne (he : e ∈ es) (hhit : hit e = false) : e ∈ putEntry hit es new := by
  unfold putEntry
  split
  · exact List.mem_map.mpr ⟨e, he, by simp [hhit]⟩
  · exact List.mem_append_left _ he

theorem mem_removeEntry_of_ne (he : e ∈ es) (hhit : hit e = false) : e ∈ removeEntry hit es :=
  List.mem_filter.mpr ⟨he, by simp [hhit]⟩

theorem mem_of_mem_putEntry (he : e ∈ putEntry hit es new) : e = new ∨ e ∈ es := by
  unfold putEntry at he
  split at he
  · obtain ⟨x, hx, rfl⟩ := List.mem_map.mp he
    split
    · exact .inl rfl
    · exact .inr hx
  · rw [List.mem_append, List.mem_singleton] at he
    exact he.symm

theorem mem_of_mem_removeEntry (he : e ∈ removeEntry hit es) : e ∈ es := List.mem_of_mem_filter he

section Map

/-! A map that keeps the key keeps the operations. -/

variable {E' : Type*} {f : E → E'} {hit' : E' → Bool} (hkey : ∀ x ∈ es, hit x = hit' (f x))
include hkey

theorem map_putEntry : (putEntry hit es new).map f = putEntry hit' (es.map f) (f new) := by
  have hany : (es.map f).any hit' = es.any hit := by
    rw [List.any_map, Bool.eq_iff_iff, List.any_eq_true, List.any_eq_true]
    constructor
    · rintro ⟨x, hx, hhit⟩
      exact ⟨x, hx, (hkey x hx).trans hhit⟩
    · rintro ⟨x, hx, hhit⟩
      exact ⟨x, hx, (hkey x hx).symm.trans hhit⟩
  unfold putEntry
  rw [hany]
  split
  · rw [List.map_map, List.map_map]
    apply List.map_congr_left
    intro x hx
    simp only [Function.comp, hkey x hx, apply_ite f]
  · simp

theorem map_removeEntry : (removeEntry hit es).map f = removeEntry hit' (es.map f) := by
  unfold removeEntry
  rw [List.filter_map]
  congr 1
  apply List.filter_congr
  intro x hx
  simp [hkey x hx]

end Map

end Carrier.Lib
