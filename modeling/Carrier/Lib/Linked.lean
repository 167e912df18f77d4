import Mathlib.Data.List.Basic
import Mathlib.Logic.Function.Basic
import Mathlib.Tactic

/-! Linked lists in memory. A link is a map from cells to their contents; every node has a cell of
its own, and a list starts at a cell outside of its nodes. A ring is a list that is read from its
head both ways. -/
namespace Carrier.Lib

variable {S A : Type*} (cell : A → S)

/-- From a cell that holds `v` the links lead through `xs` to a cell that holds `w`. -/
def Seg (link : S → Option A) : Option A → List A → Option A → Prop
  | v, [], w => v = w
  | v, x :: xs, w => v = some x ∧ Seg link (link (cell x)) xs w

/-- The cell at the end of `xs`, for a list that starts at `s`. -/
def lastCell : S → List A → S
  | s, [] => s
  | _, x :: xs => lastCell (cell x) xs

variable {cell} {link link' : S → Option A} {v w : Option A} {s : S} {xs ys pre post : List A}
  {e e' : A}

theorem seg_append : Seg cell link v (xs ++ ys) w ↔ ∃ u, Seg cell link v xs u ∧ Seg cell link u ys w := by
  induction xs generalizing v with
  | nil =>
    constructor
    · intro h
      exact ⟨v, rfl, h⟩
    · rintro ⟨u, rfl, h⟩
      exact h
  | cons x xs ih =>
    constructor
    · rintro ⟨hv, h⟩
      obtain ⟨u, hxs, hys⟩ := ih.mp h
      exact ⟨u, ⟨hv, hxs⟩, hys⟩
    · rintro ⟨u, ⟨hv, hxs⟩, hys⟩
      exact ⟨hv, ih.mpr ⟨u, hxs, hys⟩⟩

/-- Only the cells of the nodes passed matter. -/
theorem Seg.congr (h : Seg cell link v xs w) (heq : ∀ x ∈ xs, link' (cell x) = link (cell x)) :
    Seg cell link' v xs w := by
  induction xs generalizing v with
  | nil => exact h
  | cons x xs ih =>
    obtain ⟨hv, hrest⟩ := h
    refine ⟨hv, ?_⟩
    rw [heq x List.mem_cons_self]
    exact ih hrest (fun y hy => heq y (List.mem_cons_of_mem _ hy))

theorem Seg.head_eq (h : Seg cell link v xs none) : v = xs.head? := by
  cases xs with
  | nil => exact h
  | cons x xs => exact h.1

/-- The cell at the end holds what the list leads to. -/
theorem Seg.lastCell_eq (h : Seg cell link (link s) xs v) : link (lastCell cell s xs) = v := by
  induction xs generalizing s with
  | nil => exact h
  | cons x xs ih => exact ih h.2

theorem lastCell_eq_or (s : S) (xs : List A) :
    lastCell cell s xs = s ∨ ∃ x ∈ xs, lastCell cell s xs = cell x := by
  induction xs generalizing s with
  | nil => exact .inl rfl
  | cons x xs ih =>
    rcases ih (cell x) with h | ⟨y, hy, h⟩
    · exact .inr ⟨x, List.mem_cons_self, h⟩
    · exact .inr ⟨y, List.mem_cons_of_mem _ hy, h⟩

@[simp] theorem lastCell_concat (s : S) (xs : List A) (x : A) :
    lastCell cell s (xs ++ [x]) = cell x := by
  induction xs generalizing s with
  | nil => rfl
  | cons y ys ih => exact ih (cell y)

theorem lastCell_some (xs : List A) : lastCell some none xs = xs.getLast? := by
  induction xs using List.reverseRecOn with
  | nil => rfl
  | append_singleton xs x _ => rw [lastCell_concat, List.getLast?_concat]

/-- A node that the list does not pass has another cell. -/
theorem lastCell_ne (hcell : Function.Injective cell) (hs : ∀ x, cell x ≠ s) (hnot : e ∉ xs) :
    lastCell cell s xs ≠ cell e := by
  rcases lastCell_eq_or s xs with h | ⟨x, hx, h⟩
  · rw [h]
    exact (hs e).symm
  · rw [h]
    intro heq
    exact hnot (hcell heq ▸ hx)

section Update

variable [DecidableEq S] (hcell : Function.Injective cell) (hs : ∀ x, cell x ≠ s)
include hcell hs

/-- What the last cell holds can be changed. -/
theorem Seg.set_last (h : Seg cell link (link s) xs v) (hnd : xs.Nodup) (w : Option A) :
    Seg cell (Function.update link (lastCell cell s xs) w)
      (Function.update link (lastCell cell s xs) w s) xs w := by
  induction xs using List.reverseRecOn with
  | nil => exact Function.update_self s w link
  | append_singleton xs x _ =>
    have hx : ∀ y ∈ xs, y ≠ x := by
      intro y hy heq
      exact (List.nodup_append.mp hnd).2.2 y hy x (List.mem_singleton_self x) heq
    rw [lastCell_concat, Function.update_of_ne (hs x).symm, seg_append]
    obtain ⟨u, hxs, hu, -⟩ := seg_append.mp h
    refine ⟨u, hxs.congr ?_, hu, Function.update_self _ _ _⟩
    intro y hy
    rw [Function.update_of_ne (fun heq => hx y hy (hcell heq))]

/-- A node is taken out by copying its cell over the cell before it. -/
theorem Seg.remove (h : Seg cell link (link s) (pre ++ e :: post) w)
    (hnd : (pre ++ e :: post).Nodup) :
    Seg cell (Function.update link (lastCell cell s pre) (link (cell e)))
      (Function.update link (lastCell cell s pre) (link (cell e)) s) (pre ++ post) w := by
  obtain ⟨u, hpre, -, hpost⟩ := seg_append.mp h
  obtain ⟨hnd1, hnd2, hdisj⟩ := List.nodup_append.mp hnd
  refine seg_append.mpr ⟨_, hpre.set_last hcell hs hnd1 _, hpost.congr ?_⟩
  intro y hy
  have hnot : y ∉ pre := fun hmem => hdisj y hmem y (List.mem_cons_of_mem _ hy) rfl
  rw [Function.update_of_ne (lastCell_ne hcell hs hnot).symm]

/-- A node is replaced by one with the same contents of its cell. -/
theorem Seg.replace (h : Seg cell link (link s) (pre ++ e :: post) w)
    (hnd : (pre ++ e :: post).Nodup) (hpre' : e' ∉ pre) (hpost' : e' ∉ post) :
    let link₁ := Function.update link (cell e') (link (cell e))
    let link₂ := Function.update link₁ (lastCell cell s pre) (some e')
    Seg cell link₂ (link₂ s) (pre ++ e' :: post) w := by
  intro link₁ link₂
  obtain ⟨u, hpre, -, hpost⟩ := seg_append.mp h
  obtain ⟨hnd1, -, hdisj⟩ := List.nodup_append.mp hnd
  have hsame : ∀ y, y ≠ e' → link₁ (cell y) = link (cell y) :=
    fun y hne => Function.update_of_ne (fun heq => hne (hcell heq)) _ _
  have hstart : link₁ s = link s := Function.update_of_ne (hs e').symm _ _
  have hpre₁ : Seg cell link₁ (link₁ s) pre u := by
    rw [hstart]
    exact hpre.congr (fun y hy => hsame y (fun heq => hpre' (heq ▸ hy)))
  have hcont : link₂ (cell e') = link (cell e) := by
    have hne := (lastCell_ne hcell hs hpre').symm
    exact (Function.update_of_ne hne _ _).trans (Function.update_self _ _ _)
  refine seg_append.mpr ⟨some e', hpre₁.set_last hcell hs hnd1 _, rfl, ?_⟩
  rw [hcont]
  refine hpost.congr (fun y hy => ?_)
  have hnot : y ∉ pre := fun hmem => hdisj y hmem y (List.mem_cons_of_mem _ hy) rfl
  have hne : y ≠ e' := fun heq => hpost' (heq ▸ hy)
  exact (Function.update_of_ne (lastCell_ne hcell hs hnot).symm _ _).trans (hsame y hne)

/-- A node is put between two others, or at an end. -/
theorem Seg.insert (h : Seg cell link (link s) (pre ++ post) w) (hnd : (pre ++ post).Nodup)
    (hnot : e ∉ pre ++ post) :
    let link₁ := Function.update link (cell e) (link (lastCell cell s pre))
    let link₂ := Function.update link₁ (lastCell cell s pre) (some e)
    Seg cell link₂ (link₂ s) (pre ++ e :: post) w := by
  intro link₁ link₂
  obtain ⟨u, hpre, hpost⟩ := seg_append.mp h
  obtain ⟨hnd1, -, hdisj⟩ := List.nodup_append.mp hnd
  have hsame : ∀ y, y ≠ e → link₁ (cell y) = link (cell y) :=
    fun y hne => Function.update_of_ne (fun heq => hne (hcell heq)) _ _
  have hstart : link₁ s = link s := Function.update_of_ne (hs e).symm _ _
  have hpre₁ : Seg cell link₁ (link₁ s) pre u := by
    rw [hstart]
    exact hpre.congr (fun y hy => hsame y (fun heq => hnot (heq ▸ List.mem_append_left _ hy)))
  have hcont : link₂ (cell e) = u := by
    have hne := (lastCell_ne hcell hs (fun he => hnot (List.mem_append_left post he))).symm
    exact (Function.update_of_ne hne _ _).trans ((Function.update_self _ _ _).trans hpre.lastCell_eq)
  refine seg_append.mpr ⟨some e, hpre₁.set_last hcell hs hnd1 _, rfl, ?_⟩
  rw [hcont]
  refine hpost.congr (fun y hy => ?_)
  have hout : y ∉ pre := fun hmem => hdisj y hmem y hy rfl
  have hne : y ≠ e := fun heq => hnot (heq ▸ List.mem_append_right _ hy)
  exact (Function.update_of_ne (lastCell_ne hcell hs hout).symm _ _).trans (hsame y hne)

end Update

/-- A ring of nodes; `none` is its head. -/
structure Ring (next prev : Option A → Option A) (xs : List A) : Prop where
  next : Seg some next (next none) xs none
  prev : Seg some prev (prev none) xs.reverse none

namespace Ring

variable {next prev : Option A → Option A}

theorem next_eq (h : Ring next prev (pre ++ e :: post)) : next (some e) = post.head? := by
  obtain ⟨u, -, -, hpost⟩ := seg_append.mp h.next
  exact hpost.head_eq

theorem prev_eq (h : Ring next prev (pre ++ e :: post)) : prev (some e) = pre.getLast? := by
  have hprev := h.prev
  rw [List.reverse_append, List.reverse_cons, List.append_assoc, List.singleton_append] at hprev
  obtain ⟨u, -, -, hpre⟩ := seg_append.mp hprev
  rw [hpre.head_eq, List.head?_reverse]

theorem last_eq (h : Ring next prev xs) : prev none = xs.getLast? := by
  rw [h.prev.head_eq, List.head?_reverse]

theorem empty (hnext : next none = none) (hprev : prev none = none) : Ring next prev [] :=
  ⟨hnext, hprev⟩

/-- The ring read the other way round. -/
theorem symm (h : Ring next prev xs) : Ring prev next xs.reverse :=
  ⟨h.prev, by rw [List.reverse_reverse]; exact h.next⟩

/-- The node behind the last one of `pre`. -/
theorem next_getLast? (h : Ring next prev (pre ++ post)) : next pre.getLast? = post.head? := by
  obtain ⟨u, hpre, hpost⟩ := seg_append.mp h.next
  rw [← lastCell_some, hpre.lastCell_eq, hpost.head_eq]

/-- The node in front of the first one of `post`. -/
theorem prev_head? (h : Ring next prev (pre ++ post)) : prev post.head? = pre.getLast? := by
  have hsymm := h.symm
  rw [List.reverse_append] at hsymm
  rw [← List.getLast?_reverse, hsymm.next_getLast?, List.head?_reverse]

variable [DecidableEq A]

/-- A node is taken out by linking its two neighbours. -/
theorem unlink (h : Ring next prev (pre ++ e :: post)) (hnd : (pre ++ e :: post).Nodup) :
    Ring (Function.update next (prev (some e)) (next (some e)))
      (Function.update prev (next (some e)) (prev (some e))) (pre ++ post) := by
  have hrev : (pre ++ e :: post).reverse = post.reverse ++ e :: pre.reverse := by simp
  have hprev := h.prev
  rw [hrev] at hprev
  have hnd' : (post.reverse ++ e :: pre.reverse).Nodup := hrev ▸ List.nodup_reverse.mpr hnd
  have hn := h.next.remove (Option.some_injective A) (fun x => Option.some_ne_none x) hnd
  have hp := hprev.remove (Option.some_injective A) (fun x => Option.some_ne_none x) hnd'
  rw [lastCell_some, ← h.prev_eq] at hn
  rw [lastCell_some, List.getLast?_reverse, ← h.next_eq] at hp
  exact ⟨hn, by rw [List.reverse_append]; exact hp⟩

/-- A node outside of the ring may be linked to anything. -/
theorem update_outside (h : Ring next prev xs) (hnot : e ∉ xs) (v w : Option A) :
    Ring (Function.update next (some e) v) (Function.update prev (some e) w) xs := by
  have hne : ∀ x ∈ xs, some x ≠ some e := fun x hx heq => hnot (Option.some.inj heq ▸ hx)
  have hnext := h.next.congr (fun x hx => Function.update_of_ne (hne x hx) v next)
  have hprev := h.prev.congr
    (fun x hx => Function.update_of_ne (hne x (List.mem_reverse.mp hx)) w prev)
  constructor
  · rwa [Function.update_of_ne (Option.some_ne_none e).symm]
  · rwa [Function.update_of_ne (Option.some_ne_none e).symm]

/-- A node in the place of another one, which may be the same. -/
theorem replace (h : Ring next prev (pre ++ e :: post)) (hnd : (pre ++ e :: post).Nodup)
    (hpre : e' ∉ pre) (hpost : e' ∉ post) :
    Ring (Function.update (Function.update next (some e') (next (some e))) (prev (some e)) (some e'))
      (Function.update (Function.update prev (some e') (prev (some e))) (next (some e)) (some e'))
      (pre ++ e' :: post) := by
  have hrev (x : A) : (pre ++ x :: post).reverse = post.reverse ++ x :: pre.reverse := by simp
  have hprev := h.prev
  rw [hrev] at hprev
  have hnd' : (post.reverse ++ e :: pre.reverse).Nodup := hrev e ▸ List.nodup_reverse.mpr hnd
  have hn := h.next.replace (Option.some_injective A) (fun x => Option.some_ne_none x) hnd hpre hpost
  have hp := hprev.replace (Option.some_injective A) (fun x => Option.some_ne_none x) hnd'
    (by rwa [List.mem_reverse]) (by rwa [List.mem_reverse])
  dsimp only at hn hp
  rw [lastCell_some, ← h.prev_eq] at hn
  rw [lastCell_some, List.getLast?_reverse, ← h.next_eq] at hp
  exact ⟨hn, by rw [hrev]; exact hp⟩

/-- A node is put behind the last one of `pre`. -/
theorem insert (h : Ring next prev (pre ++ post)) (hnd : (pre ++ post).Nodup)
    (hnot : e ∉ pre ++ post) :
    Ring (Function.update (Function.update next (some e) (next pre.getLast?)) pre.getLast? (some e))
      (Function.update (Function.update prev (some e) pre.getLast?) (next pre.getLast?) (some e))
      (pre ++ e :: post) := by
  have hrev : (pre ++ e :: post).reverse = post.reverse ++ e :: pre.reverse := by simp
  have hnd' : (post.reverse ++ pre.reverse).Nodup := by
    rw [← List.reverse_append]
    exact List.nodup_reverse.mpr hnd
  have hnot' : e ∉ post.reverse ++ pre.reverse := by
    rw [← List.reverse_append, List.mem_reverse]
    exact hnot
  have hprev := h.prev
  rw [List.reverse_append] at hprev
  have hn := h.next.insert (Option.some_injective A) (fun x => Option.some_ne_none x) hnd hnot
  have hp := hprev.insert (Option.some_injective A) (fun x => Option.some_ne_none x) hnd' hnot'
  dsimp only at hn hp
  rw [lastCell_some] at hn
  rw [lastCell_some, List.getLast?_reverse, h.prev_head?, ← h.next_getLast?] at hp
  exact ⟨hn, by rw [hrev]; exact hp⟩

/-- A node at the end of the ring. -/
theorem concat (h : Ring next prev xs) (hnd : xs.Nodup) (hnot : e ∉ xs) :
    Ring (Function.update (Function.update next (some e) none) (prev none) (some e))
      (Function.update (Function.update prev (some e) (prev none)) none (some e)) (xs ++ [e]) := by
  have hring : Ring next prev (xs ++ []) := by rwa [List.append_nil]
  have hinsert := hring.insert (by rwa [List.append_nil]) (by rwa [List.append_nil])
  rwa [hring.next_getLast?, List.head?_nil, ← h.last_eq] at hinsert

end Ring

/-- `n` steps along a link that may lead nowhere, the outer `none`. -/
def walk (link : Option A → Option (Option A)) : ℕ → Option A → Option (Option A)
  | 0, cur => some cur
  | n + 1, cur => (link cur).bind (walk link n)

theorem walk_succ (link : Option A → Option (Option A)) (n : ℕ) (cur : Option A) :
    walk link (n + 1) cur = (walk link n cur).bind link := by
  induction n generalizing cur with
  | zero => simp [walk]
  | succ n ih =>
    calc walk link (n + 2) cur = (link cur).bind (walk link (n + 1)) := rfl
      _ = (link cur).bind (fun c => (walk link n c).bind link) := by simp only [ih]
      _ = (walk link (n + 1) cur).bind link := by rw [← Option.bind_assoc]; rfl

/-- From the head of a ring, `i + 1` steps lead to its node at `i`, or to the head again. -/
theorem walk_ring {link : Option A → Option (Option A)} {next prev : Option A → Option A}
    (h : Ring next prev xs)
    (hlink : ∀ p, p = none ∨ (∃ a ∈ xs, p = some a) → link p = some (next p)) {i : ℕ}
    (hi : i ≤ xs.length) : walk link (i + 1) none = some xs[i]? := by
  induction i with
  | zero =>
    have hhead : next none = xs.head? := h.next.head_eq
    rw [walk_succ, walk, Option.bind_some, hlink none (.inl rfl), hhead, List.head?_eq_getElem?]
  | succ i ih =>
    have hlt : i < xs.length := hi
    have hsplit : xs = xs.take i ++ xs[i] :: xs.drop (i + 1) := by simp
    have hnext : next (some xs[i]) = (xs.drop (i + 1)).head? := by
      rw [hsplit] at h
      exact h.next_eq
    rw [walk_succ, ih hlt.le, Option.bind_some, List.getElem?_eq_getElem hlt,
      hlink _ (.inr ⟨_, List.getElem_mem hlt, rfl⟩), hnext, List.head?_drop]

end Carrier.Lib
