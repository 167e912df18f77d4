import Mathlib.Data.Finset.Basic
import Mathlib.Data.List.Count
import Mathlib.Tactic

/-! Descriptors that a process opens and closes: the log of both, the newest first, and who is in
charge of each open one. `κ` says what a descriptor has been opened for, `Ω` are the owners. -/
namespace Carrier.Lib

inductive FdEvent (κ : Type*) where
  | opened (kind : κ) (fd : ℕ)
  | closed (fd : ℕ)
  deriving DecidableEq

namespace FdEvent

variable {κ : Type*}

/-- What the descriptor is open for. -/
def current : List (FdEvent κ) → ℕ → Option κ
  | [] => fun _ => none
  | .opened kind fd :: log => Function.update (current log) fd (some kind)
  | .closed fd :: log => Function.update (current log) fd none

/-- Nothing is opened that is open, and nothing closed that is not. -/
def Clean : List (FdEvent κ) → Prop
  | [] => True
  | .opened _ fd :: log => current log fd = none ∧ Clean log
  | .closed fd :: log => (current log fd).isSome ∧ Clean log

instance Clean.decidable [DecidableEq κ] : ∀ log : List (FdEvent κ), Decidable (Clean log)
  | [] => isTrue trivial
  | .opened _ fd :: log =>
    have : Decidable (Clean log) := Clean.decidable log
    inferInstanceAs (Decidable (current log fd = none ∧ Clean log))
  | .closed fd :: log =>
    have : Decidable (Clean log) := Clean.decidable log
    inferInstanceAs (Decidable ((current log fd).isSome ∧ Clean log))

end FdEvent

open FdEvent

variable {κ Ω : Type*}

/-- Every open descriptor has one owner, which has it for what it was opened for. `m` gives the
descriptor of an owner and whether it is watched: `watched` holds those that are, and `event`. -/
structure Custody (kind : Ω → κ) (event : ℕ) (log : List (FdEvent κ)) (watched : Finset ℕ)
    (m : Ω → Option (ℕ × Bool)) : Prop where
  clean : Clean log
  held : ∀ fd k, current log fd = some k ↔ ∃ o w, kind o = k ∧ m o = some (fd, w)
  unique : ∀ o o' fd w w', m o = some (fd, w) → m o' = some (fd, w') → o = o'
  event_closed : current log event = none
  mem_watched : ∀ fd, fd ∈ watched ↔ fd = event ∨ ∃ o, m o = some (fd, true)

namespace Custody

variable {kind : Ω → κ} {event : ℕ} {log : List (FdEvent κ)} {watched : Finset ℕ}
  {m : Ω → Option (ℕ × Bool)} {o : Ω} {fd : ℕ} {w : Bool}

theorem init (kind : Ω → κ) (event : ℕ) : Custody kind event [] {event} (fun _ => none) where
  clean := trivial
  held _ _ := by simp [current]
  unique _ _ _ _ _ h _ := by cases h
  event_closed := rfl
  mem_watched _ := by simp

theorem current_eq (h : Custody kind event log watched m) (ho : m o = some (fd, w)) :
    current log fd = some (kind o) := (h.held fd _).mpr ⟨o, w, rfl, ho⟩

theorem ne_event (h : Custody kind event log watched m) (ho : m o = some (fd, w)) :
    fd ≠ event := by
  rintro rfl
  have hopen := h.current_eq ho
  rw [h.event_closed] at hopen
  cases hopen

/-- What nobody has is closed. -/
theorem current_eq_none (h : Custody kind event log watched m) (hm : ∀ o w, m o ≠ some (fd, w)) :
    current log fd = none := by
  cases hcur : current log fd with
  | none => rfl
  | some k =>
    obtain ⟨o, w, -, ho⟩ := (h.held fd k).mp hcur
    exact absurd ho (hm o w)

theorem ne_of_current (h : Custody kind event log watched m) (hfree : current log fd = none)
    {o' : Ω} {fd' : ℕ} {w' : Bool} (ho' : m o' = some (fd', w')) : fd' ≠ fd := by
  rintro rfl
  have hopen := h.current_eq ho'
  rw [hfree] at hopen
  cases hopen

/-- An owner without a descriptor is given a new one. -/
theorem opened [DecidableEq Ω] (h : Custody kind event log watched m) (ho : m o = none)
    (hfree : current log fd = none) (hevent : fd ≠ event) :
    Custody kind event (.opened (kind o) fd :: log) watched
      (Function.update m o (some (fd, false))) where
  clean := ⟨hfree, h.clean⟩
  held fd' k := by
    rw [current, Function.update_apply]
    split_ifs with hfd
    · subst hfd
      constructor
      · intro hk
        exact ⟨o, false, Option.some.inj hk, Function.update_self ..⟩
      · rintro ⟨o', w', rfl, hm'⟩
        rw [Function.update_apply] at hm'
        split_ifs at hm' with ho'
        · rw [ho']
        · exact absurd rfl (h.ne_of_current hfree hm')
    · rw [h.held]
      constructor
      · rintro ⟨o', w', hk, hm'⟩
        have hne : o' ≠ o := by
          rintro rfl
          rw [ho] at hm'
          cases hm'
        exact ⟨o', w', hk, by rw [Function.update_of_ne hne, hm']⟩
      · rintro ⟨o', w', hk, hm'⟩
        rw [Function.update_apply] at hm'
        split_ifs at hm' with ho'
        · cases hm'
          exact absurd rfl hfd
        · exact ⟨o', w', hk, hm'⟩
  unique o₁ o₂ fd' w₁ w₂ h₁ h₂ := by
    rw [Function.update_apply] at h₁ h₂
    split_ifs at h₁ h₂ with e₁ e₂ e₂
    · rw [e₁, e₂]
    · cases h₁
      exact absurd rfl (h.ne_of_current hfree h₂)
    · cases h₂
      exact absurd rfl (h.ne_of_current hfree h₁)
    · exact h.unique _ _ _ _ _ h₁ h₂
  event_closed := by
    rw [current, Function.update_of_ne hevent.symm]
    exact h.event_closed
  mem_watched fd' := by
    rw [h.mem_watched]
    apply or_congr_right
    constructor
    · rintro ⟨o', hm'⟩
      have hne : o' ≠ o := by
        rintro rfl
        rw [ho] at hm'
        cases hm'
      exact ⟨o', by rw [Function.update_of_ne hne, hm']⟩
    · rintro ⟨o', hm'⟩
      rw [Function.update_apply] at hm'
      split_ifs at hm' with ho'
      · cases hm'
      · exact ⟨o', hm'⟩

/-- Where an owner had `fd`, the others keep what they have. -/
private theorem update_iff [DecidableEq Ω] (ho : m o = some (fd, w)) {x : Option (ℕ × Bool)}
    {fd' : ℕ} (hfd : fd' ≠ fd) (hx : ∀ w', x ≠ some (fd', w')) {o' : Ω} {w' : Bool} :
    Function.update m o x o' = some (fd', w') ↔ m o' = some (fd', w') := by
  rw [Function.update_apply]
  split_ifs with ho'
  · subst ho'
    rw [ho]
    constructor
    · intro hm'
      exact absurd hm' (hx w')
    · intro hm'
      cases hm'
      exact absurd rfl hfd
  · rfl

/-- An owner closes its descriptor and no longer watches it. -/
theorem closed [DecidableEq Ω] (h : Custody kind event log watched m) (ho : m o = some (fd, w)) :
    Custody kind event (.closed fd :: log) (watched.erase fd) (Function.update m o none) := by
  have hother {o' : Ω} {w' : Bool} : Function.update m o none o' ≠ some (fd, w') := by
    intro hm'
    rw [Function.update_apply] at hm'
    split_ifs at hm' with ho'
    exact ho' (h.unique _ _ _ _ _ hm' ho)
  constructor
  · exact ⟨by rw [h.current_eq ho, Option.isSome_some], h.clean⟩
  · intro fd' k
    rw [current, Function.update_apply]
    split_ifs with hfd
    · subst hfd
      constructor
      · intro hk
        cases hk
      · rintro ⟨o', w', -, hm'⟩
        exact absurd hm' hother
    · rw [h.held]
      simp only [update_iff ho hfd (x := none) (by simp)]
  · intro o₁ o₂ fd' w₁ w₂ h₁ h₂
    have hfd : fd' ≠ fd := by
      rintro rfl
      exact hother h₁
    rw [update_iff ho hfd (by simp)] at h₁ h₂
    exact h.unique _ _ _ _ _ h₁ h₂
  · rw [current, Function.update_of_ne (h.ne_event ho).symm]
    exact h.event_closed
  · intro fd'
    rw [Finset.mem_erase, h.mem_watched]
    by_cases hfd : fd' = fd
    · subst hfd
      constructor
      · rintro ⟨hne, -⟩
        exact absurd rfl hne
      · rintro (he | ⟨o', hm'⟩)
        · exact absurd he (h.ne_event ho)
        · exact absurd hm' hother
    · simp only [update_iff ho hfd (x := none) (by simp), ne_eq, hfd, not_false_eq_true, true_and]

/-- The owner of a descriptor begins or ends to watch it. -/
theorem rewatched [DecidableEq Ω] (h : Custody kind event log watched m) (ho : m o = some (fd, w))
    (w₀ : Bool) : Custody kind event log (if w₀ then insert fd watched else watched.erase fd)
      (Function.update m o (some (fd, w₀))) := by
  have hself {o' : Ω} {w' : Bool} (hm' : Function.update m o (some (fd, w₀)) o' = some (fd, w')) :
      o' = o ∧ w' = w₀ := by
    rw [Function.update_apply] at hm'
    split_ifs at hm' with ho'
    · cases hm'
      exact ⟨ho', rfl⟩
    · exact absurd (h.unique _ _ _ _ _ hm' ho) ho'
  have hupdate {fd' : ℕ} (hfd : fd' ≠ fd) {o' : Ω} {w' : Bool} :
      Function.update m o (some (fd, w₀)) o' = some (fd', w') ↔ m o' = some (fd', w') := by
    apply update_iff ho hfd
    intro w' hx
    cases hx
    exact hfd rfl
  constructor
  · exact h.clean
  · intro fd' k
    rw [h.held]
    by_cases hfd : fd' = fd
    · subst hfd
      constructor
      · rintro ⟨o', w', hk, hm'⟩
        have ho' := h.unique _ _ _ _ _ hm' ho
        exact ⟨o, w₀, ho' ▸ hk, Function.update_self ..⟩
      · rintro ⟨o', w', hk, hm'⟩
        exact ⟨o, w, (hself hm').1 ▸ hk, ho⟩
    · simp only [hupdate hfd]
  · intro o₁ o₂ fd' w₁ w₂ h₁ h₂
    by_cases hfd : fd' = fd
    · subst hfd
      rw [(hself h₁).1, (hself h₂).1]
    · rw [hupdate hfd] at h₁ h₂
      exact h.unique _ _ _ _ _ h₁ h₂
  · exact h.event_closed
  · intro fd'
    by_cases hfd : fd' = fd
    · subst hfd
      have hwatch : (∃ o', Function.update m o (some (fd', w₀)) o' = some (fd', true)) ↔ w₀ = true := by
        constructor
        · rintro ⟨o', hm'⟩
          exact (hself hm').2.symm
        · rintro rfl
          exact ⟨o, Function.update_self ..⟩
      rw [hwatch, or_iff_right (h.ne_event ho)]
      cases w₀ with
      | true => simp
      | false => simp
    · simp only [hupdate hfd]
      rw [← h.mem_watched]
      cases w₀ with
      | true => simp [hfd]
      | false => simp [hfd]

end Custody

end Carrier.Lib
