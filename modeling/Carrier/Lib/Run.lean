import Mathlib.Tactic

/-! Runs of a partial step function over lists of actions. `none` is an action the system
does not admit in that state. -/
namespace Carrier.Lib

/-- The parties of a system of two. -/
inductive Side where
  | a
  | b
  deriving DecidableEq

def Side.other : Side → Side
  | .a => .b
  | .b => .a

@[simp] theorem Side.other_other (s : Side) : s.other.other = s := by cases s <;> rfl

@[simp] theorem Side.other_ne (s : Side) : s.other ≠ s := by cases s <;> decide

@[simp] theorem Side.ne_other (s : Side) : s ≠ s.other := by cases s <;> decide

theorem Side.eq_or_eq_other (s t : Side) : t = s ∨ t = s.other := by
  cases s <;> cases t <;> decide

variable {σ α : Type*} (step : σ → α → Option σ)

def exec : σ → List α → Option σ
  | s, [] => some s
  | s, a :: as => (step s a).bind (exec · as)

/-- Every action of the run meets `C` in the state it is taken in. -/
def Along (C : σ → α → Prop) : σ → List α → Prop
  | _, [] => True
  | s, a :: as => C s a ∧ ∀ s', step s a = some s' → Along C s' as

/-- Where a run gets to: it stops at the first action that is not admitted. -/
def execUntil : σ → List α → σ
  | s, [] => s
  | s, a :: as =>
    match step s a with
    | none => s
    | some s' => execUntil s' as

variable {step}

@[simp] theorem exec_nil (s : σ) : exec step s [] = some s := rfl

theorem exec_cons (s : σ) (a : α) (as : List α) :
    exec step s (a :: as) = (step s a).bind (exec step · as) := rfl

theorem exec_cons_eq_some {s s' : σ} {a : α} {as : List α} :
    exec step s (a :: as) = some s' ↔ ∃ m, step s a = some m ∧ exec step m as = some s' := by
  rw [exec_cons, Option.bind_eq_some_iff]

theorem exec_append (s : σ) (as bs : List α) :
    exec step s (as ++ bs) = (exec step s as).bind (exec step · bs) := by
  induction as generalizing s with
  | nil => rfl
  | cons a as ih =>
    rw [List.cons_append, exec_cons, exec_cons, Option.bind_assoc]
    congr 1
    funext m
    exact ih m

theorem exec_append_eq_some {s s' : σ} {as bs : List α} :
    exec step s (as ++ bs) = some s' ↔
      ∃ m, exec step s as = some m ∧ exec step m bs = some s' := by
  rw [exec_append, Option.bind_eq_some_iff]

/-- What one admitted step preserves, a whole run whose actions meet `C` preserves. -/
theorem exec_invariant_along {C : σ → α → Prop} {I : σ → Prop}
    (hstep : ∀ s a s', I s → C s a → step s a = some s' → I s')
    {s s' : σ} {as : List α} (hI : I s) (hC : Along step C s as)
    (h : exec step s as = some s') : I s' := by
  induction as generalizing s with
  | nil =>
    cases h
    exact hI
  | cons a as ih =>
    obtain ⟨m, hm, hrest⟩ := exec_cons_eq_some.mp h
    exact ih (hstep s a m hI hC.1 hm) (hC.2 m hm) hrest

/-- Two systems whose steps keep a relation, and fail together, keep it over a run. -/
theorem exec_rel {τ : Type*} {step' : τ → α → Option τ} {R : σ → τ → Prop}
    (hstep : ∀ s t a, R s t → Option.Rel R (step s a) (step' t a)) {s : σ} {t : τ} (hR : R s t)
    (as : List α) : Option.Rel R (exec step s as) (exec step' t as) := by
  induction as generalizing s t with
  | nil => exact .some hR
  | cons a as ih =>
    rw [exec_cons, exec_cons]
    have h := hstep s t a hR
    generalize step s a = x at h ⊢
    generalize step' t a = y at h ⊢
    cases h with
    | none => exact .none
    | some hab => exact ih hab

/-- Where an action that meets `C` is admitted and preserves `I`, so is a run of such actions. -/
theorem exec_progress_along {C : σ → α → Prop} {I : σ → Prop}
    (hstep : ∀ s a, I s → C s a → ∃ s', step s a = some s' ∧ I s')
    {s : σ} {as : List α} (hI : I s) (hC : Along step C s as) :
    ∃ s', exec step s as = some s' ∧ I s' := by
  induction as generalizing s with
  | nil => exact ⟨s, rfl, hI⟩
  | cons a as ih =>
    obtain ⟨m, hm, hIm⟩ := hstep s a hI hC.1
    obtain ⟨s', hs', hIs'⟩ := ih hIm (hC.2 m hm)
    exact ⟨s', exec_cons_eq_some.mpr ⟨m, hm, hs'⟩, hIs'⟩

theorem along_append {C : σ → α → Prop} {s : σ} {as bs : List α} :
    Along step C s (as ++ bs) ↔
      Along step C s as ∧ ∀ m, exec step s as = some m → Along step C m bs := by
  induction as generalizing s with
  | nil => simp [Along]
  | cons a as ih =>
    rw [List.cons_append, Along, Along, and_assoc]
    apply and_congr_right'
    simp only [ih, exec_cons_eq_some]
    constructor
    · intro h
      refine ⟨fun s' hs' => (h s' hs').1, ?_⟩
      rintro m ⟨s', hs', hm⟩
      exact (h s' hs').2 m hm
    · rintro ⟨h, hrest⟩ s' hs'
      exact ⟨h s' hs', fun m hm => hrest m ⟨s', hs', hm⟩⟩

/-- A property that a step keeps exactly where its action meets `C` holds after a run exactly when
it held before and all actions meet `C`. -/
theorem exec_iff_along {C : σ → α → Prop} {I P : σ → Prop}
    (hstep : ∀ s a s', I s → step s a = some s' → I s' ∧ (P s' ↔ P s ∧ C s a))
    {s s' : σ} {as : List α} (hI : I s) (h : exec step s as = some s') :
    P s' ↔ P s ∧ Along step C s as := by
  induction as generalizing s with
  | nil =>
    cases h
    exact (and_iff_left trivial).symm
  | cons a as ih =>
    obtain ⟨m, hm, hrest⟩ := exec_cons_eq_some.mp h
    obtain ⟨hIm, hPm⟩ := hstep s a m hI hm
    rw [ih hIm hrest, hPm, and_assoc]
    apply and_congr_right'
    apply and_congr_right'
    constructor
    · intro hrun s' hs'
      cases hm.symm.trans hs'
      exact hrun
    · intro hrun
      exact hrun m hm

/-- The same where actions that meet `C` are admitted: a run comes to an end with the property exactly
when all its actions meet `C`. -/
theorem exists_exec_iff_along {C : σ → α → Prop} {I P : σ → Prop}
    (hstep : ∀ s a s', I s → step s a = some s' → I s' ∧ (P s' ↔ P s ∧ C s a))
    (hnext : ∀ s a, C s a → ∃ s', step s a = some s') {s : σ} (hI : I s) (hP : P s) (as : List α) :
    (∃ s', exec step s as = some s' ∧ P s') ↔ Along step C s as := by
  constructor
  · rintro ⟨s', h, hP'⟩
    exact ((exec_iff_along hstep hI h).mp hP').2
  · intro hC
    obtain ⟨s', h, -, hP'⟩ := exec_progress_along (I := fun s => I s ∧ P s) (by
      rintro s a ⟨hI, hP⟩ hC
      obtain ⟨s', hs'⟩ := hnext s a hC
      obtain ⟨hI', hiff⟩ := hstep s a s' hI hs'
      exact ⟨s', hs', hI', hiff.mpr ⟨hP, hC⟩⟩) ⟨hI, hP⟩ hC
    exact ⟨s', h, hP'⟩

/-- Two conditions that agree wherever an invariant holds agree along a run. -/
theorem along_congr {C D : σ → α → Prop} {I : σ → Prop}
    (hstep : ∀ s a s', I s → step s a = some s' → I s') (hCD : ∀ s a, I s → (C s a ↔ D s a))
    {s : σ} (hI : I s) (as : List α) : Along step C s as ↔ Along step D s as := by
  induction as generalizing s with
  | nil => exact Iff.rfl
  | cons a as ih =>
    rw [Along, Along, hCD s a hI]
    apply and_congr_right'
    constructor
    · intro h s' hs'
      exact (ih (hstep s a s' hI hs')).mp (h s' hs')
    · intro h s' hs'
      exact (ih (hstep s a s' hI hs')).mpr (h s' hs')

instance Along.decidable {C : σ → α → Prop} [∀ s a, Decidable (C s a)] :
    ∀ s as, Decidable (Along step C s as)
  | _, [] => isTrue trivial
  | s, a :: as =>
    match h : step s a with
    | none =>
      decidable_of_iff (C s a) ⟨fun hC => ⟨hC, fun _ h' => by cases h.symm.trans h'⟩, And.left⟩
    | some m =>
      have : Decidable (Along step C m as) := Along.decidable m as
      decidable_of_iff (C s a ∧ Along step C m as)
        ⟨fun hC => ⟨hC.1, fun _ h' => Option.some.inj (h.symm.trans h') ▸ hC.2⟩,
          fun hC => ⟨hC.1, hC.2 m h⟩⟩

theorem along_of_mem {C : σ → α → Prop} {as : List α} (h : ∀ a ∈ as, ∀ s, C s a) (s : σ) :
    Along step C s as := by
  induction as generalizing s with
  | nil => trivial
  | cons a as ih =>
    exact ⟨h a List.mem_cons_self s, fun s' _ => ih (fun b hb => h b (List.mem_cons_of_mem _ hb)) s'⟩

theorem exec_invariant {I : σ → Prop} (hstep : ∀ s a s', I s → step s a = some s' → I s')
    {s s' : σ} {as : List α} (hI : I s) (h : exec step s as = some s') : I s' := by
  induction as generalizing s with
  | nil =>
    cases h
    exact hI
  | cons a as ih =>
    obtain ⟨m, hm, hrest⟩ := exec_cons_eq_some.mp h
    exact ih (hstep s a m hI hm) hrest

theorem execUntil_invariant_along {C : σ → α → Prop} {I : σ → Prop}
    (hstep : ∀ s a s', I s → C s a → step s a = some s' → I s') {s : σ} (hI : I s) {as : List α}
    (hC : Along step C s as) : I (execUntil step s as) := by
  induction as generalizing s with
  | nil => exact hI
  | cons a as ih =>
    unfold execUntil
    cases hs : step s a with
    | none => exact hI
    | some s' => exact ih (hstep s a s' hI hC.1 hs) (hC.2 s' hs)

/-- A map of states that commutes with every step commutes with every run. -/
theorem exec_map {τ : Type*} {step' : τ → α → Option τ} {f : σ → τ}
    (hf : ∀ s a, step' (f s) a = (step s a).map f) (s : σ) (as : List α) :
    exec step' (f s) as = (exec step s as).map f := by
  induction as generalizing s with
  | nil => rfl
  | cons a as ih =>
    rw [exec_cons, exec_cons, hf]
    cases step s a with
    | none => rfl
    | some m => exact ih m

/-- All schedules of `n` steps by two parties. -/
def schedules (a b : α) : ℕ → List (List α)
  | 0 => [[]]
  | n + 1 => (schedules a b n).map (a :: ·) ++ (schedules a b n).map (b :: ·)

theorem mem_schedules {a b : α} {l : List α} (hl : ∀ x ∈ l, x = a ∨ x = b) :
    l ∈ schedules a b l.length := by
  induction l with
  | nil => exact List.mem_singleton_self _
  | cons x l ih =>
    have hrest := ih (fun y hy => hl y (List.mem_cons_of_mem _ hy))
    rw [List.length_cons, schedules, List.mem_append]
    obtain rfl | rfl := hl x List.mem_cons_self
    · exact .inl (List.mem_map_of_mem hrest)
    · exact .inr (List.mem_map_of_mem hrest)

section Outcomes

variable {ε τ : Type*}

/-- What a computation that may stop ends with: a state of `P`, or a reason of `Q`. -/
def Ends (Q : ε → Prop) (P : σ → Prop) : Except ε σ → Prop
  | .ok s => P s
  | .error e => Q e

variable {Q : ε → Prop} {P P' : σ → Prop} {R : τ → Prop} {x y : Except ε σ} {f g : σ → Except ε τ}

theorem Ends.imp (h : Ends Q P x) (hP : ∀ s, P s → P' s) : Ends Q P' x := by
  cases x with
  | ok s => exact hP s h
  | error e => exact h

theorem Ends.bind (h : Ends Q P x) (hf : ∀ s, P s → Ends Q R (f s)) : Ends Q R (x.bind f) := by
  cases x with
  | ok s => exact hf s h
  | error e => exact h

theorem Ends.map {k : σ → τ} (h : Ends Q P x) (hk : ∀ s, P s → R (k s)) : Ends Q R (x.map k) := by
  cases x with
  | ok s => exact hk s h
  | error e => exact h

/-- Where the one computation ends in a state, so does the other. -/
def Agrees (x y : Except ε σ) : Prop := ∀ s, x = .ok s → y = .ok s

theorem Agrees.refl (x : Except ε σ) : Agrees x x := fun _ h => h

theorem Agrees.bind (h : Agrees x y) (hfg : ∀ s, Agrees (f s) (g s)) :
    Agrees (x.bind f) (y.bind g) := by
  intro t ht
  cases x with
  | error e => cases ht
  | ok s =>
    rw [h s rfl]
    exact hfg s t ht

theorem Agrees.map (h : Agrees x y) (k : σ → τ) : Agrees (x.map k) (y.map k) := by
  intro t ht
  cases x with
  | error e => cases ht
  | ok s =>
    rw [h s rfl]
    exact ht

end Outcomes

section Results

variable {τ : Type*}

/-- A computation that comes to a result, and one of `P`. -/
def Yields (P : σ → Prop) (x : Option σ) : Prop := ∃ s, x = some s ∧ P s

variable {P P' : σ → Prop} {R : τ → Prop} {x : Option σ} {f : σ → Option τ}

theorem yields_some {s : σ} (h : P s) : Yields P (some s) := ⟨s, rfl, h⟩

theorem Yields.imp (h : Yields P x) (hP : ∀ s, P s → P' s) : Yields P' x := by
  obtain ⟨s, hs, h⟩ := h
  exact ⟨s, hs, hP s h⟩

theorem Yields.bind (h : Yields P x) (hf : ∀ s, P s → Yields R (f s)) : Yields R (x.bind f) := by
  obtain ⟨s, rfl, h⟩ := h
  exact hf s h

theorem Yields.map {k : σ → τ} (h : Yields P x) (hk : ∀ s, P s → R (k s)) : Yields R (x.map k) := by
  obtain ⟨s, rfl, h⟩ := h
  exact ⟨k s, rfl, hk s h⟩

/-- What every call of a list preserves, the list preserves. -/
theorem Yields.foldlM {α : Type*} {step : σ → α → Option σ} {I : σ → List α → Prop}
    (hstep : ∀ s a as, I s (a :: as) → Yields (I · as) (step s a)) {s : σ} {as : List α}
    (h : I s as) : Yields (I · []) (as.foldlM step s) := by
  induction as generalizing s with
  | nil => exact yields_some h
  | cons a as ih =>
    rw [List.foldlM_cons]
    exact (hstep s a as h).bind (fun s' hs' => ih hs')

/-- A computation that comes to no result but one of `P`. -/
def Gives (P : σ → Prop) (x : Option σ) : Prop := ∀ s, x = some s → P s

theorem gives_some {s : σ} (h : P s) : Gives P (some s) := by
  intro t ht
  obtain rfl := Option.some.inj ht
  exact h

theorem gives_none : Gives P none := fun _ h => nomatch h

theorem Gives.imp (h : Gives P x) (hP : ∀ s, P s → P' s) : Gives P' x := fun s hs => hP s (h s hs)

theorem Gives.bind (h : Gives P x) (hf : ∀ s, P s → Gives R (f s)) : Gives R (x.bind f) := by
  cases x with
  | none => exact gives_none
  | some s => exact hf s (h s rfl)

theorem Gives.map {k : σ → τ} (h : Gives P x) (hk : ∀ s, P s → R (k s)) : Gives R (x.map k) := by
  cases x with
  | none => exact gives_none
  | some s => exact gives_some (hk s (h s rfl))

theorem Gives.foldlM {α : Type*} {step : σ → α → Option σ} (hstep : ∀ s a, P s → Gives P (step s a))
    {s : σ} {as : List α} (h : P s) : Gives P (as.foldlM step s) := by
  induction as generalizing s with
  | nil => exact gives_some h
  | cons a as ih =>
    rw [List.foldlM_cons]
    exact (hstep s a h).bind (fun s' hs' => ih hs')

end Results

end Carrier.Lib
