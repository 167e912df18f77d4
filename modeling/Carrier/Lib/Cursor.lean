import Carrier.Lib.Run

/-! A cursor over a sequence, which can take out the element it has passed last. An iterator of a
container is one if each of its calls does to the container what the cursor does to the sequence. -/
namespace Carrier.Lib

section Trace

variable {S S' O R R' : Type*}

/-- The calls of a run, with their results. -/
def trace (step : S → O → Option (S × R)) : S → List O → Option (S × List R)
  | s, [] => some (s, [])
  | s, op :: ops =>
    (step s op).bind (fun (s, r) => (trace step s ops).map (fun (s, rs) => (s, r :: rs)))

variable {step : S → O → Option (S × R)} {step' : S' → O → Option (S' × R')}

theorem trace_cons_eq_some {s s' : S} {op : O} {ops : List O} {rs : List R} :
    trace step s (op :: ops) = some (s', rs) ↔ ∃ m r rest, step s op = some (m, r) ∧
      trace step m ops = some (s', rest) ∧ rs = r :: rest := by
  rw [trace, Option.bind_eq_some_iff]
  constructor
  · intro h
    obtain ⟨⟨m, r⟩, hstep, hrest⟩ := h
    obtain ⟨⟨s₁, rest⟩, htrace, heq⟩ := Option.map_eq_some_iff.mp hrest
    cases heq
    exact ⟨m, r, rest, hstep, htrace, rfl⟩
  · intro h
    obtain ⟨m, r, rest, hstep, htrace, rfl⟩ := h
    refine ⟨(m, r), hstep, ?_⟩
    dsimp only
    rw [htrace, Option.map_some]

/-- If every call of the one side is a call of the other, every run is. -/
theorem trace_simulation {rel : S → S' → Prop} {view : R' → R}
    (hstep : ∀ s s' op m' r, rel s s' → step' s' op = some (m', r) →
      ∃ m, step s op = some (m, view r) ∧ rel m m')
    {s : S} {s' m' : S'} {ops : List O} {rs : List R'} (hrel : rel s s')
    (h : trace step' s' ops = some (m', rs)) :
    ∃ m, trace step s ops = some (m, rs.map view) ∧ rel m m' := by
  induction ops generalizing s s' rs with
  | nil =>
    cases h
    exact ⟨s, rfl, hrel⟩
  | cons op ops ih =>
    obtain ⟨n', r, rest, hop, hrest, rfl⟩ := trace_cons_eq_some.mp h
    obtain ⟨n, hcall, hreln⟩ := hstep s s' op n' r hrel hop
    obtain ⟨m, hrun, hrelm⟩ := ih hreln hrest
    exact ⟨m, trace_cons_eq_some.mpr ⟨n, view r, rest.map view, hcall, hrun, rfl⟩, hrelm⟩

end Trace

inductive CursorOp where
  | next
  | hasNext
  | remove
  deriving DecidableEq

inductive CursorResult (E : Type*) where
  | visited (e : E)
  | ended
  | more (yes : Bool)
  | removed (e : E)

/-- The elements the cursor has passed and left, the one it has passed last unless it was taken out,
and those ahead of it. -/
structure Cursor (E : Type*) where
  passed : List E
  current : Option E
  ahead : List E

variable {E : Type*}

namespace Cursor

/-- A cursor in front of a sequence. -/
def start (es : List E) : Cursor E := ⟨[], none, es⟩

/-- The sequence as it is now. -/
def elements (c : Cursor E) : List E := c.passed ++ (c.current.toList ++ c.ahead)

/-- An element can only be taken out after it was visited. -/
def step (c : Cursor E) : CursorOp → Option (Cursor E × CursorResult E)
  | .next =>
    match c.ahead with
    | [] => some (c, .ended)
    | e :: ahead => some (⟨c.passed ++ c.current.toList, some e, ahead⟩, .visited e)
  | .hasNext => some (c, .more (!c.ahead.isEmpty))
  | .remove => c.current.map (fun e => (⟨c.passed, none, c.ahead⟩, .removed e))

end Cursor

/-- The elements that `next` has given. -/
def visitedOf (rs : List (CursorResult E)) : List E :=
  rs.filterMap (fun | .visited e => some e | _ => none)

/-- The elements that `remove` has taken out. -/
def removedOf (rs : List (CursorResult E)) : List E :=
  rs.filterMap (fun | .removed e => some e | _ => none)

/-- What an iteration over the elements `es` gives, and what it leaves: `next` gives them in their
order, and ends when it has given all of them; `hasNext` tells whether there are more; and those
that were not removed are left, in their order. -/
structure Iterates (es : List E) (ops : List CursorOp) (rs : List (CursorResult E))
    (left : List E) : Prop where
  inOrder : visitedOf rs <+: es
  all : .ended ∈ rs → visitedOf rs = es
  ends : es.length < ops.count .next → .ended ∈ rs
  hasNext : ∀ before yes after, rs = before ++ .more yes :: after → (yes = true ↔ visitedOf before ≠ es)
  removed : removedOf rs ⊆ visitedOf rs
  sublist : left.Sublist es
  mem_left : ∀ e ∈ es, e ∈ left ↔ e ∉ removedOf rs

namespace Cursor

variable {c c' : Cursor E} {op : CursorOp} {r : CursorResult E} {ops : List CursorOp}
  {rs : List (CursorResult E)}

@[simp] theorem elements_start (es : List E) : (start es).elements = es := rfl

theorem visitedOf_cons (r : CursorResult E) (rs : List (CursorResult E)) :
    visitedOf (r :: rs) = visitedOf [r] ++ visitedOf rs := by
  cases r <;> rfl

theorem removedOf_cons (r : CursorResult E) (rs : List (CursorResult E)) :
    removedOf (r :: rs) = removedOf [r] ++ removedOf rs := by
  cases r <;> rfl

/-- What each call gives and does to the sequence. -/
theorem step_cases (h : c.step op = some (c', r)) :
    (∃ e, op = .next ∧ r = .visited e ∧ c.ahead = e :: c'.ahead ∧ c'.current = some e ∧
        c'.elements = c.elements) ∨
      (op = .next ∧ r = .ended ∧ c.ahead = [] ∧ c' = c) ∨
      (op = .hasNext ∧ r = .more (!c.ahead.isEmpty) ∧ c' = c) ∨
      ∃ e, op = .remove ∧ r = .removed e ∧ c.current = some e ∧ c'.current = none ∧
        c'.ahead = c.ahead ∧ c.elements = c.passed ++ e :: c.ahead ∧
        c'.elements = c.passed ++ c.ahead := by
  cases op with
  | next =>
    unfold step at h
    cases hahead : c.ahead with
    | nil =>
      simp only [hahead, Option.some.injEq, Prod.mk.injEq] at h
      exact .inr (.inl ⟨rfl, h.2.symm, rfl, h.1.symm⟩)
    | cons e ahead =>
      simp only [hahead, Option.some.injEq, Prod.mk.injEq] at h
      obtain ⟨rfl, rfl⟩ := h
      refine .inl ⟨e, rfl, rfl, rfl, rfl, ?_⟩
      simp [elements, hahead]
  | hasNext =>
    cases h
    exact .inr (.inr (.inl ⟨rfl, rfl, rfl⟩))
  | remove =>
    obtain ⟨e, hcurrent, heq⟩ := Option.map_eq_some_iff.mp h
    cases heq
    refine .inr (.inr (.inr ⟨e, rfl, rfl, hcurrent, rfl, rfl, ?_, rfl⟩))
    simp [elements, hcurrent]

theorem step_ahead (h : c.step op = some (c', r)) : c.ahead = visitedOf [r] ++ c'.ahead := by
  rcases step_cases h with ⟨e, -, rfl, hahead, -⟩ | ⟨-, rfl, -, rfl⟩ | ⟨-, rfl, rfl⟩ |
    ⟨e, -, rfl, -, -, hahead, -⟩
  · exact hahead
  · rfl
  · rfl
  · exact hahead.symm

/-- What was visited and what is ahead are always the sequence there was. -/
theorem trace_ahead (h : trace step c ops = some (c', rs)) : c.ahead = visitedOf rs ++ c'.ahead := by
  induction ops generalizing c rs with
  | nil =>
    cases h
    rfl
  | cons op ops ih =>
    obtain ⟨m, r, rest, hop, hrest, rfl⟩ := trace_cons_eq_some.mp h
    rw [step_ahead hop, ih hrest, visitedOf_cons r rest, List.append_assoc]

/-- The end is at the end. -/
theorem trace_ended (h : trace step c ops = some (c', rs)) (hended : .ended ∈ rs) :
    c'.ahead = [] := by
  induction ops generalizing c rs with
  | nil =>
    cases h
    exact absurd hended List.not_mem_nil
  | cons op ops ih =>
    obtain ⟨m, r, rest, hop, hrest, rfl⟩ := trace_cons_eq_some.mp h
    rcases List.mem_cons.mp hended with hr | hin
    · rcases step_cases hop with ⟨e, -, rfl, -⟩ | ⟨-, -, hahead, rfl⟩ | ⟨-, rfl, -⟩ |
        ⟨e, -, rfl, -⟩
      · cases hr
      · have hempty := trace_ahead hrest
        rw [hahead] at hempty
        exact (List.append_eq_nil_iff.mp hempty.symm).2
      · cases hr
      · cases hr
    · exact ih hrest hin

/-- A call of `next` gives an element or ends. -/
theorem trace_next (h : trace step c ops = some (c', rs)) (hnever : .ended ∉ rs) :
    ops.count .next = (visitedOf rs).length := by
  induction ops generalizing c rs with
  | nil =>
    cases h
    rfl
  | cons op ops ih =>
    obtain ⟨m, r, rest, hop, hrest, rfl⟩ := trace_cons_eq_some.mp h
    have hcount := ih hrest (fun hin => hnever (List.mem_cons_of_mem _ hin))
    rcases step_cases hop with ⟨e, rfl, rfl, -⟩ | ⟨-, rfl, -⟩ | ⟨rfl, rfl, -⟩ | ⟨e, rfl, rfl, -⟩
    · rw [List.count_cons_self, hcount]
      rfl
    · exact absurd List.mem_cons_self hnever
    · rw [List.count_cons_of_ne (by decide), hcount]
      rfl
    · rw [List.count_cons_of_ne (by decide), hcount]
      rfl

theorem trace_hasNext (h : trace step c ops = some (c', rs)) {before after : List (CursorResult E)}
    {yes : Bool} (hrs : rs = before ++ .more yes :: after) :
    yes = true ↔ visitedOf before ≠ c.ahead := by
  induction ops generalizing c rs before with
  | nil =>
    cases h
    cases before <;> cases hrs
  | cons op ops ih =>
    obtain ⟨m, r, rest, hop, hrest, rfl⟩ := trace_cons_eq_some.mp h
    cases before with
    | nil =>
      obtain ⟨rfl, rfl⟩ := List.cons.inj hrs
      rcases step_cases hop with ⟨e, -, hr, -⟩ | ⟨-, hr, -⟩ | ⟨-, hr, -⟩ | ⟨e, -, hr, -⟩
      · cases hr
      · cases hr
      · cases hr
        cases c.ahead <;> simp [visitedOf]
      · cases hr
    | cons r' before =>
      obtain ⟨rfl, hrest'⟩ := List.cons.inj hrs
      rw [ih hrest hrest', visitedOf_cons, step_ahead hop, Ne, Ne, List.append_cancel_left_eq]

/-- What is taken out was passed last, or visited in the run. -/
theorem trace_removed (h : trace step c ops = some (c', rs)) :
    removedOf rs ⊆ c.current.toList ++ visitedOf rs := by
  induction ops generalizing c rs with
  | nil =>
    cases h
    exact List.nil_subset _
  | cons op ops ih =>
    obtain ⟨m, r, rest, hop, hrest, rfl⟩ := trace_cons_eq_some.mp h
    have hsub := ih hrest
    intro x hx
    rcases step_cases hop with ⟨e, -, rfl, -, hcurrent, -⟩ | ⟨-, rfl, -, rfl⟩ | ⟨-, rfl, rfl⟩ |
      ⟨e, -, rfl, hcurrent, hnone, -⟩
    · have hin := hsub hx
      rw [hcurrent] at hin
      exact List.mem_append_right _ hin
    · exact hsub hx
    · exact hsub hx
    · rcases List.mem_cons.mp hx with rfl | hx
      · rw [hcurrent]
        exact List.mem_append_left _ List.mem_cons_self
      · have hin := hsub hx
        rw [hnone] at hin
        exact List.mem_append_right _ hin

/-- What is not taken out stays, in its order. -/
theorem trace_elements (h : trace step c ops = some (c', rs)) (hnd : c.elements.Nodup) :
    c'.elements.Sublist c.elements ∧
      ∀ e ∈ c.elements, e ∈ c'.elements ↔ e ∉ removedOf rs := by
  induction ops generalizing c rs with
  | nil =>
    cases h
    exact ⟨List.Sublist.refl _, fun e he => iff_of_true he List.not_mem_nil⟩
  | cons op ops ih =>
    obtain ⟨m, r, rest, hop, hrest, rfl⟩ := trace_cons_eq_some.mp h
    have hkeep (hsame : m.elements = c.elements) (hnone : removedOf [r] = []) :
        c'.elements.Sublist c.elements ∧
          ∀ e ∈ c.elements, e ∈ c'.elements ↔ e ∉ removedOf (r :: rest) := by
      rw [removedOf_cons, hnone, List.nil_append, ← hsame]
      exact ih hrest (hsame ▸ hnd)
    rcases step_cases hop with ⟨e, -, rfl, -, -, helements⟩ | ⟨-, rfl, -, rfl⟩ | ⟨-, rfl, rfl⟩ |
      ⟨e, -, rfl, -, -, -, hbefore, hafter⟩
    · exact hkeep helements rfl
    · exact hkeep rfl rfl
    · exact hkeep rfl rfl
    · have hsub : m.elements.Sublist c.elements := by
        rw [hbefore, hafter]
        exact (List.sublist_cons_self e c.ahead).append_left c.passed
      obtain ⟨hleft, hmem⟩ := ih hrest (hnd.sublist hsub)
      have hout : e ∉ m.elements := by
        rw [hbefore] at hnd
        rw [hafter]
        exact (List.nodup_cons.mp (List.nodup_middle.mp hnd)).1
      refine ⟨hleft.trans hsub, fun x hx => ?_⟩
      rw [removedOf_cons, List.mem_append, not_or]
      by_cases hxe : x = e
      · subst hxe
        refine iff_of_false (fun hin => hout (hleft.mem hin)) (fun hno => hno.1 ?_)
        exact List.mem_singleton_self x
      · have hxm : x ∈ m.elements := by
          rw [hbefore, List.mem_append, List.mem_cons] at hx
          rw [hafter, List.mem_append]
          tauto
        rw [hmem x hxm, iff_and_self]
        exact fun _ hin => hxe (List.mem_singleton.mp hin)

/-- Every run of a cursor from the start of a sequence is an iteration over it. -/
theorem iterates {es : List E} (hnd : es.Nodup) (h : trace step (start es) ops = some (c', rs)) :
    Iterates es ops rs c'.elements := by
  have hahead : es = visitedOf rs ++ c'.ahead := trace_ahead h
  obtain ⟨hsub, hmem⟩ := trace_elements h hnd
  constructor
  case inOrder => exact ⟨_, hahead.symm⟩
  case all =>
    intro hended
    rw [trace_ended h hended, List.append_nil] at hahead
    exact hahead.symm
  case ends =>
    intro hlong
    by_contra hnever
    rw [trace_next h hnever, hahead, List.length_append] at hlong
    omega
  case hasNext => exact fun _ _ _ hrs => trace_hasNext h hrs
  case removed => exact trace_removed h
  case sublist => exact hsub
  case mem_left => exact hmem

end Cursor

end Carrier.Lib
