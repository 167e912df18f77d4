import Carrier.Common.HashtableRep
import Carrier.Lib.OrderedMap
import Carrier.Lib.Run

/-! The linked hash table is a finite map in the order of insertion, and holds one reference on the
data of each entry. -/
namespace Carrier.Common
open Carrier.Lib

/-- The operations of a table. An iteration gives for each entry the caller goes on to whether it
removes it. -/
inductive HashOp (K A D : Type*) where
  | put (new : A) (key : K) (data : D)
  | get (key : K)
  | exist (key : K)
  | isEmpty
  | remove (key : K)
  | clear
  | iterate (choices : List Bool)

inductive HashResult (K D : Type*) where
  | stored (data : D)
  | taken (data : Option D)
  | answer (yes : Bool)
  | done
  | visited (seen : List (K × D))
  deriving DecidableEq

variable {K A D : Type*} [DecidableEq A] [DecidableEq D]

/-- One call of `linkedhashtable.c`; `none` is an access outside of the table. -/
def hashStep (H : HashOps K) (t : Hashtable K A D) :
    HashOp K A D → Option (Hashtable K A D × HashResult K D)
  | .put new key data => (hashtablePut H t new key data).map (fun (t, d) => (t, .stored d))
  | .get key => (hashtableGet H t key).map (fun (t, d) => (t, .taken d))
  | .exist key => (hashtableExist H t key).map (fun yes => (t, .answer yes))
  | .isEmpty => some (t, .answer (hashtableIsEmpty t))
  | .remove key => (hashtableRemove H t key).map (fun (t, d) => (t, .taken d))
  | .clear => (hashtableClear t).map (fun t => (t, .done))
  | .iterate choices =>
    (iterateLoop H choices t (hashtableIterate t)).map (fun (t, seen) => (t, .visited seen))

/-- The same call on the map whose keys are told apart by `same`. -/
def mapStep (same : K → K → Bool) (es : List (Entry K A D)) :
    HashOp K A D → List (Entry K A D) × HashResult K D
  | .put new key data => (putEntry (same ·.key key) es ⟨new, key, data⟩, .stored data)
  | .get key => (es, .taken ((es.find? (same ·.key key)).map Entry.data))
  | .exist key => (es, .answer (es.any (same ·.key key)))
  | .isEmpty => (es, .answer es.isEmpty)
  | .remove key =>
    (removeEntry (same ·.key key) es, .taken ((es.find? (same ·.key key)).map Entry.data))
  | .clear => ([], .done)
  | .iterate choices =>
    let (left, seen) := visit choices es
    (left, .visited (seen.map (fun e => (e.key, e.data))))

/-- An entry that is in the table is put again only as it is. -/
def HashOp.Own (es : List (Entry K A D)) : HashOp K A D → Prop
  | .put new key data => ∀ e ∈ es, e.addr = new → e = ⟨new, key, data⟩
  | _ => True

section References

variable {K A D : Type*} [DecidableEq D]

/-- The references on `d` that the caller gets with a result. -/
def HashResult.handed : HashResult K D → D → ℕ
  | .taken data, d => data.toList.count d
  | .visited seen, d => (seen.map Prod.snd).count d
  | _, _ => 0

/-- The entries with the data `d`. -/
def entryRefs (es : List (Entry K A D)) (d : D) : ℕ := (es.map Entry.data).count d

@[simp] theorem entryRefs_nil (d : D) : entryRefs ([] : List (Entry K A D)) d = 0 := rfl

@[simp] theorem entryRefs_cons (e : Entry K A D) (es : List (Entry K A D)) (d : D) :
    entryRefs (e :: es) d = entryRefs es d + if e.data = d then 1 else 0 := by
  simp [entryRefs, List.count_cons]

@[simp] theorem entryRefs_append (l r : List (Entry K A D)) (d : D) :
    entryRefs (l ++ r) d = entryRefs l d + entryRefs r d := by
  simp [entryRefs]

@[simp] theorem Hashtable.ref_nrefs (t : Hashtable K A D) (d x : D) :
    (t.ref d).nrefs x = t.nrefs x + if d = x then 1 else 0 := by
  by_cases h : d = x
  · simp [Hashtable.ref, h]
  · simp [Hashtable.ref, h, Function.update_of_ne (Ne.symm h)]

@[simp] theorem Hashtable.deref_nrefs (t : Hashtable K A D) (d x : D) :
    (t.deref d).nrefs x = t.nrefs x - if d = x then 1 else 0 := by
  by_cases h : d = x
  · simp [Hashtable.deref, h]
  · simp [Hashtable.deref, h, Function.update_of_ne (Ne.symm h)]

/-- The loop of `hashtable_clear_i` gives up one reference for each entry. -/
theorem clearLoop_spec {t : Hashtable K A D} {v : Option A} (es : List (Entry K A D))
    (hring : Seg some t.lstNext v (es.map Entry.addr) none)
    (hdata : ∀ e ∈ es, t.data e.addr = e.data) :
    ∃ nrefs, clearLoop es.length t v = some { t with nrefs := nrefs } ∧
      ∀ d, nrefs d = t.nrefs d - entryRefs es d := by
  induction es generalizing t v with
  | nil =>
    have hv : v = none := hring
    subst hv
    exact ⟨t.nrefs, rfl, fun d => by simp⟩
  | cons e es ih =>
    obtain ⟨rfl, hrest⟩ := hring
    have he := hdata e List.mem_cons_self
    obtain ⟨nrefs, hloop, hnrefs⟩ := ih (t := t.deref e.data) hrest
      (fun x hx => hdata x (List.mem_cons_of_mem _ hx))
    refine ⟨nrefs, ?_, fun d => ?_⟩
    · rw [List.length_cons, clearLoop, he]
      exact hloop
    · rw [hnrefs, Hashtable.deref_nrefs, entryRefs_cons]
      push_cast
      omega

/-- A table holds the entries `es` and one reference for each of them, next to the references
`base` of everybody else. -/
structure Holds (H : HashOps K) (c : ℕ) (t : Hashtable K A D) (es : List (Entry K A D))
    (base : D → ℤ) : Prop where
  rep : Rep H c t es
  refs : ∀ d, t.nrefs d = base d + entryRefs es d

end References

/-- Whatever references there are, the table holds one for each entry next to the others. -/
theorem Rep.holds {K A D : Type*} [DecidableEq D] {H : HashOps K} {c : ℕ} {t : Hashtable K A D}
    {es : List (Entry K A D)} (h : Rep H c t es) :
    Holds H c t es (fun d => t.nrefs d - entryRefs es d) :=
  ⟨h, fun d => by omega⟩

/-- No two entries have the key asked for. -/
theorem Rep.hit_one {K A D : Type*} {H : HashOps K} {c : ℕ} {t : Hashtable K A D}
    {es : List (Entry K A D)} (h : Rep H c t es)
    (hsame : Equivalence (fun k k' => H.same k k' = true)) (key : K) :
    es.Pairwise (fun x y => ¬(H.same x.key key = true ∧ H.same y.key key = true)) := by
  refine h.distinct.imp (fun {x y} hxy hboth => ?_)
  have := hsame.trans hboth.1 (hsame.symm hboth.2)
  rw [hxy] at this
  cases this

theorem bucketIdx?_eq {c : ℕ} {hashCode : BitVec 32} (h : hashCode.toNat % c < 2 ^ 31) :
    bucketIdx? c hashCode = some (hashCode.toNat % c) := if_pos h

section Put

variable {H : HashOps K} {c : ℕ} {t : Hashtable K A D} {key : K} {new ent : A} {data : D}

theorem hashtablePut_add {t₁ : Hashtable K A D} (ht : (t.setEntry new key data).ref data = t₁)
    (hcap : t₁.capacity = c) (hfits : (H.hashCode key).toNat % c < 2 ^ 31)
    (hget : hashtableGetEntry H t₁ key = some none) :
    hashtablePut H t new key data = some
      ({ hashtableAddAt t₁ new (H.hashCode key) ((H.hashCode key).toNat % c) with
        modCount := t₁.modCount + 1 }, data) := by
  have hkey : t₁.key new = key := by
    rw [← ht]
    exact Function.update_self _ _ _
  have hdata : t₁.data new = data := by
    rw [← ht]
    exact Function.update_self _ _ _
  unfold hashtablePut
  simp only [ht, hget, hashtableAdd, hkey, hcap, bucketIdx?_eq hfits, Option.map_some]
  rw [← hdata]
  rfl

theorem hashtablePut_replace {t₁ : Hashtable K A D} {slot : Slot A}
    (ht : (t.setEntry new key data).ref data = t₁)
    (hget : hashtableGetEntry H t₁ key = some (some slot)) (hslot : t₁.link slot = some ent) :
    hashtablePut H t new key data = some
      ({ hashtableReplace t₁ slot ent new with modCount := t₁.modCount + 1 }, data) := by
  have hdata : t₁.data new = data := by
    rw [← ht]
    exact Function.update_self _ _ _
  unfold hashtablePut
  simp only [ht, hget, hslot, Option.map_some]
  rw [← hdata]
  rfl

end Put

namespace Holds

section Read

variable {K A D : Type*} [DecidableEq D] {H : HashOps K} {c : ℕ} {t : Hashtable K A D}
  {es : List (Entry K A D)} {base base' : D → ℤ} {key : K} {data : D}

theorem ref (h : Holds H c t es base) (data : D) :
    Holds H c (t.ref data) es (fun d => base d + if data = d then 1 else 0) := by
  refine ⟨h.rep.counters _ _, fun d => ?_⟩
  rw [Hashtable.ref_nrefs, h.refs d]
  omega

theorem deref (h : Holds H c t es base)
    (hbase : ∀ d, base d = base' d + if data = d then 1 else 0) :
    Holds H c (t.deref data) es base' := by
  refine ⟨h.rep.counters _ _, fun d => ?_⟩
  rw [Hashtable.deref_nrefs, h.refs d, hbase d]
  omega

variable (h : Holds H c t es base) (hsame : Equivalence (fun k k' => H.same k k' = true))
  (hfits : (H.hashCode key).toNat % c < 2 ^ 31)
include h hsame hfits

theorem get :
    ∃ t', hashtableGet H t key = some (t', (es.find? (H.same ·.key key)).map Entry.data) ∧
      Holds H c t' es
        (fun d => base d + ((es.find? (H.same ·.key key)).map Entry.data).toList.count d) := by
  unfold hashtableGet
  cases hfind : es.find? (H.same ·.key key) with
  | none =>
    rw [h.rep.getEntry_none hfits hfind]
    refine ⟨t, rfl, h.rep, fun d => ?_⟩
    simpa using h.refs d
  | some e =>
    obtain ⟨l, r, rfl, he, hl, hr⟩ := split_of_find_some hfind (h.rep.hit_one hsame key)
    obtain ⟨pre, post, -, -, -, hget, hslot⟩ := h.rep.getEntry_some hfits rfl he hl hr
    have hdata := h.rep.data e (by simp)
    rw [hget]
    refine ⟨t.ref e.data, ?_, h.rep.counters _ _, fun d => ?_⟩
    · simp only [hslot, Option.map_some, hdata]
    · have hd := h.refs d
      rw [Hashtable.ref_nrefs, hd]
      simp only [Option.map_some, Option.toList_some, List.count_singleton, beq_iff_eq]
      push_cast
      omega

theorem exist : hashtableExist H t key = some (es.any (H.same ·.key key)) := by
  unfold hashtableExist
  cases hfind : es.find? (H.same ·.key key) with
  | none =>
    have hany : es.any (H.same ·.key key) = false := by
      rw [List.any_eq_false]
      exact List.find?_eq_none.mp hfind
    rw [h.rep.getEntry_none hfits hfind, hany]
    rfl
  | some e =>
    obtain ⟨l, r, rfl, he, hl, hr⟩ := split_of_find_some hfind (h.rep.hit_one hsame key)
    obtain ⟨pre, post, -, -, -, hget, -⟩ := h.rep.getEntry_some hfits rfl he hl hr
    have hany : (l ++ e :: r).any (H.same ·.key key) = true :=
      List.any_eq_true.mpr ⟨e, by simp, he⟩
    rw [hget, hany]
    rfl

end Read

section Write

variable {H : HashOps K} {c : ℕ} {t : Hashtable K A D} {es : List (Entry K A D)} {base : D → ℤ}
  {key : K} {new : A} {data : D} (h : Holds H c t es base)
  (hsame : Equivalence (fun k k' => H.same k k' = true))
  (hfits : (H.hashCode key).toNat % c < 2 ^ 31)
include h hsame hfits

theorem put (hown : ∀ e ∈ es, e.addr = new → e = ⟨new, key, data⟩) :
    ∃ t', hashtablePut H t new key data = some (t', data) ∧
      Holds H c t' (putEntry (H.same ·.key key) es ⟨new, key, data⟩) base ∧
      t'.modCount = t.modCount + 1 := by
  obtain ⟨t₁, ht⟩ : ∃ t₁, (t.setEntry new key data).ref data = t₁ := ⟨_, rfl⟩
  have hrep : Rep H c t₁ es := by
    rw [← ht]
    exact (h.rep.setEntry hown).counters _ _
  have hkey : t₁.key new = key := by
    rw [← ht]
    exact Function.update_self _ _ _
  have hdata : t₁.data new = data := by
    rw [← ht]
    exact Function.update_self _ _ _
  have hmod : t₁.modCount = t.modCount := by rw [← ht]; rfl
  have hrefs : ∀ d, t₁.nrefs d = base d + entryRefs es d + if data = d then 1 else 0 := by
    intro d
    rw [← h.refs d, ← ht]
    exact Hashtable.ref_nrefs _ data d
  have hother : ∀ e ∈ es, H.same e.key key = false → e.addr ≠ new := by
    intro e he hdiff haddr
    rw [hown e he haddr, hsame.refl key] at hdiff
    cases hdiff
  cases hfind : es.find? (H.same ·.key key) with
  | none =>
    have hno : ∀ e ∈ es, H.same e.key key = false := by
      intro e he
      simpa using List.find?_eq_none.mp hfind e he
    have hnew : new ∉ es.map Entry.addr := by
      intro hmem
      obtain ⟨e, he, haddr⟩ := List.mem_map.mp hmem
      exact hother e he (hno e he) haddr
    have hget := hrep.getEntry_none hfits hfind
    refine ⟨_, hashtablePut_add ht hrep.capacity hfits hget, ⟨?_, ?_⟩, congrArg (· + 1) hmod⟩
    · rw [putEntry_of_find_none hfind]
      exact (hrep.add hkey hdata hnew hno).counters _ _
    · intro d
      rw [putEntry_of_find_none hfind]
      have hd := hrefs d
      simp only [hashtableAddAt, entryRefs_append, entryRefs_cons, entryRefs_nil]
      push_cast
      omega
  | some e =>
    obtain ⟨l, r, rfl, he, hl, hr⟩ := split_of_find_some hfind (hrep.hit_one hsame key)
    obtain ⟨pre, post, hchain, hseg, hmem, hget, hslot⟩ :=
      hrep.getEntry_some hfits rfl he hl hr
    have hl' : ∀ x ∈ l, x.addr ≠ new := fun x hx => hother x (by simp [hx]) (hl x hx)
    have hr' : ∀ x ∈ r, x.addr ≠ new := fun x hx => hother x (by simp [hx]) (hr x hx)
    have hput : putEntry (H.same ·.key key) (l ++ e :: r) ⟨new, key, data⟩ =
        l ++ ⟨new, key, data⟩ :: r := putEntry_split he hl hr
    refine ⟨_, hashtablePut_replace ht hget hslot, ⟨?_, ?_⟩, congrArg (· + 1) hmod⟩
    · rw [hput]
      exact (hrep.replace hchain hseg hmem hsame hkey hdata he hl' hr').counters _ _
    · intro d
      rw [hput]
      have hd := hrefs d
      have hderef := Hashtable.deref_nrefs t₁ (t₁.data e.addr) d
      rw [hrep.data e (by simp)] at hderef
      simp only [entryRefs_append, entryRefs_cons] at hd ⊢
      push_cast at hd ⊢
      have hnrefs : (t₁.deref e.data).nrefs d =
        (hashtableReplace t₁ (lastCell Slot.next (.bucket ((t₁.hashCode e.addr).toNat % c)) pre)
          e.addr new).nrefs d := by
        rw [← hrep.data e (by simp)]
        rfl
      omega

theorem remove :
    ∃ t', hashtableRemove H t key = some (t', (es.find? (H.same ·.key key)).map Entry.data) ∧
      Holds H c t' (removeEntry (H.same ·.key key) es)
        (fun d => base d + ((es.find? (H.same ·.key key)).map Entry.data).toList.count d) ∧
      t'.modCount = t.modCount + if es.any (H.same ·.key key) then 1 else 0 := by
  unfold hashtableRemove
  cases hfind : es.find? (H.same ·.key key) with
  | none =>
    have hany : es.any (H.same ·.key key) = false := by
      rw [List.any_eq_false]
      exact List.find?_eq_none.mp hfind
    rw [h.rep.getEntry_none hfits hfind, removeEntry_of_find_none hfind, hany]
    refine ⟨t, rfl, ⟨h.rep, fun d => ?_⟩, (BitVec.add_zero t.modCount).symm⟩
    simpa using h.refs d
  | some e =>
    obtain ⟨l, r, rfl, he, hl, hr⟩ := split_of_find_some hfind (h.rep.hit_one hsame key)
    obtain ⟨pre, post, hchain, hseg, hmem, hget, hslot⟩ :=
      h.rep.getEntry_some hfits rfl he hl hr
    have hremove : removeEntry (H.same ·.key key) (l ++ e :: r) = l ++ r :=
      removeEntry_split he hl hr
    have hdata := h.rep.data e (by simp)
    have hany : (l ++ e :: r).any (H.same ·.key key) = true :=
      List.any_eq_true.mpr ⟨e, by simp, he⟩
    rw [hget, hremove, hany]
    refine ⟨_, ?_, ⟨h.rep.unlink hchain hseg hmem, fun d => ?_⟩, rfl⟩
    · simp only [hslot, Option.map_some, hdata]
    · have hd := h.refs d
      simp only [entryRefs_append, entryRefs_cons, Option.map_some, Option.toList_some,
        List.count_singleton, beq_iff_eq] at hd ⊢
      push_cast at hd ⊢
      change t.nrefs d = _
      omega

end Write

end Holds

theorem Holds.clear {H : HashOps K} {c : ℕ} {t : Hashtable K A D} {es : List (Entry K A D)}
    {base : D → ℤ} (h : Holds H c t es base) :
    ∃ t', hashtableClear t = some t' ∧ Holds H c t' [] base ∧
      t'.modCount = t.modCount + if es.isEmpty then 0 else 1 := by
  unfold hashtableClear
  by_cases hcount : t.count = 0
  · have hes : es = [] := List.length_eq_zero_iff.mp (h.rep.count ▸ hcount)
    subst hes
    rw [if_pos hcount]
    exact ⟨t, rfl, h, (BitVec.add_zero t.modCount).symm⟩
  · obtain ⟨nrefs, hloop, hnrefs⟩ := clearLoop_spec es h.rep.ring.next h.rep.data
    rw [if_neg hcount, h.rep.count, hloop]
    refine ⟨_, rfl, ⟨?_, fun d => ?_⟩, ?_⟩
    · exact Rep.empty h.rep.capacity rfl (fun _ => rfl) (Function.update_self none none t.lstNext)
        (Function.update_self none none t.lstPrev)
    · have hd := h.refs d
      have hn := hnrefs d
      simp only [entryRefs_nil]
      push_cast
      omega
    · have hne : es ≠ [] := fun hes => hcount (by rw [h.rep.count, hes, List.length_nil])
      rw [if_neg (by simpa using hne)]

/-- `hashtable_iterator_remove` takes out the entry the iterator is at. -/
theorem Holds.iteratorRemove {H : HashOps K} {c : ℕ} {t : Hashtable K A D} {e : Entry K A D}
    {before rest : List (Entry K A D)} {base : D → ℤ} {it : HashtableIterator A}
    (h : Holds H c t (before ++ e :: rest) base)
    (hsame : Equivalence (fun k k' => H.same k k' = true))
    (hfits : (H.hashCode e.key).toNat % c < 2 ^ 31)
    (hcurrent : it.current = some e.addr) (hmod : it.expectedModCount = t.modCount) :
    ∃ t' it', hashtableIteratorRemove H t it = some (1, t', it') ∧
      Holds H c t' (before ++ rest) base ∧ it'.current = none ∧ it'.next = it.next ∧
      it'.expectedModCount = t'.modCount ∧ t'.modCount = t.modCount + 1 := by
  have he : H.same e.key e.key = true := hsame.refl e.key
  obtain ⟨-, hpair, hbefore⟩ := List.pairwise_append.mp h.rep.distinct
  have hl : ∀ x ∈ before, H.same x.key e.key = false := fun x hx => hbefore x hx e List.mem_cons_self
  have hr : ∀ x ∈ rest, H.same x.key e.key = false := by
    intro x hx
    have hex := List.rel_of_pairwise_cons hpair hx
    rw [Bool.eq_false_iff] at hex ⊢
    exact fun hxe => hex (hsame.symm hxe)
  have hfind : (before ++ e :: rest).find? (H.same ·.key e.key) = some e := by
    rw [List.find?_eq_some_iff_append]
    exact ⟨he, before, rest, rfl, fun x hx => by simp [hl x hx]⟩
  have hremove : removeEntry (H.same ·.key e.key) (before ++ e :: rest) = before ++ rest :=
    removeEntry_split he hl hr
  have hany : (before ++ e :: rest).any (H.same ·.key e.key) = true :=
    List.any_eq_true.mpr ⟨e, by simp, he⟩
  obtain ⟨t₁, hcall, hholds, hmod₁⟩ := h.remove hsame hfits
  rw [hany, if_pos rfl] at hmod₁
  rw [hremove, hfind] at hholds
  rw [hfind] at hcall
  refine ⟨t₁.deref e.data,
    { it with current := none, expectedModCount := it.expectedModCount + 1 }, ?_, ?_, rfl, rfl,
    ?_, hmod₁⟩
  · unfold hashtableIteratorRemove
    simp only [hcurrent, hmod, ne_eq, not_true_eq_false, if_false, h.rep.key e (by simp), hcall,
      Option.map_some]
  · refine hholds.deref (fun d => ?_)
    simp [List.count_singleton]
  · rw [hmod, ← hmod₁]
    rfl

section Next

variable {K A D : Type*} [DecidableEq D] {H : HashOps K} {c : ℕ} {t : Hashtable K A D}
  {it : HashtableIterator A}

/-- `hashtable_iterator_next` goes on to the entry in front of the iterator. -/
theorem Holds.iteratorNext {before rest : List (Entry K A D)} {e : Entry K A D} {base : D → ℤ}
    (h : Holds H c t (before ++ e :: rest) base) (hnext : it.next = some e.addr)
    (hmod : it.expectedModCount = t.modCount) :
    hashtableIteratorNext t it = (1, t.ref e.data,
      { it with current := some e.addr, next := (rest.map Entry.addr).head? },
      some (e.key, e.data)) := by
  have hring := h.rep.ring
  rw [List.map_append, List.map_cons] at hring
  have hkey := h.rep.key e (by simp)
  have hdata := h.rep.data e (by simp)
  unfold hashtableIteratorNext
  rw [hnext, hmod, ← hring.next_eq]
  simp [hkey, hdata]

theorem hashtableIteratorNext_end (hnext : it.next = none)
    (hmod : it.expectedModCount = t.modCount) : hashtableIteratorNext t it = (0, t, it, none) := by
  unfold hashtableIteratorNext
  rw [hnext, hmod]
  simp

end Next

section Loop

variable {H : HashOps K} {t t₁ t₂ : Hashtable K A D} {it it₁ it₂ : HashtableIterator A}
  {choices : List Bool} {visited : K × D} {rc : ℤ}

theorem iterateLoop_keep (hnext : hashtableIteratorNext t it = (1, t₁, it₁, some visited)) :
    iterateLoop H (false :: choices) t it =
      (iterateLoop H choices t₁ it₁).map (fun r => (r.1, visited :: r.2)) := by
  rw [iterateLoop, hnext]
  rfl

theorem iterateLoop_remove (hnext : hashtableIteratorNext t it = (1, t₁, it₁, some visited))
    (hremove : hashtableIteratorRemove H t₁ it₁ = some (rc, t₂, it₂)) :
    iterateLoop H (true :: choices) t it =
      (iterateLoop H choices t₂ it₂).map (fun r => (r.1, visited :: r.2)) := by
  rw [iterateLoop, hnext]
  simp [hremove]

end Loop

/-- An iteration from an entry on. -/
theorem Holds.iterate {H : HashOps K} {c : ℕ} {t : Hashtable K A D}
    {before rest : List (Entry K A D)} {base : D → ℤ} {it : HashtableIterator A}
    (h : Holds H c t (before ++ rest) base)
    (hsame : Equivalence (fun k k' => H.same k k' = true))
    (hfits : ∀ e ∈ rest, (H.hashCode e.key).toNat % c < 2 ^ 31)
    (hnext : it.next = (rest.map Entry.addr).head?) (hmod : it.expectedModCount = t.modCount)
    (choices : List Bool) :
    ∃ t', iterateLoop H choices t it =
        some (t', (visit choices rest).2.map (fun e => (e.key, e.data))) ∧
      Holds H c t' (before ++ (visit choices rest).1)
        (fun d => base d + entryRefs (visit choices rest).2 d) ∧
      t'.modCount + BitVec.ofNat 32 (visit choices rest).1.length =
        t.modCount + BitVec.ofNat 32 rest.length := by
  induction choices generalizing t it before rest base with
  | nil => exact ⟨t, rfl, by simpa [visit] using h, rfl⟩
  | cons choice choices ih =>
    cases rest with
    | nil =>
      unfold iterateLoop
      rw [hashtableIteratorNext_end hnext hmod]
      exact ⟨t, rfl, by simpa [visit] using h, rfl⟩
    | cons e rest =>
      have hgo := h.iteratorNext hnext hmod
      have hbase : ∀ d, (base d + if e.data = d then 1 else 0) + entryRefs (visit choices rest).2 d =
          base d + entryRefs (e :: (visit choices rest).2) d := by
        intro d
        rw [entryRefs_cons]
        push_cast
        omega
      have href := h.ref e.data
      let it₁ : HashtableIterator A :=
        { it with current := some e.addr, next := (rest.map Entry.addr).head? }
      have hmod₁ : it₁.expectedModCount = (t.ref e.data).modCount := hmod
      have hfits' : ∀ x ∈ rest, (H.hashCode x.key).toNat % c < 2 ^ 31 :=
        fun x hx => hfits x (List.mem_cons_of_mem _ hx)
      have hsucc (n : ℕ) : BitVec.ofNat 32 (n + 1) = BitVec.ofNat 32 n + 1 := BitVec.ofNat_add n 1
      cases choice with
      | false =>
        have hsplit : before ++ e :: rest = before ++ [e] ++ rest := by simp
        rw [hsplit] at href
        obtain ⟨t', hloop, hholds, hcount⟩ := ih href hfits' rfl hmod₁
        refine ⟨t', ?_, ?_, ?_⟩
        · rw [iterateLoop_keep hgo, hloop]
          rfl
        · rw [funext hbase, List.append_assoc] at hholds
          exact hholds
        · change t'.modCount + BitVec.ofNat 32 ((visit choices rest).1.length + 1) =
            t.modCount + BitVec.ofNat 32 (rest.length + 1)
          rw [hsucc, hsucc, ← BitVec.add_assoc, ← BitVec.add_assoc]
          exact congrArg (· + 1) hcount
      | true =>
        obtain ⟨t₂, it₂, hcall, hremoved, -, hnext₂, hmod₂, hadd⟩ :=
          href.iteratorRemove hsame (hfits e List.mem_cons_self) rfl hmod₁
        obtain ⟨t', hloop, hholds, hcount⟩ := ih hremoved hfits' hnext₂ hmod₂
        refine ⟨t', ?_, ?_, ?_⟩
        · rw [iterateLoop_remove hgo hcall, hloop]
          rfl
        · rw [funext hbase] at hholds
          exact hholds
        · rw [hadd] at hcount
          refine hcount.trans ?_
          rw [List.length_cons, hsucc, BitVec.add_assoc, BitVec.add_comm 1]
          rfl

def hashRun (H : HashOps K) : Hashtable K A D → List (HashOp K A D) →
    Option (Hashtable K A D × List (HashResult K D))
  | t, [] => some (t, [])
  | t, op :: ops =>
    (hashStep H t op).bind (fun (t, result) =>
      (hashRun H t ops).map (fun (t, results) => (t, result :: results)))

def mapRun (same : K → K → Bool) : List (Entry K A D) → List (HashOp K A D) →
    List (Entry K A D) × List (HashResult K D)
  | es, [] => (es, [])
  | es, op :: ops =>
    let (es, result) := mapStep same es op
    let (es, results) := mapRun same es ops
    (es, result :: results)

/-- Every entry a run puts is outside of the table, or put again as it is. -/
def OwnEntries (same : K → K → Bool) (es : List (Entry K A D)) (ops : List (HashOp K A D)) : Prop :=
  Along (fun es op => some (mapStep same es op).1) HashOp.Own es ops

theorem ownEntries_cons {K A D : Type*} {same : K → K → Bool} {es : List (Entry K A D)}
    {op : HashOp K A D} {ops : List (HashOp K A D)} :
    OwnEntries same es (op :: ops) ↔ op.Own es ∧ OwnEntries same (mapStep same es op).1 ops := by
  constructor
  · intro h
    exact ⟨h.1, h.2 _ rfl⟩
  · intro h
    exact ⟨h.1, fun _ hstep => Option.some.inj hstep ▸ h.2⟩

def handedRefs (results : List (HashResult K D)) (d : D) : ℕ := (results.map (·.handed d)).sum

/-- One call does on the table what it does on the map. -/
theorem Holds.step {H : HashOps K} {c : ℕ} {t : Hashtable K A D} {es : List (Entry K A D)}
    {base : D → ℤ} {op : HashOp K A D} (h : Holds H c t es base)
    (hsame : Equivalence (fun k k' => H.same k k' = true))
    (hfits : ∀ k, (H.hashCode k).toNat % c < 2 ^ 31) (hown : op.Own es) :
    ∃ t', hashStep H t op = some (t', (mapStep H.same es op).2) ∧
      Holds H c t' (mapStep H.same es op).1
        (fun d => base d + (mapStep H.same es op).2.handed d) := by
  cases op with
  | put new key data =>
    obtain ⟨t', hcall, hholds, -⟩ := h.put hsame (hfits key) hown
    refine ⟨t', by rw [hashStep, hcall]; rfl, ?_⟩
    simpa [mapStep, HashResult.handed] using hholds
  | get key =>
    obtain ⟨t', hcall, hholds⟩ := h.get hsame (hfits key)
    exact ⟨t', by rw [hashStep, hcall]; rfl, hholds⟩
  | exist key =>
    refine ⟨t, by rw [hashStep, h.exist hsame (hfits key)]; rfl, ?_⟩
    simpa [mapStep, HashResult.handed] using h
  | isEmpty =>
    have hempty : hashtableIsEmpty t = es.isEmpty := by
      unfold hashtableIsEmpty
      rw [h.rep.count, Bool.eq_iff_iff]
      simp
    refine ⟨t, by rw [hashStep, hempty]; rfl, ?_⟩
    simpa [mapStep, HashResult.handed] using h
  | remove key =>
    obtain ⟨t', hcall, hholds, -⟩ := h.remove hsame (hfits key)
    exact ⟨t', by rw [hashStep, hcall]; rfl, hholds⟩
  | clear =>
    obtain ⟨t', hcall, hholds, -⟩ := h.clear
    refine ⟨t', by rw [hashStep, hcall]; rfl, ?_⟩
    simpa [mapStep, HashResult.handed] using hholds
  | iterate choices =>
    have hnext : (hashtableIterate t).next = (es.map Entry.addr).head? := h.rep.ring.next.head_eq
    have hnil : Holds H c t ([] ++ es) base := h
    obtain ⟨t', hcall, hholds, -⟩ := hnil.iterate hsame (fun e _ => hfits e.key) hnext rfl choices
    refine ⟨t', by rw [hashStep, hcall]; rfl, ?_⟩
    have hhanded : ∀ d, entryRefs (visit choices es).2 d =
        (mapStep H.same es (.iterate choices)).2.handed d := by
      intro d
      simp [mapStep, HashResult.handed, entryRefs, Function.comp_def]
    simp only [← hhanded]
    exact hholds

/-- A whole run does. -/
theorem Holds.run {H : HashOps K} {c : ℕ} {t : Hashtable K A D} {es : List (Entry K A D)}
    {base : D → ℤ} {ops : List (HashOp K A D)} (h : Holds H c t es base)
    (hsame : Equivalence (fun k k' => H.same k k' = true))
    (hfits : ∀ k, (H.hashCode k).toNat % c < 2 ^ 31) (hown : OwnEntries H.same es ops) :
    ∃ t', hashRun H t ops = some (t', (mapRun H.same es ops).2) ∧
      Holds H c t' (mapRun H.same es ops).1
        (fun d => base d + handedRefs (mapRun H.same es ops).2 d) := by
  induction ops generalizing t es base with
  | nil => exact ⟨t, rfl, by simpa [mapRun, handedRefs] using h⟩
  | cons op ops ih =>
    obtain ⟨hop, hops⟩ := ownEntries_cons.mp hown
    obtain ⟨t₁, hcall, hholds⟩ := h.step hsame hfits hop
    obtain ⟨t', hrun, hrest⟩ := ih hholds hops
    refine ⟨t', ?_, ?_⟩
    · rw [hashRun, hcall, Option.bind_some]
      dsimp only
      rw [hrun]
      rfl
    · refine ⟨hrest.rep, fun d => ?_⟩
      have hd := hrest.refs d
      simp only [mapRun, handedRefs, List.map_cons, List.sum_cons] at hd ⊢
      push_cast at hd ⊢
      omega

theorem holds_create (H : HashOps K) {c : ℕ} (hc : 1 ≤ c) (mem : Hashtable K A D) :
    Holds H c (hashtableCreate c mem) [] mem.nrefs := by
  have hcapacity : (hashtableCreate c mem).capacity = c := by
    unfold hashtableCreate
    exact if_neg (by omega)
  refine ⟨Rep.empty hcapacity rfl (fun _ => rfl) ?_ ?_, fun d => by simp [hashtableCreate]⟩
  · exact Function.update_self none none mem.lstNext
  · exact Function.update_self none none mem.lstPrev

/-- Every run of a new table of `c` buckets gives the results of the map whose keys `keyCompare`
tells apart, and leaves its entries in the table, with one reference on the data of each. -/
def RefinesMap (H : HashOps K) (c : ℕ) (mem : Hashtable K A D) : Prop :=
  ∀ ops : List (HashOp K A D),
    let eqKey (k k' : K) : Bool := H.keyCompare k k' = 0
    OwnEntries eqKey [] ops →
      ∃ t, hashRun H (hashtableCreate c mem) ops = some (t, (mapRun eqKey [] ops).2) ∧
        Holds H c t (mapRun eqKey [] ops).1
          (fun d => mem.nrefs d + handedRefs (mapRun eqKey [] ops).2 d)

/-- The table is a finite map in the order of insertion exactly when the bucket of every key has an
index that an `int` holds. -/
theorem refinesMap_iff {H : HashOps K} {c : ℕ} (hc : 1 ≤ c)
    (heq : Equivalence (fun k k' => H.keyCompare k k' = 0))
    (hhash : ∀ k k', H.keyCompare k k' = 0 → H.hashCode k = H.hashCode k')
    (mem : Hashtable K A D) :
    RefinesMap H c mem ↔ ∀ k, (H.hashCode k).toNat % c < 2 ^ 31 := by
  have hsame : H.same = fun k k' => decide (H.keyCompare k k' = 0) := by
    funext k k'
    unfold HashOps.same
    rw [decide_eq_decide]
    exact ⟨And.right, fun h => ⟨hhash k k' h, h⟩⟩
  constructor
  · intro h k
    by_contra hbig
    obtain ⟨t, hrun, -⟩ := h [.exist k] (ownEntries_cons.mpr ⟨trivial, trivial⟩)
    have hget : hashtableGetEntry H (hashtableCreate c mem) k = none := by
      unfold hashtableGetEntry bucketIdx?
      rw [(holds_create H hc mem).rep.capacity]
      simp only [hbig, if_false, Option.bind_none]
    rw [hashRun, hashStep, hashtableExist, hget] at hrun
    cases hrun
  · intro hfits ops eqKey hown
    have hequiv : Equivalence (fun k k' => H.same k k' = true) := by
      simpa [hsame] using heq
    have hown' : OwnEntries H.same [] ops := by
      rw [hsame]
      exact hown
    have hrun := (holds_create H hc mem).run hequiv hfits hown'
    rw [hsame] at hrun
    exact hrun

/-- Numbers as keys that are their own hash codes. -/
def numberKeys : HashOps (BitVec 32) := ⟨id, fun k k' => if k = k' then 0 else 1⟩

def zeroMemory : Hashtable (BitVec 32) ℕ ℕ :=
  ⟨0, 0, 0, fun _ => 0, fun _ => 0, fun _ => 0, fun _ => none, fun _ => none, fun _ => none,
    fun _ => 0⟩

theorem numberKeys_equivalence : Equivalence (fun k k' => numberKeys.keyCompare k k' = 0) := by
  have hiff (k k' : BitVec 32) : numberKeys.keyCompare k k' = 0 ↔ k = k' := by simp [numberKeys]
  simp only [hiff]
  exact eq_equivalence

theorem numberKeys_hashCode (k k' : BitVec 32) (h : numberKeys.keyCompare k k' = 0) :
    numberKeys.hashCode k = numberKeys.hashCode k' := by
  simp only [numberKeys, ite_eq_left_iff, one_ne_zero, imp_false, not_not] at h
  rw [h]

theorem refinesMap_numberKeys : RefinesMap numberKeys 32 zeroMemory := by
  apply (refinesMap_iff (by decide) numberKeys_equivalence numberKeys_hashCode zeroMemory).mpr
  intro k
  have := Nat.mod_lt (numberKeys.hashCode k).toNat (show 32 > 0 by decide)
  omega

/-- With more than `2 ^ 31` buckets a lookup leaves the table. -/
theorem not_refinesMap_wide :
    Equivalence (fun k k' => numberKeys.keyCompare k k' = 0) ∧
      (∀ k k', numberKeys.keyCompare k k' = 0 → numberKeys.hashCode k = numberKeys.hashCode k') ∧
      ¬RefinesMap numberKeys (2 ^ 31 + 1) zeroMemory := by
  refine ⟨numberKeys_equivalence, numberKeys_hashCode, fun h => ?_⟩
  obtain ⟨t, hrun, -⟩ := h [.exist 0x80000000] (ownEntries_cons.mpr ⟨trivial, trivial⟩)
  have hfault : hashStep numberKeys (hashtableCreate (2 ^ 31 + 1) zeroMemory)
      (.exist 0x80000000) = none := by
    decide
  rw [hashRun, hfault] at hrun
  cases hrun

end Carrier.Common
