import Carrier.Common.LinkedHashtable

/-! The entries a linked hash table holds, and what its changes of links do to them. -/
namespace Carrier.Common
open Carrier.Lib

/-- An entry of the map and where it lives. -/
structure Entry (K A D : Type*) where
  addr : A
  key : K
  data : D

/-- The test of `hashtable_get_entry` on an entry that carries the hash code of its key. -/
def HashOps.same {K : Type*} (H : HashOps K) (key key' : K) : Bool :=
  H.hashCode key = H.hashCode key' ∧ H.keyCompare key key' = 0

variable {K A D : Type*}

/-- The bucket chains hold the entries `as`, each of them once and in the bucket `f` gives it. -/
def Chains (link : Slot A → Option A) (f : A → ℕ) (as : List A) : Prop :=
  ∀ idx, ∃ xs : List A, xs.Nodup ∧ Seg Slot.next link (link (.bucket idx)) xs none ∧
    ∀ a, a ∈ xs ↔ a ∈ as ∧ f a = idx

/-- The table `t` of `c` buckets holds the entries `es`: the ring passes them in their order, and
every entry hangs in the chain of its hash code and in no other one. -/
structure Rep (H : HashOps K) (c : ℕ) (t : Hashtable K A D) (es : List (Entry K A D)) : Prop where
  capacity : t.capacity = c
  count : t.count = es.length
  nodup : (es.map Entry.addr).Nodup
  key : ∀ e ∈ es, t.key e.addr = e.key
  data : ∀ e ∈ es, t.data e.addr = e.data
  hashCode : ∀ e ∈ es, t.hashCode e.addr = H.hashCode e.key
  ring : Ring t.lstNext t.lstPrev (es.map Entry.addr)
  chains : Chains t.link (fun a => (t.hashCode a).toNat % c) (es.map Entry.addr)
  distinct : es.Pairwise (fun e e' => H.same e.key e'.key = false)

section Chains

variable {link link' : Slot A → Option A} {f f' : A → ℕ} {as l r pre post : List A} {e new : A}

theorem slot_next_injective : Function.Injective (Slot.next : A → Slot A) :=
  fun _ _ h => Slot.next.inj h

theorem slot_next_ne_bucket (idx : ℕ) (a : A) : Slot.next a ≠ Slot.bucket idx := by
  intro h
  cases h

/-- The chain of an entry, around it. -/
theorem Chains.split (h : Chains link f as) (he : e ∈ as) :
    ∃ pre post, (pre ++ e :: post).Nodup ∧
      Seg Slot.next link (link (.bucket (f e))) (pre ++ e :: post) none ∧
      ∀ a, a ∈ pre ++ e :: post ↔ a ∈ as ∧ f a = f e := by
  obtain ⟨xs, hnd, hseg, hmem⟩ := h (f e)
  obtain ⟨pre, post, rfl⟩ := List.append_of_mem ((hmem e).mpr ⟨he, rfl⟩)
  exact ⟨pre, post, hnd, hseg, hmem⟩

/-- Where a list that starts at a bucket ends, for the other buckets and the nodes not on it. -/
theorem bucket_ne_lastCell {idx idx' : ℕ} (h : idx' ≠ idx) (xs : List A) :
    Slot.bucket idx' ≠ lastCell Slot.next (Slot.bucket idx) xs := by
  intro hb
  rcases lastCell_eq_or (Slot.bucket idx) xs with heq | ⟨x, -, heq⟩
  · exact h (Slot.bucket.inj (hb.trans heq))
  · exact slot_next_ne_bucket idx' x (hb.trans heq).symm

theorem mem_erase_iff (hnd : (l ++ e :: r).Nodup) (a : A) :
    a ∈ l ++ r ↔ a ∈ l ++ e :: r ∧ a ≠ e := by
  have hnot : e ∉ l ++ r := (List.nodup_cons.mp (List.nodup_middle.mp hnd)).1
  constructor
  · intro ha
    refine ⟨?_, fun heq => hnot (heq ▸ ha)⟩
    rw [List.mem_append, List.mem_cons]
    rw [List.mem_append] at ha
    tauto
  · rintro ⟨ha, hne⟩
    rw [List.mem_append, List.mem_cons] at ha
    rw [List.mem_append]
    tauto

/-- Only the chain of the bucket `b` changes. -/
theorem Chains.update_bucket {as' : List A} {b : ℕ} (h : Chains link f as)
    (hb : ∃ xs : List A, xs.Nodup ∧ Seg Slot.next link' (link' (.bucket b)) xs none ∧
      ∀ a, a ∈ xs ↔ a ∈ as' ∧ f' a = b)
    (hbucket : ∀ idx, idx ≠ b → link' (.bucket idx) = link (.bucket idx))
    (hnext : ∀ a ∈ as, f a ≠ b → link' (.next a) = link (.next a))
    (hmem : ∀ a idx, idx ≠ b → (a ∈ as ∧ f a = idx ↔ a ∈ as' ∧ f' a = idx)) :
    Chains link' f' as' := by
  intro idx
  by_cases hidx : idx = b
  · subst hidx
    exact hb
  · obtain ⟨xs, hnd, hseg, hxs⟩ := h idx
    refine ⟨xs, hnd, ?_, fun a => (hxs a).trans (hmem a idx hidx)⟩
    rw [hbucket idx hidx]
    refine hseg.congr (fun x hx => ?_)
    obtain ⟨hin, hfx⟩ := (hxs x).mp hx
    exact hnext x hin (hfx ▸ hidx)

variable [DecidableEq A]

theorem Chains.add (h : Chains link f as) (hnew : new ∉ as) (hf : ∀ a ∈ as, f' a = f a) :
    Chains (Function.update (Function.update link (.next new) (link (.bucket (f' new))))
      (.bucket (f' new)) (some new)) f' (as ++ [new]) := by
  obtain ⟨xs, hnd, hseg, hmem⟩ := h (f' new)
  have hnot : new ∉ xs := fun hx => hnew ((hmem new).mp hx).1
  have hfront : Seg Slot.next link (link (.bucket (f' new))) ([] ++ xs) none := hseg
  have hseg' := hfront.insert slot_next_injective (slot_next_ne_bucket _) hnd hnot
  have hin (a : A) (idx : ℕ) :
      a ∈ as ++ [new] ∧ f' a = idx ↔ (a ∈ as ∧ f a = idx) ∨ (a = new ∧ f' new = idx) := by
    rw [List.mem_append, List.mem_singleton]
    constructor
    · rintro ⟨ha | rfl, hidx⟩
      · exact .inl ⟨ha, hf a ha ▸ hidx⟩
      · exact .inr ⟨rfl, hidx⟩
    · rintro (⟨ha, hidx⟩ | ⟨rfl, hidx⟩)
      · exact ⟨.inl ha, (hf a ha).trans hidx⟩
      · exact ⟨.inr rfl, hidx⟩
  apply h.update_bucket (b := f' new)
  · refine ⟨new :: xs, List.nodup_cons.mpr ⟨hnot, hnd⟩, hseg', fun a => ?_⟩
    rw [hin, List.mem_cons, hmem]
    tauto
  · intro idx hidx
    have hb : Slot.bucket idx ≠ Slot.bucket (A := A) (f' new) := fun hb => hidx (Slot.bucket.inj hb)
    rw [Function.update_of_ne hb, Function.update_of_ne (slot_next_ne_bucket idx new).symm]
  · intro a ha _
    have hne : Slot.next a ≠ Slot.next new := fun heq => hnew (Slot.next.inj heq ▸ ha)
    rw [Function.update_of_ne (slot_next_ne_bucket _ a), Function.update_of_ne hne]
  · intro a idx hidx
    rw [hin]
    tauto

section Middle

variable (hnd : (l ++ e :: r).Nodup) (hchain : (pre ++ e :: post).Nodup)
  (hseg : Seg Slot.next link (link (.bucket (f e))) (pre ++ e :: post) none)
  (hmem : ∀ a, a ∈ pre ++ e :: post ↔ a ∈ l ++ e :: r ∧ f a = f e)
include hnd hchain hseg hmem

/-- A new entry takes the place of `e` in its chain; it may be `e` itself. -/
theorem Chains.replace (h : Chains link f (l ++ e :: r)) (hl : new ∉ l) (hr : new ∉ r)
    (hnew : f' new = f e) (hf : ∀ a ∈ l ++ r, f' a = f a) :
    Chains (Function.update (Function.update link (.next new) (link (.next e)))
      (lastCell Slot.next (.bucket (f e)) pre) (some new)) f' (l ++ new :: r) := by
  have hlr : ∀ a, a ∈ l ++ r ↔ a ∈ l ++ e :: r ∧ a ≠ e := mem_erase_iff hnd
  have hpp : ∀ a, a ∈ pre ++ post ↔ a ∈ pre ++ e :: post ∧ a ≠ e := mem_erase_iff hchain
  have hout : new ∉ l ++ r := by simp [hl, hr]
  have hpre : new ∉ pre ++ post := fun hn => hout ((hlr new).mpr
    ⟨((hmem new).mp ((hpp new).mp hn).1).1, ((hpp new).mp hn).2⟩)
  have hseg' := hseg.replace slot_next_injective (slot_next_ne_bucket _) hchain
    (fun hn => hpre (List.mem_append_left _ hn)) (fun hn => hpre (List.mem_append_right _ hn))
  have hin (a : A) (idx : ℕ) : a ∈ l ++ new :: r ∧ f' a = idx ↔
      (a = new ∧ f e = idx) ∨ (a ∈ l ++ e :: r ∧ a ≠ e ∧ f a = idx) := by
    rw [List.mem_append, List.mem_cons, or_left_comm, ← List.mem_append]
    constructor
    · rintro ⟨rfl | ha, hidx⟩
      · exact .inl ⟨rfl, hnew.symm.trans hidx⟩
      · exact .inr ⟨((hlr a).mp ha).1, ((hlr a).mp ha).2, (hf a ha).symm.trans hidx⟩
    · rintro (⟨rfl, hidx⟩ | ⟨ha, hne, hidx⟩)
      · exact ⟨.inl rfl, hnew.trans hidx⟩
      · have hain := (hlr a).mpr ⟨ha, hne⟩
        exact ⟨.inr hain, (hf a hain).trans hidx⟩
  apply h.update_bucket (b := f e)
  · have hnd' : (new :: (pre ++ post)).Nodup :=
      List.nodup_cons.mpr ⟨hpre, (List.nodup_middle.mp hchain).of_cons⟩
    refine ⟨pre ++ new :: post, List.nodup_middle.mpr hnd', hseg', fun a => ?_⟩
    rw [hin, List.mem_append, List.mem_cons, or_left_comm, ← List.mem_append, hpp, hmem]
    tauto
  · intro idx hidx
    rw [Function.update_of_ne (bucket_ne_lastCell hidx pre),
      Function.update_of_ne (slot_next_ne_bucket idx new).symm]
  · intro a ha hfa
    have hne : a ≠ e := fun heq => hfa (heq ▸ rfl)
    have hx : Slot.next a ≠ Slot.next new :=
      fun heq => hout (Slot.next.inj heq ▸ (hlr a).mpr ⟨ha, hne⟩)
    have hnot : a ∉ pre := fun hp => hfa ((hmem a).mp (List.mem_append_left _ hp)).2
    have hlast := lastCell_ne slot_next_injective (slot_next_ne_bucket (f e)) hnot
    rw [Function.update_of_ne hlast.symm, Function.update_of_ne hx]
  · intro a idx hidx
    rw [hin]
    constructor
    · rintro ⟨ha, hfa⟩
      exact .inr ⟨ha, fun heq => hidx (hfa ▸ heq ▸ rfl), hfa⟩
    · rintro (⟨-, hfe⟩ | ⟨ha, -, hfa⟩)
      · exact absurd hfe.symm hidx
      · exact ⟨ha, hfa⟩

theorem Chains.remove (h : Chains link f (l ++ e :: r)) :
    Chains (Function.update link (lastCell Slot.next (.bucket (f e)) pre) (link (.next e))) f
      (l ++ r) := by
  have hlr : ∀ a, a ∈ l ++ r ↔ a ∈ l ++ e :: r ∧ a ≠ e := mem_erase_iff hnd
  have hpp : ∀ a, a ∈ pre ++ post ↔ a ∈ pre ++ e :: post ∧ a ≠ e := mem_erase_iff hchain
  have hseg' := hseg.remove slot_next_injective (slot_next_ne_bucket _) hchain
  apply h.update_bucket (b := f e)
  · refine ⟨pre ++ post, (List.nodup_middle.mp hchain).of_cons, hseg', fun a => ?_⟩
    rw [hpp, hlr, hmem]
    tauto
  · intro idx hidx
    rw [Function.update_of_ne (bucket_ne_lastCell hidx pre)]
  · intro a ha hfa
    have hnot : a ∉ pre := fun hp => hfa ((hmem a).mp (List.mem_append_left _ hp)).2
    have hlast := lastCell_ne slot_next_injective (slot_next_ne_bucket (f e)) hnot
    rw [Function.update_of_ne hlast.symm]
  · intro a idx hidx
    rw [hlr]
    constructor
    · rintro ⟨ha, hfa⟩
      exact ⟨⟨ha, fun heq => hidx (hfa ▸ heq ▸ rfl)⟩, hfa⟩
    · rintro ⟨⟨ha, -⟩, hfa⟩
      exact ⟨ha, hfa⟩

end Middle

end Chains

section Search

variable {H : HashOps K} {t : Hashtable K A D} {key : K} {s : Slot A} {xs pre post : List A} {a : A}
  {fuel : ℕ}

/-- The test of the loop on the entry `a`. -/
def Hashtable.Matches (H : HashOps K) (t : Hashtable K A D) (key : K) (a : A) : Prop :=
  t.hashCode a = H.hashCode key ∧ H.keyCompare (t.key a) key = 0

theorem getEntryLoop_hit (h : t.link s = some a) (ha : t.Matches H key a) :
    getEntryLoop H t key (H.hashCode key) (fuel + 1) s = some (some s) := by
  unfold getEntryLoop
  rw [h]
  exact if_pos ha

theorem getEntryLoop_miss (h : t.link s = some a) (ha : ¬t.Matches H key a) :
    getEntryLoop H t key (H.hashCode key) (fuel + 1) s =
      getEntryLoop H t key (H.hashCode key) fuel (.next a) := by
  conv_lhs => unfold getEntryLoop
  rw [h]
  exact if_neg ha

theorem getEntryLoop_none (h : Seg Slot.next t.link (t.link s) xs none)
    (hno : ∀ b ∈ xs, ¬t.Matches H key b) :
    getEntryLoop H t key (H.hashCode key) (xs.length + fuel + 1) s = some none := by
  induction xs generalizing s with
  | nil =>
    unfold getEntryLoop
    rw [show t.link s = none from h]
  | cons x xs ih =>
    have hlen : (x :: xs).length + fuel = xs.length + fuel + 1 := by simp; omega
    rw [hlen, getEntryLoop_miss h.1 (hno x List.mem_cons_self)]
    exact ih h.2 (fun b hb => hno b (List.mem_cons_of_mem _ hb))

theorem getEntryLoop_some (h : Seg Slot.next t.link (t.link s) (pre ++ a :: post) none)
    (hno : ∀ b ∈ pre, ¬t.Matches H key b) (ha : t.Matches H key a) :
    getEntryLoop H t key (H.hashCode key) (pre.length + fuel + 1) s =
      some (some (lastCell Slot.next s pre)) := by
  induction pre generalizing s with
  | nil => exact getEntryLoop_hit h.1 ha
  | cons x pre ih =>
    have hlen : (x :: pre).length + fuel = pre.length + fuel + 1 := by simp; omega
    rw [hlen, getEntryLoop_miss h.1 (hno x List.mem_cons_self)]
    exact ih h.2 (fun b hb => hno b (List.mem_cons_of_mem _ hb))

end Search

namespace Rep

variable {H : HashOps K} {c : ℕ} {t : Hashtable K A D} {es l r : List (Entry K A D)}
  {e : Entry K A D} {key : K}

theorem matches_iff (h : Rep H c t es) (he : e ∈ es) : t.Matches H key e.addr ↔ H.same e.key key := by
  unfold Hashtable.Matches HashOps.same
  rw [h.hashCode e he, h.key e he, decide_eq_true_eq]

theorem eq_of_addr (h : Rep H c t es) {e' : Entry K A D} (he : e ∈ es) (he' : e' ∈ es)
    (haddr : e.addr = e'.addr) : e = e' := List.inj_on_of_nodup_map h.nodup he he' haddr

theorem chain_length_le (h : Rep H c t es) {xs : List A} (hnd : xs.Nodup)
    (hsub : ∀ a ∈ xs, a ∈ es.map Entry.addr) : xs.length ≤ t.count := by
  rw [h.count, ← List.length_map Entry.addr]
  exact (hnd.subperm hsub).length_le

theorem getEntry_none (h : Rep H c t es) (hfits : (H.hashCode key).toNat % c < 2 ^ 31)
    (hfind : es.find? (fun e => H.same e.key key) = none) :
    hashtableGetEntry H t key = some none := by
  obtain ⟨xs, hnd, hseg, hmem⟩ := h.chains ((H.hashCode key).toNat % c)
  have hlen := h.chain_length_le hnd (fun a ha => ((hmem a).mp ha).1)
  unfold hashtableGetEntry bucketIdx?
  rw [h.capacity]
  simp only [hfits, if_true, Option.bind_some]
  obtain ⟨fuel, hcount⟩ := Nat.exists_eq_add_of_le hlen
  rw [hcount]
  refine getEntryLoop_none hseg (fun a ha => ?_)
  obtain ⟨e, he, rfl⟩ := List.mem_map.mp ((hmem a).mp ha).1
  rw [h.matches_iff he]
  exact List.find?_eq_none.mp hfind e he

/-- The entry of the key is found, with its chain around it. -/
theorem getEntry_some (h : Rep H c t es) (hfits : (H.hashCode key).toNat % c < 2 ^ 31)
    (hes : es = l ++ e :: r) (hsame : H.same e.key key) (hl : ∀ x ∈ l, H.same x.key key = false)
    (hr : ∀ x ∈ r, H.same x.key key = false) :
    ∃ pre post, (pre ++ e.addr :: post).Nodup ∧
      Seg Slot.next t.link (t.link (.bucket ((t.hashCode e.addr).toNat % c)))
        (pre ++ e.addr :: post) none ∧
      (∀ a, a ∈ pre ++ e.addr :: post ↔
        a ∈ es.map Entry.addr ∧ (t.hashCode a).toNat % c = (t.hashCode e.addr).toNat % c) ∧
      hashtableGetEntry H t key =
        some (some (lastCell Slot.next (.bucket ((t.hashCode e.addr).toNat % c)) pre)) ∧
      t.link (lastCell Slot.next (.bucket ((t.hashCode e.addr).toNat % c)) pre) = some e.addr := by
  have he : e ∈ es := by simp [hes]
  have hmatch : t.Matches H key e.addr := (h.matches_iff he).mpr hsame
  have hcode : t.hashCode e.addr = H.hashCode key := hmatch.1
  obtain ⟨pre, post, hnd, hseg, hmem⟩ := h.chains.split (List.mem_map_of_mem he)
  have hlen := h.chain_length_le hnd (fun a ha => ((hmem a).mp ha).1)
  rw [List.length_append, List.length_cons] at hlen
  have hno : ∀ a ∈ pre, ¬t.Matches H key a := by
    intro a ha hm
    obtain ⟨x, hx, rfl⟩ := List.mem_map.mp ((hmem a).mp (List.mem_append_left _ ha)).1
    rw [h.matches_iff hx] at hm
    have hxe : x = e := by
      rw [hes, List.mem_append, List.mem_cons] at hx
      rcases hx with hx | hx | hx
      · simp [hl x hx] at hm
      · exact hx
      · simp [hr x hx] at hm
    subst hxe
    exact (List.nodup_append.mp hnd).2.2 _ ha _ List.mem_cons_self rfl
  refine ⟨pre, post, hnd, hseg, hmem, ?_, ?_⟩
  · unfold hashtableGetEntry bucketIdx?
    rw [h.capacity]
    simp only [hfits, if_true, Option.bind_some]
    have hpre : pre.length ≤ t.count := by omega
    obtain ⟨fuel, hcount⟩ := Nat.exists_eq_add_of_le hpre
    rw [hcode] at hseg ⊢
    rw [hcount]
    exact getEntryLoop_some hseg hno hmatch
  · obtain ⟨u, hpre, hu, -⟩ := seg_append.mp hseg
    exact hpre.lastCell_eq.trans hu

/-- A table without entries. -/
theorem empty (hcapacity : t.capacity = c) (hcount : t.count = 0)
    (hlink : ∀ idx, t.link (.bucket idx) = none) (hnext : t.lstNext none = none)
    (hprev : t.lstPrev none = none) : Rep H c t [] where
  capacity := hcapacity
  count := hcount
  nodup := List.nodup_nil
  key := by simp
  data := by simp
  hashCode := by simp
  ring := Ring.empty hnext hprev
  chains idx := ⟨[], List.nodup_nil, hlink idx, fun a => by simp⟩
  distinct := List.Pairwise.nil

/-- Reference counts and the modification count are of no concern to the structure. -/
theorem counters (h : Rep H c t es) (modCount : BitVec 32) (nrefs : D → ℤ) :
    Rep H c { t with modCount := modCount, nrefs := nrefs } es :=
  ⟨h.capacity, h.count, h.nodup, h.key, h.data, h.hashCode, h.ring, h.chains, h.distinct⟩

variable [DecidableEq A] {new : A} {data : D}

/-- The caller sets the fields of an entry: one outside of the table, or to what they are. -/
theorem setEntry (h : Rep H c t es) (hown : ∀ e ∈ es, e.addr = new → e = ⟨new, key, data⟩) :
    Rep H c (t.setEntry new key data) es := by
  refine ⟨h.capacity, h.count, h.nodup, ?_, ?_, h.hashCode, h.ring, h.chains, h.distinct⟩
  · intro e he
    by_cases haddr : e.addr = new
    · rw [hown e he haddr]
      exact Function.update_self _ _ _
    · exact (Function.update_of_ne haddr _ _).trans (h.key e he)
  · intro e he
    by_cases haddr : e.addr = new
    · rw [hown e he haddr]
      exact Function.update_self _ _ _
    · exact (Function.update_of_ne haddr _ _).trans (h.data e he)

theorem add (h : Rep H c t es) (hkey : t.key new = key) (hdata : t.data new = data)
    (hnew : new ∉ es.map Entry.addr) (hno : ∀ e ∈ es, H.same e.key key = false) :
    Rep H c (hashtableAddAt t new (H.hashCode key) ((H.hashCode key).toNat % c))
      (es ++ [⟨new, key, data⟩]) := by
  have hout : ∀ e ∈ es, e.addr ≠ new := fun e he heq => hnew (heq ▸ List.mem_map_of_mem he)
  have hmem : ∀ (P : Entry K A D → Prop), (∀ e ∈ es, P e) → P ⟨new, key, data⟩ →
      ∀ e ∈ es ++ [⟨new, key, data⟩], P e := by
    intro P hes hlast e he
    rcases List.mem_append.mp he with he | he
    · exact hes e he
    · exact List.mem_singleton.mp he ▸ hlast
  unfold hashtableAddAt
  constructor
  case capacity => exact h.capacity
  case count => simp [h.count]
  case nodup =>
    rw [List.map_append, List.nodup_append]
    refine ⟨h.nodup, List.nodup_singleton _, fun a ha b hb heq => hnew ?_⟩
    have hb' : b = new := List.mem_singleton.mp hb
    rw [← hb', ← heq]
    exact ha
  case key => exact hmem _ h.key hkey
  case data => exact hmem _ h.data hdata
  case hashCode =>
    refine hmem _ (fun e he => ?_) (Function.update_self _ _ _)
    exact (Function.update_of_ne (hout e he) _ _).trans (h.hashCode e he)
  case ring =>
    have hring := h.ring.concat h.nodup hnew
    rw [List.map_append]
    simp only [Function.update_of_ne (Option.some_ne_none new).symm]
    exact hring
  case chains =>
    let f' (a : A) : ℕ := (Function.update t.hashCode new (H.hashCode key) a).toNat % c
    have hf : ∀ a ∈ es.map Entry.addr, f' a = (t.hashCode a).toNat % c := by
      intro a ha
      obtain ⟨e, he, rfl⟩ := List.mem_map.mp ha
      simp only [f', Function.update_of_ne (hout e he)]
    have hnewIdx : f' new = (H.hashCode key).toNat % c := by simp [f']
    have hchains := h.chains.add hnew hf
    rw [hnewIdx] at hchains
    rw [List.map_append]
    exact hchains
  case distinct =>
    rw [List.pairwise_append]
    refine ⟨h.distinct, List.pairwise_singleton _ _, fun e he x hx => ?_⟩
    rw [List.mem_singleton.mp hx]
    exact hno e he

section Middle

variable (h : Rep H c t (l ++ e :: r)) {pre post : List A}
  (hchain : (pre ++ e.addr :: post).Nodup)
  (hseg : Seg Slot.next t.link (t.link (.bucket ((t.hashCode e.addr).toNat % c)))
    (pre ++ e.addr :: post) none)
  (hmem : ∀ a, a ∈ pre ++ e.addr :: post ↔ a ∈ (l ++ e :: r).map Entry.addr ∧
    (t.hashCode a).toNat % c = (t.hashCode e.addr).toNat % c)
include h hchain hseg hmem

/-- The entry is taken out of its chain and of the ring. -/
theorem unlink :
    Rep H c (hashtableUnlink t (lastCell Slot.next (.bucket ((t.hashCode e.addr).toNat % c)) pre)
      e.addr) (l ++ r) := by
  have hsub : (l ++ r).Sublist (l ++ e :: r) :=
    (List.sublist_cons_self e r).append_left l
  have hnd := h.nodup
  have hring := h.ring
  have hchains := h.chains
  rw [List.map_append, List.map_cons] at hnd hring hchains hmem
  have hprev : t.lstPrev (some e.addr) ≠ some e.addr := by
    rw [hring.prev_eq]
    intro hlast
    exact (List.nodup_append.mp hnd).2.2 _ (List.mem_of_getLast? hlast) _ List.mem_cons_self rfl
  unfold hashtableUnlink
  constructor
  case capacity => exact h.capacity
  case count =>
    have hcount := h.count
    simp only [List.length_append, List.length_cons] at hcount ⊢
    omega
  case nodup => exact h.nodup.sublist (hsub.map _)
  case key => exact fun x hx => h.key x (hsub.mem hx)
  case data => exact fun x hx => h.data x (hsub.mem hx)
  case hashCode => exact fun x hx => h.hashCode x (hsub.mem hx)
  case ring =>
    rw [List.map_append]
    dsimp only
    rw [Function.update_of_ne hprev.symm]
    exact hring.unlink hnd
  case chains =>
    rw [List.map_append]
    exact hchains.remove hnd hchain hseg hmem
  case distinct => exact h.distinct.sublist hsub

/-- The new entry takes the place of the old one, in its chain and in the ring. -/
theorem replace [DecidableEq D] (hsame : Equivalence (fun k k' => H.same k k' = true))
    (hkey : t.key new = key) (hdata : t.data new = data) (he : H.same e.key key = true)
    (hl : ∀ x ∈ l, x.addr ≠ new) (hr : ∀ x ∈ r, x.addr ≠ new) :
    Rep H c (hashtableReplace t
      (lastCell Slot.next (.bucket ((t.hashCode e.addr).toNat % c)) pre) e.addr new)
      (l ++ ⟨new, key, data⟩ :: r) := by
  have hnd := h.nodup
  have hring := h.ring
  have hchains := h.chains
  rw [List.map_append, List.map_cons] at hnd hring hchains hmem
  have hl' : new ∉ l.map Entry.addr := fun hn => by
    obtain ⟨x, hx, hxa⟩ := List.mem_map.mp hn
    exact hl x hx hxa
  have hr' : new ∉ r.map Entry.addr := fun hn => by
    obtain ⟨x, hx, hxa⟩ := List.mem_map.mp hn
    exact hr x hx hxa
  have hprev : t.lstPrev (some e.addr) ≠ some new := by
    rw [hring.prev_eq]
    exact fun hlast => hl' (List.mem_of_getLast? hlast)
  have hold : ∀ (P : Entry K A D → Prop), (∀ x ∈ l ++ e :: r, x.addr ≠ new → P x) →
      P ⟨new, key, data⟩ → ∀ x ∈ l ++ ⟨new, key, data⟩ :: r, P x := by
    intro P hes hlast x hx
    rw [List.mem_append, List.mem_cons] at hx
    rcases hx with hx | rfl | hx
    · exact hes x (by simp [hx]) (hl x hx)
    · exact hlast
    · exact hes x (by simp [hx]) (hr x hx)
  have hcode : H.hashCode e.key = H.hashCode key := by
    unfold HashOps.same at he
    exact (decide_eq_true_eq.mp he).1
  unfold hashtableReplace
  constructor
  case capacity => exact h.capacity
  case count => simpa [Hashtable.deref] using h.count
  case nodup =>
    rw [List.map_append, List.map_cons, List.nodup_middle, List.nodup_cons]
    refine ⟨?_, (List.nodup_middle.mp hnd).of_cons⟩
    rw [List.mem_append, not_or]
    exact ⟨hl', hr'⟩
  case key => exact hold _ (fun x hx _ => h.key x hx) hkey
  case data => exact hold _ (fun x hx _ => h.data x hx) hdata
  case hashCode =>
    refine hold _ (fun x hx hne => ?_) ?_
    · exact (Function.update_of_ne hne _ _).trans (h.hashCode x hx)
    · have hce := h.hashCode e (by simp)
      exact (Function.update_self _ _ _).trans (hce.trans hcode)
  case ring =>
    have hreplace := hring.replace hnd hl' hr'
    rw [List.map_append, List.map_cons]
    dsimp only [Hashtable.deref]
    rw [Function.update_self, Function.update_of_ne hprev.symm, Function.update_self]
    exact hreplace
  case chains =>
    let f' (a : A) : ℕ := (Function.update t.hashCode new (t.hashCode e.addr) a).toNat % c
    have hf : ∀ a ∈ l.map Entry.addr ++ r.map Entry.addr, f' a = (t.hashCode a).toNat % c := by
      intro a ha
      have hne : a ≠ new := by
        intro heq
        subst heq
        exact (List.mem_append.mp ha).elim hl' hr'
      simp only [f', Function.update_of_ne hne]
    have hnewIdx : f' new = (t.hashCode e.addr).toNat % c := by simp [f']
    rw [List.map_append, List.map_cons]
    exact hchains.replace hnd hchain hseg hmem hl' hr' hnewIdx hf
  case distinct =>
    have hd := h.distinct
    have hiff : ∀ k, H.same e.key k = H.same key k := by
      intro k
      rw [Bool.eq_iff_iff]
      exact ⟨hsame.trans (hsame.symm he), hsame.trans he⟩
    have hiff' : ∀ k, H.same k e.key = H.same k key := by
      intro k
      rw [Bool.eq_iff_iff]
      exact ⟨fun hk => hsame.trans hk he, fun hk => hsame.trans hk (hsame.symm he)⟩
    simp only [List.pairwise_append, List.pairwise_cons, List.mem_cons, forall_eq_or_imp, hiff,
      hiff'] at hd ⊢
    exact hd

end Middle

end Rep

end Carrier.Common
