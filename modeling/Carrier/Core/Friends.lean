import Carrier.Common.HashtableRefinement
import Mathlib.Data.List.TakeWhile

/-! `carrier/friends.h`: the friends of a carrier by their friend numbers. A number is a key of four
bytes, hashed as such and compared by `strcmp`. -/
namespace Carrier.Core
open Carrier.Lib Carrier.Common

/-- What a key points to: a friend number with the memory behind it. In a `FriendInfo` that is the
user id; for the argument of a call it is the stack. -/
structure FriendKey where
  number : BitVec 32
  behind : Bytes
  deriving DecidableEq

def numberBytes (number : BitVec 32) : Bytes := toLE 4 number.toNat

def friendidCompare (key1 key2 : FriendKey) : ℤ :=
  strcmp (numberBytes key1.number ++ key1.behind) (numberBytes key2.number ++ key2.behind)

def friendOps : HashOps FriendKey := ⟨fun key => defaultHashCode (numberBytes key.number), friendidCompare⟩

def uint32Max : BitVec 32 := BitVec.allOnes 32

/-- A table of friends: `F` are the addresses of `FriendInfo`s, which begin with their entry. -/
abbrev Friends (F : Type*) := Hashtable FriendKey F F

variable {F : Type*} [DecidableEq F]

def friendsCreate (mem : Friends F) : Friends F := hashtableCreate 32 mem

/-- `friends_put` of a `FriendInfo` with a friend number and a user id. -/
def friendsPut (t : Friends F) (fi : F) (number : BitVec 32) (userid : Bytes) : Option (Friends F) :=
  (hashtablePut friendOps t fi ⟨number, userid⟩ fi).map Prod.fst

/-- `friends_get`; its assertion excludes `UINT32_MAX`. -/
def friendsGet (t : Friends F) (number : BitVec 32) (behind : Bytes) :
    Option (Friends F × Option F) :=
  if number = uint32Max then none else hashtableGet friendOps t ⟨number, behind⟩

/-- `friends_remove`; its assertion excludes `UINT32_MAX`. -/
def friendsRemove (t : Friends F) (number : BitVec 32) (behind : Bytes) :
    Option (Friends F × Option F) :=
  if number = uint32Max then none else hashtableRemove friendOps t ⟨number, behind⟩

/-- The calls that change the table. -/
inductive FriendOp (F : Type*) where
  | put (fi : F) (number : BitVec 32) (userid : Bytes)
  | remove (number : BitVec 32) (behind : Bytes)

namespace FriendOp

def number : FriendOp F → BitVec 32
  | .put _ number _ => number
  | .remove number _ => number

/-- What the number of the call stands for after it. -/
def stored : FriendOp F → Option F
  | .put fi _ _ => some fi
  | .remove _ _ => none

def toHashOp : FriendOp F → HashOp FriendKey F F
  | .put fi number userid => .put fi ⟨number, userid⟩ fi
  | .remove number behind => .remove ⟨number, behind⟩

end FriendOp

def friendsStep (t : Friends F) : FriendOp F → Option (Friends F)
  | .put fi number userid => friendsPut t fi number userid
  | .remove number behind => (friendsRemove t number behind).map Prod.fst

/-- The last `FriendInfo` put under each number and not removed since. -/
def lastPut (last : BitVec 32 → Option F) (ops : List (FriendOp F)) : BitVec 32 → Option F :=
  ops.foldl (fun last op => Function.update last op.number op.stored) last

/-- The table is a map on the friend numbers of `N`: after every run on them a lookup finds the last
`FriendInfo` put under the number and not removed since, and a call leaves the entries of all other
numbers. -/
def FriendsFaithful (F : Type*) [DecidableEq F] (N : Set (BitVec 32)) : Prop :=
  ∀ (mem : Friends F) (ops : List (FriendOp F)), (∀ op ∈ ops, op.number ∈ N) →
    OwnEntries friendOps.same [] (ops.map FriendOp.toHashOp) →
      ∃ t es, exec friendsStep (friendsCreate mem) ops = some t ∧ Rep friendOps 32 t es ∧
        (∀ a ∈ N, ∀ behind,
          ∃ t', friendsGet t a behind = some (t', lastPut (fun _ => none) ops a)) ∧
        ∀ op : FriendOp F, op.number ∈ N → op.toHashOp.Own es →
          ∃ t' es', friendsStep t op = some t' ∧ Rep friendOps 32 t' es' ∧
            ∀ e ∈ es, e.key.number ≠ op.number → e ∈ es'

/-- A number with a zero byte: `strcmp` does not look behind it. -/
def HasZeroByte (number : BitVec 32) : Prop := 0 ∈ numberBytes number

/-- Two numbers are one key: the same hash code, and the same bytes before the first zero. -/
def SameKey (a b : BitVec 32) : Prop :=
  defaultHashCode (numberBytes a) = defaultHashCode (numberBytes b) ∧
    (numberBytes a).takeWhile (· ≠ 0) = (numberBytes b).takeWhile (· ≠ 0)

section Keys

theorem friendOps_same_iff (k k' : FriendKey) : friendOps.same k k' = true ↔
    defaultHashCode (numberBytes k.number) = defaultHashCode (numberBytes k'.number) ∧
      (numberBytes k.number ++ k.behind).takeWhile (· ≠ 0) =
        (numberBytes k'.number ++ k'.behind).takeWhile (· ≠ 0) := by
  unfold HashOps.same
  rw [decide_eq_true_eq]
  exact and_congr_right' (strcmp_eq_zero_iff _ _)

theorem friendOps_equivalence : Equivalence (fun k k' => friendOps.same k k' = true) := by
  simp only [friendOps_same_iff]
  exact ⟨fun _ => ⟨rfl, rfl⟩, fun h => ⟨h.1.symm, h.2.symm⟩,
    fun h h' => ⟨h.1.trans h'.1, h.2.trans h'.2⟩⟩

theorem friendOps_fits (k : FriendKey) : (friendOps.hashCode k).toNat % 32 < 2 ^ 31 := by
  have := Nat.mod_lt (friendOps.hashCode k).toNat (show 32 > 0 by decide)
  omega

theorem takeWhile_of_hasZeroByte {number : BitVec 32} (h : HasZeroByte number) (behind : Bytes) :
    (numberBytes number ++ behind).takeWhile (· ≠ 0) = (numberBytes number).takeWhile (· ≠ 0) := by
  rw [List.takeWhile_append, if_neg]
  intro hlen
  have hall := (List.takeWhile_prefix _).eq_of_length hlen
  have hzero : 0 ∈ numberBytes number := h
  rw [← hall] at hzero
  simpa using List.mem_takeWhile_imp hzero

theorem friendOps_same_of_hasZeroByte (k k' : FriendKey) (h : HasZeroByte k.number)
    (h' : HasZeroByte k'.number) : friendOps.same k k' = true ↔ SameKey k.number k'.number := by
  rw [friendOps_same_iff, takeWhile_of_hasZeroByte h, takeWhile_of_hasZeroByte h']
  rfl

theorem ne_uint32Max {number : BitVec 32} (h : HasZeroByte number) : number ≠ uint32Max := by
  rintro rfl
  revert h
  unfold HasZeroByte
  decide

end Keys

/-- The entries are those of the numbers of `N`, as they were put last. -/
structure Tracks (N : Set (BitVec 32)) (es : List (Entry FriendKey F F))
    (last : BitVec 32 → Option F) : Prop where
  number : ∀ e ∈ es, e.key.number ∈ N
  last : ∀ a ∈ N, (es.find? (fun e => e.key.number = a)).map Entry.data = last a

section Run

variable {N : Set (BitVec 32)} {t : Friends F} {es : List (Entry FriendKey F F)}
  {base : F → ℤ} {last : BitVec 32 → Option F} {op : FriendOp F}

theorem friendsStep_eq (hmax : op.number ≠ uint32Max) :
    friendsStep t op = (hashStep friendOps t op.toHashOp).map Prod.fst := by
  cases op with
  | put fi number userid =>
    rw [friendsStep, friendsPut, FriendOp.toHashOp, hashStep, Option.map_map]
    rfl
  | remove number behind =>
    have hne : number ≠ uint32Max := hmax
    rw [friendsStep, friendsRemove, if_neg hne, FriendOp.toHashOp, hashStep, Option.map_map]
    rfl

/-- One call on the table and on its entries. -/
theorem friendsStep_holds (h : Holds friendOps 32 t es base) (hmax : op.number ≠ uint32Max)
    (hown : op.toHashOp.Own es) :
    ∃ t' base', friendsStep t op = some t' ∧
      Holds friendOps 32 t' (mapStep friendOps.same es op.toHashOp).1 base' := by
  obtain ⟨t', hstep, hholds⟩ := h.step friendOps_equivalence friendOps_fits hown
  refine ⟨t', _, ?_, hholds⟩
  rw [friendsStep_eq hmax, hstep]
  rfl

variable (hzero : ∀ n ∈ N, HasZeroByte n) (hkeys : ∀ a ∈ N, ∀ b ∈ N, SameKey a b → a = b)
include hzero hkeys

theorem same_eq_number {k k' : FriendKey} (h : k.number ∈ N) (h' : k'.number ∈ N) :
    friendOps.same k k' = decide (k.number = k'.number) := by
  rw [Bool.eq_iff_iff, friendOps_same_of_hasZeroByte k k' (hzero _ h) (hzero _ h'), decide_eq_true_eq]
  constructor
  · exact hkeys _ h _ h'
  · intro heq
    rw [heq]
    exact ⟨rfl, rfl⟩

omit [DecidableEq F] in
theorem Tracks.step (h : Tracks N es last) (hop : op.number ∈ N) :
    Tracks N (mapStep friendOps.same es op.toHashOp).1
      (Function.update last op.number op.stored) := by
  have hdisj (a b : BitVec 32) (hne : a ≠ b) : ∀ e ∈ es,
      decide (e.key.number = b) = true → decide (e.key.number = a) = false := by
    intro e _ he
    rw [decide_eq_true_eq] at he
    rw [decide_eq_false_iff_not, he]
    exact hne.symm
  cases op with
  | put fi number userid =>
    have hmap : (mapStep friendOps.same es (FriendOp.put fi number userid).toHashOp).1 =
        putEntry (fun e => decide (e.key.number = number)) es ⟨fi, ⟨number, userid⟩, fi⟩ :=
      putEntry_congr (fun e he => same_eq_number hzero hkeys (h.number e he) hop) _
    rw [hmap]
    constructor
    · intro e he
      rcases mem_of_mem_putEntry he with rfl | he
      · exact hop
      · exact h.number e he
    · intro a ha
      by_cases haop : a = number
      · subst haop
        rw [find?_putEntry_self (by simp)]
        simp [FriendOp.number, FriendOp.stored]
      · have hnew : decide (number = a) = false := by simpa using Ne.symm haop
        rw [find?_putEntry_of_ne (hdisj a number haop) hnew, h.last a ha]
        exact (Function.update_of_ne haop _ _).symm
  | remove number behind =>
    have hmap : (mapStep friendOps.same es (FriendOp.remove number behind).toHashOp).1 =
        removeEntry (fun e => decide (e.key.number = number)) es :=
      removeEntry_congr (fun e he => same_eq_number hzero hkeys (h.number e he) hop)
    rw [hmap]
    constructor
    · intro e he
      exact h.number e (mem_of_mem_removeEntry he)
    · intro a ha
      by_cases haop : a = number
      · subst haop
        rw [find?_removeEntry_self]
        simp [FriendOp.number, FriendOp.stored]
      · rw [find?_removeEntry_of_ne (hdisj a number haop), h.last a ha]
        exact (Function.update_of_ne haop _ _).symm

theorem Tracks.run {ops : List (FriendOp F)} (h : Tracks N es last)
    (hholds : Holds friendOps 32 t es base) (hops : ∀ op ∈ ops, op.number ∈ N)
    (hown : OwnEntries friendOps.same es (ops.map FriendOp.toHashOp)) :
    ∃ t' es' base', exec friendsStep t ops = some t' ∧ Holds friendOps 32 t' es' base' ∧
      Tracks N es' (lastPut last ops) := by
  induction ops generalizing t es base last with
  | nil => exact ⟨t, es, base, rfl, hholds, h⟩
  | cons op ops ih =>
    have hop := hops op List.mem_cons_self
    obtain ⟨t₁, base₁, hstep, hholds₁⟩ :=
      friendsStep_holds hholds (ne_uint32Max (hzero _ hop)) (ownEntries_cons.mp hown).1
    obtain ⟨t', es', base', hexec, hholds', htracks⟩ := ih (h.step hzero hkeys hop) hholds₁
      (fun op' hop' => hops op' (List.mem_cons_of_mem _ hop')) (ownEntries_cons.mp hown).2
    exact ⟨t', es', base', exec_cons_eq_some.mpr ⟨t₁, hstep, hexec⟩, hholds', htracks⟩

theorem Tracks.get (h : Tracks N es last) (hholds : Holds friendOps 32 t es base) {a : BitVec 32}
    (ha : a ∈ N) (behind : Bytes) : ∃ t', friendsGet t a behind = some (t', last a) := by
  obtain ⟨t', hget, -⟩ := hholds.get friendOps_equivalence (friendOps_fits ⟨a, behind⟩)
  have hfind : es.find? (fun e => friendOps.same e.key ⟨a, behind⟩) =
      es.find? (fun e => e.key.number = a) :=
    find?_congr_hit (fun e he => same_eq_number hzero hkeys (h.number e he) ha)
  refine ⟨t', ?_⟩
  unfold friendsGet
  rw [if_neg (ne_uint32Max (hzero a ha)), hget, hfind, h.last a ha]

omit [DecidableEq F] in
theorem Tracks.mem_step (h : Tracks N es last) (hop : op.number ∈ N) {e : Entry FriendKey F F}
    (he : e ∈ es) (hne : e.key.number ≠ op.number) :
    e ∈ (mapStep friendOps.same es op.toHashOp).1 := by
  cases op with
  | put fi number userid =>
    refine mem_putEntry_of_ne he ?_
    rw [same_eq_number hzero hkeys (h.number e he) hop]
    exact decide_eq_false hne
  | remove number behind =>
    refine mem_removeEntry_of_ne he ?_
    rw [same_eq_number hzero hkeys (h.number e he) hop]
    exact decide_eq_false hne

end Run

section Failures

variable {N : Set (BitVec 32)} {t : Friends F} (fi : F)

def friendsMemory : Friends F :=
  ⟨0, 0, 0, fun _ => ⟨0, []⟩, fun _ => fi, fun _ => 0, fun _ => none, fun _ => none, fun _ => none,
    fun _ => 0⟩

/-- Of a table that holds `es`, a lookup does not find a key that no entry has. -/
theorem friendsGet_none {es : List (Entry FriendKey F F)} {base : F → ℤ} {a : BitVec 32}
    {behind : Bytes} (h : Holds friendOps 32 t es base)
    (hnone : es.find? (fun e => friendOps.same e.key ⟨a, behind⟩) = none) (t' : Friends F) :
    friendsGet t a behind ≠ some (t', some fi) := by
  obtain ⟨t₁, hget, -⟩ := h.get friendOps_equivalence (friendOps_fits ⟨a, behind⟩)
  unfold friendsGet
  rw [hget, hnone]
  split <;> simp

theorem friends_put_first {a : BitVec 32} (ha : a ≠ uint32Max) : ∃ t base,
    friendsStep (friendsCreate (friendsMemory fi)) (.put fi a []) = some t ∧
      Holds friendOps 32 t [⟨fi, ⟨a, []⟩, fi⟩] base := by
  have hcreate : Holds friendOps 32 (friendsCreate (friendsMemory fi)) [] _ :=
    holds_create friendOps (by decide) (friendsMemory fi)
  have hown : (FriendOp.put fi a []).toHashOp.Own [] := fun e he => absurd he List.not_mem_nil
  exact friendsStep_holds hcreate ha hown

/-- Without a zero byte the lookup compares what lies behind the number. -/
theorem FriendsFaithful.hasZeroByte (h : FriendsFaithful F N) (fi : F) {n : BitVec 32} (hn : n ∈ N) :
    HasZeroByte n := by
  by_contra hzero
  obtain ⟨t, -, hexec, -, hget, -⟩ := h (friendsMemory fi) [.put fi n []]
    (fun op hop => List.mem_singleton.mp hop ▸ hn)
    (ownEntries_cons.mpr ⟨fun e he => absurd he List.not_mem_nil, trivial⟩)
  obtain ⟨t', hfound⟩ := hget n hn [1]
  have hlast : lastPut (fun _ => none) [FriendOp.put fi n []] n = some fi := by
    simp [lastPut, FriendOp.number, FriendOp.stored]
  rw [hlast] at hfound
  by_cases hmax : n = uint32Max
  · rw [friendsGet, if_pos hmax] at hfound
    cases hfound
  · obtain ⟨t₁, base, hstep, hholds⟩ := friends_put_first fi hmax
    have hrun : t₁ = t := by
      rw [exec_cons, hstep, Option.bind_some, exec_nil] at hexec
      exact Option.some.inj hexec
    rw [hrun] at hholds
    refine friendsGet_none fi hholds ?_ t' hfound
    have hbytes : ∀ b ∈ numberBytes n, b ≠ 0 := by
      intro b hb heq
      rw [heq] at hb
      exact hzero hb
    have hsame : ¬friendOps.same ⟨n, []⟩ ⟨n, [1]⟩ = true := by
      rw [friendOps_same_iff, List.takeWhile_append_of_pos (by simpa using hbytes),
        List.takeWhile_append_of_pos (by simpa using hbytes)]
      simp
    rw [List.find?_eq_none]
    intro e he
    rw [List.mem_singleton.mp he]
    exact hsame

theorem FriendsFaithful.sameKey (h : FriendsFaithful F N) (fi : F) {a b : BitVec 32}
    (ha : a ∈ N) (hb : b ∈ N) (hkey : SameKey a b) : a = b := by
  by_contra hne
  have hzeroA := h.hasZeroByte fi ha
  have hzeroB := h.hasZeroByte fi hb
  have hown : OwnEntries friendOps.same []
      ([.put fi a [], .remove b []].map FriendOp.toHashOp) := by
    rw [List.map_cons, ownEntries_cons]
    exact ⟨fun e he => absurd he List.not_mem_nil, ownEntries_cons.mpr ⟨trivial, trivial⟩⟩
  have hops : ∀ op ∈ [FriendOp.put fi a [], .remove b []], op.number ∈ N := by
    simp [FriendOp.number, ha, hb]
  obtain ⟨t, -, hexec, -, hget, -⟩ := h (friendsMemory fi) _ hops hown
  obtain ⟨t', hfound⟩ := hget a ha []
  have hlast : lastPut (fun _ => none) [FriendOp.put fi a [], .remove b []] a = some fi := by
    simp [lastPut, FriendOp.number, FriendOp.stored, Function.update_of_ne hne]
  rw [hlast] at hfound
  obtain ⟨t₁, base₁, hput, hholds₁⟩ := friends_put_first fi (ne_uint32Max hzeroA)
  have hmax : (FriendOp.remove b [] : FriendOp F).number ≠ uint32Max := ne_uint32Max hzeroB
  obtain ⟨t₂, base₂, hremove, hholds₂⟩ := friendsStep_holds hholds₁ hmax trivial
  have hsame : friendOps.same ⟨a, []⟩ ⟨b, []⟩ = true :=
    (friendOps_same_of_hasZeroByte ⟨a, []⟩ ⟨b, []⟩ hzeroA hzeroB).mpr hkey
  have hempty : (mapStep friendOps.same [⟨fi, ⟨a, []⟩, fi⟩]
      (FriendOp.remove b [] : FriendOp F).toHashOp).1 = [] := by
    simp [mapStep, FriendOp.toHashOp, removeEntry, hsame]
  have hrun : t₂ = t := by
    rw [exec_cons, hput, Option.bind_some, exec_cons, hremove, Option.bind_some, exec_nil] at hexec
    exact Option.some.inj hexec
  rw [hempty, hrun] at hholds₂
  exact friendsGet_none fi hholds₂ List.find?_nil t' hfound

end Failures

/-- The friends table is a map on the numbers of `N` exactly when each of them has a zero byte and no
two of them are one key. -/
theorem friendsFaithful_iff [Inhabited F] (N : Set (BitVec 32)) :
    FriendsFaithful F N ↔
      (∀ n ∈ N, HasZeroByte n) ∧ ∀ a ∈ N, ∀ b ∈ N, SameKey a b → a = b := by
  constructor
  · intro h
    exact ⟨fun n hn => h.hasZeroByte default hn, fun a ha b hb => h.sameKey default ha hb⟩
  · rintro ⟨hzero, hkeys⟩ mem ops hops hown
    have hcreate : Holds friendOps 32 (friendsCreate mem) [] mem.nrefs :=
      holds_create friendOps (by decide) mem
    have hnil : Tracks N ([] : List (Entry FriendKey F F)) (fun _ => none) :=
      ⟨fun e he => absurd he List.not_mem_nil, fun _ _ => rfl⟩
    obtain ⟨t, es, base, hexec, hholds, htracks⟩ := hnil.run hzero hkeys hcreate hops hown
    refine ⟨t, es, hexec, hholds.rep, fun a ha behind => htracks.get hzero hkeys hholds ha behind, ?_⟩
    intro op hop hown'
    obtain ⟨t', base', hstep, hholds'⟩ :=
      friendsStep_holds hholds (ne_uint32Max (hzero _ hop)) hown'
    exact ⟨t', _, hstep, hholds'.rep, fun e he hne => htracks.mem_step hzero hkeys hop he hne⟩

/-- The friends 256 and 2031616 are one key: no bytes before a zero, and the hash code 961. -/
theorem not_friendsFaithful_all : ¬FriendsFaithful ℕ {n | n ≠ uint32Max} := by
  intro h
  have hsame : SameKey 256 2031616 := by
    unfold SameKey
    decide
  have heq : (256 : BitVec 32) = 2031616 :=
    h.sameKey 0 (show 256 ≠ uint32Max by decide) (show 2031616 ≠ uint32Max by decide) hsame
  exact absurd heq (by decide)

end Carrier.Core
