import Carrier.Core.Friends

/-! A friends table as the list of its friends: what the calls of `carrier/friends.h` find and leave
when each friend carries the memory that its key points to. The modules that keep friends
instantiate it with their own records. -/
namespace Carrier.Core
open Carrier.Lib Carrier.Common

section Operations

variable {F : Type*} (key : F → FriendKey)

/-- The test of the table on a friend in it and on the argument of a call. -/
def keyed (k : FriendKey) (f : F) : Bool := friendOps.same (key f) k

/-- `friends_get`, behind its assertion. -/
def findFriend (fs : List F) (k : FriendKey) : Option F := fs.find? (keyed key k)

/-- `friends_put` -/
def insertFriend (fs : List F) (f : F) : List F := putEntry (keyed key (key f)) fs f

/-- `friends_remove`, behind its assertion. -/
def dropFriend (fs : List F) (k : FriendKey) : List F := removeEntry (keyed key k) fs

/-- What is written to the `FriendInfo` that a lookup handed out. -/
def modifyFriend (fs : List F) (k : FriendKey) (change : F → F) : List F :=
  fs.map (fun f => if keyed key k f then change f else f)

/-- No friend of the table is found under the key of another one. -/
def Apart (fs : List F) : Prop := fs.Pairwise (fun f g => friendOps.same (key f) (key g) = false)

end Operations

/-- What the table goes by: the hash code of a number, and its bytes and those behind it up to the first
zero. -/
structure FriendCode where
  hashCode : BitVec 32
  text : Bytes
  deriving DecidableEq

def FriendKey.code (k : FriendKey) : FriendCode :=
  ⟨defaultHashCode (numberBytes k.number), (numberBytes k.number ++ k.behind).takeWhile (· ≠ 0)⟩

/-- The friend number that a lookup is given, with what lies behind it on the stack. -/
structure FriendArg where
  number : ℕ
  behind : Bytes
  deriving DecidableEq

instance (n : ℕ) : OfNat FriendArg n := ⟨⟨n, []⟩⟩

namespace FriendArg

def key (f : FriendArg) : FriendKey := ⟨BitVec.ofNat 32 f.number, f.behind⟩

def code (f : FriendArg) : FriendCode := f.key.code

/-- The same number at another place. -/
def again (f : FriendArg) (behind : Bytes) : FriendArg := ⟨f.number, behind⟩

end FriendArg

theorem same_iff_code (k k' : FriendKey) : friendOps.same k k' = true ↔ k.code = k'.code := by
  rw [friendOps_same_iff, FriendKey.code, FriendKey.code, FriendCode.mk.injEq]

theorem code_of_hasZeroByte {k k' : FriendKey} (h : HasZeroByte k.number)
    (hnumber : k.number = k'.number) : k.code = k'.code := by
  have h' : HasZeroByte k'.number := hnumber ▸ h
  rw [FriendKey.code, FriendKey.code, takeWhile_of_hasZeroByte h, takeWhile_of_hasZeroByte h', hnumber]

theorem same_self (k : FriendKey) : friendOps.same k k = true := friendOps_equivalence.refl k

variable {F : Type*} {key : F → FriendKey} {fs : List F} {f g : F} {k : FriendKey}

theorem keyed_of_findFriend (h : findFriend key fs k = some f) : friendOps.same (key f) k = true :=
  List.find?_some (p := keyed key k) h

theorem mem_of_findFriend (h : findFriend key fs k = some f) : f ∈ fs := List.mem_of_find?_eq_some h

theorem Apart.one (h : Apart key fs) (k : FriendKey) :
    fs.Pairwise (fun f g => ¬(keyed key k f ∧ keyed key k g)) := by
  apply List.Pairwise.imp _ h
  intro f g hfg hboth
  obtain ⟨hf, hg⟩ := hboth
  have hsame := friendOps_equivalence.trans hf (friendOps_equivalence.symm hg)
  exact Bool.false_ne_true (hfg.symm.trans hsame)

theorem Apart.findFriend_of_mem (h : Apart key fs) (hf : f ∈ fs)
    (hk : friendOps.same (key f) k = true) : findFriend key fs k = some f :=
  find?_of_mem (h.one k) hf hk

theorem key_modify (k : FriendKey) {change : F → F} (hchange : ∀ f, key (change f) = key f) (f : F) :
    key (if keyed key k f then change f else f) = key f := by
  split
  · exact hchange f
  · rfl

theorem findFriend_modifyFriend (k k' : FriendKey) {change : F → F}
    (hchange : ∀ f, key (change f) = key f) :
    findFriend key (modifyFriend key fs k change) k' =
      (findFriend key fs k').map (fun f => if keyed key k f then change f else f) := by
  have hkeyed : (keyed key k' ∘ fun f => if keyed key k f then change f else f) = keyed key k' := by
    funext f
    rw [Function.comp_apply, keyed, key_modify k hchange]
    rfl
  unfold findFriend modifyFriend
  rw [List.find?_map, hkeyed]

theorem Apart.modify (h : Apart key fs) (k : FriendKey) {change : F → F}
    (hchange : ∀ f, key (change f) = key f) : Apart key (modifyFriend key fs k change) := by
  apply List.Pairwise.map _ _ h
  intro f g hfg
  rw [key_modify k hchange, key_modify k hchange]
  exact hfg

section Codes

/-! A table as the map from codes to friends. -/

/-- The friend with a code. -/
def atCode (key : F → FriendKey) (fs : List F) (c : FriendCode) : Option F :=
  fs.find? (fun f => (key f).code = c)

theorem keyed_eq_code (k : FriendKey) (f : F) : keyed key k f = decide ((key f).code = k.code) := by
  rw [Bool.eq_iff_iff, decide_eq_true_eq]
  exact same_iff_code (key f) k

theorem findFriend_eq_atCode (fs : List F) (k : FriendKey) :
    findFriend key fs k = atCode key fs k.code :=
  find?_congr_hit (fun f _ => keyed_eq_code k f)

theorem atCode_insertFriend (fs : List F) (f : F) :
    atCode key (insertFriend key fs f) = Function.update (atCode key fs) (key f).code (some f) := by
  funext c
  unfold atCode insertFriend
  by_cases hc : c = (key f).code
  · rw [hc, Function.update_self, find?_congr_hit (fun g _ => (keyed_eq_code (key f) g).symm)]
    exact find?_putEntry_self (same_self (key f))
  · rw [Function.update_of_ne hc]
    apply find?_putEntry_of_ne
    · intro g _ hg
      rw [keyed_eq_code, decide_eq_true_eq] at hg
      rw [hg]
      exact decide_eq_false (Ne.symm hc)
    · exact decide_eq_false (Ne.symm hc)

theorem atCode_dropFriend (fs : List F) (k : FriendKey) :
    atCode key (dropFriend key fs k) = Function.update (atCode key fs) k.code none := by
  funext c
  unfold atCode dropFriend
  by_cases hc : c = k.code
  · rw [hc, Function.update_self, find?_congr_hit (fun g _ => (keyed_eq_code k g).symm)]
    exact find?_removeEntry_self
  · rw [Function.update_of_ne hc]
    apply find?_removeEntry_of_ne
    intro g _ hg
    rw [keyed_eq_code, decide_eq_true_eq] at hg
    rw [hg]
    exact decide_eq_false (Ne.symm hc)

theorem atCode_modifyFriend (fs : List F) (k : FriendKey) {change : F → F}
    (hchange : ∀ f, key (change f) = key f) :
    atCode key (modifyFriend key fs k change) =
      Function.update (atCode key fs) k.code ((atCode key fs k.code).map change) := by
  funext c
  unfold atCode modifyFriend
  have hkeys : ((fun g => decide ((key g).code = c)) ∘
      fun g => if keyed key k g then change g else g) = fun g => decide ((key g).code = c) := by
    funext g
    rw [Function.comp_apply, key_modify k hchange]
  rw [List.find?_map, hkeys]
  by_cases hc : c = k.code
  · rw [hc, Function.update_self]
    cases hfind : fs.find? (fun g => decide ((key g).code = k.code)) with
    | none => rfl
    | some g =>
      have hg := List.find?_some hfind
      rw [Option.map_some, Option.map_some, keyed_eq_code, hg]
      rfl
  · rw [Function.update_of_ne hc]
    cases hfind : fs.find? (fun g => decide ((key g).code = c)) with
    | none => rfl
    | some g =>
      have hg := List.find?_some hfind
      rw [decide_eq_true_eq] at hg
      rw [Option.map_some, keyed_eq_code, hg, if_neg (by simpa using hc)]

end Codes

section Numbers

/-- Friend numbers on which the table is a map: each has a zero byte, no two are one key. -/
structure PlainNumbers (N : Set (BitVec 32)) : Prop where
  hasZeroByte : ∀ n ∈ N, HasZeroByte n
  sameKey : ∀ a ∈ N, ∀ b ∈ N, SameKey a b → a = b

theorem numberBytes_of_lt {n : BitVec 32} (h : n.toNat < 65536) :
    numberBytes n = [UInt8.ofNat n.toNat, UInt8.ofNat (n.toNat / 256), 0, 0] := by
  have hmod (m : ℕ) : UInt8.ofNat (m % 256) = UInt8.ofNat m := by
    apply UInt8.toNat_inj.mp
    simp
  have hzero : n.toNat / 256 / 256 = 0 := by omega
  simp [numberBytes, toLE, toBE, hzero, hmod]

theorem defaultHashCode_high {a b : UInt8}
    (h : defaultHashCode [0, a, 0, 0] = defaultHashCode [0, b, 0, 0]) : a = b := by
  -- 3427929153 is the inverse of 961, the factor of the second byte
  have hcode (c : UInt8) : 3427929153 * defaultHashCode [0, c, 0, 0] =
      c.toBitVec.signExtend 32 := by
    have hz : (0 : UInt8).toBitVec.signExtend 32 = 0 := by decide
    simp only [defaultHashCode, List.foldl_cons, List.foldl_nil, hz]
    grind
  have hext := congrArg BitVec.toInt ((hcode a).symm.trans ((congrArg _ h).trans (hcode b)))
  rw [BitVec.toInt_signExtend_of_le (by decide), BitVec.toInt_signExtend_of_le (by decide),
    BitVec.toInt_inj, UInt8.toBitVec_inj] at hext
  exact hext

theorem takeWhile_pair {a b c d : UInt8}
    (h : [a, b, 0, 0].takeWhile (· ≠ 0) = [c, d, 0, 0].takeWhile (· ≠ 0)) :
    a = c ∧ (a ≠ 0 → b = d) := by
  by_cases ha : a = 0 <;> by_cases hb : b = 0 <;> by_cases hc : c = 0 <;> by_cases hd : d = 0 <;>
    simp_all

/-- The numbers that toxcore hands out, indices of its own list, as long as they are small. -/
theorem plainNumbers_small : PlainNumbers {n | n.toNat < 65536} where
  hasZeroByte n hn := by
    rw [HasZeroByte, numberBytes_of_lt hn]
    simp
  sameKey a ha b hb hkey := by
    obtain ⟨hcode, htext⟩ := hkey
    rw [numberBytes_of_lt ha, numberBytes_of_lt hb] at hcode htext
    obtain ⟨hlow, hpair⟩ := takeWhile_pair htext
    have hhigh : UInt8.ofNat (a.toNat / 256) = UInt8.ofNat (b.toNat / 256) := by
      by_cases hzero : UInt8.ofNat a.toNat = 0
      · rw [← hlow, hzero] at hcode
        exact defaultHashCode_high hcode
      · exact hpair hzero
    have hlow' := congrArg UInt8.toNat hlow
    have hhigh' := congrArg UInt8.toNat hhigh
    rw [UInt8.toNat_ofNat', UInt8.toNat_ofNat'] at hlow' hhigh'
    have hlt : a.toNat < 65536 := ha
    have hlt' : b.toNat < 65536 := hb
    apply BitVec.eq_of_toNat_eq
    omega

variable {N : Set (BitVec 32)} (hplain : PlainNumbers N)
include hplain

theorem PlainNumbers.mono {M : Set (BitVec 32)} (h : M ⊆ N) : PlainNumbers M where
  hasZeroByte n hn := hplain.hasZeroByte n (h hn)
  sameKey a ha b hb := hplain.sameKey a (h ha) b (h hb)

theorem PlainNumbers.keyed_eq (hk : k.number ∈ N) (hf : (key f).number ∈ N) :
    keyed key k f = decide ((key f).number = k.number) :=
  same_eq_number hplain.hasZeroByte hplain.sameKey hf hk

end Numbers

section Real

variable {A : Type*} [DecidableEq A] {t : Friends A}

/-- A table of the code holds the friends of a list; `info` reads the `FriendInfo` at an address. -/
structure Shows (key : F → FriendKey) (info : A → F) (t : Friends A) (fs : List F) : Prop where
  holds : ∃ es base, Holds friendOps 32 t es base ∧
    (∀ e ∈ es, e.addr = e.data ∧ e.key = key (info e.data)) ∧
    es.map (fun e => info e.data) = fs

def listStep (key : F → FriendKey) (info : A → F) (fs : List F) : FriendOp A → List F
  | .put fi _ _ => insertFriend key fs (info fi)
  | .remove number behind => dropFriend key fs ⟨number, behind⟩

/-- The assertions of a call hold, and a `FriendInfo` is put under its own key. -/
structure CallFits (key : F → FriendKey) (info : A → F) (op : FriendOp A) : Prop where
  ne_max : op.number ≠ uint32Max
  own : ∀ fi number userid, op = .put fi number userid → key (info fi) = ⟨number, userid⟩

variable {info : A → F} {op : FriendOp A} {ops : List (FriendOp A)}

theorem shows_create (key : F → FriendKey) (info : A → F) (mem : Friends A) :
    Shows key info (friendsCreate mem) [] :=
  ⟨[], mem.nrefs, holds_create friendOps (by decide) mem, by simp, rfl⟩

theorem Shows.get (h : Shows key info t fs) {number : BitVec 32} (hmax : number ≠ uint32Max)
    (behind : Bytes) : ∃ t' found, friendsGet t number behind = some (t', found) ∧
      found.map info = findFriend key fs ⟨number, behind⟩ := by
  obtain ⟨es, base, hholds, hes, rfl⟩ := h.holds
  obtain ⟨t', hget, -⟩ := hholds.get friendOps_equivalence (friendOps_fits ⟨number, behind⟩)
  refine ⟨t', (es.find? (fun e => friendOps.same e.key ⟨number, behind⟩)).map Entry.data, ?_, ?_⟩
  · unfold friendsGet
    rw [if_neg hmax, hget]
  · have hkeyed : ∀ e ∈ es, friendOps.same e.key ⟨number, behind⟩ =
        keyed key ⟨number, behind⟩ (info e.data) := by
      intro e he
      rw [(hes e he).2]
      rfl
    unfold findFriend
    rw [Option.map_map, find?_congr_hit hkeyed, List.find?_map]
    rfl

/-- The calls of the code that change the table change the list alike. -/
theorem Shows.step (h : Shows key info t fs) (hop : CallFits key info op) :
    ∃ t', friendsStep t op = some t' ∧ Shows key info t' (listStep key info fs op) := by
  obtain ⟨es, base, hholds, hes, rfl⟩ := h.holds
  have hkeyed (k : FriendKey) : ∀ e ∈ es,
      friendOps.same e.key k = keyed key k (info e.data) := by
    intro e he
    rw [(hes e he).2]
    rfl
  cases op with
  | put fi number userid =>
    have hkey := hop.own fi number userid rfl
    have hown : (FriendOp.put fi number userid).toHashOp.Own es := by
      intro e he haddr
      obtain ⟨hdata, hekey⟩ := hes e he
      obtain ⟨addr, ekey, data⟩ := e
      change addr = data at hdata
      change addr = fi at haddr
      subst hdata haddr
      exact congrArg (fun k => Entry.mk addr k addr) (hekey.trans hkey)
    obtain ⟨t', base', hstep, hholds'⟩ := friendsStep_holds hholds hop.ne_max hown
    refine ⟨t', hstep, _, base', hholds', ?_, ?_⟩
    · intro e he
      obtain rfl | he := mem_of_mem_putEntry he
      · exact ⟨rfl, hkey.symm⟩
      · exact hes e he
    · change _ = putEntry (keyed key (key (info fi))) _ (info fi)
      rw [hkey]
      exact map_putEntry (hkeyed ⟨number, userid⟩)
  | remove number behind =>
    obtain ⟨t', base', hstep, hholds'⟩ := friendsStep_holds hholds hop.ne_max trivial
    refine ⟨t', hstep, _, base', hholds', ?_, map_removeEntry (hkeyed ⟨number, behind⟩)⟩
    intro e he
    exact hes e (mem_of_mem_removeEntry he)

/-- The entry whose `FriendInfo` a lookup hands out. -/
theorem friendsGet_entry {es : List (Entry FriendKey A A)} {base : A → ℤ} {t' : Friends A} {a : A}
    {number : BitVec 32} {behind : Bytes} (hholds : Holds friendOps 32 t es base)
    (hget : friendsGet t number behind = some (t', some a)) :
    ∃ e, es.find? (fun e => friendOps.same e.key ⟨number, behind⟩) = some e ∧ e.data = a := by
  obtain ⟨t₁, hget₁, -⟩ := hholds.get friendOps_equivalence (friendOps_fits ⟨number, behind⟩)
  unfold friendsGet at hget
  by_cases hmax : number = uint32Max
  · rw [if_pos hmax] at hget
    cases hget
  · rw [if_neg hmax, hget₁, Option.some_inj, Prod.mk.injEq, Option.map_eq_some_iff] at hget
    exact hget.2

theorem one_entry {es : List (Entry FriendKey A A)} {base : A → ℤ}
    (hholds : Holds friendOps 32 t es base) (k : FriendKey) :
    es.Pairwise (fun e e' => ¬(friendOps.same e.key k ∧ friendOps.same e'.key k)) := by
  apply List.Pairwise.imp _ hholds.rep.distinct
  intro e e' hne hboth
  have hsame := friendOps_equivalence.trans hboth.1 (friendOps_equivalence.symm hboth.2)
  exact Bool.false_ne_true (hne.symm.trans hsame)

/-- The entry found is the one with its `FriendInfo`. -/
theorem data_eq_iff {es : List (Entry FriendKey A A)} {base : A → ℤ} {e₀ : Entry FriendKey A A}
    (hholds : Holds friendOps 32 t es base) (hes : ∀ e ∈ es, e.key = key (info e.data))
    (hfind : es.find? (fun e => friendOps.same e.key k) = some e₀) :
    ∀ e ∈ es, e.data = e₀.data ↔ friendOps.same e.key k = true := by
  intro e he
  constructor
  · intro hdata
    have hsame := List.find?_some hfind
    rw [hes e he, hdata, ← hes e₀ (List.mem_of_find?_eq_some hfind)]
    exact hsame
  · intro hsame
    have hfind' := find?_of_mem (one_entry hholds k) he hsame
    rw [hfind, Option.some_inj] at hfind'
    rw [hfind']

/-- A write to the `FriendInfo` that `friends_get` handed out. -/
theorem Shows.modify (h : Shows key info t fs) {number : BitVec 32} {behind : Bytes} {t' : Friends A}
    {a : A} (hget : friendsGet t number behind = some (t', some a)) {change : F → F}
    (hchange : ∀ f, key (change f) = key f) :
    Shows key (Function.update info a (change (info a))) t
      (modifyFriend key fs ⟨number, behind⟩ change) := by
  obtain ⟨es, base, hholds, hes, rfl⟩ := h.holds
  obtain ⟨e₀, hfind, rfl⟩ := friendsGet_entry hholds hget
  have hiff := data_eq_iff hholds (fun e he => (hes e he).2) hfind
  refine ⟨es, base, hholds, ?_, ?_⟩
  · intro e he
    refine ⟨(hes e he).1, (hes e he).2.trans ?_⟩
    by_cases hdata : e.data = e₀.data
    · rw [hdata, Function.update_self, hchange]
    · rw [Function.update_of_ne hdata]
  · unfold modifyFriend
    rw [List.map_map]
    apply List.map_congr_left
    intro e he
    have hkeyed : keyed key ⟨number, behind⟩ (info e.data) =
        friendOps.same e.key ⟨number, behind⟩ := by
      rw [(hes e he).2]
      rfl
    rw [Function.comp_apply, hkeyed]
    by_cases hdata : e.data = e₀.data
    · rw [if_pos ((hiff e he).mp hdata), hdata, Function.update_self]
    · rw [if_neg (fun hsame => hdata ((hiff e he).mpr hsame)), Function.update_of_ne hdata]

/-- After any run of calls the table of the code holds what the list does. -/
theorem Shows.run (h : Shows key info t fs) (hops : ∀ op ∈ ops, CallFits key info op) :
    ∃ t', exec friendsStep t ops = some t' ∧
      Shows key info t' (ops.foldl (listStep key info) fs) := by
  induction ops generalizing t fs with
  | nil => exact ⟨t, rfl, h⟩
  | cons op ops ih =>
    obtain ⟨t₁, hstep, h₁⟩ := h.step (hops op List.mem_cons_self)
    obtain ⟨t', hexec, h'⟩ := ih h₁ (fun x hx => hops x (List.mem_cons_of_mem op hx))
    exact ⟨t', exec_cons_eq_some.mpr ⟨t₁, hstep, hexec⟩, h'⟩

theorem Shows.apart (h : Shows key info t fs) : Apart key fs := by
  obtain ⟨es, base, hholds, hes, rfl⟩ := h.holds
  rw [Apart, List.pairwise_map]
  apply List.Pairwise.imp_of_mem _ hholds.rep.distinct
  intro e e' he he' hne
  rw [← (hes e he).2, ← (hes e' he').2]
  exact hne

/-- A table of the code holds the friends of a map from codes. -/
def ShowsMap (key : F → FriendKey) (info : A → F) (t : Friends A) (m : FriendCode → Option F) : Prop :=
  ∃ fs, Shows key info t fs ∧ atCode key fs = m

variable {m : FriendCode → Option F}

theorem showsMap_create (key : F → FriendKey) (info : A → F) (mem : Friends A) :
    ShowsMap key info (friendsCreate mem) (fun _ => none) := ⟨[], shows_create key info mem, rfl⟩

theorem ShowsMap.get (h : ShowsMap key info t m) {number : BitVec 32} (hmax : number ≠ uint32Max)
    (behind : Bytes) : ∃ t' found, friendsGet t number behind = some (t', found) ∧
      found.map info = m (FriendKey.code ⟨number, behind⟩) := by
  obtain ⟨fs, hshows, rfl⟩ := h
  obtain ⟨t', found, hget, hfound⟩ := hshows.get hmax behind
  exact ⟨t', found, hget, hfound.trans (findFriend_eq_atCode fs _)⟩

/-- `friends_put` and `friends_remove` update the map at the code of the friend number. -/
theorem ShowsMap.step (h : ShowsMap key info t m) (hop : CallFits key info op) :
    ∃ t', friendsStep t op = some t' ∧ ShowsMap key info t' (match op with
      | .put fi number userid =>
        Function.update m (FriendKey.code ⟨number, userid⟩) (some (info fi))
      | .remove number behind => Function.update m (FriendKey.code ⟨number, behind⟩) none) := by
  obtain ⟨fs, hshows, rfl⟩ := h
  obtain ⟨t', hstep, hshows'⟩ := hshows.step hop
  refine ⟨t', hstep, _, hshows', ?_⟩
  cases op with
  | put fi number userid =>
    rw [listStep, atCode_insertFriend, hop.own fi number userid rfl]
  | remove number behind => exact atCode_dropFriend fs _

/-- So does a write to the `FriendInfo` that `friends_get` handed out. -/
theorem ShowsMap.modify (h : ShowsMap key info t m) {number : BitVec 32} {behind : Bytes}
    {t' : Friends A} {a : A} (hget : friendsGet t number behind = some (t', some a)) {change : F → F}
    (hchange : ∀ f, key (change f) = key f) :
    ShowsMap key (Function.update info a (change (info a))) t
      (Function.update m (FriendKey.code ⟨number, behind⟩) (some (change (info a)))) := by
  obtain ⟨fs, hshows, rfl⟩ := h
  refine ⟨_, hshows.modify hget hchange, ?_⟩
  have hmax : number ≠ uint32Max := by
    rintro rfl
    cases hget
  obtain ⟨t₁, found, hget', hfound⟩ := hshows.get hmax behind
  rw [hget, Option.some_inj, Prod.mk.injEq] at hget'
  obtain ⟨-, rfl⟩ := hget'
  rw [atCode_modifyFriend fs _ hchange, ← findFriend_eq_atCode, ← hfound]
  rfl

end Real

end Carrier.Core
