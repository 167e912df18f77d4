import Carrier.Lib.Run
import Carrier.Persistence.Convert

/-! Two calls of `store_persistence_data` at once. No lock is taken, so their system calls
interleave freely; a descriptor stays with the inode it was opened on. -/
namespace Carrier.Persistence
open Carrier.Lib

inductive Caller where
  | first
  | second
  deriving DecidableEq

def Caller.other : Caller → Caller
  | .first => .second
  | .second => .first

/-- What the calls do to file contents: truncate them, and write each its own buffer. -/
structure FileOps (α : Type) where
  truncated : α
  write : Caller → α → α

/-- The directory by names of inodes; an inode is its position in the list. -/
structure Inodes (α : Type) where
  inodes : List α
  data : Option ℕ
  journal : Option ℕ
  deriving DecidableEq

/-- The next system call of one caller, with the inode of its descriptor. -/
inductive SavePc where
  | openJournal
  | writeJournal (fd : ℕ)
  | fsyncJournal
  | removeData
  | renameJournal
  | ret
  deriving DecidableEq

structure Saving (α : Type) where
  fs : Inodes α
  firstPc : SavePc
  secondPc : SavePc
  deriving DecidableEq

namespace Saving

variable {α β : Type}

def pc (s : Saving α) : Caller → SavePc
  | .first => s.firstPc
  | .second => s.secondPc

def setPc (s : Saving α) (i : Caller) (p : SavePc) : Saving α :=
  match i with
  | .first => { s with firstPc := p }
  | .second => { s with secondPc := p }

/-- `open` with `O_CREAT | O_TRUNC`: the inode of the journal if there is one, else a new one. -/
def openJournal (ops : FileOps α) (fs : Inodes α) : Inodes α × ℕ :=
  match fs.journal with
  | some n => ({ fs with inodes := fs.inodes.set n ops.truncated }, n)
  | none =>
    ({ fs with inodes := fs.inodes ++ [ops.truncated], journal := some fs.inodes.length },
      fs.inodes.length)

def renameJournal (fs : Inodes α) : Inodes α :=
  match fs.journal with
  | some n => { fs with data := some n, journal := none }
  | none => fs

/-- One system call of caller `i`. -/
def step (ops : FileOps α) (s : Saving α) (i : Caller) : Option (Saving α) :=
  match s.pc i with
  | .openJournal =>
    let (fs, fd) := openJournal ops s.fs
    some ({ s with fs := fs }.setPc i (.writeJournal fd))
  | .writeJournal fd =>
    some ({ s with fs := { s.fs with inodes := s.fs.inodes.modify fd (ops.write i) } }.setPc i
      .fsyncJournal)
  | .fsyncJournal => some (s.setPc i .removeData)
  | .removeData => some ({ s with fs := { s.fs with data := none } }.setPc i .renameJournal)
  | .renameJournal => some ({ s with fs := renameJournal s.fs }.setPc i .ret)
  | .ret => none

def start (fs : Inodes α) : Saving α := ⟨fs, .openJournal, .openJournal⟩

def Returned (s : Saving α) : Prop := ∀ i, s.pc i = .ret

end Saving

namespace Inodes

def file {α : Type} (fs : Inodes α) (name : Option ℕ) : Option α := name.bind (fs.inodes[·]?)

/-- The directory a later load finds. -/
def dir (fs : Inodes Bytes) : DataDir := ⟨fs.file fs.data, fs.file fs.journal, none, none⟩

/-- The directory before the calls, from the two files that may be there. -/
def ofFiles {α : Type} (data journal : Option α) : Inodes α :=
  match data, journal with
  | none, none => ⟨[], none, none⟩
  | some d, none => ⟨[d], some 0, none⟩
  | none, some j => ⟨[j], none, some 0⟩
  | some d, some j => ⟨[d, j], some 0, some 1⟩

end Inodes

/-- A write starts at offset 0 of the inode, whatever it holds by then. -/
def byteOps (buf : Caller → Bytes) : FileOps Bytes := ⟨[], fun i old => writeAt old 0 (buf i)⟩

/-- File contents as terms over the operations. -/
inductive Written where
  | stale (journal : Bool)
  | truncated
  | write (i : Caller) (old : Written)
  deriving DecidableEq

def termOps : FileOps Written := ⟨.truncated, .write⟩

namespace Saving

variable {α β : Type} {ops : FileOps α} {ops' : FileOps β} {f : α → β}

def map (f : α → β) (s : Saving α) : Saving β :=
  ⟨⟨s.fs.inodes.map f, s.fs.data, s.fs.journal⟩, s.firstPc, s.secondPc⟩

theorem pc_map (s : Saving α) (i : Caller) : (s.map f).pc i = s.pc i := by
  cases i <;> rfl

theorem map_setPc (s : Saving α) (i : Caller) (p : SavePc) :
    (s.setPc i p).map f = (s.map f).setPc i p := by
  cases i <;> rfl

/-- The calls only apply the operations, so a map that respects these respects the calls. -/
theorem step_map (ht : f ops.truncated = ops'.truncated)
    (hw : ∀ i x, f (ops.write i x) = ops'.write i (f x)) (s : Saving α) (i : Caller) :
    step ops' (s.map f) i = (step ops s i).map (map f) := by
  unfold step
  rw [pc_map]
  cases hp : s.pc i with
  | openJournal =>
    simp only [Option.map_some, map_setPc]
    cases hj : s.fs.journal <;> simp [openJournal, map, hj, ht]
  | writeJournal fd =>
    have hmod : (s.fs.inodes.map f).modify fd (ops'.write i) =
        (s.fs.inodes.modify fd (ops.write i)).map f := by
      refine List.ext_getElem? (fun n => ?_)
      simp only [List.getElem?_modify, List.getElem?_map]
      cases s.fs.inodes[n]? with
      | none => rfl
      | some x => by_cases hn : fd = n <;> simp [hn, hw]
    simp only [Option.map_some, map_setPc]
    simp [map, hmod]
  | fsyncJournal => simp only [Option.map_some, map_setPc]
  | removeData =>
    simp only [Option.map_some, map_setPc]
    rfl
  | renameJournal =>
    simp only [Option.map_some, map_setPc]
    cases hj : s.fs.journal <;> simp [renameJournal, map, hj]
  | ret => rfl

def progress : SavePc → ℕ
  | .openJournal => 0
  | .writeJournal _ => 1
  | .fsyncJournal => 2
  | .removeData => 3
  | .renameJournal => 4
  | .ret => 5

theorem progress_step {s s' : Saving α} {i : Caller} (h : step ops s i = some s') (j : Caller) :
    progress (s'.pc j) = progress (s.pc j) + if i = j then 1 else 0 := by
  unfold step at h
  split at h <;> simp only [Option.some.injEq, reduceCtorEq] at h <;> subst h <;>
    cases i <;> cases j <;> simp_all [setPc, pc, progress]

theorem progress_exec {s s' : Saving α} {l : List Caller} (h : exec (step ops) s l = some s')
    (j : Caller) : progress (s'.pc j) = progress (s.pc j) + l.count j := by
  induction l generalizing s with
  | nil =>
    cases h
    rfl
  | cons i l ih =>
    obtain ⟨m, hm, hrest⟩ := exec_cons_eq_some.mp h
    rw [ih hrest, progress_step hm, List.count_cons, beq_eq_decide]
    simp only [decide_eq_true_eq]
    omega

/-- A schedule on which both calls return has five calls of each. -/
theorem count_of_returned {fs : Inodes α} {s : Saving α} {l : List Caller}
    (h : exec (step ops) (start fs) l = some s) (hret : s.Returned) (j : Caller) :
    l.count j = 5 := by
  have := progress_exec h j
  rw [hret j] at this
  cases j <;> simpa [start, pc, progress] using this.symm

theorem progress_eq_five {p : SavePc} (h : progress p = 5) : p = .ret := by
  cases p <;> first | rfl | cases h

/-- Nothing blocks: with five calls of each both return. -/
theorem exec_returned {s : Saving α} {l : List Caller}
    (h : ∀ j, progress (s.pc j) + l.count j = 5) :
    ∃ s', exec (step ops) s l = some s' ∧ s'.Returned := by
  induction l generalizing s with
  | nil => exact ⟨s, rfl, fun j => progress_eq_five (by simpa using h j)⟩
  | cons i l ih =>
    have hi := h i
    rw [List.count_cons_self] at hi
    obtain ⟨m, hm⟩ : ∃ m, step ops s i = some m := by
      unfold step
      cases hp : s.pc i with
      | ret =>
        rw [hp] at hi
        simp only [progress] at hi
        omega
      | _ => exact ⟨_, rfl⟩
    obtain ⟨s', hs', hret⟩ := ih (s := m) (fun j => by
      have hj := h j
      rw [List.count_cons, beq_eq_decide] at hj
      rw [progress_step hm]
      simp only [decide_eq_true_eq] at hj
      omega)
    exact ⟨s', exec_cons_eq_some.mpr ⟨m, hm, hs'⟩, hret⟩

end Saving

/-- When caller `i` makes its `k`-th system call in a schedule: 0 opens the journal, 1 writes
it, 2 syncs it, 3 removes the data file and 4 renames. -/
def timeOf : List Caller → Caller → ℕ → ℕ
  | [], _, _ => 0
  | j :: l, i, k =>
    if j = i then
      match k with
      | 0 => 0
      | k + 1 => timeOf l i k + 1
    else timeOf l i k + 1

def firstOpener (l : List Caller) : Caller :=
  if timeOf l .first 0 < timeOf l .second 0 then .first else .second

def lastWriter (l : List Caller) : Caller :=
  if timeOf l .first 1 < timeOf l .second 1 then .second else .first

/-- The second call opens the journal after the first one is through. -/
def Serial (l : List Caller) : Prop :=
  timeOf l (firstOpener l) 4 < timeOf l (firstOpener l).other 0

/-- Neither call removes a data file the other has already renamed. -/
def RemovesFirst (l : List Caller) : Prop :=
  timeOf l .first 3 < timeOf l .second 4 ∧ timeOf l .second 3 < timeOf l .first 4

/-- The second `open` truncates what the first call wrote. -/
def TruncatesWritten (l : List Caller) : Prop :=
  timeOf l (firstOpener l) 1 < timeOf l (firstOpener l).other 0

instance (l : List Caller) : Decidable (Serial l) := inferInstanceAs (Decidable (_ < _))
instance (l : List Caller) : Decidable (RemovesFirst l) := inferInstanceAs (Decidable (_ ∧ _))
instance (l : List Caller) : Decidable (TruncatesWritten l) := inferInstanceAs (Decidable (_ < _))

/-- What the data file holds once both calls have returned. -/
def finalData (l : List Caller) : Option Written :=
  if Serial l ∨ RemovesFirst l ∧ TruncatesWritten l then some (.write (lastWriter l) .truncated)
  else if RemovesFirst l then some (.write (lastWriter l) (.write (lastWriter l).other .truncated))
  else none

def termFiles (data journal : Bool) : Inodes Written :=
  .ofFiles (if data then some (.stale false) else none) (if journal then some (.stale true) else none)

/-- All 252 orders, with and without files at the start. -/
theorem termOps_outcome : ∀ data journal, ∀ l ∈ schedules Caller.first Caller.second 10,
    l.count .first = 5 → l.count .second = 5 →
    (exec (Saving.step termOps) (.start (termFiles data journal)) l).map
      (fun s => (s.fs.file s.fs.data, s.fs.file s.fs.journal)) = some (finalData l, none) := by
  decide +kernel

/-- The bytes such a term stands for. -/
def Written.bytes (buf : Caller → Bytes) (data journal : Option Bytes) : Written → Bytes
  | .stale false => data.getD []
  | .stale true => journal.getD []
  | .truncated => []
  | .write i old => writeAt (old.bytes buf data journal) 0 (buf i)

theorem length_eq_count (l : List Caller) : l.length = l.count .first + l.count .second := by
  induction l with
  | nil => rfl
  | cons i l ih => cases i <;> simp [ih] <;> omega

theorem Saving.file_map {α β : Type} (f : α → β) (s : Saving α) (n : Option ℕ) :
    (s.map f).fs.file n = (s.fs.file n).map f := by
  cases n <;> simp [Saving.map, Inodes.file]

/-- The directory both calls leave: no journal, and the data file by the order of their steps. -/
theorem Saving.dir_of_returned {buf : Caller → Bytes} {data journal : Option Bytes}
    {l : List Caller} {s : Saving Bytes}
    (h : exec (step (byteOps buf)) (start (.ofFiles data journal)) l = some s)
    (hret : s.Returned) :
    s.fs.dir = ⟨(finalData l).map (Written.bytes buf data journal), none, none, none⟩ := by
  have hfirst := count_of_returned h hret .first
  have hsecond := count_of_returned h hret .second
  have hmem := mem_schedules (a := Caller.first) (b := Caller.second) (l := l)
    (fun x _ => by cases x <;> simp)
  rw [length_eq_count, hfirst, hsecond] at hmem
  have hout := termOps_outcome data.isSome journal.isSome l hmem hfirst hsecond
  have hstart : (start (termFiles data.isSome journal.isSome)).map
      (Written.bytes buf data journal) = start (.ofFiles data journal) := by
    cases data <;> cases journal <;> rfl
  have hstep : ∀ s i, step (byteOps buf) (s.map (Written.bytes buf data journal)) i =
      (step termOps s i).map (map (Written.bytes buf data journal)) :=
    step_map rfl (fun _ _ => rfl)
  have hmap := exec_map hstep (start (termFiles data.isSome journal.isSome)) l
  rw [hstart, h] at hmap
  obtain ⟨s₀, hs₀, rfl⟩ := Option.map_eq_some_iff.mp hmap.symm
  rw [hs₀, Option.map_some, Option.some.injEq, Prod.mk.injEq] at hout
  rw [Inodes.dir, file_map, file_map]
  exact congrArg₂ (fun a b => DataDir.mk a b none none) (congrArg (Option.map _) hout.1)
    (congrArg (Option.map _) hout.2)

theorem loadPersistenceData_data (sha : Sha256) (o : ByteOrder) (data : Option Bytes) :
    loadPersistenceData sha o ⟨data, none, none, none⟩ =
      some (data.bind (loadPersistenceDataI sha), ⟨data, none, none, none⟩) := by
  cases data <;> rfl

/-- A save written over a longer one keeps the tail of the longer one and cannot be loaded. -/
theorem loadPersistenceDataI_overwritten (sha : Sha256) (c : Contents) {old : Bytes}
    (h : (c.image sha).length < old.length) :
    loadPersistenceDataI sha (writeAt old 0 (c.image sha)) = none := by
  rw [writeAt, List.take_zero, List.nil_append, Nat.zero_add]
  refine loadPersistenceDataI_append sha c (fun hnil => ?_)
  have := List.drop_eq_nil_iff.mp hnil
  omega

theorem writeAt_zero_of_le {old src : Bytes} (h : old.length ≤ src.length) :
    writeAt old 0 src = src := by
  rw [writeAt, List.take_zero, List.nil_append, Nat.zero_add, List.drop_eq_nil_iff.mpr h,
    List.append_nil]

/-- The calls are through one after the other, or both remove the old data file before either
renames and the buffer written last replaces all of the other one. -/
def PublishesOne (bufLen : Caller → ℕ) (l : List Caller) : Prop :=
  Serial l ∨ RemovesFirst l ∧
    (TruncatesWritten l ∨ bufLen (lastWriter l).other ≤ bufLen (lastWriter l))

instance (bufLen : Caller → ℕ) (l : List Caller) : Decidable (PublishesOne bufLen l) :=
  inferInstanceAs (Decidable (_ ∨ _))

/-- The data file is the whole save of the last writer, or the next load fails. -/
theorem finalData_load (sha : Sha256) (c : Caller → Contents) (data journal : Option Bytes)
    (l : List Caller) :
    (((finalData l).map (Written.bytes (fun i => (c i).image sha) data journal)).bind
        (loadPersistenceDataI sha) =
      if (c (lastWriter l)).Bounded ∧ PublishesOne (fun i => ((c i).image sha).length) l then
        some (c (lastWriter l)).view
      else none) := by
  have hone : ∀ old : Bytes, old.length ≤ ((c (lastWriter l)).image sha).length →
      loadPersistenceDataI sha (writeAt old 0 ((c (lastWriter l)).image sha)) =
        if (c (lastWriter l)).Bounded then some (c (lastWriter l)).view else none := by
    intro old hold
    rw [writeAt_zero_of_le hold]
    split_ifs with hb
    · exact loadPersistenceDataI_image sha hb
    · exact loadPersistenceDataI_image_unbounded sha hb
  unfold finalData
  by_cases hclean : Serial l ∨ RemovesFirst l ∧ TruncatesWritten l
  · have hpub : PublishesOne (fun i => ((c i).image sha).length) l :=
      hclean.imp id (fun ⟨hr, ht⟩ => ⟨hr, .inl ht⟩)
    rw [if_pos hclean]
    simpa [Written.bytes, hpub] using hone [] (Nat.zero_le _)
  · obtain ⟨hs, hrt⟩ := not_or.mp hclean
    rw [if_neg hclean]
    by_cases hr : RemovesFirst l
    · have ht : ¬TruncatesWritten l := fun ht => hrt ⟨hr, ht⟩
      have hfresh : writeAt [] 0 ((c (lastWriter l).other).image sha) =
          (c (lastWriter l).other).image sha := writeAt_zero_of_le (Nat.zero_le _)
      rw [if_pos hr]
      by_cases hle : ((c (lastWriter l).other).image sha).length ≤
          ((c (lastWriter l)).image sha).length
      · have hpub : PublishesOne (fun i => ((c i).image sha).length) l := .inr ⟨hr, .inr hle⟩
        simpa [Written.bytes, hpub, hfresh] using hone _ hle
      · have hpub : ¬PublishesOne (fun i => ((c i).image sha).length) l := by
          simp [PublishesOne, hs, ht, hle]
        simpa [Written.bytes, hpub, hfresh] using
          loadPersistenceDataI_overwritten sha _ (not_le.mp hle)
    · have hpub : ¬PublishesOne (fun i => ((c i).image sha).length) l := by
        simp [PublishesOne, hs, hr]
      simp [hr, hpub]

/-- Exactly when two concurrent saves leave one of them to be loaded. -/
theorem concurrent_stores_load_iff (sha : Sha256) (o : ByteOrder) (dht : Caller → Bytes)
    (t : Caller → Friends) (data journal : Option Bytes) {l : List Caller} {s : Saving Bytes}
    (h : exec (Saving.step (byteOps (fun i => storeImage sha (dht i) (t i))))
      (.start (.ofFiles data journal)) l = some s) (hret : s.Returned) :
    (∃ i d, loadPersistenceData sha o s.fs.dir =
      some (some (contentsOf (dht i) (t i)).view, d)) ↔
    (contentsOf (dht (lastWriter l)) (t (lastWriter l))).Bounded ∧
      PublishesOne (fun i => (storeImage sha (dht i) (t i)).length) l := by
  simp only [storeImage_eq] at h ⊢
  rw [Saving.dir_of_returned h hret, loadPersistenceData_data,
    finalData_load sha (fun i => contentsOf (dht i) (t i)) data journal l]
  constructor
  · rintro ⟨i, d, hload⟩
    by_contra hnot
    rw [if_neg hnot] at hload
    cases hload
  · intro hgood
    rw [if_pos hgood]
    exact ⟨lastWriter l, _, rfl⟩

def twoDhts : Caller → Bytes
  | .first => [1, 0, 2]
  | .second => [1, 0, 2, 3]

def serialSchedule : List Caller :=
  [.first, .first, .first, .first, .first, .second, .second, .second, .second, .second]

theorem concurrent_stores_load_serial :
    ∃ s, exec (Saving.step (byteOps (fun i => storeImage sodiumSha256 (twoDhts i)
        (twoFriends [] (by decide) (by decide)))))
        (.start (.ofFiles none none)) serialSchedule = some s ∧ s.Returned ∧
      ∃ i d, loadPersistenceData sodiumSha256 .little s.fs.dir =
        some (some (contentsOf (twoDhts i) (twoFriends [] (by decide) (by decide))).view, d) := by
  obtain ⟨s, hs, hret⟩ := Saving.exec_returned (s := Saving.start (.ofFiles none none))
    (l := serialSchedule) (fun j => by cases j <;> rfl)
  exact ⟨s, hs, hret, (concurrent_stores_load_iff sodiumSha256 .little twoDhts _ none none hs
    hret).mpr ⟨by decide, .inl (by decide)⟩⟩

/-- The second call opens the journal just before the first one renames it. -/
def lostSchedule : List Caller :=
  [.first, .first, .first, .first, .second, .first, .second, .second, .second, .second]

theorem concurrent_stores_lose_data :
    ∃ s, exec (Saving.step (byteOps (fun i => storeImage sodiumSha256 (twoDhts i)
        (twoFriends [] (by decide) (by decide)))))
        (.start (.ofFiles none none)) lostSchedule = some s ∧ s.Returned ∧
      ¬∃ i d, loadPersistenceData sodiumSha256 .little s.fs.dir =
        some (some (contentsOf (twoDhts i) (twoFriends [] (by decide) (by decide))).view, d) := by
  obtain ⟨s, hs, hret⟩ := Saving.exec_returned (s := Saving.start (.ofFiles none none))
    (l := lostSchedule) (fun j => by cases j <;> rfl)
  refine ⟨s, hs, hret, ?_⟩
  rintro ⟨i, d, hload⟩
  rw [Saving.dir_of_returned hs hret, loadPersistenceData_data, show finalData lostSchedule = none by decide] at hload
  cases hload

end Carrier.Persistence
