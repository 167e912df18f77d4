import Carrier.Lib.Run
import Carrier.Persistence.Convert

/-! Saves and loads step by step over the data directory, with crashes between any two steps,
against a history that says which save a load may hand out. -/
namespace Carrier.Persistence
open Carrier.Lib

/-- What an observer sees of the two functions. -/
inductive Event where
  | started (c : Contents)
  | completed
  | failed
  | crashed
  | loaded (r : Option PersistenceData)

/-- Saves that have ended, in order, the one that is running, and by index the last completed
one, the ones a crash interrupted and the last one a load handed out. -/
structure History where
  ended : List Contents
  running : Option Contents
  completed : Option ℕ
  interrupted : List ℕ
  returned : Option ℕ

namespace History

def initial : History := ⟨[], none, none, [], none⟩

/-- A load may hand out the last completed save or one interrupted after it, and nothing older
than what was handed out before. -/
def Current (h : History) (i : ℕ) : Prop :=
  (h.completed = some i ∨ i ∈ h.interrupted ∧ ∀ j ∈ h.completed, j < i) ∧ ∀ j ∈ h.returned, j ≤ i

def start (h : History) (c : Contents) : History := { h with running := some c }

def fail (h : History) (c : Contents) : History :=
  { h with ended := h.ended ++ [c], running := none }

def complete (h : History) (c : Contents) : History :=
  { h.fail c with completed := some h.ended.length }

def interrupt (h : History) (c : Contents) : History :=
  { h.fail c with interrupted := h.ended.length :: h.interrupted }

def handOut (h : History) (i : ℕ) : History := { h with returned := some i }

inductive Step : History → Event → History → Prop where
  | started {h : History} (c : Contents) (hr : h.running = none) : Step h (.started c) (h.start c)
  | completed {h : History} {c : Contents} (hr : h.running = some c) :
      Step h .completed (h.complete c)
  | failed {h : History} {c : Contents} (hr : h.running = some c) : Step h .failed (h.fail c)
  | crashed {h : History} (hr : h.running = none) : Step h .crashed h
  | interrupted {h : History} {c : Contents} (hr : h.running = some c) :
      Step h .crashed (h.interrupt c)
  | nothing {h : History} (hc : h.completed = none) (hr : h.returned = none) :
      Step h (.loaded none) h
  | loaded {h : History} {i : ℕ} {c : Contents} (hi : h.ended[i]? = some c) (hc : h.Current i) :
      Step h (.loaded (some c.view)) (h.handOut i)

/-- Histories that explain a trace. -/
inductive Explains : List Event → History → Prop where
  | nil : Explains [] initial
  | snoc {tr : List Event} {e : Event} {h h' : History} (ht : Explains tr h) (hs : Step h e h') :
      Explains (tr ++ [e]) h'

end History

/-- Where `store_persistence_data` is: before the system call of that name. -/
inductive StorePc where
  | openJournal
  | writeJournal
  | fsyncJournal
  | removeJournal
  | removeData
  | renameJournal
  | ret

/-- Where `load_persistence_data` is. -/
inductive LoadPc where
  | journal
  | data
  | removeData (pd : PersistenceData)
  | renameJournal (pd : PersistenceData)
  | ret (r : Option PersistenceData)

inductive Proc where
  | down
  | up
  | storing (buf : Bytes) (pc : StorePc)
  | loading (pc : LoadPc)

structure World where
  dir : DataDir
  proc : Proc
  trace : List Event

/-- `fail k` lets the pending system call of a save fail, a write after `k` bytes; of a write
that was not synced a crash leaves the first `k` bytes. -/
inductive Act where
  | load
  | store (dht : Bytes) (t : Friends)
  | step
  | fail (k : ℕ)
  | crash (k : ℕ)

namespace World

def initial : World := ⟨⟨none, none, none, none⟩, .down, []⟩

def emit (w : World) (e : Event) : World := { w with trace := w.trace ++ [e] }

def withJournal (w : World) (f : Option Bytes) : World :=
  { w with dir := { w.dir with journal := f } }

def goto (w : World) (p : Proc) : World := { w with proc := p }

/-- The next system call of `store_persistence_data` succeeds. -/
def stepStore (w : World) (buf : Bytes) : StorePc → World
  | .openJournal => (w.withJournal (some [])).goto (.storing buf .writeJournal)
  | .writeJournal => (w.withJournal (some buf)).goto (.storing buf .fsyncJournal)
  | .fsyncJournal => w.goto (.storing buf .removeData)
  | .removeJournal => ((w.withJournal none).goto .up).emit .failed
  | .removeData => { w with dir := w.dir.removeData, proc := .storing buf .renameJournal }
  | .renameJournal => { w with dir := w.dir.renameJournal, proc := .storing buf .ret }
  | .ret => (w.goto .up).emit .completed

/-- The next system call of `load_persistence_data`. Old files would start the conversion,
which is not a step here. -/
def stepLoad (sha : Sha256) (w : World) : LoadPc → Option World
  | .journal =>
    match w.dir.journal.bind (loadPersistenceDataI sha) with
    | some pd => some (w.goto (.loading (.removeData pd)))
    | none => some (w.goto (.loading .data))
  | .data =>
    if w.dir.data.isSome then some (w.goto (.loading (.ret (loadFromData sha w.dir))))
    else if w.dir.dhtdata.isNone then some (w.goto (.loading (.ret none)))
    else none
  | .removeData pd => some { w with dir := w.dir.removeData, proc := .loading (.renameJournal pd) }
  | .renameJournal pd =>
    some { w with dir := w.dir.renameJournal, proc := .loading (.ret (some pd)) }
  | .ret r => some ((w.goto .up).emit (.loaded r))

def failStore (w : World) (buf : Bytes) (k : ℕ) : StorePc → Option World
  | .openJournal => some ((w.goto .up).emit .failed)
  | .writeJournal =>
    if k < buf.length then
      some ((w.withJournal (some (buf.take k))).goto (.storing buf .removeJournal))
    else none
  | .fsyncJournal => some (w.goto (.storing buf .removeJournal))
  | _ => none

def crashStore (w : World) (buf : Bytes) (k : ℕ) : StorePc → World
  | .writeJournal => w.withJournal (some (buf.take k))
  | .fsyncJournal => w.withJournal (some (buf.take k))
  | .removeJournal => w.withJournal (some (buf.take k))
  | _ => w

/-- One action; `none` where it is not possible. A process that is down starts with a load. -/
def step (sha : Sha256) (w : World) (a : Act) : Option World :=
  match a, w.proc with
  | .load, .down => some (w.goto (.loading .journal))
  | .load, .up => some (w.goto (.loading .journal))
  | .store dht t, .up =>
    some ((w.goto (.storing (storeImage sha dht t) .openJournal)).emit
      (.started (contentsOf dht t)))
  | .step, .storing buf pc => some (w.stepStore buf pc)
  | .step, .loading pc => w.stepLoad sha pc
  | .fail k, .storing buf pc => w.failStore buf k pc
  | .crash _, .up => some ((w.goto .down).emit .crashed)
  | .crash k, .storing buf pc => some (((w.crashStore buf k pc).goto .down).emit .crashed)
  | .crash _, .loading _ => some ((w.goto .down).emit .crashed)
  | _, _ => none

end World

namespace History

/-- Indices in a history are those of saves that have ended. -/
structure Valid (h : History) : Prop where
  completed_lt : ∀ j ∈ h.completed, j < h.ended.length
  returned_lt : ∀ j ∈ h.returned, j < h.ended.length

variable (sha : Sha256)

/-- The file is a whole save that may be handed out. -/
def Saved (h : History) (file : Option Bytes) (c : Contents) : Prop :=
  c.Bounded ∧ file = some (c.image sha) ∧ ∃ i, h.ended[i]? = some c ∧ h.Current i

/-- Nothing has to be handed out. -/
def Fresh (h : History) : Prop := h.completed = none ∧ h.returned = none

def DataSafe (h : History) (d : DataDir) : Prop :=
  (∃ c, h.Saved sha d.data c) ∨ d.data = none ∧ h.Fresh

def JournalBad (d : DataDir) : Prop := d.journal.bind (loadPersistenceDataI sha) = none

/-- What a load has to find when it starts. -/
def Safe (h : History) (d : DataDir) : Prop :=
  (∃ c, h.Saved sha d.journal c) ∨ JournalBad sha d ∧ h.DataSafe sha d

/-- What holds before each step of a save of `c`. -/
def StoreInv (h : History) (d : DataDir) (c : Contents) : StorePc → Prop
  | .openJournal => JournalBad sha d ∧ h.DataSafe sha d
  | .writeJournal => h.DataSafe sha d
  | .fsyncJournal => d.journal = some (c.image sha) ∧ h.DataSafe sha d
  | .removeJournal => h.DataSafe sha d
  | .removeData => d.journal = some (c.image sha)
  | .renameJournal => d.journal = some (c.image sha)
  | .ret => d.journal = none ∧ d.data = some (c.image sha)

/-- What holds before each step of a load. -/
def LoadInv (h : History) (d : DataDir) : LoadPc → Prop
  | .journal => h.Safe sha d
  | .data => JournalBad sha d ∧ h.DataSafe sha d
  | .removeData pd => ∃ c, pd = c.view ∧ h.Saved sha d.journal c
  | .renameJournal pd => ∃ c, pd = c.view ∧ h.Saved sha d.journal c
  | .ret none => JournalBad sha d ∧ d.data = none ∧ h.Fresh
  | .ret (some pd) => JournalBad sha d ∧ ∃ c, pd = c.view ∧ h.Saved sha d.data c

def ProcInv (h : History) (d : DataDir) : Proc → Prop
  | .down => h.running = none ∧ h.Safe sha d
  | .up => h.running = none ∧ JournalBad sha d ∧ h.DataSafe sha d
  | .storing buf pc =>
    ∃ c, h.running = some c ∧ c.Bounded ∧ buf = c.image sha ∧ h.StoreInv sha d c pc
  | .loading pc => h.running = none ∧ h.LoadInv sha d pc

/-- A history explains what was seen so far, and the files agree with it. -/
structure Explained (w : World) (h : History) : Prop where
  explains : Explains w.trace h
  valid : h.Valid
  noOldFiles : w.dir.dhtdata = none
  procInv : h.ProcInv sha w.dir w.proc

variable {sha}

theorem valid_fail {h : History} (hv : h.Valid) (c : Contents) : (h.fail c).Valid := by
  obtain ⟨hc, hr⟩ := hv
  constructor <;> intro j hj
  · have := hc j hj
    simp only [fail, List.length_append, List.length_singleton]
    omega
  · have := hr j hj
    simp only [fail, List.length_append, List.length_singleton]
    omega

/-- A file stays a save to hand out while no save completes and no load returns. -/
theorem Saved.mono {h h' : History} {file : Option Bytes} {c : Contents} (hs : h.Saved sha file c)
    (he : h.ended <+: h'.ended) (hi : h.interrupted ⊆ h'.interrupted)
    (hc : h'.completed = h.completed) (hr : h'.returned = h.returned) : h'.Saved sha file c := by
  obtain ⟨hb, hf, i, hget, hcur, hret⟩ := hs
  refine ⟨hb, hf, i, ?_, ?_, by rwa [hr]⟩
  · obtain ⟨rest, hrest⟩ := he
    rw [← hrest, List.getElem?_append_left (List.getElem?_eq_some_iff.mp hget).1, hget]
  · rw [hc]
    exact hcur.imp id (fun ⟨hmem, hlt⟩ => ⟨hi hmem, hlt⟩)

theorem DataSafe.mono {h h' : History} {d : DataDir} (hs : h.DataSafe sha d)
    (he : h.ended <+: h'.ended) (hi : h.interrupted ⊆ h'.interrupted)
    (hc : h'.completed = h.completed) (hr : h'.returned = h.returned) : h'.DataSafe sha d := by
  obtain ⟨c, hsaved⟩ | ⟨hnone, hfresh⟩ := hs
  · exact .inl ⟨c, hsaved.mono he hi hc hr⟩
  · exact .inr ⟨hnone, by rw [Fresh, hc, hr]; exact hfresh⟩

theorem DataSafe.fail {h : History} {d : DataDir} (hs : h.DataSafe sha d) (c : Contents) :
    (h.fail c).DataSafe sha d :=
  hs.mono (List.prefix_append _ _) (List.Subset.refl _) rfl rfl

theorem DataSafe.interrupt {h : History} {d : DataDir} (hs : h.DataSafe sha d) (c : Contents) :
    (h.interrupt c).DataSafe sha d :=
  hs.mono (List.prefix_append _ _) (List.subset_cons_self _ _) rfl rfl

/-- The file of a save that was interrupted may be handed out from then on. -/
theorem saved_interrupt {h : History} (hv : h.Valid) {c : Contents} (hb : c.Bounded) :
    (h.interrupt c).Saved sha (some (c.image sha)) c := by
  refine ⟨hb, rfl, h.ended.length, ?_, .inr ⟨List.mem_cons_self, hv.completed_lt⟩,
    fun j hj => (hv.returned_lt j hj).le⟩
  simp [interrupt, fail]

theorem saved_complete {h : History} (hv : h.Valid) {c : Contents} (hb : c.Bounded) :
    (h.complete c).Saved sha (some (c.image sha)) c := by
  refine ⟨hb, rfl, h.ended.length, ?_, .inl rfl, fun j hj => (hv.returned_lt j hj).le⟩
  simp [complete, fail]

/-- Whatever an interrupted write left in the journal, the next load finds what it needs. -/
theorem safe_interrupt_write {h : History} {d : DataDir} (hv : h.Valid) {c : Contents}
    (hb : c.Bounded) (hs : h.DataSafe sha d) (k : ℕ) :
    (h.interrupt c).Safe sha { d with journal := some ((c.image sha).take k) } := by
  by_cases hfull : (c.image sha).take k = c.image sha
  · rw [hfull]
    exact .inl ⟨c, saved_interrupt hv hb⟩
  · exact .inr ⟨loadPersistenceDataI_of_isPrefix sha hb (List.take_prefix _ _) hfull,
      (hs.interrupt c : (h.interrupt c).DataSafe sha d)⟩

theorem Saved.load {h : History} {file : Option Bytes} {c : Contents} (hs : h.Saved sha file c) :
    file.bind (loadPersistenceDataI sha) = some c.view := by
  rw [hs.2.1, Option.bind_some, loadPersistenceDataI_image sha hs.1]

namespace Explained

variable {w : World} {h : History}

theorem silent (hw : Explained sha w h) {d : DataDir} {p : Proc} (hd : d.dhtdata = none)
    (hp : h.ProcInv sha d p) : Explained sha ⟨d, p, w.trace⟩ h :=
  ⟨hw.explains, hw.valid, hd, hp⟩

theorem observe (hw : Explained sha w h) {d : DataDir} {p : Proc} {e : Event} {h' : History}
    (hs : Step h e h') (hv : h'.Valid) (hd : d.dhtdata = none) (hp : h'.ProcInv sha d p) :
    Explained sha ⟨d, p, w.trace ++ [e]⟩ h' :=
  ⟨.snoc hw.explains hs, hv, hd, hp⟩

theorem stepStore (hw : Explained sha w h) {buf : Bytes} {pc : StorePc}
    (hp : w.proc = .storing buf pc) : ∃ h', Explained sha (w.stepStore buf pc) h' := by
  have hinv := hw.procInv
  rw [hp] at hinv
  obtain ⟨c, hrun, hb, rfl, hpc⟩ := hinv
  have hold := hw.noOldFiles
  cases pc with
  | openJournal => exact ⟨h, hw.silent hold ⟨c, hrun, hb, rfl, hpc.2⟩⟩
  | writeJournal => exact ⟨h, hw.silent hold ⟨c, hrun, hb, rfl, rfl, hpc⟩⟩
  | fsyncJournal => exact ⟨h, hw.silent hold ⟨c, hrun, hb, rfl, hpc.1⟩⟩
  | removeJournal =>
    exact ⟨h.fail c, hw.observe (.failed hrun) (valid_fail hw.valid c) hold
      ⟨rfl, rfl, hpc.fail c⟩⟩
  | removeData => exact ⟨h, hw.silent hold ⟨c, hrun, hb, rfl, hpc⟩⟩
  | renameJournal =>
    have hj : w.dir.journal = some (c.image sha) := hpc
    refine ⟨h, hw.silent ?_ ⟨c, hrun, hb, rfl, ?_⟩⟩ <;> simp [DataDir.renameJournal, hj, hold, StoreInv]
  | ret =>
    obtain ⟨hj, hd⟩ := hpc
    refine ⟨h.complete c, hw.observe (.completed hrun) ⟨?_, ?_⟩ hold ⟨rfl, ?_, .inl ⟨c, ?_⟩⟩⟩
    · rintro j ⟨⟩
      simp [complete, fail]
    · exact (valid_fail hw.valid c).returned_lt
    · simp [JournalBad, World.goto, hj]
    · simpa only [World.goto, hd] using saved_complete hw.valid hb

theorem stepLoad (hw : Explained sha w h) {pc : LoadPc} (hp : w.proc = .loading pc) {w' : World}
    (hstep : w.stepLoad sha pc = some w') : ∃ h', Explained sha w' h' := by
  have hinv := hw.procInv
  rw [hp] at hinv
  obtain ⟨hrun, hpc⟩ := hinv
  have hold := hw.noOldFiles
  cases pc with
  | journal =>
    obtain ⟨c, hsaved⟩ | ⟨hbad, hdata⟩ := hpc
    · simp only [World.stepLoad, hsaved.load] at hstep
      cases hstep
      exact ⟨h, hw.silent hold ⟨hrun, c, rfl, hsaved⟩⟩
    · rw [JournalBad] at hbad
      simp only [World.stepLoad, hbad] at hstep
      cases hstep
      exact ⟨h, hw.silent hold ⟨hrun, hbad, hdata⟩⟩
  | data =>
    obtain ⟨hbad, ⟨c, hsaved⟩ | ⟨hnone, hfresh⟩⟩ := hpc
    · have hload : loadFromData sha w.dir = some c.view := hsaved.load
      simp only [World.stepLoad, hsaved.2.1, Option.isSome_some, if_true, hload] at hstep
      cases hstep
      exact ⟨h, hw.silent hold ⟨hrun, hbad, c, rfl, hsaved⟩⟩
    · simp only [World.stepLoad, hnone, hold, Option.isSome_none, Bool.false_eq_true, if_false,
        Option.isNone_none, if_true] at hstep
      cases hstep
      exact ⟨h, hw.silent hold ⟨hrun, hbad, hnone, hfresh⟩⟩
  | removeData pd =>
    cases hstep
    exact ⟨h, hw.silent hold ⟨hrun, hpc⟩⟩
  | renameJournal pd =>
    cases hstep
    obtain ⟨c, hpd, hsaved⟩ := hpc
    have hj := hsaved.2.1
    refine ⟨h, hw.silent ?_ ⟨hrun, ?_, c, hpd, ?_⟩⟩
    · simp [DataDir.renameJournal, hj, hold]
    · simp [DataDir.renameJournal, JournalBad, hj]
    · simpa only [DataDir.renameJournal, hj] using hsaved
  | ret r =>
    cases hstep
    cases r with
    | none =>
      obtain ⟨hbad, hnone, hfresh⟩ := hpc
      exact ⟨h, hw.observe (.nothing hfresh.1 hfresh.2) hw.valid hold
        ⟨hrun, hbad, .inr ⟨hnone, hfresh⟩⟩⟩
    | some pd =>
      obtain ⟨hbad, c, rfl, hb, hf, i, hget, hcur⟩ := hpc
      have hlt := (List.getElem?_eq_some_iff.mp hget).1
      refine ⟨h.handOut i, hw.observe (.loaded hget hcur) ⟨hw.valid.completed_lt, ?_⟩ hold
        ⟨hrun, hbad, .inl ⟨c, hb, hf, i, hget, hcur.1, ?_⟩⟩⟩
      · rintro j ⟨⟩
        exact hlt
      · rintro j ⟨⟩
        exact le_refl i

theorem failStore (hw : Explained sha w h) {buf : Bytes} {pc : StorePc} {k : ℕ}
    (hp : w.proc = .storing buf pc) {w' : World} (hstep : w.failStore buf k pc = some w') :
    ∃ h', Explained sha w' h' := by
  have hinv := hw.procInv
  rw [hp] at hinv
  obtain ⟨c, hrun, hb, rfl, hpc⟩ := hinv
  have hold := hw.noOldFiles
  cases pc with
  | openJournal =>
    cases hstep
    exact ⟨h.fail c, hw.observe (.failed hrun) (valid_fail hw.valid c) hold
      ⟨rfl, hpc.1, hpc.2.fail c⟩⟩
  | writeJournal =>
    simp only [World.failStore] at hstep
    split_ifs at hstep
    cases hstep
    exact ⟨h, hw.silent hold ⟨c, hrun, hb, rfl, hpc⟩⟩
  | fsyncJournal =>
    cases hstep
    exact ⟨h, hw.silent hold ⟨c, hrun, hb, rfl, hpc.2⟩⟩
  | removeJournal => cases hstep
  | removeData => cases hstep
  | renameJournal => cases hstep
  | ret => cases hstep

/-- A crash during a save: the old data file is still there, or the new journal is whole, or the
new data file is in place. -/
theorem crashStore (hw : Explained sha w h) {buf : Bytes} {pc : StorePc} (k : ℕ)
    (hp : w.proc = .storing buf pc) :
    ∃ h', Explained sha (((w.crashStore buf k pc).goto .down).emit .crashed) h' := by
  have hinv := hw.procInv
  rw [hp] at hinv
  obtain ⟨c, hrun, hb, rfl, hpc⟩ := hinv
  have hold := hw.noOldFiles
  have hsaved : (h.interrupt c).Saved sha _ c := saved_interrupt hw.valid hb
  suffices hsafe : (h.interrupt c).Safe sha (w.crashStore (c.image sha) k pc).dir by
    have hv := valid_fail hw.valid c
    refine ⟨h.interrupt c, .snoc ?_ (.interrupted hrun), ⟨hv.1, hv.2⟩, ?_, rfl, hsafe⟩
    · cases pc <;> exact hw.explains
    · cases pc <;> exact hold
  cases pc with
  | openJournal => exact .inr ⟨hpc.1, hpc.2.interrupt c⟩
  | writeJournal => exact safe_interrupt_write hw.valid hb hpc k
  | fsyncJournal => exact safe_interrupt_write hw.valid hb hpc.2 k
  | removeJournal => exact safe_interrupt_write hw.valid hb hpc k
  | removeData => exact .inl ⟨c, Eq.symm hpc ▸ hsaved⟩
  | renameJournal => exact .inl ⟨c, Eq.symm hpc ▸ hsaved⟩
  | ret => exact .inr ⟨by simp [World.crashStore, JournalBad, hpc.1], .inl ⟨c, hpc.2.symm ▸ hsaved⟩⟩

/-- A crash during a load: it has removed or renamed files only with a whole journal at hand. -/
theorem crashLoad (hw : Explained sha w h) {pc : LoadPc} (hp : w.proc = .loading pc) :
    ∃ h', Explained sha ((w.goto .down).emit .crashed) h' := by
  have hinv := hw.procInv
  rw [hp] at hinv
  obtain ⟨hrun, hpc⟩ := hinv
  refine ⟨h, hw.observe (.crashed hrun) hw.valid hw.noOldFiles ⟨hrun, ?_⟩⟩
  cases pc with
  | journal => exact hpc
  | data => exact .inr hpc
  | removeData pd => exact .inl ⟨hpc.choose, hpc.choose_spec.2⟩
  | renameJournal pd => exact .inl ⟨hpc.choose, hpc.choose_spec.2⟩
  | ret r =>
    cases r with
    | none => exact .inr ⟨hpc.1, .inr hpc.2⟩
    | some pd => exact .inr ⟨hpc.1, .inl ⟨hpc.2.choose, hpc.2.choose_spec.2⟩⟩

end Explained

end History

/-- Every section a save writes is within the limit of the loader. -/
def Act.Bounded : Act → Prop
  | .store dht t =>
    dht.length ≤ maxPersistenceSectionSize ∧ getExtraSavedataSize t ≤ maxPersistenceSectionSize
  | _ => True

namespace History

theorem explained_step {sha : Sha256} {w w' : World} {a : Act} (hw : ∃ h, Explained sha w h)
    (ha : a.Bounded) (hstep : w.step sha a = some w') : ∃ h, Explained sha w' h := by
  obtain ⟨h, hw⟩ := hw
  have hinv := hw.procInv
  unfold World.step at hstep
  split at hstep
  · next hp =>
    cases hstep
    rw [hp] at hinv
    exact ⟨h, hw.silent hw.noOldFiles hinv⟩
  · next hp =>
    cases hstep
    rw [hp] at hinv
    exact ⟨h, hw.silent hw.noOldFiles ⟨hinv.1, .inr hinv.2⟩⟩
  · next dht t hp =>
    cases hstep
    rw [hp] at hinv
    have hb : (contentsOf dht t).Bounded := ⟨ha.1, getExtraSavedataSize_eq t ▸ ha.2⟩
    exact ⟨h.start (contentsOf dht t), hw.observe (.started _ hinv.1) ⟨hw.valid.1, hw.valid.2⟩
      hw.noOldFiles ⟨_, rfl, hb, storeImage_eq sha dht t, hinv.2⟩⟩
  · next hp =>
    cases hstep
    exact hw.stepStore hp
  · next hp => exact hw.stepLoad hp hstep
  · next hp => exact hw.failStore hp hstep
  · next hp =>
    cases hstep
    rw [hp] at hinv
    exact ⟨h, hw.observe (.crashed hinv.1) hw.valid hw.noOldFiles ⟨hinv.1, .inr hinv.2⟩⟩
  · next hp =>
    cases hstep
    exact hw.crashStore _ hp
  · next hp =>
    cases hstep
    exact hw.crashLoad hp
  · cases hstep

theorem explained_initial (sha : Sha256) : Explained sha World.initial initial :=
  ⟨.nil, ⟨nofun, nofun⟩, rfl, rfl, .inr ⟨rfl, .inr ⟨rfl, rfl, rfl⟩⟩⟩

end History

/-- In every run whose saves keep the loader's limit, each load hands out the last completed
save or a later interrupted one, never an older one than before, and fails only while there is
nothing to hand out. -/
theorem exec_explains (sha : Sha256) {acts : List Act} {w : World}
    (hacts : ∀ a ∈ acts, a.Bounded) (h : exec (World.step sha) World.initial acts = some w) :
    ∃ hist, History.Explains w.trace hist := by
  obtain ⟨hist, hw⟩ := exec_invariant_along
    (I := fun w => ∃ hist, History.Explained sha w hist)
    (fun _ _ _ hw ha hstep => History.explained_step hw ha hstep)
    ⟨_, History.explained_initial sha⟩ (along_of_mem (fun a ha _ => hacts a ha) _) h
  exact ⟨hist, hw.explains⟩

/-- An undisturbed load that has to fall back on the data file. -/
theorem exec_load_data (sha : Sha256) (d : DataDir) {p : Proc} {tr : List Event}
    (hp : p = .down ∨ p = .up) (hold : d.dhtdata = none) (hbad : History.JournalBad sha d) :
    exec (World.step sha) ⟨d, p, tr⟩ [.load, .step, .step, .step] =
      some ⟨d, .up, tr ++ [.loaded (loadFromData sha d)]⟩ := by
  have hload : World.step sha ⟨d, p, tr⟩ .load = some ⟨d, .loading .journal, tr⟩ := by
    rcases hp with rfl | rfl <;> rfl
  have hjournal : World.step sha ⟨d, .loading .journal, tr⟩ .step =
      some ⟨d, .loading .data, tr⟩ := by
    rw [History.JournalBad] at hbad
    simp only [World.step, World.stepLoad, hbad]
    rfl
  have hdata : World.step sha ⟨d, .loading .data, tr⟩ .step =
      some ⟨d, .loading (.ret (loadFromData sha d)), tr⟩ := by
    simp only [World.step, World.stepLoad, hold, loadFromData]
    cases d.data <;> rfl
  rw [exec_cons, hload, Option.bind_some, exec_cons, hjournal, Option.bind_some, exec_cons, hdata]
  rfl

/-- An undisturbed load from the journal, which it moves into place. -/
theorem exec_load_journal (sha : Sha256) {d : DataDir} {p : Proc} {tr : List Event}
    (hp : p = .down ∨ p = .up) {pd : PersistenceData}
    (hpd : d.journal.bind (loadPersistenceDataI sha) = some pd) :
    exec (World.step sha) ⟨d, p, tr⟩ [.load, .step, .step, .step, .step] =
      some ⟨d.removeData.renameJournal, .up, tr ++ [.loaded (some pd)]⟩ := by
  have hload : World.step sha ⟨d, p, tr⟩ .load = some ⟨d, .loading .journal, tr⟩ := by
    rcases hp with rfl | rfl <;> rfl
  have hjournal : World.step sha ⟨d, .loading .journal, tr⟩ .step =
      some ⟨d, .loading (.removeData pd), tr⟩ := by
    simp only [World.step, World.stepLoad, hpd]
    rfl
  rw [exec_cons, hload, Option.bind_some, exec_cons, hjournal]
  rfl

/-- Left alone, the steps of a load are `load_persistence_data`. -/
theorem exec_load (sha : Sha256) (o : ByteOrder) (d : DataDir) {p : Proc} (tr : List Event)
    (hp : p = .down ∨ p = .up) (hold : d.dhtdata = none) :
    ∃ n r d', loadPersistenceData sha o d = some (r, d') ∧
      exec (World.step sha) ⟨d, p, tr⟩ (.load :: List.replicate n .step) =
        some ⟨d', .up, tr ++ [.loaded r]⟩ := by
  cases hj : d.journal.bind (loadPersistenceDataI sha) with
  | some pd =>
    exact ⟨4, some pd, _, by simp only [loadPersistenceData, hj], exec_load_journal sha hp hj⟩
  | none =>
    refine ⟨3, loadFromData sha d, d, ?_, exec_load_data sha d hp hold hj⟩
    simp only [loadPersistenceData, hj, hold, loadFromData]
    cases d.data <;> rfl

theorem exec_store (sha : Sha256) (d : DataDir) (tr : List Event) (dht : Bytes) (t : Friends) :
    exec (World.step sha) ⟨d, .up, tr⟩ (.store dht t :: List.replicate 6 .step) =
      some ⟨{ d with data := some (storeImage sha dht t), journal := none }, .up,
        tr ++ [.started (contentsOf dht t)] ++ [.completed]⟩ := rfl

/-- A first start, one save without disturbance, and a load. -/
def storeAndLoad (dht : Bytes) (t : Friends) : List Act :=
  [.load, .step, .step, .step] ++ ((.store dht t :: List.replicate 6 .step) ++
    [.load, .step, .step, .step])

theorem exec_storeAndLoad (sha : Sha256) (dht : Bytes) (t : Friends) :
    exec (World.step sha) World.initial (storeAndLoad dht t) =
      some ⟨⟨some (storeImage sha dht t), none, none, none⟩, .up,
        [.loaded none, .started (contentsOf dht t), .completed,
          .loaded (loadPersistenceDataI sha (storeImage sha dht t))]⟩ := by
  rw [storeAndLoad, exec_append, World.initial,
    exec_load_data sha ⟨none, none, none, none⟩ (.inl rfl) rfl rfl, Option.bind_some, exec_append,
    exec_store, Option.bind_some,
    exec_load_data sha ⟨some (storeImage sha dht t), none, none, none⟩ (.inr rfl) rfl rfl]
  simp only [loadFromData, Option.bind_some, Option.bind_none, List.nil_append, List.cons_append]

theorem exec_explains_storeAndLoad :
    ∃ w, exec (World.step sodiumSha256) World.initial
        (storeAndLoad [1, 0, 2] (twoFriends [98] (by decide) (by decide))) = some w ∧
      ∃ hist, History.Explains w.trace hist := by
  refine ⟨_, exec_storeAndLoad _ _ _, exec_explains sodiumSha256 ?_ (exec_storeAndLoad _ _ _)⟩
  intro a ha
  fin_cases ha <;> trivial

theorem History.explains_snoc {tr : List Event} {e : Event} {h' : History}
    (h : History.Explains (tr ++ [e]) h') :
    ∃ h, History.Explains tr h ∧ History.Step h e h' := by
  generalize htr : tr ++ [e] = tr' at h
  cases h with
  | nil => simp at htr
  | snoc ht hs =>
    obtain ⟨rfl, rfl⟩ : tr = _ ∧ e = _ := by simpa using List.append_inj' htr rfl
    exact ⟨_, ht, hs⟩

def oversizeDht : Bytes := List.replicate (maxPersistenceSectionSize + 1) 0

theorem exec_oversize_lost :
    ∃ w, exec (World.step sodiumSha256) World.initial
        (storeAndLoad oversizeDht (twoFriends [98] (by decide) (by decide))) = some w ∧
      ¬∃ hist, History.Explains w.trace hist := by
  refine ⟨_, exec_storeAndLoad _ _ _, ?_⟩
  rintro ⟨hist, h⟩
  have hlost : loadPersistenceDataI sodiumSha256 (storeImage sodiumSha256 oversizeDht
      (twoFriends [98] (by decide) (by decide))) = none := by
    rw [storeImage_eq]
    refine loadPersistenceDataI_image_unbounded _ (fun hb => ?_)
    have hlen := hb.1
    rw [contentsOf, oversizeDht, List.length_replicate] at hlen
    omega
  rw [hlost] at h
  obtain ⟨h3, hpre, hload⟩ := @History.explains_snoc [.loaded none, .started _, .completed] _ _ h
  obtain ⟨h2, -, hdone⟩ := @History.explains_snoc [.loaded none, .started _] _ _ hpre
  cases hload with
  | nothing hc hr =>
    cases hdone
    cases hc

end Carrier.Persistence
