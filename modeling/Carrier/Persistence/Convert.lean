import Carrier.Persistence.Labels

/-! Loading from a data directory, and the conversion of the files of older versions. -/
namespace Carrier.Persistence
open Carrier.Lib Carrier.Core

/-- The files of the data location. -/
structure DataDir where
  data : Option Bytes
  journal : Option Bytes
  dhtdata : Option Bytes
  ioexdata : Option Bytes
  deriving DecidableEq

namespace DataDir

/-- `remove(filename); rename(journal_filename, filename);` with both results ignored. -/
def removeData (d : DataDir) : DataDir := { d with data := none }

def renameJournal (d : DataDir) : DataDir :=
  match d.journal with
  | none => d
  | some f => { d with data := some f, journal := none }

end DataDir

/-- Byte order of the machine, which the old format kept on disk. -/
inductive ByteOrder where
  | little
  | big
  deriving DecidableEq

namespace ByteOrder

def toHost : ByteOrder → ℕ → ℕ → Bytes
  | little => toLE
  | big => toBE

def ofHost : ByteOrder → Bytes → ℕ
  | little => ofLE
  | big => ofBE

@[simp] theorem length_toHost (o : ByteOrder) (n v : ℕ) : (o.toHost n v).length = n := by
  cases o <;> simp [toHost]

theorem ofHost_toHost (o : ByteOrder) {n v : ℕ} (h : v < 256 ^ n) :
    o.ofHost (o.toHost n v) = v := by
  cases o <;> simp [toHost, ofHost, Nat.mod_eq_of_lt h]

end ByteOrder

def publicKeyBytes : ℕ := 32

/-- The loop of `convert_old_dhtdata` over the section at `pos`: `count` records are read at
`rptr` and kept at `wptr`. `none` where it reads past the buffer. -/
def compactLoop (o : ByteOrder) : ℕ → Bytes → ℕ → ℕ → Option (Bytes × ℕ × ℕ)
  | 0, mem, rptr, wptr => some (mem, rptr, wptr)
  | count + 1, mem, rptr, wptr =>
    if mem.length < rptr + 4 then none
    else
      let id := o.ofHost (readAt mem rptr 4)
      let rptr := rptr + 4
      let labelLen := strlen (mem.drop rptr)
      if mem.length ≤ rptr + labelLen then none
      else if labelLen = 0 then compactLoop o count mem (rptr + 1) wptr
      else
        let mem := writeAt mem wptr (toBE 4 id)
        let wptr := wptr + 4
        let mem := writeAt mem wptr (readAt mem rptr (labelLen + 1))
        compactLoop o count mem (rptr + (labelLen + 1)) (wptr + (labelLen + 1))

/-- The extra section of the converted file in its zeroed space, and its length. -/
def convertExtra (o : ByteOrder) (ioexdata : Option Bytes) : Option (Bytes × ℕ) :=
  match ioexdata with
  | none => some (List.replicate (round256 0) 0, 0)
  | some file =>
    if file.length < publicKeyBytes + 4 then some (List.replicate (round256 0) 0, 0)
    else
      let extraDataLen := file.length - publicKeyBytes - 4
      let mem := List.replicate (round256 extraDataLen) 0
      if extraDataLen = 0 then some (mem, 0)
      else
        let val := o.ofHost (readAt file publicKeyBytes 4)
        if val = 0 then some (mem, extraDataLen)
        else
          let mem := writeAt mem 0 (file.drop (publicKeyBytes + 4))
          (compactLoop o val mem 0 0).map (fun (mem, rptr, wptr) =>
            (writeAt mem wptr (List.replicate (rptr - wptr) 0), wptr))

/-- The buffer `convert_old_dhtdata` writes to the journal. -/
def convertImage (sha : Sha256) (o : ByteOrder) (dhtdata : Bytes) (ioexdata : Option Bytes) :
    Option Bytes :=
  (convertExtra o ioexdata).map (fun (extra, extraDataLen) =>
    let buf := List.replicate (256 + round256 dhtdata.length) 0 ++ extra
    let buf := writeAt buf 256 dhtdata
    let totalLen := 256 + round256 dhtdata.length + round256 extraDataLen
    let buf := writeHeader buf dhtdata.length extraDataLen
    let buf := writeAt buf 16 (sha.digest (readAt buf 256 (totalLen - 256)))
    buf.take totalLen)

/-- `convert_old_dhtdata`: the error return is `false`, an access out of bounds `none`. -/
def convertOldDhtdata (sha : Sha256) (o : ByteOrder) (d : DataDir) : Option (Bool × DataDir) :=
  match d.dhtdata with
  | none => some (false, d)
  | some dht =>
    (convertImage sha o dht d.ioexdata).map (fun buf =>
      let d := { d with journal := some buf }
      let d := { d with dhtdata := none, ioexdata := none }
      (true, d.removeData.renameJournal))

/-- From the second round on `load_persistence_data` reads the data file. -/
def loadFromData (sha : Sha256) (d : DataDir) : Option PersistenceData :=
  d.data.bind (loadPersistenceDataI sha)

/-- `load_persistence_data`, with the directory it leaves. -/
def loadPersistenceData (sha : Sha256) (o : ByteOrder) (d : DataDir) :
    Option (Option PersistenceData × DataDir) :=
  match d.journal.bind (loadPersistenceDataI sha) with
  | some pd => some (some pd, d.removeData.renameJournal)
  | none =>
    if d.data.isSome then some (loadFromData sha d, d)
    else if d.dhtdata.isNone then some (none, d)
    else (convertOldDhtdata sha o d).map (fun (ok, d) =>
      if ok then (loadFromData sha d, d) else (none, d))

def encodeOldRecord (o : ByteOrder) (r : ℕ × Bytes) : Bytes := o.toHost 4 r.1 ++ (r.2 ++ [0])

def encodeOldRecords (o : ByteOrder) (rs : List (ℕ × Bytes)) : Bytes :=
  (rs.map (encodeOldRecord o)).flatten

/-- A well-formed `IOEXdata`: a public key, a count and that many records. -/
structure OldIoexdata where
  key : Bytes
  records : List (ℕ × Bytes)
  length_key : key.length = publicKeyBytes
  number_lt : ∀ r ∈ records, r.1 < 2 ^ 32
  label_noNul : ∀ r ∈ records, NoNul r.2

namespace OldIoexdata

def file (o : ByteOrder) (x : OldIoexdata) : Bytes :=
  x.key ++ (o.toHost 4 x.records.length ++ encodeOldRecords o x.records)

def labelled (x : OldIoexdata) : List (ℕ × Bytes) := x.records.filter (fun r => r.2 ≠ [])

end OldIoexdata

theorem encodeOldRecords_cons (o : ByteOrder) (r : ℕ × Bytes) (rs : List (ℕ × Bytes)) :
    encodeOldRecords o (r :: rs) = encodeOldRecord o r ++ encodeOldRecords o rs := by
  simp [encodeOldRecords]

theorem length_encodeOldRecord (o : ByteOrder) (r : ℕ × Bytes) :
    (encodeOldRecord o r).length = 4 + r.2.length + 1 := by
  simp [encodeOldRecord, Nat.add_assoc]

theorem length_le_encodeOldRecords (o : ByteOrder) (rs : List (ℕ × Bytes)) :
    rs.length ≤ (encodeOldRecords o rs).length := by
  induction rs with
  | nil => exact Nat.zero_le _
  | cons r rs ih =>
    rw [encodeOldRecords_cons, List.length_append, length_encodeOldRecord, List.length_cons]
    omega

/-- One round on a record without label leaves the memory and enlarges the gap. -/
theorem compactLoop_empty (o : ByteOrder) (count : ℕ) (written gap rest : Bytes) {n : ℕ} :
    compactLoop o (count + 1) (written ++ (gap ++ (encodeOldRecord o (n, []) ++ rest)))
        (written.length + gap.length) written.length =
      compactLoop o count (written ++ ((gap ++ encodeOldRecord o (n, [])) ++ rest))
        (written.length + (gap ++ encodeOldRecord o (n, [])).length) written.length := by
  have hmem : written ++ (gap ++ (encodeOldRecord o (n, []) ++ rest)) =
      (written ++ gap ++ o.toHost 4 n) ++ 0 :: rest := by
    simp [encodeOldRecord]
  have hdrop : ((written ++ gap ++ o.toHost 4 n) ++ 0 :: rest).drop
      (written.length + gap.length + 4) = 0 :: rest := List.drop_left' (by simp; omega)
  have hlen : strlen (0 :: rest) = 0 := strlen_cstr (s := []) (by simp [NoNul]) rest
  rw [compactLoop, if_neg (by simp [encodeOldRecord]; omega), hmem]
  simp only [hdrop, hlen]
  rw [if_neg (by simp; omega), if_pos trivial, ← hmem, List.append_assoc gap]
  congr 1
  simp [encodeOldRecord]
  omega

/-- One round on a labelled record moves it down to the written part; the gap keeps its size. -/
theorem compactLoop_label (o : ByteOrder) (count : ℕ) (written gap rest : Bytes) {r : ℕ × Bytes}
    (hnum : r.1 < 2 ^ 32) (hne : r.2 ≠ []) (hnul : NoNul r.2) :
    ∃ gap', gap'.length = gap.length ∧
      compactLoop o (count + 1) (written ++ (gap ++ (encodeOldRecord o r ++ rest)))
        (written.length + gap.length) written.length =
      compactLoop o count ((written ++ encodeRecord r) ++ (gap' ++ rest))
        ((written ++ encodeRecord r).length + gap'.length) (written ++ encodeRecord r).length := by
  have hpos : 0 < r.2.length := List.length_pos_iff.mpr hne
  have henc := length_encodeOldRecord o r
  have hmem : written ++ (gap ++ (encodeOldRecord o r ++ rest)) =
      (written ++ gap) ++ (o.toHost 4 r.1 ++ (r.2 ++ 0 :: rest)) := by
    simp [encodeOldRecord]
  have hid : readAt (written ++ (gap ++ (encodeOldRecord o r ++ rest)))
      (written.length + gap.length) 4 = o.toHost 4 r.1 := by
    rw [hmem, readAt_append_right (by simp), List.length_append, Nat.sub_self,
      readAt_append_left (o.length_toHost 4 _)]
  -- What stands behind the number, in the part that is still unread.
  have htail : (gap ++ (encodeOldRecord o r ++ rest)).drop (gap.length + 4) =
      r.2 ++ 0 :: rest := by
    rw [← List.drop_drop, List.drop_left, encodeOldRecord, List.append_assoc,
      List.drop_left' (o.length_toHost 4 _), List.append_assoc]
    rfl
  have hdrop : (written ++ (gap ++ (encodeOldRecord o r ++ rest))).drop
      (written.length + gap.length + 4) = r.2 ++ 0 :: rest := by
    rw [Nat.add_assoc, ← List.drop_drop, List.drop_left, htail]
  have hval : o.ofHost (o.toHost 4 r.1) = r.1 := o.ofHost_toHost (by omega)
  have hlabel : readAt (written ++ toBE 4 r.1 ++ (gap ++ (encodeOldRecord o r ++ rest)).drop 4)
      (written.length + gap.length + 4) (r.2.length + 1) = r.2 ++ [0] := by
    rw [readAt_append_right (by simp), readAt, List.drop_drop, List.length_append,
      length_toBE, show 4 + (written.length + gap.length + 4 - (written.length + 4)) =
        gap.length + 4 by omega, htail, ← List.singleton_append, ← List.append_assoc]
    exact List.take_left' (by simp)
  have hwrite : writeAt (written ++ toBE 4 r.1 ++ (gap ++ (encodeOldRecord o r ++ rest)).drop 4)
      (written.length + 4) (r.2 ++ [0]) =
      (written ++ encodeRecord r) ++
        ((gap ++ encodeOldRecord o r).drop (4 + r.2.length + 1) ++ rest) := by
    rw [show written.length + 4 = (written ++ toBE 4 r.1).length by simp, writeAt_append,
      List.drop_drop, ← List.append_assoc gap, List.drop_append_of_le_length (by simp; omega)]
    simp [encodeRecord, Nat.add_assoc]
  refine ⟨(gap ++ encodeOldRecord o r).drop (4 + r.2.length + 1), ?_, ?_⟩
  · rw [List.length_drop, List.length_append, henc]
    omega
  · rw [compactLoop, if_neg (by simp; omega)]
    simp only [hid, hval, hdrop, strlen_cstr hnul]
    rw [if_neg (by simp; omega), if_neg (by omega), writeAt_append, length_toBE, hlabel, hwrite]
    congr 1
    · rw [List.length_drop, List.length_append, List.length_append, henc, length_encodeRecord]
      omega
    · rw [List.length_append, length_encodeRecord]
      omega

/-- The whole loop: labelled records at the start, then a gap, then what was behind the records. -/
theorem compactLoop_records (o : ByteOrder) {rs : List (ℕ × Bytes)} (written gap pad : Bytes)
    (hrs : ∀ r ∈ rs, r.1 < 2 ^ 32 ∧ NoNul r.2) :
    ∃ gap', (encodeRecords (rs.filter (fun r => r.2 ≠ []))).length + gap'.length =
        gap.length + (encodeOldRecords o rs).length ∧
      compactLoop o rs.length (written ++ (gap ++ (encodeOldRecords o rs ++ pad)))
        (written.length + gap.length) written.length =
      some ((written ++ encodeRecords (rs.filter (fun r => r.2 ≠ []))) ++ (gap' ++ pad),
        (written ++ encodeRecords (rs.filter (fun r => r.2 ≠ []))).length + gap'.length,
        (written ++ encodeRecords (rs.filter (fun r => r.2 ≠ []))).length) := by
  induction rs generalizing written gap with
  | nil => exact ⟨gap, by simp [compactLoop, encodeOldRecords, encodeRecords]⟩
  | cons r rs ih =>
    obtain ⟨hnum, hnul⟩ := hrs r List.mem_cons_self
    have hrest := fun x hx => hrs x (List.mem_cons_of_mem r hx)
    have hlen := length_encodeOldRecord o r
    rw [encodeOldRecords_cons, List.append_assoc, List.length_cons, List.length_append, hlen]
    by_cases hl : r.2 = []
    · obtain ⟨n, l⟩ := r
      subst hl
      obtain ⟨gap', hgap, hloop⟩ := ih written (gap ++ encodeOldRecord o (n, [])) hrest
      rw [List.length_append, hlen] at hgap
      rw [List.filter_cons_of_neg (by simp), compactLoop_empty, hloop]
      exact ⟨gap', by omega, rfl⟩
    · obtain ⟨g, hg, hstep⟩ := compactLoop_label o rs.length written gap
        (encodeOldRecords o rs ++ pad) hnum hl hnul
      obtain ⟨gap', hgap, hloop⟩ := ih (written ++ encodeRecord r) g hrest
      rw [List.filter_cons_of_pos (by simpa using hl), hstep, hloop, encodeRecords_cons,
        List.append_assoc written]
      refine ⟨gap', ?_, rfl⟩
      rw [List.length_append, length_encodeRecord]
      omega

namespace OldIoexdata

variable (o : ByteOrder) (x : OldIoexdata)

/-- The length of the extra section as the old file has it. -/
def sectionLen : ℕ := (encodeOldRecords o x.records).length

theorem length_file : (x.file o).length = publicKeyBytes + 4 + x.sectionLen o := by
  simp [file, sectionLen, x.length_key, Nat.add_assoc]

theorem readAt_file_count (h : x.records.length < 2 ^ 32) :
    o.ofHost (readAt (x.file o) publicKeyBytes 4) = x.records.length := by
  rw [file, readAt_append_right x.length_key.le, x.length_key, Nat.sub_self,
    readAt_append_left (o.length_toHost 4 _), o.ofHost_toHost (by omega)]

theorem drop_file : (x.file o).drop (publicKeyBytes + 4) = encodeOldRecords o x.records := by
  rw [file, ← List.append_assoc]
  exact List.drop_left' (by simp [x.length_key])

end OldIoexdata

/-- Compacting a well-formed section keeps its labelled records, followed by zeros only. -/
theorem convertExtra_file (o : ByteOrder) (x : OldIoexdata)
    (hlen : x.sectionLen o ≤ maxPersistenceSectionSize) :
    (encodeRecords x.labelled).length ≤ x.sectionLen o ∧
    ∃ k, convertExtra o (some (x.file o)) =
      some (padSection (encodeRecords x.labelled) ++ List.replicate k 0,
        (encodeRecords x.labelled).length) := by
  have hmax : maxPersistenceSectionSize < 2 ^ 32 := by decide
  have hcount := length_le_encodeOldRecords o x.records
  have hround := round256_gt (x.sectionLen o)
  have hfile := x.length_file o
  have hraw : (x.file o).length - publicKeyBytes - 4 = x.sectionLen o := by omega
  unfold convertExtra
  simp only
  rw [if_neg (by omega), hraw]
  by_cases hzero : x.sectionLen o = 0
  · have hnil : x.records = [] := by
      rw [← List.length_eq_zero_iff]
      unfold OldIoexdata.sectionLen at hzero
      omega
    have henc : encodeRecords x.labelled = [] := by
      simp [OldIoexdata.labelled, hnil, encodeRecords]
    rw [if_pos hzero, hzero, henc]
    exact ⟨le_refl 0, 0, by simp [padSection]⟩
  · have hne : x.records.length ≠ 0 := by
      intro h0
      rw [OldIoexdata.sectionLen, List.length_eq_zero_iff.mp h0] at hzero
      exact hzero rfl
    have hraw32 : x.records.length < 2 ^ 32 := by
      unfold OldIoexdata.sectionLen at hlen
      omega
    have hmem : writeAt (List.replicate (round256 (x.sectionLen o)) 0) 0
        (encodeOldRecords o x.records) =
        [] ++ ([] ++ (encodeOldRecords o x.records ++
          List.replicate (round256 (x.sectionLen o) - x.sectionLen o) 0)) := by
      simp [writeAt, OldIoexdata.sectionLen]
    obtain ⟨gap, hgap, hloop⟩ := compactLoop_records o [] []
      (List.replicate (round256 (x.sectionLen o) - x.sectionLen o) 0)
      (fun r hr => ⟨x.number_lt r hr, x.label_noNul r hr⟩)
    simp only [List.length_nil, List.nil_append, Nat.add_zero] at hloop hmem
    rw [if_neg hzero, x.readAt_file_count o hraw32, if_neg hne, x.drop_file, hmem, hloop]
    change (encodeRecords x.labelled).length + _ = _ at hgap
    rw [List.length_nil, Nat.zero_add] at hgap
    have hle : (encodeRecords x.labelled).length ≤ x.sectionLen o := by
      unfold OldIoexdata.sectionLen
      omega
    have hmono := round256_mono hle
    have hgt := round256_gt (encodeRecords x.labelled).length
    refine ⟨hle, round256 (x.sectionLen o) - round256 (encodeRecords x.labelled).length, ?_⟩
    have hzeros : gap.length + (round256 (x.sectionLen o) - x.sectionLen o) =
        round256 (encodeRecords x.labelled).length - (encodeRecords x.labelled).length +
          (round256 (x.sectionLen o) - round256 (encodeRecords x.labelled).length) := by
      change _ = x.sectionLen o at hgap
      omega
    -- Old gap and old padding are one run of zeros, of which the new padding is the beginning.
    have hfill : writeAt (encodeRecords x.labelled ++ (gap ++
        List.replicate (round256 (x.sectionLen o) - x.sectionLen o) 0))
        (encodeRecords x.labelled).length (List.replicate gap.length 0) =
        padSection (encodeRecords x.labelled) ++ List.replicate
          (round256 (x.sectionLen o) - round256 (encodeRecords x.labelled).length) 0 := by
      rw [writeAt_middle rfl (by simp), padSection, List.append_assoc,
        List.replicate_append_replicate, List.replicate_append_replicate, hzeros]
    rw [Option.map_some, Nat.add_sub_cancel_left]
    exact congrArg (fun m => some (m, (encodeRecords x.labelled).length)) hfill

/-- The converted file is the one a save of the DHT bytes and the labelled records writes. -/
theorem convertImage_file (sha : Sha256) (o : ByteOrder) (dht : Bytes) (x : OldIoexdata)
    (hlen : x.sectionLen o ≤ maxPersistenceSectionSize) :
    convertImage sha o dht (some (x.file o)) =
      some (Contents.image sha ⟨dht, encodeRecords x.labelled⟩) := by
  obtain ⟨-, k, hextra⟩ := convertExtra_file o x hlen
  have hbody : (plainHeader dht.length (encodeRecords x.labelled).length ++
      (padSection dht ++ (padSection (encodeRecords x.labelled) ++ List.replicate k 0))) =
      (plainHeader dht.length (encodeRecords x.labelled).length ++
        Contents.body ⟨dht, encodeRecords x.labelled⟩) ++ List.replicate k 0 := by
    simp only [Contents.body, List.append_assoc]
  have hlength : (Contents.body ⟨dht, encodeRecords x.labelled⟩).length =
      round256 dht.length + round256 (encodeRecords x.labelled).length := by
    rw [Contents.body, List.length_append, length_padSection, length_padSection]
  have hread : readAt ((plainHeader dht.length (encodeRecords x.labelled).length ++
      Contents.body ⟨dht, encodeRecords x.labelled⟩) ++ List.replicate k 0) 256
      (256 + round256 dht.length + round256 (encodeRecords x.labelled).length - 256) =
      Contents.body ⟨dht, encodeRecords x.labelled⟩ := by
    rw [List.append_assoc, readAt_append_right (length_plainHeader _ _).le, length_plainHeader,
      Nat.sub_self, readAt_append_left (by omega)]
  unfold convertImage
  rw [hextra, Option.map_some]
  simp only
  rw [List.replicate_add, List.append_assoc, writeAt_section List.length_replicate, writeHeader_zero, hbody,
    hread, writeAt_append_of_le, writeDigest_image sha ⟨dht, encodeRecords x.labelled⟩]
  · rw [List.take_left' (by rw [Contents.length_image])]
  · rw [sha.length_digest, List.length_append, length_plainHeader]
    omega

namespace OldIoexdata

/-- The records as `apply_extra_data` looks them up. -/
def calls (x : OldIoexdata) (stack : ℕ → Bytes) : List LabelCall := labelCalls stack x.labelled

/-- What `apply_extra_data` needs of the records: each can be assigned, and for every friend the last
record that the lookup takes for it and the last one with its number carry the same label (that of
the friend where there is no such record). -/
structure Fits (x : OldIoexdata) (stack : ℕ → Bytes) (t : Friends) : Prop where
  safe : ∀ c ∈ x.calls stack, c.Safe t
  last : ∀ f ∈ t.entries, (lastTaken f.key (x.calls stack)).getD f.label =
    (lastLabel f.friendNumber x.labelled).getD f.label

instance (x : OldIoexdata) (stack : ℕ → Bytes) (t : Friends) : Decidable (x.Fits stack t) :=
  decidable_of_iff ((∀ c ∈ x.calls stack, c.Safe t) ∧ ∀ f ∈ t.entries,
    (lastTaken f.key (x.calls stack)).getD f.label =
      (lastLabel f.friendNumber x.labelled).getD f.label)
    ⟨fun h => ⟨h.1, h.2⟩, fun h => ⟨h.safe, h.last⟩⟩

theorem applyExtraData_labelled (x : OldIoexdata) (stack : ℕ → Bytes) (t : Friends)
    (hlen : (encodeRecords x.labelled).length < 2 ^ 64) :
    applyExtraData stack t (padSection (encodeRecords x.labelled))
      (encodeRecords x.labelled).length = (x.calls stack).foldlM assignLabel t := by
  refine applyExtraData_records stack t _ (fun r hr => ?_) hlen
  obtain ⟨hmem, hne⟩ := List.mem_filter.mp hr
  exact ⟨x.number_lt r hmem, by simpa using hne, x.label_noNul r hmem⟩

theorem calls_noNul (x : OldIoexdata) (stack : ℕ → Bytes) : ∀ c ∈ x.calls stack, NoNul c.label :=
  fun _ hc => x.label_noNul _ (List.mem_filter.mp (mem_labelCalls hc)).1

/-- The labels that the records leave, when they can be assigned. -/
theorem labelOf_calls (x : OldIoexdata) {stack : ℕ → Bytes} {t t' : Friends}
    (h : (x.calls stack).foldlM assignLabel t = some t') (n : ℕ) :
    t'.labelOf n = (t.friend n).map (fun f => (lastTaken f.key (x.calls stack)).getD f.label) := by
  rw [Friends.labelOf_eq, entryOf_foldlM h n, Friends.entryOf, Option.map_map, Option.map_map]
  rfl

/-- Every friend is left the label of its last record exactly when the lookups see to it. -/
theorem labelOf_calls_iff (x : OldIoexdata) {stack : ℕ → Bytes} {t t' : Friends}
    (h : (x.calls stack).foldlM assignLabel t = some t') :
    (∀ n, t'.labelOf n = (t.labelOf n).map (fun old => (lastLabel n x.labelled).getD old)) ↔
      ∀ f ∈ t.entries, (lastTaken f.key (x.calls stack)).getD f.label =
        (lastLabel f.friendNumber x.labelled).getD f.label := by
  constructor
  · intro hlabel f hf
    have hn := hlabel f.friendNumber
    rw [x.labelOf_calls h, Friends.labelOf, t.friend_of_mem hf] at hn
    simpa using hn
  · intro hlast n
    rw [x.labelOf_calls h, Friends.labelOf]
    cases hfriend : t.friend n with
    | none => rfl
    | some f =>
      obtain ⟨hmem, rfl⟩ := Friends.mem_of_friend hfriend
      exact congrArg some (hlast f hmem)

end OldIoexdata

/-- A directory with old files only, or with a journal nothing can be loaded from. -/
def oldDir (journal : Option Bytes) (dht ioexdata : Bytes) : DataDir :=
  ⟨none, journal, some dht, some ioexdata⟩

/-- Loading from old files converts them and hands out what they hold. -/
theorem loadPersistenceData_oldDir (sha : Sha256) (o : ByteOrder) {journal : Option Bytes}
    (dht : Bytes) (x : OldIoexdata)
    (hjournal : journal.bind (loadPersistenceDataI sha) = none)
    (hdht : dht.length ≤ maxPersistenceSectionSize)
    (hlen : x.sectionLen o ≤ maxPersistenceSectionSize) :
    loadPersistenceData sha o (oldDir journal dht (x.file o)) =
      some (some (Contents.view ⟨dht, encodeRecords x.labelled⟩),
        ⟨some (Contents.image sha ⟨dht, encodeRecords x.labelled⟩), none, none, none⟩) := by
  have hextra := (convertExtra_file o x hlen).1
  have hload := loadPersistenceDataI_image sha (c := ⟨dht, encodeRecords x.labelled⟩)
    ⟨hdht, hextra.trans hlen⟩
  unfold loadPersistenceData convertOldDhtdata oldDir
  simp only [hjournal, Option.isSome_none, Bool.false_eq_true, if_false, Option.isNone_some,
    convertImage_file sha o dht x hlen, Option.map_some, DataDir.removeData, DataDir.renameJournal,
    if_true, loadFromData, Option.bind_some, hload]

/-- Migration hands out the DHT bytes and leaves every friend its last label of the old file,
exactly when the records fit the table they are applied to. -/
theorem loadPersistenceData_migrates_iff (sha : Sha256) (o : ByteOrder) (journal : Option Bytes)
    (dht : Bytes) (x : OldIoexdata) (stack : ℕ → Bytes) (t : Friends)
    (hjournal : journal.bind (loadPersistenceDataI sha) = none)
    (hdht : dht.length ≤ maxPersistenceSectionSize)
    (hlen : x.sectionLen o ≤ maxPersistenceSectionSize) :
    (∃ pd d t', loadPersistenceData sha o (oldDir journal dht (x.file o)) = some (some pd, d) ∧
      pd.dhtSavedataLen = dht.length ∧ pd.dhtSavedata.take pd.dhtSavedataLen = dht ∧
      applyExtraData stack t pd.extraSavedata pd.extraSavedataLen = some t' ∧
      ∀ n, t'.labelOf n = (t.labelOf n).map (fun old => (lastLabel n x.labelled).getD old)) ↔
    x.Fits stack t := by
  have hmax : maxPersistenceSectionSize < 2 ^ 32 := by decide
  have hextra := (convertExtra_file o x hlen).1
  have happly := x.applyExtraData_labelled stack t (by omega)
  have hsafe := foldlM_assignLabel_isSome_iff t (x.calls_noNul stack)
  rw [loadPersistenceData_oldDir sha o dht x hjournal hdht hlen]
  constructor
  · rintro ⟨pd, d, t', h, -, -, happlied, hlabel⟩
    cases h
    have hfold := happly.symm.trans happlied
    exact ⟨hsafe.mp (Option.isSome_iff_exists.mpr ⟨t', hfold⟩), (x.labelOf_calls_iff hfold).mp hlabel⟩
  · intro h
    obtain ⟨t', ht'⟩ := Option.isSome_iff_exists.mp (hsafe.mpr h.safe)
    exact ⟨_, _, t', rfl, rfl, by simp [Contents.view, Contents.body, padSection],
      happly.trans ht', (x.labelOf_calls_iff ht').mpr h.last⟩

/-- An old file with the label `bob`, then an empty one. -/
def oldBob : OldIoexdata where
  key := List.replicate 32 0
  records := [(3, [98, 111, 98]), (7, [])]
  length_key := List.length_replicate
  number_lt := by decide
  label_noNul := by decide

theorem loadPersistenceData_migrates_bob :
    oldBob.Fits (fun _ => [255]) (twoFriends [] (by decide) (by decide)) ∧
    ∃ pd d t', loadPersistenceData sodiumSha256 .little
        (oldDir none [1, 0, 2] (oldBob.file .little)) = some (some pd, d) ∧
      pd.dhtSavedataLen = 3 ∧ pd.dhtSavedata.take pd.dhtSavedataLen = [1, 0, 2] ∧
      applyExtraData (fun _ => [255]) (twoFriends [] (by decide) (by decide)) pd.extraSavedata
        pd.extraSavedataLen = some t' ∧
      ∀ n, t'.labelOf n = ((twoFriends [] (by decide) (by decide)).labelOf n).map
        (fun old => (lastLabel n oldBob.labelled).getD old) :=
  ⟨by decide, (loadPersistenceData_migrates_iff sodiumSha256 .little none [1, 0, 2] oldBob
    (fun _ => [255]) _ rfl (by decide) (by decide)).mpr (by decide)⟩

/-- An old file with a label one byte longer than the field `strcpy` copies it to. -/
def oldLongLabel : OldIoexdata where
  key := List.replicate 32 0
  records := [(3, List.replicate 64 97)]
  length_key := List.length_replicate
  number_lt := by decide
  label_noNul := by decide

theorem loadPersistenceData_long_label :
    ¬∃ pd d t', loadPersistenceData sodiumSha256 .little
        (oldDir none [1, 0, 2] (oldLongLabel.file .little)) = some (some pd, d) ∧
      pd.dhtSavedataLen = 3 ∧ pd.dhtSavedata.take pd.dhtSavedataLen = [1, 0, 2] ∧
      applyExtraData (fun _ => []) (twoFriends [] (by decide) (by decide)) pd.extraSavedata
        pd.extraSavedataLen = some t' ∧
      ∀ n, t'.labelOf n = ((twoFriends [] (by decide) (by decide)).labelOf n).map
        (fun old => (lastLabel n oldLongLabel.labelled).getD old) := by
  rintro ⟨pd, d, t', h, -, -, happlied, -⟩
  rw [loadPersistenceData_oldDir sodiumSha256 .little [1, 0, 2] oldLongLabel rfl (by decide)
    (by decide)] at h
  cases h
  have hfold := (oldLongLabel.applyExtraData_labelled _ _ (by decide)).symm.trans happlied
  have hsafe := (foldlM_assignLabel_isSome_iff _ (oldLongLabel.calls_noNul _)).mp
    (Option.isSome_iff_exists.mpr ⟨t', hfold⟩)
  exact absurd hsafe (by decide)

/-- An old file with a record of a number that the table does not have. -/
def oldOtherNumber : OldIoexdata where
  key := List.replicate 32 0
  records := [(3774939136, [98, 111, 98])]
  length_key := List.length_replicate
  number_lt := by decide
  label_noNul := by decide

def friendZero : Friends where
  entries := [⟨0, [97], [122], by decide, by decide, by decide⟩]
  nodup := by simp
  apart := List.pairwise_singleton _ _

/-- The hash and the text of the number 3774939136 are those of 0: its record takes friend 0. -/
example : (∀ c ∈ oldOtherNumber.calls (fun _ => []), c.Safe friendZero) ∧
    ¬oldOtherNumber.Fits (fun _ => []) friendZero := by decide

end Carrier.Persistence
