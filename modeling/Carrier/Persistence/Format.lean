import Carrier.Lib.Bytes
import Carrier.Lib.Sha256

/-! The data file of `carrier/IOEX_carrier.c`: its layout, what a save writes and what
`_load_persistence_data_i` accepts. -/
namespace Carrier.Persistence
open Carrier.Lib

def persistenceMagic : ℕ := 0x0E0C0D0A

def persistenceRevision : ℕ := 2

def maxPersistenceSectionSize : ℕ := 16 * 1024 * 1024

/-- `ROUND256`: not a plain round up, at least 65 bytes of padding stay behind a section. -/
def round256 (s : ℕ) : ℕ := (((s + 64) >>> 8) + 1) <<< 8

/-- `sha256` is `libsodium`'s; only the size of its results matters here. -/
structure Sha256 where
  digest : Bytes → Bytes
  length_digest : ∀ data, (digest data).length = 32

def sodiumSha256 : Sha256 := ⟨Lib.Sha256.sha256, Lib.Sha256.length_sha256⟩

/-- The pointers of `persistence_data` stand for the memory from there on. -/
structure PersistenceData where
  dhtSavedataLen : ℕ
  dhtSavedata : Bytes
  extraSavedataLen : ℕ
  extraSavedata : Bytes
  deriving DecidableEq

/-- The header fields a save copies to the head of its buffer. -/
def writeHeader (buf : Bytes) (dhtDataLen extraDataLen : ℕ) : Bytes :=
  let buf := writeAt buf 0 (toBE 4 persistenceMagic)
  let buf := writeAt buf 4 (toBE 4 persistenceRevision)
  let buf := writeAt buf 8 (toBE 4 dhtDataLen)
  writeAt buf 12 (toBE 4 extraDataLen)

/-- `_load_persistence_data_i` on the contents of the open file. -/
def loadPersistenceDataI (sha : Sha256) (file : Bytes) : Option PersistenceData :=
  if file.length < 256 then none
  else if ofBE (readAt file 0 4) ≠ persistenceMagic then none
  else if ofBE (readAt file 4 4) ≠ persistenceRevision then none
  else
    let dhtDataLen := ofBE (readAt file 8 4)
    if dhtDataLen > maxPersistenceSectionSize then none
    else
      let extraDataLen := ofBE (readAt file 12 4)
      if extraDataLen > maxPersistenceSectionSize then none
      else if file.length ≠ 256 + round256 dhtDataLen + round256 extraDataLen then none
      else
        let pSum := readAt file 16 32
        let buf := file.drop 256
        if pSum ≠ sha.digest buf then none
        else some
          { dhtSavedataLen := dhtDataLen
            dhtSavedata := buf
            extraSavedataLen := extraDataLen
            extraSavedata := buf.drop (round256 dhtDataLen) }

theorem round256_eq (s : ℕ) : round256 s = ((s + 64) / 256 + 1) * 256 := by
  rw [round256, Nat.shiftRight_eq_div_pow, Nat.shiftLeft_eq]

theorem round256_gt (s : ℕ) : s + 64 < round256 s := by
  rw [round256_eq]
  omega

theorem round256_mono {s t : ℕ} (h : s ≤ t) : round256 s ≤ round256 t := by
  rw [round256_eq, round256_eq]
  omega

/-- A section and the zeros `calloc` leaves behind it. -/
def padSection (s : Bytes) : Bytes := s ++ List.replicate (round256 s.length - s.length) 0

@[simp] theorem length_padSection (s : Bytes) : (padSection s).length = round256 s.length := by
  have := round256_gt s.length
  simp only [padSection, List.length_append, List.length_replicate]
  omega

/-- The sections a save stores. -/
structure Contents where
  dht : Bytes
  extra : Bytes
  deriving DecidableEq

namespace Contents

def body (c : Contents) : Bytes := padSection c.dht ++ padSection c.extra

/-- The file of a save, piece by piece. -/
def image (sha : Sha256) (c : Contents) : Bytes :=
  toBE 4 persistenceMagic ++ (toBE 4 persistenceRevision ++ (toBE 4 c.dht.length ++
    (toBE 4 c.extra.length ++ (sha.digest c.body ++ (List.replicate 208 0 ++ c.body)))))

/-- What loading that file hands out. -/
def view (c : Contents) : PersistenceData :=
  ⟨c.dht.length, c.body, c.extra.length, padSection c.extra⟩

/-- Both sections within the limit the loader enforces. -/
def Bounded (c : Contents) : Prop :=
  c.dht.length ≤ maxPersistenceSectionSize ∧ c.extra.length ≤ maxPersistenceSectionSize

instance (c : Contents) : Decidable c.Bounded := inferInstanceAs (Decidable (_ ∧ _))

theorem length_image (sha : Sha256) (c : Contents) :
    (c.image sha).length = 256 + round256 c.dht.length + round256 c.extra.length := by
  simp only [image, body, List.length_append, length_toBE, sha.length_digest, List.length_replicate,
    length_padSection]
  omega

end Contents

/-- What the loader reads from the first sixteen bytes decides which sizes it accepts. -/
theorem loadPersistenceDataI_eq_some {sha : Sha256} {file : Bytes} {pd : PersistenceData}
    (h : loadPersistenceDataI sha file = some pd) :
    256 ≤ file.length ∧
      ofBE (readAt file 8 4) ≤ maxPersistenceSectionSize ∧
      ofBE (readAt file 12 4) ≤ maxPersistenceSectionSize ∧
      file.length =
        256 + round256 (ofBE (readAt file 8 4)) + round256 (ofBE (readAt file 12 4)) := by
  unfold loadPersistenceDataI at h
  simp only at h
  split_ifs at h with h1 h2 h3 h4 h5 h6 h7
  exact ⟨by omega, by omega, by omega, not_not.mp h6⟩

namespace Contents

variable (sha : Sha256) (c : Contents)

theorem image_magic : ofBE (readAt (c.image sha) 0 4) = persistenceMagic := by
  rw [image, readAt_append_left (length_toBE 4 _), ofBE_toBE]
  rfl

theorem image_revision : ofBE (readAt (c.image sha) 4 4) = persistenceRevision := by
  rw [image, readAt_append_right (by simp), length_toBE, readAt_append_left (length_toBE 4 _),
    ofBE_toBE]
  rfl

theorem image_dhtLen : ofBE (readAt (c.image sha) 8 4) = c.dht.length % 2 ^ 32 := by
  rw [image, readAt_append_right (by simp), length_toBE, readAt_append_right (by simp), length_toBE,
    readAt_append_left (length_toBE 4 _), ofBE_toBE]
  norm_num

theorem image_extraLen : ofBE (readAt (c.image sha) 12 4) = c.extra.length % 2 ^ 32 := by
  rw [image, readAt_append_right (by simp), length_toBE, readAt_append_right (by simp), length_toBE,
    readAt_append_right (by simp), length_toBE, readAt_append_left (length_toBE 4 _), ofBE_toBE]
  norm_num

theorem image_digest : readAt (c.image sha) 16 32 = sha.digest c.body := by
  rw [image, readAt_append_right (by simp), length_toBE, readAt_append_right (by simp), length_toBE,
    readAt_append_right (by simp), length_toBE, readAt_append_right (by simp), length_toBE,
    readAt_append_left (sha.length_digest _)]

theorem image_body : (c.image sha).drop 256 = c.body := by
  simp only [image, ← List.append_assoc]
  refine List.drop_left' ?_
  simp only [List.length_append, length_toBE, sha.length_digest, List.length_replicate]

end Contents

theorem loadPersistenceDataI_image (sha : Sha256) {c : Contents} (hc : c.Bounded) :
    loadPersistenceDataI sha (c.image sha) = some c.view := by
  obtain ⟨hd, he⟩ := hc
  have hmax : maxPersistenceSectionSize < 2 ^ 32 := by decide
  have hlen := c.length_image sha
  have hdm : c.dht.length % 2 ^ 32 = c.dht.length := Nat.mod_eq_of_lt (by omega)
  have hem : c.extra.length % 2 ^ 32 = c.extra.length := Nat.mod_eq_of_lt (by omega)
  have hview : (padSection c.dht ++ padSection c.extra).drop (round256 c.dht.length) =
      padSection c.extra := by
    rw [← length_padSection, List.drop_left]
  simp only [loadPersistenceDataI, c.image_magic, c.image_revision, c.image_dhtLen,
    c.image_extraLen, c.image_digest, c.image_body, hdm, hem, hlen]
  rw [if_neg (by omega), if_neg (by simp), if_neg (by simp), if_neg (by omega), if_neg (by omega),
    if_neg (by simp), if_neg (by simp), Contents.view, Contents.body, hview]

/-- A save with a section over the limit writes a file the loader refuses. -/
theorem loadPersistenceDataI_image_unbounded (sha : Sha256) {c : Contents} (hc : ¬c.Bounded) :
    loadPersistenceDataI sha (c.image sha) = none := by
  rw [← Option.not_isSome_iff_eq_none, Option.isSome_iff_exists]
  rintro ⟨pd, h⟩
  obtain ⟨-, h1, h2, h3⟩ := loadPersistenceDataI_eq_some h
  rw [c.image_dhtLen] at h1 h3
  rw [c.image_extraLen] at h2 h3
  rw [c.length_image] at h3
  -- The size check holds only if the 32-bit length fields were not cut off.
  have hd := round256_mono (Nat.mod_le c.dht.length (2 ^ 32))
  have he := round256_mono (Nat.mod_le c.extra.length (2 ^ 32))
  have hdeq : c.dht.length % 2 ^ 32 = c.dht.length := by
    have : round256 (c.dht.length % 2 ^ 32) = round256 c.dht.length := by omega
    rw [round256_eq, round256_eq] at this
    omega
  have heeq : c.extra.length % 2 ^ 32 = c.extra.length := by
    have : round256 (c.extra.length % 2 ^ 32) = round256 c.extra.length := by omega
    rw [round256_eq, round256_eq] at this
    omega
  rw [hdeq] at h1
  rw [heeq] at h2
  exact hc ⟨h1, h2⟩

/-- Every proper beginning of a save is refused, by its size. -/
theorem loadPersistenceDataI_of_isPrefix (sha : Sha256) {c : Contents} (hc : c.Bounded) {p : Bytes}
    (hp : p <+: c.image sha) (hne : p ≠ c.image sha) : loadPersistenceDataI sha p = none := by
  have hmax : maxPersistenceSectionSize < 2 ^ 32 := by decide
  rw [← Option.not_isSome_iff_eq_none, Option.isSome_iff_exists]
  rintro ⟨pd, h⟩
  obtain ⟨h0, -, -, h3⟩ := loadPersistenceDataI_eq_some h
  rw [readAt_of_isPrefix hp (by omega), readAt_of_isPrefix hp (by omega), c.image_dhtLen, c.image_extraLen,
    Nat.mod_eq_of_lt (lt_of_le_of_lt hc.1 hmax), Nat.mod_eq_of_lt (lt_of_le_of_lt hc.2 hmax),
    ← c.length_image sha] at h3
  exact hne (hp.eq_of_length h3)

theorem loadPersistenceDataI_append (sha : Sha256) (c : Contents) {rest : Bytes} (hr : rest ≠ []) :
    loadPersistenceDataI sha (c.image sha ++ rest) = none := by
  have hpos : 0 < rest.length := List.length_pos_iff.mpr hr
  have hlen := c.length_image sha
  have hpre : c.image sha <+: c.image sha ++ rest := List.prefix_append _ _
  rw [← Option.not_isSome_iff_eq_none, Option.isSome_iff_exists]
  rintro ⟨pd, h⟩
  obtain ⟨-, -, -, h3⟩ := loadPersistenceDataI_eq_some h
  rw [← readAt_of_isPrefix hpre (by omega), ← readAt_of_isPrefix hpre (by omega), c.image_dhtLen,
    c.image_extraLen, List.length_append, hlen] at h3
  have hd := round256_mono (Nat.mod_le c.dht.length (2 ^ 32))
  have he := round256_mono (Nat.mod_le c.extra.length (2 ^ 32))
  omega

end Carrier.Persistence
