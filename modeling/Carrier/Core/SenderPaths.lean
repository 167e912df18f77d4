import Carrier.Core.FilePaths

/-! What becomes of the path of a sender: `add_new_file_sender` splits it at its last slash, and
`get_fullpath` joins the parts. -/
namespace Carrier.Core
open Carrier.Lib Files

/-- A path with one slash in place of several in a row. -/
def squeeze : Bytes → Bytes
  | [] => []
  | b :: rest =>
    if b = slash ∧ rest.head? = some slash then squeeze rest else b :: squeeze rest

/-- Both paths name the same file in every directory: several slashes in a row count as one. -/
def SameFile (p q : Bytes) : Prop := squeeze p = squeeze q

instance (p q : Bytes) : Decidable (SameFile p q) := inferInstanceAs (Decidable (_ = _))

/-- A request for `p` comes to its end, the directory and the name of the tracker that it adds fit, and
give a path of the same file. -/
def PathSurvives (asserts : Bool) (s : Files) (f n : ℕ) (p : Bytes) : Prop :=
  ∃ s', s.step asserts (.sendFileRequest f p (some n) true) = some s' ∧
    ∃ t ∈ s'.senders.getLast?,
      t.fileName.get ≠ none ∧ t.filePath.get ≠ none ∧ ∃ q, getFullpath t = some q ∧ SameFile q p

/-- A path that is not in the root directory, whose directory and name fit, and that `get_fullpath`
does not cut off. -/
structure Survivable (p : Bytes) : Prop where
  not_root : slash ∈ p → dirPart p ≠ []
  name : (namePart p).length ≤ maxFileNameLen
  dir : (dirPart p).length ≤ maxFileNameLen
  room : (namePart p).length = maxFileNameLen → (dirPart p).length = maxFileNameLen →
    (dirPart p).getLast? = some slash

theorem squeeze_of_not_mem {x : Bytes} (hx : slash ∉ x) : squeeze x = x := by
  induction x with
  | nil => rfl
  | cons b x ih =>
    have hb : b ≠ slash := fun h => hx (h ▸ List.mem_cons_self)
    rw [squeeze, if_neg (fun h => hb h.1), ih (fun h => hx (List.mem_cons_of_mem b h))]

theorem squeeze_append {x : Bytes} (hx : slash ∉ x) (p : Bytes) :
    squeeze (p ++ x) = squeeze p ++ x := by
  induction p with
  | nil => exact squeeze_of_not_mem hx
  | cons b p ih =>
    have hsame : (p ++ x).head? = some slash ↔ p.head? = some slash := by
      cases p with
      | nil => exact iff_of_false (fun h => hx (List.mem_of_mem_head? h)) nofun
      | cons c p => rfl
    rw [List.cons_append, squeeze, squeeze]
    simp only [hsame]
    split_ifs
    · exact ih
    · exact congrArg (b :: ·) ih

theorem squeeze_slash_slash (p x : Bytes) :
    squeeze (p ++ slash :: slash :: x) = squeeze (p ++ slash :: x) := by
  induction p with
  | nil =>
    rw [List.nil_append, squeeze, if_pos ⟨rfl, rfl⟩]
    rfl
  | cons b p ih =>
    have hsame : (p ++ slash :: slash :: x).head? = (p ++ slash :: x).head? := by
      cases p <;> rfl
    rw [List.cons_append, List.cons_append, squeeze, squeeze, hsame, ih]

/-- Paths that differ in the length of what follows a slash name different files. -/
theorem not_sameFile {x y : Bytes} (hx : slash ∉ x) (hy : slash ∉ y) (hlen : x.length ≠ y.length)
    (p : Bytes) : ¬SameFile (p ++ x) (p ++ y) := by
  intro h
  have hsqueeze : squeeze p ++ x = squeeze p ++ y := by
    rw [← squeeze_append hx, ← squeeze_append hy]
    exact h
  exact hlen (congrArg List.length (List.append_cancel_left hsqueeze))

theorem slash_not_mem_namePart (p : Bytes) : slash ∉ namePart p := by
  intro h
  have htaken := List.mem_takeWhile_imp (List.mem_reverse.mp h)
  simp at htaken

/-- Joined again, the parts are a path of the same file, unless they come from the root directory. -/
theorem sameFile_joinPath {p : Bytes} (h : slash ∈ p → dirPart p ≠ []) :
    SameFile (joinPath (dirPart p) (namePart p)) p := by
  by_cases hslash : slash ∈ p
  · have hsplit := dirPart_append_namePart hslash
    unfold joinPath
    rw [if_neg (h hslash)]
    split_ifs with hlast
    · obtain ⟨d, hd⟩ := List.getLast?_eq_some_iff.mp hlast
      rw [hd, List.append_assoc, List.singleton_append] at hsplit
      have hsqueeze := congrArg squeeze hsplit
      rw [squeeze_slash_slash] at hsqueeze
      rw [hd, List.append_assoc]
      exact hsqueeze
    · rw [hsplit]
      rfl
  · obtain ⟨hname, hdir⟩ := namePart_of_not_mem hslash
    rw [hname, hdir]
    rfl

theorem not_sameFile_root {p : Bytes} (hslash : slash ∈ p) (hroot : dirPart p = []) :
    ¬SameFile (namePart p) p := by
  have hname := slash_not_mem_namePart p
  have hsplit : [slash] ++ namePart p = p := by
    have hjoin := dirPart_append_namePart hslash
    rwa [hroot] at hjoin
  have hsqueeze : squeeze p = [slash] ++ namePart p := by
    calc squeeze p = squeeze ([slash] ++ namePart p) := by rw [hsplit]
      _ = [slash] ++ namePart p := squeeze_append hname [slash]
  intro h
  have hsame : namePart p = [slash] ++ namePart p := by
    rw [← hsqueeze, ← squeeze_of_not_mem hname]
    exact h
  have hlen := congrArg List.length hsame
  rw [List.length_append] at hlen
  exact absurd hlen (by simp)

theorem not_sameFile_cut {p : Bytes} (hslash : slash ∈ p) (hname : namePart p ≠ []) :
    ¬SameFile (dirPart p ++ slash :: (namePart p).dropLast) p := by
  have hfree := slash_not_mem_namePart p
  have hlen : (namePart p).dropLast.length ≠ (namePart p).length := by
    have hpos := List.length_pos_of_ne_nil hname
    rw [List.length_dropLast]
    omega
  have hcut := not_sameFile (fun h => hfree (List.mem_of_mem_dropLast h)) hfree hlen
    (dirPart p ++ [slash])
  rw [List.append_assoc, List.append_assoc] at hcut
  have hsplit := dirPart_append_namePart hslash
  rw [List.singleton_append, List.singleton_append, hsplit] at hcut
  exact hcut

/-- Only two full fields with a slash between them are too long for the buffer. -/
theorem length_joinPath {dir name : Bytes} (hname : name.length ≤ maxFileNameLen)
    (hdir : dir.length ≤ maxFileNameLen) (hroom : name.length = maxFileNameLen →
      dir.length = maxFileNameLen → dir.getLast? = some slash) :
    (joinPath dir name).length ≤ maxFullPathLen - 1 := by
  unfold joinPath
  unfold maxFullPathLen maxFileNameLen at *
  split_ifs with hempty hlast
  · omega
  · rw [List.length_append]
    omega
  · have hnot : ¬(name.length = 511 ∧ dir.length = 511) := fun h => hlast (hroom h.1 h.2)
    rw [List.length_append, List.length_cons]
    omega

theorem getFullpath_fits {p : Bytes} (hname : (namePart p).length ≤ maxFileNameLen)
    (hdir : (dirPart p).length ≤ maxFileNameLen) (addr f n : ℕ) :
    getFullpath (newSender addr f n p) =
      some ((joinPath (dirPart p) (namePart p)).take (maxFullPathLen - 1)) := by
  simp only [getFullpath, newSender, get_copyField hname, get_copyField hdir]

/-- A path of two full fields comes back without the last byte of its name. -/
theorem take_joinPath {dir name : Bytes} (hname : name.length = maxFileNameLen)
    (hdir : dir.length = maxFileNameLen) (hlast : dir.getLast? ≠ some slash) :
    (joinPath dir name).take (maxFullPathLen - 1) = dir ++ slash :: name.dropLast := by
  have hne : dir ≠ [] := by
    rintro rfl
    cases hdir
  have hlen : maxFullPathLen - 1 = dir.length + (1 + (name.length - 1)) := by
    rw [hname, hdir]
    rfl
  rw [joinPath, if_neg hne, if_neg hlast, hlen, List.take_length_add_append, Nat.add_comm 1,
    List.take_succ_cons, List.dropLast_eq_take]

theorem pathSurvives_of_survivable {p : Bytes} (h : Survivable p) (asserts : Bool) (s : Files)
    (f n : ℕ) : PathSurvives asserts s f n p := by
  refine ⟨_, step_eq_some.mpr ⟨h.dir, rfl⟩, newSender s.nextAddr f n p, List.getLast?_concat, ?_, ?_,
    _, getFullpath_fits h.name h.dir _ f n, ?_⟩
  · simp [newSender, get_copyField h.name]
  · simp [newSender, get_copyField h.dir]
  · rw [List.take_of_length_le (length_joinPath h.name h.dir h.room)]
    exact sameFile_joinPath h.not_root

theorem length_le_of_get {s : Bytes} (h : (copyField s).get ≠ none) : s.length ≤ maxFileNameLen := by
  by_contra hlong
  apply h
  have hlt := not_le.mp hlong
  unfold copyField NameField.get
  rw [if_neg]
  simp [hlt, hlt.le]

/-- A path survives exactly if it is not in the root directory, its parts fit, and not both fill
their fields with no slash to spare. -/
theorem pathSurvives_iff (asserts : Bool) (s : Files) (f n : ℕ) (p : Bytes) :
    PathSurvives asserts s f n p ↔ Survivable p := by
  constructor
  · rintro ⟨s', hs', t, ht, hname, -, q, hq, hsame⟩
    obtain ⟨hdir, rfl⟩ := step_eq_some.mp hs'
    have hnew : t = newSender s.nextAddr f n p := by
      have hlast : (s.sendFileRequest f p (some n) true).senders.getLast? =
          some (newSender s.nextAddr f n p) := List.getLast?_concat
      exact Option.some.inj (ht.symm.trans hlast)
    have hdir : (dirPart p).length ≤ maxFileNameLen := hdir
    have hname : (namePart p).length ≤ maxFileNameLen := by
      rw [hnew] at hname
      exact length_le_of_get hname
    rw [hnew, getFullpath_fits hname hdir, Option.some_inj] at hq
    refine ⟨?_, hname, hdir, ?_⟩
    · intro hslash hroot
      apply not_sameFile_root hslash hroot
      have hjoin : joinPath (dirPart p) (namePart p) = namePart p := if_pos hroot
      rw [hjoin, List.take_of_length_le (hname.trans (by decide))] at hq
      rw [hq]
      exact hsame
    · intro hfullName hfullDir
      by_contra hlast
      have hslash : slash ∈ p := by
        by_contra hnot
        rw [(namePart_of_not_mem hnot).2] at hfullDir
        cases hfullDir
      have hne : namePart p ≠ [] := by
        intro hempty
        rw [hempty] at hfullName
        cases hfullName
      apply not_sameFile_cut hslash hne
      rw [← take_joinPath hfullName hfullDir hlast, hq]
      exact hsame
  · intro h
    exact pathSurvives_of_survivable h asserts s f n

/-- A file in the root directory. -/
theorem root_not_pathSurvives : ¬PathSurvives true .init 0 0 [slash, 120] := by
  rintro ⟨s', hs', t, ht, -, -, q, hq, hsame⟩
  cases hs'
  cases ht
  cases hq
  exact absurd hsame (by decide)

example : Survivable [97, slash, slash, 120] := ⟨by decide, by decide, by decide, by decide⟩

end Carrier.Core
