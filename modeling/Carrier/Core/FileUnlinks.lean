import Carrier.Core.FilePaths

/-! Which files a cancelled transfer unlinks. -/
namespace Carrier.Core
open Carrier.Lib FileTracker

namespace Files

/-- Every file that was unlinked is one that the user had accepted for the same tracker. -/
def UnlinksAccepted : List FileAct → Prop
  | [] => True
  | .unlinked a path :: acts =>
    (∃ filename filepath, .updated a filename filepath true ∈ acts ∧
      path = some (acceptFullpath filename filepath)) ∧ UnlinksAccepted acts
  | _ :: acts => UnlinksAccepted acts

/-- Name and directory that `IOEX_send_file_accept` wrote last into a tracker. -/
def lastUpdate (a : ℕ) : List FileAct → Option (Bytes × Bytes)
  | [] => none
  | .updated a' filename filepath _ :: acts =>
    if a' = a then some (filename, filepath) else lastUpdate a acts
  | _ :: acts => lastUpdate a acts

/-- A name and a directory that the arrays of a tracker hold, and that `get_fullpath` joins as
`IOEX_send_file_accept` does. -/
structure AcceptKept (filename filepath : Bytes) : Prop where
  dir : filepath ≠ []
  path : filepath.length ≤ maxFileNameLen
  name : filename.length ≤ maxFileNameLen
  full : (joinPath filepath filename).length < maxFullPathLen

/-- What was written last into a tracker was accepted, with success, and is kept in it; the array of
the name is terminated. -/
def Accepted (acts : List FileAct) (t : FileTracker) : Prop :=
  ∃ p ∈ lastUpdate t.addr acts, .updated t.addr p.1 p.2 true ∈ acts ∧ AcceptKept p.1 p.2 ∧
    t.fileName.get ≠ none

/-- A transfer that we receive is cancelled only after it has been accepted. -/
def CancelsAccepted (s : Files) (ev : Event) : Prop :=
  ∀ k ∈ s.canceled ev, ∀ t ∈ s.receivers.find? (·.hasKey k.1 k.2), Accepted s.acts t

instance AcceptKept.decidable (filename filepath : Bytes) : Decidable (AcceptKept filename filepath) :=
  decidable_of_iff (filepath ≠ [] ∧ filepath.length ≤ maxFileNameLen ∧
      filename.length ≤ maxFileNameLen ∧ (joinPath filepath filename).length < maxFullPathLen)
    ⟨fun ⟨h₁, h₂, h₃, h₄⟩ => ⟨h₁, h₂, h₃, h₄⟩, fun ⟨h₁, h₂, h₃, h₄⟩ => ⟨h₁, h₂, h₃, h₄⟩⟩

instance Accepted.decidable (acts : List FileAct) (t : FileTracker) : Decidable (Accepted acts t) := by
  unfold Accepted
  infer_instance

instance CancelsAccepted.decidable (s : Files) (ev : Event) : Decidable (s.CancelsAccepted ev) := by
  unfold CancelsAccepted
  infer_instance

theorem acceptFullpath_eq {filename filepath : Bytes} (h : AcceptKept filename filepath) :
    (joinPath filepath filename).take (maxFullPathLen - 1) = acceptFullpath filename filepath := by
  obtain ⟨hdir, -, -, hfull⟩ := h
  unfold acceptFullpath joinPath at *
  rw [if_neg hdir] at *
  rw [List.take_of_length_le (by omega), List.take_of_length_le hfull.le]

/-- The arrays of a tracker hold what was written into them last, as far as it fits; that of the
directory ends in a zero. -/
structure Written (acts : List FileAct) (t : FileTracker) : Prop where
  terminated : t.filePath.full = false
  name : ∀ p ∈ lastUpdate t.addr acts, t.fileName.text = p.1.take maxFileNameLen
  path : ∀ p ∈ lastUpdate t.addr acts, t.filePath.text = p.2.take maxFileNameLen

theorem get_of_not_full {a : NameField} (h : a.full = false) : a.get = some a.text := if_pos (.inr h)

theorem text_of_get {a : NameField} (h : a.get ≠ none) : a.get = some a.text := by
  unfold NameField.get at *
  split_ifs at * with hend
  · rfl
  · exact absurd rfl h

namespace Written

variable {acts acts' : List FileAct} {t u : FileTracker}

theorem of_lastUpdate (h : Written acts t) (hacts : lastUpdate t.addr acts' = lastUpdate t.addr acts) :
    Written acts' t := by
  refine ⟨h.terminated, ?_, ?_⟩
  · rw [hacts]
    exact h.name
  · rw [hacts]
    exact h.path

theorem congr (hcore : t.core = u.core) (h : Written acts t) : Written acts u := by
  have haddr : t.core.addr = u.core.addr := by rw [hcore]
  have hname : t.core.fileName = u.core.fileName := by rw [hcore]
  have hpath : t.core.filePath = u.core.filePath := by rw [hcore]
  dsimp only [core] at haddr hname hpath
  obtain ⟨hterm, hn, hp⟩ := h
  rw [hpath] at hterm
  rw [haddr, hname] at hn
  rw [haddr, hpath] at hp
  exact ⟨hterm, hn, hp⟩

theorem of_none (hpath : t.filePath.full = false) (hnone : lastUpdate t.addr acts = none) :
    Written acts t := by
  refine ⟨hpath, fun p hp => ?_, fun p hp => ?_⟩ <;> (rw [hnone] at hp; cases hp)

theorem update (h : Written acts t) (filename filepath : Bytes) (sent : Bool) :
    Written (.updated t.addr filename filepath sent :: acts)
      (updateFileReceiverPath t filename filepath) := by
  have hlast : lastUpdate t.addr (.updated t.addr filename filepath sent :: acts) =
      some (filename, filepath) := if_pos rfl
  refine ⟨h.terminated, fun p hp => ?_, fun p hp => ?_⟩
  · cases hlast.symm.trans hp
    rfl
  · cases hlast.symm.trans hp
    rfl

theorem getFullpath (h : Written acts t) {p : Bytes × Bytes} (hp : p ∈ lastUpdate t.addr acts)
    (hkept : AcceptKept p.1 p.2) (hname : t.fileName.get ≠ none) :
    getFullpath t = some (acceptFullpath p.1 p.2) := by
  have hn := h.name p hp
  have hpath := h.path p hp
  rw [List.take_of_length_le hkept.name] at hn
  rw [List.take_of_length_le hkept.path] at hpath
  rw [Core.getFullpath, get_of_not_full h.terminated, text_of_get hname, hn, hpath,
    ← acceptFullpath_eq hkept]

end Written

/-- The invariant: the receivers are at different addresses, and hold what was written last. -/
structure Receiving (s : Files) : Prop where
  addrs : (s.receivers.map addr).Nodup
  fresh : ∀ t ∈ s.receivers, t.addr < s.nextAddr
  updates : ∀ a, s.nextAddr ≤ a → lastUpdate a s.acts = none
  written : ∀ t ∈ s.receivers, Written s.acts t
  unlinks : UnlinksAccepted s.acts

namespace Receiving

theorem trims {s s' : Files} (h : s.Receiving) (htrims : Trims s s')
    (hacts : ∀ a, lastUpdate a s'.acts = lastUpdate a s.acts)
    (hunlinks : UnlinksAccepted s'.acts) : s'.Receiving := by
  refine ⟨?_, fun t ht => ?_, fun a ha => ?_, fun t ht => ?_, hunlinks⟩
  · have hsub := (htrims.lists .receivers).map addr
    rw [List.map_map, List.map_map] at hsub
    exact h.addrs.sublist hsub
  · obtain ⟨u, hu, hcore⟩ := htrims.mem (l := .receivers) ht
    rw [htrims.nextAddr, ← core_addr, ← hcore]
    exact h.fresh u hu
  · rw [htrims.nextAddr] at ha
    rw [hacts, h.updates a ha]
  · obtain ⟨u, hu, hcore⟩ := htrims.mem (l := .receivers) ht
    exact ((h.written u hu).congr hcore).of_lastUpdate (hacts _)

theorem quiet {s s' : Files} (h : s.Receiving) (hquiet : Quiet s s') : s'.Receiving := by
  apply h.trims hquiet.trims
  · intro a
    rw [hquiet.acts]
  · rw [hquiet.acts]
    exact h.unlinks

theorem addSender {s : Files} (h : s.Receiving) (t : FileTracker) : (s.add .senders t).Receiving :=
  ⟨h.addrs, fun u hu => (h.fresh u hu).trans (Nat.lt_succ_self _),
    fun a ha => h.updates a (Nat.le_of_succ_le ha), h.written, h.unlinks⟩

theorem addReceiver {s : Files} (h : s.Receiving) {t : FileTracker} (haddr : t.addr = s.nextAddr)
    (hpath : t.filePath.full = false) : (s.add .receivers t).Receiving := by
  refine ⟨?_, fun u hu => ?_, fun a ha => h.updates a (Nat.le_of_succ_le ha), fun u hu => ?_,
    h.unlinks⟩
  · change ((s.receivers ++ [t]).map addr).Nodup
    rw [List.map_append, List.map_singleton, ← List.concat_eq_append]
    apply List.Nodup.concat _ h.addrs
    intro hmem
    obtain ⟨u, hu, heq⟩ := List.mem_map.mp hmem
    exact (h.fresh u hu).ne (heq.trans haddr)
  · obtain hu | hu := List.mem_append.mp hu
    · exact (h.fresh u hu).trans (Nat.lt_succ_self _)
    · rw [List.mem_singleton.mp hu, haddr]
      exact Nat.lt_succ_self _
  · obtain hu | hu := List.mem_append.mp hu
    · exact h.written u hu
    · rw [List.mem_singleton.mp hu]
      apply Written.of_none hpath
      rw [haddr]
      exact h.updates _ le_rfl

theorem update {s : Files} (h : s.Receiving) {i : ℕ} {t : FileTracker}
    (ht : s.receivers[i]? = some t) (filename filepath : Bytes) (sent : Bool) :
    Receiving ({ s with receivers := s.receivers.set i (updateFileReceiverPath t filename filepath) }.act
      (.updated t.addr filename filepath sent)) := by
  have hmem : t ∈ s.receivers := List.mem_of_getElem? ht
  have hother : ∀ a, a ≠ t.addr →
      lastUpdate a (.updated t.addr filename filepath sent :: s.acts) = lastUpdate a s.acts :=
    fun a ha => if_neg (Ne.symm ha)
  refine ⟨?_, fun u hu => ?_, fun a ha => ?_, fun u hu => ?_, h.unlinks⟩
  · change ((s.receivers.set i _).map addr).Nodup
    rw [map_set_of_eq (updateFileReceiverPath t filename filepath) ht rfl]
    exact h.addrs
  · obtain hu | rfl := List.mem_or_eq_of_mem_set hu
    · exact h.fresh u hu
    · exact h.fresh t hmem
  · exact (hother a ((h.fresh t hmem).trans_le ha).ne').trans (h.updates a ha)
  · obtain ⟨j, hj⟩ := List.mem_iff_getElem?.mp hu
    change (s.receivers.set i _)[j]? = some u at hj
    by_cases hij : i = j
    · have hlt : i < s.receivers.length := (List.getElem?_eq_some_iff.mp ht).1
      rw [← hij, List.getElem?_set_self hlt] at hj
      cases hj
      exact (h.written t hmem).update filename filepath sent
    · rw [List.getElem?_set_ne hij] at hj
      apply (h.written u (List.mem_of_getElem? hj)).of_lastUpdate
      -- no other receiver is at the address that is written to
      apply hother
      intro haddr
      have hlt : j < (s.receivers.map addr).length := by
        rw [List.length_map]
        exact (List.getElem?_eq_some_iff.mp hj).1
      apply hij
      apply ((List.getElem?_inj hlt h.addrs).mp _).symm
      rw [List.getElem?_map, List.getElem?_map, hj, ht]
      exact congrArg some haddr

theorem step {s s' : Files} {ev : Event} (h : s.Receiving) (hev : s.CancelsAccepted ev)
    (hchange : Change s ev s') : s'.Receiving := by
  cases hchange with
  | quiet hquiet => exact h.quiet hquiet
  | unlink hcanceled ht htrims hacts =>
    apply h.trims htrims
    · intro a
      rw [hacts]
      rfl
    · obtain ⟨p, hp, hupdated, hkept, hname⟩ := hev _ hcanceled _ ht
      rw [hacts]
      have hfull := (h.written _ (mem_of_find ht).1).getFullpath hp hkept hname
      exact ⟨⟨p.1, p.2, hupdated, hfull⟩, h.unlinks⟩
  | serve hknown hlength ht hkey htrims hacts =>
    apply h.trims htrims
    · intro a
      rw [hacts]
      rfl
    · rw [hacts]
      exact h.unlinks
  | @request f n fullpath =>
    exact h.trims (trims_act s (.requested f n fullpath)) (fun a => rfl) h.unlinks
  | @addSender f n fullpath =>
    have hrequested : Receiving (s.act (.requested f n fullpath)) :=
      h.trims (trims_act s _) (fun a => rfl) h.unlinks
    exact hrequested.addSender _
  | addReceiver hknown hquiet =>
    exact (h.quiet hquiet).addReceiver rfl rfl
  | update hquiet ht => exact (h.quiet hquiet).update ht _ _ _

end Receiving

/-- As long as no transfer is cancelled that has not been accepted, only accepted files are
unlinked. -/
theorem exec_unlinksAccepted {asserts : Bool} {events : List Event} {s : Files}
    (haccepted : Along (Files.step asserts) CancelsAccepted init events)
    (h : exec (Files.step asserts) init events = some s) : UnlinksAccepted s.acts := by
  have hinit : init.Receiving := ⟨by simp [init], by simp [init], fun _ _ => rfl, by simp [init],
    trivial⟩
  have hreceiving : s.Receiving := by
    apply exec_invariant_along _ hinit haccepted h
    intro s ev s' hs hev hs'
    obtain ⟨-, rfl⟩ := step_eq_some.mp hs'
    exact hs.step hev (handle_change s ev)
  exact hreceiving.unlinks

/-- A file that is accepted into a directory and then cancelled by the peer. -/
def acceptedThenCanceled : List Event :=
  [.addFriend 0 [49], .fileRequest 0 65536 [120] true,
    .sendFileAccept 0 65536 [121] [47, 97] true true, .fileControl 0 [] 65536 .cancel]

theorem acceptedThenCanceled_unlinksAccepted : ∃ s,
    exec (Files.step true) init acceptedThenCanceled = some s ∧ UnlinksAccepted s.acts ∧
      s.acts.head? = some (.unlinked 0 (some [47, 97, 47, 121])) := by
  obtain ⟨s, hs⟩ := Option.isSome_iff_exists.mp
    (show (exec (Files.step true) init acceptedThenCanceled).isSome by rfl)
  have haccepted : Along (Files.step true) CancelsAccepted init acceptedThenCanceled := by decide
  refine ⟨s, hs, exec_unlinksAccepted haccepted hs, ?_⟩
  cases hs
  rfl

/-- A peer that offers a file and takes the offer back has us unlink the name it has chosen, here
`/tmp/../a`. -/
theorem canceled_not_unlinksAccepted : ∃ s,
    exec (Files.step true) init [.addFriend 0 [49], .fileRequest 0 65536 [46, 46, 47, 97] true,
      .fileControl 0 [] 65536 .cancel] = some s ∧
      s.acts = [.unlinked 0 (some [47, 116, 109, 112, 47, 46, 46, 47, 97])] ∧
      ¬UnlinksAccepted s.acts := by
  refine ⟨_, rfl, rfl, ?_⟩
  rintro ⟨⟨filename, filepath, hmem, -⟩, -⟩
  cases hmem

/-- A remote name that is too long fills the last byte of its array, and a name of all other bytes that
is accepted later leaves it there: the array is not terminated. -/
theorem get_updateField_copyField {name filename : Bytes} (hname : maxFileNameLen < name.length)
    (hfilename : maxFileNameLen ≤ filename.length) :
    (updateField (copyField name) filename).get = none := by
  unfold updateField copyField NameField.get
  rw [if_neg]
  simp [hname, hfilename]

end Files

end Carrier.Core
