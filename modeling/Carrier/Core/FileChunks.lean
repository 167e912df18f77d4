import Carrier.Core.FileUnlinks

/-! The bytes that received chunks put into a file. -/
namespace Carrier.Core
open Carrier.Lib FileTracker

/-- The transfers, and the files by their paths. -/
structure Downloads where
  files : Files
  disk : Bytes → Option Bytes

/-- `fopen` with `"ab"`, a write and `fclose`: whatever the position that `fseek` sets, the write
goes to the end. -/
def appendTo (disk : Bytes → Option Bytes) (path data : Bytes) : Bytes → Option Bytes :=
  Function.update disk path (some ((disk path).getD [] ++ data))

/-- What happens in one transfer that we receive: `IOEX_send_file_seek`, and chunks from the peer, with
what lies behind the friend number on the stack of the callback. -/
inductive DownloadEvent where
  | seek (position : ℕ)
  | chunk (behind : Bytes) (position : ℕ) (data : Bytes)
  deriving DecidableEq

namespace Downloads

/-- `IOEX_send_file_accept` of a path that can be opened; `is_file_writable` opens it to append
nothing. -/
def sendFileAccept (d : Downloads) (f n : ℕ) (filename filepath : Bytes) : Downloads :=
  ⟨d.files.sendFileAccept f n filename filepath true true,
    appendTo d.disk (acceptFullpath filename filepath) []⟩

/-- `notify_file_chunk_receive_cb`; `none` if the tracker has no definite path. -/
def notifyFileChunkReceiveCb (d : Downloads) (f : FriendArg) (n : ℕ) (data : Bytes) :
    Option Downloads :=
  match d.files.friendsGet f with
  | (none, _) => some d
  | (some _, files) =>
    let (i, files) := files.find .receivers f.number n
    if data = [] then some { d with files := files.remove .receivers i }
    else
      match i.bind (files.receivers[·]?) with
      | none => some { d with files := files }
      | some t => (getFullpath t).map (fun path => ⟨files, appendTo d.disk path data⟩)

def step (f n : ℕ) (d : Downloads) : DownloadEvent → Option Downloads
  | .seek _ => some { d with files := (d.files.find .receivers f n).2 }
  | .chunk behind _ data => d.notifyFileChunkReceiveCb ⟨f, behind⟩ n data

/-- Chunks in the order in which they are delivered. -/
def deliveries (stack : ℕ → Bytes) (chunks : List (ℕ × Bytes)) : List DownloadEvent :=
  chunks.mapIdx (fun i c => .chunk (stack i) c.1 c.2)

/-- A transfer that is accepted and maybe resumed, its chunks, and the empty one at its end. -/
def download (d : Downloads) (stack : ℕ → Bytes) (f n : ℕ) (filename filepath : Bytes)
    (seek : Option ℕ) (chunks : List (ℕ × Bytes)) (size : ℕ) : Option Downloads :=
  exec (step f n) (d.sendFileAccept f n filename filepath)
    (seek.toList.map .seek ++ deliveries stack chunks ++ [.chunk (stack chunks.length) size []])

/-- The bytes that are at a path before the transfer. -/
def held (d : Downloads) (filename filepath : Bytes) : Bytes :=
  (d.disk (acceptFullpath filename filepath)).getD []

/-- After the transfer the accepted path holds the sender's file. -/
def Receives (d : Downloads) (stack : ℕ → Bytes) (f n : ℕ) (filename filepath : Bytes)
    (seek : Option ℕ) (chunks : List (ℕ × Bytes)) (file : Bytes) : Prop :=
  ∃ d', d.download stack f n filename filepath seek chunks file.length = some d' ∧
    d'.disk (acceptFullpath filename filepath) = some file

/-- Chunks of a file that together cover it from `start` on. -/
structure Covers (file : Bytes) (start : ℕ) (chunks : List (ℕ × Bytes)) : Prop where
  nonempty : ∀ c ∈ chunks, c.2 ≠ []
  part : ∀ c ∈ chunks, c.2 = (file.drop c.1).take c.2.length
  covered : ∀ i, start ≤ i → i < file.length → ∃ c ∈ chunks, c.1 ≤ i ∧ i < c.1 + c.2.length

/-- The chunks begin where the file that is held ends, each begins where the one before it ends, and
the last one ends the file. -/
def Consecutive (file : Bytes) : ℕ → List (ℕ × Bytes) → Prop
  | start, [] => start = file.length
  | start, c :: chunks => c.1 = start ∧ Consecutive file (start + c.2.length) chunks

end Downloads

namespace Files

/-- The friend is found whatever lies behind its number. -/
def Known (s : Files) (f : ℕ) : Prop := ∀ behind, s.friends (FriendArg.code ⟨f, behind⟩) ≠ none

/-- The first receiver with a key, up to its count, and that its friend is known. -/
structure Receives (s : Files) (f n : ℕ) (t : FileTracker) : Prop where
  friend : s.Known f
  receiver : (s.receivers.find? (·.hasKey f n)).map core = some t.core

variable {s : Files} {f n : ℕ} {t : FileTracker}

/-- Lists that only differ in counts have the same first tracker with a key. -/
theorem find?_core {l l' : List FileTracker} (h : l'.map core = l.map core) (f n : ℕ) :
    (l'.find? (·.hasKey f n)).map core = (l.find? (·.hasKey f n)).map core := by
  have hcore : ∀ l : List FileTracker,
      (l.map core).find? (·.hasKey f n) = (l.find? (·.hasKey f n)).map core := fun l => List.find?_map
  rw [← hcore, ← hcore, h]

theorem friends_find (s : Files) (l : FileList) (f n : ℕ) : (s.find l f n).2.friends = s.friends :=
  setList_friends ..

theorem known_addFriend (s : Files) {f : ℕ} (hzero : HasZeroByte (BitVec.ofNat 32 f))
    (userid : Bytes) : (s.addFriend f userid).Known f := by
  intro behind
  have hcode : FriendArg.code ⟨f, behind⟩ = FriendArg.code ⟨f, userid⟩ :=
    code_of_hasZeroByte hzero rfl
  rw [addFriend, putFriend_friends, FriendInfo.arg, if_pos hcode]
  exact Option.some_ne_none _

theorem Known.notifyFileRequestCb (h : s.Known f) (a : FriendArg) (n : ℕ) (filename : Bytes)
    (alloc : Bool) : (s.notifyFileRequestCb a n filename alloc).Known f := by
  intro behind
  rw [Files.notifyFileRequestCb, withFriend, Files.friendsGet]
  cases hfound : s.friends a.code with
  | none => exact h behind
  | some fi =>
    have hput : (s.putFriend a.code (some { fi with refs := fi.refs + 1 })).friends
        (FriendArg.code ⟨f, behind⟩) ≠ none := by
      rw [putFriend_friends]
      split_ifs
      · exact Option.some_ne_none _
      · exact h behind
    cases alloc
    · exact hput
    · exact hput

theorem Receives.find (h : s.Receives f n t) : (s.find .receivers f n).2.Receives f n t := by
  have hcores : (s.find .receivers f n).2.receivers.map core = s.receivers.map core :=
    core_findFileTracker f n s.receivers
  refine ⟨?_, ?_⟩
  · unfold Known
    rw [friends_find]
    exact h.friend
  · rw [find?_core hcores]
    exact h.receiver

theorem Receives.friendsGet (h : s.Receives f n t) (behind : Bytes) :
    ∃ fi s', s.friendsGet ⟨f, behind⟩ = (some fi, s') ∧ s'.Receives f n t := by
  obtain ⟨fi, hfi⟩ := Option.ne_none_iff_exists'.mp (h.friend behind)
  have hget : s.friendsGet ⟨f, behind⟩ = (some { fi with refs := fi.refs + 1 },
      s.putFriend (FriendArg.code ⟨f, behind⟩) (some { fi with refs := fi.refs + 1 })) := by
    rw [Files.friendsGet, hfi]
  refine ⟨_, _, hget, ?_, h.receiver⟩
  intro other
  rw [putFriend_friends]
  split_ifs
  · exact Option.some_ne_none _
  · exact h.friend other

/-- The tracker that a lookup finds, but for its count. -/
theorem Receives.found (h : s.Receives f n t) :
    ∃ t', (s.find .receivers f n).1.bind ((s.find .receivers f n).2.receivers[·]?) = some t' ∧
      t'.core = t.core := by
  have hfound := findFileTracker_core f n s.receivers
  rw [h.receiver] at hfound
  exact Option.map_eq_some_iff.mp hfound

theorem findFileTracker_before {l : List FileTracker} {i : ℕ} (h : (findFileTracker f n l).1 = some i) :
    ∀ u ∈ (findFileTracker f n l).2.take i, u.hasKey f n = false := by
  induction l generalizing i with
  | nil => cases h
  | cons u l ih =>
    unfold findFileTracker at h ⊢
    by_cases hu : u.hasKey f n = true
    · rw [if_pos hu] at h ⊢
      cases h
      exact fun _ hv => absurd hv List.not_mem_nil
    · rw [if_neg hu] at h ⊢
      obtain ⟨k, hk, rfl⟩ := Option.map_eq_some_iff.mp h
      intro v hv
      rcases List.mem_cons.mp hv with rfl | hv
      · exact Bool.eq_false_iff.mpr hu
      · exact ih hk v hv

/-- The new name and path are written into the tracker of the transfer. -/
theorem Receives.sendFileAccept (h : s.Receives f n t) (filename filepath : Bytes) (sent : Bool) :
    (s.sendFileAccept f n filename filepath true sent).Receives f n
      (updateFileReceiverPath t filename filepath) := by
  obtain ⟨t', ht', hcore⟩ := h.found
  obtain ⟨i, hi, hget⟩ := Option.bind_eq_some_iff.mp ht'
  have hfriend := h.find.friend
  have hbefore := findFileTracker_before (l := s.receivers) hi
  have hupdate : (updateFileReceiverPath t' filename filepath).core =
      (updateFileReceiverPath t filename filepath).core := by
    have hname : t'.core.fileName = t.core.fileName := by rw [hcore]
    have hpath : t'.core.filePath = t.core.filePath := by rw [hcore]
    dsimp only [core] at hname hpath
    unfold updateFileReceiverPath
    rw [hname, hpath]
    simp only [core, FileTracker.mk.injEq] at hcore ⊢
    tauto
  have hkey : (updateFileReceiverPath t' filename filepath).hasKey f n = true := by
    have hfirst := h.receiver
    obtain ⟨u, hu, hucore⟩ := Option.map_eq_some_iff.mp hfirst
    have hukey : u.key = (f, n) := (mem_of_find hu).2
    rw [hasKey_iff, ← hukey, ← core_key u, hucore, ← hcore]
    rfl
  unfold Files.sendFileAccept
  rw [if_neg (by simp)]
  dsimp only
  rw [hi, Option.bind_some, hget]
  refine ⟨hfriend, ?_⟩
  change (((s.find .receivers f n).2.receivers.set i _).find? _).map core = _
  have hlt : i < (s.find .receivers f n).2.receivers.length := (List.getElem?_eq_some_iff.mp hget).1
  have hnone : ((s.find .receivers f n).2.receivers.take i).find? (·.hasKey f n) = none := by
    rw [List.find?_eq_none]
    intro u hu
    rw [hbefore u hu]
    exact Bool.false_ne_true
  rw [List.set_eq_take_append_cons_drop, if_pos hlt, List.find?_append, hnone, Option.none_or,
    List.find?_cons, hkey, Option.map_some, hupdate]

end Files

namespace Downloads

section

variable {d : Downloads} {f n : ℕ} {t : FileTracker} {filename filepath : Bytes} {seek : Option ℕ}
  {chunks : List (ℕ × Bytes)} {file path : Bytes} (stack : ℕ → Bytes)

/-- A chunk is put at the end of the file that its tracker stands for. -/
theorem notifyFileChunkReceiveCb_eq (h : d.files.Receives f n t) (behind : Bytes) {data : Bytes}
    (hdata : data ≠ []) :
    ∃ files, d.notifyFileChunkReceiveCb ⟨f, behind⟩ n data =
        (getFullpath t).map (fun path => ⟨files, appendTo d.disk path data⟩) ∧
      files.Receives f n t := by
  obtain ⟨fi, s, hs, hreceives⟩ := h.friendsGet behind
  obtain ⟨t', ht', hcore⟩ := hreceives.found
  have hpath : getFullpath t' = getFullpath t := by
    rw [← getFullpath_core, hcore, getFullpath_core]
  refine ⟨(s.find .receivers f n).2, ?_, hreceives.find⟩
  unfold notifyFileChunkReceiveCb
  rw [hs]
  dsimp only
  rw [if_neg hdata, ht']
  dsimp only
  rw [hpath]

theorem notifyFileChunkReceiveCb_nil (d : Downloads) (f : FriendArg) (n : ℕ) :
    ∃ files, d.notifyFileChunkReceiveCb f n [] = some ⟨files, d.disk⟩ := by
  unfold notifyFileChunkReceiveCb
  generalize d.files.friendsGet f = r
  obtain ⟨fi, files⟩ := r
  cases fi with
  | none => exact ⟨_, rfl⟩
  | some fi => exact ⟨_, rfl⟩

theorem appendTo_of_some {disk : Bytes → Option Bytes} {p c : Bytes} (h : disk p = some c)
    (path data : Bytes) :
    appendTo disk path data p = some (c ++ if p = path then data else []) := by
  unfold appendTo
  by_cases hp : p = path
  · rw [if_pos hp, ← hp, h, Function.update_self, Option.getD_some]
  · rw [if_neg hp, Function.update_of_ne hp, h, List.append_nil]

theorem deliveries_cons (c : ℕ × Bytes) (chunks : List (ℕ × Bytes)) :
    deliveries stack (c :: chunks) =
      .chunk (stack 0) c.1 c.2 :: deliveries (fun i => stack (i + 1)) chunks := List.mapIdx_cons

/-- All chunks go to the end of the file, one behind the other. -/
theorem exec_chunks (h : d.files.Receives f n t) (hpath : getFullpath t = some path)
    (hdata : ∀ c ∈ chunks, c.2 ≠ []) :
    ∃ d', exec (step f n) d (deliveries stack chunks) = some d' ∧
      ∀ p c, d.disk p = some c →
        d'.disk p = some (c ++ if p = path then (chunks.map Prod.snd).flatten else []) := by
  induction chunks generalizing d stack with
  | nil => exact ⟨d, rfl, fun p c hc => by simpa using hc⟩
  | cons chunk chunks ih =>
    obtain ⟨files, hstep, hreceives⟩ :=
      notifyFileChunkReceiveCb_eq h (stack 0) (hdata chunk List.mem_cons_self)
    rw [hpath, Option.map_some] at hstep
    obtain ⟨d', hexec, hdisk⟩ := ih (fun i => stack (i + 1))
      (d := ⟨files, appendTo d.disk path chunk.2⟩) hreceives
      (fun c hc => hdata c (List.mem_cons_of_mem _ hc))
    refine ⟨d', ?_, fun p c hc => ?_⟩
    · rw [deliveries_cons]
      exact exec_cons_eq_some.mpr ⟨_, hstep, hexec⟩
    · rw [hdisk p _ (appendTo_of_some hc path chunk.2)]
      by_cases hp : p = path
      · simp [hp]
      · simp [hp]

/-- The first chunk of a tracker without a definite path goes nowhere. -/
theorem exec_chunks_none (h : d.files.Receives f n t) (hpath : getFullpath t = none)
    (hdata : ∀ c ∈ chunks, c.2 ≠ []) (hchunks : chunks ≠ []) :
    exec (step f n) d (deliveries stack chunks) = none := by
  obtain ⟨chunk, rest, rfl⟩ := List.exists_cons_of_ne_nil hchunks
  obtain ⟨files, hstep, -⟩ :=
    notifyFileChunkReceiveCb_eq h (stack 0) (hdata chunk List.mem_cons_self)
  rw [hpath, Option.map_none] at hstep
  rw [deliveries_cons, exec_cons, step, hstep, Option.bind_none]

/-- A transfer up to its first chunk: the tracker has the new path, and the file is as it was. -/
theorem exec_seek (hfriend : d.files.Known f)
    (ht : d.files.receivers.find? (·.hasKey f n) = some t) (filename filepath : Bytes)
    (seek : Option ℕ) :
    ∃ d₁, exec (step f n) (d.sendFileAccept f n filename filepath) (seek.toList.map .seek) =
        some d₁ ∧ d₁.files.Receives f n (updateFileReceiverPath t filename filepath) ∧
      d₁.disk (acceptFullpath filename filepath) = some (d.held filename filepath) := by
  have hreceives : d.files.Receives f n t := ⟨hfriend, by rw [ht]; rfl⟩
  have haccepted := hreceives.sendFileAccept filename filepath true
  have hheld : (d.sendFileAccept f n filename filepath).disk (acceptFullpath filename filepath) =
      some (d.held filename filepath) := by
    simp [Downloads.sendFileAccept, appendTo, held]
  cases seek with
  | none => exact ⟨_, rfl, haccepted, hheld⟩
  | some position => exact ⟨_, rfl, haccepted.find, hheld⟩

/-- After the transfer, the accepted path holds what it held before and, if the tracker stands for
that path, the data of all chunks in the order of their delivery. -/
theorem disk_download (hfriend : d.files.Known f)
    (ht : d.files.receivers.find? (·.hasKey f n) = some t)
    (hpath : getFullpath (updateFileReceiverPath t filename filepath) = some path ∨ chunks = [])
    (hdata : ∀ c ∈ chunks, c.2 ≠ []) (seek : Option ℕ) (size : ℕ) :
    ∃ d', d.download stack f n filename filepath seek chunks size = some d' ∧
      d'.disk (acceptFullpath filename filepath) = some (d.held filename filepath ++
        if acceptFullpath filename filepath = path then (chunks.map Prod.snd).flatten else []) := by
  obtain ⟨d₁, hseek, hreceives, hheld⟩ := exec_seek hfriend ht filename filepath seek
  obtain ⟨d₂, hchunks, hdisk⟩ : ∃ d₂, exec (step f n) d₁ (deliveries stack chunks) = some d₂ ∧
      d₂.disk (acceptFullpath filename filepath) = some (d.held filename filepath ++
        if acceptFullpath filename filepath = path then (chunks.map Prod.snd).flatten else []) := by
    obtain hpath | rfl := hpath
    · obtain ⟨d₂, hchunks, hdisk⟩ := exec_chunks stack hreceives hpath hdata
      exact ⟨d₂, hchunks, hdisk _ _ hheld⟩
    · exact ⟨d₁, rfl, by simpa using hheld⟩
  obtain ⟨files, hlast⟩ := notifyFileChunkReceiveCb_nil d₂ ⟨f, stack chunks.length⟩ n
  refine ⟨⟨files, d₂.disk⟩, ?_, hdisk⟩
  rw [download, List.append_assoc, exec_append, hseek, Option.bind_some, exec_append, hchunks,
    Option.bind_some]
  exact exec_cons_eq_some.mpr ⟨_, hlast, rfl⟩

/-- A run that ends has put the tracker's path together, if there was a chunk to write. -/
theorem getFullpath_of_download {size : ℕ} {d' : Downloads} (hfriend : d.files.Known f)
    (ht : d.files.receivers.find? (·.hasKey f n) = some t) (hdata : ∀ c ∈ chunks, c.2 ≠ [])
    (hchunks : chunks ≠ [])
    (h : d.download stack f n filename filepath seek chunks size = some d') :
    ∃ path, getFullpath (updateFileReceiverPath t filename filepath) = some path := by
  cases hpath : getFullpath (updateFileReceiverPath t filename filepath) with
  | some path => exact ⟨path, rfl⟩
  | none =>
    obtain ⟨d₁, hseek, hreceives, -⟩ := exec_seek hfriend ht filename filepath seek
    rw [download, List.append_assoc, exec_append, hseek, Option.bind_some, exec_append,
      exec_chunks_none stack hreceives hpath hdata hchunks, Option.bind_none] at h
    cases h

/-- What is written makes the file: what was held is its beginning, and the chunks are the rest. -/
theorem held_append_iff (held : Bytes) :
    some (held ++ (chunks.map Prod.snd).flatten) = some file ↔
      held <+: file ∧ (chunks.map Prod.snd).flatten = file.drop held.length := by
  rw [Option.some.injEq]
  constructor
  · intro heq
    refine ⟨⟨_, heq⟩, ?_⟩
    rw [← heq, List.drop_left]
  · rintro ⟨⟨rest, hrest⟩, hflat⟩
    rw [← hrest, List.drop_left] at hflat
    rw [hflat, hrest]

/-- The accepted path holds the sender's file after the transfer exactly if there are no chunks and it
held the file before, or the strings of the tracker are terminated, and either the tracker stands for
the path, what the path held before is the beginning of the file, and the data of the chunks in the
order of their delivery are the rest, or the tracker stands for another path and this one held the
file before. -/
theorem receives_iff (hfriend : d.files.Known f)
    (ht : d.files.receivers.find? (·.hasKey f n) = some t) (hdata : ∀ c ∈ chunks, c.2 ≠ [])
    (seek : Option ℕ) :
    d.Receives stack f n filename filepath seek chunks file ↔
      if chunks = [] then d.held filename filepath = file
      else ∃ path, getFullpath (updateFileReceiverPath t filename filepath) = some path ∧
        if acceptFullpath filename filepath = path then
          d.held filename filepath <+: file ∧
            (chunks.map Prod.snd).flatten = file.drop (d.held filename filepath).length
        else d.held filename filepath = file := by
  have hrun (path : Bytes)
      (hpath : getFullpath (updateFileReceiverPath t filename filepath) = some path ∨ chunks = []) :
      d.Receives stack f n filename filepath seek chunks file ↔
        some (d.held filename filepath ++ if acceptFullpath filename filepath = path then
          (chunks.map Prod.snd).flatten else []) = some file := by
    obtain ⟨d', hrun, hdisk⟩ := disk_download stack hfriend ht hpath hdata seek file.length
    rw [← hdisk]
    constructor
    · rintro ⟨d'', hrun', hfile⟩
      rw [hrun] at hrun'
      cases hrun'
      exact hfile
    · exact fun hfile => ⟨d', hrun, hfile⟩
  split_ifs with hchunks
  · rw [hrun [] (.inr hchunks), hchunks]
    simp
  · constructor
    · rintro ⟨d', hd', hfile⟩
      obtain ⟨path, hpath⟩ := getFullpath_of_download stack hfriend ht hdata hchunks hd'
      refine ⟨path, hpath, ?_⟩
      have heq := (hrun path (.inl hpath)).mp ⟨d', hd', hfile⟩
      split_ifs at heq ⊢ with hsame
      · exact (held_append_iff _).mp heq
      · simpa using heq
    · rintro ⟨path, hpath, hcond⟩
      rw [hrun path (.inl hpath)]
      split_ifs at hcond ⊢ with hsame
      · exact (held_append_iff _).mpr hcond
      · simpa using hcond

end

/-- The data of chunks that follow each other are the rest of the file. -/
theorem Consecutive.flatten {file : Bytes} {start : ℕ} {chunks : List (ℕ × Bytes)}
    (h : Consecutive file start chunks)
    (hpart : ∀ c ∈ chunks, c.2 = (file.drop c.1).take c.2.length) :
    (chunks.map Prod.snd).flatten = file.drop start := by
  induction chunks generalizing start with
  | nil =>
    rw [show start = file.length from h, List.drop_length]
    rfl
  | cons c chunks ih =>
    obtain ⟨hpos, hrest⟩ := h
    have htail := ih hrest (fun c hc => hpart c (List.mem_cons_of_mem _ hc))
    have hhead := hpart c List.mem_cons_self
    rw [hpos] at hhead
    rw [List.map_cons, List.flatten_cons, htail, ← List.drop_drop]
    nth_rewrite 1 [hhead]
    exact List.take_append_drop _ _

/-- In particular, chunks that follow each other from the end of what is held. -/
theorem receives_of_consecutive {d : Downloads} {f n : ℕ} {t : FileTracker}
    {filename filepath file : Bytes} {chunks : List (ℕ × Bytes)} {start : ℕ} (stack : ℕ → Bytes)
    (hfriend : d.files.Known f) (ht : d.files.receivers.find? (·.hasKey f n) = some t)
    (hpath : getFullpath (updateFileReceiverPath t filename filepath) =
      some (acceptFullpath filename filepath))
    (hcovers : Covers file start chunks)
    (hheld : d.held filename filepath = file.take start) (hstart : start ≤ file.length)
    (horder : Consecutive file start chunks) (seek : Option ℕ) :
    d.Receives stack f n filename filepath seek chunks file := by
  obtain ⟨d', hrun, hdisk⟩ := disk_download stack hfriend ht (.inl hpath) hcovers.nonempty seek
    file.length
  refine ⟨d', hrun, ?_⟩
  rw [hdisk, if_pos rfl, held_append_iff, hheld, List.length_take_of_le hstart]
  exact ⟨List.take_prefix _ _, horder.flatten hcovers.part⟩

/-- A friend, a transfer with the number 65536, and a disk. -/
def oneTransfer (disk : Bytes → Option Bytes) : Downloads :=
  ⟨(Files.init.addFriend 0 [49]).notifyFileRequestCb 0 65536 [120] true, disk⟩

theorem known_oneTransfer (disk : Bytes → Option Bytes) : (oneTransfer disk).files.Known 0 := by
  have hzero : HasZeroByte 0 := by
    unfold HasZeroByte
    decide
  exact (Files.known_addFriend Files.init hzero [49]).notifyFileRequestCb 0 65536 [120] true

/-- The file `abc` in the chunks `ab` and `c`, accepted as `/a/y`, on an empty disk. -/
theorem receives_inOrder :
    (oneTransfer (fun _ => none)).Receives (fun _ => []) 0 65536 [121] [47, 97] none
      [(0, [97, 98]), (2, [99])] [97, 98, 99] := by
  have hpath : getFullpath (updateFileReceiverPath (newReceiver 0 0 65536 [120]) [121] [47, 97]) =
      some [47, 97, 47, 121] := rfl
  refine (receives_iff (t := newReceiver 0 0 65536 [120]) _ (known_oneTransfer _) rfl ?_ none).mpr ?_
  · decide
  · rw [if_neg (by decide)]
    exact ⟨_, hpath, List.nil_prefix, rfl⟩

/-- The same file where there is one already, and with its chunks the other way round. -/
theorem not_receives_again :
    Covers [97, 98, 99] 0 [(0, [97, 98]), (2, [99])] ∧
      Covers [97, 98, 99] 0 [(2, [99]), (0, [97, 98])] ∧
      ¬(oneTransfer (fun _ => some [97, 98, 99])).Receives (fun _ => []) 0 65536 [121] [47, 97] none
        [(0, [97, 98]), (2, [99])] [97, 98, 99] ∧
      ¬(oneTransfer (fun _ => none)).Receives (fun _ => []) 0 65536 [121] [47, 97] none
        [(2, [99]), (0, [97, 98])] [97, 98, 99] := by
  have hcovered : ∀ chunks : List (ℕ × Bytes), (0, [97, 98]) ∈ chunks → (2, [99]) ∈ chunks →
      ∀ i, 0 ≤ i → i < ([97, 98, 99] : Bytes).length →
        ∃ c ∈ chunks, c.1 ≤ i ∧ i < c.1 + c.2.length := by
    intro chunks h₀ h₂ i _ hi
    by_cases hlt : i < 2
    · exact ⟨_, h₀, Nat.zero_le i, hlt⟩
    · exact ⟨_, h₂, not_lt.mp hlt, hi⟩
  refine ⟨⟨by decide, by decide, ?_⟩, ⟨by decide, by decide, ?_⟩, ?_, ?_⟩
  · exact hcovered _ (.head _) (.tail _ (.head _))
  · exact hcovered _ (.tail _ (.head _)) (.head _)
  · rintro ⟨d', hrun, hfile⟩
    cases hrun
    cases hfile
  · rintro ⟨d', hrun, hfile⟩
    cases hrun
    cases hfile

end Downloads

end Carrier.Core
