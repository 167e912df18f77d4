import Carrier.Common.LinkedList
import Carrier.Lib.Run
import Carrier.Session.KeyAgreement

/-! The scan of the streams in `ice_session_encode_local_sdp` of `session/ice.c`, while other threads
add and remove streams. -/
namespace Carrier.Session
open Carrier.Lib Carrier.Common

/-- The media line of a stream; `none` if one of the calls of `pjnath` fails. -/
def mediaLine (ops : ℕ) (s : Stream) : Option SdpMedia :=
  s.ice.bind fun ice =>
    (ice.cands.mapM candidateValue).map fun values =>
      ⟨streamTypeStr s.type, ice.default.port, some (decimal ops), some ice.default.addr,
        values.map (fun v => ⟨ascii "candidate", v, []⟩)⟩

/-- What is encoded before the scan. -/
def encodeHead (s : IOEXSession) : Option SdpSession := do
  let pk ← (base58Encode s.publicKey 64).join
  let crypto ← encodeNonce s
  some
    { originUser := pk
      name := ascii "IOEX-ice-session"
      attrs := [⟨ascii "ice-ufrag", s.ufrag⟩, ⟨ascii "ice-pwd", s.pwd⟩] ++ crypto
      media := [] }

/-- How far the call is: `failed` is an error return before or in the scan, and `finished` what it
returns for the streams that are then in the list. -/
inductive ScanOutcome where
  | running
  | failed
  | finished (final : List Stream) (sdp : Option Bytes)
  deriving DecidableEq

/-- `base->streams` and the variables of the call. `media` are the first `index` elements of the
array. -/
structure LocalScan where
  streams : Container Stream
  iterator : ListIterator
  ops : ℕ
  media : List SdpMedia
  outcome : ScanOutcome

/-- A round of the scan, in which the calls of `pjnath` and `pjmedia` may fail, or what another thread
does to the list. -/
inductive ScanOp where
  | round (served : Bool)
  | add (stream : ListEntry Stream)
  | remove (addr : ℕ)

namespace LocalScan

variable (codec : SdpCodec) (maxMedia : ℕ) (session : IOEXSession)

def start (streams : Container Stream) : LocalScan where
  streams := streams
  iterator := listIterate streams.toLinkedList
  ops := 0
  media := []
  outcome := if (encodeHead session).isSome then .running else .failed

def finish (s : LocalScan) : LocalScan :=
  let sdp := (encodeHead session).bind fun head => codec.print { head with media := s.media }
  { s with outcome := .finished (s.streams.entries.map ListEntry.data) sdp }

/-- One round of the loop, with the jump back to `rescan`. `none` is a store behind the array of
`maxMedia` media lines. -/
def round (s : LocalScan) (served : Bool) : Option LocalScan :=
  if listIteratorHasNext s.iterator then
    match listIteratorNext s.iterator s.streams.toLinkedList with
    | .done => some (s.finish codec session)
    | .modified => some { s with iterator := listIterate s.streams.toLinkedList }
    | .entry iterator e =>
      let ops := s.ops ||| e.data.ops
      match if served then mediaLine ops e.data else none with
      | none => some { s with outcome := .failed }
      | some media =>
        if s.media.length < maxMedia then
          some { s with iterator := iterator, ops := ops, media := s.media ++ [media] }
        else none
  else some (s.finish codec session)

/-- A stream that is in the list is not added to it. -/
def step (s : LocalScan) : ScanOp → Option LocalScan
  | .round served => if s.outcome = .running then s.round codec maxMedia session served else some s
  | .add e =>
    if hnew : ∀ x ∈ s.streams.entries, x.addr ≠ e.addr then
      some { s with streams := s.streams.pushTail e hnew }
    else some s
  | .remove addr => some { s with streams := s.streams.removeEntry addr }

end LocalScan

section Lines

variable {ops : ℕ} {streams : List Stream} {media : List SdpMedia}

/-- A media line for the stream, whatever its option bits. -/
def LineOf (s : Stream) (media : SdpMedia) : Prop := ∃ ops, mediaLine ops s = some media

theorem encodeMedia_cons (ops : ℕ) (s : Stream) (streams : List Stream) :
    encodeMedia ops (s :: streams) = (mediaLine (ops ||| s.ops) s).bind fun line =>
      (encodeMedia (ops ||| s.ops) streams).map (line :: ·) := by
  rw [encodeMedia, mediaLine]
  cases s.ice with
  | none => rfl
  | some ice =>
    simp only [bind, Option.bind_some]
    cases ice.cands.mapM candidateValue with
    | none => rfl
    | some values => cases encodeMedia (ops ||| s.ops) streams <;> rfl

theorem encodeMedia_lines (h : encodeMedia ops streams = some media) :
    List.Forall₂ LineOf streams media := by
  induction streams generalizing ops media with
  | nil =>
    cases h
    exact .nil
  | cons s streams ih =>
    rw [encodeMedia_cons, Option.bind_eq_some_iff] at h
    obtain ⟨line, hline, h⟩ := h
    obtain ⟨lines, hlines, rfl⟩ := Option.map_eq_some_iff.mp h
    exact .cons ⟨_, hline⟩ (ih hlines)

theorem encodeLocalSdp_head_media (codec : SdpCodec) (session : IOEXSession) (streams : List Stream) :
    encodeLocalSdp codec { session with streams := streams } =
      (encodeHead session).bind fun head =>
        (encodeMedia 0 streams).bind fun media => codec.print { head with media := media } := by
  have hhead : encodeHead session = (base58Encode session.publicKey 64).join.bind fun pk =>
      (encodeNonce session).map fun crypto => ⟨pk, ascii "IOEX-ice-session",
        [⟨ascii "ice-ufrag", session.ufrag⟩, ⟨ascii "ice-pwd", session.pwd⟩] ++ crypto, []⟩ := by
    rw [encodeHead]
    cases (base58Encode session.publicKey 64).join with
    | none => rfl
    | some pk => cases encodeNonce session <;> rfl
  have hnonce : encodeNonce { session with streams := streams } = encodeNonce session := rfl
  rw [hhead, encodeLocalSdp]
  dsimp only
  rw [hnonce]
  cases (base58Encode session.publicKey 64).join with
  | none => rfl
  | some pk => cases encodeNonce session <;> rfl

end Lines

namespace LocalScan

variable {codec : SdpCodec} {maxMedia : ℕ} {session : IOEXSession} {s s' : LocalScan} {k : ℕ}
  {pre post : List (ListEntry Stream)}

/-- The list is modified only before the first of its streams is visited, and never gets longer than
the array. -/
def Permitted (maxMedia : ℕ) (s : LocalScan) : ScanOp → Prop
  | .round _ => True
  | .add _ => s.outcome = .running →
    s.media = [] ∧ s.iterator.next ≠ none ∧ s.streams.entries.length < maxMedia
  | .remove _ => s.outcome = .running → s.media = [] ∧ s.iterator.next ≠ none

/-- When the call returns something else than an error, then a line for each stream of the list. -/
def Encodes (codec : SdpCodec) (session : IOEXSession) (s : LocalScan) : Prop :=
  ∀ final sdp, s.outcome = .finished final sdp → List.Forall₂ LineOf final s.media ∧
    sdp = encodeLocalSdp codec { session with streams := final }

/-- The lines of the streams `pre` are encoded, those of `post` are to come. -/
structure Scanning (s : LocalScan) (pre post : List (ListEntry Stream)) : Prop where
  «at» : s.iterator.At s.streams.toLinkedList pre post
  lines : ∀ rest, encodeMedia 0 (pre.map ListEntry.data ++ rest) =
    (encodeMedia s.ops rest).map (s.media ++ ·)
  fresh : s.media = [] → s.ops = 0

/-- The next round is going to notice a modification. -/
structure Stale (s : LocalScan) : Prop where
  media : s.media = []
  ops : s.ops = 0
  next : s.iterator.next ≠ none
  behind : s.iterator.expectedModCount < s.streams.modCount

/-- The scan ends after at most `k` more rounds. -/
def Running (maxMedia : ℕ) (s : LocalScan) (k : ℕ) : Prop :=
  s.streams.entries.length ≤ maxMedia ∧
    ((∃ pre post, s.Scanning pre post ∧ post.length < k) ∨
      s.Stale ∧ s.streams.entries.length + 1 < k)

theorem Scanning.media_eq (h : s.Scanning pre post) :
    encodeMedia 0 (pre.map ListEntry.data) = some s.media := by
  have hlines := h.lines []
  rwa [List.append_nil, encodeMedia, Option.map_some, List.append_nil] at hlines

theorem Scanning.length_eq (h : s.Scanning pre post) : s.media.length = pre.length := by
  have hlength := (encodeMedia_lines h.media_eq).length_eq
  rwa [List.length_map, eq_comm] at hlength

theorem scanning_start (streams : Container Stream) (outcome : ScanOutcome) :
    Scanning ⟨streams, listIterate streams.toLinkedList, 0, [], outcome⟩ [] streams.entries := by
  refine ⟨listIterate_at _, fun rest => ?_, fun _ => rfl⟩
  simp

theorem Scanning.finish (h : s.Scanning pre []) :
    (s.finish codec session).outcome ≠ .running ∧ Encodes codec session (s.finish codec session) := by
  have hentries : s.streams.entries.map ListEntry.data = pre.map ListEntry.data := by
    rw [h.at.entries, List.append_nil]
  have hmedia := h.media_eq
  refine ⟨fun heq => (by cases heq), fun final sdp hfinal => ?_⟩
  rw [LocalScan.finish, hentries] at hfinal
  cases hfinal
  refine ⟨encodeMedia_lines hmedia, ?_⟩
  rw [encodeLocalSdp_head_media, hmedia]
  rfl

/-- What a round does: the end, an error, a line, or a new start. -/
theorem Running.round (codec : SdpCodec) (session : IOEXSession) (h : s.Running maxMedia k)
    (served : Bool) :
    ∃ s', s.round codec maxMedia session served = some s' ∧ s'.streams = s.streams ∧
      ((s'.outcome = s.outcome ∧ ∃ k', k = k' + 1 ∧ s'.Running maxMedia k') ∨
        s'.outcome ≠ .running ∧ Encodes codec session s') := by
  obtain ⟨hsize, ⟨pre, post, hscan, hlt⟩ | ⟨hstale, hlt⟩⟩ := h
  · unfold LocalScan.round
    rw [listIteratorHasNext_eq hscan.at.next]
    cases post with
    | nil => exact ⟨_, rfl, rfl, .inr hscan.finish⟩
    | cons e post =>
      obtain ⟨it, hnext, hat, -⟩ := hscan.at.next_cons s.streams.nodup
      have hmore : (!(e :: post).isEmpty) = true := rfl
      rw [if_pos hmore, hnext]
      dsimp only
      cases hline : if served then mediaLine (s.ops ||| e.data.ops) e.data else none with
      | none =>
        refine ⟨_, rfl, rfl, .inr ⟨fun heq => (by cases heq), fun final sdp hfinal => ?_⟩⟩
        cases hfinal
      | some line =>
        have hroom : s.media.length < maxMedia := by
          have hentries := congrArg List.length hscan.at.entries
          rw [List.length_append, List.length_cons] at hentries
          rw [hscan.length_eq]
          omega
        dsimp only
        rw [if_pos hroom]
        rw [List.length_cons] at hlt
        refine ⟨_, rfl, rfl, .inl ⟨rfl, k - 1, by omega, hsize, .inl ⟨pre ++ [e], post, ⟨hat, ?_, ?_⟩, by omega⟩⟩⟩
        · intro rest
          have hlines := hscan.lines (e.data :: rest)
          have hmedia : mediaLine (s.ops ||| e.data.ops) e.data = some line := by
            cases served with
            | true => exact hline
            | false => cases hline
          rw [encodeMedia_cons, hmedia, Option.bind_some, Option.map_map] at hlines
          rw [List.map_append, List.append_assoc]
          refine hlines.trans ?_
          congr 1
          funext lines
          exact List.append_cons s.media line lines
        · intro hnil
          cases (List.append_ne_nil_of_right_ne_nil s.media (List.cons_ne_nil line [])) hnil
  · have hnext : listIteratorHasNext s.iterator = true := Option.isSome_iff_ne_none.mpr hstale.next
    unfold LocalScan.round
    rw [if_pos hnext, listIteratorNext_modified hstale.behind.ne]
    obtain ⟨streams, iterator, ops, media, outcome⟩ := s
    cases hstale.media
    cases hstale.ops
    exact ⟨_, rfl, rfl, .inl ⟨rfl, k - 1, by omega, hsize, .inl ⟨[], streams.entries,
      scanning_start streams outcome, by dsimp only at hlt; omega⟩⟩⟩

/-- Before the first line a modification is noticed. -/
theorem Running.touch (h : s.Running maxMedia k) (hmedia : s.media = [])
    (hnext : s.iterator.next ≠ none) {streams : Container Stream}
    (hsize : streams.entries.length ≤ maxMedia) (hmod : s.streams.modCount < streams.modCount) :
    Running maxMedia { s with streams := streams } (streams.entries.length + 2) := by
  refine ⟨hsize, .inr ⟨⟨hmedia, ?_, hnext, ?_⟩, Nat.lt_succ_self _⟩⟩
  · obtain ⟨pre, post, hscan, -⟩ | ⟨hstale, -⟩ := h.2
    · exact hscan.fresh hmedia
    · exact hstale.ops
  · obtain ⟨pre, post, hscan, -⟩ | ⟨hstale, -⟩ := h.2
    · exact hscan.at.sync.trans_lt hmod
    · exact hstale.behind.trans hmod

theorem Running.mono (h : s.Running maxMedia k) :
    s.Running maxMedia (s.streams.entries.length + 2) := by
  refine ⟨h.1, ?_⟩
  obtain ⟨pre, post, hscan, -⟩ | ⟨hstale, -⟩ := h.2
  · have hentries := congrArg List.length hscan.at.entries
    rw [List.length_append] at hentries
    exact .inl ⟨pre, post, hscan, by omega⟩
  · exact .inr ⟨hstale, Nat.lt_succ_self _⟩

/-- The call is in its scan, or has returned what it should. -/
def Inv (codec : SdpCodec) (maxMedia : ℕ) (session : IOEXSession) (s : LocalScan) : Prop :=
  (s.outcome = .running ∧ ∃ k, s.Running maxMedia k) ∨
    s.outcome ≠ .running ∧ Encodes codec session s

theorem Inv.encodes (h : Inv codec maxMedia session s) : Encodes codec session s := by
  rcases h with ⟨hrunning, -⟩ | ⟨-, hencodes⟩
  · intro final sdp hfinal
    cases hrunning.symm.trans hfinal
  · exact hencodes

/-- What another thread does to the list. -/
theorem Inv.touch (h : Inv codec maxMedia session s) {streams : Container Stream}
    (hpermitted : s.outcome = .running → s.media = [] ∧ s.iterator.next ≠ none ∧
      (s.streams.entries.length ≤ maxMedia → streams.entries.length ≤ maxMedia))
    (hmod : s.streams.modCount < streams.modCount) :
    Inv codec maxMedia session { s with streams := streams } := by
  rcases h with ⟨hrunning, k, hk⟩ | ⟨hreturned, hencodes⟩
  · obtain ⟨hmedia, hnext, hsize⟩ := hpermitted hrunning
    exact .inl ⟨hrunning, _, hk.touch hmedia hnext (hsize hk.1) hmod⟩
  · exact .inr ⟨hreturned, hencodes⟩

theorem step_inv (h : Inv codec maxMedia session s) {op : ScanOp} (hop : s.Permitted maxMedia op) :
    ∃ s', s.step codec maxMedia session op = some s' ∧ Inv codec maxMedia session s' := by
  cases op with
  | round served =>
    rw [step]
    by_cases hrunning : s.outcome = .running
    · rw [if_pos hrunning]
      rcases h with ⟨-, k, hk⟩ | ⟨hreturned, -⟩
      · obtain ⟨s', hround, -, hs'⟩ := hk.round codec session served
        refine ⟨s', hround, hs'.imp ?_ (fun hdone => hdone)⟩
        exact fun ⟨houtcome, k', _, hk'⟩ => ⟨houtcome.trans hrunning, k', hk'⟩
      · exact absurd hrunning hreturned
    · rw [if_neg hrunning]
      exact ⟨s, rfl, h⟩
  | add e =>
    rw [step]
    by_cases hnew : ∀ x ∈ s.streams.entries, x.addr ≠ e.addr
    · rw [dif_pos hnew]
      refine ⟨_, rfl, h.touch (fun hrunning => ?_) (Int.lt_succ _)⟩
      obtain ⟨hmedia, hnext, hsize⟩ := hop hrunning
      refine ⟨hmedia, hnext, fun _ => ?_⟩
      change (s.streams.entries ++ [e]).length ≤ maxMedia
      rw [List.length_append, List.length_singleton]
      exact hsize
    · rw [dif_neg hnew]
      exact ⟨s, rfl, h⟩
  | remove addr =>
    refine ⟨_, rfl, h.touch (fun hrunning => ?_) (Int.lt_succ _)⟩
    obtain ⟨hmedia, hnext⟩ := hop hrunning
    exact ⟨hmedia, hnext, List.length_eraseP_le.trans⟩

theorem start_inv {streams : Container Stream} (hsize : streams.entries.length ≤ maxMedia) :
    Inv codec maxMedia session (start session streams) := by
  unfold start
  cases (encodeHead session).isSome with
  | true =>
    exact .inl ⟨rfl, _, hsize, .inl ⟨[], streams.entries, scanning_start streams _, Nat.lt_succ_self _⟩⟩
  | false => exact .inr ⟨fun heq => (by cases heq), fun final sdp hfinal => (by cases hfinal)⟩

theorem rounds_returned (hreturned : s.outcome ≠ .running) (served : List Bool) :
    exec (step codec maxMedia session) s (served.map .round) = some s := by
  induction served with
  | nil => rfl
  | cons b served ih =>
    rw [List.map_cons, exec_cons, step, if_neg hreturned, Option.bind_some]
    exact ih

theorem Running.returns (h : s.Running maxMedia k) (hrunning : s.outcome = .running)
    {served : List Bool} (hserved : k ≤ served.length) :
    ∃ s', exec (step codec maxMedia session) s (served.map .round) = some s' ∧
      s'.outcome ≠ .running ∧ Encodes codec session s' := by
  induction served generalizing k s with
  | nil =>
    rw [List.length_nil] at hserved
    obtain ⟨-, ⟨pre, post, -, hlt⟩ | ⟨-, hlt⟩⟩ := h
    · omega
    · omega
  | cons b served ih =>
    obtain ⟨s₁, hround, -, hs₁⟩ := h.round codec session b
    rw [List.map_cons, exec_cons, step, if_pos hrunning, hround, Option.bind_some]
    rcases hs₁ with ⟨houtcome, k', rfl, hk'⟩ | ⟨hreturned, hencodes⟩
    · exact ih hk' (houtcome.trans hrunning) (Nat.le_of_succ_le_succ hserved)
    · exact ⟨s₁, rounds_returned hreturned served, hreturned, hencodes⟩

/-- Without another thread the call returns. -/
theorem Inv.returns (h : Inv codec maxMedia session s) {served : List Bool}
    (hserved : s.streams.entries.length + 2 ≤ served.length) :
    ∃ s', exec (step codec maxMedia session) s (served.map .round) = some s' ∧
      s'.outcome ≠ .running ∧ Encodes codec session s' := by
  rcases h with ⟨hrunning, k, hk⟩ | ⟨hreturned, hencodes⟩
  · exact hk.mono.returns hrunning hserved
  · exact ⟨s, rounds_returned hreturned served, hreturned, hencodes⟩

/-- In a list that never gets longer than the array, and that is only modified before the first line,
the call returns an error or a line for each stream, and stores nothing behind the array. -/
theorem scan_encodes (codec : SdpCodec) (maxMedia : ℕ) (session : IOEXSession)
    (streams : Container Stream) (hsize : streams.entries.length ≤ maxMedia) (ops : List ScanOp)
    (hops : Along (step codec maxMedia session) (Permitted maxMedia) (start session streams) ops) :
    ∃ s, exec (step codec maxMedia session) (start session streams) ops = some s ∧
      Encodes codec session s ∧
      ∀ served : List Bool, s.streams.entries.length + 2 ≤ served.length →
        ∃ s', exec (step codec maxMedia session) s (served.map .round) = some s' ∧
          s'.outcome ≠ .running ∧ Encodes codec session s' := by
  obtain ⟨s, hexec, hinv⟩ := exec_progress_along (I := Inv codec maxMedia session)
    (fun _ _ h hop => step_inv h hop) (start_inv hsize) hops
  exact ⟨s, hexec, hinv.encodes, fun served hserved => hinv.returns hserved⟩

/-- The streams of a session, with the addresses from 1 on. -/
def streamList (n : ℕ) : Container Stream where
  entries := (List.range n).map fun i => ⟨i + 1, Peers.oneStream⟩
  modCount := n
  nodup := by
    rw [List.map_map]
    exact List.Nodup.map (fun _ _ h => Nat.succ.inj h) List.nodup_range

def anyCodec : SdpCodec := ⟨fun _ => some [], fun _ => none⟩

/-- A stream is added before the first one is visited, and the call then goes on to its end. -/
def addedFirst : List ScanOp :=
  [.add ⟨9, Peers.oneStream⟩, .round true, .round true, .round true, .round true]

theorem scan_encodes_added :
    ∃ s, exec (step anyCodec 16 (Peers.sessionWith [])) (start (Peers.sessionWith []) (streamList 1))
        addedFirst = some s ∧
      s.outcome = .finished [Peers.oneStream, Peers.oneStream] (some []) ∧
        Encodes anyCodec (Peers.sessionWith []) s := by
  have hops : Along (step anyCodec 16 (Peers.sessionWith [])) (Permitted 16)
      (start (Peers.sessionWith []) (streamList 1)) addedFirst :=
    ⟨fun _ => ⟨rfl, by decide, by decide⟩, fun _ _ => ⟨trivial, fun _ _ => ⟨trivial, fun _ _ =>
      ⟨trivial, fun _ _ => ⟨trivial, fun _ _ => trivial⟩⟩⟩⟩⟩
  obtain ⟨s, hexec, hencodes, -⟩ := scan_encodes anyCodec 16 (Peers.sessionWith []) (streamList 1)
    (by decide) addedFirst hops
  have hreturned : (exec (step anyCodec 16 (Peers.sessionWith []))
      (start (Peers.sessionWith []) (streamList 1)) addedFirst).map LocalScan.outcome =
        some (.finished [Peers.oneStream, Peers.oneStream] (some [])) := by
    decide
  rw [hexec] at hreturned
  exact ⟨s, hexec, Option.some.inj hreturned, hencodes⟩

theorem not_encodes_of_length {final : List Stream} {sdp : Option Bytes}
    (h : s.outcome = .finished final sdp) (hlength : final.length ≠ s.media.length) :
    ¬Encodes codec session s :=
  fun hencodes => hlength (hencodes final sdp h).1.length_eq

/-- The first stream gets two lines when one is added behind it, a stream that is added at the end
gets none, and a line of the seventeenth stream is stored behind the array. -/
theorem not_scan_encodes :
    (∃ s, exec (step anyCodec 16 (Peers.sessionWith [])) (start (Peers.sessionWith []) (streamList 2))
        [.round true, .add ⟨9, Peers.oneStream⟩, .round true, .round true, .round true, .round true,
          .round true] = some s ∧ ¬Encodes anyCodec (Peers.sessionWith []) s) ∧
    (∃ s, exec (step anyCodec 16 (Peers.sessionWith [])) (start (Peers.sessionWith []) (streamList 1))
        [.round true, .add ⟨9, Peers.oneStream⟩, .round true] = some s ∧
      ¬Encodes anyCodec (Peers.sessionWith []) s) ∧
    exec (step anyCodec 16 (Peers.sessionWith [])) (start (Peers.sessionWith []) (streamList 17))
      ((List.replicate 17 true).map .round) = none := by
  refine ⟨?_, ?_, ?_⟩
  · obtain ⟨s, hexec, hs⟩ := Option.map_eq_some_iff.mp
      (show (exec (step anyCodec 16 (Peers.sessionWith []))
        (start (Peers.sessionWith []) (streamList 2))
        [.round true, .add ⟨9, Peers.oneStream⟩, .round true, .round true, .round true,
          .round true, .round true]).map (fun s => (s.outcome, s.media.length)) =
        some (.finished (List.replicate 3 Peers.oneStream) (some []), 4) by decide +kernel)
    obtain ⟨houtcome, hlength⟩ := Prod.mk.inj hs
    exact ⟨s, hexec, not_encodes_of_length houtcome (by rw [hlength]; decide)⟩
  · obtain ⟨s, hexec, hs⟩ := Option.map_eq_some_iff.mp
      (show (exec (step anyCodec 16 (Peers.sessionWith []))
        (start (Peers.sessionWith []) (streamList 1))
        [.round true, .add ⟨9, Peers.oneStream⟩, .round true]).map
          (fun s => (s.outcome, s.media.length)) =
        some (.finished (List.replicate 2 Peers.oneStream) (some []), 1) by decide +kernel)
    obtain ⟨houtcome, hlength⟩ := Prod.mk.inj hs
    exact ⟨s, hexec, not_encodes_of_length houtcome (by rw [hlength]; decide)⟩
  · rw [← Option.isNone_iff_eq_none]
    decide +kernel

end LocalScan

end Carrier.Session
