import Carrier.Session.KeyAgreement

/-! What a remote description makes `ice_session_apply_remote_sdp` do. The scan over the streams is a
sequence of steps, one for every media line and one for every candidate line; how the call ends, and
what it has stored by then, is told by the first step that goes wrong. -/
namespace Carrier.Session
open Carrier.Lib Carrier.Common

/-- The texts from which the candidates of a media line are scanned. -/
def SdpMedia.candidateLines (m : SdpMedia) : List Bytes :=
  (m.attrs.filter (fun a => a.name = ascii "candidate")).map (fun a => a.value ++ a.tail)

/-- What there is on a candidate line: a token longer than its array, no candidate at all, or the
component and the record. -/
inductive LineReading where
  | tooLong
  | invalid
  | candidate (compId : ℕ) (cand : RemoteCand)
  deriving DecidableEq

def readLine (text : Bytes) : LineReading :=
  let args := sscanf candidateFormat text
  if !tokensFit args then .tooLong
  else
    match args with
    | .str foundation :: .int compId :: .str _ :: .int prio :: .str ipaddr :: .int port ::
        .str type :: more =>
      let read (relAddr : Option SockAddr) : LineReading :=
        match candTypeOf type with
        | none => .invalid
        | some t =>
          .candidate (compId % 2 ^ 32).toNat ⟨t, foundation.length, (compId % 2 ^ 8).toNat,
            (prio % 2 ^ 32).toNat, candAddr ipaddr (ipaddr.contains 58) port, relAddr⟩
      match more with
      | [] => read none
      | [.str raddr, .int rport] => read (some (candAddr raddr (ipaddr.contains 58) rport))
      | _ => .invalid
    | _ => .invalid

def IceRemote.add (remote : IceRemote) (compId : ℕ) (cand : RemoteCand) : IceRemote :=
  { remote with compCnt := max remote.compCnt compId, cand := remote.cand ++ [cand] }

theorem applyCandidate_eq (remote : IceRemote) (text : Bytes) :
    applyCandidate remote text =
      match readLine text with
      | .tooLong => none
      | .invalid => some none
      | .candidate compId cand =>
        if iceStMaxCand ≤ remote.cand.length then none
        else some (some (remote.add compId cand)) := by
  unfold applyCandidate readLine
  dsimp only
  generalize sscanf candidateFormat text = args
  by_cases hfit : tokensFit args
  · rw [hfit]
    simp only [Bool.not_true, Bool.false_eq_true, if_false]
    by_cases hshape : ∃ foundation compId transport prio ipaddr port type more,
        args = .str foundation :: .int compId :: .str transport :: .int prio :: .str ipaddr ::
          .int port :: .str type :: more
    · obtain ⟨foundation, compId, transport, prio, ipaddr, port, type, more, rfl⟩ := hshape
      dsimp only
      split
      · cases candTypeOf type <;> rfl
      · cases candTypeOf type <;> rfl
      · grind
    · grind
  · simp [hfit]

namespace SdpMedia

/-- The line lacks what the scan reads without looking whether it is there. -/
def Incomplete (media : SdpMedia) : Prop := media.conn = none ∨ media.fmt = none

instance (media : SdpMedia) : Decidable media.Incomplete := inferInstanceAs (Decidable (_ ∨ _))

/-- The format stands for these options. -/
def Agrees (media : SdpMedia) (ops : ℕ) : Prop := media.fmt.map atoi = some (ops : ℤ)

instance (media : SdpMedia) (ops : ℕ) : Decidable (media.Agrees ops) :=
  inferInstanceAs (Decidable (_ = _))

theorem agrees_iff {media : SdpMedia} {fmt : Bytes} (h : media.fmt = some fmt) (ops : ℕ) :
    media.Agrees ops ↔ (ops : ℤ) = atoi fmt := by
  rw [Agrees, h, Option.map_some, Option.some_inj, eq_comm]

end SdpMedia

/-- A step of the scan: the record of a stream is begun, or the candidate line with this number is
read. -/
inductive ScanStep where
  | begin (media : SdpMedia)
  | line (index : ℕ) (text : Bytes)

/-- How a step can end the call. -/
inductive ScanFault where
  | outOfBounds
  | invalid
  deriving DecidableEq

/-- `none` for a step after which the scan goes on. -/
def ScanStep.fault (ufrag pwd : Bytes) : ScanStep → Option ScanFault
  | .begin media =>
    if media.Incomplete ∨ 80 < ufrag.length ∨ 80 < pwd.length then some .outOfBounds else none
  | .line index text =>
    match readLine text with
    | .tooLong => some .outOfBounds
    | .invalid => some .invalid
    | .candidate _ _ => if iceStMaxCand ≤ index then some .outOfBounds else none

/-- The steps of candidate lines, the first of which has the number `index`. -/
def lineSteps : ℕ → List Bytes → List ScanStep
  | _, [] => []
  | index, text :: texts => .line index text :: lineSteps (index + 1) texts

/-- The steps of the scan over the streams; candidates are read where the options agree. -/
def scanSteps (sdp : SdpSession) : ℕ → ℕ → List Stream → List ScanStep
  | _, _, [] => []
  | index, ops, s :: streams =>
    match sdp.media[index]? with
    | none => scanSteps sdp index ops streams
    | some media =>
      .begin media ::
        ((if media.Agrees (ops ||| s.ops) then lineSteps 0 media.candidateLines else []) ++
          scanSteps sdp (index + 1) (ops ||| s.ops) streams)

def firstFault (ufrag pwd : Bytes) (steps : List ScanStep) : Option ScanFault :=
  steps.findSome? (ScanStep.fault ufrag pwd)

/-- Whether a scan comes to its end, by its first fault; there is no result out of bounds. -/
def faultResult : Option ScanFault → Option Bool
  | none => some true
  | some .invalid => some false
  | some .outOfBounds => none

section Scan

variable {ufrag pwd : Bytes}

@[simp] theorem firstFault_nil : firstFault ufrag pwd [] = none := rfl

theorem firstFault_cons (step : ScanStep) (steps : List ScanStep) :
    firstFault ufrag pwd (step :: steps) =
      (step.fault ufrag pwd).or (firstFault ufrag pwd steps) := by
  unfold firstFault
  rw [List.findSome?_cons]
  cases step.fault ufrag pwd with
  | none => rfl
  | some f => rfl

theorem firstFault_append (steps steps' : List ScanStep) :
    firstFault ufrag pwd (steps ++ steps') =
      (firstFault ufrag pwd steps).or (firstFault ufrag pwd steps') :=
  List.findSome?_append

/-- The record once its candidate lines have been read. -/
def IceRemote.filled (remote : IceRemote) : List Bytes → IceRemote
  | [] => remote
  | text :: texts =>
    match readLine text with
    | .candidate compId cand => (remote.add compId cand).filled texts
    | _ => remote.filled texts

/-- The loop over the attributes of a media line is told by its candidate lines. -/
theorem applyCandidates_eq (remote : IceRemote) (attrs : List SdpMediaAttr) (lines : List Bytes)
    (hlines : lines = (attrs.filter (fun a => a.name = ascii "candidate")).map
      (fun a => a.value ++ a.tail)) :
    applyCandidates remote attrs =
      (faultResult (firstFault ufrag pwd (lineSteps remote.cand.length lines))).map
        (fun ok => if ok then some (remote.filled lines) else none) := by
  induction attrs generalizing remote lines with
  | nil =>
    subst hlines
    rfl
  | cons a attrs ih =>
    rw [applyCandidates]
    by_cases hname : a.name = ascii "candidate"
    · rw [if_pos hname, applyCandidate_eq, hlines, List.filter_cons_of_pos (by simpa using hname),
        List.map_cons, lineSteps, firstFault_cons, ScanStep.fault, IceRemote.filled]
      cases readLine (a.value ++ a.tail) with
      | tooLong => rfl
      | invalid => rfl
      | candidate compId cand =>
        dsimp only
        by_cases hfull : iceStMaxCand ≤ remote.cand.length
        · rw [if_pos hfull, if_pos hfull]
          rfl
        · rw [if_neg hfull, if_neg hfull, Option.none_or]
          have hlen : (remote.add compId cand).cand.length = remote.cand.length + 1 := by
            simp [IceRemote.add]
          have hrest := ih (remote.add compId cand) _ rfl
          rw [hlen] at hrest
          exact hrest
    · rw [if_neg hname, hlines, List.filter_cons_of_neg (by simpa using hname)]
      exact ih remote _ rfl

theorem faultResult_or (f g : Option ScanFault) :
    faultResult (f.or g) = (faultResult f).bind (fun ok => if ok then faultResult g else some false) := by
  cases f with
  | none => rfl
  | some f => cases f <;> rfl

/-- A record with the data of the session and of its media line, before any candidate. -/
def IceRemote.begun (ufrag pwd : Bytes) (media : SdpMedia) : IceRemote :=
  ⟨ufrag, pwd, media.conn.map (fun addr => ⟨true, addr, media.port⟩), 0, []⟩

/-- One stream that has a media line, by the steps of the scan. -/
theorem applyStreams_media {sdp : SdpSession} {uf pw : Option Bytes} {index ops : ℕ} {s : Stream}
    {streams : List Stream} {media : SdpMedia} (hmedia : sdp.media[index]? = some media)
    (hufrag : uf.getD [] = ufrag) (hpwd : pw.getD [] = pwd) :
    applyStreams sdp uf pw index ops (s :: streams) =
      let rest (s' : Stream) := (applyStreams sdp uf pw (index + 1) (ops ||| s.ops) streams).map
        (fun r => (r.1, s' :: r.2))
      if (ScanStep.begin media).fault ufrag pwd ≠ none then none
      else if media.Agrees (ops ||| s.ops) then
        (faultResult (firstFault ufrag pwd (lineSteps 0 media.candidateLines))).bind (fun ok =>
          if ok then
            rest { s with remote := (IceRemote.begun ufrag pwd media).filled media.candidateLines }
          else some (false, { s with remote := .zero } :: streams))
      else rest { s with remote := .begun ufrag pwd media, deactivate := true } := by
  rw [applyStreams, hmedia]
  dsimp only
  rw [hufrag, hpwd]
  cases hconn : media.conn with
  | none => simp [ScanStep.fault, SdpMedia.Incomplete, hconn]
  | some addr =>
    have hbegun : IceRemote.begun ufrag pwd media =
        ⟨ufrag, pwd, some ⟨true, addr, media.port⟩, 0, []⟩ := by
      rw [IceRemote.begun, hconn]
      rfl
    have hlines := @applyCandidates_eq ufrag pwd (.begun ufrag pwd media) media.attrs _ rfl
    rw [hbegun] at hlines
    by_cases hlong : 80 < ufrag.length ∨ 80 < pwd.length
    · simp [ScanStep.fault, hlong]
    · dsimp only
      rw [if_neg hlong]
      cases hfmt : media.fmt with
      | none => simp [ScanStep.fault, SdpMedia.Incomplete, hfmt]
      | some fmt =>
        have hbegin : (ScanStep.begin media).fault ufrag pwd = none := by
          simp [ScanStep.fault, SdpMedia.Incomplete, hconn, hfmt, hlong]
        have hagrees := SdpMedia.agrees_iff hfmt (ops ||| s.ops)
        dsimp only
        rw [if_neg (not_not_intro hbegin), hbegun]
        by_cases hops : media.Agrees (ops ||| s.ops)
        · rw [if_neg (not_not_intro (hagrees.mp hops)), if_pos hops, hlines]
          dsimp only [List.length_nil, SdpMedia.candidateLines]
          cases faultResult (firstFault ufrag pwd (lineSteps 0 _)) with
          | none => rfl
          | some ok => cases ok <;> rfl
        · rw [if_pos (mt hagrees.mpr hops), if_neg hops]

/-- The scan over the streams ends as its first fault tells. -/
theorem applyStreams_result {sdp : SdpSession} {uf pw : Option Bytes} (hufrag : uf.getD [] = ufrag)
    (hpwd : pw.getD [] = pwd) (index ops : ℕ) (streams : List Stream) :
    (applyStreams sdp uf pw index ops streams).map Prod.fst =
      faultResult (firstFault ufrag pwd (scanSteps sdp index ops streams)) := by
  induction streams generalizing index ops with
  | nil => rfl
  | cons s streams ih =>
    have hmap (f : List Stream → List Stream) (i o : ℕ) :
        ((applyStreams sdp uf pw i o streams).map (fun r => (r.1, f r.2))).map Prod.fst =
          faultResult (firstFault ufrag pwd (scanSteps sdp i o streams)) := by
      rw [Option.map_map, ← ih i o]
      rfl
    rw [scanSteps]
    cases hmedia : sdp.media[index]? with
    | none =>
      rw [applyStreams, hmedia]
      exact hmap _ index ops
    | some media =>
      rw [applyStreams_media hmedia hufrag hpwd]
      dsimp only
      rw [firstFault_cons, firstFault_append]
      cases hbegin : (ScanStep.begin media).fault ufrag pwd with
      | some f =>
        have hf : f = .outOfBounds := by
          simp only [ScanStep.fault] at hbegin
          split at hbegin <;> simp_all
        rw [if_pos (by simp), hf]
        rfl
      | none =>
        rw [if_neg (by simp), Option.none_or]
        by_cases hops : media.Agrees (ops ||| s.ops)
        · rw [if_pos hops, if_pos hops, faultResult_or]
          cases faultResult (firstFault ufrag pwd (lineSteps 0 media.candidateLines)) with
          | none => rfl
          | some ok =>
            cases ok with
            | false => rfl
            | true => exact hmap _ _ _
        · rw [if_neg hops, if_neg hops, firstFault_nil, Option.none_or]
          exact hmap _ _ _

/-- A stream behind a scan that goes on, with the options so far. -/
def Stream.scanned (ufrag pwd : Bytes) (media : SdpMedia) (ops : ℕ) (s : Stream) : Stream :=
  if media.Agrees ops then
    { s with remote := (IceRemote.begun ufrag pwd media).filled media.candidateLines }
  else { s with remote := .begun ufrag pwd media, deactivate := true }

/-- One stream of a scan that comes to its end. -/
theorem applyStreams_cons_true {sdp : SdpSession} {uf pw : Option Bytes} (hufrag : uf.getD [] = ufrag)
    (hpwd : pw.getD [] = pwd) {index ops : ℕ} {s : Stream} {streams streams' : List Stream}
    (h : applyStreams sdp uf pw index ops (s :: streams) = some (true, streams')) :
    ∃ s' rest, streams' = s' :: rest ∧
      (sdp.media[index]? = none ∧ s' = { s with deactivate := true } ∧
          applyStreams sdp uf pw index ops streams = some (true, rest) ∨
        ∃ media, sdp.media[index]? = some media ∧ s' = s.scanned ufrag pwd media (ops ||| s.ops) ∧
          applyStreams sdp uf pw (index + 1) (ops ||| s.ops) streams = some (true, rest)) := by
  cases hmedia : sdp.media[index]? with
  | none =>
    rw [applyStreams, hmedia] at h
    obtain ⟨⟨ok, rest⟩, hrest, heq⟩ := Option.map_eq_some_iff.mp h
    obtain ⟨rfl, rfl⟩ := Prod.mk.inj heq
    exact ⟨_, rest, rfl, .inl ⟨rfl, rfl, hrest⟩⟩
  | some media =>
    rw [applyStreams_media hmedia hufrag hpwd] at h
    dsimp only at h
    unfold Stream.scanned
    by_cases hbegin : (ScanStep.begin media).fault ufrag pwd = none
    · rw [if_neg (not_not_intro hbegin)] at h
      by_cases hops : media.Agrees (ops ||| s.ops)
      · rw [if_pos hops] at h
        obtain ⟨ok, -, hok⟩ := Option.bind_eq_some_iff.mp h
        cases ok with
        | false => cases hok
        | true =>
          obtain ⟨⟨ok, rest⟩, hrest, heq⟩ := Option.map_eq_some_iff.mp hok
          obtain ⟨rfl, rfl⟩ := Prod.mk.inj heq
          exact ⟨_, rest, rfl, .inr ⟨media, rfl, (if_pos hops).symm, hrest⟩⟩
      · rw [if_neg hops] at h
        obtain ⟨⟨ok, rest⟩, hrest, heq⟩ := Option.map_eq_some_iff.mp h
        obtain ⟨rfl, rfl⟩ := Prod.mk.inj heq
        exact ⟨_, rest, rfl, .inr ⟨media, rfl, (if_neg hops).symm, hrest⟩⟩
    · rw [if_pos hbegin] at h
      cases h

end Scan

namespace SdpSession

/-- The decoding of the origin user, behind which there is a space. -/
def decodedKey (sdp : SdpSession) : Option (Bytes × ℕ) :=
  base58Decode (sdp.originUser ++ ascii " ") sdp.originUser.length publicKeyBytes

def ufrag (sdp : SdpSession) : Bytes := (sdpAttr (ascii "ice-ufrag") sdp.attrs).getD []

def pwd (sdp : SdpSession) : Bytes := (sdpAttr (ascii "ice-pwd") sdp.attrs).getD []

def steps (sdp : SdpSession) (streams : List Stream) : List ScanStep := scanSteps sdp 0 0 streams

/-- The first fault of the scan over all streams. -/
def fault (sdp : SdpSession) (streams : List Stream) : Option ScanFault :=
  firstFault sdp.ufrag sdp.pwd (sdp.steps streams)

theorem decodedKey_of_bytes {sdp : SdpSession} {key : Bytes}
    (h : base58Bytes sdp.originUser = some key) (hlen : key.length = publicKeyBytes) :
    ∃ rc, sdp.decodedKey = some (key, rc) ∧ rc < 2 ^ 31 := by
  have htext := base58Bytes_eq_some_iff.mp h
  have hne : key ≠ [] := by
    rintro rfl
    cases hlen
  have hdecode := base58Decode_base58Text hne (ascii " ")
  rw [← htext, hlen] at hdecode
  have hzeros : (key.takeWhile (· = 0)).length ≤ key.length := (List.takeWhile_sublist _).length_le
  have hmod := Nat.mod_le (key.takeWhile (· = 0)).length (2 ^ 32)
  rw [hlen] at hzeros
  exact ⟨_, hdecode, by unfold publicKeyBytes at hzeros ⊢; omega⟩

end SdpSession

section Applied

variable {codec : SdpCodec} {s : IOEXSession} {text : Bytes} {sdp : SdpSession}

theorem scanStreams_result (streams : List Stream) :
    (scanStreams sdp streams).map Prod.fst = faultResult (sdp.fault streams) :=
  applyStreams_result rfl rfl 0 0 streams

theorem exists_scanStreams {streams : List Stream} {ok : Bool}
    (h : faultResult (sdp.fault streams) = some ok) :
    ∃ streams', scanStreams sdp streams = some (ok, streams') := by
  rw [← scanStreams_result] at h
  obtain ⟨⟨ok', streams'⟩, hscan, rfl⟩ := Option.map_eq_some_iff.mp h
  exact ⟨streams', hscan⟩

theorem applyRemoteSdp_refused (hparse : codec.parse text = some sdp)
    (h : sdp.name ≠ ascii "IOEX-ice-session" ∨ sdp.decodedKey = none) :
    applyRemoteSdp codec s text = some (false, s) := by
  unfold applyRemoteSdp
  rw [hparse]
  dsimp only
  by_cases hname : sdp.name = ascii "IOEX-ice-session"
  · have hkey := h.resolve_left (not_not_intro hname)
    unfold SdpSession.decodedKey at hkey
    rw [if_neg (not_not_intro hname), hkey]
  · rw [if_pos hname]

open Peers

def codecOf (text : Bytes) (sdp : SdpSession) : SdpCodec :=
  ⟨fun _ => none, fun t => if t = text then some sdp else none⟩

theorem codecOf_parse (text : Bytes) (sdp : SdpSession) : (codecOf text sdp).parse text = some sdp :=
  if_pos rfl

def controlledSession : IOEXSession := { sessionWith (List.replicate 32 0) with role := .controlled }

end Applied

end Carrier.Session
