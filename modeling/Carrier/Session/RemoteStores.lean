import Carrier.Session.RemoteSdp

/-! The arrays that `ice_session_apply_remote_sdp` fills from the text of the peer: the fields of the
record for ufrag and pwd, the buffers of `sscanf`, and the candidates. -/
namespace Carrier.Session
open Carrier.Lib Carrier.Common

/-- A store into an array of `size` elements that goes up to the element in front of `len`. -/
structure ArrayStore where
  size : ℕ
  len : ℕ
  deriving DecidableEq

def ArrayStore.Fits (w : ArrayStore) : Prop := w.len ≤ w.size

instance ArrayStore.decidableFits (w : ArrayStore) : Decidable w.Fits := inferInstanceAs (Decidable (_ ≤ _))

@[simp] theorem ArrayStore.fits_succ_iff (size n : ℕ) : (mk size (n + 1)).Fits ↔ n < size :=
  Nat.succ_le_iff

def StoresFit (stores : List ArrayStore) : Prop := ∀ w ∈ stores, w.Fits

instance (stores : List ArrayStore) : Decidable (StoresFit stores) :=
  inferInstanceAs (Decidable (∀ w ∈ stores, w.Fits))

@[simp] theorem storesFit_nil : StoresFit [] := List.forall_mem_nil _

@[simp] theorem storesFit_cons (w : ArrayStore) (stores : List ArrayStore) :
    StoresFit (w :: stores) ↔ w.Fits ∧ StoresFit stores := List.forall_mem_cons

@[simp] theorem storesFit_append (stores stores' : List ArrayStore) :
    StoresFit (stores ++ stores') ↔ StoresFit stores ∧ StoresFit stores' := List.forall_mem_append

/-- `strncpy` to `remote.ufrag` or `remote.pwd`, with the terminator of the field. -/
def credentialStores (value : Option Bytes) : List ArrayStore :=
  value.toList.map (fun v => ⟨80, v.length + 1⟩)

/-- A token with the NUL that `sscanf` puts behind it. -/
def tokenStore : ScanArg × ℕ → Option ArrayStore
  | (.str token, size) => some ⟨size, token.length + 1⟩
  | (.int _, _) => none

/-- The tokens of one candidate line. -/
def tokenStores (args : List ScanArg) : List ArrayStore := (args.zip tokenSizes).filterMap tokenStore

/-- One candidate line: the tokens, and then the candidate with this index. -/
def lineStores (index : ℕ) (text : Bytes) : List ArrayStore :=
  tokenStores (sscanf candidateFormat text) ++
    match readLine text with
    | .candidate _ _ => [⟨iceStMaxCand, index + 1⟩]
    | _ => []

/-- The attributes of one media line, for as long as `applyCandidates` goes on. -/
def candidatesStores : IceRemote → List SdpMediaAttr → List ArrayStore
  | _, [] => []
  | remote, a :: attrs =>
    if a.name = ascii "candidate" then
      lineStores remote.cand.length (a.value ++ a.tail) ++
        match applyCandidate remote (a.value ++ a.tail) with
        | some (some remote) => candidatesStores remote attrs
        | _ => []
    else candidatesStores remote attrs

/-- The scan over the streams, for as long as `applyStreams` goes on. The media line is looked into once
ufrag and pwd have been copied. -/
def streamsStores (sdp : SdpSession) (ufrag pwd : Option Bytes) :
    ℕ → ℕ → List Stream → List ArrayStore
  | _, _, [] => []
  | index, ops, s :: streams =>
    match sdp.media[index]? with
    | none => streamsStores sdp ufrag pwd index ops streams
    | some media =>
      credentialStores ufrag ++ credentialStores pwd ++
        if media.Incomplete ∨ 80 < (ufrag.getD []).length ∨ 80 < (pwd.getD []).length then []
        else
          let remote := IceRemote.begun (ufrag.getD []) (pwd.getD []) media
          let ops := ops ||| s.ops
          if ¬media.Agrees ops then streamsStores sdp ufrag pwd (index + 1) ops streams
          else
            candidatesStores remote media.attrs ++
              match applyCandidates remote media.attrs with
              | some (some _) => streamsStores sdp ufrag pwd (index + 1) ops streams
              | _ => []

/-- What a call of `applyRemoteSdp` stores. -/
def applyRemoteSdpStores (codec : SdpCodec) (s : IOEXSession) (text : Bytes) : List ArrayStore :=
  match codec.parse text with
  | none => []
  | some sdp =>
    if sdp.name ≠ ascii "IOEX-ice-session" then []
    else
      match base58Decode (sdp.originUser ++ ascii " ") sdp.originUser.length publicKeyBytes with
      | none => []
      | some (_, rc) =>
        if 2 ^ 31 ≤ rc % 2 ^ 32 then []
        else
          streamsStores sdp (sdpAttr (ascii "ice-ufrag") sdp.attrs)
            (sdpAttr (ascii "ice-pwd") sdp.attrs) 0 0 s.streams

def ScanStep.stores (ufrag pwd : Option Bytes) : ScanStep → List ArrayStore
  | .begin _ => credentialStores ufrag ++ credentialStores pwd
  | .line index text => lineStores index text

/-- The steps up to the first one that ends the call. -/
def reached (ufrag pwd : Bytes) : List ScanStep → List ScanStep
  | [] => []
  | step :: steps => step :: if step.fault ufrag pwd = none then reached ufrag pwd steps else []

/-- A step without a value at or beyond its limit. A line that is no candidate has no index. -/
def ScanStep.Small (ufrag pwd : Bytes) : ScanStep → Prop
  | .begin _ => ufrag.length < 80 ∧ pwd.length < 80
  | .line index text =>
    tokensFit (sscanf candidateFormat text) = true ∧
      (readLine text = .invalid ∨ index < iceStMaxCand)

instance ScanStep.decidableSmall (ufrag pwd : Bytes) : (step : ScanStep) → Decidable (step.Small ufrag pwd)
  | .begin _ => inferInstanceAs (Decidable (_ ∧ _))
  | .line _ _ => inferInstanceAs (Decidable (_ ∧ _))

section

variable {ufrag pwd : Bytes} {uf pw : Option Bytes}

theorem reached_append (steps steps' : List ScanStep) :
    reached ufrag pwd (steps ++ steps') =
      reached ufrag pwd steps ++
        if firstFault ufrag pwd steps = none then reached ufrag pwd steps' else [] := by
  induction steps with
  | nil => rfl
  | cons step steps ih =>
    rw [List.cons_append, reached, reached, firstFault_cons, ih]
    by_cases hstep : step.fault ufrag pwd = none
    · simp [hstep]
    · simp [hstep]

theorem credentialStores_fit_iff (value : Option Bytes) :
    StoresFit (credentialStores value) ↔ (value.getD []).length < 80 := by
  cases value with
  | none => simp [credentialStores]
  | some v => simp [credentialStores]

theorem tokenStores_fit_iff (args : List ScanArg) :
    StoresFit (tokenStores args) ↔ tokensFit args = true := by
  unfold tokenStores tokensFit
  induction args.zip tokenSizes with
  | nil => simp
  | cons item items ih =>
    obtain ⟨arg, size⟩ := item
    cases arg with
    | str token =>
      have hstore : tokenStore (.str token, size) = some ⟨size, token.length + 1⟩ := rfl
      rw [List.filterMap_cons_some hstore, storesFit_cons, ih]
      simp
    | int z =>
      have hstore : tokenStore (.int z, size) = none := rfl
      rw [List.filterMap_cons_none hstore, ih]
      simp

theorem readLine_eq_tooLong_iff (text : Bytes) :
    readLine text = .tooLong ↔ tokensFit (sscanf candidateFormat text) = false := by
  unfold readLine
  dsimp only
  cases hfit : tokensFit (sscanf candidateFormat text) with
  | false => simp
  | true =>
    simp only [Bool.not_true, Bool.false_eq_true, if_false, Bool.true_eq_false, iff_false]
    grind

theorem lineStores_fit_iff (index : ℕ) (text : Bytes) :
    StoresFit (lineStores index text) ↔ (ScanStep.line index text).Small ufrag pwd := by
  unfold lineStores ScanStep.Small
  rw [storesFit_append, tokenStores_fit_iff]
  apply and_congr_right
  intro hfit
  cases hline : readLine text with
  | tooLong =>
    rw [(readLine_eq_tooLong_iff text).mp hline] at hfit
    cases hfit
  | invalid => simp
  | candidate compId cand => simp

theorem stores_fit_iff (hufrag : uf.getD [] = ufrag) (hpwd : pw.getD [] = pwd) (step : ScanStep) :
    StoresFit (step.stores uf pw) ↔ step.Small ufrag pwd := by
  cases step with
  | begin media =>
    rw [ScanStep.stores, storesFit_append, credentialStores_fit_iff, credentialStores_fit_iff,
      hufrag, hpwd, ScanStep.Small]
  | line index text => exact lineStores_fit_iff index text

/-- The stores for a media line are those of the candidate lines that are reached. -/
theorem candidatesStores_eq (remote : IceRemote) (attrs : List SdpMediaAttr) (lines : List Bytes)
    (hlines : lines = (attrs.filter (fun a => a.name = ascii "candidate")).map
      (fun a => a.value ++ a.tail)) :
    candidatesStores remote attrs =
      (reached ufrag pwd (lineSteps remote.cand.length lines)).flatMap (ScanStep.stores uf pw) := by
  induction attrs generalizing remote lines with
  | nil =>
    subst hlines
    rfl
  | cons a attrs ih =>
    rw [candidatesStores]
    by_cases hname : a.name = ascii "candidate"
    · rw [if_pos hname, applyCandidate_eq, hlines, List.filter_cons_of_pos (by simpa using hname),
        List.map_cons, lineSteps, reached, List.flatMap_cons, ScanStep.fault, ScanStep.stores]
      congr 1
      cases readLine (a.value ++ a.tail) with
      | tooLong => rfl
      | invalid => rfl
      | candidate compId cand =>
        dsimp only
        by_cases hfull : iceStMaxCand ≤ remote.cand.length
        · rw [if_pos hfull, if_pos hfull]
          rfl
        · have hlen : (remote.add compId cand).cand.length = remote.cand.length + 1 := by
            simp [IceRemote.add]
          have hrest := ih (remote.add compId cand) _ rfl
          rw [hlen] at hrest
          rw [if_neg hfull, if_neg hfull]
          exact hrest
    · rw [if_neg hname, hlines, List.filter_cons_of_neg (by simpa using hname)]
      exact ih remote _ rfl

/-- The stores of the scan are those of the steps that are reached. -/
theorem streamsStores_eq (sdp : SdpSession) (hufrag : uf.getD [] = ufrag) (hpwd : pw.getD [] = pwd)
    (index ops : ℕ) (streams : List Stream) :
    streamsStores sdp uf pw index ops streams =
      (reached ufrag pwd (scanSteps sdp index ops streams)).flatMap (ScanStep.stores uf pw) := by
  induction streams generalizing index ops with
  | nil => rfl
  | cons s streams ih =>
    rw [streamsStores, scanSteps]
    cases hmedia : sdp.media[index]? with
    | none => exact ih index ops
    | some media =>
      dsimp only
      rw [reached, List.flatMap_cons, ScanStep.stores, hufrag, hpwd]
      congr 1
      by_cases hbegin : media.Incomplete ∨ 80 < ufrag.length ∨ 80 < pwd.length
      · rw [if_pos hbegin, ScanStep.fault, if_pos hbegin]
        rfl
      · rw [if_neg hbegin, ScanStep.fault, if_neg hbegin, if_pos rfl, reached_append]
        by_cases hops : media.Agrees (ops ||| s.ops)
        · rw [if_neg (not_not_intro hops), if_pos hops, List.flatMap_append,
            candidatesStores_eq _ media.attrs media.candidateLines rfl,
            @applyCandidates_eq ufrag pwd _ media.attrs media.candidateLines rfl]
          congr 1
          dsimp only [IceRemote.begun, List.length_nil]
          by_cases hlines : firstFault ufrag pwd (lineSteps 0 media.candidateLines) = none
          · rw [if_pos hlines, hlines]
            exact ih _ _
          · rw [if_neg hlines]
            obtain ⟨f, hf⟩ := Option.ne_none_iff_exists'.mp hlines
            rw [hf]
            cases f <;> rfl
        · rw [if_pos hops, if_neg hops]
          exact ih _ _

/-- The scan stays inside of its arrays exactly if all the steps it reaches are small. -/
theorem streamsStores_fit_iff (sdp : SdpSession) (streams : List Stream) :
    StoresFit (streamsStores sdp (sdpAttr (ascii "ice-ufrag") sdp.attrs)
      (sdpAttr (ascii "ice-pwd") sdp.attrs) 0 0 streams) ↔
        ∀ step ∈ reached sdp.ufrag sdp.pwd (sdp.steps streams), step.Small sdp.ufrag sdp.pwd := by
  have hsteps : streamsStores sdp (sdpAttr (ascii "ice-ufrag") sdp.attrs)
      (sdpAttr (ascii "ice-pwd") sdp.attrs) 0 0 streams =
      (reached sdp.ufrag sdp.pwd (sdp.steps streams)).flatMap (ScanStep.stores _ _) :=
    streamsStores_eq sdp rfl rfl 0 0 streams
  rw [hsteps, StoresFit, List.forall_mem_flatMap]
  exact forall₂_congr (fun step _ => stores_fit_iff rfl rfl step)

/-- A description whose values stay below the limits as far as the scan goes. -/
def SdpSession.Small (sdp : SdpSession) (streams : List Stream) : Prop :=
  sdp.name = ascii "IOEX-ice-session" → ∀ key rc, sdp.decodedKey = some (key, rc) →
    rc % 2 ^ 32 < 2 ^ 31 →
      ∀ step ∈ reached sdp.ufrag sdp.pwd (sdp.steps streams), step.Small sdp.ufrag sdp.pwd

/-- Every store is inside of its array exactly for the small descriptions. -/
theorem applyRemoteSdpStores_fit_iff {codec : SdpCodec} {text : Bytes} {sdp : SdpSession}
    (s : IOEXSession) (hparse : codec.parse text = some sdp) :
    StoresFit (applyRemoteSdpStores codec s text) ↔ sdp.Small s.streams := by
  unfold applyRemoteSdpStores SdpSession.Small SdpSession.decodedKey
  rw [hparse]
  dsimp only
  by_cases hname : sdp.name = ascii "IOEX-ice-session"
  · rw [if_neg (not_not_intro hname)]
    cases hkey : base58Decode (sdp.originUser ++ ascii " ") sdp.originUser.length
        publicKeyBytes with
    | none => simp
    | some decoded =>
      obtain ⟨key, rc⟩ := decoded
      simp only [hname, true_implies, Option.some.injEq, Prod.mk.injEq, and_imp]
      by_cases hrc : 2 ^ 31 ≤ rc % 2 ^ 32
      · rw [if_pos hrc]
        refine iff_of_true storesFit_nil ?_
        rintro key' rc' rfl rfl hlt
        exact absurd hlt (not_lt.mpr hrc)
      · rw [if_neg hrc, streamsStores_fit_iff]
        constructor
        · rintro hsteps key' rc' rfl rfl -
          exact hsteps
        · intro hsteps
          exact hsteps key rc rfl rfl (not_le.mp hrc)
  · rw [if_pos hname]
    simp [hname]

theorem reached_subset {step : ScanStep} {steps : List ScanStep}
    (h : step ∈ reached ufrag pwd steps) : step ∈ steps := by
  induction steps with
  | nil => cases h
  | cons first steps ih =>
    rw [reached] at h
    rcases List.mem_cons.mp h with rfl | h
    · exact List.mem_cons_self
    · by_cases hfirst : first.fault ufrag pwd = none
      · rw [if_pos hfirst] at h
        exact List.mem_cons_of_mem _ (ih h)
      · rw [if_neg hfirst] at h
        cases h

theorem exists_reached_fault {f : ScanFault} {steps : List ScanStep}
    (h : firstFault ufrag pwd steps = some f) :
    ∃ step ∈ reached ufrag pwd steps, step.fault ufrag pwd = some f := by
  induction steps with
  | nil => cases h
  | cons first steps ih =>
    rw [firstFault_cons] at h
    rw [reached]
    cases hfirst : first.fault ufrag pwd with
    | none =>
      rw [hfirst, Option.none_or] at h
      obtain ⟨step, hstep, hfault⟩ := ih h
      exact ⟨step, List.mem_cons_of_mem _ (by simpa using hstep), hfault⟩
    | some g =>
      rw [hfirst] at h
      exact ⟨first, List.mem_cons_self, hfirst.trans h⟩

theorem mem_media_of_begin {sdp : SdpSession} {media : SdpMedia} {index ops : ℕ}
    {streams : List Stream} (h : .begin media ∈ scanSteps sdp index ops streams) :
    media ∈ sdp.media := by
  have hlines : ∀ index lines, ScanStep.begin media ∉ lineSteps index lines := by
    intro index lines
    induction lines generalizing index with
    | nil => simp [lineSteps]
    | cons line lines ih => simpa [lineSteps] using ih (index + 1)
  induction streams generalizing index ops with
  | nil => cases h
  | cons s streams ih =>
    rw [scanSteps] at h
    cases hmedia : sdp.media[index]? with
    | none =>
      rw [hmedia] at h
      exact ih h
    | some first =>
      rw [hmedia] at h
      rcases List.mem_cons.mp h with heq | h
      · cases heq
        exact List.mem_of_getElem? hmedia
      · rcases List.mem_append.mp h with h | h
        · split_ifs at h with hops
          · exact absurd h (hlines 0 _)
          · cases h
        · exact ih h

/-- A small step has no fault out of bounds, unless its media line is incomplete. -/
theorem fault_of_small {step : ScanStep} (hsmall : step.Small ufrag pwd)
    (hfault : step.fault ufrag pwd = some .outOfBounds) :
    ∃ media, step = .begin media ∧ media.Incomplete := by
  cases step with
  | begin media =>
    obtain ⟨hufrag, hpwd⟩ := hsmall
    refine ⟨media, rfl, ?_⟩
    by_contra hconn
    have hlong : ¬(media.Incomplete ∨ 80 < ufrag.length ∨ 80 < pwd.length) := by
      rw [not_or, not_or]
      exact ⟨hconn, by omega, by omega⟩
    rw [ScanStep.fault, if_neg hlong] at hfault
    cases hfault
  | line index text =>
    obtain ⟨hfit, hindex⟩ := hsmall
    rw [ScanStep.fault] at hfault
    cases hline : readLine text with
    | tooLong =>
      rw [(readLine_eq_tooLong_iff text).mp hline] at hfit
      cases hfit
    | invalid =>
      rw [hline] at hfault
      cases hfault
    | candidate compId cand =>
      rw [hline] at hfault hindex
      have hlt : index < iceStMaxCand := hindex.resolve_left (by simp)
      dsimp only at hfault
      rw [if_neg (not_le.mpr hlt)] at hfault
      cases hfault

/-- A small description whose media lines have a format and an address gives the call a result. -/
theorem SdpSession.Small.isSome {codec : SdpCodec} {text : Bytes} {sdp : SdpSession}
    {s : IOEXSession} (hsmall : sdp.Small s.streams) (hparse : codec.parse text = some sdp)
    (hconn : ∀ media ∈ sdp.media, ¬media.Incomplete) : (applyRemoteSdp codec s text).isSome := by
  by_cases hname : sdp.name = ascii "IOEX-ice-session"
  · cases hkey : sdp.decodedKey with
    | none =>
      rw [applyRemoteSdp_refused hparse (.inr hkey)]
      rfl
    | some decoded =>
      obtain ⟨key, rc⟩ := decoded
      rw [applyRemoteSdp_of_key hparse hname hkey]
      by_cases hrc : 2 ^ 31 ≤ rc % 2 ^ 32
      · rw [if_pos hrc]
        rfl
      · rw [if_neg hrc, Option.isSome_map, ← Option.isSome_map (f := Prod.fst),
          scanStreams_result]
        cases hfault : sdp.fault s.streams with
        | none => rfl
        | some f =>
          cases f with
          | invalid => rfl
          | outOfBounds =>
            obtain ⟨step, hstep, hstepFault⟩ := exists_reached_fault hfault
            have hstepSmall := hsmall hname key rc hkey (not_le.mp hrc) step hstep
            obtain ⟨media, rfl, hnone⟩ := fault_of_small hstepSmall hstepFault
            exact absurd hnone (hconn media (mem_media_of_begin (reached_subset hstep)))
  · rw [applyRemoteSdp_refused hparse (.inl hname)]
    rfl

end

open Peers

/-- The offer with this ufrag and these candidate lines. -/
def sdpWith (ufrag : Bytes) (lines : List Bytes) : SdpSession :=
  { offerSdp with
    attrs := [⟨ascii "ice-ufrag", ufrag⟩, ⟨ascii "ice-pwd", ascii "Pw5d"⟩]
    media := [⟨ascii "application", 50000, some (ascii "0"), some (ascii "192.168.1.2"),
      lines.map (fun line => ⟨ascii "candidate", line, ascii "\r\n"⟩)⟩] }

def textWith (ufrag : Bytes) (lines : List Bytes) : Bytes :=
  ascii "v=0\r\no=Hjfrxx21RRVeBijikN3zkv9fqFsjgRHd6Y7ziR8m5JSG 1500000000 1500000000 IN IP4 " ++
    ascii "192.168.1.2\r\ns=IOEX-ice-session\r\nt=0 0\r\na=ice-ufrag:" ++ ufrag ++
    ascii "\r\na=ice-pwd:Pw5d\r\nm=application 50000 UDP 0\r\nc=IN IP4 192.168.1.2\r\n" ++
    lines.flatMap (fun line => ascii "a=candidate:" ++ line ++ ascii "\r\n")

/-- The stores of a new session for such a description. -/
def storesWith (ufrag : Bytes) (lines : List Bytes) : List ArrayStore :=
  applyRemoteSdpStores (codecOf (textWith ufrag lines) (sdpWith ufrag lines)) controlledSession
    (textWith ufrag lines)

def hostLine : Bytes := ascii "Hc0a80102 1 UDP 2130706431 192.168.1.2 50000 typ host"

/-- One candidate. -/
theorem applyRemoteSdpStores_fit_host : StoresFit (storesWith (ascii "Uf4c") [hostLine]) := by
  refine (applyRemoteSdpStores_fit_iff controlledSession
    (codecOf_parse (textWith (ascii "Uf4c") [hostLine]) (sdpWith (ascii "Uf4c") [hostLine]))).mpr ?_
  intro _ _ _ _ _
  decide +kernel

/-- A ufrag without room for its terminator, a ninth candidate, and a foundation of 32 bytes. -/
theorem applyRemoteSdpStores_overflow :
    ¬StoresFit (storesWith (List.replicate 80 97) [hostLine]) ∧
      ¬StoresFit (storesWith (ascii "Uf4c") (List.replicate 9 hostLine)) ∧
      ¬StoresFit (storesWith (ascii "Uf4c")
        [List.replicate 32 97 ++ ascii " 1 UDP 2130706431 192.168.1.2 50000 typ host"]) := by
  decide +kernel

end Carrier.Session
