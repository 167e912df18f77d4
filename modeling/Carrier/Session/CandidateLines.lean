import Carrier.Session.OptionNegotiation
import Carrier.Session.RemoteStores

/-! The candidates of a stream on their way from `ice_session_encode_local_sdp` of one end to
`handler->remote` of the other. -/
namespace Carrier.Session
open Carrier.Lib Carrier.Common

/-- An address in a text of at most `PJ_INET6_ADDRSTRLEN` bytes. -/
structure SockAddr.Printed (a : SockAddr) : Prop where
  word : Word a.addr
  length : a.addr.length < 46
  port : a.port < 2 ^ 16
  inet6 : a.inet6 = a.addr.contains 58

/-- The related address, which is not printed for a host candidate. -/
def IceCand.related (c : IceCand) : Option SockAddr := if c.type = .host then none else c.relAddr

def relatedText : Option SockAddr → Bytes
  | none => []
  | some rel => ascii " raddr " ++ rel.addr ++ ascii " rport " ++ decimal rel.port

/-- The text of a candidate before it is cut to the size of the buffer. -/
def IceCand.line (c : IceCand) : Bytes :=
  c.foundation ++ ascii " " ++ decimal c.compId ++ ascii " UDP " ++ decimal c.prio ++ ascii " " ++
    c.addr.addr ++ ascii " " ++ decimal c.addr.port ++ ascii " typ " ++ c.type.text ++
    relatedText c.related

/-- A candidate as `pjnath` has them, with a line that fits the buffer. -/
structure IceCand.Printed (c : IceCand) : Prop where
  type : c.type ≠ .prflx
  word : Word c.foundation
  foundation : c.foundation.length ≤ 31
  compId : c.compId < 2 ^ 8
  prio : c.prio < 2 ^ 32
  addr : c.addr.Printed
  relAddr : c.type ≠ .host → ∃ rel, c.relAddr = some rel ∧ rel.Printed
  line : c.line.length ≤ 127

/-- The text behind a value: the end of its line, and then nothing or the next line, which is `x=…`. -/
structure LineEnd (tail : Bytes) : Prop where
  blank : Break tail
  next : ∀ b ∈ (tail.dropWhile isSpace)[1]?, b = 61

/-- What the peer makes of a candidate. It takes the family of the related address from the address. -/
def IceCand.received (c : IceCand) : RemoteCand :=
  ⟨c.type, c.foundation.length, c.compId, c.prio, c.addr,
    c.related.map (fun rel => { rel with inet6 := c.addr.inet6 })⟩

section Line

variable {c : IceCand} {tail : Bytes}

theorem IceCand.Printed.value (h : c.Printed) : candidateValue c = some c.line := by
  have hcut := List.take_of_length_le h.line
  unfold candidateValue
  dsimp only
  cases htype : c.type with
  | host =>
    rw [← hcut]
    simp [IceCand.line, IceCand.related, htype, relatedText]
  | prflx => exact absurd htype h.type
  | srflx =>
    obtain ⟨rel, hrel, -⟩ := h.relAddr (by simp [htype])
    rw [hrel, ← hcut]
    simp [IceCand.line, IceCand.related, htype, relatedText, hrel]
  | relayed =>
    obtain ⟨rel, hrel, -⟩ := h.relAddr (by simp [htype])
    rw [hrel, ← hcut]
    simp [IceCand.line, IceCand.related, htype, relatedText, hrel]

theorem word_type (type : CandType) : Word type.text := by
  cases type <;> decide

theorem candTypeOf_text (type : CandType) : candTypeOf type.text = some type := by
  cases type <;> decide

theorem LineEnd.no_raddr (h : LineEnd tail) (format : List Conv) :
    sscanf (.lit (ascii "raddr") :: format) tail = [] := by
  rw [sscanf]
  refine if_neg ?_
  intro hbegins
  obtain ⟨rest, hrest⟩ := List.isPrefixOf_iff_prefix.mp hbegins
  have hnext := h.next 97 (by rw [← hrest]; rfl)
  cases hnext

def IceCand.args (c : IceCand) : List ScanArg :=
  [.str c.foundation, .int c.compId, .str (ascii "UDP"), .int c.prio, .str c.addr.addr,
    .int c.addr.port, .str c.type.text] ++
    match c.related with
    | none => []
    | some rel => [.str rel.addr, .int rel.port]

theorem related_printed (h : c.Printed) : ∀ rel ∈ c.related, rel.Printed := by
  intro rel hrel
  unfold IceCand.related at hrel
  split_ifs at hrel with hhost
  · cases hrel
  · obtain ⟨rel', hrel', hprinted⟩ := h.relAddr hhost
    rw [hrel'] at hrel
    cases hrel
    exact hprinted

theorem sscanf_line (h : c.Printed) (htail : LineEnd tail) :
    sscanf candidateFormat (c.line ++ tail) = c.args := by
  have hsplit : c.line ++ tail = c.foundation ++ 32 :: (decimal c.compId ++ 32 :: (ascii "UDP" ++
      32 :: (decimal c.prio ++ 32 :: (c.addr.addr ++ 32 :: (decimal c.addr.port ++ 32 ::
        (ascii "typ" ++ 32 :: (c.type.text ++ (relatedText c.related ++ tail)))))))) := by
    have hspace : ascii " " = [32] := rfl
    have hudp : ascii " UDP " = 32 :: (ascii "UDP" ++ [32]) := rfl
    have htyp : ascii " typ " = 32 :: (ascii "typ" ++ [32]) := rfl
    simp only [IceCand.line, hspace, hudp, htyp, List.append_assoc, List.cons_append, List.nil_append]
  have hudp : Word (ascii "UDP") := by decide
  have htyp : Word (ascii "typ") := by decide
  have htype : c.type.text.length ≤ 32 := by
    cases c.type <;> decide
  have hbreak : Break (relatedText c.related ++ tail) := by
    cases c.related with
    | none => exact htail.blank
    | some rel => exact break_space _
  rw [hsplit, candidateFormat, IceCand.args,
    sscanf_str 32 h.word (h.foundation.trans (by decide)) (break_space _), sscanf_space,
    sscanf_int _ (break_space _), sscanf_space, sscanf_str 12 hudp (by decide) (break_space _),
    sscanf_space, sscanf_int _ (break_space _), sscanf_space,
    sscanf_str 80 h.addr.word (h.addr.length.le.trans (by decide)) (break_space _), sscanf_space,
    sscanf_int _ (break_space _), sscanf_space, sscanf_lit htyp, sscanf_space,
    sscanf_str 32 (word_type _) htype hbreak]
  simp only [List.cons_append, List.nil_append, List.cons.injEq, true_and]
  cases hrelated : c.related with
  | none => exact htail.no_raddr _
  | some rel =>
    have hrel := related_printed h rel hrelated
    have hraddr : Word (ascii "raddr") := by decide
    have hrport : Word (ascii "rport") := by decide
    have hsplit : relatedText (some rel) ++ tail = 32 :: (ascii "raddr" ++ 32 :: (rel.addr ++ 32 ::
        (ascii "rport" ++ 32 :: (decimal rel.port ++ tail)))) := by
      have hraddr : ascii " raddr " = 32 :: (ascii "raddr" ++ [32]) := rfl
      have hrport : ascii " rport " = 32 :: (ascii "rport" ++ [32]) := rfl
      simp only [relatedText, hraddr, hrport, List.append_assoc, List.cons_append, List.nil_append]
    rw [hsplit, sscanf_space, sscanf_lit hraddr, sscanf_space,
      sscanf_str 80 hrel.word (hrel.length.le.trans (by decide)) (break_space _), sscanf_space,
      sscanf_lit hrport, sscanf_space, sscanf_int _ htail.blank]
    rfl

theorem toNat_emod_of_lt {n m : ℕ} (h : n < m) : ((n : ℤ) % m).toNat = n := by
  rw [Int.emod_eq_of_lt (Int.natCast_nonneg n) (by exact_mod_cast h), Int.toNat_natCast]

theorem SockAddr.Printed.read {a : SockAddr} (h : a.Printed) (inet6 : Bool) :
    candAddr a.addr inet6 a.port = { a with inet6 := inet6 } := by
  have hport : ((a.port : ℤ) % 2 ^ 16).toNat = a.port := toNat_emod_of_lt h.port
  rw [candAddr, hport]

theorem readLine_line (h : c.Printed) (htail : LineEnd tail) :
    readLine (c.line ++ tail) = .candidate c.compId c.received := by
  have htokens : tokensFit c.args = true := by
    have hfoundation := Nat.lt_succ_of_le h.foundation
    have haddr : c.addr.addr.length < 80 := h.addr.length.trans (by decide)
    have htype : c.type.text.length < 32 := by
      cases c.type <;> decide
    unfold tokensFit IceCand.args
    cases hrelated : c.related with
    | none => simp [tokenSizes, hfoundation, haddr, htype, ascii]
    | some rel =>
      have hrel : rel.addr.length < 80 :=
        (related_printed h rel hrelated).length.trans (by decide)
      simp [tokenSizes, hfoundation, haddr, htype, hrel, ascii]
  have hcomp : ((c.compId : ℤ) % 2 ^ 32).toNat = c.compId :=
    toNat_emod_of_lt (h.compId.trans (by decide))
  have hcomp8 : ((c.compId : ℤ) % 2 ^ 8).toNat = c.compId := toNat_emod_of_lt h.compId
  have hprio : ((c.prio : ℤ) % 2 ^ 32).toNat = c.prio := toNat_emod_of_lt h.prio
  have haddr : candAddr c.addr.addr (c.addr.addr.contains 58) c.addr.port = c.addr := by
    rw [h.addr.read, ← h.addr.inet6]
  unfold readLine
  dsimp only
  rw [sscanf_line h htail, htokens, if_neg (by decide), IceCand.args, IceCand.received]
  cases hrelated : c.related with
  | none =>
    dsimp only [List.cons_append, List.nil_append]
    rw [candTypeOf_text]
    dsimp only
    rw [hcomp, hcomp8, hprio, haddr, Option.map_none]
  | some rel =>
    have hrel := (related_printed h rel hrelated).read (c.addr.addr.contains 58)
    dsimp only [List.cons_append, List.nil_append]
    rw [candTypeOf_text]
    dsimp only
    rw [hcomp, hcomp8, hprio, haddr, hrel, ← h.addr.inet6, Option.map_some]

end Line

/-- A line of a parsed description with this candidate. -/
def Carries (c : IceCand) (line : Bytes) : Prop := ∃ tail, LineEnd tail ∧ line = c.line ++ tail

section Lines

variable {cands : List IceCand} {lines : List Bytes} {ufrag pwd : Bytes}

/-- The lines of printed candidates have no fault as long as there are not too many. -/
theorem firstFault_lines (hlines : List.Forall₂ Carries cands lines)
    (hcands : ∀ c ∈ cands, c.Printed) {index : ℕ} (hcount : index + cands.length ≤ iceStMaxCand) :
    firstFault ufrag pwd (lineSteps index lines) = none := by
  induction hlines generalizing index with
  | nil => rfl
  | @cons c line cands lines hline _ ih =>
    obtain ⟨tail, htail, rfl⟩ := hline
    rw [List.length_cons] at hcount
    have hfault : (ScanStep.line index (c.line ++ tail)).fault ufrag pwd = none := by
      rw [ScanStep.fault, readLine_line (hcands c List.mem_cons_self) htail]
      exact if_neg (by omega)
    rw [lineSteps, firstFault_cons, hfault, Option.none_or]
    exact ih (fun c hc => hcands c (List.mem_cons_of_mem _ hc)) (by omega)

/-- The record ends up with all of them, in their order. -/
theorem filled_cand (hlines : List.Forall₂ Carries cands lines) (hcands : ∀ c ∈ cands, c.Printed)
    (remote : IceRemote) :
    (remote.filled lines).cand = remote.cand ++ cands.map IceCand.received := by
  induction hlines generalizing remote with
  | nil => simp [IceRemote.filled]
  | @cons c line cands lines hline _ ih =>
    obtain ⟨tail, htail, rfl⟩ := hline
    rw [IceRemote.filled, readLine_line (hcands c List.mem_cons_self) htail]
    dsimp only
    rw [ih (fun c hc => hcands c (List.mem_cons_of_mem _ hc))]
    simp [IceRemote.add]

end Lines

/-- The description that `ice_session_encode_local_sdp` prints. -/
def localSdp (s : IOEXSession) : Option SdpSession := do
  let pk ← (base58Encode s.publicKey 64).join
  let crypto ← encodeNonce s
  let media ← encodeMedia 0 s.streams
  some
    { originUser := pk
      name := ascii "IOEX-ice-session"
      attrs := [⟨ascii "ice-ufrag", s.ufrag⟩, ⟨ascii "ice-pwd", s.pwd⟩] ++ crypto
      media := media }

theorem encodeLocalSdp_eq (codec : SdpCodec) (s : IOEXSession) :
    encodeLocalSdp codec s = (localSdp s).bind codec.print := by
  unfold encodeLocalSdp localSdp
  simp only [Option.bind_eq_bind, Option.bind_assoc, Option.bind_some]

/-- What printing and parsing keep of a media line. -/
structure SdpMedia.Kept (m m' : SdpMedia) : Prop where
  fmt : m'.fmt = m.fmt
  conn : m'.conn = m.conn
  attrs : List.Forall₂ (fun a a' => a'.name = a.name ∧ a'.value = a.value ∧ LineEnd a'.tail)
    m.attrs m'.attrs

/-- What printing and parsing keep of a description. -/
structure SdpSession.Kept (sdp sdp' : SdpSession) : Prop where
  originUser : sdp'.originUser = sdp.originUser
  name : sdp'.name = sdp.name
  attrs : sdp'.attrs = sdp.attrs
  media : List.Forall₂ SdpMedia.Kept sdp.media sdp'.media

/-- Printing and parsing keep this description. -/
def SdpCodec.Keeps (codec : SdpCodec) (sdp : SdpSession) : Prop :=
  ∀ text, codec.print sdp = some text → ∃ sdp', codec.parse text = some sdp' ∧ sdp.Kept sdp'

/-- A session that can be described: `IceSession` has room for short ufrags and passwords, and the
candidates of its streams are those of `pjnath`. -/
structure IOEXSession.Describable (s : IOEXSession) : Prop where
  publicKey : s.publicKey.length = publicKeyBytes
  ufrag : s.ufrag.length ≤ 80
  pwd : s.pwd.length ≤ 80
  count : ∀ stream ∈ s.streams, ∀ ice ∈ stream.ice, ice.cands.length ≤ iceStMaxCand
  cands : ∀ stream ∈ s.streams, ∀ ice ∈ stream.ice, ∀ c ∈ ice.cands, c.Printed

/-- The media line of a stream, as it arrives. -/
def Offered (ops : ℕ) (s : Stream) (media : SdpMedia) : Prop :=
  ∃ ice, s.ice = some ice ∧ media.fmt = some (decimal ops) ∧ media.conn = some ice.default.addr ∧
    List.Forall₂ Carries ice.cands media.candidateLines

section Media

variable {ufrag pwd : Bytes}

theorem mapM_candidateValue {cands : List IceCand} (h : ∀ c ∈ cands, c.Printed) :
    cands.mapM candidateValue = some (cands.map IceCand.line) := by
  induction cands with
  | nil => rfl
  | cons c cands ih =>
    rw [List.mapM_cons, (h c List.mem_cons_self).value, ih (fun c hc => h c (List.mem_cons_of_mem _ hc))]
    rfl

theorem candidateLines_kept {cands : List IceCand} {media media' : SdpMedia}
    (hattrs : media.attrs = (cands.map IceCand.line).map (fun v => ⟨ascii "candidate", v, []⟩))
    (h : media.Kept media') : List.Forall₂ Carries cands media'.candidateLines := by
  have hkept := h.attrs
  rw [hattrs, List.map_map, List.forall₂_map_left_iff] at hkept
  clear hattrs
  unfold SdpMedia.candidateLines
  generalize media'.attrs = attrs at hkept ⊢
  induction hkept with
  | nil => exact .nil
  | @cons c a cands attrs ha _ ih =>
    obtain ⟨hname, hvalue, htail⟩ := ha
    rw [List.filter_cons_of_pos (by simpa using hname), List.map_cons]
    exact .cons ⟨a.tail, htail, congrArg (· ++ a.tail) hvalue⟩ ih

/-- Stream by stream the media lines of a description arrive as they were offered. -/
theorem encodeMedia_offered {ops : ℕ} {streams : List Stream} {media media' : List SdpMedia}
    (h : encodeMedia ops streams = some media) (hkept : List.Forall₂ SdpMedia.Kept media media')
    (hcands : ∀ s ∈ streams, ∀ ice ∈ s.ice, ∀ c ∈ ice.cands, c.Printed) (k : ℕ) :
    Option.Rel (Offered (opsUpTo ops streams k)) streams[k]? media'[k]? := by
  induction streams generalizing ops media media' k with
  | nil =>
    cases h
    cases hkept
    exact .none
  | cons s streams ih =>
    rw [encodeMedia] at h
    obtain ⟨ice, hice, h⟩ := Option.bind_eq_some_iff.mp h
    obtain ⟨values, hvalues, h⟩ := Option.bind_eq_some_iff.mp h
    obtain ⟨rest, hrest, h⟩ := Option.bind_eq_some_iff.mp h
    rw [mapM_candidateValue (hcands s List.mem_cons_self ice hice)] at hvalues
    cases hvalues
    cases h
    cases hkept with
    | @cons _ first _ rest' hfirst hkept =>
      cases k with
      | zero => exact .some ⟨ice, hice, hfirst.fmt, hfirst.conn, candidateLines_kept rfl hfirst⟩
      | succ k =>
        exact ih hrest hkept (fun s hs => hcands s (List.mem_cons_of_mem _ hs)) k

/-- A description without a fault in any of its lines is scanned to the end. -/
theorem firstFault_scanSteps {sdp : SdpSession} (hufrag : ufrag.length ≤ 80) (hpwd : pwd.length ≤ 80)
    (hmedia : ∀ media ∈ sdp.media, ¬media.Incomplete ∧
      firstFault ufrag pwd (lineSteps 0 media.candidateLines) = none)
    (index ops : ℕ) (streams : List Stream) :
    firstFault ufrag pwd (scanSteps sdp index ops streams) = none := by
  induction streams generalizing index ops with
  | nil => rfl
  | cons s streams ih =>
    rw [scanSteps]
    cases hfirst : sdp.media[index]? with
    | none => exact ih index ops
    | some media =>
      obtain ⟨hconn, hlines⟩ := hmedia media (List.mem_of_getElem? hfirst)
      have hbegin : (ScanStep.begin media).fault ufrag pwd = none := by
        refine if_neg ?_
        rw [not_or, not_or]
        exact ⟨hconn, not_lt.mpr hufrag, not_lt.mpr hpwd⟩
      dsimp only
      rw [firstFault_cons, hbegin, Option.none_or, firstFault_append, ih, Option.or_none]
      split_ifs
      · exact hlines
      · rfl

/-- The record of every stream that has a media line, once the scan has come to its end. -/
theorem applyStreams_remote {sdp : SdpSession} {uf pw : Option Bytes} (hufrag : uf.getD [] = ufrag)
    (hpwd : pw.getD [] = pwd) {index ops : ℕ} {streams streams' : List Stream}
    (h : applyStreams sdp uf pw index ops streams = some (true, streams')) (k : ℕ) :
    Option.Rel (fun _ s' => ∀ media, sdp.media[index + k]? = some media →
      s'.remote = if media.Agrees (opsUpTo ops streams k) then
        (IceRemote.begun ufrag pwd media).filled media.candidateLines
        else .begun ufrag pwd media) streams[k]? streams'[k]? := by
  induction streams generalizing index ops streams' k with
  | nil =>
    cases h
    exact .none
  | cons s streams ih =>
    obtain ⟨s', rest, rfl, ⟨hmedia, -, hrest⟩ | ⟨media, hmedia, rfl, hrest⟩⟩ :=
      applyStreams_cons_true hufrag hpwd h
    · have hnone : ∀ k, sdp.media[index + k]? = none := by
        intro k
        rw [List.getElem?_eq_none_iff] at hmedia ⊢
        omega
      cases k with
      | zero =>
        refine .some ?_
        intro media hk
        rw [hnone] at hk
        cases hk
      | succ k =>
        have htail := ih hrest k
        simp only [hnone, reduceCtorEq, false_implies, implies_true] at htail ⊢
        exact htail
    · cases k with
      | zero =>
        refine .some ?_
        intro media' hk
        rw [Nat.add_zero, hmedia] at hk
        cases hk
        rw [Stream.scanned, opsUpTo_zero]
        split_ifs <;> rfl
      | succ k =>
        have htail := ih hrest k
        rw [Nat.add_right_comm, Nat.add_assoc] at htail
        exact htail

end Media

/-- What the peer holds of a candidate: the record, and a foundation in the array `foundation[32]` of a
call that has returned, where there is now `storage`. -/
structure Survives (storage : Bytes) (c : IceCand) (r : RemoteCand) : Prop where
  foundation : storage.take r.foundationLen = c.foundation
  compId : r.compId = c.compId
  prio : r.prio = c.prio
  type : r.type = c.type
  addr : r.addr = c.addr
  relAddr : r.relAddr = c.related

/-- The related address is of the same family as the address. -/
def IceCand.OneFamily (c : IceCand) : Prop := ∀ rel ∈ c.related, rel.inet6 = c.addr.inet6

section Survival

variable {cands : List IceCand} {storage : Bytes}

/-- Everything but the foundation survives, if there is one family of addresses. -/
theorem survives_received_iff (c : IceCand) :
    Survives storage c c.received ↔ c.foundation <+: storage ∧ c.OneFamily := by
  have hrel : c.received.relAddr = c.related ↔ c.OneFamily := by
    unfold IceCand.received IceCand.OneFamily
    cases c.related with
    | none => simp
    | some rel =>
      obtain ⟨inet6, addr, port⟩ := rel
      simp [eq_comm]
  have hfoundation : storage.take c.received.foundationLen = c.foundation ↔ c.foundation <+: storage := by
    rw [List.prefix_iff_eq_take, eq_comm]
    rfl
  constructor
  · intro h
    exact ⟨hfoundation.mp h.foundation, hrel.mp h.relAddr⟩
  · rintro ⟨hbegins, hfamily⟩
    exact ⟨hfoundation.mpr hbegins, rfl, rfl, rfl, rfl, hrel.mpr hfamily⟩

theorem forall₂_survives_iff :
    List.Forall₂ (Survives storage) cands (cands.map IceCand.received) ↔
      ∀ c ∈ cands, c.foundation <+: storage ∧ c.OneFamily := by
  rw [List.forall₂_map_right_iff, List.forall₂_same]
  exact forall₂_congr (fun c _ => survives_received_iff c)

/-- Whatever the array holds, nothing survives but the empty list. -/
theorem forall_survives_iff (hcands : ∀ c ∈ cands, c.Printed) {received : List RemoteCand}
    (h : received = [] ∨ received = cands.map IceCand.received) :
    (∀ storage, storage.length = 32 → List.Forall₂ (Survives storage) cands received) ↔
      cands = [] := by
  constructor
  · intro hall
    have hblank := hall (List.replicate 32 32) List.length_replicate
    cases cands with
    | nil => rfl
    | cons c cands =>
      rcases h with rfl | rfl
      · cases hblank
      · have hbegins := (forall₂_survives_iff.mp hblank c List.mem_cons_self).1
        exact absurd hbegins ((hcands c List.mem_cons_self).word.not_prefix_blanks 32)
  · rintro rfl storage -
    rcases h with rfl | rfl
    · exact .nil
    · exact .nil

end Survival

section Exchange

variable {codec : SdpCodec} {a b : IOEXSession} {text : Bytes}

/-- What the peer needs of a description it has parsed. -/
theorem localSdp_kept {sdp sdp' : SdpSession} (hsdp : localSdp a = some sdp) (hkept : sdp.Kept sdp') :
    sdp'.name = ascii "IOEX-ice-session" ∧ sdp'.originUser = base58Text a.publicKey ∧
      sdp'.ufrag = a.ufrag ∧ sdp'.pwd = a.pwd ∧
      ∃ media, encodeMedia 0 a.streams = some media ∧
        List.Forall₂ SdpMedia.Kept media sdp'.media := by
  unfold localSdp at hsdp
  obtain ⟨pk, hpk, hsdp⟩ := Option.bind_eq_some_iff.mp hsdp
  obtain ⟨crypto, hcrypto, hsdp⟩ := Option.bind_eq_some_iff.mp hsdp
  obtain ⟨media, hmedia, hsdp⟩ := Option.bind_eq_some_iff.mp hsdp
  cases hsdp
  have hattrs : sdpAttr (ascii "ice-ufrag") sdp'.attrs = some a.ufrag ∧
      sdpAttr (ascii "ice-pwd") sdp'.attrs = some a.pwd := by
    rw [hkept.attrs]
    unfold encodeNonce at hcrypto
    split_ifs at hcrypto with henabled
    · obtain ⟨nonce, -, rfl⟩ := Option.map_eq_some_iff.mp hcrypto
      exact ⟨rfl, rfl⟩
    · cases hcrypto
      exact ⟨rfl, rfl⟩
  have huser := base58Encode_eq_text hpk
  exact ⟨hkept.name, hkept.originUser.trans huser, by rw [SdpSession.ufrag, hattrs.1]; rfl,
    by rw [SdpSession.pwd, hattrs.2]; rfl, media, hmedia, hkept.media⟩

/-- The call of the peer has no fault. -/
theorem fault_eq_none {sdp : SdpSession} (ha : a.Describable) (hufrag : sdp.ufrag = a.ufrag)
    (hpwd : sdp.pwd = a.pwd)
    (hoffered : ∀ k, Option.Rel (Offered (opsUpTo 0 a.streams k)) a.streams[k]? sdp.media[k]?)
    (streams : List Stream) : sdp.fault streams = none := by
  refine firstFault_scanSteps (hufrag ▸ ha.ufrag) (hpwd ▸ ha.pwd) ?_ 0 0 streams
  intro media hmem
  obtain ⟨k, hk⟩ := List.mem_iff_getElem?.mp hmem
  have hrel := hoffered k
  rw [hk] at hrel
  generalize hs : a.streams[k]? = own at hrel
  cases hrel with
  | @some s _ hoffer =>
    obtain ⟨ice, hice, hfmt, hconn, hlines⟩ := hoffer
    have hmemS := List.mem_of_getElem? hs
    exact ⟨by simp [SdpMedia.Incomplete, hconn, hfmt], firstFault_lines hlines (ha.cands s hmemS ice hice)
      (by simpa using ha.count s hmemS ice hice)⟩

/-- The records the peer ends up with. -/
theorem exists_applied (ha : a.Describable)
    (hcodec : ∀ sdp, localSdp a = some sdp → codec.Keeps sdp)
    (hencode : encodeLocalSdp codec a = some text) (b : IOEXSession) :
    ∃ b', applyRemoteSdp codec b text = some (true, b') ∧
      ∀ k sa ice sb, a.streams[k]? = some sa → sa.ice = some ice → b'.streams[k]? = some sb →
        sb.remote.cand =
          if opsUpTo 0 b.streams k = opsUpTo 0 a.streams k then ice.cands.map IceCand.received
          else [] := by
  rw [encodeLocalSdp_eq] at hencode
  obtain ⟨sent, hsent, hprint⟩ := Option.bind_eq_some_iff.mp hencode
  obtain ⟨sdp, hparse, hkept⟩ := hcodec sent hsent text hprint
  obtain ⟨hname, huser, hufrag, hpwd, media, hmedia, hmediaKept⟩ := localSdp_kept hsent hkept
  have hoffered := encodeMedia_offered hmedia hmediaKept ha.cands
  have hbytes : base58Bytes sdp.originUser = some a.publicKey := by
    rw [huser]
    exact base58Bytes_base58Text a.publicKey
  obtain ⟨rc, hkey, hrc⟩ := SdpSession.decodedKey_of_bytes hbytes ha.publicKey
  have hfault := fault_eq_none ha hufrag hpwd hoffered b.streams
  obtain ⟨streams, hscan⟩ := exists_scanStreams (congrArg faultResult hfault)
  have happly := applyRemoteSdp_of_key (s := b) hparse hname hkey
  rw [if_neg (by omega), hscan] at happly
  refine ⟨_, happly, ?_⟩
  intro k sa ice sb hsa hice hsb
  have hrel := hoffered k
  rw [hsa] at hrel
  generalize hm : sdp.media[k]? = line at hrel
  cases hrel with
  | @some _ media hoffer =>
    obtain ⟨ice', hice', hfmt, -, hlines⟩ := hoffer
    cases hice.symm.trans hice'
    have hremote := applyStreams_remote rfl rfl hscan k
    rw [show streams[k]? = some sb from hsb] at hremote
    generalize b.streams[k]? = own at hremote
    cases hremote with
    | some hremote =>
      have hagrees : media.Agrees (opsUpTo 0 b.streams k) ↔
          opsUpTo 0 b.streams k = opsUpTo 0 a.streams k := by
        rw [SdpMedia.agrees_iff hfmt, atoi_decimal, Nat.cast_inj]
      rw [hremote media (by rw [Nat.zero_add, hm])]
      by_cases hops : opsUpTo 0 b.streams k = opsUpTo 0 a.streams k
      · rw [if_pos (hagrees.mpr hops), if_pos hops,
          filled_cand hlines (ha.cands sa (List.mem_of_getElem? hsa) ice hice)]
        rfl
      · rw [if_neg (mt hagrees.mp hops), if_neg hops]
        rfl

end Exchange

open Peers

def hostCand : IceCand where
  type := .host
  foundation := ascii "Hc0a80102"
  compId := 1
  prio := 2130706431
  addr := ⟨false, ascii "192.168.1.2", 50000⟩
  relAddr := none

def srflxCand : IceCand where
  type := .srflx
  foundation := ascii "Scb007107"
  compId := 1
  prio := 1694498815
  addr := ⟨false, ascii "203.0.113.7", 50000⟩
  relAddr := some ⟨false, ascii "192.168.1.2", 50000⟩

/-- A session whose only stream has two candidates. -/
def twoCandSession : IOEXSession :=
  { sessionWith (List.replicate 32 0) with
    publicKey := offererPublic
    cryptoEnabled := false
    streams := [{ oneStream with
      ice := some ⟨⟨false, ascii "192.168.1.2", 50000⟩, [hostCand, srflxCand]⟩ }] }

/-- Its description, with these texts behind the values of the two candidates. -/
def twoCandSdp (first second : Bytes) : SdpSession where
  originUser := ascii "Hjfrxx21RRVeBijikN3zkv9fqFsjgRHd6Y7ziR8m5JSG"
  name := ascii "IOEX-ice-session"
  attrs := [⟨ascii "ice-ufrag", ascii "Uf4c"⟩, ⟨ascii "ice-pwd", ascii "Pw5d"⟩]
  media := [⟨ascii "application", 50000, some (ascii "0"), some (ascii "192.168.1.2"),
    [⟨ascii "candidate", hostCand.line, first⟩, ⟨ascii "candidate", srflxCand.line, second⟩]⟩]

def twoCandText : Bytes := textWith (ascii "Uf4c") [hostCand.line, srflxCand.line]

def codecFor (sent received : SdpSession) (text : Bytes) : SdpCodec where
  print s := if s = sent then some text else none
  parse t := if t = text then some received else none

theorem codecFor_print (sent received : SdpSession) (text : Bytes) :
    (codecFor sent received text).print sent = some text := if_pos rfl

theorem codecFor_parse (sent received : SdpSession) (text : Bytes) :
    (codecFor sent received text).parse text = some received := if_pos rfl

def twoCandCodec : SdpCodec :=
  codecFor (twoCandSdp [] [])
    (twoCandSdp (ascii "\r\na=candidate:" ++ srflxCand.line ++ ascii "\r\n") (ascii "\r\n"))
    twoCandText

theorem localSdp_twoCand : localSdp twoCandSession = some (twoCandSdp [] []) := by
  decide +kernel

theorem twoCandCodec_keeps : twoCandCodec.Keeps (twoCandSdp [] []) := by
  intro text hprint
  cases hprint.symm.trans (codecFor_print _ _ _)
  refine ⟨_, codecFor_parse _ _ _, rfl, rfl, rfl, .cons ⟨rfl, rfl, ?_⟩ .nil⟩
  refine .cons ⟨rfl, rfl, ?_⟩ (.cons ⟨rfl, rfl, ?_⟩ .nil)
  · exact ⟨by decide +kernel, by decide +kernel⟩
  · exact ⟨by decide +kernel, by decide +kernel⟩

theorem hostCand_printed : hostCand.Printed where
  type := by decide
  word := by decide
  foundation := by decide
  compId := by decide
  prio := by decide
  addr := ⟨by decide, by decide, by decide, by decide⟩
  relAddr h := absurd rfl h
  line := by decide +kernel

theorem srflxCand_printed : srflxCand.Printed where
  type := by decide
  word := by decide
  foundation := by decide
  compId := by decide
  prio := by decide
  addr := ⟨by decide, by decide, by decide, by decide⟩
  relAddr _ := ⟨_, rfl, by decide, by decide, by decide, by decide⟩
  line := by decide +kernel

theorem twoCandSession_describable : twoCandSession.Describable where
  publicKey := length_toBE 32 _
  ufrag := by decide
  pwd := by decide
  count s hs ice hice := by
    cases List.mem_singleton.mp hs
    cases hice
    decide
  cands s hs ice hice c hc := by
    cases List.mem_singleton.mp hs
    cases hice
    rcases List.mem_cons.mp hc with rfl | hc
    · exact hostCand_printed
    · cases List.mem_singleton.mp hc
      exact srflxCand_printed

theorem encode_twoCand : encodeLocalSdp twoCandCodec twoCandSession = some twoCandText := by
  rw [encodeLocalSdp_eq, localSdp_twoCand]
  exact codecFor_print _ _ _

/-- The peer takes the description, but of the candidates of a stream only the empty list survives
whatever the array of the foundations holds later. With given contents, and the same options on both ends,
those lists survive all of whose foundations are the beginning of the contents, and all of whose related
addresses are of the family of the address. -/
theorem candidates_survive_iff {codec : SdpCodec} {a : IOEXSession} {text : Bytes}
    (ha : a.Describable) (hcodec : ∀ sdp, localSdp a = some sdp → codec.Keeps sdp)
    (hencode : encodeLocalSdp codec a = some text) (b : IOEXSession) :
    ∃ b', applyRemoteSdp codec b text = some (true, b') ∧
      ∀ k sa ice sb, a.streams[k]? = some sa → sa.ice = some ice → b'.streams[k]? = some sb →
        ((∀ storage, storage.length = 32 →
          List.Forall₂ (Survives storage) ice.cands sb.remote.cand) ↔ ice.cands = []) ∧
        (opsUpTo 0 b.streams k = opsUpTo 0 a.streams k → ∀ storage,
          (List.Forall₂ (Survives storage) ice.cands sb.remote.cand ↔
            ∀ c ∈ ice.cands, c.foundation <+: storage ∧ c.OneFamily)) := by
  obtain ⟨b', happly, hcand⟩ := exists_applied ha hcodec hencode b
  refine ⟨b', happly, ?_⟩
  intro k sa ice sb hsa hice hsb
  have hreceived := hcand k sa ice sb hsa hice hsb
  have hprinted := ha.cands sa (List.mem_of_getElem? hsa) ice hice
  constructor
  · refine forall_survives_iff hprinted ?_
    by_cases hops : opsUpTo 0 b.streams k = opsUpTo 0 a.streams k
    · exact .inr (hreceived.trans (if_pos hops))
    · exact .inl (hreceived.trans (if_neg hops))
  · intro hops storage
    rw [hreceived, if_pos hops]
    exact forall₂_survives_iff

/-- Of the two candidates, what the array has held when the call returned. -/
theorem candidates_survive_twoCand :
    ∃ b', applyRemoteSdp twoCandCodec controlledSession twoCandText = some (true, b') ∧
      ∀ sb, b'.streams[0]? = some sb → ∀ storage,
        (List.Forall₂ (Survives storage) [hostCand, srflxCand] sb.remote.cand ↔
          ∀ c ∈ [hostCand, srflxCand], c.foundation <+: storage ∧ c.OneFamily) := by
  have hcodec : ∀ sdp, localSdp twoCandSession = some sdp → twoCandCodec.Keeps sdp := by
    intro sdp hsdp
    cases localSdp_twoCand.symm.trans hsdp
    exact twoCandCodec_keeps
  obtain ⟨b', happly, hcand⟩ := candidates_survive_iff twoCandSession_describable hcodec
    encode_twoCand controlledSession
  exact ⟨b', happly, fun sb hsb => (hcand 0 _ _ sb rfl rfl hsb).2 rfl⟩

/-- The call leaves the foundation of the second candidate in the array, also for the first. -/
theorem candidates_share_foundation :
    encodeLocalSdp twoCandCodec twoCandSession = some twoCandText ∧ ∃ b' sb,
      applyRemoteSdp twoCandCodec controlledSession twoCandText = some (true, b') ∧
        b'.streams = [sb] ∧
        ¬List.Forall₂ (Survives (srflxCand.foundation ++ List.replicate 23 0))
          [hostCand, srflxCand] sb.remote.cand := by
  have hrun : (applyRemoteSdp twoCandCodec controlledSession twoCandText).map
      (fun r => (r.1, r.2.streams.map (fun s => s.remote.cand))) =
        some (true, [[hostCand.received, srflxCand.received]]) := by
    decide +kernel
  obtain ⟨⟨ok, b'⟩, happly, heq⟩ := Option.map_eq_some_iff.mp hrun
  obtain ⟨rfl, hstreams⟩ := Prod.mk.inj heq
  obtain ⟨sb, hsb, hcand⟩ := List.map_eq_singleton_iff.mp hstreams
  refine ⟨encode_twoCand, b', sb, happly, hsb, ?_⟩
  rw [hcand]
  intro hall
  cases hall with
  | cons hhost _ => exact absurd hhost.foundation (by decide)

end Carrier.Session
