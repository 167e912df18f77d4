import Carrier.Session.RemoteSdp

/-! Which streams an SDP answer leaves active: the option bits that both ends write and compare,
stream by stream. -/
namespace Carrier.Session
open Carrier.Lib Carrier.Common

namespace Stream

/-- The option part of `IOEX_session_add_stream`, on the zeroed stream. Port forwarding implies
multiplexing. -/
def setOptions (options : ℕ) (s : Stream) : Stream :=
  { s with
    unencrypt := s.unencrypt || options &&& 0x02 ≠ 0
    reliable := s.reliable || options &&& 0x04 ≠ 0
    multiplexing := s.multiplexing || options &&& 0x08 ≠ 0 || options &&& 0x10 ≠ 0
    portforwarding := s.portforwarding || options &&& 0x10 ≠ 0 }

def SameOptions (s r : Stream) : Prop :=
  s.unencrypt = r.unencrypt ∧ s.multiplexing = r.multiplexing ∧ s.reliable = r.reliable ∧
    s.portforwarding = r.portforwarding

instance (s r : Stream) : Decidable (s.SameOptions r) := inferInstanceAs (Decidable (_ ∧ _))

theorem ops_eq_iff (s r : Stream) : s.ops = r.ops ↔ s.SameOptions r := by
  unfold ops SameOptions
  generalize s.unencrypt = a₁, s.multiplexing = a₂, s.reliable = a₃, s.portforwarding = a₄,
    r.unencrypt = b₁, r.multiplexing = b₂, r.reliable = b₃, r.portforwarding = b₄
  revert a₁ a₂ a₃ a₄ b₁ b₂ b₃ b₄
  decide

end Stream

/-- The value of `ops` after the streams up to and including stream `i`, from `ops` on. -/
def opsUpTo (ops : ℕ) (streams : List Stream) (i : ℕ) : ℕ :=
  (streams.take (i + 1)).foldl (fun ops s => ops ||| s.ops) ops

@[simp] theorem opsUpTo_zero (ops : ℕ) (s : Stream) (streams : List Stream) :
    opsUpTo ops (s :: streams) 0 = ops ||| s.ops := rfl

@[simp] theorem opsUpTo_succ (ops : ℕ) (s : Stream) (streams : List Stream) (i : ℕ) :
    opsUpTo ops (s :: streams) (i + 1) = opsUpTo (ops ||| s.ops) streams i := rfl

/-- Printing and parsing keep the media lines in order, with their first format. -/
def SdpCodec.KeepsFormats (codec : SdpCodec) : Prop :=
  ∀ s text s', codec.print s = some text → codec.parse text = some s' →
    s'.media.map SdpMedia.fmt = s.media.map SdpMedia.fmt

/-- The format of media line `i` is the sum of the options of all streams up to `i`. -/
theorem encodeMedia_fmt {ops : ℕ} {streams : List Stream} {media : List SdpMedia}
    (h : encodeMedia ops streams = some media) (i : ℕ) :
    (media.map SdpMedia.fmt)[i]? =
      (streams[i]?).map (fun _ => some (decimal (opsUpTo ops streams i))) := by
  induction streams generalizing ops media i with
  | nil =>
    cases h
    rfl
  | cons s streams ih =>
    rw [encodeMedia] at h
    obtain ⟨ice, -, h⟩ := Option.bind_eq_some_iff.mp h
    obtain ⟨values, -, h⟩ := Option.bind_eq_some_iff.mp h
    obtain ⟨rest, hrest, h⟩ := Option.bind_eq_some_iff.mp h
    cases h
    cases i with
    | zero => rfl
    | succ i => exact ih hrest i

/-- One stream of a scan that comes to its end: without a media line it is deactivated and the
scan stays at that line, otherwise the options so far are compared with the format. -/
theorem applyStreams_cons {sdp : SdpSession} {ufrag pwd : Option Bytes} {index ops : ℕ} {s : Stream}
    {streams streams' : List Stream}
    (h : applyStreams sdp ufrag pwd index ops (s :: streams) = some (true, streams')) :
    ∃ s' rest, streams' = s' :: rest ∧ s'.SameOptions s ∧
      (sdp.media[index]? = none ∧ s'.deactivate = true ∧
          applyStreams sdp ufrag pwd index ops streams = some (true, rest) ∨
        ∃ media, sdp.media[index]? = some media ∧
          (s'.deactivate = true ↔
            s.deactivate = true ∨ ¬media.Agrees (ops ||| s.ops)) ∧
          applyStreams sdp ufrag pwd (index + 1) (ops ||| s.ops) streams = some (true, rest)) := by
  obtain ⟨s', rest, rfl, ⟨hnone, rfl, hrest⟩ | ⟨media, hmedia, rfl, hrest⟩⟩ :=
    applyStreams_cons_true rfl rfl h
  · exact ⟨_, rest, rfl, ⟨rfl, rfl, rfl, rfl⟩, .inl ⟨hnone, rfl, hrest⟩⟩
  · unfold Stream.scanned
    by_cases hops : media.Agrees (ops ||| s.ops)
    · rw [if_pos hops]
      exact ⟨_, rest, rfl, ⟨rfl, rfl, rfl, rfl⟩,
        .inr ⟨media, hmedia, (or_iff_left (not_not_intro hops)).symm, hrest⟩⟩
    · rw [if_neg hops]
      exact ⟨_, rest, rfl, ⟨rfl, rfl, rfl, rfl⟩,
        .inr ⟨media, hmedia, iff_of_true rfl (.inr hops), hrest⟩⟩

/-- The scan that starts at media line `index` finds no line for stream `i`, or one whose format is
not the sum of the options. -/
def Deactivates (sdp : SdpSession) (index ops : ℕ) (streams : List Stream) (i : ℕ) : Prop :=
  ∀ fmt, (sdp.media.map SdpMedia.fmt)[index + i]? = some fmt →
    fmt.map atoi ≠ some (opsUpTo ops streams i : ℤ)

theorem deactivates_of_none {sdp : SdpSession} {index : ℕ} (h : sdp.media[index]? = none)
    (ops : ℕ) (streams : List Stream) (i : ℕ) : Deactivates sdp index ops streams i := by
  intro fmt hfmt
  rw [List.getElem?_map] at hfmt
  obtain ⟨media, hmedia, -⟩ := Option.map_eq_some_iff.mp hfmt
  have hlen := List.getElem?_eq_none_iff.mp h
  have hlt := (List.getElem?_eq_some_iff.mp hmedia).1
  omega

/-- A whole scan sets the flag where it deactivates, and never clears it. -/
theorem applyStreams_deactivate {sdp : SdpSession} {ufrag pwd : Option Bytes} {index ops : ℕ}
    {streams streams' : List Stream}
    (h : applyStreams sdp ufrag pwd index ops streams = some (true, streams')) (i : ℕ) :
    Option.Rel (fun s s' => s'.SameOptions s ∧
      (s'.deactivate = true ↔ s.deactivate = true ∨ Deactivates sdp index ops streams i))
      streams[i]? streams'[i]? := by
  induction streams generalizing index ops streams' i with
  | nil =>
    cases h
    exact .none
  | cons s streams ih =>
    obtain ⟨s', rest, rfl, hsame, ⟨hnone, hset, hrest⟩ | ⟨media, hmedia, hset, hrest⟩⟩ :=
      applyStreams_cons h
    · cases i with
      | zero => exact .some ⟨hsame, iff_of_true hset (.inr (deactivates_of_none hnone _ _ _))⟩
      | succ i =>
        have := ih hrest i
        simp only [deactivates_of_none hnone] at this ⊢
        exact this
    · cases i with
      | zero =>
        refine .some ⟨hsame, hset.trans (or_congr_right ?_)⟩
        simp [Deactivates, SdpMedia.Agrees, hmedia]
      | succ i =>
        have hshift : Deactivates sdp index ops (s :: streams) (i + 1) =
            Deactivates sdp (index + 1) (ops ||| s.ops) streams i := by
          simp [Deactivates, Nat.add_right_comm, Nat.add_assoc]
        rw [hshift]
        exact ih hrest i

/-- A description that is applied: the streams are scanned from the first media line on. -/
theorem applyRemoteSdp_streams {codec : SdpCodec} {ws ws' : IOEXSession} {text : Bytes}
    (h : applyRemoteSdp codec ws text = some (true, ws')) :
    ∃ sdp ufrag pwd, codec.parse text = some sdp ∧
      applyStreams sdp ufrag pwd 0 0 ws.streams = some (true, ws'.streams) := by
  obtain ⟨sdp, key, n, streams, hparse, -, hscan, rfl⟩ := applyRemoteSdp_eq_true h
  exact ⟨sdp, _, _, hparse, hscan⟩

namespace IOEXSession

/-- Stream by stream, active exactly where the peer has a stream with the same options. -/
def Negotiated (ws peer : IOEXSession) : Prop :=
  ∀ (i : ℕ) (s : Stream), ws.streams[i]? = some s →
    (s.deactivate = false ↔ ∃ r, peer.streams[i]? = some r ∧ s.SameOptions r)

/-- Where both ends have a stream `i`, its options agree exactly when the options of all streams up
to it do, and it was not deactivated before. -/
def PrefixesTell (ws peer : IOEXSession) : Prop :=
  ∀ (i : ℕ) (s r : Stream), ws.streams[i]? = some s → peer.streams[i]? = some r →
    (s.SameOptions r ↔
      s.deactivate = false ∧ opsUpTo 0 ws.streams i = opsUpTo 0 peer.streams i)

/-- What applying the description of `peer` makes of stream `i`. -/
theorem applied_stream {codec : SdpCodec} (hcodec : codec.KeepsFormats) {ws ws' peer : IOEXSession}
    {text : Bytes} (henc : encodeLocalSdp codec peer = some text)
    (happ : applyRemoteSdp codec ws text = some (true, ws')) (i : ℕ) :
    Option.Rel (fun s s' => s'.SameOptions s ∧
      (s'.deactivate = false ↔ s.deactivate = false ∧ i < peer.streams.length ∧
        opsUpTo 0 ws.streams i = opsUpTo 0 peer.streams i))
      ws.streams[i]? ws'.streams[i]? := by
  unfold encodeLocalSdp at henc
  obtain ⟨pk, -, henc⟩ := Option.bind_eq_some_iff.mp henc
  obtain ⟨crypto, -, henc⟩ := Option.bind_eq_some_iff.mp henc
  obtain ⟨media, hmedia, hprint⟩ := Option.bind_eq_some_iff.mp henc
  obtain ⟨sdp, ufrag, pwd, hparse, hscan⟩ := applyRemoteSdp_streams happ
  have hfmt : (sdp.media.map SdpMedia.fmt)[i]? =
      (peer.streams[i]?).map (fun _ => some (decimal (opsUpTo 0 peer.streams i))) := by
    rw [hcodec _ _ _ hprint hparse]
    exact encodeMedia_fmt hmedia i
  have hdeact : Deactivates sdp 0 0 ws.streams i ↔
      ¬(i < peer.streams.length ∧ opsUpTo 0 ws.streams i = opsUpTo 0 peer.streams i) := by
    unfold Deactivates
    rw [Nat.zero_add, hfmt]
    by_cases hi : i < peer.streams.length
    · simp [hi, atoi_decimal, eq_comm]
    · simp [hi]
  have hrel := applyStreams_deactivate hscan i
  generalize ws.streams[i]? = own, ws'.streams[i]? = own' at hrel ⊢
  cases hrel with
  | none => exact .none
  | some hs =>
    refine .some ⟨hs.1, ?_⟩
    rw [← Bool.not_eq_true, hs.2, hdeact, not_or, not_not, Bool.not_eq_true]

/-- The applied description decides per stream exactly when the accumulated options do. -/
theorem negotiated_iff {codec : SdpCodec} (hcodec : codec.KeepsFormats) {ws ws' peer : IOEXSession}
    {text : Bytes} (henc : encodeLocalSdp codec peer = some text)
    (happ : applyRemoteSdp codec ws text = some (true, ws')) :
    ws'.Negotiated peer ↔ ws.PrefixesTell peer := by
  apply forall_congr'
  intro i
  have hrel := applied_stream hcodec henc happ i
  generalize ws.streams[i]? = own, ws'.streams[i]? = own' at hrel ⊢
  cases hrel with
  | none => simp
  | @some s s' hs =>
    obtain ⟨hsame, hdeact⟩ := hs
    have hops : ∀ r, s'.SameOptions r ↔ s.SameOptions r := by
      intro r
      rw [← Stream.ops_eq_iff, ← Stream.ops_eq_iff, (Stream.ops_eq_iff s' s).mpr hsame]
    cases hr : peer.streams[i]? with
    | none =>
      have hlen : ¬i < peer.streams.length := (List.getElem?_eq_none_iff.mp hr).not_gt
      have hset : ¬s'.deactivate = false := by
        simp only [hdeact, hlen, false_and, and_false, not_false_eq_true]
      simp [hset]
    | some r =>
      have hlen : i < peer.streams.length := (List.getElem?_eq_some_iff.mp hr).1
      simp only [Option.some.injEq, forall_eq', exists_eq_left', hdeact, hops, hlen, true_and]
      constructor
      · intro h s r hs hr
        subst hs hr
        exact h.symm
      · intro h
        exact (h s r rfl rfl).symm

theorem prefixesTell_self {ws peer : IOEXSession} (hstreams : ws.streams = peer.streams)
    (hclear : ∀ s ∈ ws.streams, s.deactivate = false) : ws.PrefixesTell peer := by
  intro i s r hs hr
  rw [← hstreams, hs] at hr
  cases hr
  rw [← hstreams]
  exact iff_of_true ⟨rfl, rfl, rfl, rfl⟩ ⟨hclear s (List.mem_of_getElem? hs), rfl⟩

/-- A stream with these options and the host candidate of `Peers.oneStream`. -/
def optionStream (options : ℕ) : Stream :=
  { Peers.oneStream with unencrypt := false }.setOptions options

/-- A session with one stream for each set of options, encrypted if one of them is. -/
def optionSession (options : List ℕ) : IOEXSession :=
  { Peers.sessionWith [] with
    streams := options.map optionStream
    publicKey := Peers.offererPublic
    cryptoEnabled := options.any (fun o => o &&& 0x02 = 0) }

/-- The description of two plain streams, and its text. -/
def twoSdp : SdpSession :=
  { originUser := ascii "Hjfrxx21RRVeBijikN3zkv9fqFsjgRHd6Y7ziR8m5JSG"
    name := ascii "IOEX-ice-session"
    attrs := [⟨ascii "ice-ufrag", ascii "Uf4c"⟩, ⟨ascii "ice-pwd", ascii "Pw5d"⟩]
    media := List.replicate 2
      ⟨ascii "application", 50000, some (ascii "2"), some (ascii "192.168.1.2"), []⟩ }

def twoText : Bytes :=
  ascii "v=0\r\no=Hjfrxx21RRVeBijikN3zkv9fqFsjgRHd6Y7ziR8m5JSG 1500000000 1500000000 IN IP4 " ++
    ascii "192.168.1.2\r\ns=IOEX-ice-session\r\nt=0 0\r\na=ice-ufrag:Uf4c\r\na=ice-pwd:Pw5d\r\n" ++
    ascii "m=application 50000 UDP 2\r\nc=IN IP4 192.168.1.2\r\n" ++
    ascii "m=application 50000 UDP 2\r\nc=IN IP4 192.168.1.2\r\n"

def twoCodec : SdpCodec where
  print s := if s = twoSdp then some twoText else none
  parse t := if t = twoText then some twoSdp else none

theorem twoCodec_keepsFormats : twoCodec.KeepsFormats := by
  intro s text s' hprint hparse
  simp only [twoCodec] at hprint hparse
  split_ifs at hprint with hs
  split_ifs at hparse
  cases hparse
  rw [hs]

theorem encode_twoPlain : encodeLocalSdp twoCodec (optionSession [2, 2]) = some twoText := by
  decide +kernel

/-- Two plain streams on both ends. -/
theorem negotiated_two_plain : ∃ ws',
    applyRemoteSdp twoCodec (optionSession [2, 2]) twoText = some (true, ws') ∧
      ws'.Negotiated (optionSession [2, 2]) := by
  obtain ⟨⟨ok, ws'⟩, happ, hok⟩ := Option.map_eq_some_iff.mp
    (show (applyRemoteSdp twoCodec (optionSession [2, 2]) twoText).map Prod.fst = some true by
      decide +kernel)
  cases hok
  exact ⟨ws', happ, (negotiated_iff twoCodec_keepsFormats encode_twoPlain happ).mpr
    (prefixesTell_self rfl (by decide))⟩

/-- The second stream is encrypted here and plain on the other end, but the first one is plain on
both: it stays active. -/
theorem plain_then_encrypted_not_negotiated :
    encodeLocalSdp twoCodec (optionSession [2, 2]) = some twoText ∧ ∃ ws',
      applyRemoteSdp twoCodec (optionSession [2, 0]) twoText = some (true, ws') ∧
        ¬ws'.Negotiated (optionSession [2, 2]) := by
  obtain ⟨⟨ok, ws'⟩, happ, hok⟩ := Option.map_eq_some_iff.mp
    (show (applyRemoteSdp twoCodec (optionSession [2, 0]) twoText).map Prod.fst = some true by
      decide +kernel)
  cases hok
  refine ⟨encode_twoPlain, ws', happ, ?_⟩
  intro hneg
  have hrel := applied_stream twoCodec_keepsFormats encode_twoPlain happ 1
  cases hs : ws'.streams[1]? with
  | none => simp [hs, optionSession] at hrel
  | some s =>
    rw [hs] at hrel
    obtain ⟨hsame, hactive⟩ := Option.rel_some_some.mp hrel
    obtain ⟨r, hr, hsame'⟩ := (hneg 1 s hs).mp (hactive.mpr (by decide))
    cases hr
    rw [← Stream.ops_eq_iff] at hsame hsame'
    rw [hsame] at hsame'
    revert hsame'
    decide

end IOEXSession

end Carrier.Session
