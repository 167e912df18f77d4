import Carrier.Common.Base58Decode
import Carrier.Lib.Scanf

/-! `ice_session_encode_local_sdp` and `ice_session_apply_remote_sdp` of `session/ice.c`, between
the session and the session description that `pjmedia` prints and parses. -/
namespace Carrier.Session
open Carrier.Lib Carrier.Common

structure SdpAttr where
  name : Bytes
  value : Bytes
  deriving DecidableEq

/-- An attribute of a media line. The value in a parsed description is not terminated: `tail` is the
text behind it, the end of its line and the lines that follow. -/
structure SdpMediaAttr where
  name : Bytes
  value : Bytes
  tail : Bytes
  deriving DecidableEq

/-- A media line with its first format and the address of its `c=` line, if it has them. -/
structure SdpMedia where
  media : Bytes
  port : ℕ
  fmt : Option Bytes
  conn : Option Bytes
  attrs : List SdpMediaAttr
  deriving DecidableEq

structure SdpSession where
  originUser : Bytes
  name : Bytes
  attrs : List SdpAttr
  media : List SdpMedia
  deriving DecidableEq

/-- `pjmedia_sdp_validate` and `pjmedia_sdp_print` into a buffer of `SDP_MAX_LEN` bytes, and
`pjmedia_sdp_parse`. -/
structure SdpCodec where
  print : SdpSession → Option Bytes
  parse : Bytes → Option SdpSession

/-- The value of an attribute: the scan keeps the last one of that name. -/
def sdpAttr (name : Bytes) (attrs : List SdpAttr) : Option Bytes :=
  attrs.foldl (fun found a => if a.name = name then some a.value else found) none

/-- Printing and parsing keep the origin user and the nonce. -/
def SdpCodec.KeepsKeys (codec : SdpCodec) : Prop :=
  ∀ s text s', codec.print s = some text → codec.parse text = some s' →
    s'.originUser = s.originUser ∧
      sdpAttr (ascii "nonce") s'.attrs = sdpAttr (ascii "nonce") s.attrs

inductive CandType where
  | host
  | srflx
  | prflx
  | relayed
  deriving DecidableEq

/-- `pj_ice_get_cand_type_name` -/
def CandType.text : CandType → Bytes
  | .host => ascii "host"
  | .srflx => ascii "srflx"
  | .prflx => ascii "prflx"
  | .relayed => ascii "relay"

/-- A socket address by the text it is initialised from. -/
structure SockAddr where
  inet6 : Bool
  addr : Bytes
  port : ℕ
  deriving DecidableEq

structure IceCand where
  type : CandType
  foundation : Bytes
  compId : ℕ
  prio : ℕ
  addr : SockAddr
  relAddr : Option SockAddr
  deriving DecidableEq

/-- An entry of `remote.cand`. Of the foundation it holds a pointer to the buffer that `sscanf` has
filled, an array in the frame of the call, and this length. -/
structure RemoteCand where
  type : CandType
  foundationLen : ℕ
  compId : ℕ
  prio : ℕ
  addr : SockAddr
  relAddr : Option SockAddr
  deriving DecidableEq

/-- `handler->remote` -/
structure IceRemote where
  ufrag : Bytes
  pwd : Bytes
  defAddr : Option SockAddr
  compCnt : ℕ
  cand : List RemoteCand
  deriving DecidableEq

def IceRemote.zero : IceRemote := ⟨[], [], none, 0, []⟩

/-- `IOEXStreamState`, with the 0 of a stream that has not been initialised yet. -/
inductive StreamState where
  | raw
  | initialized
  | transportReady
  | connecting
  | connected
  | deactivated
  | closed
  | failed
  deriving DecidableEq

inductive StreamType where
  | audio
  | video
  | text
  | application
  | message
  deriving DecidableEq

def streamTypeStr : StreamType → Bytes
  | .audio => ascii "audio"
  | .video => ascii "video"
  | .text => ascii "text"
  | .application => ascii "application"
  | .message => ascii "message"

/-- What `pjnath` knows about the stream's own end: the default candidate and all of them. -/
structure LocalIce where
  default : SockAddr
  cands : List IceCand
  deriving DecidableEq

structure Stream where
  type : StreamType
  state : StreamState
  unencrypt : Bool
  reliable : Bool
  multiplexing : Bool
  portforwarding : Bool
  deactivate : Bool
  ice : Option LocalIce
  remote : IceRemote
  deriving DecidableEq

namespace Stream

/-- The option bits of one stream, `IOEX_STREAM_PLAIN` and so on. -/
def ops (s : Stream) : ℕ :=
  (if s.unencrypt then 0x02 else 0) ||| (if s.multiplexing then 0x08 else 0) |||
    (if s.reliable then 0x04 else 0) ||| (if s.portforwarding then 0x10 else 0)

end Stream

inductive IceRole where
  | unknown
  | controlled
  | controlling
  deriving DecidableEq

def publicKeyBytes : ℕ := 32

def nonceBytes : ℕ := 24

/-- The fields of the session, with those of `IceSession`. -/
structure IOEXSession where
  offerer : Bool
  streams : List Stream
  publicKey : Bytes
  secretKey : Bytes
  peerPubkey : Bytes
  nonce : Bytes
  credential : Bytes
  cryptoEnabled : Bool
  cryptoKey : Bytes
  role : IceRole
  ufrag : Bytes
  pwd : Bytes
  deriving DecidableEq

def cryptoNonceToStr (nonce : Bytes) (len : ℕ) : Option (Option Bytes) :=
  if len = 0 then some none else base58Encode nonce len

/-- `crypto_nonce_from_str`: a text that decodes is written, even if it is not a whole nonce. -/
def cryptoNonceFromStr (nonce buf : Bytes) : Bytes :=
  if buf.length = 0 then nonce
  else
    match base58Decode buf buf.length nonceBytes with
    | none => nonce
    | some (data, _) => data

theorem cryptoNonceFromStr_base58Text {nonce : Bytes} (h : nonce.length = nonceBytes)
    (old : Bytes) : cryptoNonceFromStr old (base58Text nonce) = nonce := by
  have hne : nonce ≠ [] := by
    rintro rfl
    cases h
  have hdec := base58Decode_base58Text hne []
  rw [List.append_nil, h] at hdec
  rw [cryptoNonceFromStr, if_neg (by simpa using base58Text_ne_nil hne), hdec]

/-- The text of a candidate attribute. A peer reflexive candidate, which is never one of the own
candidates, would leave the buffer unset. -/
def candidateValue (c : IceCand) : Option Bytes :=
  let base := c.foundation ++ ascii " " ++ decimal c.compId ++ ascii " UDP " ++ decimal c.prio ++
    ascii " " ++ c.addr.addr ++ ascii " " ++ decimal c.addr.port ++ ascii " typ " ++ c.type.text
  match c.type, c.relAddr with
  | .host, _ => some (base.take 127)
  | .prflx, _ => none
  | _, none => none
  | _, some rel =>
    some ((base ++ ascii " raddr " ++ rel.addr ++ ascii " rport " ++ decimal rel.port).take 127)

/-- The media lines; the option bits are never cleared between two streams. -/
def encodeMedia : ℕ → List Stream → Option (List SdpMedia)
  | _, [] => some []
  | ops, s :: streams => do
    let ice ← s.ice
    let ops := ops ||| s.ops
    let values ← ice.cands.mapM candidateValue
    let rest ← encodeMedia ops streams
    some (⟨streamTypeStr s.type, ice.default.port, some (decimal ops), some ice.default.addr,
      values.map (fun v => ⟨ascii "candidate", v, []⟩)⟩ :: rest)

/-- The nonce attribute, of sessions with encrypted streams. -/
def encodeNonce (s : IOEXSession) : Option (List SdpAttr) :=
  if s.cryptoEnabled then
    (cryptoNonceToStr s.nonce (nonceBytes * 2)).join.map (fun v => [⟨ascii "nonce", v⟩])
  else some []

/-- `ice_session_encode_local_sdp`; `none` for its error returns. -/
def encodeLocalSdp (codec : SdpCodec) (s : IOEXSession) : Option Bytes := do
  let pk ← (base58Encode s.publicKey 64).join
  let crypto ← encodeNonce s
  let media ← encodeMedia 0 s.streams
  codec.print
    { originUser := pk
      name := ascii "IOEX-ice-session"
      attrs := [⟨ascii "ice-ufrag", s.ufrag⟩, ⟨ascii "ice-pwd", s.pwd⟩] ++ crypto
      media := media }

/-- `"%32s %d %12s %d %80s %d typ %32s raddr %80s rport %d"` -/
def candidateFormat : List Conv :=
  [.str 32, .int, .str 12, .int, .str 80, .int, .lit (ascii "typ"), .str 32, .lit (ascii "raddr"),
    .str 80, .lit (ascii "rport"), .int]

/-- The buffers of the string items, `foundation[32]` to `raddr[80]`. -/
def tokenSizes : List ℕ := [32, 0, 12, 0, 80, 0, 32, 80, 0]

/-- Every token `sscanf` has stored fits its buffer together with its NUL. -/
def tokensFit (args : List ScanArg) : Bool :=
  (args.zip tokenSizes).all (fun
    | (.str token, size) => token.length < size
    | (.int _, _) => true)

def candTypeOf (type : Bytes) : Option CandType :=
  if type = ascii "host" then some .host
  else if type = ascii "srflx" then some .srflx
  else if type = ascii "relay" then some .relayed
  else if type = ascii "prflx" then some .prflx
  else none

def candAddr (ipaddr : Bytes) (inet6 : Bool) (port : ℤ) : SockAddr :=
  ⟨inet6, ipaddr, (port % 2 ^ 16).toNat⟩

/-- `PJ_ICE_ST_MAX_CAND` as `pjnath` ships it. -/
def iceStMaxCand : ℕ := 8

/-- One candidate attribute, from its value on. The inner `none` is `IOEXERR_INVALID_SDP`, the outer
one a token or a candidate behind the end of its array. -/
def applyCandidate (remote : IceRemote) (value : Bytes) : Option (Option IceRemote) :=
  let args := sscanf candidateFormat value
  if !tokensFit args then none
  else
    match args with
    | .str foundation :: .int compId :: .str _ :: .int prio :: .str ipaddr :: .int port ::
        .str type :: more =>
      let add (relAddr : Option SockAddr) : Option (Option IceRemote) :=
        match candTypeOf type with
        | none => some none
        | some t =>
          if iceStMaxCand ≤ remote.cand.length then none
          else some (some { remote with
            compCnt := max remote.compCnt (compId % 2 ^ 32).toNat
            cand := remote.cand ++ [⟨t, foundation.length, (compId % 2 ^ 8).toNat,
              (prio % 2 ^ 32).toNat, candAddr ipaddr (ipaddr.contains 58) port, relAddr⟩] })
      match more with
      | [] => add none
      | [.str raddr, .int rport] => add (some (candAddr raddr (ipaddr.contains 58) rport))
      | _ => some none
    | _ => some none

/-- The attributes of one media line. The scan of a line that ends early goes on behind it. -/
def applyCandidates : IceRemote → List SdpMediaAttr → Option (Option IceRemote)
  | remote, [] => some (some remote)
  | remote, a :: attrs =>
    if a.name = ascii "candidate" then
      match applyCandidate remote (a.value ++ a.tail) with
      | none => none
      | some none => some none
      | some (some remote) => applyCandidates remote attrs
    else applyCandidates remote attrs

/-- The scan over the streams, from media line `index` on and with the option bits so far. The
flag tells whether it came to its end; `none` is an access out of bounds or through `NULL`. An
address without a colon gives `pj_strchr` no result, and the difference of pointers is then below the
length too. -/
def applyStreams (sdp : SdpSession) (ufrag pwd : Option Bytes) :
    ℕ → ℕ → List Stream → Option (Bool × List Stream)
  | _, _, [] => some (true, [])
  | index, ops, s :: streams =>
    match sdp.media[index]? with
    | none =>
      (applyStreams sdp ufrag pwd index ops streams).map (fun (ok, rest) =>
        (ok, { s with deactivate := true } :: rest))
    | some media =>
      match media.conn with
      | none => none
      | some addr =>
        if 80 < (ufrag.getD []).length ∨ 80 < (pwd.getD []).length then none
        else
          let remote : IceRemote :=
            ⟨ufrag.getD [], pwd.getD [], some ⟨true, addr, media.port⟩, 0, []⟩
          let ops := ops ||| s.ops
          match media.fmt with
          | none => none
          | some fmt =>
            if (ops : ℤ) ≠ atoi fmt then
              (applyStreams sdp ufrag pwd (index + 1) ops streams).map (fun (ok, rest) =>
                (ok, { s with remote := remote, deactivate := true } :: rest))
            else
              match applyCandidates remote media.attrs with
              | none => none
              | some none => some (false, { s with remote := .zero } :: streams)
              | some (some remote) =>
                (applyStreams sdp ufrag pwd (index + 1) ops streams).map (fun (ok, rest) =>
                  (ok, { s with remote := remote } :: rest))

/-- `ice_session_apply_remote_sdp`: whether it returns 0, and the session it leaves. Behind the origin
user the text goes on with a space, and the result of its decoding is cast to `int`. -/
def applyRemoteSdp (codec : SdpCodec) (s : IOEXSession) (text : Bytes) : Option (Bool × IOEXSession) :=
  match codec.parse text with
  | none => some (false, s)
  | some sdp =>
    if sdp.name ≠ ascii "IOEX-ice-session" then some (false, s)
    else
      match base58Decode (sdp.originUser ++ ascii " ") sdp.originUser.length publicKeyBytes with
      | none => some (false, s)
      | some (key, rc) =>
        let s := { s with peerPubkey := key }
        if 2 ^ 31 ≤ rc % 2 ^ 32 then some (false, s)
        else
          let s :=
            match sdpAttr (ascii "nonce") sdp.attrs with
            | none => s
            | some value =>
              if s.role ≠ IceRole.controlling then
                { s with nonce := cryptoNonceFromStr s.nonce value }
              else s
          (applyStreams sdp (sdpAttr (ascii "ice-ufrag") sdp.attrs)
              (sdpAttr (ascii "ice-pwd") sdp.attrs) 0 0 s.streams).map
            (fun (ok, streams) => (ok, { s with streams := streams }))

/-- The session with the keys of a description, as the scan over the streams finds it. -/
def IOEXSession.withRemoteKeys (s : IOEXSession) (sdp : SdpSession) (key : Bytes) : IOEXSession :=
  { s with
    peerPubkey := key
    nonce := if s.role = .controlling then s.nonce
      else (sdpAttr (ascii "nonce") sdp.attrs).elim s.nonce (cryptoNonceFromStr s.nonce) }

def scanStreams (sdp : SdpSession) (streams : List Stream) : Option (Bool × List Stream) :=
  applyStreams sdp (sdpAttr (ascii "ice-ufrag") sdp.attrs) (sdpAttr (ascii "ice-pwd") sdp.attrs) 0 0
    streams

section
variable {codec : SdpCodec} {s : IOEXSession} {text : Bytes} {sdp : SdpSession}

/-- Once the key is decoded, and its length is no negative `int`, everything is up to the scan. -/
theorem applyRemoteSdp_of_key {key : Bytes} {rc : ℕ} (hparse : codec.parse text = some sdp)
    (hname : sdp.name = ascii "IOEX-ice-session")
    (hkey : base58Decode (sdp.originUser ++ ascii " ") sdp.originUser.length publicKeyBytes =
      some (key, rc)) :
    applyRemoteSdp codec s text =
      if 2 ^ 31 ≤ rc % 2 ^ 32 then some (false, { s with peerPubkey := key })
      else (scanStreams sdp s.streams).map (fun r =>
        (r.1, { s.withRemoteKeys sdp key with streams := r.2 })) := by
  unfold applyRemoteSdp
  simp only [hparse, hname, hkey, ne_eq, not_true_eq_false, if_false]
  by_cases hint : 2 ^ 31 ≤ rc % 2 ^ 32
  · rw [if_pos hint, if_pos hint]
  · rw [if_neg hint, if_neg hint]
    cases hnonce : sdpAttr (ascii "nonce") sdp.attrs with
    | none => simp [scanStreams, IOEXSession.withRemoteKeys, hnonce]
    | some value =>
      by_cases hrole : s.role = .controlling <;>
        simp [scanStreams, IOEXSession.withRemoteKeys, hnonce, hrole]

/-- A description that is applied. -/
theorem applyRemoteSdp_eq_true {s' : IOEXSession}
    (h : applyRemoteSdp codec s text = some (true, s')) :
    ∃ sdp key n streams, codec.parse text = some sdp ∧
      base58Decode (sdp.originUser ++ ascii " ") sdp.originUser.length publicKeyBytes =
        some (key, n) ∧
      scanStreams sdp s.streams = some (true, streams) ∧
      s' = { s.withRemoteKeys sdp key with streams := streams } := by
  cases hparse : codec.parse text with
  | none => simp [applyRemoteSdp, hparse] at h
  | some sdp =>
    by_cases hname : sdp.name = ascii "IOEX-ice-session"
    · cases hkey : base58Decode (sdp.originUser ++ ascii " ") sdp.originUser.length
          publicKeyBytes with
      | none => simp [applyRemoteSdp, hparse, hname, hkey] at h
      | some decoded =>
        obtain ⟨key, n⟩ := decoded
        rw [applyRemoteSdp_of_key hparse hname hkey] at h
        by_cases hint : 2 ^ 31 ≤ n % 2 ^ 32
        · rw [if_pos hint] at h
          cases h
        rw [if_neg hint] at h
        obtain ⟨⟨ok, streams⟩, hscan, heq⟩ := Option.map_eq_some_iff.mp h
        obtain ⟨rfl, rfl⟩ := Prod.mk.inj heq
        exact ⟨sdp, key, n, streams, rfl, hkey, hscan, rfl⟩
    · simp [applyRemoteSdp, hparse, hname] at h

end

end Carrier.Session
