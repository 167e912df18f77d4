import Carrier.Lib.Run
import Carrier.Session.Sdp

/-! The exchange of `session/session.c` that sets up a session: request, reply and start on both
ends, and the keys they end up with. -/
namespace Carrier.Session
open Carrier.Lib Carrier.Common

/-- `crypto_box` of `libsodium`: the public key of a secret key, and `crypto_box_beforenm`, which
refuses some public keys and then leaves the key alone. -/
structure CryptoBox where
  publicKey : Bytes → Bytes
  beforenm : Bytes → Bytes → Option Bytes
  length_publicKey : ∀ sk, (publicKey sk).length = publicKeyBytes

/-- What the session calls outside the repository. -/
structure SessionEnv where
  box : CryptoBox
  codec : SdpCodec
  prepare : Stream → Option Stream

/-- What `crypto_create_keypair` and `crypto_random_nonce` draw. -/
structure Drawn where
  secretKey : Bytes
  nonce : Bytes
  credential : Bytes
  length_nonce : nonce.length = nonceBytes

/-- `crypto_compute_symmetric_key`, with the result of `crypto_box_beforenm` ignored. -/
def cryptoComputeSymmetricKey (box : CryptoBox) (publicKey secretKey key : Bytes) : Bytes :=
  (box.beforenm publicKey secretKey).getD key

namespace IOEXSession

variable (E : SessionEnv)

/-- Key pair, nonce and credential, as both ends create them. -/
def draw (g : Drawn) (ws : IOEXSession) : IOEXSession :=
  { ws with
    publicKey := E.box.publicKey g.secretKey
    secretKey := g.secretKey
    nonce := g.nonce
    credential := g.credential }

/-- `pipeline.prepare` on every stream, up to the first that fails. -/
def prepareStreams : List Stream → Bool × List Stream
  | [] => (true, [])
  | s :: streams =>
    match E.prepare s with
    | none => (false, s :: streams)
    | some s =>
      let (ok, rest) := prepareStreams streams
      (ok, s :: rest)

/-- Prepare the streams and encode the session description. -/
def describe (ws : IOEXSession) : IOEXSession × Option Bytes :=
  let (ok, streams) := prepareStreams E ws.streams
  let ws := { ws with streams := streams }
  (ws, if ok then encodeLocalSdp E.codec ws else none)

/-- `IOEX_session_request`: the session and the SDP it sends, if it gets that far. -/
def request (g : Drawn) (ws : IOEXSession) : IOEXSession × Option Bytes :=
  if ws.streams = [] then (ws, none)
  else describe E ({ ws with offerer := true, role := .controlling }.draw E g)

/-- `IOEX_session_reply_request` with status 0. -/
def replyRequest (g : Drawn) (ws : IOEXSession) : IOEXSession × Option Bytes :=
  let ws := { ws with offerer := false, role := .controlled }.draw E g
  if ws.streams = [] then (ws, none) else describe E ws

/-- `IOEX_session_start`: whether it returns 0, and the session it leaves. What starting the
pipelines does to the streams comes later, as state notifications. -/
def start (ws : IOEXSession) (sdp : Bytes) : Option (Bool × IOEXSession) :=
  if sdp = [] then some (false, ws)
  else if ws.streams = [] then some (false, ws)
  else
    let ws :=
      if ws.cryptoEnabled then
        { ws with
          cryptoKey := cryptoComputeSymmetricKey E.box ws.peerPubkey ws.secretKey ws.cryptoKey }
      else ws
    if ws.streams.any (fun s => s.state ≠ .transportReady) then some (false, ws)
    else applyRemoteSdp E.codec ws sdp

end IOEXSession

/-- The two ends, and the descriptions that have been sent. -/
structure Peers where
  a : IOEXSession
  b : IOEXSession
  offer : Option Bytes
  answer : Option Bytes

inductive PeerAct where
  | request (g : Drawn)
  | reply (g : Drawn)
  | startA
  | startB

/-- One call that succeeds, with the description the other end has produced. -/
def Peers.step (E : SessionEnv) (p : Peers) : PeerAct → Option Peers
  | .request g =>
    match p.a.request E g with
    | (_, none) => none
    | (a, some sdp) => some { p with a := a, offer := some sdp }
  | .reply g =>
    match p.b.replyRequest E g with
    | (_, none) => none
    | (b, some sdp) => some { p with b := b, answer := some sdp }
  | .startA =>
    p.answer.bind (fun sdp =>
      match p.a.start E sdp with
      | some (true, a) => some { p with a := a }
      | _ => none)
  | .startB =>
    p.offer.bind (fun sdp =>
      match p.b.start E sdp with
      | some (true, b) => some { p with b := b }
      | _ => none)

theorem base58Encode_eq_text {data : Bytes} {textlen : ℕ} {text : Bytes}
    (h : (base58Encode data textlen).join = some text) : text = base58Text data := by
  rw [base58Encode_eq, Option.join_some] at h
  split_ifs at h
  exact (Option.some.inj h).symm

/-- A description carries the public key, and with encryption the nonce. -/
theorem encodeLocalSdp_eq_some {codec : SdpCodec} {s : IOEXSession} {text : Bytes}
    (h : encodeLocalSdp codec s = some text) :
    ∃ sdp, codec.print sdp = some text ∧ sdp.originUser = base58Text s.publicKey ∧
      (s.cryptoEnabled → sdpAttr (ascii "nonce") sdp.attrs = some (base58Text s.nonce)) := by
  unfold encodeLocalSdp at h
  obtain ⟨pk, hpk, h⟩ := Option.bind_eq_some_iff.mp h
  obtain ⟨crypto, hcrypto, h⟩ := Option.bind_eq_some_iff.mp h
  obtain ⟨media, -, h⟩ := Option.bind_eq_some_iff.mp h
  refine ⟨_, h, base58Encode_eq_text hpk, fun henabled => ?_⟩
  rw [encodeNonce, if_pos henabled, Option.map_eq_some_iff] at hcrypto
  obtain ⟨value, hvalue, rfl⟩ := hcrypto
  have hval : value = base58Text s.nonce := base58Encode_eq_text hvalue
  rw [hval]
  rfl

/-- What a description that is applied changes of the keys. -/
theorem applyRemoteSdp_eq_some {codec : SdpCodec} {s s' : IOEXSession} {text : Bytes}
    (h : applyRemoteSdp codec s text = some (true, s')) :
    ∃ sdp key n, codec.parse text = some sdp ∧
      base58Decode (sdp.originUser ++ ascii " ") sdp.originUser.length publicKeyBytes =
        some (key, n) ∧
      s'.peerPubkey = key ∧ s'.publicKey = s.publicKey ∧ s'.secretKey = s.secretKey ∧
      s'.cryptoKey = s.cryptoKey ∧
      s'.nonce = if s.role = .controlling then s.nonce else
        (sdpAttr (ascii "nonce") sdp.attrs).elim s.nonce (cryptoNonceFromStr s.nonce) := by
  obtain ⟨sdp, key, n, streams, hparse, hkey, -, rfl⟩ := applyRemoteSdp_eq_true h
  exact ⟨sdp, key, n, hparse, hkey, rfl, rfl, rfl, rfl, rfl⟩

namespace IOEXSession

variable {E : SessionEnv}

/-- The keys a call does not touch, whatever it does to the streams. -/
structure SameKeys (ws ws' : IOEXSession) : Prop where
  publicKey : ws'.publicKey = ws.publicKey
  secretKey : ws'.secretKey = ws.secretKey
  peerPubkey : ws'.peerPubkey = ws.peerPubkey
  nonce : ws'.nonce = ws.nonce
  cryptoEnabled : ws'.cryptoEnabled = ws.cryptoEnabled
  cryptoKey : ws'.cryptoKey = ws.cryptoKey
  role : ws'.role = ws.role

theorem describe_eq_some {ws ws' : IOEXSession} {sdp : Bytes}
    (h : ws.describe E = (ws', some sdp)) :
    SameKeys ws ws' ∧ encodeLocalSdp E.codec ws' = some sdp := by
  unfold describe at h
  simp only [Prod.mk.injEq] at h
  obtain ⟨rfl, hsdp⟩ := h
  split_ifs at hsdp
  exact ⟨⟨rfl, rfl, rfl, rfl, rfl, rfl, rfl⟩, hsdp⟩

theorem request_eq_some {ws ws' : IOEXSession} {g : Drawn} {sdp : Bytes}
    (h : ws.request E g = (ws', some sdp)) :
    SameKeys ({ ws with offerer := true, role := .controlling }.draw E g) ws' ∧
      encodeLocalSdp E.codec ws' = some sdp := by
  unfold request at h
  split_ifs at h
  · cases h
  · exact describe_eq_some h

theorem replyRequest_eq_some {ws ws' : IOEXSession} {g : Drawn} {sdp : Bytes}
    (h : ws.replyRequest E g = (ws', some sdp)) :
    SameKeys ({ ws with offerer := false, role := .controlled }.draw E g) ws' ∧
      encodeLocalSdp E.codec ws' = some sdp := by
  unfold replyRequest at h
  simp only at h
  split_ifs at h
  · cases h
  · exact describe_eq_some h

/-- A start with the description of `peer`: the symmetric key comes from the public key held
before, and only then the one of the peer is stored. -/
theorem start_eq_some {ws ws' peer : IOEXSession} {sdp : Bytes} (hcodec : E.codec.KeepsKeys)
    (hsdp : encodeLocalSdp E.codec peer = some sdp)
    (hkey : peer.publicKey.length = publicKeyBytes) (hnonce : peer.nonce.length = nonceBytes)
    (hpeer : peer.cryptoEnabled) (hws : ws.cryptoEnabled)
    (h : ws.start E sdp = some (true, ws')) :
    ws'.peerPubkey = peer.publicKey ∧ ws'.publicKey = ws.publicKey ∧
      ws'.secretKey = ws.secretKey ∧
      ws'.cryptoKey =
        cryptoComputeSymmetricKey E.box ws.peerPubkey ws.secretKey ws.cryptoKey ∧
      ws'.nonce = if ws.role = .controlling then ws.nonce else peer.nonce := by
  unfold start at h
  simp only [if_pos hws] at h
  split_ifs at h with h1 h2 h3
  · cases h
  · cases h
  · cases h
  · obtain ⟨sent, hprint, huser, hattr⟩ := encodeLocalSdp_eq_some hsdp
    obtain ⟨got, key, n, hparse, hdec, hpk, hpub, hsec, hck, hn⟩ := applyRemoteSdp_eq_some h
    obtain ⟨huser', hattr'⟩ := hcodec sent sdp got hprint hparse
    have hne : peer.publicKey ≠ [] := by
      intro hnil
      rw [hnil] at hkey
      cases hkey
    have hdec' := base58Decode_base58Text hne (ascii " ")
    rw [hkey] at hdec'
    rw [huser', huser, hdec'] at hdec
    cases hdec
    refine ⟨hpk, hpub, hsec, hck, ?_⟩
    rw [hn, hattr', hattr hpeer]
    simp only [Option.elim_some, cryptoNonceFromStr_base58Text hnonce]

end IOEXSession

namespace Peers

variable {E : SessionEnv}

/-- Both ends hold the key of the peer they have applied, and the same nonce. -/
def Agree (E : SessionEnv) (p : Peers) : Prop :=
  E.box.beforenm p.b.publicKey p.a.secretKey = some p.a.cryptoKey ∧
    E.box.beforenm p.a.publicKey p.b.secretKey = some p.b.cryptoKey ∧
    p.a.cryptoKey = p.b.cryptoKey ∧ p.a.nonce = p.b.nonce

/-- The public key a session holds before it is started already gives the key shared with the
peer; a refused one leaves the old symmetric key. -/
def HoldsPeerKey (box : CryptoBox) (ws : IOEXSession) (own peer : Drawn) : Prop :=
  box.beforenm (box.publicKey peer.secretKey) own.secretKey =
    some ((box.beforenm ws.peerPubkey own.secretKey).getD ws.cryptoKey)

/-- Request and reply, and then a start on each end in either order. -/
def Exchange (ga gb : Drawn) (acts : List PeerAct) : Prop :=
  acts = [.request ga, .reply gb, .startA, .startB] ∨
    acts = [.request ga, .reply gb, .startB, .startA]

theorem step_startA_eq_some {p q : Peers} (h : p.step E .startA = some q) :
    ∃ sdp a, p.answer = some sdp ∧ p.a.start E sdp = some (true, a) ∧ q = { p with a := a } := by
  obtain ⟨sdp, hsdp, h⟩ := Option.bind_eq_some_iff.mp h
  split at h
  · next a hstart => exact ⟨sdp, a, hsdp, hstart, (Option.some.inj h).symm⟩
  · cases h

theorem step_startB_eq_some {p q : Peers} (h : p.step E .startB = some q) :
    ∃ sdp b, p.offer = some sdp ∧ p.b.start E sdp = some (true, b) ∧ q = { p with b := b } := by
  obtain ⟨sdp, hsdp, h⟩ := Option.bind_eq_some_iff.mp h
  split at h
  · next b hstart => exact ⟨sdp, b, hsdp, hstart, (Option.some.inj h).symm⟩
  · cases h

/-- The four calls, independently of the order of the starts. -/
theorem exec_exchange {p p' : Peers} {ga gb : Drawn} {acts : List PeerAct}
    (hacts : Exchange ga gb acts) (h : exec (step E) p acts = some p') :
    ∃ a b offer answer, p.a.request E ga = (a, some offer) ∧
      p.b.replyRequest E gb = (b, some answer) ∧ a.start E answer = some (true, p'.a) ∧
      b.start E offer = some (true, p'.b) := by
  obtain ⟨p₁, h₁, p₂, h₂, hrest⟩ : ∃ p₁, p.step E (.request ga) = some p₁ ∧
      ∃ p₂, p₁.step E (.reply gb) = some p₂ ∧
        (exec (step E) p₂ [.startA, .startB] = some p' ∨
          exec (step E) p₂ [.startB, .startA] = some p') := by
    rcases hacts with rfl | rfl <;>
    · obtain ⟨p₁, h₁, h⟩ := exec_cons_eq_some.mp h
      obtain ⟨p₂, h₂, h⟩ := exec_cons_eq_some.mp h
      exact ⟨p₁, h₁, p₂, h₂, by simp [h]⟩
  simp only [step] at h₁ h₂
  split at h₁
  · cases h₁
  · next a offer hreq =>
    cases h₁
    split at h₂
    · cases h₂
    · next b answer hrep =>
      cases h₂
      refine ⟨a, b, offer, answer, hreq, hrep, ?_⟩
      rcases hrest with h | h
      · obtain ⟨q, hq, h⟩ := exec_cons_eq_some.mp h
        obtain ⟨r, hr, ⟨⟩⟩ := exec_cons_eq_some.mp h
        obtain ⟨_, a', ⟨⟩, hstartA, rfl⟩ := step_startA_eq_some hq
        obtain ⟨_, b', ⟨⟩, hstartB, rfl⟩ := step_startB_eq_some hr
        exact ⟨hstartA, hstartB⟩
      · obtain ⟨q, hq, h⟩ := exec_cons_eq_some.mp h
        obtain ⟨r, hr, ⟨⟩⟩ := exec_cons_eq_some.mp h
        obtain ⟨_, b', ⟨⟩, hstartB, rfl⟩ := step_startB_eq_some hq
        obtain ⟨_, a', ⟨⟩, hstartA, rfl⟩ := step_startA_eq_some hr
        exact ⟨hstartA, hstartB⟩

/-- An exchange ends in agreement exactly when both ends held the right public key before. -/
theorem exchange_agree_iff (E : SessionEnv) (hcodec : E.codec.KeepsKeys) {p p' : Peers}
    {ga gb : Drawn} {acts : List PeerAct}
    (hsymm : E.box.beforenm (E.box.publicKey ga.secretKey) gb.secretKey =
      E.box.beforenm (E.box.publicKey gb.secretKey) ga.secretKey)
    (ha : p.a.cryptoEnabled) (hb : p.b.cryptoEnabled) (hacts : Exchange ga gb acts)
    (h : exec (step E) p acts = some p') :
    p'.Agree E ↔ HoldsPeerKey E.box p.a ga gb ∧ HoldsPeerKey E.box p.b gb ga := by
  obtain ⟨a, b, offer, answer, hreq, hrep, hstartA, hstartB⟩ := exec_exchange hacts h
  obtain ⟨hka, hoffer⟩ := IOEXSession.request_eq_some hreq
  obtain ⟨hkb, hanswer⟩ := IOEXSession.replyRequest_eq_some hrep
  have hlenA : a.publicKey.length = publicKeyBytes := hka.publicKey ▸ E.box.length_publicKey _
  have hlenB : b.publicKey.length = publicKeyBytes := hkb.publicKey ▸ E.box.length_publicKey _
  have henA : a.cryptoEnabled := hka.cryptoEnabled ▸ ha
  have henB : b.cryptoEnabled := hkb.cryptoEnabled ▸ hb
  obtain ⟨-, hpubA, hsecA, hkeyA, hnA⟩ := IOEXSession.start_eq_some hcodec hanswer hlenB
    (hkb.nonce ▸ gb.length_nonce) henB henA hstartA
  obtain ⟨-, hpubB, hsecB, hkeyB, hnB⟩ := IOEXSession.start_eq_some hcodec hoffer hlenA
    (hka.nonce ▸ ga.length_nonce) henA henB hstartB
  have hnonce : p'.a.nonce = p'.b.nonce := by
    have hroleA : a.role = .controlling := hka.role
    have hroleB : b.role = .controlled := hkb.role
    rw [hnA, hnB, if_pos hroleA, if_neg (by rw [hroleB]; exact nofun)]
  have hsa : a.secretKey = ga.secretKey := hka.secretKey
  have hsb : b.secretKey = gb.secretKey := hkb.secretKey
  have hpa : a.publicKey = E.box.publicKey ga.secretKey := hka.publicKey
  have hpb : b.publicKey = E.box.publicKey gb.secretKey := hkb.publicKey
  have hoa : a.peerPubkey = p.a.peerPubkey ∧ a.cryptoKey = p.a.cryptoKey :=
    ⟨hka.peerPubkey, hka.cryptoKey⟩
  have hob : b.peerPubkey = p.b.peerPubkey ∧ b.cryptoKey = p.b.cryptoKey :=
    ⟨hkb.peerPubkey, hkb.cryptoKey⟩
  unfold Agree HoldsPeerKey
  rw [hpubB, hpb, hsecA, hsa, hpubA, hpa, hsecB, hsb, hkeyA, hkeyB, hsa, hsb, hoa.1, hoa.2, hob.1,
    hob.2]
  constructor
  · rintro ⟨h1, h2, -, -⟩
    exact ⟨h1, h2⟩
  · rintro ⟨h1, h2⟩
    refine ⟨h1, h2, ?_, hnonce⟩
    rw [hsymm] at h2
    exact Option.some.inj (h1.symm.trans h2)

instance (E : SessionEnv) (p : Peers) : Decidable (p.Agree E) := inferInstanceAs (Decidable (_ ∧ _))

instance (box : CryptoBox) (ws : IOEXSession) (own peer : Drawn) :
    Decidable (HoldsPeerKey box ws own peer) := inferInstanceAs (Decidable (_ = _))

/-- Two key pairs of `crypto_box` and the key `crypto_box_beforenm` computes for them. -/
def offererSecret : Bytes :=
  toBE 32 0x77076d0a7318a57d3c16c17251b26645df4c2f92ebc0992ac177fba51db92c2a

def offererPublic : Bytes :=
  toBE 32 0xf8a9535a2d2ff605e8e144d54f4ef5c62313a2055dbb21fddd3fd9c299eb015d

def answererSecret : Bytes :=
  toBE 32 0x5dab087e624a8a4b79e17f8b83800ee66f3bb1292618b6fd1c2f8b27ff88e0eb

def answererPublic : Bytes :=
  toBE 32 0xde9edb7d7b7dc1b4d35b61c2ece435373f8343c85b78674dadfc7e146f882b4f

def sharedKey : Bytes :=
  toBE 32 0x168baf85de4313ede688b2aabf410e2fc00a0f2307ff221907434ccc24484a17

/-- `crypto_box` on these keys; every other public key, the all-zero one among them, is refused. -/
def tableBox : CryptoBox where
  publicKey sk := if sk = offererSecret then offererPublic else answererPublic
  beforenm pk sk :=
    if pk = answererPublic ∧ sk = offererSecret ∨ pk = offererPublic ∧ sk = answererSecret then
      some sharedKey
    else none
  length_publicKey sk := by split_ifs <;> exact length_toBE 32 _

def offerDrawn : Drawn := ⟨offererSecret, toBE 24 0x0102030405060708090a0b0c0d0e0f101112131415161718, [], length_toBE 24 _⟩

def answerDrawn : Drawn := ⟨answererSecret, toBE 24 0x191a1b1c1d1e1f202122232425262728292a2b2c2d2e2f30, [], length_toBE 24 _⟩

def oneStream : Stream where
  type := .application
  state := .transportReady
  unencrypt := false
  reliable := false
  multiplexing := false
  portforwarding := false
  deactivate := false
  ice := some ⟨⟨false, ascii "192.168.1.2", 50000⟩, []⟩
  remote := .zero

def oneSdp (user nonce : String) : SdpSession where
  originUser := ascii user
  name := ascii "IOEX-ice-session"
  attrs := [⟨ascii "ice-ufrag", ascii "Uf4c"⟩, ⟨ascii "ice-pwd", ascii "Pw5d"⟩,
    ⟨ascii "nonce", ascii nonce⟩]
  media := [⟨ascii "application", 50000, some (ascii "0"), some (ascii "192.168.1.2"), []⟩]

def offerSdp : SdpSession :=
  oneSdp "Hjfrxx21RRVeBijikN3zkv9fqFsjgRHd6Y7ziR8m5JSG" "6L5yRNPTuciSgXGHqYwn9N6NeoDywHBd"

def answerSdp : SdpSession :=
  oneSdp "Fz21Bh7WKCb2CUZNm9WbhhuqBqVR4bXJzEMpb3PpfCCe" "3HjAfbBgJf61sZn4pnbNG87xthZx5JtSK"

def oneText (user nonce : String) : Bytes :=
  ascii "v=0\r\no=" ++ ascii user ++ ascii " 1500000000 1500000000 IN IP4 192.168.1.2\r\n" ++
    ascii "s=IOEX-ice-session\r\nt=0 0\r\na=ice-ufrag:Uf4c\r\na=ice-pwd:Pw5d\r\na=nonce:" ++
    ascii nonce ++ ascii "\r\nm=application 50000 UDP 0\r\nc=IN IP4 192.168.1.2\r\n"

def offerText : Bytes :=
  oneText "Hjfrxx21RRVeBijikN3zkv9fqFsjgRHd6Y7ziR8m5JSG" "6L5yRNPTuciSgXGHqYwn9N6NeoDywHBd"

def answerText : Bytes :=
  oneText "Fz21Bh7WKCb2CUZNm9WbhhuqBqVR4bXJzEMpb3PpfCCe" "3HjAfbBgJf61sZn4pnbNG87xthZx5JtSK"

def tableCodec : SdpCodec where
  print s := if s = offerSdp then some offerText else if s = answerSdp then some answerText else none
  parse t := if t = offerText then some offerSdp else if t = answerText then some answerSdp else none

def tableEnv : SessionEnv := ⟨tableBox, tableCodec, some⟩

/-- A session with one encrypted stream and this `peer_pubkey`. -/
def sessionWith (peerPubkey : Bytes) : IOEXSession where
  offerer := false
  streams := [oneStream]
  publicKey := List.replicate 32 0
  secretKey := List.replicate 32 0
  peerPubkey := peerPubkey
  nonce := List.replicate 24 0
  credential := []
  cryptoEnabled := true
  cryptoKey := List.replicate 32 0
  role := .unknown
  ufrag := ascii "Uf4c"
  pwd := ascii "Pw5d"

def fourCalls : List PeerAct := [.request offerDrawn, .reply answerDrawn, .startA, .startB]

theorem tableCodec_keepsKeys : tableCodec.KeepsKeys := by
  have hne : answerText ≠ offerText := by decide +kernel
  intro s text s' hprint hparse
  simp only [tableCodec] at hprint hparse
  split_ifs at hprint with h1 h2
  · cases hprint
    rw [if_pos rfl] at hparse
    cases hparse
    exact ⟨by rw [h1], by rw [h1]⟩
  · cases hprint
    rw [if_neg hne, if_pos rfl] at hparse
    cases hparse
    exact ⟨by rw [h2], by rw [h2]⟩

/-- Sessions that hold each other's public key from an earlier start. -/
theorem exchange_agree_known :
    ∃ p', exec (step tableEnv) ⟨sessionWith answererPublic, sessionWith offererPublic, none, none⟩
        fourCalls = some p' ∧ p'.Agree tableEnv := by
  obtain ⟨p', hp'⟩ := Option.isSome_iff_exists.mp (show (exec (step tableEnv)
    ⟨sessionWith answererPublic, sessionWith offererPublic, none, none⟩ fourCalls).isSome by
      decide +kernel)
  exact ⟨p', hp', (exchange_agree_iff tableEnv tableCodec_keepsKeys (by decide +kernel) rfl rfl
    (.inl rfl) hp').mpr ⟨by decide +kernel, by decide +kernel⟩⟩

/-- New sessions: both keys stay all zero. -/
theorem exchange_new_sessions_disagree :
    ∃ p', exec (step tableEnv) ⟨sessionWith (List.replicate 32 0),
        sessionWith (List.replicate 32 0), none, none⟩ fourCalls = some p' ∧
      ¬p'.Agree tableEnv := by
  have hrun : (exec (step tableEnv) ⟨sessionWith (List.replicate 32 0),
      sessionWith (List.replicate 32 0), none, none⟩ fourCalls).map
        (fun p => decide (p.Agree tableEnv)) = some false := by decide +kernel
  obtain ⟨p', hp', hagree⟩ := Option.map_eq_some_iff.mp hrun
  exact ⟨p', hp', of_decide_eq_false hagree⟩

end Peers

end Carrier.Session
