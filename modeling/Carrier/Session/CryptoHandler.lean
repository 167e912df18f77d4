import Carrier.Common.Error
import Carrier.Session.FlexBuffer
import Carrier.Session.KeyAgreement

/-! `session/crypto_handler.c` with the functions of `common/crypto.c` it calls, and the calls two
connected sessions make of them. -/
namespace Carrier.Session
open Carrier.Lib Carrier.Common

def macBytes : ℕ := 16

def zeroBytes : ℕ := 32

/-- `crypto_box_afternm` and `crypto_box_open_afternm` of `libsodium`, on a padded text, a nonce
and a key; `none` where they fail. -/
structure BoxCipher where
  afternm : Bytes → Bytes → Bytes → Option Bytes
  openAfternm : Bytes → Bytes → Bytes → Option Bytes

/-- `crypto_encrypt2`: the plain text with its padding cleared, and the encrypted text. -/
def cryptoEncrypt2 (box : BoxCipher) (key nonce plain : Bytes) : Bytes × Option Bytes :=
  if plain.length = 0 then (plain, none)
  else
    let plain := writeAt plain 0 (List.replicate zeroBytes 0)
    (plain, box.afternm plain nonce key)

def cryptoDecrypt2 (box : BoxCipher) (key nonce encrypted : Bytes) : Bytes × Option Bytes :=
  if encrypted.length ≤ zeroBytes then (encrypted, none)
  else
    let encrypted := writeAt encrypted 0 (List.replicate (zeroBytes - macBytes) 0)
    (encrypted, box.openAfternm encrypted nonce key)

/-- The arguments of one call of `crypto_encrypt2`. -/
structure EncryptCall where
  key : Bytes
  nonce : Bytes
  plain : Bytes
  deriving DecidableEq

def EncryptCall.message (c : EncryptCall) : Bytes := c.plain.drop zeroBytes

/-- What one write does: the caller's buffer afterwards, the call of `crypto_encrypt2`, the buffer
handed to the next handler, and the result. -/
structure HandlerWrite where
  buf : FlexBuffer
  call : EncryptCall
  sent : Option FlexBuffer
  written : ℤ

/-- `crypto_handler_write`; `next` is the write of the next handler, the buffer as it leaves it and
its result. The error is an unsigned value, so that the result is positive. -/
def cryptoHandlerWrite (box : BoxCipher) (next : FlexBuffer → FlexBuffer × ℤ) (ws : IOEXSession)
    (buf : FlexBuffer) : HandlerWrite :=
  let cipherBuf := flexBufferNew (buf.size + flexPaddingLen) (flexPaddingLen - zeroBytes)
  let buf := flexBufferBackwardOffset buf zeroBytes
  let call : EncryptCall := ⟨ws.cryptoKey, ws.nonce, buf.payload⟩
  let (plain, cipher) := cryptoEncrypt2 box call.key call.nonce call.plain
  let buf := { buf with buffer := writeAt buf.buffer buf.offset plain }
  let buf := flexBufferForwardOffset buf zeroBytes
  match cipher with
  | none => ⟨buf, call, none, generalError .encrypt⟩
  | some cipher =>
    let cipherBuf :=
      { cipherBuf with buffer := writeAt cipherBuf.buffer cipherBuf.offset cipher }
    let cipherBuf := flexBufferSetSize cipherBuf call.plain.length
    let cipherBuf := flexBufferForwardOffset cipherBuf (zeroBytes - macBytes)
    let (cipherBufAfter, written) := next cipherBuf
    ⟨buf, call, some cipherBuf, if written = cipherBufAfter.size then buf.size else written⟩

/-- `crypto_handler_on_rx_data`: the received buffer afterwards, and the buffer handed to the
previous handler. -/
def cryptoHandlerOnRxData (box : BoxCipher) (ws : IOEXSession) (buf : FlexBuffer) :
    FlexBuffer × Option FlexBuffer :=
  let plainBuf :=
    flexBufferNew (buf.size + flexPaddingLen) (flexPaddingLen - (zeroBytes - macBytes))
  let buf := flexBufferBackwardOffset buf (zeroBytes - macBytes)
  let (encrypted, plain) := cryptoDecrypt2 box ws.cryptoKey ws.nonce buf.payload
  let size := buf.size
  let buf := { buf with buffer := writeAt buf.buffer buf.offset encrypted }
  let buf := flexBufferForwardOffset buf (zeroBytes - macBytes)
  match plain with
  | none => (buf, none)
  | some plain =>
    let plainBuf := { plainBuf with buffer := writeAt plainBuf.buffer plainBuf.offset plain }
    let plainBuf := flexBufferSetSize plainBuf size
    (buf, some (flexBufferForwardOffset plainBuf zeroBytes))

/-- Every write encrypts under the key and the nonce of the session. -/
theorem cryptoHandlerWrite_call (box : BoxCipher) (next : FlexBuffer → FlexBuffer × ℤ)
    (ws : IOEXSession) (buf : FlexBuffer) :
    (cryptoHandlerWrite box next ws buf).call =
      ⟨ws.cryptoKey, ws.nonce, (flexBufferBackwardOffset buf zeroBytes).payload⟩ := by
  unfold cryptoHandlerWrite
  dsimp only
  split <;> rfl

theorem cryptoHandlerWrite_message (box : BoxCipher) (next : FlexBuffer → FlexBuffer × ℤ)
    (ws : IOEXSession) {buf : FlexBuffer} (h : zeroBytes ≤ buf.offset) :
    (cryptoHandlerWrite box next ws buf).call.message = buf.payload := by
  rw [cryptoHandlerWrite_call, EncryptCall.message, flexBufferBackwardOffset_payload h]

/-- Two sessions, the calls of `crypto_encrypt2` their handlers have made, and the texts handed to
the handlers above. -/
structure SecurePeers where
  a : IOEXSession
  b : IOEXSession
  calls : List EncryptCall
  received : List (Side × Bytes)

/-- A buffer that reaches the crypto handler of a stream, from the handler above with the result
of the one below, or from the network. -/
inductive CryptoAct where
  | write (side : Side) (stream : ℕ) (buf : FlexBuffer) (result : ℤ)
  | receive (side : Side) (stream : ℕ) (buf : FlexBuffer)

namespace SecurePeers

def session (s : SecurePeers) : Side → IOEXSession
  | .a => s.a
  | .b => s.b

def Encrypted (ws : IOEXSession) (stream : ℕ) : Prop :=
  ∃ st ∈ ws.streams[stream]?, st.unencrypt = false

instance (ws : IOEXSession) (stream : ℕ) : Decidable (Encrypted ws stream) :=
  inferInstanceAs (Decidable (∃ st ∈ ws.streams[stream]?, st.unencrypt = false))

/-- One handler call; the conditions are the assertions of the handlers. -/
def step (box : BoxCipher) (s : SecurePeers) : CryptoAct → Option SecurePeers
  | .write side stream buf result =>
    if Encrypted (s.session side) stream ∧ zeroBytes ≤ buf.offset then
      let w := cryptoHandlerWrite box (fun cipherBuf => (cipherBuf, result)) (s.session side) buf
      some { s with calls := s.calls ++ [w.call] }
    else none
  | .receive side stream buf =>
    if Encrypted (s.session side) stream ∧ zeroBytes - macBytes ≤ buf.offset then
      match (cryptoHandlerOnRxData box (s.session side) buf).2 with
      | none => some s
      | some plain => some { s with received := s.received ++ [(side, plain.payload)] }
    else none

/-- The sessions share key and nonce, and nothing has been written yet. -/
structure Established (s : SecurePeers) : Prop where
  key : s.a.cryptoKey = s.b.cryptoKey
  nonce : s.a.nonce = s.b.nonce
  calls : s.calls = []

/-- Calls on different texts differ in key or nonce. -/
def NoNonceReuse (s : SecurePeers) : Prop :=
  ∀ x ∈ s.calls, ∀ y ∈ s.calls, x.message ≠ y.message → (x.key, x.nonce) ≠ (y.key, y.nonce)

def written (acts : List CryptoAct) : List Bytes :=
  acts.filterMap (fun
    | .write _ _ buf _ => some buf.payload
    | .receive _ _ _ => none)

variable {box : BoxCipher} {s s' : SecurePeers} {acts : List CryptoAct}

/-- A step keeps both sessions, and logs the text of a write under their key and nonce. -/
theorem step_eq_some {act : CryptoAct} (h : step box s act = some s') :
    s'.a = s.a ∧ s'.b = s.b ∧ ∃ new, s'.calls = s.calls ++ new ∧
      new.map EncryptCall.message = written [act] ∧
      ∀ x ∈ new, ∃ side, x.key = (s.session side).cryptoKey ∧ x.nonce = (s.session side).nonce := by
  cases act with
  | write side stream buf result =>
    simp only [step] at h
    split_ifs at h with hok
    cases h
    refine ⟨rfl, rfl, _, rfl, ?_, fun x hx => ⟨side, ?_⟩⟩
    · simp [written, cryptoHandlerWrite_message _ _ _ hok.2]
    · rw [List.mem_singleton.mp hx, cryptoHandlerWrite_call]
      exact ⟨rfl, rfl⟩
  | receive side stream buf =>
    simp only [step] at h
    split_ifs at h
    split at h <;> cases h <;> exact ⟨rfl, rfl, [], by simp, rfl, by simp⟩

theorem written_cons (act : CryptoAct) (acts : List CryptoAct) :
    written (act :: acts) = written [act] ++ written acts := by
  cases act <;> simp [written]

/-- A run logs the texts written in it, in order, each under the key and nonce of a session. -/
theorem exec_calls (h : exec (step box) s acts = some s') :
    s'.a = s.a ∧ s'.b = s.b ∧ ∃ new, s'.calls = s.calls ++ new ∧
      new.map EncryptCall.message = written acts ∧
      ∀ x ∈ new, ∃ side, x.key = (s.session side).cryptoKey ∧ x.nonce = (s.session side).nonce := by
  induction acts generalizing s with
  | nil =>
    cases h
    exact ⟨rfl, rfl, [], by simp, rfl, by simp⟩
  | cons act acts ih =>
    obtain ⟨m, hm, hrest⟩ := exec_cons_eq_some.mp h
    obtain ⟨ha, hb, new, hcalls, hmsg, hkeys⟩ := step_eq_some hm
    obtain ⟨ha', hb', new', hcalls', hmsg', hkeys'⟩ := ih hrest
    have hsession (side : Side) : m.session side = s.session side := by cases side <;> assumption
    refine ⟨ha'.trans ha, hb'.trans hb, new ++ new', ?_, ?_, ?_⟩
    · rw [hcalls', hcalls, List.append_assoc]
    · rw [List.map_append, hmsg, hmsg', written_cons act acts]
    · intro x hx
      rcases List.mem_append.mp hx with hx | hx
      · exact hkeys x hx
      · obtain ⟨side, hk⟩ := hkeys' x hx
        exact ⟨side, hsession side ▸ hk⟩

theorem established_of_agree {E : SessionEnv} {p : Peers} (h : p.Agree E) :
    Established ⟨p.a, p.b, [], []⟩ := ⟨h.2.2.1, h.2.2.2, rfl⟩

/-- In an established session every call uses one pair of key and nonce. -/
theorem exec_calls_established (hs : s.Established) (h : exec (step box) s acts = some s') :
    s'.calls.map EncryptCall.message = written acts ∧
      ∀ x ∈ s'.calls, x.key = s.a.cryptoKey ∧ x.nonce = s.a.nonce := by
  obtain ⟨-, -, new, hcalls, hmsg, hkeys⟩ := exec_calls h
  rw [hs.calls, List.nil_append] at hcalls
  rw [hcalls]
  refine ⟨hmsg, fun x hx => ?_⟩
  obtain ⟨side, hk, hn⟩ := hkeys x hx
  cases side with
  | a => exact ⟨hk, hn⟩
  | b => exact ⟨hk.trans hs.key.symm, hn.trans hs.nonce.symm⟩

/-- Under one pair of key and nonce, any two different texts reuse the nonce. -/
theorem noNonceReuse_iff {key nonce : Bytes}
    (hpair : ∀ x ∈ s.calls, x.key = key ∧ x.nonce = nonce) :
    s.NoNonceReuse ↔ ∀ p ∈ s.calls.map EncryptCall.message,
      ∀ q ∈ s.calls.map EncryptCall.message, p = q := by
  simp only [NoNonceReuse, List.forall_mem_map]
  constructor
  · intro hno x hx y hy
    by_contra hne
    refine hno x hx y hy hne ?_
    rw [(hpair x hx).1, (hpair x hx).2, (hpair y hy).1, (hpair y hy).2]
  · intro hall x hx y hy hne
    exact absurd (hall x hx y hy) hne

/-- In an established session a nonce is reused as soon as two different texts have been
written: all calls share the key and the nonce it was established with. -/
theorem exec_noNonceReuse_iff (hs : s.Established) (h : exec (step box) s acts = some s') :
    (∀ x ∈ s'.calls, x.key = s.a.cryptoKey ∧ x.nonce = s.a.nonce) ∧
      s'.calls.map EncryptCall.message = written acts ∧
      (s'.NoNonceReuse ↔ ∀ p ∈ written acts, ∀ q ∈ written acts, p = q) := by
  obtain ⟨hmsg, hpair⟩ := exec_calls_established hs h
  refine ⟨hpair, hmsg, ?_⟩
  rw [noNonceReuse_iff hpair, hmsg]

/-- `crypto_box` under the shared key and the nonce of the offerer, on two short texts. -/
def tableCipher : BoxCipher where
  afternm plain nonce key :=
    if key = Peers.sharedKey ∧ nonce = Peers.offerDrawn.nonce then
      if plain = toBE 32 0 ++ ascii "hello" then
        some (toBE 37 0x1e0194b312ca6faa98e565147e7222bc8d6c9c057e)
      else if plain = toBE 32 0 ++ ascii "world" then
        some (toBE 37 0x1934376c9c92b521e208be0e24ffe12d9266820575)
      else none
    else none
  openAfternm encrypted nonce key :=
    if key = Peers.sharedKey ∧ nonce = Peers.offerDrawn.nonce then
      if encrypted = toBE 37 0x1e0194b312ca6faa98e565147e7222bc8d6c9c057e then
        some (toBE 32 0 ++ ascii "hello")
      else if encrypted = toBE 37 0x1934376c9c92b521e208be0e24ffe12d9266820575 then
        some (toBE 32 0 ++ ascii "world")
      else none
    else none

/-- The two ends of a session after an exchange that ended in agreement. -/
def connected : SecurePeers where
  a :=
    { Peers.sessionWith Peers.answererPublic with
      cryptoKey := Peers.sharedKey, nonce := Peers.offerDrawn.nonce }
  b :=
    { Peers.sessionWith Peers.offererPublic with
      cryptoKey := Peers.sharedKey, nonce := Peers.offerDrawn.nonce }
  calls := []
  received := []

/-- The buffer `IOEX_stream_write` hands to the pipeline. -/
def streamBuf (data : Bytes) : FlexBuffer := flexBufferFrom flexPaddingLen data

theorem step_write_connected {s : SecurePeers} (ha : s.a = connected.a) (side : Side)
    (hb : s.b = connected.b) (data : Bytes) (result : ℤ) :
    ∃ s', step tableCipher s (.write side 0 (streamBuf data) result) = some s' ∧
      s'.a = connected.a ∧ s'.b = connected.b := by
  have hok : Encrypted (s.session side) 0 := by
    cases side
    · exact ⟨Peers.oneStream, by rw [session, ha]; exact rfl, rfl⟩
    · exact ⟨Peers.oneStream, by rw [session, hb]; exact rfl, rfl⟩
  rw [step, if_pos ⟨hok, show 32 ≤ 128 by decide⟩]
  exact ⟨_, rfl, ha, hb⟩

/-- Both ends write the same text. -/
theorem exec_noNonceReuse_hello :
    ∃ s', exec (step tableCipher) connected
        [.write .a 0 (streamBuf (ascii "hello")) 21, .write .b 0 (streamBuf (ascii "hello")) 21] =
          some s' ∧ s'.NoNonceReuse := by
  obtain ⟨s₁, h₁, ha₁, hb₁⟩ := step_write_connected rfl .a rfl (ascii "hello") 21
  obtain ⟨s₂, h₂, -, -⟩ := step_write_connected ha₁ .b hb₁ (ascii "hello") 21
  have hrun := exec_cons_eq_some.mpr ⟨s₁, h₁, exec_cons_eq_some.mpr ⟨s₂, h₂, exec_nil s₂⟩⟩
  refine ⟨s₂, hrun, (exec_noNonceReuse_iff ⟨rfl, rfl, rfl⟩ hrun).2.2.mpr ?_⟩
  simp [written]

/-- One end writes two different texts. -/
theorem exec_hello_world_reuse :
    connected.Established ∧ ∃ s', exec (step tableCipher) connected
        [.write .a 0 (streamBuf (ascii "hello")) 21, .write .a 0 (streamBuf (ascii "world")) 21] =
          some s' ∧ ¬s'.NoNonceReuse := by
  obtain ⟨s₁, h₁, ha₁, hb₁⟩ := step_write_connected rfl .a rfl (ascii "hello") 21
  obtain ⟨s₂, h₂, -, -⟩ := step_write_connected ha₁ .a hb₁ (ascii "world") 21
  have hrun := exec_cons_eq_some.mpr ⟨s₁, h₁, exec_cons_eq_some.mpr ⟨s₂, h₂, exec_nil s₂⟩⟩
  have hs : connected.Established := ⟨rfl, rfl, rfl⟩
  obtain ⟨hmsg, hpair⟩ := exec_calls_established hs hrun
  refine ⟨hs, s₂, hrun, fun hno => ?_⟩
  have hall := (noNonceReuse_iff hpair).mp hno
  rw [hmsg] at hall
  exact absurd (hall (ascii "hello") (by decide) (ascii "world") (by decide)) (by decide)

end SecurePeers

end Carrier.Session
