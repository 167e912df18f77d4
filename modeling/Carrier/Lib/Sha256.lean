import Carrier.Lib.Bytes

/-! SHA-256 on byte strings, as `libsodium` computes it. The digests of the persistence layer
are a parameter there; this is the function the program runs with. -/
namespace Carrier.Lib.Sha256

def roundConstants : List UInt32 :=
  [0x428a2f98, 0x71374491, 0xb5c0fbcf, 0xe9b5dba5, 0x3956c25b, 0x59f111f1, 0x923f82a4, 0xab1c5ed5,
   0xd807aa98, 0x12835b01, 0x243185be, 0x550c7dc3, 0x72be5d74, 0x80deb1fe, 0x9bdc06a7, 0xc19bf174,
   0xe49b69c1, 0xefbe4786, 0x0fc19dc6, 0x240ca1cc, 0x2de92c6f, 0x4a7484aa, 0x5cb0a9dc, 0x76f988da,
   0x983e5152, 0xa831c66d, 0xb00327c8, 0xbf597fc7, 0xc6e00bf3, 0xd5a79147, 0x06ca6351, 0x14292967,
   0x27b70a85, 0x2e1b2138, 0x4d2c6dfc, 0x53380d13, 0x650a7354, 0x766a0abb, 0x81c2c92e, 0x92722c85,
   0xa2bfe8a1, 0xa81a664b, 0xc24b8b70, 0xc76c51a3, 0xd192e819, 0xd6990624, 0xf40e3585, 0x106aa070,
   0x19a4c116, 0x1e376c08, 0x2748774c, 0x34b0bcb5, 0x391c0cb3, 0x4ed8aa4a, 0x5b9cca4f, 0x682e6ff3,
   0x748f82ee, 0x78a5636f, 0x84c87814, 0x8cc70208, 0x90befffa, 0xa4506ceb, 0xbef9a3f7, 0xc67178f2]

structure State where
  (a b c d e f g h : UInt32)

def initial : State :=
  ⟨0x6a09e667, 0xbb67ae85, 0x3c6ef372, 0xa54ff53a, 0x510e527f, 0x9b05688c, 0x1f83d9ab, 0x5be0cd19⟩

def rotr (x n : UInt32) : UInt32 := (x >>> n) ||| (x <<< (32 - n))

/-- The message with its terminating bit, zeros up to a block boundary and the bit length. -/
def pad (msg : Bytes) : Bytes :=
  msg ++ 0x80 :: List.replicate ((119 - msg.length % 64) % 64) 0 ++ toBE 8 (8 * msg.length)

def word (bs : Bytes) : UInt32 := UInt32.ofNat (ofBE bs)

/-- The next word of the message schedule, from the sixteen before it. -/
def scheduleNext (w : List UInt32) : UInt32 :=
  let x := w.getD 1 0
  let y := w.getD 14 0
  let s0 := rotr x 7 ^^^ rotr x 18 ^^^ (x >>> 3)
  let s1 := rotr y 17 ^^^ rotr y 19 ^^^ (y >>> 10)
  w.getD 0 0 + s0 + w.getD 9 0 + s1

def round (s : State) (k w : UInt32) : State :=
  let S1 := rotr s.e 6 ^^^ rotr s.e 11 ^^^ rotr s.e 25
  let ch := (s.e &&& s.f) ^^^ (~~~s.e &&& s.g)
  let t1 := s.h + S1 + ch + k + w
  let S0 := rotr s.a 2 ^^^ rotr s.a 13 ^^^ rotr s.a 22
  let maj := (s.a &&& s.b) ^^^ (s.a &&& s.c) ^^^ (s.b &&& s.c)
  ⟨t1 + (S0 + maj), s.a, s.b, s.c, s.d + t1, s.e, s.f, s.g⟩

/-- The rounds of one block, `w` holding the sixteen schedule words from this round on. -/
def rounds : List UInt32 → List UInt32 → State → State
  | [], _, s => s
  | k :: ks, w, s => rounds ks (w.tail ++ [scheduleNext w]) (round s k (w.getD 0 0))

def compress (s : State) (block : Bytes) : State :=
  let w := (List.range 16).map (fun i => word (readAt block (4 * i) 4))
  let r := rounds roundConstants w s
  ⟨s.a + r.a, s.b + r.b, s.c + r.c, s.d + r.d, s.e + r.e, s.f + r.f, s.g + r.g, s.h + r.h⟩

def sha256 (msg : Bytes) : Bytes :=
  let data := pad msg
  let s := (List.range (data.length / 64)).foldl (fun s i => compress s (readAt data (64 * i) 64))
    initial
  [s.a, s.b, s.c, s.d, s.e, s.f, s.g, s.h].flatMap (fun x => toBE 4 x.toNat)

theorem length_sha256 (msg : Bytes) : (sha256 msg).length = 32 := by
  simp [sha256]

example : ofBE (sha256 [0x61, 0x62, 0x63]) =
    0xba7816bf8f01cfea414140de5dae2223b00361a396177a9cb410ff61f20015ad := by decide +kernel

end Carrier.Lib.Sha256
