/- SHA-256, HMAC-SHA-256 and CRC-32 as `hashlib`, `hmac` and `zlib` compute them: the
   primitives every statement over a `Crypto` can be read at. -/

import ProofRay.Engine.Basis

namespace ProofRay.Engine

namespace Sha256

def word (n : Nat) : Nat := n % 4294967296

def rotr (x n : Nat) : Nat := word ((x >>> n) ||| (x <<< (32 - n)))

def roundConstants : List Nat :=
  [0x428a2f98, 0x71374491, 0xb5c0fbcf, 0xe9b5dba5, 0x3956c25b, 0x59f111f1, 0x923f82a4, 0xab1c5ed5,
   0xd807aa98, 0x12835b01, 0x243185be, 0x550c7dc3, 0x72be5d74, 0x80deb1fe, 0x9bdc06a7, 0xc19bf174,
   0xe49b69c1, 0xefbe4786, 0x0fc19dc6, 0x240ca1cc, 0x2de92c6f, 0x4a7484aa, 0x5cb0a9dc, 0x76f988da,
   0x983e5152, 0xa831c66d, 0xb00327c8, 0xbf597fc7, 0xc6e00bf3, 0xd5a79147, 0x06ca6351, 0x14292967,
   0x27b70a85, 0x2e1b2138, 0x4d2c6dfc, 0x53380d13, 0x650a7354, 0x766a0abb, 0x81c2c92e, 0x92722c85,
   0xa2bfe8a1, 0xa81a664b, 0xc24b8b70, 0xc76c51a3, 0xd192e819, 0xd6990624, 0xf40e3585, 0x106aa070,
   0x19a4c116, 0x1e376c08, 0x2748774c, 0x34b0bcb5, 0x391c0cb3, 0x4ed8aa4a, 0x5b9cca4f, 0x682e6ff3,
   0x748f82ee, 0x78a5636f, 0x84c87814, 0x8cc70208, 0x90befffa, 0xa4506ceb, 0xbef9a3f7, 0xc67178f2]

structure State where
  a : Nat
  b : Nat
  c : Nat
  d : Nat
  e : Nat
  f : Nat
  g : Nat
  h : Nat

def initial : State :=
  ⟨0x6a09e667, 0xbb67ae85, 0x3c6ef372, 0xa54ff53a, 0x510e527f, 0x9b05688c, 0x1f83d9ab, 0x5be0cd19⟩

def wordBytes (n : Nat) : Bytes :=
  [UInt8.ofNat (n >>> 24), UInt8.ofNat (n >>> 16), UInt8.ofNat (n >>> 8), UInt8.ofNat n]

def words : Bytes → List Nat
  | b₀ :: b₁ :: b₂ :: b₃ :: rest =>
    (b₀.toNat * 16777216 + b₁.toNat * 65536 + b₂.toNat * 256 + b₃.toNat) :: words rest
  | _ => []

def schedule : Nat → List Nat → List Nat
  | 0, w => w
  | n + 1, w =>
    let w₂ := w.getD 1 0
    let w₁₅ := w.getD 14 0
    let s₀ := rotr w₁₅ 7 ^^^ rotr w₁₅ 18 ^^^ (w₁₅ >>> 3)
    let s₁ := rotr w₂ 17 ^^^ rotr w₂ 19 ^^^ (w₂ >>> 10)
    schedule n (word (w.getD 15 0 + s₀ + w.getD 6 0 + s₁) :: w)

def round (s : State) (kw : Nat × Nat) : State :=
  let s₁ := rotr s.e 6 ^^^ rotr s.e 11 ^^^ rotr s.e 25
  let ch := (s.e &&& s.f) ^^^ ((4294967295 - s.e) &&& s.g)
  let t₁ := s.h + s₁ + ch + kw.1 + kw.2
  let s₀ := rotr s.a 2 ^^^ rotr s.a 13 ^^^ rotr s.a 22
  let maj := (s.a &&& s.b) ^^^ (s.a &&& s.c) ^^^ (s.b &&& s.c)
  ⟨word (t₁ + s₀ + maj), s.a, s.b, s.c, word (s.d + t₁), s.e, s.f, s.g⟩

def compress (s : State) (block : Bytes) : State :=
  let w := (schedule 48 (words block).reverse).reverse
  let r := (roundConstants.zip w).foldl round s
  ⟨word (s.a + r.a), word (s.b + r.b), word (s.c + r.c), word (s.d + r.d), word (s.e + r.e),
    word (s.f + r.f), word (s.g + r.g), word (s.h + r.h)⟩

def pad (b : Bytes) : Bytes :=
  b ++ [128] ++ List.replicate ((119 - b.length % 64) % 64) 0 ++
    wordBytes (b.length * 8 / 4294967296) ++ wordBytes (b.length * 8)

def blocks : Nat → Bytes → State → State
  | 0, _, s => s
  | n + 1, b, s => blocks n (b.drop 64) (compress s (b.take 64))

def digest (b : Bytes) : Bytes :=
  let s := blocks ((pad b).length / 64) (pad b) initial
  wordBytes s.a ++ wordBytes s.b ++ wordBytes s.c ++ wordBytes s.d ++ wordBytes s.e ++
    wordBytes s.f ++ wordBytes s.g ++ wordBytes s.h

theorem length_digest (b : Bytes) : (digest b).length = 32 := rfl

end Sha256

def hmacSha256 (key data : Bytes) : Bytes :=
  let short := if 64 < key.length then Sha256.digest key else key
  let block := short ++ List.replicate (64 - short.length) 0
  Sha256.digest (block.map (· ^^^ 92) ++ Sha256.digest (block.map (· ^^^ 54) ++ data))

def crcBit (n : Nat) : Nat := if n % 2 = 1 then (n / 2) ^^^ 3988292384 else n / 2

def crcByte (n : Nat) (b : UInt8) : Nat :=
  crcBit (crcBit (crcBit (crcBit (crcBit (crcBit (crcBit (crcBit (n ^^^ b.toNat))))))))

def crc32 (b : Bytes) : Nat := (b.foldl crcByte 4294967295 ^^^ 4294967295) % 4294967296

def stdCrypto : Crypto where
  sha256 := Sha256.digest
  hmac := hmacSha256
  crc32 := crc32
  sha256_length := Sha256.length_digest
  hmac_length := fun _ _ => Sha256.length_digest _
  crc32_lt := fun _ => Nat.mod_lt _ (by decide)

end ProofRay.Engine
