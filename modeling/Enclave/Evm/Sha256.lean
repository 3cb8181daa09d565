import Enclave.Evm.Word

/-!
# SHA-256

The hash that the precompile at address `2` computes, over 32-bit words held as natural numbers.
The message schedule is kept as a window of the next sixteen words, so that one step of the
compression function uses the first word and appends the word sixteen places further on.
-/

namespace Enclave.Sha256

def rotr (r v : ℕ) : ℕ := (v >>> r ||| v <<< (32 - r)) % 2 ^ 32

def bigSigma0 (x : ℕ) : ℕ := rotr 2 x ^^^ rotr 13 x ^^^ rotr 22 x
def bigSigma1 (x : ℕ) : ℕ := rotr 6 x ^^^ rotr 11 x ^^^ rotr 25 x
def smallSigma0 (x : ℕ) : ℕ := rotr 7 x ^^^ rotr 18 x ^^^ x >>> 3
def smallSigma1 (x : ℕ) : ℕ := rotr 17 x ^^^ rotr 19 x ^^^ x >>> 10

def ch (x y z : ℕ) : ℕ := (x &&& y) ^^^ ((2 ^ 32 - 1 ^^^ x) &&& z)
def maj (x y z : ℕ) : ℕ := (x &&& y) ^^^ (x &&& z) ^^^ (y &&& z)

/-- The eight working variables. -/
structure Regs where
  (a b c d e f g h : ℕ)

/-- The first 32 bits of the fractional parts of the cube roots of the first 64 primes. -/
def constants : List ℕ :=
  [0x428a2f98, 0x71374491, 0xb5c0fbcf, 0xe9b5dba5, 0x3956c25b, 0x59f111f1, 0x923f82a4, 0xab1c5ed5,
    0xd807aa98, 0x12835b01, 0x243185be, 0x550c7dc3, 0x72be5d74, 0x80deb1fe, 0x9bdc06a7, 0xc19bf174,
    0xe49b69c1, 0xefbe4786, 0x0fc19dc6, 0x240ca1cc, 0x2de92c6f, 0x4a7484aa, 0x5cb0a9dc, 0x76f988da,
    0x983e5152, 0xa831c66d, 0xb00327c8, 0xbf597fc7, 0xc6e00bf3, 0xd5a79147, 0x06ca6351, 0x14292967,
    0x27b70a85, 0x2e1b2138, 0x4d2c6dfc, 0x53380d13, 0x650a7354, 0x766a0abb, 0x81c2c92e, 0x92722c85,
    0xa2bfe8a1, 0xa81a664b, 0xc24b8b70, 0xc76c51a3, 0xd192e819, 0xd6990624, 0xf40e3585, 0x106aa070,
    0x19a4c116, 0x1e376c08, 0x2748774c, 0x34b0bcb5, 0x391c0cb3, 0x4ed8aa4a, 0x5b9cca4f, 0x682e6ff3,
    0x748f82ee, 0x78a5636f, 0x84c87814, 0x8cc70208, 0x90befffa, 0xa4506ceb, 0xbef9a3f7, 0xc67178f2]

/-- The first 32 bits of the fractional parts of the square roots of the first 8 primes. -/
def initial : Regs :=
  ⟨0x6a09e667, 0xbb67ae85, 0x3c6ef372, 0xa54ff53a, 0x510e527f, 0x9b05688c, 0x1f83d9ab, 0x5be0cd19⟩

/-- One step, with the window `w` of schedule words and the constant `k`. -/
def step (s : Regs × List ℕ) (k : ℕ) : Regs × List ℕ :=
  let (r, w) := s
  let t1 := r.h + bigSigma1 r.e + ch r.e r.f r.g + k + w.headD 0
  let t2 := bigSigma0 r.a + maj r.a r.b r.c
  let next := (smallSigma1 (w.getD 14 0) + w.getD 9 0 + smallSigma0 (w.getD 1 0) + w.headD 0)
    % 2 ^ 32
  (⟨(t1 + t2) % 2 ^ 32, r.a, r.b, r.c, (r.d + t1) % 2 ^ 32, r.e, r.f, r.g⟩, w.tail ++ [next])

/-- The first `k` big-endian words of a byte string. -/
def words : ℕ → Bytes → List ℕ
  | 0, _ => []
  | k + 1, m => ofBytesBE (m.take 4) :: words k (m.drop 4)

def compress (r : Regs) (block : Bytes) : Regs :=
  let s := (constants.foldl step (r, words 16 block)).1
  ⟨(r.a + s.a) % 2 ^ 32, (r.b + s.b) % 2 ^ 32, (r.c + s.c) % 2 ^ 32, (r.d + s.d) % 2 ^ 32,
    (r.e + s.e) % 2 ^ 32, (r.f + s.f) % 2 ^ 32, (r.g + s.g) % 2 ^ 32, (r.h + s.h) % 2 ^ 32⟩

/-- The message, a one bit, zeros, and the length in bits: a multiple of 64 bytes. -/
def pad (m : Bytes) : Bytes :=
  m ++ 0x80 :: List.replicate ((119 - m.length % 64) % 64) 0 ++ toBytesBE 8 (8 * m.length)

def blocks : ℕ → Regs → Bytes → Regs
  | 0, r, _ => r
  | k + 1, r, m => blocks k (compress r (m.take 64)) (m.drop 64)

end Enclave.Sha256

namespace Enclave

/-- `sha256(m)`. -/
def sha256 (m : Bytes) : Word :=
  let p := Sha256.pad m
  let r := Sha256.blocks (p.length / 64) Sha256.initial p
  Word.ofBytes ([r.a, r.b, r.c, r.d, r.e, r.f, r.g, r.h].flatMap (toBytesBE 4))

-- the digest of `"abc"`
example : sha256 [0x61, 0x62, 0x63] =
    0xba7816bf8f01cfea414140de5dae2223b00361a396177a9cb410ff61f20015ad := by decide +kernel

end Enclave
