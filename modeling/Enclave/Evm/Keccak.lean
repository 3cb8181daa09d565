import Enclave.Evm.Word

/-!
# Keccak-256

The hash of the `KECCAK256` opcode: the sponge over the 1600-bit permutation Keccak-f with rate
1088 (136 bytes), the original padding `0x01 … 0x80` and 32 bytes of output.

A state is five rows of five 64-bit lanes, row `y` and lane `x` holding `A[x, y]`.  Each step of a
round is written on whole rows, so that a digest of a closed string can be evaluated.
-/

namespace Enclave.Keccak

/-- Five lanes, each a natural number below `2 ^ 64`. -/
abbrev Row := List ℕ

/-- Five rows. -/
abbrev State := List Row

/-- Rotation of a lane to the left by `r` bits. -/
def rotl (r v : ℕ) : ℕ := (v <<< r ||| v >>> (64 - r)) % 2 ^ 64

/-- Lane `x` of the result is lane `x + 1` of the row. -/
def turn : Row → Row
  | [] => []
  | v :: vs => vs ++ [v]

def xorRows (r s : Row) : Row := r.zipWith (· ^^^ ·) s

/-- `A[x, y] ⊕ C[x - 1] ⊕ rotl 1 C[x + 1]`, with `C` the parities of the columns. -/
def theta (A : State) : State :=
  let C := A.foldr xorRows [0, 0, 0, 0, 0]
  let D := xorRows (turn (turn (turn (turn C)))) ((turn C).map (rotl 1))
  A.map (xorRows D)

def rhoOffsets : State :=
  [[0, 1, 62, 28, 27], [36, 44, 6, 55, 20], [3, 10, 43, 25, 39], [41, 45, 15, 21, 8],
    [18, 2, 61, 56, 14]]

def rho (A : State) : State := rhoOffsets.zipWith (List.zipWith rotl) A

def columns (A : State) : State := A.foldr (List.zipWith List.cons) [[], [], [], [], []]

/-- Lane `(x, y)` of the result is lane `(x + 3 y, x)`: column `3 y` once row `x` has been turned
`x` times. -/
def pi : State → State
  | [r0, r1, r2, r3, r4] =>
    match columns [r0, turn r1, turn (turn r2), turn (turn (turn r3)),
        turn (turn (turn (turn r4)))] with
    | [c0, c1, c2, c3, c4] => [c0, c3, c1, c4, c2]
    | _ => []
  | _ => []

/-- `B[x] ⊕ (¬B[x + 1] ∧ B[x + 2])` on one row. -/
def chiRow (r : Row) : Row :=
  xorRows r (List.zipWith (fun u v => (2 ^ 64 - 1 ^^^ u) &&& v) (turn r) (turn (turn r)))

def iota (rc : ℕ) : State → State
  | (v :: vs) :: rs => ((v ^^^ rc) :: vs) :: rs
  | A => A

def roundConstants : List ℕ :=
  [0x0000000000000001, 0x0000000000008082, 0x800000000000808A, 0x8000000080008000,
    0x000000000000808B, 0x0000000080000001, 0x8000000080008081, 0x8000000000008009,
    0x000000000000008A, 0x0000000000000088, 0x0000000080008009, 0x000000008000000A,
    0x000000008000808B, 0x800000000000008B, 0x8000000000008089, 0x8000000000008003,
    0x8000000000008002, 0x8000000000000080, 0x000000000000800A, 0x800000008000000A,
    0x8000000080008081, 0x8000000000008080, 0x0000000080000001, 0x8000000080008008]

def round (A : State) (rc : ℕ) : State := iota rc ((pi (rho (theta A))).map chiRow)

/-- Keccak-f[1600]. -/
def permute (A : State) : State := roundConstants.foldl round A

/-! ### The sponge -/

/-- The first `k` little-endian lanes of a byte string. -/
def lanes : ℕ → Bytes → Row
  | 0, _ => []
  | k + 1, m => ofBytesBE (m.take 8).reverse :: lanes k (m.drop 8)

/-- A list of 25 lanes as five rows. -/
def rows (ls : Row) : State :=
  [ls.take 5, (ls.drop 5).take 5, (ls.drop 10).take 5, (ls.drop 15).take 5, ls.drop 20]

/-- The message with its padding, a multiple of 136 bytes long. -/
def pad (m : Bytes) : Bytes :=
  let z := 136 - m.length % 136
  if z = 1 then m ++ [0x81] else m ++ 0x01 :: List.replicate (z - 2) 0 ++ [0x80]

/-- Absorbs `k` blocks; the lanes beyond a block of 136 bytes are zero. -/
def absorb : ℕ → State → Bytes → State
  | 0, A, _ => A
  | k + 1, A, m =>
    absorb k (permute (A.zipWith xorRows (rows (lanes 25 (m.take 136))))) (m.drop 136)

def squeeze (A : State) : Bytes := (A.flatten.take 4).flatMap fun v => (toBytesBE 8 v).reverse

end Enclave.Keccak

namespace Enclave

/-- `keccak256(m)`. -/
def keccak256 (m : Bytes) : Word :=
  let p := Keccak.pad m
  Word.ofBytes (Keccak.squeeze
    (Keccak.absorb (p.length / 136) (List.replicate 5 [0, 0, 0, 0, 0]) p))

theorem keccak256_nil :
    keccak256 [] = 0xc5d2460186f7233c927e7db2dcc703c0e500b653ca82273b7bfad8045d85a470 := by
  decide +kernel

/-- The bytes of an ASCII string literal. -/
def ascii (s : String) : Bytes := s.toList.map fun c => UInt8.ofNat c.toNat

/-- The first four bytes of the hash of a function's signature. -/
def selector (signature : String) : Bytes := (keccak256 (ascii signature)).toBytes.take 4

theorem length_selector (signature : String) : (selector signature).length = 4 := by
  rw [selector, List.length_take, Word.length_toBytes]
  rfl

theorem take_selector_append (signature : String) (args : Bytes) :
    (selector signature ++ args).take 4 = selector signature :=
  List.take_left' (length_selector signature)

theorem drop_selector_append (signature : String) (args : Bytes) :
    (selector signature ++ args).drop 4 = args :=
  List.drop_left' (length_selector signature)

/-- There is a selector in front of the arguments. -/
theorem four_le_length_selector_append (signature : String) (args : Bytes) :
    4 ≤ (selector signature ++ args).length := by
  rw [List.length_append, length_selector]
  omega

end Enclave
