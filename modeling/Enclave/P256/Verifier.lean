import Enclave.Curve.StraussShamir
import Enclave.Evm.Precompile
import Enclave.P256.Params

/-!
# `P256Verifier.sol`

The contract's internal functions, on natural numbers that hold `uint256` values.  Every subtraction
`p - t` of the source is checked and can revert, so each function that makes one returns a `Result`;
`mulmod` and `addmod` never do.  The calls to `console.log` only pass their arguments to the logging
address of the development network and are left out.
-/

namespace Enclave.P256Verifier

open Curve P256

/-! ### Inversion -/

/-- `u^(f - 2) mod f` through the precompile at address `5`. -/
def modInv (u f minus2modf : ℕ) : Result ℕ :=
  let input := abiEncode [.word 32, .word 32, .word 32, .word (BitVec.ofNat 256 u),
    .word (BitVec.ofNat 256 minus2modf), .word (BitVec.ofNat 256 f)]
  match modexp input with
  | none => .error (.panic 0x01)
  | some ret => do
    let result ← abiDecodeWord ret 0
    .ok result.toNat

def nModInv (u : ℕ) : Result ℕ := modInv u n minus2modn

def pModInv (u : ℕ) : Result ℕ := modInv u p minus2modp

/-! ### Points -/

def ecAffIsInf (x y : ℕ) : Bool := x == 0 && y == 0

def ecZZIsInf (zz zzz : ℕ) : Bool := zz == 0 && zzz == 0

def ecZZPointAtInf : XYZZ ℕ := ⟨0, 0, 0, 0⟩

def ecAffinePointAtInf : ℕ × ℕ := (0, 0)

def ecAffSatisfiesCurveEqn (x y : ℕ) : Bool :=
  let lhs := mulmod y y p
  let rhs := addmod (mulmod (mulmod x x p) x p) (mulmod a x p) p
  let rhs := addmod rhs b p
  lhs == rhs

def ecAffIsValidPubkey (x y : ℕ) : Bool :=
  if x ≥ p ∨ y ≥ p ∨ (x = 0 ∧ y = 0) then false else ecAffSatisfiesCurveEqn x y

/-- Doubles an affine point. -/
def ecZZDoubleAffine (x1 y1 : ℕ) : Result (XYZZ ℕ) :=
  if ecAffIsInf x1 y1 then .ok ecZZPointAtInf else do
    let compU := mulmod 2 y1 p
    let zz3 := mulmod compU compU p
    let zzz3 := mulmod compU zz3 p
    let compS := mulmod x1 zz3 p
    let compM := addmod (mulmod 3 (mulmod x1 x1 p) p) a p
    let x3 := addmod (mulmod compM compM p) (mulmod minus2modp compS p) p
    let negX3 ← checkedSub p x3
    let negZZZ3 ← checkedSub p zzz3
    let y3 := addmod (mulmod compM (addmod compS negX3 p) p) (mulmod negZZZ3 y1 p) p
    .ok ⟨x3, y3, zz3, zzz3⟩

/-- Doubles a point in XYZZ coordinates. -/
def ecZZDoubleZZ (P : XYZZ ℕ) : Result (XYZZ ℕ) :=
  if ecZZIsInf P.zz P.zzz then .ok ecZZPointAtInf else do
    let compU := mulmod 2 P.y p
    let compV := mulmod compU compU p
    let compW := mulmod compU compV p
    let compS := mulmod P.x compV p
    let compM := addmod (mulmod 3 (mulmod P.x P.x p) p) (mulmod a (mulmod P.zz P.zz p) p) p
    let x3 := addmod (mulmod compM compM p) (mulmod minus2modp compS p) p
    let negX3 ← checkedSub p x3
    let negW ← checkedSub p compW
    let y3 := addmod (mulmod compM (addmod compS negX3 p) p) (mulmod negW P.y p) p
    let zz3 := mulmod compV P.zz p
    let zzz3 := mulmod compW P.zzz p
    .ok ⟨x3, y3, zz3, zzz3⟩

/-- Adds an affine point to a point in XYZZ coordinates. -/
def ecZZDaddAffine (P : XYZZ ℕ) (x2 y2 : ℕ) : Result (XYZZ ℕ) :=
  if ecAffIsInf x2 y2 then
    if ecZZIsInf P.zz P.zzz then .ok ecZZPointAtInf else .ok P
  else if ecZZIsInf P.zz P.zzz then .ok ⟨x2, y2, 1, 1⟩
  else do
    let negY1 ← checkedSub p P.y
    let compR := addmod (mulmod y2 P.zzz p) negY1 p
    let negX1 ← checkedSub p P.x
    let compP := addmod (mulmod x2 P.zz p) negX1 p
    if compP ≠ 0 then
      let compPP := mulmod compP compP p
      let compPPP := mulmod compPP compP p
      let zz3 := mulmod P.zz compPP p
      let zzz3 := mulmod P.zzz compPPP p
      let compQ := mulmod P.x compPP p
      let negPPP ← checkedSub p compPPP
      let x3 := addmod (addmod (mulmod compR compR p) negPPP p) (mulmod minus2modp compQ p) p
      let negX3 ← checkedSub p x3
      let y3 := addmod (mulmod (addmod compQ negX3 p) compR p) (mulmod negY1 compPPP p) p
      .ok ⟨x3, y3, zz3, zzz3⟩
    else if compR = 0 then ecZZDoubleAffine x2 y2
    else .ok ecZZPointAtInf

/-- From XYZZ coordinates to affine ones. -/
def ecZZSetAff (P : XYZZ ℕ) : Result (ℕ × ℕ) :=
  if ecZZIsInf P.zz P.zzz then .ok ecAffinePointAtInf else do
    let zzzInv ← pModInv P.zzz
    let zInv := mulmod P.zz zzzInv p
    let zzInv := mulmod zInv zInv p
    .ok (mulmod P.x zzInv p, mulmod P.y zzzInv p)

/-- Adds two affine points. -/
def ecAffAdd (x1 y1 x2 y2 : ℕ) : Result (ℕ × ℕ) :=
  if ecAffIsInf x1 y1 then .ok (x2, y2)
  else if ecAffIsInf x2 y2 then .ok (x1, y1)
  else do
    let P ← ecZZDaddAffine ⟨x1, y1, 1, 1⟩ x2 y2
    ecZZSetAff P

/-! ### The double-and-add loop -/

def computeBitpair (index scalarU scalarV : ℕ) : ℕ :=
  (((scalarV >>> index) &&& 1) <<< 1) + ((scalarU >>> index) &&& 1)

/-- The loop that looks for the first active pair of bits.  The argument is `index + 1`; the result
is the value of `index + 1` after the loop and the last pair of bits read. -/
def firstBitpair (scalarU scalarV : ℕ) : ℕ → ℕ × ℕ
  | 0 => (0, 0)
  | k + 1 =>
    let bitpair := computeBitpair k scalarU scalarV
    if bitpair ≠ 0 then (k, bitpair) else firstBitpair scalarU scalarV k

/-- The affine point that a pair of bits selects, out of `G`, `Q` and `H = G + Q`. -/
def selectPoint (QX QY HX HY bitpair : ℕ) : ℕ × ℕ :=
  if bitpair = 1 then (GX, GY) else if bitpair = 2 then (QX, QY) else (HX, HY)

/-- The main loop; the first argument is `index + 1`. -/
def mulmuladdLoop (QX QY HX HY scalarU scalarV : ℕ) : ℕ → XYZZ ℕ → Result (XYZZ ℕ)
  | 0, P => .ok P
  | k + 1, P => do
    let P ← ecZZDoubleZZ P
    let bitpair := computeBitpair k scalarU scalarV
    if bitpair = 0 then mulmuladdLoop QX QY HX HY scalarU scalarV k P else do
      let T := selectPoint QX QY HX HY bitpair
      let P ← ecZZDaddAffine P T.1 T.2
      mulmuladdLoop QX QY HX HY scalarU scalarV k P

/-- The abscissa of `scalarU G + scalarV Q`, or `0` for the point at infinity. -/
def ecZZMulmuladd (QX QY scalarU scalarV : ℕ) : Result ℕ :=
  if scalarU = 0 ∧ scalarV = 0 then .ok 0 else do
    let (HX, HY) ← ecAffAdd GX GY QX QY
    let (index, bitpair) := firstBitpair scalarU scalarV 256
    -- with no active pair of bits, `X` and `Y` keep their initial zeros
    let T := if bitpair = 0 then (0, 0) else selectPoint QX QY HX HY bitpair
    let P ← mulmuladdLoop QX QY HX HY scalarU scalarV index ⟨T.1, T.2, 1, 1⟩
    let zzInv ← pModInv P.zz
    .ok (mulmod P.x zzInv p)

/-! ### Verification -/

/-- `ecdsa_verify`. -/
def ecdsaVerify (messageHash r s : Word) (pubKey : Word × Word) : Result Bool :=
  if r.toNat = 0 ∨ r.toNat ≥ n ∨ s.toNat = 0 ∨ s.toNat ≥ n then .ok false
  else if !ecAffIsValidPubkey pubKey.1.toNat pubKey.2.toNat then .ok false
  else do
    let sInv ← nModInv s.toNat
    let scalarU := mulmod messageHash.toNat sInv n
    let scalarV := mulmod r.toNat sInv n
    let rX ← ecZZMulmuladd pubKey.1.toNat pubKey.2.toNat scalarU scalarV
    .ok (rX % n == r.toNat)

end Enclave.P256Verifier
