import Enclave.Curve.Jacobian
import Enclave.Evm.Precompile
import Enclave.Evm.Yul

/-!
# `SECP256R1.sol`

The library's functions, on natural numbers that hold `uint256` values.  The subtractions modulo `p`
of the assembly are all of one form, `subPd`.  A jacobian point is a triple of numbers, and nothing
here asks whether it lies on the curve.
-/

namespace Enclave.SECP256R1

open Curve

structure PassKey where
  pubKeyX : Word
  pubKeyY : Word
  deriving DecidableEq, Repr

abbrev JPoint := Jacobian ℕ

def GX : ℕ := 0x6B17D1F2E12C4247F8BCE6E563A440F277037D812DEB33A0F4A13945D898C296

def GY : ℕ := 0x4FE342E2FE1A7F9B8EE7EB4A7C0F9E162BCE33576B315ECECBB6406837BF51F5

/-- The field modulus, `PP` in the Solidity code and `pd` in the assembly. -/
def PP : ℕ := 0xFFFFFFFF00000001000000000000000000000000FFFFFFFFFFFFFFFFFFFFFFFF

/-- The order of the base point. -/
def NN : ℕ := 0xFFFFFFFF00000000FFFFFFFFFFFFFFFFBCE6FAADA7179E84F3B9CAC2FC632551

def A : ℕ := 0xFFFFFFFF00000001000000000000000000000000FFFFFFFFFFFFFFFFFFFFFFFC

def MOST_SIGNIFICANT : ℕ := 0xc000000000000000000000000000000000000000000000000000000000000000

/-! ### Arithmetic -/

/-- The subtractions of the assembly, `if lt(x, y) { x := add(pd, x) }` and then `sub(x, y)`. -/
def subPd (x y : ℕ) : ℕ := Yul.subMod PP x y

/-- A power through the precompile at address `5`.  The output, as long as the modulus, fills the
word that is read. -/
def modexp (base exp mod : ℕ) : Result ℕ :=
  let base := if base > mod then base % mod else base
  let input := abiEncode [.word 0x20, .word 0x20, .word 0x20, .word (BitVec.ofNat 256 base),
    .word (BitVec.ofNat 256 exp), .word (BitVec.ofNat 256 mod)]
  match Enclave.modexp input with
  | none => .error .empty
  | some ret => .ok (ofBytesBE (ret.take 0x20))

/-- The inverse modulo a prime, by Fermat's little theorem. -/
def primemod (value p : ℕ) : Result ℕ := modexp value (p - 2) p

/-! ### Points -/

/-- Adds two points in jacobian coordinates. -/
def jAdd (P Q : JPoint) : JPoint :=
  if P.z = 0 then Q
  else if Q.z = 0 then P
  else
    let z1z1 := mulmod P.z P.z PP
    let z2z2 := mulmod Q.z Q.z PP
    let u1 := mulmod P.x z2z2 PP
    let u2 := mulmod Q.x z1z1 PP
    let s1 := mulmod P.y (mulmod z2z2 Q.z PP) PP
    let s2 := mulmod Q.y (mulmod z1z1 P.z PP) PP
    let p3q3 := addmod P.z Q.z PP
    let h := subPd u2 u1
    let i := mulmod 0x02 h PP
    let i := mulmod i i PP
    let j := mulmod h i PP
    let rr := mulmod 0x02 (subPd s2 s1) PP
    let r1 := mulmod rr rr PP
    let v := mulmod u1 i PP
    let j2v := addmod j (mulmod 0x02 v PP) PP
    let r1 := subPd r1 j2v
    let s12j := mulmod (mulmod 0x02 s1 PP) j PP
    let r2 := mulmod rr (subPd v r1) PP
    let r2 := subPd r2 s12j
    let z1z1 := addmod z1z1 z2z2 PP
    let j2v := mulmod p3q3 p3q3 PP
    let r3 := mulmod (subPd j2v z1z1) h PP
    ⟨r1, r2, r3⟩

/-- Doubles a point in modified jacobian coordinates. -/
def modifiedJacobianDouble (P : JPoint) : JPoint :=
  let z2 := mulmod P.z P.z PP
  let az4 := mulmod A (mulmod z2 z2 PP) PP
  let y2 := mulmod P.y P.y PP
  let s := mulmod 0x04 (mulmod P.x y2 PP) PP
  let u := mulmod 0x08 (mulmod y2 y2 PP) PP
  let m := addmod (mulmod 0x03 (mulmod P.x P.x PP) PP) az4 PP
  let twos := mulmod 0x02 s PP
  let m2 := mulmod m m PP
  let x3 := subPd m2 twos
  let y3 := mulmod m (subPd s x3) PP
  let y3 := subPd y3 u
  let z3 := mulmod 0x02 (mulmod P.y P.z PP) PP
  ⟨x3, y3, z3⟩

/-- From jacobian coordinates to affine ones, with `(0, 0)` for the point at infinity. -/
def affineFromJacobian (P : JPoint) : Result (ℕ × ℕ) :=
  if P.z = 0 then .ok (0, 0) else do
    let zinv ← primemod P.z PP
    let zinvsq := mulmod zinv zinv PP
    .ok (mulmod P.x zinvsq PP, mulmod P.y (mulmod zinvsq zinv PP) PP)

/-! ### The windowed double scalar multiplication -/

/-- The table: `points[4 i + j]` is meant to be `i G + j Q`. -/
def preComputeJacobianPoints (passKey : PassKey) : Vector JPoint 16 :=
  let p1 : JPoint := ⟨passKey.pubKeyX.toNat, passKey.pubKeyY.toNat, 1⟩
  let p2 := modifiedJacobianDouble p1
  let p3 := jAdd p1 p2
  let p4 : JPoint := ⟨GX, GY, 1⟩
  let p8 := modifiedJacobianDouble p4
  let p12 := jAdd p4 p8
  #v[⟨0, 0, 0⟩, p1, p2, p3,
    p4, jAdd p4 p1, jAdd p4 p2, jAdd p4 p3,
    p8, jAdd p8 p1, jAdd p8 p2, jAdd p8 p3,
    p12, jAdd p12 p1, jAdd p12 p2, jAdd p12 p3]

/-- The place in the table that the two top bits of each scalar select. -/
def windowIndex (u1 u2 : ℕ) : ℕ :=
  ((u1 &&& MOST_SIGNIFICANT) >>> 252) ||| ((u2 &&& MOST_SIGNIFICANT) >>> 254)

/-- The loop, with `bits` iterations to go. -/
def shamirLoop (points : Vector JPoint 16) : ℕ → ℕ → ℕ → JPoint → Result JPoint
  | 0, _, _, P => .ok P
  | bits + 1, u1, u2, P => do
    let P := if P.z > 0 then modifiedJacobianDouble (modifiedJacobianDouble P) else P
    let index := windowIndex u1 u2
    let P ← if index > 0 then
        match points[index]? with
        | some Q => .ok (jAdd P Q)
        | none => .error (.panic 0x32)
      else .ok P
    shamirLoop points bits ((u1 <<< 2) % 2 ^ 256) ((u2 <<< 2) % 2 ^ 256) P

/-- Two bits of each scalar at a time. -/
def shamirMultJacobian (points : Vector JPoint 16) (u1 u2 : ℕ) : Result (ℕ × ℕ) := do
  let P ← shamirLoop points 128 u1 u2 ⟨0, 0, 0⟩
  affineFromJacobian P

/-! ### Verification -/

def verifyWithPrecompute (points : Vector JPoint 16) (r s e : Word) : Result Bool :=
  if r.toNat ≥ NN ∨ s.toNat ≥ NN then .ok false else do
    let w ← primemod s.toNat NN
    let u1 := mulmod e.toNat w NN
    let u2 := mulmod r.toNat w NN
    let (x, _) ← shamirMultJacobian points u1 u2
    .ok (x == r.toNat)

def verify (passKey : PassKey) (r s e : Word) : Result Bool :=
  if r.toNat ≥ NN ∨ s.toNat ≥ NN then .ok false
  else verifyWithPrecompute (preComputeJacobianPoints passKey) r s e

end Enclave.SECP256R1
