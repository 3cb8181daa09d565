import Enclave.Curve.Projective
import Enclave.Evm.Calldata
import Enclave.Evm.Yul

/-!
# `P256VERIFY.yul`

The deployed code, on natural numbers that hold words, with a `Bool` for a word that is a truth
value.  A loop of which the source does not bound the number of iterations takes fuel and gives
`none` when it runs out.  `burnGas` ends the execution, and the verbatim instruction `mul_high` is
the upper half of a product.  A triple of coordinates is a `Projective ℕ`.
-/

namespace Enclave.P256VERIFY

open Curve Yul

/-! ### Constants -/

def P : ℕ := 0xffffffff00000001000000000000000000000000ffffffffffffffffffffffff

def N : ℕ := 0xffffffff00000000ffffffffffffffffbce6faada7179e84f3b9cac2fc632551

def MONTGOMERY_ONE_P : ℕ :=
  26959946660873538059280334323183841250350249843923952699046031785985

def MONTGOMERY_A_P : ℕ :=
  115792089129476408780076832771566570560534619664239564663761773211729002495996

def MONTGOMERY_B_P : ℕ :=
  99593677540221402957765480916910020772520766868399186769503856397241456836063

def MONTGOMERY_PROJECTIVE_G_P : Projective ℕ :=
  ⟨0x18905F76A53755C679FB732B7762251075BA95FC5FEDB60179E730D418A9143C,
    0x8571FF1825885D85D2E88688DD21F3258B4AB8E4BA19E45CDDF25357CE95560A, MONTGOMERY_ONE_P⟩

def R2_MOD_P : ℕ := 134799733323198995502561713907086292154532538166959272814710328655875

def R2_MOD_N : ℕ :=
  46533765739406314298121036767150998762426774378559716911348521029833835802274

def P_PRIME : ℕ :=
  115792089210356248768974548684794254293921932838497980611635986753331132366849

def N_PRIME : ℕ :=
  43790243024438006127650828685417305984841428635278707415088219106730833919055

/-! ### Montgomery arithmetic -/

/-- The sum, and whether it has overflowed. -/
def overflowingAdd (augend addend : ℕ) : ℕ × Bool :=
  let sum := add augend addend
  (sum, decide (sum < augend))

def getHighestHalfOfMultiplication (multiplicand multiplier : ℕ) : ℕ :=
  mulHigh multiplicand multiplier

/-- `1 << 255`. -/
def mask : ℕ := 57896044618658097711785492504343953926634992332820282019728792003956564819968

/-- The new value of `b`, or `c`, in a pass of the loops that halve `u` and `v`. -/
def halve (modulus b : ℕ) : ℕ :=
  let modulusHasSpareBits := modulus &&& mask == 0
  if b &&& 1 = 0 then b >>> 1 else
    let (newB, carry) := overflowingAdd b modulus
    let b := newB >>> 1
    if !modulusHasSpareBits && carry then b ||| mask else b

/-- The loop that halves `u` while it is even, together with `b`; also the one for `v` and `c`. -/
def halveEven (fuel modulus u b : ℕ) : Option (ℕ × ℕ) :=
  forLoop (fun s => s.1 &&& 1 == 0) (fun s => some (s.1 >>> 1, halve modulus s.2)) fuel (u, b)

/-- The four variables of the outer loop. -/
structure Registers where
  u : ℕ
  v : ℕ
  b : ℕ
  c : ℕ
  deriving DecidableEq, Repr

/-- The body of the outer loop. -/
def euclideanStep (fuel modulus : ℕ) (s : Registers) : Option Registers := do
  let (u, b) ← halveEven fuel modulus s.u s.b
  let (v, c) ← halveEven fuel modulus s.v s.c
  if v > u then some ⟨u, sub v u, b, subMod modulus c b⟩
  else some ⟨sub u v, v, subMod modulus b c, c⟩

def binaryExtendedEuclideanAlgorithm (fuel base modulus r2 : ℕ) : Option ℕ := do
  let s ← forLoop (fun s => !(s.u == 1) && !(s.v == 1)) (euclideanStep fuel modulus) fuel
    ⟨base, modulus, r2, 0⟩
  if s.u = 1 then some s.b else some s.c

def REDC (TLo THi n nPrime : ℕ) : ℕ :=
  let m := mul TLo nPrime
  let (tHi, tHiOverflowed1) := overflowingAdd THi (getHighestHalfOfMultiplication m n)
  let (_, aLoOverflowed) := overflowingAdd TLo (mul m n)
  let (tHi, tHiOverflowed2) := if aLoOverflowed then overflowingAdd tHi 1 else (tHi, false)
  if tHiOverflowed1 || tHiOverflowed2 || !decide (tHi < n) then sub tHi n else tHi

def intoMontgomeryForm (a n nPrime r2 : ℕ) : ℕ :=
  let hi := getHighestHalfOfMultiplication a r2
  let lo := mul a r2
  REDC lo hi n nPrime

def outOfMontgomeryForm (m n nPrime : ℕ) : ℕ :=
  let hi := 0
  let lo := m
  REDC lo hi n nPrime

def montgomeryAdd (augend addend n : ℕ) : ℕ := addmod augend addend n

def montgomerySub (minuend subtrahend n : ℕ) : ℕ := montgomeryAdd minuend (sub n subtrahend) n

def montgomeryMul (multiplicand multiplier n nPrime : ℕ) : ℕ :=
  let hi := getHighestHalfOfMultiplication multiplicand multiplier
  let lo := mul multiplicand multiplier
  REDC lo hi n nPrime

def montgomeryModularInverse (fuel a n r2 : ℕ) : Option ℕ :=
  binaryExtendedEuclideanAlgorithm fuel a n r2

/-! ### Curve arithmetic -/

def fieldElementIsOnFieldOrder (felt : ℕ) : Bool := felt < P

def fieldElementIsOnSubgroupOrder (felt : ℕ) : Bool := felt < N

def affinePointCoordinatesAreOnFieldOrder (xp yp : ℕ) : Bool :=
  fieldElementIsOnFieldOrder xp && fieldElementIsOnFieldOrder yp

def affinePointIsInfinity (xp yp : ℕ) : Bool := xp ||| yp == 0

def affinePointIsOnCurve (xp yp : ℕ) : Bool :=
  let left := montgomeryMul yp yp P P_PRIME
  let right := montgomeryAdd (montgomeryMul xp (montgomeryMul xp xp P P_PRIME) P P_PRIME)
    (montgomeryAdd (montgomeryMul MONTGOMERY_A_P xp P P_PRIME) MONTGOMERY_B_P P) P
  left == right

def projectiveFromAffine (xp yp : ℕ) : Projective ℕ := ⟨xp, yp, MONTGOMERY_ONE_P⟩

def projectivePointIsInfinity (p : Projective ℕ) : Bool := p.z == 0

def projectiveDouble (p : Projective ℕ) : Projective ℕ :=
  let x_squared := montgomeryMul p.x p.x P P_PRIME
  let z_squared := montgomeryMul p.z p.z P P_PRIME
  let az_squared := montgomeryMul MONTGOMERY_A_P z_squared P P_PRIME
  let t := montgomeryAdd (montgomeryAdd x_squared (montgomeryAdd x_squared x_squared P) P)
    az_squared P
  let yz := montgomeryMul p.y p.z P P_PRIME
  let u := montgomeryAdd yz yz P
  let uxy := montgomeryMul u (montgomeryMul p.x p.y P P_PRIME) P P_PRIME
  let v := montgomeryAdd uxy uxy P
  let w := montgomerySub (montgomeryMul t t P P_PRIME) (montgomeryAdd v v P) P
  let xr := montgomeryMul u w P P_PRIME
  let uy := montgomeryMul u p.y P P_PRIME
  let uy_squared := montgomeryMul uy uy P P_PRIME
  let yr := montgomerySub (montgomeryMul t (montgomerySub v w P) P P_PRIME)
    (montgomeryAdd uy_squared uy_squared P) P
  let zr := montgomeryMul u (montgomeryMul u u P P_PRIME) P P_PRIME
  ⟨xr, yr, zr⟩

def projectiveAdd (p q : Projective ℕ) : Projective ℕ :=
  if projectivePointIsInfinity p then q
  else if projectivePointIsInfinity q then p
  else
    let t0 := montgomeryMul p.y q.z P P_PRIME
    let t1 := montgomeryMul q.y p.z P P_PRIME
    let t := montgomerySub t0 t1 P
    let u0 := montgomeryMul p.x q.z P P_PRIME
    let u1 := montgomeryMul q.x p.z P P_PRIME
    let u := montgomerySub u0 u1 P
    if t ||| u = 0 then projectiveDouble p
    else
      let u2 := montgomeryMul u u P P_PRIME
      let u3 := montgomeryMul u2 u P P_PRIME
      let v := montgomeryMul p.z q.z P P_PRIME
      let w := montgomerySub (montgomeryMul (montgomeryMul t t P P_PRIME) v P P_PRIME)
        (montgomeryMul u2 (montgomeryAdd u0 u1 P) P P_PRIME) P
      let xr := montgomeryMul u w P P_PRIME
      let yr := montgomerySub
        (montgomeryMul t (montgomerySub (montgomeryMul u0 u2 P P_PRIME) w P) P P_PRIME)
        (montgomeryMul t0 u3 P P_PRIME) P
      let zr := montgomeryMul u3 v P P_PRIME
      ⟨xr, yr, zr⟩

/-! ### The linear combination -/

/-- The bits of the two scalars at a position. -/
def compareBits (index t0 t1 : ℕ) : ℕ := add (mul ((t0 >>> index) &&& 1) 2) ((t1 >>> index) &&& 1)

/-- The state is `(index, ret)`; `index` is lowered after every comparison. -/
def findMostSignificantBitIndex (fuel t0 t1 : ℕ) : Option (ℕ × ℕ) := do
  let (index, ret) ← forLoop (fun s => s.2 == 0)
    (fun s => some (sub s.1 1, compareBits s.1 t0 t1)) fuel (255, 0)
  some (add index 1, ret)

/-- The `switch` on a pair of bits inside the loop. -/
def addSelected (q g h r : Projective ℕ) (ret : ℕ) : Projective ℕ :=
  if ret = 1 then projectiveAdd r q
  else if ret = 2 then projectiveAdd r g
  else if ret = 3 then projectiveAdd r h
  else r

/-- The loop over the bits below `index`. -/
def combinationLoop (q g h : Projective ℕ) (t0 t1 : ℕ) : ℕ → Projective ℕ → Projective ℕ
  | 0, r => r
  | index + 1, r =>
    combinationLoop q g h t0 t1 index
      (addSelected q g h (projectiveDouble r) (compareBits index t0 t1))

def shamirLinearCombination (fuel : ℕ) (q : Projective ℕ) (t0 t1 : ℕ) :
    Option (Projective ℕ) := do
  let g := MONTGOMERY_PROJECTIVE_G_P
  let h := projectiveAdd g q
  let (index, ret) ← findMostSignificantBitIndex fuel t0 t1
  let r : Projective ℕ := if ret = 1 then q else if ret = 2 then g else if ret = 3 then h
    else ⟨0, 0, 0⟩
  some (combinationLoop q g h t0 t1 index r)

/-! ### The code -/

/-- How the execution ends: `burnGas()`, or `return(0, 32)` with the word at memory address `0`. -/
inductive Halt where
  | burnGas
  | word (w : Word)
  deriving DecidableEq, Repr

/-- The rest of the code, with the arguments validated and the key in Montgomery form. -/
def verifyPoint (fuel hash r s : ℕ) (q : Projective ℕ) : Option Halt := do
  let hash := intoMontgomeryForm hash N N_PRIME R2_MOD_N
  let rTmp := r
  let r := intoMontgomeryForm r N N_PRIME R2_MOD_N
  let s := intoMontgomeryForm s N N_PRIME R2_MOD_N
  let s1 ← montgomeryModularInverse fuel s N R2_MOD_N
  let t0 := outOfMontgomeryForm (montgomeryMul hash s1 N N_PRIME) N N_PRIME
  let t1 := outOfMontgomeryForm (montgomeryMul r s1 N N_PRIME) N N_PRIME
  let p ← shamirLinearCombination fuel q t0 t1
  if p.z = 0 then some (.word 0) else
    let z_inv ← montgomeryModularInverse fuel p.z P R2_MOD_P
    let xr := montgomeryMul p.x z_inv P P_PRIME
    let xr := outOfMontgomeryForm xr P P_PRIME
    let xr := xr % N
    some (.word (if xr = rTmp then 1 else 0))

/-- The code of the deployed object. -/
def run (fuel : ℕ) (calldata : Bytes) : Option Halt :=
  let hash := (calldataload calldata 0).toNat
  let r := (calldataload calldata 32).toNat
  let s := (calldataload calldata 64).toNat
  let x := (calldataload calldata 96).toNat
  let y := (calldataload calldata 128).toNat
  if (r == 0 || !fieldElementIsOnSubgroupOrder r) || (s == 0 || !fieldElementIsOnSubgroupOrder s)
  then some .burnGas
  else if affinePointIsInfinity x y || !affinePointCoordinatesAreOnFieldOrder x y
  then some .burnGas
  else
    let x := intoMontgomeryForm x P P_PRIME R2_MOD_P
    let y := intoMontgomeryForm y P P_PRIME R2_MOD_P
    if !affinePointIsOnCurve x y then some .burnGas
    else verifyPoint fuel hash r s (projectiveFromAffine x y)

end Enclave.P256VERIFY
