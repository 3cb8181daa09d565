import Enclave.Evm.Word

/-!
# `CustomFullMath`

The division of a 512-bit product by a word, a port of a library that was written for wrapping
arithmetic.  What stands in `assembly` blocks still wraps; since version 0.8 of the compiler, what
stands outside of them is checked.
-/

namespace Enclave.CustomFullMath

/-- One step of the Newton iteration, `inv *= 2 - denominator * inv`. -/
def newtonStep (denominator inv : Word) : Result Word := do
  let product ← Word.checkedMul denominator inv
  let correction ← Word.checkedSub 2 product
  Word.checkedMul inv correction

/-- The inverse of an odd `denominator`. -/
def invert (denominator : Word) : Result Word := do
  let triple ← Word.checkedMul 3 denominator
  let inv := triple ^^^ 2
  let inv ← newtonStep denominator inv
  let inv ← newtonStep denominator inv
  let inv ← newtonStep denominator inv
  let inv ← newtonStep denominator inv
  let inv ← newtonStep denominator inv
  newtonStep denominator inv

/-- The part of `mulDiv` for a product `[prod1 prod0]` that is longer than a word. -/
def divide512 (a b denominator prod0 prod1 : Word) : Result Word := do
  let remainder : Word := BitVec.ofNat 256 (mulmod a.toNat b.toNat denominator.toNat)
  let prod1 := prod1 - (if remainder > prod0 then 1 else 0)
  let prod0 := prod0 - remainder
  let negated ← Word.checkedAdd (~~~denominator) 1
  let twos := negated &&& denominator
  let denominator := denominator / twos
  let prod0 := prod0 / twos
  -- now `2 ** 256 / twos`
  let twos := (0 - twos) / twos + 1
  let shifted ← Word.checkedMul prod1 twos
  let prod0 := prod0 ||| shifted
  let inv ← invert denominator
  Word.checkedMul prod0 inv

/-- The high word of a product, from its residues modulo `2 ** 256` and `2 ** 256 - 1`. -/
def highWord (a b : Word) : Word :=
  let mm : Word := BitVec.ofNat 256 (mulmod a.toNat b.toNat (2 ^ 256 - 1))
  let prod0 := a * b
  mm - prod0 - (if mm < prod0 then 1 else 0)

/-- `mulDiv`. -/
def mulDiv (a b denominator : Word) : Result Word :=
  let prod0 := a * b
  let prod1 := highWord a b
  if prod1 = 0 then
    if denominator > 0 then .ok (prod0 / denominator) else .error .empty
  else if denominator > prod1 then divide512 a b denominator prod0 prod1
  else .error .empty

end Enclave.CustomFullMath
