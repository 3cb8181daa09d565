import Mathlib.Algebra.GroupWithZero.Nat

/-!
# Regrouping bytes into six-bit digits

The digits of a base-64 encoding, before any alphabet is chosen: `sextets` cuts a byte string into
six-bit digits, three bytes at a time and with zero bits after a last group of one or two bytes.
`octets` goes back and is a left inverse (`octets_sextets`), and `length_sextets` counts the digits.
-/

namespace Enclave.Codec

/-- There are digits. -/
instance neZero_digits : NeZero 64 := ⟨by decide⟩

/-- The digit at bit `k` of a number. -/
def sextetAt (v k : ℕ) : Fin 64 := ⟨v / 2 ^ k % 64, Nat.mod_lt _ (by decide)⟩

/-- The number whose bytes are `x`, `y`, `z`, the first one highest. -/
def triple (x y z : UInt8) : ℕ := x.toNat * 65536 + y.toNat * 256 + z.toNat

/-- The six-bit digits of a byte string. -/
def sextets : List UInt8 → List (Fin 64)
  | [] => []
  | [x] => [sextetAt (triple x 0 0) 18, sextetAt (triple x 0 0) 12]
  | [x, y] => [sextetAt (triple x y 0) 18, sextetAt (triple x y 0) 12, sextetAt (triple x y 0) 6]
  | x :: y :: z :: rest =>
    sextetAt (triple x y z) 18 :: sextetAt (triple x y z) 12 :: sextetAt (triple x y z) 6 ::
      sextetAt (triple x y z) 0 :: sextets rest

/-- The number with the given four digits. -/
def quadruple (i j k l : Fin 64) : ℕ := i.val * 262144 + j.val * 4096 + k.val * 64 + l.val

/-- The byte at bit `k` of a number. -/
def octetAt (v k : ℕ) : UInt8 := UInt8.ofNat (v / 2 ^ k % 256)

/-- The bytes that a sequence of digits stands for; one digit alone stands for nothing. -/
def octets : List (Fin 64) → Option (List UInt8)
  | [] => some []
  | [_] => none
  | [i, j] => some [octetAt (quadruple i j 0 0) 16]
  | [i, j, k] => some [octetAt (quadruple i j k 0) 16, octetAt (quadruple i j k 0) 8]
  | i :: j :: k :: l :: rest =>
    (octets rest).map fun bs =>
      octetAt (quadruple i j k l) 16 :: octetAt (quadruple i j k l) 8 ::
        octetAt (quadruple i j k l) 0 :: bs

/-! ### One group -/

theorem triple_lt (x y z : UInt8) : triple x y z < 16777216 := by
  have hx := x.toNat_lt
  have hy := y.toNat_lt
  have hz := z.toNat_lt
  unfold triple
  omega

/-- Four digits of a 24-bit number put it together again. -/
theorem quadruple_sextetAt {v : ℕ} (hv : v < 16777216) :
    quadruple (sextetAt v 18) (sextetAt v 12) (sextetAt v 6) (sextetAt v 0) = v := by
  unfold quadruple sextetAt
  simp only [Nat.reducePow]
  omega

theorem octetAt_triple (x y z : UInt8) :
    octetAt (triple x y z) 16 = x ∧ octetAt (triple x y z) 8 = y ∧
      octetAt (triple x y z) 0 = z := by
  have hx := x.toNat_lt
  have hy := y.toNat_lt
  have hz := z.toNat_lt
  have h16 : triple x y z / 2 ^ 16 % 256 = x.toNat := by
    unfold triple
    simp only [Nat.reducePow]
    omega
  have h8 : triple x y z / 2 ^ 8 % 256 = y.toNat := by
    unfold triple
    simp only [Nat.reducePow]
    omega
  have h0 : triple x y z / 2 ^ 0 % 256 = z.toNat := by
    unfold triple
    simp only [Nat.reducePow]
    omega
  unfold octetAt
  rw [h16, h8, h0]
  exact ⟨UInt8.ofNat_toNat, UInt8.ofNat_toNat, UInt8.ofNat_toNat⟩

/-- The digits below the last byte of a group are zero. -/
theorem sextetAt_triple_zero (x y : UInt8) :
    sextetAt (triple x y 0) 0 = 0 ∧ sextetAt (triple x 0 0) 6 = 0 := by
  constructor
  · apply Fin.ext
    show (x.toNat * 65536 + y.toNat * 256 + 0) / 2 ^ 0 % 64 = 0
    omega
  · apply Fin.ext
    show (x.toNat * 65536 + 0 * 256 + 0) / 2 ^ 6 % 64 = 0
    omega

/-! ### Whole strings -/

/-- The digits of a byte string stand for it. -/
theorem octets_sextets (bs : List UInt8) : octets (sextets bs) = some bs := by
  -- the recursion takes three bytes at a time
  induction bs using sextets.induct with
  | case1 => rfl
  | case2 x =>
    have hquad := quadruple_sextetAt (triple_lt x 0 0)
    rw [(sextetAt_triple_zero x 0).1, (sextetAt_triple_zero x 0).2] at hquad
    simp only [sextets, octets, hquad, (octetAt_triple x 0 0).1]
  | case3 x y =>
    have hquad := quadruple_sextetAt (triple_lt x y 0)
    rw [(sextetAt_triple_zero x y).1] at hquad
    obtain ⟨hx, hy, -⟩ := octetAt_triple x y 0
    simp only [sextets, octets, hquad, hx, hy]
  | case4 x y z rest ih =>
    obtain ⟨hx, hy, hz⟩ := octetAt_triple x y z
    simp only [sextets, octets, quadruple_sextetAt (triple_lt x y z), ih, Option.map_some, hx, hy,
      hz]

/-- Four digits for three bytes, rounded up. -/
theorem length_sextets (bs : List UInt8) : (sextets bs).length = (4 * bs.length + 2) / 3 := by
  induction bs using sextets.induct with
  | case1 => rfl
  | case2 x => simp only [sextets, List.length_cons, List.length_nil, Nat.reduceDiv, Nat.reduceAdd,
      Nat.reduceMul]
  | case3 x y => simp only [sextets, List.length_cons, List.length_nil, Nat.reduceDiv,
      Nat.reduceAdd, Nat.reduceMul]
  | case4 x y z rest ih =>
    simp only [sextets, List.length_cons, ih]
    omega

end Enclave.Codec
