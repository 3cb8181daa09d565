import Mathlib.Data.ZMod.Basic

/-!
# Yul arithmetic and loops

Opcodes on natural numbers below `2^256`, as assembly uses them: sums, differences and products
wrap.  `add_lt_iff` says what the usual test for a carry means, and `subMod` is the usual way to
subtract residues, in which a sum that wraps is brought back by the difference after it.

`forLoop` is a `for` loop with fuel, `none` when the fuel runs out.  `forLoop_spec` is its rule of
total correctness: an invariant, and a measure that every iteration lowers.
-/

namespace Enclave.Yul

/-! ### Arithmetic -/

def add (x y : ℕ) : ℕ := (x + y) % 2 ^ 256

def sub (x y : ℕ) : ℕ := (x + (2 ^ 256 - y)) % 2 ^ 256

def mul (x y : ℕ) : ℕ := x * y % 2 ^ 256

/-- The upper half of the product of two words. -/
def mulHigh (x y : ℕ) : ℕ := x * y / 2 ^ 256

theorem sub_of_le {x y : ℕ} (h : y ≤ x) (hx : x < 2 ^ 256) : sub x y = x - y := by
  unfold sub
  omega

/-- `if lt(x, y) { x := add(x, m) }` and then `sub(x, y)`. -/
def subMod (m x y : ℕ) : ℕ :=
  let x := if x < y then add x m else x
  sub x y

section subMod

variable {m x y : ℕ}

theorem subMod_eq (hm : m ≤ 2 ^ 256) (hx : x < m) (hy : y < m) :
    subMod m x y = if x < y then x + m - y else x - y := by
  simp only [subMod, sub, add]
  split_ifs with h <;> omega

theorem subMod_lt (hm : m ≤ 2 ^ 256) (hx : x < m) (hy : y < m) : subMod m x y < m := by
  rw [subMod_eq hm hx hy]
  split_ifs <;> omega

theorem natCast_subMod (hm : m ≤ 2 ^ 256) (hx : x < m) (hy : y < m) :
    (subMod m x y : ZMod m) = x - y := by
  rw [subMod_eq hm hx hy]
  split_ifs with h
  · rw [Nat.cast_sub (by omega), Nat.cast_add, ZMod.natCast_self, add_zero]
  · rw [Nat.cast_sub (by omega)]

end subMod

theorem mulHigh_mul_add (x y : ℕ) : mulHigh x y * 2 ^ 256 + mul x y = x * y := by
  rw [mulHigh, mul, mul_comm, Nat.div_add_mod]

theorem mul_lt (x y : ℕ) : mul x y < 2 ^ 256 := Nat.mod_lt _ (by decide)

theorem mulHigh_lt {x y : ℕ} (hx : x < 2 ^ 256) (hy : y < 2 ^ 256) : mulHigh x y < 2 ^ 256 := by
  rw [mulHigh, Nat.div_lt_iff_lt_mul (by decide)]
  exact Nat.mul_lt_mul'' hx hy

/-- The sum is below an operand exactly when it has wrapped. -/
theorem add_lt_iff {x y : ℕ} (hx : x < 2 ^ 256) (hy : y < 2 ^ 256) :
    add x y < x ↔ 2 ^ 256 ≤ x + y := by
  unfold add
  omega

/-! ### Loops -/

variable {σ : Type*}

/-- `for {} cond {} { body }`. -/
def forLoop (cond : σ → Bool) (body : σ → Option σ) : ℕ → σ → Option σ
  | 0, _ => none
  | fuel + 1, s => if cond s then body s >>= forLoop cond body fuel else some s

/-- Every iteration keeps the invariant and lowers the measure: the loop ends, with the invariant
and without its condition. -/
theorem forLoop_spec {cond : σ → Bool} {body : σ → Option σ} {I : σ → Prop} (μ : σ → ℕ)
    (hstep : ∀ s, I s → cond s = true → ∃ s', body s = some s' ∧ I s' ∧ μ s' < μ s) :
    ∀ (fuel : ℕ) (s : σ), I s → μ s < fuel →
      ∃ t, forLoop cond body fuel s = some t ∧ I t ∧ cond t = false := by
  intro fuel
  induction fuel with
  | zero =>
    intro s _ hμ
    exact absurd hμ (Nat.not_lt_zero _)
  | succ fuel ih =>
    intro s hI hμ
    by_cases hcond : cond s = true
    · obtain ⟨s', hbody, hI', hlt⟩ := hstep s hI hcond
      obtain ⟨t, hloop, ht⟩ := ih s' hI' (by omega)
      refine ⟨t, ?_, ht⟩
      rw [forLoop, if_pos hcond, hbody]
      exact hloop
    · exact ⟨s, if_neg hcond, hI, Bool.not_eq_true _ ▸ hcond⟩

end Enclave.Yul
