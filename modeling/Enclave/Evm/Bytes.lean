import Mathlib.Data.List.Basic
import Mathlib.Algebra.Order.Ring.Nat
import Mathlib.Tactic.Ring
import Mathlib.Tactic.Positivity

/-!
# Byte strings and big-endian integers

Byte strings are `List UInt8`.  `toBytesBE k v` writes the low `8 k` bits of `v` in `k` bytes, most
significant byte first, and `ofBytesBE` reads a byte string back (`ofBytesBE_toBytesBE`).

`slice bs i j` is `bs[i:j]`, which exists only when `i ≤ j ≤ bs.length`: the guard that the EVM
languages put on slices of calldata.
-/

namespace Enclave

/-- A byte string. -/
abbrev Bytes := List UInt8

/-! ### Big-endian integers -/

/-- The low `8 k` bits of `v` as `k` bytes, most significant byte first. -/
def toBytesBE : ℕ → ℕ → Bytes
  | 0, _ => []
  | k + 1, v => UInt8.ofNat (v / 256 ^ k) :: toBytesBE k v

/-- The number that a byte string spells in base `256`, most significant byte first. -/
def ofBytesBE : Bytes → ℕ
  | [] => 0
  | b :: bs => b.toNat * 256 ^ bs.length + ofBytesBE bs

@[simp] theorem length_toBytesBE (k v : ℕ) : (toBytesBE k v).length = k := by
  induction k with
  | zero => rfl
  | succ k ih => rw [toBytesBE, List.length_cons, ih]

/-- The leading bytes can be dropped. -/
theorem drop_toBytesBE (j k v : ℕ) : (toBytesBE (j + k) v).drop j = toBytesBE k v := by
  induction j with
  | zero => rw [Nat.zero_add, List.drop_zero]
  | succ j ih => rw [Nat.add_right_comm, toBytesBE, List.drop_succ_cons, ih]

theorem ofBytesBE_lt (bs : Bytes) : ofBytesBE bs < 256 ^ bs.length := by
  induction bs with
  | nil => simp [ofBytesBE]
  | cons b bs ih =>
    have hb : b.toNat < 256 := b.toNat_lt
    calc b.toNat * 256 ^ bs.length + ofBytesBE bs
        < b.toNat * 256 ^ bs.length + 256 ^ bs.length := Nat.add_lt_add_left ih _
      _ = (b.toNat + 1) * 256 ^ bs.length := by ring
      _ ≤ 256 * 256 ^ bs.length := Nat.mul_le_mul_right _ hb
      _ = 256 ^ (b :: bs).length := by rw [List.length_cons, pow_succ, mul_comm]

/-- Reading back what was written leaves the value modulo `256 ^ k`. -/
theorem ofBytesBE_toBytesBE (k v : ℕ) : ofBytesBE (toBytesBE k v) = v % 256 ^ k := by
  induction k with
  | zero => simp [toBytesBE, ofBytesBE, Nat.mod_one]
  | succ k ih =>
    have hsplit : v % 256 ^ (k + 1) = v % 256 ^ k + 256 ^ k * (v / 256 ^ k % 256) := by
      rw [pow_succ, Nat.mod_mul]
    rw [toBytesBE, ofBytesBE, ih, length_toBytesBE, UInt8.toNat_ofNat', hsplit, Nat.add_comm,
      Nat.mul_comm]

theorem ofBytesBE_toBytesBE_of_lt {k v : ℕ} (hv : v < 256 ^ k) :
    ofBytesBE (toBytesBE k v) = v := by
  rw [ofBytesBE_toBytesBE, Nat.mod_eq_of_lt hv]

/-- A number below 256 is its last byte. -/
theorem toBytesBE_of_lt {v : ℕ} (hv : v < 256) (k : ℕ) :
    toBytesBE (k + 1) v = List.replicate k 0 ++ [UInt8.ofNat v] := by
  induction k with
  | zero => simp [toBytesBE]
  | succ k ih =>
    have hzero : v / 256 ^ (k + 1) = 0 := by
      apply Nat.div_eq_of_lt
      calc v < 256 ^ 1 := by omega
        _ ≤ 256 ^ (k + 1) := Nat.pow_le_pow_right (by decide) (by omega)
    rw [toBytesBE, ih, hzero, List.replicate_succ]
    rfl

theorem toBytesBE_inj {k v w : ℕ} (hv : v < 256 ^ k) (hw : w < 256 ^ k)
    (h : toBytesBE k v = toBytesBE k w) : v = w := by
  rw [← ofBytesBE_toBytesBE_of_lt hv, h, ofBytesBE_toBytesBE_of_lt hw]

/-- Byte strings of one length spell different numbers. -/
theorem ofBytesBE_inj {as bs : Bytes} (hlen : as.length = bs.length)
    (h : ofBytesBE as = ofBytesBE bs) : as = bs := by
  induction as generalizing bs with
  | nil => exact (List.eq_nil_of_length_eq_zero hlen.symm).symm
  | cons a as ih =>
    cases bs with
    | nil => cases hlen
    | cons b bs =>
      have hlen' : as.length = bs.length := Nat.succ.inj hlen
      have has := ofBytesBE_lt as
      have hbs := ofBytesBE_lt bs
      rw [ofBytesBE, ofBytesBE, hlen'] at h
      rw [hlen'] at has
      have hhead : a.toNat = b.toNat := by
        have hdiv := congrArg (· / 256 ^ bs.length) h
        simpa only [Nat.mul_add_div (by positivity : 256 ^ bs.length > 0), Nat.mul_comm,
          Nat.div_eq_of_lt has, Nat.div_eq_of_lt hbs, Nat.add_zero] using hdiv
      rw [hhead] at h
      rw [UInt8.toNat_inj.mp hhead, ih hlen' (Nat.add_left_cancel h)]

/-- Writing back what was read gives the byte string again. -/
theorem toBytesBE_ofBytesBE (bs : Bytes) : toBytesBE bs.length (ofBytesBE bs) = bs :=
  ofBytesBE_inj (length_toBytesBE _ _) (ofBytesBE_toBytesBE_of_lt (ofBytesBE_lt bs))

/-! ### Slices -/

/-- `bs[i:j]`, or nothing when the bounds are out of range. -/
def slice (bs : Bytes) (i j : ℕ) : Option Bytes :=
  if i ≤ j ∧ j ≤ bs.length then some ((bs.drop i).take (j - i)) else none

theorem slice_eq_some {bs cs : Bytes} {i j : ℕ} (h : slice bs i j = some cs) :
    i ≤ j ∧ j ≤ bs.length ∧ cs = (bs.drop i).take (j - i) := by
  unfold slice at h
  split_ifs at h with hij
  exact ⟨hij.1, hij.2, (Option.some.inj h).symm⟩

/-- A slice that exists has the length that its bounds say. -/
theorem length_of_slice {bs cs : Bytes} {i j : ℕ} (h : slice bs i j = some cs) :
    cs.length = j - i := by
  obtain ⟨hij, hj, rfl⟩ := slice_eq_some h
  rw [List.length_take, List.length_drop]
  omega

/-- The slice that starts where `as` ends and is as long as `bs`. -/
theorem slice_append {as bs cs : Bytes} {i j : ℕ} (hi : as.length = i)
    (hj : as.length + bs.length = j) : slice (as ++ (bs ++ cs)) i j = some bs := by
  subst hi hj
  unfold slice
  rw [if_pos ⟨by omega, by simp only [List.length_append]; omega⟩, List.drop_left,
    Nat.add_sub_cancel_left, List.take_left]

end Enclave
