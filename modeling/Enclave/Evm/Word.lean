import Enclave.Evm.Bytes
import Mathlib.Data.Nat.Bitwise

/-!
# EVM words, reverts and checked arithmetic

The fixed-width values of the EVM languages are bit vectors: `Word` is `uint256` and `bytes32`,
`Address` is `address` and `bytes20`, `Uint48` is `uint48`.  `Word.toBytes` is the big-endian form
that memory and calldata hold, and `Word.ofBytes` reads it back.

Code that can revert returns a `Result`, whose error says how it reverted: with a reason string
(`require`), with a panic code (`assert` and checked arithmetic), with bubbled-up data, or with no
data at all (the ABI decoder, the dispatcher).
-/

namespace Enclave

abbrev Word := BitVec 256
abbrev Address := BitVec 160
abbrev Uint48 := BitVec 48

/-! ### Big-endian form -/

/-- The 32 bytes of a word. -/
def Word.toBytes (w : Word) : Bytes := toBytesBE 32 w.toNat

/-- The word that a byte string spells. -/
def Word.ofBytes (bs : Bytes) : Word := BitVec.ofNat 256 (ofBytesBE bs)

@[simp] theorem Word.length_toBytes (w : Word) : w.toBytes.length = 32 := length_toBytesBE 32 _

theorem Word.toNat_lt_pow (w : Word) : w.toNat < 256 ^ 32 := w.isLt

theorem Word.toNat_zero : (0 : Word).toNat = 0 := rfl

theorem Word.toNat_one : (1 : Word).toNat = 1 := rfl

theorem Word.toNat_eq_zero {w : Word} : w.toNat = 0 ↔ w = 0 :=
  ⟨fun h => BitVec.eq_of_toNat_eq h, fun h => by rw [h, Word.toNat_zero]⟩

@[simp] theorem Word.ofBytes_toBytes (w : Word) : Word.ofBytes w.toBytes = w := by
  rw [Word.ofBytes, Word.toBytes, ofBytesBE_toBytesBE_of_lt w.toNat_lt_pow, BitVec.ofNat_toNat,
    BitVec.setWidth_eq]

theorem Word.toNat_ofBytes {bs : Bytes} (h : bs.length = 32) :
    (Word.ofBytes bs).toNat = ofBytesBE bs := by
  have hlt := ofBytesBE_lt bs
  rw [h] at hlt
  rw [Word.ofBytes, BitVec.toNat_ofNat]
  exact Nat.mod_eq_of_lt hlt

theorem Word.toBytes_ofBytes {bs : Bytes} (h : bs.length = 32) :
    (Word.ofBytes bs).toBytes = bs := by
  have hlt : ofBytesBE bs < 2 ^ 256 := by
    have hlt := ofBytesBE_lt bs
    rwa [h] at hlt
  rw [Word.toBytes, Word.ofBytes, BitVec.toNat_ofNat, Nat.mod_eq_of_lt hlt, ← h]
  exact toBytesBE_ofBytesBE bs

theorem Word.toBytes_injective : Function.Injective Word.toBytes :=
  Function.LeftInverse.injective Word.ofBytes_toBytes

/-- The 20 bytes of an address. -/
def Address.toBytes (a : Address) : Bytes := toBytesBE 20 a.toNat

@[simp] theorem Address.length_toBytes (a : Address) : a.toBytes.length = 20 :=
  length_toBytesBE 20 _

/-- A narrower value zero-extended to a word. -/
def toWord {k : ℕ} (v : BitVec k) : Word := v.setWidth 256

theorem toNat_toWord {k : ℕ} (hk : k ≤ 256) (v : BitVec k) : (toWord v).toNat = v.toNat := by
  rw [toWord, BitVec.toNat_setWidth]
  exact Nat.mod_eq_of_lt (lt_of_lt_of_le v.isLt (Nat.pow_le_pow_right (by norm_num) hk))

theorem toWord_inj {k : ℕ} (hk : k ≤ 256) {v w : BitVec k} (h : toWord v = toWord w) : v = w := by
  apply BitVec.eq_of_toNat_eq
  rw [← toNat_toWord hk v, h, toNat_toWord hk w]

/-! ### Reverts -/

/-- How a call reverts. -/
inductive Revert where
  /-- `require(c, msg)` or `revert(msg)`. -/
  | reason (msg : String)
  /-- `Panic(code)`: `0x01` for a failed `assert`, `0x11` for arithmetic overflow, `0x12` for a
  division by zero. -/
  | panic (code : ℕ)
  /-- The callee's revert data, passed on. -/
  | data (d : Bytes)
  /-- No data: an ABI decoding failure or a call that no function answers. -/
  | empty
  deriving DecidableEq, Repr

/-- The outcome of code that can revert. -/
abbrev Result (α : Type) := Except Revert α

instance {α : Type} [DecidableEq α] : DecidableEq (Result α) := fun x y =>
  match x, y with
  | .ok a, .ok b => decidable_of_iff (a = b) (by simp)
  | .error a, .error b => decidable_of_iff (a = b) (by simp)
  | .ok _, .error _ => isFalse (by simp)
  | .error _, .ok _ => isFalse (by simp)

/-- `require(c, msg)`. -/
def require (c : Prop) [Decidable c] (msg : String) : Result Unit :=
  if c then .ok () else .error (.reason msg)

theorem require_eq_ok {c : Prop} [Decidable c] {msg : String} {u : Unit} :
    require c msg = .ok u ↔ c := by
  unfold require
  split_ifs with h <;> simp [h]

@[simp] theorem require_true {c : Prop} [Decidable c] {msg : String} (h : c) :
    require c msg = .ok () := if_pos h

/-- `x - y` in checked mode. -/
def checkedSub (x y : ℕ) : Result ℕ := if y ≤ x then .ok (x - y) else .error (.panic 0x11)

theorem checkedSub_of_le {x y : ℕ} (h : y ≤ x) : checkedSub x y = .ok (x - y) := if_pos h

/-- `x + y` of words in checked mode. -/
def Word.checkedAdd (x y : Word) : Result Word :=
  if x.toNat + y.toNat < 2 ^ 256 then .ok (x + y) else .error (.panic 0x11)

/-- `x - y` of words in checked mode. -/
def Word.checkedSub (x y : Word) : Result Word :=
  if y.toNat ≤ x.toNat then .ok (x - y) else .error (.panic 0x11)

/-- `x * y` of words in checked mode. -/
def Word.checkedMul (x y : Word) : Result Word :=
  if x.toNat * y.toNat < 2 ^ 256 then .ok (x * y) else .error (.panic 0x11)

/-- `x ** n` in checked mode. -/
def Word.checkedPow (x : Word) (n : ℕ) : Result Word :=
  if x.toNat ^ n < 2 ^ 256 then .ok (BitVec.ofNat 256 (x.toNat ^ n)) else .error (.panic 0x11)

/-- `x / y` of words. -/
def Word.checkedDiv (x y : Word) : Result Word :=
  if y = 0 then .error (.panic 0x12) else .ok (x / y)

/-- A result that is a word is known by its value. -/
theorem Word.ok_eq_ok_iff {w z : Word} {m : ℕ} (hw : w.toNat = m) :
    (.ok w : Result Word) = .ok z ↔ z.toNat = m := by
  rw [Except.ok.injEq, ← hw]
  constructor
  · rintro rfl
    rfl
  · intro h
    exact (BitVec.eq_of_toNat_eq h).symm

theorem Word.checkedAdd_eq_ok {x y z : Word} :
    Word.checkedAdd x y = .ok z ↔ z.toNat = x.toNat + y.toNat := by
  have hlt := z.isLt
  unfold Word.checkedAdd
  split_ifs with h
  · apply Word.ok_eq_ok_iff
    rw [BitVec.toNat_add]
    exact Nat.mod_eq_of_lt h
  · exact ⟨nofun, fun heq => by omega⟩

theorem Word.checkedSub_eq_ok {x y z : Word} :
    Word.checkedSub x y = .ok z ↔ x.toNat = z.toNat + y.toNat := by
  unfold Word.checkedSub
  split_ifs with h
  · rw [Word.ok_eq_ok_iff (BitVec.toNat_sub_of_le h)]
    omega
  · exact ⟨nofun, fun heq => by omega⟩

theorem Word.checkedMul_eq_ok {x y z : Word} :
    Word.checkedMul x y = .ok z ↔ z.toNat = x.toNat * y.toNat := by
  have hlt := z.isLt
  unfold Word.checkedMul
  split_ifs with h
  · apply Word.ok_eq_ok_iff
    rw [BitVec.toNat_mul]
    exact Nat.mod_eq_of_lt h
  · exact ⟨nofun, fun heq => by omega⟩

theorem Word.checkedPow_eq_ok {x z : Word} {n : ℕ} :
    Word.checkedPow x n = .ok z ↔ z.toNat = x.toNat ^ n := by
  have hlt := z.isLt
  unfold Word.checkedPow
  split_ifs with h
  · apply Word.ok_eq_ok_iff
    rw [BitVec.toNat_ofNat]
    exact Nat.mod_eq_of_lt h
  · exact ⟨nofun, fun heq => by omega⟩

theorem Word.checkedDiv_eq_ok {x y z : Word} :
    Word.checkedDiv x y = .ok z ↔ y ≠ 0 ∧ z.toNat = x.toNat / y.toNat := by
  unfold Word.checkedDiv
  split_ifs with h
  · exact ⟨nofun, fun heq => absurd h heq.1⟩
  · rw [Word.ok_eq_ok_iff (BitVec.toNat_udiv (x := x) (y := y))]
    exact ⟨fun heq => ⟨h, heq⟩, fun heq => heq.2⟩

/-- `x++` in checked mode. -/
def checkedIncr (x : Word) : Result Word :=
  if x.toNat + 1 < 2 ^ 256 then .ok (x + 1) else .error (.panic 0x11)

theorem checkedIncr_eq_ok {x z : Word} : checkedIncr x = .ok z ↔ z.toNat = x.toNat + 1 :=
  Word.checkedAdd_eq_ok (x := x) (y := 1)

/-! ### Modular arithmetic -/

/-- The `ADDMOD` opcode: the sum is not truncated to a word, and the modulus zero gives zero. -/
def addmod (x y m : ℕ) : ℕ := if m = 0 then 0 else (x + y) % m

/-- The `MULMOD` opcode: the product is not truncated to a word, and the modulus zero gives
zero. -/
def mulmod (x y m : ℕ) : ℕ := if m = 0 then 0 else x * y % m

theorem addmod_lt {m : ℕ} (hm : 0 < m) (x y : ℕ) : addmod x y m < m := by
  rw [addmod, if_neg hm.ne']
  exact Nat.mod_lt _ hm

theorem mulmod_lt {m : ℕ} (hm : 0 < m) (x y : ℕ) : mulmod x y m < m := by
  rw [mulmod, if_neg hm.ne']
  exact Nat.mod_lt _ hm

/-! ### Peeling computations apart -/

/-- A computation that ran to its end ran its first part and then the rest. -/
theorem bind_eq_ok {α β : Type} {x : Result α} {f : α → Result β} {r : β} :
    (x >>= f) = .ok r ↔ ∃ a, x = .ok a ∧ f a = .ok r := by
  cases x with
  | error e => simp [bind, Except.bind]
  | ok a => simp [bind, Except.bind]

theorem map_eq_ok {α β : Type} {x : Result α} {f : α → β} {r : β} :
    x.map f = .ok r ↔ ∃ a, x = .ok a ∧ f a = r := by
  cases x with
  | error e => simp [Except.map]
  | ok a => simp [Except.map]

@[simp] theorem ok_bind {α β : Type} (a : α) (f : α → Result β) : (Except.ok a >>= f) = f a := rfl

@[simp] theorem error_bind {α β : Type} (e : Revert) (f : α → Result β) :
    ((Except.error e : Result α) >>= f) = .error e := rfl

end Enclave
