import Enclave.Paymaster.ERC20

/-!
# Allowances and balances of tokens

What the functions of an OpenZeppelin `ERC20` leave alone, and what a `transferFrom` takes.
-/

namespace Enclave

/-! ### Allowances -/

namespace ERC20

variable {t t' : ERC20} {owner spender sender recipient caller a b : Address} {amount : Word}

/-- An approval writes one allowance. -/
theorem allowance_of_approve (h : t.approve owner spender amount = .ok t')
    (hne : a ≠ owner ∨ b ≠ spender) : t'.allowances a b = t.allowances a b := by
  unfold approve at h
  simp only [bind_eq_ok] at h
  obtain ⟨_, -, _, -, hset⟩ := h
  obtain rfl := Except.ok.inj hset
  show Function.update t.allowances owner (Function.update (t.allowances owner) spender amount) a b
    = t.allowances a b
  by_cases ha : a = owner
  · have hb : b ≠ spender := hne.resolve_left (not_not.mpr ha)
    rw [ha, Function.update_self, Function.update_of_ne hb]
  · rw [Function.update_of_ne ha]

theorem allowance_of_spendAllowance (h : t.spendAllowance owner spender amount = .ok t')
    (hne : a ≠ owner ∨ b ≠ spender) : t'.allowances a b = t.allowances a b := by
  unfold spendAllowance at h
  simp only at h
  split_ifs at h
  · rw [Except.ok.inj h]
  · obtain ⟨_, -, happrove⟩ := bind_eq_ok.mp h
    exact allowance_of_approve happrove hne

theorem balances_of_spendAllowance
    (h : t.spendAllowance owner spender amount = .ok t') : t'.balances = t.balances := by
  unfold spendAllowance at h
  simp only at h
  split_ifs at h
  · rw [Except.ok.inj h]
  · unfold approve at h
    simp only [bind_eq_ok] at h
    obtain ⟨_, -, _, -, _, -, hset⟩ := h
    rw [← Except.ok.inj hset]

theorem allowances_of_transferBalance (h : t.transferBalance sender recipient amount = .ok t') :
    t'.allowances = t.allowances := by
  unfold transferBalance at h
  simp only [bind_eq_ok] at h
  obtain ⟨_, -, _, -, _, -, hset⟩ := h
  rw [← Except.ok.inj hset]

theorem approve_current (howner : owner ≠ 0) (hspender : spender ≠ 0) :
    t.approve owner spender (t.allowances owner spender) = .ok t := by
  unfold approve
  rw [require_true howner, ok_bind, require_true hspender, ok_bind, Function.update_eq_self,
    Function.update_eq_self]

theorem transferBalance_zero (hsender : sender ≠ 0) (hrecipient : recipient ≠ 0) :
    t.transferBalance sender recipient 0 = .ok t := by
  have hfunds : (0 : Word).toNat ≤ (t.balances sender).toNat := Nat.zero_le _
  unfold transferBalance
  rw [require_true hsender, ok_bind, require_true hrecipient, ok_bind, require_true hfunds, ok_bind]
  simp

/-- Without an allowance to itself, an owner that moves its own tokens by `transferFrom` moves
nothing or reverts. -/
theorem transferFrom_self_iff (hnone : t.allowances owner owner = 0) {r : Bool × ERC20} :
    t.transferFrom owner owner recipient amount = .ok r ↔
      (amount = 0 ∧ owner ≠ 0 ∧ recipient ≠ 0) ∧ r = (true, t) := by
  have hcurrent : (t.allowances owner owner).toNat ≠ 2 ^ 256 - 1 := by
    rw [hnone]
    decide
  have hzero : owner ≠ 0 → recipient ≠ 0 →
      t.transferFrom owner owner recipient 0 = .ok (true, t) := by
    intro howner hrecipient
    have hspend : t.spendAllowance owner owner 0 = .ok t := by
      have happrove := approve_current (t := t) howner howner
      rw [hnone] at happrove
      unfold spendAllowance
      simp only [if_neg hcurrent]
      rw [hnone, require_true (Nat.le_refl _), ok_bind]
      exact happrove
    unfold transferFrom
    rw [hspend, ok_bind, transferBalance_zero howner hrecipient, ok_bind]
  constructor
  · intro h
    have hsteps := h
    unfold transferFrom spendAllowance approve transferBalance at hsteps
    simp only [if_neg hcurrent, bind_eq_ok, require_eq_ok] at hsteps
    obtain ⟨_, ⟨_, hle, _, howner, -⟩, _, ⟨_, -, _, hrecipient, -⟩, -⟩ := hsteps
    rw [hnone] at hle
    obtain rfl : amount = 0 := BitVec.eq_of_toNat_eq (Nat.le_zero.mp hle)
    rw [hzero howner hrecipient] at h
    exact ⟨⟨rfl, howner, hrecipient⟩, (Except.ok.inj h).symm⟩
  · rintro ⟨⟨rfl, howner, hrecipient⟩, rfl⟩
    exact hzero howner hrecipient

end ERC20

/-! ### Movements -/

/-- `transferFrom` takes what it moves from the sender's balance. -/
structure Moves {τ : Type} (tokens : TokenContracts τ) (balanceOf : τ → Address → Word)
    (token : Address) : Prop where
  moved : ∀ {caller sender recipient : Address} {amount : Word} {ledger ledger' : τ},
    sender ≠ recipient →
    tokens.transferFrom token caller sender recipient amount ledger = .ok (true, ledger') →
    (balanceOf ledger' sender).toNat + amount.toNat = (balanceOf ledger sender).toNat

/-- OpenZeppelin tokens move what they are asked to move. -/
theorem moves_openZeppelin (token : Address) :
    Moves openZeppelin (fun ledger a => (ledger token).balances a) token := by
  refine ⟨fun {caller sender recipient amount ledger ledger'} hne h => ?_⟩
  obtain ⟨⟨done, t⟩, htransfer, h⟩ := bind_eq_ok.mp h
  obtain ⟨-, rfl⟩ := Prod.mk.inj (Except.ok.inj h)
  unfold ERC20.transferFrom ERC20.transferBalance at htransfer
  simp only [bind_eq_ok, require_eq_ok] at htransfer
  obtain ⟨spent, hspend, moved, ⟨_, -, _, -, _, hfunds, hset⟩, hpair⟩ := htransfer
  obtain ⟨-, rfl⟩ := Prod.mk.inj (Except.ok.inj hpair)
  simp only [← Except.ok.inj hset, Function.update_of_ne hne, Function.update_self]
  rw [ERC20.balances_of_spendAllowance hspend] at hfunds ⊢
  rw [BitVec.toNat_sub_of_le hfunds]
  omega

end Enclave
