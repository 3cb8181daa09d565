import Enclave.Evm.Word

/-!
# `Ownable`

The owner of a contract, as OpenZeppelin's `Ownable` keeps it.  The contracts that inherit from it
apply these functions to their own storage.
-/

namespace Enclave

/-- A storage with an owner. -/
class Ownable (S : Type) where
  owner : S → Address
  setOwner : S → Address → S

namespace Ownable

variable {S : Type} [Ownable S]

/-- The modifier `onlyOwner`. -/
def onlyOwner (sender : Address) (s : S) : Result Unit :=
  require (sender = owner s) "Ownable: caller is not the owner"

/-- `transferOwnership`. -/
def transferOwnership (sender newOwner : Address) (s : S) : Result S := do
  onlyOwner sender s
  require (newOwner ≠ 0) "Ownable: new owner is the zero address"
  .ok (setOwner s newOwner)

/-- `renounceOwnership`. -/
def renounceOwnership (sender : Address) (s : S) : Result S := do
  onlyOwner sender s
  .ok (setOwner s 0)

variable {sender newOwner : Address} {s s' : S}

theorem transferOwnership_eq_ok :
    transferOwnership sender newOwner s = .ok s' ↔
      sender = owner s ∧ newOwner ≠ 0 ∧ setOwner s newOwner = s' := by
  unfold transferOwnership onlyOwner
  simp only [bind_eq_ok, require_eq_ok, exists_const, Except.ok.injEq]

theorem renounceOwnership_eq_ok :
    renounceOwnership sender s = .ok s' ↔ sender = owner s ∧ setOwner s 0 = s' := by
  unfold renounceOwnership onlyOwner
  simp only [bind_eq_ok, require_eq_ok, exists_const, Except.ok.injEq]

end Ownable

end Enclave
