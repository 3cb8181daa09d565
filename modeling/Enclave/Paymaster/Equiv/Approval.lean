import Enclave.Paymaster.Verifying
import Mathlib.Data.Set.Function

/-!
# What an approval binds

An approval is what the signer of a verifying paymaster signs: the nine fields of an operation, the
chain, the paymaster, the sender's current nonce and the window of validity.  Without a collision
among the strings that are hashed, equal hashes come from equal approvals (`covers_of_hash`).
-/

namespace Enclave

/-! ### The packed operation -/

/-- The two strings of an operation that are hashed by themselves. -/
def UserOperation.preimages (op : UserOperation) : Set Bytes := {op.initCode, op.callData}

theorem length_pack (op : UserOperation) : op.pack.length = 288 :=
  length_abiEncode_of_words [toWord op.sender, op.nonce, keccak256 op.initCode,
    keccak256 op.callData, op.callGasLimit, op.verificationGasLimit, op.preVerificationGas,
    op.maxFeePerGas, op.maxPriorityFeePerGas]

theorem sameKind_pack (op op' : UserOperation) :
    AbiValue.SameKind (.bytes op.pack) (.bytes op'.pack) := by
  constructor
  · rw [length_pack]
    decide
  · rw [length_pack]
    decide

/-- Operations with equal packings agree. -/
theorem agree_of_pack {op op' : UserOperation}
    (hcoll : Set.InjOn keccak256 (op.preimages ∪ op'.preimages)) (h : op.pack = op'.pack) :
    op.Agree op' := by
  have hwords := abiEncode_injective (by repeat' constructor) h
  simp only [addressValue, List.cons.injEq, AbiValue.word.injEq, and_true] at hwords
  obtain ⟨hsender, hnonce, hinit, hcall, hcg, hvg, hpg, hmf, hmp⟩ := hwords
  exact ⟨toWord_inj (by decide) hsender, hnonce,
    hcoll (Or.inl (Or.inl rfl)) (Or.inr (Or.inl rfl)) hinit,
    hcoll (Or.inl (Or.inr rfl)) (Or.inr (Or.inr rfl)) hcall, hcg, hvg, hpg, hmf, hmp⟩

namespace Paymaster

/-! ### Approvals -/

/-- What the signer approves. -/
structure Approval where
  userOp : UserOperation
  chainid : Word
  paymaster : Address
  senderNonce : Word
  validUntil : Uint48
  validAfter : Uint48

namespace Approval

/-- The preimage of the hash. -/
def message (a : Approval) : Bytes :=
  abiEncode [.bytes a.userOp.pack, .word a.chainid, addressValue a.paymaster, .word a.senderNonce,
    uint48Value a.validUntil, uint48Value a.validAfter]

def hash (a : Approval) : Word := keccak256 a.message

/-- The strings that are hashed for an approval, up to the digest that is signed. -/
def preimages (a : Approval) : Set Bytes :=
  a.userOp.preimages ∪ {a.message, ECDSA.ethSignedMessage a.hash}

/-- The two approvals are for the same operation, in the same place, nonce and window. -/
structure Covers (a b : Approval) : Prop where
  userOp : a.userOp.Agree b.userOp
  chainid : a.chainid = b.chainid
  paymaster : a.paymaster = b.paymaster
  senderNonce : a.senderNonce = b.senderNonce
  validUntil : a.validUntil = b.validUntil
  validAfter : a.validAfter = b.validAfter

/-- Approvals with one hash cover each other. -/
theorem covers_of_hash {a b : Approval} (hcoll : Set.InjOn keccak256 (a.preimages ∪ b.preimages))
    (h : a.hash = b.hash) : a.Covers b := by
  have hmessage : a.message = b.message :=
    hcoll (Or.inl (Or.inr (Or.inl rfl))) (Or.inr (Or.inr (Or.inl rfl))) h
  have hvalues := abiEncode_injective
    (.cons (sameKind_pack a.userOp b.userOp) (by repeat' constructor)) hmessage
  simp only [addressValue, uint48Value, List.cons.injEq, AbiValue.word.injEq,
    AbiValue.bytes.injEq, and_true] at hvalues
  obtain ⟨hpack, hchain, hthis, hnonce, huntil, hafter⟩ := hvalues
  refine ⟨agree_of_pack ?_ hpack, hchain, toWord_inj (by decide) hthis, hnonce,
    toWord_inj (by decide) huntil, toWord_inj (by decide) hafter⟩
  exact hcoll.mono (Set.union_subset_union Set.subset_union_left Set.subset_union_left)

/-- One digest is that of one hash. -/
theorem hash_of_digest {a b : Approval}
    (hcoll : Set.InjOn keccak256 (a.preimages ∪ b.preimages))
    (h : ECDSA.toEthSignedMessageHash a.hash = ECDSA.toEthSignedMessageHash b.hash) :
    a.hash = b.hash := by
  have hmessage := hcoll (Or.inl (Or.inr (Or.inr rfl))) (Or.inr (Or.inr (Or.inr rfl))) h
  exact ECDSA.ethSignedMessage_injective hmessage

end Approval

/-- The approval that a validation looks for. -/
def approvalOf (site : Site) (senderNonce : Nonces) (userOp : UserOperation)
    (validUntil validAfter : Uint48) : Approval :=
  ⟨userOp, site.chainid, site.this, senderNonce userOp.sender, validUntil, validAfter⟩

theorem getHash_eq (site : Site) (senderNonce : Nonces) (userOp : UserOperation)
    (validUntil validAfter : Uint48) :
    getHash site senderNonce userOp validUntil validAfter
      = (approvalOf site senderNonce userOp validUntil validAfter).hash := rfl

end Paymaster

/-! ### The answer to the entry point -/

/-- The fields above the low 160 bits do not reach into them. -/
theorem setWidth_shiftLeft {k : ℕ} (hk : 160 ≤ k) (w : Word) :
    (w <<< k).setWidth 160 = 0#160 := by
  apply BitVec.eq_of_getLsbD_eq
  intro i hi
  rw [BitVec.getLsbD_setWidth, BitVec.getLsbD_shiftLeft]
  have hlt : i < k := by omega
  simp [hlt]

/-- The low bits of the answer tell whether the signature failed. -/
theorem authorizer_packValidationData (sigFailed : Bool) (validUntil validAfter : Uint48) :
    authorizer (packValidationData sigFailed validUntil validAfter)
      = if sigFailed then 1 else 0 := by
  unfold authorizer packValidationData
  rw [BitVec.setWidth_or, BitVec.setWidth_or, setWidth_shiftLeft le_rfl,
    setWidth_shiftLeft (by decide), BitVec.or_zero, BitVec.or_zero]
  cases sigFailed
  · rfl
  · rfl

theorem validUntil_packValidationData (sigFailed : Bool) (validUntil validAfter : Uint48) :
    (packValidationData sigFailed validUntil validAfter >>> 160).setWidth 48 = validUntil := by
  unfold packValidationData toWord
  ext i hi
  simp
  cases sigFailed <;> grind

theorem validAfter_packValidationData (sigFailed : Bool) (validUntil validAfter : Uint48) :
    (packValidationData sigFailed validUntil validAfter >>> 208).setWidth 48 = validAfter := by
  unfold packValidationData toWord
  ext i hi
  simp
  cases sigFailed <;> grind

/-- What the entry point reads in the answer. -/
theorem parseValidationData_packValidationData (sigFailed : Bool) (validUntil validAfter : Uint48) :
    parseValidationData (packValidationData sigFailed validUntil validAfter)
      = ⟨if sigFailed then 1 else 0, validAfter,
          if validUntil = 0 then BitVec.allOnes 48 else validUntil⟩ := by
  unfold parseValidationData
  rw [validUntil_packValidationData, validAfter_packValidationData, authorizer_packValidationData]

end Enclave
