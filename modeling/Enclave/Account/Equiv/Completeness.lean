import Enclave.Account.Equiv.Verification
import Enclave.Evm.RoundTrip

/-!
# What has been signed is accepted

The signature formats are read back as they were written (`decodePasskey_encodePasskey`,
`decodeModuleSignature_encode`), and every leaf of a tree has a proof that passes the check of the
multichain module.  Together: one signature over the root of a tree is enough for every operation
of the tree, on whatever chain it runs (`validateUserOp_of_mem_leaves`).
-/

namespace Enclave

/-! ### The formats -/

namespace P256SmartAccount

/-- `abi.encode` of a passkey signature. -/
def encodePasskey (sig : Passkey) : Bytes :=
  abiEncode [.word sig.keyHash, .word sig.r, .word sig.s, .bytes sig.authenticatorData,
    .bytes sig.clientDataJSONPre, .bytes sig.clientDataJSONPost]

def passkeyParts (sig : Passkey) : List Part :=
  [.static sig.keyHash, .static sig.r, .static sig.s, bytesPart sig.authenticatorData,
    bytesPart sig.clientDataJSONPre, bytesPart sig.clientDataJSONPost]

theorem encodePasskey_eq (sig : Passkey) : encodePasskey sig = encodeParts (passkeyParts sig) :=
  abiEncode_eq_encodeParts _

/-- A passkey signature is read back, also where other bytes follow it. -/
theorem decodePasskey_encodePasskey (sig : Passkey) (hlen : (encodePasskey sig).length < 2 ^ 64)
    (rest : Bytes) : decodePasskey (encodePasskey sig ++ rest) = .ok sig := by
  rw [encodePasskey_eq] at hlen ⊢
  have hword : ∀ i w, (passkeyParts sig)[i]? = some (.static w) →
      abiDecodeWord (encodeParts (passkeyParts sig) ++ rest) (32 * i) = .ok w := fun i w h =>
    decodeWord_encodeParts h rest
  have hbytes : ∀ i b, (passkeyParts sig)[i]? = some (bytesPart b) →
      abiDecodeBytesMemory (encodeParts (passkeyParts sig) ++ rest) (32 * i) = .ok b := fun i b h =>
    decodeBytes_encodeParts hlen h rest
  rw [decodePasskey, requireHead_encodeParts (n := 192) _ _ le_rfl, ok_bind,
    hword 0 sig.keyHash rfl, ok_bind, hword 1 sig.r rfl, ok_bind, hword 2 sig.s rfl, ok_bind,
    hbytes 3 sig.authenticatorData rfl, ok_bind, hbytes 4 sig.clientDataJSONPre rfl, ok_bind,
    hbytes 5 sig.clientDataJSONPost rfl, ok_bind]

end P256SmartAccount

namespace MultichainPasskeyValidator

def moduleParts (m : ModuleSignature) : List Part :=
  [.static (toWord m.validUntil), .static (toWord m.validAfter), .static m.merkleTreeRoot,
    wordsPart m.merkleProof, bytesPart m.multichainSignature]

theorem encodeModuleSignature_eq (m : ModuleSignature) :
    encodeModuleSignature m = encodeParts (moduleParts m) := by
  have hoffset : 192 + 32 * m.merkleProof.length = 160 + (toBytesBE 32 m.merkleProof.length ++
      m.merkleProof.flatMap Word.toBytes).length := by
    rw [List.length_append, length_toBytesBE, length_flatMap_toBytes]
    omega
  rw [encodeModuleSignature, hoffset]
  simp only [encodeParts, moduleParts, partHeads, wordsPart, bytesPart, Part.tail,
    List.flatMap_cons, List.flatMap_nil, List.append_assoc, List.nil_append, List.append_nil]
  rfl

theorem length_le_multichainSignature (m : ModuleSignature) :
    m.multichainSignature.length ≤ (encodeModuleSignature m).length := by
  rw [encodeModuleSignature_eq]
  exact length_le_bytesPart (i := 4) rfl

/-- What the signature of an operation holds for the module is read back. -/
theorem decodeModuleSignature_encode (m : ModuleSignature)
    (hlen : (encodeModuleSignature m).length < 2 ^ 64) (rest : Bytes) :
    decodeModuleSignature (encodeModuleSignature m ++ rest) = .ok m := by
  rw [encodeModuleSignature_eq] at hlen ⊢
  have hbits : ∀ i (v : Uint48), (moduleParts m)[i]? = some (.static (toWord v)) →
      abiDecodeUint48 (encodeParts (moduleParts m) ++ rest) (32 * i) = .ok v := fun i v h =>
    decodeBits_encodeParts (by decide) h rest
  have hroot : abiDecodeWord (encodeParts (moduleParts m) ++ rest) 64 = .ok m.merkleTreeRoot :=
    decodeWord_encodeParts (i := 2) rfl rest
  have hproof : abiDecodeWordsMemory (encodeParts (moduleParts m) ++ rest) 96
      = .ok m.merkleProof := decodeWordsMemory_encodeParts (i := 3) hlen rfl rest
  have hsig : abiDecodeBytesMemory (encodeParts (moduleParts m) ++ rest) 128
      = .ok m.multichainSignature := decodeBytes_encodeParts (i := 4) hlen rfl rest
  rw [decodeModuleSignature, requireHead_encodeParts (n := 160) _ _ le_rfl, ok_bind,
    hbits 0 m.validUntil rfl, ok_bind, hbits 1 m.validAfter rfl, ok_bind, hroot, ok_bind, hproof,
    ok_bind, hsig, ok_bind]

/-- The signature of an operation that names the module at `validator`. -/
def encodeSignature (validator : Address) (m : ModuleSignature) : Bytes :=
  abiEncode [.bytes (encodeModuleSignature m), addressValue validator]

theorem encodeSignature_eq (validator : Address) (m : ModuleSignature) :
    encodeSignature validator m
      = encodeParts [bytesPart (encodeModuleSignature m), .static (toWord validator)] :=
  abiEncode_eq_encodeParts _

theorem decodeModule_encodeSignature (validator : Address) (m : ModuleSignature)
    (hlen : (encodeSignature validator m).length < 2 ^ 64) :
    decodeModule (encodeSignature validator m) = .ok (encodeModuleSignature m) := by
  rw [encodeSignature_eq] at hlen ⊢
  rw [← List.append_nil (encodeParts _)]
  have hbytes : abiDecodeBytesMemory (encodeParts [bytesPart (encodeModuleSignature m),
      .static (toWord validator)] ++ []) 0 = .ok (encodeModuleSignature m) :=
    decodeBytes_encodeParts (i := 0) hlen rfl []
  have haddress : abiDecodeAddress (encodeParts [bytesPart (encodeModuleSignature m),
      .static (toWord validator)] ++ []) 32 = .ok validator :=
    decodeBits_encodeParts (i := 1) (by decide) rfl []
  rw [decodeModule, requireHead_encodeParts (n := 64) _ _ le_rfl, ok_bind, hbytes, ok_bind,
    haddress, ok_bind]

theorem length_le_encodeSignature (validator : Address) (m : ModuleSignature) :
    (encodeModuleSignature m).length ≤ (encodeSignature validator m).length := by
  rw [encodeSignature_eq]
  exact length_le_bytesPart (i := 0) rfl

/-! ### The operations of a tree -/

theorem less_total (x y : Word) (h : x ≠ y) : less x y = !less y x := by
  have hne : x.toNat ≠ y.toNat := fun heq => h (BitVec.eq_of_toNat_eq heq)
  unfold less
  rw [← decide_not]
  congr 1
  rw [eq_iff_iff]
  omega

/-- The proofs for the leaves of a tree. -/
def proofs (t : Merkle.Tree Authorisation) : List (Authorisation × List Word) :=
  t.proofs less encoding keccak256

theorem exists_proof {t : Merkle.Tree Authorisation} {a : Authorisation} (h : a ∈ t.leaves) :
    ∃ proof, (a, proof) ∈ proofs t := by
  have hmap : (proofs t).map Prod.fst = t.leaves := Merkle.map_fst_proofs t
  rw [← hmap] at h
  obtain ⟨⟨b, proof⟩, hmem, rfl⟩ := List.mem_map.mp h
  exact ⟨proof, hmem⟩

theorem merkleVerify_of_mem_proofs {t : Merkle.Tree Authorisation} {a : Authorisation}
    {proof : List Word} (h : (a, proof) ∈ proofs t) :
    merkleVerify proof (treeRoot t) (leaf a) = true := by
  rw [merkleVerify, beq_iff_eq]
  exact Merkle.processProof_of_mem_proofs less_total h

/-- The first part of `validateUserOp` lets an operation of the tree pass. -/
theorem authorise_of_mem_proofs {t : Merkle.Tree Authorisation} {a : Authorisation}
    {proof : List Word} (h : (a, proof) ∈ proofs t) {userOp : UserOperation} {validator : Address}
    {multichainSignature : Bytes}
    (hsig : userOp.signature = encodeSignature validator
      ⟨a.validUntil, a.validAfter, treeRoot t, proof, multichainSignature⟩)
    (hlen : userOp.signature.length < 2 ^ 64) :
    authorise userOp a.userOpHash
      = .ok ⟨a.validUntil, a.validAfter, treeRoot t, proof, multichainSignature⟩ := by
  rw [hsig] at hlen
  have hmodule := decodeModule_encodeSignature _ _ hlen
  have hdecode := decodeModuleSignature_encode _ (lt_of_le_of_lt (length_le_encodeSignature _ _)
    hlen) []
  rw [List.append_nil] at hdecode
  refine authorise_eq_ok.mpr ⟨⟨_, ?_, hdecode⟩, merkleVerify_of_mem_proofs h⟩
  rw [hsig]
  exact hmodule

/-- **One signature over the root is enough**: every operation of a tree has a proof with which the
module answers with the verdict on the root: zero if the passkey signature is valid for the root of
the tree and the account's key, and one if it is not. -/
theorem validateUserOp_of_mem_leaves (d : Deployment) (t : Merkle.Tree Authorisation)
    {a : Authorisation} (ha : a ∈ t.leaves) :
    ∃ proof, (a, proof) ∈ proofs t ∧
      ∀ (sig : P256SmartAccount.Passkey) (validator : Address) (userOp : UserOperation),
      userOp.signature = encodeSignature validator ⟨a.validUntil, a.validAfter, treeRoot t, proof,
        P256SmartAccount.encodePasskey sig⟩ →
      userOp.signature.length < 2 ^ 64 →
      ∃ data, (validateUserOp d.accountAddress userOp a.userOpHash).value
          (d.env P256Verifier.call) d.validator = .ok data ∧ (data = 0 ∨ data = 1) ∧
        (data = 0 ↔ ValidFor d sig.authenticatorData sig.clientDataJSONPre sig.clientDataJSONPost
          (treeRoot t) sig.r sig.s) := by
  obtain ⟨proof, hproof⟩ := exists_proof ha
  refine ⟨proof, hproof, fun sig validator userOp hsig hlen => ?_⟩
  have hauth := authorise_of_mem_proofs hproof hsig hlen
  have hpasskey : P256SmartAccount.decodePasskey (P256SmartAccount.encodePasskey sig)
      = .ok sig := by
    rw [hsig] at hlen
    have hmodule := lt_of_le_of_lt (length_le_encodeSignature _ _) hlen
    have hinner := lt_of_le_of_lt (length_le_multichainSignature _) hmodule
    rw [← List.append_nil (P256SmartAccount.encodePasskey sig)]
    exact P256SmartAccount.decodePasskey_encodePasskey sig hinner []
  obtain ⟨accepted, hverify, haccepted⟩ := module_of_p256Verifier d sig.authenticatorData
    sig.clientDataJSONPre sig.clientDataJSONPost (treeRoot t) sig.r sig.s
  refine ⟨if accepted then 0 else 1, ?_, ?_, ?_⟩
  · rw [validateUserOp, Prog.value_lift_bind, hauth, ok_bind, Prog.value_lift_bind, hpasskey,
      ok_bind, Prog.value_bind_pure, hverify]
    rfl
  · cases accepted
    · exact Or.inr rfl
    · exact Or.inl rfl
  · rw [← haccepted]
    cases accepted <;> decide

/-- The signature of the key `G` over the root of the tree. -/
def rootPasskey : P256SmartAccount.Passkey :=
  let sig := P256SmartAccount.signature sampleDigest
  ⟨0, sig.1, sig.2, [], P256SmartAccount.textStart, P256SmartAccount.textEnd⟩

/-- An operation of the tree, with a proof and this signature. -/
def provenOp (a : Authorisation) (proof : List Word) : UserOperation :=
  { limitedOp with
    signature := encodeSignature 6 ⟨a.validUntil, a.validAfter, treeRoot sampleTree, proof,
      P256SmartAccount.encodePasskey rootPasskey⟩ }

theorem length_provenOp (a : Authorisation) (x : Word) :
    (provenOp a [x]).signature.length < 2 ^ 64 := by
  have hstart : P256SmartAccount.textStart.length = 36 := by decide
  have hend : P256SmartAccount.textEnd.length = 10 := by decide
  have hpasskey : (P256SmartAccount.encodePasskey rootPasskey).length = 384 := by
    rw [P256SmartAccount.encodePasskey_eq, length_encodeParts]
    simp [P256SmartAccount.passkeyParts, rootPasskey, Part.tail, bytesPart, abiTail, pad32, hstart,
      hend]
  have hmodule : (encodeModuleSignature ⟨a.validUntil, a.validAfter, treeRoot sampleTree, [x],
      P256SmartAccount.encodePasskey rootPasskey⟩).length = 640 := by
    rw [encodeModuleSignature_eq, length_encodeParts]
    simp [moduleParts, Part.tail, wordsPart, bytesPart, abiTail, pad32, hpasskey]
  show (encodeSignature 6 _).length < 2 ^ 64
  rw [encodeSignature_eq, length_encodeParts]
  simp [Part.tail, bytesPart, abiTail, pad32, hmodule]

theorem validFor_rootPasskey : ValidFor sampleDeployment rootPasskey.authenticatorData
    rootPasskey.clientDataJSONPre rootPasskey.clientDataJSONPost (treeRoot sampleTree)
    rootPasskey.r rootPasskey.s := by
  rw [ValidFor, treeRoot_sampleTree, ← P256.ecdsaVerify_eq_true_iff]
  show P256Verifier.ecdsaVerify (P256SmartAccount.sigHash [] P256SmartAccount.textStart
    P256SmartAccount.textEnd sampleRoot) _ _ _ = .ok true
  rw [sigHash_sampleRoot]
  exact ecdsaVerify_sampleDigest

/-- The one signature over the root is accepted for both operations of the tree. -/
theorem validateUserOp_provenOp :
    (∃ x, (validateUserOp 5 (provenOp limited [x]) 7).value
      (sampleDeployment.env P256Verifier.call) sampleDeployment.validator = .ok 0) ∧
    ∃ x, (validateUserOp 5 (provenOp unlimited [x]) 8).value
      (sampleDeployment.env P256Verifier.call) sampleDeployment.validator = .ok 0 := by
  have hall : ∀ a ∈ sampleTree.leaves, ∃ x, (validateUserOp 5 (provenOp a [x]) a.userOpHash).value
      (sampleDeployment.env P256Verifier.call) sampleDeployment.validator = .ok 0 := by
    intro a ha
    obtain ⟨proof, hproof, h⟩ := validateUserOp_of_mem_leaves sampleDeployment sampleTree ha
    -- each of the two leaves has the other one as its proof
    obtain ⟨x, rfl⟩ : ∃ x, proof = [x] := by
      rcases List.mem_cons.mp hproof with heq | hmem
      · exact ⟨_, congrArg Prod.snd heq⟩
      · exact ⟨_, congrArg Prod.snd (List.mem_singleton.mp hmem)⟩
    obtain ⟨data, hdata, -, hvalid⟩ := h rootPasskey 6 (provenOp a [x]) rfl (length_provenOp a x)
    rw [hvalid.mpr validFor_rootPasskey] at hdata
    exact ⟨x, hdata⟩
  exact ⟨hall limited List.mem_cons_self,
    hall unlimited (List.mem_cons_of_mem _ List.mem_cons_self)⟩

end MultichainPasskeyValidator

end Enclave
