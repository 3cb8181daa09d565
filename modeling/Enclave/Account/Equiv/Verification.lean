import Enclave.Account.Equiv.Multichain
import Enclave.Account.Equiv.Selectors
import Enclave.P256.Equiv.P256V

/-!
# Who asks the verifier, and how

The account asks the registered verifier through `verify`, the multichain module through
`ecdsa_verify`.  `P256V` has only the first function and `P256Verifier` only the second, so
whichever of them is registered, one of the two callers is not understood: they agree only where the
verifier is a `P256Verifier` and the signature is invalid (`verdicts_agree_iff`).

A `P256V` stands in front of a `P256Verifier` or of the precompile of EIP-7212, which rejects with
empty output.  The ABI decoder of `P256V` takes that for a failure of its own and reverts
(`backends_agree_iff`).
-/

namespace Enclave

open P256V (arguments verdict)

/-! ### The calls of a deployment -/

namespace Deployment

variable (d : Deployment) (verifier : Bytes → Result Bytes)

theorem env_registry (data : Bytes) :
    d.env verifier ⟨.staticcall, d.registryAddress, 0, data⟩ = d.registry.staticcall data := by
  rw [env, if_neg (not_not.mpr rfl), if_pos rfl]

theorem env_verifier (data : Bytes) :
    d.env verifier ⟨.staticcall, d.verifierAddress, 0, data⟩ = verifier data := by
  rw [env, if_neg (not_not.mpr rfl), if_neg d.verifier_ne_registry, if_pos rfl]

theorem env_account (data : Bytes) :
    d.env verifier ⟨.staticcall, d.accountAddress, 0, data⟩ = d.accountReply data := by
  rw [env, if_neg (not_not.mpr rfl), if_neg d.account_ne_registry, if_neg d.account_ne_verifier,
    if_pos rfl]

/-- The registry names the verifier. -/
theorem staticcall_registered :
    d.registry.staticcall (P256SmartAccount.Callee.getRegistryAddress.encode
      [.bytes (ascii "p256Verifier")]) = .ok (abiEncode [.word (toWord d.verifierAddress)]) := by
  have hsel : selector "getRegistryAddress(string)"
      = P256SmartAccount.Callee.getRegistryAddress.selector :=
    (P256SmartAccount.Callee.selector_signature .getRegistryAddress).symm
  have hname : requireHead (abiEncode [.bytes (ascii "p256Verifier")]) 32 = .ok () ∧
      abiDecodeBytesMemory (abiEncode [.bytes (ascii "p256Verifier")]) 0
        = .ok (ascii "p256Verifier") := by
    decide
  unfold EnclaveRegistry.staticcall P256SmartAccount.Callee.encode
  rw [← hsel, take_selector_append, drop_selector_append,
    if_neg (not_lt.mpr (four_le_length_selector_append _ _)), if_pos rfl, hname.1, ok_bind, hname.2,
    ok_bind, EnclaveRegistry.getRegistryAddress, d.registered, require_true d.verifier_ne_zero]
  rfl

/-- The account's getter returns the two coordinates of its key. -/
theorem accountReply_pubKey :
    d.accountReply (P256SmartAccount.Method.pubKey.selector ++ abiEncode [.word 0])
      = .ok (abiEncode [.word d.account.pubKey.1]) ∧
    d.accountReply (P256SmartAccount.Method.pubKey.selector ++ abiEncode [.word 1])
      = .ok (abiEncode [.word d.account.pubKey.2]) := by
  constructor
  · rfl
  · rfl

/-- What the account makes of the verifier's reply. -/
theorem value_verifySignature (authenticatorData pre post : Bytes) (hash r s : Word) :
    (P256SmartAccount.verifySignature authenticatorData pre post hash r s).value (d.env verifier)
        d.account
      = (verifier (selector "verify(bytes32,uint256,uint256,uint256[2])" ++
          arguments (P256SmartAccount.sigHash authenticatorData pre post hash) r s
            d.account.pubKey.1 d.account.pubKey.2) >>= fun data => abiDecodeBool data 0) := by
  have hsel : selector "verify(bytes32,uint256,uint256,uint256[2])"
      = P256SmartAccount.Callee.verify.selector :=
    (P256SmartAccount.Callee.selector_signature .verify).symm
  unfold P256SmartAccount.verifySignature P256SmartAccount.getRegistryAddress
    P256SmartAccount.viewCall
  simp only [Prog.bind_assoc]
  rw [Prog.value_storage_bind, d.account_registry, Prog.value_callOrRevert_bind, d.env_registry,
    d.staticcall_registered, ok_bind, Prog.value_lift_bind, abiDecodeAddress_encode, ok_bind,
    Prog.value_storage_bind, Prog.value_callOrRevert_bind, d.env_verifier, hsel]
  simp only [Prog.value_lift]
  rfl

/-- What the module makes of the verifier's reply. -/
theorem value_verifySignature_module (authenticatorData pre post : Bytes) (hash r s : Word) :
    (MultichainPasskeyValidator.verifySignature d.accountAddress authenticatorData pre post hash r
        s).value (d.env verifier) d.validator
      = (verifier (P256Verifier.ecdsaVerifySelector ++
          arguments (P256SmartAccount.sigHash authenticatorData pre post hash) r s
            d.account.pubKey.1 d.account.pubKey.2) >>= fun data => abiDecodeBool data 0) := by
  have hword : ∀ w : Word, abiDecodeWord (abiEncode [.word w]) 0 = .ok w := fun w =>
    abiDecodeWord_words [w] 0 (by simp)
  unfold MultichainPasskeyValidator.verifySignature MultichainPasskeyValidator.getRegistryAddress
    MultichainPasskeyValidator.pubKey
  simp only [Prog.bind_assoc]
  rw [Prog.value_storage_bind, validator, Prog.value_callOrRevert_bind, d.env_registry,
    d.staticcall_registered, ok_bind, Prog.value_lift_bind, abiDecodeAddress_encode, ok_bind,
    Prog.value_callOrRevert_bind, d.env_account, d.accountReply_pubKey.1, ok_bind,
    Prog.value_lift_bind, hword, ok_bind, Prog.value_callOrRevert_bind, d.env_account,
    d.accountReply_pubKey.2, ok_bind, Prog.value_lift_bind, hword, ok_bind,
    Prog.value_callOrRevert_bind, d.env_verifier]
  simp only [Prog.value_lift]
  rfl

end Deployment

/-! ### The account and the module -/

section Agreement

variable (d : Deployment) (authenticatorData pre post : Bytes) (hash r s : Word)

/-- The signature is valid for the account's key and the digest of the hash. -/
def ValidFor : Prop :=
  P256.ValidSignature (P256SmartAccount.sigHash authenticatorData pre post hash).toNat r.toNat
    s.toNat d.account.pubKey.1.toNat d.account.pubKey.2.toNat

/-- The account asks a `P256Verifier` in vain. -/
theorem account_of_p256Verifier :
    (P256SmartAccount.verifySignature authenticatorData pre post hash r s).value
      (d.env P256Verifier.call) d.account = .ok false := by
  rw [d.value_verifySignature, P256V.call_verify_of_verifier, ok_bind, P256V.abiDecodeBool_verdict]

/-- The module asks a `P256V` in vain. -/
theorem module_of_p256V (precompileAddress : Address) (precompile : Bytes → Result Bytes) :
    (MultichainPasskeyValidator.verifySignature d.accountAddress authenticatorData pre post hash r
      s).value (d.env (P256V.call precompileAddress precompile)) d.validator = .error .empty := by
  rw [d.value_verifySignature_module, P256V.call_ecdsaVerify_of_p256V, error_bind]

/-- The module gets the verdict of a `P256Verifier`. -/
theorem module_of_p256Verifier :
    ∃ accepted, (MultichainPasskeyValidator.verifySignature d.accountAddress authenticatorData pre
        post hash r s).value (d.env P256Verifier.call) d.validator = .ok accepted ∧
      (accepted = true ↔ ValidFor d authenticatorData pre post hash r s) := by
  obtain ⟨accepted, haccepted⟩ := P256.ecdsaVerify_total
    (P256SmartAccount.sigHash authenticatorData pre post hash) r s d.account.pubKey
  refine ⟨accepted, ?_, ?_⟩
  · rw [d.value_verifySignature_module, P256V.call_ecdsaVerify haccepted, ok_bind,
      P256V.abiDecodeBool_verdict]
  · rw [ValidFor, ← P256.ecdsaVerify_eq_true_iff]
    show accepted = true ↔ P256Verifier.ecdsaVerify _ r s d.account.pubKey = .ok true
    rw [haccepted, Except.ok.injEq]

/-- **When the account and the module agree**: only where a `P256Verifier` is registered and the
signature is invalid. -/
theorem verdicts_agree_iff (v : Verifier) :
    (∃ accepted,
      (P256SmartAccount.verifySignature authenticatorData pre post hash r s).value (d.env v.code)
        d.account = .ok accepted ∧
      (MultichainPasskeyValidator.verifySignature d.accountAddress authenticatorData pre post hash r
        s).value (d.env v.code) d.validator = .ok accepted) ↔
    v = .p256Verifier ∧ ¬ValidFor d authenticatorData pre post hash r s := by
  cases v with
  | p256V precompileAddress =>
    -- `P256V` has no `ecdsa_verify` and no `fallback`: the call of the module reverts
    have hmodule := module_of_p256V d authenticatorData pre post hash r s precompileAddress
      P256Verifier.call
    constructor
    · rintro ⟨accepted, -, hm⟩
      rw [Verifier.code, hmodule] at hm
      cases hm
    · rintro ⟨hv, -⟩
      cases hv
  | p256Verifier =>
    -- `P256Verifier` has no `verify`: the call of the account lands in `fallback`, which answers
    -- zero to anything but 160 bytes
    have haccount := account_of_p256Verifier d authenticatorData pre post hash r s
    obtain ⟨accepted, hmodule, hvalid⟩ := module_of_p256Verifier d authenticatorData pre post hash
      r s
    rw [← hvalid]
    constructor
    · rintro ⟨b, ha, hm⟩
      rw [Verifier.code, haccount] at ha
      rw [Verifier.code, hmodule] at hm
      cases ha
      cases hm
      exact ⟨rfl, by decide⟩
    · rintro ⟨-, haccepted⟩
      rw [Bool.not_eq_true] at haccepted
      refine ⟨false, haccount, ?_⟩
      rw [Verifier.code, hmodule, haccepted]

end Agreement

theorem sigHash_sampleRoot : P256SmartAccount.sigHash [] P256SmartAccount.textStart
    P256SmartAccount.textEnd MultichainPasskeyValidator.sampleRoot
      = MultichainPasskeyValidator.sampleDigest := by
  decide +kernel

/-- The key `G` has signed the root of the tree. -/
theorem ecdsaVerify_sampleDigest :
    let sig := P256SmartAccount.signature MultichainPasskeyValidator.sampleDigest
    P256Verifier.ecdsaVerify MultichainPasskeyValidator.sampleDigest sig.1 sig.2
      P256SmartAccount.accountG.pubKey = .ok true := by
  decide +kernel

/-- The account accepts a signature over a `P256V`, where the module reverts; over the
`P256Verifier` the module accepts it, where the account rejects it. -/
theorem verdicts_disagree :
    let d := MultichainPasskeyValidator.sampleDeployment
    let sig := P256SmartAccount.signature MultichainPasskeyValidator.sampleDigest
    let accountCall := P256SmartAccount.verifySignature [] P256SmartAccount.textStart
      P256SmartAccount.textEnd MultichainPasskeyValidator.sampleRoot sig.1 sig.2
    let moduleCall := MultichainPasskeyValidator.verifySignature d.accountAddress []
      P256SmartAccount.textStart P256SmartAccount.textEnd MultichainPasskeyValidator.sampleRoot
      sig.1 sig.2
    accountCall.value (d.env (Verifier.p256V 2).code) d.account = .ok true ∧
    moduleCall.value (d.env (Verifier.p256V 2).code) d.validator = .error .empty ∧
    accountCall.value (d.env Verifier.p256Verifier.code) d.account = .ok false ∧
    moduleCall.value (d.env Verifier.p256Verifier.code) d.validator = .ok true := by
  intro d sig accountCall moduleCall
  have hvalid : P256Verifier.ecdsaVerify MultichainPasskeyValidator.sampleDigest sig.1 sig.2
      (d.account.pubKey.1, d.account.pubKey.2) = .ok true := ecdsaVerify_sampleDigest
  have hne : MultichainPasskeyValidator.sampleDigest.toBytes.take 4
      ≠ P256Verifier.ecdsaVerifySelector := by
    rw [P256V.ecdsaVerifySelector_eq]
    decide
  refine ⟨?_, module_of_p256V _ _ _ _ _ _ _ _ _, account_of_p256Verifier _ _ _ _ _ _ _, ?_⟩
  · rw [d.value_verifySignature, sigHash_sampleRoot, Verifier.code, P256V.call_verify,
      P256V.verify_of_ne hne hvalid]
    exact P256V.abiDecodeBool_verdict true
  · rw [d.value_verifySignature_module, sigHash_sampleRoot, Verifier.code,
      P256V.call_ecdsaVerify hvalid, ok_bind, P256V.abiDecodeBool_verdict]

/-! ### The two back ends of `P256V` -/

/-- The precompile of EIP-7212: the word one for a valid signature, and nothing for any other. -/
structure EIP7212 (precompile : Bytes → Result Bytes) : Prop where
  valid : ∀ {messageHash r s x y : Word},
    P256.ValidSignature messageHash.toNat r.toNat s.toNat x.toNat y.toNat →
    precompile (P256V.packed messageHash r s x y) = .ok (Word.toBytes 1)
  invalid : ∀ {messageHash r s x y : Word},
    ¬P256.ValidSignature messageHash.toNat r.toNat s.toNat x.toNat y.toNat →
    precompile (P256V.packed messageHash r s x y) = .ok []

section Backends

variable {precompile : Bytes → Result Bytes} {messageHash r s x y : Word}

theorem verify_of_valid (h : EIP7212 precompile)
    (hvalid : P256.ValidSignature messageHash.toNat r.toNat s.toNat x.toNat y.toNat) :
    P256V.verify precompile messageHash r s (x, y) = .ok true := by
  have hcall := h.valid hvalid
  rw [P256V.packed] at hcall
  simp only [P256V.verify, hcall]
  exact P256V.abiDecodeBool_toBytes true

/-- A rejection of the precompile does not decode to a boolean. -/
theorem verify_of_invalid (h : EIP7212 precompile)
    (hvalid : ¬P256.ValidSignature messageHash.toNat r.toNat s.toNat x.toNat y.toNat) :
    P256V.verify precompile messageHash r s (x, y) = .error .empty := by
  have hcall := h.invalid hvalid
  rw [P256V.packed] at hcall
  simp only [P256V.verify, hcall]
  rfl

/-- Over a `P256Verifier` an invalid signature is rejected, unless its hash is taken for a call of
`ecdsa_verify`. -/
theorem verify_of_invalid_verifier
    (hvalid : ¬P256.ValidSignature messageHash.toNat r.toNat s.toNat x.toNat y.toNat) :
    P256V.verify P256Verifier.call messageHash r s (x, y)
      = if messageHash.toBytes.take 4 = P256Verifier.ecdsaVerifySelector
        then .error (.reason "Verification failed") else .ok false := by
  split_ifs with hsel
  · exact P256V.verify_of_eq r s x y hsel
  · exact P256V.verify_of_ne hsel (P256.ecdsaVerify_eq_false_iff.mpr hvalid)

/-- The two back ends give one boolean exactly for the valid signatures of hashes that do not start
with the selector of `ecdsa_verify`. -/
theorem same_verdict_iff (h : EIP7212 precompile) :
    (∃ accepted, P256V.verify precompile messageHash r s (x, y) = .ok accepted ∧
      P256V.verify P256Verifier.call messageHash r s (x, y) = .ok accepted) ↔
    P256.ValidSignature messageHash.toNat r.toNat s.toNat x.toNat y.toNat ∧
      messageHash.toBytes.take 4 ≠ P256Verifier.ecdsaVerifySelector := by
  by_cases hvalid : P256.ValidSignature messageHash.toNat r.toNat s.toNat x.toNat y.toNat
  · have hverdict := P256.ecdsaVerify_eq_true_iff.mpr hvalid
    rw [verify_of_valid h hvalid]
    constructor
    · rintro ⟨accepted, -, hverify⟩
      refine ⟨hvalid, fun hsel => ?_⟩
      rw [P256V.verify_of_eq r s x y hsel] at hverify
      cases hverify
    · rintro ⟨-, hsel⟩
      exact ⟨true, rfl, P256V.verify_of_ne hsel hverdict⟩
  · rw [verify_of_invalid h hvalid]
    constructor
    · rintro ⟨accepted, hverify, -⟩
      cases hverify
    · rintro ⟨hvalid', -⟩
      exact absurd hvalid' hvalid

end Backends

/-- The account answers that the signature is not valid, to the entry point with
`SIG_VALIDATION_FAILED` and to others with `0xffffffff`. -/
def Rejects (d : Deployment) (verifier : Bytes → Result Bytes) (hash : Word) (signature : Bytes) :
    Prop :=
  (P256SmartAccount.validateSignature (.ok signature) hash).value (d.env verifier) d.account
    = .ok 1 ∧
  (P256SmartAccount.isValidSignature hash signature).value (d.env verifier) d.account
    = .ok ((0xffffffff : Word) <<< 224)

/-- The account rejects when its verifier does. -/
theorem rejects_iff {d : Deployment} {verifier : Bytes → Result Bytes} {hash : Word}
    {signature : Bytes} {p : P256SmartAccount.Passkey}
    (hp : P256SmartAccount.decodePasskey signature = .ok p) :
    Rejects d verifier hash signature ↔
      (P256SmartAccount.verifySignature p.authenticatorData p.clientDataJSONPre
        p.clientDataJSONPost hash p.r p.s).value (d.env verifier) d.account = .ok false := by
  have haccepts : (P256SmartAccount.acceptsSignature hash signature).value (d.env verifier)
      d.account = (P256SmartAccount.verifySignature p.authenticatorData p.clientDataJSONPre
        p.clientDataJSONPost hash p.r p.s).value (d.env verifier) d.account := by
    rw [P256SmartAccount.acceptsSignature, Prog.value_lift_bind, hp, ok_bind]
  have hentry : (P256SmartAccount.validateSignature (.ok signature) hash).value (d.env verifier)
      d.account = ((P256SmartAccount.acceptsSignature hash signature).value (d.env verifier)
        d.account).map fun accepted => if accepted then 0 else 1 := by
    rw [P256SmartAccount.validateSignature, Prog.value_lift_bind, ok_bind, Prog.value_bind_pure]
  have hother : (P256SmartAccount.isValidSignature hash signature).value (d.env verifier)
      d.account = ((P256SmartAccount.acceptsSignature hash signature).value (d.env verifier)
        d.account).map fun accepted =>
          if accepted then (0x1626ba7e : Word) <<< 224 else (0xffffffff : Word) <<< 224 := by
    rw [P256SmartAccount.isValidSignature, Prog.value_bind_pure]
  rw [Rejects, hentry, hother, haccepts]
  cases (P256SmartAccount.verifySignature p.authenticatorData p.clientDataJSONPre
      p.clientDataJSONPost hash p.r p.s).value (d.env verifier) d.account with
  | error e =>
    constructor
    · rintro ⟨hentry, -⟩
      cases hentry
    · intro hfalse
      cases hfalse
  | ok accepted =>
    cases accepted
    · exact ⟨fun _ => rfl, fun _ => ⟨rfl, rfl⟩⟩
    · exact ⟨fun h => absurd (Except.ok.inj h.1) (by decide), nofun⟩

/-- **When the two deployments behave alike**: for the valid signatures of hashes that do not start
with the selector.  For invalid ones the account over the precompile never answers, and the account
over the `P256Verifier` rejects unless the digest starts with the selector. -/
theorem backends_agree_iff (d : Deployment) (precompileAddress precompileAddress' : Address)
    {precompile : Bytes → Result Bytes} (h : EIP7212 precompile) :
    (∀ messageHash r s x y : Word,
      (∃ accepted, P256V.verify precompile messageHash r s (x, y) = .ok accepted ∧
        P256V.verify P256Verifier.call messageHash r s (x, y) = .ok accepted) ↔
      P256.ValidSignature messageHash.toNat r.toNat s.toNat x.toNat y.toNat ∧
        messageHash.toBytes.take 4 ≠ P256Verifier.ecdsaVerifySelector) ∧
    (∀ hash signature p, P256SmartAccount.decodePasskey signature = .ok p →
      ¬ValidFor d p.authenticatorData p.clientDataJSONPre p.clientDataJSONPost hash p.r p.s →
      ¬Rejects d (P256V.call precompileAddress precompile) hash signature ∧
      (Rejects d (P256V.call precompileAddress' P256Verifier.call) hash signature ↔
        (P256SmartAccount.sigHash p.authenticatorData p.clientDataJSONPre p.clientDataJSONPost
          hash).toBytes.take 4 ≠ P256Verifier.ecdsaVerifySelector)) := by
  refine ⟨fun messageHash r s x y => same_verdict_iff h, fun hash signature p hp hvalid => ?_⟩
  rw [rejects_iff hp, rejects_iff hp, d.value_verifySignature, d.value_verifySignature,
    P256V.call_verify, P256V.call_verify, verify_of_invalid h hvalid,
    verify_of_invalid_verifier hvalid]
  refine ⟨nofun, ?_⟩
  split_ifs with hsel
  · exact ⟨nofun, fun hne => absurd hsel hne⟩
  · exact ⟨fun _ => hsel, fun _ => P256V.abiDecodeBool_verdict false⟩

/-! ### An invalid signature on the two kinds of chain -/

/-- A precompile that computes its answer with the code of `P256Verifier`. -/
def precompile7212 (input : Bytes) : Result Bytes :=
  if P256Verifier.fallback input = .ok (Word.toBytes 1) then .ok (Word.toBytes 1) else .ok []

theorem eip7212_precompile7212 : EIP7212 precompile7212 where
  valid {messageHash r s x y} hvalid := by
    have haccepted := P256.ecdsaVerify_eq_true_iff.mpr hvalid
    exact if_pos (P256V.fallback_packed messageHash r s x y haccepted)
  invalid {messageHash r s x y} hvalid := by
    have hrejected := P256.ecdsaVerify_eq_false_iff.mpr hvalid
    rw [precompile7212, P256V.fallback_packed messageHash r s x y hrejected, if_neg (by decide)]

/-- A signature with `r` and `s` zero is rejected on one chain, and not answered on the other. -/
theorem verify_zero :
    P256V.verify precompile7212 1 0 0 (0, 0) = .error .empty ∧
      P256V.verify P256Verifier.call 1 0 0 (0, 0) = .ok false := by
  decide +kernel

/-- The signature of the hash `1` with `r` and `s` zero. -/
def zeroSignature : Bytes :=
  abiEncode [.word 0, .word 0, .word 0, .bytes [], .bytes [], .bytes []]

set_option maxRecDepth 10000 in
theorem decodePasskey_zeroSignature :
    P256SmartAccount.decodePasskey zeroSignature = .ok ⟨0, 0, 0, [], [], []⟩ :=
  rfl

theorem rejects_zeroSignature :
    let d := MultichainPasskeyValidator.sampleDeployment
    ¬Rejects d (P256V.call 0x100 precompile7212) 1 zeroSignature ∧
      Rejects d (P256V.call 3 P256Verifier.call) 1 zeroSignature := by
  intro d
  have hvalid : ¬ValidFor d [] [] [] 1 0 0 := fun h => absurd h.1.1 (by decide)
  have hsel : (P256SmartAccount.sigHash [] [] [] 1).toBytes.take 4
      ≠ P256Verifier.ecdsaVerifySelector := by
    rw [P256V.ecdsaVerifySelector_eq]
    decide +kernel
  obtain ⟨hprecompile, hverifier⟩ := (backends_agree_iff d 0x100 3 eip7212_precompile7212).2 1
    zeroSignature _ decodePasskey_zeroSignature hvalid
  exact ⟨hprecompile, hverifier.mpr hsel⟩

end Enclave
