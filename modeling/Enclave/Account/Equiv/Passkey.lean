import Enclave.Account.Equiv.Calldata
import Enclave.Account.Equiv.Completeness
import Enclave.P256.Equiv.Signing

/-!
# What a passkey signs, its account accepts

From the registry to the curve: an account whose registry was filled by any calls, and whose
verifier is a `P256V` over a `P256Verifier`.  The entry point is the address that the owner of the
registry named last (`registry_stateAfter`), and the account accepts an operation or a hash exactly
when its own key has signed it (`validateUserOp_signed`), unless the digest happens to start with
the selector of `ecdsa_verify`.
-/

namespace Enclave

/-! ### The registry -/

namespace EnclaveRegistry

/-- The update counts. -/
def Update.Counts (owner : Address) (name : Bytes) (u : Update) : Prop :=
  u.sender = owner ∧ u.contractName = name ∧ u.contractAddress ≠ 0

instance (owner : Address) (name : Bytes) : DecidablePred (Update.Counts owner name) :=
  fun _ => inferInstanceAs (Decidable (_ ∧ _ ∧ _))

/-- The address that the owner has named last, `0` if there is none. -/
def latest (owner : Address) (name : Bytes) (updates : List Update) : Address :=
  match updates.reverse.find? (fun u => decide (u.Counts owner name)) with
  | some u => u.contractAddress
  | none => 0

theorem latest_concat (owner : Address) (name : Bytes) (updates : List Update) (u : Update) :
    latest owner name (updates ++ [u])
      = if u.Counts owner name then u.contractAddress else latest owner name updates := by
  unfold latest
  rw [List.reverse_append, List.reverse_singleton, List.singleton_append, List.find?_cons]
  by_cases h : u.Counts owner name
  · rw [if_pos h]
    simp only [decide_eq_true h]
  · rw [if_neg h]
    simp only [decide_eq_false h]

theorem stateAfter_concat (owner : Address) (updates : List Update) (u : Update) :
    stateAfter owner (updates ++ [u]) = apply (stateAfter owner updates) u := by
  unfold stateAfter
  rw [List.foldl_append]
  rfl

/-- **Runs of the registry**: the owner stays, and an entry is what the owner has named last. -/
theorem registry_stateAfter (owner : Address) (updates : List Update) :
    (stateAfter owner updates).owner = owner ∧
      ∀ name, (stateAfter owner updates).registry name = latest owner name updates := by
  induction updates using List.reverseRecOn with
  | nil => exact ⟨rfl, fun _ => rfl⟩
  | append_singleton updates u ih =>
    obtain ⟨howner, hentry⟩ := ih
    rw [stateAfter_concat]
    simp only [latest_concat]
    unfold apply
    cases hu : updateRegistryAddress u.sender u.contractName u.contractAddress
        (stateAfter owner updates) with
    | error e =>
      refine ⟨howner, fun name => ?_⟩
      rw [if_neg, hentry]
      -- an update that counts does not revert
      rintro ⟨hsender, -, hzero⟩
      unfold updateRegistryAddress at hu
      rw [howner, require_true hsender, ok_bind, require_true hzero] at hu
      cases hu
    | ok s' =>
      unfold updateRegistryAddress at hu
      simp only [bind_eq_ok, require_eq_ok] at hu
      obtain ⟨_, hsender, _, hzero, hset⟩ := hu
      rw [howner] at hsender
      obtain rfl := Except.ok.inj hset
      refine ⟨howner, fun name => ?_⟩
      show Function.update (stateAfter owner updates).registry u.contractName u.contractAddress name
        = _
      by_cases hname : u.contractName = name
      · rw [if_pos ⟨hsender, hname, hzero⟩, hname, Function.update_self]
      · rw [if_neg fun h => hname h.2.1, Function.update_of_ne (Ne.symm hname), hentry]

/-- How the registry answers the account that looks for the entry point. -/
theorem staticcall_entryPoint (s : EnclaveRegistry) :
    s.staticcall (P256SmartAccount.Callee.getRegistryAddress.encode [.bytes (ascii "entryPoint")])
      = (s.getRegistryAddress (ascii "entryPoint")).map fun a => abiEncode [.word (toWord a)] := by
  have hsel : selector "getRegistryAddress(string)"
      = P256SmartAccount.Callee.getRegistryAddress.selector :=
    (P256SmartAccount.Callee.selector_signature .getRegistryAddress).symm
  have hname : requireHead (abiEncode [.bytes (ascii "entryPoint")]) 32 = .ok () ∧
      abiDecodeBytesMemory (abiEncode [.bytes (ascii "entryPoint")]) 0
        = .ok (ascii "entryPoint") := by
    decide
  unfold staticcall P256SmartAccount.Callee.encode
  rw [← hsel, take_selector_append, drop_selector_append,
    if_neg (not_lt.mpr (four_le_length_selector_append _ _)), if_pos rfl, hname.1, ok_bind, hname.2,
    ok_bind]
  cases s.getRegistryAddress (ascii "entryPoint") with
  | error e => rfl
  | ok a => rfl

end EnclaveRegistry

/-! ### The verifier -/

/-- What a `P256V` over a `P256Verifier` makes of a hash. -/
theorem P256V.verify_signed (digest r s x y : Word) :
    ∃ accepted,
      (accepted = true ↔ ∃ key nonce, P256.KeyPair key x.toNat y.toNat ∧ 1 ≤ nonce ∧
        nonce < P256.n ∧ P256.sign key nonce digest.toNat = some (r.toNat, s.toNat)) ∧
      P256V.verify P256Verifier.call digest r s (x, y)
        = if digest.toBytes.take 4 = P256Verifier.ecdsaVerifySelector
          then .error (.reason "Verification failed") else .ok accepted := by
  obtain ⟨accepted, haccepted⟩ := P256.ecdsaVerify_total digest r s (x, y)
  refine ⟨accepted, ?_, ?_⟩
  · have hvalid : accepted = true ↔ P256Verifier.ecdsaVerify digest r s (x, y) = .ok true := by
      rw [haccepted, Except.ok.injEq]
    rw [hvalid, P256.ecdsaVerify_eq_true_iff]
    constructor
    · exact P256.sign_of_validSignature
    · rintro ⟨key, nonce, hkey, hpos, hlt, hsign⟩
      exact P256.validSignature_of_sign hkey hpos hlt hsign
  · split_ifs with hsel
    · exact P256V.verify_of_eq r s x y hsel
    · exact P256V.verify_of_ne hsel haccepted

/-! ### The account -/

namespace P256SmartAccount

section Checks

variable {env : Call → Reply} {st : Storage}

/-- The prefund is sent, and nothing is read of the reply. -/
theorem eval_payPrefund (sender : Address) (missingAccountFunds : Word) :
    (payPrefund sender missingAccountFunds).eval env st = .ok ((), st) := by
  unfold payPrefund
  split_ifs
  · rfl
  · rfl

/-- The prefund does not change what the validation returns. -/
theorem value_then_payPrefund (p : Prog Storage Word) (sender : Address)
    (missingAccountFunds : Word) :
    (p >>= fun validationData => payPrefund sender missingAccountFunds >>= fun _ =>
      Prog.pure validationData).value env st = p.value env st := by
  rw [Prog.value, Prog.eval_bind, Prog.value]
  cases p.eval env st with
  | error e => rfl
  | ok r =>
    rw [ok_bind, Prog.eval_bind, eval_payPrefund]
    rfl

end Checks

section Deployed

variable (d : Deployment) (verifier : Bytes → Result Bytes)

/-- The guard `_requireFromEntryPoint` asks the registry. -/
theorem value_requireFromEntryPoint {α : Type} (sender : Address) (p : Prog Storage α) :
    (requireFromEntryPoint sender >>= fun _ => p).value (d.env verifier) d.account
      = (d.registry.getRegistryAddress (ascii "entryPoint") >>= fun ep =>
          require (sender = ep) "account: not from EntryPoint" >>= fun _ =>
            p.value (d.env verifier) d.account) := by
  unfold requireFromEntryPoint entryPoint getRegistryAddress viewCall
  simp only [Prog.bind_assoc]
  rw [Prog.value_storage_bind, d.account_registry, Prog.value_callOrRevert_bind, d.env_registry,
    EnclaveRegistry.staticcall_entryPoint]
  cases d.registry.getRegistryAddress (ascii "entryPoint") with
  | error e => rfl
  | ok ep =>
    rw [Except.map, ok_bind, Prog.value_lift_bind, abiDecodeAddress_encode, ok_bind,
      Prog.value_lift_bind, ok_bind]

/-- What is encoded is checked. -/
theorem value_acceptsSignature_encodePasskey (sig : Passkey)
    (hlen : (encodePasskey sig).length < 2 ^ 64) (hash : Word) :
    (acceptsSignature hash (encodePasskey sig)).value (d.env verifier) d.account
      = (verifySignature sig.authenticatorData sig.clientDataJSONPre sig.clientDataJSONPost hash
          sig.r sig.s).value (d.env verifier) d.account := by
  have hdecode := decodePasskey_encodePasskey sig hlen []
  rw [List.append_nil] at hdecode
  rw [acceptsSignature, Prog.value_lift_bind, hdecode, ok_bind]

end Deployed

/-- What the authenticator signs. -/
def Passkey.digest (sig : Passkey) (hash : Word) : Word :=
  sigHash sig.authenticatorData sig.clientDataJSONPre sig.clientDataJSONPost hash

/-- The key of the account has signed the digest of the hash, with some nonce. -/
def Signed (d : Deployment) (sig : Passkey) (hash : Word) : Prop :=
  ∃ key nonce, P256.KeyPair key d.account.pubKey.1.toNat d.account.pubKey.2.toNat ∧
    1 ≤ nonce ∧ nonce < P256.n ∧
    P256.sign key nonce (sig.digest hash).toNat = some (sig.r.toNat, sig.s.toNat)

/-- The digest is taken for a call of `ecdsa_verify`. -/
def Mistaken (sig : Passkey) (hash : Word) : Prop :=
  (sig.digest hash).toBytes.take 4 = P256Verifier.ecdsaVerifySelector

instance (sig : Passkey) (hash : Word) : Decidable (Mistaken sig hash) :=
  inferInstanceAs (Decidable (_ = _))

section Answers

variable (d : Deployment) (precompileAddress : Address)

/-- The account's `_verifySignature` over a `P256V`. -/
theorem verifySignature_signed (sig : Passkey) (hash : Word) :
    ∃ accepted, (accepted = true ↔ Signed d sig hash) ∧
      (verifySignature sig.authenticatorData sig.clientDataJSONPre sig.clientDataJSONPost hash
        sig.r sig.s).value (d.env (Verifier.p256V precompileAddress).code) d.account
        = if Mistaken sig hash then .error (.reason "Verification failed") else .ok accepted := by
  obtain ⟨accepted, haccepted, hverify⟩ := P256V.verify_signed (sig.digest hash) sig.r sig.s
    d.account.pubKey.1 d.account.pubKey.2
  refine ⟨accepted, haccepted, ?_⟩
  rw [d.value_verifySignature, Verifier.code, P256V.call_verify]
  show ((P256V.verify P256Verifier.call (sig.digest hash) sig.r sig.s _).map _ >>= _) = _
  rw [hverify]
  by_cases hsel : (sig.digest hash).toBytes.take 4 = P256Verifier.ecdsaVerifySelector
  · rw [if_pos hsel, if_pos (show Mistaken sig hash from hsel)]
    rfl
  · rw [if_neg hsel, if_neg (show ¬Mistaken sig hash from hsel), Except.map, ok_bind,
      P256V.abiDecodeBool_verdict]

/-- The arguments of `isValidSignature`. -/
def signatureParts (hash : Word) (signature : Bytes) : List Part :=
  [.static hash, bytesPart signature]

/-- What `isValidSignature` runs on its calldata. -/
theorem body_isValidSignature (this logic sender : Address) (static : Bool) (hash : Word)
    (signature : Bytes) (hlen : (encodeParts (signatureParts hash signature)).length < 2 ^ 64) :
    body this logic ⟨sender, 0, Method.isValidSignature.selector ++
        encodeParts (signatureParts hash signature), static⟩
      = returnWord (isValidSignature hash signature) := by
  have hword : abiDecodeWord (encodeParts (signatureParts hash signature) ++ []) 0 = .ok hash :=
    decodeWord_encodeParts (i := 0) rfl []
  have hbytes : abiDecodeBytesMemory (encodeParts (signatureParts hash signature) ++ []) 32
      = .ok signature := decodeBytes_encodeParts hlen (i := 1) rfl []
  have hhead := requireHead_encodeParts (signatureParts hash signature) [] (n := 64) le_rfl
  rw [List.append_nil] at hword hbytes hhead
  rw [body_append]
  simp only [run]
  rw [hhead, hword, hbytes]
  rfl

open Classical in
/-- What the account answers about the hash, `yes` or `no` by whether its key has signed. -/
noncomputable def answer (sig : Passkey) (hash yes no : Word) : Result Bytes :=
  if Mistaken sig hash then .error (.reason "Verification failed")
  else .ok (abiEncode [.word (if Signed d sig hash then yes else no)])

/-- Both checks answer with what `acceptsSignature` comes to. -/
theorem value_returnWord_acceptsSignature (sig : Passkey)
    (hlen : (encodePasskey sig).length < 2 ^ 64) (hash yes no : Word) :
    ((acceptsSignature hash (encodePasskey sig) >>= fun accepted =>
        Prog.pure (if accepted then yes else no)).value
        (d.env (Verifier.p256V precompileAddress).code) d.account).map
          (fun w => abiEncode [.word w]) = answer d sig hash yes no := by
  obtain ⟨accepted, hsigned, hverify⟩ := verifySignature_signed d precompileAddress sig hash
  rw [Prog.value_bind_pure, value_acceptsSignature_encodePasskey d _ sig hlen, hverify, answer]
  by_cases hmistaken : Mistaken sig hash
  · rw [if_pos hmistaken, if_pos hmistaken]
    rfl
  · rw [if_neg hmistaken, if_neg hmistaken, Except.map, Except.map]
    by_cases h : accepted = true
    · rw [if_pos h, if_pos (hsigned.mp h)]
    · rw [if_neg h, if_neg fun hs => h (hsigned.mpr hs)]

/-- The encodings of a signature in the two calls. -/
theorem length_signatureParts_le (op : UserOperation) (userOpHash missingAccountFunds : Word) :
    (encodeParts (signatureParts userOpHash op.signature)).length
      ≤ (encodeParts (validationParts op userOpHash missingAccountFunds)).length := by
  have hop : (encodeParts op.parts).length
      ≤ (encodeParts (validationParts op userOpHash missingAccountFunds)).length :=
    length_tail_le (i := 0) rfl
  rw [length_encodeParts] at hop ⊢
  simp only [signatureParts, UserOperation.parts, bytesPart, List.flatMap_cons, List.flatMap_nil,
    Part.tail, List.length_append, List.length_cons, List.length_nil] at hop ⊢
  omega

/-- **What a passkey signs, its account accepts.**  The entry point is the address that the owner of
the registry has named last; nobody else is answered by `validateUserOp`.  The entry point gets `0`,
and whoever asks `isValidSignature` the magic value, exactly when the account's key has signed the
digest, unless the digest starts with the selector of `ecdsa_verify`: then both revert. -/
theorem validateUserOp_signed {owner : Address} {updates : List EnclaveRegistry.Update}
    (hregistry : d.registry = EnclaveRegistry.stateAfter owner updates)
    (op : UserOperation) (sig : Passkey) (hsig : op.signature = encodePasskey sig)
    (userOpHash missingAccountFunds : Word)
    (hlen : (encodeParts (validationParts op userOpHash missingAccountFunds)).length + 4
      < 2 ^ 64) (sender : Address) :
    (body d.accountAddress d.logicAddress ⟨sender, 0, Method.validateUserOp.selector ++
        encodeParts (validationParts op userOpHash missingAccountFunds), false⟩).value
        (d.env (Verifier.p256V precompileAddress).code) d.account
      = (if EnclaveRegistry.latest owner (ascii "entryPoint") updates = 0
        then .error (.reason "Registry: Entry doesn't exist")
        else if sender ≠ EnclaveRegistry.latest owner (ascii "entryPoint") updates
        then .error (.reason "account: not from EntryPoint")
        else answer d sig userOpHash 0 1) ∧
    ∀ static, (body d.accountAddress d.logicAddress ⟨sender, 0, Method.isValidSignature.selector ++
        encodeParts (signatureParts userOpHash op.signature), static⟩).value
        (d.env (Verifier.p256V precompileAddress).code) d.account
      = answer d sig userOpHash ((0x1626ba7e : Word) <<< 224) ((0xffffffff : Word) <<< 224) := by
  have hparts := length_signatureParts_le op userOpHash missingAccountFunds
  have hbytes : op.signature.length
      ≤ (encodeParts (signatureParts userOpHash op.signature)).length :=
    length_le_bytesPart (i := 1) rfl
  have hpasskey : (encodePasskey sig).length < 2 ^ 64 := by
    rw [← hsig]
    omega
  have hep : d.registry.registry (ascii "entryPoint")
      = EnclaveRegistry.latest owner (ascii "entryPoint") updates := by
    rw [hregistry, (EnclaveRegistry.registry_stateAfter owner updates).2]
  have hbody : body d.accountAddress d.logicAddress ⟨sender, 0, Method.validateUserOp.selector ++
      encodeParts (validationParts op userOpHash missingAccountFunds), false⟩
      = returnWord (validateUserOp sender (.ok op.signature) userOpHash missingAccountFunds) :=
    (Entries.runsEncoded (decodes d.accountAddress d.logicAddress)).validateUserOp sender false op
      userOpHash missingAccountFunds hlen
  constructor
  · rw [hbody, returnWord, Prog.value_bind_pure, validateUserOp, value_requireFromEntryPoint,
      value_then_payPrefund, EnclaveRegistry.getRegistryAddress, hep,
      ← value_returnWord_acceptsSignature d precompileAddress sig hpasskey userOpHash 0 1, hsig,
      validateSignature, Prog.value_lift_bind, ok_bind]
    by_cases hzero : EnclaveRegistry.latest owner (ascii "entryPoint") updates = 0
    · rw [if_pos hzero, require, if_neg (not_not.mpr hzero)]
      rfl
    rw [if_neg hzero, require_true hzero, ok_bind, ok_bind]
    by_cases hsender : sender = EnclaveRegistry.latest owner (ascii "entryPoint") updates
    · rw [if_neg (not_not.mpr hsender), require_true hsender, ok_bind]
    · rw [if_pos hsender, require, if_neg hsender]
      rfl
  · intro static
    rw [body_isValidSignature _ _ _ _ _ _ (by omega), returnWord, Prog.value_bind_pure, hsig]
    exact value_returnWord_acceptsSignature d precompileAddress sig hpasskey userOpHash _ _

end Answers

/-! ### A key that signs -/

/-- The key `G` with the nonce one. -/
theorem sign_one {digest : Word} (h : (digest.toNat + P256.GX) % P256.n ≠ 0) :
    P256.sign 1 1 digest.toNat
      = some ((signature digest).1.toNat, (signature digest).2.toNat) := by
  have habscissa : P256.abscissa (1 • P256.base) = P256.GX := by
    rw [one_nsmul]
    exact ZMod.val_natCast_of_lt (show P256.GX < P256.p by decide)
  have hs : (((1 : ℕ) : ZMod P256.n)⁻¹ * ((digest.toNat : ZMod P256.n)
      + (P256.GX % P256.n : ℕ) * (1 : ℕ))).val = (digest.toNat + P256.GX) % P256.n := by
    rw [Nat.cast_one, inv_one, one_mul, mul_one, ← Nat.cast_add, ZMod.val_natCast, Nat.add_mod_mod]
  have hfirst : (signature digest).1.toNat = P256.GX % P256.n := by
    rw [signature, BitVec.toNat_ofNat, Nat.mod_eq_of_lt]
    exact (Nat.mod_lt _ P256.n_pos).trans P256.n_lt
  have hsecond : (signature digest).2.toNat = (digest.toNat + P256.GX) % P256.n := by
    rw [signature, BitVec.toNat_ofNat, Nat.mod_eq_of_lt]
    exact (Nat.mod_lt _ P256.n_pos).trans P256.n_lt
  dsimp only [P256.sign]
  rw [habscissa, hs, hfirst, hsecond, if_neg]
  rintro (hzero | hzero)
  · exact absurd hzero (by decide)
  · exact h hzero

/-- The owner `9` names a verifier and an entry point, and someone else tries to. -/
def sampleUpdates : List EnclaveRegistry.Update :=
  [⟨9, ascii "p256Verifier", 3⟩, ⟨9, ascii "entryPoint", 6⟩, ⟨9, ascii "entryPoint", 7⟩,
    ⟨8, ascii "entryPoint", 8⟩, ⟨9, ascii "entryPoint", 0⟩]

/-- The account of the key `G`, whose registry was filled by these calls. -/
def signingDeployment : Deployment :=
  { MultichainPasskeyValidator.sampleDeployment with
    registry := EnclaveRegistry.stateAfter 9 sampleUpdates
    registered := by decide }

/-- The key `G` signs the hash `1`. -/
def signedPasskey : Passkey :=
  let sig := signature (sigHash [] textStart textEnd 1)
  ⟨0, sig.1, sig.2, [], textStart, textEnd⟩

def signedOp : UserOperation where
  sender := 5
  nonce := 0
  initCode := []
  callData := []
  callGasLimit := 0
  verificationGasLimit := 0
  preVerificationGas := 0
  maxFeePerGas := 0
  maxPriorityFeePerGas := 0
  paymasterAndData := []
  signature := encodePasskey signedPasskey

theorem signed_signedPasskey : Signed signingDeployment signedPasskey 1 := by
  have hpoint : P256.Encodes P256.GX P256.GY (1 • P256.base) := by
    rw [one_nsmul]
    exact P256.encodes_base
  have hdigest : signedPasskey.digest 1 = sigHash [] textStart textEnd 1 := rfl
  have hne : ((sigHash [] textStart textEnd 1).toNat + P256.GX) % P256.n ≠ 0 := by
    decide +kernel
  refine ⟨1, 1, ⟨le_rfl, by decide, hpoint⟩, le_rfl, by decide, ?_⟩
  rw [hdigest]
  exact sign_one hne

theorem not_mistaken_signedPasskey : ¬Mistaken signedPasskey 1 := by
  rw [Mistaken, P256V.ecdsaVerifySelector_eq]
  decide +kernel

/-- The operation is accepted from the entry point, and by nobody else. -/
theorem validateUserOp_signedOp :
    let reply := fun sender => (body 5 4 ⟨sender, 0, Method.validateUserOp.selector ++
      encodeParts (validationParts signedOp 1 10), false⟩).value
        (signingDeployment.env (Verifier.p256V 2).code) accountG
    reply 7 = .ok (abiEncode [.word 0]) ∧
    reply 8 = .error (.reason "account: not from EntryPoint") := by
  intro reply
  have hlatest : EnclaveRegistry.latest 9 (ascii "entryPoint") sampleUpdates = 7 := by decide
  have hanswer : answer signingDeployment signedPasskey 1 0 1 = .ok (abiEncode [.word 0]) := by
    rw [answer, if_neg not_mistaken_signedPasskey, if_pos signed_signedPasskey]
  have hregistry : signingDeployment.registry = EnclaveRegistry.stateAfter 9 sampleUpdates := rfl
  have hreply := fun sender => (validateUserOp_signed signingDeployment 2 hregistry signedOp
    signedPasskey rfl 1 10 (by decide +kernel) sender).1
  constructor
  · refine (hreply 7).trans ?_
    rw [hlatest, if_neg (by decide), if_neg (by decide), hanswer]
  · refine (hreply 8).trans ?_
    rw [hlatest, if_neg (by decide), if_pos (by decide)]

end P256SmartAccount

end Enclave
