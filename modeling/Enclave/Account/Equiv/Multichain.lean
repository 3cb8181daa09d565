import Enclave.Account.Deployment
import Enclave.Account.Equiv.Signature
import Enclave.Paymaster.Equiv.Approval

/-!
# What the multichain module authorises

The Merkle check is sound: leaves are 44 bytes long and nodes are 64, so `encoding` keeps them apart
and the general theorem on sorted-pair proofs applies (`authorise_sound`).

The window that is hashed into a leaf goes no further: an accepted operation is answered with the
word zero, in which the entry point reads no limit at all (`validateUserOp_window_iff`).
-/

namespace Enclave.MultichainPasskeyValidator

/-! ### Leaves and nodes -/

theorem length_leafPreimage (a : Authorisation) : (leafPreimage a).length = 44 := by
  simp [leafPreimage]

theorem leafPreimage_injective : Function.Injective leafPreimage := by
  intro a b h
  obtain ⟨hwindow, hhash⟩ := List.append_inj h (by simp)
  obtain ⟨huntil, hafter⟩ := List.append_inj hwindow (by simp)
  have hu := BitVec.eq_of_toNat_eq (toBytesBE_inj a.validUntil.isLt b.validUntil.isLt huntil)
  have ha := BitVec.eq_of_toNat_eq (toBytesBE_inj a.validAfter.isLt b.validAfter.isLt hafter)
  have hh := Word.toBytes_injective hhash
  cases a
  cases b
  simp only at hu ha hh
  rw [hu, ha, hh]

theorem separated_encoding : encoding.Separated where
  leaf_inj h := leafPreimage_injective h
  node_inj h := by
    obtain ⟨hx, hy⟩ := List.append_inj h (by simp)
    exact ⟨Word.toBytes_injective hx, Word.toBytes_injective hy⟩
  leaf_ne_node a x y h := by
    have hlen := congrArg List.length h
    simp only [encoding, length_leafPreimage, List.length_append, Word.length_toBytes] at hlen
    omega

/-! ### The check -/

/-- What the first part of `validateUserOp` has established when it goes on. -/
theorem authorise_eq_ok {userOp : UserOperation} {userOpHash : Word} {m : ModuleSignature} :
    authorise userOp userOpHash = .ok m ↔
      (∃ moduleSignature, decodeModule userOp.signature = .ok moduleSignature ∧
        decodeModuleSignature moduleSignature = .ok m) ∧
      merkleVerify m.merkleProof m.merkleTreeRoot
        (leaf ⟨m.validUntil, m.validAfter, userOpHash⟩) = true := by
  unfold authorise
  constructor
  · intro h
    obtain ⟨moduleSignature, hmodule, h⟩ := bind_eq_ok.mp h
    obtain ⟨m', hm, h⟩ := bind_eq_ok.mp h
    obtain ⟨u, hproof, h⟩ := bind_eq_ok.mp h
    cases h
    exact ⟨⟨moduleSignature, hmodule, hm⟩, require_eq_ok.mp hproof⟩
  · rintro ⟨⟨moduleSignature, hmodule, hm⟩, hproof⟩
    rw [hmodule, ok_bind, hm, ok_bind, require_true hproof, ok_bind]

/-- The root of a tree of authorisations. -/
def treeRoot (t : Merkle.Tree Authorisation) : Word := t.root less encoding keccak256

/-- What is hashed in a tree, for a leaf, and along its proof. -/
def hashed (t : Merkle.Tree Authorisation) (a : Authorisation) (proof : List Word) : Set Bytes :=
  t.preimages less encoding keccak256 ∪
    ({leafPreimage a} ∪ Merkle.walk less encoding keccak256 proof (leaf a))

/-- **Soundness of the authorisation**: without a collision, an operation that passes the check with
the root of a tree is one of the leaves of the tree, with its window.  Its leaf is not the digest of
a node, no step of the proof starts below a leaf, and no other authorisation has the same leaf. -/
theorem authorise_sound {t : Merkle.Tree Authorisation} {userOp : UserOperation} {userOpHash : Word}
    {m : ModuleSignature} (h : authorise userOp userOpHash = .ok m)
    (hroot : m.merkleTreeRoot = treeRoot t)
    (hcoll : Set.InjOn keccak256
      (hashed t ⟨m.validUntil, m.validAfter, userOpHash⟩ m.merkleProof)) :
    let a : Authorisation := ⟨m.validUntil, m.validAfter, userOpHash⟩
    a ∈ t.leaves ∧
    (∀ b ∈ t.leaves, leaf b = leaf a → b = a) ∧
    (∀ x y, encoding.node x y ∈ hashed t a m.merkleProof →
      ∀ b ∈ t.leaves, leaf b ≠ keccak256 (encoding.node x y)) := by
  intro a
  obtain ⟨-, hproof⟩ := authorise_eq_ok.mp h
  have hmem : a ∈ t.leaves := by
    apply Merkle.mem_leaves_of_processProof separated_encoding hcoll
    have hwalk : processProof m.merkleProof (leaf a) = m.merkleTreeRoot := beq_iff_eq.mp hproof
    exact hwalk.trans hroot
  have hleaf : ∀ b ∈ t.leaves, leafPreimage b ∈ hashed t a m.merkleProof := fun b hb =>
    Or.inl (Merkle.leaf_mem_preimages hb)
  refine ⟨hmem, fun b hb heq => ?_, fun x y hnode b hb heq => ?_⟩
  · exact leafPreimage_injective (hcoll (hleaf b hb) (hleaf a hmem) heq)
  · exact separated_encoding.leaf_ne_node b x y (hcoll (hleaf b hb) hnode heq)

/-! ### The window -/

/-- An answer comes from an operation that passed the Merkle check, and is zero or one. -/
theorem validateUserOp_eq_ok {env : Call → Reply} {st : Storage} {sender : Address}
    {userOp : UserOperation} {userOpHash data : Word}
    (h : (validateUserOp sender userOp userOpHash).value env st = .ok data) :
    (∃ m, authorise userOp userOpHash = .ok m) ∧ (data = 0 ∨ data = 1) := by
  unfold validateUserOp at h
  rw [Prog.value_lift_bind] at h
  obtain ⟨m, hm, h⟩ := bind_eq_ok.mp h
  rw [Prog.value_lift_bind] at h
  obtain ⟨sig, -, h⟩ := bind_eq_ok.mp h
  rw [Prog.value_bind_pure] at h
  obtain ⟨accepted, -, rfl⟩ := map_eq_ok.mp h
  refine ⟨⟨m, hm⟩, ?_⟩
  cases accepted
  · exact Or.inr rfl
  · exact Or.inl rfl

/-- The fields for `validUntil` and `validAfter` of an answer. -/
def window (validationData : Word) : Uint48 × Uint48 :=
  ((validationData >>> 160).setWidth 48, (validationData >>> 208).setWidth 48)

/-- **The window is dropped**: the answer to an accepted operation holds the window of its leaf only
if both ends are zero, and the entry point reads the window of the leaf in it only if the leaf sets
no limit. -/
theorem validateUserOp_window_iff {env : Call → Reply} {st : Storage} {sender : Address}
    {userOp : UserOperation} {userOpHash data : Word}
    (h : (validateUserOp sender userOp userOpHash).value env st = .ok data)
    (hauth : authorizer data = 0) :
    ∃ m, authorise userOp userOpHash = .ok m ∧
      (window data = (m.validUntil, m.validAfter) ↔ m.validUntil = 0 ∧ m.validAfter = 0) ∧
      (parseValidationData data
          = parseValidationData (packValidationData false m.validUntil m.validAfter) ↔
        (m.validUntil = 0 ∨ m.validUntil = BitVec.allOnes 48) ∧ m.validAfter = 0) := by
  -- the answer is the bare 0 or 1 of the signature check: the window of the leaf is not packed
  obtain ⟨⟨m, hm⟩, rfl | rfl⟩ := validateUserOp_eq_ok h
  swap
  · exact absurd hauth (by decide)
  refine ⟨m, hm, ?_, ?_⟩
  · rw [Prod.ext_iff]
    exact and_congr eq_comm eq_comm
  -- the entry point reads a zero `validUntil` as no limit, so two values of it are read alike
  · have hzero : parseValidationData 0 = ⟨0, 0, BitVec.allOnes 48⟩ := by decide
    rw [parseValidationData_packValidationData, hzero, ValidationData.mk.injEq]
    by_cases huntil : m.validUntil = 0
    · rw [if_pos huntil]
      exact ⟨fun heq => ⟨Or.inl huntil, heq.2.1.symm⟩, fun heq => ⟨rfl, heq.2.symm, rfl⟩⟩
    · rw [if_neg huntil]
      constructor
      · rintro ⟨-, hafter, hall⟩
        exact ⟨Or.inr hall.symm, hafter.symm⟩
      · rintro ⟨hlimit, hafter⟩
        exact ⟨rfl, hafter.symm, (hlimit.resolve_left huntil).symm⟩

/-! ### An operation that has expired -/

/-- An operation that may run from `1690000000` to `1700000000`. -/
def limited : Authorisation := ⟨1700000000, 1690000000, 7⟩

/-- An operation without limits. -/
def unlimited : Authorisation := ⟨0, 0, 8⟩

/-- The tree of both operations. -/
def sampleTree : Merkle.Tree Authorisation := .node (.leaf limited) (.leaf unlimited)

def limitedLeaf : Word := 0xb722a8da4363765dac0a07c96e84f5ca9e6a37db23cc4c144acd2118edeac03e

def unlimitedLeaf : Word := 0x1022ba0501e1bb771d0adf9cd1f6e182ee5ba40cbd20eff9293dd8b53eea7f45

def sampleRoot : Word := 0x58632999051723a9cd45cf4eab3246b21245d2a00e0a9bf1579bf83ce91099b9

theorem leaf_limited : keccak256 (encoding.leaf limited) = limitedLeaf := by
  decide +kernel

theorem leaf_unlimited : keccak256 (encoding.leaf unlimited) = unlimitedLeaf := by
  decide +kernel

theorem hashPair_leaves :
    Merkle.hashPair less encoding keccak256 limitedLeaf unlimitedLeaf = sampleRoot := by
  decide +kernel

theorem treeRoot_sampleTree : treeRoot sampleTree = sampleRoot := by
  rw [treeRoot, sampleTree, Merkle.Tree.root, Merkle.Tree.root, Merkle.Tree.root, leaf_limited,
    leaf_unlimited, hashPair_leaves]

/-- `abi.encode` of what the signature of an operation holds. -/
def encodeModuleSignature (m : ModuleSignature) : Bytes :=
  let sigOffset : ℕ := 192 + 32 * m.merkleProof.length
  (toWord m.validUntil).toBytes ++ (toWord m.validAfter).toBytes ++ m.merkleTreeRoot.toBytes ++
    toBytesBE 32 160 ++ toBytesBE 32 sigOffset ++
    toBytesBE 32 m.merkleProof.length ++ m.merkleProof.flatMap Word.toBytes ++
    abiTail (.bytes m.multichainSignature)

/-- The digest of the root of the tree, in the text between `textStart` and `textEnd`. -/
def sampleDigest : Word := 0x71465ccde133780609441dea5aa68cf19650de8a9db11a5f1aefb4bb222e3c61

/-- The key `G` has signed the root of the tree. -/
def limitedSignature : ModuleSignature :=
  let sig := P256SmartAccount.signature sampleDigest
  ⟨limited.validUntil, limited.validAfter, sampleRoot, [unlimitedLeaf],
    abiEncode [.word 0, .word sig.1, .word sig.2, .bytes [], .bytes P256SmartAccount.textStart,
      .bytes P256SmartAccount.textEnd]⟩

/-- The operation with the hash `7`. -/
def limitedOp : UserOperation where
  sender := 5
  nonce := 0
  initCode := []
  callData := []
  callGasLimit := 0
  verificationGasLimit := 0
  preVerificationGas := 0
  maxFeePerGas := 0
  maxPriorityFeePerGas := 0
  paymasterAndData := []
  signature := abiEncode [.bytes (encodeModuleSignature limitedSignature), addressValue 6]

/-- The account of the key `G` at address 5, with a registry that names the verifier at 3. -/
def sampleDeployment : Deployment where
  registryAddress := 1
  verifierAddress := 3
  accountAddress := 5
  moduleAddress := 6
  logicAddress := 4
  registry := ⟨9, fun name => if name = ascii "p256Verifier" then 3 else 0⟩
  account := P256SmartAccount.accountG
  outside _ := .error .empty
  registered := by decide
  verifier_ne_zero := by decide
  account_registry := rfl
  verifier_ne_registry := by decide
  account_ne_registry := by decide
  account_ne_verifier := by decide

set_option maxRecDepth 100000 in
theorem authorise_limitedOp : authorise limitedOp 7 = .ok limitedSignature := by
  have hproof : merkleVerify [unlimitedLeaf] sampleRoot (leaf limited) = true := by
    have hleaf : leaf limited = limitedLeaf := leaf_limited
    rw [hleaf, merkleVerify, beq_iff_eq]
    exact hashPair_leaves
  exact authorise_eq_ok.mpr ⟨⟨encodeModuleSignature limitedSignature, rfl, rfl⟩, hproof⟩

set_option maxRecDepth 100000 in
theorem value_limitedOp :
    (validateUserOp 5 limitedOp 7).value (sampleDeployment.env P256Verifier.call)
      sampleDeployment.validator = .ok 0 := by
  rw [validateUserOp, Prog.value_lift_bind, authorise_limitedOp, ok_bind]
  decide +kernel

/-- The operation is accepted, and the answer has lost its window. -/
theorem window_limitedOp :
    (validateUserOp 5 limitedOp 7).value (sampleDeployment.env P256Verifier.call)
      sampleDeployment.validator = .ok 0 ∧
    authorizer 0 = 0 ∧ authorise limitedOp 7 = .ok limitedSignature ∧
    window 0 ≠ (limitedSignature.validUntil, limitedSignature.validAfter) ∧
    (parseValidationData 0).validUntil = BitVec.allOnes 48 :=
  ⟨value_limitedOp, by decide, authorise_limitedOp, by decide, by decide⟩

theorem not_unlimited_limitedOp :
    ∃ m, authorise limitedOp 7 = .ok m ∧ m.validUntil = 1700000000 ∧
      parseValidationData 0
        ≠ parseValidationData (packValidationData false m.validUntil m.validAfter) := by
  obtain ⟨m, hm, -, hparse⟩ := validateUserOp_window_iff value_limitedOp (by decide)
  have heq : limitedSignature = m := Except.ok.inj (authorise_limitedOp.symm.trans hm)
  refine ⟨m, hm, by rw [← heq]; rfl, fun h => ?_⟩
  have hafter := (hparse.mp h).2
  rw [← heq] at hafter
  exact absurd hafter (by decide)

/-- The strings that are hashed for the tree. -/
def sampleStrings : List Bytes :=
  [Merkle.pair less encoding limitedLeaf unlimitedLeaf, leafPreimage limited,
    leafPreimage unlimited]

theorem injOn_sampleStrings : Set.InjOn keccak256
    (hashed sampleTree limited [unlimitedLeaf]) := by
  have hnodup : (sampleStrings.map keccak256).Nodup := by
    show [Merkle.hashPair less encoding keccak256 limitedLeaf unlimitedLeaf,
      keccak256 (encoding.leaf limited), keccak256 (encoding.leaf unlimited)].Nodup
    rw [leaf_limited, leaf_unlimited, hashPair_leaves]
    decide
  have hmem : ∀ x ∈ hashed sampleTree limited [unlimitedLeaf], x ∈ sampleStrings := by
    intro x hx
    have hleaf : leaf limited = limitedLeaf := leaf_limited
    simp only [hashed, sampleTree, Merkle.Tree.preimages, Merkle.Tree.root, Merkle.walk,
      Set.mem_union, Set.mem_singleton_iff, Set.mem_empty_iff_false, or_false, leaf_limited,
      leaf_unlimited, hleaf] at hx
    simp only [sampleStrings, List.mem_cons, List.not_mem_nil, or_false]
    rcases hx with (hnode | hlimited | hunlimited) | hlimited | hnode
    · exact Or.inl hnode
    · exact Or.inr (Or.inl hlimited)
    · exact Or.inr (Or.inr hunlimited)
    · exact Or.inr (Or.inl hlimited)
    · exact Or.inl hnode
  exact fun x hx y hy hxy => List.inj_on_of_nodup_map hnodup (hmem x hx) (hmem y hy) hxy

theorem limited_mem_leaves : limited ∈ sampleTree.leaves :=
  (authorise_sound authorise_limitedOp treeRoot_sampleTree.symm injOn_sampleStrings).1

end Enclave.MultichainPasskeyValidator
