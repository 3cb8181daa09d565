import Enclave.Account.EnclaveRegistry
import Enclave.Account.Equiv.Base64URL
import Enclave.Account.P256SmartAccount
import Enclave.P256.P256V
import Mathlib.Data.Set.Function

/-!
# What a passkey signature binds

A signature is checked against the digest of `authenticatorData` and of a client data text that the
account assembles from a prefix, the encoded hash and a postfix.  Without a collision of `sha256`
the digest fixes the two parts (`digest_binds`), but not where in the text the challenge stands: the
account looks at no other part of the text.  Two hashes share a digest exactly when both of their
encodings occur in the text, and `verifySignature_resplit` says that hashes with the same place are
equal.
-/

namespace Enclave.P256SmartAccount

/-- The byte strings that are hashed on the way to a digest. -/
def preimages (authenticatorData pre post : Bytes) (hash : Word) : Set Bytes :=
  {clientDataJSON pre post hash,
    authenticatorData ++ (sha256 (clientDataJSON pre post hash)).toBytes}

/-- The part of a text that a challenge of 43 characters at place `i` takes. -/
def challengeAt (text : Bytes) (i : ℕ) : Bytes := (text.drop i).take 43

/-- The challenge stands where the prefix ends. -/
theorem challengeAt_clientDataJSON (pre post : Bytes) (hash : Word) :
    challengeAt (clientDataJSON pre post hash) pre.length = Base64URL.encode hash.toBytes := by
  unfold challengeAt clientDataJSON
  rw [List.append_assoc, List.drop_left, ← Base64URL.length_encode_hash hash, List.take_left]

theorem encode_hash_inj {hash hash' : Word} :
    Base64URL.encode hash.toBytes = Base64URL.encode hash'.toBytes ↔ hash = hash' := by
  constructor
  · intro h
    exact Word.toBytes_injective (Base64URL.encode_injective h)
  · intro h
    rw [h]

/-- Without a collision, the digest fixes the authenticator data and the text. -/
theorem digest_binds {authenticatorData authenticatorData' pre pre' post post' : Bytes}
    {hash hash' : Word}
    (hcoll : Set.InjOn sha256
      (preimages authenticatorData pre post hash ∪ preimages authenticatorData' pre' post' hash'))
    (hdigest : sigHash authenticatorData pre post hash
      = sigHash authenticatorData' pre' post' hash') :
    authenticatorData = authenticatorData' ∧
      clientDataJSON pre post hash = clientDataJSON pre' post' hash' := by
  have houter := hcoll (Or.inl (Or.inr rfl)) (Or.inr (Or.inr rfl)) hdigest
  -- the inner digest is the last 32 bytes
  obtain ⟨hauth, hinner⟩ := List.append_inj' houter (by rw [Word.length_toBytes,
    Word.length_toBytes])
  have htext := hcoll (Or.inl (Or.inl rfl)) (Or.inr (Or.inl rfl)) (Word.toBytes_injective hinner)
  exact ⟨hauth, htext⟩

/-- The question put to the verifier depends on the digest alone. -/
theorem verifySignature_congr {authenticatorData authenticatorData' pre pre' post post' : Bytes}
    {hash hash' : Word} (hdigest : sigHash authenticatorData pre post hash
      = sigHash authenticatorData' pre' post' hash') (r s : Word) :
    verifySignature authenticatorData pre post hash r s
      = verifySignature authenticatorData' pre' post' hash' r s := by
  unfold verifySignature
  rw [hdigest]

/-- **What one signature authorises**: two hashes with the same digest come from one text, they are
accepted together, and they are equal exactly when the text reads the same at the two places where
they stand; so at one place there is at most one. -/
theorem verifySignature_resplit
    {authenticatorData authenticatorData' pre pre' post post' : Bytes} {hash hash' : Word}
    (hcoll : Set.InjOn sha256
      (preimages authenticatorData pre post hash ∪ preimages authenticatorData' pre' post' hash'))
    (hdigest : sigHash authenticatorData pre post hash
      = sigHash authenticatorData' pre' post' hash') :
    (∀ r s, verifySignature authenticatorData pre post hash r s
      = verifySignature authenticatorData' pre' post' hash' r s) ∧
    authenticatorData = authenticatorData' ∧
    clientDataJSON pre post hash = clientDataJSON pre' post' hash' ∧
    (hash = hash' ↔ challengeAt (clientDataJSON pre post hash) pre.length
      = challengeAt (clientDataJSON pre post hash) pre'.length) ∧
    (pre.length = pre'.length → hash = hash' ∧ pre = pre' ∧ post = post') := by
  obtain ⟨hauth, htext⟩ := digest_binds hcoll hdigest
  have hplaces : hash = hash' ↔ challengeAt (clientDataJSON pre post hash) pre.length
      = challengeAt (clientDataJSON pre post hash) pre'.length := by
    rw [challengeAt_clientDataJSON, htext, challengeAt_clientDataJSON, encode_hash_inj]
  refine ⟨verifySignature_congr hdigest, hauth, htext, hplaces, fun hlen => ?_⟩
  have hhash : hash = hash' := hplaces.mpr (by rw [hlen])
  -- with equal prefixes' lengths the text is cut in the same way
  have hcut : pre ++ (Base64URL.encode hash.toBytes ++ post)
      = pre' ++ (Base64URL.encode hash'.toBytes ++ post') := by
    rw [← List.append_assoc, ← List.append_assoc]
    exact htext
  obtain ⟨hpre, hrest⟩ := List.append_inj hcut hlen
  obtain ⟨-, hpost⟩ := List.append_inj hrest (by rw [hhash])
  exact ⟨hhash, hpre, hpost⟩

/-! ### One text with two challenges -/

/-- The start of a client data text, up to its challenge. -/
def textStart : Bytes := ascii "\x7b\"type\":\"webauthn.get\",\"challenge\":\""

/-- What stands between the challenge and the first label of the host name of the origin. -/
def textOrigin : Bytes := ascii "\",\"origin\":\"https://"

def textEnd : Bytes := ascii ".example\"\x7d"

/-- A text signed for the hash `1`, on a page whose host name starts with the encoding of the hash
`2`, cut at its challenge and at its origin. -/
def cuts : (Bytes × Bytes × Word) × (Bytes × Bytes × Word) :=
  ((textStart, textOrigin ++ Base64URL.encode (Word.toBytes 2) ++ textEnd, 1),
    (textStart ++ Base64URL.encode (Word.toBytes 1) ++ textOrigin, textEnd, 2))

/-- An account with the key `G`, whose registry is at address 1. -/
def accountG : Storage where
  guardians := []
  isGuardian _ := false
  enclaveRegistry := 1
  pubKey := (BitVec.ofNat 256 P256.GX, BitVec.ofNat 256 P256.GY)
  initialized := 1
  initializing := false
  implementation := 4
  rollback := false
  upgraded := []

/-- A registry at address 1 that names the `P256V` at address 2, which was deployed with a
`P256Verifier`. -/
def callees (c : Call) : Reply :=
  if c.target = 1 then
    EnclaveRegistry.staticcall
      ⟨9, fun name => if name = ascii "p256Verifier" then 2 else 0⟩ c.data
  else if c.target = 2 then P256V.call 3 P256Verifier.call c.data
  else .error .empty

/-- A signature of a digest under the key `G`, with the nonce one. -/
def signature (digest : Word) : Word × Word :=
  (BitVec.ofNat 256 (P256.GX % P256.n),
    BitVec.ofNat 256 ((digest.toNat + P256.GX) % P256.n))

theorem clientDataJSON_cuts : clientDataJSON cuts.2.1 cuts.2.2.1 cuts.2.2.2
    = clientDataJSON cuts.1.1 cuts.1.2.1 cuts.1.2.2 := by
  simp only [clientDataJSON, cuts, List.append_assoc]

theorem sigHash_cuts : sigHash [] cuts.1.1 cuts.1.2.1 cuts.1.2.2
    = sigHash [] cuts.2.1 cuts.2.2.1 cuts.2.2.2 := by
  unfold sigHash
  rw [clientDataJSON_cuts]

/-- The two cuts hash the same two strings, which do not collide. -/
theorem injOn_cuts : Set.InjOn sha256 (preimages [] cuts.1.1 cuts.1.2.1 cuts.1.2.2 ∪
    preimages [] cuts.2.1 cuts.2.2.1 cuts.2.2.2) := by
  have hne : sha256 (clientDataJSON cuts.1.1 cuts.1.2.1 cuts.1.2.2)
      ≠ sha256 ([] ++ (sha256 (clientDataJSON cuts.1.1 cuts.1.2.1 cuts.1.2.2)).toBytes) := by
    decide +kernel
  unfold preimages
  rw [clientDataJSON_cuts, Set.union_self]
  rintro x (rfl | rfl) y (rfl | rfl) hxy
  · rfl
  · exact absurd hxy hne
  · exact absurd hxy.symm hne
  · rfl

set_option maxRecDepth 100000 in
/-- One signature is accepted for two hashes. -/
theorem verifySignature_cuts :
    let digest := sigHash [] cuts.1.1 cuts.1.2.1 cuts.1.2.2
    let sig := signature digest
    Set.InjOn sha256 (preimages [] cuts.1.1 cuts.1.2.1 cuts.1.2.2 ∪
      preimages [] cuts.2.1 cuts.2.2.1 cuts.2.2.2) ∧
    sigHash [] cuts.2.1 cuts.2.2.1 cuts.2.2.2 = digest ∧
    (verifySignature [] cuts.1.1 cuts.1.2.1 cuts.1.2.2 sig.1 sig.2).value callees accountG
      = .ok true ∧
    (verifySignature [] cuts.2.1 cuts.2.2.1 cuts.2.2.2 sig.1 sig.2).value callees accountG
      = .ok true ∧
    cuts.1.2.2 ≠ cuts.2.2.2 := by
  intro digest sig
  have haccepted : (verifySignature [] cuts.1.1 cuts.1.2.1 cuts.1.2.2 sig.1 sig.2).value callees
      accountG = .ok true := by
    decide +kernel
  refine ⟨injOn_cuts, sigHash_cuts.symm, haccepted, ?_, by decide⟩
  rw [← verifySignature_congr sigHash_cuts]
  exact haccepted

/-- The two hashes stand at two places of one text, which reads differently there. -/
theorem challengeAt_cuts :
    clientDataJSON cuts.1.1 cuts.1.2.1 cuts.1.2.2 = clientDataJSON cuts.2.1 cuts.2.2.1 cuts.2.2.2 ∧
    challengeAt (clientDataJSON cuts.1.1 cuts.1.2.1 cuts.1.2.2) cuts.1.1.length
      ≠ challengeAt (clientDataJSON cuts.1.1 cuts.1.2.1 cuts.1.2.2) cuts.2.1.length := by
  obtain ⟨-, -, -, hplaces, -⟩ := verifySignature_resplit injOn_cuts sigHash_cuts
  refine ⟨clientDataJSON_cuts.symm, fun heq => ?_⟩
  have hhash : cuts.1.2.2 = cuts.2.2.2 := hplaces.mpr heq
  exact absurd hhash (by decide)

end Enclave.P256SmartAccount
