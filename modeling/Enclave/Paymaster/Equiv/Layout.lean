import Enclave.Paymaster.MultiToken

/-!
# The layout of `paymasterAndData`

The paymasters read a window of two `uint48` words and a signature, from an offset on that depends
on the paymaster; in front of the window `EnclaveMultiTokenPaymaster` has the address of a token.
`parseWindow_eq_ok` says when this succeeds and what it gives.  `parsePaymasterAndData_inverts` is
the consequence: parsing and laying out are inverse to each other.
-/

namespace Enclave

open Paymaster

namespace Paymaster

/-! ### The window and the signature -/

/-- What the parsers share: the window from `offset` on, and the signature behind it. -/
def parseWindow (offset : ℕ) (bs : Bytes) : Result (Uint48 × Uint48 × Bytes) := do
  let window ← calldataSlice bs offset (offset + 64)
  let (validUntil, validAfter) ← decodeWindow window
  let signature ← calldataSlice bs (offset + 64) bs.length
  .ok (validUntil, validAfter, signature)

/-- `abi.encode(validUntil, validAfter)` and the signature. -/
def windowBytes (validUntil validAfter : Uint48) (signature : Bytes) : Bytes :=
  abiEncode [uint48Value validUntil, uint48Value validAfter] ++ signature

theorem windowBytes_eq (validUntil validAfter : Uint48) (signature : Bytes) :
    windowBytes validUntil validAfter signature
      = (toWord validUntil).toBytes ++ ((toWord validAfter).toBytes ++ signature) := by
  have hwords : abiEncode [uint48Value validUntil, uint48Value validAfter]
      = (toWord validUntil).toBytes ++ ((toWord validAfter).toBytes ++ []) :=
    abiEncode_words [toWord validUntil, toWord validAfter]
  rw [windowBytes, hwords, List.append_nil, List.append_assoc]

variable {bs signature : Bytes} {offset : ℕ} {validUntil validAfter : Uint48}

theorem decodeWindow_eq_ok (hlen : bs.length = 64) :
    decodeWindow bs = .ok (validUntil, validAfter) ↔
      validUntil.toNat = wordAt bs 0 ∧ validAfter.toNat = wordAt bs 32 := by
  simp only [decodeWindow, abiDecodeUint48, bind_eq_ok, abiDecodeBits_eq_ok, hlen]
  constructor
  · rintro ⟨u, ⟨-, hu⟩, a, ⟨-, ha⟩, heq⟩
    obtain ⟨rfl, rfl⟩ := Prod.mk.inj (Except.ok.inj heq)
    exact ⟨hu, ha⟩
  · rintro ⟨hu, ha⟩
    exact ⟨validUntil, ⟨by decide, hu⟩, validAfter, ⟨by decide, ha⟩, rfl⟩

theorem parseWindow_eq_ok :
    parseWindow offset bs = .ok (validUntil, validAfter, signature) ↔
      offset + 64 ≤ bs.length ∧ validUntil.toNat = wordAt bs offset ∧
        validAfter.toNat = wordAt bs (offset + 32) ∧ signature = bs.drop (offset + 64) := by
  simp only [parseWindow, bind_eq_ok, calldataSlice_eq_ok]
  constructor
  · rintro ⟨window, hwindow, ⟨u, a⟩, hdecode, sig, hsig, heq⟩
    obtain ⟨rfl, hrest⟩ := Prod.mk.inj (Except.ok.inj heq)
    obtain ⟨rfl, rfl⟩ := Prod.mk.inj hrest
    have hlen : window.length = 64 := by
      rw [length_of_slice hwindow]
      omega
    obtain ⟨hu, ha⟩ := (decodeWindow_eq_ok hlen).mp hdecode
    -- the words of the slice are words of the whole data
    rw [wordAt_slice hwindow (by omega)] at hu ha
    refine ⟨(slice_eq_some hwindow).2.1, hu, ha, ?_⟩
    rw [(slice_eq_some hsig).2.2]
    exact List.take_of_length_le (List.length_drop.le)
  · rintro ⟨hlen, hu, ha, rfl⟩
    have hwindow : slice bs offset (offset + 64) = some ((bs.drop offset).take 64) := by
      rw [slice, if_pos ⟨by omega, hlen⟩, Nat.add_sub_cancel_left]
    have hsig : slice bs (offset + 64) bs.length = some (bs.drop (offset + 64)) := by
      rw [slice, if_pos ⟨hlen, le_rfl⟩, List.take_of_length_le (List.length_drop.le)]
    refine ⟨_, hwindow, (validUntil, validAfter), ?_, _, hsig, rfl⟩
    rw [decodeWindow_eq_ok (by rw [length_of_slice hwindow]; omega),
      wordAt_slice hwindow (by omega), wordAt_slice hwindow (by omega)]
    exact ⟨hu, ha⟩

/-- What was laid out is read back. -/
theorem parseWindow_windowBytes {front : Bytes} (hfront : front.length = offset)
    (validUntil validAfter : Uint48) (signature : Bytes) :
    parseWindow offset (front ++ windowBytes validUntil validAfter signature)
      = .ok (validUntil, validAfter, signature) := by
  have hnext : (front ++ (toWord validUntil).toBytes).length = offset + 32 := by
    rw [List.length_append, hfront, Word.length_toBytes]
  rw [parseWindow_eq_ok, windowBytes_eq]
  refine ⟨?_, ?_, ?_, ?_⟩
  · simp only [List.length_append, Word.length_toBytes]
    omega
  · rw [wordAt_append hfront, toNat_toWord (by decide)]
  · rw [← List.append_assoc, wordAt_append hnext, toNat_toWord (by decide)]
  · rw [← List.append_assoc, ← List.append_assoc, List.drop_left']
    rw [List.length_append, hnext, Word.length_toBytes]

/-- What was read is laid out again. -/
theorem drop_eq_windowBytes
    (h : parseWindow offset bs = .ok (validUntil, validAfter, signature)) :
    bs.drop offset = windowBytes validUntil validAfter signature := by
  obtain ⟨hlen, hu, ha, rfl⟩ := parseWindow_eq_ok.mp h
  rw [windowBytes_eq, drop_eq_toBytes_append (by decide) (by omega) hu,
    drop_eq_toBytes_append (by decide) (by omega) ha]

theorem parseWindow_reverts_iff :
    (∃ e, parseWindow offset bs = .error e) ↔
      bs.length < offset + 64 ∨ 2 ^ 48 ≤ wordAt bs offset ∨ 2 ^ 48 ≤ wordAt bs (offset + 32) := by
  constructor
  · rintro ⟨e, herror⟩
    by_contra hnot
    push Not at hnot
    obtain ⟨hlen, hu, ha⟩ := hnot
    -- both words are values of `uint48`, and nothing else can fail
    have hok : parseWindow offset bs = .ok (BitVec.ofNat 48 (wordAt bs offset),
        BitVec.ofNat 48 (wordAt bs (offset + 32)), bs.drop (offset + 64)) := by
      rw [parseWindow_eq_ok, BitVec.toNat_ofNat, BitVec.toNat_ofNat, Nat.mod_eq_of_lt hu,
        Nat.mod_eq_of_lt ha]
      exact ⟨hlen, rfl, rfl, rfl⟩
    rw [hok] at herror
    cases herror
  · intro h
    cases hparse : parseWindow offset bs with
    | error e => exact ⟨e, rfl⟩
    | ok parts =>
      obtain ⟨u, a, sig⟩ := parts
      obtain ⟨hlen, hu, ha, -⟩ := parseWindow_eq_ok.mp hparse
      have hlt := u.isLt
      have hlt' := a.isLt
      omega

theorem parsePaymasterAndData_eq (bs : Bytes) :
    parsePaymasterAndData bs = parseWindow 20 bs := rfl

end Paymaster

namespace MultiTokenPaymaster

variable {bs signature : Bytes} {token : Address} {validUntil validAfter : Uint48}

theorem ofBytesBE_address (token : Address) :
    BitVec.ofNat 160 (ofBytesBE token.toBytes) = token := by
  have hlt : token.toNat < 256 ^ 20 := token.isLt
  rw [Address.toBytes, ofBytesBE_toBytesBE_of_lt hlt, BitVec.ofNat_toNat, BitVec.setWidth_eq]

theorem toBytes_ofBytesBE (cs : Bytes) (h : cs.length = 20) :
    Address.toBytes (BitVec.ofNat 160 (ofBytesBE cs)) = cs := by
  have hlt : ofBytesBE cs < 2 ^ 160 := by
    have hlt := ofBytesBE_lt cs
    rwa [h] at hlt
  rw [Address.toBytes, BitVec.toNat_ofNat, Nat.mod_eq_of_lt hlt, ← h]
  exact toBytesBE_ofBytesBE cs

/-- The token stands in front of the window. -/
theorem parsePaymasterAndData_eq_ok :
    parsePaymasterAndData bs = .ok (token, validUntil, validAfter, signature) ↔
      parseWindow 40 bs = .ok (validUntil, validAfter, signature) ∧
        token.toBytes = (bs.drop 20).take 20 := by
  have hslice : 40 ≤ bs.length → slice bs 20 40 = some ((bs.drop 20).take 20) := fun hlen => by
    rw [slice, if_pos ⟨by decide, hlen⟩]
  -- the contract reads the token first, and then what `parseWindow` reads from 40 on
  constructor
  · intro h
    simp only [parsePaymasterAndData, bind_eq_ok] at h
    obtain ⟨cs, hcs, window, hwindow, ⟨u, a⟩, hdecode, sig, hsig, heq⟩ := h
    obtain ⟨rfl, hrest⟩ := Prod.mk.inj (Except.ok.inj heq)
    have hcs' := calldataSlice_eq_ok.mp hcs
    refine ⟨?_, ?_⟩
    · simp only [parseWindow, bind_eq_ok]
      exact ⟨window, hwindow, (u, a), hdecode, sig, hsig, congrArg Except.ok hrest⟩
    · rw [toBytes_ofBytesBE cs (length_of_slice hcs'), (slice_eq_some hcs').2.2]
  · rintro ⟨hparse, htoken⟩
    have hlen := (parseWindow_eq_ok.mp hparse).1
    simp only [parseWindow, bind_eq_ok] at hparse
    obtain ⟨window, hwindow, ⟨u, a⟩, hdecode, sig, hsig, heq⟩ := hparse
    simp only [parsePaymasterAndData, bind_eq_ok]
    refine ⟨token.toBytes, ?_, window, hwindow, (u, a), hdecode, sig, hsig, ?_⟩
    · rw [htoken]
      exact calldataSlice_eq_ok.mpr (hslice (by omega))
    · rw [ofBytesBE_address, ← Except.ok.inj heq]

theorem parsePaymasterAndData_reverts_iff :
    (∃ e, parsePaymasterAndData bs = .error e) ↔ ∃ e, parseWindow 40 bs = .error e := by
  constructor
  · rintro ⟨e, herror⟩
    cases hparse : parseWindow 40 bs with
    | error e => exact ⟨e, rfl⟩
    | ok parts =>
      -- any 20 bytes in front of the window are an address
      have hlen := (parseWindow_eq_ok.mp hparse).1
      have hok := parsePaymasterAndData_eq_ok.mpr
        ⟨hparse, toBytes_ofBytesBE ((bs.drop 20).take 20) (by simp; omega)⟩
      rw [hok] at herror
      cases herror
  · rintro ⟨e, herror⟩
    cases hparse : parsePaymasterAndData bs with
    | error e => exact ⟨e, rfl⟩
    | ok parts =>
      rw [(parsePaymasterAndData_eq_ok.mp hparse).1] at herror
      cases herror

/-- What was laid out is read back. -/
theorem parsePaymasterAndData_layout {front : Bytes} (hfront : front.length = 20) (token : Address)
    (validUntil validAfter : Uint48) (signature : Bytes) :
    parsePaymasterAndData (front ++ (token.toBytes ++ windowBytes validUntil validAfter signature))
      = .ok (token, validUntil, validAfter, signature) := by
  rw [parsePaymasterAndData_eq_ok]
  constructor
  · rw [← List.append_assoc]
    apply parseWindow_windowBytes
    rw [List.length_append, hfront, Address.length_toBytes]
  · rw [List.drop_left' hfront, List.take_left' (Address.length_toBytes token)]

/-- What was read is laid out again. -/
theorem layout_of_parsePaymasterAndData
    (h : parsePaymasterAndData bs = .ok (token, validUntil, validAfter, signature)) :
    bs.take 20 ++ (token.toBytes ++ windowBytes validUntil validAfter signature) = bs := by
  obtain ⟨hparse, htoken⟩ := parsePaymasterAndData_eq_ok.mp h
  rw [htoken, ← drop_eq_windowBytes hparse, ← List.append_assoc, ← List.take_add,
    List.take_append_drop]

end MultiTokenPaymaster

/-! ### Both layouts -/

/-- **Parsing inverts the layout.**  In both layouts parsing gives back what was laid out; it
reverts exactly on data that is too short or has a word of the window out of range; and what it
returns is the data, laid out again behind its first 20 bytes. -/
theorem parsePaymasterAndData_inverts :
    ((∀ (paymaster : Address) (validUntil validAfter : Uint48) (signature : Bytes),
        Paymaster.parsePaymasterAndData
            (paymaster.toBytes ++ windowBytes validUntil validAfter signature)
          = .ok (validUntil, validAfter, signature)) ∧
      (∀ bs : Bytes, (∃ e, Paymaster.parsePaymasterAndData bs = .error e) ↔
        bs.length < 84 ∨ 2 ^ 48 ≤ wordAt bs 20 ∨ 2 ^ 48 ≤ wordAt bs 52) ∧
      ∀ (bs : Bytes) (validUntil validAfter : Uint48) (signature : Bytes),
        Paymaster.parsePaymasterAndData bs = .ok (validUntil, validAfter, signature) →
        bs.take 20 ++ windowBytes validUntil validAfter signature = bs) ∧
    (∀ (paymaster token : Address) (validUntil validAfter : Uint48) (signature : Bytes),
        MultiTokenPaymaster.parsePaymasterAndData
            (paymaster.toBytes ++ (token.toBytes ++ windowBytes validUntil validAfter signature))
          = .ok (token, validUntil, validAfter, signature)) ∧
      (∀ bs : Bytes, (∃ e, MultiTokenPaymaster.parsePaymasterAndData bs = .error e) ↔
        bs.length < 104 ∨ 2 ^ 48 ≤ wordAt bs 40 ∨ 2 ^ 48 ≤ wordAt bs 72) ∧
      ∀ (bs : Bytes) (token : Address) (validUntil validAfter : Uint48) (signature : Bytes),
        MultiTokenPaymaster.parsePaymasterAndData bs
            = .ok (token, validUntil, validAfter, signature) →
        bs.take 20 ++ (token.toBytes ++ windowBytes validUntil validAfter signature) = bs := by
  refine ⟨⟨fun paymaster => parseWindow_windowBytes (Address.length_toBytes paymaster),
      fun bs => parseWindow_reverts_iff, fun bs u a sig h => ?_⟩,
    fun paymaster => MultiTokenPaymaster.parsePaymasterAndData_layout
      (Address.length_toBytes paymaster), fun bs => ?_, fun bs token u a sig h => ?_⟩
  · rw [← drop_eq_windowBytes h, List.take_append_drop]
  · rw [MultiTokenPaymaster.parsePaymasterAndData_reverts_iff]
    exact parseWindow_reverts_iff
  · exact MultiTokenPaymaster.layout_of_parsePaymasterAndData h

end Enclave
