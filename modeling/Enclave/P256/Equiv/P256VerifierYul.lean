import Enclave.Evm.Lineage
import Enclave.P256.Equiv.P256V
import Enclave.P256.P256VerifierYul

/-!
# What `P256VerifierYul` wraps

No function writes the storage, so that every slot stays zero (`storage_of_run`).  The slot that the
assembly block looks up is zero as well, and the call goes to the zero address
(`calls_ecdsaVerify`); its answer never gets into the verdict (`eval_ecdsaVerify_of_ok`).  What is
left of the wrapper's purpose is `faithful_iff`: it does what it is for when the verifier is the
zero address and does not accept.

The block also leaves the argument `s` as the free memory pointer.  `returnPacked_eq_ok_iff`: what
`fallback` then returns is the word zero as long as that pointer is in reach of the gas and does not
make the result overlap with the pointer itself; `returnBool_eq_ok_iff` is the same for
`ecdsa_verify`.
-/

namespace Enclave.P256VerifierYul

open P256V

/-! ### The storage -/

/-- What the wrapper keeps to: it only reads. -/
def discipline : Discipline Storage where
  inv s := s = deploy
  call _ _ _ c := c.kind = .staticcall
  write _ _ _ _ := False

theorem ensures_ecdsaVerify {msg : Msg} {verifierContract : Address} {hash r s : Word} {pubKey : ℕ}
    {m : Memory} {σ : Storage} {τ : Trace} :
    (ecdsaVerify verifierContract hash r s pubKey m).Ensures discipline msg (fun _ _ _ => True)
      σ τ := by
  refine ⟨rfl, fun reply σ' _ => ?_⟩
  cases reply with
  | error e => exact trivial
  | ok data => exact trivial

theorem ensures_fallback {msg : Msg} {budget : Budget} {verifierContract : Address} {input : Bytes}
    {σ : Storage} {τ : Trace} :
    (fallback budget verifierContract input).Ensures discipline msg (fun _ _ _ => True) σ τ := by
  unfold fallback
  split_ifs with hlen
  · exact trivial
  refine Prog.ensures_lift_bind fun hash _ => ?_
  refine Prog.ensures_lift_bind fun r _ => ?_
  refine Prog.ensures_lift_bind fun s _ => ?_
  refine Prog.ensures_lift_bind fun x _ => ?_
  refine Prog.ensures_lift_bind fun y _ => ?_
  refine Prog.ensures_bind ensures_ecdsaVerify fun σ τ verdict _ => ?_
  exact Prog.ensures_lift fun _ _ => trivial

theorem ensures_ecdsaVerifyExternal {msg : Msg} {budget : Budget} {verifierContract : Address}
    {args : Bytes} {σ : Storage} {τ : Trace} :
    (ecdsaVerifyExternal budget verifierContract args).Ensures discipline msg
      (fun _ _ _ => True) σ τ := by
  refine Prog.ensures_lift_bind fun hash _ => ?_
  refine Prog.ensures_lift_bind fun r _ => ?_
  refine Prog.ensures_lift_bind fun s _ => ?_
  refine Prog.ensures_lift_bind fun x _ => ?_
  refine Prog.ensures_lift_bind fun y _ => ?_
  refine Prog.ensures_bind ensures_ecdsaVerify fun σ τ verdict _ => ?_
  exact Prog.ensures_lift fun _ _ => trivial

/-- The wrapper at `this`. -/
def contract (budget : Budget) (this verifierContract : Address) : Contract Storage where
  self := this
  live _ := true
  body := body budget verifierContract

theorem settled (budget : Budget) (this verifierContract : Address) :
    Settled (contract budget this verifierContract) discipline where
  live _ := rfl
  call _ _ _ c hkind := by
    rw [show c.kind = .staticcall from hkind]
    nofun
  body msg σ _ := by
    show (body budget verifierContract msg).Ensures discipline msg (fun _ _ _ => True) σ []
    unfold body
    split_ifs
    · exact trivial
    · exact ensures_ecdsaVerifyExternal
    · exact ensures_fallback
  write _ _ _ _ _ hwrite := hwrite.elim

/-- At every moment of every run after the deployment, every slot is zero. -/
theorem storage_of_run {budget : Budget} {this verifierContract : Address} {c : Config Storage}
    (hrun : Run (contract budget this verifierContract) (fun _ _ => True) (.idle deploy) c) :
    c.world.storage = deploy := by
  have hsettled := settled budget this verifierContract
  exact (hsettled.sound rfl hrun).1 (hsettled.not_foreign rfl hrun)

/-! ### The assembly block -/

/-- The memory at the call. -/
def atCall (hash r s x y : Word) : Memory :=
  (((((withPubKey x y).mstore 0 hash).mstore 32 r).mstore 64 s).mstore 96 x).mstore 128 y

theorem mload_withPubKey (x y : Word) :
    (withPubKey x y).mload 0x80 = x ∧ (withPubKey x y).mload (0x80 + 32) = y := by
  constructor
  · rw [withPubKey, Memory.mload_mstore_of_disjoint (Or.inl (by decide)), Memory.mload_mstore_self]
  · exact Memory.mload_mstore_self _ _ _

theorem read_atCall (hash r s x y : Word) :
    (atCall hash r s x y).read 0 160 = packed hash r s x y := by
  have hread : ∀ m : Memory, m.read 0 160 = m.read 0 32 ++ ((m.read 32 32 ++ m.read 64 32) ++
      (m.read 96 32 ++ m.read 128 32)) := by
    intro m
    simp only [← Memory.read_add m 96 32 32, ← Memory.read_add m 32 32 32,
      ← Memory.read_add m 32 64 64, ← Memory.read_add m 0 32 128]
  rw [hread, packed, atCall]
  simp [Memory.read_mstore_self, Memory.read_mstore_of_disjoint]

/-- The question that the wrapper is for. -/
def query (target : Address) (hash r s x y : Word) : Call :=
  ⟨.staticcall, target, 0, packed hash r s x y⟩

/-- The memory afterwards. -/
def afterCall (hash r s x y : Word) (data : Bytes) : Memory :=
  (atCall hash r s x y).write 0 (data.take 32)

/-- What follows the call: `result` has not been written. -/
def conclude (hash r s x y : Word) : Reply → Prog Storage (Bool × Memory)
  | .error _ => .revert (.reason "P256 verify call failed")
  | .ok data => .pure (false, afterCall hash r s x y data)

/-- The block made plain. -/
theorem ecdsaVerify_eq (verifierContract : Address) (hash r s x y : Word) :
    ecdsaVerify verifierContract hash r s 0x80 (withPubKey x y) = .get fun slots : Storage =>
      .call (query ((slots (toWord verifierContract)).setWidth 160) hash r s x y)
        (conclude hash r s x y) := by
  obtain ⟨hx, hy⟩ := mload_withPubKey x y
  have hconclude : conclude hash r s x y = fun
      | .error _ => .revert (.reason "P256 verify call failed")
      | .ok data => .pure (false, afterCall hash r s x y data) := by
    funext reply
    cases reply with
    | error e => rfl
    | ok data => rfl
  unfold ecdsaVerify
  rw [hx, hy, hconclude]
  exact congrArg (fun data => Prog.get fun slots : Storage =>
    .call ⟨.staticcall, (slots (toWord verifierContract)).setWidth 160, 0, data⟩ fun
      | .error _ => .revert (.reason "P256 verify call failed")
      | .ok data => .pure (false, afterCall hash r s x y data)) (read_atCall hash r s x y)

/-! ### The free memory pointer -/

theorem freePointer_afterCall (hash r s x y : Word) (data : Bytes) :
    freePointer (afterCall hash r s x y data) = s := by
  have hlen : (data.take 32).length ≤ 32 := List.length_take_le 32 data
  rw [freePointer, Memory.mload, afterCall, Memory.read_write_of_disjoint (Or.inr (by omega)),
    atCall]
  simp [Memory.read_mstore_self, Memory.read_mstore_of_disjoint]

theorem mstore_of_le {budget : Budget} {m : Memory} {i w : Word}
    (h : i.toNat + 32 ≤ budget.bytes) : mstore budget m i w = .ok (m.mstore i.toNat w) := if_pos h

theorem mstore_of_lt {budget : Budget} {m : Memory} {i w : Word}
    (h : budget.bytes < i.toNat + 32) : mstore budget m i w = .error .empty :=
  if_neg (Nat.not_le.mpr h)

section Packed

variable {m : Memory} {s : Word} (hs : freePointer m = s)

include hs

/-- What a zero word leaves of the free memory pointer: it survives unless its last byte was
overwritten. -/
theorem freePointer_mstore_zero {i : ℕ} (hi : 0x60 ≤ i ∨ s.toNat < 256) :
    freePointer (m.mstore i 0) = if 0x40 ≤ i ∧ i < 0x60 then 0 else s := by
  by_cases hfar : i + 32 ≤ 0x40 ∨ 0x60 ≤ i
  · rw [if_neg (by omega), freePointer, Memory.mload_mstore_of_disjoint (by omega)]
    exact hs
  have hsmall : s.toNat < 256 := by omega
  have hbyte : ∀ j < 32, m (0x40 + j) = s.byte j := by
    intro j hj
    rw [← hs, freePointer, Memory.byte_mload m 0x40 hj]
  apply Memory.mload_eq
  intro j hj
  rw [Memory.mstore_zero]
  by_cases hlast : j = 31
  · rw [hlast]
    split_ifs with hwritten hrange hrange
    · exact (Word.byte_zero 31).symm
    · omega
    · omega
    · exact hbyte 31 (by decide)
  · -- the other bytes of the pointer are zero anyway
    have hzero : s.byte j = 0 := Word.byte_of_lt hsmall (by omega)
    rw [hbyte j hj, hzero, ite_self]
    split_ifs
    · exact (Word.byte_zero j).symm
    · exact hzero.symm

/-- Too far out for the gas. -/
theorem returnPacked_of_lt {budget : Budget} (hfar : budget.bytes < s.toNat + 64) :
    returnPacked budget m 0 = .error .empty := by
  have hlt := budget.lt
  have henough := budget.enough
  have hadd : (s + 32).toNat = (s.toNat + 32) % 2 ^ 256 := BitVec.toNat_add s 32
  unfold returnPacked
  simp only [hs]
  by_cases hwrap : s.toNat + 32 < 2 ^ 256
  · rw [Nat.mod_eq_of_lt hwrap] at hadd
    rw [mstore_of_lt (by omega), error_bind]
  · -- the offset wraps around to the first word, which leaves the pointer as it is
    have hlow : (s + 32).toNat < 32 := by
      have := s.isLt
      omega
    have hsame : freePointer (m.mstore (s + 32).toNat 0) = s := by
      rw [freePointer, Memory.mload_mstore_of_disjoint (Or.inr (by omega))]
      exact hs
    rw [mstore_of_le (by omega), ok_bind, hsame, mstore_of_lt (by omega), error_bind]

/-- The memory when the result is returned. -/
private def packedMemory (m : Memory) (s p : Word) : Memory :=
  ((m.mstore (s.toNat + 32) 0).mstore p.toNat (s + 64 - p - 32)).mstore 0x40 (s + 64)

/-- Within reach. -/
theorem returnPacked_of_le {budget : Budget} (hnear : s.toNat + 64 ≤ budget.bytes) {p : Word}
    (hp : (if 0x40 ≤ s.toNat + 32 ∧ s.toNat + 32 < 0x60 then 0 else s) = p) :
    returnPacked budget m 0 =
      ret budget (packedMemory m s p) (p + 32) ((packedMemory m s p).mload p.toNat) := by
  have hlt := budget.lt
  have hadd : (s + 32).toNat = s.toNat + 32 := by
    rw [BitVec.toNat_add]
    exact Nat.mod_eq_of_lt (show s.toNat + 32 < 2 ^ 256 by omega)
  have hp' : p.toNat ≤ s.toNat := by
    rw [← hp]
    split_ifs
    · exact Nat.zero_le _
    · exact le_rfl
  unfold returnPacked
  simp only [hs]
  rw [mstore_of_le (by omega), ok_bind, hadd, freePointer_mstore_zero hs (by omega), hp,
    mstore_of_le (by omega), ok_bind]
  rfl

omit hs in
theorem toNat_of_ret {budget : Budget} {i k w : Word} (h : ret budget m i k = .ok w.toBytes) :
    k.toNat = 32 := by
  unfold ret at h
  split_ifs at h with hle
  have hlen := congrArg List.length (Except.ok.inj h)
  rw [Memory.length_read, Word.length_toBytes] at hlen
  exact hlen

/-- The pointer was lost, and the length is counted from address zero. -/
theorem not_returnPacked_of_lost {budget : Budget} (hnear : s.toNat + 64 ≤ budget.bytes)
    (hrange : 32 ≤ s.toNat ∧ s.toNat < 64) : returnPacked budget m 0 ≠ .ok (Word.toBytes 0) := by
  intro h
  rw [returnPacked_of_le hs hnear (if_pos (by omega))] at h
  have hlen := toNat_of_ret h
  rw [packedMemory, Memory.mload_mstore_of_disjoint (Or.inl (by decide)),
    Memory.mload_mstore_self] at hlen
  have hval : (s + 64 - 0 - 32).toNat = s.toNat + 32 := by bv_omega
  omega

/-- The length and the pointer overlap. -/
theorem not_returnPacked_of_overlap {budget : Budget} (hnear : s.toNat + 64 ≤ budget.bytes)
    (hrange : 64 ≤ s.toNat ∧ s.toNat < 96) : returnPacked budget m 0 ≠ .ok (Word.toBytes 0) := by
  intro h
  rw [returnPacked_of_le hs hnear (if_neg (by omega))] at h
  have hlen := toNat_of_ret h
  have h32 : (packedMemory m s s).mload s.toNat = 32 := BitVec.eq_of_toNat_eq hlen
  have hstop : (s + 64).toNat = s.toNat + 64 := by bv_omega
  -- the last byte of the new pointer stands inside the length
  have hbyte := Memory.byte_mload (packedMemory m s s) s.toNat (show 95 - s.toNat < 32 by omega)
  rw [h32, show s.toNat + (95 - s.toNat) = 0x40 + 31 by omega, packedMemory,
    Memory.mstore_inside _ _ _ (by decide), Word.byte_last (by omega), hstop] at hbyte
  by_cases hlast : s.toNat = 64
  · rw [hlast] at hbyte
    exact absurd hbyte (by decide)
  · rw [Word.byte_of_lt (by decide) (by omega)] at hbyte
    have hnat := congrArg UInt8.toNat hbyte
    rw [UInt8.toNat_ofNat_of_lt' (show s.toNat + 64 < 256 by omega)] at hnat
    exact absurd hnat.symm (by simp)

omit hs in
/-- The word stands clear of the length; the new pointer may stand in its way, but only with
leading zeros. -/
theorem mload_packedMemory (hnear : s.toNat + 64 < 2 ^ 64)
    (hrange : s.toNat < 32 ∨ 96 ≤ s.toNat) :
    (packedMemory m s s).mload (s.toNat + 32) = 0 := by
  have hstop : (s + 64).toNat = s.toNat + 64 := by bv_omega
  apply Memory.mload_eq
  intro j hj
  rw [Word.byte_zero, packedMemory]
  by_cases hmeet : 0x40 ≤ s.toNat + 32 + j ∧ s.toNat + 32 + j < 0x40 + 32
  · obtain ⟨l, hl⟩ := Nat.exists_eq_add_of_le hmeet.1
    rw [hl, Memory.mstore_inside _ _ _ (by omega), Word.byte_of_lt (by omega) (by omega)]
  · rw [Memory.mstore_of_disjoint (by omega), Memory.mstore_of_disjoint (by omega),
      Memory.mstore_inside _ _ _ hj, Word.byte_zero]

/-- Otherwise the result is right. -/
theorem returnPacked_of_clear {budget : Budget} (hnear : s.toNat + 64 ≤ budget.bytes)
    (hrange : s.toNat < 32 ∨ 96 ≤ s.toNat) : returnPacked budget m 0 = .ok (Word.toBytes 0) := by
  have hlt := budget.lt
  have hadd : (s + 32).toNat = s.toNat + 32 := by bv_omega
  have hval : s + 64 - s - 32 = 32 := by bv_omega
  have hlen : (packedMemory m s s).mload s.toNat = 32 := by
    rw [packedMemory, Memory.mload_mstore_of_disjoint (by omega), Memory.mload_mstore_self, hval]
  have hle : s.toNat + 32 + (32 : Word).toNat ≤ budget.bytes := by
    show s.toNat + 32 + 32 ≤ budget.bytes
    omega
  rw [returnPacked_of_le hs hnear (if_neg (by omega)), hlen, ret, hadd, if_pos hle,
    ← mload_packedMemory (m := m) (by omega) hrange, Memory.toBytes_mload]
  rfl

/-- When `fallback` returns the word zero. -/
theorem returnPacked_eq_ok_iff (budget : Budget) :
    returnPacked budget m 0 = .ok (Word.toBytes 0) ↔
      (s.toNat < 32 ∨ 96 ≤ s.toNat) ∧ s.toNat + 64 ≤ budget.bytes := by
  rcases Nat.lt_or_ge budget.bytes (s.toNat + 64) with hfar | hnear
  · rw [returnPacked_of_lt hs hfar]
    exact ⟨nofun, fun h => absurd h.2 (Nat.not_le.mpr hfar)⟩
  by_cases hlost : 32 ≤ s.toNat ∧ s.toNat < 64
  · exact ⟨fun h => absurd h (not_returnPacked_of_lost hs hnear hlost), fun h => by omega⟩
  by_cases hover : 64 ≤ s.toNat ∧ s.toNat < 96
  · exact ⟨fun h => absurd h (not_returnPacked_of_overlap hs hnear hover), fun h => by omega⟩
  · have hclear : s.toNat < 32 ∨ 96 ≤ s.toNat := by omega
    exact ⟨fun _ => ⟨hclear, hnear⟩, fun _ => returnPacked_of_clear hs hnear hclear⟩

/-- When `ecdsa_verify` returns the word zero. -/
theorem returnBool_eq_ok_iff (budget : Budget) :
    returnBool budget m false = .ok (Word.toBytes 0) ↔
      (s.toNat < 64 ∨ 96 ≤ s.toNat) ∧ s.toNat + 32 ≤ budget.bytes := by
  have hlt := budget.lt
  unfold returnBool
  simp only [hs, Bool.false_eq_true, if_false]
  rcases Nat.lt_or_ge budget.bytes (s.toNat + 32) with hfar | hnear
  · rw [mstore_of_lt hfar, error_bind]
    exact ⟨nofun, fun h => absurd h.2 (Nat.not_le.mpr hfar)⟩
  rw [mstore_of_le hnear, ok_bind, freePointer_mstore_zero hs (by omega)]
  by_cases hlost : 0x40 ≤ s.toNat ∧ s.toNat < 0x60
  · -- the pointer was lost, and what is returned starts at address zero
    rw [if_pos hlost]
    refine ⟨fun h => ?_, fun h => by omega⟩
    have hlen := toNat_of_ret h
    have hval : (s + 32 - 0).toNat = s.toNat + 32 := by bv_omega
    omega
  · have hval : s + 32 - s = 32 := by bv_omega
    have hle : s.toNat + (32 : Word).toNat ≤ budget.bytes := hnear
    rw [if_neg hlost, hval, ret, if_pos hle]
    refine ⟨fun _ => ⟨by omega, hnear⟩, fun _ => congrArg Except.ok ?_⟩
    exact Memory.read_mstore_self m s.toNat 0

end Packed

/-! ### The wrapper against its purpose -/

section Faithful

variable (budget : Budget) (env : Call → Reply) (verifierContract : Address)
  (hash r s x y : Word)

/-- The verdict of `ecdsa_verify`. -/
def verdict : Result Bool :=
  (Prog.value env (ecdsaVerify verifierContract hash r s 0x80 (withPubKey x y)) deploy).map Prod.fst

/-- What the wrapper is for: it asks the verifier, and nobody else; it accepts what the verifier
accepts; and `fallback` gives the same verdict as a word. -/
structure Faithful : Prop where
  calls : Prog.calls env (ecdsaVerify verifierContract hash r s 0x80 (withPubKey x y)) deploy =
    [query verifierContract hash r s x y]
  accepts : verdict env verifierContract hash r s x y = .ok true ↔
    env (query verifierContract hash r s x y) = .ok (Word.toBytes 1)
  fallback : Prog.value env (fallback budget verifierContract (packed hash r s x y)) deploy =
    (verdict env verifierContract hash r s x y).map fun accepted =>
      Word.toBytes (if accepted then 1 else 0)

/-- The only call goes to the zero address. -/
theorem calls_ecdsaVerify :
    Prog.calls env (ecdsaVerify verifierContract hash r s 0x80 (withPubKey x y)) deploy =
      [query 0 hash r s x y] := by
  rw [ecdsaVerify_eq]
  show query 0 hash r s x y ::
    Prog.calls env (conclude hash r s x y (env (query 0 hash r s x y))) deploy = _
  cases env (query 0 hash r s x y) with
  | error e => rfl
  | ok data => rfl

variable {env}

theorem eval_ecdsaVerify_of_error {e : Revert} (h : env (query 0 hash r s x y) = .error e) :
    Prog.eval env (ecdsaVerify verifierContract hash r s 0x80 (withPubKey x y)) deploy =
      .error (.reason "P256 verify call failed") := by
  rw [ecdsaVerify_eq]
  show Prog.eval env (conclude hash r s x y (env (query 0 hash r s x y))) deploy = _
  rw [h]
  rfl

theorem eval_ecdsaVerify_of_ok {data : Bytes} (h : env (query 0 hash r s x y) = .ok data) :
    Prog.eval env (ecdsaVerify verifierContract hash r s 0x80 (withPubKey x y)) deploy =
      .ok ((false, afterCall hash r s x y data), deploy) := by
  rw [ecdsaVerify_eq]
  show Prog.eval env (conclude hash r s x y (env (query 0 hash r s x y))) deploy = _
  rw [h]
  rfl

/-- `fallback` reads back the packed input. -/
theorem value_fallback :
    Prog.value env (fallback budget verifierContract (packed hash r s x y)) deploy =
      (do
        let out ← Prog.eval env
          (ecdsaVerify verifierContract hash r s 0x80 (withPubKey x y)) deploy
        returnPacked budget out.1.2 (if out.1.1 then 1 else 0)) := by
  obtain ⟨h0, h1, h2, h3, h4⟩ := calldataSlice_packed hash r s x y
  unfold fallback
  rw [if_neg (not_not.mpr (length_packed hash r s x y)), h0, h1, h2, h3, h4]
  simp only [Prog.value_lift_bind, ok_bind, Word.ofBytes_toBytes]
  rw [Prog.value, Prog.eval_bind]
  cases Prog.eval env (ecdsaVerify verifierContract hash r s 0x80 (withPubKey x y)) deploy with
  | error e => rfl
  | ok out =>
    rw [ok_bind, ok_bind]
    exact Prog.value_lift _

/-- `ecdsa_verify` called from outside returns false, whatever the zero address answers, as long as
`s` serves as a free memory pointer. -/
theorem value_ecdsaVerifyExternal_iff {data : Bytes}
    (h : env (query 0 hash r s x y) = .ok data) :
    Prog.value env (ecdsaVerifyExternal budget verifierContract (packed hash r s x y)) deploy =
        .ok (Word.toBytes 0) ↔
      (s.toNat < 64 ∨ 96 ≤ s.toNat) ∧ s.toNat + 32 ≤ budget.bytes := by
  have hargs : packed hash r s x y = abiEncode ([hash, r, s, x, y].map .word) := by
    rw [abiEncode_words]
    simp [packed]
  have hword := abiDecodeWord_words [hash, r, s, x, y]
  rw [← hargs] at hword
  have h0 : abiDecodeWord (packed hash r s x y) 0 = .ok hash := hword 0 (by simp)
  have h1 : abiDecodeWord (packed hash r s x y) 32 = .ok r := hword 1 (by simp)
  have h2 : abiDecodeWord (packed hash r s x y) 64 = .ok s := hword 2 (by simp)
  have h3 : abiDecodeWord (packed hash r s x y) 96 = .ok x := hword 3 (by simp)
  have h4 : abiDecodeWord (packed hash r s x y) 128 = .ok y := hword 4 (by simp)
  have hvalue : Prog.value env
      (ecdsaVerifyExternal budget verifierContract (packed hash r s x y)) deploy =
      returnBool budget (afterCall hash r s x y data) false := by
    unfold ecdsaVerifyExternal
    rw [h0, h1, h2, h3, h4]
    simp only [Prog.value_lift_bind, ok_bind]
    rw [Prog.value, Prog.eval_bind, eval_ecdsaVerify_of_ok verifierContract hash r s x y h, ok_bind]
    exact Prog.value_lift _
  rw [hvalue]
  exact returnBool_eq_ok_iff (freePointer_afterCall hash r s x y data) budget

/-- **What `P256VerifierYul` wraps**: the wrapper is faithful exactly when the verifier is the zero
address and either fails, or does not accept and the argument `s` serves as a free memory
pointer. -/
theorem faithful_iff (env : Call → Reply) :
    Faithful budget env verifierContract hash r s x y ↔ verifierContract = 0 ∧
      ((∃ e, env (query 0 hash r s x y) = .error e) ∨
        env (query 0 hash r s x y) ≠ .ok (Word.toBytes 1) ∧
          (s.toNat < 32 ∨ 96 ≤ s.toNat) ∧ s.toNat + 64 ≤ budget.bytes) := by
  have hfallback := @value_fallback budget env verifierContract hash r s x y
  -- slot `verifierContract` is zero, so that it is the zero address that answers
  cases hreply : env (query 0 hash r s x y) with
  | error e =>
    have heval := eval_ecdsaVerify_of_error verifierContract hash r s x y hreply
    have hverdict : verdict env verifierContract hash r s x y =
        .error (.reason "P256 verify call failed") := by
      rw [verdict, Prog.value, heval]
      rfl
    constructor
    · intro h
      have hcalls := h.calls
      rw [calls_ecdsaVerify] at hcalls
      exact ⟨(congrArg Call.target (List.cons.inj hcalls).1).symm, Or.inl ⟨e, rfl⟩⟩
    · rintro ⟨rfl, -⟩
      refine ⟨calls_ecdsaVerify env 0 hash r s x y, ?_, ?_⟩
      · rw [hverdict, hreply]
        constructor <;> intro h <;> cases h
      · rw [hfallback, heval, hverdict]
        rfl
  | ok data =>
    have heval := eval_ecdsaVerify_of_ok verifierContract hash r s x y hreply
    have hverdict : verdict env verifierContract hash r s x y = .ok false := by
      rw [verdict, Prog.value, heval]
      rfl
    have hpacked := returnPacked_eq_ok_iff (freePointer_afterCall hash r s x y data) budget
    rw [heval, ok_bind] at hfallback
    constructor
    · intro h
      have hcalls := h.calls
      rw [calls_ecdsaVerify] at hcalls
      obtain rfl : verifierContract = 0 := (congrArg Call.target (List.cons.inj hcalls).1).symm
      refine ⟨rfl, Or.inr ⟨fun hone => ?_, ?_⟩⟩
      · have htrue := h.accepts.mpr (hreply.trans hone)
        rw [hverdict] at htrue
        cases htrue
      · have hword := h.fallback
        rw [hfallback, hverdict] at hword
        exact hpacked.mp hword
    · rintro ⟨rfl, hcase⟩
      rcases hcase with ⟨e, he⟩ | ⟨hne, hfit⟩
      · cases he
      refine ⟨calls_ecdsaVerify env 0 hash r s x y, ?_, ?_⟩
      · rw [hverdict, hreply]
        exact iff_of_false (by simp) hne
      · rw [hfallback, hverdict]
        exact hpacked.mpr hfit

end Faithful

/-- A chain on which the verifier 7 accepts everything, and nobody else answers. -/
def accepting : Call → Reply := fun c => .ok (if c.target = 7 then Word.toBytes 1 else [])

/-- The wrapper around a verifier that accepts asks the zero address, and does not accept. -/
theorem not_accepted :
    accepting (query 7 0 1 1 1 1) = .ok (Word.toBytes 1) ∧
      Prog.calls accepting (ecdsaVerify 7 0 1 1 0x80 (withPubKey 1 1)) deploy =
        [query 0 0 1 1 1 1] ∧
      verdict accepting 7 0 1 1 1 1 = .ok false := by
  refine ⟨rfl, calls_ecdsaVerify accepting 7 0 1 1 1 1, ?_⟩
  rw [verdict, Prog.value, eval_ecdsaVerify_of_ok 7 0 1 1 1 1 rfl]
  rfl

end Enclave.P256VerifierYul
