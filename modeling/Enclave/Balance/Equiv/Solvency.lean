import Enclave.Balance.TokenVault
import Enclave.Evm.Mapping
import Enclave.Evm.Reentrancy
import Enclave.Evm.RoundTrip

/-!
# The vault stays solvent

`outcome_of_completes` says once what a call of the vault can do, whatever the tokens do that it
calls.  While the guard is set, nothing that other code does reaches the books
(`calm_vault`); between calls they are in order (`sound_of_enter`), and the events are those of the
calls that succeeded (`recorded_of_chain`).

`vault_solvent`: for every token whose `transfer` and `transferFrom` move exactly the amount when
they return true, and after every sequence of calls of the vault by anyone, on any tokens, which may
all call back: the deposits add up to no more than the balance of the vault, and the deposit of each
user is what they have deposited without what was withdrawn and claimed.
-/

namespace Enclave.TokenVault

/-! ### Selectors -/

theorem Method.selector_signature (m : Method) : m.selector = Enclave.selector m.signature := by
  cases m
  all_goals decide +kernel

theorem Callee.selector_signature (m : Callee) : m.selector = Enclave.selector m.signature := by
  cases m
  all_goals decide +kernel

theorem Method.dispatches : Dispatches Method.selector Method.all where
  length m := by cases m <;> rfl
  find m := by cases m <;> decide

/-- The vault has no function that it calls. -/
theorem ofCalldata_encode (m : Callee) (args : List AbiValue) :
    Method.ofCalldata (m.encode args) = none := by
  have htake : (m.encode args).take 4 = m.selector := by cases m <;> rfl
  refine ofSelector_eq_none fun m' => ?_
  rw [htake]
  cases m <;> cases m' <;> decide

/-! ### Calldata -/

/-- The call of `deposit`. -/
def depositMsg (user token : Address) (amount : Word) : Msg :=
  ⟨user, 0, Method.deposit.selector ++ abiEncode [word token, .word amount], false⟩

/-- The call of `withdraw`. -/
def withdrawMsg (user token : Address) (amount : Word) : Msg :=
  ⟨user, 0, Method.withdraw.selector ++ abiEncode [word token, .word amount], false⟩

/-- The call of `claim`, with the address of the owner as the proof. -/
def claimMsg (manager token owner : Address) (amount : Word) : Msg :=
  ⟨manager, 0, Method.claim.selector ++
    abiEncode [word token, .word amount, .bytes (abiEncode [word owner])], false⟩

/-- The call of `addVaultManager`. -/
def addVaultManagerMsg (manager newVaultManager : Address) : Msg :=
  ⟨manager, 0, Method.addVaultManager.selector ++ abiEncode [word newVaultManager], false⟩

/-- The vault runs the function that is called. -/
theorem body_append (this sender : Address) (m : Method) (args : Bytes) :
    body this ⟨sender, 0, m.selector ++ args, false⟩
      = run this ⟨sender, 0, m.selector ++ args, false⟩ args m := by
  have hm : Method.ofCalldata (m.selector ++ args) = some m :=
    ofSelector_append Method.dispatches m args
  rw [body, hm]
  simp only [ne_eq, not_true_eq_false, if_false, Method.dispatches.drop_append]

/-- An address and an amount are read back. -/
theorem decode_pair (a : Address) (amount : Word) :
    requireHead (abiEncode [word a, .word amount]) 64 = .ok () ∧
    abiDecodeAddress (abiEncode [word a, .word amount]) 0 = .ok a ∧
    abiDecodeWord (abiEncode [word a, .word amount]) 32 = .ok amount := by
  rw [abiEncode_eq_encodeParts, ← List.append_nil (encodeParts _)]
  exact ⟨requireHead_encodeParts _ [] le_rfl,
    decodeBits_encodeParts (i := 0) (by decide) rfl [], decodeWord_encodeParts (i := 1) rfl []⟩

theorem body_deposit (this token user : Address) (amount : Word) :
    body this (depositMsg user token amount) = noReturn (deposit this user token amount) := by
  obtain ⟨hhead, htoken, hamount⟩ := decode_pair token amount
  rw [depositMsg, body_append]
  simp only [run]
  rw [hhead, htoken, hamount]
  rfl

theorem body_withdraw (this token user : Address) (amount : Word) :
    body this (withdrawMsg user token amount) = noReturn (withdraw user token amount) := by
  obtain ⟨hhead, htoken, hamount⟩ := decode_pair token amount
  rw [withdrawMsg, body_append]
  simp only [run]
  rw [hhead, htoken, hamount]
  rfl

/-- The arguments of `claim`. -/
def claimParts (token owner : Address) (amount : Word) : List Part :=
  [.static (toWord token), .static amount, bytesPart (abiEncode [word owner])]

theorem length_claimParts (token owner : Address) (amount : Word) :
    (encodeParts (claimParts token owner amount)).length < 2 ^ 64 := by
  have hword : (abiEncode [word owner]).length = 32 := length_abiEncode_of_words [toWord owner]
  rw [length_encodeParts]
  simp only [claimParts, bytesPart, List.flatMap_cons, List.flatMap_nil, Part.tail, abiTail, pad32,
    List.length_append, List.length_cons, List.length_nil, List.length_replicate, length_toBytesBE,
    hword]
  omega

theorem body_claim (this token manager owner : Address) (amount : Word) :
    body this (claimMsg manager token owner amount)
      = noReturn (claim manager token amount (abiEncode [word owner])) := by
  have hargs : abiEncode [word token, .word amount, .bytes (abiEncode [word owner])]
      = encodeParts (claimParts token owner amount) := abiEncode_eq_encodeParts _
  have hhead := requireHead_encodeParts (claimParts token owner amount) [] (n := 96) le_rfl
  have htoken : abiDecodeAddress (encodeParts (claimParts token owner amount) ++ []) 0
      = .ok token := decodeBits_encodeParts (i := 0) (by decide) rfl []
  have hamount : abiDecodeWord (encodeParts (claimParts token owner amount) ++ []) 32
      = .ok amount := decodeWord_encodeParts (i := 1) rfl []
  have hproof : abiDecodeBytesCalldata (encodeParts (claimParts token owner amount) ++ []) 64
      = .ok (abiEncode [word owner]) :=
    decodeBytes_encodeParts (length_claimParts token owner amount) (i := 2) rfl []
  rw [List.append_nil] at hhead htoken hamount hproof
  rw [claimMsg, body_append, hargs]
  simp only [run]
  rw [hhead, htoken, hamount, hproof]
  rfl

theorem body_addVaultManager (this manager newVaultManager : Address) :
    body this (addVaultManagerMsg manager newVaultManager)
      = noReturn (Prog.modify (addVaultManager manager newVaultManager)) := by
  have hdecode : abiDecodeAddress (abiEncode [word newVaultManager]) 0 = .ok newVaultManager :=
    abiDecodeAddress_encode newVaultManager
  rw [addVaultManagerMsg, body_append]
  simp only [run]
  rw [hdecode]
  rfl

/-! ### What a call can do -/

section Calls

variable {E : Type} {this : Address} {U : Surroundings E}
  {out : Scene Storage E → Scene Storage E → Prop}
  {own : Msg → Scene Storage E → Bytes → Scene Storage E → Prop} {w w' : Scene Storage E}

/-- The events of the managers' functions. -/
def Event.isManagement : Event → Bool
  | .vaultManagerAdded _ | .vaultManagerRemoved _ => true
  | _ => false

/-- The event that a payout ends with, with the user whose deposit it is taken from. -/
inductive Payout (sender token : Address) (amount : Word) : Address → Event → Prop
  | withdrawn : Payout sender token amount sender (.withdrawn sender token amount)
  | claimed (owner : Address) :
    Payout sender token amount owner (.claimed sender token amount owner)

/-- The event that a call of the vault ends with when it succeeds, as its calldata says, for the
functions that move tokens. -/
def eventOf (msg : Msg) : Option Event :=
  match Method.ofCalldata msg.data with
  | some .deposit => Except.toOption do
    let token ← abiDecodeAddress (msg.data.drop 4) 0
    let amount ← abiDecodeWord (msg.data.drop 4) 32
    .ok (.deposited msg.sender token amount)
  | some .withdraw => Except.toOption do
    let token ← abiDecodeAddress (msg.data.drop 4) 0
    let amount ← abiDecodeWord (msg.data.drop 4) 32
    .ok (.withdrawn msg.sender token amount)
  | some .claim => Except.toOption do
    let token ← abiDecodeAddress (msg.data.drop 4) 0
    let amount ← abiDecodeWord (msg.data.drop 4) 32
    let proof ← abiDecodeBytesCalldata (msg.data.drop 4) 64
    let owner ← abiDecodeAddress proof 0
    .ok (.claimed msg.sender token amount owner)
  | _ => none

/-- What a call of the vault that succeeds has done. -/
inductive Outcome (this : Address) (U : Surroundings E)
    (out : Scene Storage E → Scene Storage E → Prop)
    (own : Msg → Scene Storage E → Bytes → Scene Storage E → Prop) (msg : Msg)
    (w : Scene Storage E) : Scene Storage E → Prop
  | nothing (hmsg : eventOf msg = none) : Outcome this U out own msg w w
  | managers (isVaultManager : Address → Bool) (e : Event) (he : e.isManagement = true)
      (hmsg : eventOf msg = none) :
      Outcome this U out own msg w
        ⟨{ w.storage with isVaultManager := isVaultManager }.emit e, w.env⟩
  | deposit (token : Address) (amount : Word) {data : Bytes} {w₁ : Scene Storage E} {s : Storage}
      (hstatus : w.storage.status ≠ 2)
      (hcall : Exchange this U out own (transferFromCall token msg.sender this amount)
        ⟨{ w.storage with status := 2 }, w.env⟩ data w₁)
      (hmoved : abiDecodeBool data 0 = .ok true)
      (hcredit : credit token msg.sender amount w₁.storage = .ok s)
      (hmsg : eventOf msg = some (.deposited msg.sender token amount)) :
      Outcome this U out own msg w
        ⟨{ s.emit (.deposited msg.sender token amount) with status := 1 }, w₁.env⟩
  | payout (token owner : Address) (amount : Word) (e : Event) {data : Bytes}
      {w₁ : Scene Storage E} {s : Storage} (hevent : Payout msg.sender token amount owner e)
      (hstatus : w.storage.status ≠ 2)
      (hdebit : debit token owner amount { w.storage with status := 2 } = .ok s)
      (hcall : Exchange this U out own (transferCall token msg.sender amount) ⟨s, w.env⟩ data w₁)
      (hmoved : abiDecodeBool data 0 = .ok true) (hmsg : eventOf msg = some e) :
      Outcome this U out own msg w ⟨{ w₁.storage.emit e with status := 1 }, w₁.env⟩

/-- The guard. -/
theorem of_nonReentrant {p : Prog Storage Unit} {u : Unit}
    (h : Completes this U out own (nonReentrant p) w u w') :
    w.storage.status ≠ 2 ∧ ∃ w₁, Completes this U out own p
      ⟨{ w.storage with status := 2 }, w.env⟩ () w₁ ∧
      w' = ⟨{ w₁.storage with status := 1 }, w₁.env⟩ := by
  obtain ⟨s₀, hlock, h⟩ := Completes.of_modify_bind h
  obtain ⟨_, hstatus, hs₀⟩ := bind_eq_ok.mp hlock
  rw [← Except.ok.inj hs₀] at h
  obtain ⟨_, w₁, hp, hunlock⟩ := Completes.of_bind h
  obtain ⟨s₁, hs₁, hw'⟩ := Completes.of_modify hunlock
  rw [← Except.ok.inj hs₁] at hw'
  exact ⟨require_eq_ok.mp hstatus, w₁, hp, hw'⟩

theorem of_requireTransfer_bind {β : Type} {c : Call} {f : Unit → Prog Storage β} {b : β}
    (h : Completes this U out own (requireTransfer c >>= f) w b w') :
    ∃ data w₁, Exchange this U out own c w data w₁ ∧ abiDecodeBool data 0 = .ok true ∧
      Completes this U out own (f ()) w₁ b w' := by
  obtain ⟨_, w₁, htransfer, hf⟩ := Completes.of_bind h
  obtain ⟨data, w₂, hcall, hrest⟩ := Completes.of_bind htransfer
  obtain ⟨moved, hdecode, hrest⟩ := Completes.of_lift_bind hrest
  obtain ⟨hrequire, hw₁⟩ := Completes.of_lift hrest
  rw [require_eq_ok.mp hrequire] at hdecode
  rw [hw₁] at hf
  exact ⟨data, w₂, Completes.of_callOrRevert hcall, hdecode, hf⟩

theorem of_emit {e : Event} {u : Unit}
    (h : Completes this U out own (Prog.modify fun s => .ok (s.emit e)) w u w') :
    w' = ⟨w.storage.emit e, w.env⟩ := by
  obtain ⟨s, hs, hw'⟩ := Completes.of_modify h
  rw [hw', ← Except.ok.inj hs]

theorem outcome_of_deposit {msg : Msg} {token : Address} {amount : Word} {u : Unit}
    (hmsg : eventOf msg = some (.deposited msg.sender token amount))
    (h : Completes this U out own (deposit this msg.sender token amount) w u w') :
    Outcome this U out own msg w w' := by
  obtain ⟨hstatus, w₁, hguarded, rfl⟩ := of_nonReentrant h
  obtain ⟨_, -, hguarded⟩ := Completes.of_lift_bind hguarded
  obtain ⟨data, w₂, hcall, hmoved, hbooks⟩ := of_requireTransfer_bind hguarded
  obtain ⟨s, hcredit, hemit⟩ := Completes.of_modify_bind hbooks
  rw [of_emit hemit]
  show Outcome this U out own msg w
    ⟨{ s.emit (.deposited msg.sender token amount) with status := 1 }, w₂.env⟩
  exact .deposit token amount hstatus hcall hmoved hcredit hmsg

/-- The end of `withdraw` and of `claim`. -/
theorem outcome_of_payout {msg : Msg} {token owner : Address} {amount : Word} {e : Event}
    {w₁ : Scene Storage E} {u : Unit} (hevent : Payout msg.sender token amount owner e)
    (hmsg : eventOf msg = some e) (hstatus : w.storage.status ≠ 2)
    (h : Completes this U out own (do
      Prog.modify (debit token owner amount)
      requireTransfer (transferCall token msg.sender amount)
      Prog.modify fun s => .ok (s.emit e)) ⟨{ w.storage with status := 2 }, w.env⟩ u w₁) :
    Outcome this U out own msg w ⟨{ w₁.storage with status := 1 }, w₁.env⟩ := by
  obtain ⟨s, hdebit, h⟩ := Completes.of_modify_bind h
  obtain ⟨data, w₂, hcall, hmoved, hemit⟩ := of_requireTransfer_bind h
  rw [of_emit hemit]
  exact .payout token owner amount e hevent hstatus hdebit hcall hmoved hmsg

theorem outcome_of_withdraw {msg : Msg} {token : Address} {amount : Word} {u : Unit}
    (hmsg : eventOf msg = some (.withdrawn msg.sender token amount))
    (h : Completes this U out own (withdraw msg.sender token amount) w u w') :
    Outcome this U out own msg w w' := by
  obtain ⟨hstatus, w₁, hguarded, rfl⟩ := of_nonReentrant h
  obtain ⟨_, -, hguarded⟩ := Completes.of_lift_bind hguarded
  exact outcome_of_payout .withdrawn hmsg hstatus hguarded

theorem outcome_of_claim {msg : Msg} {token : Address} {amount : Word} {proof : Bytes} {u : Unit}
    (hmsg : ∀ owner, abiDecodeAddress proof 0 = .ok owner →
      eventOf msg = some (.claimed msg.sender token amount owner))
    (h : Completes this U out own (claim msg.sender token amount proof) w u w') :
    Outcome this U out own msg w w' := by
  obtain ⟨hstatus, w₁, hguarded, rfl⟩ := of_nonReentrant h
  obtain ⟨_, -, hguarded⟩ := Completes.of_lift_bind (Completes.of_storage_bind hguarded)
  obtain ⟨_, -, hguarded⟩ := Completes.of_lift_bind hguarded
  obtain ⟨owner, howner, hguarded⟩ := Completes.of_lift_bind hguarded
  exact outcome_of_payout (.claimed owner) (hmsg owner howner) hstatus hguarded

theorem of_noReturn {p : Prog Storage Unit} {data : Bytes}
    (h : Completes this U out own (noReturn p) w data w') :
    Completes this U out own p w () w' := by
  obtain ⟨_, w₁, hp, hpure⟩ := Completes.of_bind h
  rw [(Completes.of_pure hpure).2]
  exact hp

theorem outcome_of_addVaultManager {msg : Msg} {newVaultManager : Address} {u : Unit}
    (hmsg : eventOf msg = none)
    (h : Completes this U out own (Prog.modify (addVaultManager msg.sender newVaultManager)) w u
      w') : Outcome this U out own msg w w' := by
  obtain ⟨s, hs, rfl⟩ := Completes.of_modify h
  unfold addVaultManager at hs
  simp only [bind_eq_ok] at hs
  obtain ⟨_, -, _, -, _, -, hs⟩ := hs
  rw [← Except.ok.inj hs]
  exact .managers _ _ rfl hmsg

theorem outcome_of_removeVaultManager {msg : Msg} {vaultManager : Address} {u : Unit}
    (hmsg : eventOf msg = none)
    (h : Completes this U out own (Prog.modify (removeVaultManager msg.sender vaultManager)) w u
      w') : Outcome this U out own msg w w' := by
  obtain ⟨s, hs, rfl⟩ := Completes.of_modify h
  unfold removeVaultManager at hs
  simp only [bind_eq_ok] at hs
  obtain ⟨_, -, _, -, _, -, hs⟩ := hs
  rw [← Except.ok.inj hs]
  exact .managers _ _ rfl hmsg

/-- **One call of the vault**, whatever its calldata. -/
theorem outcome_of_completes {msg : Msg} {data : Bytes}
    (h : Completes this U out own (body this msg) w data w') : Outcome this U out own msg w w' := by
  unfold body at h
  cases hm : Method.ofCalldata msg.data with
  | none =>
    rw [hm] at h
    cases h
  | some m =>
    rw [hm] at h
    simp only at h
    split_ifs at h with hvalue
    · cases h
    · cases m with
      | deposits =>
        have hmsg : eventOf msg = none := by rw [eventOf, hm]
        obtain ⟨_, -, h⟩ := Completes.of_lift_bind h
        obtain ⟨token, -, h⟩ := Completes.of_lift_bind h
        obtain ⟨user, -, h⟩ := Completes.of_lift_bind h
        have hpure := Completes.of_storage_bind h
        rw [(Completes.of_pure hpure).2]
        exact .nothing hmsg
      | isVaultManager =>
        have hmsg : eventOf msg = none := by rw [eventOf, hm]
        obtain ⟨manager, -, h⟩ := Completes.of_lift_bind h
        have hpure := Completes.of_storage_bind h
        rw [(Completes.of_pure hpure).2]
        exact .nothing hmsg
      | addVaultManager =>
        have hmsg : eventOf msg = none := by rw [eventOf, hm]
        obtain ⟨newVaultManager, -, h⟩ := Completes.of_lift_bind h
        exact outcome_of_addVaultManager hmsg (of_noReturn h)
      | removeVaultManager =>
        have hmsg : eventOf msg = none := by rw [eventOf, hm]
        obtain ⟨vaultManager, -, h⟩ := Completes.of_lift_bind h
        exact outcome_of_removeVaultManager hmsg (of_noReturn h)
      | deposit =>
        obtain ⟨_, -, h⟩ := Completes.of_lift_bind h
        obtain ⟨token, htoken, h⟩ := Completes.of_lift_bind h
        obtain ⟨amount, hamount, h⟩ := Completes.of_lift_bind h
        have hmsg : eventOf msg = some (.deposited msg.sender token amount) := by
          rw [eventOf, hm]
          simp only [htoken, hamount]
          rfl
        exact outcome_of_deposit hmsg (of_noReturn h)
      | withdraw =>
        obtain ⟨_, -, h⟩ := Completes.of_lift_bind h
        obtain ⟨token, htoken, h⟩ := Completes.of_lift_bind h
        obtain ⟨amount, hamount, h⟩ := Completes.of_lift_bind h
        have hmsg : eventOf msg = some (.withdrawn msg.sender token amount) := by
          rw [eventOf, hm]
          simp only [htoken, hamount]
          rfl
        exact outcome_of_withdraw hmsg (of_noReturn h)
      | claim =>
        obtain ⟨_, -, h⟩ := Completes.of_lift_bind h
        obtain ⟨token, htoken, h⟩ := Completes.of_lift_bind h
        obtain ⟨amount, hamount, h⟩ := Completes.of_lift_bind h
        obtain ⟨proof, hproof, h⟩ := Completes.of_lift_bind h
        -- the owner is decoded only after the checks of `claim`
        have hmsg : ∀ owner, abiDecodeAddress proof 0 = .ok owner →
            eventOf msg = some (.claimed msg.sender token amount owner) := by
          intro owner howner
          rw [eventOf, hm]
          simp only [htoken, hamount, hproof]
          show Except.toOption (do
            let owner ← abiDecodeAddress proof 0
            .ok (Event.claimed msg.sender token amount owner)) = _
          rw [howner]
          rfl
        exact outcome_of_claim hmsg (of_noReturn h)

end Calls

/-! ### The books -/

/-- The amounts that a list of events adds up to, where `f` gives the amount of each. -/
def total (f : Event → ℕ) (events : List Event) : ℕ := (events.map f).sum

theorem total_concat (f : Event → ℕ) (events : List Event) (e : Event) :
    total f (events ++ [e]) = total f events + f e := by
  simp [total]

/-- What `user` has deposited of `token`. -/
def deposited (token user : Address) : List Event → ℕ := total fun
  | .deposited u t amount => if t = token ∧ u = user then amount.toNat else 0
  | _ => 0

/-- What `user` has withdrawn of `token`. -/
def withdrawn (token user : Address) : List Event → ℕ := total fun
  | .withdrawn u t amount => if t = token ∧ u = user then amount.toNat else 0
  | _ => 0

/-- What has been claimed of `token` against `user`. -/
def claimed (token user : Address) : List Event → ℕ := total fun
  | .claimed _ t amount u => if t = token ∧ u = user then amount.toNat else 0
  | _ => 0

/-- The events of the functions that move tokens. -/
def recorded (events : List Event) : List Event := events.filter fun e => !e.isManagement

theorem recorded_concat (events : List Event) (e : Event) :
    recorded (events ++ [e]) = recorded events ++ if e.isManagement then [] else [e] := by
  cases h : e.isManagement <;> simp [recorded, h]

/-- The managers' events carry no amounts. -/
theorem total_recorded {f : Event → ℕ} (hf : ∀ e, e.isManagement = true → f e = 0)
    (events : List Event) : total f (recorded events) = total f events := by
  induction events with
  | nil => rfl
  | cons e events ih =>
    unfold total recorded at *
    cases h : e.isManagement <;> simp [h, ih, hf]

/-- Every deposit is what came in without what went out. -/
def Balanced (s : Storage) : Prop := ∀ token user,
  (s.deposits token user).toNat + withdrawn token user s.events + claimed token user s.events
    = deposited token user s.events

/-- Nothing has happened that concerns the deposits. -/
structure SameBooks (s s' : Storage) : Prop where
  deposits : s'.deposits = s.deposits
  status : s'.status = s.status
  recorded : recorded s'.events = recorded s.events

namespace SameBooks

variable {s s₁ s' : Storage}

theorem refl (s : Storage) : SameBooks s s := ⟨rfl, rfl, rfl⟩

theorem trans (h : SameBooks s s₁) (h' : SameBooks s₁ s') : SameBooks s s' where
  deposits := h'.deposits.trans h.deposits
  status := h'.status.trans h.status
  recorded := h'.recorded.trans h.recorded

theorem total (h : SameBooks s s') {f : Event → ℕ} (hf : ∀ e, e.isManagement = true → f e = 0) :
    total f s'.events = total f s.events := by
  rw [← total_recorded hf s'.events, h.recorded, total_recorded hf]

theorem deposited (h : SameBooks s s') (token user : Address) :
    deposited token user s'.events = deposited token user s.events :=
  h.total fun e he => by cases e <;> first | rfl | cases he

theorem withdrawn (h : SameBooks s s') (token user : Address) :
    withdrawn token user s'.events = withdrawn token user s.events :=
  h.total fun e he => by cases e <;> first | rfl | cases he

theorem claimed (h : SameBooks s s') (token user : Address) :
    claimed token user s'.events = claimed token user s.events :=
  h.total fun e he => by cases e <;> first | rfl | cases he

theorem balanced (h : SameBooks s s') (hs : Balanced s) : Balanced s' := by
  intro token user
  rw [h.deposits, h.deposited, h.withdrawn, h.claimed]
  exact hs token user

/-- The managers do not concern the deposits. -/
theorem of_management (isVaultManager : Address → Bool) {e : Event} (he : e.isManagement = true) :
    SameBooks s ({ s with isVaultManager := isVaultManager }.emit e) := by
  refine ⟨rfl, rfl, ?_⟩
  show TokenVault.recorded (s.events ++ [e]) = TokenVault.recorded s.events
  rw [recorded_concat, he, if_pos rfl, List.append_nil]

end SameBooks

/-- A deposit, entered on both sides. -/
theorem balanced_of_credit {s s' : Storage} {token user : Address} {amount : Word}
    (hs : Balanced s) (h : credit token user amount s = .ok s') :
    Balanced { s'.emit (.deposited user token amount) with status := 1 } := by
  obtain ⟨balance, hadd, hset⟩ := bind_eq_ok.mp h
  obtain rfl := Except.ok.inj hset
  have hbalance := Word.checkedAdd_eq_ok.mp hadd
  intro t u
  have hold := hs t u
  simp only [Storage.emit, Storage.setDeposit, deposited, withdrawn, claimed, total_concat] at *
  by_cases ht : t = token
  · by_cases hu : u = user
    · subst ht hu
      rw [Function.update_self, Function.update_self, if_pos ⟨rfl, rfl⟩]
      omega
    · subst ht
      rw [Function.update_self, Function.update_of_ne hu, if_neg fun h => hu h.2.symm]
      omega
  · rw [Function.update_of_ne ht, if_neg fun h => ht h.1.symm]
    omega

/-- A payout, entered on one side before the transfer and on the other one after it. -/
theorem balanced_of_debit {s₀ s s₁ : Storage} {sender token owner : Address} {amount : Word}
    {e : Event} (hs : Balanced s₀) (h : debit token owner amount s₀ = .ok s)
    (hsame : SameBooks s s₁) (hevent : Payout sender token amount owner e) :
    Balanced { s₁.emit e with status := 1 } := by
  unfold debit at h
  simp only [bind_eq_ok] at h
  obtain ⟨_, -, balance, hsub, hset⟩ := h
  obtain rfl := Except.ok.inj hset
  have hbalance := Word.checkedSub_eq_ok.mp hsub
  intro t u
  have hold := hs t u
  have hdeposits := congrFun (congrFun hsame.deposits t) u
  have hin := hsame.deposited t u
  have hout := hsame.withdrawn t u
  have hclaimed := hsame.claimed t u
  -- the amount that leaves the deposit of `u` is the amount of the event
  have hmoved : (s₁.deposits t u).toNat + (if token = t ∧ owner = u then amount.toNat else 0)
      = (s₀.deposits t u).toNat := by
    rw [hdeposits]
    simp only [Storage.setDeposit]
    by_cases ht : t = token
    · by_cases hu : u = owner
      · subst ht hu
        rw [Function.update_self, Function.update_self, if_pos ⟨rfl, rfl⟩, hbalance]
      · subst ht
        rw [Function.update_self, Function.update_of_ne hu, if_neg fun h => hu h.2.symm, add_zero]
    · rw [Function.update_of_ne ht, if_neg fun h => ht h.1.symm, add_zero]
  cases hevent <;>
    simp only [Storage.emit, Storage.setDeposit, deposited, withdrawn, claimed, total_concat]
      at * <;>
    omega

/-! ### The sum of the deposits -/

/-- What the vault owes to all users. -/
noncomputable def liabilities (token : Address) (s : Storage) : ℕ :=
  ∑ᶠ user, (s.deposits token user).toNat

theorem liabilities_setDeposit (s : Storage) (t token user : Address) (amount : Word) :
    liabilities t (s.setDeposit token user amount)
        + (if token = t then (s.deposits token user).toNat else 0)
      = liabilities t s + (if token = t then amount.toNat else 0) := by
  unfold liabilities Storage.setDeposit
  by_cases ht : token = t
  · subst ht
    rw [if_pos rfl, if_pos rfl]
    simp only [Function.update_self]
    exact finsum_update BitVec.toNat (s.deposits token) user amount
  · rw [if_neg ht, if_neg ht]
    simp only [Function.update_of_ne (Ne.symm ht)]

theorem liabilities_of_credit {s s' : Storage} {t token user : Address} {amount : Word}
    (h : credit token user amount s = .ok s') :
    liabilities t s' = liabilities t s + (if token = t then amount.toNat else 0) := by
  obtain ⟨balance, hadd, hset⟩ := bind_eq_ok.mp h
  have hbalance := Word.checkedAdd_eq_ok.mp hadd
  have hsum := liabilities_setDeposit s t token user balance
  rw [← Except.ok.inj hset]
  by_cases ht : token = t
  · rw [if_pos ht, if_pos ht] at hsum
    rw [if_pos ht]
    omega
  · rw [if_neg ht, if_neg ht] at hsum
    rw [if_neg ht]
    omega

theorem liabilities_of_debit {s s' : Storage} {t token user : Address} {amount : Word}
    (h : debit token user amount s = .ok s') :
    liabilities t s' + (if token = t then amount.toNat else 0) = liabilities t s := by
  unfold debit at h
  simp only [bind_eq_ok] at h
  obtain ⟨_, -, balance, hsub, hset⟩ := h
  have hbalance := Word.checkedSub_eq_ok.mp hsub
  have hsum := liabilities_setDeposit s t token user balance
  rw [← Except.ok.inj hset]
  by_cases ht : token = t
  · rw [if_pos ht, if_pos ht] at hsum
    rw [if_pos ht]
    omega
  · rw [if_neg ht, if_neg ht] at hsum
    rw [if_neg ht]
    omega

/-- The books are not the guard, and writing in them emits nothing. -/
theorem frame_of_credit {s s' : Storage} {token user : Address} {amount : Word}
    (h : credit token user amount s = .ok s') : s'.status = s.status ∧ s'.events = s.events := by
  obtain ⟨balance, -, hset⟩ := bind_eq_ok.mp h
  rw [← Except.ok.inj hset]
  exact ⟨rfl, rfl⟩

theorem frame_of_debit {s s' : Storage} {token user : Address} {amount : Word}
    (h : debit token user amount s = .ok s') : s'.status = s.status ∧ s'.events = s.events := by
  unfold debit at h
  simp only [bind_eq_ok] at h
  obtain ⟨_, -, balance, -, hset⟩ := h
  rw [← Except.ok.inj hset]
  exact ⟨rfl, rfl⟩

theorem liabilities_congr {s s' : Storage} (t : Address) (h : s'.deposits = s.deposits) :
    liabilities t s' = liabilities t s := by
  unfold liabilities
  rw [h]

/-! ### The token -/

/-- What a call of the vault does to its balance in `token`, besides what others pay in: a
`transfer` or `transferFrom` that returns true moves exactly the amount, and nothing else lowers the
balance. -/
structure Moves (token this : Address) (c : Call) (data : Bytes) (balance balance' : ℕ) : Prop where
  transfer : ∀ recipient amount, c = transferCall token recipient amount →
    abiDecodeBool data 0 = .ok true →
    balance' + amount.toNat = balance + (if recipient = this then amount.toNat else 0)
  transferFrom : ∀ sender recipient amount, c = transferFromCall token sender recipient amount →
    abiDecodeBool data 0 = .ok true →
    balance' + (if sender = this then amount.toNat else 0)
      = balance + (if recipient = this then amount.toNat else 0)
  refused : abiDecodeBool data 0 ≠ .ok true → balance ≤ balance'
  other : (∀ recipient amount, c ≠ transferCall token recipient amount) →
    (∀ sender recipient amount, c ≠ transferFromCall token sender recipient amount) →
    balance ≤ balance'

/-- The balance of the vault in `token`, which others can only raise. -/
def tokenBalance (token this : Address) : Surroundings ℕ where
  drift balance balance' := balance ≤ balance'
  effect := Moves token this

theorem le_of_moves {token token' this : Address} {c : Call} {data : Bytes} {b b' : ℕ}
    (h : Moves token this c data b b') (htarget : c.target = token') (hne : token' ≠ token) :
    b ≤ b' := by
  apply h.other
  · rintro recipient amount rfl
    exact hne htarget.symm
  · rintro sender recipient amount rfl
    exact hne htarget.symm

/-- What the vault collects for a deposit. -/
theorem rise_of_transferFrom {token token' this sender : Address} {amount : Word} {data : Bytes}
    {b b' : ℕ} (h : Moves token this (transferFromCall token' sender this amount) data b b')
    (hmoved : abiDecodeBool data 0 = .ok true) (hsender : sender ≠ this) :
    b + (if token' = token then amount.toNat else 0) ≤ b' := by
  by_cases htoken : token' = token
  · have hexact := h.transferFrom sender this amount (by rw [htoken]) hmoved
    rw [if_neg hsender, if_pos rfl] at hexact
    rw [if_pos htoken]
    omega
  · rw [if_neg htoken]
    exact le_of_moves h rfl htoken

/-- What the vault pays out. -/
theorem fall_of_transfer {token token' this recipient : Address} {amount : Word} {data : Bytes}
    {b b' : ℕ} (h : Moves token this (transferCall token' recipient amount) data b b')
    (hmoved : abiDecodeBool data 0 = .ok true) (hrecipient : recipient ≠ this) :
    b ≤ b' + (if token' = token then amount.toNat else 0) := by
  by_cases htoken : token' = token
  · have hexact := h.transfer recipient amount (by rw [htoken]) hmoved
    rw [if_neg hrecipient] at hexact
    rw [if_pos htoken]
    omega
  · rw [if_neg htoken]
    exact le_of_moves h rfl htoken

/-! ### While the guard is set -/

/-- The guard is set. -/
def Locked (s : Storage) : Prop := s.status = 2

/-- The books stay as they are, and the balance does not fall. -/
def Idle (w w' : Scene Storage ℕ) : Prop := SameBooks w.storage w'.storage ∧ w.env ≤ w'.env

theorem Idle.trans {w w₁ w' : Scene Storage ℕ} (h : Idle w w₁) (h' : Idle w₁ w') : Idle w w' :=
  ⟨h.1.trans h'.1, h.2.trans h'.2⟩

/-- **The guard**: while it is set, nothing that anyone does concerns the deposits. -/
theorem calm_vault (token this : Address) (n : ℕ) :
    Calm Locked Idle (Talk this (tokenBalance token this) (body this) n)
      (Enter this (tokenBalance token this) (body this) n) := by
  refine calm_of_body (fun w => ⟨.refl _, le_rfl⟩) ?_ ?_ ?_ ?_ n
  · intro w w₁ w' h h'
    exact h.trans h'
  · intro w w' h hlocked
    exact h.1.status.trans hlocked
  · intro w e hdrift
    exact ⟨.refl _, hdrift⟩
  · intro out own _ msg w data w' hlocked h
    cases outcome_of_completes h with
    | nothing _ => exact ⟨.refl _, le_rfl⟩
    | managers isVaultManager e he => exact ⟨.of_management isVaultManager he, le_rfl⟩
    | deposit token amount hstatus => exact absurd hlocked hstatus
    | payout token owner amount e hevent hstatus => exact absurd hlocked hstatus

/-- The vault does not answer the calls that it makes. -/
theorem not_enter_encode {E : Type} {U : Surroundings E} {this sender : Address} {value : Word}
    {static : Bool} {n : ℕ} {m : Callee} {args : List AbiValue} {w w' : Scene Storage E}
    {data : Bytes} :
    ¬Enter this U (body this) n ⟨sender, value, m.encode args, static⟩ w data w' := by
  intro h
  cases n with
  | zero => exact h
  | succ n =>
    have hcompletes := enter_succ.mp h
    unfold body at hcompletes
    rw [ofCalldata_encode] at hcompletes
    cases hcompletes

/-- A call to a token, made under the guard. -/
theorem exchange_spec {token this token' : Address} {n : ℕ} {m : Callee} {args : List AbiValue}
    {w w' : Scene Storage ℕ} {data : Bytes} (hlocked : Locked w.storage)
    (h : Exchange this (tokenBalance token this)
      (Talk this (tokenBalance token this) (body this) n)
      (Enter this (tokenBalance token this) (body this) n)
      ⟨.call, token', 0, m.encode args⟩ w data w') :
    SameBooks w.storage w'.storage ∧ ∃ b b', w.env ≤ b ∧ b' ≤ w'.env ∧
      Moves token this ⟨.call, token', 0, m.encode args⟩ data b b' := by
  have hcalm := calm_vault token this n
  cases h with
  | own static hkind htarget henter => exact (not_enter_encode henter).elim
  | @other w₁ b' _ _ hkind htarget hbefore heffect hafter =>
    have h₁ := hcalm.out hlocked hbefore
    have hlocked₁ : Locked w₁.storage := h₁.1.status.trans hlocked
    have h₂ : Idle ⟨w₁.storage, b'⟩ w' := hcalm.out hlocked₁ hafter
    exact ⟨h₁.1.trans h₂.1, w₁.env, b', h₁.2, h₂.2, heffect⟩
  | probe hkind => cases hkind
  | delegate hkind => cases hkind

/-! ### Between calls -/

/-- The guard is not set, the books are in order, and the balance covers the deposits. -/
structure Sound (token : Address) (w : Scene Storage ℕ) : Prop where
  status : w.storage.status = 1
  balanced : Balanced w.storage
  solvent : liabilities token w.storage ≤ w.env

/-- A call from outside keeps the vault sound. -/
theorem sound_of_enter {token this : Address} {n : ℕ} {msg : Msg} {w w' : Scene Storage ℕ}
    {data : Bytes} (hsender : msg.sender ≠ this) (hw : Sound token w)
    (h : Enter this (tokenBalance token this) (body this) n msg w data w') : Sound token w' := by
  cases n with
  | zero => exact h.elim
  | succ n =>
    cases outcome_of_completes (enter_succ.mp h) with
    | nothing _ => exact hw
    | managers isVaultManager e he =>
      have hsame := SameBooks.of_management (s := w.storage) isVaultManager he
      refine ⟨hsame.status.trans hw.status, hsame.balanced hw.balanced, ?_⟩
      rw [liabilities_congr token hsame.deposits]
      exact hw.solvent
    | @deposit token' amount data w₁ s hstatus hcall hmoved hcredit _ =>
      -- the token may call back before the credit, but the guard is taken: the books stand still
      have hlocked : Locked { w.storage with status := 2 } := rfl
      obtain ⟨hsame, b, b', hle, hle', hmoves⟩ := exchange_spec hlocked hcall
      have hbalanced : Balanced w₁.storage := hsame.balanced hw.balanced
      refine ⟨rfl, balanced_of_credit hbalanced hcredit, ?_⟩
      show liabilities token s ≤ w₁.env
      have hrise := rise_of_transferFrom hmoves hmoved hsender
      have hsame : liabilities token w₁.storage = liabilities token w.storage :=
        liabilities_congr token hsame.deposits
      have hsum := liabilities_of_credit (t := token) hcredit
      have hsolvent := hw.solvent
      have hle : w.env ≤ b := hle
      omega
    | @payout token' owner amount e data w₁ s hevent hstatus hdebit hcall hmoved _ =>
      -- the debit is written before the token is called, and the guard is taken as well
      have hlocked : Locked s := (frame_of_debit hdebit).1
      obtain ⟨hsame, b, b', hle, hle', hmoves⟩ := exchange_spec hlocked hcall
      have hbalanced : Balanced { w.storage with status := 2 } := hw.balanced
      refine ⟨rfl, balanced_of_debit hbalanced hdebit hsame hevent, ?_⟩
      show liabilities token w₁.storage ≤ w₁.env
      have hfall := fall_of_transfer hmoves hmoved hsender
      have hsame : liabilities token w₁.storage = liabilities token s :=
        liabilities_congr token hsame.deposits
      have hsum : liabilities token s + (if token' = token then amount.toNat else 0)
          = liabilities token w.storage :=
        (liabilities_of_debit hdebit).trans (liabilities_congr token rfl)
      have hsolvent := hw.solvent
      have hle : w.env ≤ b := hle
      omega

/-- **The events are the calls**: a call from outside that succeeds records what its calldata asks
for, and nothing is recorded by the calls that are made while it lasts. -/
theorem recorded_of_enter {token this : Address} {n : ℕ} {msg : Msg} {w w' : Scene Storage ℕ}
    {data : Bytes} (h : Enter this (tokenBalance token this) (body this) n msg w data w') :
    recorded w'.storage.events = recorded w.storage.events ++ (eventOf msg).toList := by
  cases n with
  | zero => exact h.elim
  | succ n =>
    cases outcome_of_completes (enter_succ.mp h) with
    | nothing hmsg => rw [hmsg, Option.toList_none, List.append_nil]
    | managers isVaultManager e he hmsg =>
      rw [hmsg, Option.toList_none, List.append_nil]
      exact (SameBooks.of_management isVaultManager he).recorded
    | @deposit token' amount data w₁ s hstatus hcall hmoved hcredit hmsg =>
      -- the token may call back, but the guard is closed
      have hlocked : Locked { w.storage with status := 2 } := rfl
      have hsame : recorded w₁.storage.events = recorded w.storage.events :=
        (exchange_spec hlocked hcall).1.recorded
      show recorded (s.events ++ [_]) = _
      rw [recorded_concat, (frame_of_credit hcredit).2, hsame, hmsg]
      rfl
    | @payout token' owner amount e data w₁ s hevent hstatus hdebit hcall hmoved hmsg =>
      obtain ⟨hstatus, hevents⟩ := frame_of_debit hdebit
      have hlocked : Locked s := hstatus
      have hsame : recorded w₁.storage.events = recorded s.events :=
        (exchange_spec hlocked hcall).1.recorded
      have hmoves : e.isManagement = false := by cases hevent <;> rfl
      show recorded (w₁.storage.events ++ [e]) = _
      rw [recorded_concat, hsame, hevents, hmsg, hmoves]
      rfl

/-- What the vault has recorded since its deployment are the deposits, withdrawals and claims that
succeeded, in their order. -/
theorem recorded_of_chain {token this deployer : Address} {balance : ℕ} {w : Scene Storage ℕ}
    (hchain : Chain this (tokenBalance token this) (body this) ⟨deploy deployer, balance⟩ w) :
    ∃ msgs, TopCalls this (tokenBalance token this) (body this) ⟨deploy deployer, balance⟩ msgs w ∧
      recorded w.storage.events = msgs.filterMap eventOf := by
  obtain ⟨msgs, hcalls⟩ := topCalls_of_chain hchain
  exact ⟨msgs, hcalls,
    log_of_topCalls (fun s => recorded s.events) eventOf recorded_of_enter hcalls⟩

theorem sound_of_chain {token this deployer : Address} {balance : ℕ} {w : Scene Storage ℕ}
    (hchain : Chain this (tokenBalance token this) (body this) ⟨deploy deployer, balance⟩ w) :
    Sound token w := by
  have hdeploy : Sound token ⟨deploy deployer, balance⟩ := by
    refine ⟨rfl, fun token user => rfl, ?_⟩
    have hzero : liabilities token (deploy deployer) = 0 := finsum_eq_zero_of_forall_eq_zero
      fun user => rfl
    show liabilities token (deploy deployer) ≤ balance
    omega
  refine invariant_of_chain ?_ ?_ hdeploy hchain
  · intro w e hw hdrift
    exact ⟨hw.status, hw.balanced, hw.solvent.trans hdrift⟩
  · intro n msg w data w' hsender hw henter
    exact sound_of_enter hsender hw henter

/-- **Solvency**: for every token as described by `Moves`, after every sequence of calls of the
vault from its deployment on, by anyone and with any tokens, all of which may call back. -/
theorem vault_solvent (token this deployer : Address) (balance : ℕ) (w : Scene Storage ℕ)
    (hchain : Chain this (tokenBalance token this) (body this) ⟨deploy deployer, balance⟩ w) :
    ∑ᶠ user, (w.storage.deposits token user).toNat ≤ w.env ∧
      ∀ user, (w.storage.deposits token user).toNat + withdrawn token user w.storage.events
        + claimed token user w.storage.events = deposited token user w.storage.events := by
  have hsound := sound_of_chain hchain
  exact ⟨hsound.solvent, hsound.balanced token⟩

/-! ### A run with a callback -/

/-- The answer of a token whose transfer succeeds. -/
theorem decode_true : abiDecodeBool (abiEncode [.word 1]) 0 = .ok true := by decide

/-- The two calls of a token differ in their selectors. -/
theorem transferCall_ne_transferFromCall (token token' recipient sender recipient' : Address)
    (amount amount' : Word) :
    transferCall token recipient amount ≠ transferFromCall token' sender recipient' amount' := by
  intro h
  have hselector : Callee.transfer.selector = Callee.transferFrom.selector :=
    congrArg (fun c => c.data.take 4) h
  exact absurd hselector (by decide)

/-- A token that takes the amount from a user. -/
theorem moves_transferFrom {token this sender : Address} {amount : Word} {b b' : ℕ}
    (hsender : sender ≠ this) (hb : b' = b + amount.toNat) :
    Moves token this (transferFromCall token sender this amount) (abiEncode [.word 1]) b b' := by
  refine ⟨fun recipient amount' h _ => ?_, fun sender' recipient amount' h _ => ?_,
    fun h => absurd decode_true h, fun _ h => absurd rfl (h sender this amount)⟩
  · exact absurd h.symm (transferCall_ne_transferFromCall _ _ _ _ _ _ _)
  · have hargs : abiEncode [word sender, word this, .word amount]
        = abiEncode [word sender', word recipient, .word amount'] :=
      congrArg (fun c => c.data.drop 4) h
    have hvalues := abiEncode_injective (by repeat' constructor) hargs
    simp only [word, List.cons.injEq, AbiValue.word.injEq, and_true] at hvalues
    obtain ⟨hsender', hrecipient, rfl⟩ := hvalues
    obtain rfl := toWord_inj (by decide) hsender'
    obtain rfl := toWord_inj (by decide) hrecipient
    rw [if_neg hsender, if_pos rfl, hb, add_zero]

/-- A token that gives the amount to a user. -/
theorem moves_transfer {token this recipient : Address} {amount : Word} {b b' : ℕ}
    (hrecipient : recipient ≠ this) (hb : b' + amount.toNat = b) :
    Moves token this (transferCall token recipient amount) (abiEncode [.word 1]) b b' := by
  refine ⟨fun recipient' amount' h _ => ?_, fun sender recipient' amount' h _ => ?_,
    fun h => absurd decode_true h, fun h _ => absurd rfl (h recipient amount)⟩
  · have hargs : abiEncode [word recipient, .word amount]
        = abiEncode [word recipient', .word amount'] :=
      congrArg (fun c => c.data.drop 4) h
    have hvalues := abiEncode_injective (by repeat' constructor) hargs
    simp only [word, List.cons.injEq, AbiValue.word.injEq, and_true] at hvalues
    obtain ⟨hrecipient', rfl⟩ := hvalues
    obtain rfl := toWord_inj (by decide) hrecipient'
    rw [if_neg hrecipient, hb, add_zero]
  · exact absurd h (transferCall_ne_transferFromCall _ _ _ _ _ _ _)

/-- The vault after the user 5 has deposited 10 of the token 11. -/
def afterDeposit : Storage :=
  { (((deploy 1).setDeposit 11 5 10).emit (.deposited 5 11 10)) with status := 1 }

theorem chain_deposit : Chain 9 (tokenBalance 11 9) (body 9) ⟨deploy 1, 3⟩ ⟨afterDeposit, 13⟩ := by
  refine .single (Or.inr ⟨depositMsg 5 11 10, [], by decide, 1, ?_⟩)
  rw [enter_succ, body_deposit]
  have hmoves : Moves 11 9 (transferFromCall 11 5 9 10) (abiEncode [.word 1]) 3 13 :=
    moves_transferFrom (by decide) rfl
  -- the guard, the transfer, then the credit, the event and the guard again
  refine .get (.put (.call (.other (Or.inl rfl) (by decide) .refl hmoves .refl) ?_))
  exact .get (.put (.get (.put (.get (.put .pure)))))

/-- The vault after the user has withdrawn 4. -/
def afterWithdraw : Storage :=
  { (({ afterDeposit with status := 2 }.setDeposit 11 5 6).emit (.withdrawn 5 11 4)) with
    status := 1 }

theorem enter_withdraw : Enter 9 (tokenBalance 11 9) (body 9) 1 (withdrawMsg 5 11 4)
    ⟨afterDeposit, 13⟩ [] ⟨afterWithdraw, 9⟩ := by
  rw [enter_succ, body_withdraw]
  have hmoves : Moves 11 9 (transferCall 11 5 4) (abiEncode [.word 1]) 13 9 :=
    moves_transfer (by decide) rfl
  refine .get (.put (.get (.put (.call (.other (Or.inl rfl) (by decide) .refl hmoves .refl) ?_))))
  exact .get (.put (.get (.put .pure)))

/-- The vault while the manager 1 claims 5 of what is left. -/
def duringClaim : Storage := { afterWithdraw with status := 2 }.setDeposit 11 5 1

/-- The vault after the manager, called by the token about the transfer, has added the manager 2. -/
def afterCallback : Storage :=
  { duringClaim with isVaultManager := Function.update duringClaim.isVaultManager 2 true }.emit
    (.vaultManagerAdded 2)

/-- The vault after the claim. -/
def afterClaim : Storage := { afterCallback.emit (.claimed 1 11 5 5) with status := 1 }

theorem talk_callback :
    Talk 9 (tokenBalance 11 9) (body 9) 1 ⟨duringClaim, 4⟩ ⟨afterCallback, 4⟩ := by
  refine .single (Or.inr ⟨addVaultManagerMsg 1 2, [], by decide, ?_⟩)
  rw [enter_succ, body_addVaultManager]
  exact .get (.put .pure)

theorem enter_claim : Enter 9 (tokenBalance 11 9) (body 9) 2 (claimMsg 1 11 5 5)
    ⟨afterWithdraw, 9⟩ [] ⟨afterClaim, 4⟩ := by
  rw [enter_succ, body_claim]
  have hmoves : Moves 11 9 (transferCall 11 1 5) (abiEncode [.word 1]) 9 4 :=
    moves_transfer (by decide) rfl
  -- the guard, the manager, the debit, and the transfer with the callback at its end
  refine .get (.put (.get (.get (.put
    (.call (.other (Or.inl rfl) (by decide) .refl hmoves talk_callback) ?_)))))
  exact .get (.put (.get (.put .pure)))

theorem chain_claim : Chain 9 (tokenBalance 11 9) (body 9) ⟨deploy 1, 3⟩ ⟨afterClaim, 4⟩ := by
  have hwithdraw := chain_deposit.tail (Or.inr ⟨_, [], by decide, 1, enter_withdraw⟩)
  exact hwithdraw.tail (Or.inr ⟨_, [], by decide, 2, enter_claim⟩)

/-- Of the 10 that were deposited, 4 were withdrawn and 5 claimed; 1 is left. -/
theorem vault_solvent_claim :
    ∑ᶠ user, (afterClaim.deposits 11 user).toNat ≤ 4 ∧
      (afterClaim.deposits 11 5).toNat + 4 + 5 = 10 := by
  obtain ⟨hsolvent, hbooks⟩ := vault_solvent 11 9 1 3 ⟨afterClaim, 4⟩ chain_claim
  exact ⟨hsolvent, hbooks 5⟩

end Enclave.TokenVault
