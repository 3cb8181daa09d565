import Enclave.Balance.Equiv.SmartAccount

/-!
# Who can do what with a `SmartAccount`

An initialised account among arbitrary callers and callees, up to its first upgrade.

* `smartAccount_authority`: along every run, the owner and the entry point stay, and the
  implementation, the deposit and the calls of a chosen target are in the hands of the callers that
  the source names;
* while neither the owner nor the entry point calls, nothing is written, and the account makes no
  call but views and the deposits that its callers pay for.
-/

namespace Enclave.SmartAccount.Authority

open P256SmartAccount (Callee word)

section Run

variable {ecrecover : ECDSA.Ecrecover} {this logic owner entrypoint : Address}

/-! ### Beneath the owner and the entry point -/

/-- Calldata of a function of the account, other than `proxiableUUID`. -/
def OwnFunction (data : Bytes) : Prop :=
  ∃ m, Method.ofCalldata data = some m ∧ m ≠ .proxiableUUID

/-- The innermost frame is a call of `execute` or `executeBatch` by the entry point or the owner, or
one which the account made to itself in such a frame. -/
def Commanded (this owner entrypoint : Address) : List (Frame Storage) → Prop :=
  Beneath this Executes fun msg _ => msg.sender = entrypoint ∨ msg.sender = owner

/-- The innermost frame is a call by the owner, or one which the account made to itself at the
command of the owner or the entry point. -/
def Owned (this owner entrypoint : Address) : List (Frame Storage) → Prop
  | .own msg _ _ _ :: st =>
    msg.sender = owner ∨ msg.sender = this ∧ Commanded this owner entrypoint st
  | _ => False

theorem ownFunction_of_executes (msg : Msg) (h : Executes msg) : OwnFunction msg.data := by
  rcases h with h | h
  · exact ⟨_, h, by decide⟩
  · exact ⟨_, h, by decide⟩

/-- What the account calls of itself, it calls because it was told to. -/
theorem chosen_of_ownFunction (msg : Msg) (s : Storage) (τ : Trace) (c : Call)
    (hcall : (discipline this logic owner entrypoint).call msg s τ c)
    (hkind : c.kind = .call ∨ c.kind = .staticcall) (hown : OwnFunction c.data) :
    Executes msg ∧
      (msg.sender ≠ this → msg.sender = entrypoint ∨ msg.sender = owner) := by
  obtain ⟨m, hm, hne⟩ := hown
  rcases hcall with hcall | hchosen
  · cases hcall with
    | view target m' args => exact absurd (ofCalldata_encode hm) hne
    | codesize target => rcases hkind with hkind | hkind <;> cases hkind
    | deposit => exact absurd (ofCalldata_encode hm) hne
    | withdraw dest amount hmethod hsender => exact absurd (ofCalldata_encode hm) hne
    | prefund value hmethod hsender => cases hm
    | migrate target data hupgraded => rcases hkind with hkind | hkind <;> cases hkind
  · exact ⟨hchosen.method, fun _ => hchosen.sender⟩

/-! ### One step -/

/-- What a step can do while the code is the account's own. -/
structure StepAuthority (this owner entrypoint : Address) (c : Config Storage)
    (a : Action Storage) (c' : Config Storage) : Prop where
  /-- The implementation changes in a call of the owner, or of the account to itself. -/
  implementation : c'.world.storage.implementation ≠ c.world.storage.implementation →
    RolledBack c a c' ∨ Owned this owner entrypoint c.stack
  /-- A call is one of those written in the source, or it is commanded. -/
  calls : ∀ msg trace cl k, c.Runs msg trace (.call cl k) →
    OwnCall this owner entrypoint msg c.world.storage cl ∨
      cl.kind = .call ∧ Commanded this owner entrypoint c.stack
  /-- Value goes to the entry point, as a deposit of what the caller has sent or as the prefund for
  which the entry point asks, or where it is commanded to go. -/
  value : ∀ msg trace cl k, c.Runs msg trace (.call cl k) → cl.value ≠ 0 →
    cl.target = entrypoint ∧ (cl.value = msg.value ∨ msg.sender = entrypoint) ∨
      Commanded this owner entrypoint c.stack
  /-- So is the deposit withdrawn. -/
  withdrawals : ∀ msg trace cl k, c.Runs msg trace (.call cl k) → cl.kind = .call →
    cl.data.take 4 = Callee.withdrawTo.selector →
    Owned this owner entrypoint c.stack ∨ Commanded this owner entrypoint c.stack
  /-- Whatever the account calls of itself, it calls because it is commanded to. -/
  selfCalls : ∀ msg trace control saved st, c.stack = .own msg trace control saved :: st →
    msg.sender = this → OwnFunction msg.data → Commanded this owner entrypoint st
  /-- The owner, the entry point and the initialised flag stay. -/
  fixed : c'.world.storage.owner = owner ∧ c'.world.storage.entrypoint = entrypoint ∧
    c'.world.storage.initialized = 1 ∧ c'.world.storage.initializing = false

section Step

variable {c c' : Config Storage} {a : Action Storage}
  (hsound : Config.Sound (contract ecrecover this logic) (discipline this logic owner entrypoint) c)
  (hlive : c.world.foreign = false)

include hsound hlive

/-- The storage changes by an upgrade, or a frame fails. -/
theorem write_of_step (hstep : Step (contract ecrecover this logic) c a c') :
    c'.world = c.world ∨ RolledBack c a c' ∨
      ∃ msg trace s p, c.Runs msg trace (.put s p) ∧ c'.world.storage = s ∧
        OwnWrite this owner msg c.world.storage s := by
  rcases world_of_step hstep hlive with hsame | hback | ⟨msg, trace, s, p, -, hruns, hs⟩ |
    ⟨msg, trace, cl, k, hruns, hkind⟩
  · exact Or.inl hsame
  · exact Or.inr (Or.inl hback)
  · exact Or.inr (Or.inr ⟨msg, trace, s, p, hruns, hs, (ensures_of_runs hsound hlive hruns).1⟩)
  · -- the storage is handed to other code only after an upgrade
    rcases (ensures_of_runs hsound hlive hruns).1 with hown | hchosen
    · cases hown with
      | view target m args => cases hkind
      | codesize target => cases hkind
      | deposit => cases hkind
      | withdraw dest amount hmethod hsender => cases hkind
      | prefund value hmethod hsender => cases hkind
      | migrate target data hupgraded => exact absurd (hsound.1 hlive).upgraded hupgraded
    · rw [hchosen.kind] at hkind
      cases hkind

theorem commanded_of_self {msg : Msg} {trace : Trace} {control : Control Storage}
    {saved : World Storage} {st : List (Frame Storage)}
    (hst : c.stack = .own msg trace control saved :: st) (hsender : msg.sender = this)
    (hdata : OwnFunction msg.data) : Commanded this owner entrypoint st :=
  beneath_of_self chosen_of_ownFunction ownFunction_of_executes hsound hlive hst hsender hdata

theorem owned_of_runs {msg : Msg} {trace : Trace} {p : Prog Storage Bytes}
    (hruns : c.Runs msg trace p) (hsender : msg.sender = owner ∨ msg.sender = this)
    (hdata : OwnFunction msg.data) : Owned this owner entrypoint c.stack := by
  obtain ⟨saved, st, hst⟩ := hruns
  rw [hst]
  rcases hsender with howner | hself
  · exact Or.inl howner
  · exact Or.inr ⟨hself, commanded_of_self hsound hlive hst hself hdata⟩

theorem calls_of_runs {msg : Msg} {trace : Trace} {cl : Call} {k : Reply → Prog Storage Bytes}
    (hruns : c.Runs msg trace (.call cl k)) :
    OwnCall this owner entrypoint msg c.world.storage cl ∨
      cl.kind = .call ∧ Commanded this owner entrypoint c.stack := by
  rcases (ensures_of_runs hsound hlive hruns).1 with hown | hchosen
  · exact Or.inl hown
  · exact Or.inr ⟨hchosen.kind, beneath_of_runs chosen_of_ownFunction ownFunction_of_executes
      hsound hlive hruns hchosen.method fun _ => hchosen.sender⟩

end Step

theorem ownFunction_of_upgrade {msg : Msg} {s s' : Storage} (h : OwnWrite this owner msg s s') :
    OwnFunction msg.data := by
  rcases h.method with hm | hm
  · exact ⟨_, hm, by decide⟩
  · exact ⟨_, hm, by decide⟩

/-- A step from a sound configuration. -/
theorem stepAuthority_of_sound {c c' : Config Storage} {a : Action Storage}
    (hsound : Config.Sound (contract ecrecover this logic) (discipline this logic owner entrypoint)
      c) (hlive : c.world.foreign = false) (hstep : Step (contract ecrecover this logic) c a c') :
    StepAuthority this owner entrypoint c a c' := by
  have hinv : Initialised logic owner entrypoint c.world.storage := hsound.1 hlive
  have hwrite := write_of_step hsound hlive hstep
  refine ⟨?implementation, ?calls, ?value, ?withdrawals, ?selfCalls, ?fixed⟩
  case implementation =>
    intro hne
    rcases hwrite with hsame | hback | ⟨msg, trace, s, p, hruns, -, hwrite⟩
    · rw [hsame] at hne
      exact absurd rfl hne
    · exact Or.inl hback
    · exact Or.inr (owned_of_runs hsound hlive hruns hwrite.sender (ownFunction_of_upgrade hwrite))
  case calls =>
    intro msg trace cl k hruns
    exact calls_of_runs hsound hlive hruns
  case value =>
    intro msg trace cl k hruns hvalue
    rcases calls_of_runs hsound hlive hruns with hown | ⟨-, hcommanded⟩
    · cases hown with
      | view target m args => exact absurd rfl hvalue
      | codesize target => exact absurd rfl hvalue
      | deposit => exact Or.inl ⟨rfl, Or.inl rfl⟩
      | withdraw dest amount hmethod hsender => exact absurd rfl hvalue
      | prefund value hmethod hsender => exact Or.inl ⟨rfl, Or.inr hsender⟩
      | migrate target data hupgraded => exact absurd rfl hvalue
    · exact Or.inr hcommanded
  case withdrawals =>
    -- by `withdrawDepositTo`, or by a call that `execute` was told to make
    intro msg trace cl k hruns hkind hdata
    rcases calls_of_runs hsound hlive hruns with hown | ⟨-, hcommanded⟩
    · cases hown with
      | view target m args => cases hkind
      | codesize target => cases hkind
      | deposit => cases hdata
      | withdraw dest amount hmethod hsender =>
        exact Or.inl (owned_of_runs hsound hlive hruns hsender ⟨_, hmethod, by decide⟩)
      | prefund value hmethod hsender => cases hdata
      | migrate target data hupgraded => cases hkind
    · exact Or.inr hcommanded
  case selfCalls =>
    intro msg trace control saved st hst hsender hdata
    exact commanded_of_self hsound hlive hst hsender hdata
  case fixed =>
    rcases hwrite with hsame | hback | ⟨msg, trace, s, p, hruns, hs, hwrite⟩
    · rw [hsame]
      exact ⟨hinv.owner, hinv.entrypoint, hinv.initialized, hinv.initializing⟩
    · have hinv' : Initialised logic owner entrypoint c'.world.storage :=
        inv_of_rolledBack hsound hlive hback
      exact ⟨hinv'.owner, hinv'.entrypoint, hinv'.initialized, hinv'.initializing⟩
    · obtain ⟨newImplementation, rfl⟩ := hwrite.storage
      rw [hs]
      exact ⟨hinv.owner, hinv.entrypoint, hinv.initialized, hinv.initializing⟩

/-! ### Callers without authority -/

/-- Neither the owner nor the entry point calls. -/
def Powerless (owner entrypoint : Address) (_ : Config Storage) (a : Action Storage) : Prop :=
  ∀ msg, a = .enter msg → msg.sender ≠ owner ∧ msg.sender ≠ entrypoint

section Powerless

variable {c : Config Storage}
  (hsound : Config.Sound (contract ecrecover this logic) (discipline this logic owner entrypoint) c)
  (hlive : c.world.foreign = false)
  (hcallers : ∀ f ∈ c.stack, ∀ sender, f.caller = some sender →
    sender = this ∨ sender ≠ owner ∧ sender ≠ entrypoint)

include hcallers in
theorem not_commanded : ¬Commanded this owner entrypoint c.stack := by
  intro h
  obtain ⟨msg, trace, control, saved, hmem, -, hne, hroot⟩ := h.exists_frame
  rcases hcallers _ hmem msg.sender rfl with hself | ⟨howner, hentry⟩
  · exact hne hself
  · rcases hroot with hroot | hroot
    · exact hentry hroot
    · exact howner hroot

include hsound hlive hcallers

/-- The account calls none of its functions. -/
theorem not_self_of_callers {msg : Msg} {trace : Trace} {p : Prog Storage Bytes}
    (hruns : c.Runs msg trace p) (hdata : OwnFunction msg.data) : msg.sender ≠ this := by
  intro hsender
  obtain ⟨saved, st, hst⟩ := hruns
  have hbelow := commanded_of_self hsound hlive hst hsender hdata
  refine not_commanded (c := ⟨c.world, st⟩) (fun f hf => hcallers f ?_) hbelow
  rw [hst]
  exact List.mem_cons_of_mem _ hf

/-- No function runs for the owner, the entry point or the account itself. -/
theorem stranger_of_callers {msg : Msg} {trace : Trace} {p : Prog Storage Bytes}
    (hruns : c.Runs msg trace p) (hdata : OwnFunction msg.data) :
    msg.sender ≠ owner ∧ msg.sender ≠ entrypoint ∧ msg.sender ≠ this := by
  have hself := not_self_of_callers hsound hlive hcallers hruns hdata
  obtain ⟨saved, st, hst⟩ := hruns
  rcases hcallers _ (by rw [hst]; exact List.mem_cons_self) msg.sender rfl with h | h
  · exact absurd h hself
  · exact ⟨h.1, h.2, hself⟩

theorem not_write_of_callers {msg : Msg} {trace : Trace} {s : Storage} {p : Prog Storage Bytes}
    (hruns : c.Runs msg trace (.put s p)) : ¬OwnWrite this owner msg c.world.storage s := by
  intro hwrite
  obtain ⟨howner, -, hself⟩ :=
    stranger_of_callers hsound hlive hcallers hruns (ownFunction_of_upgrade hwrite)
  rcases hwrite.sender with h | h
  · exact howner h
  · exact hself h

/-- A call that can change something is a deposit, with the value that the caller has sent. -/
theorem deposit_of_callers {msg : Msg} {trace : Trace} {cl : Call}
    {k : Reply → Prog Storage Bytes} (hruns : c.Runs msg trace (.call cl k))
    (hkind : cl.kind = .call) :
    cl = ⟨.call, entrypoint, msg.value, Callee.depositTo.encode [word this]⟩ := by
  rcases calls_of_runs hsound hlive hruns with hown | ⟨-, hcommanded⟩
  · cases hown with
    | view target m args => cases hkind
    | codesize target => cases hkind
    | deposit => rfl
    | withdraw dest amount hmethod hsender =>
      obtain ⟨howner, -, hself⟩ :=
        stranger_of_callers hsound hlive hcallers hruns ⟨_, hmethod, by decide⟩
      rcases hsender with h | h
      · exact absurd h howner
      · exact absurd h hself
    | prefund value hmethod hsender =>
      obtain ⟨-, hentry, -⟩ :=
        stranger_of_callers hsound hlive hcallers hruns ⟨_, hmethod, by decide⟩
      exact absurd hsender hentry
    | migrate target data hupgraded => cases hkind
  · exact absurd hcommanded (not_commanded hcallers)

end Powerless

/-- While neither the owner nor the entry point calls, the world stays, also in what the frames
remember. -/
theorem world_of_powerless_run {s : Storage} (hs : Initialised logic owner entrypoint s)
    {c : Config Storage}
    (hrun : Run (contract ecrecover this logic) (Powerless owner entrypoint) (.idle s) c) :
    c.world = ⟨s, false⟩ ∧ ∀ f ∈ c.stack, f.saved = ⟨s, false⟩ ∧
      ∀ sender, f.caller = some sender → sender = this ∨ sender ≠ owner ∧ sender ≠ entrypoint := by
  refine world_of_quiet_run (fun _ msg _ hpower => hpower msg rfl) ?_ hrun
  intro c a c' hrun hworld hcallers hpower hstep
  have hsound := sound_of_account_run hs hrun
  have hlive : c.world.foreign = false := by rw [hworld]
  rcases write_of_step hsound hlive hstep with hsame | hback |
    ⟨msg, trace, s', p, hruns, -, hwrite⟩
  · exact Or.inl hsame
  · exact Or.inr hback
  · exact absurd hwrite (not_write_of_callers hsound hlive hcallers hruns)

/-- **Authority over a `SmartAccount`**: along every run of calls by anyone, with callees that call
back, up to the first upgrade, each step changes the account only as `StepAuthority` allows; and
while neither the owner nor the entry point calls, nothing is written and every call that could
change something is a deposit paid for by the caller. -/
theorem smartAccount_authority {s : Storage} (hs : Initialised logic owner entrypoint s) :
    (∀ c a c', Run (contract ecrecover this logic) (fun _ _ => True) (.idle s) c →
      c.world.foreign = false → Step (contract ecrecover this logic) c a c' →
      StepAuthority this owner entrypoint c a c') ∧
    ∀ c, Run (contract ecrecover this logic) (Powerless owner entrypoint) (.idle s) c →
      c.world = ⟨s, false⟩ ∧ ∀ msg trace cl k, c.Runs msg trace (.call cl k) → cl.kind = .call →
        cl = ⟨.call, entrypoint, msg.value, Callee.depositTo.encode [word this]⟩ := by
  constructor
  · intro c a c' hrun hlive hstep
    exact stepAuthority_of_sound (sound_of_account_run hs hrun) hlive hstep
  · intro c hrun
    obtain ⟨hworld, hframes⟩ := world_of_powerless_run hs hrun
    refine ⟨hworld, fun msg trace cl k hruns hkind => ?_⟩
    exact deposit_of_callers (sound_of_account_run hs hrun) (by rw [hworld])
      (fun f hf => (hframes f hf).2) hruns hkind

end Run

/-- An account with the owner 7, the entry point 1 and the implementation 4. -/
def owned : Storage where
  owner := 7
  entrypoint := 1
  initialized := 1
  initializing := false
  implementation := 4
  rollback := false
  upgraded := []

/-- The owner has the account send 5 to the address 9. -/
def payment : Msg :=
  ⟨7, 0, Method.execute.selector ++ abiEncode [.word 9, .word 5, .bytes []], false⟩

/-- The call of the owner, up to the payment. -/
def paying : Config Storage :=
  ⟨⟨owned, false⟩, [.own payment [] (.running (noReturn (call 9 5 []))) ⟨owned, false⟩]⟩

/-- The payment. -/
def paid : Config Storage :=
  ⟨⟨owned, false⟩, [.outside false ⟨owned, false⟩,
    .own payment [] (.waiting ⟨.call, 9, 5, []⟩ fun r => (Prog.lift r >>= fun _ => .pure ()) >>=
      fun _ => .pure []) ⟨owned, false⟩]⟩

set_option maxRecDepth 10000 in
theorem body_payment (ecrecover : ECDSA.Ecrecover) :
    (contract ecrecover 8 4).body payment = noReturn (execute 7 9 5 []) := rfl

theorem run_paying (ecrecover : ECDSA.Ecrecover) :
    Run (contract ecrecover 8 4) (fun _ _ => True) (.idle owned) paying := by
  have hsender : payment.sender ≠ (contract ecrecover 8 4).self :=
    show (7 : Address) ≠ 8 by decide
  have hidle : OutsideRuns false ([] : List (Frame Storage)) := rfl
  have henter := Step.enter (w := World.mk owned false) payment hidle rfl hsender nofun
  rw [body_payment] at henter
  have hread : Step (contract ecrecover 8 4) ⟨⟨owned, false⟩,
      [.own payment [] (.running (noReturn (execute 7 9 5 []))) ⟨owned, false⟩]⟩ .read paying :=
    .read
  exact (Relation.ReflTransGen.single ⟨_, trivial, henter⟩).tail ⟨_, trivial, hread⟩

/-- The payment is made because the owner has told the account to. -/
theorem stepAuthority_payment :
    StepAuthority 8 7 1 paying (.callOut ⟨.call, 9, 5, []⟩) paid ∧
      paid.world = ⟨owned, false⟩ := by
  have hstep : Step (contract (fun _ _ _ _ => 0) 8 4) paying (.callOut ⟨.call, 9, 5, []⟩) paid :=
    .callOut (Or.inl rfl) (Or.inl (by decide)) false (by rintro (h | h) <;> cases h)
  have hinit : Initialised 4 7 1 owned := ⟨rfl, rfl, rfl, rfl, rfl, rfl, rfl⟩
  refine ⟨?_, rfl⟩
  exact (smartAccount_authority hinit).1 paying _ paid (run_paying _) rfl hstep

end Enclave.SmartAccount.Authority
