import Enclave.Evm.Program
import Mathlib.Logic.Relation

/-!
# Contracts whose callees call back

The effect of whole calls on the storage of one contract and on its surroundings, which can be any
type: a balance that another contract keeps, for instance.  Only calls that succeed are described,
for a call that fails leaves everything as it was.

While a call of the contract to someone else lasts, other code runs and calls the contract in turn;
`Enter n` are the calls of the contract whose frames are nested at most `n` deep, and `Talk n` is
what other code can do by making such calls.  `Chain` is a sequence of top-level calls.

`calm_of_body` is the rule for a contract with a lock: what the code keeps to whenever the lock is
set, other code keeps to as well for as long as it is set.  `invariant_of_chain` is the rule for
what holds between top-level calls.
-/

namespace Enclave

/-- The storage of a contract and its surroundings. -/
structure Scene (S E : Type) where
  storage : S
  env : E

/-- The surroundings of a contract: what other code makes of them by itself, and what a call of the
contract makes of them, by the data it returns. -/
structure Surroundings (E : Type) where
  drift : E → E → Prop
  effect : Call → Bytes → E → E → Prop

variable {S E α β : Type}

/-! ### One frame -/

section Frames

variable (self : Address) (U : Surroundings E) (out : Scene S E → Scene S E → Prop)
  (own : Msg → Scene S E → Bytes → Scene S E → Prop)

/-- A call that succeeds: to the contract itself, to someone else, or to code that gets hold of the
storage. -/
inductive Exchange (c : Call) : Scene S E → Bytes → Scene S E → Prop
  | own {w w' data} (static : Bool) (hkind : c.kind = .call ∨ c.kind = .staticcall)
      (htarget : c.target = self) (h : own ⟨self, c.value, c.data, static⟩ w data w') :
      Exchange c w data w'
  | other {w w₁ e w' data} (hkind : c.kind = .call ∨ c.kind = .staticcall)
      (htarget : c.target ≠ self) (hbefore : out w w₁) (heffect : U.effect c data w₁.env e)
      (hafter : out ⟨w₁.storage, e⟩ w') : Exchange c w data w'
  | probe {w data} (hkind : c.kind = .extcodesize) : Exchange c w data w
  | delegate {w w' data} (hkind : c.kind = .delegatecall) : Exchange c w data w'

/-- A program that runs to its end. -/
inductive Completes : Prog S α → Scene S E → α → Scene S E → Prop
  | pure {a w} : Completes (.pure a) w a w
  | get {k w a w'} (h : Completes (k w.storage) w a w') : Completes (.get k) w a w'
  | put {s p w a w'} (h : Completes p ⟨s, w.env⟩ a w') : Completes (.put s p) w a w'
  | call {c k w data w₁ a w'} (hcall : Exchange self U out own c w data w₁)
      (h : Completes (k (.ok data)) w₁ a w') : Completes (.call c k) w a w'
  | fail {c k w e a w'} (h : Completes (k (.error e)) w a w') : Completes (.call c k) w a w'

end Frames

namespace Completes

variable {self : Address} {U : Surroundings E} {out : Scene S E → Scene S E → Prop}
  {own : Msg → Scene S E → Bytes → Scene S E → Prop} {w w' : Scene S E}

/-- A sequence runs its first part and then the rest. -/
theorem of_bind {p : Prog S α} {f : α → Prog S β} {b : β}
    (h : Completes self U out own (p >>= f) w b w') :
    ∃ a w₁, Completes self U out own p w a w₁ ∧ Completes self U out own (f a) w₁ b w' := by
  -- on the program, since a derivation of the sequence does not show where its first part ends
  induction p generalizing w with
  | pure a => exact ⟨a, w, .pure, h⟩
  | revert e => cases h
  | get k ih =>
    cases h with
    | get h =>
      obtain ⟨a, w₁, hp, hf⟩ := ih w.storage h
      exact ⟨a, w₁, .get hp, hf⟩
  | put s p ih =>
    cases h with
    | put h =>
      obtain ⟨a, w₁, hp, hf⟩ := ih h
      exact ⟨a, w₁, .put hp, hf⟩
  | call c k ih =>
    cases h with
    | call hcall h =>
      obtain ⟨a, w₁, hp, hf⟩ := ih _ h
      exact ⟨a, w₁, .call hcall hp, hf⟩
    | fail h =>
      obtain ⟨a, w₁, hp, hf⟩ := ih _ h
      exact ⟨a, w₁, .fail hp, hf⟩

theorem of_pure {a b : α} (h : Completes self U out own (.pure a) w b w') : b = a ∧ w' = w := by
  cases h
  exact ⟨rfl, rfl⟩

theorem of_lift {r : Result α} {a : α} (h : Completes self U out own (Prog.lift r) w a w') :
    r = .ok a ∧ w' = w := by
  cases r with
  | error e => cases h
  | ok b =>
    obtain ⟨rfl, rfl⟩ := of_pure h
    exact ⟨rfl, rfl⟩

theorem of_store {s : S} {u : Unit} (h : Completes self U out own (Prog.store s) w u w') :
    w' = ⟨s, w.env⟩ := by
  cases h with
  | put h => exact (of_pure h).2

/-- A computation without effects runs in place. -/
theorem of_lift_bind {r : Result α} {f : α → Prog S β} {b : β}
    (h : Completes self U out own (Prog.lift r >>= f) w b w') :
    ∃ a, r = .ok a ∧ Completes self U out own (f a) w b w' := by
  obtain ⟨a, w₁, hr, hf⟩ := of_bind h
  obtain ⟨hr, hw⟩ := of_lift hr
  rw [hw] at hf
  exact ⟨a, hr, hf⟩

theorem of_storage_bind {f : S → Prog S β} {b : β}
    (h : Completes self U out own (Prog.storage >>= f) w b w') :
    Completes self U out own (f w.storage) w b w' := by
  cases h with
  | get h => exact h

theorem of_modify {f : S → Result S} {u : Unit}
    (h : Completes self U out own (Prog.modify f) w u w') :
    ∃ s, f w.storage = .ok s ∧ w' = ⟨s, w.env⟩ := by
  obtain ⟨s, hf, hstore⟩ := of_lift_bind (of_storage_bind h)
  exact ⟨s, hf, of_store hstore⟩

theorem of_modify_bind {f : S → Result S} {g : Unit → Prog S β} {b : β}
    (h : Completes self U out own (Prog.modify f >>= g) w b w') :
    ∃ s, f w.storage = .ok s ∧ Completes self U out own (g ()) ⟨s, w.env⟩ b w' := by
  obtain ⟨_, w₁, hmodify, hg⟩ := of_bind h
  obtain ⟨s, hf, hw⟩ := of_modify hmodify
  rw [hw] at hg
  exact ⟨s, hf, hg⟩

theorem of_callOrRevert {c : Call} {data : Bytes}
    (h : Completes self U out own (Prog.callOrRevert c) w data w') :
    Exchange self U out own c w data w' := by
  cases h with
  | call hcall h =>
    obtain ⟨hdata, rfl⟩ := of_lift h
    rw [← Except.ok.inj hdata]
    exact hcall
  | fail h =>
    obtain ⟨hdata, -⟩ := of_lift h
    cases hdata

end Completes

/-! ### Nested calls -/

section Nesting

variable (self : Address) (U : Surroundings E) (body : Msg → Prog S Bytes)

/-- What other code can do in one go: something of its own, or a call of the contract. -/
def Move (enter : Msg → Scene S E → Bytes → Scene S E → Prop) (w w' : Scene S E) : Prop :=
  (w'.storage = w.storage ∧ U.drift w.env w'.env) ∨
    ∃ msg data, msg.sender ≠ self ∧ enter msg w data w'

/-- The calls of the contract with frames nested at most `n` deep. -/
def Enter : ℕ → Msg → Scene S E → Bytes → Scene S E → Prop
  | 0, _, _, _, _ => False
  | n + 1, msg, w, data, w' =>
    Completes self U (Relation.ReflTransGen (Move self U (Enter n))) (Enter n) (body msg) w data w'

/-- What other code can do by calls that are nested at most `n` deep. -/
def Talk (n : ℕ) : Scene S E → Scene S E → Prop :=
  Relation.ReflTransGen (Move self U (Enter self U body n))

/-- Any sequence of top-level calls. -/
def Chain : Scene S E → Scene S E → Prop :=
  Relation.ReflTransGen (Move self U fun msg w data w' => ∃ n, Enter self U body n msg w data w')

/-- A sequence of top-level calls, with the messages of those calls of the contract that succeed. -/
inductive TopCalls (w : Scene S E) : List Msg → Scene S E → Prop
  | nil : TopCalls w [] w
  | drift {msgs w₁ e} (h : TopCalls w msgs w₁) (hdrift : U.drift w₁.env e) :
      TopCalls w msgs ⟨w₁.storage, e⟩
  | call {msgs w₁ w₂ msg data} (n : ℕ) (h : TopCalls w msgs w₁) (hsender : msg.sender ≠ self)
      (henter : Enter self U body n msg w₁ data w₂) : TopCalls w (msgs ++ [msg]) w₂

variable {self U body}

theorem enter_succ {n : ℕ} {msg : Msg} {w w' : Scene S E} {data : Bytes} :
    Enter self U body (n + 1) msg w data w' ↔
      Completes self U (Talk self U body n) (Enter self U body n) (body msg) w data w' := Iff.rfl

/-- **Invariants between calls**: what the surroundings keep by themselves, and what every call
from outside keeps, holds after every sequence of calls. -/
theorem invariant_of_chain {P : Scene S E → Prop}
    (hdrift : ∀ {w e}, P w → U.drift w.env e → P ⟨w.storage, e⟩)
    (henter : ∀ {n msg w data w'}, msg.sender ≠ self → P w →
      Enter self U body n msg w data w' → P w')
    {w w' : Scene S E} (hw : P w) (hchain : Chain self U body w w') : P w' := by
  induction hchain with
  | refl => exact hw
  | @tail w₁ w₂ _ hmove ih =>
    rcases hmove with ⟨hstorage, hdrift'⟩ | ⟨msg, data, hsender, n, henter'⟩
    · have hP := hdrift ih hdrift'
      rw [← hstorage] at hP
      exact hP
    · exact henter hsender ih henter'

theorem topCalls_of_chain {w w' : Scene S E} (hchain : Chain self U body w w') :
    ∃ msgs, TopCalls self U body w msgs w' := by
  induction hchain with
  | refl => exact ⟨[], .nil⟩
  | @tail w₁ w₂ _ hmove ih =>
    obtain ⟨msgs, hcalls⟩ := ih
    rcases hmove with ⟨hstorage, hdrift⟩ | ⟨msg, data, hsender, n, henter⟩
    · have hcalls' : TopCalls self U body w msgs ⟨w₁.storage, w₂.env⟩ := .drift hcalls hdrift
      rw [← hstorage] at hcalls'
      exact ⟨msgs, hcalls'⟩
    · exact ⟨msgs ++ [msg], .call n hcalls hsender henter⟩

/-- **Logs**: a list that the surroundings leave alone, and to which every call from outside adds
what its message says, is what the messages of the calls say. -/
theorem log_of_topCalls {A : Type} (log : S → List A) (entry : Msg → Option A)
    (henter : ∀ {n msg w data w'}, Enter self U body n msg w data w' →
      log w'.storage = log w.storage ++ (entry msg).toList)
    {w w' : Scene S E} {msgs : List Msg} (hcalls : TopCalls self U body w msgs w') :
    log w'.storage = log w.storage ++ msgs.filterMap entry := by
  induction hcalls with
  | nil => rw [List.filterMap_nil, List.append_nil]
  | drift _ _ ih => exact ih
  | @call msgs w₁ w₂ msg data n _ _ hcall ih =>
    have hone : [msg].filterMap entry = (entry msg).toList := by
      cases h : entry msg <;> simp [h]
    rw [henter hcall, ih, List.filterMap_append, hone, List.append_assoc]

/-! ### Locks -/

/-- While the lock is set, neither other code nor a call of the contract to itself leaves the
relation. -/
structure Calm (locked : S → Prop) (R : Scene S E → Scene S E → Prop)
    (out : Scene S E → Scene S E → Prop)
    (own : Msg → Scene S E → Bytes → Scene S E → Prop) : Prop where
  out : ∀ {w w'}, locked w.storage → out w w' → R w w'
  own : ∀ {msg w data w'}, locked w.storage → own msg w data w' → R w w'

/-- **The rule for locks**: if the code stays in a relation while the lock is set, given that
everything it calls does, then so does all other code at any depth. -/
theorem calm_of_body {locked : S → Prop} {R : Scene S E → Scene S E → Prop}
    (hrefl : ∀ w, R w w) (htrans : ∀ {w w₁ w'}, R w w₁ → R w₁ w' → R w w')
    (hlock : ∀ {w w'}, R w w' → locked w.storage → locked w'.storage)
    (hdrift : ∀ {w : Scene S E} {e}, U.drift w.env e → R w ⟨w.storage, e⟩)
    (hbody : ∀ {out own}, Calm locked R out own → ∀ {msg w data w'}, locked w.storage →
      Completes self U out own (body msg) w data w' → R w w') (n : ℕ) :
    Calm locked R (Talk self U body n) (Enter self U body n) := by
  -- what holds of the calls holds of the other code that makes them
  have htalk : ∀ n, (∀ {msg w data w'}, locked w.storage → Enter self U body n msg w data w' →
      R w w') → ∀ {w w'}, locked w.storage → Talk self U body n w w' → R w w' := by
    intro n henter w w' hlocked htalk
    induction htalk with
    | refl => exact hrefl w
    | @tail w₁ w₂ _ hmove ih =>
      refine htrans ih ?_
      rcases hmove with ⟨hstorage, hdrift'⟩ | ⟨msg, data, -, h⟩
      · have hR := hdrift hdrift'
        rw [← hstorage] at hR
        exact hR
      · exact henter (hlock ih hlocked) h
  induction n with
  | zero => exact ⟨htalk 0 fun _ h => h.elim, fun _ h => h.elim⟩
  | succ n ih =>
    have henter : ∀ {msg w data w'}, locked w.storage →
        Enter self U body (n + 1) msg w data w' → R w w' :=
      fun hlocked h => hbody ih hlocked (enter_succ.mp h)
    exact ⟨htalk (n + 1) henter, henter⟩

end Nesting

end Enclave
