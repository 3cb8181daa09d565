import Enclave.Account.Execution
import Enclave.Evm.Machine

/-!
# What `execute` and `executeBatch` come to

Both functions behind any guard.

* `executeBatch_eq`: on decoded arrays a batch is its guard, the check of the lengths and then the
  calls of the list, one after the other (`callAll`).
* `reaches_executeBatch`: whatever the callees answer and do, a batch stands in its guard, has been
  refused for the lengths of its arrays, or has made its calls in order up to where it is, all of
  them with success or all but the last (`BatchState`).
* `ensures_execute`, `ensures_executeBatch`: they keep to a discipline that allows any call after
  the guard.
-/

namespace Enclave.Execution

variable {S : Type}

/-! ### A batch is a list of calls -/

/-- The calls of a list, one after the other, up to the first that fails. -/
def callAll : List Call → Prog S Unit
  | [] => .pure ()
  | c :: cs => do
    let _ ← Prog.callOrRevert c
    callAll cs

/-- The calls of a batch, with no value where no values are given. -/
def batchCalls (dest : List Address) (value : List Word) (func : List Bytes) : List Call :=
  let value := if value.length = 0 then List.replicate dest.length 0 else value
  (dest.zip (value.zip func)).map fun x => ⟨.call, x.1, x.2.1, x.2.2⟩

theorem executeLoop_eq (dest : List Address) : ∀ (value : List Word) (func : List Bytes),
    (executeLoop (dest.map .ok) value (func.map .ok) : Prog S Unit)
      = callAll ((dest.zip (value.zip func)).map fun x => ⟨.call, x.1, x.2.1, x.2.2⟩) := by
  induction dest with
  | nil => exact fun value func => rfl
  | cons d dest ih =>
    intro value func
    cases value with
    | nil => cases func <;> rfl
    | cons v value =>
      cases func with
      | nil => rfl
      | cons f func =>
        show (call d v f >>= fun _ => executeLoop (dest.map .ok) value (func.map .ok)) = _
        rw [ih value func, call, Prog.bind_assoc]
        rfl

/-- `executeBatch` on decoded arrays. -/
theorem executeBatch_eq (guard : Prog S Unit) (dest : List Address) (value : List Word)
    (func : List Bytes) :
    executeBatch guard (dest.map .ok) value (func.map .ok) = (do
      guard
      Prog.lift (requireLengths dest value func)
      callAll (batchCalls dest value func)) := by
  have hlengths : requireLengths (dest.map Except.ok : List (Result Address)) value
      (func.map Except.ok : List (Result Bytes)) = requireLengths dest value func := by
    rw [requireLengths, requireLengths, List.length_map, List.length_map]
  rw [executeBatch, hlengths, executeLoop_eq, executeLoop_eq, List.length_map, batchCalls]
  split_ifs <;> rfl

/-! ### All or nothing -/

/-- A list of calls has been made in part, every one with success; or the last one has failed, and
with it the whole. -/
inductive AllOrNothing (cs : List Call) : Trace → Prog S Unit → Prop
  | made {τ} (rest : List Call) (hok : ∀ x ∈ τ, ∃ data, x.2 = .ok data)
      (hcs : cs = (τ.map Prod.fst).reverse ++ rest) : AllOrNothing cs τ (callAll rest)
  | failed {τ} (c : Call) (rest : List Call) (hok : ∀ x ∈ τ, ∃ data, x.2 = .ok data)
      (hcs : cs = (τ.map Prod.fst).reverse ++ c :: rest) (e : Revert) :
      AllOrNothing cs ((c, .error e) :: τ) (.revert e)

/-- The calls of a list are made like that, with any replies. -/
theorem reaches_callAll {cs : List Call} {τ : Trace} {q : Prog S Unit}
    (h : (callAll cs).Reaches τ q) : AllOrNothing cs τ q := by
  induction h with
  | refl => exact .made cs nofun rfl
  | @get τ k h s ih =>
    -- neither the calls that are left nor a revert read the storage
    generalize hq : Prog.get k = q at ih
    cases ih with
    | made rest hok hcs => cases rest <;> cases hq
    | failed c rest hok hcs e => cases hq
  | @put τ s q' h ih =>
    generalize hq : Prog.put s q' = q at ih
    cases ih with
    | made rest hok hcs => cases rest <;> cases hq
    | failed c rest hok hcs e => cases hq
  | @call τ c k h r ih =>
    generalize hq : Prog.call c k = q at ih
    cases ih with
    | failed c rest hok hcs e => cases hq
    | made rest hok hcs =>
      cases rest with
      | nil => cases hq
      | cons c' rest =>
        cases hq
        cases r with
        | error e => exact .failed _ rest hok hcs e
        | ok data =>
          refine .made rest ?_ ?_
          · exact List.forall_mem_cons.mpr ⟨⟨data, rfl⟩, hok⟩
          · rw [hcs, List.map_cons, List.reverse_cons, List.append_assoc]
            rfl

/-- Where a batch can stand. -/
inductive BatchState (guard : Prog S Unit) (lengths : Result Unit) (cs : List Call) :
    Trace → Prog S Unit → Prop
  /-- In the guard, before any call of the batch. -/
  | checking {τ p} (hguard : guard.Reaches τ p) : BatchState guard lengths cs τ
      (p >>= fun _ => Prog.lift lengths >>= fun _ => callAll cs)
  /-- Refused, because the lengths of the arrays do not match. -/
  | refused {τ e} (hguard : guard.Reaches τ (.pure ())) (hlengths : lengths = .error e) :
      BatchState guard lengths cs τ (.revert e)
  | calling {τ τ₀ q} (hguard : guard.Reaches τ₀ (.pure ())) (hlengths : lengths = .ok ())
      (hcalls : AllOrNothing cs τ q) : BatchState guard lengths cs (τ ++ τ₀) q

/-- A batch gets nowhere else. -/
theorem reaches_executeBatch {guard : Prog S Unit} {lengths : Result Unit} {cs : List Call}
    {τ : Trace} {q : Prog S Unit}
    (h : (guard >>= fun _ => Prog.lift lengths >>= fun _ => callAll cs).Reaches τ q) :
    BatchState guard lengths cs τ q := by
  rcases Prog.reaches_bind h with ⟨p, hguard, rfl⟩ | ⟨τ₀, τ₁, _, hguard, hcalls, rfl⟩
  · exact .checking hguard
  · cases lengths with
    | ok _ => exact .calling hguard rfl (reaches_callAll hcalls)
    | error e =>
      obtain ⟨rfl, rfl⟩ := Prog.reaches_revert hcalls
      exact .refused hguard rfl

/-! ### The discipline of the calls -/

section Ensures

variable {D : Discipline S} {msg : Msg} {P : Trace → Prop} {guard : Prog S Unit} {s : S} {τ : Trace}
  (hcons : ∀ τ e, P τ → P (e :: τ))
  (hcall : ∀ s τ target value data, P τ → D.call msg s τ ⟨.call, target, value, data⟩)

include hcons hcall

theorem ensures_call (hτ : P τ) (target : Address) (value : Word) (data : Bytes) :
    (call target value data).Ensures D msg (fun _ τ _ => P τ) s τ := by
  refine Prog.ensures_bind (Q := fun _ τ _ => P τ) (Prog.ensures_callOrRevert ?_ ?_) ?_
  · exact hcall s τ target value data hτ
  · exact fun _ _ _ => hcons τ _ hτ
  · exact fun _ _ _ hτ' => hτ'

theorem ensures_executeLoop (hτ : P τ) (dest : List (Result Address)) (value : List Word)
    (func : List (Result Bytes)) :
    (executeLoop dest value func).Ensures D msg (fun _ _ _ => True) s τ := by
  -- the guard stays passed from one element of the batch to the next
  induction dest, value, func using executeLoop.induct generalizing s τ with
  | case1 d dest v value f func ih =>
    refine Prog.ensures_lift_bind fun target _ => ?_
    refine Prog.ensures_lift_bind fun data _ => ?_
    refine Prog.ensures_bind (ensures_call hcons hcall hτ target v data) ?_
    exact fun _ _ _ hτ' => ih hτ'
  | case2 dest value func hne =>
    rw [executeLoop]
    · exact trivial
    · exact hne

theorem ensures_execute (hguard : guard.Ensures D msg (fun _ τ _ => P τ) s τ) (dest : Address)
    (value : Word) (func : Bytes) :
    (execute guard dest value func).Ensures D msg (fun _ _ _ => True) s τ := by
  refine Prog.ensures_bind hguard fun s τ _ hτ => ?_
  exact (ensures_call hcons hcall hτ dest value func).mono fun _ _ _ _ => trivial

theorem ensures_executeBatch (hguard : guard.Ensures D msg (fun _ τ _ => P τ) s τ)
    (dest : List (Result Address)) (value : List Word) (func : List (Result Bytes)) :
    (executeBatch guard dest value func).Ensures D msg (fun _ _ _ => True) s τ := by
  refine Prog.ensures_bind hguard fun s τ _ hτ => ?_
  refine Prog.ensures_lift_bind fun _ _ => ?_
  split_ifs
  · exact ensures_executeLoop hcons hcall hτ _ _ _
  · exact ensures_executeLoop hcons hcall hτ _ _ _

end Ensures

end Enclave.Execution
