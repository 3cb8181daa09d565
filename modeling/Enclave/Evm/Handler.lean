import Enclave.Evm.Dispatch

/-!
# Programs in surroundings that answer and change

`Prog.eval` answers every call from a table.  `Prog.exec` passes a state along from which the calls
are answered and which they change, as the ledger of a token does; a call that fails leaves it as it
was.  The rules evaluate a program step by step.
-/

namespace Enclave.Prog

variable {S σ α β : Type}

/-- Run a program whose calls are answered by `answer`. -/
def exec (answer : σ → Call → Result (Bytes × σ)) : Prog S α → S → σ → Result (α × S × σ)
  | pure a, s, w => .ok (a, s, w)
  | revert e, _, _ => .error e
  | get k, s, w => exec answer (k s) s w
  | put s' p, _, w => exec answer p s' w
  | call c k, s, w =>
    match answer w c with
    | .ok (data, w') => exec answer (k (.ok data)) s w'
    | .error e => exec answer (k (.error e)) s w

variable {answer : σ → Call → Result (Bytes × σ)} {s : S} {w : σ}

theorem exec_call_ok {c : Call} {data : Bytes} {w' : σ} (k : Reply → Prog S α)
    (h : answer w c = .ok (data, w')) :
    exec answer (call c k) s w = exec answer (k (.ok data)) s w' := by
  rw [exec, h]

theorem exec_call_error {c : Call} {e : Revert} (k : Reply → Prog S α)
    (h : answer w c = .error e) :
    exec answer (call c k) s w = exec answer (k (.error e)) s w := by
  rw [exec, h]

/-- A sequence is run in order. -/
theorem exec_bind (p : Prog S α) (f : α → Prog S β) :
    exec answer (p >>= f) s w
      = exec answer p s w >>= fun r => exec answer (f r.1) r.2.1 r.2.2 := by
  induction p generalizing s w with
  | pure a => rfl
  | revert e => rfl
  | get k ih => exact ih s
  | put s' p ih => exact ih
  | call c k ih =>
    show exec answer (call c fun r => k r >>= f) s w = exec answer (call c k) s w >>= _
    cases h : answer w c with
    | error e =>
      rw [exec_call_error _ h, exec_call_error _ h]
      exact ih _
    | ok r =>
      rw [exec_call_ok _ h, exec_call_ok _ h]
      exact ih _

/-- The empty answer leaves the states as they are. -/
theorem snd_exec_noReturn (p : Prog S Unit) :
    (exec answer (noReturn p) s w).map Prod.snd = (exec answer p s w).map Prod.snd := by
  unfold noReturn
  rw [exec_bind]
  cases exec answer p s w <;> rfl

theorem exec_lift_bind (r : Result α) (f : α → Prog S β) :
    exec answer (lift r >>= f) s w = r >>= fun a => exec answer (f a) s w := by
  cases r <;> rfl

theorem exec_storage_bind (f : S → Prog S β) :
    exec answer (storage >>= f) s w = exec answer (f s) s w := rfl

theorem exec_modify (g : S → Result S) :
    exec answer (modify g) s w = (g s).map fun s' => ((), s', w) := by
  unfold modify
  rw [exec_storage_bind, exec_lift_bind]
  cases g s <;> rfl

theorem exec_modify_bind (g : S → Result S) (f : Unit → Prog S β) :
    exec answer (modify g >>= f) s w = g s >>= fun s' => exec answer (f ()) s' w := by
  rw [exec_bind, exec_modify]
  cases g s <;> rfl

theorem exec_callOrRevert_bind (c : Call) (f : Bytes → Prog S β) :
    exec answer (callOrRevert c >>= f) s w
      = answer w c >>= fun r => exec answer (f r.1) s r.2 := by
  show exec answer (call c fun r => lift r >>= f) s w = _
  cases h : answer w c with
  | error e =>
    rw [exec_call_error _ h]
    rfl
  | ok r =>
    rw [exec_call_ok _ h]
    rfl

end Enclave.Prog
