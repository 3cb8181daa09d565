import Enclave.Account.P256SmartAccount

/-!
# The selectors of the account

The selectors written into the dispatcher are the hashes of the signatures
(`Method.selector_signature`).  None of the calls that the account's own code makes can be taken for
a call of one of its functions, except for `proxiableUUID` (`ofCalldata_encode`): this matters when
one of the addresses it calls is its own.
-/

namespace Enclave.P256SmartAccount

theorem Method.selector_signature (m : Method) : m.selector = Enclave.selector m.signature := by
  cases m
  all_goals decide +kernel

theorem Callee.selector_signature (m : Callee) : m.selector = Enclave.selector m.signature := by
  cases m
  all_goals decide +kernel

theorem Method.dispatches : Dispatches Method.selector Method.all where
  length m := by cases m <;> rfl
  find m := by cases m <;> decide

theorem ofCalldata_append (m : Method) (args : Bytes) :
    Method.ofCalldata (m.selector ++ args) = some m :=
  ofSelector_append Method.dispatches m args

/-- A call that the account's own code makes is not a call of one of its functions, except for
`proxiableUUID`. -/
theorem ofCalldata_encode {m : Callee} {args : List AbiValue} {m' : Method}
    (h : Method.ofCalldata (m.encode args) = some m') : m' = .proxiableUUID := by
  have hsel : m'.selector = m.selector := by
    rw [selector_of_ofSelector h, Callee.encode]
    cases m <;> rfl
  cases m <;> cases m' <;> first | rfl | exact absurd hsel (by decide)

end Enclave.P256SmartAccount
