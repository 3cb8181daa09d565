import Enclave.Balance.Equiv.SmartAccount
import Enclave.Evm.RoundTrip
import Enclave.Paymaster.UserOperation

/-!
# Calls with encoded arguments

What the accounts make of calldata that a caller has encoded: `execute`, `executeBatch` and
`validateUserOp` run on the arguments that went in.  For `executeBatch` this goes through the arrays
in calldata, whose elements are looked up one by one behind relative offsets (`decodeBatch_encode`);
the loop is then the sequence of the calls.

These statements are equations between programs, so that they hold whatever the callees do.  The
accounts differ in their guard and in `validateUserOp` (`Entries`), and everything is proved once
for a contract that decodes these entries (`Entries.Decodes`).
-/

namespace Enclave

/-! ### The arguments -/

/-- The arguments of `execute`. -/
def executeParts (dest : Address) (value : Word) (func : Bytes) : List Part :=
  [.static (toWord dest), .static value, bytesPart func]

/-- The arguments of `executeBatch`. -/
def batchParts (dest : List Address) (value : List Word) (func : List Bytes) : List Part :=
  [wordsPart (dest.map toWord), wordsPart value, bytesArrayPart func]

/-- The fields of an operation. -/
def UserOperation.parts (op : UserOperation) : List Part :=
  [.static (toWord op.sender), .static op.nonce, bytesPart op.initCode, bytesPart op.callData,
    .static op.callGasLimit, .static op.verificationGasLimit, .static op.preVerificationGas,
    .static op.maxFeePerGas, .static op.maxPriorityFeePerGas, bytesPart op.paymasterAndData,
    bytesPart op.signature]

/-- The arguments of `validateUserOp`. -/
def validationParts (op : UserOperation) (userOpHash missingAccountFunds : Word) : List Part :=
  [.dynamic (encodeParts op.parts), .static userOpHash, .static missingAccountFunds]

/-! ### Decoding -/

/-- The arguments of `execute` are read back. -/
theorem decode_executeParts (dest : Address) (value : Word) (func : Bytes)
    (hlen : (encodeParts (executeParts dest value func)).length + 4 < 2 ^ 64) :
    requireHead (encodeParts (executeParts dest value func)) 96 = .ok () ∧
    abiDecodeAddress (encodeParts (executeParts dest value func)) 0 = .ok dest ∧
    abiDecodeWord (encodeParts (executeParts dest value func)) 32 = .ok value ∧
    abiDecodeBytesCalldata (encodeParts (executeParts dest value func)) 64 = .ok func := by
  rw [← List.append_nil (encodeParts (executeParts dest value func))]
  refine ⟨requireHead_encodeParts _ [] le_rfl, ?_, ?_, ?_⟩
  · exact decodeBits_encodeParts (i := 0) (by decide) rfl []
  · exact decodeWord_encodeParts (i := 1) rfl []
  · exact decodeBytes_encodeParts (i := 2) (by omega) rfl []

namespace P256SmartAccount

/-- The elements of an array, looked up one by one. -/
theorem map_range_eq {α β : Type} {f : ℕ → β} {g : α → β} (l : List α)
    (h : ∀ i (hi : i < l.length), f i = g l[i]) : (List.range l.length).map f = l.map g := by
  apply List.ext_getElem (by rw [List.length_map, List.length_map, List.length_range])
  intro i hi hi'
  rw [List.length_map] at hi'
  rw [List.getElem_map, List.getElem_map, List.getElem_range, h i hi']

/-- The arrays of `executeBatch` are read back. -/
theorem decodeBatch_encode {selector : Bytes} (hselector : selector.length = 4)
    (dest : List Address) (value : List Word) (func : List Bytes)
    (hlen : (encodeParts (batchParts dest value func)).length + 4 < 2 ^ 64) :
    decodeBatch (selector ++ encodeParts (batchParts dest value func))
        (encodeParts (batchParts dest value func))
      = .ok (dest.map .ok, value, func.map .ok) := by
  have hargs : (encodeParts (batchParts dest value func)).length < 2 ^ 64 := by omega
  have hdest := decodeArray_wordsPart (show (batchParts dest value func)[0]?
    = some (wordsPart (dest.map toWord)) from rfl) hargs []
  have hvalue := decodeArray_wordsPart (show (batchParts dest value func)[1]?
    = some (wordsPart value) from rfl) hargs []
  have hfunc := decodeArray_bytesArrayPart (show (batchParts dest value func)[2]?
    = some (bytesArrayPart func) from rfl) selector []
      (by rw [List.append_nil, List.length_append]; omega)
  have hhead := requireHead_encodeParts (n := 96) (batchParts dest value func) [] le_rfl
  rw [List.append_nil] at hdest hvalue hfunc hhead
  obtain ⟨destStart, hdest, hdests⟩ := hdest
  obtain ⟨valueStart, hvalue, hvalues⟩ := hvalue
  obtain ⟨funcStart, hfunc, hfuncs⟩ := hfunc
  rw [List.length_map] at hdest
  rw [hselector] at hfuncs
  rw [decodeBatch, hhead, ok_bind, hdest, ok_bind]
  dsimp only
  rw [hvalue, ok_bind]
  dsimp only
  rw [hfunc, ok_bind]
  -- the entries of the arrays are read one by one, each at its own place
  refine congrArg Except.ok (Prod.ext ?_ (Prod.ext ?_ ?_))
  · refine map_range_eq dest fun j hj => abiDecodeBits_of_decode (by decide) ?_
    rw [hdests j (by rw [List.length_map]; exact hj), List.getElem_map]
  · conv_rhs => rw [← List.map_id value]
    exact map_range_eq value fun j hj => calldataload_of_decode (hvalues j hj)
  · exact map_range_eq func hfuncs

/-- The signature of an operation is found where the operation was put. -/
theorem decodeValidation_encode {selector : Bytes} (hselector : selector.length = 4)
    (op : UserOperation) (userOpHash missingAccountFunds : Word)
    (hlen : (encodeParts (validationParts op userOpHash missingAccountFunds)).length + 4
      < 2 ^ 64) :
    decodeValidation
        (selector ++ encodeParts (validationParts op userOpHash missingAccountFunds))
        (encodeParts (validationParts op userOpHash missingAccountFunds))
      = .ok (.ok op.signature, userOpHash, missingAccountFunds) := by
  have hoffset := decodeOffset_encodeParts (show (validationParts op userOpHash
    missingAccountFunds)[0]? = some (.dynamic (encodeParts op.parts)) from rfl)
  obtain ⟨front, back, hsplit, hoffset⟩ := hoffset
  have hhash := decodeWord_encodeParts (show (validationParts op userOpHash
    missingAccountFunds)[1]? = some (.static userOpHash) from rfl) []
  have hfunds := decodeWord_encodeParts (show (validationParts op userOpHash
    missingAccountFunds)[2]? = some (.static missingAccountFunds) from rfl) []
  have hhead := requireHead_encodeParts (n := 96)
    (validationParts op userOpHash missingAccountFunds) [] le_rfl
  have hoffset' := hoffset []
  rw [List.append_nil] at hoffset' hhash hfunds hhead
  have hop : (encodeParts op.parts).length = 352 + (op.parts.flatMap Part.tail).length :=
    length_encodeParts op.parts
  have hlen' := congrArg List.length hsplit
  simp only [List.length_append] at hlen'
  -- the operation is a tuple behind an offset, and its signature is behind an offset of its own
  have htail : calldataTail (selector ++ encodeParts (validationParts op userOpHash
      missingAccountFunds)) (4 + front.length) (4 + front.length + 320) = .ok op.signature := by
    rw [hsplit, ← List.append_assoc, ← hselector, ← List.length_append]
    refine calldataTail_encodeParts (i := 10) rfl ?_
    simp only [List.length_append]
    omega
  rw [decodeValidation, hhead, ok_bind, hoffset', ok_bind, toNat_ofNat_of_lt (by omega),
    if_neg (by omega), if_neg (by omega), hhash, ok_bind, hfunds, ok_bind, htail]

end P256SmartAccount

/-! ### The entries of an account -/

/-- The functions through which an account is operated. -/
inductive Entry
  | execute
  | executeBatch
  | validateUserOp

/-- What tells the two accounts apart in these functions. -/
structure Entries (S : Type) where
  selector : Entry → Bytes
  guard : Address → Prog S Unit
  validateUserOp : Address → Result Bytes → Word → Word → Prog S Word

namespace Entries

variable {S : Type} {K : Contract S} {A : Entries S}

/-- The dispatcher of the contract finds the entries and decodes their arguments. -/
structure Decodes (K : Contract S) (A : Entries S) : Prop where
  length : ∀ e, (A.selector e).length = 4
  execute : ∀ sender static args, K.body ⟨sender, 0, A.selector .execute ++ args, static⟩ = do
    Prog.lift (requireHead args 96)
    let dest ← Prog.lift (abiDecodeAddress args 0)
    let value ← Prog.lift (abiDecodeWord args 32)
    let func ← Prog.lift (abiDecodeBytesCalldata args 64)
    noReturn (Execution.execute (A.guard sender) dest value func)
  executeBatch : ∀ sender static args,
    K.body ⟨sender, 0, A.selector .executeBatch ++ args, static⟩ = do
      let (dest, value, func) ← Prog.lift
        (P256SmartAccount.decodeBatch (A.selector .executeBatch ++ args) args)
      noReturn (Execution.executeBatch (A.guard sender) dest value func)
  validateUserOp : ∀ sender static args,
    K.body ⟨sender, 0, A.selector .validateUserOp ++ args, static⟩ = do
      let (signature, userOpHash, missingAccountFunds) ← Prog.lift
        (P256SmartAccount.decodeValidation (A.selector .validateUserOp ++ args) args)
      returnWord (A.validateUserOp sender signature userOpHash missingAccountFunds)

/-- A call of `executeBatch` by `sender` with encoded arguments. -/
def batchMsg (A : Entries S) (sender : Address) (static : Bool) (dest : List Address)
    (value : List Word) (func : List Bytes) : Msg :=
  ⟨sender, 0, A.selector .executeBatch ++ encodeParts (batchParts dest value func), static⟩

/-- What an account makes of encoded calls of its entries. -/
structure RunsEncoded (K : Contract S) (A : Entries S) : Prop where
  execute : ∀ (sender : Address) (static : Bool) (dest : Address) (value : Word) (func : Bytes),
    (encodeParts (executeParts dest value func)).length + 4 < 2 ^ 64 →
    K.body ⟨sender, 0, A.selector .execute ++ encodeParts (executeParts dest value func), static⟩
      = noReturn (Execution.execute (A.guard sender) dest value func)
  executeBatch : ∀ (sender : Address) (static : Bool) (dest : List Address) (value : List Word)
    (func : List Bytes), (encodeParts (batchParts dest value func)).length + 4 < 2 ^ 64 →
    K.body (A.batchMsg sender static dest value func)
      = noReturn (do
        A.guard sender
        Prog.lift (Execution.requireLengths dest value func)
        Execution.callAll (Execution.batchCalls dest value func))
  validateUserOp : ∀ (sender : Address) (static : Bool) (op : UserOperation)
    (userOpHash missingAccountFunds : Word),
    (encodeParts (validationParts op userOpHash missingAccountFunds)).length + 4 < 2 ^ 64 →
    K.body ⟨sender, 0, A.selector .validateUserOp ++
        encodeParts (validationParts op userOpHash missingAccountFunds), static⟩
      = returnWord (A.validateUserOp sender (.ok op.signature) userOpHash missingAccountFunds)
  /-- Whatever the callees answer and do, a frame of a batch stands where a batch can stand. -/
  batches : ∀ (sender : Address) (static : Bool) (dest : List Address) (value : List Word)
    (func : List Bytes), (encodeParts (batchParts dest value func)).length + 4 < 2 ^ 64 →
    ∀ (s : S) (c : Config S), Run K (fun _ _ => True) (.idle s) c → ∀ trace control saved,
      .own (A.batchMsg sender static dest value func) trace control saved ∈ c.stack →
      ∃ p, control.prog = noReturn p ∧
        Execution.BatchState (A.guard sender) (Execution.requireLengths dest value func)
          (Execution.batchCalls dest value func) trace p

theorem body_batchMsg (h : Decodes K A) (sender : Address) (static : Bool) (dest : List Address)
    (value : List Word) (func : List Bytes)
    (hlen : (encodeParts (batchParts dest value func)).length + 4 < 2 ^ 64) :
    K.body (A.batchMsg sender static dest value func) = noReturn (do
      A.guard sender
      Prog.lift (Execution.requireLengths dest value func)
      Execution.callAll (Execution.batchCalls dest value func)) := by
  have hdecode := P256SmartAccount.decodeBatch_encode (h.length .executeBatch) dest value func hlen
  rw [batchMsg, h.executeBatch, hdecode, ← Execution.executeBatch_eq]
  rfl

/-- It runs the functions on the arguments that were encoded. -/
theorem runsEncoded (h : Decodes K A) : RunsEncoded K A where
  execute sender static dest value func hlen := by
    obtain ⟨hhead, hdest, hvalue, hfunc⟩ := decode_executeParts dest value func hlen
    rw [h.execute, hhead, hdest, hvalue, hfunc]
    rfl
  executeBatch := body_batchMsg h
  validateUserOp sender static op userOpHash missingAccountFunds hlen := by
    have hdecode := P256SmartAccount.decodeValidation_encode (h.length .validateUserOp) op
      userOpHash missingAccountFunds hlen
    rw [h.validateUserOp, hdecode]
    rfl
  batches sender static dest value func hlen s c hrun trace control saved hmem := by
    have hreached : (K.body (A.batchMsg sender static dest value func)).Reaches trace
        control.prog := reached_of_run hrun _ hmem
    rw [body_batchMsg h sender static dest value func hlen] at hreached
    obtain ⟨p, hp, hprog⟩ := Prog.reaches_bind_pure hreached
    exact ⟨p, hprog, Execution.reaches_executeBatch hp⟩

end Entries

/-! ### The two accounts -/

namespace P256SmartAccount

def entries (this : Address) : Entries Storage where
  selector
    | .execute => Method.execute.selector
    | .executeBatch => Method.executeBatch.selector
    | .validateUserOp => Method.validateUserOp.selector
  guard := requireFromEntryPointOrOwner this
  validateUserOp := validateUserOp

/-- The dispatcher hands the arguments to the function that is named. -/
theorem body_append (this logic sender : Address) (static : Bool) (m : Method) (args : Bytes) :
    body this logic ⟨sender, 0, m.selector ++ args, static⟩
      = run this logic ⟨sender, 0, m.selector ++ args, static⟩ args m := by
  rw [body, ofCalldata_append]
  simp only [ne_eq, not_true_eq_false, false_and, if_false, Method.dispatches.drop_append]

theorem decodes (this logic : Address) : Entries.Decodes (contract this logic) (entries this) where
  length e := by cases e <;> rfl
  execute sender static args := body_append this logic sender static .execute args
  executeBatch sender static args := body_append this logic sender static .executeBatch args
  validateUserOp sender static args := body_append this logic sender static .validateUserOp args

end P256SmartAccount

namespace SmartAccount

def entries (ecrecover : ECDSA.Ecrecover) : Entries Storage where
  selector
    | .execute => Method.execute.selector
    | .executeBatch => Method.executeBatch.selector
    | .validateUserOp => Method.validateUserOp.selector
  guard := requireFromEntryPointOrOwner
  validateUserOp := validateUserOp ecrecover

theorem body_append (ecrecover : ECDSA.Ecrecover) (this logic sender : Address) (static : Bool)
    (m : Method) (args : Bytes) :
    body ecrecover this logic ⟨sender, 0, m.selector ++ args, static⟩
      = run ecrecover true this logic ⟨sender, 0, m.selector ++ args, static⟩ args m := by
  rw [body, dispatch, ofCalldata_append]
  simp only [ne_eq, not_true_eq_false, false_and, if_false, Method.dispatches.drop_append]

theorem decodes (ecrecover : ECDSA.Ecrecover) (this logic : Address) :
    Entries.Decodes (contract ecrecover this logic) (entries ecrecover) where
  length e := by cases e <;> rfl
  execute sender static args := body_append ecrecover this logic sender static .execute args
  executeBatch sender static args :=
    body_append ecrecover this logic sender static .executeBatch args
  validateUserOp sender static args :=
    body_append ecrecover this logic sender static .validateUserOp args

end SmartAccount

/-- **Encoded calls run as they were meant**: on the calldata of `execute`, `executeBatch` and
`validateUserOp` both accounts run the function on the arguments that were encoded; and at every
moment of every run a batch has made a first part of its calls, in order and with success, or it
reverts with the call that has failed. -/
theorem encoded_calls (this logic : Address) :
    Entries.RunsEncoded (P256SmartAccount.contract this logic) (P256SmartAccount.entries this) ∧
    ∀ ecrecover, Entries.RunsEncoded (SmartAccount.contract ecrecover this logic)
      (SmartAccount.entries ecrecover) :=
  ⟨Entries.runsEncoded (P256SmartAccount.decodes this logic),
    fun ecrecover => Entries.runsEncoded (SmartAccount.decodes ecrecover this logic)⟩

end Enclave
