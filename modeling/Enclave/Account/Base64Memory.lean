import Enclave.Account.Base64URL
import Enclave.Evm.Allocation
import Enclave.Evm.Yul

/-!
# `Base64` and `Base64URL` in memory

The code of the two libraries on the memory of the call: the assembly of `Base64.encode`, which
reads its table with whole words, reads three bytes at a time past the end of its input and hides
what stands there, and the loop of `Base64URL.encode` with its bounds checks.

A loop that takes more than `gas` iterations runs out of gas, which reverts without data.
-/

namespace Enclave.Base64

/-- What the loop of the assembly changes. -/
structure LoopState where
  memory : Memory
  dataPtr : ℕ
  resultPtr : ℕ

/-- `mstore8(resultPtr, mload(add(tablePtr, and(shr(shift, input), 0x3F))))`, and
`resultPtr := add(resultPtr, 1)`. -/
def writeCharacter (tablePtr : ℕ) (input : Word) (shift : ℕ) (s : LoopState) : LoopState :=
  let index := (input >>> shift &&& 0x3F).toNat
  let entry := s.memory.mload (Yul.add tablePtr index)
  { s with
    memory := s.memory.mstore8 s.resultPtr (UInt8.ofNat entry.toNat)
    resultPtr := Yul.add s.resultPtr 1 }

/-- The body of the loop. -/
def iteration (tablePtr : ℕ) (s : LoopState) : LoopState :=
  let s := { s with dataPtr := Yul.add s.dataPtr 3 }
  let input := s.memory.mload s.dataPtr
  let s := writeCharacter tablePtr input 18 s
  let s := writeCharacter tablePtr input 12 s
  let s := writeCharacter tablePtr input 6 s
  writeCharacter tablePtr input 0 s

/-- The `switch` after the loop. -/
def padResult (m : Memory) (data resultPtr : ℕ) : Memory :=
  match m.lengthAt data % 3 with
  | 1 => (m.mstore8 (Yul.sub resultPtr 1) 0x3d).mstore8 (Yul.sub resultPtr 2) 0x3d
  | 2 => m.mstore8 (Yul.sub resultPtr 1) 0x3d
  | _ => m

/-- The assembly block, with the three objects that it is given. -/
def encodeAssembly (gas : ℕ) (m : Memory) (data table result : ℕ) : Option Memory := do
  let tablePtr := Yul.add table 1
  let resultPtr := Yul.add result 0x20
  let endPtr := Yul.add data (m.lengthAt data)
  let afterPtr := Yul.add endPtr 0x20
  let afterCache := m.mload afterPtr
  let m := m.mstore afterPtr 0
  let s ← Yul.forLoop (fun s => decide (s.dataPtr < endPtr))
    (fun s => some (iteration tablePtr s)) gas ⟨m, data, resultPtr⟩
  some (padResult (s.memory.mstore afterPtr afterCache) data s.resultPtr)

/-- `encode`: the memory afterwards, and the address of the text. -/
def encodeMemory (gas : ℕ) (m : Memory) (data : ℕ) : Result (Memory × ℕ) := do
  if m.mload data = 0 then m.literal []
  else
    let (m, table) ← m.literal table
    let rounded ← (m.mload data).checkedAdd 2
    let size ← Word.checkedMul 4 (rounded / 3)
    let (m, result) ← m.newBytes size.toNat
    match encodeAssembly gas m data table result with
    | none => .error .empty
    | some m => .ok (m, result)

end Enclave.Base64

namespace Enclave.Base64URL

/-- `b64.length > k && b64[b64.length - k] == "="`; the second test is made only after the first. -/
def equalsAt (m : Memory) (b64 k : ℕ) : Result Bool :=
  if m.lengthAt b64 > k then do
    let c ← m.index b64 (m.lengthAt b64 - k)
    .ok (c == 0x3d)
  else .ok false

/-- The count of `=` at the end of `b64`. -/
def equalsCount (m : Memory) (b64 : ℕ) : Result ℕ := do
  if ← equalsAt m b64 2 then .ok 2
  else if ← equalsAt m b64 1 then .ok 1
  else .ok 0

/-- The body of the copying loop. -/
def copyCharacter (b64 result i : ℕ) (m : Memory) : Result Memory := do
  if (← m.index b64 i) = 0x2b then m.setIndex result i 0x2d
  else if (← m.index b64 i) = 0x2f then m.setIndex result i 0x5f
  else m.setIndex result i (← m.index b64 i)

/-- The copying loop from index `i`, with `n` indices to go. -/
def copyLoop (b64 result : ℕ) : ℕ → ℕ → Memory → Result Memory
  | _, 0, m => .ok m
  | i, n + 1, m => do
    let m ← copyCharacter b64 result i m
    copyLoop b64 result (i + 1) n m

/-- `encode`: the memory afterwards, and the address of the text. -/
def encodeMemory (gas : ℕ) (m : Memory) (data : ℕ) : Result (Memory × ℕ) := do
  let (m, b64) ← Base64.encodeMemory gas m data
  let equals ← equalsCount m b64
  let len ← checkedSub (m.lengthAt b64) equals
  let (m, result) ← m.newBytes len
  let m ← copyLoop b64 result 0 len m
  .ok (m, result)

end Enclave.Base64URL
