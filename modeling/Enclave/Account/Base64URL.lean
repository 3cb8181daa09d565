import Enclave.Evm.Keccak

/-!
# `Base64URL`

The library that turns a challenge into the text of a client data record.  It calls the padded
`Base64.encode` of OpenZeppelin, strips the padding and replaces the two characters that differ in
the URL alphabet.
-/

namespace Enclave.Base64

/-- `_TABLE`. -/
def table : Bytes := ascii "ABCDEFGHIJKLMNOPQRSTUVWXYZabcdefghijklmnopqrstuvwxyz0123456789+/"

/-- One `mstore8` of the loop: the character at the given shift of the three bytes read. -/
def character (input shift : ℕ) : UInt8 := table.getD (input >>> shift &&& 0x3F) 0

/-- The four characters written for three bytes. -/
def chunk (x y z : UInt8) : Bytes :=
  let input := x.toNat * 65536 + y.toNat * 256 + z.toNat
  [character input 18, character input 12, character input 6, character input 0]

/-- The loop over the input; the bytes read after its end are zero. -/
def encodeLoop : Bytes → Bytes
  | [] => []
  | [x] => chunk x 0 0
  | [x, y] => chunk x y 0
  | x :: y :: z :: rest => chunk x y z ++ encodeLoop rest

/-- `encode`. -/
def encode (data : Bytes) : Bytes :=
  if data.length = 0 then [] else
    let result := encodeLoop data
    match data.length % 3 with
    | 1 => result.take (result.length - 2) ++ [0x3d, 0x3d]
    | 2 => result.take (result.length - 1) ++ [0x3d]
    | _ => result

end Enclave.Base64

namespace Enclave.Base64URL

/-- The body of the copying loop. -/
def replace (c : UInt8) : UInt8 :=
  if c = 0x2b then 0x2d else if c = 0x2f then 0x5f else c

/-- `encode`. -/
def encode (data : Bytes) : Bytes :=
  let b64 := Base64.encode data
  let equalsCount :=
    if b64.length > 2 ∧ b64.getD (b64.length - 2) 0 = 0x3d then 2
    else if b64.length > 1 ∧ b64.getD (b64.length - 1) 0 = 0x3d then 1
    else 0
  let len := b64.length - equalsCount
  (b64.take len).map replace

end Enclave.Base64URL
