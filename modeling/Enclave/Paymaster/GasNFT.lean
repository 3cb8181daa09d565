import Enclave.Evm.Journal
import Enclave.Evm.Ownable

/-!
# `GasNFT`

The collection whose holders `EnclaveVerifyingNFTPaymaster` sponsors: an OpenZeppelin `ERC721` in
version 4.9.6 with a function to mint.  `safeTransferFrom` is `transferFrom` in a frame that is
rolled back if the receiver refuses the token.
-/

namespace Enclave

/-! ### OpenZeppelin `ERC721` -/

/-- The storage of an `ERC721`. -/
structure ERC721 where
  owners : Word → Address
  balances : Address → Word
  tokenApprovals : Word → Address
  operatorApprovals : Address → Address → Bool

namespace ERC721

/-- What the constructor leaves. -/
def deploy : ERC721 where
  owners _ := 0
  balances _ := 0
  tokenApprovals _ := 0
  operatorApprovals _ _ := false

/-- `balanceOf`. -/
def balanceOf (t : ERC721) (owner : Address) : Result Word := do
  require (owner ≠ 0) "ERC721: address zero is not a valid owner"
  .ok (t.balances owner)

/-- `ownerOf`. -/
def ownerOf (t : ERC721) (tokenId : Word) : Result Address := do
  let owner := t.owners tokenId
  require (owner ≠ 0) "ERC721: invalid token ID"
  .ok owner

/-- `_isApprovedOrOwner`. -/
def isApprovedOrOwner (t : ERC721) (spender : Address) (tokenId : Word) : Result Bool := do
  let owner ← t.ownerOf tokenId
  .ok (decide (spender = owner ∨ t.operatorApprovals owner spender = true ∨
    t.tokenApprovals tokenId = spender))

/-- `approve`, called by `caller`. -/
def approve (t : ERC721) (caller recipient : Address) (tokenId : Word) : Result ERC721 := do
  let owner ← t.ownerOf tokenId
  require (recipient ≠ owner) "ERC721: approval to current owner"
  require (caller = owner ∨ t.operatorApprovals owner caller = true)
    "ERC721: approve caller is not token owner or approved for all"
  .ok { t with tokenApprovals := Function.update t.tokenApprovals tokenId recipient }

/-- `setApprovalForAll`, called by `caller`. -/
def setApprovalForAll (t : ERC721) (caller operator : Address) (approved : Bool) :
    Result ERC721 := do
  require (caller ≠ operator) "ERC721: approve to caller"
  let approvals := Function.update (t.operatorApprovals caller) operator approved
  .ok { t with operatorApprovals := Function.update t.operatorApprovals caller approvals }

/-- `_transfer`; the balances are changed without a check. -/
def transferToken (t : ERC721) (src dst : Address) (tokenId : Word) : Result ERC721 := do
  let owner ← t.ownerOf tokenId
  require (owner = src) "ERC721: transfer from incorrect owner"
  require (dst ≠ 0) "ERC721: transfer to the zero address"
  let debited := Function.update t.balances src (t.balances src - 1)
  .ok { t with
    tokenApprovals := Function.update t.tokenApprovals tokenId 0
    balances := Function.update debited dst (debited dst + 1)
    owners := Function.update t.owners tokenId dst }

/-- `transferFrom`, called by `caller`. -/
def transferFrom (t : ERC721) (caller src dst : Address) (tokenId : Word) : Result ERC721 := do
  let allowed ← t.isApprovedOrOwner caller tokenId
  require (allowed = true) "ERC721: caller is not token owner or approved"
  t.transferToken src dst tokenId

/-- `_mint`. -/
def mint (t : ERC721) (recipient : Address) (tokenId : Word) : Result ERC721 := do
  require (recipient ≠ 0) "ERC721: mint to the zero address"
  require (t.owners tokenId = 0) "ERC721: token already minted"
  .ok { t with
    balances := Function.update t.balances recipient (t.balances recipient + 1)
    owners := Function.update t.owners tokenId recipient }

end ERC721

/-! ### `GasNFT` -/

/-- The storage, with the owner that `Ownable` keeps. -/
structure GasNFT where
  token : ERC721
  owner : Address
  tokenIds : Word
  mintPrice : Word

namespace GasNFT

/-- What the constructor leaves. -/
def deploy (deployer : Address) : GasNFT where
  token := ERC721.deploy
  owner := deployer
  tokenIds := 0
  mintPrice := 0

/-- `mintNFT`; the counter is incremented without a check. -/
def mintNFT (recipient : Address) (s : GasNFT) : Result (Word × GasNFT) := do
  let balance ← s.token.balanceOf recipient
  require (balance = 0) "GasNFT: Already minted"
  let newItemId := s.tokenIds + 1
  let token ← s.token.mint recipient newItemId
  .ok (newItemId, { s with token := token, tokenIds := newItemId })

instance : Ownable GasNFT where
  owner := GasNFT.owner
  setOwner s newOwner := { s with owner := newOwner }

/-- The modifier `onlyOwner`. -/
def onlyOwner (sender : Address) (s : GasNFT) : Result Unit := Ownable.onlyOwner sender s

/-- `setMintPrice`. -/
def setMintPrice (sender : Address) (price : Word) (s : GasNFT) : Result GasNFT := do
  onlyOwner sender s
  .ok { s with mintPrice := price }

/-- `transferOwnership`. -/
def transferOwnership (sender newOwner : Address) (s : GasNFT) : Result GasNFT :=
  Ownable.transferOwnership sender newOwner s

/-- `renounceOwnership`. -/
def renounceOwnership (sender : Address) (s : GasNFT) : Result GasNFT :=
  Ownable.renounceOwnership sender s

/-- The functions that write, called by anyone. -/
inductive Call
  | mintNFT (sender recipient : Address)
  | transferFrom (sender src dst : Address) (tokenId : Word)
  | approve (sender recipient : Address) (tokenId : Word)
  | setApprovalForAll (sender operator : Address) (approved : Bool)
  | setMintPrice (sender : Address) (price : Word)
  | transferOwnership (sender newOwner : Address)
  | renounceOwnership (sender : Address)

/-- A function of `ERC721`. -/
def onToken (s : GasNFT) (f : ERC721 → Result ERC721) : Result GasNFT := do
  let token ← f s.token
  .ok { s with token := token }

def Call.run (s : GasNFT) : Call → Result GasNFT
  | .mintNFT _ recipient => do
    let (_, s) ← s.mintNFT recipient
    .ok s
  | .transferFrom sender src dst tokenId => s.onToken (·.transferFrom sender src dst tokenId)
  | .approve sender recipient tokenId => s.onToken (·.approve sender recipient tokenId)
  | .setApprovalForAll sender operator approved =>
    s.onToken (·.setApprovalForAll sender operator approved)
  | .setMintPrice sender price => s.setMintPrice sender price
  | .transferOwnership sender newOwner => s.transferOwnership sender newOwner
  | .renounceOwnership sender => s.renounceOwnership sender

/-- A call that reverts changes nothing. -/
def apply (s : GasNFT) (call : Call) : GasNFT :=
  match call.run s with
  | .ok s' => s'
  | .error _ => s

/-- The collection at the end of a run. -/
def stateAfter (s : GasNFT) (events : List (JournalEvent Call)) : GasNFT :=
  (Journal.run apply (Journal.start s) events).state

end GasNFT

end Enclave
