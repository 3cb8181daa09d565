import Enclave.Account.Base64Memory
import Enclave.Account.Base64URL
import Enclave.Account.Deployment
import Enclave.Account.EnclaveRegistry
import Enclave.Account.Equiv.Authority
import Enclave.Account.Equiv.Base64Memory
import Enclave.Account.Equiv.Base64URL
import Enclave.Account.Equiv.Calldata
import Enclave.Account.Equiv.Completeness
import Enclave.Account.Equiv.Discipline
import Enclave.Account.Equiv.EIP1271
import Enclave.Account.Equiv.Execution
import Enclave.Account.Equiv.Factory
import Enclave.Account.Equiv.Guardians
import Enclave.Account.Equiv.Multichain
import Enclave.Account.Equiv.Passkey
import Enclave.Account.Equiv.Selectors
import Enclave.Account.Equiv.Signature
import Enclave.Account.Equiv.Verification
import Enclave.Account.Execution
import Enclave.Account.Factory
import Enclave.Account.MultichainValidator
import Enclave.Account.P256SmartAccount
import Enclave.Balance.Equiv.Authority
import Enclave.Balance.Equiv.Governance
import Enclave.Balance.Equiv.Payouts
import Enclave.Balance.Equiv.SmartAccount
import Enclave.Balance.Equiv.Solvency
import Enclave.Balance.SmartAccount
import Enclave.Balance.TokenVault
import Enclave.Codec.Sextets
import Enclave.Crypto.Merkle
import Enclave.Curve.Jacobian
import Enclave.Curve.Order
import Enclave.Curve.Projective
import Enclave.Curve.StraussShamir
import Enclave.Curve.Window
import Enclave.Curve.XYZZ
import Enclave.Evm.Abi
import Enclave.Evm.Allocation
import Enclave.Evm.Bytes
import Enclave.Evm.Calldata
import Enclave.Evm.Create2
import Enclave.Evm.Dispatch
import Enclave.Evm.Handler
import Enclave.Evm.Journal
import Enclave.Evm.Keccak
import Enclave.Evm.Lineage
import Enclave.Evm.Machine
import Enclave.Evm.Mapping
import Enclave.Evm.Memory
import Enclave.Evm.Ownable
import Enclave.Evm.Precompile
import Enclave.Evm.Program
import Enclave.Evm.Reentrancy
import Enclave.Evm.RoundTrip
import Enclave.Evm.Sha256
import Enclave.Evm.Word
import Enclave.Evm.Yul
import Enclave.Fee.Contract
import Enclave.Fee.Equiv.FullMath
import Enclave.Fee.Equiv.Mainnet
import Enclave.Fee.Equiv.OptimalPool
import Enclave.Fee.Equiv.Uniswap
import Enclave.Fee.FullMath
import Enclave.Fee.Mainnet
import Enclave.Fee.Uniswap
import Enclave.Number.BinaryInverse
import Enclave.Number.CubicRoots
import Enclave.Number.Montgomery
import Enclave.Number.PowMod
import Enclave.Number.Pratt
import Enclave.Order.Scan
import Enclave.P256.Ecdsa
import Enclave.P256.Equiv.Field
import Enclave.P256.Equiv.Generator
import Enclave.P256.Equiv.GroupLaw
import Enclave.P256.Equiv.Montgomery
import Enclave.P256.Equiv.P256V
import Enclave.P256.Equiv.P256VERIFY
import Enclave.P256.Equiv.P256VerifierYul
import Enclave.P256.Equiv.SECP256R1
import Enclave.P256.Equiv.ShamirMult
import Enclave.P256.Equiv.Signing
import Enclave.P256.Equiv.Verifier
import Enclave.P256.Equiv.XYZZ
import Enclave.P256.P256V
import Enclave.P256.P256VERIFY
import Enclave.P256.P256VerifierYul
import Enclave.P256.Params
import Enclave.P256.SECP256R1
import Enclave.P256.Verifier
import Enclave.Paymaster.ECDSA
import Enclave.Paymaster.ERC20
import Enclave.Paymaster.Equiv.Approval
import Enclave.Paymaster.Equiv.Bundle
import Enclave.Paymaster.Equiv.Caps
import Enclave.Paymaster.Equiv.Custody
import Enclave.Paymaster.Equiv.ERC20
import Enclave.Paymaster.Equiv.Fleet
import Enclave.Paymaster.Equiv.GasNFT
import Enclave.Paymaster.Equiv.Layout
import Enclave.Paymaster.Equiv.Movement
import Enclave.Paymaster.Equiv.MultiToken
import Enclave.Paymaster.Equiv.NFT
import Enclave.Paymaster.Equiv.Payout
import Enclave.Paymaster.Equiv.Pricing
import Enclave.Paymaster.Equiv.Settlement
import Enclave.Paymaster.Equiv.Solver
import Enclave.Paymaster.Equiv.Token
import Enclave.Paymaster.Equiv.Verifying
import Enclave.Paymaster.Fleet
import Enclave.Paymaster.GasNFT
import Enclave.Paymaster.MultiToken
import Enclave.Paymaster.NFT
import Enclave.Paymaster.Solver
import Enclave.Paymaster.Token
import Enclave.Paymaster.TokenRun
import Enclave.Paymaster.UserOperation
import Enclave.Paymaster.Verifying
