/-
The bridge to the layer below (`lez/programs/bridge`): its instructions and its receipts.

A deposit moves native tokens from the account of the bridge into the vault of the recipient
and leaves a receipt, an account whose id is derived from the id of the deposit; a withdrawal
moves them back and names the key that is paid on the other side.
-/
import Lssa.Guest
import Lssa.LeeTransaction

namespace Lssa

namespace Bridge

inductive Instruction
  | deposit (l1DepositOpId : Bytes 32) (vaultProgramId : ProgramId) (recipientId : AccountId)
      (amount : U64)
  | withdraw (amount : U64) (bedrockAccountPk : Bytes 32)
  deriving DecidableEq

/-- `DEPOSIT_RECEIPT_SEED_DOMAIN`, then the id of the deposit. -/
def depositReceiptSeedBytes (l1DepositOpId : Bytes 32) : List UInt8 :=
  ascii "/LEZ/v0.3/BridgeDepositReceipt/0" ++ l1DepositOpId.toList

variable [Sha256]

def depositReceiptSeed (l1DepositOpId : Bytes 32) : PdaSeed :=
  ⟨Sha256.hashBytes (depositReceiptSeedBytes l1DepositOpId)⟩

def depositReceiptAccountId (bridgeProgramId : ProgramId) (l1DepositOpId : Bytes 32) : AccountId :=
  forPublicPda bridgeProgramId (depositReceiptSeed l1DepositOpId)

end Bridge

end Lssa
