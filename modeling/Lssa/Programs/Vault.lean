/-
The vault program (`lez/programs/vault`).

Everyone has a vault, a PDA of this program under a seed hashed from the id of its owner.
The program moves no balance itself: it passes the authority of the vault on to the
program that owns the paying account, which for an account of authenticated transfer is
authenticated transfer.
-/
import Lssa.Programs.AuthenticatedTransfer

namespace Lssa

namespace Vault

inductive Instruction
  | transfer (recipientId : AccountId) (amount : Balance)
  | claim (amount : Balance)
  deriving DecidableEq

/-- `VAULT_SEED_DOMAIN_SEPARATOR`, then the owner. -/
def vaultSeedBytes (ownerId : AccountId) : List UInt8 :=
  ascii "/LEZ/v0.3/VaultSeed/00000000000/" ++ ownerId.value.toList

theorem vaultSeedBytes_injective : Function.Injective vaultSeedBytes := by
  intro x y h
  obtain ⟨x⟩ := x
  obtain ⟨y⟩ := y
  exact congrArg AccountId.mk (List.Vector.toList_injective (List.append_cancel_left h))

section

variable [Sha256]

def computeVaultSeed (ownerId : AccountId) : PdaSeed :=
  ⟨Sha256.hashBytes (vaultSeedBytes ownerId)⟩

def computeVaultAccountId (vaultProgramId : ProgramId) (ownerId : AccountId) : AccountId :=
  forPublicPda vaultProgramId (computeVaultSeed ownerId)

/-- A seed that is not ambiguous is the seed of one owner. -/
theorem computeVaultSeed_inj {x y : AccountId}
    (hx : Sha256.Unambiguous (computeVaultSeed x).value)
    (h : computeVaultSeed y = computeVaultSeed x) : y = x :=
  vaultSeedBytes_injective (hx _ _ (congrArg PdaSeed.value h) rfl)

end

def unchangedPostStates (preStates : List AccountWithMetadata) : List AccountPostState :=
  preStates.map fun preState => .new preState.account

variable [Sha256] [Serde AuthenticatedTransfer.Instruction] [Serde Instruction]

/-- The call that an instruction asks for. -/
def chainedCall : Instruction → List AccountWithMetadata → Option ChainedCall
  | .transfer recipientId amount, [sender, recipientVault] =>
    some
      { programId := sender.account.programOwner.toProgramId
        preStates := [sender, { recipientVault with isAuthorized := true }]
        instructionData := toWords (AuthenticatedTransfer.Instruction.transfer amount)
        pdaSeeds := [computeVaultSeed recipientId] }
  | .claim amount, [owner, ownerVault] =>
    if owner.isAuthorized then
      some
        { programId := ownerVault.account.programOwner.toProgramId
          preStates := [{ ownerVault with isAuthorized := true }, owner]
          instructionData := toWords (AuthenticatedTransfer.Instruction.transfer amount)
          pdaSeeds := [computeVaultSeed owner.accountId] }
    else none
  | _, _ => none

def main : Guest := fun selfProgramId callerProgramId preStates instructionWords => do
  let instruction : Instruction ← fromWords instructionWords
  let chainedCall ← chainedCall instruction preStates
  some { ProgramOutput.new selfProgramId callerProgramId instructionWords preStates
           (unchangedPostStates preStates) with chainedCalls := [chainedCall] }

/-- **What the program does.**  It changes nothing and asks for one call: a payment into a
vault by the program of the sender, or out of the vault of an authorized owner. -/
theorem main_ok {selfProgramId : ProgramId} {callerProgramId : Option ProgramId}
    {preStates : List AccountWithMetadata} {instructionWords : InstructionData}
    {output : ProgramOutput}
    (h : main selfProgramId callerProgramId preStates instructionWords = some output) :
    ∃ call, output.preStates = preStates ∧ output.chainedCalls = [call] ∧
      ((∃ recipientId amount sender recipientVault,
          fromWords instructionWords = some (Instruction.transfer recipientId amount) ∧
          preStates = [sender, recipientVault] ∧
          call.programId = sender.account.programOwner.toProgramId ∧
          call.preStates = [sender, { recipientVault with isAuthorized := true }] ∧
          call.pdaSeeds = [computeVaultSeed recipientId]) ∨
        ∃ owner ownerVault, preStates = [owner, ownerVault] ∧ owner.isAuthorized = true ∧
          call.pdaSeeds = [computeVaultSeed owner.accountId]) := by
  obtain ⟨instruction, hwords, hrest⟩ := bind_eq_some_iff.mp h
  obtain ⟨call, hcall, houtput⟩ := bind_eq_some_iff.mp hrest
  obtain rfl := some.inj houtput
  refine ⟨call, rfl, rfl, ?_⟩
  clear houtput hrest h
  unfold chainedCall at hcall
  split at hcall
  · rename_i recipientId amount sender recipientVault
    cases hcall
    exact .inl ⟨recipientId, amount, sender, recipientVault, hwords, rfl, rfl, rfl, rfl⟩
  · rename_i owner ownerVault
    split at hcall
    · rename_i hauthorized
      cases hcall
      exact .inr ⟨owner, ownerVault, rfl, hauthorized, rfl⟩
    · cases hcall
  · cases hcall

end Vault

end Lssa
