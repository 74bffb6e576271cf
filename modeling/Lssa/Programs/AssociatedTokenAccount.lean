/-
The associated token account program (`lez/programs/associated_token_account`).

Everyone has one holding for each token, a PDA of this program under a seed hashed from the ids of
its owner and of the definition.  The program changes nothing itself: it passes the authority of
the holding on to the program that owns the holding, or, to create it, to the program that owns the
definition.  The program whose PDA the holding is checked to be is named by the instruction.
-/
import Lssa.Programs.Token

open Outcome

namespace Lssa

namespace AssociatedTokenAccount

inductive Instruction
  | create (ataProgramId : ProgramId)
  | transfer (ataProgramId : ProgramId) (amount : U128)
  | burn (ataProgramId : ProgramId) (amount : U128)
  deriving DecidableEq

/-- The owner, then the definition. -/
def ataSeedBytes (ownerId definitionId : AccountId) : List UInt8 :=
  ownerId.value.toList ++ definitionId.value.toList

theorem ataSeedBytes_inj {x y d e : AccountId} (h : ataSeedBytes x d = ataSeedBytes y e) :
    x = y ∧ d = e := by
  have hlength : x.value.toList.length = y.value.toList.length := by
    rw [x.value.toList_length, y.value.toList_length]
  obtain ⟨hx, hd⟩ := append_inj h hlength
  obtain ⟨x⟩ := x
  obtain ⟨y⟩ := y
  obtain ⟨d⟩ := d
  obtain ⟨e⟩ := e
  exact ⟨congrArg AccountId.mk (List.Vector.toList_injective hx),
    congrArg AccountId.mk (List.Vector.toList_injective hd)⟩

section

variable [Sha256]

def computeAtaSeed (ownerId definitionId : AccountId) : PdaSeed :=
  ⟨Sha256.hashBytes (ataSeedBytes ownerId definitionId)⟩

def getAssociatedTokenAccountId (ataProgramId : ProgramId) (seed : PdaSeed) : AccountId :=
  forPublicPda ataProgramId seed

def verifyAtaAndGetSeed (ataAccount owner : AccountWithMetadata) (definitionId : AccountId)
    (ataProgramId : ProgramId) : Option PdaSeed := do
  let seed := computeAtaSeed owner.accountId definitionId
  require (ataAccount.accountId = getAssociatedTokenAccountId ataProgramId seed)
  some seed

theorem verifyAtaAndGetSeed_ok {ataAccount owner : AccountWithMetadata} {definitionId : AccountId}
    {ataProgramId : ProgramId} {seed : PdaSeed}
    (h : verifyAtaAndGetSeed ataAccount owner definitionId ataProgramId = some seed) :
    seed = computeAtaSeed owner.accountId definitionId := by
  obtain ⟨-, h⟩ := require_bind_eq_some.mp h
  exact (some.inj h).symm

end

variable [Sha256] [Serde Token.Instruction] [Serde Instruction]

/-! ### The program -/

def createAssociatedTokenAccount (owner tokenDefinition ataAccount : AccountWithMetadata)
    (ataProgramId : ProgramId) : Option (List AccountPostState × List ChainedCall) := do
  let tokenProgramId := tokenDefinition.account.programOwner.toProgramId
  let ataSeed ← verifyAtaAndGetSeed ataAccount owner tokenDefinition.accountId ataProgramId
  let postStates : List AccountPostState :=
    [ .newClaimedIfDefault owner.account .authorized, .new tokenDefinition.account,
      .new ataAccount.account ]
  -- an account that is there already is left alone
  if ataAccount.account ≠ .default then some (postStates, [])
  else
    some (postStates,
      [{ programId := tokenProgramId
         preStates := [tokenDefinition, { ataAccount with isAuthorized := true }]
         instructionData := toWords Token.Instruction.initializeAccount
         pdaSeeds := [ataSeed] }])

def transferFromAssociatedTokenAccount (owner senderAta recipient : AccountWithMetadata)
    (ataProgramId : ProgramId) (amount : U128) :
    Option (List AccountPostState × List ChainedCall) := do
  let tokenProgramId := senderAta.account.programOwner.toProgramId
  require (owner.isAuthorized = true)
  let holding ← Token.TokenHolding.tryFrom senderAta.account.data
  let seed ← verifyAtaAndGetSeed senderAta owner holding.definitionId ataProgramId
  some ([.new owner.account, .new senderAta.account, .new recipient.account],
    [{ programId := tokenProgramId
       preStates := [{ senderAta with isAuthorized := true }, recipient]
       instructionData := toWords (Token.Instruction.transfer amount)
       pdaSeeds := [seed] }])

def burnFromAssociatedTokenAccount (owner holderAta tokenDefinition : AccountWithMetadata)
    (ataProgramId : ProgramId) (amount : U128) :
    Option (List AccountPostState × List ChainedCall) := do
  let tokenProgramId := holderAta.account.programOwner.toProgramId
  require (owner.isAuthorized = true)
  let holding ← Token.TokenHolding.tryFrom holderAta.account.data
  let seed ← verifyAtaAndGetSeed holderAta owner holding.definitionId ataProgramId
  some ([.new owner.account, .new holderAta.account, .new tokenDefinition.account],
    [{ programId := tokenProgramId
       preStates := [tokenDefinition, { holderAta with isAuthorized := true }]
       instructionData := toWords (Token.Instruction.burn amount)
       pdaSeeds := [seed] }])

/-- The post-states of an instruction and the calls it asks for. -/
def run (instruction : Instruction) (preStates : List AccountWithMetadata) :
    Option (List AccountPostState × List ChainedCall) :=
  match instruction, preStates with
  | .create ataProgramId, [owner, tokenDefinition, ataAccount] =>
    createAssociatedTokenAccount owner tokenDefinition ataAccount ataProgramId
  | .transfer ataProgramId amount, [owner, senderAta, recipient] =>
    transferFromAssociatedTokenAccount owner senderAta recipient ataProgramId amount
  | .burn ataProgramId amount, [owner, holderAta, tokenDefinition] =>
    burnFromAssociatedTokenAccount owner holderAta tokenDefinition ataProgramId amount
  | _, _ => none

def main : Guest := fun selfProgramId callerProgramId preStates instructionWords => do
  let instruction : Instruction ← fromWords instructionWords
  let (postStates, chainedCalls) ← run instruction preStates
  some { ProgramOutput.new selfProgramId callerProgramId instructionWords preStates postStates with
         chainedCalls }

/-- The call carries the seed of one owner and one definition.  The owner is authorized, or the
call goes to the program that owns the definition, to initialize an account. -/
def PassesOn (instruction : Instruction) (preStates : List AccountWithMetadata)
    (next : ChainedCall) : Prop :=
  ∃ owner ∈ preStates, ∃ definitionId,
    next.pdaSeeds = [computeAtaSeed owner.accountId definitionId] ∧
    (owner.isAuthorized = true ∨ (∃ ataProgramId, instruction = .create ataProgramId) ∧
      ∃ definition ∈ preStates, definition.accountId = definitionId ∧
        next.programId = definition.account.programOwner.toProgramId ∧
        next.instructionData = toWords Token.Instruction.initializeAccount)

variable {preStates : List AccountWithMetadata}

omit [Serde Instruction] in
theorem run_ok {instruction : Instruction} {postStates : List AccountPostState}
    {chainedCalls : List ChainedCall}
    (h : run instruction preStates = some (postStates, chainedCalls)) {next : ChainedCall}
    (hnext : next ∈ chainedCalls) : PassesOn instruction preStates next := by
  unfold run at h
  split at h
  · rename_i owner tokenDefinition ataAccount
    obtain ⟨seed, hseed, h⟩ := bind_eq_some_iff.mp h
    split at h
    · obtain ⟨-, rfl⟩ := Prod.mk.inj (some.inj h)
      cases hnext
    · obtain ⟨-, rfl⟩ := Prod.mk.inj (some.inj h)
      obtain rfl := mem_singleton.mp hnext
      rw [verifyAtaAndGetSeed_ok hseed]
      exact ⟨owner, by simp, tokenDefinition.accountId, rfl,
        .inr ⟨⟨_, rfl⟩, tokenDefinition, by simp, rfl, rfl, rfl⟩⟩
  -- a transfer and a burn
  any_goals
    obtain ⟨hauthorized, h⟩ := require_bind_eq_some.mp h
    obtain ⟨holding, -, h⟩ := bind_eq_some_iff.mp h
    obtain ⟨seed, hseed, h⟩ := bind_eq_some_iff.mp h
    obtain ⟨-, rfl⟩ := Prod.mk.inj (some.inj h)
    obtain rfl := mem_singleton.mp hnext
    rw [verifyAtaAndGetSeed_ok hseed]
    exact ⟨_, mem_cons_self, holding.definitionId, rfl, .inl hauthorized⟩
  cases h

/-- **Whose authority the program passes on.**  It lists the accounts it was given, and every call
that it asks for is for an authorized owner, or goes to the program that owns the definition. -/
theorem main_ok {selfProgramId : ProgramId} {callerProgramId : Option ProgramId}
    {instructionWords : InstructionData} {output : ProgramOutput}
    (h : main selfProgramId callerProgramId preStates instructionWords = some output) :
    output.preStates = preStates ∧ ∃ instruction, fromWords instructionWords = some instruction ∧
      ∀ next ∈ output.chainedCalls, PassesOn instruction preStates next := by
  obtain ⟨instruction, hinstruction, h⟩ := bind_eq_some_iff.mp h
  obtain ⟨⟨postStates, chainedCalls⟩, hrun, h⟩ := bind_eq_some_iff.mp h
  rw [← some.inj h]
  exact ⟨rfl, instruction, hinstruction, fun next hnext => run_ok hrun hnext⟩

end AssociatedTokenAccount

end Lssa
