/-
The token program (`lez/programs/token`).

A token is described by a definition account, and held in holding accounts that name the
definition.  A fungible token counts a total supply, a non-fungible one the copies that may
still be printed and those that are.  Definitions, holdings and metadata are the data of accounts
in three Borsh formats, and an account says in no other way which of them it is.

* `transfer`, `mint`, `burn` and the other instructions are functions from accounts to
  post-states, a panic is `none`;
* `moveBalance`, `mintSupply`, `burnSupply` are the matches in them that change amounts;
* `main_ok` — the program returns the post-states of its instruction, and calls nobody.
-/
import Lssa.Guest

open Borsh

namespace Lssa

namespace Token

open Codec (bool pair string u128)

inductive NewTokenDefinition
  | fungible (name : Text) (totalSupply : U128)
  | nonFungible (name : Text) (printableSupply : U128)
  deriving DecidableEq

inductive TokenDefinition
  | fungible (name : Text) (totalSupply : U128) (metadataId : Option AccountId)
  | nonFungible (name : Text) (printableSupply : U128) (metadataId : AccountId)
  deriving DecidableEq

inductive TokenHolding
  | fungible (definitionId : AccountId) (balance : U128)
  | nftMaster (definitionId : AccountId) (printBalance : U128)
  | nftPrintedCopy (definitionId : AccountId) (owned : Bool)
  deriving DecidableEq

/-- Format of the JSON off-chain. -/
inductive MetadataStandard
  | simple
  | expanded
  deriving DecidableEq

structure NewTokenMetadata where
  standard : MetadataStandard
  uri : Text
  creators : Text
  deriving DecidableEq

structure TokenMetadata where
  definitionId : AccountId
  standard : MetadataStandard
  uri : Text
  creators : Text
  primarySaleDate : U64
  deriving DecidableEq

inductive Instruction
  | transfer (amountToTransfer : U128)
  | newFungibleDefinition (name : Text) (totalSupply : U128)
  | newDefinitionWithMetadata (newDefinition : NewTokenDefinition) (metadata : NewTokenMetadata)
  | initializeAccount
  | burn (amountToBurn : U128)
  | mint (amountToMint : U128)
  | printNft
  deriving DecidableEq

/-! ### Formats -/

/-- The fields of the variants of `TokenDefinition`. -/
def DefinitionFields : Fin 2 → Type
  | 0 => Text × (U128 × Option AccountId)
  | 1 => Text × (U128 × AccountId)

def definitionCodec : Codec TokenDefinition :=
  (Codec.variants (n := 2) (F := DefinitionFields) (by decide) fun
    | 0 => pair string (pair u128 (Codec.option AccountId.codec))
    | 1 => pair string (pair u128 AccountId.codec)).equiv
    { toFun := fun
        | ⟨0, fields⟩ => .fungible fields.1 fields.2.1 fields.2.2
        | ⟨1, fields⟩ => .nonFungible fields.1 fields.2.1 fields.2.2
      invFun := fun
        | .fungible name totalSupply metadataId => ⟨0, name, totalSupply, metadataId⟩
        | .nonFungible name printableSupply metadataId => ⟨1, name, printableSupply, metadataId⟩
      left_inv := fun
        | ⟨0, _⟩ => rfl
        | ⟨1, _⟩ => rfl
      right_inv := fun
        | .fungible _ _ _ => rfl
        | .nonFungible _ _ _ => rfl }

/-- The fields of the variants of `TokenHolding`. -/
def HoldingFields : Fin 3 → Type
  | 0 => AccountId × U128
  | 1 => AccountId × U128
  | 2 => AccountId × Bool

def holdingCodec : Codec TokenHolding :=
  (Codec.variants (n := 3) (F := HoldingFields) (by decide) fun
    | 0 => pair AccountId.codec u128
    | 1 => pair AccountId.codec u128
    | 2 => pair AccountId.codec bool).equiv
    { toFun := fun
        | ⟨0, fields⟩ => .fungible fields.1 fields.2
        | ⟨1, fields⟩ => .nftMaster fields.1 fields.2
        | ⟨2, fields⟩ => .nftPrintedCopy fields.1 fields.2
      invFun := fun
        | .fungible definitionId balance => ⟨0, definitionId, balance⟩
        | .nftMaster definitionId printBalance => ⟨1, definitionId, printBalance⟩
        | .nftPrintedCopy definitionId owned => ⟨2, definitionId, owned⟩
      left_inv := fun
        | ⟨0, _⟩ => rfl
        | ⟨1, _⟩ => rfl
        | ⟨2, _⟩ => rfl
      right_inv := fun
        | .fungible _ _ => rfl
        | .nftMaster _ _ => rfl
        | .nftPrintedCopy _ _ => rfl }

def standardCodec : Codec MetadataStandard := bool.equiv
  { toFun := fun
      | false => .simple
      | true => .expanded
    invFun := fun
      | .simple => false
      | .expanded => true
    left_inv := fun
      | false => rfl
      | true => rfl
    right_inv := fun
      | .simple => rfl
      | .expanded => rfl }

def metadataCodec : Codec TokenMetadata :=
  (pair AccountId.codec (pair standardCodec
    (pair string (pair string Codec.u64)))).equiv
    { toFun := fun fields =>
        ⟨fields.1, fields.2.1, fields.2.2.1, fields.2.2.2.1, fields.2.2.2.2⟩
      invFun := fun metadata => (metadata.definitionId, metadata.standard, metadata.uri,
        metadata.creators, metadata.primarySaleDate)
      left_inv := fun _ => rfl
      right_inv := fun _ => rfl }

/-- `TryFrom<&Data> for TokenDefinition`. -/
def TokenDefinition.tryFrom (data : Data) : Option TokenDefinition :=
  definitionCodec.fromSlice data.bytes

/-- `From<&TokenDefinition> for Data`, which panics if the encoding is too long. -/
def TokenDefinition.toData (definition : TokenDefinition) : Option Data :=
  Data.tryFrom (definitionCodec.encode definition)

/-- `TryFrom<&Data> for TokenHolding`. -/
def TokenHolding.tryFrom (data : Data) : Option TokenHolding :=
  holdingCodec.fromSlice data.bytes

/-- `From<&TokenHolding> for Data`. -/
def TokenHolding.toData (holding : TokenHolding) : Option Data :=
  Data.tryFrom (holdingCodec.encode holding)

/-- `From<&TokenMetadata> for Data`. -/
def TokenMetadata.toData (metadata : TokenMetadata) : Option Data :=
  Data.tryFrom (metadataCodec.encode metadata)

theorem TokenDefinition.tryFrom_eq_some {data : Data} {definition : TokenDefinition} :
    TokenDefinition.tryFrom data = some definition ↔
      data.bytes = definitionCodec.encode definition :=
  Codec.fromSlice_eq_some

theorem TokenHolding.tryFrom_eq_some {data : Data} {holding : TokenHolding} :
    TokenHolding.tryFrom data = some holding ↔ data.bytes = holdingCodec.encode holding :=
  Codec.fromSlice_eq_some

/-! ### Holdings -/

namespace TokenHolding

def definitionId : TokenHolding → AccountId
  | .fungible definitionId _ => definitionId
  | .nftMaster definitionId _ => definitionId
  | .nftPrintedCopy definitionId _ => definitionId

def zeroizedCloneFrom : TokenHolding → TokenHolding
  | .fungible definitionId _ => .fungible definitionId 0
  | .nftMaster definitionId _ => .nftMaster definitionId 0
  | .nftPrintedCopy definitionId _ => .nftPrintedCopy definitionId false

def zeroizedFromDefinition (definitionId : AccountId) : TokenDefinition → TokenHolding
  | .fungible _ _ _ => .fungible definitionId 0
  | .nonFungible _ _ _ => .nftPrintedCopy definitionId false

end TokenHolding

/-- The metadata that a new definition is given. -/
def NewTokenMetadata.toMetadata (metadata : NewTokenMetadata) (definitionId : AccountId) :
    TokenMetadata where
  definitionId
  standard := metadata.standard
  uri := metadata.uri
  creators := metadata.creators
  primarySaleDate := 0

/-- The definition of a new token and its first holding. -/
def NewTokenDefinition.toPair (newDefinition : NewTokenDefinition)
    (definitionId metadataId : AccountId) : TokenDefinition × TokenHolding :=
  match newDefinition with
  | .fungible name totalSupply =>
    (.fungible name totalSupply (some metadataId), .fungible definitionId totalSupply)
  | .nonFungible name printableSupply =>
    (.nonFungible name printableSupply metadataId, .nftMaster definitionId printableSupply)

/-! ### The instructions -/

/-- The holding in an account, or the given one if nobody has used the account. -/
def holdingOr (fresh : TokenHolding) (account : Account) : Option TokenHolding :=
  if account = .default then some fresh else TokenHolding.tryFrom account.data

/-- What a transfer does to the two holdings.  The print balance of a master moves as a whole, to
a master without any; a printed copy changes hands. -/
def moveBalance (sender recipient : TokenHolding) (balanceToMove : U128) :
    Option (TokenHolding × TokenHolding) :=
  match sender, recipient with
  | .fungible senderId senderBalance, .fungible recipientId recipientBalance => do
    let senderBalance ← checkedSub senderBalance balanceToMove
    let recipientBalance ← checkedAdd recipientBalance balanceToMove
    some (.fungible senderId senderBalance, .fungible recipientId recipientBalance)
  | .nftMaster senderId senderPrintBalance, .nftMaster recipientId recipientPrintBalance => do
    require (recipientPrintBalance = 0)
    require (senderPrintBalance = balanceToMove)
    some (.nftMaster senderId recipientPrintBalance, .nftMaster recipientId senderPrintBalance)
  | .nftPrintedCopy senderId senderOwned, .nftPrintedCopy recipientId recipientOwned => do
    require (balanceToMove = 1)
    require (senderOwned = true)
    require (recipientOwned = false)
    some (.nftPrintedCopy senderId false, .nftPrintedCopy recipientId true)
  | _, _ => none

def transfer (sender recipient : AccountWithMetadata) (balanceToMove : U128) :
    Option (List AccountPostState) := do
  require (sender.isAuthorized = true)
  let senderHolding ← TokenHolding.tryFrom sender.account.data
  let recipientHolding ← holdingOr senderHolding.zeroizedCloneFrom recipient.account
  require (senderHolding.definitionId = recipientHolding.definitionId)
  let moved ← moveBalance senderHolding recipientHolding balanceToMove
  let senderData ← moved.1.toData
  let recipientData ← moved.2.toData
  some [ .new { sender.account with data := senderData },
    .newClaimedIfDefault { recipient.account with data := recipientData } .authorized ]

def newFungibleDefinition (definitionTargetAccount holdingTargetAccount : AccountWithMetadata)
    (name : Text) (totalSupply : U128) : Option (List AccountPostState) := do
  require (definitionTargetAccount.account = .default)
  require (holdingTargetAccount.account = .default)
  let definitionData ← (TokenDefinition.fungible name totalSupply none).toData
  let holdingData ←
    (TokenHolding.fungible definitionTargetAccount.accountId totalSupply).toData
  some [ .newClaimed { definitionTargetAccount.account with data := definitionData } .authorized,
    .newClaimed { holdingTargetAccount.account with data := holdingData } .authorized ]

def newDefinitionWithMetadata
    (definitionTargetAccount holdingTargetAccount metadataTargetAccount : AccountWithMetadata)
    (newDefinition : NewTokenDefinition) (metadata : NewTokenMetadata) :
    Option (List AccountPostState) := do
  require (definitionTargetAccount.account = .default)
  require (holdingTargetAccount.account = .default)
  require (metadataTargetAccount.account = .default)
  let created := newDefinition.toPair definitionTargetAccount.accountId
    metadataTargetAccount.accountId
  let definitionData ← created.1.toData
  let holdingData ← created.2.toData
  let metadataData ← (metadata.toMetadata definitionTargetAccount.accountId).toData
  some [ .newClaimed { definitionTargetAccount.account with data := definitionData } .authorized,
    .newClaimed { holdingTargetAccount.account with data := holdingData } .authorized,
    .newClaimed { metadataTargetAccount.account with data := metadataData } .authorized ]

def initializeAccount (definitionAccount accountToInitialize : AccountWithMetadata) :
    Option (List AccountPostState) := do
  require (accountToInitialize.account = .default)
  let definition ← TokenDefinition.tryFrom definitionAccount.account.data
  let data ← (TokenHolding.zeroizedFromDefinition definitionAccount.accountId definition).toData
  some [ .new definitionAccount.account,
    .newClaimed { accountToInitialize.account with data } .authorized ]

/-- What burning does to a definition and a holding. -/
def burnSupply (definition : TokenDefinition) (holding : TokenHolding) (amountToBurn : U128) :
    Option (TokenDefinition × TokenHolding) :=
  match definition, holding with
  | .fungible name totalSupply metadataId, .fungible definitionId balance => do
    let balance ← checkedSub balance amountToBurn
    let totalSupply ← checkedSub totalSupply amountToBurn
    some (.fungible name totalSupply metadataId, .fungible definitionId balance)
  | .nonFungible name printableSupply metadataId, .nftMaster definitionId printBalance => do
    let printableSupply ← checkedSub printableSupply amountToBurn
    let printBalance ← checkedSub printBalance amountToBurn
    some (.nonFungible name printableSupply metadataId, .nftMaster definitionId printBalance)
  | .nonFungible name printableSupply metadataId, .nftPrintedCopy definitionId owned => do
    require (amountToBurn = 1)
    require (owned = true)
    let printableSupply ← checkedSub printableSupply 1
    some (.nonFungible name printableSupply metadataId, .nftPrintedCopy definitionId false)
  | _, _ => none

def burn (definitionAccount userHoldingAccount : AccountWithMetadata) (amountToBurn : U128) :
    Option (List AccountPostState) := do
  require (userHoldingAccount.isAuthorized = true)
  let definition ← TokenDefinition.tryFrom definitionAccount.account.data
  let holding ← TokenHolding.tryFrom userHoldingAccount.account.data
  require (definitionAccount.accountId = holding.definitionId)
  let burned ← burnSupply definition holding amountToBurn
  let definitionData ← burned.1.toData
  let holdingData ← burned.2.toData
  some [ .new { definitionAccount.account with data := definitionData },
    .new { userHoldingAccount.account with data := holdingData } ]

/-- What minting does to a definition and a holding: only a fungible token is minted. -/
def mintSupply (definition : TokenDefinition) (holding : TokenHolding) (amountToMint : U128) :
    Option (TokenDefinition × TokenHolding) :=
  match definition, holding with
  | .fungible name totalSupply metadataId, .fungible definitionId balance => do
    let balance ← checkedAdd balance amountToMint
    let totalSupply ← checkedAdd totalSupply amountToMint
    some (.fungible name totalSupply metadataId, .fungible definitionId balance)
  | _, _ => none

def mint (definitionAccount userHoldingAccount : AccountWithMetadata) (amountToMint : U128) :
    Option (List AccountPostState) := do
  require (definitionAccount.isAuthorized = true)
  let definition ← TokenDefinition.tryFrom definitionAccount.account.data
  let holding ← holdingOr
    (TokenHolding.zeroizedFromDefinition definitionAccount.accountId definition)
    userHoldingAccount.account
  require (definitionAccount.accountId = holding.definitionId)
  let minted ← mintSupply definition holding amountToMint
  let definitionData ← minted.1.toData
  let holdingData ← minted.2.toData
  some [ .new { definitionAccount.account with data := definitionData },
    .newClaimedIfDefault { userHoldingAccount.account with data := holdingData } .authorized ]

def printNft (masterAccount printedAccount : AccountWithMetadata) :
    Option (List AccountPostState) := do
  require (masterAccount.isAuthorized = true)
  require (printedAccount.account = .default)
  let masterAccountData ← TokenHolding.tryFrom masterAccount.account.data
  match masterAccountData with
  | .nftMaster definitionId printBalance =>
    require (1 < printBalance)
    let printBalance ← checkedSub printBalance 1
    let masterData ← (TokenHolding.nftMaster definitionId printBalance).toData
    let printedData ← (TokenHolding.nftPrintedCopy definitionId true).toData
    some [ .new { masterAccount.account with data := masterData },
      .newClaimed { printedAccount.account with data := printedData } .authorized ]
  | _ => none

/-- The post-states of an instruction, each with the number of accounts it takes. -/
def run (instruction : Instruction) (preStates : List AccountWithMetadata) :
    Option (List AccountPostState) :=
  match instruction, preStates with
  | .transfer balanceToMove, [sender, recipient] => transfer sender recipient balanceToMove
  | .newFungibleDefinition name totalSupply, [definitionAccount, holdingAccount] =>
    newFungibleDefinition definitionAccount holdingAccount name totalSupply
  | .newDefinitionWithMetadata newDefinition metadata,
      [definitionAccount, holdingAccount, metadataAccount] =>
    newDefinitionWithMetadata definitionAccount holdingAccount metadataAccount newDefinition
      metadata
  | .initializeAccount, [definitionAccount, accountToInitialize] =>
    initializeAccount definitionAccount accountToInitialize
  | .burn amountToBurn, [definitionAccount, userHoldingAccount] =>
    burn definitionAccount userHoldingAccount amountToBurn
  | .mint amountToMint, [definitionAccount, userHoldingAccount] =>
    mint definitionAccount userHoldingAccount amountToMint
  | .printNft, [masterAccount, printedAccount] => printNft masterAccount printedAccount
  | _, _ => none

variable [Serde Instruction]

def main : Guest := fun selfProgramId callerProgramId preStates instructionWords => do
  let instruction : Instruction ← fromWords instructionWords
  let postStates ← run instruction preStates
  some (ProgramOutput.new selfProgramId callerProgramId instructionWords preStates postStates)

/-- The program lists the accounts it was given, and calls nobody. -/
theorem main_ok {selfProgramId : ProgramId} {callerProgramId : Option ProgramId}
    {preStates : List AccountWithMetadata} {instructionWords : InstructionData}
    {output : ProgramOutput}
    (h : main selfProgramId callerProgramId preStates instructionWords = some output) :
    output.preStates = preStates ∧ output.chainedCalls = [] ∧
      ∃ instruction, fromWords instructionWords = some instruction ∧
        run instruction preStates = some output.postStates := by
  obtain ⟨instruction, hinstruction, h⟩ := bind_eq_some_iff.mp h
  obtain ⟨postStates, hrun, h⟩ := bind_eq_some_iff.mp h
  rw [← some.inj h]
  exact ⟨rfl, rfl, instruction, hinstruction, hrun⟩

end Token

end Lssa
