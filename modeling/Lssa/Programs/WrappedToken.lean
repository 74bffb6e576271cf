/-
The wrapped token (`lez/programs/wrapped_token`), minted for what a peer zone locked.

The configuration names the program that may mint, which is the inbox, and the sources on
peer zones it may mint for.  Balances are kept in the data of holdings, PDAs under a seed
hashed from the recipient.
-/
import Lssa.Programs.CrossZoneInbox

open Borsh Outcome

namespace Lssa

namespace WrappedToken

open CrossZoneInbox (ZoneId inboxSourceMarkerAccountId)

/-- A list short enough for Borsh. -/
abbrev Vec (α : Type) := {items : List α // items.length < 2 ^ 32}

/-- A sequence of no more items than Borsh can count; encoding a longer one panics. -/
def Vec.ofList {α : Type} (items : List α) : Option (Vec α) :=
  if h : items.length < 2 ^ 32 then some ⟨items, h⟩ else none

theorem Vec.ofList_eq_some {α : Type} {items : List α} {vec : Vec α} :
    ofList items = some vec ↔ vec.val = items := by
  unfold ofList
  split
  · rename_i h
    rw [some_inj, Subtype.ext_iff, eq_comm]
  · rename_i h
    refine iff_of_false (by simp) ?_
    rintro rfl
    exact h vec.property

structure WrappedTokenConfig where
  minter : ProgramId
  sources : Vec (ZoneId × ProgramId)
  deriving DecidableEq

inductive Instruction
  | mint (recipient : Bytes 32) (amount : U128)
  | initConfig (config : WrappedTokenConfig)
  deriving DecidableEq

/-- `MAX_MINT_AMOUNT`. -/
def maxMintAmount : U128 := 0xFFFFFFFFFFFFFFFF

/-- `[u32; 8]`. -/
def programIdCodec : Codec ProgramId := (Codec.bytes 32).equiv
  { toFun := fun bytes => AccountId.toProgramId ⟨bytes⟩
    invFun := fun programId => programId.toBytes
    left_inv := fun bytes => congrArg AccountId.value (AccountId.ofProgramId_toProgramId ⟨bytes⟩)
    right_inv := toProgramId_ofProgramId }

def configCodec : Codec WrappedTokenConfig :=
  (Codec.pair programIdCodec (Codec.vec (Codec.pair (Codec.bytes 32) programIdCodec))).equiv
    { toFun := fun fields => ⟨fields.1, fields.2⟩
      invFun := fun config => (config.minter, config.sources)
      left_inv := fun _ => rfl
      right_inv := fun _ => rfl }

def WrappedTokenConfig.toBytes (config : WrappedTokenConfig) : List UInt8 :=
  configCodec.encode config

def WrappedTokenConfig.fromBytes (bytes : List UInt8) : Option WrappedTokenConfig :=
  configCodec.fromSlice bytes

def readBalance (data : List UInt8) : ℕ :=
  if data.length < 16 then 0 else ofLeBytes (data.take 16)

def balanceBytes (amount : U128) : List UInt8 := leBytes 16 amount.val

/-! ### Accounts -/

def configSeed : PdaSeed := ⟨⟨ascii "/LEZ/v0.3/WrappedTokenConfig/00/", by decide⟩⟩

def holdingSeedBytes (recipient : Bytes 32) : List UInt8 :=
  ascii "/LEZ/v0.3/WrappedTokenHold/00000" ++ recipient.toList

variable [Sha256]

def configAccountId (wrappedTokenId : ProgramId) : AccountId :=
  forPublicPda wrappedTokenId configSeed

def holdingSeed (recipient : Bytes 32) : PdaSeed :=
  ⟨Sha256.hashBytes (holdingSeedBytes recipient)⟩

def holdingAccountId (wrappedTokenId : ProgramId) (recipient : Bytes 32) : AccountId :=
  forPublicPda wrappedTokenId (holdingSeed recipient)

/-! ### The program -/

/-- `mint`. -/
def mint (selfProgramId : ProgramId) (callerProgramId : Option ProgramId)
    (preStates : List AccountWithMetadata) (instructionWords : InstructionData)
    (recipient : Bytes 32) (amount : U128) : Option ProgramOutput :=
  match preStates with
  | [marker, config, holding] => do
    require (config.accountId = configAccountId selfProgramId)
    let cfg ← WrappedTokenConfig.fromBytes config.account.data.bytes
    require (callerProgramId = some cfg.minter)
    require (∃ source ∈ cfg.sources.val,
      marker.accountId = inboxSourceMarkerAccountId cfg.minter source.1 source.2)
    require (holding.accountId = holdingAccountId selfProgramId recipient)
    require (amount ≤ maxMintAmount)
    let newBalance ← checkedAdd (Fin.ofNat _ (readBalance holding.account.data.bytes)) amount
    let data ← Data.tryFrom (balanceBytes newBalance)
    some (ProgramOutput.new selfProgramId callerProgramId instructionWords
      [marker, config, holding]
      [ .new marker.account, .new config.account,
        .newClaimedIfDefault { holding.account with data } (.pda (holdingSeed recipient)) ])
  | _ => none

/-- `init_config`: once, and again only to the same effect. -/
def initConfig (selfProgramId : ProgramId) (callerProgramId : Option ProgramId)
    (preStates : List AccountWithMetadata) (instructionWords : InstructionData)
    (configValue : WrappedTokenConfig) : Option ProgramOutput :=
  match preStates with
  | [config] => do
    require (callerProgramId = none)
    require (config.accountId = configAccountId selfProgramId)
    require (config.account ≠ .default →
      config.account.programOwner = ofProgramId selfProgramId ∧
        config.account.data.bytes = configValue.toBytes)
    let data ← Data.tryFrom configValue.toBytes
    some (ProgramOutput.new selfProgramId callerProgramId instructionWords [config]
      [.newClaimedIfDefault { config.account with data } (.pda configSeed)])
  | _ => none

def run (selfProgramId : ProgramId) (callerProgramId : Option ProgramId)
    (preStates : List AccountWithMetadata) (instructionWords : InstructionData) :
    Instruction → Option ProgramOutput
  | .mint recipient amount =>
    mint selfProgramId callerProgramId preStates instructionWords recipient amount
  | .initConfig config => initConfig selfProgramId callerProgramId preStates instructionWords config

variable [Serde Instruction]

def main : Guest := fun selfProgramId callerProgramId preStates instructionWords => do
  let instruction : Instruction ← fromWords instructionWords
  run selfProgramId callerProgramId preStates instructionWords instruction

/-- A mint: the minter of the configuration called, and only the holding changes. -/
structure Minted (selfProgramId : ProgramId) (callerProgramId : Option ProgramId)
    (output : ProgramOutput) (marker config holding : AccountWithMetadata)
    (cfg : WrappedTokenConfig) : Prop where
  preStates : output.preStates = [marker, config, holding]
  configId : config.accountId = configAccountId selfProgramId
  decodes : WrappedTokenConfig.fromBytes config.account.data.bytes = some cfg
  caller : callerProgramId = some cfg.minter
  postStates : ∃ data seed, output.postStates =
    [ .new marker.account, .new config.account,
      .newClaimedIfDefault { holding.account with data } (.pda seed) ]

/-- A configuration: it changes nothing that was there. -/
structure Configured (selfProgramId : ProgramId) (output : ProgramOutput)
    (config : AccountWithMetadata) (data : Data) : Prop where
  preStates : output.preStates = [config]
  configId : config.accountId = configAccountId selfProgramId
  kept : config.account ≠ .default → data = config.account.data
  postStates : output.postStates =
    [.newClaimedIfDefault { config.account with data } (.pda configSeed)]

/-- A mint in full: for a source of the configuration, and the balance of the holding goes up by
the amount. -/
structure MintedTo (selfProgramId : ProgramId) (callerProgramId : Option ProgramId)
    (output : ProgramOutput) (marker config holding : AccountWithMetadata)
    (cfg : WrappedTokenConfig) (recipient : Bytes 32) (amount : U128) (data : Data) : Prop
    extends Minted selfProgramId callerProgramId output marker config holding cfg where
  source : ∃ source ∈ cfg.sources.val,
    marker.accountId = inboxSourceMarkerAccountId cfg.minter source.1 source.2
  balance : readBalance data.bytes ≤ readBalance holding.account.data.bytes + amount.val
  written : output.postStates =
    [ .new marker.account, .new config.account,
      .newClaimedIfDefault { holding.account with data } (.pda (holdingSeed recipient)) ]
  chainedCalls : output.chainedCalls = []

omit [Sha256] [Serde Instruction] in
@[simp] theorem readBalance_balanceBytes (amount : U128) :
    readBalance (balanceBytes amount) = amount.val := by
  have hlength : (balanceBytes amount).length = 16 := length_leBytes 16 amount.val
  have htake : (balanceBytes amount).take 16 = balanceBytes amount :=
    take_of_length_le hlength.le
  rw [readBalance, if_neg (by omega), htake, balanceBytes, ofLeBytes_leBytes]
  exact Nat.mod_eq_of_lt amount.isLt

variable {selfProgramId : ProgramId} {callerProgramId : Option ProgramId}
  {preStates : List AccountWithMetadata} {instructionWords : InstructionData}
  {output : ProgramOutput}

omit [Serde Instruction] in
theorem mint_to {recipient : Bytes 32} {amount : U128}
    (h : mint selfProgramId callerProgramId preStates instructionWords recipient amount
      = some output) :
    output.preStates = preStates ∧
      ∃ marker config holding cfg data, MintedTo selfProgramId callerProgramId output marker config
        holding cfg recipient amount data := by
  unfold mint at h
  split at h
  · rename_i marker config holding
    obtain ⟨hid, h⟩ := require_bind_eq_some.mp h
    obtain ⟨cfg, hcfg, h⟩ := bind_eq_some_iff.mp h
    obtain ⟨hcaller, h⟩ := require_bind_eq_some.mp h
    obtain ⟨hsource, h⟩ := require_bind_eq_some.mp h
    obtain ⟨-, h⟩ := require_bind_eq_some.mp h
    obtain ⟨-, h⟩ := require_bind_eq_some.mp h
    obtain ⟨newBalance, hnew, h⟩ := bind_eq_some_iff.mp h
    obtain ⟨data, hdata, h⟩ := bind_eq_some_iff.mp h
    rw [← some.inj h]
    refine ⟨rfl, marker, config, holding, cfg, data, ⟨rfl, hid, hcfg, hcaller, data, _, rfl⟩,
      hsource, ?_, rfl, rfl⟩
    have hsum : newBalance.val = readBalance holding.account.data.bytes % 2 ^ 128 + amount.val :=
      checkedAdd_eq_some.mp hnew
    rw [Data.tryFrom_eq_some.mp hdata, readBalance_balanceBytes, hsum]
    exact Nat.add_le_add_right (Nat.mod_le _ _) _
  · cases h

omit [Serde Instruction] in
theorem initConfig_ok {configValue : WrappedTokenConfig}
    (h : initConfig selfProgramId callerProgramId preStates instructionWords configValue
      = some output) :
    callerProgramId = none ∧ output.chainedCalls = [] ∧
      ∃ config data, Configured selfProgramId output config data := by
  unfold initConfig at h
  split at h
  · rename_i config
    obtain ⟨hcaller, h⟩ := require_bind_eq_some.mp h
    obtain ⟨hid, h⟩ := require_bind_eq_some.mp h
    obtain ⟨hsame, h⟩ := require_bind_eq_some.mp h
    obtain ⟨data, hdata, h⟩ := bind_eq_some_iff.mp h
    rw [← some.inj h]
    refine ⟨hcaller, rfl, config, data, rfl, hid, fun hne => ?_, rfl⟩
    exact Data.ext ((Data.tryFrom_eq_some.mp hdata).trans (hsame hne).2.symm)
  · cases h

section

variable (h : main selfProgramId callerProgramId preStates instructionWords = some output)

include h

/-- **What the program does.**  It mints what its instruction says, or configures, for nobody. -/
theorem main_cases :
    (∃ recipient amount,
        fromWords instructionWords = some (Instruction.mint recipient amount) ∧
        output.preStates = preStates ∧ ∃ marker config holding cfg data,
          MintedTo selfProgramId callerProgramId output marker config holding cfg recipient amount
            data) ∨
      callerProgramId = none ∧ output.chainedCalls = [] ∧
        ∃ config data, Configured selfProgramId output config data := by
  obtain ⟨instruction, hdecodes, hrest⟩ := bind_eq_some_iff.mp h
  cases instruction with
  | mint recipient amount => exact .inl ⟨recipient, amount, hdecodes, mint_to hrest⟩
  | initConfig config => exact .inr (initConfig_ok hrest)

/-- It calls nobody, and mints or configures. -/
theorem main_ok :
    output.chainedCalls = [] ∧
      ((∃ marker config holding cfg,
          Minted selfProgramId callerProgramId output marker config holding cfg) ∨
        ∃ config data, Configured selfProgramId output config data) := by
  rcases main_cases h with
    ⟨_, _, -, -, marker, config, holding, cfg, _, hminted⟩ | ⟨-, hcalls, hconfigured⟩
  · exact ⟨hminted.chainedCalls, .inl ⟨marker, config, holding, cfg, hminted.toMinted⟩⟩
  · exact ⟨hcalls, .inr hconfigured⟩

end

end WrappedToken

end Lssa
