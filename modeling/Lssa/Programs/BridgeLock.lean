/-
The source side of the token bridge (`lez/programs/bridge_lock`).

A holder locks balance: it moves into an escrow, a PDA of this program, and a message that
mints as much of the wrapped token on another zone is left in the outbox.  The
configuration pins the outbox and the wrapped token.  No program calls this one, and it
never takes anything out of the escrow.

* `main_ok` — what the program does: a lock (`Locked`) or a configuration (`Configured`).
-/
import Lssa.Programs.CrossZoneOutbox

open Borsh Outcome

namespace Lssa

namespace BridgeLock

open CrossZoneInbox (ZoneId)
open WrappedToken (programIdCodec maxMintAmount holdingAccountId)

inductive Instruction
  | lock (amount : U128) (targetZone : ZoneId) (targetProgramId : ProgramId)
      (targetAccounts : List (Bytes 32)) (payload : List UInt8) (ordinal : U32)
  | initConfig (outboxProgramId targetProgramId : ProgramId)
  deriving DecidableEq

def escrowSeed : PdaSeed := ⟨⟨ascii "/LEZ/v0.3/BridgeLockEscrow/0000/", by decide⟩⟩

def configSeed : PdaSeed := ⟨⟨ascii "/LEZ/v0.3/BridgeLockCfg/0000000/", by decide⟩⟩

/-- `config_bytes`: the words of the outbox, then those of the mint target. -/
def configBytes (outboxProgramId targetProgramId : ProgramId) : List UInt8 :=
  (Codec.pair programIdCodec programIdCodec).encode (outboxProgramId, targetProgramId)

/-- `read_config`: the first 64 bytes of the data, if there are as many. -/
def readConfig (data : List UInt8) : Option (ProgramId × ProgramId) :=
  ((Codec.pair programIdCodec programIdCodec).decode data).map Prod.fst

/-- `decode_mint`. -/
def decodeMint [Serde WrappedToken.Instruction] (payload : List UInt8) :
    Option WrappedToken.Instruction := do
  require (payload.length % 4 = 0)
  fromWords (ofLeWords payload)

section

variable [Sha256]

def escrowAccountId (bridgeLockId : ProgramId) : AccountId := forPublicPda bridgeLockId escrowSeed

def configAccountId (bridgeLockId : ProgramId) : AccountId := forPublicPda bridgeLockId configSeed

/-! ### The program -/

variable [Serde WrappedToken.Instruction] [Serde CrossZoneOutbox.Instruction]

/-- `lock`. -/
def lock (selfProgramId : ProgramId) (callerProgramId : Option ProgramId)
    (preStates : List AccountWithMetadata) (instructionWords : InstructionData) (amount : U128)
    (targetZone : ZoneId) (targetProgramId : ProgramId) (targetAccounts : List (Bytes 32))
    (payload : List UInt8) (ordinal : U32) : Option ProgramOutput :=
  match preStates with
  | [config, holder, escrow, outbox] => do
    require (config.accountId = configAccountId selfProgramId)
    let (outboxProgramId, pinnedTarget) ← readConfig config.account.data.bytes
    match ← decodeMint payload with
    | .initConfig _ => none
    | .mint recipient mintAmount =>
      require (mintAmount = amount)
      require (targetProgramId = pinnedTarget)
      require (targetAccounts =
        [ (WrappedToken.configAccountId pinnedTarget).value,
          (holdingAccountId pinnedTarget recipient).value ])
      require (amount ≤ maxMintAmount)
      require (holder.isAuthorized = true)
      require (holder.account.programOwner = ofProgramId selfProgramId)
      require (escrow.accountId = escrowAccountId selfProgramId)
      let holderNew ← checkedSub holder.account.balance amount
      let escrowNew ← checkedAdd escrow.account.balance amount
      some
        { ProgramOutput.new selfProgramId callerProgramId instructionWords
            [config, holder, escrow, outbox]
            [ .new config.account,
              .new { holder.account with balance := holderNew },
              .newClaimedIfDefault { escrow.account with balance := escrowNew } (.pda escrowSeed),
              .new outbox.account ] with
          chainedCalls :=
            [ { programId := outboxProgramId
                preStates := [outbox]
                instructionData := toWords (CrossZoneOutbox.Instruction.emit targetZone
                  targetProgramId targetAccounts payload ordinal)
                pdaSeeds := [] } ] }
  | _ => none

/-- `init_config`: once, and again only to the same effect. -/
def initConfig (selfProgramId : ProgramId) (callerProgramId : Option ProgramId)
    (preStates : List AccountWithMetadata) (instructionWords : InstructionData)
    (outboxProgramId targetProgramId : ProgramId) : Option ProgramOutput :=
  match preStates with
  | [config] => do
    require (config.accountId = configAccountId selfProgramId)
    require (config.account ≠ .default →
      config.account.programOwner = ofProgramId selfProgramId ∧
        config.account.data.bytes = configBytes outboxProgramId targetProgramId)
    let data ← Data.tryFrom (configBytes outboxProgramId targetProgramId)
    some (ProgramOutput.new selfProgramId callerProgramId instructionWords [config]
      [.newClaimedIfDefault { config.account with data } (.pda configSeed)])
  | _ => none

def run (selfProgramId : ProgramId) (callerProgramId : Option ProgramId)
    (preStates : List AccountWithMetadata) (instructionWords : InstructionData) :
    Instruction → Option ProgramOutput
  | .lock amount targetZone targetProgramId targetAccounts payload ordinal =>
    lock selfProgramId callerProgramId preStates instructionWords amount targetZone
      targetProgramId targetAccounts payload ordinal
  | .initConfig outboxProgramId targetProgramId =>
    initConfig selfProgramId callerProgramId preStates instructionWords outboxProgramId
      targetProgramId

variable [Serde Instruction]

def main : Guest := fun selfProgramId callerProgramId preStates instructionWords => do
  let instruction : Instruction ← fromWords instructionWords
  require (callerProgramId = none)
  run selfProgramId callerProgramId preStates instructionWords instruction

variable {selfProgramId targetProgramId : ProgramId} {callerProgramId : Option ProgramId}
  {preStates : List AccountWithMetadata} {instructionWords : InstructionData}
  {output : ProgramOutput}

/-- No program calls this one. -/
theorem caller_of_main
    (h : main selfProgramId callerProgramId preStates instructionWords = some output) :
    callerProgramId = none := by
  obtain ⟨instruction, -, hrest⟩ := bind_eq_some_iff.mp h
  exact (require_bind_eq_some.mp hrest).1

/-! ### What the program does -/

/-- A lock: the amount that the payload mints moves from the holder into the escrow, and the
pinned outbox is called with the message. -/
structure Locked (selfProgramId : ProgramId) (output : ProgramOutput) (amount : U128)
    (targetZone : ZoneId) (targetProgramId : ProgramId) (targetAccounts : List (Bytes 32))
    (payload : List UInt8) (ordinal : U32) (config holder escrow outbox : AccountWithMetadata)
    (recipient : Bytes 32) (outboxProgramId : ProgramId) (holderNew escrowNew : U128) : Prop where
  preStates : output.preStates = [config, holder, escrow, outbox]
  configId : config.accountId = configAccountId selfProgramId
  decodes : readConfig config.account.data.bytes = some (outboxProgramId, targetProgramId)
  minted : decodeMint payload = some (.mint recipient amount)
  targets : targetAccounts =
    [ (WrappedToken.configAccountId targetProgramId).value,
      (holdingAccountId targetProgramId recipient).value ]
  capped : amount ≤ maxMintAmount
  holderOwned : holder.account.programOwner = ofProgramId selfProgramId
  escrowId : escrow.accountId = escrowAccountId selfProgramId
  paid : holderNew.val + amount.val = holder.account.balance.val
  received : escrowNew.val = escrow.account.balance.val + amount.val
  postStates : output.postStates =
    [ .new config.account,
      .new { holder.account with balance := holderNew },
      .newClaimedIfDefault { escrow.account with balance := escrowNew } (.pda escrowSeed),
      .new outbox.account ]
  chainedCalls : output.chainedCalls =
    [ { programId := outboxProgramId
        preStates := [outbox]
        instructionData := toWords (CrossZoneOutbox.Instruction.emit targetZone
          targetProgramId targetAccounts payload ordinal)
        pdaSeeds := [] } ]

/-- A configuration: it changes nothing that was there. -/
structure Configured (selfProgramId : ProgramId) (output : ProgramOutput)
    (config : AccountWithMetadata) (data : Data) : Prop where
  preStates : output.preStates = [config]
  configId : config.accountId = configAccountId selfProgramId
  kept : config.account ≠ .default → data = config.account.data
  postStates : output.postStates =
    [.newClaimedIfDefault { config.account with data } (.pda configSeed)]
  chainedCalls : output.chainedCalls = []

omit [Serde Instruction] in
theorem lock_ok {amount : U128} {targetZone : ZoneId} {targetAccounts : List (Bytes 32)}
    {payload : List UInt8} {ordinal : U32}
    (h : lock selfProgramId callerProgramId preStates instructionWords amount targetZone
      targetProgramId targetAccounts payload ordinal = some output) :
    ∃ config holder escrow outbox recipient outboxProgramId holderNew escrowNew,
      Locked selfProgramId output amount targetZone targetProgramId targetAccounts payload ordinal
        config holder escrow outbox recipient outboxProgramId holderNew escrowNew := by
  unfold lock at h
  split at h
  · rename_i config holder escrow outbox
    obtain ⟨hconfig, h⟩ := require_bind_eq_some.mp h
    obtain ⟨⟨outboxProgramId, pinnedTarget⟩, hread, h⟩ := bind_eq_some_iff.mp h
    obtain ⟨instruction, hmint, h⟩ := bind_eq_some_iff.mp h
    cases instruction with
    | initConfig cfg => cases h
    | mint recipient mintAmount =>
      obtain ⟨rfl, h⟩ := require_bind_eq_some.mp h
      obtain ⟨rfl, h⟩ := require_bind_eq_some.mp h
      obtain ⟨htargets, h⟩ := require_bind_eq_some.mp h
      obtain ⟨hcapped, h⟩ := require_bind_eq_some.mp h
      obtain ⟨-, h⟩ := require_bind_eq_some.mp h
      obtain ⟨howned, h⟩ := require_bind_eq_some.mp h
      obtain ⟨hescrow, h⟩ := require_bind_eq_some.mp h
      obtain ⟨holderNew, hpaid, h⟩ := bind_eq_some_iff.mp h
      obtain ⟨escrowNew, hreceived, h⟩ := bind_eq_some_iff.mp h
      cases h
      exact ⟨config, holder, escrow, outbox, recipient, outboxProgramId, holderNew, escrowNew,
        rfl, hconfig, hread, hmint, htargets, hcapped, howned, hescrow,
        checkedSub_eq_some.mp hpaid, checkedAdd_eq_some.mp hreceived, rfl, rfl⟩
  · cases h

omit [Serde WrappedToken.Instruction] [Serde CrossZoneOutbox.Instruction] [Serde Instruction] in
theorem initConfig_ok {outboxProgramId : ProgramId}
    (h : initConfig selfProgramId callerProgramId preStates instructionWords outboxProgramId
      targetProgramId = some output) :
    ∃ config data, Configured selfProgramId output config data := by
  unfold initConfig at h
  split at h
  · rename_i config
    obtain ⟨hid, h⟩ := require_bind_eq_some.mp h
    obtain ⟨hsame, h⟩ := require_bind_eq_some.mp h
    obtain ⟨data, hdata, h⟩ := bind_eq_some_iff.mp h
    cases h
    refine ⟨config, data, rfl, hid, fun hne => ?_, rfl, rfl⟩
    exact Data.ext ((Data.tryFrom_eq_some.mp hdata).trans (hsame hne).2.symm)
  · cases h

/-- **What the program does.**  It locks what its instruction says, or configures. -/
theorem main_ok (h : main selfProgramId callerProgramId preStates instructionWords = some output) :
    (∃ amount targetZone targetProgramId targetAccounts payload ordinal,
      fromWords instructionWords = some (Instruction.lock amount targetZone targetProgramId
        targetAccounts payload ordinal) ∧
      ∃ config holder escrow outbox recipient outboxProgramId holderNew escrowNew,
        Locked selfProgramId output amount targetZone targetProgramId targetAccounts payload ordinal
          config holder escrow outbox recipient outboxProgramId holderNew escrowNew) ∨
    (∃ outboxProgramId targetProgramId, fromWords instructionWords =
      some (Instruction.initConfig outboxProgramId targetProgramId)) ∧
      ∃ config data, Configured selfProgramId output config data := by
  obtain ⟨instruction, hinstruction, h⟩ := bind_eq_some_iff.mp h
  obtain ⟨-, h⟩ := require_bind_eq_some.mp h
  cases instruction with
  | lock amount targetZone targetProgramId targetAccounts payload ordinal =>
    exact .inl ⟨amount, targetZone, targetProgramId, targetAccounts, payload, ordinal,
      hinstruction, lock_ok h⟩
  | initConfig outboxProgramId targetProgramId =>
    exact .inr ⟨⟨outboxProgramId, targetProgramId, hinstruction⟩, initConfig_ok h⟩

end

end BridgeLock

end Lssa
