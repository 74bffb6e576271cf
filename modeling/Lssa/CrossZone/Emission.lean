/-
Messages to other zones, seen from outside (`lez/cross_zone/src/lib.rs`).

The watcher of a zone finds the messages of a peer in the transactions of its blocks, by
the program that was called and by the instruction: two programs are known to emit.  It
builds the dispatch that delivers the message, which everybody builds alike.
-/
import Lssa.LeeTransaction
import Lssa.Programs.BridgeLock

open Borsh

namespace Lssa

open CrossZoneInbox (ZoneId CrossZoneMessage)

/-- The instructions of `ping_sender`. -/
inductive Ping.SenderInstruction
  | send (targetZone : ZoneId) (targetProgramId : ProgramId) (targetAccounts : List (Bytes 32))
      (payload : List UInt8) (ordinal : U32)
  | initConfig (outboxProgramId : ProgramId)
  deriving DecidableEq

/-- The ids of the programs that emit. -/
class Emitters where
  pingSender : ProgramId
  bridgeLock : ProgramId

/-- A message as its source transaction has it. -/
structure Emission where
  targetZone : ZoneId
  targetProgramId : ProgramId
  targetAccounts : List (Bytes 32)
  payload : List UInt8
  deriving DecidableEq

/-- `extract_emission`. -/
def extractEmission [Emitters] [Serde Ping.SenderInstruction] [Serde BridgeLock.Instruction]
    (programId : ProgramId) (instructionData : InstructionData) : Option Emission :=
  if programId = Emitters.pingSender then
    match fromWords instructionData with
    | some (Ping.SenderInstruction.send targetZone targetProgramId targetAccounts payload _) =>
      some ⟨targetZone, targetProgramId, targetAccounts, payload⟩
    | _ => none
  else if programId = Emitters.bridgeLock then
    match fromWords instructionData with
    | some (BridgeLock.Instruction.lock _ targetZone targetProgramId targetAccounts payload _) =>
      some ⟨targetZone, targetProgramId, targetAccounts, payload⟩
    | _ => none
  else none

/-- Where a message was emitted. -/
structure EmissionSource where
  srcZone : ZoneId
  srcBlockId : U64
  srcBlockHash : Bytes 32
  srcTxIndex : U32
  srcProgramId : ProgramId

/-- The bytes hashed to the key of a message. -/
def messageKeyBytes (srcZone : ZoneId) (srcBlockId : U64) (srcTxIndex : U32) : List UInt8 :=
  ascii "/LEZ/v0.3/CrossZoneMsgKey/00000/" ++ srcZone.toList ++ leBytes 8 srcBlockId.val ++
    leBytes 4 srcTxIndex.val

variable [Sha256]

def messageKey (srcZone : ZoneId) (srcBlockId : U64) (srcTxIndex : U32) : Bytes 32 :=
  Sha256.hashBytes (messageKeyBytes srcZone srcBlockId srcTxIndex)

/-- `build_inbox_dispatch_tx`. -/
def buildInboxDispatchTx [Serde CrossZoneInbox.Instruction] (inboxId : ProgramId)
    (msg : CrossZoneMessage) (targetAccountIds : List AccountId) : PublicTransaction where
  message :=
    { programId := inboxId
      accountIds :=
        [ CrossZoneInbox.inboxConfigAccountId inboxId,
          CrossZoneInbox.inboxSeenShardAccountId inboxId msg.srcZone msg.srcBlockId,
          CrossZoneInbox.inboxSourceMarkerAccountId inboxId msg.srcZone msg.srcProgramId ] ++
        targetAccountIds
      nonces := []
      instructionData := toWords (CrossZoneInbox.Instruction.dispatch msg) }
  witnessSet := ⟨[]⟩

/-- `build_dispatch_from_emission`. -/
def buildDispatchFromEmission [Builtins] [Serde CrossZoneInbox.Instruction]
    (source : EmissionSource) (targetProgramId : ProgramId) (targetAccounts : List (Bytes 32))
    (payload : List UInt8) : PublicTransaction :=
  buildInboxDispatchTx Builtins.crossZoneInbox
    { srcZone := source.srcZone
      srcBlockId := source.srcBlockId
      srcBlockHash := source.srcBlockHash
      srcTxIndex := source.srcTxIndex
      srcProgramId := source.srcProgramId
      targetProgramId
      payload
      l1InclusionWitness := none }
    (targetAccounts.map AccountId.mk)

end Lssa
