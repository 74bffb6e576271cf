/-
The outbox for messages to other zones (`lez/programs/cross_zone_outbox`).

A program that sends a message to another zone calls the outbox, which writes the message
into a slot of its own: a PDA under a seed hashed from the calling program, the zone and a
number that the caller chooses.  A slot is written once.

* `main_ok` — what an emission does: a default account becomes the slot of the message.
-/
import Lssa.Programs.WrappedToken

open Borsh Outcome

namespace Lssa

namespace CrossZoneOutbox

open CrossZoneInbox (ZoneId)
open WrappedToken (Vec programIdCodec)

inductive Instruction
  | emit (targetZone : ZoneId) (targetProgramId : ProgramId) (targetAccounts : List (Bytes 32))
      (payload : List UInt8) (ordinal : U32)
  deriving DecidableEq

/-- One emitted message, as stored in its slot. -/
structure OutboxRecord where
  emitter : ProgramId
  targetZone : ZoneId
  ordinal : U32
  targetProgramId : ProgramId
  targetAccounts : Vec (Bytes 32)
  payload : Vec UInt8
  deriving DecidableEq

namespace OutboxRecord

/-- The Borsh format of a record. -/
def codec : Codec OutboxRecord :=
  (Codec.pair programIdCodec (Codec.pair (Codec.bytes 32) (Codec.pair Codec.u32
    (Codec.pair programIdCodec (Codec.pair (Codec.vec (Codec.bytes 32))
      (Codec.vec Codec.u8)))))).equiv
    { toFun := fun (emitter, targetZone, ordinal, targetProgramId, targetAccounts, payload) =>
        ⟨emitter, targetZone, ordinal, targetProgramId, targetAccounts, payload⟩
      invFun := fun record => (record.emitter, record.targetZone, record.ordinal,
        record.targetProgramId, record.targetAccounts, record.payload)
      left_inv := fun _ => rfl
      right_inv := fun _ => rfl }

def toBytes (record : OutboxRecord) : List UInt8 := codec.encode record

def fromBytes (bytes : List UInt8) : Option OutboxRecord := codec.fromSlice bytes

@[simp] theorem fromBytes_toBytes (record : OutboxRecord) :
    fromBytes record.toBytes = some record :=
  Codec.fromSlice_encode codec record

end OutboxRecord

/-- The bytes hashed to the seed of a slot. -/
def outboxSeedBytes (emitter : ProgramId) (targetZone : ZoneId) (ordinal : U32) : List UInt8 :=
  ascii "/LEZ/v0.3/CrossZoneOutbox/00001/" ++ leWords emitter.toList ++ targetZone.toList ++
    leBytes 4 ordinal.val

section

variable [Sha256]

def outboxPdaSeed (emitter : ProgramId) (targetZone : ZoneId) (ordinal : U32) : PdaSeed :=
  ⟨Sha256.hashBytes (outboxSeedBytes emitter targetZone ordinal)⟩

def outboxPda (outboxId emitter : ProgramId) (targetZone : ZoneId) (ordinal : U32) : AccountId :=
  forPublicPda outboxId (outboxPdaSeed emitter targetZone ordinal)

/-! ### The program -/

/-- `Emit`, for the program that called. -/
def emit (selfProgramId emitter : ProgramId) (preStates : List AccountWithMetadata)
    (instructionWords : InstructionData) : Instruction → Option ProgramOutput
  | .emit targetZone targetProgramId targetAccounts payload ordinal =>
    match preStates with
    | [outbox] => do
      require (outbox.accountId = outboxPda selfProgramId emitter targetZone ordinal)
      require (outbox.account = .default)
      let targetAccounts ← Vec.ofList targetAccounts
      let payload ← Vec.ofList payload
      let data ← Data.tryFrom (OutboxRecord.mk emitter targetZone ordinal targetProgramId
        targetAccounts payload).toBytes
      some (ProgramOutput.new selfProgramId (some emitter) instructionWords [outbox]
        [.newClaimed { outbox.account with data }
          (.pda (outboxPdaSeed emitter targetZone ordinal))])
    | _ => none

variable [Serde Instruction]

def main : Guest := fun selfProgramId callerProgramId preStates instructionWords => do
  let instruction : Instruction ← fromWords instructionWords
  let emitter ← callerProgramId
  emit selfProgramId emitter preStates instructionWords instruction

/-! ### What the program does -/

/-- An emission: the slot of the caller, which was a default account, gets the message of the
instruction. -/
structure Emitted (selfProgramId emitter : ProgramId) (output : ProgramOutput)
    (outbox : AccountWithMetadata) (record : OutboxRecord) (data : Data) : Prop where
  preStates : output.preStates = [outbox]
  outboxId : outbox.accountId = outboxPda selfProgramId emitter record.targetZone record.ordinal
  fresh : outbox.account = .default
  emitter_eq : record.emitter = emitter
  stored : Data.tryFrom record.toBytes = some data
  postStates : output.postStates = [.newClaimed { outbox.account with data }
    (.pda (outboxPdaSeed emitter record.targetZone record.ordinal))]
  chainedCalls : output.chainedCalls = []

variable {preStates : List AccountWithMetadata} {instructionWords : InstructionData}

omit [Serde Instruction] in
theorem emit_ok {selfProgramId emitter : ProgramId} {instruction : Instruction}
    {output : ProgramOutput}
    (h : emit selfProgramId emitter preStates instructionWords instruction = some output) :
    ∃ outbox record data,
      instruction = .emit record.targetZone record.targetProgramId record.targetAccounts.val
        record.payload.val record.ordinal ∧
      Emitted selfProgramId emitter output outbox record data := by
  obtain ⟨targetZone, targetProgramId, accounts, bytes, ordinal⟩ := instruction
  simp only [emit] at h
  split at h
  · rename_i outbox
    obtain ⟨hid, h⟩ := require_bind_eq_some.mp h
    obtain ⟨hfresh, h⟩ := require_bind_eq_some.mp h
    obtain ⟨targetAccounts, haccounts, h⟩ := bind_eq_some_iff.mp h
    obtain ⟨payload, hpayload, h⟩ := bind_eq_some_iff.mp h
    obtain ⟨data, hdata, h⟩ := bind_eq_some_iff.mp h
    cases h
    obtain rfl := Vec.ofList_eq_some.mp haccounts
    obtain rfl := Vec.ofList_eq_some.mp hpayload
    exact ⟨outbox, ⟨emitter, targetZone, ordinal, targetProgramId, targetAccounts, payload⟩, data,
      rfl, rfl, hid, hfresh, rfl, hdata, rfl, rfl⟩
  · cases h

/-- **What the program does.**  It only emits, for the program that called it. -/
theorem main_ok {selfProgramId : ProgramId} {callerProgramId : Option ProgramId}
    {output : ProgramOutput}
    (h : main selfProgramId callerProgramId preStates instructionWords = some output) :
    ∃ emitter outbox record data, callerProgramId = some emitter ∧
      fromWords instructionWords = some (Instruction.emit record.targetZone
        record.targetProgramId record.targetAccounts.val record.payload.val record.ordinal) ∧
      Emitted selfProgramId emitter output outbox record data := by
  obtain ⟨instruction, hinstruction, h⟩ := bind_eq_some_iff.mp h
  obtain ⟨emitter, hcaller, h⟩ := bind_eq_some_iff.mp h
  obtain ⟨outbox, record, data, rfl, hemitted⟩ := emit_ok h
  exact ⟨emitter, outbox, record, data, hcaller, hinstruction, hemitted⟩

end

end CrossZoneOutbox

end Lssa
