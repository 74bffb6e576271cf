/-
The inbox for messages from other zones (`lez/programs/cross_zone_inbox`).

The sequencer delivers a message that a peer zone emitted by calling the inbox, which
records the delivery in the shard of the peer block and calls the program the message is
addressed to, with an account at the front that names the source.  The inbox knows no
users: it only insists that no program called it.
-/
import Mathlib.Data.Finset.Sort
import Lssa.Guest

open Borsh Outcome

namespace Lssa

namespace CrossZoneInbox

abbrev ZoneId := Bytes 32

structure CrossZoneMessage where
  srcZone : ZoneId
  srcBlockId : U64
  srcBlockHash : Bytes 32
  srcTxIndex : U32
  srcProgramId : ProgramId
  targetProgramId : ProgramId
  payload : List UInt8
  l1InclusionWitness : Option (List UInt8)
  deriving DecidableEq

structure InboxConfig where
  selfZone : ZoneId
  deriving DecidableEq

inductive Instruction
  | dispatch (msg : CrossZoneMessage)
  | initConfig (config : InboxConfig)
  deriving DecidableEq

namespace InboxConfig

def toBytes (config : InboxConfig) : List UInt8 := (Codec.bytes 32).encode config.selfZone

def fromBytes (bytes : List UInt8) : Option InboxConfig :=
  ((Codec.bytes 32).fromSlice bytes).map InboxConfig.mk

end InboxConfig

/-- The deliveries from one peer block. -/
structure SeenShard where
  srcBlockHash : Bytes 32
  delivered : Finset U32
  deriving DecidableEq

namespace SeenShard

def empty : SeenShard := ⟨.replicate 32 0, ∅⟩

/-- Empty data is an unclaimed shard.  A set decodes from any list. -/
def fromBytes (bytes : List UInt8) : Option SeenShard :=
  if bytes = [] then some empty
  else
    ((Codec.pair (Codec.bytes 32) (Codec.vec Codec.u32)).fromSlice bytes).map
      fun fields => ⟨fields.1, fields.2.val.toFinset⟩

def toBytes (shard : SeenShard) : List UInt8 :=
  shard.srcBlockHash.toList ++ leBytes 4 shard.delivered.card ++
    (shard.delivered.sort (· ≤ ·)).flatMap fun index => leBytes 4 index.val

def binds (shard : SeenShard) (srcBlockHash : Bytes 32) : Bool :=
  decide (shard = empty ∨ shard.srcBlockHash = srcBlockHash)

def contains (shard : SeenShard) (srcTxIndex : U32) : Bool := decide (srcTxIndex ∈ shard.delivered)

def insert (shard : SeenShard) (srcBlockHash : Bytes 32) (srcTxIndex : U32) : SeenShard :=
  if shard.binds srcBlockHash then ⟨srcBlockHash, Insert.insert srcTxIndex shard.delivered⟩
  else shard

/-- `MAX_DELIVERIES`. -/
def maxDeliveries : ℕ := (dataMaxLength - 36) / 4

theorem length_toBytes (shard : SeenShard) :
    shard.toBytes.length = 36 + 4 * shard.delivered.card := by
  simp only [toBytes, length_append, List.Vector.toList_length, length_leBytes,
    List.length_flatMap, List.map_const', List.sum_replicate, Finset.length_sort, smul_eq_mul]
  omega

/-- A shard fits into an account as long as it does not hold too many deliveries. -/
theorem tryFrom_toBytes_isSome {shard : SeenShard} :
    (Data.tryFrom shard.toBytes).isSome = true ↔ shard.delivered.card ≤ maxDeliveries := by
  have hlength := shard.length_toBytes
  unfold Data.tryFrom maxDeliveries dataMaxLength
  split
  · rename_i hfits
    refine iff_of_true rfl ?_
    omega
  · rename_i hfits
    refine iff_of_false (by simp) ?_
    omega

/-- **What is stored reads back.** -/
theorem fromBytes_toBytes {shard : SeenShard} {data : Data}
    (h : Data.tryFrom shard.toBytes = some data) : fromBytes data.bytes = some shard := by
  rw [Data.tryFrom_eq_some.mp h]
  have hfits : shard.delivered.card ≤ maxDeliveries :=
    tryFrom_toBytes_isSome.mp (by rw [h]; rfl)
  have hcount : (shard.delivered.sort (· ≤ ·)).length < 2 ^ 32 := by
    rw [Finset.length_sort]
    exact hfits.trans_lt (by decide)
  have hnonempty : shard.toBytes ≠ [] := by
    intro hnil
    have hlength := shard.length_toBytes
    rw [hnil, List.length_nil] at hlength
    omega
  -- the count that is written is the number of indices in the list
  have hencode : shard.toBytes = (Codec.pair (Codec.bytes 32) (Codec.vec Codec.u32)).encode
      (shard.srcBlockHash, ⟨shard.delivered.sort (· ≤ ·), hcount⟩) := by
    show _ = shard.srcBlockHash.toList ++ (leBytes 4 _ ++ _)
    rw [Finset.length_sort, toBytes, append_assoc]
    rfl
  rw [fromBytes, if_neg hnonempty, hencode, Codec.fromSlice_encode, map_some, Finset.sort_toFinset]

end SeenShard

/-! ### Accounts -/

def inboxConfigSeed : PdaSeed := ⟨⟨ascii "/LEZ/v0.3/CrossZoneInboxCfg/000/", by decide⟩⟩

def seenShardBytes (srcZone : ZoneId) (srcBlockId : U64) : List UInt8 :=
  ascii "/LEZ/v0.3/CrossZoneInboxSeen/01/" ++ srcZone.toList ++ leBytes 8 srcBlockId.val

def sourceMarkerBytes (srcZone : ZoneId) (srcProgramId : ProgramId) : List UInt8 :=
  ascii "/LEZ/v0.3/CrossZoneSource/00000/" ++ srcZone.toList ++ leWords srcProgramId.toList

section

variable [Sha256]

def inboxConfigAccountId (inboxId : ProgramId) : AccountId := forPublicPda inboxId inboxConfigSeed

def inboxSeenShardSeed (srcZone : ZoneId) (srcBlockId : U64) : PdaSeed :=
  ⟨Sha256.hashBytes (seenShardBytes srcZone srcBlockId)⟩

def inboxSeenShardAccountId (inboxId : ProgramId) (srcZone : ZoneId) (srcBlockId : U64) :
    AccountId :=
  forPublicPda inboxId (inboxSeenShardSeed srcZone srcBlockId)

def inboxSourceMarkerSeed (srcZone : ZoneId) (srcProgramId : ProgramId) : PdaSeed :=
  ⟨Sha256.hashBytes (sourceMarkerBytes srcZone srcProgramId)⟩

def inboxSourceMarkerAccountId (inboxId : ProgramId) (srcZone : ZoneId)
    (srcProgramId : ProgramId) : AccountId :=
  forPublicPda inboxId (inboxSourceMarkerSeed srcZone srcProgramId)

/-! ### The program -/

def unchanged (pre : AccountWithMetadata) : AccountPostState := .new pre.account

/-- What becomes of the shard, and the call to the target: nothing on replay. -/
def deliver (msg : CrossZoneMessage) (shard : SeenShard) (seen marker : AccountWithMetadata)
    (targetAccounts : List AccountWithMetadata) : Option (AccountPostState × List ChainedCall) :=
  if shard.contains msg.srcTxIndex then some (unchanged seen, [])
  else do
    let data ← Data.tryFrom (shard.insert msg.srcBlockHash msg.srcTxIndex).toBytes
    require (msg.payload.length % 4 = 0)
    some
      (.newClaimedIfDefault { seen.account with data }
        (.pda (inboxSeenShardSeed msg.srcZone msg.srcBlockId)),
       [{ programId := msg.targetProgramId
          preStates := marker :: targetAccounts
          instructionData := ofLeWords msg.payload
          pdaSeeds := [] }])

/-- `dispatch`. -/
def dispatch (selfProgramId : ProgramId) (callerProgramId : Option ProgramId)
    (preStates : List AccountWithMetadata) (instructionWords : InstructionData)
    (msg : CrossZoneMessage) : Option ProgramOutput :=
  match preStates with
  | config :: seen :: marker :: targetAccounts => do
    require (msg.l1InclusionWitness = none)
    require (config.accountId = inboxConfigAccountId selfProgramId)
    require (seen.accountId = inboxSeenShardAccountId selfProgramId msg.srcZone msg.srcBlockId)
    require (marker.accountId
      = inboxSourceMarkerAccountId selfProgramId msg.srcZone msg.srcProgramId)
    let cfg ← InboxConfig.fromBytes config.account.data.bytes
    require (msg.srcZone ≠ cfg.selfZone)
    let shard ← SeenShard.fromBytes seen.account.data.bytes
    require (shard.binds msg.srcBlockHash)
    let (seenPost, chainedCalls) ← deliver msg shard seen marker targetAccounts
    some
      { ProgramOutput.new selfProgramId callerProgramId instructionWords
          (config :: seen :: marker :: targetAccounts)
          (unchanged config :: seenPost :: unchanged marker :: targetAccounts.map unchanged) with
        chainedCalls }
  | _ => none

/-- `init_config`: once, and again only to the same effect. -/
def initConfig (selfProgramId : ProgramId) (callerProgramId : Option ProgramId)
    (preStates : List AccountWithMetadata) (instructionWords : InstructionData)
    (config : InboxConfig) : Option ProgramOutput :=
  match preStates with
  | [configMeta] => do
    require (configMeta.accountId = inboxConfigAccountId selfProgramId)
    require (configMeta.account ≠ .default →
      configMeta.account.programOwner = ofProgramId selfProgramId ∧
        configMeta.account.data.bytes = config.toBytes)
    let data ← Data.tryFrom config.toBytes
    some (ProgramOutput.new selfProgramId callerProgramId instructionWords [configMeta]
      [.newClaimedIfDefault { configMeta.account with data } (.pda inboxConfigSeed)])
  | _ => none

def run (selfProgramId : ProgramId) (callerProgramId : Option ProgramId)
    (preStates : List AccountWithMetadata) (instructionWords : InstructionData) :
    Instruction → Option ProgramOutput
  | .dispatch msg => dispatch selfProgramId callerProgramId preStates instructionWords msg
  | .initConfig config => initConfig selfProgramId callerProgramId preStates instructionWords config

variable [Serde Instruction]

def main : Guest := fun selfProgramId callerProgramId preStates instructionWords => do
  let instruction : Instruction ← fromWords instructionWords
  require (callerProgramId = none)
  run selfProgramId callerProgramId preStates instructionWords instruction

variable {selfProgramId : ProgramId} {callerProgramId : Option ProgramId}
  {preStates : List AccountWithMetadata} {instructionWords : InstructionData}
  {output : ProgramOutput}

/-- No program calls the inbox. -/
theorem caller_of_main
    (h : main selfProgramId callerProgramId preStates instructionWords = some output) :
    callerProgramId = none := by
  obtain ⟨instruction, -, hrest⟩ := bind_eq_some_iff.mp h
  exact (require_bind_eq_some.mp hrest).1

/-! ### What the program does -/

/-- What a dispatch makes of a message, by what the shard holds. -/
inductive Dispatches (msg : CrossZoneMessage) (shard : SeenShard) (output : ProgramOutput)
    (config seen marker : AccountWithMetadata) (targetAccounts : List AccountWithMetadata) : Prop
  /-- A message that was delivered before changes nothing. -/
  | replayed (contained : msg.srcTxIndex ∈ shard.delivered)
      (postStates : output.postStates = (config :: seen :: marker :: targetAccounts).map unchanged)
      (chainedCalls : output.chainedCalls = [])
  | delivered (data : Data) (fresh : msg.srcTxIndex ∉ shard.delivered)
      (stored : Data.tryFrom (shard.insert msg.srcBlockHash msg.srcTxIndex).toBytes = some data)
      (postStates : output.postStates = unchanged config
        :: .newClaimedIfDefault { seen.account with data }
          (.pda (inboxSeenShardSeed msg.srcZone msg.srcBlockId))
        :: unchanged marker :: targetAccounts.map unchanged)
      (chainedCalls : output.chainedCalls =
        [{ programId := msg.targetProgramId
           preStates := marker :: targetAccounts
           instructionData := ofLeWords msg.payload
           pdaSeeds := [] }])

/-- A dispatch: the accounts it names, and the shard it reads. -/
structure Dispatched (selfProgramId : ProgramId) (output : ProgramOutput) (msg : CrossZoneMessage)
    (shard : SeenShard) (config seen marker : AccountWithMetadata)
    (targetAccounts : List AccountWithMetadata) : Prop where
  preStates : output.preStates = config :: seen :: marker :: targetAccounts
  configId : config.accountId = inboxConfigAccountId selfProgramId
  seenId : seen.accountId = inboxSeenShardAccountId selfProgramId msg.srcZone msg.srcBlockId
  markerId : marker.accountId
    = inboxSourceMarkerAccountId selfProgramId msg.srcZone msg.srcProgramId
  decodes : SeenShard.fromBytes seen.account.data.bytes = some shard
  binds : shard.binds msg.srcBlockHash = true
  dispatches : Dispatches msg shard output config seen marker targetAccounts

/-- A configuration: it calls nobody, and touches no other account. -/
structure Configured (selfProgramId : ProgramId) (output : ProgramOutput) : Prop where
  preStates : output.preStates.map (·.accountId) = [inboxConfigAccountId selfProgramId]
  chainedCalls : output.chainedCalls = []

omit [Serde Instruction] in
theorem dispatch_ok {msg : CrossZoneMessage}
    (h : dispatch selfProgramId callerProgramId preStates instructionWords msg = some output) :
    ∃ shard config seen marker targetAccounts,
      Dispatched selfProgramId output msg shard config seen marker targetAccounts := by
  unfold dispatch at h
  split at h
  · rename_i config seen marker targetAccounts
    obtain ⟨-, h⟩ := require_bind_eq_some.mp h
    obtain ⟨hconfig, h⟩ := require_bind_eq_some.mp h
    obtain ⟨hseen, h⟩ := require_bind_eq_some.mp h
    obtain ⟨hmarker, h⟩ := require_bind_eq_some.mp h
    obtain ⟨cfg, -, h⟩ := bind_eq_some_iff.mp h
    obtain ⟨-, h⟩ := require_bind_eq_some.mp h
    obtain ⟨shard, hshard, h⟩ := bind_eq_some_iff.mp h
    obtain ⟨hbinds, h⟩ := require_bind_eq_some.mp h
    obtain ⟨⟨seenPost, chainedCalls⟩, hdeliver, h⟩ := bind_eq_some_iff.mp h
    cases h
    refine ⟨shard, config, seen, marker, targetAccounts, rfl, hconfig, hseen, hmarker, hshard,
      hbinds, ?_⟩
    unfold deliver at hdeliver
    split at hdeliver
    · rename_i hcontains
      cases hdeliver
      exact .replayed (of_decide_eq_true hcontains) rfl rfl
    · rename_i hcontains
      obtain ⟨data, hdata, hdeliver⟩ := bind_eq_some_iff.mp hdeliver
      obtain ⟨-, hdeliver⟩ := require_bind_eq_some.mp hdeliver
      cases hdeliver
      exact .delivered data (fun hmem => hcontains (decide_eq_true hmem)) hdata rfl rfl
  · cases h

omit [Serde Instruction] in
theorem initConfig_ok {config : InboxConfig}
    (h : initConfig selfProgramId callerProgramId preStates instructionWords config
      = some output) : Configured selfProgramId output := by
  unfold initConfig at h
  split at h
  · obtain ⟨hid, h⟩ := require_bind_eq_some.mp h
    obtain ⟨-, h⟩ := require_bind_eq_some.mp h
    obtain ⟨data, -, h⟩ := bind_eq_some_iff.mp h
    cases h
    exact ⟨congrArg (fun accountId => [accountId]) hid, rfl⟩
  · cases h

/-- **What the program does.**  It dispatches the message of its instruction, or configures. -/
theorem main_ok (h : main selfProgramId callerProgramId preStates instructionWords = some output) :
    (∃ msg, fromWords instructionWords = some (Instruction.dispatch msg) ∧
        ∃ shard config seen marker targetAccounts,
          Dispatched selfProgramId output msg shard config seen marker targetAccounts) ∨
      (∃ config, fromWords instructionWords = some (Instruction.initConfig config)) ∧
        Configured selfProgramId output := by
  obtain ⟨instruction, hdecodes, hrest⟩ := bind_eq_some_iff.mp h
  obtain ⟨-, hrest⟩ := require_bind_eq_some.mp hrest
  cases instruction with
  | dispatch msg => exact .inl ⟨msg, hdecodes, dispatch_ok hrest⟩
  | initConfig config => exact .inr ⟨⟨config, hdecodes⟩, initConfig_ok hrest⟩

end

end CrossZoneInbox

end Lssa
