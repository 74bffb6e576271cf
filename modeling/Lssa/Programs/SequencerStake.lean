/-
The stake of sequencers (`lez/programs/sequencer_stake`).

A sequencer locks native balance in an ownership account, which the program claims and tags
with the key that it backs.  What is staked for a key, and how much of it is about to be
released, is kept a second time in the entries of one configuration account.  The deposit is
made by a program of the staker's choice, called in between: the stake is booked before it
and confirmed after it, by a call of the program to itself.

* `SequencerStakeConfig.fromBytes_toBytes`, `StakeRecord.fromBytes_toBytes` — what is written
  is read back;
* `main_cases` — the four things a call of the program can be.
-/
import Mathlib.Data.List.Lex
import Lssa.Library.SortedMap
import Lssa.Guest

open Borsh Outcome

namespace Lssa

open Codec (option pair u128 vec)

/-- Which bytes are a public key of Ed25519. -/
class Ed25519 where
  isPublicKey : Bytes 32 → Bool

namespace SequencerStake

variable [Ed25519]

/-! ### Data -/

/-- The identity of a sequencer on Bedrock; only public keys are. -/
structure SequencerKey where
  bytes : Bytes 32
  valid : Ed25519.isPublicKey bytes = true
  deriving DecidableEq

/-- The bytes of a key as numbers, by which keys are ordered. -/
def SequencerKey.rank (key : SequencerKey) : List ℕ := key.bytes.toList.map UInt8.toNat

theorem SequencerKey.rank_injective : Function.Injective SequencerKey.rank := by
  rintro ⟨a, ha⟩ ⟨b, hb⟩ h
  have hbytes : a.toList = b.toList :=
    List.map_injective_iff.mpr (fun _ _ => UInt8.toNat_inj.mp) h
  obtain rfl : a = b := List.Vector.toList_injective hbytes
  rfl

instance : LinearOrder SequencerKey := LinearOrder.lift' SequencerKey.rank
  SequencerKey.rank_injective

inductive Instruction
  | stake (sequencerKey : SequencerKey) (amount : U128) (moverProgramId : ProgramId)
      (moverInstructionData : InstructionData)
  | confirmStake (expectedBalanceAfter : U128)
  | unstakeRequest (amount : U128) (destination : AccountId)
  | finalizeUnstake
  deriving DecidableEq

/-- A release that was asked for. -/
structure PendingUnstake where
  amount : U128
  destination : AccountId
  deriving DecidableEq

/-- The tag of an ownership account. -/
structure StakeRecord where
  sequencerKey : SequencerKey
  pendingUnstake : Option PendingUnstake
  deriving DecidableEq

/-- The standing of a key. -/
structure SequencerEntry where
  accountId : AccountId
  totalStaked : U128
  totalPendingUnstake : U128
  deriving DecidableEq

structure SequencerStakeConfig where
  minimumSequencerStake : U128
  entries : SortedMap SequencerKey SequencerEntry

namespace SequencerEntry

/-- `net_stake`, with a saturating subtraction. -/
def netStake (entry : SequencerEntry) : U128 :=
  (checkedSub entry.totalStaked entry.totalPendingUnstake).getD 0

/-- `allows_unstake_request`. -/
def allowsUnstakeRequest (entry : SequencerEntry) (amount minimum : U128) : Bool :=
  match checkedSub entry.netStake amount with
  | none => false
  | some remaining => decide (remaining = 0 ∨ minimum ≤ remaining)

end SequencerEntry

/-! ### Encodings -/

def sequencerKeyCodec : Codec SequencerKey :=
  ((Codec.bytes 32).subtype fun bytes => Ed25519.isPublicKey bytes = true).equiv
    { toFun := fun key => ⟨key.val, key.property⟩
      invFun := fun key => ⟨key.bytes, key.valid⟩
      left_inv := fun _ => rfl
      right_inv := fun _ => rfl }

abbrev accountIdCodec : Codec AccountId := AccountId.codec

def pendingUnstakeCodec : Codec PendingUnstake := (pair u128 accountIdCodec).equiv
  { toFun := fun fields => ⟨fields.1, fields.2⟩
    invFun := fun pending => (pending.amount, pending.destination)
    left_inv := fun _ => rfl
    right_inv := fun _ => rfl }

def stakeRecordCodec : Codec StakeRecord :=
  (pair sequencerKeyCodec (option pendingUnstakeCodec)).equiv
    { toFun := fun fields => ⟨fields.1, fields.2⟩
      invFun := fun record => (record.sequencerKey, record.pendingUnstake)
      left_inv := fun _ => rfl
      right_inv := fun _ => rfl }

def sequencerEntryCodec : Codec SequencerEntry :=
  (pair accountIdCodec (pair u128 u128)).equiv
    { toFun := fun fields => ⟨fields.1, fields.2.1, fields.2.2⟩
      invFun := fun entry => (entry.accountId, entry.totalStaked, entry.totalPendingUnstake)
      left_inv := fun _ => rfl
      right_inv := fun _ => rfl }

/-- The entries of a configuration, as they are read: in any order. -/
def entriesCodec : Codec {items : List (SequencerKey × SequencerEntry) // items.length < 2 ^ 32} :=
  vec (pair sequencerKeyCodec sequencerEntryCodec)

/-- An entry is encoded with a fixed width. -/
theorem length_entryCodec (item : SequencerKey × SequencerEntry) :
    ((pair sequencerKeyCodec sequencerEntryCodec).encode item).length = 96 := by
  have hkey : (sequencerKeyCodec.encode item.1).length = 32 := item.1.bytes.toList_length
  have haccount : (accountIdCodec.encode item.2.accountId).length = 32 :=
    item.2.accountId.value.toList_length
  have hnumber : ∀ number : U128, (u128.encode number).length = 16 :=
    fun number => length_leBytes 16 number.val
  show (sequencerKeyCodec.encode item.1 ++ (accountIdCodec.encode item.2.accountId ++
    (u128.encode item.2.totalStaked ++ u128.encode item.2.totalPendingUnstake))).length = 96
  simp only [length_append, hkey, haccount, hnumber]

theorem length_encodedEntries (items : List (SequencerKey × SequencerEntry)) :
    (items.flatMap (pair sequencerKeyCodec sequencerEntryCodec).encode).length
      = 96 * items.length := by
  induction items with
  | nil => rfl
  | cons item items ih =>
    rw [List.flatMap_cons, length_append, length_entryCodec, ih, length_cons]
    omega

namespace StakeRecord

def toBytes (record : StakeRecord) : List UInt8 := stakeRecordCodec.encode record

def fromBytes (bytes : List UInt8) : Option StakeRecord := stakeRecordCodec.fromSlice bytes

@[simp] theorem fromBytes_toBytes (record : StakeRecord) : fromBytes record.toBytes = some record :=
  Codec.fromSlice_encode _ _

theorem fromBytes_of_tryFrom {record : StakeRecord} {data : Data}
    (h : Data.tryFrom record.toBytes = some data) : fromBytes data.bytes = some record := by
  rw [Data.tryFrom_eq_some.mp h, fromBytes_toBytes]

theorem length_toBytes_le (record : StakeRecord) : record.toBytes.length ≤ 81 := by
  obtain ⟨key, pending⟩ := record
  have hkey : (sequencerKeyCodec.encode key).length = 32 := key.bytes.toList_length
  show (sequencerKeyCodec.encode key ++ (option pendingUnstakeCodec).encode pending).length ≤ 81
  rw [length_append, hkey]
  cases pending with
  | none =>
    show 32 + 1 ≤ 81
    omega
  | some pending =>
    have haccount : (accountIdCodec.encode pending.destination).length = 32 :=
      pending.destination.value.toList_length
    have hnumber : (u128.encode pending.amount).length = 16 := length_leBytes 16 _
    show 32 + (1 :: (u128.encode pending.amount ++
      accountIdCodec.encode pending.destination)).length ≤ 81
    rw [length_cons, length_append, hnumber, haccount]

end StakeRecord

namespace SequencerStakeConfig

def toBytes (config : SequencerStakeConfig) : List UInt8 :=
  u128.encode config.minimumSequencerStake ++
    (leBytes 4 config.entries.entries.length ++
      config.entries.entries.flatMap (pair sequencerKeyCodec sequencerEntryCodec).encode)

/-- A map decodes from any list of entries, the later over the earlier. -/
def fromBytes (bytes : List UInt8) : Option SequencerStakeConfig :=
  ((pair u128 entriesCodec).fromSlice bytes).map fun fields =>
    ⟨fields.1, .ofList fields.2.val⟩

theorem length_toBytes (config : SequencerStakeConfig) :
    config.toBytes.length = 20 + 96 * config.entries.entries.length := by
  have hminimum : (u128.encode config.minimumSequencerStake).length = 16 :=
    length_leBytes 16 config.minimumSequencerStake.val
  rw [toBytes, length_append, length_append, hminimum, length_leBytes, length_encodedEntries]
  omega

variable {config : SequencerStakeConfig}

/-- What is read is no longer than what it is read from. -/
theorem length_of_fromBytes {bytes : List UInt8} (h : fromBytes bytes = some config) :
    config.toBytes.length ≤ bytes.length := by
  obtain ⟨⟨minimum, items, hitems⟩, hread, rfl⟩ := map_eq_some_iff.mp h
  have hbytes : bytes = u128.encode minimum ++ (leBytes 4 items.length ++
      items.flatMap (pair sequencerKeyCodec sequencerEntryCodec).encode) :=
    Codec.fromSlice_eq_some.mp hread
  have hminimum : (u128.encode minimum).length = 16 := length_leBytes 16 minimum.val
  have hentries := SortedMap.length_ofList_le items
  rw [length_toBytes, hbytes, length_append, length_append, hminimum, length_leBytes,
    length_encodedEntries]
  show 20 + 96 * (SortedMap.ofList items).entries.length ≤ _
  omega

/-- A configuration that fits into an account is read back as it was written. -/
theorem fromBytes_toBytes {data : Data} (h : Data.tryFrom config.toBytes = some data) :
    fromBytes data.bytes = some config := by
  have hbytes : data.bytes = config.toBytes := Data.tryFrom_eq_some.mp h
  have hshort : config.entries.entries.length < 2 ^ 32 := by
    have hentries := config.length_toBytes
    have hmax : config.toBytes.length ≤ dataMaxLength := hbytes ▸ data.length_le
    have hvalue : dataMaxLength = 716800 := rfl
    omega
  have hencode : config.toBytes = (pair u128 entriesCodec).encode
      (config.minimumSequencerStake, ⟨config.entries.entries, hshort⟩) := rfl
  rw [fromBytes, hbytes, hencode, Codec.fromSlice_encode, map_some]
  show some (SequencerStakeConfig.mk config.minimumSequencerStake
    (.ofList config.entries.entries)) = some config
  rw [SortedMap.ofList_entries]

end SequencerStakeConfig

/-! ### Accounts -/

/-- `SEQUENCER_STAKE_CONFIG_SEED_DOMAIN`. -/
def sequencerStakeConfigSeed : PdaSeed :=
  ⟨⟨ascii "/LEZ/v0.3/MinSequencerStake/0000", by decide⟩⟩

def sequencerStakeConfigAccountId [Sha256] (programId : ProgramId) : AccountId :=
  forPublicPda programId sequencerStakeConfigSeed

/-! ### The program -/

section

variable [Sha256]

/-- `decode_config`: the configuration, by its id and its owner. -/
def decodeConfig (config : AccountWithMetadata) (selfProgramId : ProgramId) :
    Option SequencerStakeConfig := do
  require (config.accountId = sequencerStakeConfigAccountId selfProgramId)
  require (config.account.programOwner = ofProgramId selfProgramId)
  SequencerStakeConfig.fromBytes config.account.data.bytes

/-- The check of an ownership account: one that was claimed before backs the key, and nothing
is about to be released from it. -/
def checkOwnership (ownership : Account) (selfProgramId : ProgramId)
    (sequencerKey : SequencerKey) : Option Unit :=
  if ownership.programOwner ≠ defaultProgramOwner then do
    require (ownership.programOwner = ofProgramId selfProgramId)
    let record ← StakeRecord.fromBytes ownership.data.bytes
    require (record.sequencerKey = sequencerKey)
    require (record.pendingUnstake = none)
  else some ()

/-- The entry of a key after a stake: a first one, or a top-up of the same account. -/
def bookStake (config : SequencerStakeConfig) (isClaimed : Prop) [Decidable isClaimed]
    (ownershipId : AccountId) (sequencerKey : SequencerKey) (amount : U128) :
    Option SequencerEntry :=
  match config.entries.lookup sequencerKey with
  | some entry => do
    require isClaimed
    require (entry.accountId = ownershipId)
    let totalStaked ← checkedAdd entry.totalStaked amount
    some { entry with totalStaked }
  | none => do
    require (config.minimumSequencerStake ≤ amount)
    some { accountId := ownershipId, totalStaked := amount, totalPendingUnstake := 0 }

/-- The configuration with another entry for a key. -/
def SequencerStakeConfig.withEntry (config : SequencerStakeConfig) (sequencerKey : SequencerKey)
    (entry : SequencerEntry) : SequencerStakeConfig :=
  { config with entries := config.entries.insert sequencerKey entry }

section

variable [Serde Instruction]

/-- `stake`. -/
def stake (selfProgramId : ProgramId) (preStates : List AccountWithMetadata)
    (sequencerKey : SequencerKey) (amount : U128) (moverProgramId : ProgramId)
    (moverInstructionData : InstructionData) :
    Option (List AccountPostState × List ChainedCall) :=
  match preStates with
  | [funding, ownership, config] => do
    require (ownership.isAuthorized = true)
    let cfg ← decodeConfig config selfProgramId
    let expectedBalanceAfter ← checkedAdd ownership.account.balance amount
    checkOwnership ownership.account selfProgramId sequencerKey
    let entry ← bookStake cfg (ownership.account.programOwner ≠ defaultProgramOwner)
      ownership.accountId sequencerKey amount
    let data ← Data.tryFrom (StakeRecord.mk sequencerKey none).toBytes
    let configData ← Data.tryFrom (cfg.withEntry sequencerKey entry).toBytes
    -- what the calls find: the account claimed, and then with the deposit
    let claimed : Account :=
      { ownership.account with data, programOwner := ofProgramId selfProgramId }
    some
      ([ .new funding.account,
         .newClaimedIfDefault { ownership.account with data } .authorized,
         .new { config.account with data := configData } ],
       [ { programId := moverProgramId
           preStates := [funding, { ownership with account := claimed }]
           instructionData := moverInstructionData
           pdaSeeds := [] },
         { programId := selfProgramId
           preStates := [{ ownership with
             account := { claimed with balance := expectedBalanceAfter } }]
           instructionData := toWords (Instruction.confirmStake expectedBalanceAfter)
           pdaSeeds := [] } ])
  | _ => none

end

/-- `confirm_stake`. -/
def confirmStake (preStates : List AccountWithMetadata) (expectedBalanceAfter : U128) :
    Option (List AccountPostState) :=
  match preStates with
  | [ownership] => do
    require (ownership.account.balance = expectedBalanceAfter)
    some [.new ownership.account]
  | _ => none

/-- `unstake_request`. -/
def unstakeRequest (selfProgramId : ProgramId) (preStates : List AccountWithMetadata)
    (amount : U128) (destination : AccountId) : Option (List AccountPostState) :=
  match preStates with
  | [ownership, config] => do
    require (ownership.isAuthorized = true)
    require (ownership.account.programOwner = ofProgramId selfProgramId)
    let record ← StakeRecord.fromBytes ownership.account.data.bytes
    require (record.pendingUnstake = none)
    let cfg ← decodeConfig config selfProgramId
    let entry ← cfg.entries.lookup record.sequencerKey
    require (entry.accountId = ownership.accountId)
    require (entry.allowsUnstakeRequest amount cfg.minimumSequencerStake = true)
    let totalPendingUnstake ← checkedAdd entry.totalPendingUnstake amount
    let data ← Data.tryFrom
      { record with pendingUnstake := some ⟨amount, destination⟩ : StakeRecord }.toBytes
    let configData ← Data.tryFrom
      (cfg.withEntry record.sequencerKey { entry with totalPendingUnstake }).toBytes
    some [ .new { ownership.account with data }, .new { config.account with data := configData } ]
  | _ => none

/-- The configuration after a release: without the key once nothing is staked for it. -/
def SequencerStakeConfig.released (config : SequencerStakeConfig) (sequencerKey : SequencerKey)
    (entry : SequencerEntry) : SequencerStakeConfig :=
  if entry.totalStaked = 0 then { config with entries := config.entries.erase sequencerKey }
  else config.withEntry sequencerKey entry

/-- `finalize_unstake`. -/
def finalizeUnstake (selfProgramId : ProgramId) (preStates : List AccountWithMetadata) :
    Option (List AccountPostState) :=
  match preStates with
  | [ownership, destination, config] => do
    require (ownership.account.programOwner = ofProgramId selfProgramId)
    let record ← StakeRecord.fromBytes ownership.account.data.bytes
    let pending ← record.pendingUnstake
    require (destination.accountId = pending.destination)
    let ownershipBalance ← checkedSub ownership.account.balance pending.amount
    let data ← Data.tryFrom { record with pendingUnstake := none : StakeRecord }.toBytes
    let destinationBalance ← checkedAdd destination.account.balance pending.amount
    let cfg ← decodeConfig config selfProgramId
    let entry ← cfg.entries.lookup record.sequencerKey
    require (entry.accountId = ownership.accountId)
    let totalStaked ← checkedSub entry.totalStaked pending.amount
    let totalPendingUnstake ← checkedSub entry.totalPendingUnstake pending.amount
    let configData ← Data.tryFrom
      (cfg.released record.sequencerKey { entry with totalStaked, totalPendingUnstake }).toBytes
    some
      [ .new { ownership.account with balance := ownershipBalance, data },
        .new { destination.account with balance := destinationBalance },
        .new { config.account with data := configData } ]
  | _ => none

variable [Serde Instruction]

/-- What an instruction does: the post-states and the calls it asks for. -/
def run (selfProgramId : ProgramId) (callerProgramId : Option ProgramId)
    (preStates : List AccountWithMetadata) :
    Instruction → Option (List AccountPostState × List ChainedCall)
  | .stake sequencerKey amount moverProgramId moverInstructionData => do
    require (callerProgramId = none)
    stake selfProgramId preStates sequencerKey amount moverProgramId moverInstructionData
  | .confirmStake expectedBalanceAfter => do
    require (callerProgramId = some selfProgramId)
    let postStates ← confirmStake preStates expectedBalanceAfter
    some (postStates, [])
  | .unstakeRequest amount destination => do
    require (callerProgramId = none)
    let postStates ← unstakeRequest selfProgramId preStates amount destination
    some (postStates, [])
  | .finalizeUnstake => do
    require (callerProgramId = none)
    let postStates ← finalizeUnstake selfProgramId preStates
    some (postStates, [])

def main : Guest := fun selfProgramId callerProgramId preStates instructionWords => do
  let instruction : Instruction ← fromWords instructionWords
  let (postStates, chainedCalls) ← run selfProgramId callerProgramId preStates instruction
  some { ProgramOutput.new selfProgramId callerProgramId instructionWords preStates postStates with
    chainedCalls }

/-! ### Calls that go through -/

section

variable {selfProgramId : ProgramId} {callerProgramId : Option ProgramId}
  {preStates : List AccountWithMetadata} {postStates : List AccountPostState}

omit [Serde Instruction] in
theorem decodeConfig_eq_some {config : AccountWithMetadata} {cfg : SequencerStakeConfig} :
    decodeConfig config selfProgramId = some cfg ↔
      config.accountId = sequencerStakeConfigAccountId selfProgramId ∧
      config.account.programOwner = .ofProgramId selfProgramId ∧
      SequencerStakeConfig.fromBytes config.account.data.bytes = some cfg := by
  show (require _).bind _ = _ ↔ _
  rw [require_bind_eq_some]
  show _ ∧ (require _).bind _ = _ ↔ _
  rw [require_bind_eq_some]

variable {sequencerKey : SequencerKey} {amount : U128}

omit [Sha256] [Serde Instruction] in
theorem checkOwnership_ok {ownership : Account} {u : Unit}
    (h : checkOwnership ownership selfProgramId sequencerKey = some u) :
    ownership.programOwner ≠ defaultProgramOwner →
      ownership.programOwner = .ofProgramId selfProgramId ∧
      StakeRecord.fromBytes ownership.data.bytes = some ⟨sequencerKey, none⟩ := by
  intro hclaimed
  rw [checkOwnership, if_pos hclaimed] at h
  obtain ⟨howner, h⟩ := require_bind_eq_some.mp h
  obtain ⟨⟨key, pending⟩, hrecord, h⟩ := bind_eq_some_iff.mp h
  obtain ⟨rfl, h⟩ := require_bind_eq_some.mp h
  have hpending : pending = none := by
    by_contra hne
    exact absurd h (by simp [require, hne])
  exact ⟨howner, hpending ▸ hrecord⟩

omit [Sha256] [Serde Instruction] in
/-- A stake is a top-up of the account that backs the key, or the first for the key. -/
theorem bookStake_ok {config : SequencerStakeConfig} {isClaimed : Prop} [Decidable isClaimed]
    {ownershipId : AccountId} {entry : SequencerEntry}
    (h : bookStake config isClaimed ownershipId sequencerKey amount = some entry) :
    entry.accountId = ownershipId ∧
      ((∃ old, config.entries.lookup sequencerKey = some old ∧ isClaimed ∧
          old.accountId = ownershipId ∧ entry.totalPendingUnstake = old.totalPendingUnstake ∧
          entry.totalStaked.val = old.totalStaked.val + amount.val) ∨
        (config.entries.lookup sequencerKey = none ∧ config.minimumSequencerStake ≤ amount ∧
          entry.totalPendingUnstake = 0 ∧ entry.totalStaked = amount)) := by
  unfold bookStake at h
  split at h
  · rename_i old hold
    obtain ⟨hclaimed, h⟩ := require_bind_eq_some.mp h
    obtain ⟨hid, h⟩ := require_bind_eq_some.mp h
    obtain ⟨total, htotal, h⟩ := bind_eq_some_iff.mp h
    rw [← some.inj h]
    exact ⟨hid, .inl ⟨old, hold, hclaimed, hid, rfl, checkedAdd_eq_some.mp htotal⟩⟩
  · rename_i hnone
    obtain ⟨hminimum, h⟩ := require_bind_eq_some.mp h
    rw [← some.inj h]
    exact ⟨rfl, .inr ⟨hnone, hminimum, rfl, rfl⟩⟩

omit [Ed25519] [Sha256] [Serde Instruction] in
/-- A request is covered by what is staked and not yet asked for, and leaves nothing or the
minimum. -/
theorem SequencerEntry.allowsUnstakeRequest_iff {entry : SequencerEntry} {minimum : U128}
    (hpending : entry.totalPendingUnstake ≤ entry.totalStaked) :
    entry.allowsUnstakeRequest amount minimum = true ↔
      entry.totalPendingUnstake.val + amount.val ≤ entry.totalStaked.val ∧
      (entry.totalPendingUnstake.val + amount.val = entry.totalStaked.val ∨
        minimum.val + entry.totalPendingUnstake.val + amount.val ≤ entry.totalStaked.val) := by
  obtain ⟨net, hnet⟩ : ∃ net, checkedSub entry.totalStaked entry.totalPendingUnstake = some net :=
    ⟨_, if_pos hpending⟩
  have hnetVal := checkedSub_eq_some.mp hnet
  rw [allowsUnstakeRequest, netStake, hnet, getD_some]
  cases hsub : checkedSub net amount with
  | none =>
    have hlt : net.val < amount.val := by
      by_contra hle
      rw [checkedSub, if_pos (show amount ≤ net from not_lt.mp hle)] at hsub
      cases hsub
    refine iff_of_false (by simp) ?_
    omega
  | some remaining =>
    have hremaining := checkedSub_eq_some.mp hsub
    have hzero : remaining = 0 ↔ remaining.val = 0 := Fin.ext_iff
    simp only [decide_eq_true_eq, hzero, Fin.le_def]
    omega

theorem stake_ok {moverProgramId : ProgramId} {moverInstructionData : InstructionData}
    {chainedCalls : List ChainedCall}
    (h : stake selfProgramId preStates sequencerKey amount moverProgramId moverInstructionData
      = some (postStates, chainedCalls)) :
    ∃ funding ownership config cfg expectedBalanceAfter entry data configData,
      preStates = [funding, ownership, config] ∧
      decodeConfig config selfProgramId = some cfg ∧
      checkedAdd ownership.account.balance amount = some expectedBalanceAfter ∧
      checkOwnership ownership.account selfProgramId sequencerKey = some () ∧
      bookStake cfg (ownership.account.programOwner ≠ defaultProgramOwner) ownership.accountId
        sequencerKey amount = some entry ∧
      Data.tryFrom (StakeRecord.mk sequencerKey none).toBytes = some data ∧
      Data.tryFrom (cfg.withEntry sequencerKey entry).toBytes = some configData ∧
      postStates =
        [ .new funding.account,
          .newClaimedIfDefault { ownership.account with data } .authorized,
          .new { config.account with data := configData } ] ∧
      ∃ claimed expected : AccountWithMetadata, expected.accountId = ownership.accountId ∧
        chainedCalls =
          [ { programId := moverProgramId
              preStates := [funding, claimed]
              instructionData := moverInstructionData
              pdaSeeds := [] },
            { programId := selfProgramId
              preStates := [expected]
              instructionData := toWords (Instruction.confirmStake expectedBalanceAfter)
              pdaSeeds := [] } ] := by
  unfold stake at h
  split at h
  · rename_i funding ownership config
    obtain ⟨-, h⟩ := require_bind_eq_some.mp h
    obtain ⟨cfg, hcfg, h⟩ := bind_eq_some_iff.mp h
    obtain ⟨expectedBalance, hexpected, h⟩ := bind_eq_some_iff.mp h
    obtain ⟨_, hclaimed, h⟩ := bind_eq_some_iff.mp h
    obtain ⟨entry, hentry, h⟩ := bind_eq_some_iff.mp h
    obtain ⟨data, hdata, h⟩ := bind_eq_some_iff.mp h
    obtain ⟨configData, hconfigData, h⟩ := bind_eq_some_iff.mp h
    obtain ⟨hposts, hcalls⟩ := Prod.mk.inj (some.inj h)
    refine ⟨funding, ownership, config, cfg, expectedBalance, entry, data, configData, rfl, hcfg,
      hexpected, hclaimed, hentry, hdata, hconfigData, hposts.symm, _, _, ?_, hcalls.symm⟩
    rfl
  · cases h

omit [Ed25519] [Sha256] [Serde Instruction] in
theorem confirmStake_ok {expectedBalanceAfter : U128}
    (h : confirmStake preStates expectedBalanceAfter = some postStates) :
    ∃ ownership, preStates = [ownership] ∧ ownership.account.balance = expectedBalanceAfter ∧
      postStates = [.new ownership.account] := by
  unfold confirmStake at h
  split at h
  · rename_i ownership
    obtain ⟨hbalance, h⟩ := require_bind_eq_some.mp h
    exact ⟨ownership, rfl, hbalance, (some.inj h).symm⟩
  · cases h

omit [Serde Instruction] in
theorem unstakeRequest_ok {destination : AccountId}
    (h : unstakeRequest selfProgramId preStates amount destination = some postStates) :
    ∃ ownership config sequencerKey cfg entry totalPendingUnstake data configData,
      preStates = [ownership, config] ∧
      ownership.account.programOwner = .ofProgramId selfProgramId ∧
      StakeRecord.fromBytes ownership.account.data.bytes = some ⟨sequencerKey, none⟩ ∧
      decodeConfig config selfProgramId = some cfg ∧
      cfg.entries.lookup sequencerKey = some entry ∧
      entry.accountId = ownership.accountId ∧
      entry.allowsUnstakeRequest amount cfg.minimumSequencerStake = true ∧
      checkedAdd entry.totalPendingUnstake amount = some totalPendingUnstake ∧
      Data.tryFrom (StakeRecord.mk sequencerKey (some ⟨amount, destination⟩)).toBytes = some data ∧
      Data.tryFrom (cfg.withEntry sequencerKey { entry with totalPendingUnstake }).toBytes
        = some configData ∧
      postStates =
        [ .new { ownership.account with data },
          .new { config.account with data := configData } ] := by
  unfold unstakeRequest at h
  split at h
  · rename_i ownership config
    obtain ⟨-, h⟩ := require_bind_eq_some.mp h
    obtain ⟨howner, h⟩ := require_bind_eq_some.mp h
    obtain ⟨⟨sequencerKey, pending⟩, hrecord, h⟩ := bind_eq_some_iff.mp h
    obtain ⟨hpending, h⟩ := require_bind_eq_some.mp h
    obtain rfl : pending = none := hpending
    obtain ⟨cfg, hcfg, h⟩ := bind_eq_some_iff.mp h
    obtain ⟨entry, hentry, h⟩ := bind_eq_some_iff.mp h
    obtain ⟨hid, h⟩ := require_bind_eq_some.mp h
    obtain ⟨hallows, h⟩ := require_bind_eq_some.mp h
    obtain ⟨total, htotal, h⟩ := bind_eq_some_iff.mp h
    obtain ⟨data, hdata, h⟩ := bind_eq_some_iff.mp h
    obtain ⟨configData, hconfigData, h⟩ := bind_eq_some_iff.mp h
    exact ⟨ownership, config, sequencerKey, cfg, entry, total, data, configData, rfl, howner,
      hrecord, hcfg, hentry, hid, hallows, htotal, hdata, hconfigData, (some.inj h).symm⟩
  · cases h

omit [Serde Instruction] in
/-- A release that goes through, step by step. -/
theorem finalizeUnstake_eq_some :
    finalizeUnstake selfProgramId preStates = some postStates ↔
      ∃ ownership destination config sequencerKey pending ownershipBalance data destinationBalance
          cfg entry totalStaked totalPendingUnstake configData,
        preStates = [ownership, destination, config] ∧
        ownership.account.programOwner = .ofProgramId selfProgramId ∧
        StakeRecord.fromBytes ownership.account.data.bytes = some ⟨sequencerKey, some pending⟩ ∧
        destination.accountId = pending.destination ∧
        checkedSub ownership.account.balance pending.amount = some ownershipBalance ∧
        Data.tryFrom (StakeRecord.mk sequencerKey none).toBytes = some data ∧
        checkedAdd destination.account.balance pending.amount = some destinationBalance ∧
        decodeConfig config selfProgramId = some cfg ∧
        cfg.entries.lookup sequencerKey = some entry ∧
        entry.accountId = ownership.accountId ∧
        checkedSub entry.totalStaked pending.amount = some totalStaked ∧
        checkedSub entry.totalPendingUnstake pending.amount = some totalPendingUnstake ∧
        Data.tryFrom
            (cfg.released sequencerKey { entry with totalStaked, totalPendingUnstake }).toBytes
          = some configData ∧
        postStates =
          [ .new { ownership.account with balance := ownershipBalance, data },
            .new { destination.account with balance := destinationBalance },
            .new { config.account with data := configData } ] := by
  constructor
  · intro h
    unfold finalizeUnstake at h
    split at h
    · rename_i ownership destination config
      obtain ⟨howner, h⟩ := require_bind_eq_some.mp h
      obtain ⟨⟨sequencerKey, pending?⟩, hrecord, h⟩ := bind_eq_some_iff.mp h
      obtain ⟨pending, hpending, h⟩ := bind_eq_some_iff.mp h
      obtain rfl : pending? = some pending := hpending
      obtain ⟨hdestination, h⟩ := require_bind_eq_some.mp h
      obtain ⟨ownershipBalance, howned, h⟩ := bind_eq_some_iff.mp h
      obtain ⟨data, hdata, h⟩ := bind_eq_some_iff.mp h
      obtain ⟨destinationBalance, hpaid, h⟩ := bind_eq_some_iff.mp h
      obtain ⟨cfg, hcfg, h⟩ := bind_eq_some_iff.mp h
      obtain ⟨entry, hentry, h⟩ := bind_eq_some_iff.mp h
      obtain ⟨hid, h⟩ := require_bind_eq_some.mp h
      obtain ⟨totalStaked, hstaked, h⟩ := bind_eq_some_iff.mp h
      obtain ⟨totalPending, htotal, h⟩ := bind_eq_some_iff.mp h
      obtain ⟨configData, hconfigData, h⟩ := bind_eq_some_iff.mp h
      exact ⟨ownership, destination, config, sequencerKey, pending, ownershipBalance, data,
        destinationBalance, cfg, entry, totalStaked, totalPending, configData, rfl, howner, hrecord,
        hdestination, howned, hdata, hpaid, hcfg, hentry, hid, hstaked, htotal, hconfigData,
        (some.inj h).symm⟩
    · cases h
  · rintro ⟨ownership, destination, config, sequencerKey, pending, ownershipBalance, data,
      destinationBalance, cfg, entry, totalStaked, totalPending, configData, rfl, howner, hrecord,
      hdestination, howned, hdata, hpaid, hcfg, hentry, hid, hstaked, htotal, hconfigData, rfl⟩
    unfold finalizeUnstake
    refine require_bind_eq_some.mpr ⟨howner, ?_⟩
    refine bind_eq_some_iff.mpr ⟨_, hrecord, ?_⟩
    refine bind_eq_some_iff.mpr ⟨pending, rfl, ?_⟩
    refine require_bind_eq_some.mpr ⟨hdestination, ?_⟩
    refine bind_eq_some_iff.mpr ⟨_, howned, ?_⟩
    refine bind_eq_some_iff.mpr ⟨_, hdata, ?_⟩
    refine bind_eq_some_iff.mpr ⟨_, hpaid, ?_⟩
    refine bind_eq_some_iff.mpr ⟨_, hcfg, ?_⟩
    refine bind_eq_some_iff.mpr ⟨_, hentry, ?_⟩
    refine require_bind_eq_some.mpr ⟨hid, ?_⟩
    refine bind_eq_some_iff.mpr ⟨_, hstaked, ?_⟩
    refine bind_eq_some_iff.mpr ⟨_, htotal, ?_⟩
    refine bind_eq_some_iff.mpr ⟨_, hconfigData, ?_⟩
    rfl

/-- **What a call of the program can be.**  Staking, asking for a release and the release come
from a message, the confirmation from the program itself. -/
theorem main_cases {words : InstructionData} {output : ProgramOutput}
    (h : main selfProgramId callerProgramId preStates words = some output) :
    output.preStates = preStates ∧
      ((∃ sequencerKey amount moverProgramId moverInstructionData, callerProgramId = none ∧
          fromWords words =
            some (Instruction.stake sequencerKey amount moverProgramId moverInstructionData) ∧
          stake selfProgramId preStates sequencerKey amount moverProgramId moverInstructionData
            = some (output.postStates, output.chainedCalls)) ∨
        (∃ expectedBalanceAfter, callerProgramId = some selfProgramId ∧
          fromWords words = some (Instruction.confirmStake expectedBalanceAfter) ∧
          confirmStake preStates expectedBalanceAfter = some output.postStates ∧
          output.chainedCalls = []) ∨
        (∃ amount destination, callerProgramId = none ∧
          fromWords words = some (Instruction.unstakeRequest amount destination) ∧
          unstakeRequest selfProgramId preStates amount destination = some output.postStates ∧
          output.chainedCalls = []) ∨
        (callerProgramId = none ∧
          fromWords words = some Instruction.finalizeUnstake ∧
          finalizeUnstake selfProgramId preStates = some output.postStates ∧
          output.chainedCalls = [])) := by
  obtain ⟨instruction, hwords, h⟩ := bind_eq_some_iff.mp h
  obtain ⟨⟨postStates, chainedCalls⟩, hrun, h⟩ := bind_eq_some_iff.mp h
  cases h
  refine ⟨rfl, ?_⟩
  cases instruction with
  | stake sequencerKey amount moverProgramId moverInstructionData =>
    obtain ⟨hcaller, hrun⟩ := require_bind_eq_some.mp hrun
    exact .inl ⟨_, _, _, _, hcaller, hwords, hrun⟩
  | confirmStake expectedBalanceAfter =>
    obtain ⟨hcaller, hrun⟩ := require_bind_eq_some.mp hrun
    obtain ⟨posts, hposts, hrun⟩ := bind_eq_some_iff.mp hrun
    cases hrun
    exact .inr (.inl ⟨_, hcaller, hwords, hposts, rfl⟩)
  | unstakeRequest amount destination =>
    obtain ⟨hcaller, hrun⟩ := require_bind_eq_some.mp hrun
    obtain ⟨posts, hposts, hrun⟩ := bind_eq_some_iff.mp hrun
    cases hrun
    exact .inr (.inr (.inl ⟨_, _, hcaller, hwords, hposts, rfl⟩))
  | finalizeUnstake =>
    obtain ⟨hcaller, hrun⟩ := require_bind_eq_some.mp hrun
    obtain ⟨posts, hposts, hrun⟩ := bind_eq_some_iff.mp hrun
    cases hrun
    exact .inr (.inr (.inr ⟨hcaller, hwords, hposts, rfl⟩))

/-- A release that goes through is what the program returns. -/
theorem main_finalizeUnstake {words : InstructionData} (hcaller : callerProgramId = none)
    (hwords : fromWords words = some Instruction.finalizeUnstake)
    (h : finalizeUnstake selfProgramId preStates = some postStates) :
    main selfProgramId callerProgramId preStates words
      = some (ProgramOutput.new selfProgramId callerProgramId words preStates postStates) := by
  refine bind_eq_some_iff.mpr ⟨Instruction.finalizeUnstake, hwords, ?_⟩
  refine bind_eq_some_iff.mpr ⟨(postStates, []), ?_, rfl⟩
  refine require_bind_eq_some.mpr ⟨hcaller, ?_⟩
  exact bind_eq_some_iff.mpr ⟨postStates, h, rfl⟩

end

end

end SequencerStake

end Lssa
