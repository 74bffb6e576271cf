/-
What the sequencer reads from the books of the stake program.

The committee that the books ask for, the releases that are pending, and the rule for
including one (`lez/sequencer/core/src/committee_discovery.rs`), with the transactions that
the sequencer makes of them (`lez/sequencer/core/src/lib.rs`).  The rule looks at public
transactions that call the program themselves; whatever else a transaction does passes.
-/
import Lssa.LeeTransaction
import Lssa.Programs.SequencerStake

namespace Lssa

/-- The id of the stake program (`programs::sequencer_stake().id()`). -/
class StakeBuiltin where
  sequencerStake : ProgramId

/-- `V03State::get_account_by_id_ref`. -/
def V03State.getAccountByIdRef (state : V03State) (accountId : AccountId) : Option Account :=
  state.publicState.lookup accountId

open SequencerStake

namespace CommitteeDiscovery

variable [Ed25519]

section

variable [Sha256] [StakeBuiltin]

/-- `system_accounts::sequencer_stake_config_account_id`. -/
def configAccountId : AccountId := sequencerStakeConfigAccountId StakeBuiltin.sequencerStake

/-- `read_config`. -/
def readConfig (state : V03State) : Option SequencerStakeConfig := do
  let account ← state.getAccountByIdRef configAccountId
  SequencerStakeConfig.fromBytes account.data.bytes

end

/-- `stake_record`. -/
def stakeRecord (state : V03State) (ownershipId : AccountId) : Option StakeRecord := do
  let account ← state.getAccountByIdRef ownershipId
  StakeRecord.fromBytes account.data.bytes

variable [Sha256] [StakeBuiltin]

/-- `committee_update`: the keys that the books ask for, unless they are the live ones. -/
def committeeUpdate (state : V03State) (liveAccreditedKeys : List SequencerKey) :
    Option (List SequencerKey) := do
  let config ← readConfig state
  let desired := ((config.entries.entries.filter fun entry =>
    config.minimumSequencerStake ≤ entry.2.netStake).map Prod.fst).mergeSort
  if desired = [] then none
  else
    let live := liveAccreditedKeys.mergeSort
    if desired ≠ live then some desired else none

/-- `finalize_unstake_candidates`. -/
def finalizeUnstakeCandidates (state : V03State) : List (AccountId × PendingUnstake) :=
  match readConfig state with
  | none => []
  | some config => config.entries.entries.filterMap fun entry => do
    let record ← stakeRecord state entry.2.accountId
    let pending ← record.pendingUnstake
    pure (entry.2.accountId, pending)

/-- `finalize_unstake_is_valid`: a key that is accredited keeps some stake. -/
def finalizeUnstakeIsValid (state : V03State) (ownershipId : AccountId)
    (liveAccreditedKeys : List SequencerKey) : Bool :=
  match stakeRecord state ownershipId with
  | none => true
  | some record =>
    match record.pendingUnstake with
    | none => true
    | some pending =>
      match (readConfig state).bind fun config => config.entries.lookup record.sequencerKey with
      | none => true
      | some entry =>
        let fullyDrains := decide (entry.totalStaked = pending.amount)
        !fullyDrains || !decide (record.sequencerKey ∈ liveAccreditedKeys)

variable [Serde Instruction]

/-- `finalize_unstake_ownership_account`. -/
def finalizeUnstakeOwnershipAccount : LeeTransaction → Option AccountId
  | .publicTx tx =>
    if tx.message.programId ≠ StakeBuiltin.sequencerStake then none
    else
      match fromWords tx.message.instructionData with
      | some Instruction.finalizeUnstake => tx.message.accountIds.head?
      | _ => none
  | _ => none

/-- `finalize_unstake_is_includable`. -/
def finalizeUnstakeIsIncludable (state : V03State) (tx : LeeTransaction)
    (liveAccreditedKeys : Option (List SequencerKey)) : Bool :=
  match finalizeUnstakeOwnershipAccount tx with
  | none => true
  | some ownershipId =>
    liveAccreditedKeys.any fun liveAccreditedKeys =>
      finalizeUnstakeIsValid state ownershipId liveAccreditedKeys

/-- `build_finalize_unstake_tx`, unsigned. -/
def buildFinalizeUnstakeTx (ownershipId : AccountId) (pending : PendingUnstake) :
    PublicTransaction where
  message :=
    { programId := StakeBuiltin.sequencerStake
      accountIds := [ownershipId, pending.destination, configAccountId]
      nonces := []
      instructionData := toWords Instruction.finalizeUnstake }
  witnessSet := ⟨[]⟩

/-- `build_finalize_unstake_txs`. -/
def buildFinalizeUnstakeTxs (state : V03State) : List LeeTransaction :=
  (finalizeUnstakeCandidates state).map fun candidate =>
    .publicTx (buildFinalizeUnstakeTx candidate.1 candidate.2)

end CommitteeDiscovery

end Lssa
