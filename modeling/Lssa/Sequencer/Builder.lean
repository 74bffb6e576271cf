/-
How a sequencer builds a block (`build_block_from_mempool`, `lez/sequencer/core/src/lib.rs`).

The block is built on the head of the chain.  First come the transactions that the sequencer
makes from what its store and the head state hold: mints for deposits that have no receipt
yet, deliveries that no block has carried yet, and releases of stake.  Then comes the mempool.
A transaction that does not fit ends the block, one that fails is left out, and a release
that is not due is left out unseen.  The clock invocation is last.

Records of the store are read as they are; which of them are settled, and which deliveries
failed, is reported to the store and is part of the outcome (`BuildOutcome`).  The time is an
argument.

* `drain_ok` — what the loop includes is a sublist of what it drains, accepted in order;
* `BuiltFrom.applyBlock_eq` — the block leads to the same state when it is applied, unless it
  is a genesis block with a transaction that is not public;
* **`built_block_replays`** — both together, for every block that is built;
* **`mempool_drains`** — which transactions cannot block the mempool.
-/
import Lssa.Programs.Bridge
import Lssa.Programs.CrossZoneInbox
import Lssa.Programs.Vault
import Lssa.Sequencer.CommitteeDiscovery
import Lssa.Sequencer.Events

open Borsh Outcome Runs

namespace Lssa

open CommitteeDiscovery
open LeeTransaction (TransactionBorsh)
open CrossZoneInbox (CrossZoneMessage SeenShard)
open SequencerStake (SequencerKey)

/-- The id of the vault program (`programs::vault().id()`). -/
class VaultBuiltin where
  vault : ProgramId

inductive TransactionOrigin
  | user
  | sequencer
  | gossip
  deriving DecidableEq

/-- A deposit on the layer below, as far as its mint needs it. -/
structure PendingDepositEventRecord where
  depositOpId : HashType
  amount : U64
  metadata : List UInt8

/-- A delivery that the watcher of a peer zone recorded. -/
structure PendingCrossZoneDispatchRecord where
  messageKey : Bytes 32
  transaction : List UInt8

/-- A note that the layer below pays out.  The key is the number that the source hands to
the key type of that layer. -/
structure WithdrawArg where
  amount : U64
  recipientPk : ℕ
  deriving DecidableEq

/-- The limits of a block. -/
structure SequencerConfig where
  maxBlockSize : ℕ
  maxNumTxInBlock : ℕ

/-- A sequencer, as far as it builds blocks. -/
structure SequencerCore where
  chain : ChainState
  pendingDepositEvents : List PendingDepositEventRecord
  pendingCrossZoneDispatches : List PendingCrossZoneDispatchRecord
  mempool : List (TransactionOrigin × LeeTransaction)
  sequencerConfig : SequencerConfig

/-- `MAX_DISPATCHES_PER_BLOCK`. -/
def maxDispatchesPerBlock : ℕ := 16

/-! ### What the store and the head state ask for -/

section

variable [Sha256] [Builtins]

/-- `deposit_already_minted`. -/
def depositAlreadyMinted (state : V03State) (depositOpId : HashType) : Bool :=
  (state.getAccountByIdRef (Bridge.depositReceiptAccountId Builtins.bridge depositOpId)).any
    fun receipt => decide (receipt ≠ .default)

/-- `build_bridge_deposit_tx_from_event`; the metadata is the id of the recipient. -/
def buildBridgeDepositTxFromEvent [VaultBuiltin] [Serde Bridge.Instruction]
    (event : PendingDepositEventRecord) : Option LeeTransaction :=
  ((Codec.bytes 32).fromSlice event.metadata).map fun recipient =>
    .publicTx
      { message :=
          { programId := Builtins.bridge
            accountIds :=
              [ bridgeAccountId,
                Vault.computeVaultAccountId VaultBuiltin.vault ⟨recipient⟩,
                Bridge.depositReceiptAccountId Builtins.bridge event.depositOpId ]
            nonces := []
            instructionData := toWords (Bridge.Instruction.deposit event.depositOpId
              VaultBuiltin.vault ⟨recipient⟩ event.amount) }
        witnessSet := ⟨[]⟩ }

/-- `extract_bridge_withdraw_data`. -/
def extractBridgeWithdrawData [Serde Bridge.Instruction] : LeeTransaction → Option WithdrawArg
  | .publicTx tx =>
    if tx.message.programId ≠ Builtins.bridge then none
    else
      match fromWords tx.message.instructionData with
      | some (Bridge.Instruction.withdraw amount bedrockAccountPk) =>
        some ⟨amount, ofLeBytes bedrockAccountPk.toList⟩
      | _ => none
  | _ => none

/-- `extract_cross_zone_dispatch`. -/
def extractCrossZoneDispatch [Serde CrossZoneInbox.Instruction] :
    LeeTransaction → Option CrossZoneMessage
  | .publicTx tx =>
    if tx.message.programId ≠ Builtins.crossZoneInbox then none
    else
      match fromWords tx.message.instructionData with
      | some (CrossZoneInbox.Instruction.dispatch msg) => some msg
      | _ => none
  | _ => none

/-- `dispatch_already_delivered`. -/
def dispatchAlreadyDelivered (state : V03State) (message : CrossZoneMessage) : Bool :=
  (state.getAccountByIdRef (CrossZoneInbox.inboxSeenShardAccountId Builtins.crossZoneInbox
    message.srcZone message.srcBlockId)).any fun shard =>
      (SeenShard.fromBytes shard.data.bytes).any fun seen =>
        seen.binds message.srcBlockHash && seen.contains message.srcTxIndex

/-- The deliveries of a block, and the records that are not needed any more. -/
structure DispatchQueue where
  pending : List LeeTransaction
  settled : List (Bytes 32)

namespace DispatchQueue

def pushBack (queue : DispatchQueue) (tx : LeeTransaction) : DispatchQueue :=
  if maxDispatchesPerBlock ≤ queue.pending.length then queue
  else { queue with pending := queue.pending ++ [tx] }

/-- A record that decoded: it is settled, or carried by a block of the head, or due. -/
def classify (chain : ChainState) (queue : DispatchQueue)
    (entry : Bytes 32 × Option CrossZoneMessage × LeeTransaction) : DispatchQueue :=
  let (key, message, tx) := entry
  match message with
  | some message =>
    if dispatchAlreadyDelivered chain.finalState message then
      { queue with settled := queue.settled ++ [key] }
    else if dispatchAlreadyDelivered chain.headState message then queue
    else queue.pushBack tx
  | none => queue.pushBack tx

end DispatchQueue

namespace SequencerCore

variable [TransactionBorsh] [Serde CrossZoneInbox.Instruction]

/-- The dispatches that decode. -/
def recordedDispatches (core : SequencerCore) :
    List (Bytes 32 × Option CrossZoneMessage × LeeTransaction) :=
  core.pendingCrossZoneDispatches.filterMap fun record =>
    (TransactionBorsh.fromSlice record.transaction).toOption.map fun tx =>
      (record.messageKey, extractCrossZoneDispatch tx, tx)

/-- The keys of the records that do not decode. -/
def undecodable (core : SequencerCore) : List (Bytes 32) :=
  (core.pendingCrossZoneDispatches.filter fun record =>
    (TransactionBorsh.fromSlice record.transaction).toOption.isNone).map
      PendingCrossZoneDispatchRecord.messageKey

def dispatchQueue (core : SequencerCore) : DispatchQueue :=
  core.recordedDispatches.foldl (DispatchQueue.classify core.chain) ⟨[], core.undecodable⟩

/-- The mints of the deposits that have no receipt. -/
def pendingDeposits [VaultBuiltin] [Serde Bridge.Instruction] (core : SequencerCore) :
    List LeeTransaction :=
  (core.pendingDepositEvents.filter fun record =>
    !depositAlreadyMinted core.chain.headState record.depositOpId).filterMap
      buildBridgeDepositTxFromEvent

end SequencerCore

end

/-! ### The loop -/

/-- A transaction that the loop drains: where it is from, and whether the store has a record
behind it. -/
structure Drained where
  origin : TransactionOrigin
  tx : LeeTransaction
  fromStore : Bool
  deriving DecidableEq

/-- What the header of the next block is made of. -/
structure BlockSlot where
  blockHeight : BlockId
  prevBlockHash : HashType
  timestamp : Timestamp

def BlockSlot.hashableData (slot : BlockSlot) (transactions : List LeeTransaction) :
    HashableBlockData where
  blockId := slot.blockHeight
  prevBlockHash := slot.prevBlockHash
  timestamp := slot.timestamp
  transactions := transactions

/-- How no block is built: three panics (`block id should not overflow`, `Sequencer may only
generate Public transactions`, a diff that does not apply), and a clock that fails. -/
inductive BuildError
  | blockIdOverflow
  | nonPublicSequencerTransaction (tx : LeeTransaction)
  | applyStateDiff
  | clockTransactionFailed (error : LeeError)
  deriving DecidableEq

/-- The block under construction. -/
structure Building where
  workingState : V03State
  validTransactions : List LeeTransaction
  withdrawals : List WithdrawArg
  dispatchFailures : List CrossZoneMessage

/-- How a round of the loop ends: the loop goes on, the block has all the transactions it may
have, or this one is left for the next block. -/
inductive RoundEnd
  | goOn (building : Building)
  | full (building : Building)
  | deferred

section

variable [Sha256] [Schnorr] [Builtins] [Receipts] [ImageId] [ClockBuiltin] [Serde Timestamp]
variable [Ed25519] [StakeBuiltin] [Serde SequencerStake.Instruction] [Serde Bridge.Instruction]
variable [Serde CrossZoneInbox.Instruction]

/-- `count_dispatch_failure`, up to the store. -/
def Building.countDispatchFailure (building : Building) (tx : LeeTransaction) : Building :=
  { building with
    dispatchFailures := building.dispatchFailures ++ (extractCrossZoneDispatch tx).toList }

/-- `apply_mempool_transaction` for a transaction of a user or a peer: the full check, and the
withdrawal that it asks for. -/
def applyUntrusted (exec : Executor) (state : V03State) (tx : LeeTransaction)
    (blockHeight : BlockId) (timestamp : Timestamp) (withdrawals : List WithdrawArg) :
    Except BuildError (Option (V03State × List WithdrawArg)) :=
  match tx.validateOnState exec state blockHeight timestamp with
  | .error _ => .ok none
  | .ok diff =>
    match state.applyStateDiff diff with
    | none => .error .applyStateDiff
    | some state' => .ok (some (state', withdrawals ++ (extractBridgeWithdrawData tx).toList))

/-- `apply_mempool_transaction` for a transaction of the sequencer, which must be public. -/
def applyOwn (exec : Executor) (state : V03State) (tx : LeeTransaction) (blockHeight : BlockId)
    (timestamp : Timestamp) (withdrawals : List WithdrawArg) :
    Except BuildError (Option (V03State × List WithdrawArg)) :=
  match tx with
  | .publicTx publicTx =>
    match transitionFromPublicTransaction exec state publicTx blockHeight timestamp with
    | .ok state' => .ok (some (state', withdrawals))
    | .error (.rejected _) => .ok none
    | .error .panicked => .error .applyStateDiff
  | _ => .error (.nonPublicSequencerTransaction tx)

/-- `apply_mempool_transaction`: the state after it and the withdrawals, `none` if the
transaction is skipped. -/
def applyMempoolTransaction (exec : Executor) (state : V03State) (origin : TransactionOrigin)
    (tx : LeeTransaction) (blockHeight : BlockId) (timestamp : Timestamp)
    (withdrawals : List WithdrawArg) :
    Except BuildError (Option (V03State × List WithdrawArg)) :=
  match origin with
  | .user | .gossip => applyUntrusted exec state tx blockHeight timestamp withdrawals
  | .sequencer => applyOwn exec state tx blockHeight timestamp withdrawals

/-- The size of a block with these transactions and the clock invocation. -/
def BlockSlot.sizeWith (slot : BlockSlot) (transactions : List LeeTransaction) : ℕ :=
  (slot.hashableData (transactions ++ [.publicTx (clockInvocation slot.timestamp)])).toBytes.length

/-- `fits_in_an_empty_block`. -/
def BlockSlot.fitsInAnEmptyBlock (slot : BlockSlot) (config : SequencerConfig)
    (tx : LeeTransaction) : Bool :=
  decide (slot.sizeWith [tx] ≤ config.maxBlockSize)

/-- The block after a transaction that was applied or skipped. -/
def Building.afterApply (building : Building) (tx : LeeTransaction) :
    Option (V03State × List WithdrawArg) → Building
  | some (workingState, withdrawals) =>
    { building with
      workingState, withdrawals
      validTransactions := building.validTransactions ++ [tx] }
  | none => building.countDispatchFailure tx

/-- A round of the loop. -/
def drainRound (exec : Executor) (config : SequencerConfig) (slot : BlockSlot)
    (liveAccreditedKeys : Option (List SequencerKey)) (building : Building) (entry : Drained) :
    Except BuildError RoundEnd :=
  if config.maxBlockSize < slot.sizeWith (building.validTransactions ++ [entry.tx]) then
    if entry.fromStore && !slot.fitsInAnEmptyBlock config entry.tx then
      .ok (.goOn (building.countDispatchFailure entry.tx))
    else .ok .deferred
  else if !finalizeUnstakeIsIncludable building.workingState entry.tx liveAccreditedKeys then
    .ok (.goOn building)
  else do
    let applied ← applyMempoolTransaction exec building.workingState entry.origin entry.tx
      slot.blockHeight slot.timestamp building.withdrawals
    let building := building.afterApply entry.tx applied
    if config.maxNumTxInBlock ≤ building.validTransactions.length then .ok (.full building)
    else .ok (.goOn building)

/-- The loop: the block, and what of the queue was not drained. -/
def drain (exec : Executor) (config : SequencerConfig) (slot : BlockSlot)
    (liveAccreditedKeys : Option (List SequencerKey)) :
    Building → List Drained → Except BuildError (Building × List Drained)
  | building, [] => .ok (building, [])
  | building, entry :: rest => do
    match ← drainRound exec config slot liveAccreditedKeys building entry with
    | .goOn building => drain exec config slot liveAccreditedKeys building rest
    | .full building => .ok (building, rest)
    | .deferred => .ok (building, entry :: rest)

/-! ### The block -/

structure BlockWithMeta where
  block : Block
  withdrawals : List WithdrawArg
  committeeUpdate : Option (List SequencerKey)

/-- A block with the state after it, and what the build leaves: the mempool, the records of
deliveries that are settled, and the deliveries that failed. -/
structure BuildOutcome where
  built : BlockWithMeta
  workingState : V03State
  mempool : List (TransactionOrigin × LeeTransaction)
  settled : List (Bytes 32)
  dispatchFailures : List CrossZoneMessage

/-- The height and the parent of the next block. -/
def BlockSlot.after (tip : Option Tip) (timestamp : Timestamp) : Except BuildError BlockSlot :=
  match tip with
  | none => .ok ⟨genesisBlockId, .replicate 32 0, timestamp⟩
  | some head =>
    match checkedSucc head.blockId with
    | none => .error .blockIdOverflow
    | some blockHeight => .ok ⟨blockHeight, head.hash, timestamp⟩

/-- The clock invocation that ends the block. -/
def BlockSlot.tick (exec : Executor) (slot : BlockSlot) (state : V03State) :
    Except BuildError V03State :=
  match transitionFromPublicTransaction exec state (clockInvocation slot.timestamp)
    slot.blockHeight slot.timestamp with
  | .ok state' => .ok state'
  | .error (.rejected error) => .error (.clockTransactionFailed error)
  | .error .panicked => .error .applyStateDiff

namespace SequencerCore

variable [TransactionBorsh] [VaultBuiltin]

/-- Everything that a build may drain, in order. -/
def queue (core : SequencerCore) : List Drained :=
  (core.pendingDeposits ++ core.dispatchQueue.pending ++
      buildFinalizeUnstakeTxs core.chain.headState).map (⟨.sequencer, ·, true⟩) ++
    core.mempool.map fun (origin, tx) => ⟨origin, tx, false⟩

/-- `build_block_from_mempool`, with the signing key as a function and the time of the clock. -/
def buildBlockFromMempool (exec : Executor) (core : SequencerCore) (sign : HashType → Signature)
    (timestamp : Timestamp) (liveAccreditedKeys : Option (List SequencerKey)) :
    Except BuildError BuildOutcome := do
  let slot ← BlockSlot.after core.chain.headTip timestamp
  let (building, rest) ← drain exec core.sequencerConfig slot liveAccreditedKeys
    ⟨core.chain.headState, [], [], []⟩ core.queue
  let workingState ← slot.tick exec building.workingState
  pure
    { built :=
        { block := (slot.hashableData (building.validTransactions ++
            [.publicTx (clockInvocation slot.timestamp)])).intoPendingBlock sign
          withdrawals := building.withdrawals
          committeeUpdate := liveAccreditedKeys.bind (committeeUpdate workingState) }
      workingState
      mempool := (rest.filter fun entry => !entry.fromStore).map fun entry =>
        (entry.origin, entry.tx)
      settled := core.dispatchQueue.settled
      dispatchFailures := building.dispatchFailures }

end SequencerCore

end

section

variable {exec : Executor} {slot : BlockSlot} {block : Block} {state state' : V03State}
  {tip : Option Tip} {timestamp : Timestamp} {tx : LeeTransaction} {blockHeight : BlockId}
  {withdrawals withdrawals' : List WithdrawArg}

/-! ### The slot of the next block -/

/-- The slot after a tip is the one that the tip asks for. -/
theorem BlockSlot.after_ok (h : BlockSlot.after tip timestamp = .ok slot) :
    slot.blockHeight.val = height tip + 1 ∧ slot.timestamp = timestamp ∧
      ∀ parent ∈ tip, slot.prevBlockHash = parent.hash := by
  unfold BlockSlot.after at h
  cases tip with
  | none =>
    cases h
    exact ⟨rfl, rfl, fun parent hparent => absurd hparent (by simp)⟩
  | some head =>
    dsimp only at h
    split at h
    · cases h
    · rename_i hnext
      cases h
      refine ⟨checkedSucc_eq_some.mp hnext, rfl, ?_⟩
      rintro parent hparent
      obtain rfl : head = parent := some.inj hparent
      rfl

variable [Sha256]

/-- Only on a cold head the next block is a genesis block. -/
theorem Continues.genesis_iff (h : Continues tip block) :
    block.header.blockId = genesisBlockId ↔ height tip = 0 := by
  have hid := h.blockId
  rw [Fin.ext_iff]
  show block.header.blockId.val = 1 ↔ _
  omega

/-! ### Replay of a transaction -/

variable [Schnorr] [Builtins] [Receipts] [ImageId]

def LeeTransaction.isPublic : LeeTransaction → Bool
  | .publicTx _ => true
  | _ => false

/-- Replay executes a transaction as the builder did, except that a genesis block must be
public. -/
theorem applyUserTransaction_eq
    (h : tx.executeOnState exec state block.header.blockId block.header.timestamp = .ok state')
    (n : ℕ) :
    applyUserTransaction exec block state (tx, n) =
      if block.header.blockId = genesisBlockId ∧ tx.isPublic = false then
        .error (.rejected .nonPublicGenesisTransaction)
      else .ok state' := by
  unfold applyUserTransaction
  by_cases hgenesis : block.header.blockId = genesisBlockId
  · cases tx with
    | publicTx publicTx =>
      have htx : transitionFromPublicTransaction exec state publicTx block.header.blockId
          block.header.timestamp = .ok state' := h
      simp only [hgenesis, if_true, LeeTransaction.isPublic, Bool.true_eq_false, and_false,
        if_false]
      rw [← hgenesis, htx]
      rfl
    | privacyPreserving _ | programDeployment _ => simp [hgenesis, LeeTransaction.isPublic]
  · simp only [hgenesis, if_false, false_and]
    rw [h]
    rfl

theorem executeOnState_of_applyOwn
    (h : applyOwn exec state tx blockHeight timestamp withdrawals
      = .ok (some (state', withdrawals'))) :
    tx.executeOnState exec state blockHeight timestamp = .ok state' := by
  unfold applyOwn at h
  split at h
  · rename_i publicTx
    split at h
    · rename_i hnext
      obtain ⟨rfl, -⟩ := Prod.mk.inj (some.inj (ok.inj h))
      exact hnext
    · cases h
    · cases h
  · cases h

variable [Serde Bridge.Instruction]

theorem executeOnState_of_applyUntrusted
    (h : applyUntrusted exec state tx blockHeight timestamp withdrawals
      = .ok (some (state', withdrawals'))) :
    tx.executeOnState exec state blockHeight timestamp = .ok state' := by
  unfold applyUntrusted at h
  split at h
  · cases h
  · rename_i diff hdiff
    split at h
    · cases h
    · rename_i next hnext
      obtain ⟨rfl, -⟩ := Prod.mk.inj (some.inj (ok.inj h))
      have hcheck : tx.executeCheckOnState exec state blockHeight timestamp = .ok next := by
        rw [LeeTransaction.executeCheckOnState, hdiff]
        simp only [V03State.apply, hnext]
      -- The check hands on the diff that it was given.
      obtain ⟨diff', hcompute, happly⟩ := LeeTransaction.executeCheckOnState_ok hcheck
      rw [LeeTransaction.executeOnState, hcompute]
      simp only [V03State.apply, happly]

/-- Whatever its origin, a transaction that is applied executes with the same result. -/
theorem executeOnState_of_applyMempoolTransaction {origin : TransactionOrigin}
    (h : applyMempoolTransaction exec state origin tx blockHeight timestamp withdrawals
      = .ok (some (state', withdrawals'))) :
    tx.executeOnState exec state blockHeight timestamp = .ok state' := by
  cases origin with
  | user | gossip => exact executeOnState_of_applyUntrusted h
  | sequencer => exact executeOnState_of_applyOwn h

end

/-! ### What a block costs -/

section

variable [ClockBuiltin] [Serde Timestamp]
  (hserde : ∀ timestamp : Timestamp, (toWords timestamp).length = 2)
include hserde

theorem length_clockInvocation (timestamp : Timestamp) :
    (LeeTransaction.publicTx (clockInvocation timestamp)).toVec.length = 153 := by
  have hids : (borshVec (fun accountId : AccountId => accountId.value.toList)
      clockAccountIds).length = 4 + 3 * 32 :=
    length_borshVec (fun _ => List.Vector.toList_length _) _
  have hwords : (borshVec (fun word => leBytes 4 word.toNat)
      (toWords timestamp)).length = 4 + 2 * 4 := by
    rw [length_borshVec (fun _ => length_leBytes 4 _), hserde]
  simp only [LeeTransaction.toVec, PublicTransaction.Message.toBytes, clockInvocation,
    length_cons, length_append, List.Vector.toList_length, hids, hwords]
  rfl

/-- A block for one transaction takes 205 bytes more than the transaction. -/
theorem BlockSlot.sizeWith_singleton (slot : BlockSlot) (tx : LeeTransaction) :
    slot.sizeWith [tx] = tx.toVec.length + 205 := by
  have hclock := length_clockInvocation hserde slot.timestamp
  simp [BlockSlot.sizeWith, BlockSlot.hashableData, HashableBlockData.toBytes, borshVec, hclock]
  omega

end

section

variable [Sha256] [Schnorr] [Builtins] [Receipts] [ImageId] [ClockBuiltin] [Serde Timestamp]
variable [Ed25519] [StakeBuiltin] [Serde SequencerStake.Instruction] [Serde Bridge.Instruction]
variable [Serde CrossZoneInbox.Instruction]

/-! ### What the loop includes -/

/-- The transaction is included at a state: if it is a release it is due, and it applies. -/
structure Includes (exec : Executor) (blockHeight : BlockId) (timestamp : Timestamp)
    (liveAccreditedKeys : Option (List SequencerKey)) (entry : Drained)
    (state state' : V03State) : Prop where
  includable : finalizeUnstakeIsIncludable state entry.tx liveAccreditedKeys = true
  applied : ∃ withdrawals withdrawals', applyMempoolTransaction exec state entry.origin entry.tx
    blockHeight timestamp withdrawals = .ok (some (state', withdrawals'))

/-- What a round does to the block: nothing, or it includes the transaction. -/
inductive Progress (exec : Executor) (slot : BlockSlot)
    (liveAccreditedKeys : Option (List SequencerKey)) (entry : Drained)
    (building building' : Building) : Prop
  | skipped (state : building'.workingState = building.workingState)
      (transactions : building'.validTransactions = building.validTransactions)
  | included (includes : Includes exec slot.blockHeight slot.timestamp liveAccreditedKeys entry
        building.workingState building'.workingState)
      (transactions : building'.validTransactions = building.validTransactions ++ [entry.tx])

variable {exec : Executor} {config : SequencerConfig} {slot : BlockSlot}
variable {liveAccreditedKeys : Option (List SequencerKey)}

variable {building : Building} {block : Block} {state state' : V03State} {included : List Drained}
  {tip : Option Tip} {timestamp : Timestamp}

theorem drainRound_ok {entry : Drained} {round : RoundEnd}
    (h : drainRound exec config slot liveAccreditedKeys building entry = .ok round) :
    round = .deferred ∨ ∃ building', (round = .goOn building' ∨ round = .full building') ∧
      Progress exec slot liveAccreditedKeys entry building building' := by
  unfold drainRound at h
  split at h
  · split at h
    · exact .inr ⟨_, .inl (ok.inj h).symm, .skipped rfl rfl⟩
    · exact .inl (ok.inj h).symm
  · split at h
    · exact .inr ⟨_, .inl (ok.inj h).symm, .skipped rfl rfl⟩
    · rename_i hgate
      obtain ⟨applied, happly, h⟩ := bind_eq_ok.mp h
      have hprogress : Progress exec slot liveAccreditedKeys entry building
          (building.afterApply entry.tx applied) := by
        cases applied with
        | none => exact .skipped rfl rfl
        | some result => exact .included ⟨by simpa using hgate, _, _, happly⟩ rfl
      dsimp only at h
      split at h
      · exact .inr ⟨_, .inr (ok.inj h).symm, hprogress⟩
      · exact .inr ⟨_, .inl (ok.inj h).symm, hprogress⟩

/-- **What the loop includes**: a sublist of what it drains, each transaction accepted at the
state that the ones before it lead to. -/
theorem drain_ok {building' : Building} {queue rest : List Drained}
    (h : drain exec config slot liveAccreditedKeys building queue = .ok (building', rest)) :
    ∃ included, included.Sublist queue ∧
      Run (Includes exec slot.blockHeight slot.timestamp liveAccreditedKeys)
        building.workingState included building'.workingState ∧
      building'.validTransactions = building.validTransactions ++ included.map Drained.tx := by
  have hnothing : ∀ (queue : List Drained) (building : Building),
      ∃ included : List Drained, included.Sublist queue ∧
        Run (Includes exec slot.blockHeight slot.timestamp liveAccreditedKeys)
          building.workingState included building.workingState ∧
        building.validTransactions = building.validTransactions ++ included.map Drained.tx :=
    fun queue building => ⟨[], List.nil_sublist _, .nil _, (append_nil _).symm⟩
  induction queue generalizing building with
  | nil =>
    obtain ⟨rfl, -⟩ := Prod.mk.inj (ok.inj h)
    exact hnothing _ _
  | cons entry queue ih =>
    obtain ⟨round, hround, h⟩ := bind_eq_ok.mp h
    obtain rfl | ⟨next, hround, hprogress⟩ := drainRound_ok hround
    · obtain ⟨rfl, -⟩ := Prod.mk.inj (ok.inj h)
      exact hnothing _ _
    · -- The rest of the block, from where this round leaves it.
      have hrest : ∃ included, included.Sublist queue ∧
          Run (Includes exec slot.blockHeight slot.timestamp liveAccreditedKeys)
            next.workingState included building'.workingState ∧
          building'.validTransactions = next.validTransactions ++ included.map Drained.tx := by
        rcases hround with rfl | rfl
        · exact ih h
        · obtain ⟨rfl, -⟩ := Prod.mk.inj (ok.inj h)
          exact hnothing _ _
      obtain ⟨included, hsub, hrun, htxs⟩ := hrest
      cases hprogress with
      | skipped hstate hsame =>
        refine ⟨included, hsub.cons entry, ?_, ?_⟩
        · rw [← hstate]
          exact hrun
        · rw [htxs, hsame]
      | included hincludes hmore =>
        refine ⟨entry :: included, hsub.cons_cons entry, .cons hincludes hrun, ?_⟩
        rw [htxs, hmore, map_cons, append_assoc]
        rfl

variable {building' : Building} {queue rest : List Drained}

/-! ### What the loop leaves -/

/-- Alone in its block, a transaction of the mempool is put off if and only if it has not left
205 bytes of the block. -/
theorem drainRound_ne_deferred_iff
    (hserde : ∀ timestamp : Timestamp, (toWords timestamp).length = 2) {entry : Drained}
    (hmempool : entry.fromStore = false)
    (hempty : building.validTransactions = []) :
    drainRound exec config slot liveAccreditedKeys building entry ≠ .ok .deferred ↔
      entry.tx.toVec.length + 205 ≤ config.maxBlockSize := by
  have hsize := slot.sizeWith_singleton hserde entry.tx
  unfold drainRound
  rw [hempty, List.nil_append, hsize, hmempool]
  split
  · rename_i hlarge
    exact iff_of_false (by simp) (by omega)
  · rename_i hfits
    refine iff_of_true ?_ (by omega)
    split
    · simp
    · intro h
      obtain ⟨applied, -, h⟩ := bind_eq_ok.mp h
      dsimp only at h
      split at h <;> cases h

/-- What the loop leaves is an end of what it drains. -/
theorem drain_suffix
    (h : drain exec config slot liveAccreditedKeys building queue = .ok (building', rest)) :
    rest <:+ queue := by
  induction queue generalizing building with
  | nil =>
    obtain ⟨-, rfl⟩ := Prod.mk.inj (ok.inj h)
    exact List.suffix_rfl
  | cons entry queue ih =>
    obtain ⟨round, -, h⟩ := bind_eq_ok.mp h
    cases round with
    | goOn next => exact (ih h).trans (List.suffix_cons entry queue)
    | full next =>
      obtain ⟨-, rfl⟩ := Prod.mk.inj (ok.inj h)
      exact List.suffix_cons entry queue
    | deferred =>
      obtain ⟨-, rfl⟩ := Prod.mk.inj (ok.inj h)
      exact List.suffix_rfl

theorem drain_suffix_tail
    (hfirst : ∀ entry ∈ queue.head?,
      drainRound exec config slot liveAccreditedKeys building entry ≠ .ok .deferred)
    (h : drain exec config slot liveAccreditedKeys building queue = .ok (building', rest)) :
    rest <:+ queue.tail := by
  cases queue with
  | nil => exact drain_suffix h
  | cons entry queue =>
    obtain ⟨round, hround, h⟩ := bind_eq_ok.mp h
    cases round with
    | goOn next => exact drain_suffix h
    | full next =>
      obtain ⟨-, rfl⟩ := Prod.mk.inj (ok.inj h)
      exact List.suffix_rfl
    | deferred => exact absurd hround (hfirst entry rfl)

/-! ### Replay -/

omit [ClockBuiltin] [Serde Timestamp] [Serde CrossZoneInbox.Instruction] in
/-- **Replay of what the loop includes**: it leads to the same state, unless the block is a
genesis block and one of the transactions is not public. -/
theorem foldlM_applyUserTransaction_eq
    (h : Run (Includes exec block.header.blockId block.header.timestamp liveAccreditedKeys) state
      included state') (n : ℕ) :
    ((included.map Drained.tx).zipIdx n).foldlM (applyUserTransaction exec block) state =
      if block.header.blockId = genesisBlockId ∧ ∃ entry ∈ included, entry.tx.isPublic = false then
        .error (.rejected .nonPublicGenesisTransaction)
      else .ok state' := by
  induction h generalizing n with
  | nil state => rw [if_neg (by simp)]; rfl
  | @cons entry included state next state' hincludes _ ih =>
    obtain ⟨withdrawals, withdrawals', happlied⟩ := hincludes.applied
    have hexec := executeOnState_of_applyMempoolTransaction happlied
    rw [map_cons, zipIdx_cons, foldlM_cons, applyUserTransaction_eq hexec]
    by_cases hstop : block.header.blockId = genesisBlockId ∧ entry.tx.isPublic = false
    · rw [if_pos hstop, if_pos ⟨hstop.1, entry, mem_cons_self, hstop.2⟩]
      rfl
    · -- This one executes, so only a later one can stop the replay.
      rw [if_neg hstop]
      show List.foldlM _ next _ = _
      rw [ih (n + 1)]
      refine if_congr ?_ rfl rfl
      refine and_congr_right fun hgenesis => ?_
      rw [List.exists_mem_cons_iff, or_iff_right fun hprivate => hstop ⟨hgenesis, hprivate⟩]

/-! ### The block that is built -/

omit [Builtins] [Receipts] [ImageId] [Ed25519] [StakeBuiltin] [Serde SequencerStake.Instruction]
  [Serde Bridge.Instruction] [Serde CrossZoneInbox.Instruction] in
theorem BlockSlot.tick_ok (h : slot.tick exec state = .ok state') :
    transitionFromPublicTransaction exec state (clockInvocation slot.timestamp) slot.blockHeight
      slot.timestamp = .ok state' := by
  unfold BlockSlot.tick at h
  split at h
  · rename_i hnext
    rw [hnext, ok.inj h]
  · cases h
  · cases h

variable [TransactionBorsh] [VaultBuiltin]

/-- What a block is built of. -/
structure BuiltFrom (exec : Executor) (core : SequencerCore) (timestamp : Timestamp)
    (liveAccreditedKeys : Option (List SequencerKey)) (block : Block) (included : List Drained)
    (mid workingState : V03State) : Prop where
  drained : included.Sublist core.queue
  continues : Continues core.chain.headTip block
  timestamp_eq : block.header.timestamp = timestamp
  transactions : block.body.transactions
    = included.map Drained.tx ++ [.publicTx (clockInvocation timestamp)]
  run : Run (Includes exec block.header.blockId timestamp liveAccreditedKeys)
    core.chain.headState included mid
  clock : transitionFromPublicTransaction exec mid (clockInvocation timestamp)
    block.header.blockId timestamp = .ok workingState

theorem buildBlockFromMempool_ok {core : SequencerCore} {sign : HashType → Signature}
    {outcome : BuildOutcome}
    (h : core.buildBlockFromMempool exec sign timestamp liveAccreditedKeys = .ok outcome) :
    ∃ included mid, BuiltFrom exec core timestamp liveAccreditedKeys outcome.built.block included
      mid outcome.workingState := by
  obtain ⟨slot, hslot, h⟩ := bind_eq_ok.mp h
  obtain ⟨⟨building, rest⟩, hdrain, h⟩ := bind_eq_ok.mp h
  obtain ⟨workingState, htick, h⟩ := bind_eq_ok.mp h
  cases h
  obtain ⟨hheight, rfl, hparent⟩ := BlockSlot.after_ok hslot
  obtain ⟨included, hsub, hrun, htxs⟩ := drain_ok hdrain
  refine ⟨included, building.workingState, hsub, ⟨rfl, hheight, hparent⟩, rfl, ?_, hrun,
    BlockSlot.tick_ok htick⟩
  show building.validTransactions ++ _ = _
  rw [htxs]
  rfl

/-- A block that is built replays to the working state, or is rejected as a genesis block. -/
theorem BuiltFrom.applyBlock_eq {core : SequencerCore} {mid workingState : V03State}
    (h : BuiltFrom exec core timestamp liveAccreditedKeys block included mid workingState) :
    applyBlock exec core.chain.headTip block core.chain.headState =
      if block.header.blockId = genesisBlockId ∧ ∃ entry ∈ included, entry.tx.isPublic = false then
        .error (.rejected .nonPublicGenesisTransaction)
      else .ok workingState := by
  obtain ⟨-, hcontinues, rfl, hbody, hrun, hclock⟩ := h
  rw [applyBlock, hcontinues.validateAgainstTip]
  show applyBlockToState exec block core.chain.headState = _
  unfold applyBlockToState
  rw [hbody, List.getLast?_concat, List.dropLast_concat]
  dsimp only
  have hcheck : ensure (clockInvocation block.header.timestamp
      = clockInvocation block.header.timestamp)
      (ApplyError.rejected .invalidClockTransaction) = .ok () := ensure_eq_ok.mpr rfl
  rw [hcheck, foldlM_applyUserTransaction_eq hrun]
  split
  · rfl
  · show stateTransition _ (transitionFromPublicTransaction exec mid
      (clockInvocation block.header.timestamp) block.header.blockId block.header.timestamp) = _
    rw [hclock]
    rfl

/-- **Every block that is built replays.**  Its transactions are a sublist of what the build
drains, each accepted at the state that the ones before it lead to, and the clock invocation;
and applying the block to the head that it was built on leads to the working state, if and only
if the head has a block or all of the included transactions are public. -/
theorem built_block_replays {core : SequencerCore} {sign : HashType → Signature}
    {timestamp : Timestamp} {outcome : BuildOutcome}
    (h : core.buildBlockFromMempool exec sign timestamp liveAccreditedKeys = .ok outcome) :
    ∃ included : List Drained, included.Sublist core.queue ∧
      outcome.built.block.body.transactions
        = included.map Drained.tx ++ [.publicTx (clockInvocation timestamp)] ∧
      (∃ state, Run (Includes exec outcome.built.block.header.blockId timestamp
          liveAccreditedKeys) core.chain.headState included state ∧
        transitionFromPublicTransaction exec state (clockInvocation timestamp)
          outcome.built.block.header.blockId timestamp = .ok outcome.workingState) ∧
      (applyBlock exec core.chain.headTip outcome.built.block core.chain.headState
          = .ok outcome.workingState ↔
        (height core.chain.headTip = 0 → ∀ entry ∈ included, entry.tx.isPublic = true)) := by
  obtain ⟨included, mid, hbuilt⟩ := buildBlockFromMempool_ok h
  refine ⟨included, hbuilt.drained, hbuilt.transactions, ⟨mid, hbuilt.run, hbuilt.clock⟩, ?_⟩
  have hgenesis := hbuilt.continues.genesis_iff
  rw [hbuilt.applyBlock_eq]
  split
  · rename_i hstop
    obtain ⟨hcold, entry, hmem, hprivate⟩ := hstop
    refine iff_of_false (by simp) fun hpublic => ?_
    rw [hpublic (hgenesis.mp hcold) entry hmem] at hprivate
    cases hprivate
  · rename_i hgo
    refine iff_of_true rfl fun hcold entry hmem => ?_
    exact Bool.eq_true_of_not_eq_false fun hprivate =>
      hgo ⟨hgenesis.mpr hcold, entry, hmem, hprivate⟩

/-! ### How the mempool drains -/

/-- A turn of a sequencer whose store and head state ask for nothing: it builds a block from
its mempool. -/
structure BuildsFrom (exec : Executor) (config : SequencerConfig) (core : SequencerCore)
    (mempool mempool' : List (TransactionOrigin × LeeTransaction)) : Prop where
  mempool_eq : core.mempool = mempool
  config_eq : core.sequencerConfig = config
  deposits : core.pendingDeposits = []
  dispatches : core.dispatchQueue.pending = []
  releases : buildFinalizeUnstakeTxs core.chain.headState = []
  builds : ∃ sign timestamp liveAccreditedKeys outcome,
    core.buildBlockFromMempool exec sign timestamp liveAccreditedKeys = .ok outcome ∧
      outcome.mempool = mempool'

/-- If the first transaction fits, a turn is done with it. -/
theorem BuildsFrom.suffix (hserde : ∀ timestamp : Timestamp, (toWords timestamp).length = 2)
    {core : SequencerCore} {mempool mempool' : List (TransactionOrigin × LeeTransaction)}
    (h : BuildsFrom exec config core mempool mempool')
    (hfits : ∀ entry ∈ mempool, entry.2.toVec.length + 205 ≤ config.maxBlockSize) :
    mempool' <:+ mempool.tail := by
  obtain ⟨rfl, rfl, hdeposits, hdispatches, hreleases, sign, timestamp, keys, outcome, hbuild,
    rfl⟩ := h
  obtain ⟨slot, -, hbuild⟩ := bind_eq_ok.mp hbuild
  obtain ⟨⟨building, rest⟩, hdrain, hbuild⟩ := bind_eq_ok.mp hbuild
  obtain ⟨workingState, -, hbuild⟩ := bind_eq_ok.mp hbuild
  cases hbuild
  have hqueue : core.queue = core.mempool.map fun (origin, tx) => ⟨origin, tx, false⟩ := by
    rw [SequencerCore.queue, hdeposits, hdispatches, hreleases]
    rfl
  rw [hqueue] at hdrain
  have hsuffix : rest <:+ (core.mempool.map fun (origin, tx) => ⟨origin, tx, false⟩).tail := by
    refine drain_suffix_tail (fun entry hentry => ?_) hdrain
    obtain ⟨first, hfirst, rfl⟩ := List.mem_map.mp (List.mem_of_mem_head? hentry)
    exact (drainRound_ne_deferred_iff hserde rfl rfl).mpr (hfits first hfirst)
  rw [← List.map_tail] at hsuffix
  obtain ⟨left, hleft, rfl⟩ := List.suffix_map_iff.mp hsuffix
  simpa [List.filter_map, Function.comp_def] using hleft

/-- **Admission and the builder disagree on the size of a block.**  Admission keeps 200 bytes of
a block free, the builder needs 205: with nothing in the block, a transaction from the mempool
is not put off if and only if it leaves that many, whatever the height, the parent and the time.
A mempool whose transactions all do is empty after as many turns as it has transactions. -/
theorem mempool_drains (hserde : ∀ timestamp : Timestamp, (toWords timestamp).length = 2)
    (exec : Executor) (config : SequencerConfig) :
    (∀ slot liveAccreditedKeys building entry, entry.fromStore = false →
      building.validTransactions = [] →
      (drainRound exec config slot liveAccreditedKeys building entry ≠ .ok .deferred ↔
        entry.tx.toVec.length + 205 ≤ config.maxBlockSize)) ∧
    ∀ mempool mempool' turns, Run (BuildsFrom exec config) mempool turns mempool' →
      (∀ entry ∈ mempool, entry.2.toVec.length + 205 ≤ config.maxBlockSize) →
      mempool.length ≤ turns.length → mempool' = [] := by
  refine ⟨fun _ _ _ _ => drainRound_ne_deferred_iff hserde, ?_⟩
  intro mempool mempool' turns hrun
  induction hrun with
  | nil mempool => exact fun _ hlength => List.eq_nil_of_length_eq_zero (Nat.le_zero.mp hlength)
  | cons hturn _ ih =>
    intro hfits hlength
    have hsuffix := hturn.suffix hserde hfits
    refine ih (fun entry hentry => hfits entry (List.mem_of_mem_tail (hsuffix.mem hentry))) ?_
    have hshorter := hsuffix.length_le
    rw [List.length_tail] at hshorter
    rw [length_cons] at hlength
    omega

end

/-! The sequencer of the samples: nobody stakes, deposits or sends a message. -/

namespace Unasked

scoped instance : Ed25519 := ⟨fun _ => true⟩

scoped instance : StakeBuiltin := ⟨.ofWord 6⟩

scoped instance : VaultBuiltin := ⟨.ofWord 7⟩

scoped instance : Serde SequencerStake.Instruction := .ofTable []

scoped instance : Serde Bridge.Instruction := .ofTable []

scoped instance : Serde CrossZoneInbox.Instruction := .ofTable []

end Unasked

/-! ### A deployment on a cold head -/

namespace Drafts

open Idle Fork Unasked

/-- A user deploys a program. -/
def deployment : LeeTransaction := .programDeployment ⟨[7, 7, 7]⟩

/-- The block that carries the deployment on top of nothing, and on top of a genesis block. -/
def coldBlock : Block :=
  { block 1 (ofHex 0) 10
      0x0df13b3a741270021becd383f22a79db82e99ee08aaf6740b88521ef90df4e34 with
    body := ⟨[deployment, .publicTx (clockInvocation 10)]⟩ }

def warmBlock : Block :=
  { block 2 genesis.header.hash 20
      0x8513a7567236a7d440d0eaae18e72e8803edc36cdcd874128f0796aefed606c8 with
    body := ⟨[deployment, .publicTx (clockInvocation 20)]⟩ }

def faucetId : AccountId :=
  ⟨ofHex 0xc6e6098cdc290c077c6cf2d6553e3b1fecbf3c4b65945a8ca12ae3552b00f4bd⟩

def bridgeId : AccountId :=
  ⟨ofHex 0x4a6ce6145fc635b324c1a852a5efc18a5eb5215477ab395b6312b09a6f217a00⟩

scoped instance : Sha256 := .ofTable
  (([genesis, coldBlock, warmBlock].map fun block =>
      (block.hashableData.hashBytes, block.header.hash)) ++
    [ (publicPdaBytes (.ofWord 3) computeFaucetSeed, faucetId.value),
      (publicPdaBytes (.ofWord 4) computeBridgeSeed, bridgeId.value),
      (publicPdaBytes (.ofWord 6) SequencerStake.sequencerStakeConfigSeed,
        ofHex 0x928c3ef7f5f2c3d139261aaa2affbcac343ea1752b4b2be2fadb0c4476add0fd) ])

scoped instance : ImageId :=
  ⟨fun bytecode => if bytecode = [7, 7, 7] then some (.ofWord 9) else none⟩

def sign (_ : HashType) : Signature := .ofHex 0 0

/-- A sequencer with the deployment in its mempool, from a user and from a peer. -/
def core (chain : ChainState) : SequencerCore where
  chain := chain
  pendingDepositEvents := []
  pendingCrossZoneDispatches := []
  mempool := [(.user, deployment), (.gossip, deployment)]
  sequencerConfig := ⟨1000, 10⟩

/-- The chain with a genesis block. -/
def warmChain : Option ChainState :=
  (applyBlock exec none genesis state).toOption.map fun state =>
    .fromFinal state (some (.ofBlock genesis))

end Drafts

section

open Idle Fork Unasked
open Drafts

/-- **A block that does not replay.**  The head has no block, and a user deploys a program. -/
theorem cold_block_rejected :
    ∃ outcome, (core (.new state)).buildBlockFromMempool exec sign 10 none
        = .ok outcome ∧
      outcome.built.block = coldBlock ∧
      applyBlock exec (ChainState.new state).headTip outcome.built.block
        (ChainState.new state).headState = .error (.rejected .nonPublicGenesisTransaction) := by
  decide +kernel

/-- On top of a genesis block the same transactions make a block that replays. -/
theorem warm_block_replays :
    ∃ chain outcome, warmChain = some chain ∧
      (core chain).buildBlockFromMempool exec sign 20 none = .ok outcome ∧
      outcome.built.block = warmBlock ∧
      applyBlock exec chain.headTip outcome.built.block chain.headState
        = .ok outcome.workingState := by
  obtain ⟨chain, hchain, hwarm, outcome, hbuilt, hblock⟩ : ∃ chain, warmChain = some chain ∧
      height chain.headTip ≠ 0 ∧ ∃ outcome,
        (core chain).buildBlockFromMempool exec sign 20 none = .ok outcome ∧
        outcome.built.block = warmBlock := by
    decide +kernel
  obtain ⟨included, -, -, -, hreplays⟩ := built_block_replays hbuilt
  exact ⟨chain, outcome, hchain, hbuilt, hblock, hreplays.mpr fun hcold => absurd hcold hwarm⟩

/-- **An admitted transaction that stays.**  The deployment takes 8 bytes and is admitted for
blocks of 208, but a block with nothing else in it would take 213. -/
theorem admitted_transaction_wedged :
    LeeTransaction.sendTransaction deployment 208 = .ok deployment ∧
    ∃ outcome, { core (.new state) with sequencerConfig := ⟨208, 10⟩
        }.buildBlockFromMempool exec sign 10 none = .ok outcome ∧
      outcome.built.block = genesis ∧
      outcome.mempool = (core (.new state)).mempool := by
  decide +kernel

/-- In blocks of 1000 bytes there is room for it. -/
theorem deployment_drained :
    ∃ outcome, { core (.new state) with mempool := [(.user, deployment)]
        }.buildBlockFromMempool exec sign 10 none = .ok outcome ∧
      outcome.mempool = [] := by
  obtain ⟨outcome, hbuild⟩ : ∃ outcome, { core (.new state) with
      mempool := [(.user, deployment)] }.buildBlockFromMempool exec sign 10 none = .ok outcome := by
    decide +kernel
  have hturn : BuildsFrom exec ⟨1000, 10⟩ _ [(.user, deployment)] outcome.mempool :=
    ⟨rfl, rfl, by decide +kernel, by decide +kernel, by decide +kernel, _, _, _, _, hbuild, rfl⟩
  exact ⟨outcome, hbuild, (mempool_drains (fun _ => rfl) _ _).2 _ _ _ (.cons hturn (.nil _))
    (by decide +kernel) le_rfl⟩

end

end Lssa
