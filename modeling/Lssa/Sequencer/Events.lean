/-
What a sequencer does to its chain and its store (`lez/sequencer/core/src/lib.rs`).

A sequencer has its chain in memory and mirrors it to the store.  Three things move it: a
delta of the channel (`applyFollowUpdate`), a block that it produced itself
(`recordProducedBlock`), and a block that it reads back from the channel when it starts
(`applyReconstructedBlock`).  Each of them moves the chain first and then writes what it did
in one update, under one lock; nothing comes between.
-/
import Lssa.Sequencer.Store

open Outcome TwoTier

namespace Lssa

/-- The chain of a sequencer: in memory, and in the store. -/
structure MirroredChain where
  chain : ChainState
  store : ChainCells

/-- A delta of the channel. -/
structure FollowUpdate where
  adopted : List (MsgId × Block)
  orphaned : List (MsgId × Block)
  finalized : List (MsgId × Block)
  deriving DecidableEq

/-- How an event stops a sequencer: the chain does, the final tier advanced and has no tip
(an `expect`), or a block read back from the channel does not extend the chain. -/
inductive SequencerFailure
  | fatal (fatal : Fatal)
  | noFinalTip
  | doesNotExtend (error : BlockIngestError)
  deriving DecidableEq

/-- The loop over the finalized blocks of a delta. -/
structure FinalizedLoop where
  chain : ChainState
  toPersist : List (Block × Bool)
  irreversible : List Block
  finalAdvanced : Bool

/-- `BlockMeta::from` the final tip, if the final tier advanced. -/
def finalMeta (finalAdvanced : Bool) (chain : ChainState) :
    Except SequencerFailure (Option BlockMeta) :=
  if finalAdvanced then
    match chain.finalTip with
    | some tip => .ok (some tip)
    | none => .error .noFinalTip
  else .ok none

section

variable [Sha256] [Schnorr] [Builtins] [Receipts] [ImageId] [ClockBuiltin] [Serde Timestamp]

/-- A round of the loop over the finalized blocks.  The slot is not threaded through yet. -/
def FinalizedLoop.round (exec : Executor) (loop : FinalizedLoop) (entry : MsgId × Block) :
    Except Fatal FinalizedLoop := do
  let (thisMsg, block) := entry
  let (outcome, chain) ← loop.chain.applyFinalized exec thisMsg block 0
  match outcome with
  | .applied =>
    pure
      { chain
        toPersist := loop.toPersist ++ [(block, true)]
        irreversible := loop.irreversible ++ [block]
        finalAdvanced := true }
  | .alreadyApplied => pure { loop with chain, irreversible := loop.irreversible ++ [block] }
  | .parked _ | .retryableFailure _ => pure { loop with chain }

/-- `apply_follow_update`, as far as it moves the chain and writes it. -/
def applyFollowUpdate (exec : Executor) (core : MirroredChain) (update : FollowUpdate) :
    Except SequencerFailure MirroredChain := do
  let (outcomes, chain) ←
    (core.chain.applyChannelUpdate exec update.orphaned update.adopted).mapError .fatal
  let toPersist := ((update.adopted.zip outcomes).filter fun entry => entry.2 = .applied).map
    fun entry => (entry.1.2, false)
  let loop ← (update.finalized.foldlM (FinalizedLoop.round exec)
    { chain, toPersist, irreversible := [], finalAdvanced := false }).mapError .fatal
  let finalMeta ← finalMeta loop.finalAdvanced loop.chain
  let store := core.store.storeUpdate
    { blocks := loop.toPersist
      headTip := loop.chain.headTip
      headState := loop.chain.headState
      finalSnapshot := finalMeta.map fun tip => (loop.chain.finalState, tip)
      finalizedUpTo := (loop.irreversible.map fun block => block.header.blockId).max? }
  pure ⟨loop.chain, store⟩

/-- `record_produced_block`.  A block that lost a race is dropped. -/
def recordProducedBlock (exec : Executor) (core : MirroredChain) (thisMsg : MsgId) (block : Block) :
    Except SequencerFailure MirroredChain := do
  let (outcome, chain) ← (core.chain.applyProduced exec thisMsg block).mapError .fatal
  match outcome with
  | .applied => pure ⟨chain, core.store.atomicUpdate block chain.headState⟩
  | .alreadyApplied | .parked _ | .retryableFailure _ => pure ⟨chain, core.store⟩

/-- `apply_reconstructed_block`, as far as it moves the chain and writes it. -/
def applyReconstructedBlock (exec : Executor) (core : MirroredChain) (block : Block) (slot : Slot) :
    Except SequencerFailure MirroredChain :=
  if (∃ tip ∈ core.store.latestBlockMeta, block.header.blockId ≤ tip.blockId) ∧
      core.store.Holds block then .ok core
  else if ∃ finalTip ∈ core.chain.finalTip, block.header.blockId ≤ finalTip.blockId then .ok core
  else do
    let (outcome, chain) ←
      (core.chain.applyFinalized exec ⟨block.header.hash⟩ block slot).mapError .fatal
    match outcome with
    | .applied | .alreadyApplied =>
      let store := core.store.storeUpdate
        { StoreUpdate.new chain.headState with
          blocks := [(block, true)]
          headTip := chain.headTip
          finalSnapshot := chain.finalTip.map fun tip => (chain.finalState, tip) }
      pure ⟨chain, store⟩
    | .parked error | .retryableFailure error => .error (.doesNotExtend error)

inductive SequencerEvent
  | followUpdate (update : FollowUpdate)
  | produced (thisMsg : MsgId) (block : Block)
  | reconstructed (block : Block) (slot : Slot)
  deriving DecidableEq

def MirroredChain.handle (exec : Executor) (core : MirroredChain) :
    SequencerEvent → Except SequencerFailure MirroredChain
  | .followUpdate update => applyFollowUpdate exec core update
  | .produced thisMsg block => recordProducedBlock exec core thisMsg block
  | .reconstructed block slot => applyReconstructedBlock exec core block slot

/-! ### The start -/

/-- `into_pending_block`, from a signing function. -/
def HashableBlockData.intoPendingBlock (data : HashableBlockData) (sign : HashType → Signature) :
    Block where
  header :=
    { blockId := data.blockId
      prevBlockHash := data.prevBlockHash
      hash := data.computeHash
      timestamp := data.timestamp
      signature := sign data.computeHash }
  body := ⟨data.transactions⟩
  bedrockStatus := .pending

/-- `build_genesis_state`: the transactions that the config asks for and the clock, executed
one after the other on the state before the genesis block. -/
def buildGenesisState (exec : Executor) (initialState : V03State)
    (configured : List PublicTransaction) :
    Except TransitionError (V03State × List LeeTransaction) := do
  let genesisTxs := configured ++ [clockInvocation 0]
  let state ← genesisTxs.foldlM
    (fun state tx => transitionFromPublicTransaction exec state tx genesisBlockId 0) initialState
  pure (state, genesisTxs.map .publicTx)

/-- `open_or_create_store` where there is no store yet. -/
def createStore (exec : Executor) (initialState : V03State) (configured : List PublicTransaction)
    (sign : HashType → Signature) : Except TransitionError ChainCells := do
  let (genesisState, genesisTxs) ← buildGenesisState exec initialState configured
  let hashableData : HashableBlockData :=
    { blockId := genesisBlockId
      prevBlockHash := .replicate 32 0
      timestamp := 0
      transactions := genesisTxs }
  pure (.create (hashableData.intoPendingBlock sign) genesisState)

end

end Lssa
