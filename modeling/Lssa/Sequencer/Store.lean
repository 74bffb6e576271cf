/-
The stored chain of a sequencer (`lez/storage/src/sequencer`).

The store keeps the blocks by id, the id and the meta of the head tip, the head state, and
the state and meta of the final tier once there is one.  An event of the sequencer writes all
it has to write at once (`storeUpdate`): the payloads of the blocks, unless the store has
them already, and, if the chain moved, the head, with the payloads above its tip removed.
The other cells of the store (checkpoint, anchor, deposits, deliveries, withdrawals) hold
nothing of the chain and are left out.

A sequencer that starts again rebuilds its chain from these cells (`restoreChainState`).
-/
import Mathlib.Data.List.Sort
import Lssa.ChainState

open Outcome TwoTier

namespace Lssa

/-! ### The cells -/

/-- `BlockMeta`: the id and the hash of a block, the data of a `Tip`. -/
abbrev BlockMeta := Tip

/-- The cells of the store that hold the chain. -/
structure ChainCells where
  blocks : Map U64 Block
  lastBlockInDb : U64
  latestBlockMeta : Option BlockMeta
  leeState : V03State
  finalSnapshot : Option (V03State × BlockMeta)

namespace ChainCells

/-- `RocksDBIO::create`. -/
def create (genesisBlock : Block) (genesisState : V03State) : ChainCells where
  blocks := (∅ : Map U64 Block).insert genesisBlock.header.blockId genesisBlock
  lastBlockInDb := genesisBlock.header.blockId
  latestBlockMeta := some (Tip.ofBlock genesisBlock)
  leeState := genesisState
  finalSnapshot := none

def getBlock (store : ChainCells) (blockId : U64) : Option Block := store.blocks.lookup blockId

def getAllBlocks (store : ChainCells) : List Block := store.blocks.entries.map fun e => e.2

end ChainCells

/-! ### Updates -/

/-- What an event writes into the cells of the chain. -/
structure StoreUpdate where
  blocks : List (Block × Bool)
  headTip : Option BlockMeta
  headState : V03State
  finalSnapshot : Option (V03State × BlockMeta)
  finalizedUpTo : Option U64

/-- `StoreUpdate::new`. -/
def StoreUpdate.new (headState : V03State) : StoreUpdate where
  blocks := []
  headTip := none
  headState := headState
  finalSnapshot := none
  finalizedUpTo := none

/-- The block with `BedrockStatus::Finalized`. -/
def Block.finalized (block : Block) : Block := { block with bedrockStatus := .finalized }

namespace ChainCells

/-- The store has a block with this id and hash. -/
def Holds (store : ChainCells) (block : Block) : Prop :=
  ∃ stored ∈ store.getBlock block.header.blockId, stored.header.hash = block.header.hash

instance (store : ChainCells) (block : Block) : Decidable (store.Holds block) :=
  inferInstanceAs (Decidable (∃ stored ∈ store.getBlock block.header.blockId, _))

/-- The payload written for a block of an update, if one is: a block that the store has is
skipped, and written as it is stored if it becomes final. -/
def blockToWrite (store : ChainCells) (entry : Block × Bool) : Option Block :=
  let (block, finalized) := entry
  let alreadyStored := (store.getBlock block.header.blockId).filter fun stored =>
    stored.header.hash = block.header.hash
  match alreadyStored with
  | some stored => if finalized then some stored.finalized else none
  | none => some (if finalized then block.finalized else block)

/-- `collect_finalized_up_to`: stored blocks that become final and are not written anyway. -/
def collectFinalizedUpTo (store : ChainCells) (lastFinalized : U64)
    (toWrite : Map U64 Block) : Map U64 Block :=
  let newlyFinalized := store.getAllBlocks.filter fun block =>
    block.bedrockStatus = .pending ∧ block.header.blockId ≤ lastFinalized
  newlyFinalized.foldl (fun toWrite block =>
    if block.header.blockId ∈ toWrite then toWrite
    else toWrite.insert block.header.blockId block.finalized) toWrite

/-- `to_write`: the payloads of an update by id, the later over the earlier. -/
def toWrite (store : ChainCells) (update : StoreUpdate) : Map U64 Block :=
  let written := insertAll (∅ : Map U64 Block)
    ((update.blocks.filterMap store.blockToWrite).map fun block => (block.header.blockId, block))
  match update.finalizedUpTo with
  | some lastFinalized => store.collectFinalizedUpTo lastFinalized written
  | none => written

/-- `chain_changed`. -/
def ChainChanged (store : ChainCells) (update : StoreUpdate) : Prop :=
  update.finalSnapshot.isSome = true ∨ (∃ tip ∈ update.headTip, tip.blockId ≠ store.lastBlockInDb) ∨
    update.blocks.filterMap store.blockToWrite ≠ []

instance (store : ChainCells) (update : StoreUpdate) : Decidable (store.ChainChanged update) :=
  inferInstanceAs (Decidable (_ ∨ _ ∨ _))

/-- The ids `tip.id.saturating_add(1)..=last`. -/
def staleIds (tip : BlockMeta) (last : U64) : List U64 :=
  let first := min (tip.blockId.val + 1) (2 ^ 64 - 1)
  (List.range' first (last.val + 1 - first)).map (Fin.ofNat (2 ^ 64))

/-- The highest id of some payloads. -/
def highestStaged (toWrite : Map U64 Block) : U64 := toWrite.keys.foldr max 0

/-- `store_update`. -/
def storeUpdate (store : ChainCells) (update : StoreUpdate) : ChainCells :=
  let toWrite := store.toWrite update
  let blocks := insertAll store.blocks (toWrite.entries.map fun e => (e.1, e.2))
  match update.headTip with
  | none => { store with blocks }
  | some tip =>
    if store.ChainChanged update then
      { blocks := Ledger.eraseAll blocks
          (staleIds tip (max store.lastBlockInDb (highestStaged toWrite)))
        lastBlockInDb := tip.blockId
        latestBlockMeta := some tip
        leeState := update.headState
        finalSnapshot := update.finalSnapshot.or store.finalSnapshot }
    else { store with blocks }

/-- `atomic_update`: a block that was produced. -/
def atomicUpdate (store : ChainCells) (block : Block) (state : V03State) : ChainCells :=
  store.storeUpdate
    { StoreUpdate.new state with
      blocks := [(block, false)]
      headTip := some (Tip.ofBlock block) }

end ChainCells

/-! ### Restoring the chain -/

/-- Equality of states; maps are equal if they have the same entries. -/
def V03State.Same (a b : V03State) : Prop :=
  a.publicState.entries.Perm b.publicState.entries ∧
    a.commitmentSet.merkleTree = b.commitmentSet.merkleTree ∧
    a.commitmentSet.commitments.entries.Perm b.commitmentSet.commitments.entries ∧
    a.commitmentSet.rootHistory = b.commitmentSet.rootHistory ∧ a.nullifierSet = b.nullifierSet

instance (a b : V03State) : Decidable (a.Same b) :=
  inferInstanceAs (Decidable (_ ∧ _ ∧ _ ∧ _ ∧ _))

theorem V03State.Same.refl (a : V03State) : a.Same a := ⟨.refl _, rfl, .refl _, rfl, rfl⟩

/-- The panics of `restore_chain_state`: a stored block does not replay, or the replayed head
is not the stored head. -/
inductive RestorePanic
  | doesNotReplay (error : ApplyError)
  | stateMismatch
  deriving DecidableEq

/-- `sort_unstable_by_key` on the ids. -/
def sortById (blocks : List Block) : List Block :=
  blocks.insertionSort fun a b => a.header.blockId ≤ b.header.blockId

/-- The final tier of the snapshot, or the state before the genesis block. -/
def ChainCells.finalTier (store : ChainCells) (initialState : V03State) : Position :=
  match store.finalSnapshot with
  | some (state, tip) => (some tip, state)
  | none => (none, initialState)

section

variable [Sha256] [Schnorr] [Builtins] [Receipts] [ImageId] [ClockBuiltin] [Serde Timestamp]

/-- `restore_chain_state`. -/
def restoreChainState (exec : Executor) (initialState : V03State) (store : ChainCells) :
    Except RestorePanic ChainState := do
  let (finalTip, finalState) := store.finalTier initialState
  let headBlocks := sortById (store.getAllBlocks.filter fun block =>
    height finalTip < block.header.blockId.val)
  let chain ← headBlocks.foldlM
    (fun chain block => (chain.restoreHeadBlock exec block).mapError .doesNotReplay)
    (ChainState.fromFinal finalState finalTip)
  ensure (chain.headState.Same store.leeState) .stateMismatch
  pure chain

end

end Lssa
