/-
Looking up a transaction by its hash (`lez/sequencer/core/src/block_store.rs`).

The store of a sequencer keeps, in memory, an index from the hashes of transactions to the
ids of their blocks.  It is built from the stored blocks when the store is opened, and a block
that the sequencer produces is added to it; what the follow path writes through the shared
handle of the database is not.  A lookup asks the index for the block, and panics if the block
is not stored or does not have the transaction.

* `lookup_txHashToBlockMap_run` — the index knows, for each hash, the last block that was
  indexed or produced with it;
* **`lookupCorrect_run_iff`** — after which histories a lookup is correct.
-/
import Lssa.Sequencer.Restart

open Outcome

namespace Lssa

/-- `LeeTransaction::hash`: over the encoding without the tag of the kind of transaction. -/
def LeeTransaction.hash [Sha256] (tx : LeeTransaction) : HashType :=
  Sha256.hashBytes (tx.toVec.drop 1)

/-- The database with the index. -/
structure SequencerStore where
  dbio : ChainCells
  txHashToBlockMap : Map HashType BlockId

/-- How a lookup panics. -/
inductive LookupPanic
  | blockMissing
  | transactionMissing
  deriving DecidableEq

/-- What writes to the store: `SequencerStore::update` with a block that was produced, or
`store_update` through the shared handle. -/
inductive StoreEvent
  | produced (block : Block) (state : V03State)
  | followed (update : StoreUpdate)

/-- The database after a history. -/
def ChainCells.run (dbio : ChainCells) (history : List StoreEvent) : ChainCells :=
  history.foldl (fun dbio event =>
    match event with
    | .produced block state => dbio.atomicUpdate block state
    | .followed update => dbio.storeUpdate update) dbio

section

variable [Sha256]

/-- `block_to_transactions_map`. -/
def blockToTransactionsMap (block : Block) : List (HashType × BlockId) :=
  block.body.transactions.map fun tx => (tx.hash, block.header.blockId)

namespace SequencerStore

/-- Add a block to the index. -/
def index (store : SequencerStore) (block : Block) : SequencerStore :=
  { store with
    txHashToBlockMap := insertAll store.txHashToBlockMap (blockToTransactionsMap block) }

/-- The database with an index of some blocks. -/
def withBlocks (dbio : ChainCells) (blocks : List Block) : SequencerStore :=
  blocks.foldl index ⟨dbio, ∅⟩

/-- The ids `genesis_id..=last_id`. -/
def idsUpTo (genesisId lastId : U64) : List U64 :=
  (List.range' genesisId.val (lastId.val + 1 - genesisId.val)).map (Fin.ofNat (2 ^ 64))

/-- `from_dbio_and_signing_key`; `none` is a panic. -/
def fromDbio (genesisId : U64) (dbio : ChainCells) : Option SequencerStore :=
  match dbio.latestBlockMeta with
  | none => some (withBlocks dbio [])
  | some last => ((idsUpTo genesisId last.blockId).mapM dbio.getBlock).map (withBlocks dbio)

/-- `update`. -/
def update (store : SequencerStore) (block : Block) (state : V03State) : SequencerStore :=
  { store.index block with dbio := store.dbio.atomicUpdate block state }

/-- `get_transaction_by_hash`. -/
def getTransactionByHash (store : SequencerStore) (hash : HashType) :
    Except LookupPanic (Option (LeeTransaction × BlockId)) :=
  match store.txHashToBlockMap.lookup hash with
  | none => .ok none
  | some blockId =>
    match store.dbio.getBlock blockId with
    | none => .error .blockMissing
    | some block =>
      match block.body.transactions.find? fun tx => tx.hash = hash with
      | some tx => .ok (some (tx, blockId))
      | none => .error .transactionMissing

def handle (store : SequencerStore) : StoreEvent → SequencerStore
  | .produced block state => store.update block state
  | .followed update => { store with dbio := store.dbio.storeUpdate update }

/-- The store after a history. -/
def run (store : SequencerStore) (history : List StoreEvent) : SequencerStore :=
  history.foldl handle store

end SequencerStore

/-! ### Correct lookups -/

/-- The block has a transaction with the hash. -/
def Block.Carries (block : Block) (hash : HashType) : Prop :=
  ∃ tx ∈ block.body.transactions, tx.hash = hash

instance (block : Block) (hash : HashType) : Decidable (block.Carries hash) :=
  inferInstanceAs (Decidable (∃ tx ∈ block.body.transactions, tx.hash = hash))

/-- A lookup does not panic; what it finds is stored where it says, and has the hash; and if it
finds nothing, no stored block has a transaction with the hash. -/
def LookupCorrect (store : SequencerStore) (hash : HashType) : Prop :=
  match store.getTransactionByHash hash with
  | .error _ => False
  | .ok (some (tx, blockId)) =>
    tx.hash = hash ∧ ∃ block ∈ store.dbio.getBlock blockId, tx ∈ block.body.transactions
  | .ok none => ∀ blockId, ∀ block ∈ store.dbio.getBlock blockId, ¬ block.Carries hash

/-- The last of some blocks with a transaction of the hash. -/
def lastCarrying (hash : HashType) (blocks : List Block) : Option Block :=
  blocks.reverse.find? fun block => block.Carries hash

/-- The blocks that were produced in a history. -/
def producedBlocks (history : List StoreEvent) : List Block :=
  history.filterMap fun
    | .produced block _ => some block
    | .followed _ => none

/-! ### The index -/

theorem lookup_insertAll_map (map : Map HashType BlockId) (txs : List LeeTransaction)
    (blockId : BlockId) (hash : HashType) :
    (insertAll map (txs.map fun tx => (tx.hash, blockId))).lookup hash =
      if ∃ tx ∈ txs, tx.hash = hash then some blockId else map.lookup hash := by
  induction txs generalizing map with
  | nil => simp
  | cons tx txs ih =>
    rw [map_cons, Ledger.insertAll_cons, ih]
    by_cases hrest : ∃ tx ∈ txs, tx.hash = hash
    · obtain ⟨found, hfound, heq⟩ := hrest
      rw [if_pos ⟨found, hfound, heq⟩, if_pos ⟨found, mem_cons_of_mem _ hfound, heq⟩]
    · rw [if_neg hrest]
      by_cases hfirst : tx.hash = hash
      · rw [if_pos ⟨tx, mem_cons_self, hfirst⟩]
        subst hfirst
        exact lookup_insert _
      · rw [lookup_insert_ne (Ne.symm hfirst), if_neg]
        rintro ⟨found, hfound, heq⟩
        rcases mem_cons.mp hfound with rfl | hfound
        · exact hfirst heq
        · exact hrest ⟨found, hfound, heq⟩

/-- The index knows the last block with a hash. -/
def Indexes (store : SequencerStore) (blocks : List Block) : Prop :=
  ∀ hash, store.txHashToBlockMap.lookup hash =
    (lastCarrying hash blocks).map fun block => block.header.blockId

variable {store : SequencerStore} {blocks : List Block}

theorem Indexes.index (h : Indexes store blocks) (block : Block) :
    Indexes (store.index block) (blocks ++ [block]) := by
  intro hash
  have hlast : lastCarrying hash (blocks ++ [block]) =
      if block.Carries hash then some block else lastCarrying hash blocks := by
    rw [lastCarrying, List.reverse_concat, List.find?_cons]
    by_cases h : block.Carries hash <;> simp [h, lastCarrying]
  rw [hlast]
  have hlookup := lookup_insertAll_map store.txHashToBlockMap block.body.transactions
    block.header.blockId hash
  refine hlookup.trans ?_
  by_cases hcarries : block.Carries hash
  · rw [if_pos hcarries, map_some]
    exact if_pos hcarries
  · rw [if_neg hcarries, ← h hash]
    exact if_neg hcarries

theorem indexes_withBlocks (dbio : ChainCells) (blocks : List Block) :
    Indexes (.withBlocks dbio blocks) blocks := by
  induction blocks using reverseRecOn with
  | nil => exact fun _ => rfl
  | append_singleton blocks block ih =>
    rw [SequencerStore.withBlocks, List.foldl_append]
    exact ih.index block

/-- A block that was produced is indexed, and the follow path leaves the index alone. -/
theorem Indexes.run (h : Indexes store blocks) (history : List StoreEvent) :
    Indexes (store.run history) (blocks ++ producedBlocks history) := by
  induction history generalizing store blocks with
  | nil =>
    rw [producedBlocks, List.filterMap_nil, append_nil]
    exact h
  | cons event history ih =>
    cases event with
    | produced block state =>
      have hupdate : Indexes (store.update block state) (blocks ++ [block]) := h.index block
      have hrest := ih hupdate
      rw [append_assoc] at hrest
      exact hrest
    | followed update =>
      have hupdate : Indexes { store with dbio := store.dbio.storeUpdate update } blocks := h
      exact ih hupdate

/-- A lookup is correct iff the last indexed block with the hash still has it where it is
stored or, where none was indexed, none is stored. -/
theorem Indexes.lookupCorrect_iff (h : Indexes store blocks) (hash : HashType) :
    LookupCorrect store hash ↔
      match lastCarrying hash blocks with
      | some block => ∃ stored ∈ store.dbio.getBlock block.header.blockId, stored.Carries hash
      | none => ∀ blockId, ∀ block ∈ store.dbio.getBlock blockId, ¬ block.Carries hash := by
  have hlookup := h hash
  unfold LookupCorrect SequencerStore.getTransactionByHash
  cases hlast : lastCarrying hash blocks with
  | none =>
    rw [hlast, map_none] at hlookup
    rw [hlookup]
  | some block =>
    rw [hlast, map_some] at hlookup
    rw [hlookup]
    dsimp only
    cases hstored : store.dbio.getBlock block.header.blockId with
    | none => simp
    | some stored =>
      dsimp only
      cases hfind : stored.body.transactions.find? fun tx => tx.hash = hash with
      | none =>
        have hnone := List.find?_eq_none.mp hfind
        refine iff_of_false id ?_
        rintro ⟨found, hfound, tx, htx, heq⟩
        rw [← some.inj hfound] at htx
        exact hnone tx htx (decide_eq_true heq)
      | some tx =>
        have htx := List.mem_of_find?_eq_some hfind
        have hfound := List.find?_some hfind
        have heq : tx.hash = hash := of_decide_eq_true hfound
        exact iff_of_true ⟨heq, stored, hstored, htx⟩ ⟨stored, rfl, tx, htx, heq⟩

theorem dbio_withBlocks (dbio : ChainCells) (blocks : List Block) :
    (SequencerStore.withBlocks dbio blocks).dbio = dbio := by
  induction blocks using reverseRecOn with
  | nil => rfl
  | append_singleton blocks block ih =>
    rw [SequencerStore.withBlocks, List.foldl_append]
    exact ih

/-- The database does not depend on the index. -/
theorem dbio_run (store : SequencerStore) (history : List StoreEvent) :
    (store.run history).dbio = store.dbio.run history := by
  induction history generalizing store with
  | nil => rfl
  | cons event history ih =>
    cases event with
    | produced block state => exact ih (store.update block state)
    | followed update => exact ih { store with dbio := store.dbio.storeUpdate update }

/-- **When lookups are correct.**  A store is opened on a database with an index of some blocks,
and then any blocks are produced and any updates come in by the follow path.  A lookup of a hash
is correct at the end iff the last block with the hash that was indexed at the start or produced
since has, in the database under its id, a block with the hash or, where there was no such block,
no block in the database has the hash. -/
theorem lookupCorrect_run_iff (dbio : ChainCells) (blocks : List Block)
    (history : List StoreEvent) (hash : HashType) :
    LookupCorrect ((SequencerStore.withBlocks dbio blocks).run history) hash ↔
      match lastCarrying hash (blocks ++ producedBlocks history) with
      | some block =>
        ∃ stored ∈ (dbio.run history).getBlock block.header.blockId, stored.Carries hash
      | none => ∀ blockId, ∀ stored ∈ (dbio.run history).getBlock blockId,
        ¬ stored.Carries hash := by
  have hiff := ((indexes_withBlocks dbio blocks).run history).lookupCorrect_iff hash
  rw [dbio_run, dbio_withBlocks] at hiff
  exact hiff

end

/-! ### The sequencer with its index -/

/-- The chain of a sequencer: in memory, and in the store with the index. -/
structure IndexedChain where
  chain : ChainState
  store : SequencerStore

section

variable [Sha256] [Schnorr] [Builtins] [Receipts] [ImageId] [ClockBuiltin] [Serde Timestamp]

namespace IndexedChain

/-- Without the index. -/
def mirrored (core : IndexedChain) : MirroredChain := ⟨core.chain, core.store.dbio⟩

/-- What the follow path did, with the index as it was. -/
def followed (core : IndexedChain) (mirrored : MirroredChain) : IndexedChain :=
  ⟨mirrored.chain, { core.store with dbio := mirrored.store }⟩

/-- `record_produced_block`. -/
def recordProducedBlock (exec : Executor) (core : IndexedChain) (thisMsg : MsgId) (block : Block) :
    Except SequencerFailure IndexedChain := do
  let (outcome, chain) ← (core.chain.applyProduced exec thisMsg block).mapError .fatal
  match outcome with
  | .applied => pure ⟨chain, core.store.update block chain.headState⟩
  | .alreadyApplied | .parked _ | .retryableFailure _ => pure ⟨chain, core.store⟩

/-- What an event does.  Only a block that was produced goes through `SequencerStore::update`. -/
def handle (exec : Executor) (core : IndexedChain) :
    SequencerEvent → Except SequencerFailure IndexedChain
  | .followUpdate update => (applyFollowUpdate exec core.mirrored update).map core.followed
  | .produced thisMsg block => core.recordProducedBlock exec thisMsg block
  | .reconstructed block slot =>
    (applyReconstructedBlock exec core.mirrored block slot).map core.followed

/-- Without the index, an event does what it did. -/
theorem handle_mirrored (exec : Executor) (core : IndexedChain) (event : SequencerEvent) :
    (core.handle exec event).map mirrored = core.mirrored.handle exec event := by
  cases event with
  | followUpdate update =>
    show ((applyFollowUpdate exec core.mirrored update).map core.followed).map mirrored =
      applyFollowUpdate exec core.mirrored update
    cases applyFollowUpdate exec core.mirrored update <;> rfl
  | produced thisMsg block =>
    show (core.recordProducedBlock exec thisMsg block).map mirrored =
      Lssa.recordProducedBlock exec core.mirrored thisMsg block
    have hchain : core.mirrored.chain = core.chain := rfl
    unfold recordProducedBlock Lssa.recordProducedBlock
    rw [hchain]
    cases core.chain.applyProduced exec thisMsg block with
    | error failure => rfl
    | ok result =>
      obtain ⟨outcome, chain⟩ := result
      cases outcome <;> rfl
  | reconstructed block slot =>
    show ((applyReconstructedBlock exec core.mirrored block slot).map core.followed).map mirrored =
      applyReconstructedBlock exec core.mirrored block slot
    cases applyReconstructedBlock exec core.mirrored block slot <;> rfl

/-- A new store, the start with it, and what happens then. -/
def liveFresh (exec : Executor) (initialState : V03State) (sign : HashType → Signature)
    (history : List SequencerEvent) : Option IndexedChain := do
  let dbio ← (createStore exec initialState [] sign).toOption
  let core ← (MirroredChain.start exec initialState dbio).toOption
  let store ← SequencerStore.fromDbio genesisBlockId dbio
  history.foldlM (fun core event => (core.handle exec event).toOption) ⟨core.chain, store⟩

end IndexedChain

end

/-! A block is produced and loses to a competitor, or to nobody. -/

namespace Reorged

open Fork

def leftTx : HashType :=
  ofHex 0x81581747a868348d71228d94b9a682c223c65989708606fe2fc01a703da9c34f

def rightTx : HashType :=
  ofHex 0xda32dadaf5d3038f65cdf2e4ba5ef307b1b8ea7a03b60fd9ae6877dd12128fa7

scoped instance sha : Sha256 := .ofTable
  (([root, left, right].map fun block =>
      (block.hashableData.hashBytes, block.header.hash)) ++
    ([ (root, ofHex 0x295f03f2149619d9c167367c0547e41a82a64ae629899deb19954f775fea4294),
        (left, leftTx), (right, rightTx) ].flatMap fun entry =>
      entry.1.body.transactions.map fun tx => (tx.toVec.drop 1, entry.2)))

def overwritten : List SequencerEvent :=
  [ .produced (msg 2) left, .followUpdate ⟨[(msg 3, right)], [(msg 2, left)], []⟩ ]

def removed : List SequencerEvent :=
  [ .produced (msg 2) left, .followUpdate ⟨[], [(msg 2, left)], []⟩ ]

end Reorged

section

open Idle Fork
open Reorged

/-- **Lookups after a reorg.**  After a block of this sequencer was replaced, the lookup of its
transaction panics, and that of the transaction that is stored finds nothing; after it was
removed, the lookup panics as well. -/
theorem reorged_lookup_panics :
    (∃ core,
      IndexedChain.liveFresh exec state Rooted.sign overwritten = some core ∧
      core.store.getTransactionByHash leftTx = .error .transactionMissing ∧
      core.store.getTransactionByHash rightTx = .ok none ∧
      ∃ stored ∈ core.store.dbio.getBlock 2, stored.Carries rightTx) ∧
    ∃ core,
      IndexedChain.liveFresh exec state Rooted.sign removed = some core ∧
      core.store.getTransactionByHash leftTx = .error .blockMissing := by
  decide +kernel

end

end Lssa
