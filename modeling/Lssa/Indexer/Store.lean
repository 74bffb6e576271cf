/-
The store of an indexer (`lez/storage/src/indexer`, `lez/indexer/core/src/block_store.rs`).

The store keeps the applied blocks by id, the id of the last one, and a snapshot of the state, a
breakpoint, after every hundredth block.  The state after a block is not stored: it is computed by
replaying blocks on the nearest breakpoint (`calculateStateForId`).  The replay is written apart
from the application of new blocks (`applyBlockTransactions`, against `applyBlockToState`).  In
memory the indexer holds the state after the last block.  The maps from hashes and accounts to
transactions are left out.

* **`getBlockBatch_newest_iff`** — for which bounds a batch is the newest blocks below the bound;
* `acceptBlock_ok` — a block is applied, or nothing changes but the record of the stall;
* `applyBlockTransactions_of_applyBlockToState` — what was applied is replayed to the same state.
-/
import Lssa.Sequencer.Store

open Outcome TwoTier

namespace Lssa

open List (mem_range'_1 range range')

/-- `BREAKPOINT_INTERVAL`. -/
def breakpointInterval : ℕ := 100

/-! ### The cells -/

/-- The cells of the store.  Ids of blocks and breakpoints are kept as numbers. -/
structure IndexerCells where
  blocks : Map ℕ Block
  breakpoints : Map ℕ V03State
  lastBlockInDb : Option U64
  tipSlot : Option Slot
  zoneCursor : Option Slot
  stallReason : Option StallReason

namespace IndexerCells

/-- An empty database. -/
def empty : IndexerCells where
  blocks := ∅
  breakpoints := ∅
  lastBlockInDb := none
  tipSlot := none
  zoneCursor := none
  stallReason := none

def getBlock (cells : IndexerCells) (blockId : ℕ) : Option Block := cells.blocks.lookup blockId

/-- The id of the last block, 0 if there is none. -/
def lastBlockId (cells : IndexerCells) : ℕ := (cells.lastBlockInDb.map Fin.val).getD 0

/-- `RocksDBIO::open_or_create`: the snapshot of the genesis is written once. -/
def openOrCreate (cells : IndexerCells) (initialState : V03State) : IndexerCells :=
  if (cells.breakpoints.lookup 0).isNone then
    { cells with breakpoints := cells.breakpoints.insert 0 initialState }
  else cells

/-- `put_block`. -/
def putBlock (cells : IndexerCells) (block : Block) (l1Slot : Slot) (postState : V03State) :
    IndexerCells :=
  let lastCurrBlock := cells.lastBlockId
  let blockId := block.header.blockId.val
  { cells with
    blocks := cells.blocks.insert blockId block
    lastBlockInDb := if lastCurrBlock < blockId then some block.header.blockId
      else cells.lastBlockInDb
    tipSlot := if lastCurrBlock < blockId then some l1Slot else cells.tipSlot
    breakpoints := if blockId % breakpointInterval = 0 then
        cells.breakpoints.insert (blockId / breakpointInterval) postState
      else cells.breakpoints }

/-- `validated_tip`: the last block applied. -/
def validatedTip (cells : IndexerCells) : Option Tip := do
  let blockId ← cells.lastBlockInDb
  let block ← cells.getBlock blockId.val
  some (Tip.ofBlock block)

/-- `record_stall`: the first stall is kept, later ones are counted. -/
def recordStall (cells : IndexerCells) (header : Option BlockHeader) (l1Slot : Slot)
    (error : BlockIngestError) : IndexerCells :=
  { cells with
    stallReason := some (match cells.stallReason with
      | none => .new header l1Slot error
      | some stall => stall.escalate) }

/-- `get_block_batch_seq`: the blocks up to the first one that is missing. -/
def getBlockBatchSeq (cells : IndexerCells) : List ℕ → List Block
  | [] => []
  | blockId :: seq =>
    match cells.getBlock blockId with
    | none => []
    | some block => block :: cells.getBlockBatchSeq seq

/-- `get_block_batch`: ids are counted down from below the bound, or from the last block. -/
def getBlockBatch (cells : IndexerCells) (before : Option U64) (limit : U64) : List Block :=
  match (before.map (·.val - 1)).or (cells.lastBlockInDb.map Fin.val) with
  | none => []
  | some startBlockId =>
    cells.getBlockBatchSeq (((range limit.val).map (startBlockId - ·)).takeWhile (· ≠ 0))

/-- The walk down to the nearest breakpoint that exists. -/
def nearestBreakpoint (cells : IndexerCells) : ℕ → Option (ℕ × V03State)
  | 0 => (cells.breakpoints.lookup 0).map fun state => (0, state)
  | brId + 1 =>
    match cells.breakpoints.lookup (brId + 1) with
    | some state => some (brId + 1, state)
    | none => cells.nearestBreakpoint brId

/-! ### Batches of blocks -/

/-- The store holds the blocks 1 to `n`. -/
structure HoldsUpTo (cells : IndexerCells) (n : ℕ) : Prop where
  stored : ∀ blockId, (cells.getBlock blockId).isSome ↔ 1 ≤ blockId ∧ blockId ≤ n
  last : cells.lastBlockId = n

/-- The newest of the blocks 1 to `n` below a bound, in descending order. -/
def newestBlocks (cells : IndexerCells) (n : ℕ) (before : Option U64) (limit : U64) : List Block :=
  (((range' 1 n).filter fun blockId => before.all (blockId < ·.val)).reverse.take
    limit.val).filterMap cells.getBlock

variable {cells : IndexerCells} {n : ℕ} {before : Option U64} {limit : U64}

theorem countdown_eq (start limit : ℕ) :
    ((range limit).map (start - ·)).takeWhile (· ≠ 0) = (range' 1 start).reverse.take limit := by
  induction limit generalizing start with
  | zero => rfl
  | succ limit ih =>
    rw [List.range_succ_eq_map]
    cases start with
    | zero => rfl
    | succ start =>
      rw [List.range'_1_concat, List.reverse_concat, Nat.add_comm 1, List.take_succ_cons, ← ih]
      simp [Function.comp_def]

theorem HoldsUpTo.getBlockBatch (h : cells.HoldsUpTo n) :
    cells.getBlockBatch before limit = cells.getBlockBatchSeq
      ((range' 1 (before.elim n (·.val - 1))).reverse.take limit.val) := by
  rw [IndexerCells.getBlockBatch]
  cases before with
  | some beforeId => exact congrArg _ (countdown_eq _ _)
  | none =>
    have hlast := h.last
    rw [lastBlockId] at hlast
    cases hdb : cells.lastBlockInDb with
    | none =>
      obtain rfl : 0 = n := by rwa [hdb] at hlast
      exact (congrArg cells.getBlockBatchSeq List.take_nil).symm
    | some last =>
      obtain rfl : last.val = n := by rwa [hdb] at hlast
      exact congrArg _ (countdown_eq _ _)

theorem getBlockBatchSeq_of_stored {seq : List ℕ}
    (h : ∀ blockId ∈ seq, (cells.getBlock blockId).isSome) :
    cells.getBlockBatchSeq seq = seq.filterMap cells.getBlock := by
  induction seq with
  | nil => rfl
  | cons blockId seq ih =>
    obtain ⟨hblock, hseq⟩ := forall_mem_cons.mp h
    obtain ⟨block, hblock⟩ := isSome_iff_exists.mp hblock
    rw [getBlockBatchSeq, hblock, List.filterMap_cons_some hblock, ← ih hseq]

theorem filter_range_before (n : ℕ) (before : Option U64) :
    (range' 1 n).filter (fun blockId => before.all (blockId < ·.val)) =
      range' 1 (min n (before.elim n (·.val - 1))) := by
  obtain ⟨rest, hrest⟩ := Nat.exists_eq_add_of_le (min_le_left n (before.elim n (·.val - 1)))
  conv_lhs => rw [hrest, ← List.range'_append_1, filter_append]
  rw [List.filter_eq_self.mpr, List.filter_eq_nil_iff.mpr, List.append_nil]
  all_goals
    intro blockId hmem
    rw [mem_range'_1] at hmem
    cases before <;> simp at hmem hrest ⊢ <;> omega

/-- **A batch is the newest blocks below the bound, unless the bound is beyond the store.**  The
first id below such a bound is missing, and the batch is empty. -/
theorem getBlockBatch_newest_iff (h : cells.HoldsUpTo n) :
    cells.getBlockBatch before limit = cells.newestBlocks n before limit ↔
      (∀ beforeId ∈ before, beforeId.val ≤ n + 1) ∨ limit.val = 0 ∨ n = 0 := by
  rw [h.getBlockBatch, newestBlocks, filter_range_before]
  by_cases hle : before.elim n (·.val - 1) ≤ n
  · rw [min_eq_right hle, getBlockBatchSeq_of_stored]
    · refine iff_of_true rfl (.inl fun beforeId hmem => ?_)
      cases hmem
      have : beforeId.val - 1 ≤ n := hle
      omega
    · intro blockId hmem
      have := mem_range'_1.mp (List.mem_reverse.mp (List.mem_of_mem_take hmem))
      exact (h.stored blockId).mpr (by omega)
  · rw [min_eq_left (by omega)]
    cases before with
    | none => exact absurd le_rfl hle
    | some beforeId =>
      have hbeyond : n < beforeId.val - 1 := not_le.mp hle
      obtain ⟨start, hstart⟩ := Nat.exists_eq_add_of_lt hbeyond
      have hfirst : cells.getBlock (n + start + 1) = none :=
        Option.not_isSome_iff_eq_none.mp fun hsome => by
          have := (h.stored _).mp hsome
          omega
      rw [elim_some]
      rw [hstart, List.range'_1_concat, List.reverse_concat]
      cases hlimit : limit.val with
      | zero => exact iff_of_true rfl (.inr (.inl rfl))
      | succ limit =>
        rw [List.take_succ_cons, getBlockBatchSeq, Nat.add_comm 1, hfirst]
        cases n with
        | zero => exact iff_of_true rfl (.inr (.inr rfl))
        | succ n =>
          obtain ⟨block, hblock⟩ :=
            isSome_iff_exists.mp ((h.stored (n + 1)).mpr (by omega))
          rw [List.range'_1_concat, List.reverse_concat, List.take_succ_cons, Nat.add_comm 1,
            List.filterMap_cons_some hblock]
          simp
          omega

/-- A block without transactions, under its id. -/
def emptyBlock (blockId : ℕ) : ℕ × Block :=
  (blockId, ⟨⟨Fin.ofNat _ blockId, ofHex 0, ofHex 0, 0, .ofHex 0 0⟩, ⟨[]⟩, .finalized⟩)

/-- A store of such blocks up to `last`. -/
def filled (last : U64) : IndexerCells :=
  { empty with
    blocks := insertAll ∅ ((range' 1 last.val).map emptyBlock)
    lastBlockInDb := some last }

theorem filled_holds (last : U64) : (filled last).HoldsUpTo last.val := by
  have hids : ((range' 1 last.val).map emptyBlock).map Prod.fst = range' 1 last.val := by
    rw [List.map_map]
    exact List.map_id _
  refine ⟨fun blockId => ?_, rfl⟩
  rw [getBlock, filled]
  by_cases h : blockId ∈ range' 1 last.val
  · have hmem : (blockId, (emptyBlock blockId).2) ∈ (range' 1 last.val).map emptyBlock :=
      List.mem_map.mpr ⟨blockId, h, rfl⟩
    rw [Ledger.lookup_insertAll_of_mem (by rw [hids]; exact List.nodup_range' ..) hmem]
    have := mem_range'_1.mp h
    exact iff_of_true rfl (by omega)
  · rw [Ledger.lookup_insertAll_of_notMem (by rwa [hids])]
    exact iff_of_false Bool.false_ne_true fun hle => h (mem_range'_1.mpr (by omega))

/-- Below 3 there is a block, and the batch has none. -/
theorem single_below_three : (filled 1).HoldsUpTo 1 ∧
    (filled 1).getBlockBatch (some 3) 1 = [] ∧
    ((filled 1).newestBlocks 1 (some 3) 1).length = 1 :=
  ⟨filled_holds 1, by decide, by decide⟩

/-- The two newest of three blocks. -/
theorem triple_below_four : (filled 3).HoldsUpTo 3 ∧
    ((filled 3).getBlockBatch (some 4) 2).map (·.header.blockId) = [3, 2] ∧
    (filled 3).getBlockBatch (some 4) 2 = (filled 3).newestBlocks 3 (some 4) 2 :=
  ⟨filled_holds 3, by decide, (getBlockBatch_newest_iff (filled_holds 3)).mpr (.inl (by simp))⟩

end IndexerCells

/-- `closest_breakpoint_id`. -/
def closestBreakpointId (blockId : ℕ) : ℕ := (blockId - 1) / breakpointInterval

/-! ### Replay -/

/-- The errors of the store.  Failed transactions are kept with their error. -/
inductive DbError
  | interaction (message : String)
  | execution (reason : LeeError)
  | panicked
  deriving DecidableEq

def DbError.ofTransition : TransitionError → DbError
  | .rejected reason => .execution reason
  | .panicked => .panicked

section

variable [Sha256] [Schnorr] [Builtins] [Receipts] [ImageId] [ClockBuiltin] [Serde Timestamp]

/-- A round of the loop over the user transactions. -/
def replayUserTransaction (exec : Executor) (block : Block) (state : V03State)
    (transaction : LeeTransaction) : Except DbError V03State :=
  if block.header.blockId = genesisBlockId then
    match transaction with
    | .publicTx genesisTx =>
      (transitionFromPublicTransaction exec state genesisTx block.header.blockId
        block.header.timestamp).mapError .ofTransition
    | _ => .error (.interaction "Genesis block should contain only public transactions")
  else
    (transaction.executeOnState exec state block.header.blockId
      block.header.timestamp).mapError .ofTransition

/-- `apply_block_transactions`. -/
def applyBlockTransactions (exec : Executor) (block : Block) (state : V03State) :
    Except DbError V03State :=
  match block.body.transactions.getLast? with
  | none => .error (.interaction "Block must contain clock transaction at the end")
  | some clockTx => do
    ensure (clockTx = .publicTx (clockInvocation block.header.timestamp)) (.interaction
      "Last transaction in block must be the clock invocation for the block timestamp")
    let state ← block.body.transactions.dropLast.foldlM (replayUserTransaction exec block) state
    match clockTx with
    | .publicTx clockPublicTx =>
      (transitionFromPublicTransaction exec state clockPublicTx block.header.blockId
        block.header.timestamp).mapError .ofTransition
    | _ => .error (.interaction "Clock invocation must be a public transaction")

/-- `calculate_state_for_id`. -/
def calculateStateForId (exec : Executor) (cells : IndexerCells) (blockId : U64) :
    Except DbError V03State := do
  ensure (blockId.val ≤ cells.lastBlockId) (.interaction "Block on this id not found")
  match cells.nearestBreakpoint (closestBreakpointId blockId.val) with
  | none => .error (.interaction "Breakpoint 0 is missing")
  | some (brId, state) =>
    let start := breakpointInterval * brId
    (cells.getBlockBatchSeq (range' (start + 1) (blockId.val - start))).foldlM
      (fun state block => applyBlockTransactions exec block state) state

/-- `final_state`. -/
def finalState (exec : Executor) (cells : IndexerCells) : Except DbError V03State :=
  calculateStateForId exec cells (cells.lastBlockInDb.getD 0)

variable {exec : Executor} {block : Block} {state state' : V03State}

omit [ClockBuiltin] [Serde Timestamp] in
/-- A transaction of a block is replayed as it was applied. -/
theorem replayUserTransaction_of_applyUserTransaction {entry : LeeTransaction × ℕ}
    (h : applyUserTransaction exec block state entry = .ok state') :
    replayUserTransaction exec block state entry.1 = .ok state' := by
  obtain ⟨transaction, txIndex⟩ := entry
  unfold applyUserTransaction at h
  unfold replayUserTransaction
  simp only at h ⊢
  split at h
  · rename_i hgenesis
    rw [if_pos hgenesis]
    cases transaction with
    | publicTx publicTx => exact mapError_eq_ok.mpr (stateTransition_ok h)
    | privacyPreserving ptx | programDeployment dtx => cases h
  · rename_i hlater
    rw [if_neg hlater]
    exact mapError_eq_ok.mpr (stateTransition_ok h)

omit [ClockBuiltin] [Serde Timestamp] in
theorem replayUserTransactions {txs : List LeeTransaction} (n : ℕ)
    (h : (txs.zipIdx n).foldlM (applyUserTransaction exec block) state = .ok state') :
    txs.foldlM (replayUserTransaction exec block) state = .ok state' := by
  induction txs generalizing state n with
  | nil =>
    obtain rfl : state = state' := ok.inj h
    rfl
  | cons tx txs ih =>
    rw [zipIdx_cons] at h
    obtain ⟨mid, hmid, hrest⟩ := foldlM_cons_eq_ok.mp h
    exact foldlM_cons_eq_ok.mpr ⟨mid, replayUserTransaction_of_applyUserTransaction hmid,
      ih (n + 1) hrest⟩

/-- **The two interpreters agree.**  A block that was applied is replayed to the same state. -/
theorem applyBlockTransactions_of_applyBlockToState
    (h : applyBlockToState exec block state = .ok state') :
    applyBlockTransactions exec block state = .ok state' := by
  obtain ⟨mid, hlast, hmid, htick⟩ := applyBlockToState_ok h
  unfold applyBlockTransactions
  rw [hlast]
  exact ensure_bind_eq_ok.mpr ⟨rfl, bind_eq_ok.mpr ⟨mid, replayUserTransactions 0 hmid,
    mapError_eq_ok.mpr htick⟩⟩

/-! ### The indexer -/

/-- `is_retryable`. -/
def BlockIngestError.isRetryable : BlockIngestError → Bool
  | .stateTransition _ _ => true
  | _ => false

/-- The store and the state in memory. -/
structure IndexerStore where
  cells : IndexerCells
  currentState : V03State

namespace IndexerStore

/-- Where the indexer stands. -/
def position (store : IndexerStore) : Position := (store.cells.validatedTip, store.currentState)

/-- `open_db`. -/
def openDb (exec : Executor) (cells : IndexerCells) (initialState : V03State) :
    Except DbError IndexerStore := do
  let cells := cells.openOrCreate initialState
  let currentState ← finalState exec cells
  pure { cells, currentState }

/-- The block is stored already under its id, at or below the tip. -/
def HasApplied (store : IndexerStore) (block : Block) : Prop :=
  ∃ tip ∈ store.cells.validatedTip, block.header.blockId ≤ tip.blockId ∧
    ∃ stored ∈ store.cells.getBlock block.header.blockId.val, stored.header.hash = block.header.hash

instance (store : IndexerStore) (block : Block) : Decidable (store.HasApplied block) :=
  inferInstanceAs (Decidable (∃ tip ∈ store.cells.validatedTip, _))

/-- The block is set aside, and the stall recorded. -/
def park (store : IndexerStore) (block : Block) (l1Slot : Slot) (error : BlockIngestError) :
    IndexerStore × AcceptOutcome :=
  ({ store with cells := store.cells.recordStall (some block.header) l1Slot error }, .parked error)

/-- `accept_block`. -/
def acceptBlock (exec : Executor) (store : IndexerStore) (block : Block) (l1Slot : Slot) :
    Except ApplyPanic (IndexerStore × AcceptOutcome) :=
  if store.HasApplied block then .ok (store, .alreadyApplied)
  else
    match validateAgainstTip store.cells.validatedTip block with
    | .error (.panicked panic) => .error panic
    | .error (.rejected error) => .ok (store.park block l1Slot error)
    | .ok () =>
      match applyBlockToState exec block store.currentState with
      | .error (.panicked panic) => .error panic
      | .error (.rejected error) =>
        if error.isRetryable then .ok (store, .retryableFailure error)
        else .ok (store.park block l1Slot error)
      | .ok scratch =>
        let cells := store.cells.putBlock block.finalized l1Slot scratch
        .ok ({ cells := { cells with stallReason := none }, currentState := scratch }, .applied)

/-- What accepting a block can do.  It is applied if it advances the position, and else nothing
changes but the record of the stall. -/
inductive Accepted (exec : Executor) (store : IndexerStore) (block : Block) (l1Slot : Slot) :
    IndexerStore → AcceptOutcome → Prop
  | applied {state : V03State}
      (hadvance : advance exec store.position block = some (some (Tip.ofBlock block), state)) :
      Accepted exec store block l1Slot
        { cells := { store.cells.putBlock block.finalized l1Slot state with stallReason := none }
          currentState := state } .applied
  | skipped {outcome : AcceptOutcome} (stallReason : Option StallReason)
      (hadvance : advance exec store.position block = none) (hne : outcome ≠ .applied) :
      Accepted exec store block l1Slot
        { store with cells := { store.cells with stallReason } } outcome

variable {exec : Executor} {block : Block}

/-- What has been applied is behind the tip. -/
theorem advance_eq_none_of_hasApplied {store : IndexerStore} (h : store.HasApplied block) :
    advance exec store.position block = none := by
  obtain ⟨tip, htip, hle, -⟩ := h
  cases hadvance : advance exec store.position block with
  | none => rfl
  | some position =>
    have hid := (advance_continues hadvance).blockId
    have hheight : height store.position.1 = tip.blockId.val := by
      show height store.cells.validatedTip = tip.blockId.val
      rw [Option.mem_def.mp htip]
      rfl
    have hle : block.header.blockId.val ≤ tip.blockId.val := hle
    omega

theorem advance_eq_none_of_error {position : Position} {error : ApplyError}
    (h : applyBlock exec position.1 block position.2 = .error error) :
    advance exec position block = none := by
  rw [advance, h]

/-- **What accepting a block can do.** -/
theorem acceptBlock_ok {store store' : IndexerStore} {l1Slot : Slot} {outcome : AcceptOutcome}
    (h : acceptBlock exec store block l1Slot = .ok (store', outcome)) :
    Accepted exec store block l1Slot store' outcome := by
  unfold acceptBlock at h
  split at h
  · rename_i happlied
    cases h
    exact .skipped _ (advance_eq_none_of_hasApplied happlied) (by simp)
  · split at h
    · cases h
    · rename_i error hvalid
      have happly : applyBlock exec store.position.1 block store.position.2 =
          .error (.rejected error) := by
        show (validateAgainstTip store.cells.validatedTip block >>= _) = _
        rw [hvalid]
        rfl
      have hnone := advance_eq_none_of_error happly
      cases h
      exact .skipped _ hnone (by simp)
    · rename_i hvalid
      have happly : applyBlock exec store.position.1 block store.position.2 =
          applyBlockToState exec block store.currentState := by
        show (validateAgainstTip store.cells.validatedTip block >>= _) = _
        rw [hvalid]
        rfl
      split at h
      · cases h
      · rename_i hfailed
        have hnone := advance_eq_none_of_error (happly.trans hfailed)
        split at h
        · cases h
          exact .skipped _ hnone (by simp)
        · cases h
          exact .skipped _ hnone (by simp)
      · rename_i scratch hscratch
        cases h
        exact .applied (advance_eq_some.mpr ⟨scratch, happly.trans hscratch, rfl⟩)

end IndexerStore

end

end Lssa
