/-
The watcher of a peer zone (`lez/sequencer/core/src/cross_zone_watcher.rs`).

The watcher reads the finalized channel of a peer, slot by slot.  From a block that is the
next one on the chain of the peer it records the deliveries in the store, and then the
block as the tip of the chain; when a slot is done it moves the floor, from which a restart
reads on.  These are three writes, and the process may crash before any of them, or a write
may fail; what the rest of the node does to the pending deliveries in the meantime is left
open (`StoreAccess`).

A `World` is the store with what has happened so far: the keys that ever had a pending
record, the blocks that became the tip, and the messages that were read, each with the tip it
was read at.  No function of the model reads the latter three.
-/
import Lssa.CrossZone.Acceptance
import Lssa.CrossZone.Emission
import Lssa.Library.Crash
import Lssa.Sequencer.Builder

open Crash

namespace Lssa

open CrossZoneInbox (ZoneId)
open LeeTransaction (TransactionBorsh)

/-- The Borsh decoder of blocks. -/
class BlockBorsh where
  fromSlice : List UInt8 → Option Block

namespace Watcher

/-- A message on the channel of a zone; only blocks matter here. -/
inductive ZoneMessage
  | block (data : List UInt8)
  | deposit
  | withdraw
  deriving DecidableEq

structure PeerContext where
  peerZone : ZoneId
  selfZone : ZoneId
  expectedPubkey : Option PublicKey

/-- Why one pass over the stream of a peer ended. -/
inductive PassOutcome
  | drained
  | stranded
  | undecodable (slot : Slot)
  | undelivered (slot : Slot)
  deriving DecidableEq

/-- What the store holds for one watcher: the pending deliveries with their number, and the
tip and the floor of the peer. -/
structure Store where
  pending : Map (Bytes 32) PendingCrossZoneDispatchRecord
  pendingCount : U64
  peerTip : Option PeerChainTip
  peerFloor : Option Slot

/-- A message that was read, and the tip it was read at. -/
structure Read where
  message : ZoneMessage
  slot : Slot
  tip : Option PeerChainTip

/-- The store, with what has happened so far. -/
structure World where
  store : Store
  recorded : Finset (Bytes 32)
  followed : List Block
  reads : List Read

inductive StoreOutcome
  | done
  | failed
  deriving DecidableEq

/-- An access to the store: what the rest of the node has made of the pending deliveries by
then, and whether the access succeeds. -/
structure StoreAccess where
  pending : Map (Bytes 32) PendingCrossZoneDispatchRecord
  pendingCount : U64
  outcome : StoreOutcome

/-- What a running watcher keeps in memory. -/
structure Memory where
  cursor : Option Slot
  tip : Option PeerChainTip

/-- The world as an access finds it; a record that is found was written. -/
def World.found (world : World) (found : StoreAccess) : World :=
  { world with
    store := { world.store with pending := found.pending, pendingCount := found.pendingCount }
    recorded := world.recorded ∪ found.pending.keys.toFinset }

abbrev Task := Process World StoreAccess

/-- Access the store. -/
def access : Task StoreOutcome := do
  let found ← Process.access
  Process.modify fun world => world.found found
  pure found.outcome

/-! ### The store -/

/-- `MAX_PENDING_CROSS_ZONE_DISPATCHES`. -/
def maxPendingCrossZoneDispatches : ℕ := 4096

/-- `saturating_add` on a `u64`. -/
def saturatingAdd (a : U64) (n : ℕ) : U64 := ⟨min (a.val + n) (2 ^ 64 - 1), by omega⟩

/-- The records that are neither in the store nor offered twice. -/
def newRecords (pending : Map (Bytes 32) PendingCrossZoneDispatchRecord) :
    Finset (Bytes 32) → List PendingCrossZoneDispatchRecord → List PendingCrossZoneDispatchRecord
  | _, [] => []
  | offeredKeys, dispatch :: rest =>
    if dispatch.messageKey ∈ offeredKeys then newRecords pending offeredKeys rest
    else if dispatch.messageKey ∈ pending then
      newRecords pending (insert dispatch.messageKey offeredKeys) rest
    else dispatch :: newRecords pending (insert dispatch.messageKey offeredKeys) rest

/-- The batch that records deliveries. -/
def World.record (records : List PendingCrossZoneDispatchRecord) (after : U64) (world : World) :
    World :=
  { world with
    store :=
      { world.store with
        pending := insertAll world.store.pending
          (records.map fun record => (record.messageKey, record))
        pendingCount := after }
    recorded := world.recorded ∪ (records.map PendingCrossZoneDispatchRecord.messageKey).toFinset }

/-- The block as the tip. -/
def World.follow (block : Block) (next : PeerChainTip) (world : World) : World :=
  { world with
    store := { world.store with peerTip := some next }
    followed := world.followed ++ [block] }

def World.setFloor (floor : Option Slot) (world : World) : World :=
  { world with store := { world.store with peerFloor := floor } }

/-- A message was read. -/
def World.observe (message : ZoneMessage) (slot : Slot) (tip : Option PeerChainTip)
    (world : World) : World :=
  { world with reads := ⟨message, slot, tip⟩ :: world.reads }

/-- `add_pending_cross_zone_dispatches`; `none` is an error. -/
def addPendingCrossZoneDispatches (dispatches : List PendingCrossZoneDispatchRecord) :
    Task (Option ℕ) :=
  if dispatches = [] then pure (some 0)
  else do
    match ← access with
    | .failed => pure none
    | .done =>
      let store := (← Process.get).store
      let records := newRecords store.pending ∅ dispatches
      let accepted := records.length
      if accepted = 0 then pure (some 0)
      else
        let after := saturatingAdd store.pendingCount accepted
        if maxPendingCrossZoneDispatches < after.val then pure none
        else do
          Process.modify (World.record records after)
          pure (some accepted)

/-- `put_cross_zone_peer_tip`, for a block. -/
def putCrossZonePeerTip (block : Block) (next : PeerChainTip) : Task StoreOutcome := do
  match ← access with
  | .failed => pure .failed
  | .done => do
    Process.modify (World.follow block next)
    pure .done

/-- Write the floor, or clear it. -/
def putCrossZonePeerFloor (floor : Option Slot) : Task StoreOutcome := do
  match ← access with
  | .failed => pure .failed
  | .done => do
    Process.modify (World.setFloor floor)
    pure .done

/-! ### The watcher -/

/-- What a starting watcher does with its stored floor and chain tip. -/
structure Resume where
  cursor : Option Slot
  clearFloor : Bool
  deriving DecidableEq

/-- `resume_from`. -/
def resumeFrom (tip : Option PeerChainTip) (floor : Option Slot) : Resume :=
  match tip with
  | some _ => ⟨floor, false⟩
  | none => ⟨none, floor.isSome⟩

/-- `advance_cursor`: a floor that could not be written is only logged. -/
def advanceCursor (memory : Memory) (slot : Slot) : Task Memory := do
  let _ ← putCrossZonePeerFloor (some slot)
  pure { memory with cursor := some slot }

/-- Leave the slot in progress if the message is from another one. -/
def enterSlot (memory : Memory) (inProgress : Option Slot) (slot : Slot) : Task Memory :=
  if inProgress = some slot then pure memory
  else
    match inProgress with
    | some done => advanceCursor memory done
    | none => pure memory

/-- `u32::try_from(index).unwrap_or(u32::MAX)`. -/
def srcTxIndex (index : ℕ) : U32 := ⟨min index (2 ^ 32 - 1), by omega⟩

section

variable [Sha256] [Schnorr] [Builtins] [Emitters] [Serde CrossZoneInbox.Instruction]
  [Serde Ping.SenderInstruction] [Serde BridgeLock.Instruction]

/-- The delivery of a transaction, if it emits to this zone. -/
def delivery (peer : PeerContext) (block : Block) (blockHash : HashType)
    (entry : LeeTransaction × ℕ) : Option PendingCrossZoneDispatchRecord :=
  let (tx, index) := entry
  match tx with
  | .publicTx publicTx =>
    match extractEmission publicTx.message.programId publicTx.message.instructionData with
    | none => none
    | some emission =>
      if emission.targetZone ≠ peer.selfZone then none
      else if isSequencerOnlyProgram emission.targetProgramId then none
      else
        let dispatch := buildDispatchFromEmission
          { srcZone := peer.peerZone
            srcBlockId := block.header.blockId
            srcBlockHash := blockHash
            srcTxIndex := srcTxIndex index
            srcProgramId := publicTx.message.programId }
          emission.targetProgramId emission.targetAccounts emission.payload
        some
          { messageKey := messageKey peer.peerZone block.header.blockId (srcTxIndex index)
            transaction := (LeeTransaction.publicTx dispatch).toVec }
  | _ => none

/-- The deliveries of a block. -/
def deliveries (peer : PeerContext) (block : Block) (blockHash : HashType) :
    List PendingCrossZoneDispatchRecord :=
  block.body.transactions.zipIdx.filterMap (delivery peer block blockHash)

/-- The dispatch of an emission. -/
def dispatchOf (peer : PeerContext) (block : Block) (ptx : PublicTransaction) (index : ℕ)
    (emission : Emission) : PublicTransaction :=
  buildDispatchFromEmission
    { srcZone := peer.peerZone
      srcBlockId := block.header.blockId
      srcBlockHash := block.recomputeHash
      srcTxIndex := srcTxIndex index
      srcProgramId := ptx.message.programId }
    emission.targetProgramId emission.targetAccounts emission.payload

/-- The dispatches of a block, once encoded, decode to themselves or not at all. -/
def DispatchesDecode [TransactionBorsh] (peer : PeerContext) (block : Block) : Prop :=
  ∀ ptx index emission, (.publicTx ptx, index) ∈ block.body.transactions.zipIdx →
    extractEmission ptx.message.programId ptx.message.instructionData = some emission →
    ∀ tx, TransactionBorsh.fromSlice
        (LeeTransaction.publicTx (dispatchOf peer block ptx index emission)).toVec = .ok tx →
      tx = .publicTx (dispatchOf peer block ptx index emission)

omit [Schnorr] in
/-- A delivery is the dispatch of an emission of the block. -/
theorem mem_deliveries {peer : PeerContext} {block : Block}
    {record : PendingCrossZoneDispatchRecord}
    (h : record ∈ deliveries peer block block.recomputeHash) :
    ∃ ptx index emission, (.publicTx ptx, index) ∈ block.body.transactions.zipIdx ∧
      extractEmission ptx.message.programId ptx.message.instructionData = some emission ∧
      emission.targetZone = peer.selfZone ∧
      record.transaction =
        (LeeTransaction.publicTx (dispatchOf peer block ptx index emission)).toVec := by
  obtain ⟨⟨tx, index⟩, hentry, hdelivery⟩ := mem_filterMap.mp h
  cases tx with
  | publicTx ptx =>
    unfold delivery at hdelivery
    dsimp only at hdelivery
    split at hdelivery
    · cases hdelivery
    · rename_i emission hemission
      split at hdelivery
      · cases hdelivery
      · rename_i hzone
        split at hdelivery
        · cases hdelivery
        · exact ⟨ptx, index, emission, hentry, hemission, not_not.mp hzone,
            (congrArg PendingCrossZoneDispatchRecord.transaction (some.inj hdelivery)).symm⟩
  | privacyPreserving ptx | programDeployment dtx => exact absurd hdelivery (by simp [delivery])

/-- `record_block_deliveries`. -/
def recordBlockDeliveries (peer : PeerContext) (block : Block) (blockHash : HashType) :
    Task Bool := do
  match ← addPendingCrossZoneDispatches (deliveries peer block blockHash) with
  | some _ => pure true
  | none => pure false

variable [BlockBorsh]

/-- `consume_peer_stream`, from a message on: with the slot in progress, and the numbers of the
blocks placed and skipped. -/
def consumePeerStream (peer : PeerContext) : List (ZoneMessage × Slot) → Option Slot → ℕ → ℕ →
    Memory → Task (PassOutcome × Memory)
  | [], inProgress, placed, skipped, memory => do
    let memory ← match inProgress with
      | some done => advanceCursor memory done
      | none => pure memory
    pure (if placed = 0 ∧ 0 < skipped then .stranded else .drained, memory)
  | (message, slot) :: stream, inProgress, placed, skipped, memory => do
    let memory ← enterSlot memory inProgress slot
    Process.modify (World.observe message slot memory.tip)
    match message with
    | .deposit => consumePeerStream peer stream (some slot) placed skipped memory
    | .withdraw => consumePeerStream peer stream (some slot) placed skipped memory
    | .block data =>
      match BlockBorsh.fromSlice data with
      | none => pure (.undecodable slot, memory)
      | some block =>
        match screenPeerBlock block peer.expectedPubkey with
        | .error _ => consumePeerStream peer stream (some slot) placed (skipped + 1) memory
        | .ok recomputed =>
          match linkToTip memory.tip block recomputed with
          | .alreadySeen _ => consumePeerStream peer stream (some slot) placed skipped memory
          | .offChain _ => consumePeerStream peer stream (some slot) placed (skipped + 1) memory
          | .next blockHash => do
            match ← recordBlockDeliveries peer block blockHash with
            | false => pure (.undelivered slot, memory)
            | true => do
              let next : PeerChainTip := ⟨block.header.blockId, blockHash⟩
              match ← putCrossZonePeerTip block next with
              | .failed => pure (.undelivered slot, memory)
              | .done =>
                consumePeerStream peer stream (some slot) (placed + 1) skipped
                  { memory with tip := some next }

/-- What the channel serves to a reader: the messages above its cursor, up to the slot that is
finalized by then. -/
def served (channel : List (ZoneMessage × Slot)) (cursor : Option Slot) (finalized : Slot) :
    List (ZoneMessage × Slot) :=
  channel.filter fun message =>
    cursor.all (fun slot => decide (slot < message.2)) && decide (message.2 ≤ finalized)

/-- The loop of `watch_peer`: a pass for each time it polls. -/
def passes (peer : PeerContext) (channel : List (ZoneMessage × Slot)) :
    List Slot → Memory → Task Unit
  | [], _ => pure ()
  | finalized :: rest, memory => do
    let stream := served channel memory.cursor finalized
    let (_, memory) ← consumePeerStream peer stream none 0 0 memory
    passes peer channel rest memory

/-- How `watch_peer` starts; `none` if it stops. -/
def resume : Task (Option Memory) := do
  match ← access with
  | .failed => pure none
  | .done =>
    let floor := (← Process.get).store.peerFloor
    match ← access with
    | .failed => pure none
    | .done =>
      let tip := (← Process.get).store.peerTip
      let resume := resumeFrom tip floor
      if resume.clearFloor then
        match ← putCrossZonePeerFloor none with
        | .failed => pure none
        | .done => pure (some ⟨resume.cursor, tip⟩)
      else pure (some ⟨resume.cursor, tip⟩)

/-- `watch_peer`. -/
def watchPeer (peer : PeerContext) (channel : List (ZoneMessage × Slot)) (polls : List Slot) :
    Task Unit := do
  match ← resume with
  | none => pure ()
  | some memory => passes peer channel polls memory

/-- The life of a watcher process: what is finalized each time it polls, and the accesses that
it makes before it is gone. -/
structure Life where
  polls : List Slot
  accesses : List StoreAccess

/-- The world after a life. -/
def World.live (peer : PeerContext) (channel : List (ZoneMessage × Slot)) (world : World)
    (life : Life) : World :=
  (watchPeer peer channel life.polls).leaves world life.accesses

end

end Watcher

end Lssa
