/-
Two zones and the bridge between them.

The source zone locks balance in the escrow of `bridge_lock`; the target zone mints the wrapped
token for it.  Between them is the watcher of the target zone, which reads the finalized blocks of
the source zone and records the deliveries, and the blocks of the target zone run no dispatch that
was not recorded (`Moves`).

The source zone may replace its blocks down to the finalized ones, and the target zone all of its
blocks, so every state of a zone is what some chain of blocks makes of its first state.  A
dispatch that mints is one that was recorded from a lock at some place of the source chain, and
the shards of the inbox let each place mint once.  So the supply is at most what the source chain
locked.

* `escrow_of_history` — the escrow has what the transactions of a chain lock;
* `minted_of_delivered` — what is minted was locked at one place of the source chain;
* `Covered.transition` — what a transaction of the target zone does to what is minted;
* **`supply_covered`** — in every reachable pair of states, the supply is covered by the escrow.
-/
import Lssa.BlockHistory
import Lssa.CrossZone.Backing
import Lssa.CrossZone.Supply
import Lssa.CrossZone.Watcher

open DepthFirst Borsh Runs TwoTier

namespace Lssa

open Builtins (crossZoneInbox)

open PublicExecution LeeTransaction InboundDelivery

namespace TwoZones

open CrossZoneInbox (ZoneId SeenShard Holds Shelf inboxSeenShardSeed inboxSeenShardAccountId
  inboxSourceMarkerAccountId deliveredMessage dispatchedMessage)
open BridgeLock (EscrowOwner escrowBalance escrowAccountId lockOf lockedBy)
open Watcher (PeerContext dispatchOf DispatchesDecode mem_deliveries)
open WrappedToken

/-! ### Privacy-preserving transactions -/

section

variable [Sha256]

/-- The transaction lists a PDA of the program, or leaves an account to the program. -/
def Touches (programId : ProgramId) (ptx : PrivacyPreservingTransaction) : Prop :=
  ∃ action ∈ ptx.message.publicActions,
    (∃ seed, action.accountId = forPublicPda programId seed) ∨
      action.postState.programOwner = ofProgramId programId

/-- No privacy-preserving transaction of the block touches the program. -/
def Spares (programId : ProgramId) (block : Block) : Prop :=
  ∀ ptx, .privacyPreserving ptx ∈ block.body.transactions → ¬Touches programId ptx

variable [Receipts] {ptx : PrivacyPreservingTransaction} {state state' : V03State}
  {diff : StateDiff} {circuitId programId : ProgramId}

section

variable (h : AcceptedPrivately circuitId ptx state diff)

include h

section

variable (happly : state.applyStateDiff diff = some state') (hnot : ¬Touches programId ptx)

include happly hnot

/-- A PDA of a program that the transaction does not touch is left as it is. -/
theorem funds_of_untouched (seed : PdaSeed) :
    SameFunds (state'.getAccountById (forPublicPda programId seed))
      (state.getAccountById (forPublicPda programId seed)) := by
  rcases h.same_or_action happly (forPublicPda programId seed) with
    hsame | ⟨action, haction, hid, -⟩
  · exact hsame
  · exact absurd ⟨action, haction, .inl ⟨seed, hid⟩⟩ hnot

/-- Nothing is left to a program that the transaction does not touch. -/
theorem owner_of_untouched (accountId : AccountId) :
    SameFunds (state'.getAccountById accountId) (state.getAccountById accountId) ∨
      (state'.getAccountById accountId).programOwner ≠ .ofProgramId programId := by
  rcases h.same_or_action happly accountId with hsame | ⟨action, haction, -, hfunds⟩
  · exact .inl hsame
  · refine .inr fun howned => hnot ⟨action, haction, .inr ?_⟩
    rw [← hfunds.programOwner, howned]

end

end

end

/-! ### The source zone -/

section

variable [Sha256] [Schnorr] [Builtins] [Receipts] [ImageId] [Serde WrappedToken.Instruction]
  [Serde CrossZoneOutbox.Instruction] [Serde BridgeLock.Instruction]
  {exec : Executor} {bridgeLock : ProgramId} {state state' : V03State}

/-- The escrow as the source zone has it: `bridge_lock` runs as written, and the account is a PDA
of it and nothing else. -/
structure Escrow (exec : Executor) (bridgeLock : ProgramId) : Prop where
  runs : Executes exec bridgeLock BridgeLock.main
  owns : ofProgramId bridgeLock ≠ defaultProgramOwner
  unambiguous : Sha256.Unambiguous (escrowAccountId bridgeLock).value
  notImage : ∀ bytecode imageId, ImageId.computeImageId bytecode = some imageId →
    ofProgramId imageId ≠ escrowAccountId bridgeLock

/-- The payload of a lock mints what is locked. -/
def Genuine (bridgeLock : ProgramId) (tx : LeeTransaction) : Prop :=
  ∀ lock ∈ lockOf bridgeLock tx,
    ∃ recipient, BridgeLock.decodeMint lock.2 = some (.mint recipient lock.1)

section

variable (h : Escrow exec bridgeLock) (howner : EscrowOwner bridgeLock state)

include h howner

theorem escrow_of_transition {tx : LeeTransaction} (htx : Transition exec tx state state')
    (hprivate : ∀ ptx, tx = .privacyPreserving ptx → ¬Touches bridgeLock ptx) :
    EscrowOwner bridgeLock state' ∧
      escrowBalance bridgeLock state + lockedBy bridgeLock tx ≤ escrowBalance bridgeLock state' ∧
      Genuine bridgeLock tx := by
  obtain ⟨blockId, timestamp, diff, hdiff, happly⟩ := htx.diff
  cases tx with
  | publicTx tx =>
    exact BridgeLock.escrow_of_accepted h.runs h.owns h.unambiguous howner
      (fromPublicTransaction_ok hdiff) happly
  | privacyPreserving ptx =>
    have hsame := funds_of_untouched (fromPrivacyPreservingTransaction_ok hdiff) happly
      (hprivate ptx rfl) BridgeLock.escrowSeed
    refine ⟨?_, ?_, fun lock hlock => absurd hlock (by simp [lockOf])⟩
    · rw [EscrowOwner, escrowAccountId, hsame.programOwner]
      exact howner
    · rw [escrowBalance, escrowBalance, escrowAccountId, hsame.balance]
      exact le_rfl
  | programDeployment dtx =>
    obtain ⟨imageId, himage, -, rfl⟩ := fromProgramDeploymentTransaction_ok hdiff
    have hsame := applyStateDiff_deployment happly rfl rfl rfl (h.notImage _ _ himage).symm
    refine ⟨?_, ?_, fun lock hlock => absurd hlock (by simp [lockOf])⟩
    · rw [EscrowOwner, hsame]
      exact howner
    · rw [escrowBalance, escrowBalance, hsame]
      exact le_rfl

/-- **The escrow has what a history locks**, and every lock in it is genuine. -/
theorem escrow_of_history {txs : List LeeTransaction} (hrun : History exec state txs state')
    (hprivate : ∀ ptx, .privacyPreserving ptx ∈ txs → ¬Touches bridgeLock ptx) :
    escrowBalance bridgeLock state + (txs.map (lockedBy bridgeLock)).sum
        ≤ escrowBalance bridgeLock state' ∧
      ∀ tx ∈ txs, Genuine bridgeLock tx := by
  induction hrun with
  | nil state => simp
  | @cons tx txs before after last htx hrest ih =>
    obtain ⟨howner', hlocked, hgenuine⟩ := escrow_of_transition h howner htx
      fun ptx heq => hprivate ptx (heq ▸ mem_cons_self)
    obtain ⟨hsum, hlater⟩ := ih howner' fun ptx hmem => hprivate ptx (mem_cons_of_mem _ hmem)
    refine ⟨?_, ?_⟩
    · rw [map_cons, List.sum_cons]
      omega
    · intro tx' htx'
      rcases mem_cons.mp htx' with rfl | htx'
      · exact hgenuine
      · exact hlater tx' htx'

end

end

/-! ### Places on the source chain -/

/-- A transaction at its place on the source chain. -/
structure Place where
  blockId : BlockId
  tx : LeeTransaction
  index : ℕ
  deriving DecidableEq

def placesIn (block : Block) : List Place :=
  block.body.transactions.zipIdx.map fun entry => ⟨block.header.blockId, entry.1, entry.2⟩

def places (chain : List Block) : List Place := chain.flatMap placesIn

theorem mem_placesIn {block : Block} {place : Place} :
    place ∈ placesIn block ↔ place.blockId = block.header.blockId ∧
      (place.tx, place.index) ∈ block.body.transactions.zipIdx := by
  constructor
  · intro h
    obtain ⟨entry, hentry, rfl⟩ := mem_map.mp h
    exact ⟨rfl, hentry⟩
  · rintro ⟨hid, hentry⟩
    refine mem_map.mpr ⟨_, hentry, ?_⟩
    rw [← hid]

theorem nodup_placesIn (block : Block) : (placesIn block).Nodup := by
  refine List.Nodup.of_map Place.index ?_
  have hindex : (placesIn block).map Place.index =
      block.body.transactions.zipIdx.map Prod.snd := by
    rw [placesIn, map_map]
    rfl
  rw [hindex, List.zipIdx_map_snd]
  exact List.nodup_range'

/-- A chain has every place once: its ids are consecutive. -/
theorem nodup_places [Sha256] {tip : Option Tip} {chain : List Block} (h : Linked tip chain) :
    (places chain).Nodup := by
  refine List.nodup_flatMap.mpr ⟨fun block _ => nodup_placesIn block, ?_⟩
  rw [List.pairwise_iff_getElem]
  intro i j hi hj hlt place hmem hmem'
  have hid := h.blockId_getElem? (getElem?_eq_getElem hi)
  have hid' := h.blockId_getElem? (getElem?_eq_getElem hj)
  have heq : chain[i].header.blockId = chain[j].header.blockId :=
    (mem_placesIn.mp hmem).1.symm.trans (mem_placesIn.mp hmem').1
  rw [heq] at hid
  omega

/-- What is locked at the places of a chain is what its transactions lock. -/
theorem sum_places [Serde BridgeLock.Instruction] (bridgeLock : ProgramId) (chain : List Block) :
    ((places chain).map fun place => lockedBy bridgeLock place.tx).sum =
      ((transactionsOf chain).map (lockedBy bridgeLock)).sum := by
  have htxs : (places chain).map Place.tx = transactionsOf chain := by
    rw [places, transactionsOf, List.map_flatMap]
    refine List.flatMap_congr fun block _ => ?_
    rw [placesIn, map_map]
    exact List.zipIdx_map_fst 0 _
  rw [← htxs, map_map]
  rfl

/-! ### Deliveries -/

section

variable [Emitters] [Serde Ping.SenderInstruction] [Serde BridgeLock.Instruction]

/-- What is emitted comes from `ping_sender`, or it is the payload of a lock. -/
theorem extractEmission_cases {ptx : PublicTransaction} {emission : Emission}
    (h : extractEmission ptx.message.programId ptx.message.instructionData = some emission) :
    ptx.message.programId = Emitters.pingSender ∨
      ∃ amount, lockOf Emitters.bridgeLock (.publicTx ptx) = some (amount, emission.payload) := by
  unfold extractEmission at h
  split at h
  · rename_i hping
    exact .inl hping
  · split at h
    · rename_i hlock
      split at h
      · rename_i amount _ _ _ payload _ hwords
        cases h
        exact .inr ⟨amount, by rw [lockOf, if_pos hlock, hwords]⟩
      · cases h
    · cases h

end

/-! ### The target zone -/

section

variable {exec : Executor} {peer : PeerContext} {wrapped : ProgramId} {state state' : V03State}
  {chain : List Block} {recorded : List PendingCrossZoneDispatchRecord}

section

variable [Builtins]

theorem holds_of_same {accountId : AccountId} {shard : SeenShard} (h : Holds state accountId shard)
    (howner : (state'.getAccountById accountId).programOwner =
      (state.getAccountById accountId).programOwner)
    (hdata : (state'.getAccountById accountId).data = (state.getAccountById accountId).data) :
    Holds state' accountId shard := by
  refine ⟨?_, ?_⟩
  · rw [howner]
    exact h.programOwner
  · rw [hdata]
    exact h.decodes

variable [Sha256] [Serde CrossZoneInbox.Instruction]

theorem delivered_dispatched {ptx : PublicTransaction} {blockId : BlockId} {timestamp : Timestamp}
    {msg : CrossZoneInbox.CrossZoneMessage}
    (h : deliveredMessage exec ptx state blockId timestamp = some msg) :
    dispatchedMessage ptx = some msg := by
  unfold deliveredMessage at h
  split at h
  · exact h
  · cases h

variable [Schnorr]

/-- What a public transaction does to a shard: it forgets nothing, and a message that is delivered
from its block is new to it. -/
theorem shard_of_public {ptx : PublicTransaction} {blockId : BlockId} {timestamp : Timestamp}
    {accountId : AccountId} {seed : PdaSeed} {shard : SeenShard} (h : Shelf exec accountId seed)
    (htx : transitionFromPublicTransaction exec state ptx blockId timestamp = .ok state')
    (hholds : Holds state accountId shard) :
    ∃ shard', Holds state' accountId shard' ∧ shard.delivered ⊆ shard'.delivered ∧
      ∀ msg, deliveredMessage exec ptx state blockId timestamp = some msg →
        inboxSeenShardAccountId crossZoneInbox msg.srcZone msg.srcBlockId = accountId →
          msg.srcTxIndex ∉ shard.delivered ∧ msg.srcTxIndex ∈ shard'.delivered := by
  rcases h.step htx hholds with ⟨hkept, hothers⟩ | ⟨msg, shard', hmessage, hrecords, hend⟩
  · exact ⟨shard, hkept, Finset.Subset.refl _, fun msg hmsg hid => absurd hid (hothers msg hmsg)⟩
  · refine ⟨shard', hend, ?_, fun msg' hmsg' _ => ?_⟩
    · rw [hrecords.recorded]
      exact Finset.subset_insert _ _
    · obtain rfl := some.inj ((delivered_dispatched hmsg').symm.trans hmessage)
      refine ⟨hrecords.fresh, ?_⟩
      rw [hrecords.recorded]
      exact Finset.mem_insert_self _ _

end

section

variable [Sha256] [Builtins] [TransactionBorsh]

/-- A transaction of the target zone: a dispatch has to be a recorded one, and a
privacy-preserving transaction does not touch the programs of the bridge. -/
structure Lawful (wrapped : ProgramId) (recorded : List PendingCrossZoneDispatchRecord)
    (tx : LeeTransaction) : Prop where
  dispatch : ∀ ptx, tx = .publicTx ptx → ptx.message.programId = crossZoneInbox →
    ∃ record ∈ recorded, TransactionBorsh.fromSlice record.transaction = .ok (.publicTx ptx)
  spares : ∀ ptx, tx = .privacyPreserving ptx → ¬Touches wrapped ptx ∧ ¬Touches crossZoneInbox ptx

theorem Lawful.mono {tx : LeeTransaction} {more : List PendingCrossZoneDispatchRecord}
    (h : Lawful wrapped recorded tx) : Lawful wrapped (recorded ++ more) tx := by
  refine ⟨fun ptx heq hroot => ?_, h.spares⟩
  obtain ⟨record, hrecord, hdecodes⟩ := h.dispatch ptx heq hroot
  exact ⟨record, mem_append_left _ hrecord, hdecodes⟩

end

variable [Sha256] [Schnorr] [Builtins] [Receipts] [ImageId] [Emitters] [TransactionBorsh]
  [Serde CrossZoneInbox.Instruction] [Serde WrappedToken.Instruction]
  [Serde Ping.SenderInstruction] [Serde BridgeLock.Instruction]

/-- The target zone as it starts: the programs run as written, the wrapped token is configured
for `bridge_lock` on the peer zone and for nothing else, a message that is encoded decodes to
itself or not at all, and ids do not collide. -/
structure Target (exec : Executor) (peer : PeerContext) (wrapped : ProgramId) (state : V03State) :
    Prop where
  setting : Setting exec wrapped state
  sources : Authorizes wrapped state [(peer.peerZone, Emitters.bridgeLock)]
  inbox : ∃ config, CrossZoneInbox.InboxConfig.fromBytes (state.getAccountById
    (CrossZoneInbox.inboxConfigAccountId crossZoneInbox)).data.bytes = some config
  distinct : wrapped ≠ crossZoneInbox
  markers : inboxSourceMarkerAccountId crossZoneInbox peer.peerZone Emitters.pingSender ≠
    inboxSourceMarkerAccountId crossZoneInbox peer.peerZone Emitters.bridgeLock
  notImage : ∀ bytecode imageId, ImageId.computeImageId bytecode = some imageId →
    ofProgramId imageId ≠ configAccountId wrapped
  storage : ofProgramId wrapped ≠ programStorageOwner
  dispatches : ∀ msg (instruction : CrossZoneInbox.Instruction),
    fromWords (toWords (CrossZoneInbox.Instruction.dispatch msg)) = some instruction →
      instruction = .dispatch msg

/-- The shard of a block of the peer zone: its account is a PDA of the inbox and nothing else,
and holds a shard. -/
structure Shelved (peer : PeerContext) (state : V03State) (block : Block) : Prop where
  account : OwnPda state crossZoneInbox (inboxSeenShardSeed peer.peerZone block.header.blockId)
  shard : ∃ shard, SeenShard.fromBytes (state.getAccountById (inboxSeenShardAccountId
    crossZoneInbox peer.peerZone block.header.blockId)).data.bytes = some shard

/-- What is minted in a state of the target zone: at most what was locked at the places that were
delivered, and their indices are in the shards. -/
structure Covered (exec : Executor) (peer : PeerContext) (wrapped : ProgramId) (chain : List Block)
    (minted : ℕ) (state : V03State) (delivered : Finset Place) : Prop where
  setting : Setting exec wrapped state
  sources : Authorizes wrapped state [(peer.peerZone, Emitters.bridgeLock)]
  shards : ∀ block ∈ chain, ∃ shard,
    Holds state (inboxSeenShardAccountId crossZoneInbox peer.peerZone block.header.blockId) shard ∧
    ∀ place ∈ delivered, place.blockId = block.header.blockId →
      Watcher.srcTxIndex place.index ∈ shard.delivered
  places : delivered ⊆ (places chain).toFinset
  supply : supply wrapped state ≤
    minted + ∑ place ∈ delivered, lockedBy Emitters.bridgeLock place.tx

namespace Covered

variable {minted : ℕ} {delivered : Finset Place}

omit [Schnorr] [Receipts] [ImageId] [TransactionBorsh] [Serde Ping.SenderInstruction] in
/-- A transaction that leaves the configuration and the shards alone and mints nothing. -/
theorem of_quiet (h : Covered exec peer wrapped chain minted state delivered)
    (howner : (state'.getAccountById (configAccountId wrapped)).programOwner =
      (state.getAccountById (configAccountId wrapped)).programOwner)
    (hdata : (state'.getAccountById (configAccountId wrapped)).data =
      (state.getAccountById (configAccountId wrapped)).data)
    (hshards : ∀ block ∈ chain, ∀ shard,
      Holds state (inboxSeenShardAccountId crossZoneInbox peer.peerZone
        block.header.blockId) shard →
      ∃ shard', Holds state' (inboxSeenShardAccountId crossZoneInbox peer.peerZone
        block.header.blockId) shard' ∧ shard.delivered ⊆ shard'.delivered)
    (hsupply : WrappedToken.supply wrapped state' ≤ WrappedToken.supply wrapped state) :
    Covered exec peer wrapped chain minted state' delivered where
  setting := setting_of_same h.setting howner hdata
  sources := h.sources.of_data hdata
  shards := by
    intro block hblock
    obtain ⟨shard, hholds, hindices⟩ := h.shards block hblock
    obtain ⟨shard', hholds', hsubset⟩ := hshards block hblock shard hholds
    exact ⟨shard', hholds', fun place hplace hid => hsubset (hindices place hplace hid)⟩
  places := h.places
  supply := hsupply.trans h.supply

section

variable {start : V03State} (htarget : Target exec peer wrapped start)
  (hrecorded : ∀ record ∈ recorded, ∃ block ∈ chain,
    record ∈ Watcher.deliveries peer block block.recomputeHash)
  (hdecode : ∀ block ∈ chain, DispatchesDecode peer block)
  (hgenuine : ∀ tx ∈ transactionsOf chain, Genuine Emitters.bridgeLock tx)

include htarget hrecorded hdecode hgenuine

omit [Schnorr] [Receipts] in
/-- **What is minted was locked at one place.** -/
theorem minted_of_delivered {ptx : PublicTransaction}
    (hlawful : Lawful wrapped recorded (.publicTx ptx)) {msg : CrossZoneInbox.CrossZoneMessage}
    (hmessage : dispatchedMessage ptx = some msg)
    {recipient : Bytes 32} {amount : U128}
    (hmints : fromWords (ofLeWords msg.payload) =
      some (WrappedToken.Instruction.mint recipient amount))
    (hsource : inboxSourceMarkerAccountId crossZoneInbox msg.srcZone msg.srcProgramId =
      inboxSourceMarkerAccountId crossZoneInbox peer.peerZone Emitters.bridgeLock) :
    ∃ block ∈ chain, ∃ place ∈ placesIn block, msg.srcZone = peer.peerZone ∧
      msg.srcBlockId = block.header.blockId ∧
      msg.srcTxIndex = Watcher.srcTxIndex place.index ∧
      lockedBy Emitters.bridgeLock place.tx = amount.val := by
  obtain ⟨hroot, hwords⟩ := CrossZoneInbox.dispatchedMessage_eq_some.mp hmessage
  obtain ⟨record, hrecord, hdecodes⟩ := hlawful.dispatch ptx rfl hroot
  obtain ⟨block, hblock, hdelivery⟩ := hrecorded record hrecord
  obtain ⟨source, index, emission, hentry, hemission, -, hbytes⟩ := mem_deliveries hdelivery
  -- the transaction is the dispatch that the watcher built, and the message the one in it
  rw [hbytes] at hdecodes
  obtain rfl := publicTx.inj
    (hdecode block hblock source index emission hentry hemission _ hdecodes)
  obtain rfl := CrossZoneInbox.Instruction.dispatch.inj (htarget.dispatches _ _ hwords)
  refine ⟨block, hblock, ⟨block.header.blockId, .publicTx source, index⟩,
    mem_placesIn.mpr ⟨rfl, hentry⟩, rfl, rfl, rfl, ?_⟩
  rcases extractEmission_cases hemission with hping | ⟨locked, hlock⟩
  · refine absurd hsource ?_
    show inboxSourceMarkerAccountId crossZoneInbox peer.peerZone source.message.programId ≠ _
    rw [hping]
    exact htarget.markers
  · have htx : publicTx source ∈ transactionsOf chain :=
      mem_transactionsOf.mpr ⟨block, hblock, List.fst_mem_of_mem_zipIdx hentry⟩
    obtain ⟨recipient', hmint⟩ := hgenuine _ htx _ hlock
    obtain ⟨-, hmint⟩ := require_bind_eq_some.mp hmint
    obtain ⟨-, hamount⟩ := WrappedToken.Instruction.mint.inj (some.inj (hmint.symm.trans hmints))
    rw [lockedBy, hlock, elim_some]
    exact congrArg Fin.val hamount

omit [Receipts] in
/-- A public transaction. -/
theorem publicTx (hshelves : ∀ block ∈ chain, Shelf exec
      (inboxSeenShardAccountId crossZoneInbox peer.peerZone block.header.blockId)
      (inboxSeenShardSeed peer.peerZone block.header.blockId))
    {ptx : PublicTransaction} (hlawful : Lawful wrapped recorded (.publicTx ptx))
    (h : Covered exec peer wrapped chain minted state delivered) {blockId : BlockId}
    {timestamp : Timestamp}
    (htx : transitionFromPublicTransaction exec state ptx blockId timestamp = .ok state') :
    ∃ delivered', Covered exec peer wrapped chain minted state' delivered' := by
  obtain ⟨diff, haccepted, happly⟩ := transitionFromPublicTransaction_ok htx
  have hkept := configKept_of_accepted h.setting haccepted
  have hfunds := haccepted.funds happly (configAccountId wrapped)
  have howner := hfunds.programOwner.trans hkept.programOwner
  have hdata := hfunds.data.trans hkept.data
  rcases WrappedToken.supply_of_accepted h.setting h.sources htarget.distinct haccepted happly with
    hquiet | ⟨msg, recipient, amount, hdelivered, hmints, ⟨source, hsource, hmarker⟩, hgrowth⟩
  · refine ⟨delivered, h.of_quiet howner hdata (fun block hblock shard hholds => ?_) hquiet⟩
    obtain ⟨shard', hholds', hsubset, -⟩ := shard_of_public (hshelves block hblock) htx hholds
    exact ⟨shard', hholds', hsubset⟩
  obtain rfl := mem_singleton.mp hsource
  obtain ⟨block, hblock, place, hplace, hzone, hid, hindex, hlocked⟩ :=
    minted_of_delivered htarget hrecorded hdecode hgenuine hlawful
      (delivered_dispatched hdelivered) hmints hmarker
  have hplaceId := (mem_placesIn.mp hplace).1
  -- the place was not delivered before: its index is new to the shard
  have hnew : place ∉ delivered := by
    intro hmem
    obtain ⟨shard, hholds, hindices⟩ := h.shards block hblock
    obtain ⟨_, -, -, hfresh⟩ := shard_of_public (hshelves block hblock) htx hholds
    refine (hfresh msg hdelivered (by rw [hzone, hid])).1 ?_
    rw [hindex]
    exact hindices place hmem hplaceId
  refine ⟨insert place delivered, setting_of_same h.setting howner hdata,
    h.sources.of_data hdata, fun block' hblock' => ?_, ?_, ?_⟩
  · obtain ⟨shard, hholds, hindices⟩ := h.shards block' hblock'
    obtain ⟨shard', hholds', hsubset, hfresh⟩ :=
      shard_of_public (hshelves block' hblock') htx hholds
    refine ⟨shard', hholds', fun place' hplace' hid' => ?_⟩
    rcases Finset.mem_insert.mp hplace' with rfl | hplace'
    · rw [← hindex]
      refine (hfresh msg hdelivered ?_).2
      rw [hzone, hid, ← hid', hplaceId]
    · exact hsubset (hindices place' hplace' hid')
  · refine Finset.insert_subset (mem_toFinset.mpr ?_) h.places
    exact mem_flatMap.mpr ⟨block, hblock, hplace⟩
  · rw [Finset.sum_insert hnew, hlocked]
    have hbefore := h.supply
    omega

/-- **What a transaction of the target zone does to what is minted.** -/
theorem transition (hshelved : ∀ block ∈ chain, Shelved peer start block)
    {tx : LeeTransaction} (hlawful : Lawful wrapped recorded tx)
    (h : Covered exec peer wrapped chain minted state delivered)
    (htx : Transition exec tx state state') :
    ∃ delivered', Covered exec peer wrapped chain minted state' delivered' := by
  obtain ⟨config, hconfig⟩ := htarget.inbox
  cases tx with
  | publicTx ptx =>
    obtain ⟨blockId, timestamp, htx⟩ := htx
    refine publicTx htarget hrecorded hdecode hgenuine (fun block hblock => ?_) hlawful h htx
    obtain ⟨shard, hshard⟩ := (hshelved block hblock).shard
    have hholds : Holds start (inboxSeenShardAccountId crossZoneInbox peer.peerZone
        block.header.blockId) shard := ⟨(hshelved block hblock).account.owner, hshard⟩
    exact ⟨htarget.setting.inboxRuns, htarget.setting.inboxOwns, rfl,
      (hshelved block hblock).account.unambiguous, hholds.ne_config hconfig⟩
  | privacyPreserving ptx =>
    obtain ⟨blockId, timestamp, diff, hdiff, happly⟩ := htx.diff
    have haccepted := fromPrivacyPreservingTransaction_ok hdiff
    obtain ⟨hwrapped, hinbox⟩ := hlawful.spares ptx rfl
    have hsame := funds_of_untouched haccepted happly hwrapped configSeed
    refine ⟨delivered, h.of_quiet hsame.programOwner hsame.data
      (fun block hblock shard hholds => ?_) (WrappedToken.supply_le fun accountId => ?_)⟩
    · have hshard := funds_of_untouched haccepted happly hinbox
        (inboxSeenShardSeed peer.peerZone block.header.blockId)
      exact ⟨shard, holds_of_same hholds hshard.programOwner hshard.data, Finset.Subset.refl _⟩
    · rcases owner_of_untouched haccepted happly hwrapped accountId with hfunds | hforeign
      · exact (heldIn_congr hfunds.programOwner hfunds.data).le
      · rw [heldIn_eq_zero hforeign]
        exact Nat.zero_le _
  | programDeployment dtx =>
    obtain ⟨blockId, timestamp, diff, hdiff, happly⟩ := htx.diff
    obtain ⟨imageId, himage, -, rfl⟩ := fromProgramDeploymentTransaction_ok hdiff
    have hsame : ∀ accountId, accountId ≠ .ofProgramId imageId →
        state'.getAccountById accountId = state.getAccountById accountId :=
      fun accountId hne => applyStateDiff_deployment happly rfl rfl rfl hne
    have hconfigSame := hsame _ (htarget.notImage _ _ himage).symm
    refine ⟨delivered, h.of_quiet (by rw [hconfigSame]) (by rw [hconfigSame])
      (fun block hblock shard hholds => ?_) (WrappedToken.supply_le fun accountId => ?_)⟩
    · have hshard := hsame _ ((hshelved block hblock).account.notImage _ _ himage).symm
      exact ⟨shard, holds_of_same hholds (congrArg Account.programOwner hshard)
        (congrArg Account.data hshard), Finset.Subset.refl _⟩
    · by_cases hid : accountId = .ofProgramId imageId
      · -- the account of the program is the storage's
        obtain ⟨account, hstored⟩ := applyStateDiff_stores happly rfl
        have hstorage := V03State.getProgram_isSome.mp (Option.isSome_of_eq_some hstored)
        rw [hid, heldIn_eq_zero]
        · exact Nat.zero_le _
        · rw [hstorage]
          exact htarget.storage.symm
      · rw [hsame accountId hid]

end

end Covered

/-! ### The two zones -/

/-- What the zones have come to: the chain of the source zone and how much of it is finalized, the
tip of the watcher and all that it has recorded, and the chain of the target zone. -/
structure Zones where
  sourceChain : List Block
  source : Position
  finalized : ℕ
  tip : Option PeerChainTip
  recorded : List PendingCrossZoneDispatchRecord
  targetChain : List Block
  target : Position

/-- No blocks yet. -/
def Zones.start (source target : Position) : Zones := ⟨[], source, 0, none, [], [], target⟩

variable [ClockBuiltin] [Serde Timestamp]

/-- What may happen next. -/
inductive Moves (exec : Executor) (peer : PeerContext) (wrapped : ProgramId)
    (source target : Position) (zones : Zones) : Zones → Prop
  /-- The source zone goes on with blocks that apply, and may replace blocks that are not
  finalized. -/
  | source {chain : List Block} {position : Position}
      (keeps : zones.sourceChain.take zones.finalized <+: chain)
      (applies : replay (advance exec) source chain = some position)
      (spares : ∀ block ∈ chain, Spares Emitters.bridgeLock block) :
      Moves exec peer wrapped source target zones
        { zones with sourceChain := chain, source := position }
  | finalize {count : ℕ} (more : zones.finalized ≤ count)
      (exist : count ≤ zones.sourceChain.length) :
      Moves exec peer wrapped source target zones { zones with finalized := count }
  /-- The watcher reads a finalized block that continues the chain it follows, and records its
  deliveries. -/
  | read {block : Block} {tip : Option PeerChainTip}
      (final : block ∈ zones.sourceChain.take zones.finalized)
      (follows : follow peer.expectedPubkey zones.tip block = some tip) :
      Moves exec peer wrapped source target zones
        { zones with
          tip
          recorded := zones.recorded ++ Watcher.deliveries peer block block.recomputeHash }
  /-- The target zone goes on with blocks that apply, or replaces blocks. -/
  | target {chain : List Block} {position : Position}
      (applies : replay (advance exec) target chain = some position)
      (lawful : ∀ tx ∈ transactionsOf chain, Lawful wrapped zones.recorded tx) :
      Moves exec peer wrapped source target zones
        { zones with targetChain := chain, target := position }

/-- What holds of all zones that are reached. -/
structure Reached (exec : Executor) (peer : PeerContext) (wrapped : ProgramId)
    (source target : Position) (zones : Zones) : Prop where
  source : replay (advance exec) source zones.sourceChain = some zones.source
  spares : ∀ block ∈ zones.sourceChain, Spares Emitters.bridgeLock block
  finalized : zones.finalized ≤ zones.sourceChain.length
  recorded : ∀ record ∈ zones.recorded, ∃ block ∈ zones.sourceChain.take zones.finalized,
    record ∈ Watcher.deliveries peer block block.recomputeHash
  target : replay (advance exec) target zones.targetChain = some zones.target
  lawful : ∀ tx ∈ transactionsOf zones.targetChain, Lawful wrapped zones.recorded tx

variable {source target : Position} {zones zones' : Zones}

section

omit [Serde WrappedToken.Instruction]

theorem Reached.start : Reached exec peer wrapped source target (.start source target) where
  source := rfl
  spares := by simp [Zones.start]
  finalized := le_rfl
  recorded := by simp [Zones.start]
  target := rfl
  lawful := by simp [Zones.start, transactionsOf]

theorem Reached.moves (h : Reached exec peer wrapped source target zones)
    (hmove : Moves exec peer wrapped source target zones zones') :
    Reached exec peer wrapped source target zones' := by
  cases hmove with
  | @source chain position keeps applies spares =>
    -- the finalized blocks are the same
    have hlength := keeps.length_le
    rw [length_take, min_eq_left h.finalized] at hlength
    have htake : chain.take zones.finalized = zones.sourceChain.take zones.finalized := by
      have hkept := List.prefix_iff_eq_take.mp keeps
      rw [length_take, min_eq_left h.finalized] at hkept
      exact hkept.symm
    refine ⟨applies, spares, hlength, ?_, h.target, h.lawful⟩
    show ∀ record ∈ zones.recorded, ∃ block ∈ chain.take zones.finalized, _
    rw [htake]
    exact h.recorded
  | @finalize count more exist =>
    refine ⟨h.source, h.spares, exist, fun record hrecord => ?_, h.target, h.lawful⟩
    obtain ⟨block, hblock, hdelivery⟩ := h.recorded record hrecord
    exact ⟨block, (List.take_subset_take_left zones.sourceChain more) hblock, hdelivery⟩
  | @read block tip final follows =>
    exact ⟨h.source, h.spares, h.finalized, forall_mem_append.mpr
      ⟨h.recorded, fun record hrecord => ⟨block, final, hrecord⟩⟩, h.target,
      fun tx htx => (h.lawful tx htx).mono⟩
  | @target chain position applies lawful =>
    exact ⟨h.source, h.spares, h.finalized, h.recorded, applies, lawful⟩

theorem reached_of_moves (h : Relation.ReflTransGen (Moves exec peer wrapped source target)
    (.start source target) zones) : Reached exec peer wrapped source target zones := by
  induction h with
  | refl => exact .start
  | tail _ hmove ih => exact ih.moves hmove

end

variable [Serde CrossZoneOutbox.Instruction]

/-- **The supply is covered by the escrow.**  Start the zones in any states in which the programs
run as written, the wrapped token of the target zone mints for `bridge_lock` on the source zone
and for nobody else, and the supply is covered.  Whatever blocks the zones apply and whenever the
watcher reads, the supply of the wrapped token in the target zone is at most the balance of the
escrow in the source zone. -/
theorem supply_covered (hescrow : Escrow exec Emitters.bridgeLock)
    (howner : EscrowOwner Emitters.bridgeLock source.2)
    (htarget : Target exec peer wrapped target.2)
    (hstart : supply wrapped target.2 ≤ escrowBalance Emitters.bridgeLock source.2)
    (hreach : Relation.ReflTransGen (Moves exec peer wrapped source target)
      (.start source target) zones)
    (hshelved : ∀ block ∈ zones.sourceChain, Shelved peer target.2 block)
    (hdecode : ∀ block ∈ zones.sourceChain, DispatchesDecode peer block) :
    supply wrapped zones.target.2 ≤ escrowBalance Emitters.bridgeLock zones.source.2 := by
  have hreached := reached_of_moves hreach
  -- what the source chain locked is in the escrow
  obtain ⟨hlocked, hgenuine⟩ := escrow_of_history hescrow howner (history_of_replay hreached.source)
    fun ptx hptx => by
      obtain ⟨block, hblock, hmem⟩ := mem_transactionsOf.mp hptx
      exact hreached.spares block hblock ptx hmem
  have hrecorded : ∀ record ∈ zones.recorded, ∃ block ∈ zones.sourceChain,
      record ∈ Watcher.deliveries peer block block.recomputeHash := by
    intro record hrecord
    obtain ⟨block, hblock, hdelivery⟩ := hreached.recorded record hrecord
    exact ⟨block, List.mem_of_mem_take hblock, hdelivery⟩
  -- nothing was delivered at the start
  have hnothing : Covered exec peer wrapped zones.sourceChain (supply wrapped target.2) target.2
      ∅ := by
    refine ⟨htarget.setting, htarget.sources, fun block hblock => ?_, Finset.empty_subset _, ?_⟩
    · obtain ⟨shard, hshard⟩ := (hshelved block hblock).shard
      exact ⟨shard, ⟨(hshelved block hblock).account.owner, hshard⟩, by simp⟩
    · rw [Finset.sum_empty, Nat.add_zero]
  obtain ⟨delivered, hcovered⟩ := (history_of_replay hreached.target).invariant
    (P := fun state => ∃ delivered, Covered exec peer wrapped zones.sourceChain
      (supply wrapped target.2) state delivered)
    (fun tx htx state state' htransition ⟨delivered, hcovered⟩ =>
      hcovered.transition htarget hrecorded hdecode hgenuine hshelved (hreached.lawful tx htx)
        htransition)
    ⟨∅, hnothing⟩
  -- and every place counts once
  have hplaces : ∑ place ∈ delivered, lockedBy Emitters.bridgeLock place.tx ≤
      ((transactionsOf zones.sourceChain).map (lockedBy Emitters.bridgeLock)).sum := by
    rw [← sum_places, ← List.sum_toFinset _ (nodup_places (linked_of_replay hreached.source))]
    exact Finset.sum_le_sum_of_subset hcovered.places
  have hsupply := hcovered.supply
  omega

end

/-! A lock crosses.  The source zone locks 1000 in its genesis block, the watcher reads the block,
and the target zone runs the dispatch in its own. -/

namespace Crossing

open InboundDelivery.Forgery (inbox wrapped zone inboxConfig markerSeed marker wrappedConfig holding
  byteWords)
open BridgeLock.Locking (outbox bridgeLock payload)
open scoped InboundDelivery.Forgery Idle BridgeLock.Locking

def clock : ProgramId := .ofWord 3

def pingSender : ProgramId := .ofWord 7

/-- The source zone; the target zone is the one that the lock names. -/
def peer : PeerContext := ⟨zone, BridgeLock.Locking.zone, none⟩

def seenSeed : PdaSeed :=
  ⟨ofHex 0xba619ba8faa67a9b21d7778cf55b4b1fa162dbbad615ee7e53c1fb3467850534⟩

def seen : AccountId :=
  ⟨ofHex 0xf79bf659e1c87fd54f88f23c2cda79c098add632fdf62b709844b52d6228af3d⟩

def pingSeed : PdaSeed :=
  ⟨ofHex 0x9e047e82d8ae176f6d6c089b69e137a23cd96e4f11cc8f90f327f25ca9ddac2f⟩

def pingMarker : AccountId :=
  ⟨ofHex 0xe2b6dfda93b71eee633f182f44c3ce24e6e68401d2d99b82f1af3fd490fc08b9⟩

scoped instance clockBuiltin : ClockBuiltin := ⟨clock⟩

scoped instance timestampSerde : Serde Timestamp := .u64

/-- A block with one transaction before the clock invocation. -/
def block (timestamp : Timestamp) (tx : PublicTransaction) (hash : ℕ) : Block where
  header :=
    { blockId := 1
      prevBlockHash := ofHex 0
      timestamp
      hash := ofHex hash
      signature := .ofHex 0 0 }
  body := ⟨[.publicTx tx, .publicTx (clockInvocation timestamp)]⟩
  bedrockStatus := .pending

def lockBlock : Block :=
  block 10 BridgeLock.Locking.tx 0x157e36daa8104d8a2f003d37cda6d290d2615224a4d6e4581fae9674f7790312

def message : CrossZoneInbox.CrossZoneMessage where
  srcZone := peer.peerZone
  srcBlockId := 1
  srcBlockHash := lockBlock.header.hash
  srcTxIndex := 0
  srcProgramId := bridgeLock
  targetProgramId := wrapped
  payload
  l1InclusionWitness := none

def dispatchWords : InstructionData :=
  0 :: (byteWords peer.peerZone.toList ++ [1, 0] ++ byteWords lockBlock.header.hash.toList ++ [0] ++
    bridgeLock.toList ++ wrapped.toList ++ (148 :: byteWords payload) ++ [0])

def dispatch : PublicTransaction :=
  ⟨⟨inbox, [inboxConfig, seen, marker, wrappedConfig, holding], [], dispatchWords⟩, ⟨[]⟩⟩

def dispatchBlock : Block :=
  block 20 dispatch 0x7d6b27552c84a6e3ba2739f9c68e01b2977cc4ad3910b602b4bfd85e319f6771

scoped instance sha : Sha256 := .ofTable (BridgeLock.Locking.digests ++
  [ (publicPdaBytes inbox CrossZoneInbox.inboxConfigSeed, inboxConfig.value),
    (CrossZoneInbox.seenShardBytes peer.peerZone 1, seenSeed.value),
    (publicPdaBytes inbox seenSeed, seen.value),
    (CrossZoneInbox.sourceMarkerBytes peer.peerZone bridgeLock, markerSeed.value),
    (publicPdaBytes inbox markerSeed, marker.value),
    (CrossZoneInbox.sourceMarkerBytes peer.peerZone pingSender, pingSeed.value),
    (publicPdaBytes inbox pingSeed, pingMarker.value),
    (messageKeyBytes peer.peerZone 1 0,
      ofHex 0xed239084f4afaf812c0fdc0430c24d8a2b61d154380096493cf0a00836878cc9),
    (lockBlock.hashableData.hashBytes, lockBlock.header.hash),
    (dispatchBlock.hashableData.hashBytes, dispatchBlock.header.hash) ])

scoped instance emitters : Emitters := ⟨pingSender, bridgeLock⟩
scoped instance pingSerde : Serde Ping.SenderInstruction := .ofTable []

scoped instance inboxSerde : Serde CrossZoneInbox.Instruction :=
  .ofTable [(.dispatch message, dispatchWords)]

/-- The dispatch is the only transaction that decodes. -/
scoped instance transactionBorsh : TransactionBorsh :=
  ⟨fun bytes => if bytes = (publicTx dispatch).toVec then .ok (.publicTx dispatch)
    else .error "unexpected end of input"⟩

def guests (programId : ProgramId) : Guest :=
  if programId = bridgeLock then BridgeLock.main
  else if programId = outbox then CrossZoneOutbox.main
  else if programId = inbox then CrossZoneInbox.main
  else if programId = wrapped then main
  else Clock.main

def exec : Executor := .ofGuests guests

theorem clockData_length_le : (replicate 16 (0 : UInt8)).length ≤ dataMaxLength := by decide

def clockAccounts : List (AccountId × Account) :=
  deployedAt clock :: clockAccountIds.map fun accountId =>
    (accountId, { Account.ownedBy clock with data := ⟨replicate 16 0, clockData_length_le⟩ })

/-- `bridge_lock` is configured, and the signer of the lock holds 1500. -/
def source : V03State := .ofAccounts (clockAccounts ++
  [ deployedAt bridgeLock, deployedAt outbox,
    (BridgeLock.Locking.config, .storing bridgeLock (BridgeLock.configBytes outbox wrapped)),
    (Sample.alice, { Account.ownedBy bridgeLock with balance := 1500 }) ])

def config : WrappedToken.WrappedTokenConfig :=
  { minter := inbox, sources := ⟨[(peer.peerZone, bridgeLock)], by decide⟩ }

/-- The inbox and the wrapped token are configured. -/
def target : V03State := .ofAccounts (clockAccounts ++
  [ deployedAt inbox, deployedAt wrapped,
    (inboxConfig, .storing inbox peer.selfZone.toList),
    (wrappedConfig, .storing wrapped config.toBytes) ])

end Crossing

section

open scoped InboundDelivery.Forgery Idle BridgeLock.Locking
open Crossing
open InboundDelivery.Forgery (wrapped)

theorem crossing_escrow : Escrow exec Emitters.bridgeLock where
  runs := executes_ofGuests rfl
  owns := by decide +kernel
  unambiguous := Sha256.unambiguous_ofTable (by decide +kernel) (by decide +kernel)
  notImage := fun _ _ himage => by cases himage

theorem crossing_target : Target exec peer wrapped
    target where
  setting :=
    { inboxRuns := executes_ofGuests rfl
      wrappedRuns := executes_ofGuests rfl
      inboxOwns := by decide +kernel
      wrappedOwns := by decide +kernel
      configured := by decide +kernel
      minter := ⟨config, by decide +kernel, rfl⟩ }
  sources := ⟨config, by decide +kernel, rfl, rfl⟩
  inbox := ⟨⟨peer.selfZone⟩, by decide +kernel⟩
  distinct := by decide +kernel
  markers := by decide +kernel
  notImage := fun _ _ himage => by cases himage
  storage := by decide +kernel
  dispatches := fun _ _ h => Serde.ofTable_singleton (by decide) h

theorem crossing_shelved : Shelved peer target lockBlock where
  account :=
    { unambiguous := Sha256.unambiguous_ofTable (by decide +kernel) (by decide +kernel)
      notImage := fun _ _ himage => by cases himage
      owner := .inr (by decide +kernel) }
  shard := ⟨.empty, by decide +kernel⟩

theorem crossing_decodes : DispatchesDecode peer lockBlock := by
  intro ptx index emission hentry hemission tx hdecodes
  have hall : ∀ entry ∈ [(BridgeLock.Locking.tx, 0), (clockInvocation 10, 1)],
      ∀ emission ∈ extractEmission entry.1.message.programId entry.1.message.instructionData,
        TransactionBorsh.fromSlice (publicTx
            (dispatchOf peer lockBlock entry.1 entry.2 emission)).toVec
          = .ok (.publicTx (dispatchOf peer lockBlock entry.1 entry.2 emission)) := by
    decide +kernel
  have hentry : (publicTx ptx, index) ∈
      [(BridgeLock.Locking.tx, 0), (clockInvocation 10, 1)].map fun entry =>
        (publicTx entry.1, entry.2) := hentry
  obtain ⟨entry, hmem, heq⟩ := mem_map.mp hentry
  cases heq
  exact ok.inj (hdecodes.symm.trans (hall entry hmem emission hemission))

theorem crossing_lawful : ∀ tx ∈ transactionsOf [dispatchBlock],
    Lawful wrapped (Watcher.deliveries peer lockBlock lockBlock.recomputeHash) tx := by
  intro tx htx
  have hall : ∀ ptx ∈ [dispatch, clockInvocation 20],
      ptx.message.programId = crossZoneInbox →
        ∃ record ∈ Watcher.deliveries peer lockBlock
          lockBlock.recomputeHash,
          TransactionBorsh.fromSlice record.transaction = .ok (.publicTx ptx) := by
    decide +kernel
  have htx : tx ∈ [dispatch, clockInvocation 20].map publicTx := htx
  obtain ⟨ptx, hmem, rfl⟩ := mem_map.mp htx
  refine ⟨fun ptx' heq => ?_, fun ptx' heq => by cases heq⟩
  cases heq
  exact hall ptx hmem

theorem crossing_spares : ∀ block ∈ [lockBlock], Spares Emitters.bridgeLock block := by
  have hpublic : ∀ block ∈ [lockBlock], ∀ tx ∈ block.body.transactions,
      tx.isPublic = true := by
    decide +kernel
  intro block hblock ptx hptx
  exact absurd (hpublic block hblock _ hptx) Bool.false_ne_true

/-- What may happen in the scenario. -/
abbrev CrossingMoves : Zones → Zones → Prop :=
  Moves exec peer wrapped (none, source) (none, target)

/-- The lock is read, its dispatch is run, and the tokens that it mints are covered. -/
theorem lock_covered : ∃ zones,
    Relation.ReflTransGen CrossingMoves (.start (none, Crossing.source) (none, Crossing.target))
      zones ∧
      supply wrapped zones.target.2 = 1000 ∧
      supply wrapped zones.target.2 ≤ escrowBalance Emitters.bridgeLock zones.source.2 := by
  obtain ⟨source, hsource⟩ := isSome_iff_exists.mp (by decide +kernel :
    (replay (advance exec) (none, Crossing.source) [lockBlock]).isSome = true)
  obtain ⟨target, htarget, hsupply⟩ := Option.map_eq_some_iff.mp (by decide +kernel :
    (replay (advance exec) (none, Crossing.target) [dispatchBlock]).map
      (fun position => supply wrapped position.2) = some 1000)
  obtain ⟨tip, htip⟩ := isSome_iff_exists.mp (by decide +kernel :
    (follow peer.expectedPubkey none lockBlock).isSome = true)
  have hlocks : CrossingMoves (.start (none, Crossing.source) (none, Crossing.target))
      ⟨[lockBlock], source, 0, none, [], [], (none, Crossing.target)⟩ :=
    .source List.nil_prefix hsource crossing_spares
  have hfinal : CrossingMoves
      ⟨[lockBlock], source, 0, none, [], [], (none, Crossing.target)⟩
      ⟨[lockBlock], source, 1, none, [], [], (none, Crossing.target)⟩ :=
    .finalize (Nat.zero_le 1) le_rfl
  have hread : CrossingMoves
      ⟨[lockBlock], source, 1, none, [], [], (none, Crossing.target)⟩
      ⟨[lockBlock], source, 1, tip, [] ++ Watcher.deliveries peer
        lockBlock lockBlock.recomputeHash, [], (none, Crossing.target)⟩ :=
    .read mem_cons_self htip
  have hlawful := crossing_lawful
  rw [nil_append] at hread
  generalize Watcher.deliveries peer lockBlock lockBlock.recomputeHash = recorded at hread hlawful
  have hmints : CrossingMoves
      ⟨[lockBlock], source, 1, tip, recorded, [], (none, Crossing.target)⟩
      ⟨[lockBlock], source, 1, tip, recorded, [dispatchBlock], target⟩ :=
    .target htarget hlawful
  have hreach := (((Relation.ReflTransGen.single hlocks).tail hfinal).tail hread).tail hmints
  refine ⟨_, hreach, hsupply, supply_covered crossing_escrow (.inr (by decide +kernel))
    crossing_target (by decide +kernel) hreach ?_ ?_⟩
  · intro block hblock
    rw [mem_singleton.mp hblock]
    exact crossing_shelved
  · intro block hblock
    rw [mem_singleton.mp hblock]
    exact crossing_decodes

end

end TwoZones

end Lssa
