/-
The verifier of messages from other zones (`lez/indexer/core/src/cross_zone_verifier.rs`).

An indexer does not trust the sequencer of its zone with deliveries.  It reads the blocks of the
peer zones itself, and before it applies a block it builds each dispatch in it again, from the
block of the peer that the message names.  Of a peer it keeps a run of blocks from the genesis block
on, each linked to the one before.  A block with the next id is kept even if it does not link, until
one comes that does.

The reader of a peer works while a block is verified.  So a look at the blocks of the peers may find
more than the one before, and the functions here take what each look finds (`looks`).
-/
import Lssa.CrossZone.Once
import Lssa.CrossZone.WatcherInvariants

open Outcome

namespace Lssa.Verifier

open CrossZoneInbox

/-! ### The blocks of the peers -/

/-- The blocks of a peer that are kept, and the head of the run verified from its genesis block. -/
structure PeerChain where
  blocks : Map U64 Block
  verifiedPrefix : Option PeerChainTip

namespace PeerChain

def empty : PeerChain := ⟨∅, none⟩

/-- `next_expected`: the id that would extend the run. -/
def nextExpected (chain : PeerChain) : U64 :=
  match chain.verifiedPrefix with
  | some tip => saturatingSucc tip.blockId
  | none => genesisBlockId

/-- The loop of `extend_prefix`, a number of rounds. -/
def extendPrefixLoop : ℕ → PeerChain → PeerChain
  | 0, chain => chain
  | rounds + 1, chain =>
    match chain.blocks.lookup chain.nextExpected with
    | none => chain
    | some next =>
      match linkToTip chain.verifiedPrefix next next.header.hash with
      | .next blockHash =>
        extendPrefixLoop rounds
          { chain with verifiedPrefix := some ⟨next.header.blockId, blockHash⟩ }
      | _ => chain

/-- `extend_prefix`.  A round that goes on takes one more of the blocks, so the loop ends before
they are all taken. -/
def extendPrefix (chain : PeerChain) : PeerChain :=
  extendPrefixLoop (chain.blocks.keys.length + 1) chain

/-- `PeerBlocks::insert`, on the chain of the zone, and whether the block is new. -/
def insert (chain : PeerChain) (block : Block) : PeerChain × Bool :=
  let cache : PeerChain × Bool :=
    (extendPrefix { chain with blocks := chain.blocks.insert block.header.blockId block }, true)
  -- at the id that would extend the run the first block stays, until one continues the run
  let atNext (continuesTheRun : Bool) : PeerChain × Bool :=
    match chain.blocks.lookup block.header.blockId with
    | none => cache
    | some held =>
      if held.header.hash = block.header.hash then (chain, false)
      else if !continuesTheRun then (chain, false)
      else cache
  match linkToTip chain.verifiedPrefix block block.header.hash with
  | .offChain (.notTheGenesis _) => (chain, false)
  | .offChain (.skipsAhead _ _) => (chain, false)
  | .alreadySeen _ => (chain, false)
  | .next _ => atNext true
  | .offChain (.doesNotLink _ _ _ _) => atNext false

end PeerChain

/-- What is kept of each peer. -/
abbrev PeerBlocks := Map ZoneId PeerChain

/-- What a look at the blocks of a peer says about one of them. -/
inductive PeerLookup
  | cached (block : Block)
  | insideRun
  | behind
  deriving DecidableEq

namespace PeerBlocks

/-- The chain of a zone. -/
def chainOf (peers : PeerBlocks) (zone : ZoneId) : PeerChain := Ledger.get .empty peers zone

/-- `resolve`. -/
def resolve (peers : PeerBlocks) (zone : ZoneId) (blockId : U64) : PeerLookup :=
  match peers.lookup zone with
  | none => .behind
  | some chain =>
    if chain.verifiedPrefix.all fun tip => decide (tip.blockId < blockId) then .behind
    else
      match chain.blocks.lookup blockId with
      | none => .insideRun
      | some block => .cached block

end PeerBlocks

/-! ### The verifier -/

/-- Why a dispatch is not what the peer emitted. -/
inductive Forgery
  | mismatch (zone : ZoneId) (blockId : U64) (txIndex : U32)
  | absent (zone : ZoneId) (blockId : U64)
  | notSigned (zone : ZoneId) (blockId : U64)
  | outOfRange (txIndex : U32)
  | notPublic
  | notAnEmitter
  | otherZone
  deriving DecidableEq

/-- Why a dispatch could not be verified. -/
inductive CrossZoneVerifyError
  | forged (forgery : Forgery)
  | peerUnavailable (zone : ZoneId) (blockId : U64) (waited : ℕ)
  deriving DecidableEq

/-- The key of a message, with the hash of the block it is from. -/
abbrev SeenKey := Bytes 32 × Bytes 32

/-- `PEER_BLOCK_WAIT_TIMEOUT`, in seconds. -/
def peerBlockWaitTimeout : ℕ := 300

structure CrossZoneVerifier where
  selfZone : ZoneId
  peerPubkeys : Map ZoneId PublicKey
  peers : PeerBlocks
  seen : Finset SeenKey

/-- `wait_for_peer_block`, with the seconds left to wait: one look for each second.  The looks
made before are counted. -/
def waitForPeerBlock (looks : ℕ → PeerBlocks) (zone : ZoneId) (blockId : U64) :
    ℕ → ℕ → Except CrossZoneVerifyError (Block × ℕ)
  | left, look =>
    match (looks look).resolve zone blockId with
    | .cached block => .ok (block, look + 1)
    | .insideRun => .error (.forged (.absent zone blockId))
    | .behind =>
      match left with
      | 0 => .error (.peerUnavailable zone blockId peerBlockWaitTimeout)
      | left + 1 => waitForPeerBlock looks zone blockId left (look + 1)

section

variable [Sha256] [Schnorr] [Builtins] [Emitters] [Serde CrossZoneInbox.Instruction]
  [Serde Ping.SenderInstruction] [Serde BridgeLock.Instruction]

/-- `accept_peer_block` and `insert`: the reader of a peer reads a block. -/
def PeerChain.read (expectedPubkey : Option PublicKey) (chain : PeerChain) (block : Block) :
    PeerChain :=
  match screenPeerBlock block expectedPubkey with
  | .ok _ => (chain.insert block).1
  | .error _ => chain

/-- What the readers of the peers have read, when they read some blocks before each look. -/
def CrossZoneVerifier.peersAfter (verifier : CrossZoneVerifier)
    (arrived : ℕ → List (ZoneId × Block)) : ℕ → PeerBlocks
  | 0 => verifier.peers
  | looks + 1 => (arrived looks).foldl (fun peers (zone, block) => AList.insert zone
      ((peers.chainOf zone).read (verifier.peerPubkeys.lookup zone) block) peers)
    (verifier.peersAfter arrived looks)

/-- `seen_key`. -/
def seenKey (msg : CrossZoneMessage) : SeenKey :=
  (messageKey msg.srcZone msg.srcBlockId msg.srcTxIndex, msg.srcBlockHash)

/-- `decode_dispatch`. -/
def decodeDispatch : LeeTransaction → Option CrossZoneMessage
  | .publicTx tx => dispatchedMessage tx
  | _ => none

/-- The dispatch of an emission in a block of a peer. -/
def rederiveFrom (verifier : CrossZoneVerifier) (msg : CrossZoneMessage) (peerBlock : Block) :
    Except CrossZoneVerifyError PublicTransaction := do
  ensure ((verifier.peerPubkeys.lookup msg.srcZone).all peerBlock.isSignedBy)
    (.forged (.notSigned msg.srcZone msg.srcBlockId))
  match peerBlock.body.transactions[msg.srcTxIndex.val]? with
  | none => .error (.forged (.outOfRange msg.srcTxIndex))
  | some (.publicTx emissionTx) =>
    let message := emissionTx.message
    match extractEmission message.programId message.instructionData with
    | none => .error (.forged .notAnEmitter)
    | some emission => do
      ensure (emission.targetZone = verifier.selfZone) (.forged .otherZone)
      pure (buildDispatchFromEmission
        { srcZone := msg.srcZone
          srcBlockId := msg.srcBlockId
          srcBlockHash := peerBlock.recomputeHash
          srcTxIndex := msg.srcTxIndex
          srcProgramId := message.programId }
        emission.targetProgramId emission.targetAccounts emission.payload)
  | some _ => .error (.forged .notPublic)

/-- `rederive`. -/
def rederive (verifier : CrossZoneVerifier) (looks : ℕ → PeerBlocks) (msg : CrossZoneMessage)
    (look : ℕ) : Except CrossZoneVerifyError (PublicTransaction × ℕ) := do
  let (peerBlock, look) ←
    waitForPeerBlock looks msg.srcZone msg.srcBlockId peerBlockWaitTimeout look
  let expected ← rederiveFrom verifier msg peerBlock
  pure (expected, look)

/-- A round of `verify_block`: the keys verified so far, and the looks made. -/
def verifyTransaction (verifier : CrossZoneVerifier) (looks : ℕ → PeerBlocks)
    (verified : List SeenKey × ℕ) (tx : LeeTransaction) :
    Except CrossZoneVerifyError (List SeenKey × ℕ) :=
  match decodeDispatch tx with
  | none => pure verified
  | some msg =>
    let key := seenKey msg
    if key ∈ verifier.seen then pure verified
    else do
      let (expected, look) ← rederive verifier looks msg verified.2
      ensure (LeeTransaction.publicTx expected = tx)
        (.forged (.mismatch msg.srcZone msg.srcBlockId msg.srcTxIndex))
      pure (verified.1 ++ [key], look)

/-- `verify_block`: the keys to be marked as seen, and the looks made. -/
def verifyBlock (verifier : CrossZoneVerifier) (looks : ℕ → PeerBlocks) (block : Block) :
    Except CrossZoneVerifyError (List SeenKey × ℕ) :=
  block.body.transactions.foldlM (verifyTransaction verifier looks) ([], 0)

/-- `record_seen`. -/
def CrossZoneVerifier.recordSeen (verifier : CrossZoneVerifier) (keys : List SeenKey) :
    CrossZoneVerifier :=
  { verifier with seen := verifier.seen ∪ keys.toFinset }

end

end Lssa.Verifier
