/-
Blocks and how they are applied.

A block (`lez/common/src/block.rs`) has a header and transactions, the last of which is the
clock invocation.  Its hash covers everything but the signature and the status.  `applyBlock`
(`lez/chain_state/src/apply.rs`) checks that a block continues a tip, then executes it on a
state; it is a function of the tip, the block and the state.  The text of the reason for a
failed transaction is kept as the error it prints.

* `applyBlock_ok` — a block that applies continues the tip;
* `applyBlock_congr` — only what the hash covers, and the hash, matter;
* `linked_of_replay` — blocks that apply one after the other are a chain of hashes with
  consecutive ids.
-/
import Lssa.Library.TwoTier
import Lssa.Programs.Clock

open Borsh Outcome TwoTier

namespace Lssa

abbrev HashType := Bytes 32

/-! ### Blocks -/

inductive BedrockStatus
  | pending
  | safe
  | finalized
  deriving DecidableEq

structure BlockHeader where
  blockId : BlockId
  prevBlockHash : HashType
  hash : HashType
  timestamp : Timestamp
  signature : Signature
  deriving DecidableEq

structure BlockBody where
  transactions : List LeeTransaction
  deriving DecidableEq

structure Block where
  header : BlockHeader
  body : BlockBody
  bedrockStatus : BedrockStatus
  deriving DecidableEq

/-- What the hash of a block covers. -/
structure HashableBlockData where
  blockId : BlockId
  prevBlockHash : HashType
  timestamp : Timestamp
  transactions : List LeeTransaction
  deriving DecidableEq

/-- The Borsh encoding of the data. -/
def HashableBlockData.toBytes (data : HashableBlockData) : List UInt8 :=
  leBytes 8 data.blockId.val ++ data.prevBlockHash.toList ++ leBytes 8 data.timestamp.val ++
    borshVec LeeTransaction.toVec data.transactions

/-- The bytes hashed to the hash of a block. -/
def HashableBlockData.hashBytes (data : HashableBlockData) : List UInt8 :=
  ascii "/LEE/v0.3/Message/Block/" ++ replicate 8 0 ++ data.toBytes

def HashableBlockData.computeHash [Sha256] (data : HashableBlockData) : HashType :=
  Sha256.hashBytes data.hashBytes

/-- `From<Block> for HashableBlockData`. -/
def Block.hashableData (block : Block) : HashableBlockData where
  blockId := block.header.blockId
  prevBlockHash := block.header.prevBlockHash
  timestamp := block.header.timestamp
  transactions := block.body.transactions

def Block.recomputeHash [Sha256] (block : Block) : HashType := block.hashableData.computeHash

/-- `GENESIS_BLOCK_ID`. -/
def genesisBlockId : BlockId := 1

/-- `clock_invocation`: the transaction that ends a block. -/
def clockInvocation [ClockBuiltin] [Serde Timestamp] (timestamp : Timestamp) :
    PublicTransaction where
  message :=
    { programId := ClockBuiltin.clock
      accountIds := clockAccountIds
      nonces := []
      instructionData := toWords timestamp }
  witnessSet := ⟨[]⟩

/-! ### Outcomes -/

/-- The parent the next block must chain on. -/
structure Tip where
  blockId : U64
  hash : HashType
  deriving DecidableEq

/-- `From<&Block> for Tip`. -/
def Tip.ofBlock (block : Block) : Tip := ⟨block.header.blockId, block.header.hash⟩

/-- Why a block of the channel could not be applied. -/
inductive BlockIngestError
  | deserialize (reason : String)
  | unexpectedBlockId (expected got : U64)
  | brokenChainLink (expectedPrev gotPrev : HashType)
  | hashMismatch (computed header : HashType)
  | emptyBlock
  | invalidClockTransaction
  | nonPublicGenesisTransaction
  | stateTransition (txIndex : ℕ) (reason : LeeError)
  deriving DecidableEq

/-- The panics of block application: an id past the range of ids (`block id should not
overflow`), or a diff that does not apply. -/
inductive ApplyPanic
  | blockIdOverflow
  | applyStateDiff
  deriving DecidableEq

/-- How the application of a block ends without success. -/
inductive ApplyError
  | rejected (error : BlockIngestError)
  | panicked (panic : ApplyPanic)
  deriving DecidableEq

inductive AcceptOutcome
  | applied
  | alreadyApplied
  | parked (error : BlockIngestError)
  | retryableFailure (error : BlockIngestError)
  deriving DecidableEq

/-! ### Application -/

section

variable [Sha256]

/-- `validate_against_tip`. -/
def validateAgainstTip (tip : Option Tip) (block : Block) : Except ApplyError Unit := do
  ensure (block.recomputeHash = block.header.hash)
    (.rejected (.hashMismatch block.recomputeHash block.header.hash))
  match tip with
  | none =>
    ensure (block.header.blockId = genesisBlockId)
      (.rejected (.unexpectedBlockId genesisBlockId block.header.blockId))
  | some tip =>
    match checkedSucc tip.blockId with
    | none => .error (.panicked .blockIdOverflow)
    | some expected => do
      ensure (block.header.blockId = expected)
        (.rejected (.unexpectedBlockId expected block.header.blockId))
      ensure (block.header.prevBlockHash = tip.hash)
        (.rejected (.brokenChainLink tip.hash block.header.prevBlockHash))

/-- The height of a tip; a cold state is one below the genesis block. -/
def height : Option Tip → ℕ
  | none => 0
  | some tip => tip.blockId.val

/-- The block is the next one after the tip: its hash is right, its id is the next one, and
it names the tip as its parent. -/
structure Continues (tip : Option Tip) (block : Block) : Prop where
  hash : block.recomputeHash = block.header.hash
  blockId : block.header.blockId.val = height tip + 1
  parent : ∀ parent ∈ tip, block.header.prevBlockHash = parent.hash

variable {tip : Option Tip} {block : Block}

theorem validateAgainstTip_ok {u : Unit} (h : validateAgainstTip tip block = .ok u) :
    Continues tip block := by
  obtain ⟨hhash, h⟩ := ensure_bind_eq_ok.mp h
  cases tip with
  | none =>
    have hid : block.header.blockId = genesisBlockId := ensure_eq_ok.mp h
    refine ⟨hhash, ?_, fun parent hparent => absurd hparent (by simp)⟩
    rw [hid]
    rfl
  | some tip =>
    change (match checkedSucc tip.blockId with
      | none => _
      | some expected => _) = _ at h
    split at h
    · cases h
    · rename_i hnext
      obtain ⟨hid, h⟩ := ensure_bind_eq_ok.mp h
      have hprev := ensure_eq_ok.mp h
      refine ⟨hhash, ?_, ?_⟩
      · rw [hid]
        exact checkedSucc_eq_some.mp hnext
      · rintro parent hparent
        obtain rfl : tip = parent := some.inj hparent
        exact hprev

theorem Continues.validateAgainstTip (h : Continues tip block) :
    validateAgainstTip tip block = .ok () := by
  refine ensure_bind_eq_ok.mpr ⟨h.hash, ?_⟩
  cases tip with
  | none => exact ensure_eq_ok.mpr (Fin.ext h.blockId)
  | some tip =>
    have hnext : checkedSucc tip.blockId = some block.header.blockId :=
      checkedSucc_eq_some.mpr h.blockId
    dsimp only
    rw [hnext]
    exact ensure_bind_eq_ok.mpr ⟨rfl, ensure_eq_ok.mpr (h.parent tip rfl)⟩

/-- A list of blocks, each the next one after the one before it. -/
def Linked : Option Tip → List Block → Prop
  | _, [] => True
  | tip, block :: rest => Continues tip block ∧ Linked (some (Tip.ofBlock block)) rest

/-- The ids of a chain are consecutive. -/
theorem Linked.blockId_getElem? {blocks : List Block} (h : Linked tip blocks) {i : ℕ}
    (hi : blocks[i]? = some block) :
    block.header.blockId.val = height tip + 1 + i := by
  induction blocks generalizing tip i with
  | nil => cases hi
  | cons first rest ih =>
    obtain ⟨hfirst, hrest⟩ := h
    cases i with
    | zero =>
      obtain rfl : first = block := by simpa using hi
      exact hfirst.blockId
    | succ i =>
      have hid := ih hrest (List.getElem?_cons_succ ▸ hi)
      have hheight : height (some (Tip.ofBlock first)) = height tip + 1 := hfirst.blockId
      omega

theorem Linked.hash_of_mem {blocks : List Block} (h : Linked tip blocks) (hmem : block ∈ blocks) :
    block.recomputeHash = block.header.hash := by
  induction blocks generalizing tip with
  | nil => cases hmem
  | cons first rest ih =>
    rcases mem_cons.mp hmem with rfl | hmem
    · exact h.1.hash
    · exact ih h.2 hmem

end

variable [Sha256] [Schnorr] [Builtins] [Receipts] [ImageId] [ClockBuiltin] [Serde Timestamp]

/-- The result of a transaction in a block. -/
def stateTransition (txIndex : ℕ) : Except TransitionError V03State → Except ApplyError V03State
  | .ok state => .ok state
  | .error (.rejected reason) => .error (.rejected (.stateTransition txIndex reason))
  | .error .panicked => .error (.panicked .applyStateDiff)

/-- A round of the loop over the user transactions. -/
def applyUserTransaction (exec : Executor) (block : Block) (state : V03State)
    (entry : LeeTransaction × ℕ) : Except ApplyError V03State :=
  let (transaction, txIndex) := entry
  if block.header.blockId = genesisBlockId then
    match transaction with
    | .publicTx publicTx =>
      stateTransition txIndex (transitionFromPublicTransaction exec state publicTx
        block.header.blockId block.header.timestamp)
    | _ => .error (.rejected .nonPublicGenesisTransaction)
  else
    stateTransition txIndex
      (transaction.executeOnState exec state block.header.blockId block.header.timestamp)

/-- `apply_block_to_state`. -/
def applyBlockToState (exec : Executor) (block : Block) (state : V03State) :
    Except ApplyError V03State :=
  match block.body.transactions.getLast? with
  | none => .error (.rejected .emptyBlock)
  | some (.publicTx clockTx) => do
    ensure (clockTx = clockInvocation block.header.timestamp) (.rejected .invalidClockTransaction)
    let userTxs := block.body.transactions.dropLast
    let state ← userTxs.zipIdx.foldlM (applyUserTransaction exec block) state
    stateTransition userTxs.length (transitionFromPublicTransaction exec state clockTx
      block.header.blockId block.header.timestamp)
  | some _ => .error (.rejected .invalidClockTransaction)

variable {state : V03State} {exec : Executor} {block : Block} {position position' : Position}
  {blocks : List Block}

omit [Sha256] [Schnorr] [Builtins] [Receipts] [ImageId] [ClockBuiltin] [Serde Timestamp] in
theorem stateTransition_ok {txIndex : ℕ} {result : Except TransitionError V03State}
    (h : stateTransition txIndex result = .ok state) : result = .ok state := by
  unfold stateTransition at h
  split at h
  · rw [ok.inj h]
  · cases h
  · cases h

/-- A block that executes ends with the clock invocation for its timestamp, made on the state
that the other transactions leave. -/
theorem applyBlockToState_ok {state' : V03State}
    (h : applyBlockToState exec block state = .ok state') :
    ∃ mid, block.body.transactions.getLast?
        = some (.publicTx (clockInvocation block.header.timestamp)) ∧
      block.body.transactions.dropLast.zipIdx.foldlM (applyUserTransaction exec block) state
        = .ok mid ∧
      transitionFromPublicTransaction exec mid (clockInvocation block.header.timestamp)
        block.header.blockId block.header.timestamp = .ok state' := by
  unfold applyBlockToState at h
  split at h
  · cases h
  · rename_i hlast
    obtain ⟨rfl, h⟩ := ensure_bind_eq_ok.mp h
    obtain ⟨mid, hmid, h⟩ := bind_eq_ok.mp h
    exact ⟨mid, hlast, hmid, stateTransition_ok h⟩
  · cases h

/-- `apply_block`. -/
def applyBlock (exec : Executor) (tip : Option Tip) (block : Block) (state : V03State) :
    Except ApplyError V03State := do
  validateAgainstTip tip block
  applyBlockToState exec block state

theorem applyBlock_ok {tip : Option Tip} {state' : V03State}
    (h : applyBlock exec tip block state = .ok state') :
    Continues tip block := by
  obtain ⟨u, hvalid, -⟩ := bind_eq_ok.mp h
  exact validateAgainstTip_ok hvalid

/-- Blocks that agree on what the hash covers, and on the hash, apply alike. -/
theorem applyBlock_congr {tip : Option Tip} {a b : Block} (hdata : a.hashableData = b.hashableData)
    (hhash : a.header.hash = b.header.hash) :
    applyBlock exec tip a state = applyBlock exec tip b state := by
  obtain ⟨⟨ida, preva, hasha, timea, siga⟩, ⟨txsa⟩, statusa⟩ := a
  obtain ⟨⟨idb, prevb, hashb, timeb, sigb⟩, ⟨txsb⟩, statusb⟩ := b
  rw [Block.hashableData, Block.hashableData, HashableBlockData.mk.injEq] at hdata
  obtain ⟨rfl, rfl, rfl, rfl⟩ := hdata
  obtain rfl : hasha = hashb := hhash
  rfl

/-! ### Replay -/

/-- Where a chain stands: its tip and the state after it. -/
abbrev Position := Option Tip × V03State

/-- Apply a block to a position. -/
def advance (exec : Executor) (position : Position) (block : Block) : Option Position :=
  match applyBlock exec position.1 block position.2 with
  | .ok state => some (some (Tip.ofBlock block), state)
  | .error _ => none

theorem advance_eq_some :
    advance exec position block = some position' ↔
      ∃ state, applyBlock exec position.1 block position.2 = .ok state ∧
        (some (Tip.ofBlock block), state) = position' := by
  unfold advance
  split
  · rename_i state happly
    rw [some_inj]
    constructor
    · intro h
      exact ⟨state, happly, h⟩
    · rintro ⟨state', happly', h⟩
      obtain rfl := ok.inj (happly.symm.trans happly')
      exact h
  · rename_i happly
    rw [happly]
    refine iff_of_false (by simp) ?_
    rintro ⟨state, happly', -⟩
    cases happly'

theorem advance_continues (h : advance exec position block = some position') :
    Continues position.1 block := by
  obtain ⟨state, happly, -⟩ := advance_eq_some.mp h
  exact applyBlock_ok happly

theorem advance_congr {a b : Block} (hdata : a.hashableData = b.hashableData)
    (hhash : a.header.hash = b.header.hash) :
    advance exec position a = advance exec position b := by
  have htip : Tip.ofBlock a = Tip.ofBlock b := by
    rw [Tip.ofBlock, Tip.ofBlock, hhash, show a.header.blockId = b.header.blockId from
      congrArg HashableBlockData.blockId hdata]
  rw [advance, advance, applyBlock_congr hdata hhash, htip]

section

variable (h : replay (advance exec) position blocks = some position')

include h

/-- Blocks that apply one after the other are linked. -/
theorem linked_of_replay :
    Linked position.1 blocks := by
  induction blocks generalizing position with
  | nil => exact trivial
  | cons block rest ih =>
    obtain ⟨next, hadvance, hrest⟩ := replay_cons_eq_some.mp h
    obtain ⟨state, happly, rfl⟩ := advance_eq_some.mp hadvance
    exact ⟨applyBlock_ok happly, ih hrest⟩

/-- Every block of a replay is one step up. -/
theorem height_of_replay :
    height position'.1 = height position.1 + blocks.length := by
  induction blocks generalizing position with
  | nil =>
    obtain rfl : position = position' := some.inj h
    rfl
  | cons block rest ih =>
    obtain ⟨next, hadvance, hrest⟩ := replay_cons_eq_some.mp h
    have hid := (advance_continues hadvance).blockId
    obtain ⟨state, -, rfl⟩ := advance_eq_some.mp hadvance
    have hnext : height (some (Tip.ofBlock block)) = height position.1 + 1 := hid
    rw [ih hrest, length_cons]
    show height (some (Tip.ofBlock block)) + _ = _
    omega

/-- The tip after a replay is its last block. -/
theorem tip_of_replay :
    position'.1 = (blocks.getLast?.map Tip.ofBlock).or position.1 := by
  induction blocks generalizing position with
  | nil =>
    obtain rfl : position = position' := some.inj h
    rfl
  | cons block rest ih =>
    obtain ⟨next, hadvance, hrest⟩ := replay_cons_eq_some.mp h
    obtain ⟨state, happly, rfl⟩ := advance_eq_some.mp hadvance
    rw [ih hrest, List.getLast?_cons]
    cases rest.getLast? with
    | none => rfl
    | some last => rfl

end

end Lssa
