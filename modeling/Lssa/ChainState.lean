/-
The chain of a node in two tiers (`lez/chain_state/src/chain.rs`).

A `ChainState` keeps a final tier, which a finalized event moves forward, and over it a head
of blocks that adoptions extend or reorganise and orphan events cut back.  The state of the
head is not computed from the head each time: it is carried along, and so are the checks
that the blocks passed.  Whoever replays the head relies on that (`expect`).

Every event is a sequence of moves (`HeadMove`, `FinalMove`), a move keeps the two tiers
in step (`Consistent`), and a consistent chain runs into neither `expect`:

* `Consistent.handle_moves` — what an event does, and how it can fail;
* `two_tier_invariant` — the tiers of every chain that events lead to are in step.
-/
import Mathlib.Logic.Relation
import Lssa.Block
import Lssa.Library.Runs

open Outcome TwoTier Runs

namespace Lssa

open Relation (ReflTransGen)

/-! ### The state -/

/-- The id of a channel message. -/
structure MsgId where
  value : Bytes 32
  deriving DecidableEq

abbrev Slot := U64

/-- A head block and the message that carried it. -/
structure HeadEntry where
  thisMsg : MsgId
  block : Block
  deriving DecidableEq

/-- The first block that broke the final tier. -/
structure StallReason where
  blockId : Option U64
  blockHash : Option HashType
  prevBlockHash : Option HashType
  l1Slot : Slot
  error : BlockIngestError
  firstSeen : Option U64
  orphansSince : U64
  deriving DecidableEq

def StallReason.new (header : Option BlockHeader) (l1Slot : Slot) (error : BlockIngestError) :
    StallReason where
  blockId := header.map (·.blockId)
  blockHash := header.map (·.hash)
  prevBlockHash := header.map (·.prevBlockHash)
  firstSeen := header.map (·.timestamp)
  l1Slot := l1Slot
  error := error
  orphansSince := 0

/-- Count a later stall, up to the range of the counter. -/
def StallReason.escalate (stall : StallReason) : StallReason :=
  { stall with orphansSince := (checkedSucc stall.orphansSince).getD stall.orphansSince }

/-- The chain of a node.  `finalBlocks` is a history variable: the blocks that were applied
to the final tier, which the source does not keep and no event reads. -/
structure ChainState where
  finalState : V03State
  finalTip : Option Tip
  finalStall : Option StallReason
  headState : V03State
  headBlocks : List HeadEntry
  finalBlocks : List Block

/-- What stops a node: a panic of block application, a persisted head block that cannot be
restored, and the two `expect`s of the chain state (`validated head blocks must replay`,
`validated head block must apply to the final tier`). -/
inductive Fatal
  | apply (panic : ApplyPanic)
  | restore (error : BlockIngestError)
  | headBlocksMustReplay
  | headBlockMustApply
  deriving DecidableEq

/-- Not one of the two `expect`s. -/
def Fatal.Foreign (fatal : Fatal) : Prop :=
  fatal ≠ .headBlocksMustReplay ∧ fatal ≠ .headBlockMustApply

namespace ChainState

/-- A state restored from a final tier. -/
def fromFinal (finalState : V03State) (finalTip : Option Tip) : ChainState where
  finalState := finalState
  finalTip := finalTip
  finalStall := none
  headState := finalState
  headBlocks := []
  finalBlocks := []

def new (initialState : V03State) : ChainState := fromFinal initialState none

/-- The parent of the next block. -/
def headTip (chain : ChainState) : Option Tip :=
  (chain.headBlocks.getLast?.map fun entry => Tip.ofBlock entry.block).or chain.finalTip

/-- Where the final tier stands. -/
def finalPosition (chain : ChainState) : Position := (chain.finalTip, chain.finalState)

/-- The blocks of the head. -/
def blocks (chain : ChainState) : List Block := chain.headBlocks.map HeadEntry.block

/-- `head_position_of`: an entry at the height of the block, with its message or its hash. -/
def headPositionOf (chain : ChainState) (thisMsg : MsgId) (block : Block) : Option ℕ :=
  chain.headBlocks.findIdx? fun entry =>
    entry.block.header.blockId = block.header.blockId ∧
      (entry.thisMsg = thisMsg ∨ entry.block.header.hash = block.header.hash)

/-- `record_final_stall`. -/
def recordFinalStall (chain : ChainState) (block : Block) (l1Slot : Slot)
    (error : BlockIngestError) : ChainState :=
  { chain with
    finalStall := some (match chain.finalStall with
      | none => .new (some block.header) l1Slot error
      | some stall => stall.escalate) }

end ChainState

/-! ### The operations -/

section

variable [Sha256] [Schnorr] [Builtins] [Receipts] [ImageId] [ClockBuiltin] [Serde Timestamp]

/-- `apply_block(..).expect(..)` on a head entry. -/
def expectBlock (exec : Executor) (fatal : Fatal) (position : Position) (entry : HeadEntry) :
    Except Fatal Position :=
  match applyBlock exec position.1 entry.block position.2 with
  | .ok state => .ok (some (Tip.ofBlock entry.block), state)
  | .error (.rejected _) => .error fatal
  | .error (.panicked panic) => .error (.apply panic)

namespace ChainState

/-- `replay_head_prefix`. -/
def replayHeadPrefix (exec : Executor) (chain : ChainState) (count : ℕ) :
    Except Fatal Position :=
  (chain.headBlocks.take count).foldlM (expectBlock exec .headBlocksMustReplay) chain.finalPosition

/-- `rederive_head`. -/
def rederiveHead (exec : Executor) (chain : ChainState) : Except Fatal ChainState := do
  let (_, headState) ← chain.replayHeadPrefix exec chain.headBlocks.length
  pure { chain with headState }

/-- `apply_adopted`. -/
def applyAdopted (exec : Executor) (chain : ChainState) (thisMsg : MsgId) (block : Block) :
    Except Fatal (AcceptOutcome × ChainState) :=
  if (chain.headPositionOf thisMsg block).isSome then .ok (.alreadyApplied, chain)
  else if ∃ finalTip ∈ chain.finalTip, block.header.blockId ≤ finalTip.blockId then
    .ok (.alreadyApplied, chain)
  else do
    let reorgAt := chain.headBlocks.findIdx? fun entry =>
      block.header.blockId ≤ entry.block.header.blockId
    let (tip, scratch) ← (match reorgAt with
      | none => pure (chain.headTip, chain.headState)
      | some idx => chain.replayHeadPrefix exec idx)
    match applyBlock exec tip block scratch with
    | .ok headState =>
      let kept := match reorgAt with
        | none => chain.headBlocks
        | some idx => chain.headBlocks.take idx
      pure (.applied, { chain with headState, headBlocks := kept ++ [⟨thisMsg, block⟩] })
    | .error (.rejected error) => pure (.parked error, chain)
    | .error (.panicked panic) => .error (.apply panic)

/-- `apply_produced`. -/
def applyProduced (exec : Executor) (chain : ChainState) (thisMsg : MsgId) (block : Block) :
    Except Fatal (AcceptOutcome × ChainState) :=
  if ∃ tip ∈ chain.headTip, block.header.blockId ≤ tip.blockId then .ok (.alreadyApplied, chain)
  else chain.applyAdopted exec thisMsg block

/-- `revert_orphan`. -/
def revertOrphan (exec : Executor) (chain : ChainState) (thisMsg : MsgId) (block : Block) :
    Except Fatal ChainState :=
  match chain.headPositionOf thisMsg block with
  | some idx => rederiveHead exec { chain with headBlocks := chain.headBlocks.take idx }
  | none => .ok chain

/-- `apply_channel_update`. -/
def applyChannelUpdate (exec : Executor) (chain : ChainState)
    (orphaned adopted : List (MsgId × Block)) :
    Except Fatal (List AcceptOutcome × ChainState) := do
  let earliest := (orphaned.filterMap fun (msg, block) => chain.headPositionOf msg block).min?
  let chain ← (match earliest with
    | some idx => rederiveHead exec { chain with headBlocks := chain.headBlocks.take idx }
    | none => pure chain)
  adopted.foldlM
    (fun (outcomes, chain) (msg, block) => do
      let (outcome, chain) ← chain.applyAdopted exec msg block
      pure (outcomes ++ [outcome], chain))
    ([], chain)

/-- `restore_head_block`.  The entry gets the hash of the block for a message id. -/
def restoreHeadBlock (exec : Executor) (chain : ChainState) (block : Block) :
    Except ApplyError ChainState := do
  let headState ← applyBlock exec chain.headTip block chain.headState
  pure { chain with headState, headBlocks := chain.headBlocks ++ [⟨⟨block.header.hash⟩, block⟩] }

/-- `finalize_through`. -/
def finalizeThrough (exec : Executor) (chain : ChainState) (idx : ℕ) :
    Except Fatal ChainState := do
  let finalized := chain.headBlocks.take (idx + 1)
  let (finalTip, finalState) ←
    finalized.foldlM (expectBlock exec .headBlockMustApply) chain.finalPosition
  pure
    { chain with
      finalState, finalTip
      finalStall := none
      headBlocks := chain.headBlocks.drop (idx + 1)
      finalBlocks := chain.finalBlocks ++ finalized.map HeadEntry.block }

/-- `apply_finalized_direct`. -/
def applyFinalizedDirect (exec : Executor) (chain : ChainState) (block : Block) (l1Slot : Slot) :
    Except Fatal (AcceptOutcome × ChainState) :=
  if ∃ tip ∈ chain.finalTip, block.header.blockId < tip.blockId ∨
      (block.header.blockId = tip.blockId ∧ block.header.hash = tip.hash) then
    .ok (.alreadyApplied, chain)
  else
    match applyBlock exec chain.finalTip block chain.finalState with
    | .ok finalState =>
      .ok (.applied,
        { finalState
          finalTip := some (Tip.ofBlock block)
          finalStall := none
          headState := finalState
          headBlocks := []
          finalBlocks := chain.finalBlocks ++ [block] })
    | .error (.rejected error) => .ok (.parked error, chain.recordFinalStall block l1Slot error)
    | .error (.panicked panic) => .error (.apply panic)

/-- `apply_finalized`. -/
def applyFinalized (exec : Executor) (chain : ChainState) (thisMsg : MsgId) (block : Block)
    (l1Slot : Slot) : Except Fatal (AcceptOutcome × ChainState) :=
  match chain.headPositionOf thisMsg block with
  | some idx => do
    let chain ← chain.finalizeThrough exec idx
    pure (.applied, chain)
  | none => do
    let parentAt := chain.headBlocks.findIdx? fun entry =>
      entry.block.header.hash = block.header.prevBlockHash
    let chain ← (match parentAt with
      | some idx => chain.finalizeThrough exec idx
      | none => pure chain)
    chain.applyFinalizedDirect exec block l1Slot

end ChainState

inductive ChainEvent
  | adopted (thisMsg : MsgId) (block : Block)
  | produced (thisMsg : MsgId) (block : Block)
  | orphaned (thisMsg : MsgId) (block : Block)
  | channelUpdate (orphaned adopted : List (MsgId × Block))
  | restored (block : Block)
  | finalized (thisMsg : MsgId) (block : Block) (l1Slot : Slot)
  deriving DecidableEq

/-- Handle an event: the outcomes it reports and the chain it leaves. -/
def ChainState.handle (exec : Executor) (chain : ChainState) :
    ChainEvent → Except Fatal (List AcceptOutcome × ChainState)
  | .adopted thisMsg block => do
    let (outcome, chain) ← chain.applyAdopted exec thisMsg block
    pure ([outcome], chain)
  | .produced thisMsg block => do
    let (outcome, chain) ← chain.applyProduced exec thisMsg block
    pure ([outcome], chain)
  | .orphaned thisMsg block => do
    let chain ← chain.revertOrphan exec thisMsg block
    pure ([], chain)
  | .channelUpdate orphaned adopted => chain.applyChannelUpdate exec orphaned adopted
  | .restored block =>
    match chain.restoreHeadBlock exec block with
    | .ok chain => .ok ([], chain)
    | .error (.rejected error) => .error (.restore error)
    | .error (.panicked panic) => .error (.apply panic)
  | .finalized thisMsg block l1Slot => do
    let (outcome, chain) ← chain.applyFinalized exec thisMsg block l1Slot
    pure ([outcome], chain)

/-- The entries that an event may push on the head. -/
def ChainEvent.entries : ChainEvent → List HeadEntry
  | .adopted thisMsg block => [⟨thisMsg, block⟩]
  | .produced thisMsg block => [⟨thisMsg, block⟩]
  | .orphaned _ _ => []
  | .channelUpdate _ messages => messages.map fun (msg, block) => ⟨msg, block⟩
  | .restored block => [⟨⟨block.header.hash⟩, block⟩]
  | .finalized _ _ _ => []

/-! ### Moves -/

/-- What happens to a head: it is cut back, and an entry is pushed on what is left. -/
inductive HeadMove (exec : Executor) (entries : List HeadEntry) (chain : ChainState) :
    ChainState → Prop
  | cut {i : ℕ} {mid : Position}
      (hmid : replay (advance exec) chain.finalPosition (chain.blocks.take i) = some mid) :
      HeadMove exec entries chain
        { chain with headState := mid.2, headBlocks := chain.headBlocks.take i }
  | grow {i : ℕ} {mid : Position} {entry : HeadEntry} {headState : V03State}
      (hmid : replay (advance exec) chain.finalPosition (chain.blocks.take i) = some mid)
      (happly : applyBlock exec mid.1 entry.block mid.2 = .ok headState)
      (hentry : entry ∈ entries) :
      HeadMove exec entries chain
        { chain with headState, headBlocks := chain.headBlocks.take i ++ [entry] }

/-- What happens to a final tier: a beginning of the head is moved into it, a block is
applied to it and replaces the head, or a stall is noted. -/
inductive FinalMove (exec : Executor) (chain : ChainState) : ChainState → Prop
  | settle {i : ℕ} {mid : Position}
      (hmid : replay (advance exec) chain.finalPosition (chain.blocks.take i) = some mid) :
      FinalMove exec chain
        { chain with
          finalState := mid.2
          finalTip := mid.1
          finalStall := none
          headBlocks := chain.headBlocks.drop i
          finalBlocks := chain.finalBlocks ++ chain.blocks.take i }
  | rebase {block : Block} {finalState : V03State}
      (happly : applyBlock exec chain.finalTip block chain.finalState = .ok finalState) :
      FinalMove exec chain
        { finalState
          finalTip := some (Tip.ofBlock block)
          finalStall := none
          headState := finalState
          headBlocks := []
          finalBlocks := chain.finalBlocks ++ [block] }
  | stall (finalStall : Option StallReason) : FinalMove exec chain { chain with finalStall }

/-- The moves an event is made of. -/
def Moves (exec : Executor) (event : ChainEvent) : ChainState → ChainState → Prop :=
  match event with
  | .finalized _ _ _ => ReflTransGen (FinalMove exec)
  | event => ReflTransGen (HeadMove exec event.entries)

/-- An event moves only the head, or it is a finalized event and moves the final tier. -/
theorem Moves.cases {exec : Executor} {event : ChainEvent} {chain chain' : ChainState}
    (h : Moves exec event chain chain') :
    ReflTransGen (HeadMove exec event.entries) chain chain' ∨
      (∃ thisMsg block l1Slot, event = .finalized thisMsg block l1Slot) ∧
        ReflTransGen (FinalMove exec) chain chain' := by
  cases event with
  | finalized thisMsg block l1Slot => exact .inr ⟨⟨thisMsg, block, l1Slot, rfl⟩, h⟩
  | _ => exact .inl h

/-- The tiers are in step: the final tier is the replay of the blocks applied to it, and the
head state is the replay of the head over the final tier. -/
def Consistent (exec : Executor) (origin : Position) (chain : ChainState) : Prop :=
  Tiers (advance exec) origin chain.finalBlocks chain.blocks chain.finalPosition
    (chain.headTip, chain.headState)

variable {exec : Executor} {origin : Position} {chain chain' : ChainState}

/-- The tip of a head that replays is its last block, so only the state has to be checked. -/
theorem Consistent.of_tiers {head : List Block} {top : Position}
    (h : Tiers (advance exec) origin chain.finalBlocks head chain.finalPosition top)
    (hhead : chain.blocks = head) (hstate : top.2 = chain.headState) :
    Consistent exec origin chain := by
  subst hhead
  have htip : top.1 = chain.headTip := by
    rw [tip_of_replay h.head_replay, ChainState.blocks, List.getLast?_map, Option.map_map]
    rfl
  obtain rfl : top = (chain.headTip, chain.headState) := Prod.ext htip hstate
  exact h

theorem Consistent.fromFinal (state : V03State) (tip : Option Tip) :
    Consistent exec (tip, state) (.fromFinal state tip) :=
  Tiers.empty (tip, state)

variable {entries : List HeadEntry} {step : ChainEvent × List AcceptOutcome}

section

variable (h : Consistent exec origin chain)
include h

theorem Consistent.headMove (hmove : HeadMove exec entries chain chain') :
    Consistent exec origin chain' := by
  cases hmove with
  | cut hmid =>
    exact .of_tiers (h.truncate hmid) map_take rfl
  | grow hmid happly hentry =>
    refine .of_tiers (h.extend hmid (advance_eq_some.mpr ⟨_, happly, rfl⟩)) ?_ rfl
    rw [ChainState.blocks, map_append, map_take]
    rfl

theorem Consistent.finalMove (hmove : FinalMove exec chain chain') :
    Consistent exec origin chain' := by
  cases hmove with
  | settle hmid =>
    exact .of_tiers (h.settle hmid) List.map_drop rfl
  | rebase happly => exact h.rebase (advance_eq_some.mpr ⟨_, happly, rfl⟩)
  | stall finalStall => exact h

theorem Consistent.headMoves (hmoves : ReflTransGen (HeadMove exec entries) chain chain') :
    Consistent exec origin chain' := by
  induction hmoves with
  | refl => exact h
  | tail _ hmove ih => exact ih.headMove hmove

theorem Consistent.moves {event : ChainEvent} (hmoves : Moves exec event chain chain') :
    Consistent exec origin chain' := by
  rcases hmoves.cases with hhead | ⟨-, hfinal⟩
  · exact h.headMoves hhead
  · clear hmoves
    induction hfinal with
    | refl => exact h
    | tail _ hmove ih => exact ih.finalMove hmove

end

theorem HeadMove.mono {entries' : List HeadEntry} (hsub : entries ⊆ entries')
    (h : HeadMove exec entries chain chain') : HeadMove exec entries' chain chain' := by
  cases h with
  | cut hmid => exact .cut hmid
  | grow hmid happly hentry => exact .grow hmid happly (hsub hentry)

/-! ### What the operations do -/

/-- Entries whose blocks replay can be expected to apply. -/
theorem foldlM_expectBlock {position position' : Position} (fatal : Fatal)
    (h : replay (advance exec) position (entries.map HeadEntry.block) = some position') :
    entries.foldlM (expectBlock exec fatal) position = .ok position' := by
  induction entries generalizing position with
  | nil => exact congrArg Except.ok (some.inj h)
  | cons entry entries ih =>
    obtain ⟨next, hadvance, hrest⟩ := replay_cons_eq_some.mp h
    obtain ⟨state, happly, rfl⟩ := advance_eq_some.mp hadvance
    refine foldlM_cons_eq_ok.mpr ⟨_, ?_, ih hrest⟩
    rw [expectBlock, happly]

/-- Where a chain is after a beginning of the head. -/
theorem ChainState.height_of_take {i : ℕ} {mid : Position} (hi : i ≤ chain.headBlocks.length)
    (hmid : replay (advance exec) chain.finalPosition (chain.blocks.take i) = some mid) :
    height mid.1 = height chain.finalTip + i := by
  have hlength : (chain.blocks.take i).length = i := by
    rw [length_take, ChainState.blocks, length_map]
    omega
  have hheight := height_of_replay hmid
  rw [hlength] at hheight
  exact hheight

namespace Consistent

section

variable (h : Consistent exec origin chain)

include h

/-- Every beginning of the head replays. -/
theorem replay_take (i : ℕ) :
    ∃ mid, replay (advance exec) chain.finalPosition (chain.blocks.take i) = some mid := by
  obtain ⟨mid, hmid, -⟩ := TwoTier.replay_take h.head_replay i
  exact ⟨mid, hmid⟩

/-- The head replays as a whole. -/
theorem replay_whole :
    replay (advance exec) chain.finalPosition (chain.blocks.take chain.headBlocks.length)
      = some (chain.headTip, chain.headState) := by
  rw [show chain.headBlocks.length = chain.blocks.length from (length_map _).symm, take_length]
  exact h.head_replay

/-- Cutting the head back and deriving its state again. -/
theorem rederiveHead_eq (idx : ℕ) :
    ∃ mid, replay (advance exec) chain.finalPosition (chain.blocks.take idx) = some mid ∧
      ChainState.rederiveHead exec { chain with headBlocks := chain.headBlocks.take idx }
        = .ok { chain with headState := mid.2, headBlocks := chain.headBlocks.take idx } := by
  obtain ⟨mid, hmid⟩ := h.replay_take idx
  refine ⟨mid, hmid, bind_eq_ok.mpr ⟨mid, ?_, rfl⟩⟩
  refine foldlM_expectBlock _ ?_
  -- the whole of the shortened head is replayed
  rw [take_length, map_take]
  exact hmid

theorem finalizeThrough_eq (idx : ℕ) :
    ∃ mid, replay (advance exec) chain.finalPosition (chain.blocks.take (idx + 1)) = some mid ∧
      chain.finalizeThrough exec idx = .ok
        { chain with
          finalState := mid.2
          finalTip := mid.1
          finalStall := none
          headBlocks := chain.headBlocks.drop (idx + 1)
          finalBlocks := chain.finalBlocks ++ chain.blocks.take (idx + 1) } := by
  obtain ⟨mid, hmid⟩ := h.replay_take (idx + 1)
  refine ⟨mid, hmid, bind_eq_ok.mpr ⟨mid, foldlM_expectBlock _ ?_, ?_⟩⟩
  · rw [map_take]
    exact hmid
  · rw [ChainState.blocks, ← map_take]
    rfl

/-- Where a new block is applied: at the end of the head, or at the height it competes for. -/
theorem parent_eq (reorgAt : Option ℕ) :
    ∃ mid, replay (advance exec) chain.finalPosition
        (chain.blocks.take (reorgAt.getD chain.headBlocks.length)) = some mid ∧
      (match reorgAt with
        | none => pure (chain.headTip, chain.headState)
        | some idx => chain.replayHeadPrefix exec idx) = Except.ok mid ∧
      (match reorgAt with
        | none => chain.headBlocks
        | some idx => chain.headBlocks.take idx) =
          chain.headBlocks.take (reorgAt.getD chain.headBlocks.length) := by
  cases reorgAt with
  | none => exact ⟨(chain.headTip, chain.headState), h.replay_whole, rfl, take_length.symm⟩
  | some idx =>
    obtain ⟨mid, hmid⟩ := h.replay_take idx
    refine ⟨mid, hmid, foldlM_expectBlock _ ?_, rfl⟩
    rw [map_take]
    exact hmid

end

omit [Sha256] [Schnorr] [Builtins] [Receipts] [ImageId] [ClockBuiltin] [Serde Timestamp] in
theorem findIdx?_le {p : HeadEntry → Bool} {entries : List HeadEntry} :
    (entries.findIdx? p).getD entries.length ≤ entries.length := by
  cases hidx : entries.findIdx? p with
  | none => exact le_rfl
  | some idx => exact (List.findIdx?_eq_some_iff_getElem.mp hidx).1.le

section

variable (h : Consistent exec origin chain)

include h

/-- **What an adoption does.**  A block that is not applied leaves the chain alone; one that
is takes its place in the head, with what stands above it cut off. -/
theorem applyAdopted_ends (thisMsg : MsgId) (block : Block) :
    Ends Fatal.Foreign
      (fun result => (result.1 ≠ .applied ∧ result.2 = chain) ∨
        (result.1 = .applied ∧ ∃ i mid headState, i ≤ chain.headBlocks.length ∧
          block.header.blockId.val = height chain.finalTip + 1 + i ∧
          replay (advance exec) chain.finalPosition (chain.blocks.take i) = some mid ∧
          applyBlock exec mid.1 block mid.2 = .ok headState ∧
          result.2 = { chain with
            headState, headBlocks := chain.headBlocks.take i ++ [⟨thisMsg, block⟩] }))
      (chain.applyAdopted exec thisMsg block) := by
  unfold ChainState.applyAdopted
  split
  · exact .inl ⟨by simp, rfl⟩
  split
  · exact .inl ⟨by simp, rfl⟩
  obtain ⟨mid, hmid, hscratch, hkept⟩ := h.parent_eq
    (chain.headBlocks.findIdx? fun entry => block.header.blockId ≤ entry.block.header.blockId)
  dsimp only
  rw [hscratch, hkept]
  change Ends _ _ (match applyBlock exec mid.1 block mid.2 with
    | .ok headState => _
    | .error (.rejected error) => _
    | .error (.panicked panic) => _)
  split
  · rename_i headState happly
    refine .inr ⟨rfl, _, mid, headState, findIdx?_le, ?_, hmid, happly, rfl⟩
    rw [(applyBlock_ok happly).blockId, ChainState.height_of_take findIdx?_le hmid]
    omega
  · exact .inl ⟨by simp, rfl⟩
  · exact ⟨by simp, by simp⟩

theorem applyAdopted_moves (thisMsg : MsgId) (block : Block) :
    Ends Fatal.Foreign
      (fun result => ReflTransGen (HeadMove exec [⟨thisMsg, block⟩]) chain result.2)
      (chain.applyAdopted exec thisMsg block) := by
  refine (h.applyAdopted_ends thisMsg block).mono ?_
  rintro ⟨outcome, chain'⟩ (⟨-, rfl⟩ | ⟨-, i, mid, headState, -, -, hmid, happly, rfl⟩)
  · exact .refl
  · exact .single (.grow hmid happly mem_cons_self)

theorem revertOrphan_moves (thisMsg : MsgId) (block : Block) :
    Ends Fatal.Foreign (ReflTransGen (HeadMove exec []) chain)
      (chain.revertOrphan exec thisMsg block) := by
  unfold ChainState.revertOrphan
  split
  · rename_i idx _
    obtain ⟨mid, hmid, heq⟩ := h.rederiveHead_eq idx
    rw [heq]
    exact .single (.cut hmid)
  · exact .refl

theorem applyChannelUpdate_moves (orphaned adopted : List (MsgId × Block)) :
    Ends Fatal.Foreign
      (fun result => ReflTransGen
        (HeadMove exec (adopted.map fun (msg, block) => ⟨msg, block⟩)) chain result.2)
      (chain.applyChannelUpdate exec orphaned adopted) := by
  set entries : List HeadEntry := adopted.map fun (msg, block) => ⟨msg, block⟩
  unfold ChainState.applyChannelUpdate
  dsimp only
  refine Ends.bind (P := ReflTransGen (HeadMove exec entries) chain) ?_ ?_
  · -- the orphans are reverted at once, back to the earliest of them
    split
    · rename_i idx _
      obtain ⟨mid, hmid, heq⟩ := h.rederiveHead_eq idx
      rw [heq]
      exact .single (.cut hmid)
    · exact .refl
  · intro reverted hreverted
    refine Ends.foldlM ?_ hreverted
    rintro ⟨msg, block⟩ hmem ⟨outcomes, reached⟩ hreached
    refine ((h.headMoves hreached).applyAdopted_moves msg block).bind ?_
    rintro ⟨outcome, next⟩ hnext
    have hsub : [HeadEntry.mk msg block] ⊆ entries :=
      List.cons_subset.mpr ⟨mem_map.mpr ⟨(msg, block), hmem, rfl⟩, nil_subset _⟩
    exact ReflTransGen.trans hreached
      (ReflTransGen.mono (fun _ _ (hmove : HeadMove exec _ _ _) => hmove.mono hsub) _ _ hnext)

theorem restoreHeadBlock_moves {block : Block}
    (hrestore : chain.restoreHeadBlock exec block = .ok chain') :
    HeadMove exec [⟨⟨block.header.hash⟩, block⟩] chain chain' := by
  obtain ⟨headState, happly, heq⟩ := bind_eq_ok.mp hrestore
  cases heq
  have hmove : HeadMove exec [⟨⟨block.header.hash⟩, block⟩] chain
      { chain with
        headState
        headBlocks := chain.headBlocks.take chain.headBlocks.length ++
          [⟨⟨block.header.hash⟩, block⟩] } :=
    .grow h.replay_whole happly (mem_singleton.mpr rfl)
  rw [take_length] at hmove
  exact hmove

end

/-- A finalized block that is not in the head is known, applied, or noted as a stall. -/
theorem applyFinalizedDirect_moves (block : Block) (l1Slot : Slot) :
    Ends Fatal.Foreign (fun result => ReflTransGen (FinalMove exec) chain result.2)
      (chain.applyFinalizedDirect exec block l1Slot) := by
  unfold ChainState.applyFinalizedDirect
  split
  · exact .refl
  split
  · rename_i happly
    exact .single (.rebase happly)
  · exact .single (.stall _)
  · exact ⟨by simp, by simp⟩

theorem applyFinalized_moves (h : Consistent exec origin chain) (thisMsg : MsgId) (block : Block)
    (l1Slot : Slot) :
    Ends Fatal.Foreign (fun result => ReflTransGen (FinalMove exec) chain result.2)
      (chain.applyFinalized exec thisMsg block l1Slot) := by
  unfold ChainState.applyFinalized
  split
  · rename_i idx _
    obtain ⟨mid, hmid, heq⟩ := h.finalizeThrough_eq idx
    rw [heq]
    exact .single (.settle hmid)
  · dsimp only
    refine Ends.bind (P := ReflTransGen (FinalMove exec) chain) ?_ ?_
    · split
      · rename_i idx _
        obtain ⟨mid, hmid, heq⟩ := h.finalizeThrough_eq idx
        rw [heq]
        exact .single (.settle hmid)
      · exact .refl
    · intro settled hsettled
      exact (applyFinalizedDirect_moves block l1Slot).mono fun _ hdirect => hsettled.trans hdirect

/-- **What an event does.**  On a chain whose tiers are in step it is made of moves, and
it does not run into an `expect`. -/
theorem handle_moves (h : Consistent exec origin chain) (event : ChainEvent) :
    Ends Fatal.Foreign (fun result => Moves exec event chain result.2)
      (chain.handle exec event) := by
  cases event with
  | adopted thisMsg block => exact (h.applyAdopted_moves thisMsg block).bind fun _ hmoves => hmoves
  | produced thisMsg block =>
    refine Ends.bind ?_ fun _ hmoves => hmoves
    unfold ChainState.applyProduced
    split
    · exact .refl
    · exact h.applyAdopted_moves thisMsg block
  | orphaned thisMsg block => exact (h.revertOrphan_moves thisMsg block).bind fun _ hmoves => hmoves
  | channelUpdate orphaned adopted => exact h.applyChannelUpdate_moves orphaned adopted
  | restored block =>
    change Ends _ _ (match chain.restoreHeadBlock exec block with
      | .ok chain => _
      | .error (.rejected error) => _
      | .error (.panicked panic) => _)
    split
    · rename_i hrestore
      exact .single (h.restoreHeadBlock_moves hrestore)
    · exact ⟨by simp, by simp⟩
    · exact ⟨by simp, by simp⟩
  | finalized thisMsg block l1Slot =>
    exact (h.applyFinalized_moves thisMsg block l1Slot).bind fun _ hmoves => hmoves

end Consistent

/-! ### Runs -/

/-- An event is handled and reports these outcomes. -/
def Handles (exec : Executor) (step : ChainEvent × List AcceptOutcome)
    (chain chain' : ChainState) : Prop :=
  chain.handle exec step.1 = .ok (step.2, chain')

theorem Handles.moves (h : Handles exec step chain chain') (hchain : Consistent exec origin chain) :
    Moves exec step.1 chain chain' :=
  (hchain.handle_moves step.1).of_eq_ok h

/-- A run of events keeps the tiers in step. -/
theorem Consistent.run {history : List (ChainEvent × List AcceptOutcome)}
    (hrun : Run (Handles exec) chain history chain') (h : Consistent exec origin chain) :
    Consistent exec origin chain' :=
  hrun.invariant (fun _ _ _ _ hhandles hbefore => hbefore.moves (hhandles.moves hbefore)) h

theorem Consistent.of_start {start : ChainState} {state : V03State} {tip : Option Tip}
    (hstart : start = .new state ∨ start = .fromFinal state tip)
    {history : List (ChainEvent × List AcceptOutcome)}
    (hrun : Run (Handles exec) start history chain) :
    ∃ origin, Consistent exec origin chain := by
  rcases hstart with rfl | rfl
  · exact ⟨_, (Consistent.fromFinal state none).run hrun⟩
  · exact ⟨_, (Consistent.fromFinal state tip).run hrun⟩

/-- **The tiers are in step.**  Whatever events a fresh or restored chain handles, with
whatever messages and blocks, the head state is the final state replayed through the head,
the blocks of the head are linked with consecutive ids from the final tip on, and no event
runs into an `expect` of the chain state. -/
theorem two_tier_invariant {start : ChainState} {state : V03State} {tip : Option Tip}
    (hstart : start = .new state ∨ start = .fromFinal state tip)
    {history : List (ChainEvent × List AcceptOutcome)}
    (hrun : Run (Handles exec) start history chain) :
    replay (advance exec) (chain.finalTip, chain.finalState) chain.blocks
        = some (chain.headTip, chain.headState) ∧
      Linked chain.finalTip chain.blocks ∧
      (∀ i block, chain.blocks[i]? = some block →
        block.header.blockId.val = height chain.finalTip + 1 + i) ∧
      ∀ event, chain.handle exec event ≠ .error .headBlocksMustReplay ∧
        chain.handle exec event ≠ .error .headBlockMustApply := by
  obtain ⟨origin, hchain⟩ := Consistent.of_start hstart hrun
  have hlinked : Linked chain.finalTip chain.blocks := linked_of_replay hchain.head_replay
  refine ⟨hchain.head_replay, hlinked, fun i block hi => hlinked.blockId_getElem? hi, ?_⟩
  intro event
  have hends := hchain.handle_moves event
  exact ⟨fun heq => (hends.of_eq_error heq).1 rfl, fun heq => (hends.of_eq_error heq).2 rfl⟩

/-- Handle an event if it reports these outcomes. -/
def ChainState.follow (exec : Executor) (chain : ChainState)
    (step : ChainEvent × List AcceptOutcome) : Option ChainState :=
  match chain.handle exec step.1 with
  | .ok (outcomes, chain') => if outcomes = step.2 then some chain' else none
  | .error _ => none

theorem handles_of_follow (h : chain.follow exec step = some chain') :
    Handles exec step chain chain' := by
  unfold ChainState.follow at h
  split at h
  · rename_i heq
    split at h
    · rename_i houtcomes
      cases h
      exact heq.trans (by rw [houtcomes])
    · cases h
  · cases h

end

/-! ### A fork

After the genesis block there are two second blocks, and a third on one of them.  The blocks
hold nothing but the clock invocation. -/

namespace Fork

open Idle

def clock : ProgramId := .ofWord 1

scoped instance clockBuiltin : ClockBuiltin := ⟨clock⟩

scoped instance serde : Serde Timestamp := .u64

scoped instance builtins : Builtins := ⟨.ofWord 2, .ofWord 3, .ofWord 4, .ofWord 5⟩

/-- Nobody signs anything. -/
scoped instance schnorr : Schnorr := .ofTable []

/-- A block with the digest of its contents. -/
def block (blockId : BlockId) (prevBlockHash : HashType) (timestamp : Timestamp) (hash : ℕ) :
    Block where
  header :=
    { blockId, prevBlockHash, timestamp
      hash := ofHex hash
      signature := .ofHex 0 0 }
  body := ⟨[.publicTx (@clockInvocation clockBuiltin serde timestamp)]⟩
  bedrockStatus := .pending

def genesis : Block :=
  block 1 (ofHex 0) 10 0xa6b5575ea96aa8d300b486016eaf7a8e919cfc97cac5d73cc58518dc97511bc5

def second : Block :=
  block 2 genesis.header.hash 20 0x782980fe14df95dedc1b68535b3553712885d17c596952edba09edddc85c1d15

def rival : Block :=
  block 2 genesis.header.hash 25 0x67d95dfdd31ba2b558ab01bd2ebcd9cd790ad290ff732748609677f02bd18cef

def third : Block :=
  block 3 rival.header.hash 30 0x5fa77d2f561d1f13a0e7d2cd72e7ce1fcfc3ada07b01c284d3e652d3df858e27

scoped instance sha : Sha256 := .ofTable ([genesis, second, rival, third].map fun block =>
  (block.hashableData.hashBytes, block.header.hash))

def exec : Executor := .ofGuests fun _ => @Clock.main serde

/-- The clock program with its accounts at zero. -/
def state : V03State := .ofAccounts (deployedAt clock :: clockAccountIds.map fun accountId =>
  (accountId, { Account.ownedBy clock with data := ⟨replicate 16 0, by decide⟩ }))

def msg (n : ℕ) : MsgId := ⟨ofHex n⟩

/-- The rival replaces the second block, is orphaned with the third block and comes back
in a channel update; the genesis block is finalized from the head. -/
def history : List (ChainEvent × List AcceptOutcome) :=
  [ (.restored genesis, []),
    (.adopted (msg 2) second, [.applied]),
    (.adopted (msg 3) rival, [.applied]),
    (.produced (msg 4) third, [.applied]),
    (.orphaned (msg 3) rival, []),
    (.finalized (msg 1) genesis 7, [.applied]),
    (.channelUpdate [(msg 4, third)] [(msg 3, rival), (msg 4, third), (msg 2, second)],
      [.applied, .applied, .applied]) ]

end Fork

section

open Idle Fork

theorem fork_in_step :
    ∃ chain, Run (Handles exec) (.new state) history chain ∧
      chain.finalTip = some (.ofBlock genesis) ∧ chain.blocks = [second] ∧
      replay (advance exec) (chain.finalTip, chain.finalState) chain.blocks
        = some (chain.headTip, chain.headState) := by
  obtain ⟨chain, hrun, htip, hblocks⟩ := Run.exists_of_foldlM (fun _ _ _ => handles_of_follow)
    (by decide +kernel : ∃ chain, history.foldlM (ChainState.follow exec)
      (.new state) = some chain ∧ chain.finalTip = some (.ofBlock genesis) ∧
        chain.blocks = [second])
  exact ⟨chain, hrun, htip, hblocks,
    (two_tier_invariant (.inl rfl : _ ∨ _ = ChainState.fromFinal state none) hrun).1⟩

end

end Lssa
