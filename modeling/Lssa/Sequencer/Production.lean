/-
The turns of a sequencer and the heights that it publishes.

When it is its turn, a sequencer checks that the head is not below what it has published
(`rewoundBelowPublished`), and then runs the turn (`run_production_turn`): it reads the
committee, builds a block on the head, publishes it, raises the mark of what it has published
(`raisePublishedHighWater`) and records the block.  It waits in between, and whenever it waits
a delta of the channel may move the head, or the sequencer may stop and start again.  So the
steps of a turn are steps of their own here (`Producer.step`), and a history interleaves them
in any way.

Two things can go wrong.  The head may be taken back between the check and the build, and the
sequencer may stop between publishing a block and raising the mark.  And a sequencer that
opens the channel publishes the blocks of its store, so it must not do that twice.  If none of
these happens (`Careful`), the ids of the published blocks grow:

* `Ordered.step` — a careful step keeps the order of the published ids;
* **`published_ids_increase`** — so does a history;
* `published_twice` — histories that are not careful, with two blocks at one height.
-/
import Lssa.Sequencer.Builder
import Lssa.Sequencer.Restart

open Outcome Runs

namespace Lssa

open ChainCells

open LeeTransaction (TransactionBorsh)
open SequencerStake (SequencerKey)

/-! ### The steps -/

section

variable [Ed25519]

/-- Where a sequencer stands: it starts, it publishes its first blocks, or it is at a point of
a turn. -/
inductive Phase
  | starting
  | republishing (pending : List Block)
  /-- The mark is not raised yet. -/
  | republished (block : Block) (pending : List Block)
  | idle
  | checked
  | built (block : Block)
  /-- The mark is not raised yet. -/
  | inscribed (thisMsg : MsgId) (block : Block)
  | marked (thisMsg : MsgId) (block : Block)

/-- A sequencer with its chain, the cell of the mark, and where it stands.  `published` is a
history variable: the ids of the blocks that it has published. -/
structure Producer where
  core : MirroredChain
  publishedHighWater : Option U64
  phase : Phase
  published : List U64

/-- What a build reads besides the chain, and the time at which it reads it. -/
structure BuildInputs where
  pendingDepositEvents : List PendingDepositEventRecord
  pendingCrossZoneDispatches : List PendingCrossZoneDispatchRecord
  mempool : List (TransactionOrigin × LeeTransaction)
  sequencerConfig : SequencerConfig
  timestamp : Timestamp
  liveAccreditedKeys : Option (List SequencerKey)

def BuildInputs.core (inputs : BuildInputs) (chain : ChainState) : SequencerCore where
  chain := chain
  pendingDepositEvents := inputs.pendingDepositEvents
  pendingCrossZoneDispatches := inputs.pendingCrossZoneDispatches
  mempool := inputs.mempool
  sequencerConfig := inputs.sequencerConfig

inductive ProductionEvent
  | follow (update : FollowUpdate)
  | restart
  | reconstructed (block : Block) (slot : Slot)
  /-- The end of a start; `bootstraps` if there was no checkpoint and the channel has no tip. -/
  | seed (bootstraps : Bool)
  | check (isOurTurn : Bool)
  | build (inputs : BuildInputs)
  | publish (thisMsg : MsgId)
  | publishFailed
  | raise
  | record

end

/-- `raise_published_high_water`. -/
def raisePublishedHighWater (mark : Option U64) (blockId : U64) : Option U64 :=
  match mark with
  | some high => if blockId ≤ high then some high else some blockId
  | none => some blockId

/-- `next_block_height`, `none` if it panics. -/
def nextBlockHeight (chain : ChainState) : Option U64 :=
  match chain.headTip with
  | none => some genesisBlockId
  | some tip => checkedSucc tip.blockId

/-- The blocks that a sequencer publishes when it opens the channel. -/
def ChainCells.pendingBlocks (store : ChainCells) : List Block :=
  sortById (store.getAllBlocks.filter fun block => block.bedrockStatus = .pending)

/-- On with the blocks that are left. -/
def Phase.republish : List Block → Phase
  | [] => .idle
  | block :: rest => .republishing (block :: rest)

namespace Producer

/-- `rewound_below_published`; the outer `none` is a panic. -/
def rewoundBelowPublished (producer : Producer) : Option (Option U64) :=
  match producer.publishedHighWater with
  | none => some none
  | some highWater => do
    let height ← nextBlockHeight producer.core.chain
    some (if height ≤ highWater then some highWater else none)

/-- The end of `start_from_config`: the mark is seeded from the stored tip, and the first
blocks are due if the channel does not exist.  The first of them must be a genesis block. -/
def seedMark (producer : Producer) (bootstraps : Bool) : Option Producer :=
  let publishedHighWater :=
    match producer.core.store.latestBlockMeta with
    | some tip => raisePublishedHighWater producer.publishedHighWater tip.blockId
    | none => producer.publishedHighWater
  let pending := producer.core.store.pendingBlocks
  if bootstraps = false then some { producer with publishedHighWater, phase := .idle }
  else if ∀ block ∈ pending.head?, block.header.blockId = genesisBlockId then
    some { producer with publishedHighWater, phase := .republish pending }
  else none

/-- The start of a turn: it is skipped if it is not ours, or below the mark. -/
def checkTurn (producer : Producer) (isOurTurn : Bool) : Option Producer :=
  if isOurTurn = false then some producer
  else producer.rewoundBelowPublished.map fun rewound =>
    { producer with phase := if rewound.isSome then .idle else .checked }

/-- The block is on the channel. -/
def inscribe (producer : Producer) (block : Block) (phase : Phase) : Producer :=
  { producer with phase, published := producer.published ++ [block.header.blockId] }

/-- The mark is raised to a block. -/
def raiseTo (producer : Producer) (block : Block) (phase : Phase) : Producer :=
  { producer with
    phase
    publishedHighWater := raisePublishedHighWater producer.publishedHighWater block.header.blockId }

section

variable [Sha256] [Schnorr] [Builtins] [Receipts] [ImageId] [ClockBuiltin] [Serde Timestamp]
variable [Ed25519] [StakeBuiltin] [VaultBuiltin] [TransactionBorsh]
variable [Serde SequencerStake.Instruction] [Serde Bridge.Instruction]
variable [Serde CrossZoneInbox.Instruction]

/-- The build of a turn.  A clock that fails ends the turn; the other errors are panics. -/
def buildTurn (exec : Executor) (sign : HashType → Signature) (producer : Producer)
    (inputs : BuildInputs) : Option Producer :=
  match (inputs.core producer.core.chain).buildBlockFromMempool exec sign inputs.timestamp
    inputs.liveAccreditedKeys with
  | .ok outcome => some { producer with phase := .built outcome.built.block }
  | .error (.clockTransactionFailed _) => some { producer with phase := .idle }
  | .error _ => none

/-- A step, `none` if the event does not happen at this point or stops the sequencer.  A delta
of the channel and a restart happen at every point. -/
def step (exec : Executor) (initialState : V03State) (sign : HashType → Signature)
    (producer : Producer) (event : ProductionEvent) : Option Producer :=
  match event, producer.phase with
  | .follow update, _ =>
    (applyFollowUpdate exec producer.core update).toOption.map fun core => { producer with core }
  | .restart, _ =>
    (MirroredChain.start exec initialState producer.core.store).toOption.map fun core =>
      { producer with core, phase := .starting }
  | .reconstructed block slot, .starting =>
    (applyReconstructedBlock exec producer.core block slot).toOption.map fun core =>
      { producer with core }
  | .seed bootstraps, .starting => producer.seedMark bootstraps
  | .publish _, .republishing (block :: pending) =>
    some (producer.inscribe block (.republished block pending))
  | .raise, .republished block pending => some (producer.raiseTo block (.republish pending))
  | .check isOurTurn, .idle => producer.checkTurn isOurTurn
  | .build inputs, .checked => producer.buildTurn exec sign inputs
  | .publish thisMsg, .built block => some (producer.inscribe block (.inscribed thisMsg block))
  | .publishFailed, .built _ => some { producer with phase := .idle }
  | .raise, .inscribed thisMsg block => some (producer.raiseTo block (.marked thisMsg block))
  | .record, .marked thisMsg block =>
    (recordProducedBlock exec producer.core thisMsg block).toOption.map fun core =>
      { producer with core, phase := .idle }
  | _, _ => none

end

end Producer

/-! ### Careful histories -/

/-- The next height is above the mark. -/
def AboveMark (mark : Option U64) (chain : ChainState) : Prop :=
  ∀ high ∈ mark, high.val < height chain.headTip + 1

instance (mark : Option U64) (chain : ChainState) : Decidable (AboveMark mark chain) :=
  decidable_of_iff (mark.all fun high => decide (high.val < height chain.headTip + 1)) (by
    cases mark with
    | none => simp [AboveMark]
    | some high => simp [AboveMark])

section

variable [Sha256] [Schnorr] [Builtins] [Receipts] [ImageId] [ClockBuiltin] [Serde Timestamp]
variable [Ed25519]

/-- What must not happen does not: a delta between the check and the build does not take the
next height below the mark, the sequencer does not stop between publishing and raising the
mark, and it opens the channel only if it has not published anything. -/
def Careful (exec : Executor) (producer : Producer) (event : ProductionEvent) : Prop :=
  match event, producer.phase with
  | .follow update, .checked => ∀ core ∈ (applyFollowUpdate exec producer.core update).toOption,
      AboveMark producer.publishedHighWater core.chain
  | .restart, .republished _ _ => False
  | .restart, .inscribed _ _ => False
  | .seed true, _ => producer.published = []
  | _, _ => True

instance (exec : Executor) (producer : Producer) (event : ProductionEvent) :
    Decidable (Careful exec producer event) := by
  unfold Careful
  split <;> infer_instance

end

/-! ### The store -/

theorem ChainCells.keyed_storeUpdate {store : ChainCells} (h : Keyed store.blocks)
    (update : StoreUpdate) : Keyed (store.storeUpdate update).blocks := by
  have hwritten : Keyed (insertAll store.blocks
      ((store.toWrite update).entries.map fun e => (e.1, e.2))) := by
    intro id block hget
    rw [Ledger.lookup_insertAll_entries] at hget
    rcases Option.or_eq_some_iff.mp hget with hnew | ⟨-, hold⟩
    · exact keyed_toWrite update id block hnew
    · exact h id block hold
  unfold storeUpdate
  dsimp only
  split
  · exact hwritten
  · split
    · intro id block hget
      rw [Ledger.lookup_eraseAll] at hget
      split at hget
      · cases hget
      · exact hwritten id block hget
    · exact hwritten

/-- The pending blocks are in the order of their ids. -/
theorem ChainCells.pairwise_pendingBlocks {store : ChainCells} (h : Keyed store.blocks) :
    (store.pendingBlocks.map fun block => block.header.blockId).Pairwise (· < ·) := by
  set pending := store.getAllBlocks.filter fun block => block.bedrockStatus = .pending with hpending
  have hperm : (sortById pending).Perm pending := List.perm_insertionSort _ _
  have hnodup : (pending.map fun block => block.header.blockId).Nodup :=
    (nodup_ids h).sublist (List.filter_sublist.map _)
  have hsorted : ((sortById pending).map fun block => block.header.blockId).Pairwise (· ≤ ·) := by
    rw [pairwise_map]
    exact List.pairwise_insertionSort
      (fun a b : Block => a.header.blockId ≤ b.header.blockId) pending
  have hdistinct : ((sortById pending).map fun block => block.header.blockId).Pairwise (· ≠ ·) :=
    (hperm.map _).nodup_iff.mpr hnodup
  exact (hsorted.and hdistinct).imp fun hboth => lt_of_le_of_ne hboth.1 hboth.2

section

variable [Sha256] [Schnorr] [Builtins] [Receipts] [ImageId] [ClockBuiltin] [Serde Timestamp]
variable {exec : Executor} {core core' : MirroredChain}

theorem keyed_of_applyFollowUpdate {update : FollowUpdate}
    (h : applyFollowUpdate exec core update = .ok core')
    (hkeyed : Keyed core.store.blocks) : Keyed core'.store.blocks := by
  obtain ⟨⟨outcomes, chain⟩, -, h⟩ := bind_eq_ok.mp h
  obtain ⟨loop, -, h⟩ := bind_eq_ok.mp h
  obtain ⟨finalMeta, -, h⟩ := bind_eq_ok.mp h
  cases h
  exact keyed_storeUpdate hkeyed _

theorem keyed_of_recordProducedBlock {thisMsg : MsgId} {block : Block}
    (h : recordProducedBlock exec core thisMsg block = .ok core')
    (hkeyed : Keyed core.store.blocks) : Keyed core'.store.blocks := by
  obtain ⟨⟨outcome, chain⟩, -, h⟩ := bind_eq_ok.mp h
  cases outcome with
  | applied =>
    cases h
    exact keyed_storeUpdate hkeyed _
  | alreadyApplied | parked error | retryableFailure error =>
    cases h
    exact hkeyed

theorem keyed_of_applyReconstructedBlock {block : Block} {slot : Slot}
    (h : applyReconstructedBlock exec core block slot = .ok core')
    (hkeyed : Keyed core.store.blocks) : Keyed core'.store.blocks := by
  unfold applyReconstructedBlock at h
  split at h
  · cases h
    exact hkeyed
  · split at h
    · cases h
      exact hkeyed
    · obtain ⟨⟨outcome, chain⟩, -, h⟩ := bind_eq_ok.mp h
      cases outcome with
      | applied | alreadyApplied =>
        cases h
        exact keyed_storeUpdate hkeyed _
      | parked error | retryableFailure error => cases h

end

/-! ### The mark -/

theorem exists_le_raise (mark : Option U64) (blockId : U64) :
    ∃ high ∈ raisePublishedHighWater mark blockId, blockId ≤ high := by
  cases mark with
  | none => exact ⟨blockId, rfl, le_rfl⟩
  | some high =>
    by_cases hle : blockId ≤ high
    · exact ⟨high, if_pos hle, hle⟩
    · exact ⟨blockId, if_neg hle, le_rfl⟩

/-- The mark is never lowered. -/
theorem raise_mono {mark : Option U64} {high : U64} (h : high ∈ mark) (blockId : U64) :
    ∃ high' ∈ raisePublishedHighWater mark blockId, high ≤ high' := by
  obtain rfl : mark = some high := h
  by_cases hle : blockId ≤ high
  · exact ⟨high, if_pos hle, le_rfl⟩
  · exact ⟨blockId, if_neg hle, le_of_not_ge hle⟩

theorem nextBlockHeight_eq_some {chain : ChainState} {next : U64}
    (h : nextBlockHeight chain = some next) : next.val = height chain.headTip + 1 := by
  unfold nextBlockHeight at h
  split at h
  · rename_i htip
    rw [htip, ← some.inj h]
    rfl
  · rename_i htip
    rw [htip]
    exact checkedSucc_eq_some.mp h

/-- The check, when it lets a turn go on. -/
theorem aboveMark_of_check {producer : Producer}
    (h : producer.rewoundBelowPublished = some none) :
    AboveMark producer.publishedHighWater producer.core.chain := by
  intro high hhigh
  unfold Producer.rewoundBelowPublished at h
  rw [show producer.publishedHighWater = some high from hhigh] at h
  obtain ⟨next, hnext, h⟩ := bind_eq_some_iff.mp h
  have hheight := nextBlockHeight_eq_some hnext
  split at h
  · cases h
  · rename_i hlt
    rw [Fin.le_def] at hlt
    omega

/-! ### The order of the published ids -/

namespace Phase

/-- The id that is published and not marked. -/
def unmarked : Phase → List U64
  | .republished block _ => [block.header.blockId]
  | .inscribed _ block => [block.header.blockId]
  | _ => []

/-- The ids that are published next when the channel is opened. -/
def due : Phase → List U64
  | .republishing pending => pending.map fun block => block.header.blockId
  | .republished _ pending => pending.map fun block => block.header.blockId
  | _ => []

/-- A turn is above the mark from the check on until the block is published. -/
def Above (mark : Option U64) (chain : ChainState) : Phase → Prop
  | .checked => AboveMark mark chain
  | .built block => ∀ high ∈ mark, high < block.header.blockId
  | _ => True

theorem due_republish (pending : List Block) :
    (republish pending).due = pending.map fun block => block.header.blockId := by
  cases pending with
  | nil | cons block pending => rfl

theorem above_republish (mark : Option U64) (chain : ChainState) (pending : List Block) :
    (republish pending).Above mark chain := by
  cases pending with
  | nil | cons block pending => exact trivial

end Phase

/-- The published ids are in order, with those that are due, and are marked up to the last. -/
structure Ordered (producer : Producer) : Prop where
  keyed : Keyed producer.core.store.blocks
  increasing : (producer.published ++ producer.phase.due).Pairwise (· < ·)
  marked : ∀ id ∈ producer.published, id ∈ producer.phase.unmarked ∨
    ∃ high ∈ producer.publishedHighWater, id ≤ high
  above : producer.phase.Above producer.publishedHighWater producer.core.chain

namespace Ordered

variable {producer : Producer}

section

variable (h : Ordered producer)

include h

theorem pairwise : producer.published.Pairwise (· < ·) :=
  (List.pairwise_append.mp h.increasing).1

/-- Everything is marked. -/
theorem all_marked (hphase : producer.phase.unmarked = []) :
    ∀ id ∈ producer.published, ∃ high ∈ producer.publishedHighWater, id ≤ high := by
  intro id hid
  rcases h.marked id hid with hlast | hhigh
  · rw [hphase] at hlast
    cases hlast
  · exact hhigh

variable {phase : Phase}

/-- The turn moves on without publishing. -/
theorem of_phase (hmarked : producer.phase.unmarked = []) {core : MirroredChain}
    (hkeyed : Keyed core.store.blocks) (hdue : phase.due = [])
    (habove : phase.Above producer.publishedHighWater core.chain) :
    Ordered { producer with core, phase } where
  keyed := hkeyed
  increasing := by
    show (producer.published ++ phase.due).Pairwise _
    rw [hdue, append_nil]
    exact h.pairwise
  marked id hid := .inr (h.all_marked hmarked id hid)
  above := habove

/-- A block is published that is above what is published so far. -/
theorem inscribe (hmarked : producer.phase.unmarked = []) {block : Block}
    (hunmarked : phase.unmarked = [block.header.blockId])
    (hincreasing : (producer.published ++ block.header.blockId :: phase.due).Pairwise (· < ·))
    (habove : phase.Above producer.publishedHighWater producer.core.chain) :
    Ordered (producer.inscribe block phase) where
  keyed := h.keyed
  increasing := by
    show ((producer.published ++ [block.header.blockId]) ++ phase.due).Pairwise _
    rw [append_assoc]
    exact hincreasing
  marked id hid := by
    show id ∈ phase.unmarked ∨ _
    rcases mem_append.mp hid with hold | hnew
    · exact .inr (h.all_marked hmarked id hold)
    · rw [hunmarked]
      exact .inl hnew
  above := habove

/-- The mark is raised to the block that was published. -/
theorem raiseTo {block : Block} (hunmarked : producer.phase.unmarked = [block.header.blockId])
    (hdue : phase.due = producer.phase.due)
    (habove : ∀ mark, phase.Above mark producer.core.chain) :
    Ordered (producer.raiseTo block phase) where
  keyed := h.keyed
  increasing := by
    show (producer.published ++ phase.due).Pairwise _
    rw [hdue]
    exact h.increasing
  marked id hid := by
    refine .inr ?_
    show ∃ high ∈ raisePublishedHighWater producer.publishedHighWater block.header.blockId,
      id ≤ high
    rcases h.marked id hid with hlast | ⟨high, hhigh, hle⟩
    · rw [hunmarked, mem_singleton] at hlast
      rw [hlast]
      exact exists_le_raise producer.publishedHighWater block.header.blockId
    · obtain ⟨high', hhigh', hle'⟩ := raise_mono hhigh block.header.blockId
      exact ⟨high', hhigh', hle.trans hle'⟩
  above := habove (raisePublishedHighWater producer.publishedHighWater block.header.blockId)

/-- The mark is seeded, and the blocks of the store are due if the channel is opened. -/
theorem seedMark (hphase : producer.phase = .starting) {bootstraps : Bool}
    (hfirst : bootstraps = true → producer.published = []) {producer' : Producer}
    (hseed : producer.seedMark bootstraps = some producer') : Ordered producer' := by
  have hmarked := h.all_marked (by rw [hphase]; rfl)
  set mark := (match producer.core.store.latestBlockMeta with
    | some tip => raisePublishedHighWater producer.publishedHighWater tip.blockId
    | none => producer.publishedHighWater) with hmark
  have hraised : ∀ id ∈ producer.published, ∃ high ∈ mark, id ≤ high := by
    intro id hid
    obtain ⟨high, hhigh, hle⟩ := hmarked id hid
    rw [hmark]
    split
    · rename_i tip _
      obtain ⟨high', hhigh', hle'⟩ := raise_mono hhigh tip.blockId
      exact ⟨high', hhigh', hle.trans hle'⟩
    · exact ⟨high, hhigh, hle⟩
  unfold Producer.seedMark at hseed
  dsimp only at hseed
  rw [← hmark] at hseed
  cases bootstraps with
  | false =>
    rw [if_pos rfl] at hseed
    cases hseed
    refine ⟨h.keyed, ?_, fun id hid => .inr (hraised id hid), trivial⟩
    show (producer.published ++ []).Pairwise _
    rw [append_nil]
    exact h.pairwise
  | true =>
    rw [if_neg (by simp)] at hseed
    split at hseed
    · cases hseed
      refine ⟨h.keyed, ?_, fun id hid => .inr (hraised id hid), Phase.above_republish _ _ _⟩
      show (producer.published ++ (Phase.republish _).due).Pairwise _
      rw [hfirst rfl, nil_append, Phase.due_republish]
      exact pairwise_pendingBlocks h.keyed
    · cases hseed

theorem checkTurn (hphase : producer.phase = .idle) {isOurTurn : Bool} {producer' : Producer}
    (hcheck : producer.checkTurn isOurTurn = some producer') :
    Ordered producer' := by
  unfold Producer.checkTurn at hcheck
  split at hcheck
  · rw [← some.inj hcheck]
    exact h
  · obtain ⟨rewound, hrewound, rfl⟩ := map_eq_some_iff.mp hcheck
    have hunmarked : producer.phase.unmarked = [] := by rw [hphase]; rfl
    cases rewound with
    | some high => exact h.of_phase hunmarked h.keyed rfl trivial
    | none => exact h.of_phase hunmarked h.keyed rfl (aboveMark_of_check hrewound)

end

end Ordered

section

variable [Sha256] [Schnorr] [Builtins] [Receipts] [ImageId] [ClockBuiltin] [Serde Timestamp]
variable [Ed25519] [StakeBuiltin] [VaultBuiltin] [TransactionBorsh]
variable [Serde SequencerStake.Instruction] [Serde Bridge.Instruction]
variable [Serde CrossZoneInbox.Instruction]
variable {exec : Executor} {initialState : V03State} {sign : HashType → Signature}
variable {producer producer' : Producer}

/-- The block has the height that was checked. -/
theorem Ordered.buildTurn (h : Ordered producer) (hphase : producer.phase = .checked)
    {inputs : BuildInputs} (hbuild : producer.buildTurn exec sign inputs = some producer') :
    Ordered producer' := by
  have hunmarked : producer.phase.unmarked = [] := by rw [hphase]; rfl
  have habove : AboveMark producer.publishedHighWater producer.core.chain := by
    have hphaseAbove := h.above
    rw [hphase] at hphaseAbove
    exact hphaseAbove
  unfold Producer.buildTurn at hbuild
  split at hbuild
  · rename_i houtcome
    cases hbuild
    obtain ⟨included, mid, hbuilt⟩ := buildBlockFromMempool_ok houtcome
    refine h.of_phase hunmarked h.keyed rfl fun high hhigh => ?_
    have hid := hbuilt.continues.blockId
    have hlt : high.val < height producer.core.chain.headTip + 1 := habove high hhigh
    rw [Fin.lt_def, hid]
    exact hlt
  · cases hbuild
    exact h.of_phase hunmarked h.keyed rfl trivial
  · cases hbuild

/-- **A careful step keeps the order.** -/
theorem Ordered.step (h : Ordered producer) {event : ProductionEvent}
    (hstep : producer.step exec initialState sign event = some producer')
    (hcareful : Careful exec producer event) : Ordered producer' := by
  unfold Producer.step at hstep
  split at hstep
  case h_1 update _ =>
    obtain ⟨core, hcore, rfl⟩ := map_eq_some_iff.mp hstep
    have hkeyed := keyed_of_applyFollowUpdate (toOption_eq_some.mp hcore) h.keyed
    refine ⟨hkeyed, h.increasing, h.marked, ?_⟩
    show producer.phase.Above producer.publishedHighWater core.chain
    have habove := h.above
    unfold Careful at hcareful
    cases hphase : producer.phase with
    | checked =>
      rw [hphase] at hcareful
      exact hcareful core hcore
    | built block =>
      rw [hphase] at habove
      exact habove
    | _ => exact trivial
  case h_2 =>
    obtain ⟨core, hcore, rfl⟩ := map_eq_some_iff.mp hstep
    obtain ⟨chain, -, hpure⟩ := bind_eq_ok.mp (toOption_eq_some.mp hcore)
    cases hpure
    have hunmarked : producer.phase.unmarked = [] := by
      unfold Careful at hcareful
      cases hphase : producer.phase with
      | republished block pending | inscribed thisMsg block =>
        rw [hphase] at hcareful
        exact absurd hcareful not_false
      | _ => rfl
    exact h.of_phase hunmarked h.keyed rfl trivial
  case h_3 block slot hphase =>
    obtain ⟨core, hcore, rfl⟩ := map_eq_some_iff.mp hstep
    have hkeyed := keyed_of_applyReconstructedBlock (toOption_eq_some.mp hcore) h.keyed
    refine ⟨hkeyed, h.increasing, h.marked, ?_⟩
    show producer.phase.Above producer.publishedHighWater core.chain
    rw [hphase]
    exact trivial
  case h_4 bootstraps hphase =>
    refine h.seedMark hphase (fun hboot => ?_) hstep
    rw [hboot] at hcareful
    exact hcareful
  case h_5 block pending hphase =>
    cases hstep
    refine h.inscribe (by rw [hphase]; rfl) rfl ?_ trivial
    have hincreasing := h.increasing
    rw [hphase] at hincreasing
    exact hincreasing
  case h_6 block pending hphase =>
    cases hstep
    refine h.raiseTo (by rw [hphase]; rfl) ?_ fun mark => Phase.above_republish _ _ _
    rw [Phase.due_republish, hphase]
    rfl
  case h_7 isOurTurn hphase => exact h.checkTurn hphase hstep
  case h_8 inputs hphase => exact h.buildTurn hphase hstep
  case h_9 thisMsg block hphase =>
    cases hstep
    have hunmarked : producer.phase.unmarked = [] := by rw [hphase]; rfl
    have habove := h.above
    rw [hphase] at habove
    refine h.inscribe hunmarked rfl ?_ trivial
    -- Everything published is marked, and the block is above the mark.
    refine List.pairwise_append.mpr ⟨h.pairwise, List.pairwise_singleton _ _, ?_⟩
    intro id hid last hlast
    obtain ⟨high, hhigh, hle⟩ := h.all_marked hunmarked id hid
    rw [mem_singleton.mp hlast]
    exact lt_of_le_of_lt hle (habove high hhigh)
  case h_10 block hphase =>
    cases hstep
    exact h.of_phase (by rw [hphase]; rfl) h.keyed rfl trivial
  case h_11 thisMsg block hphase =>
    cases hstep
    refine h.raiseTo (by rw [hphase]; rfl) ?_ fun mark => trivial
    rw [hphase]
    rfl
  case h_12 thisMsg block hphase =>
    obtain ⟨core, hcore, rfl⟩ := map_eq_some_iff.mp hstep
    exact h.of_phase (by rw [hphase]; rfl)
      (keyed_of_recordProducedBlock (toOption_eq_some.mp hcore) h.keyed) rfl trivial
  case h_13 => cases hstep

/-- What happens to a sequencer, step by step. -/
def Produces (exec : Executor) (initialState : V03State) (sign : HashType → Signature)
    (event : ProductionEvent) (producer producer' : Producer) : Prop :=
  producer.step exec initialState sign event = some producer'

/-- What happens to a careful sequencer. -/
def ProducesCarefully (exec : Executor) (initialState : V03State) (sign : HashType → Signature)
    (event : ProductionEvent) (producer producer' : Producer) : Prop :=
  Produces exec initialState sign event producer producer' ∧ Careful exec producer event

/-- A sequencer that starts with a store, and has published nothing. -/
def Producer.fresh (core : MirroredChain) (publishedHighWater : Option U64) : Producer where
  core := core
  publishedHighWater := publishedHighWater
  phase := .starting
  published := []

/-- **No height is published twice.**  From the first start on, if no delta of the channel takes
the next height below the mark between the check of a turn and its build, if the sequencer does
not stop between publishing a block and raising the mark, and if it opens the channel only
before it has published anything, the ids of the blocks that it publishes increase. -/
theorem published_ids_increase {core : MirroredChain} {publishedHighWater : Option U64}
    (hkeyed : Keyed core.store.blocks) {events : List ProductionEvent}
    {producer : Producer}
    (hrun : Run (ProducesCarefully exec initialState sign) (.fresh core publishedHighWater) events
      producer) :
    producer.published.Pairwise (· < ·) := by
  have hfresh : Ordered (.fresh core publishedHighWater) :=
    ⟨hkeyed, .nil, fun id hid => absurd hid (by simp [Producer.fresh]), trivial⟩
  have hend : Ordered producer := by
    refine hrun.invariant (fun event _ before after hstep hbefore => ?_) hfresh
    exact hbefore.step hstep.1 hstep.2
  exact hend.pairwise

/-- Take a step if it is careful. -/
def Producer.stepCarefully (exec : Executor) (initialState : V03State)
    (sign : HashType → Signature) (producer : Producer) (event : ProductionEvent) :
    Option Producer :=
  if Careful exec producer event then producer.step exec initialState sign event else none

end

/-! ### Two blocks at one height -/

namespace Turns

open Idle Fork Unasked

/-- The digests of the blocks, and the account of a stake program that is not deployed. -/
scoped instance : Sha256 := .ofTable
  (([root, left, right, rightmost].map fun block =>
      (block.hashableData.hashBytes, block.header.hash)) ++
    [ (publicPdaBytes (.ofWord 6) SequencerStake.sequencerStakeConfigSeed,
        ofHex 0x928c3ef7f5f2c3d139261aaa2affbcac343ea1752b4b2be2fadb0c4476add0fd) ])

/-- Nothing but the time. -/
def inputs (timestamp : Timestamp) : BuildInputs where
  pendingDepositEvents := []
  pendingCrossZoneDispatches := []
  mempool := []
  sequencerConfig := ⟨1000, 10⟩
  timestamp := timestamp
  liveAccreditedKeys := none

/-- A sequencer with a new store. -/
def start : Option Producer := do
  let store ← (createStore exec state [] Rooted.sign).toOption
  let core ← (MirroredChain.start exec state store).toOption
  pure (.fresh core none)

theorem fresh_of_start {producer : Producer} (h : start = some producer) :
    ∃ core, producer = .fresh core none ∧ Keyed core.store.blocks := by
  rw [start] at h
  obtain ⟨store, hstore, h⟩ := bind_eq_some_iff.mp h
  obtain ⟨core, hcore, h⟩ := bind_eq_some_iff.mp h
  refine ⟨core, (some.inj h).symm, ?_⟩
  obtain ⟨chain, -, hpure⟩ := bind_eq_ok.mp (toOption_eq_some.mp hcore)
  cases hpure
  obtain ⟨genesis, genesisState, rfl, -, -⟩ := createStore_ok (toOption_eq_some.mp hstore)
  exact Keyed.insert (fun id block hget => absurd hget (by simp)) genesis

/-- The channel is opened with the genesis block. -/
def opening : List ProductionEvent := [.seed true, .publish (msg 1), .raise]

/-- The second block is orphaned between the check of a turn and its build. -/
def rewound : List ProductionEvent :=
  opening ++
    [ .check true, .build (inputs 20), .publish (msg 2), .raise, .record,
      .check true, .follow ⟨[], [(msg 2, left)], []⟩, .build (inputs 25),
      .publish (msg 3) ]

/-- The sequencer stops after it published the second block. -/
def stopped : List ProductionEvent :=
  opening ++
    [ .check true, .build (inputs 20), .publish (msg 2), .restart, .seed false,
      .check true, .build (inputs 25), .publish (msg 3) ]

/-- The second block is orphaned and another one adopted; a turn in between is skipped. -/
def waited : List ProductionEvent :=
  opening ++
    [ .check true, .build (inputs 20), .publish (msg 2), .raise, .record,
      .follow ⟨[], [(msg 2, left)], []⟩, .check true,
      .follow ⟨[(msg 3, right)], [], []⟩, .restart, .seed false,
      .check true, .build (inputs 30), .publish (msg 4), .raise, .record ]

end Turns

section

open Idle Fork Unasked
open Turns

/-- **Two blocks at one height.**  A sequencer publishes a second block at height 2 after a delta
took the head back between the check and the build, and after a stop between publishing and
raising the mark. -/
theorem published_twice :
    ∃ start rewound stopped, Turns.start = some start ∧
      Run (Produces exec state Rooted.sign) start Turns.rewound rewound ∧
      rewound.published = [1, 2, 2] ∧ rewound.publishedHighWater = some 2 ∧
      Run (Produces exec state Rooted.sign) start Turns.stopped stopped ∧
      stopped.published = [1, 2, 2] ∧ stopped.publishedHighWater = some 1 := by
  obtain ⟨start, hstart, ⟨rewound, hrewound, hids, hmark⟩, stopped, hstopped, hends⟩ :
      ∃ start, Turns.start = some start ∧
        (∃ rewound, Turns.rewound.foldlM (Producer.step exec state Rooted.sign) start
          = some rewound ∧ rewound.published = [1, 2, 2] ∧ rewound.publishedHighWater = some 2) ∧
        ∃ stopped, Turns.stopped.foldlM (Producer.step exec state Rooted.sign) start
          = some stopped ∧ stopped.published = [1, 2, 2] ∧ stopped.publishedHighWater = some 1 := by
    decide +kernel
  exact ⟨start, rewound, stopped, hstart, Run.of_foldlM (fun _ _ _ hstep => hstep) hrewound, hids,
    hmark, Run.of_foldlM (fun _ _ _ hstep => hstep) hstopped, hends⟩

/-- A sequencer that skips the turn goes on with the third block. -/
theorem published_in_order :
    ∃ start producer, Turns.start = some start ∧
      Run (ProducesCarefully exec state Rooted.sign) start waited producer ∧
      producer.published = [1, 2, 3] ∧ producer.published.Pairwise (· < ·) := by
  obtain ⟨start, hstart, producer, hproducer, hids⟩ : ∃ start, Turns.start = some start ∧
      ∃ producer, waited.foldlM (Producer.stepCarefully exec state Rooted.sign)
        start = some producer ∧ producer.published = [1, 2, 3] := by
    decide +kernel
  have hrun := Run.of_foldlM (fun _ _ _ h => (ite_none_right_eq_some.mp h).symm) hproducer
  obtain ⟨core, rfl, hkeyed⟩ := fresh_of_start hstart
  exact ⟨_, producer, hstart, hrun, hids, published_ids_increase hkeyed hrun⟩

end

end Lssa
