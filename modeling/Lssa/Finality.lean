/-
The final tier of a node.

Only finalized events move the final tier, and they only append to it.  A finalized block is
looked for in the head by its message and hash, then its parent is looked for there by hash
alone, and everything up to what was found becomes final.  The second search comes before
any check of the block: a block at or below the final tip that names a block of the head as
its parent makes that block final, and nothing else at or below the final tip moves it.

* `final_tier_append_only_iff` — the final tier is the replay of a list that only grows, and
  when a finalized event at or below the final tip leaves it alone;
* `rejected_block_moves_nothing_iff` — when a finalized block that is not applied leaves the
  chain alone;
* `final_tiers_agree` — nodes that hear of the same valid chain of finalized blocks have the
  same final tier, whatever happens to their heads.
-/
import Lssa.ChainState

open Outcome TwoTier Runs

namespace Lssa

open ChainState

section

variable [Sha256] [Schnorr] [Builtins] [Receipts] [ImageId] [ClockBuiltin] [Serde Timestamp]
  {exec : Executor} {origin : Position} {chain chain' : ChainState}

/-! ### What moves the final tier -/

theorem HeadMove.final_eq {entries : List HeadEntry} (h : HeadMove exec entries chain chain') :
    chain'.finalPosition = chain.finalPosition ∧ chain'.finalBlocks = chain.finalBlocks := by
  cases h with
  | cut _ | grow _ _ _ => exact ⟨rfl, rfl⟩

theorem HeadMove.final_eq_of_moves {entries : List HeadEntry}
    (h : Relation.ReflTransGen (HeadMove exec entries) chain chain') :
    chain'.finalPosition = chain.finalPosition ∧ chain'.finalBlocks = chain.finalBlocks := by
  induction h with
  | refl => exact ⟨rfl, rfl⟩
  | tail _ hmove ih =>
    obtain ⟨hposition, hblocks⟩ := hmove.final_eq
    exact ⟨hposition.trans ih.1, hblocks.trans ih.2⟩

theorem FinalMove.final_prefix (h : FinalMove exec chain chain') :
    chain.finalBlocks <+: chain'.finalBlocks := by
  cases h with
  | settle _ | rebase _ => exact prefix_append _ _
  | stall _ => exact List.prefix_rfl

/-- The blocks that an event brings as finalized. -/
def ChainEvent.finalBlocks : ChainEvent → List Block
  | .finalized _ block _ => [block]
  | _ => []

/-- An event that brings no finalized block leaves the final tier alone. -/
theorem Moves.final_eq {event : ChainEvent} (h : Moves exec event chain chain')
    (hevent : event.finalBlocks = []) :
    chain'.finalPosition = chain.finalPosition ∧ chain'.finalBlocks = chain.finalBlocks := by
  rcases h.cases with hhead | ⟨⟨thisMsg, block, l1Slot, rfl⟩, -⟩
  · exact HeadMove.final_eq_of_moves hhead
  · exact absurd hevent (by simp [ChainEvent.finalBlocks])

theorem Moves.final_prefix {event : ChainEvent} (h : Moves exec event chain chain') :
    chain.finalBlocks <+: chain'.finalBlocks := by
  rcases h.cases with hhead | ⟨-, hfinal⟩
  · rw [(HeadMove.final_eq_of_moves hhead).2]
  · clear h
    induction hfinal with
    | refl => exact List.prefix_rfl
    | tail _ hmove ih => exact ih.trans hmove.final_prefix

/-! ### Positions in the head -/

theorem Consistent.linked (h : Consistent exec origin chain) :
    Linked chain.finalTip chain.blocks :=
  linked_of_replay h.head_replay

/-- The ids of the head go on from the final tip. -/
theorem Consistent.blockId_getElem? (h : Consistent exec origin chain) {i : ℕ} {entry : HeadEntry}
    (hi : chain.headBlocks[i]? = some entry) :
    entry.block.header.blockId.val = height chain.finalTip + 1 + i := by
  refine h.linked.blockId_getElem? ?_
  rw [blocks, getElem?_map, hi]
  rfl

omit [Sha256] [Schnorr] [Builtins] [Receipts] [ImageId] [ClockBuiltin] [Serde Timestamp] in
/-- What a search in the head finds. -/
theorem exists_of_findIdx? {p : HeadEntry → Bool} {idx : ℕ}
    (h : chain.headBlocks.findIdx? p = some idx) :
    ∃ entry, chain.headBlocks[idx]? = some entry ∧ p entry = true := by
  obtain ⟨hlt, hp, -⟩ := List.findIdx?_eq_some_iff_getElem.mp h
  exact ⟨_, getElem?_eq_getElem hlt, hp⟩

variable {thisMsg : MsgId} {block : Block} {outcome : AcceptOutcome} {l1Slot : Slot}

/-! ### Finalized blocks -/

/-- The block names no block of the head as its parent. -/
def ChainState.Detached (chain : ChainState) (block : Block) : Prop :=
  ∀ entry ∈ chain.headBlocks, entry.block.header.hash ≠ block.header.prevBlockHash

/-- The head is final up to the entry. -/
structure SettledAt (entry : HeadEntry) (chain chain' : ChainState) : Prop where
  head : ∃ idx, chain.headBlocks[idx]? = some entry ∧
    chain'.headBlocks = chain.headBlocks.drop (idx + 1)
  tip : chain'.finalTip = some (Tip.ofBlock entry.block)

theorem Consistent.finalizeThrough_settled (h : Consistent exec origin chain) {idx : ℕ}
    {entry : HeadEntry} (hentry : chain.headBlocks[idx]? = some entry) :
    ∃ settled, chain.finalizeThrough exec idx = .ok settled ∧ SettledAt entry chain settled := by
  obtain ⟨mid, hmid, hfinalize⟩ := h.finalizeThrough_eq idx
  refine ⟨_, hfinalize, ⟨idx, hentry, rfl⟩, ?_⟩
  show mid.1 = _
  rw [tip_of_replay hmid, List.take_add_one, blocks, getElem?_map, hentry,
    map_some, Option.toList_some, List.getLast?_append]
  rfl

/-- What a finalized block does: it is found in the head, or its parent is found there, or
neither is. -/
theorem Consistent.applyFinalized_cases (h : Consistent exec origin chain)
    (heq : chain.applyFinalized exec thisMsg block l1Slot = .ok (outcome, chain')) :
    (∃ entry, entry.block.header.blockId = block.header.blockId ∧ SettledAt entry chain chain' ∧
        outcome = .applied) ∨
      (∃ entry settled, ¬chain.Detached block ∧ SettledAt entry chain settled ∧
        settled.applyFinalizedDirect exec block l1Slot = .ok (outcome, chain')) ∨
      chain.Detached block ∧
        chain.applyFinalizedDirect exec block l1Slot = .ok (outcome, chain') := by
  unfold applyFinalized at heq
  split at heq
  · rename_i hposition
    obtain ⟨entry, hentry, hp⟩ := exists_of_findIdx? hposition
    obtain ⟨settled, hfinalize, hsettled⟩ := h.finalizeThrough_settled hentry
    rw [hfinalize] at heq
    cases heq
    exact .inl ⟨entry, (of_decide_eq_true hp).1, hsettled, rfl⟩
  dsimp only at heq
  split at heq
  · rename_i hparent
    obtain ⟨entry, hentry, hhash⟩ := exists_of_findIdx? hparent
    obtain ⟨settled, hfinalize, hsettled⟩ := h.finalizeThrough_settled hentry
    rw [hfinalize] at heq
    exact .inr (.inl ⟨entry, settled,
      fun hdetached => hdetached entry (mem_of_getElem? hentry) (of_decide_eq_true hhash),
      hsettled, heq⟩)
  · rename_i hparent
    exact .inr (.inr ⟨fun entry hmem =>
      of_decide_eq_false (List.findIdx?_eq_none_iff.mp hparent entry hmem), heq⟩)

theorem FinalMove.height_le (h : FinalMove exec chain chain') :
    height chain.finalTip ≤ height chain'.finalTip := by
  cases h with
  | settle hmid =>
    have hheight := height_of_replay hmid
    exact hheight ▸ Nat.le_add_right _ _
  | rebase happly =>
    rename_i block finalState
    have hid := (applyBlock_ok happly).blockId
    show _ ≤ block.header.blockId.val
    omega
  | stall _ => exact le_rfl

/-- What a finalized block does, as far as an observer of the final tier can tell. -/
structure Finalizes (exec : Executor) (block : Block) (chain : ChainState)
    (outcome : AcceptOutcome) (chain' : ChainState) : Prop where
  moves : Relation.ReflTransGen (FinalMove exec) chain chain'
  tip : chain'.finalTip = chain.finalTip ∨
    ∃ tip, (tip = block ∨ tip ∈ chain.blocks) ∧ chain'.finalTip = some (Tip.ofBlock tip)
  settled : outcome = .applied ∨ outcome = .alreadyApplied →
    ∃ finalTip, chain'.finalTip = some finalTip ∧ block.header.blockId ≤ finalTip.blockId

theorem Finalizes.height_le (h : Finalizes exec block chain outcome chain') :
    height chain.finalTip ≤ height chain'.finalTip := by
  have hmoves := h.moves
  clear h
  induction hmoves with
  | refl => exact le_rfl
  | tail _ hmove ih => exact ih.trans hmove.height_le

theorem applyFinalizedDirect_finalizes
    (heq : chain.applyFinalizedDirect exec block l1Slot = .ok (outcome, chain')) :
    Finalizes exec block chain outcome chain' := by
  have hmoves : Relation.ReflTransGen (FinalMove exec) chain chain' :=
    (Consistent.applyFinalizedDirect_moves block l1Slot).of_eq_ok heq
  unfold applyFinalizedDirect at heq
  split at heq
  · rename_i hbelow
    cases heq
    obtain ⟨tip, htip, hle⟩ := hbelow
    refine ⟨hmoves, .inl rfl, fun _ => ⟨tip, htip, ?_⟩⟩
    rcases hle with hlt | ⟨heq, -⟩
    · exact hlt.le
    · exact heq.le
  split at heq
  · cases heq
    exact ⟨hmoves, .inr ⟨block, .inl rfl, rfl⟩, fun _ => ⟨_, rfl, le_rfl⟩⟩
  · cases heq
    exact ⟨hmoves, .inl rfl, by simp⟩
  · cases heq

theorem Consistent.applyFinalized_finalizes (h : Consistent exec origin chain)
    (heq : chain.applyFinalized exec thisMsg block l1Slot = .ok (outcome, chain')) :
    Finalizes exec block chain outcome chain' := by
  have hmoves := (h.applyFinalized_moves thisMsg block l1Slot).of_eq_ok heq
  rcases h.applyFinalized_cases heq with ⟨entry, hid, hsettled, -⟩ |
    ⟨entry, settled, -, hsettled, hdirect⟩ | ⟨-, hdirect⟩
  · obtain ⟨idx, hentry, -⟩ := hsettled.head
    have hmem : entry.block ∈ chain.blocks := mem_map_of_mem (mem_of_getElem? hentry)
    exact ⟨hmoves, .inr ⟨entry.block, .inr hmem, hsettled.tip⟩,
      fun _ => ⟨_, hsettled.tip, hid.ge⟩⟩
  · have hfinalizes := applyFinalizedDirect_finalizes hdirect
    obtain ⟨idx, hentry, hhead⟩ := hsettled.head
    refine ⟨hmoves, ?_, hfinalizes.settled⟩
    rcases hfinalizes.tip with hsame | ⟨tip, htips, hnew⟩
    · exact .inr ⟨entry.block, .inr (mem_map_of_mem (mem_of_getElem? hentry)),
        hsame.trans hsettled.tip⟩
    · refine .inr ⟨tip, htips.imp_right fun hrest => ?_, hnew⟩
      rw [blocks, hhead] at hrest
      obtain ⟨later, hlater, rfl⟩ := mem_map.mp hrest
      exact mem_map_of_mem (List.mem_of_mem_drop hlater)
  · exact applyFinalizedDirect_finalizes hdirect

/-! ### Rejected blocks -/

/-- Nothing but the recorded stall changes, and a block that was applied already can only
clear it. -/
def Unmoved (chain : ChainState) (outcome : AcceptOutcome) (chain' : ChainState) : Prop :=
  chain' = { chain with finalStall := chain'.finalStall } ∧
    (outcome = .alreadyApplied → chain'.finalStall = chain.finalStall ∨ chain'.finalStall = none)

omit [Sha256] [Schnorr] [Builtins] [Receipts] [ImageId] [ClockBuiltin] [Serde Timestamp] in
theorem Unmoved.headBlocks (h : Unmoved chain outcome chain') :
    chain'.headBlocks = chain.headBlocks := by
  rw [h.1]

theorem applyFinalizedDirect_rejected (hrejected : outcome ≠ .applied)
    (heq : chain.applyFinalizedDirect exec block l1Slot = .ok (outcome, chain')) :
    Unmoved chain outcome chain' := by
  unfold applyFinalizedDirect at heq
  split at heq
  · cases heq
    exact ⟨rfl, fun _ => .inl rfl⟩
  split at heq
  · cases heq
    exact absurd rfl hrejected
  · cases heq
    exact ⟨rfl, by simp⟩
  · cases heq

theorem Consistent.applyFinalized_rejected (h : Consistent exec origin chain)
    (hrejected : outcome ≠ .applied)
    (heq : chain.applyFinalized exec thisMsg block l1Slot = .ok (outcome, chain')) :
    Unmoved chain outcome chain' ↔ chain.Detached block := by
  rcases h.applyFinalized_cases heq with ⟨-, -, -, happlied⟩ |
    ⟨entry, settled, hnot, hsettled, hdirect⟩ | ⟨hdetached, hdirect⟩
  · exact absurd happlied hrejected
  · -- the head up to the parent is final, whatever becomes of the block
    refine iff_of_false (fun hunmoved => ?_) hnot
    obtain ⟨idx, hentry, hhead⟩ := hsettled.head
    rw [← (applyFinalizedDirect_rejected hrejected hdirect).headBlocks,
      hunmoved.headBlocks] at hhead
    have hlength := congrArg List.length hhead
    have hlt : idx < chain.headBlocks.length := (getElem?_eq_some_iff.mp hentry).1
    rw [List.length_drop] at hlength
    omega
  · exact iff_of_true (applyFinalizedDirect_rejected hrejected hdirect) hdetached

/-! ### Blocks at or below the final tip -/

/-- A block at or below the final tip is never applied to the final tier directly. -/
theorem applyFinalizedDirect_below (hle : block.header.blockId.val ≤ height chain.finalTip)
    (heq : chain.applyFinalizedDirect exec block l1Slot = .ok (outcome, chain')) :
    chain'.finalPosition = chain.finalPosition := by
  unfold applyFinalizedDirect at heq
  split at heq
  · rw [← (Prod.mk.inj (ok.inj heq)).2]
  split at heq
  · rename_i happly
    have hid := (applyBlock_ok happly).blockId
    omega
  · rw [← (Prod.mk.inj (ok.inj heq)).2]
    rfl
  · cases heq

/-- A finalized block at or below the final tip moves the final tier iff it names a block of
the head as its parent. -/
theorem Consistent.applyFinalized_below (h : Consistent exec origin chain)
    (hle : block.header.blockId.val ≤ height chain.finalTip)
    (heq : chain.applyFinalized exec thisMsg block l1Slot = .ok (outcome, chain')) :
    chain'.finalPosition = chain.finalPosition ↔ chain.Detached block := by
  have hpast : ∀ entry settled, SettledAt entry chain settled →
      height chain.finalTip < entry.block.header.blockId.val := by
    intro entry settled hsettled
    obtain ⟨idx, hentry, -⟩ := hsettled.head
    have hid := h.blockId_getElem? hentry
    omega
  rcases h.applyFinalized_cases heq with ⟨entry, hid, hsettled, -⟩ |
    ⟨entry, settled, hnot, hsettled, hdirect⟩ | ⟨hdetached, hdirect⟩
  · have hlt := hpast entry chain' hsettled
    rw [hid] at hlt
    omega
  · -- the final tier goes up to the parent, past the block
    have hlt := hpast entry settled hsettled
    have hheight : height settled.finalTip = entry.block.header.blockId.val := by
      rw [hsettled.tip]
      rfl
    have hend := applyFinalizedDirect_below (by omega) hdirect
    refine iff_of_false (fun hsame => ?_) hnot
    have htip : settled.finalTip = chain.finalTip := congrArg Prod.fst (hend.symm.trans hsame)
    rw [htip] at hheight
    omega
  · exact iff_of_true (applyFinalizedDirect_below hle hdirect) hdetached

/-- What was applied to the final tier stays, in its place. -/
theorem Consistent.final_prefix (h : Consistent exec origin chain)
    {history : List (ChainEvent × List AcceptOutcome)}
    (hrun : Run (Handles exec) chain history chain') :
    chain.finalBlocks <+: chain'.finalBlocks := by
  have hboth : Consistent exec origin chain' ∧ chain.finalBlocks <+: chain'.finalBlocks := by
    refine hrun.invariant
      (P := fun reached => Consistent exec origin reached ∧
        chain.finalBlocks <+: reached.finalBlocks) ?_ ⟨h, List.prefix_rfl⟩
    rintro step _ before after hhandles ⟨hbefore, hprefix⟩
    have hmoves := hhandles.moves hbefore
    exact ⟨hbefore.moves hmoves, hprefix.trans hmoves.final_prefix⟩
  exact hboth.2

/-- **The final tier only grows.**  Let events bring a chain into whatever state.  The final
tier is then the replay of the blocks applied to it so far, which are linked with
consecutive ids from where the chain started and end with the final tip, and later events
only append to these blocks.  An event that is not a finalized event leaves the final tier
alone, and one that finalizes a block at or below the final tip leaves it alone iff the
block names no block of the head as its parent. -/
theorem final_tier_append_only_iff {state : V03State} {tip : Option Tip}
    {history : List (ChainEvent × List AcceptOutcome)}
    (hrun : Run (Handles exec) (.fromFinal state tip) history chain) :
    replay (advance exec) (tip, state) chain.finalBlocks
        = some (chain.finalTip, chain.finalState) ∧
      Linked tip chain.finalBlocks ∧
      chain.finalTip = (chain.finalBlocks.getLast?.map Tip.ofBlock).or tip ∧
      (∀ later chain', Run (Handles exec) chain later chain' →
        chain.finalBlocks <+: chain'.finalBlocks) ∧
      ∀ event outcomes chain', Handles exec (event, outcomes) chain chain' →
        (event.finalBlocks = [] →
          chain'.finalState = chain.finalState ∧ chain'.finalTip = chain.finalTip) ∧
        ∀ thisMsg block l1Slot, event = .finalized thisMsg block l1Slot →
          block.header.blockId.val ≤ height chain.finalTip →
          (chain'.finalState = chain.finalState ∧ chain'.finalTip = chain.finalTip ↔
            chain.Detached block) := by
  have hchain : Consistent exec (tip, state) chain := (Consistent.fromFinal state tip).run hrun
  refine ⟨hchain.final_replay, linked_of_replay hchain.final_replay,
    tip_of_replay hchain.final_replay, fun _ _ hlater => hchain.final_prefix hlater, ?_⟩
  intro event outcomes chain' hhandles
  have hposition : chain'.finalState = chain.finalState ∧ chain'.finalTip = chain.finalTip ↔
      chain'.finalPosition = chain.finalPosition := by
    rw [finalPosition, finalPosition, Prod.mk.injEq, and_comm]
  refine ⟨fun hevent => hposition.mpr ((hhandles.moves hchain).final_eq hevent).1, ?_⟩
  rintro thisMsg block l1Slot rfl hle
  obtain ⟨⟨outcome, reached⟩, happly, hreached⟩ := bind_eq_ok.mp hhandles
  obtain rfl : reached = chain' := congrArg Prod.snd (ok.inj hreached)
  exact hposition.trans (hchain.applyFinalized_below hle happly)

/-- **A rejected block moves nothing**, whatever events led to the chain, iff it names no
block of the head as its parent: parking it only records the stall, and one that was applied
already can only clear it. -/
theorem rejected_block_moves_nothing_iff {state : V03State} {tip : Option Tip}
    {history : List (ChainEvent × List AcceptOutcome)}
    (hrun : Run (Handles exec) (.fromFinal state tip) history chain)
    (hhandles : Handles exec (.finalized thisMsg block l1Slot, [outcome]) chain chain')
    (hrejected : outcome ≠ .applied) : Unmoved chain outcome chain' ↔ chain.Detached block := by
  obtain ⟨⟨found, reached⟩, happly, hreached⟩ := bind_eq_ok.mp hhandles
  cases hreached
  exact ((Consistent.fromFinal state tip).run hrun).applyFinalized_rejected hrejected happly

end

namespace Fork

/-- A block below the final tip that names the second block as its parent; nobody has
checked its hash. -/
def forged : Block := block 1 second.header.hash 10 1

/-- A block on the second block that does not have the hash of its contents. -/
def tampered : Block := block 3 second.header.hash 30 1

/-- The genesis block is final and the second block adopted. -/
def settled : List (ChainEvent × List AcceptOutcome) :=
  [(.finalized (msg 1) genesis 7, [.applied]), (.adopted (msg 2) second, [.applied])]

/-- The genesis block and the rival are final and the third block adopted. -/
def finished : List (ChainEvent × List AcceptOutcome) :=
  [ (.finalized (msg 1) genesis 7, [.applied]),
    (.finalized (msg 3) rival 8, [.applied]),
    (.adopted (msg 4) third, [.applied]) ]

end Fork

section

open Idle Fork

/-- To run a history and one more event is to evaluate them. -/
theorem exists_handles (start : ChainState) (history : List (ChainEvent × List AcceptOutcome))
    (step : ChainEvent × List AcceptOutcome) (P : ChainState → ChainState → Prop)
    (h : ∃ chain, history.foldlM (ChainState.follow exec) start = some chain ∧
      ∃ chain', chain.follow exec step = some chain' ∧ P chain chain') :
    ∃ chain chain', Run (Handles exec) start history chain ∧ Handles exec step chain chain' ∧
      P chain chain' := by
  obtain ⟨chain, hchain, chain', hchain', hP⟩ := h
  exact ⟨chain, chain', Run.of_foldlM (fun _ _ _ => handles_of_follow) hchain,
    handles_of_follow hchain', hP⟩

/-- A finalized event with a forged block at the height of the genesis block makes the
second block final. -/
theorem forged_block_moves_final_tip :
    ∃ chain chain', Run (Handles exec) (.new state) settled chain ∧
      chain.finalTip = some (.ofBlock genesis) ∧
      forged.header.blockId = genesis.header.blockId ∧
      forged.header.hash ≠ genesis.header.hash ∧
      Handles exec (.finalized (msg 5) forged 8, [.alreadyApplied]) chain chain' ∧
      chain'.finalTip = some (.ofBlock second) := by
  obtain ⟨chain, chain', hrun, hhandles, htip, htip'⟩ := exists_handles (.new state)
    settled (.finalized (msg 5) forged 8, [.alreadyApplied])
    (fun chain chain' => chain.finalTip = some (.ofBlock genesis) ∧
      chain'.finalTip = some (.ofBlock second)) (by decide +kernel)
  exact ⟨chain, chain', hrun, htip, rfl, by decide, hhandles, htip'⟩

/-- The second block conflicts with the final rival, names no block of the head as its
parent, and is parked. -/
theorem conflicting_block_parked :
    ∃ chain chain', Run (Handles exec) (.fromFinal state none) finished chain ∧
      Handles exec (.finalized (msg 2) second 9, [.parked (.unexpectedBlockId 3 2)]) chain chain' ∧
      chain.finalTip = some (.ofBlock rival) ∧ chain.headBlocks = [⟨msg 4, third⟩] ∧
      chain'.finalState = chain.finalState ∧ chain'.finalTip = chain.finalTip := by
  obtain ⟨chain, chain', hrun, hhandles, htip, hhead⟩ := exists_handles
    (.fromFinal state none) finished (.finalized (msg 2) second 9,
      [.parked (.unexpectedBlockId 3 2)]) (fun chain _ => chain.finalTip = some (.ofBlock rival) ∧
        chain.headBlocks = [⟨msg 4, third⟩]) (by decide +kernel)
  obtain ⟨-, -, -, -, hevent⟩ := final_tier_append_only_iff hrun
  have hkept := (hevent _ _ chain' hhandles).2 _ _ _ rfl (by rw [htip]; decide)
  refine ⟨chain, chain', hrun, hhandles, htip, hhead, hkept.mpr ?_⟩
  rw [ChainState.Detached, hhead]
  decide

/-- A finalized event with a tampered block parks it, and makes the second block final. -/
theorem tampered_block_moves_chain :
    ∃ chain chain', Run (Handles exec) (.new state) settled chain ∧
      Handles exec (.finalized (msg 5) tampered 8, [.parked
        (.hashMismatch tampered.recomputeHash tampered.header.hash)]) chain chain' ∧
      chain'.finalTip ≠ chain.finalTip ∧ chain'.headBlocks ≠ chain.headBlocks :=
  exists_handles _ _ _ _ (by decide +kernel)

/-- The third block is parked, as its parent is the rival. -/
theorem third_block_moves_nothing :
    ∃ chain chain', Run (Handles exec) (.new state) settled chain ∧
      Handles exec (.finalized (msg 4) third 8, [.parked (.unexpectedBlockId 2 3)]) chain chain' ∧
      chain.headBlocks = [⟨msg 2, second⟩] ∧
      Unmoved chain (.parked (.unexpectedBlockId 2 3)) chain' := by
  obtain ⟨chain, chain', hrun, hhandles, hhead⟩ := exists_handles (.new state)
    settled (.finalized (msg 4) third 8, [.parked (.unexpectedBlockId 2 3)])
    (fun chain _ => chain.headBlocks = [⟨msg 2, second⟩]) (by decide +kernel)
  refine ⟨chain, chain', hrun, hhandles, hhead,
    (rejected_block_moves_nothing_iff hrun hhandles (by simp)).mpr ?_⟩
  rw [ChainState.Detached, hhead]
  decide

end

/-! ### Agreement -/

/-- The messages of an event, with their blocks. -/
def ChainEvent.messages : ChainEvent → List HeadEntry
  | .finalized thisMsg block _ => [⟨thisMsg, block⟩]
  | event => event.entries

theorem ChainEvent.entries_subset (event : ChainEvent) : event.entries ⊆ event.messages := by
  cases event with
  | finalized thisMsg block l1Slot => exact nil_subset _
  | _ => exact List.Subset.refl _

/-- The head holds the parent that the block names, but not the block. -/
def ChainState.ConflictsWith (chain : ChainState) (block : Block) : Prop :=
  (∃ entry ∈ chain.headBlocks, entry.block.header.hash = block.header.prevBlockHash) ∧
    ∀ entry ∈ chain.headBlocks, entry.block.header.hash ≠ block.header.hash

section

variable [Sha256] [Schnorr] [Builtins] [Receipts] [ImageId] [ClockBuiltin] [Serde Timestamp]
  {exec : Executor} {origin : Position} {chain chain' : ChainState}

/-- An event is handled, and no head block conflicts with a block that it finalizes. -/
def HandlesQuietly (exec : Executor) (step : ChainEvent × List AcceptOutcome)
    (chain chain' : ChainState) : Prop :=
  Handles exec step chain chain' ∧ ∀ block ∈ step.1.finalBlocks, ¬chain.ConflictsWith block

/-- A node handles a history whose finalized blocks are `final`, in order.  Message ids
identify blocks, hashes of blocks do not collide, and no head block conflicts with a
finalized one; the rest of the history is arbitrary. -/
structure HearsOf (exec : Executor) (final : List Block) (start : ChainState)
    (history : List (ChainEvent × List AcceptOutcome)) (chain : ChainState) : Prop where
  run : Run (HandlesQuietly exec) start history chain
  finalized : history.flatMap (fun step => step.1.finalBlocks) = final
  messages : ∀ a ∈ history.flatMap (fun step => step.1.messages),
    ∀ b ∈ history.flatMap (fun step => step.1.messages), a.thisMsg = b.thisMsg → a.block = b.block
  hashes : ∀ a ∈ history.flatMap (fun step => step.1.messages),
    ∀ b ∈ history.flatMap (fun step => step.1.messages),
      a.block.recomputeHash = b.block.recomputeHash → a.block.hashableData = b.block.hashableData

/-- **The next final block.**  A finalized block that applies on the final tier is applied
to it, from the head or directly, and nothing else is. -/
theorem Consistent.applyFinalized_next (h : Consistent exec origin chain) (thisMsg : MsgId)
    {block : Block} (l1Slot : Slot) {position : Position}
    (hadvance : advance exec chain.finalPosition block = some position)
    (hmessage : ∀ entry ∈ chain.headBlocks, entry.thisMsg = thisMsg → entry.block = block)
    (hhash : ∀ entry ∈ chain.headBlocks, entry.block.header.hash = block.header.hash →
      entry.block.hashableData = block.hashableData)
    (hquiet : ¬chain.ConflictsWith block) :
    ∃ chain', chain.applyFinalized exec thisMsg block l1Slot = .ok (.applied, chain') ∧
      chain'.finalPosition = position := by
  have hid : block.header.blockId.val = height chain.finalTip + 1 :=
    (advance_continues hadvance).blockId
  unfold applyFinalized
  split
  · -- the block is in the head; being next, it is the first one there
    rename_i idx hfound
    obtain ⟨entry, hentry, hp⟩ := exists_of_findIdx? hfound
    obtain ⟨hsameId, hsame⟩ := of_decide_eq_true hp
    have hmem := mem_of_getElem? hentry
    have hidx : idx = 0 := by
      have hentryId := h.blockId_getElem? hentry
      rw [hsameId] at hentryId
      omega
    subst hidx
    have hentryAdvance : advance exec chain.finalPosition entry.block
        = advance exec chain.finalPosition block := by
      rcases hsame with hmsg | hsameHash
      · rw [hmessage entry hmem hmsg]
      · exact advance_congr (hhash entry hmem hsameHash) hsameHash
    obtain ⟨mid, hmid, hfinalize⟩ := h.finalizeThrough_eq 0
    have htake : chain.blocks.take 1 = [entry.block] := by
      rw [blocks, ← map_take, List.take_one, List.head?_eq_getElem?, hentry]
      rfl
    rw [htake, replay_singleton, hentryAdvance, hadvance] at hmid
    cases hmid
    rw [hfinalize]
    exact ⟨_, rfl, rfl⟩
  · rename_i hmissing
    have hparent : (chain.headBlocks.findIdx? fun entry =>
        entry.block.header.hash = block.header.prevBlockHash) = none := by
      refine List.findIdx?_eq_none_iff.mpr fun entry hmem => decide_eq_false fun hprev => ?_
      -- the parent would be in the head, so the block as well, and at its own height
      refine hquiet ⟨⟨entry, hmem, hprev⟩, fun other hother hsame => ?_⟩
      have hnot := of_decide_eq_false (List.findIdx?_eq_none_iff.mp hmissing other hother)
      exact hnot ⟨congrArg HashableBlockData.blockId (hhash other hother hsame), .inr hsame⟩
    dsimp only
    rw [hparent]
    obtain ⟨finalState, happly, rfl⟩ := advance_eq_some.mp hadvance
    have hnew : ¬∃ tip ∈ chain.finalTip, block.header.blockId < tip.blockId ∨
        (block.header.blockId = tip.blockId ∧ block.header.hash = tip.hash) := by
      rintro ⟨tip, htip, hknown⟩
      rw [show chain.finalTip = some tip from htip] at hid
      have hnext : block.header.blockId.val = tip.blockId.val + 1 := hid
      rcases hknown with hlt | ⟨heq, -⟩
      · have hlt : block.header.blockId.val < tip.blockId.val := hlt
        omega
      · rw [heq] at hnext
        omega
    show ∃ chain', chain.applyFinalizedDirect exec block l1Slot = _ ∧ _
    rw [applyFinalizedDirect, if_neg hnew,
      show applyBlock exec chain.finalTip block chain.finalState = .ok finalState from happly]
    exact ⟨_, rfl, rfl⟩

variable {entry : HeadEntry}

theorem HeadMove.mem_headBlocks {entries : List HeadEntry} (h : HeadMove exec entries chain chain')
    (hmem : entry ∈ chain'.headBlocks) : entry ∈ chain.headBlocks ∨ entry ∈ entries := by
  cases h with
  | cut _ => exact .inl (List.mem_of_mem_take hmem)
  | grow _ _ hentry =>
    rcases mem_append.mp hmem with hkept | hpushed
    · exact .inl (List.mem_of_mem_take hkept)
    · rw [mem_singleton.mp hpushed]
      exact .inr hentry

theorem FinalMove.mem_headBlocks (h : FinalMove exec chain chain')
    (hmem : entry ∈ chain'.headBlocks) : entry ∈ chain.headBlocks := by
  cases h with
  | settle _ => exact List.mem_of_mem_drop hmem
  | rebase _ => cases hmem
  | stall _ => exact hmem

/-- The head holds only what the messages brought. -/
theorem Moves.mem_headBlocks {event : ChainEvent} (h : Moves exec event chain chain')
    (hmem : entry ∈ chain'.headBlocks) :
    entry ∈ chain.headBlocks ∨ entry ∈ event.messages := by
  rcases h.cases with hhead | ⟨-, hfinal⟩ <;> clear h
  · induction hhead with
    | refl => exact .inl hmem
    | tail _ hmove ih =>
      exact (hmove.mem_headBlocks hmem).elim ih fun hentry => .inr (event.entries_subset hentry)
  · induction hfinal with
    | refl => exact .inl hmem
    | tail _ hmove ih => exact ih (hmove.mem_headBlocks hmem)

section

variable {messages : List HeadEntry}
  (hmessages : ∀ a ∈ messages, ∀ b ∈ messages, a.thisMsg = b.thisMsg → a.block = b.block)
  (hhashes : ∀ a ∈ messages, ∀ b ∈ messages, a.block.recomputeHash = b.block.recomputeHash →
    a.block.hashableData = b.block.hashableData)

include hmessages hhashes in
/-- An event with the next final block moves the final tier by that block and reports it as
applied. -/
theorem HandlesQuietly.finalPosition {thisMsg : MsgId} {block : Block} {l1Slot : Slot}
    {outcomes : List AcceptOutcome} {position : Position}
    (h : HandlesQuietly exec (.finalized thisMsg block l1Slot, outcomes) chain chain')
    (hchain : Consistent exec origin chain) (hhead : chain.headBlocks ⊆ messages)
    (hmem : ⟨thisMsg, block⟩ ∈ messages)
    (hadvance : advance exec chain.finalPosition block = some position) :
    outcomes = [.applied] ∧ chain'.finalPosition = position := by
  obtain ⟨hhandles, hquiet⟩ := h
  have hsameData : ∀ entry ∈ chain.headBlocks, entry.block.header.hash = block.header.hash →
      entry.block.hashableData = block.hashableData := by
    intro entry hentry hsame
    -- both blocks were checked, so their hashes are the hashes of their contents
    have hentryHash := hchain.linked.hash_of_mem (mem_map_of_mem hentry)
    have hblockHash := (advance_continues hadvance).hash
    refine hhashes entry (hhead hentry) _ hmem ?_
    rw [hentryHash, hsame, hblockHash]
  obtain ⟨reached, happly, hreached⟩ := hchain.applyFinalized_next thisMsg l1Slot hadvance
    (fun entry hentry hmsg => hmessages entry (hhead hentry) _ hmem hmsg) hsameData
    (hquiet block mem_cons_self)
  obtain ⟨⟨outcome, result⟩, hresult, heq⟩ := bind_eq_ok.mp hhandles
  obtain ⟨rfl, rfl⟩ := Prod.mk.inj (ok.inj (happly.symm.trans hresult))
  cases heq
  exact ⟨rfl, hreached⟩

include hmessages hhashes in
/-- The final tier of a node replays the finalized blocks it hears of, one by one. -/
theorem finalPosition_of_run {history : List (ChainEvent × List AcceptOutcome)}
    (hrun : Run (HandlesQuietly exec) chain history chain')
    (hsub : ∀ step ∈ history, step.1.messages ⊆ messages)
    (hchain : Consistent exec origin chain) (hhead : chain.headBlocks ⊆ messages)
    {position : Position}
    (hfinal : replay (advance exec) chain.finalPosition
      (history.flatMap fun step => step.1.finalBlocks) = some position) :
    chain'.finalPosition = position ∧
      ∀ step ∈ history, step.1.finalBlocks ≠ [] → step.2 = [.applied] := by
  induction hrun with
  | nil chain => exact ⟨some.inj hfinal, fun step hstep => absurd hstep (by simp)⟩
  | cons hquiet hrest ih =>
    rename_i step history before between after
    obtain ⟨event, outcomes⟩ := step
    have hmoves := hquiet.1.moves hchain
    have hnow := hsub _ mem_cons_self
    have hlater := ih (fun step hstep => hsub step (mem_cons_of_mem _ hstep))
      (hchain.moves hmoves)
      (fun entry hmem => (hmoves.mem_headBlocks hmem).elim (fun h => hhead h) fun h => hnow h)
    -- the event first: it leaves the final tier where the rest of the blocks start
    have hevent : (event.finalBlocks ≠ [] → outcomes = [.applied]) ∧
        replay (advance exec) between.finalPosition
          (history.flatMap fun step => step.1.finalBlocks) = some position := by
      rw [List.flatMap_cons] at hfinal
      cases event with
      | finalized thisMsg block l1Slot =>
        obtain ⟨next, hadvance, hrest⟩ := replay_cons_eq_some.mp hfinal
        obtain ⟨houtcomes, hbetween⟩ := hquiet.finalPosition hmessages hhashes hchain hhead
          (hnow mem_cons_self) hadvance
        exact ⟨fun _ => houtcomes, hbetween ▸ hrest⟩
      | _ => exact ⟨fun hne => absurd rfl hne, (hmoves.final_eq rfl).1 ▸ hfinal⟩
    obtain ⟨hend, hreports⟩ := hlater hevent.2
    refine ⟨hend, fun step hstep hne => ?_⟩
    rcases mem_cons.mp hstep with rfl | hstep
    · exact hevent.1 hne
    · exact hreports step hstep hne

end

/-- A node that starts from a final tier and hears of a valid chain of finalized blocks ends
with their replay. -/
theorem HearsOf.finalPosition {state : V03State} {tip : Option Tip} {final : List Block}
    {history : List (ChainEvent × List AcceptOutcome)} {position : Position}
    (h : HearsOf exec final (.fromFinal state tip) history chain)
    (hfinal : replay (advance exec) (tip, state) final = some position) :
    chain.finalPosition = position ∧
      ∀ step ∈ history, step.1.finalBlocks ≠ [] → step.2 = [.applied] := by
  refine finalPosition_of_run h.messages h.hashes h.run ?_ (Consistent.fromFinal state tip)
    (nil_subset _) (h.finalized ▸ hfinal)
  exact fun step hstep entry hentry => mem_flatMap.mpr ⟨step, hstep, hentry⟩

/-- **Nodes agree on the final tier.**  Let `final` be a chain of blocks that applies on a
final tier.  Two nodes that start from this tier and are told that these blocks are final,
in order, end with the same final state and tip, namely the replay of the blocks, whatever
else each of them adopts, produces or reverts in between; and no final block is parked. -/
theorem final_tiers_agree {state : V03State} {tip : Option Tip} {final : List Block}
    {position : Position} (hfinal : replay (advance exec) (tip, state) final = some position)
    {history₁ history₂ : List (ChainEvent × List AcceptOutcome)} {chain₁ chain₂ : ChainState}
    (h₁ : HearsOf exec final (.fromFinal state tip) history₁ chain₁)
    (h₂ : HearsOf exec final (.fromFinal state tip) history₂ chain₂) :
    chain₁.finalState = chain₂.finalState ∧ chain₁.finalTip = chain₂.finalTip ∧
      (chain₁.finalTip, chain₁.finalState) = position ∧
      ∀ step ∈ history₁ ++ history₂, step.1.finalBlocks ≠ [] →
        step.2 = [.applied] ∨ step.2 = [.alreadyApplied] := by
  obtain ⟨hend₁, hreports₁⟩ := h₁.finalPosition hfinal
  obtain ⟨hend₂, hreports₂⟩ := h₂.finalPosition hfinal
  have hsame : (chain₁.finalTip, chain₁.finalState) = (chain₂.finalTip, chain₂.finalState) :=
    hend₁.trans hend₂.symm
  obtain ⟨htip, hstate⟩ := Prod.mk.inj hsame
  refine ⟨hstate, htip, hend₁, fun step hstep hne => .inl ?_⟩
  rcases mem_append.mp hstep with hstep | hstep
  · exact hreports₁ step hstep hne
  · exact hreports₂ step hstep hne

instance (chain : ChainState) (block : Block) : Decidable (chain.ConflictsWith block) :=
  inferInstanceAs (Decidable (_ ∧ _))

/-- Handle an event if it reports these outcomes and nothing conflicts with it. -/
def ChainState.followQuietly (exec : Executor) (chain : ChainState)
    (step : ChainEvent × List AcceptOutcome) : Option ChainState :=
  if ∀ block ∈ step.1.finalBlocks, ¬chain.ConflictsWith block then chain.follow exec step
  else none

end

namespace Fork

/-- One node follows the rival before it is final. -/
def early : List (ChainEvent × List AcceptOutcome) :=
  [ (.adopted (msg 1) genesis, [.applied]),
    (.adopted (msg 2) second, [.applied]),
    (.finalized (msg 1) genesis 7, [.applied]),
    (.orphaned (msg 2) second, []),
    (.adopted (msg 3) rival, [.applied]),
    (.produced (msg 4) third, [.applied]),
    (.finalized (msg 3) rival 8, [.applied]) ]

/-- The other node is on the second block when the rival becomes final. -/
def late : List (ChainEvent × List AcceptOutcome) :=
  [ (.finalized (msg 1) genesis 7, [.applied]),
    (.produced (msg 2) second, [.applied]),
    (.finalized (msg 3) rival 9, [.applied]) ]

end Fork

section

open Idle Fork

theorem fork_hearsOf (history : List (ChainEvent × List AcceptOutcome))
    (heval : (history.foldlM (followQuietly exec) (.fromFinal state none)).isSome = true)
    (hfinalized : history.flatMap (fun step => step.1.finalBlocks) = [genesis, rival])
    (hmessages : ∀ a ∈ history.flatMap (fun step => step.1.messages),
      ∀ b ∈ history.flatMap (fun step => step.1.messages),
        (a.thisMsg = b.thisMsg → a.block = b.block) ∧
        (a.block.recomputeHash = b.block.recomputeHash →
          a.block.hashableData = b.block.hashableData)) :
    ∃ chain, HearsOf exec [genesis, rival] (.fromFinal state none) history
      chain := by
  obtain ⟨chain, hchain⟩ := isSome_iff_exists.mp heval
  exact ⟨chain, Run.of_foldlM (fun _ _ _ h =>
      (ite_none_right_eq_some.mp h).symm.imp_left handles_of_follow) hchain, hfinalized,
    fun a ha b hb => (hmessages a ha b hb).1, fun a ha b hb => (hmessages a ha b hb).2⟩

theorem fork_agrees :
    ∃ position chain₁ chain₂,
      replay (advance exec) (none, state) [genesis, rival] = some position ∧
      HearsOf exec [genesis, rival] (.fromFinal state none) early chain₁ ∧
      HearsOf exec [genesis, rival] (.fromFinal state none) late chain₂ ∧
      chain₁.finalState = chain₂.finalState ∧ chain₁.finalTip = chain₂.finalTip := by
  have hreplay : (replay (advance exec) (none, state)
      [genesis, rival]).isSome = true := by decide +kernel
  obtain ⟨position, hposition⟩ := isSome_iff_exists.mp hreplay
  obtain ⟨chain₁, h₁⟩ := fork_hearsOf early (by decide +kernel) rfl (by decide +kernel)
  obtain ⟨chain₂, h₂⟩ := fork_hearsOf late (by decide +kernel) rfl (by decide +kernel)
  obtain ⟨hstate, htip, -, -⟩ := final_tiers_agree hposition h₁ h₂
  exact ⟨position, chain₁, chain₂, hposition, h₁, h₂, hstate, htip⟩

end

end Lssa
