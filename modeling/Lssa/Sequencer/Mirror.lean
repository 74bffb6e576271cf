/-
The mirror of a chain in its store.

Above the final tier the store of a sequencer holds the blocks of the head and nothing else,
and beside them the state of the head and the final tier (`InSync`).  What is written is not
the chain but what an event did to it: payloads that are stored already are skipped, of
several payloads with one id the last one stays, and what lies above the tip is removed.

* `storeUpdate_inSync` — when an update keeps the mirror, whichever event writes it;
* `InSync.reads_head` — what the store reads as after the payloads of an event;
* `InSync.restores` — a mirrored chain is restored from its store.
-/
import Lssa.Convergence
import Lssa.Sequencer.Events

open Outcome TwoTier Runs
open List (getElem?_eq_none mem_filter)

namespace Lssa

open ChainCells

/-! ### What an update leaves in the store -/

/-- The last block of a list with a given id. -/
def lastAt (blocks : List Block) (id : U64) : Option Block :=
  (blocks.filter fun block => block.header.blockId = id).getLast?

theorem lastAt_append_singleton (blocks : List Block) (block : Block) (id : U64) :
    lastAt (blocks ++ [block]) id
      = if block.header.blockId = id then some block else lastAt blocks id := by
  unfold lastAt
  rw [filter_append]
  by_cases hid : block.header.blockId = id
  · rw [List.filter_cons_of_pos (by simpa using hid), if_pos hid]
    simp
  · rw [List.filter_cons_of_neg (by simpa using hid), if_neg hid]
    simp

variable {blocks : List Block} {id : U64} {block : Block}

theorem lastAt_eq_none :
    lastAt blocks id = none ↔ ∀ block ∈ blocks, block.header.blockId ≠ id := by
  rw [lastAt, List.getLast?_eq_none_iff, List.filter_eq_nil_iff]
  simp

theorem mem_of_lastAt (h : lastAt blocks id = some block) :
    block ∈ blocks ∧ block.header.blockId = id := by
  have hmem := List.mem_of_getLast? h
  rw [mem_filter] at hmem
  exact ⟨hmem.1, of_decide_eq_true hmem.2⟩

/-- The last block with an id among those that satisfy `p`, if it satisfies `p`. -/
theorem lastAt_filter {p : Block → Bool} (h : lastAt blocks id = some block) (hp : p block = true) :
    lastAt (blocks.filter p) id = some block := by
  induction blocks using reverseRecOn with
  | nil => exact absurd h (by simp [lastAt])
  | append_singleton blocks b ih =>
    rw [lastAt_append_singleton] at h
    rw [filter_append]
    by_cases hid : b.header.blockId = id
    · rw [if_pos hid, some_inj] at h
      subst h
      rw [List.filter_cons_of_pos hp, List.filter_nil, lastAt_append_singleton, if_pos hid]
    · rw [if_neg hid] at h
      by_cases hb : p b = true
      · rw [List.filter_cons_of_pos hb, List.filter_nil, lastAt_append_singleton, if_neg hid, ih h]
      · rw [List.filter_cons_of_neg hb, List.filter_nil, append_nil, ih h]

theorem lastAt_append_of_forall_ne {rest : List Block}
    (h : ∀ block ∈ rest, block.header.blockId ≠ id) :
    lastAt (blocks ++ rest) id = lastAt blocks id := by
  have hrest : (rest.filter fun block => block.header.blockId = id) = [] := by
    rw [List.filter_eq_nil_iff]
    simpa using h
  rw [lastAt, filter_append, hrest, append_nil, lastAt]

namespace ChainCells

variable {store : ChainCells}

/-- The payload of a block that does not become final. -/
theorem blockToWrite_false (store : ChainCells) (block : Block) :
    store.blockToWrite (block, false) = if store.Holds block then none else some block := by
  by_cases hholds : store.Holds block
  · rw [if_pos hholds]
    obtain ⟨stored, hget, hhash⟩ := hholds
    simp [blockToWrite, Option.filter, hhash,
      show store.getBlock block.header.blockId = some stored from hget]
  · rw [if_neg hholds]
    cases hget : store.getBlock block.header.blockId with
    | none => simp [blockToWrite, hget]
    | some stored =>
      have hhash : stored.header.hash ≠ block.header.hash :=
        fun heq => hholds ⟨stored, hget, heq⟩
      simp [blockToWrite, Option.filter, hget, hhash]

theorem filterMap_blockToWrite_false (store : ChainCells) (blocks : List Block) :
    (blocks.map fun block => (block, false)).filterMap store.blockToWrite
      = blocks.filter fun block => ¬store.Holds block := by
  induction blocks with
  | nil => rfl
  | cons block blocks ih =>
    rw [map_cons, List.filterMap_cons, blockToWrite_false]
    by_cases hholds : store.Holds block
    · rw [if_pos hholds, List.filter_cons_of_neg (by simpa using hholds)]
      exact ih
    · rw [if_neg hholds, List.filter_cons_of_pos (by simpa using hholds)]
      exact congrArg (block :: ·) ih

/-- A payload has the id of its block, if blocks are stored under their ids. -/
theorem blockId_of_blockToWrite
    (hkeyed : ∀ id block, store.getBlock id = some block → block.header.blockId = id)
    {entry : Block × Bool} {block : Block} (h : store.blockToWrite entry = some block) :
    block.header.blockId = entry.1.header.blockId := by
  obtain ⟨given, finalized⟩ := entry
  unfold blockToWrite at h
  dsimp only at h
  split at h
  · rename_i stored hstored
    obtain ⟨hget, -⟩ := Option.filter_eq_some_iff.mp hstored
    cases finalized with
    | false => cases h
    | true =>
      cases h
      show stored.header.blockId = _
      exact hkeyed _ _ hget
  · cases finalized with
    | false | true => rw [← some.inj h]; rfl

variable {id : U64}

/-- Marking stored blocks as final writes nothing above them. -/
theorem lookup_collectFinalizedUpTo {lastFinalized : U64} (h : lastFinalized < id)
    (toWrite : Map U64 Block) :
    (store.collectFinalizedUpTo lastFinalized toWrite).lookup id = toWrite.lookup id := by
  unfold collectFinalizedUpTo
  dsimp only
  have hbelow : ∀ block ∈ store.getAllBlocks.filter fun block =>
      block.bedrockStatus = .pending ∧ block.header.blockId ≤ lastFinalized,
      id ≠ block.header.blockId := by
    intro block hmem heq
    obtain ⟨-, hle⟩ := of_decide_eq_true (mem_filter.mp hmem).2
    exact absurd (heq ▸ hle) (not_le.mpr h)
  revert hbelow
  generalize store.getAllBlocks.filter _ = newlyFinalized
  intro hbelow
  induction newlyFinalized generalizing toWrite with
  | nil => rfl
  | cons block rest ih =>
    rw [List.foldl_cons, ih _ fun b hb => hbelow b (mem_cons_of_mem _ hb)]
    split
    · rfl
    · rw [lookup_insert_ne (hbelow block mem_cons_self)]

/-- Of the payloads with an id the last one is written. -/
theorem lookup_insertAll_blocks (payloads : List Block) (id : U64) :
    (insertAll (∅ : Map U64 Block)
      (payloads.map fun block => (block.header.blockId, block))).lookup id
      = lastAt payloads id := by
  rw [Ledger.lookup_insertAll, List.filter_map, List.getLast?_map, Option.map_map, lastAt]
  simp [Function.comp_def]

/-- What an update writes above the blocks that it makes final. -/
theorem lookup_toWrite {update : StoreUpdate} (hfinal : ∀ last ∈ update.finalizedUpTo, last < id) :
    (store.toWrite update).lookup id = lastAt (update.blocks.filterMap store.blockToWrite) id := by
  unfold toWrite
  dsimp only
  cases hupTo : update.finalizedUpTo with
  | none => exact lookup_insertAll_blocks _ _
  | some last =>
    exact (lookup_collectFinalizedUpTo (hfinal last hupTo) _).trans (lookup_insertAll_blocks _ _)

/-- Blocks are kept under their own ids. -/
def Keyed (blocks : Map U64 Block) : Prop :=
  ∀ id block, blocks.lookup id = some block → block.header.blockId = id

theorem Keyed.insert {blocks : Map U64 Block} (h : Keyed blocks) (block : Block) :
    Keyed (blocks.insert block.header.blockId block) := by
  intro id stored hget
  by_cases hid : id = block.header.blockId
  · subst hid
    rw [lookup_insert, some_inj] at hget
    rw [hget]
  · rw [lookup_insert_ne hid] at hget
    exact h id stored hget

variable {toWrite : Map U64 Block}

theorem Keyed.collectFinalizedUpTo (h : Keyed toWrite) (lastFinalized : U64) :
    Keyed (store.collectFinalizedUpTo lastFinalized toWrite) := by
  unfold ChainCells.collectFinalizedUpTo
  dsimp only
  generalize store.getAllBlocks.filter _ = newlyFinalized
  induction newlyFinalized generalizing toWrite with
  | nil => exact h
  | cons block rest ih =>
    rw [List.foldl_cons]
    split
    · exact ih h
    · exact ih (h.insert block.finalized)

theorem keyed_toWrite (update : StoreUpdate) : Keyed (store.toWrite update) := by
  have hwritten : Keyed (insertAll (∅ : Map U64 Block)
      ((update.blocks.filterMap store.blockToWrite).map fun block =>
        (block.header.blockId, block))) := by
    intro id block hget
    rw [lookup_insertAll_blocks] at hget
    exact (mem_of_lastAt hget).2
  unfold toWrite
  dsimp only
  split
  · exact hwritten.collectFinalizedUpTo _
  · exact hwritten

theorem mem_staleIds {tip : BlockMeta} {last : U64} (htip : tip.blockId.val + 1 < 2 ^ 64) :
    id ∈ staleIds tip last ↔ tip.blockId < id ∧ id ≤ last := by
  unfold staleIds
  rw [min_eq_left (by omega), mem_map]
  have hid := id.isLt
  have hlast := last.isLt
  constructor
  · rintro ⟨n, hn, rfl⟩
    rw [List.mem_range'_1] at hn
    have hval : (Fin.ofNat (2 ^ 64) n).val = n := Nat.mod_eq_of_lt (by omega)
    rw [Fin.lt_def, Fin.le_def, hval]
    omega
  · rintro ⟨hlt, hle⟩
    rw [Fin.lt_def] at hlt
    rw [Fin.le_def] at hle
    refine ⟨id.val, List.mem_range'_1.mpr (by omega), ?_⟩
    exact Fin.ext (Nat.mod_eq_of_lt hid)

theorem le_highestStaged {block : Block} (h : toWrite.lookup id = some block) :
    id ≤ highestStaged toWrite := by
  have hmem : id ∈ toWrite.keys := by
    by_contra hnot
    rw [lookup_eq_none.mpr hnot] at h
    cases h
  unfold highestStaged
  revert hmem
  generalize toWrite.keys = keys
  intro hmem
  induction keys with
  | nil => cases hmem
  | cons key keys ih =>
    rw [List.foldr_cons]
    rcases mem_cons.mp hmem with rfl | hmem
    · exact le_max_left _ _
    · exact (ih hmem).trans (le_max_right _ _)

/-- What the store holds after an update. -/
theorem getBlock_storeUpdate {update : StoreUpdate} {tip : BlockMeta} (id : U64)
    (htip : update.headTip = some tip) (hlast : tip.blockId.val + 1 < 2 ^ 64) :
    (store.storeUpdate update).getBlock id =
      if store.ChainChanged update ∧ tip.blockId < id ∧
          id ≤ max store.lastBlockInDb (highestStaged (store.toWrite update)) then none
      else ((store.toWrite update).lookup id).or (store.getBlock id) := by
  unfold storeUpdate getBlock
  dsimp only
  rw [htip]
  dsimp only
  by_cases hchanged : store.ChainChanged update
  · rw [if_pos hchanged, Ledger.lookup_eraseAll, Ledger.lookup_insertAll_entries]
    simp only [mem_staleIds hlast, hchanged, true_and]
  · rw [if_neg hchanged, Ledger.lookup_insertAll_entries, if_neg (fun h => hchanged h.1)]

/-- The stored blocks are those that can be read under their ids. -/
theorem mem_getAllBlocks (hkeyed : Keyed store.blocks) :
    block ∈ store.getAllBlocks ↔ store.getBlock block.header.blockId = some block := by
  rw [getAllBlocks, mem_map]
  constructor
  · rintro ⟨⟨id, stored⟩, hmem, rfl⟩
    have hget : store.blocks.lookup id = some stored := mem_lookup_iff.mpr hmem
    have hid : stored.header.blockId = id := hkeyed id stored hget
    subst hid
    exact hget
  · intro hget
    exact ⟨⟨_, block⟩, mem_lookup_iff.mp hget, rfl⟩

theorem nodup_ids (hkeyed : Keyed store.blocks) :
    (store.getAllBlocks.map fun block => block.header.blockId).Nodup := by
  have hkeys : (store.getAllBlocks.map fun block => block.header.blockId) = store.blocks.keys := by
    rw [getAllBlocks, map_map]
    refine map_congr_left fun entry hmem => ?_
    exact hkeyed entry.1 entry.2 (mem_lookup_iff.mpr hmem)
  rw [hkeys]
  exact store.blocks.keys_nodup

end ChainCells

/-- A competitor comes before the last block with its id, so it has its hash if that one is
stored. -/
theorem hash_of_lastAt {store : ChainCells} {applied : List Block} {other : Block}
    (hlast : lastAt applied block.header.blockId = some block)
    (hcompetitors : applied.Pairwise fun a b =>
      a.header.blockId = b.header.blockId → store.Holds b → a.header.hash = b.header.hash)
    (hholds : store.Holds block) (hmem : other ∈ applied)
    (hid : other.header.blockId = block.header.blockId) :
    other.header.hash = block.header.hash := by
  induction applied using reverseRecOn with
  | nil => cases hmem
  | append_singleton applied b ih =>
    rw [lastAt_append_singleton] at hlast
    obtain ⟨hbefore, -, hpairs⟩ := List.pairwise_append.mp hcompetitors
    rcases mem_append.mp hmem with hmem | hmem
    · by_cases hb : b.header.blockId = block.header.blockId
      · rw [if_pos hb, some_inj] at hlast
        subst hlast
        exact hpairs other hmem b mem_cons_self hid hholds
      · rw [if_neg hb] at hlast
        exact ih hlast hbefore hmem
    · obtain rfl := mem_singleton.mp hmem
      rw [if_pos hid, some_inj] at hlast
      rw [hlast]

/-- The update writes the chain: its tip and state, its final tier unless that is the stored
one, and payloads over which the store reads as the blocks of its head. -/
structure Writes (core : MirroredChain) (chain : ChainState) (tip : BlockMeta)
    (update : StoreUpdate) : Prop where
  headTip : chain.headTip = some tip
  range : tip.blockId.val + 1 < 2 ^ 64
  updateTip : update.headTip = some tip
  state : update.headState = chain.headState
  final : (∃ finalTip, chain.finalTip = some finalTip ∧
      update.finalSnapshot = some (chain.finalState, finalTip)) ∨
    (update.finalSnapshot = none ∧ chain.finalPosition = core.chain.finalPosition)
  upTo : ∀ last ∈ update.finalizedUpTo, last.val ≤ height chain.finalTip
  blocks : ∀ block ∈ chain.blocks,
    (((core.store.toWrite update).lookup block.header.blockId).or
      (core.store.getBlock block.header.blockId)).map Block.sealed = some block.sealed

section

variable {core : MirroredChain} {chain : ChainState} {tip : BlockMeta} {update : StoreUpdate}
  (h : Writes core chain tip update)

include h

/-- Above the final tier only the payloads of the event are written. -/
theorem Writes.lookup_toWrite (hid : height chain.finalTip < id.val) :
    (core.store.toWrite update).lookup id
      = lastAt (update.blocks.filterMap core.store.blockToWrite) id := by
  refine ChainCells.lookup_toWrite fun last hmem => ?_
  have hle := h.upTo last hmem
  rw [Fin.lt_def]
  omega

/-- Payloads above the new tip are gone after an update. -/
theorem Writes.getBlock_above
    (hstored : ∀ id, core.store.lastBlockInDb < id → core.store.getBlock id = none)
    (hfinal : height chain.finalTip < id.val) (hid : tip.blockId < id) :
    (core.store.storeUpdate update).getBlock id = none := by
  rw [getBlock_storeUpdate id h.updateTip h.range]
  split
  · rfl
  rename_i hcond
  by_cases hchanged : core.store.ChainChanged update
  · -- not in the range that is removed: neither stored before nor written
    have hhigh : ¬id ≤ max core.store.lastBlockInDb
        (highestStaged (core.store.toWrite update)) :=
      fun hle => hcond ⟨hchanged, hid, hle⟩
    rw [le_max_iff, not_or] at hhigh
    rw [hstored id (not_le.mp hhigh.1), Option.or_none]
    by_contra hsome
    obtain ⟨block, hblock⟩ := Option.ne_none_iff_exists'.mp hsome
    exact hhigh.2 (le_highestStaged hblock)
  · -- nothing is written and the tip is where it was
    unfold ChainCells.ChainChanged at hchanged
    rw [not_or, not_or] at hchanged
    obtain ⟨-, hsameTip, hnothing⟩ := hchanged
    have hsame : tip.blockId = core.store.lastBlockInDb := by
      by_contra hne
      exact hsameTip ⟨tip, h.updateTip, hne⟩
    rw [h.lookup_toWrite hfinal, not_not.mp hnothing, hstored id (hsame ▸ hid)]
    rfl

theorem Writes.keyed (hkeyed : ChainCells.Keyed core.store.blocks) :
    ChainCells.Keyed (core.store.storeUpdate update).blocks := by
  intro id block hget
  replace hget : (core.store.storeUpdate update).getBlock id = some block := hget
  rw [getBlock_storeUpdate id h.updateTip h.range] at hget
  split at hget
  · cases hget
  · rcases Option.or_eq_some_iff.mp hget with hwritten | ⟨-, hstored⟩
    · exact keyed_toWrite update id block hwritten
    · exact hkeyed id block hstored

end

/-! ### The mirror -/

section

variable [Sha256] [Schnorr] [Builtins] [Receipts] [ImageId] [ClockBuiltin] [Serde Timestamp]
  {exec : Executor} {initialState : V03State} {known : HashableBlockData → Prop}

/-- The store mirrors the chain: above the final tier it holds the blocks of the head, up to
signature and status, and it has the tip and the state of the head and the final tier. -/
structure InSync (exec : Executor) (initialState : V03State) (known : HashableBlockData → Prop)
    (core : MirroredChain) : Prop where
  consistent : ∃ origin, Consistent exec origin core.chain
  known : ∀ block ∈ core.chain.blocks, known block.hashableData
  final : core.store.finalTier initialState = core.chain.finalPosition
  range : height core.chain.finalTip + 1 < 2 ^ 64
  keyed : ChainCells.Keyed core.store.blocks
  blocks : ∀ (id : U64) i, id.val = height core.chain.finalTip + 1 + i →
    (core.store.getBlock id).map Block.sealed = (core.chain.blocks[i]?).map Block.sealed
  tip : ∃ tip, core.chain.headTip = some tip ∧ core.store.latestBlockMeta = some tip ∧
    core.store.lastBlockInDb = tip.blockId
  state : core.store.leeState = core.chain.headState

/-- The id of the head tip. -/
theorem Consistent.height_headTip {origin : Position} {chain : ChainState}
    (h : Consistent exec origin chain) :
    height chain.headTip = height chain.finalTip + chain.blocks.length :=
  height_of_replay h.head_replay

section

variable {core : MirroredChain} {chain : ChainState} {tip : BlockMeta} {update : StoreUpdate}
  {origin : Position}

variable {id : U64} {block : Block}

theorem Writes.height_tip (h : Writes core chain tip update)
    (hchain : Consistent exec origin chain) :
    tip.blockId.val = height chain.finalTip + chain.blocks.length := by
  rw [← hchain.height_headTip, h.headTip]
  rfl

/-- Nothing is stored above the tip. -/
theorem InSync.getBlock_above (h : InSync exec initialState known core)
    (hid : core.store.lastBlockInDb < id) : core.store.getBlock id = none := by
  obtain ⟨origin, hconsistent⟩ := h.consistent
  obtain ⟨tip, htip, -, hlast⟩ := h.tip
  have hheight := hconsistent.height_headTip
  rw [htip] at hheight
  replace hheight : tip.blockId.val = _ := hheight
  rw [hlast, Fin.lt_def] at hid
  have hread := h.blocks id (id.val - (height core.chain.finalTip + 1)) (by omega)
  rw [getElem?_eq_none (by omega), map_none, Option.map_eq_none_iff] at hread
  exact hread

section

variable (h : Writes core chain tip update)

include h

/-- After an update the store reads as the head. -/
theorem Writes.reads (hchain : Consistent exec origin chain)
    (hstored : ∀ id, core.store.lastBlockInDb < id → core.store.getBlock id = none) {i : ℕ}
    (hid : id.val = height chain.finalTip + 1 + i) :
    ((core.store.storeUpdate update).getBlock id).map Block.sealed
      = (chain.blocks[i]?).map Block.sealed := by
  have hheight := h.height_tip hchain
  by_cases hi : i < chain.blocks.length
  · have hle : ¬tip.blockId < id := by
      rw [Fin.lt_def]
      omega
    have hread := h.blocks _ (List.getElem_mem hi)
    have hblockId : chain.blocks[i].header.blockId = id := by
      refine Fin.ext ?_
      rw [hchain.linked.blockId_getElem? (getElem?_eq_getElem hi), hid]
    rw [hblockId] at hread
    rw [getBlock_storeUpdate id h.updateTip h.range, if_neg fun hcond => hle hcond.2.1,
      getElem?_eq_getElem hi, map_some, hread]
  · have hlt : tip.blockId < id := by
      rw [Fin.lt_def]
      omega
    rw [h.getBlock_above hstored (by omega) hlt, getElem?_eq_none (by omega)]

/-- An update that does not touch the cells of the head writes the head that they hold. -/
theorem Writes.same_head (hchain : Consistent exec origin chain)
    (hcore : InSync exec initialState known core) (hchanged : ¬core.store.ChainChanged update) :
    chain.finalPosition = core.chain.finalPosition ∧ chain.headTip = core.chain.headTip ∧
      chain.headState = core.chain.headState := by
  obtain ⟨origin', hconsistent⟩ := hcore.consistent
  obtain ⟨oldTip, holdTip, -, hlastBlock⟩ := hcore.tip
  unfold ChainCells.ChainChanged at hchanged
  rw [not_or, not_or] at hchanged
  obtain ⟨hnoSnapshot, hsameTip, hnothing⟩ := hchanged
  have hposition : chain.finalPosition = core.chain.finalPosition := by
    rcases h.final with ⟨finalTip, -, hsnapshot⟩ | ⟨-, hsame⟩
    · exact absurd (by rw [hsnapshot]; rfl) hnoSnapshot
    · exact hsame
  have hfinalTip : chain.finalTip = core.chain.finalTip := congrArg Prod.fst hposition
  have hsealed : sealedChain chain.blocks = sealedChain core.chain.blocks := by
    have hlength : chain.blocks.length = core.chain.blocks.length := by
      have hsameId : tip.blockId = oldTip.blockId := by
        by_contra hne
        exact hsameTip ⟨tip, h.updateTip, hlastBlock ▸ hne⟩
      have hheight := h.height_tip hchain
      have holdHeight := hconsistent.height_headTip
      rw [holdTip] at holdHeight
      replace holdHeight : oldTip.blockId.val = _ := holdHeight
      rw [hsameId, hfinalTip] at hheight
      omega
    refine List.ext_getElem? fun i => ?_
    rw [sealedChain, getElem?_map, getElem?_map]
    by_cases hi : i < chain.blocks.length
    · have hid := hchain.linked.blockId_getElem? (getElem?_eq_getElem hi)
      have hnew := h.blocks _ (List.getElem_mem hi)
      rw [h.lookup_toWrite (by omega), not_not.mp hnothing] at hnew
      rw [getElem?_eq_getElem hi, map_some, ← hnew]
      exact hcore.blocks _ i (by rw [← hfinalTip]; exact hid)
    · rw [getElem?_eq_none (by omega), getElem?_eq_none (by omega)]
  have hreplay := hchain.head_replay
  rw [replay_sealed hsealed, hposition, hconsistent.head_replay, some_inj] at hreplay
  obtain ⟨hheadTip, hheadState⟩ := Prod.mk.inj hreplay
  exact ⟨hposition, hheadTip.symm, hheadState.symm⟩

end

/-- **Updates keep the mirror**, if they write the chain they come from. -/
theorem storeUpdate_inSync (h : InSync exec initialState known core)
    (hchain : Consistent exec origin chain)
    (hknown : ∀ block ∈ chain.blocks, known block.hashableData)
    (hrange : height chain.finalTip + 1 < 2 ^ 64) (hwrites : Writes core chain tip update) :
    InSync exec initialState known ⟨chain, core.store.storeUpdate update⟩ := by
  have hread : ∀ (id : U64) i, id.val = height chain.finalTip + 1 + i →
      ((core.store.storeUpdate update).getBlock id).map Block.sealed
        = (chain.blocks[i]?).map Block.sealed :=
    fun _ _ hid => hwrites.reads hchain (fun _ => h.getBlock_above) hid
  have hkeyed := hwrites.keyed h.keyed
  by_cases hchanged : core.store.ChainChanged update
  · have hstore : core.store.storeUpdate update =
        { blocks := (core.store.storeUpdate update).blocks
          lastBlockInDb := tip.blockId
          latestBlockMeta := some tip
          leeState := update.headState
          finalSnapshot := update.finalSnapshot.or core.store.finalSnapshot } := by
      unfold storeUpdate
      dsimp only
      rw [hwrites.updateTip]
      dsimp only
      rw [if_pos hchanged]
    refine ⟨⟨origin, hchain⟩, hknown, ?_, hrange, hkeyed, hread, ⟨tip, hwrites.headTip, ?_, ?_⟩, ?_⟩
    · rw [hstore]
      rcases hwrites.final with ⟨finalTip, hfinalTip, hsnapshot⟩ | ⟨hsnapshot, hsame⟩
      · rw [hsnapshot, ChainState.finalPosition, hfinalTip]
        rfl
      · rw [hsnapshot, none_or, hsame]
        exact h.final
    · rw [hstore]
    · rw [hstore]
    · rw [hstore]
      exact hwrites.state
  · have hstore : core.store.storeUpdate update =
        { core.store with blocks := (core.store.storeUpdate update).blocks } := by
      unfold storeUpdate
      dsimp only
      rw [hwrites.updateTip]
      dsimp only
      rw [if_neg hchanged]
    obtain ⟨hposition, hheadTip, hheadState⟩ := hwrites.same_head hchain h hchanged
    refine ⟨⟨origin, hchain⟩, hknown, ?_, hrange, hkeyed, hread, ?_, ?_⟩
    · rw [hstore, hposition]
      exact h.final
    · rw [hstore, hheadTip]
      exact h.tip
    · rw [hstore, hheadState]
      exact h.state

/-! ### The payloads of an event -/

section

variable (h : InSync exec initialState known core)

include h

/-- The store reads as the head that it mirrors. -/
theorem InSync.read (hmem : block ∈ core.chain.blocks) :
    (core.store.getBlock block.header.blockId).map Block.sealed = some block.sealed := by
  obtain ⟨origin, hconsistent⟩ := h.consistent
  obtain ⟨i, hi⟩ := mem_iff_getElem?.mp hmem
  rw [h.blocks _ i (hconsistent.linked.blockId_getElem? hi), hi]
  rfl

section

variable (hinjective : ∀ a b, known a → known b → a.computeHash = b.computeHash → a = b)
  (hknown : known block.hashableData) (hhash : block.recomputeHash = block.header.hash)
  (habove : height core.chain.finalTip < block.header.blockId.val)

include hinjective hknown hhash habove

/-- A block that the store has above the final tier is stored with the contents it has. -/
theorem InSync.read_of_holds (hholds : core.store.Holds block) :
    (core.store.getBlock block.header.blockId).map Block.sealed = some block.sealed := by
  obtain ⟨origin, hconsistent⟩ := h.consistent
  obtain ⟨stored, hget, hsame⟩ := hholds
  have hread := h.blocks block.header.blockId
    (block.header.blockId.val - (height core.chain.finalTip + 1)) (by omega)
  rw [show core.store.getBlock block.header.blockId = some stored from hget, map_some] at hread
  -- what is stored has the contents of a block of the head, and so the hash it should have
  obtain ⟨old, hold, hsealed⟩ := map_eq_some_iff.mp hread.symm
  have hmem : old ∈ core.chain.blocks := mem_of_getElem? hold
  have holdHash : old.header.hash = block.header.hash :=
    (congrArg Prod.snd hsealed).trans hsame
  have hdata : old.hashableData = block.hashableData := by
    refine hinjective _ _ (h.known old hmem) hknown ?_
    exact (hconsistent.linked.hash_of_mem hmem).trans (holdHash.trans hhash.symm)
  rw [show core.store.getBlock block.header.blockId = some stored from hget, map_some, ← hsealed]
  exact congrArg some (Prod.ext hdata holdHash)

/-- **What the store reads as after the payloads of an event.**  Let the event have applied
some blocks to the head, and the last one with the id of `block` be `block`, or none have its
id and the head have held `block` before.  A block that is stored already must not be applied
after a competitor: the competitor would be written over it and the block skipped. -/
theorem InSync.reads_head {applied finals : List Block}
    (hlast : lastAt applied block.header.blockId = some block ∨
      lastAt applied block.header.blockId = none ∧ block ∈ core.chain.blocks)
    (hcompetitors : applied.Pairwise fun a b =>
      a.header.blockId = b.header.blockId → core.store.Holds b → a.header.hash = b.header.hash)
    (hfinals : ∀ final ∈ finals, final.header.blockId ≠ block.header.blockId) :
    ((lastAt ((applied.map (fun b => (b, false)) ++ finals.map fun b => (b, true)).filterMap
        core.store.blockToWrite) block.header.blockId).or
      (core.store.getBlock block.header.blockId)).map Block.sealed = some block.sealed := by
  have hwritten : lastAt ((applied.map (fun b => (b, false)) ++
      finals.map fun b => (b, true)).filterMap core.store.blockToWrite) block.header.blockId
      = lastAt (applied.filter fun b => ¬core.store.Holds b) block.header.blockId := by
    rw [List.filterMap_append, filterMap_blockToWrite_false, lastAt_append_of_forall_ne]
    intro payload hmem
    obtain ⟨entry, hentry, hpayload⟩ := mem_filterMap.mp hmem
    obtain ⟨final, hfinal, rfl⟩ := mem_map.mp hentry
    rw [blockId_of_blockToWrite h.keyed hpayload]
    exact hfinals final hfinal
  rw [hwritten]
  rcases hlast with hlast | ⟨hnone, hmem⟩
  · by_cases hholds : core.store.Holds block
    · -- the block is skipped, and so is everything else at its height
      have hskipped : lastAt (applied.filter fun b => ¬core.store.Holds b) block.header.blockId
          = none := by
        rw [lastAt_eq_none]
        intro other hother hid
        obtain ⟨hmem, hnot⟩ := mem_filter.mp hother
        refine of_decide_eq_true hnot ?_
        obtain ⟨stored, hget, hsame⟩ := hholds
        refine ⟨stored, by rw [hid]; exact hget, hsame.trans ?_⟩
        exact (hash_of_lastAt hlast hcompetitors ⟨stored, hget, hsame⟩ hmem hid).symm
      rw [hskipped, none_or]
      exact h.read_of_holds hinjective hknown hhash habove hholds
    · rw [lastAt_filter hlast (by simpa using hholds)]
      rfl
  · have hnothing : lastAt (applied.filter fun b => ¬core.store.Holds b) block.header.blockId
        = none := by
      rw [lastAt_eq_none] at hnone ⊢
      exact fun other hother => hnone other (mem_filter.mp hother).1
    rw [hnothing, none_or]
    exact h.read hmem

end

end

end

/-! ### Restoring a mirrored chain -/

namespace InSync

variable {core : MirroredChain}

section

variable (h : InSync exec initialState known core)

include h

/-- Above the final tier the ids of the stored blocks are those of the head. -/
theorem mem_ids {n : ℕ} :
    (∃ block ∈ core.store.getAllBlocks, height core.chain.finalTip < block.header.blockId.val ∧
        block.header.blockId.val = n) ↔
      height core.chain.finalTip + 1 ≤ n ∧
        n < height core.chain.finalTip + 1 + core.chain.blocks.length := by
  obtain ⟨origin, hconsistent⟩ := h.consistent
  obtain ⟨tip, htip, -, -⟩ := h.tip
  constructor
  · rintro ⟨block, hmem, habove, rfl⟩
    have hget := (mem_getAllBlocks h.keyed).mp hmem
    have hread := h.blocks block.header.blockId
      (block.header.blockId.val - (height core.chain.finalTip + 1)) (by omega)
    rw [hget, map_some] at hread
    obtain ⟨old, hold, -⟩ := map_eq_some_iff.mp hread.symm
    have hlt := (getElem?_eq_some_iff.mp hold).1
    omega
  · rintro ⟨hle, hlt⟩
    -- the id is not past the tip, so it is in the range of ids
    have hheight := hconsistent.height_headTip
    rw [htip] at hheight
    have hrange : n < 2 ^ 64 := by
      have htipLt := tip.blockId.isLt
      have hheight : tip.blockId.val = _ := hheight
      omega
    let id : U64 := ⟨n, hrange⟩
    have hi : n - (height core.chain.finalTip + 1) < core.chain.blocks.length := by omega
    have hread := h.blocks id (n - (height core.chain.finalTip + 1)) (by show n = _; omega)
    rw [getElem?_eq_getElem hi, map_some] at hread
    obtain ⟨block, hget, -⟩ := map_eq_some_iff.mp hread
    have hid : block.header.blockId = id := h.keyed id block hget
    refine ⟨block, (mem_getAllBlocks h.keyed).mpr (hid ▸ hget), ?_, ?_⟩
    · rw [hid]
      exact hle
    · rw [hid]

/-- The stored blocks above the final tier, sorted, have the ids of the head in order. -/
theorem ids_sortById :
    (sortById (core.store.getAllBlocks.filter fun block =>
        height core.chain.finalTip < block.header.blockId.val)).map
          (fun block => block.header.blockId.val)
      = List.range' (height core.chain.finalTip + 1) core.chain.blocks.length := by
  set above := core.store.getAllBlocks.filter fun block =>
    height core.chain.finalTip < block.header.blockId.val with habove
  have hperm : (sortById above).Perm above := List.perm_insertionSort _ _
  have hnodup : (above.map fun block => block.header.blockId.val).Nodup := by
    have hids := (nodup_ids h.keyed).map Fin.val_injective
    rw [map_map] at hids
    exact hids.sublist (List.filter_sublist.map _)
  have hsorted : ((sortById above).map fun block => block.header.blockId.val).Pairwise (· ≤ ·) := by
    rw [pairwise_map]
    have hsort := List.pairwise_insertionSort
      (fun a b : Block => a.header.blockId ≤ b.header.blockId) above
    exact hsort
  refine List.Perm.eq_of_pairwise' hsorted
    ((List.pairwise_lt_range' 1).imp fun hlt => Nat.le_of_lt hlt) ?_
  refine (List.perm_ext_iff_of_nodup ((hperm.map _).nodup_iff.mpr hnodup)
    (List.nodup_range' 1)).mpr fun n => ?_
  rw [List.mem_range'_1, (hperm.map _).mem_iff, mem_map, ← h.mem_ids]
  simp only [habove, mem_filter, decide_eq_true_eq, and_assoc]

/-- What is replayed on a restart is the head, up to signatures and statuses. -/
theorem sealedChain_sortById :
    sealedChain (sortById (core.store.getAllBlocks.filter fun block =>
        height core.chain.finalTip < block.header.blockId.val))
      = sealedChain core.chain.blocks := by
  have hids := h.ids_sortById
  set stored := sortById (core.store.getAllBlocks.filter fun block =>
    height core.chain.finalTip < block.header.blockId.val) with hstored
  have hlength : stored.length = core.chain.blocks.length := by
    have hlengths := congrArg List.length hids
    rwa [length_map, List.length_range'] at hlengths
  refine List.ext_getElem? fun i => ?_
  rw [sealedChain, getElem?_map, getElem?_map]
  by_cases hi : i < stored.length
  · have hid : stored[i].header.blockId.val = height core.chain.finalTip + 1 + i := by
      have hget := congrArg (fun ids => ids[i]?) hids
      simp only [getElem?_map, getElem?_eq_getElem hi, map_some] at hget
      rw [List.getElem?_range' (by omega), some_inj] at hget
      omega
    have hmem : stored[i] ∈ core.store.getAllBlocks :=
      (mem_filter.mp ((List.perm_insertionSort _ _).mem_iff.mp (List.getElem_mem hi))).1
    rw [← h.blocks _ i hid, (mem_getAllBlocks h.keyed).mp hmem, getElem?_eq_getElem hi]
  · rw [getElem?_eq_none (by omega), getElem?_eq_none (by omega)]

end

end InSync

/-- Blocks that replay from the tip of a head are restored on top of it. -/
theorem foldlM_restoreHeadBlock {chain : ChainState} {blocks : List Block} {position : Position}
    (h : replay (advance exec) (chain.headTip, chain.headState) blocks = some position) :
    ∃ chain', blocks.foldlM
        (fun chain block => (chain.restoreHeadBlock exec block).mapError RestorePanic.doesNotReplay)
        chain = .ok chain' ∧
      chain'.finalPosition = chain.finalPosition ∧ chain'.finalBlocks = chain.finalBlocks ∧
      chain'.blocks = chain.blocks ++ blocks ∧ (chain'.headTip, chain'.headState) = position := by
  induction blocks generalizing chain with
  | nil => exact ⟨chain, rfl, rfl, rfl, (append_nil _).symm, some.inj h⟩
  | cons block rest ih =>
    obtain ⟨next, hadvance, hrest⟩ := replay_cons_eq_some.mp h
    obtain ⟨state, happly, rfl⟩ := advance_eq_some.mp hadvance
    set grown : ChainState :=
      { chain with
        headState := state
        headBlocks := chain.headBlocks ++ [⟨⟨block.header.hash⟩, block⟩] } with hgrown
    have hrestore : chain.restoreHeadBlock exec block = .ok grown :=
      bind_eq_ok.mpr ⟨state, happly, rfl⟩
    have htip : grown.headTip = some (Tip.ofBlock block) := by
      rw [ChainState.headTip, hgrown, List.getLast?_append]
      rfl
    have hnext : replay (advance exec) (grown.headTip, grown.headState) rest = some position := by
      rw [htip]
      exact hrest
    obtain ⟨chain', hfold, hposition, hfinal, hblocks, htop⟩ := ih hnext
    refine ⟨chain', ?_, hposition, hfinal, ?_, htop⟩
    · exact foldlM_cons_eq_ok.mpr ⟨grown, mapError_eq_ok.mpr hrestore, hfold⟩
    · rw [hblocks, ChainState.blocks, hgrown, map_append, append_assoc]
      rfl

/-- **A mirrored chain is restored from its store**, and it is mirrored again. -/
theorem InSync.restores {core : MirroredChain} (h : InSync exec initialState known core) :
    ∃ restored, restoreChainState exec initialState core.store = .ok restored ∧
      restored.headTip = core.chain.headTip ∧ restored.headState = core.chain.headState ∧
      restored.finalTip = core.chain.finalTip ∧ restored.finalState = core.chain.finalState ∧
      InSync exec initialState known ⟨restored, core.store⟩ := by
  obtain ⟨origin, hconsistent⟩ := h.consistent
  have hsealed := h.sealedChain_sortById
  set stored := sortById (core.store.getAllBlocks.filter fun block =>
    height core.chain.finalTip < block.header.blockId.val) with hstored
  have hreplay : replay (advance exec) core.chain.finalPosition stored
      = some (core.chain.headTip, core.chain.headState) := by
    rw [replay_sealed hsealed]
    exact hconsistent.head_replay
  let bottom : ChainState := .fromFinal core.chain.finalState core.chain.finalTip
  have hbottom : replay (advance exec) (bottom.headTip, bottom.headState) stored
      = some (core.chain.headTip, core.chain.headState) := hreplay
  obtain ⟨restored, hfold, hposition, hfinalBlocks, hblocks, htop⟩ :=
    foldlM_restoreHeadBlock hbottom
  replace hblocks : restored.blocks = stored := hblocks
  replace hposition : restored.finalPosition = core.chain.finalPosition := hposition
  obtain ⟨hheadTip, hheadState⟩ := Prod.mk.inj htop
  obtain ⟨hfinalTip, hfinalState⟩ := Prod.mk.inj hposition
  refine ⟨restored, ?_, hheadTip, hheadState, hfinalTip, hfinalState, ?_⟩
  · have htier : core.store.finalTier initialState
        = (core.chain.finalTip, core.chain.finalState) := h.final
    unfold restoreChainState
    rw [htier]
    refine bind_eq_ok.mpr ⟨restored, hfold, ensure_bind_eq_ok.mpr ⟨?_, rfl⟩⟩
    rw [hheadState, h.state]
    exact .refl _
  · refine ⟨⟨core.chain.finalPosition, ?_, ?_⟩, ?_, ?_, ?_, h.keyed, ?_, ?_, ?_⟩
    · rw [hfinalBlocks, hposition]
      rfl
    · rw [hblocks, hposition, hreplay, hheadTip, hheadState]
    · intro block hmem
      -- a block of the old head has the same contents
      have hmem' : block.sealed ∈ sealedChain core.chain.blocks := by
        rw [← hsealed, ← hblocks]
        exact mem_map_of_mem hmem
      obtain ⟨old, hold, heq⟩ := mem_map.mp hmem'
      rw [show block.hashableData = old.hashableData from congrArg Prod.fst heq.symm]
      exact h.known old hold
    · exact h.final.trans hposition.symm
    · rw [hfinalTip]
      exact h.range
    · intro id i hid
      rw [h.blocks id i (by rw [← hfinalTip]; exact hid), ← getElem?_map, ← getElem?_map, hblocks]
      exact congrArg (fun chain => chain[i]?) hsealed.symm
    · rw [hheadTip]
      exact h.tip
    · rw [hheadState]
      exact h.state

end

end Lssa
