/-
The history of an indexer is exact.

Whatever blocks an indexer is given, and however often it is restarted, it can compute the state
after every block it has applied, and that is the state it had then.  Breakpoints may be lost, all
but the first: a missing one is made up for by replaying more blocks.

* `Exact` — the store holds a chain that replays to the state in memory;
* `Exact.calculateStateForId` — the state after any block of the chain is computed;
* **`history_exact`** — what holds after any history.
-/
import Lssa.Indexer.Store

open Outcome TwoTier Runs

namespace Lssa

open IndexerStore

/-! ### Histories -/

/-- What happens to an indexer: it is given a block, it is started again with some initial state, or
a breakpoint other than the first is lost. -/
inductive IndexerEvent
  | accept (block : Block) (l1Slot : Slot)
  | reopen (initialState : V03State)
  | lose (brId : ℕ)

/-- An indexer with a record of the states that it committed, and of the blocks it did so for. -/
structure LoggedIndexer where
  store : IndexerStore
  committed : List (U64 × V03State)

/-- The cells after a block is put on top. -/
theorem putBlock_above {cells : IndexerCells} {block : Block} (l1Slot : Slot) (state : V03State)
    (h : cells.lastBlockId < block.header.blockId.val) :
    (cells.putBlock block l1Slot state).lastBlockInDb = some block.header.blockId ∧
      (cells.putBlock block l1Slot state).validatedTip = some (Tip.ofBlock block) := by
  have hlast : (cells.putBlock block l1Slot state).lastBlockInDb = some block.header.blockId :=
    if_pos h
  refine ⟨hlast, ?_⟩
  have hread : (cells.putBlock block l1Slot state).getBlock block.header.blockId.val =
      some block := lookup_insert _
  rw [IndexerCells.validatedTip, hlast, bind_eq_bind, bind_some, hread]
  rfl

section

variable [Sha256] [Schnorr] [Builtins] [Receipts] [ImageId] [ClockBuiltin] [Serde Timestamp]
  {exec : Executor} {initial : V03State} {store store' : IndexerStore} {chain : List Block}

/-- An event happens.  A call that applies its block is recorded with the state it leaves. -/
def LoggedIndexer.happen (exec : Executor) (logged : LoggedIndexer) :
    IndexerEvent → Option LoggedIndexer
  | .accept block l1Slot => do
    let (store, outcome) ← (logged.store.acceptBlock exec block l1Slot).toOption
    some ⟨store, if outcome = .applied then
      logged.committed ++ [(block.header.blockId, store.currentState)] else logged.committed⟩
  | .reopen initialState => do
    let store ← (openDb exec logged.store.cells initialState).toOption
    some { logged with store }
  | .lose brId =>
    if brId ≠ 0 then
      some { logged with
        store := { logged.store with
          cells := { logged.store.cells with
            breakpoints := logged.store.cells.breakpoints.erase brId } } }
    else none

abbrev Happens (exec : Executor) (event : IndexerEvent) (before after : LoggedIndexer) : Prop :=
  before.happen exec event = some after

/-! ### Exact stores -/

/-- The store holds a chain that replays from the initial state to the state in memory, and its
breakpoints are states on the way. -/
structure Exact (exec : Executor) (initial : V03State) (chain : List Block)
    (store : IndexerStore) : Prop where
  replays : replay (advance exec) (none, initial) chain = some store.position
  stored : ∀ blockId, store.cells.getBlock blockId =
    if blockId = 0 then none else chain[blockId - 1]?.map Block.finalized
  last : store.cells.lastBlockInDb = chain.getLast?.map (·.header.blockId)
  genesis : store.cells.breakpoints.lookup 0 = some initial
  breakpoints : ∀ brId state, store.cells.breakpoints.lookup brId = some state →
    breakpointInterval * brId ≤ chain.length ∧ ∃ tip,
      replay (advance exec) (none, initial) (chain.take (breakpointInterval * brId)) =
        some (tip, state)

theorem Exact.lastBlockId (h : Exact exec initial chain store) :
    store.cells.lastBlockId = chain.length := by
  have hheight := height_of_replay h.replays
  have htip := tip_of_replay h.replays
  rw [IndexerCells.lastBlockId, h.last]
  cases hlast : chain.getLast? with
  | none =>
    rw [List.getLast?_eq_none_iff.mp hlast]
    rfl
  | some block =>
    rw [hlast] at htip
    rw [htip] at hheight
    have hid : block.header.blockId.val = 0 + chain.length := hheight
    show block.header.blockId.val = chain.length
    omega

/-! ### Replay from the store -/

/-- The blocks of a stretch of the chain are read. -/
theorem Exact.getBlockBatchSeq (h : Exact exec initial chain store) {start count : ℕ}
    (hle : start + count ≤ chain.length) :
    store.cells.getBlockBatchSeq (List.range' (start + 1) count) =
      ((chain.drop start).take count).map Block.finalized := by
  induction count generalizing start with
  | zero => rfl
  | succ count ih =>
    have hlt : start < chain.length := by omega
    have hread : store.cells.getBlock (start + 1) = some chain[start].finalized := by
      rw [h.stored, if_neg (Nat.succ_ne_zero start), Nat.add_sub_cancel, getElem?_eq_getElem hlt]
      rfl
    rw [List.range'_succ, IndexerCells.getBlockBatchSeq, hread, List.drop_eq_getElem_cons hlt,
      List.take_succ_cons, map_cons]
    show _ :: _ = _
    rw [ih (by omega)]

/-- Stored blocks are replayed as they were applied: the status of a block does not matter. -/
theorem replay_finalized {position position' : Position} {blocks : List Block}
    (h : replay (advance exec) position blocks = some position') :
    (blocks.map Block.finalized).foldlM
      (fun state block => applyBlockTransactions exec block state) position.2 =
        .ok position'.2 := by
  induction blocks generalizing position with
  | nil =>
    obtain rfl : position = position' := some.inj h
    rfl
  | cons block rest ih =>
    obtain ⟨next, hadvance, hrest⟩ := replay_cons_eq_some.mp h
    obtain ⟨state, happly, rfl⟩ := advance_eq_some.mp hadvance
    obtain ⟨_, -, happly⟩ := bind_eq_ok.mp happly
    have hreplayed : applyBlockTransactions exec block.finalized position.2 = .ok state :=
      applyBlockTransactions_of_applyBlockToState happly
    rw [map_cons]
    exact foldlM_cons_eq_ok.mpr ⟨state, hreplayed, ih hrest⟩

section

variable (h : Exact exec initial chain store)

include h

/-- The nearest breakpoint is at or below the one that was looked for. -/
theorem Exact.nearestBreakpoint (target : ℕ) :
    ∃ brId state, store.cells.nearestBreakpoint target = some (brId, state) ∧ brId ≤ target ∧
      store.cells.breakpoints.lookup brId = some state := by
  induction target with
  | zero => exact ⟨0, initial, by rw [IndexerCells.nearestBreakpoint, h.genesis]; rfl, le_rfl,
      h.genesis⟩
  | succ target ih =>
    rw [IndexerCells.nearestBreakpoint]
    cases hlookup : store.cells.breakpoints.lookup (target + 1) with
    | some state => exact ⟨target + 1, state, rfl, le_rfl, hlookup⟩
    | none =>
      obtain ⟨brId, state, hnearest, hle, hfound⟩ := ih
      exact ⟨brId, state, hnearest, by omega, hfound⟩

/-- **The state after any block of the chain is computed.** -/
theorem Exact.calculateStateForId {blockId : U64} (hle : blockId.val ≤ chain.length) :
    ∃ tip state, replay (advance exec) (none, initial) (chain.take blockId.val) =
        some (tip, state) ∧
      calculateStateForId exec store.cells blockId = .ok state := by
  obtain ⟨brId, low, hnearest, hbelow, hlookup⟩ :=
    h.nearestBreakpoint (closestBreakpointId blockId.val)
  obtain ⟨-, lowTip, hlow⟩ := h.breakpoints brId low hlookup
  -- the breakpoint is at or below the block
  have hstart : breakpointInterval * brId ≤ blockId.val := by
    have hdiv : breakpointInterval * closestBreakpointId blockId.val ≤ blockId.val - 1 :=
      Nat.mul_div_le _ _
    have hmul : breakpointInterval * brId ≤
        breakpointInterval * closestBreakpointId blockId.val := Nat.mul_le_mul_left _ hbelow
    omega
  obtain ⟨⟨tip, state⟩, hstate, -⟩ := replay_take h.replays blockId.val
  have hsplit : chain.take blockId.val = chain.take (breakpointInterval * brId) ++
      (chain.drop (breakpointInterval * brId)).take (blockId.val - breakpointInterval * brId) := by
    rw [← List.take_add]
    congr 1
    omega
  have hrest : replay (advance exec) (lowTip, low)
      ((chain.drop (breakpointInterval * brId)).take
        (blockId.val - breakpointInterval * brId)) = some (tip, state) := by
    rw [hsplit] at hstate
    obtain ⟨mid, hmid, hrest⟩ := replay_append_eq_some.mp hstate
    obtain rfl := some.inj (hlow.symm.trans hmid)
    exact hrest
  refine ⟨tip, state, hstate, ?_⟩
  refine ensure_bind_eq_ok.mpr ⟨by rw [h.lastBlockId]; exact hle, ?_⟩
  simp only [hnearest]
  rw [h.getBlockBatchSeq (by omega)]
  exact replay_finalized hrest

theorem Exact.finalState :
    finalState exec store.cells = .ok store.currentState := by
  have hid : (store.cells.lastBlockInDb.getD 0).val = chain.length := by
    rw [← h.lastBlockId, IndexerCells.lastBlockId]
    cases store.cells.lastBlockInDb <;> rfl
  obtain ⟨tip, state, hstate, hcalculated⟩ := h.calculateStateForId hid.le
  rw [hid, take_length, h.replays] at hstate
  rw [Lssa.finalState, hcalculated, ← (Prod.mk.inj (some.inj hstate)).2]

end

/-! ### What events keep -/

/-- A fresh store is exact. -/
theorem exact_of_fresh (h : openDb exec .empty initial = .ok store) :
    Exact exec initial [] store := by
  have hfresh : Exact exec initial [] ⟨IndexerCells.empty.openOrCreate initial, initial⟩ := by
    refine ⟨rfl, fun blockId => ?_, rfl, rfl, fun brId state hlookup => ?_⟩
    · show none = _
      split <;> rfl
    have hlookup : ((∅ : Map ℕ V03State).insert 0 initial).lookup brId = some state :=
      hlookup
    by_cases hzero : brId = 0
    · subst hzero
      rw [lookup_insert] at hlookup
      cases hlookup
      exact ⟨le_rfl, none, rfl⟩
    · rw [lookup_insert_ne hzero, AList.lookup_empty] at hlookup
      cases hlookup
  obtain ⟨state, hstate, h⟩ := bind_eq_ok.mp h
  obtain rfl := ok.inj (hfresh.finalState.symm.trans hstate)
  rw [← ok.inj h]
  exact hfresh

section

variable (h : Exact exec initial chain store)

include h

/-- The record of the stall and the cursor are not part of it. -/
theorem Exact.marked (stallReason : Option StallReason) (zoneCursor : Option Slot) :
    Exact exec initial chain { store with cells := { store.cells with stallReason, zoneCursor } } :=
  ⟨h.replays, h.stored, h.last, h.genesis, h.breakpoints⟩

/-- A block that is applied is put on top of the chain. -/
theorem Exact.applied {block : Block} (l1Slot : Slot) {state : V03State}
    (hadvance : advance exec store.position block = some (some (Tip.ofBlock block), state)) :
    Exact exec initial (chain ++ [block])
      { cells := { store.cells.putBlock block.finalized l1Slot state with stallReason := none }
        currentState := state } := by
  have hid : block.header.blockId.val = chain.length + 1 := by
    have hcontinues := (advance_continues hadvance).blockId
    have hheight := height_of_replay h.replays
    have hnone : height ((none, initial) : Position).1 = 0 := rfl
    omega
  have habove : store.cells.lastBlockId < block.finalized.header.blockId.val := by
    rw [h.lastBlockId]
    show chain.length < block.header.blockId.val
    omega
  obtain ⟨hlast, htip⟩ := putBlock_above l1Slot state habove
  have hreplays : replay (advance exec) (none, initial) (chain ++ [block]) =
      some (some (Tip.ofBlock block), state) :=
    replay_append_eq_some.mpr ⟨store.position, h.replays, by rw [replay_singleton, hadvance]⟩
  refine ⟨?_, fun blockId => ?_, ?_, ?_, fun brId snapshot hlookup => ?_⟩
  · rw [hreplays]
    exact congrArg some (Prod.ext htip.symm rfl)
  · show (store.cells.blocks.insert block.header.blockId.val block.finalized).lookup blockId = _
    rw [List.getElem?_append]
    by_cases hnew : blockId = block.header.blockId.val
    · rw [hnew, lookup_insert, hid]
      simp
    · rw [lookup_insert_ne hnew]
      refine (h.stored blockId).trans ?_
      split
      · rfl
      · split
        · rfl
        · have hpast : [block].length ≤ blockId - 1 - chain.length := by
            rw [length_singleton]
            omega
          rw [List.getElem?_eq_none hpast, List.getElem?_eq_none (by omega)]
  · rw [List.getLast?_concat]
    exact hlast
  · show (if block.header.blockId.val % breakpointInterval = 0 then _ else _ : Map ℕ
      V03State).lookup 0 = some initial
    split
    · have hne : 0 ≠ block.header.blockId.val / breakpointInterval := by
        rename_i hmod
        have hmul := Nat.div_add_mod block.header.blockId.val breakpointInterval
        intro hzero
        rw [← hzero, hmod] at hmul
        omega
      exact (lookup_insert_ne hne).trans h.genesis
    · exact h.genesis
  · -- a breakpoint is an old one, or the new one at the end of the chain
    have hcases : store.cells.breakpoints.lookup brId = some snapshot ∨
        breakpointInterval * brId = block.header.blockId.val ∧ snapshot = state := by
      have hlookup : (if block.header.blockId.val % breakpointInterval = 0 then
          store.cells.breakpoints.insert (block.header.blockId.val / breakpointInterval) state
        else store.cells.breakpoints).lookup brId = some snapshot := hlookup
      split at hlookup
      · rename_i hmod
        by_cases hbr : brId = block.header.blockId.val / breakpointInterval
        · rw [hbr, lookup_insert] at hlookup
          rw [hbr]
          exact .inr ⟨Nat.mul_div_cancel' (Nat.dvd_of_mod_eq_zero hmod), (some.inj hlookup).symm⟩
        · rw [lookup_insert_ne hbr] at hlookup
          exact .inl hlookup
      · exact .inl hlookup
    rw [length_append, length_singleton]
    rcases hcases with hold | ⟨hend, rfl⟩
    · obtain ⟨hle, tip, htake⟩ := h.breakpoints brId snapshot hold
      refine ⟨by omega, tip, ?_⟩
      rw [List.take_append_of_le_length hle]
      exact htake
    · refine ⟨by omega, some (Tip.ofBlock block), ?_⟩
      rw [take_of_length_le (by rw [length_append, length_singleton]; omega)]
      exact hreplays

/-- A breakpoint other than the first can be lost. -/
theorem Exact.lose {brId : ℕ} (hne : brId ≠ 0) :
    Exact exec initial chain
      { store with
        cells := { store.cells with breakpoints := store.cells.breakpoints.erase brId } } := by
  refine ⟨h.replays, h.stored, h.last, ?_, fun brId' state hlookup => ?_⟩
  · show (store.cells.breakpoints.erase brId).lookup 0 = some initial
    rw [AList.lookup_erase_ne hne.symm]
    exact h.genesis
  · have hlookup : (store.cells.breakpoints.erase brId).lookup brId' = some state := hlookup
    by_cases heq : brId' = brId
    · rw [heq, AList.lookup_erase] at hlookup
      cases hlookup
    · rw [AList.lookup_erase_ne heq] at hlookup
      exact h.breakpoints brId' state hlookup

/-- An exact store opens as it is. -/
theorem Exact.openDb (initialState : V03State) :
    openDb exec store.cells initialState = .ok store := by
  have hcells : store.cells.openOrCreate initialState = store.cells := by
    rw [IndexerCells.openOrCreate, h.genesis]
    rfl
  rw [IndexerStore.openDb, hcells]
  exact bind_eq_ok.mpr ⟨store.currentState, h.finalState, rfl⟩

end

/-! ### Whole histories -/

/-- The store is exact, and the states recorded are those along its chain. -/
structure Logs (exec : Executor) (initial : V03State) (chain : List Block)
    (logged : LoggedIndexer) : Prop where
  exact : Exact exec initial chain logged.store
  length : logged.committed.length = chain.length
  states : ∀ i entry, logged.committed[i]? = some entry →
    entry.1.val = i + 1 ∧ ∃ tip,
      replay (advance exec) (none, initial) (chain.take (i + 1)) = some (tip, entry.2)

/-- One event. -/
theorem Logs.happens {event : IndexerEvent} {before after : LoggedIndexer}
    (h : Logs exec initial chain before) (hevent : Happens exec event before after) :
    ∃ chain', Logs exec initial chain' after := by
  cases event with
  | accept block l1Slot =>
    obtain ⟨⟨store, outcome⟩, haccept, hevent⟩ := bind_eq_some_iff.mp hevent
    cases hevent
    cases acceptBlock_ok (toOption_eq_some.mp haccept) with
    | skipped stallReason hadvance hne =>
      rw [if_neg hne]
      exact ⟨chain, h.exact.marked stallReason _, h.length, h.states⟩
    | applied hadvance =>
      rename_i state
      have hexact := h.exact.applied l1Slot hadvance
      rw [if_pos rfl]
      refine ⟨chain ++ [block], hexact, ?_, fun i entry hi => ?_⟩
      · rw [length_append, length_append, h.length]
        rfl
      · rw [List.getElem?_append] at hi
        split at hi
        · rename_i hlt
          obtain ⟨hid, tip, htake⟩ := h.states i entry hi
          refine ⟨hid, tip, ?_⟩
          rw [List.take_append_of_le_length (h.length ▸ hlt)]
          exact htake
        · rename_i hge
          obtain rfl := mem_singleton.mp (mem_of_getElem? hi)
          have hlt := (getElem?_eq_some_iff.mp hi).1
          rw [length_singleton] at hlt
          have hlast := hexact.lastBlockId
          rw [length_append, length_singleton] at hlast
          have hcontinues := (advance_continues hadvance).blockId
          have hheight := height_of_replay h.exact.replays
          have hnone : height ((none, initial) : Position).1 = 0 := rfl
          have hlength := h.length
          obtain ⟨tip, htip⟩ : ∃ tip, replay (advance exec) (none, initial) (chain ++ [block]) =
              some (tip, state) := ⟨_, hexact.replays⟩
          refine ⟨?_, tip, ?_⟩
          · show block.header.blockId.val = i + 1
            omega
          · rw [take_of_length_le (by rw [length_append, length_singleton]; omega)]
            exact htip
  | reopen initialState =>
    obtain ⟨store, hopen, hevent⟩ := bind_eq_some_iff.mp hevent
    cases hevent
    obtain rfl := ok.inj ((h.exact.openDb initialState).symm.trans (toOption_eq_some.mp hopen))
    exact ⟨chain, h⟩
  | lose brId =>
    obtain ⟨hne, hevent⟩ := ite_none_right_eq_some.mp hevent
    cases hevent
    exact ⟨chain, h.exact.lose hne, h.length, h.states⟩

/-- **Indexer history is exact.**  Open a fresh store and let anything happen to the indexer: any
blocks are given to it, any breakpoints but the first are lost, and it is started again any number
of times.  Then for every id up to that of the last block the state is computed, and it is the state
that was committed when that block was applied, or the initial state for 0; above, there is none;
and starting again gives the indexer as it is. -/
theorem history_exact {start : IndexerStore} {events : List IndexerEvent}
    {committed : List (U64 × V03State)}
    (hstart : openDb exec .empty initial = .ok start)
    (hrun : Run (Happens exec) ⟨start, []⟩ events ⟨store, committed⟩) :
    calculateStateForId exec store.cells 0 = .ok initial ∧
      (∀ blockId : U64, blockId ≠ 0 → blockId.val ≤ store.cells.lastBlockId →
        ∃ state, (blockId, state) ∈ committed ∧
          calculateStateForId exec store.cells blockId = .ok state) ∧
      (∀ blockId state, (blockId, state) ∈ committed →
        blockId.val ≤ store.cells.lastBlockId ∧
          calculateStateForId exec store.cells blockId = .ok state) ∧
      (∀ blockId : U64, store.cells.lastBlockId < blockId.val →
        calculateStateForId exec store.cells blockId =
          .error (.interaction "Block on this id not found")) ∧
      ∀ initialState, openDb exec store.cells initialState = .ok store := by
  obtain ⟨chain, hlogs⟩ := hrun.invariant
    (P := fun logged => ∃ chain, Logs exec initial chain logged)
    (fun _ _ _ _ hevent ⟨_, hlogs⟩ => hlogs.happens hevent)
    ⟨[], exact_of_fresh hstart, rfl, fun i entry hi => absurd hi (by simp)⟩
  have hexact := hlogs.exact
  have hlast : store.cells.lastBlockId = chain.length := hexact.lastBlockId
  -- a state that was committed is computed
  have hcommitted : ∀ (blockId : U64) (i : ℕ) (entry : U64 × V03State),
      committed[i]? = some entry → blockId.val = i + 1 → entry.1 = blockId ∧
        calculateStateForId exec store.cells blockId = .ok entry.2 := by
    intro blockId i entry hi hid
    obtain ⟨hentry, tip, htake⟩ := hlogs.states i entry hi
    have hlt := (getElem?_eq_some_iff.mp hi).1
    have hlength : committed.length = chain.length := hlogs.length
    have hle : blockId.val ≤ chain.length := by omega
    obtain ⟨tip', state, htake', hcalculated⟩ := hexact.calculateStateForId hle
    rw [hid, htake] at htake'
    refine ⟨Fin.ext (hentry.trans hid.symm), ?_⟩
    rw [hcalculated, (Prod.mk.inj (some.inj htake')).2]
  refine ⟨?_, fun blockId hne hle => ?_, fun blockId state hmem => ?_, fun blockId hlt => ?_,
    hexact.openDb⟩
  · have hzero : (0 : U64).val ≤ chain.length := Nat.zero_le _
    obtain ⟨tip, state, htake, hcalculated⟩ := hexact.calculateStateForId hzero
    obtain ⟨-, rfl⟩ := Prod.mk.inj (some.inj htake)
    exact hcalculated
  · have hpos : blockId.val ≠ 0 := fun hzero => hne (Fin.ext hzero)
    have hlength : committed.length = chain.length := hlogs.length
    have hlt : blockId.val - 1 < committed.length := by omega
    obtain ⟨entry, hat⟩ : ∃ entry, committed[blockId.val - 1]? = some entry :=
      ⟨_, getElem?_eq_getElem hlt⟩
    obtain ⟨hid, hcalculated⟩ := hcommitted blockId (blockId.val - 1) entry hat (by omega)
    refine ⟨entry.2, ?_, hcalculated⟩
    rw [← hid]
    exact mem_of_getElem? hat
  · obtain ⟨i, hi⟩ := mem_iff_getElem?.mp hmem
    have hid : blockId.val = i + 1 := (hlogs.states i _ hi).1
    have hlt := (getElem?_eq_some_iff.mp hi).1
    have hlength : committed.length = chain.length := hlogs.length
    refine ⟨by omega, ?_⟩
    exact (hcommitted blockId i _ hi hid).2
  · unfold calculateStateForId
    rw [ensure, if_neg (not_le.mpr hlt)]
    rfl

end

/-! ### A history of one fork -/

section

open Idle Fork

/-- The second block comes before the genesis block and is parked; after a restart its rival is
applied, the second block comes again, and so does the genesis block; a breakpoint that is not there
is lost, and the indexer is started again. -/
def Fork.indexerEvents : List IndexerEvent :=
  [ .accept second 1,
    .accept genesis 1,
    .reopen state,
    .accept rival 2,
    .accept second 3,
    .accept genesis 3,
    .lose 1,
    .reopen state ]

theorem fork_history_exact :
    ∃ start store committed,
      openDb exec .empty Fork.state = .ok start ∧
      Run (Happens exec) ⟨start, []⟩ indexerEvents ⟨store, committed⟩ ∧
      committed.map Prod.fst = [1, 2] ∧
      ∃ state, (2, state) ∈ committed ∧ calculateStateForId exec store.cells 2 = .ok state := by
  obtain ⟨start, hstart, ⟨store, committed⟩, hfold, hids, hlast⟩ :
      ∃ start, openDb exec .empty Fork.state = .ok start ∧
        ∃ logged, indexerEvents.foldlM (LoggedIndexer.happen exec) ⟨start, []⟩
            = some logged ∧
          logged.committed.map Prod.fst = [1, 2] ∧ logged.store.cells.lastBlockId = 2 := by
    decide +kernel
  have hrun := Run.of_foldlM (fun _ _ _ h => h) hfold
  exact ⟨start, store, committed, hstart, hrun, hids,
    (history_exact hstart hrun).2.1 2 (by decide) hlast.ge⟩

end

end Lssa
