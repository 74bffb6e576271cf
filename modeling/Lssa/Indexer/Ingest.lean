/-
The ingest loop of an indexer (`lez/indexer/core/src/lib.rs`, `retry.rs`).

The indexer reads the finalized channel of its zone in passes.  A pass begins after the slot of the
cursor, and the cursor moves onto a slot once all of it has been handled.  A pass may end early: the
store fails, a block fails to apply for now, or a peer is behind.  The next pass then reads the slot
in progress again, and so does the first one after a restart, or slots before it if the cursor was
not written.

A block that was passed over is then read again on a later tip.  So what is applied depends on where
passes end, unless no block fits a tip that comes after it.

* `ingest_ok`, `Cursors.step` — what handling a message does, and where the cursor is;
* **`ingestion_is_fold`** — every slot below the cursor was handled, and a channel in which no block
  fits later is read like a list.
-/
import Lssa.Indexer.History
import Lssa.Indexer.Verifier
import Mathlib.Data.List.TakeWhile

open Outcome Reading Runs TwoTier

namespace Lssa

open CrossZoneInbox (ZoneId)
open Verifier (CrossZoneVerifier CrossZoneVerifyError SeenKey verifyBlock)
open Watcher (ZoneMessage blocksOf)

/-- `APPLY_RETRY_LIMIT`. -/
def applyRetryLimit : ℕ := 3

/-- The block that fails to apply, and how often it did in a row. -/
structure ApplyRetryGate where
  failing : Option (U64 × ℕ)

/-- `register_failure`. -/
def ApplyRetryGate.registerFailure (gate : ApplyRetryGate) (blockId : U64) : ℕ × ApplyRetryGate :=
  let attempts := match gate.failing with
    | some (id, attempts) => if id = blockId then attempts + 1 else 1
    | none => 1
  (attempts, ⟨some (blockId, attempts)⟩)

/-- Where the loop is: before a pass, in one at a message of the channel, or at its end. -/
inductive IngestPhase
  | polling
  | reading (next : ℕ) (inProgress : Option Slot)
  | halted
  deriving DecidableEq

/-- A running indexer, with the places of the messages that were handled so far, which no function
reads. -/
structure IndexerCore where
  store : IndexerStore
  cursor : Option Slot
  retryGate : ApplyRetryGate
  verifier : Option CrossZoneVerifier
  phase : IngestPhase
  handled : Finset ℕ

/-- What happens around a message: which writes fail, what the decoder says, and what is read from
the peers before each look at them. -/
structure Turn where
  cursorLost : Bool
  acceptFails : Bool
  recordFails : Bool
  reason : String
  arrived : ℕ → List (ZoneId × Block)

/-- How the loop goes on after a message. -/
inductive Flow
  | next
  | hold
  | halt
  deriving DecidableEq

/-- Where the loop is after the message at a place. -/
def Flow.phase (next : ℕ) (slot : Slot) : Flow → IngestPhase
  | .next => .reading (next + 1) (some slot)
  | .hold => .polling
  | .halt => .halted

inductive IngestEvent
  | poll
  | message (turn : Turn)
  | drain (cursorLost : Bool)
  | restart (initialState : V03State)

/-- Where the stream resumes: after the slot of the cursor. -/
def resumeAt (channel : List (ZoneMessage × Slot)) (cursor : Option Slot) : ℕ :=
  (channel.takeWhile fun entry => cursor.any (decide <| entry.2 ≤ ·)).length

/-- `advance_cursor`: a cursor that could not be written is only logged. -/
def IndexerCore.advanceCursor (core : IndexerCore) (slot : Slot) (lost : Bool) : IndexerCore :=
  { core with
    cursor := some slot
    store :=
      { core.store with
        cells :=
          { core.store.cells with
            zoneCursor := if lost then core.store.cells.zoneCursor else some slot } } }

/-- `SlotProgress::enter`: a message of another slot completes the one in progress. -/
def IndexerCore.enter (core : IndexerCore) (inProgress : Option Slot) (slot : Slot) (lost : Bool) :
    IndexerCore :=
  match inProgress with
  | none => core
  | some done => if done = slot then core else core.advanceCursor done lost

/-- The end of a pass that has drained. -/
def IndexerCore.stepDrain (channel : List (ZoneMessage × Slot)) (core : IndexerCore)
    (cursorLost : Bool) : Option IndexerCore :=
  match core.phase with
  | .reading next inProgress =>
    if channel.length ≤ next then
      let core := inProgress.elim core fun done => core.advanceCursor done cursorLost
      some { core with phase := .polling }
    else none
  | _ => none

theorem stepDrain_eq_some {channel : List (ZoneMessage × Slot)} {core core' : IndexerCore}
    {cursorLost : Bool} (h : core.stepDrain channel cursorLost = some core') :
    ∃ next inProgress, core.phase = .reading next inProgress ∧ channel.length ≤ next ∧
      core' = { inProgress.elim core fun done => core.advanceCursor done cursorLost with
        phase := .polling } := by
  unfold IndexerCore.stepDrain at h
  split at h
  · rename_i next inProgress hphase
    obtain ⟨hend, h⟩ := ite_none_right_eq_some.mp h
    exact ⟨next, inProgress, hphase, hend, (some.inj h).symm⟩
  · cases h

theorem IndexerCore.enter_eq (core : IndexerCore) (inProgress : Option Slot) (slot : Slot)
    (lost : Bool) : ∃ cursor zoneCursor, core.enter inProgress slot lost =
      { core with
        cursor
        store := { core.store with cells := { core.store.cells with zoneCursor } } } := by
  unfold enter
  split
  · exact ⟨_, _, rfl⟩
  · split
    · exact ⟨_, _, rfl⟩
    · exact ⟨_, _, rfl⟩

/-! ### The cursor in a pass -/

/-- Every message up to the cursor was handled, as it is in memory and as it is written, and so was
every message that the pass has read; the slot in progress is that of one of them. -/
structure Cursors (channel : List (ZoneMessage × Slot)) (core : IndexerCore) : Prop where
  cursor : ∀ i entry, channel[i]? = some entry → (∃ last ∈ core.cursor, entry.2 ≤ last) →
    i ∈ core.handled
  floor : ∀ i entry, channel[i]? = some entry →
    (∃ last ∈ core.store.cells.zoneCursor, entry.2 ≤ last) → i ∈ core.handled
  reading : ∀ next inProgress, core.phase = .reading next inProgress →
    (∀ i < next, i ∈ core.handled) ∧
      ∀ done ∈ inProgress, ∃ i entry, i < next ∧ channel[i]? = some entry ∧ entry.2 = done

namespace Cursors

variable {channel : List (ZoneMessage × Slot)} {core core' : IndexerCore} {next : ℕ}
  {inProgress : Option Slot} {message : ZoneMessage} {slot done : Slot}

/-- A slot is handled whole when the next message is not of it. -/
theorem whole (hsorted : channel.Pairwise fun a b => a.2 ≤ b.2) (h : Cursors channel core)
    (hphase : core.phase = .reading next (some done))
    (hnext : ∀ entry, channel[next]? = some entry → entry.2 ≠ done) {i : ℕ}
    {entry : ZoneMessage × Slot} (hi : channel[i]? = some entry) (hle : entry.2 ≤ done) :
    i ∈ core.handled := by
  obtain ⟨hread, hdone⟩ := h.reading next _ hphase
  by_cases hlt : i < next
  · exact hread i hlt
  -- the next message is of a later slot, and so are all after it
  · exfalso
    obtain ⟨j, first, hj, hfirst, heq⟩ := hdone done rfl
    have hmono : ∀ {a b : ℕ} {x y : ZoneMessage × Slot}, a ≤ b → channel[a]? = some x →
        channel[b]? = some y → x.2 ≤ y.2 := by
      intro a b x y hab hx hy
      obtain ⟨ha, rfl⟩ := getElem?_eq_some_iff.mp hx
      obtain ⟨hb, rfl⟩ := getElem?_eq_some_iff.mp hy
      rcases hab.eq_or_lt with rfl | hab
      · exact le_rfl
      · exact List.pairwise_iff_getElem.mp hsorted a b ha hb hab
    have hlength := (getElem?_eq_some_iff.mp hi).1
    have hat := getElem?_eq_getElem (show next < channel.length by omega)
    have hlater : done ≤ channel[next].2 := heq ▸ hmono hj.le hfirst hat
    have hsooner := (hmono (not_lt.mp hlt) hat hi).trans hle
    exact hnext _ hat (le_antisymm hsooner hlater)

theorem advanceCursor (h : Cursors channel core) (lost : Bool)
    (hwhole : ∀ i entry, channel[i]? = some entry → entry.2 ≤ done → i ∈ core.handled) :
    Cursors channel (core.advanceCursor done lost) := by
  refine ⟨fun i entry hi hle => ?_, fun i entry hi hle => ?_, h.reading⟩
  · obtain ⟨last, hlast, hle⟩ := hle
    exact hwhole i entry hi (some.inj hlast ▸ hle)
  · obtain ⟨last, hlast, hle⟩ := hle
    have hlast : (if lost then core.store.cells.zoneCursor else some done) = some last := hlast
    split at hlast
    · exact h.floor i entry hi ⟨last, hlast, hle⟩
    · exact hwhole i entry hi (some.inj hlast ▸ hle)

theorem enter (hsorted : channel.Pairwise fun a b => a.2 ≤ b.2) (h : Cursors channel core)
    (hphase : core.phase = .reading next inProgress) (hat : channel[next]? = some (message, slot))
    (lost : Bool) : Cursors channel (core.enter inProgress slot lost) := by
  unfold IndexerCore.enter
  split
  · exact h
  · split
    · exact h
    · rename_i hne
      refine h.advanceCursor lost fun i entry => h.whole hsorted hphase fun entry hentry heq => ?_
      rw [← some.inj (hat.symm.trans hentry)] at heq
      exact hne heq.symm

/-- Moving on with more messages handled. -/
theorem mono (h : Cursors channel core) (hcursor : core'.cursor = core.cursor)
    (hfloor : core'.store.cells.zoneCursor = core.store.cells.zoneCursor)
    (hhandled : core.handled ⊆ core'.handled)
    (hreading : ∀ next inProgress, core'.phase = .reading next inProgress →
      (∀ i < next, i ∈ core'.handled) ∧
        ∀ done ∈ inProgress, ∃ i entry, i < next ∧ channel[i]? = some entry ∧ entry.2 = done) :
    Cursors channel core' := by
  refine ⟨fun i entry hi hle => hhandled ?_, fun i entry hi hle => hhandled ?_, hreading⟩
  · rw [hcursor] at hle
    exact h.cursor i entry hi hle
  · rw [hfloor] at hle
    exact h.floor i entry hi hle

end Cursors

section

variable [Sha256] [Schnorr] [Builtins] [Receipts] [ImageId] [ClockBuiltin] [Serde Timestamp]
  [Emitters] [Serde CrossZoneInbox.Instruction] [Serde Ping.SenderInstruction]
  [Serde BridgeLock.Instruction] [BlockBorsh]

namespace IndexerCore

/-- The keys verified, and the looks made at the peers. -/
def verify (core : IndexerCore) (turn : Turn) (block : Block) :
    Except CrossZoneVerifyError (List SeenKey × ℕ) :=
  match core.verifier with
  | none => .ok ([], 0)
  | some verifier =>
    verifyBlock verifier (fun look => verifier.peersAfter turn.arrived (look + 1)) block

/-- The body of the loop, for a block. -/
def ingestBlock (exec : Executor) (core : IndexerCore) (turn : Turn) (block : Block) (slot : Slot) :
    Except ApplyPanic (IndexerCore × Flow) :=
  match core.verify turn block with
  | .error (.forged _) => .ok (core, .halt)
  | .error (.peerUnavailable _ _ _) => .ok (core, .hold)
  | .ok (verifiedKeys, looks) =>
    if turn.acceptFails then .ok (core, .hold)
    else do
      let (store, outcome) ← core.store.acceptBlock exec block slot
      let core := { core with
        store
        verifier := core.verifier.map fun verifier =>
          { verifier with peers := verifier.peersAfter turn.arrived looks } }
      match outcome with
      | .applied =>
        pure ({ core with
          verifier := core.verifier.map (·.recordSeen verifiedKeys)
          retryGate := ⟨none⟩ }, .next)
      | .retryableFailure error =>
        let (attempts, retryGate) := core.retryGate.registerFailure block.header.blockId
        if attempts < applyRetryLimit ∨ turn.recordFails then pure ({ core with retryGate }, .hold)
        else
          let cells := core.store.cells.recordStall (some block.header) slot error
          pure ({ core with store := { core.store with cells }, retryGate := ⟨none⟩ }, .next)
      | _ => pure (core, .next)

/-- The body of the loop. -/
def ingest (exec : Executor) (core : IndexerCore) (turn : Turn) (message : ZoneMessage)
    (slot : Slot) : Except ApplyPanic (IndexerCore × Flow) :=
  match message with
  | .block data =>
    match BlockBorsh.fromSlice data with
    | some block => core.ingestBlock exec turn block slot
    | none =>
      -- `park_undeserializable`
      if turn.recordFails then .ok (core, .hold)
      else
        let cells := core.store.cells.recordStall none slot (.deserialize turn.reason)
        .ok ({ core with store := { core.store with cells } }, .next)
  | _ => .ok (core, .next)

/-- A round of the loop, at a message of the channel. -/
def stepMessage (exec : Executor) (channel : List (ZoneMessage × Slot)) (core : IndexerCore)
    (turn : Turn) : Option IndexerCore :=
  match core.phase with
  | .reading next inProgress => do
    let (message, slot) ← channel[next]?
    let entered := core.enter inProgress slot turn.cursorLost
    let (core, flow) ← (entered.ingest exec turn message slot).toOption
    some { core with
      phase := flow.phase next slot
      handled := if flow = .next then insert next core.handled else core.handled }
  | _ => none

/-- `subscribe_parse_block_stream`, one event.  A panic is no event: only a restart follows. -/
def step (exec : Executor) (channel : List (ZoneMessage × Slot)) (core : IndexerCore) :
    IngestEvent → Option IndexerCore
  | .poll =>
    if core.phase = .polling then
      some { core with phase := .reading (resumeAt channel core.cursor) none }
    else none
  | .message turn => core.stepMessage exec channel turn
  | .drain cursorLost => core.stepDrain channel cursorLost
  | .restart initialState => do
    let store ← (IndexerStore.openDb exec core.store.cells initialState).toOption
    some { core with
      store
      cursor := store.cells.zoneCursor
      retryGate := ⟨none⟩
      verifier := core.verifier.map fun verifier => { verifier with peers := ∅, seen := ∅ }
      phase := .polling }

/-- An indexer that starts. -/
def start (store : IndexerStore) (verifier : Option CrossZoneVerifier) : IndexerCore :=
  ⟨store, store.cells.zoneCursor, ⟨none⟩, verifier, .polling, ∅⟩

end IndexerCore

/-- The events of a history, one after the other. -/
abbrev Ingests (exec : Executor) (channel : List (ZoneMessage × Slot)) (event : IngestEvent)
    (before after : IndexerCore) : Prop :=
  before.step exec channel event = some after

/-! ### Handling a message -/

variable {exec : Executor} {channel : List (ZoneMessage × Slot)} {core core' : IndexerCore}
  {turn : Turn} {message : ZoneMessage} {slot : Slot} {flow : Flow} {initial : V03State}

/-- What becomes of the store: the block is applied, or nothing changes but the record of the stall,
and the loop goes on to the next message only if the block does not fit. -/
inductive Ingested (exec : Executor) (core : IndexerCore) (message : ZoneMessage) (slot : Slot)
    (store : IndexerStore) : Flow → Prop
  | applied {block : Block} {state : V03State} (decodes : message.decode = some block)
      (advances : advance exec core.store.position block = some (some (Tip.ofBlock block), state))
      (stored : store =
        { cells := { core.store.cells.putBlock block.finalized slot state with stallReason := none }
          currentState := state }) :
      Ingested exec core message slot store .next
  | passed {flow : Flow} (stallReason : Option StallReason)
      (passes : flow = .next → ∀ block ∈ message.decode,
        advance exec core.store.position block = none)
      (stored : store = { core.store with cells := { core.store.cells with stallReason } }) :
      Ingested exec core message slot store flow

/-- **What handling a message can do.** -/
theorem ingest_ok (h : core.ingest exec turn message slot = .ok (core', flow)) :
    core'.cursor = core.cursor ∧ core'.handled = core.handled ∧
      Ingested exec core message slot core'.store flow := by
  unfold IndexerCore.ingest at h
  split at h
  · rename_i data
    split at h
    · rename_i block hdecode
      unfold IndexerCore.ingestBlock at h
      split at h
      · cases h
        exact ⟨rfl, rfl, .passed _ (by simp) rfl⟩
      · cases h
        exact ⟨rfl, rfl, .passed _ (by simp) rfl⟩
      · split at h
        · cases h
          exact ⟨rfl, rfl, .passed _ (by simp) rfl⟩
        · obtain ⟨⟨store, outcome⟩, haccept, h⟩ := bind_eq_ok.mp h
          cases IndexerStore.acceptBlock_ok haccept with
          | applied hadvance =>
            cases h
            exact ⟨rfl, rfl, .applied hdecode hadvance rfl⟩
          | skipped stallReason hnone hne =>
            have hpasses : ∀ b ∈ (ZoneMessage.block data).decode,
                advance exec core.store.position b = none := by
              intro b hb
              rwa [← some.inj (hdecode.symm.trans hb)]
            cases outcome with
            | applied => exact absurd rfl hne
            | alreadyApplied =>
              cases h
              exact ⟨rfl, rfl, .passed _ (fun _ => hpasses) rfl⟩
            | parked error =>
              cases h
              exact ⟨rfl, rfl, .passed _ (fun _ => hpasses) rfl⟩
            | retryableFailure error =>
              dsimp only at h
              split at h
              · cases h
                exact ⟨rfl, rfl, .passed _ (by simp) rfl⟩
              · cases h
                exact ⟨rfl, rfl, .passed _ (fun _ => hpasses) rfl⟩
    · rename_i hdecode
      split at h
      · cases h
        exact ⟨rfl, rfl, .passed _ (by simp) rfl⟩
      · cases h
        exact ⟨rfl, rfl, .passed _ (by simp [ZoneMessage.decode, hdecode]) rfl⟩
  · rename_i hother
    cases h
    refine ⟨rfl, rfl, .passed _ (fun _ block hblock => ?_) rfl⟩
    cases message with
    | block data => exact absurd rfl (hother data)
    | deposit | withdraw => exact absurd hblock (by simp [ZoneMessage.decode])

theorem stepMessage_eq_some (h : core.stepMessage exec channel turn = some core') :
    ∃ next inProgress message slot mid flow, core.phase = .reading next inProgress ∧
      channel[next]? = some (message, slot) ∧
      (core.enter inProgress slot turn.cursorLost).ingest exec turn message slot = .ok (mid, flow) ∧
      core' = { mid with
        phase := flow.phase next slot
        handled := if flow = .next then insert next mid.handled else mid.handled } := by
  unfold IndexerCore.stepMessage at h
  split at h
  · rename_i next inProgress hphase
    obtain ⟨⟨message, slot⟩, hat, h⟩ := bind_eq_some_iff.mp h
    obtain ⟨⟨mid, flow⟩, hingest, h⟩ := bind_eq_some_iff.mp h
    exact ⟨next, inProgress, message, slot, mid, flow, hphase, hat, toOption_eq_some.mp hingest,
      (some.inj h).symm⟩
  · cases h

/-! ### The cursor -/

omit [Emitters] [Serde CrossZoneInbox.Instruction] [Serde Ping.SenderInstruction]
  [Serde BridgeLock.Instruction] in
theorem Ingested.zoneCursor {store : IndexerStore}
    (h : Ingested exec core message slot store flow) :
    store.cells.zoneCursor = core.store.cells.zoneCursor := by
  cases h with
  | applied _ _ stored => rw [stored]; rfl
  | passed _ _ stored => rw [stored]

/-- **One event.** -/
theorem Cursors.step {event : IngestEvent} (hsorted : channel.Pairwise fun a b => a.2 ≤ b.2)
    (h : Cursors channel core) (hstep : Ingests exec channel event core core') :
    Cursors channel core' := by
  cases event with
  | poll =>
    obtain ⟨-, hstep⟩ := ite_none_right_eq_some.mp hstep
    cases hstep
    refine h.mono rfl rfl (Finset.Subset.refl _) fun next inProgress hphase => ?_
    obtain ⟨rfl, rfl⟩ := IngestPhase.reading.inj hphase
    refine ⟨fun i hi => ?_, by simp⟩
    have hat := List.prefix_iff_getElem?.mp (List.takeWhile_prefix (l := channel)
      fun entry => core.cursor.any (decide <| entry.2 ≤ ·)) i hi
    have hmem := List.mem_takeWhile_imp (List.getElem_mem hi)
    obtain ⟨last, hlast, hle⟩ := (any_eq_true _ _).mp hmem
    exact h.cursor i _ hat ⟨last, hlast, of_decide_eq_true hle⟩
  | message turn =>
    obtain ⟨next, inProgress, message, slot, mid, flow, hphase, hat, hingest, rfl⟩ :=
      stepMessage_eq_some hstep
    have hentered := h.enter hsorted hphase hat turn.cursorLost
    obtain ⟨hcursor, hhandled, hingested⟩ := ingest_ok hingest
    refine hentered.mono hcursor hingested.zoneCursor ?_ fun next' inProgress' hphase' => ?_
    · rw [← hhandled]
      dsimp only
      split
      · exact Finset.subset_insert _ _
      · exact Finset.Subset.refl _
    · cases flow with
      | hold => exact absurd hphase' (by simp [Flow.phase])
      | halt => exact absurd hphase' (by simp [Flow.phase])
      | next =>
        obtain ⟨rfl, rfl⟩ := IngestPhase.reading.inj hphase'
        refine ⟨fun i hi => ?_, fun done hdone => ?_⟩
        · obtain ⟨_, _, heq⟩ := core.enter_eq inProgress slot turn.cursorLost
          show i ∈ insert next mid.handled
          rw [hhandled, heq, Finset.mem_insert]
          rcases Nat.lt_succ_iff_lt_or_eq.mp hi with hlt | rfl
          · exact .inr ((h.reading next _ hphase).1 i hlt)
          · exact .inl rfl
        · exact ⟨next, (message, slot), Nat.lt_succ_self next, hat, some.inj hdone⟩
  | drain cursorLost =>
    obtain ⟨next, inProgress, hphase, hend, rfl⟩ := stepDrain_eq_some hstep
    cases inProgress with
    | none => exact h.mono rfl rfl (Finset.Subset.refl _) (by simp)
    | some done =>
      have hnone : channel[next]? = none := List.getElem?_eq_none hend
      have hwhole := h.advanceCursor cursorLost fun i entry =>
        h.whole hsorted hphase (by simp [hnone])
      exact hwhole.mono rfl rfl (Finset.Subset.refl _) (by simp)
  | restart initialState =>
    obtain ⟨store, hopen, hstep⟩ := bind_eq_some_iff.mp hstep
    cases hstep
    obtain ⟨state, -, hopen⟩ := bind_eq_ok.mp (toOption_eq_some.mp hopen)
    have hfloor : store.cells.zoneCursor = core.store.cells.zoneCursor := by
      rw [← ok.inj hopen]
      show (core.store.cells.openOrCreate initialState).zoneCursor = _
      unfold IndexerCells.openOrCreate
      split <;> rfl
    refine ⟨fun i entry hi hle => ?_, fun i entry hi hle => ?_, by simp⟩
    · exact h.floor i entry hi (hfloor ▸ hle)
    · exact h.floor i entry hi (hfloor ▸ hle)

/-! ### The chain -/

/-- The blocks applied when the first messages of the channel are read once, in order. -/
def chainAt (exec : Executor) (initial : V03State) (channel : List (ZoneMessage × Slot)) (n : ℕ) :
    List Block :=
  taken (advance exec) (none, initial) (blocksOf (channel.take n))

/-- Where they lead. -/
def positionAt (exec : Executor) (initial : V03State) (channel : List (ZoneMessage × Slot))
    (n : ℕ) : Position :=
  reached (advance exec) (none, initial) (blocksOf (channel.take n))

/-- A block that fits a position after it was read is the next block of the chain in any case. -/
def Settled (exec : Executor) (initial : V03State) (channel : List (ZoneMessage × Slot)) : Prop :=
  ∀ n, ∀ block ∈ blocksOf (channel.take n),
    (advance exec (positionAt exec initial channel n) block).isSome →
      ∃ m, chainAt exec initial channel m = chainAt exec initial channel n ++ [block]

section

omit [Emitters] [Serde CrossZoneInbox.Instruction] [Serde Ping.SenderInstruction]
  [Serde BridgeLock.Instruction]

variable {n m : ℕ}

theorem chainAt_succ (hat : channel[n]? = some (message, slot)) :
    chainAt exec initial channel (n + 1) = chainAt exec initial channel n ++
      taken (advance exec) (positionAt exec initial channel n) message.decode.toList := by
  have hblocks : blocksOf (channel.take (n + 1)) =
      blocksOf (channel.take n) ++ message.decode.toList := by
    rw [List.take_add_one, hat, blocksOf, List.filterMap_append]
    cases hdecode : message.decode <;> simp [blocksOf, hdecode]
  rw [chainAt, hblocks, taken_append]
  rfl

theorem chainAt_length_mono (exec : Executor) (initial : V03State)
    (channel : List (ZoneMessage × Slot)) (hle : n ≤ m) :
    (chainAt exec initial channel n).length ≤ (chainAt exec initial channel m).length := by
  obtain ⟨rest, hrest⟩ := List.take_prefix_take_left (l := channel) hle
  have hblocks : blocksOf (channel.take m) = blocksOf (channel.take n) ++ blocksOf rest := by
    rw [← hrest]
    exact List.filterMap_append
  rw [chainAt, chainAt, hblocks, taken_append, length_append]
  exact Nat.le_add_right _ _

theorem Exact.position_eq {store : IndexerStore}
    (h : Exact exec initial (chainAt exec initial channel n) store) :
    store.position = positionAt exec initial channel n :=
  some.inj (h.replays.symm.trans (replay_taken _ _))

/-- The store is that of a reader who has read all that was handled, and perhaps more, once. -/
def Caught (exec : Executor) (initial : V03State) (channel : List (ZoneMessage × Slot))
    (core : IndexerCore) : Prop :=
  ∃ n, (∀ i ∈ core.handled, i < n) ∧ Exact exec initial (chainAt exec initial channel n) core.store

/-- A message is handled.  If it was read before, its block leads where the chain goes. -/
theorem Caught.handle {next : ℕ} {inProgress : Option Slot} {lost : Bool} {store : IndexerStore}
    (hsettled : Settled exec initial channel) (hcursors : Cursors channel core)
    (h : Caught exec initial channel core) (hphase : core.phase = .reading next inProgress)
    (hat : channel[next]? = some (message, slot))
    (hingested : Ingested exec (core.enter inProgress slot lost) message slot store flow) :
    ∃ n, (∀ i ∈ if flow = .next then insert next core.handled else core.handled, i < n) ∧
      Exact exec initial (chainAt exec initial channel n) store := by
  obtain ⟨n, hn, hexact⟩ := h
  have hle : next ≤ n := by
    by_contra hlt
    exact absurd (hn n ((hcursors.reading next _ hphase).1 n (not_le.mp hlt))) (lt_irrefl n)
  have hexact : Exact exec initial (chainAt exec initial channel n)
      (core.enter inProgress slot lost).store := by
    obtain ⟨_, zoneCursor, heq⟩ := core.enter_eq inProgress slot lost
    rw [heq]
    exact hexact.marked _ zoneCursor
  have hposition := hexact.position_eq
  have hinsert : ∀ k, n ≤ k → next < k →
      ∀ i ∈ if flow = .next then insert next core.handled else core.handled, i < k := by
    intro k hnk hnext i hi
    split at hi
    · rcases Finset.mem_insert.mp hi with rfl | hi
      · exact hnext
      · exact (hn i hi).trans_le hnk
    · exact (hn i hi).trans_le hnk
  cases hingested with
  | applied decodes advances stored =>
    rename_i block state
    have happlied := hexact.applied slot advances
    rw [← stored] at happlied
    rw [hposition] at advances
    rcases hle.eq_or_lt with rfl | hlt
    · -- the block is read for the first time
      refine ⟨next + 1, hinsert _ (Nat.le_succ _) (Nat.lt_succ_self _), ?_⟩
      rw [chainAt_succ hat, decodes, Option.toList_some, taken_cons_of_some advances]
      exact happlied
    · have hmem : block ∈ blocksOf (channel.take n) := by
        refine mem_filterMap.mpr ⟨(message, slot), ?_, decodes⟩
        exact mem_of_getElem? ((List.getElem?_take_of_lt hlt).trans hat)
      obtain ⟨m, hm⟩ := hsettled n block hmem (by rw [advances]; rfl)
      have hnm : n < m := by
        by_contra hmn
        have hlength := chainAt_length_mono exec initial channel (not_lt.mp hmn)
        rw [hm, length_append, length_singleton] at hlength
        omega
      refine ⟨m, hinsert m hnm.le (hlt.trans hnm), ?_⟩
      rw [hm]
      exact happlied
  | passed stallReason passes stored =>
    have hkept : Exact exec initial (chainAt exec initial channel n) store := by
      rw [stored]
      exact hexact.marked stallReason _
    by_cases hnew : flow = .next ∧ next = n
    · obtain ⟨rfl, rfl⟩ := hnew
      refine ⟨next + 1, hinsert _ (Nat.le_succ _) (Nat.lt_succ_self _), ?_⟩
      have hnone : taken (advance exec) (positionAt exec initial channel next)
          message.decode.toList = [] := by
        cases hdecode : message.decode with
        | none => rfl
        | some block =>
          rw [Option.toList_some, taken_cons_of_none]
          · rfl
          · rw [← hposition]
            exact passes rfl block hdecode
      rw [chainAt_succ hat, hnone, append_nil]
      exact hkept
    · refine ⟨n, fun i hi => ?_, hkept⟩
      split at hi
      · rename_i hflow
        rcases Finset.mem_insert.mp hi with rfl | hi
        · exact lt_of_le_of_ne hle fun heq => hnew ⟨hflow, heq⟩
        · exact hn i hi
      · exact hn i hi

end

theorem Caught.step {event : IngestEvent} (hsettled : Settled exec initial channel)
    (hcursors : Cursors channel core) (h : Caught exec initial channel core)
    (hstep : Ingests exec channel event core core') : Caught exec initial channel core' := by
  cases event with
  | poll =>
    obtain ⟨-, hstep⟩ := ite_none_right_eq_some.mp hstep
    cases hstep
    exact h
  | message turn =>
    obtain ⟨next, inProgress, message, slot, mid, flow, hphase, hat, hingest, rfl⟩ :=
      stepMessage_eq_some hstep
    obtain ⟨-, hhandled, hingested⟩ := ingest_ok hingest
    obtain ⟨n, hn, hexact⟩ := h.handle hsettled hcursors hphase hat hingested
    refine ⟨n, ?_, hexact⟩
    obtain ⟨_, _, heq⟩ := core.enter_eq inProgress slot turn.cursorLost
    rw [hhandled, heq]
    exact hn
  | drain cursorLost =>
    obtain ⟨next, inProgress, -, -, rfl⟩ := stepDrain_eq_some hstep
    obtain ⟨n, hn, hexact⟩ := h
    cases inProgress with
    | none => exact ⟨n, hn, hexact⟩
    | some done => exact ⟨n, hn, hexact.marked _ _⟩
  | restart initialState =>
    obtain ⟨n, hn, hexact⟩ := h
    obtain ⟨store, hopen, hstep⟩ := bind_eq_some_iff.mp hstep
    cases hstep
    obtain rfl := ok.inj ((hexact.openDb initialState).symm.trans (toOption_eq_some.mp hopen))
    exact ⟨n, hn, hexact⟩

/-- **Ingestion reads the channel like a list, if nothing fits later.**  An indexer starts with a
fresh store on a channel with its messages in the order of their slots, and anything may happen:
passes end early, the store fails, cursors are not written, and it is restarted.  Then every message
of a slot up to the cursor was handled, as the cursor is in memory and as it is written.  And if a
block that fits a tip after it was read is the next block of the chain in any case, then whenever a
pass has drained, the chain and the state are those of a reader who reads each block once, in order,
and applies it if it fits. -/
theorem ingestion_is_fold {store : IndexerStore} {verifier : Option CrossZoneVerifier}
    {events : List IngestEvent} (hsorted : channel.Pairwise fun a b => a.2 ≤ b.2)
    (hstart : IndexerStore.openDb exec .empty initial = .ok store)
    (hrun : Run (Ingests exec channel) (.start store verifier) events core) :
    (∀ i entry, channel[i]? = some entry →
      (∃ last, (core.cursor = some last ∨ core.store.cells.zoneCursor = some last) ∧
        entry.2 ≤ last) → i ∈ core.handled) ∧
    (Settled exec initial channel → ∀ cursorLost drained,
      core.step exec channel (.drain cursorLost) = some drained →
        Exact exec initial (taken (advance exec) (none, initial) (blocksOf channel))
          drained.store) := by
  have hfresh := exact_of_fresh hstart
  have hnone : store.cells.zoneCursor = none := by
    obtain ⟨state, -, hopen⟩ := bind_eq_ok.mp hstart
    rw [← ok.inj hopen]
    rfl
  have hcursors : Cursors channel core := by
    refine hrun.invariant (P := Cursors channel) (fun _ _ _ _ hstep h => h.step hsorted hstep) ?_
    exact ⟨by simp [IndexerCore.start, hnone], by simp [IndexerCore.start, hnone],
      by simp [IndexerCore.start]⟩
  refine ⟨fun i entry hi ⟨last, hlast, hle⟩ => ?_, fun hsettled cursorLost drained hdrain => ?_⟩
  · rcases hlast with hlast | hlast
    · exact hcursors.cursor i entry hi ⟨last, hlast, hle⟩
    · exact hcursors.floor i entry hi ⟨last, hlast, hle⟩
  · obtain ⟨-, n, hn, hexact⟩ := hrun.invariant
      (P := fun core => Cursors channel core ∧ Caught exec initial channel core)
      (fun _ _ _ _ hstep h => ⟨h.1.step hsorted hstep, h.2.step hsettled h.1 hstep⟩)
      ⟨⟨by simp [IndexerCore.start, hnone], by simp [IndexerCore.start, hnone],
        by simp [IndexerCore.start]⟩, 0, by simp [IndexerCore.start], hfresh⟩
    obtain ⟨next, inProgress, hphase, hend, rfl⟩ := stepDrain_eq_some hdrain
    -- everything was handled, so the reader has read it all
    have hall : channel.length ≤ n := by
      by_contra hlt
      have hmem := (hcursors.reading next _ hphase).1 n (by omega)
      exact absurd (hn n hmem) (lt_irrefl n)
    rw [chainAt, take_of_length_le hall] at hexact
    cases inProgress with
    | none => exact hexact
    | some done => exact hexact.marked _ _

end

/-! ### Two indexers of one channel

The second block of the fork, the genesis block and the rival of the second block are inscribed in
one slot.  Read once, the second block comes too early and the rival is applied.  If the store fails
at the rival, the slot is read again, and now the second block fits. -/

namespace Passes

scoped instance : BlockBorsh where
  fromSlice data := [Fork.genesis, Fork.second, Fork.rival, Fork.third].find? fun block =>
    Watcher.Outage.encode block = data

scoped instance : Emitters := Watcher.Outage.emitters
scoped instance : Serde CrossZoneInbox.Instruction := .ofTable []
scoped instance : Serde Ping.SenderInstruction := .ofTable []
scoped instance : Serde BridgeLock.Instruction := .ofTable []

def inscribed (block : Block) : ZoneMessage := .block (Watcher.Outage.encode block)

def turn : Turn := ⟨false, false, false, "", fun _ => []⟩

def channel : List (ZoneMessage × Slot) :=
  [(inscribed Fork.second, 5), (inscribed Fork.genesis, 5), (inscribed Fork.rival, 5)]

def onePass : List IngestEvent :=
  [.poll, .message turn, .message turn, .message turn, .drain false]

def twoPasses : List IngestEvent :=
  [.poll, .message turn, .message turn, .message { turn with acceptFails := true }] ++ onePass

/-- The blocks in their order, in three slots. -/
def orderly : List (ZoneMessage × Slot) :=
  [ (inscribed Fork.genesis, 5), (.deposit, 6), (inscribed Fork.rival, 6),
    (inscribed Fork.third, 7) ]

/-- The store fails at the rival, and the indexer is started again. -/
def restarted : List IngestEvent :=
  [ .poll, .message turn, .message turn, .message { turn with acceptFails := true },
    .restart Fork.state, .poll, .message turn, .message turn, .message turn ]

end Passes

section

open Idle Fork Passes

/-- **Where a pass ends decides what is applied.**  Both indexers drain the channel, and store
different blocks with the id 2. -/
theorem ingestion_not_fold :
    ∃ store once twice,
      IndexerStore.openDb exec .empty state = .ok store ∧
      Run (Ingests exec channel) (.start store none) onePass once ∧
      Run (Ingests exec channel) (.start store none) twoPasses twice ∧
      taken (advance exec) (none, state) (blocksOf channel) = [genesis, rival] ∧
      once.store.cells.getBlock 2 = some rival.finalized ∧
      twice.store.cells.getBlock 2 = some second.finalized := by
  obtain ⟨store, hstore, ⟨once, honce, hkept⟩, twice, htwice, hstale⟩ :
      ∃ store, IndexerStore.openDb exec .empty state = .ok store ∧
        (∃ once, onePass.foldlM (IndexerCore.step exec channel)
          (.start store none) = some once ∧ once.store.cells.getBlock 2 = some rival.finalized) ∧
        ∃ twice, twoPasses.foldlM (IndexerCore.step exec channel)
          (.start store none) = some twice ∧
            twice.store.cells.getBlock 2 = some second.finalized := by
    decide +kernel
  exact ⟨store, once, twice, hstore, Run.of_foldlM (fun _ _ _ h => h) honce,
    Run.of_foldlM (fun _ _ _ h => h) htwice, by decide +kernel, hkept, hstale⟩

/-- With the blocks in their order a restart in the middle of a slot changes nothing. -/
theorem restarted_is_fold :
    ∃ store core drained,
      Run (Ingests exec orderly) (.start store none) restarted core ∧
      core.step exec orderly (.drain true) = some drained ∧
      Exact exec state [genesis, rival, third] drained.store := by
  obtain ⟨store, hstore, core, hcore, hdrains⟩ :
      ∃ store, IndexerStore.openDb exec .empty state = .ok store ∧
        ∃ core, restarted.foldlM (IndexerCore.step exec orderly)
            (.start store none) = some core ∧
          (core.step exec orderly (.drain true)).isSome = true := by
    decide +kernel
  obtain ⟨drained, hdrain⟩ := isSome_iff_exists.mp hdrains
  have hrun : Run (Ingests exec orderly) (.start store none) restarted core :=
    Run.of_foldlM (fun _ _ _ h => h) hcore
  -- a block that was read does not fit again
  have hunfit : ∀ n < 5, ∀ block ∈ blocksOf (orderly.take n),
      (advance exec (positionAt exec state orderly n) block).isSome = false := by
    decide +kernel
  have hsettled : Settled exec state orderly := by
    intro n block hmem hfits
    have hmin : orderly.take n = orderly.take (min n 4) := List.take_eq_take_min
    rw [positionAt, hmin] at hfits
    have hnone := hunfit (min n 4) (by omega) block (hmin ▸ hmem)
    exact absurd (hfits.symm.trans hnone) (by simp)
  have htaken : taken (advance exec) (none, state) (blocksOf orderly) =
      [genesis, rival, third] := by
    decide +kernel
  have hexact := (ingestion_is_fold (by decide) hstore hrun).2 hsettled true drained hdrain
  rw [htaken] at hexact
  exact ⟨store, core, drained, hrun, hdrain, hexact⟩

end

end Lssa
