/-
The history of a chain of blocks.

A block that applies runs its transactions one after the other, the clock invocation last, and
each of them is accepted by the state machine.  So a chain of blocks that replays has a history
(`history_of_replay`), and what the transactions of a history keep, a chain keeps.
-/
import Lssa.Block
import Lssa.History

open Outcome Runs TwoTier

namespace Lssa

open LeeTransaction

/-- The transactions of a chain. -/
def transactionsOf (blocks : List Block) : List LeeTransaction :=
  blocks.flatMap fun block => block.body.transactions

theorem mem_transactionsOf {blocks : List Block} {tx : LeeTransaction} :
    tx ∈ transactionsOf blocks ↔ ∃ block ∈ blocks, tx ∈ block.body.transactions :=
  mem_flatMap

section

variable [Sha256] [Schnorr] [Builtins] [Receipts] [ImageId] {exec : Executor} {block : Block}
  {state state' : V03State}

theorem transition_of_applyUserTransaction {entry : LeeTransaction × ℕ}
    (h : applyUserTransaction exec block state entry = .ok state') :
    Transition exec entry.1 state state' := by
  obtain ⟨tx, index⟩ := entry
  unfold applyUserTransaction at h
  dsimp only at h
  split at h
  · -- the genesis block has public transactions only
    split at h
    · exact ⟨_, _, stateTransition_ok h⟩
    · cases h
  · exact ⟨_, _, stateTransition_ok h⟩

theorem history_of_foldlM {txs : List LeeTransaction} {n : ℕ}
    (h : (txs.zipIdx n).foldlM (applyUserTransaction exec block) state = .ok state') :
    History exec state txs state' := by
  induction txs generalizing state n with
  | nil =>
    obtain rfl : state = state' := ok.inj h
    exact .nil state
  | cons tx txs ih =>
    rw [zipIdx_cons] at h
    obtain ⟨mid, hmid, hrest⟩ := foldlM_cons_eq_ok.mp h
    exact .cons (transition_of_applyUserTransaction hmid) (ih hrest)

variable [ClockBuiltin] [Serde Timestamp]

theorem history_of_applyBlockToState (h : applyBlockToState exec block state = .ok state') :
    History exec state block.body.transactions state' := by
  obtain ⟨mid, hlast, hmid, htick⟩ := applyBlockToState_ok h
  rw [← List.dropLast_append_getLast? _ hlast]
  exact (history_of_foldlM hmid).append (.cons ⟨_, _, htick⟩ (.nil state'))

/-- **A chain that replays has a history.** -/
theorem history_of_replay {position position' : Position} {blocks : List Block}
    (h : replay (advance exec) position blocks = some position') :
    History exec position.2 (transactionsOf blocks) position'.2 := by
  induction blocks generalizing position with
  | nil =>
    obtain rfl : position = position' := some.inj h
    exact .nil _
  | cons block rest ih =>
    obtain ⟨next, hadvance, hrest⟩ := replay_cons_eq_some.mp h
    obtain ⟨state, happly, rfl⟩ := advance_eq_some.mp hadvance
    obtain ⟨_, -, happly⟩ := bind_eq_ok.mp happly
    exact (history_of_applyBlockToState happly).append (ih hrest)

end

end Lssa
