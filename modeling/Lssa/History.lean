/-
Histories of the chain.

A history is a run of transactions, each accepted in the state that the one before left:
public and privacy-preserving transactions and deployments, in any order and in blocks of
any number and time.  The guards that a node puts around the transactions of users are
not asked for, so what is said here holds of the node's own transactions as well.

An accepted privacy-preserving transaction is one whose receipt verifies.  That there is
a run of the circuit behind a receipt is the assumption `ReceiptsSound`.

* `Ages` — what a transaction makes of an account that no program is stored over;
* `Transition.ages`, `Transition.nullifiers` — what one transaction does to the accounts
  and to the nullifiers.
-/
import Lssa.Library.Runs
import Lssa.LeeTransaction
import Lssa.Succession

open Outcome Runs

namespace Lssa

/-- The nonce has not gone down, and an owner has not changed. -/
structure Ages (before after : Account) : Prop where
  nonce : before.nonce.value ≤ after.nonce.value
  programOwner : before.programOwner ≠ defaultProgramOwner →
    after.programOwner = before.programOwner

theorem Ages.refl (account : Account) : Ages account account := ⟨le_rfl, fun _ => rfl⟩

/-- Applying a diff that lets an account succeed itself lets it age. -/
theorem V03State.ages_of_succeeds [Sha256] {state state' : V03State} {diff : StateDiff}
    (h : state.applyStateDiff diff = some state') (hprogram : diff.program = none)
    {accountId : AccountId}
    (hsucceeds : Succeeds (state.getAccountById accountId)
      (overlay state diff.publicDiff accountId)) :
    Ages (state.getAccountById accountId) (state'.getAccountById accountId) := by
  have hfunds := (applyStateDiff_funds h hprogram accountId).1
  have hnonce := applyStateDiff_nonce h hprogram accountId
  refine ⟨?_, fun howned => hfunds.programOwner.trans (hsucceeds.programOwner howned)⟩
  rw [hsucceeds.nonce] at hnonce
  rw [Fin.le_def]
  omega

/-- A program is stored under an id iff the account there is owned by the storage. -/
theorem V03State.getProgram_isSome {state : V03State} {programId : ProgramId} :
    (state.getProgram programId).isSome = true ↔
      (state.getAccountById (ofProgramId programId)).programOwner = programStorageOwner := by
  unfold getProgram getAccountById Ledger.get
  cases state.publicState.lookup (ofProgramId programId) with
  | none => simp only [Option.isSome_none, getD_none]; decide
  | some account =>
    simp only [getD_some]
    by_cases howner : account.programOwner = programStorageOwner
    · simp [howner]
    · simp [howner]

namespace LeeTransaction

variable [Sha256] [Schnorr] [Builtins] [Receipts] [ImageId]

/-- The state machine accepts the transaction, in some block. -/
def Transition (exec : Executor) (tx : LeeTransaction) (state state' : V03State) : Prop :=
  ∃ blockId timestamp, state.apply (tx.computeStateDiff exec state blockId timestamp) = .ok state'

/-- A run of accepted transactions. -/
abbrev History (exec : Executor) : V03State → List LeeTransaction → V03State → Prop :=
  Run (Transition exec)

/-- Behind every receipt of the circuit that verifies is an input that the circuit takes to
the journal. -/
def ReceiptsSound [MlKem] [ChaCha20] (verify : ProgramId → ProgramOutput → Bool) : Prop :=
  ∀ proof output,
    Receipts.isValidForCircuit proof output Builtins.privacyPreservingCircuit = true →
      ∃ input, Circuit.main verify input = .ok output

/-- The transaction deploys a program whose id is the account. -/
def Stores (tx : LeeTransaction) (accountId : AccountId) : Prop :=
  ∃ dtx programId, tx = .programDeployment dtx ∧
    ImageId.computeImageId dtx.bytecode = some programId ∧
    ofProgramId programId = accountId

variable {exec : Executor} {tx : LeeTransaction} {state state' : V03State}

theorem Transition.diff (h : Transition exec tx state state') :
    ∃ blockId timestamp diff, tx.computeStateDiff exec state blockId timestamp = .ok diff ∧
      state.applyStateDiff diff = some state' := by
  obtain ⟨blockId, timestamp, h⟩ := h
  obtain ⟨diff, hdiff, happly⟩ := V03State.apply_ok h
  exact ⟨blockId, timestamp, diff, hdiff, happly⟩

/-- A deployment leaves every account but that of the program. -/
theorem Transition.unstored {dtx : ProgramDeploymentTransaction}
    (h : Transition exec (.programDeployment dtx) state state') {accountId : AccountId}
    (hnot : ¬Stores (.programDeployment dtx) accountId) :
    state'.getAccountById accountId = state.getAccountById accountId := by
  obtain ⟨blockId, timestamp, diff, hdiff, happly⟩ := h.diff
  obtain ⟨programId, himage, -, rfl⟩ := fromProgramDeploymentTransaction_ok hdiff
  exact applyStateDiff_deployment happly rfl rfl rfl fun heq =>
    hnot ⟨dtx, programId, rfl, himage, heq.symm⟩

variable {verify : ProgramId → ProgramOutput → Bool} {ptx : PrivacyPreservingTransaction}
  {circuitId : ProgramId} {input : PrivacyPreservingCircuitInput}

/-- An accepted privacy-preserving transaction and the input behind its receipt. -/
theorem Transition.privately [MlKem] [ChaCha20] (hsound : ReceiptsSound verify)
    (h : Transition exec (.privacyPreserving ptx) state state') :
    ∃ diff input, AcceptedPrivately Builtins.privacyPreservingCircuit ptx state diff ∧
      state.applyStateDiff diff = some state' ∧
      Circuit.main verify input = .ok (journalOf state ptx.signerAccountIds ptx.message) := by
  obtain ⟨blockId, timestamp, diff, hdiff, happly⟩ := h.diff
  have haccepted := fromPrivacyPreservingTransaction_ok hdiff
  obtain ⟨input, hinput⟩ := hsound _ _ haccepted.verified
  exact ⟨diff, input, haccepted, happly, hinput⟩

section

variable {diff : StateDiff}

omit [Schnorr] [Builtins] [ImageId]

/-- What the rules imply of every call holds of the public accounts of an accepted
privacy-preserving transaction. -/
theorem relates_of_privately [MlKem] [ChaCha20] {R : Account → Account → Prop}
    (refl : ∀ account, R account account) (trans : ∀ a b c, R a b → R b c → R a c)
    (hlawful : ∀ executing output, verify executing output = true → ∀ before after,
      Lawful executing before after → R before after)
    (h : AcceptedPrivately circuitId ptx state diff)
    (hinput : Circuit.main verify input = .ok (journalOf state ptx.signerAccountIds ptx.message))
    (accountId : AccountId) :
    R (state.getAccountById accountId) (overlay state diff.publicDiff accountId) := by
  rcases overlay_privately h accountId with heq | ⟨action, haction, rfl, hpost⟩
  · rw [heq]
    exact refl _
  · rw [hpost]
    exact Circuit.main_relates trans hlawful hinput (mem_map_of_mem haction)

/-- The public accounts of an accepted privacy-preserving transaction succeed
themselves. -/
theorem succeeds_of_privately [MlKem] [ChaCha20] (h : AcceptedPrivately circuitId ptx state diff)
    (hinput : Circuit.main verify input = .ok (journalOf state ptx.signerAccountIds ptx.message))
    (accountId : AccountId) :
    Succeeds (state.getAccountById accountId) (overlay state diff.publicDiff accountId) :=
  relates_of_privately .refl (fun _ _ _ => .trans) (fun _ _ _ _ _ hstep => hstep.succeeds) h
    hinput accountId

end

/-- **What a transaction makes of an account** that no program is stored over. -/
theorem Transition.ages [MlKem] [ChaCha20] (hsound : ReceiptsSound verify)
    (h : Transition exec tx state state') {accountId : AccountId} (hnot : ¬Stores tx accountId) :
    Ages (state.getAccountById accountId) (state'.getAccountById accountId) := by
  cases tx with
  | publicTx ptx =>
    obtain ⟨blockId, timestamp, diff, hdiff, happly⟩ := h.diff
    have haccepted := fromPublicTransaction_ok hdiff
    exact V03State.ages_of_succeeds happly haccepted.program (haccepted.succeeds accountId)
  | privacyPreserving ptx =>
    obtain ⟨diff, input, haccepted, happly, hinput⟩ := h.privately hsound
    exact V03State.ages_of_succeeds happly (by rw [haccepted.diff_eq])
      (succeeds_of_privately haccepted hinput accountId)
  | programDeployment dtx =>
    rw [h.unstored hnot]
    exact .refl _

/-- No transaction takes a nullifier back. -/
theorem Transition.nullifiers (h : Transition exec tx state state') :
    state.nullifierSet ⊆ state'.nullifierSet := by
  obtain ⟨blockId, timestamp, diff, -, happly⟩ := h.diff
  rw [(applyStateDiff_private happly).2]
  exact Finset.subset_union_left

end LeeTransaction

end Lssa
