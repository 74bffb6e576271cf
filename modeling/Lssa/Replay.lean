/-
No transaction is accepted twice.

Each kind of transaction is protected in its own way: a public transaction by the nonces
of its signers, a privacy-preserving one by its nullifiers, a deployment by the program it
stores.  The protections are independent, and none is undone by transactions of another
kind (`no_replay`), with one exception: a deployment writes a fresh account over whatever
was kept under the id of the program, and the nonce starts again (`deployment_resets_nonce`).

The nonce of a signer goes up by one for every time that their key is in the witness set, so
by one for each iff no key is there twice (`nonces_advance_iff`).
-/
import Lssa.InboundDelivery
import Lssa.Unclaimed

open Outcome Runs

namespace Lssa

namespace LeeTransaction

section

variable [Sha256] [Schnorr] [Builtins] [Receipts] [ImageId] {exec : Executor}
  {tx : LeeTransaction} {state state' : V03State}

/-! ### What is left behind -/

/-- A signer of an accepted public transaction has used up the nonce it announced. -/
theorem Transition.signed {ptx : PublicTransaction}
    (h : Transition exec (.publicTx ptx) state state') {accountId : AccountId}
    (hsigner : accountId ∈ ptx.signerAccountIds) :
    ∃ nonce, (accountId, nonce) ∈ ptx.signerAccountIds.zip ptx.message.nonces ∧
      (∀ entry ∈ ptx.signerAccountIds.zip ptx.message.nonces,
        (state.getAccountById entry.1).nonce = entry.2) ∧
      nonce.value < (state'.getAccountById accountId).nonce.value := by
  obtain ⟨blockId, timestamp, diff, hdiff, happly⟩ := h.diff
  have haccepted := fromPublicTransaction_ok hdiff
  obtain ⟨signers, hauth⟩ := fromPublicTransaction_authenticated hdiff
  obtain ⟨nonce, hentry, hcurrent⟩ := authenticatePublicTransactionSigners_nonce hauth hsigner
  refine ⟨nonce, hentry, hcurrent, ?_⟩
  have hbefore : (state.getAccountById accountId).nonce = nonce := hcurrent _ hentry
  have hnonce := applyStateDiff_nonce happly haccepted.program accountId
  rw [(haccepted.succeeds accountId).nonce, hbefore, haccepted.signers] at hnonce
  have hcount := List.count_pos_iff.mpr hsigner
  rw [Fin.lt_def]
  omega

/-- The nullifiers of an accepted privacy-preserving transaction are new and then known. -/
theorem Transition.nullified {ptx : PrivacyPreservingTransaction}
    (h : Transition exec (.privacyPreserving ptx) state state') :
    (∃ nullifier, nullifier ∈ ptx.message.nullifiers.map Prod.fst ∧
        nullifier ∉ state.nullifierSet) ∧
      ∀ nullifier ∈ ptx.message.nullifiers.map Prod.fst, nullifier ∈ state'.nullifierSet := by
  obtain ⟨blockId, timestamp, diff, hdiff, happly⟩ := h.diff
  have haccepted := fromPrivacyPreservingTransaction_ok hdiff
  constructor
  · obtain ⟨action, haction⟩ := List.exists_mem_of_ne_nil _ haccepted.nonempty
    have hentry : (action.nullifier, action.root) ∈ ptx.message.nullifiers :=
      mem_map.mpr ⟨action, haction, rfl⟩
    exact ⟨action.nullifier, mem_map.mpr ⟨_, hentry, rfl⟩, haccepted.nullifiersNew _ hentry⟩
  · intro nullifier hmem
    rw [(applyStateDiff_private happly).2, haccepted.diff_eq]
    exact Finset.mem_union_right _ (mem_toFinset.mpr hmem)

/-- The program of an accepted deployment was not stored, and then is. -/
theorem Transition.deployed {dtx : ProgramDeploymentTransaction}
    (h : Transition exec (.programDeployment dtx) state state') :
    ∃ programId, ImageId.computeImageId dtx.bytecode = some programId ∧
      (state.getProgram programId).isSome = false ∧
      (state'.getProgram programId).isSome = true := by
  obtain ⟨blockId, timestamp, diff, hdiff, happly⟩ := h.diff
  obtain ⟨programId, himage, hnone, rfl⟩ := fromProgramDeploymentTransaction_ok hdiff
  obtain ⟨account, haccount⟩ := applyStateDiff_stores happly rfl
  exact ⟨programId, himage, by rw [hnone]; rfl, by rw [haccount]; rfl⟩

/-! ### The protections last -/

variable [MlKem] [ChaCha20] {verify : ProgramId → ProgramOutput → Bool}

/-- The signers of a transaction; a deployment has none. -/
def signerAccountIds : LeeTransaction → List AccountId
  | .publicTx ptx => ptx.signerAccountIds
  | .privacyPreserving ptx => ptx.signerAccountIds
  | .programDeployment _ => []

/-- The programs leave the nonces alone, and the signers are counted afterwards. -/
theorem Transition.nonce (hsound : ReceiptsSound verify) (h : Transition exec tx state state')
    (htx : ∀ dtx, tx ≠ .programDeployment dtx) (accountId : AccountId) :
    (state'.getAccountById accountId).nonce.value.val
      = (state.getAccountById accountId).nonce.value.val + tx.signerAccountIds.count accountId := by
  cases tx with
  | publicTx ptx =>
    obtain ⟨blockId, timestamp, diff, hdiff, happly⟩ := h.diff
    have haccepted := fromPublicTransaction_ok hdiff
    rw [applyStateDiff_nonce happly haccepted.program,
      (haccepted.succeeds accountId).nonce, haccepted.signers]
    rfl
  | privacyPreserving ptx =>
    obtain ⟨diff, input, haccepted, happly, hinput⟩ := h.privately hsound
    rw [applyStateDiff_nonce happly (by rw [haccepted.diff_eq]),
      (succeeds_of_privately haccepted hinput accountId).nonce, haccepted.diff_eq]
    rfl
  | programDeployment dtx => exact absurd rfl (htx dtx)

/-- **Nonces.**  An accepted public or privacy-preserving transaction raises the nonce of
every signer by one and leaves every other nonce alone, iff no account signs it twice. -/
theorem nonces_advance_iff (hsound : ReceiptsSound verify)
    (h : Transition exec tx state state') (htx : ∀ dtx, tx ≠ .programDeployment dtx) :
    (∀ accountId, (state'.getAccountById accountId).nonce.value.val
      = (state.getAccountById accountId).nonce.value.val
        + if accountId ∈ tx.signerAccountIds then 1 else 0) ↔ tx.signerAccountIds.Nodup := by
  constructor
  · intro hadvance
    refine List.nodup_iff_count_le_one.mpr fun accountId => ?_
    have hnonce := h.nonce hsound htx accountId
    rw [hadvance accountId] at hnonce
    split at hnonce <;> omega
  · intro hnodup accountId
    rw [h.nonce hsound htx accountId]
    split
    · rename_i hsigner
      rw [List.count_eq_one_of_mem hnodup hsigner]
    · rename_i hnot
      rw [List.count_eq_zero.mpr hnot]

/-- **No replay.**  In a run of accepted transactions from any state the nonce of an account
never goes down, unless a program is deployed over the account.  A public transaction is
accepted at most once if one of its signers has an account that no program is deployed
over; a privacy-preserving transaction and a deployment are accepted at most once. -/
theorem no_replay (hsound : ReceiptsSound verify) {txs : List LeeTransaction}
    (h : History exec state txs state') :
    (∀ accountId, (∀ tx ∈ txs, ¬Stores tx accountId) →
      (state.getAccountById accountId).nonce.value
        ≤ (state'.getAccountById accountId).nonce.value) ∧
      (∀ ptx : PublicTransaction,
        (∃ accountId ∈ ptx.signerAccountIds, ∀ tx ∈ txs, ¬Stores tx accountId) →
          txs.count (.publicTx ptx) ≤ 1) ∧
      (∀ ptx, txs.count (.privacyPreserving ptx) ≤ 1) ∧
      ∀ dtx, txs.count (.programDeployment dtx) ≤ 1 := by
  refine ⟨?_, ?_, ?_, ?_⟩
  · intro accountId hfree
    refine h.invariant (P := fun s => (state.getAccountById accountId).nonce.value
      ≤ (s.getAccountById accountId).nonce.value) (fun tx htx a b hstep hle => ?_) le_rfl
    exact hle.trans (hstep.ages hsound (hfree tx htx)).nonce
  · rintro ptx ⟨accountId, hsigner, hfree⟩
    -- spent: the account has left behind a nonce that the transaction announces
    refine h.count_le_one (P := fun s => ∃ nonce,
      (accountId, nonce) ∈ ptx.signerAccountIds.zip ptx.message.nonces ∧
        nonce.value < (s.getAccountById accountId).nonce.value) ?_ ?_ ?_
    · rintro a b ⟨nonce, hentry, hlt⟩ hstep
      obtain ⟨-, -, hcurrent, -⟩ := hstep.signed hsigner
      exact absurd (congrArg Nonce.value (hcurrent _ hentry)).symm (ne_of_lt hlt)
    · intro a b hstep
      obtain ⟨nonce, hentry, -, hlt⟩ := hstep.signed hsigner
      exact ⟨nonce, hentry, hlt⟩
    · rintro tx htx a b hstep ⟨nonce, hentry, hlt⟩
      exact ⟨nonce, hentry, lt_of_lt_of_le hlt (hstep.ages hsound (hfree tx htx)).nonce⟩
  · intro ptx
    refine h.count_le_one (P := fun s => ∀ nullifier ∈ ptx.message.nullifiers.map Prod.fst,
      nullifier ∈ s.nullifierSet) ?_ ?_ ?_
    · intro a b hspent hstep
      obtain ⟨⟨nullifier, hmem, hnew⟩, -⟩ := hstep.nullified
      exact hnew (hspent nullifier hmem)
    · intro a b hstep
      exact hstep.nullified.2
    · intro tx _ a b hstep hspent nullifier hmem
      exact hstep.nullifiers (hspent nullifier hmem)
  · intro dtx
    refine h.count_le_one (P := fun s => ∃ programId,
      ImageId.computeImageId dtx.bytecode = some programId ∧
        (s.getProgram programId).isSome = true) ?_ ?_ ?_
    · rintro a b ⟨programId, himage, hstored⟩ hstep
      obtain ⟨programId', himage', hbefore, -⟩ := hstep.deployed
      obtain rfl := some.inj (himage.symm.trans himage')
      exact absurd (hstored.symm.trans hbefore) (by simp)
    · intro a b hstep
      obtain ⟨programId, himage, -, hafter⟩ := hstep.deployed
      exact ⟨programId, himage, hafter⟩
    · rintro tx _ a b hstep ⟨programId, himage, hstored⟩
      exact ⟨programId, himage, hstep.getProgram_isSome hsound hstored⟩

end

section

open scoped Idle AuthenticatedTransfer
open InboundDelivery.Forgery

/-- A privacy-preserving transaction and then a signed payment: each is in the history once,
and the payer's nonce has gone from 0 to 1. -/
theorem forgery_once :
    ∃ state output state', circuit = .ok output ∧
      History (.ofGuests guests) state [forged output, creditTx] state' ∧
      (state.getAccountById Sample.alice).nonce.value
        ≤ (state'.getAccountById Sample.alice).nonce.value ∧
      [forged output, creditTx].count (forged output) ≤ 1 ∧
      [forged output, creditTx].count creditTx ≤ 1 := by
  have hsound : ReceiptsSound verify := by
    intro proof output hvalid
    exact ⟨input, (of_decide_eq_true hvalid).2⟩
  obtain ⟨state, -, output, hcircuit, mid, hmid, state', hstate'⟩ :
      ∃ state, fresh = some state ∧ ∃ output, circuit = .ok output ∧
        ∃ mid, state.apply ((forged output).computeStateDiff (.ofGuests guests)
            state 0 0) = .ok mid ∧
          ∃ state', mid.apply (creditTx.computeStateDiff (.ofGuests guests)
            mid 0 0) = .ok state' := by
    decide +kernel
  have hhistory : History (.ofGuests guests) state
      [forged output, creditTx] state' :=
    .cons ⟨0, 0, hmid⟩ (.cons ⟨0, 0, hstate'⟩ (.nil _))
  have hfree : ∀ accountId, ∀ tx ∈ [forged output, creditTx],
      ¬Stores tx accountId := by
    rintro accountId tx - ⟨dtx, programId, -, himage, -⟩
    cases himage
  obtain ⟨hnonce, hpublic, hprivate, -⟩ := no_replay hsound hhistory
  exact ⟨state, output, state', hcircuit, hhistory, hnonce _ (hfree _), hprivate _,
    hpublic _ ⟨Sample.alice, by decide +kernel, hfree _⟩⟩

end

section

open scoped InboundDelivery.Forgery Idle

/-- One bytecode that parses. -/
local instance redeployImageId : ImageId :=
  ⟨fun bytecode => if bytecode = [1, 2, 3] then some (.ofWord 9) else none⟩

/-- An account at nonce 1 has its nonce back at 0 after a deployment under its id. -/
theorem deployment_resets_nonce :
    ∃ state state', History (.ofGuests fun _ _ _ _ _ => none) state
        [.programDeployment ⟨[1, 2, 3]⟩] state' ∧
      (state.getAccountById (.ofProgramId (.ofWord 9))).nonce = ⟨1⟩ ∧
      (state'.getAccountById (.ofProgramId (.ofWord 9))).nonce = ⟨0⟩ := by
  let state : V03State :=
    .ofAccounts [(.ofProgramId (.ofWord 9), { Account.default with nonce := ⟨1⟩ })]
  obtain ⟨state', hstate', hnonce⟩ : ∃ state', executeOnState (.ofGuests fun _ _ _ _ _ => none)
      (.programDeployment ⟨[1, 2, 3]⟩) state 0 0 = .ok state' ∧
      (state'.getAccountById (.ofProgramId (.ofWord 9))).nonce = ⟨0⟩ := by
    decide +kernel
  exact ⟨state, state', .cons ⟨0, 0, hstate'⟩ (.nil _), by decide +kernel, hnonce⟩

end

section

open scoped Idle AuthenticatedTransfer
open Cosigned
open Sample (bob)

/-- Bob's key twice in the witness set: the nonce of the account goes from 0 to 2. -/
theorem repeated_key_counts_twice :
    ∃ state, Transition exec alone genesis state ∧
      (genesis.getAccountById bob).nonce = ⟨0⟩ ∧
      (state.getAccountById bob).nonce = ⟨2⟩ := by
  obtain ⟨state, hstate, hnonce⟩ : ∃ state, executeOnState exec alone genesis 1 0 = .ok state ∧
      (state.getAccountById bob).nonce = ⟨2⟩ := by
    decide +kernel
  exact ⟨state, ⟨1, 0, hstate⟩, by decide +kernel, hnonce⟩

/-- Two signers: their nonces go up by one. -/
theorem cosigners_advance :
    ∃ state, Transition exec tx genesis state ∧
      ∀ accountId, (state.getAccountById accountId).nonce.value.val
        = (genesis.getAccountById accountId).nonce.value.val
          + if accountId ∈ tx.signerAccountIds then 1 else 0 := by
  obtain ⟨state, hstate⟩ : ∃ state, tx.executeOnState exec genesis 1 0 = .ok state := by
    decide +kernel
  have hsound : ReceiptsSound fun _ _ => false := fun _ _ hvalid => by cases hvalid
  have hstep : Transition exec tx genesis state := ⟨1, 0, hstate⟩
  exact ⟨state, hstep, (nonces_advance_iff hsound hstep nofun).mpr (by decide +kernel)⟩

end

end LeeTransaction

end Lssa
