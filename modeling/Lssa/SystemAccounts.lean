/-
System accounts and the transactions of users.

A node checks the transactions of users and peers for what they do to the accounts of the
clock, the faucet and the bridge (`validate_on_state` in `lez/common/src/transaction.rs`).
The check reads the diff of the transaction, and more happens when the diff is applied:
signers get their next nonce, and a deployment writes an account.  Neither reaches a system
account, because no key and no image has its id (`Reserved`).

* `getAccountById_of_reserved` — a reserved account ends up as the diff has it;
* **`system_accounts_untouched`** — clock and faucet are as before, and the bridge is as
  before or richer.
-/
import Lssa.LeeTransaction
import Lssa.Programs.AuthenticatedTransfer

open Outcome

namespace Lssa

namespace LeeTransaction

variable [Sha256] [Schnorr] [Builtins] [Receipts] [ImageId]

/-- An id that is neither the id of a key nor the image of a program. -/
structure Reserved (accountId : AccountId) : Prop where
  noKey : ∀ key, .ofPublicKey key ≠ accountId
  noImage : ∀ bytecode imageId, ImageId.computeImageId bytecode = some imageId →
    ofProgramId imageId ≠ accountId

variable {exec : Executor} {tx : LeeTransaction} {state state' : V03State} {blockId : BlockId}
  {timestamp : Timestamp} {diff : StateDiff} {accountId : AccountId}

/-- Signers are the accounts of keys. -/
theorem signer_of_computeStateDiff
    (h : tx.computeStateDiff exec state blockId timestamp = .ok diff)
    (hsigner : accountId ∈ diff.signerAccountIds) :
    ∃ key, .ofPublicKey key = accountId := by
  cases tx with
  | publicTx ptx =>
    rw [(fromPublicTransaction_ok h).signers] at hsigner
    obtain ⟨⟨_, key⟩, -, hkey⟩ := mem_map.mp hsigner
    exact ⟨key, hkey⟩
  | privacyPreserving ptx =>
    rw [(fromPrivacyPreservingTransaction_ok h).diff_eq] at hsigner
    obtain ⟨⟨_, key⟩, -, hkey⟩ := mem_map.mp hsigner
    exact ⟨key, hkey⟩
  | programDeployment dtx =>
    obtain ⟨_, -, -, rfl⟩ := fromProgramDeploymentTransaction_ok h
    cases hsigner

/-- **A reserved account ends up as the diff has it.** -/
theorem getAccountById_of_reserved
    (h : tx.computeStateDiff exec state blockId timestamp = .ok diff)
    (happly : state.applyStateDiff diff = some state') (hreserved : Reserved accountId) :
    state'.getAccountById accountId = overlay state diff.publicDiff accountId := by
  have hunsigned : accountId ∉ diff.signerAccountIds := by
    intro hsigner
    obtain ⟨key, hkey⟩ := signer_of_computeStateDiff h hsigner
    exact hreserved.noKey key hkey
  cases tx with
  | publicTx ptx =>
    exact (applyStateDiff_funds happly (fromPublicTransaction_ok h).program accountId).2 hunsigned
  | privacyPreserving ptx =>
    have hprogram : diff.program = none := by
      rw [(fromPrivacyPreservingTransaction_ok h).diff_eq]
    exact (applyStateDiff_funds happly hprogram accountId).2 hunsigned
  | programDeployment dtx =>
    obtain ⟨programId, himage, -, rfl⟩ := fromProgramDeploymentTransaction_ok h
    have hne := hreserved.noImage _ _ himage
    rw [applyStateDiff_deployment happly rfl rfl rfl hne.symm, overlay_empty]

omit [Sha256] [Schnorr] [Builtins] [Receipts] [ImageId] in
theorem overlay_of_validateDoesntModifyAccount
    (h : validateDoesntModifyAccount state diff accountId = .ok ()) :
    overlay state diff.publicDiff accountId = state.getAccountById accountId := by
  have hsame := ensure_eq_ok.mp h
  unfold overlay
  cases hlook : diff.publicDiff.lookup accountId with
  | none => rfl
  | some post => exact hsame post hlook

omit [Schnorr] [Receipts] [ImageId] in
/-- The bridge account is not written, or its balance alone goes up. -/
theorem overlay_of_validateBridgeAccountModification
    (h : tx.validateBridgeAccountModification state diff = .ok ()) :
    overlay state diff.publicDiff bridgeAccountId = state.getAccountById bridgeAccountId ∨
      onlyBalanceIncreased (state.getAccountById bridgeAccountId)
        (overlay state diff.publicDiff bridgeAccountId) := by
  unfold validateBridgeAccountModification at h
  unfold overlay
  split at h
  · rename_i hlook
    rw [hlook]
    exact .inl rfl
  · rename_i hlook
    rw [hlook]
    split at h
    · exact .inr (ensure_eq_ok.mp h)
    · cases h

/-- **Transactions of users do not touch system accounts.**  Let no key and no image have the
id of a system account.  Whatever transaction passes `validate_on_state`, and whatever programs
it runs, applying it leaves the accounts of the clock and the faucet exactly as they were, and
the account of the bridge exactly as it was or with more balance and otherwise the same. -/
theorem system_accounts_untouched
    (hreserved : ∀ accountId ∈ clockAccountIds ++ [faucetAccountId, bridgeAccountId],
      Reserved accountId)
    (hvalid : tx.validateOnState exec state blockId timestamp = .ok diff)
    (happly : state.applyStateDiff diff = some state') :
    (∀ accountId ∈ clockAccountIds ++ [faucetAccountId],
      state'.getAccountById accountId = state.getAccountById accountId) ∧
    (state'.getAccountById bridgeAccountId = state.getAccountById bridgeAccountId ∨
      ∃ balance, (state.getAccountById bridgeAccountId).balance < balance ∧
        state'.getAccountById bridgeAccountId
          = { state.getAccountById bridgeAccountId with balance }) := by
  obtain ⟨diff', hdiff, hrest⟩ := bind_eq_ok.mp hvalid
  obtain ⟨_, hguarded, hrest⟩ := bind_eq_ok.mp hrest
  obtain ⟨_, hbridge, hrest⟩ := bind_eq_ok.mp hrest
  obtain rfl : diff' = diff := ok.inj hrest
  constructor
  · intro accountId hmem
    have hsystem : accountId ∈ clockAccountIds ++ [faucetAccountId, bridgeAccountId] := by
      rcases mem_append.mp hmem with hclock | hfaucet
      · exact mem_append_left _ hclock
      · rw [mem_singleton.mp hfaucet]
        exact mem_append_right _ mem_cons_self
    rw [getAccountById_of_reserved hdiff happly (hreserved accountId hsystem)]
    exact overlay_of_validateDoesntModifyAccount (forM_eq_ok.mp hguarded accountId hmem)
  · have hsystem : bridgeAccountId ∈ clockAccountIds ++ [faucetAccountId, bridgeAccountId] :=
      mem_append_right _ (mem_cons_of_mem _ mem_cons_self)
    rw [getAccountById_of_reserved hdiff happly (hreserved _ hsystem)]
    rcases overlay_of_validateBridgeAccountModification hbridge with hsame | ⟨hrest, hmore⟩
    · exact .inl hsame
    · refine .inr ⟨_, hmore, ?_⟩
      rw [← hrest]

end LeeTransaction

/-! A payment of `alice` to the bridge.  All digests are SHA-256's. -/

namespace Donation

open scoped Idle AuthenticatedTransfer

def authTransfer : ProgramId := .ofWord 3

def faucet : AccountId :=
  ⟨ofHex 0xa1e9dc78f7cd68fac0b2eaba3823a1ad02bbfb14177ec53a8a4765fe805559e1⟩

def bridge : AccountId :=
  ⟨ofHex 0x87316d26289fc6bafc991652294b9a1639e626307d2aafedd12538c61620bf34⟩

def payment : PublicTransaction.Message :=
  ⟨authTransfer, [Sample.alice, bridge], [⟨0⟩], [0, 5, 0, 0, 0]⟩

def paymentHash : Bytes 32 :=
  ofHex 0x1ac92b288e5544c785213d2e3a879f40e55d71e18d39b76fe53c848e64456567

def paymentSignature : Signature := .ofHex
  0xe9fba77b59a7359185b924c4a11ecf86f0642f70d5e808952388c4adae597c1d
  0x928551498deb1be36e4f09ccfd6fd37ed9809888ae668623b8406531d214a8f2

def table : List (List UInt8 × Bytes 32) :=
  [ (publicPdaBytes (.ofWord 4) computeFaucetSeed, faucet.value),
    (publicPdaBytes (.ofWord 5) computeBridgeSeed, bridge.value),
    (publicAccountBytes Sample.key, Sample.alice.value),
    (payment.hashBytes, paymentHash) ]

scoped instance sha : Sha256 := .ofTable table

scoped instance schnorr : Schnorr := .ofTable [(Sample.key, paymentHash, paymentSignature)]

/-- There is one program to deploy. -/
scoped instance imageId : ImageId where
  computeImageId bytecode := if bytecode = [1] then some (.ofWord 9) else none

def exec : Executor := .ofGuests fun _ => AuthenticatedTransfer.main

def state : V03State := .ofAccounts
  [ deployedAt authTransfer,
    (Sample.alice, { Account.ownedBy authTransfer with balance := 10 }),
    (bridge, { Account.ownedBy (.ofWord 5) with balance := 100 }) ]

def tx : LeeTransaction := .publicTx ⟨payment, ⟨[(paymentSignature, Sample.key)]⟩⟩

end Donation

namespace LeeTransaction

open scoped Idle AuthenticatedTransfer
open Donation

theorem donation_reserved :
    ∀ accountId ∈ clockAccountIds ++ [faucetAccountId, bridgeAccountId], Reserved accountId := by
  have hall : ∀ accountId ∈ clockAccountIds ++ [faucetAccountId, bridgeAccountId],
      accountId.value ≠ .replicate 32 0 ∧
        ofProgramId (.ofWord 9) ≠ accountId ∧
        ∀ entry ∈ table, entry.2 = accountId.value → entry.1.length ≠ 64 := by
    decide +kernel
  intro accountId hmem
  obtain ⟨hfallback, himage, hlength⟩ := hall accountId hmem
  refine ⟨fun key hkey => ?_, fun bytecode imageId hbytecode => ?_⟩
  · -- no preimage on record is as long as that of a key
    refine hlength _ (Sha256.mem_of_hashBytes hfallback (congrArg AccountId.value hkey)) rfl ?_
    rw [publicAccountBytes, length_append, List.Vector.toList_length]
    rfl
  · rwa [← some.inj (ite_none_right_eq_some.mp hbytecode).2]

/-- The bridge gets 5, and clock and faucet stay as they are. -/
theorem donated_to_bridge :
    ∃ diff state', tx.validateOnState exec state 1 0 = .ok diff ∧
      state.applyStateDiff diff = some state' ∧
      (state'.getAccountById bridgeAccountId).balance = 105 ∧
      ∀ accountId ∈ clockAccountIds ++ [faucetAccountId],
        state'.getAccountById accountId = state.getAccountById accountId := by
  obtain ⟨diff, hvalid, state', hstate', hbalance⟩ :
      ∃ diff, tx.validateOnState exec state 1 0 = .ok diff ∧
        ∃ state', state.applyStateDiff diff = some state' ∧
          (state'.getAccountById bridgeAccountId).balance = 105 := by
    decide +kernel
  exact ⟨diff, state', hvalid, hstate', hbalance,
    (system_accounts_untouched donation_reserved hvalid hstate').1⟩

end LeeTransaction

end Lssa
