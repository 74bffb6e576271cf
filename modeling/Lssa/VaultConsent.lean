/-
The owner of a vault and who can spend from it.

A vault is spent by authenticated transfer, which asks for the authority of the vault.
The authority comes from the vault program, along two edges: when the owner claims, and
when anyone deposits.  A deposit passes the authority of the receiving vault to the
program that owns the account of the sender.  If that is authenticated transfer nothing
can happen (`depositing_is_harmless`): it is the payer that is debited, and the authority
goes no further.  Any other program can turn around and spend the vault
(`vault_drained_by_deposit`).
-/
import Lssa.Programs.Vault
import Lssa.PublicAuthority

open DepthFirst

namespace Lssa

open Sample (alice key)

open PublicExecution

namespace VaultConsent

open Vault

section

variable [Sha256] [Serde AuthenticatedTransfer.Instruction] [Serde Vault.Instruction]
  {exec : Executor} {tx : PublicTransaction} {state state' : V03State} {blockId : BlockId}
  {timestamp : Timestamp} {authTransfer vault : ProgramId} {owner : AccountId}

/-- Deposits into the vault of `owner` are paid by accounts of authenticated transfer. -/
def PaidByAccounts (tree : List (Visit Diff Call ProgramOutput))
    (authTransfer vault : ProgramId) (owner : AccountId) : Prop :=
  ∀ v ∈ tree, v.call.1.programId = vault → ∀ amount sender recipientVault,
    fromWords v.call.1.instructionData = some (Vault.Instruction.transfer owner amount) →
    v.call.1.preStates = [sender, recipientVault] →
    sender.account.programOwner = ofProgramId authTransfer

/-- The owner consents, or it is a transfer that does not spend the vault. -/
def Harmless (authTransfer vault : ProgramId) (owner : AccountId) (consent : Prop)
    (call : ChainedCall) : Prop :=
  consent ∨ (call.programId = authTransfer ∧ ∃ sender recipient,
    call.preStates = [sender, recipient] ∧
    ¬(sender.accountId = computeVaultAccountId vault owner ∧ sender.isAuthorized = true))

/-- The programs in question run as written, and ids and seeds are not ambiguous. -/
structure Setting (exec : Executor) (authTransfer vault : ProgramId) (owner : AccountId) :
    Prop where
  transfers : Executes exec authTransfer AuthenticatedTransfer.main
  vaults : Executes exec vault main
  distinct : vault ≠ authTransfer
  ownsAccounts : ofProgramId authTransfer ≠ defaultProgramOwner
  vaultId : Sha256.Unambiguous (computeVaultAccountId vault owner).value
  vaultSeed : Sha256.Unambiguous (computeVaultSeed owner).value

variable {v : Visit Diff Call ProgramOutput}

/-- What a call does to the vault: it stays with authenticated transfer, and is lowered
only with the consent of its owner. -/
theorem vault_step (hset : Setting exec authTransfer vault owner) {consent : Prop}
    {diff diff' : Diff} {call : Call} {output : ProgramOutput}
    (hstep : Step exec state blockId timestamp diff call output diff')
    (hharmless : isAuthorized call (computeVaultAccountId vault owner) = true →
      Harmless authTransfer vault owner consent call.1)
    (howner : (overlay state diff (computeVaultAccountId vault owner)).programOwner
      = .ofProgramId authTransfer) :
    (overlay state diff' (computeVaultAccountId vault owner)).programOwner
        = .ofProgramId authTransfer ∧
      (consent ∨ (overlay state diff (computeVaultAccountId vault owner)).balance
        ≤ (overlay state diff' (computeVaultAccountId vault owner)).balance) := by
  obtain ⟨hstill, hforeign⟩ := hstep.owned howner hset.ownsAccounts
  refine ⟨hstill, ?_⟩
  by_cases hprogram : call.1.programId = authTransfer
  · rcases hstep.effect (computeVaultAccountId vault owner) with
      heq | ⟨pre, post, hpair, hid, hpre, heffect⟩
    · exact .inr (heq ▸ le_rfl)
    rw [← hpre, heffect.balance]
    by_cases hlower : post.account.balance < pre.account.balance
    · -- it is the sender of a transfer, and flagged
      obtain ⟨hflag, recipient, hlist⟩ := AuthenticatedTransfer.lowered_of_main
        (hset.transfers.of_execute hprogram hstep.executed) hpair hlower
      have hauthorized := (hstep.authorization pre (of_mem_zip hpair).1).mp hflag
      rw [hid] at hauthorized
      rcases hharmless hauthorized with hconsents | ⟨-, sender, recipient', hlist', hnot⟩
      · exact .inl hconsents
      · obtain ⟨rfl, -⟩ := cons.inj (hlist.symm.trans hlist')
        exact absurd ⟨hid, hflag⟩ hnot
    · exact .inr (not_lt.mp hlower)
  · exact .inr (hforeign hprogram).2

variable [Schnorr]

/-- Every call of the tree that has the authority of the vault is harmless. -/
theorem depositing_is_harmless (hset : Setting exec authTransfer vault owner) {diff : StateDiff}
    (h : Accepted exec tx state blockId timestamp diff)
    (hpaid : PaidByAccounts (callTree exec tx state blockId timestamp) authTransfer vault owner)
    (hv : v ∈ callTree exec tx state blockId timestamp)
    (hauthorized : isAuthorized v.call (computeVaultAccountId vault owner) = true) :
    Harmless authTransfer vault owner (AuthorizedIn exec tx state blockId timestamp owner)
      v.call.1 := by
  refine authority_forall hset.vaultId rfl (fun w hw hbefore hvault next hnext hseed => ?_)
    (fun w hw hharmless next hnext => ?_) hv hauthorized
  · -- the vault program passes the authority on a deposit or on a claim
    have hstep := callTree_step hw
    obtain ⟨call, hpre, hcalls, hcases⟩ :=
      main_ok (hset.vaults.of_execute hvault hstep.executed)
    obtain rfl : next = call := by
      rw [hcalls] at hnext
      exact mem_singleton.mp hnext
    rcases hcases with
      ⟨recipientId, amount, sender, recipientVault, hwords, hlist, hprogram, hpreStates, hseeds⟩ |
      ⟨payee, ownerVault, hlist, hflag, hseeds⟩
    · rw [hseeds, mem_singleton] at hseed
      obtain rfl := computeVaultSeed_inj hset.vaultSeed hseed.symm
      have howner := hpaid w hw hvault amount sender recipientVault hwords hlist
      rw [howner, toProgramId_ofProgramId] at hprogram
      by_cases hspends : sender.accountId = computeVaultAccountId vault recipientId ∧
          sender.isAuthorized = true
      · -- the vault itself is the sender, with authority: then it came with the call
        have hmem : sender ∈ w.result.preStates := by
          rw [hpre, hlist]
          exact mem_cons_self
        have hcaller := (hstep.authorization sender hmem).mp hspends.2
        rw [hspends.1] at hcaller
        rcases hbefore hcaller with hconsents | ⟨hprogram', -⟩
        · exact .inl hconsents
        · exact absurd (hvault.symm.trans hprogram') hset.distinct
      · exact .inr ⟨hprogram, sender, _, hpreStates, hspends⟩
    · rw [hseeds, mem_singleton] at hseed
      obtain rfl := computeVaultSeed_inj hset.vaultSeed hseed.symm
      refine .inl (h.authorizedIn hw ⟨payee, ?_, rfl, hflag⟩)
      show payee ∈ w.result.preStates
      rw [hpre, hlist]
      exact mem_cons_self
  · rcases hharmless with hconsents | ⟨hprogram, -⟩
    · exact .inl hconsents
    · -- authenticated transfer calls nobody
      obtain ⟨_, hnone, -⟩ := AuthenticatedTransfer.main_ok
        (hset.transfers.of_execute hprogram (callTree_step hw).executed)
      rw [hnone] at hnext
      exact absurd hnext (by simp [ProgramOutput.new])

/-- **Vault funds move out only with the consent of the owner, if deposits into the vault are
paid by accounts of authenticated transfer.**  Programs in the call tree are otherwise
arbitrary. -/
theorem vault_consent (hset : Setting exec authTransfer vault owner)
    (howner : (state.getAccountById (computeVaultAccountId vault owner)).programOwner
      = ofProgramId authTransfer)
    (h : transitionFromPublicTransaction exec state tx blockId timestamp = .ok state')
    (hpaid : PaidByAccounts (callTree exec tx state blockId timestamp) authTransfer vault owner)
    (hlower : (state'.getAccountById (computeVaultAccountId vault owner)).balance
      < (state.getAccountById (computeVaultAccountId vault owner)).balance) :
    AuthorizedIn exec tx state blockId timestamp owner := by
  obtain ⟨diff, haccepted, happly⟩ := transitionFromPublicTransaction_ok h
  have hfunds := haccepted.funds happly (computeVaultAccountId vault owner)
  by_contra hdenied
  -- a run of the tree: with the vault still owned, and not lowered
  have hrun := haccepted.threads.invariant (P := fun d =>
    (overlay state d (computeVaultAccountId vault owner)).programOwner
        = .ofProgramId authTransfer ∧
      (state.getAccountById (computeVaultAccountId vault owner)).balance
        ≤ (overlay state d (computeVaultAccountId vault owner)).balance)
    (fun v hv hbefore => ?_) (by rw [overlay_empty]; exact ⟨howner, le_rfl⟩)
  · rw [hfunds.balance] at hlower
    exact absurd hlower (not_lt.mpr hrun.2)
  · obtain ⟨hstill, hstep⟩ := vault_step hset (callTree_step hv)
      (depositing_is_harmless hset haccepted hpaid hv) hbefore.1
    exact ⟨hstill, hbefore.2.trans (hstep.resolve_left hdenied)⟩

end

/-! A raid: a thief deposits into the vault of `alice` from an account of a program of its
own, and the program spends the vault instead.  And a claim by `alice`, for comparison. -/

namespace Raid

def authTransfer : ProgramId := .ofWord 1

def vault : ProgramId := .ofWord 2

def raider : ProgramId := .ofWord 3

def seed : PdaSeed :=
  ⟨ofHex 0x98217f758659fdb2828839e3aac0557b77361f7c05df004bb88efd6145bf0c88⟩

def aliceVault : AccountId :=
  ⟨ofHex 0xedcb62ee99252bd0dea9b8db39f9ab8b0ab9ea06122964103b6280855639085d⟩

def thief : AccountId := ⟨.replicate 32 9⟩

/-- An account id travels as its base58 text. -/
scoped instance serde : Serde Vault.Instruction := .ofTable
  [(.transfer alice 5,
    [0, 44, 1853256775, 1934382673, 861288566, 1479755060, 1112369209, 1936210258, 1634430805,
     1768379760, 930034757, 878003062, 893537622, 5, 0, 0, 0]),
   (.claim 5, [1, 5, 0, 0, 0])]

def claim : PublicTransaction.Message := ⟨vault, [alice, aliceVault], [⟨0⟩], [1, 5, 0, 0, 0]⟩

def claimHash : Bytes 32 :=
  ofHex 0x1964ff727f8642a874441c8a5df2ef0c3be12d687535dc276c7539cb87af8264

def claimSignature : Signature := .ofHex
  0x330a6622e248669862a39a320db6a6d84bbc9cd53d88ae1d1aa10e2abcb1997a
  0xde427e8464584f91e6f319e7bfa595c522cf3308fcd74d709bb2099383f1a308

scoped instance sha : Sha256 := .ofTable
  [(vaultSeedBytes alice, seed.value),
   (publicPdaBytes vault seed, aliceVault.value),
   (publicAccountBytes key, alice.value),
   (claim.hashBytes, claimHash)]

scoped instance schnorr : Schnorr := .ofTable [(key, claimHash, claimSignature)]

/-- Asked to pay, the program of the thief has the payee pay. -/
def raid : Guest := fun selfProgramId callerProgramId preStates instructionWords =>
  some { ProgramOutput.new selfProgramId callerProgramId instructionWords preStates
           (preStates.map fun preState => .new preState.account) with
         chainedCalls := [⟨authTransfer, preStates.reverse, instructionWords, []⟩] }

def guests [Sha256] [Serde AuthenticatedTransfer.Instruction] [Serde Vault.Instruction]
    (programId : ProgramId) : Guest :=
  if programId = authTransfer then AuthenticatedTransfer.main
  else if programId = vault then main
  else raid

def state : V03State := .ofAccounts
  [deployedAt authTransfer, deployedAt vault, deployedAt raider,
   (aliceVault, { Account.ownedBy authTransfer with balance := 10 }),
   (thief, .ownedBy raider)]

/-- Nobody signs. -/
def raidTx : PublicTransaction :=
  ⟨⟨vault, [thief, aliceVault], [], serde.toWords (.transfer alice 5)⟩, ⟨[]⟩⟩

def claimTx : PublicTransaction := ⟨claim, ⟨[(claimSignature, key)]⟩⟩

end Raid

section

open scoped AuthenticatedTransfer
open Raid

theorem raid_setting :
    Setting (.ofGuests guests) authTransfer vault alice where
  transfers := executes_ofGuests rfl
  vaults := executes_ofGuests rfl
  distinct := by decide +kernel
  ownsAccounts := by decide +kernel
  vaultId := Sha256.unambiguous_ofTable (by decide +kernel) (by decide +kernel)
  vaultSeed := Sha256.unambiguous_ofTable (by decide +kernel) (by decide +kernel)

/-- The deposit of the thief takes 5 from the vault of `alice`, who is not authorized in any
way. -/
theorem vault_drained_by_deposit :
    Setting (.ofGuests guests) authTransfer vault alice ∧
      computeVaultAccountId vault alice = aliceVault ∧
      (state.getAccountById aliceVault).programOwner = ofProgramId authTransfer ∧
      (state.getAccountById aliceVault).balance = 10 ∧
      (∃ state', transitionFromPublicTransaction (.ofGuests guests) state raidTx 0 0
          = .ok state' ∧ (state'.getAccountById aliceVault).balance = 5) ∧
      ¬AuthorizedIn (.ofGuests guests) raidTx state 0 0 alice := by
  refine ⟨raid_setting, by decide +kernel, by decide +kernel, by decide +kernel,
    by decide +kernel, ?_⟩
  rintro (⟨signature, publicKey, hmem, -⟩ | hdelegated)
  · exact absurd hmem (by simp [raidTx])
  · revert hdelegated
    decide +kernel

theorem alice_claims :
    ∃ state', transitionFromPublicTransaction (.ofGuests guests) state claimTx 0 0
        = .ok state' ∧ (state'.getAccountById aliceVault).balance = 5 ∧
      AuthorizedIn (.ofGuests guests) claimTx state 0 0 alice := by
  obtain ⟨state', h, hbalance⟩ : ∃ state',
      transitionFromPublicTransaction (.ofGuests guests) state claimTx 0 0
        = .ok state' ∧ (state'.getAccountById aliceVault).balance = 5 := by decide +kernel
  refine ⟨state', h, hbalance, ?_⟩
  have hid : computeVaultAccountId vault alice = aliceVault := by
    decide +kernel
  refine vault_consent raid_setting (by decide +kernel) h ?_ ?_
  · -- the only call of the vault program is a claim
    intro v hv hvault amount sender recipientVault hwords
    have hclaim : ∀ v ∈ callTree (.ofGuests guests) claimTx state 0 0,
        v.call.1.programId = vault →
        fromWords v.call.1.instructionData = some (Vault.Instruction.claim 5) := by
      decide +kernel
    exact absurd (hwords.symm.trans (hclaim v hv hvault)) (by simp)
  · rw [hid, hbalance]
    decide +kernel

end

end VaultConsent

end Lssa
