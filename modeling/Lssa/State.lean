/-
The chain state.

`V03State` (`lee/state_machine/src/state/mod.rs`) holds the public accounts, the
set of commitments to private accounts with its past roots, and the nullifiers
of spent ones.  An account that was never written reads as `Account.default`.

A transaction reaches the state as a `StateDiff`, applied in one piece by
`applyStateDiff`: the public accounts of the diff are written, the nonce of every
signer goes up by one, the commitments and nullifiers are added and a deployed
program is stored.  `applyStateDiff` is `none` where the source panics.

* `overlay` — the accounts as a pending diff leaves them;
* `SameFunds` — two accounts that differ in their nonce at most;
* `applyStateDiff_funds` — applying a diff without a program leaves every account
  as the overlay has it, up to the nonce.
-/
import Lssa.Library.Ledger
import Lssa.MerkleTree
import Lssa.PrivateAccount

open Outcome

namespace Lssa

export Ledger (Map get_insert insertAll)
open Ledger

/-! ### Private state -/

structure CommitmentSet where
  merkleTree : MerkleTree
  commitments : Map Commitment ℕ
  rootHistory : Finset CommitmentSetDigest

namespace CommitmentSet

/-- `CommitmentSet::digest`. -/
def digest (set : CommitmentSet) : Option CommitmentSetDigest := set.merkleTree.root

/-- One round of `CommitmentSet::extend`. -/
def insert [Sha256] (set : CommitmentSet) (commitment : Commitment) : Option CommitmentSet := do
  let (merkleTree, index) ← set.merkleTree.insert commitment.value
  pure { set with merkleTree, commitments := set.commitments.insert commitment index }

/-- `CommitmentSet::extend`. -/
def extend [Sha256] (set : CommitmentSet) (commitments : List Commitment) :
    Option CommitmentSet := do
  let set ← commitments.foldlM CommitmentSet.insert set
  let root ← set.digest
  pure { set with rootHistory := Insert.insert root set.rootHistory }

/-- `CommitmentSet::get_proof_for`. -/
def getProofFor (set : CommitmentSet) (commitment : Commitment) : Option MembershipProof := do
  let index ← set.commitments.lookup commitment
  let path ← set.merkleTree.getAuthenticationPathFor index
  pure (index, path)

/-- `CommitmentSet::contains`. -/
def contains (set : CommitmentSet) (commitment : Commitment) : Bool :=
  decide (commitment ∈ set.commitments)

/-- `CommitmentSet::with_capacity`. -/
def withCapacity (capacity : ℕ) : Option CommitmentSet := do
  let merkleTree ← MerkleTree.withCapacity capacity
  pure { merkleTree, commitments := ∅, rootHistory := ∅ }

end CommitmentSet

/-! ### The state -/

structure V03State where
  publicState : Map AccountId Account
  commitmentSet : CommitmentSet
  nullifierSet : Finset Nullifier

namespace V03State

/-- `V03State::get_account_by_id`. -/
def getAccountById (state : V03State) (accountId : AccountId) : Account :=
  get Account.default state.publicState accountId

/-- `V03State::get_program`: the account a program is stored in. -/
def getProgram (state : V03State) (programId : ProgramId) : Option Account :=
  match state.publicState.lookup (ofProgramId programId) with
  | none => none
  | some account => if account.programOwner = programStorageOwner then some account else none

/-- The native balance held by all public accounts together. -/
def totalBalance (state : V03State) : ℕ :=
  total (fun account : Account => account.balance.val) state.publicState

theorem totalBalance_eq_finsum (state : V03State) :
    state.totalBalance = ∑ᶠ accountId, (state.getAccountById accountId).balance.val :=
  total_eq_finsum (d := Account.default) rfl state.publicState
end V03State

/-! ### Diffs -/

/-- A program as it is executed and deployed. -/
structure Program where
  id : ProgramId
  elf : List UInt8
  deriving DecidableEq

structure StateDiff where
  signerAccountIds : List AccountId
  publicDiff : Map AccountId Account
  newCommitments : List Commitment
  newNullifiers : List Nullifier
  program : Option Program

/-- The account at `accountId` once `diff` is written over `state`. -/
def overlay (state : V03State) (diff : Map AccountId Account) (accountId : AccountId) :
    Account :=
  (diff.lookup accountId).getD (state.getAccountById accountId)

@[simp] theorem overlay_empty (state : V03State) (accountId : AccountId) :
    overlay state ∅ accountId = state.getAccountById accountId := by
  simp [overlay]

/-- Give the account at `accountId` its next nonce. -/
def incrementNonce (publicState : Map AccountId Account) (accountId : AccountId) :
    Option (Map AccountId Account) := do
  let account := get Account.default publicState accountId
  let nonce ← account.nonce.publicAccountNonceIncrement
  pure (publicState.insert accountId { account with nonce })

/-- `V03State::insert_program`. -/
def insertProgram (publicState : Map AccountId Account) (program : Program) :
    Option (Map AccountId Account) := do
  let data ← Data.tryFrom program.elf
  pure (publicState.insert (ofProgramId program.id)
    { Account.default with programOwner := programStorageOwner, data })

/-- Write the accounts of a diff. -/
def writeDiff (publicState diff : Map AccountId Account) :
    Map AccountId Account :=
  insertAll publicState (diff.entries.map fun entry => (entry.1, entry.2))

/-- `V03State::apply_state_diff`. -/
def V03State.applyStateDiff [Sha256] (state : V03State) (diff : StateDiff) : Option V03State := do
  let written := writeDiff state.publicState diff.publicDiff
  let bumped ← diff.signerAccountIds.foldlM incrementNonce written
  let commitmentSet ← state.commitmentSet.extend diff.newCommitments
  let publicState ← match diff.program with
    | none => some bumped
    | some program => insertProgram bumped program
  let nullifierSet := state.nullifierSet ∪ diff.newNullifiers.toFinset
  pure { publicState, commitmentSet, nullifierSet }

theorem get_writeDiff (state : V03State) (diff : Map AccountId Account)
    (accountId : AccountId) :
    get Account.default (writeDiff state.publicState diff) accountId
      = overlay state diff accountId := by
  have hkeys : (diff.entries.map fun entry => (entry.1, entry.2)).map Prod.fst = diff.keys := by
    rw [map_map]
    rfl
  unfold writeDiff overlay Ledger.get
  cases hlook : diff.lookup accountId with
  | none =>
    have hnot : accountId ∉ diff.keys := by
      rw [AList.mem_keys.symm.not]
      exact lookup_eq_none.mp hlook
    rw [lookup_insertAll_of_notMem (by rw [hkeys]; exact hnot)]
    rfl
  | some account =>
    have hmem : (accountId, account) ∈ diff.entries.map fun entry => (entry.1, entry.2) :=
      mem_map.mpr ⟨⟨accountId, account⟩, mem_lookup_iff.mp hlook, rfl⟩
    rw [lookup_insertAll_of_mem (by rw [hkeys]; exact diff.keys_nodup) hmem]
    rfl

/-! ### What applying a diff does to an account -/

/-- Same owner, balance and data: the nonce is the only difference, if any. -/
structure SameFunds (a b : Account) : Prop where
  programOwner : a.programOwner = b.programOwner
  balance : a.balance = b.balance
  data : a.data = b.data

theorem SameFunds.refl (a : Account) : SameFunds a a := ⟨rfl, rfl, rfl⟩

theorem SameFunds.trans {a b c : Account} (hab : SameFunds a b) (hbc : SameFunds b c) :
    SameFunds a c :=
  ⟨hab.programOwner.trans hbc.programOwner, hab.balance.trans hbc.balance, hab.data.trans hbc.data⟩

variable {m m' : Map AccountId Account} {state state' : V03State} {diff : StateDiff}

theorem incrementNonce_funds {signer : AccountId} (h : incrementNonce m signer = some m')
    (accountId : AccountId) :
    SameFunds (get Account.default m' accountId) (get Account.default m accountId) ∧
      (accountId ≠ signer →
        get Account.default m' accountId = get Account.default m accountId) := by
  obtain ⟨nonce, -, hm'⟩ := bind_eq_some_iff.mp h
  have hm' : m.insert signer _ = m' := some.inj hm'
  rw [← hm', get_insert]
  by_cases heq : accountId = signer
  · subst heq
    rw [if_pos rfl]
    exact ⟨⟨rfl, rfl, rfl⟩, fun hne => absurd rfl hne⟩
  · rw [if_neg heq]
    exact ⟨SameFunds.refl _, fun _ => rfl⟩

theorem incrementNonces_funds {signers : List AccountId}
    (h : signers.foldlM incrementNonce m = some m') (accountId : AccountId) :
    SameFunds (get Account.default m' accountId) (get Account.default m accountId) ∧
      (accountId ∉ signers →
        get Account.default m' accountId = get Account.default m accountId) := by
  induction signers generalizing m with
  | nil =>
    have hm : m = m' := by simpa using h
    subst hm
    exact ⟨SameFunds.refl _, fun _ => rfl⟩
  | cons signer signers ih =>
    rw [foldlM_cons] at h
    obtain ⟨mid, hmid, hrest⟩ := bind_eq_some_iff.mp h
    obtain ⟨hstep, hstepEq⟩ := incrementNonce_funds hmid accountId
    obtain ⟨hrun, hrunEq⟩ := ih hrest
    refine ⟨hrun.trans hstep, fun hnot => ?_⟩
    rw [mem_cons, not_or] at hnot
    rw [hrunEq hnot.2, hstepEq hnot.1]

/-- A nonce goes up by one for each time the account signs. -/
theorem incrementNonces_nonce {signers : List AccountId}
    (h : signers.foldlM incrementNonce m = some m') (accountId : AccountId) :
    (get Account.default m' accountId).nonce.value.val
      = (get Account.default m accountId).nonce.value.val + signers.count accountId := by
  induction signers generalizing m with
  | nil =>
    have hm : m = m' := by simpa using h
    rw [hm, List.count_nil, Nat.add_zero]
  | cons signer signers ih =>
    rw [foldlM_cons] at h
    obtain ⟨mid, hmid, hrest⟩ := bind_eq_some_iff.mp h
    obtain ⟨nonce, hnonce, hmid⟩ := bind_eq_some_iff.mp hmid
    have hmid : m.insert signer _ = mid := some.inj hmid
    have hval : nonce.value.val = (get Account.default m signer).nonce.value.val + 1 := by
      unfold Nonce.publicAccountNonceIncrement at hnonce
      split at hnonce
      · rw [← some.inj hnonce]
      · cases hnonce
    rw [ih hrest, ← hmid, get_insert, List.count_cons]
    by_cases heq : accountId = signer
    · subst heq
      rw [if_pos rfl, hval, beq_self_eq_true, if_pos rfl]
      omega
    · rw [if_neg heq, if_neg (by simpa using fun h' : signer = accountId => heq h'.symm)]
      omega

section

variable [Sha256] (h : state.applyStateDiff diff = some state')

include h

theorem V03State.applyStateDiff_ok :
    ∃ bumped, diff.signerAccountIds.foldlM incrementNonce
        (writeDiff state.publicState diff.publicDiff) = some bumped ∧
      state.commitmentSet.extend diff.newCommitments = some state'.commitmentSet ∧
      state'.nullifierSet = state.nullifierSet ∪ diff.newNullifiers.toFinset ∧
      (match diff.program with
        | none => some bumped
        | some program => insertProgram bumped program) = some state'.publicState := by
  obtain ⟨bumped, hbumped, h⟩ := bind_eq_some_iff.mp h
  obtain ⟨commitmentSet, hset, h⟩ := bind_eq_some_iff.mp h
  cases hprogram : diff.program with
  | none =>
    rw [hprogram] at h
    rw [← some.inj h]
    exact ⟨bumped, hbumped, hset, rfl, rfl⟩
  | some program =>
    rw [hprogram] at h
    obtain ⟨publicState, hpublic, h⟩ := bind_eq_some_iff.mp h
    rw [← some.inj h]
    exact ⟨bumped, hbumped, hset, rfl, hpublic⟩

/-- Applying a diff without a program leaves every account as the diff has it, a
signer's nonce apart. -/
theorem V03State.applyStateDiff_funds (hprogram : diff.program = none) (accountId : AccountId) :
    SameFunds (state'.getAccountById accountId) (overlay state diff.publicDiff accountId) ∧
      (accountId ∉ diff.signerAccountIds →
        state'.getAccountById accountId = overlay state diff.publicDiff accountId) := by
  obtain ⟨bumped, hbumped, -, -, hpublic⟩ := applyStateDiff_ok h
  rw [hprogram] at hpublic
  have hfunds := incrementNonces_funds hbumped accountId
  rwa [get_writeDiff, some.inj hpublic] at hfunds

theorem V03State.applyStateDiff_nonce (hprogram : diff.program = none) (accountId : AccountId) :
    (state'.getAccountById accountId).nonce.value.val
      = (overlay state diff.publicDiff accountId).nonce.value.val
        + diff.signerAccountIds.count accountId := by
  obtain ⟨bumped, hbumped, -, -, hpublic⟩ := applyStateDiff_ok h
  rw [hprogram] at hpublic
  rw [getAccountById, ← some.inj hpublic, incrementNonces_nonce hbumped, get_writeDiff]

/-- Commitments and nullifiers of a diff are added to those of the state. -/
theorem V03State.applyStateDiff_private :
    state.commitmentSet.extend diff.newCommitments = some state'.commitmentSet ∧
      state'.nullifierSet = state.nullifierSet ∪ diff.newNullifiers.toFinset := by
  obtain ⟨-, -, hset, hnullifiers, -⟩ := applyStateDiff_ok h
  exact ⟨hset, hnullifiers⟩

variable {program : Program} (hprogram : diff.program = some program)

include hprogram

/-- A deployment writes one account, that of the program. -/
theorem V03State.applyStateDiff_deployment (hsigners : diff.signerAccountIds = [])
    (hdiff : diff.publicDiff = ∅) {accountId : AccountId}
    (hne : accountId ≠ .ofProgramId program.id) :
    state'.getAccountById accountId = state.getAccountById accountId := by
  obtain ⟨bumped, hbumped, -, -, hpublic⟩ := applyStateDiff_ok h
  rw [hprogram] at hpublic
  obtain ⟨data, -, hinserted⟩ := bind_eq_some_iff.mp hpublic
  rw [hsigners, hdiff] at hbumped
  have hwritten : state.publicState = bumped := some.inj hbumped
  rw [getAccountById, getAccountById, ← some.inj hinserted, get_insert, if_neg hne, hwritten]

/-- The account of a program that is deployed is owned by the program storage. -/
theorem V03State.applyStateDiff_stores :
    ∃ account, state'.getProgram program.id = some account := by
  obtain ⟨bumped, -, -, -, hpublic⟩ := applyStateDiff_ok h
  rw [hprogram] at hpublic
  obtain ⟨data, -, hinserted⟩ := bind_eq_some_iff.mp hpublic
  refine ⟨{ Account.default with programOwner := programStorageOwner, data }, ?_⟩
  rw [getProgram, ← some.inj hinserted, lookup_insert]
  simp

end

export V03State (applyStateDiff_deployment applyStateDiff_funds applyStateDiff_nonce
  applyStateDiff_private applyStateDiff_stores)

/-! ### Small states -/

/-- `DUMMY_COMMITMENT`. -/
def dummyCommitment : Commitment :=
  ⟨ofHex 0x37e4d7cf70ddef31ee4f47879b0fb82d684a33d3ee2aa0f30f7cfd3e03e55a1b⟩

/-- `V03State::default`. -/
def V03State.new [Sha256] : Option V03State := do
  let commitmentSet ← CommitmentSet.withCapacity 32
  let commitmentSet ← commitmentSet.extend [dummyCommitment]
  pure { publicState := ∅, commitmentSet, nullifierSet := ∅ }

/-- `V03State::with_public_accounts`. -/
def V03State.withPublicAccounts (state : V03State) (accounts : List (AccountId × Account)) :
    V03State :=
  { state with publicState := insertAll state.publicState accounts }

/-- `V03State::with_private_accounts`. -/
def V03State.withPrivateAccounts [Sha256] (state : V03State)
    (accounts : List (Commitment × Nullifier)) : Option V03State := do
  let commitmentSet ← state.commitmentSet.extend (accounts.map Prod.fst)
  let nullifierSet := state.nullifierSet ∪ (accounts.map Prod.snd).toFinset
  pure { state with commitmentSet, nullifierSet }

/-- The program id with one word that is not zero. -/
def ProgramId.ofWord (word : UInt32) : ProgramId := ⟨[word, 0, 0, 0, 0, 0, 0, 0], rfl⟩

/-- Public accounts over an empty private state. -/
def V03State.ofAccounts (accounts : List (AccountId × Account)) : V03State where
  publicState := insertAll ∅ accounts
  commitmentSet := ⟨⟨[.replicate 32 0], 1, 0⟩, ∅, ∅⟩
  nullifierSet := ∅

/-- What holds of the default account and of the listed ones holds of all. -/
theorem V03State.forall_ofAccounts {P : Account → Prop} {accounts : List (AccountId × Account)}
    (hdefault : P .default) (h : ∀ entry ∈ accounts, P entry.2) (accountId : AccountId) :
    P ((V03State.ofAccounts accounts).getAccountById accountId) := by
  show P (((insertAll ∅ accounts).lookup accountId).getD .default)
  rw [lookup_insertAll]
  cases hlast : (accounts.filter fun entry => entry.1 = accountId).getLast? with
  | none => exact hdefault
  | some entry => exact h entry (List.mem_of_mem_filter (List.mem_of_getLast? hlast))

/-- An empty account of a program. -/
abbrev Account.ownedBy (programId : ProgramId) : Account :=
  { Account.default with programOwner := .ofProgramId programId }

/-- An account of a program with some data. -/
abbrev Account.storing (programId : ProgramId) (bytes : List UInt8) : Account :=
  { Account.ownedBy programId with data := (Data.tryFrom bytes).getD .empty }

/-- The entry under which a program is deployed. -/
def deployedAt (programId : ProgramId) : AccountId × Account :=
  (ofProgramId programId, { Account.default with programOwner := programStorageOwner })

namespace Sample

def seed : PdaSeed := ⟨.replicate 32 7⟩

/-- The PDA of the program with the id 1. -/
def pda : AccountId :=
  ⟨ofHex 0x7e78138bc02119a4e113355e34ca869c972da5d7f384aa981f4f0c2cc6d8635f⟩

end Sample

end Lssa
