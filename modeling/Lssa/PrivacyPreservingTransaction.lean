/-
Privacy-preserving transactions on the chain.

The circuit runs off the chain; what reaches the chain is its journal, as a message, with
a proof (`lee/state_machine/src/privacy_preserving_transaction`).
`fromPrivacyPreservingTransaction` rebuilds the journal from the message, the state and
the signers, and lets the proof decide.  Receipt verification is a parameter
(`Receipts`); the chain does not learn which program was run.
-/
import Lssa.Circuit.Output
import Lssa.PublicExecution

open Borsh Outcome

namespace Lssa

/-- A serialized receipt. -/
structure Proof where
  value : List UInt8
  deriving DecidableEq

/-- Verification of a receipt against the image of a circuit and the journal. -/
class Receipts where
  isValidForCircuit : Proof → PrivacyPreservingCircuitOutput → ProgramId → Bool

/-! ### Messages -/

namespace PrivacyPreservingTransaction

structure PublicActionWithId where
  accountId : AccountId
  postState : Account
  deriving DecidableEq

structure Message where
  publicActions : List PublicActionWithId
  nonces : List Nonce
  privateActions : List PrivateAction
  blockValidityWindow : ValidityWindow BlockId
  timestampValidityWindow : ValidityWindow Timestamp
  deriving DecidableEq

namespace Message

def commitments (message : Message) : List Commitment :=
  message.privateActions.map (·.commitment)

def nullifiers (message : Message) : List (Nullifier × CommitmentSetDigest) :=
  message.privateActions.map fun action => (action.nullifier, action.root)

def publicAccountIds (message : Message) : List AccountId :=
  message.publicActions.map (·.accountId)

/-- `Message::from_circuit_output`. -/
def fromCircuitOutput (nonces : List Nonce) (output : PrivacyPreservingCircuitOutput) :
    Message where
  publicActions := output.publicActions.map fun action => ⟨action.pre.accountId, action.post⟩
  nonces
  privateActions := output.privateActions
  blockValidityWindow := output.blockValidityWindow
  timestampValidityWindow := output.timestampValidityWindow

/-- The derived Borsh encoding of an account, whose fields come in another order than in
`Account::to_bytes`. -/
def accountBytes (account : Account) : List UInt8 :=
  account.programOwner.value.toList ++ leBytes 16 account.balance.val ++
    borshVec (fun byte => [byte]) account.data.bytes ++ leBytes 16 account.nonce.value.val

def privateActionBytes (action : PrivateAction) : List UInt8 :=
  action.nullifier.value.toList ++ action.root.toList ++ action.commitment.value.toList ++
    borshVec (fun byte => [byte]) action.encryptedPostState.ciphertext.value ++
    borshVec (fun byte => [byte]) action.encryptedPostState.epk.value ++
    [action.encryptedPostState.viewTag]

def windowBytes (window : ValidityWindow U64) : List UInt8 :=
  let bound : Option U64 → List UInt8
    | none => [0]
    | some value => 1 :: leBytes 8 value.val
  bound window.fromBound ++ bound window.toBound

/-- The Borsh encoding of a message. -/
def toBytes (message : Message) : List UInt8 :=
  borshVec (fun action => action.accountId.value.toList ++ accountBytes action.postState)
      message.publicActions ++
    borshVec (fun nonce => leBytes 16 nonce.value.val) message.nonces ++
    borshVec privateActionBytes message.privateActions ++
    windowBytes message.blockValidityWindow ++ windowBytes message.timestampValidityWindow

/-- `Message::hash`. -/
def hash [Sha256] (message : Message) : Bytes 32 :=
  Sha256.hashBytes (ascii "/LEE/v0.3/Message/Privacy/" ++ replicate 6 0 ++ message.toBytes)

end Message

structure WitnessSet where
  signaturesAndPublicKeys : List (Signature × PublicKey)
  proof : Proof
  deriving DecidableEq

/-- `WitnessSet::signatures_are_valid_for`. -/
def WitnessSet.signaturesAreValidFor [Sha256] [Schnorr] (witnessSet : WitnessSet)
    (message : Message) : Bool :=
  let messageHash := message.hash
  witnessSet.signaturesAndPublicKeys.all fun (signature, publicKey) =>
    Schnorr.verifyPrehash publicKey messageHash signature

end PrivacyPreservingTransaction

structure PrivacyPreservingTransaction where
  message : PrivacyPreservingTransaction.Message
  witnessSet : PrivacyPreservingTransaction.WitnessSet
  deriving DecidableEq

/-- `PrivacyPreservingTransaction::signer_account_ids`. -/
def PrivacyPreservingTransaction.signerAccountIds [Sha256] (tx : PrivacyPreservingTransaction) :
    List AccountId :=
  tx.witnessSet.signaturesAndPublicKeys.map fun (_, publicKey) => .ofPublicKey publicKey

/-! ### Validation -/

/-- `V03State::check_commitments_are_new`. -/
def V03State.checkCommitmentsAreNew (state : V03State) (newCommitments : List Commitment) :
    Except LeeError Unit :=
  newCommitments.forM fun commitment =>
    ensure (state.commitmentSet.contains commitment = false)
      (.invalidInput "Commitment already seen")

/-- `V03State::check_nullifiers_are_valid`. -/
def V03State.checkNullifiersAreValid (state : V03State)
    (newNullifiers : List (Nullifier × CommitmentSetDigest)) : Except LeeError Unit :=
  newNullifiers.forM fun (nullifier, digest) => do
    ensure (nullifier ∉ state.nullifierSet) (.invalidInput "Nullifier already seen")
    ensure (digest ∈ state.commitmentSet.rootHistory)
      (.invalidInput "Unrecognized commitment set digest")

/-- `n_unique`. -/
def nUnique {α : Type} [DecidableEq α] (data : List α) : ℕ := data.toFinset.card

/-- The journal that a message claims, with the accounts of the state and the signers'
authorization. -/
def journalOf (state : V03State) (signerAccountIds : List AccountId)
    (message : PrivacyPreservingTransaction.Message) : PrivacyPreservingCircuitOutput where
  publicActions := message.publicActions.map fun action =>
    { pre :=
        { account := state.getAccountById action.accountId
          isAuthorized := decide (action.accountId ∈ signerAccountIds)
          accountId := action.accountId }
      post := action.postState }
  privateActions := message.privateActions
  blockValidityWindow := message.blockValidityWindow
  timestampValidityWindow := message.timestampValidityWindow

variable [Sha256] [Schnorr] [Receipts]

/-- `ValidatedStateDiff::from_privacy_preserving_transaction_with_circuit_id`. -/
def fromPrivacyPreservingTransaction (circuitId : ProgramId) (tx : PrivacyPreservingTransaction)
    (state : V03State) (blockId : BlockId) (timestamp : Timestamp) :
    Except LeeError StateDiff := do
  let message := tx.message
  ensure (message.privateActions ≠ [])
    (.invalidInput "Empty commitments and empty nullifiers found in message")
  ensure (nUnique message.publicAccountIds = message.publicAccountIds.length)
    (.invalidInput "Duplicate account_ids found in message")
  ensure (nUnique (message.nullifiers.map Prod.fst) = message.nullifiers.length)
    (.invalidInput "Duplicate nullifiers found in message")
  ensure (nUnique message.commitments = message.commitments.length)
    (.invalidInput "Duplicate commitments found in message")
  ensure (message.nonces.length = tx.witnessSet.signaturesAndPublicKeys.length)
    (.invalidInput "Mismatch between number of nonces and signatures/public keys")
  ensure (tx.witnessSet.signaturesAreValidFor message)
    (.invalidInput "Invalid signature for given message and public key")
  let signerAccountIds := tx.signerAccountIds
  checkNonces state signerAccountIds message.nonces
  ensure (message.blockValidityWindow.isValidFor blockId &&
      message.timestampValidityWindow.isValidFor timestamp) .outOfValidityWindow
  ensure (Receipts.isValidForCircuit tx.witnessSet.proof (journalOf state signerAccountIds message)
      circuitId) .invalidPrivacyPreservingProof
  state.checkCommitmentsAreNew message.commitments
  state.checkNullifiersAreValid message.nullifiers
  pure
    { signerAccountIds
      publicDiff := insertAll ∅
        (message.publicActions.map fun action => (action.accountId, action.postState))
      newCommitments := message.commitments
      newNullifiers := message.nullifiers.map Prod.fst
      program := none }

/-! ### Accepted transactions -/

/-- What `from_privacy_preserving_transaction` establishes. -/
structure AcceptedPrivately (circuitId : ProgramId) (tx : PrivacyPreservingTransaction)
    (state : V03State) (diff : StateDiff) : Prop where
  nonempty : tx.message.privateActions ≠ []
  publicNodup : tx.message.publicAccountIds.Nodup
  nullifiersNodup : (tx.message.nullifiers.map Prod.fst).Nodup
  commitmentsNodup : tx.message.commitments.Nodup
  verified : Receipts.isValidForCircuit tx.witnessSet.proof
    (journalOf state tx.signerAccountIds tx.message) circuitId = true
  commitmentsNew : ∀ commitment ∈ tx.message.commitments,
    commitment ∉ state.commitmentSet.commitments
  nullifiersNew : ∀ entry ∈ tx.message.nullifiers, entry.1 ∉ state.nullifierSet
  rootsKnown : ∀ entry ∈ tx.message.nullifiers, entry.2 ∈ state.commitmentSet.rootHistory
  diff_eq : diff =
    { signerAccountIds := tx.signerAccountIds
      publicDiff := insertAll ∅
        (tx.message.publicActions.map fun action => (action.accountId, action.postState))
      newCommitments := tx.message.commitments
      newNullifiers := tx.message.nullifiers.map Prod.fst
      program := none }

omit [Sha256] [Schnorr] [Receipts] in
theorem nodup_of_nUnique {α : Type} [DecidableEq α] {data : List α}
    (h : nUnique data = data.length) : data.Nodup := by
  rw [nUnique, List.card_toFinset] at h
  rw [← (List.dedup_sublist data).eq_of_length h]
  exact List.nodup_dedup _

theorem fromPrivacyPreservingTransaction_ok {circuitId : ProgramId}
    {tx : PrivacyPreservingTransaction} {state : V03State} {blockId : BlockId}
    {timestamp : Timestamp} {diff : StateDiff}
    (h : fromPrivacyPreservingTransaction circuitId tx state blockId timestamp = .ok diff) :
    AcceptedPrivately circuitId tx state diff := by
  obtain ⟨hnonempty, h⟩ := ensure_bind_eq_ok.mp h
  obtain ⟨hpublic, h⟩ := ensure_bind_eq_ok.mp h
  obtain ⟨hnullifiers, h⟩ := ensure_bind_eq_ok.mp h
  obtain ⟨hcommitments, h⟩ := ensure_bind_eq_ok.mp h
  obtain ⟨-, h⟩ := ensure_bind_eq_ok.mp h
  obtain ⟨-, h⟩ := ensure_bind_eq_ok.mp h
  obtain ⟨_, -, h⟩ := bind_eq_ok.mp h
  obtain ⟨-, h⟩ := ensure_bind_eq_ok.mp h
  obtain ⟨hverified, h⟩ := ensure_bind_eq_ok.mp h
  obtain ⟨_, hnew, h⟩ := bind_eq_ok.mp h
  obtain ⟨_, hvalid, h⟩ := bind_eq_ok.mp h
  have hround := fun entry hentry => ensure_bind_eq_ok.mp (forM_eq_ok.mp hvalid entry hentry)
  exact
    { nonempty := hnonempty
      publicNodup := nodup_of_nUnique hpublic
      nullifiersNodup := nodup_of_nUnique (by rw [hnullifiers, length_map])
      commitmentsNodup := nodup_of_nUnique hcommitments
      verified := hverified
      commitmentsNew := fun commitment hmem =>
        of_decide_eq_false (ensure_eq_ok.mp (forM_eq_ok.mp hnew commitment hmem))
      nullifiersNew := fun entry hentry => (hround entry hentry).1
      rootsKnown := fun entry hentry => ensure_eq_ok.mp (hround entry hentry).2
      diff_eq := (ok.inj h).symm }

section

omit [Schnorr]

variable {circuitId : ProgramId} {ptx : PrivacyPreservingTransaction} {state state' : V03State}
  {diff : StateDiff} (h : AcceptedPrivately circuitId ptx state diff)

include h

/-- A public account is left as it is by an accepted privacy-preserving transaction, or as the one
action with it says. -/
theorem overlay_privately (accountId : AccountId) :
    overlay state diff.publicDiff accountId = state.getAccountById accountId ∨
      ∃ action ∈ ptx.message.publicActions, action.accountId = accountId ∧
        overlay state diff.publicDiff accountId = action.postState := by
  have hkeys : (ptx.message.publicActions.map
      fun action => (action.accountId, action.postState)).map Prod.fst
        = ptx.message.publicAccountIds := by
    rw [map_map]
    rfl
  unfold overlay
  by_cases hmem : accountId ∈ ptx.message.publicAccountIds
  · obtain ⟨action, haction, rfl⟩ := mem_map.mp hmem
    have hlook : diff.publicDiff.lookup action.accountId = some action.postState := by
      rw [h.diff_eq]
      exact Ledger.lookup_insertAll_of_mem (hkeys ▸ h.publicNodup)
        (mem_map.mpr ⟨action, haction, rfl⟩)
    exact .inr ⟨action, haction, rfl, by rw [hlook, getD_some]⟩
  · have hlook : diff.publicDiff.lookup accountId = none := by
      rw [h.diff_eq]
      exact (Ledger.lookup_insertAll_of_notMem (hkeys ▸ hmem)).trans (AList.lookup_empty _)
    exact .inl (by rw [hlook, getD_none])

theorem AcceptedPrivately.funds (happly : state.applyStateDiff diff = some state')
    (accountId : AccountId) :
    SameFunds (state'.getAccountById accountId) (overlay state diff.publicDiff accountId) :=
  (applyStateDiff_funds happly (by rw [h.diff_eq]) accountId).1

/-- After the transaction an account is as before, or as the action says, up to the nonce. -/
theorem AcceptedPrivately.same_or_action (happly : state.applyStateDiff diff = some state')
    (accountId : AccountId) :
    SameFunds (state'.getAccountById accountId) (state.getAccountById accountId) ∨
      ∃ action ∈ ptx.message.publicActions, action.accountId = accountId ∧
        SameFunds (state'.getAccountById accountId) action.postState := by
  have hfunds := h.funds happly accountId
  rcases overlay_privately h accountId with hsame | ⟨action, haction, hid, hpost⟩
  · exact .inl (hsame ▸ hfunds)
  · exact .inr ⟨action, haction, hid, hpost ▸ hfunds⟩

section

variable {accountId : AccountId} (hunlisted : accountId ∉ ptx.message.publicAccountIds)

include hunlisted

theorem overlay_unlisted :
    overlay state diff.publicDiff accountId = state.getAccountById accountId := by
  rcases overlay_privately h accountId with hsame | ⟨action, haction, hid, -⟩
  · exact hsame
  · exact absurd (mem_map.mpr ⟨action, haction, hid⟩) hunlisted

/-- An account that the transaction does not list is as before, up to the nonce. -/
theorem AcceptedPrivately.same_of_unlisted (happly : state.applyStateDiff diff = some state') :
    SameFunds (state'.getAccountById accountId) (state.getAccountById accountId) :=
  overlay_unlisted h hunlisted ▸ h.funds happly accountId

end

end

end Lssa
