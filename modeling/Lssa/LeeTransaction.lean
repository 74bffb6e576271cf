/-
Transactions as a node receives and executes them.

`LeeTransaction` (`lez/common/src/transaction.rs`) is a public transaction, a
privacy-preserving one or a deployment.  A transaction of a user comes in through the RPC
(`sendTransaction`), one of a peer through gossip (`evaluateTransaction`); both check the
size, the signatures, and that no public transaction calls a program reserved for the
sequencer.  Executing it (`executeCheckOnState`) adds guards for the system accounts.

The ids of built-in programs, the image id of a bytecode and the decoding of a gossiped
transaction are parameters.
-/
import Mathlib.Data.Nat.Digits.Defs
import Lssa.PrivacyPreservingTransaction

open Outcome

namespace Lssa

/-! ### Deployment -/

/-- The image id of a bytecode, `none` if it does not parse. -/
class ImageId where
  computeImageId : List UInt8 → Option ProgramId

structure ProgramDeploymentTransaction where
  bytecode : List UInt8
  deriving DecidableEq

/-- `ValidatedStateDiff::from_program_deployment_transaction`. -/
def fromProgramDeploymentTransaction [ImageId] (tx : ProgramDeploymentTransaction)
    (state : V03State) : Except LeeError StateDiff :=
  match ImageId.computeImageId tx.bytecode with
  | none => .error .invalidProgramBytecode
  | some programId => do
    ensure (state.getProgram programId).isNone .programAlreadyExists
    pure
      { signerAccountIds := []
        publicDiff := ∅
        newCommitments := []
        newNullifiers := []
        program := some ⟨programId, tx.bytecode⟩ }

/-- An accepted deployment stores a program under its image id, where there was none, and
does nothing else. -/
theorem fromProgramDeploymentTransaction_ok [ImageId] {tx : ProgramDeploymentTransaction}
    {state : V03State} {diff : StateDiff}
    (h : fromProgramDeploymentTransaction tx state = .ok diff) :
    ∃ programId, ImageId.computeImageId tx.bytecode = some programId ∧
      state.getProgram programId = none ∧
      diff =
        { signerAccountIds := [], publicDiff := ∅, newCommitments := [], newNullifiers := []
          program := some ⟨programId, tx.bytecode⟩ } := by
  unfold fromProgramDeploymentTransaction at h
  split at h
  · cases h
  · rename_i programId himage
    obtain ⟨hnone, h⟩ := ensure_bind_eq_ok.mp h
    exact ⟨programId, himage, Option.isNone_iff_eq_none.mp hnone, (ok.inj h).symm⟩

/-! ### Built-in programs and system accounts -/

/-- Ids of programs of the node (`programs::..().id()`), and the image of the circuit. -/
class Builtins where
  crossZoneInbox : ProgramId
  faucet : ProgramId
  bridge : ProgramId
  privacyPreservingCircuit : ProgramId

/-- `is_sequencer_only_program`. -/
def isSequencerOnlyProgram [Builtins] (programId : ProgramId) : Bool :=
  decide (programId = Builtins.crossZoneInbox)

def clockAccountIds : List AccountId :=
  [ ⟨⟨ascii "/LEZ/ClockProgramAccount/0000001", by decide⟩⟩,
    ⟨⟨ascii "/LEZ/ClockProgramAccount/0000010", by decide⟩⟩,
    ⟨⟨ascii "/LEZ/ClockProgramAccount/0000050", by decide⟩⟩ ]

def computeFaucetSeed : PdaSeed := ⟨⟨ascii "/LEZ/v0.3/FaucetSeed/0000000000/", by decide⟩⟩

def computeBridgeSeed : PdaSeed := ⟨⟨ascii "/LEZ/v0.3/BridgeSeed/0000000000/", by decide⟩⟩

def faucetAccountId [Sha256] [Builtins] : AccountId :=
  forPublicPda Builtins.faucet computeFaucetSeed

def bridgeAccountId [Sha256] [Builtins] : AccountId :=
  forPublicPda Builtins.bridge computeBridgeSeed

/-! ### The text of an account id -/

def base58Alphabet : List Char :=
  "123456789ABCDEFGHJKLMNPQRSTUVWXYZabcdefghijkmnopqrstuvwxyz".toList

/-- `Display for AccountId`: base58, a leading zero byte being a one. -/
def AccountId.toBase58 (accountId : AccountId) : String :=
  let bytes := accountId.value.toList
  let digits := (Nat.digits 58 (Borsh.ofLeBytes bytes.reverse)).reverse
  String.ofList (replicate (bytes.takeWhile (· = 0)).length '1' ++
    digits.map fun digit => (base58Alphabet[digit]?).getD '1')

/-! ### Transactions -/

inductive LeeTransaction
  | publicTx (tx : PublicTransaction)
  | privacyPreserving (tx : PrivacyPreservingTransaction)
  | programDeployment (tx : ProgramDeploymentTransaction)
  deriving DecidableEq

inductive TransactionMalformationError
  | invalidSignature
  deriving DecidableEq

/-- The `Debug` text of the error. -/
def TransactionMalformationError.text : TransactionMalformationError → String
  | .invalidSignature => "InvalidSignature"

/-- `validate_doesnt_modify_account`. -/
def validateDoesntModifyAccount (state : V03State) (diff : StateDiff) (accountId : AccountId) :
    Except LeeError Unit :=
  ensure (∀ post ∈ diff.publicDiff.lookup accountId, post = state.getAccountById accountId)
    (.invalidInput ("Transaction modifies restricted system account " ++ accountId.toBase58))

/-- Nothing but the balance changed, and that went up. -/
def onlyBalanceIncreased (pre post : Account) : Prop :=
  { post with balance := pre.balance } = pre ∧ pre.balance < post.balance

instance (pre post : Account) : Decidable (onlyBalanceIncreased pre post) :=
  inferInstanceAs (Decidable (_ ∧ _))

namespace LeeTransaction

section

variable [Sha256] [Schnorr]

/-- `transaction_stateless_check`. -/
def transactionStatelessCheck (tx : LeeTransaction) :
    Except TransactionMalformationError LeeTransaction :=
  match tx with
  | .publicTx ptx =>
    if ptx.witnessSet.isValidFor ptx.message then .ok tx else .error .invalidSignature
  | .privacyPreserving ptx =>
    if ptx.witnessSet.signaturesAreValidFor ptx.message then .ok tx else .error .invalidSignature
  | .programDeployment _ => .ok tx

end

/-- If the transaction is privacy-preserving, it does not list the account. -/
def Unlisted (accountId : AccountId) (tx : LeeTransaction) : Prop :=
  ∀ ptx, tx = .privacyPreserving ptx → accountId ∉ ptx.message.publicAccountIds

/-! ### Ingress -/

/-- The Borsh encoding of a transaction. -/
def toVec : LeeTransaction → List UInt8
  | .publicTx tx =>
    0 :: (tx.message.toBytes ++ witnessBytes tx.witnessSet.signaturesAndPublicKeys)
  | .privacyPreserving tx =>
    1 :: (tx.message.toBytes ++ witnessBytes tx.witnessSet.signaturesAndPublicKeys ++
      borshVec (fun byte => [byte]) tx.witnessSet.proof.value)
  | .programDeployment tx => 2 :: borshVec (fun byte => [byte]) tx.bytecode
where
  witnessBytes (signaturesAndPublicKeys : List (Signature × PublicKey)) : List UInt8 :=
    borshVec (fun entry => entry.1.value.toList ++ entry.2.value.toList) signaturesAndPublicKeys

/-- The Borsh decoding of transactions. -/
class TransactionBorsh where
  fromSlice : List UInt8 → Except String LeeTransaction

/-- `BLOCK_HEADER_OVERHEAD`. -/
def blockHeaderOverhead : ℕ := 200

/-- A public transaction that calls a program reserved for the sequencer. -/
def callsSequencerOnly [Builtins] : LeeTransaction → Bool
  | .publicTx tx => isSequencerOnlyProgram tx.message.programId
  | _ => false

inductive TxEvaluation
  | accept (tx : LeeTransaction)
  | reject (reason : String)
  deriving DecidableEq

variable [Sha256] [Schnorr] [Builtins]

/-- `evaluate_transaction`: what is done with a gossiped transaction. -/
def evaluateTransaction [TransactionBorsh] (data : List UInt8) (maxBlockSize : ℕ) : TxEvaluation :=
  let txSize := data.length
  let maxTxSize := maxBlockSize - blockHeaderOverhead
  if maxTxSize < txSize then
    .reject ("transaction too large: " ++ toString txSize ++ " > " ++ toString maxTxSize)
  else
    match TransactionBorsh.fromSlice data with
    | .error err => .reject ("undecodable transaction: " ++ err)
    | .ok tx =>
      match tx.transactionStatelessCheck with
      | .error err => .reject ("stateless check failed: " ++ err.text)
      | .ok authenticated =>
        if callsSequencerOnly authenticated then .reject "sequencer-only program"
        else .accept authenticated

/-- `send_transaction` up to the mempool: what is done with a submitted transaction. -/
def sendTransaction (tx : LeeTransaction) (maxBlockSize : ℕ) : Except String LeeTransaction := do
  let txSize := tx.toVec.length
  let maxTxSize := maxBlockSize - blockHeaderOverhead
  ensure (txSize ≤ maxTxSize)
    ("Transaction too large: size " ++ toString txSize ++ ", max " ++ toString maxTxSize)
  let authenticatedTx ← tx.transactionStatelessCheck.mapError (·.text)
  ensure (callsSequencerOnly authenticatedTx = false)
    "Program is sequencer-only and cannot be invoked by a user transaction"
  pure authenticatedTx

/-- The transaction reached the mempool with the origin of a user or of a peer. -/
inductive Admitted [TransactionBorsh] (tx : LeeTransaction) : Prop
  | user (submitted : LeeTransaction) (maxBlockSize : ℕ)
      (h : sendTransaction submitted maxBlockSize = .ok tx)
  | gossip (data : List UInt8) (maxBlockSize : ℕ)
      (h : evaluateTransaction data maxBlockSize = .accept tx)

/-- Whichever way it came in, an admitted transaction does not call a program reserved for
the sequencer. -/
theorem Admitted.callsSequencerOnly_eq_false [TransactionBorsh] {tx : LeeTransaction}
    (h : Admitted tx) : callsSequencerOnly tx = false := by
  cases h with
  | user submitted maxBlockSize h =>
    obtain ⟨-, h⟩ := ensure_bind_eq_ok.mp h
    obtain ⟨authenticated, -, h⟩ := bind_eq_ok.mp h
    obtain ⟨hguard, h⟩ := ensure_bind_eq_ok.mp h
    rw [← ok.inj h]
    exact hguard
  | gossip data maxBlockSize h =>
    unfold evaluateTransaction at h
    dsimp only at h
    split at h
    · cases h
    · split at h
      · cases h
      · split at h
        · cases h
        · split at h
          · cases h
          · rename_i hguard
            rw [← TxEvaluation.accept.inj h]
            exact Bool.eq_false_iff.mpr hguard

/-! ### Execution -/

variable [Receipts] [ImageId]

/-- `compute_state_diff`. -/
def computeStateDiff (exec : Executor) (tx : LeeTransaction) (state : V03State)
    (blockId : BlockId) (timestamp : Timestamp) : Except LeeError StateDiff :=
  match tx with
  | .publicTx tx => fromPublicTransaction exec tx state blockId timestamp
  | .privacyPreserving tx =>
    fromPrivacyPreservingTransaction Builtins.privacyPreservingCircuit tx state blockId timestamp
  | .programDeployment tx => fromProgramDeploymentTransaction tx state

/-- `execute_on_state`: what is done with the transactions of an accepted block. -/
def executeOnState (exec : Executor) (tx : LeeTransaction) (state : V03State)
    (blockId : BlockId) (timestamp : Timestamp) : Except TransitionError V03State :=
  state.apply (tx.computeStateDiff exec state blockId timestamp)

/-- `validate_bridge_account_modification`. -/
def validateBridgeAccountModification (tx : LeeTransaction) (state : V03State)
    (diff : StateDiff) : Except LeeError Unit :=
  match diff.publicDiff.lookup bridgeAccountId with
  | none => .ok ()
  | some post =>
    match tx with
    | .publicTx _ =>
      ensure (onlyBalanceIncreased (state.getAccountById bridgeAccountId) post)
        (.invalidInput ("Transaction modifies restricted system bridge account "
          ++ bridgeAccountId.toBase58))
    | _ =>
      .error (.invalidInput ("Non-public transaction cannot modify system bridge account "
        ++ bridgeAccountId.toBase58))

/-- `validate_on_state`. -/
def validateOnState (exec : Executor) (tx : LeeTransaction) (state : V03State)
    (blockId : BlockId) (timestamp : Timestamp) : Except LeeError StateDiff := do
  let diff ← tx.computeStateDiff exec state blockId timestamp
  (clockAccountIds ++ [faucetAccountId]).forM (validateDoesntModifyAccount state diff)
  tx.validateBridgeAccountModification state diff
  pure diff

/-- `execute_check_on_state`: what is done with the transactions of users and peers. -/
def executeCheckOnState (exec : Executor) (tx : LeeTransaction) (state : V03State)
    (blockId : BlockId) (timestamp : Timestamp) : Except TransitionError V03State :=
  state.apply (tx.validateOnState exec state blockId timestamp)

theorem executeCheckOnState_ok {exec : Executor} {tx : LeeTransaction} {state state' : V03State}
    {blockId : BlockId} {timestamp : Timestamp}
    (h : tx.executeCheckOnState exec state blockId timestamp = .ok state') :
    ∃ diff, tx.computeStateDiff exec state blockId timestamp = .ok diff ∧
      state.applyStateDiff diff = some state' := by
  obtain ⟨diff, hvalid, happly⟩ := V03State.apply_ok h
  obtain ⟨diff', hdiff, hrest⟩ := bind_eq_ok.mp hvalid
  obtain ⟨_, -, hrest⟩ := bind_eq_ok.mp hrest
  obtain ⟨_, -, hrest⟩ := bind_eq_ok.mp hrest
  obtain rfl : diff' = diff := ok.inj hrest
  exact ⟨diff', hdiff, happly⟩

end LeeTransaction

/-! The node of most samples: nothing is encrypted, proved, deployed or decoded. -/

namespace Idle

scoped instance : Builtins := ⟨.ofWord 1, .ofWord 4, .ofWord 5, .ofWord 6⟩

scoped instance : MlKem := ⟨fun _ _ => none⟩

scoped instance : ChaCha20 := ⟨fun _ text => text⟩

scoped instance : Receipts := ⟨fun _ _ _ => false⟩

scoped instance : ImageId := ⟨fun _ => none⟩

scoped instance : LeeTransaction.TransactionBorsh := ⟨fun _ => .error "unexpected end of input"⟩

end Idle

end Lssa
