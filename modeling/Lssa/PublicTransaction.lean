/-
Public transactions and why they are refused.

A public transaction (`lee/state_machine/src/public_transaction`) names a
program, the accounts to call it on and an instruction, and is signed by any
number of keys over the hash of its message.  A signature speaks for the account
derived from the key.  The Schnorr verification of the curve library is a
parameter (`Schnorr`).

`LeeError` lists the refusals of `lee/state_machine/src/error.rs` that the
modelled functions return.
-/
import Lssa.State

open Borsh Outcome

namespace Lssa

/-! ### Errors -/

inductive InvalidProgramBehaviorError
  | inconsistentAccountPreState (accountId : AccountId) (expected actual : Account)
  | invalidAccountAuthorization (accountId : AccountId)
  | authorizedAccountMarkedAsNotAuthorized (accountId : AccountId)
  | mismatchedProgramId (expected actual : ProgramId)
  | mismatchedCallerProgramId (expected actual : Option ProgramId)
  | executionValidationFailed (error : ExecutionValidationError)
  | claimedNonDefaultAccount (accountId : AccountId)
  | claimedUnauthorizedAccount (accountId : AccountId)
  | mismatchedPdaClaim (expected actual : AccountId)
  | defaultAccountModifiedWithoutClaim (accountId : AccountId)
  | declaredAccountMissingFromOutput (accountId : AccountId)
  | undeclaredProgramDependency (programId : ProgramId)
  deriving DecidableEq

inductive LeeError
  | invalidInput (message : String)
  | invalidProgramBehavior (error : InvalidProgramBehaviorError)
  | programWriteInputFailed (message : String)
  | programExecutionFailed (message : String)
  | invalidPrivacyPreservingProof
  | invalidProgramBytecode
  | programAlreadyExists
  | maxChainedCallsDepthExceeded
  | outOfValidityWindow
  | circuitProvingError
  deriving DecidableEq

/-! ### Signatures -/

structure Signature where
  value : Bytes 64
  deriving DecidableEq

structure PublicKey where
  value : Bytes 32
  deriving DecidableEq

/-- BIP-340 verification; a key or a signature that does not parse verifies
nothing. -/
class Schnorr where
  verifyPrehash : PublicKey → Bytes 32 → Signature → Bool

/-- A verifier that knows some signatures. -/
@[reducible] def Schnorr.ofTable (table : List (PublicKey × Bytes 32 × Signature)) : Schnorr :=
  ⟨fun publicKey prehash signature => decide ((publicKey, prehash, signature) ∈ table)⟩

/-- A signature from its two halves. -/
def Signature.ofHex (r s : ℕ) : Signature :=
  ⟨⟨(Node.ofHex r).toList ++ (Node.ofHex s).toList, by simp⟩⟩

/-- The bytes hashed to the account of a key. -/
def publicAccountBytes (key : PublicKey) : List UInt8 :=
  ascii "/LEE/v0.3/AccountId/Public/" ++ replicate 5 0 ++ key.value.toList

/-- `From<&PublicKey> for AccountId`. -/
def AccountId.ofPublicKey [Sha256] (key : PublicKey) : AccountId :=
  ⟨Sha256.hashBytes (publicAccountBytes key)⟩

theorem publicAccountBytes_ne_publicPdaBytes (key : PublicKey) (programId : ProgramId)
    (seed : PdaSeed) : publicAccountBytes key ≠ publicPdaBytes programId seed := by
  intro h
  have hkey : (publicAccountBytes key).take 32
      = ascii "/LEE/v0.3/AccountId/Public/" ++ replicate 5 0 := List.take_left' (by decide)
  have hpda : (publicPdaBytes programId seed).take 32 = programDerivedAccountIdPrefix := by
    rw [publicPdaBytes, append_assoc]
    exact List.take_left' (by decide)
  -- the version in the domain separator differs
  rw [h, hpda] at hkey
  exact absurd hkey (by decide)

/-- The account of a key is not a PDA. -/
theorem AccountId.ofPublicKey_ne_forPublicPda [Sha256] {accountId : AccountId} {key : PublicKey}
    {programId : ProgramId} {seed : PdaSeed} (hsafe : Sha256.Unambiguous accountId.value)
    (hpda : forPublicPda programId seed = accountId) : .ofPublicKey key ≠ accountId := by
  intro hkey
  exact publicAccountBytes_ne_publicPdaBytes key programId seed
    (hsafe _ _ (congrArg AccountId.value hkey) (congrArg AccountId.value hpda))

/-! ### Messages -/

/-- A Borsh sequence: its length, then its items. -/
def borshVec {α : Type} (item : α → List UInt8) (items : List α) : List UInt8 :=
  leBytes 4 items.length ++ items.flatMap item

theorem length_borshVec {α : Type} {item : α → List UInt8} {k : ℕ} (h : ∀ a, (item a).length = k)
    (items : List α) : (borshVec item items).length = 4 + items.length * k := by
  simp [borshVec, List.length_flatMap, h]

namespace PublicTransaction

structure Message where
  programId : ProgramId
  accountIds : List AccountId
  nonces : List Nonce
  instructionData : InstructionData
  deriving DecidableEq

/-- The Borsh encoding of a message. -/
def Message.toBytes (message : Message) : List UInt8 :=
  message.programId.toBytes.toList ++
    borshVec (fun accountId => accountId.value.toList) message.accountIds ++
    borshVec (fun nonce => leBytes 16 nonce.value.val) message.nonces ++
    borshVec (fun word => leBytes 4 word.toNat) message.instructionData

/-- The bytes hashed to the hash of a message. -/
def Message.hashBytes (message : Message) : List UInt8 :=
  ascii "/LEE/v0.3/Message/Public/" ++ replicate 7 0 ++ message.toBytes

/-- `Message::hash`. -/
def Message.hash [Sha256] (message : Message) : Bytes 32 := Sha256.hashBytes message.hashBytes

structure WitnessSet where
  signaturesAndPublicKeys : List (Signature × PublicKey)
  deriving DecidableEq

/-- `WitnessSet::is_valid_for`. -/
def WitnessSet.isValidFor [Sha256] [Schnorr] (witnessSet : WitnessSet) (message : Message) :
    Bool :=
  let messageHash := message.hash
  witnessSet.signaturesAndPublicKeys.all fun (signature, publicKey) =>
    Schnorr.verifyPrehash publicKey messageHash signature

end PublicTransaction

structure PublicTransaction where
  message : PublicTransaction.Message
  witnessSet : PublicTransaction.WitnessSet
  deriving DecidableEq

namespace PublicTransaction

/-- `PublicTransaction::signer_account_ids`. -/
def signerAccountIds [Sha256] (tx : PublicTransaction) : List AccountId :=
  tx.witnessSet.signaturesAndPublicKeys.map fun (_, publicKey) => AccountId.ofPublicKey publicKey

/-- The transaction carries a valid signature of a key whose account is
`accountId`. -/
def SignedBy [Sha256] [Schnorr] (tx : PublicTransaction) (accountId : AccountId) : Prop :=
  ∃ signature publicKey, (signature, publicKey) ∈ tx.witnessSet.signaturesAndPublicKeys ∧
    Schnorr.verifyPrehash publicKey tx.message.hash signature = true ∧
    AccountId.ofPublicKey publicKey = accountId

end PublicTransaction

/-- The nonces announced are the current ones. -/
def checkNonces (state : V03State) (signerAccountIds : List AccountId) (nonces : List Nonce) :
    Except LeeError Unit :=
  (signerAccountIds.zip nonces).forM fun (accountId, nonce) =>
    ensure ((state.getAccountById accountId).nonce = nonce) (.invalidInput "Nonce mismatch")

/-- `authenticate_public_transaction_signers`. -/
def authenticatePublicTransactionSigners [Sha256] [Schnorr] (tx : PublicTransaction)
    (state : V03State) : Except LeeError (List AccountId) := do
  ensure (tx.message.nonces.length = tx.witnessSet.signaturesAndPublicKeys.length)
    (.invalidInput "Mismatch between number of nonces and signatures/public keys")
  ensure (tx.witnessSet.isValidFor tx.message)
    (.invalidInput "Invalid signature for given message and public key")
  checkNonces state tx.signerAccountIds tx.message.nonces
  pure tx.signerAccountIds

/-- Signers that were authenticated are the accounts of the keys that signed. -/
theorem authenticatePublicTransactionSigners_ok [Sha256] [Schnorr] {tx : PublicTransaction}
    {state : V03State} {signers : List AccountId}
    (h : authenticatePublicTransactionSigners tx state = .ok signers) :
    signers = tx.signerAccountIds ∧ ∀ accountId, accountId ∈ signers ↔ tx.SignedBy accountId := by
  obtain ⟨-, h⟩ := ensure_bind_eq_ok.mp h
  obtain ⟨hvalid, h⟩ := ensure_bind_eq_ok.mp h
  obtain ⟨_, -, h⟩ := bind_eq_ok.mp h
  have hsigners : tx.signerAccountIds = signers := ok.inj h
  refine ⟨hsigners.symm, fun accountId => ?_⟩
  rw [← hsigners, PublicTransaction.signerAccountIds, mem_map]
  constructor
  · rintro ⟨⟨signature, publicKey⟩, hmem, heq⟩
    exact ⟨signature, publicKey, hmem, List.all_eq_true.mp hvalid _ hmem, heq⟩
  · rintro ⟨signature, publicKey, hmem, -, heq⟩
    exact ⟨(signature, publicKey), hmem, heq⟩

/-- Every signer announced the nonce of its account. -/
theorem authenticatePublicTransactionSigners_nonce [Sha256] [Schnorr] {tx : PublicTransaction}
    {state : V03State} {signers : List AccountId}
    (h : authenticatePublicTransactionSigners tx state = .ok signers) {accountId : AccountId}
    (hsigner : accountId ∈ tx.signerAccountIds) :
    ∃ nonce, (accountId, nonce) ∈ tx.signerAccountIds.zip tx.message.nonces ∧
      ∀ entry ∈ tx.signerAccountIds.zip tx.message.nonces,
        (state.getAccountById entry.1).nonce = entry.2 := by
  obtain ⟨hlength, h⟩ := ensure_bind_eq_ok.mp h
  obtain ⟨-, h⟩ := ensure_bind_eq_ok.mp h
  obtain ⟨_, hnonces, -⟩ := bind_eq_ok.mp h
  have hlen : tx.signerAccountIds.length ≤ tx.message.nonces.length := by
    rw [PublicTransaction.signerAccountIds, length_map]
    exact hlength.ge
  rw [← List.map_fst_zip hlen] at hsigner
  obtain ⟨⟨_, nonce⟩, hentry, rfl⟩ := mem_map.mp hsigner
  exact ⟨nonce, hentry, fun entry hmem => ensure_eq_ok.mp (forM_eq_ok.mp hnonces entry hmem)⟩

/-! ### A signer for examples -/

namespace Sample

/-- The BIP-340 key of the secret 3. -/
def key : PublicKey :=
  ⟨ofHex 0xf9308a019258c31049344f85f89d5229b531c845836f99b08601f113bce036f9⟩

/-- The account of the key. -/
def alice : AccountId :=
  ⟨ofHex 0xec2cbcd4488075c4b30678c30351327fdf99f3fe703edc2999b68f8fd12bdbc8⟩

/-- The BIP-340 key of the secret 5. -/
def bobKey : PublicKey :=
  ⟨ofHex 0x2f8bde4d1a07209355b4a7250a5c5128e88b84bddc619ab7cba8d569b240efe4⟩

def bob : AccountId :=
  ⟨ofHex 0xa0900ec388587a4761cdb468fa010e03a6a0e27609929bc002eb0ee5f96c3ea8⟩

end Sample

end Lssa
