/-
Private accounts: keys, identifiers, commitments and nullifiers.

A private account never appears in the state.  The state holds a commitment to
it, and a nullifier once it has been spent
(`lee/state_machine/core/src/{nullifier,commitment,account}.rs`).  Its id is
derived from its nullifier and viewing keys, so that whoever shows keys for an
id controls it; a private PDA mixes in the program and a seed.

Every derivation hashes a tagged byte string.  The tags keep the three families
of ids apart: `publicPdaBytes_ne_privatePdaBytes`,
`publicPdaBytes_ne_regularPrivateBytes`.
-/
import Lssa.Program

open Borsh

namespace Lssa

open Sha256

/-! ### Keys -/

structure NullifierPublicKey where
  value : Bytes 32
  deriving DecidableEq

abbrev NullifierSecretKey := Bytes 32

structure AuthorizationSecretKey where
  value : Bytes 32
  deriving DecidableEq

/-- An ML-KEM-768 encapsulation key. -/
structure ViewingPublicKey where
  value : Bytes 1184
  deriving DecidableEq

abbrev Identifier := U128

/-- `From<&AuthorizationSecretKey> for NullifierSecretKey`. -/
def AuthorizationSecretKey.nullifierSecretKey [Sha256] (ask : AuthorizationSecretKey) :
    NullifierSecretKey :=
  hashBytes (ascii "/LEE-Keys/v1/Nullifier/Secret" ++ ask.value.toList)

/-- `From<&NullifierSecretKey> for NullifierPublicKey`. -/
def NullifierPublicKey.ofSecretKey [Sha256] (nsk : NullifierSecretKey) : NullifierPublicKey :=
  ⟨hashBytes (ascii "/LEE-Keys/v1/Nullifier/Public" ++ nsk.toList)⟩

/-! ### Identifiers -/

/-- `PRIVATE_ACCOUNT_ID_PREFIX`. -/
def privateAccountIdPrefix : List UInt8 :=
  ascii "/LEE/v0.3/AccountId/Private/" ++ replicate 4 0

/-- `PRIVATE_PDA_PREFIX`. -/
def privatePdaPrefix : List UInt8 :=
  ascii "/LEE/v0.3/AccountId/PrivatePDA/" ++ [0]

/-- The bytes hashed to the id of a regular private account. -/
def regularPrivateBytes (npk : NullifierPublicKey) (vpk : ViewingPublicKey)
    (identifier : Identifier) : List UInt8 :=
  privateAccountIdPrefix ++ (npk.value.toList ++ (vpk.value.toList ++ leBytes 16 identifier.val))

/-- The bytes hashed to the id of a private PDA. -/
def privatePdaBytes (programId : ProgramId) (seed : PdaSeed) (npk : NullifierPublicKey)
    (vpk : ViewingPublicKey) (identifier : Identifier) : List UInt8 :=
  privatePdaPrefix ++ (programId.toBytes.toList ++ (seed.value.toList ++
    (npk.value.toList ++ (vpk.value.toList ++ leBytes 16 identifier.val))))

/-- `AccountId::for_regular_private_account`. -/
def forRegularPrivateAccount [Sha256] (npk : NullifierPublicKey) (vpk : ViewingPublicKey)
    (identifier : Identifier) : AccountId :=
  ⟨hashBytes (regularPrivateBytes npk vpk identifier)⟩

/-- `AccountId::for_private_pda`. -/
def forPrivatePda [Sha256] (programId : ProgramId) (seed : PdaSeed) (npk : NullifierPublicKey)
    (vpk : ViewingPublicKey) (identifier : Identifier) : AccountId :=
  ⟨hashBytes (privatePdaBytes programId seed npk vpk identifier)⟩

/-- Which private account a ciphertext belongs to. -/
inductive PrivateAccountKind
  | regular (identifier : Identifier)
  | pda (programId : ProgramId) (seed : PdaSeed) (identifier : Identifier)
  deriving DecidableEq

/-- `AccountId::for_private_account`. -/
def forPrivateAccount [Sha256] (npk : NullifierPublicKey) (vpk : ViewingPublicKey) :
    PrivateAccountKind → AccountId
  | .regular identifier => forRegularPrivateAccount npk vpk identifier
  | .pda programId seed identifier => forPrivatePda programId seed npk vpk identifier

theorem length_programDerivedAccountIdPrefix : programDerivedAccountIdPrefix.length = 32 := by
  decide

theorem publicPdaBytes_length (programId : ProgramId) (seed : PdaSeed) :
    (publicPdaBytes programId seed).length = 96 := by
  simp [publicPdaBytes, length_programDerivedAccountIdPrefix]

theorem regularPrivateBytes_length (npk : NullifierPublicKey) (vpk : ViewingPublicKey)
    (identifier : Identifier) : (regularPrivateBytes npk vpk identifier).length = 1264 := by
  have hprefix : privateAccountIdPrefix.length = 32 := by decide
  simp [regularPrivateBytes, hprefix]

theorem privatePdaBytes_length (programId : ProgramId) (seed : PdaSeed) (npk : NullifierPublicKey)
    (vpk : ViewingPublicKey) (identifier : Identifier) :
    (privatePdaBytes programId seed npk vpk identifier).length = 1328 := by
  have hprefix : privatePdaPrefix.length = 32 := by decide
  simp [privatePdaBytes, hprefix]

theorem publicPdaBytes_ne_privatePdaBytes (p q : ProgramId) (s t : PdaSeed)
    (npk : NullifierPublicKey) (vpk : ViewingPublicKey) (identifier : Identifier) :
    publicPdaBytes p s ≠ privatePdaBytes q t npk vpk identifier := by
  intro h
  have hlen := congrArg List.length h
  rw [publicPdaBytes_length, privatePdaBytes_length] at hlen
  omega

theorem publicPdaBytes_ne_regularPrivateBytes (p : ProgramId) (s : PdaSeed)
    (npk : NullifierPublicKey) (vpk : ViewingPublicKey) (identifier : Identifier) :
    publicPdaBytes p s ≠ regularPrivateBytes npk vpk identifier := by
  intro h
  have hlen := congrArg List.length h
  rw [publicPdaBytes_length, regularPrivateBytes_length] at hlen
  omega

/-- The nullifier key is forced by the id, over all kinds of private accounts. -/
theorem npk_of_forPrivateAccount_eq [Sha256] {npk npk' : NullifierPublicKey}
    {vpk vpk' : ViewingPublicKey} {kind kind' : PrivateAccountKind}
    (hsafe : Sha256.Unambiguous (forPrivateAccount npk vpk kind).value)
    (h : forPrivateAccount npk' vpk' kind' = forPrivateAccount npk vpk kind) : npk = npk' := by
  suffices hkey : npk.value.toList = npk'.value.toList by
    cases npk; cases npk'
    exact congrArg NullifierPublicKey.mk (List.Vector.eq _ _ hkey)
  have hvalue := congrArg AccountId.value h
  cases kind with
  | regular identifier =>
    cases kind' with
    | regular identifier' =>
      have hbytes := List.append_cancel_left (hsafe _ _ rfl hvalue)
      exact (append_inj hbytes (by simp)).1
    | pda programId' seed' identifier' =>
      have hlen := congrArg List.length (hsafe _ _ rfl hvalue)
      rw [regularPrivateBytes_length, privatePdaBytes_length] at hlen
      omega
  | pda programId seed identifier =>
    cases kind' with
    | regular identifier' =>
      have hlen := congrArg List.length (hsafe _ _ rfl hvalue)
      rw [regularPrivateBytes_length, privatePdaBytes_length] at hlen
      omega
    | pda programId' seed' identifier' =>
      have hbytes := List.append_cancel_left (hsafe _ _ rfl hvalue)
      have hrest := (append_inj (append_inj hbytes (by simp)).2 (by simp)).2
      exact (append_inj hrest (by simp)).1

/-! ### Nonces -/

/-- The first sixteen bytes of a digest as a nonce. -/
def Nonce.ofDigest (digest : Bytes 32) : Nonce :=
  ⟨Fin.ofNat (2 ^ 128) (ofLeBytes (digest.toList.take 16))⟩

/-- `Nonce::private_account_nonce_init`. -/
def Nonce.privateAccountNonceInit [Sha256] (accountId : AccountId) : Nonce :=
  Nonce.ofDigest (hashBytes (accountId.value.toList ++ replicate 32 0))

/-- `Nonce::private_account_nonce_increment`. -/
def Nonce.privateAccountNonceIncrement [Sha256] (nonce : Nonce) (nsk : NullifierSecretKey) :
    Nonce :=
  Nonce.ofDigest (hashBytes (nsk.toList ++ (leBytes 16 nonce.value.val ++ replicate 16 0)))

/-! ### Commitments and nullifiers -/

structure Nullifier where
  value : Bytes 32
  deriving DecidableEq

structure Commitment where
  value : Bytes 32
  deriving DecidableEq

/-- `Nullifier::for_account_update`. -/
def Nullifier.forAccountUpdate [Sha256] (commitment : Commitment) (nsk : NullifierSecretKey) :
    Nullifier :=
  ⟨hashBytes (ascii "/LEE/v0.3/Nullifier/Update/" ++ replicate 5 0 ++
    commitment.value.toList ++ nsk.toList)⟩

/-- `Nullifier::for_account_initialization`. -/
def Nullifier.forAccountInitialization [Sha256] (accountId : AccountId) : Nullifier :=
  ⟨hashBytes (ascii "/LEE/v0.3/Nullifier/Initialize/" ++ [0] ++ accountId.value.toList)⟩

/-- `Nullifier::for_dummy`. -/
def Nullifier.forDummy [Sha256] (nullifierSeed : Bytes 32) : Nullifier :=
  ⟨hashBytes (ascii "/LEE/v0.3/Nullifier/Dummy/" ++ replicate 6 0 ++ nullifierSeed.toList)⟩

/-- What `Commitment::new` hashes: owner, balance, nonce and the hash of the data, under the
id of the account. -/
def Commitment.bytes [Sha256] (accountId : AccountId) (account : Account) : List UInt8 :=
  ascii "/LEE/v0.3/Commitment/" ++ replicate 11 0 ++
    accountId.value.toList ++ account.programOwner.value.toList ++
    leBytes 16 account.balance.val ++ leBytes 16 account.nonce.value.val ++
    (hashBytes account.data.bytes).toList

/-- `Commitment::new`. -/
def Commitment.new [Sha256] (accountId : AccountId) (account : Account) : Commitment :=
  ⟨hashBytes (Commitment.bytes accountId account)⟩

/-- All parts have a fixed length. -/
theorem Commitment.bytes_inj [Sha256] {a b : AccountId} {x y : Account}
    (h : Commitment.bytes a x = Commitment.bytes b y) :
    a = b ∧ x.programOwner = y.programOwner ∧ x.balance = y.balance ∧ x.nonce = y.nonce ∧
      hashBytes x.data.bytes = hashBytes y.data.bytes := by
  have hids : ∀ {i j : AccountId}, i.value.toList = j.value.toList → i = j := by
    rintro ⟨i⟩ ⟨j⟩ hij
    exact congrArg AccountId.mk (List.Vector.eq _ _ hij)
  simp only [Commitment.bytes, append_assoc, List.append_cancel_left_eq] at h
  obtain ⟨hid, h⟩ := append_inj h (by simp)
  obtain ⟨howner, h⟩ := append_inj h (by simp)
  obtain ⟨hbalance, h⟩ := append_inj h (by simp)
  obtain ⟨hnonce, hdata⟩ := append_inj h (by simp)
  exact ⟨hids hid, hids howner, Codec.u128.encode_injective hbalance,
    congrArg Nonce.mk (Codec.u128.encode_injective hnonce), List.Vector.eq _ _ hdata⟩

/-- The id is forced by the commitment. -/
theorem Commitment.accountId_of_new_eq [Sha256] {a b : AccountId} {x y : Account}
    (hsafe : Sha256.Unambiguous (Commitment.new a x).value)
    (h : Commitment.new b y = Commitment.new a x) : a = b :=
  (Commitment.bytes_inj (hsafe _ _ rfl (congrArg Commitment.value h))).1

/-- `Commitment::for_dummy`. -/
def Commitment.forDummy [Sha256] (nullifier : Nullifier) (commitmentSeed : Bytes 32) :
    Commitment :=
  ⟨hashBytes (ascii "/LEE/v0.3/Commitment/Dummy/" ++ replicate 5 0 ++
    nullifier.value.toList ++ commitmentSeed.toList)⟩

abbrev CommitmentSetDigest := Bytes 32

/-- The index of a leaf and the siblings on the way to the root. -/
abbrev MembershipProof := ℕ × List (Bytes 32)

/-- `compute_digest_for_path`. -/
def computeDigestForPath [Sha256] (commitment : Commitment) (proof : MembershipProof) :
    CommitmentSetDigest :=
  (proof.2.foldl (fun (result, levelIndex) node =>
      (if levelIndex % 2 = 0 then hashBytes (result.toList ++ node.toList)
        else hashBytes (node.toList ++ result.toList), levelIndex / 2))
    (hashBytes commitment.value.toList, proof.1)).1

end Lssa
