/-
Notes: private accounts encrypted to their owner.

Whoever creates a private account encrypts it to the viewing key of its owner
(`lee/state_machine/core/src/encryption`).  ML-KEM encapsulation and the ChaCha20
keystream are parameters; the key derivation and the layout of the plaintext, a header
of fixed length followed by the account, are the source's.

The owner reads the note back with `decrypt`.  If ChaCha20 adds a keystream
(`ChaCha20.AddsKeystream`), it gives what was encrypted (`decrypt_encrypt`).

* **`encodings_faithful`** — accounts are read back from their bytes, whatever follows, from
  no other bytes, and their commitments say which account of which id it is.
-/
import Lssa.PrivateAccount

open Borsh Outcome

namespace Lssa

open Commitment

/-- ML-KEM-768 encapsulation with given randomness; `none` for a key that does not
parse. -/
class MlKem where
  encapsulateDeterministic : ViewingPublicKey → Bytes 32 → Option (Bytes 32 × List UInt8)

/-- The owner's side of ML-KEM-768: the key that a seed makes, and decapsulation with the
seed; `none` for a ciphertext of the wrong length. -/
class Decapsulation where
  fromSeed : Bytes 32 → Bytes 32 → ViewingPublicKey
  decapsulate : List UInt8 → Bytes 32 → Bytes 32 → Option (Bytes 32)

/-- Decapsulation returns the secret that was encapsulated. -/
def Decapsulation.Correct [MlKem] [Decapsulation] : Prop :=
  ∀ d z esk sharedSecret epk,
    MlKem.encapsulateDeterministic (fromSeed d z) esk = some (sharedSecret, epk) →
      decapsulate epk d z = some sharedSecret

/-- ChaCha20 with a zero nonce. -/
class ChaCha20 where
  applyKeystream : Bytes 32 → List UInt8 → List UInt8

abbrev ViewTag := UInt8

/-- The key both ends of a note share. -/
structure SharedSecretKey where
  value : Bytes 32
  deriving DecidableEq

/-- The ML-KEM ciphertext that goes with a note. -/
structure EphemeralPublicKey where
  value : List UInt8
  deriving DecidableEq

structure Ciphertext where
  value : List UInt8
  deriving DecidableEq

structure EncryptedAccountData where
  ciphertext : Ciphertext
  epk : EphemeralPublicKey
  viewTag : ViewTag
  deriving DecidableEq

/-- `Account::to_bytes`. -/
def Account.toBytes (account : Account) : List UInt8 :=
  account.programOwner.value.toList ++ leBytes 16 account.balance.val ++
    leBytes 16 account.nonce.value.val ++ leBytes 4 account.data.bytes.length ++
    account.data.bytes

/-- `PrivateAccountKind::HEADER_LEN`. -/
def headerLen : ℕ := 81

/-- The Borsh encoding of an account kind. -/
def PrivateAccountKind.toBytes : PrivateAccountKind → List UInt8
  | .regular identifier => 0 :: leBytes 16 identifier.val
  | .pda programId seed identifier =>
    1 :: (programId.toBytes.toList ++ seed.value.toList ++ leBytes 16 identifier.val)

/-- `PrivateAccountKind::to_header_bytes`: padded so that kinds cannot be told apart. -/
def PrivateAccountKind.toHeaderBytes (kind : PrivateAccountKind) : List UInt8 :=
  kind.toBytes ++ replicate (headerLen - kind.toBytes.length) 0

variable [Sha256]

/-- `EphemeralSecretKey::new`. -/
def ephemeralSecretKey (accountId : AccountId) (randomSeed : Bytes 32) (nonce : Nonce) :
    Bytes 32 :=
  Sha256.hashBytes (ascii "/LEE/v0.3/esk/" ++ accountId.value.toList ++ randomSeed.toList ++
    leBytes 16 nonce.value.val)

/-- `EncryptedAccountData::compute_view_tag`: the first byte of a digest of both keys. -/
def computeViewTag (npk : NullifierPublicKey) (vpk : ViewingPublicKey) : ViewTag :=
  (Sha256.hashBytes (ascii "/LEE/v0.3/ViewTag/" ++ npk.value.toList ++ vpk.value.toList)).head

/-- `EncryptionScheme::kdf`. -/
def kdf (sharedSecret : SharedSecretKey) (nullifier : Nullifier) : Bytes 32 :=
  Sha256.hashBytes (ascii "LEE/v0.3/KDF-SHA256/" ++ sharedSecret.value.toList ++
    nullifier.value.toList)

/-- `EncryptionScheme::encrypt`. -/
def encrypt [ChaCha20] (account : Account) (kind : PrivateAccountKind)
    (sharedSecret : SharedSecretKey) (nullifier : Nullifier) : Ciphertext :=
  ⟨ChaCha20.applyKeystream (kdf sharedSecret nullifier) (kind.toHeaderBytes ++ account.toBytes)⟩

/-! ### Reading a note -/

/-- The errors of reading from a cursor: it ends too early, or it announces too much data. -/
inductive LeeCoreError
  | unexpectedEof
  | dataTooBig
  deriving DecidableEq

/-- `read_exact`: bytes off the front of a cursor, and the rest. -/
def readExact (n : ℕ) (cursor : List UInt8) : Except LeeCoreError (Bytes n × List UInt8) :=
  match (Codec.bytes n).decode cursor with
  | some read => .ok read
  | none => .error .unexpectedEof

/-- `u128::from_le_bytes`. -/
def u128OfLeBytes (bytes : Bytes 16) : U128 :=
  ⟨ofLeBytes bytes.toList, by
    have hlt := ofLeBytes_lt bytes.toList
    rwa [bytes.toList_length] at hlt⟩

/-- `Data::from_cursor`. -/
def Data.fromCursor (cursor : List UInt8) : Except LeeCoreError (Data × List UInt8) := do
  let (u32Bytes, cursor) ← readExact 4 cursor
  let dataLength := ofLeBytes u32Bytes.toList
  if h : dataLength ≤ dataMaxLength then do
    let (data, cursor) ← readExact dataLength cursor
    pure (⟨data.toList, by rwa [data.toList_length]⟩, cursor)
  else .error .dataTooBig

/-- `Account::from_cursor`. -/
def Account.fromCursor (cursor : List UInt8) : Except LeeCoreError (Account × List UInt8) := do
  let (programOwner, cursor) ← readExact 32 cursor
  let (balance, cursor) ← readExact 16 cursor
  let (nonce, cursor) ← readExact 16 cursor
  let (data, cursor) ← Data.fromCursor cursor
  pure (⟨⟨programOwner⟩, u128OfLeBytes balance, data, ⟨u128OfLeBytes nonce⟩⟩, cursor)

/-- The Borsh decoding of an account kind; what follows it is not looked at. -/
def PrivateAccountKind.deserialize : List UInt8 → Option PrivateAccountKind
  | 0 :: bytes => do
    let (identifier, _) ← Codec.u128.decode bytes
    some (.regular identifier)
  | 1 :: bytes => do
    let (programId, bytes) ← (Codec.bytes 32).decode bytes
    let (seed, bytes) ← (Codec.bytes 32).decode bytes
    let (identifier, _) ← Codec.u128.decode bytes
    some (.pda (AccountId.toProgramId ⟨programId⟩) ⟨seed⟩ identifier)
  | _ => none

/-- `EncryptionScheme::decrypt`. -/
def decrypt [ChaCha20] (ciphertext : Ciphertext) (sharedSecret : SharedSecretKey)
    (nullifier : Nullifier) : Option (PrivateAccountKind × Account) :=
  let buffer := ChaCha20.applyKeystream (kdf sharedSecret nullifier) ciphertext.value
  if buffer.length < headerLen then none
  else do
    let kind ← PrivateAccountKind.deserialize (buffer.take headerLen)
    let (account, _) ← (Account.fromCursor (buffer.drop headerLen)).toOption
    some (kind, account)

omit [Sha256]

theorem readExact_append {n : ℕ} (bytes : Bytes n) (rest : List UInt8) :
    readExact n (bytes.toList ++ rest) = .ok (bytes, rest) := by
  have hread := (Codec.bytes n).decode_encode bytes rest
  unfold readExact
  rw [show (Codec.bytes n).decode (bytes.toList ++ rest) = some (bytes, rest) from hread]

theorem readExact_ok {n : ℕ} {cursor rest : List UInt8} {bytes : Bytes n}
    (h : readExact n cursor = .ok (bytes, rest)) : cursor = bytes.toList ++ rest := by
  unfold readExact at h
  split at h
  · rename_i hread
    cases h
    exact (Codec.bytes n).encode_decode hread
  · cases h

/-- The bytes of a number are read back. -/
theorem readExact_leBytes (n x : ℕ) (rest : List UInt8) :
    readExact n (leBytes n x ++ rest) = .ok (⟨leBytes n x, length_leBytes n x⟩, rest) :=
  readExact_append ⟨leBytes n x, length_leBytes n x⟩ rest

theorem u128OfLeBytes_leBytes (x : U128) :
    u128OfLeBytes ⟨leBytes 16 x.val, length_leBytes 16 x.val⟩ = x := by
  refine Fin.ext ?_
  change ofLeBytes (leBytes 16 x.val) = x.val
  rw [ofLeBytes_leBytes]
  exact Nat.mod_eq_of_lt x.isLt

theorem leBytes_u128OfLeBytes (bytes : Bytes 16) :
    leBytes 16 (u128OfLeBytes bytes).val = bytes.toList := by
  have hback := leBytes_ofLeBytes bytes.toList
  rwa [bytes.toList_length] at hback

/-- Data of any length that an account may hold is read back. -/
theorem Data.fromCursor_append (data : Data) (rest : List UInt8) :
    Data.fromCursor (leBytes 4 data.bytes.length ++ (data.bytes ++ rest)) = .ok (data, rest) := by
  have hlength : ofLeBytes (leBytes 4 data.bytes.length) = data.bytes.length := by
    have hlt : dataMaxLength < 256 ^ 4 := by decide
    rw [ofLeBytes_leBytes]
    exact Nat.mod_eq_of_lt (data.length_le.trans_lt hlt)
  -- the length that is read is a number like any other, so that it can be replaced
  have hbody : ∀ dataLength, dataLength = data.bytes.length →
      (if h : dataLength ≤ dataMaxLength then do
          let (bytes, cursor) ← readExact dataLength (data.bytes ++ rest)
          pure (⟨bytes.toList, by rwa [bytes.toList_length]⟩, cursor)
        else .error .dataTooBig : Except LeeCoreError (Data × List UInt8)) = .ok (data, rest) := by
    rintro _ rfl
    have hread : readExact data.bytes.length (data.bytes ++ rest) = .ok (⟨data.bytes, rfl⟩, rest) :=
      readExact_append ⟨data.bytes, rfl⟩ rest
    rw [dif_pos data.length_le, hread]
    rfl
  unfold Data.fromCursor
  rw [readExact_leBytes]
  exact hbody _ hlength

/-- The length and the data are what was read. -/
theorem Data.of_fromCursor {cursor rest : List UInt8} {data : Data}
    (h : Data.fromCursor cursor = .ok (data, rest)) :
    cursor = leBytes 4 data.bytes.length ++ (data.bytes ++ rest) := by
  obtain ⟨⟨u32Bytes, tail⟩, hlength, h⟩ := bind_eq_ok.mp h
  dsimp only at h
  split at h
  · obtain ⟨⟨bytes, tail'⟩, hbytes, h⟩ := bind_eq_ok.mp h
    cases h
    have hback := leBytes_ofLeBytes u32Bytes.toList
    rw [u32Bytes.toList_length] at hback
    rw [readExact_ok hlength, readExact_ok hbytes, bytes.toList_length, hback]
  · cases h

/-- An account is read back, whatever follows it. -/
theorem Account.fromCursor_toBytes (account : Account) (rest : List UInt8) :
    Account.fromCursor (account.toBytes ++ rest) = .ok (account, rest) := by
  obtain ⟨⟨programOwner⟩, balance, data, ⟨nonce⟩⟩ := account
  simp only [Account.toBytes, append_assoc, Account.fromCursor]
  refine bind_eq_ok.mpr ⟨_, readExact_append programOwner _, ?_⟩
  refine bind_eq_ok.mpr ⟨_, readExact_leBytes 16 balance.val _, ?_⟩
  refine bind_eq_ok.mpr ⟨_, readExact_leBytes 16 nonce.val _, ?_⟩
  refine bind_eq_ok.mpr ⟨_, Data.fromCursor_append data rest, ?_⟩
  simp only [u128OfLeBytes_leBytes]
  rfl

/-- **The encodings of accounts are faithful.**  An account is read back from its bytes,
whatever follows them, and what is read are the bytes of the account.  Unless SHA-256 collides
on the data, accounts or ids that differ have different pre-images of their commitments, and
unless it collides on these, different commitments. -/
theorem encodings_faithful [Sha256] :
    (∀ (account : Account) (rest : List UInt8),
      Account.fromCursor (account.toBytes ++ rest) = .ok (account, rest)) ∧
    (∀ cursor account rest, Account.fromCursor cursor = .ok (account, rest) →
      cursor = account.toBytes ++ rest) ∧
    ∀ (a b : AccountId) (x y : Account),
      (Sha256.hashBytes x.data.bytes = Sha256.hashBytes y.data.bytes → x.data = y.data) →
      (bytes a x = bytes b y → a = b ∧ x = y) ∧
      ((Sha256.hashBytes (bytes a x) = Sha256.hashBytes (bytes b y) →
          bytes a x = bytes b y) →
        new a x = new b y → a = b ∧ x = y) := by
  refine ⟨Account.fromCursor_toBytes, fun cursor account rest h => ?_, fun a b x y hsafe => ?_⟩
  · obtain ⟨⟨programOwner, afterOwner⟩, howner, h⟩ := bind_eq_ok.mp h
    obtain ⟨⟨balance, afterBalance⟩, hbalance, h⟩ := bind_eq_ok.mp h
    obtain ⟨⟨nonce, afterNonce⟩, hnonce, h⟩ := bind_eq_ok.mp h
    obtain ⟨⟨data, afterData⟩, hdata, h⟩ := bind_eq_ok.mp h
    cases h
    rw [readExact_ok howner, readExact_ok hbalance, readExact_ok hnonce, Data.of_fromCursor hdata]
    simp only [Account.toBytes, leBytes_u128OfLeBytes, append_assoc]
  · have hinj : bytes a x = bytes b y → a = b ∧ x = y := by
      intro hbytes
      obtain ⟨hid, howner, hbalance, hnonce, hdata⟩ := bytes_inj hbytes
      refine ⟨hid, ?_⟩
      cases x
      cases y
      cases howner
      cases hbalance
      cases hnonce
      cases hsafe hdata
      rfl
    exact ⟨hinj, fun hsafe' h => hinj (hsafe' (congrArg value h))⟩

/-- A kind is read back, whatever follows it. -/
theorem PrivateAccountKind.deserialize_append (kind : PrivateAccountKind) (rest : List UInt8) :
    PrivateAccountKind.deserialize (kind.toBytes ++ rest) = some kind := by
  have hidentifier : ∀ (identifier : Identifier) (rest : List UInt8),
      Codec.u128.decode (leBytes 16 identifier.val ++ rest)
        = some (identifier, rest) := Codec.u128.decode_encode
  have hbytes : ∀ (bytes : Bytes 32) (rest : List UInt8),
      (Codec.bytes 32).decode (bytes.toList ++ rest) = some (bytes, rest) :=
    (Codec.bytes 32).decode_encode
  cases kind with
  | regular identifier =>
    simp only [toBytes, List.cons_append, deserialize, hidentifier, bind_eq_bind, bind_some]
  | pda programId seed identifier =>
    have hprogram := toProgramId_ofProgramId programId
    unfold ofProgramId at hprogram
    simp only [toBytes, List.cons_append, append_assoc, deserialize, hbytes, hidentifier,
      bind_eq_bind, bind_some, hprogram]

theorem PrivateAccountKind.toBytes_length_le (kind : PrivateAccountKind) :
    kind.toBytes.length ≤ headerLen := by
  cases kind with
  | regular identifier | pda programId seed identifier => simp [toBytes, headerLen]

theorem PrivateAccountKind.toHeaderBytes_length (kind : PrivateAccountKind) :
    kind.toHeaderBytes.length = headerLen := by
  have hle := kind.toBytes_length_le
  rw [toHeaderBytes, length_append, List.length_replicate]
  omega

/-- ChaCha20 adds to a text a keystream that depends on the key only. -/
def ChaCha20.AddsKeystream [ChaCha20] : Prop :=
  ∃ keystream : Bytes 32 → ℕ → UInt8, ∀ key text,
    applyKeystream key text = text.mapIdx fun i byte => byte ^^^ keystream key i

/-- Adding a keystream twice gives the text back. -/
theorem ChaCha20.AddsKeystream.twice [ChaCha20] (h : AddsKeystream) (key : Bytes 32)
    (text : List UInt8) : applyKeystream key (applyKeystream key text) = text := by
  obtain ⟨keystream, hadds⟩ := h
  rw [hadds, hadds]
  refine List.ext_getElem? fun i => ?_
  rw [List.getElem?_mapIdx, List.getElem?_mapIdx, Option.map_map]
  cases text[i]? with
  | none => rfl
  | some byte =>
    simp only [map_some, Function.comp_apply, some_inj]
    rw [UInt8.xor_assoc, UInt8.xor_self, UInt8.xor_zero]

/-- **What was encrypted decrypts**, for accounts of every kind and data of every length. -/
theorem decrypt_encrypt [Sha256] [ChaCha20] (hadds : ChaCha20.AddsKeystream) (account : Account)
    (kind : PrivateAccountKind) (sharedSecret : SharedSecretKey) (nullifier : Nullifier) :
    decrypt (encrypt account kind sharedSecret nullifier) sharedSecret nullifier
      = some (kind, account) := by
  have hlength := kind.toHeaderBytes_length
  unfold decrypt
  rw [encrypt, hadds.twice]
  have hlong : ¬(kind.toHeaderBytes ++ account.toBytes).length < headerLen := by
    rw [length_append]
    omega
  rw [if_neg hlong, List.take_left' hlength, List.drop_left' hlength,
    ← append_nil account.toBytes, Account.fromCursor_toBytes, PrivateAccountKind.toHeaderBytes,
    PrivateAccountKind.deserialize_append]
  rfl

end Lssa
