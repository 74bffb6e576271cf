/-
What an account of the token program reads as.

The program tells definitions from holdings only by decoding the data.  The two formats overlap in
one place: a fungible definition without metadata whose name has 27 bytes takes 49 bytes, as a
fungible holding does, and both start with the tag 0.  Its name, with the four bytes that count it
and the lowest byte of the supply, is then read as the id of a definition, and the rest of the
supply as a balance (`confusable_of_encode_eq`), whatever the name and the supply are
(`reads_as_both_iff`).

* `Named` — account ids that read as the start of such a definition;
* `definitionIn`, `holdingIn` — what an account of the program reads as.
-/
import Lssa.Programs.Token

open Borsh

namespace Lssa

namespace Token

open Codec (option string u128)

/-- The id reads as the count of a name of 27 bytes, and the name. -/
def Named (accountId : AccountId) : Prop := accountId.value.toList.take 4 = [27, 0, 0, 0]

instance instDecidableNamed (accountId : AccountId) : Decidable (Named accountId) :=
  inferInstanceAs (Decidable (_ = _))

/-- A definition that has the length of a holding. -/
def TokenDefinition.Confusable : TokenDefinition → Prop
  | .fungible name _ none => name.bytes.length = 27
  | _ => False

/-- A holding that may have the bytes of a definition. -/
def TokenHolding.Confusable : TokenHolding → Prop
  | .fungible definitionId _ => Named definitionId
  | _ => False

instance instDecidableConfusableDefinition : DecidablePred TokenDefinition.Confusable
  | .fungible name _ none => inferInstanceAs (Decidable (name.bytes.length = 27))
  | .fungible _ _ (some _) => inferInstanceAs (Decidable False)
  | .nonFungible _ _ _ => inferInstanceAs (Decidable False)

instance instDecidableConfusableHolding : DecidablePred TokenHolding.Confusable
  | .fungible definitionId _ => inferInstanceAs (Decidable (Named definitionId))
  | .nftMaster _ _ => inferInstanceAs (Decidable False)
  | .nftPrintedCopy _ _ => inferInstanceAs (Decidable False)

/-! ### Lengths -/

theorem length_accountId (accountId : AccountId) :
    (AccountId.codec.encode accountId).length = 32 :=
  accountId.value.toList_length

theorem length_u128 (amount : U128) : (u128.encode amount).length = 16 :=
  length_leBytes 16 amount.val

theorem length_string (text : Text) :
    (string.encode text).length = 4 + text.bytes.length := by
  rw [Codec.string_encode, length_append, length_leBytes]

theorem length_fungible_holding (definitionId : AccountId) (balance : U128) :
    (holdingCodec.encode (.fungible definitionId balance)).length = 49 := by
  show (AccountId.codec.encode definitionId ++ u128.encode balance).length + 1 = 49
  rw [length_append, length_accountId, length_u128]

theorem length_nftMaster (definitionId : AccountId) (printBalance : U128) :
    (holdingCodec.encode (.nftMaster definitionId printBalance)).length = 49 := by
  show (AccountId.codec.encode definitionId ++ u128.encode printBalance).length + 1 = 49
  rw [length_append, length_accountId, length_u128]

theorem length_fungible_definition (name : Text) (totalSupply : U128)
    (metadataId : Option AccountId) :
    (definitionCodec.encode (.fungible name totalSupply metadataId)).length =
      name.bytes.length + if metadataId.isSome then 54 else 22 := by
  show (string.encode name ++ (u128.encode totalSupply ++
    (option AccountId.codec).encode metadataId)).length + 1 = _
  rw [length_append, length_append, length_string, length_u128]
  cases metadataId with
  | none =>
    show 4 + name.bytes.length + (16 + 1) + 1 = name.bytes.length + 22
    omega
  | some accountId =>
    show 4 + name.bytes.length + (16 + ((AccountId.codec.encode accountId).length + 1)) + 1
      = name.bytes.length + 54
    rw [length_accountId]
    omega

theorem length_nonFungible (name : Text) (printableSupply : U128) (metadataId : AccountId) :
    (definitionCodec.encode (.nonFungible name printableSupply metadataId)).length =
      name.bytes.length + 53 := by
  show (string.encode name ++ (u128.encode printableSupply ++
    AccountId.codec.encode metadataId)).length + 1 = _
  rw [length_append, length_append, length_string, length_u128, length_accountId]
  omega

/-! ### Where the formats overlap -/

/-- The first bytes after the tag of a fungible definition count its name. -/
theorem named_of_encode_eq {name : Text} {totalSupply balance : U128}
    {metadataId : Option AccountId} {definitionId : AccountId} (hlength : name.bytes.length = 27)
    (h : definitionCodec.encode (.fungible name totalSupply metadataId) =
      holdingCodec.encode (.fungible definitionId balance)) : Named definitionId := by
  have htail : string.encode name ++ (u128.encode totalSupply ++
      (option AccountId.codec).encode metadataId) =
        definitionId.value.toList ++ u128.encode balance :=
    (cons.inj h).2
  have hfour := congrArg (List.take 4) htail
  rw [Codec.string_encode, hlength, append_assoc,
    List.take_append_of_le_length (by simp), take_of_length_le (by simp),
    List.take_append_of_le_length (by rw [definitionId.value.toList_length]; omega)] at hfour
  exact hfour.symm

variable {definition : TokenDefinition}

/-- **The formats overlap in one place.**  Bytes that are both a definition and a holding are a
fungible definition without metadata named with 27 bytes. -/
theorem confusable_of_encode_eq {holding : TokenHolding}
    (h : definitionCodec.encode definition = holdingCodec.encode holding) :
    definition.Confusable ∧ holding.Confusable := by
  have hlength := congrArg List.length h
  cases definition with
  | fungible name totalSupply metadataId =>
    rw [length_fungible_definition] at hlength
    cases holding with
    | fungible definitionId balance =>
      rw [length_fungible_holding] at hlength
      cases metadataId with
      | none =>
        have hname : name.bytes.length = 27 := by simpa using hlength
        exact ⟨hname, named_of_encode_eq hname h⟩
      | some accountId =>
        rw [Option.isSome_some, if_pos rfl] at hlength
        omega
    | nftMaster definitionId printBalance =>
      have htag : (0 : UInt8) = 1 := (cons.inj h).1
      exact absurd htag (by decide)
    | nftPrintedCopy definitionId owned =>
      have htag : (0 : UInt8) = 2 := (cons.inj h).1
      exact absurd htag (by decide)
  | nonFungible name printableSupply metadataId =>
    rw [length_nonFungible] at hlength
    cases holding with
    | fungible definitionId balance =>
      have htag : (1 : UInt8) = 0 := (cons.inj h).1
      exact absurd htag (by decide)
    | nftMaster definitionId printBalance =>
      rw [length_nftMaster] at hlength
      omega
    | nftPrintedCopy definitionId owned =>
      have htag : (1 : UInt8) = 2 := (cons.inj h).1
      exact absurd htag (by decide)

/-- A holding of the fungible kind is any 48 bytes after the tag: an id and a balance. -/
theorem exists_holding {bytes : List UInt8} (hlength : bytes.length = 48) :
    ∃ holding, holdingCodec.encode holding = 0 :: bytes := by
  have hid : (bytes.take 32).length = 32 := by simp [hlength]
  have hbalance : (bytes.drop 32).length = 16 := by simp [hlength]
  have hlt := ofLeBytes_lt (bytes.drop 32)
  have hback := leBytes_ofLeBytes (bytes.drop 32)
  rw [hbalance] at hlt hback
  refine ⟨.fungible ⟨⟨bytes.take 32, hid⟩⟩ ⟨ofLeBytes (bytes.drop 32), hlt⟩, ?_⟩
  show 0 :: (bytes.take 32 ++ leBytes 16 (ofLeBytes (bytes.drop 32))) = 0 :: bytes
  rw [hback, List.take_append_drop]

/-- **What reads as both.**  Data is read as a definition and as a holding exactly if it is a
fungible definition without metadata, named with 27 bytes. -/
theorem reads_as_both_iff (data : Data) :
    ((∃ definition, TokenDefinition.tryFrom data = some definition) ∧
        ∃ holding, TokenHolding.tryFrom data = some holding) ↔
      ∃ definition, definition.Confusable ∧ TokenDefinition.tryFrom data = some definition := by
  constructor
  · rintro ⟨⟨definition, hdefinition⟩, holding, hholding⟩
    refine ⟨definition, ?_, hdefinition⟩
    rw [TokenDefinition.tryFrom_eq_some] at hdefinition
    rw [TokenHolding.tryFrom_eq_some] at hholding
    exact (confusable_of_encode_eq (hdefinition.symm.trans hholding)).1
  · rintro ⟨definition, hconfusable, hdefinition⟩
    refine ⟨⟨definition, hdefinition⟩, ?_⟩
    simp only [TokenHolding.tryFrom_eq_some, TokenDefinition.tryFrom_eq_some.mp hdefinition]
    match definition, hconfusable with
    | .fungible name totalSupply none, hname =>
      have hlength := length_fungible_definition name totalSupply none
      rw [show name.bytes.length = 27 from hname] at hlength
      obtain ⟨holding, hholding⟩ := exists_holding (Nat.succ.inj hlength)
      exact ⟨holding, hholding.symm⟩

/-- 1000 of "Certificate of Storage 2026": the holding it reads as has a balance of 3. -/
theorem storage_reads_as_both : ∃ name data definitionId,
    (TokenDefinition.fungible name 1000 none).toData = some data ∧
      TokenDefinition.tryFrom data = some (.fungible name 1000 none) ∧
        TokenHolding.tryFrom data = some (.fungible definitionId 3) :=
  ⟨⟨"Certificate of Storage 2026", by decide +kernel⟩,
    ⟨0 :: (leBytes 4 27 ++ "Certificate of Storage 2026".toUTF8.toList ++ leBytes 17 1000),
      by decide +kernel⟩,
    ⟨⟨leBytes 4 27 ++ "Certificate of Storage 2026".toUTF8.toList ++ [232], by decide +kernel⟩⟩,
    by decide +kernel, by decide +kernel, by decide +kernel⟩

theorem TokenHolding.tryFrom_eq_none {data : Data}
    (h : TokenDefinition.tryFrom data = some definition) (hplain : ¬definition.Confusable) :
    TokenHolding.tryFrom data = none := by
  cases hholding : TokenHolding.tryFrom data with
  | none => rfl
  | some holding =>
    rw [TokenDefinition.tryFrom_eq_some] at h
    rw [TokenHolding.tryFrom_eq_some] at hholding
    exact absurd (confusable_of_encode_eq (h.symm.trans hholding)).1 hplain

theorem TokenDefinition.tryFrom_eq_none {data : Data} {holding : TokenHolding}
    (h : TokenHolding.tryFrom data = some holding) (hplain : ¬holding.Confusable) :
    TokenDefinition.tryFrom data = none := by
  cases hdefinition : TokenDefinition.tryFrom data with
  | none => rfl
  | some definition =>
    rw [TokenHolding.tryFrom_eq_some] at h
    rw [TokenDefinition.tryFrom_eq_some] at hdefinition
    exact absurd (confusable_of_encode_eq (hdefinition.symm.trans h)).2 hplain

/-! ### Accounts of the program -/

/-- The definition in an account, if it is one of the program. -/
def definitionIn (token : ProgramId) (account : Account) : Option TokenDefinition :=
  if account.programOwner = ofProgramId token then TokenDefinition.tryFrom account.data
  else none

/-- The holding in an account, if it is one of the program. -/
def holdingIn (token : ProgramId) (account : Account) : Option TokenHolding :=
  if account.programOwner = ofProgramId token then TokenHolding.tryFrom account.data
  else none

section

variable {token : ProgramId} {a b : Account}

theorem definitionIn_owned (h : a.programOwner = .ofProgramId token) :
    definitionIn token a = TokenDefinition.tryFrom a.data := if_pos h

theorem definitionIn_foreign (h : a.programOwner ≠ .ofProgramId token) :
    definitionIn token a = none := if_neg h

theorem holdingIn_owned (h : a.programOwner = .ofProgramId token) :
    holdingIn token a = TokenHolding.tryFrom a.data := if_pos h

theorem holdingIn_foreign (h : a.programOwner ≠ .ofProgramId token) :
    holdingIn token a = none := if_neg h

section

variable (howner : a.programOwner = b.programOwner) (hdata : a.data = b.data)

include howner hdata

theorem definitionIn_congr :
    definitionIn token a = definitionIn token b := by
  rw [definitionIn, definitionIn, howner, hdata]

theorem holdingIn_congr :
    holdingIn token a = holdingIn token b := by
  rw [holdingIn, holdingIn, howner, hdata]

end

end

/-- No data at all is neither. -/
@[simp] theorem TokenDefinition.tryFrom_empty : TokenDefinition.tryFrom Data.empty = none := rfl

@[simp] theorem TokenHolding.tryFrom_empty : TokenHolding.tryFrom Data.empty = none := rfl

theorem holdingIn_default (token : ProgramId) : holdingIn token Account.default = none := by
  unfold holdingIn
  split <;> rfl

end Token

end Lssa
