/-
What one call of the token program does.

Each instruction reads definitions and holdings from its accounts and writes them back.  The
program does not look at the owners of accounts, the state machine does: data that is written to an
account of another program has to be the data that was there (`Written`).

* `transfer_ok`, `mint_ok`, `burn_ok`, … — what an instruction read and wrote;
* `moveBalance_ok`, `mintSupply_ok`, `burnSupply_ok` — what it does to amounts;
* `HoldingWritten.measure`, `Written.definitionIn` — what a written account reads as, before and
  after.
-/
import Lssa.Custody
import Lssa.Token.Formats

open Borsh DepthFirst Outcome

namespace Lssa

open PublicExecution

namespace Token

/-! ### Amounts -/

/-- What a holding is worth in units of its token. -/
def TokenHolding.units : TokenHolding → ℕ
  | .fungible _ balance => balance.val
  | .nftMaster _ printBalance => printBalance.val
  | .nftPrintedCopy _ owned => if owned then 1 else 0

/-- A measure of holdings that is zero on empty ones. -/
def Vanishes (m : TokenHolding → ℕ) : Prop := ∀ holding, holding.units = 0 → m holding = 0

/-- The balance of a fungible holding of the token. -/
def balanceOf (definitionId : AccountId) : TokenHolding → ℕ
  | .fungible id balance => if id = definitionId then balance.val else 0
  | _ => 0

/-- The print balance of a master holding of the token. -/
def printsOf (definitionId : AccountId) : TokenHolding → ℕ
  | .nftMaster id printBalance => if id = definitionId then printBalance.val else 0
  | _ => 0

/-- One for an owned printed copy of the token. -/
def copiesOf (definitionId : AccountId) : TokenHolding → ℕ
  | .nftPrintedCopy id owned => if id = definitionId ∧ owned = true then 1 else 0
  | _ => 0

/-- One for a master holding of the token that can still print. -/
def mastersOf (definitionId : AccountId) : TokenHolding → ℕ
  | .nftMaster id printBalance => if id = definitionId ∧ printBalance ≠ 0 then 1 else 0
  | _ => 0

/-- What a definition says was issued, if it is fungible. -/
def fungibleIssued : Option TokenDefinition → ℕ
  | some (.fungible _ totalSupply _) => totalSupply.val
  | _ => 0

/-- What a definition says was issued, if it is not fungible. -/
def nonFungibleIssued : Option TokenDefinition → ℕ
  | some (.nonFungible _ printableSupply _) => printableSupply.val
  | _ => 0

section

variable {definitionId : AccountId} {holding : TokenHolding}

theorem vanishes_balanceOf (definitionId : AccountId) : Vanishes (balanceOf definitionId) := by
  rintro (⟨id, balance⟩ | ⟨id, printBalance⟩ | ⟨id, owned⟩) hunits
  · have hzero : balance.val = 0 := hunits
    simp [balanceOf, hzero]
  · rfl
  · rfl

theorem vanishes_printsOf (definitionId : AccountId) : Vanishes (printsOf definitionId) := by
  rintro (⟨id, balance⟩ | ⟨id, printBalance⟩ | ⟨id, owned⟩) hunits
  · rfl
  · have hzero : printBalance.val = 0 := hunits
    simp [printsOf, hzero]
  · rfl

theorem vanishes_copiesOf (definitionId : AccountId) : Vanishes (copiesOf definitionId) := by
  rintro (⟨id, balance⟩ | ⟨id, printBalance⟩ | ⟨id, owned⟩) hunits
  · rfl
  · rfl
  · cases owned with
    | false => simp [copiesOf]
    | true => exact absurd hunits (by simp [TokenHolding.units])

theorem vanishes_mastersOf (definitionId : AccountId) : Vanishes (mastersOf definitionId) := by
  rintro (⟨id, balance⟩ | ⟨id, printBalance⟩ | ⟨id, owned⟩) hunits
  · rfl
  · have hzero : printBalance = 0 := Fin.ext hunits
    simp [mastersOf, hzero]
  · rfl

theorem Vanishes.add {m m' : TokenHolding → ℕ} (h : Vanishes m) (h' : Vanishes m') :
    Vanishes fun holding => m holding + m' holding := by
  intro holding hunits
  show m holding + m' holding = 0
  rw [h holding hunits, h' holding hunits]

section

variable (h : holding.definitionId ≠ definitionId)

include h

/-- A holding counts for its own token only. -/
theorem balanceOf_ne :
    balanceOf definitionId holding = 0 := by
  cases holding with
  | fungible id balance => exact if_neg h
  | nftMaster id printBalance | nftPrintedCopy id owned => rfl

theorem printsOf_ne :
    printsOf definitionId holding = 0 := by
  cases holding with
  | fungible id balance => rfl
  | nftMaster id printBalance => exact if_neg h
  | nftPrintedCopy id owned => rfl

theorem copiesOf_ne :
    copiesOf definitionId holding = 0 := by
  cases holding with
  | fungible id balance | nftMaster id printBalance => rfl
  | nftPrintedCopy id owned => exact if_neg fun hcopy => h hcopy.1

theorem mastersOf_ne :
    mastersOf definitionId holding = 0 := by
  cases holding with
  | fungible id balance => rfl
  | nftMaster id printBalance => exact if_neg fun hmaster => h hmaster.1
  | nftPrintedCopy id owned => rfl

end

theorem mastersOf_le_printsOf (definitionId : AccountId) (holding : TokenHolding) :
    mastersOf definitionId holding ≤ printsOf definitionId holding := by
  cases holding with
  | fungible id balance => exact le_rfl
  | nftMaster id printBalance =>
    show (if id = definitionId ∧ printBalance ≠ 0 then 1 else 0) ≤ _
    by_cases hmaster : id = definitionId ∧ printBalance ≠ 0
    · have hne : printBalance.val ≠ 0 := fun hzero => hmaster.2 (Fin.ext hzero)
      rw [if_pos hmaster, printsOf, if_pos hmaster.1]
      omega
    · rw [if_neg hmaster]
      exact Nat.zero_le _
  | nftPrintedCopy id owned => exact le_rfl

@[simp] theorem TokenHolding.units_zeroizedCloneFrom (holding : TokenHolding) :
    holding.zeroizedCloneFrom.units = 0 := by
  cases holding <;> rfl

@[simp] theorem TokenHolding.units_zeroizedFromDefinition (definitionId : AccountId)
    (definition : TokenDefinition) :
    (TokenHolding.zeroizedFromDefinition definitionId definition).units = 0 := by
  cases definition <;> rfl

@[simp] theorem TokenHolding.confusable_zeroizedCloneFrom (holding : TokenHolding) :
    holding.zeroizedCloneFrom.Confusable ↔ holding.Confusable := by
  cases holding <;> rfl

theorem TokenHolding.named_of_confusable (h : holding.Confusable) : Named holding.definitionId := by
  cases holding with
  | fungible id balance => exact h
  | nftMaster id printBalance | nftPrintedCopy id owned => exact h.elim

end

/-! ### What an instruction does to amounts -/

/-- A transfer keeps the tokens, the kinds and the amounts on the two sides together. -/
structure Moved (sender recipient sender' recipient' : TokenHolding) : Prop where
  senderId : sender'.definitionId = sender.definitionId
  recipientId : recipient'.definitionId = recipient.definitionId
  senderPlain : sender'.Confusable ↔ sender.Confusable
  recipientPlain : recipient'.Confusable ↔ recipient.Confusable
  units : sender'.units ≤ sender.units ∧ recipient.units ≤ recipient'.units
  balance : ∀ id, balanceOf id sender' + balanceOf id recipient' =
    balanceOf id sender + balanceOf id recipient
  prints : ∀ id, printsOf id sender' + printsOf id recipient' =
    printsOf id sender + printsOf id recipient
  copies : ∀ id, copiesOf id sender' + copiesOf id recipient' =
    copiesOf id sender + copiesOf id recipient
  masters : ∀ id, mastersOf id sender' + mastersOf id recipient' =
    mastersOf id sender + mastersOf id recipient

variable {amount : U128} {definition definition' : TokenDefinition} {holding : TokenHolding}
  {account : Account} {posts : List AccountPostState}
  {definitionAccount userHoldingAccount : AccountWithMetadata}

theorem moveBalance_ok {sender recipient sender' recipient' : TokenHolding}
    (h : moveBalance sender recipient amount = some (sender', recipient'))
    (hid : sender.definitionId = recipient.definitionId) :
    Moved sender recipient sender' recipient' := by
  unfold moveBalance at h
  split at h
  · rename_i senderId senderBalance recipientId recipientBalance
    obtain ⟨left, hleft, h⟩ := bind_eq_some_iff.mp h
    obtain ⟨right, hright, h⟩ := bind_eq_some_iff.mp h
    cases h
    obtain rfl : senderId = recipientId := hid
    have hleft := checkedSub_eq_some.mp hleft
    have hright := checkedAdd_eq_some.mp hright
    refine ⟨rfl, rfl, Iff.rfl, Iff.rfl, ?_, fun id => ?_, fun _ => rfl, fun _ => rfl, fun _ => rfl⟩
    · simp only [TokenHolding.units]
      omega
    · simp only [balanceOf]
      split <;> omega
  · rename_i senderId senderPrints recipientId recipientPrints
    obtain ⟨hempty, h⟩ := require_bind_eq_some.mp h
    obtain ⟨-, h⟩ := require_bind_eq_some.mp h
    cases h
    subst hempty
    obtain rfl : senderId = recipientId := hid
    refine ⟨rfl, rfl, Iff.rfl, Iff.rfl, ?_, fun _ => rfl, fun id => ?_, fun _ => rfl, fun id => ?_⟩
    · exact ⟨Nat.zero_le _, Nat.zero_le _⟩
    · exact Nat.add_comm _ _
    · exact Nat.add_comm _ _
  · rename_i senderId senderOwned recipientId recipientOwned
    obtain ⟨-, h⟩ := require_bind_eq_some.mp h
    obtain ⟨howned, h⟩ := require_bind_eq_some.mp h
    obtain ⟨hfree, h⟩ := require_bind_eq_some.mp h
    cases h
    subst howned hfree
    obtain rfl : senderId = recipientId := hid
    refine ⟨rfl, rfl, Iff.rfl, Iff.rfl, ?_, fun _ => rfl, fun _ => rfl, fun id => ?_, fun _ => rfl⟩
    · exact ⟨Nat.zero_le _, Nat.zero_le _⟩
    · exact Nat.add_comm _ _
  · cases h

/-- A definition and a holding of its token change by the same amount. -/
structure Resupplied (definition definition' : TokenDefinition) (holding holding' : TokenHolding) :
    Prop where
  holdingId : holding'.definitionId = holding.definitionId
  holdingPlain : holding'.Confusable ↔ holding.Confusable
  definitionPlain : definition'.Confusable ↔ definition.Confusable
  fungible : balanceOf holding.definitionId holding' + fungibleIssued (some definition) =
    balanceOf holding.definitionId holding + fungibleIssued (some definition')
  nonFungible : printsOf holding.definitionId holding' + copiesOf holding.definitionId holding'
      + nonFungibleIssued (some definition) =
    printsOf holding.definitionId holding + copiesOf holding.definitionId holding
      + nonFungibleIssued (some definition')
  masters : ∀ id, mastersOf id holding' ≤ mastersOf id holding

theorem TokenDefinition.confusable_fungible {name : Text} {supply supply' : U128}
    {metadataId : Option AccountId} :
    (TokenDefinition.fungible name supply metadataId).Confusable ↔
      (TokenDefinition.fungible name supply' metadataId).Confusable := by
  cases metadataId <;> exact Iff.rfl

theorem mintSupply_ok {holding' : TokenHolding}
    (h : mintSupply definition holding amount = some (definition', holding')) :
    Resupplied definition definition' holding holding' ∧ holding.units ≤ holding'.units := by
  unfold mintSupply at h
  split at h
  · rename_i definitionId balance
    obtain ⟨balance', hbalance, h⟩ := bind_eq_some_iff.mp h
    obtain ⟨totalSupply', hsupply, h⟩ := bind_eq_some_iff.mp h
    cases h
    have hbalance := checkedAdd_eq_some.mp hbalance
    have hsupply := checkedAdd_eq_some.mp hsupply
    refine ⟨⟨rfl, Iff.rfl, TokenDefinition.confusable_fungible, ?_, rfl, fun _ => le_rfl⟩, ?_⟩
    · simp only [balanceOf, fungibleIssued, TokenHolding.definitionId, if_pos]
      omega
    · simp only [TokenHolding.units]
      omega
  · cases h

theorem burnSupply_ok {holding' : TokenHolding}
    (h : burnSupply definition holding amount = some (definition', holding')) :
    Resupplied definition definition' holding holding' := by
  unfold burnSupply at h
  split at h
  · rename_i definitionId balance
    obtain ⟨balance', hbalance, h⟩ := bind_eq_some_iff.mp h
    obtain ⟨totalSupply', hsupply, h⟩ := bind_eq_some_iff.mp h
    cases h
    have hbalance := checkedSub_eq_some.mp hbalance
    have hsupply := checkedSub_eq_some.mp hsupply
    refine ⟨rfl, Iff.rfl, TokenDefinition.confusable_fungible, ?_, rfl, fun _ => le_rfl⟩
    simp only [balanceOf, fungibleIssued, TokenHolding.definitionId, if_pos]
    omega
  · rename_i definitionId printBalance
    obtain ⟨printableSupply', hsupply, h⟩ := bind_eq_some_iff.mp h
    obtain ⟨printBalance', hprints, h⟩ := bind_eq_some_iff.mp h
    cases h
    have hprints := checkedSub_eq_some.mp hprints
    have hsupply := checkedSub_eq_some.mp hsupply
    refine ⟨rfl, Iff.rfl, Iff.rfl, rfl, ?_, fun id => ?_⟩
    · simp only [printsOf, copiesOf, nonFungibleIssued, TokenHolding.definitionId, if_pos]
      omega
    · unfold mastersOf
      simp only
      split
      · rename_i hmaster
        have hne : printBalance ≠ 0 := by
          rintro rfl
          have hzero : printBalance'.val = 0 := by
            simp only [Fin.val_zero] at hprints
            omega
          exact hmaster.2 (Fin.ext hzero)
        rw [if_pos ⟨hmaster.1, hne⟩]
      · exact Nat.zero_le _
  · rename_i printableSupply metadataId definitionId owned
    obtain ⟨-, h⟩ := require_bind_eq_some.mp h
    obtain ⟨howned, h⟩ := require_bind_eq_some.mp h
    obtain ⟨printableSupply', hsupply, h⟩ := bind_eq_some_iff.mp h
    cases h
    subst howned
    have hsupply : printableSupply'.val + 1 = printableSupply.val := checkedSub_eq_some.mp hsupply
    refine ⟨rfl, Iff.rfl, Iff.rfl, rfl, ?_, fun _ => le_rfl⟩
    simp only [printsOf, copiesOf, nonFungibleIssued, TokenHolding.definitionId, and_true, if_pos,
      Bool.false_eq_true, and_false, if_false]
    omega
  · cases h

/-! ### What an instruction reads and writes -/

/-- The holding that an account stands for, which is `fresh` if nobody has used the account. -/
def Reads (account : Account) (fresh holding : TokenHolding) : Prop :=
  account = .default ∧ holding = fresh ∨
    account ≠ .default ∧ TokenHolding.tryFrom account.data = some holding

theorem holdingOr_ok {fresh : TokenHolding} (h : holdingOr fresh account = some holding) :
    Reads account fresh holding := by
  unfold holdingOr at h
  split at h
  · rename_i hdefault
    exact .inl ⟨hdefault, (some.inj h).symm⟩
  · rename_i hne
    exact .inr ⟨hne, h⟩

theorem transfer_ok {sender recipient : AccountWithMetadata}
    (h : transfer sender recipient amount = some posts) :
    ∃ senderHolding recipientHolding senderHolding' recipientHolding' senderData recipientData,
      sender.isAuthorized = true ∧
      TokenHolding.tryFrom sender.account.data = some senderHolding ∧
      Reads recipient.account senderHolding.zeroizedCloneFrom recipientHolding ∧
      Moved senderHolding recipientHolding senderHolding' recipientHolding' ∧
      senderData.bytes = holdingCodec.encode senderHolding' ∧
      recipientData.bytes = holdingCodec.encode recipientHolding' ∧
      posts = [ .new { sender.account with data := senderData },
        .newClaimedIfDefault { recipient.account with data := recipientData } .authorized ] := by
  obtain ⟨hauthorized, h⟩ := require_bind_eq_some.mp h
  obtain ⟨senderHolding, hsender, h⟩ := bind_eq_some_iff.mp h
  obtain ⟨recipientHolding, hrecipient, h⟩ := bind_eq_some_iff.mp h
  obtain ⟨hid, h⟩ := require_bind_eq_some.mp h
  obtain ⟨⟨senderHolding', recipientHolding'⟩, hmoved, h⟩ := bind_eq_some_iff.mp h
  obtain ⟨senderData, hsenderData, h⟩ := bind_eq_some_iff.mp h
  obtain ⟨recipientData, hrecipientData, h⟩ := bind_eq_some_iff.mp h
  exact ⟨senderHolding, recipientHolding, senderHolding', recipientHolding', senderData,
    recipientData, hauthorized, hsender, holdingOr_ok hrecipient, moveBalance_ok hmoved hid,
    Data.tryFrom_eq_some.mp hsenderData, Data.tryFrom_eq_some.mp hrecipientData,
    (some.inj h).symm⟩

theorem mint_ok (h : mint definitionAccount userHoldingAccount amount = some posts) :
    ∃ definition holding definition' holding' definitionData holdingData,
      definitionAccount.isAuthorized = true ∧
      TokenDefinition.tryFrom definitionAccount.account.data = some definition ∧
      Reads userHoldingAccount.account
        (TokenHolding.zeroizedFromDefinition definitionAccount.accountId definition) holding ∧
      holding.definitionId = definitionAccount.accountId ∧
      Resupplied definition definition' holding holding' ∧ holding.units ≤ holding'.units ∧
      definitionData.bytes = definitionCodec.encode definition' ∧
      holdingData.bytes = holdingCodec.encode holding' ∧
      posts = [ .new { definitionAccount.account with data := definitionData },
        .newClaimedIfDefault { userHoldingAccount.account with data := holdingData }
          .authorized ] := by
  obtain ⟨hauthorized, h⟩ := require_bind_eq_some.mp h
  obtain ⟨definition, hdefinition, h⟩ := bind_eq_some_iff.mp h
  obtain ⟨holding, hholding, h⟩ := bind_eq_some_iff.mp h
  obtain ⟨hid, h⟩ := require_bind_eq_some.mp h
  obtain ⟨⟨definition', holding'⟩, hminted, h⟩ := bind_eq_some_iff.mp h
  obtain ⟨definitionData, hdefinitionData, h⟩ := bind_eq_some_iff.mp h
  obtain ⟨holdingData, hholdingData, h⟩ := bind_eq_some_iff.mp h
  obtain ⟨hresupplied, hunits⟩ := mintSupply_ok hminted
  exact ⟨definition, holding, definition', holding', definitionData, holdingData, hauthorized,
    hdefinition, holdingOr_ok hholding, hid.symm, hresupplied, hunits,
    Data.tryFrom_eq_some.mp hdefinitionData, Data.tryFrom_eq_some.mp hholdingData,
    (some.inj h).symm⟩

theorem burn_ok (h : burn definitionAccount userHoldingAccount amount = some posts) :
    ∃ definition holding definition' holding' definitionData holdingData,
      userHoldingAccount.isAuthorized = true ∧
      TokenDefinition.tryFrom definitionAccount.account.data = some definition ∧
      TokenHolding.tryFrom userHoldingAccount.account.data = some holding ∧
      holding.definitionId = definitionAccount.accountId ∧
      Resupplied definition definition' holding holding' ∧
      definitionData.bytes = definitionCodec.encode definition' ∧
      holdingData.bytes = holdingCodec.encode holding' ∧
      posts = [ .new { definitionAccount.account with data := definitionData },
        .new { userHoldingAccount.account with data := holdingData } ] := by
  obtain ⟨hauthorized, h⟩ := require_bind_eq_some.mp h
  obtain ⟨definition, hdefinition, h⟩ := bind_eq_some_iff.mp h
  obtain ⟨holding, hholding, h⟩ := bind_eq_some_iff.mp h
  obtain ⟨hid, h⟩ := require_bind_eq_some.mp h
  obtain ⟨⟨definition', holding'⟩, hburned, h⟩ := bind_eq_some_iff.mp h
  obtain ⟨definitionData, hdefinitionData, h⟩ := bind_eq_some_iff.mp h
  obtain ⟨holdingData, hholdingData, h⟩ := bind_eq_some_iff.mp h
  exact ⟨definition, holding, definition', holding', definitionData, holdingData, hauthorized,
    hdefinition, hholding, hid.symm, burnSupply_ok hburned,
    Data.tryFrom_eq_some.mp hdefinitionData, Data.tryFrom_eq_some.mp hholdingData,
    (some.inj h).symm⟩

theorem initializeAccount_ok {accountToInitialize : AccountWithMetadata}
    (h : initializeAccount definitionAccount accountToInitialize = some posts) :
    ∃ holding data, accountToInitialize.account = .default ∧
      holding.definitionId = definitionAccount.accountId ∧ holding.units = 0 ∧
      data.bytes = holdingCodec.encode holding ∧
      posts = [ .new definitionAccount.account,
        .newClaimed { accountToInitialize.account with data } .authorized ] := by
  obtain ⟨hdefault, h⟩ := require_bind_eq_some.mp h
  obtain ⟨definition, -, h⟩ := bind_eq_some_iff.mp h
  obtain ⟨data, hdata, h⟩ := bind_eq_some_iff.mp h
  refine ⟨_, data, hdefault, ?_, TokenHolding.units_zeroizedFromDefinition _ definition,
    Data.tryFrom_eq_some.mp hdata, (some.inj h).symm⟩
  cases definition <;> rfl

theorem printNft_ok {masterAccount printedAccount : AccountWithMetadata}
    (h : printNft masterAccount printedAccount = some posts) :
    ∃ definitionId printBalance printBalance' masterData printedData,
      masterAccount.isAuthorized = true ∧ printedAccount.account = .default ∧
      TokenHolding.tryFrom masterAccount.account.data =
        some (.nftMaster definitionId printBalance) ∧
      1 < printBalance.val ∧ printBalance'.val + 1 = printBalance.val ∧
      masterData.bytes = holdingCodec.encode (.nftMaster definitionId printBalance') ∧
      printedData.bytes = holdingCodec.encode (.nftPrintedCopy definitionId true) ∧
      posts = [ .new { masterAccount.account with data := masterData },
        .newClaimed { printedAccount.account with data := printedData } .authorized ] := by
  obtain ⟨hauthorized, h⟩ := require_bind_eq_some.mp h
  obtain ⟨hdefault, h⟩ := require_bind_eq_some.mp h
  obtain ⟨holding, hholding, h⟩ := bind_eq_some_iff.mp h
  cases holding with
  | nftMaster definitionId printBalance =>
    obtain ⟨hmore, h⟩ := require_bind_eq_some.mp h
    obtain ⟨printBalance', hprints, h⟩ := bind_eq_some_iff.mp h
    obtain ⟨masterData, hmaster, h⟩ := bind_eq_some_iff.mp h
    obtain ⟨printedData, hprinted, h⟩ := bind_eq_some_iff.mp h
    exact ⟨definitionId, printBalance, printBalance', masterData, printedData, hauthorized,
      hdefault, hholding, hmore, checkedSub_eq_some.mp hprints, Data.tryFrom_eq_some.mp hmaster,
      Data.tryFrom_eq_some.mp hprinted, (some.inj h).symm⟩
  | fungible definitionId balance | nftPrintedCopy definitionId owned => cases h

/-! ### Written accounts -/

/-- An account that stood for `old` and stands for `new`: it is one of the program, or it is another
program's and nothing changes. -/
inductive Written {α : Type} (codec : Codec α) (token : ProgramId) (before after : Account)
    (old new : α) : Prop
  | own (hbefore : before.programOwner = ofProgramId token)
      (hold : codec.fromSlice before.data.bytes = some old)
      (hafter : after.programOwner = ofProgramId token)
      (hnew : codec.fromSlice after.data.bytes = some new)
  | foreign (hbefore : before.programOwner ≠ ofProgramId token)
      (hafter : after.programOwner ≠ ofProgramId token) (hsame : old = new)

/-- An account that nobody had used and stands for the holding `new`, or that stood for `old`. -/
inductive HoldingWritten (token : ProgramId) (before after : Account) (old new : TokenHolding) :
    Prop
  | fresh (hbefore : before = .default) (hempty : old.units = 0)
      (howned : after.programOwner = ofProgramId token)
      (hnew : TokenHolding.tryFrom after.data = some new)
  | used (h : Written holdingCodec token before after old new)

section

variable {α β : Type} {a a' a'' : α} {b b' b'' : β} {as : List α} {bs : List β} {l : List α}
  {l' : List β}

theorem mem_zip_first (h : l = a :: as) (h' : l' = b :: bs) : (a, b) ∈ l.zip l' := by
  rw [h, h']
  exact mem_cons_self

theorem mem_zip_second (h : l = a :: a' :: as) (h' : l' = b :: b' :: bs) : (a', b') ∈ l.zip l' := by
  rw [h, h']
  exact mem_cons_of_mem _ mem_cons_self

theorem mem_zip_third (h : l = a :: a' :: a'' :: as) (h' : l' = b :: b' :: b'' :: bs) :
    (a'', b'') ∈ l.zip l' := by
  rw [h, h']
  exact mem_cons_of_mem _ (mem_cons_of_mem _ mem_cons_self)

end

section

variable [Sha256] {exec : Executor} {state : V03State} {blockId : BlockId} {timestamp : Timestamp}
  {diff diff' : Diff} {call : Call} {output : ProgramOutput} {token : ProgramId}
  {pre : AccountWithMetadata} {data : Data} {old new : TokenHolding}

variable (hstep : Step exec state blockId timestamp diff call output diff')

include hstep

variable {post : AccountPostState}

theorem pre_eq_overlay (hmem : (pre, post) ∈ output.preStates.zip output.postStates) :
    overlay state diff pre.accountId = pre.account :=
  (hstep.consistent pre (of_mem_zip hmem).1).symm

variable (hprogram : call.1.programId = token)

include hprogram

/-- Data written to a used account of another program is the data that was there. -/
theorem data_eq_of_foreign (hmem : (pre, post) ∈ output.preStates.zip output.postStates)
    (hused : pre.account ≠ .default) (hforeign : pre.account.programOwner ≠ .ofProgramId token) :
    post.account.data = pre.account.data := by
  have hvalid := hstep.validExecution.account _ hmem
  by_contra hne
  rcases hvalid.data hne with hdefault | howned
  · exact hused hdefault
  · rw [hprogram] at howned
    exact hforeign howned

/-- A value written back to a used account. -/
theorem written_used {α : Type} {codec : Codec α} {old new : α}
    (hmem : (pre, post) ∈ output.preStates.zip output.postStates)
    (hpost : post.account.data = data) (hempty : codec.fromSlice [] = none)
    (hold : codec.fromSlice pre.account.data.bytes = some old)
    (hdata : data.bytes = codec.encode new) :
    Written codec token pre.account { pre.account with data } old new := by
  by_cases howned : pre.account.programOwner = .ofProgramId token
  · exact .own howned hold howned (Codec.fromSlice_eq_some.mpr hdata)
  · have hused : pre.account ≠ .default := by
      intro hdefault
      rw [hdefault] at hold
      cases hempty.symm.trans hold
    have hsame : data = pre.account.data :=
      hpost.symm.trans (data_eq_of_foreign hstep hprogram hmem hused howned)
    refine .foreign howned howned (codec.encode_injective ?_)
    rw [← hdata, hsame]
    exact (Codec.fromSlice_eq_some.mp hold).symm

/-- A holding written back without a claim. -/
theorem holdingWritten_new (hmem : (pre, .new { pre.account with data })
      ∈ output.preStates.zip output.postStates)
    (hold : TokenHolding.tryFrom pre.account.data = some old)
    (hdata : data.bytes = holdingCodec.encode new) :
    HoldingWritten token (overlay state diff pre.accountId) (overlay state diff' pre.accountId)
      old new := by
  rw [hstep.overlay_new hmem, pre_eq_overlay hstep hmem]
  exact .used (written_used hstep hprogram hmem rfl rfl hold hdata)

/-- A holding written into an account nobody has used. -/
theorem holdingWritten_newClaimed {claim : Claim}
    (hmem : (pre, .newClaimed { pre.account with data } claim)
      ∈ output.preStates.zip output.postStates)
    (hdefault : pre.account = .default) (hempty : old.units = 0)
    (hdata : data.bytes = holdingCodec.encode new) :
    HoldingWritten token (overlay state diff pre.accountId) (overlay state diff' pre.accountId)
      old new := by
  rw [hstep.overlay_newClaimed hmem, pre_eq_overlay hstep hmem, hprogram]
  exact .fresh hdefault hempty rfl (TokenHolding.tryFrom_eq_some.mpr hdata)

/-- A holding written into an account that is claimed if nobody owns it. -/
theorem holdingWritten_newClaimedIfDefault {claim : Claim}
    (hmem : (pre, .newClaimedIfDefault { pre.account with data } claim)
      ∈ output.preStates.zip output.postStates) {fresh : TokenHolding}
    (hreads : Reads pre.account fresh old) (hempty : fresh.units = 0)
    (hdata : data.bytes = holdingCodec.encode new) :
    HoldingWritten token (overlay state diff pre.accountId) (overlay state diff' pre.accountId)
      old new := by
  rw [hstep.overlay_newClaimedIfDefault hmem, pre_eq_overlay hstep hmem]
  rcases hreads with ⟨hdefault, rfl⟩ | ⟨hused, hold⟩
  · have howner : pre.account.programOwner = defaultProgramOwner := by
      rw [hdefault]
      rfl
    refine .fresh hdefault hempty ?_ (TokenHolding.tryFrom_eq_some.mpr hdata)
    simp only [howner, if_pos, hprogram]
  · have howner : pre.account.programOwner ≠ defaultProgramOwner := fun howner =>
      hused ((hstep.validExecution.account _ hmem).unowned howner)
    simp only [if_neg howner]
    exact .used (written_used hstep hprogram hmem rfl rfl hold hdata)

/-- A definition written back. -/
theorem definitionWritten_new (hmem : (pre, .new { pre.account with data })
      ∈ output.preStates.zip output.postStates) {old new : TokenDefinition}
    (hold : TokenDefinition.tryFrom pre.account.data = some old)
    (hdata : data.bytes = definitionCodec.encode new) :
    Written definitionCodec token (overlay state diff pre.accountId)
      (overlay state diff' pre.accountId) old new := by
  rw [hstep.overlay_new hmem, pre_eq_overlay hstep hmem]
  exact written_used hstep hprogram hmem rfl rfl hold hdata

end

/-! ### What a written account reads as -/

/-- What the holding in an account measures. -/
def measureIn (token : ProgramId) (m : TokenHolding → ℕ) (account : Account) : ℕ :=
  (holdingIn token account).elim 0 m

section

variable {token : ProgramId} {before after : Account}

variable {m : TokenHolding → ℕ}

theorem measureIn_of_none (h : holdingIn token before = none) :
    measureIn token m before = 0 := by
  rw [measureIn, h, elim_none]

theorem measureIn_of_some {holding : TokenHolding} (h : holdingIn token before = some holding) :
    measureIn token m before = m holding := by
  rw [measureIn, h, elim_some]

/-- The measure of a written holding changes as the holding does. -/
theorem HoldingWritten.measure {old new : TokenHolding}
    (h : HoldingWritten token before after old new) (hm : Vanishes m) :
    measureIn token m after + m old = measureIn token m before + m new := by
  rcases h with ⟨hbefore, hempty, howned, hnew⟩ |
    (⟨hbefore, hold, hafter, hnew⟩ | ⟨hbefore, hafter, hsame⟩)
  · rw [hbefore, measureIn_of_none (holdingIn_default token),
      measureIn_of_some ((holdingIn_owned howned).trans hnew), hm old hempty]
    omega
  · rw [measureIn_of_some ((holdingIn_owned hbefore).trans hold),
      measureIn_of_some ((holdingIn_owned hafter).trans hnew)]
    omega
  · rw [measureIn_of_none (holdingIn_foreign hbefore), measureIn_of_none (holdingIn_foreign hafter),
      hsame]

/-- A written holding was no definition and is none. -/
theorem HoldingWritten.undefined {old new : TokenHolding}
    (howns : ofProgramId token ≠ defaultProgramOwner)
    (h : HoldingWritten token before after old new) (hplain : ¬new.Confusable)
    (hnamed : ∀ definition, definitionIn token before = some definition → ¬definition.Confusable) :
    definitionIn token before = none ∧ definitionIn token after = none := by
  rcases h with ⟨hbefore, -, howned, hnew⟩ | (⟨hbefore, hold, hafter, hnew⟩ | ⟨hbefore, hafter, -⟩)
  · have hforeign : before.programOwner ≠ .ofProgramId token := by
      rw [hbefore]
      exact howns.symm
    rw [definitionIn_foreign hforeign, definitionIn_owned howned]
    exact ⟨rfl, TokenDefinition.tryFrom_eq_none hnew hplain⟩
  · rw [definitionIn_owned hafter]
    refine ⟨?_, TokenDefinition.tryFrom_eq_none hnew hplain⟩
    cases hdefinition : definitionIn token before with
    | none => rfl
    | some definition =>
      have hnone := TokenHolding.tryFrom_eq_none ((definitionIn_owned hbefore).symm.trans
        hdefinition) (hnamed definition hdefinition)
      cases hnone.symm.trans hold
  · exact ⟨definitionIn_foreign hbefore, definitionIn_foreign hafter⟩

/-- A definition of the program is replaced, one of another program stays. -/
theorem Written.definitionIn {old new : TokenDefinition}
    (h : Written definitionCodec token before after old new) :
    Token.definitionIn token before = some old ∧ Token.definitionIn token after = some new ∨
      Token.definitionIn token before = none ∧ Token.definitionIn token after = none ∧
        old = new := by
  cases h with
  | own hbefore hold hafter hnew =>
    rw [definitionIn_owned hbefore, definitionIn_owned hafter]
    exact .inl ⟨hold, hnew⟩
  | foreign hbefore hafter hsame =>
    exact .inr ⟨definitionIn_foreign hbefore, definitionIn_foreign hafter, hsame⟩

/-- A written definition was no holding and is none. -/
theorem Written.holdingIn {old new : TokenDefinition}
    (h : Written definitionCodec token before after old new)
    (hplain : new.Confusable ↔ old.Confusable)
    (hnamed : ∀ definition, Token.definitionIn token before = some definition →
      ¬definition.Confusable) :
    Token.holdingIn token before = none ∧ Token.holdingIn token after = none := by
  cases h with
  | own hbefore hold hafter hnew =>
    have hold' := hnamed old ((definitionIn_owned hbefore).trans hold)
    rw [holdingIn_owned hbefore, holdingIn_owned hafter]
    exact ⟨TokenHolding.tryFrom_eq_none hold hold',
      TokenHolding.tryFrom_eq_none hnew fun hnew' => hold' (hplain.mp hnew')⟩
  | foreign hbefore hafter hsame =>
    exact ⟨holdingIn_foreign hbefore, holdingIn_foreign hafter⟩

end

end Token

end Lssa
