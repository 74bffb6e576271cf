/-
The supply of tokens.

The token program looks at no owner.  The state machine does: data of another program's account
stays as it is, so a call that lists such an account moves nothing out of it or into it, and a
definition of another program is minted and burned by nothing only.  Whatever a call does to the
amounts held and to the supplies in the definitions is then the same on both sides (`Deed`), as
long as nothing is taken for what it is not (`Plain`).

* `Conserved` — every definition of the program counts what the holdings of its token hold;
* `transfer_deed`, `mint_deed`, `burn_deed`, … — what each instruction does to the books;
* `token_step` — what one call of the program keeps, and when it changes a supply;
* **`supply_conserved`** — what a run of public transactions keeps.
-/
import Lssa.Library.Runs
import Lssa.Token.Effects

open Borsh DepthFirst Runs Outcome
open List (flatMap_cons sum_cons sum_nil)

namespace Lssa

open Sample (alice bob bobKey key)

open PublicExecution

namespace Token

/-! ### The claim of a definition -/

/-- What all accounts of the program measure. -/
def circulating (token : ProgramId) (m : TokenHolding → ℕ) (state : V03State) : ℕ :=
  Ledger.total (measureIn token m) state.publicState

/-- Every definition counts what is held of its token, and of the masters of a non-fungible token
at most one can still print. -/
structure Conserved (token : ProgramId) (state : V03State) : Prop where
  fungible : ∀ definitionId name totalSupply metadataId,
    definitionIn token (state.getAccountById definitionId) =
        some (.fungible name totalSupply metadataId) →
      totalSupply.val = circulating token (balanceOf definitionId) state
  nonFungible : ∀ definitionId name printableSupply metadataId,
    definitionIn token (state.getAccountById definitionId) =
        some (.nonFungible name printableSupply metadataId) →
      circulating token (printsOf definitionId) state
          + circulating token (copiesOf definitionId) state = printableSupply.val ∧
        ∀ first second prints prints',
          holdingIn token (state.getAccountById first) = some (.nftMaster definitionId prints) →
          holdingIn token (state.getAccountById second) = some (.nftMaster definitionId prints') →
          prints ≠ 0 → prints' ≠ 0 → first = second

/-- What a definition says was issued. -/
def TokenDefinition.supply : TokenDefinition → ℕ
  | .fungible _ totalSupply _ => totalSupply.val
  | .nonFungible _ printableSupply _ => printableSupply.val

/-- The supply in an account of the program, if it is a definition. -/
def supplyIn (token : ProgramId) (account : Account) : Option ℕ :=
  (definitionIn token account).map TokenDefinition.supply

/-- The data reads as nothing the program knows. -/
def Unread (bytes : List UInt8) : Prop :=
  definitionCodec.fromSlice bytes = none ∧ holdingCodec.fromSlice bytes = none

/-- What an instruction creates does not read as something else: a definition without metadata is
not named with 27 bytes, and metadata reads as nothing the program knows. -/
def Instruction.Legible : Instruction → List AccountWithMetadata → Prop
  | .newFungibleDefinition name _, _ => name.bytes.length ≠ 27
  | .newDefinitionWithMetadata _ metadata, definition :: _ =>
    Unread (metadataCodec.encode (metadata.toMetadata definition.accountId))
  | _, _ => True

/-- A call in which nothing can be taken for what it is not: no account has an id that reads as a
name, nor is a fungible holding of one, and what is created is legible. -/
structure Plain (preStates : List AccountWithMetadata) (instruction : Instruction) : Prop where
  ids : ∀ pre ∈ preStates, ¬Named pre.accountId
  holdings : ∀ pre ∈ preStates, ∀ holding ∈ TokenHolding.tryFrom pre.account.data,
    ¬holding.Confusable
  legible : instruction.Legible preStates

instance instDecidableUnread (bytes : List UInt8) : Decidable (Unread bytes) :=
  inferInstanceAs (Decidable (_ ∧ _))

instance instDecidableLegible (instruction : Instruction) (preStates : List AccountWithMetadata) :
    Decidable (instruction.Legible preStates) :=
  match instruction, preStates with
  | .newFungibleDefinition name _, _ => inferInstanceAs (Decidable (name.bytes.length ≠ 27))
  | .newDefinitionWithMetadata _ metadata, definition :: _ => inferInstanceAs
    (Decidable (Unread (metadataCodec.encode (metadata.toMetadata definition.accountId))))
  | .newDefinitionWithMetadata _ _, [] => inferInstanceAs (Decidable True)
  | .transfer _, _ => inferInstanceAs (Decidable True)
  | .initializeAccount, _ => inferInstanceAs (Decidable True)
  | .burn _, _ => inferInstanceAs (Decidable True)
  | .mint _, _ => inferInstanceAs (Decidable True)
  | .printNft, _ => inferInstanceAs (Decidable True)

instance instDecidablePlain (preStates : List AccountWithMetadata) (instruction : Instruction) :
    Decidable (Plain preStates instruction) :=
  decidable_of_iff
    ((∀ pre ∈ preStates, ¬Named pre.accountId) ∧
      (∀ pre ∈ preStates, ∀ holding ∈ TokenHolding.tryFrom pre.account.data,
        ¬holding.Confusable) ∧ instruction.Legible preStates)
    ⟨fun h => ⟨h.1, h.2.1, h.2.2⟩, fun h => ⟨h.ids, h.holdings, h.legible⟩⟩

/-- The instructions that may change the supply in a definition. -/
def Instruction.Issues (authorized : Prop) : Instruction → Prop
  | .mint _ => authorized
  | .newFungibleDefinition _ _ => True
  | .newDefinitionWithMetadata _ _ => True
  | .burn _ => True
  | _ => False

/-! ### The books -/

/-- What all accounts measure changes as the holdings `olds` become `news`. -/
def Exchanged (token : ProgramId) (view view' : AccountId → Account)
    (olds news : List TokenHolding) : Prop :=
  ∀ m, Vanishes m → ∑ᶠ accountId, measureIn token m (view' accountId) + (olds.map m).sum
    = ∑ᶠ accountId, measureIn token m (view accountId) + (news.map m).sum

/-- No definition reads as a holding. -/
def Unconfused (token : ProgramId) (view : AccountId → Account) : Prop :=
  ∀ id definition, definitionIn token (view id) = some definition → ¬definition.Confusable

/-- What a call does to the books: the holdings `olds` become `news`, and the supplies in the
definitions change by as much. -/
structure Deed (token : ProgramId) (view view' : AccountId → Account)
    (olds news : List TokenHolding) : Prop where
  measures : Exchanged token view view' olds news
  fungible : ∀ id, (news.map (balanceOf id)).sum + fungibleIssued (definitionIn token (view id)) =
    (olds.map (balanceOf id)).sum + fungibleIssued (definitionIn token (view' id))
  nonFungible : ∀ id, (news.map fun h => printsOf id h + copiesOf id h).sum
      + nonFungibleIssued (definitionIn token (view id)) =
    (olds.map fun h => printsOf id h + copiesOf id h).sum
      + nonFungibleIssued (definitionIn token (view' id))
  masters : ∀ id, (news.map (mastersOf id)).sum ≤ (olds.map (mastersOf id)).sum ∨
    definitionIn token (view id) = none ∧ (news.map (mastersOf id)).sum ≤ 1
  named : Unconfused token view'

/-- The books are in order. -/
structure Sound (token : ProgramId) (view : AccountId → Account) : Prop where
  finite : ∀ m, (Function.support fun accountId => measureIn token m (view accountId)).Finite
  fungible : ∀ id, ∑ᶠ accountId, measureIn token (balanceOf id) (view accountId) =
    fungibleIssued (definitionIn token (view id))
  nonFungible : ∀ id,
    ∑ᶠ accountId, measureIn token (fun h => printsOf id h + copiesOf id h) (view accountId) =
      nonFungibleIssued (definitionIn token (view id))
  masters : ∀ id, ∑ᶠ accountId, measureIn token (mastersOf id) (view accountId) ≤ 1
  named : Unconfused token view

section

variable {token : ProgramId} {view view' : AccountId → Account}

/-- A token that is not issued has no master that can print. -/
theorem Sound.masters_eq_zero (h : Sound token view) {id : AccountId}
    (hnone : definitionIn token (view id) = none) :
    ∑ᶠ accountId, measureIn token (mastersOf id) (view accountId) = 0 := by
  have hle : ∑ᶠ accountId, measureIn token (mastersOf id) (view accountId) ≤
      ∑ᶠ accountId, measureIn token (fun h => printsOf id h + copiesOf id h) (view accountId)
        + 0 := by
    refine Ledger.finsum_le_add (k := id) (h.finite _) (h.finite _) fun accountId => ?_
    have hmono : measureIn token (mastersOf id) (view accountId) ≤
        measureIn token (fun h => printsOf id h + copiesOf id h) (view accountId) := by
      unfold measureIn
      cases holdingIn token (view accountId) with
      | none => exact le_rfl
      | some holding => exact (mastersOf_le_printsOf id holding).trans (Nat.le_add_right _ _)
    split <;> exact hmono
  rw [h.nonFungible, hnone] at hle
  exact Nat.le_zero.mp hle

/-- A deed keeps the books in order. -/
theorem Sound.deed (h : Sound token view) {olds news : List TokenHolding}
    (hdeed : Deed token view view' olds news)
    (hfinite : ∀ m,
      (Function.support fun accountId => measureIn token m (view' accountId)).Finite) :
    Sound token view' where
  finite := hfinite
  fungible id := by
    have hmeasure := hdeed.measures _ (vanishes_balanceOf id)
    have hissued := hdeed.fungible id
    have hbefore := h.fungible id
    omega
  nonFungible id := by
    have hmeasure := hdeed.measures _ ((vanishes_printsOf id).add (vanishes_copiesOf id))
    have hissued := hdeed.nonFungible id
    have hbefore := h.nonFungible id
    omega
  masters id := by
    have hmeasure := hdeed.measures _ (vanishes_mastersOf id)
    rcases hdeed.masters id with hless | ⟨hnone, hone⟩
    · have hbefore := h.masters id
      omega
    · have hbefore := h.masters_eq_zero hnone
      omega
  named := hdeed.named

end

/-! ### What a call lists -/

theorem finite_support_measure (token : ProgramId) (m : TokenHolding → ℕ) (state : V03State)
    (diff : Diff) :
    (Function.support fun accountId =>
      measureIn token m (overlay state diff accountId)).Finite := by
  have h := Ledger.finite_support_get (f := measureIn token m) (d := .default)
    (measureIn_of_none (holdingIn_default token)) (writeDiff state.publicState diff)
  simpa only [get_writeDiff] using h

section

variable [Sha256] {exec : Executor} {state : V03State} {blockId : BlockId} {timestamp : Timestamp}
  {diff diff' : Diff} {call : Call} {output : ProgramOutput} {token : ProgramId}

/-- What a listed account measures changes as the holdings it stands for do. -/
def Booked (token : ProgramId) (state : V03State) (diff diff' : Diff) (pre : AccountWithMetadata)
    (book : List TokenHolding × List TokenHolding) : Prop :=
  ∀ m, Vanishes m → measureIn token m (overlay state diff' pre.accountId) + (book.1.map m).sum =
    measureIn token m (overlay state diff pre.accountId) + (book.2.map m).sum

/-- The definition in an account, if there is one, stays. -/
def SameDefinition (token : ProgramId) (state : V03State) (diff diff' : Diff) (id : AccountId) :
    Prop :=
  definitionIn token (overlay state diff' id) = definitionIn token (overlay state diff id)

/-- A listed account that is booked, and whose definition stays. -/
structure Entered (token : ProgramId) (state : V03State) (diff diff' : Diff)
    (pre : AccountWithMetadata) (book : List TokenHolding × List TokenHolding) : Prop where
  booked : Booked token state diff diff' pre book
  definition : SameDefinition token state diff diff' pre.accountId

variable {pre first definitionAccount target holdingAccount : AccountWithMetadata}
  {rest : List AccountWithMetadata} {view view' : AccountId → Account}
  {definition definition' : TokenDefinition} {old new holding holding' : TokenHolding}
  {amount : U128} {book : List TokenHolding × List TokenHolding}
  {books : List (List TokenHolding × List TokenHolding)} {olds news : List TokenHolding}

omit [Sha256] in
theorem booked_nothing (h : holdingIn token (overlay state diff' pre.accountId) =
      holdingIn token (overlay state diff pre.accountId)) :
    Booked token state diff diff' pre ([], []) := by
  intro m _
  simp only [measureIn, h]

section

variable (hstep : Step exec state blockId timestamp diff call output diff')

include hstep

/-- The measures of all accounts change as those of the listed ones do. -/
theorem exchanged_of_booked {pres : List AccountWithMetadata} (hpres : output.preStates = pres)
    (hbooks : List.Forall₂ (Booked token state diff diff') pres books) :
    Exchanged token (overlay state diff) (overlay state diff') (books.flatMap Prod.fst)
      (books.flatMap Prod.snd) := by
  intro m hm
  have hexchange := Ledger.finsum_add_sum hstep.validExecution.nodup
    (finite_support_measure token m state diff) (finite_support_measure token m state diff')
    fun accountId hnot => by rw [hstep.overlay_of_notMem hnot]
  rw [hpres] at hexchange
  -- over the listed accounts the books say what changes
  have hlisted : ∀ (pres : List AccountWithMetadata) books,
      List.Forall₂ (Booked token state diff diff') pres books →
      ((pres.map (·.accountId)).map fun id => measureIn token m (overlay state diff' id)).sum
          + ((books.flatMap Prod.fst).map m).sum =
        ((pres.map (·.accountId)).map fun id => measureIn token m (overlay state diff id)).sum
          + ((books.flatMap Prod.snd).map m).sum := by
    intro pres books h
    induction h with
    | nil => rfl
    | cons hbook _ ih =>
      have hfirst := hbook m hm
      simp only [map_cons, sum_cons, flatMap_cons, map_append, List.sum_append]
      omega
  have hsum := hlisted _ _ hbooks
  omega

/-- A call that enters all accounts but the first: it leaves all definitions but that one. -/
theorem listed_rest (hpres : output.preStates = first :: rest)
    (hfirst : Booked token state diff diff' first book)
    (hrest : List.Forall₂ (Entered token state diff diff') rest books) :
    Exchanged token (overlay state diff) (overlay state diff') (book.1 ++ books.flatMap Prod.fst)
        (book.2 ++ books.flatMap Prod.snd) ∧
      ∀ id, id ≠ first.accountId → SameDefinition token state diff diff' id := by
  refine ⟨exchanged_of_booked hstep hpres (.cons hfirst (hrest.imp fun _ _ h => h.booked)),
    fun id hne => ?_⟩
  by_cases hmem : id ∈ output.preStates.map (·.accountId)
  · rw [hpres, map_cons, mem_cons] at hmem
    obtain ⟨pre, hpre, rfl⟩ := mem_map.mp (hmem.resolve_left hne)
    clear hpres hmem hfirst
    induction hrest with
    | nil => cases hpre
    | cons hentered _ ih =>
      rcases mem_cons.mp hpre with rfl | hpre
      · exact hentered.definition
      · exact ih hpre
  · rw [SameDefinition, hstep.overlay_of_notMem hmem]

/-- A call that enters all accounts leaves all definitions. -/
theorem listed_all (hpres : output.preStates = first :: rest)
    (hfirst : Entered token state diff diff' first book)
    (hrest : List.Forall₂ (Entered token state diff diff') rest books) :
    Exchanged token (overlay state diff) (overlay state diff') (book.1 ++ books.flatMap Prod.fst)
        (book.2 ++ books.flatMap Prod.snd) ∧ ∀ id, SameDefinition token state diff diff' id := by
  obtain ⟨hexchanged, hdefinitions⟩ := listed_rest hstep hpres hfirst.booked hrest
  refine ⟨hexchanged, fun id => ?_⟩
  by_cases hne : id = first.accountId
  · rw [hne]
    exact hfirst.definition
  · exact hdefinitions id hne

end

/-! ### What each instruction does to the books -/

section

variable (hexchanged : Exchanged token view view' olds news) (hnamed : Unconfused token view)

include hexchanged hnamed

omit [Sha256] in
/-- Holdings that change hands while the definitions stay. -/
theorem deed_of_moves
    (hdefinitions : ∀ id, definitionIn token (view' id) = definitionIn token (view id))
    (hbalance : ∀ id, (news.map (balanceOf id)).sum = (olds.map (balanceOf id)).sum)
    (hprinted : ∀ id, (news.map fun h => printsOf id h + copiesOf id h).sum =
      (olds.map fun h => printsOf id h + copiesOf id h).sum)
    (hmasters : ∀ id, (news.map (mastersOf id)).sum ≤ (olds.map (mastersOf id)).sum) :
    Deed token view view' olds news where
  measures := hexchanged
  fungible id := by rw [hdefinitions, hbalance]
  nonFungible id := by rw [hdefinitions, hprinted]
  masters id := .inl (hmasters id)
  named id definition h := by
    rw [hdefinitions] at h
    exact hnamed id definition h

omit [Sha256] in
/-- One definition that changes with a holding of its token. -/
theorem deed_of_definition {definitionId : AccountId} (holds : olds = [old]) (hnews : news = [new])
    (hdefinitions : ∀ id, id ≠ definitionId →
      definitionIn token (view' id) = definitionIn token (view id))
    (hold : old.units = 0 ∨ old.definitionId = definitionId) (hid : new.definitionId = definitionId)
    (hfungible :
      balanceOf definitionId new + fungibleIssued (definitionIn token (view definitionId))
        = balanceOf definitionId old + fungibleIssued (definitionIn token (view' definitionId)))
    (hnonFungible : printsOf definitionId new + copiesOf definitionId new
        + nonFungibleIssued (definitionIn token (view definitionId))
      = printsOf definitionId old + copiesOf definitionId old
        + nonFungibleIssued (definitionIn token (view' definitionId)))
    (hmasters : mastersOf definitionId new ≤ mastersOf definitionId old ∨
      definitionIn token (view definitionId) = none ∧ mastersOf definitionId new ≤ 1)
    (hplain : ∀ definition, definitionIn token (view' definitionId) = some definition →
      ¬definition.Confusable) : Deed token view view' olds news := by
  subst holds hnews
  -- for another token neither holding counts
  have hother : ∀ id, id ≠ definitionId → ∀ m : AccountId → TokenHolding → ℕ, Vanishes (m id) →
      (∀ holding : TokenHolding, holding.definitionId ≠ id → m id holding = 0) →
      m id old = 0 ∧ m id new = 0 := by
    intro id hne m hm hapart
    refine ⟨?_, hapart new (hid ▸ hne.symm)⟩
    rcases hold with hempty | hold
    · exact hm old hempty
    · exact hapart old (hold ▸ hne.symm)
  refine ⟨hexchanged, fun id => ?_, fun id => ?_, fun id => ?_, fun id changed hchanged => ?_⟩
  · simp only [map_cons, map_nil, sum_cons, sum_nil, Nat.add_zero]
    by_cases hne : id = definitionId
    · rw [hne]
      exact hfungible
    · obtain ⟨hbefore, hafter⟩ := hother id hne _ (vanishes_balanceOf id) fun _ => balanceOf_ne
      rw [hdefinitions id hne, hbefore, hafter]
  · simp only [map_cons, map_nil, sum_cons, sum_nil, Nat.add_zero]
    by_cases hne : id = definitionId
    · rw [hne]
      exact hnonFungible
    · obtain ⟨hbefore, hafter⟩ := hother id hne _ (vanishes_printsOf id) fun _ => printsOf_ne
      obtain ⟨hbefore', hafter'⟩ := hother id hne _ (vanishes_copiesOf id) fun _ => copiesOf_ne
      rw [hdefinitions id hne, hbefore, hafter, hbefore', hafter']
  · simp only [map_cons, map_nil, sum_cons, sum_nil, Nat.add_zero]
    by_cases hne : id = definitionId
    · rw [hne]
      exact hmasters
    · obtain ⟨-, hafter⟩ := hother id hne _ (vanishes_mastersOf id) fun _ => mastersOf_ne
      exact .inl (hafter ▸ Nat.zero_le _)
  · by_cases hne : id = definitionId
    · rw [hne] at hchanged
      exact hplain changed hchanged
    · rw [hdefinitions id hne] at hchanged
      exact hnamed id changed hchanged

end

/-- The books are kept, and so is every definition but some. -/
structure Dealt (token : ProgramId) (state : V03State) (diff diff' : Diff)
    (but : AccountId → Prop) : Prop where
  deed : ∃ olds news, Deed token (overlay state diff) (overlay state diff') olds news
  kept : ∀ id, ¬but id → SameDefinition token state diff diff' id

section

variable (hstep : Step exec state blockId timestamp diff call output diff')
  (howns : ofProgramId token ≠ defaultProgramOwner)
  (hnamed : Unconfused token (overlay state diff))

include howns hnamed

omit [Sha256] in
/-- A holding that is written, in an account that is no definition. -/
theorem entered_holding (hplain : ¬new.Confusable)
    (h : HoldingWritten token (overlay state diff pre.accountId)
      (overlay state diff' pre.accountId) old new) :
    Entered token state diff diff' pre ([old], [new]) := by
  obtain ⟨hnone, hnone'⟩ := h.undefined howns hplain (hnamed _)
  refine ⟨fun m hm => ?_, hnone'.trans hnone.symm⟩
  simpa using h.measure hm

include hstep

/-- What minting and burning have in common: a definition and a holding of its token are
written. -/
theorem resupply_deed (hpres : output.preStates = [definitionAccount, holdingAccount])
    (hid : holding.definitionId = definitionAccount.accountId) (hplain : ¬holding.Confusable)
    (hresupplied : Resupplied definition definition' holding holding')
    (hwritten : Written definitionCodec token (overlay state diff definitionAccount.accountId)
      (overlay state diff' definitionAccount.accountId) definition definition')
    (hholding : HoldingWritten token (overlay state diff holdingAccount.accountId)
      (overlay state diff' holdingAccount.accountId) holding holding') :
    Dealt token state diff diff' (· = definitionAccount.accountId) := by
  have hentered := entered_holding howns hnamed
    (fun hnew => hplain (hresupplied.holdingPlain.mp hnew)) hholding
  obtain ⟨hnone, hnone'⟩ := hwritten.holdingIn hresupplied.definitionPlain (hnamed _)
  obtain ⟨hexchanged, hdefinitions⟩ := listed_rest hstep hpres
    (booked_nothing (hnone'.trans hnone.symm)) (.cons hentered .nil)
  have hfungible := hresupplied.fungible
  have hnonFungible := hresupplied.nonFungible
  rw [hid] at hfungible hnonFungible
  refine ⟨⟨_, _, deed_of_definition hexchanged hnamed rfl rfl hdefinitions (.inr hid)
    (hresupplied.holdingId.trans hid) ?_ ?_ (.inl (hresupplied.masters _))
    fun changed hchanged => ?_⟩, hdefinitions⟩
  all_goals rcases hwritten.definitionIn with ⟨hbefore, hafter⟩ | ⟨hbefore, hafter, rfl⟩
  · rw [hbefore, hafter]
    exact hfungible
  · rw [hbefore, hafter]
    omega
  · rw [hbefore, hafter]
    exact hnonFungible
  · rw [hbefore, hafter]
    omega
  · obtain rfl := some.inj (hafter.symm.trans hchanged)
    exact fun hconfusable => hnamed _ _ hbefore (hresupplied.definitionPlain.mp hconfusable)
  · rw [hafter] at hchanged
    cases hchanged

variable (hprogram : call.1.programId = token)

include hprogram

theorem transfer_deed {sender recipient : AccountWithMetadata}
    (hpres : output.preStates = [sender, recipient])
    (hplain : Plain [sender, recipient] (.transfer amount))
    (h : transfer sender recipient amount = some output.postStates) :
    Dealt token state diff diff' (fun _ => False) := by
  obtain ⟨old, other, new, other', senderData, recipientData, -, hread, hreads, hmoved, hdata,
    hdata', hposts⟩ := transfer_ok h
  have hsenderPlain : ¬old.Confusable := hplain.holdings sender (by simp) old hread
  have hrecipientPlain : ¬other.Confusable := by
    rcases hreads with ⟨-, rfl⟩ | ⟨-, hread'⟩
    · rwa [TokenHolding.confusable_zeroizedCloneFrom]
    · exact hplain.holdings recipient (by simp) other hread'
  have hsender : Entered token state diff diff' sender ([old], [new]) :=
    entered_holding howns hnamed (fun hnew => hsenderPlain (hmoved.senderPlain.mp hnew))
      (holdingWritten_new hstep hprogram (mem_zip_first hpres hposts) hread hdata)
  have hrecipient : Entered token state diff diff' recipient ([other], [other']) :=
    entered_holding howns hnamed (fun hnew => hrecipientPlain (hmoved.recipientPlain.mp hnew))
      (holdingWritten_newClaimedIfDefault hstep hprogram (mem_zip_second hpres hposts) hreads
        (TokenHolding.units_zeroizedCloneFrom old) hdata')
  obtain ⟨hexchanged, hdefinitions⟩ := listed_all hstep hpres hsender (.cons hrecipient .nil)
  refine ⟨⟨_, _, deed_of_moves hexchanged hnamed hdefinitions (fun id => ?_) (fun id => ?_)
    (fun id => ?_)⟩, fun id _ => hdefinitions id⟩
  · simpa using hmoved.balance id
  · have hprints := hmoved.prints id
    have hcopies := hmoved.copies id
    show printsOf id new + copiesOf id new + (printsOf id other' + copiesOf id other' + 0) =
      printsOf id old + copiesOf id old + (printsOf id other + copiesOf id other + 0)
    omega
  · simpa using (hmoved.masters id).le

theorem printNft_deed {master printed : AccountWithMetadata}
    (hpres : output.preStates = [master, printed])
    (h : printNft master printed = some output.postStates) :
    Dealt token state diff diff' (fun _ => False) := by
  obtain ⟨definitionId, prints, prints', masterData, printedData, -, hdefault, hread, hmore, hless,
    hdata, hdata', hposts⟩ := printNft_ok h
  have hmaster : Entered token state diff diff' master ([.nftMaster definitionId prints],
      [.nftMaster definitionId prints']) :=
    entered_holding howns hnamed not_false
      (holdingWritten_new hstep hprogram (mem_zip_first hpres hposts) hread hdata)
  have hprinted : Entered token state diff diff' printed ([.nftPrintedCopy definitionId false],
      [.nftPrintedCopy definitionId true]) :=
    entered_holding howns hnamed not_false
      (holdingWritten_newClaimed hstep hprogram (mem_zip_second hpres hposts) hdefault rfl hdata')
  obtain ⟨hexchanged, hdefinitions⟩ := listed_all hstep hpres hmaster (.cons hprinted .nil)
  have hprintable : prints ≠ 0 := by
    rintro rfl
    cases hmore
  refine ⟨⟨_, _, deed_of_moves hexchanged hnamed hdefinitions (fun id => rfl) (fun id => ?_)
    (fun id => ?_)⟩, fun id _ => hdefinitions id⟩
  · -- what the master can print less is the printed copy
    simp only [flatMap_cons, List.flatMap_nil, append_nil, List.cons_append,
      nil_append, map_cons, map_nil, sum_cons, sum_nil, printsOf, copiesOf,
      and_true, Bool.false_eq_true, and_false, if_false]
    split <;> omega
  · simp only [flatMap_cons, List.flatMap_nil, append_nil, List.cons_append,
      nil_append, map_cons, map_nil, sum_cons, sum_nil, mastersOf,
      hprintable, ne_eq, not_false_eq_true, and_true]
    by_cases hid : definitionId = id
    · rw [if_pos hid]
      split <;> omega
    · rw [if_neg hid, if_neg fun hboth => hid hboth.1]

theorem initializeAccount_deed (hpres : output.preStates = [definitionAccount, target])
    (hplain : Plain [definitionAccount, target] .initializeAccount)
    (h : initializeAccount definitionAccount target = some output.postStates) :
    Dealt token state diff diff' (fun _ => False) := by
  obtain ⟨holding, data, hdefault, hid, hempty, hdata, hposts⟩ := initializeAccount_ok h
  have hkept : overlay state diff' definitionAccount.accountId =
      overlay state diff definitionAccount.accountId :=
    (hstep.overlay_new (mem_zip_first hpres hposts)).trans
      (pre_eq_overlay hstep (mem_zip_first hpres hposts)).symm
  have hdefinition : Entered token state diff diff' definitionAccount ([], []) :=
    ⟨booked_nothing (by rw [hkept]), by rw [SameDefinition, hkept]⟩
  have hholdingPlain : ¬holding.Confusable := fun hconfusable =>
    hplain.ids definitionAccount (by simp) (hid ▸ TokenHolding.named_of_confusable hconfusable)
  have htarget : Entered token state diff diff' target ([holding], [holding]) :=
    entered_holding howns hnamed hholdingPlain
      (holdingWritten_newClaimed hstep hprogram (mem_zip_second hpres hposts) hdefault hempty hdata)
  obtain ⟨hexchanged, hdefinitions⟩ := listed_all hstep hpres hdefinition (.cons htarget .nil)
  exact ⟨⟨_, _, deed_of_moves hexchanged hnamed hdefinitions (fun _ => rfl) (fun _ => rfl)
    (fun _ => le_rfl)⟩, fun id _ => hdefinitions id⟩

theorem mint_deed (hpres : output.preStates = [definitionAccount, holdingAccount])
    (hplain : Plain [definitionAccount, holdingAccount] (.mint amount))
    (h : mint definitionAccount holdingAccount amount = some output.postStates) :
    definitionAccount.isAuthorized = true ∧
      Dealt token state diff diff' (· = definitionAccount.accountId) := by
  obtain ⟨definition, holding, definition', holding', definitionData, holdingData, hauthorized,
    hdefinition, hreads, hid, hresupplied, -, hdata, hdata', hposts⟩ := mint_ok h
  have hholdingPlain : ¬holding.Confusable := by
    rcases hreads with ⟨-, -⟩ | ⟨-, hread⟩
    · exact fun hconfusable => hplain.ids definitionAccount (by simp)
        (hid ▸ TokenHolding.named_of_confusable hconfusable)
    · exact hplain.holdings holdingAccount (by simp) holding hread
  refine ⟨hauthorized, resupply_deed hstep howns hnamed hpres hid hholdingPlain hresupplied ?_ ?_⟩
  · exact definitionWritten_new hstep hprogram (mem_zip_first hpres hposts) hdefinition hdata
  · exact holdingWritten_newClaimedIfDefault hstep hprogram (mem_zip_second hpres hposts) hreads
      (TokenHolding.units_zeroizedFromDefinition _ definition) hdata'

theorem burn_deed (hpres : output.preStates = [definitionAccount, holdingAccount])
    (hplain : Plain [definitionAccount, holdingAccount] (.burn amount))
    (h : burn definitionAccount holdingAccount amount = some output.postStates) :
    Dealt token state diff diff' (· = definitionAccount.accountId) := by
  obtain ⟨definition, holding, definition', holding', definitionData, holdingData, -, hdefinition,
    hread, hid, hresupplied, hdata, hdata', hposts⟩ := burn_ok h
  have hholdingPlain : ¬holding.Confusable :=
    hplain.holdings holdingAccount (by simp) holding hread
  refine resupply_deed hstep howns hnamed hpres hid hholdingPlain hresupplied ?_ ?_
  · exact definitionWritten_new hstep hprogram (mem_zip_first hpres hposts) hdefinition hdata
  · exact holdingWritten_new hstep hprogram (mem_zip_second hpres hposts) hread hdata'

omit hnamed in
/-- What is written into an account nobody has used. -/
theorem written_newClaimed {data : Data} {claim : Claim}
    (hmem : (pre, .newClaimed { pre.account with data } claim)
      ∈ output.preStates.zip output.postStates) (hdefault : pre.account = .default) :
    definitionIn token (overlay state diff pre.accountId) = none ∧
      holdingIn token (overlay state diff pre.accountId) = none ∧
      definitionIn token (overlay state diff' pre.accountId) = TokenDefinition.tryFrom data ∧
      holdingIn token (overlay state diff' pre.accountId) = TokenHolding.tryFrom data := by
  rw [hstep.overlay_newClaimed hmem, pre_eq_overlay hstep hmem, hprogram]
  have hforeign : pre.account.programOwner ≠ .ofProgramId token := by
    rw [hdefault]
    exact howns.symm
  exact ⟨definitionIn_foreign hforeign, holdingIn_foreign hforeign, definitionIn_owned rfl,
    holdingIn_owned rfl⟩

variable {holder : AccountWithMetadata}

/-- What the two ways to issue a token have in common: a new definition and its first holding are
written, and what else is listed stays. -/
theorem issue_deed {definitionData holdingData : Data}
    {others : List (List TokenHolding × List TokenHolding)} {claim claim' : Claim}
    {posts : List AccountPostState} (hpres : output.preStates = target :: holder :: rest)
    (hposts : output.postStates = .newClaimed { target.account with data := definitionData } claim
      :: .newClaimed { holder.account with data := holdingData } claim' :: posts)
    (hunnamed : ¬Named target.accountId) (htarget : target.account = .default)
    (hholder : holder.account = .default)
    (hdefinition : definitionData.bytes = definitionCodec.encode definition)
    (hholding : holdingData.bytes = holdingCodec.encode holding)
    (hid : holding.definitionId = target.accountId) (hempty : old.units = 0)
    (hunconfused : ¬definition.Confusable)
    (hfungible : balanceOf target.accountId holding = fungibleIssued (some definition))
    (hnonFungible : printsOf target.accountId holding + copiesOf target.accountId holding =
      nonFungibleIssued (some definition))
    (hrest : List.Forall₂ (Entered token state diff diff') rest others)
    (hothers : others.flatMap Prod.fst = [] ∧ others.flatMap Prod.snd = []) :
    Dealt token state diff diff' (· = target.accountId) := by
  have hread : TokenDefinition.tryFrom definitionData = some definition :=
    TokenDefinition.tryFrom_eq_some.mpr hdefinition
  obtain ⟨hnone, hnone', hsome, hsome'⟩ :=
    written_newClaimed hstep howns hprogram (mem_zip_first hpres hposts) htarget
  rw [hread] at hsome
  rw [TokenHolding.tryFrom_eq_none hread hunconfused] at hsome'
  have hholdingPlain : ¬holding.Confusable := fun hconfusable =>
    hunnamed (hid ▸ TokenHolding.named_of_confusable hconfusable)
  have hwritten : Entered token state diff diff' holder ([old], [holding]) :=
    entered_holding howns hnamed hholdingPlain
      (holdingWritten_newClaimed hstep hprogram (mem_zip_second hpres hposts) hholder hempty
        hholding)
  obtain ⟨hexchanged, hdefinitions⟩ := listed_rest hstep hpres
    (booked_nothing (hsome'.trans hnone'.symm)) (.cons hwritten hrest)
  simp only [flatMap_cons, hothers.1, hothers.2] at hexchanged
  refine ⟨⟨_, _, deed_of_definition hexchanged hnamed rfl rfl hdefinitions (.inl hempty) hid ?_ ?_
    (.inr ⟨hnone, ?_⟩) fun changed hchanged => ?_⟩, hdefinitions⟩
  · rw [hnone, hsome, vanishes_balanceOf _ old hempty, hfungible, Nat.zero_add]
    rfl
  · rw [hnone, hsome, vanishes_printsOf _ old hempty, vanishes_copiesOf _ old hempty,
      hnonFungible, Nat.zero_add]
    rfl
  · cases holding with
    | fungible id balance => exact Nat.zero_le _
    | nftMaster id printBalance =>
      simp only [mastersOf]
      split <;> omega
    | nftPrintedCopy id owned => exact Nat.zero_le _
  · obtain rfl := some.inj (hsome.symm.trans hchanged)
    exact hunconfused

theorem newFungibleDefinition_deed {name : Text} {totalSupply : U128}
    (hpres : output.preStates = [target, holder])
    (hplain : Plain [target, holder] (.newFungibleDefinition name totalSupply))
    (h : newFungibleDefinition target holder name totalSupply = some output.postStates) :
    Dealt token state diff diff' (· = target.accountId) := by
  obtain ⟨htarget, h⟩ := require_bind_eq_some.mp h
  obtain ⟨hholder, h⟩ := require_bind_eq_some.mp h
  obtain ⟨definitionData, hdefinition, h⟩ := bind_eq_some_iff.mp h
  obtain ⟨holdingData, hholding, h⟩ := bind_eq_some_iff.mp h
  have hissued : balanceOf target.accountId (.fungible target.accountId totalSupply) =
      fungibleIssued (some (.fungible name totalSupply none)) := if_pos rfl
  have hempty : (TokenHolding.fungible target.accountId 0).units = 0 := rfl
  exact issue_deed hstep howns hnamed hprogram hpres (some.inj h).symm
    (hplain.ids target (by simp)) htarget hholder (Data.tryFrom_eq_some.mp hdefinition)
    (Data.tryFrom_eq_some.mp hholding) rfl hempty hplain.legible hissued rfl .nil ⟨rfl, rfl⟩

theorem newDefinitionWithMetadata_deed {metadataTarget : AccountWithMetadata}
    {newDefinition : NewTokenDefinition} {metadata : NewTokenMetadata}
    (hpres : output.preStates = [target, holder, metadataTarget])
    (hplain : Plain [target, holder, metadataTarget]
      (.newDefinitionWithMetadata newDefinition metadata))
    (h : newDefinitionWithMetadata target holder metadataTarget newDefinition metadata =
      some output.postStates) :
    Dealt token state diff diff' (· = target.accountId) := by
  obtain ⟨htarget, h⟩ := require_bind_eq_some.mp h
  obtain ⟨hholder, h⟩ := require_bind_eq_some.mp h
  obtain ⟨hmetadataTarget, h⟩ := require_bind_eq_some.mp h
  obtain ⟨definitionData, hdefinition, h⟩ := bind_eq_some_iff.mp h
  obtain ⟨holdingData, hholding, h⟩ := bind_eq_some_iff.mp h
  obtain ⟨metadataData, hmetadata, h⟩ := bind_eq_some_iff.mp h
  have hposts := (some.inj h).symm
  -- metadata is neither
  obtain ⟨hunread, hunread'⟩ := hplain.legible
  rw [← Data.tryFrom_eq_some.mp hmetadata] at hunread hunread'
  obtain ⟨hlast, hlast', hend, hend'⟩ :=
    written_newClaimed hstep howns hprogram (mem_zip_third hpres hposts) hmetadataTarget
  rw [TokenDefinition.tryFrom, hunread] at hend
  rw [TokenHolding.tryFrom, hunread'] at hend'
  have hkept : Entered token state diff diff' metadataTarget ([], []) :=
    ⟨booked_nothing (hend'.trans hlast'.symm), hend.trans hlast.symm⟩
  have hempty := TokenHolding.units_zeroizedCloneFrom
    (newDefinition.toPair target.accountId metadataTarget.accountId).2
  refine issue_deed hstep howns hnamed hprogram hpres hposts (hplain.ids target (by simp)) htarget
    hholder (Data.tryFrom_eq_some.mp hdefinition) (Data.tryFrom_eq_some.mp hholding) ?_ hempty
    ?_ ?_ ?_ (.cons hkept .nil) ⟨rfl, rfl⟩
  · cases newDefinition <;> rfl
  · cases newDefinition <;> exact not_false
  · cases newDefinition with
    | fungible name totalSupply => exact if_pos rfl
    | nonFungible name printableSupply => rfl
  · cases newDefinition with
    | fungible name totalSupply => rfl
    | nonFungible name printableSupply => exact if_pos rfl

end

/-! ### One call -/

variable [Serde Instruction]

/-- A call of the program in which nothing can be taken for what it is not. -/
def PlainCall (token : ProgramId) (call : Call) : Prop :=
  call.1.programId = token → ∀ instruction ∈
    (fromWords call.1.instructionData : Option Instruction), Plain call.1.preStates instruction

instance instDecidablePlainCall (token : ProgramId) : DecidablePred (PlainCall token) := fun _ =>
  inferInstanceAs (Decidable (_ → _))

/-- A call of the program that may change the supply in a definition: the definition is its first
account, and if it mints, the definition is authorized. -/
def Issuing (token : ProgramId) (call : Call) (definitionId : AccountId) : Prop :=
  call.1.programId = token ∧ ∃ (instruction : Instruction) (definition : AccountWithMetadata)
      (rest : List AccountWithMetadata),
    fromWords call.1.instructionData = some instruction ∧
    call.1.preStates = definition :: rest ∧ definition.accountId = definitionId ∧
    instruction.Issues (isAuthorized call definitionId = true)

section

variable (hstep : Step exec state blockId timestamp diff call output diff')

include hstep

/-- A call of the program keeps the books in order, and changes the supply in a definition only by
minting it with its authority, by burning it, or by issuing it. -/
theorem token_step (hruns : Executes exec token main) (hprogram : call.1.programId = token)
    (howns : ofProgramId token ≠ defaultProgramOwner) (hplain : PlainCall token call)
    (hnamed : Unconfused token (overlay state diff)) :
    (∃ olds news, Deed token (overlay state diff) (overlay state diff') olds news) ∧
      ∀ id, definitionIn token (overlay state diff' id) ≠
        definitionIn token (overlay state diff id) → Issuing token call id := by
  obtain ⟨hpres, -, instruction, hinstruction, hrun⟩ :=
    main_ok (hruns.of_execute hprogram hstep.executed)
  have hplain := hplain hprogram instruction hinstruction
  rw [← hpres] at hplain
  -- no definition changes, or it is the first account of a call that may change it
  suffices hdealt : Dealt token state diff diff' (fun _ => False) ∨
      ∃ definition rest, output.preStates = definition :: rest ∧
        Dealt token state diff diff' (· = definition.accountId) ∧
        instruction.Issues (isAuthorized call definition.accountId = true) by
    rcases hdealt with ⟨hdeed, hkept⟩ | ⟨definition, rest, hlisted, ⟨hdeed, hkept⟩, hissues⟩
    · exact ⟨hdeed, fun id hchanged => absurd (hkept id not_false) hchanged⟩
    · refine ⟨hdeed, fun id hchanged => ?_⟩
      obtain rfl : id = definition.accountId := by
        by_contra hne
        exact hchanged (hkept id hne)
      exact ⟨hprogram, instruction, definition, rest, hinstruction, hpres.symm.trans hlisted, rfl,
        hissues⟩
  rw [← hpres] at hrun
  unfold run at hrun
  split at hrun
  · rename_i hlisted
    exact .inl (transfer_deed hstep howns hnamed hprogram hlisted (hlisted ▸ hplain) hrun)
  · rename_i hlisted
    exact .inr ⟨_, _, hlisted, newFungibleDefinition_deed hstep howns hnamed hprogram hlisted
      (hlisted ▸ hplain) hrun, trivial⟩
  · rename_i hlisted
    exact .inr ⟨_, _, hlisted, newDefinitionWithMetadata_deed hstep howns hnamed hprogram hlisted
      (hlisted ▸ hplain) hrun, trivial⟩
  · rename_i hlisted
    exact .inl (initializeAccount_deed hstep howns hnamed hprogram hlisted (hlisted ▸ hplain) hrun)
  · rename_i hlisted
    exact .inr ⟨_, _, hlisted,
      burn_deed hstep howns hnamed hprogram hlisted (hlisted ▸ hplain) hrun, trivial⟩
  · rename_i definitionAccount holdingAccount hlisted
    obtain ⟨hflag, hdealt⟩ :=
      mint_deed hstep howns hnamed hprogram hlisted (hlisted ▸ hplain) hrun
    have hauthorized : isAuthorized call definitionAccount.accountId = true :=
      (hstep.authorization definitionAccount (by rw [hlisted]; simp)).mp hflag
    exact .inr ⟨_, _, hlisted, hdealt, hauthorized⟩
  · rename_i hlisted
    exact .inl (printNft_deed hstep howns hnamed hprogram hlisted hrun)
  · cases hrun

omit [Serde Instruction] in
/-- A call of another program leaves what the accounts of the program read as. -/
theorem foreign_step (hprogram : call.1.programId ≠ token)
    (howns : ofProgramId token ≠ defaultProgramOwner) (id : AccountId) :
    definitionIn token (overlay state diff' id) = definitionIn token (overlay state diff id) ∧
      holdingIn token (overlay state diff' id) = holdingIn token (overlay state diff id) := by
  rcases hstep.foreign howns hprogram id with ⟨-, hkept⟩ | ⟨hbefore, hafter⟩
  · exact ⟨definitionIn_congr hkept.programOwner hkept.data,
      holdingIn_congr hkept.programOwner hkept.data⟩
  · rw [definitionIn_foreign hbefore, definitionIn_foreign hafter, holdingIn_foreign hbefore,
      holdingIn_foreign hafter]
    exact ⟨rfl, rfl⟩

end

omit [Sha256] [Serde Instruction] in
/-- Books depend on what the accounts read as. -/
theorem Sound.congr (h : Sound token view)
    (hdefinitions : ∀ id, definitionIn token (view' id) = definitionIn token (view id))
    (hholdings : ∀ id, holdingIn token (view' id) = holdingIn token (view id)) :
    Sound token view' := by
  have hmeasure : ∀ m id, measureIn token m (view' id) = measureIn token m (view id) := by
    intro m id
    rw [measureIn, measureIn, hholdings]
  refine ⟨fun m => ?_, fun id => ?_, fun id => ?_, fun id => ?_, fun id definition hsome => ?_⟩
  · simpa only [hmeasure] using h.finite m
  · simpa only [hmeasure, hdefinitions] using h.fungible id
  · simpa only [hmeasure, hdefinitions] using h.nonFungible id
  · simpa only [hmeasure] using h.masters id
  · rw [hdefinitions] at hsome
    exact h.named id definition hsome

/-- **One call.**  Any call keeps the books in order, and a supply changes only in a call of the
program that issues. -/
theorem sound_step (hstep : Step exec state blockId timestamp diff call output diff')
    (hruns : Executes exec token main)
    (howns : ofProgramId token ≠ defaultProgramOwner) (hplain : PlainCall token call)
    (h : Sound token (overlay state diff)) :
    Sound token (overlay state diff') ∧
      ∀ id, definitionIn token (overlay state diff' id) ≠
        definitionIn token (overlay state diff id) → Issuing token call id := by
  by_cases hprogram : call.1.programId = token
  · obtain ⟨⟨olds, news, hdeed⟩, hissuing⟩ :=
      token_step hstep hruns hprogram howns hplain h.named
    exact ⟨h.deed hdeed fun m => finite_support_measure token m state diff', hissuing⟩
  · refine ⟨h.congr (fun id => (foreign_step hstep hprogram howns id).1)
      (fun id => (foreign_step hstep hprogram howns id).2), fun id hchanged => ?_⟩
    exact absurd (foreign_step hstep hprogram howns id).1 hchanged

end

/-! ### Runs of transactions -/

section

variable [Sha256] [Schnorr]

/-- The state machine accepts a public transaction, in some block, and the calls that it serves are
of a kind. -/
def Accepts (exec : Executor) (kind : Call → Prop) (tx : PublicTransaction)
    (state state' : V03State) : Prop :=
  ∃ blockId timestamp,
    transitionFromPublicTransaction exec state tx blockId timestamp = .ok state' ∧
      ∀ v ∈ callTree exec tx state blockId timestamp, kind v.call

/-- The books of a state are in order. -/
abbrev InOrder (token : ProgramId) (state : V03State) : Prop := Sound token state.getAccountById

variable {exec : Executor} {state state' : V03State} {token : ProgramId} {tx : PublicTransaction}

omit [Sha256] [Schnorr] in
theorem circulating_eq_finsum (m : TokenHolding → ℕ) :
    circulating token m state = ∑ᶠ id, measureIn token m (state.getAccountById id) :=
  Ledger.total_eq_finsum (measureIn_of_none (holdingIn_default token)) state.publicState

omit [Sha256] [Schnorr] in
/-- A program without accounts has its books in order. -/
theorem inOrder_of_none
    (h : ∀ id, (state.getAccountById id).programOwner ≠ .ofProgramId token) :
    InOrder token state := by
  have hmeasure : ∀ m id, measureIn token m (state.getAccountById id) = 0 := fun m id =>
    measureIn_of_none (holdingIn_foreign (h id))
  have hnone : ∀ id, definitionIn token (state.getAccountById id) = none := fun id =>
    definitionIn_foreign (h id)
  refine ⟨fun m => ?_, fun id => ?_, fun id => ?_, fun id => ?_, fun id definition hsome => ?_⟩
  · simp only [hmeasure, Function.support_fun_zero, Set.finite_empty]
  · simp only [hmeasure, finsum_zero, hnone, fungibleIssued]
  · simp only [hmeasure, finsum_zero, hnone, nonFungibleIssued]
  · simp only [hmeasure, finsum_zero, Nat.zero_le]
  · rw [hnone] at hsome
    cases hsome

omit [Sha256] [Schnorr] in
/-- Definitions of books in order count what is held. -/
theorem InOrder.conserved (h : InOrder token state) : Conserved token state where
  fungible definitionId name totalSupply metadataId hdefinition := by
    have hfungible := h.fungible definitionId
    rw [hdefinition] at hfungible
    rw [circulating_eq_finsum, hfungible]
    rfl
  nonFungible definitionId name printableSupply metadataId hdefinition := by
    have hnonFungible := h.nonFungible definitionId
    rw [hdefinition] at hnonFungible
    refine ⟨?_, fun first second prints prints' hfirst hsecond hprints hprints' => ?_⟩
    · rw [circulating_eq_finsum, circulating_eq_finsum,
        ← finsum_add_distrib (h.finite _) (h.finite _)]
      refine Eq.trans (finsum_congr fun id => ?_) hnonFungible
      unfold measureIn
      cases holdingIn token (state.getAccountById id) <;> rfl
    · -- two of them would count twice
      by_contra hne
      have hsum := Ledger.add_le_finsum (h.finite (mastersOf definitionId)) hne
      have hone := h.masters definitionId
      rw [measureIn_of_some hfirst, measureIn_of_some hsecond, mastersOf, mastersOf,
        if_pos ⟨rfl, hprints⟩, if_pos ⟨rfl, hprints'⟩] at hsum
      omega

variable [Serde Instruction] {blockId : BlockId} {timestamp : Timestamp} {diff : StateDiff}

section

variable (hruns : Executes exec token main) (howns : ofProgramId token ≠ defaultProgramOwner)

include hruns howns

/-- The books are in order before and after every call of an accepted transaction. -/
theorem sound_of_accepted (h : Accepted exec tx state blockId timestamp diff)
    (hplain : ∀ v ∈ callTree exec tx state blockId timestamp, PlainCall token v.call)
    (horder : InOrder token state) :
    (∀ v ∈ callTree exec tx state blockId timestamp, Sound token (overlay state v.before)) ∧
      Sound token (overlay state diff.publicDiff) := by
  have hstart : Sound token (overlay state ∅) := by
    have hempty : overlay state ∅ = state.getAccountById := funext (overlay_empty state)
    rw [hempty]
    exact horder
  have hkeeps : ∀ v ∈ callTree exec tx state blockId timestamp,
      Sound token (overlay state v.before) → Sound token (overlay state v.after) :=
    fun v hv hbefore =>
      (sound_step (callTree_step hv) hruns howns (hplain v hv) hbefore).1
  exact ⟨h.threads.before (P := fun d => Sound token (overlay state d)) hkeeps hstart,
    h.threads.invariant (P := fun d => Sound token (overlay state d)) hkeeps hstart⟩

/-- A transaction keeps the books in order. -/
theorem inOrder_of_accepts (h : Accepts exec (PlainCall token) tx state state')
    (horder : InOrder token state) :
    InOrder token state' := by
  obtain ⟨blockId, timestamp, htx, hplain⟩ := h
  obtain ⟨diff, haccepted, happly⟩ := transitionFromPublicTransaction_ok htx
  have hafter := (sound_of_accepted hruns howns haccepted hplain horder).2
  have hfunds := haccepted.funds happly
  exact hafter.congr (fun id => definitionIn_congr (hfunds id).programOwner (hfunds id).data)
    (fun id => holdingIn_congr (hfunds id).programOwner (hfunds id).data)

end

/-- **Supply is conserved.**  From a state without accounts of the token program, run any public
transactions, of this program and any others, in which no account is taken for what it is not.
Then every definition of the program counts exactly what the holdings of its token hold, and in
the next such transaction no call changes the supply in a definition but a call of the program
that mints it with its authority, burns it or issues it. -/
theorem supply_conserved (hruns : Executes exec token main)
    (howns : ofProgramId token ≠ defaultProgramOwner)
    (hnone : ∀ id, (state.getAccountById id).programOwner ≠ ofProgramId token)
    {txs : List PublicTransaction}
    (hrun : Run (Accepts exec (PlainCall token)) state txs state') :
    Conserved token state' ∧
      ∀ tx blockId timestamp diff,
        fromPublicTransaction exec tx state' blockId timestamp = .ok diff →
        (∀ v ∈ callTree exec tx state' blockId timestamp, PlainCall token v.call) →
        ∀ v ∈ callTree exec tx state' blockId timestamp, ∀ definitionId,
          supplyIn token (overlay state' v.after definitionId) ≠
              supplyIn token (overlay state' v.before definitionId) →
            Issuing token v.call definitionId := by
  have horder : InOrder token state' :=
    hrun.invariant (P := InOrder token)
      (fun _ _ _ _ hstep hbefore => inOrder_of_accepts hruns howns hstep hbefore)
      (inOrder_of_none hnone)
  refine ⟨horder.conserved, fun tx blockId timestamp diff htx hplain v hv definitionId hne => ?_⟩
  have hbefore :=
    (sound_of_accepted hruns howns (fromPublicTransaction_ok htx) hplain horder).1 v hv
  refine (sound_step (callTree_step hv) hruns howns (hplain v hv) hbefore).2 definitionId ?_
  intro hsame
  exact hne (by rw [supplyIn, supplyIn, hsame])

end

/-- The state after a public transaction, if its calls are of a kind. -/
def next [Sha256] [Schnorr] (exec : Executor) (kind : Call → Prop) [DecidablePred kind]
    (state : V03State) (tx : PublicTransaction) : Option V03State :=
  if ∀ v ∈ callTree exec tx state 1 0, kind v.call
  then (transitionFromPublicTransaction exec state tx 1 0).toOption else none

theorem accepts_of_next [Sha256] [Schnorr] {exec : Executor} {kind : Call → Prop}
    [DecidablePred kind] (tx : PublicTransaction) (state state' : V03State)
    (h : next exec kind state tx = some state') : Accepts exec kind tx state state' := by
  unfold next at h
  split at h
  · rename_i hkind
    exact ⟨1, 0, Outcome.toOption_eq_some.mp h, hkind⟩
  · cases h

/-! Two tokens of 1000 that `alice` defines and `bob` holds.  The name of the first has 27 bytes,
so `alice` can pay from the definition as if it were a holding; the second is paid with as it
should be.  All digests are SHA-256's. -/

namespace Coins

def token : ProgramId := .ofWord 2

/-- The BIP-340 key of the secret 7. -/
def carolKey : PublicKey :=
  ⟨ofHex 0x5cbdf0646e5db4eaa398f365f2ea7a0e3d419b7e0330e39ce92bddedcac4f9bc⟩

def carol : AccountId :=
  ⟨ofHex 0x534bd8946ef33dddfe551e705442626bd151290cae2ed4e76c90e79ed2b4f4a9⟩

def storage : Text := ⟨"Certificate of Storage 2026", by decide +kernel⟩

theorem gold_length_lt : "Gold".utf8ByteSize < 2 ^ 32 := by decide +kernel

def gold : Text := ⟨"Gold", gold_length_lt⟩

def createStorage : PublicTransaction.Message :=
  ⟨token, [alice, bob], [⟨0⟩, ⟨0⟩],
    [1, 27, 1953654083, 1667851881, 543519841, 1394632303, 1634889588, 840983911, 3551792,
      1000, 0, 0, 0]⟩

def createStorageHash : Bytes 32 :=
  ofHex 0x0454d4c04d22096b7f6b56187f568143b16c3fec407f36fbc8f61c3dea1b675d

/-- The definition pays 1. -/
def take : PublicTransaction.Message :=
  ⟨token, [alice, carol], [⟨1⟩, ⟨0⟩], [0, 1, 0, 0, 0]⟩

def takeHash : Bytes 32 :=
  ofHex 0x2588b15e2d956aae2611e1923fa4eaf84364a936fdf7e66a26b8f7ad430be29a

def createGold : PublicTransaction.Message :=
  ⟨token, [alice, bob], [⟨0⟩, ⟨0⟩], [1, 4, 1684827975, 1000, 0, 0, 0]⟩

def createGoldHash : Bytes 32 :=
  ofHex 0x0421459c994feee8491a195cc8de5f1bfc3feddfd18d16ad4dc244f7c028b7f7

/-- `bob` pays 300. -/
def pay : PublicTransaction.Message :=
  ⟨token, [bob, carol], [⟨1⟩, ⟨0⟩], [0, 300, 0, 0, 0]⟩

def payHash : Bytes 32 :=
  ofHex 0xc2f7fbfcba4ca4f9618aeaa043e9a9bc0cf8b37f1a09ea7d73d37c3c82e8ec3c

/-- Who signs what. -/
def signatures : List (PublicKey × Bytes 32 × Signature) :=
  [ (key, createStorageHash, .ofHex
      0x5faba3cdaa78fedf0a40dd991ea38ab7299ae70c385e3ce87dc39ba0983cdca4
      0x55550514b32e1a0638645cc4ced146faeb51474945ec5b461f57aa6efc8a71af),
    (bobKey, createStorageHash, .ofHex
      0x2e8d8c40359c7b41d8675c82e5afa33d83d50e4d8ea14d880ee73a732cc63b93
      0x1de032b986da9f96ed74309a211ca468285f0db2675419adf37f9842fa220b00),
    (key, takeHash, .ofHex
      0xa5d98e54958083a31698169171d107b66d0847bdcf04d06b2180fa56994e1b0b
      0xc065953da74d9f3c976819c776cc4f0de370a4acc3918d3f519d5a94dfe26663),
    (carolKey, takeHash, .ofHex
      0x5a00d9be08c73bd56dcb844700218a8291f0320ffb7d5c4d40719d0c70e6f3d4
      0x639507899b9cac49ee2b8ec82d8aa984669cabf736f296ef8c183223a325b1da),
    (key, createGoldHash, .ofHex
      0x57ca6f9b646991013a8607d62b7d464c5266fc3d0c150cabe73cede7f9ba59cf
      0xeb2655702e9c41c55344928bee6da4da232f1507da47eb5aac90da6779e2c90a),
    (bobKey, createGoldHash, .ofHex
      0xa2b59c56645adb05a9b5e563262652b013188407439adc09921d961571c84f82
      0x2a5abca3b43281d5aeee74b4ecbffff5bfd73f7758842060071c533e947b679e),
    (bobKey, payHash, .ofHex
      0xa93adf8eeaccc029f0b3328854fd7749d9827b3d5d7fdda84976e10d7c204f0f
      0x6206b1d7037a5a7f4595e2eb732e04b6e6cafa71d67d6ccfc98f2dbc07a5466d),
    (carolKey, payHash, .ofHex
      0xccb4d21e812b185f78d72cafb9b82e8d54e1faa6c9f35dccb36ab05662fb422b
      0xe51d30e650516f5c3e78a25ed6699011c96096a34c6a6cadc358b06c92c6606b) ]

/-- A message with the signatures over its hash. -/
def signed (message : PublicTransaction.Message) (hash : Bytes 32) : PublicTransaction :=
  ⟨message, ⟨(signatures.filter fun entry => entry.2.1 = hash).map fun entry =>
    (entry.2.2, entry.1)⟩⟩

scoped instance sha : Sha256 := .ofTable
  [ (publicAccountBytes key, alice.value), (publicAccountBytes bobKey, bob.value),
    (publicAccountBytes carolKey, carol.value), (createStorage.hashBytes, createStorageHash),
    (take.hashBytes, takeHash), (createGold.hashBytes, createGoldHash),
    (pay.hashBytes, payHash) ]

scoped instance schnorr : Schnorr := .ofTable signatures

scoped instance serde : Serde Instruction := .ofTable
  [ (.newFungibleDefinition storage 1000, createStorage.instructionData),
    (.transfer 1, take.instructionData),
    (.newFungibleDefinition gold 1000, createGold.instructionData),
    (.transfer 300, pay.instructionData) ]

def state : V03State := .ofAccounts [deployedAt token]

def exec : Executor := .ofGuests fun _ => main

theorem unowned : ∀ id, (state.getAccountById id).programOwner ≠ .ofProgramId token :=
  V03State.forall_ofAccounts (P := fun account => account.programOwner ≠ .ofProgramId token)
    (by decide +kernel) (by decide +kernel)

/-- What the states reached read as: the definition of `alice`, and what is held of its token. -/
def books (state : V03State) : Option TokenDefinition × ℕ :=
  (definitionIn token (state.getAccountById alice), circulating token (balanceOf alice) state)

theorem books_storage :
    ([signed createStorage createStorageHash, signed take takeHash].foldlM
      (next exec fun _ => True) state).map books =
        some (some (.fungible storage 744 none), 1000) := by
  decide +kernel

theorem books_gold :
    ([signed createGold createGoldHash, signed pay payHash].foldlM
      (next exec (PlainCall token)) state).map books =
        some (some (.fungible gold 1000 none), 1000) := by
  decide +kernel

end Coins

open Coins in
/-- **A definition that pays.**  `alice` issues 1000 of a token with a name of 27 bytes to `bob`,
and transfers 1 from the definition.  The definition then counts 744, and `bob` holds 1000. -/
theorem supply_not_conserved : ∃ state' : V03State,
    Executes Coins.exec Coins.token main ∧
    ofProgramId Coins.token ≠ defaultProgramOwner ∧
    (∀ id, (Coins.state.getAccountById id).programOwner ≠ ofProgramId Coins.token) ∧
    Run (Accepts Coins.exec fun _ => True) Coins.state
      [signed createStorage createStorageHash, signed take takeHash] state' ∧
    definitionIn Coins.token (state'.getAccountById alice) = some (.fungible storage 744 none) ∧
    circulating Coins.token (balanceOf alice) state' = 1000 ∧
    ¬Conserved Coins.token state' := by
  obtain ⟨state', hafter, hbooks⟩ := map_eq_some_iff.mp books_storage
  obtain ⟨hdefinition, hheld⟩ := Prod.mk.inj hbooks
  refine ⟨state', executes_ofGuests rfl, by decide +kernel, unowned,
    Run.of_foldlM accepts_of_next hafter, hdefinition, hheld, fun hconserved => ?_⟩
  have hcount := hconserved.fungible _ _ _ _ hdefinition
  rw [hheld] at hcount
  exact absurd hcount (by decide)

open Coins in
/-- The same with a name of four bytes: `bob` pays 300 of 1000, and the definition counts what is
held. -/
theorem gold_conserved : ∃ state' : V03State,
    Run (Accepts Coins.exec (PlainCall Coins.token)) Coins.state
      [signed createGold createGoldHash, signed pay payHash] state' ∧
    definitionIn Coins.token (state'.getAccountById alice) =
      some (.fungible gold 1000 none) ∧ Conserved Coins.token state' := by
  obtain ⟨state', hafter, hbooks⟩ := map_eq_some_iff.mp books_gold
  have hrun : Run (Accepts Coins.exec (PlainCall Coins.token)) Coins.state
      [signed createGold createGoldHash, signed pay payHash] state' :=
    Run.of_foldlM accepts_of_next hafter
  refine ⟨state', hrun, (Prod.mk.inj hbooks).1, ?_⟩
  exact (supply_conserved (executes_ofGuests rfl) (by decide +kernel) unowned hrun).1

end Token

end Lssa
