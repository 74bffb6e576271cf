/-
The owner of an associated token account and who can spend from it.

A holding is spent by the token program, which asks for the authority of the holding.  For an
associated token account that comes from its program: when the owner transfers or burns, and when
anyone has the account created.  To create it the program passes the authority to the program that
owns the definition, also when the account is there: the one it looks at is that of the program
which the instruction names.  The token program is told to initialize an account and leaves this one
alone (`creating_is_harmless`).  Another program could spend it (`ata_drained_by_create`), but then
there is nothing to spend: as long as nothing is taken for what it is not, the definitions of tokens
that are held are the token program's (`Reached.owned`).

* `unitsOf` — what a holding holds of a token;
* `spared_of_run` — a call of the token program lowers only what it is authorized for;
* `Reached` — the states that histories of all kinds of transactions lead to;
* **`ata_consent`** — who consents when an associated token account holds less.
-/
import Lssa.History
import Lssa.Programs.AssociatedTokenAccount
import Lssa.Token.Supply

open DepthFirst Runs

namespace Lssa

open Sample (alice key)

open PublicExecution

namespace Token

/-! ### What a call of the token program lowers -/

/-- What a holding holds of a token. -/
def unitsOf (definitionId : AccountId) (holding : TokenHolding) : ℕ :=
  if holding.definitionId = definitionId then holding.units else 0

theorem vanishes_unitsOf (definitionId : AccountId) : Vanishes (unitsOf definitionId) := by
  intro holding hunits
  rw [unitsOf, hunits, ite_self]

/-- What an account of the token program holds of a token. -/
abbrev held (token : ProgramId) (definitionId : AccountId) (account : Account) : ℕ :=
  measureIn token (unitsOf definitionId) account

section

variable {token : ProgramId} {definitionId : AccountId} {before after : Account}

theorem HoldingWritten.held_le {old new : TokenHolding}
    (h : HoldingWritten token before after old new) (hid : new.definitionId = old.definitionId)
    (hunits : old.units ≤ new.units) :
    held token definitionId before ≤ held token definitionId after := by
  have hmeasure := h.measure (vanishes_unitsOf definitionId)
  have hmono : unitsOf definitionId old ≤ unitsOf definitionId new := by
    unfold unitsOf
    rw [hid]
    split
    · exact hunits
    · exact le_rfl
  show measureIn token (unitsOf definitionId) before ≤ measureIn token (unitsOf definitionId) after
  omega

/-- What reads as a definition holds nothing, of a token whose id does not read as a name. -/
theorem Written.held_eq_zero {old new : TokenDefinition}
    (h : Written definitionCodec token before after old new) (hname : ¬Named definitionId) :
    held token definitionId before = 0 := by
  cases h with
  | foreign hbefore hafter hsame => exact measureIn_of_none (holdingIn_foreign hbefore)
  | own hbefore hold hafter hnew =>
    cases hholding : Token.holdingIn token before with
    | none => exact measureIn_of_none hholding
    | some holding =>
      refine (measureIn_of_some hholding).trans (if_neg ?_)
      rintro rfl
      rw [holdingIn_owned hbefore, TokenHolding.tryFrom_eq_some] at hholding
      rw [Borsh.Codec.fromSlice_eq_some] at hold
      have hconfusable := (confusable_of_encode_eq (hold.symm.trans hholding)).2
      exact hname (TokenHolding.named_of_confusable hconfusable)

end

section

variable [Sha256] {exec : Executor} {state : V03State} {blockId : BlockId} {timestamp : Timestamp}
  {diff diff' : Diff} {call : Call} {output : ProgramOutput} {token : ProgramId}
  {definitionId : AccountId}

/-- The account holds no less after the call. -/
def Spared (token : ProgramId) (definitionId : AccountId) (state : V03State) (diff diff' : Diff)
    (pre : AccountWithMetadata) : Prop :=
  held token definitionId (overlay state diff pre.accountId) ≤
    held token definitionId (overlay state diff' pre.accountId)

section

variable (hstep : Step exec state blockId timestamp diff call output diff')

include hstep

/-- **What a call of the token program lowers.**  An account that holds less of a token after it
was authorized, and the call did not initialize an account. -/
theorem spared_of_run (hprogram : call.1.programId = token) (hname : ¬Named definitionId)
    {instruction : Instruction} (hrun : run instruction output.preStates = some output.postStates)
    {pre : AccountWithMetadata} (hpre : pre ∈ output.preStates) :
    (instruction ≠ .initializeAccount ∧ pre.isAuthorized = true) ∨
      Spared token definitionId state diff diff' pre := by
  have hfresh : pre.account = .default → Spared token definitionId state diff diff' pre :=
    fun hdefault => by
      rw [Spared, ← hstep.consistent pre hpre, hdefault, held,
        measureIn_of_none (holdingIn_default token)]
      exact Nat.zero_le _
  unfold run at hrun
  split at hrun
  · -- a transfer takes from the sender
    rename_i hlisted
    obtain ⟨old, other, new, other', senderData, recipientData, hflag, hread, hreads, hmoved,
      hdata, hdata', hposts⟩ := transfer_ok hrun
    rw [hlisted] at hpre
    rcases mem_pair.mp hpre with rfl | rfl
    · exact .inl ⟨by simp, hflag⟩
    · have hwritten := holdingWritten_newClaimedIfDefault hstep hprogram
        (mem_zip_second hlisted hposts) hreads (TokenHolding.units_zeroizedCloneFrom old) hdata'
      exact .inr (hwritten.held_le hmoved.recipientId hmoved.units.2)
  · rename_i hlisted
    obtain ⟨htarget, hrun⟩ := require_bind_eq_some.mp hrun
    obtain ⟨hholder, -⟩ := require_bind_eq_some.mp hrun
    rw [hlisted] at hpre
    rcases mem_pair.mp hpre with rfl | rfl
    · exact .inr (hfresh htarget)
    · exact .inr (hfresh hholder)
  · rename_i hlisted
    obtain ⟨htarget, hrun⟩ := require_bind_eq_some.mp hrun
    obtain ⟨hholder, hrun⟩ := require_bind_eq_some.mp hrun
    obtain ⟨hmetadata, -⟩ := require_bind_eq_some.mp hrun
    rw [hlisted] at hpre
    rcases mem_cons.mp hpre with rfl | hpre
    · exact .inr (hfresh htarget)
    · rcases mem_pair.mp hpre with rfl | rfl
      · exact .inr (hfresh hholder)
      · exact .inr (hfresh hmetadata)
  · rename_i hlisted
    obtain ⟨holding, data, hdefault, hid, hempty, hdata, hposts⟩ := initializeAccount_ok hrun
    rw [hlisted] at hpre
    rcases mem_pair.mp hpre with rfl | rfl
    · right
      rw [Spared, hstep.overlay_new (mem_zip_first hlisted hposts),
        pre_eq_overlay hstep (mem_zip_first hlisted hposts)]
    · exact .inr (hfresh hdefault)
  · -- a burn takes from the holding, and from the definition only if that is no holding
    rename_i hlisted
    obtain ⟨definition, holding, definition', holding', definitionData, holdingData, hflag,
      hdefinition, hread, hid, hresupplied, hdata, hdata', hposts⟩ := burn_ok hrun
    rw [hlisted] at hpre
    rcases mem_pair.mp hpre with rfl | rfl
    · have hwritten :=
        definitionWritten_new hstep hprogram (mem_zip_first hlisted hposts) hdefinition hdata
      right
      rw [Spared, hwritten.held_eq_zero hname]
      exact Nat.zero_le _
    · exact .inl ⟨by simp, hflag⟩
  · rename_i hlisted
    obtain ⟨definition, holding, definition', holding', definitionData, holdingData, hflag,
      hdefinition, hreads, hid, hresupplied, hunits, hdata, hdata', hposts⟩ := mint_ok hrun
    rw [hlisted] at hpre
    rcases mem_pair.mp hpre with rfl | rfl
    · exact .inl ⟨by simp, hflag⟩
    · have hwritten := holdingWritten_newClaimedIfDefault hstep hprogram
        (mem_zip_second hlisted hposts) hreads
        (TokenHolding.units_zeroizedFromDefinition _ definition) hdata'
      exact .inr (hwritten.held_le hresupplied.holdingId hunits)
  · rename_i hlisted
    obtain ⟨_, _, _, _, _, hflag, hdefault, -⟩ := printNft_ok hrun
    rw [hlisted] at hpre
    rcases mem_pair.mp hpre with rfl | rfl
    · exact .inl ⟨by simp, hflag⟩
    · exact .inr (hfresh hdefault)
  · cases hrun

end

end

/-! ### Histories -/

theorem unitsOf_eq (definitionId : AccountId) (holding : TokenHolding) :
    unitsOf definitionId holding = balanceOf definitionId holding
      + (printsOf definitionId holding + copiesOf definitionId holding) := by
  rcases holding with ⟨id, balance⟩ | ⟨id, printBalance⟩ | ⟨id, owned⟩
  · rfl
  · exact (Nat.zero_add _).symm
  · cases owned <;> simp [unitsOf, TokenHolding.units, TokenHolding.definitionId, balanceOf,
      printsOf, copiesOf]

/-- With books in order, nothing is held of a token that the program has no definition of. -/
theorem Sound.held_eq_zero {token : ProgramId} {view : AccountId → Account}
    (h : Sound token view) {definitionId : AccountId}
    (hnone : definitionIn token (view definitionId) = none) (accountId : AccountId) :
    held token definitionId (view accountId) = 0 := by
  cases hholding : holdingIn token (view accountId) with
  | none => exact measureIn_of_none hholding
  | some holding =>
    have hfungible :=
      single_le_finsum accountId (h.finite (balanceOf definitionId)) fun _ => Nat.zero_le _
    have hnonFungible := single_le_finsum accountId
      (h.finite fun h => printsOf definitionId h + copiesOf definitionId h) fun _ => Nat.zero_le _
    rw [h.fungible, hnone, measureIn_of_some hholding] at hfungible
    rw [h.nonFungible, hnone, measureIn_of_some hholding] at hnonFungible
    rw [held, measureIn_of_some hholding, unitsOf_eq]
    exact Nat.le_zero.mp (Nat.add_le_add hfungible hnonFungible)

section

variable [Sha256] [Schnorr] [Builtins] [Receipts] [ImageId] [Serde Instruction]

/-- The transaction is accepted and nothing is taken for what it is not: the calls of a public
transaction are plain, and a transaction of another kind leaves the accounts of the token program
alone and makes none. -/
inductive Plainly (exec : Executor) (token : ProgramId) :
    LeeTransaction → V03State → V03State → Prop
  | publicly {tx : PublicTransaction} {state state' : V03State}
      (accepted : Accepts exec (PlainCall token) tx state state') :
      Plainly exec token (.publicTx tx) state state'
  | beside {tx : LeeTransaction} {state state' : V03State}
      (accepted : tx.Transition exec state state')
      (apart : ∀ id, SameFunds (state'.getAccountById id) (state.getAccountById id) ∨
        (state.getAccountById id).programOwner ≠ ofProgramId token ∧
          (state'.getAccountById id).programOwner ≠ ofProgramId token) :
      Plainly exec token tx state state'

/-- A state that is reached from one in which the token program owns nothing. -/
def Reached (exec : Executor) (token : ProgramId) (state : V03State) : Prop :=
  ∃ genesis txs, (∀ id, (genesis.getAccountById id).programOwner ≠ ofProgramId token) ∧
    Run (Plainly exec token) genesis txs state

variable {exec : Executor} {token : ProgramId} (hruns : Executes exec token main)
  (howns : ofProgramId token ≠ defaultProgramOwner)

include hruns howns

theorem Plainly.inOrder {tx : LeeTransaction} {state state' : V03State}
    (h : Plainly exec token tx state state') (horder : InOrder token state) :
    InOrder token state' := by
  cases h with
  | publicly accepted => exact inOrder_of_accepts hruns howns accepted horder
  | beside _ apart =>
    refine horder.congr (fun id => ?_) (fun id => ?_)
    · rcases apart id with hsame | ⟨hbefore, hafter⟩
      · exact definitionIn_congr hsame.programOwner hsame.data
      · rw [definitionIn_foreign hbefore, definitionIn_foreign hafter]
    · rcases apart id with hsame | ⟨hbefore, hafter⟩
      · exact holdingIn_congr hsame.programOwner hsame.data
      · rw [holdingIn_foreign hbefore, holdingIn_foreign hafter]

/-- **What is held was issued by the token program**: it owns the definition. -/
theorem Reached.owned {state : V03State} (h : Reached exec token state)
    {definitionId accountId : AccountId}
    (hheld : held token definitionId (state.getAccountById accountId) ≠ 0) :
    (state.getAccountById definitionId).programOwner = ofProgramId token := by
  obtain ⟨genesis, txs, hnone, hrun⟩ := h
  have horder : InOrder token state := hrun.invariant (P := InOrder token)
    (fun _ _ _ _ hstep hbefore => hstep.inOrder hruns howns hbefore) (inOrder_of_none hnone)
  by_contra hforeign
  exact hheld (horder.held_eq_zero (definitionIn_foreign hforeign) accountId)

end

end Token

namespace AssociatedTokenAccount

open Token (held)

/-! ### Who has the authority of an associated token account -/

section

variable [Sha256] [Serde Token.Instruction] [Serde Instruction] {exec : Executor}
  {tx : PublicTransaction} {state state' : V03State} {blockId : BlockId} {timestamp : Timestamp}
  {token ata : ProgramId} {owner definitionId : AccountId}

/-- The account of an owner for a token. -/
def ataId (ata : ProgramId) (owner definitionId : AccountId) : AccountId :=
  getAssociatedTokenAccountId ata (computeAtaSeed owner definitionId)

/-- The programs in question run as written, an instruction to initialize an account is read as
one, and ids and seeds are not ambiguous. -/
structure Setting (exec : Executor) (token ata : ProgramId) (owner definitionId : AccountId) :
    Prop where
  tokens : Executes exec token Token.main
  atas : Executes exec ata main
  ownsAccounts : ofProgramId token ≠ defaultProgramOwner
  initializes : fromWords (toWords Token.Instruction.initializeAccount) =
    some Token.Instruction.initializeAccount
  unambiguousId : Sha256.Unambiguous (ataId ata owner definitionId).value
  unambiguousSeed : Sha256.Unambiguous (computeAtaSeed owner definitionId).value

/-- The owner consents, or the call initializes an account. -/
def Harmless (token : ProgramId) (consent : Prop) (call : ChainedCall) : Prop :=
  consent ∨ (call.programId = token ∧
    call.instructionData = toWords Token.Instruction.initializeAccount)

/-- What a call does to the account: it holds less only with the consent of its owner. -/
theorem ata_step (hset : Setting exec token ata owner definitionId)
    (hname : ¬Token.Named definitionId) {consent : Prop} {diff diff' : Diff} {call : Call}
    {output : ProgramOutput} (hstep : Step exec state blockId timestamp diff call output diff')
    (hharmless : isAuthorized call (ataId ata owner definitionId) = true →
      Harmless token consent call.1) :
    consent ∨ held token definitionId (overlay state diff (ataId ata owner definitionId)) ≤
      held token definitionId (overlay state diff' (ataId ata owner definitionId)) := by
  by_cases hprogram : call.1.programId = token
  · by_cases hlisted : ataId ata owner definitionId ∈ output.preStates.map (·.accountId)
    · obtain ⟨hpres, -, instruction, hwords, hrun⟩ :=
        Token.main_ok (hset.tokens.of_execute hprogram hstep.executed)
      obtain ⟨pre, hpre, hid⟩ := mem_map.mp hlisted
      rw [← hpres] at hrun
      rw [← hid]
      rcases Token.spared_of_run hstep hprogram hname hrun hpre with ⟨hne, hflag⟩ | hspared
      · have hauthorized := (hstep.authorization pre hpre).mp hflag
        rw [hid] at hauthorized
        rcases hharmless hauthorized with hconsents | ⟨-, hinitializes⟩
        · exact .inl hconsents
        · rw [hinitializes, hset.initializes] at hwords
          exact absurd (some.inj hwords).symm hne
      · exact .inr hspared
    · rw [hstep.overlay_of_notMem hlisted]
      exact .inr le_rfl
  · -- another program leaves what the account reads as
    right
    rw [held, Token.measureIn, ← (Token.foreign_step hstep hprogram hset.ownsAccounts _).2]
    rfl

variable [Schnorr] {diff : StateDiff}

/-- No call that creates an account is given the definition with another program for its owner. -/
def CreatesOwned (exec : Executor) (tx : PublicTransaction) (state : V03State) (blockId : BlockId)
    (timestamp : Timestamp) (token ata : ProgramId) (definitionId : AccountId) : Prop :=
  ∀ v ∈ callTree exec tx state blockId timestamp, v.call.1.programId = ata →
    ∀ ataProgramId, fromWords v.call.1.instructionData = some (Instruction.create ataProgramId) →
      ∀ pre ∈ v.result.preStates, pre.accountId = definitionId →
        pre.account.programOwner = ofProgramId token

section

variable (hset : Setting exec token ata owner definitionId)
  (h : Accepted exec tx state blockId timestamp diff)

include hset h

/-- A definition of the token program stays with it all along. -/
theorem createsOwned_of_owned
    (hdefinition : (state.getAccountById definitionId).programOwner = ofProgramId token) :
    CreatesOwned exec tx state blockId timestamp token ata definitionId := by
  rintro v hv - - - pre hpre rfl
  rw [(callTree_step hv).consistent pre hpre]
  exact h.threads.before (P := fun d =>
      (overlay state d pre.accountId).programOwner = .ofProgramId token)
    (fun _ hv hbefore => ((callTree_step hv).owned hbefore hset.ownsAccounts).1)
    (by rw [overlay_empty, hdefinition]) v hv

/-- Every call of the tree that has the authority of the account is then harmless. -/
theorem creating_is_harmless
    (hcreates : CreatesOwned exec tx state blockId timestamp token ata definitionId)
    {v : Visit Diff Call ProgramOutput} (hv : v ∈ callTree exec tx state blockId timestamp)
    (hauthorized : isAuthorized v.call (ataId ata owner definitionId) = true) :
    Harmless token (AuthorizedIn exec tx state blockId timestamp owner) v.call.1 := by
  refine authority_forall hset.unambiguousId rfl (fun w hw _ hata next hnext hseed => ?_)
    (fun w hw hharmless next hnext => ?_) hv hauthorized
  · have hstep := callTree_step hw
    obtain ⟨hpres, instruction, hinstruction, hcalls⟩ :=
      main_ok (hset.atas.of_execute hata hstep.executed)
    obtain ⟨payer, hpayer, definitionId', hseeds, hcases⟩ := hcalls next hnext
    rw [← hpres] at hpayer
    rw [hseeds, mem_singleton] at hseed
    obtain ⟨howner, rfl⟩ := ataSeedBytes_inj
      (hset.unambiguousSeed _ _ (congrArg PdaSeed.value hseed.symm) rfl)
    rcases hcases with hflag | ⟨⟨ataProgramId, rfl⟩, definition, hmem, rfl, hprogram, hwords⟩
    · exact .inl (h.authorizedIn hw ⟨payer, hpayer, howner, hflag⟩)
    · rw [← hpres] at hmem
      rw [hcreates w hw hata ataProgramId hinstruction definition hmem rfl,
        toProgramId_ofProgramId] at hprogram
      exact .inr ⟨hprogram, hwords⟩
  · rcases hharmless with hconsents | ⟨hprogram, -⟩
    · exact .inl hconsents
    · -- the token program calls nobody
      obtain ⟨-, hnone, -⟩ :=
        Token.main_ok (hset.tokens.of_execute hprogram (callTree_step hw).executed)
      rw [hnone] at hnext
      exact absurd hnext not_mem_nil

end

variable [Builtins] [Receipts] [ImageId]

/-- **An associated token account holds less of its token only with the consent of the owner**, in
every state that is reached, and in every other state if no account is created for a definition of
another program; the id of the definition does not read as a name.  Programs in the call tree are
arbitrary. -/
theorem ata_consent (hset : Setting exec token ata owner definitionId)
    (hstate : Token.Reached exec token state ∨
      CreatesOwned exec tx state blockId timestamp token ata definitionId)
    (hname : ¬Token.Named definitionId)
    (h : transitionFromPublicTransaction exec state tx blockId timestamp = .ok state')
    (hless : held token definitionId (state'.getAccountById (ataId ata owner definitionId))
      < held token definitionId (state.getAccountById (ataId ata owner definitionId))) :
    AuthorizedIn exec tx state blockId timestamp owner := by
  obtain ⟨diff, haccepted, happly⟩ := transitionFromPublicTransaction_ok h
  have hcreates : CreatesOwned exec tx state blockId timestamp token ata definitionId := by
    refine hstate.elim (fun hreached => createsOwned_of_owned hset haccepted ?_) id
    exact hreached.owned hset.tokens hset.ownsAccounts (Nat.ne_zero_of_lt hless)
  have hfunds := haccepted.funds happly (ataId ata owner definitionId)
  by_contra hdenied
  -- a run of the tree: the account holds no less
  have hrun := haccepted.threads.invariant (P := fun d =>
    held token definitionId (state.getAccountById (ataId ata owner definitionId)) ≤
      held token definitionId (overlay state d (ataId ata owner definitionId)))
    (fun v hv hbefore => ?_) (by rw [overlay_empty])
  · rw [held, Token.measureIn, Token.holdingIn_congr hfunds.programOwner hfunds.data]
      at hless
    exact absurd hless (not_lt.mpr hrun)
  · have hstep := ata_step hset hname (callTree_step hv)
      (creating_is_harmless hset haccepted hcreates hv)
    exact hbefore.trans (hstep.resolve_left hdenied)

end

/-! A program issues a token, has an account for it created for `alice` and pays `alice` 100 of it,
who pays 30 back.  In a state that is not reached the definition is the program's own, and it takes
the 100: it has the account created again, naming itself.  All digests are SHA-256's. -/

namespace Raid

open scoped Idle

def token : ProgramId := .ofWord 2

def raider : ProgramId := .ofWord 3

def ata : ProgramId := .ofWord 4

def definitionSeed : PdaSeed := ⟨.replicate 32 1⟩

def definition : AccountId :=
  ⟨ofHex 0xb8cd24938a77adf90894f0a43a8f9134bdbf58d0ad2d3780dd6b761e40a69606⟩

def treasurySeed : PdaSeed := ⟨.replicate 32 2⟩

/-- The holding of the program. -/
def treasury : AccountId :=
  ⟨ofHex 0x5f505897ce823d81fe86f9e95af7c3edefbf37b77d2bdfca90cab58cec36d266⟩

def seed : PdaSeed :=
  ⟨ofHex 0xaed0f6ed929e8773365349ad2b0f7ea7905f89a510503e70865c707f36325b58⟩

def aliceAta : AccountId :=
  ⟨ofHex 0xc04ea116bb22d79bc897dbb385978af73050db7d7dfb15397f79558448cee759⟩

/-- The account for the same seed of the program that raids. -/
def decoy : AccountId :=
  ⟨ofHex 0x38107df9b990c6e9c212dbe77d67012faaa0a8e7303dd9d13d05e9ceee5819e6⟩

scoped instance tokenSerde : Serde Token.Instruction := .ofTable
  [(.transfer 100, [0, 100, 0, 0, 0]), (.transfer 30, [0, 30, 0, 0, 0]),
   (.newFungibleDefinition Token.Coins.gold 1000, [1, 4, 1684827975, 1000, 0, 0, 0]),
   (.initializeAccount, [3])]

scoped instance ataSerde : Serde Instruction := .ofTable
  [(.create ata, [0, 4, 0, 0, 0, 0, 0, 0, 0]), (.create raider, [0, 3, 0, 0, 0, 0, 0, 0, 0]),
   (.transfer ata 30, [1, 4, 0, 0, 0, 0, 0, 0, 0, 30, 0, 0, 0])]

def payment : PublicTransaction.Message :=
  ⟨ata, [alice, aliceAta, treasury], [⟨0⟩], [1, 4, 0, 0, 0, 0, 0, 0, 0, 30, 0, 0, 0]⟩

def paymentHash : Bytes 32 :=
  ofHex 0xe59796b319627b49e6538253985826cf0164b5eb57dccacf3917f9165133b9b2

def paymentSignature : Signature := .ofHex
  0xd17d89ecf20c16c68b51db2c1eef6b1d6b4fb6e2428b36a75009c067c6e9369d
  0x693431e61e742f5aa4dfeb9d110a25782d2bb1b049d09d44519c0746daf7bfd8

scoped instance sha : Sha256 := .ofTable
  [(publicPdaBytes raider definitionSeed, definition.value),
   (publicPdaBytes raider treasurySeed, treasury.value),
   (ataSeedBytes alice definition, seed.value),
   (publicPdaBytes ata seed, aliceAta.value), (publicPdaBytes raider seed, decoy.value),
   (publicAccountBytes key, alice.value), (payment.hashBytes, paymentHash)]

scoped instance schnorr : Schnorr := .ofTable [(key, paymentHash, paymentSignature)]

/-- An account of the token program with an amount of the token. -/
def holdingOf (amount : U128) : Account :=
  { Account.ownedBy token with
    data := ((Token.TokenHolding.fungible definition amount).toData).getD .empty }

/-- The program issues the token if it is told so, and else pays 100.  Told to initialize an
account, it has `alice` pay. -/
def raid : Guest := fun selfProgramId callerProgramId preStates instructionWords =>
  let listed : List AccountWithMetadata :=
    if instructionWords = [3] then
      [⟨holdingOf 100, true, aliceAta⟩, ⟨holdingOf 0, false, treasury⟩]
    else preStates
  let authorized := listed.map fun preState => { preState with
    isAuthorized := preState.isAuthorized || preState.accountId ∈ [definition, treasury] }
  let instruction : Token.Instruction :=
    if instructionWords = [1] then .newFungibleDefinition Token.Coins.gold 1000 else .transfer 100
  some { ProgramOutput.new selfProgramId callerProgramId instructionWords listed
           (listed.map fun preState => .new preState.account) with
         chainedCalls :=
           [⟨token, authorized, toWords instruction, [definitionSeed, treasurySeed]⟩] }

def guests (programId : ProgramId) : Guest :=
  if programId = token then Token.main else if programId = ata then main else raid

def exec : Executor := .ofGuests guests

def accounts : List (AccountId × Account) :=
  [deployedAt token, deployedAt ata, deployedAt raider,
   (alice, { Account.ownedBy ata with balance := 10 })]

def genesis : V03State := .ofAccounts accounts

/-- The definition is the raider's own. -/
def raided : V03State := .ofAccounts (accounts ++
  [(definition, { Account.ownedBy raider with
      data := ((Token.TokenDefinition.fungible Token.Coins.gold 1000 none).toData).getD .empty }),
   (aliceAta, holdingOf 100), (treasury, holdingOf 0)])

/-- What nobody signs. -/
def unsigned (programId : ProgramId) (accountIds : List AccountId)
    (instructionData : InstructionData) : PublicTransaction :=
  ⟨⟨programId, accountIds, [], instructionData⟩, ⟨[]⟩⟩

def issueTx : PublicTransaction := unsigned raider [definition, treasury] [1]

def createTx : PublicTransaction :=
  unsigned ata [alice, definition, aliceAta] [0, 4, 0, 0, 0, 0, 0, 0, 0]

def fundTx : PublicTransaction := unsigned raider [treasury, aliceAta] [2]

def recreateTx : PublicTransaction :=
  unsigned ata [alice, definition, decoy] [0, 3, 0, 0, 0, 0, 0, 0, 0]

def paymentTx : PublicTransaction := ⟨payment, ⟨[(paymentSignature, key)]⟩⟩

theorem setting : Setting exec token ata alice definition where
  tokens := executes_ofGuests rfl
  atas := executes_ofGuests rfl
  ownsAccounts := by decide +kernel
  initializes := by decide +kernel
  unambiguousId := Sha256.unambiguous_ofTable (by decide +kernel) (by decide +kernel)
  unambiguousSeed := Sha256.unambiguous_ofTable (by decide +kernel) (by decide +kernel)

end Raid

section

open Idle Raid

/-- The account of `alice` is created again and loses all that it holds, and `alice` is not
authorized in any way. -/
theorem ata_drained_by_create :
    Setting exec token ata alice definition ∧
      ataId ata alice definition = aliceAta ∧
      (raided.getAccountById aliceAta).programOwner = ofProgramId token ∧
      ¬Token.Named definition ∧
      held token definition (raided.getAccountById aliceAta) = 100 ∧
      (∃ state', transitionFromPublicTransaction exec raided recreateTx 0 0 = .ok state' ∧
        held token definition (state'.getAccountById aliceAta) = 0) ∧
      ¬AuthorizedIn exec recreateTx raided 0 0 alice := by
  refine ⟨setting, by decide +kernel, by decide +kernel, by decide +kernel, by decide +kernel,
    by decide +kernel, ?_⟩
  rintro (⟨signature, publicKey, hmem, -⟩ | hdelegated)
  · exact absurd hmem (by simp [recreateTx, unsigned])
  · revert hdelegated
    decide +kernel

theorem alice_pays :
    ∃ state state', Run (Token.Plainly exec token) genesis
        [.publicTx issueTx, .publicTx createTx, .publicTx fundTx] state ∧
      transitionFromPublicTransaction exec state paymentTx 1 0 = .ok state' ∧
      held token definition (state.getAccountById aliceAta) = 100 ∧
      held token definition (state'.getAccountById aliceAta) = 70 ∧
      AuthorizedIn exec paymentTx state 1 0 alice := by
  obtain ⟨issued, hissued, created, hcreated, state, hfunded, hbefore, state', h, hafter⟩ :
      ∃ issued, Token.next exec (Token.PlainCall token) genesis issueTx = some issued ∧
        ∃ created, Token.next exec (Token.PlainCall token) issued createTx = some created ∧
        ∃ state, Token.next exec (Token.PlainCall token) created fundTx = some state ∧
        held token definition (state.getAccountById aliceAta) = 100 ∧
        ∃ state', transitionFromPublicTransaction exec state paymentTx 1 0 = .ok state' ∧
          held token definition (state'.getAccountById aliceAta) = 70 := by
    decide +kernel
  have hrun : Run (Token.Plainly exec token) genesis
      [.publicTx issueTx, .publicTx createTx, .publicTx fundTx] state :=
    .cons (.publicly (Token.accepts_of_next _ _ _ hissued))
      (.cons (.publicly (Token.accepts_of_next _ _ _ hcreated))
        (.cons (.publicly (Token.accepts_of_next _ _ _ hfunded)) (.nil state)))
  have hnone : ∀ id, (genesis.getAccountById id).programOwner ≠ ofProgramId token :=
    V03State.forall_ofAccounts (P := fun account => account.programOwner ≠ ofProgramId token)
      (by decide +kernel) (by decide +kernel)
  have hid : ataId ata alice definition = aliceAta := by decide +kernel
  refine ⟨state, state', hrun, h, hbefore, hafter, ?_⟩
  refine ata_consent setting (.inl ⟨genesis, _, hnone, hrun⟩) (by decide +kernel) h ?_
  rw [hid, hbefore, hafter]
  decide

end

end AssociatedTokenAccount

end Lssa
