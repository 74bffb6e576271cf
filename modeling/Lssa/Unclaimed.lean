/-
Accounts that nobody owns.

Nobody can credit such an account or write to it without claiming it, so it holds nothing.
Its nonce is another matter: a transaction gives the account of every key that signed it the
next nonce, also if the account has no part in the calls.  From then on the account differs
from the default one, and the `Initialize` of authenticated transfer refuses it.

* `Transition.unowned` — what a transaction makes of an account that has no owner after it;
* `initialize_iff` — which accounts can be initialised;
* **`unclaimed_usable_iff`** — an account without an owner can be initialised by its key holder
  as long as its nonce is 0, and `cosigner_locked_out` a run after which one cannot.
-/
import Lssa.ProgramStorage

open Outcome Runs

namespace Lssa

open Sample (alice bob bobKey key)

open AuthenticatedTransfer PublicExecution

/-- Accounts that nobody owns hold no balance and no data. -/
def HoldsNothing (state : V03State) : Prop :=
  ∀ accountId, (state.getAccountById accountId).programOwner = defaultProgramOwner →
    (state.getAccountById accountId).balance = 0 ∧ (state.getAccountById accountId).data.bytes = []

/-- An account that holds nothing and that nobody owns differs from the default account in
its nonce at most. -/
theorem HoldsNothing.eq_default_iff {state : V03State} (h : HoldsNothing state)
    {accountId : AccountId}
    (hunowned : (state.getAccountById accountId).programOwner = defaultProgramOwner) :
    state.getAccountById accountId = .default ↔ (state.getAccountById accountId).nonce = ⟨0⟩ := by
  obtain ⟨hbalance, hdata⟩ := h accountId hunowned
  refine ⟨fun heq => by rw [heq]; rfl, fun hnonce => ?_⟩
  have hdata' : (state.getAccountById accountId).data = Account.default.data := Data.ext hdata
  cases haccount : state.getAccountById accountId with
  | mk programOwner balance data nonce =>
    simp only [haccount] at hunowned hbalance hdata' hnonce
    rw [hunowned, hbalance, hdata', hnonce]
    rfl

/-- A set that was extended has a root. -/
theorem CommitmentSet.digest_of_extend [Sha256] {set set' : CommitmentSet}
    {commitments : List Commitment} (h : set.extend commitments = some set') :
    set'.digest.isSome = true := by
  obtain ⟨inserted, -, h⟩ := bind_eq_some_iff.mp h
  obtain ⟨root, hroot, h⟩ := bind_eq_some_iff.mp h
  rw [← some.inj h]
  exact isSome_iff_exists.mpr ⟨root, hroot⟩

/-- A set with a root can be extended by nothing. -/
theorem CommitmentSet.extend_nil [Sha256] {set : CommitmentSet}
    (h : set.digest.isSome = true) : ∃ set', set.extend [] = some set' := by
  obtain ⟨root, hroot⟩ := isSome_iff_exists.mp h
  exact ⟨{ set with rootHistory := Insert.insert root set.rootHistory }, by simp [extend, hroot]⟩

/-- A public diff with one signer is applied, if the nonce of the signer is not the last one
and the commitments have a root. -/
theorem V03State.applyStateDiff_of_signer [Sha256] {state : V03State}
    {publicDiff : Map AccountId Account} {signer : AccountId} {nonce : Nonce}
    (hnonce : (overlay state publicDiff signer).nonce.publicAccountNonceIncrement = some nonce)
    (hdigest : state.commitmentSet.digest.isSome = true) :
    ∃ state', state.applyStateDiff ⟨[signer], publicDiff, [], [], none⟩ = some state' := by
  obtain ⟨set', hset⟩ := CommitmentSet.extend_nil hdigest
  rw [← get_writeDiff] at hnonce
  have hbumped : ∃ bumped, [signer].foldlM incrementNonce (writeDiff state.publicState publicDiff)
      = some bumped := by
    simp [incrementNonce, hnonce]
  obtain ⟨bumped, hbumped⟩ := hbumped
  refine ⟨⟨bumped, set', state.nullifierSet ∪ ∅⟩, ?_⟩
  refine bind_eq_some_iff.mpr ⟨bumped, hbumped, ?_⟩
  exact bind_eq_some_iff.mpr ⟨set', hset, rfl⟩

namespace LeeTransaction

/-! ### What transactions keep -/

section

variable [Sha256] [Schnorr] [Builtins] [Receipts] [ImageId] [MlKem] [ChaCha20]
  {exec : Executor} {tx : LeeTransaction} {state state' : V03State}
  {verify : ProgramId → ProgramOutput → Bool}

/-- **What a transaction makes of an account that nobody owns after it**: nobody owned it
before, and it holds what it held. -/
theorem Transition.unowned (hsound : ReceiptsSound verify) (h : Transition exec tx state state')
    {accountId : AccountId}
    (hafter : (state'.getAccountById accountId).programOwner = defaultProgramOwner) :
    SameFunds (state'.getAccountById accountId) (state.getAccountById accountId) := by
  by_cases hstores : Stores tx accountId
  · -- an account that a program is deployed to has an owner
    obtain ⟨dtx, programId, rfl, himage, rfl⟩ := hstores
    obtain ⟨blockId, timestamp, diff, hdiff, happly⟩ := h.diff
    obtain ⟨programId', himage', -, rfl⟩ := fromProgramDeploymentTransaction_ok hdiff
    obtain rfl : programId' = programId := some.inj (himage'.symm.trans himage)
    obtain ⟨account, hprogram⟩ := applyStateDiff_stores happly rfl
    obtain ⟨rfl, howner⟩ := V03State.getProgram_eq_some.mp hprogram
    exact absurd (howner.symm.trans hafter) (by decide)
  · have hbefore : (state.getAccountById accountId).programOwner = defaultProgramOwner := by
      by_contra howned
      exact howned (((h.ages hsound hstores).programOwner howned).symm.trans hafter)
    cases tx with
    | publicTx ptx =>
      obtain ⟨blockId, timestamp, diff, hdiff, happly⟩ := h.diff
      have haccepted := fromPublicTransaction_ok hdiff
      have hfunds := haccepted.funds happly accountId
      rw [← haccepted.eq_of_unowned hbefore (hfunds.programOwner.symm.trans hafter)]
      exact hfunds
    | privacyPreserving ptx =>
      obtain ⟨diff, input, haccepted, happly, hinput⟩ := h.privately hsound
      rcases haccepted.same_or_action happly accountId with hsame | ⟨action, haction, rfl, hfunds⟩
      · exact hsame
      · have hpost : action.postState = state.getAccountById action.accountId :=
          Circuit.main_unowned hinput (mem_map_of_mem haction) hbefore
            (hfunds.programOwner.symm.trans hafter)
        rwa [hpost] at hfunds
    | programDeployment dtx =>
      rw [h.unstored hstores]
      exact .refl _

/-- A state with a built-in program, as a genesis leaves it: no program is stored under the
reserved id, what nobody owns holds nothing, and the commitments have a root. -/
structure Launched (programId : ProgramId) (state : V03State) : Prop where
  isSealed : Sealed state
  stored : (state.getProgram programId).isSome = true
  holdsNothing : HoldsNothing state
  digest : state.commitmentSet.digest.isSome = true

/-- Every transaction keeps all of this. -/
theorem Transition.launched (hsound : ReceiptsSound verify)
    (hverify : ∀ programId output, verify programId output = true → Unreserved programId)
    (himage : ∀ bytecode programId, ImageId.computeImageId bytecode = some programId →
      Unreserved programId)
    (h : Transition exec tx state state') {programId : ProgramId}
    (hstate : Launched programId state) : Launched programId state' where
  isSealed := h.sealed hsound hverify himage hstate.isSealed
  stored := by
    obtain ⟨account, hprogram⟩ := isSome_iff_exists.mp hstate.stored
    obtain ⟨account', hprogram', -⟩ := h.getProgram hsound hverify hstate.isSealed hprogram
    exact isSome_iff_exists.mpr ⟨account', hprogram'⟩
  holdsNothing := by
    intro accountId hafter
    have hsame := h.unowned hsound hafter
    obtain ⟨hbalance, hdata⟩ := hstate.holdsNothing accountId (hsame.programOwner.symm.trans hafter)
    rw [hsame.balance, hsame.data]
    exact ⟨hbalance, hdata⟩
  digest := by
    obtain ⟨blockId, timestamp, diff, -, happly⟩ := h.diff
    exact CommitmentSet.digest_of_extend (applyStateDiff_private happly).1

end

/-! ### The transaction of the key holder -/

section

variable [Sha256] [Serde Instruction]

/-- What the holder of a key signs to have the account of the key initialised. -/
def initializeMessage (authTransfer : ProgramId) (key : PublicKey) (nonce : Nonce) :
    PublicTransaction.Message :=
  ⟨authTransfer, [.ofPublicKey key], [nonce], toWords Instruction.init⟩

/-- The transaction that the holder of a key sends. -/
def initializeTx (authTransfer : ProgramId) (key : PublicKey) (nonce : Nonce)
    (signature : Signature) : PublicTransaction :=
  ⟨initializeMessage authTransfer key nonce, ⟨[(signature, key)]⟩⟩

/-- The account of the key as the call has it: authorized. -/
def claimant (state : V03State) (key : PublicKey) : AccountWithMetadata :=
  ⟨state.getAccountById (.ofPublicKey key), true, .ofPublicKey key⟩

theorem preStates_initializeTx (state : V03State) (authTransfer : ProgramId) (key : PublicKey)
    (nonce : Nonce) (signature : Signature) :
    (firstCall state (initializeTx authTransfer key nonce signature)).1.preStates
      = [claimant state key] := by
  simp [initialCall, initializeTx, initializeMessage, claimant, PublicTransaction.signerAccountIds]

variable {exec : Executor} {state : V03State} {authTransfer : ProgramId} {key : PublicKey}

/-- The call that initialises a default account: the account gets an owner. -/
theorem initialize_step
    (hruns : Realizes exec authTransfer main)
    (hserde : (fromWords (toWords Instruction.init)) = some Instruction.init)
    (hstored : (state.getProgram authTransfer).isSome = true)
    (hdefault : state.getAccountById (.ofPublicKey key) = .default)
    (blockId : BlockId) (timestamp : Timestamp) (nonce : Nonce) (signature : Signature) :
    PublicExecution.Step exec state blockId timestamp ∅
      (firstCall state (initializeTx authTransfer key nonce signature))
      (ProgramOutput.new authTransfer none (toWords Instruction.init)
        [claimant state key] [.newClaimed Account.default .authorized])
      (insertAll ∅ [(.ofPublicKey key, .ownedBy authTransfer)]) where
  executed := by
    refine hruns.execute rfl hstored ?_
    rw [preStates_initializeTx]
    show (fromWords (toWords Instruction.init)).bind _ = _
    rw [hserde, bind_some]
    simp [postStates, initializeAccount, claimant, hdefault, AccountPostState.newClaimed]
    rfl
  consistent := by
    intro pre hmem
    obtain rfl := mem_singleton.mp hmem
    rw [overlay_empty]
    rfl
  authorization := by
    intro pre hmem
    obtain rfl := mem_singleton.mp hmem
    refine iff_of_true rfl (isAuthorized_iff.mpr (.inr ?_))
    simp [initialCall, initializeTx, PublicTransaction.signerAccountIds, claimant]
  selfProgramId := rfl
  callerProgramId := rfl
  valid := by
    refine validateExecution_of_valid ?_ (by simp [ProgramOutput.new])
    exact
      { nodup := List.nodup_singleton _
        length_eq := rfl
        account := by
          intro pair hpair
          obtain rfl := mem_singleton.mp hpair
          show ValidAccount _ (state.getAccountById (.ofPublicKey key)) Account.default
          rw [hdefault]
          exact ⟨rfl, rfl, fun hlt => absurd hlt (lt_irrefl _), fun hne => absurd rfl hne,
            fun _ => rfl⟩
        balance_eq := by
          simp [ProgramOutput.new, claimant, hdefault, AccountPostState.newClaimed] }
  block := rfl
  time := rfl
  claims := ⟨[.ownedBy authTransfer], .cons rfl .nil, rfl⟩

variable [Schnorr]

/-- **Which accounts can be initialised**: with a valid signature and the current nonce, those
that are still at their default. -/
theorem initialize_iff
    (hruns : Realizes exec authTransfer main)
    (hserde : (fromWords (toWords Instruction.init)) = some Instruction.init)
    (howns : ofProgramId authTransfer ≠ defaultProgramOwner)
    (hstored : (state.getProgram authTransfer).isSome = true)
    (hdigest : state.commitmentSet.digest.isSome = true) {nonce : Nonce} {signature : Signature}
    (hnonce : (state.getAccountById (.ofPublicKey key)).nonce = nonce)
    (hsigned : Schnorr.verifyPrehash key (initializeMessage authTransfer key nonce).hash signature
      = true)
    (blockId : BlockId) (timestamp : Timestamp) :
    (∃ state', transitionFromPublicTransaction exec state
      (initializeTx authTransfer key nonce signature) blockId timestamp = .ok state') ↔
        state.getAccountById (.ofPublicKey key) = .default := by
  constructor
  · rintro ⟨state', h⟩
    obtain ⟨diff, hdiff, -⟩ := V03State.apply_ok h
    obtain ⟨output, mid, hstep, -⟩ :=
      run_singleton (fromPublicTransaction_ok hdiff).run
    have hmain := hruns.executes.of_execute rfl hstep.executed
    rw [preStates_initializeTx] at hmain
    obtain ⟨instruction, hinstruction, hmain⟩ := bind_eq_some_iff.mp hmain
    obtain rfl : .init = instruction := some.inj (hserde.symm.trans hinstruction)
    obtain ⟨posts, hposts, -⟩ := bind_eq_some_iff.mp hmain
    obtain ⟨claimed, hclaimed, -⟩ := map_eq_some_iff.mp hposts
    exact (initializeAccount_ok hclaimed).1
  · intro hdefault
    have hsigners : authenticatePublicTransactionSigners
        (initializeTx authTransfer key nonce signature) state
          = .ok (initializeTx authTransfer key nonce signature).signerAccountIds := by
      refine ensure_bind_eq_ok.mpr ⟨rfl, ensure_bind_eq_ok.mpr ⟨?_, ?_⟩⟩
      · exact List.all_eq_true.mpr fun entry hentry => by
          obtain rfl := mem_singleton.mp hentry
          exact hsigned
      · refine bind_eq_ok.mpr ⟨(), forM_eq_ok.mpr fun entry hentry => ?_, rfl⟩
        obtain rfl := mem_singleton.mp hentry
        exact ensure_eq_ok.mpr hnonce
    have hstep := initialize_step hruns hserde hstored hdefault blockId timestamp nonce signature
    have hdiff := fromPublicTransaction_of_signed hsigners (List.cons_ne_nil _ _)
      (List.nodup_singleton _) hstep rfl ?_ ?_
    · -- the account is claimed with nonce 0, which is not the last nonce
      have hclaimed := congrArg Account.nonce
        (ok.inj (hstep.claimAccount_overlay (mem_singleton.mpr rfl)))
      have hnext : Nonce.publicAccountNonceIncrement ⟨0⟩ = some ⟨1⟩ := rfl
      obtain ⟨state', hstate'⟩ := V03State.applyStateDiff_of_signer
        ((congrArg Nonce.publicAccountNonceIncrement hclaimed.symm).trans hnext) hdigest
      refine ⟨state', ?_⟩
      rw [transitionFromPublicTransaction, hdiff]
      exact V03State.apply_of_applyStateDiff hstate'
    · refine forM_eq_ok.mpr fun entry hentry => ensure_eq_ok.mpr fun _ _ => ?_
      obtain ⟨pre, post, hpair, -, hafter⟩ := hstep.written (mem_lookup_iff.mpr hentry)
      obtain ⟨rfl, rfl⟩ := Prod.mk.inj (mem_singleton.mp hpair)
      rw [← ok.inj hafter]
      exact howns
    · intro accountId hmem
      obtain rfl := mem_singleton.mp hmem
      exact hstep.mem_diff (mem_singleton.mpr rfl)

variable [Builtins] [Receipts] [ImageId] [MlKem] [ChaCha20]
  {verify : ProgramId → ProgramOutput → Bool}

/-- **Which unclaimed accounts can still be initialised.**  In every state that accepted
transactions reach from a genesis, an account that nobody owns holds nothing, and the
`Initialize` that its key holder signs with the current nonce is accepted iff that nonce
is 0. -/
theorem unclaimed_usable_iff (hsound : ReceiptsSound verify)
    (hverify : ∀ programId output, verify programId output = true → Unreserved programId)
    (himage : ∀ bytecode programId, ImageId.computeImageId bytecode = some programId →
      Unreserved programId)
    (hruns : Realizes exec authTransfer main)
    (hserde : (fromWords (toWords Instruction.init)) = some Instruction.init)
    (howns : ofProgramId authTransfer ≠ defaultProgramOwner)
    {genesis : V03State} {txs : List LeeTransaction} (hgenesis : Launched authTransfer genesis)
    (hhistory : History exec genesis txs state)
    (hunclaimed : (state.getAccountById (.ofPublicKey key)).programOwner = defaultProgramOwner)
    {nonce : Nonce} (hnonce : (state.getAccountById (.ofPublicKey key)).nonce = nonce)
    {signature : Signature}
    (hsigned : Schnorr.verifyPrehash key (initializeMessage authTransfer key nonce).hash signature
      = true)
    (blockId : BlockId) (timestamp : Timestamp) :
    ((state.getAccountById (.ofPublicKey key)).balance = 0 ∧
      (state.getAccountById (.ofPublicKey key)).data.bytes = []) ∧
    ((∃ state', transitionFromPublicTransaction exec state
      (initializeTx authTransfer key nonce signature) blockId timestamp = .ok state') ↔
        nonce = ⟨0⟩) := by
  have hstate : Launched authTransfer state := hhistory.invariant
    (fun tx _ a b hstep hlaunched => hstep.launched hsound hverify himage hlaunched) hgenesis
  refine ⟨hstate.holdsNothing _ hunclaimed, ?_⟩
  rw [initialize_iff hruns hserde howns hstate.stored hstate.digest hnonce hsigned,
    hstate.holdsNothing.eq_default_iff hunclaimed, hnonce]

end

end LeeTransaction

/-! Two keys without an account: `bob` has theirs initialised, and `alice` signs along.  All
digests are SHA-256's. -/

namespace Cosigned

open scoped Idle

def authTransfer : ProgramId := .ofWord 3

/-- What both sign. -/
def message : PublicTransaction.Message := ⟨authTransfer, [bob], [⟨0⟩, ⟨0⟩], [1]⟩

def messageHash : Bytes 32 :=
  ofHex 0x8aacfd843b1509bcc311979c80b9bf9bf363a24f98e9738afe025133b1abbd3d

def bobSignature : Signature := .ofHex
  0x404b444b8156fae87218ffdc259c72b33286ebd7a0011b2e5c554ffa99466466
  0xaae0335edf4b83535d543533e58a2397d745d215c86e9a70e454a9cdbfcb6f51

def aliceSignature : Signature := .ofHex
  0x101d56257ac105ef312856bb026a672b186f1823de12c43ea423d461f45e39f9
  0x93468446c54f2ffa195797d4a025ac990d550039d04ed8aba3b54fc4608a005f

/-- What `alice` signs to have their account initialised, at nonce 0 and at nonce 1. -/
def own (nonce : Nonce) : PublicTransaction.Message := ⟨authTransfer, [alice], [nonce], [1]⟩

def ownHash₀ : Bytes 32 :=
  ofHex 0x2fee24e9fcf05eb2474452415a67682fb85d7c5cc0d30a67799c6e97312d9277

def ownSignature₀ : Signature := .ofHex
  0x5624e638da1deb6bd65243acca3ab40cb97a1bc6cbbea36198cd55f27d3c0f0e
  0x9befc9f9b5447a50b264da604cc72ab3ca002436b2a6d5f40084be1fcebe9ce3

def ownHash₁ : Bytes 32 :=
  ofHex 0xf2b095b7d7f1ec91bf1fad7e9acf72babad8f1bf6dabc88a3506ad4c1bc7248d

def ownSignature₁ : Signature := .ofHex
  0x11a8fbeb2940333eb0f68c8cca6a922918a6698e73b031b2a25bc5a01e17fdaa
  0x16eb945825a1e2f6482b4e6327efff5b7b1bea832be65b33b2b5d629c5a440cd

scoped instance sha : Sha256 := .ofTable
  [ (publicAccountBytes key, alice.value), (publicAccountBytes bobKey, bob.value),
    (message.hashBytes, messageHash), ((own ⟨0⟩).hashBytes, ownHash₀),
    ((own ⟨1⟩).hashBytes, ownHash₁) ]

scoped instance schnorr : Schnorr := .ofTable
  [ (bobKey, messageHash, bobSignature), (key, messageHash, aliceSignature),
    (key, ownHash₀, ownSignature₀), (key, ownHash₁, ownSignature₁) ]

def exec : Executor := .ofGuests fun _ => main

def genesis : V03State := .ofAccounts [deployedAt authTransfer]

def tx : LeeTransaction :=
  .publicTx ⟨message, ⟨[(bobSignature, bobKey), (aliceSignature, key)]⟩⟩

/-- `bob` signs in the place of `alice` too. -/
def alone : LeeTransaction :=
  .publicTx ⟨message, ⟨[(bobSignature, bobKey), (bobSignature, bobKey)]⟩⟩

/-- The only account of the genesis is that of the program. -/
theorem getAccountById_genesis {accountId : AccountId}
    (hne : accountId ≠ .ofProgramId authTransfer) :
    genesis.getAccountById accountId = .default := by
  show Ledger.get Account.default (insertAll ∅ [deployedAt authTransfer]) accountId = _
  rw [Ledger.insertAll_cons, Ledger.insertAll_nil, get_insert]
  exact if_neg hne

theorem genesis_launched : LeeTransaction.Launched authTransfer genesis where
  isSealed := by
    intro programId hprogram hreserved
    rw [V03State.getProgram_isSome, hreserved] at hprogram
    revert hprogram
    decide +kernel
  stored := by decide +kernel
  holdsNothing := by
    intro accountId hunowned
    by_cases heq : accountId = .ofProgramId authTransfer
    · subst heq
      revert hunowned
      decide +kernel
    · rw [getAccountById_genesis heq]
      exact ⟨rfl, rfl⟩
  digest := rfl

end Cosigned

namespace LeeTransaction

open Idle Cosigned

/-- **An unclaimed account that cannot be initialised.**  Nobody owns the account of `alice`
after the transaction, and it holds nothing; the signature over the current nonce is valid,
and the transaction is refused. -/
theorem cosigner_locked_out :
    Launched authTransfer genesis ∧
    ∃ state, History exec genesis [tx] state ∧
      state.getAccountById (.ofPublicKey key) = { Account.default with nonce := ⟨1⟩ } ∧
      Schnorr.verifyPrehash key (initializeMessage authTransfer key ⟨1⟩).hash ownSignature₁ = true ∧
      transitionFromPublicTransaction exec state
        (initializeTx authTransfer key ⟨1⟩ ownSignature₁) 2 0
          = .error (.rejected (.programExecutionFailed "Guest panicked")) := by
  obtain ⟨state, hstate, haccount, hrefused⟩ : ∃ state,
      tx.executeOnState exec genesis 1 0 = .ok state ∧
        state.getAccountById (.ofPublicKey key) = { Account.default with nonce := ⟨1⟩ } ∧
        transitionFromPublicTransaction exec state
          (initializeTx authTransfer key ⟨1⟩ ownSignature₁) 2 0
            = .error (.rejected (.programExecutionFailed "Guest panicked")) := by
    decide +kernel
  exact ⟨genesis_launched, state, .cons ⟨1, 0, hstate⟩ (.nil state), haccount,
    by decide +kernel, hrefused⟩

/-- After a transaction that `bob` alone signed, `alice` can have their account initialised. -/
theorem newcomer_claims :
    ∃ state state', History exec genesis [alone] state ∧
      transitionFromPublicTransaction exec state
        (initializeTx authTransfer key ⟨0⟩ ownSignature₀) 2 0 = .ok state' := by
  obtain ⟨state, hstate, haccount⟩ : ∃ state, alone.executeOnState exec genesis 1 0 = .ok state ∧
      state.getAccountById (.ofPublicKey key) = .default := by
    decide +kernel
  have hhistory : History exec genesis [alone] state := .cons ⟨1, 0, hstate⟩ (.nil state)
  have hsound : ReceiptsSound fun _ _ => false := fun _ _ hvalid => by cases hvalid
  have hruns : Realizes exec authTransfer main :=
    realizes_ofGuests rfl
  have howns : ofProgramId authTransfer ≠ defaultProgramOwner := by
    decide +kernel
  have hsigned : Schnorr.verifyPrehash key
      (initializeMessage authTransfer key ⟨0⟩).hash ownSignature₀ = true := by
    decide +kernel
  obtain ⟨-, haccepted⟩ := unclaimed_usable_iff hsound
    (fun _ _ hverified => absurd hverified (by simp))
    (fun _ _ himage => by cases himage) hruns rfl howns
    genesis_launched hhistory (by rw [haccount]; rfl)
    (by rw [haccount]; rfl) hsigned 2 0
  obtain ⟨state', hclaimed⟩ := haccepted.mpr rfl
  exact ⟨state, state', hhistory, hclaimed⟩

end LeeTransaction

end Lssa
