/-
The privacy circuit: deriving the execution of a transaction.

A privacy-preserving transaction is executed by its prover.  The circuit receives
the program outputs, one for each call in the order of execution, and replays the
walk over the calls (`lee/privacy_preserving_circuit/src/execution_state.rs`): it
checks that each output belongs to the next call, that the accounts it reports are
the ones left by earlier calls, and that its flags are consistent.  It has no chain
state; the first time an account is seen its contents are taken as given and
recorded in `preStates`, for the verifier to check.

Every failed assertion of the guest is a `Panic`.  `env::verify` is the parameter
`verify`: whether some receipt attests that the program produced the output.

* `syncAccount` — one account of one output: `syncPreState`, then its claim;
* `machine` — one round of the walk;
* `deriveFromOutputs` — the walk and the checks around it.
-/
import Lssa.Library.Ledger
import Lssa.CallTree
import Lssa.PrivateAccount

open Outcome DepthFirst
open Ledger (Map)

namespace Lssa

/-! ### Account identities -/

inductive NullifierWitness
  | init (npk : NullifierPublicKey) (commitmentRoot : CommitmentSetDigest)
  | update (viewTag : UInt8) (nsk : NullifierSecretKey) (membershipProof : MembershipProof)
  deriving DecidableEq

/-- `NullifierWitness::npk`. -/
def NullifierWitness.npk [Sha256] : NullifierWitness → NullifierPublicKey
  | .init npk _ => npk
  | .update _ nsk _ => NullifierPublicKey.ofSecretKey nsk

inductive WitnessKind
  | regular (ask : Option AuthorizationSecretKey)
  | pda (binding : Option (ProgramId × PdaSeed))
  deriving DecidableEq

structure PrivateWitness where
  vpk : ViewingPublicKey
  randomSeed : Bytes 32
  identifier : Identifier
  kind : WitnessKind
  nullifier : NullifierWitness
  deriving DecidableEq

inductive InputAccountIdentity
  | publicAccount
  | privateAccount (witness : PrivateWitness)
  deriving DecidableEq

namespace InputAccountIdentity

def isPublic : InputAccountIdentity → Bool
  | publicAccount => true
  | privateAccount _ => false

def isPrivatePda : InputAccountIdentity → Bool
  | privateAccount { kind := .pda _, .. } => true
  | _ => false

/-- `npk_vpk_if_private_pda`. -/
def npkVpkIfPrivatePda [Sha256] :
    InputAccountIdentity → Option (NullifierPublicKey × ViewingPublicKey × Identifier)
  | privateAccount { kind := .pda _, nullifier, vpk, identifier, .. } =>
    some (nullifier.npk, vpk, identifier)
  | _ => none

end InputAccountIdentity

namespace Circuit

/-! ### Panics -/

/-- The assertions of the circuit that can fail. -/
inductive Panic
  | emptyBlockValidityWindow
  | emptyTimestampValidityWindow
  | noProgramOutputs
  | maxChainedCallsDepthExceeded
  | insufficientProgramOutputs
  | mismatchedInstructionData
  | unverifiedProgramOutput
  | mismatchedSelfProgramId
  | mismatchedCallerProgramId
  | invalidProgramBehavior (programId : ProgramId) (error : ExecutionValidationError)
  | inconsistentPreState (accountId : AccountId)
  | missingPreState (accountId : AccountId)
  | externalSeedMismatch (position : ℕ)
  | inconsistentAuthorization (accountId : AccountId)
  | callerSeededPdaNotAuthorized (accountId : AccountId)
  | conflictingFamilyBinding (existing new : AccountId)
  | duplicateBinding (position : ℕ)
  | claimedInitializedAccount (accountId : AccountId)
  | missingAccountIdentity (position : ℕ)
  | claimedUnauthorizedAccount (accountId : AccountId)
  | invalidPdaClaim (accountId pda : AccountId)
  | missingPrivatePdaWitness (position : ℕ)
  | invalidPrivatePdaClaim (accountId : AccountId)
  | leftoverProgramOutputs
  | unboundPrivatePda (position : ℕ)
  | missingPostState (accountId : AccountId)
  | modifiedButNotClaimed (accountId : AccountId)
  | invalidAccountIdentitiesLength
  | accountIdMismatch (accountId : AccountId)
  | authorizationKeyDoesNotDeriveSecretKey (accountId : AccountId)
  | authorizationKeyDoesNotDerivePublicKey (accountId : AccountId)
  | regularAuthorizationMismatch (accountId : AccountId)
  | initRequiresDefaultPreState (accountId : AccountId)
  | missingPdaSeed (position : ℕ)
  | invalidEncapsulationKey
  deriving DecidableEq

/-! ### The state of the walk -/

structure ExecutionState where
  /-- The accounts as first seen, in that order, authorized PDAs masked. -/
  preStates : List AccountWithMetadata
  postStates : Map AccountId Account
  blockValidityWindow : ValidityWindow BlockId
  timestampValidityWindow : ValidityWindow Timestamp
  privatePdaBoundPositions : Map ℕ (ProgramId × PdaSeed)
  pdaFamilyBinding : Map (ProgramId × PdaSeed) AccountId
  globallyAuthorized : Finset AccountId

/-- Where an account is recorded. -/
def ExecutionState.position (state : ExecutionState) (accountId : AccountId) : Option ℕ :=
  state.preStates.findIdx? fun pre => pre.accountId = accountId

/-- `assert_family_binding`. -/
def assertFamilyBinding (bindings : Map (ProgramId × PdaSeed) AccountId)
    (programId : ProgramId) (seed : PdaSeed) (accountId : AccountId) :
    Except Panic (Map (ProgramId × PdaSeed) AccountId) :=
  match bindings.lookup (programId, seed) with
  | none => .ok (bindings.insert (programId, seed) accountId)
  | some existing =>
    if existing = accountId then .ok bindings
    else .error (.conflictingFamilyBinding existing accountId)

/-- `bind_private_pda_position`. -/
def bindPrivatePdaPosition (map : Map ℕ (ProgramId × PdaSeed)) (position : ℕ)
    (programId : ProgramId) (seed : PdaSeed) :
    Except Panic (Map ℕ (ProgramId × PdaSeed)) :=
  match map.lookup position with
  | none => .ok (map.insert position (programId, seed))
  | some existing =>
    if existing = (programId, seed) then .ok map else .error (.duplicateBinding position)

variable [Sha256]

/-- The keys supplied for a position, if it is witnessed as a private PDA. -/
def privatePdaByPosition (accountIdentities : List InputAccountIdentity) (position : ℕ) :
    Option (NullifierPublicKey × ViewingPublicKey × Identifier) :=
  accountIdentities[position]?.bind InputAccountIdentity.npkVpkIfPrivatePda

/-- `match_caller_seed_as_public_pda`. -/
def matchCallerSeedAsPublicPda (caller : CallerData) (callerPdaSeeds : List PdaSeed)
    (accountId : AccountId) : Option (PdaSeed × ProgramId) :=
  caller.programId.bind fun callerProgramId =>
    (callerPdaSeeds.find? fun seed => forPublicPda callerProgramId seed = accountId).map
      fun seed => (seed, callerProgramId)

/-- `match_caller_seed_as_private_pda`. -/
def matchCallerSeedAsPrivatePda (accountIdentities : List InputAccountIdentity)
    (caller : CallerData) (callerPdaSeeds : List PdaSeed) (accountId : AccountId)
    (position : ℕ) : Option (PdaSeed × ProgramId) :=
  (privatePdaByPosition accountIdentities position).bind fun (npk, vpk, identifier) =>
    caller.programId.bind fun callerProgramId =>
      (callerPdaSeeds.find? fun seed =>
        forPrivatePda callerProgramId seed npk vpk identifier = accountId).map
        fun seed => (seed, callerProgramId)

/-- The caller's seed that derives an account, and whether as a private PDA. -/
def matchCallerSeed (accountIdentities : List InputAccountIdentity) (caller : CallerData)
    (callerPdaSeeds : List PdaSeed) (accountId : AccountId) (position : ℕ) :
    Option (PdaSeed × Bool × ProgramId) :=
  match matchCallerSeedAsPublicPda caller callerPdaSeeds accountId with
  | some (seed, callerProgramId) => some (seed, false, callerProgramId)
  | none =>
    (matchCallerSeedAsPrivatePda accountIdentities caller callerPdaSeeds accountId position).map
      fun (seed, callerProgramId) => (seed, true, callerProgramId)

/-- Record the seed that a caller passed for an account. -/
def recordBindings (state : ExecutionState) (accountId : AccountId) (position : ℕ) :
    Option (PdaSeed × Bool × ProgramId) → Except Panic ExecutionState
  | none => .ok state
  | some (seed, isPrivateForm, callerProgramId) => do
    let pdaFamilyBinding ←
      assertFamilyBinding state.pdaFamilyBinding callerProgramId seed accountId
    if isPrivateForm then
      let privatePdaBoundPositions ←
        bindPrivatePdaPosition state.privatePdaBoundPositions position callerProgramId seed
      pure { state with pdaFamilyBinding, privatePdaBoundPositions }
    else pure { state with pdaFamilyBinding }

/-- `assert_authorization_and_record_bindings`. -/
def assertAuthorizationAndRecordBindings (accountIdentities : List InputAccountIdentity)
    (state : ExecutionState) (caller : CallerData) (callerPdaSeeds : List PdaSeed)
    (pre : AccountWithMetadata) (position : ℕ) : Except Panic ExecutionState := do
  let matchedCallerSeed :=
    matchCallerSeed accountIdentities caller callerPdaSeeds pre.accountId position
  let state ← recordBindings state pre.accountId position matchedCallerSeed
  let isAuthorized := matchedCallerSeed.isSome ||
    decide (pre.accountId ∈ state.globallyAuthorized) ||
    decide (pre.accountId ∈ caller.authorizedAccounts)
  ensure (pre.isAuthorized = isAuthorized) (.inconsistentAuthorization pre.accountId)
  pure state

/-- `authorize_first_sight_without_pda_witness`: also whether the account is a public PDA
that the caller delegates, whose flag the journal masks. -/
def authorizeFirstSightWithoutPdaWitness (state : ExecutionState) (caller : CallerData)
    (callerPdaSeeds : List PdaSeed) (pre : AccountWithMetadata) :
    Except Panic (ExecutionState × Bool) :=
  match matchCallerSeedAsPublicPda caller callerPdaSeeds pre.accountId with
  | some (seed, callerProgramId) => do
    ensure pre.isAuthorized (.callerSeededPdaNotAuthorized pre.accountId)
    let pdaFamilyBinding ←
      assertFamilyBinding state.pdaFamilyBinding callerProgramId seed pre.accountId
    pure ({ state with pdaFamilyBinding }, true)
  | none =>
    if pre.isAuthorized then
      .ok ({ state with globallyAuthorized := insert pre.accountId state.globallyAuthorized },
        false)
    else .ok (state, false)

/-- Bind a private PDA through the authority and seed its witness names. -/
def bindExternalSeed (accountIdentities : List InputAccountIdentity) (state : ExecutionState)
    (accountId : AccountId) (position : ℕ) : Except Panic ExecutionState :=
  match accountIdentities[position]? with
  | some (.privateAccount
      { kind := .pda (some (authorityProgramId, seed)), nullifier, vpk, identifier, .. }) => do
    ensure (accountId = forPrivatePda authorityProgramId seed nullifier.npk vpk identifier)
      (.externalSeedMismatch position)
    let privatePdaBoundPositions ←
      bindPrivatePdaPosition state.privatePdaBoundPositions position authorityProgramId seed
    let pdaFamilyBinding ←
      assertFamilyBinding state.pdaFamilyBinding authorityProgramId seed accountId
    pure { state with privatePdaBoundPositions, pdaFamilyBinding }
  | _ => .ok state

/-- The first half of `validate_and_sync_states` for one account: check what an output
reports against what is known, or record it if it is new. -/
def syncPreState (accountIdentities : List InputAccountIdentity) (call : Call)
    (state : ExecutionState) (pre : AccountWithMetadata) : Except Panic ExecutionState :=
  match state.postStates.lookup pre.accountId with
  | some known => do
    ensure (known = pre.account) (.inconsistentPreState pre.accountId)
    match state.position pre.accountId with
    | none => .error (.missingPreState pre.accountId)
    | some position =>
      assertAuthorizationAndRecordBindings accountIdentities state call.2 call.1.pdaSeeds pre
        position
  | none => do
    let position := state.preStates.length
    let state ← bindExternalSeed accountIdentities state pre.accountId position
    if (privatePdaByPosition accountIdentities position).isSome then
      let state ← assertAuthorizationAndRecordBindings accountIdentities state call.2
        call.1.pdaSeeds pre position
      pure { state with preStates := state.preStates ++ [pre] }
    else
      let (state, masked) ←
        authorizeFirstSightWithoutPdaWitness state call.2 call.1.pdaSeeds pre
      let recorded := if masked then { pre with isAuthorized := false } else pre
      pure { state with preStates := state.preStates ++ [recorded] }

/-- The second half of `validate_and_sync_states` for one account: honour a claim. -/
def claimPostState (accountIdentities : List InputAccountIdentity) (programId : ProgramId)
    (state : ExecutionState) (pre : AccountWithMetadata) (post : AccountPostState) :
    Except Panic (ExecutionState × Account) :=
  match post.claim with
  | none => .ok (state, post.account)
  | some claim => do
    ensure (post.account.programOwner = defaultProgramOwner)
      (.claimedInitializedAccount pre.accountId)
    match state.position pre.accountId with
    | none => .error (.missingPreState pre.accountId)
    | some position =>
      let claimed := { post.account with programOwner := ofProgramId programId }
      match accountIdentities[position]?, claim with
      | none, _ => .error (.missingAccountIdentity position)
      | some .publicAccount, .authorized => do
        ensure pre.isAuthorized (.claimedUnauthorizedAccount pre.accountId)
        pure (state, claimed)
      | some .publicAccount, .pda seed => do
        let pda := forPublicPda programId seed
        ensure (pre.accountId = pda) (.invalidPdaClaim pre.accountId pda)
        let pdaFamilyBinding ←
          assertFamilyBinding state.pdaFamilyBinding programId seed pre.accountId
        pure ({ state with pdaFamilyBinding }, claimed)
      -- claims of private accounts are not restricted
      | some (.privateAccount _), .authorized => .ok (state, claimed)
      | some (.privateAccount _), .pda seed =>
        match privatePdaByPosition accountIdentities position with
        | none => .error (.missingPrivatePdaWitness position)
        | some (npk, vpk, identifier) => do
          ensure (pre.accountId = forPrivatePda programId seed npk vpk identifier)
            (.invalidPrivatePdaClaim pre.accountId)
          let privatePdaBoundPositions ←
            bindPrivatePdaPosition state.privatePdaBoundPositions position programId seed
          let pdaFamilyBinding ←
            assertFamilyBinding state.pdaFamilyBinding programId seed pre.accountId
          pure ({ state with privatePdaBoundPositions, pdaFamilyBinding }, claimed)

/-- One account of `validate_and_sync_states`. -/
def syncAccount (accountIdentities : List InputAccountIdentity) (call : Call)
    (state : ExecutionState) (pair : AccountWithMetadata × AccountPostState) :
    Except Panic ExecutionState := do
  let state ← syncPreState accountIdentities call state pair.1
  let (state, account) ←
    claimPostState accountIdentities call.1.programId state pair.1 pair.2
  pure { state with postStates := state.postStates.insert pair.1.accountId account }

/-- `validate_and_sync_states`. -/
def validateAndSyncStates (accountIdentities : List InputAccountIdentity) (call : Call)
    (state : ExecutionState) (output : ProgramOutput) : Except Panic ExecutionState :=
  (output.preStates.zip output.postStates).foldlM (syncAccount accountIdentities call) state

/-! ### The walk over the calls -/

/-- The state of the walk and the outputs not used yet. -/
abbrev Progress := ExecutionState × List ProgramOutput

/-- Check an output against the call it is taken for. -/
def absorb (verify : ProgramId → ProgramOutput → Bool)
    (accountIdentities : List InputAccountIdentity) (progress : Progress) (call : Call)
    (output : ProgramOutput) : Except Panic Progress := do
  ensure (call.1.instructionData = output.instructionData) .mismatchedInstructionData
  ensure (verify call.1.programId output) .unverifiedProgramOutput
  ensure (output.selfProgramId = call.1.programId) .mismatchedSelfProgramId
  ensure (output.callerProgramId = call.2.programId) .mismatchedCallerProgramId
  (validateExecution output.preStates output.postStates call.1.programId).mapError
    fun error => .invalidProgramBehavior call.1.programId error
  let state ← validateAndSyncStates accountIdentities call progress.1 output
  pure (state, progress.2.tail)

/-- The loop over the calls of a transaction: the next output answers the next call. -/
def machine (verify : ProgramId → ProgramOutput → Bool)
    (accountIdentities : List InputAccountIdentity) :
    Machine Panic Progress Call ProgramOutput where
  answer progress _ :=
    match progress.2 with
    | [] => .error .insufficientProgramOutputs
    | output :: _ => .ok output
  absorb := absorb verify accountIdentities
  calls := nextCalls
  exhausted := .maxChainedCallsDepthExceeded

/-- The root call is read off the first output. -/
def initialCall (programId : ProgramId) (firstOutput : ProgramOutput) : Call :=
  ({ programId, preStates := firstOutput.preStates,
     instructionData := firstOutput.instructionData, pdaSeeds := [] },
   { programId := none, authorizedAccounts := ∅ })

def initialState (blockValidityWindow : ValidityWindow BlockId)
    (timestampValidityWindow : ValidityWindow Timestamp) : ExecutionState :=
  { preStates := [], postStates := ∅, blockValidityWindow, timestampValidityWindow,
    privatePdaBoundPositions := ∅, pdaFamilyBinding := ∅, globallyAuthorized := ∅ }

/-- The windows shared by all outputs, and nothing seen yet. -/
def startState (programOutputs : List ProgramOutput) : Except Panic ExecutionState :=
  match ValidityWindow.intersect (programOutputs.map (·.blockValidityWindow)) with
  | none => .error .emptyBlockValidityWindow
  | some blockValidityWindow =>
    match ValidityWindow.intersect (programOutputs.map (·.timestampValidityWindow)) with
    | none => .error .emptyTimestampValidityWindow
    | some timestampValidityWindow =>
      .ok (initialState blockValidityWindow timestampValidityWindow)

/-- Every private PDA has been bound to its keys. -/
def checkBound (accountIdentities : List InputAccountIdentity) (state : ExecutionState) :
    Except Panic Unit :=
  accountIdentities.zipIdx.forM fun (accountIdentity, position) =>
    ensure (accountIdentity.isPrivatePda → position ∈ state.privatePdaBoundPositions)
      (.unboundPrivatePda position)

/-- An account nobody owned before may only change by being claimed. -/
def checkClaimed (state : ExecutionState) : Except Panic Unit :=
  state.preStates.forM fun pre =>
    if pre.account.programOwner = defaultProgramOwner then
      match state.postStates.lookup pre.accountId with
      | none => .error (.missingPostState pre.accountId)
      | some post =>
        ensure (pre.account ≠ post → post.programOwner ≠ defaultProgramOwner)
          (.modifiedButNotClaimed pre.accountId)
    else .ok ()

/-- `ExecutionState::derive_from_outputs`. -/
def deriveFromOutputs (verify : ProgramId → ProgramOutput → Bool)
    (accountIdentities : List InputAccountIdentity) (programId : ProgramId)
    (programOutputs : List ProgramOutput) : Except Panic ExecutionState := do
  let start ← startState programOutputs
  match programOutputs with
  | [] => .error .noProgramOutputs
  | firstOutput :: _ => do
    let (state, leftover) ← (machine verify accountIdentities).run (maxNumberChainedCalls + 1)
      [initialCall programId firstOutput] (start, programOutputs)
    ensure (leftover = []) .leftoverProgramOutputs
    checkBound accountIdentities state
    checkClaimed state
    pure state

/-- The calls of the walk with the outputs taken for them, and their ancestors. -/
def callTree (verify : ProgramId → ProgramOutput → Bool)
    (accountIdentities : List InputAccountIdentity) (programId : ProgramId)
    (programOutputs : List ProgramOutput) : List (Visit Progress Call ProgramOutput) :=
  match startState programOutputs, programOutputs with
  | .ok start, firstOutput :: _ =>
    (machine verify accountIdentities).visits (maxNumberChainedCalls + 1)
      [(initialCall programId firstOutput, [])] (start, programOutputs)
  | _, _ => []

/-! ### What one round can do -/

/-- Everything the walk checks and does when it takes an output for a call. -/
structure Step (verify : ProgramId → ProgramOutput → Bool)
    (accountIdentities : List InputAccountIdentity) (progress : Progress) (call : Call)
    (output : ProgramOutput) (progress' : Progress) : Prop where
  taken : progress.2 = output :: progress'.2
  instructionData : output.instructionData = call.1.instructionData
  verified : verify call.1.programId output = true
  selfProgramId : output.selfProgramId = call.1.programId
  callerProgramId : output.callerProgramId = call.2.programId
  valid : validateExecution output.preStates output.postStates call.1.programId = .ok ()
  synced : validateAndSyncStates accountIdentities call progress.1 output = .ok progress'.1

theorem machine_serves {verify : ProgramId → ProgramOutput → Bool}
    {accountIdentities : List InputAccountIdentity} {progress progress' : Progress} {call : Call}
    {output : ProgramOutput} :
    (machine verify accountIdentities).Serves progress call output progress' ↔
      Step verify accountIdentities progress call output progress' := by
  obtain ⟨state, outputs⟩ := progress
  obtain ⟨state', outputs'⟩ := progress'
  constructor
  · rintro ⟨hanswer, h⟩
    rcases outputs with _ | ⟨first, rest⟩
    · exact absurd hanswer (by simp [machine])
    obtain rfl : first = output := ok.inj hanswer
    obtain ⟨hinstruction, h⟩ := ensure_bind_eq_ok.mp h
    obtain ⟨hverified, h⟩ := ensure_bind_eq_ok.mp h
    obtain ⟨hself, h⟩ := ensure_bind_eq_ok.mp h
    obtain ⟨hcaller, h⟩ := ensure_bind_eq_ok.mp h
    obtain ⟨_, hvalid, h⟩ := bind_eq_ok.mp h
    obtain ⟨synced, hsynced, h⟩ := bind_eq_ok.mp h
    obtain ⟨rfl, rfl⟩ : synced = state' ∧ rest = outputs' := by simpa using ok.inj h
    exact ⟨rfl, hinstruction.symm, hverified, hself, hcaller, mapError_eq_ok.mp hvalid, hsynced⟩
  · intro h
    obtain rfl : outputs = output :: outputs' := h.taken
    refine ⟨rfl, ?_⟩
    refine ensure_bind_eq_ok.mpr ⟨h.instructionData.symm, ?_⟩
    refine ensure_bind_eq_ok.mpr ⟨h.verified, ?_⟩
    refine ensure_bind_eq_ok.mpr ⟨h.selfProgramId, ?_⟩
    refine ensure_bind_eq_ok.mpr ⟨h.callerProgramId, ?_⟩
    refine bind_eq_ok.mpr ⟨(), mapError_eq_ok.mpr h.valid, ?_⟩
    exact bind_eq_ok.mpr ⟨state', h.synced, rfl⟩

end Circuit

end Lssa
