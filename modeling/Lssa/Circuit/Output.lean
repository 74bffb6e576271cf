/-
The journal of the privacy circuit.

`compute_circuit_output` (`lee/privacy_preserving_circuit/src/output.rs`) turns the
execution state into what the verifier sees.  A public account is shown with its state
before and after.  A private one becomes a `PrivateAction`: a nullifier for the state
before, a commitment to the state after, and the note that carries it.  Dummies are
added, and commitments and nullifiers are sorted apart from each other.

`Note` is a private account of the transaction.  `noteNullifier` and `noteCommitment`
are what it emits, and `computeCircuitOutput_ok` says that the journal emits exactly
these and the dummies', in some order.
-/
import Mathlib.Data.List.Sort
import Lssa.Circuit.ExecutionState
import Lssa.Encryption

open Outcome
open Ledger (Map)
open List (map_fst_zip map_snd_zip)

namespace Lssa

structure DummyInput where
  nullifierSeed : Bytes 32
  commitmentSeed : Bytes 32
  note : EncryptedAccountData
  commitmentRoot : CommitmentSetDigest
  deriving DecidableEq

structure PrivateAction where
  nullifier : Nullifier
  root : CommitmentSetDigest
  commitment : Commitment
  encryptedPostState : EncryptedAccountData
  deriving DecidableEq

structure PublicAction where
  pre : AccountWithMetadata
  post : Account
  deriving DecidableEq

structure PrivacyPreservingCircuitOutput where
  publicActions : List PublicAction
  privateActions : List PrivateAction
  blockValidityWindow : ValidityWindow BlockId
  timestampValidityWindow : ValidityWindow Timestamp
  deriving DecidableEq

structure PrivacyPreservingCircuitInput where
  programOutputs : List ProgramOutput
  accountIdentities : List InputAccountIdentity
  programId : ProgramId
  dummyInputs : List DummyInput
  deriving DecidableEq

namespace Circuit

variable [Sha256]

/-! ### Private accounts -/

/-- A private account of a transaction: its witness and its states before and after. -/
structure Note where
  witness : PrivateWitness
  pre : AccountWithMetadata
  post : Account
  deriving DecidableEq

/-- The nullifier an account emits for its state before, and the root it refers to. -/
def noteNullifier (note : Note) : Nullifier × CommitmentSetDigest :=
  match note.witness.nullifier with
  | .init _ commitmentRoot =>
    (Nullifier.forAccountInitialization note.pre.accountId, commitmentRoot)
  | .update _ nsk membershipProof =>
    let commitmentPre := Commitment.new note.pre.accountId note.pre.account
    (Nullifier.forAccountUpdate commitmentPre nsk,
      computeDigestForPath commitmentPre membershipProof)

/-- The nonce an account gets. -/
def noteNonce (note : Note) : Nonce :=
  match note.witness.nullifier with
  | .init _ _ => Nonce.privateAccountNonceInit note.pre.accountId
  | .update _ nsk _ => note.pre.account.nonce.privateAccountNonceIncrement nsk

/-- The account as it is committed to. -/
def noteAccount (note : Note) : Account := { note.post with nonce := noteNonce note }

/-- The commitment an account emits for its state after. -/
def noteCommitment (note : Note) : Commitment :=
  Commitment.new note.pre.accountId (noteAccount note)

def noteViewTag (note : Note) : ViewTag :=
  match note.witness.nullifier with
  | .init npk _ => computeViewTag npk note.witness.vpk
  | .update viewTag _ _ => viewTag

/-- A regular account belongs to the keys supplied, and is authorized exactly when its
authorization key is supplied too. -/
def checkRegular (note : Note) (ask : Option AuthorizationSecretKey) : Except Panic Unit := do
  let witness := note.witness
  ensure (forRegularPrivateAccount witness.nullifier.npk witness.vpk witness.identifier
      = note.pre.accountId) (.accountIdMismatch note.pre.accountId)
  match ask with
  | none => .ok ()
  | some ask =>
    match witness.nullifier with
    | .update _ nsk _ =>
      ensure (ask.nullifierSecretKey = nsk)
        (.authorizationKeyDoesNotDeriveSecretKey note.pre.accountId)
    | .init npk _ =>
      ensure (NullifierPublicKey.ofSecretKey ask.nullifierSecretKey = npk)
        (.authorizationKeyDoesNotDerivePublicKey note.pre.accountId)
  ensure (note.pre.isAuthorized = ask.isSome) (.regularAuthorizationMismatch note.pre.accountId)

/-- An account that is created must not exist yet. -/
def checkInit (note : Note) : Except Panic Unit :=
  match note.witness.nullifier with
  | .init _ _ =>
    ensure (note.pre.account = .default) (.initRequiresDefaultPreState note.pre.accountId)
  | .update _ _ _ => .ok ()

variable [MlKem] [ChaCha20]

/-- `emit_private_output`. -/
def emitPrivateOutput (note : Note) (kind : PrivateAccountKind) : Except Panic PrivateAction :=
  let esk := ephemeralSecretKey note.pre.accountId note.witness.randomSeed (noteNonce note)
  match MlKem.encapsulateDeterministic note.witness.vpk esk with
  | none => .error .invalidEncapsulationKey
  | some (sharedSecret, epk) =>
    .ok
      { nullifier := (noteNullifier note).1
        root := (noteNullifier note).2
        commitment := noteCommitment note
        encryptedPostState :=
          { ciphertext := encrypt (noteAccount note) kind ⟨sharedSecret⟩ (noteNullifier note).1
            epk := ⟨epk⟩
            viewTag := noteViewTag note } }

/-- The action of a private account at a position. -/
def privateAction (pdaSeedByPosition : Map ℕ (ProgramId × PdaSeed)) (position : ℕ)
    (note : Note) : Except Panic PrivateAction := do
  match note.witness.kind with
  | .regular ask => do
    checkRegular note ask
    checkInit note
    emitPrivateOutput note (.regular note.witness.identifier)
  | .pda _ => do
    checkInit note
    match pdaSeedByPosition.lookup position with
    | none => .error (.missingPdaSeed position)
    | some (authorityProgramId, seed) =>
      emitPrivateOutput note (.pda authorityProgramId seed note.witness.identifier)

/-- `emit_dummy_output`. -/
def dummyAction (dummy : DummyInput) : PrivateAction :=
  let nullifier := Nullifier.forDummy dummy.nullifierSeed
  { nullifier
    root := dummy.commitmentRoot
    commitment := Commitment.forDummy nullifier dummy.commitmentSeed
    encryptedPostState := dummy.note }

/-! ### The journal -/

/-- The accounts of the transaction, each with its state before and after. -/
def statesOf (state : ExecutionState) : Except Panic (List (AccountWithMetadata × Account)) :=
  state.preStates.mapM fun pre =>
    match state.postStates.lookup pre.accountId with
    | none => .error (.missingPostState pre.accountId)
    | some post => .ok (pre, post)

/-- The accounts that are shown. -/
def publicActionsOf :
    List (InputAccountIdentity × AccountWithMetadata × Account) → List PublicAction
  | [] => []
  | (.publicAccount, pre, post) :: rest => ⟨pre, post⟩ :: publicActionsOf rest
  | (.privateAccount _, _, _) :: rest => publicActionsOf rest

/-- The accounts that are hidden, with their positions. -/
def notesFrom (position : ℕ) :
    List (InputAccountIdentity × AccountWithMetadata × Account) → List (ℕ × Note)
  | [] => []
  | (.publicAccount, _, _) :: rest => notesFrom (position + 1) rest
  | (.privateAccount witness, pre, post) :: rest =>
    (position, ⟨witness, pre, post⟩) :: notesFrom (position + 1) rest

/-- `obfuscate_output_ordering`: actions in the order of their nullifiers, commitments
in their own order. -/
def obfuscateOutputOrdering (actions : List PrivateAction) : List PrivateAction :=
  let commitments := (actions.map (·.commitment)).mergeSort
    fun a b => decide (a.value.toList ≤ b.value.toList)
  let sorted := actions.mergeSort
    fun a b => decide (a.nullifier.value.toList ≤ b.nullifier.value.toList)
  (sorted.zip commitments).map fun (action, commitment) => { action with commitment }

/-- `compute_circuit_output`. -/
def computeCircuitOutput (state : ExecutionState)
    (accountIdentities : List InputAccountIdentity) (dummyInputs : List DummyInput) :
    Except Panic PrivacyPreservingCircuitOutput := do
  ensure (accountIdentities.length = state.preStates.length) .invalidAccountIdentitiesLength
  let states ← statesOf state
  let accounts := accountIdentities.zip states
  let privateActions ← (notesFrom 0 accounts).mapM fun (position, note) =>
    privateAction state.privatePdaBoundPositions position note
  pure
    { publicActions := publicActionsOf accounts
      privateActions :=
        obfuscateOutputOrdering (privateActions ++ dummyInputs.map dummyAction)
      blockValidityWindow := state.blockValidityWindow
      timestampValidityWindow := state.timestampValidityWindow }

/-- `main`: the journal of a transaction. -/
def main (verify : ProgramId → ProgramOutput → Bool) (input : PrivacyPreservingCircuitInput) :
    Except Panic PrivacyPreservingCircuitOutput := do
  let executionState ←
    deriveFromOutputs verify input.accountIdentities input.programId input.programOutputs
  computeCircuitOutput executionState input.accountIdentities input.dummyInputs

/-! ### What the journal says -/

/-- What is checked of a private account before its action is emitted. -/
structure CheckedNote (note : Note) : Prop where
  regular : ∀ ask, note.witness.kind = .regular ask → checkRegular note ask = .ok ()
  init : checkInit note = .ok ()

/-- The kind that is written into the ciphertext of an account. -/
def noteKind (pdaSeedByPosition : Map ℕ (ProgramId × PdaSeed)) (position : ℕ)
    (note : Note) : Option PrivateAccountKind :=
  match note.witness.kind with
  | .regular _ => some (.regular note.witness.identifier)
  | .pda _ => (pdaSeedByPosition.lookup position).map fun binding =>
    .pda binding.1 binding.2 note.witness.identifier

/-- The action nullifies the account and carries its new state to the owner. -/
structure Carries (note : Note) (kind : PrivateAccountKind) (action : PrivateAction) : Prop where
  nullifier : (action.nullifier, action.root) = noteNullifier note
  encrypted : ∃ sharedSecret epk,
    MlKem.encapsulateDeterministic note.witness.vpk
        (ephemeralSecretKey note.pre.accountId note.witness.randomSeed (noteNonce note))
      = some (sharedSecret, epk) ∧
    action.encryptedPostState =
      { ciphertext := encrypt (noteAccount note) kind ⟨sharedSecret⟩ (noteNullifier note).1
        epk := ⟨epk⟩
        viewTag := noteViewTag note }

variable {action : PrivateAction} {state : ExecutionState}
  {accountIdentities : List InputAccountIdentity} {dummyInputs : List DummyInput}
  {output : PrivacyPreservingCircuitOutput} {states : List (AccountWithMetadata × Account)}
  {pre : AccountWithMetadata} {post : Account}
  {accounts : List (InputAccountIdentity × AccountWithMetadata × Account)}

theorem emitPrivateOutput_ok {note : Note} {kind : PrivateAccountKind}
    (h : emitPrivateOutput note kind = .ok action) :
    Carries note kind action ∧ action.commitment = noteCommitment note := by
  unfold emitPrivateOutput at h
  simp only at h
  split at h
  · cases h
  · rename_i sharedSecret epk hencapsulate
    rw [← ok.inj h]
    exact ⟨⟨rfl, sharedSecret, epk, hencapsulate, rfl⟩, rfl⟩

theorem privateAction_ok {pdaSeedByPosition : Map ℕ (ProgramId × PdaSeed)} {position : ℕ}
    {note : Note} (h : privateAction pdaSeedByPosition position note = .ok action) :
    (∃ kind, noteKind pdaSeedByPosition position note = some kind ∧ Carries note kind action) ∧
      action.commitment = noteCommitment note ∧ CheckedNote note := by
  unfold privateAction at h
  cases hkind : note.witness.kind with
  | regular ask =>
    simp only [hkind] at h
    obtain ⟨_, hregular, h⟩ := bind_eq_ok.mp h
    obtain ⟨_, hinit, h⟩ := bind_eq_ok.mp h
    obtain ⟨hcarries, hcommitment⟩ := emitPrivateOutput_ok h
    refine ⟨⟨_, by simp only [noteKind, hkind], hcarries⟩, hcommitment, ?_, hinit⟩
    intro ask' hask'
    obtain rfl : ask = ask' := WitnessKind.regular.inj (hkind.symm.trans hask')
    exact hregular
  | pda binding =>
    simp only [hkind] at h
    obtain ⟨_, hinit, h⟩ := bind_eq_ok.mp h
    split at h
    · cases h
    · rename_i hseed
      obtain ⟨hcarries, hcommitment⟩ := emitPrivateOutput_ok h
      refine ⟨⟨_, by simp only [noteKind, hkind, hseed, map_some], hcarries⟩,
        hcommitment, ?_, hinit⟩
      intro ask hask
      exact absurd (hkind.symm.trans hask) (by simp)

/-- What sorting leaves together in an action. -/
def PrivateAction.carried (action : PrivateAction) :
    Nullifier × CommitmentSetDigest × EncryptedAccountData :=
  (action.nullifier, action.root, action.encryptedPostState)

/-- The actions in the order of their nullifiers. -/
def byNullifier (actions : List PrivateAction) : List PrivateAction :=
  actions.mergeSort fun a b => decide (a.nullifier.value.toList ≤ b.nullifier.value.toList)

/-- The commitments in their own order. -/
def byValue (commitments : List Commitment) : List Commitment :=
  commitments.mergeSort fun a b => decide (a.value.toList ≤ b.value.toList)

section

omit [Sha256] [MlKem] [ChaCha20]

variable (actions : List PrivateAction)

theorem length_byValue :
    (byValue (actions.map (·.commitment))).length = (byNullifier actions).length := by
  simp [byValue, byNullifier]

/-- Sorting keeps everything but the commitment of an action. -/
theorem obfuscateOutputOrdering_carried :
    (obfuscateOutputOrdering actions).map PrivateAction.carried
      = (byNullifier actions).map PrivateAction.carried := by
  conv_rhs => rw [← map_fst_zip (length_byValue actions).ge, map_map]
  rw [obfuscateOutputOrdering, map_map]
  rfl

theorem obfuscateOutputOrdering_commitments :
    (obfuscateOutputOrdering actions).map (·.commitment)
      = byValue (actions.map (·.commitment)) := by
  rw [obfuscateOutputOrdering, map_map]
  exact map_snd_zip (length_byValue actions).le

theorem obfuscateOutputOrdering_perm :
    ((obfuscateOutputOrdering actions).map PrivateAction.carried).Perm
        (actions.map PrivateAction.carried) ∧
      ((obfuscateOutputOrdering actions).map (·.commitment)).Perm (actions.map (·.commitment)) := by
  rw [obfuscateOutputOrdering_carried, obfuscateOutputOrdering_commitments]
  exact ⟨(List.mergeSort_perm _ _).map _, List.mergeSort_perm _ _⟩

theorem mem_obfuscateOutputOrdering (h : action ∈ actions) :
    ∃ commitment, { action with commitment } ∈ obfuscateOutputOrdering actions := by
  have hcarried := (obfuscateOutputOrdering_perm actions).1.mem_iff.mpr (mem_map_of_mem h)
  obtain ⟨other, hother, heq⟩ := mem_map.mp hcarried
  obtain ⟨hnullifier, hroot, hnote⟩ := by simpa [PrivateAction.carried] using heq
  rw [← hnullifier, ← hroot, ← hnote]
  exact ⟨other.commitment, hother⟩

end

/-- **What the journal says.**  It shows the public accounts as they are; its nullifiers
and its commitments are those of the private accounts and of the dummies, each in some
order. -/
structure Journal (state : ExecutionState) (accountIdentities : List InputAccountIdentity)
    (dummyInputs : List DummyInput) (states : List (AccountWithMetadata × Account))
    (output : PrivacyPreservingCircuitOutput) : Prop where
  length_eq : accountIdentities.length = state.preStates.length
  rebuilt : statesOf state = .ok states
  publicActions : output.publicActions = publicActionsOf (accountIdentities.zip states)
  nullifiers : (output.privateActions.map fun action => (action.nullifier, action.root)).Perm
    (((notesFrom 0 (accountIdentities.zip states)).map fun entry => noteNullifier entry.2) ++
      dummyInputs.map fun dummy => ((dummyAction dummy).nullifier, (dummyAction dummy).root))
  commitments : (output.privateActions.map (·.commitment)).Perm
    (((notesFrom 0 (accountIdentities.zip states)).map fun entry => noteCommitment entry.2) ++
      dummyInputs.map fun dummy => (dummyAction dummy).commitment)
  checked : ∀ entry ∈ notesFrom 0 (accountIdentities.zip states), CheckedNote entry.2

section

variable (h : computeCircuitOutput state accountIdentities dummyInputs = .ok output)

include h

theorem computeCircuitOutput_ok :
    ∃ states, Journal state accountIdentities dummyInputs states output := by
  obtain ⟨hlen, h⟩ := ensure_bind_eq_ok.mp h
  obtain ⟨states, hstates, h⟩ := bind_eq_ok.mp h
  obtain ⟨actions, hactions, h⟩ := bind_eq_ok.mp h
  have hforall := mapM_eq_ok.mp hactions
  rw [List.forall₂_iff_zip] at hforall
  obtain ⟨hlength, hzip⟩ := hforall
  set notes := notesFrom 0 (accountIdentities.zip states) with hnotes
  have hnullifiers :
      (actions.map PrivateAction.carried).map (fun carried => (carried.1, carried.2.1))
        = notes.map fun entry => noteNullifier entry.2 := by
    rw [map_map]
    conv_lhs => rw [← map_snd_zip hlength.ge, map_map]
    conv_rhs => rw [← map_fst_zip hlength.le, map_map]
    refine map_congr_left fun pair hpair => ?_
    obtain ⟨⟨kind, -, hcarries⟩, -⟩ := privateAction_ok (hzip hpair)
    exact hcarries.nullifier
  have hcommitments : (actions.map (·.commitment))
      = notes.map fun entry => noteCommitment entry.2 := by
    conv_lhs => rw [← map_snd_zip hlength.ge, map_map]
    conv_rhs => rw [← map_fst_zip hlength.le, map_map]
    exact map_congr_left fun pair hpair => (privateAction_ok (hzip hpair)).2.1
  obtain ⟨hpermNullifiers, hpermCommitments⟩ :=
    obfuscateOutputOrdering_perm (actions ++ dummyInputs.map dummyAction)
  replace hpermNullifiers := hpermNullifiers.map fun carried => (carried.1, carried.2.1)
  rw [map_append, map_append, hnullifiers, map_map, map_map, map_map] at hpermNullifiers
  rw [map_append, map_map] at hpermCommitments
  rw [hcommitments] at hpermCommitments
  rw [← ok.inj h]
  refine ⟨states, hlen, hstates, rfl, hpermNullifiers, hpermCommitments, ?_⟩
  intro entry hentry
  rw [← hnotes, ← map_fst_zip hlength.le] at hentry
  obtain ⟨pair, hpair, rfl⟩ := mem_map.mp hentry
  exact (privateAction_ok (hzip hpair)).2.2

/-- The journal carries every private account, with its kind. -/
theorem computeCircuitOutput_carries (hstates : statesOf state = .ok states) {entry : ℕ × Note}
    (hentry : entry ∈ notesFrom 0 (accountIdentities.zip states)) :
    ∃ kind, noteKind state.privatePdaBoundPositions entry.1 entry.2 = some kind ∧
      ∃ action ∈ output.privateActions, Carries entry.2 kind action := by
  obtain ⟨-, h⟩ := ensure_bind_eq_ok.mp h
  obtain ⟨states', hstates', h⟩ := bind_eq_ok.mp h
  obtain rfl := ok.inj (hstates.symm.trans hstates')
  obtain ⟨actions, hactions, h⟩ := bind_eq_ok.mp h
  obtain ⟨hlength, hzip⟩ := List.forall₂_iff_zip.mp (mapM_eq_ok.mp hactions)
  rw [← map_fst_zip hlength.le] at hentry
  obtain ⟨⟨_, action⟩, hpair, rfl⟩ := mem_map.mp hentry
  obtain ⟨⟨kind, hkind, hcarries⟩, -⟩ := privateAction_ok (hzip hpair)
  obtain ⟨commitment, hmem⟩ := mem_obfuscateOutputOrdering _
    (mem_append_left (dummyInputs.map dummyAction) (of_mem_zip hpair).2)
  rw [← ok.inj h]
  exact ⟨kind, hkind, _, hmem, hcarries.nullifier, hcarries.encrypted⟩

end

/-! ### The accounts of the journal -/

section

omit [Sha256] [MlKem] [ChaCha20]

theorem statesOf_ok (h : statesOf state = .ok states) :
    states.map Prod.fst = state.preStates ∧
      ∀ account ∈ states, state.postStates.lookup account.1.accountId = some account.2 := by
  have hforall := mapM_eq_ok.mp h
  rw [List.forall₂_iff_zip] at hforall
  obtain ⟨hlen, hzip⟩ := hforall
  have hpair : ∀ {pre account}, (pre, account) ∈ state.preStates.zip states →
      account.1 = pre ∧ state.postStates.lookup account.1.accountId = some account.2 := by
    intro pre account hmem
    have hround := hzip hmem
    split at hround
    · cases hround
    · rename_i hlook
      cases hround
      exact ⟨rfl, hlook⟩
  constructor
  · conv_lhs => rw [← map_snd_zip hlen.ge, map_map]
    conv_rhs => rw [← map_fst_zip hlen.le]
    exact map_congr_left fun pair hmem => (hpair hmem).1
  · intro account haccount
    rw [← map_snd_zip hlen.ge] at haccount
    obtain ⟨pair, hmem, rfl⟩ := mem_map.mp haccount
    exact (hpair hmem).2

theorem mem_publicActionsOf (h : (.publicAccount, pre, post) ∈ accounts) :
    ⟨pre, post⟩ ∈ publicActionsOf accounts := by
  induction accounts with
  | nil => cases h
  | cons account accounts ih =>
    obtain ⟨identity, pre', post'⟩ := account
    rcases mem_cons.mp h with heq | hrest
    · obtain ⟨rfl, rfl, rfl⟩ := by simpa using heq
      exact mem_cons_self
    · cases identity with
      | publicAccount => exact mem_cons_of_mem _ (ih hrest)
      | privateAccount witness => exact ih hrest

theorem of_mem_publicActionsOf {action : PublicAction} (h : action ∈ publicActionsOf accounts) :
    (.publicAccount, action.pre, action.post) ∈ accounts := by
  induction accounts with
  | nil => exact absurd h (by simp [publicActionsOf])
  | cons account accounts ih =>
    obtain ⟨identity, pre, post⟩ := account
    cases identity with
    | publicAccount =>
      rcases mem_cons.mp h with rfl | hrest
      · exact mem_cons_self
      · exact mem_cons_of_mem _ (ih hrest)
    | privateAccount witness => exact mem_cons_of_mem _ (ih h)

/-- A private account among the accounts is a note, at its position. -/
theorem mem_notesFrom_of_getElem? {witness : PrivateWitness} (start : ℕ) {i : ℕ}
    (h : accounts[i]? = some (.privateAccount witness, pre, post)) :
    (start + i, ⟨witness, pre, post⟩) ∈ notesFrom start accounts := by
  induction accounts generalizing start i with
  | nil => cases h
  | cons account accounts ih =>
    obtain ⟨identity, pre', post'⟩ := account
    cases i with
    | zero =>
      obtain ⟨rfl, rfl, rfl⟩ := by simpa using h
      exact mem_cons_self
    | succ i =>
      have hrest := ih (start + 1) (i := i) (by simpa using h)
      rw [Nat.add_right_comm] at hrest
      cases identity with
      | publicAccount => exact hrest
      | privateAccount witness' => exact mem_cons_of_mem _ hrest

end

end Circuit

end Lssa
