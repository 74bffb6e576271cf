/-
The private accounts of an accepted input.

`notesOf` reads the private accounts off an input, each with the position it has among the
accounts recorded.  The id of such an account is derived from the keys in its witness,
whichever kind of account it is (`Journal.derived`): the output phase checks it of a regular
account, and every private PDA is bound during the walk over the calls, to a program and a
seed that derive its id from the same keys.
-/
import Lssa.Circuit.Authority

open Outcome

namespace Lssa

namespace Circuit

variable [Sha256] {verify : ProgramId → ProgramOutput → Bool}
  {accountIdentities : List InputAccountIdentity} {programId : ProgramId}
  {programOutputs : List ProgramOutput} {state : ExecutionState}

/-- The private accounts of an input, with their positions. -/
def notesOf (verify : ProgramId → ProgramOutput → Bool) (input : PrivacyPreservingCircuitInput) :
    List (ℕ × Note) :=
  match deriveFromOutputs verify input.accountIdentities input.programId input.programOutputs with
  | .error _ => []
  | .ok state =>
    match statesOf state with
    | .error _ => []
    | .ok states => notesFrom 0 (input.accountIdentities.zip states)

variable {entry : ℕ × Note} {dummyInputs : List DummyInput}
  {states : List (AccountWithMetadata × Account)} {output : PrivacyPreservingCircuitOutput}

omit [Sha256] in
/-- A note stands where the accounts say it does. -/
theorem of_mem_notesFrom {start : ℕ}
    {accounts : List (InputAccountIdentity × AccountWithMetadata × Account)}
    (h : entry ∈ notesFrom start accounts) :
    ∃ i, entry.1 = start + i ∧
      accounts[i]? = some (.privateAccount entry.2.witness, entry.2.pre, entry.2.post) := by
  induction accounts generalizing start with
  | nil => exact absurd h (by simp [notesFrom])
  | cons account accounts ih =>
    have hlater : entry ∈ notesFrom (start + 1) accounts → ∃ i, entry.1 = start + i ∧
        (account :: accounts)[i]?
          = some (.privateAccount entry.2.witness, entry.2.pre, entry.2.post) := by
      intro hmem
      obtain ⟨i, hposition, hat⟩ := ih hmem
      exact ⟨i + 1, by omega, hat⟩
    obtain ⟨identity, pre, post⟩ := account
    cases identity with
    | publicAccount => exact hlater h
    | privateAccount witness =>
      rcases mem_cons.mp h with rfl | hrest
      · exact ⟨0, rfl, rfl⟩
      · exact hlater hrest

/-- A note of the journal has the identity and the account that stand at its position. -/
theorem Journal.at_position (journal : Journal state accountIdentities dummyInputs states output)
    (hentry : entry ∈ notesFrom 0 (accountIdentities.zip states)) :
    accountIdentities[entry.1]? = some (.privateAccount entry.2.witness) ∧
      state.preStates[entry.1]? = some entry.2.pre := by
  obtain ⟨i, hposition, hat⟩ := of_mem_notesFrom hentry
  rw [Nat.zero_add] at hposition
  rw [← hposition, List.getElem?_zip_eq_some] at hat
  refine ⟨hat.1, ?_⟩
  rw [← (statesOf_ok journal.rebuilt).1, getElem?_map, hat.2]
  rfl

omit [Sha256] in
/-- Every position witnessed as private is a note. -/
theorem exists_note (hlength : accountIdentities.length = state.preStates.length)
    (hstates : statesOf state = .ok states) {position : ℕ} {witness : PrivateWitness}
    (hidentity : accountIdentities[position]? = some (.privateAccount witness)) :
    ∃ pre post, (position, ⟨witness, pre, post⟩) ∈ notesFrom 0 (accountIdentities.zip states) ∧
      state.preStates[position]? = some pre := by
  have hpre := (statesOf_ok hstates).1
  have hlt : position < states.length := by
    rw [← length_map Prod.fst, hpre, ← hlength]
    exact (getElem?_eq_some_iff.mp hidentity).1
  have hstate := getElem?_eq_getElem hlt
  refine ⟨states[position].1, states[position].2, ?_, ?_⟩
  · have hat : (accountIdentities.zip states)[position]?
        = some (.privateAccount witness, states[position].1, states[position].2) :=
      List.getElem?_zip_eq_some.mpr ⟨hidentity, hstate⟩
    have hnote := mem_notesFrom_of_getElem? 0 hat
    rwa [Nat.zero_add] at hnote
  · rw [← hpre, getElem?_map, hstate]
    rfl

/-- **Private accounts belong to the keys in their witness.**  The kind that is written for
an account derives its id. -/
theorem Journal.derived
    (hderive : deriveFromOutputs verify accountIdentities programId programOutputs = .ok state)
    (journal : Journal state accountIdentities dummyInputs states output)
    (hentry : entry ∈ notesFrom 0 (accountIdentities.zip states)) :
    ∃ kind, noteKind state.privatePdaBoundPositions entry.1 entry.2 = some kind ∧
      forPrivateAccount entry.2.witness.nullifier.npk entry.2.witness.vpk kind
        = entry.2.pre.accountId := by
  obtain ⟨hidentity, hpre⟩ := journal.at_position hentry
  obtain ⟨position, ⟨⟨vpk, randomSeed, identifier, witnessKind, nullifier⟩, pre, post⟩⟩ := entry
  cases witnessKind with
  | regular ask =>
    have hregular := (journal.checked _ hentry).regular ask rfl
    exact ⟨.regular identifier, rfl, (ensure_bind_eq_ok.mp hregular).1⟩
  | pda external =>
    have hkeys : privatePdaByPosition accountIdentities position
        = some (nullifier.npk, vpk, identifier) := by
      rw [privatePdaByPosition, hidentity]
      rfl
    -- the walk ends with every private PDA bound
    obtain ⟨-, -, -, hbound, -⟩ := deriveFromOutputs_ok hderive
    have hround := forM_eq_ok.mp hbound (.privateAccount _, position)
      (List.mem_zipIdx_iff_getElem?.mpr hidentity)
    obtain ⟨binding, hbinding⟩ := isSome_iff_exists.mp
      (lookup_isSome.mpr (ensure_eq_ok.mp hround rfl))
    obtain ⟨keys, recorded, hkeys', hrecorded, hderives⟩ :=
      (deriveFromOutputs_records hderive).bound position binding hbinding
    obtain rfl := some.inj (hkeys.symm.trans hkeys')
    obtain rfl := some.inj (hpre.symm.trans hrecorded)
    exact ⟨.pda binding.1 binding.2 identifier, by simp only [noteKind, hbinding, map_some],
      hderives⟩

variable [MlKem] [ChaCha20]

theorem main_ok {input : PrivacyPreservingCircuitInput} (h : main verify input = .ok output) :
    ∃ state states,
      deriveFromOutputs verify input.accountIdentities input.programId input.programOutputs
          = .ok state ∧
        computeCircuitOutput state input.accountIdentities input.dummyInputs = .ok output ∧
        Journal state input.accountIdentities input.dummyInputs states output ∧
        notesOf verify input = notesFrom 0 (input.accountIdentities.zip states) := by
  obtain ⟨state, hderive, houtput⟩ := bind_eq_ok.mp h
  obtain ⟨states, journal⟩ := computeCircuitOutput_ok houtput
  refine ⟨state, states, hderive, houtput, journal, ?_⟩
  simp only [notesOf, hderive, journal.rebuilt]

end Circuit

end Lssa
