/-
Authority cannot be forged in the privacy circuit.

The circuit learns who signed only from its own journal: an account that is flagged the
first time it is seen, and is no PDA that the caller delegates, is authorized everywhere
(`globallyAuthorized`) and recorded as such, for the verifier to demand a signature or,
if it is private, for the output phase to demand its authorization key.  PDAs are
authorized along the path of their seeds only.

Flags are judged when an account is synced, and what a position means is settled only by
the journal, so everything is compared with the final state: the state of the walk only
ever `Extends`.  `Step.honest` brings the walk under the rules of `CallTree`, and
`RecordsGlobal` and `RecordsBound` say what the final state knows about an account.
-/
import Lssa.Circuit.Conservation

open Outcome DepthFirst

namespace Lssa

namespace Circuit

section

variable [Sha256] {accountIdentities : List InputAccountIdentity} {call : Call}
  {state state' final : ExecutionState} {pre : AccountWithMetadata} {post : AccountPostState}

/-! ### Honest outputs -/

/-- Some receipt attests the output. -/
def Ran (verify : ProgramId → ProgramOutput → Bool) (entry : Entry) : Prop :=
  verify entry.1.1.programId entry.2 = true

/-- The issuer's seed derives the account, as a public PDA or under the keys supplied for
it. -/
def Derives (accountIdentities : List InputAccountIdentity) (final : ExecutionState)
    (accountId : AccountId) (issuer : ProgramId) (seed : PdaSeed) : Prop :=
  DerivesPublic accountId issuer seed ∨
    ∃ position keys, final.position accountId = some position ∧
      privatePdaByPosition accountIdentities position = some keys ∧
      DerivesPrivate keys accountId issuer seed

variable {position : ℕ} {recorded : AccountWithMetadata}

theorem Authorizes.sources (hposition : final.position pre.accountId = some position)
    (hglobal : state.globallyAuthorized ⊆ final.globallyAuthorized)
    (h : Authorizes accountIdentities call state pre.accountId position) :
    pre.accountId ∈ final.globallyAuthorized ∨ pre.accountId ∈ call.2.authorizedAccounts ∨
      Seeded (Derives accountIdentities final pre.accountId) call := by
  rcases h with ⟨issuer, hissuer, seed, hseed, hderives⟩ |
      ⟨keys, hkeys, issuer, hissuer, seed, hseed, hderives⟩ | hmem | hmem
  · exact .inr (.inr ⟨issuer, hissuer, seed, hseed, .inl hderives⟩)
  · exact .inr (.inr ⟨issuer, hissuer, seed, hseed,
      .inr ⟨position, keys, hposition, hkeys, hderives⟩⟩)
  · exact .inl (hglobal hmem)
  · exact .inr (.inl hmem)

section

variable (hwf : WellFormed state) (h : Sighting accountIdentities call state pre position state')

include hwf h

/-- Where the flag of an account comes from. -/
theorem Sighting.sources (hfinal : Extends state' final) (hflag : pre.isAuthorized = true) :
    pre.accountId ∈ final.globallyAuthorized ∨ pre.accountId ∈ call.2.authorizedAccounts ∨
      Seeded (Derives accountIdentities final pre.accountId) call := by
  have hposition := hfinal.position_eq (h.position_eq hwf)
  have hglobal := h.global_subset.trans hfinal.global
  cases h with
  | known _ _ flag _ _ | witnessed _ _ _ flag _ _ => exact (flag.mp hflag).sources hposition hglobal
  | delegated _ _ _ seeded _ _ _ =>
    obtain ⟨issuer, hissuer, seed, hseed, hderives⟩ := seeded
    exact .inr (.inr ⟨issuer, hissuer, seed, hseed, .inl hderives⟩)
  | plain _ _ _ _ _ global =>
    rw [if_pos hflag] at global
    exact .inl (hfinal.global (global ▸ Finset.mem_insert_self _ _))

/-- An account that is authorized for the issuer of a call has been recorded, so its flag
is judged and not taken as given. -/
theorem Sighting.inherits (hmem : pre.accountId ∈ call.2.authorizedAccounts)
    (hrecorded : pre.accountId ∈ state.preStates.map (·.accountId)) :
    pre.isAuthorized = true := by
  have hauthorizes : Authorizes accountIdentities call state pre.accountId position :=
    .inr (.inr (.inr hmem))
  cases h with
  | known _ _ flag _ _ | witnessed _ _ _ flag _ _ => exact flag.mpr hauthorizes
  | delegated _ _ _ _ flag _ _ => exact flag
  | plain lookup _ _ _ _ _ =>
    exact absurd ((hwf.mem_iff _).mpr hrecorded) (lookup_eq_none.mp lookup)

end

theorem Step.honest {verify : ProgramId → ProgramOutput → Bool} {progress progress' : Progress}
    {output : ProgramOutput} (h : Step verify accountIdentities progress call output progress')
    (hwf : WellFormed progress.1) (hfinal : Extends progress'.1 final)
    (hrecorded : ∀ accountId ∈ call.2.authorizedAccounts,
      accountId ∈ progress.1.preStates.map (·.accountId)) :
    Honest (Ran verify) (Derives accountIdentities final) (· ∈ final.globallyAuthorized)
      (call, output) := by
  refine ⟨h.verified, ?_, ?_⟩
  · rintro accountId ⟨pre, hpre, rfl, hflag⟩
    obtain ⟨post, hmem⟩ := (validateExecution_ok h.valid).exists_post hpre
    obtain ⟨mid, mid', hmid, hsynced, hmid'⟩ := validateAndSyncStates_round h.synced hmem
    obtain ⟨position, hsighting⟩ := hsynced.sighting
    exact hsighting.sources (hmid.wellFormed hwf) (hmid'.trans hfinal) hflag
  · rintro accountId hmem ⟨pre, hpre, rfl⟩
    obtain ⟨post, hpair⟩ := (validateExecution_ok h.valid).exists_post hpre
    obtain ⟨mid, mid', hmid, hsynced, -⟩ := validateAndSyncStates_round h.synced hpair
    obtain ⟨position, hsighting⟩ := hsynced.sighting
    refine ⟨pre, hpre, rfl, hsighting.inherits (hmid.wellFormed hwf) hmem ?_⟩
    exact (hmid.preStates.map _).subset (hrecorded pre.accountId hmem)

/-! ### The calls of an accepted input -/

variable {verify : ProgramId → ProgramOutput → Bool} {programId : ProgramId}
  {programOutputs : List ProgramOutput} {v : Visit Progress Call ProgramOutput}

/-- Accounts authorized for the issuer of a call are recorded when the call is served. -/
theorem callTree_recorded (hv : v ∈ callTree verify accountIdentities programId programOutputs) :
    WellFormed v.before.1 ∧ ∀ accountId ∈ v.call.2.authorizedAccounts,
      accountId ∈ v.before.1.preStates.map (·.accountId) := by
  unfold callTree at hv
  split at hv
  · rename_i hstart
    obtain ⟨block, time, rfl, -⟩ := startState_ok hstart
    obtain ⟨others, hwf, hrecorded⟩ := Machine.visits_invariant
      (I := fun work progress => WellFormed progress.1 ∧ ∀ w ∈ work,
        ∀ accountId ∈ w.1.2.authorizedAccounts, accountId ∈ progress.1.preStates.map (·.accountId))
      (by
        rintro progress call path output progress' work hserves ⟨hwf, hwork⟩
        have hstep := machine_serves.mp hserves
        have hkeep := fun accountId hmem => (hstep.extends.preStates.map (·.accountId)).subset
          (a := accountId) hmem
        refine ⟨hstep.extends.wellFormed hwf, fun w hw accountId hmem => ?_⟩
        rcases mem_append.mp hw with hchild | hold
        · obtain ⟨next, hnext, rfl⟩ := mem_map.mp hchild
          obtain ⟨newCall, -, rfl⟩ := mem_map.mp hnext
          rcases mem_authorizedBelow.mp hmem with hinherited | ⟨pre, hpre, rfl, -⟩
          · exact hkeep _ (hwork _ mem_cons_self _ hinherited)
          · exact hstep.recorded hpre
        · exact hkeep _ (hwork w (mem_cons_of_mem _ hold) accountId hmem))
      ⟨wellFormed_initialState block time, by
        intro w hw accountId hmem
        rw [mem_singleton] at hw
        subst hw
        exact absurd hmem (by simp [initialCall])⟩ hv
    exact ⟨hwf, hrecorded _ mem_cons_self⟩
  · cases hv

section

variable (h : deriveFromOutputs verify accountIdentities programId programOutputs = .ok final)
  (hv : v ∈ callTree verify accountIdentities programId programOutputs)

include h hv

theorem callTree_extends :
    Extends v.after.1 final := by
  obtain ⟨start, -, hthreads, -⟩ := deriveFromOutputs_ok h
  exact hthreads.advances (R := fun s t => Extends s.1 t.1) (fun s => Extends.refl s.1)
    Extends.trans (fun w hw => (callTree_step hw).extends) hv

theorem callTree_honest :
    Honest (Ran verify) (Derives accountIdentities final) (· ∈ final.globallyAuthorized)
      v.entry := by
  obtain ⟨hwf, hrecorded⟩ := callTree_recorded hv
  exact (callTree_step hv).honest hwf (callTree_extends h hv) hrecorded

/-- A flag in an accepted input is global or was delegated. -/
theorem callTree_flagged (hpre : pre ∈ v.result.preStates) (hflag : pre.isAuthorized = true) :
    pre.accountId ∈ final.globallyAuthorized ∨
      DelegatedTo (Ran verify) (Derives accountIdentities final pre.accountId) pre.accountId
        v.lineage := by
  have htraced : Traced (Ran verify) (Derives accountIdentities final)
      (· ∈ final.globallyAuthorized) v.call v.ancestors := by
    have honest := fun w hw => callTree_honest (v := w) h hw
    unfold callTree at hv honest
    split at hv
    · rename_i hstart
      simp only [hstart] at honest
      refine Machine.visits_forall ?_ ?_ hv
      · intro w hw htraced
        exact traced_nextCalls htraced (honest w hw)
      · intro w hw
        rw [mem_singleton] at hw
        subst hw
        exact traced_root rfl fun accountId hmem => absurd hmem (by simp [initialCall])
    · cases hv
  exact flagged_traced htraced (callTree_honest h hv) ⟨pre, hpre, rfl, hflag⟩

end

/-! ### What the final state knows -/

/-- What is recorded of the accounts authorized everywhere, and of the private PDAs. -/
structure Records (accountIdentities : List InputAccountIdentity) (state : ExecutionState) :
    Prop where
  global : ∀ accountId ∈ state.globallyAuthorized, ∃ position recorded,
    state.preStates[position]? = some recorded ∧ recorded.accountId = accountId ∧
      recorded.isAuthorized = true ∧ privatePdaByPosition accountIdentities position = none
  bound : ∀ position binding, state.privatePdaBoundPositions.lookup position = some binding →
    ∃ keys recorded, privatePdaByPosition accountIdentities position = some keys ∧
      state.preStates[position]? = some recorded ∧
      DerivesPrivate keys recorded.accountId binding.1 binding.2

theorem Synced.records (h : Synced accountIdentities call state pre post state')
    (hrecords : Records accountIdentities state) : Records accountIdentities state' := by
  have hextends := h.extends
  have hold : ∀ accountId ∈ state.globallyAuthorized, ∃ position recorded,
      state'.preStates[position]? = some recorded ∧ recorded.accountId = accountId ∧
        recorded.isAuthorized = true ∧
        privatePdaByPosition accountIdentities position = none := by
    intro accountId hmem
    obtain ⟨position, recorded, hat, hrest⟩ := hrecords.global accountId hmem
    exact ⟨position, recorded, hextends.getElem? hat, hrest⟩
  refine ⟨?_, ?_⟩
  · obtain ⟨position, hsighting⟩ := h.sighting
    cases hsighting with
    | known _ _ _ _ global => rwa [global]
    | witnessed _ _ _ _ _ global | delegated _ _ _ _ _ _ global => rwa [global]
    | plain _ position_eq witness _ preStates global =>
      intro accountId hmem
      rw [global] at hmem
      split at hmem
      · rename_i hflag
        rcases Finset.mem_insert.mp hmem with rfl | hmem
        · refine ⟨position, pre, ?_, rfl, hflag, witness⟩
          rw [preStates, position_eq]
          simp
        · exact hold accountId hmem
      · exact hold accountId hmem
  · intro position binding hbinding
    rcases h.bound position binding hbinding with hbefore | ⟨keys, recorded, hkeys, hat, hid, hder⟩
    · obtain ⟨keys, recorded, hkeys, hat, hder⟩ := hrecords.bound position binding hbefore
      exact ⟨keys, recorded, hkeys, hextends.getElem? hat, hder⟩
    · exact ⟨keys, recorded, hkeys, hat, hid ▸ hder⟩

theorem deriveFromOutputs_records
    (h : deriveFromOutputs verify accountIdentities programId programOutputs = .ok final) :
    Records accountIdentities final := by
  refine deriveFromOutputs_invariant (fun block time => ⟨?_, ?_⟩)
    (fun _ _ _ _ hstep => validateAndSyncStates_invariant
      (fun _ _ _ _ _ hsynced => hsynced.records) hstep.synced) h
  · intro accountId hmem
    exact absurd hmem (by simp [initialState])
  · intro position binding hbinding
    exact absurd hbinding (by simp [initialState])

/-- The identity supplied for an account. -/
def identityOf (accountIdentities : List InputAccountIdentity) (state : ExecutionState)
    (accountId : AccountId) : Option InputAccountIdentity :=
  (state.position accountId).bind fun position => accountIdentities[position]?

/-- What stands behind a flag, by the kind of account.  A public account was delegated or
is flagged in the journal; a regular private one comes with its authorization key; a
private PDA was delegated. -/
def AccountedFor (verify : ProgramId → ProgramOutput → Bool)
    (output : PrivacyPreservingCircuitOutput) (accountId : AccountId) (lineage : List Entry) :
    InputAccountIdentity → Prop
  | .publicAccount =>
    DelegatedTo (Ran verify) (DerivesPublic accountId) accountId lineage ∨
      ∃ action ∈ output.publicActions,
        action.pre.accountId = accountId ∧ action.pre.isAuthorized = true
  | .privateAccount witness =>
    match witness.kind with
    | .regular ask => ∃ key, ask = some key ∧
      forRegularPrivateAccount (NullifierPublicKey.ofSecretKey key.nullifierSecretKey)
        witness.vpk witness.identifier = accountId
    | .pda _ =>
      DelegatedTo (Ran verify)
        (DerivesPrivate (witness.nullifier.npk, witness.vpk, witness.identifier) accountId)
        accountId lineage

/-- The account recorded at a position goes into the journal with the identity supplied
there. -/
theorem Journal.zip_getElem? [MlKem] [ChaCha20] {dummyInputs : List DummyInput}
    {states : List (AccountWithMetadata × Account)} {output : PrivacyPreservingCircuitOutput}
    (h : Journal final accountIdentities dummyInputs states output)
    (hat : final.preStates[position]? = some recorded) :
    ∃ identity post, accountIdentities[position]? = some identity ∧
      (identity, recorded, post) ∈ accountIdentities.zip states := by
  have hfst := (statesOf_ok h.rebuilt).1
  have hlt : position < accountIdentities.length := by
    rw [h.length_eq]
    exact (getElem?_eq_some_iff.mp hat).1
  rw [← hfst, getElem?_map] at hat
  obtain ⟨⟨_, post⟩, hstate, rfl⟩ := map_eq_some_iff.mp hat
  have hidentity := getElem?_eq_getElem hlt
  refine ⟨_, post, hidentity, mem_of_getElem? (i := position) ?_⟩
  rw [List.getElem?_zip_eq_some]
  exact ⟨hidentity, hstate⟩

/-- The authorization key supplied for a regular account belongs to it. -/
theorem CheckedNote.regular_key {note : Note} {ask : Option AuthorizationSecretKey}
    (h : CheckedNote note) (hkind : note.witness.kind = .regular ask)
    (hflag : note.pre.isAuthorized = true) :
    ∃ key, ask = some key ∧
      forRegularPrivateAccount (NullifierPublicKey.ofSecretKey key.nullifierSecretKey)
        note.witness.vpk note.witness.identifier = note.pre.accountId := by
  obtain ⟨hid, hrest⟩ := ensure_bind_eq_ok.mp (h.regular ask hkind)
  cases ask with
  | none =>
    have hask := ensure_eq_ok.mp hrest
    rw [hflag] at hask
    cases hask
  | some key =>
    refine ⟨key, rfl, ?_⟩
    rw [← hid]
    cases hnullifier : note.witness.nullifier with
    | init npk commitmentRoot =>
      simp only [hnullifier] at hrest
      rw [(ensure_bind_eq_ok.mp hrest).1]
      rfl
    | update viewTag nsk membershipProof =>
      simp only [hnullifier] at hrest
      rw [(ensure_bind_eq_ok.mp hrest).1]
      rfl

section

variable (h : deriveFromOutputs verify accountIdentities programId programOutputs = .ok final)

include h

/-- What is behind the flag of an account, told from where it is recorded. -/
theorem callTree_flagged_at (hv : v ∈ callTree verify accountIdentities programId programOutputs)
    (hpre : pre ∈ v.result.preStates) (hflag : pre.isAuthorized = true)
    (hat : final.preStates[position]? = some recorded) (hid : recorded.accountId = pre.accountId) :
    (recorded.isAuthorized = true ∧ privatePdaByPosition accountIdentities position = none) ∨
      DelegatedTo (Ran verify) (fun issuer seed => DerivesPublic pre.accountId issuer seed ∨
          ∃ keys, privatePdaByPosition accountIdentities position = some keys ∧
            DerivesPrivate keys pre.accountId issuer seed) pre.accountId v.lineage := by
  have hwf := deriveFromOutputs_wellFormed h
  have hposition : final.position pre.accountId = some position := hid ▸ hwf.position_unique hat
  rcases callTree_flagged h hv hpre hflag with hmem | hdelegated
  · obtain ⟨position', recorded', hat', hid', hflag', hkeys⟩ :=
      (deriveFromOutputs_records h).global _ hmem
    have hposition' := hwf.position_unique hat'
    rw [hid', hposition, some_inj] at hposition'
    subst hposition'
    rw [hat, some_inj] at hat'
    exact .inl ⟨hat' ▸ hflag', hkeys⟩
  · refine .inr (hdelegated.mono ?_)
    rintro issuer seed (hpublic | ⟨position', keys, hposition', hkeys, hprivate⟩)
    · exact .inl hpublic
    · rw [hposition, some_inj] at hposition'
      exact .inr ⟨keys, hposition' ▸ hkeys, hprivate⟩

/-- The id of a private PDA of an accepted input is derived from the keys supplied for
it. -/
theorem privatePda_derives {identity : InputAccountIdentity}
    (hidentity : accountIdentities[position]? = some identity) (hpda : identity.isPrivatePda = true)
    (hat : final.preStates[position]? = some recorded) :
    ∃ keys issuer seed, DerivesPrivate keys recorded.accountId issuer seed := by
  obtain ⟨-, -, -, hbound, -⟩ := deriveFromOutputs_ok h
  have hround := forM_eq_ok.mp hbound (identity, position)
    (List.mem_zipIdx_iff_getElem?.mpr hidentity)
  have hmem := ensure_eq_ok.mp hround hpda
  obtain ⟨binding, hbinding⟩ := isSome_iff_exists.mp (lookup_isSome.mpr hmem)
  obtain ⟨keys, recorded', -, hat', hderives⟩ :=
    (deriveFromOutputs_records h).bound position binding hbinding
  rw [hat, some_inj] at hat'
  exact ⟨keys, binding.1, binding.2, hat' ▸ hderives⟩

end

variable [MlKem] [ChaCha20]

/-- **Authority cannot be forged in the privacy circuit.**  Take any call of an accepted
input whose output flags an account.  If the account is public, it was delegated to the
call as a PDA, or the journal flags it, and the verifier demands its signature.  If it is
a regular private account, an authorization key was supplied whose nullifier key derives
its id.  If it is a private PDA, it was delegated to the call: a program that ran above
issued an edge of the path from the root with a seed that derives the account from its
own id and the keys supplied. -/
theorem circuit_authority {input : PrivacyPreservingCircuitInput}
    {output : PrivacyPreservingCircuitOutput} (h : main verify input = .ok output)
    (hv : v ∈ callTree verify input.accountIdentities input.programId input.programOutputs)
    (hpre : pre ∈ v.result.preStates) (hflag : pre.isAuthorized = true)
    (hsafe : Sha256.Unambiguous pre.accountId.value) :
    ∃ state identity,
      deriveFromOutputs verify input.accountIdentities input.programId input.programOutputs
          = .ok state ∧
        identityOf input.accountIdentities state pre.accountId = some identity ∧
        AccountedFor verify output pre.accountId v.lineage identity := by
  obtain ⟨state, hderive, houtput⟩ := bind_eq_ok.mp h
  obtain ⟨accounts, journal⟩ := computeCircuitOutput_ok houtput
  -- the account is recorded, at a position for which an identity is supplied
  have hrecorded : pre.accountId ∈ state.preStates.map (·.accountId) :=
    ((callTree_extends hderive hv).preStates.map _).subset ((callTree_step hv).recorded hpre)
  obtain ⟨recorded, hmem, hid⟩ := mem_map.mp hrecorded
  obtain ⟨position, hat⟩ := List.getElem?_of_mem hmem
  obtain ⟨identity, post, hidentity, hzip⟩ := journal.zip_getElem? hat
  have hsource := callTree_flagged_at hderive hv hpre hflag hat hid
  rw [privatePdaByPosition, hidentity, bind_some] at hsource
  have hposition : state.position pre.accountId = some position :=
    hid ▸ (deriveFromOutputs_wellFormed hderive).position_unique hat
  refine ⟨state, identity, hderive, ?_, ?_⟩
  · rw [identityOf, hposition, bind_some, hidentity]
  rcases identity with _ | ⟨vpk, randomSeed, identifier, _ | _, nullifier⟩
  case publicAccount =>
    rcases hsource with ⟨hrecordedFlag, -⟩ | hdelegated
    · refine .inr ⟨⟨recorded, post⟩, ?_, hid, hrecordedFlag⟩
      rw [journal.publicActions]
      exact mem_publicActionsOf hzip
    · refine .inl (hdelegated.mono ?_)
      rintro issuer seed (hpublic | ⟨keys, hkeys, -⟩)
      · exact hpublic
      · exact absurd hkeys (by simp [InputAccountIdentity.npkVpkIfPrivatePda])
  case privateAccount.regular ask =>
    obtain ⟨i, hnote⟩ := mem_iff_getElem?.mp hzip
    have hchecked := journal.checked _ (mem_notesFrom_of_getElem? 0 hnote)
    rcases hsource with ⟨hrecordedFlag, -⟩ | hdelegated
    · exact hid ▸ hchecked.regular_key rfl hrecordedFlag
    · -- only a public PDA could have been delegated, and no regular account has its id
      obtain ⟨issuer, seed, hpublic | ⟨keys, hkeys, -⟩⟩ := hdelegated.exists_derives
      · have hregular := (ensure_bind_eq_ok.mp (hchecked.regular ask rfl)).1
        exact absurd (hsafe _ _ (congrArg AccountId.value hpublic)
            (congrArg AccountId.value (hregular.trans hid)))
          (publicPdaBytes_ne_regularPrivateBytes _ _ _ _ _)
      · exact absurd hkeys (by simp [InputAccountIdentity.npkVpkIfPrivatePda])
  case privateAccount.pda binding =>
    rcases hsource with ⟨-, hnone⟩ | hdelegated
    · exact absurd hnone (by simp [InputAccountIdentity.npkVpkIfPrivatePda])
    · refine hdelegated.mono ?_
      rintro issuer seed (hpublic | ⟨keys, hkeys, hprivate⟩)
      · obtain ⟨keys, issuer', seed', hderives⟩ := privatePda_derives hderive hidentity rfl hat
        rw [hid] at hderives
        exact absurd (hsafe _ _ (congrArg AccountId.value hpublic)
          (congrArg AccountId.value hderives)) (publicPdaBytes_ne_privatePdaBytes _ _ _ _ _ _ _)
      · exact some.inj hkeys ▸ hprivate

end

section

open Unshield
open Sample (pda)

/-- Every flag of the sample is accounted for: the private account by its key, the payee
by the journal, the PDA by the edge to the keeper. -/
theorem unshield_authority :
    ∃ output, main verify input = .ok output ∧
      ∀ v ∈ callTree verify input.accountIdentities bank
          programOutputs,
        ∀ pre ∈ v.result.preStates, pre.isAuthorized = true ∧ ∃ state identity,
          deriveFromOutputs verify input.accountIdentities bank
              programOutputs = .ok state ∧
            identityOf input.accountIdentities state pre.accountId = some identity ∧
            AccountedFor verify output pre.accountId v.lineage identity := by
  obtain ⟨output, h⟩ : ∃ output, main verify input = .ok output := by
    decide +kernel
  have heval : ∀ v ∈ callTree verify input.accountIdentities bank
      programOutputs, ∀ pre ∈ v.result.preStates, pre.isAuthorized = true ∧
        pre.accountId ∈ [noteId, payee, pda] := by decide +kernel
  have hsafe : ∀ accountId ∈ [noteId, payee, pda],
      Sha256.Unambiguous accountId.value := by
    intro accountId hmem
    refine Sha256.unambiguous_ofTable ?_ ?_
    · revert accountId
      decide +kernel
    · revert accountId
      decide +kernel
  refine ⟨output, h, fun v hv pre hpre => ?_⟩
  obtain ⟨hflag, hmem⟩ := heval v hv pre hpre
  exact ⟨hflag, circuit_authority h hv hpre hflag (hsafe _ hmem)⟩

end

end Circuit

end Lssa
