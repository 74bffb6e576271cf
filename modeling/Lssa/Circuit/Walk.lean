/-
The walk of the circuit over the calls.

`WellFormed` is the invariant behind the positions at which accounts are recorded: the
accounts recorded are distinct, and they are the ones with a post-state.  The state of
the walk only ever grows (`Extends`), so what is found out about an account in the middle
of the walk still holds at its end.

* `deriveFromOutputs_ok` — what an accepted input went through;
* `deriveFromOutputs_invariant` — what every call keeps, an accepted input keeps.
-/
import Lssa.Circuit.Sync

open Outcome DepthFirst

namespace Lssa

namespace Circuit

variable [Sha256] {accountIdentities : List InputAccountIdentity} {call : Call}
  {state state' : ExecutionState} {pre : AccountWithMetadata} {post : AccountPostState}

/-! ### Positions -/

/-- The accounts recorded are distinct, and they are the ones with a post-state. -/
structure WellFormed (state : ExecutionState) : Prop where
  nodup : (state.preStates.map (·.accountId)).Nodup
  mem_iff : ∀ accountId,
    accountId ∈ state.postStates ↔ accountId ∈ state.preStates.map (·.accountId)

omit [Sha256] in
theorem wellFormed_initialState (block : ValidityWindow BlockId)
    (time : ValidityWindow Timestamp) : WellFormed (initialState block time) := by
  refine ⟨List.nodup_nil, fun accountId => ?_⟩
  simp [initialState]

variable {position : ℕ} {output : ProgramOutput} {verify : ProgramId → ProgramOutput → Bool}
  {programId : ProgramId} {programOutputs : List ProgramOutput}

/-- The accounts recorded stay distinct. -/
theorem Sighting.nodup (hwf : WellFormed state)
    (h : Sighting accountIdentities call state pre position state') :
    (state'.preStates.map (·.accountId)).Nodup := by
  rcases h.preStates_cases with ⟨-, -, hpre⟩ | ⟨hlook, -, recorded, hpre, hid, -⟩
  · rw [hpre]
    exact hwf.nodup
  · have hnot : pre.accountId ∉ state.preStates.map (·.accountId) := by
      rw [← hwf.mem_iff]
      exact lookup_eq_none.mp hlook
    rw [hpre, map_append, map_singleton, hid, List.nodup_append_comm]
    exact nodup_cons.mpr ⟨hnot, hwf.nodup⟩

theorem Synced.wellFormed (h : Synced accountIdentities call state pre post state')
    (hwf : WellFormed state) : WellFormed state' := by
  obtain ⟨position, hsighting⟩ := h.sighting
  obtain ⟨account, hpost, -⟩ := h.claim
  refine ⟨hsighting.nodup hwf, fun accountId => ?_⟩
  rcases hsighting.preStates_cases with ⟨hlook, -, hpre⟩ | ⟨-, -, recorded, hpre, hid, -⟩
  · have hmem : pre.accountId ∈ state.preStates.map (·.accountId) :=
      (hwf.mem_iff _).mp (lookup_isSome.mp (by rw [hlook]; rfl))
    rw [hpost, hpre, AList.mem_insert, hwf.mem_iff]
    exact ⟨fun hor => hor.elim (fun heq => heq ▸ hmem) id, .inr⟩
  · rw [hpost, hpre, AList.mem_insert, hwf.mem_iff, map_append, map_singleton, hid,
      mem_append, mem_singleton, or_comm]

/-- What syncing every account keeps, syncing an output keeps. -/
theorem validateAndSyncStates_invariant {P : ExecutionState → Prop}
    (step : ∀ state pre post state', (pre, post) ∈ output.preStates.zip output.postStates →
      Synced accountIdentities call state pre post state' → P state → P state')
    (h : validateAndSyncStates accountIdentities call state output = .ok state')
    (hstate : P state) : P state' :=
  foldlM_invariant (fun pair hpair s s' hs => step s pair.1 pair.2 s' hpair (syncAccount_ok hs)) h
    hstate

/-! ### The walk only adds -/

/-- Accounts are recorded at the end, and nothing is taken back. -/
structure Extends (state state' : ExecutionState) : Prop where
  preStates : state.preStates <+: state'.preStates
  global : state.globallyAuthorized ⊆ state'.globallyAuthorized
  wellFormed : WellFormed state → WellFormed state'

omit [Sha256] in
theorem Extends.refl (state : ExecutionState) : Extends state state :=
  ⟨List.prefix_refl _, Finset.Subset.refl _, id⟩

omit [Sha256] in
theorem Extends.trans {mid : ExecutionState} (h : Extends state mid) (h' : Extends mid state') :
    Extends state state' :=
  ⟨h.preStates.trans h'.preStates, h.global.trans h'.global, h'.wellFormed ∘ h.wellFormed⟩

omit [Sha256] in
/-- An account stays where it is recorded. -/
theorem Extends.position_eq {accountId : AccountId} (h : Extends state state')
    (hposition : state.position accountId = some position) :
    state'.position accountId = some position := by
  obtain ⟨later, hlater⟩ := h.preStates
  unfold ExecutionState.position at hposition ⊢
  rw [← hlater, List.findIdx?_append, hposition, Option.some_or]

theorem Sighting.global_subset (h : Sighting accountIdentities call state pre position state') :
    state.globallyAuthorized ⊆ state'.globallyAuthorized := by
  cases h with
  | known _ _ _ _ global | witnessed _ _ _ _ _ global | delegated _ _ _ _ _ _ global => rw [global]
  | plain _ _ _ _ _ global =>
    rw [global]
    split
    · exact Finset.subset_insert _ _
    · exact Finset.Subset.refl _

theorem Synced.extends (h : Synced accountIdentities call state pre post state') :
    Extends state state' := by
  obtain ⟨position, hsighting⟩ := h.sighting
  exact ⟨hsighting.recorded.1, hsighting.global_subset, h.wellFormed⟩

/-- Every account of an output is synced in some state between. -/
theorem validateAndSyncStates_round
    (h : validateAndSyncStates accountIdentities call state output = .ok state')
    (hmem : (pre, post) ∈ output.preStates.zip output.postStates) :
    ∃ mid mid', Extends state mid ∧ Synced accountIdentities call mid pre post mid' ∧
      Extends mid' state' := by
  obtain ⟨mid, mid', hmid, hround, hmid'⟩ := foldlM_round Extends.refl Extends.trans
    (fun pair _ s s' hs => (syncAccount_ok hs).extends) h hmem
  exact ⟨mid, mid', hmid, syncAccount_ok hround, hmid'⟩

theorem Step.extends {progress progress' : Progress}
    (h : Step verify accountIdentities progress call output progress') :
    Extends progress.1 progress'.1 :=
  foldlM_invariant (P := fun s => Extends progress.1 s)
    (fun _ _ _ _ hs hext => hext.trans (syncAccount_ok hs).extends) h.synced (Extends.refl _)

omit [Sha256] in
/-- Where an account is recorded that was not recorded before. -/
theorem position_of_append {accountId : AccountId} {recorded : AccountWithMetadata}
    (hwf : WellFormed state) (hlook : state.postStates.lookup accountId = none)
    (hpre : state'.preStates = state.preStates ++ [recorded])
    (hid : recorded.accountId = accountId) :
    state'.position accountId = some state.preStates.length := by
  have hnone : state.preStates.findIdx? (fun pre => pre.accountId = accountId) = none := by
    rw [List.findIdx?_eq_none_iff]
    intro pre hmem
    have hnot : accountId ∉ state.preStates.map (·.accountId) := by
      rw [← hwf.mem_iff]
      exact lookup_eq_none.mp hlook
    refine decide_eq_false fun heq => hnot ?_
    exact mem_map.mpr ⟨pre, hmem, heq⟩
  rw [ExecutionState.position, hpre, List.findIdx?_append, hnone]
  simp [hid]

/-- The position at which an account is met stays its position. -/
theorem Sighting.position_eq (hwf : WellFormed state)
    (h : Sighting accountIdentities call state pre position state') :
    state'.position pre.accountId = some position := by
  rcases h.preStates_cases with ⟨-, hposition, hpre⟩ | ⟨hlook, rfl, recorded, hpre, hid, -⟩
  · rw [← hposition, ExecutionState.position, hpre]
    rfl
  · exact position_of_append hwf hlook hpre hid

/-- Every account that an output lists is recorded. -/
theorem Step.recorded {progress progress' : Progress}
    (h : Step verify accountIdentities progress call output progress')
    (hpre : pre ∈ output.preStates) :
    pre.accountId ∈ progress'.1.preStates.map (·.accountId) := by
  obtain ⟨post, hpair⟩ := (validateExecution_ok h.valid).exists_post hpre
  obtain ⟨mid, mid', -, hsynced, hmid'⟩ := validateAndSyncStates_round h.synced hpair
  obtain ⟨position, hsighting⟩ := hsynced.sighting
  obtain ⟨-, recorded, hat, hid⟩ := hsighting.recorded
  refine (hmid'.preStates.map _).subset (mem_map.mpr ⟨recorded, ?_, hid⟩)
  exact mem_of_getElem? hat

omit [Sha256] in
theorem Extends.getElem? {recorded : AccountWithMetadata} (h : Extends state state')
    (hat : state.preStates[position]? = some recorded) :
    state'.preStates[position]? = some recorded := by
  obtain ⟨later, hlater⟩ := h.preStates
  rw [← hlater, List.getElem?_append_left (getElem?_eq_some_iff.mp hat).1, hat]

omit [Sha256] in
theorem WellFormed.position_unique {recorded : AccountWithMetadata} (hwf : WellFormed state)
    (hat : state.preStates[position]? = some recorded) :
    state.position recorded.accountId = some position := by
  obtain ⟨hlt, rfl⟩ := getElem?_eq_some_iff.mp hat
  rw [ExecutionState.position, List.findIdx?_eq_some_iff_getElem]
  refine ⟨hlt, decide_eq_true rfl, ?_⟩
  intro earlier hearlier hsame
  have hids : (state.preStates.map (·.accountId))[earlier]?
      = (state.preStates.map (·.accountId))[position]? := by
    have hlt' : earlier < state.preStates.length := by omega
    rw [getElem?_map, getElem?_map, getElem?_eq_getElem hlt',
      getElem?_eq_getElem hlt, map_some, map_some, of_decide_eq_true hsame]
  have heq := (List.getElem?_inj (by rw [length_map]; omega) hwf.nodup).mp hids
  omega

/-! ### Accepted inputs -/

/-- What an accepted input went through. -/
theorem deriveFromOutputs_ok {final : ExecutionState}
    (h : deriveFromOutputs verify accountIdentities programId programOutputs = .ok final) :
    ∃ start, startState programOutputs = .ok start ∧
      Machine.Threads (callTree verify accountIdentities programId programOutputs)
        (start, programOutputs) (final, []) ∧
      checkBound accountIdentities final = .ok () ∧ checkClaimed final = .ok () := by
  obtain ⟨start, hstart, h⟩ := bind_eq_ok.mp h
  rcases programOutputs with _ | ⟨firstOutput, rest⟩
  · cases h
  obtain ⟨⟨state, leftover⟩, hrun, h⟩ := bind_eq_ok.mp h
  obtain ⟨hleftover, h⟩ := ensure_bind_eq_ok.mp h
  obtain ⟨_, hbound, h⟩ := bind_eq_ok.mp h
  obtain ⟨_, hclaimed, h⟩ := bind_eq_ok.mp h
  obtain rfl : state = final := ok.inj h
  obtain rfl : leftover = [] := hleftover
  refine ⟨start, hstart, ?_, hbound, hclaimed⟩
  simp only [callTree, hstart]
  exact Machine.run_threads hrun

omit [Sha256] in
theorem startState_ok {start : ExecutionState} (h : startState programOutputs = .ok start) :
    ∃ block time, start = initialState block time ∧
      ValidityWindow.intersect (programOutputs.map (·.blockValidityWindow)) = some block ∧
      ValidityWindow.intersect (programOutputs.map (·.timestampValidityWindow)) = some time := by
  unfold startState at h
  split at h
  · cases h
  · rename_i block hblock
    split at h
    · cases h
    · rename_i time htime
      exact ⟨block, time, (ok.inj h).symm, hblock, htime⟩

theorem callTree_step {v : Visit Progress Call ProgramOutput}
    (hv : v ∈ callTree verify accountIdentities programId programOutputs) :
    Step verify accountIdentities v.before v.call v.result v.after := by
  unfold callTree at hv
  split at hv
  · exact machine_serves.mp (Machine.visits_serves hv)
  · cases hv

/-- What every call keeps, an accepted input keeps. -/
theorem deriveFromOutputs_invariant {P : ExecutionState → Prop}
    (start : ∀ block time, P (initialState block time)) (step : ∀ progress call output progress',
      Step verify accountIdentities progress call output progress' → P progress.1 → P progress'.1)
    (h : deriveFromOutputs verify accountIdentities programId programOutputs = .ok state) :
    P state := by
  obtain ⟨start', hstart, hthreads, -⟩ := deriveFromOutputs_ok h
  obtain ⟨block, time, rfl, -⟩ := startState_ok hstart
  exact hthreads.invariant (P := fun progress => P progress.1)
    (fun v hv => step _ _ _ _ (callTree_step hv)) (start block time)

section

variable (h : deriveFromOutputs verify accountIdentities programId programOutputs = .ok state)

include h

theorem deriveFromOutputs_wellFormed :
    WellFormed state :=
  deriveFromOutputs_invariant wellFormed_initialState
    (fun _ _ _ _ hstep => validateAndSyncStates_invariant
      (fun _ _ _ _ _ hsynced => hsynced.wellFormed) hstep.synced) h

/-- The windows of the journal are those that all outputs share. -/
theorem deriveFromOutputs_windows :
    ValidityWindow.intersect (programOutputs.map (·.blockValidityWindow))
        = some state.blockValidityWindow ∧
      ValidityWindow.intersect (programOutputs.map (·.timestampValidityWindow))
        = some state.timestampValidityWindow := by
  obtain ⟨start, hstart, hthreads, -⟩ := deriveFromOutputs_ok h
  have hkept : state.blockValidityWindow = start.blockValidityWindow ∧
      state.timestampValidityWindow = start.timestampValidityWindow := by
    refine hthreads.invariant (P := fun progress =>
      progress.1.blockValidityWindow = start.blockValidityWindow ∧
        progress.1.timestampValidityWindow = start.timestampValidityWindow)
      (fun v hv hbefore => ?_) ⟨rfl, rfl⟩
    refine validateAndSyncStates_invariant (P := fun mid =>
      mid.blockValidityWindow = start.blockValidityWindow ∧
        mid.timestampValidityWindow = start.timestampValidityWindow) ?_
      (callTree_step hv).synced hbefore
    intro mid _ _ mid' _ hsynced hmid
    exact ⟨hsynced.block.trans hmid.1, hsynced.time.trans hmid.2⟩
  obtain ⟨block, time, rfl, hblock, htime⟩ := startState_ok hstart
  rw [hkept.1, hkept.2]
  exact ⟨hblock, htime⟩

end

end Circuit

end Lssa
