/-
What syncing an account with the circuit can do.

`validate_and_sync_states` takes the accounts of an output one by one.  `Sighting`
lists the four ways an account can be met: it is `known` from an earlier output; it is
new and `witnessed` as a private PDA; it is new and a public PDA that the caller
`delegated`, recorded with its flag masked; or it is new and `plain`, and then its flag
counts everywhere.  `syncPreState_ok` and `claimPostState_ok` are the inversion lemmas
of the two halves, and everything proved about the circuit goes through them.
-/
import Lssa.Circuit.ExecutionState

open Outcome DepthFirst
open Ledger (Map)

namespace Lssa

namespace Circuit

variable [Sha256] {accountIdentities : List InputAccountIdentity} {call : Call}
  {state state' : ExecutionState} {pre : AccountWithMetadata} {post : AccountPostState}

/-- The issuer's seed derives the account as a private PDA under the keys supplied for a
position. -/
def DerivesPrivate (keys : NullifierPublicKey × ViewingPublicKey × Identifier)
    (accountId : AccountId) (issuer : ProgramId) (seed : PdaSeed) : Prop :=
  forPrivatePda issuer seed keys.1 keys.2.1 keys.2.2 = accountId

/-- The grounds on which an account at a known position is authorized for a call. -/
def Authorizes (accountIdentities : List InputAccountIdentity) (call : Call)
    (state : ExecutionState) (accountId : AccountId) (position : ℕ) : Prop :=
  Seeded (DerivesPublic accountId) call ∨
    (∃ keys, privatePdaByPosition accountIdentities position = some keys ∧
      Seeded (DerivesPrivate keys accountId) call) ∨
    accountId ∈ state.globallyAuthorized ∨ accountId ∈ call.2.authorizedAccounts

/-! ### Seeds and bindings -/

variable {accountId : AccountId} {seed : PdaSeed} {position : ℕ}
  {map : Map ℕ (ProgramId × PdaSeed)} {programId : ProgramId}
  {bindings : Map (ProgramId × PdaSeed) AccountId}

theorem matchCallerSeedAsPublicPda_eq_none :
    matchCallerSeedAsPublicPda call.2 call.1.pdaSeeds accountId = none ↔
      ¬Seeded (DerivesPublic accountId) call := by
  unfold matchCallerSeedAsPublicPda Seeded DerivesPublic
  cases call.2.programId with
  | none | some issuer => simp

theorem matchCallerSeedAsPublicPda_eq_some {issuer : ProgramId}
    (h : matchCallerSeedAsPublicPda call.2 call.1.pdaSeeds accountId = some (seed, issuer)) :
    call.2.programId = some issuer ∧ seed ∈ call.1.pdaSeeds ∧
      DerivesPublic accountId issuer seed := by
  obtain ⟨issuer', hissuer, h⟩ := bind_eq_some_iff.mp h
  obtain ⟨seed', hseed, heq⟩ := map_eq_some_iff.mp h
  obtain ⟨rfl, rfl⟩ := Prod.mk.inj heq
  have hderives : forPublicPda issuer' seed' = accountId := by simpa using List.find?_some hseed
  exact ⟨hissuer, List.mem_of_find?_eq_some hseed, hderives⟩

theorem matchCallerSeedAsPrivatePda_isSome :
    (matchCallerSeedAsPrivatePda accountIdentities call.2 call.1.pdaSeeds accountId
        position).isSome = true ↔
      ∃ keys, privatePdaByPosition accountIdentities position = some keys ∧
        Seeded (DerivesPrivate keys accountId) call := by
  unfold matchCallerSeedAsPrivatePda Seeded DerivesPrivate
  cases privatePdaByPosition accountIdentities position with
  | none => simp
  | some keys =>
    cases call.2.programId with
    | none => simp
    | some issuer => simp

theorem matchCallerSeed_private {issuer : ProgramId}
    (h : matchCallerSeed accountIdentities call.2 call.1.pdaSeeds accountId position
      = some (seed, true, issuer)) :
    ∃ keys, privatePdaByPosition accountIdentities position = some keys ∧
      DerivesPrivate keys accountId issuer seed := by
  unfold matchCallerSeed at h
  split at h
  · cases h
  · obtain ⟨⟨seed', issuer'⟩, h, heq⟩ := map_eq_some_iff.mp h
    cases heq
    obtain ⟨keys, hkeys, h⟩ := bind_eq_some_iff.mp h
    obtain ⟨issuer', -, h⟩ := bind_eq_some_iff.mp h
    obtain ⟨seed', hseed, heq⟩ := map_eq_some_iff.mp h
    obtain ⟨rfl, rfl⟩ := Prod.mk.inj heq
    have hderives : forPrivatePda issuer' seed' keys.1 keys.2.1 keys.2.2 = accountId := by
      simpa using List.find?_some hseed
    exact ⟨keys, hkeys, hderives⟩

theorem matchCallerSeed_isSome :
    (matchCallerSeed accountIdentities call.2 call.1.pdaSeeds accountId position).isSome = true ↔
      Seeded (DerivesPublic accountId) call ∨
        ∃ keys, privatePdaByPosition accountIdentities position = some keys ∧
          Seeded (DerivesPrivate keys accountId) call := by
  unfold matchCallerSeed
  cases hpublic : matchCallerSeedAsPublicPda call.2 call.1.pdaSeeds accountId with
  | none =>
    have hnot := matchCallerSeedAsPublicPda_eq_none.mp hpublic
    rw [Option.isSome_map, matchCallerSeedAsPrivatePda_isSome]
    exact ⟨.inr, fun h => h.resolve_left hnot⟩
  | some found =>
    have hseeded : Seeded (DerivesPublic accountId) call := by
      by_contra hnot
      rw [matchCallerSeedAsPublicPda_eq_none.mpr hnot] at hpublic
      cases hpublic
    exact ⟨fun _ => .inl hseeded, fun _ => rfl⟩

omit [Sha256] in
theorem bindPrivatePdaPosition_ok {map' : Map ℕ (ProgramId × PdaSeed)}
    (h : bindPrivatePdaPosition map position programId seed = .ok map') :
    Ledger.Recorded map position (programId, seed) map' := by
  unfold bindPrivatePdaPosition at h
  split at h
  · rename_i hlook
    rw [← ok.inj h]
    exact Ledger.recorded_insert hlook
  · rename_i existing hlook
    by_cases heq : existing = (programId, seed)
    · rw [if_pos heq] at h
      rw [← ok.inj h]
      exact Ledger.recorded_self (heq ▸ hlook)
    · rw [if_neg heq] at h
      cases h

omit [Sha256] in
theorem assertFamilyBinding_ok {bindings' : Map (ProgramId × PdaSeed) AccountId}
    (h : assertFamilyBinding bindings programId seed accountId = .ok bindings') :
    Ledger.Recorded bindings (programId, seed) accountId bindings' := by
  unfold assertFamilyBinding at h
  split at h
  · rename_i hlook
    rw [← ok.inj h]
    exact Ledger.recorded_insert hlook
  · rename_i existing hlook
    by_cases heq : existing = accountId
    · rw [if_pos heq] at h
      rw [← ok.inj h]
      exact Ledger.recorded_self (heq ▸ hlook)
    · rw [if_neg heq] at h
      cases h

/-! ### The records grow -/

/-- The records only grow, and a position that gets bound is bound to a pair that stands for
the account. -/
structure Binds (accountId : AccountId) (state state' : ExecutionState) : Prop where
  family : ∀ pair id, state.pdaFamilyBinding.lookup pair = some id →
    state'.pdaFamilyBinding.lookup pair = some id
  positions : ∀ k pair, state.privatePdaBoundPositions.lookup k = some pair →
    state'.privatePdaBoundPositions.lookup k = some pair
  bound : ∀ k pair, state'.privatePdaBoundPositions.lookup k = some pair →
    state.privatePdaBoundPositions.lookup k = some pair ∨
      state'.pdaFamilyBinding.lookup pair = some accountId

/-- The pair stands for the account.  If it does so in private form, the account's position
is bound to it. -/
def OnRecord (state : ExecutionState) (accountId : AccountId) (position : ℕ)
    (isPrivateForm : Bool) (pair : ProgramId × PdaSeed) : Prop :=
  state.pdaFamilyBinding.lookup pair = some accountId ∧
    (isPrivateForm = true → state.privatePdaBoundPositions.lookup position = some pair)

variable {pair : ProgramId × PdaSeed}

section

omit [Sha256]

/-- Nothing is recorded. -/
theorem Binds.of_same (hfamily : state'.pdaFamilyBinding = state.pdaFamilyBinding)
    (hpositions : state'.privatePdaBoundPositions = state.privatePdaBoundPositions) :
    Binds accountId state state' := by
  refine ⟨fun pair id h => by rwa [hfamily], fun k pair h => by rwa [hpositions], ?_⟩
  intro k pair h
  rw [hpositions] at h
  exact .inl h

section

variable (hfamily : Ledger.Recorded state.pdaFamilyBinding pair accountId state'.pdaFamilyBinding)

include hfamily

/-- The pair is recorded for the account. -/
theorem Binds.of_family
    (hpositions : state'.privatePdaBoundPositions = state.privatePdaBoundPositions) :
    Binds accountId state state' := by
  refine ⟨fun pair' id => hfamily.lookup_of_lookup, fun k pair' h => by rwa [hpositions], ?_⟩
  intro k pair' h
  rw [hpositions] at h
  exact .inl h

/-- The pair is recorded for the account, and its position is bound to it. -/
theorem Binds.of_both (hpositions : Ledger.Recorded state.privatePdaBoundPositions position pair
      state'.privatePdaBoundPositions) : Binds accountId state state' := by
  refine ⟨fun pair' id => hfamily.lookup_of_lookup, fun k pair' => hpositions.lookup_of_lookup, ?_⟩
  intro k pair' h
  rw [hpositions.lookup_eq] at h
  by_cases hk : k = position
  · rw [if_pos hk, some_inj] at h
    subst h
    exact .inr hfamily.lookup_self
  · rw [if_neg hk] at h
    exact .inl h

end

theorem Binds.trans {mid : ExecutionState} (h : Binds accountId state mid)
    (h' : Binds accountId mid state') : Binds accountId state state' := by
  refine ⟨fun pair id hpair => h'.family pair id (h.family pair id hpair),
    fun k pair hk => h'.positions k pair (h.positions k pair hk), ?_⟩
  intro k pair hk
  rcases h'.bound k pair hk with hmid | hnew
  · rcases h.bound k pair hmid with hold | hnew
    · exact .inl hold
    · exact .inr (h'.family pair accountId hnew)
  · exact .inr hnew

/-- What is on record stays there. -/
theorem OnRecord.mono {id : AccountId} {isPrivateForm : Bool}
    (h : OnRecord state id position isPrivateForm pair) (hbinds : Binds accountId state state') :
    OnRecord state' id position isPrivateForm pair :=
  ⟨hbinds.family pair id h.1, fun hform => hbinds.positions position pair (h.2 hform)⟩

end

/-- The pair that the witness at a position names, if it names one. -/
def namedPair (accountIdentities : List InputAccountIdentity) (position : ℕ) :
    Option (ProgramId × PdaSeed) :=
  match accountIdentities[position]? with
  | some (.privateAccount { kind := .pda external, .. }) => external
  | _ => none

/-- The seed that the caller passed for the account is on record. -/
def Passed (accountIdentities : List InputAccountIdentity) (call : Call) (state : ExecutionState)
    (accountId : AccountId) (position : ℕ) : Prop :=
  ∀ seed isPrivateForm issuer,
    matchCallerSeed accountIdentities call.2 call.1.pdaSeeds accountId position
        = some (seed, isPrivateForm, issuer) →
      OnRecord state accountId position isPrivateForm (issuer, seed)

/-- What no half of `syncAccount` changes, and the only way a position gets bound: under
the keys supplied for it and a seed that derives the account from them. -/
structure Frame (accountIdentities : List InputAccountIdentity) (accountId : AccountId)
    (position : ℕ) (state state' : ExecutionState) : Prop where
  postStates : state'.postStates = state.postStates
  block : state'.blockValidityWindow = state.blockValidityWindow
  time : state'.timestampValidityWindow = state.timestampValidityWindow
  bound : ∀ k binding, state'.privatePdaBoundPositions.lookup k = some binding →
    state.privatePdaBoundPositions.lookup k = some binding ∨
      (k = position ∧ ∃ keys, privatePdaByPosition accountIdentities position = some keys ∧
        DerivesPrivate keys accountId binding.1 binding.2)

theorem Frame.refl (accountId : AccountId) (position : ℕ) (state : ExecutionState) :
    Frame accountIdentities accountId position state state :=
  ⟨rfl, rfl, rfl, fun _ _ h => .inl h⟩

theorem Frame.trans {mid : ExecutionState}
    (h : Frame accountIdentities accountId position state mid)
    (h' : Frame accountIdentities accountId position mid state') :
    Frame accountIdentities accountId position state state' := by
  refine ⟨h'.postStates.trans h.postStates, h'.block.trans h.block, h'.time.trans h.time, ?_⟩
  intro k binding hk
  rcases h'.bound k binding hk with hmid | hnew
  · exact h.bound k binding hmid
  · exact .inr hnew

/-- Binding one position keeps the frame. -/
theorem Frame.of_bind {keys : NullifierPublicKey × ViewingPublicKey × Identifier}
    (hkeys : privatePdaByPosition accountIdentities position = some keys)
    (hderives : DerivesPrivate keys accountId programId seed)
    (h : bindPrivatePdaPosition state.privatePdaBoundPositions position programId seed = .ok map) :
    Frame accountIdentities accountId position state
      { state with privatePdaBoundPositions := map, pdaFamilyBinding := bindings } := by
  refine ⟨rfl, rfl, rfl, fun k binding hk => ?_⟩
  rw [(bindPrivatePdaPosition_ok h).lookup_eq] at hk
  by_cases hposition : k = position
  · rw [if_pos hposition, some_inj] at hk
    subst hk
    exact .inr ⟨hposition, keys, hkeys, hderives⟩
  · rw [if_neg hposition] at hk
    exact .inl hk

/-- Nothing but bookkeeping of seeds changes. -/
structure Bookkeeping (accountIdentities : List InputAccountIdentity) (accountId : AccountId)
    (position : ℕ) (state state' : ExecutionState) : Prop extends
    Frame accountIdentities accountId position state state' where
  preStates : state'.preStates = state.preStates
  globallyAuthorized : state'.globallyAuthorized = state.globallyAuthorized

theorem recordBindings_ok (h : recordBindings state accountId position
      (matchCallerSeed accountIdentities call.2 call.1.pdaSeeds accountId position) = .ok state') :
    Bookkeeping accountIdentities accountId position state state' ∧ Binds accountId state state' ∧
      Passed accountIdentities call state' accountId position := by
  unfold Passed
  cases hmatch : matchCallerSeed accountIdentities call.2 call.1.pdaSeeds accountId position with
  | none =>
    rw [hmatch] at h
    rw [← ok.inj h]
    exact ⟨⟨Frame.refl _ _ _, rfl, rfl⟩, .of_same rfl rfl, by simp⟩
  | some found =>
    obtain ⟨seed, isPrivateForm, issuer⟩ := found
    rw [hmatch] at h
    obtain ⟨bindings, hbindings, h⟩ := bind_eq_ok.mp h
    have hfamily := assertFamilyBinding_ok hbindings
    cases isPrivateForm with
    | false =>
      rw [← ok.inj h]
      refine ⟨⟨⟨rfl, rfl, rfl, fun _ _ hk => .inl hk⟩, rfl, rfl⟩, .of_family hfamily rfl, ?_⟩
      rintro _ _ _ ⟨⟩
      exact ⟨hfamily.lookup_self, by simp⟩
    | true =>
      obtain ⟨keys, hkeys, hderives⟩ := matchCallerSeed_private hmatch
      obtain ⟨map, hmap, h⟩ := bind_eq_ok.mp h
      have hpositions := bindPrivatePdaPosition_ok hmap
      rw [← ok.inj h]
      refine ⟨⟨Frame.of_bind hkeys hderives hmap, rfl, rfl⟩, .of_both hfamily hpositions, ?_⟩
      rintro _ _ _ ⟨⟩
      exact ⟨hfamily.lookup_self, fun _ => hpositions.lookup_self⟩

theorem assertAuthorizationAndRecordBindings_ok
    (h : assertAuthorizationAndRecordBindings accountIdentities state call.2 call.1.pdaSeeds pre
      position = .ok state') :
    Bookkeeping accountIdentities pre.accountId position state state' ∧
      (Binds pre.accountId state state' ∧
        Passed accountIdentities call state' pre.accountId position) ∧
      (pre.isAuthorized = true ↔
        Authorizes accountIdentities call state pre.accountId position) := by
  obtain ⟨mid, hmid, h⟩ := bind_eq_ok.mp h
  obtain ⟨hflag, h⟩ := ensure_bind_eq_ok.mp h
  obtain ⟨hbook, hrecords⟩ := recordBindings_ok hmid
  rw [← ok.inj h]
  refine ⟨hbook, hrecords, ?_⟩
  rw [hflag, Bool.or_eq_true, Bool.or_eq_true, decide_eq_true_eq, decide_eq_true_eq,
    matchCallerSeed_isSome, hbook.globallyAuthorized, Authorizes, or_assoc, or_assoc]

theorem bindExternalSeed_ok
    (h : bindExternalSeed accountIdentities state accountId position = .ok state') :
    Bookkeeping accountIdentities accountId position state state' ∧ Binds accountId state state' ∧
      ∀ pair, namedPair accountIdentities position = some pair →
        state'.privatePdaBoundPositions.lookup position = some pair := by
  unfold bindExternalSeed at h
  split at h
  · rename_i vpk _ identifier issuer seed nullifier hidentity
    obtain ⟨hderives, h⟩ := ensure_bind_eq_ok.mp h
    obtain ⟨map, hmap, h⟩ := bind_eq_ok.mp h
    obtain ⟨bindings, hbindings, h⟩ := bind_eq_ok.mp h
    have hpositions := bindPrivatePdaPosition_ok hmap
    have hkeys : privatePdaByPosition accountIdentities position
        = some (nullifier.npk, vpk, identifier) := by
      rw [privatePdaByPosition, hidentity]
      rfl
    rw [← ok.inj h]
    refine ⟨⟨Frame.of_bind hkeys hderives.symm hmap, rfl, rfl⟩,
      .of_both (assertFamilyBinding_ok hbindings) hpositions, fun pair hpair => ?_⟩
    simp only [namedPair, hidentity, some_inj] at hpair
    subst hpair
    exact hpositions.lookup_self
  · rename_i hother
    rw [← ok.inj h]
    refine ⟨⟨Frame.refl _ _ _, rfl, rfl⟩, .of_same rfl rfl, fun pair hpair => ?_⟩
    unfold namedPair at hpair
    split at hpair
    · rename_i hidentity
      subst hpair
      exact absurd hidentity (hother _ _ _ _ _ _)
    · cases hpair

/-! ### Meeting an account -/

/-- The ways an account of an output is met, at its position among the accounts
recorded. -/
inductive Sighting (accountIdentities : List InputAccountIdentity) (call : Call)
    (state : ExecutionState) (pre : AccountWithMetadata) (position : ℕ)
    (state' : ExecutionState) : Prop
  | known
      (lookup : state.postStates.lookup pre.accountId = some pre.account)
      (position_eq : state.position pre.accountId = some position)
      (flag : pre.isAuthorized = true ↔
        Authorizes accountIdentities call state pre.accountId position)
      (preStates : state'.preStates = state.preStates)
      (global : state'.globallyAuthorized = state.globallyAuthorized)
  | witnessed
      (lookup : state.postStates.lookup pre.accountId = none)
      (position_eq : position = state.preStates.length)
      (witness : (privatePdaByPosition accountIdentities position).isSome = true)
      (flag : pre.isAuthorized = true ↔
        Authorizes accountIdentities call state pre.accountId position)
      (preStates : state'.preStates = state.preStates ++ [pre])
      (global : state'.globallyAuthorized = state.globallyAuthorized)
  | delegated
      (lookup : state.postStates.lookup pre.accountId = none)
      (position_eq : position = state.preStates.length)
      (witness : privatePdaByPosition accountIdentities position = none)
      (seeded : Seeded (DerivesPublic pre.accountId) call)
      (flag : pre.isAuthorized = true)
      (preStates : state'.preStates = state.preStates ++ [{ pre with isAuthorized := false }])
      (global : state'.globallyAuthorized = state.globallyAuthorized)
  | plain
      (lookup : state.postStates.lookup pre.accountId = none)
      (position_eq : position = state.preStates.length)
      (witness : privatePdaByPosition accountIdentities position = none)
      (unseeded : ¬Seeded (DerivesPublic pre.accountId) call)
      (preStates : state'.preStates = state.preStates ++ [pre])
      (global : state'.globallyAuthorized =
        if pre.isAuthorized then insert pre.accountId state.globallyAuthorized
        else state.globallyAuthorized)

theorem authorizeFirstSight_ok {masked : Bool}
    (hwitness : privatePdaByPosition accountIdentities position = none)
    (h : authorizeFirstSightWithoutPdaWitness state call.2 call.1.pdaSeeds pre
      = .ok (state', masked)) :
    Frame accountIdentities pre.accountId position state state' ∧
      state'.preStates = state.preStates ∧ Binds pre.accountId state state' ∧
      Passed accountIdentities call state' pre.accountId position ∧
      ((Seeded (DerivesPublic pre.accountId) call ∧ pre.isAuthorized = true ∧ masked = true ∧
          state'.globallyAuthorized = state.globallyAuthorized) ∨
        (¬Seeded (DerivesPublic pre.accountId) call ∧ masked = false ∧
          state'.globallyAuthorized =
            if pre.isAuthorized then insert pre.accountId state.globallyAuthorized
            else state.globallyAuthorized)) := by
  unfold authorizeFirstSightWithoutPdaWitness at h
  unfold Passed matchCallerSeed
  split at h
  · rename_i seed issuer hmatch
    obtain ⟨hissuer, hseed, hderives⟩ := matchCallerSeedAsPublicPda_eq_some hmatch
    obtain ⟨hflag, h⟩ := ensure_bind_eq_ok.mp h
    obtain ⟨bindings, hbindings, h⟩ := bind_eq_ok.mp h
    have hfamily := assertFamilyBinding_ok hbindings
    cases h
    refine ⟨⟨rfl, rfl, rfl, fun _ _ hk => .inl hk⟩, rfl, .of_family hfamily rfl, ?_,
      .inl ⟨⟨issuer, hissuer, seed, hseed, hderives⟩, hflag, rfl, rfl⟩⟩
    rintro _ _ _ ⟨⟩
    exact ⟨hfamily.lookup_self, by simp⟩
  · rename_i hmatch
    have hunseeded := matchCallerSeedAsPublicPda_eq_none.mp hmatch
    rw [matchCallerSeedAsPrivatePda, hwitness]
    split at h
    · rename_i hflag
      cases h
      exact ⟨⟨rfl, rfl, rfl, fun _ _ hk => .inl hk⟩, rfl, .of_same rfl rfl, by simp,
        .inr ⟨hunseeded, rfl, by rw [if_pos hflag]⟩⟩
    · rename_i hflag
      cases h
      exact ⟨Frame.refl _ _ _, rfl, .of_same rfl rfl, by simp,
        .inr ⟨hunseeded, rfl, by rw [if_neg hflag]⟩⟩

/-- **What the first half can do.**  It records the pair that the witness of a new account names,
and the seed that the caller passed for the account. -/
theorem syncPreState_ok (h : syncPreState accountIdentities call state pre = .ok state') :
    ∃ position, Frame accountIdentities pre.accountId position state state' ∧
      Sighting accountIdentities call state pre position state' ∧
      Binds pre.accountId state state' ∧
      (∀ k pair, state.preStates.length ≤ k → k < state'.preStates.length →
        namedPair accountIdentities k = some pair →
          state'.privatePdaBoundPositions.lookup k = some pair) ∧
      Passed accountIdentities call state' pre.accountId position := by
  unfold syncPreState at h
  split at h
  · rename_i known hlook
    obtain ⟨hknown, hrest⟩ := ensure_bind_eq_ok.mp h
    subst hknown
    split at hrest
    · cases hrest
    · rename_i position hposition
      obtain ⟨hbook, ⟨hbinds, hpassed⟩, hflag⟩ := assertAuthorizationAndRecordBindings_ok hrest
      refine ⟨position, hbook.toFrame,
        .known hlook hposition hflag hbook.preStates hbook.globallyAuthorized, hbinds, ?_, hpassed⟩
      intro k pair hle hlt
      rw [hbook.preStates] at hlt
      omega
  · rename_i hlook
    obtain ⟨mid, hmid, h⟩ := bind_eq_ok.mp h
    obtain ⟨hexternal, hbindsMid, hnamed⟩ := bindExternalSeed_ok hmid
    -- only the account is new, so only its witness names a pair
    have hnamed' : ∀ {last : ExecutionState}, Binds pre.accountId mid last →
        ∀ k pair, state.preStates.length ≤ k → k < state.preStates.length + 1 →
          namedPair accountIdentities k = some pair →
            last.privatePdaBoundPositions.lookup k = some pair := by
      intro last hbinds k pair hle hlt hpair
      obtain rfl : k = state.preStates.length := by omega
      exact hbinds.positions _ _ (hnamed pair hpair)
    refine ⟨state.preStates.length, ?_⟩
    split at h
    · rename_i hwitness
      obtain ⟨last, hlast, h⟩ := bind_eq_ok.mp h
      obtain ⟨hbook, ⟨hbinds, hpassed⟩, hflag⟩ := assertAuthorizationAndRecordBindings_ok hlast
      rw [Authorizes, hexternal.globallyAuthorized] at hflag
      rw [← ok.inj h, hbook.preStates, hexternal.preStates]
      have hframe := hexternal.toFrame.trans hbook.toFrame
      refine ⟨{ hframe with },
        .witnessed hlook rfl hwitness hflag rfl ?_,
        (hbindsMid.trans hbinds).trans (.of_same rfl rfl), ?_, hpassed⟩
      · rw [hbook.globallyAuthorized, hexternal.globallyAuthorized]
      · simpa using hnamed' hbinds
    · rename_i hwitness
      have hwitness := Option.not_isSome_iff_eq_none.mp hwitness
      obtain ⟨⟨last, masked⟩, hlast, h⟩ := bind_eq_ok.mp h
      obtain ⟨hframe', hpre, hbinds, hpassed, hcases⟩ := authorizeFirstSight_ok hwitness hlast
      have hframe := hexternal.toFrame.trans hframe'
      rw [hexternal.preStates] at hpre
      rw [← ok.inj h]
      refine ⟨{ hframe with }, ?_, (hbindsMid.trans hbinds).trans (.of_same rfl rfl), ?_, hpassed⟩
      · rcases hcases with ⟨hseeded, hflag, rfl, hglobal⟩ | ⟨hunseeded, rfl, hglobal⟩
        · exact .delegated hlook rfl hwitness hseeded hflag (by simp [hpre])
            (by rw [hglobal, hexternal.globallyAuthorized])
        · exact .plain hlook rfl hwitness hunseeded (by simp [hpre])
            (by rw [hglobal, hexternal.globallyAuthorized])
      · simpa [hpre] using hnamed' hbinds

/-! ### Claims -/

/-- The grounds on which the circuit lets a program claim an account. -/
def MayClaim (accountIdentities : List InputAccountIdentity) (programId : ProgramId)
    (pre : AccountWithMetadata) (position : ℕ) (claim : Claim) : Prop :=
  ∃ identity, accountIdentities[position]? = some identity ∧
    match identity, claim with
    | .publicAccount, .authorized => pre.isAuthorized = true
    | .publicAccount, .pda seed => pre.accountId = forPublicPda programId seed
    | .privateAccount _, .authorized => True
    | .privateAccount _, .pda seed =>
      ∃ keys, privatePdaByPosition accountIdentities position = some keys ∧
        DerivesPrivate keys pre.accountId programId seed

/-- **What the second half can do.** -/
theorem claimPostState_ok {account : Account}
    (h : claimPostState accountIdentities programId state pre post = .ok (state', account)) :
    (post.claim = none ∧ state' = state ∧ account = post.account) ∨
      ∃ claim position identity, post.claim = some claim ∧
        state.position pre.accountId = some position ∧
        accountIdentities[position]? = some identity ∧
        post.account.programOwner = defaultProgramOwner ∧
        MayClaim accountIdentities programId pre position claim ∧
        Bookkeeping accountIdentities pre.accountId position state state' ∧
        Binds pre.accountId state state' ∧
        (∀ seed, claim = .pda seed →
          OnRecord state' pre.accountId position (!identity.isPublic) (programId, seed)) ∧
        account = { post.account with programOwner := .ofProgramId programId } := by
  unfold claimPostState at h
  cases hclaim : post.claim with
  | none =>
    rw [hclaim] at h
    cases h
    exact .inl ⟨rfl, rfl, rfl⟩
  | some claim =>
    simp only [hclaim] at h
    obtain ⟨howner, hrest⟩ := ensure_bind_eq_ok.mp h
    clear h
    right
    cases hposition : state.position pre.accountId with
    | none =>
      simp only [hposition] at hrest
      cases hrest
    | some position =>
      cases hidentity : accountIdentities[position]? with
      | none =>
        simp only [hposition, hidentity] at hrest
        cases hrest
      | some identity =>
        refine ⟨claim, position, identity, rfl, rfl, hidentity, howner, ?_⟩
        simp only [hposition, hidentity] at hrest
        cases identity with
        | publicAccount =>
          cases claim with
          | authorized =>
            obtain ⟨hflag, hrest⟩ := ensure_bind_eq_ok.mp hrest
            cases hrest
            exact ⟨⟨_, hidentity, hflag⟩, ⟨Frame.refl _ _ _, rfl, rfl⟩, .of_same rfl rfl, by simp,
              rfl⟩
          | pda seed =>
            obtain ⟨hpda, hrest⟩ := ensure_bind_eq_ok.mp hrest
            obtain ⟨bindings, hbindings, hrest⟩ := bind_eq_ok.mp hrest
            have hfamily := assertFamilyBinding_ok hbindings
            cases hrest
            refine ⟨⟨_, hidentity, hpda⟩, ⟨⟨rfl, rfl, rfl, fun _ _ hk => .inl hk⟩, rfl, rfl⟩,
              .of_family hfamily rfl, ?_, rfl⟩
            rintro _ ⟨⟩
            exact ⟨hfamily.lookup_self, by simp [InputAccountIdentity.isPublic]⟩
        | privateAccount witness =>
          cases claim with
          | authorized =>
            cases hrest
            exact ⟨⟨_, hidentity, trivial⟩, ⟨Frame.refl _ _ _, rfl, rfl⟩, .of_same rfl rfl,
              by simp, rfl⟩
          | pda seed =>
            cases hkeys : privatePdaByPosition accountIdentities position with
            | none =>
              simp only [hkeys] at hrest
              cases hrest
            | some keys =>
              simp only [hkeys] at hrest
              obtain ⟨hpda, hrest⟩ := ensure_bind_eq_ok.mp hrest
              obtain ⟨map, hmap, hrest⟩ := bind_eq_ok.mp hrest
              obtain ⟨bindings, hbindings, hrest⟩ := bind_eq_ok.mp hrest
              have hfamily := assertFamilyBinding_ok hbindings
              have hpositions := bindPrivatePdaPosition_ok hmap
              cases hrest
              refine ⟨⟨_, hidentity, keys, hkeys, hpda.symm⟩,
                ⟨Frame.of_bind hkeys hpda.symm hmap, rfl, rfl⟩, .of_both hfamily hpositions, ?_,
                rfl⟩
              rintro _ ⟨⟩
              exact ⟨hfamily.lookup_self, fun _ => hpositions.lookup_self⟩

/-! ### One account -/

omit [Sha256] in
theorem ExecutionState.position_eq_some (h : state.position accountId = some position) :
    ∃ recorded, state.preStates[position]? = some recorded ∧ recorded.accountId = accountId := by
  obtain ⟨hlt, hid, -⟩ := List.findIdx?_eq_some_iff_getElem.mp h
  exact ⟨_, getElem?_eq_getElem hlt, of_decide_eq_true hid⟩

/-- An account that is met is recorded already, or is the last one recorded. -/
theorem Sighting.preStates_cases (h : Sighting accountIdentities call state pre position state') :
    (state.postStates.lookup pre.accountId = some pre.account ∧
        state.position pre.accountId = some position ∧ state'.preStates = state.preStates) ∨
      (state.postStates.lookup pre.accountId = none ∧ position = state.preStates.length ∧
        ∃ recorded, state'.preStates = state.preStates ++ [recorded] ∧
          recorded.accountId = pre.accountId ∧ recorded.account = pre.account) := by
  cases h with
  | known lookup position_eq _ preStates _ => exact .inl ⟨lookup, position_eq, preStates⟩
  | witnessed lookup position_eq _ _ preStates _ | delegated lookup position_eq _ _ _ preStates _
  | plain lookup position_eq _ _ preStates _ =>
    exact .inr ⟨lookup, position_eq, _, preStates, rfl, rfl⟩

/-- The account met is recorded at its position, after what was recorded before. -/
theorem Sighting.recorded (h : Sighting accountIdentities call state pre position state') :
    state.preStates <+: state'.preStates ∧
      ∃ recorded, state'.preStates[position]? = some recorded ∧
        recorded.accountId = pre.accountId := by
  rcases h.preStates_cases with ⟨-, hposition, hpre⟩ | ⟨-, rfl, recorded, hpre, hid, -⟩
  · rw [hpre]
    exact ⟨List.prefix_refl _, ExecutionState.position_eq_some hposition⟩
  · rw [hpre]
    exact ⟨prefix_append _ _, recorded, List.getElem?_concat_length, hid⟩

/-- Everything that syncing one account can do. -/
structure Synced (accountIdentities : List InputAccountIdentity) (call : Call)
    (state : ExecutionState) (pre : AccountWithMetadata) (post : AccountPostState)
    (state' : ExecutionState) : Prop where
  sighting : ∃ position, Sighting accountIdentities call state pre position state'
  claim : ∃ account, state'.postStates = state.postStates.insert pre.accountId account ∧
    ((post.claim = none ∧ account = post.account) ∨
      ∃ claim position recorded, post.claim = some claim ∧
        state'.preStates[position]? = some recorded ∧ recorded.accountId = pre.accountId ∧
        post.account.programOwner = defaultProgramOwner ∧
        MayClaim accountIdentities call.1.programId pre position claim ∧
        account = { post.account with programOwner := ofProgramId call.1.programId })
  bound : ∀ k binding, state'.privatePdaBoundPositions.lookup k = some binding →
    state.privatePdaBoundPositions.lookup k = some binding ∨
      ∃ keys recorded, privatePdaByPosition accountIdentities k = some keys ∧
        state'.preStates[k]? = some recorded ∧ recorded.accountId = pre.accountId ∧
        DerivesPrivate keys pre.accountId binding.1 binding.2
  block : state'.blockValidityWindow = state.blockValidityWindow
  time : state'.timestampValidityWindow = state.timestampValidityWindow

/-- A sighting only speaks of the accounts recorded and of those authorized globally. -/
theorem Sighting.congr {final : ExecutionState}
    (h : Sighting accountIdentities call state pre position state')
    (hpre : final.preStates = state'.preStates)
    (hglobal : final.globallyAuthorized = state'.globallyAuthorized) :
    Sighting accountIdentities call state pre position final := by
  cases h with
  | known lookup position_eq flag preStates global =>
    exact .known lookup position_eq flag (hpre.trans preStates) (hglobal.trans global)
  | witnessed lookup position_eq witness flag preStates global =>
    exact .witnessed lookup position_eq witness flag (hpre.trans preStates) (hglobal.trans global)
  | delegated lookup position_eq witness seeded flag preStates global =>
    exact .delegated lookup position_eq witness seeded flag (hpre.trans preStates)
      (hglobal.trans global)
  | plain lookup position_eq witness unseeded preStates global =>
    exact .plain lookup position_eq witness unseeded (hpre.trans preStates) (hglobal.trans global)

/-- **What syncing an account can do.** -/
theorem syncAccount_ok (h : syncAccount accountIdentities call state (pre, post) = .ok state') :
    Synced accountIdentities call state pre post state' := by
  obtain ⟨mid, hmid, h⟩ := bind_eq_ok.mp h
  obtain ⟨⟨last, account⟩, hlast, h⟩ := bind_eq_ok.mp h
  obtain ⟨position, hframe, hsighting, -⟩ := syncPreState_ok hmid
  have hstate := (ok.inj h).symm
  have hrecorded := hsighting.recorded.2
  have hboundMid : ∀ k binding, mid.privatePdaBoundPositions.lookup k = some binding →
      state.privatePdaBoundPositions.lookup k = some binding ∨
        ∃ keys recorded, privatePdaByPosition accountIdentities k = some keys ∧
          mid.preStates[k]? = some recorded ∧ recorded.accountId = pre.accountId ∧
          DerivesPrivate keys pre.accountId binding.1 binding.2 := by
    intro k binding hk
    rcases hframe.bound k binding hk with hold | ⟨rfl, keys, hkeys, hderives⟩
    · exact .inl hold
    · obtain ⟨recorded, hat, hid⟩ := hrecorded
      exact .inr ⟨keys, recorded, hkeys, hat, hid, hderives⟩
  rcases claimPostState_ok hlast with ⟨hnone, hsame, haccount⟩ |
      ⟨claim, position', -, hclaim, hposition, -, howner, hmay, hbook, -, -, haccount⟩
  · subst hsame hstate
    exact
      { sighting := ⟨position, hsighting.congr rfl rfl⟩
        claim := ⟨account, by rw [hframe.postStates], .inl ⟨hnone, haccount⟩⟩
        bound := hboundMid
        block := hframe.block
        time := hframe.time }
  · subst hstate
    obtain ⟨recorded, hat, hid⟩ := ExecutionState.position_eq_some hposition
    refine
      { sighting := ⟨position, hsighting.congr hbook.preStates hbook.globallyAuthorized⟩
        claim := ⟨account, by rw [hbook.postStates, hframe.postStates], .inr
          ⟨claim, position', recorded, hclaim, by rw [hbook.preStates, hat], hid, howner, hmay,
            haccount⟩⟩
        bound := ?_
        block := hbook.block.trans hframe.block
        time := hbook.time.trans hframe.time }
    intro k binding hk
    simp only [hbook.preStates]
    rcases hbook.bound k binding hk with hold | ⟨rfl, keys, hkeys, hderives⟩
    · exact hboundMid k binding hold
    · exact .inr ⟨keys, recorded, hkeys, hat, hid, hderives⟩

end Circuit

end Lssa
