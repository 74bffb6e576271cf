/-
Public execution and the privacy circuit agree on an account.

The same call tree can be executed by the chain, or proved to it with every account
public.  The two interpreters know different things.  The chain has the state and the
signers at hand; the circuit takes an account as given the first time it sees it, and
leaves it to the verifier to compare what it recorded with the state and the signers
(`RecordsState`).  The chain passes the signers down as authorized; the circuit keeps
them apart, in `globallyAuthorized`, as it meets them.

* `Agree` — the relation between the diff of the chain and the state of the circuit;
* `CallAgrees` — the relation between the calls on their work lists;
* `agree_forward`, `agree_backward` — one account, in either direction;
* `sync_forward`, `sync_backward` — the accounts of one output.
-/
import Lssa.PublicExecution
import Lssa.Circuit.Walk

open Outcome DepthFirst

namespace Lssa

namespace Agreement

open PublicExecution Circuit

/-- Every account is public. -/
abbrev allPublic (n : ℕ) : List InputAccountIdentity := replicate n .publicAccount

/-- What the verifier compares: the contents of the state, and the signers. -/
def RecordsState (state : V03State) (signers : List AccountId) (es : ExecutionState) : Prop :=
  ∀ recorded ∈ es.preStates, recorded.account = state.getAccountById recorded.accountId ∧
    (recorded.isAuthorized = true ↔ recorded.accountId ∈ signers)

variable [Sha256]

/-! ### One account in public execution -/

/-- What the public loop does for one account of an output. -/
def syncPublic (state : V03State) (call : Call) (diff : Diff)
    (pair : AccountWithMetadata × AccountPostState) : Except LeeError Diff := do
  checkPreState state diff call pair.1
  let account ← claimAccount call.1.programId pair.1 pair.2
  pure (diff.insert pair.1.accountId account)

section

variable {state : V03State} {call : Call} {diff diff' : Diff}

theorem syncPublic_eq_ok {pair : AccountWithMetadata × AccountPostState} :
    syncPublic state call diff pair = .ok diff' ↔
      checkPreState state diff call pair.1 = .ok () ∧
        ∃ account, claimAccount call.1.programId pair.1 pair.2 = .ok account ∧
          diff' = diff.insert pair.1.accountId account := by
  unfold syncPublic
  rw [bind_eq_ok]
  constructor
  · rintro ⟨_, hcheck, h⟩
    obtain ⟨account, hclaim, h⟩ := bind_eq_ok.mp h
    exact ⟨hcheck, account, hclaim, (ok.inj h).symm⟩
  · rintro ⟨hcheck, account, hclaim, rfl⟩
    exact ⟨(), hcheck, bind_eq_ok.mpr ⟨account, hclaim, rfl⟩⟩

/-- The accounts of an output are distinct, so that it makes no difference whether they
are all checked first and then written, or one by one. -/
theorem foldlM_syncPublic {pairs : List (AccountWithMetadata × AccountPostState)}
    (hnodup : (pairs.map fun pair => pair.1.accountId).Nodup) :
    pairs.foldlM (syncPublic state call) diff = .ok diff' ↔
      (∀ pair ∈ pairs, checkPreState state diff call pair.1 = .ok ()) ∧
        ∃ accounts, List.Forall₂ (fun (pair : AccountWithMetadata × AccountPostState) account =>
            claimAccount call.1.programId pair.1 pair.2 = .ok account) pairs accounts ∧
          diff' = insertAll diff ((pairs.map fun pair => pair.1.accountId).zip accounts) := by
  induction pairs generalizing diff with
  | nil =>
    constructor
    · intro h
      have hsame : diff = diff' := by simpa [pure, Except.pure] using h
      exact ⟨by simp, [], .nil, hsame.symm⟩
    · rintro ⟨-, accounts, haccounts, rfl⟩
      cases haccounts
      rfl
  | cons pair pairs ih =>
    rw [map_cons, nodup_cons] at hnodup
    obtain ⟨hnew, hnodup⟩ := hnodup
    have hlater : ∀ {account}, ∀ later ∈ pairs,
        checkPreState state (diff.insert pair.1.accountId account) call later.1
          = checkPreState state diff call later.1 := by
      intro account later hlater
      unfold checkPreState overlay
      rw [lookup_insert_ne fun heq => hnew (mem_map.mpr ⟨later, hlater, heq⟩)]
    rw [foldlM_cons_eq_ok]
    constructor
    · rintro ⟨mid, hmid, hrest⟩
      obtain ⟨hcheck, account, hclaim, rfl⟩ := syncPublic_eq_ok.mp hmid
      obtain ⟨hchecks, accounts, hclaims, rfl⟩ := (ih hnodup).mp hrest
      refine ⟨forall_mem_cons.mpr ⟨hcheck, fun later hmem => ?_⟩, account :: accounts,
        .cons hclaim hclaims, rfl⟩
      rw [← hlater later hmem]
      exact hchecks later hmem
    · rintro ⟨hchecks, _, hclaims, rfl⟩
      cases hclaims with
      | cons hclaim hclaims =>
        rename_i account accounts
        refine ⟨_, syncPublic_eq_ok.mpr ⟨hchecks pair mem_cons_self, account, hclaim, rfl⟩, ?_⟩
        refine (ih hnodup).mpr ⟨fun later hmem => ?_, accounts, hclaims, rfl⟩
        rw [hlater later hmem]
        exact hchecks later (mem_cons_of_mem _ hmem)

/-- A round of the public loop, with its accounts taken one by one. -/
theorem step_iff {exec : Executor} {blockId : BlockId} {timestamp : Timestamp}
    {output : ProgramOutput} :
    PublicExecution.Step exec state blockId timestamp diff call output diff' ↔
      execute exec state call = .ok output ∧
      output.selfProgramId = call.1.programId ∧ output.callerProgramId = call.2.programId ∧
      validateExecution output.preStates output.postStates call.1.programId = .ok () ∧
      output.blockValidityWindow.isValidFor blockId = true ∧
      output.timestampValidityWindow.isValidFor timestamp = true ∧
      (output.preStates.zip output.postStates).foldlM (syncPublic state call) diff = .ok diff' := by
  have hids : ValidExecution output.preStates output.postStates call.1.programId →
      (output.preStates.zip output.postStates).map (fun pair => pair.1.accountId)
        = output.preStates.map (·.accountId) := by
    intro hvalid
    conv_rhs => rw [← hvalid.map_fst_zip, map_map]
    rfl
  constructor
  · intro h
    have hvalid := validateExecution_ok h.valid
    refine ⟨h.executed, h.selfProgramId, h.callerProgramId, h.valid, h.block, h.time, ?_⟩
    rw [foldlM_syncPublic (by rw [hids hvalid]; exact hvalid.nodup), hids hvalid]
    refine ⟨fun pair hpair => checkPreState_eq_ok.mpr ?_, h.claims⟩
    have hpre := (of_mem_zip hpair).1
    exact ⟨h.consistent _ hpre, h.authorization _ hpre⟩
  · rintro ⟨hexec, hself, hcaller, hok, hblock, htime, hsync⟩
    have hvalid := validateExecution_ok hok
    rw [foldlM_syncPublic (by rw [hids hvalid]; exact hvalid.nodup), hids hvalid] at hsync
    obtain ⟨hchecks, hclaims⟩ := hsync
    have hpre : ∀ pre ∈ output.preStates, checkPreState state diff call pre = .ok () := by
      intro pre hmem
      obtain ⟨post, hpair⟩ := hvalid.exists_post hmem
      exact hchecks _ hpair
    exact ⟨hexec, fun pre hmem => (checkPreState_eq_ok.mp (hpre pre hmem)).1,
      fun pre hmem => (checkPreState_eq_ok.mp (hpre pre hmem)).2, hself, hcaller, hok, hblock,
      htime, hclaims⟩

end

/-! ### The relation -/

/-- The diff of the chain and the state of the circuit agree. -/
structure Agree (state : V03State) (signers : List AccountId) (touched : Finset AccountId)
    (diff : Diff) (es : ExecutionState) : Prop where
  lookup : ∀ accountId, es.postStates.lookup accountId = diff.lookup accountId
  wellFormed : WellFormed es
  recorded : RecordsState state signers es
  global : ∀ accountId, accountId ∈ es.globallyAuthorized ↔
    accountId ∈ signers ∧ accountId ∈ es.preStates.map (·.accountId)
  touched : ∀ accountId ∈ es.preStates.map (·.accountId), accountId ∈ touched

/-- The chain passes the signers down, the circuit does not; otherwise the calls agree in
all that authority depends on. -/
structure CallAgrees (signers : List AccountId) (es : ExecutionState) (call call' : Call) :
    Prop where
  programId : call'.1.programId = call.1.programId
  pdaSeeds : call'.1.pdaSeeds = call.1.pdaSeeds
  issuer : call'.2.programId = call.2.programId
  authorized : ∀ accountId, accountId ∈ call.2.authorizedAccounts ↔
    accountId ∈ signers ∨ accountId ∈ call'.2.authorizedAccounts
  recorded : ∀ accountId ∈ call'.2.authorizedAccounts, accountId ∈ es.preStates.map (·.accountId)
  /-- No signer is a PDA that the call delegates. -/
  unsigned : ∀ accountId, Seeded (DerivesPublic accountId) call → accountId ∉ signers

section

variable {state : V03State} {signers : List AccountId} {touched : Finset AccountId}
  {diff diff' : Diff} {es es' : ExecutionState} {call call' : Call} {n : ℕ}
  {pre : AccountWithMetadata} {post : AccountPostState}

variable {position : ℕ} {accountId : AccountId} {account : Account}
  {pairs : List (AccountWithMetadata × AccountPostState)}

omit [Sha256] in
theorem allPublic_getElem? (h : position < n) :
    (allPublic n)[position]? = some .publicAccount := by
  rw [List.getElem?_replicate, if_pos h]

theorem privatePdaByPosition_allPublic (n position : ℕ) :
    privatePdaByPosition (allPublic n) position = none := by
  rw [privatePdaByPosition, List.getElem?_replicate]
  split
  · rfl
  · rfl

section

variable (h : CallAgrees signers es call call')

include h

theorem CallAgrees.seeded :
    Seeded (DerivesPublic accountId) call' ↔ Seeded (DerivesPublic accountId) call := by
  unfold Seeded
  rw [h.pdaSeeds, h.issuer]

theorem CallAgrees.isAuthorized :
    isAuthorized call accountId = true ↔
      Seeded (DerivesPublic accountId) call' ∨ accountId ∈ signers ∨
        accountId ∈ call'.2.authorizedAccounts := by
  rw [isAuthorized_iff, h.authorized, h.seeded]

theorem CallAgrees.mono (hextends : Extends es es') :
    CallAgrees signers es' call call' :=
  { h with recorded := fun accountId hmem =>
      (hextends.preStates.map _).subset (h.recorded accountId hmem) }

end

section

variable (h : Agree state signers touched diff es)

include h

omit [Sha256] in
theorem Agree.mem_iff :
    accountId ∈ es.preStates.map (·.accountId) ↔ (diff.lookup accountId).isSome = true := by
  rw [← h.wellFormed.mem_iff, ← h.lookup, lookup_isSome]

/-- For an account seen before, both interpreters have the same idea of authority. -/
theorem Agree.authorizes (hcall : CallAgrees signers es call call')
    (hmem : pre.accountId ∈ es.preStates.map (·.accountId)) (position : ℕ) :
    Authorizes (allPublic n) call' es pre.accountId position ↔
      isAuthorized call pre.accountId = true := by
  rw [hcall.isAuthorized]
  have hglobal : pre.accountId ∈ es.globallyAuthorized ↔ pre.accountId ∈ signers := by
    rw [h.global]
    exact and_iff_left hmem
  unfold Authorizes
  rw [hglobal, privatePdaByPosition_allPublic]
  simp

/-- For an account seen for the first time, only the signers and the call itself count. -/
theorem Agree.isAuthorized_of_new (hcall : CallAgrees signers es call call')
    (hnew : diff.lookup pre.accountId = none) :
    isAuthorized call pre.accountId = true ↔
      Seeded (DerivesPublic pre.accountId) call' ∨ pre.accountId ∈ signers := by
  have hnot : pre.accountId ∉ call'.2.authorizedAccounts := by
    intro hmem
    have hsome := h.mem_iff.mp (hcall.recorded _ hmem)
    rw [hnew] at hsome
    cases hsome
  rw [hcall.isAuthorized]
  simp [hnot]

end

/-! ### One account, from the circuit to the chain -/

theorem claimAccount_of_synced (hcall : CallAgrees signers es call call')
    (hsynced : Synced (allPublic n) call' es pre post es') :
    ∃ account, es'.postStates = es.postStates.insert pre.accountId account ∧
      claimAccount call.1.programId pre post = .ok account := by
  obtain ⟨account, hpost, hclaim⟩ := hsynced.claim
  refine ⟨account, hpost, ?_⟩
  unfold claimAccount
  rcases hclaim with ⟨hnone, rfl⟩ | ⟨claim, position, -, hclaim, -, -, howner, hmay, rfl⟩
  · rw [hnone]
  · rw [hclaim]
    obtain ⟨identity, hidentity, hmay⟩ := hmay
    obtain rfl : identity = .publicAccount :=
      List.eq_of_mem_replicate (mem_of_getElem? hidentity)
    refine ensure_bind_eq_ok.mpr ⟨howner, ?_⟩
    rw [hcall.programId] at hmay ⊢
    cases claim with
    | authorized | pda seed => exact ensure_bind_eq_ok.mpr ⟨hmay, rfl⟩

/-- With public accounts only, an account is known, or it is recorded with the flag that is
kept for later calls. -/
theorem sighting_public (hsighting : Sighting (allPublic n) call' es pre position es') :
    (es.postStates.lookup pre.accountId = some pre.account ∧
      (pre.isAuthorized = true ↔ Authorizes (allPublic n) call' es pre.accountId position) ∧
      es'.preStates = es.preStates ∧ es'.globallyAuthorized = es.globallyAuthorized) ∨
    es.postStates.lookup pre.accountId = none ∧ ∃ kept : Bool,
      es'.preStates = es.preStates ++ [{ pre with isAuthorized := kept }] ∧
      es'.globallyAuthorized =
        (if kept then insert pre.accountId es.globallyAuthorized else es.globallyAuthorized) ∧
      (Seeded (DerivesPublic pre.accountId) call' → kept = false) ∧
      (pre.isAuthorized = true ↔ Seeded (DerivesPublic pre.accountId) call' ∨ kept = true) := by
  cases hsighting with
  | known lookup _ flag preStates global => exact .inl ⟨lookup, flag, preStates, global⟩
  | witnessed _ _ witness _ _ _ =>
    rw [privatePdaByPosition_allPublic] at witness
    cases witness
  | delegated lookup _ _ seeded flag preStates global =>
    exact .inr ⟨lookup, false, preStates, global, fun _ => rfl, by simp [seeded, flag]⟩
  | plain lookup _ _ unseeded preStates global =>
    exact .inr ⟨lookup, pre.isAuthorized, preStates, global, fun h => absurd h unseeded,
      by simp [unseeded]⟩

/-- What the circuit lets pass, the chain lets pass, if the verifier agrees with what was
recorded. -/
theorem agree_backward (h : Agree state signers touched diff es)
    (hcall : CallAgrees signers es call call')
    (hsynced : Synced (allPublic n) call' es pre post es')
    (hrecorded : RecordsState state signers es') :
    ∃ account, es'.postStates = es.postStates.insert pre.accountId account ∧
      syncPublic state call diff (pre, post) = .ok (diff.insert pre.accountId account) := by
  obtain ⟨account, hpost, hclaim⟩ := claimAccount_of_synced hcall hsynced
  refine ⟨account, hpost, syncPublic_eq_ok.mpr ⟨checkPreState_eq_ok.mpr ?_, account, hclaim, rfl⟩⟩
  obtain ⟨position, hsighting⟩ := hsynced.sighting
  rcases sighting_public hsighting with ⟨hlook, hflag, -, -⟩ | ⟨hlook, kept, hpre, -, -, hflag⟩
  · rw [h.lookup] at hlook
    have hmem := h.mem_iff.mpr (by rw [hlook]; rfl)
    rw [hflag, h.authorizes hcall hmem]
    exact ⟨by rw [overlay, hlook]; rfl, Iff.rfl⟩
  · rw [h.lookup] at hlook
    obtain ⟨haccount, hsigner⟩ :=
      hrecorded { pre with isAuthorized := kept } (by rw [hpre]; simp)
    refine ⟨by rw [overlay, hlook]; exact haccount, ?_⟩
    rw [h.isAuthorized_of_new hcall hlook, hflag]
    exact or_congr_right hsigner

/-- What is recorded stays among the touched accounts. -/
theorem Agree.touched_of_sighting (h : Agree state signers touched diff es)
    (hsighting : Sighting (allPublic n) call' es pre position es')
    (htouched : pre.accountId ∈ touched) :
    ∀ accountId ∈ es'.preStates.map (·.accountId), accountId ∈ touched := by
  intro accountId hmem
  rcases hsighting.preStates_cases with ⟨-, -, hpre⟩ | ⟨-, -, recorded, hpre, hid, -⟩
  · exact h.touched accountId (hpre ▸ hmem)
  · rw [hpre, map_append, mem_append, map_singleton, mem_singleton, hid] at hmem
    rcases hmem with hmem | rfl
    · exact h.touched accountId hmem
    · exact htouched

/-- The relation is kept by an account that both let pass. -/
theorem Agree.synced (h : Agree state signers touched diff es)
    (hsynced : Synced (allPublic n) call' es pre post es')
    (hpost : es'.postStates = es.postStates.insert pre.accountId account)
    (hrecorded : RecordsState state signers es') (htouched : pre.accountId ∈ touched) :
    Agree state signers touched (diff.insert pre.accountId account) es' := by
  obtain ⟨position, hsighting⟩ := hsynced.sighting
  refine ⟨fun accountId => ?_, hsynced.wellFormed h.wellFormed, hrecorded, fun accountId => ?_, ?_⟩
  · rw [hpost]
    by_cases heq : accountId = pre.accountId
    · subst heq
      rw [lookup_insert, lookup_insert]
    · rw [lookup_insert_ne heq, lookup_insert_ne heq, h.lookup]
  · have hglobal := h.global accountId
    rcases sighting_public hsighting with ⟨-, -, hpre, heq⟩ | ⟨-, kept, hpre, heq, -, -⟩
    · rw [hpre, heq, hglobal]
    · have hsigner : kept = true ↔ pre.accountId ∈ signers :=
        (hrecorded { pre with isAuthorized := kept } (by rw [hpre]; simp)).2
      rw [hpre, heq, map_append, mem_append, map_singleton, mem_singleton]
      split
      · grind
      · grind
  · exact h.touched_of_sighting hsighting htouched

/-! ### One account, from the chain to the circuit -/

/-- Seeds are bound to the public PDAs they derive, so no two bindings are in conflict. -/
def FamiliesPublic (bindings : Map (ProgramId × PdaSeed) AccountId) : Prop :=
  ∀ programId seed accountId, bindings.lookup (programId, seed) = some accountId →
    forPublicPda programId seed = accountId

theorem assertFamilyBinding_public {bindings : Map (ProgramId × PdaSeed) AccountId}
    {programId : ProgramId} {seed : PdaSeed} (h : FamiliesPublic bindings)
    (hpda : forPublicPda programId seed = accountId) :
    ∃ bindings', assertFamilyBinding bindings programId seed accountId = .ok bindings' ∧
      FamiliesPublic bindings' := by
  unfold assertFamilyBinding
  cases hlook : bindings.lookup (programId, seed) with
  | none =>
    refine ⟨_, rfl, fun p s a hbound => ?_⟩
    by_cases heq : (p, s) = (programId, seed)
    · obtain ⟨rfl, rfl⟩ := Prod.mk.inj heq
      rw [lookup_insert, some_inj] at hbound
      rw [hpda, hbound]
    · rw [lookup_insert_ne heq] at hbound
      exact h p s a hbound
  | some existing =>
    have hexisting : existing = accountId := (h _ _ _ hlook).symm.trans hpda
    exact ⟨bindings, by simp [hexisting], h⟩

theorem recordBindings_public (h : FamiliesPublic es.pdaFamilyBinding) (n : ℕ) (call' : Call)
    (accountId : AccountId) (position : ℕ) :
    ∃ bindings, recordBindings es accountId position
        (matchCallerSeed (allPublic n) call'.2 call'.1.pdaSeeds accountId position)
        = .ok { es with pdaFamilyBinding := bindings } ∧ FamiliesPublic bindings := by
  unfold matchCallerSeed matchCallerSeedAsPrivatePda
  rw [privatePdaByPosition_allPublic]
  cases hmatch : matchCallerSeedAsPublicPda call'.2 call'.1.pdaSeeds accountId with
  | none => exact ⟨es.pdaFamilyBinding, rfl, h⟩
  | some found =>
    obtain ⟨seed, issuer⟩ := found
    obtain ⟨-, -, hpda⟩ := matchCallerSeedAsPublicPda_eq_some hmatch
    obtain ⟨bindings, hbindings, hpublic⟩ := assertFamilyBinding_public h hpda
    exact ⟨bindings, bind_eq_ok.mpr ⟨bindings, hbindings, rfl⟩, hpublic⟩

theorem assertAuthorization_public (h : FamiliesPublic es.pdaFamilyBinding)
    (hflag : pre.isAuthorized = true ↔ Authorizes (allPublic n) call' es pre.accountId position) :
    ∃ mid, assertAuthorizationAndRecordBindings (allPublic n) es call'.2 call'.1.pdaSeeds
        pre position = .ok mid ∧ FamiliesPublic mid.pdaFamilyBinding := by
  obtain ⟨bindings, hbindings, hpublic⟩ := recordBindings_public h n call' pre.accountId position
  refine ⟨{ es with pdaFamilyBinding := bindings }, ?_, hpublic⟩
  refine bind_eq_ok.mpr ⟨_, hbindings, ensure_bind_eq_ok.mpr ⟨?_, rfl⟩⟩
  rw [Bool.eq_iff_iff, hflag, Bool.or_eq_true, Bool.or_eq_true, decide_eq_true_eq,
    decide_eq_true_eq, matchCallerSeed_isSome, Authorizes, or_assoc, or_assoc]

theorem bindExternalSeed_allPublic (es : ExecutionState) (accountId : AccountId)
    (position : ℕ) :
    bindExternalSeed (allPublic n) es accountId position = .ok es := by
  unfold bindExternalSeed
  rw [List.getElem?_replicate]
  split
  · rename_i h
    split at h
    · cases h
    · cases h
  · rfl

theorem authorizeFirstSight_public (hfamilies : FamiliesPublic es.pdaFamilyBinding)
    (hflag : Seeded (DerivesPublic pre.accountId) call' → pre.isAuthorized = true) :
    ∃ mid masked, authorizeFirstSightWithoutPdaWitness es call'.2 call'.1.pdaSeeds pre
        = .ok (mid, masked) ∧ FamiliesPublic mid.pdaFamilyBinding := by
  unfold authorizeFirstSightWithoutPdaWitness
  cases hmatch : matchCallerSeedAsPublicPda call'.2 call'.1.pdaSeeds pre.accountId with
  | none =>
    dsimp only
    split
    · exact ⟨_, false, rfl, hfamilies⟩
    · exact ⟨es, false, rfl, hfamilies⟩
  | some found =>
    obtain ⟨seed, issuer⟩ := found
    obtain ⟨hissuer, hseed, hpda⟩ := matchCallerSeedAsPublicPda_eq_some hmatch
    obtain ⟨bindings, hbindings, hpublic⟩ := assertFamilyBinding_public hfamilies hpda
    refine ⟨{ es with pdaFamilyBinding := bindings }, true, ?_, hpublic⟩
    refine ensure_bind_eq_ok.mpr ⟨hflag ⟨issuer, hissuer, seed, hseed, hpda⟩, ?_⟩
    exact bind_eq_ok.mpr ⟨bindings, hbindings, rfl⟩

/-- The first half of the circuit lets an account pass that the chain lets pass. -/
theorem syncPreState_public (h : Agree state signers touched diff es)
    (hcall : CallAgrees signers es call call') (hfamilies : FamiliesPublic es.pdaFamilyBinding)
    (haccount : pre.account = overlay state diff pre.accountId)
    (hflag : pre.isAuthorized = true ↔ isAuthorized call pre.accountId = true) :
    ∃ mid, syncPreState (allPublic n) call' es pre = .ok mid ∧
      FamiliesPublic mid.pdaFamilyBinding := by
  unfold syncPreState
  cases hlook : es.postStates.lookup pre.accountId with
  | some known =>
    have hdiff : diff.lookup pre.accountId = some known := by rw [← h.lookup, hlook]
    have hmem := h.mem_iff.mpr (by rw [hdiff]; rfl)
    have hknown : known = pre.account := by rw [haccount, overlay, hdiff, getD_some]
    obtain ⟨recorded, hrecorded, hid⟩ := mem_map.mp hmem
    obtain ⟨position, hat⟩ := List.getElem?_of_mem hrecorded
    have hposition : es.position pre.accountId = some position :=
      hid ▸ h.wellFormed.position_unique hat
    rw [← h.authorizes hcall hmem position] at hflag
    obtain ⟨mid, hmid, hpublic⟩ := assertAuthorization_public hfamilies hflag
    refine ⟨mid, ensure_bind_eq_ok.mpr ⟨hknown, ?_⟩, hpublic⟩
    simp only [hposition]
    exact hmid
  | none =>
    have hdiff : diff.lookup pre.accountId = none := by rw [← h.lookup, hlook]
    rw [h.isAuthorized_of_new hcall hdiff] at hflag
    obtain ⟨mid, masked, hmid, hpublic⟩ :=
      authorizeFirstSight_public hfamilies fun hseeded => hflag.mpr (.inl hseeded)
    refine ⟨{ mid with preStates := mid.preStates ++
      [if masked then { pre with isAuthorized := false } else pre] }, ?_, hpublic⟩
    refine bind_eq_ok.mpr ⟨es, bindExternalSeed_allPublic es pre.accountId _, ?_⟩
    simp only [privatePdaByPosition_allPublic, Option.isSome_none, Bool.false_eq_true, if_false]
    exact bind_eq_ok.mpr ⟨(mid, masked), hmid, rfl⟩

/-- So does the second half. -/
theorem claimPostState_public {mid : ExecutionState} {programId : ProgramId}
    (hfamilies : FamiliesPublic mid.pdaFamilyBinding)
    (hposition : mid.position pre.accountId = some position) (hlt : position < n)
    (hclaim : claimAccount programId pre post = .ok account) :
    ∃ mid', claimPostState (allPublic n) programId mid pre post = .ok (mid', account) ∧
      FamiliesPublic mid'.pdaFamilyBinding := by
  unfold claimPostState
  rcases claimAccount_ok hclaim with ⟨hnone, rfl⟩ | ⟨claim, hsome, howner, hmay, rfl⟩
  · rw [hnone]
    exact ⟨mid, rfl, hfamilies⟩
  · simp only [hsome, hposition, allPublic_getElem? hlt]
    cases claim with
    | authorized =>
      exact ⟨mid, ensure_bind_eq_ok.mpr ⟨howner, ensure_bind_eq_ok.mpr ⟨hmay, rfl⟩⟩, hfamilies⟩
    | pda seed =>
      obtain ⟨bindings, hbindings, hpublic⟩ := assertFamilyBinding_public hfamilies hmay.symm
      refine ⟨{ mid with pdaFamilyBinding := bindings }, ?_, hpublic⟩
      refine ensure_bind_eq_ok.mpr ⟨howner, ensure_bind_eq_ok.mpr ⟨hmay, ?_⟩⟩
      exact bind_eq_ok.mpr ⟨bindings, hbindings, rfl⟩

omit [Sha256] in
theorem length_le_of_touched {preStates : List AccountWithMetadata}
    (hnodup : (preStates.map (·.accountId)).Nodup)
    (htouched : ∀ accountId ∈ preStates.map (·.accountId), accountId ∈ touched)
    (hn : touched.card ≤ n) : preStates.length ≤ n := by
  have hsubset : (preStates.map (·.accountId)).toFinset ⊆ touched := by
    intro accountId hmem
    exact htouched accountId (mem_toFinset.mp hmem)
  have hcard := Finset.card_le_card hsubset
  rw [List.toFinset_card_of_nodup hnodup, length_map] at hcard
  omega

/-- What the chain lets pass, the circuit lets pass, and it records what the verifier
expects. -/
theorem agree_forward (h : Agree state signers touched diff es)
    (hcall : CallAgrees signers es call call') (hfamilies : FamiliesPublic es.pdaFamilyBinding)
    (htouched : pre.accountId ∈ touched) (hn : touched.card ≤ n)
    (hsync : syncPublic state call diff (pre, post) = .ok diff') :
    ∃ es', syncAccount (allPublic n) call' es (pre, post) = .ok es' ∧
      FamiliesPublic es'.pdaFamilyBinding ∧ RecordsState state signers es' := by
  obtain ⟨hcheck, account, hclaim, rfl⟩ := syncPublic_eq_ok.mp hsync
  obtain ⟨haccount, hflag⟩ := checkPreState_eq_ok.mp hcheck
  obtain ⟨mid, hmid, hmidFamilies⟩ :=
    syncPreState_public (n := n) h hcall hfamilies haccount hflag
  obtain ⟨position, -, hsighting, -⟩ := syncPreState_ok hmid
  -- there is an identity for the position
  have hlt : position < n := by
    obtain ⟨-, recorded, hat, -⟩ := hsighting.recorded
    have hlen : mid.preStates.length ≤ n := by
      exact length_le_of_touched (hsighting.nodup h.wellFormed)
        (h.touched_of_sighting hsighting htouched) hn
    exact lt_of_lt_of_le (getElem?_eq_some_iff.mp hat).1 hlen
  rw [← hcall.programId] at hclaim
  obtain ⟨mid', hmid', hpublic⟩ := claimPostState_public hmidFamilies
    (hsighting.position_eq h.wellFormed) hlt hclaim
  have hsynced : syncAccount (allPublic n) call' es (pre, post)
      = .ok { mid' with postStates := mid'.postStates.insert pre.accountId account } :=
    bind_eq_ok.mpr ⟨mid, hmid, bind_eq_ok.mpr ⟨(mid', account), hmid', rfl⟩⟩
  refine ⟨_, hsynced, hpublic, ?_⟩
  obtain ⟨_, hfinal⟩ := (syncAccount_ok hsynced).sighting
  rcases sighting_public hfinal with ⟨-, -, hpre, -⟩ | ⟨hlook, kept, hpre, -, hseeded, hkept⟩
  · exact fun recorded hmem => h.recorded recorded (hpre ▸ hmem)
  -- what is new is recorded as the state has it, flagged iff it signed
  · rw [h.lookup] at hlook
    unfold RecordsState
    rw [hpre]
    refine forall_mem_append.mpr ⟨h.recorded, forall_mem_singleton.mpr ⟨?_, ?_⟩⟩
    · rw [haccount, overlay, hlook]
      rfl
    · rw [h.isAuthorized_of_new hcall hlook, hkept] at hflag
      by_cases hseed : Seeded (DerivesPublic pre.accountId) call'
      · have hunsigned := hcall.unsigned pre.accountId (hcall.seeded.mp hseed)
        simp [hseeded hseed, hunsigned]
      · simpa [hseed] using hflag

/-! ### One output -/

theorem sync_forward (h : Agree state signers touched diff es)
    (hcall : CallAgrees signers es call call') (hfamilies : FamiliesPublic es.pdaFamilyBinding)
    (htouched : ∀ pair ∈ pairs, pair.1.accountId ∈ touched) (hn : touched.card ≤ n)
    (hsync : pairs.foldlM (syncPublic state call) diff = .ok diff') :
    ∃ es', pairs.foldlM (syncAccount (allPublic n) call') es = .ok es' ∧
      FamiliesPublic es'.pdaFamilyBinding ∧ Agree state signers touched diff' es' := by
  induction pairs generalizing diff es with
  | nil =>
    have hsame : diff = diff' := by simpa [pure, Except.pure] using hsync
    exact ⟨es, rfl, hfamilies, hsame ▸ h⟩
  | cons pair pairs ih =>
    obtain ⟨middiff, hmid, hrest⟩ := foldlM_cons_eq_ok.mp hsync
    obtain ⟨mid, hmid', hpublic, hrecorded⟩ :=
      agree_forward h hcall hfamilies (htouched pair mem_cons_self) hn hmid
    have hsynced := syncAccount_ok hmid'
    obtain ⟨account, hpost, hsync'⟩ := agree_backward h hcall hsynced hrecorded
    obtain rfl : diff.insert pair.1.accountId account = middiff :=
      ok.inj (hsync'.symm.trans hmid)
    have hagree := h.synced hsynced hpost hrecorded (htouched pair mem_cons_self)
    obtain ⟨es', hes', hfinal⟩ := ih hagree (hcall.mono hsynced.extends) hpublic
      (fun later hmem => htouched later (mem_cons_of_mem _ hmem)) hrest
    exact ⟨es', foldlM_cons_eq_ok.mpr ⟨mid, hmid', hes'⟩, hfinal⟩

omit [Sha256] in
theorem RecordsState.of_extends (h : RecordsState state signers es') (hextends : Extends es es') :
    RecordsState state signers es :=
  fun recorded hmem => h recorded (hextends.preStates.subset hmem)

theorem sync_backward (h : Agree state signers touched diff es)
    (hcall : CallAgrees signers es call call')
    (htouched : ∀ pair ∈ pairs, pair.1.accountId ∈ touched)
    (hsync : pairs.foldlM (syncAccount (allPublic n) call') es = .ok es')
    (hrecorded : RecordsState state signers es') :
    ∃ diff', pairs.foldlM (syncPublic state call) diff = .ok diff' ∧
      Agree state signers touched diff' es' := by
  induction pairs generalizing diff es with
  | nil =>
    have hsame : es = es' := by simpa [pure, Except.pure] using hsync
    exact ⟨diff, rfl, hsame ▸ h⟩
  | cons pair pairs ih =>
    obtain ⟨mid, hmid, hrest⟩ := foldlM_cons_eq_ok.mp hsync
    have hsynced := syncAccount_ok hmid
    have hextends : Extends mid es' := foldlM_invariant (P := fun s => Extends mid s)
      (fun _ _ _ _ hs hext => hext.trans (syncAccount_ok hs).extends) hrest
      (Extends.refl mid)
    have hmidRecorded := hrecorded.of_extends hextends
    obtain ⟨account, hpost, hpublic⟩ := agree_backward h hcall hsynced hmidRecorded
    have hagree := h.synced hsynced hpost hmidRecorded (htouched pair mem_cons_self)
    obtain ⟨diff', hdiff', hfinal⟩ := ih hagree (hcall.mono hsynced.extends)
      (fun later hmem => htouched later (mem_cons_of_mem _ hmem)) hrest
    exact ⟨diff', foldlM_cons_eq_ok.mpr ⟨_, hpublic, hdiff'⟩, hfinal⟩

end

end Agreement

end Lssa
