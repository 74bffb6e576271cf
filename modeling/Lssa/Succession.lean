/-
What any transaction makes of an account.

Both interpreters check every account that a call returns against the same rules, so what a
call may do to an account is the same for both (`Lawful`).  A relation that these rules imply
and that can be chained therefore holds from the state before a transaction to the state
after it: of the accounts of a public transaction (`Accepted.relates`), and of the public
accounts that the journal of the circuit shows (`Circuit.main_relates`).

* `Succeeds` — the nonce is the same, and an owner has not changed;
* `eq_of_unowned`, `Circuit.main_unowned` — what nobody owns before and after is the same.
-/
import Lssa.Circuit.Walk
import Lssa.Circuit.Output
import Lssa.PublicExecution

open Outcome DepthFirst

namespace Lssa

/-- What a call of a program may do to an account. -/
structure Lawful (executing : ProgramId) (before after : Account) : Prop where
  nonce : after.nonce = before.nonce
  programOwner : before.programOwner ≠ defaultProgramOwner →
    after.programOwner = before.programOwner
  balance : after.balance < before.balance → before.programOwner = ofProgramId executing
  data : after.data ≠ before.data → before = .default ∨ before.programOwner = ofProgramId executing
  claimed : after.programOwner = before.programOwner ∨ after.programOwner = ofProgramId executing

/-- An account that the rules allow, claimed or not. -/
theorem Lawful.of_valid {executing : ProgramId} {before post after : Account}
    (hvalid : ValidAccount executing before post) (hbalance : after.balance = post.balance)
    (hdata : after.data = post.data) (hnonce : after.nonce = post.nonce)
    (howner : after.programOwner = before.programOwner ∨
      before.programOwner = defaultProgramOwner ∧
        after.programOwner = .ofProgramId executing) : Lawful executing before after := by
  refine ⟨hnonce.trans hvalid.nonce, fun howned => ?_, ?_, ?_, ?_⟩
  · rcases howner with hsame | ⟨hdefault, -⟩
    · exact hsame
    · exact absurd hdefault howned
  · rw [hbalance]
    exact hvalid.balance
  · rw [hdata]
    exact hvalid.data
  · exact howner.imp_right And.right

/-- The nonce is the same, and an owner has not changed. -/
structure Succeeds (before after : Account) : Prop where
  nonce : after.nonce = before.nonce
  programOwner : before.programOwner ≠ defaultProgramOwner →
    after.programOwner = before.programOwner

theorem Succeeds.refl (account : Account) : Succeeds account account := ⟨rfl, fun _ => rfl⟩

theorem Succeeds.trans {a b c : Account} (hab : Succeeds a b) (hbc : Succeeds b c) :
    Succeeds a c := by
  refine ⟨hbc.nonce.trans hab.nonce, fun howned => ?_⟩
  have hsame := hab.programOwner howned
  exact (hbc.programOwner (hsame ▸ howned)).trans hsame

theorem Lawful.succeeds {executing : ProgramId} {before after : Account}
    (h : Lawful executing before after) : Succeeds before after := ⟨h.nonce, h.programOwner⟩

/-! ### Public transactions -/

section

variable [Sha256] {exec : Executor} {state : V03State} {blockId : BlockId} {timestamp : Timestamp}

/-- A call leaves an account alone, or does to it what the rules allow. -/
theorem PublicExecution.Step.lawful {diff diff' : PublicExecution.Diff} {call : Call}
    {output : ProgramOutput}
    (h : PublicExecution.Step exec state blockId timestamp diff call output diff')
    (accountId : AccountId) :
    overlay state diff' accountId = overlay state diff accountId ∨
      Lawful call.1.programId (overlay state diff accountId) (overlay state diff' accountId) := by
  rcases h.effect accountId with heq | ⟨pre, post, -, -, hpre, heffect⟩
  · exact .inl heq
  · rw [← hpre]
    refine .inr (.of_valid heffect.valid heffect.balance heffect.data heffect.nonce ?_)
    rcases heffect.programOwner with hsame | ⟨hdefault, hclaimed, -⟩
    · exact .inl hsame
    · rw [hdefault]
      exact .inr ⟨rfl, hclaimed⟩

/-- **What the rules imply of every call holds of a public transaction.** -/
theorem Accepted.relates [Schnorr] {tx : PublicTransaction} {diff : StateDiff}
    {R : Account → Account → Prop} (refl : ∀ account, R account account)
    (trans : ∀ a b c, R a b → R b c → R a c)
    (h : Accepted exec tx state blockId timestamp diff)
    (hlawful : ∀ v ∈ callTree exec tx state blockId timestamp, ∀ before after,
      Lawful v.call.1.programId before after → R before after) (accountId : AccountId) :
    R (state.getAccountById accountId) (overlay state diff.publicDiff accountId) := by
  refine h.threads.invariant (P := fun d => R (state.getAccountById accountId)
    (overlay state d accountId)) (fun v hv hbefore => ?_) (by rw [overlay_empty]; exact refl _)
  rcases (callTree_step hv).lawful accountId with heq | hstep
  · rw [heq]
    exact hbefore
  · exact trans _ _ _ hbefore (hlawful v hv _ _ hstep)

theorem Accepted.succeeds [Schnorr] {tx : PublicTransaction} {diff : StateDiff}
    (h : Accepted exec tx state blockId timestamp diff) (accountId : AccountId) :
    Succeeds (state.getAccountById accountId) (overlay state diff.publicDiff accountId) :=
  h.relates .refl (fun _ _ _ => .trans) (fun _ _ _ _ hstep => hstep.succeeds) accountId

end

/-! ### The circuit -/

namespace Circuit

variable [Sha256] {accountIdentities : List InputAccountIdentity} {call : Call}
  {state state' : ExecutionState} {R : Account → Account → Prop}

/-- Every account recorded is related to what the walk has reached. -/
structure Inherits (R : Account → Account → Prop) (state : ExecutionState) : Prop where
  wellFormed : WellFormed state
  related : ∀ recorded ∈ state.preStates, ∀ post,
    state.postStates.lookup recorded.accountId = some post → R recorded.account post

/-- A claim changes nothing but the owner of an account that has none. -/
theorem Synced.lawful {pre : AccountWithMetadata} {post : AccountPostState}
    (h : Synced accountIdentities call state pre post state')
    (hvalid : ValidAccount call.1.programId pre.account post.account) :
    ∃ account, state'.postStates = state.postStates.insert pre.accountId account ∧
      Lawful call.1.programId pre.account account := by
  obtain ⟨account, hpost, hclaim⟩ := h.claim
  refine ⟨account, hpost, ?_⟩
  rcases hclaim with ⟨-, rfl⟩ | ⟨_, _, _, -, -, -, hdefault, -, rfl⟩
  · exact .of_valid hvalid rfl rfl rfl (.inl hvalid.programOwner)
  · rw [hvalid.programOwner] at hdefault
    exact .of_valid hvalid rfl rfl rfl (.inr ⟨hdefault, rfl⟩)

theorem Synced.inherits (trans : ∀ a b c, R a b → R b c → R a c) {pre : AccountWithMetadata}
    {post : AccountPostState} (h : Synced accountIdentities call state pre post state')
    {account : Account} (hpost : state'.postStates = state.postStates.insert pre.accountId account)
    (haccount : R pre.account account) (hbefore : Inherits R state) : Inherits R state' := by
  obtain ⟨position, hsighting⟩ := h.sighting
  refine ⟨h.wellFormed hbefore.wellFormed, fun recorded hrecorded reached hreached => ?_⟩
  rw [hpost] at hreached
  rcases hsighting.preStates_cases with ⟨hlook, -, hpre⟩ | ⟨hlook, -, new, hpre, hid, hnew⟩
  · rw [hpre] at hrecorded
    by_cases heq : recorded.accountId = pre.accountId
    · rw [heq, lookup_insert, some_inj] at hreached
      have hmet := hbefore.related recorded hrecorded pre.account (heq ▸ hlook)
      exact hreached ▸ trans _ _ _ hmet haccount
    · rw [lookup_insert_ne heq] at hreached
      exact hbefore.related recorded hrecorded reached hreached
  · rw [hpre, mem_append, mem_singleton] at hrecorded
    rcases hrecorded with hold | rfl
    · -- an account recorded before is not the one that is new
      have hne : recorded.accountId ≠ pre.accountId := by
        intro heq
        have hmem : pre.accountId ∈ state.preStates.map (·.accountId) :=
          mem_map.mpr ⟨recorded, hold, heq⟩
        exact lookup_eq_none.mp hlook ((hbefore.wellFormed.mem_iff _).mpr hmem)
      rw [lookup_insert_ne hne] at hreached
      exact hbefore.related recorded hold reached hreached
    · rw [hid, lookup_insert, some_inj] at hreached
      rw [hnew, ← hreached]
      exact haccount

theorem deriveFromOutputs_inherits (trans : ∀ a b c, R a b → R b c → R a c)
    {verify : ProgramId → ProgramOutput → Bool} {programId : ProgramId}
    {programOutputs : List ProgramOutput}
    (hlawful : ∀ executing output, verify executing output = true → ∀ before after,
      Lawful executing before after → R before after)
    (h : deriveFromOutputs verify accountIdentities programId programOutputs = .ok state) :
    Inherits R state := by
  refine deriveFromOutputs_invariant (fun block time => ⟨wellFormed_initialState block time, ?_⟩)
    (fun progress call output progress' hstep hbefore => ?_) h
  · intro recorded hrecorded
    exact absurd hrecorded (by simp [initialState])
  · refine validateAndSyncStates_invariant ?_ hstep.synced hbefore
    intro mid pre post mid' hpair hsynced
    obtain ⟨account, hpost, haccount⟩ :=
      hsynced.lawful ((validateExecution_ok hstep.valid).account _ hpair)
    exact hsynced.inherits trans hpost (hlawful _ _ hstep.verified _ _ haccount)

variable [MlKem] [ChaCha20] {verify : ProgramId → ProgramOutput → Bool}
  {input : PrivacyPreservingCircuitInput} {output : PrivacyPreservingCircuitOutput}

variable {action : PublicAction}

/-- What the journal shows of a public account is what the walk recorded and reached. -/
theorem main_recorded (h : main verify input = .ok output)
    (haction : action ∈ output.publicActions) :
    ∃ state, deriveFromOutputs verify input.accountIdentities input.programId input.programOutputs
        = .ok state ∧
      action.pre ∈ state.preStates ∧
      state.postStates.lookup action.pre.accountId = some action.post := by
  obtain ⟨state, hderive, houtput⟩ := bind_eq_ok.mp h
  obtain ⟨states, journal⟩ := computeCircuitOutput_ok houtput
  rw [journal.publicActions] at haction
  have hstate := (of_mem_zip (of_mem_publicActionsOf haction)).2
  obtain ⟨hfst, hlook⟩ := statesOf_ok journal.rebuilt
  refine ⟨state, hderive, ?_, hlook _ hstate⟩
  rw [← hfst]
  exact mem_map.mpr ⟨_, hstate, rfl⟩

/-- **What the rules imply of every call holds of what the journal shows** of a public
account. -/
theorem main_relates (trans : ∀ a b c, R a b → R b c → R a c)
    (hlawful : ∀ executing output, verify executing output = true → ∀ before after,
      Lawful executing before after → R before after) (h : main verify input = .ok output)
    (haction : action ∈ output.publicActions) : R action.pre.account action.post := by
  obtain ⟨state, hderive, hrecorded, hreached⟩ := main_recorded h haction
  exact (deriveFromOutputs_inherits trans hlawful hderive).related _ hrecorded _ hreached

/-- A public account that nobody owned and nobody took over is as it was. -/
theorem main_unowned (h : main verify input = .ok output) (haction : action ∈ output.publicActions)
    (hbefore : action.pre.account.programOwner = defaultProgramOwner)
    (hafter : action.post.programOwner = defaultProgramOwner) :
    action.post = action.pre.account := by
  obtain ⟨state, hderive, hrecorded, hreached⟩ := main_recorded h haction
  obtain ⟨_, -, -, -, hclaimed⟩ := deriveFromOutputs_ok hderive
  have hround := forM_eq_ok.mp hclaimed _ hrecorded
  simp only [if_pos hbefore, hreached] at hround
  by_contra hne
  exact ensure_eq_ok.mp hround (fun heq => hne heq.symm) hafter

end Circuit

end Lssa
