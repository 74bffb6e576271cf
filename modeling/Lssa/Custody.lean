/-
Accounts in the custody of a program.

A program that delegates a PDA of its own to nobody keeps it to itself: nobody else has
the authority to claim it, and once it is claimed nobody else may change it.  Whatever
the other programs of a transaction do, the account is left as it was, except that
anyone may send it balance (`Kept`), unless the program itself touches it
(`Accepted.kept`).
-/
import Lssa.PublicAuthority

open DepthFirst

namespace Lssa

open PublicExecution

/-- An account that was left alone, up to balance that was added. -/
structure Kept (before after : Account) : Prop where
  programOwner : after.programOwner = before.programOwner
  data : after.data = before.data
  nonce : after.nonce = before.nonce
  balance : before.balance ≤ after.balance

theorem Kept.refl (account : Account) : Kept account account := ⟨rfl, rfl, rfl, le_rfl⟩

theorem Kept.trans {a b c : Account} (hab : Kept a b) (hbc : Kept b c) : Kept a c :=
  ⟨hbc.programOwner.trans hab.programOwner, hbc.data.trans hab.data, hbc.nonce.trans hab.nonce,
    hab.balance.trans hbc.balance⟩

variable [Sha256] {exec : Executor} {tx : PublicTransaction} {state state' : V03State}
  {blockId : BlockId} {timestamp : Timestamp} {accountId : AccountId} {programId : ProgramId}
  {seed : PdaSeed}

/-- An owned account that a call returns with its data and no less balance is kept. -/
theorem PublicExecution.Effect.kept {pre : AccountWithMetadata} {post : AccountPostState}
    {after : Account} (h : Effect programId pre post after) (howned : pre.account ≠ .default)
    (hdata : post.account.data = pre.account.data)
    (hbalance : pre.account.balance ≤ post.account.balance) : Kept pre.account after := by
  refine ⟨?_, h.data.trans hdata, h.nonce.trans h.valid.nonce, h.balance ▸ hbalance⟩
  rcases h.programOwner with hsame | ⟨hdefault, -⟩
  · exact hsame
  · exact absurd hdefault howned

variable {diff diff' : Diff} {call : Call} {output : ProgramOutput}
  {v : Visit Diff Call ProgramOutput}

section

variable (h : Step exec state blockId timestamp diff call output diff')

include h

/-- Other programs leave an owned account alone. -/
theorem PublicExecution.Step.kept
    (howned : (overlay state diff accountId).programOwner = .ofProgramId programId)
    (hunowned : ofProgramId programId ≠ defaultProgramOwner)
    (hforeign : call.1.programId ≠ programId) :
    Kept (overlay state diff accountId) (overlay state diff' accountId) := by
  obtain ⟨howner, hchange⟩ := h.owned howned hunowned
  obtain ⟨hdata, hbalance⟩ := hchange hforeign
  exact ⟨howner.trans howned.symm, hdata, h.nonce_eq accountId, hbalance⟩

/-- A call of another program keeps what the program owns, and gives it nothing. -/
theorem PublicExecution.Step.foreign
    (hunowned : ofProgramId programId ≠ defaultProgramOwner)
    (hforeign : call.1.programId ≠ programId) (accountId : AccountId) :
    (overlay state diff accountId).programOwner = .ofProgramId programId ∧
        Kept (overlay state diff accountId) (overlay state diff' accountId) ∨
      (overlay state diff accountId).programOwner ≠ .ofProgramId programId ∧
        (overlay state diff' accountId).programOwner ≠ .ofProgramId programId := by
  by_cases howned : (overlay state diff accountId).programOwner = .ofProgramId programId
  · exact .inl ⟨howned, h.kept howned hunowned hforeign⟩
  · refine .inr ⟨howned, ?_⟩
    rcases h.effect accountId with heq | ⟨pre, post, -, -, hpre, heffect⟩
    · rw [heq]
      exact howned
    · rcases heffect.programOwner with hsame | ⟨-, hclaimed, -⟩
      · rw [hsame, hpre]
        exact howned
      · rw [hclaimed]
        exact fun heq => hforeign (ofProgramId_injective heq)

/-- Other programs do not take over a PDA without its authority. -/
theorem PublicExecution.Step.unowned (hsafe : Sha256.Unambiguous accountId.value)
    (hpda : forPublicPda programId seed = accountId) (hforeign : call.1.programId ≠ programId)
    (hunauthorized : isAuthorized call accountId = false)
    (hdefault : (overlay state diff accountId).programOwner = defaultProgramOwner) :
    (overlay state diff' accountId).programOwner = defaultProgramOwner := by
  rcases h.effect accountId with heq | ⟨pre, post, hpair, hid, hpre, heffect⟩
  · rw [heq, hdefault]
  rcases heffect.programOwner with hsame | ⟨-, -, claim, -, hmay⟩
  · rw [hsame, hpre, hdefault]
  · cases claim with
    | authorized =>
      have hflag := (h.authorization pre (of_mem_zip hpair).1).mp hmay
      rw [hid, hunauthorized] at hflag
      cases hflag
    | pda seed' =>
      have hown : forPublicPda call.1.programId seed' = accountId := hmay.symm.trans hid
      exact absurd (forPublicPda_inj hsafe hown hpda).1 hforeign

end

/-- A PDA signs nothing: the transaction leaves it as its calls do. -/
theorem Accepted.getAccountById_pda [Schnorr] {diff : StateDiff}
    (h : Accepted exec tx state blockId timestamp diff)
    (happly : state.applyStateDiff diff = some state')
    (hsafe : Sha256.Unambiguous accountId.value) (hpda : forPublicPda programId seed = accountId) :
    state'.getAccountById accountId = overlay state diff.publicDiff accountId := by
  have hunsigned : accountId ∉ diff.signerAccountIds := by
    rw [h.signers]
    intro hsigner
    obtain ⟨⟨_, key⟩, -, hkey⟩ := mem_map.mp hsigner
    exact AccountId.ofPublicKey_ne_forPublicPda hsafe hpda hkey
  exact (applyStateDiff_funds happly h.program accountId).2 hunsigned

/-- **A PDA that its program delegates to nobody is kept by a transaction in which the
program leaves it alone.** -/
theorem Accepted.kept [Schnorr] {diff : StateDiff}
    (h : Accepted exec tx state blockId timestamp diff)
    (happly : state.applyStateDiff diff = some state')
    (hsafe : Sha256.Unambiguous accountId.value) (hpda : forPublicPda programId seed = accountId)
    (hunowned : ofProgramId programId ≠ defaultProgramOwner)
    (howner : (state.getAccountById accountId).programOwner = .ofProgramId programId ∨
      (state.getAccountById accountId).programOwner = defaultProgramOwner)
    (hundelegated : ∀ v ∈ callTree exec tx state blockId timestamp, v.call.1.programId = programId →
      ∀ call ∈ v.result.chainedCalls, seed ∉ call.pdaSeeds)
    (hleaves : ∀ v ∈ callTree exec tx state blockId timestamp, v.call.1.programId = programId →
      Kept (overlay state v.before accountId) (overlay state v.after accountId)) :
    Kept (state.getAccountById accountId) (state'.getAccountById accountId) := by
  rw [h.getAccountById_pda happly hsafe hpda]
  rcases howner with howned | hdefault
  · refine h.threads.invariant (P := fun d => Kept (state.getAccountById accountId)
      (overlay state d accountId)) (fun v hv hbefore => ?_) (by rw [overlay_empty]; exact .refl _)
    by_cases hprogram : v.call.1.programId = programId
    · exact hbefore.trans (hleaves v hv hprogram)
    · exact hbefore.trans
        ((callTree_step hv).kept (hbefore.programOwner.trans howned) hunowned hprogram)
  · -- unclaimed: it stays so, and then it has not changed
    have hstill := h.threads.invariant
      (P := fun d => (overlay state d accountId).programOwner = defaultProgramOwner)
      (fun v hv hbefore => ?_) (by rw [overlay_empty, hdefault])
    · rw [h.eq_of_unowned hdefault hstill]
      exact .refl _
    · by_cases hprogram : v.call.1.programId = programId
      · exact (hleaves v hv hprogram).programOwner.trans hbefore
      · exact (callTree_step hv).unowned hsafe hpda hprogram
          (isAuthorized_eq_false hsafe hpda hundelegated hv) hbefore

/-! ### Programs that no program calls -/

/-- Only the first call has no caller. -/
theorem eq_initialCall_of_uncalled (hv : v ∈ callTree exec tx state blockId timestamp)
    (hcaller : v.call.2.programId = none) : v.call = firstCall state tx := by
  refine Machine.visits_forall (J := fun call _ => call.2.programId = none →
    call = firstCall state tx) ?_ ?_ hv hcaller
  · intro w _ _ next hnext hnone
    obtain ⟨_, -, rfl⟩ := mem_map.mp hnext
    cases hnone
  · intro w hw _
    rw [mem_singleton.mp hw]

/-- A program that refuses to be called by another. -/
def Uncalled (exec : Executor) (programId : ProgramId) : Prop :=
  ∀ state call output, call.1.programId = programId → execute exec state call = .ok output →
    call.2.programId = none

/-- It runs first or not at all. -/
theorem Uncalled.first (h : Uncalled exec programId)
    (hv : v ∈ callTree exec tx state blockId timestamp)
    (hprogram : v.call.1.programId = programId) : v.call = firstCall state tx :=
  eq_initialCall_of_uncalled hv (h _ _ _ hprogram (callTree_step hv).executed)

theorem Uncalled.never_runs (h : Uncalled exec programId) (hroot : tx.message.programId ≠ programId)
    (hv : v ∈ callTree exec tx state blockId timestamp) :
    v.call.1.programId ≠ programId := by
  intro hprogram
  have hcall := h.first hv hprogram
  rw [hcall] at hprogram
  exact hroot hprogram

/-- A program that does not run calls nobody. -/
theorem Uncalled.never_calls (h : Uncalled exec programId)
    (hroot : tx.message.programId ≠ programId) (hv : v ∈ callTree exec tx state blockId timestamp) :
    v.call.2.programId ≠ some programId := by
  refine Machine.visits_forall (J := fun call _ => call.2.programId ≠ some programId) ?_ ?_ hv
  · intro w hw _ next hnext hcaller
    obtain ⟨_, -, rfl⟩ := mem_map.mp hnext
    exact h.never_runs hroot hw (some.inj hcaller)
  · intro w hw
    rw [mem_singleton] at hw
    rw [hw]
    simp [initialCall]

omit [Sha256] in
/-- What a call asks for has a caller. -/
theorem caller_of_nextCalls {next : Call} (h : next ∈ nextCalls call output) :
    next.2.programId = some call.1.programId := by
  obtain ⟨_, -, rfl⟩ := mem_map.mp h
  rfl

omit [Sha256] in
theorem called_of_nextCalls : ∀ next ∈ nextCalls call output, next.2.programId ≠ none := by
  intro next hnext
  rw [caller_of_nextCalls hnext]
  exact some_ne_none _

/-- What the program calls, it calls in the first call. -/
theorem Uncalled.mem_nextCalls (h : Uncalled exec programId)
    (hv : v ∈ callTree exec tx state blockId timestamp)
    (hcaller : v.call.2.programId = some programId)
    (houtput : execute exec state (firstCall state tx) = .ok output) :
    v.call ∈ nextCalls (firstCall state tx) output := by
  refine Machine.visits_forall (J := fun call _ => call.2.programId = some programId →
    call ∈ nextCalls (firstCall state tx) output) ?_ ?_ hv hcaller
  · intro w hw _ next hnext hnextCaller
    have hprogram : w.call.1.programId = programId :=
      some.inj ((caller_of_nextCalls hnext).symm.trans hnextCaller)
    have hfirst := h.first hw hprogram
    have hexecuted := (callTree_step hw).executed
    rw [hfirst, houtput] at hexecuted
    rw [hfirst, ← ok.inj hexecuted] at hnext
    exact hnext
  · intro w hw hnone
    rw [mem_singleton.mp hw] at hnone
    exact absurd hnone (by simp [initialCall])

/-- **Calls of other programs keep what the program owns**, if whatever other programs ask for
(`P`) does not run it. -/
theorem run_kept {P : Call → Prop} (hforeign : ∀ {d call output d'}, P call →
      Step exec state blockId timestamp d call output d' → call.1.programId ≠ programId)
    (hnext : ∀ {call output}, call.1.programId ≠ programId → ∀ next ∈ nextCalls call output, P next)
    (hunowned : ofProgramId programId ≠ defaultProgramOwner) {n : ℕ} {work : List Call}
    (hrun : (machine exec state blockId timestamp).run n work diff = .ok diff')
    (hwork : ∀ call ∈ work, P call)
    (howned : (overlay state diff accountId).programOwner = .ofProgramId programId) :
    Kept (overlay state diff accountId) (overlay state diff' accountId) := by
  refine (Machine.run_invariant (I := fun work d => (∀ call ∈ work, P call) ∧
    Kept (overlay state diff accountId) (overlay state d accountId)) ?_ hrun
    ⟨hwork, .refl _⟩).2
  rintro d call output d' rest hserves ⟨hcalls, hkept⟩
  have hstep := machine_serves.mp hserves
  have hother := hforeign (hcalls call mem_cons_self) hstep
  refine ⟨?_, hkept.trans (hstep.kept (hkept.programOwner.trans howned) hunowned hother)⟩
  exact forall_mem_append.mpr ⟨hnext hother, fun next hmem =>
    hcalls next (mem_cons_of_mem _ hmem)⟩

theorem Uncalled.run_kept (h : Uncalled exec programId)
    (hunowned : ofProgramId programId ≠ defaultProgramOwner) {n : ℕ} {work : List Call}
    (hrun : (machine exec state blockId timestamp).run n work diff = .ok diff') :
    (∀ call ∈ work, call.2.programId ≠ none) →
    (overlay state diff accountId).programOwner = .ofProgramId programId →
    Kept (overlay state diff accountId) (overlay state diff' accountId) :=
  Lssa.run_kept (fun hcalled hstep hprogram => hcalled (h _ _ _ hprogram hstep.executed))
    (fun _ => called_of_nextCalls) hunowned hrun

/-- An accepted transaction is its first call, and then the calls that it asks for. -/
theorem Accepted.first [Schnorr] {diff : StateDiff}
    (h : Accepted exec tx state blockId timestamp diff) :
    ∃ output mid, Step exec state blockId timestamp ∅ (firstCall state tx) output mid ∧
      (machine exec state blockId timestamp).run maxNumberChainedCalls
        (nextCalls (firstCall state tx) output) mid = .ok diff.publicDiff := by
  obtain ⟨output, mid, hserves, hrest⟩ := Machine.run_succ_cons_eq_ok.mp h.run
  rw [append_nil] at hrest
  exact ⟨output, mid, machine_serves.mp hserves, hrest⟩

end Lssa
