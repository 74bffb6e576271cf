/-
Execution of a public transaction.

`ValidatedStateDiff::from_public_transaction`
(`lee/state_machine/src/validated_state_diff/mod.rs`) calls the program of the
message, checks its output against the state as changed so far, and goes on to
the calls the output asks for, depth first.  Here that loop is the machine
`machine` over the running diff, and `callTree` lists the calls it served with
the calls they descend from.

Programs are arbitrary: the executor is a parameter that may return any output.

* `Step` — everything one round of the loop checks and does;
* `machine_serves` — a served call is a `Step`;
* `Effect` — what a step can do to an account it lists;
* `fromPublicTransaction_ok` — what an accepted transaction went through.
-/
import Lssa.CallTree
import Lssa.PublicTransaction

open Outcome DepthFirst

namespace Lssa

/-- `Program::execute`: the zkVM on a program, its caller, accounts and instruction. -/
abbrev Executor :=
  Program → Option ProgramId → List AccountWithMetadata → InstructionData →
    Except LeeError ProgramOutput

namespace PublicExecution

abbrev Diff := Map AccountId Account

variable [Sha256]

/-- The accounts a call may treat as authorized: PDAs its caller delegates to it,
and what was authorized where it was issued. -/
def isAuthorized (call : Call) (accountId : AccountId) : Bool :=
  decide (accountId ∈ computePublicAuthorizedPdas call.2.programId call.1.pdaSeeds) ||
    decide (accountId ∈ call.2.authorizedAccounts)

variable {call : Call} {pre : AccountWithMetadata}

theorem isAuthorized_iff {accountId : AccountId} :
    isAuthorized call accountId = true ↔
      Seeded (DerivesPublic accountId) call ∨ accountId ∈ call.2.authorizedAccounts := by
  rw [isAuthorized, Bool.or_eq_true, decide_eq_true_eq, decide_eq_true_eq]
  refine or_congr_left ?_
  show _ ↔ ∃ p, call.2.programId = some p ∧ _
  cases call.2.programId with
  | none => simp [computePublicAuthorizedPdas]
  | some p => simp [computePublicAuthorizedPdas, DerivesPublic]

/-- An account a program reports must be what the state holds by now, flagged
exactly when it is authorized. -/
def checkPreState (state : V03State) (diff : Diff) (call : Call) (pre : AccountWithMetadata) :
    Except LeeError Unit := do
  let expectedPre := overlay state diff pre.accountId
  ensure (pre.account = expectedPre)
    (.invalidProgramBehavior (.inconsistentAccountPreState pre.accountId expectedPre pre.account))
  let isIndeedAuthorized := isAuthorized call pre.accountId
  ensure (!pre.isAuthorized || isIndeedAuthorized)
    (.invalidProgramBehavior (.invalidAccountAuthorization pre.accountId))
  ensure (pre.isAuthorized || !isIndeedAuthorized)
    (.invalidProgramBehavior (.authorizedAccountMarkedAsNotAuthorized pre.accountId))

/-- The account a post-state leaves, its claim honoured if it has one. -/
def claimAccount (executing : ProgramId) (pre : AccountWithMetadata) (post : AccountPostState) :
    Except LeeError Account :=
  match post.claim with
  | none => .ok post.account
  | some claim => do
    ensure (post.account.programOwner = defaultProgramOwner)
      (.invalidProgramBehavior (.claimedNonDefaultAccount pre.accountId))
    match claim with
    | .authorized =>
      ensure pre.isAuthorized (.invalidProgramBehavior (.claimedUnauthorizedAccount pre.accountId))
    | .pda seed =>
      let pda := forPublicPda executing seed
      ensure (pre.accountId = pda) (.invalidProgramBehavior (.mismatchedPdaClaim pda pre.accountId))
    pure { post.account with programOwner := ofProgramId executing }

/-- Load the program of a call and run it. -/
def execute (exec : Executor) (state : V03State) (call : Call) : Except LeeError ProgramOutput :=
  match state.getProgram call.1.programId with
  | none => .error (.invalidInput "Unknown program")
  | some programAccount =>
    exec ⟨call.1.programId, programAccount.data.bytes⟩ call.2.programId call.1.preStates
      call.1.instructionData

omit [Sha256] in
/-- Only deployed programs are executed. -/
theorem isSome_getProgram_of_execute {exec : Executor} {state : V03State} {output : ProgramOutput}
    (h : execute exec state call = .ok output) :
    (state.getProgram call.1.programId).isSome = true := by
  unfold execute at h
  split at h
  · cases h
  · rename_i hprogram
    rw [hprogram]
    rfl

/-- Check an output and write its accounts into the diff. -/
def absorb (state : V03State) (blockId : BlockId) (timestamp : Timestamp) (diff : Diff)
    (call : Call) (output : ProgramOutput) : Except LeeError Diff := do
  output.preStates.forM (checkPreState state diff call)
  ensure (output.selfProgramId = call.1.programId)
    (.invalidProgramBehavior (.mismatchedProgramId call.1.programId output.selfProgramId))
  ensure (output.callerProgramId = call.2.programId)
    (.invalidProgramBehavior (.mismatchedCallerProgramId call.2.programId output.callerProgramId))
  (validateExecution output.preStates output.postStates call.1.programId).mapError
    fun error => .invalidProgramBehavior (.executionValidationFailed error)
  ensure (output.blockValidityWindow.isValidFor blockId &&
      output.timestampValidityWindow.isValidFor timestamp) .outOfValidityWindow
  let accounts ← (output.preStates.zip output.postStates).mapM fun pair =>
    claimAccount call.1.programId pair.1 pair.2
  pure (insertAll diff ((output.preStates.map (·.accountId)).zip accounts))

/-- The loop over the calls of a transaction. -/
def machine (exec : Executor) (state : V03State) (blockId : BlockId) (timestamp : Timestamp) :
    Machine LeeError Diff Call ProgramOutput where
  answer _ call := execute exec state call
  absorb := absorb state blockId timestamp
  calls := nextCalls
  exhausted := .maxChainedCallsDepthExceeded

/-- The call a message asks for, signers' accounts authorized. -/
def initialCall (state : V03State) (signerAccountIds : List AccountId)
    (message : PublicTransaction.Message) : Call :=
  ({ programId := message.programId
     preStates := message.accountIds.map fun accountId =>
      { account := state.getAccountById accountId
        isAuthorized := decide (accountId ∈ signerAccountIds)
        accountId }
     instructionData := message.instructionData
     pdaSeeds := [] },
   { programId := none, authorizedAccounts := signerAccountIds.toFinset })

/-- The first call of a transaction. -/
abbrev firstCall (state : V03State) (tx : PublicTransaction) : Call :=
  initialCall state tx.signerAccountIds tx.message

/-- An account nobody owned before may only change by being claimed. -/
def checkClaimed (state : V03State) (diff : Diff) : Except LeeError Unit :=
  diff.entries.forM fun entry =>
    let pre := state.getAccountById entry.1
    ensure (pre.programOwner = defaultProgramOwner → pre ≠ entry.2 →
        entry.2.programOwner ≠ defaultProgramOwner)
      (.invalidProgramBehavior (.defaultAccountModifiedWithoutClaim entry.1))

/-- Every account the message declares appears in the diff. -/
def checkDeclared (accountIds : List AccountId) (diff : Diff) : Except LeeError Unit :=
  accountIds.forM fun accountId =>
    ensure (accountId ∈ diff)
      (.invalidProgramBehavior (.declaredAccountMissingFromOutput accountId))

/-! ### What one call can do -/

/-- The grounds on which the executing program may claim an account. -/
def MayClaim (executing : ProgramId) (pre : AccountWithMetadata) : Claim → Prop
  | .authorized => pre.isAuthorized = true
  | .pda seed => pre.accountId = forPublicPda executing seed

theorem claimAccount_ok {executing : ProgramId} {post : AccountPostState} {after : Account}
    (h : claimAccount executing pre post = .ok after) :
    (post.claim = none ∧ after = post.account) ∨
      ∃ claim, post.claim = some claim ∧ post.account.programOwner = defaultProgramOwner ∧
        MayClaim executing pre claim ∧
        after = { post.account with programOwner := .ofProgramId executing } := by
  unfold claimAccount at h
  cases hclaim : post.claim with
  | none =>
    rw [hclaim] at h
    exact .inl ⟨rfl, (ok.inj h).symm⟩
  | some claim =>
    rw [hclaim] at h
    obtain ⟨howner, h⟩ := ensure_bind_eq_ok.mp h
    refine .inr ⟨claim, rfl, howner, ?_⟩
    cases claim with
    | authorized =>
      obtain ⟨hflag, h⟩ := ensure_bind_eq_ok.mp h
      exact ⟨hflag, (ok.inj h).symm⟩
    | pda seed =>
      obtain ⟨hpda, h⟩ := ensure_bind_eq_ok.mp h
      exact ⟨hpda, (ok.inj h).symm⟩

/-- Everything the loop checks and does when it serves a call. -/
structure Step (exec : Executor) (state : V03State) (blockId : BlockId) (timestamp : Timestamp)
    (diff : Diff) (call : Call) (output : ProgramOutput) (diff' : Diff) : Prop where
  executed : execute exec state call = .ok output
  consistent : ∀ pre ∈ output.preStates, pre.account = overlay state diff pre.accountId
  authorization : ∀ pre ∈ output.preStates,
    (pre.isAuthorized = true ↔ isAuthorized call pre.accountId = true)
  selfProgramId : output.selfProgramId = call.1.programId
  callerProgramId : output.callerProgramId = call.2.programId
  valid : validateExecution output.preStates output.postStates call.1.programId = .ok ()
  block : output.blockValidityWindow.isValidFor blockId = true
  time : output.timestampValidityWindow.isValidFor timestamp = true
  claims : ∃ accounts, List.Forall₂
    (fun (pair : AccountWithMetadata × AccountPostState) account =>
      claimAccount call.1.programId pair.1 pair.2 = .ok account)
    (output.preStates.zip output.postStates) accounts ∧
    diff' = insertAll diff ((output.preStates.map (·.accountId)).zip accounts)

theorem checkPreState_eq_ok {state : V03State} {diff : Diff} {u : Unit} :
    checkPreState state diff call pre = .ok u ↔
      pre.account = overlay state diff pre.accountId ∧
        (pre.isAuthorized = true ↔ isAuthorized call pre.accountId = true) := by
  unfold checkPreState
  rw [ensure_bind_eq_ok, ensure_bind_eq_ok, ensure_eq_ok]
  cases pre.isAuthorized <;> cases isAuthorized call pre.accountId <;> simp

variable {exec : Executor} {state : V03State} {blockId : BlockId} {timestamp : Timestamp}
  {diff diff' : Diff} {output : ProgramOutput}

theorem machine_serves :
    (machine exec state blockId timestamp).Serves diff call output diff' ↔
      Step exec state blockId timestamp diff call output diff' := by
  constructor
  · rintro ⟨hexec, h⟩
    obtain ⟨_, hpre, h⟩ := bind_eq_ok.mp h
    obtain ⟨hself, h⟩ := ensure_bind_eq_ok.mp h
    obtain ⟨hcaller, h⟩ := ensure_bind_eq_ok.mp h
    obtain ⟨_, hvalid, h⟩ := bind_eq_ok.mp h
    obtain ⟨hwindow, h⟩ := ensure_bind_eq_ok.mp h
    obtain ⟨accounts, haccounts, h⟩ := bind_eq_ok.mp h
    have hpre' := fun pre hmem => checkPreState_eq_ok.mp (forM_eq_ok.mp hpre pre hmem)
    rw [Bool.and_eq_true] at hwindow
    exact
      { executed := hexec
        consistent := fun pre hmem => (hpre' pre hmem).1
        authorization := fun pre hmem => (hpre' pre hmem).2
        selfProgramId := hself
        callerProgramId := hcaller
        valid := mapError_eq_ok.mp hvalid
        block := hwindow.1
        time := hwindow.2
        claims := ⟨accounts, mapM_eq_ok.mp haccounts, (ok.inj h).symm⟩ }
  · intro h
    obtain ⟨accounts, haccounts, hdiff⟩ := h.claims
    refine ⟨h.executed, ?_⟩
    refine bind_eq_ok.mpr ⟨(), forM_eq_ok.mpr fun pre hmem =>
      checkPreState_eq_ok.mpr ⟨h.consistent pre hmem, h.authorization pre hmem⟩, ?_⟩
    refine ensure_bind_eq_ok.mpr ⟨h.selfProgramId, ?_⟩
    refine ensure_bind_eq_ok.mpr ⟨h.callerProgramId, ?_⟩
    refine bind_eq_ok.mpr ⟨(), mapError_eq_ok.mpr h.valid, ?_⟩
    refine ensure_bind_eq_ok.mpr ⟨by rw [h.block, h.time]; rfl, ?_⟩
    refine bind_eq_ok.mpr ⟨accounts, mapM_eq_ok.mpr haccounts, ?_⟩
    rw [hdiff]
    rfl

/-- A run of a single call, which is all of it if it asks for no other. -/
theorem run_singleton {n : ℕ}
    (h : (machine exec state blockId timestamp).run n [call] diff = .ok diff') :
    ∃ output mid, Step exec state blockId timestamp diff call output mid ∧
      (output.chainedCalls = [] → mid = diff') := by
  cases n with
  | zero => cases h
  | succ n =>
    obtain ⟨output, mid, hserves, hrest⟩ := Machine.run_succ_cons_eq_ok.mp h
    refine ⟨output, mid, machine_serves.mp hserves, fun hcalls => ?_⟩
    have hnext : (machine exec state blockId timestamp).calls call output = [] := by
      show nextCalls call output = []
      rw [nextCalls, hcalls, map_nil]
    rw [hnext, nil_append, Machine.run_nil] at hrest
    exact ok.inj hrest

/-- What a call of `executing` can do to an account it lists as `pre` and
returns as `post`: the rules of `ValidAccount`, and then a claim. -/
structure Effect (executing : ProgramId) (pre : AccountWithMetadata) (post : AccountPostState)
    (after : Account) : Prop where
  valid : ValidAccount executing pre.account post.account
  balance : after.balance = post.account.balance
  data : after.data = post.account.data
  nonce : after.nonce = post.account.nonce
  programOwner : after.programOwner = pre.account.programOwner ∨
    (pre.account = .default ∧ after.programOwner = ofProgramId executing ∧
      ∃ claim, post.claim = some claim ∧ MayClaim executing pre claim)

theorem Effect.of_claimAccount {executing : ProgramId} {post : AccountPostState} {after : Account}
    (hvalid : ValidAccount executing pre.account post.account)
    (h : claimAccount executing pre post = .ok after) : Effect executing pre post after := by
  rcases claimAccount_ok h with ⟨-, rfl⟩ | ⟨claim, hclaim, hdefault, hmay, rfl⟩
  · exact ⟨hvalid, rfl, rfl, rfl, .inl hvalid.programOwner⟩
  · have hpre := hvalid.unowned (hvalid.programOwner.symm.trans hdefault)
    exact ⟨hvalid, rfl, rfl, rfl, .inr ⟨hpre, rfl, claim, hclaim, hmay⟩⟩

namespace Step

theorem validExecution (h : Step exec state blockId timestamp diff call output diff') :
    ValidExecution output.preStates output.postStates call.1.programId :=
  validateExecution_ok h.valid

variable {accountId : AccountId} {post : AccountPostState} {account : Account}

section

variable (h : Step exec state blockId timestamp diff call output diff')

include h

/-- An account that the output does not list stays as it is. -/
theorem untouched (hnot : ¬Mentions (call, output) accountId) :
    diff'.lookup accountId = diff.lookup accountId := by
  obtain ⟨accounts, -, rfl⟩ := h.claims
  refine Ledger.lookup_insertAll_of_notMem fun hmem => hnot ?_
  obtain ⟨⟨key, account⟩, hzip, rfl⟩ := mem_map.mp hmem
  exact mem_map.mp (of_mem_zip hzip).1

section

variable (hmem : (pre, post) ∈ output.preStates.zip output.postStates)

include hmem

/-- What is written for an account that the output lists: its post-state, claimed. -/
theorem claimed :
    ∃ after, diff'.lookup pre.accountId = some after ∧
      claimAccount call.1.programId pre post = .ok after := by
  have hvalid := h.validExecution
  obtain ⟨accounts, haccounts, rfl⟩ := h.claims
  rw [List.forall₂_iff_zip] at haccounts
  obtain ⟨hlen, hclaims⟩ := haccounts
  set pairs := output.preStates.zip output.postStates with hpairs
  have hfst : output.preStates = pairs.map Prod.fst := hvalid.map_fst_zip.symm
  -- the value written under the key of `pre`
  have hmem' : (pre, post) ∈ (pairs.zip accounts).map Prod.fst := by
    rw [List.map_fst_zip hlen.le]
    exact hmem
  obtain ⟨⟨_, after⟩, hzip, rfl⟩ := mem_map.mp hmem'
  refine ⟨after, ?_, hclaims hzip⟩
  apply Ledger.lookup_insertAll_of_mem
  · rw [List.map_fst_zip (by simp [hfst, hlen])]
    exact hvalid.nodup
  · rw [hfst, map_map, List.zip_map_left]
    exact mem_map.mpr ⟨_, hzip, rfl⟩

/-- An account that the output lists is left as its post-state and claim say. -/
theorem touched :
    ∃ after, diff'.lookup pre.accountId = some after ∧ Effect call.1.programId pre post after := by
  obtain ⟨after, hlook, hclaim⟩ := h.claimed hmem
  exact ⟨after, hlook, Effect.of_claimAccount (h.validExecution.account _ hmem) hclaim⟩

/-- How an account that the output lists reads afterwards. -/
theorem claimAccount_overlay :
    claimAccount call.1.programId pre post = .ok (overlay state diff' pre.accountId) := by
  obtain ⟨after, hlook, hclaim⟩ := h.claimed hmem
  rw [hclaim, overlay, hlook, getD_some]

end

end

/-- What the first step of a run writes is the post-state of an account that it lists. -/
theorem written (h : Step exec state blockId timestamp ∅ call output diff')
    (hlook : diff'.lookup accountId = some account) :
    ∃ pre post, (pre, post) ∈ output.preStates.zip output.postStates ∧ pre.accountId = accountId ∧
      claimAccount call.1.programId pre post = .ok account := by
  by_cases hmem : Mentions (call, output) accountId
  · obtain ⟨pre, hpre, rfl⟩ := hmem
    obtain ⟨post, hpair⟩ := h.validExecution.exists_post hpre
    obtain ⟨after, hafter, hclaim⟩ := h.claimed hpair
    obtain rfl := some.inj (hafter.symm.trans hlook)
    exact ⟨pre, post, hpair, rfl, hclaim⟩
  · rw [h.untouched hmem, AList.lookup_empty] at hlook
    cases hlook

section

variable (h : Step exec state blockId timestamp diff call output diff')

include h

/-- Every account that the output lists is written. -/
theorem mem_diff (hpre : pre ∈ output.preStates) : pre.accountId ∈ diff' := by
  obtain ⟨post, hpair⟩ := h.validExecution.exists_post hpre
  obtain ⟨after, hlook, -⟩ := h.claimed hpair
  exact lookup_isSome.mp (by rw [hlook]; rfl)

/-- A post-state without a claim is what is written. -/
theorem overlay_new
    (hmem : (pre, .new account) ∈ output.preStates.zip output.postStates) :
    overlay state diff' pre.accountId = account :=
  (ok.inj (h.claimAccount_overlay hmem)).symm

/-- A post-state that is claimed if nobody owns it belongs to the program then. -/
theorem overlay_newClaimedIfDefault {claim : Claim}
    (hmem : (pre, .newClaimedIfDefault account claim) ∈ output.preStates.zip output.postStates) :
    overlay state diff' pre.accountId = { account with
      programOwner := if account.programOwner = defaultProgramOwner
        then ofProgramId call.1.programId else account.programOwner } := by
  have hclaim := claimAccount_ok (h.claimAccount_overlay hmem)
  simp only [AccountPostState.newClaimedIfDefault] at hclaim
  split at hclaim
  · rename_i hdefault
    rcases hclaim with ⟨hnone, -⟩ | ⟨_, -, -, -, hafter⟩
    · cases hnone
    · rw [hafter, if_pos hdefault]
  · rename_i howned
    rcases hclaim with ⟨-, hafter⟩ | ⟨_, hsome, -⟩
    · rw [hafter, if_neg howned]
    · cases hsome

/-- A post-state that is claimed belongs to the program, and nobody owned it. -/
theorem overlay_newClaimed {claim : Claim} (hmem : (pre, .newClaimed account claim)
      ∈ output.preStates.zip output.postStates) :
    overlay state diff' pre.accountId =
      { account with programOwner := .ofProgramId call.1.programId } := by
  rcases claimAccount_ok (h.claimAccount_overlay hmem) with ⟨hnone, -⟩ | ⟨_, -, -, -, hafter⟩
  · exact absurd hnone (by simp [AccountPostState.newClaimed])
  · exact hafter

theorem overlay_of_notMem (hnot : accountId ∉ output.preStates.map (·.accountId)) :
    overlay state diff' accountId = overlay state diff accountId := by
  rw [overlay, overlay, h.untouched fun hmentions => hnot (mem_map.mpr hmentions)]

/-- Every account reads as before, or is listed and changes as `Effect` allows. -/
theorem effect (accountId : AccountId) :
    overlay state diff' accountId = overlay state diff accountId ∨
      ∃ pre post, (pre, post) ∈ output.preStates.zip output.postStates ∧
        pre.accountId = accountId ∧ pre.account = overlay state diff accountId ∧
        Effect call.1.programId pre post (overlay state diff' accountId) := by
  by_cases hmem : Mentions (call, output) accountId
  · right
    obtain ⟨pre, hpre, rfl⟩ := hmem
    obtain ⟨post, hpair⟩ := h.validExecution.exists_post hpre
    obtain ⟨after, hlook, heffect⟩ := h.touched hpair
    refine ⟨_, post, hpair, rfl, h.consistent _ hpre, ?_⟩
    rw [overlay, hlook]
    exact heffect
  · left
    rw [overlay, overlay, h.untouched hmem]

/-- An owned account keeps its owner, and other programs leave its data alone and do not
lower its balance. -/
theorem owned {owner : ProgramId}
    (howned : (overlay state diff accountId).programOwner = .ofProgramId owner)
    (hunowned : ofProgramId owner ≠ defaultProgramOwner) :
    (overlay state diff' accountId).programOwner = .ofProgramId owner ∧
      (call.1.programId ≠ owner →
        (overlay state diff' accountId).data = (overlay state diff accountId).data ∧
        (overlay state diff accountId).balance ≤ (overlay state diff' accountId).balance) := by
  rcases h.effect accountId with heq | ⟨pre, post, -, -, hpre, heffect⟩
  · rw [heq]
    exact ⟨howned, fun _ => ⟨rfl, le_rfl⟩⟩
  rw [← hpre] at howned ⊢
  have hnotDefault : pre.account ≠ .default := by
    intro hdefault
    rw [hdefault] at howned
    exact hunowned howned.symm
  refine ⟨?_, fun hforeign => ⟨?_, ?_⟩⟩
  · rcases heffect.programOwner with hsame | ⟨hdefault, -⟩
    · rw [hsame, howned]
    · exact absurd hdefault hnotDefault
  · rw [heffect.data]
    by_contra hne
    rcases heffect.valid.data hne with hdefault | howns
    · exact hnotDefault hdefault
    · exact hforeign (ofProgramId_injective (howns.symm.trans howned))
  · rw [heffect.balance]
    by_contra hlt
    have howns := heffect.valid.balance (not_le.mp hlt)
    exact hforeign (ofProgramId_injective (howns.symm.trans howned))

/-- No call changes a nonce. -/
theorem nonce_eq (accountId : AccountId) :
    (overlay state diff' accountId).nonce = (overlay state diff accountId).nonce := by
  rcases h.effect accountId with heq | ⟨pre, post, -, -, hpre, heffect⟩
  · rw [heq]
  · rw [heffect.nonce, heffect.valid.nonce, hpre]

/-- The accounts listed hold the same balance together before and after. -/
theorem balance_eq :
    ((output.preStates.map (·.accountId)).map fun accountId =>
        (overlay state diff' accountId).balance.val).sum
      = ((output.preStates.map (·.accountId)).map fun accountId =>
        (overlay state diff accountId).balance.val).sum := by
  have hvalid := h.validExecution
  have hafter : (output.preStates.map fun pre =>
        (overlay state diff' pre.accountId).balance.val)
      = output.postStates.map fun post => post.account.balance.val := by
    conv_lhs => rw [← hvalid.map_fst_zip]
    conv_rhs => rw [← hvalid.map_snd_zip]
    rw [map_map, map_map]
    refine map_congr_left fun pair hpair => ?_
    obtain ⟨after, hlook, heffect⟩ := h.touched hpair
    rw [Function.comp_apply, Function.comp_apply, overlay, hlook, getD_some, heffect.balance]
  have hbefore : (output.preStates.map fun pre =>
        (overlay state diff pre.accountId).balance.val)
      = output.preStates.map fun pre => pre.account.balance.val :=
    map_congr_left fun pre hpre => by rw [h.consistent pre hpre]
  rw [map_map, map_map]
  exact (congrArg List.sum hafter).trans
    (hvalid.balance_eq.symm.trans (congrArg List.sum hbefore).symm)

end

end Step

end PublicExecution

open PublicExecution

variable [Sha256] [Schnorr]

/-- `from_public_transaction` before its loop: the signers and the first call. -/
def preparePublicTransaction (tx : PublicTransaction) (state : V03State) :
    Except LeeError (List AccountId × Call) := do
  let signerAccountIds ← authenticatePublicTransactionSigners tx state
  ensure (tx.message.accountIds ≠ [])
    (.invalidInput "Public transaction must have at least one account")
  ensure (tx.message.accountIds.toFinset.card = tx.message.accountIds.length)
    (.invalidInput "Duplicate account_ids found in message")
  pure (signerAccountIds, initialCall state signerAccountIds tx.message)

/-- `from_public_transaction` up to its last check: the signers and the diff. -/
def executePublicTransaction (exec : Executor) (tx : PublicTransaction) (state : V03State)
    (blockId : BlockId) (timestamp : Timestamp) : Except LeeError (List AccountId × Diff) := do
  let (signerAccountIds, call) ← preparePublicTransaction tx state
  let diff ← (machine exec state blockId timestamp).run (maxNumberChainedCalls + 1) [call] ∅
  checkClaimed state diff
  pure (signerAccountIds, diff)

/-- `ValidatedStateDiff::from_public_transaction`. -/
def fromPublicTransaction (exec : Executor) (tx : PublicTransaction) (state : V03State)
    (blockId : BlockId) (timestamp : Timestamp) : Except LeeError StateDiff := do
  let (signerAccountIds, publicDiff) ← executePublicTransaction exec tx state blockId timestamp
  checkDeclared tx.message.accountIds publicDiff
  pure { signerAccountIds, publicDiff, newCommitments := [], newNullifiers := [], program := none }

/-- The calls served for a transaction, in order, with their ancestors. -/
def callTree (exec : Executor) (tx : PublicTransaction) (state : V03State)
    (blockId : BlockId) (timestamp : Timestamp) : List (Visit Diff Call ProgramOutput) :=
  (machine exec state blockId timestamp).visits (maxNumberChainedCalls + 1)
    [(firstCall state tx, [])] ∅

/-- Why a transaction does not change the state: it was refused, or the node
panicked while applying it. -/
inductive TransitionError
  | rejected (error : LeeError)
  | panicked
  deriving DecidableEq

/-- Apply a validated diff. -/
def V03State.apply (state : V03State) (diff : Except LeeError StateDiff) :
    Except TransitionError V03State :=
  match diff with
  | .error error => .error (.rejected error)
  | .ok diff =>
    match state.applyStateDiff diff with
    | none => .error .panicked
    | some state' => .ok state'

/-- `V03State::transition_from_public_transaction`. -/
def transitionFromPublicTransaction (exec : Executor) (state : V03State) (tx : PublicTransaction)
    (blockId : BlockId) (timestamp : Timestamp) : Except TransitionError V03State :=
  state.apply (fromPublicTransaction exec tx state blockId timestamp)

/-! ### Accepted transactions -/

/-- What `from_public_transaction` establishes. -/
structure Accepted (exec : Executor) (tx : PublicTransaction) (state : V03State)
    (blockId : BlockId) (timestamp : Timestamp) (diff : StateDiff) : Prop where
  signers : diff.signerAccountIds = tx.signerAccountIds
  signed : ∀ accountId, accountId ∈ tx.signerAccountIds ↔ tx.SignedBy accountId
  run : (machine exec state blockId timestamp).run (maxNumberChainedCalls + 1)
    [firstCall state tx] ∅ = .ok diff.publicDiff
  claimed : checkClaimed state diff.publicDiff = .ok ()
  program : diff.program = none

variable {tx : PublicTransaction} {state state' : V03State} {exec : Executor} {blockId : BlockId}
  {timestamp : Timestamp} {diff : StateDiff}

/-- A transaction leaves every account as its calls do, up to the nonce. -/
theorem Accepted.funds (h : Accepted exec tx state blockId timestamp diff)
    (happly : state.applyStateDiff diff = some state') (accountId : AccountId) :
    SameFunds (state'.getAccountById accountId) (overlay state diff.publicDiff accountId) :=
  (applyStateDiff_funds happly h.program accountId).1

theorem preparePublicTransaction_ok {signers : List AccountId} {call : Call}
    (h : preparePublicTransaction tx state = .ok (signers, call)) :
    signers = tx.signerAccountIds ∧
      (∀ accountId, accountId ∈ tx.signerAccountIds ↔ tx.SignedBy accountId) ∧
      call = firstCall state tx := by
  obtain ⟨signers', hauth, h⟩ := bind_eq_ok.mp h
  obtain ⟨-, h⟩ := ensure_bind_eq_ok.mp h
  obtain ⟨-, h⟩ := ensure_bind_eq_ok.mp h
  obtain ⟨rfl, hsigned⟩ := authenticatePublicTransactionSigners_ok hauth
  cases h
  exact ⟨rfl, hsigned, rfl⟩

section

variable (h : fromPublicTransaction exec tx state blockId timestamp = .ok diff)

include h

theorem fromPublicTransaction_ok :
    Accepted exec tx state blockId timestamp diff := by
  obtain ⟨⟨signers, publicDiff⟩, hexec, h⟩ := bind_eq_ok.mp h
  obtain ⟨_, -, h⟩ := bind_eq_ok.mp h
  obtain ⟨⟨signers', call⟩, hprepare, hexec⟩ := bind_eq_ok.mp hexec
  obtain ⟨publicDiff', hrun, hexec⟩ := bind_eq_ok.mp hexec
  obtain ⟨_, hclaimed, hexec⟩ := bind_eq_ok.mp hexec
  cases hexec
  obtain ⟨rfl, hsigned, rfl⟩ := preparePublicTransaction_ok hprepare
  have hdiff := ok.inj h
  subst hdiff
  exact ⟨rfl, hsigned, hrun, hclaimed, rfl⟩

theorem fromPublicTransaction_authenticated :
    ∃ signers, authenticatePublicTransactionSigners tx state = .ok signers := by
  obtain ⟨_, hexec, -⟩ := bind_eq_ok.mp h
  obtain ⟨_, hprepare, -⟩ := bind_eq_ok.mp hexec
  obtain ⟨signers, hauth, -⟩ := bind_eq_ok.mp hprepare
  exact ⟨signers, hauth⟩

theorem fromPublicTransaction_commitments :
    diff.newCommitments = [] := by
  obtain ⟨_, -, h⟩ := bind_eq_ok.mp h
  obtain ⟨_, -, h⟩ := bind_eq_ok.mp h
  rw [← ok.inj h]

end

/-- A transaction whose signers are authenticated and whose call asks for no other is accepted,
if its accounts are different, the call is a step, and what it does to accounts without an
owner is allowed. -/
theorem fromPublicTransaction_of_signed {output : ProgramOutput} {diff : Diff}
    (hsigners : authenticatePublicTransactionSigners tx state = .ok tx.signerAccountIds)
    (hnonempty : tx.message.accountIds ≠ []) (hnodup : tx.message.accountIds.Nodup)
    (hstep : Step exec state blockId timestamp ∅ (firstCall state tx) output diff)
    (hcalls : output.chainedCalls = []) (hclaimed : checkClaimed state diff = .ok ())
    (hdeclared : ∀ accountId ∈ tx.message.accountIds, accountId ∈ diff) :
    fromPublicTransaction exec tx state blockId timestamp
      = .ok { signerAccountIds := tx.signerAccountIds, publicDiff := diff, newCommitments := []
              newNullifiers := [], program := none } := by
  have hprepare : preparePublicTransaction tx state
      = .ok (tx.signerAccountIds, firstCall state tx) := by
    refine bind_eq_ok.mpr ⟨_, hsigners, ?_⟩
    refine ensure_bind_eq_ok.mpr ⟨hnonempty, ?_⟩
    exact ensure_bind_eq_ok.mpr ⟨List.toFinset_card_of_nodup hnodup, rfl⟩
  have hrun : (machine exec state blockId timestamp).run (maxNumberChainedCalls + 1)
      [firstCall state tx] ∅ = .ok diff := by
    refine Machine.run_succ_cons_eq_ok.mpr ⟨output, diff, machine_serves.mpr hstep, ?_⟩
    have hnext : (machine exec state blockId timestamp).calls (firstCall state tx) output = [] := by
      show nextCalls _ output = []
      rw [nextCalls, hcalls, map_nil]
    rw [hnext, nil_append, Machine.run_nil]
  refine bind_eq_ok.mpr ⟨(tx.signerAccountIds, diff), bind_eq_ok.mpr ⟨_, hprepare, ?_⟩, ?_⟩
  · refine bind_eq_ok.mpr ⟨diff, hrun, ?_⟩
    exact bind_eq_ok.mpr ⟨(), hclaimed, rfl⟩
  · refine bind_eq_ok.mpr ⟨(), forM_eq_ok.mpr fun accountId hmem => ?_, rfl⟩
    exact ensure_eq_ok.mpr (hdeclared accountId hmem)

namespace Accepted

variable {exec : Executor} {tx : PublicTransaction} {state : V03State} {blockId : BlockId}
  {timestamp : Timestamp} {diff : StateDiff}

/-- The diff is built by the calls of the tree, one after the other. -/
theorem threads (h : Accepted exec tx state blockId timestamp diff) :
    Machine.Threads (callTree exec tx state blockId timestamp) ∅ diff.publicDiff :=
  Machine.run_threads h.run

/-- An account that nobody owned and nobody took over is as it was. -/
theorem eq_of_unowned (h : Accepted exec tx state blockId timestamp diff) {accountId : AccountId}
    (hbefore : (state.getAccountById accountId).programOwner = defaultProgramOwner)
    (hafter : (overlay state diff.publicDiff accountId).programOwner = defaultProgramOwner) :
    overlay state diff.publicDiff accountId = state.getAccountById accountId := by
  cases hlook : diff.publicDiff.lookup accountId with
  | none => rw [overlay, hlook, getD_none]
  | some post =>
    rw [overlay, hlook, getD_some] at hafter ⊢
    by_contra hne
    have hround := forM_eq_ok.mp h.claimed ⟨accountId, post⟩ (mem_lookup_iff.mp hlook)
    exact ensure_eq_ok.mp hround hbefore (fun heq => hne heq.symm) hafter

end Accepted

omit [Schnorr] in
/-- Every call of the tree is a `Step`. -/
theorem callTree_step {v : Visit Diff Call ProgramOutput}
    (hv : v ∈ callTree exec tx state blockId timestamp) :
    Step exec state blockId timestamp v.before v.call v.result v.after :=
  machine_serves.mp (Machine.visits_serves hv)

omit [Schnorr] in
theorem V03State.apply_ok {validated : Except LeeError StateDiff}
    (h : state.apply validated = .ok state') :
    ∃ diff, validated = .ok diff ∧ state.applyStateDiff diff = some state' := by
  unfold V03State.apply at h
  split at h
  · cases h
  · rename_i diff
    split at h
    · cases h
    · rename_i hsome
      rw [Except.ok.injEq] at h
      exact ⟨diff, rfl, h ▸ hsome⟩

omit [Schnorr] in
theorem V03State.apply_of_applyStateDiff (h : state.applyStateDiff diff = some state') :
    state.apply (.ok diff) = .ok state' := by
  simp only [V03State.apply, h]

theorem transitionFromPublicTransaction_ok
    (h : transitionFromPublicTransaction exec state tx blockId timestamp = .ok state') :
    ∃ diff, Accepted exec tx state blockId timestamp diff ∧
      state.applyStateDiff diff = some state' := by
  obtain ⟨diff, hdiff, happly⟩ := V03State.apply_ok h
  exact ⟨diff, fromPublicTransaction_ok hdiff, happly⟩

end Lssa
