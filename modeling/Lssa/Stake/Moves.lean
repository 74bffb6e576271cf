/-
What transactions do to the accounts of the stake program.

Whatever programs a transaction runs, it adds balance to the accounts of the program, or is
one of three movements, each between one ownership account and the configuration (`Moves`): a
stake, a request for a release, and the release.  The instructions are accepted from messages
only, and between a stake and its confirmation, where a program of the staker's choice runs,
the program does not accept calls from outside.

* `run_outside` — what calls from outside can do;
* **`Openly.moves`** — an accepted transaction is one of the movements.
-/
import Lssa.Custody
import Lssa.History
import Lssa.Sequencer.CommitteeDiscovery

open DepthFirst

namespace Lssa

open PublicExecution

namespace SequencerStake

open StakeBuiltin

/-! ### Accounts of the program -/

/-- Owner and data as before, and no less balance: what others can make of an account. -/
structure Held (before after : Account) : Prop where
  programOwner : after.programOwner = before.programOwner
  data : after.data = before.data
  balance : before.balance ≤ after.balance

theorem Held.refl (account : Account) : Held account account := ⟨rfl, rfl, le_rfl⟩

theorem Held.trans {a b c : Account} (hab : Held a b) (hbc : Held b c) : Held a c :=
  ⟨hbc.programOwner.trans hab.programOwner, hbc.data.trans hab.data, hab.balance.trans hbc.balance⟩

theorem Held.of_kept {a b : Account} (h : Kept a b) : Held a b :=
  ⟨h.programOwner, h.data, h.balance⟩

theorem Held.of_sameFunds {a b : Account} (h : SameFunds b a) : Held a b :=
  ⟨h.programOwner, h.data, h.balance.ge⟩

variable [Ed25519]

/-- An account of the program with a tag. -/
structure Tagged (programId : ProgramId) (account : Account) (record : StakeRecord) : Prop where
  programOwner : account.programOwner = ofProgramId programId
  record : StakeRecord.fromBytes account.data.bytes = some record

variable {programId : ProgramId} {expectedBalanceAfter : U128} {ownership : AccountWithMetadata}

theorem Tagged.of_held {before after : Account} {record : StakeRecord}
    (h : Tagged programId before record) (hheld : Held before after) :
    Tagged programId after record :=
  ⟨hheld.programOwner.trans h.programOwner, by rw [hheld.data]; exact h.record⟩

variable [Sha256]

/-- The configuration that the accounts hold. -/
structure Opened (programId : ProgramId) (accounts : AccountId → Account)
    (config : SequencerStakeConfig) : Prop where
  programOwner : (accounts (sequencerStakeConfigAccountId programId)).programOwner
    = ofProgramId programId
  config : SequencerStakeConfig.fromBytes
    (accounts (sequencerStakeConfigAccountId programId)).data.bytes = some config

theorem Opened.of_held {before after : AccountId → Account} {config : SequencerStakeConfig}
    (h : Opened programId before config)
    (hheld : Held (before (sequencerStakeConfigAccountId programId))
      (after (sequencerStakeConfigAccountId programId))) : Opened programId after config :=
  ⟨hheld.programOwner.trans h.programOwner, by rw [hheld.data]; exact h.config⟩

theorem Opened.unique {accounts : AccountId → Account} {config config' : SequencerStakeConfig}
    (h : Opened programId accounts config) (h' : Opened programId accounts config') :
    config = config' :=
  some.inj (h.config.symm.trans h'.config)

/-- The accounts of the program other than the configuration and one ownership account are
held. -/
def HeldBeside (programId : ProgramId) (before after : AccountId → Account)
    (ownershipId : AccountId) : Prop :=
  ∀ accountId, accountId ≠ ownershipId → accountId ≠ sequencerStakeConfigAccountId programId →
    (before accountId).programOwner = ofProgramId programId →
    Held (before accountId) (after accountId)

/-! ### Movements -/

/-- What a message asks the program for. -/
inductive Movement
  | request (ownershipId : AccountId) (pending : PendingUnstake)
  | release (ownershipId : AccountId)
  /-- A stake, or nothing. -/
  | other
  deriving DecidableEq

/-- What a transaction does to the accounts of the program. -/
inductive Moves (programId : ProgramId) (before after : AccountId → Account) : Movement → Prop
  | outside (held : ∀ accountId,
      (before accountId).programOwner = ofProgramId programId →
      Held (before accountId) (after accountId)) : Moves programId before after .other
  | staked {ownershipId : AccountId} {sequencerKey : SequencerKey} {amount : U128}
      {config : SequencerStakeConfig} {entry : SequencerEntry}
      (apart : ownershipId ≠ sequencerStakeConfigAccountId programId)
      (opened : Opened programId before config)
      (claimed : (before ownershipId).programOwner ≠ defaultProgramOwner →
        Tagged programId (before ownershipId) ⟨sequencerKey, none⟩)
      (booked : bookStake config ((before ownershipId).programOwner ≠ defaultProgramOwner)
        ownershipId sequencerKey amount = some entry)
      (tagged : Tagged programId (after ownershipId) ⟨sequencerKey, none⟩)
      (balance : (after ownershipId).balance.val = (before ownershipId).balance.val + amount.val)
      (reopened : Opened programId after (config.withEntry sequencerKey entry))
      (held : HeldBeside programId before after ownershipId) : Moves programId before after .other
  | requested {ownershipId : AccountId} {sequencerKey : SequencerKey} {pending : PendingUnstake}
      {config : SequencerStakeConfig} {entry : SequencerEntry} {totalPendingUnstake : U128}
      (apart : ownershipId ≠ sequencerStakeConfigAccountId programId)
      (opened : Opened programId before config)
      (untagged : Tagged programId (before ownershipId) ⟨sequencerKey, none⟩)
      (found : config.entries.lookup sequencerKey = some entry)
      (backs : entry.accountId = ownershipId)
      (allowed : entry.allowsUnstakeRequest pending.amount config.minimumSequencerStake = true)
      (booked : totalPendingUnstake.val = entry.totalPendingUnstake.val + pending.amount.val)
      (tagged : Tagged programId (after ownershipId) ⟨sequencerKey, some pending⟩)
      (balance : (before ownershipId).balance ≤ (after ownershipId).balance)
      (reopened : Opened programId after
        (config.withEntry sequencerKey { entry with totalPendingUnstake }))
      (held : HeldBeside programId before after ownershipId) :
      Moves programId before after (.request ownershipId pending)
  | finalized {ownershipId : AccountId} {sequencerKey : SequencerKey} {pending : PendingUnstake}
      {config : SequencerStakeConfig} {entry : SequencerEntry}
      {totalStaked totalPendingUnstake : U128}
      (apart : ownershipId ≠ sequencerStakeConfigAccountId programId)
      (opened : Opened programId before config)
      (tagged : Tagged programId (before ownershipId) ⟨sequencerKey, some pending⟩)
      (found : config.entries.lookup sequencerKey = some entry)
      (backs : entry.accountId = ownershipId)
      (staked : totalStaked.val + pending.amount.val = entry.totalStaked.val)
      (released : totalPendingUnstake.val + pending.amount.val = entry.totalPendingUnstake.val)
      (untagged : Tagged programId (after ownershipId) ⟨sequencerKey, none⟩)
      (balance : (after ownershipId).balance.val + pending.amount.val
        = (before ownershipId).balance.val)
      (reopened : Opened programId after
        (config.released sequencerKey { entry with totalStaked, totalPendingUnstake }))
      (held : HeldBeside programId before after ownershipId) :
      Moves programId before after (.release ownershipId)

variable {programId : ProgramId} {before after after' : AccountId → Account} {label : Movement}

/-- A movement is not changed by nonces. -/
theorem Moves.of_sameFunds (h : Moves programId before after label)
    (hfunds : ∀ accountId, SameFunds (after' accountId) (after accountId)) :
    Moves programId before after' label := by
  have hheld : ∀ accountId, Held (after accountId) (after' accountId) :=
    fun accountId => .of_sameFunds (hfunds accountId)
  have hbeside : ∀ {ownershipId}, HeldBeside programId before after ownershipId →
      HeldBeside programId before after' ownershipId :=
    fun h accountId hne hne' howned => (h accountId hne hne' howned).trans (hheld accountId)
  cases h with
  | outside held =>
    exact .outside fun accountId howned => (held accountId howned).trans (hheld accountId)
  | staked apart opened claimed booked tagged balance reopened held =>
    exact .staked apart opened claimed booked (tagged.of_held (hheld _))
      (by rw [(hfunds _).balance, balance]) (reopened.of_held (hheld _)) (hbeside held)
  | requested apart opened untagged found backs allowed booked tagged balance reopened held =>
    exact .requested apart opened untagged found backs allowed booked (tagged.of_held (hheld _))
      (balance.trans (hheld _).balance) (reopened.of_held (hheld _)) (hbeside held)
  | finalized apart opened tagged found backs staked released untagged balance reopened held =>
    exact .finalized apart opened tagged found backs staked released (untagged.of_held (hheld _))
      (by rw [(hfunds _).balance, balance]) (reopened.of_held (hheld _)) (hbeside held)

/-! ### Calls from outside -/

/-- A call that the program does not accept: another program made it, or it is one that only a
message may make. -/
def Outside (programId : ProgramId) (call : Call) : Prop :=
  call.1.programId = programId → ∃ caller, call.2.programId = some caller ∧
    (caller = programId → call.1.preStates.length ≠ 1)

variable [Serde Instruction] {exec : Executor} {state : V03State} {blockId : BlockId}
  {timestamp : Timestamp} {diff diff' : Diff} {call : Call} {output : ProgramOutput}

theorem Outside.ne (h : Outside programId call) (hruns : Executes exec programId main)
    (hstep : Step exec state blockId timestamp diff call output diff') :
    call.1.programId ≠ programId := by
  intro hprogram
  obtain ⟨caller, hcaller, hself⟩ := h hprogram
  have houtput := hruns.of_execute hprogram hstep.executed
  rw [hcaller] at houtput
  rcases (main_cases houtput).2 with
    ⟨_, _, _, _, hnone, -⟩ | ⟨_, hsome, -, hconfirm, -⟩ | ⟨_, _, hnone, -⟩ | ⟨hnone, -⟩
  · cases hnone
  · obtain ⟨ownership, hlist, -⟩ := confirmStake_ok hconfirm
    exact hself (some.inj hsome) (by rw [hlist]; rfl)
  · cases hnone
  · cases hnone

omit [Ed25519] [Sha256] [Serde Instruction] in
/-- The calls that another program asks for are from outside. -/
theorem outside_nextCalls (hforeign : call.1.programId ≠ programId) :
    ∀ next ∈ nextCalls call output, Outside programId next := by
  intro next hnext hprogram
  obtain ⟨newCall, -, rfl⟩ := mem_map.mp hnext
  exact ⟨call.1.programId, rfl, fun hself => absurd hself hforeign⟩

/-- **What calls from outside can do** to the accounts of the program. -/
theorem run_outside (hruns : Executes exec programId main)
    (howns : ofProgramId programId ≠ defaultProgramOwner) {n : ℕ} {work : List Call}
    (hrun : (machine exec state blockId timestamp).run n work diff = .ok diff')
    (hwork : ∀ call ∈ work, Outside programId call) (accountId : AccountId)
    (howned : (overlay state diff accountId).programOwner = .ofProgramId programId) :
    Held (overlay state diff accountId) (overlay state diff' accountId) :=
  .of_kept (run_kept (fun houtside => houtside.ne hruns) outside_nextCalls howns hrun hwork howned)

/-! ### Calls of messages -/

omit [Serde Instruction] in
/-- The configuration before and after a call that writes it. -/
theorem opened_of_step (hstep : Step exec state blockId timestamp diff call output diff')
    {config : AccountWithMetadata} {cfg cfg' : SequencerStakeConfig} {data : Data}
    (hcfg : decodeConfig config programId = some cfg)
    (hdata : Data.tryFrom cfg'.toBytes = some data)
    (hmem : (config, .new { config.account with data }) ∈ output.preStates.zip output.postStates) :
    Opened programId (overlay state diff) cfg ∧ Opened programId (overlay state diff') cfg' := by
  obtain ⟨hid, howner, hdecodes⟩ := decodeConfig_eq_some.mp hcfg
  have hbefore := hstep.consistent config (of_mem_zip hmem).1
  have hafter := hstep.overlay_new hmem
  rw [hid] at hbefore hafter
  constructor
  · exact ⟨by rw [← hbefore, howner], by rw [← hbefore, hdecodes]⟩
  · exact ⟨by rw [hafter]; exact howner,
      by rw [hafter]; exact SequencerStakeConfig.fromBytes_toBytes hdata⟩

section

variable (hstep : Step exec state blockId timestamp diff call output diff')
  (hpre : output.preStates = call.1.preStates)

include hstep hpre

omit [Serde Instruction] in
/-- A release moves the balance from the ownership account and out of the books. -/
theorem finalizeUnstake_moves
    (hcall : finalizeUnstake programId call.1.preStates = some output.postStates) :
    ∃ ownershipId, call.1.preStates.head?.map (·.accountId) = some ownershipId ∧
      Moves programId (overlay state diff) (overlay state diff') (.release ownershipId) := by
  obtain ⟨ownership, destination, config, sequencerKey, pending, ownershipBalance, data,
    destinationBalance, cfg, entry, totalStaked, totalPending, configData, hlist, howner, hrecord,
    -, howned, hdata, hpaid, hcfg, hentry, hid, hstaked, htotal, hconfigData, hposts⟩ :=
    finalizeUnstake_eq_some.mp hcall
  rw [hlist] at hpre ⊢
  have hconfigId := (decodeConfig_eq_some.mp hcfg).1
  have hnodup := hstep.validExecution.nodup
  rw [hpre] at hnodup
  simp only [map_cons, map_nil, nodup_cons, mem_cons, not_mem_nil,
    or_false, not_or, hconfigId] at hnodup
  obtain ⟨⟨-, hapart⟩, -, -⟩ := hnodup
  obtain ⟨hopened, hreopened⟩ :=
    opened_of_step hstep hcfg hconfigData (by rw [hpre, hposts]; simp)
  -- what the call found
  have hownership := hstep.consistent ownership (by rw [hpre]; simp)
  have hdestination := hstep.consistent destination (by rw [hpre]; simp)
  -- what it leaves
  have hownership' : overlay state diff' ownership.accountId
      = { ownership.account with balance := ownershipBalance, data } :=
    hstep.overlay_new (by rw [hpre, hposts]; simp)
  have hdestination' : overlay state diff' destination.accountId
      = { destination.account with balance := destinationBalance } :=
    hstep.overlay_new (by rw [hpre, hposts]; simp)
  refine ⟨ownership.accountId, rfl, .finalized hapart hopened ?_ hentry hid
    (checkedSub_eq_some.mp hstaked) (checkedSub_eq_some.mp htotal) ?_ ?_ hreopened ?_⟩
  · exact ⟨by rw [← hownership, howner], by rw [← hownership, hrecord]⟩
  · exact ⟨by rw [hownership']; exact howner,
      by rw [hownership']; exact StakeRecord.fromBytes_of_tryFrom hdata⟩
  · rw [hownership', ← hownership]
    exact checkedSub_eq_some.mp howned
  · -- another account of the program may be the destination
    intro accountId hne hneConfig _
    by_cases hdest : accountId = destination.accountId
    · rw [hdest, ← hdestination, hdestination']
      have hsum := checkedAdd_eq_some.mp hpaid
      refine ⟨rfl, rfl, ?_⟩
      show destination.account.balance.val ≤ destinationBalance.val
      omega
    · rw [hstep.overlay_of_notMem]
      · exact .refl _
      · rw [hpre]
        simp [hne, hdest, hconfigId, hneConfig]

omit [Serde Instruction] in
/-- A request for a release writes the tag and the books. -/
theorem unstakeRequest_moves {amount : U128} {destination : AccountId}
    (hcall : unstakeRequest programId call.1.preStates amount destination
      = some output.postStates) :
    ∃ ownershipId, call.1.preStates.head?.map (·.accountId) = some ownershipId ∧
      Moves programId (overlay state diff) (overlay state diff')
        (.request ownershipId ⟨amount, destination⟩) := by
  obtain ⟨ownership, config, sequencerKey, cfg, entry, totalPending, data, configData, hlist,
    howner, hrecord, hcfg, hentry, hid, hallows, htotal, hdata, hconfigData, hposts⟩ :=
    unstakeRequest_ok hcall
  rw [hlist] at hpre ⊢
  have hconfigId := (decodeConfig_eq_some.mp hcfg).1
  have hnodup := hstep.validExecution.nodup
  rw [hpre] at hnodup
  simp only [map_cons, map_nil, nodup_cons, mem_cons, not_mem_nil, or_false, hconfigId] at hnodup
  obtain ⟨hapart, -⟩ := hnodup
  obtain ⟨hopened, hreopened⟩ :=
    opened_of_step hstep hcfg hconfigData (by rw [hpre, hposts]; simp)
  have hownership := hstep.consistent ownership (by rw [hpre]; simp)
  have hownership' : overlay state diff' ownership.accountId = { ownership.account with data } :=
    hstep.overlay_new (by rw [hpre, hposts]; simp)
  have htagged : Tagged programId (overlay state diff' ownership.accountId)
      ⟨sequencerKey, some ⟨amount, destination⟩⟩ := by
    rw [hownership']
    exact ⟨howner, StakeRecord.fromBytes_of_tryFrom hdata⟩
  refine ⟨ownership.accountId, rfl, .requested hapart hopened ?_ hentry hid hallows
    (checkedAdd_eq_some.mp htotal) htagged ?_ hreopened ?_⟩
  · exact ⟨by rw [← hownership, howner], by rw [← hownership, hrecord]⟩
  · rw [hownership', ← hownership]
  · intro accountId hne hneConfig _
    rw [hstep.overlay_of_notMem]
    · exact .refl _
    · rw [hpre]
      simp [hne, hconfigId, hneConfig]

end

section

variable (hruns : Executes exec programId main)

include hruns

/-- The confirmation changes nothing, and finds the balance that it expects. -/
theorem confirmStake_keeps (hstep : Step exec state blockId timestamp diff call output diff')
    (hprogram : call.1.programId = programId) (hwords : fromWords call.1.instructionData
      = some (Instruction.confirmStake expectedBalanceAfter))
    (hlist : call.1.preStates = [ownership]) :
    overlay state diff' = overlay state diff ∧
      (overlay state diff ownership.accountId).balance = expectedBalanceAfter ∧
      output.chainedCalls = [] := by
  obtain ⟨hpre, hcases⟩ := main_cases (hruns.of_execute hprogram hstep.executed)
  rw [hwords] at hcases
  rcases hcases with ⟨_, _, _, _, -, hother, -⟩ | ⟨_, -, hsame, hconfirm, hcalls⟩ |
    ⟨_, _, -, hother, -⟩ | ⟨-, hother, -⟩
  · cases hother
  · obtain rfl := Instruction.confirmStake.inj (some.inj hsame)
    obtain ⟨ownership', hlist', hbalance, hposts⟩ := confirmStake_ok hconfirm
    obtain rfl : ownership = ownership' := List.singleton_inj.mp (hlist.symm.trans hlist')
    rw [hlist] at hpre
    have hownership : ownership.account = overlay state diff ownership.accountId :=
      hstep.consistent ownership (by rw [hpre]; simp)
    have hownership' : overlay state diff' ownership.accountId = ownership.account :=
      hstep.overlay_new (by rw [hpre, hposts]; simp)
    refine ⟨funext fun accountId => ?_, hownership ▸ hbalance, hcalls⟩
    by_cases hid : accountId = ownership.accountId
    · rw [hid, hownership', hownership]
    · exact hstep.overlay_of_notMem (by rw [hpre]; simp [hid])
  · cases hother
  · cases hother

/-- The deposit of a stake: whatever the program of the staker does in between, the accounts
of the program are held, and in the end the expected balance is there. -/
theorem deposit_held (howns : ofProgramId programId ≠ defaultProgramOwner)
    {moverCall confirmCall : Call} (hmover : Outside programId moverCall)
    (hprogram : confirmCall.1.programId = programId)
    (hwords : fromWords confirmCall.1.instructionData
      = some (Instruction.confirmStake expectedBalanceAfter))
    (hlist : confirmCall.1.preStates = [ownership]) {n : ℕ}
    (hrun : (machine exec state blockId timestamp).run n [moverCall, confirmCall] diff
      = .ok diff') :
    (∀ accountId,
      (overlay state diff accountId).programOwner = .ofProgramId programId →
      Held (overlay state diff accountId) (overlay state diff' accountId)) ∧
      (overlay state diff' ownership.accountId).balance = expectedBalanceAfter := by
  have hsplit : (machine exec state blockId timestamp).run n ([moverCall] ++ [confirmCall]) diff
      = .ok diff' := hrun
  obtain ⟨m, mid, hrunMover, hrunConfirm⟩ := Machine.run_append_eq_ok hsplit
  obtain ⟨output, after, hstep, hlast⟩ := run_singleton hrunConfirm
  obtain ⟨hkeeps, hbalance, hcalls⟩ := confirmStake_keeps hruns hstep hprogram hwords hlist
  rw [← hlast hcalls, hkeeps]
  refine ⟨fun accountId howned => run_outside hruns howns hrunMover ?_ accountId howned, hbalance⟩
  intro call hcall
  rw [mem_singleton.mp hcall]
  exact hmover

/-- A stake claims and tags the account, books the stake, and brings in the balance. -/
theorem stake_moves (howns : ofProgramId programId ≠ defaultProgramOwner)
    (hserde : ∀ balance, fromWords (toWords (Instruction.confirmStake balance))
      = some (Instruction.confirmStake balance)) {mid : Diff}
    (hstep : Step exec state blockId timestamp diff call output mid)
    (hprogram : call.1.programId = programId) (hpre : output.preStates = call.1.preStates)
    {sequencerKey : SequencerKey} {amount : U128} {moverProgramId : ProgramId}
    {moverInstructionData : InstructionData}
    (hcall : stake programId call.1.preStates sequencerKey amount moverProgramId
      moverInstructionData = some (output.postStates, output.chainedCalls)) {n : ℕ}
    (hrun : (machine exec state blockId timestamp).run n (nextCalls call output) mid = .ok diff') :
    Moves programId (overlay state diff) (overlay state diff') .other := by
  obtain ⟨funding, ownership, config, cfg, expectedBalance, entry, data, configData, hlist, hcfg,
    hexpected, hchecked, hentry, hdata, hconfigData, hposts, claimed, expected, hid, hcalls⟩ :=
    stake_ok hcall
  rw [hlist] at hpre
  have hconfigId := (decodeConfig_eq_some.mp hcfg).1
  have hnodup := hstep.validExecution.nodup
  rw [hpre] at hnodup
  simp only [map_cons, map_nil, nodup_cons, mem_cons, not_mem_nil,
    or_false, not_or, hconfigId] at hnodup
  obtain ⟨-, hapart, -⟩ := hnodup
  obtain ⟨hopened, hreopened⟩ :=
    opened_of_step hstep hcfg hconfigData (by rw [hpre, hposts]; simp)
  have hfunding := hstep.consistent funding (by rw [hpre]; simp)
  have hownership := hstep.consistent ownership (by rw [hpre]; simp)
  -- what the call leaves to the deposit
  have hfunding' : overlay state mid funding.accountId = funding.account :=
    hstep.overlay_new (by rw [hpre, hposts]; simp)
  have hclaimed : (overlay state mid ownership.accountId).programOwner
        = .ofProgramId programId ∧
      (overlay state mid ownership.accountId).data = data := by
    have hclaim : claimAccount call.1.programId ownership
        (.newClaimedIfDefault { ownership.account with data } .authorized)
          = .ok (overlay state mid ownership.accountId) :=
      hstep.claimAccount_overlay (by rw [hpre, hposts]; simp)
    rcases claimAccount_ok hclaim with ⟨hnone, hafter⟩ | ⟨claim, hsome, -, -, hafter⟩
    · have hne : ownership.account.programOwner ≠ defaultProgramOwner := by
        intro hdefault
        simp [AccountPostState.newClaimedIfDefault, hdefault] at hnone
      rw [hafter]
      exact ⟨(checkOwnership_ok hchecked hne).1, rfl⟩
    · rw [hafter, hprogram]
      exact ⟨rfl, rfl⟩
  -- the deposit
  have hwork : nextCalls call output =
      [({ programId := moverProgramId, preStates := [funding, claimed],
          instructionData := moverInstructionData, pdaSeeds := [] },
        ⟨some call.1.programId, authorizedBelow call.2 output⟩),
       ({ programId := programId, preStates := [expected],
          instructionData := toWords (Instruction.confirmStake expectedBalance),
          pdaSeeds := [] },
        ⟨some call.1.programId, authorizedBelow call.2 output⟩)] := by
    rw [nextCalls, hcalls]
    rfl
  rw [hwork] at hrun
  obtain ⟨hheld, hbalance⟩ := deposit_held hruns howns
    (fun _ => ⟨call.1.programId, rfl, fun _ => by simp⟩) rfl (hserde expectedBalance) rfl hrun
  rw [hid] at hbalance
  have hheldOwnership := hheld ownership.accountId hclaimed.1
  refine .staked hapart hopened ?_ (by rw [← hownership]; exact hentry) ?_ ?_
    (hreopened.of_held (hheld _ hreopened.programOwner)) ?_
  · intro hne
    rw [← hownership] at hne ⊢
    obtain ⟨howner, hrecord⟩ := checkOwnership_ok hchecked hne
    exact ⟨howner, hrecord⟩
  · refine Tagged.of_held ⟨hclaimed.1, ?_⟩ hheldOwnership
    rw [hclaimed.2]
    exact StakeRecord.fromBytes_of_tryFrom hdata
  · rw [hbalance, ← hownership]
    exact checkedAdd_eq_some.mp hexpected
  · intro accountId hne hneConfig howned
    have hsame : overlay state mid accountId = overlay state diff accountId := by
      by_cases hfund : accountId = funding.accountId
      · rw [hfund, ← hfunding, hfunding']
      · exact hstep.overlay_of_notMem (by rw [hpre]; simp [hfund, hne, hconfigId, hneConfig])
    have hheldOther := hheld accountId (by rw [hsame, howned])
    rwa [hsame] at hheldOther

end

/-! ### Transactions -/

section

variable [StakeBuiltin]

/-- The stake program runs as it is written, can own accounts, and reads its own
confirmation. -/
structure Setting (exec : Executor) : Prop where
  runs : Executes exec sequencerStake main
  owns : ofProgramId sequencerStake ≠ defaultProgramOwner
  confirms : ∀ balance, fromWords (toWords (Instruction.confirmStake balance))
    = some (Instruction.confirmStake balance)

/-- What a transaction asks the program for. -/
def movementOf : LeeTransaction → Movement
  | .publicTx tx =>
    if tx.message.programId = sequencerStake then
      match fromWords tx.message.instructionData, tx.message.accountIds.head? with
      | some (Instruction.unstakeRequest amount destination), some ownershipId =>
        .request ownershipId ⟨amount, destination⟩
      | some Instruction.finalizeUnstake, some ownershipId => .release ownershipId
      | _, _ => .other
    else .other
  | _ => .other

omit [Sha256] in
/-- The sequencer sees the releases that are asked for by public transactions. -/
theorem finalizeUnstakeOwnershipAccount_of_release {tx : LeeTransaction} {ownershipId : AccountId}
    (h : movementOf tx = .release ownershipId) :
    CommitteeDiscovery.finalizeUnstakeOwnershipAccount tx = some ownershipId := by
  unfold movementOf at h
  split at h
  · split at h
    · rename_i hprogram
      split at h
      · cases h
      · rename_i hinstruction hhead
        obtain rfl := Movement.release.inj h
        simp [CommitteeDiscovery.finalizeUnstakeOwnershipAccount, hprogram, hinstruction, hhead]
      · cases h
    · cases h
  · cases h

variable [Schnorr]

/-- **A public transaction is one of the movements.** -/
theorem accepted_moves (hset : Setting exec) {tx : PublicTransaction} {diff : StateDiff}
    (h : Accepted exec tx state blockId timestamp diff) :
    Moves sequencerStake state.getAccountById (overlay state diff.publicDiff)
      (movementOf (.publicTx tx)) := by
  have hempty : overlay state ∅ = state.getAccountById := funext (overlay_empty state)
  rw [← hempty]
  by_cases hprogram : tx.message.programId = sequencerStake
  · obtain ⟨output, mid, hstep, hrest⟩ := h.first
    have hdone : output.chainedCalls = [] → mid = diff.publicDiff := by
      intro hcalls
      rw [nextCalls, hcalls, map_nil, Machine.run_nil] at hrest
      exact ok.inj hrest
    have hhead : (firstCall state tx).1.preStates.head?.map (·.accountId)
        = tx.message.accountIds.head? := by
      simp [initialCall, Function.comp_def]
    obtain ⟨hpre, hcases⟩ := main_cases (hset.runs.of_execute hprogram hstep.executed)
    have hwords : (firstCall state tx).1.instructionData = tx.message.instructionData := rfl
    rw [hwords] at hcases
    rcases hcases with ⟨_, _, _, _, -, hinstruction, hcall⟩ | ⟨_, hcaller, -⟩ |
      ⟨_, _, -, hinstruction, hcall, hcalls⟩ | ⟨-, hinstruction, hcall, hcalls⟩
    · have hlabel : movementOf (.publicTx tx) = .other := by
        simp [movementOf, hprogram, hinstruction]
      rw [hlabel]
      exact stake_moves hset.runs hset.owns hset.confirms hstep hprogram hpre hcall hrest
    · exact absurd hcaller (by simp [initialCall])
    · obtain ⟨ownershipId, hfirst, hmoves⟩ := unstakeRequest_moves hstep hpre hcall
      rw [hhead] at hfirst
      rw [← hdone hcalls]
      simpa [movementOf, hprogram, hinstruction, hfirst] using hmoves
    · obtain ⟨ownershipId, hfirst, hmoves⟩ := finalizeUnstake_moves hstep hpre hcall
      rw [hhead] at hfirst
      rw [← hdone hcalls]
      simpa [movementOf, hprogram, hinstruction, hfirst] using hmoves
  · -- the program is not the one that is called: it is not called at all
    have hlabel : movementOf (.publicTx tx) = .other := by
      simp [movementOf, hprogram]
    rw [hlabel]
    refine .outside fun accountId howned =>
      run_outside hset.runs hset.owns h.run (fun call hcall => ?_) accountId howned
    rw [mem_singleton.mp hcall]
    exact fun hself => absurd hself hprogram

/-- A transaction that runs no program in private was accepted.  A deployment that puts a
program over an account of the stake program is left out: the ids would collide. -/
structure Openly [Builtins] [Receipts] [ImageId] (exec : Executor) (tx : LeeTransaction)
    (state state' : V03State) : Prop where
  accepted : tx.Transition exec state state'
  openly : ∀ ptx, tx ≠ .privacyPreserving ptx
  apart : ∀ accountId, tx.Stores accountId → (state.getAccountById accountId).programOwner
    ≠ ofProgramId sequencerStake

/-- **An accepted transaction is one of the movements.** -/
theorem Openly.moves [Builtins] [Receipts] [ImageId] (hset : Setting exec) {tx : LeeTransaction}
    {state' : V03State} (h : Openly exec tx state state') :
    Moves sequencerStake state.getAccountById state'.getAccountById (movementOf tx) := by
  obtain ⟨blockId, timestamp, diff, hdiff, happly⟩ := h.accepted.diff
  cases tx with
  | publicTx tx =>
    have haccepted := fromPublicTransaction_ok hdiff
    exact (accepted_moves hset haccepted).of_sameFunds (haccepted.funds happly)
  | privacyPreserving tx => exact absurd rfl (h.openly tx)
  | programDeployment tx =>
    refine .outside fun accountId howned => ?_
    rw [h.accepted.unstored fun hstores => h.apart accountId hstores howned]
    exact .refl _

end

end SequencerStake

end Lssa
