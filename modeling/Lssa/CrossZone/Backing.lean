/-
Emissions of the bridge are backed by its escrow.

The record of an emission lies in an account that the outbox owns, and names the program that
called the outbox as its emitter.  So a record of `bridge_lock` is written by a call of
`bridge_lock`, which nobody calls: the transaction starts with it, and consists of the lock and
the emission.  The lock has moved into the escrow what the message mints.  Nobody but
`bridge_lock` could take it out again, and `bridge_lock` does not.

* `records_of_foreign`, `records_of_outbox` — what a call does to the records;
* `transition_cases` — a transaction does nothing to the records, or locks (`Locks`);
* **`emissions_backed`** — what is emitted in a run went into the escrow.
-/
import Lssa.History
import Lssa.InboundDelivery
import Lssa.Programs.BridgeLock

open DepthFirst Runs

namespace Lssa

namespace BridgeLock

open PublicExecution LeeTransaction
open CrossZoneOutbox (OutboxRecord Emitted outboxPda)

/-! ### Records -/

/-- The record of an emission of `bridge_lock` in an account of the outbox. -/
def recordIn (bridgeLock outbox : ProgramId) (account : Account) : Option OutboxRecord :=
  if account.programOwner = ofProgramId outbox then
    (OutboxRecord.fromBytes account.data.bytes).filter fun record => record.emitter = bridgeLock
  else none

section

variable {bridgeLock outbox : ProgramId} {a b : Account}

theorem recordIn_eq_none (h : a.programOwner ≠ .ofProgramId outbox) :
    recordIn bridgeLock outbox a = none := if_neg h

theorem recordIn_default (houtbox : ofProgramId outbox ≠ defaultProgramOwner) :
    recordIn bridgeLock outbox Account.default = none := recordIn_eq_none houtbox.symm

theorem recordIn_congr (howner : a.programOwner = b.programOwner) (hdata : a.data = b.data) :
    recordIn bridgeLock outbox a = recordIn bridgeLock outbox b := by
  rw [recordIn, recordIn, howner, hdata]

end

section

variable [Serde WrappedToken.Instruction]

/-- What a record mints. -/
def mintOf (record : OutboxRecord) : ℕ :=
  match decodeMint record.payload.val with
  | some (.mint _ amount) => amount.val
  | _ => 0

/-- What the emission in an account mints. -/
def emittedIn (bridgeLock outbox : ProgramId) (account : Account) : ℕ :=
  (recordIn bridgeLock outbox account).elim 0 mintOf

/-- What all emissions of `bridge_lock` mint. -/
def emittedTotal (bridgeLock outbox : ProgramId) (state : V03State) : ℕ :=
  Ledger.total (emittedIn bridgeLock outbox) state.publicState

variable {bridgeLock outbox : ProgramId} {amount : U128}

variable {record : OutboxRecord} {recipient : Bytes 32}

theorem mintOf_eq (h : decodeMint record.payload.val = some (.mint recipient amount)) :
    mintOf record = amount.val := by
  rw [mintOf, h]

theorem emittedIn_default (houtbox : ofProgramId outbox ≠ defaultProgramOwner) :
    emittedIn bridgeLock outbox Account.default = 0 := by
  rw [emittedIn, recordIn_default houtbox, elim_none]

theorem emittedTotal_eq_finsum (houtbox : ofProgramId outbox ≠ defaultProgramOwner)
    (state : V03State) : emittedTotal bridgeLock outbox state =
      ∑ᶠ accountId, emittedIn bridgeLock outbox (state.getAccountById accountId) :=
  Ledger.total_eq_finsum (emittedIn_default houtbox) state.publicState

variable [Sha256] {state state' : V03State} {accountId : AccountId}

/-- The balance of the escrow. -/
def escrowBalance (bridgeLock : ProgramId) (state : V03State) : ℕ :=
  (state.getAccountById (escrowAccountId bridgeLock)).balance.val

/-- A transaction that leaves the records alone. -/
structure Quiet (bridgeLock outbox : ProgramId) (state state' : V03State) : Prop where
  records : ∀ accountId, recordIn bridgeLock outbox (state'.getAccountById accountId) =
    recordIn bridgeLock outbox (state.getAccountById accountId)
  escrow : escrowBalance bridgeLock state ≤ escrowBalance bridgeLock state'

/-- A transaction that locks: a record is written into a slot that was a default account, and
what it mints went into the escrow. -/
structure Locks (bridgeLock outbox : ProgramId) (state state' : V03State) (accountId : AccountId)
    (record : OutboxRecord) (recipient : Bytes 32) (amount : U128) : Prop where
  slot : accountId = outboxPda outbox bridgeLock record.targetZone record.ordinal
  fresh : state.getAccountById accountId = .default
  written : recordIn bridgeLock outbox (state'.getAccountById accountId) = some record
  others : ∀ other, other ≠ accountId →
    recordIn bridgeLock outbox (state'.getAccountById other) =
      recordIn bridgeLock outbox (state.getAccountById other)
  minted : decodeMint record.payload.val = some (.mint recipient amount)
  escrow : escrowBalance bridgeLock state' = escrowBalance bridgeLock state + amount.val

section

variable (houtbox : ofProgramId outbox ≠ defaultProgramOwner)
include houtbox

/-- What a lock adds to the emissions, it adds to the escrow. -/
theorem Locks.emittedTotal_eq
    (h : Locks bridgeLock outbox state state' accountId record recipient amount) :
    emittedTotal bridgeLock outbox state' = emittedTotal bridgeLock outbox state + amount.val := by
  have hbefore : emittedIn bridgeLock outbox (state.getAccountById accountId) = 0 := by
    rw [h.fresh]
    exact emittedIn_default houtbox
  have hafter : emittedIn bridgeLock outbox (state'.getAccountById accountId) = amount.val := by
    rw [emittedIn, h.written, elim_some]
    exact mintOf_eq h.minted
  have hothers : ∀ other, other ≠ accountId →
      emittedIn bridgeLock outbox (state'.getAccountById other) =
        emittedIn bridgeLock outbox (state.getAccountById other) := by
    intro other hother
    rw [emittedIn, emittedIn, h.others other hother]
  rw [emittedTotal_eq_finsum houtbox, emittedTotal_eq_finsum houtbox,
    Ledger.finsum_eq_add_of_eq_off
      (Ledger.finite_support_get (emittedIn_default houtbox) state.publicState) hbefore hothers,
    hafter]
  rfl

theorem Quiet.emittedTotal_eq (h : Quiet bridgeLock outbox state state') :
    emittedTotal bridgeLock outbox state' = emittedTotal bridgeLock outbox state := by
  rw [emittedTotal_eq_finsum houtbox, emittedTotal_eq_finsum houtbox]
  refine finsum_congr fun accountId => ?_
  rw [emittedIn, emittedIn, h.records accountId]

/-- A lock overwrites no record. -/
theorem Locks.keeps {slot : AccountId} {new : OutboxRecord}
    (h : Locks bridgeLock outbox state state' slot new recipient amount)
    (hrecord : recordIn bridgeLock outbox (state.getAccountById accountId) = some record) :
    recordIn bridgeLock outbox (state'.getAccountById accountId) = some record := by
  have hne : accountId ≠ slot := by
    rintro rfl
    rw [h.fresh, recordIn_default houtbox] at hrecord
    cases hrecord
  rw [h.others accountId hne, hrecord]

end

end

/-! ### The setting -/

section

variable [Sha256] {exec : Executor} {bridgeLock outbox : ProgramId} {tx : PublicTransaction}
  {state state' : V03State} {blockId : BlockId} {timestamp : Timestamp} {diff diff' : Diff}
  {call : Call} {output : ProgramOutput} {accountId : AccountId}

/-- The escrow belongs to `bridge_lock` or to nobody. -/
def EscrowOwner (bridgeLock : ProgramId) (state : V03State) : Prop :=
  (state.getAccountById (escrowAccountId bridgeLock)).programOwner
      = ofProgramId bridgeLock ∨
    (state.getAccountById (escrowAccountId bridgeLock)).programOwner = defaultProgramOwner

/-- The configuration names the outbox, and the escrow belongs to `bridge_lock` or to nobody. -/
structure Ready (bridgeLock outbox : ProgramId) (state : V03State) : Prop where
  configOwner : (state.getAccountById (configAccountId bridgeLock)).programOwner
    = ofProgramId bridgeLock
  config : ∃ target, readConfig
    (state.getAccountById (configAccountId bridgeLock)).data.bytes = some (outbox, target)
  escrowOwner : EscrowOwner bridgeLock state

/-- The state is ready again if the configuration is as it was. -/
theorem Ready.of_same (h : Ready bridgeLock outbox state)
    (howner : (state'.getAccountById (configAccountId bridgeLock)).programOwner =
      (state.getAccountById (configAccountId bridgeLock)).programOwner)
    (hdata : (state'.getAccountById (configAccountId bridgeLock)).data =
      (state.getAccountById (configAccountId bridgeLock)).data)
    (hescrow : EscrowOwner bridgeLock state') : Ready bridgeLock outbox state' := by
  refine ⟨howner.trans h.configOwner, ?_, hescrow⟩
  rw [hdata]
  exact h.config

/-- An account that a call leaves as a default account was one before. -/
theorem eq_default_of_step (hstep : Step exec state blockId timestamp ∅ call output diff')
    (howns : ofProgramId call.1.programId ≠ defaultProgramOwner)
    (h : overlay state diff' accountId = .default) :
    state.getAccountById accountId = .default := by
  rcases hstep.effect accountId with heq | ⟨pre, post, -, -, hpre, heffect⟩
  · rw [heq, overlay_empty] at h
    exact h
  · rw [overlay_empty] at hpre
    rw [h] at heffect
    rcases heffect.programOwner with hsame | ⟨-, hclaimed, -⟩
    · rw [← hpre]
      exact heffect.valid.unowned hsame.symm
    · exact absurd hclaimed.symm howns

variable [Serde WrappedToken.Instruction] [Serde CrossZoneOutbox.Instruction] [Serde Instruction]

/-- The two programs run as written under different ids, which own accounts; the accounts of
`bridge_lock` are derived in one way; and words that encode an emission decode to it or not at
all. -/
structure Programs (exec : Executor) (bridgeLock outbox : ProgramId) : Prop where
  lockRuns : Executes exec bridgeLock main
  outboxRuns : Executes exec outbox CrossZoneOutbox.main
  distinct : bridgeLock ≠ outbox
  lockOwns : ofProgramId bridgeLock ≠ defaultProgramOwner
  outboxOwns : ofProgramId outbox ≠ defaultProgramOwner
  escrowSafe : Sha256.Unambiguous (escrowAccountId bridgeLock).value
  configSafe : Sha256.Unambiguous (configAccountId bridgeLock).value
  emits : ∀ sent received : CrossZoneOutbox.Instruction,
    fromWords (toWords sent) = some received → received = sent

theorem Programs.uncalled (h : Programs exec bridgeLock outbox) : Uncalled exec bridgeLock :=
  fun _ _ _ hprogram hexecuted => caller_of_main (h.lockRuns.of_execute hprogram hexecuted)

/-! ### What calls do to the records -/

section

variable (h : Programs exec bridgeLock outbox)
  (hstep : Step exec state blockId timestamp diff call output diff')

include h hstep

/-- Other programs leave records alone, and make none. -/
theorem records_of_foreign (hforeign : call.1.programId ≠ outbox) (accountId : AccountId) :
    recordIn bridgeLock outbox (overlay state diff' accountId) =
      recordIn bridgeLock outbox (overlay state diff accountId) := by
  rcases hstep.foreign h.outboxOwns hforeign accountId with ⟨-, hkept⟩ | ⟨hbefore, hafter⟩
  · exact recordIn_congr hkept.programOwner hkept.data
  · rw [recordIn_eq_none hbefore, recordIn_eq_none hafter]

/-- What an emission leaves: the slot was a default account and has the record then, and no
other account changes. -/
structure Slot (bridgeLock outbox : ProgramId) (state : V03State) (diff diff' : Diff)
    (emitter : ProgramId) (accountId : AccountId) (record : OutboxRecord) : Prop where
  slot : accountId = outboxPda outbox emitter record.targetZone record.ordinal
  emitter_eq : record.emitter = emitter
  fresh : overlay state diff accountId = .default
  written : recordIn bridgeLock outbox (overlay state diff' accountId) =
    if emitter = bridgeLock then some record else none
  others : ∀ other, other ≠ accountId → overlay state diff' other = overlay state diff other

/-- **A call of the outbox** writes the record of its caller into a slot, as its instruction
says. -/
theorem slot_of_outbox (hprogram : call.1.programId = outbox) :
    ∃ emitter accountId record, call.2.programId = some emitter ∧
      fromWords call.1.instructionData = some (CrossZoneOutbox.Instruction.emit
        record.targetZone record.targetProgramId record.targetAccounts.val record.payload.val
        record.ordinal) ∧
      output.chainedCalls = [] ∧
      Slot bridgeLock outbox state diff diff' emitter accountId record := by
  obtain ⟨emitter, slot, record, data, hcaller, hinstruction, hemitted⟩ :=
    CrossZoneOutbox.main_ok (h.outboxRuns.of_execute hprogram hstep.executed)
  have hmem : slot ∈ output.preStates := by
    rw [hemitted.preStates]
    exact List.mem_singleton_self slot
  have hpair : (slot, .newClaimed { slot.account with data }
      (.pda (CrossZoneOutbox.outboxPdaSeed emitter record.targetZone record.ordinal)))
        ∈ output.preStates.zip output.postStates := by
    rw [hemitted.preStates, hemitted.postStates]
    exact List.mem_singleton_self _
  have hafter := hstep.overlay_newClaimed hpair
  rw [hprogram] at hafter
  refine ⟨emitter, slot.accountId, record, hcaller, hinstruction, hemitted.chainedCalls,
    hemitted.outboxId, hemitted.emitter_eq, ?_, ?_, fun other hother => ?_⟩
  · rw [← hstep.consistent slot hmem]
    exact hemitted.fresh
  · rw [hafter, recordIn, if_pos rfl]
    have hbytes : data.bytes = record.toBytes := Data.tryFrom_eq_some.mp hemitted.stored
    rw [hbytes, OutboxRecord.fromBytes_toBytes, Option.filter_some, hemitted.emitter_eq]
    by_cases hbridge : emitter = bridgeLock <;> simp [hbridge]
  · refine hstep.overlay_of_notMem ?_
    rw [hemitted.preStates]
    simpa using hother

/-- What calls of the outbox for others do to the records: nothing. -/
theorem records_of_outbox (hprogram : call.1.programId = outbox)
    (hcaller : call.2.programId ≠ some bridgeLock) (accountId : AccountId) :
    recordIn bridgeLock outbox (overlay state diff' accountId) =
      recordIn bridgeLock outbox (overlay state diff accountId) := by
  obtain ⟨emitter, slot, record, hemitter, -, -, hslot⟩ := slot_of_outbox h hstep hprogram
  by_cases hid : accountId = slot
  · have hother : emitter ≠ bridgeLock := by
      rintro rfl
      exact hcaller hemitter
    rw [hid, hslot.written, if_neg hother, hslot.fresh, recordIn_default h.outboxOwns]
  · rw [hslot.others accountId hid]

end

/-! ### The escrow -/

variable [Schnorr]

variable {diff : StateDiff} {amount : U128}

/-- The lock that a transaction asks for, with its payload. -/
def lockOf (bridgeLock : ProgramId) : LeeTransaction → Option (U128 × List UInt8)
  | .publicTx tx =>
    if tx.message.programId = bridgeLock then
      match fromWords tx.message.instructionData with
      | some (Instruction.lock amount _ _ _ payload _) => some (amount, payload)
      | _ => none
    else none
  | _ => none

/-- What a transaction locks. -/
def lockedBy (bridgeLock : ProgramId) (tx : LeeTransaction) : ℕ :=
  (lockOf bridgeLock tx).elim 0 fun lock => lock.1.val

section

variable {mid : Diff} {amount : U128} {targetZone : CrossZoneInbox.ZoneId}
  {targetProgramId : ProgramId} {targetAccounts : List (Bytes 32)} {payload : List UInt8}
  {ordinal : U32} {config holder escrow slot : AccountWithMetadata} {recipient : Bytes 32}
  {outboxProgramId : ProgramId} {holderNew escrowNew : U128}
  (hstep : Step exec state blockId timestamp ∅ call output mid)
  (hlocked : Locked bridgeLock output amount targetZone targetProgramId targetAccounts payload
    ordinal config holder escrow slot recipient outboxProgramId holderNew escrowNew)

include hstep hlocked

omit [Schnorr] [Serde Instruction] in
/-- What a first call that locks makes of the escrow. -/
theorem lock_escrow (howner : EscrowOwner bridgeLock state)
    (hprogram : call.1.programId = bridgeLock) :
    (overlay state mid (escrowAccountId bridgeLock)).programOwner =
        .ofProgramId bridgeLock ∧
      (overlay state mid (escrowAccountId bridgeLock)).balance.val =
        escrowBalance bridgeLock state + amount.val := by
  have hpair : (escrow, .newClaimedIfDefault
      { escrow.account with balance := escrowNew } (.pda escrowSeed))
        ∈ output.preStates.zip output.postStates := by
    rw [hlocked.preStates, hlocked.postStates]
    exact mem_cons_of_mem _ (mem_cons_of_mem _ mem_cons_self)
  have hfound := hstep.consistent escrow (of_mem_zip hpair).1
  have hafter := hstep.overlay_newClaimedIfDefault hpair
  rw [hlocked.escrowId, overlay_empty] at hfound
  rw [hlocked.escrowId, hprogram] at hafter
  rw [hafter]
  refine ⟨?_, ?_⟩
  · dsimp only
    split
    · rfl
    · rename_i hnot
      rw [hfound] at hnot ⊢
      exact howner.resolve_right hnot
  · show escrowNew.val = _
    rw [hlocked.received, hfound]
    rfl

omit hstep hlocked in
/-- **What a public transaction does to the escrow**, whatever the configuration: it goes up by
what the transaction locks, at least, and the message of a lock mints as much. -/
theorem escrow_of_accepted (hruns : Executes exec bridgeLock main)
    (howns : ofProgramId bridgeLock ≠ defaultProgramOwner)
    (hsafe : Sha256.Unambiguous (escrowAccountId bridgeLock).value)
    (howner : EscrowOwner bridgeLock state)
    (haccepted : Accepted exec tx state blockId timestamp diff)
    (happly : state.applyStateDiff diff = some state') :
    EscrowOwner bridgeLock state' ∧
      escrowBalance bridgeLock state + lockedBy bridgeLock (.publicTx tx)
        ≤ escrowBalance bridgeLock state' ∧
      ∀ lock ∈ lockOf bridgeLock (.publicTx tx),
        ∃ recipient, decodeMint lock.2 = some (.mint recipient lock.1) := by
  have huncalled : Uncalled exec bridgeLock := fun _ _ _ hprogram hexecuted =>
    caller_of_main (hruns.of_execute hprogram hexecuted)
  have hfinal : state'.getAccountById (escrowAccountId bridgeLock) =
      overlay state diff.publicDiff (escrowAccountId bridgeLock) :=
    haccepted.getAccountById_pda happly hsafe rfl
  by_cases hroot : tx.message.programId = bridgeLock
  swap
  · -- another program: `bridge_lock` does not run
    have hkept : Kept (state.getAccountById (escrowAccountId bridgeLock))
        (state'.getAccountById (escrowAccountId bridgeLock)) :=
      haccepted.kept happly hsafe rfl howns howner
        (fun v hv hprogram => absurd hprogram (huncalled.never_runs hroot hv))
        (fun v hv hprogram => absurd hprogram (huncalled.never_runs hroot hv))
    have hnone : lockOf bridgeLock (.publicTx tx) = none := if_neg hroot
    refine ⟨?_, ?_, by simp [hnone]⟩
    · rw [EscrowOwner, hkept.programOwner]
      exact howner
    · rw [lockedBy, hnone, elim_none, Nat.add_zero]
      exact hkept.balance
  obtain ⟨output, mid, hstep, hrest⟩ := haccepted.first
  rcases main_ok (hruns.of_execute hroot hstep.executed) with
    ⟨amount, targetZone, targetProgramId, targetAccounts, payload, ordinal, hinstruction, config,
      holder, escrow, slot, recipient, outboxProgramId, holderNew, escrowNew, hlocked⟩ |
    ⟨⟨outboxProgramId, targetProgramId, hinstruction⟩, config, data, hconfigured⟩
  · -- a lock: the calls that follow leave the escrow alone
    obtain ⟨howned, hbalance⟩ := lock_escrow hstep hlocked howner hroot
    have hkept := huncalled.run_kept howns hrest called_of_nextCalls howned
    have hlock : lockOf bridgeLock (.publicTx tx) = some (amount, payload) := by
      rw [lockOf, if_pos hroot]
      change fromWords tx.message.instructionData = _ at hinstruction
      rw [hinstruction]
    refine ⟨.inl ?_, ?_, ?_⟩
    · rw [hfinal]
      exact hkept.programOwner.trans howned
    · rw [lockedBy, hlock, elim_some, ← hbalance, escrowBalance, hfinal]
      exact hkept.balance
    · rintro lock hmem
      obtain rfl : (amount, payload) = lock := some.inj (hlock.symm.trans hmem)
      exact ⟨recipient, hlocked.minted⟩
  · -- a configuration: the escrow is not listed
    rw [nextCalls, hconfigured.chainedCalls, map_nil, Machine.run_nil] at hrest
    obtain rfl : mid = diff.publicDiff := ok.inj hrest
    have hsame : state'.getAccountById (escrowAccountId bridgeLock) =
        state.getAccountById (escrowAccountId bridgeLock) := by
      rw [hfinal, hstep.overlay_of_notMem, overlay_empty]
      rw [hconfigured.preStates, map_singleton, hconfigured.configId, mem_singleton]
      intro heq
      exact absurd (forPublicPda_inj hsafe heq.symm rfl).2 (by decide)
    have hnone : lockOf bridgeLock (.publicTx tx) = none := by
      rw [lockOf, if_pos hroot]
      change fromWords tx.message.instructionData = _ at hinstruction
      rw [hinstruction]
    refine ⟨?_, ?_, by simp [hnone]⟩
    · rw [EscrowOwner, hsame]
      exact howner
    · rw [lockedBy, hnone, elim_none, Nat.add_zero, escrowBalance, escrowBalance, hsame]

/-! ### Transactions -/

omit hstep hlocked in
/-- **A transaction that starts with another program** leaves the records, the configuration and
the escrow alone: `bridge_lock` does not run. -/
theorem quiet_of_foreign (h : Programs exec bridgeLock outbox)
    (hready : Ready bridgeLock outbox state)
    (haccepted : Accepted exec tx state blockId timestamp diff)
    (happly : state.applyStateDiff diff = some state') (hroot : tx.message.programId ≠ bridgeLock)
    (hescrow : EscrowOwner bridgeLock state')
    (hbalance : escrowBalance bridgeLock state ≤ escrowBalance bridgeLock state') :
    Ready bridgeLock outbox state' ∧ Quiet bridgeLock outbox state state' := by
  have hnever : ∀ v ∈ callTree exec tx state blockId timestamp, v.call.1.programId ≠ bridgeLock :=
    fun v hv => h.uncalled.never_runs hroot hv
  have hconfig := haccepted.kept happly h.configSafe rfl h.lockOwns (.inl hready.configOwner)
    (fun v hv hprogram => absurd hprogram (hnever v hv))
    (fun v hv hprogram => absurd hprogram (hnever v hv))
  refine ⟨hready.of_same hconfig.programOwner hconfig.data hescrow, fun accountId => ?_, hbalance⟩
  have hrecords := haccepted.threads.invariant
    (P := fun d => recordIn bridgeLock outbox (overlay state d accountId) =
      recordIn bridgeLock outbox (state.getAccountById accountId))
    (fun v hv hbefore => ?_) (by rw [overlay_empty])
  · have hfunds := haccepted.funds happly accountId
    exact (recordIn_congr hfunds.programOwner hfunds.data).trans hrecords
  · refine Eq.trans ?_ hbefore
    by_cases hprogram : v.call.1.programId = outbox
    · exact records_of_outbox h (callTree_step hv) hprogram (h.uncalled.never_calls hroot hv) _
    · exact records_of_foreign h (callTree_step hv) hprogram _

omit [Schnorr] [Serde Instruction] in
/-- What a first call that locks makes of the configuration: nothing, and it names the outbox. -/
theorem lock_config (hready : Ready bridgeLock outbox state) :
    outboxProgramId = outbox ∧
      overlay state mid (configAccountId bridgeLock) =
        state.getAccountById (configAccountId bridgeLock) := by
  have hpair : (config, .new config.account)
      ∈ output.preStates.zip output.postStates := by
    rw [hlocked.preStates, hlocked.postStates]
    exact mem_cons_self
  have hfound := hstep.consistent config (of_mem_zip hpair).1
  have hafter := hstep.overlay_new hpair
  rw [hlocked.configId, overlay_empty] at hfound
  rw [hlocked.configId] at hafter
  refine ⟨?_, hafter.trans hfound⟩
  obtain ⟨target, hread⟩ := hready.config
  have hdecodes := hlocked.decodes
  rw [hfound, hread] at hdecodes
  exact (Prod.mk.inj (some.inj hdecodes)).1.symm

/-- **A transaction that locks**: the lock and the emission, and nothing else. -/
theorem locks_of_locked (h : Programs exec bridgeLock outbox)
    (hready : Ready bridgeLock outbox state)
    (haccepted : Accepted exec tx state blockId timestamp diff)
    (happly : state.applyStateDiff diff = some state') (hprogram : call.1.programId = bridgeLock)
    (hrest : (machine exec state blockId timestamp).run maxNumberChainedCalls
      (nextCalls call output) mid = .ok diff.publicDiff)
    (hescrowAfter : EscrowOwner bridgeLock state') :
    Ready bridgeLock outbox state' ∧
      ∃ accountId record,
        Locks bridgeLock outbox state state' accountId record recipient amount := by
  obtain ⟨rfl, hconfig⟩ := lock_config hstep hlocked hready
  obtain ⟨hescrowOwner, hescrow⟩ := lock_escrow hstep hlocked hready.escrowOwner hprogram
  -- the only other call is the emission
  rw [nextCalls, hlocked.chainedCalls, map_singleton] at hrest
  obtain ⟨emission, last, hemit, hlast⟩ := run_singleton hrest
  obtain ⟨emitter, accountId, record, hemitter, hinstruction, hnone, hslot⟩ :=
    slot_of_outbox h hemit rfl
  obtain rfl : last = diff.publicDiff := hlast hnone
  obtain rfl : bridgeLock = emitter := hprogram.symm.trans (some.inj hemitter)
  obtain ⟨hzone, -, -, hpayload, hordinal⟩ :=
    CrossZoneOutbox.Instruction.emit.inj (h.emits _ _ hinstruction)
  have hfunds := applyStateDiff_funds happly haccepted.program
  -- the slot was unowned, so it is neither the configuration nor the escrow
  have hne : ∀ other, (overlay state mid other).programOwner = .ofProgramId bridgeLock →
      other ≠ accountId := by
    rintro other howned rfl
    rw [hslot.fresh] at howned
    exact h.lockOwns howned.symm
  have hconfigSlot : configAccountId bridgeLock ≠ accountId := by
    refine hne _ ?_
    rw [hconfig]
    exact hready.configOwner
  have hconfigAfter := (hslot.others _ hconfigSlot).trans hconfig
  have hconfigFunds := (hfunds (configAccountId bridgeLock)).1
  have hescrowFunds := (hfunds (escrowAccountId bridgeLock)).1
  rw [hconfigAfter] at hconfigFunds
  rw [hslot.others _ (hne _ hescrowOwner)] at hescrowFunds
  refine ⟨hready.of_same hconfigFunds.programOwner hconfigFunds.data hescrowAfter, accountId,
    record, hslot.slot,
    eq_default_of_step hstep (fun heq => h.lockOwns (hprogram ▸ heq)) hslot.fresh, ?_, ?_, ?_, ?_⟩
  · have hslotFunds := (hfunds accountId).1
    rw [recordIn_congr hslotFunds.programOwner hslotFunds.data, hslot.written, if_pos rfl]
  · intro other hother
    have hotherFunds := (hfunds other).1
    rw [recordIn_congr hotherFunds.programOwner hotherFunds.data, hslot.others other hother,
      records_of_foreign h hstep (fun heq => h.distinct (hprogram.symm.trans heq)), overlay_empty]
  · rw [hpayload]
    exact hlocked.minted
  · rw [escrowBalance, hescrowFunds.balance]
    exact hescrow

end

section

variable (h : Programs exec bridgeLock outbox)
include h

/-- A transaction that configures. -/
theorem quiet_of_configured (hready : Ready bridgeLock outbox state)
    (haccepted : Accepted exec tx state blockId timestamp diff)
    (happly : state.applyStateDiff diff = some state') {mid : Diff}
    (hstep : Step exec state blockId timestamp ∅ call output mid)
    (hrest : (machine exec state blockId timestamp).run maxNumberChainedCalls
      (nextCalls call output) mid = .ok diff.publicDiff) {config : AccountWithMetadata}
    {data : Data} (hconfigured : Configured bridgeLock output config data)
    (hescrow : EscrowOwner bridgeLock state')
    (hbalance : escrowBalance bridgeLock state ≤ escrowBalance bridgeLock state') :
    Ready bridgeLock outbox state' ∧ Quiet bridgeLock outbox state state' := by
  rw [nextCalls, hconfigured.chainedCalls, map_nil, Machine.run_nil] at hrest
  obtain rfl : mid = diff.publicDiff := ok.inj hrest
  have hkept : ∀ accountId, Kept (state.getAccountById accountId)
      (overlay state diff.publicDiff accountId) := by
    intro accountId
    rcases hstep.effect accountId with heq | ⟨pre, post, hpair, hid, hpre, heffect⟩
    · rw [heq, overlay_empty]
      exact .refl _
    · rw [hconfigured.preStates, hconfigured.postStates] at hpair
      obtain ⟨rfl, rfl⟩ := Prod.mk.inj (mem_singleton.mp hpair)
      rw [overlay_empty] at hpre
      have howned : pre.account ≠ .default := by
        intro hdefault
        have howner := hready.configOwner
        rw [← hconfigured.configId, hid, ← hpre, hdefault] at howner
        exact h.lockOwns howner.symm
      rw [← hpre]
      exact heffect.kept howned (hconfigured.kept howned) le_rfl
  have hfunds := applyStateDiff_funds happly haccepted.program
  have howner : ∀ accountId, (state'.getAccountById accountId).programOwner =
      (state.getAccountById accountId).programOwner := fun accountId =>
    (hfunds accountId).1.programOwner.trans (hkept accountId).programOwner
  have hdata : ∀ accountId, (state'.getAccountById accountId).data =
      (state.getAccountById accountId).data := fun accountId =>
    (hfunds accountId).1.data.trans (hkept accountId).data
  exact ⟨hready.of_same (howner _) (hdata _) hescrow,
    fun accountId => recordIn_congr (howner accountId) (hdata accountId), hbalance⟩

/-- **What a transaction does to the bridge**: nothing to its records, or it locks. -/
theorem transition_cases [Builtins] [Receipts] [ImageId] (hready : Ready bridgeLock outbox state)
    (htx : Transition exec (.publicTx tx) state state') :
    Ready bridgeLock outbox state' ∧
      (Quiet bridgeLock outbox state state' ∨ ∃ accountId record recipient amount,
        Locks bridgeLock outbox state state' accountId record recipient amount) := by
  obtain ⟨blockId, timestamp, diff, hdiff, happly⟩ := htx.diff
  have haccepted := fromPublicTransaction_ok hdiff
  obtain ⟨hescrow, hraised, -⟩ :=
    escrow_of_accepted h.lockRuns h.lockOwns h.escrowSafe hready.escrowOwner haccepted happly
  have hbalance := (Nat.le_add_right _ _).trans hraised
  by_cases hroot : tx.message.programId = bridgeLock
  · obtain ⟨output, mid, hstep, hrest⟩ := haccepted.first
    have hruns := h.lockRuns.of_execute hroot hstep.executed
    rcases main_ok hruns with
      ⟨amount, targetZone, targetProgramId, targetAccounts, payload, ordinal, -, config, holder,
        escrow, slot, recipient, outboxProgramId, holderNew, escrowNew, hlocked⟩ |
      ⟨-, config, data, hconfigured⟩
    · obtain ⟨hready', accountId, record, hlocks⟩ :=
        locks_of_locked hstep hlocked h hready haccepted happly hroot hrest hescrow
      exact ⟨hready', .inr ⟨accountId, record, recipient, amount, hlocks⟩⟩
    · obtain ⟨hready', hquiet⟩ :=
        quiet_of_configured h hready haccepted happly hstep hrest hconfigured hescrow hbalance
      exact ⟨hready', .inl hquiet⟩
  · obtain ⟨hready', hquiet⟩ :=
      quiet_of_foreign h hready haccepted happly hroot hescrow hbalance
    exact ⟨hready', .inl hquiet⟩

end

/-! ### Runs -/

variable [Builtins] [Receipts] [ImageId]

/-- A run of accepted public transactions. -/
abbrev PublicRun (exec : Executor) : V03State → List PublicTransaction → V03State → Prop :=
  Run fun tx => Transition exec (.publicTx tx)

/-- A transaction of the run has written the record: its slot was a default account before, and
what the record mints went into the escrow. -/
def WrittenIn (exec : Executor) (bridgeLock outbox : ProgramId) (state : V03State)
    (txs : List PublicTransaction) (state' : V03State) (accountId : AccountId)
    (record : OutboxRecord) : Prop :=
  ∃ earlier tx later before after recipient amount, txs = earlier ++ tx :: later ∧
    PublicRun exec state earlier before ∧ Transition exec (.publicTx tx) before after ∧
    PublicRun exec after later state' ∧
    Locks bridgeLock outbox before after accountId record recipient amount

omit [Serde CrossZoneOutbox.Instruction] [Serde Instruction] in
theorem WrittenIn.cons {mid : V03State} {txs : List PublicTransaction} {record : OutboxRecord}
    (htx : Transition exec (.publicTx tx) state mid)
    (h : WrittenIn exec bridgeLock outbox mid txs state' accountId record) :
    WrittenIn exec bridgeLock outbox state (tx :: txs) state' accountId record := by
  obtain ⟨earlier, tx', later, before, after, recipient, amount, rfl, hearlier, hrest⟩ := h
  exact ⟨tx :: earlier, tx', later, before, after, recipient, amount, rfl,
    .cons htx hearlier, hrest⟩

/-- **Emissions are backed.**  In a run of accepted public transactions, of these programs and
any others, what the emissions of `bridge_lock` mint grows by no more than the escrow does.  A
record stays as it is, and every record that was not there at the start was written by a
transaction of the run, into the slot of its zone and ordinal, which was a default account, and
its payload decodes to a mint of exactly what that transaction moved into the escrow. -/
theorem emissions_backed (h : Programs exec bridgeLock outbox)
    (hready : Ready bridgeLock outbox state) {txs : List PublicTransaction}
    (hrun : PublicRun exec state txs state') :
    emittedTotal bridgeLock outbox state' + escrowBalance bridgeLock state ≤
        emittedTotal bridgeLock outbox state + escrowBalance bridgeLock state' ∧
      (∀ accountId record,
        recordIn bridgeLock outbox (state.getAccountById accountId) = some record →
          recordIn bridgeLock outbox (state'.getAccountById accountId) = some record) ∧
      ∀ accountId record,
        recordIn bridgeLock outbox (state'.getAccountById accountId) = some record →
          recordIn bridgeLock outbox (state.getAccountById accountId) = some record ∨
            WrittenIn exec bridgeLock outbox state txs state' accountId record := by
  induction hrun with
  | nil state => exact ⟨le_rfl, fun _ _ hrecord => hrecord, fun _ _ hrecord => .inl hrecord⟩
  | @cons tx txs before after last htx hrest ih =>
    obtain ⟨hready', hcases⟩ := transition_cases h hready htx
    obtain ⟨hbacked, hkept, hwritten⟩ := ih hready'
    rcases hcases with hquiet | ⟨slot, new, recipient, amount, hlocks⟩
    · refine ⟨?_, fun accountId record hrecord => hkept _ _ ?_, fun accountId record hrecord => ?_⟩
      · have htotal := hquiet.emittedTotal_eq h.outboxOwns
        have hescrow := hquiet.escrow
        omega
      · rw [hquiet.records, hrecord]
      · rcases hwritten _ _ hrecord with hearlier | hlater
        · rw [hquiet.records] at hearlier
          exact .inl hearlier
        · exact .inr (hlater.cons htx)
    · refine ⟨?_, fun accountId record hrecord => hkept _ _ (hlocks.keeps h.outboxOwns hrecord),
        fun accountId record hrecord => ?_⟩
      · have htotal := hlocks.emittedTotal_eq h.outboxOwns
        have hescrow := hlocks.escrow
        omega
      · rcases hwritten _ _ hrecord with hearlier | hlater
        · by_cases hslot : accountId = slot
          · -- this transaction has written the record
            obtain rfl := hslot
            obtain rfl : record = new :=
              some.inj (hearlier.symm.trans hlocks.written)
            exact .inr ⟨[], tx, txs, before, after, recipient, amount, rfl, .nil _, htx, hrest,
              hlocks⟩
          · rw [hlocks.others accountId hslot] at hearlier
            exact .inl hearlier
        · exact .inr (hlater.cons htx)

end

/-! A holder locks 1000. -/

namespace Locking

open InboundDelivery.Forgery (wrapped recipient wrappedConfig holdingSeed holding byteWords
  mintWords)
open scoped InboundDelivery.Forgery Idle

def outbox : ProgramId := .ofWord 8

def bridgeLock : ProgramId := .ofWord 9

/-- The zone on which the token is minted. -/
def zone : Bytes 32 := .replicate 32 6

def config : AccountId :=
  ⟨ofHex 0xdff806c4b774e04c8b1818bb75b4d2909ae64d726d34756604c8596fe858eb38⟩

def escrow : AccountId :=
  ⟨ofHex 0x59deaa011ade213617872d164a3244195332debe220251877b81ac00eea01dbd⟩

def slotSeed : PdaSeed :=
  ⟨ofHex 0xf76b99faaf4cfdf0df7c657751874085e9de91a14e382329ef22e98d57021669⟩

def slot : AccountId :=
  ⟨ofHex 0xb5240cdd4c6cf58670a40d55fe37e1f4b33b6f08241d1e1b3d195fe4434ce341⟩

def payload : List UInt8 := Borsh.leWords mintWords

/-- What a lock and an emission have in common. -/
def messageWords : InstructionData :=
  byteWords zone.toList ++ wrapped.toList ++
    (2 :: (byteWords wrappedConfig.value.toList ++ byteWords holding.value.toList)) ++
    (148 :: byteWords payload) ++ [0]

def lockWords : InstructionData := 0 :: ([1000, 0, 0, 0] ++ messageWords)

def lock : PublicTransaction.Message :=
  ⟨bridgeLock, [config, Sample.alice, escrow, slot], [⟨0⟩], lockWords⟩

def lockHash : Bytes 32 :=
  ofHex 0x5cbbd98ea5d799858a03647dbd6f47f0e949c495bfd0d15bc8adc1472b533b90

def signature : Signature := .ofHex
  0x57ce281fc6d9d4845c47bdb97ee41c768a2930accfa12d0cf4e537477cd54d62
  0x18e65c9597da682bd1aa2a09df641c46062fbbbbdbc4c76b828279ddfe32b650

def tx : PublicTransaction := ⟨lock, ⟨[(signature, Sample.key)]⟩⟩

def digests : List (List UInt8 × Bytes 32) :=
  [ (publicPdaBytes bridgeLock configSeed, config.value),
    (publicPdaBytes bridgeLock escrowSeed, escrow.value),
    (CrossZoneOutbox.outboxSeedBytes bridgeLock zone 0, slotSeed.value),
    (publicPdaBytes outbox slotSeed, slot.value),
    (publicPdaBytes wrapped WrappedToken.configSeed, wrappedConfig.value),
    (WrappedToken.holdingSeedBytes recipient, holdingSeed.value),
    (publicPdaBytes wrapped holdingSeed, holding.value),
    (publicAccountBytes Sample.key, Sample.alice.value),
    (lock.hashBytes, lockHash) ]

scoped instance sha : Sha256 := .ofTable digests

scoped instance schnorr : Schnorr := .ofTable [(Sample.key, lockHash, signature)]

scoped instance lockSerde : Serde Instruction :=
  .ofTable [(.lock 1000 zone wrapped [wrappedConfig.value, holding.value] payload 0, lockWords)]

scoped instance outboxSerde : Serde CrossZoneOutbox.Instruction :=
  .ofTable [(.emit zone wrapped [wrappedConfig.value, holding.value] payload 0, 0 :: messageWords)]

/-- The configuration is in place, and the signer holds 1500. -/
def state : V03State := .ofAccounts
  [ deployedAt bridgeLock, deployedAt outbox,
    (config, .storing bridgeLock (configBytes outbox wrapped)),
    (Sample.alice, { Account.ownedBy bridgeLock with balance := 1500 }) ]

def exec : Executor := .ofGuests fun programId =>
  if programId = bridgeLock then main else CrossZoneOutbox.main

def record : OutboxRecord :=
  ⟨bridgeLock, zone, 0, wrapped, ⟨[wrappedConfig.value, holding.value], by decide⟩,
    ⟨payload, by decide +kernel⟩⟩

end Locking

section

open scoped InboundDelivery.Forgery Idle
open Locking
open InboundDelivery.Forgery (wrapped)

theorem locking_programs : Programs exec bridgeLock outbox where
  lockRuns := executes_ofGuests rfl
  outboxRuns := executes_ofGuests rfl
  distinct := by decide +kernel
  lockOwns := by decide +kernel
  outboxOwns := by decide +kernel
  escrowSafe := Sha256.unambiguous_ofTable (by decide +kernel) (by decide +kernel)
  configSafe := Sha256.unambiguous_ofTable (by decide +kernel) (by decide +kernel)
  emits := fun _ _ h => Serde.ofTable_singleton (by decide) h

theorem locking_ready : Ready bridgeLock outbox state where
  configOwner := by decide +kernel
  config := ⟨wrapped, by decide +kernel⟩
  escrowOwner := .inr (by decide +kernel)

/-- The lock is accepted, leaves its record, and is backed by what went into the escrow. -/
theorem lock_backed : ∃ state',
    PublicRun exec state [tx] state' ∧
      recordIn bridgeLock outbox (state'.getAccountById slot) = some record ∧
      emittedTotal bridgeLock outbox state' = 1000 ∧
      emittedTotal bridgeLock outbox state'
          + escrowBalance bridgeLock state ≤
        emittedTotal bridgeLock outbox state + escrowBalance bridgeLock state' ∧
      WrittenIn exec bridgeLock outbox state [tx] state' slot record := by
  obtain ⟨state', hstate, hrecord, htotal⟩ :
      ∃ state', state.apply ((LeeTransaction.publicTx tx).computeStateDiff
          exec state 1 10) = .ok state' ∧
        recordIn bridgeLock outbox (state'.getAccountById slot) = some record ∧
        emittedTotal bridgeLock outbox state' = 1000 := by
    decide +kernel
  have hrun : PublicRun exec state [tx] state' :=
    .cons ⟨1, 10, hstate⟩ (.nil _)
  obtain ⟨hbacked, -, hwritten⟩ := emissions_backed locking_programs locking_ready hrun
  refine ⟨state', hrun, hrecord, htotal, hbacked, (hwritten _ _ hrecord).resolve_left ?_⟩
  decide +kernel

end

end BridgeLock

end Lssa
