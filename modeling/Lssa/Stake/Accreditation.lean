/-
Which blocks keep the stake of the live committee.

The sequencer includes a release that drains the stake of a key only when the key has left the
committee (`finalizeUnstakeIsIncludable`).  The rule looks at the state that the block has led
to so far, and at public transactions that call the stake program themselves.  Nothing else
that the sequencer admits in the open can take an entry out of the configuration, so such
blocks keep the entries of live keys (`KeepsLive`).  A privacy-preserving transaction may run
the program too, and the rule does not see it.

* `keepsLive_of_includes` — one transaction of a block;
* **`live_keys_kept`** — a block, if no privacy-preserving transaction lists the configuration;
* `drained_in_private` — a block that drains a live key.
-/
import Lssa.InboundDelivery
import Lssa.Sequencer.Builder
import Lssa.Stake.Books

open Outcome Runs

namespace Lssa

open Sample (alice bob)

open StakeBuiltin (sequencerStake)

open CommitteeDiscovery PublicExecution
open LeeTransaction (TransactionBorsh)

theorem V03State.getAccountByIdRef_of_owned {state : V03State} {accountId : AccountId}
    (h : (state.getAccountById accountId).programOwner ≠ defaultProgramOwner) :
    state.getAccountByIdRef accountId = some (state.getAccountById accountId) := by
  rw [V03State.getAccountById, Ledger.get] at h ⊢
  rw [V03State.getAccountByIdRef]
  cases hlookup : state.publicState.lookup accountId with
  | none =>
    rw [hlookup] at h
    exact absurd rfl h
  | some account => rfl

namespace SequencerStake

section

variable [Ed25519] [Sha256] [StakeBuiltin]

/-- The key may be accredited: it is in the snapshot of the committee, if there is one. -/
def MayBeLive (liveAccreditedKeys : Option (List SequencerKey)) (key : SequencerKey) : Prop :=
  ∀ keys ∈ liveAccreditedKeys, key ∈ keys

/-- No live key loses its entry in the configuration. -/
def KeepsLive (liveAccreditedKeys : Option (List SequencerKey)) (state state' : V03State) : Prop :=
  ∀ config, readConfig state = some config → ∃ config', readConfig state' = some config' ∧
    ∀ key, MayBeLive liveAccreditedKeys key → (config.entries.lookup key).isSome = true →
      (config'.entries.lookup key).isSome = true

/-- The account of the configuration belongs to the program. -/
def ConfigOwned (state : V03State) : Prop :=
  (state.getAccountById configAccountId).programOwner = ofProgramId sequencerStake

variable {liveAccreditedKeys : Option (List SequencerKey)} {state state' state'' : V03State}

theorem KeepsLive.refl : KeepsLive liveAccreditedKeys state state :=
  fun config hconfig => ⟨config, hconfig, fun _ _ hentry => hentry⟩

theorem KeepsLive.trans (h : KeepsLive liveAccreditedKeys state state')
    (h' : KeepsLive liveAccreditedKeys state' state'') :
    KeepsLive liveAccreditedKeys state state'' := by
  intro config hconfig
  obtain ⟨config', hconfig', hkept⟩ := h config hconfig
  obtain ⟨config'', hconfig'', hkept'⟩ := h' config' hconfig'
  exact ⟨config'', hconfig'', fun key hlive hentry => hkept' key hlive (hkept key hlive hentry)⟩

section

variable (howns : ofProgramId sequencerStake ≠ defaultProgramOwner)
include howns

theorem readConfig_eq (howned : ConfigOwned state) : readConfig state
    = SequencerStakeConfig.fromBytes (state.getAccountById configAccountId).data.bytes := by
  rw [readConfig, V03State.getAccountByIdRef_of_owned (howned ▸ howns)]
  rfl

variable {config : SequencerStakeConfig}

theorem readConfig_of_opened (h : Opened sequencerStake state.getAccountById config) :
    readConfig state = some config :=
  (readConfig_eq howns h.programOwner).trans h.config

omit [Sha256] in
theorem stakeRecord_of_tagged {ownershipId : AccountId} {record : StakeRecord}
    (h : Tagged sequencerStake (state.getAccountById ownershipId) record) :
    stakeRecord state ownershipId = some record := by
  rw [stakeRecord, V03State.getAccountByIdRef_of_owned (h.programOwner ▸ howns)]
  exact h.record

/-- Nothing is lost if the account of the configuration is held. -/
theorem keepsLive_of_held (howned : ConfigOwned state)
    (hheld : Held (state.getAccountById configAccountId) (state'.getAccountById configAccountId)) :
    KeepsLive liveAccreditedKeys state state' ∧ ConfigOwned state' := by
  have howned' : ConfigOwned state' := hheld.programOwner.trans howned
  refine ⟨fun config hconfig => ⟨config, ?_, fun _ _ hentry => hentry⟩, howned'⟩
  rw [readConfig_eq howns howned', hheld.data, ← readConfig_eq howns howned]
  exact hconfig

/-- Nothing is lost if the new configuration has the entries of the old one. -/
theorem keepsLive_of_opened {config' : SequencerStakeConfig}
    (h : Opened sequencerStake state.getAccountById config)
    (h' : Opened sequencerStake state'.getAccountById config')
    (hkept : ∀ key, MayBeLive liveAccreditedKeys key → (config.entries.lookup key).isSome = true →
      (config'.entries.lookup key).isSome = true) :
    KeepsLive liveAccreditedKeys state state' ∧ ConfigOwned state' := by
  refine ⟨fun old hold => ⟨config', readConfig_of_opened howns h', ?_⟩, h'.programOwner⟩
  obtain rfl : old = config := some.inj (hold.symm.trans (readConfig_of_opened howns h))
  exact hkept

/-- **A movement keeps the live entries**, if it obeys the rule. -/
theorem Moves.keepsLive {label : Movement}
    (h : Moves sequencerStake state.getAccountById state'.getAccountById label)
    (howned : ConfigOwned state)
    (hrule : ∀ ownershipId, label = .release ownershipId → ∃ keys, liveAccreditedKeys = some keys ∧
      finalizeUnstakeIsValid state ownershipId keys = true) :
    KeepsLive liveAccreditedKeys state state' ∧ ConfigOwned state' := by
  have hwith : ∀ {config : SequencerStakeConfig} {sequencerKey : SequencerKey}
      {entry : SequencerEntry} (key : SequencerKey), MayBeLive liveAccreditedKeys key →
      (config.entries.lookup key).isSome = true →
      ((config.withEntry sequencerKey entry).entries.lookup key).isSome = true := by
    intro config sequencerKey entry key _ hentry
    rw [SequencerStakeConfig.lookup_withEntry]
    split
    · rfl
    · exact hentry
  cases h with
  | outside held => exact keepsLive_of_held howns howned (held _ howned)
  | staked apart opened claimed booked tagged balance reopened held =>
    exact keepsLive_of_opened howns opened reopened hwith
  | requested apart opened untagged found backs allowed booked tagged balance reopened held =>
    exact keepsLive_of_opened howns opened reopened hwith
  | @finalized ownershipId sequencerKey pending config entry totalStaked totalPending apart opened
      tagged found backs staked released untagged balance reopened held =>
    refine keepsLive_of_opened howns opened reopened fun key hlive hentry => ?_
    rw [SequencerStakeConfig.lookup_released]
    by_cases hkey : key = sequencerKey
    · -- The entry goes only if the release is of all that is staked.
      obtain ⟨keys, rfl, hvalid⟩ := hrule ownershipId rfl
      rw [if_pos hkey]
      by_cases hzero : totalStaked = 0
      · have hdrains : entry.totalStaked = pending.amount := by
          rw [Fin.ext_iff, ← staked, hzero]
          show 0 + pending.amount.val = _
          omega
        rw [hkey] at hlive
        have hmem : sequencerKey ∈ keys := hlive keys rfl
        simp [finalizeUnstakeIsValid, stakeRecord_of_tagged howns tagged,
          readConfig_of_opened howns opened, found, hdrains, hmem] at hvalid
      · rw [if_neg hzero]
        rfl
    · rw [if_neg hkey]
      exact hentry

end

/-! ### A block -/

variable [Schnorr] [Builtins] [Receipts] [ImageId] [Serde Instruction] {exec : Executor}

variable {blockId : BlockId} {timestamp : Timestamp}

omit [Builtins] [Receipts] [ImageId] in
theorem keepsLive_of_public (hset : Setting exec) {tx : PublicTransaction}
    (h : transitionFromPublicTransaction exec state tx blockId timestamp = .ok state')
    (howned : ConfigOwned state)
    (hincludable : finalizeUnstakeIsIncludable state (.publicTx tx) liveAccreditedKeys = true) :
    KeepsLive liveAccreditedKeys state state' ∧ ConfigOwned state' := by
  obtain ⟨diff, hdiff, happly⟩ := V03State.apply_ok h
  have haccepted := fromPublicTransaction_ok hdiff
  have hmoves := (accepted_moves hset haccepted).of_sameFunds (haccepted.funds happly)
  refine hmoves.keepsLive hset.owns howned fun ownershipId hrelease => ?_
  have hownership := finalizeUnstakeOwnershipAccount_of_release hrelease
  rw [finalizeUnstakeIsIncludable, hownership] at hincludable
  cases liveAccreditedKeys with
  | none => cases hincludable
  | some keys => exact ⟨keys, rfl, hincludable⟩

variable [Serde Bridge.Instruction]

/-- What the transaction does to the configuration it does in the open: it does not list it
if it is privacy-preserving, and does not deploy a program over it. -/
structure Overt (tx : LeeTransaction) : Prop where
  unlisted : tx.Unlisted configAccountId
  stored : ¬tx.Stores configAccountId

/-- **A transaction of a block keeps the live entries.** -/
theorem keepsLive_of_includes (hset : Setting exec) {entry : Drained}
    (h : Includes exec blockId timestamp liveAccreditedKeys entry state state')
    (hovert : Overt entry.tx) (howned : ConfigOwned state) :
    KeepsLive liveAccreditedKeys state state' ∧ ConfigOwned state' := by
  obtain ⟨hincludable, withdrawals, withdrawals', happlied⟩ := h
  have hexec := executeOnState_of_applyMempoolTransaction happlied
  cases htx : entry.tx with
  | publicTx tx =>
    rw [htx] at hexec hincludable
    exact keepsLive_of_public hset hexec howned hincludable
  | privacyPreserving tx =>
    rw [htx] at hexec
    obtain ⟨diff, hdiff, happly⟩ := V03State.apply_ok hexec
    have haccepted := fromPrivacyPreservingTransaction_ok hdiff
    exact keepsLive_of_held hset.owns howned
      (.of_sameFunds (haccepted.same_of_unlisted (hovert.unlisted tx htx) happly))
  | programDeployment tx =>
    rw [htx] at hexec
    have hkept := LeeTransaction.Transition.unstored ⟨_, _, hexec⟩ (htx ▸ hovert.stored)
    exact keepsLive_of_held hset.owns howned (hkept ▸ .refl _)

/-- What the included transactions keep, one by one and together. -/
theorem keepsLive_of_run (hset : Setting exec) {included : List Drained}
    (h : Run (Includes exec blockId timestamp liveAccreditedKeys) state included state')
    (hovert : ∀ entry ∈ included, Overt entry.tx) (howned : ConfigOwned state) :
    Run (fun _ => KeepsLive liveAccreditedKeys) state included state' ∧
      KeepsLive liveAccreditedKeys state state' ∧ ConfigOwned state' := by
  induction h with
  | nil state => exact ⟨.nil state, .refl, howned⟩
  | @cons entry included state mid state' hincludes _ ih =>
    obtain ⟨hkeeps, howned'⟩ := keepsLive_of_includes hset hincludes
      (hovert entry mem_cons_self) howned
    obtain ⟨hrun, hrest, hend⟩ :=
      ih (fun entry' hmem => hovert entry' (mem_cons_of_mem _ hmem)) howned'
    exact ⟨.cons hkeeps hrun, hkeeps.trans hrest, hend⟩

variable [ClockBuiltin] [Serde Timestamp] [Serde CrossZoneInbox.Instruction] [TransactionBorsh]
  [VaultBuiltin]

/-- **An accredited key keeps its stake.**  If no privacy-preserving transaction of a block
lists the configuration of the stake program, then no transaction of the block, and so not the
block when it is applied, takes the entry of a live key out of the configuration. -/
theorem live_keys_kept (hset : Setting exec)
    (hclock : ClockBuiltin.clock ≠ sequencerStake) {core : SequencerCore}
    {sign : HashType → Signature} {timestamp : Timestamp} {outcome : BuildOutcome}
    (h : core.buildBlockFromMempool exec sign timestamp liveAccreditedKeys = .ok outcome)
    (howned : ConfigOwned core.chain.headState)
    (hovert : ∀ tx ∈ outcome.built.block.body.transactions, Overt tx) :
    ∃ included mid,
      outcome.built.block.body.transactions
        = included.map Drained.tx ++ [.publicTx (clockInvocation timestamp)] ∧
      Run (Includes exec outcome.built.block.header.blockId timestamp liveAccreditedKeys)
        core.chain.headState included mid ∧
      Run (fun _ => KeepsLive liveAccreditedKeys) core.chain.headState included mid ∧
      ∀ state', applyBlock exec core.chain.headTip outcome.built.block core.chain.headState
        = .ok state' → KeepsLive liveAccreditedKeys core.chain.headState state' := by
  obtain ⟨included, mid, hbuilt⟩ := buildBlockFromMempool_ok h
  have hincluded : ∀ entry ∈ included, Overt entry.tx := by
    intro entry hmem
    refine hovert _ ?_
    rw [hbuilt.transactions]
    exact mem_append_left _ (mem_map_of_mem hmem)
  obtain ⟨hsteps, hkeeps, hmid⟩ := keepsLive_of_run hset hbuilt.run hincluded howned
  refine ⟨included, mid, hbuilt.transactions, hbuilt.run, hsteps, fun state' happly => ?_⟩
  -- The block leads to the working state, and the clock is not the stake program.
  rw [hbuilt.applyBlock_eq] at happly
  split at happly
  · cases happly
  · cases happly
    refine hkeeps.trans (keepsLive_of_public hset hbuilt.clock hmid ?_).1
    have hother : finalizeUnstakeOwnershipAccount (.publicTx (clockInvocation timestamp)) = none :=
      if_pos hclock
    rw [finalizeUnstakeIsIncludable, hother]

end

/-! ### A drain in private -/

/-! A key with 150 staked has asked for a release.  The block before is a genesis block. -/

namespace Drain

open Staking (stakeProgram authTransfer configId)
open InboundDelivery.Forgery (dummyDigests firstLeaf)
open scoped Idle AuthenticatedTransfer Unasked Staking

def clock : ProgramId := .ofWord 7

scoped instance : Serde Timestamp := .u64

scoped instance : ClockBuiltin := ⟨clock⟩

scoped instance : VaultBuiltin := ⟨.ofWord 8⟩

scoped instance : Schnorr := .ofTable []

def config (amount : U128) : SequencerStakeConfig :=
  ⟨100, .ofList [(Staking.key, ⟨alice, 150, amount⟩)]⟩

def accounts (amount : U128) : List (AccountId × Account) :=
  [ deployedAt stakeProgram, deployedAt authTransfer, deployedAt clock,
    (configId, .storing stakeProgram (config amount).toBytes),
    (alice, { Account.storing stakeProgram
        (StakeRecord.mk Staking.key (some ⟨amount, bob⟩)).toBytes with balance := 150 }),
    (bob, { Account.ownedBy authTransfer with balance := 850 }) ] ++
  clockAccountIds.map fun accountId =>
    (accountId, .storing clock (Clock.ClockAccountData.mk 1 10).toBytes)

/-- No other program runs. -/
def guests [Sha256] (programId : ProgramId) : Guest :=
  if programId = stakeProgram then main
  else if programId = authTransfer then AuthenticatedTransfer.main
  else if programId = clock then Clock.main
  else fun _ _ _ _ => none

def listed (accountId : AccountId) : AccountWithMetadata :=
  ⟨((accounts 150).lookup accountId).getD .default, false, accountId⟩

/-- The release of everything, run by whoever wants to. -/
def input [Sha256] : PrivacyPreservingCircuitInput where
  programOutputs :=
    (main stakeProgram none [listed alice, listed bob, listed configId] [3]).toList
  accountIdentities := replicate 3 .publicAccount
  programId := stakeProgram
  dummyInputs :=
    [{ nullifierSeed := .replicate 32 4
       commitmentSeed := .replicate 32 5
       note := ⟨⟨[]⟩, ⟨[]⟩, 0⟩
       commitmentRoot := firstLeaf }]

/-- A proof of an output exists if the program returns it. -/
def verify [Sha256] (programId : ProgramId) (output : ProgramOutput) : Bool :=
  decide (guests programId programId output.callerProgramId output.preStates
    output.instructionData = some output)

def circuit [Sha256] : Except Circuit.Panic PrivacyPreservingCircuitOutput :=
  Circuit.main verify input

/-- The block with a release of 50, in the open. -/
def openBlock : Block where
  header :=
    { blockId := 2
      prevBlockHash := Fork.genesis.header.hash
      hash := ofHex 0x955cee824577b5fabd5dc9a628c3830d4273db9e8a796f45c650dedf91aa527b
      timestamp := 20
      signature := .ofHex 0 0 }
  body := ⟨
    [ .publicTx
        { message := ⟨stakeProgram, [alice, bob, configId], [], [3]⟩, witnessSet := ⟨[]⟩ },
      .publicTx (clockInvocation 20) ]⟩
  bedrockStatus := .pending

/-- The fallback is the digest of the block that drains the key. -/
scoped instance sha : Sha256 := .ofTableOr
  (ofHex 0x6c8ebef126db2a95cb0e4bfe352ca68fc625353ce1b6dad2a201716a308db6bc)
  ([ (publicPdaBytes stakeProgram sequencerStakeConfigSeed, configId.value),
    (openBlock.hashableData.hashBytes, openBlock.header.hash) ] ++ dummyDigests)

/-- A receipt verifies for what the circuit returns. -/
scoped instance : Receipts where
  isValidForCircuit _ output circuitId := decide (circuitId = .ofWord 6 ∧ circuit = .ok output)

def exec : Executor := .ofGuests guests

def state (amount : U128) : Option V03State :=
  V03State.new.map (·.withPublicAccounts (accounts amount))

def drainTx (output : PrivacyPreservingCircuitOutput) : LeeTransaction :=
  .privacyPreserving ⟨.fromCircuitOutput [] output, ⟨[], ⟨[]⟩⟩⟩

def core (state : V03State) (mempool : List (TransactionOrigin × LeeTransaction)) :
    SequencerCore where
  chain := .fromFinal state (some (.ofBlock Fork.genesis))
  pendingDepositEvents := []
  pendingCrossZoneDispatches := []
  mempool := mempool
  sequencerConfig := ⟨10000, 10⟩

def sign (_ : HashType) : Signature := .ofHex 0 0

/-- The entry of the key in the configuration of a state. -/
def entry (state : V03State) : Option SequencerEntry :=
  (readConfig state).bind fun config => config.entries.lookup Staking.key

theorem setting : Setting exec where
  runs := executes_ofGuests rfl
  owns := by decide +kernel
  confirms := Staking.fromWords_confirmStake

end Drain

section

open scoped Idle AuthenticatedTransfer Unasked Staking
open Drain

/-- **A live key that is drained.**  The committee has the key, and a release of all that it
has staked is pending.  The sequencer leaves out the release that it makes itself, and includes
the one that a user proved in private. -/
theorem drained_in_private :
    ∃ state output outcome state', Drain.state 150 = some state ∧ circuit = .ok output ∧
      (core state [(.user, drainTx output)]).buildBlockFromMempool exec
        sign 20 (some [Staking.key]) = .ok outcome ∧
      outcome.built.block.body.transactions = [drainTx output, .publicTx (clockInvocation 20)] ∧
      applyBlock exec (some (.ofBlock Fork.genesis)) outcome.built.block state = .ok state' ∧
      entry state = some ⟨alice, 150, 150⟩ ∧ entry state' = none := by
  simp only [exists_and_left]
  decide +kernel

/-- A release of 50 is included, and the key keeps its entry. -/
theorem released_in_the_open :
    ∃ state outcome state', Drain.state 50 = some state ∧
      (core state []).buildBlockFromMempool exec sign 20 (some [Staking.key]) = .ok outcome ∧
      outcome.built.block = openBlock ∧
      applyBlock exec (some (.ofBlock Fork.genesis)) outcome.built.block state = .ok state' ∧
      entry state = some ⟨alice, 150, 50⟩ ∧ (entry state').isSome = true := by
  obtain ⟨state, hstate, outcome, hbuilt, hblock, hentry, howned, state', happly⟩ : ∃ state,
      Drain.state 50 = some state ∧ ∃ outcome, (core state []).buildBlockFromMempool
        exec sign 20 (some [Staking.key]) = .ok outcome ∧
      outcome.built.block = openBlock ∧
      entry state = some ⟨alice, 150, 50⟩ ∧
      (state.getAccountById configAccountId).programOwner = .ofProgramId sequencerStake ∧
      ∃ state', applyBlock exec (some (.ofBlock Fork.genesis)) outcome.built.block state
        = .ok state' := by
    decide +kernel
  have hovert : ∀ tx ∈ outcome.built.block.body.transactions, Overt tx := by
    rw [hblock]
    intro tx hmem
    rcases mem_pair.mp hmem with rfl | rfl
    all_goals
      refine ⟨fun _ hprivate => absurd hprivate (by simp), ?_⟩
      rintro ⟨dtx, programId, hdeploy, -⟩
      cases hdeploy
  obtain ⟨-, -, -, -, -, hkeeps⟩ := live_keys_kept setting (by decide) hbuilt howned hovert
  refine ⟨state, outcome, state', hstate, hbuilt, hblock, happly, hentry, ?_⟩
  obtain ⟨config, hconfig, hlookup⟩ := bind_eq_some_iff.mp hentry
  obtain ⟨config', hconfig', hkept⟩ := hkeeps state' happly config hconfig
  have hlive : MayBeLive (some [Staking.key]) Staking.key := by
    rintro keys hkeys
    rw [← some.inj hkeys]
    exact mem_singleton.mpr rfl
  rw [entry, hconfig']
  exact hkept Staking.key hlive (by rw [hlookup]; rfl)

end

end SequencerStake

end Lssa
