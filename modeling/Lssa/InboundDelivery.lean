/-
Who delivers messages from other zones.

The inbox is meant for the sequencer alone.  Ingress refuses public transactions that
call it, and the inbox refuses to be called by a program, so in a public transaction of a
user or a peer it never runs (`inbox_uncalled`), and no wrapped token is minted
(`wrapped_step`).  Shards and holdings are left alone, except that anyone may send them
balance (`inbound_delivery`).

A privacy-preserving transaction leaves alone what it does not list.  Of what it lists none of
this holds: ingress does not see which program it calls, and the circuit runs the inbox as it
runs any program (`forged_delivery`).
-/
import Lssa.Custody
import Lssa.LeeTransaction
import Lssa.Programs.AuthenticatedTransfer
import Lssa.Programs.WrappedToken

open DepthFirst Outcome

namespace Lssa

open WrappedToken (WrappedTokenConfig balanceBytes configAccountId configSeed holdingAccountId
  holdingSeed)

open Builtins (crossZoneInbox)

open PublicExecution LeeTransaction

namespace InboundDelivery

open CrossZoneInbox

section

variable [Sha256] [Builtins] [Serde CrossZoneInbox.Instruction] [Serde WrappedToken.Instruction]
  {exec : Executor} {tx : PublicTransaction} {state state' : V03State} {blockId : BlockId}
  {timestamp : Timestamp} {wrapped : ProgramId}

/-- The programs run as written, and the wrapped token is configured for the inbox. -/
structure Setting (exec : Executor) (wrapped : ProgramId) (state : V03State) : Prop where
  inboxRuns : Executes exec crossZoneInbox main
  wrappedRuns : Executes exec wrapped WrappedToken.main
  inboxOwns : ofProgramId crossZoneInbox ≠ defaultProgramOwner
  wrappedOwns : ofProgramId wrapped ≠ defaultProgramOwner
  configured : (state.getAccountById (configAccountId wrapped)).programOwner = ofProgramId wrapped
  minter : ∃ cfg, WrappedTokenConfig.fromBytes
      (state.getAccountById (configAccountId wrapped)).data.bytes = some cfg ∧
    cfg.minter = crossZoneInbox

/-! ### The inbox never runs -/

section

omit [Serde WrappedToken.Instruction]

theorem inbox_uncalled (hinbox : Executes exec crossZoneInbox main) :
    Uncalled exec crossZoneInbox :=
  fun _ _ _ hprogram hexecuted =>
    caller_of_main (hinbox.of_execute hprogram hexecuted)

end

/-! ### The wrapped token -/

/-- The configuration as it is found in the state. -/
def ConfigKept (state : V03State) (wrapped : ProgramId) (diff : Diff) : Prop :=
  Kept (state.getAccountById (configAccountId wrapped))
    (overlay state diff (configAccountId wrapped))

variable {diff diff' : Diff} {call : Call} {output : ProgramOutput}

section

variable (hset : Setting exec wrapped state)
  (hstep : Step exec state blockId timestamp diff call output diff')
  (hconfig : ConfigKept state wrapped diff)

include hset hstep hconfig

/-- What the wrapped token does to an account when it configures. -/
theorem kept_of_configured {config : AccountWithMetadata} {data : Data}
    (hconfigured : WrappedToken.Configured wrapped output config data) (accountId : AccountId) :
    Kept (overlay state diff accountId) (overlay state diff' accountId) := by
  rcases hstep.effect accountId with heq | ⟨pre, post, hpair, hid, hpre, heffect⟩
  · rw [heq]
    exact .refl _
  rw [hconfigured.preStates, hconfigured.postStates] at hpair
  obtain ⟨rfl, rfl⟩ := Prod.mk.inj (mem_singleton.mp hpair)
  obtain rfl : configAccountId wrapped = accountId :=
    hconfigured.configId.symm.trans hid
  have howned : pre.account ≠ .default := by
    intro hdefault
    have howner := hconfig.programOwner.trans hset.configured
    rw [← hpre, hdefault] at howner
    exact hset.wrappedOwns howner.symm
  rw [← hpre]
  exact heffect.kept howned (hconfigured.kept howned) le_rfl

/-- The configuration is kept by every call. -/
theorem configKept_step : ConfigKept state wrapped diff' := by
  refine hconfig.trans ?_
  have howner := hconfig.programOwner.trans hset.configured
  by_cases hprogram : call.1.programId = wrapped
  · obtain ⟨-, hcases⟩ :=
      WrappedToken.main_ok (hset.wrappedRuns.of_execute hprogram hstep.executed)
    rcases hcases with ⟨marker, config, holding, cfg, hminted⟩ | ⟨config, data, hconfigured⟩
    · rcases hstep.effect (configAccountId wrapped) with
        heq | ⟨pre, post, hpair, hid, hpre, heffect⟩
      · rw [heq]
        exact .refl _
      have howned : pre.account ≠ .default := by
        intro hdefault
        rw [← hpre, hdefault] at howner
        exact hset.wrappedOwns howner.symm
      -- the holding is another account: no account is listed twice
      have hnodup := hstep.validExecution.nodup
      obtain ⟨data, seed, hpost⟩ := hminted.postStates
      rw [hminted.preStates] at hnodup
      rw [hminted.preStates, hpost] at hpair
      rw [← hpre]
      simp only [zip_cons_cons, List.zip_nil_right, mem_cons, Prod.mk.injEq,
        not_mem_nil, or_false] at hpair
      rcases hpair with ⟨rfl, rfl⟩ | ⟨rfl, rfl⟩ | ⟨rfl, rfl⟩
      · exact heffect.kept howned rfl le_rfl
      · exact heffect.kept howned rfl le_rfl
      · refine absurd (hminted.configId.trans hid.symm) ?_
        simp only [map_cons, map_nil, nodup_cons, mem_singleton] at hnodup
        exact hnodup.2.1
    · exact kept_of_configured hset hstep hconfig hconfigured _
  · exact hstep.kept howner hset.wrappedOwns hprogram

/-- Unless the inbox calls it, the wrapped token leaves every account alone. -/
theorem wrapped_step (hprogram : call.1.programId = wrapped)
    (hcaller : call.2.programId ≠ some crossZoneInbox) (accountId : AccountId) :
    Kept (overlay state diff accountId) (overlay state diff' accountId) := by
  obtain ⟨-, hcases⟩ := WrappedToken.main_ok (hset.wrappedRuns.of_execute hprogram hstep.executed)
  rcases hcases with ⟨marker, config, holding, cfg, hminted⟩ | ⟨config, data, hconfigured⟩
  · -- the configuration it read is the one of the state, which names the inbox
    obtain ⟨cfg', hcfg', hminter⟩ := hset.minter
    have hmem : config ∈ output.preStates := by
      rw [hminted.preStates]
      simp
    have hdata : config.account.data
        = (state.getAccountById (configAccountId wrapped)).data := by
      rw [hstep.consistent config hmem, hminted.configId]
      exact hconfig.data
    have hdecodes := hminted.decodes
    rw [hdata, hcfg'] at hdecodes
    cases hdecodes
    exact absurd (hminted.caller.trans (congrArg some hminter)) hcaller
  · exact kept_of_configured hset hstep hconfig hconfigured accountId

end

/-! ### Transactions of users and peers -/

variable [ImageId]

/-- An account that is a PDA of one program and nothing else: its id is derived in one way
and is not the image id of any bytecode, and it is owned by the program or unclaimed. -/
structure OwnPda (state : V03State) (programId : ProgramId) (seed : PdaSeed) : Prop where
  unambiguous : Sha256.Unambiguous (forPublicPda programId seed).value
  notImage : ∀ bytecode imageId, ImageId.computeImageId bytecode = some imageId →
    ofProgramId imageId ≠ forPublicPda programId seed
  owner : (state.getAccountById (forPublicPda programId seed)).programOwner
      = ofProgramId programId ∨
    (state.getAccountById (forPublicPda programId seed)).programOwner = defaultProgramOwner

variable [Schnorr]

/-- A public transaction that does not start with the inbox keeps holdings. -/
theorem holding_kept (hset : Setting exec wrapped state) {diff : StateDiff}
    (h : Accepted exec tx state blockId timestamp diff)
    (happly : state.applyStateDiff diff = some state')
    (hroot : tx.message.programId ≠ crossZoneInbox) {seed : PdaSeed}
    (hpda : OwnPda state wrapped seed) :
    Kept (state.getAccountById (forPublicPda wrapped seed))
      (state'.getAccountById (forPublicPda wrapped seed)) := by
  have hconfig : ∀ v ∈ callTree exec tx state blockId timestamp,
      ConfigKept state wrapped v.before :=
    h.threads.before (fun v hv => configKept_step hset (callTree_step hv))
      (by rw [ConfigKept, overlay_empty]; exact .refl _)
  refine h.kept happly hpda.unambiguous rfl hset.wrappedOwns hpda.owner ?_ ?_
  · intro v hv hprogram call hcall
    have hnone := (WrappedToken.main_ok
      (hset.wrappedRuns.of_execute hprogram (callTree_step hv).executed)).1
    rw [hnone] at hcall
    cases hcall
  · intro v hv hprogram
    exact wrapped_step hset (callTree_step hv) (hconfig v hv) hprogram
      ((inbox_uncalled hset.inboxRuns).never_calls hroot hv) _

variable [TransactionBorsh] [Receipts]

omit [Schnorr] [Builtins] [Serde CrossZoneInbox.Instruction] [Serde WrappedToken.Instruction]
  [TransactionBorsh] in
/-- A privacy-preserving transaction keeps a PDA that it does not list. -/
theorem OwnPda.kept_privately {programId circuitId : ProgramId} {seed : PdaSeed}
    (hpda : OwnPda state programId seed) {ptx : PrivacyPreservingTransaction} {diff : StateDiff}
    (h : AcceptedPrivately circuitId ptx state diff)
    (happly : state.applyStateDiff diff = some state')
    (hunlisted : forPublicPda programId seed ∉ ptx.message.publicAccountIds) :
    Kept (state.getAccountById (forPublicPda programId seed))
      (state'.getAccountById (forPublicPda programId seed)) := by
  have hunsigned : forPublicPda programId seed ∉ diff.signerAccountIds := by
    rw [h.diff_eq]
    intro hsigner
    obtain ⟨⟨_, key⟩, -, hkey⟩ := mem_map.mp hsigner
    exact AccountId.ofPublicKey_ne_forPublicPda hpda.unambiguous rfl hkey
  rw [(applyStateDiff_funds happly (by rw [h.diff_eq]) _).2 hunsigned, overlay_unlisted h hunlisted]
  exact .refl _

/-- **What a user or a peer sends delivers nothing**, unless it is privacy-preserving and lists
the account.  Shards of the inbox and holdings of the wrapped token keep their owner, data and
nonce, and lose no balance; the inbox does not run at all in a public transaction. -/
theorem inbound_delivery {tx : LeeTransaction} (hset : Setting exec wrapped state)
    (hadmitted : Admitted tx)
    (h : tx.executeCheckOnState exec state blockId timestamp = .ok state') :
    (∀ srcZone srcBlockId,
      OwnPda state crossZoneInbox (inboxSeenShardSeed srcZone srcBlockId) →
      tx.Unlisted (inboxSeenShardAccountId crossZoneInbox srcZone srcBlockId) →
        Kept
          (state.getAccountById (inboxSeenShardAccountId crossZoneInbox srcZone srcBlockId))
          (state'.getAccountById (inboxSeenShardAccountId crossZoneInbox srcZone srcBlockId))) ∧
      (∀ recipient, OwnPda state wrapped (holdingSeed recipient) →
        tx.Unlisted (holdingAccountId wrapped recipient) →
        Kept (state.getAccountById (holdingAccountId wrapped recipient))
          (state'.getAccountById (holdingAccountId wrapped recipient))) ∧
      ∀ ptx, tx = .publicTx ptx → ∀ v ∈ callTree exec ptx state blockId timestamp,
        v.call.1.programId ≠ crossZoneInbox := by
  obtain ⟨diff, hdiff, happly⟩ := executeCheckOnState_ok h
  have hguard := hadmitted.callsSequencerOnly_eq_false
  cases tx with
  | publicTx ptx =>
    have haccepted := fromPublicTransaction_ok hdiff
    have hroot : ptx.message.programId ≠ crossZoneInbox := of_decide_eq_false hguard
    have hnever : ∀ v ∈ callTree exec ptx state blockId timestamp,
        v.call.1.programId ≠ crossZoneInbox :=
      fun v hv => (inbox_uncalled hset.inboxRuns).never_runs hroot hv
    refine ⟨fun _ _ hpda _ => haccepted.kept happly hpda.unambiguous rfl hset.inboxOwns hpda.owner
        (fun v hv hprogram => absurd hprogram (hnever v hv))
        (fun v hv hprogram => absurd hprogram (hnever v hv)),
      fun _ hpda _ => holding_kept hset haccepted happly hroot hpda, ?_⟩
    intro ptx' heq
    obtain rfl := LeeTransaction.publicTx.inj heq
    exact hnever
  | privacyPreserving ptx =>
    have haccepted := fromPrivacyPreservingTransaction_ok hdiff
    exact ⟨fun _ _ hpda hunlisted => hpda.kept_privately haccepted happly (hunlisted ptx rfl),
      fun _ hpda hunlisted => hpda.kept_privately haccepted happly (hunlisted ptx rfl),
      fun _ heq => absurd heq (by simp)⟩
  | programDeployment dtx =>
    obtain ⟨imageId, himage, -, rfl⟩ := fromProgramDeploymentTransaction_ok hdiff
    have hsame : ∀ programId seed, OwnPda state programId seed →
        Kept (state.getAccountById (forPublicPda programId seed))
          (state'.getAccountById (forPublicPda programId seed)) := by
      intro programId seed hpda
      rw [applyStateDiff_deployment happly rfl rfl rfl (hpda.notImage _ _ himage).symm]
      exact .refl _
    exact ⟨fun _ _ hpda _ => hsame _ _ hpda, fun _ hpda _ => hsame _ _ hpda,
      fun _ heq => absurd heq (by simp)⟩

end

/-! A forged delivery.  A user runs the inbox in the circuit on a message nobody sent, which
mints 1000 wrapped tokens; a dummy makes the transaction private.  And a payment to a
holding, for comparison.  All digests are SHA-256's. -/

namespace Forgery

open CrossZoneInbox (CrossZoneMessage)
open scoped Idle

def inbox : ProgramId := .ofWord 1

def wrapped : ProgramId := .ofWord 2

def authTransfer : ProgramId := .ofWord 3

def zone : Bytes 32 := .replicate 32 7

def recipient : Bytes 32 := .replicate 32 5

def inboxConfig : AccountId :=
  ⟨ofHex 0xad7897bc3a5a56c0d5b207d3cd2814e0b0c910f0937a8297bf53687b354de100⟩

def seenSeed : PdaSeed :=
  ⟨ofHex 0xe0bf9ce4411384360cc023945b30cd967d8b8d8fbe5bc9e7cdde5783e48f0ead⟩

def seen : AccountId :=
  ⟨ofHex 0xde56593fdc7f1c9a72bfc1168a5fd7ed6434d14230b745b9f1f1a3a55a2f47f3⟩

def markerSeed : PdaSeed :=
  ⟨ofHex 0xc16d79a78b76076c30561c4210b67609b868c449af220f1874250bbd255bb573⟩

def marker : AccountId :=
  ⟨ofHex 0x0ae94430d4aa245e7da33470f4c54ea0e6ae85ff15963693c061b92bf4b07838⟩

def wrappedConfig : AccountId :=
  ⟨ofHex 0x60548404d3146e2f505912a809848c9ac570bb46691bb1d2717502c32ed87301⟩

def holdingSeed : PdaSeed :=
  ⟨ofHex 0x94088b9739574992c68225a5dfaa67b15d747792609fcbf7fd5e46259ea9628d⟩

def holding : AccountId :=
  ⟨ofHex 0x7fa2c393abea80b256ffe6a26d016daa771074dfe690212018dbc7e63356158f⟩

def dummyNullifier : Bytes 32 :=
  ofHex 0xbf7502558eafaac4e3161299edb6e15ff0d399a1c907598030a2c53d7b9bf456

def dummyOutput : Bytes 32 :=
  ofHex 0xed087060163ef904a08c293e750b21705fabe314f77bc7a305d385bed9cac4c4

/-- The leaf of the commitment that every state starts with, and the root of that state. -/
def firstLeaf : Bytes 32 :=
  ofHex 0xfaedc0719b65771eebb714541a20c4e59a4afef981f1762729fd8dabb8470829

def secondLeaf : Bytes 32 :=
  ofHex 0xb8f240b47a702dd9cff4ce93b04872cd2fc4db19b44991330eb79033adfe741a

/-- A payment of 5 to the holding. -/
def credit : PublicTransaction.Message :=
  ⟨authTransfer, [Sample.alice, holding], [⟨0⟩], [0, 5, 0, 0, 0]⟩

def creditHash : Bytes 32 :=
  ofHex 0xc6063745c92106c74db9b91686544f32f2031c5aefe05c5f8d98833681990a8e

def creditSignature : Signature := .ofHex
  0x7e43dab8a46443893af7cf85fa2bd3ed01946e1c111d1f596c7de733bc536a5f
  0x96e0a712a9237d371d66963ac09e653fab7d5a2f0601fe6b13e614d5ec659bf8

/-- What is hashed for the dummy, the tree and the system accounts. -/
def dummyDigests : List (List UInt8 × Bytes 32) :=
  [ (publicPdaBytes (.ofWord 4) computeFaucetSeed,
      ofHex 0xa1e9dc78f7cd68fac0b2eaba3823a1ad02bbfb14177ec53a8a4765fe805559e1),
    (publicPdaBytes (.ofWord 5) computeBridgeSeed,
      ofHex 0x87316d26289fc6bafc991652294b9a1639e626307d2aafedd12538c61620bf34),
    (ascii "/LEE/v0.3/Nullifier/Dummy/" ++ replicate 6 0 ++ replicate 32 4, dummyNullifier),
    (ascii "/LEE/v0.3/Commitment/Dummy/" ++ replicate 5 0 ++ dummyNullifier.toList ++
      replicate 32 5, dummyOutput),
    (dummyCommitment.value.toList, firstLeaf),
    (dummyOutput.toList, secondLeaf),
    (firstLeaf.toList ++ secondLeaf.toList,
      ofHex 0x641e9da6d8851916994b3364fe8e6b056caa284868c9fbbe4ffa4c89466a341e) ]

def digests : List (List UInt8 × Bytes 32) :=
  [ (publicPdaBytes inbox inboxConfigSeed, inboxConfig.value),
    (seenShardBytes zone 7, seenSeed.value),
    (publicPdaBytes inbox seenSeed, seen.value),
    (sourceMarkerBytes zone (.ofWord 9), markerSeed.value),
    (publicPdaBytes inbox markerSeed, marker.value),
    (publicPdaBytes wrapped configSeed, wrappedConfig.value),
    (WrappedToken.holdingSeedBytes recipient, holdingSeed.value),
    (publicPdaBytes wrapped holdingSeed, holding.value),
    (publicAccountBytes Sample.key, Sample.alice.value) ]

scoped instance sha : Sha256 :=
  .ofTable (dummyDigests ++ digests ++ [(credit.hashBytes, creditHash)])

scoped instance schnorr : Schnorr := .ofTable [(Sample.key, creditHash, creditSignature)]

/-- Bytes travel one in a word. -/
def byteWords (bytes : List UInt8) : InstructionData := bytes.map fun byte => byte.toUInt32

def mintWords : InstructionData := 0 :: (byteWords recipient.toList ++ [1000, 0, 0, 0])

def message : CrossZoneMessage where
  srcZone := zone
  srcBlockId := 7
  srcBlockHash := .replicate 32 8
  srcTxIndex := 0
  srcProgramId := .ofWord 9
  targetProgramId := wrapped
  payload := Borsh.leWords mintWords
  l1InclusionWitness := none

def dispatchWords : InstructionData :=
  0 :: (byteWords zone.toList ++ [7, 0] ++ byteWords (replicate 32 8) ++ [0] ++
    [9, 0, 0, 0, 0, 0, 0, 0] ++ [2, 0, 0, 0, 0, 0, 0, 0] ++ [148] ++
    byteWords message.payload ++ [0])

scoped instance inboxSerde : Serde CrossZoneInbox.Instruction :=
  .ofTable [(.dispatch message, dispatchWords)]

scoped instance wrappedSerde : Serde WrappedToken.Instruction :=
  .ofTable [(.mint recipient 1000, mintWords)]

/-! The state -/

def config : WrappedTokenConfig :=
  { minter := inbox, sources := ⟨[(zone, .ofWord 9)], by decide⟩ }

def accounts : List (AccountId × Account) :=
  [ deployedAt inbox, deployedAt wrapped, deployedAt authTransfer,
    (inboxConfig, .storing inbox (replicate 32 1)),
    (wrappedConfig, .storing wrapped config.toBytes),
    (Sample.alice, { Account.ownedBy authTransfer with balance := 10 }) ]

/-- Nothing was delivered yet. -/
def fresh [Sha256] : Option V03State := V03State.new.map (·.withPublicAccounts accounts)

/-- A state in which 1000 tokens were minted. -/
def minted : V03State := .ofAccounts (accounts ++
  [ (holding, .storing wrapped (balanceBytes 1000)) ])

/-! The transactions -/

def guests [Sha256] [Serde CrossZoneInbox.Instruction] [Serde WrappedToken.Instruction]
    [Serde AuthenticatedTransfer.Instruction] (programId : ProgramId) : Guest :=
  if programId = inbox then main
  else if programId = wrapped then WrappedToken.main
  else AuthenticatedTransfer.main

def listed (accountId : AccountId) : AccountWithMetadata :=
  ⟨(accounts.lookup accountId).getD .default, false, accountId⟩

section

variable [Sha256] [Serde CrossZoneInbox.Instruction] [Serde WrappedToken.Instruction]
  [Serde AuthenticatedTransfer.Instruction]

/-- A proof of an output exists if the program returns it. -/
def verify (programId : ProgramId) (output : ProgramOutput) : Bool :=
  decide (guests programId programId output.callerProgramId output.preStates
    output.instructionData = some output)

def input : PrivacyPreservingCircuitInput where
  programOutputs :=
    (main inbox none
      [listed inboxConfig, listed seen, listed marker, listed wrappedConfig, listed holding]
      dispatchWords).toList ++
    (WrappedToken.main wrapped (some inbox)
      [listed marker, listed wrappedConfig, listed holding] mintWords).toList
  accountIdentities := replicate 5 .publicAccount
  programId := inbox
  dummyInputs :=
    [{ nullifierSeed := .replicate 32 4
       commitmentSeed := .replicate 32 5
       note := ⟨⟨[]⟩, ⟨[]⟩, 0⟩
       commitmentRoot := firstLeaf }]

def circuit : Except Circuit.Panic PrivacyPreservingCircuitOutput := Circuit.main verify input

/-- A receipt verifies for what the circuit returns. -/
scoped instance receipts : Receipts where
  isValidForCircuit _ output circuitId := decide (circuitId = .ofWord 6 ∧ circuit = .ok output)

end

def forged (output : PrivacyPreservingCircuitOutput) : LeeTransaction :=
  .privacyPreserving ⟨.fromCircuitOutput [] output, ⟨[], ⟨[]⟩⟩⟩

def creditTx : LeeTransaction := .publicTx ⟨credit, ⟨[(creditSignature, Sample.key)]⟩⟩

end Forgery

section

open scoped Idle AuthenticatedTransfer
open Forgery

/-- All that matters of the state is the configuration. -/
theorem forgery_setting {state : V03State}
    (hconfig : state.getAccountById wrappedConfig = (listed wrappedConfig).account) :
    Setting (.ofGuests guests) wrapped state where
  inboxRuns := executes_ofGuests rfl
  wrappedRuns := executes_ofGuests rfl
  inboxOwns := by decide +kernel
  wrappedOwns := by decide +kernel
  configured := by
    rw [show configAccountId wrapped = wrappedConfig by
      decide +kernel, hconfig]
    decide +kernel
  minter := by
    rw [show configAccountId wrapped = wrappedConfig by
      decide +kernel, hconfig]
    exact ⟨config, by decide +kernel, rfl⟩

/-- An outsider marks a shard and mints 1000 tokens; and anyone may pay 5 to a holding. -/
theorem forged_delivery :
    inboxSeenShardAccountId inbox zone 7 = seen ∧
      holdingAccountId wrapped recipient = holding ∧
      (∃ state output state', fresh = some state ∧ circuit = .ok output ∧
        Setting (.ofGuests guests) wrapped state ∧
        Admitted (forged output) ∧
        (forged output).executeCheckOnState (.ofGuests guests) state 0 0 = .ok state' ∧
        state.getAccountById seen = .default ∧
        (state'.getAccountById seen).programOwner = .ofProgramId inbox ∧
        state.getAccountById holding = .default ∧
        (state'.getAccountById holding).data.bytes = balanceBytes 1000) ∧
      Setting (.ofGuests guests) wrapped minted ∧
      Admitted creditTx ∧
      ∃ state', creditTx.executeCheckOnState (.ofGuests guests) minted 0 0
          = .ok state' ∧
        (minted.getAccountById holding).balance = 0 ∧
        (state'.getAccountById holding).balance = 5 := by
  refine ⟨by decide +kernel, by decide +kernel, ?_, forgery_setting (by decide +kernel),
    .user creditTx 65536 (by decide +kernel), by decide +kernel⟩
  obtain ⟨state, hfresh, output, hcircuit, hconfig, hsent, state', hstate', hends⟩ :
      ∃ state, fresh = some state ∧ ∃ output, circuit = .ok output ∧
        state.getAccountById wrappedConfig = (listed wrappedConfig).account ∧
        sendTransaction (forged output) 65536 = .ok (forged output) ∧
        ∃ state', (forged output).executeCheckOnState (.ofGuests guests) state 0 0
            = .ok state' ∧
          state.getAccountById seen = .default ∧
          (state'.getAccountById seen).programOwner = .ofProgramId inbox ∧
          state.getAccountById holding = .default ∧
          (state'.getAccountById holding).data.bytes = balanceBytes 1000 := by
    decide +kernel
  exact ⟨state, output, state', hfresh, hcircuit, forgery_setting hconfig, .user _ _ hsent,
    hstate', hends⟩

/-- The payment leaves the minted tokens as they are. -/
theorem credit_delivers_nothing :
    ∃ state', creditTx.executeCheckOnState (.ofGuests guests) minted 0 0
        = .ok state' ∧
      Kept (minted.getAccountById holding) (state'.getAccountById holding) ∧
      Kept (minted.getAccountById seen) (state'.getAccountById seen) := by
  obtain ⟨state', h⟩ : ∃ state', creditTx.executeCheckOnState (.ofGuests guests)
      minted 0 0 = .ok state' := by decide +kernel
  obtain ⟨hshards, hholdings, -⟩ := inbound_delivery (forgery_setting (by decide +kernel))
    (.user creditTx 65536 (by decide +kernel)) h
  have hholding : holdingAccountId wrapped recipient = holding := by decide +kernel
  have hseen : inboxSeenShardAccountId crossZoneInbox zone 7 = seen := by decide +kernel
  refine ⟨state', h, ?_, ?_⟩
  · rw [← hholding]
    exact hholdings recipient
      ⟨Sha256.unambiguous_ofTable (by decide +kernel) (by decide +kernel),
        fun _ _ himage => (by cases himage),
        .inl (by decide +kernel)⟩ (fun _ htx => by cases htx)
  · rw [← hseen]
    exact hshards zone 7
      ⟨Sha256.unambiguous_ofTable (by decide +kernel) (by decide +kernel),
        fun _ _ himage => (by cases himage),
        .inr (by decide +kernel)⟩ (fun _ htx => by cases htx)

end

end InboundDelivery

end Lssa
