/-
Messages from other zones are delivered once.

The inbox keeps one account per peer block, its shard, with the hash of the block and the
indices of the transactions whose messages were delivered.  The block is named by its zone
and id only, so the hash is part of what is stored: the first delivery binds the shard to
the hash it carries, and no other hash is accepted afterwards.

Whatever programs the transactions of a run call, the shard goes through a run of its own,
in which a step is one more delivery (`Records`), and the messages delivered from the block
are among the labels of that run (`run_records`).  From this,

* **`delivered_once`** — the messages delivered from a peer block carry one hash and
  different indices, and a repeated dispatch changes no account, up to nonces.

A repeated dispatch is accepted, and whoever signs it spends a nonce (`repeat_spends_nonce`).
-/
import Lssa.InboundDelivery
import Lssa.Library.Runs

open DepthFirst Runs Outcome

namespace Lssa

open Builtins (crossZoneInbox)

open PublicExecution InboundDelivery

open Sample (alice key)

namespace CrossZoneInbox

open SeenShard

/-! ### The shard by itself -/

/-- One more delivery in a shard. -/
structure Records (msg : CrossZoneMessage) (shard shard' : SeenShard) : Prop where
  binds : shard.binds msg.srcBlockHash = true
  fresh : msg.srcTxIndex ∉ shard.delivered
  recorded : shard' = ⟨msg.srcBlockHash, insert msg.srcTxIndex shard.delivered⟩

theorem Records.ne_empty {msg : CrossZoneMessage} {shard shard' : SeenShard}
    (h : Records msg shard shard') : shard' ≠ .empty := by
  rw [h.recorded]
  intro hempty
  have hdelivered := congrArg delivered hempty
  exact Finset.insert_ne_empty _ _ hdelivered

variable {shard shard' : SeenShard} {msgs : List CrossZoneMessage}

section

variable (h : Run Records shard msgs shard')

include h

/-- All deliveries of a run carry the hash that the shard ends with, and so does the shard
that the run starts with, unless it is empty. -/
theorem srcBlockHash_of_run :
    (shard ≠ .empty → shard.srcBlockHash = shard'.srcBlockHash) ∧
      ∀ msg ∈ msgs, msg.srcBlockHash = shard'.srcBlockHash := by
  induction h with
  | nil shard => exact ⟨fun _ => rfl, fun msg hmsg => absurd hmsg (by simp)⟩
  | cons hstep _ ih =>
    rename_i msg msgs before mid after _
    obtain ⟨hmid, hlater⟩ := ih
    have hhash : msg.srcBlockHash = after.srcBlockHash := by
      rw [← hmid hstep.ne_empty, hstep.recorded]
    constructor
    · intro hne
      -- a shard that is not empty binds its own hash only
      rcases of_decide_eq_true hstep.binds with hempty | hbound
      · exact absurd hempty hne
      · exact hbound.trans hhash
    · intro msg' hmsg'
      rcases mem_cons.mp hmsg' with rfl | hmsg'
      · exact hhash
      · exact hlater msg' hmsg'

theorem delivered_of_run :
    shard.delivered ⊆ shard'.delivered ∧ ∀ msg ∈ msgs, msg.srcTxIndex ∈ shard'.delivered := by
  induction h with
  | nil shard => exact ⟨Finset.Subset.refl _, fun msg hmsg => absurd hmsg (by simp)⟩
  | cons hstep _ ih =>
    rename_i msg msgs before mid after _
    obtain ⟨hsubset, hlater⟩ := ih
    have hmid : mid.delivered = insert msg.srcTxIndex before.delivered := by
      rw [hstep.recorded]
    rw [hmid] at hsubset
    refine ⟨(Finset.subset_insert _ _).trans hsubset, fun msg' hmsg' => ?_⟩
    rcases mem_cons.mp hmsg' with rfl | hmsg'
    · exact hsubset (Finset.mem_insert_self _ _)
    · exact hlater msg' hmsg'

/-- The indices are delivered once. -/
theorem nodup_of_run :
    (msgs.map (·.srcTxIndex)).Nodup := by
  have hused := h.nodup_flatMap (f := fun msg => [msg.srcTxIndex])
    (U := fun shard index => index ∈ shard.delivered) ?_ ?_ ?_
  · rw [List.map_eq_flatMap]
    exact hused.1
  · intro msg _ a b hstep
    refine ⟨List.nodup_singleton _, fun index hindex => ?_⟩
    rw [mem_singleton.mp hindex]
    exact hstep.fresh
  · intro msg _ a b hstep index hindex
    rw [mem_singleton.mp hindex, hstep.recorded]
    exact Finset.mem_insert_self _ _
  · intro msg _ a b hstep index hindex
    rw [hstep.recorded]
    exact Finset.mem_insert_of_mem hindex

end

/-! ### The account of a shard -/

variable [Sha256] [Builtins]

/-- The account of a peer block: it is the inbox's or unclaimed, and a shard is read from it. -/
structure Holds (state : V03State) (accountId : AccountId) (shard : SeenShard) : Prop where
  programOwner : (state.getAccountById accountId).programOwner
      = ofProgramId crossZoneInbox ∨
    (state.getAccountById accountId).programOwner = defaultProgramOwner
  decodes : fromBytes (state.getAccountById accountId).data.bytes = some shard

omit [Sha256] in
theorem Holds.of_kept {state state' : V03State} {accountId : AccountId}
    (h : Holds state accountId shard)
    (hkept : Kept (state.getAccountById accountId) (state'.getAccountById accountId)) :
    Holds state' accountId shard := by
  refine ⟨?_, by rw [hkept.data]; exact h.decodes⟩
  rw [hkept.programOwner]
  exact h.programOwner

omit [Sha256] in
/-- The configuration is not a shard: it is too short. -/
theorem Holds.ne_config {state : V03State} {accountId : AccountId} {config : InboxConfig}
    (h : Holds state accountId shard) {configId : AccountId}
    (hconfig : InboxConfig.fromBytes (state.getAccountById configId).data.bytes = some config) :
    accountId ≠ configId := by
  rintro rfl
  obtain ⟨selfZone, hzone, -⟩ := map_eq_some_iff.mp hconfig
  have hbytes := Borsh.Codec.fromSlice_eq_some.mp hzone
  have hlength : (state.getAccountById accountId).data.bytes.length = 32 := by
    rw [hbytes]
    exact selfZone.toList_length
  have hdecodes := h.decodes
  unfold fromBytes at hdecodes
  split at hdecodes
  · rename_i hnil
    rw [hnil] at hlength
    cases hlength
  · obtain ⟨⟨hash, indices⟩, hfields, -⟩ := map_eq_some_iff.mp hdecodes
    have hfields := congrArg List.length (Borsh.Codec.fromSlice_eq_some.mp hfields)
    rw [hlength] at hfields
    have hpair : ((Borsh.Codec.pair (Borsh.Codec.bytes 32)
        (Borsh.Codec.vec Borsh.Codec.u32)).encode (hash, indices)).length
        = 32 + (4 + (indices.val.flatMap Borsh.Codec.u32.encode).length) := by
      show (hash.toList ++ (Borsh.leBytes 4 _ ++ _)).length = _
      rw [length_append, length_append, hash.toList_length, Borsh.length_leBytes]
    omega

/-! ### What a transaction does to a shard -/

variable [Serde Instruction]

/-- The message that a public transaction asks the inbox to dispatch. -/
def dispatchedMessage (tx : PublicTransaction) : Option CrossZoneMessage :=
  if tx.message.programId = crossZoneInbox then
    match fromWords tx.message.instructionData with
    | some (Instruction.dispatch msg) => some msg
    | _ => none
  else none

omit [Sha256] in
theorem dispatchedMessage_eq_some {tx : PublicTransaction} {msg : CrossZoneMessage} :
    dispatchedMessage tx = some msg ↔ tx.message.programId = crossZoneInbox ∧
      fromWords tx.message.instructionData = some (Instruction.dispatch msg) := by
  unfold dispatchedMessage
  split
  · rename_i hroot
    split
    · rename_i hdecodes
      simp [hroot, hdecodes]
    · rename_i hother
      refine iff_of_false (by simp) fun ⟨_, hdecodes⟩ => hother msg hdecodes
  · rename_i hroot
    simp [hroot]

/-- The message that a transaction delivers: the one it dispatches, if the inbox goes on to
call its target. -/
def deliveredMessage (exec : Executor) (tx : PublicTransaction) (state : V03State)
    (blockId : BlockId) (timestamp : Timestamp) : Option CrossZoneMessage :=
  if ∃ v ∈ callTree exec tx state blockId timestamp,
      v.call.2.programId = some crossZoneInbox
  then dispatchedMessage tx else none

variable {exec : Executor} {tx : PublicTransaction} {state state' : V03State} {blockId : BlockId}
  {timestamp : Timestamp} {msg : CrossZoneMessage}

/-- The inbox asks for the call of the target in its own call, which is the first. -/
theorem chainedCalls_of_delivered (hinbox : Executes exec crossZoneInbox main)
    (h : deliveredMessage exec tx state blockId timestamp = some msg) {output : ProgramOutput}
    (houtput : execute exec state (firstCall state tx) = .ok output) :
    dispatchedMessage tx = some msg ∧ output.chainedCalls ≠ [] := by
  unfold deliveredMessage at h
  split at h
  · rename_i hcalls
    obtain ⟨v, hv, hcaller⟩ := hcalls
    refine ⟨h, ?_⟩
    obtain ⟨chained, hmem, -⟩ :=
      mem_map.mp ((inbox_uncalled hinbox).mem_nextCalls hv hcaller houtput)
    exact List.ne_nil_of_mem hmem
  · cases h

variable {diff diff' : Diff} {call : Call} {output : ProgramOutput} {accountId : AccountId}

omit [Builtins] [Serde Instruction] in
/-- Accounts that a call returns as it found them are left as they are. -/
theorem overlay_of_unchanged (hstep : Step exec state blockId timestamp diff call output diff')
    (hposts : ∀ pre post, (pre, post) ∈ output.preStates.zip output.postStates →
      pre.accountId = accountId → post = unchanged pre) :
    overlay state diff' accountId = overlay state diff accountId := by
  rcases hstep.effect accountId with heq | ⟨pre, post, hpair, rfl, hpre, -⟩
  · exact heq
  · rw [hposts pre post hpair rfl] at hpair
    rw [hstep.overlay_new hpair, hpre]

omit [Sha256] [Builtins] [Serde Instruction] in
theorem eq_unchanged_of_mem_zip {preStates : List AccountWithMetadata} {pre : AccountWithMetadata}
    {post : AccountPostState} (h : (pre, post) ∈ preStates.zip (preStates.map unchanged)) :
    post = unchanged pre := by
  rw [← List.map_prod_left_eq_zip] at h
  obtain ⟨pre', -, heq⟩ := mem_map.mp h
  obtain ⟨rfl, rfl⟩ := Prod.mk.inj heq
  rfl

variable {config seen marker : AccountWithMetadata} {targetAccounts : List AccountWithMetadata}
  {programId : ProgramId}

section

variable (h : Dispatched programId output msg shard config seen marker targetAccounts)

include h

omit [Builtins] [Serde Instruction] in
/-- The shard of a dispatch is the one in the account. -/
theorem Dispatched.read
    (hstep : Step exec state blockId timestamp ∅ call output diff') :
    fromBytes (state.getAccountById seen.accountId).data.bytes = some shard := by
  rw [← overlay_empty state, ← hstep.consistent seen (by simp [h.preStates])]
  exact h.decodes

omit [Builtins] [Serde Instruction] in
/-- A dispatch returns all accounts but the shard as it found them. -/
theorem Dispatched.unchanged_beside {pre : AccountWithMetadata} {post : AccountPostState}
    (hpair : (pre, post) ∈ output.preStates.zip output.postStates)
    (hne : pre.accountId ≠ seen.accountId) : post = unchanged pre := by
  rw [h.preStates] at hpair
  cases h.dispatches with
  | replayed _ hposts _ =>
    rw [hposts] at hpair
    exact eq_unchanged_of_mem_zip hpair
  | delivered data _ _ hposts _ =>
    rw [hposts] at hpair
    simp only [zip_cons_cons, mem_cons, Prod.mk.injEq] at hpair
    rcases hpair with ⟨rfl, rfl⟩ | ⟨rfl, -⟩ | ⟨rfl, rfl⟩ | hpair
    · rfl
    · exact absurd rfl hne
    · rfl
    · exact eq_unchanged_of_mem_zip hpair

omit [Builtins] [Serde Instruction] in
/-- No call of the inbox comes with a PDA of the inbox. -/
theorem Dispatched.pdaSeeds {chained : ChainedCall} (hchained : chained ∈ output.chainedCalls) :
    chained.pdaSeeds = [] := by
  cases h.dispatches with
  | replayed _ _ hcalls =>
    rw [hcalls] at hchained
    cases hchained
  | delivered data _ _ _ hcalls =>
    rw [hcalls] at hchained
    rw [mem_singleton.mp hchained]

end

/-- What the inbox does with the message that a transaction asks it to dispatch. -/
theorem dispatched_of_message (hinbox : Executes exec crossZoneInbox main)
    (hmessage : dispatchedMessage tx = some msg)
    (houtput : execute exec state (firstCall state tx) = .ok output) :
    ∃ shard config seen marker targetAccounts,
      Dispatched crossZoneInbox output msg shard config seen marker targetAccounts := by
  obtain ⟨hroot, hwords⟩ := dispatchedMessage_eq_some.mp hmessage
  rcases main_ok (hinbox.of_execute hroot houtput) with
    ⟨msg', hdecodes, hdispatched⟩ | ⟨⟨_, hdecodes⟩, -⟩
  · obtain rfl := Instruction.dispatch.inj (some.inj (hdecodes.symm.trans hwords))
    exact hdispatched
  · exact absurd (some.inj (hdecodes.symm.trans hwords)) (by simp)

/-- The inbox, and the account of one peer block. -/
structure Shelf (exec : Executor) (accountId : AccountId) (seed : PdaSeed) : Prop where
  runs : Executes exec crossZoneInbox main
  owns : ofProgramId crossZoneInbox ≠ defaultProgramOwner
  pda : forPublicPda crossZoneInbox seed = accountId
  unambiguous : Sha256.Unambiguous accountId.value
  apart : accountId ≠ inboxConfigAccountId crossZoneInbox

/-- The first call of a transaction leaves the account alone: if it is the inbox's, the account
is returned as it was found, and no call comes with a PDA. -/
def Leaves (tx : PublicTransaction) (output : ProgramOutput) (accountId : AccountId) : Prop :=
  tx.message.programId = crossZoneInbox →
    (∀ pre post, (pre, post) ∈ output.preStates.zip output.postStates →
      pre.accountId = accountId → post = unchanged pre) ∧
    ∀ chained ∈ output.chainedCalls, chained.pdaSeeds = []

variable {seed : PdaSeed} {stateDiff : StateDiff}

/-- What the first call of a transaction does to a shard: it leaves it alone, and then does not
go on to deliver a message of the shard, or it records a message. -/
theorem Shelf.first (h : Shelf exec accountId seed)
    (hstep : Step exec state blockId timestamp ∅ (firstCall state tx) output diff)
    (hholds : Holds state accountId shard) :
    (Leaves tx output accountId ∧
      ∀ msg, dispatchedMessage tx = some msg → output.chainedCalls ≠ [] →
        inboxSeenShardAccountId crossZoneInbox msg.srcZone msg.srcBlockId ≠ accountId) ∨
    ∃ msg seen data claim, dispatchedMessage tx = some msg ∧
      Records msg shard (shard.insert msg.srcBlockHash msg.srcTxIndex) ∧
      Data.tryFrom (shard.insert msg.srcBlockHash msg.srcTxIndex).toBytes = some data ∧
      seen.accountId = accountId ∧
      (seen, .newClaimedIfDefault { seen.account with data } claim)
        ∈ output.preStates.zip output.postStates := by
  by_cases hroot : tx.message.programId = crossZoneInbox
  swap
  · -- another program: the inbox does not run
    refine .inl ⟨fun hinbox => absurd hinbox hroot, fun msg hmsg _ => ?_⟩
    exact absurd (dispatchedMessage_eq_some.mp hmsg).1 hroot
  rcases main_ok (h.runs.of_execute hroot hstep.executed) with
    ⟨msg, hdecodes, shard₀, config, seen, marker, targetAccounts, hdispatched⟩ |
    ⟨⟨config, hdecodes⟩, hconfigured⟩
  swap
  · -- a configuration: the shard is not listed
    refine .inl ⟨fun _ => ⟨fun pre post hpair hid => ?_, fun chained hchained => ?_⟩,
      fun msg hmsg _ => ?_⟩
    · have hmem := mem_map_of_mem (f := (·.accountId)) (of_mem_zip hpair).1
      rw [hconfigured.preStates] at hmem
      exact absurd (hid.symm.trans (mem_singleton.mp hmem)) h.apart
    · rw [hconfigured.chainedCalls] at hchained
      cases hchained
    · have hother := (dispatchedMessage_eq_some.mp hmsg).2
      exact absurd (some.inj (hdecodes.symm.trans hother)) (by simp)
  have hmessage : dispatchedMessage tx = some msg := dispatchedMessage_eq_some.mpr ⟨hroot, hdecodes⟩
  by_cases hseen : seen.accountId = accountId
  swap
  · -- a message from another block
    refine .inl ⟨fun _ => ⟨fun pre post hpair hid => ?_,
      fun chained hchained => hdispatched.pdaSeeds hchained⟩, fun msg' hmsg' _ => ?_⟩
    · exact hdispatched.unchanged_beside hpair fun hsame => hseen (hsame.symm.trans hid)
    · rw [some.inj (hmsg'.symm.trans hmessage), ← hdispatched.seenId]
      exact hseen
  obtain rfl : shard₀ = shard :=
    some.inj ((hdispatched.read hstep).symm.trans (hseen ▸ hholds.decodes))
  cases hdispatched.dispatches with
  | replayed hcontained hposts hcalls =>
    refine .inl ⟨fun _ => ⟨fun pre post hpair _ => ?_,
      fun chained hchained => hdispatched.pdaSeeds hchained⟩, fun msg' _ hsome => ?_⟩
    · rw [hdispatched.preStates, hposts] at hpair
      exact eq_unchanged_of_mem_zip hpair
    · exact absurd hcalls hsome
  | delivered data hfresh hstored hposts hcalls =>
    have hrecords : Records msg shard₀ (shard₀.insert msg.srcBlockHash msg.srcTxIndex) :=
      ⟨hdispatched.binds, hfresh, if_pos hdispatched.binds⟩
    refine .inr ⟨msg, seen, data, .pda (inboxSeenShardSeed msg.srcZone msg.srcBlockId), hmessage,
      hrecords, hstored, hseen, ?_⟩
    rw [hdispatched.preStates, hposts]
    exact mem_cons_of_mem _ mem_cons_self

variable [Schnorr]

section

variable (h : Shelf exec accountId seed)
  (haccepted : Accepted exec tx state blockId timestamp stateDiff)
  (happly : state.applyStateDiff stateDiff = some state') (hholds : Holds state accountId shard)

include h haccepted happly hholds

/-- A transaction whose first call leaves the account alone keeps it. -/
theorem Shelf.kept
    (houtput : execute exec state (firstCall state tx) = .ok output)
    (hleaves : Leaves tx output accountId) : Holds state' accountId shard := by
  -- wherever the inbox runs, it runs first
  have hfirst : ∀ v ∈ callTree exec tx state blockId timestamp,
      v.call.1.programId = crossZoneInbox →
        tx.message.programId = crossZoneInbox ∧ v.result = output := by
    intro v hv hprogram
    have hcall := (inbox_uncalled h.runs).first hv hprogram
    have hexecuted := (callTree_step hv).executed
    rw [hcall] at hexecuted hprogram
    exact ⟨hprogram, ok.inj (hexecuted.symm.trans houtput)⟩
  refine hholds.of_kept (haccepted.kept happly h.unambiguous h.pda h.owns hholds.programOwner ?_ ?_)
  · intro v hv hprogram chained hchained
    obtain ⟨hroot, hresult⟩ := hfirst v hv hprogram
    rw [hresult] at hchained
    rw [(hleaves hroot).2 chained hchained]
    simp
  · intro v hv hprogram
    obtain ⟨hroot, hresult⟩ := hfirst v hv hprogram
    have hstep := callTree_step hv
    rw [hresult] at hstep
    rw [overlay_of_unchanged hstep (hleaves hroot).1]
    exact .refl _

/-- A message that the first call of the inbox records stays recorded: the shard is claimed
then, and the calls that follow keep it. -/
theorem Shelf.recorded (hroot : tx.message.programId = crossZoneInbox)
    (hstep : Step exec state blockId timestamp ∅ (firstCall state tx) output diff)
    (hrest : (machine exec state blockId timestamp).run maxNumberChainedCalls
      (nextCalls (firstCall state tx) output) diff = .ok stateDiff.publicDiff)
    {data : Data} {claim : Claim} (hstored : Data.tryFrom shard'.toBytes = some data)
    (hseen : seen.accountId = accountId)
    (hpair : (seen, .newClaimedIfDefault { seen.account with data } claim)
      ∈ output.preStates.zip output.postStates) : Holds state' accountId shard' := by
  have haccount : seen.account = state.getAccountById accountId := by
    rw [hstep.consistent seen (of_mem_zip hpair).1, hseen, overlay_empty]
  have hmid := hstep.overlay_newClaimedIfDefault hpair
  rw [hseen] at hmid
  have howner : (overlay state diff accountId).programOwner
      = .ofProgramId crossZoneInbox := by
    rw [hmid]
    show (if seen.account.programOwner = defaultProgramOwner then
      ofProgramId tx.message.programId else seen.account.programOwner) = _
    rw [hroot, haccount]
    split
    · rfl
    · rename_i howned
      exact hholds.programOwner.resolve_right howned
  have hkept := (inbox_uncalled h.runs).run_kept h.owns hrest called_of_nextCalls howner
  have hfinal := haccepted.getAccountById_pda happly h.unambiguous h.pda
  refine ⟨.inl ?_, ?_⟩
  · rw [hfinal, hkept.programOwner, howner]
  · rw [hfinal, hkept.data, hmid]
    exact fromBytes_toBytes hstored

end

/-- **What a transaction does to a shard.**  It keeps it, or records the message that it
dispatches; and then only does it deliver a message of the shard. -/
theorem Shelf.step (h : Shelf exec accountId seed)
    (htransition : transitionFromPublicTransaction exec state tx blockId timestamp = .ok state')
    (hholds : Holds state accountId shard) :
    (Holds state' accountId shard ∧
      ∀ msg, deliveredMessage exec tx state blockId timestamp = some msg →
        inboxSeenShardAccountId crossZoneInbox msg.srcZone msg.srcBlockId ≠ accountId) ∨
    ∃ msg shard', dispatchedMessage tx = some msg ∧ Records msg shard shard' ∧
      Holds state' accountId shard' := by
  obtain ⟨stateDiff, haccepted, happly⟩ := transitionFromPublicTransaction_ok htransition
  obtain ⟨output, mid, hstep, hrest⟩ := haccepted.first
  rcases h.first hstep hholds with
    ⟨hleaves, hothers⟩ | ⟨msg, seen, data, claim, hmessage, hrecords, hstored, hseen, hpair⟩
  · refine .inl ⟨h.kept haccepted happly hholds hstep.executed hleaves, fun msg hmsg => ?_⟩
    obtain ⟨hmessage, hcalls⟩ := chainedCalls_of_delivered h.runs hmsg hstep.executed
    exact hothers msg hmessage hcalls
  · refine .inr ⟨msg, _, hmessage, hrecords, ?_⟩
    exact h.recorded haccepted happly hholds (dispatchedMessage_eq_some.mp hmessage).1 hstep hrest
      hstored hseen hpair

/-! ### Runs -/

/-- A public transaction that is accepted, and the message that it delivers. -/
structure Turn where
  tx : PublicTransaction
  blockId : BlockId
  timestamp : Timestamp
  delivered : Option CrossZoneMessage

def Transacts (exec : Executor) (turn : Turn) (state state' : V03State) : Prop :=
  transitionFromPublicTransaction exec state turn.tx turn.blockId turn.timestamp = .ok state' ∧
    turn.delivered = deliveredMessage exec turn.tx state turn.blockId turn.timestamp

/-- The messages delivered from one peer block, in order. -/
def deliveries (turns : List Turn) (srcZone : ZoneId) (srcBlockId : U64) : List CrossZoneMessage :=
  (turns.filterMap (·.delivered)).filter fun msg =>
    msg.srcZone = srcZone ∧ msg.srcBlockId = srcBlockId

omit [Sha256] [Builtins] [Serde Instruction] [Schnorr] in
theorem deliveries_cons (turn : Turn) (turns : List Turn) (srcZone : ZoneId) (srcBlockId : U64) :
    deliveries (turn :: turns) srcZone srcBlockId
      = turn.delivered.toList.filter (fun msg =>
          msg.srcZone = srcZone ∧ msg.srcBlockId = srcBlockId)
        ++ deliveries turns srcZone srcBlockId := by
  unfold deliveries
  rw [← filter_append, List.filterMap_cons]
  cases turn.delivered <;> rfl

/-- **A run of transactions is a run of the shard**, and the messages delivered from the block
are among those that the shard records. -/
theorem run_records {srcZone : ZoneId} {srcBlockId : U64}
    (h : Shelf exec (inboxSeenShardAccountId crossZoneInbox srcZone srcBlockId) seed)
    {turns : List Turn} (hrun : Run (Transacts exec) state turns state')
    (hholds : Holds state (inboxSeenShardAccountId crossZoneInbox srcZone srcBlockId) shard) :
    ∃ shard' recorded, Run Records shard recorded shard' ∧
      Holds state' (inboxSeenShardAccountId crossZoneInbox srcZone srcBlockId) shard' ∧
      (deliveries turns srcZone srcBlockId).Sublist recorded := by
  induction hrun generalizing shard with
  | nil state => exact ⟨shard, [], .nil shard, hholds, List.nil_sublist _⟩
  | cons hturn _ ih =>
    rename_i turn turns _ _ _ _
    obtain ⟨htransition, hdelivered⟩ := hturn
    rw [deliveries_cons]
    rcases h.step htransition hholds with ⟨hkept, hothers⟩ | ⟨msg, mid, hmessage, hrecords, hmid⟩
    · obtain ⟨shard', recorded, hrecorded, hend, hsublist⟩ := ih hkept
      refine ⟨shard', recorded, hrecorded, hend, ?_⟩
      -- what this turn delivers is from another block
      have hnone : turn.delivered.toList.filter (fun msg =>
          msg.srcZone = srcZone ∧ msg.srcBlockId = srcBlockId) = [] := by
        refine List.filter_eq_nil_iff.mpr fun msg hmsg => ?_
        rw [hdelivered] at hmsg
        intro hsource
        obtain ⟨rfl, rfl⟩ := of_decide_eq_true hsource
        exact hothers msg (Option.mem_toList.mp hmsg) rfl
      rw [hnone]
      exact hsublist
    · obtain ⟨shard', recorded, hrecorded, hend, hsublist⟩ := ih hmid
      refine ⟨shard', msg :: recorded, .cons hrecords hrecorded, hend, ?_⟩
      show List.Sublist (_ ++ _) ([msg] ++ recorded)
      refine List.Sublist.append ?_ hsublist
      refine List.filter_sublist.trans ?_
      rw [hdelivered]
      unfold deliveredMessage
      split
      · rw [hmessage]
        exact List.Sublist.refl _
      · exact List.nil_sublist _

/-- A transaction that delivers a message finds a shard for it: nobody else owns the account, as
what is written there differs from what is read. -/
theorem holds_of_delivered (hinbox : Executes exec crossZoneInbox main)
    (htransition : transitionFromPublicTransaction exec state tx blockId timestamp = .ok state')
    (h : deliveredMessage exec tx state blockId timestamp = some msg) :
    inboxSeenShardAccountId crossZoneInbox msg.srcZone msg.srcBlockId
        ≠ inboxConfigAccountId crossZoneInbox ∧
      ∃ shard, Holds state
        (inboxSeenShardAccountId crossZoneInbox msg.srcZone msg.srcBlockId) shard := by
  obtain ⟨stateDiff, haccepted, -⟩ := transitionFromPublicTransaction_ok htransition
  obtain ⟨output, mid, hstep, -⟩ := haccepted.first
  obtain ⟨hmessage, hcalled⟩ := chainedCalls_of_delivered hinbox h hstep.executed
  obtain ⟨shard, config, seen, marker, targetAccounts, hdispatched⟩ :=
    dispatched_of_message hinbox hmessage hstep.executed
  have hnodup := hstep.validExecution.nodup
  rw [hdispatched.preStates, map_cons, List.nodup_cons, map_cons] at hnodup
  rw [← hdispatched.seenId, ← hdispatched.configId]
  refine ⟨fun hsame => hnodup.1 (hsame ▸ mem_cons_self), shard, ?_, hdispatched.read hstep⟩
  cases hdispatched.dispatches with
  | replayed _ _ hcalls => exact absurd hcalls hcalled
  | delivered data hfresh hstored hposts _ =>
    have hdata : data ≠ seen.account.data := by
      rintro rfl
      have hsame := some.inj ((fromBytes_toBytes hstored).symm.trans hdispatched.decodes)
      rw [← hsame, SeenShard.insert, if_pos hdispatched.binds] at hfresh
      exact hfresh (Finset.mem_insert_self _ _)
    have hvalid := hstep.validExecution.account (seen, _)
      (by rw [hdispatched.preStates, hposts]; exact mem_cons_of_mem _ mem_cons_self)
    rw [← overlay_empty state, ← hstep.consistent seen (by simp [hdispatched.preStates])]
    -- who writes owns the account, or nobody does
    rcases hvalid.data hdata with hdefault | howned
    · rw [hdefault]
      exact .inr rfl
    · exact .inl (howned.trans (congrArg ofProgramId (dispatchedMessage_eq_some.mp hmessage).1))

/-- From the first delivery on, a run is a run of the shard. -/
theorem run_delivers (hinbox : Executes exec crossZoneInbox main)
    (howns : ofProgramId crossZoneInbox ≠ defaultProgramOwner) {srcZone : ZoneId}
    {srcBlockId : U64}
    (hsafe : Sha256.Unambiguous (inboxSeenShardAccountId crossZoneInbox srcZone srcBlockId).value)
    {turns : List Turn} (hrun : Run (Transacts exec) state turns state') :
    ∃ shard shard' recorded, Run Records shard recorded shard' ∧
      (deliveries turns srcZone srcBlockId).Sublist recorded ∧
      ∀ msg ∈ deliveries turns srcZone srcBlockId,
        Holds state' (inboxSeenShardAccountId crossZoneInbox srcZone srcBlockId) shard' := by
  induction hrun with
  | nil state => exact ⟨.empty, _, [], .nil _, List.nil_sublist _, fun _ hmsg => by cases hmsg⟩
  | cons hturn hrest ih =>
    rename_i turn turns _ _ _
    cases hmsgs : turn.delivered.toList.filter (fun msg =>
        msg.srcZone = srcZone ∧ msg.srcBlockId = srcBlockId) with
    | nil =>
      -- nothing is delivered yet
      rw [deliveries_cons, hmsgs]
      exact ih
    | cons msg _ =>
      obtain ⟨hmsg, hsource⟩ := List.mem_filter.mp (hmsgs ▸ mem_cons_self : msg ∈ _)
      obtain ⟨rfl, rfl⟩ := of_decide_eq_true hsource
      obtain ⟨hapart, shard, hholds⟩ := holds_of_delivered hinbox hturn.1
        (hturn.2.symm.trans (Option.mem_toList.mp hmsg))
      obtain ⟨shard', recorded, hrecorded, hend, hsublist⟩ :=
        run_records ⟨hinbox, howns, rfl, hsafe, hapart⟩ (.cons hturn hrest) hholds
      exact ⟨shard, shard', recorded, hrecorded, hsublist, fun _ _ => hend⟩

/-! ### Repeated dispatches -/

/-- **A repeated dispatch changes no account**, the nonces of its signers apart, and delivers
nothing. -/
theorem repeated_dispatch (hinbox : Executes exec crossZoneInbox main)
    (htransition : transitionFromPublicTransaction exec state tx blockId timestamp = .ok state')
    (hmessage : dispatchedMessage tx = some msg)
    (hholds : Holds state (inboxSeenShardAccountId crossZoneInbox msg.srcZone msg.srcBlockId) shard)
    (hcontained : msg.srcTxIndex ∈ shard.delivered) :
    deliveredMessage exec tx state blockId timestamp = none ∧
      ∀ accountId, SameFunds (state'.getAccountById accountId) (state.getAccountById accountId) ∧
        (accountId ∉ tx.signerAccountIds →
          state'.getAccountById accountId = state.getAccountById accountId) := by
  obtain ⟨stateDiff, haccepted, happly⟩ := transitionFromPublicTransaction_ok htransition
  obtain ⟨output, mid, hstep, hrest⟩ := haccepted.first
  obtain ⟨shard₀, config, seen, marker, targetAccounts, hdispatched⟩ :=
    dispatched_of_message hinbox hmessage hstep.executed
  obtain rfl : shard₀ = shard :=
    some.inj ((hdispatched.read hstep).symm.trans (hdispatched.seenId ▸ hholds.decodes))
  cases hdispatched.dispatches with
  | delivered data hfresh _ _ _ => exact absurd hcontained hfresh
  | replayed _ hposts hcalls =>
    constructor
    · by_contra hsome
      obtain ⟨msg', hmsg'⟩ := Option.ne_none_iff_exists'.mp hsome
      exact (chainedCalls_of_delivered hinbox hmsg' hstep.executed).2 hcalls
    · intro accountId
      -- nothing is called, and everything is returned as it was found
      have hdiff : stateDiff.publicDiff = mid := by
        rw [nextCalls, hcalls, map_nil, Machine.run_nil] at hrest
        exact (ok.inj hrest).symm
      have hsame : overlay state mid accountId = state.getAccountById accountId := by
        rw [overlay_of_unchanged hstep, overlay_empty]
        intro pre post hpair _
        rw [hdispatched.preStates, hposts] at hpair
        exact eq_unchanged_of_mem_zip hpair
      have hfunds := applyStateDiff_funds happly haccepted.program accountId
      rw [hdiff, hsame, haccepted.signers] at hfunds
      exact hfunds

omit [Builtins] [Serde Instruction] [Schnorr] in
/-- A shard that is full aborts the dispatch. -/
theorem deliver_eq_none (hfresh : msg.srcTxIndex ∉ shard.delivered)
    (hfull : maxDeliveries < (shard.insert msg.srcBlockHash msg.srcTxIndex).delivered.card)
    (seen marker : AccountWithMetadata) (targetAccounts : List AccountWithMetadata) :
    deliver msg shard seen marker targetAccounts = none := by
  have hnone : Data.tryFrom (shard.insert msg.srcBlockHash msg.srcTxIndex).toBytes = none := by
    rw [← Option.not_isSome_iff_eq_none, tryFrom_toBytes_isSome]
    omega
  have hcontains : ¬shard.contains msg.srcTxIndex = true :=
    fun hcontains => hfresh (of_decide_eq_true hcontains)
  rw [deliver, if_neg hcontains, hnone]
  rfl

/-! ### At most once -/

/-- **Messages from a peer block are delivered once, and from one block.**  Take any run of
public transactions, whatever programs they call, from a state in which the inbox is
configured.  The messages that were delivered carry the same hash and different indices; the
account of the peer block, if it held a shard, holds one that has them; a dispatch of one of them
that is accepted again delivers nothing and changes no account, the nonces of its signers apart.
What fits into an account reads back, which is so up to `maxDeliveries`, and beyond that nothing
is delivered. -/
theorem delivered_once (hinbox : Executes exec crossZoneInbox main)
    (howns : ofProgramId crossZoneInbox ≠ defaultProgramOwner)
    {config : InboxConfig} {srcZone : ZoneId} {srcBlockId : U64} {turns : List Turn}
    (hconfigured : InboxConfig.fromBytes (state.getAccountById
      (inboxConfigAccountId crossZoneInbox)).data.bytes = some config)
    (hsafe : Sha256.Unambiguous (inboxSeenShardAccountId crossZoneInbox srcZone srcBlockId).value)
    (hrun : Run (Transacts exec) state turns state') :
    (∀ msg ∈ deliveries turns srcZone srcBlockId, ∀ msg' ∈ deliveries turns srcZone srcBlockId,
        msg.srcBlockHash = msg'.srcBlockHash) ∧
      ((deliveries turns srcZone srcBlockId).map (·.srcTxIndex)).Nodup ∧
      (∀ shard, Holds state (inboxSeenShardAccountId crossZoneInbox srcZone srcBlockId) shard →
        ∃ shard',
          Holds state' (inboxSeenShardAccountId crossZoneInbox srcZone srcBlockId) shard' ∧
          ∀ msg ∈ deliveries turns srcZone srcBlockId,
            msg.srcBlockHash = shard'.srcBlockHash ∧ msg.srcTxIndex ∈ shard'.delivered) ∧
      (∀ tx blockId timestamp state'' msg,
        transitionFromPublicTransaction exec state' tx blockId timestamp = .ok state'' →
        dispatchedMessage tx = some msg → msg.srcZone = srcZone → msg.srcBlockId = srcBlockId →
        msg.srcTxIndex ∈ (deliveries turns srcZone srcBlockId).map (·.srcTxIndex) →
          deliveredMessage exec tx state' blockId timestamp = none ∧
          ∀ accountId,
            SameFunds (state''.getAccountById accountId) (state'.getAccountById accountId) ∧
            (accountId ∉ tx.signerAccountIds →
              state''.getAccountById accountId = state'.getAccountById accountId)) ∧
      ∀ shard : SeenShard,
        (shard.delivered.card ≤ maxDeliveries →
          ∃ data, Data.tryFrom shard.toBytes = some data ∧ fromBytes data.bytes = some shard) ∧
        ∀ msg seen marker targetAccounts, msg.srcTxIndex ∉ shard.delivered →
          maxDeliveries < (shard.insert msg.srcBlockHash msg.srcTxIndex).delivered.card →
            deliver msg shard seen marker targetAccounts = none := by
  obtain ⟨shard, shard', recorded, hrecorded, hsublist, hend⟩ :=
    run_delivers hinbox howns hsafe hrun
  have hhash := (srcBlockHash_of_run hrecorded).2
  refine ⟨fun msg hmsg msg' hmsg' => ?_, (nodup_of_run hrecorded).sublist (hsublist.map _),
    fun shard hholds => ?_, ?_, ?_⟩
  · rw [hhash msg (hsublist.subset hmsg), hhash msg' (hsublist.subset hmsg')]
  · obtain ⟨shard', recorded, hrecorded, hend, hsublist⟩ :=
      run_records ⟨hinbox, howns, rfl, hsafe, hholds.ne_config hconfigured⟩ hrun hholds
    exact ⟨shard', hend, fun msg hmsg => ⟨(srcBlockHash_of_run hrecorded).2 msg
      (hsublist.subset hmsg), (delivered_of_run hrecorded).2 msg (hsublist.subset hmsg)⟩⟩
  · rintro tx blockId timestamp state'' msg htransition hmessage rfl rfl hindex
    obtain ⟨msg', hmsg', heq⟩ := mem_map.mp hindex
    have hcontained := (delivered_of_run hrecorded).2 msg' (hsublist.subset hmsg')
    rw [heq] at hcontained
    exact repeated_dispatch hinbox htransition hmessage (hend msg' hmsg') hcontained
  · intro shard
    refine ⟨fun hfits => ?_, fun msg seen marker targetAccounts hfresh hfull =>
      deliver_eq_none hfresh hfull seen marker targetAccounts⟩
    obtain ⟨data, hdata⟩ := isSome_iff_exists.mp (tryFrom_toBytes_isSome.mpr hfits)
    exact ⟨data, hdata, fromBytes_toBytes hdata⟩

end CrossZoneInbox

/-! A delivery, and the same dispatch once more.  The first is unsigned, as those of the
sequencer are; the second is signed by `alice`.  Accounts and digests are those of the forged
delivery, which is genuine here. -/

namespace Again

open CrossZoneInbox Forgery
open scoped Idle AuthenticatedTransfer

def accountIds : List AccountId := [inboxConfig, seen, marker, wrappedConfig, holding]

def delivery : PublicTransaction := ⟨⟨inbox, accountIds, [], dispatchWords⟩, ⟨[]⟩⟩

def again : PublicTransaction.Message := ⟨inbox, accountIds, [⟨0⟩], dispatchWords⟩

def againHash : Bytes 32 :=
  ofHex 0xa522643cdaca935bb4e0bde6bd6f6bc4a049c88abdd62f62ead1de89e500fea6

def againSignature : Signature := .ofHex
  0xe563eec59ce801e74b9937189e7d3d78ef1fca1921d2704b7758337cacce1832
  0x9c0fec36eed3cb9438f21defe8d517720c075ed0a06eef7315153f955c26dd4b

def againTx : PublicTransaction := ⟨again, ⟨[(againSignature, key)]⟩⟩

scoped instance sha : Sha256 := .ofTable (digests ++ [(again.hashBytes, againHash)])

scoped instance schnorr : Schnorr := .ofTable [(key, againHash, againSignature)]

def exec : Executor := .ofGuests Forgery.guests

/-- Nothing was delivered yet. -/
def state : V03State := .ofAccounts accounts

def first : Turn := ⟨delivery, 0, 0, some message⟩

def second : Turn := ⟨againTx, 1, 0, none⟩

end Again

namespace CrossZoneInbox

open scoped Idle AuthenticatedTransfer Forgery
open Again
open Forgery (message zone)

/-- Both dispatches are accepted, and the nonce of `alice` is spent. -/
theorem again_accepted :
    ∃ mid, transitionFromPublicTransaction exec state delivery 0 0 = .ok mid ∧
      deliveredMessage exec delivery state 0 0 = some message ∧
      ∃ state', transitionFromPublicTransaction exec mid againTx 1 0 = .ok state' ∧
        deliveredMessage exec againTx mid 1 0 = none ∧
        (mid.getAccountById alice).nonce ≠ (state'.getAccountById alice).nonce := by
  decide +kernel

/-- A repeated dispatch is not without effect: the one who signs it spends a nonce. -/
theorem repeat_spends_nonce :
    InboxConfig.fromBytes (state.getAccountById
        (inboxConfigAccountId crossZoneInbox)).data.bytes
      = some ⟨.replicate 32 1⟩ ∧
    first.delivered = some message ∧
    dispatchedMessage second.tx = some message ∧
    ∃ mid state', Transacts exec first state mid ∧
      Transacts exec second mid state' ∧
      state'.getAccountById alice ≠ mid.getAccountById alice := by
  refine ⟨by decide +kernel, rfl, by decide +kernel, ?_⟩
  obtain ⟨mid, hmid, hfirst, state', hstate', hsecond, hnonce⟩ := again_accepted
  refine ⟨mid, state', ⟨hmid, hfirst.symm⟩, ⟨hstate', hsecond.symm⟩, fun hsame => hnonce ?_⟩
  rw [hsame]

/-- The message is delivered by the first of the two dispatches only. -/
theorem dispatched_twice :
    deliveries [first, second] zone 7 = [message] ∧
      ∃ state', Run (Transacts exec) state [first, second] state' ∧
        ∃ shard', Holds state'
            (inboxSeenShardAccountId crossZoneInbox zone 7) shard' ∧
          message.srcTxIndex ∈ shard'.delivered := by
  have hdeliveries : deliveries [first, second] zone 7 = [message] := by
    decide +kernel
  obtain ⟨mid, hmid, hfirst, state', hstate', hsecond, -⟩ := again_accepted
  have hrun : Run (Transacts exec) state [first, second] state' :=
    .cons ⟨hmid, hfirst.symm⟩ (.cons ⟨hstate', hsecond.symm⟩ (.nil state'))
  have hholds : Holds state
      (inboxSeenShardAccountId crossZoneInbox zone 7) .empty :=
    ⟨.inr (by decide +kernel), by decide +kernel⟩
  have hconfigured : InboxConfig.fromBytes (state.getAccountById
      (inboxConfigAccountId crossZoneInbox)).data.bytes
      = some ⟨.replicate 32 1⟩ := by decide +kernel
  have hsafe : Sha256.Unambiguous
      (inboxSeenShardAccountId crossZoneInbox zone 7).value :=
    Sha256.unambiguous_ofTable (by decide +kernel) (by decide +kernel)
  obtain ⟨-, -, hshards, -⟩ :=
    delivered_once (executes_ofGuests rfl) (by decide +kernel) hconfigured hsafe hrun
  obtain ⟨shard', hend, hshard'⟩ := hshards _ hholds
  refine ⟨hdeliveries, state', hrun, shard', hend, (hshard' _ ?_).2⟩
  rw [hdeliveries]
  exact List.mem_singleton_self _

end CrossZoneInbox

end Lssa
