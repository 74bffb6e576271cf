/-
Paying out a release.

Once a request is accepted, the sequencer makes a transaction that releases the stake to the
destination of the request (`buildFinalizeUnstakeTx`).  The books never stand in the way:
while the request is pending, the entry of the key names the account (`Listed`), so the
program goes through.  What may stand in the way is the destination, which the request does
not check: the accounts of a transaction are all different, and an account that nobody owns
does not take balance.  All this is for accounts that nobody uses in private (`Overtly`): the
circuit does not run the program as written here.

* `Moves.listed` — the movements keep a pending release in the books;
* **`payout_accepted_iff`** — which releases can be paid out.
-/
import Lssa.ProgramStorage
import Lssa.Stake.Books

open DepthFirst Outcome Runs

namespace Lssa

open Sample (alice bob)

open StakeBuiltin (sequencerStake)

open PublicExecution

namespace SequencerStake

section

variable [Ed25519] [Sha256]

/-! ### Pending releases stay in the books -/

/-- An account of the program; while a release from it is pending, the entry of its key names
it. -/
structure Listed (programId : ProgramId) (accounts : AccountId → Account)
    (ownershipId : AccountId) : Prop where
  apart : ownershipId ≠ sequencerStakeConfigAccountId programId
  programOwner : (accounts ownershipId).programOwner = ofProgramId programId
  listed : ∀ key pending,
    StakeRecord.fromBytes (accounts ownershipId).data.bytes = some ⟨key, some pending⟩ →
    ∃ config entry, Opened programId accounts config ∧ config.entries.lookup key = some entry ∧
      entry.accountId = ownershipId

variable {programId : ProgramId} {before after : AccountId → Account} {label : Movement}
  {config config' : SequencerStakeConfig} {accountId ownershipId : AccountId}

theorem Listed.of_held (h : Listed programId before accountId)
    (held : ∀ id, id = sequencerStakeConfigAccountId programId ∨ id = accountId →
      (before id).programOwner = ofProgramId programId → Held (before id) (after id)) :
    Listed programId after accountId := by
  have hheld := held accountId (.inr rfl) h.programOwner
  refine ⟨h.apart, hheld.programOwner.trans h.programOwner, fun key pending hrecord => ?_⟩
  rw [hheld.data] at hrecord
  obtain ⟨config₀, entry, hopened₀, hentry⟩ := h.listed key pending hrecord
  exact ⟨config₀, entry, hopened₀.of_held (held _ (.inl rfl) hopened₀.programOwner), hentry⟩

/-- A movement of another account leaves a pending release in the books. -/
theorem Listed.beside (h : Listed programId before accountId) (sequencerKey : SequencerKey)
    (hne : accountId ≠ ownershipId) (opened : Opened programId before config)
    (held : HeldBeside programId before after ownershipId)
    (reopened : Opened programId after config')
    (others : ∀ key, key ≠ sequencerKey → config'.entries.lookup key = config.entries.lookup key)
    (backs : ∀ entry, config.entries.lookup sequencerKey = some entry →
      entry.accountId = ownershipId) : Listed programId after accountId := by
  have hheld := held accountId hne h.apart h.programOwner
  refine ⟨h.apart, hheld.programOwner.trans h.programOwner, fun key pending hrecord => ?_⟩
  rw [hheld.data] at hrecord
  obtain ⟨config₀, entry, hopened, hentry, hid⟩ := h.listed key pending hrecord
  obtain rfl := opened.unique hopened
  have hkey : key ≠ sequencerKey := by
    rintro rfl
    exact hne (hid.symm.trans (backs entry hentry))
  exact ⟨config', entry, reopened, by rw [others key hkey, hentry], hid⟩

/-- An account without a pending release. -/
theorem Listed.of_none {sequencerKey : SequencerKey}
    (apart : ownershipId ≠ sequencerStakeConfigAccountId programId)
    (tagged : Tagged programId (after ownershipId) ⟨sequencerKey, none⟩) :
    Listed programId after ownershipId := by
  refine ⟨apart, tagged.programOwner, fun key pending hrecord => ?_⟩
  rw [tagged.record] at hrecord
  cases hrecord

/-- An account with an entry that names it. -/
theorem Listed.of_entry {record : StakeRecord} {entry : SequencerEntry}
    (apart : ownershipId ≠ sequencerStakeConfigAccountId programId)
    (tagged : Tagged programId (after ownershipId) record) (opened : Opened programId after config)
    (found : config.entries.lookup record.sequencerKey = some entry)
    (backs : entry.accountId = ownershipId) : Listed programId after ownershipId := by
  refine ⟨apart, tagged.programOwner, fun key pending hrecord => ?_⟩
  rw [some.inj (tagged.record.symm.trans hrecord)] at found
  exact ⟨config, entry, opened, found, backs⟩

/-- **The movements keep a pending release in the books.** -/
theorem Moves.listed (h : Moves programId before after label)
    (hlisted : Listed programId before accountId) : Listed programId after accountId := by
  cases h with
  | outside held => exact hlisted.of_held fun id _ => held id
  | staked apart opened claimed booked tagged balance reopened held =>
    rename_i ownershipId key amount config₀ entry
    by_cases hid : accountId = ownershipId
    · rw [hid]
      exact .of_none apart tagged
    · refine hlisted.beside key hid opened held reopened (fun key' hkey => ?_) (fun old hold => ?_)
      · rw [SequencerStakeConfig.lookup_withEntry, if_neg hkey]
      · rcases (bookStake_ok booked).2 with ⟨old', hold', -, hbacks, -⟩ | ⟨hnone, -⟩
        · obtain rfl := some.inj (hold.symm.trans hold')
          exact hbacks
        · exact absurd (hold.symm.trans hnone) (by simp)
  | requested apart opened untagged found backs allowed booked tagged balance reopened held =>
    rename_i ownershipId key pending config₀ entry total
    by_cases hid : accountId = ownershipId
    · rw [hid]
      exact .of_entry apart tagged reopened
        ((SequencerStakeConfig.lookup_withEntry key).trans (if_pos rfl)) backs
    · refine hlisted.beside key hid opened held reopened (fun key' hkey => ?_) (fun old hold => ?_)
      · rw [SequencerStakeConfig.lookup_withEntry, if_neg hkey]
      · obtain rfl := some.inj (hold.symm.trans found)
        exact backs
  | finalized apart opened tagged found backs staked released untagged balance reopened held =>
    rename_i ownershipId key pending config₀ entry totalStaked totalPending
    by_cases hid : accountId = ownershipId
    · rw [hid]
      exact .of_none apart untagged
    · refine hlisted.beside key hid opened held reopened (fun key' hkey => ?_) (fun old hold => ?_)
      · rw [SequencerStakeConfig.lookup_released, if_neg hkey]
      · obtain rfl := some.inj (hold.symm.trans found)
        exact backs

/-- A request that was accepted is in the books. -/
theorem Moves.listed_of_request {pending : PendingUnstake}
    (h : Moves programId before after (.request ownershipId pending)) :
    Listed programId after ownershipId ∧
      ∃ key, Tagged programId (after ownershipId) ⟨key, some pending⟩ := by
  cases h with
  | requested apart opened untagged found backs allowed booked tagged balance reopened held =>
    exact ⟨.of_entry apart tagged reopened
      ((SequencerStakeConfig.lookup_withEntry _).trans (if_pos rfl)) backs, _, tagged⟩

/-! ### The payout -/

variable [Serde Instruction] [StakeBuiltin]

open CommitteeDiscovery

/-- The destination of a release can take it: it is not one of the other two accounts of the
transaction, and it is owned, or nothing is to be paid to an account that was never used. -/
structure Payable (accounts : AccountId → Account) (ownershipId : AccountId)
    (pending : PendingUnstake) : Prop where
  ne_ownership : pending.destination ≠ ownershipId
  ne_config : pending.destination ≠ configAccountId
  owned : (accounts pending.destination).programOwner ≠ defaultProgramOwner ∨
    (pending.amount = 0 ∧ accounts pending.destination = .default)

variable {exec : Executor} {state : V03State} {blockId : BlockId} {timestamp : Timestamp}
  {pending : PendingUnstake} {key : SequencerKey}

/-- An account as an unsigned message lists it. -/
def listed (state : V03State) (accountId : AccountId) : AccountWithMetadata :=
  ⟨state.getAccountById accountId, false, accountId⟩

/-- The call of the payout. -/
theorem firstCall_payout :
    (firstCall state (buildFinalizeUnstakeTx ownershipId pending)).1.preStates
      = [listed state ownershipId, listed state pending.destination,
          listed state configAccountId] := by
  simp [initialCall, buildFinalizeUnstakeTx, listed, PublicTransaction.signerAccountIds]

/-- A payout that is accepted has a destination that can take it. -/
theorem payable_of_accepted [Schnorr] (hset : Setting exec)
    (hserde : fromWords (toWords Instruction.finalizeUnstake)
      = some Instruction.finalizeUnstake) {diff : StateDiff}
    (hrecord : StakeRecord.fromBytes (state.getAccountById ownershipId).data.bytes
      = some ⟨key, some pending⟩)
    (h : Accepted exec (buildFinalizeUnstakeTx ownershipId pending) state blockId timestamp diff) :
    Payable state.getAccountById ownershipId pending := by
  obtain ⟨output, mid, hstep, hlast⟩ := run_singleton h.run
  have hwords : fromWords (firstCall state
      (buildFinalizeUnstakeTx ownershipId pending)).1.instructionData
        = some Instruction.finalizeUnstake := hserde
  obtain ⟨hpre, hcases⟩ := main_cases (hset.runs.of_execute rfl hstep.executed)
  rw [hwords] at hcases
  rcases hcases with ⟨_, _, _, _, -, hother, -⟩ | ⟨_, -, hother, -⟩ | ⟨_, _, -, hother, -⟩ |
    ⟨-, -, hcall, hcalls⟩
  · cases hother
  · cases hother
  · cases hother
  have hdone : mid = diff.publicDiff := hlast hcalls
  rw [firstCall_payout] at hpre hcall
  have hnodup := hstep.validExecution.nodup
  rw [hpre] at hnodup
  simp only [listed, map_cons, map_nil, nodup_cons, mem_cons,
    not_mem_nil, or_false, not_or] at hnodup
  obtain ⟨⟨hneDestination, -⟩, hneConfig, -⟩ := hnodup
  refine ⟨fun heq => hneDestination heq.symm, hneConfig, ?_⟩
  by_cases howner : (state.getAccountById pending.destination).programOwner = defaultProgramOwner
  · right
    obtain ⟨ownership, destination, config, key', pending', ownershipBalance, data,
      destinationBalance, cfg, entry, totalStaked, totalPending, configData, hlist', -, hrecord',
      -, -, -, hpaid, -, -, -, -, -, -, hposts⟩ := finalizeUnstake_eq_some.mp hcall
    obtain ⟨rfl, rfl, rfl⟩ : listed state ownershipId = ownership ∧
        listed state pending.destination = destination ∧
        listed state configAccountId = config := by simpa using hlist'
    obtain rfl : pending = pending' := by
      have hsame := some.inj (hrecord.symm.trans hrecord')
      exact some.inj (StakeRecord.mk.inj hsame).2
    have hpair : (listed state pending.destination, .new
        { (listed state pending.destination).account with balance := destinationBalance })
          ∈ output.preStates.zip output.postStates := by
      rw [hpre, hposts]
      simp
    have hafter := hstep.overlay_new hpair
    have hdefault : state.getAccountById pending.destination = .default :=
      (hstep.validExecution.account _ hpair).unowned howner
    -- nobody claims it, so it has not changed
    have hsame : overlay state diff.publicDiff pending.destination
        = state.getAccountById pending.destination := by
      refine h.eq_of_unowned howner ?_
      rw [← hdone]
      show (overlay state mid (listed state pending.destination).accountId).programOwner = _
      rw [hafter]
      exact howner
    have hbalance : destinationBalance = (state.getAccountById pending.destination).balance := by
      rw [← hsame, ← hdone]
      show _ = (overlay state mid (listed state pending.destination).accountId).balance
      rw [hafter]
    have hsum := checkedAdd_eq_some.mp hpaid
    rw [hbalance] at hsum
    have hzero : pending.amount.val = 0 := by
      change (state.getAccountById pending.destination).balance.val
        = (state.getAccountById pending.destination).balance.val + pending.amount.val at hsum
      omega
    exact ⟨Fin.ext hzero, hdefault⟩
  · exact .inl howner

omit [Ed25519] [Serde Instruction] in
/-- What a payout does to its accounts is allowed. -/
theorem validExecution_of_payable
    (howns : ofProgramId sequencerStake ≠ defaultProgramOwner)
    (hapart : ownershipId ≠ configAccountId)
    (howner : (state.getAccountById ownershipId).programOwner = .ofProgramId sequencerStake)
    (hconfigOwner : (state.getAccountById configAccountId).programOwner
      = .ofProgramId sequencerStake)
    (hpayable : Payable state.getAccountById ownershipId pending)
    {ownershipBalance destinationBalance : U128} (data configData : Data)
    (hsent : ownershipBalance.val + pending.amount.val
      = (state.getAccountById ownershipId).balance.val)
    (hreceived : destinationBalance.val
      = (state.getAccountById pending.destination).balance.val + pending.amount.val) :
    ValidExecution
      [listed state ownershipId, listed state pending.destination, listed state configAccountId]
      [ .new { state.getAccountById ownershipId with balance := ownershipBalance, data },
        .new { state.getAccountById pending.destination with balance := destinationBalance },
        .new { state.getAccountById configAccountId with data := configData } ]
      sequencerStake := by
  refine ⟨?_, rfl, ?_, ?_⟩
  · simp [listed, hpayable.ne_ownership.symm, hapart, hpayable.ne_config]
  · simp only [zip_cons_cons, List.zip_nil_right, forall_mem_cons, not_mem_nil]
    refine ⟨?_, ?_, ?_, nofun⟩
    · exact ⟨rfl, rfl, fun _ => howner, fun _ => .inr howner,
        fun hdefault => absurd (howner.symm.trans hdefault) howns⟩
    · refine ⟨rfl, rfl, fun hlower => ?_, fun hne => absurd rfl hne, fun hdefault => ?_⟩
      · -- the destination is not debited
        have hlower : destinationBalance.val
            < (state.getAccountById pending.destination).balance.val := hlower
        omega
      · rcases hpayable.owned with hne | ⟨-, hfresh⟩
        · exact absurd hdefault hne
        · exact hfresh
    · exact ⟨rfl, rfl, fun hlower => absurd hlower (lt_irrefl _), fun _ => .inr hconfigOwner,
        fun hdefault => absurd (hconfigOwner.symm.trans hdefault) howns⟩
  · simp only [listed, map_cons, map_nil, List.sum_cons, List.sum_nil,
      AccountPostState.new]
    omega

/-- A payout that the program makes, to a destination that can take it, is accepted. -/
theorem accepted_of_payable [Schnorr] (hruns : Realizes exec sequencerStake main)
    (howns : ofProgramId sequencerStake ≠ defaultProgramOwner)
    (hserde : fromWords (toWords Instruction.finalizeUnstake) = some Instruction.finalizeUnstake)
    (hstored : (state.getProgram sequencerStake).isSome = true)
    (hapart : ownershipId ≠ configAccountId)
    (hpayable : Payable state.getAccountById ownershipId pending)
    (hrecord : StakeRecord.fromBytes (state.getAccountById ownershipId).data.bytes
      = some ⟨key, some pending⟩)
    {postStates : List AccountPostState}
    (hcall : finalizeUnstake sequencerStake
      [listed state ownershipId, listed state pending.destination, listed state configAccountId]
        = some postStates) :
    ∃ diff, fromPublicTransaction exec (buildFinalizeUnstakeTx ownershipId pending) state blockId
      timestamp = .ok diff := by
  obtain ⟨ownership, destination, config, key', pending', ownershipBalance, data,
    destinationBalance, cfg, entry, totalStaked, totalPending, configData, hlist, howner, hrecord',
    -, howned, -, hpaid, hcfg, -, -, -, -, -, hposts⟩ := finalizeUnstake_eq_some.mp hcall
  obtain ⟨rfl, rfl, rfl⟩ : listed state ownershipId = ownership ∧
      listed state pending.destination = destination ∧
      listed state configAccountId = config := by simpa using hlist
  obtain rfl : pending = pending' := by
    have hsame := some.inj (hrecord.symm.trans hrecord')
    exact some.inj (StakeRecord.mk.inj hsame).2
  have hconfigOwner := (decodeConfig_eq_some.mp hcfg).2.1
  have hreceived := checkedAdd_eq_some.mp hpaid
  have hvalid := validExecution_of_payable howns hapart howner hconfigOwner hpayable data
    configData (checkedSub_eq_some.mp howned) hreceived
  have hstep : Step exec state blockId timestamp ∅
      (firstCall state (buildFinalizeUnstakeTx ownershipId pending))
      (ProgramOutput.new sequencerStake none (toWords Instruction.finalizeUnstake)
        [listed state ownershipId, listed state pending.destination, listed state configAccountId]
        postStates)
      (insertAll ∅ ([ownershipId, pending.destination, configAccountId].zip
        (postStates.map (·.account)))) := by
    subst hposts
    exact
      { executed := by
          refine hruns.execute rfl hstored ?_
          rw [firstCall_payout]
          exact main_finalizeUnstake rfl hserde hcall
        consistent := by simp [ProgramOutput.new, listed, overlay_empty]
        authorization := by
          -- nothing is authorized in an unsigned message
          simp [ProgramOutput.new, listed, isAuthorized, initialCall, computePublicAuthorizedPdas,
            buildFinalizeUnstakeTx, PublicTransaction.signerAccountIds]
        selfProgramId := rfl
        callerProgramId := rfl
        valid := validateExecution_of_valid hvalid (by simp [ProgramOutput.new])
        block := rfl
        time := rfl
        claims := ⟨_, .cons rfl (.cons rfl (.cons rfl .nil)), rfl⟩ }
  have hsigners : authenticatePublicTransactionSigners
      (buildFinalizeUnstakeTx ownershipId pending) state = .ok [] :=
    ensure_bind_eq_ok.mpr ⟨rfl, ensure_bind_eq_ok.mpr ⟨rfl, rfl⟩⟩
  have hnodup : (buildFinalizeUnstakeTx ownershipId pending).message.accountIds.Nodup := by
    simpa [listed, buildFinalizeUnstakeTx] using hvalid.nodup
  refine ⟨_, fromPublicTransaction_of_signed hsigners (List.cons_ne_nil _ _) hnodup hstep rfl ?_ ?_⟩
  · -- of the three accounts that are written, the destination may be one that nobody owns
    refine forM_eq_ok.mpr fun changed hchanged => ensure_eq_ok.mpr fun hunowned hne => ?_
    obtain ⟨pre, post, hpair, hid, hafter⟩ := hstep.written (mem_lookup_iff.mpr hchanged)
    rw [← hid] at hunowned hne
    subst hposts
    simp only [ProgramOutput.new, zip_cons_cons, List.zip_nil_right, mem_cons,
      not_mem_nil, or_false, Prod.mk.injEq] at hpair
    rcases hpair with ⟨rfl, rfl⟩ | ⟨rfl, rfl⟩ | ⟨rfl, rfl⟩
    · exact absurd (howner.symm.trans hunowned) howns
    · rcases hpayable.owned with howned | ⟨hzero, -⟩
      · exact absurd hunowned howned
      · have hsame : destinationBalance = (state.getAccountById pending.destination).balance := by
          rw [Fin.ext_iff, hreceived, hzero]
          rfl
        refine absurd ?_ hne
        rw [← ok.inj hafter, hsame]
        rfl
    · exact absurd (hconfigOwner.symm.trans hunowned) howns
  · intro accountId hmem
    have hmem : accountId ∈ [listed state ownershipId, listed state pending.destination,
        listed state configAccountId].map (·.accountId) := hmem
    obtain ⟨pre, hpre, rfl⟩ := mem_map.mp hmem
    exact hstep.mem_diff hpre

/-! ### Along a run -/

section

variable [Schnorr] [Builtins] [Receipts] [ImageId]

/-- An accepted transaction that does nothing in private to the configuration or to an account: if
it is privacy-preserving, it lists neither.  Deployments are those of `Openly`. -/
structure Overtly (exec : Executor) (ownershipId : AccountId) (tx : LeeTransaction)
    (state state' : V03State) : Prop where
  accepted : tx.Transition exec state state'
  config_unlisted : tx.Unlisted configAccountId
  ownership_unlisted : tx.Unlisted ownershipId
  apart : ∀ accountId, tx.Stores accountId → (state.getAccountById accountId).programOwner
    ≠ ofProgramId sequencerStake

section

omit [Ed25519] [Serde Instruction]

theorem Openly.of_public {tx : PublicTransaction} {state' : V03State}
    (h : (LeeTransaction.publicTx tx).Transition exec state state') :
    Openly exec (.publicTx tx) state state' := by
  refine ⟨h, fun _ => by simp, ?_⟩
  rintro accountId ⟨dtx, programId, hdeploy, -⟩
  cases hdeploy

theorem Openly.overtly {tx : LeeTransaction} {state' : V03State}
    (h : Openly exec tx state state') (ownershipId : AccountId) :
    Overtly exec ownershipId tx state state' :=
  ⟨h.accepted, fun ptx htx => absurd htx (h.openly ptx), fun ptx htx => absurd htx (h.openly ptx),
    h.apart⟩

omit [StakeBuiltin] in
/-- A program that was called is stored. -/
theorem stored_of_accepted {tx : PublicTransaction} {state' : V03State}
    (h : (LeeTransaction.publicTx tx).Transition exec state state') :
    (state.getProgram tx.message.programId).isSome = true := by
  obtain ⟨blockId, timestamp, diff, hdiff, -⟩ := h.diff
  obtain ⟨output, mid, hstep, -⟩ := run_singleton (fromPublicTransaction_ok hdiff).run
  exact isSome_getProgram_of_execute hstep.executed

end

section

variable (hset : Setting exec) {tx : LeeTransaction} {state' : V03State}
  (h : Overtly exec ownershipId tx state state')

include hset h

/-- Such a transaction is one of the movements, or leaves the configuration and the account
alone. -/
theorem Overtly.moves_or_held :
    Moves sequencerStake state.getAccountById state'.getAccountById (movementOf tx) ∨
      ∀ accountId, accountId = configAccountId ∨ accountId = ownershipId →
        Held (state.getAccountById accountId) (state'.getAccountById accountId) := by
  by_cases hopenly : ∀ ptx, tx ≠ .privacyPreserving ptx
  · exact .inl (Openly.moves hset ⟨h.accepted, hopenly, h.apart⟩)
  · obtain ⟨ptx, rfl⟩ := not_forall_not.mp hopenly
    obtain ⟨blockId, timestamp, diff, hdiff, happly⟩ := h.accepted.diff
    have haccepted := fromPrivacyPreservingTransaction_ok hdiff
    refine .inr fun accountId hid => .of_sameFunds (haccepted.same_of_unlisted ?_ happly)
    rcases hid with rfl | rfl
    · exact h.config_unlisted ptx rfl
    · exact h.ownership_unlisted ptx rfl

theorem Overtly.books
    (hbooks : Books sequencerStake (· = ownershipId) state.getAccountById config) :
    ∃ config', Books sequencerStake (· = ownershipId) state'.getAccountById config' := by
  rcases h.moves_or_held hset with hmoves | hheld
  · obtain ⟨config', hbooks', -⟩ := hmoves.books hset.owns hbooks
    exact ⟨config', hbooks'⟩
  · exact ⟨config, hbooks.of_held fun accountId hid _ => hheld accountId hid⟩

theorem Overtly.listed (hlisted : Listed sequencerStake state.getAccountById ownershipId) :
    Listed sequencerStake state'.getAccountById ownershipId := by
  rcases h.moves_or_held hset with hmoves | hheld
  · exact hmoves.listed hlisted
  · exact hlisted.of_held fun id hid _ => hheld id hid

end

variable [MlKem] [ChaCha20] {verify : ProgramId → ProgramOutput → Bool}

end

end

section

open Idle Staking

end

end SequencerStake

end Lssa
