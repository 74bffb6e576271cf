/-
The books of the stake program.

What is staked for a sequencer is written twice: in the ownership account, which holds the
balance and the tag, and in the entry of the configuration.  The two are updated together by
the movements of the program, and keep to each other (`Books`): every entry is backed by the
account that it names.  The releases that the program makes therefore never fail for a check
on the books.  What holds of the entries of some accounts does not depend on the others.

* `Moves.books` — the movements keep the books;
* `Books.finalizeUnstake_isSome` — a release that is in the books goes through;
* **`stake_books`** — the books are right in every state that is reached from a genesis with
  empty books.
-/
import Lssa.Programs.AuthenticatedTransfer
import Lssa.Stake.Moves

open Outcome Runs

namespace Lssa

open Sample (alice bob bobKey)

open StakeBuiltin (sequencerStake)

namespace SequencerStake

open SequencerStakeConfig Borsh

section

variable [Ed25519] [Sha256] [Serde Instruction] {programId : ProgramId}
  {before after : AccountId → Account} {label : Movement} {exec : Executor}

/-! ### The invariant -/

section

omit [Sha256] [Serde Instruction]

/-- How much is about to be released. -/
def pendingAmount (pending : Option PendingUnstake) : U128 :=
  (pending.map PendingUnstake.amount).getD 0

/-- An entry and the account that backs it. -/
structure Backed (programId : ProgramId) (minimum : U128) (sequencerKey : SequencerKey)
    (entry : SequencerEntry) (account : Account) : Prop where
  tagged : ∃ pending, Tagged programId account ⟨sequencerKey, pending⟩ ∧
    entry.totalPendingUnstake = pendingAmount pending
  covered : entry.totalPendingUnstake ≤ entry.totalStaked
  funded : entry.totalStaked ≤ account.balance
  stands : entry.totalStaked.val = entry.totalPendingUnstake.val ∨
    minimum.val + entry.totalPendingUnstake.val ≤ entry.totalStaked.val
  -- a key does not stay in the books with less than the minimum
  minimum_le : minimum ≤ entry.totalStaked

namespace Backed

variable {minimum amount : U128} {sequencerKey : SequencerKey} {entry old : SequencerEntry}
  {account account' : Account}

theorem of_held (h : Backed programId minimum sequencerKey entry account)
    (hheld : Held account account') : Backed programId minimum sequencerKey entry account' := by
  obtain ⟨pending, htagged, hpending⟩ := h.tagged
  exact ⟨⟨pending, htagged.of_held hheld, hpending⟩, h.covered, h.funded.trans hheld.balance,
    h.stands, h.minimum_le⟩

/-- The amount in the books is that of the tag. -/
theorem pending_eq (h : Backed programId minimum sequencerKey entry account)
    {pending : Option PendingUnstake} (htagged : Tagged programId account ⟨sequencerKey, pending⟩) :
    entry.totalPendingUnstake = pendingAmount pending := by
  obtain ⟨pending', htagged', hamount⟩ := h.tagged
  have hsame := some.inj (htagged.record.symm.trans htagged'.record)
  rw [hamount, (StakeRecord.mk.inj hsame).2]

/-- An account without a pending release backs an entry of at least the minimum that it
covers. -/
theorem untouched (htagged : Tagged programId account ⟨sequencerKey, none⟩)
    (hpending : entry.totalPendingUnstake = 0) (hminimum : minimum ≤ entry.totalStaked)
    (hfunded : entry.totalStaked ≤ account.balance) :
    Backed programId minimum sequencerKey entry account := by
  refine ⟨⟨none, htagged, hpending⟩, ?_, hfunded, .inr ?_, hminimum⟩
  · rw [hpending]
    exact Fin.zero_le _
  · rw [hpending]
    exact hminimum

/-- A top-up: nothing was pending. -/
theorem topUp (h : Backed programId minimum sequencerKey old account)
    (huntagged : Tagged programId account ⟨sequencerKey, none⟩)
    (hpending : entry.totalPendingUnstake = old.totalPendingUnstake)
    (htotal : entry.totalStaked.val = old.totalStaked.val + amount.val)
    (htagged : Tagged programId account' ⟨sequencerKey, none⟩)
    (hbalance : account'.balance.val = account.balance.val + amount.val) :
    Backed programId minimum sequencerKey entry account' := by
  have hminimum := h.minimum_le
  have hfunded := h.funded
  rw [Fin.le_def] at hminimum hfunded
  refine untouched htagged (hpending.trans (h.pending_eq huntagged)) ?_ ?_
  · rw [Fin.le_def]
    omega
  · rw [Fin.le_def]
    omega

/-- A request: nothing was pending, and what stays is nothing or the minimum. -/
theorem request (h : Backed programId minimum sequencerKey entry account)
    (huntagged : Tagged programId account ⟨sequencerKey, none⟩) {pending : PendingUnstake}
    (hallowed : entry.allowsUnstakeRequest pending.amount minimum = true)
    {totalPendingUnstake : U128}
    (hbooked : totalPendingUnstake.val = entry.totalPendingUnstake.val + pending.amount.val)
    (htagged : Tagged programId account' ⟨sequencerKey, some pending⟩)
    (hbalance : account.balance ≤ account'.balance) :
    Backed programId minimum sequencerKey { entry with totalPendingUnstake } account' := by
  have hzero : entry.totalPendingUnstake.val = 0 := congrArg Fin.val (h.pending_eq huntagged)
  obtain ⟨hcovered, hstands⟩ := (SequencerEntry.allowsUnstakeRequest_iff h.covered).mp hallowed
  refine ⟨⟨some pending, htagged, ?_⟩, ?_, h.funded.trans hbalance, ?_, h.minimum_le⟩
  · show totalPendingUnstake = pending.amount
    rw [Fin.ext_iff]
    omega
  · show totalPendingUnstake.val ≤ entry.totalStaked.val
    omega
  · show entry.totalStaked.val = totalPendingUnstake.val ∨
      minimum.val + totalPendingUnstake.val ≤ entry.totalStaked.val
    omega

/-- A release of a part: what stays is the minimum. -/
theorem release (h : Backed programId minimum sequencerKey entry account)
    {pending : PendingUnstake} (htagged : Tagged programId account ⟨sequencerKey, some pending⟩)
    {totalStaked totalPendingUnstake : U128}
    (hstaked : totalStaked.val + pending.amount.val = entry.totalStaked.val)
    (hreleased : totalPendingUnstake.val + pending.amount.val = entry.totalPendingUnstake.val)
    (hpart : totalStaked ≠ 0) (huntagged : Tagged programId account' ⟨sequencerKey, none⟩)
    (hbalance : account'.balance.val + pending.amount.val = account.balance.val) :
    Backed programId minimum sequencerKey { entry with totalStaked, totalPendingUnstake }
      account' := by
  have hamount : entry.totalPendingUnstake.val = pending.amount.val :=
    congrArg Fin.val (h.pending_eq htagged)
  have hpositive : totalStaked.val ≠ 0 := fun hzero => hpart (Fin.ext hzero)
  have hfunded := h.funded
  have hstands := h.stands
  rw [Fin.le_def] at hfunded
  refine untouched huntagged ?_ ?_ ?_
  · show totalPendingUnstake = 0
    rw [Fin.ext_iff]
    show totalPendingUnstake.val = 0
    omega
  · show minimum.val ≤ totalStaked.val
    omega
  · show totalStaked.val ≤ account'.balance.val
    omega

end Backed

end

/-- The books are right about the accounts that are watched: every entry that names one is
backed by it. -/
structure Books (programId : ProgramId) (watched : AccountId → Prop)
    (accounts : AccountId → Account) (config : SequencerStakeConfig) : Prop where
  opened : Opened programId accounts config
  apart : ∀ sequencerKey entry, config.entries.lookup sequencerKey = some entry →
    entry.accountId ≠ sequencerStakeConfigAccountId programId
  backed : ∀ sequencerKey entry, config.entries.lookup sequencerKey = some entry →
    watched entry.accountId →
    Backed programId config.minimumSequencerStake sequencerKey entry (accounts entry.accountId)

section

omit [Serde Instruction]

variable {config config' : SequencerStakeConfig} {sequencerKey : SequencerKey}
  {entry : SequencerEntry} {watched : AccountId → Prop}

/-- An account backs the key of its tag, and no other. -/
theorem Books.key_eq (h : Books programId watched before config)
    (hentry : config.entries.lookup sequencerKey = some entry) (hwatched : watched entry.accountId)
    {record : StakeRecord} (htagged : Tagged programId (before entry.accountId) record) :
    record.sequencerKey = sequencerKey := by
  obtain ⟨pending, hbacked, -⟩ := (h.backed _ _ hentry hwatched).tagged
  rw [some.inj (htagged.record.symm.trans hbacked.record)]

/-- The books stay right while the configuration and the watched accounts are held. -/
theorem Books.of_held (h : Books programId watched before config)
    (held : ∀ accountId, accountId = sequencerStakeConfigAccountId programId ∨ watched accountId →
      (before accountId).programOwner = ofProgramId programId →
      Held (before accountId) (after accountId)) : Books programId watched after config := by
  refine ⟨h.opened.of_held (held _ (.inl rfl) h.opened.programOwner), h.apart, ?_⟩
  intro key entry hentry hwatched
  have hbacked := h.backed key entry hentry hwatched
  obtain ⟨pending, htagged, -⟩ := hbacked.tagged
  exact hbacked.of_held (held _ (.inr hwatched) htagged.programOwner)

/-- The books stay right if only the entry of a key and the account that backs it change, and
these stay right. -/
theorem Books.update (h : Books programId watched before config)
    (howns : ofProgramId programId ≠ defaultProgramOwner) {ownershipId : AccountId}
    (apart : ownershipId ≠ sequencerStakeConfigAccountId programId)
    (tagged : (before ownershipId).programOwner ≠ defaultProgramOwner →
      ∃ pending, Tagged programId (before ownershipId) ⟨sequencerKey, pending⟩)
    (held : HeldBeside programId before after ownershipId)
    (reopened : Opened programId after config')
    (minimum : config'.minimumSequencerStake = config.minimumSequencerStake)
    (others : ∀ key, key ≠ sequencerKey → config'.entries.lookup key = config.entries.lookup key)
    (backed : ∀ entry, config'.entries.lookup sequencerKey = some entry →
      entry.accountId = ownershipId ∧ (watched ownershipId →
        Backed programId config.minimumSequencerStake sequencerKey entry (after ownershipId))) :
    Books programId watched after config' := by
  refine ⟨reopened, fun key entry hentry => ?_, fun key entry hentry hwatched => ?_⟩
  · by_cases hkey : key = sequencerKey
    · subst hkey
      rw [(backed entry hentry).1]
      exact apart
    · exact h.apart key entry (others key hkey ▸ hentry)
  · rw [minimum]
    by_cases hkey : key = sequencerKey
    · subst hkey
      obtain ⟨hid, hbacked⟩ := backed entry hentry
      rw [hid] at hwatched ⊢
      exact hbacked hwatched
    · -- the entry of another key is backed by another account
      rw [others key hkey] at hentry
      have hbacked := h.backed key entry hentry hwatched
      obtain ⟨pending, hother, -⟩ := hbacked.tagged
      refine hbacked.of_held (held _ ?_ (h.apart key entry hentry) hother.programOwner)
      rintro rfl
      obtain ⟨pending', htagged⟩ := tagged (hother.programOwner ▸ howns)
      exact hkey (h.key_eq hentry hwatched htagged).symm

omit [Sha256] in
theorem SequencerStakeConfig.lookup_withEntry (key : SequencerKey) :
    (config.withEntry sequencerKey entry).entries.lookup key
      = if key = sequencerKey then some entry else config.entries.lookup key := by
  show (config.entries.insert sequencerKey entry).lookup key = _
  by_cases hkey : key = sequencerKey
  · rw [SortedMap.lookup_insert, if_pos hkey, if_pos hkey]
  · rw [SortedMap.lookup_insert, if_neg hkey, if_neg hkey]

omit [Sha256] in
theorem SequencerStakeConfig.lookup_released (key : SequencerKey) :
    (config.released sequencerKey entry).entries.lookup key
      = if key = sequencerKey then (if entry.totalStaked = 0 then none else some entry)
        else config.entries.lookup key := by
  unfold released
  by_cases hdrained : entry.totalStaked = 0
  · rw [if_pos hdrained, if_pos hdrained]
    show (config.entries.erase sequencerKey).lookup key = _
    by_cases hkey : key = sequencerKey
    · rw [SortedMap.lookup_erase, if_pos hkey, if_pos hkey]
    · rw [SortedMap.lookup_erase, if_neg hkey, if_neg hkey]
  · rw [if_neg hdrained, if_neg hdrained]
    exact lookup_withEntry key

omit [Sha256] in
theorem SequencerStakeConfig.minimum_released :
    (config.released sequencerKey entry).minimumSequencerStake = config.minimumSequencerStake := by
  unfold released
  split <;> rfl

/-- **The movements keep the books.** -/
theorem Moves.books (h : Moves programId before after label)
    (howns : ofProgramId programId ≠ defaultProgramOwner)
    (hbooks : Books programId watched before config) :
    ∃ config', Books programId watched after config' ∧
      config'.minimumSequencerStake = config.minimumSequencerStake := by
  cases h with
  | outside held => exact ⟨config, hbooks.of_held fun accountId _ => held accountId, rfl⟩
  | staked apart opened claimed booked tagged balance reopened held =>
    obtain rfl := hbooks.opened.unique opened
    obtain ⟨haccount, hcases⟩ := bookStake_ok booked
    refine ⟨_, hbooks.update howns apart (fun hne => ⟨none, claimed hne⟩) held reopened rfl
      (fun key hkey => ?_) (fun entry' hentry' => ?_), rfl⟩
    · rw [lookup_withEntry, if_neg hkey]
    · rw [lookup_withEntry, if_pos rfl] at hentry'
      cases hentry'
      refine ⟨haccount, fun hwatched => ?_⟩
      rcases hcases with ⟨old, hold, hclaimed, hid, hpending, htotal⟩ |
        ⟨-, hminimum, hpending, htotal⟩
      · have hbacked := hbooks.backed _ old hold (hid ▸ hwatched)
        rw [hid] at hbacked
        exact hbacked.topUp (claimed hclaimed) hpending htotal tagged balance
      · rw [← htotal] at hminimum balance
        refine .untouched tagged hpending hminimum ?_
        rw [Fin.le_def]
        omega
  | requested apart opened untagged found backs allowed booked tagged balance reopened held =>
    obtain rfl := hbooks.opened.unique opened
    refine ⟨_, hbooks.update howns apart (fun _ => ⟨none, untagged⟩) held reopened rfl
      (fun key hkey => ?_) (fun entry' hentry' => ?_), rfl⟩
    · rw [lookup_withEntry, if_neg hkey]
    · rw [lookup_withEntry, if_pos rfl] at hentry'
      cases hentry'
      refine ⟨backs, fun hwatched => ?_⟩
      have hbacked := hbooks.backed _ _ found (backs ▸ hwatched)
      rw [backs] at hbacked
      exact hbacked.request untagged allowed booked tagged balance
  | finalized apart opened tagged found backs staked released untagged balance reopened held =>
    rename_i pending _ _ _ _
    obtain rfl := hbooks.opened.unique opened
    refine ⟨_, hbooks.update howns apart (fun _ => ⟨some pending, tagged⟩) held reopened
      minimum_released (fun key hkey => ?_) (fun entry' hentry' => ?_),
      minimum_released⟩
    · rw [lookup_released, if_neg hkey]
    · rw [lookup_released, if_pos rfl] at hentry'
      split at hentry'
      · cases hentry'
      · rename_i hpart
        cases hentry'
        refine ⟨backs, fun hwatched => ?_⟩
        have hbacked := hbooks.backed _ _ found (backs ▸ hwatched)
        rw [backs] at hbacked
        exact hbacked.release tagged staked released hpart untagged balance

/-! ### Releases -/

omit [Sha256] in
/-- A release does not make the configuration longer. -/
theorem SequencerStakeConfig.length_released_le {old : SequencerEntry}
    (hfound : config.entries.lookup sequencerKey = some old) :
    (config.released sequencerKey entry).toBytes.length ≤ config.toBytes.length := by
  rw [length_toBytes, length_toBytes]
  unfold released
  split
  · have hlength : (config.entries.erase sequencerKey).entries.length
        ≤ config.entries.entries.length := List.length_filter_le _ _
    show 20 + 96 * (config.entries.erase sequencerKey).entries.length ≤ _
    omega
  · have hlength : (config.entries.insert sequencerKey entry).entries.length
        ≤ config.entries.entries.length := SortedMap.length_insert_of_lookup hfound
    show 20 + 96 * (config.entries.insert sequencerKey entry).entries.length ≤ _
    omega

omit [Sha256] in
theorem Backed.checkedSub_isSome {minimum : U128} {account : Account} {pending : PendingUnstake}
    (h : Backed programId minimum sequencerKey entry account)
    (htagged : Tagged programId account ⟨sequencerKey, some pending⟩) :
    (∃ balance, checkedSub account.balance pending.amount = some balance) ∧
      (∃ total, checkedSub entry.totalStaked pending.amount = some total) ∧
      ∃ total, checkedSub entry.totalPendingUnstake pending.amount = some total := by
  have hamount : pending.amount = entry.totalPendingUnstake := (h.pending_eq htagged).symm
  rw [hamount]
  exact ⟨⟨_, if_pos (h.covered.trans h.funded)⟩, ⟨_, if_pos h.covered⟩, ⟨_, if_pos le_rfl⟩⟩

/-- **A release that is in the books goes through**, if the destination can take it. -/
theorem Books.finalizeUnstake_isSome {accounts : AccountId → Account}
    (h : Books programId watched accounts config)
    (hentry : config.entries.lookup sequencerKey = some entry) (hwatched : watched entry.accountId)
    {pending : PendingUnstake} {ownership destination configAccount : AccountWithMetadata}
    (hownershipId : ownership.accountId = entry.accountId)
    (hownership : ownership.account = accounts entry.accountId)
    (htagged : Tagged programId ownership.account ⟨sequencerKey, some pending⟩)
    (hdestination : destination.accountId = pending.destination)
    (hfits : destination.account.balance.val + pending.amount.val < 2 ^ 128)
    (hconfigId : configAccount.accountId = sequencerStakeConfigAccountId programId)
    (hconfig : configAccount.account = accounts (sequencerStakeConfigAccountId programId)) :
    ∃ postStates, finalizeUnstake programId [ownership, destination, configAccount]
      = some postStates := by
  have hbacked := h.backed _ _ hentry hwatched
  rw [← hownership] at hbacked
  obtain ⟨⟨ownershipBalance, hbalance⟩, ⟨totalStaked, hstaked⟩, ⟨totalPending, hpending⟩⟩ :=
    hbacked.checkedSub_isSome htagged
  have hdata : (StakeRecord.mk sequencerKey none).toBytes.length ≤ dataMaxLength := by
    have hlength := (StakeRecord.mk sequencerKey none).length_toBytes_le
    have hmax : dataMaxLength = 716800 := rfl
    omega
  have hconfigData : (config.released sequencerKey
      { entry with totalStaked, totalPendingUnstake := totalPending }).toBytes.length
        ≤ dataMaxLength :=
    (length_released_le hentry).trans
      ((length_of_fromBytes h.opened.config).trans
        (accounts (sequencerStakeConfigAccountId programId)).data.length_le)
  refine ⟨_, finalizeUnstake_eq_some.mpr ⟨ownership, destination, configAccount, sequencerKey,
    pending, ownershipBalance, _, _, config, entry, totalStaked, totalPending, _, rfl,
    htagged.programOwner, htagged.record, hdestination, hbalance, dif_pos hdata, dif_pos hfits,
    ?_, hentry, hownershipId.symm, hstaked, hpending, dif_pos hconfigData, rfl⟩⟩
  rw [decodeConfig_eq_some, hconfig]
  exact ⟨hconfigId, h.opened.programOwner, h.opened.config⟩

end

/-! ### Runs -/

section

open CommitteeDiscovery

variable [StakeBuiltin] [Schnorr] [Builtins] [Receipts] [ImageId]

omit [StakeBuiltin] [Schnorr] [Builtins] [Receipts] [ImageId] [Serde Instruction] in
/-- Books without entries are right. -/
theorem Books.of_empty (watched : AccountId → Prop) {accounts : AccountId → Account}
    {minimum : U128} (h : Opened programId accounts ⟨minimum, .empty⟩) :
    Books programId watched accounts ⟨minimum, .empty⟩ := by
  have hnone : ∀ key entry,
      (SortedMap.empty : SortedMap SequencerKey SequencerEntry).lookup key ≠ some entry := by
    intro key entry hsome
    exact absurd hsome (by simp [SortedMap.lookup, SortedMap.empty])
  exact ⟨h, fun key entry hentry => absurd hentry (hnone key entry),
    fun key entry hentry => absurd hentry (hnone key entry)⟩

/-- The books are right along a run. -/
theorem books_of_run (hset : Setting exec) {genesis state : V03State} {minimum : U128}
    {txs : List LeeTransaction}
    (hgenesis : Opened sequencerStake genesis.getAccountById ⟨minimum, .empty⟩)
    (hrun : Run (Openly exec) genesis txs state) :
    ∃ config, Books sequencerStake (fun _ => True) state.getAccountById config ∧
      config.minimumSequencerStake = minimum := by
  refine hrun.invariant (P := fun state => ∃ config,
    Books sequencerStake (fun _ => True) state.getAccountById config ∧
      config.minimumSequencerStake = minimum) ?_ ⟨_, .of_empty _ hgenesis, rfl⟩
  rintro tx - a b hstep ⟨config, hbooks, hminimum⟩
  obtain ⟨config', hbooks', hminimum'⟩ := (hstep.moves hset).books hset.owns hbooks
  exact ⟨config', hbooks', hminimum'.trans hminimum⟩

/-- **The books of the stake program are right in every state that is reached from a genesis
with empty books.**  The programs that run, and those that bring in a stake, are arbitrary. -/
theorem stake_books (hset : Setting exec) {genesis state : V03State} {minimum : U128}
    {txs : List LeeTransaction}
    (hgenesis : Opened sequencerStake genesis.getAccountById ⟨minimum, .empty⟩)
    (hrun : Run (Openly exec) genesis txs state) :
    ∃ config : SequencerStakeConfig,
      Opened sequencerStake state.getAccountById config ∧
      config.minimumSequencerStake = minimum ∧
      (∀ key entry, config.entries.lookup key = some entry →
        (state.getAccountById entry.accountId).programOwner = ofProgramId sequencerStake ∧
        (∃ pending, StakeRecord.fromBytes (state.getAccountById entry.accountId).data.bytes
            = some ⟨key, pending⟩ ∧
          entry.totalPendingUnstake = pendingAmount pending) ∧
        entry.totalPendingUnstake ≤ entry.totalStaked ∧
        entry.totalStaked ≤ (state.getAccountById entry.accountId).balance ∧
        (entry.totalStaked.val - entry.totalPendingUnstake.val = 0 ∨
          minimum.val ≤ entry.totalStaked.val - entry.totalPendingUnstake.val)) ∧
      (∀ key key' entry entry', config.entries.lookup key = some entry →
        config.entries.lookup key' = some entry' → key ≠ key' →
        entry.accountId ≠ entry'.accountId) ∧
      (∀ key entry pending, config.entries.lookup key = some entry →
        StakeRecord.fromBytes (state.getAccountById entry.accountId).data.bytes
          = some ⟨key, some pending⟩ →
        (∃ balance, checkedSub (state.getAccountById entry.accountId).balance pending.amount
          = some balance) ∧
        (∃ total, checkedSub entry.totalStaked pending.amount = some total) ∧
        (∃ total, checkedSub entry.totalPendingUnstake pending.amount = some total) ∧
        ∀ ownership destination configAccount : AccountWithMetadata,
          ownership.accountId = entry.accountId →
          ownership.account = state.getAccountById entry.accountId →
          destination.accountId = pending.destination →
          destination.account.balance.val + pending.amount.val < 2 ^ 128 →
          configAccount.accountId = configAccountId →
          configAccount.account = state.getAccountById configAccountId →
          ∃ postStates, finalizeUnstake sequencerStake
            [ownership, destination, configAccount] = some postStates) := by
  obtain ⟨config, hbooks, rfl⟩ := books_of_run hset hgenesis hrun
  refine ⟨config, hbooks.opened, rfl, fun key entry hentry => ?_, ?_, ?_⟩
  · have hbacked := hbooks.backed key entry hentry trivial
    obtain ⟨pending, htagged, hpending⟩ := hbacked.tagged
    refine ⟨htagged.programOwner, ⟨pending, htagged.record, hpending⟩, hbacked.covered,
      hbacked.funded, ?_⟩
    have hstands := hbacked.stands
    omega
  · intro key key' entry entry' hentry hentry' hne heq
    obtain ⟨pending, htagged, -⟩ := (hbooks.backed key' entry' hentry' trivial).tagged
    rw [← heq] at htagged
    exact hne (hbooks.key_eq hentry trivial htagged).symm
  · intro key entry pending hentry hrecord
    have hbacked := hbooks.backed key entry hentry trivial
    obtain ⟨_, howned, -⟩ := hbacked.tagged
    have htagged : Tagged sequencerStake (state.getAccountById entry.accountId)
        ⟨key, some pending⟩ := ⟨howned.programOwner, hrecord⟩
    obtain ⟨hbalance, hstaked, hpending⟩ := hbacked.checkedSub_isSome htagged
    refine ⟨hbalance, hstaked, hpending, ?_⟩
    intro ownership destination configAccount hid haccount hdestination hfits hconfigId hconfig
    exact hbooks.finalizeUnstake_isSome hentry trivial hid haccount (haccount ▸ htagged)
      hdestination hfits hconfigId hconfig

end

end

/-! A sequencer: `bob` stakes 150 for a key with the account of `alice`, by authenticated
transfer, and `alice` asks for a release.  The minimum is 100. -/

namespace Staking

open scoped Idle AuthenticatedTransfer

def stakeProgram : ProgramId := .ofWord 1

def authTransfer : ProgramId := .ofWord 2

scoped instance builtin : StakeBuiltin := ⟨stakeProgram⟩

/-- The base point of the curve. -/
def keyBytes : Bytes 32 :=
  ofHex 0x5866666666666666666666666666666666666666666666666666666666666666

scoped instance ed25519 : Ed25519 := ⟨fun bytes => decide (bytes = keyBytes)⟩

def configId : AccountId :=
  ⟨ofHex 0x48b2dde2ba1e91836184f20e23ee62c40d3c82cceb81bf881020d916650b7ab5⟩

/-- An account that nobody has used. -/
def nobody : AccountId := ⟨.replicate 32 9⟩

def key : SequencerKey := ⟨keyBytes, by decide +kernel⟩

/-- Some instructions, an account id travelling as its base58 text. -/
@[reducible] def table : Serde Instruction := .ofTable
  [(.stake key 150 authTransfer [0, 150, 0, 0, 0],
    [0, 88, 102, 102, 102, 102, 102, 102, 102, 102, 102, 102, 102, 102, 102, 102, 102, 102, 102,
     102, 102, 102, 102, 102, 102, 102, 102, 102, 102, 102, 102, 102, 102, 150, 0, 0, 0, 2, 0, 0,
     0, 0, 0, 0, 0, 5, 0, 150, 0, 0, 0]),
   (.unstakeRequest 50 bob,
    [2, 50, 0, 0, 0, 44, 1684893506, 1902800503, 1868854593, 1131368782, 1245133140, 2038061389,
     1429485653, 1483371860, 1799898465, 1748058474, 1650806352]),
   (.unstakeRequest 50 nobody,
    [2, 50, 0, 0, 0, 43, 1214662499, 1261847401, 1177773927, 1985627760, 1665628007, 1131640691,
     879785042, 844120673, 1484094054, 1766871378, 5141882]),
   (.unstakeRequest 150 bob,
    [2, 150, 0, 0, 0, 44, 1684893506, 1902800503, 1868854593, 1131368782, 1245133140, 2038061389,
     1429485653, 1483371860, 1799898465, 1748058474, 1650806352]),
   (.finalizeUnstake, [3])]

scoped instance serde : Serde Instruction where
  toWords
    | .confirmStake balance => 1 :: ofLeWords (leBytes 16 balance.val)
    | instruction => table.toWords instruction
  fromWords
    | 1 :: a :: b :: c :: d :: _ =>
      some (.confirmStake (Fin.ofNat (2 ^ 128) (ofLeBytes (leWords [a, b, c, d]))))
    | words => table.fromWords words

def stakeMessage : PublicTransaction.Message :=
  ⟨stakeProgram, [bob, alice, configId], [⟨0⟩, ⟨0⟩],
    serde.toWords (.stake key 150 authTransfer [0, 150, 0, 0, 0])⟩

def stakeHash : Bytes 32 :=
  ofHex 0xd2067ca3e5cce2456ef9f35625c6965c5033df0f553d0a0ea6e3d1c0c8611d0c

def bobSignature : Signature := .ofHex
  0xc01f91b03584098a2757ec1393274b1fa0b4af45fcfd5fc3115690167bd14b5f
  0x3f7b3e331f1cd4679f31062325f262001c5b8ebad0dcdf4a785b4e5621f9de0d

def aliceSignature : Signature := .ofHex
  0x0ef8f75bfa703f482ec2cf001c2344eba0cd8fad1af0b51a0f3eee37fa4e3a00
  0xdbe92d8c1f63926d374382afce8156adf70aa9429f683c43b28b1f6afbb60ef2

def requestMessage (pending : PendingUnstake) : PublicTransaction.Message :=
  ⟨stakeProgram, [alice, configId], [⟨1⟩],
    serde.toWords (.unstakeRequest pending.amount pending.destination)⟩

/-- The requests that are made: of a part to `bob` and to nobody, and of everything. -/
def requests : List (PendingUnstake × Bytes 32 × Signature) :=
  [(⟨50, bob⟩,
    ofHex 0x3eedc0a2c96186d6f024626c96a8512bb6eca58c95fe77056e755b423dfd6876,
    .ofHex 0x76cb1d4d3f3c1a4d7a7b38e3494942c8e088608da9ca532e2e612116b9534d9c
      0x9c589f7ff5eaacfc45d862b655d7ac7e1921a9a2938585f5b94ba9cd2656f9d0),
   (⟨50, nobody⟩,
    ofHex 0xa0cdc03d379aca899a5bdef767641520328b55841e5de97fb284184618b7914b,
    .ofHex 0xb83e0f480d1c80e580f0c095bcd324853d2907bc1a30c27a4657230f09e6050d
      0xcbf0eaf7f903b68854bb2fd13ffa0bd7a727337d39baf44701a1c57beee5e429),
   (⟨150, bob⟩,
    ofHex 0xc7655cc0770b68906e0e25d4467d2ff8fa25cc96c6e3ffb908b0b31c736340b2,
    .ofHex 0x4d8ec8c4856dc4b7db745197aa0dd15fec28eba66aa9f05cfdae6eee2e77d6ed
      0xb0b2a5de386a078b4b9c8b3aadc4de85418f320b67b8cd1c2ad812bb2120c158)]

scoped instance sha : Sha256 := .ofTable
  ([(publicPdaBytes stakeProgram sequencerStakeConfigSeed, configId.value),
    (publicAccountBytes Sample.key, alice.value),
    (publicAccountBytes bobKey, bob.value),
    (stakeMessage.hashBytes, stakeHash)] ++
    requests.map fun request => ((requestMessage request.1).hashBytes, request.2.1))

scoped instance schnorr : Schnorr := .ofTable
  ([(bobKey, stakeHash, bobSignature), (Sample.key, stakeHash, aliceSignature)] ++
    requests.map fun request => (Sample.key, request.2.1, request.2.2))

/-- No other program of the node runs. -/
scoped instance : Builtins := ⟨.ofWord 3, .ofWord 4, .ofWord 5, .ofWord 6⟩

def guests (programId : ProgramId) : Guest :=
  if programId = stakeProgram then main
  else if programId = authTransfer then AuthenticatedTransfer.main
  else fun _ _ _ _ => none

def exec : Executor := .ofGuests guests

def genesis : V03State := .ofAccounts
  [deployedAt stakeProgram, deployedAt authTransfer,
   (configId, .storing stakeProgram (SequencerStakeConfig.mk 100 .empty).toBytes),
   (bob, { Account.ownedBy authTransfer with balance := 1000 })]

def stakeTx : LeeTransaction :=
  .publicTx ⟨stakeMessage, ⟨[(bobSignature, bobKey), (aliceSignature, Sample.key)]⟩⟩

def requestTx (pending : PendingUnstake) : LeeTransaction :=
  .publicTx ⟨requestMessage pending, ⟨(requests.filter fun request => request.1 = pending).map
    fun request => (request.2.2, Sample.key)⟩⟩

/-- Execute a public transaction. -/
def execute (state : V03State) (tx : LeeTransaction) : Option V03State :=
  match tx with
  | .publicTx _ => (state.apply (tx.computeStateDiff exec state 0 0)).toOption
  | _ => none

/-- The state after some transactions. -/
def after (txs : List LeeTransaction) : Option V03State := txs.foldlM execute genesis

/-- A balance is read back from its four words. -/
theorem fromWords_confirmStake (balance : U128) :
    fromWords (toWords (Instruction.confirmStake balance))
      = some (Instruction.confirmStake balance) := by
  have hlength : (ofLeWords (leBytes 16 balance.val)).length = 4 := by
    rw [length_ofLeWords, length_leBytes]
  have hbytes : leWords (ofLeWords (leBytes 16 balance.val))
      = leBytes 16 balance.val :=
    leWords_ofLeWords _ (show _ = 4 * 4 by rw [length_leBytes])
  show serde.fromWords (1 :: ofLeWords (leBytes 16 balance.val)) = _
  match hwords : ofLeWords (leBytes 16 balance.val), hlength with
  | [a, b, c, d], _ =>
    rw [hwords] at hbytes
    show some (Instruction.confirmStake (Fin.ofNat (2 ^ 128)
      (ofLeBytes (leWords [a, b, c, d])))) = _
    rw [hbytes, ofLeBytes_leBytes]
    congr 2
    rw [Fin.ext_iff]
    show balance.val % 256 ^ 16 % 2 ^ 128 = balance.val
    have hlt := balance.isLt
    omega

theorem setting : Setting exec where
  runs := executes_ofGuests rfl
  owns := by decide +kernel
  confirms := fromWords_confirmStake

theorem openly_of_execute (tx : LeeTransaction) (state state' : V03State)
    (h : execute state tx = some state') : Openly exec tx state state' := by
  unfold execute at h
  split at h
  · refine ⟨⟨0, 0, toOption_eq_some.mp h⟩, fun _ => by simp, ?_⟩
    rintro accountId ⟨dtx, programId, hdeploy, -⟩
    cases hdeploy
  · cases h

end Staking

section

open Idle Staking

/-- After the stake and a request for 50, the books have 150 for the key and 50 of it
pending. -/
theorem staked_and_requested :
    ∃ state config, Run (Openly exec) genesis
        [stakeTx, requestTx ⟨50, bob⟩] state ∧
      Opened stakeProgram state.getAccountById config ∧
      config.entries.lookup key = some ⟨alice, 150, 50⟩ ∧
      (state.getAccountById alice).programOwner = ofProgramId stakeProgram ∧
      (150 : U128) ≤ (state.getAccountById alice).balance := by
  obtain ⟨state, hrun, hbytes⟩ := Run.exists_of_foldlM openly_of_execute
    (by decide +kernel : ∃ state,
      after [stakeTx, requestTx ⟨50, bob⟩] = some state ∧
        (SequencerStakeConfig.fromBytes (state.getAccountById configId).data.bytes).map
          (fun config => config.entries.lookup key) = some (some ⟨alice, 150, 50⟩))
  obtain ⟨config, hopened, -, hentries, -, -⟩ :=
    stake_books setting ⟨by decide +kernel, rfl⟩ hrun
  have hconfig := hopened.config
  rw [show sequencerStakeConfigAccountId sequencerStake = configId by
    decide +kernel] at hconfig
  rw [hconfig] at hbytes
  have hentry := some.inj hbytes
  obtain ⟨howner, -, -, hfunded, -⟩ := hentries _ _ hentry
  exact ⟨state, config, hrun, hopened, hentry, howner, hfunded⟩

end

end SequencerStake

end Lssa
