/-
The supply of the wrapped token.

Balances of the wrapped token are the data of its holdings, so they change only when the token
runs.  It writes a balance only for its minter, the inbox, and the inbox calls it only to deliver
a message.  So in a public transaction the supply grows only by a delivered message, and by no
more than its payload mints (`supply_of_accepted`).

* `supply_eq_finsum` — the supply is a sum over all accounts;
* `held_step`, `held_mint` — what a call does to balances.
-/
import Lssa.CrossZone.Once

open DepthFirst Borsh

namespace Lssa

open Builtins (crossZoneInbox)

open PublicExecution InboundDelivery

namespace WrappedToken

open CrossZoneInbox (ZoneId CrossZoneMessage inboxSourceMarkerAccountId deliveredMessage
  dispatchedMessage)

/-! ### The supply -/

/-- The balance in an account, if it is one of the token. -/
def heldIn (wrapped : ProgramId) (account : Account) : ℕ :=
  if account.programOwner = ofProgramId wrapped then readBalance account.data.bytes else 0

section

variable {wrapped : ProgramId} {a b : Account}

theorem heldIn_eq_zero (h : a.programOwner ≠ .ofProgramId wrapped) :
    heldIn wrapped a = 0 := if_neg h

theorem heldIn_congr (howner : a.programOwner = b.programOwner) (hdata : a.data = b.data) :
    heldIn wrapped a = heldIn wrapped b := by
  rw [heldIn, heldIn, howner, hdata]

theorem heldIn_default : heldIn wrapped Account.default = 0 := by
  unfold heldIn
  split <;> rfl

end

variable [Sha256]

/-- The balances of all holdings, which are the accounts of the token but for its
configuration. -/
def supply (wrapped : ProgramId) (state : V03State) : ℕ :=
  ∑ accountId ∈ state.publicState.keys.toFinset.erase (configAccountId wrapped),
    heldIn wrapped (state.getAccountById accountId)

/-- What an account adds to the supply. -/
def heldAt (wrapped : ProgramId) (state : V03State) (accountId : AccountId) : ℕ :=
  if accountId = configAccountId wrapped then 0
  else heldIn wrapped (state.getAccountById accountId)

section

variable {wrapped : ProgramId} {state state' : V03State}

theorem heldAt_support_subset (wrapped : ProgramId) (state : V03State) :
    Function.support (heldAt wrapped state) ⊆
      (state.publicState.keys.toFinset.erase (configAccountId wrapped) : Set AccountId) := by
  intro accountId hsupport
  have hconfig : accountId ≠ configAccountId wrapped := fun heq => hsupport (if_pos heq)
  have hkey := Ledger.support_get_subset (f := heldIn wrapped) heldIn_default state.publicState
    (show heldIn wrapped (state.getAccountById accountId) ≠ 0 by
      rwa [Function.mem_support, heldAt, if_neg hconfig] at hsupport)
  exact Finset.mem_coe.mpr (Finset.mem_erase.mpr ⟨hconfig, Finset.mem_coe.mp hkey⟩)

/-- The supply is a sum over all accounts. -/
theorem supply_eq_finsum (wrapped : ProgramId) (state : V03State) :
    supply wrapped state = ∑ᶠ accountId, heldAt wrapped state accountId := by
  rw [finsum_eq_sum_of_support_subset _ (heldAt_support_subset wrapped state)]
  refine Finset.sum_congr rfl fun accountId hmem => ?_
  rw [heldAt, if_neg (Finset.mem_erase.mp hmem).1]

/-- A supply that grows in one account only. -/
theorem supply_le_add {holding : AccountId} {amount : ℕ}
    (h : ∀ accountId, accountId ≠ configAccountId wrapped →
      heldIn wrapped (state'.getAccountById accountId) ≤
        heldIn wrapped (state.getAccountById accountId)
          + if accountId = holding then amount else 0) :
    supply wrapped state' ≤ supply wrapped state + amount := by
  rw [supply_eq_finsum, supply_eq_finsum]
  refine Ledger.finsum_le_add ((Finset.finite_toSet _).subset (heldAt_support_subset wrapped state))
    ((Finset.finite_toSet _).subset (heldAt_support_subset wrapped state')) (k := holding) ?_
  intro accountId
  by_cases hconfig : accountId = configAccountId wrapped
  · rw [heldAt, if_pos hconfig]
    exact Nat.zero_le _
  · rw [heldAt, heldAt, if_neg hconfig, if_neg hconfig]
    exact h accountId hconfig

theorem supply_le (h : ∀ accountId, heldIn wrapped (state'.getAccountById accountId) ≤
    heldIn wrapped (state.getAccountById accountId)) :
    supply wrapped state' ≤ supply wrapped state := by
  have hadd : ∀ accountId, accountId ≠ configAccountId wrapped →
      heldIn wrapped (state'.getAccountById accountId) ≤
        heldIn wrapped (state.getAccountById accountId)
          + if accountId = configAccountId wrapped then 0 else 0 := by
    intro accountId _
    simpa using h accountId
  exact supply_le_add hadd

end

/-! ### What a call does to balances -/

variable [Builtins] [Serde CrossZoneInbox.Instruction] [Serde Instruction]

/-- The token mints for the inbox, and for these sources. -/
def Authorizes (wrapped : ProgramId) (state : V03State) (sources : List (ZoneId × ProgramId)) :
    Prop :=
  ∃ cfg, WrappedTokenConfig.fromBytes
      (state.getAccountById (configAccountId wrapped)).data.bytes = some cfg ∧
    cfg.minter = crossZoneInbox ∧ cfg.sources.val = sources

section

variable {exec : Executor} {tx : PublicTransaction} {state state' : V03State} {blockId : BlockId}
  {timestamp : Timestamp} {wrapped : ProgramId} {diff diff' : Diff} {call : Call}
  {output : ProgramOutput} {sources : List (ZoneId × ProgramId)}

/-- A call leaves balances alone, unless the inbox calls the token. -/
theorem held_step (hset : Setting exec wrapped state)
    (hstep : Step exec state blockId timestamp diff call output diff')
    (hconfig : ConfigKept state wrapped diff)
    (hnot : call.1.programId = wrapped → call.2.programId ≠ some crossZoneInbox)
    (accountId : AccountId) :
    heldIn wrapped (overlay state diff' accountId) =
      heldIn wrapped (overlay state diff accountId) := by
  by_cases hprogram : call.1.programId = wrapped
  · have hkept := wrapped_step hset hstep hconfig hprogram (hnot hprogram) accountId
    exact heldIn_congr hkept.programOwner hkept.data
  · rcases hstep.foreign hset.wrappedOwns hprogram accountId with ⟨-, hkept⟩ | ⟨hbefore, hafter⟩
    · exact heldIn_congr hkept.programOwner hkept.data
    · rw [heldIn_eq_zero hbefore, heldIn_eq_zero hafter]

/-- What the inbox lets the token do: a mint for a source of the configuration, into one
holding. -/
theorem held_mint (hset : Setting exec wrapped state) (hsources : Authorizes wrapped state sources)
    (hstep : Step exec state blockId timestamp diff call output diff')
    (hconfig : ConfigKept state wrapped diff) (hprogram : call.1.programId = wrapped)
    (hcaller : call.2.programId = some crossZoneInbox) :
    ∃ recipient amount holding, fromWords call.1.instructionData =
        some (Instruction.mint recipient amount) ∧
      output.chainedCalls = [] ∧
      (∃ marker rest, call.1.preStates = marker :: rest ∧ ∃ source ∈ sources, marker.accountId =
        inboxSourceMarkerAccountId crossZoneInbox source.1 source.2) ∧
      ∀ accountId, heldIn wrapped (overlay state diff' accountId) ≤
        heldIn wrapped (overlay state diff accountId)
          + if accountId = holding then amount.val else 0 := by
  rcases main_cases (hset.wrappedRuns.of_execute hprogram hstep.executed) with
    ⟨recipient, amount, hinstruction, hgiven, marker, config, holding, cfg, data, hminted⟩ |
    ⟨hnone, -⟩
  swap
  · rw [hnone] at hcaller
    cases hcaller
  refine ⟨recipient, amount, holding.accountId, hinstruction, hminted.chainedCalls, ?_,
    fun accountId => ?_⟩
  · -- the configuration it read is the one of the state
    obtain ⟨cfg', hcfg', hminter, rfl⟩ := hsources
    have hmem : config ∈ output.preStates := by
      rw [hminted.preStates]
      simp
    have hdecodes := hminted.decodes
    have hdata : config.account.data = (state.getAccountById (configAccountId wrapped)).data := by
      rw [hstep.consistent config hmem, hminted.configId]
      exact hconfig.data
    rw [hdata, hcfg'] at hdecodes
    cases hdecodes
    obtain ⟨source, hsource, hmarker⟩ := hminted.source
    rw [hminter] at hmarker
    exact ⟨marker, [config, holding], hgiven.symm.trans hminted.preStates, source, hsource, hmarker⟩
  · rcases hstep.effect accountId with heq | ⟨pre, post, hpair, hid, hpre, heffect⟩
    · rw [heq]
      exact Nat.le_add_right _ _
    -- an account that keeps its data, or is not the token's, adds nothing
    have hsame : post.account.data = pre.account.data →
        heldIn wrapped (overlay state diff' accountId) ≤
          heldIn wrapped (overlay state diff accountId) := by
      intro hdata
      rw [← hpre]
      rcases heffect.programOwner with howner | ⟨hdefault, -, -⟩
      · exact (heldIn_congr howner (heffect.data.trans hdata)).le
      · unfold heldIn
        rw [heffect.data, hdata, hdefault]
        split <;> exact Nat.zero_le _
    rw [hminted.preStates, hminted.written] at hpair
    simp only [zip_cons_cons, List.zip_nil_right, mem_cons, Prod.mk.injEq,
      not_mem_nil, or_false] at hpair
    rcases hpair with ⟨rfl, rfl⟩ | ⟨rfl, rfl⟩ | ⟨rfl, rfl⟩
    · exact (hsame rfl).trans (Nat.le_add_right _ _)
    · exact (hsame rfl).trans (Nat.le_add_right _ _)
    · rw [if_pos hid.symm]
      have hafter : heldIn wrapped (overlay state diff' accountId) ≤
          readBalance pre.account.data.bytes + amount.val := by
        unfold heldIn
        split
        · rw [heffect.data]
          exact hminted.balance
        · exact Nat.zero_le _
      by_cases howned : pre.account.programOwner = .ofProgramId wrapped
      · rw [← hpre]
        rwa [show heldIn wrapped pre.account = readBalance pre.account.data.bytes from
          if_pos howned]
      · rcases heffect.programOwner with hkept | ⟨hdefault, -, -⟩
        · -- another program's account
          rw [heldIn_eq_zero (by rw [hkept]; exact howned)]
          exact Nat.zero_le _
        · have hnothing : readBalance pre.account.data.bytes = 0 := by
            rw [hdefault]
            rfl
          omega

/-! ### What a transaction does to the supply -/

variable [Schnorr]

theorem configKept_of_accepted (hset : Setting exec wrapped state) {diff : StateDiff}
    (h : Accepted exec tx state blockId timestamp diff) :
    ConfigKept state wrapped diff.publicDiff :=
  h.threads.invariant (P := ConfigKept state wrapped)
    (fun v hv => configKept_step hset (callTree_step hv))
    (by rw [ConfigKept, overlay_empty]; exact .refl _)

omit [Serde CrossZoneInbox.Instruction] [Serde Instruction] [Schnorr] in
theorem Authorizes.of_data (h : Authorizes wrapped state sources)
    (hdata : (state'.getAccountById (configAccountId wrapped)).data =
      (state.getAccountById (configAccountId wrapped)).data) :
    Authorizes wrapped state' sources := by
  rw [Authorizes, hdata]
  exact h

omit [Schnorr] in
theorem setting_of_same (h : Setting exec wrapped state)
    (howner : (state'.getAccountById (configAccountId wrapped)).programOwner =
      (state.getAccountById (configAccountId wrapped)).programOwner)
    (hdata : (state'.getAccountById (configAccountId wrapped)).data =
      (state.getAccountById (configAccountId wrapped)).data) : Setting exec wrapped state' where
  inboxRuns := h.inboxRuns
  wrappedRuns := h.wrappedRuns
  inboxOwns := h.inboxOwns
  wrappedOwns := h.wrappedOwns
  configured := howner.trans h.configured
  minter := by
    rw [hdata]
    exact h.minter

/-- Balances stay as they are if the inbox does not call the token. -/
theorem held_of_uncalled (hset : Setting exec wrapped state) {diff : StateDiff}
    (h : Accepted exec tx state blockId timestamp diff)
    (happly : state.applyStateDiff diff = some state')
    (hnot : ∀ v ∈ callTree exec tx state blockId timestamp, v.call.1.programId = wrapped →
      v.call.2.programId ≠ some crossZoneInbox) (accountId : AccountId) :
    heldIn wrapped (state'.getAccountById accountId) =
      heldIn wrapped (state.getAccountById accountId) := by
  have hconfig : ∀ v ∈ callTree exec tx state blockId timestamp,
      ConfigKept state wrapped v.before :=
    h.threads.before (fun v hv => configKept_step hset (callTree_step hv))
      (by rw [ConfigKept, overlay_empty]; exact .refl _)
  have hheld := h.threads.invariant
    (P := fun d => heldIn wrapped (overlay state d accountId) =
      heldIn wrapped (state.getAccountById accountId))
    (fun v hv hbefore => (held_step hset (callTree_step hv) (hconfig v hv) (hnot v hv)
      accountId).trans hbefore)
    (by rw [overlay_empty])
  have hfunds := h.funds happly accountId
  exact (heldIn_congr hfunds.programOwner hfunds.data).trans hheld

/-- **What a public transaction does to the supply.**  It grows only if the transaction delivers
a message to the token, from a source of the configuration, and by no more than the message
mints. -/
theorem supply_of_accepted (hset : Setting exec wrapped state)
    (hsources : Authorizes wrapped state sources) (hdistinct : wrapped ≠ crossZoneInbox)
    {diff : StateDiff} (h : Accepted exec tx state blockId timestamp diff)
    (happly : state.applyStateDiff diff = some state') :
    supply wrapped state' ≤ supply wrapped state ∨
      ∃ msg recipient amount, deliveredMessage exec tx state blockId timestamp = some msg ∧
        fromWords (ofLeWords msg.payload) = some (Instruction.mint recipient amount) ∧
        (∃ source ∈ sources,
          inboxSourceMarkerAccountId crossZoneInbox msg.srcZone msg.srcProgramId =
            inboxSourceMarkerAccountId crossZoneInbox source.1 source.2) ∧
        supply wrapped state' ≤ supply wrapped state + amount.val := by
  by_cases hcalled : ∃ v ∈ callTree exec tx state blockId timestamp, v.call.1.programId = wrapped ∧
      v.call.2.programId = some crossZoneInbox
  swap
  · refine .inl (supply_le fun accountId => (held_of_uncalled hset h happly ?_ accountId).le)
    exact fun v hv hprogram hcaller => hcalled ⟨v, hv, hprogram, hcaller⟩
  obtain ⟨v, hv, hprogram, hcaller⟩ := hcalled
  have huncalled := inbox_uncalled hset.inboxRuns
  have hroot : tx.message.programId = crossZoneInbox := by
    by_contra hroot
    exact huncalled.never_calls hroot hv hcaller
  obtain ⟨output, mid, hstep, hrest⟩ := h.first
  have hnext := huncalled.mem_nextCalls hv hcaller hstep.executed
  -- the inbox has one call to make, and this is it
  rcases CrossZoneInbox.main_ok (hset.inboxRuns.of_execute hroot hstep.executed) with
    ⟨msg, hdecodes, shard, config, seen, marker, targetAccounts, hdispatched⟩ |
    ⟨-, hconfigured⟩
  swap
  · rw [nextCalls, hconfigured.chainedCalls] at hnext
    cases hnext
  cases hdispatched.dispatches with
  | replayed _ _ hcalls =>
    rw [nextCalls, hcalls] at hnext
    cases hnext
  | delivered data _ _ _ hcalls =>
    have hmessage : deliveredMessage exec tx state blockId timestamp = some msg := by
      rw [deliveredMessage, if_pos ⟨v, hv, hcaller⟩]
      exact CrossZoneInbox.dispatchedMessage_eq_some.mpr ⟨hroot, hdecodes⟩
    rw [nextCalls, hcalls, map_singleton, mem_singleton] at hnext
    rw [nextCalls, hcalls, map_singleton, ← hnext] at hrest
    obtain ⟨result, last, hmint, hlast⟩ := run_singleton hrest
    have hstart : ConfigKept state wrapped ∅ := by
      rw [ConfigKept, overlay_empty]
      exact .refl _
    have hmid := configKept_step hset hstep hstart
    obtain ⟨recipient, amount, holding, hwords, hnone, ⟨first, rest, hgiven, hsource⟩, hheld⟩ :=
      held_mint hset hsources hmint hmid hprogram hcaller
    obtain rfl : last = diff.publicDiff := hlast hnone
    have hforeign : (firstCall state tx).1.programId = wrapped →
        (firstCall state tx).2.programId ≠ some crossZoneInbox := fun hwrapped =>
      absurd (hwrapped.symm.trans hroot) hdistinct
    have hgrowth : ∀ accountId, accountId ≠ configAccountId wrapped →
        heldIn wrapped (state'.getAccountById accountId) ≤
          heldIn wrapped (state.getAccountById accountId)
            + if accountId = holding then amount.val else 0 := by
      intro accountId _
      have hfunds := h.funds happly accountId
      have hfirst := held_step hset hstep hstart hforeign accountId
      rw [overlay_empty] at hfirst
      rw [heldIn_congr hfunds.programOwner hfunds.data, ← hfirst]
      exact hheld accountId
    refine .inr ⟨msg, recipient, amount, hmessage, ?_, ?_, supply_le_add hgrowth⟩
    · rw [hnext] at hwords
      exact hwords
    · rw [hnext] at hgiven
      obtain ⟨rfl, -⟩ := cons.inj hgiven
      rw [hdispatched.markerId] at hsource
      exact hsource

end

end WrappedToken

end Lssa
