/-
What a public transaction can and cannot do to accounts.

Programs are arbitrary and may call each other to any shape of tree, yet

* the native balance of all public accounts together is the same before and
  after, and accounts no call lists stay as they are
  (`publicTransaction_conserves_balance`);
* an owned account keeps its owner, only its owner spends or rewrites it, and an
  unowned one is only taken over on the grounds of a claim
  (`publicTransaction_respects_ownership`).

Both are invariants of the running diff: one call keeps them by `Step.effect`
and `Step.balance_eq`, and a whole tree by `Machine.Threads.invariant`.
-/
import Lssa.PublicExecution

open DepthFirst

namespace Lssa

open PublicExecution

/-! ### Conservation -/

/-- The native balance of all public accounts under a pending diff. -/
def overlayTotal (state : V03State) (diff : Diff) : ℕ :=
  Ledger.total (fun account : Account => account.balance.val) (writeDiff state.publicState diff)

theorem finite_support_overlay (state : V03State) (diff : Diff) :
    (Function.support fun accountId => (overlay state diff accountId).balance.val).Finite := by
  have h := Ledger.finite_support_get (f := fun account : Account => account.balance.val)
    (d := .default) rfl (writeDiff state.publicState diff)
  simpa only [get_writeDiff] using h

theorem overlayTotal_eq_finsum (state : V03State) (diff : Diff) :
    overlayTotal state diff = ∑ᶠ accountId, (overlay state diff accountId).balance.val := by
  rw [overlayTotal, Ledger.total_eq_finsum (d := .default) rfl]
  simp only [get_writeDiff]

theorem overlayTotal_empty (state : V03State) : overlayTotal state ∅ = state.totalBalance := by
  rw [overlayTotal_eq_finsum, V03State.totalBalance_eq_finsum]
  simp only [overlay_empty]

section

variable [Sha256] {exec : Executor} {state state' : V03State} {blockId : BlockId}
  {timestamp : Timestamp}

/-- One call moves balance around and neither makes nor destroys any. -/
theorem overlayTotal_step {diff diff' : Diff} {call : Call} {output : ProgramOutput}
    (h : Step exec state blockId timestamp diff call output diff') :
    overlayTotal state diff' = overlayTotal state diff := by
  rw [overlayTotal_eq_finsum, overlayTotal_eq_finsum]
  have hsum := Ledger.finsum_add_sum h.validExecution.nodup (finite_support_overlay state diff)
    (finite_support_overlay state diff') fun accountId hnot => by
      rw [overlay, overlay, h.untouched fun hmem => hnot (mem_map.mpr hmem)]
  have hcall := h.balance_eq
  omega

variable [Schnorr] {tx : PublicTransaction}

theorem Accepted.overlayTotal_eq {diff : StateDiff}
    (h : Accepted exec tx state blockId timestamp diff) :
    overlayTotal state diff.publicDiff = state.totalBalance := by
  refine h.threads.invariant (P := fun d => overlayTotal state d = state.totalBalance) ?_
    (overlayTotal_empty state)
  intro v hv hbefore
  rw [overlayTotal_step (callTree_step hv), hbefore]

theorem Accepted.overlay_eq_of_unlisted {diff : StateDiff}
    (h : Accepted exec tx state blockId timestamp diff) {accountId : AccountId}
    (hunlisted : ∀ v ∈ callTree exec tx state blockId timestamp, ¬Mentions v.entry accountId) :
    overlay state diff.publicDiff accountId = state.getAccountById accountId := by
  refine h.threads.invariant
    (P := fun d => overlay state d accountId = state.getAccountById accountId) ?_
    (overlay_empty state accountId)
  intro v hv hbefore
  rw [overlay, (callTree_step hv).untouched (hunlisted v hv)]
  exact hbefore

/-- **Public transactions conserve native balance.**  Whatever the programs do, the
balances of all public accounts add up to the same integer before and after, and an
account that no output lists and no key of which signed is unchanged. -/
theorem publicTransaction_conserves_balance
    (h : transitionFromPublicTransaction exec state tx blockId timestamp = .ok state') :
    state'.totalBalance = state.totalBalance ∧
      ∀ accountId,
        (∀ v ∈ callTree exec tx state blockId timestamp, ¬Mentions v.entry accountId) →
        accountId ∉ tx.signerAccountIds →
        state'.getAccountById accountId = state.getAccountById accountId := by
  obtain ⟨diff, haccepted, happly⟩ := transitionFromPublicTransaction_ok h
  have hfunds := applyStateDiff_funds happly haccepted.program
  constructor
  · have hbalance : ∀ accountId, (state'.getAccountById accountId).balance.val
        = (overlay state diff.publicDiff accountId).balance.val :=
      fun accountId => congrArg Fin.val (hfunds accountId).1.balance
    rw [V03State.totalBalance_eq_finsum, finsum_congr hbalance, ← overlayTotal_eq_finsum]
    exact haccepted.overlayTotal_eq
  · intro accountId hunlisted hunsigned
    rw [(hfunds accountId).2 (haccepted.signers ▸ hunsigned)]
    exact haccepted.overlay_eq_of_unlisted hunlisted

end

/-! A program that pays 4 out of an account it owns into a PDA of its own, claiming it. -/

namespace Payout

open Sample (pda seed)

def payer : ProgramId := .ofWord 1

def fund : AccountId := ⟨.replicate 32 1⟩

scoped instance sha : Sha256 := .ofTable [(publicPdaBytes payer seed, pda.value)]

/-- No key signs: the programs decide what they do with the accounts they own. -/
scoped instance schnorr : Schnorr := ⟨fun _ _ _ => false⟩

def exec : Executor := fun program caller preStates instruction =>
  match preStates with
  | [fund, pda] => .ok (ProgramOutput.new program.id caller instruction preStates
      [ .new { fund.account with balance := fund.account.balance - 4 },
        .newClaimed { pda.account with balance := pda.account.balance + 4 } (.pda seed) ])
  | _ => .error (.programExecutionFailed "two accounts expected")

def state : V03State := .ofAccounts
  [deployedAt payer, (fund, { Account.ownedBy payer with balance := 10 })]

def tx : PublicTransaction := ⟨⟨payer, [fund, pda], [], []⟩, ⟨[]⟩⟩

end Payout

section

open Payout Sample

theorem payout_conserves_balance :
    ∃ state', transitionFromPublicTransaction exec state tx 0 0 = .ok state' ∧
      (state'.getAccountById pda).balance = 4 ∧
      state'.totalBalance = state.totalBalance := by
  obtain ⟨state', h, hbalance⟩ : ∃ state', transitionFromPublicTransaction exec state
      tx 0 0 = .ok state' ∧ (state'.getAccountById pda).balance = 4 := by
    decide +kernel
  exact ⟨state', h, hbalance, (publicTransaction_conserves_balance h).1⟩

end

/-! ### Ownership -/

section

variable [Sha256] {exec : Executor} {state state' : V03State} {blockId : BlockId}
  {timestamp : Timestamp}

/-- The output of the call claims the account, which is authorized for the call or
a PDA of the executing program. -/
def Claims (v : Visit Diff Call ProgramOutput) (accountId : AccountId) : Prop :=
  ∃ pre post, (pre, post) ∈ v.result.preStates.zip v.result.postStates ∧
    pre.accountId = accountId ∧
    ((post.claim = some .authorized ∧ isAuthorized v.call accountId = true) ∨
      ∃ seed, post.claim = some (.pda seed) ∧ accountId = forPublicPda v.call.1.programId seed)

/-- What is left of an account with an owner: the owner, and the funds and data
unless the owner ran on it in the tree. -/
def KeptFor (tree : List (Visit Diff Call ProgramOutput)) (owner : ProgramId)
    (accountId : AccountId) (before after : Account) : Prop :=
  after.programOwner = before.programOwner ∧
    (after.data ≠ before.data ∨ after.balance < before.balance →
      ∃ v ∈ tree, v.call.1.programId = owner ∧ Mentions v.entry accountId)

variable {tree : List (Visit Diff Call ProgramOutput)} {v : Visit Diff Call ProgramOutput}

/-- A call leaves an owned account to its owner. -/
theorem keptFor_step {owner : ProgramId} {accountId : AccountId} {before : Account} (hv : v ∈ tree)
    (hstep : Step exec state blockId timestamp v.before v.call v.result v.after)
    (howned : before.programOwner = .ofProgramId owner)
    (hunowned : before.programOwner ≠ defaultProgramOwner)
    (hkept : KeptFor tree owner accountId before (overlay state v.before accountId)) :
    KeptFor tree owner accountId before (overlay state v.after accountId) := by
  obtain ⟨howner, hchange⟩ := hkept
  obtain ⟨hstill, hforeign⟩ := hstep.owned (howner.trans howned) (howned ▸ hunowned)
  refine ⟨hstill.trans howned.symm, fun hchanged => ?_⟩
  by_cases hexec : v.call.1.programId = owner
  · rcases hstep.effect accountId with heq | ⟨pre, post, hpair, hid, -⟩
    · rw [heq] at hchanged
      exact hchange hchanged
    · exact ⟨v, hv, hexec, pre, (of_mem_zip hpair).1, hid⟩
  · -- another program ran: what changed had changed before
    obtain ⟨hdata, hbalance⟩ := hforeign hexec
    rw [hdata] at hchanged
    exact hchange (hchanged.imp_right fun hlt => lt_of_le_of_lt hbalance hlt)

/-- **Ownership is respected by whole transactions.**  An account owned by a program
`P` keeps its owner, and its data changes or its balance drops only if `P` ran on it in
some call of the tree.  An account without an owner ends up owned by `Q` only if `Q` ran
in the tree and claimed it, while it was authorized for that call or under a seed that
derives its id. -/
theorem publicTransaction_respects_ownership [Schnorr] {tx : PublicTransaction}
    (h : transitionFromPublicTransaction exec state tx blockId timestamp = .ok state')
    (accountId : AccountId) :
    (∀ P, (state.getAccountById accountId).programOwner = ofProgramId P →
        (state.getAccountById accountId).programOwner ≠ defaultProgramOwner →
        KeptFor (callTree exec tx state blockId timestamp) P accountId
          (state.getAccountById accountId) (state'.getAccountById accountId)) ∧
      ∀ Q, (state.getAccountById accountId).programOwner = defaultProgramOwner →
        (state'.getAccountById accountId).programOwner = ofProgramId Q →
        (state'.getAccountById accountId).programOwner ≠ defaultProgramOwner →
        ∃ v ∈ callTree exec tx state blockId timestamp,
          v.call.1.programId = Q ∧ Claims v accountId := by
  obtain ⟨diff, haccepted, happly⟩ := transitionFromPublicTransaction_ok h
  have hfunds := haccepted.funds happly accountId
  constructor
  · intro P hP howned
    have hkept : KeptFor (callTree exec tx state blockId timestamp) P accountId
        (state.getAccountById accountId) (overlay state diff.publicDiff accountId) := by
      refine haccepted.threads.invariant
        (P := fun d => KeptFor (callTree exec tx state blockId timestamp) P accountId
          (state.getAccountById accountId) (overlay state d accountId))
        (fun v hv => keptFor_step hv (callTree_step hv) hP howned) ?_
      rw [overlay_empty]
      exact ⟨rfl, fun hne => by simp at hne⟩
    rwa [KeptFor, ← hfunds.programOwner, ← hfunds.data, ← hfunds.balance] at hkept
  · intro Q hdefault hQ hne
    -- an account without an owner gets one only from a call that claims it
    have hclaimed := haccepted.threads.invariant
      (P := fun d => (overlay state d accountId).programOwner = defaultProgramOwner ∨
        ∃ w ∈ callTree exec tx state blockId timestamp, (overlay state d accountId).programOwner
          = .ofProgramId w.call.1.programId ∧ Claims w accountId)
      (fun v hv h => ?_) (.inl (by rw [overlay_empty, hdefault]))
    · rw [← hfunds.programOwner] at hclaimed
      rcases hclaimed with hstill | ⟨v, hv, howner, hclaims⟩
      · exact absurd hstill hne
      · exact ⟨v, hv, ofProgramId_injective (howner.symm.trans hQ), hclaims⟩
    have hstep := callTree_step hv
    rcases hstep.effect accountId with heq | ⟨pre, post, hpair, hid, hpre, heffect⟩
    · rw [heq]
      exact h
    rcases heffect.programOwner with hsame | ⟨-, howner, claim, hclaim, hmay⟩
    · rw [hsame, hpre]
      exact h
    · refine .inr ⟨v, hv, howner, pre, post, hpair, hid, ?_⟩
      cases claim with
      | authorized =>
        have hflag := (hstep.authorization pre (of_mem_zip hpair).1).mp hmay
        exact .inl ⟨hclaim, hid ▸ hflag⟩
      | pda seed => exact .inr ⟨seed, hclaim, hid ▸ hmay⟩

end

section

open Payout Sample

theorem payout_respects_ownership :
    ∃ state', transitionFromPublicTransaction exec state tx 0 0 = .ok state' ∧
      (∃ v ∈ callTree exec tx state 0 0, v.call.1.programId = payer ∧ Mentions v.entry fund) ∧
      ∃ v ∈ callTree exec tx state 0 0, v.call.1.programId = payer ∧ Claims v pda := by
  obtain ⟨state', h, hspent, howner⟩ : ∃ state', transitionFromPublicTransaction exec
      state tx 0 0 = .ok state' ∧ (state'.getAccountById fund).balance = 6 ∧
      (state'.getAccountById pda).programOwner = .ofProgramId payer := by
    decide +kernel
  refine ⟨state', h, ?_, ?_⟩
  · refine ((publicTransaction_respects_ownership h fund).1 payer
      (by decide +kernel) (by decide +kernel)).2 (.inr ?_)
    rw [hspent]
    decide +kernel
  · refine (publicTransaction_respects_ownership h pda).2 payer
      (by decide +kernel) howner ?_
    rw [howner]
    decide +kernel

end

end Lssa
