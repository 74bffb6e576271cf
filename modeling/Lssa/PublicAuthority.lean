/-
Where authority comes from in public execution.

The loop lets an output pass only if its flags are honest (`Step.honest`), so every
flag of an accepted transaction is traced: to a signature, or to a caller above that
passed down a seed of its own (`publicTransaction_authority`).  A call on the path
below such an edge need not list the account (`authority_skips_a_call`).
-/
import Lssa.PublicExecution

open DepthFirst

namespace Lssa

namespace PublicExecution

variable [Sha256] {exec : Executor} {state : V03State} {blockId : BlockId}
  {timestamp : Timestamp} {diff diff' : Diff} {call : Call} {output : ProgramOutput}

/-- The program of the call, as deployed, produced the output. -/
def Ran (exec : Executor) (state : V03State) (entry : Entry) : Prop :=
  execute exec state entry.1 = .ok entry.2

instance (exec : Executor) (state : V03State) : DecidablePred (Ran exec state) :=
  fun _ => inferInstanceAs (Decidable (_ = _))

/-- Whatever the base, the loop lets only honest outputs pass. -/
theorem Step.honest (h : Step exec state blockId timestamp diff call output diff')
    (base : AccountId → Prop) : Honest (Ran exec state) DerivesPublic base (call, output) := by
  refine ⟨h.executed, ?_, ?_⟩
  · rintro accountId ⟨pre, hpre, rfl, hflag⟩
    exact .inr (isAuthorized_iff.mp ((h.authorization pre hpre).mp hflag)).symm
  · rintro accountId hmem ⟨pre, hpre, rfl⟩
    exact ⟨pre, hpre, rfl, (h.authorization pre hpre).mpr (isAuthorized_iff.mpr (.inr hmem))⟩

end PublicExecution

open PublicExecution

section

variable [Sha256] {exec : Executor} {tx : PublicTransaction} {state : V03State}
  {blockId : BlockId} {timestamp : Timestamp}

variable {v : Visit Diff Call ProgramOutput} {accountId : AccountId} {programId : ProgramId}

theorem callTree_traced (hv : v ∈ callTree exec tx state blockId timestamp) :
    Traced (Ran exec state) DerivesPublic (· ∈ tx.signerAccountIds) v.call v.ancestors := by
  refine Machine.visits_forall
    (J := Traced (Ran exec state) DerivesPublic (· ∈ tx.signerAccountIds)) ?_ ?_ hv
  · intro w hw htraced
    have hstep := machine_serves.mp (Machine.visits_serves hw)
    exact traced_nextCalls htraced (hstep.honest _)
  · intro w hw
    rw [mem_singleton] at hw
    subst hw
    exact traced_root rfl fun accountId hmem => mem_toFinset.mp hmem

/-- Signers stay authorized all the way down. -/
theorem callTree_signers (hv : v ∈ callTree exec tx state blockId timestamp)
    (hsigner : accountId ∈ tx.signerAccountIds) : accountId ∈ v.call.2.authorizedAccounts := by
  refine Machine.visits_forall (J := fun call _ => accountId ∈ call.2.authorizedAccounts) ?_ ?_ hv
  · intro w _ hmem next hnext
    obtain ⟨newCall, -, rfl⟩ := mem_map.mp hnext
    exact mem_authorizedBelow.mpr (.inl hmem)
  · intro w hw
    rw [mem_singleton] at hw
    subst hw
    exact mem_toFinset.mpr hsigner

/-! ### Authority over a PDA -/

variable {seed : PdaSeed}

section

variable (hsafe : Sha256.Unambiguous accountId.value)
include hsafe

/-- **Who has the authority of a PDA.**  If its program passes the seed only to calls of a
kind, and a call of the kind asks only for such calls, then it is only them. -/
theorem authority_forall (hpda : forPublicPda programId seed = accountId)
    {P : ChainedCall → Prop}
    (hissued : ∀ w ∈ callTree exec tx state blockId timestamp,
      (isAuthorized w.call accountId = true → P w.call.1) → w.call.1.programId = programId →
      ∀ next ∈ w.result.chainedCalls, seed ∈ next.pdaSeeds → P next)
    (hpassed : ∀ w ∈ callTree exec tx state blockId timestamp, P w.call.1 →
      ∀ next ∈ w.result.chainedCalls, P next)
    (hv : v ∈ callTree exec tx state blockId timestamp)
    (hauthorized : isAuthorized v.call accountId = true) : P v.call.1 := by
  refine Machine.visits_forall (J := fun call _ => isAuthorized call accountId = true → P call.1)
    ?_ ?_ hv hauthorized
  · intro w hw hbefore next hnext hnow
    obtain ⟨newCall, hnew, rfl⟩ := mem_map.mp hnext
    have hinherits : isAuthorized w.call accountId = true → P newCall :=
      fun hcaller => hpassed w hw (hbefore hcaller) newCall hnew
    rcases isAuthorized_iff.mp hnow with ⟨issuer, hissuer, seed', hseed', hpda'⟩ | hmem
    · obtain rfl : w.call.1.programId = issuer := some.inj hissuer
      obtain ⟨hprogram, rfl⟩ := forPublicPda_inj hsafe hpda' hpda
      exact hissued w hw hbefore hprogram newCall hnew hseed'
    · rcases mem_authorizedBelow.mp hmem with hold | ⟨pre, hpre, hid, hflag⟩
      · exact hinherits (isAuthorized_iff.mpr (.inr hold))
      · have hstep := machine_serves.mp (Machine.visits_serves hw)
        exact hinherits (hid ▸ (hstep.authorization pre hpre).mp hflag)
  · -- a signer does not hold the authority of a PDA
    intro w hw hnow
    rw [mem_singleton] at hw
    subst hw
    rcases isAuthorized_iff.mp hnow with ⟨issuer, hissuer, -⟩ | hsigner
    · exact absurd hissuer (by simp [initialCall])
    · obtain ⟨⟨_, key⟩, -, hkey⟩ := mem_map.mp (mem_toFinset.mp hsigner)
      exact (AccountId.ofPublicKey_ne_forPublicPda hsafe hpda hkey).elim

/-- Nobody has the authority of a PDA that its program delegates to nobody. -/
theorem isAuthorized_eq_false (hpda : forPublicPda programId seed = accountId)
    (hundelegated : ∀ v ∈ callTree exec tx state blockId timestamp, v.call.1.programId = programId →
      ∀ call ∈ v.result.chainedCalls, seed ∉ call.pdaSeeds)
    (hv : v ∈ callTree exec tx state blockId timestamp) :
    isAuthorized v.call accountId = false := by
  rw [← Bool.not_eq_true]
  exact authority_forall hsafe hpda (P := fun _ => False)
    (fun w hw _ => hundelegated w hw) (fun _ _ hfalse => hfalse.elim) hv

end

/-- The account is authorized in a transaction: its key signed, or it is a PDA that some
call of the tree was delegated. -/
def AuthorizedIn [Schnorr] (exec : Executor) (tx : PublicTransaction) (state : V03State)
    (blockId : BlockId) (timestamp : Timestamp) (accountId : AccountId) : Prop :=
  tx.SignedBy accountId ∨ ∃ v ∈ callTree exec tx state blockId timestamp,
    DelegatedTo (Ran exec state) (DerivesPublic accountId) accountId v.lineage

/-- What is flagged somewhere in the tree is authorized in the transaction. -/
theorem Accepted.authorizedIn [Schnorr] {diff : StateDiff}
    (h : Accepted exec tx state blockId timestamp diff)
    (hv : v ∈ callTree exec tx state blockId timestamp) (hflag : Flags v.entry accountId) :
    AuthorizedIn exec tx state blockId timestamp accountId := by
  rcases flagged_traced (callTree_traced hv) ((callTree_step hv).honest _) hflag with
    hsigner | hdelegated
  · exact .inl ((h.signed accountId).mp hsigner)
  · exact .inr ⟨v, hv, hdelegated⟩

/-- **Authority cannot be forged in public execution.**  In an accepted transaction, an
account that the output of a call flags as authorized belongs to a key that signed, or
was delegated on the path from the root to that call: a program that ran above issued an
edge of the path with a seed of its own that derives the account, the callee of that
edge lists the account as authorized, and so does every call between that lists it at
all.  Conversely a signer's account is flagged wherever it is listed. -/
theorem publicTransaction_authority [Schnorr] {diff : StateDiff}
    (h : fromPublicTransaction exec tx state blockId timestamp = .ok diff)
    {v : Visit Diff Call ProgramOutput} (hv : v ∈ callTree exec tx state blockId timestamp)
    {pre : AccountWithMetadata} (hpre : pre ∈ v.result.preStates) :
    (pre.isAuthorized = true → tx.SignedBy pre.accountId ∨
      DelegatedOn (Ran exec state) (DerivesPublic pre.accountId)
        (fun entry => Mentions entry pre.accountId → Flags entry pre.accountId)
        pre.accountId v.lineage) ∧
      (tx.SignedBy pre.accountId → pre.isAuthorized = true) := by
  have hsigned := (fromPublicTransaction_ok h).signed pre.accountId
  have hstep := callTree_step hv
  constructor
  · intro hflag
    rw [← hsigned]
    exact flagged_traced (callTree_traced hv) (hstep.honest _) ⟨pre, hpre, rfl, hflag⟩
  · intro hsigner
    rw [hstep.authorization pre hpre, isAuthorized_iff]
    exact .inr (callTree_signers hv (hsigned.mpr hsigner))

end

/-! Four programs in a row: the first delegates a PDA to the second, which lists it; the
third is called on no accounts at all; the fourth gets the PDA again. -/

namespace Relay

open Sample (pda seed)

scoped instance sha : Sha256 := .ofTable [(publicPdaBytes (.ofWord 1) seed, pda.value)]

scoped instance schnorr : Schnorr := ⟨fun _ _ _ => false⟩

/-- The calls each program asks for. -/
def calls (program : ProgramId) : List ChainedCall :=
  if program = .ofWord 1 then [⟨.ofWord 2, [⟨.default, true, pda⟩], [], [seed]⟩]
  else if program = .ofWord 2 then [⟨.ofWord 3, [], [], []⟩]
  else if program = .ofWord 3 then [⟨.ofWord 4, [⟨.default, true, pda⟩], [], []⟩]
  else []

/-- Every program leaves its accounts alone. -/
def exec : Executor := fun program caller preStates instruction =>
  .ok { ProgramOutput.new program.id caller instruction preStates
          (preStates.map fun pre => .new pre.account) with chainedCalls := calls program.id }

def state : V03State := .ofAccounts
  [deployedAt (.ofWord 1), deployedAt (.ofWord 2), deployedAt (.ofWord 3), deployedAt (.ofWord 4)]

def tx : PublicTransaction := ⟨⟨.ofWord 1, [pda], [], []⟩, ⟨[]⟩⟩

end Relay

section

open Relay

theorem relay_accepted :
    ∃ diff, fromPublicTransaction exec tx state 0 0 = .ok diff := by
  decide +kernel

theorem relay_unsigned (accountId : AccountId) : ¬tx.SignedBy accountId := by
  rintro ⟨signature, publicKey, hmem, -⟩
  exact absurd hmem (by simp [tx])

/-- The fourth call flags the PDA, nobody signed, and the third call, on the path from the
delegation to the fourth, does not list it. -/
theorem authority_skips_a_call :
    ∃ diff, fromPublicTransaction exec tx state 0 0 = .ok diff ∧
      ∃ v ∈ callTree exec tx state 0 0, ∃ pre ∈ v.result.preStates,
        pre.isAuthorized = true ∧ ¬tx.SignedBy pre.accountId ∧
        ¬DelegatedOn (Ran exec state) (DerivesPublic pre.accountId)
          (fun entry => Flags entry pre.accountId) pre.accountId v.lineage := by
  obtain ⟨diff, hdiff⟩ := relay_accepted
  have heval : ∃ v ∈ callTree exec tx state 0 0, ∃ pre ∈ v.result.preStates,
      pre.isAuthorized = true ∧
      ¬DelegatedOn (Ran exec state) (DerivesPublic pre.accountId)
        (fun entry => Flags entry pre.accountId) pre.accountId v.lineage := by decide +kernel
  obtain ⟨v, hv, pre, hpre, hflag, hstrict⟩ := heval
  exact ⟨diff, hdiff, v, hv, pre, hpre, hflag, relay_unsigned _, hstrict⟩

theorem relay_authority :
    ∃ v ∈ callTree exec tx state 0 0, v.call.1.programId = .ofWord 4 ∧
      ∃ pre ∈ v.result.preStates, pre.isAuthorized = true ∧
        DelegatedOn (Ran exec state) (DerivesPublic pre.accountId)
          (fun entry => Mentions entry pre.accountId → Flags entry pre.accountId)
          pre.accountId v.lineage := by
  obtain ⟨diff, hdiff⟩ := relay_accepted
  have heval : ∃ v ∈ callTree exec tx state 0 0,
      v.call.1.programId = .ofWord 4 ∧ ∃ pre ∈ v.result.preStates, pre.isAuthorized = true := by
    decide +kernel
  obtain ⟨v, hv, hprogram, pre, hpre, hflag⟩ := heval
  refine ⟨v, hv, hprogram, pre, hpre, hflag, ?_⟩
  exact ((publicTransaction_authority hdiff hv hpre).1 hflag).resolve_left (relay_unsigned _)

end

end Lssa
