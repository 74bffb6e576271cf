/-
Funds over whole histories.

The account of a key is spent by authenticated transfer, which asks for the authority of the
account, and only a signature of the key gives it.

* **`unsigned_funds_kept`** — whatever programs run, the account keeps its funds until its key
  signs;
* **`chain_conserves_balance`** — only privacy-preserving transactions add to the total.
-/
import Lssa.CrossZone.TwoZones
import Lssa.PublicAuthority
import Lssa.PublicSafety
import Lssa.Stake.Release

open Runs TwoTier

namespace Lssa

open AuthenticatedTransfer

/-- The account is one of authenticated transfer and holds the amount. -/
structure Holds (authTransfer : ProgramId) (amount : Balance) (account : Account) : Prop where
  programOwner : account.programOwner = ofProgramId authTransfer
  balance : amount ≤ account.balance

namespace LeeTransaction

section

variable [Sha256] [Schnorr] [Builtins] [Receipts] [ImageId] [Serde Instruction] {exec : Executor}
  {tx : LeeTransaction} {txs : List LeeTransaction} {state state' : V03State} {key : PublicKey}
  {authTransfer : ProgramId} {amount : Balance}

/-- The transaction is not signed for the account, shows no new state of it from the circuit and
stores no program over it. -/
def Spares (accountId : AccountId) : LeeTransaction → Prop
  | .publicTx tx => accountId ∉ tx.signerAccountIds
  | .privacyPreserving tx => accountId ∉ tx.message.publicAccountIds
  | .programDeployment tx => ¬Stores (.programDeployment tx) accountId

variable (hruns : Executes exec authTransfer main)
  (howns : ofProgramId authTransfer ≠ defaultProgramOwner)
  (hsafe : Sha256.Unambiguous (AccountId.ofPublicKey key).value)

include hruns howns hsafe

theorem Transition.holds (h : Transition exec tx state state')
    (hspares : Spares (.ofPublicKey key) tx)
    (hholds : Holds authTransfer amount (state.getAccountById (.ofPublicKey key))) :
    Holds authTransfer amount (state'.getAccountById (.ofPublicKey key)) := by
  have hsame : ∀ {a b}, SameFunds a b → Holds authTransfer amount b →
      Holds authTransfer amount a := fun hfunds hb =>
    ⟨hfunds.programOwner.trans hb.programOwner, hfunds.balance ▸ hb.balance⟩
  cases tx with
  | publicTx ptx =>
    obtain ⟨blockId, timestamp, diff, hdiff, happly⟩ := h.diff
    have haccepted := fromPublicTransaction_ok hdiff
    refine hsame (haccepted.funds happly _) (haccepted.threads.invariant
      (P := fun d => Holds authTransfer amount (overlay state d (.ofPublicKey key)))
      (fun v hv hbefore => ?_) (by rwa [overlay_empty]))
    have hstep := callTree_step hv
    obtain ⟨hstill, hforeign⟩ := hstep.owned hbefore.programOwner howns
    refine ⟨hstill, hbefore.balance.trans ?_⟩
    by_cases hprogram : v.call.1.programId = authTransfer
    · rcases hstep.effect (.ofPublicKey key) with heq | ⟨pre, post, hpair, hid, hpre, heffect⟩
      · rw [heq]
      · rw [← hpre, heffect.balance]
        refine not_lt.mp fun hlower => ?_
        -- it is flagged, but it is no PDA and its key has not signed
        have hflag := (lowered_of_main (hruns.of_execute hprogram hstep.executed) hpair hlower).1
        rcases haccepted.authorizedIn hv ⟨pre, (of_mem_zip hpair).1, hid, hflag⟩ with
          hsigned | ⟨w, -, hdelegated⟩
        · exact hspares ((haccepted.signed _).mpr hsigned)
        · obtain ⟨issuer, seed, hderives⟩ := hdelegated.exists_derives
          exact AccountId.ofPublicKey_ne_forPublicPda hsafe hderives rfl
    · exact (hforeign hprogram).2
  | privacyPreserving ptx =>
    obtain ⟨blockId, timestamp, diff, hdiff, happly⟩ := h.diff
    have haccepted := fromPrivacyPreservingTransaction_ok hdiff
    exact hsame (haccepted.same_of_unlisted hspares happly) hholds
  | programDeployment dtx => rwa [h.unstored hspares]

/-- **Funds stay until the key signs.**  Programs are arbitrary, and so are the other signers. -/
theorem unsigned_funds_kept (h : History exec state txs state')
    (hspares : ∀ tx ∈ txs, Spares (.ofPublicKey key) tx)
    (hholds : Holds authTransfer amount (state.getAccountById (.ofPublicKey key))) :
    Holds authTransfer amount (state'.getAccountById (.ofPublicKey key)) :=
  h.invariant (P := fun s => Holds authTransfer amount (s.getAccountById (.ofPublicKey key)))
    (fun tx htx _ _ hstep => hstep.holds hruns howns hsafe (hspares tx htx)) hholds

end

end LeeTransaction

open LeeTransaction

section

open Idle SequencerStake SequencerStake.Staking
open Sample (alice bob bobKey)

/-- `alice` asks for a release of their stake to `bob`, and it is paid out: nobody signs for
`bob`. -/
theorem payout_spares_bob :
    ∃ state state', History exec state [requestTx ⟨50, bob⟩,
        .publicTx (CommitteeDiscovery.buildFinalizeUnstakeTx alice ⟨50, bob⟩)] state' ∧
      (state'.getAccountById bob).balance = 900 ∧
      Holds authTransfer 850 (state'.getAccountById (.ofPublicKey bobKey)) := by
  obtain ⟨state, -, howner, hbalance, mid, hmid, state', hstate', hpaid⟩ : ∃ state,
      after [stakeTx] = some state ∧
      (state.getAccountById (.ofPublicKey bobKey)).programOwner = .ofProgramId authTransfer ∧
      850 ≤ (state.getAccountById (.ofPublicKey bobKey)).balance ∧
      ∃ mid, execute state (requestTx ⟨50, bob⟩) = some mid ∧
      ∃ state', execute mid (.publicTx (CommitteeDiscovery.buildFinalizeUnstakeTx alice ⟨50, bob⟩))
          = some state' ∧
        (state'.getAccountById bob).balance = 900 := by
    decide +kernel
  have hhistory : History exec state _ state' :=
    .cons (openly_of_execute _ _ _ hmid).accepted
      (.cons (openly_of_execute _ _ _ hstate').accepted (.nil state'))
  refine ⟨state, state', hhistory, hpaid, unsigned_funds_kept (executes_ofGuests rfl)
    (by decide +kernel) (Sha256.unambiguous_ofTable (by decide +kernel) (by decide +kernel))
    hhistory ?_ ⟨howner, hbalance⟩⟩
  simp only [forall_mem_cons, not_mem_nil]
  refine ⟨?_, ?_, nofun⟩
  · show AccountId.ofPublicKey bobKey ∉ _
    decide +kernel
  · show AccountId.ofPublicKey bobKey ∉ []
    exact not_mem_nil

end

section

variable [Sha256] [Schnorr] [Builtins] [Receipts] [ImageId] {exec : Executor}

/-- A public transaction keeps the total.  A deployment can lower it: what the account of the
program held is gone. -/
theorem LeeTransaction.Transition.totalBalance_le {tx : LeeTransaction} {state state' : V03State}
    (h : Transition exec tx state state') (hshown : ∀ ptx, tx ≠ .privacyPreserving ptx) :
    state'.totalBalance ≤ state.totalBalance ∧
      ((∃ ptx, tx = .publicTx ptx) → state'.totalBalance = state.totalBalance) := by
  obtain ⟨blockId, timestamp, diff, hdiff, happly⟩ := h.diff
  cases tx with
  | publicTx ptx =>
    have haccepted := fromPublicTransaction_ok hdiff
    have heq : state'.totalBalance = state.totalBalance := by
      rw [← haccepted.overlayTotal_eq, overlayTotal_eq_finsum, V03State.totalBalance_eq_finsum]
      exact finsum_congr fun accountId =>
        congrArg Fin.val (haccepted.funds happly accountId).balance
    exact ⟨heq.le, fun _ => heq⟩
  | privacyPreserving ptx => exact absurd rfl (hshown ptx)
  | programDeployment dtx =>
    obtain ⟨programId, -, -, rfl⟩ := fromProgramDeploymentTransaction_ok hdiff
    obtain ⟨bumped, hbumped, -, -, hpublic⟩ := V03State.applyStateDiff_ok happly
    obtain ⟨data, -, hinserted⟩ := bind_eq_some_iff.mp hpublic
    obtain rfl : state.publicState = bumped := some.inj hbumped
    have htotal := Ledger.total_insert (f := fun account : Account => account.balance.val)
      (d := .default) rfl state.publicState (ofProgramId programId)
      { Account.default with programOwner := programStorageOwner, data }
    refine ⟨?_, fun ⟨_, hptx⟩ => by cases hptx⟩
    rw [V03State.totalBalance, ← some.inj hinserted]
    exact le_of_add_le_left htotal.le

/-- **Nobody makes balance.**  Along a chain of blocks without privacy-preserving transactions the
total of all balances does not grow, and if all of them are public it stays the same. -/
theorem chain_conserves_balance [ClockBuiltin] [Serde Timestamp] {position position' : Position}
    {blocks : List Block} (h : replay (advance exec) position blocks = some position')
    (hshown : ∀ tx ∈ transactionsOf blocks, ∀ ptx, tx ≠ .privacyPreserving ptx) :
    position'.2.totalBalance ≤ position.2.totalBalance ∧
      ((∀ tx ∈ transactionsOf blocks, ∃ ptx, tx = .publicTx ptx) →
        position'.2.totalBalance = position.2.totalBalance) := by
  have hhistory := history_of_replay h
  refine ⟨hhistory.invariant (P := fun s => s.totalBalance ≤ position.2.totalBalance)
    (fun tx htx _ _ hstep => (hstep.totalBalance_le (hshown tx htx)).1.trans) le_rfl,
    fun hpublic => hhistory.invariant (P := fun s => s.totalBalance = position.2.totalBalance)
      (fun tx htx _ _ hstep => ((hstep.totalBalance_le (hshown tx htx)).2 (hpublic tx htx)).trans)
      rfl⟩

end

section

open scoped InboundDelivery.Forgery Idle BridgeLock.Locking
open TwoZones.Crossing
open Sample (alice)

/-- A block in which `alice` locks 1000 of their 1500: what they lose is in the escrow. -/
theorem lock_conserves_balance :
    ∃ position, replay (advance exec) (none, source) [lockBlock] = some position ∧
      (source.getAccountById alice).balance = 1500 ∧
      (position.2.getAccountById alice).balance = 500 ∧
      position.2.totalBalance = source.totalBalance := by
  obtain ⟨position, h, hbefore, hafter⟩ : ∃ position,
      replay (advance exec) (none, source) [lockBlock] = some position ∧
        (source.getAccountById alice).balance = 1500 ∧
        (position.2.getAccountById alice).balance = 500 := by
    decide +kernel
  have htxs : transactionsOf [lockBlock] = [.publicTx _, .publicTx _] := rfl
  exact ⟨position, h, hbefore, hafter,
    (chain_conserves_balance h (by simp [htxs])).2 (by simp [htxs])⟩

end

end Lssa
