/-
Deployed programs.

A program is kept in an account like any other, whose id is the image id of the program and
whose owner is reserved: no program has it for an id (`Unreserved`).  So no call may write
the account, whoever lists it, and a deployment only writes where there is no program yet.

* `Transition.keepsProgram` — what a transaction makes of the account of a program;
* **`programs_immutable`** — a program that was deployed once keeps its bytecode for good.
-/
import Lssa.History
import Lssa.Programs.AuthenticatedTransfer

open Outcome Runs

namespace Lssa

/-- The id is not the one reserved for the owner of program accounts. -/
def Unreserved (programId : ProgramId) : Prop :=
  ofProgramId programId ≠ programStorageOwner

/-- The account is one of a program after iff it was one before, and then with the same
bytecode. -/
structure KeepsProgram (before after : Account) : Prop where
  programOwner : after.programOwner = programStorageOwner ↔
    before.programOwner = programStorageOwner
  data : before.programOwner = programStorageOwner → after.data = before.data

theorem KeepsProgram.refl (account : Account) : KeepsProgram account account :=
  ⟨Iff.rfl, fun _ => rfl⟩

theorem KeepsProgram.trans {a b c : Account} (hab : KeepsProgram a b) (hbc : KeepsProgram b c) :
    KeepsProgram a c := by
  refine ⟨hbc.programOwner.trans hab.programOwner, fun howner => ?_⟩
  exact (hbc.data (hab.programOwner.mpr howner)).trans (hab.data howner)

theorem KeepsProgram.of_sameFunds {a b c : Account} (hab : KeepsProgram a b)
    (hbc : SameFunds c b) : KeepsProgram a c := by
  refine ⟨?_, fun howner => hbc.data.trans (hab.data howner)⟩
  rw [hbc.programOwner]
  exact hab.programOwner

/-- No program may write the account of a program, or make one. -/
theorem Lawful.keepsProgram {executing : ProgramId} {before after : Account}
    (h : Lawful executing before after) (hunreserved : Unreserved executing) :
    KeepsProgram before after := by
  have hdefault : Account.default.programOwner ≠ programStorageOwner := by decide
  refine ⟨⟨fun hafter => ?_, fun hbefore => ?_⟩, fun hbefore => ?_⟩
  · rcases h.claimed with hsame | hclaimed
    · rw [← hsame]
      exact hafter
    · exact absurd (hclaimed.symm.trans hafter) hunreserved
  · rw [h.programOwner, hbefore]
    rw [hbefore]
    decide
  · by_contra hne
    rcases h.data hne with heq | howner
    · rw [heq] at hbefore
      exact hdefault hbefore
    · exact hunreserved (howner.symm.trans hbefore)

/-- What `get_program` finds: an account of the state that the storage owns. -/
theorem V03State.getProgram_eq_some {state : V03State} {programId : ProgramId} {account : Account} :
    state.getProgram programId = some account ↔
      state.getAccountById (ofProgramId programId) = account ∧
        account.programOwner = programStorageOwner := by
  have hdefault : Account.default.programOwner ≠ programStorageOwner := by decide
  unfold getProgram getAccountById Ledger.get
  cases state.publicState.lookup (ofProgramId programId) with
  | none =>
    simp only [getD_none]
    refine iff_of_false (by simp) ?_
    rintro ⟨rfl, howner⟩
    exact hdefault howner
  | some found =>
    simp only [getD_some]
    split
    · rename_i howner
      rw [some_inj]
      exact ⟨fun heq => ⟨heq, heq ▸ howner⟩, And.left⟩
    · rename_i howner
      refine iff_of_false (by simp) ?_
      rintro ⟨rfl, howner'⟩
      exact howner howner'

namespace LeeTransaction

variable [Sha256] [Schnorr] [Builtins] [Receipts] [ImageId] {exec : Executor}
  {tx : LeeTransaction} {state state' : V03State}

/-- No program is deployed under the reserved id. -/
def Sealed (state : V03State) : Prop :=
  ∀ programId, (state.getProgram programId).isSome = true → Unreserved programId

variable [MlKem] [ChaCha20] {verify : ProgramId → ProgramOutput → Bool}

/-- **What a transaction makes of the account of a program**, unless it is deployed there. -/
theorem Transition.keepsProgram (hsound : ReceiptsSound verify)
    (hverify : ∀ programId output, verify programId output = true → Unreserved programId)
    (hsealed : Sealed state) (h : Transition exec tx state state') {accountId : AccountId}
    (hnot : ¬Stores tx accountId) :
    KeepsProgram (state.getAccountById accountId) (state'.getAccountById accountId) := by
  cases tx with
  | publicTx ptx =>
    obtain ⟨blockId, timestamp, diff, hdiff, happly⟩ := h.diff
    have haccepted := fromPublicTransaction_ok hdiff
    have hkeeps := haccepted.relates .refl (fun _ _ _ => .trans) (fun v hv before after hlawful =>
      hlawful.keepsProgram (hsealed _ (PublicExecution.isSome_getProgram_of_execute
        (callTree_step hv).executed))) accountId
    exact hkeeps.of_sameFunds (haccepted.funds happly accountId)
  | privacyPreserving ptx =>
    obtain ⟨diff, input, haccepted, happly, hinput⟩ := h.privately hsound
    have hkeeps := relates_of_privately .refl (fun _ _ _ => .trans)
      (fun programId output hverified before after hlawful =>
        hlawful.keepsProgram (hverify programId output hverified)) haccepted hinput accountId
    exact hkeeps.of_sameFunds (haccepted.funds happly accountId)
  | programDeployment dtx =>
    rw [h.unstored hnot]
    exact .refl _

omit [MlKem] [ChaCha20] in
/-- A deployment does not write where there is a program. -/
theorem Transition.not_stores (h : Transition exec tx state state') {programId : ProgramId}
    (hprogram : (state.getProgram programId).isSome = true) :
    ¬Stores tx (ofProgramId programId) := by
  rintro ⟨dtx, imageId, rfl, himage, hid⟩
  obtain ⟨blockId, timestamp, diff, hdiff, -⟩ := h.diff
  obtain ⟨imageId', himage', hnone, -⟩ := fromProgramDeploymentTransaction_ok hdiff
  obtain rfl : imageId' = imageId := some.inj (himage'.symm.trans himage)
  obtain rfl := ofProgramId_injective hid
  rw [hnone] at hprogram
  cases hprogram

/-- A program that is stored stays stored. -/
theorem Transition.getProgram_isSome (hsound : ReceiptsSound verify)
    (h : Transition exec tx state state') {programId : ProgramId}
    (hstored : (state.getProgram programId).isSome = true) :
    (state'.getProgram programId).isSome = true := by
  have hnot := h.not_stores hstored
  rw [V03State.getProgram_isSome] at hstored ⊢
  rw [(h.ages hsound hnot).programOwner (by rw [hstored]; decide), hstored]

section

variable (hsound : ReceiptsSound verify)
  (hverify : ∀ programId output, verify programId output = true → Unreserved programId)

include hsound hverify

/-- A transaction does not deploy a program under the reserved id. -/
theorem Transition.sealed
    (himage : ∀ bytecode programId, ImageId.computeImageId bytecode = some programId →
      Unreserved programId) (h : Transition exec tx state state') (hsealed : Sealed state) :
    Sealed state' := by
  intro programId hprogram
  by_cases hstores : Stores tx (ofProgramId programId)
  · obtain ⟨dtx, imageId, -, hbytecode, hid⟩ := hstores
    rw [← ofProgramId_injective hid]
    exact himage _ _ hbytecode
  · have hkeeps := h.keepsProgram hsound hverify hsealed hstores
    rw [V03State.getProgram_isSome, hkeeps.programOwner] at hprogram
    exact hsealed programId (V03State.getProgram_isSome.mpr hprogram)

/-- A transaction keeps every program. -/
theorem Transition.getProgram (hsealed : Sealed state) (h : Transition exec tx state state')
    {programId : ProgramId} {account : Account}
    (hprogram : state.getProgram programId = some account) :
    ∃ account', state'.getProgram programId = some account' ∧ account'.data = account.data := by
  have hsome : (state.getProgram programId).isSome = true := by
    rw [hprogram]
    rfl
  obtain ⟨rfl, howner⟩ := V03State.getProgram_eq_some.mp hprogram
  have hkeeps := h.keepsProgram hsound hverify hsealed (h.not_stores hsome)
  exact ⟨_, V03State.getProgram_eq_some.mpr ⟨rfl, hkeeps.programOwner.mpr howner⟩,
    hkeeps.data howner⟩

end

/-- **Deployed programs are immutable.**  Take any run of accepted transactions from a state in
which no program has the reserved id, which no image and no program behind a receipt has
either.  Once `get_program` finds a program, it finds one with the same bytecode and the same
owner ever after. -/
theorem programs_immutable (hsound : ReceiptsSound verify)
    (hverify : ∀ programId output, verify programId output = true → Unreserved programId)
    (himage : ∀ bytecode programId, ImageId.computeImageId bytecode = some programId →
      Unreserved programId)
    {start mid final : V03State} {before after : List LeeTransaction} (hsealed : Sealed start)
    (hbefore : History exec start before mid) {programId : ProgramId} {account : Account}
    (hprogram : mid.getProgram programId = some account)
    (hafter : History exec mid after final) :
    ∃ account', final.getProgram programId = some account' ∧ account'.data = account.data ∧
      account'.programOwner = account.programOwner := by
  have hmid : Sealed mid := hbefore.invariant
    (fun tx _ a b hstep => hstep.sealed hsound hverify himage) hsealed
  -- the program, and that nothing is deployed under the reserved id, are kept together
  have hfinal := hafter.invariant (P := fun state => Sealed state ∧
    ∃ account', state.getProgram programId = some account' ∧ account'.data = account.data)
    (fun tx _ a b hstep hkept => ?_) ⟨hmid, account, hprogram, rfl⟩
  · obtain ⟨-, account', hprogram', hdata⟩ := hfinal
    refine ⟨account', hprogram', hdata, ?_⟩
    rw [(V03State.getProgram_eq_some.mp hprogram).2, (V03State.getProgram_eq_some.mp hprogram').2]
  · obtain ⟨hsealed, account', hprogram', hdata⟩ := hkept
    obtain ⟨account'', hprogram'', hdata'⟩ := hstep.getProgram hsound hverify hsealed hprogram'
    exact ⟨hstep.sealed hsound hverify himage hsealed, account'', hprogram'', hdata'.trans hdata⟩

end LeeTransaction

/-! A program is deployed, and `alice` pays 5 to its account.  All digests are SHA-256's. -/

namespace TopUp

open scoped Idle AuthenticatedTransfer

def authTransfer : ProgramId := .ofWord 3

def deployed : ProgramId := .ofWord 9

def payment : PublicTransaction.Message :=
  ⟨authTransfer, [Sample.alice, .ofProgramId deployed], [⟨0⟩], [0, 5, 0, 0, 0]⟩

def paymentHash : Bytes 32 :=
  ofHex 0xf3d6efe51b3b496cf659fff898d7ee0da885620115ea023ecb6fd54b91e44a1b

def paymentSignature : Signature := .ofHex
  0x23d11ddc86ecec4f0ace9788f244617be8bcebf3275149cf132c3a367cb81ef3
  0x844b7670612e49d7d2b78cc8ffb9427e7d8bd327e3130bc1c7f415ac48a363a9

scoped instance sha : Sha256 := .ofTable
  [ (publicAccountBytes Sample.key, Sample.alice.value), (payment.hashBytes, paymentHash) ]

scoped instance schnorr : Schnorr := .ofTable [(Sample.key, paymentHash, paymentSignature)]

scoped instance imageId : ImageId where
  computeImageId bytecode := if bytecode = [1] then some deployed else none

def exec : Executor := .ofGuests fun _ => AuthenticatedTransfer.main

def state : V03State := .ofAccounts
  [ deployedAt authTransfer, (Sample.alice, { Account.ownedBy authTransfer with balance := 10 }) ]

def deployment : LeeTransaction := .programDeployment ⟨[1]⟩

def paymentTx : LeeTransaction := .publicTx ⟨payment, ⟨[(paymentSignature, Sample.key)]⟩⟩

def verify (programId : ProgramId) (_ : ProgramOutput) : Bool := decide (programId = deployed)

end TopUp

namespace LeeTransaction

open scoped Idle AuthenticatedTransfer
open TopUp

theorem topUp_sealed : Sealed state := by
  intro programId hprogram
  rw [V03State.getProgram_isSome] at hprogram
  rintro hreserved
  rw [hreserved] at hprogram
  revert hprogram
  decide +kernel

/-- The account of the program has 5 more, and the same bytecode. -/
theorem topped_up :
    ∃ mid final account account', History exec state [deployment] mid ∧
      History exec mid [paymentTx] final ∧
      mid.getProgram deployed = some account ∧
      final.getProgram deployed = some account' ∧
      account'.data.bytes = [1] ∧ account.balance = 0 ∧ account'.balance = 5 := by
  obtain ⟨mid, hmid, final, hfinal, ⟨account, hprogram, hbytes, hbalance⟩, account₁, hprogram₁,
      hbalance₁⟩ : ∃ mid, deployment.executeOnState exec state 1 0 = .ok mid ∧
        ∃ final, paymentTx.executeOnState exec mid 2 0 = .ok final ∧
          (∃ account, mid.getProgram deployed = some account ∧
            account.data.bytes = [1] ∧ account.balance = 0) ∧
          ∃ account, final.getProgram deployed = some account ∧ account.balance = 5 := by
    decide +kernel
  have hfirst : History exec state [deployment] mid :=
    .cons ⟨1, 0, hmid⟩ (.nil mid)
  have hsecond : History exec mid [paymentTx] final :=
    .cons ⟨2, 0, hfinal⟩ (.nil final)
  have hsound : ReceiptsSound verify := fun _ _ hvalid => by cases hvalid
  have hdeployed : Unreserved deployed := by
    show _ ≠ _
    decide +kernel
  have hverify : ∀ programId output, verify programId output = true →
      Unreserved programId := fun _ _ hverified => of_decide_eq_true hverified ▸ hdeployed
  have himage : ∀ bytecode programId, ImageId.computeImageId bytecode = some programId →
      Unreserved programId := by
    intro bytecode programId hbytecode
    exact some.inj (ite_none_right_eq_some.mp hbytecode).2 ▸ hdeployed
  obtain ⟨account', hprogram', hdata, -⟩ := programs_immutable hsound hverify himage topUp_sealed
    hfirst hprogram hsecond
  obtain rfl : account' = account₁ := some.inj (hprogram'.symm.trans hprogram₁)
  refine ⟨mid, final, account, account', hfirst, hsecond, hprogram, hprogram', ?_, hbalance,
    hbalance₁⟩
  rw [hdata, hbytes]

end LeeTransaction

end Lssa
