/-
The authenticated-transfer program (`lez/programs/authenticated_transfer`).

It owns the accounts that hold native balance, and moves balance out of one only if the
account is authorized for the call.
-/
import Lssa.Guest

open Outcome

namespace Lssa

namespace AuthenticatedTransfer

inductive Instruction
  | transfer (amount : Balance)
  /-- `Initialize`. -/
  | init
  deriving DecidableEq

/-- `initialize_account`. -/
def initializeAccount (preState : AccountWithMetadata) : Option AccountPostState :=
  let accountToClaim := AccountPostState.newClaimed preState.account .authorized
  if accountToClaim.account = Account.default then some accountToClaim else none

def transfer (sender recipient : AccountWithMetadata) (balanceToMove : Balance) :
    Option (List AccountPostState) := do
  if sender.isAuthorized then
    let senderBalance ← checkedSub sender.account.balance balanceToMove
    let recipientBalance ← checkedAdd recipient.account.balance balanceToMove
    some
      [ .new { sender.account with balance := senderBalance },
        .newClaimedIfDefault { recipient.account with balance := recipientBalance } .authorized ]
  else none

/-- Variants are numbered, a `u128` is four little-endian words. -/
scoped instance serde : Serde Instruction where
  toWords
    | .transfer amount => 0 :: Borsh.ofLeWords (Borsh.leBytes 16 amount.val)
    | .init => [1]
  fromWords
    | 0 :: a :: b :: c :: d :: _ =>
      some (.transfer (Fin.ofNat (2 ^ 128) (Borsh.ofLeBytes (Borsh.leWords [a, b, c, d]))))
    | 1 :: _ => some .init
    | _ => none

/-- The accounts an instruction leaves. -/
def postStates : Instruction → List AccountWithMetadata → Option (List AccountPostState)
  | .init, [accountToClaim] => (initializeAccount accountToClaim).map fun claimed => [claimed]
  | .transfer balanceToMove, [sender, recipient] => transfer sender recipient balanceToMove
  | _, _ => none

variable [Serde Instruction]

def main : Guest := fun selfProgramId callerProgramId preStates instructionWords => do
  let instruction : Instruction ← fromWords instructionWords
  let postStates ← postStates instruction preStates
  some (ProgramOutput.new selfProgramId callerProgramId instructionWords preStates postStates)

omit [Serde Instruction] in
theorem initializeAccount_ok {preState : AccountWithMetadata} {post : AccountPostState}
    (h : initializeAccount preState = some post) :
    preState.account = .default ∧ post = .newClaimed preState.account .authorized := by
  unfold initializeAccount at h
  dsimp only at h
  split at h
  · rename_i hdefault
    exact ⟨hdefault, (some.inj h).symm⟩
  · cases h

/-- What a transfer does. -/
structure Transferred (sender recipient : AccountWithMetadata) (postStates : List AccountPostState)
    (amount senderBalance recipientBalance : Balance) : Prop where
  authorized : sender.isAuthorized = true
  sent : senderBalance.val + amount.val = sender.account.balance.val
  received : recipientBalance.val = recipient.account.balance.val + amount.val
  post : postStates =
    [ .new { sender.account with balance := senderBalance },
      .newClaimedIfDefault { recipient.account with balance := recipientBalance } .authorized ]

omit [Serde Instruction] in
theorem transfer_ok {sender recipient : AccountWithMetadata} {amount : Balance}
    {postStates : List AccountPostState} (h : transfer sender recipient amount = some postStates) :
    ∃ senderBalance recipientBalance,
      Transferred sender recipient postStates amount senderBalance recipientBalance := by
  unfold transfer at h
  split at h
  · rename_i hauthorized
    obtain ⟨senderBalance, hsender, h⟩ := bind_eq_some_iff.mp h
    obtain ⟨recipientBalance, hrecipient, h⟩ := bind_eq_some_iff.mp h
    exact ⟨senderBalance, recipientBalance, hauthorized, checkedSub_eq_some.mp hsender,
      checkedAdd_eq_some.mp hrecipient, (some.inj h).symm⟩
  · cases h

variable {selfProgramId : ProgramId} {callerProgramId : Option ProgramId}
  {preStates : List AccountWithMetadata} {instructionWords : InstructionData}

/-- **What the program does.**  It claims an empty account, or moves balance out of an
authorized one; it asks for no further call. -/
theorem main_ok {output : ProgramOutput}
    (h : main selfProgramId callerProgramId preStates instructionWords = some output) :
    ∃ postStates, output
        = ProgramOutput.new selfProgramId callerProgramId instructionWords preStates postStates ∧
      ((∃ account, preStates = [account] ∧ account.account = .default ∧
          postStates = [.newClaimed account.account .authorized]) ∨
        ∃ sender recipient amount senderBalance recipientBalance,
          preStates = [sender, recipient] ∧
          Transferred sender recipient postStates amount senderBalance recipientBalance) := by
  obtain ⟨instruction, -, hrest⟩ := bind_eq_some_iff.mp h
  obtain ⟨posts, hposts, houtput⟩ := bind_eq_some_iff.mp hrest
  refine ⟨posts, (some.inj houtput).symm, ?_⟩
  clear houtput hrest h
  unfold postStates at hposts
  split at hposts
  · rename_i account
    obtain ⟨claimed, hclaimed, rfl⟩ := map_eq_some_iff.mp hposts
    obtain ⟨hdefault, rfl⟩ := initializeAccount_ok hclaimed
    exact .inl ⟨account, rfl, hdefault, rfl⟩
  · rename_i amount sender recipient
    obtain ⟨senderBalance, recipientBalance, htransferred⟩ := transfer_ok hposts
    exact .inr ⟨sender, recipient, amount, senderBalance, recipientBalance, rfl, htransferred⟩
  · cases hposts

/-- The program lowers the balance of an account only if it is the sender of a transfer and
authorized. -/
theorem lowered_of_main {output : ProgramOutput} {pre : AccountWithMetadata}
    {post : AccountPostState}
    (h : main selfProgramId callerProgramId preStates instructionWords = some output)
    (hpair : (pre, post) ∈ output.preStates.zip output.postStates)
    (hlower : post.account.balance < pre.account.balance) :
    pre.isAuthorized = true ∧ ∃ recipient, preStates = [pre, recipient] := by
  obtain ⟨posts, rfl, hcases⟩ := main_ok h
  rw [ProgramOutput.new] at hpair
  have hlower' : post.account.balance.val < pre.account.balance.val := hlower
  rcases hcases with ⟨account, rfl, -, rfl⟩ |
    ⟨sender, recipient, amount, senderBalance, recipientBalance, rfl, htransferred⟩
  · obtain ⟨rfl, rfl⟩ := Prod.mk.inj (mem_singleton.mp hpair)
    exact absurd hlower' (lt_irrefl _)
  · rw [htransferred.post] at hpair
    rcases mem_cons.mp hpair with heq | hpair
    · obtain ⟨rfl, -⟩ := Prod.mk.inj heq
      exact ⟨htransferred.authorized, recipient, rfl⟩
    · -- the recipient is credited
      obtain ⟨rfl, rfl⟩ := Prod.mk.inj (mem_singleton.mp hpair)
      have hreceived := htransferred.received
      have hpost : recipientBalance.val < pre.account.balance.val := hlower'
      omega

end AuthenticatedTransfer

end Lssa
