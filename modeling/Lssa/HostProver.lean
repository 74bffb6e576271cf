/-
The host prover, and how many calls it lets a transaction make.

`execute_and_prove` (`lee/state_machine/src/privacy_preserving_transaction/circuit`) is how a
wallet makes a privacy-preserving transaction.  It runs the calls of the transaction depth
first, proves each, and hands the outputs to the circuit together with the receipts.  So the
calls of one transaction are walked by three loops: the host's, the circuit's over the
outputs, and the executor's if the transaction is public.

All three count the calls and stop at `maxNumberChainedCalls`, but the host stops before it
serves that many chained calls and the other two after.  `chained_call_limits_agree_iff`: they
agree on every tree of calls except those with one call more than the constant.

* `hostMachine` — one round of the host's loop;
* `HostMakes`, `CircuitMakes`, `PublicMakes` — the calls that a transaction makes, limits aside;
* `Fan` — a program that calls another one any number of times.
-/
import Lssa.Guest
import Lssa.LeeTransaction

open Outcome DepthFirst

namespace Lssa

open Circuit

/-! ### The host -/

structure ProgramWithDependencies where
  program : Program
  dependencies : Map ProgramId Program

namespace HostProver

/-- A call on the host's work list: the program it will run, and who issued it. -/
structure HostCall where
  call : ChainedCall
  program : Program
  callerProgramId : Option ProgramId

/-- What was proven so far: outputs, with the programs that the receipts are for. -/
abbrev InnerReceipts := List (Program × ProgramOutput)

/-- The calls that an output asks for, with their programs. -/
def hostCalls (dependencies : Map ProgramId Program) (item : HostCall)
    (output : ProgramOutput) : List HostCall :=
  output.chainedCalls.filterMap fun newCall =>
    (dependencies.lookup newCall.programId).map fun nextProgram =>
      ⟨newCall, nextProgram, some item.call.programId⟩

/-- The host's loop.  `prove` runs a program and proves the run, as `execute_and_prove_program`
does. -/
def hostMachine (prove : Executor) (dependencies : Map ProgramId Program) :
    Machine LeeError InnerReceipts HostCall ProgramOutput where
  answer _ item :=
    prove item.program item.callerProgramId item.call.preStates item.call.instructionData
  absorb receipts item output := do
    -- the calls are pushed to the front, so they are looked up from the last
    output.chainedCalls.reverse.forM fun newCall =>
      ensure (newCall.programId ∈ dependencies)
        (.invalidProgramBehavior (.undeclaredProgramDependency newCall.programId))
    pure (receipts ++ [(item.program, output)])
  calls := hostCalls dependencies
  exhausted := .maxChainedCallsDepthExceeded

def initialHostCall (program : Program) (preStates : List AccountWithMetadata)
    (instructionData : InstructionData) : HostCall :=
  ⟨{ programId := program.id, preStates, instructionData, pdaSeeds := [] }, program, none⟩

/-- Whether a receipt attests an output: the image id of its program is compared. -/
def verifyAssumption [ImageId] (receipts : InnerReceipts) (programId : ProgramId)
    (output : ProgramOutput) : Bool :=
  decide (∃ receipt ∈ receipts,
    ImageId.computeImageId receipt.1.elf = some programId ∧ receipt.2 = output)

/-- `execute_and_prove_with_padded_inputs`, without the receipt that comes with the journal.
The host checks the counter before a call with `>=`, so it serves no more than
`maxNumberChainedCalls` calls. -/
def executeAndProveWithPaddedInputs [Sha256] [MlKem] [ChaCha20] [ImageId] (prove : Executor)
    (preStates : List AccountWithMetadata) (instructionData : InstructionData)
    (accountIdentities : List InputAccountIdentity) (dummyInputs : List DummyInput)
    (programs : ProgramWithDependencies) : Except LeeError PrivacyPreservingCircuitOutput := do
  let receipts ← (hostMachine prove programs.dependencies).run maxNumberChainedCalls
    [initialHostCall programs.program preStates instructionData] []
  let circuitInput : PrivacyPreservingCircuitInput :=
    { programOutputs := receipts.map Prod.snd, accountIdentities,
      programId := programs.program.id, dummyInputs }
  (main (verifyAssumption receipts) circuitInput).mapError fun _ => .circuitProvingError

/-! ### The calls of a transaction -/

/-- The calls that the host would serve if it had no limit form a tree of this shape. -/
def HostMakes (prove : Executor) (preStates : List AccountWithMetadata)
    (instructionData : InstructionData) (programs : ProgramWithDependencies) (tree : Shape) :
    Prop :=
  ∃ receipts, (hostMachine prove programs.dependencies).Unfolds [tree]
    [initialHostCall programs.program preStates instructionData] [] receipts

/-- The calls that the circuit would walk over if it had no limit form a tree of this shape. -/
def CircuitMakes [Sha256] (verify : ProgramId → ProgramOutput → Bool)
    (accountIdentities : List InputAccountIdentity) (programId : ProgramId)
    (programOutputs : List ProgramOutput) (tree : Shape) : Prop :=
  ∃ start firstOutput rest progress, startState programOutputs = .ok start ∧
    programOutputs = firstOutput :: rest ∧
    (machine verify accountIdentities).Unfolds [tree]
      [initialCall programId firstOutput] (start, programOutputs) progress

/-- The calls that public execution would serve if it had no limit form a tree of this
shape. -/
def PublicMakes [Sha256] [Schnorr] (exec : Executor) (tx : PublicTransaction) (state : V03State)
    (blockId : BlockId) (timestamp : Timestamp) (tree : Shape) : Prop :=
  ∃ signers call diff, preparePublicTransaction tx state = .ok (signers, call) ∧
    (PublicExecution.machine exec state blockId timestamp).Unfolds [tree] [call] ∅ diff

theorem sizes_singleton (tree : Shape) : Shape.sizes [tree] = tree.size := by
  simp [Shape.sizes]

/-- The host refuses trees of more calls than the constant. -/
theorem HostMakes.refused_iff [Sha256] [MlKem] [ChaCha20] [ImageId] {prove : Executor}
    {preStates : List AccountWithMetadata} {instructionData : InstructionData}
    {programs : ProgramWithDependencies} {tree : Shape}
    (h : HostMakes prove preStates instructionData programs tree)
    (accountIdentities : List InputAccountIdentity) (dummyInputs : List DummyInput) :
    executeAndProveWithPaddedInputs prove preStates instructionData accountIdentities dummyInputs
        programs = .error .maxChainedCallsDepthExceeded ↔ maxNumberChainedCalls < tree.size := by
  obtain ⟨receipts, hunfolds⟩ := h
  have hrun := hunfolds.run_eq maxNumberChainedCalls
  rw [sizes_singleton] at hrun
  unfold executeAndProveWithPaddedInputs
  rw [hrun]
  by_cases hle : tree.size ≤ maxNumberChainedCalls
  · rw [if_pos hle]
    refine iff_of_false ?_ (by omega)
    show (main _ _).mapError _ ≠ _
    cases main (verifyAssumption receipts) _ with
    | error panic | ok output => simp [Except.mapError]
  · rw [if_neg hle]
    exact iff_of_true rfl (by omega)

/-- The circuit refuses trees of more than one call more. -/
theorem CircuitMakes.refused_iff [Sha256] {verify : ProgramId → ProgramOutput → Bool}
    {accountIdentities : List InputAccountIdentity} {programId : ProgramId}
    {programOutputs : List ProgramOutput} {tree : Shape}
    (h : CircuitMakes verify accountIdentities programId programOutputs tree) :
    deriveFromOutputs verify accountIdentities programId programOutputs
        = .error .maxChainedCallsDepthExceeded ↔ maxNumberChainedCalls + 1 < tree.size := by
  obtain ⟨start, firstOutput, rest, ⟨state, leftover⟩, hstart, rfl, hunfolds⟩ := h
  have hrun := hunfolds.run_eq (maxNumberChainedCalls + 1)
  rw [sizes_singleton] at hrun
  unfold deriveFromOutputs
  rw [hstart]
  show ((machine verify accountIdentities).run _ _ _ >>= _) = _ ↔ _
  rw [hrun]
  by_cases hle : tree.size ≤ maxNumberChainedCalls + 1
  · rw [if_pos hle]
    refine iff_of_false ?_ (by omega)
    -- the checks after the walk fail in their own ways
    refine bind_ne_error (by simp) fun _ => ?_
    refine bind_ne_error (ensure_ne_error (by simp)) fun _ => ?_
    refine bind_ne_error (forM_ne_error fun _ _ => ensure_ne_error (by simp)) fun _ => ?_
    refine bind_ne_error (forM_ne_error fun pre _ => ?_) fun _ => by simp [pure, Except.pure]
    by_cases howner : pre.account.programOwner = defaultProgramOwner
    · rw [if_pos howner]
      split
      · simp
      · exact ensure_ne_error (by simp)
    · rw [if_neg howner]
      simp
  · rw [if_neg hle]
    exact iff_of_true rfl (by omega)

/-- So does public execution. -/
theorem PublicMakes.refused_iff [Sha256] [Schnorr] {exec : Executor} {tx : PublicTransaction}
    {state : V03State} {blockId : BlockId} {timestamp : Timestamp} {tree : Shape}
    (h : PublicMakes exec tx state blockId timestamp tree) :
    fromPublicTransaction exec tx state blockId timestamp
        = .error .maxChainedCallsDepthExceeded ↔ maxNumberChainedCalls + 1 < tree.size := by
  obtain ⟨signers, call, diff, hprepare, hunfolds⟩ := h
  have hrun := hunfolds.run_eq (maxNumberChainedCalls + 1)
  rw [sizes_singleton] at hrun
  unfold fromPublicTransaction executePublicTransaction
  rw [hprepare]
  show (((PublicExecution.machine exec state blockId timestamp).run _ _ _ >>= _) >>= _) = _ ↔ _
  rw [hrun]
  by_cases hle : tree.size ≤ maxNumberChainedCalls + 1
  · rw [if_pos hle]
    refine iff_of_false ?_ (by omega)
    refine bind_ne_error ?_ fun _ => ?_
    · refine bind_ne_error (by simp) fun _ => ?_
      exact bind_ne_error (forM_ne_error fun _ _ => ensure_ne_error (by simp))
        fun _ => by simp [pure, Except.pure]
    · exact bind_ne_error (forM_ne_error fun _ _ => ensure_ne_error (by simp))
        fun _ => by simp [pure, Except.pure]
  · rw [if_neg hle]
    exact iff_of_true rfl (by omega)

/-- **Where the three limits agree.**  Let the host, the circuit and public execution each be
given the same tree of calls.  A tree is within the limit for one of them exactly when it is
for the other two, unless it has `maxNumberChainedCalls + 1` calls. -/
theorem chained_call_limits_agree_iff [Sha256] [Schnorr] [MlKem] [ChaCha20] [ImageId]
    {prove exec : Executor} {preStates : List AccountWithMetadata}
    {instructionData : InstructionData} {programs : ProgramWithDependencies}
    {accountIdentities : List InputAccountIdentity} {dummyInputs : List DummyInput}
    {verify : ProgramId → ProgramOutput → Bool} {programId : ProgramId}
    {programOutputs : List ProgramOutput} {tx : PublicTransaction} {state : V03State}
    {blockId : BlockId} {timestamp : Timestamp} {tree : Shape}
    (hhost : HostMakes prove preStates instructionData programs tree)
    (hcircuit : CircuitMakes verify accountIdentities programId programOutputs tree)
    (hpublic : PublicMakes exec tx state blockId timestamp tree) :
    ((executeAndProveWithPaddedInputs prove preStates instructionData accountIdentities
            dummyInputs programs ≠ .error .maxChainedCallsDepthExceeded ↔
          deriveFromOutputs verify accountIdentities programId programOutputs
            ≠ .error .maxChainedCallsDepthExceeded) ∧
        (deriveFromOutputs verify accountIdentities programId programOutputs
            ≠ .error .maxChainedCallsDepthExceeded ↔
          fromPublicTransaction exec tx state blockId timestamp
            ≠ .error .maxChainedCallsDepthExceeded)) ↔
      tree.size ≠ maxNumberChainedCalls + 1 := by
  rw [ne_eq, ne_eq, ne_eq, hhost.refused_iff, hcircuit.refused_iff, hpublic.refused_iff]
  omega

/-! A program calls another one a number of times, on one account that nobody changes. -/

namespace Fan

def caller : ProgramId := .ofWord 1

def leaf : ProgramId := .ofWord 2

def account : AccountWithMetadata := ⟨.default, false, ⟨.replicate 32 5⟩⟩

/-- Both programs; the first makes `n` calls to the second. -/
def output (n : ℕ) (selfProgramId : ProgramId) (callerProgramId : Option ProgramId)
    (preStates : List AccountWithMetadata) (instruction : InstructionData) : ProgramOutput :=
  { ProgramOutput.new selfProgramId callerProgramId instruction preStates
      (preStates.map fun pre => .new pre.account) with
    chainedCalls := if selfProgramId = caller then replicate n ⟨leaf, preStates, [], []⟩
      else [] }

def exec (n : ℕ) : Executor :=
  .ofGuests fun _ selfProgramId callerProgramId preStates instruction =>
    some (output n selfProgramId callerProgramId preStates instruction)

def programs : ProgramWithDependencies :=
  ⟨⟨caller, [1]⟩, (∅ : Map ProgramId Program).insert leaf ⟨leaf, [2]⟩⟩

def verify (n : ℕ) (programId : ProgramId) (found : ProgramOutput) : Bool :=
  decide (found = output n programId found.callerProgramId found.preStates found.instructionData)

def programOutputs (n : ℕ) : List ProgramOutput :=
  output n caller none [account] [] :: replicate n (output n leaf (some caller) [account] [])

def tx : PublicTransaction := ⟨⟨caller, [account.accountId], [], []⟩, ⟨[]⟩⟩

def state : V03State := .ofAccounts [deployedAt caller, deployedAt leaf]

def tree (n : ℕ) : Shape := .node (replicate n (.node []))

scoped instance sha : Sha256 := .ofTable []

scoped instance schnorr : Schnorr := .ofTable []

scoped instance imageId : ImageId :=
  ⟨fun elf => if elf = [1] then some caller else if elf = [2] then some leaf else none⟩

end Fan

section

open Idle Fan

/-- The three loops make the calls of the tree, if they can be followed along it. -/
theorem fan_makes {n : ℕ}
    (hhost : ((hostMachine (exec n) programs.dependencies).follow (n + 1) [tree n]
      [initialHostCall programs.program [account] []] []).isSome = true)
    (hcircuit : ((machine (verify n) [.publicAccount]).follow (n + 1) [tree n]
      [initialCall caller (output n caller none [account] [])]
        (initialState .unbounded .unbounded, programOutputs n)).isSome = true)
    (hstart : startState (programOutputs n) = .ok (initialState .unbounded .unbounded))
    (hpublic : ((PublicExecution.machine (exec n) state 0 0).follow (n + 1) [tree n]
      [PublicExecution.initialCall state [] tx.message] ∅).isSome = true) :
    HostMakes (exec n) [account] [] programs (tree n) ∧
      CircuitMakes (verify n) [.publicAccount] caller (programOutputs n) (tree n) ∧
      PublicMakes (exec n) tx state 0 0 (tree n) := by
  obtain ⟨receipts, hreceipts⟩ := isSome_iff_exists.mp hhost
  obtain ⟨progress, hprogress⟩ := isSome_iff_exists.mp hcircuit
  obtain ⟨diff, hdiff⟩ := isSome_iff_exists.mp hpublic
  exact ⟨⟨receipts, Machine.unfolds_of_follow hreceipts⟩,
    ⟨_, _, _, progress, hstart, rfl, Machine.unfolds_of_follow hprogress⟩,
    ⟨[], _, diff, rfl, Machine.unfolds_of_follow hdiff⟩⟩

/-- With ten calls to the second program, eleven in all, the host refuses what the circuit and
public execution accept. -/
theorem fan_limits_differ :
    HostMakes (exec 10) [account] [] programs (tree 10) ∧
      CircuitMakes (verify 10) [.publicAccount] caller (programOutputs 10) (tree 10) ∧
      PublicMakes (exec 10) tx state 0 0 (tree 10) ∧
      executeAndProveWithPaddedInputs (exec 10) [account] [] [.publicAccount] []
        programs = .error .maxChainedCallsDepthExceeded ∧
      (deriveFromOutputs (verify 10) [.publicAccount] caller (programOutputs 10)).isOk = true ∧
      (fromPublicTransaction (exec 10) tx state 0 0).isOk = true := by
  obtain ⟨hhost, hcircuit, hpublic⟩ := fan_makes (n := 10) (by decide +kernel)
    (by decide +kernel) rfl (by decide +kernel)
  exact ⟨hhost, hcircuit, hpublic, by decide +kernel, by decide +kernel, by decide +kernel⟩

/-- With nine, ten in all, all three agree. -/
theorem fan_limits_agree :
    HostMakes (exec 9) [account] [] programs (tree 9) ∧
      (executeAndProveWithPaddedInputs (exec 9) [account] [] [.publicAccount] []
          programs ≠ .error .maxChainedCallsDepthExceeded ↔
        deriveFromOutputs (verify 9) [.publicAccount] caller
          (programOutputs 9) ≠ .error .maxChainedCallsDepthExceeded) ∧
      (deriveFromOutputs (verify 9) [.publicAccount] caller
          (programOutputs 9) ≠ .error .maxChainedCallsDepthExceeded ↔
        fromPublicTransaction (exec 9) tx state 0 0 ≠ .error .maxChainedCallsDepthExceeded) := by
  obtain ⟨hhost, hcircuit, hpublic⟩ := fan_makes (n := 9) (by decide +kernel)
    (by decide +kernel) rfl (by decide +kernel)
  exact ⟨hhost, (chained_call_limits_agree_iff hhost hcircuit hpublic).mpr (by decide)⟩

end

end HostProver

end Lssa
