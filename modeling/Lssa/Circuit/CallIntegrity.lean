/-
Which accounts a callee ran on.

In public execution the chain itself runs every callee on the accounts that its caller
passed.  The circuit is handed the outputs instead.  It compares an output with the call
it is taken for in program, caller and instruction, but never reads the accounts of the
call: `lengthened_accepted` says that whatever it accepts it also accepts with other
account lists in the chained calls.  So a caller's choice of accounts binds the prover
only where there is nothing to choose: `callIntegrity_iff`.

* `Programs`, `Attests` — programs that echo their accounts, and receipts for them;
* `CallIntegrity` — every callee ran on the accounts its caller passed;
* `Redirect` — a transfer that its caller sends to one account and the prover to another.
-/
import Lssa.Circuit.Walk
import Lssa.Programs.AuthenticatedTransfer

open Outcome DepthFirst

namespace Lssa

namespace Circuit

/-! ### Receipts -/

/-- The programs a prover can run; each echoes its accounts in its output. -/
structure Programs where
  run : Guest
  echoes : ∀ {programId caller preStates instruction output},
    run programId caller preStates instruction = some output → output.preStates = preStates

/-- Only outputs that the named program really produced are attested. -/
def Attests (programs : Programs) (verify : ProgramId → ProgramOutput → Bool) : Prop :=
  ∀ programId output, verify programId output = true →
    ∃ caller preStates instruction,
      programs.run programId caller preStates instruction = some output

section

variable [Sha256] {verify : ProgramId → ProgramOutput → Bool}
  {accountIdentities : List InputAccountIdentity} {programId : ProgramId}
  {programOutputs : List ProgramOutput} {final : ExecutionState}

/-- Every callee ran on exactly the accounts that its caller passed. -/
def CallIntegrity (verify : ProgramId → ProgramOutput → Bool)
    (accountIdentities : List InputAccountIdentity) (programId : ProgramId)
    (programOutputs : List ProgramOutput) : Prop :=
  ∀ v ∈ callTree verify accountIdentities programId programOutputs,
    v.result.preStates.map (·.accountId) = v.call.1.preStates.map (·.accountId)

/-- An output without the account lists of its chained calls. -/
def forgetCallAccounts (output : ProgramOutput) : ProgramOutput :=
  { output with chainedCalls := output.chainedCalls.map fun call => { call with preStates := [] } }

/-! ### Adding an account to every chained call -/

def lengthenCall (call : ChainedCall) : ChainedCall :=
  { call with preStates := call.preStates ++ [⟨Account.default, false, default⟩] }

def lengthen (output : ProgramOutput) : ProgramOutput :=
  { output with chainedCalls := output.chainedCalls.map lengthenCall }

/-- The root call is not a chained one. -/
def lengthenWork (call : Call) : Call :=
  (if call.2.programId.isSome then lengthenCall call.1 else call.1, call.2)

def lengthenProgress (progress : Progress) : Progress := (progress.1, progress.2.map lengthen)

/-- The programs that add an account to each of their chained calls. -/
def Programs.lengthen (programs : Programs) : Programs where
  run programId caller preStates instruction :=
    (programs.run programId caller preStates instruction).map Circuit.lengthen
  echoes h := by
    obtain ⟨output, hrun, rfl⟩ := map_eq_some_iff.mp h
    have hechoes := programs.echoes hrun
    exact hechoes

open Classical in
/-- Receipts for those programs. -/
noncomputable def lengthenVerify (verify : ProgramId → ProgramOutput → Bool)
    (programId : ProgramId) (output : ProgramOutput) : Bool :=
  decide (∃ shorter, lengthen shorter = output ∧ verify programId shorter = true)

variable {output : ProgramOutput} {progress progress' : Progress}

omit [Sha256] in
theorem lengthenVerify_iff :
    lengthenVerify verify programId output = true ↔
      ∃ shorter, lengthen shorter = output ∧ verify programId shorter = true := by
  classical
  rw [lengthenVerify, decide_eq_true_iff]

omit [Sha256] in
theorem Attests.lengthen {programs : Programs} (h : Attests programs verify) :
    Attests programs.lengthen (lengthenVerify verify) := by
  intro p output hverify
  obtain ⟨shorter, rfl, hshorter⟩ := lengthenVerify_iff.mp hverify
  obtain ⟨caller, preStates, instruction, hrun⟩ := h p shorter hshorter
  refine ⟨caller, preStates, instruction, ?_⟩
  rw [Programs.lengthen]
  exact map_eq_some_iff.mpr ⟨shorter, hrun, rfl⟩

omit [Sha256] in
theorem lengthenWork_eq (call : Call) :
    (lengthenWork call).1.programId = call.1.programId ∧
      (lengthenWork call).1.instructionData = call.1.instructionData ∧
      (lengthenWork call).1.pdaSeeds = call.1.pdaSeeds := by
  unfold lengthenWork
  dsimp only
  split
  · exact ⟨rfl, rfl, rfl⟩
  · exact ⟨rfl, rfl, rfl⟩

theorem Step.lengthen {call : Call}
    (h : Step verify accountIdentities progress call output progress') :
    Step (lengthenVerify verify) accountIdentities (lengthenProgress progress)
      (lengthenWork call) (Circuit.lengthen output) (lengthenProgress progress') := by
  -- nothing that a step looks at is different in a longer call
  obtain ⟨hprogram, hinstruction, hseeds⟩ := lengthenWork_eq call
  have hsync : syncAccount accountIdentities (lengthenWork call)
      = syncAccount accountIdentities call := by
    funext state pair
    unfold syncAccount syncPreState
    rw [hprogram, hseeds]
    rfl
  refine ⟨?_, ?_, ?_, ?_, ?_, ?_, ?_⟩
  · exact congrArg (List.map Circuit.lengthen) h.taken
  · rw [hinstruction]
    exact h.instructionData
  · rw [hprogram]
    exact lengthenVerify_iff.mpr ⟨output, rfl, h.verified⟩
  · rw [hprogram]
    exact h.selfProgramId
  · exact h.callerProgramId
  · rw [hprogram]
    exact h.valid
  · have hsynced := h.synced
    unfold validateAndSyncStates at hsynced ⊢
    rw [hsync]
    exact hsynced

theorem machine_lengthen : (machine verify accountIdentities).Follows
    (machine (lengthenVerify verify) accountIdentities) lengthenProgress lengthenWork lengthen where
  serves h := machine_serves.mpr (machine_serves.mp h).lengthen
  calls call output := by
    show nextCalls (lengthenWork call) (lengthen output) = (nextCalls call output).map lengthenWork
    unfold nextCalls
    rw [(lengthenWork_eq call).1, lengthen, map_map, map_map]
    rfl

omit [Sha256] in
theorem startState_lengthen :
    startState (programOutputs.map lengthen) = startState programOutputs := by
  unfold startState
  rw [map_map, map_map]
  rfl

/-- **The circuit does not see which accounts a call passes.**  What it accepts it accepts
with an account more in every chained call. -/
theorem lengthened_accepted
    (h : deriveFromOutputs verify accountIdentities programId programOutputs = .ok final) :
    deriveFromOutputs (lengthenVerify verify) accountIdentities programId
      (programOutputs.map lengthen) = .ok final := by
  obtain ⟨start, hstart, h⟩ := bind_eq_ok.mp h
  refine bind_eq_ok.mpr ⟨start, startState_lengthen.trans hstart, ?_⟩
  rcases programOutputs with _ | ⟨firstOutput, rest⟩
  · cases h
  obtain ⟨⟨state, leftover⟩, hrun, h⟩ := bind_eq_ok.mp h
  obtain ⟨rfl, h⟩ := ensure_bind_eq_ok.mp h
  exact bind_eq_ok.mpr ⟨(state, []), machine_lengthen.run_eq_ok hrun,
    ensure_bind_eq_ok.mpr ⟨rfl, h⟩⟩

theorem callTree_lengthen {v : Visit Progress Call ProgramOutput}
    (hv : v ∈ callTree verify accountIdentities programId programOutputs) :
    v.map lengthenProgress lengthenWork lengthen ∈
      callTree (lengthenVerify verify) accountIdentities programId
        (programOutputs.map lengthen) := by
  unfold callTree at hv ⊢
  rw [startState_lengthen]
  rcases programOutputs with _ | ⟨firstOutput, rest⟩
  · cases hv
  cases hstart : startState (firstOutput :: rest) with
  | error panic => simp [hstart] at hv
  | ok start =>
    simp only [hstart] at hv
    exact machine_lengthen.mem_visits hv

/-! ### Integrity -/

omit [Sha256] in
/-- Every call takes the next output. -/
theorem outputs_of_threads {tree : List (Visit Progress Call ProgramOutput)}
    (h : Machine.Threads tree progress progress')
    (step : ∀ v ∈ tree, v.before.2 = v.result :: v.after.2) :
    progress.2 = tree.map (·.result) ++ progress'.2 := by
  induction h with
  | nil progress => rfl
  | cons _ ih =>
    rw [step _ mem_cons_self, ih fun v hv => step v (mem_cons_of_mem _ hv)]
    rfl

/-- Where an output has a chained call, some call of the walk is a chained one. -/
theorem exists_chained_call
    (h : deriveFromOutputs verify accountIdentities programId programOutputs = .ok final)
    (houtput : output ∈ programOutputs) (hcalls : output.chainedCalls ≠ []) :
    ∃ v ∈ callTree verify accountIdentities programId programOutputs,
      v.call.2.programId.isSome = true := by
  obtain ⟨start, -, hthreads, -⟩ := deriveFromOutputs_ok h
  have hresults : programOutputs
      = (callTree verify accountIdentities programId programOutputs).map (·.result) ++ [] :=
    outputs_of_threads hthreads fun v hv => (callTree_step hv).taken
  rw [append_nil] at hresults
  rw [hresults] at houtput
  obtain ⟨v, hv, rfl⟩ := mem_map.mp houtput
  obtain ⟨newCall, hnew⟩ := List.exists_mem_of_ne_nil _ hcalls
  obtain ⟨start', hstart', h⟩ := bind_eq_ok.mp h
  rcases programOutputs with _ | ⟨firstOutput, rest⟩
  · cases h
  obtain ⟨⟨state, leftover⟩, hrun, -⟩ := bind_eq_ok.mp h
  simp only [callTree, hstart'] at hv ⊢
  have hnext : (newCall, ⟨some v.call.1.programId, authorizedBelow v.call.2 v.result⟩) ∈
      (machine verify accountIdentities).calls v.call v.result :=
    mem_map.mpr ⟨newCall, hnew, rfl⟩
  obtain ⟨w, hw, hcall, -⟩ := Machine.visits_children hrun hv hnext
  exact ⟨w, hw, by rw [hcall]; rfl⟩

/-- Without chained calls there is only the root call, which is read off its output. -/
theorem callIntegrity_of_no_calls
    (hcalls : ∀ output ∈ programOutputs, output.chainedCalls = []) :
    CallIntegrity verify accountIdentities programId programOutputs := by
  intro v hv
  unfold callTree at hv
  split at hv
  · rename_i firstOutput rest hstart
    obtain ⟨output, progress, hserves, hcases⟩ := Machine.mem_visits_succ_cons hv
    obtain rfl : firstOutput = output := ok.inj hserves.answer
    rcases hcases with rfl | hlater
    · rfl
    · have hnone : (machine verify accountIdentities).children
          (initialCall programId firstOutput) firstOutput [] = [] := by
        simp [Machine.children, machine, nextCalls, hcalls firstOutput mem_cons_self]
      rw [hnone, append_nil, Machine.visits_nil] at hlater
      cases hlater
  · cases hv

omit [Sha256] in
theorem chainedCalls_eq_nil_of_forget {outputs outputs' : List ProgramOutput}
    (hsame : outputs'.map forgetCallAccounts = outputs.map forgetCallAccounts)
    (hcalls : ∀ output ∈ outputs, output.chainedCalls = []) :
    ∀ output ∈ outputs', output.chainedCalls = [] := by
  intro output houtput
  have hmem : forgetCallAccounts output ∈ outputs.map forgetCallAccounts :=
    hsame ▸ mem_map_of_mem houtput
  obtain ⟨original, horiginal, heq⟩ := mem_map.mp hmem
  have hchained := congrArg ProgramOutput.chainedCalls heq
  simp only [forgetCallAccounts, hcalls original horiginal, map_nil] at hchained
  exact List.map_eq_nil_iff.mp hchained.symm

/-- **When the circuit binds callees to the accounts passed.**  Take any accepted input.
Integrity holds for all inputs with the same account identities, root program and
outputs, up to the account lists in chained calls, exactly if no output has a chained
call. -/
theorem callIntegrity_iff {programs : Programs} (hattests : Attests programs verify)
    (h : deriveFromOutputs verify accountIdentities programId programOutputs = .ok final) :
    (∀ programs' verify' programOutputs' final', Attests programs' verify' →
        programOutputs'.map forgetCallAccounts = programOutputs.map forgetCallAccounts →
        deriveFromOutputs verify' accountIdentities programId programOutputs' = .ok final' →
        CallIntegrity verify' accountIdentities programId programOutputs') ↔
      ∀ output ∈ programOutputs, output.chainedCalls = [] := by
  constructor
  · intro hintegrity output houtput
    by_contra hcalls
    obtain ⟨v, hv, hchained⟩ := exists_chained_call h houtput hcalls
    have hforget : (programOutputs.map lengthen).map forgetCallAccounts
        = programOutputs.map forgetCallAccounts := by
      rw [map_map]
      refine map_congr_left fun output _ => ?_
      rw [Function.comp_apply, forgetCallAccounts, lengthen, map_map]
      rfl
    -- the callee cannot have run on both the shorter and the longer list
    have hshort := hintegrity _ _ _ _ hattests rfl h v hv
    have hlong := hintegrity _ _ _ _ hattests.lengthen hforget (lengthened_accepted h) _
      (callTree_lengthen hv)
    have hlengths := congrArg List.length (hshort.symm.trans hlong)
    simp [Visit.map, lengthenWork, hchained, lengthenCall] at hlengths
  · intro hcalls programs' verify' programOutputs' final' _ hforget _
    exact callIntegrity_of_no_calls (chainedCalls_eq_nil_of_forget hforget hcalls)

end

/-! A forwarder passes the payer and the first recipient on to the authenticated-transfer
program, with a transfer of 3.  The prover has that program run on the payer and the
second recipient. -/

namespace Redirect

def transferProgram : ProgramId := .ofWord 1

def forwarder : ProgramId := .ofWord 2

def payer : AccountId := ⟨.replicate 32 1⟩

def alice : AccountId := ⟨.replicate 32 2⟩

def bob : AccountId := ⟨.replicate 32 3⟩

scoped instance sha : Sha256 := .ofTable []

open scoped AuthenticatedTransfer

/-- The forwarder, called on a payer and two recipients. -/
def forward : Guest := fun selfProgramId caller preStates instruction =>
  match preStates with
  | [payer, first, _] => some
      { ProgramOutput.new selfProgramId caller instruction preStates
          (preStates.map fun pre => .new pre.account) with
        chainedCalls := [⟨transferProgram, [payer, first],
          toWords (AuthenticatedTransfer.Instruction.transfer 3), []⟩] }
  | _ => none

def programs : Programs where
  run programId caller preStates instruction :=
    if programId = transferProgram then
      AuthenticatedTransfer.main programId caller preStates instruction
    else forward programId caller preStates instruction
  echoes h := by
    split at h
    · obtain ⟨postStates, rfl, -⟩ := AuthenticatedTransfer.main_ok h
      rfl
    · unfold forward at h
      split at h
      · rw [← some.inj h]
        rfl
      · cases h

/-- Every real execution has a receipt. -/
def verify (programId : ProgramId) (output : ProgramOutput) : Bool :=
  decide (programs.run programId output.callerProgramId output.preStates output.instructionData
    = some output)

theorem attests : Attests programs verify :=
  fun _ _ h => ⟨_, _, _, of_decide_eq_true h⟩

def held (balance : Balance) : Account :=
  { Account.ownedBy transferProgram with balance }

def programOutputs : List ProgramOutput :=
  [ (forward forwarder none
      [⟨held 10, true, payer⟩, ⟨held 0, false, alice⟩, ⟨held 0, false, bob⟩] []),
    (AuthenticatedTransfer.main transferProgram (some forwarder)
      [⟨held 10, true, payer⟩, ⟨held 0, false, bob⟩]
      (toWords (AuthenticatedTransfer.Instruction.transfer 3))) ].filterMap id

def accountIdentities : List InputAccountIdentity := replicate 3 .publicAccount

end Redirect

section

open Redirect

/-- The circuit accepts the redirected transfer: the caller passed the payer and the first
recipient, and the callee ran on the payer and the second. -/
theorem redirect_accepted :
    Attests programs verify ∧
      (∃ final, deriveFromOutputs verify accountIdentities forwarder programOutputs = .ok final) ∧
      ∃ v ∈ callTree verify accountIdentities forwarder
          programOutputs,
        v.call.1.preStates.map (·.accountId) = [payer, alice] ∧
        v.result.preStates.map (·.accountId) = [payer, bob] ∧
        v.result.instructionData = v.call.1.instructionData := by
  exact ⟨attests, by decide +kernel⟩

theorem redirect_integrity_iff :
    ¬∀ programs' verify' programOutputs' final', Attests programs' verify' →
        programOutputs'.map forgetCallAccounts = programOutputs.map forgetCallAccounts →
        deriveFromOutputs verify' accountIdentities forwarder programOutputs' = .ok final' →
        CallIntegrity verify' accountIdentities forwarder programOutputs' := by
  obtain ⟨final, h⟩ : ∃ final, deriveFromOutputs verify accountIdentities
      forwarder programOutputs = .ok final := by decide +kernel
  rw [callIntegrity_iff attests h]
  decide +kernel

end

end Circuit

end Lssa
