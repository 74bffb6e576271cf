/-
The chain and the circuit walk a call tree in lockstep.

With `Agree` between their states, what one accepts at a call the other accepts
(`step_forward`, `step_backward`), and so for a whole walk (`run_forward`,
`run_backward`).  They differ in one check: the circuit compares the instruction in an
output with the instruction of the call (`Echoes`), the chain, which ran the program
itself, does not.
-/
import Lssa.Agreement.Account

open Outcome DepthFirst

namespace Lssa

namespace Agreement

open PublicExecution Machine
open Circuit (ExecutionState Extends)

section

variable [Sha256] {state : V03State} {signers : List AccountId} {touched : Finset AccountId}
  {diff diff' : Diff} {es es' : ExecutionState} {call call' : Call} {n : ℕ}

/-! ### One call -/

/-- What is assumed of an output: no signer is a PDA it delegates, and its accounts are
counted. -/
structure Admissible (signers : List AccountId) (touched : Finset AccountId)
    (output : ProgramOutput) : Prop where
  unsigned : ∀ call ∈ output.chainedCalls, ∀ seed ∈ call.pdaSeeds,
    forPublicPda output.selfProgramId seed ∉ signers
  touched : ∀ pre ∈ output.preStates, pre.accountId ∈ touched

variable {exec : Executor} {blockId : BlockId} {timestamp : Timestamp}
  {verify : ProgramId → ProgramOutput → Bool} {output : ProgramOutput}
  {rest : List ProgramOutput}

/-- A call of the chain and a call of the circuit on the work lists: they agree, and the circuit has
the same call, or at the root the instruction that the program reports. -/
structure Paired (exec : Executor) (state : V03State) (signers : List AccountId)
    (es : ExecutionState) (call call' : Call) : Prop where
  agrees : CallAgrees signers es call call'
  called : call.2.programId ≠ none → call'.1 = call.1
  root : call.2.programId = none → ∀ output, execute exec state call = .ok output →
    output.instructionData = call'.1.instructionData

/-- The calls that an output asks for agree. -/
theorem nextCalls_agree (hcall : CallAgrees signers es call call') (hextends : Extends es es')
    (hoccur : ∀ pre ∈ output.preStates, pre.accountId ∈ es'.preStates.map (·.accountId))
    (hself : output.selfProgramId = call.1.programId)
    (hadmissible : Admissible signers touched output) :
    List.Forall₂ (Paired exec state signers es') (nextCalls call output)
      (nextCalls call' output) := by
  unfold nextCalls
  rw [List.forall₂_map_left_iff, List.forall₂_map_right_iff, List.forall₂_same]
  intro newCall hnew
  refine ⟨⟨rfl, rfl, congrArg some hcall.programId, fun accountId => ?_, ?_, ?_⟩, fun _ => rfl,
    nofun⟩
  · rw [mem_authorizedBelow, mem_authorizedBelow, hcall.authorized, or_assoc]
  · intro accountId hmem
    rcases mem_authorizedBelow.mp hmem with hold | ⟨pre, hpre, rfl, -⟩
    · exact (hextends.preStates.map _).subset (hcall.recorded accountId hold)
    · exact hoccur pre hpre
  · rintro accountId ⟨issuer, hissuer, seed, hseed, hpda⟩
    obtain rfl : call.1.programId = issuer := some.inj hissuer
    rw [← hself] at hpda
    exact hpda ▸ hadmissible.unsigned newCall hnew seed hseed

section

variable (h : Agree state signers touched diff es) (hcall : CallAgrees signers es call call')

include h hcall

theorem step_forward (hfamilies : FamiliesPublic es.pdaFamilyBinding)
    (hadmissible : Admissible signers touched output) (hn : touched.card ≤ n)
    (hverify : verify call.1.programId output = true)
    (hecho : output.instructionData = call'.1.instructionData)
    (hstep : PublicExecution.Step exec state blockId timestamp diff call output diff') :
    ∃ es', Circuit.Step verify (allPublic n) (es, output :: rest) call' output (es', rest) ∧
      FamiliesPublic es'.pdaFamilyBinding ∧ Agree state signers touched diff' es' := by
  obtain ⟨-, hself, hcaller, hvalid, -, -, hsync⟩ := step_iff.mp hstep
  obtain ⟨es', hes', hpublic, hagree⟩ := sync_forward h hcall hfamilies
    (fun pair hpair => hadmissible.touched _ (of_mem_zip hpair).1) hn hsync
  rw [← hcall.programId] at hself hvalid hverify
  rw [← hcall.issuer] at hcaller
  exact ⟨es', ⟨rfl, hecho, hverify, hself, hcaller, hvalid, hes'⟩, hpublic, hagree⟩

theorem step_backward (hadmissible : Admissible signers touched output)
    (hexecute : execute exec state call = .ok output)
    (hblock : output.blockValidityWindow.isValidFor blockId = true)
    (htime : output.timestampValidityWindow.isValidFor timestamp = true)
    (hstep : Circuit.Step verify (allPublic n) (es, output :: rest) call' output (es', rest))
    (hrecorded : RecordsState state signers es') :
    ∃ diff', PublicExecution.Step exec state blockId timestamp diff call output diff' ∧
      Agree state signers touched diff' es' := by
  obtain ⟨diff', hdiff', hagree⟩ := sync_backward h hcall
    (fun pair hpair => hadmissible.touched _ (of_mem_zip hpair).1) hstep.synced hrecorded
  have hself := hstep.selfProgramId
  have hcaller := hstep.callerProgramId
  have hvalid := hstep.valid
  rw [hcall.programId] at hself hvalid
  rw [hcall.issuer] at hcaller
  exact ⟨diff', step_iff.mpr ⟨hexecute, hself, hcaller, hvalid, hblock, htime, hdiff'⟩, hagree⟩

end

/-! ### A whole walk -/

/-- The work lists agree. -/
abbrev WorkAgrees (exec : Executor) (state : V03State) (signers : List AccountId)
    (es : ExecutionState) : List Call → List Call → Prop :=
  List.Forall₂ (Paired exec state signers es)

variable {work' : List Call} {work : List (Call × List Entry)}

theorem WorkAgrees.next {work : List Call} (h : WorkAgrees exec state signers es work work')
    (hcall : CallAgrees signers es call call')
    (hstep : Circuit.Step verify (allPublic n) (es, output :: rest) call' output (es', rest))
    (hself : output.selfProgramId = call.1.programId)
    (hadmissible : Admissible signers touched output) :
    WorkAgrees exec state signers es' (nextCalls call output ++ work)
      (nextCalls call' output ++ work') := by
  have hextends : Extends es es' := hstep.extends
  refine List.rel_append (nextCalls_agree hcall hextends (fun pre hpre => hstep.recorded hpre)
    hself hadmissible) ?_
  exact h.imp fun _ _ hpaired => ⟨hpaired.agrees.mono hextends, hpaired.called, hpaired.root⟩

/-- The output of a call carries the instruction of the call. -/
def Echoes (v : Visit Diff Call ProgramOutput) : Prop :=
  v.result.instructionData = v.call.1.instructionData

abbrev chain (exec : Executor) (state : V03State) (blockId : BlockId) (timestamp : Timestamp) :=
  machine exec state blockId timestamp

theorem run_extends {k : ℕ} {progress progress' : Circuit.Progress}
    (h : (Circuit.machine verify (allPublic n)).run k work' progress = .ok progress') :
    Extends progress.1 progress'.1 :=
  run_invariant (I := fun _ p => Extends progress.1 p.1)
    (fun hserves hext => hext.trans (Circuit.machine_serves.mp hserves).extends) h
    (Extends.refl _)

/-- Every output is valid for the block and the time. -/
def Timely (blockId : BlockId) (timestamp : Timestamp) (output : ProgramOutput) : Prop :=
  output.blockValidityWindow.isValidFor blockId = true ∧
    output.timestampValidityWindow.isValidFor timestamp = true

section

variable {k : ℕ} (h : Agree state signers touched diff es)
  (hwork : WorkAgrees exec state signers es (work.map Prod.fst) work')
  (hadmissible : ∀ output ∈ (chain exec state blockId timestamp).outputs k (work.map Prod.fst)
    diff, Admissible signers touched output)

include h hwork hadmissible

theorem run_forward
    (hverify : ∀ call output, execute exec state call = .ok output →
      verify call.1.programId output = true) (hn : touched.card ≤ n)
    (hfamilies : FamiliesPublic es.pdaFamilyBinding)
    (hecho : ∀ v ∈ (chain exec state blockId timestamp).visits k work diff,
      v.call.2.programId ≠ none → Echoes v)
    (hrun : (chain exec state blockId timestamp).run k (work.map Prod.fst) diff = .ok diff') :
    ∃ es', (Circuit.machine verify (allPublic n)).run k work'
        (es, (chain exec state blockId timestamp).outputs k (work.map Prod.fst) diff)
          = .ok (es', []) ∧
      Agree state signers touched diff' es' := by
  induction k generalizing work work' diff es <;> cases work
  case zero.nil | succ.nil =>
    cases hwork
    rw [map_nil, run_nil, Except.ok.injEq] at hrun
    exact ⟨es, rfl, hrun ▸ h⟩
  case zero.cons => exact absurd hrun (by rw [map_cons, run_zero_cons]; simp)
  case succ.cons k ih entry work =>
    obtain ⟨call, path⟩ := entry
    rw [map_cons] at hwork hrun hadmissible ⊢
    cases hwork with
    | cons hpaired hothers =>
      rename_i call' work'
      obtain ⟨output, mid, hserves, hrest⟩ := run_succ_cons_eq_ok.mp hrun
      rw [outputs_succ_cons hserves] at hadmissible ⊢
      rw [visits_succ_cons hserves] at hecho
      have hstep := machine_serves.mp hserves
      have hfirst := hadmissible output mem_cons_self
      have hecho' : output.instructionData = call'.1.instructionData := by
        by_cases hroot : call.2.programId = none
        · exact hpaired.root hroot output hstep.executed
        · rw [hpaired.called hroot]
          exact hecho _ mem_cons_self hroot
      obtain ⟨mid', hstep', hpublic, hagree⟩ := step_forward h hpaired.agrees hfamilies hfirst hn
        (hverify call output hstep.executed) hecho' hstep
      have hnext := WorkAgrees.next hothers hpaired.agrees hstep' hstep.selfProgramId hfirst
      rw [← map_fst_children path] at hrest hadmissible ⊢
      obtain ⟨es', hes', hfinal⟩ := ih hagree (by rw [map_fst_children]; exact hnext)
        (fun later hmem => hadmissible later (mem_cons_of_mem _ hmem)) hpublic
        (fun v hv => hecho v (mem_cons_of_mem _ hv)) hrest
      refine ⟨es', run_succ_cons_eq_ok.mpr ⟨output, _, ?_, hes'⟩, hfinal⟩
      exact Circuit.machine_serves.mpr hstep'

theorem run_backward
    (htimely : ∀ output ∈ (chain exec state blockId timestamp).outputs k (work.map Prod.fst)
      diff, Timely blockId timestamp output)
    (hrun : (Circuit.machine verify (allPublic n)).run k work'
        (es, (chain exec state blockId timestamp).outputs k (work.map Prod.fst) diff)
          = .ok (es', rest)) (hrecorded : RecordsState state signers es') :
    ∃ diff', (chain exec state blockId timestamp).run k (work.map Prod.fst) diff = .ok diff' ∧
      Agree state signers touched diff' es' ∧
      ∀ v ∈ (chain exec state blockId timestamp).visits k work diff,
        v.call.2.programId ≠ none → Echoes v := by
  induction k generalizing work work' diff es <;> cases work
  case zero.nil | succ.nil =>
    cases hwork
    rw [run_nil, Except.ok.injEq] at hrun
    obtain ⟨rfl, -⟩ := Prod.mk.inj hrun
    exact ⟨diff, rfl, h, fun v hv => absurd hv (by simp)⟩
  case zero.cons =>
    cases hwork
    exact absurd hrun (by rw [run_zero_cons]; simp)
  case succ.cons k ih entry work =>
    obtain ⟨call, path⟩ := entry
    rw [map_cons] at hwork hrun hadmissible htimely ⊢
    cases hwork with
    | cons hpaired hothers =>
      rename_i work'
      obtain ⟨output, ⟨mid', rest'⟩, hserves, hrest⟩ := run_succ_cons_eq_ok.mp hrun
      have hstep' := Circuit.machine_serves.mp hserves
      -- the output that the circuit takes is the answer of the chain
      have houtputs : (chain exec state blockId timestamp).outputs (k + 1)
          (call :: work.map Prod.fst) diff = output :: rest' := hstep'.taken
      have hanswer := answer_of_outputs houtputs
      rw [houtputs] at hstep' hadmissible htimely
      have hfirst := hadmissible output mem_cons_self
      obtain ⟨hblock, htime⟩ := htimely output mem_cons_self
      obtain ⟨mid, hstep, hagree⟩ := step_backward h hpaired.agrees hfirst hanswer hblock htime
        hstep' (hrecorded.of_extends (run_extends hrest))
      have hserves' := machine_serves.mpr hstep
      have hnext := WorkAgrees.next hothers hpaired.agrees hstep' hstep.selfProgramId hfirst
      rw [outputs_succ_cons hserves'] at houtputs
      obtain rfl := (cons.inj houtputs).2
      rw [← map_fst_children path] at hrest hadmissible htimely
      obtain ⟨diff', hdiff', hfinal, hecho⟩ := ih hagree
        (by rw [map_fst_children]; exact hnext)
        (fun later hmem => hadmissible later (mem_cons_of_mem _ hmem))
        (fun later hmem => htimely later (mem_cons_of_mem _ hmem)) hrest
      refine ⟨diff', run_succ_cons_eq_ok.mpr ⟨output, mid, hserves', ?_⟩, hfinal, ?_⟩
      · rw [map_fst_children] at hdiff'
        exact hdiff'
      · rw [visits_succ_cons hserves']
        intro v hv hcalled
        rcases mem_cons.mp hv with rfl | hv
        · exact hstep'.instructionData.trans (congrArg _ (hpaired.called hcalled))
        · exact hecho v hv hcalled

end

end

end Agreement

end Lssa
