/-
Guest programs.

A built-in program is a zkVM guest: it reads its own id, its caller, its accounts and
its instruction (`read_lee_inputs`), and writes a `ProgramOutput` or panics.  Here it is
a partial function, a `Guest`.  Instructions travel as words; the risc0 serde that turns
them into data and back is a parameter (`Serde`).

An executor that runs a guest under some program id is an `Executor` that `Executes` it
there; what it does under other ids, those of user-deployed programs, is left open.
-/
import Lssa.PublicExecution

namespace Lssa

/-- The words of an instruction, `risc0_zkvm::serde`. -/
class Serde (instruction : Type) where
  toWords : instruction → InstructionData
  fromWords : InstructionData → Option instruction

export Serde (toWords fromWords)

/-- A serde that knows some instructions. -/
@[reducible] def Serde.ofTable {instruction : Type} [DecidableEq instruction]
    (table : List (instruction × InstructionData)) : Serde instruction where
  toWords data := ((table.find? fun entry => entry.1 = data).map Prod.snd).getD []
  fromWords words := (table.find? fun entry => entry.2 = words).map Prod.fst

/-- A serde that knows one instruction reads it back, and nothing in the words of another. -/
theorem Serde.ofTable_singleton {instruction : Type} [DecidableEq instruction]
    {data sent received : instruction} {words : InstructionData} (hwords : words ≠ [])
    (h : (Serde.ofTable [(data, words)]).fromWords ((Serde.ofTable [(data, words)]).toWords sent)
      = some received) : received = sent := by
  change ([(data, words)].find? fun entry => decide (entry.2 =
    (([(data, words)].find? fun entry => decide (entry.1 = sent)).map Prod.snd).getD [])).map
      Prod.fst = some received at h
  by_cases hknown : data = sent
  · simp only [hknown, List.find?_cons, decide_true, map_some, getD_some] at h
    exact (some.inj h).symm
  · simp [hknown, hwords] at h

/-- A guest, from its own id, its caller, its accounts and the words of its instruction
to its output; `none` is a panic. -/
abbrev Guest :=
  ProgramId → Option ProgramId → List AccountWithMetadata → InstructionData → Option ProgramOutput

/-- `assert!`: a guest that goes on only if a condition holds. -/
def require (p : Prop) [Decidable p] : Option Unit := if p then some () else none

theorem require_bind_eq_some {α : Type} {p : Prop} [Decidable p] {f : Unit → Option α} {a : α} :
    (require p).bind f = some a ↔ p ∧ f () = some a := by
  unfold require
  split
  · rename_i hp
    simp [hp]
  · rename_i hp
    simp [hp]

/-- `checked_sub`. -/
def checkedSub (a b : U128) : Option U128 := if b ≤ a then some (a - b) else none

/-- `checked_add(1)` on a `u64`. -/
def checkedSucc (a : U64) : Option U64 :=
  if h : a.val + 1 < 2 ^ 64 then some ⟨a.val + 1, h⟩ else none

theorem checkedSucc_eq_some {a b : U64} : checkedSucc a = some b ↔ b.val = a.val + 1 := by
  unfold checkedSucc
  have hb := b.isLt
  split
  · rw [some_inj, Fin.ext_iff]
    exact eq_comm
  · refine iff_of_false (by simp) ?_
    omega

theorem checkedSub_eq_some {a b c : U128} : checkedSub a b = some c ↔ c.val + b.val = a.val := by
  unfold checkedSub
  have hb := b.isLt
  have hc := c.isLt
  by_cases h : b ≤ a
  · rw [if_pos h, some_inj, Fin.ext_iff, Fin.sub_val_of_le h]
    have hle : b.val ≤ a.val := h
    omega
  · rw [if_neg h]
    have hlt : a.val < b.val := not_le.mp h
    refine iff_of_false (by simp) ?_
    omega

/-- The program stored under an id is the guest: an execution that succeeds ends with the
guest's output. -/
def Executes (exec : Executor) (programId : ProgramId) (guest : Guest) : Prop :=
  ∀ elf caller preStates instruction output,
    exec ⟨programId, elf⟩ caller preStates instruction = .ok output →
      guest programId caller preStates instruction = some output

/-- An executor that runs the guest stored under each id. -/
def Executor.ofGuests (guests : ProgramId → Guest) : Executor :=
  fun program caller preStates instruction =>
    match guests program.id program.id caller preStates instruction with
    | some output => .ok output
    | none => .error (.programExecutionFailed "Guest panicked")

variable {programId : ProgramId} {guest : Guest} {exec : Executor}

variable {guests : ProgramId → Guest}

theorem executes_ofGuests (h : guests programId = guest) :
    Executes (.ofGuests guests) programId guest := by
  intro elf caller preStates instruction output houtput
  subst h
  unfold Executor.ofGuests at houtput
  split at houtput
  · rename_i hsome
    rw [hsome, ok.inj houtput]
  · cases houtput

/-- A call of the program of a guest returns what the guest writes. -/
theorem Executes.of_execute [Sha256] {state : V03State} {call : Call} {output : ProgramOutput}
    (h : Executes exec programId guest) (hid : call.1.programId = programId)
    (hexecute : PublicExecution.execute exec state call = .ok output) :
    guest programId call.2.programId call.1.preStates call.1.instructionData = some output := by
  subst hid
  unfold PublicExecution.execute at hexecute
  split at hexecute
  · cases hexecute
  · exact h _ _ _ _ _ hexecute

/-- The program stored under an id is the guest: it is executed with the guest's output, if
the guest has one. -/
def Realizes (exec : Executor) (programId : ProgramId) (guest : Guest) : Prop :=
  ∀ elf caller preStates instruction output,
    exec ⟨programId, elf⟩ caller preStates instruction = .ok output ↔
      guest programId caller preStates instruction = some output

theorem Realizes.executes (h : Realizes exec programId guest) : Executes exec programId guest :=
  fun elf caller preStates instruction output => (h elf caller preStates instruction output).mp

theorem realizes_ofGuests (h : guests programId = guest) :
    Realizes (.ofGuests guests) programId guest := by
  intro elf caller preStates instruction output
  refine ⟨executes_ofGuests h elf caller preStates instruction output, fun hsome => ?_⟩
  subst h
  simp only [Executor.ofGuests, hsome]

/-- A program that is stored is executed. -/
theorem Realizes.execute [Sha256] {state : V03State} {call : Call} {output : ProgramOutput}
    (h : Realizes exec programId guest) (hid : call.1.programId = programId)
    (hstored : (state.getProgram programId).isSome = true)
    (hguest : guest programId call.2.programId call.1.preStates call.1.instructionData
      = some output) :
    PublicExecution.execute exec state call = .ok output := by
  subst hid
  obtain ⟨program, hprogram⟩ := isSome_iff_exists.mp hstored
  simp only [PublicExecution.execute, hprogram]
  exact (h _ _ _ _ _).mpr hguest

end Lssa
