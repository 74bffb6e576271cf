/-
The clock program (`lez/programs/clock`).

Three accounts hold the number of the current block and its timestamp; one is written in
every block, the others in every tenth and every fiftieth.  The sequencer ends every block
with a call of this program, the clock invocation, and no other transaction may change the
three accounts.
-/
import Lssa.Guest
import Lssa.LeeTransaction

open Borsh Outcome

namespace Lssa

/-- The id of the clock program, `programs::clock().id()`. -/
class ClockBuiltin where
  clock : ProgramId

/-- The words of a `u64`: the low half, then the high half. -/
@[reducible] def Serde.u64 : Serde U64 where
  toWords value := [UInt32.ofNat value.val, UInt32.ofNat (value.val / 2 ^ 32)]
  fromWords
    | low :: high :: _ =>
      some ⟨low.toNat + 2 ^ 32 * high.toNat, by have := low.toNat_lt; have := high.toNat_lt; omega⟩
    | _ => none

/-- A `u64` is read back from its words. -/
theorem Serde.fromWords_toWords_u64 (value : U64) :
    Serde.u64.fromWords (Serde.u64.toWords value) = some value := by
  have hvalue := value.isLt
  refine congrArg some (Fin.ext ?_)
  show (UInt32.ofNat value.val).toNat + 2 ^ 32 * (UInt32.ofNat (value.val / 2 ^ 32)).toNat
    = value.val
  rw [UInt32.toNat_ofNat', UInt32.toNat_ofNat']
  omega

namespace Clock

structure ClockAccountData where
  blockId : U64
  timestamp : Timestamp
  deriving DecidableEq

namespace ClockAccountData

/-- The Borsh format of the data. -/
def codec : Codec ClockAccountData :=
  (Codec.pair Codec.u64 Codec.u64).equiv
    { toFun := fun (blockId, timestamp) => ⟨blockId, timestamp⟩
      invFun := fun data => (data.blockId, data.timestamp)
      left_inv := fun _ => rfl
      right_inv := fun _ => rfl }

def toBytes (data : ClockAccountData) : List UInt8 := codec.encode data

def fromBytes (bytes : List UInt8) : Option ClockAccountData := codec.fromSlice bytes

@[simp] theorem fromBytes_toBytes (data : ClockAccountData) : fromBytes data.toBytes = some data :=
  Codec.fromSlice_encode codec data

end ClockAccountData

/-- `update_if_multiple`, without the account it hands back. -/
def updateIfMultiple (pre : AccountWithMetadata) (divisor : ℕ) (currentBlockId : U64)
    (updatedData : List UInt8) : Option AccountPostState :=
  if divisor ∣ currentBlockId.val then
    (Data.tryFrom updatedData).map fun data => .new { pre.account with data }
  else some (.new pre.account)

variable [Serde Timestamp]

def main : Guest := fun selfProgramId callerProgramId preStates instructionWords => do
  let timestamp : Timestamp ← fromWords instructionWords
  match preStates with
  | [pre01, pre10, pre50] =>
    require ([pre01.accountId, pre10.accountId, pre50.accountId] = clockAccountIds)
    let selfAccountId := ofProgramId selfProgramId
    require (pre01.account.programOwner = selfAccountId ∧
      pre10.account.programOwner = selfAccountId ∧ pre50.account.programOwner = selfAccountId)
    let prevData ← ClockAccountData.fromBytes pre01.account.data.bytes
    let currentBlockId ← checkedSucc prevData.blockId
    let updatedData := (ClockAccountData.mk currentBlockId timestamp).toBytes
    let post01 ← updateIfMultiple pre01 1 currentBlockId updatedData
    let post10 ← updateIfMultiple pre10 10 currentBlockId updatedData
    let post50 ← updateIfMultiple pre50 50 currentBlockId updatedData
    some (ProgramOutput.new selfProgramId callerProgramId instructionWords
      [pre01, pre10, pre50] [post01, post10, post50])
  | _ => none

omit [Serde Timestamp] in
/-- An account that is updated has the new data, any other one what it had. -/
theorem updateIfMultiple_ok {pre : AccountWithMetadata} {divisor : ℕ} {currentBlockId : U64}
    {updatedData : List UInt8} {post : AccountPostState}
    (h : updateIfMultiple pre divisor currentBlockId updatedData = some post) :
    ∃ account, post = .new account ∧ account.data.bytes
      = if divisor ∣ currentBlockId.val then updatedData else pre.account.data.bytes := by
  unfold updateIfMultiple at h
  split at h
  · rename_i hdvd
    obtain ⟨data, hdata, rfl⟩ := map_eq_some_iff.mp h
    refine ⟨_, rfl, ?_⟩
    rw [if_pos hdvd]
    exact Data.tryFrom_eq_some.mp hdata
  · rename_i hdvd
    refine ⟨pre.account, (some.inj h).symm, ?_⟩
    rw [if_neg hdvd]

/-- **What the program does.**  It counts one block on from the first of its accounts, and
updates those whose period divides the new count. -/
theorem main_ok {selfProgramId : ProgramId} {callerProgramId : Option ProgramId}
    {preStates : List AccountWithMetadata} {instructionWords : InstructionData}
    {output : ProgramOutput}
    (h : main selfProgramId callerProgramId preStates instructionWords = some output) :
    ∃ timestamp pre01 pre10 pre50 prevData currentBlockId post01 post10 post50,
      fromWords instructionWords = some timestamp ∧ preStates = [pre01, pre10, pre50] ∧
      ClockAccountData.fromBytes pre01.account.data.bytes = some prevData ∧
      currentBlockId.val = prevData.blockId.val + 1 ∧
      updateIfMultiple pre01 1 currentBlockId
        (ClockAccountData.mk currentBlockId timestamp).toBytes = some post01 ∧
      updateIfMultiple pre10 10 currentBlockId
        (ClockAccountData.mk currentBlockId timestamp).toBytes = some post10 ∧
      updateIfMultiple pre50 50 currentBlockId
        (ClockAccountData.mk currentBlockId timestamp).toBytes = some post50 ∧
      output = ProgramOutput.new selfProgramId callerProgramId instructionWords
        [pre01, pre10, pre50] [post01, post10, post50] := by
  obtain ⟨timestamp, htimestamp, hrest⟩ := bind_eq_some_iff.mp h
  split at hrest
  · rename_i pre01 pre10 pre50
    obtain ⟨-, h⟩ := require_bind_eq_some.mp hrest
    obtain ⟨-, h⟩ := require_bind_eq_some.mp h
    obtain ⟨prevData, hprev, h⟩ := bind_eq_some_iff.mp h
    obtain ⟨currentBlockId, hcurrent, h⟩ := bind_eq_some_iff.mp h
    obtain ⟨post01, hpost01, h⟩ := bind_eq_some_iff.mp h
    obtain ⟨post10, hpost10, h⟩ := bind_eq_some_iff.mp h
    obtain ⟨post50, hpost50, h⟩ := bind_eq_some_iff.mp h
    exact ⟨timestamp, pre01, pre10, pre50, prevData, currentBlockId, post01, post10, post50,
      htimestamp, rfl, hprev, checkedSucc_eq_some.mp hcurrent, hpost01, hpost10, hpost50,
      (some.inj h).symm⟩
  · cases hrest

end Clock

end Lssa
