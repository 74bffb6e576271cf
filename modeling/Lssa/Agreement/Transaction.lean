/-
Public execution and the privacy circuit agree on all-public transactions.

A transaction that the chain executes gives the outputs `publicOutputs`.  The circuit,
told that all accounts are public, accepts the same outputs and ends with the same
accounts, provided that every called program reports the instruction it was called with.
The chain does not ask for that, and a program may report any instruction
(`mumbled_instruction`).

* `workAgrees_initialCall` — the first calls, whose instruction the circuit takes from the first
  output;
* `public_circuit_agree` — acceptance, and the accounts in the end.
-/
import Lssa.Agreement.Run

open Outcome DepthFirst

namespace Lssa

open PublicExecution

namespace Agreement

open Circuit (ExecutionState Extends)
open Circuit (checkBound deriveFromOutputs initialState)

section

variable [Sha256] {state : V03State} {signers : List AccountId} {touched : Finset AccountId}
  {diff : Diff} {es : ExecutionState} {n : ℕ} {exec : Executor} {blockId : BlockId}
  {timestamp : Timestamp} {verify : ProgramId → ProgramOutput → Bool}

/-! ### The checks at the end -/

omit [Sha256] in
/-- Both interpreters look for accounts that changed without being claimed. -/
theorem checkClaimed_agree (h : Agree state signers touched diff es) :
    checkClaimed state diff = .ok () ↔ Circuit.checkClaimed es = .ok () := by
  have hpublic : checkClaimed state diff = .ok () ↔
      ∀ accountId post, diff.lookup accountId = some post →
        (state.getAccountById accountId).programOwner = defaultProgramOwner →
        state.getAccountById accountId ≠ post → post.programOwner ≠ defaultProgramOwner := by
    rw [checkClaimed, forM_eq_ok]
    constructor
    · intro hall accountId post hlook
      exact ensure_eq_ok.mp (hall ⟨accountId, post⟩ (mem_lookup_iff.mp hlook))
    · intro hall entry hentry
      exact ensure_eq_ok.mpr (hall entry.1 entry.2 (mem_lookup_iff.mpr hentry))
  rw [hpublic, Circuit.checkClaimed, forM_eq_ok]
  constructor
  · intro hall recorded hmem
    obtain ⟨haccount, -⟩ := h.recorded recorded hmem
    have hsome := h.mem_iff.mp (mem_map_of_mem (f := (·.accountId)) hmem)
    obtain ⟨post, hpost⟩ := isSome_iff_exists.mp hsome
    rw [h.lookup, hpost, haccount]
    split
    · rename_i hdefault
      exact ensure_eq_ok.mpr (hall _ post hpost hdefault)
    · rfl
  · intro hall accountId post hpost hdefault
    obtain ⟨recorded, hmem, rfl⟩ := mem_map.mp (h.mem_iff.mpr (by rw [hpost]; rfl))
    obtain ⟨haccount, -⟩ := h.recorded recorded hmem
    have hround := hall recorded hmem
    rw [h.lookup, hpost, haccount, if_pos hdefault] at hround
    exact ensure_eq_ok.mp hround

omit [Sha256] in
theorem checkBound_allPublic (n : ℕ) (es : ExecutionState) :
    checkBound (allPublic n) es = .ok () := by
  rw [checkBound, forM_eq_ok]
  rintro ⟨identity, position⟩ hmem
  have hidentity : identity = .publicAccount :=
    List.eq_of_mem_replicate (mem_of_getElem? (List.mem_zipIdx_iff_getElem?.mp hmem))
  rw [hidentity]
  exact ensure_eq_ok.mpr fun hpda => absurd hpda (by simp [InputAccountIdentity.isPrivatePda])

omit [Sha256] in
theorem agree_initialState (state : V03State) (signers : List AccountId)
    (touched : Finset AccountId) (block : ValidityWindow BlockId)
    (time : ValidityWindow Timestamp) :
    Agree state signers touched ∅ (initialState block time) := by
  refine ⟨fun _ => rfl, Circuit.wellFormed_initialState block time, ?_, ?_, ?_⟩
  · intro recorded hmem
    exact absurd hmem (by simp [initialState])
  · intro accountId
    simp [initialState]
  · intro accountId hmem
    exact absurd hmem (by simp [initialState])

/-- The root calls agree, with the first output. -/
theorem workAgrees_initialCall {message : PublicTransaction.Message} {first : ProgramOutput}
    (hfirst : execute exec state (initialCall state signers message)
      = .ok first) (es : ExecutionState) :
    WorkAgrees exec state signers es
      ([(initialCall state signers message, ([] : List Entry))].map Prod.fst)
      [Circuit.initialCall message.programId first] := by
  refine .cons ⟨⟨rfl, rfl, rfl, fun accountId => ?_, fun accountId hmem => ?_, ?_⟩,
    fun h => absurd rfl h, fun _ output houtput => ?_⟩ .nil
  · simp [initialCall, Circuit.initialCall]
  · exact absurd hmem (by simp [Circuit.initialCall])
  · rintro accountId ⟨issuer, hissuer, -⟩
    exact absurd hissuer (by simp [initialCall])
  · rw [ok.inj (houtput.symm.trans hfirst)]
    rfl

variable {outputs : List ProgramOutput} {message : PublicTransaction.Message}

omit [Sha256] in
/-- All outputs are timely iff their windows have something in common that holds the block
and the time. -/
theorem timely_iff :
    (∀ output ∈ outputs, Timely blockId timestamp output) ↔
      (∃ block, ValidityWindow.intersect (outputs.map (·.blockValidityWindow)) = some block ∧
        block.isValidFor blockId = true) ∧
      ∃ time, ValidityWindow.intersect (outputs.map (·.timestampValidityWindow)) = some time ∧
        time.isValidFor timestamp = true := by
  rw [ValidityWindow.intersect_isValidFor, ValidityWindow.intersect_isValidFor]
  simp only [List.forall_mem_map]
  constructor
  · exact fun h => ⟨fun output hmem => (h output hmem).1, fun output hmem => (h output hmem).2⟩
  · exact fun h output hmem => ⟨h.1 output hmem, h.2 output hmem⟩

/-! ### Whole transactions -/

/-- The accounts that outputs list. -/
def touchedAccounts (outputs : List ProgramOutput) : Finset AccountId :=
  (outputs.flatMap fun output => output.preStates.map (·.accountId)).toFinset

/-- A journal that fits the chain: the windows hold the block and the time, and the
pre-states are those of the state and the signers. -/
structure JournalFits (state : V03State) (signers : List AccountId) (blockId : BlockId)
    (timestamp : Timestamp) (es : ExecutionState) : Prop where
  block : es.blockValidityWindow.isValidFor blockId = true
  time : es.timestampValidityWindow.isValidFor timestamp = true
  recorded : RecordsState state signers es

variable [Schnorr] {tx : PublicTransaction}

/-- The outputs that `from_public_transaction` obtains, in order. -/
def publicOutputs (exec : Executor) (tx : PublicTransaction) (state : V03State)
    (blockId : BlockId) (timestamp : Timestamp) : List ProgramOutput :=
  match preparePublicTransaction tx state with
  | .error _ => []
  | .ok (_, call) =>
    (machine exec state blockId timestamp).outputs (maxNumberChainedCalls + 1) [call] ∅

theorem publicOutputs_of_prepare {call : Call}
    (h : preparePublicTransaction tx state = .ok (signers, call)) :
    publicOutputs exec tx state blockId timestamp =
      (chain exec state blockId timestamp).outputs (maxNumberChainedCalls + 1)
        [firstCall state tx] ∅ := by
  obtain ⟨-, -, rfl⟩ := preparePublicTransaction_ok h
  rw [publicOutputs, h]

/-- An accepted transaction is accepted by the circuit, with the same accounts. -/
theorem agree_of_public
    (hverify : ∀ call output, execute exec state call = .ok output →
      verify call.1.programId output = true) (hn : touched.card ≤ n)
    (hadmissible : ∀ output ∈ publicOutputs exec tx state blockId timestamp,
      Admissible tx.signerAccountIds touched output)
    (hecho : ∀ v ∈ callTree exec tx state blockId timestamp, v.call.2.programId ≠ none → Echoes v)
    (h : executePublicTransaction exec tx state blockId timestamp = .ok (signers, diff)) :
    ∃ es, deriveFromOutputs verify (allPublic n) tx.message.programId
        (publicOutputs exec tx state blockId timestamp) = .ok es ∧
      JournalFits state tx.signerAccountIds blockId timestamp es ∧
      Agree state tx.signerAccountIds touched diff es := by
  obtain ⟨⟨signers', call⟩, hprepare, h⟩ := bind_eq_ok.mp h
  obtain ⟨diff', hrun, h⟩ := bind_eq_ok.mp h
  obtain ⟨_, hclaimed, h⟩ := bind_eq_ok.mp h
  cases h
  rw [publicOutputs_of_prepare hprepare] at hadmissible ⊢
  obtain ⟨-, -, rfl⟩ := preparePublicTransaction_ok hprepare
  -- every output was checked against the block and the time, so the windows intersect there
  have htimely : ∀ output ∈ (chain exec state blockId timestamp).outputs
      (maxNumberChainedCalls + 1) [firstCall state tx] ∅, Timely blockId timestamp output := by
    intro output hmem
    have houtputs : _ = (callTree exec tx state blockId timestamp).map (·.result) :=
      Machine.outputs_eq_of_run hrun
    obtain ⟨v, hv, rfl⟩ := mem_map.mp (houtputs ▸ hmem)
    exact ⟨(callTree_step hv).block, (callTree_step hv).time⟩
  obtain ⟨⟨block, hblock, hinBlock⟩, time, htime, hinTime⟩ := timely_iff.mp htimely
  obtain ⟨first, mid, hserves, -⟩ := Machine.run_succ_cons_eq_ok.mp hrun
  obtain ⟨es, hes, hagree⟩ := run_forward
    (agree_initialState state tx.signerAccountIds touched block time)
    (workAgrees_initialCall (machine_serves.mp hserves).executed _) hadmissible
    hverify hn (fun _ _ _ hbound => absurd hbound (by simp [initialState])) hecho hrun
  obtain ⟨rest, houtputs⟩ : ∃ rest, (chain exec state blockId timestamp).outputs
      (maxNumberChainedCalls + 1) [firstCall state tx] ∅ = first :: rest :=
    ⟨_, Machine.outputs_succ_cons hserves⟩
  rw [map_singleton, houtputs] at hes
  rw [houtputs] at hblock htime ⊢
  have hderive : deriveFromOutputs verify (allPublic n) tx.message.programId
      (first :: rest) = .ok es := by
    refine bind_eq_ok.mpr ⟨initialState block time, ?_, ?_⟩
    · rw [Circuit.startState, hblock]
      simp only
      rw [htime]
    · refine bind_eq_ok.mpr ⟨(es, []), hes, ?_⟩
      refine ensure_bind_eq_ok.mpr ⟨rfl, ?_⟩
      refine bind_eq_ok.mpr ⟨(), checkBound_allPublic n es, ?_⟩
      exact bind_eq_ok.mpr ⟨(), (checkClaimed_agree hagree).mp hclaimed, rfl⟩
  obtain ⟨hblock', htime'⟩ := Circuit.deriveFromOutputs_windows hderive
  obtain rfl := some.inj (hblock.symm.trans hblock')
  obtain rfl := some.inj (htime.symm.trans htime')
  exact ⟨es, hderive, ⟨hinBlock, hinTime, hagree.recorded⟩, hagree⟩

/-- Outputs that the circuit accepts, with a journal that fits, are those of an accepted
transaction. -/
theorem agree_of_circuit
    (hadmissible : ∀ output ∈ publicOutputs exec tx state blockId timestamp,
      Admissible tx.signerAccountIds touched output)
    (h : deriveFromOutputs verify (allPublic n) tx.message.programId
      (publicOutputs exec tx state blockId timestamp) = .ok es)
    (hfits : JournalFits state tx.signerAccountIds blockId timestamp es) :
    ∃ diff, executePublicTransaction exec tx state blockId timestamp
        = .ok (tx.signerAccountIds, diff) ∧
      (∀ v ∈ callTree exec tx state blockId timestamp, v.call.2.programId ≠ none → Echoes v) ∧
      Agree state tx.signerAccountIds touched diff es := by
  cases hprepare : preparePublicTransaction tx state with
  | error error =>
    -- no output was obtained, and the circuit needs a first one
    rw [publicOutputs, hprepare] at h
    obtain ⟨_, -, h⟩ := bind_eq_ok.mp h
    cases h
  | ok prepared =>
    obtain ⟨signers, call⟩ := prepared
    rw [publicOutputs_of_prepare hprepare] at hadmissible h
    obtain ⟨rfl, -, rfl⟩ := preparePublicTransaction_ok hprepare
    obtain ⟨hblock, htime⟩ := Circuit.deriveFromOutputs_windows h
    have htimely := timely_iff.mpr ⟨⟨_, hblock, hfits.block⟩, _, htime, hfits.time⟩
    obtain ⟨start, hstart, h⟩ := bind_eq_ok.mp h
    obtain ⟨block, time, rfl, -⟩ := Circuit.startState_ok hstart
    cases houtputs : (chain exec state blockId timestamp).outputs (maxNumberChainedCalls + 1)
        [firstCall state tx] ∅ with
    | nil =>
      rw [houtputs] at h
      cases h
    | cons first rest =>
      rw [houtputs] at h hadmissible htimely
      obtain ⟨⟨es', left⟩, hrun, h⟩ := bind_eq_ok.mp h
      obtain ⟨-, h⟩ := ensure_bind_eq_ok.mp h
      obtain ⟨_, -, h⟩ := bind_eq_ok.mp h
      obtain ⟨_, hclaimed, h⟩ := bind_eq_ok.mp h
      obtain rfl : es' = es := ok.inj h
      have hwork := workAgrees_initialCall (Machine.answer_of_outputs houtputs)
        (initialState block time)
      rw [← houtputs] at hadmissible htimely hrun
      obtain ⟨diff, hdiff, hagree, hecho⟩ := run_backward
        (agree_initialState state tx.signerAccountIds touched block time) hwork hadmissible htimely
        hrun hfits.recorded
      refine ⟨diff, ?_, hecho, hagree⟩
      refine bind_eq_ok.mpr ⟨_, hprepare, ?_⟩
      refine bind_eq_ok.mpr ⟨diff, hdiff, ?_⟩
      exact bind_eq_ok.mpr ⟨(), (checkClaimed_agree hagree).mpr hclaimed, rfl⟩

/-- **The chain accepts a transaction, and every called program echoes its instruction, iff
the circuit accepts the outputs with a journal that fits; and both leave every account the
same.**  Left out is the last check of `from_public_transaction`, that declared accounts
appear.  Proofs verify for the outputs that programs give (`hverify`), no signer is a PDA
that the tree delegates (`hunsigned`), and there is an identity for every account. -/
theorem public_circuit_agree
    (hverify : ∀ call output, execute exec state call = .ok output →
      verify call.1.programId output = true)
    (hunsigned : ∀ output ∈ publicOutputs exec tx state blockId timestamp,
      ∀ call ∈ output.chainedCalls, ∀ seed ∈ call.pdaSeeds,
        forPublicPda output.selfProgramId seed ∉ tx.signerAccountIds)
    (hn : (touchedAccounts (publicOutputs exec tx state blockId timestamp)).card ≤ n) :
    (((∃ signers diff,
          executePublicTransaction exec tx state blockId timestamp = .ok (signers, diff)) ∧
        ∀ v ∈ callTree exec tx state blockId timestamp, v.call.2.programId ≠ none → Echoes v) ↔
      ∃ es, deriveFromOutputs verify (allPublic n) tx.message.programId
          (publicOutputs exec tx state blockId timestamp) = .ok es ∧
        JournalFits state tx.signerAccountIds blockId timestamp es) ∧
    ∀ signers diff es,
      executePublicTransaction exec tx state blockId timestamp = .ok (signers, diff) →
      deriveFromOutputs verify (allPublic n) tx.message.programId
        (publicOutputs exec tx state blockId timestamp) = .ok es →
      JournalFits state tx.signerAccountIds blockId timestamp es →
      ∀ accountId, es.postStates.lookup accountId = diff.lookup accountId := by
  have hadmissible : ∀ output ∈ publicOutputs exec tx state blockId timestamp,
      Admissible tx.signerAccountIds
        (touchedAccounts (publicOutputs exec tx state blockId timestamp)) output :=
    fun output hmem => ⟨hunsigned output hmem, fun pre hpre => mem_toFinset.mpr
      (mem_flatMap.mpr ⟨output, hmem, mem_map_of_mem (f := (·.accountId)) hpre⟩)⟩
  refine ⟨⟨?_, ?_⟩, ?_⟩
  · rintro ⟨⟨signers, diff, hexecute⟩, hecho⟩
    obtain ⟨es, hderive, hfits, -⟩ := agree_of_public hverify hn hadmissible hecho hexecute
    exact ⟨es, hderive, hfits⟩
  · rintro ⟨es, hderive, hfits⟩
    obtain ⟨diff, hexecute, hecho, -⟩ := agree_of_circuit hadmissible hderive hfits
    exact ⟨⟨_, diff, hexecute⟩, hecho⟩
  · intro signers diff es hexecute hderive hfits
    obtain ⟨diff', hexecute', -, hagree⟩ := agree_of_circuit hadmissible hderive hfits
    obtain ⟨-, rfl⟩ := Prod.mk.inj (ok.inj (hexecute.symm.trans hexecute'))
    exact hagree.lookup

end

/-! ### A signer and a delegated account

The first program is called on the account of a signer and hands it, with a PDA, to a
second program, which claims the PDA. -/

namespace Handover

open Sample (pda seed)

def message : PublicTransaction.Message := ⟨.ofWord 1, [Sample.alice], [⟨0⟩], [7]⟩

def messageHash : Bytes 32 :=
  ofHex 0x33d73b484accb99359e7d132a20960227e5dffcb469eaaa1819df45c4352f466

def signature : Signature := .ofHex
  0x7e525f86ee77eda618ffa4d4c8ca13f010060d8fcd89c1d4d2776fd9f035d54a
  0x4b330c2b49c870185640de66b455ff7cfb9b076bc975d86c4596b55a0be3066e

scoped instance sha : Sha256 := .ofTable
  [(publicPdaBytes (.ofWord 1) seed, pda.value),
   (publicAccountBytes Sample.key, Sample.alice.value),
   (message.hashBytes, messageHash)]

scoped instance schnorr : Schnorr := .ofTable [(Sample.key, messageHash, signature)]

/-- The second program reports the instruction it got, or none. -/
def exec (mumbles : Bool) : Executor := fun program caller preStates instruction =>
  if program.id = .ofWord 1 then
    .ok { ProgramOutput.new program.id caller instruction preStates
            (preStates.map fun pre => .new pre.account) with
          chainedCalls := [⟨.ofWord 2, preStates ++ [⟨.default, true, pda⟩], [9], [seed]⟩] }
  else
    .ok (ProgramOutput.new program.id caller (if mumbles then [] else instruction) preStates
      (preStates.map fun pre =>
        if pre.accountId = pda then .newClaimed pre.account .authorized else .new pre.account))

def state : V03State := .ofAccounts [deployedAt (.ofWord 1), deployedAt (.ofWord 2)]

def tx : PublicTransaction := ⟨message, ⟨[(signature, Sample.key)]⟩⟩

def verify : ProgramId → ProgramOutput → Bool := fun _ _ => true

end Handover

section

open Handover

/-- The chain accepts a called program that reports another instruction, the circuit does
not. -/
theorem mumbled_instruction :
    (∃ signers diff, executePublicTransaction (exec true) tx state 0 0
        = .ok (signers, diff)) ∧
      ¬∃ es, deriveFromOutputs verify (allPublic 2) (.ofWord 1)
        (publicOutputs (exec true) tx state 0 0) = .ok es := by
  constructor
  · obtain ⟨⟨signers, diff⟩, h⟩ : ∃ result, executePublicTransaction (exec true)
        tx state 0 0 = .ok result := by decide +kernel
    exact ⟨signers, diff, h⟩
  · decide +kernel

theorem handover_agrees :
    ∃ signers diff es,
      executePublicTransaction (exec false) tx state 0 0 = .ok (signers, diff) ∧
      deriveFromOutputs verify (allPublic 2) (.ofWord 1)
        (publicOutputs (exec false) tx state 0 0) = .ok es ∧
      JournalFits state [Sample.alice] 0 0 es ∧
      ∀ accountId, es.postStates.lookup accountId = diff.lookup accountId := by
  obtain ⟨⟨signers, diff⟩, hexecute⟩ : ∃ result, executePublicTransaction (exec false)
      tx state 0 0 = .ok result := by decide +kernel
  have hecho : ∀ v ∈ callTree (exec false) tx state 0 0,
      v.call.2.programId ≠ none → v.result.instructionData = v.call.1.instructionData := by
    decide +kernel
  have hverify : ∀ call output,
      execute (exec false) state call = .ok output →
      verify call.1.programId output = true := fun _ _ _ => rfl
  have hunsigned : ∀ output ∈ publicOutputs (exec false) tx state 0 0,
      ∀ call ∈ output.chainedCalls, ∀ seed ∈ call.pdaSeeds,
        forPublicPda output.selfProgramId seed ∉ tx.signerAccountIds := by
    decide +kernel
  obtain ⟨hiff, hsame⟩ := public_circuit_agree (n := 2) hverify hunsigned (by decide +kernel)
  obtain ⟨es, hderive, hfits⟩ := hiff.mp ⟨⟨signers, diff, hexecute⟩, hecho⟩
  exact ⟨signers, diff, es, hexecute, hderive, hfits, hsame _ _ _ hexecute hderive hfits⟩

end

end Agreement

end Lssa
