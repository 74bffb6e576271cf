/-
What the journal gives away, and what it holds.

The validity windows of a journal are those of all calls of the transaction together: the chain
checks the journal's, and with them every program's.  The private actions are sorted, so that the
order of the accounts in the transaction does not show, and notes are padded to one length.

* `SharedBy` — a window that stands for some windows;
* `windows_compose` — the journal's windows are shared by the program outputs;
* `obfuscateOutputOrdering_unique` — with distinct nullifiers, every way to sort gives the same;
* `ordering_and_kind_hidden` — what the private actions do not depend on.
-/
import Lssa.Circuit.Binding
import Lssa.PrivacyPreservingTransaction

open Outcome

namespace Lssa

namespace Circuit

/-! ### Validity windows -/

/-- The window contains what all the windows contain.  That may be nothing, if none of them has a
start and one of them ends at 0. -/
structure SharedBy (windows : List (ValidityWindow U64)) (shared : ValidityWindow U64) : Prop where
  valid_iff : ∀ value, shared.isValidFor value = true ↔
    ∀ window ∈ windows, window.isValidFor value = true
  nonempty_iff : (∃ value, ∀ window ∈ windows, window.isValidFor value = true) ↔
    (∃ window ∈ windows, window.fromBound ≠ none) ∨ ∀ window ∈ windows, window.toBound ≠ some 0

theorem SharedBy.of_intersect {windows : List (ValidityWindow U64)} {shared : ValidityWindow U64}
    (h : ValidityWindow.intersect windows = some shared) : SharedBy windows shared := by
  refine ⟨fun value => ?_, ValidityWindow.intersect_nonempty h⟩
  rw [← ValidityWindow.intersect_isValidFor, h]
  simp

/-! ### Sorting -/

section

variable {α : Type} (key : α → List UInt8) {l sorted : List α}

theorem pairwise_mergeSort_key :
    (l.mergeSort fun a b => decide (key a ≤ key b)).Pairwise fun a b => key a ≤ key b := by
  refine (List.pairwise_mergeSort (fun a b c => ?_) (fun a b => ?_) l).imp of_decide_eq_true
  · simpa using List.le_trans
  · simpa using List.le_total (key a) (key b)

/-- If keys are distinct, there is one way to sort. -/
theorem eq_mergeSort_key (hkey : ∀ a ∈ l, ∀ b ∈ l, key a = key b → a = b) (hperm : sorted.Perm l)
    (hsorted : sorted.Pairwise fun a b => key a ≤ key b) :
    sorted = l.mergeSort fun a b => decide (key a ≤ key b) := by
  refine List.Perm.eq_of_pairwise (fun a b ha hb hab hba => ?_) hsorted
    (pairwise_mergeSort_key key) (hperm.trans (List.mergeSort_perm _ _).symm)
  exact hkey a (hperm.subset ha) b (List.mem_mergeSort.mp hb) (List.le_antisymm hab hba)

end

section

variable {actions : List PrivateAction}

/-- The source's sorts are not stable.  With distinct nullifiers that makes no difference. -/
theorem obfuscateOutputOrdering_unique (hnodup : (actions.map (·.nullifier)).Nodup)
    {sorted : List PrivateAction} {commitments : List Commitment} (hperm : sorted.Perm actions)
    (hsorted : sorted.Pairwise fun a b => a.nullifier.value.toList ≤ b.nullifier.value.toList)
    (hperm' : commitments.Perm (actions.map (·.commitment)))
    (hsorted' : commitments.Pairwise fun a b => a.value.toList ≤ b.value.toList) :
    ((sorted.zip commitments).map fun (action, commitment) => { action with commitment })
      = obfuscateOutputOrdering actions := by
  have hactions : sorted = byNullifier actions := by
    refine eq_mergeSort_key (·.nullifier.value.toList) (fun a ha b hb hsame => ?_) hperm hsorted
    refine List.inj_on_of_nodup_map hnodup ha hb (congrArg Nullifier.mk ?_)
    exact List.Vector.toList_injective hsame
  have hcommitments : commitments = byValue (actions.map (·.commitment)) := by
    refine eq_mergeSort_key (·.value.toList) (fun a _ b _ hsame => ?_) hperm' hsorted'
    exact congrArg Commitment.mk (List.Vector.toList_injective hsame)
  rw [hactions, hcommitments]
  rfl

theorem obfuscateOutputOrdering_congr {actions' : List PrivateAction}
    (hnodup : (actions.map (·.nullifier)).Nodup) (hperm : actions'.Perm actions) :
    obfuscateOutputOrdering actions' = obfuscateOutputOrdering actions :=
  obfuscateOutputOrdering_unique hnodup ((List.mergeSort_perm _ _).trans hperm)
    (pairwise_mergeSort_key _) ((List.mergeSort_perm _ _).trans (hperm.map _))
    (pairwise_mergeSort_key _)

end

/-! ### What is in the journal -/

variable [Sha256] [MlKem] [ChaCha20] {verify : ProgramId → ProgramOutput → Bool}
  {input : PrivacyPreservingCircuitInput} {output : PrivacyPreservingCircuitOutput}

/-- **Validity windows compose.**  The windows in the journal of an accepted input are shared by
its program outputs.  So the check of a message with that journal passes exactly for the blocks and
times at which every program output is valid. -/
theorem windows_compose (h : main verify input = .ok output) :
    SharedBy (input.programOutputs.map (·.blockValidityWindow)) output.blockValidityWindow ∧
      SharedBy (input.programOutputs.map (·.timestampValidityWindow))
        output.timestampValidityWindow ∧
      ∀ state signerAccountIds message,
        journalOf state signerAccountIds message = output →
          ∀ blockId timestamp,
            (message.blockValidityWindow.isValidFor blockId &&
                message.timestampValidityWindow.isValidFor timestamp) = true ↔
              ∀ programOutput ∈ input.programOutputs,
                programOutput.blockValidityWindow.isValidFor blockId = true ∧
                  programOutput.timestampValidityWindow.isValidFor timestamp = true := by
  obtain ⟨executionState, hderive, houtput⟩ := bind_eq_ok.mp h
  obtain ⟨hblock, htime⟩ := deriveFromOutputs_windows hderive
  obtain ⟨-, houtput⟩ := ensure_bind_eq_ok.mp houtput
  obtain ⟨states, -, houtput⟩ := bind_eq_ok.mp houtput
  obtain ⟨actions, -, houtput⟩ := bind_eq_ok.mp houtput
  obtain rfl := ok.inj houtput
  have hblocks := SharedBy.of_intersect hblock
  have htimes := SharedBy.of_intersect htime
  refine ⟨hblocks, htimes, ?_⟩
  intro state signerAccountIds message hjournal blockId timestamp
  have hmessage := congrArg PrivacyPreservingCircuitOutput.blockValidityWindow hjournal
  have hmessage' := congrArg PrivacyPreservingCircuitOutput.timestampValidityWindow hjournal
  rw [Bool.and_eq_true, show message.blockValidityWindow = _ from hmessage,
    show message.timestampValidityWindow = _ from hmessage', hblocks.valid_iff, htimes.valid_iff,
    List.forall_mem_map, List.forall_mem_map]
  exact forall₂_and.symm

omit [MlKem] in
theorem length_encrypt (hadds : ChaCha20.AddsKeystream) (account : Account)
    (kind : PrivateAccountKind) (sharedSecret : SharedSecretKey) (nullifier : Nullifier) :
    (encrypt account kind sharedSecret nullifier).value.length
      = headerLen + 68 + account.data.bytes.length := by
  obtain ⟨keystream, hkeystream⟩ := hadds
  rw [encrypt, hkeystream, List.length_mapIdx, length_append, kind.toHeaderBytes_length,
    Account.toBytes]
  simp
  omega

/-- **The private actions hide order and kind.**  With distinct nullifiers, the journal is the same
for every order of the actions.  It has the same commitments and the same notes, each with its
nullifier and root, and both are sorted.  The length of a note depends on the length of the
account's data only. -/
theorem ordering_and_kind_hidden (hadds : ChaCha20.AddsKeystream) {actions : List PrivateAction}
    (hnodup : (actions.map (·.nullifier)).Nodup) :
    (∀ actions', actions'.Perm actions →
        obfuscateOutputOrdering actions' = obfuscateOutputOrdering actions) ∧
      ((obfuscateOutputOrdering actions).map PrivateAction.carried).Perm
        (actions.map PrivateAction.carried) ∧
      ((obfuscateOutputOrdering actions).map (·.commitment)).Perm (actions.map (·.commitment)) ∧
      ((obfuscateOutputOrdering actions).map (·.nullifier.value.toList)).Pairwise (· ≤ ·) ∧
      ((obfuscateOutputOrdering actions).map (·.commitment.value.toList)).Pairwise (· ≤ ·) ∧
      ∀ {note note' kind kind' action action'},
        emitPrivateOutput note kind = .ok action → emitPrivateOutput note' kind' = .ok action' →
          note.post.data.bytes.length = note'.post.data.bytes.length →
            action.encryptedPostState.ciphertext.value.length
              = action'.encryptedPostState.ciphertext.value.length := by
  obtain ⟨hcarried, hcommitments⟩ := obfuscateOutputOrdering_perm actions
  refine ⟨fun actions' => obfuscateOutputOrdering_congr hnodup, hcarried, hcommitments, ?_, ?_, ?_⟩
  · have hsame := congrArg (List.map fun carried => carried.1.value.toList)
      (obfuscateOutputOrdering_carried actions)
    rw [map_map, map_map] at hsame
    exact hsame ▸ pairwise_map.mpr (pairwise_mergeSort_key _)
  · have hsame := congrArg (List.map fun commitment => commitment.value.toList)
      (obfuscateOutputOrdering_commitments actions)
    rw [map_map] at hsame
    exact hsame ▸ pairwise_map.mpr (pairwise_mergeSort_key _)
  · intro note note' kind kind' action action' h h' hlength
    obtain ⟨⟨-, _, _, -, hnote⟩, -⟩ := emitPrivateOutput_ok h
    obtain ⟨⟨-, _, _, -, hnote'⟩, -⟩ := emitPrivateOutput_ok h'
    rw [hnote, hnote', length_encrypt hadds, length_encrypt hadds]
    exact congrArg (headerLen + 68 + ·) hlength

end Circuit

/-! Programs that touch nothing: one ends its window before the first block, and one calls two
others, each with windows of its own. -/

namespace Locker

def expired : ProgramOutput :=
  { ProgramOutput.new locker none [] [] [] with blockValidityWindow := ⟨none, some 0⟩ }

def bounded : List ProgramOutput :=
  [ { ProgramOutput.new locker none [] [] [] with
      chainedCalls := replicate 2 ⟨locker, [], [], []⟩
      blockValidityWindow := ⟨some 5, some 30⟩ },
    { ProgramOutput.new locker (some locker) [] [] [] with
      blockValidityWindow := ⟨some 10, none⟩
      timestampValidityWindow := ⟨none, some 7⟩ },
    { ProgramOutput.new locker (some locker) [] [] [] with
      blockValidityWindow := ⟨none, some 20⟩
      timestampValidityWindow := ⟨some 3, some 9⟩ } ]

end Locker

section

open Locker

open Circuit

/-- No block is in the window, and the circuit accepts. -/
theorem expired_accepted :
    ∃ output, main (fun programId output => decide (programId = locker ∧
          output = expired)) ⟨[expired], [], locker, []⟩ = .ok output ∧
      ∀ blockId, expired.blockValidityWindow.isValidFor blockId = false := by
  refine ⟨⟨[], [], ⟨none, some 0⟩, .unbounded⟩, by decide +kernel, fun blockId => ?_⟩
  simp [ValidityWindow.isValidFor, expired]

/-- The three programs run together from block 10 to block 19, at the times 3 to 6. -/
theorem locker_windows :
    ∃ output, main (fun _ output => decide (output ∈ bounded)) ⟨bounded, [], locker, []⟩
        = .ok output ∧
      (∀ blockId, (∀ window ∈ bounded.map (·.blockValidityWindow),
        window.isValidFor blockId = true) ↔ 10 ≤ blockId ∧ blockId < 20) ∧
      ∀ timestamp, (∀ window ∈ bounded.map (·.timestampValidityWindow),
        window.isValidFor timestamp = true) ↔ 3 ≤ timestamp ∧ timestamp < 7 := by
  obtain ⟨output, h, hblock, htime⟩ : ∃ output,
      main (fun _ output => decide (output ∈ bounded)) ⟨bounded, [], locker, []⟩ = .ok output ∧
        output.blockValidityWindow = ⟨some 10, some 20⟩ ∧
        output.timestampValidityWindow = ⟨some 3, some 7⟩ := by
    decide +kernel
  obtain ⟨hblocks, htimes, -⟩ := windows_compose h
  refine ⟨output, h, fun blockId => ?_, fun timestamp => ?_⟩
  · rw [← hblocks.valid_iff, hblock]
    simp [ValidityWindow.isValidFor]
  · rw [← htimes.valid_iff, htime]
    simp [ValidityWindow.isValidFor]

/-- The actions of the claim and of the write, in either order. -/
theorem locker_actions_hidden :
    ∃ claimed written, main verify claimInput = .ok claimed ∧
      main verify writeInput = .ok written ∧
        obfuscateOutputOrdering (written.privateActions ++ claimed.privateActions)
          = obfuscateOutputOrdering (claimed.privateActions ++ written.privateActions) := by
  obtain ⟨claimed, hclaimed, written, hwritten, hnodup⟩ :
      ∃ claimed, main verify claimInput = .ok claimed ∧
        ∃ written, main verify writeInput = .ok written ∧
          ((claimed.privateActions ++ written.privateActions).map (·.nullifier)).Nodup := by
    decide +kernel
  exact ⟨claimed, written, hclaimed, hwritten,
    (ordering_and_kind_hidden ⟨keystreamOf, fun _ _ => rfl⟩ hnodup).1 _ List.perm_append_comm⟩

end

end Lssa
