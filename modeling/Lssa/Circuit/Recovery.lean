/-
Owners get their private accounts.

The journal carries every private account of the transaction to its owner: a ciphertext, and
the encapsulation of the secret that opens it.  The nullifier of an action goes into the key,
so the action an owner looks at must be the one that carries their nullifier; commitments are
sorted apart from it, and the owner finds theirs by computing it.

* `Recoverable` — an action gives the owner the account and its place in the commitments;
* `recipients_recover` — every private account of an accepted input is recoverable.
-/
import Lssa.Circuit.Binding

open Outcome

namespace Lssa

namespace Circuit

variable [Sha256] [MlKem] [ChaCha20] [Decapsulation] {verify : ProgramId → ProgramOutput → Bool}
  {input : PrivacyPreservingCircuitInput} {output : PrivacyPreservingCircuitOutput}

/-- Whoever holds a seed of the viewing key gets the secret out of the action.  With the
secret and the action's nullifier, the ciphertext opens to a kind that derives the account's
id and to an account whose commitment is in the journal. -/
def Recoverable (output : PrivacyPreservingCircuitOutput) (note : Note) (action : PrivateAction) :
    Prop :=
  ∃ sharedSecret,
    MlKem.encapsulateDeterministic note.witness.vpk
        (ephemeralSecretKey note.pre.accountId note.witness.randomSeed (noteNonce note))
      = some (sharedSecret, action.encryptedPostState.epk.value) ∧
    (∀ d z, Decapsulation.fromSeed d z = note.witness.vpk →
      Decapsulation.decapsulate action.encryptedPostState.epk.value d z = some sharedSecret) ∧
    ∃ kind account,
      decrypt action.encryptedPostState.ciphertext ⟨sharedSecret⟩ action.nullifier
          = some (kind, account) ∧
        forPrivateAccount note.witness.nullifier.npk note.witness.vpk kind = note.pre.accountId ∧
        Commitment.new note.pre.accountId account ∈ output.privateActions.map (·.commitment)

/-- The action that carries an account gives it to the owner. -/
theorem Carries.recoverable {note : Note} {kind : PrivateAccountKind} {action : PrivateAction}
    (hcarries : Carries note kind action) (hadds : ChaCha20.AddsKeystream)
    (hcorrect : Decapsulation.Correct)
    (hderives : forPrivateAccount note.witness.nullifier.npk note.witness.vpk kind
      = note.pre.accountId)
    (hcommitment : noteCommitment note ∈ output.privateActions.map (·.commitment)) :
    Recoverable output note action := by
  obtain ⟨sharedSecret, epk, hencapsulate, hencrypted⟩ := hcarries.encrypted
  have hnullifier : action.nullifier = (noteNullifier note).1 :=
    congrArg Prod.fst hcarries.nullifier
  refine ⟨sharedSecret, by rw [hencrypted, hencapsulate], fun d z hseed => ?_,
    kind, noteAccount note, ?_, hderives, hcommitment⟩
  · rw [hencrypted]
    rw [← hseed] at hencapsulate
    exact hcorrect d z _ sharedSecret epk hencapsulate
  · rw [hencrypted, hnullifier]
    exact decrypt_encrypt hadds _ _ _ _

/-- **Recipients can recover every private output.**  Let ChaCha20 add a keystream, and let
decapsulation return the secret that was encapsulated.  Then in the journal of an accepted
input an action carries the nullifier of every private account, regular or a private PDA, and
gives the account to its owner.  It is the only action with that nullifier if nullifiers are
distinct, as the chain demands. -/
theorem recipients_recover (hadds : ChaCha20.AddsKeystream) (hcorrect : Decapsulation.Correct)
    (h : main verify input = .ok output) {position : ℕ} {witness : PrivateWitness}
    (hidentity : input.accountIdentities[position]? = some (.privateAccount witness)) :
    ∃ note, (position, note) ∈ notesOf verify input ∧ note.witness = witness ∧
      (∃ action ∈ output.privateActions, (action.nullifier, action.root) = noteNullifier note ∧
        Recoverable output note action) ∧
      ((output.privateActions.map (·.nullifier)).Nodup → ∀ action ∈ output.privateActions,
        action.nullifier = (noteNullifier note).1 → Recoverable output note action) := by
  obtain ⟨state, states, hderive, houtput, journal, hnotes⟩ := main_ok h
  obtain ⟨pre, post, hnote, -⟩ := exists_note journal.length_eq journal.rebuilt hidentity
  obtain ⟨kind, hkind, action, haction, hcarries⟩ :=
    computeCircuitOutput_carries houtput journal.rebuilt hnote
  obtain ⟨kind', hkind', hderives⟩ := journal.derived hderive hnote
  obtain rfl := some.inj (hkind.symm.trans hkind')
  have hcommitment : noteCommitment ⟨witness, pre, post⟩
      ∈ output.privateActions.map (·.commitment) := by
    refine journal.commitments.mem_iff.mpr (mem_append_left _ ?_)
    exact mem_map.mpr ⟨_, hnote, rfl⟩
  have hrecoverable := hcarries.recoverable hadds hcorrect hderives hcommitment
  refine ⟨⟨witness, pre, post⟩, by rw [hnotes]; exact hnote, rfl,
    ⟨action, haction, hcarries.nullifier, hrecoverable⟩, ?_⟩
  intro hnodup other hother hsame
  have hcarried : action.nullifier = other.nullifier :=
    (congrArg Prod.fst hcarries.nullifier).trans hsame.symm
  obtain rfl := List.inj_on_of_nodup_map hnodup haction hother hcarried
  exact hrecoverable

end Circuit

/-! The owner of the locker's account has the seed of its viewing key, and reads what the
program wrote to it. -/

namespace Locker

/-- The seed that makes the viewing key; its second half does not enter the key. -/
def viewingSeed : Bytes 32 := .replicate 32 1

scoped instance decapsulation : Decapsulation where
  fromSeed d _ := if d = viewingSeed then vpk else ⟨.replicate 1184 0⟩
  decapsulate epk₀ d _ :=
    if d ≠ viewingSeed then none
    else if epk₀ = epk then some sharedSecret
    else if epk₀ = epk' then some sharedSecret'
    else none

end Locker

section

open Locker

open Circuit

theorem locker_decapsulates : Decapsulation.Correct := by
  have hdifferent : (⟨.replicate 1184 0⟩ : ViewingPublicKey) ≠ vpk := by
    decide +kernel
  have hepk : epk' ≠ Locker.epk := by decide +kernel
  intro d z esk sharedSecret epk h
  simp only [Decapsulation.fromSeed, MlKem.encapsulateDeterministic] at h
  simp only [Decapsulation.decapsulate]
  -- the key was encapsulated to twice
  split_ifs at h <;> grind

/-- The owner recovers the account with the three bytes written to it. -/
theorem locker_recovered :
    ∃ output note, main verify writeInput = .ok output ∧
      (0, note) ∈ notesOf verify writeInput ∧
      note.pre.accountId = account ∧ note.post.data.bytes = [1, 2, 3] ∧
      ∃ action ∈ output.privateActions, action.nullifier = ⟨nullifier'⟩ ∧
        Recoverable output note action := by
  obtain ⟨output, houtput⟩ : ∃ output, main verify writeInput = .ok output := by
    decide +kernel
  obtain ⟨note, hnote, -, ⟨action, haction, hnullifier, hrecoverable⟩, -⟩ :=
    recipients_recover ⟨keystreamOf, fun _ _ => rfl⟩ locker_decapsulates houtput
      (show writeInput.accountIdentities[0]? = some (.privateAccount _) from rfl)
  have hread : ∀ entry ∈ notesOf verify writeInput,
      entry.2.pre.accountId = account ∧ entry.2.post.data.bytes = [1, 2, 3] ∧
        (noteNullifier entry.2).1 = ⟨nullifier'⟩ := by decide +kernel
  obtain ⟨hid, hdata, hvalue⟩ := hread _ hnote
  exact ⟨output, note, houtput, hnote, hid, hdata, action, haction,
    (congrArg Prod.fst hnullifier).trans hvalue, hrecoverable⟩

end

end Lssa
