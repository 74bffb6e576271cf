/-
No double spend of private state.

Behind every accepted privacy-preserving transaction are the private accounts of the input
that its prover gave to the circuit.  `SpendingHistory` is a history in which every
transaction comes with such accounts.  Over a whole history, whatever inputs the provers
choose, no commitment is consumed twice and no account is created twice
(`no_double_spend`).

What makes the first half work is that a prover has no choice of nullifier: the commitment
forces the id, the id the nullifier public key, and that the secret key
(`noteNullifier_eq_of_consumed_eq`).
-/
import Lssa.Circuit.Binding
import Lssa.Guest
import Lssa.History

open Outcome Runs

namespace Lssa

open Circuit

/-! ### Notes -/

section

variable [Sha256]

/-- The commitment that an account consumes, if it is updated. -/
def consumed (note : Note) : Option Commitment :=
  match note.witness.nullifier with
  | .init _ _ => none
  | .update _ _ _ => some (Commitment.new note.pre.accountId note.pre.account)

/-- The id of an account that is created. -/
def created (note : Note) : Option AccountId :=
  match note.witness.nullifier with
  | .init _ _ => some note.pre.accountId
  | .update _ _ _ => none

/-- The id of the account is derived from the keys in its witness. -/
def Derived (note : Note) : Prop :=
  ∃ kind, forPrivateAccount note.witness.nullifier.npk note.witness.vpk kind = note.pre.accountId

/-- The digests that identify an account have one preimage each. -/
structure CollisionFree (note : Note) : Prop where
  commitment : Sha256.Unambiguous (Commitment.new note.pre.accountId note.pre.account).value
  accountId : Sha256.Unambiguous note.pre.accountId.value
  npk : Sha256.Unambiguous note.witness.nullifier.npk.value

/-- **The nullifier is forced by the commitment.** -/
theorem noteNullifier_eq_of_consumed_eq {note note' : Note} {commitment : Commitment}
    (hderived : Derived note) (hderived' : Derived note') (hsafe : CollisionFree note)
    (h : consumed note = some commitment) (h' : consumed note' = some commitment) :
    (noteNullifier note).1 = (noteNullifier note').1 := by
  obtain ⟨⟨vpk, seed, identifier, witnessKind, nullifier⟩, pre, post⟩ := note
  obtain ⟨⟨vpk', seed', identifier', witnessKind', nullifier'⟩, pre', post'⟩ := note'
  cases nullifier with
  | init npk root => exact absurd h (by simp [consumed])
  | update viewTag nsk proof =>
    cases nullifier' with
    | init npk root => exact absurd h' (by simp [consumed])
    | update viewTag' nsk' proof' =>
      have hcommitment : Commitment.new pre.accountId pre.account = commitment := some.inj h
      have hcommitment' : Commitment.new pre'.accountId pre'.account = commitment :=
        some.inj h'
      -- the commitment forces the id, the id the public key, and that the secret key
      have hid : pre.accountId = pre'.accountId :=
        Commitment.accountId_of_new_eq hsafe.commitment (hcommitment'.trans hcommitment.symm)
      obtain ⟨kind, hkind⟩ := hderived
      obtain ⟨kind', hkind'⟩ := hderived'
      have hsame := hkind'.trans (hid.symm.trans hkind.symm)
      have hnpk := npk_of_forPrivateAccount_eq (hkind ▸ hsafe.accountId) hsame
      have hbytes := hsafe.npk _ _ rfl (congrArg NullifierPublicKey.value hnpk.symm)
      have hnsk : nsk = nsk' := List.Vector.eq _ _ (List.append_cancel_left hbytes)
      show Nullifier.forAccountUpdate _ _ = Nullifier.forAccountUpdate _ _
      rw [hcommitment, hcommitment', hnsk]

theorem noteNullifier_eq_of_created_eq {note note' : Note} {accountId : AccountId}
    (h : created note = some accountId) (h' : created note' = some accountId) :
    (noteNullifier note).1 = (noteNullifier note').1 := by
  obtain ⟨⟨vpk, seed, identifier, witnessKind, nullifier⟩, pre, post⟩ := note
  obtain ⟨⟨vpk', seed', identifier', witnessKind', nullifier'⟩, pre', post'⟩ := note'
  cases nullifier with
  | update viewTag nsk proof => exact absurd h (by simp [created])
  | init npk root =>
    cases nullifier' with
    | update viewTag nsk proof => exact absurd h' (by simp [created])
    | init npk' root' =>
      have hid : pre.accountId = accountId := some.inj h
      have hid' : pre'.accountId = accountId := some.inj h'
      show Nullifier.forAccountInitialization _ = Nullifier.forAccountInitialization _
      rw [hid, hid']

end

namespace LeeTransaction

variable [Sha256] [Schnorr] [Builtins] [Receipts] [ImageId] [MlKem] [ChaCha20]

/-! ### Histories with their private accounts -/

/-- The private accounts of an input that the circuit takes to the journal of the
transaction. -/
def Behind (verify : ProgramId → ProgramOutput → Bool) (state : V03State) (tx : LeeTransaction)
    (notes : List Note) : Prop :=
  match tx with
  | .privacyPreserving ptx => ∃ input,
    Circuit.main verify input = .ok (journalOf state ptx.signerAccountIds ptx.message) ∧
      notes = (notesOf verify input).map Prod.snd
  | _ => notes = []

/-- A transaction is accepted, with these private accounts. -/
def Spends (exec : Executor) (verify : ProgramId → ProgramOutput → Bool)
    (label : LeeTransaction × List Note) (state state' : V03State) : Prop :=
  Transition exec label.1 state state' ∧ Behind verify state label.1 label.2

abbrev SpendingHistory (exec : Executor) (verify : ProgramId → ProgramOutput → Bool) :
    V03State → List (LeeTransaction × List Note) → V03State → Prop :=
  Run (Spends exec verify)

variable {exec : Executor} {verify : ProgramId → ProgramOutput → Bool} {state state' : V03State}

/-- If receipts are sound, every history has its private accounts. -/
theorem History.exists_spending (hsound : ReceiptsSound verify) {txs : List LeeTransaction}
    (h : History exec state txs state') :
    ∃ steps, steps.map Prod.fst = txs ∧ SpendingHistory exec verify state steps state' := by
  induction h with
  | nil state => exact ⟨[], rfl, .nil state⟩
  | cons hstep _ ih =>
    rename_i tx txs before after final _
    obtain ⟨steps, hmap, hrun⟩ := ih
    have hbehind : ∃ notes, Behind verify before tx notes := by
      cases tx with
      | publicTx ptx => exact ⟨[], rfl⟩
      | programDeployment dtx => exact ⟨[], rfl⟩
      | privacyPreserving ptx =>
        obtain ⟨diff, input, -, -, hinput⟩ := hstep.privately hsound
        exact ⟨_, input, hinput, rfl⟩
    obtain ⟨notes, hnotes⟩ := hbehind
    exact ⟨(tx, notes) :: steps, by rw [map_cons, hmap], .cons ⟨hstep, hnotes⟩ hrun⟩

/-- **What one transaction does to its private accounts.**  Each is derived from its keys,
their nullifiers are distinct and new, and are known from then on. -/
theorem Spends.notes {label : LeeTransaction × List Note}
    (h : Spends exec verify label state state') :
    (∀ note ∈ label.2, Derived note) ∧
      (label.2.map fun note => (noteNullifier note).1).Nodup ∧
      ∀ note ∈ label.2, (noteNullifier note).1 ∉ state.nullifierSet ∧
        (noteNullifier note).1 ∈ state'.nullifierSet := by
  obtain ⟨tx, notes⟩ := label
  obtain ⟨hstep, hbehind⟩ := h
  cases tx with
  | publicTx ptx | programDeployment dtx =>
    obtain rfl : notes = [] := hbehind
    exact ⟨by simp, by simp, by simp⟩
  | privacyPreserving ptx =>
    obtain ⟨input, hinput, rfl⟩ := hbehind
    obtain ⟨final, states, hderive, -, journal, hnotes⟩ := main_ok hinput
    obtain ⟨blockId, timestamp, diff, hdiff, happly⟩ := hstep.diff
    have haccepted := fromPrivacyPreservingTransaction_ok hdiff
    have hperm : (ptx.message.nullifiers.map Prod.fst).Perm
        (((notesOf verify input).map fun entry => (noteNullifier entry.2).1) ++
          input.dummyInputs.map fun dummy => (dummyAction dummy).nullifier) := by
      have hmap := journal.nullifiers.map Prod.fst
      rw [← hnotes, map_append] at hmap
      simpa only [PrivacyPreservingTransaction.Message.nullifiers, journalOf, map_map,
        Function.comp_def] using hmap
    have hmem : ∀ note ∈ (notesOf verify input).map Prod.snd,
        ∃ entry ∈ ptx.message.nullifiers, entry.1 = (noteNullifier note).1 := by
      intro note hnote
      obtain ⟨entry, hentry, rfl⟩ := mem_map.mp hnote
      have hin := hperm.mem_iff.mpr (mem_append_left _ (mem_map_of_mem hentry))
      exact mem_map.mp hin
    refine ⟨?_, ?_, ?_⟩
    · intro note hnote
      obtain ⟨entry, hentry, rfl⟩ := mem_map.mp hnote
      obtain ⟨kind, -, hkind⟩ := journal.derived hderive (hnotes ▸ hentry)
      exact ⟨kind, hkind⟩
    · have hnodup := (List.nodup_append.mp (hperm.nodup_iff.mp haccepted.nullifiersNodup)).1
      rw [map_map]
      exact hnodup
    · intro note hnote
      obtain ⟨entry, hentry, heq⟩ := hmem note hnote
      rw [← heq]
      refine ⟨haccepted.nullifiersNew entry hentry, ?_⟩
      rw [(applyStateDiff_private happly).2, haccepted.diff_eq]
      exact Finset.mem_union_right _ (mem_toFinset.mpr (mem_map_of_mem hentry))

/-! ### Once -/

/-- What is read off notes by `f` is read off once over a history, if it forces the
nullifier. -/
theorem SpendingHistory.nodup {α : Type} {f : Note → Option α} {P : Note → Prop}
    {steps : List (LeeTransaction × List Note)}
    (h : SpendingHistory exec verify state steps state')
    (hsafe : ∀ step ∈ steps, ∀ note ∈ step.2, (f note).isSome = true → P note)
    (hforced : ∀ note note' x, Derived note → Derived note' → P note → P note' →
      f note = some x → f note' = some x → (noteNullifier note).1 = (noteNullifier note').1) :
    (steps.flatMap fun step => step.2.filterMap f).Nodup := by
  have hread : ∀ step ∈ steps, ∀ x ∈ step.2.filterMap f,
      ∃ note ∈ step.2, f note = some x ∧ P note := by
    intro step hstep x hx
    obtain ⟨note, hnote, hf⟩ := mem_filterMap.mp hx
    exact ⟨note, hnote, hf, hsafe step hstep note hnote (by rw [hf]; rfl)⟩
  -- used: the nullifier of some account that reads so is known
  refine (h.nodup_flatMap (U := fun s x => ∃ note, Derived note ∧ P note ∧ f note = some x ∧
    (noteNullifier note).1 ∈ s.nullifierSet) ?_ ?_ ?_).1
  · intro step hstep a b hspends
    obtain ⟨hderived, hnodup, hset⟩ := hspends.notes
    constructor
    · refine List.pairwise_filterMap.mpr ?_
      refine (pairwise_map.mp hnodup).imp_of_mem ?_
      rintro note note' hnote hnote' hne x hx x' hx' rfl
      exact hne (hforced note note' x (hderived _ hnote) (hderived _ hnote')
        (hsafe _ hstep _ hnote (by rw [hx]; rfl)) (hsafe _ hstep _ hnote' (by rw [hx']; rfl))
        hx hx')
    · rintro x hx ⟨note', hderived', hP', hf', hused⟩
      obtain ⟨note, hnote, hf, hP⟩ := hread step hstep x hx
      refine (hset note hnote).1 ?_
      rw [hforced note note' x (hderived _ hnote) hderived' hP hP' hf hf']
      exact hused
  · intro step hstep a b hspends x hx
    obtain ⟨hderived, -, hset⟩ := hspends.notes
    obtain ⟨note, hnote, hf, hP⟩ := hread step hstep x hx
    exact ⟨note, hderived note hnote, hP, hf, (hset note hnote).2⟩
  · rintro step - a b hspends x ⟨note, hderived, hP, hf, hused⟩
    exact ⟨note, hderived, hP, hf, hspends.1.nullifiers hused⟩

/-- **No double spend.**  Let receipts be sound.  Every history has private accounts behind
it; and whatever they are, over the whole history no commitment is consumed twice, if there
are no collisions among the digests of the accounts that are updated, and no account is
created twice. -/
theorem no_double_spend (hsound : ReceiptsSound verify) {txs : List LeeTransaction}
    (h : History exec state txs state') :
    (∃ steps, steps.map Prod.fst = txs ∧ SpendingHistory exec verify state steps state') ∧
      ∀ steps, steps.map Prod.fst = txs → SpendingHistory exec verify state steps state' →
        ((∀ step ∈ steps, ∀ note ∈ step.2, (consumed note).isSome = true → CollisionFree note) →
          (steps.flatMap fun step => step.2.filterMap consumed).Nodup) ∧
        (steps.flatMap fun step => step.2.filterMap created).Nodup := by
  refine ⟨h.exists_spending hsound, fun steps _ hsteps => ⟨fun hsafe => ?_, ?_⟩⟩
  · refine hsteps.nodup hsafe ?_
    intro note note' c hderived hderived' hfree _ hc hc'
    exact noteNullifier_eq_of_consumed_eq hderived hderived' hfree hc hc'
  · refine hsteps.nodup (P := fun _ => True) (fun _ _ _ _ _ => trivial) ?_
    intro note note' accountId _ _ _ _ hid hid'
    exact noteNullifier_eq_of_created_eq hid hid'

end LeeTransaction

/-! The locker's two transactions on a chain: the account is created by the first and updated
by the second. -/

namespace Locker

/-- A receipt verifies for what the circuit returns. -/
scoped instance receipts : Receipts where
  isValidForCircuit _ output circuitId := decide (circuitId = .ofWord 6 ∧
    (circuit claimInput = .ok output ∨ circuit writeInput = .ok output))

scoped instance schnorr : Schnorr := .ofTable []

/-- No public program is run. -/
def exec : Executor := .ofGuests fun _ _ _ _ _ => none

def transaction (output : PrivacyPreservingCircuitOutput) : LeeTransaction :=
  .privacyPreserving ⟨.fromCircuitOutput [] output, ⟨[], ⟨[]⟩⟩⟩

end Locker

section

open Idle Locker

open LeeTransaction

/-- The two transactions are accepted one after the other. -/
theorem locker_accepted :
    ∃ start, V03State.new = some start ∧
      ∃ claim, circuit claimInput = .ok claim ∧
        ∃ mid, start.apply ((transaction claim).computeStateDiff exec start 0 0)
            = .ok mid ∧
          ∃ write, circuit writeInput = .ok write ∧
            ∃ final, mid.apply ((transaction write).computeStateDiff exec mid 0 0)
                = .ok final ∧
              claim.publicActions = [] ∧ write.publicActions = [] := by
  decide +kernel

/-- Every digest of the table has one preimage. -/
theorem locker_unambiguous {digest : Bytes 32} (h : digest ∈ table.map Prod.snd) :
    Sha256.Unambiguous digest := by
  have hfallback : .replicate 32 255 ∉ table.map Prod.snd := by decide +kernel
  have hunique : ∀ e ∈ table, ∀ e' ∈ table, e.2 = e'.2 → e.1 = e'.1 := by
    decide +kernel
  refine Sha256.unambiguous_ofTableOr (fun heq => hfallback (heq ▸ h)) ?_
  exact fun e he e' he' hd hd' => hunique e he e' he' (hd.trans hd'.symm)

theorem locker_receiptsSound : ReceiptsSound verify := by
  intro proof output hvalid
  rcases (of_decide_eq_true hvalid).2 with h | h
  · exact ⟨claimInput, h⟩
  · exact ⟨writeInput, h⟩

/-- The accounts of an input are behind the transaction with its journal, in every state. -/
theorem locker_behind {input : PrivacyPreservingCircuitInput}
    {output : PrivacyPreservingCircuitOutput} (h : circuit input = .ok output)
    (hpublic : output.publicActions = []) (state : V03State) :
    Behind verify state (transaction output) ((notesOf verify input).map Prod.snd) := by
  have hjournal : journalOf state [] (.fromCircuitOutput [] output) = output := by
    obtain ⟨publicActions, privateActions, block, time⟩ := output
    obtain rfl : publicActions = [] := hpublic
    rfl
  exact ⟨input, h.trans (congrArg Except.ok hjournal.symm), rfl⟩

/-- The account is created once, and its first commitment consumed once. -/
theorem locker_spent_once :
    ∃ start steps final, V03State.new = some start ∧
      SpendingHistory exec verify start steps final ∧
      (steps.flatMap fun step => step.2.filterMap created) = [account] ∧
      (steps.flatMap fun step => step.2.filterMap consumed) = [⟨commitment⟩] ∧
      (steps.flatMap fun step => step.2.filterMap created).Nodup ∧
      (steps.flatMap fun step => step.2.filterMap consumed).Nodup := by
  obtain ⟨start, hstart, claim, hclaim, mid, hmid, write, hwrite, final, hfinal, hpublic,
    hpublic'⟩ := locker_accepted
  have hhistory : History exec start [transaction claim, transaction write]
      final := .cons ⟨0, 0, hmid⟩ (.cons ⟨0, 0, hfinal⟩ (.nil _))
  have hclaimed := locker_behind hclaim hpublic start
  have hwritten := locker_behind hwrite hpublic' mid
  have hread : ((notesOf verify claimInput).map Prod.snd).filterMap created
        = [account] ∧
      ((notesOf verify claimInput).map Prod.snd).filterMap consumed = [] ∧
      ((notesOf verify writeInput).map Prod.snd).filterMap created = [] ∧
      ((notesOf verify writeInput).map Prod.snd).filterMap consumed = [⟨commitment⟩] ∧
      ∀ note ∈ (notesOf verify writeInput).map Prod.snd,
        [(Commitment.new note.pre.accountId note.pre.account).value, note.pre.accountId.value,
          note.witness.nullifier.npk.value] ⊆ table.map Prod.snd := by
    decide +kernel
  -- from here on the accounts are only known by what was read off them
  generalize (notesOf verify claimInput).map Prod.snd = notes at hclaimed hread
  generalize (notesOf verify writeInput).map Prod.snd = notes' at hwritten hread
  obtain ⟨hcreates, hkeeps, hcreates', hconsumes, hnotes⟩ := hread
  have hsteps : SpendingHistory exec verify start
      [(transaction claim, notes), (transaction write, notes')] final :=
    .cons ⟨⟨0, 0, hmid⟩, hclaimed⟩ (.cons ⟨⟨0, 0, hfinal⟩, hwritten⟩ (.nil _))
  obtain ⟨-, honce⟩ := no_double_spend locker_receiptsSound hhistory
  obtain ⟨hconsumed, hcreated⟩ := honce _ rfl hsteps
  refine ⟨start, _, final, hstart, hsteps, by simp [hcreates, hcreates'],
    by simp [hkeeps, hconsumes], hcreated, hconsumed ?_⟩
  intro step hstep note hnote hsome
  rcases mem_cons.mp hstep with rfl | hstep
  · rw [List.filterMap_eq_nil_iff.mp hkeeps note hnote] at hsome
    cases hsome
  · obtain rfl := mem_singleton.mp hstep
    have hdigests := hnotes note hnote
    exact ⟨locker_unambiguous (hdigests (.head _)),
      locker_unambiguous (hdigests (.tail _ (.head _))),
      locker_unambiguous (hdigests (.tail _ (.tail _ (.head _))))⟩

end

end Lssa
