/-
The commitment set over whole runs.

A state is built from the default one by giving it genesis accounts and by accepted
transactions (`Operation`).  Commitments are only ever appended, and the root is recorded
after every batch.

* `Operates.grows` — what one operation does to the commitment set;
* `holds_run` — the set holds the commitments of the run, in order;
* `membership_sound` — a path to a recorded root, of whatever length, starts at a commitment
  that was inserted when the root was recorded;
* `membership_complete` — whoever had a commitment inserted can prove it;
* `MerkleTree.root_eq_referenceRoot`, `MerkleTree.authentication_paths_verify` — the tree by
  itself, for any capacity and values.
-/
import Lssa.CommitmentTree
import Lssa.Spending

open Outcome Runs

namespace Lssa

open Circuit LeeTransaction MerkleTree

/-! ### Operations -/

/-- What a state is built with. -/
inductive Operation
  | publicAccounts (accounts : List (AccountId × Account))
  | privateAccounts (accounts : List (Commitment × Nullifier))
  | transaction (tx : LeeTransaction)

/-- The commitments a transaction inserts. -/
def LeeTransaction.commitments : LeeTransaction → List Commitment
  | .privacyPreserving ptx => ptx.message.commitments
  | _ => []

/-- The commitments an operation inserts. -/
def Operation.commitments : Operation → List Commitment
  | .publicAccounts _ => []
  | .privateAccounts accounts => accounts.map Prod.fst
  | .transaction tx => tx.commitments

section

variable [Sha256] [Schnorr] [Builtins] [Receipts] [ImageId]

def Operates (exec : Executor) (operation : Operation) (state state' : V03State) : Prop :=
  match operation with
  | .publicAccounts accounts => state' = state.withPublicAccounts accounts
  | .privateAccounts accounts => state.withPrivateAccounts accounts = some state'
  | .transaction tx => Transition exec tx state state'

/-- The state that a run of operations leaves the default state in. -/
def Reaches (exec : Executor) (operations : List Operation) (state : V03State) : Prop :=
  ∃ start, V03State.new = some start ∧ Run (Operates exec) start operations state

/-- The commitments inserted, in that order. -/
def inserted (operations : List Operation) : List Commitment :=
  dummyCommitment :: operations.flatMap Operation.commitments

variable {exec : Executor} {operation : Operation} {operations : List Operation}
  {state state' : V03State}

/-- An accepted transaction inserts its commitments. -/
theorem LeeTransaction.Transition.extends {tx : LeeTransaction}
    (h : Transition exec tx state state') :
    state.commitmentSet.extend tx.commitments = some state'.commitmentSet := by
  obtain ⟨blockId, timestamp, diff, hdiff, happly⟩ := h.diff
  have hset := (applyStateDiff_private happly).1
  cases tx with
  | publicTx ptx =>
    rw [fromPublicTransaction_commitments hdiff] at hset
    exact hset
  | privacyPreserving ptx =>
    rw [(fromPrivacyPreservingTransaction_ok hdiff).diff_eq] at hset
    exact hset
  | programDeployment dtx =>
    obtain ⟨programId, -, -, rfl⟩ := fromProgramDeploymentTransaction_ok hdiff
    exact hset

/-- **What an operation does to the commitment set**: nothing, or it appends a batch. -/
theorem Operates.grows (h : Operates exec operation state state') :
    (state'.commitmentSet = state.commitmentSet ∧ operation.commitments = []) ∨
      state.commitmentSet.extend operation.commitments = some state'.commitmentSet := by
  cases operation with
  | publicAccounts accounts =>
    obtain rfl : state' = state.withPublicAccounts accounts := h
    exact .inl ⟨rfl, rfl⟩
  | privateAccounts accounts =>
    obtain ⟨set, hset, h⟩ := bind_eq_some_iff.mp h
    rw [← some.inj h]
    exact .inr hset
  | transaction tx => exact .inr (Transition.extends h)

variable {commitments : List Commitment} {start : V03State}

/-- An operation appends its commitments, and forgets no root. -/
theorem Operates.holds (h : Operates exec operation state state')
    (hholds : state.commitmentSet.Holds commitments) :
    state'.commitmentSet.Holds (commitments ++ operation.commitments) ∧
      state.commitmentSet.rootHistory ⊆ state'.commitmentSet.rootHistory ∧
      ∀ root ∈ state'.commitmentSet.rootHistory,
        root ∈ state.commitmentSet.rootHistory ∨ state'.commitmentSet.digest = some root := by
  rcases h.grows with ⟨hsame, hnone⟩ | hextend
  · rw [hsame, hnone, append_nil]
    exact ⟨hholds, subset_rfl, fun root hroot => .inl hroot⟩
  · obtain ⟨hholds', hhistory⟩ := CommitmentSet.extend_holds hholds hextend
    refine ⟨hholds', ?_, ?_⟩
    · rw [hhistory]
      exact Finset.subset_insert _ _
    · intro root hroot
      rw [hhistory] at hroot
      rcases Finset.mem_insert.mp hroot with rfl | hold
      · exact .inr hholds'.digest_eq
      · exact .inl hold

/-! ### Runs -/

theorem holds_run (h : Run (Operates exec) start operations state)
    (hholds : start.commitmentSet.Holds commitments) :
    state.commitmentSet.Holds (commitments ++ operations.flatMap Operation.commitments) ∧
      start.commitmentSet.rootHistory ⊆ state.commitmentSet.rootHistory := by
  induction h generalizing commitments with
  | nil state => exact ⟨by simpa using hholds, subset_rfl⟩
  | cons hstep _ ih =>
    obtain ⟨hmid, hsubset, -⟩ := hstep.holds hholds
    obtain ⟨hdone, hsubset'⟩ := ih hmid
    rw [append_assoc] at hdone
    exact ⟨hdone, hsubset.trans hsubset'⟩

/-- The current root is on record. -/
theorem current_run (h : Run (Operates exec) start operations state)
    (hholds : start.commitmentSet.Holds commitments)
    (hroot : CommitmentSet.rootOf commitments ∈ start.commitmentSet.rootHistory) :
    CommitmentSet.rootOf (commitments ++ operations.flatMap Operation.commitments) ∈
      state.commitmentSet.rootHistory := by
  induction h generalizing commitments with
  | nil state => simpa using hroot
  | cons hstep _ ih =>
    rw [List.flatMap_cons, ← append_assoc]
    refine ih (hstep.holds hholds).1 ?_
    rcases hstep.grows with ⟨hsame, hnone⟩ | hextend
    · rw [hsame, hnone, append_nil]
      exact hroot
    · rw [(CommitmentSet.extend_holds hholds hextend).2]
      exact Finset.mem_insert_self _ _

/-- The set of a reachable state holds what was inserted. -/
theorem Reaches.holds (h : Reaches exec operations state) :
    state.commitmentSet.Holds (inserted operations) := by
  obtain ⟨start, hnew, hrun⟩ := h
  exact (holds_run hrun (V03State.holds_new hnew).1).1

/-- A root that is recorded during a run was the current one at some point of it. -/
theorem recorded_run {root : CommitmentSetDigest} (h : Run (Operates exec) start operations state)
    (hholds : start.commitmentSet.Holds commitments)
    (hroot : root ∈ state.commitmentSet.rootHistory) :
    root ∈ start.commitmentSet.rootHistory ∨ ∃ before mid after, operations = before ++ after ∧
      Run (Operates exec) start before mid ∧ Run (Operates exec) mid after state ∧
      mid.commitmentSet.digest = some root := by
  induction h generalizing commitments with
  | nil state => exact .inl hroot
  | cons hstep hrest ih =>
    rename_i operation operations a b c
    obtain ⟨hmid, -, hrecorded⟩ := hstep.holds hholds
    rcases ih hmid hroot with hold | ⟨before, mid, after, rfl, hbefore, hafter, hdigest⟩
    · rcases hrecorded root hold with hold | hdigest
      · exact .inl hold
      · exact .inr ⟨[operation], b, operations, rfl, .cons hstep (.nil _), hrest, hdigest⟩
    · exact .inr ⟨operation :: before, mid, after, rfl, .cons hstep hbefore, hafter, hdigest⟩

/-- Every recorded root was the current one at some point. -/
theorem Reaches.recorded (h : Reaches exec operations state) {root : CommitmentSetDigest}
    (hroot : root ∈ state.commitmentSet.rootHistory) :
    ∃ before mid after, operations = before ++ after ∧ Reaches exec before mid ∧
      Run (Operates exec) mid after state ∧ mid.commitmentSet.digest = some root := by
  obtain ⟨start, hnew, hrun⟩ := h
  obtain ⟨hholds, hhistory⟩ := V03State.holds_new hnew
  rcases recorded_run hrun hholds hroot with hstart |
      ⟨before, mid, after, heq, hbefore, hafter, hdigest⟩
  · rw [hhistory, Finset.mem_singleton] at hstart
    subst hstart
    exact ⟨[], start, operations, rfl, ⟨start, hnew, .nil _⟩, hrun, hholds.digest_eq⟩
  · exact ⟨before, mid, after, heq, ⟨start, hnew, hbefore⟩, hafter, hdigest⟩

/-! ### Soundness -/

variable [MlKem] [ChaCha20] {verify : ProgramId → ProgramOutput → Bool}

/-- The root an account refers to is one the state knows. -/
theorem root_known {ptx : PrivacyPreservingTransaction} {notes : List Note}
    (h : Transition exec (.privacyPreserving ptx) state state')
    (hbehind : Behind verify state (.privacyPreserving ptx) notes) {note : Note}
    (hnote : note ∈ notes) : (noteNullifier note).2 ∈ state.commitmentSet.rootHistory := by
  obtain ⟨input, hinput, rfl⟩ := hbehind
  obtain ⟨final, states, -, -, journal, hnotes⟩ := main_ok hinput
  obtain ⟨blockId, timestamp, diff, hdiff, -⟩ := h.diff
  obtain ⟨entry, hentry, rfl⟩ := mem_map.mp hnote
  rw [hnotes] at hentry
  refine (fromPrivacyPreservingTransaction_ok hdiff).rootsKnown (noteNullifier entry.2) ?_
  exact journal.nullifiers.mem_iff.mpr (mem_append_left _ (mem_map_of_mem hentry))

/-- **Membership soundness.**  Let no leaf hash to the padding, and let the nodes of the
trees that the run goes through have one preimage each.  If a path of any length, from any
index, leads from a commitment to a root on record, then the commitment was in the set at a
point of the run where that root was the current one.  So every account that an accepted
transaction updates has its commitment in the set, if receipts are sound. -/
theorem membership_sound (hpadding : CommitmentSet.PaddingSound)
    (hsound : ReceiptsSound verify) (h : Reaches exec operations state)
    (hsafe : ∀ before mid, before <+: operations → Reaches exec before mid →
      mid.commitmentSet.CollisionFree) :
    (∀ root ∈ state.commitmentSet.rootHistory, ∃ before mid after,
      operations = before ++ after ∧ Reaches exec before mid ∧
        Run (Operates exec) mid after state ∧ mid.commitmentSet.digest = some root ∧
        ∀ commitment proof, computeDigestForPath commitment proof = root →
          commitment ∈ mid.commitmentSet.commitments) ∧
      ∀ ptx state', Transition exec (.privacyPreserving ptx) state state' →
        (∃ notes, Behind verify state (.privacyPreserving ptx) notes) ∧
        ∀ notes, Behind verify state (.privacyPreserving ptx) notes →
          ∀ note ∈ notes, ∀ commitment, consumed note = some commitment →
            commitment ∈ state.commitmentSet.commitments := by
  have hroots : ∀ root ∈ state.commitmentSet.rootHistory, ∃ before mid after,
      operations = before ++ after ∧ Reaches exec before mid ∧
        Run (Operates exec) mid after state ∧ mid.commitmentSet.digest = some root ∧
        ∀ commitment proof, computeDigestForPath commitment proof = root →
          commitment ∈ mid.commitmentSet.commitments := by
    intro root hroot
    obtain ⟨before, mid, after, heq, hmid, hafter, hdigest⟩ := h.recorded hroot
    refine ⟨before, mid, after, heq, hmid, hafter, hdigest, ?_⟩
    intro commitment proof hproof
    have hholds := hmid.holds
    rw [hholds.digest_eq, some_inj] at hdigest
    rw [hholds.mem]
    exact hholds.mem_of_path hpadding (hsafe before mid ⟨after, heq.symm⟩ hmid)
      (hproof.trans hdigest.symm)
  refine ⟨hroots, fun ptx state' hstep => ⟨?_, ?_⟩⟩
  · obtain ⟨diff, input, -, -, hinput⟩ := hstep.privately hsound
    exact ⟨_, input, hinput, rfl⟩
  · intro notes hbehind note hnote commitment hconsumed
    obtain ⟨before, mid, after, -, hmid, hafter, -, hmem⟩ :=
      hroots _ (root_known hstep hbehind hnote)
    obtain ⟨⟨vpk, seed, identifier, kind, nullifier⟩, pre, post⟩ := note
    cases nullifier with
    | init npk root => exact absurd hconsumed (by simp [consumed])
    | update viewTag nsk proof =>
      obtain rfl : Commitment.new pre.accountId pre.account = commitment :=
        some.inj hconsumed
      have hin := (hmid.holds.mem _).mp (hmem _ proof rfl)
      exact ((holds_run hafter hmid.holds).1.mem _).mpr (mem_append_left _ hin)

/-! ### Completeness -/

/-- Accounts that a state is given at genesis are distinct and new to it. -/
def Fresh (operation : Operation) (state : V03State) : Prop :=
  match operation with
  | .privateAccounts accounts => (accounts.map Prod.fst).Nodup ∧
    ∀ commitment ∈ accounts.map Prod.fst, commitment ∉ state.commitmentSet.commitments
  | _ => True

omit [MlKem] [ChaCha20] in
/-- What is inserted is new. -/
theorem Operates.fresh (h : Operates exec operation state state') (hfresh : Fresh operation state) :
    operation.commitments.Nodup ∧
      ∀ commitment ∈ operation.commitments, commitment ∉ state.commitmentSet.commitments := by
  cases operation with
  | publicAccounts accounts => exact ⟨List.nodup_nil, by simp [Operation.commitments]⟩
  | privateAccounts accounts => exact hfresh
  | transaction tx =>
    cases tx with
    | publicTx ptx => exact ⟨List.nodup_nil, by simp [Operation.commitments,
        LeeTransaction.commitments]⟩
    | programDeployment dtx => exact ⟨List.nodup_nil, by simp [Operation.commitments,
        LeeTransaction.commitments]⟩
    | privacyPreserving ptx =>
      obtain ⟨blockId, timestamp, diff, hdiff, -⟩ := Transition.diff h
      have haccepted := fromPrivacyPreservingTransaction_ok hdiff
      exact ⟨haccepted.commitmentsNodup, haccepted.commitmentsNew⟩

omit [MlKem] [ChaCha20] in
theorem Operates.mem (h : Operates exec operation state state') (commitment : Commitment) :
    commitment ∈ state'.commitmentSet.commitments ↔
      commitment ∈ state.commitmentSet.commitments ∨ commitment ∈ operation.commitments := by
  rcases h.grows with ⟨hsame, hnone⟩ | hextend
  · rw [hsame, hnone]
    simp
  · exact CommitmentSet.mem_extend hextend commitment

omit [MlKem] [ChaCha20] in
/-- **Commitment set completeness.**  In a state that is built from the default one by
accepted transactions, and by genesis accounts that are new, the commitments inserted are
distinct and stand in the map with the indices from 0 on.  For each of them the proof that
is handed out leads to the current root, and that root is on record.  Whatever happens
next, no root leaves the record. -/
theorem membership_complete {start : V03State} (hnew : V03State.new = some start)
    (h : Run (fun operation s s' => Operates exec operation s s' ∧ Fresh operation s) start
      operations state) :
    (inserted operations).Nodup ∧
      state.commitmentSet.merkleTree.length = (inserted operations).length ∧
      (∀ commitment i, state.commitmentSet.commitments.lookup commitment = some i ↔
        (inserted operations)[i]? = some commitment) ∧
      (∀ commitment ∈ inserted operations, ∃ proof root,
        state.commitmentSet.getProofFor commitment = some proof ∧
          computeDigestForPath commitment proof = root ∧
          state.commitmentSet.digest = some root ∧ root ∈ state.commitmentSet.rootHistory) ∧
      ∀ later state', Run (Operates exec) state later state' →
        state.commitmentSet.rootHistory ⊆ state'.commitmentSet.rootHistory := by
  have hrun : Run (Operates exec) start operations state := h.mono fun _ _ _ hstep => hstep.1
  obtain ⟨hstart, hhistory⟩ := V03State.holds_new hnew
  have hholds : state.commitmentSet.Holds (inserted operations) := (holds_run hrun hstart).1
  -- used: a commitment of the set
  obtain ⟨hnodup, hnotStart⟩ := h.nodup_flatMap
    (U := fun s commitment => commitment ∈ s.commitmentSet.commitments)
    (fun operation _ a b hstep => hstep.1.fresh hstep.2)
    (fun operation _ a b hstep commitment hmem => (hstep.1.mem commitment).mpr (.inr hmem))
    (fun operation _ a b hstep commitment hmem => (hstep.1.mem commitment).mpr (.inl hmem))
  have hinserted : (inserted operations).Nodup := by
    refine nodup_cons.mpr ⟨fun hmem => hnotStart _ hmem ?_, hnodup⟩
    exact (hstart.mem _).mpr (List.mem_singleton_self _)
  refine ⟨hinserted, hholds.length_eq, ?_, ?_, fun later state' hlater =>
    (holds_run hlater hholds).2⟩
  · intro commitment i
    refine ⟨hholds.index commitment i, fun hat => ?_⟩
    obtain ⟨j, hlook⟩ := isSome_iff_exists.mp (lookup_isSome.mpr
      ((hholds.mem commitment).mpr (mem_of_getElem? hat)))
    have hat' := hholds.index commitment j hlook
    obtain ⟨hlt, -⟩ := getElem?_eq_some_iff.mp hat
    rw [(List.getElem?_inj hlt hinserted).mp (hat.trans hat'.symm)]
    exact hlook
  · intro commitment hmem
    obtain ⟨proof, hproof, hdigest⟩ := hholds.getProofFor_eq hmem
    refine ⟨proof, _, hproof, hdigest, hholds.digest_eq, current_run hrun hstart ?_⟩
    rw [hhistory]
    exact Finset.mem_singleton_self _

end

/-! ### The tree by itself -/

namespace MerkleTree

open Merkle

variable [Sha256] {capacity : ℕ} {values : List (Bytes 32)}

/-- **The root is the reference root**, whatever capacity the tree started with and however
often it was reallocated, as long as the table of paddings holds the roots of empty trees and
is deep enough. -/
theorem root_eq_referenceRoot
    (hpadding : ∀ k, k + 1 < defaultValues.length →
      padding (k + 1) = hashTwo (padding k) (padding k))
    (hcapacity : Nat.clog 2 capacity < defaultValues.length)
    (hvalues : Nat.clog 2 values.length < defaultValues.length) :
    (built capacity values).bind root = some (referenceRoot values) := by
  obtain ⟨tree, htree⟩ := built_total hcapacity hvalues
  obtain ⟨height, hrep⟩ := built_represents htree
  rw [htree, bind_some, root_represents hrep, length_map, referenceRoot]
  exact congrArg some (node_eq_full (fun j hj => hpadding j (by omega)) 0)

/-- **Authentication paths verify**: there is one for every index in use and for no other, and
it leads from the value at the index to the root. -/
theorem authentication_paths_verify {tree : MerkleTree} (h : built capacity values = some tree)
    (index : ℕ) :
    ((∃ path, tree.getAuthenticationPathFor index = some path) ↔ index < values.length) ∧
      ∀ value path, values[index]? = some value →
        tree.getAuthenticationPathFor index = some path →
        tree.root = some (computeDigestForPath ⟨value⟩ (index, path)) := by
  obtain ⟨height, hrep⟩ := built_represents h
  have hlength : (values.map hashValue).length = values.length := length_map _
  have hpath := fun hlt : index < values.length =>
    getAuthenticationPathFor_represents hrep (hlength.symm ▸ hlt)
  refine ⟨⟨fun ⟨path, hsome⟩ => ?_, fun hlt => ⟨_, hpath hlt⟩⟩, fun value path hvalue hsome => ?_⟩
  · by_contra hnot
    rw [getAuthenticationPathFor, if_pos (by rw [hrep.length, hlength]; omega)] at hsome
    cases hsome
  · obtain ⟨hlt, -⟩ := getElem?_eq_some_iff.mp hvalue
    obtain rfl := some.inj (hsome.symm.trans (hpath hlt))
    rw [root_represents hrep, computeDigestForPath_eq_climb, climb_siblings_root
      (by rw [getElem?_map, hvalue, map_some])]

end MerkleTree

/-! ### The locker's account

The account that the locker keeps is proven to be in the set, with the commitment that its
first transaction inserted. -/

section

open Idle Locker

theorem locker_paddingSound : CommitmentSet.PaddingSound := by
  refine ⟨fun bytes hzero => ?_, ?_⟩
  · have hall : ∀ entry ∈ table, entry.2 ≠ padding 0 := by decide +kernel
    exact hall _ (Sha256.mem_of_hashBytes (by decide +kernel) hzero) rfl
  · have hall : ∀ k < defaultValues.length - 1,
        padding (k + 1) = hashTwo (padding k) (padding k) := by
      decide +kernel
    exact fun k hk => hall k (by omega)

/-- A tree that started with one leaf and holds three commitments. -/
theorem locker_root :
    (built 1 [dummyCommitment.value, commitment, commitment']).bind
        root
      = some (referenceRoot [dummyCommitment.value, commitment, commitment']) :=
  root_eq_referenceRoot locker_paddingSound.inner (by decide +kernel) (by decide +kernel)

theorem locker_path :
    ∃ tree path, built 1
        [dummyCommitment.value, commitment, commitment'] = some tree ∧
      tree.getAuthenticationPathFor 2 = some path ∧
      tree.root = some (computeDigestForPath ⟨commitment'⟩ (2, path)) := by
  obtain ⟨tree, htree⟩ : ∃ tree, built 1
      [dummyCommitment.value, commitment, commitment'] = some tree :=
    built_total (by decide +kernel) (by decide +kernel)
  obtain ⟨hiff, hverify⟩ := authentication_paths_verify htree 2
  obtain ⟨path, hpath⟩ := hiff.mpr (by decide)
  exact ⟨tree, path, htree, hpath, hverify _ path rfl hpath⟩

/-- The trees of the default state, and after the first transaction. -/
theorem locker_trees {start mid : V03State} {claim : PrivacyPreservingCircuitOutput}
    (hnew : V03State.new = some start) (hclaim : circuit claimInput = .ok claim)
    (hmid : start.commitmentSet.extend (transaction claim).commitments = some mid.commitmentSet) :
    start.commitmentSet.CollisionFree ∧ mid.commitmentSet.CollisionFree := by
  obtain ⟨start', hstart', claim', hclaim', set, hset, hnodes⟩ :
      ∃ start, V03State.new = some start ∧ ∃ claim, circuit claimInput = .ok claim ∧
        ∃ set, start.commitmentSet.extend (transaction claim).commitments = some set ∧
          start.commitmentSet.merkleTree.nodes ++ set.merkleTree.nodes
            ⊆ padding 0 :: table.map Prod.snd := by
    decide +kernel
  obtain rfl := some.inj (hnew.symm.trans hstart')
  obtain rfl := Except.ok.inj (hclaim.symm.trans hclaim')
  obtain rfl := some.inj (hmid.symm.trans hset)
  exact ⟨fun node hnode hne => locker_unambiguous
      ((mem_cons.mp (hnodes (mem_append_left _ hnode))).resolve_left hne),
    fun node hnode hne => locker_unambiguous
      ((mem_cons.mp (hnodes (mem_append_right _ hnode))).resolve_left hne)⟩

/-- The second transaction updates the account, so the commitment it consumes is in the set. -/
theorem locker_member :
    ∃ claim mid write final, Reaches exec [.transaction (transaction claim)] mid ∧
      Transition exec (transaction write) mid final ∧
      (∃ notes, Behind verify mid (transaction write) notes ∧
        ∃ note ∈ notes, consumed note = some ⟨commitment⟩) ∧
      ⟨commitment⟩ ∈ mid.commitmentSet.commitments := by
  obtain ⟨start, hstart, claim, hclaim, mid, hmid, write, hwrite, final, hfinal, -, hpublic⟩ :=
    locker_accepted
  have hmid : Transition exec (transaction claim) start mid := ⟨0, 0, hmid⟩
  have hfinal : Transition exec (transaction write) mid final := ⟨0, 0, hfinal⟩
  have hreaches : Reaches exec [.transaction (transaction claim)] mid :=
    ⟨start, hstart, .cons hmid (.nil _)⟩
  have hwritten := locker_behind hwrite hpublic mid
  have hread : ∃ note ∈ (notesOf verify writeInput).map Prod.snd,
      consumed note = some ⟨commitment⟩ := by decide +kernel
  generalize (notesOf verify writeInput).map Prod.snd = notes at hwritten hread
  have hsafe : ∀ before state, before <+: [Operation.transaction (transaction claim)] →
      Reaches exec before state → state.commitmentSet.CollisionFree := by
    rintro before state hprefix ⟨start', hstart', hrun⟩
    obtain rfl := some.inj (hstart.symm.trans hstart')
    rcases List.prefix_cons_iff.mp hprefix with rfl | ⟨rest, rfl, hrest⟩
    · cases hrun
      exact (locker_trees hstart hclaim (Transition.extends hmid)).1
    · obtain rfl := List.prefix_nil.mp hrest
      obtain _ | ⟨hstep, hdone⟩ := hrun
      cases hdone
      exact (locker_trees hstart hclaim (Transition.extends hstep)).2
  obtain ⟨-, hupdates⟩ := membership_sound locker_paddingSound locker_receiptsSound hreaches hsafe
  obtain ⟨note, hnote, hconsumed⟩ := hread
  exact ⟨claim, mid, write, final, hreaches, hfinal, ⟨notes, hwritten, note, hnote, hconsumed⟩,
    (hupdates _ _ hfinal).2 notes hwritten note hnote _ hconsumed⟩

/-- All three commitments can be proven after the second transaction. -/
theorem locker_provable :
    ∃ operations state, Reaches exec operations state ∧
      inserted operations = [dummyCommitment, ⟨Locker.commitment⟩, ⟨commitment'⟩] ∧
      state.commitmentSet.commitments.lookup ⟨commitment'⟩ = some 2 ∧
      ∀ commitment ∈ inserted operations, ∃ proof root,
        state.commitmentSet.getProofFor commitment = some proof ∧
          computeDigestForPath commitment proof = root ∧
          state.commitmentSet.digest = some root ∧ root ∈ state.commitmentSet.rootHistory := by
  obtain ⟨start, hstart, claim, hclaim, mid, hmid, write, hwrite, final, hfinal, -⟩ :=
    locker_accepted
  have hinserted : inserted [.transaction (transaction claim),
      .transaction (transaction write)] = [dummyCommitment, ⟨Locker.commitment⟩, ⟨commitment'⟩] :=
    (by decide +kernel : ∀ claim, circuit claimInput = .ok claim →
      ∀ write, circuit writeInput = .ok write →
        inserted [.transaction (transaction claim), .transaction (transaction write)]
          = [dummyCommitment, ⟨Locker.commitment⟩, ⟨commitment'⟩])
      claim hclaim write hwrite
  have hrun : Run (fun operation s s' => Operates exec operation s s' ∧ Fresh operation s)
      start [.transaction (transaction claim), .transaction (transaction write)]
        final := .cons ⟨⟨0, 0, hmid⟩, trivial⟩ (.cons ⟨⟨0, 0, hfinal⟩, trivial⟩ (.nil _))
  obtain ⟨-, -, hindex, hproofs, -⟩ := membership_complete hstart hrun
  refine ⟨_, final, ⟨start, hstart, hrun.mono fun _ _ _ hstep => hstep.1⟩, hinserted, ?_, hproofs⟩
  rw [hindex, hinserted]
  rfl

end

end Lssa
