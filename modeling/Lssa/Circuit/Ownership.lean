/-
Ownership is respected by the privacy circuit.

A call may write to an account of its own program, or to one that nobody has used and that it then
claims.  Claims of public accounts need authority or a seed, claims of private accounts need
nothing.  What one call does to an account is composed along the walk (`Held`), from the account as
it was first seen to the account as it is left.

The journal shows public accounts as the walk left them.  To private ones it gives a new nonce, also
to those that no call has touched (`untouched_is_renewed`): so what is respected is everything but
the nonce of a private account.

* `Held` — what has become of an account so far;
* `Respected` — what becomes of an account of the journal;
* **`circuit_respects_ownership`** — accepted inputs respect the owners of all accounts.
-/
import Lssa.Circuit.Binding

open Outcome DepthFirst

namespace Lssa

namespace Circuit

section

variable [Sha256] {accountIdentities : List InputAccountIdentity}
  {tree : List (Visit Progress Call ProgramOutput)} {v : Visit Progress Call ProgramOutput}
  {state state' : ExecutionState} {pre : AccountWithMetadata} {post : AccountPostState}

/-- The call claims the account: a public one that it lists as authorized, a public PDA of its
program under the seed that it claims with, or a private one. -/
def Claims (identity : InputAccountIdentity) (entry : Entry) (accountId : AccountId) : Prop :=
  ∃ pre post claim, (pre, post) ∈ entry.2.preStates.zip entry.2.postStates ∧
    pre.accountId = accountId ∧ post.claim = some claim ∧
    match identity, claim with
    | .publicAccount, .authorized => pre.isAuthorized = true
    | .publicAccount, .pda seed => accountId = forPublicPda entry.1.1.programId seed
    | .privateAccount _, _ => True

/-! ### What has become of an account so far -/

/-- An account as it was first seen and as it is now: nobody has claimed it that it was not open to,
and if it had an owner, nobody else has written to it. -/
structure Held (tree : List (Visit Progress Call ProgramOutput))
    (identity : Option InputAccountIdentity) (accountId : AccountId) (before now : Account) :
    Prop where
  nonce : now.nonce = before.nonce
  owner : before.programOwner ≠ defaultProgramOwner → now.programOwner = before.programOwner
  changed : before.programOwner ≠ defaultProgramOwner →
    now.data ≠ before.data ∨ now.balance < before.balance →
    ∃ v ∈ tree, ofProgramId v.call.1.programId = before.programOwner ∧ Mentions v.entry accountId
  claimed : before.programOwner = defaultProgramOwner →
    now.programOwner = defaultProgramOwner ∨
      ∃ v ∈ tree, ∃ supplied ∈ identity, Claims supplied v.entry accountId ∧
        now.programOwner = ofProgramId v.call.1.programId

theorem Held.refl (identity : Option InputAccountIdentity) (accountId : AccountId)
    (account : Account) : Held tree identity accountId account account where
  nonce := rfl
  owner _ := rfl
  changed _ h := by
    rcases h with hdata | hbalance
    · exact absurd rfl hdata
    · exact absurd hbalance (lt_irrefl _)
  claimed h := .inl h

/-- The claim with which an account of an output is left, if any. -/
def LeftAs (identity : Option InputAccountIdentity) (programId : ProgramId)
    (pre : AccountWithMetadata) (post : AccountPostState) (account : Account) : Prop :=
  (post.claim = none ∧ account = post.account) ∨
    ∃ claim supplied, post.claim = some claim ∧ supplied ∈ identity ∧
      post.account.programOwner = defaultProgramOwner ∧
      (match supplied, claim with
        | .publicAccount, .authorized => pre.isAuthorized = true
        | .publicAccount, .pda seed => pre.accountId = forPublicPda programId seed
        | .privateAccount _, _ => True) ∧
      account = { post.account with programOwner := ofProgramId programId }

/-- One call more. -/
theorem Held.step {identity : Option InputAccountIdentity} {before account : Account}
    (h : Held tree identity pre.accountId before pre.account) (hv : v ∈ tree)
    (hpair : (pre, post) ∈ v.result.preStates.zip v.result.postStates)
    (hvalid : ValidAccount v.call.1.programId pre.account post.account)
    (hleft : LeftAs identity v.call.1.programId pre post account) :
    Held tree identity pre.accountId before account := by
  have hmentions : Mentions v.entry pre.accountId := ⟨pre, (of_mem_zip hpair).1, rfl⟩
  -- a claim changes the owner only
  have hsame : account.nonce = post.account.nonce ∧ account.data = post.account.data ∧
      account.balance = post.account.balance := by
    rcases hleft with ⟨-, rfl⟩ | ⟨_, _, -, -, -, -, rfl⟩ <;> exact ⟨rfl, rfl, rfl⟩
  obtain ⟨hnonce, hdata, hbalance⟩ := hsame
  -- and only of an account without one
  have howned : pre.account.programOwner ≠ defaultProgramOwner →
      account.programOwner = pre.account.programOwner := by
    intro hne
    rcases hleft with ⟨-, rfl⟩ | ⟨_, _, -, -, hopen, -, -⟩
    · exact hvalid.programOwner
    · exact absurd (hvalid.programOwner ▸ hopen) hne
  refine ⟨by rw [hnonce, hvalid.nonce, h.nonce], fun hne => ?_, fun hne hchanged => ?_,
    fun hopen => ?_⟩
  · have hpre := h.owner hne
    rw [howned (hpre ▸ hne), hpre]
  · have hpre := h.owner hne
    have hused : pre.account ≠ .default := by
      intro hdefault
      rw [← hpre, hdefault] at hne
      exact hne rfl
    rw [hdata, hbalance] at hchanged
    by_cases hbefore : pre.account.data ≠ before.data ∨ pre.account.balance < before.balance
    · exact h.changed hne hbefore
    · -- it is this call that writes, so it is the owner's
      obtain ⟨hdata', hbalance'⟩ := not_or.mp hbefore
      have howner : pre.account.programOwner = .ofProgramId v.call.1.programId := by
        rcases hchanged with hdata'' | hbalance''
        · rw [← not_not.mp hdata'] at hdata''
          exact (hvalid.data hdata'').resolve_left hused
        · exact hvalid.balance (lt_of_lt_of_le hbalance'' (not_lt.mp hbalance'))
      exact ⟨v, hv, howner.symm.trans hpre, hmentions⟩
  · by_cases hne : pre.account.programOwner = defaultProgramOwner
    · rcases hleft with ⟨-, rfl⟩ | ⟨claim, supplied, hclaim, hsupplied, -, hgrounds, rfl⟩
      · exact .inl (hvalid.programOwner.trans hne)
      · exact .inr ⟨v, hv, supplied, hsupplied,
          ⟨pre, post, claim, hpair, rfl, hclaim, hgrounds⟩, rfl⟩
    · rw [howned hne]
      exact h.claimed hopen

/-! ### All accounts of the walk -/

/-- Every account recorded is held, under the identity supplied for its position. -/
def AllHeld (tree : List (Visit Progress Call ProgramOutput))
    (accountIdentities : List InputAccountIdentity) (state : ExecutionState) : Prop :=
  ∀ (position : ℕ) (recorded : AccountWithMetadata) (now : Account),
    state.preStates[position]? = some recorded →
    state.postStates.lookup recorded.accountId = some now →
    Held tree accountIdentities[position]? recorded.accountId recorded.account now

variable {now : Account} {verify : ProgramId → ProgramOutput → Bool}

/-- How syncing leaves an account, told from where it is recorded. -/
theorem Synced.leftAs {call : Call} (h : Synced accountIdentities call state pre post state')
    (hwf : WellFormed state') {position : ℕ} {recorded : AccountWithMetadata}
    (hat : state'.preStates[position]? = some recorded) (hid : recorded.accountId = pre.accountId)
    (hnow : state'.postStates.lookup pre.accountId = some now) :
    LeftAs accountIdentities[position]? call.1.programId pre post now := by
  obtain ⟨account, hinsert, hcases⟩ := h.claim
  rw [hinsert, lookup_insert, some_inj] at hnow
  subst hnow
  rcases hcases with hnone | ⟨claim, position', recorded', hclaim, hat', hid', hopen, hmay, hleft⟩
  · exact .inl hnone
  · have hposition := hwf.position_unique hat
    have hposition' := hwf.position_unique hat'
    rw [hid] at hposition
    rw [hid', hposition, some_inj] at hposition'
    subst hposition'
    obtain ⟨identity, hidentity, hgrounds⟩ := hmay
    refine .inr ⟨claim, identity, hclaim, hidentity, hopen, ?_, hleft⟩
    cases identity with
    | publicAccount => cases claim <;> exact hgrounds
    | privateAccount witness => trivial

theorem Synced.allHeld (h : Synced accountIdentities v.call state pre post state')
    (hwf : WellFormed state) (hv : v ∈ tree)
    (hpair : (pre, post) ∈ v.result.preStates.zip v.result.postStates)
    (hvalid : ValidAccount v.call.1.programId pre.account post.account)
    (hheld : AllHeld tree accountIdentities state) : AllHeld tree accountIdentities state' := by
  obtain ⟨_, hsighting⟩ := h.sighting
  obtain ⟨account, hinsert, -⟩ := h.claim
  intro position recorded now hat hnow
  -- the accounts recorded before, and the one that is met
  have hrecorded : state.preStates[position]? = some recorded ∨
      recorded.accountId = pre.accountId ∧ recorded.account = pre.account := by
    rcases hsighting.preStates_cases with ⟨-, -, hsame⟩ | ⟨-, -, met, happend, hid, haccount⟩
    · rw [hsame] at hat
      exact .inl hat
    · rw [happend] at hat
      by_cases hlt : position < state.preStates.length
      · rw [List.getElem?_append_left hlt] at hat
        exact .inl hat
      · rw [List.getElem?_append_right (not_lt.mp hlt)] at hat
        rw [mem_singleton.mp (mem_of_getElem? hat)]
        exact .inr ⟨hid, haccount⟩
  by_cases hid : recorded.accountId = pre.accountId
  · rw [hid] at hnow ⊢
    refine Held.step ?_ hv hpair hvalid (h.leftAs (h.wellFormed hwf) hat hid hnow)
    rcases hrecorded with hold | ⟨-, haccount⟩
    · rcases hsighting.preStates_cases with ⟨hlookup, -⟩ | ⟨hlookup, -⟩
      · have hbefore := hheld position recorded pre.account hold (hid ▸ hlookup)
        rwa [hid] at hbefore
      · have hmem : pre.accountId ∈ state.preStates.map (·.accountId) :=
          mem_map.mpr ⟨recorded, mem_of_getElem? hold, hid⟩
        exact absurd ((hwf.mem_iff _).mpr hmem) (lookup_eq_none.mp hlookup)
    · rw [haccount]
      exact Held.refl _ _ _
  · rw [hinsert, lookup_insert_ne hid] at hnow
    rcases hrecorded with hold | ⟨hsame, -⟩
    · exact hheld position recorded now hold hnow
    · exact absurd hsame hid

theorem Step.allHeld (hv : v ∈ tree)
    (h : Step verify accountIdentities v.before v.call v.result v.after)
    (hbefore : WellFormed v.before.1 ∧ AllHeld tree accountIdentities v.before.1) :
    WellFormed v.after.1 ∧ AllHeld tree accountIdentities v.after.1 := by
  refine validateAndSyncStates_invariant
    (P := fun state => WellFormed state ∧ AllHeld tree accountIdentities state) ?_ h.synced hbefore
  rintro mid pre post mid' hpair hsynced ⟨hwf, hheld⟩
  have hvalid := (validateExecution_ok h.valid).account _ hpair
  exact ⟨hsynced.wellFormed hwf, hsynced.allHeld hwf hv hpair hvalid hheld⟩

/-- At the end of the walk every account is held. -/
theorem deriveFromOutputs_allHeld {programId : ProgramId} {programOutputs : List ProgramOutput}
    (h : deriveFromOutputs verify accountIdentities programId programOutputs = .ok state) :
    AllHeld (callTree verify accountIdentities programId programOutputs) accountIdentities
      state := by
  obtain ⟨start, hstart, hthreads, -⟩ := deriveFromOutputs_ok h
  obtain ⟨block, time, rfl, -⟩ := startState_ok hstart
  refine (hthreads.invariant (P := fun progress => WellFormed progress.1 ∧
    AllHeld (callTree verify accountIdentities programId programOutputs) accountIdentities
      progress.1) (fun v hv => (callTree_step hv).allHeld hv) ⟨wellFormed_initialState block time,
      fun position recorded now hat => ?_⟩).2
  exact absurd hat (by simp [initialState])

/-! ### The journal -/

/-- The state after in which the journal shows an account, or commits to it. -/
def emittedPost (identity : InputAccountIdentity) (pre : AccountWithMetadata) (post : Account) :
    Account :=
  match identity with
  | .publicAccount => post
  | .privateAccount witness => noteAccount ⟨witness, pre, post⟩

/-- What becomes of an account of the journal.  If it has an owner, it keeps it, and only its owner
takes from it or changes its data.  If it has none, it is claimed if it changes; the nonce of a
private account apart. -/
structure Respected (tree : List (Visit Progress Call ProgramOutput))
    (identity : InputAccountIdentity) (accountId : AccountId) (before after : Account) :
    Prop where
  owner : before.programOwner ≠ defaultProgramOwner → after.programOwner = before.programOwner
  changed : before.programOwner ≠ defaultProgramOwner →
    after.data ≠ before.data ∨ after.balance < before.balance →
    ∃ v ∈ tree, ofProgramId v.call.1.programId = before.programOwner ∧ Mentions v.entry accountId
  claimed : before.programOwner = defaultProgramOwner →
    { after with nonce := before.nonce } ≠ before →
    ∃ v ∈ tree, Claims identity v.entry accountId ∧
      after.programOwner = ofProgramId v.call.1.programId
  nonce : identity = .publicAccount → after.nonce = before.nonce

theorem respected_of_held {identity : InputAccountIdentity}
    (hheld : Held tree (some identity) pre.accountId pre.account now)
    (hclaimed : pre.account.programOwner = defaultProgramOwner →
      now.programOwner = defaultProgramOwner → now = pre.account) :
    Respected tree identity pre.accountId pre.account (emittedPost identity pre now) := by
  -- what is emitted is what the walk has left, up to the nonce
  have hemitted : (emittedPost identity pre now).programOwner = now.programOwner ∧
      (emittedPost identity pre now).data = now.data ∧
      (emittedPost identity pre now).balance = now.balance ∧
      { emittedPost identity pre now with nonce := pre.account.nonce } = now := by
    cases identity with
    | publicAccount | privateAccount witness =>
      refine ⟨rfl, rfl, rfl, ?_⟩
      rw [← hheld.nonce]
      rfl
  obtain ⟨howner, hdata, hbalance, hsame⟩ := hemitted
  refine ⟨fun hne => howner.trans (hheld.owner hne), fun hne hchanged => ?_,
    fun hopen hchanged => ?_, ?_⟩
  · rw [hdata, hbalance] at hchanged
    exact hheld.changed hne hchanged
  · rw [hsame] at hchanged
    rcases hheld.claimed hopen with hstill | ⟨v, hv, supplied, hsupplied, hclaims, hnow⟩
    · exact absurd (hclaimed hopen hstill) hchanged
    · obtain rfl : identity = supplied := some.inj hsupplied
      exact ⟨v, hv, hclaims, howner.trans hnow⟩
  · rintro rfl
    exact hheld.nonce

variable [MlKem] [ChaCha20]

/-- **Ownership is respected by privacy-preserving transactions.**  Take any accepted input, with
any programs in its call tree.  Of every account, public or private, as the journal emits it: an
owner stays the owner, and its data change or its balance falls only if the owner ran in a call that
listed the account; without an owner it changes only if a program that ran claimed it and owns it
now, having the account authorized in that call, or as a PDA of its own under the seed claimed with,
or because the account is private.  The nonce of a private account is renewed in any case. -/
theorem circuit_respects_ownership {verify : ProgramId → ProgramOutput → Bool}
    {input : PrivacyPreservingCircuitInput} {output : PrivacyPreservingCircuitOutput}
    (h : main verify input = .ok output) :
    ∃ state accounts,
      deriveFromOutputs verify input.accountIdentities input.programId input.programOutputs
          = .ok state ∧
        statesOf state = .ok accounts ∧
        accounts.length = input.accountIdentities.length ∧
        output.publicActions = publicActionsOf (input.accountIdentities.zip accounts) ∧
        (output.privateActions.map (·.commitment)).Perm
          (((notesFrom 0 (input.accountIdentities.zip accounts)).map
              fun entry => noteCommitment entry.2) ++
            input.dummyInputs.map fun dummy => (dummyAction dummy).commitment) ∧
        ∀ identity pre post, (identity, pre, post) ∈ input.accountIdentities.zip accounts →
          Respected (callTree verify input.accountIdentities input.programId input.programOutputs)
            identity pre.accountId pre.account (emittedPost identity pre post) := by
  obtain ⟨state, hderive, houtput⟩ := bind_eq_ok.mp h
  obtain ⟨accounts, journal⟩ := computeCircuitOutput_ok houtput
  obtain ⟨hfst, hlookup⟩ := statesOf_ok journal.rebuilt
  have hlength : accounts.length = input.accountIdentities.length := by
    rw [journal.length_eq, ← hfst, length_map]
  refine ⟨state, accounts, hderive, journal.rebuilt, hlength, journal.publicActions,
    journal.commitments, fun identity pre post hmem => ?_⟩
  obtain ⟨position, hat⟩ := mem_iff_getElem?.mp hmem
  obtain ⟨hidentity, haccount⟩ := List.getElem?_zip_eq_some.mp hat
  have hrecorded : state.preStates[position]? = some pre := by
    rw [← hfst, getElem?_map, haccount]
    rfl
  have hnow := hlookup (pre, post) (mem_of_getElem? haccount)
  have hheld := deriveFromOutputs_allHeld hderive position pre post hrecorded hnow
  rw [hidentity] at hheld
  obtain ⟨-, -, -, -, hclaimed⟩ := deriveFromOutputs_ok hderive
  refine respected_of_held hheld fun hopen hstill => ?_
  have hround := forM_eq_ok.mp hclaimed _ (mem_of_getElem? hrecorded)
  simp only [hopen, if_pos, hnow] at hround
  by_contra hne
  exact ensure_eq_ok.mp hround (Ne.symm hne) hstill

end

/-! The private PDA of the sample `Locker`, before anybody has used it, is listed by its program,
which does nothing with it. -/

namespace Untouched

open Locker (account emptyData firstLeaf locker nonceDigest npk seed vpk)
open scoped Locker

/-- The commitment to the account with the new nonce. -/
def commitment : Bytes 32 :=
  ofHex 0xa728e34eb11b75ff739fc6d1e272cd611bd36868e2b208f22d445caa9edbc42a

scoped instance sha : Sha256 := .ofTable
  ((ascii "/LEE/v0.3/Commitment/" ++ replicate 11 0 ++ account.value.toList ++
      replicate 48 0 ++ nonceDigest.toList.take 16 ++ emptyData.toList, commitment) ::
    Locker.table)

def witness : PrivateWitness :=
  { vpk, randomSeed := .replicate 32 3, identifier := 0
    kind := .pda (some (locker, seed)), nullifier := .init npk firstLeaf }

def listed : AccountWithMetadata := ⟨.default, false, account⟩

def programOutputs : List ProgramOutput := [.new locker none [] [listed] [.new .default]]

def verify (programId : ProgramId) (output : ProgramOutput) : Bool :=
  decide (output.selfProgramId = programId ∧ output ∈ programOutputs)

def input : PrivacyPreservingCircuitInput where
  programOutputs := programOutputs
  accountIdentities := [.privateAccount witness]
  programId := locker
  dummyInputs := []

end Untouched

section

open scoped Locker
open Untouched

/-- **An account changes that nobody has claimed.**  The program leaves the account alone, and the
journal commits to it with a new nonce, without an owner. -/
theorem untouched_is_renewed :
    ∃ output state, main verify input = .ok output ∧
      deriveFromOutputs verify input.accountIdentities Locker.locker programOutputs = .ok state ∧
      statesOf state = .ok [(listed, Account.default)] ∧
      listed.account.programOwner = defaultProgramOwner ∧
      emittedPost (.privateAccount witness) listed Account.default ≠ listed.account ∧
      Commitment.new listed.accountId
          (emittedPost (.privateAccount witness) listed Account.default) ∈
        output.privateActions.map (·.commitment) ∧
      ∀ v ∈ callTree verify input.accountIdentities Locker.locker programOutputs,
        ¬Claims (.privateAccount witness) v.entry listed.accountId := by
  obtain ⟨output, h, hcommitments⟩ : ∃ output, main verify input = .ok output ∧
      output.privateActions.map (·.commitment) = [⟨commitment⟩] := by decide +kernel
  obtain ⟨state, hderive, hstates⟩ : ∃ state, deriveFromOutputs verify input.accountIdentities
      Locker.locker programOutputs = .ok state ∧
        statesOf state = .ok [(listed, Account.default)] := by decide +kernel
  refine ⟨output, state, h, hderive, hstates, rfl, by decide +kernel, ?_, ?_⟩
  · rw [hcommitments]
    decide +kernel
  · have hunclaimed : ∀ v ∈ callTree verify input.accountIdentities Locker.locker programOutputs,
        ∀ post ∈ v.result.postStates, post.claim = none := by decide +kernel
    rintro v hv ⟨pre, post, claim, hpair, -, hclaim, -⟩
    rw [hunclaimed v hv post (of_mem_zip hpair).2] at hclaim
    cases hclaim

end

section

open Unshield

/-- The private account of the sample loses balance, so its owner has run in a call that listed
it. -/
theorem unshield_respects_ownership :
    ∃ output state post, main verify input = .ok output ∧
      deriveFromOutputs verify input.accountIdentities bank programOutputs = .ok state ∧
      state.postStates.lookup noteId = some post ∧ post.balance = 2 ∧
      ∃ v ∈ callTree verify input.accountIdentities bank
          programOutputs,
        ofProgramId v.call.1.programId = ofProgramId bank ∧ Mentions v.entry noteId := by
  obtain ⟨output, h⟩ : ∃ output, main verify input = .ok output := by
    decide +kernel
  obtain ⟨state, accounts, hderive, hstates, -, -, -, hrespected⟩ := circuit_respects_ownership h
  -- the first account of the journal
  have heval : ∀ state, deriveFromOutputs verify input.accountIdentities
      bank programOutputs = .ok state →
        ∀ accounts, statesOf state = .ok accounts → accounts.head? =
          some (⟨held 5 ⟨1⟩, true, noteId⟩, held 2 ⟨1⟩) := by
    decide +kernel
  obtain ⟨rest, rfl⟩ : ∃ rest, accounts =
      (⟨held 5 ⟨1⟩, true, noteId⟩, held 2 ⟨1⟩) :: rest :=
    ⟨_, List.eq_cons_of_mem_head? (heval state hderive accounts hstates)⟩
  have hlookup := (statesOf_ok hstates).2 _ mem_cons_self
  refine ⟨output, state, _, h, hderive, hlookup, rfl, ?_⟩
  exact (hrespected _ _ _ mem_cons_self).changed (by decide +kernel) (.inr (by decide +kernel))

end

end Circuit

end Lssa
