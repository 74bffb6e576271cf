/-
Programs as the state machine sees them.

A program is called on a list of accounts and returns a `ProgramOutput`: the
accounts it received, the accounts it leaves, and the further calls it asks for
(`lee/state_machine/core/src/program/mod.rs`).  Programs are arbitrary code, so
an output is arbitrary data; `validateExecution` is what makes it harmless, and
`ValidExecution` is what it establishes: nonces and owners stay, only the owner
lowers a balance, only the owner or a first writer changes data, and the
balances of the accounts add up to the same integer before and after.

* `forPublicPda` — the account a program controls under a seed;
* `ValidityWindow` — the blocks or times an output is valid for;
* `WrappedBalanceSum` — a balance sum in two 128-bit limbs.
-/
import Mathlib.Data.Finset.Card
import Mathlib.Algebra.BigOperators.Group.List.Basic
import Lssa.Library.Outcome
import Lssa.Account

open Borsh Outcome

namespace Lssa

/-- `MAX_NUMBER_CHAINED_CALLS`. -/
def maxNumberChainedCalls : ℕ := 10

abbrev InstructionData := List UInt32

/-! ### Program-derived accounts -/

structure PdaSeed where
  value : Bytes 32
  deriving DecidableEq

/-- `PROGRAM_DERIVED_ACCOUNT_ID_PREFIX`. -/
def programDerivedAccountIdPrefix : List UInt8 :=
  ascii "/LEE/v0.2/AccountId/PDA/" ++ replicate 8 0

/-- The bytes hashed to the id of a public PDA. -/
def publicPdaBytes (programId : ProgramId) (seed : PdaSeed) : List UInt8 :=
  programDerivedAccountIdPrefix ++ programId.toBytes.toList ++ seed.value.toList

/-- `AccountId::for_public_pda`. -/
def forPublicPda [Sha256] (programId : ProgramId) (seed : PdaSeed) : AccountId :=
  ⟨Sha256.hashBytes (publicPdaBytes programId seed)⟩

theorem ProgramId.toBytes_injective : Function.Injective ProgramId.toBytes := by
  intro p q h
  exact ofProgramId_injective (congrArg AccountId.mk h)

theorem publicPdaBytes_injective {p q : ProgramId} {s t : PdaSeed}
    (h : publicPdaBytes p s = publicPdaBytes q t) : p = q ∧ s = t := by
  have hlen : (programDerivedAccountIdPrefix ++ p.toBytes.toList).length
      = (programDerivedAccountIdPrefix ++ q.toBytes.toList).length := by simp
  obtain ⟨hleft, hseed⟩ := append_inj h hlen
  have hprog := List.append_cancel_left hleft
  refine ⟨ProgramId.toBytes_injective (List.Vector.eq _ _ hprog), ?_⟩
  rcases s with ⟨s⟩
  rcases t with ⟨t⟩
  exact congrArg PdaSeed.mk (List.Vector.eq _ _ hseed)

/-- A public PDA with an unambiguous id comes from one program and one seed only. -/
theorem forPublicPda_inj [Sha256] {accountId : AccountId} {p q : ProgramId} {s t : PdaSeed}
    (hsafe : Sha256.Unambiguous accountId.value) (hp : forPublicPda p s = accountId)
    (hq : forPublicPda q t = accountId) : p = q ∧ s = t :=
  publicPdaBytes_injective (hsafe _ _ (congrArg AccountId.value hp) (congrArg AccountId.value hq))

/-! ### Calls and outputs -/

structure ChainedCall where
  programId : ProgramId
  preStates : List AccountWithMetadata
  instructionData : InstructionData
  pdaSeeds : List PdaSeed
  deriving DecidableEq

/-- Who issued a call, and the accounts authorized there. -/
structure CallerData where
  programId : Option ProgramId
  authorizedAccounts : Finset AccountId
  deriving DecidableEq

/-- A request of the executing program to own an account nobody owns. -/
inductive Claim
  | authorized
  | pda (seed : PdaSeed)
  deriving DecidableEq

structure AccountPostState where
  account : Account
  claim : Option Claim
  deriving DecidableEq

/-- `AccountPostState::new`. -/
def AccountPostState.new (account : Account) : AccountPostState := ⟨account, none⟩

/-- `AccountPostState::new_claimed`. -/
def AccountPostState.newClaimed (account : Account) (claim : Claim) : AccountPostState :=
  ⟨account, some claim⟩

/-- `AccountPostState::new_claimed_if_default`. -/
def AccountPostState.newClaimedIfDefault (account : Account) (claim : Claim) : AccountPostState :=
  ⟨account, if account.programOwner = defaultProgramOwner then some claim else none⟩

/-- `[from, to)`, each bound optional. -/
structure ValidityWindow (α : Type) where
  fromBound : Option α
  toBound : Option α
  deriving DecidableEq

/-- `ValidityWindow::new_unbounded`. -/
def ValidityWindow.unbounded {α : Type} : ValidityWindow α := ⟨none, none⟩

/-- `ValidityWindow::is_valid_for`. -/
def ValidityWindow.isValidFor {α : Type} [LE α] [LT α] [DecidableLE α] [DecidableLT α]
    (window : ValidityWindow α) (value : α) : Bool :=
  window.fromBound.all (fun start => decide (start ≤ value)) &&
    window.toBound.all (fun stop => decide (value < stop))

/-- `TryFrom<(Option<T>, Option<T>)>`: an empty window is refused. -/
def ValidityWindow.tryFrom {α : Type} [LE α] [DecidableLE α] (fromBound toBound : Option α) :
    Option (ValidityWindow α) :=
  match fromBound, toBound with
  | some start, some stop => if stop ≤ start then none else some ⟨some start, some stop⟩
  | _, _ => some ⟨fromBound, toBound⟩

/-- The latest start and the earliest end of some windows. -/
def ValidityWindow.intersect {α : Type} [LinearOrder α] (windows : List (ValidityWindow α)) :
    Option (ValidityWindow α) :=
  ValidityWindow.tryFrom (windows.filterMap (·.fromBound)).max? (windows.filterMap (·.toBound)).min?

variable {α : Type} {preStates : List AccountWithMetadata} {executingProgramId : ProgramId}
  {postStates : List AccountPostState}

theorem ValidityWindow.isValidFor_iff [LinearOrder α] {window : ValidityWindow α} {value : α} :
    window.isValidFor value = true ↔
      (∀ start ∈ window.fromBound, start ≤ value) ∧ ∀ stop ∈ window.toBound, value < stop := by
  obtain ⟨fromBound, toBound⟩ := window
  cases fromBound <;> cases toBound <;> simp [isValidFor]

theorem ValidityWindow.max?_le_iff [LinearOrder α] {l : List α} {x : α} :
    (∀ m ∈ l.max?, m ≤ x) ↔ ∀ a ∈ l, a ≤ x := by
  cases hmax : l.max? with
  | none => simp [List.max?_eq_none_iff.mp hmax]
  | some m => simpa using List.max?_le_iff hmax

theorem ValidityWindow.lt_min?_iff [LinearOrder α] {l : List α} {x : α} :
    (∀ m ∈ l.min?, x < m) ↔ ∀ a ∈ l, x < a := by
  cases hmin : l.min? with
  | none => simp [List.min?_eq_none_iff.mp hmin]
  | some m =>
    obtain ⟨hmem, hle⟩ := List.min?_eq_some_iff.mp hmin
    constructor
    · intro h a ha
      exact lt_of_lt_of_le (h m rfl) (hle a ha)
    · rintro h _ ⟨⟩
      exact h m hmem

theorem ValidityWindow.tryFrom_isValidFor [LinearOrder α] {fromBound toBound : Option α}
    {value : α} :
    (∃ window, tryFrom fromBound toBound = some window ∧ window.isValidFor value = true) ↔
      (∀ start ∈ fromBound, start ≤ value) ∧ ∀ stop ∈ toBound, value < stop := by
  have hbounds : (ValidityWindow.mk fromBound toBound).isValidFor value = true ↔
      (∀ start ∈ fromBound, start ≤ value) ∧ ∀ stop ∈ toBound, value < stop := isValidFor_iff
  constructor
  · rintro ⟨window, h, hvalid⟩
    unfold tryFrom at h
    split at h
    · split at h
      · cases h
      · rw [← some.inj h] at hvalid
        exact hbounds.mp hvalid
    · rw [← some.inj h] at hvalid
      exact hbounds.mp hvalid
  · intro h
    refine ⟨⟨fromBound, toBound⟩, ?_, hbounds.mpr h⟩
    unfold tryFrom
    split
    · rename_i start stop
      rw [if_neg]
      exact not_le.mpr (lt_of_le_of_lt (h.1 start rfl) (h.2 stop rfl))
    · rfl

/-- The intersection holds a value iff every window does; then it is not empty. -/
theorem ValidityWindow.intersect_isValidFor [LinearOrder α] {windows : List (ValidityWindow α)}
    {value : α} :
    (∃ window, intersect windows = some window ∧ window.isValidFor value = true) ↔
      ∀ window ∈ windows, window.isValidFor value = true := by
  rw [intersect, tryFrom_isValidFor, max?_le_iff, lt_min?_iff]
  simp only [mem_filterMap, isValidFor_iff]
  constructor
  · rintro ⟨hfrom, hto⟩ window hwindow
    exact ⟨fun start hstart => hfrom start ⟨window, hwindow, hstart⟩,
      fun stop hstop => hto stop ⟨window, hwindow, hstop⟩⟩
  · intro h
    constructor
    · rintro start ⟨window, hwindow, hstart⟩
      exact (h window hwindow).1 start hstart
    · rintro stop ⟨window, hwindow, hstop⟩
      exact (h window hwindow).2 stop hstop

/-- Windows that are accepted together share a value, unless none of them has a start and one ends
at the least value: only a window with both bounds is checked for being empty. -/
theorem ValidityWindow.intersect_nonempty [LinearOrder α] [OrderBot α]
    {windows : List (ValidityWindow α)} {shared : ValidityWindow α}
    (h : intersect windows = some shared) :
    (∃ value, ∀ window ∈ windows, window.isValidFor value = true) ↔
      (∃ window ∈ windows, window.fromBound ≠ none) ∨
        ∀ window ∈ windows, window.toBound ≠ some ⊥ := by
  constructor
  · rintro ⟨value, hvalue⟩
    refine .inr fun window hwindow hto => ?_
    exact not_lt_bot ((isValidFor_iff.mp (hvalue window hwindow)).2 ⊥ hto)
  · intro hbounds
    suffices hshared : ∃ value, shared.isValidFor value = true by
      obtain ⟨value, hvalue⟩ := hshared
      exact ⟨value, intersect_isValidFor.mp ⟨shared, h, hvalue⟩⟩
    unfold intersect tryFrom at h
    split at h
    · rename_i start stop _ _
      split_ifs at h with hle
      rw [← some.inj h]
      exact ⟨start, by simpa [isValidFor] using hle⟩
    · rename_i hopen
      rw [← some.inj h]
      cases hfrom : (windows.filterMap (·.fromBound)).max? with
      | some start =>
        refine ⟨start, isValidFor_iff.mpr ⟨fun _ hmem => (some.inj hmem).ge, fun stop hstop => ?_⟩⟩
        exact (hopen start stop hfrom hstop).elim
      | none =>
        refine ⟨⊥, isValidFor_iff.mpr ⟨fun _ => nofun, fun stop hstop => ?_⟩⟩
        obtain ⟨window, hwindow, hto⟩ := mem_filterMap.mp (List.min?_mem hstop)
        rw [bot_lt_iff_ne_bot]
        rintro rfl
        rw [List.max?_eq_none_iff, List.filterMap_eq_nil_iff] at hfrom
        rcases hbounds with ⟨start, hmem, hstart⟩ | hends
        · exact hstart (hfrom start hmem)
        · exact hends window hwindow hto

structure ProgramOutput where
  selfProgramId : ProgramId
  callerProgramId : Option ProgramId
  instructionData : InstructionData
  preStates : List AccountWithMetadata
  postStates : List AccountPostState
  chainedCalls : List ChainedCall
  blockValidityWindow : ValidityWindow BlockId
  timestampValidityWindow : ValidityWindow Timestamp
  deriving DecidableEq

/-- `ProgramOutput::new`: no further calls, valid at any time. -/
def ProgramOutput.new (selfProgramId : ProgramId) (callerProgramId : Option ProgramId)
    (instructionData : InstructionData) (preStates : List AccountWithMetadata)
    (postStates : List AccountPostState) : ProgramOutput :=
  { selfProgramId, callerProgramId, instructionData, preStates, postStates,
    chainedCalls := [], blockValidityWindow := .unbounded,
    timestampValidityWindow := .unbounded }

/-- `compute_public_authorized_pdas`. -/
def computePublicAuthorizedPdas [Sha256] (callerProgramId : Option ProgramId)
    (pdaSeeds : List PdaSeed) : Finset AccountId :=
  match callerProgramId with
  | none => ∅
  | some caller => (pdaSeeds.map (forPublicPda caller)).toFinset

/-! ### Balance sums -/

/-- `lo + hi * 2^128`. -/
structure WrappedBalanceSum where
  lo : U128
  hi : U128
  deriving DecidableEq

namespace WrappedBalanceSum

def value (sum : WrappedBalanceSum) : ℕ := sum.lo.val + sum.hi.val * 2 ^ 128

/-- One round of `from_balances`: add to the low limb, carry into the high one. -/
def addBalance (sum : WrappedBalanceSum) (balance : Balance) : Option WrappedBalanceSum :=
  let newSum := sum.lo + balance
  if 2 ^ 128 ≤ sum.lo.val + balance.val then
    if h : sum.hi.val + 1 < 2 ^ 128 then some ⟨newSum, ⟨sum.hi.val + 1, h⟩⟩ else none
  else some ⟨newSum, sum.hi⟩

/-- `WrappedBalanceSum::from_balances`. -/
def fromBalances (balances : List Balance) : Option WrappedBalanceSum :=
  balances.foldlM addBalance ⟨0, 0⟩

theorem value_addBalance {sum sum' : WrappedBalanceSum} {balance : Balance}
    (h : sum.addBalance balance = some sum') : sum'.value = sum.value + balance.val := by
  have hlo := sum.lo.isLt
  have hb := balance.isLt
  unfold addBalance at h
  split at h
  · split at h
    · rw [some_inj] at h
      subst h
      simp only [value, Fin.val_add]
      omega
    · cases h
  · rw [some_inj] at h
    subst h
    simp only [value, Fin.val_add]
    omega

/-- The sum computed is the exact integer sum. -/
theorem value_fromBalances {balances : List Balance} {sum : WrappedBalanceSum}
    (h : fromBalances balances = some sum) : sum.value = (balances.map Fin.val).sum := by
  have hgen : ∀ (l : List Balance) (start : WrappedBalanceSum),
      l.foldlM addBalance start = some sum → sum.value = start.value + (l.map Fin.val).sum := by
    intro l
    induction l with
    | nil =>
      intro start hstart
      have : start = sum := by simpa using hstart
      simp [this]
    | cons b l ih =>
      intro start hstart
      rw [foldlM_cons] at hstart
      obtain ⟨mid, hmid, hrest⟩ := bind_eq_some_iff.mp hstart
      rw [ih mid hrest, value_addBalance hmid, map_cons, List.sum_cons, add_assoc]
  simpa [value] using hgen balances ⟨0, 0⟩ h

theorem value_injective : Function.Injective value := by
  rintro ⟨lo, hi⟩ ⟨lo', hi'⟩ h
  have hlt := lo.isLt
  have hlt' := lo'.isLt
  simp only [value] at h
  have hlo : lo = lo' := Fin.ext (by omega)
  have hhi : hi = hi' := Fin.ext (by omega)
  rw [hlo, hhi]

/-- The sum of no more than 2^128 balances fits. -/
theorem fromBalances_isSome {balances : List Balance} (h : balances.length < 2 ^ 128) :
    ∃ sum, fromBalances balances = some sum := by
  -- every balance carries at most once
  have hgen : ∀ (l : List Balance) (start : WrappedBalanceSum),
      start.hi.val + l.length < 2 ^ 128 → ∃ sum, l.foldlM addBalance start = some sum := by
    intro l
    induction l with
    | nil => exact fun start _ => ⟨start, rfl⟩
    | cons balance l ih =>
      intro start hstart
      rw [length_cons] at hstart
      have hnext : ∃ next, start.addBalance balance = some next ∧
          next.hi.val + l.length < 2 ^ 128 := by
        unfold addBalance
        split
        · have hcarry : start.hi.val + 1 < 2 ^ 128 := by omega
          rw [dif_pos hcarry]
          refine ⟨_, rfl, ?_⟩
          show start.hi.val + 1 + l.length < 2 ^ 128
          omega
        · refine ⟨_, rfl, ?_⟩
          show start.hi.val + l.length < 2 ^ 128
          omega
      obtain ⟨next, hadd, hfits⟩ := hnext
      rw [foldlM_cons, hadd]
      exact ih next hfits
  refine hgen balances ⟨0, 0⟩ ?_
  show 0 + balances.length < 2 ^ 128
  omega

end WrappedBalanceSum

/-! ### Well-behaved executions -/

inductive ExecutionValidationError
  | preStateAccountIdsNotUnique
  | mismatchedPreStatePostStateLength (preStateLength postStateLength : ℕ)
  | modifiedNonce (accountId : AccountId)
  | modifiedProgramOwner (accountId : AccountId)
  | unauthorizedBalanceDecrease (accountId ownerAccountId : AccountId)
      (executingProgramId : ProgramId)
  | unauthorizedDataModification (accountId : AccountId) (executingProgramId : ProgramId)
  | nonDefaultAccountWithDefaultOwner (accountId : AccountId)
  | balanceSumOverflow
  | mismatchedTotalBalance (totalBalancePreStates totalBalancePostStates : WrappedBalanceSum)
  deriving DecidableEq

/-- `validate_uniqueness_of_account_ids`. -/
def validateUniquenessOfAccountIds (preStates : List AccountWithMetadata) : Bool :=
  preStates.length = (preStates.map (·.accountId)).toFinset.card

theorem validateUniquenessOfAccountIds_iff :
    validateUniquenessOfAccountIds preStates = true ↔ (preStates.map (·.accountId)).Nodup := by
  have hlen : preStates.length = (preStates.map (·.accountId)).length :=
    length_map _ |>.symm
  rw [validateUniquenessOfAccountIds, decide_eq_true_eq, List.card_toFinset, hlen]
  constructor
  · intro h
    have hsub := List.dedup_sublist (preStates.map (·.accountId))
    rw [← hsub.eq_of_length h.symm]
    exact List.nodup_dedup _
  · intro h
    rw [h.dedup]

/-- Rules 3 to 7 of `validate_execution`, for one account. -/
def validateAccount (executingProgramId : ProgramId) (pre : AccountWithMetadata)
    (post : AccountPostState) : Except ExecutionValidationError Unit := do
  let executingAccountId := ofProgramId executingProgramId
  -- 3. the nonce stays
  ensure (pre.account.nonce = post.account.nonce) (.modifiedNonce pre.accountId)
  -- 4. the owner stays
  ensure (pre.account.programOwner = post.account.programOwner)
    (.modifiedProgramOwner pre.accountId)
  -- 5. only the owner lowers the balance
  ensure (¬(post.account.balance < pre.account.balance ∧
      pre.account.programOwner ≠ executingAccountId))
    (.unauthorizedBalanceDecrease pre.accountId pre.account.programOwner executingProgramId)
  -- 6. only the owner changes the data, unless the account is still at its default
  ensure (¬(pre.account.data ≠ post.account.data ∧ pre.account ≠ .default ∧
      pre.account.programOwner ≠ executingAccountId))
    (.unauthorizedDataModification pre.accountId executingProgramId)
  -- 7. an account without an owner was at its default
  ensure (¬(post.account.programOwner = defaultProgramOwner ∧ pre.account ≠ .default))
    (.nonDefaultAccountWithDefaultOwner pre.accountId)

/-- `validate_execution`. -/
def validateExecution (preStates : List AccountWithMetadata) (postStates : List AccountPostState)
    (executingProgramId : ProgramId) : Except ExecutionValidationError Unit := do
  -- 1. the account ids are all different
  ensure (validateUniquenessOfAccountIds preStates) .preStateAccountIdsNotUnique
  -- 2. the lengths match
  ensure (preStates.length = postStates.length)
    (.mismatchedPreStatePostStateLength preStates.length postStates.length)
  (preStates.zip postStates).forM fun pair => validateAccount executingProgramId pair.1 pair.2
  -- 8. the total balance is preserved
  match WrappedBalanceSum.fromBalances (preStates.map (·.account.balance)) with
  | none => throw .balanceSumOverflow
  | some totalBalancePreStates =>
    match WrappedBalanceSum.fromBalances (postStates.map (·.account.balance)) with
    | none => throw .balanceSumOverflow
    | some totalBalancePostStates =>
      ensure (totalBalancePreStates = totalBalancePostStates)
        (.mismatchedTotalBalance totalBalancePreStates totalBalancePostStates)

/-- What a program may do to one account. -/
structure ValidAccount (executingProgramId : ProgramId) (pre post : Account) : Prop where
  nonce : post.nonce = pre.nonce
  programOwner : post.programOwner = pre.programOwner
  balance : post.balance < pre.balance → pre.programOwner = ofProgramId executingProgramId
  data : post.data ≠ pre.data → pre = .default ∨ pre.programOwner = ofProgramId executingProgramId
  unowned : pre.programOwner = defaultProgramOwner → pre = .default

/-- What a program may do to the accounts it is called on. -/
structure ValidExecution (preStates : List AccountWithMetadata)
    (postStates : List AccountPostState) (executingProgramId : ProgramId) : Prop where
  nodup : (preStates.map (·.accountId)).Nodup
  length_eq : preStates.length = postStates.length
  account : ∀ pair ∈ preStates.zip postStates,
    ValidAccount executingProgramId pair.1.account pair.2.account
  balance_eq : (preStates.map fun pre => pre.account.balance.val).sum
    = (postStates.map fun post => post.account.balance.val).sum

namespace ValidExecution

variable {preStates : List AccountWithMetadata} {postStates : List AccountPostState}
  {executingProgramId : ProgramId}

section

variable (h : ValidExecution preStates postStates executingProgramId)

include h

theorem map_fst_zip :
    (preStates.zip postStates).map Prod.fst = preStates :=
  List.map_fst_zip h.length_eq.le

theorem map_snd_zip :
    (preStates.zip postStates).map Prod.snd = postStates :=
  List.map_snd_zip h.length_eq.ge

/-- Every account listed has a post-state. -/
theorem exists_post {pre : AccountWithMetadata} (hpre : pre ∈ preStates) :
    ∃ post, (pre, post) ∈ preStates.zip postStates := by
  rw [← h.map_fst_zip] at hpre
  obtain ⟨⟨_, post⟩, hpair, rfl⟩ := mem_map.mp hpre
  exact ⟨post, hpair⟩

end

end ValidExecution

theorem validateAccount_ok {pre : AccountWithMetadata} {post : AccountPostState}
    (h : validateAccount executingProgramId pre post = .ok ()) :
    ValidAccount executingProgramId pre.account post.account := by
  unfold validateAccount at h
  obtain ⟨hnonce, h⟩ := ensure_bind_eq_ok.mp h
  obtain ⟨howner, h⟩ := ensure_bind_eq_ok.mp h
  obtain ⟨hbalance, h⟩ := ensure_bind_eq_ok.mp h
  obtain ⟨hdata, h⟩ := ensure_bind_eq_ok.mp h
  have hunowned := ensure_eq_ok.mp h
  refine ⟨hnonce.symm, howner.symm, ?_, ?_, ?_⟩
  · intro hlt
    by_contra hne
    exact hbalance ⟨hlt, hne⟩
  · intro hne
    by_contra hcon
    rw [not_or] at hcon
    exact hdata ⟨fun heq => hne heq.symm, hcon.1, hcon.2⟩
  · intro hdefault
    by_contra hne
    exact hunowned ⟨howner ▸ hdefault, hne⟩

/-- **What `validate_execution` establishes.** -/
theorem validateExecution_ok
    (h : validateExecution preStates postStates executingProgramId = .ok ()) :
    ValidExecution preStates postStates executingProgramId := by
  unfold validateExecution at h
  obtain ⟨huniq, h⟩ := ensure_bind_eq_ok.mp h
  obtain ⟨hlen, h⟩ := ensure_bind_eq_ok.mp h
  obtain ⟨_, hloop, h⟩ := bind_eq_ok.mp h
  refine ⟨validateUniquenessOfAccountIds_iff.mp huniq, hlen, ?_, ?_⟩
  · intro pair hpair
    exact validateAccount_ok (forM_eq_ok.mp hloop pair hpair)
  · split at h
    · exact absurd h (by simp [throw, throwThe, MonadExceptOf.throw])
    · rename_i hpre
      split at h
      · exact absurd h (by simp [throw, throwThe, MonadExceptOf.throw])
      · rename_i hpost
        have heq := ensure_eq_ok.mp h
        have hvpre := WrappedBalanceSum.value_fromBalances hpre
        have hvpost := WrappedBalanceSum.value_fromBalances hpost
        rw [map_map] at hvpre hvpost
        rw [heq] at hvpre
        exact hvpre.symm.trans hvpost

theorem validateAccount_of_valid {pre : AccountWithMetadata} {post : AccountPostState}
    (h : ValidAccount executingProgramId pre.account post.account) :
    validateAccount executingProgramId pre post = .ok () := by
  refine ensure_bind_eq_ok.mpr ⟨h.nonce.symm, ?_⟩
  refine ensure_bind_eq_ok.mpr ⟨h.programOwner.symm, ?_⟩
  refine ensure_bind_eq_ok.mpr ⟨fun ⟨hlt, hne⟩ => hne (h.balance hlt), ?_⟩
  refine ensure_bind_eq_ok.mpr ⟨fun ⟨hdata, hdefault, hne⟩ => ?_, ?_⟩
  · rcases h.data (fun heq => hdata heq.symm) with heq | heq
    · exact hdefault heq
    · exact hne heq
  · refine ensure_eq_ok.mpr fun ⟨hunowned, hne⟩ => hne (h.unowned ?_)
    rw [← h.programOwner, hunowned]

/-- The rules are all that is checked. -/
theorem validateExecution_of_valid (h : ValidExecution preStates postStates executingProgramId)
    (hlength : preStates.length < 2 ^ 128) :
    validateExecution preStates postStates executingProgramId = .ok () := by
  unfold validateExecution
  refine ensure_bind_eq_ok.mpr ⟨validateUniquenessOfAccountIds_iff.mpr h.nodup, ?_⟩
  refine ensure_bind_eq_ok.mpr ⟨h.length_eq, ?_⟩
  refine bind_eq_ok.mpr ⟨(), forM_eq_ok.mpr fun pair hpair =>
    validateAccount_of_valid (h.account pair hpair), ?_⟩
  have hpreLength : (preStates.map (·.account.balance)).length < 2 ^ 128 := by
    rw [length_map]
    exact hlength
  have hpostLength : (postStates.map (·.account.balance)).length < 2 ^ 128 := by
    rw [length_map, ← h.length_eq]
    exact hlength
  obtain ⟨totalPre, hpre⟩ := WrappedBalanceSum.fromBalances_isSome hpreLength
  obtain ⟨totalPost, hpost⟩ := WrappedBalanceSum.fromBalances_isSome hpostLength
  have hvpre := WrappedBalanceSum.value_fromBalances hpre
  have hvpost := WrappedBalanceSum.value_fromBalances hpost
  rw [map_map] at hvpre hvpost
  have hsame : totalPre = totalPost :=
    WrappedBalanceSum.value_injective (hvpre.trans (h.balance_eq.trans hvpost.symm))
  simp only [hpre, hpost]
  exact ensure_eq_ok.mpr hsame

end Lssa
