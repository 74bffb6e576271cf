/-
Call trees and the authority that flows down them.

Both interpreters, the public one and the circuit, walk the same kind of tree: an
output asks for further calls (`nextCalls`), each of which may treat as authorized
what was authorized for its issuer (`authorizedBelow`) and the PDAs whose seeds the
issuer passes along.  A program learns from the flag `isAuthorized` whether an account
may be spent, and callers are arbitrary, so a flag has to be traced back.

`DelegatedOn` follows the path from a call to the root and finds the edge where a
program passed down a seed of its own.  `Honest` is what an interpreter must check of
every output; it is enough for every flag to come from outside the tree or from such
an edge (`flagged_traced`).
-/
import Lssa.Library.DepthFirst
import Lssa.Program

open DepthFirst

namespace Lssa

/-- A call with the data of its issuer, as it stands on the work list. -/
abbrev Call := ChainedCall × CallerData

/-- A call with its output. -/
abbrev Entry := Call × ProgramOutput

/-- The accounts authorized below a call: those authorized where it was issued,
and those its output flags. -/
def authorizedBelow (caller : CallerData) (output : ProgramOutput) : Finset AccountId :=
  caller.authorizedAccounts ∪
    ((output.preStates.filter (·.isAuthorized)).map (·.accountId)).toFinset

variable {accountId : AccountId} {derives : ProgramId → PdaSeed → Prop}

theorem mem_authorizedBelow {caller : CallerData} {output : ProgramOutput} :
    accountId ∈ authorizedBelow caller output ↔
      accountId ∈ caller.authorizedAccounts ∨
        ∃ pre ∈ output.preStates, pre.accountId = accountId ∧ pre.isAuthorized = true := by
  rw [authorizedBelow, Finset.mem_union, mem_toFinset, mem_map]
  refine or_congr_right (exists_congr fun pre => ?_)
  rw [List.mem_filter, and_assoc, and_comm (a := pre.isAuthorized = true)]

/-- The calls an output asks for, as they enter the work list. -/
def nextCalls (call : Call) (output : ProgramOutput) : List Call :=
  output.chainedCalls.map fun newCall =>
    (newCall, ⟨some call.1.programId, authorizedBelow call.2 output⟩)

/-- The output lists the account. -/
def Mentions (entry : Entry) (accountId : AccountId) : Prop :=
  ∃ pre ∈ entry.2.preStates, pre.accountId = accountId

/-- The output lists the account as authorized. -/
def Flags (entry : Entry) (accountId : AccountId) : Prop :=
  ∃ pre ∈ entry.2.preStates, pre.accountId = accountId ∧ pre.isAuthorized = true

instance (entry : Entry) (accountId : AccountId) : Decidable (Mentions entry accountId) :=
  inferInstanceAs (Decidable (∃ pre ∈ _, _))

instance (entry : Entry) (accountId : AccountId) : Decidable (Flags entry accountId) :=
  inferInstanceAs (Decidable (∃ pre ∈ _, _))

/-! ### Delegation along a path -/

/-- The call passes a seed that derives the account in question under its issuer. -/
def Seeded (derives : ProgramId → PdaSeed → Prop) (call : Call) : Prop :=
  ∃ issuer, call.2.programId = some issuer ∧ ∃ seed ∈ call.1.pdaSeeds, derives issuer seed

/-- The issuer's seed derives the account as a public PDA. -/
def DerivesPublic [Sha256] (accountId : AccountId) (issuer : ProgramId) (seed : PdaSeed) : Prop :=
  forPublicPda issuer seed = accountId

instance [Sha256] (accountId : AccountId) : DecidableRel (DerivesPublic accountId) :=
  fun _ _ => inferInstanceAs (Decidable (_ = _))

/-- `parent` ran, and its output issued `callee` with a seed of its own that derives the
account in question. -/
def Delegates (ran : Entry → Prop) (derives : ProgramId → PdaSeed → Prop)
    (callee parent : Entry) : Prop :=
  ran parent ∧ callee.1.1 ∈ parent.2.chainedCalls ∧
    ∃ seed ∈ callee.1.1.pdaSeeds, derives parent.1.1.programId seed

/-- On the path from a call (first) up to the root, some edge delegates the account to a
callee that lists it as authorized, and `between` holds of every call below that
callee. -/
def DelegatedOn (ran : Entry → Prop) (derives : ProgramId → PdaSeed → Prop)
    (between : Entry → Prop) (accountId : AccountId) : List Entry → Prop
  | callee :: parent :: above =>
    (Delegates ran derives callee parent ∧ Flags callee accountId) ∨
      (between callee ∧ DelegatedOn ran derives between accountId (parent :: above))
  | _ => False

instance (ran : Entry → Prop) (derives : ProgramId → PdaSeed → Prop) [DecidablePred ran]
    [DecidableRel derives] (callee parent : Entry) :
    Decidable (Delegates ran derives callee parent) :=
  inferInstanceAs (Decidable (_ ∧ _ ∧ ∃ seed ∈ _, _))

instance decidableDelegatedOn (ran : Entry → Prop) (derives : ProgramId → PdaSeed → Prop)
    (between : Entry → Prop) [DecidablePred ran] [DecidableRel derives] [DecidablePred between]
    (accountId : AccountId) : ∀ path, Decidable (DelegatedOn ran derives between accountId path)
  | [] => .isFalse id
  | [_] => .isFalse id
  | _ :: parent :: above =>
    have := decidableDelegatedOn ran derives between accountId (parent :: above)
    inferInstanceAs (Decidable ((_ ∧ _) ∨ (_ ∧ _)))

/-- Calls between a delegation and a call below it list the account as authorized, if
they list it. -/
abbrev DelegatedTo (ran : Entry → Prop) (derives : ProgramId → PdaSeed → Prop)
    (accountId : AccountId) : List Entry → Prop :=
  DelegatedOn ran derives (fun entry => Mentions entry accountId → Flags entry accountId) accountId

theorem DelegatedOn.mono {ran : Entry → Prop} {derives' : ProgramId → PdaSeed → Prop}
    {between : Entry → Prop} {path : List Entry}
    (hderives : ∀ issuer seed, derives issuer seed → derives' issuer seed)
    (h : DelegatedOn ran derives between accountId path) :
    DelegatedOn ran derives' between accountId path := by
  induction path with
  | nil => exact h
  | cons callee path ih =>
    rcases path with _ | ⟨parent, above⟩
    · exact h
    rcases h with ⟨⟨hran, hissued, seed, hseed, hpda⟩, hflags⟩ | ⟨hbetween, habove⟩
    · exact .inl ⟨⟨hran, hissued, seed, hseed, hderives _ _ hpda⟩, hflags⟩
    · exact .inr ⟨hbetween, ih habove⟩

theorem DelegatedOn.exists_derives {ran : Entry → Prop} {between : Entry → Prop} {path : List Entry}
    (h : DelegatedOn ran derives between accountId path) : ∃ issuer seed, derives issuer seed := by
  induction path with
  | nil => exact absurd h id
  | cons callee path ih =>
    rcases path with _ | ⟨parent, above⟩
    · exact absurd h id
    rcases h with ⟨⟨-, -, seed, -, hpda⟩, -⟩ | ⟨-, habove⟩
    · exact ⟨_, seed, hpda⟩
    · exact ih habove

/-- What an interpreter checks of the flags of an output, `base` being the accounts that
are authorized from outside the tree. -/
structure Honest (ran : Entry → Prop) (derives : AccountId → ProgramId → PdaSeed → Prop)
    (base : AccountId → Prop) (entry : Entry) : Prop where
  ran : ran entry
  sources : ∀ accountId, Flags entry accountId → base accountId ∨
    accountId ∈ entry.1.2.authorizedAccounts ∨ Seeded (derives accountId) entry.1
  inherits : ∀ accountId ∈ entry.1.2.authorizedAccounts,
    Mentions entry accountId → Flags entry accountId

/-- What is known of a call on the work list: who issued it, and where the accounts
authorized for its issuer come from. -/
structure Traced (ran : Entry → Prop) (derives : AccountId → ProgramId → PdaSeed → Prop)
    (base : AccountId → Prop) (call : Call) (path : List Entry) : Prop where
  issued : ∀ issuer, call.2.programId = some issuer → ∃ parent above, path = parent :: above ∧
    parent.1.1.programId = issuer ∧ ran parent ∧ call.1 ∈ parent.2.chainedCalls
  authorized : ∀ accountId ∈ call.2.authorizedAccounts,
    base accountId ∨ DelegatedTo ran (derives accountId) accountId path

variable {ran : Entry → Prop} {derives : AccountId → ProgramId → PdaSeed → Prop}
  {base : AccountId → Prop} {call : Call} {path : List Entry} {output : ProgramOutput}

section

variable (htraced : Traced ran derives base call path)
  (hhonest : Honest ran derives base (call, output))

include htraced hhonest

/-- An account authorized for the issuer of a call is still traced at the call. -/
theorem inherited_traced (hmem : accountId ∈ call.2.authorizedAccounts) :
    base accountId ∨ DelegatedTo ran (derives accountId) accountId ((call, output) :: path) := by
  refine (htraced.authorized accountId hmem).imp_right fun hdelegated => ?_
  rcases path with _ | ⟨parent, above⟩
  · exact absurd hdelegated (by simp [DelegatedOn])
  · exact .inr ⟨hhonest.inherits accountId hmem, hdelegated⟩

/-- **Flags are traced.**  An account that an output flags is authorized from outside the
tree, or was delegated on the way to the call. -/
theorem flagged_traced (hflag : Flags (call, output) accountId) :
    base accountId ∨ DelegatedTo ran (derives accountId) accountId ((call, output) :: path) := by
  rcases hhonest.sources accountId hflag with hbase | hmem | ⟨issuer, hissuer, seed, hseed, hpda⟩
  · exact .inl hbase
  · exact inherited_traced htraced hhonest hmem
  · obtain ⟨parent, above, rfl, rfl, hran, hissued⟩ := htraced.issued issuer hissuer
    exact .inr (.inl ⟨⟨hran, hissued, seed, hseed, hpda⟩, hflag⟩)

/-- The calls an honest output asks for are traced. -/
theorem traced_nextCalls :
    ∀ next ∈ nextCalls call output, Traced ran derives base next ((call, output) :: path) := by
  intro next hnext
  obtain ⟨newCall, hnew, rfl⟩ := mem_map.mp hnext
  refine ⟨fun issuer hissuer => ?_, fun accountId hmem => ?_⟩
  · exact ⟨(call, output), path, rfl, some.inj hissuer, hhonest.ran, hnew⟩
  · rcases mem_authorizedBelow.mp hmem with hinherited | hflag
    · exact inherited_traced htraced hhonest hinherited
    · exact flagged_traced htraced hhonest hflag

end

/-- Nobody issued the call at the root. -/
theorem traced_root (hroot : call.2.programId = none)
    (hbase : ∀ accountId ∈ call.2.authorizedAccounts, base accountId) :
    Traced ran derives base call [] := by
  refine ⟨fun issuer hissuer => ?_, fun accountId hmem => .inl (hbase accountId hmem)⟩
  exact absurd hissuer (by rw [hroot]; simp)

end Lssa
