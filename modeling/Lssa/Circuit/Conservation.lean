/-
Privacy-preserving transactions conserve balance.

The circuit checks that each call keeps the sum of the balances it lists.  An account
can be listed by many calls, public and private ones mixed, and what the verifier sees
in the end is neither a list of accounts nor in their order.

* `preTotal`, `postTotal` — the balances recorded as accounts are first seen, and the
  balances the walk has reached;
* `syncAccounts_totals` — what one output adds to either;
* `circuit_conserves_balance` — the two agree at the end, and the journal shows or hides
  exactly the accounts they add up.
-/
import Lssa.Circuit.Walk
import Lssa.Circuit.Output
import Lssa.State

open Outcome DepthFirst
open List (sum_cons)

namespace Lssa

namespace Circuit

section

variable [Sha256] {accountIdentities : List InputAccountIdentity} {call : Call}
  {state state' : ExecutionState}

/-! ### The totals of the walk -/

def preTotal (state : ExecutionState) : ℕ :=
  (state.preStates.map (·.account.balance.val)).sum

def postTotal (state : ExecutionState) : ℕ :=
  Ledger.total (·.balance.val) state.postStates

/-- Syncing an account moves it from the balance it was seen with to the one it is left
with. -/
theorem Synced.totals {pre : AccountWithMetadata} {post : AccountPostState}
    (h : Synced accountIdentities call state pre post state') :
    postTotal state' + preTotal state + pre.account.balance.val
      = postTotal state + preTotal state' + post.account.balance.val := by
  obtain ⟨position, hsighting⟩ := h.sighting
  obtain ⟨account, hpost, hclaim⟩ := h.claim
  -- a claim changes the owner only
  have hbalance : account.balance = post.account.balance := by
    rcases hclaim with ⟨-, rfl⟩ | ⟨_, _, _, -, -, -, -, -, rfl⟩
    · rfl
    · rfl
  have hinsert : postTotal state'
      + (Ledger.get Account.default state.postStates pre.accountId).balance.val
      = postTotal state + post.account.balance.val := by
    rw [postTotal, postTotal, hpost, ← hbalance]
    exact Ledger.total_insert (f := fun account : Account => account.balance.val) rfl _ _ _
  rcases hsighting.preStates_cases with ⟨hlook, -, hpre⟩ | ⟨hlook, -, recorded, hpre, -, hrecorded⟩
  · have hget : Ledger.get Account.default state.postStates pre.accountId = pre.account := by
      rw [Ledger.get, hlook, getD_some]
    have hsame : preTotal state' = preTotal state := by rw [preTotal, hpre, preTotal]
    rw [hget] at hinsert
    omega
  · have hget : Ledger.get Account.default state.postStates pre.accountId = .default := by
      rw [Ledger.get, hlook, getD_none]
    have hnew : preTotal state' = preTotal state + pre.account.balance.val := by
      rw [preTotal, hpre, map_append, List.sum_append, map_singleton,
        List.sum_singleton, hrecorded, preTotal]
    have hzero : Account.default.balance.val = 0 := rfl
    rw [hget, hzero] at hinsert
    omega

theorem syncAccounts_totals {pairs : List (AccountWithMetadata × AccountPostState)}
    (h : pairs.foldlM (syncAccount accountIdentities call) state = .ok state') :
    postTotal state' + preTotal state + (pairs.map fun pair => pair.1.account.balance.val).sum
      = postTotal state + preTotal state'
        + (pairs.map fun pair => pair.2.account.balance.val).sum := by
  induction pairs generalizing state with
  | nil =>
    have hsame : state = state' := by simpa [pure, Except.pure] using h
    subst hsame
    rfl
  | cons pair pairs ih =>
    obtain ⟨mid, hmid, hrest⟩ := foldlM_cons_eq_ok.mp h
    have hfirst := (syncAccount_ok hmid).totals
    have hothers := ih hrest
    simp only [map_cons, sum_cons]
    omega

variable {verify : ProgramId → ProgramOutput → Bool}

/-- A call changes the balances reached as it changes the balances recorded. -/
theorem Step.totals {progress progress' : Progress} {output : ProgramOutput}
    (h : Step verify accountIdentities progress call output progress')
    (hbefore : postTotal progress.1 = preTotal progress.1) :
    postTotal progress'.1 = preTotal progress'.1 := by
  have hvalid := validateExecution_ok h.valid
  have htotals := syncAccounts_totals h.synced
  have hpre : ((output.preStates.zip output.postStates).map
      fun pair => pair.1.account.balance.val).sum
      = (output.preStates.map fun pre => pre.account.balance.val).sum := by
    conv_rhs => rw [← hvalid.map_fst_zip, map_map]
    rfl
  have hpost : ((output.preStates.zip output.postStates).map
      fun pair => pair.2.account.balance.val).sum
      = (output.postStates.map fun post => post.account.balance.val).sum := by
    conv_rhs => rw [← hvalid.map_snd_zip, map_map]
    rfl
  rw [hpre, hpost, hvalid.balance_eq] at htotals
  omega

/-! ### The totals of the journal -/

omit [Sha256] in
theorem statesOf_totals {states : List (AccountWithMetadata × Account)}
    (hwf : WellFormed state) (h : statesOf state = .ok states) :
    (states.map fun account => account.1.account.balance.val).sum = preTotal state ∧
      (states.map fun account => account.2.balance.val).sum = postTotal state := by
  obtain ⟨hfst, hlook⟩ := statesOf_ok h
  constructor
  · rw [preTotal, ← hfst, map_map]
    rfl
  · rw [postTotal, Ledger.total_eq_sum_of_keys _ Account.default hwf.nodup hwf.mem_iff, ← hfst,
      map_map, map_map]
    congr 1
    refine map_congr_left fun account haccount => ?_
    simp [Ledger.get, hlook account haccount]

omit [Sha256] in
/-- Every account is shown or hidden, once. -/
theorem sum_shown_add_sum_hidden (f : AccountWithMetadata → Account → ℕ) (position : ℕ)
    {identities : List InputAccountIdentity} {accounts : List (AccountWithMetadata × Account)}
    (hlen : accounts.length ≤ identities.length) :
    ((publicActionsOf (identities.zip accounts)).map fun action => f action.pre action.post).sum
        + ((notesFrom position (identities.zip accounts)).map
            fun entry => f entry.2.pre entry.2.post).sum
      = (accounts.map fun account => f account.1 account.2).sum := by
  induction accounts generalizing position identities with
  | nil => rw [List.zip_nil_right]; rfl
  | cons account accounts ih =>
    rcases identities with _ | ⟨identity, identities⟩
    · cases hlen
    have hrest := ih (position + 1) (Nat.le_of_succ_le_succ hlen)
    cases identity with
    | publicAccount =>
      simp only [zip_cons_cons, publicActionsOf, notesFrom, map_cons, sum_cons]
      omega
    | privateAccount witness =>
      simp only [zip_cons_cons, publicActionsOf, notesFrom, map_cons, sum_cons]
      omega

/-- What a private account brings into a transaction: nothing, if it is created there. -/
def Note.spent (note : Note) : ℕ :=
  match note.witness.nullifier with
  | .init _ _ => 0
  | .update _ _ _ => note.pre.account.balance.val

theorem CheckedNote.spent_eq {note : Note} (h : CheckedNote note) :
    note.spent = note.pre.account.balance.val := by
  have hinit := h.init
  unfold checkInit at hinit
  unfold Note.spent
  split
  · rename_i hwitness
    rw [hwitness] at hinit
    rw [ensure_eq_ok.mp hinit]
    rfl
  · rfl

/-! ### Conservation -/

variable [MlKem] [ChaCha20]

/-- **Privacy-preserving transactions conserve balance.**  The public accounts before and
the private accounts whose update nullifiers the journal emits hold as much as the public
accounts after and the private accounts whose commitments it emits; a private account
that is created brings nothing.  Apart from the dummies the journal emits no other
nullifier and no other commitment. -/
theorem circuit_conserves_balance {verify : ProgramId → ProgramOutput → Bool}
    {input : PrivacyPreservingCircuitInput} {output : PrivacyPreservingCircuitOutput}
    (h : main verify input = .ok output) :
    ∃ state accounts notes,
      deriveFromOutputs verify input.accountIdentities input.programId input.programOutputs
          = .ok state ∧
        statesOf state = .ok accounts ∧
        notes = (notesFrom 0 (input.accountIdentities.zip accounts)).map Prod.snd ∧
        (output.publicActions.map (·.pre.account.balance.val)).sum + (notes.map Note.spent).sum
          = (output.publicActions.map (·.post.balance.val)).sum
            + (notes.map fun note => (noteAccount note).balance.val).sum ∧
        (output.privateActions.map fun action => (action.nullifier, action.root)).Perm
          (notes.map noteNullifier ++ input.dummyInputs.map fun dummy =>
            ((dummyAction dummy).nullifier, (dummyAction dummy).root)) ∧
        (output.privateActions.map (·.commitment)).Perm
          (notes.map noteCommitment ++ input.dummyInputs.map fun dummy =>
            (dummyAction dummy).commitment) := by
  obtain ⟨state, hderive, houtput⟩ := bind_eq_ok.mp h
  obtain ⟨accounts, journal⟩ := computeCircuitOutput_ok houtput
  set entries := notesFrom 0 (input.accountIdentities.zip accounts) with hentries
  refine ⟨state, accounts, entries.map Prod.snd, hderive, journal.rebuilt, rfl, ?_, ?_, ?_⟩
  · obtain ⟨hpre, hpost⟩ :=
      statesOf_totals (deriveFromOutputs_wellFormed hderive) journal.rebuilt
    have hlen : accounts.length ≤ input.accountIdentities.length := by
      rw [journal.length_eq, ← (statesOf_ok journal.rebuilt).1, length_map]
    have hshownPre := sum_shown_add_sum_hidden (fun pre _ => pre.account.balance.val) 0 hlen
    have hshownPost := sum_shown_add_sum_hidden (fun _ post => post.balance.val) 0 hlen
    rw [hpre] at hshownPre
    rw [hpost] at hshownPost
    have hspent : (entries.map Prod.snd).map Note.spent
        = entries.map fun entry => entry.2.pre.account.balance.val := by
      rw [map_map]
      exact map_congr_left fun entry hentry => (journal.checked entry hentry).spent_eq
    have hleft : (entries.map Prod.snd).map (fun note => (noteAccount note).balance.val)
        = entries.map fun entry => entry.2.post.balance.val := by
      rw [map_map]
      rfl
    have htotals : postTotal state = preTotal state :=
      deriveFromOutputs_invariant (P := fun state => postTotal state = preTotal state)
        (fun _ _ => rfl) (fun _ _ _ _ hstep => hstep.totals) hderive
    rw [journal.publicActions, hspent, hleft]
    exact hshownPre.trans (htotals.symm.trans hshownPost.symm)
  · rw [map_map]
    exact journal.nullifiers
  · rw [map_map]
    exact journal.commitments

end

/-! A private account that holds 5 pays 3 to a public one; the program then calls a keeper
on a PDA of its own.  All digests are SHA-256's, and the note is encrypted to the viewing
key that is all zeros, which ML-KEM accepts. -/

namespace Unshield

open Sample (pda seed)

def bank : ProgramId := .ofWord 1

def keeper : ProgramId := .ofWord 2

def ask : AuthorizationSecretKey := ⟨.replicate 32 9⟩

def nsk : NullifierSecretKey :=
  ofHex 0x2075de0d4b8fb955d8a07f4b31402830d2b6020859fec3012c4da0c6c70a3dfa

def npk : NullifierPublicKey :=
  ⟨ofHex 0x9efdfa457e66065915ed9acc693635f91aa41d5f06123fbf5f8dae4474afc14f⟩

def vpk : ViewingPublicKey := ⟨.replicate 1184 0⟩

def noteId : AccountId :=
  ⟨ofHex 0xfe2c0cbe5896fe3909226de48859e97bf34f0669ef46c7a8cedf06e8a83ac944⟩

def payee : AccountId := ⟨.replicate 32 1⟩

/-- The commitments to the account before and after, its nullifier, and what the note is
encrypted with. -/
def before : Bytes 32 :=
  ofHex 0x06842d0ebee5f45532222f0a468abfb09348ca5ff459ad882f7d53fe53040878

def after : Bytes 32 :=
  ofHex 0xc3a9a6042b03abee2796442179d4aeb21e024228a5649589335836ce84f3e96b

def nullifier : Bytes 32 :=
  ofHex 0x6a3698b1e0646334a1f894c35d828c0d30f41d3e4da364a6a29f933f2b414822

def nonceDigest : Bytes 32 :=
  ofHex 0x1036668c4ed7fa25d4d99adc74521b88af713f03d286b3842a2fd2697bbb19df

def esk : Bytes 32 :=
  ofHex 0x4f819c56e5d362cb6fb4cafd54afc1a80b45c8c0086eeec540102aa2f5551a82

def sharedSecret : Bytes 32 :=
  ofHex 0x9200e1467a8db3fd690070ba36ed1684d9337721e7311b6b712000dcf047cf56

def key : Bytes 32 :=
  ofHex 0x55b4c3e1c5ff5763e942c4b6e216286f8f486aaa1d72e26bb02818baf38d6443

def dummyNullifier : Bytes 32 :=
  ofHex 0xbf7502558eafaac4e3161299edb6e15ff0d399a1c907598030a2c53d7b9bf456

def dummy : DummyInput :=
  { nullifierSeed := .replicate 32 4
    commitmentSeed := .replicate 32 5
    note := ⟨⟨[]⟩, ⟨[]⟩, 0⟩
    commitmentRoot := .replicate 32 0 }

/-- What is hashed to the commitment to an account without data. -/
def commitmentBytes (balance : ℕ) (nonce : List UInt8) : List UInt8 :=
  ascii "/LEE/v0.3/Commitment/" ++ replicate 11 0 ++ noteId.value.toList ++
    bank.toBytes.toList ++ Borsh.leBytes 16 balance ++ nonce ++
    (ofHex 0xe3b0c44298fc1c149afbf4c8996fb92427ae41e4649b934ca495991b7852b855 : Node).toList

scoped instance sha : Sha256 := .ofTable
  [ (publicPdaBytes bank seed, pda.value),
    (ascii "/LEE-Keys/v1/Nullifier/Secret" ++ ask.value.toList, nsk),
    (ascii "/LEE-Keys/v1/Nullifier/Public" ++ nsk.toList, npk.value),
    (regularPrivateBytes npk vpk 0, noteId.value),
    ([], ofHex 0xe3b0c44298fc1c149afbf4c8996fb92427ae41e4649b934ca495991b7852b855),
    (commitmentBytes 5 (Borsh.leBytes 16 1), before),
    (before.toList, ofHex 0x4bd16e83dda1078d93501a057b8c826b343e2349d9ecb83ca28a921a0220ed24),
    (ascii "/LEE/v0.3/Nullifier/Update/" ++ replicate 5 0 ++ before.toList ++ nsk.toList,
      nullifier),
    (nsk.toList ++ (Borsh.leBytes 16 1 ++ replicate 16 0), nonceDigest),
    (commitmentBytes 2 (nonceDigest.toList.take 16), after),
    (ascii "/LEE/v0.3/esk/" ++ noteId.value.toList ++ replicate 32 3 ++
      nonceDigest.toList.take 16, esk),
    (ascii "LEE/v0.3/KDF-SHA256/" ++ sharedSecret.toList ++ nullifier.toList, key),
    (ascii "/LEE/v0.3/Nullifier/Dummy/" ++ replicate 6 0 ++ replicate 32 4, dummyNullifier),
    (ascii "/LEE/v0.3/Commitment/Dummy/" ++ replicate 5 0 ++ dummyNullifier.toList ++
      replicate 32 5,
      ofHex 0xed087060163ef904a08c293e750b21705fabe314f77bc7a305d385bed9cac4c4) ]

/-- The ML-KEM ciphertext, 32 bytes in a line. -/
def epk : List UInt8 :=
  [ 0xb67890663a645dd0a7315a783c4c8bcd0920fada7b6123cb9c23f690eceb1889,
    0x4bd23645601de1e2dbd9118a14d2fdc5f522bba324bfac5f9ebcae9646e1cf52,
    0xe19d56cd011fefc8d4985903a463e0af7c9a2185a26062e00410768dba59e0fd,
    0xd466534316625f924d618c79e091f11637462bcc1db38fcf3a946fa702f2b093,
    0x1af13ca03fa81b590bda35702630398d1c61b810428fd8bea43c6314e0c2908f,
    0x8a991b1d57b7a6584e3bd5cc799672a425c9abb1790535f72f68661a75412626,
    0x1951fe6382f0d73964cef5696ddcbc6f686ee8a9564f26d9a87341470a15bba9,
    0xf07e9bbc4b240fe3cca961260cb1f2dfa20c811886168f2dda94b0d543dd3d6f,
    0x0e18ea2a2534af278182dbf194c2d7d0af9858e3de380496bd3f7a31619a0b13,
    0xa92051cd7c93fd8414766ac44cee6b9115788f44bf7549129e7cc95a5da08a5a,
    0x4a553d5a2cafeeca6fd33088741bbb771705eadef545c3e28ed4fd6cbca5babe,
    0xca949336ce1d1c5dc32df31f6a079d707fd130ce025aeaa6f23b3fc6113fa775,
    0x4778052a41372eb50b7d6beca2c43d74cdf3d9e44061f4d6adbdd0ecddc42887,
    0xaa3df8f00fd702eb4d64de0a441ceed89a817634f9fcf09771f7d75223170d05,
    0xe5f342aefcf737579017868cfaafec5492ac573de6ca445ca801a40c91499684,
    0x36020a158b75b9fff7c1f4e5ae85d76c723feb8ae1dee37d602db2dcc109a604,
    0x996fff994bd7f48f2df96b9a1070e19a0a1f4c39b847f8286a7e44a481361190,
    0xfed855fce9e1b382b0cfd831bb76befae0a255b9578b617c43a09053d38a1e8a,
    0xec6164d0d69bd3bb74edb624e6952ebad88d0c83aa53dd6b3e24e21736372964,
    0xde408c8a2efc7437d4153dd25b5e1a417eaa56edffd86f1242f4d27fbd107a54,
    0xb7f07634f0e19916addf9f832e36822e3e570de194d9012fb55563755855d4ef,
    0x0ed7a3edccf2a5be1ae065ab9d22383830d168e3dd4295953f693e635976b2f3,
    0x223638efda1f66ebf92d6cbce121a0e17bffc34d40540af533ec7f0db7e9e942,
    0xf0d6c4c60eae5cd1b683b3481ba121c01d9f3c15828dc88288460a9e2dced26a,
    0x1ba5c51b5a8bd73870d1dfb36ebe176d465cf0dbd0a66eac8f1172f67acb988e,
    0x1a5892eaea0dc7eef434ab8b2f586efbd50423e2aee70b9d04b50992abcccddd,
    0xfbcd9d36857e6e9bb07102a1fa248ed5acc10a69a735f888518a76471ce92daa,
    0x10b7099b06e753d1dcd142d1849d5fea70dae8d1a3e7c0c48ff63070ea840a71,
    0x4c73841b07d7d4ac85ce45117e7e3723060337304f43cabf06e00cb507a232e1,
    0xf447f283e3327b6fd9e18d4da487668ff8033c750814abfd02c5252c31d3a7c1,
    0x8888000808000080008808808008080808088088880008888000800888800088,
    0x8888800800088880808000880888888800080808888880800800008800808080,
    0x8880000008080008008000880000008800800000808880088088808808080088,
    0x0000000800000800808080008000808008088888080808088080080080000080 ].flatMap
    fun line => (ofHex line).toList

scoped instance mlKem : MlKem where
  encapsulateDeterministic vpk' esk' :=
    if vpk' = vpk ∧ esk' = esk then some (sharedSecret, epk) else none

/-- The ChaCha20 keystream of the note. -/
def keystream : List UInt8 :=
  [ 0x2580ba9fe385a80c58164341ad5f78ee5e5d31208e8b24eb66bdc0d3f15638db,
    0x1c2b5d40ee28c72ab099dd2f4837795afcf3c7696328469e26a8b2c742acbc83,
    0xbe20e8b79f2278a72571cd61a2f0df4ede790e356d08ad6c4cb8b375d1c6c550,
    0x2ed5c40ea30d604cbaace3ac275c2b9c9fb7138c36f61148d2142f06ef5652d4,
    0x30f028e6d6c6daff5379f6e0ab74fb96814944db6438c993902b56592ad96acb ].flatMap
    fun line => (ofHex line).toList

scoped instance chaCha20 : ChaCha20 where
  applyKeystream key' text := if key' = key then List.zipWith (· ^^^ ·) text keystream else []

def held (balance : Balance) (nonce : Nonce) : Account :=
  { programOwner := .ofProgramId bank, balance, data := .empty, nonce }

/-- The outputs of the two calls. -/
def programOutputs : List ProgramOutput :=
  [ { ProgramOutput.new bank none []
        [⟨held 5 ⟨1⟩, true, noteId⟩, ⟨held 10 ⟨0⟩, true, payee⟩]
        [.new (held 2 ⟨1⟩), .new (held 13 ⟨0⟩)] with
      chainedCalls := [⟨keeper, [⟨.default, true, pda⟩], [], [seed]⟩] },
    ProgramOutput.new keeper (some bank) [] [⟨.default, true, pda⟩] [.new .default] ]

def verify (programId : ProgramId) (output : ProgramOutput) : Bool :=
  decide (output.selfProgramId = programId ∧ output ∈ programOutputs)

def input : PrivacyPreservingCircuitInput where
  programOutputs := programOutputs
  accountIdentities :=
    [ .privateAccount
        { vpk, randomSeed := .replicate 32 3, identifier := 0
          kind := .regular (some ask), nullifier := .update 0 nsk (0, []) },
      .publicAccount, .publicAccount ]
  programId := bank
  dummyInputs := [dummy]

end Unshield

section

open Unshield

theorem unshield_conserves_balance :
    ∃ output, main verify input = .ok output ∧ ∃ notes : List Note,
      (notes.map Note.spent).sum = 5 ∧
      (output.publicActions.map (·.pre.account.balance.val)).sum + (notes.map Note.spent).sum
        = (output.publicActions.map (·.post.balance.val)).sum
          + (notes.map fun note => (noteAccount note).balance.val).sum := by
  obtain ⟨output, h⟩ : ∃ output, main verify input = .ok output := by
    decide +kernel
  obtain ⟨state, accounts, notes, hstate, haccounts, hnotes, hsum, -⟩ :=
    circuit_conserves_balance h
  refine ⟨output, h, notes, ?_, hsum⟩
  have heval : ∀ state, deriveFromOutputs verify input.accountIdentities
      bank programOutputs = .ok state →
        ∀ accounts, statesOf state = .ok accounts →
          (((notesFrom 0 (input.accountIdentities.zip accounts)).map Prod.snd).map
            Note.spent).sum = 5 := by decide +kernel
  rw [hnotes]
  exact heval state hstate accounts haccounts

end

end Circuit

end Lssa
