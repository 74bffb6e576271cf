/-
Seeds and the accounts they stand for.

A program and a seed can derive many accounts: the public one, and a private one for every
set of keys.  During the walk over the calls the circuit keeps two records.  Each pair of a
program and a seed stands for one account (`pdaFamilyBinding`), and each private PDA is bound
to one pair (`privatePdaBoundPositions`).  There are three routes to an entry: the pair that
a witness names, a seed that a caller passes, and a claim (`Resolves`).

* `syncAccount_binds` — what syncing one account adds to the records;
* `deriveFromOutputs_resolved` — the records at the end of the walk;
* `private_pda_binding` — an accepted input binds every private PDA, consistently.
-/
import Lssa.Circuit.Notes

open Outcome DepthFirst

namespace Lssa

namespace Circuit

variable [Sha256] {verify : ProgramId → ProgramOutput → Bool}
  {accountIdentities : List InputAccountIdentity} {programId : ProgramId}
  {programOutputs : List ProgramOutput} {call : Call} {state state' : ExecutionState}
  {pre : AccountWithMetadata} {post : AccountPostState}

variable {accountId : AccountId} {pair : ProgramId × PdaSeed} {position : ℕ}

/-! ### One account -/

theorem claimPostState_binds {account : Account}
    (h : claimPostState accountIdentities call.1.programId state pre post = .ok (state', account)) :
    Binds pre.accountId state state' ∧ state'.preStates = state.preStates ∧
      ∀ seed position identity, post.claim = some (.pda seed) →
        state.position pre.accountId = some position →
          accountIdentities[position]? = some identity →
            OnRecord state' pre.accountId position (!identity.isPublic)
              (call.1.programId, seed) := by
  rcases claimPostState_ok h with ⟨hnone, rfl, -⟩ |
    ⟨claim, position, identity, hclaim, hposition, hidentity, -, -, hbook, hbinds, hrecord, -⟩
  · exact ⟨.of_same rfl rfl, rfl, by simp [hnone]⟩
  · refine ⟨hbinds, hbook.preStates, ?_⟩
    intro seed position' identity' hseed hposition' hidentity'
    obtain rfl := some.inj (hposition.symm.trans hposition')
    obtain rfl := some.inj (hidentity.symm.trans hidentity')
    exact hrecord seed (some.inj (hclaim.symm.trans hseed))

/-- **What syncing one account records.** -/
theorem syncAccount_binds (hwf : WellFormed state)
    (h : syncAccount accountIdentities call state (pre, post) = .ok state') :
    Binds pre.accountId state state' ∧
      (∀ k pair, state.preStates.length ≤ k → k < state'.preStates.length →
        namedPair accountIdentities k = some pair →
          state'.privatePdaBoundPositions.lookup k = some pair) ∧
      (∀ position seed isPrivateForm issuer, state'.position pre.accountId = some position →
        matchCallerSeed accountIdentities call.2 call.1.pdaSeeds pre.accountId position
            = some (seed, isPrivateForm, issuer) →
          OnRecord state' pre.accountId position isPrivateForm (issuer, seed)) ∧
      ∀ position seed identity, state'.position pre.accountId = some position →
        post.claim = some (.pda seed) → accountIdentities[position]? = some identity →
          OnRecord state' pre.accountId position (!identity.isPublic) (call.1.programId, seed) := by
  obtain ⟨mid, hmid, h⟩ := bind_eq_ok.mp h
  obtain ⟨⟨last, account⟩, hlast, h⟩ := bind_eq_ok.mp h
  obtain ⟨position, -, hsighting, hfirst, hnamed, hpassed⟩ := syncPreState_ok hmid
  obtain ⟨hsecond, hlastPre, hclaimed⟩ := claimPostState_binds hlast
  have hend : Binds pre.accountId last state' := by
    rw [← ok.inj h]
    exact .of_same rfl rfl
  have hpre : state'.preStates = mid.preStates := by
    rw [← ok.inj h]
    exact hlastPre
  have hrest := hsecond.trans hend
  refine ⟨hfirst.trans hrest, ?_, ?_, ?_⟩
  · intro k pair hle hlt hpair
    exact hrest.positions k pair (hnamed k pair hle (by rwa [← hpre]) hpair)
  · intro position' seed isPrivateForm issuer hposition hmatch
    rw [ExecutionState.position, hpre] at hposition
    obtain rfl := some.inj ((hsighting.position_eq hwf).symm.trans hposition)
    exact (hpassed seed isPrivateForm issuer hmatch).mono hrest
  · intro position seed identity hposition hclaim hidentity
    rw [ExecutionState.position, hpre] at hposition
    exact (hclaimed seed position identity hclaim hposition hidentity).mono hend

/-! ### The whole walk -/

/-- What is on record stays there, and so do the positions of accounts. -/
def Remembers (state state' : ExecutionState) : Prop :=
  WellFormed state → Extends state state' ∧ ∀ accountId position isPrivateForm pair,
    OnRecord state accountId position isPrivateForm pair →
      OnRecord state' accountId position isPrivateForm pair

omit [Sha256] in
theorem Remembers.refl (state : ExecutionState) : Remembers state state :=
  fun _ => ⟨Extends.refl state, fun _ _ _ _ h => h⟩

omit [Sha256] in
theorem Remembers.trans {mid : ExecutionState} (h : Remembers state mid)
    (h' : Remembers mid state') : Remembers state state' := by
  intro hwf
  obtain ⟨hextends, hrecord⟩ := h hwf
  obtain ⟨hextends', hrecord'⟩ := h' (hextends.wellFormed hwf)
  refine ⟨hextends.trans hextends', fun accountId position isPrivateForm pair hpair => ?_⟩
  exact hrecord' _ _ _ _ (hrecord _ _ _ _ hpair)

theorem syncAccount_remembers
    (h : syncAccount accountIdentities call state (pre, post) = .ok state') :
    Remembers state state' :=
  fun hwf => ⟨(syncAccount_ok h).extends, fun _ _ _ _ hpair =>
    hpair.mono (syncAccount_binds hwf h).1⟩

/-- The records agree with the witnesses and with each other. -/
structure Resolved (accountIdentities : List InputAccountIdentity) (state : ExecutionState) :
    Prop where
  wellFormed : WellFormed state
  named : ∀ k pair, k < state.preStates.length → namedPair accountIdentities k = some pair →
    state.privatePdaBoundPositions.lookup k = some pair
  family : ∀ k pair, state.privatePdaBoundPositions.lookup k = some pair →
    ∃ recorded, state.preStates[k]? = some recorded ∧
      state.pdaFamilyBinding.lookup pair = some recorded.accountId

theorem syncAccount_resolved
    (h : syncAccount accountIdentities call state (pre, post) = .ok state')
    (hresolved : Resolved accountIdentities state) : Resolved accountIdentities state' := by
  have hsynced := syncAccount_ok h
  obtain ⟨hbinds, hnamed, -⟩ := syncAccount_binds hresolved.wellFormed h
  have hold : ∀ k pair, state.privatePdaBoundPositions.lookup k = some pair →
      ∃ recorded, state'.preStates[k]? = some recorded ∧
        state'.pdaFamilyBinding.lookup pair = some recorded.accountId := by
    intro k pair hk
    obtain ⟨recorded, hat, hpair⟩ := hresolved.family k pair hk
    exact ⟨recorded, hsynced.extends.getElem? hat, hbinds.family _ _ hpair⟩
  refine ⟨hsynced.wellFormed hresolved.wellFormed, fun k pair hlt hpair => ?_,
    fun k pair hk => ?_⟩
  · by_cases hrecorded : k < state.preStates.length
    · exact hbinds.positions k pair (hresolved.named k pair hrecorded hpair)
    · exact hnamed k pair (by omega) hlt hpair
  · rcases hsynced.bound k pair hk with hbefore | ⟨_, recorded, -, hat, hid, -⟩
    · exact hold k pair hbefore
    · rcases hbinds.bound k pair hk with hbefore | hnew
      · exact hold k pair hbefore
      · exact ⟨recorded, hat, by rw [hid, hnew]⟩

section

variable (h : deriveFromOutputs verify accountIdentities programId programOutputs = .ok state)

include h

/-- **The records at the end of the walk.** -/
theorem deriveFromOutputs_resolved :
    Resolved accountIdentities state := by
  refine deriveFromOutputs_invariant (fun block time => ?_) (fun _ _ _ _ hstep => ?_) h
  · refine ⟨wellFormed_initialState block time, fun k pair hlt => ?_, fun k pair hk => ?_⟩
    · exact absurd hlt (by simp [initialState])
    · exact absurd hk (by simp [initialState])
  · exact foldlM_invariant (fun pair _ s s' hs => syncAccount_resolved hs) hstep.synced

/-- Where a call resolves a program and a seed to an account: a seed that the caller passed
derives it, or it is claimed with a seed.  `isPrivateForm` tells whether the account is taken
as a private PDA. -/
inductive Resolves (accountIdentities : List InputAccountIdentity) (final : ExecutionState)
    (entry : Entry) (accountId : AccountId) : Bool → ProgramId × PdaSeed → Prop
  | seeded {pre : AccountWithMetadata} {position : ℕ} {seed : PdaSeed} {isPrivateForm : Bool}
      {issuer : ProgramId}
      (listed : pre ∈ entry.2.preStates) (accountId_eq : pre.accountId = accountId)
      (position_eq : final.position accountId = some position)
      (matched : matchCallerSeed accountIdentities entry.1.2 entry.1.1.pdaSeeds accountId position
        = some (seed, isPrivateForm, issuer)) :
      Resolves accountIdentities final entry accountId isPrivateForm (issuer, seed)
  | claimed {pre : AccountWithMetadata} {post : AccountPostState} {position : ℕ} {seed : PdaSeed}
      {identity : InputAccountIdentity}
      (listed : (pre, post) ∈ entry.2.preStates.zip entry.2.postStates)
      (accountId_eq : pre.accountId = accountId)
      (position_eq : final.position accountId = some position)
      (identity_eq : accountIdentities[position]? = some identity)
      (claim : post.claim = some (.pda seed)) :
      Resolves accountIdentities final entry accountId (!identity.isPublic)
        (entry.1.1.programId, seed)

variable {v : Visit Progress Call ProgramOutput}

section

variable (hv : v ∈ callTree verify accountIdentities programId programOutputs)
include hv

/-- Every account of a call is synced, and what that records is on record in the end. -/
theorem callTree_synced (hmem : (pre, post) ∈ v.result.preStates.zip v.result.postStates) :
    ∃ mid mid', WellFormed mid ∧
      syncAccount accountIdentities v.call mid (pre, post) = .ok mid' ∧ WellFormed mid' ∧
      Remembers mid' state := by
  have hstep := callTree_step hv
  have hwf := (callTree_recorded hv).1
  obtain ⟨mid, mid', hmid, hround, hmid'⟩ := foldlM_round Remembers.refl Remembers.trans
    (fun pair _ s s' hs => syncAccount_remembers hs) hstep.synced hmem
  have hwfMid := (hmid hwf).1.wellFormed hwf
  obtain ⟨start, -, hthreads, -⟩ := deriveFromOutputs_ok h
  have hfinal : Remembers v.after.1 state :=
    hthreads.advances (R := fun s t => Remembers s.1 t.1) (fun s => Remembers.refl s.1)
      Remembers.trans (fun w hw => foldlM_invariant (P := fun s => Remembers w.before.1 s)
        (fun _ _ _ _ hs hmid => hmid.trans (syncAccount_remembers hs)) (callTree_step hw).synced
        (.refl _)) hv
  exact ⟨mid, mid', hwfMid, hround, (syncAccount_ok hround).wellFormed hwfMid, hmid'.trans hfinal⟩

/-- **Every resolution is on record.** -/
theorem Resolves.onRecord {isPrivateForm : Bool}
    (hresolves : Resolves accountIdentities state v.entry accountId isPrivateForm pair)
    (hposition : state.position accountId = some position) :
    OnRecord state accountId position isPrivateForm pair := by
  -- the position at which the account was synced is its final one
  have hkept : ∀ {mid mid' : ExecutionState} {pre : AccountWithMetadata}
      {post : AccountPostState}, WellFormed mid →
      syncAccount accountIdentities v.call mid (pre, post) = .ok mid' → WellFormed mid' →
      Remembers mid' state → pre.accountId = accountId →
        mid'.position accountId = some position := by
    rintro mid mid' pre post hwf hsync hwf' hremembers rfl
    obtain ⟨position', hsighting⟩ := (syncAccount_ok hsync).sighting
    have hfound := hsighting.position_eq hwf
    rw [hfound, ← hposition]
    exact ((hremembers hwf').1.position_eq hfound).symm
  cases hresolves with
  | seeded listed accountId_eq position_eq matched =>
    obtain rfl := some.inj (hposition.symm.trans position_eq)
    obtain ⟨post, hpair⟩ := (validateExecution_ok (callTree_step hv).valid).exists_post listed
    obtain ⟨mid, mid', hwf, hsync, hwf', hremembers⟩ := callTree_synced h hv hpair
    have hfound := hkept hwf hsync hwf' hremembers accountId_eq
    subst accountId_eq
    obtain ⟨-, -, hseeded, -⟩ := syncAccount_binds hwf hsync
    exact (hremembers hwf').2 _ _ _ _ (hseeded _ _ _ _ hfound matched)
  | claimed listed accountId_eq position_eq identity_eq claim =>
    obtain rfl := some.inj (hposition.symm.trans position_eq)
    obtain ⟨mid, mid', hwf, hsync, hwf', hremembers⟩ := callTree_synced h hv listed
    have hfound := hkept hwf hsync hwf' hremembers accountId_eq
    subst accountId_eq
    obtain ⟨-, -, -, hclaimed⟩ := syncAccount_binds hwf hsync
    exact (hremembers hwf').2 _ _ _ _ (hclaimed _ _ _ hfound claim identity_eq)

end

end

/-! ### Accepted inputs -/

variable [MlKem] [ChaCha20]

/-- **Private PDA binding.**  In an accepted input every pair of a program and a seed that a
caller's seed or a claim resolves, in public or in private form, stands for one account.
Every position witnessed as a private PDA is bound to one pair, by whichever routes: the pair
derives the account recorded there from the keys of the witness that nullifies it, it stands
for that account, and it is what the ciphertext carries. -/
theorem private_pda_binding {input : PrivacyPreservingCircuitInput}
    {output : PrivacyPreservingCircuitOutput} (h : main verify input = .ok output) :
    ∃ state, deriveFromOutputs verify input.accountIdentities input.programId
        input.programOutputs = .ok state ∧
      (∀ v ∈ callTree verify input.accountIdentities input.programId input.programOutputs,
        ∀ accountId isPrivateForm pair,
          Resolves input.accountIdentities state v.entry accountId isPrivateForm pair →
            state.pdaFamilyBinding.lookup pair = some accountId) ∧
      ∀ position witness external,
        input.accountIdentities[position]? = some (.privateAccount witness) →
        witness.kind = .pda external →
        ∃ note pair, (position, note) ∈ notesOf verify input ∧ note.witness = witness ∧
          state.preStates[position]? = some note.pre ∧
          forPrivatePda pair.1 pair.2 witness.nullifier.npk witness.vpk witness.identifier
            = note.pre.accountId ∧
          state.pdaFamilyBinding.lookup pair = some note.pre.accountId ∧
          (∀ named, external = some named → named = pair) ∧
          (∀ v ∈ callTree verify input.accountIdentities input.programId input.programOutputs,
            ∀ other, Resolves input.accountIdentities state v.entry note.pre.accountId true other →
              other = pair) ∧
          ∃ action ∈ output.privateActions,
            Carries note (.pda pair.1 pair.2 witness.identifier) action := by
  obtain ⟨state, states, hderive, houtput, journal, hnotes⟩ := main_ok h
  have hresolved := deriveFromOutputs_resolved hderive
  refine ⟨state, hderive, ?_, ?_⟩
  · intro v hv accountId isPrivateForm pair hresolves
    have hposition : ∃ position, state.position accountId = some position := by
      cases hresolves with
      | seeded _ _ position_eq _ | claimed _ _ position_eq _ _ => exact ⟨_, position_eq⟩
    obtain ⟨position, hposition⟩ := hposition
    exact (hresolves.onRecord hderive hv hposition).1
  · intro position witness external hidentity hkind
    obtain ⟨pre, post, hnote, hpre⟩ := exists_note journal.length_eq journal.rebuilt hidentity
    obtain ⟨kind, hnoteKind, action, haction, hcarries⟩ :=
      computeCircuitOutput_carries houtput journal.rebuilt hnote
    obtain ⟨kind', hnoteKind', hderives⟩ := journal.derived hderive hnote
    obtain rfl := some.inj (hnoteKind.symm.trans hnoteKind')
    -- the kind was written from the pair that the position is bound to
    simp only [noteKind, hkind] at hnoteKind
    obtain ⟨pair, hbound, rfl⟩ := map_eq_some_iff.mp hnoteKind
    obtain ⟨recorded, hrecorded, hfamily⟩ := hresolved.family position pair hbound
    obtain rfl := some.inj (hpre.symm.trans hrecorded)
    refine ⟨⟨witness, pre, post⟩, pair, by rw [hnotes]; exact hnote, rfl, hpre, hderives, hfamily,
      ?_, ?_, action, haction, hcarries⟩
    · rintro named rfl
      have hnamed : namedPair input.accountIdentities position = some named := by
        obtain ⟨vpk, randomSeed, identifier, kind, nullifier⟩ := witness
        subst hkind
        simp only [namedPair, hidentity]
      have hlt := (getElem?_eq_some_iff.mp hpre).1
      exact some.inj ((hresolved.named position named hlt hnamed).symm.trans hbound)
    · intro v hv other hresolves
      have hposition := hresolved.wellFormed.position_unique hpre
      have hother := (hresolves.onRecord hderive hv hposition).2 rfl
      exact some.inj (hother.symm.trans hbound)

end Circuit

/-! ### A private PDA, claimed and written to -/

/-! A program keeps a private PDA for somebody.  It claims the account in one transaction and
writes to it in the next: it is bound by a claim first, and then by its witness.  All digests
are SHA-256's, the viewing key is a real ML-KEM key and the notes are encapsulated and
encrypted to it. -/

namespace Locker

def locker : ProgramId := .ofWord 2

def seed : PdaSeed := ⟨.replicate 32 7⟩

def nsk : NullifierSecretKey := .replicate 32 9

def npk : NullifierPublicKey :=
  ⟨ofHex 0xd4611fa84040314457e6466d41705e1222fb71f41a065e5507851a21caf07c4d⟩

/-- Thirty-two bytes in a line. -/
def ofLines (lines : List ℕ) : List UInt8 := lines.flatMap fun line => (ofHex line).toList

def vpk : ViewingPublicKey := ⟨ofLines
  [ 0x01775c733bc53663b6a804a9126827f4b27a36441ad32b3b8f1314903bb9137a,
    0x80e27a5faa753c89dc8180708b55363b234814959190b84ac3fbc28cce9391c3,
    0x7b7940368125bb6fcc4152a0659447fb63de810730f227c198697f6c855c3a78,
    0xfe10092356b52d1a17deb41942d09f25a84ed5f92922f7acd6913281a73c8221,
    0xaca5091f51dc4438e326a3e90fcb5a1dda76c41e177640ccb0c247bae8b57f7e,
    0x575d36a397fbf74eed81a5aed4962d9667b435707042b4f7192e5a4100b32093,
    0x44029452754daf893eddf3c5a0da3cf02279a0fc693b821fea6b90c7216d3e14,
    0xc8fc646dc1127d1cb2b4e1e85832530dedf95973b31aa46c5a02042858ecac1d,
    0xa0be8df88e3b5b0fcf5c9a28cb52d7642cc65949dd085d7b74329f4914182a18,
    0x38471c94a4586101770c9252e774a7148a223858887c0c013b5482fcdc1419f3,
    0x77c2411cd4f69e0bab71f00c5e44399ffb696f844363aafc733a85aeb45b379f,
    0x527617507c2b0649bab95f9e0c19124c7e96c679ad385e833acd1c8a00b90724,
    0x2cac23f592492f68b8d4a6a17a648604e7387b12a52606baf4361fce98cfb3ca,
    0xa678676a132145077748f93024221243d80895ce300c6bf6c5fec9c6d8164629,
    0x0036b985a433ba7ca7d42c919870a821b3a1513f48e9a16ab0ce3204a783c615,
    0xcc74166baa6f574a63a19c8801e7b45b512370f7b4af1b1bab13a27412295529,
    0x8340c5889c0c5e7775809b5b607ef17ae64605ee167c6864b5cf9581edc2c4b3,
    0xcb151c989d630c42dd3868a986787380b6366b352b8cce59d97622ec63fab430,
    0x2ed7c6fa71530c4c30b2c040f577cd19695d14557d56b7191e559175322e4654,
    0x4e7b2a098a53b48a6c5377b096e4ea3577ac1208839861a86c1a9a82b0e9c9cc,
    0x12b051292bc3770c60c47852b8c2b70a9c9cea0e65a47c17ea5924a62043cb50,
    0x6645098d016e973ab82a42976808428003c7b93a58a1da82c5096a9a60346a39,
    0x2cabb1a697a0c5455518fae3b3af74aa1d6c65604cc5b40a6e376965bf599ea7,
    0x315d6c7b887148be19d991b3f3866a6acb82f091d0ec1385f36215f293fff359,
    0x5cf80b03173fbd6035ab87509ab3071a78b377aace20295b5eb61fde654332ab,
    0x2ec6bb00cb38243b10aa9885a7a50542ec8b553c602c6ef87347200d9f3b5776,
    0xfc3fa573b56630045a44026c1362c3f4919a8546b6c4357506c47e9c71f050b8,
    0xea622a7a87361fa99a83b06602d82209d4b5dd885061325a854097e29289f68b,
    0x4765566df2a70d4ed9c2bd719cd7d87dcc1a716df6ab6d52a3aa638336657800,
    0xc38d08bc9e7208ac167127d1997b557894f7f98831119cf93a33b4f10fdb347c,
    0x0474023d17a0285b2a3fd521620864aeb4c617d207660c4d8a5619ebda3dff54,
    0x93f77035d91543bf425d4bb25fb1317d31c30cc0fb1078136416e9ad1be1cd16,
    0x112d84da9d06456f2a28610b43cd0ce2b7fbd649d2291cc646548b5ccba6e663,
    0xdc61277de1c1636a253c9b848f614ed5a245f7f359450c19b9903ae1e51f7d53,
    0x321aa16785031fed9655cbbb970e1cbd445225f1a3a2be62a3b5205685b5738e,
    0xc0788621092834bf3392b86df05c5068afb14aab49995e7159089cfc72c18294,
    0x1c895ce4b234c9759472998b2d30ca26ebdbec72bee7accb2c2f12721aa18152 ], by decide +kernel⟩

def account : AccountId :=
  ⟨ofHex 0xd433c0163adca4f58ce99f8359a65801a3008460b05293a43141e8d58e1e9c47⟩

/-! The first transaction -/

def nonceDigest : Bytes 32 :=
  ofHex 0x539531177b8f5e7f969921a89c9960dd976ca0ec4ed4ccd81b529afa38404d37

def commitment : Bytes 32 :=
  ofHex 0x419135e6a324e986264886fa81d92bb0d2fbbc82205eab14a35743a540dd1c36

def nullifier : Bytes 32 :=
  ofHex 0xabed5fa193f5532ed56de528b8f5de950b7c07d9e6b6e4dcb2554bbd3e599c20

def esk : Bytes 32 :=
  ofHex 0x56399893a4a5c050c6248ab3bcd7d72678f4f4546ae10bd5cd7666ae5f92863f

def sharedSecret : Bytes 32 :=
  ofHex 0xb03bd8596af2569d0046d8422daacfad9ad96929cc710d2da5a3d9664ff6e709

def key : Bytes 32 :=
  ofHex 0x52ebe977a198e1df61a57479dc28b7e12827c25eeea10095ded3d42a3c55ef4b

def epk : List UInt8 := ofLines
  [ 0x5bc61a5e41f1cf6eb1f837fa212e62a4ba465bca997cce802a9a97144555d9cc,
    0xd5a436689645c7b9cea8161b9b2cda081104c66a1e42dd0c1f89eda418865758,
    0x586bd80bd38ff65bf862fd1b98fe1e6cebb54c64b4fbbc764b3d6d19594b0a3d,
    0x179ac042d7b651039851a389a56a8dc843351b17f6afc129da207c8393a421e2,
    0xe7dbd072911901400351bb11564cb6e89a16f8ab3afe12075bde02f8695d166e,
    0x4df282ab8fe0c84912c60b920535ab36652288ef1902310a7d5cafbd296dbece,
    0x4ea67c8f0f98c8772248f910de7bb197daec7d59ee6f77a8f59a1d1aabe1c492,
    0xde7fcb4f4b5d6f6e20a57158c01dae1d1b8744a3ae75bdafeb651d9468a6ec9b,
    0xc342b37cd951749659454ab097f0bf2ca29b256f671feeb0693573adf411a887,
    0x1d6835d562c56b09e6e85a1196db357eb5460874f5fc5ece0c8925d37ad7f7ea,
    0x413b3954ac103cad4b6efc6a660f2faab2f68d592a53c53782ff41491bc12d3f,
    0x8cc5c27239034a891d077af2761f8532c2795438dff6a0c299841e2673ad7f56,
    0x24b34795733784b1c76bb29960838913dafc6f79b4fde139cb0d831af0d18764,
    0x6156022d9ea1683dec426e99c2265c4a7bdfe8e737d30c69b0a8db2e0d59689c,
    0x5795c9b4540917ee42868292d61cf67b3ab7ca617536d1da342dd0b619b4a6cd,
    0xedb454260b638fff2aadfd4cdad4a00f9c68a5bf45a948a94a35d9db3820bb6f,
    0xda90c092df851ead6e130705a592d172d354c2b8ba47d9fc53c98308571daa29,
    0x65210f76aa85ee3dca373d10c379248b0f59f724f65911908805dabbd58938c2,
    0x0e4cb1fb45e97985a16fb3ca50fcad45df4d2d3efa1b308f05914a450f05311a,
    0x47ca7cdbf69ba25ede93c77259596850efa84b5154e26fe6b7732cdefbfd72c0,
    0x166fde5268a7a5ed4495e713f86c2eece7ad7676ca3110b9f26a3cecadb886cd,
    0x3032e455aaaa2e84da86427d55a1efbc775b84a48928832275ca56e4d9689ab8,
    0xba19659f694e41757b53f59a975f43873bc1165af3ac44ba53ac6b99d43214f9,
    0xc0f662f9111bb258f6d415c14f7fac8e156afa59cb2b20cfacb84e6d3a3b7d96,
    0x6ee6f45dd14ed9efc07b93ea2328765053333830f38dbad01e8d859d32ae946b,
    0x90f0066803e24e1c9ce8edc302f517f314d43b38e8b2b67f01bcb8c3a24a3dd6,
    0x633b47b444b21202fb1720353c0e02a199fe648b515a0e4ccaff6792f0847dc5,
    0xc2dd0291c6e76ce38637f57235a907a48336b67f5e54fceabbd77a5cc7458553,
    0xfdfbc82f439dcc141aff2924c0c2c22972f5bff6a5749d5ee6efe9168cdfaeb6,
    0x11e4a48a0d86c0090f55926aefca41c014df34352e9da3b51aa08102ce97a45d,
    0x236deb44e2e6d915feff47fe894d8e759617f78e6b93101ca78366f26cf58cf0,
    0x36723b4db51337be74eb7ec576e3ed521ed80ab9b77ec2eb6625d54dea95f1c4,
    0xa237f58a7549eb1d50e435bac65bb4e40f77d464741bde24b1c9571fbf2c6d7b,
    0x45e7c5f33180f9c68e6700037e7e3c04fac57fb9ff3bb7348aa461da27687ddb ]

def keystream : List UInt8 := ofLines
  [ 0x80161758c15780ecb76c3fbb1c4e738d33a62f3382067c7bfdd5932ca81c1483,
    0xe12ce9d1aa5d94f3a41e4753fc9a64fb09a9262298551ed2e07cfeac01b0d7be,
    0xb8fcf899bf3994079b4f0396b81a71e1abfab8ad5ba0cb19c4d7cff8674c55da,
    0xf3c9af7570611ab5899f54b9c353f2e5f2ed2dc8ee4567696c55699df416ffa1,
    0x84c1c77c3bf2c8e5ba3c903cdf04ee4f3baef42d6d49779f4197556d317f93bf ]

/-! The second transaction -/

def nonceDigest' : Bytes 32 :=
  ofHex 0x6a9cae469d98c0aae27873bc13e8799a199a43b23757b9f7175545b1d9d2cd2d

def commitment' : Bytes 32 :=
  ofHex 0x0f5003b2048a9ead615eb51083c8e9776f4561a5ddff1e5d2169e954bc565830

def nullifier' : Bytes 32 :=
  ofHex 0xd98855da3eaff693e1407c7590b7da53b5ed4387dda9c46d630b3b280c020136

def esk' : Bytes 32 :=
  ofHex 0x21bbeb95205ae55609f7d53f8c59883c38ba1613eefba8a0c5a634df2e485651

def sharedSecret' : Bytes 32 :=
  ofHex 0x988445e9d1ea8f1af6652e4deb03b359d989b1fb481e81eddb87dde079acdd4a

def key' : Bytes 32 :=
  ofHex 0x6e3105201a18eb4c1d1ca502b737f89bd01895b151830627da8345431319383e

def epk' : List UInt8 := ofLines
  [ 0x70e039b5d4fd70ff166702f68aac3f33071744a1372ef4cb86f94cfd20383e0e,
    0x1ee6d129c8d7ca72f1392f355071eec2c2acd68aca4fcdd9d4b6b2c372d4d583,
    0xf5542ea45b2d3a1b14e0782ba784ed5dedc5d269b8b2bafd13447dfeeedde1e7,
    0x339b08d56b739496a9bc6054e43db9ecac0208122451cde2eaef37b4f43b1e6e,
    0x8254ed33d63c0b5cc5597f3ecab3a1c0eb5b0b10a0dc6369e96928541b2f98ec,
    0x3fe36ac12f0d1699b5bb05c1b0dcaf4ba793b0f5d5c00bd0700fc2e67c362e7d,
    0xe74406409a92ff8f5be02d6ed87408bb61c41c2933853676ae09d10d32bf3b76,
    0x705c02de7cfab1764e675a967463eb66eae62341a65d9269d19d82ed1480484a,
    0x895e1f320c0dc29ec451d63f06026a90519f1a43eee4275b6d56336daabe4b86,
    0xc610082286cf69a065c643ce8f15f60b0330fc606ee252dbcccccb5fe32f0523,
    0x21c357d03c31f6cb6262c1b83b67f26eccc3893ca86da7c97d732d687daa80d6,
    0xe0414e7303e7bb26a320b06225eb2e94fc1b278b6504cdc760b8278d5165930d,
    0xc9afb702de876ea1e0828ecf7762732fff44eaa4d4dc46e596548bc35961cbc5,
    0x6b2f276825f6178273e00dd13a5e9e4b7531788b27a33411f4c61ca63a03b23d,
    0x57de729d2761d835dea3f1d5f17fb22382559fc8a6c67b085d81d91232596d6c,
    0xae48d98723af5eb9aeda223cc9b9bfa3b4eb178d9f565b6fed667cc69f08cb30,
    0x3de2de5c5623bef1588bc80a6320688495ba86a5e137aec729c12ea23680fb69,
    0x579f52808206cbe94bda03bc588ae0afe8392cafe2dd846ae47cd0afe7b4ce46,
    0xacfed6e305011a736b6e4dc6b945527dffca32abad739d7c9df9e9ba35a8d594,
    0x5fa3bfa3ed785f3e5fbc1ea2d1bf4a1423a71693e49d464876ece4c5087f846d,
    0x8aedec52257a6b29a761f75e8d20225b657e2c64703d7dbe1ef3fea3bf3f9514,
    0x54c76be479efa3ded9436c7856e5a291788b2a69fd7bb878455f25a4446a4b41,
    0x09db045bd4f8770e52c89237f7499d303e02eb5c4602b0adc683ce3aff862ea5,
    0x21490ff1e1e63faae1637e89bab2ed8e5e3c7155e03bba43d736ac3b01c281bb,
    0xcc6fb84c0a28ac85d5c906d4f11fc7229d1504f67da0864e7de201207e735bde,
    0x028327bac103e8b1e2da5bb4d3a63ef0c99a9affed66dc0b1cede17a930e8522,
    0x129ac4643ab4215b0e80c8188aae7b45c01c60077e6e1423b14b39eb977e687c,
    0x1b8ad5746ead50d29ad6bbf1c49260d065f757cc346dd06712f52d6316d1c5f9,
    0x3e9df288f42d28880bf9425ac1041385522e1da8b05f8671ac21ba79760c665c,
    0xaf29a1ccabc7a0dc3fa912827387b4877d0366ede42396b2148aecde7f07a5c5,
    0xd7102327a85c659d8a7fc51b971c4cf09f332ec33d40c82d1d1cef8e16ed095d,
    0xfd2d5915346fd010a829e60aebce52be5ec3f5d31ffdf0dc05772faa161cfbc4,
    0xb5b00ca682d55dcd66014446243fcd12de91fa3a057732602b853ee1cdca2916,
    0x99fd0638ae4aad6954a019fd21050ac50a4e6e3f0d3dad519d3aac1982f7d563 ]

def keystream' : List UInt8 := ofLines
  [ 0x3eeeb6141140f3810f563610668c3452c55aed54e248e3a5cf08be3c9b0bbf93,
    0xf6e13670502440427d20c07e8dfe0514d67ecd4640616388b3eaaa9e19f05f08,
    0x965e84b21f0d2826915875d4b911750c262cd0ed94da08fb2eeb0df7fb507a7f,
    0x80580bfc3fc10866e13b5066fd3f3cc32e3d807b75ba4e528c1cfd6d7c4fd891,
    0x4854693c2d28a99cc3776894f7fbb04cc246c6e036ebc0981219c74383622ffb ]

/-! The commitment tree: three leaves, and the nodes above them -/

def firstLeaf : Bytes 32 :=
  ofHex 0xfaedc0719b65771eebb714541a20c4e59a4afef981f1762729fd8dabb8470829

def secondLeaf : Bytes 32 :=
  ofHex 0x3238be020a7431d6d1ccef58150e3879f50233eba8ad04443e4ad78d5fd3eea7

def thirdLeaf : Bytes 32 :=
  ofHex 0x11bea104b51eead88089447379467731ae98033602121db6848ff66fdbc75a46

def leftPair : Bytes 32 :=
  ofHex 0x2ff3d2ea742a9913afd581f3bc2e658c4209ec26325326674c050c5c98717e6c

def rightPair : Bytes 32 :=
  ofHex 0xeccd80fb51e033f2d90848f3e99f2d30f3c0a6f8cce1c5273973e92eb6424778

def emptyData : Bytes 32 :=
  ofHex 0xe3b0c44298fc1c149afbf4c8996fb92427ae41e4649b934ca495991b7852b855

def writtenData : Bytes 32 :=
  ofHex 0x039058c6f2c0cb492c533b0a4d14ef77cc0f78abccced5287d84a1a2011cfb81

/-- What is hashed to a commitment to the account. -/
def commitmentBytes (nonce : List UInt8) (data : Bytes 32) : List UInt8 :=
  ascii "/LEE/v0.3/Commitment/" ++ replicate 11 0 ++ account.value.toList ++
    locker.toBytes.toList ++ Borsh.leBytes 16 0 ++ nonce ++ data.toList

def table : List (List UInt8 × Bytes 32) :=
  [ (ascii "/LEE-Keys/v1/Nullifier/Public" ++ nsk.toList, npk.value),
    (privatePdaBytes locker seed npk vpk 0, account.value),
    ([], emptyData),
    ([1, 2, 3], writtenData),
    (ascii "/LEE/v0.3/ViewTag/" ++ npk.value.toList ++ vpk.value.toList,
      ofHex 0x5bafb9dd7a0e1a70cf3fa221c4f006d86d5c107046fc24abbc5b502c01bdeb5f),
    (account.value.toList ++ replicate 32 0, nonceDigest),
    (commitmentBytes (nonceDigest.toList.take 16) emptyData, commitment),
    (ascii "/LEE/v0.3/Nullifier/Initialize/" ++ [0] ++ account.value.toList, nullifier),
    (ascii "/LEE/v0.3/esk/" ++ account.value.toList ++ replicate 32 3 ++
      nonceDigest.toList.take 16, esk),
    (ascii "LEE/v0.3/KDF-SHA256/" ++ sharedSecret.toList ++ nullifier.toList, key),
    (nsk.toList ++ (nonceDigest.toList.take 16 ++ replicate 16 0), nonceDigest'),
    (commitmentBytes (nonceDigest'.toList.take 16) writtenData, commitment'),
    (ascii "/LEE/v0.3/Nullifier/Update/" ++ replicate 5 0 ++ commitment.toList ++ nsk.toList,
      nullifier'),
    (ascii "/LEE/v0.3/esk/" ++ account.value.toList ++ replicate 32 4 ++
      nonceDigest'.toList.take 16, esk'),
    (ascii "LEE/v0.3/KDF-SHA256/" ++ sharedSecret'.toList ++ nullifier'.toList, key'),
    (dummyCommitment.value.toList, firstLeaf),
    (commitment.toList, secondLeaf),
    (commitment'.toList, thirdLeaf),
    (firstLeaf.toList ++ secondLeaf.toList, leftPair),
    (thirdLeaf.toList ++ replicate 32 0, rightPair),
    (leftPair.toList ++ rightPair.toList,
      ofHex 0x42c00f3e5b0974cd04d187ddb630310bbb1aabc4c76331af0b7acaaaf56ebdd1) ] ++
    -- the empty subtrees
    (defaultValues.zip defaultValues.tail).map fun entry =>
      (entry.1.toList ++ entry.1.toList, entry.2)

scoped instance sha : Sha256 := .ofTableOr (.replicate 32 255) table

scoped instance mlKem : MlKem where
  encapsulateDeterministic vpk₀ esk₀ :=
    if vpk₀ = vpk ∧ esk₀ = esk then some (sharedSecret, epk)
    else if vpk₀ = vpk ∧ esk₀ = esk' then some (sharedSecret', epk')
    else none

/-- The keystreams of the two keys, as far as they are needed. -/
def keystreamOf (key₀ : Bytes 32) (i : ℕ) : UInt8 :=
  if key₀ = key then keystream.getD i 0
  else if key₀ = key' then keystream'.getD i 0
  else 0

scoped instance chaCha20 : ChaCha20 where
  applyKeystream key₀ text := text.mapIdx fun i byte => byte ^^^ keystreamOf key₀ i

/-- The account, once it was claimed. -/
def claimed : Account :=
  { Account.ownedBy locker with nonce := Nonce.ofDigest nonceDigest }

/-- The outputs of the program in the two transactions. -/
def claimOutput : ProgramOutput :=
  .new locker none [] [⟨.default, false, account⟩] [.newClaimed .default (.pda seed)]

def writeOutput : ProgramOutput :=
  .new locker none [] [⟨claimed, false, account⟩]
    [.new { claimed with data := ⟨[1, 2, 3], by decide⟩ }]

def verify (programId : ProgramId) (output : ProgramOutput) : Bool :=
  decide (programId = locker ∧ (output = claimOutput ∨ output = writeOutput))

/-- The account is bound by the claim. -/
def claimInput : PrivacyPreservingCircuitInput where
  programOutputs := [claimOutput]
  accountIdentities :=
    [ .privateAccount
        { vpk, randomSeed := .replicate 32 3, identifier := 0
          kind := .pda none, nullifier := .init npk firstLeaf } ]
  programId := locker
  dummyInputs := []

/-- The account is bound by its witness. -/
def writeInput : PrivacyPreservingCircuitInput where
  programOutputs := [writeOutput]
  accountIdentities :=
    [ .privateAccount
        { vpk, randomSeed := .replicate 32 4, identifier := 0
          kind := .pda (some (locker, seed)), nullifier := .update 91 nsk (1, [firstLeaf]) } ]
  programId := locker
  dummyInputs := []

def circuit (input : PrivacyPreservingCircuitInput) :
    Except Circuit.Panic PrivacyPreservingCircuitOutput :=
  letI := sha
  letI := mlKem
  letI := chaCha20
  Circuit.main verify input

end Locker

section

open Locker

open Circuit

/-- The claim resolves the locker's seed to the account, and its note says so. -/
theorem locker_bound :
    ∃ output state, main verify claimInput = .ok output ∧
      deriveFromOutputs verify claimInput.accountIdentities
        claimInput.programId claimInput.programOutputs = .ok state ∧
      state.pdaFamilyBinding.lookup (locker, seed) = some account ∧
      ∃ note, (0, note) ∈ notesOf verify claimInput ∧
        note.pre.accountId = account ∧ ∃ action ∈ output.privateActions,
          Carries note (.pda locker seed 0) action := by
  obtain ⟨output, houtput⟩ : ∃ output, main verify claimInput = .ok output := by
    decide +kernel
  obtain ⟨state, hderive, -, hbound⟩ := private_pda_binding houtput
  obtain ⟨note, pair, hnote, -, hpre, -, hpair, -, -, haction⟩ := hbound 0 _ _ rfl rfl
  -- one pair is on record, and one account
  obtain ⟨hkeys, hids⟩ := (by decide +kernel :
    ∀ state, deriveFromOutputs verify claimInput.accountIdentities
      claimInput.programId claimInput.programOutputs = .ok state →
        state.pdaFamilyBinding.keys = [(locker, seed)] ∧
          state.preStates.map (·.accountId) = [account]) state hderive
  have hmem : pair ∈ state.pdaFamilyBinding.keys :=
    AList.mem_keys.mpr (lookup_isSome.mp (by rw [hpair]; rfl))
  obtain rfl : pair = (locker, seed) := by
    rw [hkeys] at hmem
    exact mem_singleton.mp hmem
  have hid : note.pre.accountId = account := by
    have hmem := mem_map_of_mem (f := (·.accountId)) (mem_of_getElem? hpre)
    rw [hids] at hmem
    exact mem_singleton.mp hmem
  exact ⟨output, state, houtput, hderive, hid ▸ hpair, note, hnote, hid, haction⟩

end

end Lssa
