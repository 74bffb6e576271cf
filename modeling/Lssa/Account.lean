/-
Accounts.

The data every other part of the system talks about, as
`lee/state_machine/core/src/account.rs` and `program/mod.rs` define it:

* `AccountId` — 32 raw bytes; a program is stored under the bytes of its own
  `ProgramId` (`ofProgramId`), a bijection in both directions;
* `Account` — owner, balance, data and nonce; the owner of an account nobody
  has claimed is `defaultProgramOwner`;
* `AccountWithMetadata` — an account as it is handed to a program.

SHA-256 is a parameter (`Sha256`).  Where an argument rests on collision
resistance, it says of which digests (`Sha256.Unambiguous`).
-/
import Mathlib.Data.Fin.Basic
import Mathlib.Data.List.AList
import Mathlib.Data.ZMod.Defs
import Lssa.Library.Borsh

open Borsh

namespace Lssa

export AList (lookup_eq_none lookup_insert lookup_insert_ne lookup_isSome mem_lookup_iff)
export Option (any_eq_true bind_eq_bind bind_eq_some_iff bind_some elim_none elim_some getD_none
  getD_some isSome_iff_exists ite_none_right_eq_some map_none map_some none_or some.inj some_inj
  some_ne_none)
export Except (ok.inj)
export List (append_assoc append_inj append_nil cons.inj filter_append foldlM_cons forall_mem_append
  forall_mem_cons forall_mem_singleton getElem?_eq_getElem getElem?_eq_some_iff getElem?_map
  length_append length_cons length_map length_set length_singleton length_take map_append
  map_congr_left map_cons map_map map_nil map_singleton map_take mem_append mem_append_left
  mem_append_right mem_cons mem_cons_of_mem mem_cons_self mem_filterMap mem_flatMap mem_iff_getElem?
  mem_map mem_map_of_mem mem_of_getElem? mem_pair mem_singleton mem_toFinset nil_append nil_subset
  nodup_cons not_mem_nil of_mem_zip pairwise_map prefix_append replicate reverseRecOn take_length
  take_of_length_le zipIdx_cons zip_cons_cons)

/-- `u128`, with wrapping arithmetic. -/
abbrev U128 := Fin (2 ^ 128)

/-- `u64`, with wrapping arithmetic. -/
abbrev U64 := Fin (2 ^ 64)

/-- `u32`, with wrapping arithmetic. -/
abbrev U32 := Fin (2 ^ 32)

instance instNeZeroU128 : NeZero (2 ^ 128) := ⟨by decide⟩

instance instNeZeroU64 : NeZero (2 ^ 64) := ⟨by decide⟩

instance instNeZeroU32 : NeZero (2 ^ 32) := ⟨by decide⟩

/-- `checked_add`. -/
def checkedAdd {n : ℕ} (a b : Fin n) : Option (Fin n) :=
  if h : a.val + b.val < n then some ⟨a.val + b.val, h⟩ else none

theorem checkedAdd_eq_some {n : ℕ} {a b c : Fin n} :
    checkedAdd a b = some c ↔ c.val = a.val + b.val := by
  unfold checkedAdd
  have hc := c.isLt
  split
  · rw [some_inj, Fin.ext_iff]
    exact eq_comm
  · refine iff_of_false (by simp) ?_
    omega

/-- `[u8; n]`. -/
abbrev Bytes (n : ℕ) := List.Vector UInt8 n

abbrev BlockId := U64

/-- Unix timestamp in milliseconds. -/
abbrev Timestamp := U64

abbrev Balance := U128

/-- The bytes of an ASCII text. -/
def ascii (text : String) : List UInt8 :=
  text.toList.map fun c => UInt8.ofNat c.toNat

/-! ### Hashing -/

/-- SHA-256, `Impl::hash_bytes` of the zkVM. -/
class Sha256 where
  hashBytes : List UInt8 → Bytes 32

/-- At most one byte string has this digest. -/
def Sha256.Unambiguous [Sha256] (digest : Bytes 32) : Prop :=
  ∀ x y, hashBytes x = digest → hashBytes y = digest → x = y

/-- A hash known on finitely many inputs. -/
@[reducible] def Sha256.ofTable (table : List (List UInt8 × Bytes 32)) : Sha256 where
  hashBytes bytes := (table.lookup bytes).getD (.replicate 32 0)

/-- A hash known on finitely many inputs, with one digest for all others. -/
@[reducible] def Sha256.ofTableOr (fallback : Bytes 32) (table : List (List UInt8 × Bytes 32)) :
    Sha256 where
  hashBytes bytes := (table.lookup bytes).getD fallback

variable {table : List (List UInt8 × Bytes 32)} {digest : Bytes 32}

theorem Sha256.mem_of_hashBytes {fallback : Bytes 32} (hdigest : digest ≠ fallback)
    {x : List UInt8} (h : (Sha256.ofTableOr fallback table).hashBytes x = digest) :
    (x, digest) ∈ table := by
  change (table.lookup x).getD fallback = digest at h
  cases hlook : table.lookup x with
  | none =>
    rw [hlook, getD_none] at h
    exact absurd h.symm hdigest
  | some found =>
    rw [hlook, getD_some] at h
    obtain ⟨before, after, heq, -⟩ := List.lookup_eq_some_iff.mp hlook
    rw [heq, h]
    exact mem_append_right _ mem_cons_self

theorem Sha256.unambiguous_ofTableOr {fallback : Bytes 32} (hdigest : digest ≠ fallback)
    (hunique : ∀ e ∈ table, ∀ e' ∈ table, e.2 = digest → e'.2 = digest → e.1 = e'.1) :
    (Sha256.ofTableOr fallback table).Unambiguous digest := by
  intro x y hx hy
  exact hunique _ (mem_of_hashBytes hdigest hx) _ (mem_of_hashBytes hdigest hy) rfl rfl

theorem Sha256.unambiguous_ofTable (hdigest : digest ≠ .replicate 32 0)
    (hunique : ∀ e ∈ table, ∀ e' ∈ table, e.2 = digest → e'.2 = digest → e.1 = e'.1) :
    (Sha256.ofTable table).Unambiguous digest :=
  Sha256.unambiguous_ofTableOr hdigest hunique

/-! ### Identifiers -/

structure AccountId where
  value : Bytes 32
  deriving DecidableEq

instance : Inhabited AccountId := ⟨⟨.replicate 32 0⟩⟩

/-- An account id is written as its bytes. -/
def AccountId.codec : Codec AccountId := (Codec.bytes 32).equiv
  { toFun := AccountId.mk
    invFun := AccountId.value
    left_inv := fun _ => rfl
    right_inv := fun _ => rfl }

/-- Eight little-endian words: the image id of the program's code. -/
abbrev ProgramId := List.Vector UInt32 8

/-- The bytes of a program id, as `bytemuck` casts them. -/
def ProgramId.toBytes (programId : ProgramId) : Bytes 32 :=
  ⟨leWords programId.toList, by rw [length_leWords, List.Vector.toList_length]⟩

/-- `From<ProgramId> for AccountId`. -/
def AccountId.ofProgramId (programId : ProgramId) : AccountId :=
  ⟨programId.toBytes⟩

export AccountId (ofProgramId)

/-- `From<AccountId> for ProgramId`. -/
def AccountId.toProgramId (accountId : AccountId) : ProgramId :=
  ⟨ofLeWords accountId.value.toList, by
    rw [length_ofLeWords, List.Vector.toList_length]⟩

@[simp] theorem AccountId.toProgramId_ofProgramId (programId : ProgramId) :
    (ofProgramId programId).toProgramId = programId := by
  apply List.Vector.eq
  exact ofLeWords_leWords programId.toList

@[simp] theorem AccountId.ofProgramId_toProgramId (accountId : AccountId) :
    ofProgramId accountId.toProgramId = accountId := by
  rcases accountId with ⟨v⟩
  refine congrArg AccountId.mk (List.Vector.eq _ _ ?_)
  exact leWords_ofLeWords (n := 8) v.toList v.toList_length

theorem AccountId.ofProgramId_injective : Function.Injective ofProgramId :=
  Function.LeftInverse.injective toProgramId_ofProgramId
/-- Owner of an account that no program has claimed. -/
def defaultProgramOwner : AccountId := ⟨.replicate 32 0⟩

export AccountId (ofProgramId_injective toProgramId_ofProgramId)

/-- Owner of the accounts that hold deployed programs. -/
def programStorageOwner : AccountId := ⟨.replicate 32 0xFF⟩

/-! ### Accounts -/

structure Nonce where
  value : U128
  deriving DecidableEq

/-- `public_account_nonce_increment`; `none` is the overflow panic. -/
def Nonce.publicAccountNonceIncrement (nonce : Nonce) : Option Nonce :=
  if h : nonce.value.val + 1 < 2 ^ 128 then some ⟨⟨nonce.value.val + 1, h⟩⟩ else none

/-- `DATA_MAX_LENGTH`: 700 KiB. -/
def dataMaxLength : ℕ := 700 * 1024

/-- Account data: no longer than `dataMaxLength`. -/
@[ext] structure Data where
  bytes : List UInt8
  length_le : bytes.length ≤ dataMaxLength
  deriving DecidableEq

namespace Data

def empty : Data := ⟨[], Nat.zero_le _⟩

/-- `TryFrom<Vec<u8>> for Data`. -/
def tryFrom (bytes : List UInt8) : Option Data :=
  if h : bytes.length ≤ dataMaxLength then some ⟨bytes, h⟩ else none

theorem tryFrom_eq_some {bytes : List UInt8} {data : Data} :
    tryFrom bytes = some data ↔ data.bytes = bytes := by
  unfold tryFrom
  split
  · rw [some_inj]
    exact ⟨fun h => h ▸ rfl, fun h => Data.ext h.symm⟩
  · rename_i hlong
    refine iff_of_false (by simp) ?_
    rintro rfl
    exact hlong data.length_le

end Data

structure Account where
  programOwner : AccountId
  balance : Balance
  data : Data
  nonce : Nonce
  deriving DecidableEq

/-- `Account::default()`. -/
def Account.default : Account :=
  { programOwner := defaultProgramOwner, balance := 0, data := Data.empty, nonce := ⟨0⟩ }

/-- An account as a program receives it. -/
structure AccountWithMetadata where
  account : Account
  isAuthorized : Bool
  accountId : AccountId
  deriving DecidableEq

end Lssa
