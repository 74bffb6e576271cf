/-
Byte codecs in the Borsh format.

A `Codec` is an encoder together with a decoder that reads a value off the
front of a byte string and returns the rest.  Both laws are fields: what was
encoded decodes to itself whatever follows (`decode_encode`), and whatever
decodes is the encoding of what it decodes to (`encode_decode`).  The format is
therefore canonical, and decoding a whole byte string is the inverse of
encoding (`fromSlice_eq_some`).

Integers are little-endian and of fixed width, byte arrays are written as they
are, enumerations carry a tag byte, sequences and texts a four-byte count.
-/
import Mathlib.Data.Vector.Basic
import Mathlib.Data.Fintype.Basic
import Mathlib.Logic.Equiv.Defs

open List (append_assoc flatMap_cons length_cons)

namespace Borsh

open Option (bind_eq_some_iff bind_some map_eq_some_iff map_some some.inj some_inj)

/-- The low `n` bytes of `x`, least significant first. -/
def leBytes : ℕ → ℕ → List UInt8
  | 0, _ => []
  | n + 1, x => UInt8.ofNat (x % 256) :: leBytes n (x / 256)

/-- The number that little-endian bytes spell. -/
def ofLeBytes : List UInt8 → ℕ
  | [] => 0
  | b :: bs => b.toNat + 256 * ofLeBytes bs

@[simp] theorem length_leBytes (n x : ℕ) : (leBytes n x).length = n := by
  induction n generalizing x with
  | zero => rfl
  | succ n ih => rw [leBytes, length_cons, ih]

theorem ofLeBytes_leBytes (n x : ℕ) : ofLeBytes (leBytes n x) = x % 256 ^ n := by
  induction n generalizing x with
  | zero => rw [leBytes, ofLeBytes, pow_zero, Nat.mod_one]
  | succ n ih =>
    have hbyte : (UInt8.ofNat (x % 256)).toNat = x % 256 := by simp
    rw [leBytes, ofLeBytes, ih, hbyte, pow_succ, mul_comm (256 ^ n) 256, Nat.mod_mul]

theorem leBytes_ofLeBytes (bs : List UInt8) : leBytes bs.length (ofLeBytes bs) = bs := by
  induction bs with
  | nil => rfl
  | cons b bs ih =>
    have hb : b.toNat < 256 := b.toNat_lt
    have hmod : (b.toNat + 256 * ofLeBytes bs) % 256 = b.toNat := by omega
    have hdiv : (b.toNat + 256 * ofLeBytes bs) / 256 = ofLeBytes bs := by omega
    rw [length_cons, ofLeBytes, leBytes, hmod, hdiv, ih]
    simp

theorem ofLeBytes_lt (bs : List UInt8) : ofLeBytes bs < 256 ^ bs.length := by
  induction bs with
  | nil => simp [ofLeBytes]
  | cons b bs ih =>
    have hb : b.toNat < 256 := b.toNat_lt
    rw [ofLeBytes, length_cons, pow_succ]
    omega

/-! ### Little-endian words -/

/-- 32-bit words as bytes. -/
def leWords (ws : List UInt32) : List UInt8 :=
  ws.flatMap fun w => leBytes 4 w.toNat

/-- The 32-bit words that whole groups of four bytes spell. -/
def ofLeWords : List UInt8 → List UInt32
  | a :: b :: c :: d :: bs => UInt32.ofNat (ofLeBytes [a, b, c, d]) :: ofLeWords bs
  | _ => []

@[simp] theorem length_leWords (ws : List UInt32) : (leWords ws).length = 4 * ws.length := by
  simp [leWords, mul_comm]

theorem length_ofLeWords (bs : List UInt8) : (ofLeWords bs).length = bs.length / 4 := by
  fun_induction ofLeWords bs with
  | case1 a b c d bs ih =>
    simp only [length_cons, ih]
    omega
  | case2 bs h =>
    rcases bs with _ | ⟨a, _ | ⟨b, _ | ⟨c, _ | ⟨d, bs⟩⟩⟩⟩
    · simp
    · simp
    · simp
    · simp
    · exact absurd rfl (h a b c d bs)

theorem ofLeWords_leWords (ws : List UInt32) : ofLeWords (leWords ws) = ws := by
  induction ws with
  | nil => rfl
  | cons w ws ih =>
    have hw : ofLeBytes (leBytes 4 w.toNat) = w.toNat := by
      rw [ofLeBytes_leBytes]
      exact Nat.mod_eq_of_lt w.toNat_lt
    change UInt32.ofNat (ofLeBytes (leBytes 4 w.toNat)) :: ofLeWords (leWords ws) = w :: ws
    rw [hw, ih, UInt32.ofNat_toNat]

theorem leWords_ofLeWords {n : ℕ} (bs : List UInt8) (h : bs.length = 4 * n) :
    leWords (ofLeWords bs) = bs := by
  induction n generalizing bs with
  | zero => rw [List.length_eq_zero_iff.mp (by omega : bs.length = 0)]; rfl
  | succ n ih =>
    rcases bs with _ | ⟨a, _ | ⟨b, _ | ⟨c, _ | ⟨d, bs⟩⟩⟩⟩
    · simp at h
    · simp only [length_cons, List.length_nil] at h; omega
    · simp only [length_cons, List.length_nil] at h; omega
    · simp only [length_cons, List.length_nil] at h; omega
    have hlt : ofLeBytes [a, b, c, d] < 2 ^ 32 := by simpa using ofLeBytes_lt [a, b, c, d]
    have hword : (UInt32.ofNat (ofLeBytes [a, b, c, d])).toNat = ofLeBytes [a, b, c, d] := by
      rw [UInt32.toNat_ofNat', Nat.mod_eq_of_lt hlt]
    have hbytes : leBytes 4 (ofLeBytes [a, b, c, d]) = [a, b, c, d] :=
      leBytes_ofLeBytes [a, b, c, d]
    rw [ofLeWords, leWords, flatMap_cons, hword, hbytes]
    simp only [length_cons] at h
    exact congrArg ([a, b, c, d] ++ ·) (ih bs (by omega))

/-- An encoder and a decoder that are inverse to each other. -/
structure Codec (α : Type) where
  encode : α → List UInt8
  decode : List UInt8 → Option (α × List UInt8)
  decode_encode : ∀ a rest, decode (encode a ++ rest) = some (a, rest)
  encode_decode : ∀ {bs a rest}, decode bs = some (a, rest) → bs = encode a ++ rest

namespace Codec

variable {α β : Type}

/-- Decode a byte string that must be used up. -/
def fromSlice (c : Codec α) (bs : List UInt8) : Option α :=
  match c.decode bs with
  | some (a, []) => some a
  | _ => none

/-- Decoding a whole byte string is the inverse of encoding. -/
theorem fromSlice_eq_some {c : Codec α} {bs : List UInt8} {a : α} :
    c.fromSlice bs = some a ↔ bs = c.encode a := by
  constructor
  · intro h
    unfold fromSlice at h
    split at h
    · rename_i hd
      rw [some_inj] at h
      subst h
      simpa using c.encode_decode hd
    · cases h
  · rintro rfl
    have hd := c.decode_encode a []
    rw [List.append_nil] at hd
    rw [fromSlice, hd]

@[simp] theorem fromSlice_encode (c : Codec α) (a : α) : c.fromSlice (c.encode a) = some a :=
  fromSlice_eq_some.mpr rfl

/-- Different values have different encodings. -/
theorem encode_injective (c : Codec α) : Function.Injective c.encode := by
  intro a b h
  have hdecode := c.fromSlice_encode a
  rw [h, fromSlice_encode] at hdecode
  exact (some.inj hdecode).symm

/-! ### Building blocks -/

/-- `[u8; n]`. -/
def bytes (n : ℕ) : Codec (List.Vector UInt8 n) where
  encode v := v.toList
  decode bs :=
    if h : n ≤ bs.length then some (⟨bs.take n, by simp [h]⟩, bs.drop n) else none
  decode_encode := by
    rintro ⟨l, rfl⟩ rest
    simp [List.Vector.toList]
  encode_decode := by
    intro bs v rest h
    split at h
    · obtain ⟨rfl, rfl⟩ := by simpa using h
      exact (List.take_append_drop n bs).symm
    · cases h

/-- The format of a `u8`. -/
def u8 : Codec UInt8 where
  encode b := [b]
  decode
    | [] => none
    | b :: bs => some (b, bs)
  decode_encode := fun _ _ => rfl
  encode_decode := by
    rintro (_ | ⟨b, bs⟩) a rest h
    · cases h
    · cases h
      rfl

/-- The format of a `bool`. -/
def bool : Codec Bool where
  encode b := [if b then 1 else 0]
  decode
    | [] => none
    | tag :: bs =>
      if tag = 0 then some (false, bs) else if tag = 1 then some (true, bs) else none
  decode_encode := by
    rintro (_ | _) rest <;> rfl
  encode_decode := by
    rintro (_ | ⟨tag, bs⟩) b rest h
    · cases h
    · simp only at h
      split at h
      · rename_i htag
        cases h
        rw [htag]
        rfl
      · split at h
        · rename_i htag
          cases h
          rw [htag]
          rfl
        · cases h

/-- An unsigned integer of `n` bytes. -/
def uint (n m : ℕ) (hm : m = 256 ^ n) : Codec (Fin m) where
  encode x := leBytes n x.val
  decode bs :=
    if h : n ≤ bs.length then
      some (⟨ofLeBytes (bs.take n), by
        have := ofLeBytes_lt (bs.take n)
        rwa [List.length_take, min_eq_left h, ← hm] at this⟩, bs.drop n)
    else none
  decode_encode := by
    intro x rest
    have hlen : n ≤ (leBytes n x.val ++ rest).length := by simp
    rw [dif_pos hlen]
    have htake : (leBytes n x.val ++ rest).take n = leBytes n x.val :=
      List.take_left' (length_leBytes n _)
    have hdrop : (leBytes n x.val ++ rest).drop n = rest :=
      List.drop_left' (length_leBytes n _)
    have hval : ofLeBytes (leBytes n x.val) = x.val := by
      rw [ofLeBytes_leBytes, ← hm, Nat.mod_eq_of_lt x.isLt]
    simp only [htake, hdrop, hval]
  encode_decode := by
    intro bs x rest h
    split at h
    · rename_i hlen
      obtain ⟨rfl, rfl⟩ := by simpa using h
      have htake : (bs.take n).length = n := by simp [hlen]
      have := leBytes_ofLeBytes (bs.take n)
      rw [htake] at this
      rw [this]
      exact (List.take_append_drop n bs).symm
    · cases h

/-- The format of a `u32`. -/
abbrev u32 : Codec (Fin (2 ^ 32)) := uint 4 (2 ^ 32) rfl

/-- The format of a `u64`. -/
abbrev u64 : Codec (Fin (2 ^ 64)) := uint 8 (2 ^ 64) rfl

/-- The format of a `u128`. -/
abbrev u128 : Codec (Fin (2 ^ 128)) := uint 16 (2 ^ 128) rfl

/-- Two values one after the other. -/
def pair (c : Codec α) (d : Codec β) : Codec (α × β) where
  encode p := c.encode p.1 ++ d.encode p.2
  decode bs := (c.decode bs).bind fun x => (d.decode x.2).map fun y => ((x.1, y.1), y.2)
  decode_encode := by
    rintro ⟨a, b⟩ rest
    rw [append_assoc, c.decode_encode, bind_some, d.decode_encode, map_some]
  encode_decode := by
    rintro bs ⟨a, b⟩ rest h
    obtain ⟨⟨a', bs'⟩, hc, hd⟩ := bind_eq_some_iff.mp h
    obtain ⟨⟨b', rest'⟩, hd', hp⟩ := map_eq_some_iff.mp hd
    simp only [Prod.mk.injEq] at hp
    obtain ⟨⟨rfl, rfl⟩, rfl⟩ := hp
    have hrest : bs' = d.encode b' ++ rest' := d.encode_decode hd'
    rw [c.encode_decode hc, hrest, append_assoc]

/-- The same bytes for the values of an equivalent type. -/
def equiv (c : Codec α) (e : α ≃ β) : Codec β where
  encode b := c.encode (e.symm b)
  decode bs := (c.decode bs).map fun x => (e x.1, x.2)
  decode_encode := by
    intro b rest
    rw [c.decode_encode, map_some, Equiv.apply_symm_apply]
  encode_decode := by
    intro bs b rest h
    obtain ⟨⟨a, rest'⟩, hc, hp⟩ := map_eq_some_iff.mp h
    simp only [Prod.mk.injEq] at hp
    obtain ⟨rfl, rfl⟩ := hp
    rw [Equiv.symm_apply_apply]
    exact c.encode_decode hc

/-- A value of a subtype: other values do not decode. -/
def subtype (c : Codec α) (p : α → Prop) [DecidablePred p] : Codec {a // p a} where
  encode a := c.encode a.val
  decode bs := (c.decode bs).bind fun x => if h : p x.1 then some (⟨x.1, h⟩, x.2) else none
  decode_encode := by
    rintro ⟨a, ha⟩ rest
    rw [c.decode_encode, bind_some, dif_pos ha]
  encode_decode := by
    rintro bs ⟨a, ha⟩ rest h
    obtain ⟨⟨a', rest'⟩, hc, hp⟩ := bind_eq_some_iff.mp h
    split at hp
    · simp only [some_inj, Prod.mk.injEq, Subtype.mk.injEq] at hp
      obtain ⟨rfl, rfl⟩ := hp
      exact c.encode_decode hc
    · cases hp

/-- `Option`: a tag byte, then the value if there is one. -/
def option (c : Codec α) : Codec (Option α) where
  encode
    | none => [0]
    | some a => 1 :: c.encode a
  decode
    | [] => none
    | tag :: bs =>
      if tag = 0 then some (none, bs)
      else if tag = 1 then (c.decode bs).map fun x => (some x.1, x.2)
      else none
  decode_encode := by
    rintro (_ | a) rest
    · rfl
    · simp [c.decode_encode]
  encode_decode := by
    intro bs o rest h
    rcases bs with _ | ⟨tag, bs⟩
    · cases h
    · simp only at h
      split at h
      · rename_i htag
        cases h
        rw [htag]
        rfl
      · split at h
        · rename_i htag
          obtain ⟨⟨a, rest'⟩, hc, hp⟩ := map_eq_some_iff.mp h
          obtain ⟨rfl, rfl⟩ := Prod.mk.inj hp
          rw [htag, c.encode_decode hc]
          rfl
        · cases h

/-- An enumeration: a tag byte, then the fields of that variant. -/
def variants {n : ℕ} (hn : n ≤ 256) {F : Fin n → Type} (c : ∀ i, Codec (F i)) :
    Codec (Σ i, F i) where
  encode v := UInt8.ofNat v.1.val :: (c v.1).encode v.2
  decode
    | [] => none
    | tag :: bs =>
      if h : tag.toNat < n then
        ((c ⟨tag.toNat, h⟩).decode bs).map fun x => (⟨⟨tag.toNat, h⟩, x.1⟩, x.2)
      else none
  decode_encode := by
    rintro ⟨⟨i, hi⟩, f⟩ rest
    have htag : (UInt8.ofNat i).toNat = i := by
      simp only [UInt8.toNat_ofNat']
      omega
    have hcast : ∀ j (hj : j = i) (hjn : j < n),
        ((c ⟨j, hjn⟩).decode ((c ⟨i, hi⟩).encode f ++ rest)).map
            (fun x => ((⟨⟨j, hjn⟩, x.1⟩ : Σ i, F i), x.2))
          = some (⟨⟨i, hi⟩, f⟩, rest) := by
      rintro j rfl hjn
      rw [(c ⟨j, hi⟩).decode_encode, map_some]
    simp only [List.cons_append]
    rw [dif_pos (by rw [htag]; exact hi)]
    exact hcast _ htag _
  encode_decode := by
    rintro bs ⟨i, f⟩ rest h
    rcases bs with _ | ⟨tag, bs⟩
    · cases h
    · simp only at h
      split at h
      · obtain ⟨⟨f', rest'⟩, hc, hp⟩ := map_eq_some_iff.mp h
        simp only [Prod.mk.injEq, Sigma.mk.injEq] at hp
        obtain ⟨⟨rfl, hf⟩, rfl⟩ := hp
        rw [heq_eq_eq] at hf
        subst hf
        rw [(c _).encode_decode hc]
        simp
      · cases h

/-- Read a number of items. -/
def decodeMany (c : Codec α) : ℕ → List UInt8 → Option (List α × List UInt8)
  | 0, bs => some ([], bs)
  | n + 1, bs => (c.decode bs).bind fun x => (c.decodeMany n x.2).map fun y => (x.1 :: y.1, y.2)

theorem decodeMany_flatMap (c : Codec α) (items : List α) (rest : List UInt8) :
    c.decodeMany items.length (items.flatMap c.encode ++ rest) = some (items, rest) := by
  induction items with
  | nil => rfl
  | cons a items ih =>
    rw [flatMap_cons, append_assoc, length_cons, decodeMany, c.decode_encode,
      bind_some, ih, map_some]

theorem eq_flatMap_of_decodeMany {c : Codec α} {n : ℕ} {bs rest : List UInt8} {items : List α}
    (h : c.decodeMany n bs = some (items, rest)) :
    items.length = n ∧ bs = items.flatMap c.encode ++ rest := by
  induction n generalizing bs items with
  | zero =>
    cases h
    exact ⟨rfl, rfl⟩
  | succ n ih =>
    obtain ⟨⟨a, bs'⟩, ha, hmany⟩ := bind_eq_some_iff.mp h
    obtain ⟨⟨items', rest'⟩, hitems, heq⟩ := map_eq_some_iff.mp hmany
    obtain ⟨rfl, rfl⟩ := Prod.mk.inj heq
    obtain ⟨hlen, hbs⟩ := ih hitems
    simp only at hbs
    rw [c.encode_decode ha, hbs, flatMap_cons, append_assoc]
    exact ⟨congrArg (· + 1) hlen, rfl⟩

/-- A sequence: its length as four bytes, then its items. -/
def vec (c : Codec α) : Codec {items : List α // items.length < 2 ^ 32} where
  encode v := leBytes 4 v.val.length ++ v.val.flatMap c.encode
  decode bs := (u32.decode bs).bind fun x =>
    (c.decodeMany x.1.val x.2).bind fun y =>
      if h : y.1.length < 2 ^ 32 then some (⟨y.1, h⟩, y.2) else none
  decode_encode := by
    rintro ⟨items, hlen⟩ rest
    have hcount : u32.decode
        (leBytes 4 items.length ++ (items.flatMap c.encode ++ rest)) = _ :=
      u32.decode_encode ⟨items.length, hlen⟩ _
    rw [append_assoc, hcount, bind_some, c.decodeMany_flatMap, bind_some, dif_pos hlen]
  encode_decode := by
    rintro bs ⟨items, hlen⟩ rest h
    obtain ⟨⟨count, bs'⟩, hcount, h⟩ := bind_eq_some_iff.mp h
    obtain ⟨⟨items', rest'⟩, hmany, h⟩ := bind_eq_some_iff.mp h
    obtain ⟨hlength, hbs⟩ := eq_flatMap_of_decodeMany hmany
    split at h
    · obtain ⟨hitems, rfl⟩ := Prod.mk.inj (some.inj h)
      obtain rfl := Subtype.mk.inj hitems
      have hbytes : bs = leBytes 4 count.val ++ bs' := u32.encode_decode hcount
      simp only at hbs hlength
      rw [hbytes, hbs, append_assoc, hlength]
    · cases h

/-! ### Texts -/

theorem flatMap_u8 (bs : List UInt8) : bs.flatMap u8.encode = bs := by
  induction bs with
  | nil => rfl
  | cons b bs ih =>
    rw [flatMap_cons, ih]
    rfl

end Codec

/-- A text whose length fits four bytes. -/
abbrev Text := {text : String // text.utf8ByteSize < 2 ^ 32}

/-- The text in UTF-8. -/
def Text.bytes (text : Text) : List UInt8 := text.val.toByteArray.data.toList

namespace Codec

/-- `String`: a count of bytes, then the text in UTF-8. -/
def string : Codec Text :=
  ((vec u8).subtype fun items => (ByteArray.mk items.val.toArray).IsValidUTF8).equiv
    { toFun := fun items =>
        ⟨String.ofByteArray ⟨items.val.val.toArray⟩ items.property, items.val.property⟩
      invFun := fun text => ⟨⟨text.bytes, text.property⟩, text.val.isValidUTF8⟩
      left_inv := fun _ => rfl
      right_inv := fun _ => rfl }

theorem string_encode (text : Text) :
    string.encode text = leBytes 4 text.bytes.length ++ text.bytes := by
  show leBytes 4 text.bytes.length ++ text.bytes.flatMap u8.encode = _
  rw [flatMap_u8]

end Codec

end Borsh
