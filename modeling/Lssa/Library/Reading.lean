/-
A reader that passes over what it cannot apply.

Entries are read one after the other.  An entry that applies to the state is taken and moves
the state on; any other entry is passed over and leaves it as it is.  `taken step s es` are the
entries taken and `reached step s es` is the state after them.

* `replay_taken` — the entries taken apply one after the other;
* `taken_of_replay` — if all entries apply one after the other, all of them are taken;
* `taken_eq_of_noise` — entries that are passed over make no difference, inserted or removed.

A reader may also start over, and then what it takes is no longer one pass through the entries.
`Exhausted R as es` says that nothing was missed all the same: no chain with `R` goes on from `as`
with its entries standing in `es` in order.

* `Exhausted.pass`, `Exhausted.take` — it is kept as entries are read.
-/
import Lssa.Library.TwoTier
import Mathlib.Logic.Relation

namespace Reading

open TwoTier

variable {σ β : Type} {step : σ → β → Option σ}

/-- The state after an entry. -/
def read (step : σ → β → Option σ) (s : σ) (e : β) : σ := (step s e).getD s

/-- The state after all entries. -/
def reached (step : σ → β → Option σ) (s : σ) (entries : List β) : σ :=
  entries.foldl (read step) s

/-- The entries that were applied. -/
def taken (step : σ → β → Option σ) : σ → List β → List β
  | _, [] => []
  | s, e :: es =>
    match step s e with
    | some t => e :: taken step t es
    | none => taken step s es

variable {s t : σ} {es es' : List β}

@[simp] theorem reached_cons (s : σ) (e : β) (es : List β) :
    reached step s (e :: es) = reached step (read step s e) es := rfl

theorem taken_cons_of_some {e : β} (h : step s e = some t) :
    taken step s (e :: es) = e :: taken step t es := by
  simp only [taken, h]

theorem taken_cons_of_none {e : β} (h : step s e = none) :
    taken step s (e :: es) = taken step s es := by
  simp only [taken, h]

theorem read_of_some {e : β} (h : step s e = some t) : read step s e = t := by
  rw [read, h, Option.getD_some]

theorem read_of_none {e : β} (h : step s e = none) : read step s e = s := by
  rw [read, h, Option.getD_none]

theorem taken_append (s : σ) (as bs : List β) :
    taken step s (as ++ bs) = taken step s as ++ taken step (reached step s as) bs := by
  induction as generalizing s with
  | nil => rfl
  | cons e as ih =>
    rw [List.cons_append, reached_cons]
    cases h : step s e with
    | some t =>
      rw [taken_cons_of_some h, taken_cons_of_some h, read_of_some h, ih, List.cons_append]
    | none => rw [taken_cons_of_none h, taken_cons_of_none h, read_of_none h, ih]

theorem taken_sublist (s : σ) (es : List β) : (taken step s es).Sublist es := by
  induction es generalizing s with
  | nil => exact .slnil
  | cons e es ih =>
    cases h : step s e with
    | some t =>
      rw [taken_cons_of_some h]
      exact (ih t).cons_cons e
    | none =>
      rw [taken_cons_of_none h]
      exact (ih s).cons e

/-- The entries taken apply one after the other. -/
theorem replay_taken (s : σ) (es : List β) :
    replay step s (taken step s es) = some (reached step s es) := by
  induction es generalizing s with
  | nil => rfl
  | cons e es ih =>
    rw [reached_cons]
    cases h : step s e with
    | some t =>
      rw [taken_cons_of_some h, read_of_some h]
      exact replay_cons_eq_some.mpr ⟨t, h, ih t⟩
    | none =>
      rw [taken_cons_of_none h, read_of_none h]
      exact ih s

/-- Entries that apply one after the other are all taken. -/
theorem taken_of_replay (h : replay step s es = some t) :
    taken step s es = es := by
  induction es generalizing s with
  | nil => rfl
  | cons e es ih =>
    obtain ⟨m, hstep, hrest⟩ := replay_cons_eq_some.mp h
    rw [taken_cons_of_some hstep, ih hrest]

/-- The second list has one entry more, which a reader of it passes over. -/
inductive Noise (step : σ → β → Option σ) (s : σ) : List β → List β → Prop
  | insert (as bs : List β) (e : β) (h : step (reached step s as) e = none) :
      Noise step s (as ++ bs) (as ++ e :: bs)

theorem Noise.taken_eq (h : Noise step s es es') :
    taken step s es = taken step s es' := by
  obtain ⟨as, bs, e, hnone⟩ := h
  rw [taken_append, taken_append, taken_cons_of_none hnone]

/-- Inserting and removing entries that are passed over changes nothing. -/
theorem taken_eq_of_noise (h : Relation.EqvGen (Noise step s) es es') :
    taken step s es = taken step s es' := by
  induction h with
  | rel _ _ h => exact h.taken_eq
  | refl => rfl
  | symm _ _ _ ih => exact ih.symm
  | trans _ _ _ _ _ ih ih' => exact ih.trans ih'

/-! ### Readers that start over -/

/-- No chain that stands in the entries goes on from `as`. -/
def Exhausted (R : List β → Prop) (as entries : List β) : Prop :=
  ∀ chain, R chain → chain.Sublist entries → as <+: chain → chain = as

namespace Exhausted

variable {R : List β → Prop} {as entries entries' : List β} {e : β}

theorem nil : Exhausted R as [] := by
  intro chain _ hsub hstart
  obtain rfl : chain = [] := List.sublist_nil.mp hsub
  exact (List.prefix_nil.mp hstart).symm

theorem mono (h : Exhausted R as entries) (hsub : entries'.Sublist entries) :
    Exhausted R as entries' :=
  fun chain hchain hchainSub hstart => h chain hchain (hchainSub.trans hsub) hstart

/-- A chain in one entry more is one in the entries before, or ends with the new entry. -/
theorem chain_concat {chain : List β} (hsub : chain.Sublist (entries ++ [e])) :
    chain.Sublist entries ∨ ∃ before, chain = before ++ [e] ∧ before.Sublist entries := by
  obtain ⟨before, last, rfl, hbefore, hlast⟩ := List.sublist_append_iff.mp hsub
  obtain rfl | rfl : last = [] ∨ last = [e] := List.sublist_singleton.mp hlast
  · rw [List.append_nil]
    exact .inl hbefore
  · exact .inr ⟨before, rfl, hbefore⟩

section

variable (hclosed : ∀ chain e, R (chain ++ [e]) → R chain) (h : Exhausted R as entries)

include hclosed h

/-- An entry that does not continue the chain is passed over. -/
theorem pass (he : ¬ R (as ++ [e])) : Exhausted R as (entries ++ [e]) := by
  intro chain hchain hsub hstart
  obtain hsub | ⟨before, rfl, hbefore⟩ := chain_concat hsub
  · exact h chain hchain hsub hstart
  · obtain hall | hstart := List.prefix_concat_iff.mp hstart
    · exact hall.symm
    · rw [h before (hclosed before e hchain) hbefore hstart] at hchain
      exact absurd hchain he

/-- An entry that continues the chain is taken. -/
theorem take :
    Exhausted R (as ++ [e]) (entries ++ [e]) := by
  intro chain hchain hsub hstart
  have hlonger : ∀ {before : List β}, R before → before.Sublist entries →
      ¬ (as ++ [e] <+: before) := by
    intro before hbefore hbeforeSub hlong
    have hlength := hlong.length_le
    rw [h before hbefore hbeforeSub ((List.prefix_append as [e]).trans hlong),
      List.length_append, List.length_singleton] at hlength
    omega
  obtain hsub | ⟨before, rfl, hbefore⟩ := chain_concat hsub
  · exact absurd hstart (hlonger hchain hsub)
  · obtain hall | hstart := List.prefix_concat_iff.mp hstart
    · exact hall.symm
    · exact absurd hstart (hlonger (hclosed before e hchain) hbefore)

end

end Exhausted

end Reading
