/-
A log in two tiers.

Entries are applied to a state one after the other, and an entry may fail to apply:
`replay step s es` is the state after all of `es`.  A log in two tiers is a list of final
entries and, after it, a list of tentative ones, the head.  Final entries stay; the head can
be cut back and grow again, and a beginning of it can become final.  `Tiers step origin
final head low top` says that the two lists replay from `origin` to `low` and from there to
`top`; it is kept by everything that may happen to such a log:

* `Tiers.truncate` — the head is cut back;
* `Tiers.extend` — the head is cut back and grows by an entry;
* `Tiers.settle` — a beginning of the head becomes final;
* `Tiers.rebase` — an entry becomes final on its own and the head is dropped.
-/
import Mathlib.Data.List.Basic

namespace TwoTier

variable {σ β : Type} {step : σ → β → Option σ}

/-- Apply entries one after the other. -/
def replay (step : σ → β → Option σ) (s : σ) (entries : List β) : Option σ :=
  entries.foldlM step s

variable {s t : σ}

theorem replay_cons_eq_some {e : β} {es : List β} :
    replay step s (e :: es) = some t ↔ ∃ m, step s e = some m ∧ replay step m es = some t := by
  rw [replay, List.foldlM_cons]
  exact Option.bind_eq_some_iff

theorem replay_append_eq_some {as bs : List β} :
    replay step s (as ++ bs) = some t ↔
      ∃ m, replay step s as = some m ∧ replay step m bs = some t := by
  rw [replay, List.foldlM_append]
  exact Option.bind_eq_some_iff

theorem replay_singleton {e : β} : replay step s [e] = step s e := by
  rw [replay, List.foldlM_cons]
  exact bind_pure (step s e)

/-- A replay passes through every beginning of its entries. -/
theorem replay_take {es : List β} (h : replay step s es = some t) (i : ℕ) :
    ∃ m, replay step s (es.take i) = some m ∧ replay step m (es.drop i) = some t := by
  rw [← List.take_append_drop i es] at h
  exact replay_append_eq_some.mp h

/-- The final and the head entries replay, from the origin and from where the final ones
lead. -/
structure Tiers (step : σ → β → Option σ) (origin : σ) (final head : List β) (low top : σ) :
    Prop where
  final_replay : replay step origin final = some low
  head_replay : replay step low head = some top

namespace Tiers

variable {origin low mid top : σ} {final head : List β}

/-- A log without entries. -/
theorem empty (s : σ) : Tiers step s [] [] s s := ⟨rfl, rfl⟩

section

variable (h : Tiers step origin final head low top)
include h

theorem truncate {i : ℕ} (hmid : replay step low (head.take i) = some mid) :
    Tiers step origin final (head.take i) low mid :=
  ⟨h.final_replay, hmid⟩

theorem extend {i : ℕ} (hmid : replay step low (head.take i) = some mid) {e : β} {top' : σ}
    (hstep : step mid e = some top') :
    Tiers step origin final (head.take i ++ [e]) low top' :=
  ⟨h.final_replay, replay_append_eq_some.mpr ⟨mid, hmid, replay_singleton.trans hstep⟩⟩

theorem settle {i : ℕ} (hmid : replay step low (head.take i) = some mid) :
    Tiers step origin (final ++ head.take i) (head.drop i) mid top := by
  refine ⟨replay_append_eq_some.mpr ⟨low, h.final_replay, hmid⟩, ?_⟩
  -- the head passes through `mid`, which is where its rest starts
  obtain ⟨m, htake, hdrop⟩ := replay_take h.head_replay i
  obtain rfl : m = mid := Option.some.inj (htake.symm.trans hmid)
  exact hdrop

theorem rebase {e : β} {low' : σ} (hstep : step low e = some low') :
    Tiers step origin (final ++ [e]) [] low' low' :=
  ⟨replay_append_eq_some.mpr ⟨low, h.final_replay, replay_singleton.trans hstep⟩, rfl⟩

end

end Tiers

end TwoTier
