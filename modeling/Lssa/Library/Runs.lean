/-
Runs of a labelled transition relation.

`Run step s ls t` is a run from `s` to `t` whose steps carry the labels `ls`.

* `Run.invariant` — what every step keeps, a run keeps;
* `Run.of_foldlM` — a function that takes the steps makes a run;
* `Run.count_le_one` — a label that is refused for good once it was taken occurs at most
  once;
* `Run.nodup_flatMap` — things that a step can only use while they are fresh, and that
  stay used, are used once.
-/
import Mathlib.Data.List.Nodup
import Mathlib.Data.List.Count

namespace Runs

variable {σ ι α : Type} {step : ι → σ → σ → Prop}

/-- A run and the labels of its steps. -/
inductive Run (step : ι → σ → σ → Prop) : σ → List ι → σ → Prop
  | nil (s : σ) : Run step s [] s
  | cons {l : ι} {ls : List ι} {s m t : σ} : step l s m → Run step m ls t → Run step s (l :: ls) t

namespace Run

variable {P : σ → Prop} {ls : List ι} {s t : σ} {next : σ → ι → Option σ}

/-- **Invariant rule.**  What every step of a run keeps, the run keeps. -/
theorem invariant (h : Run step s ls t) (keeps : ∀ l ∈ ls, ∀ a b, step l a b → P a → P b) (hs : P s)
    : P t := by
  induction h with
  | nil s => exact hs
  | cons hstep _ ih =>
    refine ih (fun l hl => keeps l (List.mem_cons_of_mem _ hl)) ?_
    exact keeps _ List.mem_cons_self _ _ hstep hs

/-- Runs one after the other are a run. -/
theorem append {as bs : List ι} {m : σ} (h : Run step s as m) (h' : Run step m bs t) :
    Run step s (as ++ bs) t := by
  induction h with
  | nil s => exact h'
  | cons hstep _ ih => exact .cons hstep (ih h')

/-- A run of smaller steps is a run. -/
theorem mono {step' : ι → σ → σ → Prop} (h : Run step s ls t)
    (himp : ∀ l a b, step l a b → step' l a b) : Run step' s ls t := by
  induction h with
  | nil s => exact .nil s
  | cons hstep _ ih => exact .cons (himp _ _ _ hstep) ih

/-- A run made by a function that takes the steps. -/
theorem of_foldlM (hnext : ∀ l a b, next a l = some b → step l a b) (h : ls.foldlM next s = some t)
    : Run step s ls t := by
  induction ls generalizing s with
  | nil =>
    obtain rfl : s = t := Option.some.inj h
    exact .nil s
  | cons l ls ih =>
    rw [List.foldlM_cons] at h
    obtain ⟨m, hm, h⟩ := Option.bind_eq_some_iff.mp h
    exact .cons (hnext l s m hm) (ih h)

/-- Likewise, with what holds at its end. -/
theorem exists_of_foldlM (hnext : ∀ l a b, next a l = some b → step l a b)
    (h : ∃ t, ls.foldlM next s = some t ∧ P t) :
    ∃ t, Run step s ls t ∧ P t := by
  obtain ⟨t, hrun, ht⟩ := h
  exact ⟨t, of_foldlM hnext hrun, ht⟩

/-- **Things that are used once.**  Every label uses some items.  If a step uses distinct
items that were fresh before it and are not fresh after it, and no step makes a used item
fresh again, then no item is used twice in a run. -/
theorem nodup_flatMap {f : ι → List α} {U : σ → α → Prop} (h : Run step s ls t)
    (fresh : ∀ l ∈ ls, ∀ a b, step l a b → (f l).Nodup ∧ ∀ x ∈ f l, ¬U a x)
    (uses : ∀ l ∈ ls, ∀ a b, step l a b → ∀ x ∈ f l, U b x)
    (keeps : ∀ l ∈ ls, ∀ a b, step l a b → ∀ x, U a x → U b x) :
    (ls.flatMap f).Nodup ∧ ∀ x ∈ ls.flatMap f, ¬U s x := by
  induction h with
  | nil s => exact ⟨List.nodup_nil, fun x hx => absurd hx (by simp)⟩
  | cons hstep _ ih =>
    rename_i l ls a b _ _
    obtain ⟨hnodup, hfresh⟩ := ih (fun l' hl' => fresh l' (List.mem_cons_of_mem _ hl'))
      (fun l' hl' => uses l' (List.mem_cons_of_mem _ hl'))
      (fun l' hl' => keeps l' (List.mem_cons_of_mem _ hl'))
    obtain ⟨hitems, hbefore⟩ := fresh l List.mem_cons_self a b hstep
    have hafter := uses l List.mem_cons_self a b hstep
    rw [List.flatMap_cons]
    constructor
    · refine List.nodup_append.mpr ⟨hitems, hnodup, ?_⟩
      rintro x hx y hy rfl
      exact hfresh x hy (hafter x hx)
    · intro x hx
      rcases List.mem_append.mp hx with hx | hx
      · exact hbefore x hx
      · exact fun hused => hfresh x hx (keeps l List.mem_cons_self a b hstep x hused)

/-- A label that is refused for good does not occur. -/
theorem count_eq_zero [DecidableEq ι] {l : ι} (h : Run step s ls t)
    (refuses : ∀ a b, P a → ¬step l a b) (keeps : ∀ l' ∈ ls, ∀ a b, step l' a b → P a → P b)
    (hs : P s) :
    ls.count l = 0 := by
  induction h with
  | nil s => exact List.count_nil
  | cons hstep _ ih =>
    rename_i l' ls a b _ _
    have hne : l' ≠ l := fun heq => refuses a b hs (heq ▸ hstep)
    rw [List.count_cons_of_ne hne]
    exact ih (fun k hk => keeps k (List.mem_cons_of_mem _ hk))
      (keeps l' List.mem_cons_self a b hstep hs)

/-- A label that is refused for good once it was taken occurs at most once. -/
theorem count_le_one [DecidableEq ι] {l : ι} (h : Run step s ls t)
    (refuses : ∀ a b, P a → ¬step l a b) (spends : ∀ a b, step l a b → P b)
    (keeps : ∀ l' ∈ ls, ∀ a b, step l' a b → P a → P b) : ls.count l ≤ 1 := by
  induction h with
  | nil s => rw [List.count_nil]; exact Nat.zero_le 1
  | cons hstep hrest ih =>
    rename_i l' ls a b _
    have hkeeps := fun k hk => keeps k (List.mem_cons_of_mem l' hk)
    by_cases heq : l' = l
    · subst heq
      have hzero := hrest.count_eq_zero refuses hkeeps (spends a b hstep)
      rw [List.count_cons_self]
      omega
    · rw [List.count_cons_of_ne heq]
      exact ih hkeeps

end Run

end Runs
