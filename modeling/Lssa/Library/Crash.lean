/-
Processes that may crash.

A process works on a state that outlives it.  Between two accesses to the state it does
what it does at once; with every access it takes the next one of a list, which says what
the world did in the meantime and how the access ends.  A process that has no access left
has crashed, and the state stays as it is.

`Triple P p Q C` says: started in a state with `P`, the process `p` returns in a state with
`Q`, or crashes in one with `C`.

* `Triple.bind`, `Triple.access`, `Triple.modify` — the rules;
* `Triple.leaves` — what holds of the state, however the process ends.
-/
import Mathlib.Data.List.Basic

namespace Crash

variable {σ ι α β : Type}

/-- How a process ends. -/
inductive Ended (σ ι α : Type)
  | crashed (s : σ)
  | returned (a : α) (s : σ) (rest : List ι)

/-- A process over the states `σ`, with accesses `ι`. -/
def Process (σ ι α : Type) : Type := σ → List ι → Ended σ ι α

namespace Process

/-- Go on where a process returned. -/
def andThen (p : Process σ ι α) (f : α → Process σ ι β) : Process σ ι β := fun s accesses =>
  match p s accesses with
  | .crashed s' => .crashed s'
  | .returned a s' rest => f a s' rest

instance instMonad : Monad (Process σ ι) where
  pure a := fun s rest => .returned a s rest
  bind := andThen

/-- The next access. -/
def access : Process σ ι ι := fun s accesses =>
  match accesses with
  | [] => .crashed s
  | i :: rest => .returned i s rest

/-- The state. -/
def get : Process σ ι σ := fun s rest => .returned s s rest

/-- Change the state. -/
def modify (f : σ → σ) : Process σ ι Unit := fun s rest => .returned () (f s) rest

/-- The state that is left, however the process ends. -/
def leaves (p : Process σ ι α) (s : σ) (accesses : List ι) : σ :=
  match p s accesses with
  | .crashed s' => s'
  | .returned _ s' _ => s'

end Process

/-- What a process does, with a condition for crashes. -/
def Triple (P : σ → Prop) (p : Process σ ι α) (Q : α → σ → Prop) (C : σ → Prop) : Prop :=
  ∀ s accesses, P s →
    match p s accesses with
    | .crashed s' => C s'
    | .returned a s' _ => Q a s'

namespace Triple

variable {P P' : σ → Prop} {p : Process σ ι α} {Q Q' : α → σ → Prop} {C : σ → Prop}

theorem pure {a : α} (h : ∀ s, P s → Q a s) : Triple P (Pure.pure a : Process σ ι α) Q C :=
  fun s _ hs => h s hs

theorem bind {f : α → Process σ ι β} {R : α → σ → Prop} {Q : β → σ → Prop}
    (hp : Triple P p R C) (hf : ∀ a, Triple (R a) (f a) Q C) : Triple P (p >>= f) Q C := by
  intro s accesses hs
  have hfirst := hp s accesses hs
  show match Process.andThen p f s accesses with
    | .crashed s' => C s'
    | .returned b s' _ => Q b s'
  unfold Process.andThen
  cases hrun : p s accesses with
  | crashed s' =>
    rw [hrun] at hfirst
    exact hfirst
  | returned a s' rest =>
    rw [hrun] at hfirst
    exact hf a s' rest hfirst

/-- A crash leaves the state as it is. -/
theorem access (h : ∀ s, P s → C s) : Triple P (Process.access : Process σ ι ι) (fun _ => P) C := by
  intro s accesses hs
  cases accesses with
  | nil => exact h s hs
  | cons i rest => exact hs

theorem get : Triple P (Process.get : Process σ ι σ) (fun a s => a = s ∧ P s) C :=
  fun _ _ hs => ⟨rfl, hs⟩

theorem modify {f : σ → σ} {Q : Unit → σ → Prop} (h : ∀ s, P s → Q () (f s)) :
    Triple P (Process.modify f : Process σ ι Unit) Q C :=
  fun s _ hs => h s hs

theorem conseq (h : Triple P' p Q' C) (hP : ∀ s, P s → P' s) (hQ : ∀ a s, Q' a s → Q a s) :
    Triple P p Q C := by
  intro s accesses hs
  have hrun := h s accesses (hP s hs)
  cases hended : p s accesses with
  | crashed s' =>
    rw [hended] at hrun
    exact hrun
  | returned a s' rest =>
    rw [hended] at hrun
    exact hQ a s' hrun

/-- What holds after every return and after every crash holds of the state that is left. -/
theorem leaves (h : Triple P p Q C) (hQ : ∀ a s, Q a s → C s) {s : σ} (hs : P s)
    (accesses : List ι) : C (p.leaves s accesses) := by
  have hrun := h s accesses hs
  unfold Process.leaves
  cases hended : p s accesses with
  | crashed s' =>
    rw [hended] at hrun
    exact hrun
  | returned a s' rest =>
    rw [hended] at hrun
    exact hQ a s' hrun

end Triple

end Crash
