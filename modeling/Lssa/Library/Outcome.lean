/-
Checked computations.

A check that can fail is `ensure c e`, a chain of checks is a `do` block in
`Except ε`, and a check repeated over a list is `List.forM`.  The lemmas here
take a successful outcome apart once and for all:

* `bind_eq_ok` — a successful chain is a successful first part and a
  successful rest;
* `ensure_eq_ok` — a check succeeds iff its condition holds;
* `forM_eq_ok` — a loop of checks succeeds iff every round does;
* `mapM_eq_ok` — a loop that collects values succeeds iff every round does;
* `foldlM_invariant` — what every round keeps, a whole loop keeps;
* `bind_ne_error` — how a chain cannot fail;
* `Ends.bind`, `Ends.foldlM` — where a chain or a loop ends, and how it may fail.

What holds of the value of a computation is decided by computing it.
-/
import Mathlib.Data.List.Forall2

namespace Outcome

export Option (bind_eq_some_iff map_eq_some_iff)

variable {ε α β : Type}

/-- Fail with `e` unless `c` holds. -/
def ensure (c : Prop) [Decidable c] (e : ε) : Except ε Unit :=
  if c then .ok () else .error e

theorem ensure_eq_ok {c : Prop} [Decidable c] {e : ε} {u : Unit} :
    ensure c e = .ok u ↔ c := by
  unfold ensure
  by_cases h : c
  · rw [if_pos h]
    exact ⟨fun _ => h, fun _ => rfl⟩
  · rw [if_neg h]
    exact ⟨fun h' => absurd h' (by simp), fun h' => absurd h' h⟩

variable {x : Except ε α} {f : α → Except ε β} {l : List α}

theorem bind_eq_ok {b : β} :
    x >>= f = .ok b ↔ ∃ a, x = .ok a ∧ f a = .ok b := by
  cases x with
  | error e =>
    constructor
    · intro h
      exact absurd h (by simp [bind, Except.bind])
    · rintro ⟨a, ha, -⟩
      cases ha
  | ok a =>
    constructor
    · intro h
      exact ⟨a, rfl, h⟩
    · rintro ⟨a', ha, hf⟩
      rw [Except.ok.injEq] at ha
      subst ha
      exact hf

theorem toOption_eq_some {a : α} : x.toOption = some a ↔ x = .ok a := by
  cases x with
  | error e | ok a' => simp [Except.toOption]

instance decidableExistsSome (x : Option α) {p : α → Prop} [DecidablePred p] :
    Decidable (∃ a, x = some a ∧ p a) :=
  inferInstanceAs (Decidable (∃ a ∈ x, p a))

instance decidableExistsOk (x : Except ε α) {p : α → Prop} [DecidablePred p] :
    Decidable (∃ a, x = .ok a ∧ p a) :=
  decidable_of_iff (∃ a ∈ x.toOption, p a) (by simp only [Option.mem_def, toOption_eq_some])

instance decidableForallOk (x : Except ε α) {p : α → Prop} [DecidablePred p] :
    Decidable (∀ a, x = .ok a → p a) :=
  match x with
  | .ok a => decidable_of_iff (p a) (by simp only [Except.ok.injEq, forall_eq'])
  | .error _ => isTrue nofun

instance decidableEqOk (x : Except ε α) : Decidable (∃ a, x = .ok a) :=
  decidable_of_iff (∃ a, x = .ok a ∧ True) (by simp only [and_true])

instance decidableEqError [DecidableEq ε] (x : Except ε α) (e : ε) : Decidable (x = .error e) :=
  match x with
  | .ok _ => isFalse nofun
  | .error e' => decidable_of_iff (e' = e) (by rw [Except.error.injEq])

theorem mapError_eq_ok {ε' : Type} {f : ε → ε'} {a : α} :
    x.mapError f = .ok a ↔ x = .ok a := by
  cases x with
  | error e | ok a => simp [Except.mapError]

/-- A check followed by a rest succeeds iff the condition holds and the rest
succeeds. -/
theorem ensure_bind_eq_ok {c : Prop} [Decidable c] {e : ε} {f : Unit → Except ε β} {b : β} :
    ensure c e >>= f = .ok b ↔ c ∧ f () = .ok b := by
  rw [bind_eq_ok]
  constructor
  · rintro ⟨u, hu, hf⟩
    exact ⟨ensure_eq_ok.mp hu, hf⟩
  · rintro ⟨hc, hf⟩
    exact ⟨(), ensure_eq_ok.mpr hc, hf⟩

/-- A loop of checks succeeds iff every round does. -/
theorem forM_eq_ok {f : α → Except ε Unit} {u : Unit} :
    l.forM f = .ok u ↔ ∀ a ∈ l, f a = .ok () := by
  induction l with
  | nil =>
    constructor
    · intro _ a ha
      cases ha
    · intro _
      rfl
  | cons a l ih =>
    have hcons : (a :: l).forM f = f a >>= fun _ => l.forM f := rfl
    rw [hcons, bind_eq_ok]
    constructor
    · rintro ⟨_, ha, hl⟩ b hb
      rcases List.mem_cons.mp hb with rfl | hb
      · exact ha
      · exact ih.mp hl b hb
    · intro h
      refine ⟨(), h a (by simp), ih.mpr fun b hb => h b (by simp [hb])⟩

/-- A loop that collects values succeeds iff every round yields its value. -/
theorem mapM_eq_ok {bs : List β} :
    l.mapM f = .ok bs ↔ List.Forall₂ (fun a b => f a = .ok b) l bs := by
  induction l generalizing bs with
  | nil =>
    rw [List.mapM_nil, List.forall₂_nil_left_iff]
    exact ⟨fun h => (Except.ok.inj h).symm, fun h => h ▸ rfl⟩
  | cons a l ih =>
    rw [List.mapM_cons, bind_eq_ok]
    constructor
    · rintro ⟨b, hb, h⟩
      obtain ⟨bs', hbs', hpure⟩ := bind_eq_ok.mp h
      have hbs : b :: bs' = bs := Except.ok.inj hpure
      exact hbs ▸ .cons hb (ih.mp hbs')
    · intro h
      cases h with
      | cons hb hl => exact ⟨_, hb, bind_eq_ok.mpr ⟨_, ih.mpr hl, rfl⟩⟩

/-! ### Failures that do not occur -/

theorem ensure_ne_error {c : Prop} [Decidable c] {e e' : ε} (h : e ≠ e') :
    ensure c e ≠ .error e' := by
  unfold ensure
  by_cases hc : c
  · rw [if_pos hc]
    simp
  · rw [if_neg hc]
    exact fun heq => h (Except.error.inj heq)

/-- A chain does not fail in a way that none of its parts does. -/
theorem bind_ne_error {e : ε} (hx : x ≠ .error e) (hf : ∀ a, f a ≠ .error e) :
    x >>= f ≠ .error e := by
  cases x with
  | error e' => exact fun heq => hx (congrArg Except.error (Except.error.inj heq))
  | ok a => exact hf a

theorem forM_ne_error {f : α → Except ε Unit} {e : ε} (h : ∀ a ∈ l, f a ≠ .error e) :
    l.forM f ≠ .error e := by
  induction l with
  | nil => exact fun heq => absurd heq (by simp [pure, Except.pure])
  | cons a l ih =>
    have hcons : (a :: l).forM f = f a >>= fun _ => l.forM f := rfl
    rw [hcons]
    exact bind_ne_error (h a List.mem_cons_self)
      fun _ => ih fun b hb => h b (List.mem_cons_of_mem _ hb)

/-! ### How a computation ends -/

/-- The computation ends in `P`, or fails in one of the ways of `E`. -/
def Ends (E : ε → Prop) (P : α → Prop) : Except ε α → Prop
  | .ok a => P a
  | .error e => E e

namespace Ends

variable {E : ε → Prop} {P Q : α → Prop}

variable {x : Except ε α}

theorem mono (h : Ends E P x) (himp : ∀ a, P a → Q a) : Ends E Q x := by
  cases x with
  | error e => exact h
  | ok a => exact himp a h

theorem bind {R : β → Prop} {f : α → Except ε β} (h : Ends E P x) (hf : ∀ a, P a → Ends E R (f a)) :
    Ends E R (x >>= f) := by
  cases x with
  | error e => exact h
  | ok a => exact hf a h

/-- A loop whose rounds keep `P` and fail only in the ways of `E`. -/
theorem foldlM {P : β → Prop} {f : β → α → Except ε β} {l : List α} {b : β}
    (round : ∀ a ∈ l, ∀ b, P b → Ends E P (f b a)) (hb : P b) : Ends E P (l.foldlM f b) := by
  induction l generalizing b with
  | nil => exact hb
  | cons a l ih =>
    rw [List.foldlM_cons]
    exact (round a List.mem_cons_self b hb).bind
      fun b' hb' => ih (fun a' ha' => round a' (List.mem_cons_of_mem _ ha')) hb'

theorem of_eq_ok {a : α} (h : Ends E P x) (heq : x = .ok a) : P a := by
  subst heq
  exact h

theorem of_eq_error {e : ε} (h : Ends E P x) (heq : x = .error e) : E e := by
  subst heq
  exact h

end Ends

/-! ### Loops -/

theorem foldlM_cons_eq_ok {f : β → α → Except ε β} {a : α} {b c : β} :
    (a :: l).foldlM f b = .ok c ↔ ∃ b', f b a = .ok b' ∧ l.foldlM f b' = .ok c := by
  rw [List.foldlM_cons, bind_eq_ok]

/-- What every round of a loop keeps, the whole loop keeps. -/
theorem foldlM_invariant {P : β → Prop} {f : β → α → Except ε β} {b c : β}
    (step : ∀ a ∈ l, ∀ b b', f b a = .ok b' → P b → P b') (h : l.foldlM f b = .ok c) (hb : P b) :
    P c := by
  induction l generalizing b with
  | nil =>
    have hbc : b = c := by simpa [pure, Except.pure] using h
    exact hbc ▸ hb
  | cons a l ih =>
    obtain ⟨b', hb', hl⟩ := foldlM_cons_eq_ok.mp h
    exact ih (fun a' ha' => step a' (by simp [ha'])) hl (step a (by simp) b b' hb' hb)

/-- A round of a loop starts from what the rounds before it reach and ends where the
rounds after it start. -/
theorem foldlM_round {R : β → β → Prop} (refl : ∀ b, R b b)
    (trans : ∀ {b c d}, R b c → R c d → R b d) {f : β → α → Except ε β} {b c : β}
    (step : ∀ a ∈ l, ∀ b b', f b a = .ok b' → R b b') (h : l.foldlM f b = .ok c) {a : α}
    (ha : a ∈ l) : ∃ d d', R b d ∧ f d a = .ok d' ∧ R d' c := by
  induction l generalizing b with
  | nil => cases ha
  | cons a' l ih =>
    obtain ⟨b', hb', hl⟩ := foldlM_cons_eq_ok.mp h
    have hrest := fun x hx => step x (List.mem_cons_of_mem _ hx)
    rcases List.mem_cons.mp ha with rfl | ha
    · refine ⟨b, b', refl b, hb', ?_⟩
      exact foldlM_invariant (P := fun d => R b' d)
        (fun x hx d d' hd hR => trans hR (hrest x hx d d' hd)) hl (refl b')
    · obtain ⟨d, d', hd, hround, hd'⟩ := ih hrest hl ha
      exact ⟨d, d', trans (step a' List.mem_cons_self b b' hb') hd, hround, hd'⟩

end Outcome
