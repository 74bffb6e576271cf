/-
Depth-first service of a tree of calls.

A machine serves calls one at a time from a work list.  Serving a call first
produces a result (`answer`), then checks the result against the state and
updates the state (`absorb`); the calls the result asks for (`calls`) go to the
front of the work list, in order.  A budget bounds the number of calls served.

`run` is the bare machine.  `visits` records the same run with, for every call
served, the calls it descends from, nearest first, so that a property of a call
and its ancestors can be stated; `outputs` lists the results obtained, the last
one included even when the check on it fails.

* `run_invariant` — an invariant of state and work list kept by one service is
  kept by a run;
* `visits_invariant` — the same over work lists whose entries carry their
  ancestors, and it holds at every visit;
* `visits_forall` — the case of a property of single calls and their ancestors;
* `run_induction` — induction over a run whose calls carry their ancestors;
* `run_threads` — a run is the chain of its visits;
* `Unfolds.run_eq` — which budgets suffice for a tree of calls.
-/
import Lssa.Library.Outcome

open List (map_cons map_map map_nil mem_cons mem_cons_of_mem mem_cons_self)

namespace DepthFirst

open Outcome

/-- A machine that serves calls `κ` in a state `σ`, each with a result `ρ`. -/
structure Machine (ε σ κ ρ : Type) where
  answer : σ → κ → Except ε ρ
  absorb : σ → κ → ρ → Except ε σ
  calls : κ → ρ → List κ
  /-- The failure reported when a call is left and the budget is spent. -/
  exhausted : ε

variable {ε σ κ ρ : Type}

/-- A call that was served, with the states around it and the calls it descends
from, nearest first. -/
structure Visit (σ κ ρ : Type) where
  call : κ
  result : ρ
  before : σ
  after : σ
  ancestors : List (κ × ρ)

/-- The call with its result. -/
def Visit.entry (v : Visit σ κ ρ) : κ × ρ := (v.call, v.result)

/-- The call itself, then its ancestors up to the root. -/
def Visit.lineage (v : Visit σ κ ρ) : List (κ × ρ) := v.entry :: v.ancestors

namespace Machine

variable (M : Machine ε σ κ ρ)

/-- Serve the calls of the work list, at most `n` of them. -/
def run : ℕ → List κ → σ → Except ε σ
  | _, [], s => .ok s
  | 0, _ :: _, _ => .error M.exhausted
  | n + 1, c :: work, s => do
    let r ← M.answer s c
    let s' ← M.absorb s c r
    run n (M.calls c r ++ work) s'

/-- The calls a result asks for, each with its ancestors. -/
def children (c : κ) (r : ρ) (path : List (κ × ρ)) : List (κ × List (κ × ρ)) :=
  (M.calls c r).map fun k => (k, (c, r) :: path)

/-- The calls served in a run, in order, with their ancestors. -/
def visits : ℕ → List (κ × List (κ × ρ)) → σ → List (Visit σ κ ρ)
  | _, [], _ => []
  | 0, _ :: _, _ => []
  | n + 1, (c, path) :: work, s =>
    match M.answer s c with
    | .error _ => []
    | .ok r =>
      match M.absorb s c r with
      | .error _ => []
      | .ok s' => ⟨c, r, s, s', path⟩ :: visits n (M.children c r path ++ work) s'

/-- The results obtained in a run, in order. -/
def outputs : ℕ → List κ → σ → List ρ
  | _, [], _ => []
  | 0, _ :: _, _ => []
  | n + 1, c :: work, s =>
    match M.answer s c with
    | .error _ => []
    | .ok r =>
      match M.absorb s c r with
      | .error _ => [r]
      | .ok s' => r :: outputs n (M.calls c r ++ work) s'

/-- Serving `c` in state `s` succeeds with result `r` and state `s'`. -/
structure Serves (s : σ) (c : κ) (r : ρ) (s' : σ) : Prop where
  answer : M.answer s c = .ok r
  absorb : M.absorb s c r = .ok s'

variable {M}

@[simp] theorem run_nil (n : ℕ) (s : σ) : M.run n [] s = .ok s := by
  cases n <;> rfl

theorem run_zero_cons (c : κ) (work : List κ) (s : σ) :
    M.run 0 (c :: work) s = .error M.exhausted := rfl

variable {n : ℕ}

variable {c : κ} {s t s' : σ} {work : List (κ × List (κ × ρ))} {v : Visit σ κ ρ}
  {vs : List (Visit σ κ ρ)}

theorem run_succ_cons_eq_ok {work : List κ} :
    M.run (n + 1) (c :: work) s = .ok t ↔
      ∃ r s', M.Serves s c r s' ∧ M.run n (M.calls c r ++ work) s' = .ok t := by
  rw [run, bind_eq_ok]
  constructor
  · rintro ⟨r, hr, h⟩
    obtain ⟨s', hs', ht⟩ := bind_eq_ok.mp h
    exact ⟨r, s', ⟨hr, hs'⟩, ht⟩
  · rintro ⟨r, s', ⟨hr, hs'⟩, ht⟩
    exact ⟨r, hr, bind_eq_ok.mpr ⟨s', hs', ht⟩⟩

/-- **Invariant rule.**  What serving one call keeps, a run keeps. -/
theorem run_invariant {I : List κ → σ → Prop}
    (step : ∀ {s c r s' work}, M.Serves s c r s' → I (c :: work) s → I (M.calls c r ++ work) s')
    {work : List κ} (h : M.run n work s = .ok t) (hI : I work s) : I [] t := by
  induction n, work, s using run.induct M with
  | case1 n s =>
    rw [run_nil, Except.ok.injEq] at h
    exact h ▸ hI
  | case2 c work s => exact absurd h (by rw [run_zero_cons]; simp)
  | case3 c work s n ih =>
    obtain ⟨r, s', hs, ht⟩ := run_succ_cons_eq_ok.mp h
    exact ih r s' ht (step hs hI)

/-- A run of two work lists is a run of the first, then one of the second. -/
theorem run_append_eq_ok {work work' : List κ} (h : M.run n (work ++ work') s = .ok t) :
    ∃ m s', M.run n work s = .ok s' ∧ M.run m work' s' = .ok t := by
  induction n, work, s using run.induct M with
  | case1 n s => exact ⟨n, s, run_nil n s, h⟩
  | case2 c work s => exact absurd h (by rw [List.cons_append, run_zero_cons]; simp)
  | case3 c work s n ih =>
    rw [List.cons_append] at h
    obtain ⟨r, mid, hserves, hrest⟩ := run_succ_cons_eq_ok.mp h
    rw [← List.append_assoc] at hrest
    obtain ⟨m, s', hfirst, hsecond⟩ := ih r mid hrest
    exact ⟨m, s', run_succ_cons_eq_ok.mpr ⟨r, mid, hserves, hfirst⟩, hsecond⟩

/-! ### Visits -/

@[simp] theorem visits_nil (n : ℕ) (s : σ) : M.visits n [] s = [] := by
  cases n <;> rfl

theorem visits_zero (work : List (κ × List (κ × ρ))) (s : σ) : M.visits 0 work s = [] := by
  cases work <;> rfl

theorem visits_succ_cons {path : List (κ × ρ)} {r : ρ} (h : M.Serves s c r s') :
    M.visits (n + 1) ((c, path) :: work) s
      = ⟨c, r, s, s', path⟩ :: M.visits n (M.children c r path ++ work) s' := by
  rw [visits, h.answer]
  simp only
  rw [h.absorb]

/-- A visit is either the first service of a run or belongs to the run after it. -/
theorem mem_visits_succ_cons {path : List (κ × ρ)}
    (hv : v ∈ M.visits (n + 1) ((c, path) :: work) s) :
    ∃ r s', M.Serves s c r s' ∧
      (v = ⟨c, r, s, s', path⟩ ∨ v ∈ M.visits n (M.children c r path ++ work) s') := by
  cases hr : M.answer s c with
  | error e => rw [visits, hr] at hv; cases hv
  | ok r =>
    cases hs : M.absorb s c r with
    | error e =>
      rw [visits, hr] at hv
      simp only [hs] at hv
      cases hv
    | ok s' =>
      rw [visits_succ_cons ⟨hr, hs⟩] at hv
      exact ⟨r, s', ⟨hr, hs⟩, mem_cons.mp hv⟩

theorem visits_serves (hv : v ∈ M.visits n work s) : M.Serves v.before v.call v.result v.after := by
  induction n generalizing work s with
  | zero => rw [visits_zero] at hv; cases hv
  | succ n ih =>
    rcases work with _ | ⟨⟨c, path⟩, work⟩
    · rw [visits_nil] at hv; cases hv
    · obtain ⟨r, s', hs, rfl | hv⟩ := mem_visits_succ_cons hv
      · exact hs
      · exact ih hv

/-- **Invariant rule for visits.**  An invariant over work lists with ancestors
that serving one call keeps holds whenever a call is visited. -/
theorem visits_invariant {I : List (κ × List (κ × ρ)) → σ → Prop}
    (step : ∀ {s c path r s' work}, M.Serves s c r s' → I ((c, path) :: work) s →
      I (M.children c r path ++ work) s') (hI : I work s) (hv : v ∈ M.visits n work s) :
    ∃ rest, I ((v.call, v.ancestors) :: rest) v.before := by
  induction n generalizing work s with
  | zero => rw [visits_zero] at hv; cases hv
  | succ n ih =>
    rcases work with _ | ⟨⟨c, path⟩, work⟩
    · rw [visits_nil] at hv; cases hv
    · obtain ⟨r, s', hs, rfl | hv⟩ := mem_visits_succ_cons hv
      · exact ⟨work, hI⟩
      · exact ih (step hs hI) hv

/-- What holds of the first calls and passes from a call visited to the calls it asks
for holds of every call visited. -/
theorem visits_forall {J : κ → List (κ × ρ) → Prop}
    (step : ∀ w ∈ M.visits n work s, J w.call w.ancestors →
      ∀ k ∈ M.calls w.call w.result, J k w.lineage) (hwork : ∀ w ∈ work, J w.1 w.2)
    (hv : v ∈ M.visits n work s) : J v.call v.ancestors := by
  induction n generalizing work s with
  | zero => rw [visits_zero] at hv; cases hv
  | succ n ih =>
    rcases work with _ | ⟨⟨c, path⟩, work⟩
    · rw [visits_nil] at hv; cases hv
    obtain ⟨r, s', hs, hcases⟩ := mem_visits_succ_cons hv
    have hfirst : J c path := hwork (c, path) mem_cons_self
    rw [visits_succ_cons hs] at step
    rcases hcases with rfl | hlater
    · exact hfirst
    · refine ih (fun w hw => step w (mem_cons_of_mem _ hw)) ?_ hlater
      intro w hw
      rcases List.mem_append.mp hw with hchild | hold
      · obtain ⟨k, hk, rfl⟩ := List.mem_map.mp hchild
        exact step _ mem_cons_self hfirst k hk
      · exact hwork w (mem_cons_of_mem _ hold)

/-- A chain of visits leads from one state to another. -/
inductive Threads : List (Visit σ κ ρ) → σ → σ → Prop
  | nil (s : σ) : Threads [] s s
  | cons {v : Visit σ κ ρ} {vs : List (Visit σ κ ρ)} {t : σ} :
      Threads vs v.after t → Threads (v :: vs) v.before t

theorem map_fst_children {r : ρ} (path : List (κ × ρ)) :
    (M.children c r path ++ work).map Prod.fst = M.calls c r ++ work.map Prod.fst := by
  rw [List.map_append, children, map_map]
  congr 1
  exact List.map_id _

/-- **Induction over a run** whose calls carry their ancestors: nothing is left, or a call is served
and a run follows. -/
@[elab_as_elim]
theorem run_induction {motive : ℕ → List (κ × List (κ × ρ)) → σ → Prop} (nil : ∀ n, motive n [] t)
    (cons : ∀ {n c path work s r s'}, M.Serves s c r s' →
      M.run n ((M.children c r path ++ work).map Prod.fst) s' = .ok t →
      motive n (M.children c r path ++ work) s' → motive (n + 1) ((c, path) :: work) s)
    (h : M.run n (work.map Prod.fst) s = .ok t) : motive n work s := by
  induction n generalizing work s with
  | zero =>
    rcases work with _ | ⟨⟨c, path⟩, work⟩
    · rw [map_nil, run_nil, Except.ok.injEq] at h
      exact h ▸ nil 0
    · exact absurd h (by rw [map_cons, run_zero_cons]; simp)
  | succ n ih =>
    rcases work with _ | ⟨⟨c, path⟩, work⟩
    · rw [map_nil, run_nil, Except.ok.injEq] at h
      exact h ▸ nil (n + 1)
    · rw [map_cons] at h
      obtain ⟨r, s', hs, ht⟩ := run_succ_cons_eq_ok.mp h
      rw [← map_fst_children path] at ht
      exact cons hs ht (ih ht)

/-- A run is the chain of its visits. -/
theorem run_threads (h : M.run n (work.map Prod.fst) s = .ok t) :
    Threads (M.visits n work s) s t := by
  refine run_induction (fun n => ?_) (fun hs _ ih => ?_) h
  · rw [visits_nil]
    exact .nil t
  · rw [visits_succ_cons hs]
    exact .cons ih

/-- What every visit of a chain keeps, the chain keeps. -/
theorem Threads.invariant {P : σ → Prop} (h : Threads vs s t)
    (step : ∀ v ∈ vs, P v.before → P v.after) (hs : P s) : P t := by
  induction h with
  | nil s => exact hs
  | cons _ ih =>
    exact ih (fun v hv => step v (mem_cons_of_mem _ hv)) (step _ (mem_cons_self) hs)

/-- What every visit keeps holds before each of them. -/
theorem Threads.before {P : σ → Prop} (h : Threads vs s t) (step : ∀ v ∈ vs, P v.before → P v.after)
    (hs : P s) : ∀ v ∈ vs, P v.before := by
  induction h with
  | nil s => exact fun v hv => absurd hv (by simp)
  | cons _ ih =>
    rename_i w ws _ _
    intro v hv
    rcases mem_cons.mp hv with rfl | hv
    · exact hs
    · exact ih (fun u hu => step u (mem_cons_of_mem _ hu)) (step w mem_cons_self hs) v hv

/-- What every visit of a chain advances, the rest of the chain advances from any visit
on. -/
theorem Threads.advances {R : σ → σ → Prop} (refl : ∀ s, R s s)
    (trans : ∀ {s t u}, R s t → R t u → R s u) (h : Threads vs s t)
    (step : ∀ v ∈ vs, R v.before v.after) (hv : v ∈ vs) :
    R v.after t := by
  induction h with
  | nil s => cases hv
  | cons hrest ih =>
    have hstep := fun w hw => step w (mem_cons_of_mem _ hw)
    rcases mem_cons.mp hv with rfl | hv
    · exact hrest.invariant (P := fun u => R _ u) (fun w hw hR => trans hR (hstep w hw)) (refl _)
    · exact ih hstep hv

/-! ### Outputs -/

theorem outputs_succ_cons {work : List κ} {r : ρ} (h : M.Serves s c r s') :
    M.outputs (n + 1) (c :: work) s = r :: M.outputs n (M.calls c r ++ work) s' := by
  rw [outputs, h.answer]
  simp only
  rw [h.absorb]

/-- The first result is the answer to the first call, even if the check on it fails. -/
theorem answer_of_outputs {work : List κ} {r : ρ} {rest : List ρ}
    (h : M.outputs (n + 1) (c :: work) s = r :: rest) : M.answer s c = .ok r := by
  rw [outputs] at h
  cases hr : M.answer s c with
  | error e => simp [hr] at h
  | ok r' =>
    cases hs : M.absorb s c r' with
    | error e =>
      simp only [hr, hs] at h
      rw [(List.cons.inj h).1]
    | ok s' =>
      simp only [hr, hs] at h
      rw [(List.cons.inj h).1]

/-- The results of a successful run are those of its visits. -/
theorem outputs_eq_of_run (h : M.run n (work.map Prod.fst) s = .ok t) :
    M.outputs n (work.map Prod.fst) s = (M.visits n work s).map (·.result) := by
  refine run_induction (fun n => ?_) (fun hs _ ih => ?_) h
  · cases n <;> rfl
  · rw [map_cons, outputs_succ_cons hs, visits_succ_cons hs, map_cons, ← ih, map_fst_children]

/-! ### Everything asked for is served -/

/-- A successful run serves every call of its work list. -/
theorem visits_served (h : M.run n (work.map Prod.fst) s = .ok t) {w : κ × List (κ × ρ)}
    (hw : w ∈ work) :
    ∃ v ∈ M.visits n work s, v.call = w.1 ∧ v.ancestors = w.2 := by
  revert hw
  refine run_induction (fun n hw => nomatch hw) (fun hs _ ih hw => ?_) h
  rw [visits_succ_cons hs]
  rcases mem_cons.mp hw with rfl | hw
  · exact ⟨_, mem_cons_self, rfl, rfl⟩
  · obtain ⟨v, hv, hcall⟩ := ih (List.mem_append_right _ hw)
    exact ⟨v, mem_cons_of_mem _ hv, hcall⟩

/-- A successful run serves every call that a call it serves asks for. -/
theorem visits_children (h : M.run n (work.map Prod.fst) s = .ok t) (hv : v ∈ M.visits n work s)
    {k : κ} (hk : k ∈ M.calls v.call v.result) :
    ∃ w ∈ M.visits n work s, w.call = k ∧ w.ancestors = v.lineage := by
  revert hv
  refine run_induction (fun n hv => ?_) (fun {n c path work s r s'} hs ht ih hv => ?_) h
  · rw [visits_nil] at hv
    cases hv
  · rw [visits_succ_cons hs] at hv ⊢
    rcases mem_cons.mp hv with rfl | hv
    · have hchild : (k, (c, r) :: path) ∈ M.children c r path ++ work :=
        List.mem_append_left _ (List.mem_map.mpr ⟨k, hk, rfl⟩)
      obtain ⟨w, hw, hcall⟩ := visits_served ht hchild
      exact ⟨w, mem_cons_of_mem _ hw, hcall⟩
    · obtain ⟨w, hw, hcall⟩ := ih hv
      exact ⟨w, mem_cons_of_mem _ hw, hcall⟩

end Machine

/-! ### Machines that do the same -/

section

variable {ε' σ' κ' ρ' : Type}

def Visit.map (F : σ → σ') (G : κ → κ') (H : ρ → ρ') (v : Visit σ κ ρ) : Visit σ' κ' ρ' :=
  ⟨G v.call, H v.result, F v.before, F v.after, v.ancestors.map (Prod.map G H)⟩

/-- `M'` serves whatever `M` serves, states, calls and results translated. -/
structure Machine.Follows (M : Machine ε σ κ ρ) (M' : Machine ε' σ' κ' ρ') (F : σ → σ')
    (G : κ → κ') (H : ρ → ρ') : Prop where
  serves : ∀ {s c r s'}, M.Serves s c r s' → M'.Serves (F s) (G c) (H r) (F s')
  calls : ∀ c r, M'.calls (G c) (H r) = (M.calls c r).map G

namespace Machine.Follows

variable {M : Machine ε σ κ ρ} {M' : Machine ε' σ' κ' ρ'} {F : σ → σ'} {G : κ → κ'} {H : ρ → ρ'}

theorem run_eq_ok (h : M.Follows M' F G H) {n : ℕ} {work : List κ} {s t : σ}
    (hrun : M.run n work s = .ok t) : M'.run n (work.map G) (F s) = .ok (F t) := by
  induction n, work, s using run.induct M with
  | case1 n s =>
    rw [run_nil, Except.ok.injEq] at hrun
    rw [map_nil, run_nil, hrun]
  | case2 c work s => exact absurd hrun (by rw [run_zero_cons]; simp)
  | case3 c work s n ih =>
    obtain ⟨r, s', hs, ht⟩ := run_succ_cons_eq_ok.mp hrun
    refine run_succ_cons_eq_ok.mpr ⟨H r, F s', h.serves hs, ?_⟩
    rw [h.calls, ← List.map_append]
    exact ih r s' ht

theorem mem_visits (h : M.Follows M' F G H) {n : ℕ} {work : List (κ × List (κ × ρ))} {s : σ}
    {v : Visit σ κ ρ} (hv : v ∈ M.visits n work s) :
    v.map F G H ∈ M'.visits n (work.map (Prod.map G (List.map (Prod.map G H)))) (F s) := by
  induction n generalizing work s with
  | zero => rw [visits_zero] at hv; cases hv
  | succ n ih =>
    rcases work with _ | ⟨⟨c, path⟩, work⟩
    · rw [visits_nil] at hv; cases hv
    obtain ⟨r, s', hs, hcases⟩ := mem_visits_succ_cons hv
    rw [map_cons, Prod.map_apply, visits_succ_cons (h.serves hs)]
    rcases hcases with rfl | hv
    · exact mem_cons_self
    · have hchildren : M'.children (G c) (H r) (path.map (Prod.map G H))
          = (M.children c r path).map (Prod.map G (List.map (Prod.map G H))) := by
        rw [children, children, h.calls, map_map, map_map]
        rfl
      rw [hchildren, ← List.map_append]
      exact mem_cons_of_mem _ (ih hv)

end Machine.Follows

end

/-! ### Trees of calls and the budget -/

/-- The shape of a tree of calls. -/
inductive Shape
  | node (children : List Shape)

mutual

/-- How many calls there are in a tree. -/
def Shape.size : Shape → ℕ
  | .node children => sizes children + 1

/-- How many calls there are in several trees. -/
def Shape.sizes : List Shape → ℕ
  | [] => 0
  | shape :: shapes => shape.size + sizes shapes

end

theorem Shape.sizes_append (shapes shapes' : List Shape) :
    Shape.sizes (shapes ++ shapes') = Shape.sizes shapes + Shape.sizes shapes' := by
  induction shapes with
  | nil => simp [Shape.sizes]
  | cons shape shapes ih =>
    rw [List.cons_append, Shape.sizes, Shape.sizes, ih]
    omega

namespace Machine

variable {M : Machine ε σ κ ρ}

/-- Serving the calls of the work list to the end, without a budget, goes through trees of
these shapes. -/
inductive Unfolds (M : Machine ε σ κ ρ) : List Shape → List κ → σ → σ → Prop
  | nil (s : σ) : Unfolds M [] [] s s
  | cons {children shapes : List Shape} {c : κ} {work : List κ} {r : ρ} {s s' t : σ}
      (serves : M.Serves s c r s') (children_eq : children.length = (M.calls c r).length)
      (rest : Unfolds M (children ++ shapes) (M.calls c r ++ work) s' t) :
      Unfolds M (.node children :: shapes) (c :: work) s t

/-- **A budget suffices exactly for the trees that are not larger.** -/
theorem Unfolds.run_eq {shapes : List Shape} {work : List κ} {s t : σ}
    (h : M.Unfolds shapes work s t) (n : ℕ) :
    M.run n work s = if Shape.sizes shapes ≤ n then .ok t else .error M.exhausted := by
  induction h generalizing n with
  | nil s => rw [run_nil, Shape.sizes, if_pos (Nat.zero_le n)]
  | cons serves children_eq rest ih =>
    rename_i children shapes c work r s s' t
    have hsize : Shape.sizes (.node children :: shapes)
        = Shape.sizes (children ++ shapes) + 1 := by
      rw [Shape.sizes, Shape.size, Shape.sizes_append]
      omega
    cases n with
    | zero => rw [run_zero_cons, if_neg (by omega)]
    | succ n =>
      have hround : M.run (n + 1) (c :: work) s = M.run n (M.calls c r ++ work) s' := by
        rw [run, serves.answer]
        show (M.absorb s c r >>= fun s' => M.run n (M.calls c r ++ work) s') = _
        rw [serves.absorb]
        rfl
      rw [hround, ih n, hsize]
      by_cases hle : Shape.sizes (children ++ shapes) ≤ n
      · rw [if_pos hle, if_pos (by omega)]
      · rw [if_neg hle, if_neg (by omega)]

/-- Serve the calls of the work list along trees of given shapes. -/
def follow (M : Machine ε σ κ ρ) : ℕ → List Shape → List κ → σ → Option σ
  | _, [], [], s => some s
  | n + 1, .node children :: shapes, c :: work, s =>
    match M.answer s c with
    | .error _ => none
    | .ok r =>
      if children.length = (M.calls c r).length then
        match M.absorb s c r with
        | .error _ => none
        | .ok s' => M.follow n (children ++ shapes) (M.calls c r ++ work) s'
      else none
  | _, _, _, _ => none

theorem unfolds_of_follow {n : ℕ} {shapes : List Shape} {work : List κ} {s t : σ}
    (h : M.follow n shapes work s = some t) : M.Unfolds shapes work s t := by
  fun_induction follow M n shapes work s with
  | case1 n s =>
    obtain rfl := Option.some.inj h
    exact .nil s
  | case2 => cases h
  | case3 => cases h
  | case4 s n children shapes c work r hanswer hlength s' habsorb ih =>
    exact .cons ⟨hanswer, habsorb⟩ hlength (ih h)
  | case5 => cases h
  | case6 => cases h

end Machine

end DepthFirst
