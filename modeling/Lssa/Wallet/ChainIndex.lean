/-
The layers of a key tree (`lee/key_protocol/src/key_management/key_tree/chain_index.rs`).

A chain index is a path of child numbers, and its depth is the sum of these numbers, one more for
each step.  The indices of a depth are collected from the path of zeros, by merging the last two
numbers of an index and shuffling the result, again and again.

* `mem_collectFrom` — the loop collects what is reached from its stack;
* `reaches_zeros` — every index is reached from the path of zeros of its depth;
* **`layers_complete`** — each layer lists the indices of its depth, each one once.
-/
import Mathlib.Data.List.Perm.Basic
import Mathlib.Data.Multiset.DershowitzManna
import Mathlib.Logic.Relation
import Lssa.Account

open Relation (TransGen ReflTransGen)

namespace Lssa

/-- `ChainIndex`. -/
abbrev ChainIndex := List U32

namespace ChainIndex

/-- A number is added to the sum, with one more.  An overflow of the sum panics if overflows are
checked, and wraps otherwise. -/
def addStep (overflowChecks : Bool) (sum cci : U32) : Option U32 := do
  let step ← checkedAdd cci 1
  if overflowChecks then checkedAdd sum step else some (sum + step)

/-- `depth`. -/
def depth (overflowChecks : Bool) (index : ChainIndex) : Option U32 :=
  index.foldlM (addStep overflowChecks) 0

/-- `collapse_back`: the last two numbers become one. -/
def collapseBack (index : ChainIndex) : Option ChainIndex :=
  match index.reverse with
  | last :: previous :: front => do
    let step ← checkedAdd last 1
    let merged ← checkedAdd previous step
    some (front.reverse ++ [merged])
  | _ => none

/-- `permutations(k)` of an iterator. -/
def permutations : ℕ → ChainIndex → List ChainIndex
  | 0, _ => [[]]
  | k + 1, l => l.zipIdx.flatMap fun (a, i) => (permutations k (l.eraseIdx i)).map (a :: ·)

/-- `unique` of an iterator: the first of equal elements is kept. -/
def unique {α : Type} [DecidableEq α] (l : List α) : List α := l.reverse.dedup.reverse

/-- `shuffle_iter`. -/
def shuffleIter (index : ChainIndex) : List ChainIndex :=
  unique (permutations index.length index)

theorem mem_permutations {k : ℕ} {l p : ChainIndex} (hk : l.length = k) :
    p ∈ permutations k l ↔ p.Perm l := by
  induction k generalizing l p with
  | zero =>
    rw [List.length_eq_zero_iff.mp hk, List.perm_nil]
    exact mem_singleton
  | succ k ih =>
    have hpick : ∀ {a i}, l[i]? = some a →
        (l.eraseIdx i).length = k ∧ (a :: l.eraseIdx i).Perm l := by
      intro a i h
      obtain ⟨hi, rfl⟩ := getElem?_eq_some_iff.mp h
      exact ⟨by rw [List.length_eraseIdx_of_lt hi, hk]; rfl, List.getElem_cons_eraseIdx_perm hi⟩
    simp only [permutations, mem_flatMap, mem_map, Prod.exists, List.mem_zipIdx_iff_getElem?]
    constructor
    · rintro ⟨a, i, ha, q, hq, rfl⟩
      exact (((ih (hpick ha).1).mp hq).cons a).trans (hpick ha).2
    · intro hperm
      obtain ⟨a, q, rfl⟩ := List.exists_cons_of_length_eq_add_one (hperm.length_eq.trans hk)
      obtain ⟨i, ha⟩ := mem_iff_getElem?.mp (hperm.mem_iff.mp mem_cons_self)
      refine ⟨a, i, ha, q, (ih (hpick ha).1).mpr ?_, rfl⟩
      exact (hperm.trans (hpick ha).2.symm).cons_inv

theorem mem_unique {α : Type} [DecidableEq α] {l : List α} {a : α} : a ∈ unique l ↔ a ∈ l := by
  simp [unique]

variable {index next : ChainIndex}

theorem mem_shuffleIter : next ∈ index.shuffleIter ↔ next.Perm index :=
  mem_unique.trans (mem_permutations rfl)

/-- The exact depth. -/
def total (index : ChainIndex) : ℕ := (index.map (·.val + 1)).sum

theorem total_perm (h : index.Perm next) : total index = total next := (h.map _).sum_eq

theorem collapseBack_ok (h : collapseBack index = some next) :
    next.length < index.length ∧ total next = total index := by
  unfold collapseBack at h
  split at h
  · rename_i last previous front hreverse
    obtain ⟨step, hstep, h⟩ := bind_eq_some_iff.mp h
    obtain ⟨merged, hmerged, h⟩ := bind_eq_some_iff.mp h
    cases h
    rw [List.reverse_eq_iff.mp hreverse]
    have hstep := checkedAdd_eq_some.mp hstep
    have hmerged := checkedAdd_eq_some.mp hmerged
    simp [total] at hstep ⊢
    omega
  · cases h

theorem collapseBack_of_pos {front : ChainIndex} {x y : U32} (h : x.val = y.val + 1) :
    collapseBack (front ++ [y, 0]) = some (front ++ [x]) := by
  have hstep : checkedAdd (0 : U32) 1 = some 1 := rfl
  have hmerged : checkedAdd y 1 = some x := checkedAdd_eq_some.mpr h
  simp [collapseBack, hstep, hmerged]

/-- An index on the stack is replaced by shorter ones. -/
theorem lengths_lt {top : ChainIndex} (pushed : List ChainIndex) {stack : List ChainIndex}
    (h : ∀ id ∈ pushed, id.length < top.length) :
    Multiset.IsDershowitzMannaLT ((pushed ++ stack).map List.length : Multiset ℕ)
      ((top :: stack).map List.length : Multiset ℕ) := by
  refine ⟨stack.map List.length, pushed.map List.length, {top.length}, ?_, ?_, ?_, ?_⟩
  · simp
  · simp [add_comm]
  · rw [add_comm, Multiset.singleton_add]
    rfl
  · simpa using h

/-- The loop of `collect_chain_ids_at_depth`, with the top of the stack first. -/
def collectFrom (stack cumulativeStack : List ChainIndex) : List ChainIndex :=
  match stack with
  | [] => cumulativeStack
  | topId :: stack =>
    match _h : collapseBack topId with
    | none => collectFrom stack cumulativeStack
    | some collapsedId =>
      collectFrom (collapsedId.shuffleIter.reverse ++ stack)
        (cumulativeStack ++ collapsedId.shuffleIter)
termination_by (stack.map List.length : Multiset ℕ)
decreasing_by
  · exact lengths_lt [] (by simp)
  · refine lengths_lt _ fun id hid => ?_
    rw [(mem_shuffleIter.mp (List.mem_reverse.mp hid)).length_eq]
    exact (collapseBack_ok _h).1

/-- `collect_chain_ids_at_depth`. -/
def collectChainIdsAtDepth (depth : ℕ) : List ChainIndex :=
  collectFrom [replicate depth 0] [replicate depth 0]

/-- `chain_ids_at_depth`. -/
def chainIdsAtDepth (depth : ℕ) : List ChainIndex := unique (collectChainIdsAtDepth depth)

/-- `chain_ids_at_depth_rev`. -/
def chainIdsAtDepthRev (depth : ℕ) : List ChainIndex :=
  unique (collectChainIdsAtDepth depth).reverse

/-- The index is merged and shuffled into the other one. -/
def Merges (index next : ChainIndex) : Prop :=
  ∃ collapsed, collapseBack index = some collapsed ∧ next.Perm collapsed

/-- The loop collects what is reached from its stack. -/
theorem mem_collectFrom {stack cumulative : List ChainIndex} :
    index ∈ collectFrom stack cumulative ↔
      index ∈ cumulative ∨ ∃ top ∈ stack, TransGen Merges top index := by
  fun_induction collectFrom stack cumulative with
  | case1 cumulative => simp
  | case2 cumulative top stack hnone ih =>
    have hstuck : ¬TransGen Merges top index := by
      rw [TransGen.head'_iff]
      rintro ⟨next, ⟨collapsed, hcollapsed, -⟩, -⟩
      cases hnone.symm.trans hcollapsed
    simp [ih, hstuck]
  | case3 cumulative top stack collapsed hsome ih =>
    have hnext : TransGen Merges top index ↔
        ∃ next ∈ collapsed.shuffleIter, index = next ∨ TransGen Merges next index := by
      rw [TransGen.head'_iff]
      refine exists_congr fun next => and_congr ?_ Relation.reflTransGen_iff_eq_or_transGen
      rw [mem_shuffleIter, Merges, hsome]
      simp
    simp only [ih, mem_append, List.mem_reverse, mem_cons]
    grind

/-- Merging keeps the exact depth. -/
theorem Merges.total_eq (h : Merges index next) : total next = total index := by
  obtain ⟨collapsed, hcollapsed, hperm⟩ := h
  exact (total_perm hperm).trans (collapseBack_ok hcollapsed).2

/-- Every index is reached from the path of zeros of its depth.  The induction is on what the
numbers add up to. -/
theorem reaches_zeros (index : ChainIndex) :
    ReflTransGen Merges (replicate (total index) 0) index := by
  induction hn : (index.map Fin.val).sum generalizing index with
  | zero =>
    have hzero : index = replicate index.length 0 :=
      List.eq_replicate_iff.mpr ⟨rfl, fun x hx =>
        Fin.ext (List.sum_eq_zero_iff_forall_eq_nat.mp hn _ (mem_map_of_mem hx))⟩
    have htotal : total index = index.length := by
      rw [hzero]
      simp [total]
    rw [htotal, ← hzero]
  | succ n ih =>
    obtain ⟨x, hx, hpos⟩ : ∃ x ∈ index, x.val ≠ 0 := by
      by_contra! hall
      have hzero := List.sum_eq_zero (List.forall_mem_map.mpr hall)
      omega
    obtain ⟨y, hy⟩ : ∃ y : U32, x.val = y.val + 1 :=
      ⟨⟨x.val - 1, by omega⟩, (Nat.succ_pred hpos).symm⟩
    have hperm : (index.erase x ++ [x]).Perm index :=
      (List.perm_append_singleton ..).trans (List.perm_cons_erase hx).symm
    have htotal : total (index.erase x ++ [y, 0]) = total index := by
      rw [← total_perm hperm]
      simp [total, hy]
    have hsum : ((index.erase x ++ [y, 0]).map Fin.val).sum = n := by
      have := (hperm.map Fin.val).sum_eq
      simp at this ⊢
      omega
    rw [← htotal]
    exact (ih _ hsum).tail ⟨_, collapseBack_of_pos hy, hperm.symm⟩

theorem mem_collectChainIdsAtDepth {depth : ℕ} :
    index ∈ collectChainIdsAtDepth depth ↔ total index = depth := by
  rw [collectChainIdsAtDepth, mem_collectFrom, mem_singleton]
  simp only [mem_singleton, exists_eq_left, ← Relation.reflTransGen_iff_eq_or_transGen]
  constructor
  · intro h
    induction h with
    | refl => simp [total]
    | tail _ hmerges ih => exact hmerges.total_eq.trans ih
  · rintro rfl
    exact reaches_zeros index

theorem foldlM_eq_some {start v : U32} :
    index.foldlM (addStep true) start = some v ↔ start.val + total index = v.val := by
  induction index generalizing start with
  | nil => simp [total, Fin.ext_iff]
  | cons cci index ih =>
    have hcons : total (cci :: index) = cci.val + 1 + total index := rfl
    have hone : (1 : U32).val = 1 := rfl
    simp only [foldlM_cons, addStep, bind_eq_bind, bind_eq_some_iff, ih, if_true,
      checkedAdd_eq_some, hcons, hone]
    constructor
    · rintro ⟨mid, ⟨step, hstep, hmid⟩, hrest⟩
      omega
    · intro h
      refine ⟨⟨start.val + (cci.val + 1), by omega⟩, ⟨⟨cci.val + 1, by omega⟩, rfl, rfl⟩, ?_⟩
      show start.val + (cci.val + 1) + total index = v.val
      omega

/-- Where the sum does not overflow, nothing depends on the check. -/
theorem foldlM_unchecked {start : U32} (h : start.val + total index < 2 ^ 32) :
    index.foldlM (addStep false) start = index.foldlM (addStep true) start := by
  induction index generalizing start with
  | nil => rfl
  | cons cci index ih =>
    have hcons : total (cci :: index) = cci.val + 1 + total index := rfl
    have hstep : checkedAdd cci 1 = some ⟨cci.val + 1, by omega⟩ := checkedAdd_eq_some.mpr rfl
    have hsum : checkedAdd start ⟨cci.val + 1, by omega⟩ = some (start + ⟨cci.val + 1, by omega⟩) :=
      checkedAdd_eq_some.mpr (Nat.mod_eq_of_lt (by show start.val + (cci.val + 1) < _; omega))
    have hnext : (start + ⟨cci.val + 1, by omega⟩ : U32).val = start.val + (cci.val + 1) :=
      checkedAdd_eq_some.mp hsum
    simp only [foldlM_cons, addStep, hstep, hsum, bind_eq_bind, bind_some, if_true]
    exact ih (by omega)

/-- **Layers are complete.**  Both enumerations of a layer list the indices of that exact depth,
each one once; and the depth of an index is the exact one, if overflows are checked or the exact
one is below 2^32. -/
theorem layers_complete (depth : ℕ) :
    (∀ ids ∈ [chainIdsAtDepth depth, chainIdsAtDepthRev depth],
      ids.Nodup ∧ ∀ index, index ∈ ids ↔ total index = depth) ∧
    ∀ (index : ChainIndex) (overflowChecks : Bool) (v : U32),
      overflowChecks = true ∨ total index < 2 ^ 32 →
        (index.depth overflowChecks = some v ↔ total index = v.val) := by
  refine ⟨?_, fun index overflowChecks v hexact => ?_⟩
  · simp [chainIdsAtDepth, chainIdsAtDepthRev, mem_collectChainIdsAtDepth, unique, List.nodup_dedup]
  · have hsame : index.depth overflowChecks = index.depth true := by
      cases overflowChecks with
      | true => rfl
      | false => exact foldlM_unchecked (by simpa using hexact)
    rw [hsame]
    exact foldlM_eq_some.trans (by simp)

/-- Unchecked, a depth of 2^32 + 1 is 1. -/
theorem wrapped_depth :
    ChainIndex.depth false [4294967294, 1] = some 1 ∧ [4294967294, 1] ∉ chainIdsAtDepth 1 := by
  refine ⟨by decide, ?_⟩
  rw [chainIdsAtDepth, mem_unique, mem_collectChainIdsAtDepth]
  decide

end ChainIndex

end Lssa
