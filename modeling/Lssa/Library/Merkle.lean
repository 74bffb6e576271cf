/-
Padded binary hash trees, and their layout in an array.

A tree over a list of leaves has a node for every height and index.  A node above a leaf
combines its two children; a node above no leaf is the padding of its height.

* `node` — the nodes of a tree, and how they change when a leaf is appended
  (`node_concat_of_ne`, `node_concat_above`);
* `full` — the tree without paddings, which it is equal to if they are sound;
* `climb` — what a list of siblings makes of a value;
* `climb_siblings` — the siblings above a leaf lead from it to every node above it;
* `exists_leaf_of_climb_eq` — nothing but a leaf leads to a node, whatever siblings are
  given and however many, as long as the nodes can only be combined in one way;
* `slot` — the place of a node in an array that holds a full tree, root first.
-/
import Mathlib.Data.Nat.Log
import Mathlib.Data.List.GetD
import Mathlib.Data.List.Induction
import Mathlib.Tactic.Ring

namespace Merkle

open Nat (clog log two_pow_pos)

variable {α : Type} (h : α → α → α) (pad : ℕ → α)

/-! ### Nodes -/

/-- The node of a height and an index. -/
def node (leaves : List α) : ℕ → ℕ → α
  | 0, i => leaves.getD i (pad 0)
  | k + 1, i =>
    if i * 2 ^ (k + 1) < leaves.length then h (node leaves k (2 * i)) (node leaves k (2 * i + 1))
    else pad (k + 1)

variable {h pad} {leaves : List α}

variable {k i d : ℕ}

theorem node_of_length_le (hle : leaves.length ≤ i * 2 ^ k) :
    node h pad leaves k i = pad k := by
  cases k with
  | zero => exact List.getD_eq_default _ _ (by omega)
  | succ k => rw [node, if_neg (by omega)]

theorem node_succ_of_lt (hlt : i * 2 ^ (k + 1) < leaves.length) :
    node h pad leaves (k + 1) i
      = h (node h pad leaves k (2 * i)) (node h pad leaves k (2 * i + 1)) := by
  rw [node, if_pos hlt]

/-- If paddings combine to paddings, every node combines its children. -/
theorem node_succ (hpad : pad (k + 1) = h (pad k) (pad k)) (i : ℕ) :
    node h pad leaves (k + 1) i
      = h (node h pad leaves k (2 * i)) (node h pad leaves k (2 * i + 1)) := by
  by_cases hlt : i * 2 ^ (k + 1) < leaves.length
  · exact node_succ_of_lt hlt
  · have hpow : 2 ^ (k + 1) = 2 * 2 ^ k := pow_succ' 2 k
    have hleft : leaves.length ≤ 2 * i * 2 ^ k := by
      rw [hpow] at hlt
      calc leaves.length ≤ i * (2 * 2 ^ k) := by omega
        _ = 2 * i * 2 ^ k := by ring
    have hright : leaves.length ≤ (2 * i + 1) * 2 ^ k :=
      hleft.trans (Nat.mul_le_mul_right _ (by omega))
    rw [node_of_length_le (by omega), node_of_length_le hleft, node_of_length_le hright, hpad]

variable (h) in
/-- The nodes of a full tree, all of whose leaves are given. -/
def full (leaf : ℕ → α) : ℕ → ℕ → α
  | 0, i => leaf i
  | k + 1, i => h (full leaf k (2 * i)) (full leaf k (2 * i + 1))

/-- If paddings combine to paddings, a padded tree is a full tree with padded leaves. -/
theorem node_eq_full (hpad : ∀ j, j < k → pad (j + 1) = h (pad j) (pad j)) (i : ℕ) :
    node h pad leaves k i = full h (fun i => leaves.getD i (pad 0)) k i := by
  induction k generalizing i with
  | zero => rfl
  | succ k ih =>
    have hbelow := ih fun j hj => hpad j (by omega)
    rw [node_succ (hpad k (by omega)), hbelow, hbelow, full]

theorem div_two_pow_succ (n k : ℕ) : n / 2 ^ (k + 1) = n / 2 ^ k / 2 := by
  rw [pow_succ, Nat.div_div_eq_div_mul]

/-- A new leaf leaves every node alone that is not above it. -/
theorem node_concat_of_ne {x : α} (hne : i ≠ leaves.length / 2 ^ k) :
    node h pad (leaves ++ [x]) k i = node h pad leaves k i := by
  induction k generalizing i with
  | zero =>
    rw [pow_zero, Nat.div_one] at hne
    rcases Nat.lt_or_gt_of_ne hne with hlt | hgt
    · exact List.getD_append _ _ _ _ hlt
    · rw [node, node, List.getD_eq_default _ _ (by simp; omega),
        List.getD_eq_default _ _ (by omega)]
  | succ k ih =>
    rw [div_two_pow_succ] at hne
    -- neither child is above the leaf, or the node would be
    have hleft : node h pad (leaves ++ [x]) k (2 * i) = node h pad leaves k (2 * i) :=
      ih (by omega)
    have hright : node h pad (leaves ++ [x]) k (2 * i + 1) = node h pad leaves k (2 * i + 1) :=
      ih (by omega)
    have hnot : i * 2 ^ (k + 1) ≠ leaves.length := by
      intro heq
      apply hne
      rw [← div_two_pow_succ, ← heq, Nat.mul_div_cancel _ (two_pow_pos _)]
    have hlength : (leaves ++ [x]).length = leaves.length + 1 := by simp
    by_cases hlt : i * 2 ^ (k + 1) < leaves.length
    · have hlt' : i * 2 ^ (k + 1) < (leaves ++ [x]).length := by omega
      rw [node_succ_of_lt hlt, node_succ_of_lt hlt', hleft, hright]
    · have hle : leaves.length ≤ i * 2 ^ (k + 1) := by omega
      have hle' : (leaves ++ [x]).length ≤ i * 2 ^ (k + 1) := by omega
      rw [node_of_length_le hle, node_of_length_le hle']

/-- Above a new leaf every node combines its children. -/
theorem node_concat_above (leaves : List α) (x : α) (k : ℕ) :
    node h pad (leaves ++ [x]) (k + 1) (leaves.length / 2 ^ (k + 1))
      = h (node h pad (leaves ++ [x]) k (2 * (leaves.length / 2 ^ (k + 1))))
          (node h pad (leaves ++ [x]) k (2 * (leaves.length / 2 ^ (k + 1)) + 1)) := by
  apply node_succ_of_lt
  have hle := Nat.div_mul_le_self leaves.length (2 ^ (k + 1))
  rw [List.length_append, List.length_singleton]
  omega

/-! ### Climbing -/

variable (h) in
/-- Combine a value with the siblings on the way up. -/
def climb : α → ℕ → List α → α
  | x, _, [] => x
  | x, i, s :: path => climb (if i % 2 = 0 then h x s else h s x) (i / 2) path

/-- The other child of the same node. -/
def sibling (i : ℕ) : ℕ := if i % 2 = 0 then i + 1 else i - 1

variable (h pad) in
/-- The siblings met on the way up from a node, over `d` levels. -/
def siblings (leaves : List α) : ℕ → ℕ → ℕ → List α
  | _, _, 0 => []
  | k, i, d + 1 => node h pad leaves k (sibling i) :: siblings leaves (k + 1) (i / 2) d

theorem parent_lt {n : ℕ} (hlt : i * 2 ^ k < n) : i / 2 * 2 ^ (k + 1) < n := by
  refine lt_of_le_of_lt ?_ hlt
  calc i / 2 * 2 ^ (k + 1) = 2 * (i / 2) * 2 ^ k := by ring
    _ ≤ i * 2 ^ k := Nat.mul_le_mul_right _ (by omega)

/-- A node above a leaf is combined from a node and its sibling. -/
theorem node_eq_of_sibling (hlt : i * 2 ^ k < leaves.length) :
    node h pad leaves (k + 1) (i / 2)
      = if i % 2 = 0 then h (node h pad leaves k i) (node h pad leaves k (sibling i))
        else h (node h pad leaves k (sibling i)) (node h pad leaves k i) := by
  rw [node_succ_of_lt (parent_lt hlt), sibling]
  by_cases heven : i % 2 = 0
  · rw [if_pos heven, if_pos heven, show 2 * (i / 2) = i by omega]
  · rw [if_neg heven, if_neg heven, show 2 * (i / 2) = i - 1 by omega, show i - 1 + 1 = i by omega]

/-- **Completeness.**  The siblings above a leaf lead to the nodes above it. -/
theorem climb_siblings (hlt : i * 2 ^ k < leaves.length) (d : ℕ) :
    climb h (node h pad leaves k i) i (siblings h pad leaves k i d)
      = node h pad leaves (k + d) (i / 2 ^ d) := by
  induction d generalizing k i with
  | zero => rw [siblings, climb, pow_zero, Nat.div_one, Nat.add_zero]
  | succ d ih =>
    rw [siblings, climb, ← node_eq_of_sibling hlt, ih (parent_lt hlt), pow_succ',
      Nat.div_div_eq_div_mul, show k + 1 + d = k + (d + 1) by omega]

/-- The siblings above a leaf lead to the root of the smallest tree with room. -/
theorem climb_siblings_root {leaf : α} (hleaf : leaves[i]? = some leaf) :
    climb h leaf i (siblings h pad leaves 0 i (clog 2 leaves.length))
      = node h pad leaves (clog 2 leaves.length) 0 := by
  obtain ⟨hlt, -⟩ := List.getElem?_eq_some_iff.mp hleaf
  have hnode : leaf = node h pad leaves 0 i := by
    rw [node, List.getD_eq_getElem?_getD, hleaf, Option.getD_some]
  have hle : leaves.length ≤ 2 ^ clog 2 leaves.length := Nat.le_pow_clog (by omega) _
  rw [hnode, climb_siblings (by simpa using hlt), Nat.zero_add, Nat.div_eq_of_lt (by omega)]

/-- The last sibling is combined at the top. -/
theorem climb_concat (x s : α) (i : ℕ) (path : List α) :
    ∃ a b, climb h x i (path ++ [s]) = h a b ∧ (climb h x i path = a ∨ climb h x i path = b) := by
  induction path generalizing x i with
  | nil =>
    by_cases heven : i % 2 = 0
    · exact ⟨x, s, by simp [climb, heven], .inl rfl⟩
    · exact ⟨s, x, by simp [climb, heven], .inr rfl⟩
  | cons s' path ih => exact ih _ _

theorem two_pow_sub (hk : k < d) : 2 ^ (d - k) = 2 * 2 ^ (d - (k + 1)) := by
  rw [← pow_succ']
  congr 1
  omega

/-- **Soundness.**  Let every node of a tree of height `d` be combined in one way, from its
children, let no leaf be combined, and let `x` be no inner node.  Then any path from `x` to
a node of the tree starts at a leaf. -/
theorem exists_leaf_of_climb_eq {x : α}
    (hinner : ∀ k j, k < d → j < 2 ^ (d - (k + 1)) → ∀ a b, h a b = node h pad leaves (k + 1) j →
      a = node h pad leaves k (2 * j) ∧ b = node h pad leaves k (2 * j + 1))
    (hleaf : ∀ j, j < 2 ^ d → ∀ a b, h a b ≠ node h pad leaves 0 j)
    (hx : ∀ k j, k < d → j < 2 ^ (d - (k + 1)) → x ≠ node h pad leaves (k + 1) j) {path : List α}
    {j : ℕ} (hk : k ≤ d) (hj : j < 2 ^ (d - k))
    (hclimb : climb h x i path = node h pad leaves k j) :
    ∃ j', j' < 2 ^ d ∧ x = node h pad leaves 0 j' := by
  -- down from the top: the last sibling first
  induction path using List.reverseRecOn generalizing k j with
  | nil =>
    rw [climb] at hclimb
    cases k with
    | zero => exact ⟨j, by simpa using hj, hclimb⟩
    | succ k => exact absurd hclimb (hx k j (by omega) hj)
  | append_singleton path s ih =>
    obtain ⟨a, b, hab, hrest⟩ := climb_concat (h := h) x s i path
    rw [hab] at hclimb
    cases k with
    | zero => exact absurd hclimb (hleaf j (by simpa using hj) a b)
    | succ k =>
      obtain ⟨rfl, rfl⟩ := hinner k j (by omega) hj a b hclimb
      have hpow : 2 ^ (d - k) = 2 * 2 ^ (d - (k + 1)) := two_pow_sub (by omega)
      rcases hrest with hrest | hrest
      · exact ih (by omega) (by omega) hrest
      · exact ih (by omega) (by omega) hrest

/-! ### Layout -/

/-- The place of a node in the array of a full tree of height `d`. -/
def slot (d k i : ℕ) : ℕ := 2 ^ (d - k) - 1 + i

theorem slot_parent (hk : k < d) : (slot d k i - 1) / 2 = slot d (k + 1) (i / 2) := by
  have hpos : 0 < 2 ^ (d - (k + 1)) := two_pow_pos _
  rw [slot, slot, two_pow_sub hk]
  omega

theorem slot_left (hk : k < d) : 2 * slot d (k + 1) i + 1 = slot d k (2 * i) := by
  have hpos : 0 < 2 ^ (d - (k + 1)) := two_pow_pos _
  rw [slot, slot, two_pow_sub hk]
  omega

theorem slot_right (hk : k < d) : 2 * slot d (k + 1) i + 2 = slot d k (2 * i + 1) := by
  have hpos : 0 < 2 ^ (d - (k + 1)) := two_pow_pos _
  rw [slot, slot, two_pow_sub hk]
  omega

theorem slot_lt (hi : i < 2 ^ (d - k)) : slot d k i < 2 ^ (d + 1) - 1 := by
  have hle : 2 ^ (d - k) ≤ 2 ^ d := Nat.pow_le_pow_right (by omega) (by omega)
  rw [slot, pow_succ]
  omega

/-- The level of a slot can be read off it. -/
theorem log_slot_succ (hi : i < 2 ^ (d - k)) : log 2 (slot d k i + 1) = d - k := by
  have hpos : 0 < 2 ^ (d - k) := two_pow_pos _
  rw [slot, show 2 ^ (d - k) - 1 + i + 1 = 2 ^ (d - k) + i by omega]
  exact Nat.log_eq_of_pow_le_of_lt_pow (by omega) (by rw [pow_succ]; omega)

theorem slot_inj {k' i' : ℕ} (hk : k ≤ d) (hk' : k' ≤ d) (hi : i < 2 ^ (d - k))
    (hi' : i' < 2 ^ (d - k')) (heq : slot d k i = slot d k' i') : k = k' ∧ i = i' := by
  have hlevel : d - k = d - k' := by
    rw [← log_slot_succ hi, ← log_slot_succ hi', heq]
  have hsame : k = k' := by omega
  subst hsame
  rw [slot, slot] at heq
  exact ⟨rfl, by omega⟩

/-- Every place of the array belongs to a node. -/
theorem exists_slot {n : ℕ} (hn : n < 2 ^ (d + 1) - 1) :
    ∃ k i, k ≤ d ∧ i < 2 ^ (d - k) ∧ n = slot d k i := by
  have hle : 2 ^ log 2 (n + 1) ≤ n + 1 := Nat.pow_log_le_self 2 (by omega)
  have hlt : n + 1 < 2 ^ (log 2 (n + 1) + 1) := Nat.lt_pow_succ_log_self (by omega) _
  have hlog : log 2 (n + 1) ≤ d := by
    by_contra hgt
    have hpow : 2 ^ (d + 1) ≤ 2 ^ log 2 (n + 1) := Nat.pow_le_pow_right (by omega) (by omega)
    omega
  have hsub : d - (d - log 2 (n + 1)) = log 2 (n + 1) := by omega
  rw [pow_succ] at hlt
  refine ⟨d - log 2 (n + 1), n + 1 - 2 ^ log 2 (n + 1), by omega, ?_, ?_⟩
  · rw [hsub]
    omega
  · have hpos : 0 < 2 ^ log 2 (n + 1) := two_pow_pos _
    rw [slot, hsub]
    omega

end Merkle
