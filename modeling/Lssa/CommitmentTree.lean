/-
What the commitment tree holds.

The tree of `MerkleTree` lives in an array that grows by doubling.  `Represents` says which
list of leaves such an array stands for: every node that is above a leaf and below the
current root, or above no leaf at all, is the node of the padded tree over the leaves.  What
is stored between the current root and the top of the array is left open, since nobody reads
it before it is recomputed.

* `insert_represents` — an insertion appends a leaf, also when the array is reallocated;
* `insert_total`, `built_total` — no insertion panics while the table of paddings is deep
  enough;
* `root_represents` — the root is the root over the leaves in use;
* `getAuthenticationPathFor_represents` — the path handed out is that of the siblings;
* `CommitmentSet.Holds` — the same for the set around the tree (`extend_holds`).
-/
import Lssa.Library.Merkle
import Lssa.State

open Merkle Outcome

namespace Lssa

open Nat (clog clog_le_of_le_pow clog_pow le_pow_clog log log_pow two_pow_pos)

namespace MerkleTree

/-- The padding of a height. -/
def padding (k : ℕ) : Node := defaultValues.getD k (.replicate 32 0)

/-- The nodes of the padded tree over a list of leaves. -/
abbrev nodeOf [Sha256] (leaves : List Node) (k i : ℕ) : Node := node hashTwo padding leaves k i

/-- The array of height `height` stands for the leaves. -/
structure Represents [Sha256] (height : ℕ) (tree : MerkleTree) (leaves : List Node) : Prop where
  bounded : height < defaultValues.length
  capacity : tree.capacity = 2 ^ height
  length : tree.length = leaves.length
  fits : leaves.length ≤ 2 ^ height
  size : tree.nodes.length = 2 ^ (height + 1) - 1
  holds : ∀ k i, k ≤ height → i < 2 ^ (height - k) → k ≤ clog 2 leaves.length ∨ 0 < i →
    tree.nodes[slot height k i]? = some (nodeOf leaves k i)

theorem depth_eq (tree : MerkleTree) : tree.depth = clog 2 tree.length :=
  log_pow (by omega) _

variable {tree tree' : MerkleTree} {index height : ℕ} {leaves : List Node} {leaf : Node}

theorem setNode_ok {node : Node} (h : tree.setNode index node = some tree') :
    index < tree.nodes.length ∧ tree' = { tree with nodes := tree.nodes.set index node } := by
  unfold setNode at h
  split at h
  · rename_i hlt
    exact ⟨hlt, (some.inj h).symm⟩
  · cases h

/-! ### An empty tree -/

/-- Levels of doubling width, one after the other. -/
theorem getElem?_levels (levels : List Node) (start : ℕ) :
    ((levels.zipIdx start).flatMap fun level => replicate (2 ^ level.2) level.1).length
        = 2 ^ (start + levels.length) - 2 ^ start ∧
      ∀ l i, l < levels.length → i < 2 ^ (start + l) →
        ((levels.zipIdx start).flatMap fun level =>
          replicate (2 ^ level.2) level.1)[2 ^ (start + l) - 2 ^ start + i]? = levels[l]? := by
  induction levels generalizing start with
  | nil => simp
  | cons level levels ih =>
    obtain ⟨hlength, hat⟩ := ih (start + 1)
    have hpow : ∀ m, 2 ^ start ≤ 2 ^ (start + m) := fun m =>
      Nat.pow_le_pow_right (by omega) (by omega)
    have hdouble : 2 ^ (start + 1) = 2 * 2 ^ start := pow_succ' 2 start
    rw [zipIdx_cons, List.flatMap_cons]
    dsimp only
    constructor
    · have hle : 2 ^ (start + 1) ≤ 2 ^ (start + 1 + levels.length) :=
        Nat.pow_le_pow_right (by omega) (by omega)
      rw [length_append, List.length_replicate, hlength, length_cons,
        show start + (levels.length + 1) = start + 1 + levels.length by omega]
      omega
    · intro l i hl hi
      cases l with
      | zero =>
        simp only [Nat.add_zero, Nat.sub_self, Nat.zero_add] at hi ⊢
        rw [List.getElem?_append_left (by rw [List.length_replicate]; omega),
          List.getElem?_replicate, if_pos (by omega)]
        rfl
      | succ l =>
        have hle : 2 ^ (start + 1) ≤ 2 ^ (start + 1 + l) :=
          Nat.pow_le_pow_right (by omega) (by omega)
        rw [show start + (l + 1) = start + 1 + l by omega] at hi ⊢
        rw [List.getElem?_append_right (by rw [List.length_replicate]; omega),
          List.length_replicate,
          show 2 ^ (start + 1 + l) - 2 ^ start + i - 2 ^ start
            = 2 ^ (start + 1 + l) - 2 ^ (start + 1) + i by omega,
          hat l i (by simpa using hl) hi]
        rfl

/-- A tree with nothing but paddings. -/
structure Blank (height : ℕ) (tree : MerkleTree) : Prop where
  bounded : height < defaultValues.length
  capacity : tree.capacity = 2 ^ height
  length : tree.length = 0
  size : tree.nodes.length = 2 ^ (height + 1) - 1
  padded : ∀ k i, k ≤ height → i < 2 ^ (height - k) →
    tree.nodes[slot height k i]? = some (padding k)

theorem withCapacity_blank (h : withCapacity (2 ^ height) = some tree) : Blank height tree := by
  have hcapacity : nextPowerOfTwo (2 ^ height) = 2 ^ height := by
    rw [nextPowerOfTwo, clog_pow 2 height (by omega)]
  unfold withCapacity at h
  simp only [hcapacity, log_pow (by omega : 1 < 2)] at h
  split at h
  · rename_i hlt
    cases h
    have hlevels : ((defaultValues.take (height + 1)).reverse).length = height + 1 := by
      rw [List.length_reverse, length_take]
      omega
    obtain ⟨hlength, hat⟩ := getElem?_levels (defaultValues.take (height + 1)).reverse 0
    refine ⟨hlt, rfl, rfl, ?_, ?_⟩
    · rw [hlength, hlevels, Nat.zero_add, pow_zero]
    · intro k i hk hi
      have hentry := hat (height - k) i (by omega) (by rw [Nat.zero_add]; exact hi)
      rw [Nat.zero_add, pow_zero] at hentry
      rw [slot, hentry, List.getElem?_reverse (by rw [length_take]; omega), length_take,
        List.getElem?_take_of_lt (by omega), padding, List.getD_eq_getElem?_getD,
        show min (height + 1) defaultValues.length - 1 - (height - k) = k by omega,
        getElem?_eq_getElem (by omega)]
      rfl
  · cases h

theorem Blank.represents [Sha256] (h : Blank height tree) :
    Represents height tree [] where
  bounded := h.bounded
  capacity := h.capacity
  length := h.length
  fits := Nat.zero_le _
  size := h.size
  holds k i hk hi _ := by
    rw [h.padded k i hk hi, nodeOf, node_of_length_le (Nat.zero_le _)]

/-! ### Reallocation -/

/-- Where the node at a place of the array goes when the array doubles. -/
def moved (index : ℕ) : ℕ := index + prevPowerOfTwo (index + 1)

theorem moved_eq (index : ℕ) : moved index = index + 2 ^ log 2 (index + 1) := by
  rw [moved, prevPowerOfTwo, if_neg (by omega)]

variable {k i start m levels : ℕ}

theorem moved_slot (hk : k ≤ height) (hi : i < 2 ^ (height - k)) :
    moved (slot height k i) = slot (height + 1) k i := by
  have hpos := two_pow_pos (height - k)
  have hpow : 2 ^ (height + 1 - k) = 2 * 2 ^ (height - k) := by
    rw [← pow_succ', show height + 1 - k = height - k + 1 by omega]
  rw [moved_eq, log_slot_succ hi, slot, slot, hpow]
  omega

theorem moved_strictMono : StrictMono moved := by
  intro a b hlt
  have hle : 2 ^ log 2 (a + 1) ≤ 2 ^ log 2 (b + 1) :=
    Nat.pow_le_pow_right (by omega) (Nat.log_mono_right (by omega))
  rw [moved_eq, moved_eq]
  omega

/-- Copying nodes to their new places. -/
theorem copy_ok {nodes : List Node} (h : (nodes.zipIdx start).foldlM
      (fun this entry => this.setNode (moved entry.2) entry.1) tree = some tree') :
    tree'.capacity = tree.capacity ∧ tree'.nodes.length = tree.nodes.length ∧
      (∀ i node, nodes[i]? = some node → tree'.nodes[moved (start + i)]? = some node) ∧
      ∀ n, (∀ i, i < nodes.length → moved (start + i) ≠ n) → tree'.nodes[n]? = tree.nodes[n]? := by
  induction nodes generalizing start tree with
  | nil =>
    obtain rfl : tree = tree' := by simpa using h
    exact ⟨rfl, rfl, by simp, fun _ _ => rfl⟩
  | cons first nodes ih =>
    rw [zipIdx_cons, foldlM_cons] at h
    obtain ⟨mid, hmid, hrest⟩ := bind_eq_some_iff.mp h
    obtain ⟨hlt, rfl⟩ := setNode_ok hmid
    obtain ⟨hcapacity, hlength, hcopied, hother⟩ := ih hrest
    rw [length_set] at hlength
    refine ⟨hcapacity, hlength, ?_, ?_⟩
    · intro i node hnode
      cases i with
      | zero =>
        obtain rfl : first = node := by simpa using hnode
        -- the nodes copied later go elsewhere
        rw [hother (moved (start + 0)) fun i _ heq => by
          have := moved_strictMono.injective heq
          omega]
        exact List.getElem?_set_self hlt
      | succ i =>
        rw [show start + (i + 1) = start + 1 + i by omega]
        exact hcopied i node (by simpa using hnode)
    · intro n hn
      rw [hother n fun i hi => by
        have := hn (i + 1) (by simpa using hi)
        rwa [show start + (i + 1) = start + 1 + i by omega] at this]
      exact List.getElem?_set_ne (hn 0 (by simp))

/-- A doubled array stands for the same leaves. -/
theorem reallocate_represents [Sha256] (hrep : Represents height tree leaves)
    (h : tree.reallocateToDoubleCapacity = some tree') :
    Represents (height + 1) tree' leaves := by
  obtain ⟨empty, hempty, h⟩ := bind_eq_some_iff.mp h
  obtain ⟨copied, hcopied, h⟩ := bind_eq_some_iff.mp h
  cases h
  have hblank : Blank (height + 1) empty := by
    refine withCapacity_blank ?_
    rw [pow_succ', ← hrep.capacity]
    exact hempty
  obtain ⟨hcapacity, hsize, hmoved, hkept⟩ := copy_ok hcopied
  have hfits := hrep.fits
  have hpow : 2 ^ (height + 1) = 2 * 2 ^ height := pow_succ' 2 height
  refine
    { bounded := hblank.bounded
      capacity := hcapacity.trans hblank.capacity
      length := hrep.length
      fits := by omega
      size := hsize.trans hblank.size
      holds := ?_ }
  intro k i hk hi hcase
  by_cases hold : k ≤ height ∧ i < 2 ^ (height - k)
  · -- a node of the old array
    obtain ⟨hk, hi⟩ := hold
    have hcopy := hmoved _ _ (hrep.holds k i hk hi hcase)
    rw [Nat.zero_add, moved_slot hk hi] at hcopy
    exact hcopy
  · -- a node of the new half, above no leaf
    have hnot : ∀ n, n < tree.nodes.length → moved (0 + n) ≠ slot (height + 1) k i := by
      intro n hn heq
      obtain ⟨k', i', hk', hi', rfl⟩ := exists_slot (hrep.size ▸ hn)
      have hi'' : i' < 2 ^ (height + 1 - k') :=
        hi'.trans_le (Nat.pow_le_pow_right (by omega) (by omega))
      rw [Nat.zero_add, moved_slot hk' hi'] at heq
      obtain ⟨rfl, rfl⟩ := slot_inj (by omega) hk hi'' hi heq
      exact hold ⟨hk', hi'⟩
    have hempty : leaves.length ≤ i * 2 ^ k := by
      by_cases hk' : k ≤ height
      · have hle : 2 ^ (height - k) ≤ i := by
          by_contra hlt
          exact hold ⟨hk', by omega⟩
        calc leaves.length ≤ 2 ^ (height - k) * 2 ^ k := by
              rw [← pow_add, show height - k + k = height by omega]
              exact hfits
          _ ≤ i * 2 ^ k := Nat.mul_le_mul_right _ hle
      · have hclog : clog 2 leaves.length ≤ height := clog_le_of_le_pow hfits
        have hzero : 2 ^ (height + 1 - k) = 1 := by
          rw [show height + 1 - k = 0 by omega, pow_zero]
        omega
    rw [hkept _ hnot, hblank.padded k i hk hi, nodeOf, node_of_length_le hempty]

/-! ### Insertion -/

/-- A leaf was appended, and the nodes above it are recomputed up to height `m`.  All others
are as they were. -/
structure Updated [Sha256] (height m : ℕ) (tree : MerkleTree) (leaves : List Node) (leaf : Node) :
    Prop where
  bounded : height < defaultValues.length
  capacity : tree.capacity = 2 ^ height
  length : tree.length = leaves.length + 1
  size : tree.nodes.length = 2 ^ (height + 1) - 1
  above : ∀ k, k ≤ m → tree.nodes[slot height k (leaves.length / 2 ^ k)]?
    = some (nodeOf (leaves ++ [leaf]) k (leaves.length / 2 ^ k))
  aside : ∀ k i, k ≤ height → i < 2 ^ (height - k) → k ≤ clog 2 leaves.length ∨ 0 < i →
    i ≠ leaves.length / 2 ^ k → tree.nodes[slot height k i]? = some (nodeOf leaves k i)

theorem div_two_pow_lt {n : ℕ} (hn : n < 2 ^ height) (hk : k ≤ height) :
    n / 2 ^ k < 2 ^ (height - k) := by
  rw [Nat.div_lt_iff_lt_mul (two_pow_pos k), ← pow_add, show height - k + k = height by omega]
  exact hn

/-- One more level. -/
theorem Updated.step [Sha256] {left right : Node} (h : Updated height m tree leaves leaf)
    (hfits : leaves.length < 2 ^ height) (hm : m < height) (hdepth : m ≤ clog 2 leaves.length)
    (hleft : tree.nodes[2 * slot height (m + 1) (leaves.length / 2 ^ (m + 1)) + 1]? = some left)
    (hright : tree.nodes[2 * slot height (m + 1) (leaves.length / 2 ^ (m + 1)) + 2]? = some right)
    (hset : tree.setNode (slot height (m + 1) (leaves.length / 2 ^ (m + 1))) (hashTwo left right)
      = some tree') : Updated height (m + 1) tree' leaves leaf := by
  obtain ⟨hlt, rfl⟩ := setNode_ok hset
  -- both children are nodes of the new tree
  have hchild : ∀ i, i < 2 ^ (height - m) →
      tree.nodes[slot height m i]? = some (nodeOf (leaves ++ [leaf]) m i) := by
    intro i hi
    by_cases heq : i = leaves.length / 2 ^ m
    · rw [heq]
      exact h.above m le_rfl
    · rw [h.aside m i hm.le hi (.inl hdepth) heq, nodeOf, nodeOf, node_concat_of_ne heq]
  have hj := div_two_pow_lt hfits (k := m + 1) hm
  have hpow := two_pow_sub hm
  rw [slot_left hm, hchild _ (by omega), some_inj] at hleft
  rw [slot_right hm, hchild _ (by omega), some_inj] at hright
  have hvalue : hashTwo left right
      = nodeOf (leaves ++ [leaf]) (m + 1) (leaves.length / 2 ^ (m + 1)) := by
    rw [← hleft, ← hright]
    exact (node_concat_above leaves leaf m).symm
  refine ⟨h.bounded, h.capacity, h.length, by rw [length_set, h.size], ?_, ?_⟩
  · intro k hk
    by_cases heq : k = m + 1
    · subst heq
      rw [List.getElem?_set_self hlt, hvalue]
    · have hne : slot height (m + 1) (leaves.length / 2 ^ (m + 1))
          ≠ slot height k (leaves.length / 2 ^ k) := by
        intro hslot
        have hsame := slot_inj hm (by omega) hj (div_two_pow_lt hfits (by omega)) hslot
        omega
      rw [List.getElem?_set_ne hne]
      exact h.above k (by omega)
  · intro k i hk hi hcase hne
    have hslot : slot height (m + 1) (leaves.length / 2 ^ (m + 1)) ≠ slot height k i := by
      intro hslot
      obtain ⟨rfl, rfl⟩ := slot_inj hm hk hj hi hslot
      exact hne rfl
    rw [List.getElem?_set_ne hslot]
    exact h.aside k i hk hi hcase hne

theorem updateAncestors_updated [Sha256] (h : Updated height m tree leaves leaf)
    (hfits : leaves.length < 2 ^ height) (hlevels : m + levels ≤ height)
    (hdepth : m + levels ≤ clog 2 leaves.length + 1)
    (hrun : updateAncestors levels (slot height m (leaves.length / 2 ^ m)) tree = some tree') :
    Updated height (m + levels) tree' leaves leaf := by
  induction levels generalizing m tree with
  | zero =>
    cases hrun
    exact h
  | succ levels ih =>
    have hm : m < height := by omega
    unfold updateAncestors at hrun
    simp only [slot_parent hm, ← div_two_pow_succ] at hrun
    obtain ⟨left, hleft, hrun⟩ := bind_eq_some_iff.mp hrun
    obtain ⟨right, hright, hrun⟩ := bind_eq_some_iff.mp hrun
    obtain ⟨mid, hmid, hrun⟩ := bind_eq_some_iff.mp hrun
    have hstep := h.step hfits hm (by omega) hleft hright hmid
    rw [show m + (levels + 1) = m + 1 + levels by omega] at hlevels hdepth ⊢
    exact ih hstep hlevels hdepth hrun

/-- Recomputed up to the new root, the array stands for the new leaves. -/
theorem Updated.represents [Sha256] (hfits : leaves.length < 2 ^ height)
    (h : Updated height (clog 2 (leaves.length + 1)) tree leaves leaf) :
    Represents height tree (leaves ++ [leaf]) := by
  have hlength : (leaves ++ [leaf]).length = leaves.length + 1 := by simp
  refine ⟨h.bounded, h.capacity, by rw [h.length, hlength], by omega, h.size, ?_⟩
  intro k i hk hi hcase
  rw [hlength] at hcase
  have hnew : leaves.length + 1 ≤ 2 ^ clog 2 (leaves.length + 1) :=
    le_pow_clog (by omega) _
  by_cases heq : i = leaves.length / 2 ^ k
  · by_cases hk' : k ≤ clog 2 (leaves.length + 1)
    · rw [heq]
      exact h.above k hk'
    · -- above the new root only the first node is above the leaf
      have hle : 2 ^ clog 2 (leaves.length + 1) ≤ 2 ^ k :=
        Nat.pow_le_pow_right (by omega) (by omega)
      have hzero : leaves.length / 2 ^ k = 0 := Nat.div_eq_of_lt (by omega)
      omega
  · have hold : k ≤ clog 2 leaves.length ∨ 0 < i := by
      by_contra hnot
      have hle : leaves.length ≤ 2 ^ clog 2 leaves.length := le_pow_clog (by omega) _
      have hlt : 2 ^ clog 2 leaves.length < 2 ^ k := Nat.pow_lt_pow_right (by omega) (by omega)
      have hzero : leaves.length / 2 ^ k = 0 := Nat.div_eq_of_lt (by omega)
      omega
    rw [h.aside k i hk hi hold heq, nodeOf, nodeOf, node_concat_of_ne heq]

/-- Insertion into an array with room. -/
def insertLeaf [Sha256] (tree : MerkleTree) (value : Bytes 32) : Option (MerkleTree × ℕ) := do
  let set ← tree.setNode (tree.length + tree.capacity - 1) (hashValue value)
  let set := { set with length := set.length + 1 }
  let done ← updateAncestors set.depth (tree.length + tree.capacity - 1) set
  pure (done, tree.length)

theorem insert_eq [Sha256] (tree : MerkleTree) (value : Bytes 32) :
    tree.insert value = (if tree.length = tree.capacity then tree.reallocateToDoubleCapacity
      else some tree).bind fun grown => grown.insertLeaf value := by
  unfold MerkleTree.insert
  split <;> rfl

theorem insertLeaf_represents [Sha256] {value : Bytes 32} (hrep : Represents height tree leaves)
    (hfits : leaves.length < 2 ^ height) (h : tree.insertLeaf value = some (tree', index)) :
    index = leaves.length ∧ Represents height tree' (leaves ++ [hashValue value]) := by
  obtain ⟨set, hset, h⟩ := bind_eq_some_iff.mp h
  obtain ⟨done, hrun, h⟩ := bind_eq_some_iff.mp h
  cases h
  refine ⟨hrep.length, ?_⟩
  have hpos := two_pow_pos height
  have hindex : tree.length + tree.capacity - 1 = slot height 0 (leaves.length / 2 ^ 0) := by
    rw [hrep.length, hrep.capacity, slot, pow_zero, Nat.div_one, Nat.sub_zero]
    omega
  obtain ⟨hlt, rfl⟩ := setNode_ok hset
  simp only [depth_eq] at hrun
  rw [hindex, hrep.length] at hrun
  rw [hindex] at hlt
  have hdepth : clog 2 (leaves.length + 1) ≤ clog 2 leaves.length + 1 := by
    refine clog_le_of_le_pow ?_
    have hle : leaves.length ≤ 2 ^ clog 2 leaves.length := le_pow_clog (by omega) _
    have hone := two_pow_pos (clog 2 leaves.length)
    rw [pow_succ]
    omega
  have hheight : clog 2 (leaves.length + 1) ≤ height := clog_le_of_le_pow hfits
  have hstart : Updated height 0
      { tree with
        nodes := tree.nodes.set (slot height 0 (leaves.length / 2 ^ 0)) (hashValue value)
        length := leaves.length + 1 } leaves (hashValue value) := by
    refine ⟨hrep.bounded, hrep.capacity, rfl, by rw [length_set, hrep.size], ?_, ?_⟩
    · intro k hk
      obtain rfl : k = 0 := by omega
      rw [List.getElem?_set_self hlt, pow_zero, Nat.div_one, nodeOf, node]
      simp
    · intro k i hk hi hcase hne
      have hslot : slot height 0 (leaves.length / 2 ^ 0) ≠ slot height k i := by
        intro hslot
        obtain ⟨rfl, rfl⟩ := slot_inj (by omega) hk (div_two_pow_lt hfits (by omega)) hi hslot
        exact hne rfl
      rw [List.getElem?_set_ne hslot]
      exact hrep.holds k i hk hi hcase
  refine Updated.represents hfits ?_
  have hdone := updateAncestors_updated hstart hfits (by omega) (by omega) hrun
  rwa [Nat.zero_add] at hdone

/-- The array that an insertion writes to has room. -/
theorem grown_represents [Sha256] (hrep : Represents height tree leaves)
    (h : (if tree.length = tree.capacity then tree.reallocateToDoubleCapacity else some tree)
      = some tree') : ∃ height', Represents height' tree' leaves ∧ leaves.length < 2 ^ height' := by
  by_cases hfull : tree.length = tree.capacity
  · rw [if_pos hfull] at h
    refine ⟨height + 1, reallocate_represents hrep h, ?_⟩
    have hpos := two_pow_pos height
    rw [← hrep.length, hfull, hrep.capacity, pow_succ]
    omega
  · rw [if_neg hfull] at h
    cases h
    rw [hrep.length, hrep.capacity] at hfull
    exact ⟨height, hrep, lt_of_le_of_ne hrep.fits hfull⟩

/-- **An insertion appends a leaf**, and returns its index. -/
theorem insert_represents [Sha256] {value : Bytes 32} (hrep : Represents height tree leaves)
    (h : tree.insert value = some (tree', index)) :
    index = leaves.length ∧ ∃ height', Represents height' tree' (leaves ++ [hashValue value]) := by
  rw [insert_eq] at h
  obtain ⟨grown, hgrown, h⟩ := bind_eq_some_iff.mp h
  obtain ⟨height', hrep', hroom⟩ := grown_represents hrep hgrown
  obtain ⟨hindex, hdone⟩ := insertLeaf_represents hrep' hroom h
  exact ⟨hindex, height', hdone⟩

/-! ### Nothing is out of bounds -/

theorem withCapacity_pow (capacity : ℕ) :
    withCapacity capacity = withCapacity (2 ^ clog 2 capacity) := by
  have hsame : nextPowerOfTwo (2 ^ clog 2 capacity) = nextPowerOfTwo capacity := by
    rw [nextPowerOfTwo, nextPowerOfTwo, clog_pow 2 _ (by omega)]
  rw [withCapacity, withCapacity, hsame]

theorem withCapacity_total (h : height < defaultValues.length) :
    ∃ tree, withCapacity (2 ^ height) = some tree := by
  refine ⟨_, if_pos ?_⟩
  rw [nextPowerOfTwo, clog_pow 2 height (by omega), log_pow (by omega)]
  exact h

theorem copy_total {nodes : List Node}
    (h : ∀ i, i < nodes.length → moved (start + i) < tree.nodes.length) :
    ∃ tree', (nodes.zipIdx start).foldlM
      (fun this entry => this.setNode (moved entry.2) entry.1) tree = some tree' := by
  induction nodes generalizing start tree with
  | nil => exact ⟨tree, rfl⟩
  | cons first nodes ih =>
    have hset : tree.setNode (moved start) first = some _ := if_pos (h 0 (by simp))
    rw [zipIdx_cons, foldlM_cons, hset]
    refine ih fun i hi => ?_
    rw [length_set, show start + 1 + i = start + (i + 1) by omega]
    exact h (i + 1) (by simpa using hi)

theorem updateAncestors_total [Sha256] (hsize : tree.nodes.length = 2 ^ (height + 1) - 1)
    (hi : i < 2 ^ (height - m)) (hlevels : m + levels ≤ height) :
    ∃ tree', updateAncestors levels (slot height m i) tree = some tree' := by
  induction levels generalizing m i tree with
  | zero => exact ⟨tree, rfl⟩
  | succ levels ih =>
    have hm : m < height := by omega
    have hpow := two_pow_sub hm
    have hat : ∀ k i, i < 2 ^ (height - k) → slot height k i < tree.nodes.length := fun k i hi =>
      hsize ▸ slot_lt hi
    have hset : ∀ node, tree.setNode (slot height (m + 1) (i / 2)) node = some _ := fun node =>
      if_pos (hat _ _ (by omega))
    simp only [updateAncestors, slot_parent hm, slot_left hm, slot_right hm,
      getElem?_eq_getElem (hat m (2 * (i / 2)) (by omega)),
      getElem?_eq_getElem (hat m (2 * (i / 2) + 1) (by omega)), hset,
      bind_eq_bind, bind_some]
    exact ih (by rw [length_set, hsize]) (by omega) (by omega)

/-- **There is room for another leaf** while the table of paddings is deep enough. -/
theorem insert_total [Sha256] (hrep : Represents height tree leaves)
    (hdepth : clog 2 (leaves.length + 1) < defaultValues.length) (value : Bytes 32) :
    ∃ result, tree.insert value = some result := by
  obtain ⟨grown, hgrown⟩ : ∃ grown, (if tree.length = tree.capacity then
      tree.reallocateToDoubleCapacity else some tree) = some grown := by
    by_cases hfull : tree.length = tree.capacity
    · rw [if_pos hfull]
      have hheight : height + 1 < defaultValues.length := by
        refine lt_of_le_of_lt ?_ hdepth
        rw [← hrep.length, hfull, hrep.capacity]
        exact (Nat.lt_clog_iff_pow_lt (by omega)).mpr (Nat.lt_succ_self _)
      obtain ⟨empty, hempty⟩ := withCapacity_total hheight
      have hblank := withCapacity_blank hempty
      have hroom : ∀ i, i < tree.nodes.length → moved (0 + i) < empty.nodes.length := by
        intro i hi
        obtain ⟨k, j, hk, hj, rfl⟩ := exists_slot (hrep.size ▸ hi)
        rw [Nat.zero_add, moved_slot hk hj, hblank.size]
        exact slot_lt (hj.trans_le (Nat.pow_le_pow_right (by omega) (by omega)))
      obtain ⟨copied, hcopied⟩ := copy_total hroom
      rw [pow_succ', ← hrep.capacity] at hempty
      exact ⟨_, bind_eq_some_iff.mpr ⟨empty, hempty, bind_eq_some_iff.mpr ⟨copied, hcopied, rfl⟩⟩⟩
    · exact ⟨tree, if_neg hfull⟩
  obtain ⟨height', hrep', hroom⟩ := grown_represents hrep hgrown
  have hindex : leaves.length + grown.capacity - 1 = slot height' 0 leaves.length := by
    have hpos := two_pow_pos height'
    rw [hrep'.capacity, slot, Nat.sub_zero]
    omega
  have hset : ∀ node, grown.setNode (slot height' 0 leaves.length) node = some _ := fun node =>
    if_pos (hrep'.size ▸ slot_lt hroom)
  have hsize : (grown.nodes.set (slot height' 0 leaves.length) (hashValue value)).length
      = 2 ^ (height' + 1) - 1 := by rw [length_set, hrep'.size]
  obtain ⟨done, hdone⟩ : ∃ done, updateAncestors (clog 2 (leaves.length + 1))
      (slot height' 0 leaves.length) ⟨_, grown.capacity, leaves.length + 1⟩ = some done :=
    updateAncestors_total hsize hroom (by rw [Nat.zero_add]; exact clog_le_of_le_pow hroom)
  refine ⟨(done, leaves.length), ?_⟩
  simp only [insert_eq, hgrown, insertLeaf, hindex, hset, depth_eq, hrep'.length, hdone,
    bind_eq_bind, bind_some]
  rfl

/-! ### Reading -/

theorem rootIndex_eq [Sha256] (h : Represents height tree leaves) :
    tree.rootIndex = slot height (clog 2 leaves.length) 0 := by
  rw [rootIndex, depth_eq, h.length, h.capacity, log_pow (by omega), slot]
  split
  · rename_i heq
    rw [heq, Nat.sub_self]
    rfl
  · rfl

/-- **The root** is that of the smallest tree with room for the leaves. -/
theorem root_represents [Sha256] (h : Represents height tree leaves) :
    tree.root = some (nodeOf leaves (clog 2 leaves.length) 0) := by
  rw [root, rootIndex_eq h]
  exact h.holds _ _ (clog_le_of_le_pow h.fits) (two_pow_pos _) (.inl le_rfl)

theorem pathFrom_represents [Sha256] (h : Represents height tree leaves) {d : ℕ}
    (hd : k + d = clog 2 leaves.length) (hi : i * 2 ^ k < leaves.length) :
    tree.pathFrom (slot height (clog 2 leaves.length) 0) (slot height k i)
      = some (siblings hashTwo padding leaves k i d) := by
  have hdepth : clog 2 leaves.length ≤ height := clog_le_of_le_pow h.fits
  have hle : leaves.length ≤ 2 ^ clog 2 leaves.length := le_pow_clog (by omega) _
  induction d generalizing k i with
  | zero =>
    rw [Nat.add_zero] at hd
    -- one node of the height of the root has leaves below it
    have hzero : i = 0 := by
      rw [← hd] at hle
      by_contra hne
      have hmul : 1 * 2 ^ k ≤ i * 2 ^ k := Nat.mul_le_mul_right _ (by omega)
      omega
    rw [hzero, hd, pathFrom, if_pos rfl, siblings]
  | succ d ih =>
    have hk : k < height := by omega
    have hpow := two_pow_sub hk
    have hpos := two_pow_pos (height - (k + 1))
    have hroot : 2 ^ (height - clog 2 leaves.length) ≤ 2 ^ (height - (k + 1)) :=
      Nat.pow_le_pow_right (by omega) (by omega)
    have hlt : i < 2 ^ (height - k) := by
      have hfits := h.fits
      by_contra hnot
      have hmul : 2 ^ (height - k) * 2 ^ k ≤ i * 2 ^ k := Nat.mul_le_mul_right _ (by omega)
      rw [← pow_add, show height - k + k = height by omega] at hmul
      omega
    have hsibling : sibling i < 2 ^ (height - k) := by
      rw [sibling]
      split <;> omega
    have hindex : (if slot height k i % 2 = 1 then slot height k i + 1 else slot height k i - 1)
        = slot height k (sibling i) := by
      rw [slot, slot, sibling, hpow]
      by_cases heven : i % 2 = 0
      · rw [if_pos (by omega), if_pos heven]
        omega
      · rw [if_neg (by omega), if_neg heven]
        omega
    have hnode := h.holds k (sibling i) hk.le hsibling (.inl (by omega))
    rw [pathFrom, if_neg (by rw [slot, slot]; omega), if_neg (by rw [slot]; omega)]
    simp only [hindex, hnode, slot_parent hk, ih (by omega) (parent_lt hi), siblings]
    rfl

/-- **The path handed out** for an index in use is that of the siblings. -/
theorem getAuthenticationPathFor_represents [Sha256] (h : Represents height tree leaves)
    (hindex : index < leaves.length) :
    tree.getAuthenticationPathFor index
      = some (siblings hashTwo padding leaves 0 index (clog 2 leaves.length)) := by
  have hpos := two_pow_pos height
  have hslot : tree.capacity + index - 1 = slot height 0 index := by
    rw [h.capacity, slot, Nat.sub_zero]
    omega
  rw [getAuthenticationPathFor, if_neg (by rw [h.length]; omega), rootIndex_eq h, hslot]
  exact pathFrom_represents h (Nat.zero_add _) (by simpa using hindex)

/-! ### A tree by itself -/

/-- The tree after some values were inserted into an empty one. -/
def built [Sha256] (capacity : ℕ) (values : List (Bytes 32)) : Option MerkleTree := do
  let empty ← withCapacity capacity
  values.foldlM (fun tree value => (tree.insert value).map Prod.fst) empty

/-- The reference: the binary tree over the hashes of the values, with as many zero leaves as
make their number a power of two. -/
def referenceRoot [Sha256] (values : List (Bytes 32)) : Node :=
  full hashTwo (fun i => (values.map hashValue).getD i (.replicate 32 0)) (clog 2 values.length) 0

variable {capacity : ℕ} {values : List (Bytes 32)}

theorem built_concat [Sha256] (value : Bytes 32) :
    built capacity (values ++ [value])
      = (built capacity values).bind fun tree => (tree.insert value).map Prod.fst := by
  simp only [built, List.foldlM_append, foldlM_cons, List.foldlM_nil, bind_pure]
  exact (Option.bind_assoc _ _ _).symm

theorem built_represents [Sha256] (h : built capacity values = some tree) :
    ∃ height, Represents height tree (values.map hashValue) := by
  induction values using reverseRecOn generalizing tree with
  | nil =>
    obtain ⟨empty, hempty, h⟩ := bind_eq_some_iff.mp h
    cases h
    rw [withCapacity_pow] at hempty
    exact ⟨_, (withCapacity_blank hempty).represents⟩
  | append_singleton values value ih =>
    rw [built_concat] at h
    obtain ⟨before, hbefore, h⟩ := bind_eq_some_iff.mp h
    obtain ⟨⟨after, index⟩, hinsert, rfl⟩ := map_eq_some_iff.mp h
    obtain ⟨height, hrep⟩ := ih hbefore
    rw [map_append]
    exact (insert_represents hrep hinsert).2

theorem built_total [Sha256] (hcapacity : clog 2 capacity < defaultValues.length)
    (hvalues : clog 2 values.length < defaultValues.length) :
    ∃ tree, built capacity values = some tree := by
  induction values using reverseRecOn with
  | nil =>
    obtain ⟨empty, hempty⟩ := withCapacity_total hcapacity
    exact ⟨empty, by rw [built, withCapacity_pow, hempty]; rfl⟩
  | append_singleton values value ih =>
    rw [length_append, length_singleton] at hvalues
    obtain ⟨before, hbefore⟩ :=
      ih ((Nat.clog_mono_right 2 (Nat.le_succ _)).trans_lt hvalues)
    obtain ⟨height, hrep⟩ := built_represents hbefore
    obtain ⟨result, hinsert⟩ := insert_total hrep (by rwa [length_map]) value
    exact ⟨result.1, by rw [built_concat, hbefore, bind_some, hinsert]; rfl⟩

end MerkleTree

/-! ### The set around the tree -/

open MerkleTree

variable [Sha256]

/-- `compute_digest_for_path` climbs from the leaf of the commitment. -/
theorem computeDigestForPath_eq_climb (commitment : Commitment) (proof : MembershipProof) :
    computeDigestForPath commitment proof
      = climb hashTwo (hashValue commitment.value) proof.1 proof.2 := by
  obtain ⟨index, path⟩ := proof
  have hfold : ∀ (x : Node) (i : ℕ), (path.foldl (fun (result, levelIndex) node =>
      (if levelIndex % 2 = 0 then Sha256.hashBytes (result.toList ++ node.toList)
        else Sha256.hashBytes (node.toList ++ result.toList), levelIndex / 2)) (x, i)).1
      = climb hashTwo x i path := by
    induction path with
    | nil => exact fun _ _ => rfl
    | cons node path ih => exact fun x i => ih _ _
  exact hfold _ _

namespace CommitmentSet

/-- The leaves of commitments, in the order they are inserted. -/
def leavesOf (commitments : List Commitment) : List Node :=
  commitments.map fun commitment => hashValue commitment.value

/-- The root over commitments. -/
def rootOf (commitments : List Commitment) : Node :=
  nodeOf (leavesOf commitments) (clog 2 commitments.length) 0

/-- The commitments were inserted into the set, in this order. -/
structure Holds (set : CommitmentSet) (commitments : List Commitment) : Prop where
  tree : ∃ height, Represents height set.merkleTree (leavesOf commitments)
  mem : ∀ commitment, commitment ∈ set.commitments ↔ commitment ∈ commitments
  index : ∀ commitment i, set.commitments.lookup commitment = some i →
    commitments[i]? = some commitment

variable {set set' : CommitmentSet} {commitments : List Commitment}

theorem Holds.digest_eq (h : Holds set commitments) : set.digest = some (rootOf commitments) := by
  obtain ⟨height, hrep⟩ := h.tree
  rw [digest, root_represents hrep, rootOf, leavesOf, length_map]

theorem Holds.length_eq (h : Holds set commitments) :
    set.merkleTree.length = commitments.length := by
  obtain ⟨height, hrep⟩ := h.tree
  rw [hrep.length, leavesOf, length_map]

variable {commitment : Commitment} {batch : List Commitment}

theorem insert_holds (hholds : Holds set commitments) (h : set.insert commitment = some set') :
    Holds set' (commitments ++ [commitment]) ∧ set'.rootHistory = set.rootHistory := by
  obtain ⟨⟨tree, index⟩, hinsert, h⟩ := bind_eq_some_iff.mp h
  cases h
  obtain ⟨height, hrep⟩ := hholds.tree
  obtain ⟨hindex, height', hrep'⟩ := insert_represents hrep hinsert
  rw [leavesOf, length_map] at hindex
  refine ⟨⟨⟨height', ?_⟩, ?_, ?_⟩, rfl⟩
  · rw [leavesOf, map_append]
    exact hrep'
  · intro other
    rw [AList.mem_insert, hholds.mem, mem_append, mem_singleton, or_comm]
  · intro other i hlook
    by_cases heq : other = commitment
    · subst heq
      rw [lookup_insert, some_inj] at hlook
      rw [← hlook, hindex, List.getElem?_concat_length]
    · rw [lookup_insert_ne heq] at hlook
      have hold := hholds.index other i hlook
      rw [List.getElem?_append_left (getElem?_eq_some_iff.mp hold).1]
      exact hold

theorem insertAll_holds (hholds : Holds set commitments)
    (h : batch.foldlM CommitmentSet.insert set = some set') :
    Holds set' (commitments ++ batch) ∧ set'.rootHistory = set.rootHistory := by
  induction batch generalizing set commitments with
  | nil =>
    obtain rfl : set = set' := by simpa using h
    exact ⟨by rwa [append_nil], rfl⟩
  | cons first batch ih =>
    rw [foldlM_cons] at h
    obtain ⟨mid, hmid, hrest⟩ := bind_eq_some_iff.mp h
    obtain ⟨hmidHolds, hmidHistory⟩ := insert_holds hholds hmid
    obtain ⟨hdone, hhistory⟩ := ih hmidHolds hrest
    rw [append_assoc] at hdone
    exact ⟨hdone, hhistory.trans hmidHistory⟩

/-- **A batch is appended**, and the root after it is recorded. -/
theorem extend_holds (hholds : Holds set commitments) (h : set.extend batch = some set') :
    Holds set' (commitments ++ batch) ∧
      set'.rootHistory = Insert.insert (rootOf (commitments ++ batch)) set.rootHistory := by
  obtain ⟨filled, hfilled, h⟩ := bind_eq_some_iff.mp h
  obtain ⟨root, hroot, h⟩ := bind_eq_some_iff.mp h
  cases h
  obtain ⟨hdone, hhistory⟩ := insertAll_holds hholds hfilled
  rw [hdone.digest_eq, some_inj] at hroot
  exact ⟨⟨hdone.tree, hdone.mem, hdone.index⟩, by rw [← hroot, hhistory]⟩

theorem mem_insertAll (h : batch.foldlM CommitmentSet.insert set = some set')
    (commitment : Commitment) :
    commitment ∈ set'.commitments ↔ commitment ∈ set.commitments ∨ commitment ∈ batch := by
  induction batch generalizing set with
  | nil =>
    obtain rfl : set = set' := by simpa using h
    simp
  | cons first batch ih =>
    rw [foldlM_cons] at h
    obtain ⟨mid, hmid, hrest⟩ := bind_eq_some_iff.mp h
    obtain ⟨⟨tree, index⟩, -, hmid⟩ := bind_eq_some_iff.mp hmid
    rw [ih hrest, ← some.inj hmid, mem_cons, ← or_assoc]
    refine or_congr_left ?_
    show commitment ∈ AList.insert first index set.commitments ↔ _
    rw [AList.mem_insert, or_comm]

theorem mem_extend (h : set.extend batch = some set') (commitment : Commitment) :
    commitment ∈ set'.commitments ↔ commitment ∈ set.commitments ∨ commitment ∈ batch := by
  obtain ⟨filled, hfilled, h⟩ := bind_eq_some_iff.mp h
  obtain ⟨root, -, h⟩ := bind_eq_some_iff.mp h
  rw [← some.inj h]
  exact mem_insertAll hfilled commitment

/-- **An inserted commitment can be proven.** -/
theorem Holds.getProofFor_eq (h : Holds set commitments) (hmem : commitment ∈ commitments) :
    ∃ proof, set.getProofFor commitment = some proof ∧
      computeDigestForPath commitment proof = rootOf commitments := by
  obtain ⟨i, hlook⟩ := isSome_iff_exists.mp (lookup_isSome.mpr ((h.mem commitment).mpr hmem))
  have hleaf : (leavesOf commitments)[i]? = some (hashValue commitment.value) := by
    rw [leavesOf, getElem?_map, h.index commitment i hlook, map_some]
  have hlength : (leavesOf commitments).length = commitments.length := length_map _
  obtain ⟨height, hrep⟩ := h.tree
  have hpath := getAuthenticationPathFor_represents hrep (getElem?_eq_some_iff.mp hleaf).1
  refine ⟨(i, _), bind_eq_some_iff.mpr ⟨i, hlook, bind_eq_some_iff.mpr ⟨_, hpath, rfl⟩⟩, ?_⟩
  rw [computeDigestForPath_eq_climb, climb_siblings_root hleaf, hlength, rootOf]

/-! ### Forged proofs -/

/-- No byte string hashes to the padding of a leaf, and the paddings above are what they
stand for. -/
structure PaddingSound : Prop where
  leaf : ∀ bytes, Sha256.hashBytes bytes ≠ padding 0
  inner : ∀ k, k + 1 < defaultValues.length → padding (k + 1) = hashTwo (padding k) (padding k)

/-- The nodes of the tree have one preimage each, paddings of leaves apart. -/
def CollisionFree (set : CommitmentSet) : Prop :=
  ∀ node ∈ set.merkleTree.nodes, node ≠ padding 0 → Sha256.Unambiguous node

/-- Two nodes that are hashed together can be told from the digest. -/
theorem hashTwo_inj {a b l r : Node} (hsafe : Sha256.Unambiguous (hashTwo l r))
    (h : hashTwo a b = hashTwo l r) : a = l ∧ b = r := by
  have hbytes := hsafe _ _ h rfl
  obtain ⟨hleft, hright⟩ := append_inj hbytes (by simp)
  exact ⟨List.Vector.eq _ _ hleft, List.Vector.eq _ _ hright⟩

/-- A leaf is never the hash of two nodes. -/
theorem hashTwo_ne_hashValue {a b : Node} {value : Bytes 32}
    (hsafe : Sha256.Unambiguous (hashTwo a b)) : hashValue value ≠ hashTwo a b := by
  intro h
  have hlength := congrArg List.length (hsafe _ _ h rfl)
  rw [length_append, List.Vector.toList_length, List.Vector.toList_length,
    List.Vector.toList_length] at hlength
  omega

/-- A leaf of the tree is that of a commitment, or padding. -/
theorem leaf_cases (commitments : List Commitment) (j : ℕ) :
    (∃ commitment ∈ commitments,
        nodeOf (leavesOf commitments) 0 j = hashValue commitment.value) ∨
      nodeOf (leavesOf commitments) 0 j = padding 0 := by
  have hleaf : nodeOf (leavesOf commitments) 0 j
      = ((commitments[j]?).map fun commitment => hashValue commitment.value).getD (padding 0) := by
    rw [← getElem?_map, ← List.getD_eq_getElem?_getD]
    rfl
  rw [hleaf]
  cases hat : commitments[j]? with
  | none => exact .inr rfl
  | some commitment => exact .inl ⟨commitment, mem_of_getElem? hat, rfl⟩

/-- The nodes below the root are stored, so they have one preimage each. -/
theorem Holds.unambiguous (h : Holds set commitments) (hsafe : CollisionFree set) {k j : ℕ}
    (hk : k ≤ clog 2 commitments.length)
    (hj : j < 2 ^ (clog 2 commitments.length - k))
    (hne : nodeOf (leavesOf commitments) k j ≠ padding 0) :
    Sha256.Unambiguous (nodeOf (leavesOf commitments) k j) := by
  obtain ⟨height, hrep⟩ := h.tree
  have hlength : (leavesOf commitments).length = commitments.length := length_map _
  have hheight : clog 2 commitments.length ≤ height :=
    clog_le_of_le_pow (hlength ▸ hrep.fits)
  have hat := hrep.holds k j (by omega)
    (hj.trans_le (Nat.pow_le_pow_right (by omega) (by omega))) (.inl (by rw [hlength]; exact hk))
  exact hsafe _ (mem_of_getElem? hat) hne

/-- An inner node below the root hashes its children, and nothing else has its digest. -/
theorem Holds.inner (h : Holds set commitments) (hpadding : PaddingSound)
    (hsafe : CollisionFree set) {k j : ℕ} (hk : k < clog 2 commitments.length)
    (hj : j < 2 ^ (clog 2 commitments.length - (k + 1))) :
    nodeOf (leavesOf commitments) (k + 1) j
        = hashTwo (nodeOf (leavesOf commitments) k (2 * j))
            (nodeOf (leavesOf commitments) k (2 * j + 1)) ∧
      Sha256.Unambiguous (nodeOf (leavesOf commitments) (k + 1) j) := by
  obtain ⟨height, hrep⟩ := h.tree
  have hlength : (leavesOf commitments).length = commitments.length := length_map _
  have hheight : clog 2 commitments.length ≤ height :=
    clog_le_of_le_pow (hlength ▸ hrep.fits)
  have hbounded := hrep.bounded
  have hchildren : nodeOf (leavesOf commitments) (k + 1) j
      = hashTwo (nodeOf (leavesOf commitments) k (2 * j))
          (nodeOf (leavesOf commitments) k (2 * j + 1)) :=
    node_succ (hpadding.inner k (by omega)) j
  refine ⟨hchildren, h.unambiguous hsafe hk hj ?_⟩
  intro heq
  exact hpadding.leaf _ (hchildren.symm.trans heq)

/-- **Only what was inserted can be proven**, whatever index and path are given, of
whatever length. -/
theorem Holds.mem_of_path (h : Holds set commitments) (hpadding : PaddingSound)
    (hsafe : CollisionFree set) {proof : MembershipProof}
    (hproof : computeDigestForPath commitment proof = rootOf commitments) :
    commitment ∈ commitments := by
  rw [computeDigestForPath_eq_climb] at hproof
  have hinner : ∀ k j, k < clog 2 commitments.length →
      j < 2 ^ (clog 2 commitments.length - (k + 1)) → ∀ a b,
        hashTwo a b = nodeOf (leavesOf commitments) (k + 1) j →
          a = nodeOf (leavesOf commitments) k (2 * j) ∧
            b = nodeOf (leavesOf commitments) k (2 * j + 1) := by
    intro k j hk hj a b hab
    obtain ⟨hchildren, hunique⟩ := h.inner hpadding hsafe hk hj
    exact hashTwo_inj (hchildren ▸ hunique) (hab.trans hchildren)
  have hleaf : ∀ j, j < 2 ^ clog 2 commitments.length → ∀ a b,
      hashTwo a b ≠ nodeOf (leavesOf commitments) 0 j := by
    intro j hj a b hab
    rcases leaf_cases commitments j with ⟨other, -, hother⟩ | hpad
    · have hne : nodeOf (leavesOf commitments) 0 j ≠ padding 0 := by
        rw [hother]
        exact hpadding.leaf _
      have hunique := h.unambiguous hsafe (Nat.zero_le _) hj hne
      exact hashTwo_ne_hashValue (hab ▸ hunique) (hother.symm.trans hab.symm)
    · exact hpadding.leaf _ (hab.trans hpad)
  have hstart : ∀ k j, k < clog 2 commitments.length →
      j < 2 ^ (clog 2 commitments.length - (k + 1)) →
        hashValue commitment.value ≠ nodeOf (leavesOf commitments) (k + 1) j := by
    intro k j hk hj heq
    obtain ⟨hchildren, hunique⟩ := h.inner hpadding hsafe hk hj
    exact hashTwo_ne_hashValue (hchildren ▸ hunique) (heq.trans hchildren)
  obtain ⟨j, hj, hfirst⟩ := exists_leaf_of_climb_eq hinner hleaf hstart le_rfl
    (two_pow_pos _) hproof
  -- the path starts at the leaf of a commitment, which is the one proven
  rcases leaf_cases commitments j with ⟨other, hmem, hother⟩ | hpad
  · have hne : nodeOf (leavesOf commitments) 0 j ≠ padding 0 := by
      rw [hother]
      exact hpadding.leaf _
    have hunique := h.unambiguous hsafe (Nat.zero_le _) hj hne
    have hbytes := hunique _ _ hfirst hother.symm
    obtain ⟨value⟩ := commitment
    obtain ⟨value'⟩ := other
    obtain rfl : value = value' := List.Vector.eq _ _ hbytes
    exact hmem
  · exact absurd (hfirst.trans hpad) (hpadding.leaf _)

end CommitmentSet

/-- The default state holds the dummy commitment. -/
theorem V03State.holds_new {start : V03State} (h : V03State.new = some start) :
    start.commitmentSet.Holds [dummyCommitment] ∧
      start.commitmentSet.rootHistory = {CommitmentSet.rootOf [dummyCommitment]} := by
  unfold V03State.new at h
  obtain ⟨empty, hempty, h⟩ := bind_eq_some_iff.mp h
  obtain ⟨set, hset, hstart⟩ := bind_eq_some_iff.mp h
  unfold CommitmentSet.withCapacity at hempty
  obtain ⟨tree, htree, hset₀⟩ := bind_eq_some_iff.mp hempty
  cases hset₀
  rw [← some.inj hstart]
  have hblank : MerkleTree.Blank 5 tree := MerkleTree.withCapacity_blank htree
  have hholds : CommitmentSet.Holds ⟨tree, ∅, ∅⟩ [] :=
    ⟨⟨5, hblank.represents⟩, by simp, by simp⟩
  exact CommitmentSet.extend_holds hholds hset

end Lssa
