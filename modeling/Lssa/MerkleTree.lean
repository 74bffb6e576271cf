/-
The commitment tree.

`lee/state_machine/src/merkle_tree/mod.rs`: a complete binary tree of hashes
in one array, root first, with room for a power of two of leaves.  Subtrees
without a leaf hold the default value of their height.  The tree doubles when
it is full, the old tree becoming the left subtree of the new one.

The array accesses and the slice of the default table panic in the source when
they are out of bounds; here they are `none`.
-/
import Mathlib.Data.Nat.Log
import Lssa.Account

open Borsh

namespace Lssa

abbrev Node := Bytes 32

/-- A node from the hexadecimal reading of its bytes. -/
def Node.ofHex (hex : ℕ) : Node :=
  ⟨(leBytes 32 hex).reverse, by rw [List.length_reverse, length_leBytes]⟩

export Node (ofHex)

/-- `DEFAULT_VALUES`: the root of an empty tree of each height. -/
def defaultValues : List Node :=
  [ 0x0000000000000000000000000000000000000000000000000000000000000000,
    0xf5a5fd42d16a20302798ef6ed309979b43003d2320d9f0e8ea9831a92759fb4b,
    0xdb56114e00fdd4c1f85c892bf35ac9a89289aaecb1ebd0a96cde606a748b5d71,
    0xc78009fdf07fc56a11f122370658a353aaa542ed63e44c4bc15ff4cd105ab33c,
    0x536d98837f2dd165a55d5eeae91485954472d56f246df256bf3cae19352a123c,
    0x9efde052aa15429fae05bad4d0b1d7c64da64d03d7a1854a588c2cb8430c0d30,
    0xd88ddfeed400a8755596b21942c1497e114c302e6118290f91e6772976041fa1,
    0x87eb0ddba57e35f6d286673802a4af5975e22506c7cf4c64bb6be5ee11527f2c,
    0x26846476fd5fc54a5d43385167c95144f2643f533cc85bb9d16b782f8d7db193,
    0x506d86582d252405b840018792cad2bf1259f1ef5aa5f887e13cb2f0094f51e1,
    0xffff0ad7e659772f9534c195c815efc4014ef1e1daed4404c06385d11192e92b,
    0x6cf04127db05441cd833107a52be852868890e4317e6a02ab47683aa75964220,
    0xb7d05f875f140027ef5118a2247bbb84ce8f2f0f1123623085daf7960c329f5f,
    0xdf6af5f5bbdb6be9ef8aa618e4bf8073960867171e29676f8b284dea6a08a85e,
    0xb58d900f5e182e3c50ef74969ea16c7726c549757cc23523c369587da7293784,
    0xd49a7502ffcfb0340b1d7885688500ca308161a7f96b62df9d083b71fcc8f2bb,
    0x8fe6b1689256c0d385f42f5bbe2027a22c1996e110ba97c171d3e5948de92beb,
    0x8d0d63c39ebade8509e0ae3c9c3876fb5fa112be18f905ecacfecb92057603ab,
    0x95eec8b2e541cad4e91de38385f2e046619f54496c2382cb6cacd5b98c26f5a4,
    0xf893e908917775b62bff23294dbbe3a1cd8e6cc1c35b4801887b646a6f81f17f,
    0xcddba7b592e3133393c16194fac7431abf2f5485ed711db282183c819e08ebaa,
    0x8a8d7fe3af8caa085a7639a832001457dfb9128a8061142ad0335629ff23ff9c,
    0xfeb3c337d7a51a6fbf00b9e34c52e1c9195c969bd4e7a0bfd51d5c5bed9c1167,
    0xe71f0aa83cc32edfbefa9f4d3e0174ca85182eec9f3a09f6a6c0df6377a510d7,
    0x31206fa80a50bb6abe29085058f16212212a60eec8f049fecb92d8c8e0a84bc0,
    0x21352bfecbeddde993839f614c3dac0a3ee37543f9b412b16199dc158e23b544,
    0x619e312724bb6d7c3153ed9de791d764a366b389af13c58bf8a8d90481a46765,
    0x7cdd2986268250628d0c10e385c58c6191e6fbe05191bcc04f133f2cea72c1c4,
    0x848930bd7ba8cac54661072113fb278869e07bb8587f91392933374d017bcbe1,
    0x8869ff2c22b28cc10510d9853292803328be4fb0e80495e8bb8d271f5b889636,
    0xb5fe28e79f1b850f8658246ce9b6a1e7b49fc06db7143e8fe0b4f2b0c5523a5c,
    0x985e929f70af28d0bdd1a90a808f977f597c7c778c489e98d3bd8910d31ac0f7 ].map ofHex

/-- `hash_value`. -/
def hashValue [Sha256] (value : Bytes 32) : Node := Sha256.hashBytes value.toList

/-- `hash_two`. -/
def hashTwo [Sha256] (left right : Node) : Node :=
  Sha256.hashBytes (left.toList ++ right.toList)

/-- `usize::next_power_of_two`. -/
def nextPowerOfTwo (x : ℕ) : ℕ := 2 ^ Nat.clog 2 x

/-- `prev_power_of_two`. -/
def prevPowerOfTwo (x : ℕ) : ℕ := if x = 0 then 0 else 2 ^ Nat.log 2 x

structure MerkleTree where
  nodes : List Node
  /-- A power of two. -/
  capacity : ℕ
  length : ℕ
  deriving DecidableEq

namespace MerkleTree

/-- `MerkleTree::with_capacity`. -/
def withCapacity (capacity : ℕ) : Option MerkleTree :=
  let capacity := nextPowerOfTwo capacity
  let totalDepth := Nat.log 2 capacity
  if totalDepth < defaultValues.length then
    let levels := (defaultValues.take (totalDepth + 1)).reverse
    some
      { nodes := levels.zipIdx.flatMap fun level => replicate (2 ^ level.2) level.1
        capacity
        length := 0 }
  else none

/-- Number of levels above the leaves in use. -/
def depth (tree : MerkleTree) : ℕ := Nat.log 2 (nextPowerOfTwo tree.length)

def rootIndex (tree : MerkleTree) : ℕ :=
  let capacityDepth := Nat.log 2 tree.capacity
  if tree.depth = capacityDepth then 0 else 2 ^ (capacityDepth - tree.depth) - 1

/-- `MerkleTree::root`. -/
def root (tree : MerkleTree) : Option Node := tree.nodes[tree.rootIndex]?

def setNode (tree : MerkleTree) (index : ℕ) (node : Node) : Option MerkleTree :=
  if index < tree.nodes.length then some { tree with nodes := tree.nodes.set index node }
  else none

/-- `reallocate_to_double_capacity`. -/
def reallocateToDoubleCapacity (tree : MerkleTree) : Option MerkleTree := do
  let empty ← withCapacity (2 * tree.capacity)
  let copied ← tree.nodes.zipIdx.foldlM
    (fun this entry => this.setNode (entry.2 + prevPowerOfTwo (entry.2 + 1)) entry.1) empty
  pure { copied with length := tree.length }

/-- Recompute the ancestors of a node, `levels` of them. -/
def updateAncestors [Sha256] : ℕ → ℕ → MerkleTree → Option MerkleTree
  | 0, _, tree => some tree
  | levels + 1, nodeIndex, tree => do
    let parentIndex := (nodeIndex - 1) / 2
    let leftChild ← tree.nodes[2 * parentIndex + 1]?
    let rightChild ← tree.nodes[2 * parentIndex + 2]?
    let tree ← tree.setNode parentIndex (hashTwo leftChild rightChild)
    updateAncestors levels parentIndex tree

/-- `MerkleTree::insert`: the new tree and the index of the new leaf. -/
def insert [Sha256] (tree : MerkleTree) (value : Bytes 32) : Option (MerkleTree × ℕ) := do
  let tree ← if tree.length = tree.capacity then tree.reallocateToDoubleCapacity else some tree
  let newIndex := tree.length
  let nodeIndex := newIndex + tree.capacity - 1
  let tree ← tree.setNode nodeIndex (hashValue value)
  let tree := { tree with length := tree.length + 1 }
  let tree ← updateAncestors tree.depth nodeIndex tree
  pure (tree, newIndex)

/-- The loop of `get_authentication_path_for`: the siblings on the way up to the root.  Above
the first node of the array the source's subtraction overflows. -/
def pathFrom (tree : MerkleTree) (rootIndex nodeIndex : ℕ) : Option (List Node) :=
  if nodeIndex = rootIndex then some []
  else if nodeIndex = 0 then none
  else do
    let siblingIndex := if nodeIndex % 2 = 1 then nodeIndex + 1 else nodeIndex - 1
    let sibling ← tree.nodes[siblingIndex]?
    let path ← tree.pathFrom rootIndex ((nodeIndex - 1) / 2)
    some (sibling :: path)
termination_by nodeIndex
decreasing_by omega

/-- `MerkleTree::get_authentication_path_for`. -/
def getAuthenticationPathFor (tree : MerkleTree) (index : ℕ) : Option (List Node) :=
  if tree.length ≤ index then none else tree.pathFrom tree.rootIndex (tree.capacity + index - 1)

end MerkleTree

end Lssa
