/-
Which blocks of a peer are accepted (`lez/cross_zone/src/acceptance.rs`).

A peer can write anything on its own channel.  A block that is read off it is screened first:
the hash in its header has to be that of its contents, and its signature that of the pinned
key if there is one.  Then it is placed against the tip of the chain followed so far: it is
the next block, or one already seen, or not on the chain.  Only the next block is accepted,
and moves the tip; the reader reads on past any other.

* `linkToTip_eq_next`, `follow_eq_some` — which block is the next one;
* `replay_follow_iff` — a list of blocks is accepted whole iff it is a `PeerChain`;
* **`accepted_chain_unsteered`** — what is accepted is always one chain from the genesis block, and
  no block that does not continue the tip when it is read makes a difference to it.
-/
import Lssa.ChainState
import Lssa.Library.Reading

open Outcome TwoTier Reading

namespace Lssa

/-- The last block accepted onto the chain of a peer, with its recomputed hash. -/
structure PeerChainTip where
  blockId : U64
  blockHash : HashType
  deriving DecidableEq

/-- `saturating_add(1)` on a `u64`. -/
def saturatingSucc (a : U64) : U64 := ⟨min (a.val + 1) (2 ^ 64 - 1), by omega⟩

/-- Why a block is not on the chain that the tip pins. -/
inductive OffChain
  | doesNotLink (blockId tipId : U64) (linksTo expected : HashType)
  | notTheGenesis (blockId : U64)
  | skipsAhead (blockId next : U64)
  deriving DecidableEq

/-- Where a screened block sits relative to the chain that the tip pins. -/
inductive Link
  | next (recomputed : HashType)
  | alreadySeen (equivocates : Bool)
  | offChain (reason : OffChain)
  deriving DecidableEq

/-- Why a block was refused before it was placed. -/
inductive ScreenRefusal
  | hashMismatch (blockId : U64) (declared recomputed : HashType)
  | keyMismatch (blockId : U64)
  deriving DecidableEq

/-- `link_to_tip`. -/
def linkToTip (tip : Option PeerChainTip) (block : Block) (recomputed : HashType) : Link :=
  let blockId := block.header.blockId
  match tip with
  | none =>
    if blockId = genesisBlockId then .next recomputed else .offChain (.notTheGenesis blockId)
  | some tip =>
    if blockId ≤ tip.blockId then
      .alreadySeen (decide (blockId = tip.blockId ∧ recomputed ≠ tip.blockHash))
    else
      let next := saturatingSucc tip.blockId
      if next < blockId then .offChain (.skipsAhead blockId next)
      else if block.header.prevBlockHash ≠ tip.blockHash then
        .offChain (.doesNotLink blockId tip.blockId block.header.prevBlockHash tip.blockHash)
      else .next recomputed

section

variable [Sha256] [Schnorr]

/-- `Block::is_signed_by`. -/
def Block.isSignedBy (block : Block) (expectedPubkey : PublicKey) : Bool :=
  Schnorr.verifyPrehash expectedPubkey block.hashableData.computeHash block.header.signature

/-- `screen_peer_block`. -/
def screenPeerBlock (block : Block) (expectedPubkey : Option PublicKey) :
    Except ScreenRefusal HashType := do
  let recomputed := block.recomputeHash
  ensure (recomputed = block.header.hash)
    (.hashMismatch block.header.blockId block.header.hash recomputed)
  ensure (expectedPubkey.all block.isSignedBy) (.keyMismatch block.header.blockId)
  pure recomputed

/-- The tip once a block has been read, if the block is accepted. -/
def follow (expectedPubkey : Option PublicKey) (tip : Option PeerChainTip) (block : Block) :
    Option (Option PeerChainTip) :=
  match screenPeerBlock block expectedPubkey with
  | .error _ => none
  | .ok recomputed =>
    match linkToTip tip block recomputed with
    | .next blockHash => some (some ⟨block.header.blockId, blockHash⟩)
    | _ => none

/-- The blocks accepted out of all those read, in order. -/
def accepted (expectedPubkey : Option PublicKey) (blocks : List Block) : List Block :=
  taken (follow expectedPubkey) none blocks

/-! ### The next block -/

/-- The block passes the screen. -/
structure Screened (expectedPubkey : Option PublicKey) (block : Block) : Prop where
  hash : block.recomputeHash = block.header.hash
  signed : ∀ key ∈ expectedPubkey, block.isSignedBy key = true

variable {block : Block} {expectedPubkey : Option PublicKey} {chain : List Block}

theorem screenPeerBlock_eq_ok {recomputed : HashType} :
    screenPeerBlock block expectedPubkey = .ok recomputed ↔
      Screened expectedPubkey block ∧ recomputed = block.recomputeHash := by
  have hall : expectedPubkey.all block.isSignedBy = true ↔
      ∀ key ∈ expectedPubkey, block.isSignedBy key = true := by
    cases expectedPubkey <;> simp
  unfold screenPeerBlock
  rw [ensure_bind_eq_ok, ensure_bind_eq_ok, hall]
  constructor
  · rintro ⟨hhash, hsigned, h⟩
    exact ⟨⟨hhash, hsigned⟩, (ok.inj h).symm⟩
  · rintro ⟨⟨hhash, hsigned⟩, rfl⟩
    exact ⟨hhash, hsigned, rfl⟩

omit [Sha256] [Schnorr] in
/-- The next block off a tip: the genesis block if there is no tip, and else the one with the
next id that names the tip as its parent. -/
theorem linkToTip_eq_next {tip : Option PeerChainTip} {recomputed hash : HashType} :
    linkToTip tip block recomputed = .next hash ↔
      hash = recomputed ∧
        block.header.blockId.val = (tip.elim 0 fun tip => tip.blockId.val) + 1 ∧
        ∀ parent ∈ tip, block.header.prevBlockHash = parent.blockHash := by
  have hrange := block.header.blockId.isLt
  cases tip with
  | none =>
    have hgenesis : block.header.blockId = genesisBlockId ↔ block.header.blockId.val = 0 + 1 :=
      Fin.ext_iff
    unfold linkToTip
    dsimp only [Option.elim]
    rw [← hgenesis]
    split
    · rename_i hid
      simp [hid, eq_comm]
    · rename_i hid
      simp [hid]
  | some tip =>
    have htip := tip.blockId.isLt
    have hnext : (saturatingSucc tip.blockId).val = min (tip.blockId.val + 1) (2 ^ 64 - 1) := rfl
    unfold linkToTip
    dsimp only [Option.elim]
    split
    · rename_i hseen
      rw [Fin.le_def] at hseen
      refine iff_of_false (by simp) ?_
      rintro ⟨-, hid, -⟩
      omega
    · rename_i hseen
      rw [Fin.le_def] at hseen
      split
      · rename_i hskips
        rw [Fin.lt_def, hnext] at hskips
        refine iff_of_false (by simp) ?_
        rintro ⟨-, hid, -⟩
        omega
      · rename_i hskips
        rw [Fin.lt_def, hnext] at hskips
        have hid : block.header.blockId.val = tip.blockId.val + 1 := by omega
        split
        · rename_i hlink
          refine iff_of_false (by simp) ?_
          rintro ⟨-, -, hparent⟩
          exact hlink (hparent tip rfl)
        · rename_i hlink
          rw [not_not] at hlink
          simp [hid, hlink, eq_comm]

/-- The block continues the chain that the tip pins. -/
structure Follows (expectedPubkey : Option PublicKey) (tip : Option PeerChainTip) (block : Block) :
    Prop where
  screened : Screened expectedPubkey block
  blockId : block.header.blockId.val = (tip.elim 0 fun tip => tip.blockId.val) + 1
  parent : ∀ parent ∈ tip, block.header.prevBlockHash = parent.blockHash

/-- A block is accepted iff it continues the chain, and the tip is then the block. -/
theorem follow_eq_some {tip next : Option PeerChainTip} :
    follow expectedPubkey tip block = some next ↔
      Follows expectedPubkey tip block ∧
        next = some ⟨block.header.blockId, block.recomputeHash⟩ := by
  unfold follow
  constructor
  · intro h
    split at h
    · cases h
    · rename_i hscreen
      obtain ⟨hscreened, rfl⟩ := screenPeerBlock_eq_ok.mp hscreen
      split at h
      · rename_i hlink
        obtain ⟨rfl, hid, hparent⟩ := linkToTip_eq_next.mp hlink
        exact ⟨⟨hscreened, hid, hparent⟩, (some.inj h).symm⟩
      · cases h
  · rintro ⟨hfollows, rfl⟩
    rw [screenPeerBlock_eq_ok.mpr ⟨hfollows.screened, rfl⟩]
    dsimp only
    rw [linkToTip_eq_next.mpr ⟨rfl, hfollows.blockId, hfollows.parent⟩]

/-! ### The chain -/

/-- A chain of blocks of a peer: from the genesis block on, with consecutive ids, each linked to
the one before by the hash of its contents, and all of them screened. -/
structure PeerChain (expectedPubkey : Option PublicKey) (chain : List Block) : Prop where
  screened : ∀ block ∈ chain, Screened expectedPubkey block
  genesis : ∀ first ∈ chain.head?, first.header.blockId = genesisBlockId
  linked : chain.IsChain fun parent block =>
    block.header.blockId.val = parent.header.blockId.val + 1 ∧
      block.header.prevBlockHash = parent.recomputeHash

/-- The tip that a block leaves. -/
def Block.peerTip (block : Block) : PeerChainTip := ⟨block.header.blockId, block.recomputeHash⟩

/-- A list of blocks is accepted whole, from the tip of a block on, iff it is linked to it. -/
theorem replay_follow_block_iff {blocks : List Block} :
    (∃ tip, replay (follow expectedPubkey) (some block.peerTip) blocks = some tip) ↔
      (∀ next ∈ blocks, Screened expectedPubkey next) ∧
      (block :: blocks).IsChain fun parent block =>
        block.header.blockId.val = parent.header.blockId.val + 1 ∧
          block.header.prevBlockHash = parent.recomputeHash := by
  induction blocks generalizing block with
  | nil => exact iff_of_true ⟨_, rfl⟩ ⟨by simp, .singleton _⟩
  | cons next rest ih =>
    rw [List.isChain_cons_cons, forall_mem_cons]
    constructor
    · rintro ⟨tip, h⟩
      obtain ⟨mid, hnext, hrest⟩ := replay_cons_eq_some.mp h
      obtain ⟨hfollows, rfl⟩ := follow_eq_some.mp hnext
      obtain ⟨hscreened, hlinked⟩ := ih.mp ⟨tip, hrest⟩
      exact ⟨⟨hfollows.screened, hscreened⟩, ⟨hfollows.blockId, hfollows.parent _ rfl⟩, hlinked⟩
    · rintro ⟨⟨hscreened, hscreenedRest⟩, ⟨hid, hparent⟩, hlinked⟩
      obtain ⟨tip, hrest⟩ := ih.mpr ⟨hscreenedRest, hlinked⟩
      have hfollows : Follows expectedPubkey (some block.peerTip) next := by
        refine ⟨hscreened, hid, fun parent hmem => ?_⟩
        rw [← some.inj hmem]
        exact hparent
      exact ⟨tip, replay_cons_eq_some.mpr ⟨_, follow_eq_some.mpr ⟨hfollows, rfl⟩, hrest⟩⟩

/-- **What is accepted whole**: a list of blocks is iff it is a chain. -/
theorem replay_follow_iff :
    (∃ tip, replay (follow expectedPubkey) none chain = some tip) ↔
      PeerChain expectedPubkey chain := by
  cases chain with
  | nil => exact iff_of_true ⟨_, rfl⟩ ⟨by simp, by simp, .nil⟩
  | cons first rest =>
    constructor
    · rintro ⟨tip, h⟩
      obtain ⟨mid, hfirst, hrest⟩ := replay_cons_eq_some.mp h
      obtain ⟨hfollows, rfl⟩ := follow_eq_some.mp hfirst
      obtain ⟨hscreened, hlinked⟩ := replay_follow_block_iff.mp ⟨tip, hrest⟩
      refine ⟨forall_mem_cons.mpr ⟨hfollows.screened, hscreened⟩, fun block hblock => ?_, hlinked⟩
      obtain rfl : first = block := some.inj hblock
      exact Fin.ext hfollows.blockId
    · rintro ⟨hscreened, hgenesis, hlinked⟩
      obtain ⟨hfirst, hscreenedRest⟩ := forall_mem_cons.mp hscreened
      obtain ⟨tip, hrest⟩ := replay_follow_block_iff.mpr ⟨hscreenedRest, hlinked⟩
      have hfollows : Follows expectedPubkey none first := by
        refine ⟨hfirst, ?_, by simp⟩
        rw [hgenesis first rfl]
        rfl
      exact ⟨tip, replay_cons_eq_some.mpr ⟨_, follow_eq_some.mpr ⟨hfollows, rfl⟩, hrest⟩⟩

/-- The ids of a chain count up from the genesis block. -/
theorem PeerChain.blockId_getElem? (h : PeerChain expectedPubkey chain) {i : ℕ}
    (hi : chain[i]? = some block) :
    block.header.blockId.val = i + 1 := by
  induction i generalizing block with
  | zero =>
    rw [h.genesis block (List.head?_eq_getElem?.trans hi)]
    rfl
  | succ i ih =>
    obtain ⟨hlt, rfl⟩ := getElem?_eq_some_iff.mp hi
    have hlinked := List.isChain_iff_getElem.mp h.linked i hlt
    rw [hlinked.1, ih (getElem?_eq_getElem (by omega))]

/-- A chain has at most one block of an id. -/
theorem PeerChain.nodup (h : PeerChain expectedPubkey chain) :
    (chain.map fun block => block.header.blockId).Nodup := by
  rw [List.nodup_iff_getElem?_ne_getElem?]
  intro i j hij hj heq
  rw [length_map] at hj
  rw [getElem?_map, getElem?_map, getElem?_eq_getElem hj,
    getElem?_eq_getElem (hij.trans hj), map_some, map_some,
    some_inj, Fin.ext_iff, h.blockId_getElem? (getElem?_eq_getElem hj),
    h.blockId_getElem? (getElem?_eq_getElem (hij.trans hj))] at heq
  omega

/-- The tip after a chain. -/
def peerTipOf (chain : List Block) : Option PeerChainTip := chain.getLast?.map Block.peerTip

namespace PeerChain

variable {expectedPubkey : Option PublicKey} {chain : List Block} {block : Block}

theorem take (h : PeerChain expectedPubkey chain) (n : ℕ) :
    PeerChain expectedPubkey (chain.take n) := by
  obtain ⟨tip, hreplay⟩ := replay_follow_iff.mpr h
  obtain ⟨mid, htake, -⟩ := replay_take hreplay n
  exact replay_follow_iff.mp ⟨mid, htake⟩

theorem of_concat (h : PeerChain expectedPubkey (chain ++ [block])) :
    PeerChain expectedPubkey chain := by
  have htake := h.take chain.length
  rwa [List.take_left] at htake

/-- The id at the tip counts the blocks. -/
theorem elim_tip (h : PeerChain expectedPubkey chain) :
    ((peerTipOf chain).elim 0 fun tip => tip.blockId.val) = chain.length := by
  rcases List.eq_nil_or_concat chain with rfl | ⟨before, last, rfl⟩
  · rfl
  · rw [List.concat_eq_append] at h ⊢
    have hget : (before ++ [last])[before.length]? = some last := by simp
    simpa [peerTipOf, Block.peerTip] using h.blockId_getElem? hget

/-- A block follows the tip of a chain iff it makes a longer chain of it. -/
theorem concat_iff (h : PeerChain expectedPubkey chain) :
    PeerChain expectedPubkey (chain ++ [block]) ↔
      Follows expectedPubkey (peerTipOf chain) block := by
  have hid := h.elim_tip
  constructor
  · intro hlonger
    have hget : (chain ++ [block])[chain.length]? = some block := by simp
    refine ⟨hlonger.screened block (by simp), ?_, fun parent hparent => ?_⟩
    · rw [hid, hlonger.blockId_getElem? hget]
    · obtain ⟨last, hlast, rfl⟩ := map_eq_some_iff.mp hparent
      exact ((List.isChain_append.mp hlonger.linked).2.2 last hlast block rfl).2
  · intro hfollows
    refine ⟨forall_mem_append.mpr
      ⟨h.screened, forall_mem_singleton.mpr hfollows.screened⟩, fun first hfirst => ?_,
      List.isChain_append.mpr ⟨h.linked, .singleton _, fun last hlast next hnext => ?_⟩⟩
    · cases chain with
      | nil =>
        obtain rfl : block = first := some.inj hfirst
        exact Fin.ext hfollows.blockId
      | cons head rest => exact h.genesis first hfirst
    · obtain rfl : block = next := some.inj hnext
      have htip : peerTipOf chain = some last.peerTip :=
        map_eq_some_iff.mpr ⟨last, hlast, rfl⟩
      rw [htip] at hfollows
      exact ⟨hfollows.blockId, hfollows.parent _ rfl⟩

end PeerChain

/-- **A peer cannot steer which of its blocks are delivered from.**  Out of every sequence of
blocks, what is accepted is one chain from the genesis block on, with one block for each id.
Sequences that differ in blocks that do not continue the tip when they are read, inserted or
removed any number of times, have the same blocks accepted; so a chain with nothing but such
blocks around it is what is accepted. -/
theorem accepted_chain_unsteered (expectedPubkey : Option PublicKey) :
    (∀ blocks, PeerChain expectedPubkey (accepted expectedPubkey blocks) ∧
      (accepted expectedPubkey blocks).Sublist blocks ∧
      ((accepted expectedPubkey blocks).map fun block => block.header.blockId).Nodup) ∧
    (∀ blocks blocks', Relation.EqvGen (Noise (follow expectedPubkey) none) blocks blocks' →
      accepted expectedPubkey blocks = accepted expectedPubkey blocks') ∧
    ∀ chain blocks, PeerChain expectedPubkey chain →
      Relation.EqvGen (Noise (follow expectedPubkey) none) chain blocks →
        accepted expectedPubkey blocks = chain := by
  refine ⟨fun blocks => ?_, fun blocks blocks' => taken_eq_of_noise, ?_⟩
  · have hchain : PeerChain expectedPubkey (accepted expectedPubkey blocks) :=
      replay_follow_iff.mp ⟨_, replay_taken none blocks⟩
    exact ⟨hchain, taken_sublist none blocks, hchain.nodup⟩
  · intro chain blocks hchain hnoise
    obtain ⟨tip, hreplay⟩ := replay_follow_iff.mpr hchain
    rw [accepted, ← taken_eq_of_noise hnoise, taken_of_replay hreplay]

end

section

open Idle Fork

/-- The chain of the rival, read with the third block too early twice, the second block after
its rival, and the genesis block again. -/
theorem forked_peer_accepted :
    accepted none [third, genesis, third, rival, second, genesis,
      third] = [genesis, rival, third] := by
  refine (accepted_chain_unsteered none).2.2 _ _ ?_ ?_
  · exact replay_follow_iff.mp (isSome_iff_exists.mp (by decide +kernel))
  · refine .trans _ _ _ (.rel _ _ (.insert [] _ third (by decide +kernel))) ?_
    refine .trans _ _ _ (.rel _ _ (.insert [third, genesis] _ third (by decide +kernel))) ?_
    refine .trans _ _ _ (.rel _ _ (.insert [third, genesis, third, rival] _
      second (by decide +kernel))) ?_
    exact .rel _ _ (.insert [third, genesis, third, rival, second] _ genesis (by decide +kernel))

end

end Lssa
