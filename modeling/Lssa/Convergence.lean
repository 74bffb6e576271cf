/-
Heads follow the adopted stream.

Adopted blocks arrive one by one, and what an adoption does depends on the head it finds: the
block may be there already, extend the head, or replace whatever the head holds at its
height and above.  If the blocks are a chain over the final tip, then after all of them the
head starts with this chain; it goes on after it only if it did so before.  The hash of a
block does not cover its signature and status, so chains are compared by what it does cover
(`Block.sealed`).

* `Consistent.applyAdopted_next` — the three things the adoption of the next block can do;
* `heads_converge` — a stream of adopted blocks decides the head, and once it has been
  delivered, delivering it again changes nothing;
* `tip_fixes_chain` — nodes with the same head agree on the chain and on the state.
-/
import Lssa.Finality

open Outcome TwoTier Runs
open List (append_subset subset_cons_self)

namespace Lssa

open HeadEntry ChainState

/-- What the hash of a block covers, and the hash. -/
def Block.sealed (block : Block) : HashableBlockData × HashType :=
  (block.hashableData, block.header.hash)

section

variable [Sha256] [Schnorr] [Builtins] [Receipts] [ImageId] [ClockBuiltin] [Serde Timestamp]
  {exec : Executor} {origin : Position} {chain chain' : ChainState}

variable {position mid : Position}

/-- Blocks with the same contents and hash apply alike. -/
theorem advance_sealed {a b : Block} (h : a.sealed = b.sealed) :
    advance exec position a = advance exec position b :=
  advance_congr (congrArg Prod.fst h) (congrArg Prod.snd h)

/-- The adoptions of a stream of blocks, in order. -/
def ChainState.deliver (exec : Executor) (chain : ChainState) (stream : List HeadEntry) :
    Except Fatal ChainState :=
  stream.foldlM (fun chain entry => do
    let (_, chain) ← chain.applyAdopted exec entry.thisMsg entry.block
    pure chain) chain

/-- Nothing of the stream shares its message or its hash with another block of the head or
the stream. -/
structure Identified (head stream : List HeadEntry) : Prop where
  messages : ∀ a ∈ head ++ stream, ∀ b ∈ stream, a.thisMsg = b.thisMsg → a.block = b.block
  hashes : ∀ a ∈ head ++ stream, ∀ b ∈ stream,
    a.block.header.hash = b.block.header.hash → a.block.hashableData = b.block.hashableData

/-! ### One adoption -/

/-- The block after the first `i` is applied on top of them. -/
theorem Consistent.reorgAt (h : Consistent exec origin chain) {i : ℕ} {block : Block}
    (hi : i ≤ chain.headBlocks.length)
    (hid : block.header.blockId.val = height chain.finalTip + i + 1) :
    (chain.headBlocks.findIdx? fun entry =>
      block.header.blockId ≤ entry.block.header.blockId).getD chain.headBlocks.length = i := by
  have hentry : ∀ j (hj : j < chain.headBlocks.length),
      (block.header.blockId ≤ chain.headBlocks[j].block.header.blockId ↔ i ≤ j) := by
    intro j hj
    have hidj := h.blockId_getElem? (getElem?_eq_getElem hj)
    rw [Fin.le_def]
    omega
  cases hfound : chain.headBlocks.findIdx? fun entry =>
    block.header.blockId ≤ entry.block.header.blockId with
  | none =>
    by_contra hne
    have hlt : i < chain.headBlocks.length := lt_of_le_of_ne hi fun heq => hne heq.symm
    have hnot := List.findIdx?_eq_none_iff.mp hfound _ (List.getElem_mem hlt)
    exact of_decide_eq_false hnot ((hentry i hlt).mpr le_rfl)
  | some j =>
    obtain ⟨hj, hp, hfirst⟩ := List.findIdx?_eq_some_iff_getElem.mp hfound
    refine le_antisymm (le_of_not_gt fun hlt => ?_) ((hentry j hj).mp (of_decide_eq_true hp))
    exact hfirst i hlt (decide_eq_true ((hentry i (hlt.trans hj)).mpr le_rfl))

/-- **The adoption of the next block.**  Let the block apply after the first `i` blocks of
the head.  Either the head goes on with this block and nothing happens, or the block takes
the place of all that the head holds after them. -/
theorem Consistent.applyAdopted_next (h : Consistent exec origin chain) {next : HeadEntry} {i : ℕ}
    (hi : i ≤ chain.headBlocks.length)
    (hmid : replay (advance exec) chain.finalPosition (chain.blocks.take i) = some mid)
    (hadvance : advance exec mid next.block = some position) {head stream : List HeadEntry}
    (hid : Identified head stream) (hhead : chain.headBlocks ⊆ head ++ stream)
    (hnext : next ∈ stream) :
    ((∃ entry, chain.headBlocks[i]? = some entry ∧ entry.block.sealed = next.block.sealed) ∧
        chain.applyAdopted exec next.thisMsg next.block = .ok (.alreadyApplied, chain)) ∨
      ((∀ entry, chain.headBlocks[i]? = some entry → entry.block.sealed ≠ next.block.sealed) ∧
        chain.applyAdopted exec next.thisMsg next.block = .ok (.applied,
          { chain with
            headState := position.2
            headBlocks := chain.headBlocks.take i ++ [next] })) := by
  have hblockId : next.block.header.blockId.val = height chain.finalTip + i + 1 := by
    rw [(advance_continues hadvance).blockId, height_of_take hi hmid]
  by_cases hthere : ∃ entry, chain.headBlocks[i]? = some entry ∧
      entry.block.sealed = next.block.sealed
  · -- found by its hash
    obtain ⟨entry, hentry, hsealed⟩ := hthere
    refine .inl ⟨⟨entry, hentry, hsealed⟩, ?_⟩
    have hfound : (chain.headPositionOf next.thisMsg next.block).isSome = true := by
      rw [headPositionOf, List.findIdx?_isSome, List.any_eq_true]
      refine ⟨entry, mem_of_getElem? hentry, decide_eq_true ⟨?_, .inr ?_⟩⟩
      · exact congrArg (HashableBlockData.blockId ∘ Prod.fst) hsealed
      · exact congrArg Prod.snd hsealed
    rw [applyAdopted, if_pos hfound]
  · refine .inr ⟨fun entry hentry hsealed => hthere ⟨entry, hentry, hsealed⟩, ?_⟩
    have hmissing : ¬(chain.headPositionOf next.thisMsg next.block).isSome = true := by
      intro hsome
      obtain ⟨idx, hidx⟩ := isSome_iff_exists.mp hsome
      obtain ⟨entry, hentry, hp⟩ := exists_of_findIdx? hidx
      obtain ⟨hsameId, hsame⟩ := of_decide_eq_true hp
      -- at the height of the block there is only the entry at `i`
      have hentryId := h.blockId_getElem? hentry
      rw [hsameId, hblockId] at hentryId
      obtain rfl : i = idx := by omega
      have hmem := hhead (mem_of_getElem? hentry)
      refine hthere ⟨entry, hentry, ?_⟩
      rcases hsame with hmsg | hhash
      · rw [hid.messages entry hmem next hnext hmsg]
      · exact Prod.ext (hid.hashes entry hmem next hnext hhash) hhash
    have habove : ¬∃ finalTip ∈ chain.finalTip, next.block.header.blockId ≤ finalTip.blockId := by
      rintro ⟨tip, htip, hle⟩
      rw [show chain.finalTip = some tip from htip] at hblockId
      have hle : next.block.header.blockId.val ≤ tip.blockId.val := hle
      have hheight : height (some tip) = tip.blockId.val := rfl
      omega
    obtain ⟨headState, happly, rfl⟩ := advance_eq_some.mp hadvance
    obtain ⟨mid', hmid', hscratch, hkept⟩ := h.parent_eq (chain.headBlocks.findIdx? fun entry =>
      next.block.header.blockId ≤ entry.block.header.blockId)
    rw [h.reorgAt hi hblockId] at hmid' hkept
    obtain rfl : mid' = mid := some.inj (hmid'.symm.trans hmid)
    rw [applyAdopted, if_neg hmissing, if_neg habove]
    dsimp only
    rw [hscratch, hkept]
    refine Outcome.bind_eq_ok.mpr ⟨mid', rfl, ?_⟩
    rw [happly]
    rfl

/-! ### A stream of adoptions -/

section

omit [Sha256] [Schnorr] [Builtins] [Receipts] [ImageId] [ClockBuiltin] [Serde Timestamp]

theorem ChainState.blocks_getElem? {i : ℕ} {entry : HeadEntry}
    (h : chain.headBlocks[i]? = some entry) : chain.blocks[i]? = some entry.block := by
  rw [blocks, getElem?_map, h]
  rfl

/-- The head goes on with the entry at `i`. -/
theorem ChainState.blocks_drop {i : ℕ} {entry : HeadEntry}
    (h : chain.headBlocks[i]? = some entry) :
    chain.blocks.drop i = entry.block :: chain.blocks.drop (i + 1) := by
  obtain ⟨hlt, hget⟩ := getElem?_eq_some_iff.mp (blocks_getElem? h)
  rw [List.drop_eq_getElem_cons hlt, hget]

end

/-- The contents and hashes of a chain of blocks. -/
abbrev sealedChain (blocks : List Block) : List (HashableBlockData × HashType) :=
  blocks.map Block.sealed

/-- **What a stream of adoptions does.**  Let the blocks apply one after the other after the
first `i` blocks of the head.  If the head goes on with them, nothing happens; otherwise they
take the place of all that the head holds after the first `i`. -/
theorem Consistent.deliver_next (h : Consistent exec origin chain) {stream : List HeadEntry} {i : ℕ}
    (hi : i ≤ chain.headBlocks.length)
    (hmid : replay (advance exec) chain.finalPosition (chain.blocks.take i) = some mid)
    (hstream : replay (advance exec) mid (stream.map block) = some position)
    {head all : List HeadEntry} (hid : Identified head all) (hhead : chain.headBlocks ⊆ head ++ all)
    (hall : stream ⊆ all) :
    ∃ chain', chain.deliver exec stream = .ok chain' ∧ Consistent exec origin chain' ∧
      chain'.finalPosition = chain.finalPosition ∧
      chain'.headBlocks ⊆ head ++ all ∧
      ((sealedChain (stream.map block) <+: sealedChain (chain.blocks.drop i) ∧
          chain' = chain) ∨
        (¬sealedChain (stream.map block) <+: sealedChain (chain.blocks.drop i) ∧
          sealedChain chain'.blocks = sealedChain (chain.blocks.take i) ++
            sealedChain (stream.map block))) := by
  induction stream generalizing chain i mid with
  | nil =>
    exact ⟨chain, rfl, h, rfl, hhead, .inl ⟨List.nil_prefix, rfl⟩⟩
  | cons next rest ih =>
    obtain ⟨after, hadvance, hrest⟩ := replay_cons_eq_some.mp hstream
    obtain ⟨hnext, hall⟩ := List.cons_subset.mp hall
    rcases h.applyAdopted_next hi hmid hadvance hid hhead hnext with
      ⟨⟨entry, hentry, hsealed⟩, happly⟩ | ⟨hother, happly⟩
    · -- the head goes on with the block
      have hlt : i < chain.headBlocks.length := (getElem?_eq_some_iff.mp hentry).1
      have htake : chain.blocks.take (i + 1) = chain.blocks.take i ++ [entry.block] := by
        rw [List.take_add_one, blocks_getElem? hentry]
        rfl
      have hmid' : replay (advance exec) chain.finalPosition (chain.blocks.take (i + 1))
          = some after := by
        rw [htake]
        refine replay_append_eq_some.mpr ⟨mid, hmid, ?_⟩
        rw [replay_singleton, advance_sealed hsealed, hadvance]
      obtain ⟨chain', hdeliver, hchain', hfinal, hsub, hcases⟩ := ih h hlt hmid' hrest hhead hall
      refine ⟨chain', ?_, hchain', hfinal, hsub, ?_⟩
      · refine foldlM_cons_eq_ok.mpr ⟨chain, ?_, hdeliver⟩
        rw [happly]
        rfl
      · have hbegins : sealedChain ((next :: rest).map block)
              <+: sealedChain (chain.blocks.drop i) ↔
            sealedChain (rest.map block) <+: sealedChain (chain.blocks.drop (i + 1)) := by
          rw [blocks_drop hentry, sealedChain, sealedChain, map_cons,
            map_cons, map_cons, hsealed, List.cons_prefix_cons]
          exact and_iff_right rfl
        rw [hbegins]
        refine hcases.imp_right fun ⟨hnot, hblocks⟩ => ⟨hnot, ?_⟩
        rw [hblocks, htake, sealedChain, map_append, append_assoc]
        simp [hsealed]
    · -- the block replaces the rest of the head
      set reached : ChainState :=
        { chain with
          headState := after.2
          headBlocks := chain.headBlocks.take i ++ [next] } with hreached
      have hmove : HeadMove exec [next] chain reached := by
        obtain ⟨headState, hblock, rfl⟩ := advance_eq_some.mp hadvance
        exact .grow hmid hblock mem_cons_self
      have hblocks : reached.blocks = chain.blocks.take i ++ [next.block] := by
        rw [blocks, hreached, map_append, map_take]
        rfl
      have hlength : reached.headBlocks.length = i + 1 := by
        rw [hreached, length_append, length_take, length_singleton]
        omega
      have hwhole : reached.blocks.length = i + 1 := by
        rw [blocks, length_map, hlength]
      have hmid' : replay (advance exec) reached.finalPosition (reached.blocks.take (i + 1))
          = some after := by
        rw [take_of_length_le hwhole.le, hblocks]
        exact replay_append_eq_some.mpr ⟨mid, hmid, replay_singleton.trans hadvance⟩
      have hhead' : reached.headBlocks ⊆ head ++ all :=
        append_subset.mpr ⟨List.Subset.trans (List.take_subset _ _) hhead,
          List.cons_subset.mpr ⟨mem_append_right _ hnext, nil_subset _⟩⟩
      obtain ⟨chain', hdeliver, hchain', hfinal, hsub, hcases⟩ :=
        ih (h.headMove hmove) hlength.ge hmid' hrest hhead' hall
      refine ⟨chain', ?_, hchain', hfinal, hsub, .inr ⟨?_, ?_⟩⟩
      · refine foldlM_cons_eq_ok.mpr ⟨reached, ?_, hdeliver⟩
        rw [happly]
        rfl
      · -- the old head does not go on with the block
        intro hbegins
        cases hget : chain.headBlocks[i]? with
        | none =>
          have hge : chain.blocks.length ≤ i := by
            rw [blocks, length_map]
            exact List.getElem?_eq_none_iff.mp hget
          rw [List.drop_eq_nil_of_le hge] at hbegins
          exact absurd hbegins (by simp)
        | some entry =>
          rw [blocks_drop hget, sealedChain, sealedChain, map_cons,
            map_cons, map_cons, List.cons_prefix_cons] at hbegins
          exact hother entry hget hbegins.1.symm
      · have hdrop : reached.blocks.drop (i + 1) = [] := List.drop_eq_nil_of_le hwhole.le
        rw [hdrop, take_of_length_le hwhole.le, hblocks] at hcases
        rcases hcases with ⟨hbegins, rfl⟩ | ⟨-, hend⟩
        · obtain rfl : rest = [] := by simpa using hbegins
          rw [hblocks, sealedChain, map_append]
          rfl
        · rw [hend, sealedChain, map_append, append_assoc]
          rfl

omit [Sha256] [Schnorr] [Builtins] [Receipts] [ImageId] [ClockBuiltin] [Serde Timestamp] in
/-- A chain that agrees with the beginning of another in contents and hashes is the beginning
of the other, if these tell its blocks apart. -/
theorem prefix_of_sealed {as bs : List Block}
    (hsame : ∀ a ∈ as, ∀ b ∈ bs, a.sealed = b.sealed → a = b)
    (h : sealedChain as <+: sealedChain bs) : as <+: bs := by
  induction as generalizing bs with
  | nil => exact List.nil_prefix
  | cons a as ih =>
    cases bs with
    | nil => exact absurd h (by simp)
    | cons b bs =>
      obtain ⟨hhead, htail⟩ := List.cons_prefix_cons.mp h
      obtain rfl := hsame a mem_cons_self b mem_cons_self hhead
      refine List.cons_prefix_cons.mpr ⟨rfl, ih (fun a ha b hb => ?_) htail⟩
      exact hsame a (mem_cons_of_mem _ ha) b (mem_cons_of_mem _ hb)

/-- **Heads converge on the adopted stream.**  Let a valid chain of blocks over the final tip
be adopted in order, under message ids that belong to one block each.  Then, whatever the
head was, it starts with this chain: it is unchanged if it did so before, and is the chain
itself otherwise.  Its state is the replay of the head, the final tier is where it was, and
to adopt the chain once more changes nothing.  Blocks are the same here if their contents
and hashes are; if that makes them equal, the chain is literally a beginning of the head. -/
theorem heads_converge {start : ChainState} {state : V03State} {tip : Option Tip}
    (hstart : start = .new state ∨ start = .fromFinal state tip)
    {history : List (ChainEvent × List AcceptOutcome)}
    (hrun : Run (Handles exec) start history chain) {stream : List HeadEntry} {position : Position}
    (hvalid : replay (advance exec) (chain.finalTip, chain.finalState)
      (stream.map block) = some position)
    (hmessages : ∀ a ∈ chain.headBlocks ++ stream, ∀ b ∈ stream,
      a.thisMsg = b.thisMsg → a.block = b.block)
    (hhashes : ∀ a ∈ chain.headBlocks ++ stream, ∀ b ∈ stream,
      a.block.recomputeHash = b.block.recomputeHash → a.block.hashableData = b.block.hashableData) :
    ∃ chain', chain.deliver exec stream = .ok chain' ∧
      sealedChain (stream.map block) <+: sealedChain chain'.blocks ∧
      (sealedChain (stream.map block) <+: sealedChain chain.blocks → chain' = chain) ∧
      (¬sealedChain (stream.map block) <+: sealedChain chain.blocks →
        sealedChain chain'.blocks = sealedChain (stream.map block)) ∧
      replay (advance exec) (chain'.finalTip, chain'.finalState) chain'.blocks
        = some (chain'.headTip, chain'.headState) ∧
      (chain'.finalTip, chain'.finalState) = (chain.finalTip, chain.finalState) ∧
      chain'.deliver exec stream = .ok chain' ∧
      ((∀ a ∈ stream, ∀ b ∈ chain.headBlocks ++ stream,
          a.block.sealed = b.block.sealed → a.block = b.block) →
        stream.map block <+: chain'.blocks ∧
        (¬stream.map block <+: chain.blocks → chain'.blocks = stream.map block)) := by
  obtain ⟨origin, hchain⟩ := Consistent.of_start hstart hrun
  -- all blocks have been checked, so their hashes are those of their contents
  have hhash : ∀ a ∈ chain.headBlocks ++ stream, a.block.recomputeHash = a.block.header.hash := by
    exact forall_mem_append.mpr ⟨fun a ha => hchain.linked.hash_of_mem (mem_map_of_mem ha),
      fun a ha => (linked_of_replay hvalid).hash_of_mem (mem_map_of_mem ha)⟩
  have hid : Identified chain.headBlocks stream := by
    refine ⟨hmessages, fun a ha b hb hsame => hhashes a ha b hb ?_⟩
    rw [hhash a ha, hhash b (mem_append_right _ hb), hsame]
  obtain ⟨chain', hdeliver, hchain', hfinal, hsub, hcases⟩ :=
    hchain.deliver_next (i := 0) (Nat.zero_le _) rfl hvalid hid (List.subset_append_left _ _)
      (List.Subset.refl _)
  rw [List.drop_zero, List.take_zero] at hcases
  have hbegins : sealedChain (stream.map block) <+: sealedChain chain'.blocks := by
    rcases hcases with ⟨hold, rfl⟩ | ⟨-, hnew⟩
    · exact hold
    · rw [hnew]
      exact List.prefix_rfl
  have hreplaced : ¬sealedChain (stream.map block) <+: sealedChain chain.blocks →
      sealedChain chain'.blocks = sealedChain (stream.map block) :=
    fun hnot => (hcases.resolve_left fun hkept => hnot hkept.1).2
  -- the second delivery finds all of the stream in the head
  have hagain : chain'.deliver exec stream = .ok chain' := by
    have hvalid' : replay (advance exec) chain'.finalPosition (stream.map block)
        = some position := by
      rw [hfinal]
      exact hvalid
    obtain ⟨chain'', hdeliver', -, -, -, hcases'⟩ :=
      hchain'.deliver_next (i := 0) (Nat.zero_le _) rfl hvalid' hid hsub (List.Subset.refl _)
    rcases hcases' with ⟨-, rfl⟩ | ⟨hnot, -⟩
    · exact hdeliver'
    · exact absurd hbegins hnot
  refine ⟨chain', hdeliver, hbegins, fun hold => ?_, hreplaced, hchain'.head_replay, hfinal,
    hagain, fun hsame => ?_⟩
  · rcases hcases with ⟨-, hkept⟩ | ⟨hnot, -⟩
    · exact hkept
    · exact absurd hold hnot
  · have hblocks : ∀ a ∈ stream.map block, ∀ b ∈ chain'.blocks,
        a.sealed = b.sealed → a = b := by
      intro a ha b hb
      obtain ⟨entry, hentry, rfl⟩ := mem_map.mp ha
      obtain ⟨entry', hentry', rfl⟩ := mem_map.mp hb
      exact hsame entry hentry entry' (hsub hentry')
    have hliteral := prefix_of_sealed hblocks hbegins
    refine ⟨hliteral, fun hnot => ?_⟩
    have hnotSealed : ¬sealedChain (stream.map block) <+: sealedChain chain.blocks := by
      intro hold
      rcases hcases with ⟨-, rfl⟩ | ⟨hno, -⟩
      · exact hnot hliteral
      · exact hno hold
    refine (hliteral.eq_of_length ?_).symm
    have hlength := congrArg List.length (hreplaced hnotSealed)
    rw [sealedChain, sealedChain, length_map, length_map] at hlength
    exact hlength.symm

/-! ### What a tip stands for -/

variable {low high : Position} {as bs : List Block}

/-- A tip fixes the chain below it.  The induction is on the last block: the tip has its hash, so
its contents are fixed, and with them the tip before it. -/
theorem sealedChain_eq_of_tip (has : replay (advance exec) origin as = some low)
    (hbs : replay (advance exec) origin bs = some high)
    (hhash : ∀ a ∈ as, ∀ b ∈ bs, a.header.hash = b.header.hash → a.hashableData = b.hashableData)
    (htip : low.1 = high.1) : sealedChain as = sealedChain bs := by
  have hlength : as.length = bs.length := by
    have hlow := height_of_replay has
    have hhigh := height_of_replay hbs
    rw [htip] at hlow
    omega
  induction as using reverseRecOn generalizing bs low high with
  | nil => rw [List.length_eq_zero_iff.mp hlength.symm]
  | append_singleton as a ih =>
    obtain rfl | ⟨bs, b, rfl⟩ := List.eq_nil_or_concat' bs
    · simp at hlength
    rw [length_append, length_append, length_singleton, length_singleton] at hlength
    obtain ⟨m, hm, ha⟩ := replay_append_eq_some.mp has
    obtain ⟨n, hn, hb⟩ := replay_append_eq_some.mp hbs
    rw [replay_singleton] at ha hb
    have hacont := advance_continues ha
    have hbcont := advance_continues hb
    obtain ⟨_, -, rfl⟩ := advance_eq_some.mp ha
    obtain ⟨_, -, rfl⟩ := advance_eq_some.mp hb
    have hsame : a.header.hash = b.header.hash := congrArg Tip.hash (some.inj htip)
    have hdata := hhash a (by simp) b (by simp) hsame
    have hbefore : m.1 = n.1 := by
      have hmtip := tip_of_replay hm
      have hntip := tip_of_replay hn
      obtain rfl | ⟨as, x, rfl⟩ := List.eq_nil_or_concat' as
      · obtain rfl : bs = [] := List.length_eq_zero_iff.mp (by simpa using hlength.symm)
        exact hmtip.trans hntip.symm
      obtain rfl | ⟨bs, y, rfl⟩ := List.eq_nil_or_concat' bs
      · simp at hlength
      rw [List.getLast?_concat] at hmtip hntip
      obtain ⟨hid, hprev, -⟩ := HashableBlockData.mk.inj hdata
      have hid := congrArg Fin.val hid
      rw [hacont.blockId, hbcont.blockId, hmtip, hntip] at hid
      rw [hacont.parent _ hmtip, hbcont.parent _ hntip] at hprev
      rw [hmtip, hntip]
      exact congrArg some (congrArg₂ Tip.mk (Fin.ext (Nat.succ.inj hid)) hprev)
    rw [sealedChain, sealedChain, map_append, map_append, map_singleton, map_singleton,
      Block.sealed, Block.sealed, hdata, hsame]
    exact congrArg (· ++ _) (ih hm hn (fun a ha b hb => hhash a (mem_append_left _ ha) b
      (mem_append_left _ hb)) hbefore (by omega))

/-- Chains that replay from one position over the same contents end alike. -/
theorem replay_sealed {position : Position} {as bs : List Block}
    (h : sealedChain as = sealedChain bs) :
    replay (advance exec) position as = replay (advance exec) position bs := by
  induction as generalizing bs position with
  | nil =>
    obtain rfl : bs = [] := by simpa using h.symm
    rfl
  | cons a as ih =>
    cases bs with
    | nil => cases h
    | cons b bs =>
      obtain ⟨hhead, htail⟩ := cons.inj h
      rw [replay, replay, foldlM_cons, foldlM_cons, advance_sealed hhead]
      exact congrArg _ (funext fun next => ih htail)

/-- **Nodes with the same head have the same chain and the same state**, whatever came to each of
them in whatever order, and however much of the chain is final for it, unless the hashes of two of
their blocks collide. -/
theorem tip_fixes_chain {state : V03State} {tip : Option Tip}
    {history history' : List (ChainEvent × List AcceptOutcome)}
    (h : Run (Handles exec) (.fromFinal state tip) history chain)
    (h' : Run (Handles exec) (.fromFinal state tip) history' chain')
    (hhash : ∀ a ∈ chain.finalBlocks ++ chain.blocks, ∀ b ∈ chain'.finalBlocks ++ chain'.blocks,
      a.header.hash = b.header.hash → a.hashableData = b.hashableData)
    (htip : chain.headTip = chain'.headTip) :
    sealedChain (chain.finalBlocks ++ chain.blocks) =
        sealedChain (chain'.finalBlocks ++ chain'.blocks) ∧
      chain.headState = chain'.headState := by
  have hchain := (Consistent.fromFinal state tip).run h
  have hchain' := (Consistent.fromFinal state tip).run h'
  have hreplay := replay_append_eq_some.mpr ⟨_, hchain.final_replay, hchain.head_replay⟩
  have hreplay' := replay_append_eq_some.mpr ⟨_, hchain'.final_replay, hchain'.head_replay⟩
  have hsealed := sealedChain_eq_of_tip hreplay hreplay' hhash htip
  rw [replay_sealed hsealed, hreplay'] at hreplay
  exact ⟨hsealed, congrArg Prod.snd (some.inj hreplay).symm⟩

end

namespace Fork

/-- The second block is adopted after the genesis block. -/
def seconded : List (ChainEvent × List AcceptOutcome) :=
  [(.adopted (msg 1) genesis, [.applied]), (.adopted (msg 2) second, [.applied])]

/-- The other branch, from the genesis block on. -/
def branch : List HeadEntry := [⟨msg 1, genesis⟩, ⟨msg 3, rival⟩, ⟨msg 4, third⟩]

end Fork

section

open Idle Fork

/-- The adoption of the other branch takes the second block out of the head. -/
theorem fork_converges :
    ∃ chain chain', Run (Handles exec) (.new state) seconded chain ∧
      chain.blocks = [genesis, second] ∧
      chain.deliver exec branch = .ok chain' ∧
      chain'.blocks = [genesis, rival, third] ∧
      chain'.deliver exec branch = .ok chain' := by
  obtain ⟨chain, hrun, hhead, hreplays⟩ := Run.exists_of_foldlM
    (fun _ _ _ => handles_of_follow) (by decide +kernel :
      ∃ chain, seconded.foldlM (ChainState.follow exec) (.new state) = some chain ∧
        chain.headBlocks = [⟨msg 1, genesis⟩, ⟨msg 2, second⟩] ∧
        (replay (advance exec) (chain.finalTip, chain.finalState) (branch.map block)).isSome = true)
  obtain ⟨position, hposition⟩ := isSome_iff_exists.mp hreplays
  have hblocks : chain.blocks = [genesis, second] := by
    rw [blocks, hhead]
    rfl
  obtain ⟨chain', hdeliver, -, -, -, -, -, hagain, hliteral⟩ :=
    heads_converge (.inl rfl : _ ∨ _ = fromFinal state none) hrun hposition
      (by rw [hhead]; decide +kernel) (by rw [hhead]; decide +kernel)
  obtain ⟨-, hexact⟩ := hliteral (by rw [hhead]; decide +kernel)
  refine ⟨chain, chain', hrun, hblocks, hdeliver, hexact ?_, hagain⟩
  rw [hblocks]
  decide +kernel

/-- The genesis block is final for one of the nodes only. -/
theorem seconded_as_settled :
    ∃ chain chain', Run (Handles exec) (.new state) seconded chain ∧
      Run (Handles exec) (.new state) settled chain' ∧ chain.finalTip ≠ chain'.finalTip ∧
      chain.headState = chain'.headState := by
  obtain ⟨chain, hrun, hfinal, hblocks, htip⟩ := Run.exists_of_foldlM
    (fun _ _ _ => handles_of_follow) (by decide +kernel :
      ∃ chain, seconded.foldlM (ChainState.follow exec) (.new state) = some chain ∧
        chain.finalTip = none ∧ chain.finalBlocks ++ chain.blocks = [genesis, second] ∧
        chain.headTip = some (.ofBlock second))
  obtain ⟨chain', hrun', hfinal', hblocks', htip'⟩ := Run.exists_of_foldlM
    (fun _ _ _ => handles_of_follow) (by decide +kernel :
      ∃ chain, settled.foldlM (ChainState.follow exec) (.new state) = some chain ∧
        chain.finalTip = some (.ofBlock genesis) ∧
        chain.finalBlocks ++ chain.blocks = [genesis, second] ∧
        chain.headTip = some (.ofBlock second))
  refine ⟨chain, chain', hrun, hrun', by rw [hfinal, hfinal']; simp,
    (tip_fixes_chain hrun hrun' ?_ (htip.trans htip'.symm)).2⟩
  rw [hblocks, hblocks']
  decide +kernel

end

end Lssa
