/-
Restarting a sequencer.

A sequencer may stop at any point between two events.  Then all that is left is its store,
and the chain is rebuilt from it.  The events of a sequencer keep the store a mirror of the
chain as long as the deltas of the channel are orderly (`FollowUpdate.Orderly`); a delta that
is not can leave a store that rebuilds another chain, or none.

* `Consistent.adoptAll` — what the adoptions of a delta leave in the head;
* `FinalizedLoop.run` — what its finalized blocks leave in the final tier;
* `crash_restart_equivalence` — at every point of an orderly history the chain is restored as
  it was.
-/
import Lssa.Sequencer.Mirror

open Outcome TwoTier Runs

namespace Lssa

open MirroredChain ChainState

/-- The adopted blocks that were applied. -/
def appliedBlocks (adopted : List (MsgId × Block)) (outcomes : List AcceptOutcome) : List Block :=
  ((adopted.zip outcomes).filter fun entry => entry.2 = .applied).map fun entry => entry.1.2

section

variable {exec : Executor} {initialState : V03State} {known : HashableBlockData → Prop}
  {origin : Position} {chain chain' : ChainState}

variable {adopted : List (MsgId × Block)} {outcomes : List AcceptOutcome} {block : Block}
  {outcome : AcceptOutcome} {adoptions : List (Block × Bool)} {configured : List PublicTransaction}
  {store : ChainCells} {step : Option SequencerEvent} {core core' : MirroredChain}

theorem appliedBlocks_append (hlength : outcomes.length = adopted.length) (entry : MsgId × Block)
    (outcome : AcceptOutcome) :
    appliedBlocks (adopted ++ [entry]) (outcomes ++ [outcome])
      = appliedBlocks adopted outcomes ++ if outcome = .applied then [entry.2] else [] := by
  rw [appliedBlocks, List.zip_append hlength.symm, filter_append, map_append]
  by_cases houtcome : outcome = .applied
  · simp [appliedBlocks, houtcome]
  · simp [appliedBlocks, houtcome]

theorem ChainState.headTip_append (entries : List HeadEntry) (entry : HeadEntry)
    (headState : V03State) :
    { chain with headState, headBlocks := entries ++ [entry] }.headTip
      = some (Tip.ofBlock entry.block) := by
  rw [headTip, List.getLast?_append]
  rfl

theorem ChainState.headTip_ne_none :
    chain.headTip ≠ none ↔ chain.headBlocks ≠ [] ∨ chain.finalTip ≠ none := by
  rw [headTip, Ne, Option.or_eq_none_iff, Option.map_eq_none_iff,
    List.getLast?_eq_none_iff, not_and_or]

variable [Sha256]

/-- Blocks that the hash tells apart, none of which has the last id. -/
structure Distinguished (known : HashableBlockData → Prop) : Prop where
  injective : ∀ a b, known a → known b → a.computeHash = b.computeHash → a = b
  range : ∀ data, known data → data.blockId.val + 1 < 2 ^ 64

/-- The tip of a chain of known blocks is in range. -/
theorem Distinguished.headTip_range (h : Distinguished known)
    (hblocks : ∀ block ∈ chain.blocks, known block.hashableData)
    (hfinal : height chain.finalTip + 1 < 2 ^ 64) {tip : BlockMeta}
    (htip : chain.headTip = some tip) : tip.blockId.val + 1 < 2 ^ 64 := by
  rcases Option.or_eq_some_iff.mp htip with hlast | ⟨-, hfinalTip⟩
  · obtain ⟨entry, hentry, rfl⟩ := map_eq_some_iff.mp hlast
    exact h.range _ (hblocks entry.block (mem_map_of_mem (List.mem_of_getLast? hentry)))
  · rw [hfinalTip] at hfinal
    exact hfinal

/-- Likewise for the tip of the final tier. -/
theorem Distinguished.finalTip_range (h : Distinguished known) {start : Option Tip}
    (hstart : height start + 1 < 2 ^ 64)
    (htip : chain.finalTip = start ∨
      ∃ block, known block.hashableData ∧ chain.finalTip = some (Tip.ofBlock block)) :
    height chain.finalTip + 1 < 2 ^ 64 := by
  rcases htip with hsame | ⟨block, hknown, hnew⟩
  · rw [hsame]
    exact hstart
  · rw [hnew]
    exact h.range _ hknown

variable [Schnorr] [Builtins] [Receipts] [ImageId] [ClockBuiltin] [Serde Timestamp]

/-! ### The adoptions of a delta -/

/-- Blocks were applied to the head, the last over the earlier. -/
structure Adopts (exec : Executor) (origin : Position) (applied : List Block)
    (chain chain' : ChainState) : Prop where
  consistent : Consistent exec origin chain'
  final : chain'.finalPosition = chain.finalPosition
  blocks : ∀ block ∈ chain'.blocks, lastAt applied block.header.blockId = some block ∨
    lastAt applied block.header.blockId = none ∧ block ∈ chain.blocks
  tip : chain.headTip ≠ none → chain'.headTip ≠ none

/-- One more adoption. -/
theorem Adopts.applyAdopted {applied : List Block} {reached : ChainState}
    (h : Adopts exec origin applied chain reached) {thisMsg : MsgId}
    (heq : reached.applyAdopted exec thisMsg block = .ok (outcome, chain')) :
    Adopts exec origin (applied ++ if outcome = .applied then [block] else []) chain chain' := by
  rcases (h.consistent.applyAdopted_ends _ _).of_eq_ok heq with
    ⟨hnot, rfl⟩ | ⟨rfl, i, mid, headState, hi, hid, hmid, happly, rfl⟩
  · rw [if_neg hnot, append_nil]
    exact h
  · rw [if_pos rfl]
    have hmove : HeadMove exec [⟨thisMsg, block⟩] reached
        { reached with headState, headBlocks := reached.headBlocks.take i ++ [⟨thisMsg, block⟩] } :=
      .grow hmid happly mem_cons_self
    refine ⟨h.consistent.headMove hmove, h.final, ?_, fun _ => ?_⟩
    · intro other hmem
      rw [lastAt_append_singleton]
      rw [ChainState.blocks, map_append, map_take] at hmem
      rcases mem_append.mp hmem with hkept | hpushed
      · -- below the new block
        obtain ⟨j, hj⟩ := mem_iff_getElem?.mp hkept
        have hlt : j < i := by
          have hbound := (getElem?_eq_some_iff.mp hj).1
          rw [length_take] at hbound
          omega
        rw [List.getElem?_take_of_lt hlt] at hj
        have hother := h.consistent.linked.blockId_getElem? hj
        have hne : block.header.blockId ≠ other.header.blockId := by
          intro heq
          rw [heq] at hid
          omega
        rw [if_neg hne]
        exact h.blocks other (mem_of_getElem? hj)
      · obtain rfl : other = block := by simpa using hpushed
        exact .inl (if_pos rfl)
    · rw [headTip_append]
      exact some_ne_none _

/-- **What the adoptions of a delta do.** -/
theorem Consistent.adoptAll (h : Consistent exec origin chain) (heq : adopted.foldlM
      (fun (outcomes, chain) (msg, block) => do
        let (outcome, chain) ← chain.applyAdopted exec msg block
        pure (outcomes ++ [outcome], chain))
      ([], chain) = Except.ok (outcomes, chain')) :
    outcomes.length = adopted.length ∧
      (appliedBlocks adopted outcomes).Sublist (adopted.map Prod.snd) ∧
      Adopts exec origin (appliedBlocks adopted outcomes) chain chain' := by
  induction adopted using reverseRecOn generalizing outcomes chain' with
  | nil =>
    cases heq
    exact ⟨rfl, .slnil, h, rfl, fun block hmem => .inr ⟨rfl, hmem⟩, fun htip => htip⟩
  | append_singleton adopted entry ih =>
    rw [List.foldlM_append] at heq
    obtain ⟨⟨before, reached⟩, hbefore, hlast⟩ := bind_eq_ok.mp heq
    obtain ⟨hlength, hsub, hadopts⟩ := ih hbefore
    obtain ⟨step, hstep, hend⟩ := foldlM_cons_eq_ok.mp hlast
    obtain ⟨⟨outcome, next⟩, happly, hpure⟩ := bind_eq_ok.mp hstep
    cases hpure
    cases hend
    rw [appliedBlocks_append hlength]
    refine ⟨by simp [hlength], ?_, hadopts.applyAdopted happly⟩
    rw [map_append]
    refine hsub.append ?_
    split
    · exact .refl _
    · exact List.nil_sublist _

/-- **What a channel update does.** -/
theorem Consistent.applyChannelUpdate_adopts (h : Consistent exec origin chain)
    {orphaned : List (MsgId × Block)} (hgenesis : chain.finalTip = none →
      ∀ entry ∈ orphaned, chain.headPositionOf entry.1 entry.2 ≠ some 0)
    (heq : chain.applyChannelUpdate exec orphaned adopted = .ok (outcomes, chain')) :
    (appliedBlocks adopted outcomes).Sublist (adopted.map Prod.snd) ∧
      Adopts exec origin (appliedBlocks adopted outcomes) chain chain' := by
  unfold applyChannelUpdate at heq
  dsimp only at heq
  obtain ⟨reverted, hrevert, hfold⟩ := bind_eq_ok.mp heq
  have hreverted : Adopts exec origin [] chain reverted := by
    split at hrevert
    · rename_i idx hmin
      obtain ⟨mid, hmid, hcut⟩ := h.rederiveHead_eq idx
      rw [hcut] at hrevert
      cases hrevert
      have hmove : HeadMove exec [] chain
          { chain with headState := mid.2, headBlocks := chain.headBlocks.take idx } := .cut hmid
      refine ⟨h.headMove hmove, rfl, fun block hmem => .inr ⟨rfl, ?_⟩, fun htip => ?_⟩
      · rw [blocks, map_take] at hmem
        exact List.mem_of_mem_take hmem
      · -- the cut is above the genesis block while nothing is final
        rw [headTip_ne_none] at htip ⊢
        rcases htip with hhead | hfinal
        · by_cases hcold : chain.finalTip = none
          · obtain ⟨entry, hentry, hposition⟩ :=
              mem_filterMap.mp (List.min?_mem hmin)
            have hne : idx ≠ 0 := fun hzero => hgenesis hcold entry hentry (hzero ▸ hposition)
            refine .inl fun htake => ?_
            rcases List.take_eq_nil_iff.mp htake with hzero | hnil
            · exact hne hzero
            · exact hhead hnil
          · exact .inr hcold
        · exact .inr hfinal
    · cases hrevert
      exact ⟨h, rfl, fun block hmem => .inr ⟨rfl, hmem⟩, fun htip => htip⟩
  obtain ⟨-, hsub, hadopts⟩ := hreverted.consistent.adoptAll hfold
  refine ⟨hsub, hadopts.consistent, hadopts.final.trans hreverted.final, ?_, fun htip =>
    hadopts.tip (hreverted.tip htip)⟩
  intro block hmem
  rcases hadopts.blocks block hmem with hlast | ⟨hnone, hold⟩
  · exact .inl hlast
  · refine .inr ⟨hnone, ?_⟩
    rcases hreverted.blocks block hold with hlast | ⟨-, hfirst⟩
    · exact absurd hlast (by simp [lastAt])
    · exact hfirst

/-! ### The finalized blocks of a delta -/

/-- At its turn each finalized block is applied, or it names no block of the head as its
parent. -/
def FinalizedQuietly (exec : Executor) : ChainState → List (MsgId × Block) → Prop
  | _, [] => True
  | chain, (thisMsg, block) :: rest =>
    match chain.applyFinalized exec thisMsg block 0 with
    | .ok (outcome, chain') =>
      (outcome = .applied ∨ chain.Detached block) ∧ FinalizedQuietly exec chain' rest
    | .error _ => True

instance FinalizedQuietly.decidable (exec : Executor) :
    ∀ chain finalized, Decidable (FinalizedQuietly exec chain finalized)
  | _, [] => .isTrue trivial
  | chain, (thisMsg, block) :: rest =>
    match happly : chain.applyFinalized exec thisMsg block 0 with
    | .ok (outcome, chain') =>
      have := FinalizedQuietly.decidable exec chain' rest
      decidable_of_iff
        ((outcome = .applied ∨
            ∀ entry ∈ chain.headBlocks, entry.block.header.hash ≠ block.header.prevBlockHash) ∧
          FinalizedQuietly exec chain' rest)
        (by rw [FinalizedQuietly, happly]; rfl)
    | .error _ => .isTrue (by rw [FinalizedQuietly, happly]; trivial)

/-- Where the loop over the finalized blocks is, from a chain and the payloads of the
adoptions on. -/
structure FinalizedLoop.At (exec : Executor) (known : HashableBlockData → Prop) (origin : Position)
    (start : ChainState) (adoptions : List (Block × Bool)) (loop : FinalizedLoop) : Prop where
  consistent : Consistent exec origin loop.chain
  blocks : loop.chain.blocks ⊆ start.blocks
  tip : loop.chain.finalTip = start.finalTip ∨
    ∃ block, known block.hashableData ∧ loop.chain.finalTip = some (Tip.ofBlock block)
  height : height start.finalTip ≤ height loop.chain.finalTip
  still : loop.finalAdvanced = false →
    loop.chain.finalPosition = start.finalPosition ∧ loop.chain.headBlocks = start.headBlocks
  advanced : loop.finalAdvanced = true → ∃ tip, loop.chain.finalTip = some tip
  payloads : ∃ finals : List Block, loop.toPersist = adoptions ++ finals.map (fun b => (b, true)) ∧
    ∀ block ∈ finals, block.header.blockId.val ≤ Lssa.height loop.chain.finalTip
  irreversible : ∀ block ∈ loop.irreversible,
    block.header.blockId.val ≤ Lssa.height loop.chain.finalTip

theorem Consistent.finalMoves (h : Consistent exec origin chain)
    (hmoves : Relation.ReflTransGen (FinalMove exec) chain chain') :
    Consistent exec origin chain' ∧ chain'.headBlocks ⊆ chain.headBlocks := by
  induction hmoves with
  | refl => exact ⟨h, List.Subset.refl _⟩
  | tail _ hmove ih =>
    exact ⟨ih.1.finalMove hmove, fun entry hmem => ih.2 (hmove.mem_headBlocks hmem)⟩

/-- A block that the final tier was settled at or above is below the final tip. -/
theorem Finalizes.blockId_le (h : Finalizes exec block chain outcome chain')
    (houtcome : outcome = .applied ∨ outcome = .alreadyApplied) :
    block.header.blockId.val ≤ height chain'.finalTip := by
  obtain ⟨tip, htip, hle⟩ := h.settled houtcome
  rw [htip]
  exact hle

/-- A round of the loop. -/
theorem FinalizedLoop.At.round {start : ChainState} {loop loop' : FinalizedLoop}
    (h : loop.At exec known origin start adoptions)
    (hstart : ∀ block ∈ start.blocks, known block.hashableData) {thisMsg : MsgId}
    (hblock : known block.hashableData)
    (happly : loop.chain.applyFinalized exec thisMsg block 0 = .ok (outcome, chain'))
    (hquiet : outcome = .applied ∨ loop.chain.Detached block)
    (hround : loop.round exec (thisMsg, block) = .ok loop') :
    loop'.chain = chain' ∧ loop'.At exec known origin start adoptions := by
  have hfinalizes := h.consistent.applyFinalized_finalizes happly
  obtain ⟨hconsistent, hentries⟩ := h.consistent.finalMoves hfinalizes.moves
  have hheight := hfinalizes.height_le
  have hblocks : chain'.blocks ⊆ start.blocks :=
    List.Subset.trans (List.map_subset _ hentries) h.blocks
  have htip : chain'.finalTip = start.finalTip ∨
      ∃ block, known block.hashableData ∧ chain'.finalTip = some (Tip.ofBlock block) := by
    rcases hfinalizes.tip with hsame | ⟨tip, hwhich, hnew⟩
    · rw [hsame]
      exact h.tip
    · refine .inr ⟨tip, ?_, hnew⟩
      rcases hwhich with rfl | hmem
      · exact hblock
      · exact hstart tip (h.blocks hmem)
  obtain ⟨finals, hpersist, hfinals⟩ := h.payloads
  have hfinals' : ∀ b ∈ finals, b.header.blockId.val ≤ Lssa.height chain'.finalTip :=
    fun b hb => (hfinals b hb).trans hheight
  have hirreversible : ∀ b ∈ loop.irreversible,
      b.header.blockId.val ≤ Lssa.height chain'.finalTip :=
    fun b hb => (h.irreversible b hb).trans hheight
  -- without an application the tiers are where they were
  have hunmoved : outcome ≠ .applied → chain'.finalPosition = loop.chain.finalPosition ∧
      chain'.headBlocks = loop.chain.headBlocks := by
    intro hnot
    have hunmoved := (h.consistent.applyFinalized_rejected hnot happly).mpr
      (hquiet.resolve_left hnot)
    rw [hunmoved.1]
    exact ⟨rfl, rfl⟩
  have hstill : outcome ≠ .applied → loop.finalAdvanced = false →
      chain'.finalPosition = start.finalPosition ∧ chain'.headBlocks = start.headBlocks := by
    intro hnot hflag
    obtain ⟨hposition, hhead⟩ := hunmoved hnot
    obtain ⟨hposition', hhead'⟩ := h.still hflag
    exact ⟨hposition.trans hposition', hhead.trans hhead'⟩
  have hadvanced : outcome ≠ .applied → loop.finalAdvanced = true →
      ∃ tip, chain'.finalTip = some tip := by
    intro hnot hflag
    obtain ⟨tip, htip⟩ := h.advanced hflag
    exact ⟨tip, (congrArg Prod.fst (hunmoved hnot).1).trans htip⟩
  obtain ⟨result, hresult, hround⟩ := bind_eq_ok.mp hround
  obtain rfl : (outcome, chain') = result := ok.inj (happly.symm.trans hresult)
  cases outcome with
  | applied =>
    cases hround
    refine ⟨rfl, hconsistent, hblocks, htip, h.height.trans hheight, by simp, fun _ => ?_,
      ⟨finals ++ [block], ?_, ?_⟩, ?_⟩
    · obtain ⟨tip, hsome, -⟩ := hfinalizes.settled (.inl rfl)
      exact ⟨tip, hsome⟩
    · rw [hpersist, map_append, append_assoc]
      rfl
    · exact forall_mem_append.mpr ⟨hfinals', forall_mem_singleton.mpr
        (hfinalizes.blockId_le (.inl rfl))⟩
    · exact forall_mem_append.mpr ⟨hirreversible, forall_mem_singleton.mpr
        (hfinalizes.blockId_le (.inl rfl))⟩
  | alreadyApplied =>
    cases hround
    refine ⟨rfl, hconsistent, hblocks, htip, h.height.trans hheight, hstill (by simp),
      hadvanced (by simp), ⟨finals, hpersist, hfinals'⟩, ?_⟩
    exact forall_mem_append.mpr ⟨hirreversible, forall_mem_singleton.mpr
      (hfinalizes.blockId_le (.inr rfl))⟩
  | parked error | retryableFailure error =>
    cases hround
    exact ⟨rfl, hconsistent, hblocks, htip, h.height.trans hheight, hstill (by simp),
      hadvanced (by simp), ⟨finals, hpersist, hfinals'⟩, hirreversible⟩

/-- **What the finalized blocks of a delta do.** -/
theorem FinalizedLoop.At.run {start : ChainState} {loop loop' : FinalizedLoop}
    (h : loop.At exec known origin start adoptions)
    (hstart : ∀ block ∈ start.blocks, known block.hashableData) {finalized : List (MsgId × Block)}
    (hknown : ∀ entry ∈ finalized, known entry.2.hashableData)
    (hquiet : FinalizedQuietly exec loop.chain finalized)
    (hfold : finalized.foldlM (FinalizedLoop.round exec) loop = .ok loop') :
    loop'.At exec known origin start adoptions := by
  induction finalized generalizing loop with
  | nil =>
    cases hfold
    exact h
  | cons entry rest ih =>
    obtain ⟨thisMsg, block⟩ := entry
    obtain ⟨next, hround, hrest⟩ := foldlM_cons_eq_ok.mp hfold
    obtain ⟨⟨outcome, chain'⟩, happly, -⟩ := bind_eq_ok.mp hround
    rw [FinalizedQuietly] at hquiet
    rw [show loop.chain.applyFinalized exec thisMsg block 0 = .ok (outcome, chain') from happly]
      at hquiet
    obtain ⟨hchain, hnext⟩ := h.round hstart (hknown (thisMsg, block) mem_cons_self) happly
      hquiet.1 hround
    refine ih hnext (fun entry hmem => hknown entry (mem_cons_of_mem _ hmem)) ?_ hrest
    rw [hchain]
    exact hquiet.2

/-! ### Events -/

/-- A delta is orderly: no stored block is adopted again after a competitor, the genesis block
is not orphaned while nothing is final, and a finalized block that is not applied names no
block of the head as its parent. -/
structure FollowUpdate.Orderly (exec : Executor) (core : MirroredChain) (update : FollowUpdate) :
    Prop where
  competitors : update.adopted.Pairwise fun a b =>
    a.2.header.blockId = b.2.header.blockId → core.store.Holds b.2 →
      a.2.header.hash = b.2.header.hash
  genesis : core.chain.finalTip = none →
    ∀ entry ∈ update.orphaned, core.chain.headPositionOf entry.1 entry.2 ≠ some 0
  finalized : ∀ result ∈
      (core.chain.applyChannelUpdate exec update.orphaned update.adopted).toOption,
    FinalizedQuietly exec result.2 update.finalized

instance (exec : Executor) (core : MirroredChain) (update : FollowUpdate) :
    Decidable (update.Orderly exec core) :=
  decidable_of_iff (_ ∧ _ ∧ _) ⟨fun ⟨h, h', h''⟩ => ⟨h, h', h''⟩, fun ⟨h, h', h''⟩ => ⟨h, h', h''⟩⟩

namespace InSync

variable {core core' : MirroredChain}

section

variable (h : InSync exec initialState known core) (hknown : Distinguished known)

include h hknown

/-- **An update that writes what was applied and what was finalized** keeps the mirror. -/
theorem persists {update : StoreUpdate} {tip : BlockMeta} {applied finals : List Block}
    (hchain : Consistent exec origin chain)
    (hblocks : ∀ block ∈ chain.blocks, known block.hashableData)
    (hrange : height chain.finalTip + 1 < 2 ^ 64)
    (hheight : height core.chain.finalTip ≤ height chain.finalTip)
    (htip : chain.headTip = some tip) (hupdateTip : update.headTip = some tip)
    (hstate : update.headState = chain.headState)
    (hfinal : (∃ finalTip, chain.finalTip = some finalTip ∧
        update.finalSnapshot = some (chain.finalState, finalTip)) ∨
      (update.finalSnapshot = none ∧ chain.finalPosition = core.chain.finalPosition))
    (hupTo : ∀ last ∈ update.finalizedUpTo, last.val ≤ height chain.finalTip)
    (hpayloads : update.blocks =
      applied.map (fun block => (block, false)) ++ finals.map fun block => (block, true))
    (hadopts : ∀ block ∈ chain.blocks, lastAt applied block.header.blockId = some block ∨
      lastAt applied block.header.blockId = none ∧ block ∈ core.chain.blocks)
    (hcompetitors : applied.Pairwise fun a b =>
      a.header.blockId = b.header.blockId → core.store.Holds b → a.header.hash = b.header.hash)
    (hfinals : ∀ final ∈ finals, final.header.blockId.val ≤ height chain.finalTip) :
    InSync exec initialState known ⟨chain, core.store.storeUpdate update⟩ := by
  refine storeUpdate_inSync h hchain hblocks hrange ⟨htip,
    hknown.headTip_range hblocks hrange htip, hupdateTip, hstate, hfinal, hupTo,
    fun block hmem => ?_⟩
  have hid : height chain.finalTip < block.header.blockId.val := by
    obtain ⟨i, hi⟩ := mem_iff_getElem?.mp hmem
    rw [hchain.linked.blockId_getElem? hi]
    omega
  have habove : ∀ last ∈ update.finalizedUpTo, last < block.header.blockId :=
    fun last hlast => (hupTo last hlast).trans_lt hid
  rw [ChainCells.lookup_toWrite habove, hpayloads]
  refine h.reads_head hknown.injective (hblocks block hmem) (hchain.linked.hash_of_mem hmem)
    (hheight.trans_lt hid) (hadopts block hmem) hcompetitors fun final hfinal heq => ?_
  have hle := hfinals final hfinal
  rw [heq] at hle
  omega

theorem applyFollowUpdate {update : FollowUpdate} (horderly : update.Orderly exec core)
    (hadopted : ∀ entry ∈ update.adopted, known entry.2.hashableData)
    (hfinalized : ∀ entry ∈ update.finalized, known entry.2.hashableData)
    (heq : Lssa.applyFollowUpdate exec core update = .ok core') :
    InSync exec initialState known core' := by
  obtain ⟨origin, hconsistent⟩ := h.consistent
  obtain ⟨oldTip, holdTip, -, -⟩ := h.tip
  unfold Lssa.applyFollowUpdate at heq
  obtain ⟨⟨outcomes, chain⟩, hchannel, heq⟩ := bind_eq_ok.mp heq
  dsimp only at heq
  obtain ⟨loop, hloop, heq⟩ := bind_eq_ok.mp heq
  obtain ⟨snapshot, hsnapshot, heq⟩ := bind_eq_ok.mp heq
  cases heq
  replace hchannel := mapError_eq_ok.mp hchannel
  replace hloop := mapError_eq_ok.mp hloop
  obtain ⟨hsub, hadopts⟩ := hconsistent.applyChannelUpdate_adopts horderly.genesis hchannel
  have hpersist : (((update.adopted.zip outcomes).filter fun entry => entry.2 = .applied).map
      fun entry => (entry.1.2, false))
      = (appliedBlocks update.adopted outcomes).map fun block => (block, false) := by
    rw [appliedBlocks, map_map]
    rfl
  rw [hpersist] at hloop
  set applied := appliedBlocks update.adopted outcomes with happlied
  have hchain : ∀ block ∈ chain.blocks, known block.hashableData := by
    intro block hmem
    rcases hadopts.blocks block hmem with hlast | ⟨-, hold⟩
    · obtain ⟨entry, hentry, rfl⟩ := mem_map.mp (hsub.subset (mem_of_lastAt hlast).1)
      exact hadopted entry hentry
    · exact h.known block hold
  have hfinalTip : chain.finalTip = core.chain.finalTip := congrArg Prod.fst hadopts.final
  have hstart : FinalizedLoop.At exec known origin chain (applied.map fun block => (block, false))
      { chain
        toPersist := applied.map fun block => (block, false)
        irreversible := []
        finalAdvanced := false } :=
    ⟨hadopts.consistent, List.Subset.refl _, .inl rfl, le_rfl, fun _ => ⟨rfl, rfl⟩, by simp,
      ⟨[], (append_nil _).symm, by simp⟩, by simp⟩
  have hend :=
    hstart.run hchain hfinalized (horderly.finalized _ (toOption_eq_some.mpr hchannel)) hloop
  have hknownEnd : ∀ block ∈ loop.chain.blocks, known block.hashableData :=
    fun block hmem => hchain block (hend.blocks hmem)
  have hrange : height loop.chain.finalTip + 1 < 2 ^ 64 :=
    hknown.finalTip_range (by rw [hfinalTip]; exact h.range) hend.tip
  obtain ⟨finals, hpayloads, hfinals⟩ := hend.payloads
  have htip : loop.chain.headTip ≠ none := by
    cases hflag : loop.finalAdvanced with
    | true =>
      obtain ⟨tip, hsome⟩ := hend.advanced hflag
      exact headTip_ne_none.mpr (.inr (by rw [hsome]; exact some_ne_none _))
    | false =>
      obtain ⟨hposition, hhead⟩ := hend.still hflag
      have hsame : loop.chain.headTip = chain.headTip := by
        rw [headTip, headTip, hhead,
          show loop.chain.finalTip = chain.finalTip from congrArg Prod.fst hposition]
      rw [hsame]
      exact hadopts.tip (by rw [holdTip]; exact some_ne_none _)
  obtain ⟨tip, htip⟩ := Option.ne_none_iff_exists'.mp htip
  refine h.persists hknown hend.consistent hknownEnd hrange (hfinalTip ▸ hend.height) htip htip rfl
    ?_ ?_ hpayloads (fun block hmem => hadopts.blocks block (hend.blocks hmem))
    ((pairwise_map.mpr horderly.competitors).sublist hsub) hfinals
  · -- the snapshot is taken iff the final tier advanced
    unfold finalMeta at hsnapshot
    cases hflag : loop.finalAdvanced with
    | true =>
      obtain ⟨finalTip, hsome⟩ := hend.advanced hflag
      rw [hflag, if_pos rfl, hsome] at hsnapshot
      cases hsnapshot
      exact .inl ⟨finalTip, hsome, rfl⟩
    | false =>
      rw [hflag, if_neg (by simp)] at hsnapshot
      cases hsnapshot
      exact .inr ⟨rfl, (hend.still hflag).1.trans hadopts.final⟩
  · intro last hmem
    obtain ⟨block, hblock, rfl⟩ := mem_map.mp (List.max?_mem hmem)
    exact hend.irreversible block hblock

theorem recordProducedBlock {thisMsg : MsgId} {block : Block} (hblock : known block.hashableData)
    (heq : Lssa.recordProducedBlock exec core thisMsg block = .ok core') :
    InSync exec initialState known core' := by
  obtain ⟨origin, hconsistent⟩ := h.consistent
  unfold Lssa.recordProducedBlock at heq
  obtain ⟨⟨outcome, chain⟩, happly, heq⟩ := bind_eq_ok.mp heq
  replace happly := mapError_eq_ok.mp happly
  dsimp only at heq
  have hadopts : (outcome ≠ .applied ∧ chain = core.chain) ∨
      (outcome = .applied ∧ Adopts exec origin [block] core.chain chain ∧
        chain.headTip = some (Tip.ofBlock block)) := by
    unfold applyProduced at happly
    split at happly
    · cases happly
      exact .inl ⟨by simp, rfl⟩
    · have hstart : Adopts exec origin [] core.chain core.chain :=
        ⟨hconsistent, rfl, fun block hmem => .inr ⟨rfl, hmem⟩, fun htip => htip⟩
      have hadopts := hstart.applyAdopted happly
      rcases (hconsistent.applyAdopted_ends _ _).of_eq_ok happly with
        ⟨hnot, rfl⟩ | ⟨rfl, i, -, headState, -, -, -, -, rfl⟩
      · exact .inl ⟨hnot, rfl⟩
      · exact .inr ⟨rfl, hadopts, headTip_append _ _ _⟩
  rcases hadopts with ⟨hnot, rfl⟩ | ⟨rfl, hadopts, htip⟩
  · cases outcome with
    | applied => exact absurd rfl hnot
    | alreadyApplied | parked error | retryableFailure error => exact ok.inj heq ▸ h
  cases heq
  have hfinalTip : chain.finalTip = core.chain.finalTip := congrArg Prod.fst hadopts.final
  have hknownEnd : ∀ b ∈ chain.blocks, known b.hashableData := by
    intro b hmem
    rcases hadopts.blocks b hmem with hlast | ⟨-, hold⟩
    · rw [mem_singleton.mp (mem_of_lastAt hlast).1]
      exact hblock
    · exact h.known b hold
  have hrange : height chain.finalTip + 1 < 2 ^ 64 := hfinalTip ▸ h.range
  exact h.persists hknown hadopts.consistent hknownEnd hrange (hfinalTip ▸ le_rfl) htip rfl rfl
    (.inr ⟨rfl, hadopts.final⟩) (by simp [StoreUpdate.new])
    (show [(block, false)] = [block].map _ ++ [].map _ from rfl) hadopts.blocks
    (List.pairwise_singleton _ _) (by simp)

theorem applyReconstructedBlock {block : Block} {slot : Slot} (hblock : known block.hashableData)
    (heq : Lssa.applyReconstructedBlock exec core block slot = .ok core') :
    InSync exec initialState known core' := by
  obtain ⟨origin, hconsistent⟩ := h.consistent
  unfold Lssa.applyReconstructedBlock at heq
  split at heq
  · exact ok.inj heq ▸ h
  split at heq
  · exact ok.inj heq ▸ h
  obtain ⟨⟨outcome, chain⟩, happly, heq⟩ := bind_eq_ok.mp heq
  replace happly := mapError_eq_ok.mp happly
  dsimp only at heq
  have hfinalizes := hconsistent.applyFinalized_finalizes happly
  obtain ⟨hchain, hentries⟩ := hconsistent.finalMoves hfinalizes.moves
  have hsettled : (outcome = .applied ∨ outcome = .alreadyApplied) ∧
      core' = ⟨chain, core.store.storeUpdate
        { StoreUpdate.new chain.headState with
          blocks := [(block, true)]
          headTip := chain.headTip
          finalSnapshot := chain.finalTip.map fun tip => (chain.finalState, tip) }⟩ := by
    cases outcome with
    | applied => exact ⟨.inl rfl, (ok.inj heq).symm⟩
    | alreadyApplied => exact ⟨.inr rfl, (ok.inj heq).symm⟩
    | parked error | retryableFailure error => cases heq
  obtain ⟨houtcome, rfl⟩ := hsettled
  obtain ⟨finalTip, hfinalTip, -⟩ := hfinalizes.settled houtcome
  have hblockId := hfinalizes.blockId_le houtcome
  have hblocks : chain.blocks ⊆ core.chain.blocks := List.map_subset _ hentries
  have hknownEnd : ∀ b ∈ chain.blocks, known b.hashableData :=
    fun b hmem => h.known b (hblocks hmem)
  have hrange : height chain.finalTip + 1 < 2 ^ 64 := by
    refine hknown.finalTip_range h.range (hfinalizes.tip.imp_right ?_)
    rintro ⟨tip, rfl | hmem, hnew⟩
    · exact ⟨tip, hblock, hnew⟩
    · exact ⟨tip, h.known tip hmem, hnew⟩
  obtain ⟨tip, htip⟩ : ∃ tip, chain.headTip = some tip := by
    refine Option.ne_none_iff_exists'.mp (headTip_ne_none.mpr (.inr ?_))
    rw [hfinalTip]
    exact some_ne_none _
  refine h.persists hknown hchain hknownEnd hrange hfinalizes.height_le htip htip rfl
    (.inl ⟨finalTip, hfinalTip, by simp [hfinalTip]⟩) (by simp [StoreUpdate.new])
    (show [(block, true)] = [].map _ ++ [block].map _ from rfl)
    (fun b hmem => .inr ⟨rfl, hblocks hmem⟩) .nil fun final hfinal => ?_
  rw [mem_singleton.mp hfinal]
  exact hblockId

end

end InSync

/-! ### The start -/

omit [ClockBuiltin] [Serde Timestamp] in
/-- The transactions that make the genesis state are those of the genesis block. -/
theorem foldlM_applyUserTransaction_genesis {timestamp : Timestamp}
    (hid : block.header.blockId = genesisBlockId) (htime : block.header.timestamp = timestamp)
    {txs : List PublicTransaction} {state state' : V03State}
    (h : txs.foldlM (fun state tx => transitionFromPublicTransaction exec state tx genesisBlockId
      timestamp) state = .ok state') (n : ℕ) :
    ((txs.map LeeTransaction.publicTx).zipIdx n).foldlM (applyUserTransaction exec block) state
      = .ok state' := by
  induction txs generalizing state n with
  | nil =>
    cases h
    rfl
  | cons tx txs ih =>
    obtain ⟨next, htx, hrest⟩ := foldlM_cons_eq_ok.mp h
    rw [map_cons, zipIdx_cons]
    refine foldlM_cons_eq_ok.mpr ⟨next, ?_, ih hrest (n + 1)⟩
    rw [applyUserTransaction, if_pos hid]
    show stateTransition n (transitionFromPublicTransaction exec state tx block.header.blockId
      block.header.timestamp) = .ok next
    rw [hid, htime, htx]
    rfl

variable {sign : HashType → Signature}

/-- A new store holds a block that makes its state from the state before the genesis block. -/
theorem createStore_ok (h : createStore exec initialState configured sign = .ok store) :
    ∃ genesis genesisState, store = .create genesis genesisState ∧
      genesis.header.blockId = genesisBlockId ∧
      applyBlock exec none genesis initialState = .ok genesisState := by
  obtain ⟨⟨genesisState, genesisTxs⟩, hbuild, h⟩ := bind_eq_ok.mp h
  cases h
  obtain ⟨state, hfold, h⟩ := bind_eq_ok.mp hbuild
  obtain ⟨rfl, rfl⟩ := Prod.mk.inj (ok.inj h)
  set data : HashableBlockData :=
    { blockId := genesisBlockId
      prevBlockHash := .replicate 32 0
      timestamp := 0
      transactions := (configured ++ [clockInvocation 0]).map .publicTx } with hdata
  refine ⟨data.intoPendingBlock sign, state, rfl, rfl, bind_eq_ok.mpr ⟨(), ?_, ?_⟩⟩
  · refine ensure_bind_eq_ok.mpr ⟨?_, ensure_eq_ok.mpr rfl⟩
    rfl
  · rw [List.foldlM_append] at hfold
    obtain ⟨mid, huser, hend⟩ := bind_eq_ok.mp hfold
    obtain ⟨last, hclock, hlast⟩ := foldlM_cons_eq_ok.mp hend
    cases hlast
    have htxs : (data.intoPendingBlock sign).body.transactions
        = configured.map .publicTx ++ [.publicTx (clockInvocation 0)] := by
      show data.transactions = _
      rw [hdata, map_append]
      rfl
    have hid : (data.intoPendingBlock sign).header.blockId = genesisBlockId := rfl
    have htime : (data.intoPendingBlock sign).header.timestamp = 0 := rfl
    unfold applyBlockToState
    rw [htxs, List.getLast?_concat, List.dropLast_concat]
    refine ensure_bind_eq_ok.mpr ⟨rfl, bind_eq_ok.mpr ⟨mid, ?_, ?_⟩⟩
    · exact foldlM_applyUserTransaction_genesis hid htime huser 0
    · rw [hid, htime, hclock]
      rfl

/-- **A new store mirrors the chain of the genesis block.** -/
theorem createStore_inSync (h : createStore exec initialState configured sign = .ok store)
    (hknown : ∀ block ∈ store.getAllBlocks, known block.hashableData) :
    ∃ chain, InSync exec initialState known ⟨chain, store⟩ := by
  obtain ⟨genesis, genesisState, rfl, hid, happly⟩ := createStore_ok h
  refine ⟨{ fromFinal initialState none with
    headState := genesisState, headBlocks := [⟨⟨genesis.header.hash⟩, genesis⟩] }, ?_⟩
  have hget : ∀ id, (ChainCells.create genesis genesisState).getBlock id
      = if id = genesis.header.blockId then some genesis else none := by
    intro id
    rw [ChainCells.getBlock, ChainCells.create]
    by_cases heq : id = genesis.header.blockId
    · rw [heq, lookup_insert, if_pos rfl]
    · rw [lookup_insert_ne heq, if_neg heq, AList.lookup_empty]
  constructor
  case consistent =>
    refine ⟨(none, initialState), rfl, ?_⟩
    exact replay_singleton.trans (advance_eq_some.mpr ⟨genesisState, happly, rfl⟩)
  case known =>
    intro block hmem
    obtain rfl : block = genesis := mem_singleton.mp hmem
    exact hknown _ (mem_singleton.mpr rfl)
  case final => rfl
  case range =>
    show 0 + 1 < 2 ^ 64
    omega
  case keyed =>
    intro id block hlookup
    have hstored := (hget id).symm.trans hlookup
    split at hstored
    · rename_i heq
      rw [← some.inj hstored, heq]
    · cases hstored
  case blocks =>
    intro id i hi
    replace hi : id.val = 0 + 1 + i := hi
    rw [hget, hid]
    cases i with
    | zero =>
      rw [if_pos (Fin.ext hi)]
      rfl
    | succ i =>
      rw [if_neg fun heq => ?_]
      · rfl
      · rw [heq] at hi
        have hone : genesisBlockId.val = 1 := rfl
        omega
  case tip => exact ⟨Tip.ofBlock genesis, rfl, rfl, rfl⟩
  case state => rfl

/-! ### Histories -/

/-- The start of a sequencer, fresh or after a stop. -/
def MirroredChain.start (exec : Executor) (initialState : V03State) (store : ChainCells) :
    Except RestorePanic MirroredChain := do
  let chain ← restoreChainState exec initialState store
  pure ⟨chain, store⟩

/-- What happens to a sequencer: an event, or (`none`) it stops and starts again. -/
def Lives (exec : Executor) (initialState : V03State) (step : Option SequencerEvent)
    (core core' : MirroredChain) : Prop :=
  match step with
  | some event => core.handle exec event = .ok core'
  | none => start exec initialState core.store = .ok core'

/-- What happens is not a delta of the channel, or an orderly one. -/
def OrderlyStep (exec : Executor) (core : MirroredChain) : Option SequencerEvent → Prop
  | some (.followUpdate update) => update.Orderly exec core
  | _ => True

instance (exec : Executor) (core : MirroredChain) (step : Option SequencerEvent) :
    Decidable (OrderlyStep exec core step) := by
  unfold OrderlyStep
  split <;> infer_instance

/-- What happens to a sequencer when the deltas of the channel are orderly. -/
def LivesOrderly (exec : Executor) (initialState : V03State) (step : Option SequencerEvent)
    (core core' : MirroredChain) : Prop :=
  Lives exec initialState step core core' ∧ OrderlyStep exec core step

/-- The blocks that an event brings to the chain. -/
def SequencerEvent.blocks : SequencerEvent → List Block
  | .followUpdate update => (update.adopted ++ update.finalized).map Prod.snd
  | .produced _ block => [block]
  | .reconstructed block _ => [block]

/-- What happens to a sequencer keeps the mirror. -/
theorem LivesOrderly.inSync (h : LivesOrderly exec initialState step core core')
    (hdistinct : Distinguished known)
    (hknown : ∀ event ∈ step, ∀ block ∈ event.blocks, known block.hashableData)
    (hcore : InSync exec initialState known core) : InSync exec initialState known core' := by
  obtain ⟨hlives, horderly⟩ := h
  cases step with
  | none =>
    obtain ⟨chain, hrestore, hpure⟩ := bind_eq_ok.mp hlives
    cases hpure
    obtain ⟨restored, hrestored, -, -, -, -, hsync⟩ := hcore.restores
    obtain rfl := ok.inj (hrestore.symm.trans hrestored)
    exact hsync
  | some event =>
    have hblocks := hknown event rfl
    cases event with
    | followUpdate update =>
      refine hcore.applyFollowUpdate hdistinct horderly ?_ ?_ hlives
      · intro entry hmem
        exact hblocks _ (mem_map_of_mem (mem_append_left _ hmem))
      · intro entry hmem
        exact hblocks _ (mem_map_of_mem (mem_append_right _ hmem))
    | produced thisMsg block =>
      exact hcore.recordProducedBlock hdistinct (hblocks _ mem_cons_self) hlives
    | reconstructed block slot =>
      exact hcore.applyReconstructedBlock hdistinct (hblocks _ mem_cons_self) hlives

/-- The blocks of a history. -/
def historyBlocks (history : List (Option SequencerEvent)) : List Block :=
  history.flatMap fun step => (step.map SequencerEvent.blocks).getD []

/-- **A stop loses nothing.**  Let a sequencer start with a new store and live through events
and stops, with orderly deltas, blocks that their hashes tell apart, and ids below the last
one.  Then a fresh start succeeds, and at every point the chain can be restored from the
store: restoring it does not panic and gives the same head tip, head state, final tip and
final state. -/
theorem crash_restart_equivalence {configured : List PublicTransaction}
    {sign : HashType → Signature} {store : ChainCells}
    (hcreate : createStore exec initialState configured sign = .ok store)
    {history : List (Option SequencerEvent)}
    (hhashes : ∀ a ∈ store.getAllBlocks ++ historyBlocks history,
      ∀ b ∈ store.getAllBlocks ++ historyBlocks history,
        a.recomputeHash = b.recomputeHash → a.hashableData = b.hashableData)
    (hids : ∀ block ∈ historyBlocks history, block.header.blockId.val + 1 < 2 ^ 64) :
    (∃ core, start exec initialState store = .ok core) ∧
      ∀ core core', start exec initialState store = .ok core →
        Run (LivesOrderly exec initialState) core history core' →
        ∃ restored, restoreChainState exec initialState core'.store = .ok restored ∧
          restored.headTip = core'.chain.headTip ∧ restored.headState = core'.chain.headState ∧
          restored.finalTip = core'.chain.finalTip ∧
          restored.finalState = core'.chain.finalState := by
  set blocks := store.getAllBlocks ++ historyBlocks history with hblocks
  let known : HashableBlockData → Prop := fun data => ∃ block ∈ blocks, block.hashableData = data
  have hdistinct : Distinguished known := by
    constructor
    · rintro _ _ ⟨a, ha, rfl⟩ ⟨b, hb, rfl⟩ heq
      exact hhashes a ha b hb heq
    · rintro _ ⟨block, hmem, rfl⟩
      rcases mem_append.mp hmem with hfirst | hlater
      · obtain ⟨genesis, genesisState, rfl, hid, -⟩ := createStore_ok hcreate
        obtain rfl : block = genesis := mem_singleton.mp hfirst
        show block.header.blockId.val + 1 < 2 ^ 64
        rw [hid]
        decide
      · exact hids block hlater
  have hgenesis : ∀ block ∈ store.getAllBlocks, known block.hashableData :=
    fun block hmem => ⟨block, mem_append_left _ hmem, rfl⟩
  obtain ⟨chain, hsync⟩ := createStore_inSync hcreate hgenesis
  obtain ⟨restored, hrestore, -, -, -, -, hstart⟩ := hsync.restores
  have hfresh : start exec initialState store = .ok ⟨restored, store⟩ :=
    bind_eq_ok.mpr ⟨restored, hrestore, rfl⟩
  refine ⟨⟨_, hfresh⟩, ?_⟩
  intro core core' hcore hrun
  obtain rfl := ok.inj (hfresh.symm.trans hcore)
  have hend : InSync exec initialState known core' := by
    refine hrun.invariant (fun step hstep before after hlives hbefore => ?_) hstart
    refine hlives.inSync hdistinct (fun event hevent block hmem => ⟨block, ?_, rfl⟩) hbefore
    refine mem_append_right _ (mem_flatMap.mpr ⟨step, hstep, ?_⟩)
    rw [show step = some event from hevent]
    exact hmem
  obtain ⟨result, hresult, htip, hstate, hfinalTip, hfinalState, -⟩ := hend.restores
  exact ⟨result, hresult, htip, hstate, hfinalTip, hfinalState⟩

/-- Take a step. -/
def MirroredChain.live (exec : Executor) (initialState : V03State) (core : MirroredChain)
    (step : Option SequencerEvent) : Option MirroredChain :=
  match step with
  | some event => (core.handle exec event).toOption
  | none => (start exec initialState core.store).toOption

theorem lives_of_live (h : core.live exec initialState step = some core') :
    Lives exec initialState step core core' := by
  cases step with
  | some event | none => exact toOption_eq_some.mp h

/-- Take a step if it is orderly. -/
def MirroredChain.liveOrderly (exec : Executor) (initialState : V03State) (core : MirroredChain)
    (step : Option SequencerEvent) : Option MirroredChain :=
  if OrderlyStep exec core step then core.live exec initialState step else none

/-- A new store, the start with it, and what happens then. -/
def MirroredChain.liveFresh (exec : Executor) (initialState : V03State)
    (sign : HashType → Signature) (live : MirroredChain → Option SequencerEvent →
      Option MirroredChain) (history : List (Option SequencerEvent)) :
    Option (ChainCells × MirroredChain) := do
  let store ← (createStore exec initialState [] sign).toOption
  let core ← (start exec initialState store).toOption
  let core' ← history.foldlM live core
  pure (store, core')

theorem exists_of_liveFresh {history : List (Option SequencerEvent)}
    {live : MirroredChain → Option SequencerEvent → Option MirroredChain}
    {lives : Option SequencerEvent → MirroredChain → MirroredChain → Prop}
    (hlives : ∀ step core core', live core step = some core' → lives step core core')
    {P : ChainCells → MirroredChain → Prop}
    (h : ∃ result, liveFresh exec initialState sign live history = some result ∧
      P result.1 result.2) :
    ∃ store, createStore exec initialState [] sign = .ok store ∧
      ∃ core, start exec initialState store = .ok core ∧
        ∃ core', Run lives core history core' ∧ P store core' := by
  obtain ⟨result, h, hP⟩ := h
  obtain ⟨store, hstore, h⟩ := bind_eq_some_iff.mp h
  obtain ⟨core, hcore, h⟩ := bind_eq_some_iff.mp h
  obtain ⟨core', hcore', h⟩ := bind_eq_some_iff.mp h
  cases h
  exact ⟨store, toOption_eq_some.mp hstore, core, toOption_eq_some.mp hcore, core',
    Run.of_foldlM hlives hcore', hP⟩

end

/-! ### Deltas that are not orderly -/

namespace Fork

/-- The genesis block of a new store, two second blocks, and a third on one of them. -/
def root : Block :=
  block 1 (ofHex 0) 0 0xa9740fad990515743469c574a4a1f345287e5bf976eae464ee0c536cd77b21b4

def left : Block :=
  block 2 root.header.hash 20 0x01a97633a37553a2455950fb5c4b73a45167c59f16e39f47aa93966b9509e684

def right : Block :=
  block 2 root.header.hash 25 0x4843b594f5729208a6af9dddf742688c12b786006233c2d4c786aa2b85efdacd

def rightmost : Block :=
  block 3 right.header.hash 30 0x2e7ca8716ef9c2e6e0037a068474d99187395f6f678b222fe6bbb07adbabf409

end Fork

namespace Rooted

open Idle Fork

scoped instance sha : Sha256 :=
  .ofTable ([root, left, right, rightmost].map fun block =>
    (block.hashableData.hashBytes, block.header.hash))

def sign (_ : HashType) : Signature := .ofHex 0 0

/-- The second block is adopted once more after its competitor. -/
def relapse : List (Option SequencerEvent) :=
  [ some (.produced (msg 2) left), some (.followUpdate ⟨[(msg 3, right), (msg 2, left)], [], []⟩) ]

/-- The genesis block is orphaned. -/
def uprooting : List (Option SequencerEvent) :=
  [some (.followUpdate ⟨[], [(msg 1, root)], []⟩)]

/-- A finalized block that does not apply names the second block as its parent. -/
def straying : List (Option SequencerEvent) :=
  [ some (.produced (msg 2) left),
    some (.followUpdate ⟨[], [], [(msg 5, block 9 left.header.hash 40 1)]⟩) ]

/-- The second block is replaced, the genesis block becomes final, the sequencer stops and
starts again and reads the third block back, which becomes final with its parent. -/
def orderly : List (Option SequencerEvent) :=
  [ some (.produced (msg 2) left),
    some (.followUpdate ⟨[(msg 3, right)], [(msg 2, left)], [(msg 1, root)]⟩),
    none,
    some (.reconstructed rightmost 7) ]

end Rooted

section

open Idle Fork
open Rooted

/-- **Deltas that are not orderly.**  After a relapse the competitor is stored and the state
is not, so the next start panics; a start after the genesis block was orphaned brings it back;
and one after a stray finalized block takes the final tier back. -/
theorem relapse_not_restored :
    (∃ store core core',
      createStore exec state [] sign = .ok store ∧
      start exec state store = .ok core ∧
      Run (Lives exec state) core relapse core' ∧
      core'.chain.blocks.map Block.sealed = [root.sealed, left.sealed] ∧
      restoreChainState exec state core'.store = .error .stateMismatch) ∧
    (∃ store core core' restored,
      createStore exec state [] sign = .ok store ∧
      start exec state store = .ok core ∧
      Run (Lives exec state) core uprooting core' ∧
      core'.chain.headTip = none ∧
      restoreChainState exec state core'.store = .ok restored ∧
      restored.headTip = some (.ofBlock root)) ∧
    (∃ store core core' restored,
      createStore exec state [] sign = .ok store ∧
      start exec state store = .ok core ∧
      Run (Lives exec state) core straying core' ∧
      core'.chain.finalTip = some (.ofBlock left) ∧
      restoreChainState exec state core'.store = .ok restored ∧
      restored.finalTip = none) := by
  simp only [exists_and_left]
  exact ⟨exists_of_liveFresh (fun _ _ _ => lives_of_live) (by decide +kernel),
    exists_of_liveFresh (fun _ _ _ => lives_of_live) (by decide +kernel),
    exists_of_liveFresh (fun _ _ _ => lives_of_live) (by decide +kernel)⟩

theorem orderly_restored :
    ∃ store core core' restored,
      createStore exec state [] sign = .ok store ∧
      start exec state store = .ok core ∧
      Run (LivesOrderly exec state) core orderly core' ∧
      core'.chain.finalTip = some (.ofBlock rightmost) ∧
      restoreChainState exec state core'.store = .ok restored ∧
      restored.finalTip = some (.ofBlock rightmost) ∧
      restored.headTip = core'.chain.headTip ∧ restored.headState = core'.chain.headState := by
  obtain ⟨store, hcreate, core, hstart, core', hrun, hblocks, hfinal⟩ :
      ∃ store, createStore exec state [] sign = .ok store ∧
        ∃ core, start exec state store = .ok core ∧
          ∃ core', Run (LivesOrderly exec state) core orderly core' ∧
            store.getAllBlocks = [root] ∧
            core'.chain.finalTip = some (.ofBlock rightmost) :=
    exists_of_liveFresh
      (fun step core core' (h : core.liveOrderly exec state step = some core') =>
        (ite_none_right_eq_some.mp h).symm.imp_left lives_of_live) (by decide +kernel)
  have hhashes : ∀ a ∈ store.getAllBlocks ++ historyBlocks orderly,
      ∀ b ∈ store.getAllBlocks ++ historyBlocks orderly,
        a.recomputeHash = b.recomputeHash → a.hashableData = b.hashableData := by
    rw [hblocks]
    decide +kernel
  obtain ⟨-, hrestores⟩ := crash_restart_equivalence hcreate hhashes (by decide +kernel)
  obtain ⟨restored, hrestore, htip, hstate, hfinalTip, -⟩ := hrestores core core' hstart hrun
  exact ⟨store, core, core', restored, hcreate, hstart, hrun, hfinal, hrestore,
    hfinalTip.trans hfinal, htip, hstate⟩

end

end Lssa
