/-
What the clocks show.

Three accounts count the blocks of the chain: one is written in every block, one in every
tenth and one in every fiftieth.  A block ends with the clock invocation for its timestamp
(`applyBlockToState_ok`), which counts on from the first account.  So as long as the other
transactions of the blocks leave the accounts alone (`Undisturbed`), the accounts follow the
chain.

* `transition_clocks` — what the clock invocation does to the accounts;
* `Shows.next` — what one more block makes of what a clock shows;
* **`clocks_track_chain`** — what the clocks show after any chain of blocks.
-/
import Lssa.ChainState

open Outcome TwoTier

namespace Lssa

namespace Clock

open ClockAccountData

/-- The period of each clock, with its account. -/
def clocks : List (ℕ × AccountId) := [1, 10, 50].zip clockAccountIds

/-- The clock at zero, `ClockAccountData { block_id: 0, timestamp: 0 }`. -/
def ClockAccountData.zero : ClockAccountData := ⟨0, 0⟩

/-- The clock of a period shows the number and the timestamp of the last of the blocks whose
number the period divides; without such a block, its data are the initial ones. -/
structure Shows (period : ℕ) (initial : List UInt8) (blocks : List Block) (data : List UInt8) :
    Prop where
  never : blocks.length / period = 0 → data = initial
  last : ∀ block, 0 < blocks.length / period →
    blocks[period * (blocks.length / period) - 1]? = some block →
      ∃ shown : ClockAccountData, data = shown.toBytes ∧
        shown.blockId.val = period * (blocks.length / period) ∧
        shown.timestamp = block.header.timestamp

/-- A clock shows its initial data before the first block. -/
theorem Shows.nil (period : ℕ) (initial : List UInt8) : Shows period initial [] initial := by
  refine ⟨fun _ => rfl, fun block hpos => ?_⟩
  rw [List.length_nil, Nat.zero_div] at hpos
  exact absurd hpos (lt_irrefl 0)

/-- The clock of every block shows the number of blocks. -/
theorem Shows.count {blocks : List Block} {data : List UInt8} {shown : ClockAccountData}
    (h : Shows 1 zero.toBytes blocks data)
    (hshown : fromBytes data = some shown) :
    shown.blockId.val = blocks.length := by
  cases hlast : blocks.getLast? with
  | none =>
    obtain rfl := List.getLast?_eq_none_iff.mp hlast
    rw [h.never (Nat.zero_div 1), fromBytes_toBytes] at hshown
    rw [← some.inj hshown]
    rfl
  | some block =>
    have hpos : 0 < blocks.length := List.length_pos_of_mem (List.mem_of_getLast? hlast)
    rw [List.getLast?_eq_getElem?] at hlast
    obtain ⟨last, hbytes, hcount, -⟩ := h.last block (by rwa [Nat.div_one])
      (by rwa [Nat.div_one, Nat.one_mul])
    rw [hbytes, fromBytes_toBytes] at hshown
    rw [← some.inj hshown, hcount, Nat.div_one, Nat.one_mul]

/-- **One more block**: a clock whose period divides the new number shows the block, any other
clock shows what it did. -/
theorem Shows.next {period : ℕ} {initial data data' : List UInt8} {blocks : List Block}
    (h : Shows period initial blocks data) (hperiod : 0 < period) {block : Block}
    {current : U64} (hcurrent : current.val = blocks.length + 1)
    (hdata : data' = if period ∣ current.val
      then (ClockAccountData.mk current block.header.timestamp).toBytes else data) :
    Shows period initial (blocks ++ [block]) data' := by
  have hlength : (blocks ++ [block]).length = blocks.length + 1 := by simp
  by_cases hdvd : period ∣ blocks.length + 1
  · have hlast : period * ((blocks.length + 1) / period) = blocks.length + 1 :=
      Nat.mul_div_cancel' hdvd
    rw [hcurrent, if_pos hdvd] at hdata
    refine ⟨fun hzero => ?_, fun shown _ hshown => ?_⟩
    · rw [hlength] at hzero
      rw [hzero] at hlast
      omega
    · rw [hlength, hlast, Nat.add_sub_cancel, List.getElem?_concat_length] at hshown
      obtain rfl : block = shown := some.inj hshown
      refine ⟨⟨current, block.header.timestamp⟩, hdata, ?_, rfl⟩
      rw [hlength, hlast]
      exact hcurrent
  · have hsame : (blocks.length + 1) / period = blocks.length / period := by
      rw [Nat.succ_div, if_neg hdvd, Nat.add_zero]
    rw [hcurrent, if_neg hdvd] at hdata
    subst hdata
    refine ⟨fun hzero => ?_, fun shown hpos hshown => ?_⟩
    · rw [hlength, hsame] at hzero
      exact h.never hzero
    · rw [hlength, hsame] at hpos hshown ⊢
      -- the block shown is one of those before
      have hle : period * (blocks.length / period) ≤ blocks.length := Nat.mul_div_le _ _
      have hone : 0 < period * (blocks.length / period) := Nat.mul_pos hperiod hpos
      rw [List.getElem?_append_left (by omega)] at hshown
      exact h.last shown hpos hshown

end Clock

section

variable [Sha256] [Schnorr] [ClockBuiltin] [Serde Timestamp] {exec : Executor}

open Clock

/-- **What the clock invocation does.**  It goes one on from what the first clock shows; a
clock whose period divides the new number is written, any other keeps its data. -/
theorem transition_clocks (hruns : Executes exec ClockBuiltin.clock Clock.main)
    (hserde : ∀ timestamp : Timestamp, fromWords (toWords timestamp) = some timestamp)
    {state state' : V03State} {blockId : BlockId} {time timestamp : Timestamp}
    (h : transitionFromPublicTransaction exec state (clockInvocation timestamp) blockId time
      = .ok state') :
    ∃ (prevData : ClockAccountData) (current : U64),
      (∀ clock ∈ clocks, clock.1 = 1 →
        ClockAccountData.fromBytes (state.getAccountById clock.2).data.bytes = some prevData) ∧
      current.val = prevData.blockId.val + 1 ∧
      ∀ clock ∈ clocks, (state'.getAccountById clock.2).data.bytes
        = if clock.1 ∣ current.val then (ClockAccountData.mk current timestamp).toBytes
          else (state.getAccountById clock.2).data.bytes := by
  obtain ⟨diff, hdiff, happly⟩ := V03State.apply_ok h
  have haccepted := fromPublicTransaction_ok hdiff
  obtain ⟨output, mid, hstep, hlast⟩ := PublicExecution.run_singleton haccepted.run
  obtain ⟨time', pre01, pre10, pre50, prevData, current, post01, post10, post50, htime, hpres,
    hprev, hcurrent, hpost01, hpost10, hpost50, rfl⟩ :=
    Clock.main_ok (hruns.of_execute rfl hstep.executed)
  obtain rfl : timestamp = time' := some.inj ((hserde timestamp).symm.trans htime)
  -- no further call: the diff is what the step leaves
  have hmid : mid = diff.publicDiff := hlast rfl
  have hafter : ∀ accountId, state'.getAccountById accountId = overlay state mid accountId := by
    intro accountId
    rw [hmid]
    refine (applyStateDiff_funds happly haccepted.program accountId).2 ?_
    rw [haccepted.signers]
    exact not_mem_nil
  have hwritten : ∀ pre period post, (pre, post) ∈ [pre01, pre10, pre50].zip
        [post01, post10, post50] →
      updateIfMultiple pre period current (ClockAccountData.mk current timestamp).toBytes
        = some post →
      (state'.getAccountById pre.accountId).data.bytes
        = if period ∣ current.val then (ClockAccountData.mk current timestamp).toBytes
          else pre.account.data.bytes := by
    intro pre period post hpair hupdate
    obtain ⟨account, rfl, hdata⟩ := updateIfMultiple_ok hupdate
    rw [hafter, hstep.overlay_new hpair, hdata]
  obtain ⟨rfl, hpres'⟩ := cons.inj hpres
  obtain ⟨rfl, hpres''⟩ := cons.inj hpres'
  obtain ⟨rfl, -⟩ := cons.inj hpres''
  have hclocks : ∀ clock ∈ clocks, clock = clocks[0] ∨ clock = clocks[1] ∨ clock = clocks[2] := by
    decide
  refine ⟨prevData, current, ?_, hcurrent, ?_⟩
  · intro clock hclock hone
    have hfirst : ∀ clock ∈ clocks, clock.1 = 1 → clock = clocks[0] := by decide
    rw [hfirst clock hclock hone]
    exact hprev
  · intro clock hclock
    rcases hclocks clock hclock with rfl | rfl | rfl
    · exact hwritten _ 1 post01 (by simp) hpost01
    · exact hwritten _ 10 post10 (by simp) hpost10
    · exact hwritten _ 50 post50 (by simp) hpost50

variable [Builtins] [Receipts] [ImageId]

/-- The transactions leave the data of the clocks alone. -/
def KeepClocks (exec : Executor) (block : Block) : V03State → List (LeeTransaction × ℕ) → Prop
  | _, [] => True
  | state, entry :: rest =>
    ∀ state', applyUserTransaction exec block state entry = .ok state' →
      (∀ accountId ∈ clockAccountIds,
        (state'.getAccountById accountId).data = (state.getAccountById accountId).data) ∧
      KeepClocks exec block state' rest

omit [ClockBuiltin] [Serde Timestamp] in
theorem KeepClocks.foldlM {block : Block} {txs : List (LeeTransaction × ℕ)}
    {state state' : V03State} (hkeep : KeepClocks exec block state txs)
    (h : txs.foldlM (applyUserTransaction exec block) state = .ok state') :
    ∀ accountId ∈ clockAccountIds,
      (state'.getAccountById accountId).data = (state.getAccountById accountId).data := by
  induction txs generalizing state with
  | nil =>
    cases h
    exact fun _ _ => rfl
  | cons entry rest ih =>
    obtain ⟨mid, hentry, hrest⟩ := foldlM_cons_eq_ok.mp h
    obtain ⟨hfirst, hkeep⟩ := hkeep mid hentry
    intro accountId hmem
    exact (ih hkeep hrest accountId hmem).trans (hfirst accountId hmem)

/-- No transaction of the blocks, other than the clock invocations, modifies the clocks. -/
def Undisturbed (exec : Executor) (start : Position) (blocks : List Block) : Prop :=
  ∀ done block, done ++ [block] <+: blocks → ∀ position,
    replay (advance exec) start done = some position →
      KeepClocks exec block position.2 block.body.transactions.dropLast.zipIdx

/-- **Clock accounts track the chain.**  From a state whose clocks are at zero, apply any chain
of blocks whose other transactions do not modify the clocks.  The clock of every block shows
the number of blocks and the timestamp of the last one, and the clocks of every tenth and
every fiftieth block show the last block that was theirs. -/
theorem clocks_track_chain (hruns : Executes exec ClockBuiltin.clock Clock.main)
    (hserde : ∀ timestamp : Timestamp, fromWords (toWords timestamp) = some timestamp)
    {start position : Position} {blocks : List Block}
    (hstart : ∀ accountId ∈ clockAccountIds,
      (start.2.getAccountById accountId).data.bytes = ClockAccountData.zero.toBytes)
    (hreplay : replay (advance exec) start blocks = some position)
    (hundisturbed : Undisturbed exec start blocks) :
    ∀ clock ∈ clocks, Shows clock.1 ClockAccountData.zero.toBytes blocks
      (position.2.getAccountById clock.2).data.bytes := by
  have hperiods : ∀ clock ∈ clocks, 0 < clock.1 ∧ clock.2 ∈ clockAccountIds := by decide
  induction blocks using reverseRecOn generalizing position with
  | nil =>
    obtain rfl : start = position := some.inj hreplay
    intro clock hclock
    rw [hstart clock.2 (hperiods clock hclock).2]
    exact .nil _ _
  | append_singleton blocks block ih =>
    obtain ⟨mid, hmid, hlast⟩ := replay_append_eq_some.mp hreplay
    rw [replay_singleton] at hlast
    obtain ⟨state', happly, rfl⟩ := advance_eq_some.mp hlast
    obtain ⟨_, -, happly⟩ := bind_eq_ok.mp happly
    obtain ⟨before, -, hbefore, htick⟩ := applyBlockToState_ok happly
    have hkept := (hundisturbed blocks block (List.prefix_refl _) mid hmid).foldlM hbefore
    have hshown := ih hmid fun done next hstart => hundisturbed done next
      (hstart.trans (prefix_append _ _))
    obtain ⟨prevData, current, hprev, hcurrent, hclocks⟩ := transition_clocks hruns hserde htick
    -- the count goes on from the clock of every block
    have hcount : current.val = blocks.length + 1 := by
      have hfirst : clocks[0] ∈ clocks ∧ clocks[0].1 = 1 := by decide
      have hdata := hprev clocks[0] hfirst.1 hfirst.2
      rw [hkept _ (hperiods _ hfirst.1).2] at hdata
      rw [hcurrent, (hshown clocks[0] hfirst.1).count hdata]
    intro clock hclock
    refine (hshown clock hclock).next (hperiods clock hclock).1 hcount ?_
    rw [hclocks clock hclock, hkept clock.2 (hperiods clock hclock).2]

end

/-! Ten blocks, with their digests. -/

namespace Decade

def hashes : List ℕ :=
  [ 0xa6b5575ea96aa8d300b486016eaf7a8e919cfc97cac5d73cc58518dc97511bc5,
    0x782980fe14df95dedc1b68535b3553712885d17c596952edba09edddc85c1d15,
    0x63b79ef29bd301f91bc1787d33873d8f0365e1ab4f0a42a6645bf3ef51ec7fb9,
    0x1a670ce0eff1b98d33c3ce2611ad39962c29d452aff70eef99c48bbde3cafb90,
    0x1ae15850ce80048be784ea6271acc60b425745a0c97b3b5e9b273530a3967290,
    0x5c1d00277325d28fadd7bc352d08108da5dbad0cdcd00e58d1e1d5c9827d797b,
    0x6c87751623adf8f9355bbbfd754d3ca39a6e7114a6507cc43abdeed4decc3423,
    0x6ebcfde3deb168e4934fd424c9302fb6dd9bcfe632ff56788599b8023d1384b6,
    0xca9eda31528d57ef8c8a6f93de7e0c8f5a139bbc9c7b96e18ad87176f49198ea,
    0xb88f51a1e6757bcb798a76d252a9da44a99c0ba46afbf0e4e518aec40ed4ff6f ]

/-- Block `i + 1` has the timestamp `10 * (i + 1)`. -/
def blocks : List Block := ((0 :: hashes).zip hashes).zipIdx.map fun ((parent, hash), i) =>
  Fork.block (Fin.ofNat _ (i + 1)) (ofHex parent) (Fin.ofNat _ (10 * (i + 1))) hash

@[reducible] def sha : Sha256 := .ofTable (blocks.map fun block =>
  (block.hashableData.hashBytes, block.header.hash))

end Decade

section

open Idle Fork

local instance decadeSha : Sha256 := Decade.sha

/-- After ten blocks the clock of every tenth block shows the tenth. -/
theorem decade_shown :
    ∃ position, replay (advance exec) (none, state) Decade.blocks = some position ∧
      (∀ clock ∈ Clock.clocks, Clock.Shows clock.1 Clock.ClockAccountData.zero.toBytes
        Decade.blocks (position.2.getAccountById clock.2).data.bytes) ∧
      ∀ clock ∈ Clock.clocks, clock.1 = 10 → ∃ shown : Clock.ClockAccountData,
        (position.2.getAccountById clock.2).data.bytes = shown.toBytes ∧
          shown.blockId.val = 10 ∧ shown.timestamp = 100 := by
  obtain ⟨position, hreplay⟩ := isSome_iff_exists.mp (by decide +kernel :
    (replay (advance exec) (none, state) Decade.blocks).isSome = true)
  have hclockOnly : ∀ block ∈ Decade.blocks, block.body.transactions.dropLast = [] := by
    decide +kernel
  have hundisturbed : Undisturbed exec (none, state) Decade.blocks := by
    intro done block hstart position _
    rw [hclockOnly block (hstart.subset (by simp))]
    exact trivial
  have hruns : Executes exec ClockBuiltin.clock Clock.main := executes_ofGuests rfl
  have hstart : ∀ accountId ∈ clockAccountIds,
      (state.getAccountById accountId).data.bytes = Clock.ClockAccountData.zero.toBytes := by
    decide +kernel
  have hshown := clocks_track_chain hruns Serde.fromWords_toWords_u64 hstart hreplay hundisturbed
  refine ⟨position, hreplay, hshown, fun clock hclock hten => ?_⟩
  have hlength : Decade.blocks.length = 10 := by decide +kernel
  obtain ⟨last, hlast⟩ := map_eq_some_iff.mp (by decide +kernel :
    Decade.blocks[9]?.map (fun block => block.header.timestamp) = some 100)
  have hthis := (hshown clock hclock).last last
  rw [hten, hlength] at hthis
  obtain ⟨shown, hdata, hcount, htime⟩ := hthis (by decide) hlast.1
  exact ⟨shown, hdata, hcount, htime.trans hlast.2⟩

end

end Lssa
