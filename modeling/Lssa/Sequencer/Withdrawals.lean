/-
The reconciliation of withdrawals (`lez/storage/src/sequencer`).

A store update takes the withdraw events of the L1 off the counts of unseen withdrawals, kept by
reconciliation key, and reports those that match nothing (`stageConsumedWithdrawals`); then it
counts the withdraw intents of its blocks (`stageNewWithdrawIntents`).  Both read the cells of
the disk and write into one batch.

* `storeWithdrawals_at` — an update, key by key;
* `unmatched_count_iff` — the report is right iff there is no cell or an intent for every event.
-/
import Mathlib.Algebra.Group.Nat.Defs
import Mathlib.Data.List.Induction
import Lssa.Library.Outcome
import Lssa.Library.Runs

open Outcome Runs List

namespace Lssa.Withdrawals

variable {κ : Type} [DecidableEq κ]

/-! ### The store -/

/-- The `UnseenWithdrawCountCell`s, by reconciliation key. -/
abbrev UnseenWithdrawCounts (κ : Type) := κ → Option ℕ

/-- The writes that are staged, a put or a delete each. -/
abbrev WriteBatch (κ : Type) := List (κ × Option ℕ)

/-- Of the writes to one key the last one counts. -/
def UnseenWithdrawCounts.write (cells : UnseenWithdrawCounts κ) (batch : WriteBatch κ) :
    UnseenWithdrawCounts κ :=
  fun key => ((batch.filter (·.1 = key)).getLast?.map Prod.snd).getD (cells key)

/-- One more occurrence of a key; a list is too short for the count to saturate. -/
def tally (withdrawal : κ) : List (κ × ℕ) → List (κ × ℕ)
  | [] => [(withdrawal, 1)]
  | (key, times) :: rest =>
    if key = withdrawal then (key, times + 1) :: rest else (key, times) :: tally withdrawal rest

def occurrences (withdrawals : List κ) : List (κ × ℕ) :=
  withdrawals.foldl (fun found withdrawal => tally withdrawal found) []

/-- The events that match nothing, and the writes. -/
def stageConsumedWithdrawals (cells : UnseenWithdrawCounts κ) (withdrawals : List κ) :
    List κ × WriteBatch κ :=
  ((occurrences withdrawals).flatMap fun (withdrawal, times) =>
      let matched := min times ((cells withdrawal).elim 0 (· + 1))
      replicate (times - matched) withdrawal,
    (occurrences withdrawals).flatMap fun (withdrawal, times) =>
      match cells withdrawal with
      | some count => [(withdrawal, if times ≤ count then some (count - times) else none)]
      | none => [])

/-- The writes.  A failed update writes nothing, so the checks can come before them. -/
def stageNewWithdrawIntents (cells : UnseenWithdrawCounts κ) (withdrawals : List κ) :
    Except String (WriteBatch κ) := do
  let next := fun (withdrawal, times) => (cells withdrawal).getD 0 + times
  (occurrences withdrawals).forM fun entry =>
    ensure (next entry < 2 ^ 64) "Unseen withdraw counter overflow"
  return (occurrences withdrawals).flatMap fun entry => [(entry.1, some (next entry))]

/-- The withdrawals of a `StoreUpdate`. -/
structure WithdrawUpdate (κ : Type) where
  newWithdrawIntents : List κ
  consumedWithdrawals : List κ

/-- What `store_update` does with the withdrawals, and what it reports. -/
def storeWithdrawals (cells : UnseenWithdrawCounts κ) (update : WithdrawUpdate κ) :
    Except String (List κ × UnseenWithdrawCounts κ) := do
  let (unmatched, batch) := stageConsumedWithdrawals cells update.consumedWithdrawals
  let puts ← stageNewWithdrawIntents cells update.newWithdrawIntents
  return (unmatched, cells.write (batch ++ puts))

/-! ### What an update does -/

variable {cells cells' : UnseenWithdrawCounts κ} {update : WithdrawUpdate κ} {unmatched : List κ}

theorem filter_tally (withdrawal key : κ) (found : List (κ × ℕ)) :
    (tally withdrawal found).filter (·.1 = key) =
      if key = withdrawal then tally key (found.filter (·.1 = key))
      else found.filter (·.1 = key) := by
  induction found with
  | nil => grind [tally]
  | cons entry found ih => grind [tally]

/-- A key of the list is found once, with its count. -/
theorem filter_occurrences (withdrawals : List κ) (key : κ) :
    (occurrences withdrawals).filter (·.1 = key) =
      if withdrawals.count key = 0 then [] else [(key, withdrawals.count key)] := by
  induction withdrawals using reverseRecOn with
  | nil => rfl
  | append_singleton withdrawals withdrawal ih =>
    have happend : occurrences (withdrawals ++ [withdrawal])
        = tally withdrawal (occurrences withdrawals) := by simp [occurrences]
    rw [happend, filter_tally, ih]
    grind [tally]

/-- What the loop yields for a key. -/
theorem filter_flatMap_occurrences {α : Type} {f : κ × ℕ → List α} {p : α → Bool} (key : κ)
    (hp : ∀ entry, ∀ a ∈ f entry, p a = decide (entry.1 = key)) (withdrawals : List κ) :
    ((occurrences withdrawals).flatMap f).filter p =
      if withdrawals.count key = 0 then [] else f (key, withdrawals.count key) := by
  have hall : ∀ found : List (κ × ℕ),
      (found.flatMap f).filter p = (found.filter (·.1 = key)).flatMap f := by
    intro found
    induction found with
    | nil => rfl
    | cons entry found ih =>
      rw [flatMap_cons, filter_append, ih]
      by_cases hkey : entry.1 = key
      · rw [filter_eq_self.mpr (by grind)]
        simp [hkey]
      · rw [filter_eq_nil_iff.mpr (by grind)]
        simp [hkey]
  rw [hall, filter_occurrences]
  split <;> simp

/-- **An update at a key.**  A cell matches one event more than it counts, and intents are
counted on top of what was there before the events. -/
theorem storeWithdrawals_at (h : storeWithdrawals cells update = .ok (unmatched, cells'))
    (key : κ) :
    unmatched.count key = update.consumedWithdrawals.count key - (cells key).elim 0 (· + 1) ∧
      (cells' key).getD 0 = if update.newWithdrawIntents.count key = 0
        then (cells key).getD 0 - update.consumedWithdrawals.count key
        else (cells key).getD 0 + update.newWithdrawIntents.count key := by
  obtain ⟨_, hputs, h⟩ := bind_eq_ok.mp h
  obtain ⟨_, -, hputs⟩ := bind_eq_ok.mp hputs
  cases hputs
  cases h
  constructor
  · show count key (flatMap _ _) = _
    rw [count_eq_countP, countP_eq_length_filter, filter_flatMap_occurrences key]
    · split <;> simp <;> omega
    · rintro ⟨withdrawal, times⟩ a hmem
      rw [eq_of_mem_replicate hmem]
      rfl
  · rw [UnseenWithdrawCounts.write, filter_append, filter_flatMap_occurrences key,
      filter_flatMap_occurrences key]
    · by_cases hnew : update.newWithdrawIntents.count key = 0
      · rw [if_pos hnew, if_pos hnew, append_nil]
        dsimp only
        cases cells key <;> grind
      · rw [if_neg hnew, if_neg hnew, getLast?_concat]
        rfl
    · simp
    · grind

/-! ### Runs -/

/-- An update that goes through. -/
def Stores (update : WithdrawUpdate κ) (cells cells' : UnseenWithdrawCounts κ) : Prop :=
  ∃ unmatched, storeWithdrawals cells update = .ok (unmatched, cells')

/-- The intents for a key that wait for an event: an event takes one that an earlier update
recorded, while there is one. -/
def reconcile (key : κ) (waiting : ℕ) (update : WithdrawUpdate κ) : ℕ :=
  waiting - update.consumedWithdrawals.count key + update.newWithdrawIntents.count key

def outstanding (key : κ) (updates : List (WithdrawUpdate κ)) : ℕ :=
  updates.foldl (reconcile key) 0

/-- A cell never falls below the intents that wait. -/
theorem foldl_reconcile_le {updates : List (WithdrawUpdate κ)} {start : UnseenWithdrawCounts κ}
    (hrun : Run Stores start updates cells) {key : κ} {waiting : ℕ}
    (hle : waiting ≤ (start key).getD 0) :
    updates.foldl (reconcile key) waiting ≤ (cells key).getD 0 := by
  induction hrun generalizing waiting with
  | nil => exact hle
  | cons hstep _ ih =>
    obtain ⟨unmatched, hstep⟩ := hstep
    refine ih ?_
    rw [(storeWithdrawals_at hstep key).2, reconcile]
    split <;> omega

/-- **When the report is right.**  After any updates of a fresh store, the next one reports the
events for a key that exceed the intents outstanding, if and only if the store has no cell for
the key or they do not exceed them. -/
theorem unmatched_count_iff {updates : List (WithdrawUpdate κ)}
    (hrun : Run Stores (fun _ => none) updates cells)
    (h : storeWithdrawals cells update = .ok (unmatched, cells')) (key : κ) :
    unmatched.count key = update.consumedWithdrawals.count key - outstanding key updates ↔
      cells key = none ∨ update.consumedWithdrawals.count key ≤ outstanding key updates := by
  have hle : outstanding key updates ≤ (cells key).getD 0 := foldl_reconcile_le hrun (Nat.zero_le _)
  rw [(storeWithdrawals_at h key).1]
  cases hcell : cells key <;> simp [hcell] at hle ⊢ <;> omega

/-- One intent, and an event for it in each of the next two updates: both match. -/
theorem one_intent_matches_twice : ∃ cells cells' : UnseenWithdrawCounts ℕ,
    Run Stores (fun _ => none) [⟨[7], []⟩, ⟨[], [7]⟩] cells ∧
      storeWithdrawals cells ⟨[], [7]⟩ = .ok ([], cells') ∧
      outstanding 7 [⟨[7], []⟩, ⟨[], [7]⟩] = 0 :=
  ⟨_, _, .cons ⟨_, rfl⟩ (.cons ⟨_, rfl⟩ (.nil _)), rfl, rfl⟩

/-- The first of the two events is reported rightly. -/
theorem one_intent_matches_once : ∃ cells cells' : UnseenWithdrawCounts ℕ,
    (Run Stores (fun _ => none) [⟨[7], []⟩] cells ∧
      storeWithdrawals cells ⟨[], [7]⟩ = .ok ([], cells')) ∧
      [].count 7 = [7].count 7 - outstanding 7 [⟨[7], []⟩] := by
  refine Exists₂.imp (fun _ _ h => ⟨h, ?_⟩) ⟨_, _, .cons ⟨_, rfl⟩ (.nil _), rfl⟩
  exact (unmatched_count_iff h.1 h.2 7).mpr (.inr (by decide))

end Lssa.Withdrawals
