/-
Finite maps with a default, and their totals.

A ledger is a finite map read with a default value: a key that is not in the
map holds the default.  `total f m` adds up a measure `f` over the entries of
the map.  When the default measures zero the total depends only on what is read
at each key, whatever the entries are (`total_eq_finsum`), so a transfer between
finitely many keys that leaves their sum alone leaves the total alone
(`finsum_add_sum`).
-/
import Mathlib.Data.List.AList
import Mathlib.Algebra.BigOperators.Finprod

namespace Ledger

open Function (support)

/-- A finite map from `α` to `β`. -/
abbrev Map (α β : Type) := AList fun _ : α => β

variable {α β : Type} [DecidableEq α]

/-- The value at `k`, or the default `d`. -/
def get (d : β) (m : Map α β) (k : α) : β := (m.lookup k).getD d

@[simp] theorem get_empty (d : β) (k : α) : get d (∅ : Map α β) k = d := by
  simp [get]

theorem get_insert (d : β) (m : Map α β) (k j : α) (v : β) :
    get d (m.insert k v) j = if j = k then v else get d m j := by
  unfold get
  by_cases h : j = k
  · subst h
    rw [AList.lookup_insert, if_pos rfl, Option.getD_some]
  · rw [AList.lookup_insert_ne h, if_neg h]

/-- Write a list of key–value pairs, the later over the earlier. -/
def insertAll (m : Map α β) (l : List (α × β)) : Map α β :=
  l.foldl (fun m e => m.insert e.1 e.2) m

variable {m m' : Map α β} {k j : α} {v d : β} {f : β → ℕ} {ks : List α} {g g' : α → ℕ}

@[simp] theorem insertAll_nil (m : Map α β) : insertAll m [] = m := rfl

@[simp] theorem insertAll_cons (m : Map α β) (e : α × β) (l : List (α × β)) :
    insertAll m (e :: l) = insertAll (m.insert e.1 e.2) l := rfl

/-- A key that is not written keeps what it held. -/
theorem lookup_insertAll_of_notMem {l : List (α × β)} (h : k ∉ l.map Prod.fst) :
    (insertAll m l).lookup k = m.lookup k := by
  induction l generalizing m with
  | nil => rfl
  | cons e l ih =>
    rw [List.map_cons, List.mem_cons, not_or] at h
    rw [insertAll_cons, ih h.2, AList.lookup_insert_ne h.1]

/-- When the keys written are distinct, each holds the value written there. -/
theorem lookup_insertAll_of_mem {l : List (α × β)} (hl : (l.map Prod.fst).Nodup) (h : (k, v) ∈ l) :
    (insertAll m l).lookup k = some v := by
  induction l generalizing m with
  | nil => cases h
  | cons e l ih =>
    rw [List.map_cons, List.nodup_cons] at hl
    rcases List.mem_cons.mp h with rfl | h
    · rw [insertAll_cons, lookup_insertAll_of_notMem hl.1, AList.lookup_insert]
    · rw [insertAll_cons, ih hl.2 h]

/-- Writing all entries of a map reads as the map, and below it as before. -/
theorem lookup_insertAll_entries (m n : Map α β) (k : α) :
    (insertAll m (n.entries.map fun e => (e.1, e.2))).lookup k = (n.lookup k).or (m.lookup k) := by
  have hfst : (n.entries.map fun e => (e.1, e.2)).map Prod.fst = n.keys := by
    rw [List.map_map]
    rfl
  cases hn : n.lookup k with
  | none =>
    have hmem : k ∉ n.keys := AList.lookup_eq_none.mp hn
    rw [lookup_insertAll_of_notMem (hfst ▸ hmem), Option.none_or]
  | some v =>
    have hmem : (k, v) ∈ n.entries.map fun e => (e.1, e.2) :=
      List.mem_map.mpr ⟨⟨k, v⟩, AList.mem_lookup_iff.mp hn, rfl⟩
    rw [lookup_insertAll_of_mem (hfst ▸ n.keys_nodup) hmem, Option.some_or]

/-- Writing at the end of a list of writes. -/
theorem insertAll_append (m : Map α β) (l l' : List (α × β)) :
    insertAll m (l ++ l') = insertAll (insertAll m l) l' :=
  List.foldl_append

/-- What a list of writes leaves at a key: the last of them there. -/
theorem lookup_insertAll (m : Map α β) (l : List (α × β)) (k : α) :
    (insertAll m l).lookup k
      = ((l.filter fun e => e.1 = k).getLast?.map Prod.snd).or (m.lookup k) := by
  induction l using List.reverseRecOn with
  | nil => rfl
  | append_singleton l e ih =>
    rw [insertAll_append, insertAll_cons, insertAll_nil, List.filter_append]
    by_cases hk : e.1 = k
    · subst hk
      simp [AList.lookup_insert]
    · rw [AList.lookup_insert_ne (Ne.symm hk), ih]
      simp [hk]

/-- Remove a list of keys. -/
def eraseAll (m : Map α β) (ks : List α) : Map α β := ks.foldl (fun m k => m.erase k) m

theorem lookup_eraseAll (m : Map α β) (ks : List α) (k : α) :
    (eraseAll m ks).lookup k = if k ∈ ks then none else m.lookup k := by
  induction ks generalizing m with
  | nil => simp [eraseAll]
  | cons j ks ih =>
    rw [show eraseAll m (j :: ks) = eraseAll (m.erase j) ks from rfl, ih]
    by_cases hjk : k = j
    · subst hjk
      rw [AList.lookup_erase, ite_self, if_pos List.mem_cons_self]
    · rw [AList.lookup_erase_ne hjk]
      simp only [List.mem_cons, hjk, false_or]

/-! ### Values recorded once -/

/-- `m'` holds `v` at `k`, which `m` leaves open or holds too. -/
structure Recorded (m : Map α β) (k : α) (v : β) (m' : Map α β) : Prop where
  lookup_eq : ∀ j, m'.lookup j = if j = k then some v else m.lookup j
  agrees : ∀ old, m.lookup k = some old → old = v

theorem recorded_insert (h : m.lookup k = none) :
    Recorded m k v (m.insert k v) := by
  refine ⟨fun j => ?_, fun old hold => absurd (h.symm.trans hold) (by simp)⟩
  by_cases hj : j = k
  · subst hj
    rw [AList.lookup_insert, if_pos rfl]
  · rw [AList.lookup_insert_ne hj, if_neg hj]

theorem recorded_self (h : m.lookup k = some v) :
    Recorded m k v m := by
  refine ⟨fun j => ?_, fun old hold => Option.some.inj (hold.symm.trans h)⟩
  by_cases hj : j = k
  · subst hj
    rw [h, if_pos rfl]
  · rw [if_neg hj]

theorem Recorded.lookup_self (h : Recorded m k v m') :
    m'.lookup k = some v := by
  rw [h.lookup_eq, if_pos rfl]

/-- Recording a value forgets none. -/
theorem Recorded.lookup_of_lookup {w : β} (h : Recorded m k v m') (hj : m.lookup j = some w) :
    m'.lookup j = some w := by
  rw [h.lookup_eq]
  by_cases hjk : j = k
  · subst hjk
    rw [if_pos rfl, h.agrees w hj]
  · rw [if_neg hjk, hj]

/-! ### Totals -/

/-- The measure `f` added up over the entries. -/
def total (f : β → ℕ) (m : Map α β) : ℕ := (m.entries.map fun e => f e.2).sum

theorem support_get_subset (hd : f d = 0) (m : Map α β) :
    (support fun k => f (get d m k)) ⊆ (m.keys.toFinset : Set α) := by
  intro k hk
  by_contra hmem
  have hnone : m.lookup k = none := AList.lookup_eq_none.mpr (by
    simpa [AList.mem_keys] using hmem)
  exact hk (by simp [get, hnone, hd])

theorem finite_support_get (hd : f d = 0) (m : Map α β) :
    (support fun k => f (get d m k)).Finite :=
  Set.Finite.subset (Finset.finite_toSet _) (support_get_subset hd m)

theorem total_eq_sum_keys (f : β → ℕ) (d : β) (m : Map α β) :
    total f m = (m.keys.map fun k => f (get d m k)).sum := by
  rw [show m.keys = m.entries.map Sigma.fst from rfl, List.map_map, total]
  congr 1
  refine List.map_congr_left fun e he => ?_
  have hlook : m.lookup e.1 = some e.2 := AList.mem_lookup_iff.mpr he
  simp [get, hlook]

/-- The total is the sum of what is read at every key. -/
theorem total_eq_finsum (hd : f d = 0) (m : Map α β) :
    total f m = ∑ᶠ k, f (get d m k) := by
  rw [finsum_eq_sum_of_support_subset _ (support_get_subset hd m), List.sum_toFinset _ m.keys_nodup]
  exact total_eq_sum_keys f d m

/-- The total is the sum over any list of the keys. -/
theorem total_eq_sum_of_keys (f : β → ℕ) (d : β) (hks : ks.Nodup) (hmem : ∀ k, k ∈ m ↔ k ∈ ks) :
    total f m = (ks.map fun k => f (get d m k)).sum := by
  have hperm : m.keys.Perm ks := by
    rw [List.perm_ext_iff_of_nodup m.keys_nodup hks]
    intro k
    rw [← AList.mem_keys, hmem]
  rw [total_eq_sum_keys f d]
  exact (hperm.map _).sum_eq

/-- Writing at a key replaces what is measured there. -/
theorem total_insert (hd : f d = 0) (m : Map α β) (k : α) (v : β) :
    total f (m.insert k v) + f (get d m k) = total f m + f v := by
  have hother : ∀ j ∈ m.keys.erase k, f (get d (m.insert k v) j) = f (get d m j) := by
    intro j hj
    have hne : j ≠ k := fun h => m.keys_nodup.not_mem_erase (h ▸ hj)
    rw [get_insert, if_neg hne]
  have hinsert : total f (m.insert k v)
      = f v + ((m.keys.erase k).map fun j => f (get d m j)).sum := by
    rw [total_eq_sum_keys f d, AList.keys_insert, List.map_cons, List.sum_cons, get_insert,
      if_pos rfl, List.map_congr_left hother]
  have hsplit : total f m
      = f (get d m k) + ((m.keys.erase k).map fun j => f (get d m j)).sum := by
    rw [total_eq_sum_keys f d]
    by_cases hk : k ∈ m.keys
    · rw [((List.perm_cons_erase hk).map _).sum_eq, List.map_cons, List.sum_cons]
    · have hnone : m.lookup k = none := AList.lookup_eq_none.mpr hk
      rw [List.erase_of_not_mem hk, get, hnone, Option.getD_none, hd, Nat.zero_add]
  omega

/-- A measure that differs at one key, where it was zero, has so much more as its sum. -/
theorem finsum_eq_add_of_eq_off (hg : (support g).Finite) (hk : g k = 0)
    (hout : ∀ j, j ≠ k → g' j = g j) : ∑ᶠ j, g' j = ∑ᶠ j, g j + g' k := by
  classical
  have hsplit : g' = fun j => g j + if j = k then g' k else 0 := by
    funext j
    by_cases hj : j = k
    · subst hj
      rw [hk, if_pos rfl, Nat.zero_add]
    · rw [hout j hj, if_neg hj, Nat.add_zero]
  have hpoint : (support fun j => if j = k then g' k else 0).Finite :=
    (Set.finite_singleton k).subset fun j hj => by
      by_contra hne
      exact hj (if_neg hne)
  conv_lhs => rw [hsplit]
  rw [finsum_add_distrib hg hpoint, finsum_eq_single _ k fun j hj => if_neg hj, if_pos rfl]

/-- A measure that is larger at one key only, by no more than `c`, has a sum that is larger by no
more than `c`. -/
theorem finsum_le_add {c : ℕ} (hg : (support g).Finite)
    (hg' : (support g').Finite) (h : ∀ j, g' j ≤ g j + if j = k then c else 0) :
    ∑ᶠ j, g' j ≤ ∑ᶠ j, g j + c := by
  classical
  set F : Finset α := (hg.toFinset ∪ hg'.toFinset) ∪ {k} with hF
  have hsub : support g ⊆ (F : Set α) := by
    intro j hj
    simp [hF, hj]
  have hsub' : support g' ⊆ (F : Set α) := by
    intro j hj
    simp [hF, hj]
  rw [finsum_eq_sum_of_support_subset _ hsub, finsum_eq_sum_of_support_subset _ hsub']
  have hk : k ∈ F := Finset.mem_union_right _ (Finset.mem_singleton_self k)
  calc ∑ j ∈ F, g' j ≤ ∑ j ∈ F, (g j + if j = k then c else 0) :=
        Finset.sum_le_sum fun j _ => h j
    _ = ∑ j ∈ F, g j + c := by
        rw [Finset.sum_add_distrib, Finset.sum_ite_eq' F k, if_pos hk]

/-- Two finitely supported measures that agree outside a list of distinct keys differ in their sums
as they do over the list. -/
theorem finsum_add_sum (hks : ks.Nodup) (hg : (support g).Finite)
    (hg' : (support g').Finite) (hout : ∀ k, k ∉ ks → g' k = g k) :
    ∑ᶠ k, g' k + (ks.map g).sum = ∑ᶠ k, g k + (ks.map g').sum := by
  classical
  -- both sums run over the supports and the listed keys
  set F : Finset α := (hg.toFinset ∪ hg'.toFinset) ∪ ks.toFinset with hF
  have hsub : support g ⊆ (F : Set α) := by
    intro k hk
    simp [hF, hk]
  have hsub' : support g' ⊆ (F : Set α) := by
    intro k hk
    simp [hF, hk]
  rw [finsum_eq_sum_of_support_subset _ hsub, finsum_eq_sum_of_support_subset _ hsub']
  have hksF : ks.toFinset ⊆ F := Finset.subset_union_right
  have hrest : ∑ k ∈ F \ ks.toFinset, g' k = ∑ k ∈ F \ ks.toFinset, g k := by
    refine Finset.sum_congr rfl fun k hk => hout k ?_
    have := (Finset.mem_sdiff.mp hk).2
    simpa using this
  have hlisted : ∀ f : α → ℕ, ∑ k ∈ ks.toFinset, f k = (ks.map f).sum :=
    fun f => List.sum_toFinset f hks
  rw [← Finset.sum_sdiff hksF, ← Finset.sum_sdiff hksF, hrest, hlisted, hlisted]
  omega

/-- Two different keys measure no more than the sum. -/
theorem add_le_finsum (hg : (support g).Finite) {i : α} (hne : i ≠ j) :
    g i + g j ≤ ∑ᶠ k, g k := by
  classical
  have hsub : support g ⊆ ((hg.toFinset ∪ {i, j} : Finset α) : Set α) := by
    intro k hk
    simp [hk]
  rw [finsum_eq_sum_of_support_subset _ hsub, ← Finset.sum_pair hne]
  exact Finset.sum_le_sum_of_subset Finset.subset_union_right

end Ledger
