/-
Maps kept as lists sorted by key.

A `SortedMap` is what a `BTreeMap` is to those who use it: it is determined by its lookups
(`SortedMap.ext_lookup`), and its entries are listed in the order of the keys.  That the list
is sorted is a field, so an unsorted map cannot be built.

* `lookup_insert`, `lookup_erase` — what is found after an update;
* `ofList_entries` — a map is rebuilt from its own entries, whatever else would be read from
  another list;
* `length_insert_of_lookup`, `length_ofList_le` — a value put over another adds no entry.
-/
import Mathlib.Order.Lattice
import Mathlib.Data.List.Basic
import Mathlib.Data.List.Perm.Basic
import Mathlib.Data.List.Nodup

/-- A map as a list of entries sorted by key. -/
structure SortedMap (α β : Type) [LT α] where
  entries : List (α × β)
  sorted : entries.Pairwise fun a b => a.1 < b.1

namespace SortedMap

variable {α β : Type} [LinearOrder α] {m m' : SortedMap α β} {k k' : α} {v v' : β}

def empty : SortedMap α β := ⟨[], .nil⟩

/-- The value under a key. -/
def lookup (m : SortedMap α β) (k : α) : Option β :=
  (m.entries.find? fun e => e.1 = k).map Prod.snd

/-- Put a value under a key, over the one that is there. -/
def insert (m : SortedMap α β) (k : α) (v : β) : SortedMap α β where
  entries := (m.entries.filter fun e => e.1 < k) ++ (k, v) :: m.entries.filter fun e => k < e.1
  sorted := by
    refine List.pairwise_append.mpr ⟨m.sorted.filter _, List.pairwise_cons.mpr ⟨?_, ?_⟩, ?_⟩
    · intro e he
      exact of_decide_eq_true (List.mem_filter.mp he).2
    · exact m.sorted.filter _
    · intro e he e' he'
      have hlt : e.1 < k := of_decide_eq_true (List.mem_filter.mp he).2
      rcases List.mem_cons.mp he' with rfl | he'
      · exact hlt
      · exact hlt.trans (of_decide_eq_true (List.mem_filter.mp he').2)

/-- Remove a key. -/
def erase (m : SortedMap α β) (k : α) : SortedMap α β where
  entries := m.entries.filter fun e => e.1 ≠ k
  sorted := m.sorted.filter _

/-- The map of a list of entries, the later over the earlier. -/
def ofList (entries : List (α × β)) : SortedMap α β :=
  entries.foldl (fun m e => m.insert e.1 e.2) empty

theorem nodup_keys (m : SortedMap α β) : (m.entries.map Prod.fst).Nodup := by
  rw [List.Nodup, List.pairwise_map]
  exact m.sorted.imp fun hlt => hlt.ne

/-- A value is found under a key if the map has this entry. -/
theorem lookup_eq_some : m.lookup k = some v ↔ (k, v) ∈ m.entries := by
  unfold lookup
  rw [Option.map_eq_some_iff]
  constructor
  · rintro ⟨e, hfind, rfl⟩
    have hkey : e.1 = k := by simpa using List.find?_some hfind
    rw [← hkey]
    exact List.mem_of_find?_eq_some hfind
  · intro hmem
    obtain ⟨e, hfind⟩ : ∃ e, (m.entries.find? fun e => decide (e.1 = k)) = some e := by
      rw [← Option.isSome_iff_exists, List.find?_isSome]
      exact ⟨(k, v), hmem, decide_eq_true rfl⟩
    refine ⟨e, hfind, ?_⟩
    have hkey : e.1 = k := by simpa using List.find?_some hfind
    have hsame : e = (k, v) :=
      List.inj_on_of_nodup_map m.nodup_keys (List.mem_of_find?_eq_some hfind) hmem hkey
    rw [hsame]

theorem mem_insert {e : α × β} :
    e ∈ (m.insert k v).entries ↔ e = (k, v) ∨ (e ∈ m.entries ∧ e.1 ≠ k) := by
  unfold insert
  simp only [List.mem_append, List.mem_cons, List.mem_filter, decide_eq_true_eq]
  constructor
  · rintro (⟨hmem, hlt⟩ | rfl | ⟨hmem, hlt⟩)
    · exact .inr ⟨hmem, hlt.ne⟩
    · exact .inl rfl
    · exact .inr ⟨hmem, hlt.ne'⟩
  · rintro (rfl | ⟨hmem, hne⟩)
    · exact .inr (.inl rfl)
    · rcases lt_or_gt_of_ne hne with hlt | hlt
      · exact .inl ⟨hmem, hlt⟩
      · exact .inr (.inr ⟨hmem, hlt⟩)

theorem lookup_insert : (m.insert k v).lookup k' = if k' = k then some v else m.lookup k' := by
  refine Option.ext fun w => ?_
  rw [lookup_eq_some, mem_insert]
  by_cases hk : k' = k
  · subst hk
    rw [if_pos rfl, Option.some_inj]
    simp [eq_comm]
  · rw [if_neg hk, lookup_eq_some]
    simp [hk]

theorem lookup_erase : (m.erase k).lookup k' = if k' = k then none else m.lookup k' := by
  refine Option.ext fun w => ?_
  rw [lookup_eq_some, erase, List.mem_filter]
  by_cases hk : k' = k
  · rw [if_pos hk]
    simp [hk]
  · rw [if_neg hk, lookup_eq_some]
    simp [hk]

/-- Maps with the same lookups are the same. -/
theorem ext_lookup (h : ∀ k, m.lookup k = m'.lookup k) : m = m' := by
  have hmem : ∀ e, e ∈ m.entries ↔ e ∈ m'.entries := by
    rintro ⟨k, v⟩
    rw [← lookup_eq_some, ← lookup_eq_some, h]
  have hnodup : ∀ m : SortedMap α β, m.entries.Nodup := fun m => m.nodup_keys.of_map _
  have hentries : m.entries = m'.entries := by
    refine List.Perm.eq_of_pairwise ?_ m.sorted m'.sorted
      ((List.perm_ext_iff_of_nodup (hnodup m) (hnodup m')).mpr hmem)
    intro a b _ _ hab hba
    exact absurd (hab.trans hba) (lt_irrefl _)
  cases m
  cases m'
  cases hentries
  rfl

/-- **A map is rebuilt from its entries.** -/
theorem ofList_entries (m : SortedMap α β) : ofList m.entries = m := by
  -- after a beginning of the entries, just these are found
  have hfold : ∀ (l : List (α × β)) (m' : SortedMap α β),
      (l.map Prod.fst).Nodup → ∀ k v,
        (l.foldl (fun m e => m.insert e.1 e.2) m').lookup k = some v ↔
          (k, v) ∈ l ∨ (k ∉ l.map Prod.fst ∧ m'.lookup k = some v) := by
    intro l
    induction l with
    | nil => simp
    | cons e l ih =>
      intro m' hnodup k v
      obtain ⟨hnot, hrest⟩ := List.nodup_cons.mp hnodup
      rw [List.foldl_cons, ih _ hrest, lookup_insert]
      by_cases hk : k = e.1
      · subst hk
        have habsent : (e.1, v) ∉ l := fun hmem => hnot (List.mem_map.mpr ⟨_, hmem, rfl⟩)
        rw [if_pos rfl]
        constructor
        · rintro (hmem | ⟨-, hv⟩)
          · exact absurd hmem habsent
          · exact .inl (by rw [← Option.some.inj hv]; exact List.mem_cons_self)
        · rintro (hmem | ⟨hfresh, -⟩)
          · rcases List.mem_cons.mp hmem with heq | hmem
            · exact .inr ⟨hnot, by rw [← heq]⟩
            · exact absurd hmem habsent
          · exact absurd List.mem_cons_self hfresh
      · rw [if_neg hk]
        have hne : ∀ w, (k, w) ≠ e := fun w heq => hk (congrArg Prod.fst heq)
        simp only [List.mem_cons, hne v, false_or, List.map_cons, hk]
  refine ext_lookup fun k => Option.ext fun v => ?_
  have hnone : (empty : SortedMap α β).lookup k = none := rfl
  rw [ofList, hfold m.entries empty m.nodup_keys, hnone, ← lookup_eq_some]
  simp

/-! ### Lengths -/

/-- Every entry of a list is before, at or after a key. -/
theorem length_filter_trichotomy (l : List (α × β)) (k : α) :
    (l.filter fun e => e.1 < k).length + (l.filter fun e => e.1 = k).length +
      (l.filter fun e => k < e.1).length = l.length := by
  induction l with
  | nil => rfl
  | cons e l ih =>
    rcases lt_trichotomy e.1 k with h | h | h
    · simp only [List.filter_cons, h, h.ne, h.not_gt, decide_true, decide_false, if_true,
        List.length_cons, Bool.false_eq_true, if_false]
      omega
    · simp only [List.filter_cons, h, lt_irrefl, decide_true, decide_false, if_true,
        List.length_cons, Bool.false_eq_true, if_false]
      omega
    · simp only [List.filter_cons, h, h.ne', h.not_gt, decide_true, decide_false, if_true,
        List.length_cons, Bool.false_eq_true, if_false]
      omega

theorem length_insert (m : SortedMap α β) (k : α) (v : β) :
    (m.insert k v).entries.length + (m.entries.filter fun e => e.1 = k).length
      = m.entries.length + 1 := by
  have hsplit := length_filter_trichotomy m.entries k
  rw [insert, List.length_append, List.length_cons]
  omega

/-- Putting a value over another makes the map no longer. -/
theorem length_insert_of_lookup (h : m.lookup k = some v) :
    (m.insert k v').entries.length ≤ m.entries.length := by
  have hlength := length_insert m k v'
  have hpos : 0 < (m.entries.filter fun e => e.1 = k).length :=
    List.length_pos_of_mem (List.mem_filter.mpr ⟨lookup_eq_some.mp h, decide_eq_true rfl⟩)
  omega

theorem length_ofList_le (l : List (α × β)) : (ofList l).entries.length ≤ l.length := by
  have hfold : ∀ (l : List (α × β)) (m : SortedMap α β),
      (l.foldl (fun m e => m.insert e.1 e.2) m).entries.length ≤ m.entries.length + l.length := by
    intro l
    induction l with
    | nil => exact fun m => Nat.le_refl _
    | cons e l ih =>
      intro m
      have hinsert := length_insert m e.1 e.2
      have hrest := ih (m.insert e.1 e.2)
      rw [List.foldl_cons, List.length_cons]
      omega
  have hempty : (ofList l).entries.length ≤ 0 + l.length := hfold l empty
  omega

end SortedMap
