import Mathlib.Data.List.Nodup
import TaskGraph.NameMap

/-!
# Reading maps keyed by names

The names of a map are exactly those that it answers, each listed once. Entries that are inserted
one after another are read back by the last one of each name, so that every entry is read back
where the names are distinct. The entries of a map are those of any list that answers alike, in some
order.
-/
namespace TaskGraph

namespace NameMap.From

variable {α : Type u} {lo : Option String}

theorem get?_self_above {k : String} (m : From α (some k)) : m.get? k = none := by
  cases h : m.get? k with
  | none => rfl
  | some v => exact absurd (above_of_get? h) (String.lt_irrefl k)

theorem contains_iff {m : From α lo} {k : String} : m.contains k ↔ ∃ v, m.get? k = some v :=
  Option.isSome_iff_exists

theorem contains_of_get? {m : From α lo} {k : String} {v : α} (h : m.get? k = some v) :
    m.contains k :=
  contains_iff.2 ⟨v, h⟩

theorem contains_eq_false_iff {m : From α lo} {k : String} :
    m.contains k = false ↔ m.get? k = none := by
  rw [contains, Option.isSome_eq_false_iff, Option.isNone_iff_eq_none]

theorem mem_keys_iff {m : From α lo} {k : String} : k ∈ m.keys ↔ ∃ v, m.get? k = some v := by
  rw [keys_eq_map, List.mem_map]
  constructor
  · rintro ⟨⟨j, v⟩, h, rfl⟩
    exact ⟨v, mem_toList_iff.1 h⟩
  · rintro ⟨v, h⟩
    exact ⟨(k, v), mem_toList_iff.2 h, rfl⟩

theorem mem_keys_iff_contains {m : From α lo} {k : String} : k ∈ m.keys ↔ m.contains k :=
  mem_keys_iff.trans contains_iff.symm

theorem size_eq_length (m : From α lo) : m.size = m.keys.length := by
  induction m with
  | nil => rfl
  | cons k v h rest ih => rw [size, keys, List.length_cons, ih]

theorem mem_values_iff {m : From α lo} {v : α} : v ∈ m.values ↔ ∃ k, m.get? k = some v := by
  rw [values_eq_map, List.mem_map]
  constructor
  · rintro ⟨⟨k, w⟩, h, rfl⟩
    exact ⟨k, mem_toList_iff.1 h⟩
  · rintro ⟨k, h⟩
    exact ⟨(k, v), mem_toList_iff.2 h, rfl⟩

theorem keys_nodup (m : From α lo) : m.keys.Nodup := by
  induction m with
  | nil => exact List.nodup_nil
  | cons k v h rest ih =>
    rw [keys, List.nodup_cons]
    refine ⟨fun hmem => ?_, ih⟩
    obtain ⟨w, hw⟩ := mem_keys_iff.1 hmem
    rw [get?_self_above] at hw
    cases hw

theorem nodup_toList (m : From α lo) : m.toList.Nodup := by
  apply List.Nodup.of_map (·.1)
  rw [← keys_eq_map]
  exact m.keys_nodup

/-- Any list without repetitions that holds exactly the entries holds them in some order. -/
theorem toList_perm {m : From α lo} {entries : List (String × α)} (hnodup : entries.Nodup)
    (h : ∀ k v, (k, v) ∈ entries ↔ m.get? k = some v) : m.toList.Perm entries := by
  rw [List.perm_ext_iff_of_nodup m.nodup_toList hnodup]
  rintro ⟨k, v⟩
  rw [mem_toList_iff, h]

theorem toList_map {β : Type v} (f : String → α → β) (m : From α lo) :
    (m.map f).toList = m.toList.map fun e => (e.1, f e.1 e.2) := by
  induction m with
  | nil => rfl
  | cons k v h rest ih => rw [map, toList, toList, List.map_cons, ih]

theorem map_id (m : From α lo) : (m.map fun _ v => v) = m := by
  ext k v
  rw [get?_map, Option.map_id']

theorem toList_erase_perm {m : From α lo} {k : String} {v : α} (h : m.get? k = some v) :
    m.toList.Perm ((k, v) :: (m.erase k).toList) := by
  apply toList_perm
  · refine List.nodup_cons.2 ⟨fun hmem => ?_, nodup_toList _⟩
    rw [mem_toList_iff, get?_erase, if_pos rfl] at hmem
    cases hmem
  · intro i w
    rw [List.mem_cons, mem_toList_iff, get?_erase, Prod.mk.injEq]
    by_cases hi : i = k
    · simp [hi, h, eq_comm]
    · simp [hi]

theorem toList_filter_perm (p : String → Bool) (m : From α lo) :
    m.toList.Perm ((m.filter fun k _ => p k).toList ++ (m.filter fun k _ => !p k).toList) := by
  apply toList_perm
  · refine (nodup_toList _).append (nodup_toList _) ?_
    rintro ⟨k, v⟩ hin hout
    rw [mem_toList_iff, get?_filter, Option.filter_eq_some_iff] at hin hout
    simp [hin.2] at hout
  · intro k v
    rw [List.mem_append, mem_toList_iff, mem_toList_iff, get?_filter, get?_filter,
      Option.filter_eq_some_iff, Option.filter_eq_some_iff]
    cases p k <;> simp

/-- In a list that is made of one part for each entry, an element that occurs in the part of one
name only is counted there. -/
theorem count_flatMap_toList {β : Type v} [BEq β] [LawfulBEq β] {part : String → α → List β} {b : β}
    {k : String} (hpart : ∀ j v, b ∈ part j v → j = k) (m : From α lo) :
    (m.toList.flatMap fun e => part e.1 e.2).count b =
      (m.get? k).elim 0 fun v => (part k v).count b := by
  induction m with
  | nil => rfl
  | cons j v h rest ih =>
    rw [toList, List.flatMap_cons, List.count_append, ih, get?]
    split
    · rename_i heq
      rw [heq, get?_self_above]
      exact Nat.add_zero _
    · rename_i hne
      rw [List.count_eq_zero.2 fun hmem => hne (hpart j v hmem).symm, Nat.zero_add]

end NameMap.From

namespace NameMap

open From

variable {α : Type u}

@[simp] theorem get?_empty (k : String) : (∅ : NameMap α).get? k = none := rfl

theorem mem_values_insert {m : NameMap α} {k : String} {v w : α}
    (h : w ∈ (m.insert k v).values) : w ∈ m.values ∨ w = v := by
  obtain ⟨j, hj⟩ := From.mem_values_iff.1 h
  rw [get?_insert] at hj
  split at hj
  · exact .inr (Option.some.inj hj).symm
  · exact .inl (From.mem_values_iff.2 ⟨j, hj⟩)

theorem get?_modify (m : NameMap α) (k : String) (f : α → α) (i : String) :
    (m.modify k f).get? i = if i = k then (m.get? i).map f else m.get? i := by
  rw [modify, get?_map]
  by_cases h : i = k
  · simp [h]
  · cases hi : m.get? i <;> simp [h]

/-- The map with some entries inserted one after another. -/
def insertAll (m : NameMap α) (entries : List (String × α)) : NameMap α :=
  entries.foldl (fun m e => m.insert e.1 e.2) m

theorem ofList_eq_insertAll (entries : List (String × α)) :
    ofList entries = insertAll ∅ entries := rfl

theorem get?_insertAll_of_notMem {m : NameMap α} {entries : List (String × α)} {k : String}
    (h : k ∉ entries.map (·.1)) : (m.insertAll entries).get? k = m.get? k := by
  induction entries generalizing m with
  | nil => rfl
  | cons e entries ih =>
    simp only [List.map_cons, List.mem_cons, not_or] at h
    rw [insertAll, List.foldl_cons]
    refine (ih (m := m.insert e.1 e.2) h.2).trans ?_
    rw [get?_insert, if_neg h.1]

/-- What is read of a map is one of the inserted entries or stood there before. -/
theorem mem_or_of_get?_insertAll {m : NameMap α} {entries : List (String × α)} {k : String}
    {v : α} (h : (m.insertAll entries).get? k = some v) :
    (k, v) ∈ entries ∨ m.get? k = some v := by
  induction entries generalizing m with
  | nil => exact .inr h
  | cons e entries ih =>
    rcases ih (m := m.insert e.1 e.2) h with hmem | hget
    · exact .inl (List.mem_cons_of_mem _ hmem)
    · rw [get?_insert] at hget
      by_cases hk : k = e.1
      · rw [if_pos hk, Option.some.injEq] at hget
        left
        rw [hk, ← hget]
        exact List.mem_cons_self
      · rw [if_neg hk] at hget
        exact .inr hget

theorem get?_insertAll_of_mem {m : NameMap α} {entries : List (String × α)} {k : String} {v : α}
    (hnodup : (entries.map (·.1)).Nodup) (h : (k, v) ∈ entries) :
    (m.insertAll entries).get? k = some v := by
  induction entries generalizing m with
  | nil => cases h
  | cons e entries ih =>
    rw [List.map_cons, List.nodup_cons] at hnodup
    rw [insertAll, List.foldl_cons]
    rcases List.mem_cons.1 h with rfl | hmem
    · refine (get?_insertAll_of_notMem (m := m.insert k v) hnodup.1).trans ?_
      rw [get?_insert, if_pos rfl]
    · exact ih (m := m.insert e.1 e.2) hnodup.2 hmem

theorem contains_insertAll_iff {m : NameMap α} {entries : List (String × α)} {k : String} :
    (m.insertAll entries).contains k ↔ k ∈ entries.map (·.1) ∨ m.contains k := by
  induction entries generalizing m with
  | nil => simp [insertAll]
  | cons e entries ih =>
    refine (ih (m := m.insert e.1 e.2)).trans ?_
    simp only [contains, get?_insert, List.map_cons, List.mem_cons]
    by_cases hk : k = e.1 <;> simp [hk]

theorem mem_of_get?_ofList {entries : List (String × α)} {k : String} {v : α}
    (h : (ofList entries).get? k = some v) : (k, v) ∈ entries := by
  rcases mem_or_of_get?_insertAll (m := ∅) h with hmem | hget
  · exact hmem
  · cases hget

theorem get?_ofList_of_mem {entries : List (String × α)} {k : String} {v : α}
    (hnodup : (entries.map (·.1)).Nodup) (h : (k, v) ∈ entries) :
    (ofList entries).get? k = some v :=
  get?_insertAll_of_mem hnodup h

theorem contains_ofList_iff {entries : List (String × α)} {k : String} :
    (ofList entries).contains k ↔ k ∈ entries.map (·.1) := by
  rw [ofList_eq_insertAll, contains_insertAll_iff]
  simp [contains]

theorem ofList_toList (m : NameMap α) : ofList m.toList = m := by
  ext k v
  have hnodup : (m.toList.map (·.1)).Nodup := by
    rw [← From.keys_eq_map]
    exact m.keys_nodup
  rw [← From.mem_toList_iff (m := m)]
  exact ⟨mem_of_get?_ofList, get?_ofList_of_mem hnodup⟩

theorem toList_insertAll_perm {m : NameMap α} {entries : List (String × α)}
    (hnodup : (entries.map (·.1)).Nodup) (hfree : ∀ k ∈ entries.map (·.1), m.get? k = none) :
    (m.insertAll entries).toList.Perm (entries ++ m.toList) := by
  apply From.toList_perm
  · refine hnodup.of_map.append (From.nodup_toList m) ?_
    rintro ⟨k, v⟩ hnew hold
    have hnone := hfree k (List.mem_map_of_mem hnew)
    rw [From.mem_toList_iff.1 hold] at hnone
    cases hnone
  · intro k v
    rw [List.mem_append, From.mem_toList_iff]
    constructor
    · rintro (hnew | hold)
      · exact get?_insertAll_of_mem hnodup hnew
      · rw [get?_insertAll_of_notMem, hold]
        intro hk
        rw [hfree k hk] at hold
        cases hold
    · exact mem_or_of_get?_insertAll

theorem toList_insert_perm {m : NameMap α} {k : String} (v : α)
    (hfree : m.get? k = none) : (m.insert k v).toList.Perm ((k, v) :: m.toList) := by
  have hone : ∀ i ∈ [(k, v)].map (·.1), m.get? i = none := by simpa using hfree
  have hnodup : ([(k, v)].map (·.1)).Nodup := List.nodup_singleton k
  exact toList_insertAll_perm hnodup hone

end NameMap

namespace NameSet

@[simp] theorem contains_ofList_iff {names : List String} {name : String} :
    (NameSet.ofList names).contains name ↔ name ∈ names := by
  rw [NameSet.ofList, NameMap.contains_ofList_iff]
  simp

end NameSet

end TaskGraph
