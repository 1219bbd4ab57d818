import Mathlib.Data.Finset.Card
import Mathlib.Data.List.Nodup
import Mathlib.Order.Bounds.Defs
import TaskGraph.FreshName
import TaskGraph.Text.Blank

/-!
# Fresh names are free

The candidates for a name are pairwise distinct, so the taken names cannot exhaust one candidate
more than there are of them. A search that tests the candidates in turn and has no bound therefore
ends, and it ends at the fresh name. Names that are assigned one after another, each to be free of
those before it, are pairwise distinct and distinct from all names that were taken before. A
candidate for a name that is not blank is not blank either.
-/
namespace TaskGraph

theorem nameCandidate_succ_ne (base : String) (n : Nat) : nameCandidate base (n + 1) ≠ base := by
  intro h
  have hlength := congrArg (fun s => s.toList.length) h
  simp only [nameCandidate, String.toList_append, List.length_append] at hlength
  have hblank : " ".toList.length = 1 := rfl
  omega

theorem nameCandidate_injective {base : String} {m n : Nat}
    (h : nameCandidate base m = nameCandidate base n) : m = n := by
  cases m with
  | zero =>
    cases n with
    | zero => rfl
    | succ n => exact absurd h.symm (nameCandidate_succ_ne base n)
  | succ m =>
    cases n with
    | zero => exact absurd h (nameCandidate_succ_ne base m)
    | succ n =>
      simp only [nameCandidate, String.append_right_inj] at h
      have hnumber := congrArg (fun s => Nat.ofDigitChars 10 s.toList 0) h
      simp only [Nat.toList_repr, Nat.ofDigitChars_ten_toDigits] at hnumber
      omega

/-- The search stops at the first free candidate, or else it has found all candidates before the
last one taken. -/
theorem exists_firstFree_eq (base : String) (taken : List String) (left n : Nat) :
    ∃ m, n ≤ m ∧ m ≤ n + left ∧ firstFree base taken left n = nameCandidate base m ∧
      (∀ i, n ≤ i → i < m → nameCandidate base i ∈ taken) ∧
      (m < n + left → nameCandidate base m ∉ taken) := by
  induction left generalizing n with
  | zero => exact ⟨n, by omega, by omega, rfl, fun i _ _ => by omega, fun _ => by omega⟩
  | succ left ih =>
    by_cases h : nameCandidate base n ∈ taken
    · obtain ⟨m, hn, hm, heq, hbefore, hfree⟩ := ih (n + 1)
      refine ⟨m, by omega, by omega, ?_, ?_, fun _ => hfree (by omega)⟩
      · rw [firstFree, if_pos h, heq]
      · intro i hi him
        by_cases hin : i = n
        · rw [hin]
          exact h
        · exact hbefore i (by omega) him
    · refine ⟨n, by omega, by omega, ?_, fun i _ _ => by omega, fun _ => h⟩
      rw [firstFree, if_neg h]

theorem exists_freshName_eq (base : String) (taken : List String) :
    ∃ m, m ≤ taken.length ∧ freshName base taken = nameCandidate base m ∧
      (∀ i, i < m → nameCandidate base i ∈ taken) ∧ nameCandidate base m ∉ taken := by
  obtain ⟨m, -, hm, heq, hbefore, hfree⟩ := exists_firstFree_eq base taken taken.length 0
  rw [Nat.zero_add] at hm hfree
  refine ⟨m, hm, heq, fun i hi => hbefore i (by omega) hi, fun htaken => ?_⟩
  have hall : (List.range (taken.length + 1)).map (nameCandidate base) ⊆ taken := by
    intro name hname
    obtain ⟨i, hi, rfl⟩ := List.mem_map.1 hname
    rw [List.mem_range] at hi
    have hlast : m = taken.length := by
      by_cases hlt : m < taken.length
      · exact absurd htaken (hfree hlt)
      · omega
    by_cases him : i = m
    · rw [him]
      exact htaken
    · exact hbefore i (by omega) (by omega)
  have hdistinct : ((List.range (taken.length + 1)).map (nameCandidate base)).Nodup :=
    List.nodup_range.map fun i j h => nameCandidate_injective h
  have hlength := List.Nodup.length_le_of_subset hdistinct hall
  rw [List.length_map, List.length_range] at hlength
  omega

theorem freshName_notMem (base : String) (taken : List String) : freshName base taken ∉ taken := by
  obtain ⟨m, -, heq, -, hfree⟩ := exists_freshName_eq base taken
  rw [heq]
  exact hfree

theorem not_isBlank_append {s : String} (h : ¬ isBlank s) (t : String) : ¬ isBlank (s ++ t) := by
  rw [isBlank, String.toList_append, List.all_append, Bool.and_eq_true]
  exact fun hboth => h hboth.1

theorem not_isBlank_freshName {base : String} (h : ¬ isBlank base) (taken : List String) :
    ¬ isBlank (freshName base taken) := by
  obtain ⟨m, -, heq, -⟩ := exists_freshName_eq base taken
  rw [heq]
  cases m with
  | zero => exact h
  | succ m => exact not_isBlank_append (not_isBlank_append h _) _

/-- The search for a free name from the `n`th candidate on, however long it takes: the candidates
that it tests one after another, and the one at which it ends. -/
inductive NameSearch (base : String) (taken : List String) : Nat → List String → String → Prop
  | free {n : Nat} (free : nameCandidate base n ∉ taken) :
      NameSearch base taken n [nameCandidate base n] (nameCandidate base n)
  | next {n : Nat} {tested : List String} {name : String} (used : nameCandidate base n ∈ taken)
      (rest : NameSearch base taken (n + 1) tested name) :
      NameSearch base taken n (nameCandidate base n :: tested) name

namespace NameSearch

variable {base name name' : String} {taken tested tested' : List String} {n : Nat}

theorem unique (h : NameSearch base taken n tested name)
    (h' : NameSearch base taken n tested' name') : tested' = tested ∧ name' = name := by
  induction h generalizing tested' with
  | free hfree =>
    cases h' with
    | free => exact ⟨rfl, rfl⟩
    | next hused => exact absurd hused hfree
  | next hused _ ih =>
    cases h' with
    | free hfree => exact absurd hused hfree
    | next _ hrest =>
      obtain ⟨rfl, rfl⟩ := ih hrest
      exact ⟨rfl, rfl⟩

theorem of_first {m : Nat} (hnm : n ≤ m) (hfree : nameCandidate base m ∉ taken)
    (hbefore : ∀ i, n ≤ i → i < m → nameCandidate base i ∈ taken) :
    ∃ tested, NameSearch base taken n tested (nameCandidate base m) := by
  obtain ⟨d, rfl⟩ := Nat.exists_eq_add_of_le hnm
  induction d generalizing n with
  | zero => exact ⟨_, .free hfree⟩
  | succ d ih =>
    have hshift : n + (d + 1) = n + 1 + d := by omega
    rw [hshift] at hfree hbefore ⊢
    obtain ⟨tested, hrest⟩ := ih (by omega) hfree fun i hi => hbefore i (by omega)
    exact ⟨_, .next (hbefore n (by omega) (by omega)) hrest⟩

theorem tested_eq (h : NameSearch base taken n tested name) :
    tested = (List.range' n tested.length).map (nameCandidate base) := by
  induction h with
  | free => rfl
  | next _ _ ih => rw [List.length_cons, List.range'_succ, List.map_cons, ← ih]

theorem nodup_tested (h : NameSearch base taken n tested name) : tested.Nodup := by
  rw [h.tested_eq]
  exact (List.nodup_range' ..).map fun i j heq => nameCandidate_injective heq

theorem eq_or_mem_of_tested (h : NameSearch base taken n tested name) {t : String}
    (ht : t ∈ tested) : t = name ∨ t ∈ taken := by
  induction h with
  | free => exact .inl (List.mem_singleton.1 ht)
  | next hused _ ih =>
    rcases List.mem_cons.1 ht with rfl | ht
    · exact .inr hused
    · exact ih ht

/-- The search tests one name that is not taken, and taken ones only once. -/
theorem length_tested_le (h : NameSearch base taken n tested name) :
    tested.length ≤ taken.toFinset.card + 1 := by
  have hsubset : tested.toFinset ⊆ insert name taken.toFinset := by
    intro t ht
    rw [Finset.mem_insert, List.mem_toFinset]
    exact h.eq_or_mem_of_tested (List.mem_toFinset.1 ht)
  calc tested.length = tested.toFinset.card := (List.toFinset_card_of_nodup h.nodup_tested).symm
    _ ≤ (insert name taken.toFinset).card := Finset.card_le_card hsubset
    _ ≤ taken.toFinset.card + 1 := Finset.card_insert_le _ _

end NameSearch

theorem exists_nameSearch (base : String) (taken : List String) :
    ∃ tested, NameSearch base taken 0 tested (freshName base taken) := by
  obtain ⟨m, -, heq, hbefore, hfree⟩ := exists_freshName_eq base taken
  rw [heq]
  exact NameSearch.of_first (Nat.zero_le m) hfree fun i _ hi => hbefore i hi

/-- A taken name gets the least number from two on that makes it free. -/
theorem freshName_of_mem {base : String} {taken : List String} (h : base ∈ taken) :
    ∃ n, IsLeast {n | 2 ≤ n ∧ base ++ " " ++ Nat.repr n ∉ taken} n ∧
      freshName base taken = base ++ " " ++ Nat.repr n := by
  obtain ⟨m, -, heq, hbefore, hfree⟩ := exists_freshName_eq base taken
  cases m with
  | zero => exact absurd h hfree
  | succ m =>
    refine ⟨m + 2, ⟨⟨by omega, hfree⟩, ?_⟩, heq⟩
    rintro k ⟨hk, hkfree⟩
    by_contra hlt
    obtain ⟨i, rfl⟩ := Nat.exists_eq_add_of_le' hk
    exact hkfree (hbefore (i + 1) (by omega))

/-- The search for a name ends, after at most one test more than there are taken names. It ends at
the fresh name: the name itself if that is free, and otherwise the one with the least free number
from two on. -/
theorem nameSearch_ends_at_freshName (base : String) (taken : List String) :
    (∃ tested, NameSearch base taken 0 tested (freshName base taken) ∧
      tested.length ≤ taken.toFinset.card + 1 ∧
      ∀ tested' name, NameSearch base taken 0 tested' name →
        tested' = tested ∧ name = freshName base taken) ∧
    freshName base taken ∉ taken ∧
    (base ∉ taken → freshName base taken = base) ∧
    (base ∈ taken → ∃ n, IsLeast {n | 2 ≤ n ∧ base ++ " " ++ Nat.repr n ∉ taken} n ∧
      freshName base taken = base ++ " " ++ Nat.repr n) := by
  obtain ⟨tested, hsearch⟩ := exists_nameSearch base taken
  exact ⟨⟨tested, hsearch, hsearch.length_tested_le, fun _ _ h => hsearch.unique h⟩,
    freshName_notMem base taken, freshName_of_notMem, freshName_of_mem⟩

example : freshName "x" ["x", "x 3"] = "x 2" := by decide

/-- The names given to things one after another, each free of `taken` and of those before it. -/
def freshNames {α : Type u} (nameOf : α → String) : List String → List α → List (α × String)
  | _, [] => []
  | taken, a :: as =>
    (a, freshName (nameOf a) taken) ::
      freshNames nameOf (taken ++ [freshName (nameOf a) taken]) as

example : freshNames id ["x"] ["y", "x", "x"] = [("y", "y"), ("x", "x 2"), ("x", "x 3")] := by
  decide

section

variable {α : Type u} {nameOf : α → String} {taken : List String} {as : List α}

@[simp] theorem map_fst_freshNames (nameOf : α → String) (taken : List String) (as : List α) :
    (freshNames nameOf taken as).map (·.1) = as := by
  induction as generalizing taken with
  | nil => rfl
  | cons a as ih => rw [freshNames, List.map_cons, ih]

theorem exists_mem_freshNames (nameOf : α → String) (taken : List String) {a : α} (h : a ∈ as) :
    ∃ name, (a, name) ∈ freshNames nameOf taken as := by
  rw [← map_fst_freshNames nameOf taken as] at h
  obtain ⟨⟨b, name⟩, hmem, rfl⟩ := List.mem_map.1 h
  exact ⟨name, hmem⟩

theorem mem_of_mem_freshNames {a : α} {name : String} (h : (a, name) ∈ freshNames nameOf taken as) :
    a ∈ as := by
  rw [← map_fst_freshNames nameOf taken as]
  exact List.mem_map_of_mem h

theorem notMem_of_mem_freshNames {a : α} {name : String}
    (h : (a, name) ∈ freshNames nameOf taken as) : name ∉ taken := by
  induction as generalizing taken with
  | nil => cases h
  | cons b as ih =>
    rcases List.mem_cons.1 h with heq | h
    · cases heq
      exact freshName_notMem _ taken
    · intro htaken
      exact ih h (List.mem_append_left _ htaken)

theorem not_isBlank_of_mem_freshNames (has : ∀ a ∈ as, ¬ isBlank (nameOf a)) {a : α}
    {name : String} (h : (a, name) ∈ freshNames nameOf taken as) : ¬ isBlank name := by
  induction as generalizing taken with
  | nil => cases h
  | cons b as ih =>
    rw [List.forall_mem_cons] at has
    rcases List.mem_cons.1 h with heq | h
    · cases heq
      exact not_isBlank_freshName has.1 taken
    · exact ih has.2 h

theorem nodup_freshNames : ((freshNames nameOf taken as).map (·.2)).Nodup := by
  induction as generalizing taken with
  | nil => exact List.nodup_nil
  | cons a as ih =>
    rw [freshNames, List.map_cons, List.nodup_cons]
    refine ⟨fun h => ?_, ih⟩
    obtain ⟨⟨b, name⟩, hmem, rfl⟩ := List.mem_map.1 h
    exact notMem_of_mem_freshNames hmem (by simp)

theorem eq_of_mem_freshNames {a b : α} {name : String} (ha : (a, name) ∈ freshNames nameOf taken as)
    (hb : (b, name) ∈ freshNames nameOf taken as) : a = b :=
  congrArg Prod.fst (List.inj_on_of_nodup_map nodup_freshNames ha hb rfl)

/-- A free name that something asks for is given, if not to this then to something before it. -/
theorem exists_mem_freshNames_of_notMem {a : α} (ha : a ∈ as) (hfree : nameOf a ∉ taken) :
    ∃ b, (b, nameOf a) ∈ freshNames nameOf taken as := by
  induction as generalizing taken with
  | nil => cases ha
  | cons b as ih =>
    by_cases hname : nameOf a = freshName (nameOf b) taken
    · refine ⟨b, ?_⟩
      rw [freshNames, hname]
      exact List.mem_cons_self
    · have ha' : a ∈ as := by
        refine (List.mem_cons.1 ha).resolve_left ?_
        rintro rfl
        exact hname (freshName_of_notMem hfree).symm
      have hfree' : nameOf a ∉ taken ++ [freshName (nameOf b) taken] := by simp [hfree, hname]
      obtain ⟨c, hc⟩ := ih ha' hfree'
      exact ⟨c, List.mem_cons_of_mem _ hc⟩

theorem freshNames_of_disjoint (hnodup : (as.map nameOf).Nodup)
    (hfree : ∀ a ∈ as, nameOf a ∉ taken) :
    freshNames nameOf taken as = as.map fun a => (a, nameOf a) := by
  induction as generalizing taken with
  | nil => rfl
  | cons a as ih =>
    rw [List.map_cons, List.nodup_cons] at hnodup
    have ha := freshName_of_notMem (hfree a (by simp))
    rw [freshNames, ha, ih hnodup.2, List.map_cons]
    intro b hb htaken
    rcases List.mem_append.1 htaken with htaken | heq
    · exact hfree b (List.mem_cons_of_mem _ hb) htaken
    · rw [List.mem_singleton] at heq
      exact hnodup.1 (heq ▸ List.mem_map_of_mem hb)

end

end TaskGraph
