import Mathlib.Data.List.Chain
import TaskGraph.Proofs.Validation.Cycle

/-!
# The circular tasks meet every cycle

A cycle is a list of distinct tasks, each of which reads the next and the last of which reads the
first. Every circular task lies on one, every cycle holds a circular task, and so nothing is left of
the cycles of a graph when its circular tasks are taken away.
-/
open Relation

namespace TaskGraph

section

variable {α : Type u} {r : α → α → Prop} {a b : α}

/-- A path that comes back to one of its elements may as well start there. -/
theorem exists_nodup_chain (h : ReflTransGen r a b) :
    ∃ l : List α, l.Nodup ∧ l.IsChain r ∧ l.head? = some a ∧ l.getLast? = some b := by
  induction h using ReflTransGen.head_induction_on with
  | refl => exact ⟨[b], List.nodup_singleton b, .singleton b, rfl, rfl⟩
  | @head a c hac _ ih =>
    obtain ⟨l, hnodup, hchain, hhead, hlast⟩ := ih
    by_cases ha : a ∈ l
    · obtain ⟨before, behind, rfl⟩ := List.append_of_mem ha
      have hsuffix : a :: behind <:+ before ++ a :: behind := List.suffix_append _ _
      refine ⟨a :: behind, hnodup.sublist hsuffix.sublist, hchain.suffix hsuffix, rfl, ?_⟩
      rwa [List.getLast?_append_cons] at hlast
    · refine ⟨a :: l, List.nodup_cons.2 ⟨ha, hnodup⟩, hchain.cons ?_, rfl, ?_⟩
      · intro d hd
        rw [hhead, Option.mem_some_iff] at hd
        exact hd ▸ hac
      · rw [List.getLast?_cons, hlast]
        rfl

theorem reflTransGen_of_chain {l : List α} (hchain : l.IsChain r) (hhead : l.head? = some a)
    (hlast : l.getLast? = some b) : ReflTransGen r a b := by
  obtain ⟨behind, rfl⟩ := List.head?_eq_some_iff.1 hhead
  rw [List.getLast?_eq_some_getLast (List.cons_ne_nil a behind), Option.some.injEq] at hlast
  exact List.relationReflTransGen_of_exists_isChain_cons behind hchain hlast

end

namespace Graph

variable {g : Graph} {ids names : List String}

/-- Distinct tasks, each of which depends on the next, and the last on the first. -/
structure IsCycle (g : Graph) (ids : List String) : Prop where
  nodup : ids.Nodup
  chain : ids.IsChain g.DependsOn
  closed : ∃ first ∈ ids.head?, ∃ last ∈ ids.getLast?, g.DependsOn last first

theorem exists_isCycle {id : String} (h : TransGen g.DependsOn id id) :
    ∃ ids, g.IsCycle ids ∧ id ∈ ids := by
  obtain ⟨next, hnext, hback⟩ := TransGen.head'_iff.1 h
  obtain ⟨ids, hnodup, hchain, hhead, hlast⟩ := exists_nodup_chain hback
  exact ⟨ids, ⟨hnodup, hchain, next, hhead, id, hlast, hnext⟩, List.mem_of_getLast? hlast⟩

theorem acyclic_iff_forall_not_isCycle : g.Acyclic ↔ ∀ ids, ¬ g.IsCycle ids := by
  constructor
  · rintro hacyclic ids ⟨-, hchain, first, hhead, last, hlast, hread⟩
    exact hacyclic last (TransGen.head' hread (reflTransGen_of_chain hchain hhead hlast))
  · intro hnone id hself
    obtain ⟨ids, hcycle, -⟩ := exists_isCycle hself
    exact hnone ids hcycle

/-- The graph without some of its tasks. What was read of them is left dangling. -/
def without (g : Graph) (names : List String) : Graph :=
  { g with tasks := g.tasks.filter fun id _ => id ∉ names }

theorem task?_without {id : String} :
    (g.without names).task? id = if id ∈ names then none else g.task? id := by
  rw [task?, without, NameMap.From.get?_filter]
  by_cases h : id ∈ names <;> cases ht : g.tasks.get? id <;> simp [h, ht, task?]

theorem dependsOn_without_iff {a b : String} :
    (g.without names).DependsOn a b ↔ g.DependsOn a b ∧ a ∉ names ∧ b ∉ names := by
  simp only [DependsOn, containsTask_iff, argument?, task?_without]
  by_cases ha : a ∈ names <;> by_cases hb : b ∈ names <;> simp [ha, hb]

theorem IsCycle.without (h : g.IsCycle ids) (hnames : ∀ id ∈ ids, id ∉ names) :
    (g.without names).IsCycle ids := by
  obtain ⟨first, hfirst, last, hlast, hread⟩ := h.closed
  refine ⟨h.nodup, ?_, first, hfirst, last, hlast, dependsOn_without_iff.2 ⟨hread, ?_, ?_⟩⟩
  · refine h.chain.imp_of_mem_imp fun a b ha hb hab => ?_
    exact dependsOn_without_iff.2 ⟨hab, hnames a ha, hnames b hb⟩
  · exact hnames last (List.mem_of_getLast? hlast)
  · exact hnames first (List.mem_of_head? hfirst)

theorem acyclic_without_circularTasks (g : Graph) : (g.without g.circularTasks).Acyclic := by
  intro task hcycle
  refine g.no_cycle_avoids_circularTasks task (hcycle.lift id fun a b hab => ?_)
  obtain ⟨hread, -, hb⟩ := dependsOn_without_iff.1 hab
  exact ⟨hread, hb⟩

/-- The search finds distinct existing tasks, each of them on a cycle, and on every cycle it finds
one. So it finds none exactly if there is no cycle, and no cycle is left without those it finds. -/
theorem circularTasks_meet_every_cycle (g : Graph) :
    g.circularTasks.Nodup ∧
    (∀ id ∈ g.circularTasks, g.containsTask id ∧ ∃ ids, g.IsCycle ids ∧ id ∈ ids) ∧
    (∀ ids, g.IsCycle ids → ∃ id ∈ ids, id ∈ g.circularTasks) ∧
    (g.circularTasks = [] ↔ ∀ ids, ¬ g.IsCycle ids) ∧
    ∀ ids, ¬ (g.without g.circularTasks).IsCycle ids := by
  have hleft : ∀ ids, ¬ (g.without g.circularTasks).IsCycle ids :=
    acyclic_iff_forall_not_isCycle.1 g.acyclic_without_circularTasks
  refine ⟨g.nodup_circularTasks, fun id hid => ?_, fun ids hcycle => ?_,
    circularTasks_eq_nil_iff.trans acyclic_iff_forall_not_isCycle, hleft⟩
  · have hself := onCycle_of_mem_circularTasks hid
    obtain ⟨next, hread, -⟩ := TransGen.head'_iff.1 hself
    exact ⟨hread.containsTask.1, exists_isCycle hself⟩
  · by_contra hnone
    push Not at hnone
    exact hleft ids (hcycle.without hnone)

end Graph

end TaskGraph
