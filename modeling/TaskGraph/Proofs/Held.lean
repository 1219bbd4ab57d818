import TaskGraph.Component.Weight
import TaskGraph.Proofs.NameMap

/-!
# What stands in a component

A component holds the components in the references of its tasks. Each of them weighs less than the
whole, so what a component has in common with all that it holds is shown from the held ones up.
-/
namespace TaskGraph

namespace Component

/-- `d` stands in a task of `c`. -/
def Holds (c d : Component) : Prop :=
  ∃ g id t, c.graph? = some g ∧ g.task? id = some t ∧ t.reference.spec = some d

/-- The text stands in a task of the component. -/
def HoldsText (c : Component) (text : String) : Prop :=
  ∃ g id t, c.graph? = some g ∧ g.task? id = some t ∧ t.reference.text = some text

variable {c d : Component}

theorem graph?_eq_some_iff {g : Graph} :
    c.graph? = some g ↔ c.implementation = some (.graph g) := by
  rw [graph?]
  split <;> simp_all

theorem holds_of_mem_tasks {g : Graph} (h : c.implementation = some (.graph g))
    {e : String × Task} (he : e ∈ g.tasks.toList) (hd : e.2.reference.spec = some d) :
    c.Holds d :=
  ⟨g, e.1, e.2, graph?_eq_some_iff.2 h, NameMap.From.mem_toList_iff.1 he, hd⟩

theorem weight_lt_of_task? {g : Graph} (hg : c.graph? = some g) {id : String} {t : Task}
    (ht : g.task? id = some t) : t.reference.weight < c.weight := by
  rw [weight_of_graph? hg, weightOfTasks_eq, ← t.weight_eq]
  have hmem : t.weight ∈ g.tasks.toList.map (·.2.weight) :=
    List.mem_map.2 ⟨(id, t), NameMap.From.mem_toList_iff.2 ht, rfl⟩
  have := le_total_of_mem hmem
  omega

theorem Holds.weight_lt (h : c.Holds d) : d.weight < c.weight := by
  obtain ⟨g, id, t, hg, ht, hspec⟩ := h
  exact Nat.lt_trans (Reference.weight_spec_lt hspec) (weight_lt_of_task? hg ht)

theorem HoldsText.length_lt {text : String} (h : c.HoldsText text) : text.length < c.weight := by
  obtain ⟨g, id, t, hg, ht, htext⟩ := h
  exact Nat.lt_trans (Reference.length_text_lt htext) (weight_lt_of_task? hg ht)

/-- What holds of a component whenever it holds of all that stand in it holds of every component. -/
theorem held_induction {motive : Component → Prop}
    (step : ∀ c, (∀ d, c.Holds d → motive d) → motive c) (c : Component) : motive c := by
  induction hweight : c.weight using Nat.strongRecOn generalizing c with
  | ind weight ih =>
    subst hweight
    exact step c fun d hd => ih d.weight hd.weight_lt d rfl

end Component

end TaskGraph

