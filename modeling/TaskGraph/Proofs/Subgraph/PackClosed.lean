import TaskGraph.Proofs.Closed
import TaskGraph.Proofs.Subgraph.PackWiring

/-!
# Packing keeps a component closed

Packing makes a nested graph and leaves a packed parent. An edge of either one continues an edge of
the parent, so that it starts at an output that exists, and both declare all that they read.
-/
namespace TaskGraph

variable {resolve : Resolver}

namespace Packing.Yields

variable {p : Packing} {packed : Packed} {nested : Component}

theorem provides_inner (h : p.Yields packed nested) {o : TaskOutput}
    (ho : p.graph.provides resolve o) (hselected : p.selection.tasks.contains o.task) :
    p.innerGraph.provides resolve o := by
  obtain ⟨t, ht, -⟩ := Graph.provides_iff.1 ho
  obtain ⟨arguments, annotations, -, hinner⟩ := h.packedWiring.inner_task o.task t hselected ht
  exact Graph.provides_of_task? ho ht hinner rfl rfl

theorem provides_outer (h : p.Yields packed nested) {o : TaskOutput}
    (ho : p.graph.provides resolve o) (hunselected : ¬ p.selection.tasks.contains o.task) :
    (packed.appliedGraph p.selection p.graph).provides resolve o := by
  obtain ⟨t, ht, -⟩ := Graph.provides_iff.1 ho
  obtain ⟨arguments, houter⟩ := h.packedWiring.outer_task o.task t hunselected ht
  exact Graph.provides_of_task? ho ht houter rfl rfl

theorem provides_rewired (h : p.Yields packed nested)
    (hresolve : resolve packed.wrapper.reference = some nested) {o o' : TaskOutput}
    (ho : p.graph.provides resolve o)
    (hr : Rewired p.selection.tasks packed.wrapperId nested p.innerGraph o o') :
    (packed.appliedGraph p.selection p.graph).provides resolve o' := by
  cases hr with
  | kept hunselected => exact h.provides_outer ho hunselected
  | moved hselected hdeclared hbound =>
    refine Graph.provides_iff.2 ⟨packed.wrapper, h.task?_wrapperId, fun c hc => ?_⟩
    obtain rfl := Option.some.inj (hresolve.symm.trans hc)
    exact hdeclared

theorem exists_source_of_outlet {outlet : Outlet} (houtlet : outlet ∈ p.outlets) :
    p.selection.tasks.contains outlet.source.task ∧
      ∃ site, p.graph.source? site = some outlet.source := by
  rcases mem_sources_outlets_iff.1 (List.mem_map_of_mem (f := (·.source)) houtlet) with
    hmem | ⟨site, hconsumer⟩
  · obtain ⟨other, hother, hsource⟩ := List.mem_map.1 hmem
    obtain ⟨-, hbound, htask⟩ := mem_selectedOutlets_iff.1 hother
    rw [← hsource]
    exact ⟨htask, .output other.output.name, hbound⟩
  · obtain ⟨hsource, htask, -⟩ := mem_consumers_iff.1 hconsumer
    exact ⟨htask, site, hsource⟩

/-- What is read in the new component is a selected task, and was read before. -/
theorem source_of_inner (h : p.Yields packed nested) {site : Site} {o : TaskOutput}
    (hsource : p.innerGraph.source? site = some o) :
    p.selection.tasks.contains o.task ∧ ∃ site', p.graph.source? site' = some o := by
  cases site with
  | argument id name =>
    obtain ⟨a, ha, hfed⟩ := h.inner_argument_cases (Graph.source?_argument_eq_some_iff.1 hsource)
    cases hfed with
    | inner hselected => exact ⟨hselected, _, Graph.source?_argument_eq_some_iff.2 ha⟩
  | output name =>
    obtain ⟨outlet, houtlet, -, rfl⟩ := of_get?_outputValues_innerGraph hsource
    exact exists_source_of_outlet houtlet

theorem sound_nested (h : p.Yields packed nested) (hgraph : p.parent.graph? = some p.graph)
    (hsound : p.parent.Sound resolve) : nested.Sound resolve where
  inputs := h.nodup_inputs
  outputs := by
    obtain ⟨name, author, rfl⟩ := h.nested_eq
    rw [names_outputs_nested]
    exact p.nodup_outlets
  wired := by
    have hwired := hsound.wired p.graph hgraph
    intro g hg
    obtain rfl := Option.some.inj (h.graph?_eq.symm.trans hg)
    apply Graph.WellWired.of_reads
    · intro id name b hb
      obtain ⟨a, ha, hfed⟩ := h.inner_argument_cases hb
      cases hfed with
      | literal value => exact trivial
      | secret secret => exact trivial
      | inner hselected => exact h.provides_inner (hwired.supplies ha) hselected
      | taskOutput hunselected hdeclared => exact hdeclared
      | graphInput hvalueless hdeclared => exact hdeclared
      | value hcarried hdeclared => exact hdeclared
    · intro name o ho
      obtain ⟨outlet, houtlet, hname, rfl⟩ := of_get?_outputValues_innerGraph ho
      obtain ⟨htask, site, hread⟩ := exists_source_of_outlet houtlet
      exact ⟨h.provides_inner (hwired.provides_source hread) htask,
        h.hasOutput_iff.2 ⟨outlet, houtlet, hname⟩⟩

theorem hasInput_of_applied (h : p.Yields packed nested)
    (hwired : p.graph.WellWired resolve p.parent) {id name x : String}
    (hread : (packed.appliedGraph p.selection p.graph).argument? id name = some (.graphInput x)) :
    p.parent.hasInput x := by
  rcases h.argument_cases hread with ⟨-, hwrapper⟩ | ⟨-, a, ha, hrel⟩
  · rcases (h.unlifted_of_wrapper hwrapper).2 with hdeclared | ⟨id, name, ha⟩
    · exact hdeclared
    · exact hwired.hasInput ha
  · cases hrel
    exact hwired.hasInput ha

/-- Every edge of the packed parent starts at an output that exists. -/
theorem provides_applied (h : p.Yields packed nested)
    (hresolve : resolve packed.wrapper.reference = some nested)
    (hwired : p.graph.WellWired resolve p.parent) {site : Site} {o : TaskOutput}
    (hsource : (packed.appliedGraph p.selection p.graph).source? site = some o) :
    (packed.appliedGraph p.selection p.graph).provides resolve o := by
  rcases h.source_cases hsource with ⟨x, hwrapper⟩ | ⟨o₀, hread, hr⟩
  · obtain ⟨hunselected, id, name, -, ha⟩ := h.unselected_of_wrapper hwrapper
    have hread := Graph.source?_argument_eq_some_iff.2 ha
    exact h.provides_outer (hwired.provides_source hread) hunselected
  · exact h.provides_rewired hresolve (hwired.provides_source hread) hr

/-- The packed parent is sound. -/
theorem sound_applied (h : p.Yields packed nested) (hgraph : p.parent.graph? = some p.graph)
    (hresolve : resolve packed.wrapper.reference = some nested) (hsound : p.parent.Sound resolve) :
    (packed.applied p.selection p.parent p.graph).Sound resolve where
  inputs := (h.packedWiring.inputs_kept.map _).nodup hsound.inputs
  outputs := hsound.outputs
  wired := by
    have hwired := hsound.wired p.graph hgraph
    intro g hg
    obtain rfl := Option.some.inj (Packed.graph?_applied.symm.trans hg)
    apply Graph.WellWired.of_reads
    · intro id name b hread
      cases b with
      | literal value => exact trivial
      | secret secret => exact trivial
      | taskOutput o =>
        have hsource := Graph.source?_argument_eq_some_iff.2 hread
        exact h.provides_applied hresolve hwired hsource
      | graphInput x =>
        have hdeclared := h.hasInput_of_applied hwired hread
        rw [Component.hasInput_iff, List.mem_map] at hdeclared
        obtain ⟨i, hi, rfl⟩ := hdeclared
        have hkept := Packed.mem_inputs_applied_iff.2 ⟨hi, fun _ => ⟨id, name, hread⟩⟩
        exact Component.hasInput_iff.2 (List.mem_map_of_mem hkept)
    · intro name o ho
      have hsource : (packed.appliedGraph p.selection p.graph).source? (.output name) = some o := ho
      have hrel := h.rel_outputValues name
      rw [ho] at hrel
      obtain ⟨o₀, ho₀, -⟩ := exists_of_rel_some hrel
      exact ⟨h.provides_applied hresolve hwired hsource, hwired.hasOutput ho₀⟩

theorem task_of_inner (h : p.Yields packed nested) {id : String} {t : Task}
    (ht : p.innerGraph.task? id = some t) :
    p.selection.tasks.contains id ∧
      ∃ t₀, p.graph.task? id = some t₀ ∧ t.reference = t₀.reference := by
  have hid := h.containsTask_innerGraph_iff.1 (Graph.containsTask_iff.2 ⟨t, ht⟩)
  rw [task?_innerGraph, if_pos hid] at ht
  obtain ⟨t₀, ht₀, rfl⟩ := Option.map_eq_some_iff.1 ht
  exact ⟨hid, t₀, ht₀, rfl⟩

theorem task_cases (h : p.Yields packed nested) {id : String} {t : Task}
    (ht : (packed.appliedGraph p.selection p.graph).task? id = some t) :
    id = packed.wrapperId ∧ t = packed.wrapper ∨
      ¬ p.selection.tasks.contains id ∧
        ∃ t₀, p.graph.task? id = some t₀ ∧ t.reference = t₀.reference := by
  rcases h.containsTask_appliedGraph_iff.1 (Graph.containsTask_iff.2 ⟨t, ht⟩) with
    rfl | ⟨hid, hunselected⟩
  · exact .inl ⟨rfl, Option.some.inj (ht.symm.trans h.task?_wrapperId)⟩
  · obtain ⟨t₀, ht₀⟩ := Graph.containsTask_iff.1 hid
    obtain ⟨arguments, houter⟩ := h.packedWiring.outer_task id t₀ hunselected ht₀
    obtain rfl := Option.some.inj (houter.symm.trans ht)
    exact .inr ⟨hunselected, t₀, ht₀, rfl⟩

theorem mem_instances_of_inner (h : p.Yields packed nested) {d : Component}
    (hd : d ∈ p.innerGraph.instances resolve) : d ∈ p.graph.instances resolve := by
  obtain ⟨id, t, ht, hresolve⟩ := Graph.mem_instances_iff.1 hd
  obtain ⟨-, t₀, ht₀, heq⟩ := h.task_of_inner ht
  exact Graph.mem_instances_iff.2 ⟨id, t₀, ht₀, heq ▸ hresolve⟩

theorem mem_instances_of_applied (h : p.Yields packed nested)
    (hwrapper : resolve packed.wrapper.reference = some nested) {d : Component}
    (hd : d ∈ (packed.appliedGraph p.selection p.graph).instances resolve) :
    d = nested ∨ d ∈ p.graph.instances resolve := by
  obtain ⟨id, t, ht, hresolve⟩ := Graph.mem_instances_iff.1 hd
  rcases h.task_cases ht with ⟨-, rfl⟩ | ⟨-, t₀, ht₀, heq⟩
  · exact .inl (Option.some.inj (hresolve.symm.trans hwrapper))
  · exact .inr (Graph.mem_instances_iff.2 ⟨id, t₀, ht₀, heq ▸ hresolve⟩)

/-- Packing keeps a component closed. -/
theorem closed_applied (h : p.Yields packed nested) (hgraph : p.parent.graph? = some p.graph)
    (hresolve : resolve packed.wrapper.reference = some nested)
    (hclosed : p.parent.Closed resolve) :
    (packed.applied p.selection p.parent p.graph).Closed resolve := by
  rw [Component.closed_iff hgraph, Component.closedInside_iff hgraph] at hclosed
  obtain ⟨hsound, hinside⟩ := hclosed
  have hnested : nested.ClosedInside resolve :=
    (Component.closedInside_iff h.graph?_eq).2 ⟨h.sound_nested hgraph hsound,
      fun d hd => hinside d (h.mem_instances_of_inner hd)⟩
  rw [Component.closed_iff Packed.graph?_applied, Component.closedInside_iff Packed.graph?_applied]
  refine ⟨h.sound_applied hgraph hresolve hsound, fun d hd => ?_⟩
  rcases h.mem_instances_of_applied hresolve hd with rfl | hd
  · exact hnested
  · exact hinside d hd

end Packing.Yields

end TaskGraph
