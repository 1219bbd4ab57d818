import TaskGraph.Proofs.Subgraph.Apply

/-!
# Packing preserves the wiring

A selection may be any set of tasks, inputs and outputs; it need not be convex. After packing it and
putting the wrapper in its place, every edge of the graph can be followed as before. An edge that
leaves the selection leads through an output of the new component that is bound to the old source,
and an edge that enters it leads through an input that the wrapper feeds with the old source. Only a
selected input that carries a value is replaced, by this value.
-/
namespace TaskGraph

/-- How an argument of a selected task reads in the new component, and what the wrapper feeds it. -/
inductive Fed (selection : Selection) (parent nested : Component) (wrapper : Task) :
    Argument → Argument → Prop
  | literal (value : String) : Fed selection parent nested wrapper (.literal value) (.literal value)
  | secret (name : String) : Fed selection parent nested wrapper (.secret name) (.secret name)
  | inner {o : TaskOutput} (selected : selection.tasks.contains o.task) :
      Fed selection parent nested wrapper (.taskOutput o) (.taskOutput o)
  | taskOutput {o : TaskOutput} {x : String} (unselected : ¬ selection.tasks.contains o.task)
      (declared : nested.hasInput x) (fed : wrapper.arguments.get? x = some (.taskOutput o)) :
      Fed selection parent nested wrapper (.taskOutput o) (.graphInput x)
  | graphInput {name x : String} (valueless : selection.value? parent name = none)
      (declared : nested.hasInput x) (fed : wrapper.arguments.get? x = some (.graphInput name)) :
      Fed selection parent nested wrapper (.graphInput name) (.graphInput x)
  | value {name x value : String} (carried : selection.value? parent name = some value)
      (declared : nested.hasInput x) (fed : wrapper.arguments.get? x = some (.literal value)) :
      Fed selection parent nested wrapper (.graphInput name) (.graphInput x)

/-- The wiring of `g` after the selection has become the graph `inner` of `nested`, and the graph of
`result` has the wrapper in its place. -/
structure PackedWiring (selection : Selection) (parent : Component) (g : Graph) (wrapperId : String)
    (wrapper : Task) (nested : Component) (inner : Graph) (result : Component) (outer : Graph) :
    Prop where
  wrapper_fresh : ¬ g.containsTask wrapperId
  wrapper_placed : outer.task? wrapperId = some wrapper
  outer_tasks : ∀ id, outer.containsTask id ↔
    id = wrapperId ∨ g.containsTask id ∧ ¬ selection.tasks.contains id
  inner_tasks : ∀ id, inner.containsTask id ↔ selection.tasks.contains id
  outer_task : ∀ id t, ¬ selection.tasks.contains id → g.task? id = some t →
    ∃ arguments, outer.task? id = some { t with arguments }
  inner_task : ∀ id t, selection.tasks.contains id → g.task? id = some t →
    ∃ arguments annotations, annotations.AgreeButPosition t.annotations ∧
      inner.task? id = some { t with arguments, annotations }
  outside : ∀ id, g.containsTask id → ¬ selection.tasks.contains id → ∀ name,
    Option.Rel (Argument.Rel (Rewired selection.tasks wrapperId nested inner))
      (g.argument? id name) (outer.argument? id name)
  bindings : ∀ name, Option.Rel (Rewired selection.tasks wrapperId nested inner)
    (g.outputValues.get? name) (outer.outputValues.get? name)
  inside : ∀ id, selection.tasks.contains id → ∀ name,
    Option.Rel (Fed selection parent nested wrapper) (g.argument? id name) (inner.argument? id name)
  unread : ∀ site o, outer.source? site = some o → ¬ selection.tasks.contains o.task
  inputs_kept : result.inputs.Sublist parent.inputs
  inputs_removed : ∀ i ∈ parent.inputs, i ∉ result.inputs →
    (∃ value, selection.value? parent i.name = some value) ∧
      ∀ id name, outer.argument? id name ≠ some (.graphInput i.name)

namespace Packing.Yields

variable {p : Packing} {packed : Packed} {nested : Component}

theorem fed_innerArgument (h : p.Yields packed nested) {id name : String} {a : Argument}
    (hid : p.selection.tasks.contains id) (ha : p.graph.argument? id name = some a) :
    Fed p.selection p.parent nested packed.wrapper a (p.innerArgument p.inlets a) := by
  by_cases houtside : p.relation a ≠ .inner ∧ p.relation a ≠ .constant
  · obtain ⟨x, hx, hinner, hfed⟩ := exists_inner_input h.accepted hid ha houtside.1 houtside.2
    rw [← h.arguments_eq] at hfed
    have hdeclared := h.hasInput_iff.2 hx
    rw [hinner]
    cases a with
    | literal value => exact absurd rfl houtside.2
    | secret secret => exact absurd rfl houtside.2
    | taskOutput o =>
      refine .taskOutput (fun htask => houtside.1 ?_) hdeclared hfed
      rw [relation, Argument.relation, if_pos htask]
    | graphInput input =>
      cases hvalue : p.selection.value? p.parent input with
      | none =>
        rw [Selection.feed, hvalue] at hfed
        exact .graphInput hvalue hdeclared hfed
      | some value =>
        rw [Selection.feed, hvalue] at hfed
        exact .value hvalue hdeclared hfed
  · have hsame : p.innerArgument p.inlets a = a := by
      apply innerArgument_of_not_crossing
      intro source hsource
      exact houtside ⟨by rw [hsource]; exact Relation.noConfusion,
        by rw [hsource]; exact Relation.noConfusion⟩
    rw [hsame]
    cases a with
    | literal value => exact .literal value
    | secret secret => exact .secret secret
    | taskOutput o =>
      apply Fed.inner
      by_cases htask : p.selection.tasks.contains o.task
      · exact htask
      · rw [relation, Argument.relation, if_neg htask] at houtside
        exact absurd ⟨Relation.noConfusion, Relation.noConfusion⟩ houtside
    | graphInput input =>
      rw [relation, Argument.relation] at houtside
      split at houtside <;> exact absurd ⟨Relation.noConfusion, Relation.noConfusion⟩ houtside

theorem containsTask_appliedGraph_iff (h : p.Yields packed nested) {id : String} :
    (packed.appliedGraph p.selection p.graph).containsTask id ↔
      id = packed.wrapperId ∨ p.graph.containsTask id ∧ ¬ p.selection.tasks.contains id := by
  rw [Graph.containsTask_iff, Packed.task?_appliedGraph, h.appliedId_eq]
  by_cases hw : id = packed.wrapperId
  · simp [hw]
  · by_cases hid : p.selection.tasks.contains id
    · simp [hw, hid]
    · cases ht : p.graph.task? id <;> simp [hw, hid, ht, Graph.containsTask_iff]

theorem containsTask_innerGraph_iff (h : p.Yields packed nested) {id : String} :
    p.innerGraph.containsTask id ↔ p.selection.tasks.contains id := by
  rw [Graph.containsTask_iff, task?_innerGraph]
  by_cases hid : p.selection.tasks.contains id
  · obtain ⟨t, ht⟩ := Graph.containsTask_iff.1 (h.contains_selected hid)
    simp [hid, ht]
  · simp [hid]

theorem wrapperId_unselected (h : p.Yields packed nested) :
    ¬ p.selection.tasks.contains packed.wrapperId :=
  fun hw => h.ne_wrapperId (h.contains_selected hw) rfl

theorem wrapper_reads (h : p.Yields packed nested) {x : String} {a : Argument}
    (hread : packed.wrapper.arguments.get? x = some a) :
    (∃ id name source, p.selection.tasks.contains id ∧ p.graph.argument? id name = some a ∧
        p.relation a = .crossing source) ∨
      ∃ i ∈ p.parent.inputs, p.selection.feed p.parent (.graphInput i.name) = a := by
  rw [h.arguments_eq] at hread
  rcases of_get?_wrapperArguments hread with ⟨i, hi, rfl, hfeed⟩ | ⟨inlet, hinlet, -, rfl⟩
  · exact .inr ⟨i, Component.mem_of_input? (mem_selectedInputs_iff.1 hi).2, hfeed⟩
  · obtain ⟨id, name, a, hid, ha, hrel⟩ :=
      mem_sources_inlets_iff.1 (List.mem_map_of_mem (f := (·.source)) hinlet)
    rw [Argument.argument_of_crossing hrel]
    exact .inl ⟨id, name, _, hid, ha, hrel⟩

theorem unselected_of_wrapper (h : p.Yields packed nested) {x : String} {o : TaskOutput}
    (hread : packed.wrapper.arguments.get? x = some (.taskOutput o)) :
    ¬ p.selection.tasks.contains o.task ∧ ∃ id name, p.selection.tasks.contains id ∧
      p.graph.argument? id name = some (.taskOutput o) := by
  rcases h.wrapper_reads hread with ⟨id, name, source, hid, ha, hrel⟩ | ⟨i, -, hfeed⟩
  · exact ⟨unselected_of_crossing hrel, id, name, hid, ha⟩
  · rcases Selection.feed_graphInput_cases hfeed with ⟨value, -, heq⟩ | ⟨-, heq⟩ <;> cases heq

/-- The wrapper reads no lifted input, and only inputs of the parent. -/
theorem unlifted_of_wrapper (h : p.Yields packed nested) {x n : String}
    (hread : packed.wrapper.arguments.get? x = some (.graphInput n)) :
    p.selection.value? p.parent n = none ∧
      (p.parent.hasInput n ∨ ∃ id name, p.graph.argument? id name = some (.graphInput n)) := by
  rcases h.wrapper_reads hread with ⟨id, name, source, -, ha, hrel⟩ | ⟨i, hi, hfeed⟩
  · exact ⟨if_neg (unselected_input_of_crossing hrel), .inr ⟨id, name, ha⟩⟩
  · rcases Selection.feed_graphInput_cases hfeed with ⟨value, -, heq⟩ | ⟨hvalue, heq⟩
    · cases heq
    · cases heq
      exact ⟨hvalue, .inl (Component.hasInput_iff.2 (List.mem_map_of_mem hi))⟩

theorem argument_cases (h : p.Yields packed nested) {id name : String} {b : Argument}
    (hb : (packed.appliedGraph p.selection p.graph).argument? id name = some b) :
    id = packed.wrapperId ∧ packed.wrapper.arguments.get? name = some b ∨
      ¬ p.selection.tasks.contains id ∧ ∃ a, p.graph.argument? id name = some a ∧
        a.Rel (Rewired p.selection.tasks packed.wrapperId nested p.innerGraph) b := by
  rcases h.containsTask_appliedGraph_iff.1 (Graph.containsTask_of_argument? hb) with
    rfl | ⟨hgraph, hunselected⟩
  · rw [Graph.argument?_of_task? h.task?_wrapperId] at hb
    exact .inl ⟨rfl, hb⟩
  · have hrel := h.rel_argument? hgraph hunselected name
    rw [hb] at hrel
    exact .inr ⟨hunselected, exists_of_rel_some hrel⟩

theorem source_cases (h : p.Yields packed nested) {site : Site} {o : TaskOutput}
    (hsource : (packed.appliedGraph p.selection p.graph).source? site = some o) :
    (∃ x, packed.wrapper.arguments.get? x = some (.taskOutput o)) ∨
      ∃ o₀, p.graph.source? site = some o₀ ∧
        Rewired p.selection.tasks packed.wrapperId nested p.innerGraph o₀ o := by
  cases site with
  | output name =>
    have hrel := h.rel_outputValues name
    have hget : (packed.appliedGraph p.selection p.graph).outputValues.get? name = some o := hsource
    rw [hget] at hrel
    exact .inr (exists_of_rel_some hrel)
  | argument id name =>
    rw [Graph.source?_argument_eq_some_iff] at hsource
    rcases h.argument_cases hsource with ⟨-, hwrapper⟩ | ⟨-, a, ha, hrel⟩
    · exact .inl ⟨name, hwrapper⟩
    · cases hrel with
      | taskOutput hr => exact .inr ⟨_, Graph.source?_argument_eq_some_iff.2 ha, hr⟩

theorem unselected_of_source? (h : p.Yields packed nested) {site : Site} {o : TaskOutput}
    (hsource : (packed.appliedGraph p.selection p.graph).source? site = some o) :
    ¬ p.selection.tasks.contains o.task := by
  rcases h.source_cases hsource with ⟨x, hread⟩ | ⟨o₀, -, hr⟩
  · exact (h.unselected_of_wrapper hread).1
  · cases hr with
    | kept hunselected => exact hunselected
    | moved => exact h.wrapperId_unselected

theorem inner_argument_cases (h : p.Yields packed nested) {id name : String} {b : Argument}
    (hb : p.innerGraph.argument? id name = some b) :
    ∃ a, p.graph.argument? id name = some a ∧
      Fed p.selection p.parent nested packed.wrapper a b := by
  have hid := h.containsTask_innerGraph_iff.1 (Graph.containsTask_of_argument? hb)
  rw [argument?_innerGraph hid] at hb
  obtain ⟨a, ha, rfl⟩ := Option.map_eq_some_iff.1 hb
  exact ⟨a, ha, h.fed_innerArgument hid ha⟩

theorem packedWiring (h : p.Yields packed nested) :
    PackedWiring p.selection p.parent p.graph packed.wrapperId packed.wrapper nested p.innerGraph
      (packed.applied p.selection p.parent p.graph)
      (packed.appliedGraph p.selection p.graph) where
  wrapper_fresh := fun hw => h.ne_wrapperId hw rfl
  wrapper_placed := h.task?_wrapperId
  outer_tasks := fun id => h.containsTask_appliedGraph_iff
  inner_tasks := fun id => h.containsTask_innerGraph_iff
  outer_task := by
    intro id t hid ht
    exact ⟨_, Packed.task?_appliedGraph_of_rest ht hid⟩
  inner_task := by
    intro id t hid ht
    have hinner : p.innerGraph.task? id = some (p.innerTask t) := by
      rw [task?_innerGraph, if_pos hid, ht, Option.map_some]
    exact ⟨_, _, p.agree_nestedPlace _, hinner⟩
  outside := fun id hid hunselected name => h.rel_argument? hid hunselected name
  bindings := h.rel_outputValues
  inside := by
    intro id hid name
    rw [argument?_innerGraph hid]
    cases ha : p.graph.argument? id name with
    | none => exact .none
    | some a => exact .some (h.fed_innerArgument hid ha)
  unread := fun site o => h.unselected_of_source?
  inputs_kept := List.filter_sublist
  inputs_removed := by
    intro i hi hremoved
    rw [Packed.mem_inputs_applied_iff] at hremoved
    simp only [hi, true_and, Classical.not_imp, not_exists] at hremoved
    rw [h.lifted_eq, contains_lifted_iff_value?] at hremoved
    exact hremoved

end Packing.Yields

/-- Packing a selection and putting the wrapper in its place preserves the wiring of the graph. The
selection is packed unless the codec fails. -/
theorem Component.wiring_of_pack_apply (host : Host) (options : PackOptions)
    (selection : Selection) {parent : Component} {g : Graph} (hg : parent.graph? = some g)
    (hcheck : selection.check parent g = .ok ()) :
    (∀ packed, parent.pack host options selection = .ok packed → ∃ nested inner result outer,
      packed.wrapper.reference.spec = some nested ∧ nested.graph? = some inner ∧
      packed.apply selection parent = .ok result ∧ result.graph? = some outer ∧
      PackedWiring selection parent g packed.wrapperId packed.wrapper nested inner result outer) ∧
    ((∀ c, ∃ text, host.codec.serialize c = .ok text) →
      ∃ packed, parent.pack host options selection = .ok packed) := by
  refine ⟨?_, fun hcodec => exists_pack hg hcheck hcodec⟩
  intro packed hpack
  obtain ⟨-, nested, hyields⟩ := yields_of_pack hg hpack
  exact ⟨nested, _, _, _, hyields.spec_eq, hyields.graph?_eq, Packed.apply_eq_ok hg,
    Packed.graph?_applied, hyields.packedWiring⟩

/-- A graph whose middle task reads two sources and is read by a task and by an output. -/
def trainingGraph : Graph where
  tasks := NameMap.ofList [
    ("load", { reference := {}, arguments := .ofList [("path", .graphInput "path")] }),
    ("train", { reference := {}, arguments := .ofList [("data", .taskOutput ⟨"load", "rows"⟩),
      ("path", .graphInput "path"), ("rate", .literal "0.1")] }),
    ("report", { reference := {}, arguments := .ofList [
      ("model", .taskOutput ⟨"train", "model"⟩)] })]
  outputValues := .ofList [("model", ⟨"train", "model"⟩)]

def trainingPipeline : Component where
  inputs := [{ name := "path", value := some "rows.csv" }]
  outputs := [{ name := "model" }]
  implementation := some (.graph trainingGraph)

/-- The middle task with the input, whose value is lifted, and with the output. -/
def trainingSelection : Selection :=
  .ofList [(.task, "train"), (.input, "path"), (.output, "model")]

theorem wiring_of_pack_apply_training :
    trainingPipeline.graph? = some trainingGraph ∧
    trainingSelection.check trainingPipeline trainingGraph = .ok () ∧
    ∃ packed nested inner result outer, trainingPipeline.pack {} {} trainingSelection = .ok packed ∧
      packed.wrapper.reference.spec = some nested ∧ nested.graph? = some inner ∧
      packed.apply trainingSelection trainingPipeline = .ok result ∧ result.graph? = some outer ∧
      PackedWiring trainingSelection trainingPipeline trainingGraph packed.wrapperId packed.wrapper
        nested inner result outer := by
  have hg : trainingPipeline.graph? = some trainingGraph := rfl
  have hcheck : trainingSelection.check trainingPipeline trainingGraph = .ok () := rfl
  obtain ⟨hwiring, hpack⟩ := Component.wiring_of_pack_apply {} {} trainingSelection hg hcheck
  obtain ⟨packed, hpacked⟩ := hpack fun c => ⟨c.text, rfl⟩
  obtain ⟨nested, inner, result, outer, h⟩ := hwiring packed hpacked
  exact ⟨hg, hcheck, packed, nested, inner, result, outer, hpacked, h⟩

end TaskGraph
