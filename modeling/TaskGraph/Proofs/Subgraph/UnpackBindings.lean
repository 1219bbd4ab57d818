import TaskGraph.Proofs.Subgraph.UnpackWiring

/-!
# Output bindings under new names

A nested output that is bound and not read surfaces: it becomes a new output of the parent, under a
name that the parent does not declare. But a parent may also bind names that it does not declare,
and the new outputs are bound without a look at these. So a binding that does not read the wrapper
stays as it is, unless its name goes to a new output. Then the binding of that output replaces it;
and a name that the parent does not declare always goes to a new output if a nested output of that
name surfaces.
-/
namespace TaskGraph

/-- The nested output becomes an output of the parent: it is declared and bound, and nothing in the
parent reads it. -/
def Surfaces (outer : Graph) (wrapperId : String) (nested : Component) (inner : Graph)
    (output : String) : Prop :=
  nested.hasOutput output ∧ inner.outputValues.contains output ∧
    ∀ site, outer.source? site ≠ some ⟨wrapperId, output⟩

/-- What becomes of the output bindings of `outer`, the graph of `parent`, when a wrapper of `inner`
is unpacked; `graph` is then the graph of `result`. The bindings of the outputs that surface replace
what is bound under their new names, and the other bindings only follow the wrapper. -/
structure UnpackedBindings (parent : Component) (outer : Graph) (wrapperId : String)
    (nested : Component) (inner : Graph) (result : Component) (graph : Graph)
    (rename outputName : String → String) : Prop where
  rename_injective : ∀ i j, inner.containsTask i → inner.containsTask j →
    rename i = rename j → i = j
  rename_fresh : ∀ i, inner.containsTask i → ¬ outer.containsTask (rename i)
  outputName_injective : ∀ x y, Surfaces outer wrapperId nested inner x →
    Surfaces outer wrapperId nested inner y → outputName x = outputName y → x = y
  outputName_new : ∀ x, Surfaces outer wrapperId nested inner x →
    ¬ parent.hasOutput (outputName x) ∧ result.hasOutput (outputName x)
  kept : ∀ name o, outer.outputValues.get? name = some o → o.task ≠ wrapperId →
    (∀ x, Surfaces outer wrapperId nested inner x → outputName x ≠ name) →
    graph.outputValues.get? name = some o
  followed : ∀ name output, outer.outputValues.get? name = some ⟨wrapperId, output⟩ →
    (∀ x, Surfaces outer wrapperId nested inner x → outputName x ≠ name) →
    Followed rename wrapperId inner ⟨wrapperId, output⟩ (graph.outputValues.get? name)
  replaced : ∀ x source, Surfaces outer wrapperId nested inner x →
    inner.outputValues.get? x = some source →
    Followed rename wrapperId inner ⟨rename source.task, source.output⟩
      (graph.outputValues.get? (outputName x))
  lost : ∀ x source o, Surfaces outer wrapperId nested inner x →
    inner.outputValues.get? x = some source → inner.containsTask source.task →
    outer.outputValues.get? (outputName x) = some o → outer.containsTask o.task →
    graph.outputValues.get? (outputName x) ≠ some o
  clash : (nested.outputs.map (·.name)).Nodup → ∀ x, Surfaces outer wrapperId nested inner x →
    ¬ parent.hasOutput x → ∃ y, Surfaces outer wrapperId nested inner y ∧ outputName y = x

namespace Unpacking

variable {u : Unpacking}

def outputName (u : Unpacking) (x : String) : String := (u.outputs.names.get? x).getD x

theorem surfaces_of_get?_outputNames {x new : String} (h : u.outputs.names.get? x = some new) :
    Surfaces u.outer u.wrapperId u.nested u.inner x ∧ u.outputName x = new :=
  ⟨of_get?_outputNames h, by rw [outputName, h, Option.getD_some]⟩

theorem get?_outputNames_of_surfaces {x : String}
    (h : Surfaces u.outer u.wrapperId u.nested u.inner x) :
    u.outputs.names.get? x = some (u.outputName x) := by
  obtain ⟨new, hget⟩ := exists_get?_outputNames h.1 h.2.1 h.2.2
  rw [outputName, hget, Option.getD_some]

theorem eq_of_outputName_eq {x y : String} (hx : Surfaces u.outer u.wrapperId u.nested u.inner x)
    (hy : Surfaces u.outer u.wrapperId u.nested u.inner y)
    (heq : u.outputName x = u.outputName y) : x = y := by
  have hgetx := get?_outputNames_of_surfaces hx
  have hgety := get?_outputNames_of_surfaces hy
  rw [← heq] at hgety
  rw [outputs_eq] at hgetx hgety
  exact Materialized.eq_of_get?_names hgetx hgety

/-- A free name of a nested output that surfaces goes to this or to another one. -/
theorem exists_outputName_eq (hnodup : (u.nested.outputs.map (·.name)).Nodup) {x : String}
    (hx : Surfaces u.outer u.wrapperId u.nested u.inner x) (hfree : ¬ u.parent.hasOutput x) :
    ∃ y, Surfaces u.outer u.wrapperId u.nested u.inner y ∧ u.outputName y = x := by
  obtain ⟨hdeclared, hbound, hunread⟩ := hx
  obtain ⟨o, ho, rfl⟩ := exists_mem_newOutputs hdeclared hbound hunread
  rw [Component.hasOutput_iff] at hfree
  have hkeys := nodup_map_filterMap (fun _ _ => name_of_newOutput? (u := u)) hnodup
  obtain ⟨y, hy⟩ := Materialized.exists_get?_names_eq renameOutput hkeys ho hfree
  rw [← outputs_eq] at hy
  exact ⟨y, surfaces_of_get?_outputNames hy⟩

theorem get?_outputValues_graph_of_other {name : String}
    (h : ∀ x, Surfaces u.outer u.wrapperId u.nested u.inner x → u.outputName x ≠ name) :
    u.graph.outputValues.get? name =
      (u.outer.outputValues.get? name).bind (u.reconnect u.taskIds) := by
  apply get?_outputValues_graph_of_ne
  intro x hx
  obtain ⟨hsurfaces, hname⟩ := surfaces_of_get?_outputNames hx
  exact h x hsurfaces hname

theorem get?_outputValues_graph_outputName {x : String} {source : TaskOutput}
    (hx : Surfaces u.outer u.wrapperId u.nested u.inner x)
    (hsource : u.inner.outputValues.get? x = some source) :
    u.graph.outputValues.get? (u.outputName x) =
      u.reconnect u.taskIds ⟨u.newId source.task, source.output⟩ := by
  rw [get?_outputValues_graph_new (get?_outputNames_of_surfaces hx) hsource, redirect_taskIds]

theorem unpackedBindings (hw : u.outer.containsTask u.wrapperId) :
    UnpackedBindings u.parent u.outer u.wrapperId u.nested u.inner u.result u.graph u.newId
      u.outputName where
  rename_injective := fun i j hi hj h => newId_injective hi hj h
  rename_fresh := fun i hi => newId_fresh hi
  outputName_injective := fun x y hx hy heq => eq_of_outputName_eq hx hy heq
  outputName_new := by
    intro x hx
    have hget := get?_outputNames_of_surfaces hx
    exact ⟨notHasOutput_of_new hget, hasOutput_result_of_new hget⟩
  kept := by
    intro name o ho hne hother
    rw [get?_outputValues_graph_of_other hother, ho, Option.bind_some, reconnect_of_ne hne]
  followed := by
    intro name output ho hother
    rw [get?_outputValues_graph_of_other hother, ho, Option.bind_some]
    exact u.followed_reconnect _
  replaced := by
    intro x source hx hsource
    rw [get?_outputValues_graph_outputName hx hsource]
    exact u.followed_reconnect _
  lost := by
    intro x source o hx hsource hinner _ houter heq
    rw [get?_outputValues_graph_outputName hx hsource,
      reconnect_of_ne (newId_ne_wrapperId hw hinner), Option.some.injEq] at heq
    rw [← heq] at houter
    exact newId_fresh hinner houter
  clash := fun hnodup x hx hfree => exists_outputName_eq hnodup hx hfree

end Unpacking

/-- Unpacking keeps every output binding that does not read the wrapper, unless its name goes to a
new output; such a name is never declared by the parent. Nothing is assumed of the graphs. -/
theorem Component.bindings_of_unpack {resolve : Resolver} {task : String} {parent : Component}
    {outer : Graph} {wrapper : Task} {nested : Component} {inner : Graph}
    (hparent : parent.graph? = some outer) (hwrapper : outer.task? task = some wrapper)
    (hresolve : resolve wrapper.reference = some nested) (hnested : nested.graph? = some inner) :
    ∃ result graph rename outputName, parent.unpack resolve task = .ok result ∧
      result.graph? = some graph ∧
      UnpackedBindings parent outer task nested inner result graph rename outputName := by
  let u : Unpacking := ⟨task, wrapper, nested, inner, parent, outer⟩
  have hw : u.outer.containsTask u.wrapperId := Graph.containsTask_iff.2 ⟨wrapper, hwrapper⟩
  exact ⟨u.result, u.graph, u.newId, u.outputName,
    unpack_eq_ok hparent hwrapper hresolve hnested, u.graph?_result, Unpacking.unpackedBindings hw⟩

def exomeCallGraph : Graph where
  tasks := NameMap.ofList [("call", { reference := {} })]
  outputValues := .ofList [("log", ⟨"call", "log"⟩), ("vcf", ⟨"call", "vcf"⟩)]

def exomeCaller : Component where
  outputs := [{ name := "vcf" }, { name := "log" }]
  implementation := some (.graph exomeCallGraph)

def exomeWrapper : Task where
  reference := .toComponent exomeCaller
  arguments := .ofList [("bam", .taskOutput ⟨"align", "bam"⟩)]

/-- One of the nested outputs is read. Two bindings are for outputs that are not declared, and one
of these has the name of the other nested output. -/
def exomeGraph : Graph where
  tasks := NameMap.ofList [("align", { reference := {} }), ("call", exomeWrapper)]
  outputValues := .ofList [("bam", ⟨"align", "bam"⟩), ("log", ⟨"align", "log"⟩),
    ("variants", ⟨"call", "vcf"⟩)]

def exomePipeline : Component where
  name := some "exome"
  outputs := [{ name := "variants" }]
  implementation := some (.graph exomeGraph)

theorem bindings_of_unpack_exome :
    exomePipeline.graph? = some exomeGraph ∧ exomeGraph.task? "call" = some exomeWrapper ∧
    ∃ result graph rename outputName,
      exomePipeline.unpack .inline "call" = .ok result ∧ result.graph? = some graph ∧
      UnpackedBindings exomePipeline exomeGraph "call" exomeCaller exomeCallGraph result graph
        rename outputName :=
  ⟨rfl, rfl, Component.bindings_of_unpack rfl rfl rfl rfl⟩

/-- The binding of `log` to the task beside the wrapper is replaced by the new one, while that of
`bam` stays. -/
theorem binding_overwritten_by_unpack :
    exomeGraph.outputValues.get? "log" = some ⟨"align", "log"⟩ ∧
    exomeGraph.outputValues.get? "bam" = some ⟨"align", "bam"⟩ ∧
    ∃ result graph, exomePipeline.unpack .inline "call" = .ok result ∧
      result.graph? = some graph ∧
      graph.outputValues.get? "log" = some ⟨"call 2", "log"⟩ ∧
      graph.outputValues.get? "bam" = some ⟨"align", "bam"⟩ :=
  ⟨rfl, rfl, _, _, rfl, rfl, rfl, rfl⟩

end TaskGraph
