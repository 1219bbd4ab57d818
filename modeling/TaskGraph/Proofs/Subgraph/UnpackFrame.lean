import TaskGraph.Proofs.Subgraph.UnpackWiring

/-!
# Unpacking disturbs nothing else

Whatever the nested graph looks like, the tasks of the result are those of the parent without the
wrapper and one for each inner task, under an id that no task of the parent has. The tasks beside
the wrapper change only where they read the wrapper, and so do the output bindings. New inputs and
outputs come behind those of the parent and share a name neither with them nor among themselves.
-/
namespace TaskGraph

/-- Elements come behind those of a list, under names that are new and pairwise distinct. -/
def ExtendedBy {α : Type} (nameOf : α → String) (old new : List α) : Prop :=
  ∃ added, new = old ++ added ∧ (added.map nameOf).Nodup ∧ ∀ a ∈ added, nameOf a ∉ old.map nameOf

/-- What unpacking the wrapper leaves as it was in `parent` and in its graph `outer`; `graph` is
then the graph of `result`. -/
structure UnpackedFrame (parent : Component) (outer : Graph) (wrapperId : String) (inner : Graph)
    (result : Component) (graph : Graph) (rename : String → String) : Prop where
  rename_injective : ∀ i j, inner.containsTask i → inner.containsTask j →
    rename i = rename j → i = j
  rename_fresh : ∀ i, inner.containsTask i → ¬ outer.containsTask (rename i)
  ids : graph.tasks.keys.Perm
    (outer.tasks.keys.erase wrapperId ++ inner.tasks.keys.map rename)
  size : graph.tasks.size + 1 = outer.tasks.size + inner.tasks.size
  sibling : ∀ k t, k ≠ wrapperId → outer.task? k = some t →
    ∃ arguments, graph.task? k = some { t with arguments }
  argument : ∀ k name a, k ≠ wrapperId → outer.argument? k name = some a →
    (∀ output, a ≠ .taskOutput ⟨wrapperId, output⟩) → graph.argument? k name = some a
  no_argument : ∀ k name, k ≠ wrapperId → outer.containsTask k →
    outer.argument? k name = none → graph.argument? k name = none
  binding : ∀ name o, outer.outputValues.get? name = some o → o.task ≠ wrapperId →
    graph.outputValues.get? name = some o
  no_binding : ∀ name, parent.hasOutput name → outer.outputValues.get? name = none →
    graph.outputValues.get? name = none
  inputs : ExtendedBy (·.name) parent.inputs result.inputs
  outputs : ExtendedBy (·.name) parent.outputs result.outputs
  name : result.name = parent.name
  description : result.description = parent.description
  metadata : result.metadata = parent.metadata

theorem Materialized.extendedBy {α : Type} {nameOf : α → String} {rename : α → String → α}
    (hname : ∀ a name, nameOf (rename a name) = name) (old l : List α) :
    ExtendedBy nameOf old (old ++ (addAll nameOf rename (old.map nameOf) l).elements) :=
  ⟨_, rfl, nodup_elements hname l, fun _ ha => notMem_of_mem_elements hname ha⟩

namespace Unpacking

variable {u : Unpacking}

theorem inputs_extendedBy (u : Unpacking) :
    ExtendedBy (·.name) u.parent.inputs u.result.inputs := by
  rw [inputs_result, inputs_eq]
  exact Materialized.extendedBy (fun _ _ => rfl) _ _

theorem outputs_extendedBy (u : Unpacking) :
    ExtendedBy (·.name) u.parent.outputs u.result.outputs := by
  rw [outputs_result, outputs_eq]
  exact Materialized.extendedBy (fun _ _ => rfl) _ _

theorem keys_graph_perm (hw : u.outer.containsTask u.wrapperId) :
    u.graph.tasks.keys.Perm
      (u.outer.tasks.keys.erase u.wrapperId ++ u.inner.tasks.keys.map u.newId) := by
  have houter := NameMap.From.keys_nodup u.outer.tasks
  have hdisjoint : List.Disjoint (u.outer.tasks.keys.erase u.wrapperId)
      (u.inner.tasks.keys.map u.newId) := by
    intro k hold hnew
    obtain ⟨i, hi, rfl⟩ := List.mem_map.1 hnew
    exact newId_fresh (Graph.mem_taskKeys_iff.1 hi)
      (Graph.mem_taskKeys_iff.1 (List.mem_of_mem_erase hold))
  have hnodup := (houter.erase u.wrapperId).append u.nodup_newIds hdisjoint
  rw [List.perm_ext_iff_of_nodup (NameMap.From.keys_nodup _) hnodup]
  intro k
  rw [Graph.mem_taskKeys_iff, containsTask_graph_iff hw, List.mem_append, houter.mem_erase_iff,
    List.mem_map, or_comm, and_comm]
  simp only [Graph.mem_taskKeys_iff]

theorem size_graph (hw : u.outer.containsTask u.wrapperId) :
    u.graph.tasks.size + 1 = u.outer.tasks.size + u.inner.tasks.size := by
  have hkeys := (keys_graph_perm hw).length_eq
  have herase := List.length_erase_add_one (Graph.mem_taskKeys_iff.2 hw)
  rw [List.length_append, List.length_map] at hkeys
  simp only [NameMap.From.size_eq_length]
  omega

/-- An argument that reads no output of the wrapper stays. -/
theorem reconnectArgument_of_ne {a : Argument}
    (h : ∀ output, a ≠ .taskOutput ⟨u.wrapperId, output⟩) : u.reconnectArgument a = some a := by
  cases a with
  | literal value => rfl
  | graphInput name => rfl
  | secret name => rfl
  | taskOutput o =>
    have hne : o.task ≠ u.wrapperId := by
      intro heq
      exact h o.output (by rw [← heq])
    rw [reconnectArgument, reconnect_of_ne hne, Option.map_some]

theorem unpackedFrame (hw : u.outer.containsTask u.wrapperId)
    (hbindings : ∀ name ∈ u.outer.outputValues.keys, u.parent.hasOutput name) :
    UnpackedFrame u.parent u.outer u.wrapperId u.inner u.result u.graph u.newId where
  rename_injective := fun i j hi hj h => newId_injective hi hj h
  rename_fresh := fun i hi => newId_fresh hi
  ids := keys_graph_perm hw
  size := size_graph hw
  sibling := by
    intro k t hne ht
    exact ⟨_, task?_graph_of_outer ht hne⟩
  argument := by
    intro k name a hne ha hother
    rw [argument?_graph_of_outer (Graph.containsTask_of_argument? ha) hne, ha, Option.bind_some,
      reconnectArgument_of_ne hother]
  no_argument := by
    intro k name hne hk ha
    rw [argument?_graph_of_outer hk hne, ha, Option.bind_none]
  binding := by
    intro name o ho hne
    rw [get?_outputValues_graph_of_outer hbindings (NameMap.From.contains_of_get? ho), ho,
      Option.bind_some, reconnect_of_ne hne]
  no_binding := by
    intro name hname hnone
    rw [get?_outputValues_graph_of_hasOutput hname, hnone, Option.bind_none]
  inputs := u.inputs_extendedBy
  outputs := u.outputs_extendedBy
  name := rfl
  description := rfl
  metadata := rfl

end Unpacking

/-- Unpacking touches nothing but the wrapper and what reads it, however malformed the nested graph
is, provided that only declared outputs of the parent are bound. -/
theorem Component.frame_of_unpack {resolve : Resolver} {task : String} {parent : Component}
    {outer : Graph} {wrapper : Task} {nested : Component} {inner : Graph}
    (hparent : parent.graph? = some outer) (hwrapper : outer.task? task = some wrapper)
    (hresolve : resolve wrapper.reference = some nested) (hnested : nested.graph? = some inner)
    (hbindings : ∀ name ∈ outer.outputValues.keys, parent.hasOutput name) :
    ∃ result graph rename, parent.unpack resolve task = .ok result ∧
      result.graph? = some graph ∧
      UnpackedFrame parent outer task inner result graph rename := by
  let u : Unpacking := ⟨task, wrapper, nested, inner, parent, outer⟩
  have hw : u.outer.containsTask u.wrapperId := Graph.containsTask_iff.2 ⟨wrapper, hwrapper⟩
  exact ⟨u.result, u.graph, u.newId, unpack_eq_ok hparent hwrapper hresolve hnested,
    u.graph?_result, Unpacking.unpackedFrame hw hbindings⟩

/-- A malformed graph: its two ids contend for one name beside a parent that has it too, both inputs
and both outputs share a name, and one edge dangles. -/
def tangledGraph : Graph where
  tasks := NameMap.ofList [
    ("trim", { reference := {}, arguments := .ofList [
      ("reads", .graphInput "reads"), ("index", .taskOutput ⟨"gone", "index"⟩)] }),
    ("trim 2", { reference := {}, arguments := .ofList [
      ("reads", .taskOutput ⟨"trim", "reads"⟩)] })]
  outputValues := .ofList [("reads", ⟨"trim 2", "reads"⟩), ("log", ⟨"gone", "log"⟩)]

def tangledTrimmer : Component where
  inputs := [{ name := "reads" }, { name := "reads", default := some "none" }]
  outputs := [{ name := "reads" }, { name := "log" }, { name := "log" }]
  implementation := some (.graph tangledGraph)

def trimmedGraph : Graph where
  tasks := NameMap.ofList [
    ("prepare", { reference := .toComponent tangledTrimmer }),
    ("trim", { reference := {}, arguments := .ofList [
      ("first", .taskOutput ⟨"prepare", "reads"⟩), ("second", .graphInput "reads")] })]
  outputValues := .ofList [("log", ⟨"trim", "log"⟩)]

def trimmedPipeline : Component where
  inputs := [{ name := "reads" }]
  outputs := [{ name := "log" }]
  implementation := some (.graph trimmedGraph)

theorem frame_of_unpack_trimmed :
    trimmedPipeline.graph? = some trimmedGraph ∧
    trimmedGraph.task? "prepare" = some { reference := .toComponent tangledTrimmer } ∧
    (∀ name ∈ trimmedGraph.outputValues.keys, trimmedPipeline.hasOutput name) ∧
    ∃ result graph rename,
      trimmedPipeline.unpack .inline "prepare" = .ok result ∧ result.graph? = some graph ∧
      UnpackedFrame trimmedPipeline trimmedGraph "prepare" tangledGraph result graph rename :=
  ⟨rfl, rfl, by decide, Component.frame_of_unpack rfl rfl rfl rfl (by decide)⟩

end TaskGraph
