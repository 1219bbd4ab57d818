import TaskGraph.Proofs.Subgraph.Unpacking

/-!
# The graph after unpacking

Besides the tasks of the parent without the wrapper the graph holds exactly the inner tasks, each
under its new id. It is read argument by argument and binding by binding; what is read of the
wrapper is read of whatever the wrapper bound to that output, or of nothing if it bound nothing.
-/
namespace TaskGraph

namespace Unpacking

variable {u : Unpacking}

/-- The graph with the inner tasks in the place of the wrapper. -/
def graph (u : Unpacking) : Graph :=
  u.outer
    |> u.withInnerTasks u.taskIds u.inputs.names
    |> u.withNewBindings u.taskIds u.outputs.names
    |> u.withoutWrapper u.taskIds

theorem graph?_result (u : Unpacking) : u.result.graph? = some u.graph := rfl

theorem inputs_result (u : Unpacking) :
    u.result.inputs = u.parent.inputs ++ u.inputs.elements := rfl

theorem outputs_result (u : Unpacking) :
    u.result.outputs = u.parent.outputs ++ u.outputs.elements := rfl

/-- What an argument reads once the wrapper is gone. -/
def reconnectArgument (u : Unpacking) : Argument → Option Argument
  | .taskOutput o => (u.reconnect u.taskIds o).map .taskOutput
  | a => some a

/-- What an argument of an inner task reads in the parent once the wrapper is gone. -/
def spliceArgument (u : Unpacking) (a : Argument) : Option Argument :=
  u.reconnectArgument (u.outerArgument u.taskIds u.inputs.names a)

theorem reconnect_of_ne {o : TaskOutput} (h : o.task ≠ u.wrapperId) :
    u.reconnect u.taskIds o = some o :=
  if_neg h

theorem bind_taskOutput?_reconnectArgument (o : TaskOutput) :
    (u.reconnectArgument (.taskOutput o)).bind (·.taskOutput?) = u.reconnect u.taskIds o := by
  rw [reconnectArgument]
  cases u.reconnect u.taskIds o <;> rfl

theorem nodup_newIds (u : Unpacking) : (u.inner.tasks.keys.map u.newId).Nodup :=
  List.Nodup.map_on (fun _ hi _ hj => newId_injective (Graph.mem_taskKeys_iff.1 hi)
    (Graph.mem_taskKeys_iff.1 hj)) (NameMap.From.keys_nodup _)

theorem tasks_withInnerTasks (u : Unpacking) (names : NameMap String) (g : Graph) :
    (u.withInnerTasks u.taskIds names g).tasks = NameMap.insertAll g.tasks
      (u.inner.tasks.toList.map fun e => (u.newId e.1, u.outerTask u.taskIds names e.2)) := by
  rw [NameMap.insertAll, List.foldl_map]
  rfl

theorem map_fst_withInnerTasks (u : Unpacking) (names : NameMap String) :
    (u.inner.tasks.toList.map fun e => (u.newId e.1, u.outerTask u.taskIds names e.2)).map (·.1) =
      u.inner.tasks.keys.map u.newId := by
  rw [NameMap.From.keys_eq_map, List.map_map, List.map_map]
  rfl

/-- An inner task stands under its new id. -/
theorem task?_withInnerTasks_newId {names : NameMap String} {g : Graph} {i : String} {t : Task}
    (ht : u.inner.task? i = some t) :
    (u.withInnerTasks u.taskIds names g).task? (u.newId i) =
      some (u.outerTask u.taskIds names t) := by
  rw [Graph.task?, tasks_withInnerTasks]
  apply NameMap.get?_insertAll_of_mem
  · rw [map_fst_withInnerTasks]
    exact u.nodup_newIds
  · exact List.mem_map.2 ⟨(i, t), NameMap.From.mem_toList_iff.2 ht, rfl⟩

theorem task?_withInnerTasks_of_ne {names : NameMap String} {g : Graph} {k : String}
    (h : ∀ i, u.inner.containsTask i → u.newId i ≠ k) :
    (u.withInnerTasks u.taskIds names g).task? k = g.task? k := by
  rw [Graph.task?, tasks_withInnerTasks]
  apply NameMap.get?_insertAll_of_notMem
  rw [map_fst_withInnerTasks, List.mem_map]
  rintro ⟨i, hi, heq⟩
  exact h i (Graph.mem_taskKeys_iff.1 hi) heq

theorem task?_graph (u : Unpacking) (k : String) :
    u.graph.task? k = if k = u.wrapperId then none else
      ((u.withInnerTasks u.taskIds u.inputs.names u.outer).task? k).map fun t =>
        { t with arguments := t.arguments.filterMap fun _ a => u.reconnectArgument a } := by
  rw [Graph.task?, graph, withoutWrapper, NameMap.From.get?_map, NameMap.From.get?_erase]
  by_cases hk : k = u.wrapperId
  · rw [if_pos hk, if_pos hk, Option.map_none]
  · rw [if_neg hk, if_neg hk]
    congr 1

theorem newId_ne_wrapperId (hw : u.outer.containsTask u.wrapperId) {i : String}
    (hi : u.inner.containsTask i) : u.newId i ≠ u.wrapperId :=
  fun heq => newId_fresh hi (heq ▸ hw)

theorem newId_ne_of_outer {i k : String} (hk : u.outer.containsTask k)
    (hi : u.inner.containsTask i) : u.newId i ≠ k :=
  fun heq => newId_fresh hi (heq ▸ hk)

theorem task?_graph_newId (hw : u.outer.containsTask u.wrapperId) {i : String} {t : Task}
    (ht : u.inner.task? i = some t) :
    u.graph.task? (u.newId i) = some { t with
      arguments := t.arguments.filterMap fun _ a => u.spliceArgument a
      annotations := u.place t.annotations } := by
  have hne := newId_ne_wrapperId hw (Graph.containsTask_iff.2 ⟨t, ht⟩)
  rw [task?_graph, if_neg hne, task?_withInnerTasks_newId ht, Option.map_some, Option.some.injEq,
    outerTask]
  congr 1
  ext name : 1
  rw [NameMap.From.get?_filterMap, NameMap.From.get?_filterMap, NameMap.From.get?_map]
  cases t.arguments.get? name <;> rfl

theorem task?_graph_of_outer {k : String} {t : Task} (ht : u.outer.task? k = some t)
    (hne : k ≠ u.wrapperId) :
    u.graph.task? k = some { t with
      arguments := t.arguments.filterMap fun _ a => u.reconnectArgument a } := by
  have hk : u.outer.containsTask k := Graph.containsTask_iff.2 ⟨t, ht⟩
  rw [task?_graph, if_neg hne, task?_withInnerTasks_of_ne fun i hi => newId_ne_of_outer hk hi, ht,
    Option.map_some]

/-- The tasks are the inner ones and those of the parent without the wrapper. -/
theorem containsTask_graph_iff (hw : u.outer.containsTask u.wrapperId) {k : String} :
    u.graph.containsTask k ↔ (∃ i, u.inner.containsTask i ∧ u.newId i = k) ∨
      u.outer.containsTask k ∧ k ≠ u.wrapperId := by
  constructor
  · intro hk
    obtain ⟨t, ht⟩ := Graph.containsTask_iff.1 hk
    by_cases hinner : ∃ i, u.inner.containsTask i ∧ u.newId i = k
    · exact .inl hinner
    · right
      rw [task?_graph, Option.ite_none_left_eq_some, task?_withInnerTasks_of_ne,
        Option.map_eq_some_iff] at ht
      · obtain ⟨hne, t', ht', -⟩ := ht
        exact ⟨Graph.containsTask_iff.2 ⟨t', ht'⟩, hne⟩
      · intro i hi heq
        exact hinner ⟨i, hi, heq⟩
  · rintro (⟨i, hi, rfl⟩ | ⟨hk, hne⟩)
    · obtain ⟨t, ht⟩ := Graph.containsTask_iff.1 hi
      exact Graph.containsTask_iff.2 ⟨_, task?_graph_newId hw ht⟩
    · obtain ⟨t, ht⟩ := Graph.containsTask_iff.1 hk
      exact Graph.containsTask_iff.2 ⟨_, task?_graph_of_outer ht hne⟩

theorem argument?_graph_newId (hw : u.outer.containsTask u.wrapperId) {i : String}
    (hi : u.inner.containsTask i) (name : String) :
    u.graph.argument? (u.newId i) name = (u.inner.argument? i name).bind u.spliceArgument := by
  obtain ⟨t, ht⟩ := Graph.containsTask_iff.1 hi
  rw [Graph.argument?_of_task? (task?_graph_newId hw ht), Graph.argument?_of_task? ht,
    NameMap.From.get?_filterMap]

theorem argument?_graph_of_outer {k : String} (hk : u.outer.containsTask k)
    (hne : k ≠ u.wrapperId) (name : String) :
    u.graph.argument? k name = (u.outer.argument? k name).bind u.reconnectArgument := by
  obtain ⟨t, ht⟩ := Graph.containsTask_iff.1 hk
  rw [Graph.argument?_of_task? (task?_graph_of_outer ht hne), Graph.argument?_of_task? ht,
    NameMap.From.get?_filterMap]

/-- The bindings of the new outputs, as they are before the wrapper is gone. -/
def newBindings (u : Unpacking) : List (String × TaskOutput) :=
  u.outputs.names.toList.filterMap fun e =>
    (u.inner.outputValues.get? e.1).map fun o => (e.2, redirect u.taskIds o)

theorem mem_newBindings_iff {new : String} {o : TaskOutput} :
    (new, o) ∈ u.newBindings ↔ ∃ x source, u.outputs.names.get? x = some new ∧
      u.inner.outputValues.get? x = some source ∧ redirect u.taskIds source = o := by
  rw [newBindings, List.mem_filterMap]
  constructor
  · rintro ⟨⟨x, k⟩, hmem, heq⟩
    obtain ⟨source, hsource, heq⟩ := Option.map_eq_some_iff.1 heq
    cases heq
    exact ⟨x, source, NameMap.From.mem_toList_iff.1 hmem, hsource, rfl⟩
  · rintro ⟨x, source, hx, hsource, rfl⟩
    exact ⟨(x, new), NameMap.From.mem_toList_iff.2 hx, by rw [hsource]; rfl⟩

/-- No two nested outputs get the same new output. -/
theorem nodup_values_outputNames (u : Unpacking) : (u.outputs.names.toList.map (·.2)).Nodup := by
  apply (NameMap.From.nodup_toList _).map_on
  rintro ⟨x, new⟩ hx ⟨y, new'⟩ hy (rfl : new = new')
  rw [NameMap.From.mem_toList_iff, outputs_eq] at hx hy
  rw [Materialized.eq_of_get?_names hx hy]

theorem nodup_newBindings (u : Unpacking) : (u.newBindings.map (·.1)).Nodup := by
  refine nodup_map_filterMap ?_ u.nodup_values_outputNames
  intro e b heq
  obtain ⟨o, -, rfl⟩ := Option.map_eq_some_iff.1 heq
  rfl

theorem outputValues_graph (u : Unpacking) :
    u.graph.outputValues = (u.outer.outputValues.insertAll u.newBindings).filterMap
      fun _ o => u.reconnect u.taskIds o := by
  rw [newBindings, NameMap.insertAll, List.foldl_filterMap]
  simp only [graph, withoutWrapper, withNewBindings, withInnerTasks]
  congr 2
  funext values e
  cases u.inner.outputValues.get? e.1 <;> rfl

theorem get?_outputValues_graph_new {x new : String} {o : TaskOutput}
    (hx : u.outputs.names.get? x = some new) (ho : u.inner.outputValues.get? x = some o) :
    u.graph.outputValues.get? new = u.reconnect u.taskIds (redirect u.taskIds o) := by
  have hmem : (new, redirect u.taskIds o) ∈ u.newBindings :=
    mem_newBindings_iff.2 ⟨x, o, hx, ho, rfl⟩
  rw [outputValues_graph, NameMap.From.get?_filterMap,
    NameMap.get?_insertAll_of_mem u.nodup_newBindings hmem, Option.bind_some]

theorem get?_outputValues_graph_of_ne {name : String}
    (h : ∀ x, u.outputs.names.get? x ≠ some name) :
    u.graph.outputValues.get? name =
      (u.outer.outputValues.get? name).bind (u.reconnect u.taskIds) := by
  rw [outputValues_graph, NameMap.From.get?_filterMap, NameMap.get?_insertAll_of_notMem]
  intro hmem
  obtain ⟨⟨new, o⟩, hbinding, rfl⟩ := List.mem_map.1 hmem
  obtain ⟨x, source, hx, -⟩ := mem_newBindings_iff.1 hbinding
  exact h x hx

end Unpacking

end TaskGraph
