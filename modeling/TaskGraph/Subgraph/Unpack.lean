import TaskGraph.Subgraph.Pack

/-!
# Unpacking a task

Unpacking replaces a task that instantiates a graph, the wrapper, by the tasks of that graph. They
get ids that are free in the parent. What they read from the nested inputs they then read from where
the wrapper did, or from new inputs of the parent where the wrapper gave a literal or nothing. What
was read of the wrapper is read of the inner task that the nested output is bound to.
-/
namespace TaskGraph

structure Unpacking where
  wrapperId : String
  wrapper : Task
  nested : Component
  inner : Graph
  parent : Component
  outer : Graph

/-- New inputs of the parent, and which nested input each of them stands for. -/
structure Materialized (α : Type) where
  elements : List α := []
  names : NameMap String := ∅

namespace Unpacking

variable (u : Unpacking)

def place (a : Annotations) : Annotations :=
  match Position.centroid (u.inner.tasks.values.filterMap (·.position?)), u.wrapper.position? with
  | some source, some target => a.mapPosition (·.rebase source target)
  | _, _ => a

def addInput (default : Option String) (m : Materialized Input) (i : Input) :
    Materialized Input :=
  let taken := u.parent.inputs.map (·.name) ++ m.elements.map (·.name)
  let name := freshName i.name taken
  { elements := m.elements ++
      [{ i with name, default, value := none, annotations := u.place i.annotations }]
    names := m.names.insert i.name name }

/-- A new input for each nested input to which the wrapper gives a literal or nothing. The literal
becomes its default. -/
def inputs : Materialized Input :=
  u.nested.inputs.foldl (fun m i =>
    match u.wrapper.arguments.get? i.name with
    | some (.literal value) => u.addInput (some value) m i
    | none => u.addInput i.default m i
    | some _ => m) {}

def addOutput (m : Materialized Output) (o : Output) : Materialized Output :=
  let taken := u.parent.outputs.map (·.name) ++ m.elements.map (·.name)
  let name := freshName o.name taken
  { elements := m.elements ++ [{ o with name, annotations := u.place o.annotations }]
    names := m.names.insert o.name name }

/-- A new output for each nested output that is bound and that nothing in the parent reads. -/
def outputs : Materialized Output :=
  let read := (u.outer.consumersOf u.wrapperId).map (·.2.output)
  u.nested.outputs.foldl (fun m o =>
    if o.name ∈ read || !u.inner.outputValues.contains o.name then m else u.addOutput m o) {}

def taskIds : NameMap String :=
  (u.inner.tasks.keys.foldl (fun (ids, taken) id =>
      let new := freshName id taken
      (NameMap.insert ids id new, taken ++ [new])) ((∅ : NameMap String), u.outer.tasks.keys)).1

/-- An inner task output in terms of the parent. An id that no inner task has stays as it is. -/
def redirect (ids : NameMap String) (o : TaskOutput) : TaskOutput :=
  { o with task := (ids.get? o.task).getD o.task }

def outerArgument (ids inputNames : NameMap String) : Argument → Argument
  | .taskOutput o => .taskOutput (redirect ids o)
  | .graphInput name =>
    match inputNames.get? name with
    | some new => .graphInput new
    | none => (u.wrapper.arguments.get? name).getD (.graphInput name)
  | a => a

def outerTask (ids inputNames : NameMap String) (t : Task) : Task :=
  { t with
    arguments := t.arguments.map fun _ a => u.outerArgument ids inputNames a
    annotations := u.place t.annotations }

def withInnerTasks (ids inputNames : NameMap String) (g : Graph) : Graph :=
  { g with tasks := u.inner.tasks.toList.foldl (fun tasks (id, t) =>
      NameMap.insert tasks ((ids.get? id).getD id) (u.outerTask ids inputNames t)) g.tasks }

def withNewBindings (ids outputNames : NameMap String) (g : Graph) : Graph :=
  { g with outputValues := outputNames.toList.foldl (fun values (nested, new) =>
      match u.inner.outputValues.get? nested with
      | some source => values.insert new (redirect ids source)
      | none => values) g.outputValues }

/-- What a site reads once the wrapper is gone; nothing if it read an output that is not bound. -/
def reconnect (ids : NameMap String) (o : TaskOutput) : Option TaskOutput :=
  if o.task = u.wrapperId then (u.inner.outputValues.get? o.output).map (redirect ids) else some o

def withoutWrapper (ids : NameMap String) (g : Graph) : Graph where
  outputValues := g.outputValues.filterMap fun _ o => u.reconnect ids o
  tasks := (g.tasks.erase u.wrapperId).map fun _ t =>
    { t with arguments := t.arguments.filterMap fun _ a =>
        match a with
        | .taskOutput o => (u.reconnect ids o).map .taskOutput
        | a => some a }

def result : Component :=
  let ids := u.taskIds
  let inputs := u.inputs
  let outputs := u.outputs
  let graph := u.outer
    |> u.withInnerTasks ids inputs.names
    |> u.withNewBindings ids outputs.names
    |> u.withoutWrapper ids
  { u.parent.withGraph graph with
    inputs := u.parent.inputs ++ inputs.elements
    outputs := u.parent.outputs ++ outputs.elements }

end Unpacking

/-- Replaces a task by the contents of its graph. If its component does not resolve or is no graph,
the parent stays as it is. -/
def Component.unpack (resolve : Resolver) (task : String) (parent : Component) :
    Except EditError Component := do
  let outer ← parent.requireGraph
  match outer.task? task with
  | none => .error (.taskNotFound task)
  | some wrapper =>
    match resolve wrapper.reference with
    | none => .ok parent
    | some nested =>
      match nested.graph? with
      | none => .ok parent
      | some inner => .ok (Unpacking.result ⟨task, wrapper, nested, inner, parent, outer⟩)

end TaskGraph
