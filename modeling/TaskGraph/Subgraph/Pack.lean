import TaskGraph.Author
import TaskGraph.Canvas.Layout
import TaskGraph.Catalog
import TaskGraph.FreshName
import TaskGraph.Subgraph.Boundary
import TaskGraph.Subgraph.Selection

/-!
# Packing a selection

Packing turns selected tasks, inputs and outputs of a graph into a component of their own. What the
selected tasks read from outside becomes an input of the new component, one for each source; what is
read of them from outside becomes an output, one for each task output. The result is a task that
instantiates the new component, and a mapping for each outside site that has to read it.
-/
namespace TaskGraph

structure Host where
  codec : Codec := .compact
  resolve : Resolver := .inline
  author : Option String := none

structure PackOptions where
  name : Option String := none
  layout : Layout := {}

def defaultSubgraphName : String := "Subgraph"

/-- How a site outside has to be rewired: it read `source` and now reads `nestedOutput`. -/
structure Mapping where
  source : TaskOutput
  nestedOutput : String
  target : Site
deriving DecidableEq

structure Packed where
  wrapperId : String
  wrapper : Task
  mappings : List Mapping
  /-- The selected inputs whose values have become arguments of the wrapper. -/
  lifted : NameSet

/-- An input of the new component and the outside source that feeds it. -/
structure Inlet where
  source : Source
  input : Input

/-- An output of the new component and the task output that it exposes. -/
structure Outlet where
  source : TaskOutput
  output : Output

structure Packing where
  parent : Component
  graph : Graph
  selection : Selection
  layout : Layout
  resolve : Resolver

namespace Packing

variable (p : Packing)

def selectedTasks : NameMap Task := p.graph.tasks.filter fun id _ => p.selection.tasks.contains id

def selectedInputs : List Input := p.selection.inputs.keys.filterMap p.parent.input?

def selectedOutputs : List Output := p.selection.outputs.keys.filterMap p.parent.output?

def relation (a : Argument) : Relation := a.relation p.selection.tasks p.selection.inputs

def typeOfTaskOutput? (o : TaskOutput) : Option TypeTag := do
  let t ← p.graph.task? o.task
  let c ← p.resolve t.reference
  (← c.output? o.output).type

def typeOf? : Source → Option TypeTag
  | .taskOutput o => p.typeOfTaskOutput? o
  | .graphInput name => (p.parent.input? name).bind (·.type)

/-- The inlets with one for `source`, if they had none. The first `before` of them belong to earlier
tasks, and the position is that of the task which reads the source. -/
def addInlet (position : Option Position) (before : Nat) (inlets : List Inlet) (source : Source) :
    List Inlet :=
  if inlets.any (·.source = source) then inlets
  else
    let taken := p.selectedInputs.map (·.name) ++ inlets.map (·.input.name)
    let input : Input := { name := freshName source.baseName taken, type := p.typeOf? source }
    inlets ++ [⟨source, match position with
      | some anchor => input.placeAt (p.layout.inputSlot anchor (inlets.length - before))
      | none => input⟩]

def addInletsOf (inlets : List Inlet) (t : Task) : List Inlet :=
  t.arguments.values.foldl (fun acc a =>
    match p.relation a with
    | .crossing source => p.addInlet t.position? inlets.length acc source
    | _ => acc) inlets

def inlets : List Inlet := p.selectedTasks.values.foldl p.addInletsOf []

def innerArgument (inlets : List Inlet) (a : Argument) : Argument :=
  match p.relation a with
  | .crossing source =>
    match inlets.find? (·.source = source) with
    | some inlet => .graphInput inlet.input.name
    | none => a
  | _ => a

def innerTasks (inlets : List Inlet) : NameMap Task :=
  p.selectedTasks.map fun _ t =>
    { t with arguments := t.arguments.map fun _ a => p.innerArgument inlets a }

/-- The wrapper feeds a selected input with its value or else with the input of the parent, and a
boundary input with its source. -/
def wrapperArguments (inlets : List Inlet) : NameMap Argument :=
  .ofList <|
    (p.selectedInputs.map fun i => (i.name, match i.value with
      | some value => .literal value
      | none => .graphInput i.name)) ++
    inlets.map fun inlet => (inlet.input.name, inlet.source.argument)

def lifted : NameSet :=
  .ofList ((p.selectedInputs.filter (·.value.isSome)).map (·.name))

/-- The selected outputs that are bound to a selected task. The others stay in the parent. -/
def selectedOutlets : List Outlet :=
  p.selectedOutputs.filterMap fun o =>
    match p.graph.outputValues.get? o.name with
    | some source => if p.selection.tasks.contains source.task then some ⟨source, o⟩ else none
    | none => none

def consumers : List (Site × TaskOutput) :=
  p.graph.externalConsumers p.selection.tasks p.selection.outputs

/-- The outlets with one for `source`, if neither they nor the selected ones have one. -/
def addOutlet (selected outlets : List Outlet) (source : TaskOutput) : List Outlet :=
  if (selected ++ outlets).any (·.source = source) then outlets
  else
    let taken := (selected ++ outlets).map (·.output.name)
    let output : Output :=
      { name := freshName source.output taken, type := p.typeOfTaskOutput? source }
    let slot := outlets.countP (·.source.task = source.task)
    outlets ++ [⟨source, match (p.graph.task? source.task).bind (·.position?) with
      | some anchor => output.placeAt (p.layout.outputSlot anchor slot)
      | none => output⟩]

def outlets : List Outlet :=
  let selected := p.selectedOutlets
  selected ++ (p.consumers.map (·.2)).foldl (p.addOutlet selected) []

def mappings (outlets : List Outlet) : List Mapping :=
  (p.selectedOutlets.map fun o => ⟨o.source, o.output.name, .output o.output.name⟩) ++
    p.consumers.filterMap fun (site, source) =>
      (outlets.find? (·.source = source)).map fun o => ⟨source, o.output.name, site⟩

def centre : Option Position :=
  Position.centroid <| p.selectedTasks.values.filterMap (·.position?) ++
    p.selectedInputs.filterMap (·.position?) ++ p.selectedOutputs.filterMap (·.position?)

def nested (name author : String) (inlets : List Inlet) (outlets : List Outlet) : Component :=
  let inputs := (p.selectedInputs.map fun i => { i with value := none }) ++ inlets.map (·.input)
  let outputs := outlets.map (·.output)
  let tasks := p.innerTasks inlets
  let bounds := Bounds.ofList? <| tasks.values.filterMap (·.position?) ++
    inputs.filterMap (·.position?) ++ outputs.filterMap (·.position?)
  let place (a : Annotations) : Annotations := match bounds with
    | some b => a.mapPosition (b.normalize p.layout.padding)
    | none => a
  { name := some name
    inputs := inputs.map fun i => { i with annotations := place i.annotations }
    outputs := outputs.map fun o => { o with annotations := place o.annotations }
    implementation := some <| .graph {
      tasks := tasks.map fun _ t => { t with annotations := place t.annotations }
      outputValues := .ofList (outlets.map fun o => (o.output.name, o.source)) }
    metadata := some (NameMap.insert ∅ authorKey author) }

end Packing

def PackOptions.baseName (o : PackOptions) : String :=
  match o.name with
  | some name => if isBlank name then defaultSubgraphName else trimBlank name
  | none => defaultSubgraphName

/-- Packs a selection of `parent`, which itself stays as it is. -/
def Component.pack (host : Host) (options : PackOptions) (selection : Selection)
    (parent : Component) : Except EditError Packed := do
  let graph ← parent.requireGraph
  selection.check parent graph
  let p : Packing := ⟨parent, graph, selection, options.layout, host.resolve⟩
  let wrapperId := freshName options.baseName graph.tasks.keys
  let inlets := p.inlets
  let outlets := p.outlets
  let nested := p.nested wrapperId (authorName host.author) inlets outlets
  let reference ← (Reference.complete host.codec nested).mapError .codec
  let wrapper : Task := { reference, arguments := p.wrapperArguments inlets }
  return {
    wrapperId
    wrapper := match p.centre with
      | some position => wrapper.placeAt position
      | none => wrapper
    mappings := p.mappings outlets
    lifted := p.lifted }

namespace Packed

/-- The graph in which the target of a mapping reads the wrapper. A task that is not there stays
away. -/
def rewire (wrapperId : String) (g : Graph) (m : Mapping) : Graph :=
  let source : TaskOutput := ⟨wrapperId, m.nestedOutput⟩
  match m.target with
  | .argument task name =>
    { g with tasks := NameMap.modify g.tasks task fun t =>
        { t with arguments := t.arguments.insert name (.taskOutput source) } }
  | .output name => { g with outputValues := g.outputValues.insert name source }

/-- Puts the wrapper in the place of the selected tasks. A selected input whose value went into the
wrapper is dropped unless some task still reads it. -/
def apply (p : Packed) (selection : Selection) (parent : Component) :
    Except EditError Component := do
  let graph ← parent.requireGraph
  let rest := { graph with tasks := graph.tasks.filter fun id _ => !selection.tasks.contains id }
  let wrapperId := freshName p.wrapperId rest.tasks.keys
  let rewired := p.mappings.foldl (rewire wrapperId) rest
  let graph := { rewired with tasks := NameMap.insert rewired.tasks wrapperId p.wrapper }
  let read := graph.referencedInputs
  return { parent.withGraph graph with
    inputs := parent.inputs.filter fun i => !p.lifted.contains i.name || read.contains i.name }

end Packed

end TaskGraph
