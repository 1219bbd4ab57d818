import TaskGraph.Catalog
import TaskGraph.Text.Blank
import TaskGraph.Validation.Cycle
import TaskGraph.Validation.Issue

/-!
# Checking one component

A component is checked on its own level: its name and implementation, the names and values of its
interface, and, if it is a graph, the wiring of its tasks. The components of the tasks are consulted
as far as the resolver gives them, but they are not checked themselves.
-/
namespace TaskGraph

open Json

/-- What to make of a task whose component is read from but cannot be resolved. -/
inductive UnresolvedPolicy where
  | warn
  | error
deriving DecidableEq

structure ValidationOptions where
  /-- Inputs need no value; those of a nested component get theirs from the graph around it. -/
  skipInputValues : Bool := false
  unresolved : UnresolvedPolicy := .warn
deriving DecidableEq

namespace ValidationOptions

def nested (o : ValidationOptions) : ValidationOptions := { o with skipInputValues := true }

def strict : ValidationOptions := { unresolved := .error }

def policyDecoder : Decoder UnresolvedPolicy := fun room doc => do
  let tag ← match doc with
    | .string s => s
    | doc => match Decoder.variant room doc with
      | some (tag, .null, _) => some tag
      | _ => none
  match tag with
  | "warn" => some .warn
  | "error" => some .error
  | _ => none

def decoder : Decoder ValidationOptions := fun room doc => do
  let f ← Fields.decoder ["skipInputValueValidation", "unresolvedReferences"] room doc
  some {
    skipInputValues := ← f.defaulted "skipInputValueValidation" Decoder.bool false
    unresolved := ← f.defaulted "unresolvedReferences" policyDecoder .warn }

end ValidationOptions

namespace Component

def fatalFindings (c : Component) : List Finding :=
  (if c.name.all isBlank then [.error .missingName] else []) ++
    if c.implementation.isNone then [.error .missingImplementation] else []

/-- The blank names, and the others that stand in the list more than once, where they do so for the
second time. -/
def nameFindings (blank : Nat → Issue) (duplicate : String → Issue) (names : List String) :
    List Finding :=
  names.zipIdx.filterMap fun (name, index) =>
    if isBlank name then some (.error (blank index))
    else if (names.take index).count name = 1 then some (.error (duplicate name))
    else none

def interfaceFindings (c : Component) : List Finding :=
  nameFindings .blankInput .duplicateInput (c.inputs.map (·.name)) ++
    nameFindings .blankOutput .duplicateOutput (c.outputs.map (·.name))

def valueFindings (c : Component) (options : ValidationOptions) : List Finding :=
  if options.skipInputValues then []
  else
    (c.inputs.filter fun i => i.isRequired && i.value.isNone).map fun i =>
      .error (.missingInputValue i.name)

end Component

/-- What the checks of a graph go by: the component that the graph implements, the graph, and how
references resolve. -/
structure Wiring where
  component : Component
  graph : Graph
  resolve : Resolver
  policy : UnresolvedPolicy

namespace Wiring

variable (w : Wiring)

def targetFindings (reader : Site) (target : Task) (source : TaskOutput) (undeclared : Issue) :
    List Finding :=
  match w.resolve target.reference with
  | some c => if c.hasOutput source.output then [] else [.error undeclared]
  | none =>
    let issue := Issue.unresolvedComponent reader source.task
    [match w.policy with
      | .warn => .warning issue
      | .error => .error issue]

def argumentFindings (task name : String) : Argument → List Finding
  | .graphInput input =>
    if w.component.hasInput input then [] else [.error (.unknownGraphInput task name input)]
  | .taskOutput source =>
    match w.graph.task? source.task with
    | none => [.error (.unknownTask task name source.task)]
    | some target =>
      w.targetFindings (.argument task name) target source (.unknownTaskOutput task name source)
  | .literal _ | .secret _ => []

/-- The required inputs of the component of a task that the task gives no argument. -/
def requirementFindings (id : String) (t : Task) : List Finding :=
  match w.resolve t.reference with
  | some c =>
    (c.inputs.filter fun i => i.isRequired && !t.arguments.contains i.name).map fun i =>
      .error (.missingArgument id i.name)
  | none => []

def taskFindings (id : String) (t : Task) : List Finding :=
  (if t.reference.isEmpty then [.error (.missingReference id)] else []) ++
    (t.arguments.toList.flatMap fun (name, a) => w.argumentFindings id name a) ++
    w.requirementFindings id t

def bindingFindings (output : String) (source : TaskOutput) : List Finding :=
  (if w.component.hasOutput output then [] else [.error (.undeclaredOutput output)]) ++
    match w.graph.task? source.task with
    | none => [.error (.outputOfUnknownTask output source.task)]
    | some target =>
      w.targetFindings (.output output) target source (.outputOfUnknownOutput output source)

/-- The inputs that no argument reads, and the outputs that nothing is bound to. -/
def connectionFindings : List Finding :=
  let read := w.graph.referencedInputs
  ((w.component.inputs.filter fun i => !read.contains i.name).map fun i =>
      .warning (.unconnectedInput i.name)) ++
    (w.component.outputs.filter fun o => !w.graph.outputValues.contains o.name).map fun o =>
      .warning (.unconnectedOutput o.name)

def findings : List Finding :=
  (if w.graph.tasks.isEmpty then [.error .noTasks] else []) ++
    (w.graph.tasks.toList.flatMap fun (id, t) => w.taskFindings id t) ++
    (w.graph.outputValues.toList.flatMap fun (output, source) => w.bindingFindings output source) ++
    w.connectionFindings ++
    w.graph.circularTasks.map fun id => .error (.circularDependency id)

end Wiring

def Component.findings (resolve : Resolver) (options : ValidationOptions) (c : Component) :
    List Finding :=
  if c.fatalFindings.isEmpty then
    c.interfaceFindings ++ c.valueFindings options ++
      match c.graph? with
      | some g => Wiring.findings ⟨c, g, resolve, options.unresolved⟩
      | none => []
  else c.fatalFindings

end TaskGraph
