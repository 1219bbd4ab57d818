import TaskGraph.Canvas.Position
import TaskGraph.Text.Quoted
import TaskGraph.TypeTag

/-!
# Components

A component declares inputs and outputs and is implemented by a container or by a graph. A graph
holds tasks; each task instantiates a component through a reference and says where the values of
its inputs come from. The edges of the graph are the arguments that read an output of a sibling
task, and the output bindings say which task outputs become outputs of the component.
-/
namespace TaskGraph

structure Input where
  name : String
  type : Option TypeTag := none
  description : Option String := none
  default : Option String := none
  optional : Bool := false
  /-- The literal bound to the input where the component is used as a graph. -/
  value : Option String := none
  annotations : Annotations := ∅

structure Output where
  name : String
  type : Option TypeTag := none
  description : Option String := none
  annotations : Annotations := ∅

structure Container where
  image : String
  command : List String := []
  args : List String := []
  env : NameMap String := ∅

structure TaskOutput where
  task : String
  output : String
deriving DecidableEq

/-- Where an input of a task gets its value. -/
inductive Argument where
  | literal (value : String)
  | graphInput (name : String)
  | taskOutput (source : TaskOutput)
  | secret (name : String)
deriving DecidableEq

/-- Hints for running a task. -/
structure Execution where
  maxRetries : Option UInt32 := none
  maxCacheStaleness : Option String := none
deriving DecidableEq

mutual

structure Component where
  name : Option String := none
  description : Option String := none
  inputs : List Input := []
  outputs : List Output := []
  implementation : Option Implementation := none
  metadata : Option Annotations := none
  /-- Tells apart the components that a catalog hands out: two occurrences of one registered
  component have one identity. A component without one occurs only where it stands. The identity is
  no part of what the component says, and no text shows it. -/
  identity : Option Nat := none

inductive Implementation where
  | container (c : Container)
  | graph (g : Graph)

structure Graph where
  tasks : NameMap.From Task none := .nil
  /-- The task outputs that are bound to outputs of the component. -/
  outputValues : NameMap TaskOutput := .nil

structure Task where
  reference : Reference
  arguments : NameMap Argument := .nil
  annotations : Annotations := .nil
  execution : Option Execution := none

/-- What is known about the component that a task instantiates. -/
structure Reference where
  name : Option String := none
  digest : Option String := none
  url : Option String := none
  spec : Option Component := none
  text : Option String := none

end

namespace Input

/-- An input that is neither optional nor has a default. -/
def isRequired (i : Input) : Bool := !i.optional && i.default.isNone

def position? (i : Input) : Option Position := Position.ofAnnotations? i.annotations

def placeAt (i : Input) (p : Position) : Input := { i with annotations := p.write i.annotations }

end Input

namespace Output

def position? (o : Output) : Option Position := Position.ofAnnotations? o.annotations

def placeAt (o : Output) (p : Position) : Output := { o with annotations := p.write o.annotations }

end Output

namespace Argument

def literal? : Argument → Option String
  | .literal value => some value
  | _ => none

def graphInput? : Argument → Option String
  | .graphInput name => some name
  | _ => none

def taskOutput? : Argument → Option TaskOutput
  | .taskOutput source => some source
  | _ => none

def display : Argument → String
  | .literal value => quoted value
  | .graphInput name => s!"graph input '{name}'"
  | .taskOutput ⟨task, output⟩ => s!"output '{output}' of task '{task}'"
  | .secret name => s!"secret '{name}'"

end Argument

namespace Reference

def toComponent (c : Component) : Reference := { name := c.name, spec := some c }

/-- Name, digest, component and text are all known. -/
def isHydrated (r : Reference) : Bool :=
  r.name.isSome && r.digest.isSome && r.spec.isSome && r.text.isSome

/-- Nothing is known that could identify a component. -/
def isEmpty (r : Reference) : Bool :=
  r.name.isNone && r.digest.isNone && r.url.isNone && r.spec.isNone && r.text.isNone

def displayName? (r : Reference) : Option String := r.name <|> r.spec.bind (·.name)

end Reference

namespace Task

def position? (t : Task) : Option Position := Position.ofAnnotations? t.annotations

def placeAt (t : Task) (p : Position) : Task := { t with annotations := p.write t.annotations }

/-- The sibling tasks whose outputs the task reads, in the order of its arguments. -/
def dependencies (t : Task) : List String :=
  t.arguments.values.filterMap fun a => a.taskOutput?.map (·.task)

end Task

/-- A place of a graph that reads a task output. -/
inductive Site where
  | argument (task name : String)
  | output (name : String)
deriving DecidableEq

namespace Graph

def task? (g : Graph) (id : String) : Option Task := g.tasks.get? id

def containsTask (g : Graph) (id : String) : Bool := g.tasks.contains id

def arguments (g : Graph) : List (String × String × Argument) :=
  g.tasks.toList.flatMap fun (id, t) => t.arguments.toList.map fun (name, a) => (id, name, a)

/-- Every site that reads a task output, with what it reads: the arguments first, then the output
bindings. -/
def references (g : Graph) : List (Site × TaskOutput) :=
  (g.arguments.filterMap fun (id, name, a) => a.taskOutput?.map (Site.argument id name, ·)) ++
    g.outputValues.toList.map fun (name, source) => (Site.output name, source)

def consumersOf (g : Graph) (id : String) : List (Site × TaskOutput) :=
  g.references.filter fun (_, source) => source.task == id

/-- The inputs of the component that some argument reads. -/
def referencedInputs (g : Graph) : NameSet :=
  NameSet.ofList (g.arguments.filterMap fun (_, _, a) => a.graphInput?)

/-- The tasks that a task reads, as far as they exist. -/
def dependenciesOf (g : Graph) (id : String) : List String :=
  match g.task? id with
  | some t => t.dependencies.filter g.containsTask
  | none => []

end Graph

namespace Component

def graph? (c : Component) : Option Graph :=
  match c.implementation with
  | some (.graph g) => some g
  | _ => none

def isGraph (c : Component) : Bool := c.graph?.isSome

def input? (c : Component) (name : String) : Option Input := c.inputs.find? (·.name == name)

def output? (c : Component) (name : String) : Option Output := c.outputs.find? (·.name == name)

def hasInput (c : Component) (name : String) : Bool := (c.input? name).isSome

def hasOutput (c : Component) (name : String) : Bool := (c.output? name).isSome

def annotation? (c : Component) (key : String) : Option String := c.metadata.bind (·.get? key)

def withGraph (c : Component) (g : Graph) : Component :=
  { c with implementation := some (.graph g), identity := none }

end Component

end TaskGraph
