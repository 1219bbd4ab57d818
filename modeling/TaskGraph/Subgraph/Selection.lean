import TaskGraph.Codec

/-!
# Selections

A selection names tasks of a graph and inputs and outputs of the component that the graph
implements.
-/
namespace TaskGraph

inductive ElementKind where
  | task
  | input
  | output
deriving DecidableEq

def ElementKind.label : ElementKind → String
  | .task => "task"
  | .input => "input"
  | .output => "output"

/-- Why a graph cannot be edited as asked. -/
inductive EditError where
  | notAGraph (component : Option String)
  | taskNotFound (task : String)
  | unknownSelection (kind : ElementKind) (name : String)
  | codec (error : CodecError)
deriving DecidableEq

namespace EditError

def message : EditError → String
  | notAGraph component =>
    let name := component.getD "<unnamed>"
    s!"component '{name}' is not implemented as a graph"
  | taskNotFound task => s!"task '{task}' not found in graph"
  | unknownSelection kind name =>
    "selected " ++ kind.label ++ s!" '{name}' does not belong to the graph"
  | codec error => error.message

end EditError

/-- The graph of a component, without which it cannot be edited. -/
def Component.requireGraph (c : Component) : Except EditError Graph :=
  match c.graph? with
  | some g => .ok g
  | none => .error (.notAGraph c.name)

structure Selection where
  tasks : NameSet := ∅
  inputs : NameSet := ∅
  outputs : NameSet := ∅

namespace Selection

def insert (s : Selection) (kind : ElementKind) (name : String) : Selection :=
  match kind with
  | .task => { s with tasks := s.tasks.insert name }
  | .input => { s with inputs := s.inputs.insert name }
  | .output => { s with outputs := s.outputs.insert name }

def ofList (elements : List (ElementKind × String)) : Selection :=
  elements.foldl (fun s (kind, name) => s.insert kind name) {}

/-- All tasks of a graph and nothing else. -/
def allTasks (g : Graph) : Selection := { tasks := g.tasks.map fun _ _ => () }

def isEmpty (s : Selection) : Bool := s.tasks.isEmpty && s.inputs.isEmpty && s.outputs.isEmpty

/-- The first element that does not belong to the component or its graph: a task before an input
before an output, and in the order of their names. -/
def stranger? (s : Selection) (c : Component) (g : Graph) : Option (ElementKind × String) :=
  (s.tasks.keys.find? (!g.containsTask ·)).map (.task, ·) <|>
    (s.inputs.keys.find? (!c.hasInput ·)).map (.input, ·) <|>
    (s.outputs.keys.find? (!c.hasOutput ·)).map (.output, ·)

def check (s : Selection) (c : Component) (g : Graph) : Except EditError Unit :=
  match s.stranger? c g with
  | some (kind, name) => .error (.unknownSelection kind name)
  | none => .ok ()

end Selection

end TaskGraph
