import TaskGraph.Component.Basic

/-!
# Drafts

A component may be put together step by step. The first task or output binding makes it a graph; a
container makes it one again and discards the tasks.
-/
namespace TaskGraph

structure Draft where
  component : Component := {}
  graph : Option Graph := none
  annotations : Annotations := ∅

namespace Draft

def named (name : String) : Draft := { component := { name := some name } }

def describe (d : Draft) (text : String) : Draft :=
  { d with component := { d.component with description := some text } }

def addInput (d : Draft) (i : Input) : Draft :=
  { d with component := { d.component with inputs := d.component.inputs ++ [i] } }

def addOutput (d : Draft) (o : Output) : Draft :=
  { d with component := { d.component with outputs := d.component.outputs ++ [o] } }

def useContainer (d : Draft) (image : String) : Draft :=
  { d with
    graph := none
    component := { d.component with implementation := some (.container { image }) } }

/-- Makes the draft a graph, even if it gets no tasks. -/
def useGraph (d : Draft) : Draft := { d with graph := some (d.graph.getD {}) }

def addTask (d : Draft) (id : String) (t : Task) : Draft :=
  let g := d.graph.getD {}
  { d with graph := some { g with tasks := NameMap.insert g.tasks id t } }

def bindOutput (d : Draft) (output : String) (source : TaskOutput) : Draft :=
  let g := d.graph.getD {}
  { d with graph := some { g with outputValues := g.outputValues.insert output source } }

def annotate (d : Draft) (key value : String) : Draft :=
  { d with annotations := d.annotations.insert key value }

/-- The component as drafted. A graph goes before a container, and empty metadata are left out. -/
def build (d : Draft) : Component :=
  { d.component with
    implementation := (d.graph.map .graph) <|> d.component.implementation
    metadata := if d.annotations.isEmpty then d.component.metadata else some d.annotations }

end Draft

/-- The task with an argument for one of its inputs. -/
def Task.setArgument (t : Task) (name : String) (a : Argument) : Task :=
  { t with arguments := t.arguments.insert name a }

end TaskGraph
