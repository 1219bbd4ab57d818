import TaskGraph.Component.Basic

/-!
# Validation issues

An issue is one thing that is wrong, or may be wrong, with a component; `Issue.message` words it.
-/
namespace TaskGraph

inductive Severity where
  | error
  | warning
deriving DecidableEq

inductive Issue where
  | missingName
  | missingImplementation
  | blankInput (index : Nat)
  | duplicateInput (name : String)
  | blankOutput (index : Nat)
  | duplicateOutput (name : String)
  | missingInputValue (name : String)
  | noTasks
  | missingReference (task : String)
  | unknownGraphInput (task argument input : String)
  | unknownTask (task argument target : String)
  | unknownTaskOutput (task argument : String) (source : TaskOutput)
  | unresolvedComponent (reader : Site) (target : String)
  | missingArgument (task input : String)
  | undeclaredOutput (output : String)
  | outputOfUnknownTask (output task : String)
  | outputOfUnknownOutput (output : String) (source : TaskOutput)
  | unconnectedInput (name : String)
  | unconnectedOutput (name : String)
  | circularDependency (task : String)
deriving DecidableEq

/-- How a message names a site. -/
def Site.display : Site → String
  | .argument task name => s!"task '{task}' argument '{name}'"
  | .output name => s!"output value '{name}'"

namespace Severity

def label : Severity → String
  | .error => "ERROR"
  | .warning => "WARN"

end Severity

namespace Issue

def message : Issue → String
  | missingName => "component name is missing or empty"
  | missingImplementation => "component has no implementation"
  | blankInput index => s!"input #{index} has an empty name"
  | duplicateInput name => s!"duplicate input name '{name}'"
  | blankOutput index => s!"output #{index} has an empty name"
  | duplicateOutput name => s!"duplicate output name '{name}'"
  | missingInputValue name => s!"required input '{name}' has no value or default"
  | noTasks => "graph implementation has no tasks"
  | missingReference task => s!"task '{task}' has no component reference"
  | unknownGraphInput task argument input =>
    s!"task '{task}' argument '{argument}' references non-existent graph input '{input}'"
  | unknownTask task argument target =>
    s!"task '{task}' argument '{argument}' references non-existent task '{target}'"
  | unknownTaskOutput task argument ⟨target, output⟩ =>
    s!"task '{task}' argument '{argument}' references non-existent output '{output}' " ++
      s!"of task '{target}'"
  | unresolvedComponent reader target =>
    reader.display ++ s!" reads from task '{target}' whose component is not resolved"
  | missingArgument task input => s!"task '{task}' is missing required argument '{input}'"
  | undeclaredOutput output => s!"output value '{output}' is not defined in component outputs"
  | outputOfUnknownTask output task => s!"output value '{output}' is bound to missing task '{task}'"
  | outputOfUnknownOutput output ⟨task, taskOutput⟩ =>
    s!"output value '{output}' references non-existent output '{taskOutput}' of task '{task}'"
  | unconnectedInput name => s!"input '{name}' is not connected to any task"
  | unconnectedOutput name => s!"output '{name}' is not connected to any task"
  | circularDependency task => s!"circular dependency detected at task '{task}'"

end Issue

/-- An issue with its severity. -/
structure Finding where
  severity : Severity
  issue : Issue
deriving DecidableEq

namespace Finding

def error (i : Issue) : Finding := ⟨.error, i⟩

def warning (i : Issue) : Finding := ⟨.warning, i⟩

def isError (f : Finding) : Bool := f.severity = .error

end Finding

end TaskGraph
