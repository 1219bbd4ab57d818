import TaskGraph.Component.Basic

/-!
# The boundary of a set of tasks

An argument of a task in a set reads an output of the set, a graph input that belongs to the set, a
source outside, or nothing at all. From outside, the set is read by the sites that read one of its
outputs and do not belong to it.
-/
namespace TaskGraph

/-- What an argument reads outside a set of tasks. -/
inductive Source where
  | taskOutput (o : TaskOutput)
  | graphInput (name : String)
deriving DecidableEq

namespace Source

def argument : Source → Argument
  | .taskOutput o => .taskOutput o
  | .graphInput name => .graphInput name

def baseName : Source → String
  | .taskOutput o => o.output
  | .graphInput name => name

end Source

/-- How an argument relates to a set of tasks and graph inputs. -/
inductive Relation where
  | inner
  | includedInput (name : String)
  | crossing (source : Source)
  | constant
deriving DecidableEq

def Argument.relation (tasks inputs : NameSet) : Argument → Relation
  | .taskOutput o => if tasks.contains o.task then .inner else .crossing (.taskOutput o)
  | .graphInput name =>
    if inputs.contains name then .includedInput name else .crossing (.graphInput name)
  | .literal _ | .secret _ => .constant

/-- The site lies outside a set of tasks and is not one of the excluded output bindings. -/
def Site.isOutside (tasks excluded : NameSet) : Site → Bool
  | .argument task _ => !tasks.contains task
  | .output name => !excluded.contains name

def Graph.externalConsumers (g : Graph) (tasks excluded : NameSet) : List (Site × TaskOutput) :=
  g.references.filter fun (site, source) =>
    tasks.contains source.task && site.isOutside tasks excluded

end TaskGraph
