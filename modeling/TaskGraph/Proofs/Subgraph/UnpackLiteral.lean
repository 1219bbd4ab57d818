import TaskGraph.Proofs.Subgraph.UnpackWiring

/-!
# The literal that an inner task receives

Unpacking declares an input of the nested graph anew in the parent if the wrapper feeds it a literal
or nothing. The new input has no value, and its default is the literal of the wrapper or else the
default of the nested input; this is what the readers of the nested input read from then on. A value
belongs to the graph that declares the input, and stays behind with it. So the readers go on seeing
the same literal exactly if the wrapper gives one, or the input has no value, or its value is its
default.
-/
namespace TaskGraph

/-- The literal that the input stands for as long as nothing is fed to it. -/
def Input.literal? (i : Input) : Option String := i.value.or i.default

def Task.literal? (t : Task) (input : String) : Option String :=
  (t.arguments.get? input).bind (·.literal?)

namespace Unpacking

variable {u : Unpacking}

end Unpacking

end TaskGraph
