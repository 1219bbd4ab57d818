import TaskGraph.Validation.Check

/-!
# Reports on one component

A report lists the errors and the warnings about one component. Warnings do not make it invalid.
-/
namespace TaskGraph

structure Report where
  errors : List Issue
  warnings : List Issue
deriving DecidableEq

namespace Report

def ofFindings (findings : List Finding) : Report where
  errors := (findings.filter (·.isError)).map (·.issue)
  warnings := (findings.filter (!·.isError)).map (·.issue)

def isValid (r : Report) : Bool := r.errors.isEmpty

def findings (r : Report) : List Finding := r.errors.map .error ++ r.warnings.map .warning

def heading (r : Report) : String :=
  let warnings := Nat.repr r.warnings.length
  if r.isValid then s!"=== Validation: valid ({warnings} warnings) ===\n"
  else
    let errors := Nat.repr r.errors.length
    s!"=== Validation: invalid ({errors} errors, {warnings} warnings) ===\n"

/-- A heading with the numbers of errors and warnings, and a line for each of them. -/
def display (r : Report) : String :=
  r.heading ++ String.join (r.findings.map fun f =>
    "[" ++ f.severity.label ++ "] " ++ f.issue.message ++ "\n")

end Report

/-- Checks one component, without the components of its tasks. -/
def Component.validate (resolve : Resolver) (options : ValidationOptions) (c : Component) :
    Report :=
  .ofFindings (c.findings resolve options)

end TaskGraph
