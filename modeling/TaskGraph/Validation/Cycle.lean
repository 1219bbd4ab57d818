import TaskGraph.Component.Basic

/-!
# Circular dependencies

A depth-first search over the tasks of a graph and the tasks they read. A task counts as circular
when the search comes to it while it is still on the path.
-/
namespace TaskGraph

/-- The tasks on the path of a search, each with those of its dependencies that are still to be
followed; the last task of the path stands first. -/
abbrev SearchPath := List (String × List String)

def SearchPath.work : SearchPath → Nat
  | [] => 0
  | frame :: path => frame.2.length + 1 + work path

/-- Goes on with a search. The tasks of `fresh` have not been entered yet, those of `found` have
turned out to be circular, and those of `roots` are tried when the path is at its end. -/
def searchFrom (dependencies : String → List String) (roots : List String) (path : SearchPath)
    (fresh found : List String) : List String :=
  match path with
  | (task, next :: later) :: rest =>
    if next ∈ path.map (·.1) then
      searchFrom dependencies roots ((task, later) :: rest) fresh
        (if next ∈ found then found else found ++ [next])
    else if next ∈ fresh then
      searchFrom dependencies roots ((next, dependencies next) :: (task, later) :: rest)
        (fresh.erase next) found
    else searchFrom dependencies roots ((task, later) :: rest) fresh found
  | (_, []) :: rest => searchFrom dependencies roots rest fresh found
  | [] =>
    match roots with
    | [] => found
    | root :: roots =>
      if root ∈ fresh then
        searchFrom dependencies roots [(root, dependencies root)] (fresh.erase root) found
      else searchFrom dependencies roots [] fresh found
termination_by (fresh.length, path.work + roots.length)
decreasing_by
  · simp [SearchPath.work, Prod.lex_def]
  · have := List.length_pos_of_mem ‹next ∈ fresh›
    exact Prod.Lex.left _ _ (by rw [List.length_erase_of_mem ‹next ∈ fresh›]; omega)
  · simp [SearchPath.work, Prod.lex_def]
  · simp [SearchPath.work, Prod.lex_def]
  · have := List.length_pos_of_mem ‹root ∈ fresh›
    exact Prod.Lex.left _ _ (by rw [List.length_erase_of_mem ‹root ∈ fresh›]; omega)
  · simp [Prod.lex_def]

namespace Graph

def circularTasks (g : Graph) : List String :=
  searchFrom g.dependenciesOf g.tasks.keys [] g.tasks.keys []

end Graph

end TaskGraph
