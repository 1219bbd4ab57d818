import TaskGraph.Text.Blank

/-!
# Authors

Who makes a component is recorded among its annotations. Where nobody can be named, a fixed name
stands in.
-/
namespace TaskGraph

def authorKey : String := "author"

def unknownAuthor : String := "Unknown"

/-- The name to record, given the answer to the question who the author is. -/
def authorName (answer : Option String) : String :=
  match answer with
  | some name => if isBlank name then unknownAuthor else name
  | none => unknownAuthor

end TaskGraph
