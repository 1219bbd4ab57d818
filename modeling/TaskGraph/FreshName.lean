/-!
# Names that collide with nothing

A taken name gets the least free number from two on. Among `taken.length + 1` candidates one is
always free, so the search is bounded by the number of taken names.
-/
namespace TaskGraph

/-- The candidates for a name, in order of preference: `x`, `x 2`, `x 3`, and so on. -/
def nameCandidate (base : String) : Nat → String
  | 0 => base
  | n + 1 => base ++ " " ++ Nat.repr (n + 2)

def firstFree (base : String) (taken : List String) : (left n : Nat) → String
  | 0, n => nameCandidate base n
  | left + 1, n =>
    if nameCandidate base n ∈ taken then firstFree base taken left (n + 1)
    else nameCandidate base n

/-- The name `base` if it is free, and otherwise its first free candidate. -/
def freshName (base : String) (taken : List String) : String :=
  firstFree base taken taken.length 0

theorem freshName_of_notMem {base : String} {taken : List String} (h : base ∉ taken) :
    freshName base taken = base := by
  unfold freshName
  cases taken with
  | nil => rfl
  | cons t ts => rw [List.length_cons, firstFree, if_neg (by simpa [nameCandidate] using h)]; rfl

end TaskGraph
