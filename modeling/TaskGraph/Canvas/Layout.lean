import TaskGraph.Canvas.Position

/-!
# Laying out a graph

Where the boundary inputs and outputs of a task are drawn, and how a set of positions is moved to
the upper left corner of the canvas. None of it bears on what a graph means.
-/
namespace TaskGraph

/-- The distances between a task and its boundary inputs and outputs, between two of these on one
side of it, and between the corner of the canvas and the first element. -/
structure Layout where
  offsetX : Float := 250
  spacingY : Float := 100
  padding : Float := 50
deriving BEq

namespace Layout

def inputSlot (l : Layout) (anchor : Position) (index : Nat) : Position :=
  anchor.offset (-l.offsetX) (Float.ofNat index * l.spacingY)

def outputSlot (l : Layout) (anchor : Position) (index : Nat) : Position :=
  anchor.offset l.offsetX (Float.ofNat index * l.spacingY)

end Layout

structure Bounds where
  least : Position
  greatest : Position

namespace Bounds

/-- The lesser of two numbers; a number is preferred to no number. -/
def lesser (a b : Float) : Float := if a.isNaN || b < a then b else a

def greater (a b : Float) : Float := if a.isNaN || a < b then b else a

def extend (b : Bounds) (p : Position) : Bounds :=
  ⟨⟨lesser b.least.x p.x, lesser b.least.y p.y⟩,
    ⟨greater b.greatest.x p.x, greater b.greatest.y p.y⟩⟩

def ofList? : List Position → Option Bounds
  | [] => none
  | p :: ps => some (ps.foldl extend ⟨p, p⟩)

def width (b : Bounds) : Float := b.greatest.x - b.least.x

def height (b : Bounds) : Float := b.greatest.y - b.least.y

/-- The shift that takes the upper left corner to `(padding, padding)`, at `p`. -/
def normalize (b : Bounds) (padding : Float) (p : Position) : Position :=
  p.rebase b.least ⟨padding, padding⟩

end Bounds

end TaskGraph
