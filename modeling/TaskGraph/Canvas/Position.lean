import TaskGraph.Json.Decoder
import TaskGraph.Json.Printer

/-!
# Positions on the canvas

Elements of a graph carry annotations, which are names bound to texts. One of them is the position
at which an editor draws the element, written as JSON. An annotation that does not read as a
position counts as none.
-/
namespace TaskGraph

open Json

abbrev Annotations := NameMap String

def positionKey : String := "editor.position"

structure Position where
  x : Float
  y : Float

namespace Position

def document (p : Position) : Document :=
  .record [("x", .double (.ofFloat p.x)), ("y", .double (.ofFloat p.y))]

def text (p : Position) : String := p.document.compact

def decoder : Decoder Position := fun room doc => do
  let f ← Fields.decoder ["x", "y"] room doc
  let x ← f.required "x" Decoder.double
  let y ← f.required "y" Decoder.double
  some ⟨x.toFloat, y.toFloat⟩

def ofAnnotations? (a : Annotations) : Option Position :=
  (a.get? positionKey).bind decoder.ofText?

def write (p : Position) (a : Annotations) : Annotations := a.insert positionKey p.text

def offset (p : Position) (dx dy : Float) : Position := ⟨p.x + dx, p.y + dy⟩

/-- The shift that maps `source` onto `target`, at `p`. -/
def rebase (p source target : Position) : Position :=
  ⟨p.x - source.x + target.x, p.y - source.y + target.y⟩

/-- The mean of some positions, if there are any. -/
def centroid : List Position → Option Position
  | [] => none
  | ps =>
    let sum := ps.foldl (fun (s p : Position) => s.offset p.x p.y) ⟨0, 0⟩
    let count := Float.ofNat ps.length
    some ⟨sum.x / count, sum.y / count⟩

end Position

/-- The annotations with their position, if they have one, mapped by `f`. -/
def Annotations.mapPosition (f : Position → Position) (a : Annotations) : Annotations :=
  match Position.ofAnnotations? a with
  | some p => (f p).write a
  | none => a

end TaskGraph
