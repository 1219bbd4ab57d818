import TaskGraph.Canvas.Layout
import TaskGraph.Toml.Reader

/-!
# Layouts in TOML

A layout may be given as a TOML document. Every distance that the document leaves out keeps its
default; what else it says is ignored.
-/
namespace TaskGraph.Layout

open Toml

def distance? (t : Table) (key : String) (default : Float) : Option Float :=
  match t.get? key with
  | none => some default
  | some (.value (.integer i)) => (Double.ofDecimal? ⟨i < 0, i.natAbs, 0⟩).map (·.toFloat)
  | some (.value (.real d)) => some d.toFloat
  | some _ => none

/-- The layout that a TOML document gives. -/
def ofToml? (text : String) : Option Layout := do
  let t ← Toml.read? text
  let standard : Layout := {}
  some {
    offsetX := ← distance? t "boundary_offset_x" standard.offsetX
    spacingY := ← distance? t "boundary_spacing_y" standard.spacingY
    padding := ← distance? t "padding" standard.padding }

end TaskGraph.Layout
