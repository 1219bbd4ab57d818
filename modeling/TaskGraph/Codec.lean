import TaskGraph.Component.Document
import TaskGraph.Digest

/-!
# Texts of components

The canonical text of a component is its compact JSON text, and the digest of the component is the
digest of that text. A codec is whatever a host uses to turn components into texts and back.
-/
namespace TaskGraph

namespace Component

/-- The canonical text. -/
def text (c : Component) : String := c.document.compact

def indentedText (c : Component) : String := c.document.indented

def ofText? (text : String) : Option Component := Json.Decoder.ofText? decoder text

def digest (c : Component) : String := TaskGraph.digest c.text

/-- Two components say the same: their canonical texts agree. -/
def agrees (c d : Component) : Bool := c.text = d.text

/-- Both texts of the component read back as what it says. -/
def readsBack (c : Component) : Bool :=
  (ofText? c.text).any c.agrees && (ofText? c.indentedText).any c.agrees

end Component

inductive CodecError where
  | serialization (detail : String)
  | deserialization
deriving DecidableEq

def CodecError.message : CodecError → String
  | .serialization detail => s!"serialization error: {detail}"
  | .deserialization => "deserialization error"

structure Codec where
  serialize : Component → Except CodecError String
  deserialize : String → Except CodecError Component

namespace Codec

def readText (text : String) : Except CodecError Component :=
  match Component.ofText? text with
  | some c => .ok c
  | none => .error .deserialization

def compact : Codec := ⟨fun c => .ok c.text, readText⟩

def indented : Codec := ⟨fun c => .ok c.indentedText, readText⟩

end Codec

/-- A reference to `c` in which everything is known. -/
def Reference.complete (codec : Codec) (c : Component) : Except CodecError Reference := do
  let text ← codec.serialize c
  return {
    name := c.name
    digest := some (TaskGraph.digest text)
    spec := some c
    text := some text }

end TaskGraph
