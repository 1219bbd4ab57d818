import TaskGraph.Json.Decoder
import TaskGraph.Json.Printer

/-!
# Type tags

The type of an input or output is a plain name or a structured expression. Nothing interprets it
beyond equality and display, so a structured expression is kept as the JSON value that it is.
-/
namespace TaskGraph

open Json

/-- The integers that fit in 64 bits, signed or unsigned. -/
abbrev WideInteger := { i : Int // -Int.pow 2 63 ≤ i ∧ i < Int.pow 2 64 }

/-- A JSON value. The members of an object are ordered by their names. -/
inductive Value where
  | null
  | bool (b : Bool)
  | integer (i : WideInteger)
  | real (d : Double)
  | text (s : String)
  | array (items : List Value)
  | object (members : NameMap.From Value none)

inductive TypeTag where
  | named (name : String)
  | structured (members : NameMap Value)

namespace Value

/-- A number written as an integer is one if it fits in 64 bits. The negative zero and all other
numbers are doubles. -/
def ofNumeral? (n : Numeral) : Option Value :=
  let i : Int := if n.negative then -n.whole else n.whole
  if h : n.isInteger ∧ ¬ (n.negative ∧ n.whole = 0) ∧ -Int.pow 2 63 ≤ i ∧ i < Int.pow 2 64 then
    some (.integer ⟨i, h.2.2⟩)
  else (Double.ofDecimal? n.toDecimal).map .real

def decoder : Decoder Value
  | _, .null => some .null
  | _, .bool b => some (.bool b)
  | _, .number n => ofNumeral? n
  | _, .string s => s.map .text
  | room + 1, .array items => (items.mapM (decoder room)).map .array
  | room + 1, .object members => (Decoder.members? (decoder room) members).map .object
  | 0, .array _ => none
  | 0, .object _ => none
termination_by structural room => room

mutual

def document : Value → Document
  | .null => .null
  | .bool b => .bool b
  | .integer i => .number (.ofInt i.val)
  | .real d => .double d
  | .text s => .text s
  | .array items => .array (itemDocuments items)
  | .object members => .object (memberDocuments members)

def itemDocuments : List Value → List Document
  | [] => []
  | v :: vs => v.document :: itemDocuments vs

def memberDocuments : {lo : Option String} → NameMap.From Value lo → List (Literal × Document)
  | _, .nil => []
  | _, .cons k v _ rest => (some k, v.document) :: memberDocuments rest

end

end Value

namespace TypeTag

def decoder : Decoder TypeTag
  | _, .string s => s.map .named
  | room + 1, .object members =>
    (Decoder.members? (Value.decoder room) members).map .structured
  | _, _ => none

def document : TypeTag → Document
  | .named name => .text name
  | .structured members => .object (Value.memberDocuments members)

def name? : TypeTag → Option String
  | .named name => some name
  | .structured _ => none

/-- A name shows as itself, a structured type as its compact JSON text. -/
def display : TypeTag → String
  | .named name => name
  | tag => tag.document.compact

end TypeTag

end TaskGraph
