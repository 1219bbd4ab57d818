import TaskGraph.Json.Token

/-!
# Reading a JSON text

The reader goes through the tokens once and keeps the arrays and objects that are still open on a
stack, so that a text may nest as deeply as it likes.
-/
namespace TaskGraph.Json

/-- What has been read of an array or object that is still open; its parts stand in reverse. -/
inductive Opened where
  | array (items : List Document)
  | object (members : List (Literal × Document)) (key : Literal)

mutual

def readValue (outer : List Opened) : List Token → Option Document
  | .null :: ts => readRest .null outer ts
  | .bool b :: ts => readRest (.bool b) outer ts
  | .number n :: ts => readRest (.number n) outer ts
  | .string s :: ts => readRest (.string s) outer ts
  | .openArray :: .closeArray :: ts => readRest (.array []) outer ts
  | .openArray :: ts => readValue (.array [] :: outer) ts
  | .openObject :: .closeObject :: ts => readRest (.object []) outer ts
  | .openObject :: .string k :: .colon :: ts => readValue (.object [] k :: outer) ts
  | _ => none
termination_by structural ts => ts

def readRest (d : Document) : List Opened → List Token → Option Document
  | [], [] => some d
  | .array items :: outer, .comma :: ts => readValue (.array (d :: items) :: outer) ts
  | .array items :: outer, .closeArray :: ts => readRest (.array (d :: items).reverse) outer ts
  | .object members j :: outer, .comma :: .string k :: .colon :: ts =>
    readValue (.object ((j, d) :: members) k :: outer) ts
  | .object members j :: outer, .closeObject :: ts =>
    readRest (.object ((j, d) :: members).reverse) outer ts
  | _, _ => none
termination_by structural _ ts => ts

end

/-- The document that a text says, or none if it is no JSON text. -/
def Document.read? (text : String) : Option Document :=
  (lex text.toList).bind (readValue [])

end TaskGraph.Json
