import TaskGraph.Json.Token

/-!
# Writing a JSON text

A document has two written forms: the compact one, which is its tokens in a row, and the indented
one with a line for each item and member.
-/
namespace TaskGraph.Json

namespace Document

mutual

def tokens : Document → List Token
  | .null => [.null]
  | .bool b => [.bool b]
  | .number n => [.number n]
  | .string s => [.string s]
  | .array items => .openArray :: (itemTokens items ++ [.closeArray])
  | .object members => .openObject :: (memberTokens members ++ [.closeObject])

def itemTokens : List Document → List Token
  | [] => []
  | [d] => d.tokens
  | d :: ds => d.tokens ++ .comma :: itemTokens ds

def memberTokens : List (Literal × Document) → List Token
  | [] => []
  | [(k, d)] => .string k :: .colon :: d.tokens
  | (k, d) :: ms => .string k :: .colon :: (d.tokens ++ .comma :: memberTokens ms)

end

def compact (d : Document) : String := String.ofList (d.tokens.flatMap Token.text)

/-- The start of a line at the given depth: two spaces for every level. -/
def newLine (depth : Nat) : List Char := '\n' :: List.replicate (2 * depth) ' '

mutual

def indentedAt (depth : Nat) : Document → List Char
  | .array (d :: ds) =>
    '[' :: (indentedItems (depth + 1) (d :: ds) ++ newLine depth ++ [']'])
  | .object (m :: ms) =>
    '\x7b' :: (indentedMembers (depth + 1) (m :: ms) ++ newLine depth ++ ['\x7d'])
  | d => d.tokens.flatMap Token.text

def indentedItems (depth : Nat) : List Document → List Char
  | [] => []
  | [d] => newLine depth ++ d.indentedAt depth
  | d :: ds => newLine depth ++ d.indentedAt depth ++ ',' :: indentedItems depth ds

def indentedMembers (depth : Nat) : List (Literal × Document) → List Char
  | [] => []
  | [(k, d)] =>
    newLine depth ++ Token.text (.string k) ++ [':', ' '] ++ d.indentedAt depth
  | (k, d) :: ms =>
    newLine depth ++ Token.text (.string k) ++ [':', ' '] ++ d.indentedAt depth ++
      ',' :: indentedMembers depth ms

end

/-- The text of a document with a line for each item and member, two spaces deeper than the array
or object that holds it. -/
def indented (d : Document) : String := String.ofList (d.indentedAt 0)

end Document

end TaskGraph.Json
