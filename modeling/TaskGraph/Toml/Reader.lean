import TaskGraph.Toml.Scan

/-!
# Reading a TOML document

A document is a list of lines: key-value pairs and headers. A pair goes into the table of the last
header.
-/
namespace TaskGraph.Toml

def skipTrivia (inComment : Bool) : List Char → Option (List Char)
  | [] => some []
  | '\r' :: '\n' :: rest => skipTrivia false rest
  | c :: rest =>
    if c = '\n' then skipTrivia false rest
    else if inComment then if isTextChar c then skipTrivia true rest else none
    else if isBlank c then skipTrivia false rest
    else if c = '#' then skipTrivia true rest
    else some (c :: rest)

def skipLineEnd (cs : List Char) : Option (List Char) :=
  let rest := match skipBlanks cs with
    | '#' :: rest => rest.dropWhile isTextChar
    | rest => rest
  match rest with
  | [] => some []
  | rest => takeLineBreak? rest

/-- The values of an array up to its closing bracket, given how to scan one. The array has no more
values than characters. -/
def scanItems (value : Scanner Scalar) : (left : Nat) → Scanner Unit
  | 0, _ => none
  | left + 1, cs => do
    match ← skipTrivia false cs with
    | ']' :: rest => some ((), rest)
    | cs =>
      let (_, cs) ← value cs
      match ← skipTrivia false cs with
      | ',' :: rest => scanItems value left rest
      | ']' :: rest => some ((), rest)
      | _ => none

def scanPair (value : Scanner Scalar) : Scanner (List String × Scalar) := fun cs => do
  let (path, cs) ← scanKey cs
  let (v, cs) ← value (skipBlanks (← expect '=' cs))
  some ((path, v), skipBlanks cs)

def addPair (t : Table) (path : List String) (v : Scalar) : Option Table :=
  match path.getLast? with
  | some key => t.addDotted key v path.dropLast path.dropLast.isEmpty
  | none => none

def scanPairs (value : Scanner Scalar) (t : Table) : (left : Nat) → Scanner Unit
  | 0, _ => none
  | left + 1, cs => do
    let ((path, v), cs) ← scanPair value cs
    let t ← addPair t path v
    match cs with
    | ',' :: rest => scanPairs value t left rest
    | '\x7d' :: rest => some ((), rest)
    | _ => none

/-- A value inside which `room` arrays and inline tables may nest. -/
def scanValue : (room : Nat) → Scanner Scalar
  | room, cs =>
    match cs with
    | '"' :: _ => (scanString cs).map fun (_, rest) => (.other, rest)
    | '\'' :: _ => (scanString cs).map fun (_, rest) => (.other, rest)
    | 't' :: 'r' :: 'u' :: 'e' :: rest => some (.other, rest)
    | 'f' :: 'a' :: 'l' :: 's' :: 'e' :: rest => some (.other, rest)
    | '[' :: rest =>
      match room with
      | 0 => none
      | room + 1 =>
        (scanItems (scanValue room) cs.length rest).map fun (_, rest) => (.other, rest)
    | '\x7b' :: rest =>
      match room with
      | 0 => none
      | room + 1 =>
        match skipBlanks rest with
        | '\x7d' :: rest => some (.other, rest)
        | rest =>
          (scanPairs (scanValue room) ∅ cs.length rest).map fun (_, rest) => (.other, rest)
    | cs => scanNumber cs
termination_by structural room => room

def scanHeader : Scanner (Bool × List String)
  | '[' :: '[' :: rest => do
    let (path, rest) ← scanKey rest
    some ((true, path), ← expect ']' (← expect ']' rest))
  | '[' :: rest => do
    let (path, rest) ← scanKey rest
    some ((false, path), ← expect ']' rest)
  | _ => none

/-- What a document has said so far, and the path of the table that takes the next pairs. -/
structure Progress where
  root : Table := ∅
  current : List String := []

namespace Progress

def open? (p : Progress) (listed : Bool) (path : List String) : Option Progress := do
  let key ← path.getLast?
  let root ← p.root.modifyAt? (if listed then Table.openListed key else Table.openTable key)
    path.dropLast
  some ⟨root, path⟩

def add? (p : Progress) (path : List String) (v : Scalar) : Option Progress := do
  let root ← p.root.modifyAt? (addPair · path v) p.current
  some { p with root }

end Progress

def readLines : (left : Nat) → Progress → List Char → Option Table
  | 0, _, _ => none
  | left + 1, p, cs =>
    match skipTrivia false cs with
    | none => none
    | some [] => some p.root
    | some ('[' :: rest) => do
      let ((listed, path), rest) ← scanHeader ('[' :: rest)
      readLines left (← p.open? listed path) (← skipLineEnd rest)
    | some cs => do
      let ((path, v), rest) ← scanPair (scanValue (maxDepth - 1)) cs
      readLines left (← p.add? path v) (← skipLineEnd rest)

/-- The table that a document describes. A byte order mark may stand in front. -/
def read? (text : String) : Option Table :=
  let cs := match text.toList with
    | '\ufeff' :: rest => rest
    | cs => cs
  readLines (cs.length + 1) {} cs

end TaskGraph.Toml
