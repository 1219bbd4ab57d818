import TaskGraph.Toml.Table

/-!
# The pieces of a TOML text

Each scanner takes a piece off the front of a text and gives what it says together with the rest.
-/
namespace TaskGraph.Toml

abbrev Scanner (α : Type) := List Char → Option (α × List Char)

def isBlank (c : Char) : Bool := c = ' ' || c = '\t'

def skipBlanks (cs : List Char) : List Char := cs.dropWhile isBlank

/-- A character that may stand in a comment or a string: a tab or no control character. -/
def isTextChar (c : Char) : Bool := c = '\t' || (0x20 ≤ c.toNat && c.toNat != 0x7F)

def isBareKeyChar (c : Char) : Bool := c.isAlphanum || c = '_' || c = '-'

def hexValue? (c : Char) : Option Nat :=
  if c.isDigit then some (c.toNat - '0'.toNat)
  else if 'a' ≤ c ∧ c ≤ 'f' then some (c.toNat - 'a'.toNat + 10)
  else if 'A' ≤ c ∧ c ≤ 'F' then some (c.toNat - 'A'.toNat + 10)
  else none

def charOfHex? (digits : List Char) : Option Char := do
  let values ← digits.mapM hexValue?
  let n := values.foldl (fun n d => 16 * n + d) 0
  if n < 0xD800 ∨ (0xDFFF < n ∧ n < 0x110000) then some (Char.ofNat n) else none

def escaped? : Char → Option Char
  | 'b' => some '\x08'
  | 't' => some '\t'
  | 'n' => some '\n'
  | 'f' => some '\x0c'
  | 'r' => some '\r'
  | '"' => some '"'
  | '\\' => some '\\'
  | _ => none

def takeLineBreak? : List Char → Option (List Char)
  | '\n' :: rest => some rest
  | '\r' :: '\n' :: rest => some rest
  | _ => none

def scanBasic (done : List Char) : Scanner String
  | '"' :: rest => some (String.ofList done.reverse, rest)
  | '\\' :: 'u' :: a :: b :: c :: d :: rest =>
    match charOfHex? [a, b, c, d] with
    | some x => scanBasic (x :: done) rest
    | none => none
  | '\\' :: 'U' :: a :: b :: c :: d :: e :: f :: g :: h :: rest =>
    match charOfHex? [a, b, c, d, e, f, g, h] with
    | some x => scanBasic (x :: done) rest
    | none => none
  | '\\' :: e :: rest =>
    match escaped? e with
    | some x => scanBasic (x :: done) rest
    | none => none
  | c :: rest => if isTextChar c then scanBasic (c :: done) rest else none
  | [] => none

def scanLiteral (done : List Char) : Scanner String
  | '\'' :: rest => some (String.ofList done.reverse, rest)
  | c :: rest => if isTextChar c then scanLiteral (c :: done) rest else none
  | [] => none

/-- The inside of a string of several lines, whose opening quotation marks have been read. Three to
five quotation marks in a row close it, and two of the five belong to it. Where there are escapes,
the character behind a backslash closes nothing. -/
def scanLong (quote : Char) (escapes : Bool) (done : List Char) (quotes : Nat) :
    Scanner (List Char)
  | [] => if 3 ≤ quotes then some ((done.drop 3).reverse, []) else none
  | c :: rest =>
    if quotes = 5 then some ((done.drop 3).reverse, c :: rest)
    else if c = quote then scanLong quote escapes (c :: done) (quotes + 1) rest
    else if 3 ≤ quotes then some ((done.drop 3).reverse, c :: rest)
    else if escapes && c = '\\' then
      match rest with
      | e :: rest => scanLong quote escapes (e :: c :: done) 0 rest
      | [] => none
    else scanLong quote escapes (c :: done) 0 rest

def isPlainText : List Char → Bool
  | [] => true
  | '\r' :: '\n' :: rest => isPlainText rest
  | c :: rest => (c = '\n' || isTextChar c) && isPlainText rest

/-- Takes line breaks, text and escapes. A backslash may also stand at the end of a line. -/
def isEscapedText : List Char → Bool
  | [] => true
  | '\r' :: '\n' :: rest => isEscapedText rest
  | '\\' :: 'u' :: a :: b :: c :: d :: rest =>
    (charOfHex? [a, b, c, d]).isSome && isEscapedText rest
  | '\\' :: 'U' :: a :: b :: c :: d :: e :: f :: g :: h :: rest =>
    (charOfHex? [a, b, c, d, e, f, g, h]).isSome && isEscapedText rest
  | '\\' :: c :: rest =>
    if (escaped? c).isSome then isEscapedText rest
    else (takeLineBreak? (skipBlanks (c :: rest))).isSome && isEscapedText (c :: rest)
  | c :: rest => (c = '\n' || isTextChar c) && isEscapedText rest

def scanString : Scanner Unit
  | '"' :: '"' :: '"' :: rest => (scanLong '"' true [] 0 rest).bind fun (body, rest) =>
    if isEscapedText body then some ((), rest) else none
  | '"' :: rest => (scanBasic [] rest).map fun (_, rest) => ((), rest)
  | '\'' :: '\'' :: '\'' :: rest => (scanLong '\'' false [] 0 rest).bind fun (body, rest) =>
    if isPlainText body then some ((), rest) else none
  | '\'' :: rest => (scanLiteral [] rest).map fun (_, rest) => ((), rest)
  | _ => none

/-- One part of a key: quoted, or made of letters, digits, underscores and hyphens. -/
def scanKeyPart : Scanner String
  | '"' :: rest => scanBasic [] rest
  | '\'' :: rest => scanLiteral [] rest
  | cs =>
    match cs.takeWhile isBareKeyChar with
    | [] => none
    | name => some (String.ofList name, cs.dropWhile isBareKeyChar)

/-- How many levels of tables, arrays and dotted keys there may be. -/
def maxDepth : Nat := 80

/-- The parts of a key, with blanks and a dot between them and blanks around. -/
def scanKeyParts : (left : Nat) → Scanner (List String)
  | 0, _ => none
  | left + 1, cs =>
    match scanKeyPart (skipBlanks cs) with
    | none => none
    | some (part, rest) =>
      match skipBlanks rest with
      | '.' :: rest => (scanKeyParts left rest).map fun (parts, rest) => (part :: parts, rest)
      | rest => some ([part], rest)

def scanKey : Scanner (List String) := scanKeyParts (maxDepth - 1)

/-- At least one digit of a kind, with single underscores between digits. -/
def scanDigits (isDigit : Char → Bool) : Scanner (List Char) := fun cs =>
  match cs with
  | [] => none
  | c :: rest => if isDigit c then go isDigit [c] rest else none
where
  go (isDigit : Char → Bool) (done : List Char) : Scanner (List Char)
    | '_' :: c :: rest => if isDigit c then go isDigit (c :: done) rest else none
    | c :: rest => if isDigit c then go isDigit (c :: done) rest
      else if c = '_' then none else some (done.reverse, c :: rest)
    | [] => some (done.reverse, [])

def scanSign : List Char → Bool × List Char
  | '-' :: rest => (true, rest)
  | '+' :: rest => (false, rest)
  | cs => (false, cs)

def scanWhole : Scanner (List Char)
  | '0' :: rest => some (['0'], rest)
  | cs => scanDigits Char.isDigit cs

def fitsSigned64 (i : Int) : Bool := -Int.pow 2 63 ≤ i && i < Int.pow 2 63

/-- An integer in another base, whose prefix has been read. -/
def scanInBase (base : Nat) (isDigit : Char → Bool) : Scanner Scalar := fun cs => do
  let (ds, rest) ← scanDigits isDigit cs
  let n := ds.foldl (fun n c => base * n + (hexValue? c).getD 0) 0
  if fitsSigned64 n then some (.integer n, rest) else none

/-- The double that is written, where infinity stands for all that lies below the least one. -/
def doubleOfDecimal? (d : Decimal) : Option Double :=
  match Double.ofDecimal? d with
  | some x => some x
  | none => if d.negative then some (Double.infinity true) else none

def scanExponent : Scanner Int := fun cs =>
  let (negative, rest) := scanSign cs
  (scanDigits Char.isDigit rest).map fun (ds, rest) =>
    let e : Int := ofDecimalDigits ds
    (if negative then -e else e, rest)

/-- A decimal integer, or a number with a point or an exponent. -/
def scanDecimal : Scanner Scalar := fun cs => do
  let (negative, rest) := scanSign cs
  let (whole, rest) ← scanWhole rest
  let (fraction, rest) ← match rest with
    | '.' :: rest => scanDigits Char.isDigit rest
    | rest => some ([], rest)
  let (exponent, rest) ← match rest with
    | 'e' :: rest => (scanExponent rest).map fun (e, rest) => (some e, rest)
    | 'E' :: rest => (scanExponent rest).map fun (e, rest) => (some e, rest)
    | rest => some (none, rest)
  if fraction.isEmpty && exponent.isNone then
    let n : Int := ofDecimalDigits whole
    let i := if negative then -n else n
    if fitsSigned64 i then some (.integer i, rest) else none
  else
    let digits := ofDecimalDigits (whole ++ fraction)
    let d ← doubleOfDecimal? ⟨negative, digits, exponent.getD 0 - fraction.length⟩
    some (.real d, rest)

def scanSpecial (negative : Bool) : Scanner Scalar
  | 'i' :: 'n' :: 'f' :: rest => some (.real (.infinity negative), rest)
  | 'n' :: 'a' :: 'n' :: rest => some (.real (.notANumber negative), rest)
  | _ => none

/-- The number made of the first `count` characters, if they are digits. -/
def scanFixed : (count : Nat) → Scanner Nat := fun count cs =>
  let ds := cs.take count
  if ds.length = count && ds.all Char.isDigit then some (ofDecimalDigits ds, cs.drop count)
  else none

def daysOfMonth (year month : Nat) : Nat :=
  if month = 2 then
    if year % 4 = 0 ∧ (year % 100 ≠ 0 ∨ year % 400 = 0) then 29 else 28
  else if month = 4 ∨ month = 6 ∨ month = 9 ∨ month = 11 then 30
  else 31

def expect (c : Char) : List Char → Option (List Char)
  | d :: rest => if d = c then some rest else none
  | [] => none

def scanDate : Scanner Unit := fun cs => do
  let (year, cs) ← scanFixed 4 cs
  let (month, cs) ← scanFixed 2 (← expect '-' cs)
  let (day, cs) ← scanFixed 2 (← expect '-' cs)
  if 1 ≤ month ∧ month ≤ 12 ∧ 1 ≤ day ∧ day ≤ daysOfMonth year month then some ((), cs) else none

def scanTime : Scanner Unit := fun cs => do
  let (hour, cs) ← scanFixed 2 cs
  let (minute, cs) ← scanFixed 2 (← expect ':' cs)
  let (second, cs) ← scanFixed 2 (← expect ':' cs)
  if hour ≤ 23 ∧ minute ≤ 59 ∧ second ≤ 60 then
    match cs with
    | '.' :: rest =>
      match rest.takeWhile Char.isDigit with
      | [] => some ((), cs)
      | _ => some ((), rest.dropWhile Char.isDigit)
    | cs => some ((), cs)
  else none

def scanOffset : Scanner Unit
  | 'Z' :: rest => some ((), rest)
  | 'z' :: rest => some ((), rest)
  | c :: rest => do
    if c = '+' ∨ c = '-' then
      let (hour, cs) ← scanFixed 2 rest
      let (minute, cs) ← scanFixed 2 (← expect ':' cs)
      if hour ≤ 23 ∧ minute ≤ 59 then some ((), cs) else none
    else none
  | [] => none

def skipTime (cs : List Char) : List Char :=
  match cs with
  | c :: rest =>
    if c = 'T' ∨ c = 't' ∨ c = ' ' then
      match scanTime rest with
      | some (_, rest) =>
        match scanOffset rest with
        | some (_, rest) => rest
        | none => rest
      | none => cs
    else cs
  | [] => cs

def scanDateTime : Scanner Scalar := fun cs =>
  match scanDate cs with
  | some (_, rest) => some (.other, skipTime rest)
  | none => (scanTime cs).map fun (_, rest) => (.other, rest)

def scanNumber : Scanner Scalar
  | '0' :: 'x' :: rest => scanInBase 16 (fun c => (hexValue? c).isSome) rest
  | '0' :: 'o' :: rest => scanInBase 8 (fun c => '0' ≤ c && c ≤ '7') rest
  | '0' :: 'b' :: rest => scanInBase 2 (fun c => c = '0' || c = '1') rest
  | cs =>
    scanDateTime cs <|> scanSpecial (scanSign cs).1 (scanSign cs).2 <|> scanDecimal cs

end TaskGraph.Toml
