import TaskGraph.Json.Document

/-!
# The tokens of a JSON text

`Token.text` writes a token and `lex` reads a text as a list of tokens. Escapes are checked for
their form alone: whether a string denotes a text is kept in the token, so that a reader may skip
a string that denotes none.
-/
namespace TaskGraph.Json

inductive Token where
  | openArray
  | closeArray
  | openObject
  | closeObject
  | colon
  | comma
  | null
  | bool (b : Bool)
  | number (n : Numeral)
  | string (s : Literal)
deriving DecidableEq, Repr

/-- A character as it is written in a string. Only the quotation mark, the backslash and the
characters below the space are escaped. -/
def escapeChar (c : Char) : List Char :=
  match c with
  | '"' => ['\\', '"']
  | '\\' => ['\\', '\\']
  | '\x08' => ['\\', 'b']
  | '\x0c' => ['\\', 'f']
  | '\n' => ['\\', 'n']
  | '\r' => ['\\', 'r']
  | '\t' => ['\\', 't']
  | c =>
    if c.toNat < 0x20 then
      ['\\', 'u', '0', '0', Nat.digitChar (c.toNat / 16), Nat.digitChar (c.toNat % 16)]
    else [c]

def quote (s : String) : List Char := '"' :: (s.toList.flatMap escapeChar ++ ['"'])

def Numeral.text (n : Numeral) : List Char :=
  (if n.negative then ['-'] else []) ++ decimalDigits n.whole ++
    (if n.fraction.isEmpty then [] else '.' :: n.fraction) ++
    match n.exponent with
    | none => []
    | some e => ['e', if e < 0 then '-' else '+'] ++ decimalDigits e.natAbs

/-- A token as it is written. A string that denotes no text is written as the lone surrogate that
it may be. -/
def Token.text : Token → List Char
  | .openArray => ['[']
  | .closeArray => [']']
  | .openObject => ['\x7b']
  | .closeObject => ['\x7d']
  | .colon => [':']
  | .comma => [',']
  | .null => ['n', 'u', 'l', 'l']
  | .bool true => ['t', 'r', 'u', 'e']
  | .bool false => ['f', 'a', 'l', 's', 'e']
  | .number n => n.text
  | .string (some s) => quote s
  | .string none => ['"', '\\', 'u', 'd', '8', '0', '0', '"']

def hexValue? (c : Char) : Option Nat :=
  if '0' ≤ c ∧ c ≤ '9' then some (c.toNat - '0'.toNat)
  else if 'a' ≤ c ∧ c ≤ 'f' then some (c.toNat - 'a'.toNat + 10)
  else if 'A' ≤ c ∧ c ≤ 'F' then some (c.toNat - 'A'.toNat + 10)
  else none

def unitOfHex? (a b c d : Char) : Option Nat := do
  some ((((← hexValue? a) * 16 + (← hexValue? b)) * 16 + (← hexValue? c)) * 16 + (← hexValue? d))

def shortEscape? : Char → Option Char
  | '"' => some '"'
  | '\\' => some '\\'
  | '/' => some '/'
  | 'b' => some '\x08'
  | 'f' => some '\x0c'
  | 'n' => some '\n'
  | 'r' => some '\r'
  | 't' => some '\t'
  | _ => none

def isHighSurrogate (u : Nat) : Bool := 0xD800 ≤ u && u < 0xDC00

def isLowSurrogate (u : Nat) : Bool := 0xDC00 ≤ u && u < 0xE000

/-- The characters that a list of units denotes, in front of them those of `done` in reverse. Two
halves of a surrogate pair that follow one another denote one character. -/
def charsOfUnits (done : List Char) : List Nat → Option (List Char)
  | [] => some done.reverse
  | [u] =>
    if isHighSurrogate u || isLowSurrogate u then none
    else some (Char.ofNat u :: done).reverse
  | u :: v :: rest =>
    if isHighSurrogate u then
      if isLowSurrogate v then
        charsOfUnits (Char.ofNat (0x10000 + (u - 0xD800) * 0x400 + (v - 0xDC00)) :: done) rest
      else none
    else if isLowSurrogate u then none
    else charsOfUnits (Char.ofNat u :: done) (v :: rest)

def literalOfUnits (units : List Nat) : Literal :=
  (charsOfUnits [] units).map String.ofList

/-- The units of a string whose opening quotation mark has been read, and what follows it. -/
def scanString (done : List Nat) : List Char → Option (List Nat × List Char)
  | [] => none
  | '"' :: rest => some (done.reverse, rest)
  | '\\' :: 'u' :: a :: b :: c :: d :: rest =>
    match unitOfHex? a b c d with
    | some u => scanString (u :: done) rest
    | none => none
  | '\\' :: e :: rest =>
    match shortEscape? e with
    | some c => scanString (c.toNat :: done) rest
    | none => none
  | c :: rest => if c.toNat < 0x20 then none else scanString (c.toNat :: done) rest

def scanDigits (cs : List Char) : Option (List Char × List Char) :=
  match cs.takeWhile Char.isDigit with
  | [] => none
  | ds => some (ds, cs.dropWhile Char.isDigit)

def scanFraction : List Char → Option (List Char × List Char)
  | '.' :: rest => scanDigits rest
  | cs => some ([], cs)

def scanExponent : List Char → Option (Option Int × List Char)
  | c :: rest =>
    if c = 'e' ∨ c = 'E' then
      let (negative, rest) := match rest with
        | '-' :: rest => (true, rest)
        | '+' :: rest => (false, rest)
        | rest => (false, rest)
      match scanDigits rest with
      | none => none
      | some (ds, rest) =>
        let e : Int := ofDecimalDigits ds
        some (some (if negative then -e else e), rest)
    else some (none, c :: rest)
  | [] => some (none, [])

/-- The number at the front of a text, whose sign has been read. -/
def scanNumber (negative : Bool) (cs : List Char) : Option (Numeral × List Char) :=
  match scanDigits cs with
  | none => none
  | some (ds, rest) =>
    if ds.head? = some '0' ∧ 1 < ds.length then none
    else
      match scanFraction rest with
      | none => none
      | some (fraction, rest) =>
        match scanExponent rest with
        | none => none
        | some (exponent, rest) =>
          some (⟨negative, ofDecimalDigits ds, fraction, exponent⟩, rest)

def scanToken (c : Char) (cs : List Char) : Option (Token × List Char) :=
  match c, cs with
  | '[', rest => some (.openArray, rest)
  | ']', rest => some (.closeArray, rest)
  | '\x7b', rest => some (.openObject, rest)
  | '\x7d', rest => some (.closeObject, rest)
  | ':', rest => some (.colon, rest)
  | ',', rest => some (.comma, rest)
  | 'n', 'u' :: 'l' :: 'l' :: rest => some (.null, rest)
  | 't', 'r' :: 'u' :: 'e' :: rest => some (.bool true, rest)
  | 'f', 'a' :: 'l' :: 's' :: 'e' :: rest => some (.bool false, rest)
  | '"', rest =>
    (scanString [] rest).map fun (units, rest) => (.string (literalOfUnits units), rest)
  | '-', rest => (scanNumber true rest).map fun (n, rest) => (.number n, rest)
  | c, rest =>
    if c.isDigit then (scanNumber false (c :: rest)).map fun (n, rest) => (.number n, rest)
    else none

theorem length_scanString {done units : List Nat} {cs rest : List Char}
    (h : scanString done cs = some (units, rest)) : rest.length < cs.length := by
  fun_induction scanString done cs <;> simp_all <;> omega

theorem length_scanDigits {cs ds rest : List Char} (h : scanDigits cs = some (ds, rest)) :
    rest.length < cs.length ∧ cs = ds ++ rest := by
  have hcs : cs.takeWhile Char.isDigit ++ cs.dropWhile Char.isDigit = cs :=
    List.takeWhile_append_dropWhile
  unfold scanDigits at h
  split at h
  · simp at h
  · rename_i hne
    simp only [Option.some.injEq, Prod.mk.injEq] at h
    obtain ⟨rfl, rfl⟩ := h
    refine ⟨?_, hcs.symm⟩
    have hl := congrArg List.length hcs
    have := List.length_pos_iff.mpr hne
    simp only [List.length_append] at hl
    omega

theorem length_scanFraction {cs ds rest : List Char} (h : scanFraction cs = some (ds, rest)) :
    rest.length ≤ cs.length := by
  unfold scanFraction at h
  split at h
  · have := (length_scanDigits h).1
    simp; omega
  · simp_all

theorem length_scanExponent {cs rest : List Char} {e : Option Int}
    (h : scanExponent cs = some (e, rest)) : rest.length ≤ cs.length := by
  unfold scanExponent at h
  split at h
  · split at h
    · simp only at h
      split at h
      · simp at h
      · rename_i hd
        simp only [Option.some.injEq, Prod.mk.injEq] at h
        have := (length_scanDigits hd).1
        obtain ⟨-, rfl⟩ := h
        split at this <;> simp_all <;> omega
    · simp_all
  · simp_all

theorem length_scanNumber {negative : Bool} {cs rest : List Char} {n : Numeral}
    (h : scanNumber negative cs = some (n, rest)) : rest.length < cs.length := by
  unfold scanNumber at h
  split at h
  · simp at h
  · rename_i hd
    split at h
    · simp at h
    · split at h
      · simp at h
      · rename_i hf
        split at h
        · simp at h
        · rename_i he
          have h1 := (length_scanDigits hd).1
          have h2 := length_scanFraction hf
          have h3 := length_scanExponent he
          simp only [Option.some.injEq, Prod.mk.injEq] at h
          obtain ⟨-, rfl⟩ := h
          omega

theorem length_scanToken {c : Char} {cs rest : List Char} {t : Token}
    (h : scanToken c cs = some (t, rest)) : rest.length ≤ cs.length := by
  unfold scanToken at h
  split at h
  case h_10 =>
    obtain ⟨⟨units, r⟩, hs, h⟩ := Option.map_eq_some_iff.1 h
    obtain ⟨-, rfl⟩ := Prod.mk.inj h
    exact Nat.le_of_lt (length_scanString hs)
  case h_11 =>
    obtain ⟨⟨n, r⟩, hn, h⟩ := Option.map_eq_some_iff.1 h
    obtain ⟨-, rfl⟩ := Prod.mk.inj h
    exact Nat.le_of_lt (length_scanNumber hn)
  case h_12 =>
    split at h
    · obtain ⟨⟨n, r⟩, hn, h⟩ := Option.map_eq_some_iff.1 h
      obtain ⟨-, rfl⟩ := Prod.mk.inj h
      exact Nat.le_of_lt_succ (length_scanNumber hn)
    · simp at h
  all_goals
    obtain ⟨-, rfl⟩ := Prod.mk.inj (Option.some.inj h)
    simp +arith

def isJsonBlank (c : Char) : Bool := c = ' ' ∨ c = '\n' ∨ c = '\t' ∨ c = '\r'

/-- The tokens of a text, in front of them those of `done` in reverse. -/
def lexFrom (done : List Token) (cs : List Char) : Option (List Token) :=
  match cs with
  | [] => some done.reverse
  | c :: rest =>
    if isJsonBlank c then lexFrom done rest
    else
      match _h : scanToken c rest with
      | none => none
      | some (t, rest') => lexFrom (t :: done) rest'
termination_by cs.length
decreasing_by
  · simp
  · have := length_scanToken _h
    simp
    omega

def lex (cs : List Char) : Option (List Token) := lexFrom [] cs

end TaskGraph.Json
