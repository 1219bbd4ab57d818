import TaskGraph.Number.Double

/-!
# JSON documents

A document is what a JSON text says, before anything is asked of it: numbers as they are written,
the members of an object in their order and with repetitions.
-/
namespace TaskGraph.Json

/-- A number as it is written. The fraction is a list of digits; it is empty for a number without a
point. -/
structure Numeral where
  negative : Bool
  whole : Nat
  fraction : List Char := []
  exponent : Option Int := none
deriving DecidableEq, Repr

/-- The text that a string denotes. There is none if an escape names half of a surrogate pair. -/
abbrev Literal := Option String

inductive Document where
  | null
  | bool (b : Bool)
  | number (n : Numeral)
  | string (s : Literal)
  | array (items : List Document)
  | object (members : List (Literal × Document))
deriving Repr, Inhabited

namespace Numeral

def isInteger (n : Numeral) : Bool := n.fraction.isEmpty && n.exponent.isNone

def ofNat (n : Nat) : Numeral := ⟨false, n, [], none⟩

def ofInt (i : Int) : Numeral := ⟨decide (i < 0), i.natAbs, [], none⟩

def toDecimal (n : Numeral) : Decimal :=
  ⟨n.negative, n.whole * Nat.pow 10 n.fraction.length + ofDecimalDigits n.fraction,
    n.exponent.getD 0 - n.fraction.length⟩

/-- How a decimal is written as a fraction: with a point and at least one digit behind it from
`10 ^ (-5)` up to `10 ^ 16`, and with one digit before the point and an exponent elsewhere. -/
def ofDecimal (d : Decimal) : Numeral :=
  let lead := d.order - 1
  if d.digits = 0 then ⟨d.negative, 0, ['0'], none⟩
  else if -5 ≤ lead ∧ lead < 16 then
    match d.exponent with
    | .ofNat e => ⟨d.negative, d.digits * Nat.pow 10 e, ['0'], none⟩
    | .negSucc e =>
      ⟨d.negative, d.digits / Nat.pow 10 (e + 1),
        paddedDigits (e + 1) (d.digits % Nat.pow 10 (e + 1)), none⟩
  else
    let behind := (decimalDigits d.digits).length - 1
    ⟨d.negative, d.digits / Nat.pow 10 behind,
      if behind = 0 then [] else paddedDigits behind (d.digits % Nat.pow 10 behind), some lead⟩

end Numeral

namespace Document

def text (s : String) : Document := .string (some s)

def record (members : List (String × Document)) : Document :=
  .object (members.map fun (k, v) => (some k, v))

/-- A double in its shortest form; JSON has no infinities, so they become `null`. -/
def double (d : Double) : Document :=
  if d.isFinite then .number (.ofDecimal d.toDecimal) else .null

def member? (name : String) : Document → Option Document
  | .object members => (members.reverse.find? (·.1 == some name)).map (·.2)
  | _ => none

end Document

end TaskGraph.Json
