/-!
# Decimal numbers

A decimal is a sign, a natural number and a power of ten.
-/
namespace TaskGraph

/-- The number `digits · 10 ^ exponent`, negated if `negative`. -/
structure Decimal where
  negative : Bool
  digits : Nat
  exponent : Int
deriving DecidableEq, Repr

def decimalDigits (n : Nat) : List Char := Nat.toDigits 10 n

def ofDecimalDigits (ds : List Char) : Nat :=
  ds.foldl (fun n c => 10 * n + (c.toNat - '0'.toNat)) 0

def paddedDigits (width n : Nat) : List Char :=
  let ds := decimalDigits n
  List.replicate (width - ds.length) '0' ++ ds

namespace Decimal

def ratio (d : Decimal) : Nat × Nat :=
  match d.exponent with
  | .ofNat e => (d.digits * Nat.pow 10 e, 1)
  | .negSucc e => (d.digits, Nat.pow 10 (e + 1))

/-- The power of ten just above a magnitude that is not zero. -/
def order (d : Decimal) : Int := (decimalDigits d.digits).length + d.exponent

def stripZeros (negative : Bool) (digits : Nat) (exponent : Int) : Decimal :=
  if digits ≠ 0 ∧ digits % 10 = 0 then stripZeros negative (digits / 10) (exponent + 1)
  else ⟨negative, digits, exponent⟩
termination_by digits

end Decimal

end TaskGraph
