import TaskGraph.Number.Decimal

/-!
# Double-precision numbers

A double is kept as its 64 bits, so that equality is decided and nothing hangs on machine
arithmetic. Reading rounds an exact decimal to the nearest double, ties to the even significand.
Writing takes the shortest decimal that reads back, and of the shortest ones the nearest. Both are
done in natural numbers.
-/
namespace TaskGraph

/-- A double-precision number by its encoding: a sign, eleven bits of exponent, and 52 bits of
fraction. -/
structure Double where
  bits : UInt64
deriving DecidableEq, Repr, Inhabited

namespace Double

def ofFloat (x : Float) : Double := ⟨x.toBits⟩

def toFloat (d : Double) : Float := Float.ofBits d.bits

def signed (negative : Bool) (magnitude : Nat) : Double :=
  ⟨UInt64.ofNat ((if negative then Nat.pow 2 63 else 0) + magnitude)⟩

def infinity (negative : Bool) : Double := signed negative (2047 * Nat.pow 2 52)

def notANumber (negative : Bool) : Double := signed negative (2047 * Nat.pow 2 52 + Nat.pow 2 51)

def isNegative (d : Double) : Bool := d.bits.toNat ≥ Nat.pow 2 63

def exponentField (d : Double) : Nat := d.bits.toNat / Nat.pow 2 52 % Nat.pow 2 11

def fractionField (d : Double) : Nat := d.bits.toNat % Nat.pow 2 52

def isFinite (d : Double) : Bool := d.exponentField != 2047

/-- The magnitude of a finite double is `significand · 2 ^ scale`. -/
def significand (d : Double) : Nat :=
  if d.exponentField = 0 then d.fractionField else Nat.pow 2 52 + d.fractionField

def scale (d : Double) : Int := (max d.exponentField 1 : Nat) - 1075

def scaled (num den : Nat) : Int → Nat × Nat
  | .ofNat q => (num, den * Nat.pow 2 q)
  | .negSucc q => (num * Nat.pow 2 (q + 1), den)

/-- The natural number nearest to `num / den`; a tie goes to the even one. -/
def roundEven (num den : Nat) : Nat :=
  let floor := num / den
  let rest := 2 * (num % den)
  if rest < den ∨ (rest = den ∧ floor % 2 = 0) then floor else floor + 1

def scaleFor (num den : Nat) : Int :=
  let estimate : Int := (num.log2 : Int) - den.log2 - 52
  let (n, d) := scaled num den estimate
  max (if n < d * Nat.pow 2 52 then estimate - 1 else estimate) (-1074)

def nearest (negative : Bool) (num den : Nat) : Option Double :=
  let q := scaleFor num den
  let (n, d) := scaled num den q
  let s := roundEven n d
  let magnitude :=
    if s < Nat.pow 2 52 then s else (q + 1075).toNat * Nat.pow 2 52 + (s - Nat.pow 2 52)
  if magnitude < 2047 * Nat.pow 2 52 then some (signed negative magnitude) else none

/-- The double nearest to a decimal, or none if that lies beyond the largest. Decimals far outside
the range of the doubles are settled by their order alone. -/
def ofDecimal? (d : Decimal) : Option Double :=
  if d.digits = 0 ∨ d.order < -330 then some (signed d.negative 0)
  else if d.order > 310 then none
  else
    let (num, den) := d.ratio
    nearest d.negative num den

def decimalOrder (num den : Nat) : Int :=
  if den ≤ num then (decimalDigits (num / den)).length
  else
    let zeros := (decimalDigits (den / num)).length - 1
    if den ≤ num * Nat.pow 10 zeros then 1 - zeros else -zeros

/-- Where a magnitude lies between its two neighbours: the reals that round to it, over a common
denominator. The ends belong to the interval if `closed`. -/
structure Interval where
  low : Nat
  mid : Nat
  high : Nat
  den : Nat
  closed : Bool

def interval (d : Double) : Interval :=
  let m := d.significand
  let below := if d.fractionField = 0 ∧ 1 < d.exponentField then 1 else 2
  let (num, den) : Nat × Nat := match d.scale - 2 with
    | .ofNat q => (Nat.pow 2 q, 1)
    | .negSucc q => (1, Nat.pow 2 (q + 1))
  ⟨(4 * m - below) * num, 4 * m * num, (4 * m + 2) * num, den, m % 2 = 0⟩

/-- The multiple of `10 ^ p` in the interval that is nearest to its middle. Only the two multiples
next to the middle need a test; a tie goes to the even one. -/
def Interval.gridPoint? (i : Interval) (p : Int) : Option Nat :=
  let (factor, unit) : Nat × Nat := match p with
    | .ofNat e => (1, i.den * Nat.pow 10 e)
    | .negSucc e => (Nat.pow 10 (e + 1), i.den)
  let low := i.low * factor
  let mid := i.mid * factor
  let high := i.high * factor
  let floor := mid / unit
  let floorIn : Bool := if i.closed then low ≤ floor * unit else low < floor * unit
  let ceilIn : Bool := if i.closed then (floor + 1) * unit ≤ high else (floor + 1) * unit < high
  if floorIn && ceilIn then some (roundEven mid unit)
  else if floorIn then some floor
  else if ceilIn then some (floor + 1)
  else none

def Interval.shortest (i : Interval) (order : Int) : (left n : Nat) → Nat × Int
  | 0, n => (i.mid * Nat.pow 10 n / i.den, -n)
  | left + 1, n =>
    match i.gridPoint? (order - n) with
    | some c => (c, order - n)
    | none => shortest i order left (n + 1)

/-- The shortest decimal that reads back as the finite double. Seventeen digits always suffice. -/
def toDecimal (d : Double) : Decimal :=
  if d.significand = 0 then ⟨d.isNegative, 0, 0⟩
  else
    let i := d.interval
    let (digits, exponent) := i.shortest (decimalOrder i.mid i.den) 17 1
    Decimal.stripZeros d.isNegative digits exponent

end Double

end TaskGraph
