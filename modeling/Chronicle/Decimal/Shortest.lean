import Chronicle.Decimal.Numeral

/-!
# The shortest decimal of a double

A positive double stands for every real that rounds to it.  Its shortest decimal is the one with
the fewest digits among those reals, and the nearest to the double among these.  Everything is
computed exactly, on natural numbers.
-/

namespace Chronicle.Decimal

/-! ## Doubles as binary fractions -/

/-- The weight of the leading bit of a double's significand. -/
def leadingBit : Nat := Nat.pow 2 52

/-- What a double is: not a number, an infinity, or `significand * 2 ^ exponent` with a sign. -/
inductive Binary where
  | notANumber
  | infinite (negative : Bool)
  | finite (negative : Bool) (significand : Nat) (exponent : Int)
  deriving DecidableEq

/-- Reads the sign, exponent and fraction fields of a double. -/
def Binary.ofFloat (x : Float) : Binary :=
  let bits := x.toBits.toNat
  let negative := bits / (2048 * leadingBit) == 1
  let field : Nat := bits / leadingBit % 2048
  let fraction : Nat := bits % leadingBit
  if field = 2047 then
    if fraction = 0 then .infinite negative else .notANumber
  else if field = 0 then .finite negative fraction (-1074)
  else .finite negative (leadingBit + fraction) ((field : Int) - 1075)

/-! ## Selection -/

/-- Where an exact tie between two neighbouring decimals goes. -/
inductive Tie where
  | even
  | up
  deriving DecidableEq

/-- The reals that round to a positive double, in exact quarters of its last place: the double is
`value / unit`, its interval runs from `low / unit` to `high / unit`, with the ends included if
`closed`. -/
structure Interval where
  low : Nat
  value : Nat
  high : Nat
  unit : Nat
  closed : Bool

namespace Interval

/-- The interval of `significand * 2 ^ exponent`.  Below a power of two the gap is half as wide,
except at the least exponent. -/
def ofBinary (significand : Nat) (exponent : Int) : Interval :=
  let scale := Nat.pow 2 (exponent - 2).toNat
  let below := if significand = leadingBit && exponent != -1074 then 1 else 2
  { low := (4 * significand - below) * scale
    value := 4 * significand * scale
    high := (4 * significand + 2) * scale
    unit := Nat.pow 2 (2 - exponent).toNat
    closed := significand % 2 == 0 }

/-- The exponent of ten of the value's first digit. -/
def leading (i : Interval) : Int :=
  if i.unit ≤ i.value then ((digits (i.value / i.unit)).length : Int) - 1
  else
    match (List.range 400).find? fun j => i.unit ≤ i.value * Nat.pow 10 (j + 1) with
    | some j => -((j : Int) + 1)
    | none => -400

/-- The nearest point to the value on the grid of multiples of `10 ^ k`, if one of its two
neighbours there lies in the interval. -/
def onGrid? (i : Interval) (tie : Tie) (k : Int) : Option Scaled :=
  let up := Nat.pow 10 (-k).toNat
  let cell := i.unit * Nat.pow 10 k.toNat
  let inside (d : Nat) : Bool :=
    if i.closed then i.low * up ≤ d * cell && d * cell ≤ i.high * up
    else i.low * up < d * cell && d * cell < i.high * up
  -- `d` is the neighbour below, `d + 1` the one above
  let d := i.value * up / cell
  let nearest : Nat :=
    match compare (2 * (i.value * up)) ((2 * d + 1) * cell) with
    | .lt => d
    | .gt => d + 1
    | .eq => if tie = .up ∨ d % 2 = 1 then d + 1 else d
  match inside d, inside (d + 1) with
  | true, true => some ⟨nearest, k⟩
  | true, false => some ⟨d, k⟩
  | false, true => some ⟨d + 1, k⟩
  | false, false => none

/-- Tries one digit, then two, and so on; seventeen always suffice. -/
def shortest (i : Interval) (tie : Tie) : Scaled :=
  ((List.range 17).findSome? fun (n : Nat) => i.onGrid? tie (i.leading - n)).getD ⟨0, 0⟩

end Interval

/-- Moves trailing zeros from the significand to the exponent; at most as many as the first
argument. -/
def Scaled.trimmed : Nat → Scaled → Scaled
  | 0, d => d
  | fuel + 1, d =>
    if d.significand ≠ 0 ∧ d.significand % 10 = 0 then
      trimmed fuel ⟨d.significand / 10, d.exponent + 1⟩
    else d

/-- The shortest decimal of `significand * 2 ^ exponent`, without trailing zeros. -/
def shortest (tie : Tie) (significand : Nat) (exponent : Int) : Scaled :=
  if significand = 0 then ⟨0, 0⟩
  else ((Interval.ofBinary significand exponent).shortest tie).trimmed 20

end Chronicle.Decimal
