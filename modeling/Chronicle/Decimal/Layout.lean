import Chronicle.Decimal.Shortest

/-!
# Writing doubles

A layout fixes what the shortest digits leave open: where a tie goes, which exponents are written
out as zeros, and whether a whole number keeps a zero after its point.
-/

namespace Chronicle.Decimal

/-- The conventions of an output format for doubles. -/
structure Layout where
  tie : Tie
  /-- Exponents of the first digit that are written positionally; `none` writes all of them so. -/
  positional : Option (Int × Int)
  /-- Whether a whole number is written with `.0`. -/
  pointZero : Bool

namespace Layout

/-- Whether a number whose first digit has this exponent of ten is written positionally. -/
def isPositional (l : Layout) (first : Int) : Bool :=
  match l.positional with
  | none => true
  | some (low, high) => low ≤ first && first ≤ high

/-- The numeral of a scaled number. -/
def numeral (l : Layout) (negative : Bool) (d : Scaled) : Numeral :=
  let ds := digits d.significand
  let first : Int := d.exponent + ds.length - 1
  if l.isPositional first then
    if 0 ≤ d.exponent then
      ⟨negative, d.significand * Nat.pow 10 d.exponent.toNat,
        if l.pointZero then [.zero] else [], none⟩
    else if 0 ≤ first then
      ⟨negative, ofDigits (ds.take (first.toNat + 1)), ds.drop (first.toNat + 1), none⟩
    else ⟨negative, 0, List.replicate (-first - 1).toNat .zero ++ ds, none⟩
  else ⟨negative, ofDigits (ds.take 1), ds.drop 1, some first⟩

/-- The numeral of a double, if it is a number. -/
def ofFloat? (l : Layout) (x : Float) : Option Numeral :=
  match Binary.ofFloat x with
  | .finite negative significand exponent =>
    some (l.numeral negative (shortest l.tie significand exponent))
  | _ => none

end Layout

/-- Numbers shown to people: never an exponent, no zero after the point, half digits upwards. -/
def plain : Layout := ⟨.up, none, false⟩

/-- Numbers in JSON: positional from five zeros after the point to sixteen digits before it,
always visibly not an integer, half digits to even. -/
def jsonLayout : Layout := ⟨.even, some (-5, 15), true⟩

/-- The text of a double shown to people. -/
def floatText (x : Float) : String :=
  match Binary.ofFloat x with
  | .notANumber => "NaN"
  | .infinite negative => if negative then "-inf" else "inf"
  | .finite negative significand exponent =>
    (plain.numeral negative (shortest plain.tie significand exponent)).text

end Chronicle.Decimal
