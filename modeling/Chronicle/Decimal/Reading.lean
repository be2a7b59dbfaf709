import Chronicle.Decimal.Numeral

/-!
# Reading doubles

A numeral becomes a double in two roundings: its digits are gathered into a 64-bit significand
while they fit, and this is scaled by one power of ten at a time.  What passes the largest double
has no value.
-/

namespace Chronicle.Decimal

/-- The largest significand. -/
def significandLimit : Nat := UInt64.size - 1

/-- Gathers the digits of a whole part: from the first that no longer fits, each digit only
raises the exponent. -/
def gatherWhole (s : Scaled) : List Digit → Scaled
  | [] => s
  | d :: rest =>
    if s.exponent = 0 ∧ 10 * s.significand + d.val ≤ significandLimit then
      gatherWhole ⟨10 * s.significand + d.val, 0⟩ rest
    else gatherWhole ⟨s.significand, s.exponent + 1⟩ rest

/-- Gathers the digits after the point, up to the first that no longer fits. -/
def gatherFraction (s : Scaled) : List Digit → Scaled
  | [] => s
  | d :: rest =>
    if 10 * s.significand + d.val ≤ significandLimit then
      gatherFraction ⟨10 * s.significand + d.val, s.exponent - 1⟩ rest
    else s

/-- The double nearest to a power of ten. -/
def powerOfTen (n : Nat) : Float := Float.ofScientific 1 false n

/-- Scales `x` by ten to the exponent, at most 308 places at a time; `none` past the largest
double.  The first argument bounds the number of steps; a significand of 64 bits is zero after two
steps down. -/
def scale? : Nat → Float → Int → Option Float
  | 0, _, _ => some 0
  | fuel + 1, x, e =>
    if e.natAbs ≤ 308 then
      if 0 ≤ e then
        let y := x * powerOfTen e.natAbs
        if y.isInf then none else some y
      else some (x / powerOfTen e.natAbs)
    else if x == 0 then some x
    else if 0 ≤ e then none
    else scale? fuel (x / powerOfTen 308) (e + 308)

/-- The magnitude of a numeral as a double. -/
def Numeral.magnitude? (n : Numeral) : Option Float :=
  let s := gatherFraction (gatherWhole ⟨0, 0⟩ (digits n.whole)) n.fraction
  scale? 4 s.significand.toUInt64.toFloat (s.exponent + n.exponent.getD 0)

/-- The double that a numeral stands for, unless it is past the largest.  An integer that fits 64
bits is rounded once. -/
def Numeral.toFloat? (n : Numeral) : Option Float :=
  n.magnitude?.map fun x => if n.negative then -x else x

end Chronicle.Decimal
