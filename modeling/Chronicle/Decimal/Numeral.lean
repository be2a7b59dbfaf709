/-!
# Decimal numerals

A numeral is a number as it is written: a sign, a whole part, the digits after the point and an
exponent.  `Numeral.text` writes one; `digits` are the decimal digits of a natural number and
`ofDigits` reads them back (`ofDigits_digits`).  An integer is read back from its numeral
(`Numeral.toInt?_ofInt`).
-/

namespace Chronicle.Decimal

/-- A decimal digit. -/
abbrev Digit := Fin 10

namespace Digit

/-- The digit zero. -/
def zero : Digit := ⟨0, by decide⟩

/-- The character of a digit. -/
def char (d : Digit) : Char := Char.ofNat (48 + d.val)

/-- The digit that a character writes. -/
def ofChar? (c : Char) : Option Digit :=
  if h : 48 ≤ c.toNat ∧ c.toNat < 58 then some ⟨c.toNat - 48, by omega⟩ else none

theorem ofChar?_char (d : Digit) : ofChar? d.char = some d := by
  revert d; decide

end Digit

/-! ## Natural numbers -/

/-- The digits of `n`, most significant first, when `n` is less than the first argument. -/
def digitsBelow : Nat → Nat → List Digit
  | 0, _ => [.zero]
  | bound + 1, n =>
    if h : n < 10 then [⟨n, h⟩]
    else digitsBelow bound (n / 10) ++ [⟨n % 10, Nat.mod_lt _ (by decide)⟩]

/-- The digits of a natural number, most significant first, without leading zeros. -/
def digits (n : Nat) : List Digit := digitsBelow (n + 1) n

/-- The number that digits write when they follow those of `start`. -/
def extendBy (start : Nat) (ds : List Digit) : Nat := ds.foldl (fun n d => 10 * n + d.val) start

/-- The number that digits write. -/
def ofDigits (ds : List Digit) : Nat := extendBy 0 ds

theorem ofDigits_append_singleton (ds : List Digit) (d : Digit) :
    ofDigits (ds ++ [d]) = 10 * ofDigits ds + d.val := by
  simp [ofDigits, extendBy]

theorem ofDigits_digitsBelow {bound n : Nat} (h : n < bound) :
    ofDigits (digitsBelow bound n) = n := by
  induction bound generalizing n with
  | zero => omega
  | succ bound ih =>
    rw [digitsBelow]
    split
    · simp [ofDigits, extendBy]
    · rw [ofDigits_append_singleton, ih (by omega)]
      simp only
      omega

/-- Reading back the digits of a number gives the number. -/
@[simp] theorem ofDigits_digits (n : Nat) : ofDigits (digits n) = n :=
  ofDigits_digitsBelow (Nat.lt_succ_self n)

theorem digitsBelow_ne_nil (bound n : Nat) : digitsBelow bound n ≠ [] := by
  cases bound with
  | zero => simp [digitsBelow]
  | succ bound =>
    rw [digitsBelow]
    split <;> simp

theorem digits_ne_nil (n : Nat) : digits n ≠ [] := digitsBelow_ne_nil _ _

/-- Only zero is written with a leading zero. -/
theorem head?_digitsBelow {bound n : Nat} (h : n < bound) (hn : n ≠ 0) :
    (digitsBelow bound n).head? ≠ some .zero := by
  induction bound generalizing n with
  | zero => omega
  | succ bound ih =>
    rw [digitsBelow]
    split
    · next h10 =>
      intro h0
      simp only [List.head?_cons, Option.some.injEq, Digit.zero, Fin.mk.injEq] at h0
      exact hn h0
    · have hrest := ih (n := n / 10) (by omega) (by omega)
      obtain ⟨d, ds, hds⟩ := List.exists_cons_of_ne_nil (digitsBelow_ne_nil bound (n / 10))
      simpa [hds] using hrest

theorem head?_digits {n : Nat} (hn : n ≠ 0) : (digits n).head? ≠ some .zero :=
  head?_digitsBelow (Nat.lt_succ_self n) hn

/-- The characters of a natural number. -/
def natChars (n : Nat) : List Char := (digits n).map Digit.char

/-! ## Numbers scaled by a power of ten -/

/-- The number `significand * 10 ^ exponent`. -/
structure Scaled where
  significand : Nat
  exponent : Int
  deriving DecidableEq, Inhabited

/-! ## Numerals -/

/-- A number as it is written.  Without digits after the point no point is written. -/
structure Numeral where
  negative : Bool
  whole : Nat
  fraction : List Digit
  exponent : Option Int
  deriving DecidableEq, Inhabited

namespace Numeral

/-- The numeral of an integer. -/
def ofInt (i : Int) : Numeral := ⟨i < 0, i.natAbs, [], none⟩

/-- The characters of an exponent: its mark, always a sign, its digits. -/
def exponentChars (e : Int) : List Char :=
  'e' :: (if e < 0 then '-' else '+') :: natChars e.natAbs

/-- The characters of a numeral. -/
def chars (n : Numeral) : List Char :=
  (if n.negative then ['-'] else [])
    ++ natChars n.whole
    ++ (if n.fraction.isEmpty then [] else '.' :: n.fraction.map Digit.char)
    ++ (match n.exponent with
        | none => []
        | some e => exponentChars e)

/-- The numeral as text. -/
def text (n : Numeral) : String := String.ofList n.chars

/-- The integer written, if there is neither point nor exponent.  A negative zero is not an
integer. -/
def toInt? (n : Numeral) : Option Int :=
  if n.fraction.isEmpty && n.exponent.isNone && !(n.negative && n.whole == 0) then
    some (if n.negative then -(n.whole : Int) else n.whole)
  else none

theorem toInt?_ofInt (i : Int) : (ofInt i).toInt? = some i := by
  by_cases h : i < 0
  · have hne : (i.natAbs == 0) = false := by
      rw [beq_eq_false_iff_ne]
      omega
    have habs : -(i.natAbs : Int) = i := by omega
    simp only [toInt?, ofInt, h, hne, habs, decide_true, List.isEmpty_nil, Option.isNone_none,
      Bool.and_true, Bool.and_false, Bool.not_false, if_true]
  · have habs : (i.natAbs : Int) = i := by omega
    simp only [toInt?, ofInt, h, habs, decide_false, List.isEmpty_nil, Option.isNone_none,
      Bool.and_true, Bool.false_and, Bool.not_false, Bool.false_eq_true, if_true, if_false]

end Numeral

/-- The text of an integer. -/
def intText (i : Int) : String := (Numeral.ofInt i).text

end Chronicle.Decimal
