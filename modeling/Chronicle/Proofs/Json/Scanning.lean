import Mathlib.Data.List.Chain
import Mathlib.Tactic.IntervalCases
import Chronicle.Json.Token

/-!
# Tokens are read back from their characters

A token that is written and then scanned is the same token, and what follows it is left.  A number
ends where no digit, point or mark of an exponent follows; so a list of tokens is scanned back if no
number stands right behind a number.

* `Token.readNumber?_chars` : a number, whatever its fraction and exponent are;
* `Quoted.decode?_encode` : a text, whatever has to be escaped in it;
* `Token.read?_chars` : any token that writes something;
* `Token.scan_chars` : lists of tokens.
-/

namespace Chronicle.Json

open Decimal

/-! ## Numbers -/

namespace Token

/-- No digit stands at the start of the text. -/
def StartsNoDigit (cs : List Char) : Prop := ∀ c, cs.head? = some c → Digit.ofChar? c = none

/-- What may follow a number: neither a digit nor a point nor the mark of an exponent. -/
structure EndsNumber (cs : List Char) : Prop where
  noDigit : StartsNoDigit cs
  noPoint : cs.head? ≠ some '.'
  noMark : ∀ c, cs.head? = some c → ¬(c = 'e' ∨ c = 'E')

theorem endsNumber_nil : EndsNumber [] := ⟨nofun, nofun, nofun⟩

theorem startsNoDigit_cons {c : Char} (h : Digit.ofChar? c = none) (cs : List Char) :
    StartsNoDigit (c :: cs) := by
  intro c' hc'
  cases hc'
  exact h

/-- Digits are read up to where none follows. -/
theorem spanDigits_chars (ds : List Digit) {rest : List Char} (h : StartsNoDigit rest) :
    spanDigits (ds.map Digit.char ++ rest) = (ds, rest) := by
  induction ds with
  | nil =>
    rcases rest with _ | ⟨c, rest⟩
    · rfl
    · rw [List.map_nil, List.nil_append, spanDigits, h c rfl]
  | cons d ds ih => rw [List.map_cons, List.cons_append, spanDigits, Digit.ofChar?_char, ih]

/-- A whole part is written without leading zeros, so it is read back. -/
theorem readWhole?_natChars (n : Nat) {rest : List Char} (h : StartsNoDigit rest) :
    readWhole? (natChars n ++ rest) = some (n, rest) := by
  have hspan : spanDigits (natChars n ++ rest) = (digits n, rest) := spanDigits_chars _ h
  have hback := ofDigits_digits n
  unfold readWhole?
  rw [hspan]
  rcases hds : digits n with _ | ⟨d, _ | ⟨e, ds⟩⟩
  · exact absurd hds (digits_ne_nil n)
  · rw [hds] at hback
    have hd : d.val = n := by simpa [ofDigits, extendBy] using hback
    simp only [hd]
  · have hd : d.val ≠ 0 := by
      intro hzero
      by_cases hn : n = 0
      · subst hn
        simp [digits, digitsBelow] at hds
      · have hhead := head?_digits hn
        rw [hds] at hhead
        exact hhead (congrArg some (Fin.ext hzero))
    rw [hds] at hback
    simp only [if_neg hd, hback]

/-- The characters of the digits after a point. -/
def fractionChars (ds : List Digit) : List Char :=
  if ds.isEmpty then [] else '.' :: ds.map Digit.char

/-- The characters of an exponent, if there is one. -/
def markedChars : Option Int → List Char
  | none => []
  | some e => Numeral.exponentChars e

/-- The minus that a number may start with, and what follows it. -/
def spanMinus : List Char → Bool × List Char
  | '-' :: rest => (true, rest)
  | cs => (false, cs)

theorem chars_eq (n : Numeral) :
    n.chars = (if n.negative then ['-'] else [])
      ++ (natChars n.whole ++ (fractionChars n.fraction ++ markedChars n.exponent)) := by
  unfold Numeral.chars
  rw [List.append_assoc, List.append_assoc]
  rfl

theorem readNumber?_eq (cs : List Char) :
    readNumber? cs = (readWhole? (spanMinus cs).2).bind fun w => (readFraction? w.2).bind fun f =>
      (readExponent? f.2).bind fun e => some (⟨(spanMinus cs).1, w.1, f.1, e.1⟩, e.2) := rfl

theorem readFraction?_fractionChars (ds : List Digit) {rest : List Char} (h : StartsNoDigit rest)
    (hpoint : rest.head? ≠ some '.') :
    readFraction? (fractionChars ds ++ rest) = some (ds, rest) := by
  rcases ds with _ | ⟨d, ds⟩
  · show readFraction? rest = some ([], rest)
    unfold readFraction?
    split
    · exact absurd rfl hpoint
    · rfl
  · show readFraction? ('.' :: ((d :: ds).map Digit.char ++ rest)) = _
    rw [readFraction?, spanDigits_chars _ h]

/-- The sign of an exponent is always written. -/
theorem readExponent?_exponentChars (e : Int) {rest : List Char} (h : StartsNoDigit rest) :
    readExponent? (Numeral.exponentChars e ++ rest) = some (some e, rest) := by
  have hspan : spanDigits (natChars e.natAbs ++ rest) = (digits e.natAbs, rest) :=
    spanDigits_chars _ h
  obtain ⟨d, ds, hds⟩ := List.exists_cons_of_ne_nil (digits_ne_nil e.natAbs)
  have hback := ofDigits_digits e.natAbs
  rw [hds] at hspan hback
  have hread : ∀ (sign : Char) (negative : Bool),
      spanSign (sign :: (natChars e.natAbs ++ rest)) = (negative, natChars e.natAbs ++ rest) →
      readExponent? ('e' :: sign :: (natChars e.natAbs ++ rest))
        = some (some (if negative then -(e.natAbs : Int) else e.natAbs), rest) := by
    intro sign negative hsign
    rw [readExponent?, if_pos (Or.inl rfl), hsign]
    dsimp only
    rw [hspan]
    dsimp only
    rw [hback]
  unfold Numeral.exponentChars
  rcases Int.lt_or_le e 0 with hneg | hpos
  · rw [if_pos hneg]
    refine (hread '-' true rfl).trans ?_
    rw [if_pos rfl, show -(e.natAbs : Int) = e by omega]
  · rw [if_neg (by omega)]
    refine (hread '+' false rfl).trans ?_
    rw [if_neg Bool.false_ne_true, show (e.natAbs : Int) = e by omega]

theorem readExponent?_markedChars (exponent : Option Int) {rest : List Char} (h : EndsNumber rest) :
    readExponent? (markedChars exponent ++ rest) = some (exponent, rest) := by
  rcases exponent with _ | e
  · show readExponent? rest = some (none, rest)
    rcases rest with _ | ⟨c, rest⟩
    · rfl
    · rw [readExponent?, if_neg (h.noMark c rfl)]
  · exact readExponent?_exponentChars e h.noDigit

/-- A whole part starts with a digit, which is no minus. -/
theorem spanMinus_natChars (n : Nat) (rest : List Char) :
    spanMinus (natChars n ++ rest) = (false, natChars n ++ rest) := by
  obtain ⟨⟨d, hd⟩, ds, hds⟩ := List.exists_cons_of_ne_nil (digits_ne_nil n)
  unfold natChars
  rw [hds]
  interval_cases d <;> rfl

/-- A number is read back, up to where it ends. -/
theorem readNumber?_chars (n : Numeral) {rest : List Char} (h : EndsNumber rest) :
    readNumber? (n.chars ++ rest) = some (n, rest) := by
  obtain ⟨negative, whole, fraction, exponent⟩ := n
  -- what is left after the whole part, and after the fraction
  generalize htail : markedChars exponent ++ rest = tail
  generalize hpart : fractionChars fraction ++ tail = part
  have hexponent : readExponent? tail = some (exponent, rest) := by
    rw [← htail]
    exact readExponent?_markedChars exponent h
  have htailDigit : StartsNoDigit tail := by
    rw [← htail]
    rcases exponent with _ | e
    · exact h.noDigit
    · exact startsNoDigit_cons (by decide) _
  have htailPoint : tail.head? ≠ some '.' := by
    rw [← htail]
    rcases exponent with _ | e
    · exact h.noPoint
    · intro heq
      cases heq
  have hfraction : readFraction? part = some (fraction, tail) := by
    rw [← hpart]
    exact readFraction?_fractionChars fraction htailDigit htailPoint
  have hwhole : readWhole? (natChars whole ++ part) = some (whole, part) := by
    apply readWhole?_natChars
    rw [← hpart]
    rcases fraction with _ | ⟨d, ds⟩
    · exact htailDigit
    · exact startsNoDigit_cons (by decide) _
  have hsign : spanMinus (Numeral.chars ⟨negative, whole, fraction, exponent⟩ ++ rest)
      = (negative, natChars whole ++ part) := by
    rw [chars_eq]
    simp only [List.append_assoc]
    rw [htail, hpart]
    rcases negative with _ | _
    · exact spanMinus_natChars whole part
    · rfl
  rw [readNumber?_eq, hsign]
  simp only [hwhole, hfraction, hexponent, Option.bind_some]

end Token

/-! ## Texts -/

namespace Quoted

open Text

/-- How a character is read back: as itself, or by its number if it is a control character without a
short escape. -/
def pieceOf (c : Char) : Piece :=
  if c.toNat < 32 ∧ c.toNat ≠ 8 ∧ c ≠ '\t' ∧ c ≠ '\n' ∧ c.toNat ≠ 12 ∧ c ≠ '\r' then
    .codeUnit c.toNat
  else .char c

theorem hexValue4?_control {n : Nat} (h : n < 32) :
    hexValue4? '0' '0' (hexDigit (n / 16)) (hexDigit (n % 16)) = some n := by
  have hhigh := hexValue?_hexDigit (n / 16) (by omega)
  have hlow := hexValue?_hexDigit (n % 16) (by omega)
  have hzero : hexValue? '0' = some 0 := by decide
  simp only [hexValue4?, hhigh, hlow, hzero, Option.bind_eq_bind, Option.bind_some]
  show some (((0 * 16 + 0) * 16 + n / 16) * 16 + n % 16) = some n
  congr 1
  omega

theorem pieces?_short {e c : Char} (he : e ≠ 'u') (hc : unescape? e = some c) (rest : List Char) :
    pieces? ('\\' :: e :: rest) = (pieces? rest).map fun r => (.char c :: r.1, r.2) := by
  rw [pieces?, hc]
  · cases pieces? rest <;> rfl
  · rintro a b c d rest' heq
    exact absurd heq he

theorem pieces?_control {n : Nat} (h : n < 32) (rest : List Char) :
    pieces? (['\\', 'u', '0', '0', hexDigit (n / 16), hexDigit (n % 16)] ++ rest)
      = (pieces? rest).map fun r => (.codeUnit n :: r.1, r.2) := by
  show pieces? ('\\' :: 'u' :: '0' :: '0' :: hexDigit (n / 16) :: hexDigit (n % 16) :: rest) = _
  rw [pieces?, hexValue4?_control h]
  cases pieces? rest <;> rfl

theorem pieces?_plain {c : Char} (hcontrol : ¬c.toNat < 32) (hquote : c ≠ '"')
    (hbackslash : c ≠ '\\') (rest : List Char) :
    pieces? (c :: rest) = (pieces? rest).map fun r => (.char c :: r.1, r.2) := by
  rw [pieces?]
  · rw [if_neg (by rintro (h | h); exacts [hcontrol h, hbackslash h])]
    cases pieces? rest <;> rfl
  · exact hquote
  · intro a b c' d rest' heq
    exact absurd heq hbackslash
  · intro e rest' heq
    exact absurd heq hbackslash

/-- What is escaped is read back, and then what follows it. -/
theorem pieces?_escape (c : Char) (rest : List Char) :
    pieces? (escape c ++ rest) = (pieces? rest).map fun r => (pieceOf c :: r.1, r.2) := by
  have hof : ∀ n, c.toNat = n → c = Char.ofNat n := by
    intro n hn
    rw [← hn, Char.ofNat_toNat]
  unfold escape
  by_cases hquote : c = '"'
  · subst hquote
    exact pieces?_short (by decide) rfl rest
  by_cases hbackslash : c = '\\'
  · subst hbackslash
    exact pieces?_short (by decide) rfl rest
  rw [if_neg hquote, if_neg hbackslash]
  by_cases hbackspace : c.toNat = 8
  · obtain rfl := hof 8 hbackspace
    exact pieces?_short (by decide) rfl rest
  by_cases htab : c = '\t'
  · subst htab
    exact pieces?_short (by decide) rfl rest
  by_cases hline : c = '\n'
  · subst hline
    exact pieces?_short (by decide) rfl rest
  rw [if_neg hbackspace, if_neg htab, if_neg hline]
  by_cases hfeed : c.toNat = 12
  · obtain rfl := hof 12 hfeed
    exact pieces?_short (by decide) rfl rest
  by_cases hreturn : c = '\r'
  · subst hreturn
    exact pieces?_short (by decide) rfl rest
  rw [if_neg hfeed, if_neg hreturn]
  by_cases hcontrol : c.toNat < 32
  · rw [if_pos hcontrol, pieceOf,
      if_pos ⟨hcontrol, hbackspace, htab, hline, hfeed, hreturn⟩]
    exact pieces?_control hcontrol rest
  · rw [if_neg hcontrol, pieceOf, if_neg (fun h => hcontrol h.1)]
    exact pieces?_plain hcontrol hquote hbackslash rest

theorem pieces?_flatMap_escape (s rest : List Char) :
    pieces? (s.flatMap escape ++ '"' :: rest) = some (s.map pieceOf, rest) := by
  induction s with
  | nil => rfl
  | cons c s ih =>
    rw [List.flatMap_cons, List.append_assoc, pieces?_escape, ih]
    rfl

/-- A control character is no half of a pair. -/
theorem assemble?_codeUnit {n : Nat} (h : n < 32) (ps : List Piece) :
    assemble? (.codeUnit n :: ps) = (assemble? ps).map (Char.ofNat n :: ·) := by
  have hhigh : isHigh n = false := by
    unfold isHigh
    rw [decide_eq_false (by omega), Bool.false_and]
  have hlow : isLow n = false := by
    unfold isLow
    rw [decide_eq_false (by omega), Bool.false_and]
  rcases ps with _ | ⟨c | m, ps⟩ <;> simp [assemble?, hhigh, hlow]

theorem assemble?_map_pieceOf (s : List Char) : assemble? (s.map pieceOf) = some s := by
  induction s with
  | nil => rfl
  | cons c s ih =>
    rw [List.map_cons, pieceOf]
    split
    · next hcontrol => rw [assemble?_codeUnit hcontrol.1, ih, Option.map_some, Char.ofNat_toNat]
    · rw [assemble?, ih, Option.map_some]

/-- A text is read back from its quotes, and what follows them is left. -/
theorem decode?_encode (s rest : List Char) :
    decode? (s.flatMap escape ++ '"' :: rest) = some (some s, rest) := by
  rw [decode?, pieces?_flatMap_escape, Option.map_some]
  dsimp only
  rw [assemble?_map_pieceOf]

end Quoted

/-! ## Tokens -/

namespace Token

/-- Whether the token is a number. -/
def isNumber : Token → Bool
  | .number _ => true
  | _ => false

/-- A number starts with a minus or a digit. -/
theorem exists_chars_number (n : Numeral) :
    ∃ c cs, n.chars = c :: cs ∧ (c = '-' ∨ ∃ d, c = Digit.char d) := by
  rw [chars_eq]
  rcases n.negative with _ | _
  · obtain ⟨d, ds, hds⟩ := List.exists_cons_of_ne_nil (digits_ne_nil n.whole)
    unfold natChars
    rw [hds]
    exact ⟨d.char, _, rfl, Or.inr ⟨d, rfl⟩⟩
  · exact ⟨'-', _, rfl, Or.inl rfl⟩

/-- A token starts with a character that is not blank; unless it is a number, the character does not
go on with a number before it. -/
theorem exists_chars (t : Token) (ht : t ≠ .broken) :
    ∃ c cs, t.chars = c :: cs ∧ isBlank c = false
      ∧ (t.isNumber = false → ∀ rest, EndsNumber (c :: rest)) := by
  have hmark : ∀ c, isBlank c = false → Digit.ofChar? c = none → c ≠ '.' → ¬(c = 'e' ∨ c = 'E') →
      isBlank c = false ∧ (t.isNumber = false → ∀ rest, EndsNumber (c :: rest)) := by
    intro c hblank hdigit hpoint hletter
    refine ⟨hblank, fun _ rest => ⟨startsNoDigit_cons hdigit rest, ?_, ?_⟩⟩
    · intro heq
      exact hpoint (Option.some.inj heq)
    · intro c' hc'
      cases hc'
      exact hletter
  cases t with
  | number n =>
    obtain ⟨c, cs, hcs, hc⟩ := exists_chars_number n
    refine ⟨c, cs, hcs, ?_, nofun⟩
    rcases hc with rfl | ⟨d, rfl⟩
    · rfl
    · have hdigits : ∀ d : Digit, isBlank d.char = false := by decide
      exact hdigits d
  | bool b =>
    rcases b with _ | _
    · exact ⟨'f', _, rfl, hmark 'f' rfl rfl (by decide) (by decide)⟩
    · exact ⟨'t', _, rfl, hmark 't' rfl rfl (by decide) (by decide)⟩
  | broken => exact absurd rfl ht
  | _ => exact ⟨_, _, rfl, hmark _ rfl rfl (by decide) (by decide)⟩

/-- What starts as a number is read as one. -/
theorem read?_number {c : Char} (h : c = '-' ∨ ∃ d, c = Digit.char d) (cs : List Char) :
    read? (c :: cs) = (readNumber? (c :: cs)).map fun r => (.number r.1, r.2) := by
  rcases h with rfl | ⟨⟨d, hd⟩, rfl⟩
  · rfl
  · interval_cases d <;> rfl

/-- A token is read back, and what follows it is left. -/
theorem read?_chars (t : Token) (ht : t ≠ .broken) {rest : List Char}
    (h : t.isNumber = true → EndsNumber rest) : read? (t.chars ++ rest) = some (t, rest) := by
  cases t with
  | number n =>
    obtain ⟨c, cs, hcs, hc⟩ := exists_chars_number n
    have hread := readNumber?_chars n (h rfl)
    show read? (n.chars ++ rest) = _
    rw [hcs, List.cons_append] at hread ⊢
    rw [read?_number hc, hread]
    rfl
  | bool b => rcases b with _ | _ <;> rfl
  | string s =>
    have hdecode := Quoted.decode?_encode s.toList rest
    have hchars : (Token.string s).chars ++ rest
        = '"' :: (s.toList.flatMap Quoted.escape ++ '"' :: rest) := by
      rw [chars, Quoted.encode, List.cons_append, List.append_assoc]
      rfl
    rw [hchars, read?, hdecode]
    dsimp only
    rw [String.ofList_toList]
  | broken => exact absurd rfl ht
  | _ => rfl

/-! ## Lists of tokens -/

/-- No number stands right behind a number. -/
def Apart (ts : List Token) : Prop :=
  ts.IsChain fun a b => a.isNumber = false ∨ b.isNumber = false

theorem endsNumber_chars {t : Token} {ts : List Token} (hbroken : ∀ t ∈ ts, t ≠ .broken)
    (h : Apart (t :: ts)) (ht : t.isNumber = true) : EndsNumber (ts.flatMap chars) := by
  rcases ts with _ | ⟨next, rest⟩
  · exact endsNumber_nil
  · have hnext : next.isNumber = false := by
      rcases (List.isChain_cons_cons.1 h).1 with hno | hno
      · rw [ht] at hno
        cases hno
      · exact hno
    obtain ⟨c, cs, hcs, -, hends⟩ := exists_chars next (hbroken next List.mem_cons_self)
    rw [List.flatMap_cons, hcs, List.cons_append]
    exact hends hnext _

theorem scanWithin_chars {ts : List Token} (hbroken : ∀ t ∈ ts, t ≠ .broken) (h : Apart ts)
    {fuel : Nat} (hfuel : (ts.flatMap chars).length < fuel) :
    scanWithin fuel (ts.flatMap chars) = some ts := by
  induction ts generalizing fuel with
  | nil =>
    obtain ⟨k, rfl⟩ : ∃ k, fuel = k + 1 := ⟨fuel - 1, by omega⟩
    rfl
  | cons t ts ih =>
    obtain ⟨k, rfl⟩ : ∃ k, fuel = k + 1 := ⟨fuel - 1, by omega⟩
    have hts : ∀ t ∈ ts, t ≠ .broken := fun t ht => hbroken t (List.mem_cons_of_mem _ ht)
    obtain ⟨c, cs, hcs, hblank, -⟩ := exists_chars t (hbroken t List.mem_cons_self)
    have hread := read?_chars t (hbroken t List.mem_cons_self) (endsNumber_chars hts h)
    rw [List.flatMap_cons, List.length_append, hcs, List.length_cons] at hfuel
    have hrest : scanWithin k (ts.flatMap chars) = some ts := ih hts h.of_cons (by omega)
    rw [List.flatMap_cons, hcs, List.cons_append] at *
    rw [scanWithin, hblank, if_neg Bool.false_ne_true, hread]
    dsimp only
    rw [hrest, Option.map_some]

/-- A list of tokens is scanned back from its characters. -/
theorem scan_chars {ts : List Token} (hbroken : ∀ t ∈ ts, t ≠ .broken) (h : Apart ts) :
    scan (ts.flatMap chars) = some ts :=
  scanWithin_chars hbroken h (Nat.lt_succ_self _)

end Token

end Chronicle.Json
