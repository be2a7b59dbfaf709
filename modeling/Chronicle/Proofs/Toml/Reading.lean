import Mathlib.Tactic.IntervalCases
import Chronicle.Toml
import Chronicle.Decimal.Numeral

/-!
# Entries are read back from their lines

What is written as a string or as an integer is read back, up to the end of its line.  Lines of one
entry each, under bare keys, are read as these entries in their order, however their values are
spelled.

* `Quoted.read?_encode` : a string, whatever has to be escaped in it;
* `integer?_chars` : an integer of either sign;
* `Writes` : characters that spell a value at the end of a line, `writes_encode`, `writes_integer`;
* `parse?_entryLines` : a document of lines.
-/

namespace Chronicle

universe u

/-- An integer is written as a sign, if it is negative, and the number without it. -/
theorem Decimal.Numeral.chars_ofInt (i : Int) :
    (ofInt i).chars = (if i < 0 then ['-'] else []) ++ natChars i.natAbs := by
  simp [chars, ofInt]

namespace Toml

open Text Decimal

/-! ## Strings -/

namespace Quoted

/-- A control character is read back from its two hexadecimal digits. -/
theorem escaped?_control {n : Nat} (h : n < 128) (rest : List Char) :
    escaped? ('u' :: '0' :: '0' :: upperHexDigit (n / 16) :: upperHexDigit (n % 16) :: rest)
      = some (Char.ofNat n, rest) := by
  have hhigh := hexValue?_upperHexDigit (n / 16) (by omega)
  have hlow := hexValue?_upperHexDigit (n % 16) (by omega)
  have hzero : hexValue? '0' = some 0 := by decide
  have hdigits : hexDigits? 4 0
      ('0' :: '0' :: upperHexDigit (n / 16) :: upperHexDigit (n % 16) :: rest) = some (n, rest) := by
    simp only [hexDigits?, hzero, hhigh, hlow]
    congr 2
    omega
  have hscalar : isScalar n = true := by
    rw [isScalar, decide_eq_true (by omega : n < 0xD800), Bool.true_or]
  rw [escaped?, scalar?, hdigits]
  dsimp only
  rw [if_pos hscalar]

theorem basic?_escaped {cs rest : List Char} {c : Char} (h : escaped? cs = some (c, rest))
    (fuel : Nat) :
    basic? (fuel + 1) ('\\' :: cs) = (basic? fuel rest).map fun r => (c :: r.1, r.2) := by
  rw [basic?, if_neg (by decide), if_pos rfl, h]

theorem basic?_plain {c : Char} (hquote : c ≠ '"') (hbackslash : c ≠ '\\')
    (hplain : isPlain c = true) (fuel : Nat) (rest : List Char) :
    basic? (fuel + 1) (c :: rest) = (basic? fuel rest).map fun r => (c :: r.1, r.2) := by
  rw [basic?, if_neg hquote, if_neg hbackslash, if_pos hplain]

/-- What is escaped is read back, and then what follows it. -/
theorem basic?_escape (fuel : Nat) (c : Char) (rest : List Char) :
    basic? (fuel + 1) (escape c ++ rest) = (basic? fuel rest).map fun r => (c :: r.1, r.2) := by
  have hof : ∀ n, c.toNat = n → c = Char.ofNat n := by
    intro n hn
    rw [← hn, Char.ofNat_toNat]
  unfold escape
  by_cases hquote : c = '"'
  · subst hquote
    exact basic?_escaped rfl fuel
  by_cases hbackslash : c = '\\'
  · subst hbackslash
    exact basic?_escaped rfl fuel
  rw [if_neg hquote, if_neg hbackslash]
  by_cases hbackspace : c.toNat = 8
  · obtain rfl := hof 8 hbackspace
    exact basic?_escaped rfl fuel
  by_cases htab : c = '\t'
  · subst htab
    exact basic?_escaped rfl fuel
  by_cases hline : c = '\n'
  · subst hline
    exact basic?_escaped rfl fuel
  rw [if_neg hbackspace, if_neg htab, if_neg hline]
  by_cases hfeed : c.toNat = 12
  · obtain rfl := hof 12 hfeed
    exact basic?_escaped rfl fuel
  by_cases hreturn : c = '\r'
  · subst hreturn
    exact basic?_escaped rfl fuel
  rw [if_neg hfeed, if_neg hreturn]
  by_cases hcontrol : c.toNat < 32 ∨ c.toNat = 127
  · rw [if_pos hcontrol]
    have hread := escaped?_control (n := c.toNat) (by omega) rest
    rw [Char.ofNat_toNat] at hread
    exact basic?_escaped hread fuel
  · rw [if_neg hcontrol]
    refine basic?_plain hquote hbackslash ?_ fuel rest
    rw [isPlain, Bool.or_eq_true, Bool.and_eq_true, decide_eq_true_iff, decide_eq_true_iff,
      decide_eq_true_iff]
    omega

/-- A string is read back from what stands between its quotes. -/
theorem basic?_flatMap_escape (s rest : List Char) {fuel : Nat} (h : s.length < fuel) :
    basic? fuel (s.flatMap escape ++ '"' :: rest) = some (s, rest) := by
  obtain ⟨fuel, rfl⟩ : ∃ k, fuel = k + 1 := ⟨fuel - 1, by omega⟩
  induction s generalizing fuel with
  | nil => rfl
  | cons c s ih =>
    rw [List.length_cons] at h
    obtain ⟨fuel, rfl⟩ : ∃ k, fuel = k + 1 := ⟨fuel - 1, by omega⟩
    rw [List.flatMap_cons, List.append_assoc, basic?_escape, ih fuel (by omega)]
    rfl

/-- No character is written with a quote first, since the quote itself is escaped. -/
theorem exists_escape (c : Char) : ∃ d ds, escape c = d :: ds ∧ d ≠ '"' := by
  have hescaped : ∀ cs : List Char, ∃ d ds, '\\' :: cs = d :: ds ∧ d ≠ '"' :=
    fun cs => ⟨'\\', cs, rfl, by decide⟩
  unfold escape
  split
  · exact hescaped _
  · next hquote =>
    split_ifs
    any_goals exact hescaped _
    exact ⟨c, [], rfl, hquote⟩

theorem length_le_flatMap_escape (s : List Char) : s.length ≤ (s.flatMap escape).length := by
  induction s with
  | nil => exact Nat.le_refl 0
  | cons c s ih =>
    obtain ⟨d, ds, hds, -⟩ := exists_escape c
    rw [List.flatMap_cons, hds, List.length_cons, List.length_append, List.length_cons]
    omega

/-- Unless two more quotes follow the first, a string on one line starts. -/
theorem read?_basic {cs : List Char} (h : ∀ rest, cs ≠ '"' :: '"' :: rest) :
    read? ('"' :: cs) = basic? (cs.length + 1) cs := by
  rw [read?]
  intro rest heq
  exact h rest heq

/-- A string is read back from its quoted form, which no further quote may follow. -/
theorem read?_encode (s : List Char) {rest : List Char} (h : rest.head? ≠ some '"') :
    read? (encode s ++ rest) = some (s, rest) := by
  have htext : encode s ++ rest = '"' :: (s.flatMap escape ++ '"' :: rest) := by
    rw [encode, List.cons_append, List.append_assoc]
    rfl
  have hopen : ∀ tail, s.flatMap escape ++ '"' :: rest ≠ '"' :: '"' :: tail := by
    intro tail heq
    rcases s with _ | ⟨c, s⟩
    · rw [List.flatMap_nil, List.nil_append, List.cons.injEq] at heq
      rw [heq.2] at h
      exact h rfl
    · obtain ⟨d, ds, hds, hd⟩ := exists_escape c
      rw [List.flatMap_cons, hds, List.cons_append, List.cons_append, List.cons.injEq] at heq
      exact hd heq.1
  have hlength := length_le_flatMap_escape s
  rw [htext, read?_basic hopen, basic?_flatMap_escape]
  rw [List.length_append]
  omega

end Quoted

/-! ## Integers -/

theorem digitIn?_char : ∀ d : Digit, digitIn? 10 d.char = some d.val := by decide

/-- Digits are read up to the end of the line. -/
theorem digitsFrom?_chars (n : Nat) (ds : List Digit) (rest : List Char) :
    digitsFrom? 10 n (ds.map Digit.char ++ '\n' :: rest) = some (extendBy n ds, '\n' :: rest) := by
  induction ds generalizing n with
  | nil => rfl
  | cons d ds ih =>
    have hread := digitIn?_char d
    have hdigit : d.char ≠ '_' := by
      intro heq
      rw [heq] at hread
      cases hread
    rw [List.map_cons, List.cons_append, digitsFrom?, hread]
    · exact ih (10 * n + d.val)
    · intro c rest' heq
      exact absurd heq hdigit
    · intro heq
      exact absurd heq hdigit

/-- A number that is not zero is written without a zero in front. -/
theorem decimal?_natChars (n : Nat) (rest : List Char) :
    decimal? (natChars n ++ '\n' :: rest) = some (n, '\n' :: rest) := by
  by_cases hn : n = 0
  · subst hn
    rfl
  obtain ⟨d, ds, hds⟩ := List.exists_cons_of_ne_nil (digits_ne_nil n)
  have hhead := head?_digits hn
  have hback := ofDigits_digits n
  rw [hds] at hhead hback
  have hzero : d.char ≠ '0' := by
    intro heq
    have hd := Digit.ofChar?_char d
    rw [heq] at hd
    exact hhead hd.symm
  rw [natChars, hds, List.map_cons, List.cons_append, decimal?]
  · rw [natural?, digitIn?_char]
    show digitsFrom? 10 d.val _ = _
    rw [digitsFrom?_chars, ← hback, ofDigits, extendBy, extendBy, List.foldl_cons, Nat.mul_zero,
      Nat.zero_add]
  · intro rest' heq
    exact hzero (List.cons.inj heq).1

/-- A decimal number at the end of a line is read as an integer. -/
theorem integer?_of_decimal? {cs rest : List Char} {n : Nat} {i : Int64}
    (h : decimal? cs = some (n, '\n' :: rest)) (hi : i.toInt = n) :
    integer? cs = some (i, '\n' :: rest) := by
  have hword : Word.int64? n = some i := Word.int64?_eq_some_iff.2 hi
  unfold integer?
  split
  · cases h
  · cases h
  · cases h
  · cases h
  · cases h
  · rw [h]
    show (Word.int64? n).bind _ = _
    rw [hword]
    rfl

/-- An integer is read back from its numeral, up to the end of the line. -/
theorem integer?_chars (i : Int64) (rest : List Char) :
    integer? ((Numeral.ofInt i.toInt).chars ++ '\n' :: rest) = some (i, '\n' :: rest) := by
  have hread := decimal?_natChars i.toInt.natAbs rest
  rw [Numeral.chars_ofInt]
  by_cases hneg : i.toInt < 0
  · have hword : Word.int64? (-(i.toInt.natAbs : Int)) = some i :=
      Word.int64?_eq_some_iff.2 (by omega)
    rw [if_pos hneg]
    show integer? ('-' :: (natChars i.toInt.natAbs ++ '\n' :: rest)) = _
    rw [integer?, hread]
    show (Word.int64? (-(i.toInt.natAbs : Int))).bind _ = _
    rw [hword]
    rfl
  · rw [if_neg hneg]
    exact integer?_of_decimal? hread (by omega)

/-! ## Values at the end of a line -/

/-- At the end of a line the characters are read as the value; blanks may come before it. -/
def Writes (text : List Char) (v : Value) : Prop :=
  ∀ (fuel : Nat) (rest : List Char),
    value? (fuel + 1) (dropBlanks (text ++ '\n' :: rest)) = some (v, '\n' :: rest)

/-- What is no blank is not dropped. -/
theorem dropBlanks_cons {c : Char} (hspace : c ≠ ' ') (htab : c ≠ '\t') (cs : List Char) :
    dropBlanks (c :: cs) = c :: cs := by
  simp [dropBlanks, hspace, htab]

/-- A value that opens no bracket and no quote is an integer. -/
theorem value?_integer {c : Char} (hbracket : c ≠ '[') (hbrace : c ≠ '{') (hquote : c ≠ '"')
    (hliteral : c ≠ '\'') (fuel : Nat) (cs : List Char) :
    value? (fuel + 1) (c :: cs)
      = (integer? (c :: cs)).map fun r => (.integer r.1, r.2) := by
  rw [value?]
  · simp [hquote, hliteral]
  · exact hbracket
  · exact hbrace

theorem value?_string (fuel : Nat) (cs : List Char) :
    value? (fuel + 1) ('"' :: cs)
      = (Quoted.read? ('"' :: cs)).map fun r => (.string (String.ofList r.1), r.2) := by
  rw [value?]
  · rfl
  · decide
  · decide

theorem writes_encode (s : String) : Writes (Quoted.encode s.toList) (.string s) := by
  intro fuel rest
  have hread : Quoted.read? (Quoted.encode s.toList ++ '\n' :: rest)
      = some (s.toList, '\n' :: rest) := by
    refine Quoted.read?_encode s.toList ?_
    intro heq
    cases heq
  rw [Quoted.encode, List.cons_append] at hread ⊢
  rw [dropBlanks_cons (by decide) (by decide), value?_string, hread, Option.map_some,
    String.ofList_toList]

theorem writes_integer (i : Int64) : Writes (Numeral.ofInt i.toInt).chars (.integer i) := by
  intro fuel rest
  have hread := integer?_chars i rest
  obtain ⟨c, cs, hcs⟩ : ∃ c cs, (Numeral.ofInt i.toInt).chars ++ '\n' :: rest = c :: cs :=
    List.exists_cons_of_ne_nil (by simp)
  rw [hcs] at hread ⊢
  -- what is read as an integer does not start like anything else
  have hfirst : ∀ d, integer? (d :: cs) = none → c ≠ d := by
    rintro d hd rfl
    rw [hd] at hread
    cases hread
  rw [dropBlanks_cons (hfirst ' ' rfl) (hfirst '\t' rfl),
    value?_integer (hfirst '[' rfl) (hfirst '{' rfl) (hfirst '"' rfl) (hfirst '\'' rfl), hread,
    Option.map_some]

/-! ## Lines -/

/-- A key that can be written without quotes. -/
structure IsBareKey (key : String) : Prop where
  nonempty : key.toList ≠ []
  bare : ∀ c ∈ key.toList, isBare c = true

/-- What no bare key contains. -/
theorem ne_of_isBare {c d : Char} (hc : isBare c = true) (hd : isBare d = false) : c ≠ d := by
  rintro rfl
  rw [hc] at hd
  cases hd

/-- A bare key ends where a character comes that it cannot contain. -/
theorem key?_bare {key : String} (h : IsBareKey key) {c : Char} (hc : isBare c = false)
    (rest : List Char) : key? (key.toList ++ c :: rest) = some (key, c :: rest) := by
  have htake : (key.toList ++ c :: rest).takeWhile isBare = key.toList := by
    rw [List.takeWhile_append_of_pos h.bare, List.takeWhile_cons_of_neg (by simp [hc]),
      List.append_nil]
  have hdrop : (key.toList ++ c :: rest).dropWhile isBare = c :: rest := by
    rw [List.dropWhile_append_of_pos h.bare, List.dropWhile_cons_of_neg (by simp [hc])]
  obtain ⟨k, ks, hks⟩ := List.exists_cons_of_ne_nil h.nonempty
  have hk : isBare k = true := h.bare k (by simp [hks])
  rw [hks, List.cons_append] at htake hdrop
  rw [hks, List.cons_append, key?, htake, hdrop]
  · dsimp only
    rw [← hks, String.ofList_toList]
  · rintro rest' heq
    exact ne_of_isBare hk (by decide) (List.cons.inj heq).1
  · rintro rest' heq
    exact ne_of_isBare hk (by decide) (List.cons.inj heq).1

/-- A line gives its value to its key. -/
theorem keyValue?_entryLine {key : String} (h : IsBareKey key) {text : List Char} {v : Value}
    (hv : Writes text v) (fuel : Nat) (rest : List Char) :
    keyValue? (fuel + 2) (entryLine key text ++ rest) = some (([key], v), '\n' :: rest) := by
  have hline : entryLine key text ++ rest
      = key.toList ++ ' ' :: ('=' :: ' ' :: (text ++ '\n' :: rest)) := by
    simp [entryLine]
  have hkey := key?_bare h (by decide : isBare ' ' = false) ('=' :: ' ' :: (text ++ '\n' :: rest))
  have hvalue : value? (fuel + 1) (dropBlanks (' ' :: (text ++ '\n' :: rest)))
      = some (v, '\n' :: rest) := hv fuel rest
  rw [hline, keyValue?, path?, hkey]
  show ((value? (fuel + 1) (dropBlanks (' ' :: (text ++ '\n' :: rest)))).map _) = _
  rw [hvalue]
  rfl

/-- Neither the line nor a comment on it ends or begins before a character of a key. -/
theorem endLine?_of_isBare {c : Char} (hc : isBare c = true) (cs : List Char) :
    endLine? (c :: cs) = none := by
  have hdrop : dropComment (dropBlanks (c :: cs)) = c :: cs := by
    rw [dropBlanks_cons (ne_of_isBare hc (by decide)) (ne_of_isBare hc (by decide)), dropComment]
    rintro rest heq
    exact ne_of_isBare hc (by decide) (List.cons.inj heq).1
  have hline : Quoted.newLine? (c :: cs) = none := by
    unfold Quoted.newLine?
    split
    · next heq => exact absurd (List.cons.inj heq).1 (ne_of_isBare hc (by decide))
    · next heq => exact absurd (List.cons.inj heq).1 (ne_of_isBare hc (by decide))
    · rfl
  rw [endLine?, hdrop]
  exact hline

/-- A line starts with a key, so it is neither blank nor a comment nor a header. -/
theorem statements?_entryLine {key : String} (h : IsBareKey key) {text : List Char} {v : Value}
    (hv : Writes text v) (fuel : Nat) (rest : List Char) :
    statements? (fuel + 1) (entryLine key text ++ rest)
      = (statements? fuel rest).map (.entry [key] v :: ·) := by
  obtain ⟨k, ks, hks⟩ := List.exists_cons_of_ne_nil h.nonempty
  have hk : isBare k = true := h.bare k (by simp [hks])
  have hread := keyValue?_entryLine h hv (entryLine key text ++ rest).length rest
  obtain ⟨cs, hcs⟩ : ∃ cs, entryLine key text ++ rest = k :: cs := by
    rw [entryLine, hks]
    exact ⟨_, rfl⟩
  rw [hcs] at hread ⊢
  have hdrop : dropBlanks (k :: cs) = k :: cs :=
    dropBlanks_cons (ne_of_isBare hk (by decide)) (ne_of_isBare hk (by decide)) cs
  have hstatement : statement? (k :: cs) = some (.entry [key] v, '\n' :: rest) := by
    rw [statement?, hread]
    · rfl
    · rintro rest' heq
      exact ne_of_isBare hk (by decide) (List.cons.inj heq).1
  rw [statements?, hdrop]
  dsimp only
  rw [endLine?_of_isBare hk, hstatement]
  rfl

/-- Lines of one entry each are read as these entries, in their order. -/
theorem statements?_entryLines {ι : Type u} {key : ι → String} {text : ι → List Char}
    {value : ι → Value} {items : List ι} (hkey : ∀ i ∈ items, IsBareKey (key i))
    (hvalue : ∀ i ∈ items, Writes (text i) (value i)) {fuel : Nat}
    (hfuel : (items.flatMap fun i => entryLine (key i) (text i)).length < fuel) :
    statements? fuel (items.flatMap fun i => entryLine (key i) (text i))
      = some (items.map fun i => .entry [key i] (value i)) := by
  induction items generalizing fuel with
  | nil =>
    obtain ⟨fuel, rfl⟩ : ∃ k, fuel = k + 1 := ⟨fuel - 1, by omega⟩
    rfl
  | cons i items ih =>
    obtain ⟨fuel, rfl⟩ : ∃ k, fuel = k + 1 := ⟨fuel - 1, by omega⟩
    have hline : 0 < (entryLine (key i) (text i)).length := by
      rw [entryLine, List.length_append, List.length_singleton]
      omega
    rw [List.flatMap_cons, List.length_append] at hfuel
    rw [List.flatMap_cons,
      statements?_entryLine (hkey i List.mem_cons_self) (hvalue i List.mem_cons_self),
      ih (fun j hj => hkey j (List.mem_cons_of_mem i hj))
        (fun j hj => hvalue j (List.mem_cons_of_mem i hj)) (by omega)]
    rfl

/-- A document of lines has one entry for each, in their order. -/
theorem parse?_entryLines {ι : Type u} {key : ι → String} {text : ι → List Char}
    {value : ι → Value} {items : List ι} (hkey : ∀ i ∈ items, IsBareKey (key i))
    (hvalue : ∀ i ∈ items, Writes (text i) (value i)) :
    parse? (String.ofList (items.flatMap fun i => entryLine (key i) (text i)))
      = some (items.map fun i => .entry [key i] (value i)) := by
  have hread := statements?_entryLines hkey hvalue
    (Nat.lt_add_of_pos_right (k := 2) (by omega))
  rw [parse?, String.toList_ofList]
  -- a key does not start with a byte order mark
  split
  · next rest heq =>
    exfalso
    rcases items with _ | ⟨i, items⟩
    · cases heq
    · have hi := hkey i List.mem_cons_self
      obtain ⟨k, ks, hks⟩ := List.exists_cons_of_ne_nil hi.nonempty
      rw [List.flatMap_cons, entryLine, hks] at heq
      exact ne_of_isBare (hi.bare k (by simp [hks])) (by decide) (List.cons.inj heq).1
  · exact hread

end Toml

end Chronicle
