import Chronicle.Json.Fields
import Chronicle.Proofs.Json.Scanning

/-!
# Values are read back from their text

Reading goes down a value as writing does, and closes each array and object at its own bracket.
The number of steps that it may take is bounded by the number of tokens, and twice that number is
always enough.

* `apart_tokens` : no number is written right behind a number;
* `read?_tokens` : a value is read back from its tokens, and what follows them is left;
* `parse?_compact` : a value is read back from its text.
-/

namespace Chronicle.Json

open Token

/-! ## Tokens of a value -/

/-- A value has a first token, which closes nothing. -/
theorem exists_tokens (j : Json) : ∃ t ts, j.tokens = t :: ts ∧ t ≠ .rightBracket := by
  cases j <;> rw [tokens] <;> exact ⟨_, _, rfl, nofun⟩

/-- So do the items of an array that is not empty. -/
theorem head?_itemTokens {items : List Json} (h : items ≠ []) (us : List Token) :
    (itemTokens items ++ us).head? ≠ some .rightBracket := by
  rcases items with _ | ⟨j, _ | ⟨next, items⟩⟩
  · exact absurd rfl h
  all_goals
    obtain ⟨t, ts, hts, ht⟩ := exists_tokens j
    intro hhead
    rw [itemTokens, hts] at hhead
    exact ht (Option.some.inj hhead)

/-- The members of an object start with a key. -/
theorem head?_memberTokens {members : List (String × Json)} (h : members ≠ []) (us : List Token) :
    (memberTokens members ++ us).head? ≠ some .rightBrace := by
  rcases members with _ | ⟨⟨key, j⟩, _ | ⟨next, members⟩⟩
  · exact absurd rfl h
  all_goals
    intro hhead
    rw [memberTokens] at hhead
    cases hhead

/-- A mark keeps apart what stands before and behind it. -/
theorem apart_append {ts us : List Token} {t : Token} (hts : Apart ts) (ht : t.isNumber = false)
    (hus : Apart us) : Apart (ts ++ t :: us) := by
  refine List.isChain_append.2 ⟨hts, ?_, fun a _ b hb => ?_⟩
  · rcases us with _ | ⟨u, us⟩
    · exact List.isChain_singleton t
    · exact List.isChain_cons_cons.2 ⟨Or.inl ht, hus⟩
  · cases hb
    exact Or.inr ht

theorem apart_cons {ts : List Token} {t : Token} (ht : t.isNumber = false) (h : Apart ts) :
    Apart (t :: ts) := apart_append List.isChain_nil ht h

mutual

/-- No number is written right behind a number in a value. -/
theorem apart_tokens : ∀ j : Json, Apart j.tokens
  | .null | .bool _ | .number _ | .string _ | .unusable => by
    rw [tokens]
    exact List.isChain_singleton _
  | .array items => by
    rw [tokens]
    exact apart_cons rfl (apart_append (apart_itemTokens items) rfl List.isChain_nil)
  | .object members => by
    rw [tokens]
    exact apart_cons rfl (apart_append (apart_memberTokens members) rfl List.isChain_nil)

theorem apart_itemTokens : ∀ items : List Json, Apart (itemTokens items)
  | [] => List.isChain_nil
  | [j] => by
    rw [itemTokens]
    exact apart_tokens j
  | j :: next :: rest => by
    rw [itemTokens]
    exact apart_append (apart_tokens j) rfl (apart_itemTokens (next :: rest))

theorem apart_memberTokens : ∀ members : List (String × Json), Apart (memberTokens members)
  | [] => List.isChain_nil
  | [(k, j)] => by
    rw [memberTokens]
    exact apart_cons rfl (apart_cons rfl (apart_tokens j))
  | (k, j) :: next :: rest => by
    rw [memberTokens]
    exact apart_cons rfl (apart_cons rfl
      (apart_append (apart_tokens j) rfl (apart_memberTokens (next :: rest))))

end

/-! ## Reading -/

theorem read?_array {fuel : Nat} {ts : List Token} (h : ts.head? ≠ some .rightBracket) :
    read? (fuel + 1) (.leftBracket :: ts)
      = (readItems? fuel ts).map fun r => (.array r.1, r.2) := by
  rw [read?]
  · cases readItems? fuel ts <;> rfl
  · rintro rest rfl
    exact h rfl

theorem read?_object {fuel : Nat} {ts : List Token} (h : ts.head? ≠ some .rightBrace) :
    read? (fuel + 1) (.leftBrace :: ts)
      = (readMembers? fuel ts).map fun r => (ofMembers r.1, r.2) := by
  rw [read?]
  · cases readMembers? fuel ts <;> rfl
  · rintro rest rfl
    exact h rfl

mutual

/-- A value is read back from its tokens, and what follows them is left. -/
theorem read?_tokens : ∀ (j : Json) (rest : List Token) {fuel : Nat}, .broken ∉ j.tokens →
    2 * j.tokens.length ≤ fuel → read? fuel (j.tokens ++ rest) = some (j, rest)
  | .null, rest, fuel, _, hfuel | .bool _, rest, fuel, _, hfuel
  | .number _, rest, fuel, _, hfuel | .string _, rest, fuel, _, hfuel => by
    rw [tokens, List.length_singleton] at hfuel
    obtain ⟨k, rfl⟩ : ∃ k, fuel = k + 1 := ⟨fuel - 1, by omega⟩
    rfl
  | .unusable, _, _, hbroken, _ => by
    rw [tokens] at hbroken
    exact absurd List.mem_cons_self hbroken
  | .array items, rest, fuel, hbroken, hfuel => by
    rw [tokens] at hbroken hfuel
    rw [List.length_cons, List.length_append, List.length_singleton] at hfuel
    obtain ⟨k, rfl⟩ : ∃ k, fuel = k + 1 := ⟨fuel - 1, by omega⟩
    by_cases hempty : items = []
    · subst hempty
      rfl
    have hitems : .broken ∉ itemTokens items := fun hmem =>
      hbroken (List.mem_cons_of_mem _ (List.mem_append_left _ hmem))
    rw [tokens, List.cons_append, List.append_assoc, read?_array (head?_itemTokens hempty _),
      List.singleton_append, readItems?_itemTokens items rest hempty hitems (by omega)]
    rfl
  | .object members, rest, fuel, hbroken, hfuel => by
    rw [tokens] at hbroken hfuel
    rw [List.length_cons, List.length_append, List.length_singleton] at hfuel
    obtain ⟨k, rfl⟩ : ∃ k, fuel = k + 1 := ⟨fuel - 1, by omega⟩
    by_cases hempty : members = []
    · subst hempty
      rfl
    have hmembers : .broken ∉ memberTokens members := fun hmem =>
      hbroken (List.mem_cons_of_mem _ (List.mem_append_left _ hmem))
    rw [tokens, List.cons_append, List.append_assoc, read?_object (head?_memberTokens hempty _),
      List.singleton_append, readMembers?_memberTokens members rest hempty hmembers (by omega)]
    rfl

theorem readItems?_itemTokens : ∀ (items : List Json) (rest : List Token) {fuel : Nat},
    items ≠ [] → .broken ∉ itemTokens items → 2 * (itemTokens items).length + 1 ≤ fuel →
    readItems? fuel (itemTokens items ++ .rightBracket :: rest) = some (items, rest)
  | [], _, _, hempty, _, _ => absurd rfl hempty
  | [j], rest, fuel, _, hbroken, hfuel => by
    rw [itemTokens] at hbroken hfuel ⊢
    obtain ⟨k, rfl⟩ : ∃ k, fuel = k + 1 := ⟨fuel - 1, by omega⟩
    rw [readItems?, read?_tokens j (.rightBracket :: rest) hbroken (by omega)]
  | j :: next :: items, rest, fuel, _, hbroken, hfuel => by
    rw [itemTokens] at hbroken hfuel ⊢
    rw [List.length_append, List.length_cons] at hfuel
    obtain ⟨k, rfl⟩ : ∃ k, fuel = k + 1 := ⟨fuel - 1, by omega⟩
    have hj : .broken ∉ j.tokens := fun hmem => hbroken (List.mem_append_left _ hmem)
    have hitems : .broken ∉ itemTokens (next :: items) := fun hmem =>
      hbroken (List.mem_append_right _ (List.mem_cons_of_mem _ hmem))
    rw [List.append_assoc, List.cons_append, readItems?, read?_tokens j _ hj (by omega)]
    dsimp only
    rw [readItems?_itemTokens (next :: items) rest (List.cons_ne_nil _ _) hitems (by omega)]

theorem readMembers?_memberTokens : ∀ (members : List (String × Json)) (rest : List Token)
    {fuel : Nat}, members ≠ [] → .broken ∉ memberTokens members →
    2 * (memberTokens members).length + 1 ≤ fuel →
    readMembers? fuel (memberTokens members ++ .rightBrace :: rest) = some (some members, rest)
  | [], _, _, hempty, _, _ => absurd rfl hempty
  | [(key, j)], rest, fuel, _, hbroken, hfuel => by
    rw [memberTokens] at hbroken hfuel ⊢
    rw [List.length_cons, List.length_cons] at hfuel
    obtain ⟨k, rfl⟩ : ∃ k, fuel = k + 1 := ⟨fuel - 1, by omega⟩
    have hj : .broken ∉ j.tokens := fun hmem =>
      hbroken (List.mem_cons_of_mem _ (List.mem_cons_of_mem _ hmem))
    rw [List.cons_append, List.cons_append, readMembers?]
    rw [read?_tokens j (.rightBrace :: rest) hj (by omega)]
    rfl
  | (key, j) :: next :: members, rest, fuel, _, hbroken, hfuel => by
    rw [memberTokens] at hbroken hfuel ⊢
    rw [List.length_cons, List.length_cons, List.length_append, List.length_cons] at hfuel
    obtain ⟨k, rfl⟩ : ∃ k, fuel = k + 1 := ⟨fuel - 1, by omega⟩
    have hj : .broken ∉ j.tokens := fun hmem =>
      hbroken (List.mem_cons_of_mem _ (List.mem_cons_of_mem _ (List.mem_append_left _ hmem)))
    have hmembers : .broken ∉ memberTokens (next :: members) := fun hmem =>
      hbroken (List.mem_cons_of_mem _ (List.mem_cons_of_mem _
        (List.mem_append_right _ (List.mem_cons_of_mem _ hmem))))
    rw [List.cons_append, List.cons_append, List.append_assoc, List.cons_append, readMembers?]
    rw [read?_tokens j _ hj (by omega)]
    dsimp only
    rw [readMembers?_memberTokens (next :: members) rest (List.cons_ne_nil _ _) hmembers
      (by omega)]
    rfl

end

/-- A value that means something is read back from its text. -/
theorem parse?_compact {j : Json} (h : .broken ∉ j.tokens) : parse? j.compact = some j := by
  have hscan : Token.scan (j.tokens.flatMap Token.chars) = some j.tokens := by
    refine Token.scan_chars (fun t ht heq => ?_) (apart_tokens j)
    rw [heq] at ht
    exact h ht
  have hread : read? (2 * j.tokens.length + 2) (j.tokens ++ []) = some (j, []) :=
    read?_tokens j [] h (by omega)
  rw [List.append_nil] at hread
  rw [parse?, compact, String.toList_ofList, hscan, Option.bind_some, ofTokens?, hread]

/-! ## Sound values -/

mutual

/-- Everything in a sound value means something. -/
theorem broken_notMem_tokens : ∀ (j : Json) {depth : Nat}, isSound depth j = true →
    .broken ∉ j.tokens
  | .null, _, _ | .bool _, _, _ | .number _, _, _ | .string _, _, _ => by
    rw [tokens]
    simp
  | .unusable, _, h => by
    rw [isSound] at h
    cases h
  | .array items, depth, h => by
    rw [isSound, Bool.and_eq_true] at h
    have hitems := broken_notMem_itemTokens items h.2
    rw [tokens]
    simp [hitems]
  | .object members, depth, h => by
    rw [isSound, Bool.and_eq_true] at h
    have hmembers := broken_notMem_memberTokens members h.2
    rw [tokens]
    simp [hmembers]

theorem broken_notMem_itemTokens : ∀ (items : List Json) {depth : Nat},
    areSound depth items = true → .broken ∉ itemTokens items
  | [], _, _ => by
    rw [itemTokens]
    exact List.not_mem_nil
  | [j], depth, h => by
    rw [areSound, Bool.and_eq_true] at h
    rw [itemTokens]
    exact broken_notMem_tokens j h.1
  | j :: next :: items, depth, h => by
    rw [areSound, Bool.and_eq_true] at h
    have hj := broken_notMem_tokens j h.1
    have hitems := broken_notMem_itemTokens (next :: items) h.2
    rw [itemTokens]
    simp [hj, hitems]

theorem broken_notMem_memberTokens : ∀ (members : List (String × Json)) {depth : Nat},
    areSoundMembers depth members = true → .broken ∉ memberTokens members
  | [], _, _ => by
    rw [memberTokens]
    exact List.not_mem_nil
  | [(k, j)], depth, h => by
    rw [areSoundMembers, Bool.and_eq_true] at h
    have hj := broken_notMem_tokens j h.1
    rw [memberTokens]
    simp [hj]
  | (k, j) :: next :: members, depth, h => by
    rw [areSoundMembers, Bool.and_eq_true] at h
    have hj := broken_notMem_tokens j h.1
    have hmembers := broken_notMem_memberTokens (next :: members) h.2
    rw [memberTokens]
    simp [hj, hmembers]

end

/-- **A sound value is read back from its text.** -/
theorem parse?_compact_of_isSound {j : Json} {depth : Nat} (h : isSound depth j = true) :
    parse? j.compact = some j := parse?_compact (broken_notMem_tokens j h)

end Chronicle.Json
