import Mathlib.Data.List.Induction

/-!
# Items where they stand

An occurrence is an item of a list together with what stands before it and what stands after it.
What a record means for a read often depends on its neighbours: a value stands until the next one,
a deletion until the property comes back.  Such rules are stated over the occurrences of the
records, and proved by adding records at the end, as a log grows.

* `occurrences_append` : how the occurrences change when a list goes on;
* `occurrences_filter` : what is left of them when items are dropped;
* `lastOccurrence?_eq_some_iff` : the last occurrence of a kind is the one with none behind it;
* `part_foldl` : what a scan that remembers the last thing set has found in the end.
-/

namespace Chronicle

universe u v w

/-- An item of a list between its neighbours. -/
structure Occurrence (α : Type u) where
  before : List α
  item : α
  after : List α

namespace Occurrence

variable {α : Type u}

/-- The list in which the item stands. -/
def list (o : Occurrence α) : List α := o.before ++ o.item :: o.after

/-- The occurrence in a list that goes on. -/
def extend (o : Occurrence α) (l : List α) : Occurrence α := { o with after := o.after ++ l }

/-- The occurrence among those neighbours that satisfy `p`. -/
def filter (o : Occurrence α) (p : α → Bool) : Occurrence α :=
  ⟨o.before.filter p, o.item, o.after.filter p⟩

theorem extend_extend (o : Occurrence α) (l m : List α) :
    (o.extend l).extend m = o.extend (l ++ m) := by
  simp [extend]

end Occurrence

variable {α : Type u}

/-- The occurrences of a list that stands behind `before`. -/
def occurrencesFrom (before : List α) : List α → List (Occurrence α)
  | [] => []
  | x :: rest => ⟨before, x, rest⟩ :: occurrencesFrom (before ++ [x]) rest

/-- The occurrences of a list, from left to right. -/
def occurrences (l : List α) : List (Occurrence α) := occurrencesFrom [] l

/-- The last occurrence of an item that satisfies `p`. -/
def lastOccurrence? (p : α → Bool) (l : List α) : Option (Occurrence α) :=
  (occurrences l).reverse.find? fun o => p o.item

/-! ## All occurrences -/

@[simp] theorem occurrences_nil : occurrences ([] : List α) = [] := rfl

theorem map_item_occurrencesFrom (before l : List α) :
    (occurrencesFrom before l).map Occurrence.item = l := by
  induction l generalizing before with
  | nil => rfl
  | cons x rest ih => rw [occurrencesFrom, List.map_cons, ih]

/-- The occurrences are those of the items, each once and in order. -/
theorem map_item_occurrences (l : List α) : (occurrences l).map Occurrence.item = l :=
  map_item_occurrencesFrom [] l

theorem list_of_mem_occurrencesFrom {before l : List α} {o : Occurrence α}
    (h : o ∈ occurrencesFrom before l) : o.list = before ++ l := by
  induction l generalizing before with
  | nil => simp [occurrencesFrom] at h
  | cons x rest ih =>
    rw [occurrencesFrom, List.mem_cons] at h
    rcases h with rfl | h
    · rfl
    · rw [ih h, List.append_assoc, List.singleton_append]

/-- Each occurrence of a list has its neighbours in that list. -/
theorem list_of_mem_occurrences {l : List α} {o : Occurrence α} (h : o ∈ occurrences l) :
    o.list = l :=
  list_of_mem_occurrencesFrom h

/-- A list begins with what stands before an occurrence and the item itself. -/
theorem isPrefix_of_mem_occurrences {l : List α} {o : Occurrence α} (h : o ∈ occurrences l) :
    o.before ++ [o.item] <+: l :=
  ⟨o.after, by rw [← list_of_mem_occurrences h, Occurrence.list]; simp⟩

/-- Of two occurrences of a list the one stands before the other, unless they are the same. -/
theorem eq_or_before_of_mem_occurrences {l : List α} {o o' : Occurrence α}
    (ho : o ∈ occurrences l) (ho' : o' ∈ occurrences l) :
    o = o' ∨ o.before ++ [o.item] <+: o'.before ∨ o'.before ++ [o'.item] <+: o.before := by
  have hlists := (list_of_mem_occurrences ho).trans (list_of_mem_occurrences ho').symm
  obtain ⟨before, item, after⟩ := o
  obtain ⟨before', item', after'⟩ := o'
  rcases List.append_eq_append_iff.1 hlists with ⟨_ | ⟨x, t⟩, rfl, hrest⟩ | ⟨_ | ⟨x, t⟩, rfl, hrest⟩
  · cases hrest
    exact Or.inl (by rw [List.append_nil])
  · obtain ⟨rfl, -⟩ := List.cons.inj hrest
    exact Or.inr (Or.inl ⟨t, by simp⟩)
  · cases hrest
    exact Or.inl (by rw [List.append_nil])
  · obtain ⟨rfl, -⟩ := List.cons.inj hrest
    exact Or.inr (Or.inr ⟨t, by simp⟩)

theorem occurrencesFrom_append (before l m : List α) :
    occurrencesFrom before (l ++ m)
      = (occurrencesFrom before l).map (·.extend m) ++ occurrencesFrom (before ++ l) m := by
  induction l generalizing before with
  | nil => simp [occurrencesFrom]
  | cons x rest ih =>
    rw [List.cons_append, occurrencesFrom, occurrencesFrom, ih, List.map_cons, List.cons_append,
      List.append_assoc, List.singleton_append]
    rfl

/-- When a list goes on, its occurrences see what is added, and those of the added items follow. -/
theorem occurrences_append (l m : List α) :
    occurrences (l ++ m) = (occurrences l).map (·.extend m) ++ occurrencesFrom l m :=
  occurrencesFrom_append [] l m

/-- One more item adds one occurrence. -/
theorem occurrences_append_singleton (l : List α) (x : α) :
    occurrences (l ++ [x]) = (occurrences l).map (·.extend [x]) ++ [⟨l, x, []⟩] :=
  occurrences_append l [x]

/-- Of two occurrences the later one stands behind the earlier. -/
theorem occurrencesFrom_pairwise (before l : List α) :
    (occurrencesFrom before l).Pairwise fun o o' => o'.item ∈ o.after := by
  induction l generalizing before with
  | nil => exact .nil
  | cons x rest ih =>
    refine List.pairwise_cons.2 ⟨fun o ho => ?_, ih _⟩
    show o.item ∈ rest
    rw [← map_item_occurrencesFrom (before ++ [x]) rest]
    exact List.mem_map_of_mem ho

/-- The occurrences of a list are the ways to split it around an item. -/
theorem mem_occurrences_iff {l : List α} {o : Occurrence α} : o ∈ occurrences l ↔ o.list = l := by
  constructor
  · exact list_of_mem_occurrences
  · rintro rfl
    rw [Occurrence.list, occurrences_append, occurrencesFrom]
    exact List.mem_append_right _ List.mem_cons_self

theorem occurrencesFrom_filter (p : α → Bool) (before l : List α) :
    occurrencesFrom (before.filter p) (l.filter p)
      = ((occurrencesFrom before l).filter fun o => p o.item).map (·.filter p) := by
  induction l generalizing before with
  | nil => rfl
  | cons x rest ih =>
    have hrest := ih (before ++ [x])
    rw [occurrencesFrom]
    by_cases hx : p x = true
    · rw [List.filter_append, List.filter_cons_of_pos hx, List.filter_nil] at hrest
      rw [List.filter_cons_of_pos hx, List.filter_cons_of_pos (by simpa using hx), List.map_cons,
        occurrencesFrom, ← hrest]
      rfl
    · rw [List.filter_append, List.filter_cons_of_neg hx, List.filter_nil, List.append_nil] at hrest
      rw [List.filter_cons_of_neg hx, List.filter_cons_of_neg (by simpa using hx), ← hrest]

/-- Dropping items drops their occurrences, and drops them from the neighbours of the others. -/
theorem occurrences_filter (p : α → Bool) (l : List α) :
    occurrences (l.filter p)
      = ((occurrences l).filter fun o => p o.item).map (·.filter p) :=
  occurrencesFrom_filter p [] l

/-- The occurrences of a kind, split where the items of that kind are split: those before the item
have it behind them, and those after it are among the items behind it. -/
theorem filter_occurrences_split {p : α → Bool} {l b a : List α} {x : α}
    (h : l.filter p = b ++ x :: a) :
    ∃ left o right, ((occurrences l).filter fun o => p o.item) = left ++ o :: right
      ∧ left.length = b.length ∧ o.item = x ∧ o.after.filter p = a
      ∧ (∀ e ∈ left, x ∈ e.after) ∧ ∀ e ∈ right, e.item ∈ a := by
  -- dropping the other items leaves the occurrences of `b ++ x :: a`, which are split already
  have hmap := occurrences_filter p l
  rw [h, occurrences_append, occurrencesFrom] at hmap
  obtain ⟨left, rest, hsplit, hleft, hrest⟩ := List.map_eq_append_iff.1 hmap.symm
  obtain ⟨o, right, rfl, ho, hright⟩ := List.map_eq_cons_iff.1 hrest
  refine ⟨left, o, right, hsplit, ?_, congrArg Occurrence.item ho, congrArg Occurrence.after ho,
    fun e he => ?_, fun e he => ?_⟩
  · have hlen := congrArg List.length hleft
    have hitems := congrArg List.length (map_item_occurrences b)
    rw [List.length_map] at hitems
    rw [List.length_map, List.length_map, hitems] at hlen
    exact hlen
  · have hmem : e.filter p ∈ (occurrences b).map (·.extend (x :: a)) := by
      rw [← hleft]
      exact List.mem_map_of_mem he
    obtain ⟨e', -, he'⟩ := List.mem_map.1 hmem
    have hx : x ∈ (e.filter p).after := by
      rw [← he']
      simp [Occurrence.extend]
    exact (List.mem_filter.1 hx).1
  · have hmem : e.filter p ∈ occurrencesFrom (b ++ [x]) a := by
      rw [← hright]
      exact List.mem_map_of_mem he
    rw [← map_item_occurrencesFrom (b ++ [x]) a]
    exact List.mem_map.2 ⟨e.filter p, hmem, rfl⟩

theorem filter_append_singleton (p : α → Bool) (l : List α) (x : α) :
    (l ++ [x]).filter p = l.filter p ++ if p x then [x] else [] := by
  rw [List.filter_append, List.filter_cons, List.filter_nil]

/-! ## The last occurrence of a kind -/

@[simp] theorem lastOccurrence?_nil (p : α → Bool) : lastOccurrence? p [] = none := rfl

/-- One more item is the last of its kind; it leaves the last of any other kind where it is. -/
theorem lastOccurrence?_append_singleton (p : α → Bool) (l : List α) (x : α) :
    lastOccurrence? p (l ++ [x])
      = if p x then some ⟨l, x, []⟩ else (lastOccurrence? p l).map (·.extend [x]) := by
  rw [lastOccurrence?, occurrences_append_singleton, List.reverse_append, List.reverse_singleton,
    List.singleton_append, List.find?_cons]
  cases p x with
  | true => rfl
  | false =>
    rw [← List.map_reverse, List.find?_map]
    rfl

/-- Items of another kind leave the last occurrence where it is. -/
theorem lastOccurrence?_append (p : α → Bool) (l m : List α) (hm : ∀ a ∈ m, p a = false) :
    lastOccurrence? p (l ++ m) = (lastOccurrence? p l).map (·.extend m) := by
  -- each further item is of another kind and only joins what stands behind
  induction m using List.reverseRecOn with
  | nil => simp [Occurrence.extend]
  | append_singleton m x ih =>
    have hx : p x = false := hm x (by simp)
    rw [← List.append_assoc, lastOccurrence?_append_singleton, hx, if_neg (by simp),
      ih fun a ha => hm a (by simp [ha]), Option.map_map]
    congr 1
    funext o
    exact o.extend_extend m [x]

theorem forall_after_of_lastOccurrence? {p : α → Bool} {l : List α} {o : Occurrence α}
    (h : lastOccurrence? p l = some o) : ∀ a ∈ o.after, p a = false := by
  induction l using List.reverseRecOn generalizing o with
  | nil => simp at h
  | append_singleton l x ih =>
    rw [lastOccurrence?_append_singleton] at h
    cases hx : p x with
    | true =>
      rw [hx, if_pos rfl] at h
      cases h
      simp
    | false =>
      rw [hx, if_neg (by simp), Option.map_eq_some_iff] at h
      obtain ⟨o, ho, rfl⟩ := h
      intro a ha
      rcases List.mem_append.1 ha with ha | ha
      · exact ih ho a ha
      · rw [List.mem_singleton.1 ha]
        exact hx

theorem lastOccurrence?_spec {p : α → Bool} {l : List α} {o : Occurrence α}
    (h : lastOccurrence? p l = some o) :
    o.list = l ∧ p o.item = true ∧ ∀ a ∈ o.after, p a = false := by
  have hafter := forall_after_of_lastOccurrence? h
  rw [lastOccurrence?] at h
  have hmem : o ∈ occurrences l := List.mem_reverse.1 (List.mem_of_find?_eq_some h)
  have hitem := List.find?_some h
  exact ⟨list_of_mem_occurrences hmem, hitem, hafter⟩

theorem item_mem_of_lastOccurrence? {p : α → Bool} {l : List α} {o : Occurrence α}
    (h : lastOccurrence? p l = some o) : o.item ∈ l := by
  rw [← (lastOccurrence?_spec h).1, Occurrence.list]
  simp

/-- The last occurrence of a kind is the one behind which there is no other of the kind. -/
theorem lastOccurrence?_eq_some_iff {p : α → Bool} {l : List α} {o : Occurrence α} :
    lastOccurrence? p l = some o
      ↔ o.list = l ∧ p o.item = true ∧ ∀ a ∈ o.after, p a = false := by
  constructor
  · exact lastOccurrence?_spec
  · rintro ⟨rfl, hitem, hafter⟩
    obtain ⟨before, item, after⟩ := o
    have hsplit : (Occurrence.mk before item after).list = before ++ [item] ++ after := by
      simp [Occurrence.list]
    rw [hsplit, lastOccurrence?_append p _ after hafter, lastOccurrence?_append_singleton,
      if_pos hitem]
    rfl

theorem lastOccurrence?_eq_none_iff {p : α → Bool} {l : List α} :
    lastOccurrence? p l = none ↔ ∀ a ∈ l, p a = false := by
  rw [lastOccurrence?, List.find?_eq_none]
  constructor
  · intro h a ha
    rw [← map_item_occurrences l, List.mem_map] at ha
    obtain ⟨o, ho, rfl⟩ := ha
    simpa using h o (List.mem_reverse.2 ho)
  · intro h o ho
    have hmem : o.item ∈ l := by
      rw [← map_item_occurrences l]
      exact List.mem_map_of_mem (List.mem_reverse.1 ho)
    simp [h o.item hmem]

/-- The item of the last occurrence of a kind is the last item of that kind. -/
theorem map_item_lastOccurrence? (p : α → Bool) (l : List α) :
    (lastOccurrence? p l).map Occurrence.item = (l.filter p).getLast? := by
  induction l using List.reverseRecOn with
  | nil => rfl
  | append_singleton l x ih =>
    rw [lastOccurrence?_append_singleton, filter_append_singleton]
    cases p x with
    | true => simp
    | false =>
      rw [if_neg (by simp), if_neg (by simp), List.append_nil, ← ih, Option.map_map]
      rfl

/-- What is asked of the last item of a kind can be asked of it where it stands. -/
theorem exists_lastOccurrence?_iff (p : α → Bool) (l : List α) (q : α → Prop) :
    (∃ o, lastOccurrence? p l = some o ∧ q o.item)
      ↔ ∃ x, (l.filter p).getLast? = some x ∧ q x := by
  rw [← map_item_lastOccurrence?]
  constructor
  · rintro ⟨o, ho, hq⟩
    exact ⟨o.item, Option.map_eq_some_iff.2 ⟨o, ho, rfl⟩, hq⟩
  · rintro ⟨x, hx, hq⟩
    obtain ⟨o, ho, rfl⟩ := Option.map_eq_some_iff.1 hx
    exact ⟨o, ho, hq⟩

/-! ## What a scan remembers -/

/-- If each step of a scan either sets a part of the state or leaves it alone, then in the end the
part is what was set last. -/
theorem part_foldl {σ : Type v} {β : Type w} {step : σ → α → σ} {sets : α → Option β}
    (part : σ → Option β) (hstep : ∀ s a, part (step s a) = (sets a).or (part s)) (s : σ)
    (l : List α) : part (l.foldl step s) = (l.filterMap sets).getLast?.or (part s) := by
  induction l using List.reverseRecOn with
  | nil => rfl
  | append_singleton l a ih =>
    rw [List.foldl_append, List.foldl_cons, List.foldl_nil, hstep, ih, List.filterMap_append,
      List.getLast?_append, Option.or_assoc]
    refine congrArg (Option.or · _) ?_
    cases h : sets a with
    | none => simp [h]
    | some b => simp [h]

end Chronicle
