/-!
# Finite maps in key order

A map is a list of pairs whose keys strictly ascend, so two maps with the same look-ups are the
same map (`OrderedMap.ext_get?`), and listing a map lists it in key order.  Metadata, tables,
blob stores and sets of labels are all maps of this kind.

* `get?_insert`, `get?_erase` : what an update does to every look-up;
* `get?_insertAll`, `get?_overlay` : what many updates do to it, the last one of a key counting;
* `ext_get?` : look-ups determine the map;
* `keys_ascending` : the keys come strictly in order.
-/

namespace Chronicle

universe u v

/-- A finite map, listed in strictly ascending key order. -/
structure OrderedMap (κ : Type u) (ν : Type v) [Ord κ] where
  entries : List (κ × ν)
  ascending : entries.Pairwise fun a b => compare a.1 b.1 = .lt
  deriving DecidableEq

namespace OrderedMap

variable {κ : Type u} {ν : Type v} [Ord κ]

/-! ## Look-ups and updates on the list of pairs -/

/-- The value beside the key `k`, if the key is listed. -/
def find? (k : κ) : List (κ × ν) → Option ν
  | [] => none
  | (k', v) :: rest => if compare k k' = .eq then some v else find? k rest

/-- Puts the pair at its place in key order, in place of any pair with the same key. -/
def place (k : κ) (v : ν) : List (κ × ν) → List (κ × ν)
  | [] => [(k, v)]
  | (k', v') :: rest =>
    match compare k k' with
    | .lt => (k, v) :: (k', v') :: rest
    | .eq => (k, v) :: rest
    | .gt => (k', v') :: place k v rest

theorem mem_place {k : κ} {v : ν} {a : κ × ν} {l : List (κ × ν)} (h : a ∈ place k v l) :
    a = (k, v) ∨ a ∈ l := by
  induction l with
  | nil => simpa [place] using h
  | cons hd rest ih =>
    obtain ⟨k', v'⟩ := hd
    rw [place] at h
    split at h <;> grind

theorem pairwise_place [Std.TransOrd κ] {k : κ} {v : ν} {l : List (κ × ν)}
    (hl : l.Pairwise fun a b => compare a.1 b.1 = .lt) :
    (place k v l).Pairwise fun a b => compare a.1 b.1 = .lt := by
  induction l with
  | nil => simp [place]
  | cons hd rest ih =>
    obtain ⟨k', v'⟩ := hd
    obtain ⟨hhd, hrest⟩ := List.pairwise_cons.1 hl
    rw [place]
    split
    · next hlt =>
      refine List.pairwise_cons.2 ⟨fun a ha => ?_, hl⟩
      rcases List.mem_cons.1 ha with rfl | ha
      · exact hlt
      · exact Std.TransCmp.lt_trans hlt (hhd a ha)
    · next heq =>
      exact List.pairwise_cons.2 ⟨fun a ha => Std.TransCmp.lt_of_eq_of_lt heq (hhd a ha), hrest⟩
    · next hgt =>
      refine List.pairwise_cons.2 ⟨fun a ha => ?_, ih hrest⟩
      rcases mem_place ha with rfl | ha
      · exact Std.OrientedCmp.gt_iff_lt.1 hgt
      · exact hhd a ha

/-! ## Maps -/

/-- The map without entries. -/
def empty : OrderedMap κ ν := ⟨[], List.Pairwise.nil⟩

instance : EmptyCollection (OrderedMap κ ν) := ⟨empty⟩
instance : Inhabited (OrderedMap κ ν) := ⟨empty⟩

/-- Two maps are equal as data when their pairs are, one by one. -/
instance [BEq κ] [BEq ν] : BEq (OrderedMap κ ν) := ⟨fun a b => a.entries == b.entries⟩

/-- The value under `k`. -/
def get? (m : OrderedMap κ ν) (k : κ) : Option ν := find? k m.entries

/-- Whether `k` has a value. -/
def contains (m : OrderedMap κ ν) (k : κ) : Bool := (m.get? k).isSome

/-- The map with `v` under `k`. -/
def insert [Std.TransOrd κ] (m : OrderedMap κ ν) (k : κ) (v : ν) : OrderedMap κ ν :=
  ⟨place k v m.entries, pairwise_place m.ascending⟩

/-- The map with nothing under `k`. -/
def erase (m : OrderedMap κ ν) (k : κ) : OrderedMap κ ν :=
  ⟨m.entries.filter fun e => compare k e.1 != .eq, m.ascending.filter _⟩

/-- The pairs in key order. -/
def toList (m : OrderedMap κ ν) : List (κ × ν) := m.entries

/-- The keys in order. -/
def keys (m : OrderedMap κ ν) : List κ := m.entries.map (·.1)

/-- The values in key order. -/
def values (m : OrderedMap κ ν) : List ν := m.entries.map (·.2)

/-- The number of keys. -/
def size (m : OrderedMap κ ν) : Nat := m.entries.length

/-- Whether there is no key. -/
def isEmpty (m : OrderedMap κ ν) : Bool := m.entries.isEmpty

/-- Adds the pairs from left to right; a later pair replaces an earlier one of its key. -/
def insertAll [Std.TransOrd κ] (m : OrderedMap κ ν) (pairs : List (κ × ν)) : OrderedMap κ ν :=
  pairs.foldl (fun m e => m.insert e.1 e.2) m

/-- The map of the pairs, the last pair of a key counting. -/
def ofList [Std.TransOrd κ] (pairs : List (κ × ν)) : OrderedMap κ ν := empty.insertAll pairs

/-- `m` with every entry of `top` laid over it. -/
def overlay [Std.TransOrd κ] (m top : OrderedMap κ ν) : OrderedMap κ ν := m.insertAll top.entries

/-- The entries whose key satisfies `p`. -/
def filterKeys (m : OrderedMap κ ν) (p : κ → Bool) : OrderedMap κ ν :=
  ⟨m.entries.filter fun e => p e.1, m.ascending.filter _⟩

/-! ## One law per operation -/

theorem ext_entries {m n : OrderedMap κ ν} (h : m.entries = n.entries) : m = n := by
  cases m; cases n; cases h; rfl

@[simp] theorem get?_empty (k : κ) : (empty : OrderedMap κ ν).get? k = none := rfl

@[simp] theorem entries_empty : (empty : OrderedMap κ ν).entries = [] := rfl

theorem find?_place [Std.LawfulEqOrd κ] (k k' : κ) (v : ν) (l : List (κ × ν)) :
    find? k' (place k v l) = if compare k' k = .eq then some v else find? k' l := by
  induction l with
  | nil => simp [place, find?]
  | cons hd rest ih =>
    obtain ⟨k₀, v₀⟩ := hd
    rw [place]
    split
    · simp [find?]
    · next heq =>
      obtain rfl := Std.LawfulEqCmp.eq_of_compare heq
      by_cases h : compare k' k = .eq <;> simp [find?, h]
    · next hgt =>
      by_cases h : compare k' k₀ = .eq
      · obtain rfl := Std.LawfulEqCmp.eq_of_compare h
        have hne : compare k' k ≠ .eq := by
          intro he
          obtain rfl := Std.LawfulEqCmp.eq_of_compare he
          simp [Std.ReflCmp.compare_self] at hgt
        simp [find?, hne]
      · simp [find?, h, ih]

/-- After an insertion the key has the new value and every other key what it had. -/
theorem get?_insert [Std.TransOrd κ] [Std.LawfulEqOrd κ] [DecidableEq κ] (m : OrderedMap κ ν)
    (k k' : κ) (v : ν) :
    (m.insert k v).get? k' = if k' = k then some v else m.get? k' := by
  simp only [get?, insert, find?_place, Std.compare_eq_iff_eq]

@[simp] theorem get?_insert_self [Std.TransOrd κ] [Std.LawfulEqOrd κ] (m : OrderedMap κ ν)
    (k : κ) (v : ν) : (m.insert k v).get? k = some v := by
  simp [get?, insert, find?_place, Std.ReflCmp.compare_self]

theorem get?_insert_of_ne [Std.TransOrd κ] [Std.LawfulEqOrd κ] (m : OrderedMap κ ν) {k k' : κ}
    (v : ν) (h : k' ≠ k) : (m.insert k v).get? k' = m.get? k' := by
  simp [get?, insert, find?_place, h]

/-- After an erasure the key has no value and every other key what it had. -/
theorem get?_erase [Std.LawfulEqOrd κ] [DecidableEq κ] (m : OrderedMap κ ν) (k k' : κ) :
    (m.erase k).get? k' = if k' = k then none else m.get? k' := by
  simp only [get?, erase]
  induction m.entries with
  | nil => simp [find?]
  | cons hd rest ih =>
    obtain ⟨k₀, v₀⟩ := hd
    by_cases h₀ : compare k k₀ = .eq
    · obtain rfl := Std.LawfulEqCmp.eq_of_compare h₀
      by_cases h : k' = k
      · subst h; simpa [Std.ReflCmp.compare_self] using ih
      · simp [find?, ih, h]
    · have hne : k₀ ≠ k := fun h => h₀ (h ▸ Std.ReflCmp.compare_self)
      have hb : (compare k k₀ != .eq) = true := by simpa using h₀
      simp only [List.filter_cons, hb, if_true, find?, ih, Std.compare_eq_iff_eq]
      by_cases h : k' = k₀ <;> simp [h, hne]

theorem find?_append (k : κ) (l l' : List (κ × ν)) :
    find? k (l ++ l') = (find? k l).or (find? k l') := by
  induction l with
  | nil => rfl
  | cons hd rest ih =>
    rw [List.cons_append, find?, find?, ih]
    split <;> rfl

theorem find?_eq_none {k : κ} {l : List (κ × ν)} (h : ∀ a ∈ l, compare k a.1 ≠ .eq) :
    find? k l = none := by
  induction l with
  | nil => rfl
  | cons hd rest ih =>
    rw [find?, if_neg (h hd (by simp)), ih fun a ha => h a (by simp [ha])]

/-- In ascending pairs a key comes once, so it does not matter from which end it is looked for. -/
theorem find?_reverse [Std.LawfulEqOrd κ] (k : κ) {l : List (κ × ν)}
    (hl : l.Pairwise fun a b => compare a.1 b.1 = .lt) : find? k l.reverse = find? k l := by
  induction l with
  | nil => rfl
  | cons hd rest ih =>
    obtain ⟨k₀, v₀⟩ := hd
    obtain ⟨hhd, hrest⟩ := List.pairwise_cons.1 hl
    rw [List.reverse_cons, find?_append, ih hrest]
    by_cases h : compare k k₀ = .eq
    · obtain rfl := Std.LawfulEqCmp.eq_of_compare h
      have hnone : find? k rest = none := find?_eq_none fun a ha heq => by
        have hlt := hhd a ha
        rw [heq] at hlt
        cases hlt
      simp [find?, hnone]
    · simp [find?, h]

/-- After a list of insertions a key has the value that was inserted last, if there is one. -/
theorem get?_insertAll [Std.TransOrd κ] [Std.LawfulEqOrd κ] (m : OrderedMap κ ν)
    (pairs : List (κ × ν)) (k : κ) :
    (m.insertAll pairs).get? k = (find? k pairs.reverse).or (m.get? k) := by
  induction pairs generalizing m with
  | nil => rfl
  | cons e rest ih =>
    have hinsert : (m.insert e.1 e.2).get? k = (find? k [e]).or (m.get? k) := by
      rw [get?, insert, find?_place, find?]
      split <;> rfl
    show ((m.insert e.1 e.2).insertAll rest).get? k = _
    rw [ih, hinsert, List.reverse_cons, find?_append, Option.or_assoc]

/-- After an overlay a key has the value that is laid over it, and else what it had. -/
theorem get?_overlay [Std.TransOrd κ] [Std.LawfulEqOrd κ] (m top : OrderedMap κ ν) (k : κ) :
    (m.overlay top).get? k = (top.get? k).or (m.get? k) := by
  rw [overlay, get?_insertAll, find?_reverse k top.ascending]
  rfl

/-- A pair is listed exactly when it is what its key looks up. -/
theorem mem_entries_iff [Std.LawfulEqOrd κ] {m : OrderedMap κ ν} {k : κ} {v : ν} :
    (k, v) ∈ m.entries ↔ m.get? k = some v := by
  obtain ⟨l, hl⟩ := m
  simp only [get?]
  induction l with
  | nil => simp [find?]
  | cons hd rest ih =>
    obtain ⟨k₀, v₀⟩ := hd
    obtain ⟨hhd, hrest⟩ := List.pairwise_cons.1 hl
    simp only [List.mem_cons, Prod.mk.injEq, find?, Std.compare_eq_iff_eq]
    by_cases h : k = k₀
    · subst h
      have hout : (k, v) ∉ rest := fun hmem => by
        have := hhd _ hmem
        simp [Std.ReflCmp.compare_self] at this
      simp [hout, eq_comm]
    · simp [h, ih hrest]

theorem mem_keys_iff [Std.LawfulEqOrd κ] {m : OrderedMap κ ν} {k : κ} :
    k ∈ m.keys ↔ (m.get? k).isSome := by
  rw [keys, List.mem_map, Option.isSome_iff_exists]
  constructor
  · rintro ⟨⟨k', v⟩, hmem, rfl⟩
    exact ⟨v, mem_entries_iff.1 hmem⟩
  · rintro ⟨v, h⟩
    exact ⟨(k, v), mem_entries_iff.2 h, rfl⟩

theorem mem_keys_insert [Std.TransOrd κ] [Std.LawfulEqOrd κ] [DecidableEq κ] {m : OrderedMap κ ν}
    {k k' : κ} {v : ν} : k' ∈ (m.insert k v).keys ↔ k' = k ∨ k' ∈ m.keys := by
  rw [mem_keys_iff, mem_keys_iff, get?_insert]
  by_cases h : k' = k <;> simp [h]

theorem mem_keys_insertAll [Std.TransOrd κ] [Std.LawfulEqOrd κ] [DecidableEq κ]
    {m : OrderedMap κ ν} {pairs : List (κ × ν)} {k : κ} :
    k ∈ (m.insertAll pairs).keys ↔ (∃ e ∈ pairs, e.1 = k) ∨ k ∈ m.keys := by
  induction pairs generalizing m with
  | nil => simp [insertAll]
  | cons e rest ih =>
    show k ∈ ((m.insert e.1 e.2).insertAll rest).keys ↔ _
    rw [ih, mem_keys_insert]
    simp only [List.mem_cons, exists_eq_or_imp]
    grind

theorem isEmpty_iff_keys {m : OrderedMap κ ν} : m.isEmpty = true ↔ m.keys = [] := by
  rw [isEmpty, List.isEmpty_iff, keys, List.map_eq_nil_iff]

theorem keys_filterKeys (m : OrderedMap κ ν) (p : κ → Bool) :
    (m.filterKeys p).keys = m.keys.filter p := by
  rw [keys, keys, filterKeys, List.filter_map]
  rfl

/-- The keys come strictly in order, so none comes twice. -/
theorem keys_ascending (m : OrderedMap κ ν) : m.keys.Pairwise fun a b => compare a b = .lt :=
  List.pairwise_map.2 m.ascending

/-- Two ascending lists with the same members are the same list. -/
theorem eq_of_ascending [Std.TransOrd κ] {l₁ l₂ : List (κ × ν)}
    (h₁ : l₁.Pairwise fun a b => compare a.1 b.1 = .lt)
    (h₂ : l₂.Pairwise fun a b => compare a.1 b.1 = .lt)
    (h : ∀ a, a ∈ l₁ ↔ a ∈ l₂) : l₁ = l₂ := by
  have irrefl : ∀ a : κ × ν, compare a.1 a.1 ≠ .lt := fun a ha => by
    simp [Std.ReflCmp.compare_self] at ha
  induction l₁ generalizing l₂ with
  | nil =>
    cases l₂ with
    | nil => rfl
    | cons b t => exact absurd ((h b).2 (by simp)) (by simp)
  | cons a s ih =>
    obtain ⟨ha, hs⟩ := List.pairwise_cons.1 h₁
    cases l₂ with
    | nil => exact absurd ((h a).1 (by simp)) (by simp)
    | cons b t =>
      obtain ⟨hb, ht⟩ := List.pairwise_cons.1 h₂
      have hab : a = b := by
        rcases List.mem_cons.1 ((h a).1 (by simp)) with hab | hat
        · exact hab
        · rcases List.mem_cons.1 ((h b).2 (by simp)) with hba | hbs
          · exact hba.symm
          · exact absurd (Std.TransCmp.lt_trans (ha b hbs) (hb a hat)) (irrefl a)
      subst hab
      congr 1
      refine ih hs ht fun c => ?_
      have hc := h c
      simp only [List.mem_cons] at hc
      constructor
      · intro hcs
        rcases hc.1 (Or.inr hcs) with rfl | hct
        · exact absurd (ha _ hcs) (irrefl _)
        · exact hct
      · intro hct
        rcases hc.2 (Or.inr hct) with rfl | hcs
        · exact absurd (hb _ hct) (irrefl _)
        · exact hcs

/-- Look-ups determine the map. -/
theorem ext_get? [Std.TransOrd κ] [Std.LawfulEqOrd κ] {m n : OrderedMap κ ν}
    (h : ∀ k, m.get? k = n.get? k) : m = n := by
  apply ext_entries
  refine eq_of_ascending m.ascending n.ascending fun ⟨k, v⟩ => ?_
  rw [mem_entries_iff, mem_entries_iff, h]

/-- A map without values is determined by its keys. -/
theorem ext_keys [Std.TransOrd κ] [Std.LawfulEqOrd κ] {m n : OrderedMap κ Unit}
    (h : ∀ k, k ∈ m.keys ↔ k ∈ n.keys) : m = n := by
  refine ext_get? fun k => ?_
  have hk := h k
  rw [mem_keys_iff, mem_keys_iff] at hk
  cases hm : m.get? k <;> cases hn : n.get? k <;> simp [hm, hn] at hk ⊢

end OrderedMap

end Chronicle
