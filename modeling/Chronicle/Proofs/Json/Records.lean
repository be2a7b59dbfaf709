import Mathlib.Data.List.Nodup
import Chronicle.Json.Fields
import Chronicle.OrderedMap

/-!
# Records are read back as they were written

What is written for a value survives if it is sound within some depth and is read as the value
again.  Numbers, texts, lists and records survive when what is in them does, lists and records one
level up.

* `Faithful` : the value survives;
* `faithful_array` : lists;
* `isSound_object`, `memberFields?_zip` : objects, and records with all their fields;
* `OrderedMap.ofList_entries` : a map is made again from its entries.
-/

namespace Chronicle

namespace Json

variable {α : Type} {write : α → Json} {read : Json → Option α} {depth : Nat}

/-- What is written for `a` is nested no deeper than `depth`, everything in it means something, and
it is read as `a`. -/
structure Faithful (write : α → Json) (read : Json → Option α) (depth : Nat) (a : α) : Prop where
  sound : (write a).isSound depth = true
  read_write : read (write a) = some a

/-! ## Sound values -/

theorem areSound_iff {items : List Json} :
    areSound depth items = true ↔ ∀ j ∈ items, isSound depth j = true := by
  induction items with
  | nil => simp [areSound]
  | cons j items ih => simp [areSound, ih]

theorem areSoundMembers_iff {members : List (String × Json)} :
    areSoundMembers depth members = true ↔ ∀ m ∈ members, isSound depth m.2 = true := by
  induction members with
  | nil => simp [areSoundMembers]
  | cons m members ih => simp [areSoundMembers, ih]

/-- An object is nested one level deeper than its members. -/
theorem isSound_object {members : List (String × Json)}
    (h : ∀ m ∈ members, m.2.isSound depth = true) :
    (object members).isSound (depth + 1) = true := by
  rw [isSound, Bool.and_eq_true, areSoundMembers_iff]
  exact ⟨decide_eq_true (Nat.succ_pos depth), h⟩

/-! ## Scalars -/

theorem int?_ofInt (i : Int) : (ofInt i).int? = some i := Decimal.Numeral.toInt?_ofInt i

/-- An integer of 64 bits means something, with or without a sign. -/
theorem isSound_ofInt {i : Int}
    (h : (Word.int64? i).isSome = true ∨ (Word.uint64? i).isSome = true) :
    (ofInt i).isSound depth = true := by
  rw [ofInt, isSound, isRepresentable, Decimal.Numeral.toInt?_ofInt, Option.any_some]
  rcases h with h | h <;> simp [h]

theorem faithful_int64 (depth : Nat) (i : Int64) :
    Faithful (fun i => ofInt i.toInt) int64? depth i := by
  have hi := Word.int64?_eq_some_iff.2 (rfl : i.toInt = i.toInt)
  refine ⟨isSound_ofInt (Or.inl ?_), ?_⟩
  · rw [hi, Option.isSome_some]
  · rw [int64?, int?_ofInt, Option.bind_some, hi]

theorem isSound_ofNat {n : Nat} (h : n < UInt64.size) : (ofInt n).isSound depth = true := by
  have hback : ((UInt64.ofNat n).toNat : Int) = n := by
    rw [UInt64.toNat_ofNat_of_lt' h]
  refine isSound_ofInt (Or.inr ?_)
  rw [Word.uint64?_eq_some_iff.2 hback, Option.isSome_some]

theorem faithful_uint64 (depth : Nat) (n : UInt64) :
    Faithful (fun n => ofInt n.toNat) uint64? depth n := by
  refine ⟨isSound_ofNat n.toNat_lt, ?_⟩
  rw [uint64?, int?_ofInt, Option.bind_some, Word.uint64?_eq_some_iff.2 rfl]

/-- Shorter words are 64-bit numbers too. -/
theorem faithful_uint32 (depth : Nat) (n : UInt32) :
    Faithful (fun n => ofInt n.toNat) uint32? depth n := by
  refine ⟨isSound_ofNat (Nat.lt_trans n.toNat_lt (by decide)), ?_⟩
  rw [uint32?, int?_ofInt, Option.bind_some, Word.uint32?_eq_some_iff.2 rfl]

theorem faithful_uint8 (depth : Nat) (n : UInt8) :
    Faithful (fun n => ofInt n.toNat) uint8? depth n := by
  refine ⟨isSound_ofNat (Nat.lt_trans n.toNat_lt (by decide)), ?_⟩
  rw [uint8?, int?_ofInt, Option.bind_some, Word.uint8?_eq_some_iff.2 rfl]

/-- Nothing is written as `null`, so something is read back if it is written otherwise. -/
theorem faithful_ofOption {o : Option α} (h : ∀ a, o = some a → Faithful write read depth a)
    (hnull : ∀ a, write a ≠ .null) : Faithful (ofOption write) (nullable read) depth o := by
  rcases o with _ | a
  · exact ⟨rfl, rfl⟩
  · have ha := h a rfl
    refine ⟨ha.sound, ?_⟩
    show nullable read (write a) = some (some a)
    have hread := ha.read_write
    have hne := hnull a
    revert hread hne
    cases write a <;> intro hread hne
    case null => exact absurd rfl hne
    all_goals
      rw [nullable, hread, Option.map_some]
      exact hne

/-! ## Lists -/

/-- Items are read back one by one. -/
theorem mapM_map_eq_some {β : Type} {write : α → β} {read : β → Option α} {l : List α}
    (h : ∀ a ∈ l, read (write a) = some a) :
    (l.map write).mapM read = some l := by
  induction l with
  | nil => rfl
  | cons a l ih =>
    have hrest := ih fun b hb => h b (List.mem_cons_of_mem a hb)
    rw [List.map_cons, List.mapM_cons, h a List.mem_cons_self, hrest]
    rfl

theorem faithful_array {l : List α} (h : ∀ a ∈ l, Faithful write read depth a) :
    Faithful (fun l => .array (l.map write)) (fun j => j.array?.bind (·.mapM read)) (depth + 1)
      l := by
  refine ⟨?_, ?_⟩
  · show isSound (depth + 1) (.array (l.map write)) = true
    rw [isSound, Bool.and_eq_true, areSound_iff]
    refine ⟨decide_eq_true (Nat.succ_pos depth), fun j hj => ?_⟩
    obtain ⟨a, ha, rfl⟩ := List.mem_map.1 hj
    exact (h a ha).sound
  · show (l.map write).mapM read = some l
    exact mapM_map_eq_some fun a ha => (h a ha).read_write

/-! ## Records -/

/-- A value under a tag. -/
theorem isSound_tagged {tag : String} {j : Json} (h : j.isSound depth = true) :
    (object [(tag, j)]).isSound (depth + 1) = true := by
  refine isSound_object fun m hm => ?_
  rw [List.mem_singleton.1 hm]
  exact h

theorem member?_cons_of_ne {key key' : String} (h : key' ≠ key) (j : Json)
    (members : List (String × Json)) :
    member? ((key', j) :: members) key = member? members key := by
  rw [member?, List.find?_cons_of_neg]
  · rfl
  · rwa [beq_iff_eq]

theorem map_member?_zip {names : List String} {values : List Json} (hnames : names.Nodup)
    (hlength : names.length = values.length) :
    names.map (member? (names.zip values)) = values.map some := by
  induction names generalizing values with
  | nil =>
    rw [List.length_nil] at hlength
    rw [List.length_eq_zero_iff.1 hlength.symm]
    rfl
  | cons name names ih =>
    obtain ⟨hname, hnames⟩ := List.nodup_cons.1 hnames
    rcases values with _ | ⟨value, values⟩
    · cases hlength
    have hrest : names.map (member? ((name, value) :: names.zip values))
        = names.map (member? (names.zip values)) := by
      refine List.map_congr_left fun key hkey => member?_cons_of_ne ?_ _ _
      rintro rfl
      exact hname hkey
    rw [List.zip_cons_cons, List.map_cons, hrest, ih hnames (Nat.succ.inj hlength), List.map_cons]
    congr 1
    rw [member?, List.find?_cons_of_pos]
    · rfl
    · exact beq_self_eq_true name

theorem occurrences_zip {names : List String} {values : List Json} (hnames : names.Nodup)
    (hlength : names.length = values.length) (key : String) :
    occurrences (names.zip values) key ≤ 1 := by
  have hcount : occurrences (names.zip values) key = names.count key := by
    have hmap : ((names.zip values).map Prod.fst).count key = names.count key := by
      rw [List.map_fst_zip (Nat.le_of_eq hlength)]
    rw [← hmap, List.count, List.countP_map]
    rfl
  rw [hcount]
  exact List.nodup_iff_count_le_one.1 hnames key

/-- A record with all its fields is read back. -/
theorem memberFields?_zip {names : List String} (values : List Json) (hnames : names.Nodup)
    (hlength : names.length = values.length) (undeclared : Undeclared) :
    memberFields? names undeclared (names.zip values) = some (values.map some) := by
  have hdeclared : ((names.zip values).all fun m => names.contains m.1) = true := by
    rw [List.all_eq_true]
    intro m hm
    exact List.contains_iff_mem.2 (List.of_mem_zip hm).1
  have honce : (names.all fun key => decide (occurrences (names.zip values) key ≤ 1)) = true := by
    rw [List.all_eq_true]
    intro key _
    exact decide_eq_true (occurrences_zip hnames hlength key)
  rw [memberFields?, honce, hdeclared, Bool.or_true, Bool.and_true, if_pos rfl,
    map_member?_zip hnames hlength]

end Json

/-! ## Maps -/

namespace OrderedMap

universe u v

variable {κ : Type u} {ν : Type v} [Ord κ]

/-- What comes after all others is put at the end. -/
theorem place_of_last [Std.OrientedOrd κ] {k : κ} (v : ν) {l : List (κ × ν)}
    (h : ∀ e ∈ l, compare e.1 k = .lt) : place k v l = l ++ [(k, v)] := by
  induction l with
  | nil => rfl
  | cons e l ih =>
    have hgt : compare k e.1 = .gt := Std.OrientedCmp.gt_iff_lt.2 (h e List.mem_cons_self)
    rw [List.cons_append, ← ih fun e' he' => h e' (List.mem_cons_of_mem e he')]
    rw [place, hgt]

theorem entries_insertAll [Std.TransOrd κ] {m : OrderedMap κ ν} {l : List (κ × ν)}
    (h : (m.entries ++ l).Pairwise fun a b => compare a.1 b.1 = .lt) :
    (m.insertAll l).entries = m.entries ++ l := by
  induction l generalizing m with
  | nil => rw [List.append_nil]; rfl
  | cons e l ih =>
    have hlast : ∀ e' ∈ m.entries, compare e'.1 e.1 = .lt := fun e' he' =>
      (List.pairwise_append.1 h).2.2 e' he' e List.mem_cons_self
    have hinsert : (m.insert e.1 e.2).entries = m.entries ++ [e] := place_of_last e.2 hlast
    have happend : m.entries ++ e :: l = (m.insert e.1 e.2).entries ++ l := by
      rw [hinsert, List.append_assoc, List.singleton_append]
    rw [happend] at h ⊢
    exact ih h

/-- A map is made again from its entries. -/
theorem ofList_entries [Std.TransOrd κ] (m : OrderedMap κ ν) : ofList m.entries = m := by
  apply ext_entries
  rw [ofList, entries_insertAll] <;> rw [entries_empty, List.nil_append]
  exact m.ascending

end OrderedMap

end Chronicle
