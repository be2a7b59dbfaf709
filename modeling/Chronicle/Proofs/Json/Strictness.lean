import Mathlib.Data.List.Nodup
import Mathlib.Data.List.Perm.Basic
import Chronicle.Proofs.Json.Records

/-!
# Records are read strictly

An object is read as a record by what stands under each of its keys.  It must have each key once and
no key that is not declared, so the order of its members does not matter, and a field that is left
out may be written out with its default.  A record that is an item of a list in another record is
read on its own: whatever is done to it bears on the other only through what it is read as.

* `memberFields?_eq_some_iff` : when the declared fields are found, and which;
* `ReadsRecord` : a reader that goes by what stands under each key;
* `ReadsRecord.respelled`, `ReadsRecord.spoiled` : what it makes of an object written otherwise;
* `ReadsThrough` : a reader that reads a part of a value on its own.
-/

namespace Chronicle.Json

/-- The members of an object. -/
abbrev Members := List (String × Json)

/-- What stands under each key. -/
abbrev Lookup := String → Option Json

/-- The keys of the members, in order. -/
def keys (ms : Members) : List String := ms.map (·.1)

variable {α β : Type} {ms ms' : Members} {names : List String} {k : String} {j : Json}

/-! ## Keys -/

theorem member?_eq_none_iff : member? ms k = none ↔ k ∉ keys ms := by
  rw [member?, Option.map_eq_none_iff, List.find?_eq_none, keys, List.mem_map]
  constructor
  · rintro h ⟨m, hm, rfl⟩
    exact h m hm (beq_self_eq_true m.1)
  · intro h m hm heq
    exact h ⟨m, hm, eq_of_beq heq⟩

theorem mem_of_member? (h : member? ms k = some j) : (k, j) ∈ ms := by
  obtain ⟨m, hm, rfl⟩ := Option.map_eq_some_iff.1 h
  have hk := List.find?_some hm
  rw [← eq_of_beq hk]
  exact List.mem_of_find?_eq_some hm

@[simp] theorem member?_nil (k : String) : member? [] k = none := rfl

theorem member?_cons (k key : String) (j : Json) (ms : Members) :
    member? ((k, j) :: ms) key = if key = k then some j else member? ms key := by
  by_cases h : key = k
  · rw [if_pos h, member?, List.find?_cons_of_pos]
    · rfl
    · exact beq_iff_eq.2 h.symm
  · rw [if_neg h, member?_cons_of_ne (Ne.symm h)]

/-- What stands under the keys when there is one member more. -/
theorem member?_cons_eq_update (k : String) (j : Json) (ms : Members) :
    member? ((k, j) :: ms) = Function.update (member? ms) k (some j) := by
  funext key
  rw [member?_cons, Function.update_apply]

/-- Of distinct keys each has the value that stands beside it. -/
theorem member?_eq_some_iff (hnodup : (keys ms).Nodup) : member? ms k = some j ↔ (k, j) ∈ ms := by
  induction ms with
  | nil => simp [member?]
  | cons m ms ih =>
    obtain ⟨k', j'⟩ := m
    obtain ⟨hk', hrest⟩ := List.nodup_cons.1 hnodup
    rw [member?_cons, List.mem_cons, Prod.mk.injEq]
    by_cases h : k = k'
    · have hout : (k', j) ∉ ms := fun hmem => hk' (List.mem_map_of_mem (f := (·.1)) hmem)
      simp [h, hout, eq_comm]
    · simp [h, ih hrest]

/-- The order of distinct keys does not matter. -/
theorem member?_perm (hperm : ms'.Perm ms) (hnodup : (keys ms).Nodup) :
    member? ms' = member? ms := by
  have hnodup' : (keys ms').Nodup := (hperm.map _).nodup_iff.2 hnodup
  funext key
  refine Option.ext fun j => ?_
  rw [member?_eq_some_iff hnodup', member?_eq_some_iff hnodup, hperm.mem_iff]

/-- What has one key is told from what has others. -/
theorem perm_of_partition {m : String × Json} {rest : Members}
    (h : ms.partition (·.1 == k) = ([m], rest)) :
    m.1 = k ∧ k ∉ keys rest ∧ ms.Perm (m :: rest) := by
  rw [List.partition_eq_filter_filter, Prod.mk.injEq] at h
  obtain ⟨hone, rfl⟩ := h
  have hm : m ∈ ms.filter (·.1 == k) := by
    rw [hone]
    exact List.mem_singleton_self m
  have hperm := (List.filter_append_perm (fun m => m.1 == k) ms).symm
  rw [hone] at hperm
  refine ⟨eq_of_beq (List.mem_filter.1 hm).2, fun hk => ?_, hperm⟩
  obtain ⟨m', hm', rfl⟩ := List.mem_map.1 hk
  have hother := (List.mem_filter.1 hm').2
  simp at hother

theorem partition_of_member? (hnodup : (keys ms).Nodup) (hj : member? ms k = some j) :
    ∃ rest, ms.partition (·.1 == k) = ([(k, j)], rest) := by
  have hone : ms.filter (·.1 == k) = [(k, j)] := by
    induction ms with
    | nil => cases hj
    | cons m ms ih =>
      obtain ⟨k', j'⟩ := m
      obtain ⟨hk', hnodup⟩ := List.nodup_cons.1 hnodup
      rw [member?_cons] at hj
      by_cases h : k = k'
      · subst h
        have hnone : ms.filter (·.1 == k) = [] := by
          refine List.filter_eq_nil_iff.2 fun m hm heq => hk' ?_
          exact List.mem_map.2 ⟨m, hm, eq_of_beq heq⟩
        rw [if_pos rfl, Option.some.injEq] at hj
        simp [hnone, hj]
      · rw [if_neg h] at hj
        rw [List.filter_cons_of_neg (by simpa using Ne.symm h), ih hnodup hj]
  exact ⟨_, by rw [List.partition_eq_filter_filter, hone]⟩

theorem occurrences_eq_count (ms : Members) (k : String) :
    occurrences ms k = (keys ms).count k := by
  rw [occurrences, keys, List.count, List.countP_map]
  rfl

/-- The declared fields are found if each key stands there once and all keys are declared. -/
theorem memberFields?_eq_some_iff {fields : List (Option Json)} :
    memberFields? names .refused ms = some fields
      ↔ (keys ms).Nodup ∧ (∀ key ∈ keys ms, key ∈ names) ∧ names.map (member? ms) = fields := by
  have hdeclared : (ms.all fun m => names.contains m.1) = true ↔ ∀ key ∈ keys ms, key ∈ names := by
    simp [keys]
  have honce : (names.all fun key => decide (occurrences ms key ≤ 1)) = true
      ↔ ∀ key ∈ names, (keys ms).count key ≤ 1 := by
    simp [occurrences_eq_count]
  have hnodup : (∀ key ∈ keys ms, key ∈ names) →
      ((∀ key ∈ names, (keys ms).count key ≤ 1) ↔ (keys ms).Nodup) := by
    intro hin
    rw [List.nodup_iff_count_le_one]
    refine ⟨fun h key => ?_, fun h key _ => h key⟩
    by_cases hkey : key ∈ keys ms
    · exact h key (hin key hkey)
    · rw [List.count_eq_zero_of_not_mem hkey]
      exact Nat.zero_le 1
  have hrefused : (Undeclared.refused == .ignored) = false := rfl
  rw [memberFields?, hrefused, Bool.false_or, Option.ite_none_right_eq_some, Bool.and_eq_true,
    hdeclared, honce, Option.some.injEq]
  constructor
  · rintro ⟨⟨hcount, hin⟩, hfields⟩
    exact ⟨(hnodup hin).1 hcount, hin, hfields⟩
  · rintro ⟨hkeys, hin, hfields⟩
    exact ⟨⟨(hnodup hin).2 hkeys, hin⟩, hfields⟩

/-! ## Other ways to write an object -/

/-- The same members in another order, perhaps with a field that was left out spelled out with its
default. -/
inductive Respelled (defaults ms ms' : Members) : Prop where
  | reordered (hperm : ms'.Perm ms)
  | spelledOut (k : String) (d : Json) (hdefault : member? defaults k = some d) (hk : k ∉ keys ms)
      (hperm : ms'.Perm ((k, d) :: ms))

/-- One member too many: one whose key is not declared, or stands there already. -/
inductive Spoiled (declared : List String) (ms ms' : Members) : Prop where
  | undeclared (k : String) (j : Json) (hk : k ∉ declared) (hperm : ms'.Perm ((k, j) :: ms))
  | repeated (k : String) (j : Json) (hk : k ∈ keys ms) (hperm : ms'.Perm ((k, j) :: ms))

/-- What stands under each key when fields that are left out are spelled out. -/
def Lookup.spelledOut (g : Lookup) (defaults : Members) : Lookup :=
  fun key => (g key).or (member? defaults key)

/-- It does not matter whether one of them is spelled out before. -/
theorem spelledOut_update {g : Lookup} {defaults : Members} {d : Json}
    (hdefault : member? defaults k = some d) (hk : g k = none) :
    Lookup.spelledOut (Function.update g k (some d)) defaults = g.spelledOut defaults := by
  funext key
  rw [Lookup.spelledOut, Lookup.spelledOut, Function.update_apply]
  split
  · next heq => rw [heq, hk, hdefault, Option.some_or, Option.none_or]
  · rfl

/-- A field is read as if it were spelled out, if its default is what is read then. -/
theorem withDefault_or {default : α} {read : Json → Option α} {d : Json}
    (hd : read d = some default) (field : Option Json) :
    withDefault default read (field.or (some d)) = withDefault default read field := by
  cases field with
  | none => exact hd
  | some j => rfl

/-- Objects are read by what stands under each key, if each key stands there once and is declared.
Which keys are declared, and which fields have a default, does not change when a key is added; and a
field that is left out stands for its default. -/
structure ReadsRecord (read : Json → Option α) (declared : Lookup → List String)
    (defaults : Lookup → Members) (holds : Lookup → α → Prop) : Prop where
  read_iff (ms : Members) (a : α) : read (.object ms) = some a
    ↔ (keys ms).Nodup ∧ (∀ key ∈ keys ms, key ∈ declared (member? ms)) ∧ holds (member? ms) a
  declared_update {g : Lookup} {a : α} {k : String} (j : Json) : holds g a → g k = none →
    declared (Function.update g k (some j)) = declared g
  declared_of_default {g : Lookup} {a : α} {k : String} {d : Json} : holds g a →
    member? (defaults g) k = some d → k ∈ declared g
  holds_update {g : Lookup} {a : α} {k : String} {d : Json} : holds g a →
    member? (defaults g) k = some d → g k = none → holds (Function.update g k (some d)) a

namespace ReadsRecord

variable {read : Json → Option α} {declared : Lookup → List String} {defaults : Lookup → Members}
  {holds : Lookup → α → Prop} {a : α}

theorem reordered (h : ReadsRecord read declared defaults holds)
    (hread : read (.object ms) = some a) (hperm : ms'.Perm ms) :
    read (.object ms') = some a := by
  obtain ⟨hnodup, hdeclared, hholds⟩ := (h.read_iff ms a).1 hread
  have hkeys : (keys ms').Perm (keys ms) := hperm.map _
  refine (h.read_iff ms' a).2 ⟨hkeys.nodup_iff.2 hnodup, fun key hkey => ?_, ?_⟩
  · rw [member?_perm hperm hnodup]
    exact hdeclared key (hkeys.mem_iff.1 hkey)
  · rwa [member?_perm hperm hnodup]

/-- An object that is written another way is read as the same. -/
theorem respelled (h : ReadsRecord read declared defaults holds)
    (hread : read (.object ms) = some a) (hms : Respelled (defaults (member? ms)) ms ms') :
    read (.object ms') = some a := by
  cases hms with
  | reordered hperm => exact h.reordered hread hperm
  | spelledOut k d hdefault hk hperm =>
    obtain ⟨hnodup, hdeclared, hholds⟩ := (h.read_iff ms a).1 hread
    have hnone : member? ms k = none := member?_eq_none_iff.2 hk
    have hnodup' : (keys ((k, d) :: ms)).Nodup := List.nodup_cons.2 ⟨hk, hnodup⟩
    refine h.reordered ((h.read_iff _ a).2 ⟨hnodup', fun key hkey => ?_, ?_⟩) hperm
    · rw [member?_cons_eq_update, h.declared_update d hholds hnone]
      rcases List.mem_cons.1 hkey with rfl | hkey
      · exact h.declared_of_default hholds hdefault
      · exact hdeclared key hkey
    · rw [member?_cons_eq_update]
      exact h.holds_update hholds hdefault hnone

/-- A member too many is refused. -/
theorem spoiled (h : ReadsRecord read declared defaults holds)
    (hread : read (.object ms) = some a) (hms : Spoiled (declared (member? ms)) ms ms') :
    read (.object ms') = none := by
  obtain ⟨hnodup, hdeclared, hholds⟩ := (h.read_iff ms a).1 hread
  -- a member more, if it is read, has a new key that is declared
  have hadded : ∀ k j b, read (.object ((k, j) :: ms)) = some b →
      k ∉ keys ms ∧ k ∈ declared (member? ms) := by
    intro k j b hb
    obtain ⟨hnodup', hdeclared', -⟩ := (h.read_iff _ b).1 hb
    have hk : k ∉ keys ms := (List.nodup_cons.1 hnodup').1
    have hin := hdeclared' k List.mem_cons_self
    rw [member?_cons_eq_update, h.declared_update j hholds (member?_eq_none_iff.2 hk)] at hin
    exact ⟨hk, hin⟩
  rw [Option.eq_none_iff_forall_ne_some]
  intro b hb
  cases hms with
  | undeclared k j hk hperm => exact hk (hadded k j b (h.reordered hb hperm.symm)).2
  | repeated k j hk hperm => exact (hadded k j b (h.reordered hb hperm.symm)).1 hk

end ReadsRecord

/-- A reader that makes something of the declared fields, whichever key they stand under, reads a
record. -/
theorem readsRecord_of_fields {read : Json → Option α} {build : List (Option Json) → Option α}
    {defaults : Members}
    (hread : ∀ ms, read (.object ms) = (memberFields? names .refused ms).bind build)
    (hdefaults : ∀ m ∈ defaults, m.1 ∈ names)
    (hbuild : ∀ g : Lookup, build (names.map (g.spelledOut defaults)) = build (names.map g)) :
    ReadsRecord read (fun _ => names) (fun _ => defaults)
      fun g a => build (names.map g) = some a where
  read_iff ms a := by
    rw [hread, Option.bind_eq_some_iff]
    constructor
    · rintro ⟨fields, hfields, ha⟩
      obtain ⟨hnodup, hdeclared, rfl⟩ := memberFields?_eq_some_iff.1 hfields
      exact ⟨hnodup, hdeclared, ha⟩
    · rintro ⟨hnodup, hdeclared, ha⟩
      exact ⟨_, memberFields?_eq_some_iff.2 ⟨hnodup, hdeclared, rfl⟩, ha⟩
  declared_update _ _ _ := rfl
  declared_of_default _ hdefault := hdefaults _ (mem_of_member? hdefault)
  holds_update ha hdefault hnone := by
    rw [← hbuild, spelledOut_update hdefault hnone, hbuild, ha]

/-! ## Parts that are read on their own -/

/-- The whole is read by reading the part on its own. -/
def ReadsThrough (whole : Json → Option α) (part : Json → Option β) (fill : Json → Json) : Prop :=
  ∀ j a, whole (fill j) = some a → ∃ put : β → α, ∀ j', whole (fill j') = (part j').map put

theorem ReadsThrough.refl (read : Json → Option α) : ReadsThrough read read id :=
  fun _ _ _ => ⟨id, fun _ => Option.map_id'.symm⟩

theorem ReadsThrough.trans {γ : Type} {whole : Json → Option α} {middle : Json → Option β}
    {part : Json → Option γ} {fill fill' : Json → Json} (h : ReadsThrough whole middle fill)
    (h' : ReadsThrough middle part fill') : ReadsThrough whole part (fill ∘ fill') := by
  intro j a hj
  obtain ⟨put, hput⟩ := h (fill' j) a hj
  obtain ⟨b, hb, -⟩ := Option.map_eq_some_iff.1 ((hput (fill' j)).symm.trans hj)
  obtain ⟨put', hput'⟩ := h' j b hb
  refine ⟨put ∘ put', fun j' => ?_⟩
  rw [Function.comp_apply, hput, hput', Option.map_map]

namespace ReadsThrough

variable {whole : Json → Option α} {part : Json → Option β} {fill : Json → Json}
  {declared : Lookup → List String} {defaults : Lookup → Members} {holds : Lookup → β → Prop}
  {a : α}

/-- The part is read if the whole is. -/
theorem exists_part (h : ReadsThrough whole part fill) (ha : whole (fill j) = some a) :
    ∃ b, part j = some b ∧ ∀ j', (part j' = some b → whole (fill j') = some a)
      ∧ (part j' = none → whole (fill j') = none) := by
  obtain ⟨put, hput⟩ := h j a ha
  obtain ⟨b, hb, rfl⟩ := Option.map_eq_some_iff.1 ((hput j).symm.trans ha)
  exact ⟨b, hb, fun j' => ⟨fun hj' => by rw [hput, hj', Option.map_some],
    fun hj' => by rw [hput, hj', Option.map_none]⟩⟩

theorem keys_declared (h : ReadsThrough whole part fill)
    (hpart : ReadsRecord part declared defaults holds) (ha : whole (fill (.object ms)) = some a) :
    (keys ms).Nodup ∧ ∀ key ∈ keys ms, key ∈ declared (member? ms) := by
  obtain ⟨b, hb, -⟩ := h.exists_part ha
  obtain ⟨hnodup, hdeclared, -⟩ := (hpart.read_iff ms b).1 hb
  exact ⟨hnodup, hdeclared⟩

theorem respelled (h : ReadsThrough whole part fill)
    (hpart : ReadsRecord part declared defaults holds) (ha : whole (fill (.object ms)) = some a)
    (hms : Respelled (defaults (member? ms)) ms ms') : whole (fill (.object ms')) = some a := by
  obtain ⟨b, hb, hwhole⟩ := h.exists_part ha
  exact (hwhole _).1 (hpart.respelled hb hms)

theorem spoiled (h : ReadsThrough whole part fill)
    (hpart : ReadsRecord part declared defaults holds) (ha : whole (fill (.object ms)) = some a)
    (hms : Spoiled (declared (member? ms)) ms ms') : whole (fill (.object ms')) = none := by
  obtain ⟨b, hb, hwhole⟩ := h.exists_part ha
  exact (hwhole _).2 (hpart.spoiled hb hms)

end ReadsThrough

/-- Of a list that is read item by item each item is read on its own. -/
theorem mapM_middle {f : Json → Option β} {before after : List Json} {bs : List β}
    (h : (before ++ j :: after).mapM f = some bs) :
    ∃ put : β → List β, ∀ j', (before ++ j' :: after).mapM f = (f j').map put := by
  rw [List.mapM_append, List.mapM_cons] at h
  cases hbefore : before.mapM f with
  | none =>
    rw [hbefore] at h
    cases h
  | some left =>
    cases hafter : after.mapM f with
    | none =>
      rw [hbefore, hafter] at h
      cases hj : f j <;> simp [hj] at h
    | some right =>
      refine ⟨fun b => left ++ b :: right, fun j' => ?_⟩
      rw [List.mapM_append, List.mapM_cons, hbefore, hafter]
      cases f j' <;> rfl

/-- If the declared fields are found, they are found with any other value under one of the keys. -/
theorem memberFields?_replace {before after : Members} {fields : List (Option Json)}
    (h : memberFields? names .refused (before ++ (k, j) :: after) = some fields) :
    ∃ g : Lookup, g k = some j ∧ names.map g = fields ∧
      ∀ j', memberFields? names .refused (before ++ (k, j') :: after)
        = some (names.map (Function.update g k (some j'))) := by
  obtain ⟨hnodup, hdeclared, rfl⟩ := memberFields?_eq_some_iff.1 h
  have hkeys : ∀ j', keys (before ++ (k, j') :: after) = keys (before ++ (k, j) :: after) :=
    fun j' => by simp [keys]
  have hlookup : ∀ j', member? (before ++ (k, j') :: after)
      = Function.update (member? (before ++ after)) k (some j') := by
    intro j'
    rw [← member?_cons_eq_update, member?_perm List.perm_middle.symm (by rwa [hkeys])]
  refine ⟨_, by rw [hlookup, Function.update_self], rfl, fun j' => ?_⟩
  rw [hlookup j, Function.update_idem, ← hlookup]
  exact memberFields?_eq_some_iff.2 ⟨by rwa [hkeys], by rwa [hkeys], rfl⟩

/-- What stands around an item of the list under a key of an object. -/
structure Around where
  before : Members
  itemsBefore : List Json
  itemsAfter : List Json
  after : Members

/-- The object with an item in the place. -/
def Around.fill (c : Around) (key : String) (j : Json) : Json :=
  .object (c.before ++ (key, .array (c.itemsBefore ++ j :: c.itemsAfter)) :: c.after)

/-- A record that reads a list item by item reads each item on its own. -/
theorem readsThrough_fill {read : Json → Option α} {part : Json → Option β}
    {build : List (Option Json) → Option α} {key : String}
    (hread : ∀ ms, read (.object ms) = (memberFields? names .refused ms).bind build)
    (hbuild : ∀ (g : Lookup) items a, g key = some (.array items) → build (names.map g) = some a →
      ∃ put : List β → α, ∀ items', build (names.map (Function.update g key
        (some (.array items')))) = (items'.mapM part).map put) (c : Around) :
    ReadsThrough read part (c.fill key) := by
  intro j a hj
  have hfill : ∀ j', read (c.fill key j') = (memberFields? names .refused (c.before
      ++ (key, .array (c.itemsBefore ++ j' :: c.itemsAfter)) :: c.after)).bind build :=
    fun j' => hread _
  obtain ⟨fields, hfields, ha⟩ := Option.bind_eq_some_iff.1 ((hfill j).symm.trans hj)
  obtain ⟨g, hkey, rfl, hreplace⟩ := memberFields?_replace hfields
  obtain ⟨put, hput⟩ := hbuild g _ a hkey ha
  have hwhole : ∀ j', read (c.fill key j')
      = ((c.itemsBefore ++ j' :: c.itemsAfter).mapM part).map put := by
    intro j'
    rw [hfill, hreplace, Option.bind_some, hput]
  obtain ⟨items, hitems, -⟩ := Option.map_eq_some_iff.1 ((hwhole j).symm.trans hj)
  obtain ⟨put', hput'⟩ := mapM_middle hitems
  refine ⟨put ∘ put', fun j' => ?_⟩
  rw [hwhole, hput', Option.map_map]

end Chronicle.Json
