import Chronicle.Log.Properties
import Chronicle.Proofs.Property.Folding

/-!
# The groups of a read

A read gathers the records that bear on it by identity.  Records that hide or unhide are gathered
for every reader, so a reader's groups may be of properties that they cannot read at all; but these
groups fold to nothing.  A group of a property that the reader can read has all its records.  So a
read goes through the readable identities, and only folds depend on the reader.

* `identities_filter` : the identities that are left when records are dropped;
* `properties_eq` : a read as a run through the readable identities;
* `properties_only` : a read of one property.
-/

namespace Chronicle

namespace PropertyRecord

variable {records : List PropertyRecord} {i : PropertyIdentity}

theorem mem_identities_iff : i ∈ identities records ↔ ∃ r ∈ records, r.identity = i := by
  rw [identities, OrderedMap.ofList, OrderedMap.mem_keys_insertAll]
  constructor
  · rintro (⟨e, he, rfl⟩ | hmem)
    · obtain ⟨r, hr, rfl⟩ := List.mem_map.1 he
      exact ⟨r, hr, rfl⟩
    · cases hmem
  · rintro ⟨r, hr, rfl⟩
    exact Or.inl ⟨(r.identity, ()), List.mem_map.2 ⟨r, hr, rfl⟩, rfl⟩

/-- The identities that are left when records are dropped, in the same order. -/
theorem identities_filter (p : PropertyRecord → Bool) (records : List PropertyRecord) :
    identities (records.filter p)
      = (identities records).filter fun i => records.any fun r => p r && r.identity == i := by
  rw [identities, identities, ← OrderedMap.keys_filterKeys]
  refine congrArg OrderedMap.keys (OrderedMap.ext_keys fun i => ?_)
  rw [OrderedMap.keys_filterKeys, List.mem_filter]
  show i ∈ identities (records.filter p) ↔ i ∈ identities records ∧ _
  rw [mem_identities_iff, mem_identities_iff, List.any_eq_true]
  constructor
  · rintro ⟨r, hr, rfl⟩
    obtain ⟨hmem, hp⟩ := List.mem_filter.1 hr
    exact ⟨⟨r, hmem, rfl⟩, r, hmem, by simp [hp]⟩
  · rintro ⟨-, r, hr, hp⟩
    rw [Bool.and_eq_true] at hp
    exact ⟨r, List.mem_filter.2 ⟨hr, hp.1⟩, eq_of_beq hp.2⟩

/-- Records of one identity, if there are any, have no other. -/
theorem identities_eq_singleton {records : List PropertyRecord}
    {i : PropertyIdentity} (hne : records ≠ []) (h : ∀ r ∈ records, r.identity = i) :
    identities records = [i] := by
  have hmem : ∀ j, j ∈ identities records ↔ j ∈ [i] := by
    intro j
    rw [mem_identities_iff, List.mem_singleton]
    constructor
    · rintro ⟨r, hr, rfl⟩
      exact h r hr
    · rintro rfl
      obtain ⟨r, hr⟩ := List.exists_mem_of_ne_nil _ hne
      exact ⟨r, hr, h r hr⟩
  have hnodup : (identities records).Nodup := by
    refine (OrderedMap.keys_ascending _).imp fun {a b} hab heq => ?_
    rw [Std.compare_eq_iff_eq.2 heq] at hab
    cases hab
  exact List.perm_singleton.1
    ((List.perm_ext_iff_of_nodup hnodup (List.pairwise_singleton _ i)).2 hmem)

end PropertyRecord

/-- Records that only hide and unhide do not make a property. -/
theorem Property.fold_eq_none_of_toggles {records : List PropertyRecord}
    (h : ∀ r ∈ records, r.edit.isToggle = true) (hints : FetchHints) (reader : Reader) :
    Property.fold hints reader records = none := by
  rw [← Option.not_isSome_iff_eq_none, isSome_fold_iff]
  rintro ⟨⟨o, ho, hset⟩, -⟩
  obtain ⟨v, m, he⟩ := PropertyEdit.setsValue_iff.1 hset
  have htog := h o.item (item_mem_of_lastOccurrence? ho)
  rw [he] at htog
  cases htog

namespace Log

/-- The records of the properties that the filter admits, up to a moment. -/
def reached (log : Log) (asOf : Option Timestamp) (f : PropertyFilter) : List PropertyRecord :=
  log.propertyRecords.filter fun r =>
    f.admits r.identity && (TimeRange.upTo asOf).contains r.timestamp

/-- The records of one property. -/
def group (records : List PropertyRecord) (i : PropertyIdentity) : List PropertyRecord :=
  records.filter fun r => r.identity == i

/-- Whether a record of a readable moment bears on what the reader sees. -/
def gathers (reader : Reader) (r : PropertyRecord) : Bool :=
  r.edit.isToggle || reader.canRead r.visibility

variable {log : Log} {v : View} {f : PropertyFilter}

theorem recordsFor_eq (log : Log) (v : View) (f : PropertyFilter) :
    log.recordsFor v f
      = (log.reached v.asOf f).filter (gathers v.reader) := by
  rw [recordsFor, reached, List.filter_filter]
  refine List.filter_congr fun r _ => ?_
  rw [View.folds, View.reaches, gathers, Bool.and_comm, Bool.and_assoc, Bool.and_comm]
  grind

/-- Every record of a readable property is gathered. -/
theorem gathers_of_readable {reader : Reader} {r : PropertyRecord}
    (h : reader.canRead r.identity.visibility = true) : gathers reader r = true := by
  rw [gathers]
  cases htog : r.edit.isToggle with
  | true => rfl
  | false => rw [PropertyRecord.visibility_of_not_toggle htog, h, Bool.or_true]

/-- Of a property that is not readable only hiding and unhiding is gathered. -/
theorem isToggle_of_gathers {reader : Reader} {r : PropertyRecord}
    (h : reader.canRead r.identity.visibility = false) (hr : gathers reader r = true) :
    r.edit.isToggle = true := by
  cases htog : r.edit.isToggle with
  | true => rfl
  | false =>
    rw [gathers, htog, PropertyRecord.visibility_of_not_toggle htog, h] at hr
    cases hr

/-- What is gathered of a property is all of it if it is readable, and folds to nothing if not. -/
theorem fold_group_gathers (hints : FetchHints) (reader : Reader) (records : List PropertyRecord)
    (i : PropertyIdentity) :
    Property.fold hints reader (group (records.filter (gathers reader)) i)
      = if reader.canRead i.visibility then Property.fold hints reader (group records i)
        else none := by
  cases hi : reader.canRead i.visibility with
  | true =>
    have hgroup : group (records.filter (gathers reader)) i = group records i := by
      rw [group, group, List.filter_filter]
      refine List.filter_congr fun r _ => ?_
      cases hr : r.identity == i with
      | false => rfl
      | true =>
        rw [← eq_of_beq hr] at hi
        rw [Bool.true_and, gathers_of_readable hi]
    rw [hgroup, if_pos rfl]
  | false =>
    rw [if_neg (by simp)]
    refine Property.fold_eq_none_of_toggles (fun r hr => ?_) hints reader
    obtain ⟨hmem, hid⟩ := List.mem_filter.1 hr
    rw [← eq_of_beq hid] at hi
    exact isToggle_of_gathers hi (List.mem_filter.1 hmem).2

/-- A group without records folds to nothing, so it can be gone through or left out. -/
theorem fold_group_of_any (hints : FetchHints) (reader : Reader) (p : PropertyRecord → Bool)
    (records : List PropertyRecord) (i : PropertyIdentity) :
    (if records.any fun r => p r && r.identity == i then
        Property.fold hints reader (group (records.filter p) i) else none)
      = Property.fold hints reader (group (records.filter p) i) := by
  split
  · rfl
  · next hno =>
    have hnil : group (records.filter p) i = [] := by
      rw [group, List.filter_filter, List.filter_eq_nil_iff]
      intro r hr hboth
      rw [Bool.and_comm] at hboth
      exact hno (List.any_eq_true.2 ⟨r, hr, hboth⟩)
    rw [hnil, Property.fold_eq_none_of_toggles (by simp)]

/-- A read goes through the readable identities in order, and folds all records of each. -/
theorem properties_eq (log : Log) (v : View) (f : PropertyFilter) :
    log.properties v f
      = ((PropertyRecord.identities (log.reached v.asOf f)).filter
            fun i => v.reader.canRead i.visibility).filterMap
          fun i => Property.fold v.hints v.reader (group (log.reached v.asOf f) i) := by
  rw [properties, foldEach, List.filterMap_map, recordsFor_eq, PropertyRecord.identities_filter,
    List.filterMap_filter, List.filterMap_filter]
  -- going through all identities, not only the gathered ones, adds groups without records
  refine congrArg (fun g => List.filterMap g _) (funext fun i => ?_)
  rw [← fold_group_gathers]
  exact fold_group_of_any v.hints v.reader (gathers v.reader) (log.reached v.asOf f) i

theorem identity_of_mem_reached {asOf : Option Timestamp} {i : PropertyIdentity}
    {r : PropertyRecord} (h : r ∈ log.reached asOf (.only i)) : r.identity = i := by
  have hadmits := (List.mem_filter.1 h).2
  rw [Bool.and_eq_true] at hadmits
  exact PropertyFilter.admits_only.1 hadmits.1

/-- A read of one property folds its records, if the reader may read it. -/
theorem properties_only (log : Log) (v : View) (i : PropertyIdentity) :
    log.properties v (.only i)
      = if v.reader.canRead i.visibility then
          (Property.fold v.hints v.reader (log.reached v.asOf (.only i))).toList
        else [] := by
  have hi : ∀ r ∈ log.reached v.asOf (.only i), r.identity = i := fun r hr =>
    identity_of_mem_reached hr
  have hgroup : group (log.reached v.asOf (.only i)) i = log.reached v.asOf (.only i) :=
    List.filter_eq_self.2 fun r hr => beq_iff_eq.2 (hi r hr)
  rw [properties_eq]
  generalize log.reached v.asOf (.only i) = records at hi hgroup ⊢
  by_cases hne : records = []
  · rw [hne, Property.fold_eq_none_of_toggles (by simp), Option.toList_none, ite_self]
    rfl
  · rw [PropertyRecord.identities_eq_singleton hne hi]
    cases hread : v.reader.canRead i.visibility with
    | false => simp [hread]
    | true => cases hfold : Property.fold v.hints v.reader records <;> simp [hread, hgroup, hfold]

end Log

end Chronicle
