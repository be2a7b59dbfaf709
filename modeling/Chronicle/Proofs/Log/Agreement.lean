import Mathlib.Data.List.Basic
import Chronicle.Proofs.Log.Grouping
import Chronicle.Proofs.Log.Said

/-!
# Logs that read alike

What a read of properties gives depends on the records of each identity that its reader may read,
and on nothing else of the log: not on the records of other identities, and not on how the records
of different identities are mixed.  What a view shows of an element depends on a handful of reads;
two logs on which these agree show the same element.

* `properties_congr` : reads of properties agree when the records of every readable identity do;
* `Log.ShowsAs` : what a view needs of a log;
* `ShowsAs.state_eq`, `ShowsAs.materialize_eq` : logs that agree on it show the same.
-/

namespace Chronicle

attribute [ext] ElementFacts

namespace Mutation

/-- The record, if it is one of the property. -/
def recordOf? (i : PropertyIdentity) (m : Mutation) : Option PropertyRecord :=
  m.property?.filter fun r => r.identity == i

theorem eq_property_of_recordOf? {i : PropertyIdentity} {m : Mutation} {r : PropertyRecord}
    (h : m.recordOf? i = some r) : m = .property r ∧ r.identity = i := by
  rw [recordOf?, Option.filter_eq_some_iff] at h
  obtain ⟨hm, hi⟩ := h
  cases m with
  | element e => cases hm
  | property r' =>
    cases hm
    exact ⟨rfl, eq_of_beq hi⟩

end Mutation

/-! ## The records of one identity -/

namespace PropertyRecord

theorem mem_identities_iff_group {records : List PropertyRecord} {i : PropertyIdentity} :
    i ∈ identities records ↔ Log.group records i ≠ [] := by
  rw [mem_identities_iff]
  constructor
  · rintro ⟨r, hr, rfl⟩
    exact List.ne_nil_of_mem (List.mem_filter.2 ⟨hr, beq_self_eq_true _⟩)
  · intro hne
    obtain ⟨r, hr⟩ := List.exists_mem_of_ne_nil _ hne
    obtain ⟨hmem, hi⟩ := List.mem_filter.1 hr
    exact ⟨r, hmem, eq_of_beq hi⟩

/-- Which identities have records is for each of them a matter of its own records. -/
theorem filter_identities_congr {kept : PropertyIdentity → Bool} {R R' : List PropertyRecord}
    (h : ∀ i, kept i = true → Log.group R i = Log.group R' i) :
    (identities R).filter kept = (identities R').filter kept := by
  rw [identities, identities, ← OrderedMap.keys_filterKeys, ← OrderedMap.keys_filterKeys]
  refine congrArg OrderedMap.keys (OrderedMap.ext_keys fun i => ?_)
  rw [OrderedMap.keys_filterKeys, OrderedMap.keys_filterKeys, List.mem_filter, List.mem_filter]
  show i ∈ identities R ∧ kept i = true ↔ i ∈ identities R' ∧ kept i = true
  refine and_congr_left fun hi => ?_
  rw [mem_identities_iff_group, mem_identities_iff_group, h i hi]

end PropertyRecord

namespace Log

variable {v : View} {l l' : Log}

/-- The records of one identity are among the things that a log says. -/
theorem group_eq_said (log : Log) (i : PropertyIdentity) :
    group log.propertyRecords i = log.said (Mutation.recordOf? i) :=
  List.filter_filterMap

/-- When mutations are dropped, the records of properties among them are. -/
theorem propertyRecords_keep (log : Log) (p : Mutation → Bool) :
    (log.keep p).propertyRecords = log.propertyRecords.filter fun r => p (.property r) := by
  rw [propertyRecords, propertyRecords, List.filter_filterMap]
  refine List.filterMap_filter.trans (List.filterMap_congr fun m _ => ?_)
  cases m with
  | element r => exact ite_self none
  | property r => rfl

/-- A choice of one identity takes the records of that identity. -/
theorem recordsOf_only (log : Log) (i : PropertyIdentity) :
    log.recordsOf (.only i) = group log.propertyRecords i := by
  refine List.filter_congr fun r _ => ?_
  rw [Bool.eq_iff_iff, PropertyFilter.admits_only, beq_iff_eq]

theorem group_reached (log : Log) (asOf : Option Timestamp) (f : PropertyFilter)
    (i : PropertyIdentity) :
    group (log.reached asOf f) i
      = (group log.propertyRecords i).filter fun r =>
          f.admits r.identity && (TimeRange.upTo asOf).contains r.timestamp := by
  rw [group, reached, group, List.filter_filter, List.filter_filter]
  exact List.filter_congr fun r _ => Bool.and_comm _ _

/-- Reads of properties agree when the records of every readable identity do. -/
theorem properties_congr
    (h : ∀ i, v.reader.canRead i.visibility = true →
      group l.propertyRecords i = group l'.propertyRecords i) (f : PropertyFilter) :
    l.properties v f = l'.properties v f := by
  have hgroup : ∀ i, v.reader.canRead i.visibility = true →
      group (l.reached v.asOf f) i = group (l'.reached v.asOf f) i := by
    intro i hi
    rw [group_reached, group_reached, h i hi]
  rw [properties_eq, properties_eq, PropertyRecord.filter_identities_congr hgroup]
  refine List.filterMap_congr fun i hi => ?_
  rw [hgroup i (List.mem_filter.1 hi).2]

/-! ## Elements -/

/-- A scan gathers the same facts from logs that say the same of each of them. -/
theorem facts_congr
    (hlabel : l.said (Mutation.told v.asOf Mutation.relabel?)
      = l'.said (Mutation.told v.asOf Mutation.relabel?))
    (htouch : l.said (Mutation.told v.asOf (Mutation.openTo v.reader Mutation.touch?))
      = l'.said (Mutation.told v.asOf (Mutation.openTo v.reader Mutation.touch?)))
    (hedge : l.said (Mutation.told v.asOf (Mutation.openTo v.reader Mutation.edgeLabel?))
      = l'.said (Mutation.told v.asOf (Mutation.openTo v.reader Mutation.edgeLabel?)))
    (hconcept : l.said (Mutation.told v.asOf (Mutation.openTo v.reader Mutation.conceptType?))
      = l'.said (Mutation.told v.asOf (Mutation.openTo v.reader Mutation.conceptType?))) :
    l.facts v = l'.facts v := by
  apply ElementFacts.ext
  · rw [facts_visibility, facts_visibility, hlabel]
  · rw [facts_timestamp, facts_timestamp, htouch]
  · rw [facts_edgeLabel, facts_edgeLabel, hedge]
  · rw [facts_conceptType, facts_conceptType, hconcept]

/-- Logs that say the same of each label are hidden under the same labels. -/
theorem hiders_congr
    (h : ∀ label, l.said (Mutation.hiding? label) = l'.said (Mutation.hiding? label)) :
    l.hiders = l'.hiders := by
  refine OrderedMap.ext_keys fun label => ?_
  have hcontains : l.hiders.contains label = l'.hiders.contains label := by
    rw [contains_hiders, contains_hiders, h]
  rw [OrderedMap.mem_keys_iff, OrderedMap.mem_keys_iff]
  exact Bool.eq_iff_iff.1 hcontains

/-- In the view the log `l` shows an element as `l'` does. -/
structure ShowsAs (v : View) (l l' : Log) : Prop where
  firstTimestamp : l.firstTimestamp = l'.firstTimestamp
  isDeleted : l.isDeleted v.asOf v.reader = l'.isDeleted v.asOf v.reader
  facts : l.facts v = l'.facts v
  properties : l.properties v .any = l'.properties v .any
  hiders : l.hiders = l'.hiders

variable {id : ElementId} {kind : ElementKind}

theorem ShowsAs.state_eq (h : l.ShowsAs v l') (fetch : Load) :
    Element.state ⟨id, kind, l⟩ v fetch = Element.state ⟨id, kind, l'⟩ v fetch := by
  simp only [Element.state, allProperties]
  rw [h.properties, h.facts, h.firstTimestamp, h.hiders]

theorem ShowsAs.isPresent_eq (h : l.ShowsAs v l') :
    Element.isPresent ⟨id, kind, l⟩ v = Element.isPresent ⟨id, kind, l'⟩ v := by
  simp only [Element.isPresent, Element.isBeforeStart]
  rw [h.firstTimestamp, h.isDeleted]

theorem ShowsAs.materialize_eq {α : Type} (h : l.ShowsAs v l') (m : Materializer α)
    (fetch : Load) :
    Element.materialize ⟨id, kind, l⟩ m v fetch = Element.materialize ⟨id, kind, l'⟩ m v fetch := by
  rw [Element.materialize, Element.materialize, h.isPresent_eq, h.state_eq]

end Log

end Chronicle
