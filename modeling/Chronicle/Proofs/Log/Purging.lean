import Chronicle.Proofs.Log.Presence

/-!
# Purging a property

Purging a property drops all its records from the log: its values and deletions, its metadata, and
every hiding under whatever label.  Whatever is asked of anything else has the answer that it had
before, because no read looks at the records of a property that it is not about.

* `said_purge`, `recordsOf_purge` : what the rest of the log says is still said;
* `shown?_purge_self`, `shown?_purge_of_ne` : of the property nothing is shown, of others the same;
* `properties_purge` : a read lists what it listed, less the property;
* `alikeApart_purge` : so the log reads as before, apart from the property.
-/

namespace Chronicle

namespace Log

variable {log : Log} {v : View} {f : PropertyFilter} {i j : PropertyIdentity}

/-- The log without the records of a property. -/
def purge (log : Log) (i : PropertyIdentity) : Log := log.keep fun m => !m.isOf i

/-! ## The element -/

/-- What records of the element say is still said. -/
theorem said_purge {β : Type} {tells : Mutation → Option β} (h : Mutation.ElementOnly tells)
    (log : Log) (i : PropertyIdentity) : (log.purge i).said tells = log.said tells := by
  refine log.said_keep fun m b hm => ?_
  cases m with
  | element r => rfl
  | property r =>
    rw [h r] at hm
    cases hm

theorem facts_purge (log : Log) (v : View) (i : PropertyIdentity) :
    (log.purge i).facts v = log.facts v := by
  apply facts_congr
  · exact said_purge (Mutation.elementOnly_relabel?.told v.asOf) log i
  · exact said_purge ((Mutation.elementOnly_touch?.openTo v.reader).told v.asOf) log i
  · exact said_purge ((Mutation.elementOnly_edgeLabel?.openTo v.reader).told v.asOf) log i
  · exact said_purge ((Mutation.elementOnly_conceptType?.openTo v.reader).told v.asOf) log i

theorem hiders_purge (log : Log) (i : PropertyIdentity) : (log.purge i).hiders = log.hiders := by
  apply hiders_congr
  intro label
  exact said_purge (Mutation.elementOnly_hiding? label) log i

theorem isDeleted_purge (log : Log) (i : PropertyIdentity) (asOf : Option Timestamp)
    (reader : Reader) : (log.purge i).isDeleted asOf reader = log.isDeleted asOf reader := by
  rw [isDeleted_eq_said, isDeleted_eq_said,
    said_purge ((Mutation.elementOnly_deletes?.openTo reader).told asOf)]

/-! ## Properties -/

/-- A choice that leaves the property out has the records that it had. -/
theorem recordsOf_purge (log : Log) (hf : f.admits i = false) :
    (log.purge i).recordsOf f = log.recordsOf f := by
  rw [recordsOf, purge, propertyRecords_keep, List.filter_filter, recordsOf]
  refine List.filter_congr fun r _ => ?_
  show (f.admits r.identity && !(r.identity == i)) = f.admits r.identity
  cases hr : r.identity == i with
  | false => rw [Bool.not_false, Bool.and_true]
  | true => rw [eq_of_beq hr, hf, Bool.false_and]

/-- Of the property no record is left. -/
theorem recordsOf_purge_self (log : Log) (i : PropertyIdentity) :
    (log.purge i).recordsOf (.only i) = [] := by
  rw [recordsOf, purge, propertyRecords_keep, List.filter_filter, List.filter_eq_nil_iff]
  intro r _ hr
  rw [Bool.and_eq_true, PropertyFilter.admits_only] at hr
  obtain ⟨hid, hkept⟩ := hr
  have hof : (Mutation.property r).isOf i = true := beq_iff_eq.2 hid
  rw [hof] at hkept
  cases hkept

theorem reached_eq_filter_recordsOf (log : Log) (asOf : Option Timestamp) (f : PropertyFilter) :
    log.reached asOf f
      = (log.recordsOf f).filter fun r => (TimeRange.upTo asOf).contains r.timestamp := by
  rw [reached, recordsOf, List.filter_filter]
  exact List.filter_congr fun r _ => Bool.and_comm _ _

theorem admits_only_of_ne (h : j ≠ i) : (PropertyFilter.only j).admits i = false := by
  rw [← Bool.not_eq_true, PropertyFilter.admits_only]
  exact h.symm

/-- Of another property is shown what was shown. -/
theorem shown?_purge_of_ne (log : Log) (v : View) (h : j ≠ i) :
    (log.purge i).shown? v j = log.shown? v j := by
  rw [shown?, shown?, reached_eq_filter_recordsOf, reached_eq_filter_recordsOf,
    recordsOf_purge log (admits_only_of_ne h)]

/-- Of the property itself nothing is shown. -/
theorem shown?_purge_self (log : Log) (v : View) (i : PropertyIdentity) :
    (log.purge i).shown? v i = none := by
  rw [shown?, reached_eq_filter_recordsOf, recordsOf_purge_self, List.filter_nil,
    Property.fold_eq_none_of_toggles (by simp), ite_self]

/-- A read lists what it listed before, less the property. -/
theorem properties_purge (log : Log) (v : View) (f : PropertyFilter) (i : PropertyIdentity) :
    (log.purge i).properties v f = (log.properties v f).filter fun p => p.identity != i := by
  refine (properties_ascending _ v f).eq_of_mem_iff ((properties_ascending log v f).filter _)
    fun p => ?_
  rw [List.mem_filter, mem_properties_iff, mem_properties_iff, bne_iff_ne]
  by_cases hp : p.identity = i
  · rw [hp, shown?_purge_self]
    constructor
    · rintro ⟨-, hnone⟩
      cases hnone
    · rintro ⟨-, hne⟩
      exact absurd rfl hne
  · rw [shown?_purge_of_ne log v hp]
    exact ⟨fun hshown => ⟨hshown, hp⟩, fun ⟨hshown, _⟩ => hshown⟩

theorem property_purge_of_ne (log : Log) (v : View) (h : j ≠ i) (fetch : Load) :
    (log.purge i).property v j fetch = log.property v j fetch := by
  rw [property_eq_shown?, property_eq_shown?, shown?_purge_of_ne log v h]

theorem history_purge (log : Log) (s : HistoryScope) (hf : f.admits i = false) (fetch : Load) :
    (log.purge i).history s f fetch = log.history s f fetch := by
  rw [history, history, recordsOf_purge log hf]

/-! ## All reads -/

/-- What is asked of `l` is answered by `l'` as well, unless it is asked of the property. -/
structure AlikeApart (i : PropertyIdentity) (l l' : Log) : Prop where
  firstTimestamp : l'.firstTimestamp = l.firstTimestamp
  latestTimestamp : l'.latestTimestamp = l.latestTimestamp
  visibility : l'.visibility = l.visibility
  edgeLabel : l'.edgeLabel = l.edgeLabel
  conceptType : l'.conceptType = l.conceptType
  hiders : l'.hiders = l.hiders
  isDeleted (asOf : Option Timestamp) (reader : Reader) :
    l'.isDeleted asOf reader = l.isDeleted asOf reader
  facts (v : View) : l'.facts v = l.facts v
  property (v : View) (j : PropertyIdentity) (hj : j ≠ i) (fetch : Load) :
    l'.property v j fetch = l.property v j fetch
  properties (v : View) (f : PropertyFilter) :
    l'.properties v f = (l.properties v f).filter fun p => p.identity != i
  history (s : HistoryScope) (f : PropertyFilter) (hf : f.admits i = false) (fetch : Load) :
    l'.history s f fetch = l.history s f fetch

/-- A log reads as before when a property is purged, apart from that property. -/
theorem alikeApart_purge (log : Log) (i : PropertyIdentity) : log.AlikeApart i (log.purge i) where
  firstTimestamp := by
    rw [firstTimestamp_eq_said, firstTimestamp_eq_said, said_purge Mutation.elementOnly_touch?]
  latestTimestamp := by
    rw [latestTimestamp_eq_said, latestTimestamp_eq_said, said_purge Mutation.elementOnly_touch?]
  visibility := by
    rw [visibility_eq_said, visibility_eq_said, said_purge Mutation.elementOnly_relabel?]
  edgeLabel := by
    rw [edgeLabel_eq_said, edgeLabel_eq_said, said_purge Mutation.elementOnly_edgeLabel?]
  conceptType := by
    rw [conceptType_eq_said, conceptType_eq_said, said_purge Mutation.elementOnly_conceptType?]
  hiders := log.hiders_purge i
  isDeleted := log.isDeleted_purge i
  facts v := log.facts_purge v i
  property v _ hj fetch := log.property_purge_of_ne v hj fetch
  properties v f := log.properties_purge v f i
  history s _ hf fetch := log.history_purge s hf fetch

end Log

end Chronicle
