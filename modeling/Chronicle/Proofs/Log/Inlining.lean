import Chronicle.Proofs.Authorization
import Chronicle.Proofs.Log.Agreement
import Chronicle.Proofs.Log.Appends

/-!
# Values in the place of references

A log that refers to values and one that has those values in the place of the references differ in
nothing else.  No label, time or kind of record depends on a value, so every choice among the
records is the same on both; and a fold carries the value along without looking at it.  So reads
commute with putting the values in.

* `Log.inlined` : the log with the values in it;
* `Log.inlined_ofAppends` : it is made by appending the records with the values in them;
* `Property.fold_inlined`, `Log.properties_inlined` : the same properties come of it, with the
  values in them;
* `Log.admitted_inlined` : the same records make its histories;
* `Log.said_inlined` : it says the same of the element itself.
-/

namespace Chronicle

variable (content : ValueRef → PropValue)

/-! ## Putting values in -/

/-- The value, or what the reference stands for. -/
def PropValue.inlined : PropValue → PropValue
  | .ref r => content r
  | v => v

/-- The edit with what its reference stands for, if it sets a value by reference. -/
def PropertyEdit.inlined : PropertyEdit → PropertyEdit
  | .setValue v m => .setValue (v.inlined content) m
  | e => e

/-- The record with the value in it. -/
def PropertyRecord.inlined (r : PropertyRecord) : PropertyRecord :=
  { r with edit := r.edit.inlined content }

/-- The mutation with the value in it. -/
def Mutation.inlined : Mutation → Mutation
  | .element r => .element r
  | .property r => .property (r.inlined content)

/-- The property with the value in it. -/
def Property.inlined (p : Property) : Property := { p with value := p.value.inlined content }

/-- What is known of a property, with the value in it. -/
def Fold.inlined (f : Fold) : Fold := { f with value := f.value.map (PropValue.inlined content) }

/-! ## What is left alone -/

@[simp] theorem PropertyEdit.isToggle_inlined (e : PropertyEdit) :
    (e.inlined content).isToggle = e.isToggle := by
  cases e <;> rfl

@[simp] theorem PropertyRecord.visibility_inlined (r : PropertyRecord) :
    (r.inlined content).visibility = r.visibility := by
  obtain ⟨ts, i, edit⟩ := r
  cases edit <;> rfl

@[simp] theorem Mutation.timestamp_inlined (m : Mutation) :
    (m.inlined content).timestamp = m.timestamp := by
  cases m <;> rfl

@[simp] theorem Mutation.visibility_inlined (m : Mutation) :
    (m.inlined content).visibility = m.visibility := by
  cases m with
  | element r => rfl
  | property r => exact r.visibility_inlined content

/-! ## Folds -/

/-- A fold carries the value along. -/
theorem Fold.step_inlined (reader : Reader) (f : Fold) (r : PropertyRecord) :
    (f.inlined content).step reader (r.inlined content) = (f.step reader r).inlined content := by
  have hcounts : countsForTime reader (r.inlined content) = countsForTime reader r := by
    rw [countsForTime, countsForTime, PropertyRecord.visibility_inlined]
    exact congrArg (fun toggles => !toggles || _) (r.edit.isToggle_inlined content)
  have hnoted : (f.inlined content).noted reader (r.inlined content)
      = (f.noted reader r).inlined content := by
    rw [noted, noted, hcounts]
    rfl
  rw [step, step, hnoted]
  obtain ⟨ts, i, edit⟩ := r
  cases edit <;> rfl

theorem Fold.foldl_inlined (reader : Reader) (f : Fold) (records : List PropertyRecord) :
    (records.map (PropertyRecord.inlined content)).foldl (step reader) (f.inlined content)
      = (records.foldl (step reader) f).inlined content := by
  induction records generalizing f with
  | nil => rfl
  | cons r rest ih => rw [List.map_cons, List.foldl_cons, List.foldl_cons, step_inlined, ih]

theorem Fold.finish_inlined (f : Fold) (hints : FetchHints) (reader : Reader) :
    (f.inlined content).finish hints reader
      = (f.finish hints reader).map (Property.inlined content) := by
  obtain ⟨identity, timestamp, value, metadata, deleted, hiders⟩ := f
  rw [finish, finish, inlined]
  dsimp only
  split
  · rfl
  · split
    · rfl
    · cases identity <;> cases value <;> cases timestamp <;> rfl

theorem Property.fold_inlined (hints : FetchHints) (reader : Reader)
    (records : List PropertyRecord) :
    Property.fold hints reader (records.map (PropertyRecord.inlined content))
      = (Property.fold hints reader records).map (Property.inlined content) := by
  rw [fold, fold, ← Fold.finish_inlined, ← Fold.foldl_inlined]
  rfl

/-! ## Logs -/

namespace Log

/-- The log with the values in it. -/
def inlined (log : Log) : Log where
  entries := log.entries.map (Mutation.inlined content)
  sorted := by
    rw [List.pairwise_map]
    simpa only [Mutation.timestamp_inlined] using log.sorted

@[simp] theorem entries_inlined (log : Log) :
    (log.inlined content).entries = log.entries.map (Mutation.inlined content) := rfl

variable {content}

/-- Choosing among records by anything but their values can be done before or after. -/
theorem filter_map_inlined {p : PropertyRecord → Bool} (hp : ∀ r, p (r.inlined content) = p r)
    (records : List PropertyRecord) :
    (records.map (PropertyRecord.inlined content)).filter p
      = (records.filter p).map (PropertyRecord.inlined content) := by
  rw [List.filter_map]
  exact congrArg (List.map _) (List.filter_congr fun r _ => hp r)

variable (content)

theorem propertyRecords_inlined (log : Log) :
    (log.inlined content).propertyRecords
      = log.propertyRecords.map (PropertyRecord.inlined content) := by
  rw [propertyRecords, propertyRecords, entries_inlined, List.filterMap_map, List.map_filterMap]
  refine List.filterMap_congr fun m _ => ?_
  cases m <;> rfl

theorem recordsFor_inlined (log : Log) (v : View) (f : PropertyFilter) :
    (log.inlined content).recordsFor v f
      = (log.recordsFor v f).map (PropertyRecord.inlined content) := by
  rw [recordsFor, propertyRecords_inlined]
  refine filter_map_inlined (fun r => ?_) log.propertyRecords
  rw [View.folds, View.folds, PropertyRecord.visibility_inlined]
  exact congrArg (fun toggles => _ && (_ && (toggles || _))) (r.edit.isToggle_inlined content)

theorem identities_inlined (records : List PropertyRecord) :
    PropertyRecord.identities (records.map (PropertyRecord.inlined content))
      = PropertyRecord.identities records := by
  rw [PropertyRecord.identities, PropertyRecord.identities, List.map_map]
  rfl

/-- The same properties are there, with the values in them. -/
theorem properties_inlined (log : Log) (v : View) (f : PropertyFilter) :
    (log.inlined content).properties v f
      = (log.properties v f).map (Property.inlined content) := by
  rw [properties, properties, foldEach, foldEach, recordsFor_inlined, identities_inlined,
    List.filterMap_map, List.filterMap_map, List.map_filterMap]
  refine List.filterMap_congr fun i _ => ?_
  show Property.fold v.hints v.reader (List.filter _ _) = _
  rw [filter_map_inlined (fun _ => rfl), Property.fold_inlined]
  rfl

/-- The same records make a history. -/
theorem admitted_inlined (log : Log) (s : HistoryScope) (f : PropertyFilter) :
    s.admitted (((log.inlined content).recordsOf f).map PropertyRecord.guarded)
      = (s.admitted ((log.recordsOf f).map PropertyRecord.guarded)).map
          (PropertyRecord.inlined content) := by
  rw [HistoryScope.admitted_guarded, HistoryScope.admitted_guarded, recordsOf, recordsOf,
    propertyRecords_inlined, filter_map_inlined (fun _ => rfl), filter_map_inlined]
  intro r
  simp only [HistoryScope.admits, PropertyRecord.guarded, PropertyRecord.visibility_inlined]
  rfl

/-! ## Appending -/

theorem map_inlined_place (m : Mutation) (l : List Mutation) :
    (place m l).map (Mutation.inlined content)
      = place (m.inlined content) (l.map (Mutation.inlined content)) := by
  induction l with
  | nil => rfl
  | cons x rest ih =>
    rw [place, List.map_cons, place, Mutation.timestamp_inlined, Mutation.timestamp_inlined]
    split
    · rw [List.map_cons, ih]
    · rfl

theorem inlined_extend (log : Log) (batch : List Mutation) :
    (log.extend batch).inlined content
      = (log.inlined content).extend (batch.map (Mutation.inlined content)) := by
  induction batch generalizing log with
  | nil => rfl
  | cons m batch ih =>
    rw [extend_cons, ih, List.map_cons, extend_cons]
    congr 1
    apply ext_entries
    rw [entries_inlined, entries_insert, entries_insert, entries_inlined, map_inlined_place]

/-- The log with the values in it is made by appending the records with the values in them. -/
theorem inlined_ofAppends (batches : List (List Mutation)) :
    (ofAppends batches).inlined content
      = ofAppends (batches.map (List.map (Mutation.inlined content))) := by
  induction batches using List.reverseRecOn with
  | nil => rfl
  | append_singleton batches batch ih =>
    rw [List.map_append, List.map_singleton, ofAppends_append_singleton,
      ofAppends_append_singleton, inlined_extend, ih]

/-! ## The element itself -/

/-- What is said of the element itself is said by records that have no values. -/
theorem said_inlined {β : Type} (log : Log) {tells : Mutation → Option β}
    (h : Mutation.ElementOnly tells) : (log.inlined content).said tells = log.said tells := by
  rw [said, said, entries_inlined, List.filterMap_map]
  refine List.filterMap_congr fun m _ => ?_
  cases m with
  | element r => rfl
  | property r => exact (h _).trans (h r).symm

theorem firstTimestamp_inlined (log : Log) :
    (log.inlined content).firstTimestamp = log.firstTimestamp := by
  rw [firstTimestamp_eq_said, firstTimestamp_eq_said,
    said_inlined content log Mutation.elementOnly_touch?]

theorem isDeleted_inlined (log : Log) (asOf : Option Timestamp) (reader : Reader) :
    (log.inlined content).isDeleted asOf reader = log.isDeleted asOf reader := by
  rw [isDeleted_eq_said, isDeleted_eq_said,
    said_inlined content log ((Mutation.elementOnly_deletes?.openTo reader).told asOf)]

theorem facts_inlined (log : Log) (v : View) : (log.inlined content).facts v = log.facts v := by
  apply facts_congr
  · exact said_inlined content log (Mutation.elementOnly_relabel?.told v.asOf)
  · exact said_inlined content log ((Mutation.elementOnly_touch?.openTo v.reader).told v.asOf)
  · exact said_inlined content log ((Mutation.elementOnly_edgeLabel?.openTo v.reader).told v.asOf)
  · exact said_inlined content log ((Mutation.elementOnly_conceptType?.openTo v.reader).told v.asOf)

theorem hiders_inlined (log : Log) : (log.inlined content).hiders = log.hiders :=
  hiders_congr fun label => said_inlined content log (Mutation.elementOnly_hiding? label)

end Log

/-- The element with the values in its log. -/
def Element.inlined (e : Element) : Element := { e with log := e.log.inlined content }

theorem Element.isPresent_inlined (e : Element) (v : View) :
    (e.inlined content).isPresent v = e.isPresent v := by
  rw [inlined, isPresent, isPresent, isBeforeStart, isBeforeStart, Log.firstTimestamp_inlined,
    Log.isDeleted_inlined]

end Chronicle
