import Chronicle.Report
import Chronicle.Proofs.Hiding
import Chronicle.Proofs.Log.Agreement

/-!
# A reader is only asked about the labels in the log

The labels that occur in a log are those of its records, those of the properties that they are of,
and those that the element is given.  Whatever is read, the reader is asked about no other label,
and about the empty one not even when it occurs.  So readers who are granted the same of these
labels cannot be told apart: they get the same answers, and the same is counted.

* `Property.fold_congr_reader`, `Log.foldEach_congr_reader` : properties;
* `HistoryScope.admitted_congr_reader` : histories;
* `Log.facts_congr_reader`, `Element.isPresent_congr_reader` : the element;
* `Session.readers_alike` : all reads of a session and of the table that it belongs to.
-/

namespace Chronicle

universe u

variable {A B : Reader}

/-! ## Labels -/

/-- The labels that occur in the record: its own, the one that it gives the element, and that of the
property that it is of. -/
def Mutation.labels (m : Mutation) : List Visibility :=
  m.visibility :: (m.relabel?.toList ++ m.property?.toList.map (·.identity.visibility))

/-- The reader who differs from `r` at most in whether they are granted the empty label. -/
def Reader.withEmpty (r : Reader) (granted : Bool) : Reader :=
  ⟨fun l => if l = .empty then granted else r.grants l⟩

/-- A record that hides or unhides the element under a label carries it. -/
theorem Mutation.visibility_of_hiding? {m : Mutation} {label : Visibility} {b : Bool}
    (h : m.hiding? label = some b) : m.visibility = label := by
  unfold hiding? at h
  split at h
  · next ts v =>
    rw [Option.ite_none_right_eq_some] at h
    exact h.1.symm
  · next ts v =>
    rw [Option.ite_none_right_eq_some] at h
    exact h.1.symm
  · cases h

namespace Log

variable {log : Log}

/-- The labels that occur in the log. -/
def labels (log : Log) : List Visibility := log.entries.flatMap Mutation.labels

/-- Of the labels in the log, the empty one apart, both readers are granted the same. -/
def GrantsAlike (log : Log) (A B : Reader) : Prop :=
  ∀ l ∈ log.labels, l ≠ .empty → A.grants l = B.grants l

theorem visibility_mem_labels {m : Mutation} (hm : m ∈ log.entries) :
    m.visibility ∈ log.labels :=
  List.mem_flatMap.2 ⟨m, hm, List.mem_cons_self⟩

theorem relabel_mem_labels {m : Mutation} {label : Visibility} (hm : m ∈ log.entries)
    (h : m.relabel? = some label) : label ∈ log.labels := by
  refine List.mem_flatMap.2 ⟨m, hm, ?_⟩
  simp [Mutation.labels, h]

/-- A label that hides the element is that of the record that hides it. -/
theorem mem_labels_of_mem_hiders {label : Visibility} (h : label ∈ log.hiders.keys) :
    label ∈ log.labels := by
  rw [OrderedMap.mem_keys_iff] at h
  have hlast : (log.said (Mutation.hiding? label)).getLast?.getD false = true :=
    (log.contains_hiders label).symm.trans h
  cases hsaid : (log.said (Mutation.hiding? label)).getLast? with
  | none =>
    rw [hsaid] at hlast
    cases hlast
  | some b =>
    obtain ⟨m, hm, htells⟩ := List.mem_filterMap.1 (List.mem_of_getLast? hsaid)
    rw [← Mutation.visibility_of_hiding? htells]
    exact visibility_mem_labels hm

namespace GrantsAlike

/-- The empty label needs no grant, so readers need not agree on it. -/
theorem canRead_eq (h : log.GrantsAlike A B) {l : Visibility} (hl : l ∈ log.labels) :
    A.canRead l = B.canRead l := by
  rw [Reader.canRead, Reader.canRead]
  by_cases he : l = .empty
  · rw [he]
    rfl
  · rw [h l hl he]

theorem canRead_mutation (h : log.GrantsAlike A B) {m : Mutation} (hm : m ∈ log.entries) :
    A.canRead m.visibility = B.canRead m.visibility :=
  h.canRead_eq (visibility_mem_labels hm)

theorem canRead_record (h : log.GrantsAlike A B) {r : PropertyRecord}
    (hr : r ∈ log.propertyRecords) : A.canRead r.visibility = B.canRead r.visibility :=
  h.canRead_mutation (mem_propertyRecords_iff.1 hr)

end GrantsAlike

end Log

/-! ## Properties -/

namespace Fold

/-- A reader is asked only about the label of the record. -/
theorem step_congr_reader {r : PropertyRecord} (h : A.canRead r.visibility = B.canRead r.visibility)
    (f : Fold) : f.step A r = f.step B r := by
  rw [step, step, noted, noted, countsForTime, countsForTime, h]

/-- In the end a reader is asked about the labels that hide the property. -/
theorem finish_congr_reader {f : Fold} (h : ∀ l ∈ f.hiders.keys, A.canRead l = B.canRead l)
    (hints : FetchHints) : f.finish hints A = f.finish hints B := by
  have hhiders : f.hiders.filterKeys A.canRead = f.hiders.filterKeys B.canRead := by
    refine OrderedMap.ext_keys fun l => ?_
    rw [OrderedMap.keys_filterKeys, OrderedMap.keys_filterKeys, List.filter_congr h]
  rw [finish, finish, hhiders]

end Fold

/-- Records make the same property for readers who are granted the same of their labels. -/
theorem Property.fold_congr_reader {records : List PropertyRecord}
    (h : ∀ r ∈ records, A.canRead r.visibility = B.canRead r.visibility) (hints : FetchHints) :
    Property.fold hints A records = Property.fold hints B records := by
  have hrun : records.foldl (Fold.step A) Fold.start = records.foldl (Fold.step B) Fold.start :=
    List.foldl_ext _ _ _ fun f r hr => Fold.step_congr_reader (h r hr) f
  rw [fold, fold, ← hrun]
  refine Fold.finish_congr_reader (fun l hl => ?_) hints
  -- a label that hides the property is that of the record that hides under it
  obtain ⟨r, hlast, he⟩ := netHiding_iff.1 (((Fold.summarizes_run A records).hiders l).1 hl)
  have hlabel : r.visibility = l := by
    rw [PropertyRecord.visibility, he]
  rw [← hlabel]
  exact h r (List.mem_filter.1 (List.mem_of_getLast? hlast)).1

namespace Log

variable {log : Log} {hints : FetchHints} {asOf : Option Timestamp}

theorem recordsFor_congr_reader (h : log.GrantsAlike A B) (f : PropertyFilter) :
    log.recordsFor ⟨hints, asOf, A⟩ f = log.recordsFor ⟨hints, asOf, B⟩ f := by
  refine List.filter_congr fun r hr => ?_
  rw [View.folds, View.folds, h.canRead_record hr]
  rfl

/-- The outcomes are the same, and so is how many there are. -/
theorem foldEach_congr_reader (h : log.GrantsAlike A B) (f : PropertyFilter) :
    log.foldEach ⟨hints, asOf, A⟩ f = log.foldEach ⟨hints, asOf, B⟩ f := by
  rw [foldEach, foldEach, recordsFor_congr_reader h]
  refine List.map_congr_left fun i _ => Property.fold_congr_reader (fun r hr => ?_) hints
  exact h.canRead_record (List.mem_filter.1 (List.mem_filter.1 hr).1).1

theorem properties_congr_reader (h : log.GrantsAlike A B) (f : PropertyFilter) :
    log.properties ⟨hints, asOf, A⟩ f = log.properties ⟨hints, asOf, B⟩ f := by
  rw [properties, properties, foldEach_congr_reader h]

end Log

/-! ## Histories -/

/-- A reader is asked only about the labels of the records. -/
theorem HistoryScope.admitted_congr_reader {records : List PropertyRecord}
    (h : ∀ r ∈ records, A.canRead r.visibility = B.canRead r.visibility) (range : TimeRange)
    (marker : String) :
    admitted ⟨range, A, marker⟩ (records.map PropertyRecord.guarded)
      = admitted ⟨range, B, marker⟩ (records.map PropertyRecord.guarded) := by
  rw [admitted_guarded, admitted_guarded]
  refine List.filter_congr fun r hr => ?_
  show (_ && A.canRead r.visibility && _) = (_ && B.canRead r.visibility && _)
  rw [h r hr]
  rfl

namespace Log

variable {log : Log}

theorem admitted_congr_reader (h : log.GrantsAlike A B) (range : TimeRange) (marker : String)
    (f : PropertyFilter) :
    HistoryScope.admitted ⟨range, A, marker⟩ ((log.recordsOf f).map PropertyRecord.guarded)
      = HistoryScope.admitted ⟨range, B, marker⟩
          ((log.recordsOf f).map PropertyRecord.guarded) :=
  HistoryScope.admitted_congr_reader
    (fun _ hr => h.canRead_record (List.mem_filter.1 hr).1) range marker

theorem history_congr_reader (h : log.GrantsAlike A B) (range : TimeRange) (marker : String)
    (f : PropertyFilter) (fetch : Load) :
    log.history ⟨range, A, marker⟩ f fetch = log.history ⟨range, B, marker⟩ f fetch := by
  rw [history, history, HistoryScope.history, HistoryScope.history, HistoryScope.reconstruct,
    HistoryScope.reconstruct, admitted_congr_reader h]

theorem requests_congr_reader (h : log.GrantsAlike A B) (range : TimeRange) (marker : String)
    (f : PropertyFilter) :
    HistoryScope.requests ⟨range, A, marker⟩ (log.recordsOf f)
      = HistoryScope.requests ⟨range, B, marker⟩ (log.recordsOf f) := by
  rw [HistoryScope.requests, HistoryScope.requests, admitted_congr_reader h]

/-! ## The element -/

theorem said_congr_reader {β : Type u} (h : log.GrantsAlike A B) (asOf : Option Timestamp)
    (tells : Mutation → Option β) :
    log.said (Mutation.told asOf (Mutation.openTo A tells))
      = log.said (Mutation.told asOf (Mutation.openTo B tells)) := by
  refine List.filterMap_congr fun m hm => ?_
  rw [Mutation.told, Mutation.told, Mutation.openTo, Mutation.openTo, h.canRead_mutation hm]

theorem isDeleted_congr_reader (h : log.GrantsAlike A B) (asOf : Option Timestamp) :
    log.isDeleted asOf A = log.isDeleted asOf B := by
  rw [isDeleted_eq_said, isDeleted_eq_said, said_congr_reader h]

theorem facts_congr_reader (h : log.GrantsAlike A B) (hints : FetchHints)
    (asOf : Option Timestamp) : log.facts ⟨hints, asOf, A⟩ = log.facts ⟨hints, asOf, B⟩ := by
  apply ElementFacts.ext
  · rw [facts_visibility, facts_visibility]
  · rw [facts_timestamp, facts_timestamp, said_congr_reader h]
  · rw [facts_edgeLabel, facts_edgeLabel, said_congr_reader h]
  · rw [facts_conceptType, facts_conceptType, said_congr_reader h]

theorem readable_congr_reader (h : log.GrantsAlike A B) (includeHidden : Bool)
    (asOf : Option Timestamp) :
    log.readable includeHidden asOf A = log.readable includeHidden asOf B := by
  refine List.filter_congr fun m hm => ?_
  rw [h.canRead_mutation hm]

theorem isHidden_congr_reader (h : log.GrantsAlike A B) : log.isHidden A = log.isHidden B := by
  rw [isHidden, isHidden, Bool.eq_iff_iff, List.any_eq_true, List.any_eq_true]
  refine exists_congr fun l => and_congr_right fun hl => ?_
  rw [h.canRead_eq (mem_labels_of_mem_hiders hl)]

/-- The element's label is empty or was given to it by a record. -/
theorem isReadable_congr_reader (h : log.GrantsAlike A B) :
    log.isReadable A = log.isReadable B := by
  rw [isReadable, isReadable, visibility_eq_said]
  cases hsaid : (log.said Mutation.relabel?).getLast? with
  | none => rfl
  | some label =>
    obtain ⟨m, hm, hlabel⟩ := List.mem_filterMap.1 (List.mem_of_getLast? hsaid)
    exact h.canRead_eq (relabel_mem_labels hm hlabel)

end Log

namespace Element

variable {e : Element}

theorem isPresent_congr_reader (h : e.log.GrantsAlike A B) (hints : FetchHints)
    (asOf : Option Timestamp) : e.isPresent ⟨hints, asOf, A⟩ = e.isPresent ⟨hints, asOf, B⟩ := by
  show (!e.isBeforeStart ⟨hints, asOf, A⟩ && !e.log.isDeleted asOf A)
    = (!e.isBeforeStart ⟨hints, asOf, B⟩ && !e.log.isDeleted asOf B)
  rw [Log.isDeleted_congr_reader h]
  rfl

theorem isVisible_congr_reader (h : e.log.GrantsAlike A B) (hints : FetchHints)
    (asOf : Option Timestamp) : e.isVisible ⟨hints, asOf, A⟩ = e.isVisible ⟨hints, asOf, B⟩ := by
  rw [isVisible, isVisible, Log.isReadable_congr_reader h, Log.isHidden_congr_reader h]

theorem state_congr_reader (h : e.log.GrantsAlike A B) (hints : FetchHints)
    (asOf : Option Timestamp) (fetch : Load) :
    e.state ⟨hints, asOf, A⟩ fetch = e.state ⟨hints, asOf, B⟩ fetch := by
  rw [state, state, Log.allProperties, Log.allProperties, Log.properties_congr_reader h,
    Log.facts_congr_reader h]

theorem status_congr_reader (h : e.log.GrantsAlike A B) (asOf : Option Timestamp) :
    e.status asOf A = e.status asOf B := by
  rw [status, status, Log.isDeleted_congr_reader h, Log.isHidden_congr_reader h,
    Log.readable_congr_reader h]

/-- A materializer that makes the same of the element's state for both readers finishes the
same element. -/
theorem materialize_congr_reader {α : Type} (h : e.log.GrantsAlike A B) {m : Materializer α}
    {hints : FetchHints} {asOf : Option Timestamp} {fetch : Load}
    (hm : ∀ σ, e.state ⟨hints, asOf, A⟩ fetch = .ok σ →
      m σ ⟨hints, asOf, A⟩ = m σ ⟨hints, asOf, B⟩) :
    e.materialize m ⟨hints, asOf, A⟩ fetch = e.materialize m ⟨hints, asOf, B⟩ fetch := by
  rw [materialize, materialize, isPresent_congr_reader h, ← state_congr_reader h]
  cases hstate : e.state ⟨hints, asOf, A⟩ fetch with
  | error cause => rfl
  | ok σ =>
    show (if _ then (do let a ← m σ ⟨hints, asOf, A⟩; return some a) else return none)
      = (if _ then (do let a ← m σ ⟨hints, asOf, B⟩; return some a) else return none)
    rw [hm σ hstate]

end Element

/-! ## All reads -/

namespace Session

variable {s : Session} {hints : FetchHints} {asOf : Option Timestamp}

/-- The readers get the same finished element from the session and from every table that it belongs
to, and the same is counted. -/
def MakesAlike {α : Type} (s : Session) (m : Materializer α) (hints : FetchHints)
    (asOf : Option Timestamp) (A B : Reader) : Prop :=
  s.materialize m ⟨hints, asOf, A⟩ = s.materialize m ⟨hints, asOf, B⟩
    ∧ ∀ (t : Table) (id : String), t.session? id = some s →
        t.read id m ⟨hints, asOf, A⟩ = t.read id m ⟨hints, asOf, B⟩

/-- The session cannot tell the readers apart: whatever they ask, they get the same answer, and the
session is the same afterwards. -/
structure AnswersAlike (s : Session) (A B : Reader) : Prop where
  property (hints : FetchHints) (asOf : Option Timestamp) (i : PropertyIdentity) :
    s.property ⟨hints, asOf, A⟩ i = s.property ⟨hints, asOf, B⟩ i
  properties (hints : FetchHints) (asOf : Option Timestamp) (taken : Option Nat) :
    s.properties ⟨hints, asOf, A⟩ taken = s.properties ⟨hints, asOf, B⟩ taken
  history (f : PropertyFilter) (range : TimeRange) : s.history f range A = s.history f range B
  isDeleted (asOf : Option Timestamp) :
    s.element.log.isDeleted asOf A = s.element.log.isDeleted asOf B
  isHidden : s.element.log.isHidden A = s.element.log.isHidden B
  readable (includeHidden : Bool) (asOf : Option Timestamp) :
    s.element.log.readable includeHidden asOf A = s.element.log.readable includeHidden asOf B
  status (asOf : Option Timestamp) : s.element.status asOf A = s.element.status asOf B
  state (hints : FetchHints) (asOf : Option Timestamp) :
    s.state ⟨hints, asOf, A⟩ = s.state ⟨hints, asOf, B⟩
  vertex (hints : FetchHints) (asOf : Option Timestamp) :
    s.MakesAlike ElementState.toVertex hints asOf A B
  edge (hints : FetchHints) (asOf : Option Timestamp) :
    s.MakesAlike ElementState.toEdge hints asOf A B
  /-- Any other materializer is handed the reader too; it has to make the same of the state for
  both. -/
  made {α : Type} (m : Materializer α) (hints : FetchHints) (asOf : Option Timestamp) :
    (∀ σ, (s.state ⟨hints, asOf, A⟩).1 = .ok σ →
      m σ ⟨hints, asOf, A⟩ = m σ ⟨hints, asOf, B⟩) → s.MakesAlike m hints asOf A B

theorem noteFolds_congr_reader (h : s.element.log.GrantsAlike A B) (f : PropertyFilter) :
    s.noteFolds ⟨hints, asOf, A⟩ f = s.noteFolds ⟨hints, asOf, B⟩ f := by
  rw [noteFolds, noteFolds, Log.foldEach_congr_reader h]

theorem property_congr_reader (h : s.element.log.GrantsAlike A B) (i : PropertyIdentity) :
    s.property ⟨hints, asOf, A⟩ i = s.property ⟨hints, asOf, B⟩ i := by
  rw [property, property, Log.property, Log.property, Log.resolved, Log.resolved,
    noteFolds_congr_reader h, Log.properties_congr_reader h]

theorem properties_congr_reader (h : s.element.log.GrantsAlike A B) (taken : Option Nat) :
    s.properties ⟨hints, asOf, A⟩ taken = s.properties ⟨hints, asOf, B⟩ taken := by
  unfold properties
  rw [noteFolds_congr_reader h, Log.properties_congr_reader h]

theorem allProperties_congr_reader (h : s.element.log.GrantsAlike A B) :
    s.allProperties ⟨hints, asOf, A⟩ = s.allProperties ⟨hints, asOf, B⟩ := by
  rw [allProperties, allProperties, Log.allProperties, Log.allProperties, noteFolds_congr_reader h,
    Log.properties_congr_reader h]

theorem history_congr_reader (h : s.element.log.GrantsAlike A B) (f : PropertyFilter)
    (range : TimeRange) : s.history f range A = s.history f range B := by
  simp only [history, Log.history_congr_reader h, Log.requests_congr_reader h]

theorem state_congr_reader (h : s.element.log.GrantsAlike A B) :
    s.state ⟨hints, asOf, A⟩ = s.state ⟨hints, asOf, B⟩ := by
  rw [state, state, Element.state_congr_reader h, allProperties_congr_reader h]

theorem makesAlike (h : s.element.log.GrantsAlike A B) {α : Type} {m : Materializer α}
    (hm : ∀ σ, (s.state ⟨hints, asOf, A⟩).1 = .ok σ →
      m σ ⟨hints, asOf, A⟩ = m σ ⟨hints, asOf, B⟩) : s.MakesAlike m hints asOf A B := by
  have hmaterialize : s.materialize m ⟨hints, asOf, A⟩ = s.materialize m ⟨hints, asOf, B⟩ := by
    rw [materialize, materialize, Element.isPresent_congr_reader h, allProperties_congr_reader h,
      Element.materialize_congr_reader h hm]
  refine ⟨hmaterialize, fun t id hid => ?_⟩
  rw [Table.read, Table.read, hid]
  simp only [Element.isVisible_congr_reader h, hmaterialize]

/-- Readers who are granted the same of the labels in the log get the same answers. -/
theorem answersAlike (h : s.element.log.GrantsAlike A B) : s.AnswersAlike A B where
  property _ _ := property_congr_reader h
  properties _ _ := properties_congr_reader h
  history := history_congr_reader h
  isDeleted := Log.isDeleted_congr_reader h
  isHidden := Log.isHidden_congr_reader h
  readable := Log.readable_congr_reader h
  status := Element.status_congr_reader h
  state _ _ := state_congr_reader h
  vertex _ _ := makesAlike h fun _ _ => rfl
  edge _ _ := makesAlike h fun _ _ => rfl
  made _ _ _ := makesAlike h

/-- **A reader is only asked about the non-empty labels in the log.**  Readers who are granted the
same of these get the same answers, whatever they ask, and the same is counted.  So it does not
matter whether a reader is granted the empty label; and one who is granted everything reads like one
who holds the labels of the log. -/
theorem readers_alike (s : Session) :
    (∀ A B : Reader, s.element.log.GrantsAlike A B → s.AnswersAlike A B)
      ∧ (∀ A : Reader, s.AnswersAlike (A.withEmpty true) (A.withEmpty false))
      ∧ ∀ held : LabelSet, (∀ l ∈ s.element.log.labels, l ≠ .empty → held.contains l = true) →
          s.AnswersAlike .all (.holding held) := by
  refine ⟨fun A B h => answersAlike h, fun A => answersAlike fun l _ hne => ?_,
    fun held hheld => answersAlike fun l hl hne => (hheld l hl hne).symm⟩
  show (if l = .empty then true else A.grants l) = if l = .empty then false else A.grants l
  rw [if_neg hne, if_neg hne]

/-- A plan that the team may read, hidden under the auditor's label, a price that only the board may
read, and a deletion under the board's label. -/
def archive : Session where
  engine := ⟨.manual (.still 0), .nothing, none, "", 0⟩
  element := {
    id := ⟨"archive", by decide⟩
    kind := .vertex
    log := Log.empty.extend [
      Mutation.elementTimestamp 1,
      Mutation.alterVisibility 1 ⟨"team"⟩,
      .property ⟨2, ⟨"plan", "k", ⟨"team"⟩⟩, .setValue (.int 1) OrderedMap.empty⟩,
      .property ⟨3, ⟨"price", "k", ⟨"board"⟩⟩, .setValue (.int 2) OrderedMap.empty⟩,
      .property ⟨4, ⟨"plan", "k", ⟨"team"⟩⟩, .hide ⟨"auditor"⟩⟩,
      (Mutation.softDelete 5).withVisibility ⟨"board"⟩] }

/-- The reader who is granted the labels of the team and the auditor, and the empty one. -/
def insider : Reader := .holding (.ofLabels ["", "auditor", "team"])

/-- The reader who is granted the labels of the team, the auditor and visitors. -/
def visitor : Reader := .holding (.ofLabels ["auditor", "team", "visitor"])

/-- Two readers who differ on the empty label and on one that does not occur both find the plan, and
no deletion.  Who holds the three labels of the log finds the deletion, like one who is granted
everything. -/
theorem readers_alike_archive :
    let log := archive.element.log
    let view (reader : Reader) : View := ⟨.allIncludingHidden, none, reader⟩
    let held : LabelSet := .ofLabels ["auditor", "board", "team"]
    (log.GrantsAlike insider visitor
        ∧ insider.grants .empty = true ∧ visitor.grants .empty = false
        ∧ archive.properties (view insider) none = archive.properties (view visitor) none
        ∧ (archive.properties (view visitor) none).1 = 1
        ∧ log.isDeleted none insider = log.isDeleted none visitor
        ∧ log.isDeleted none visitor = false)
      ∧ (∀ l ∈ log.labels, l ≠ .empty → held.contains l = true)
      ∧ archive.materialize ElementState.toVertex (view .all)
        = archive.materialize ElementState.toVertex (view (.holding held))
      ∧ (archive.materialize ElementState.toVertex (view .all)).1 = .ok none
      ∧ (archive.materialize ElementState.toVertex (view visitor)).1 ≠ .ok none := by
  intro log view held
  obtain ⟨halike, -, hall⟩ := readers_alike archive
  have hagree : log.GrantsAlike insider visitor := by
    show ∀ l ∈ archive.element.log.labels, l ≠ .empty → insider.grants l = visitor.grants l
    decide
  have hheld : ∀ l ∈ log.labels, l ≠ .empty → held.contains l = true := by decide
  have hsame := halike insider visitor hagree
  refine ⟨⟨hagree, by decide, by decide, hsame.properties .allIncludingHidden none none, by decide,
    hsame.isDeleted none, by decide⟩, hheld, ((hall held hheld).vertex .allIncludingHidden none).1,
    by decide, by decide⟩

end Session

end Chronicle
