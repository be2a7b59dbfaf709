import Chronicle.Proofs.Log.Agreement
import Chronicle.Proofs.Log.Appends
import Chronicle.Proofs.Property.Narrowing

/-!
# Reads as of a moment

A read as of a moment gives what the read gave then: it is the read, without a moment, of the log
that has only what is not later, in whatever order that was appended.  So nothing that is appended
later changes it.  Two things do not keep to the moment.  The labels that hide an element are those
of the whole log, and so is the time when the element was first there, which is why an element can
only be made as of a moment at which it had already been there.

* `ReadsAsOf`, `CreatesAsOf` : what it means that one log is read as another;
* `readsAsOf_upTo`, `createsAsOf_upTo` : a log as of a moment is read as what it has up to then;
* `readsAsOf_ofAppends` : appends of any order, and what is appended later.
-/

namespace Chronicle

/-- The materializer that is told of other hiders, and asked for another view. -/
def Materializer.given {α : Type} (m : Materializer α) (hiders : LabelSet) (v : View) :
    Materializer α :=
  fun σ _ => m { σ with hiders } v

/-- The vertex without the labels that hide it. -/
def Vertex.apartFromHiders (x : Vertex) : Vertex := { x with hiders := OrderedMap.empty }

/-- The edge without the labels that hide it. -/
def Edge.apartFromHiders (x : Edge) : Edge := { x with hiders := OrderedMap.empty }

namespace Log

/-- The log of the mutations that are not later than the moment. -/
def upTo (log : Log) (ts : Timestamp) : Log := log.keep fun m => decide (m.timestamp ≤ ts)

/-- The element was said to be there at the moment or before. -/
def IsTouchedBy (log : Log) (ts : Timestamp) : Prop :=
  ∃ m ∈ log.entries, ∃ first, m.touch? = some first ∧ first ≤ ts

instance (log : Log) (ts : Timestamp) : Decidable (log.IsTouchedBy ts) :=
  decidable_of_iff (log.entries.any fun m => m.touch?.any fun first => decide (first ≤ ts)) (by
    simp only [IsTouchedBy, List.any_eq_true, Option.any_eq_true, decide_eq_true_eq])

/-- What is read of `l` as of the one moment is what is read of `l'` as of the other. -/
structure ReadsAsOf (l : Log) (asOf : Option Timestamp) (l' : Log) (asOf' : Option Timestamp) :
    Prop where
  property (hints : FetchHints) (reader : Reader) (i : PropertyIdentity) (fetch : Load) :
    l.property ⟨hints, asOf, reader⟩ i fetch = l'.property ⟨hints, asOf', reader⟩ i fetch
  resolved (hints : FetchHints) (reader : Reader) (f : PropertyFilter) (fetch : Load) :
    l.resolved ⟨hints, asOf, reader⟩ f fetch = l'.resolved ⟨hints, asOf', reader⟩ f fetch
  isDeleted (reader : Reader) : l.isDeleted asOf reader = l'.isDeleted asOf' reader
  readable (includeHidden : Bool) (reader : Reader) :
    l.readable includeHidden asOf reader = l'.readable includeHidden asOf' reader
  history (start : Option Timestamp) (reader : Reader) (marker : String) (f : PropertyFilter)
    (fetch : Load) :
    l.history ⟨⟨start, asOf⟩, reader, marker⟩ f fetch
      = l'.history ⟨⟨start, asOf'⟩, reader, marker⟩ f fetch

/-- What is made of `l` as of the one moment is what is made of `l'` as of the other, apart from the
labels that hide the element: these are those of `l`. -/
structure CreatesAsOf (l : Log) (asOf : Option Timestamp) (l' : Log) (asOf' : Option Timestamp) :
    Prop where
  element {α : Type} (m : Materializer α) (id : ElementId) (kind : ElementKind)
    (hints : FetchHints) (reader : Reader) (fetch : Load) :
    Element.materialize ⟨id, kind, l⟩ m ⟨hints, asOf, reader⟩ fetch
      = Element.materialize ⟨id, kind, l'⟩ (m.given l.hiders ⟨hints, asOf, reader⟩)
          ⟨hints, asOf', reader⟩ fetch
  vertex (id : ElementId) (kind : ElementKind) (hints : FetchHints) (reader : Reader)
    (fetch : Load) :
    (Element.materialize ⟨id, kind, l⟩ ElementState.toVertex ⟨hints, asOf, reader⟩ fetch).map
        (Option.map Vertex.apartFromHiders)
      = (Element.materialize ⟨id, kind, l'⟩ ElementState.toVertex ⟨hints, asOf', reader⟩ fetch).map
          (Option.map Vertex.apartFromHiders)
  edge (id : ElementId) (kind : ElementKind) (hints : FetchHints) (reader : Reader)
    (fetch : Load) :
    (Element.materialize ⟨id, kind, l⟩ ElementState.toEdge ⟨hints, asOf, reader⟩ fetch).map
        (Option.map Edge.apartFromHiders)
      = (Element.materialize ⟨id, kind, l'⟩ ElementState.toEdge ⟨hints, asOf', reader⟩ fetch).map
          (Option.map Edge.apartFromHiders)

variable {l l' : Log} {asOf asOf' : Option Timestamp} {ts : Timestamp}

/-! ## One read after the other -/

theorem propertyRecords_upTo (log : Log) (ts : Timestamp) :
    (log.upTo ts).propertyRecords
      = log.propertyRecords.filter fun r => decide (r.timestamp ≤ ts) := by
  rw [upTo, propertyRecords_keep]
  rfl

theorem properties_upTo (log : Log) (ts : Timestamp) (hints : FetchHints) (reader : Reader)
    (f : PropertyFilter) :
    log.properties ⟨hints, some ts, reader⟩ f
      = (log.upTo ts).properties ⟨hints, none, reader⟩ f := by
  have hrecords : log.recordsFor ⟨hints, some ts, reader⟩ f
      = (log.upTo ts).recordsFor ⟨hints, none, reader⟩ f := by
    rw [recordsFor, recordsFor, propertyRecords_upTo, List.filter_filter]
    refine List.filter_congr fun r _ => ?_
    simp only [View.folds, View.reaches, TimeRange.contains_upTo_some, TimeRange.upTo_none,
      TimeRange.contains_all, Bool.true_and]
    cases decide (r.timestamp ≤ ts) <;> simp
  rw [properties, properties, foldEach, foldEach, hrecords]

theorem resolved_upTo (log : Log) (ts : Timestamp) (hints : FetchHints) (reader : Reader)
    (f : PropertyFilter) (fetch : Load) :
    log.resolved ⟨hints, some ts, reader⟩ f fetch
      = (log.upTo ts).resolved ⟨hints, none, reader⟩ f fetch := by
  rw [resolved, resolved, properties_upTo]

theorem isDeleted_upTo (log : Log) (ts : Timestamp) (reader : Reader) :
    log.isDeleted (some ts) reader = (log.upTo ts).isDeleted none reader := by
  rw [isDeleted_eq_said, isDeleted_eq_said, said_told, Mutation.told_none]
  rfl

theorem readable_upTo (log : Log) (includeHidden : Bool) (ts : Timestamp) (reader : Reader) :
    log.readable includeHidden (some ts) reader
      = (log.upTo ts).readable includeHidden none reader := by
  show log.entries.filter _ = (log.entries.filter _).filter _
  rw [List.filter_filter]
  refine List.filter_congr fun m _ => ?_
  rw [TimeRange.contains_upTo_some, TimeRange.upTo_none, TimeRange.contains_all]
  cases decide (m.timestamp ≤ ts) <;> simp

theorem history_upTo (log : Log) (ts : Timestamp) (start : Option Timestamp) (reader : Reader)
    (marker : String) (f : PropertyFilter) (fetch : Load) :
    log.history ⟨⟨start, some ts⟩, reader, marker⟩ f fetch
      = (log.upTo ts).history ⟨⟨start, none⟩, reader, marker⟩ f fetch := by
  have hadmitted : HistoryScope.admitted ⟨⟨start, some ts⟩, reader, marker⟩
        ((log.recordsOf f).map PropertyRecord.guarded)
      = HistoryScope.admitted ⟨⟨start, none⟩, reader, marker⟩
        (((log.upTo ts).recordsOf f).map PropertyRecord.guarded) := by
    rw [HistoryScope.admitted_guarded, HistoryScope.admitted_guarded, recordsOf, recordsOf,
      propertyRecords_upTo, List.filter_filter, List.filter_filter, List.filter_filter]
    refine List.filter_congr fun r _ => ?_
    simp only [HistoryScope.admits, HistoryScope.excludes, TimeRange.contains, Option.all_some,
      Option.all_none, PropertyRecord.guarded]
    by_cases hle : r.timestamp ≤ ts <;> simp [hle]
  rw [history, history, HistoryScope.history, HistoryScope.history, HistoryScope.reconstruct,
    HistoryScope.reconstruct, hadmitted]

theorem facts_upTo (log : Log) (ts : Timestamp) (hints : FetchHints) (reader : Reader) :
    log.facts ⟨hints, some ts, reader⟩ = (log.upTo ts).facts ⟨hints, none, reader⟩ := by
  have hsnapshot : log.snapshot (fun m => View.reaches ⟨hints, some ts, reader⟩ m.timestamp)
      = (log.upTo ts).snapshot fun m => View.reaches ⟨hints, none, reader⟩ m.timestamp := by
    show log.entries.filter _ = (log.entries.filter _).filter _
    rw [List.filter_filter]
    refine List.filter_congr fun m _ => ?_
    simp only [View.reaches, TimeRange.contains_upTo_some, TimeRange.upTo_none,
      TimeRange.contains_all, Bool.true_and]
  rw [facts, facts, hsnapshot]

theorem timestamp_of_touch? {m : Mutation} {first : Timestamp} (h : m.touch? = some first) :
    m.timestamp = first := by
  unfold Mutation.touch? at h
  split at h
  · cases h
    rfl
  · cases h

/-- If the element was there by the moment, the moment is not before its first time. -/
theorem firstTimestamp_upTo (h : l.IsTouchedBy ts) :
    ∃ first ≤ ts, l.firstTimestamp = some first ∧ (l.upTo ts).firstTimestamp = some first := by
  obtain ⟨m, hm, t, htouch, hle⟩ := h
  have hsome : (l.entries.findSome? Mutation.touch?).isSome = true := by
    rw [List.findSome?_isSome_iff]
    exact ⟨m, hm, by rw [htouch]; rfl⟩
  obtain ⟨first, hfirst⟩ := Option.isSome_iff_exists.1 hsome
  obtain ⟨before, x, after, hsplit, hx, hbefore⟩ := List.findSome?_eq_some_iff.1 hfirst
  -- the log is sorted, so the first record that touches is not later than the one at hand
  have hxm : x.timestamp ≤ m.timestamp := by
    rw [hsplit] at hm
    rcases List.mem_append.1 hm with hm | hm
    · rw [hbefore m hm] at htouch
      cases htouch
    · have hsorted := l.sorted
      rw [hsplit] at hsorted
      exact head_le_of_mem (List.pairwise_append.1 hsorted).2.1 hm
  have hxts : first ≤ ts := by
    rw [← timestamp_of_touch? hx]
    rw [timestamp_of_touch? htouch] at hxm
    exact Int64.le_trans hxm hle
  refine ⟨first, hxts, ?_, ?_⟩
  · rw [firstTimestamp_eq_said, said, List.head?_filterMap]
    exact hfirst
  · rw [firstTimestamp_eq_said, upTo, ← said_told, said, List.head?_filterMap]
    refine List.findSome?_eq_some_iff.2 ⟨before, x, after, hsplit, ?_, fun a ha => ?_⟩
    · rw [Mutation.told, TimeRange.contains_upTo_some, timestamp_of_touch? hx,
        if_pos (decide_eq_true hxts)]
      exact hx
    · rw [Mutation.told, hbefore a ha]
      exact ite_self none

end Log

/-! ## Making elements -/

namespace Element

variable {α β : Type} {hints : FetchHints} {reader : Reader} {ts : Timestamp}

/-- As of a moment at which the element was there, it is present if it is not deleted. -/
theorem isPresent_of_isTouchedBy {e : Element} (h : e.log.IsTouchedBy ts) :
    e.isPresent ⟨hints, some ts, reader⟩ = !e.log.isDeleted (some ts) reader := by
  obtain ⟨first, hle, hfirst, -⟩ := Log.firstTimestamp_upTo h
  have hstart : e.isBeforeStart ⟨hints, some ts, reader⟩ = false := by
    simp only [isBeforeStart, hfirst]
    exact decide_eq_false (Int64.not_lt.2 hle)
  rw [isPresent, hstart]
  rfl

/-- Without a moment an element is present if it is not deleted. -/
theorem isPresent_none (e : Element) :
    e.isPresent ⟨hints, none, reader⟩ = !e.log.isDeleted none reader := rfl

/-- The materializer is given the state as of the moment, but with the hiders of the whole log. -/
theorem state_upTo (e : Element) (h : e.log.IsTouchedBy ts) (fetch : Load) :
    e.state ⟨hints, some ts, reader⟩ fetch
      = (state ⟨e.id, e.kind, e.log.upTo ts⟩ ⟨hints, none, reader⟩ fetch).map
          fun σ => { σ with hiders := e.log.hiders } := by
  obtain ⟨first, -, hfirst, hfirst'⟩ := Log.firstTimestamp_upTo h
  have hproperties : e.log.allProperties ⟨hints, some ts, reader⟩ fetch
      = (e.log.upTo ts).allProperties ⟨hints, none, reader⟩ fetch := by
    rw [Log.allProperties, Log.allProperties, Log.properties_upTo]
  simp only [state, hproperties, Log.facts_upTo, hfirst, hfirst']
  cases (e.log.upTo ts).allProperties ⟨hints, none, reader⟩ fetch <;> rfl

theorem materialize_upTo (e : Element) (h : e.log.IsTouchedBy ts) (m : Materializer α)
    (fetch : Load) :
    e.materialize m ⟨hints, some ts, reader⟩ fetch
      = materialize ⟨e.id, e.kind, e.log.upTo ts⟩
          (m.given e.log.hiders ⟨hints, some ts, reader⟩) ⟨hints, none, reader⟩ fetch := by
  rw [materialize, materialize, isPresent_of_isTouchedBy h, isPresent_none, Log.isDeleted_upTo,
    state_upTo e h]
  cases state ⟨e.id, e.kind, e.log.upTo ts⟩ ⟨hints, none, reader⟩ fetch <;> rfl

/-- Materializers whose results look alike make elements that look alike. -/
theorem map_materialize_congr {m m' : Materializer α} {look : α → β} {v : View}
    (h : ∀ σ, (m σ v).map look = (m' σ v).map look) (e : Element) (fetch : Load) :
    (e.materialize m v fetch).map (Option.map look)
      = (e.materialize m' v fetch).map (Option.map look) := by
  rw [materialize, materialize]
  split
  · cases e.state v fetch with
    | error err => rfl
    | ok σ =>
      show (Except.map some (m σ v)).map (Option.map look)
        = (Except.map some (m' σ v)).map (Option.map look)
      have hσ := h σ
      cases hm : m σ v <;> cases hm' : m' σ v <;> rw [hm, hm'] at hσ
      case error.error e e' => exact congrArg Except.error (Except.error.inj hσ)
      case ok.ok x x' => exact congrArg (Except.ok ∘ some) (Except.ok.inj hσ)
      case error.ok | ok.error => cases hσ
  · rfl

end Element

/-! ## The log up to a moment -/

namespace Log

variable {l l' : Log} {ts : Timestamp}

theorem readsAsOf_upTo (log : Log) (ts : Timestamp) :
    log.ReadsAsOf (some ts) (log.upTo ts) none where
  property hints reader i fetch := by rw [property, property, resolved_upTo]
  resolved hints reader f fetch := log.resolved_upTo ts hints reader f fetch
  isDeleted reader := log.isDeleted_upTo ts reader
  readable includeHidden reader := log.readable_upTo includeHidden ts reader
  history start reader marker f fetch := log.history_upTo ts start reader marker f fetch

theorem createsAsOf_upTo {log : Log} (h : log.IsTouchedBy ts) :
    log.CreatesAsOf (some ts) (log.upTo ts) none where
  element m id kind hints reader fetch := Element.materialize_upTo ⟨id, kind, log⟩ h m fetch
  vertex id kind hints reader fetch := by
    rw [Element.materialize_upTo ⟨id, kind, log⟩ h]
    refine Element.map_materialize_congr (fun σ => ?_) _ fetch
    obtain ⟨σid, σkind, facts, first, properties, hiders⟩ := σ
    cases σkind <;> rfl
  edge id kind hints reader fetch := by
    rw [Element.materialize_upTo ⟨id, kind, log⟩ h]
    refine Element.map_materialize_congr (fun σ => ?_) _ fetch
    obtain ⟨σid, σkind, facts, first, properties, hiders⟩ := σ
    obtain ⟨visibility, timestamp, label, conceptType⟩ := facts
    cases σkind <;> cases label <;> rfl

/-- Logs that are the same up to a moment are read the same as of that moment. -/
theorem readsAsOf_of_upTo_eq (h : l.upTo ts = l'.upTo ts) : l.ReadsAsOf (some ts) l' (some ts) := by
  have hl := l.readsAsOf_upTo ts
  have hl' := l'.readsAsOf_upTo ts
  rw [h] at hl
  exact {
    property := fun hints reader i fetch =>
      (hl.property hints reader i fetch).trans (hl'.property hints reader i fetch).symm
    resolved := fun hints reader f fetch =>
      (hl.resolved hints reader f fetch).trans (hl'.resolved hints reader f fetch).symm
    isDeleted := fun reader => (hl.isDeleted reader).trans (hl'.isDeleted reader).symm
    readable := fun includeHidden reader =>
      (hl.readable includeHidden reader).trans (hl'.readable includeHidden reader).symm
    history := fun start reader marker f fetch =>
      (hl.history start reader marker f fetch).trans
        (hl'.history start reader marker f fetch).symm }

/-- Logs that are the same up to a moment make the same as of that moment. -/
theorem createsAsOf_of_upTo_eq (h : l.upTo ts = l'.upTo ts) (hl : l.IsTouchedBy ts)
    (hl' : l'.IsTouchedBy ts) : l.CreatesAsOf (some ts) l' (some ts) := by
  have hmade := createsAsOf_upTo hl
  have hmade' := createsAsOf_upTo hl'
  rw [h] at hmade
  exact {
    -- being told of other hiders a second time changes nothing
    element := fun m id kind hints reader fetch =>
      (hmade.element m id kind hints reader fetch).trans
        (hmade'.element (m.given l.hiders ⟨hints, some ts, reader⟩) id kind hints reader fetch).symm
    vertex := fun id kind hints reader fetch =>
      (hmade.vertex id kind hints reader fetch).trans
        (hmade'.vertex id kind hints reader fetch).symm
    edge := fun id kind hints reader fetch =>
      (hmade.edge id kind hints reader fetch).trans (hmade'.edge id kind hints reader fetch).symm }

/-- What is appended with later times is not in the log up to the moment. -/
theorem upTo_ofAppends_append (batches : List (List Mutation)) {later : List (List Mutation)}
    (h : ∀ m ∈ later.flatten, ts < m.timestamp) :
    (ofAppends (batches ++ later)).upTo ts = (ofAppends batches).upTo ts := by
  have hlater : later.flatten.filter (fun m => decide (m.timestamp ≤ ts)) = [] := by
    refine List.filter_eq_nil_iff.2 fun m hm => ?_
    rw [decide_eq_true_iff]
    exact Int64.not_le.2 (h m hm)
  apply ext_entries
  refine filter_ofAppends_congr fun t => ?_
  rw [List.flatten_append, List.filter_append, hlater, List.append_nil]

theorem IsTouchedBy.append {batches : List (List Mutation)} (later : List (List Mutation))
    (h : (ofAppends batches).IsTouchedBy ts) : (ofAppends (batches ++ later)).IsTouchedBy ts := by
  obtain ⟨m, hm, first, htouch, hle⟩ := h
  refine ⟨m, ?_, first, htouch, hle⟩
  rw [mem_ofAppends] at hm ⊢
  rw [List.flatten_append]
  exact List.mem_append_left _ hm

/-- **Reads as of a moment see exactly the past, and are stable.**  After appends in any order of
times, a read as of a moment gives what it gives without a moment after the appends of what is not
later; the same goes for what is made of the element, apart from the labels that hide it, if the
element was there by then.  What is appended later with later times changes neither. -/
theorem readsAsOf_ofAppends (batches : List (List Mutation)) (ts : Timestamp) :
    let log := ofAppends batches
    let past := ofAppends (keepBatches (fun m => decide (m.timestamp ≤ ts)) batches)
    log.ReadsAsOf (some ts) past none
      ∧ (log.IsTouchedBy ts → log.CreatesAsOf (some ts) past none)
      ∧ ∀ later : List (List Mutation), (∀ m ∈ later.flatten, ts < m.timestamp) →
          (ofAppends (batches ++ later)).ReadsAsOf (some ts) log (some ts)
            ∧ (log.IsTouchedBy ts →
                (ofAppends (batches ++ later)).CreatesAsOf (some ts) log (some ts)) := by
  intro log past
  have hpast : log.upTo ts = past := ofAppends_keep _ batches
  refine ⟨?_, fun h => ?_, fun later hlater => ⟨?_, fun h => ?_⟩⟩
  · rw [← hpast]
    exact log.readsAsOf_upTo ts
  · rw [← hpast]
    exact createsAsOf_upTo h
  · exact readsAsOf_of_upTo_eq (upTo_ofAppends_append batches hlater)
  · exact createsAsOf_of_upTo_eq (upTo_ofAppends_append batches hlater) (h.append later) h

/-- An element that is written out of order: a value, then that the element was there before that
and is deleted after it, and last an earlier value. -/
def lateArrivals : List (List Mutation) :=
  [[.property ⟨5, ⟨"title", "k", .empty⟩, .setValue (.int 2) OrderedMap.empty⟩],
    [Mutation.elementTimestamp 1, Mutation.softDelete 9],
    [.property ⟨3, ⟨"title", "k", .empty⟩, .setValue (.int 1) OrderedMap.empty⟩]]

/-- As of time 4 two records of the four are the past, and the element is not deleted, not even
after it is hidden and deleted once more. -/
theorem readsAsOf_lateArrivals :
    let log := ofAppends lateArrivals
    let past := ofAppends (keepBatches (fun m => decide (m.timestamp ≤ 4)) lateArrivals)
    let later := [[Mutation.markHidden 7 ⟨"board"⟩], [Mutation.softDelete 6]]
    let after := ofAppends (lateArrivals ++ later)
    log.length = 4 ∧ past.length = 2
      ∧ log.isDeleted none .all = true ∧ past.isDeleted none .all = false
      ∧ log.ReadsAsOf (some 4) past none ∧ log.CreatesAsOf (some 4) past none
      ∧ after.ReadsAsOf (some 4) log (some 4) ∧ after.CreatesAsOf (some 4) log (some 4) := by
  intro log past later after
  have htouched : log.IsTouchedBy 4 := by decide
  obtain ⟨hreads, hcreates, hlater⟩ := readsAsOf_ofAppends lateArrivals 4
  obtain ⟨hstable, hmade⟩ := hlater later (by decide)
  exact ⟨by decide, by decide, by decide, by decide, hreads, hcreates htouched, hstable,
    hmade htouched⟩

end Log

end Chronicle
