import Chronicle.Proofs.Materialization

/-!
# A failure to load stays with its property

A read gives one result for each property that it shows, in the order of the identities.  A result
is made of its property alone: a value that is stored as it is comes out as it is, and for a
reference there is what the loader gives or an error that names the property.  Reads that gather all
properties stop at the first error; before that they need nothing, and after it nothing counts.  A
finished element needs one thing more, which has no part in loading: it has to be one that its kind
of element can be made of.

* `Property.ComesOut` : what can come of a property, and of what it depends;
* `Session.results_isolate` : the results of a read, and of the reads that gather them;
* `Session.not_materialize_fails_iff_unlabelled` : an edge without a label is refused although all
  its properties are loaded.
-/

namespace Chronicle

/-! ## One property -/

namespace Property

/-- What comes out for a property when its value is loaded. -/
inductive ComesOut (fetch : Load) (p : Property) : Except Error Property → Prop
  /-- A value that is no reference is there already. -/
  | inline (h : p.value.reference? = none) : ComesOut fetch p (.ok p)
  /-- A reference is replaced by what it refers to. -/
  | loaded (ref : ValueRef) (value : PropValue) (h : p.value = .ref ref)
      (hload : fetch ref p.timestamp = .ok value) : ComesOut fetch p (.ok { p with value })
  /-- What cannot be loaded is reported under the property's name and time. -/
  | failed (ref : ValueRef) (cause : Error) (h : p.value = .ref ref)
      (hload : fetch ref p.timestamp = .error cause) :
      ComesOut fetch p
        (.error (.valueLoad p.identity.key p.identity.name p.timestamp cause))

variable {fetch fetch' : Load} {p : Property} {r : Except Error Property}

theorem comesOut_resolve (fetch : Load) (p : Property) : p.ComesOut fetch (p.resolve fetch) := by
  cases hvalue : p.value with
  | ref ref =>
    rw [resolve, hvalue, PropValue.load]
    cases hload : fetch ref p.timestamp with
    | ok value => exact .loaded ref value hvalue hload
    | error cause => exact .failed ref cause hvalue hload
  | _ =>
    have hinline : p.value.reference? = none := by rw [hvalue]; rfl
    rw [resolve_of_inline hinline]
    exact .inline hinline

/-- There is one result for a property. -/
theorem comesOut_iff : p.ComesOut fetch r ↔ r = p.resolve fetch := by
  constructor
  · rintro (h | ⟨ref, value, h, hload⟩ | ⟨ref, cause, h, hload⟩)
    · exact (resolve_of_inline h fetch).symm
    · rw [resolve, h, PropValue.load, hload]
      rfl
    · rw [resolve, h, PropValue.load, hload]
      rfl
  · rintro rfl
    exact p.comesOut_resolve fetch

/-- Of a loader a result depends on what it gives for the property's own reference. -/
theorem resolve_congr
    (h : ∀ ref, p.value = .ref ref → fetch' ref p.timestamp = fetch ref p.timestamp) :
    p.resolve fetch' = p.resolve fetch := by
  have hout := p.comesOut_resolve fetch'
  generalize p.resolve fetch' = r at hout ⊢
  rw [← comesOut_iff]
  cases hout with
  | inline hinline => exact .inline hinline
  | loaded ref value href hload => exact .loaded ref value href (h ref href ▸ hload)
  | failed ref cause href hload => exact .failed ref cause href (h ref href ▸ hload)

end Property

/-! ## The first failure -/

section FirstFailure

variable {α : Type} {results : List (Except Error α)}

/-- Some result is a failure exactly if there is a first one. -/
theorem exists_failsFirst_iff : (∃ e, FailsFirst results e) ↔ ∃ e, .error e ∈ results := by
  constructor
  · rintro ⟨e, before, after, rfl⟩
    exact ⟨e, by simp⟩
  · rintro ⟨e, he⟩
    cases hrun : results.mapM id with
    | error e' =>
      rw [mapM_eq_error_iff, List.map_id] at hrun
      exact ⟨e', hrun⟩
    | ok as =>
      rw [mapM_eq_ok_iff, List.map_id] at hrun
      rw [hrun] at he
      simp at he

/-- Without a failure all results are there. -/
theorem exists_map_ok_of_not_error (h : ¬∃ e, .error e ∈ results) :
    ∃ as : List α, results = as.map .ok := by
  cases hrun : results.mapM id with
  | error e =>
    rw [mapM_eq_error_iff, List.map_id] at hrun
    exact absurd (exists_failsFirst_iff.1 ⟨e, hrun⟩) h
  | ok as =>
    rw [mapM_eq_ok_iff, List.map_id] at hrun
    exact ⟨as, hrun⟩

end FirstFailure

/-! ## Reads of all properties -/

namespace Session

variable {α : Type} {s : Session} {v : View}

/-- A present element is made of its properties if all of them are loaded. -/
theorem materialize_of_results_ok (hthere : s.element.isPresent v = true) (m : Materializer α)
    {ps : List Property} (h : (s.properties v none).2.1 = ps.map .ok) :
    (s.materialize m v).1 = (m (s.element.stateWith v ps) v).map some := by
  have hall : s.element.log.allProperties v s.engine.loader.load = .ok ps :=
    Log.allProperties_eq_ok_iff.2 h
  rw [materialize_fst, Element.materialize_of_present hthere, hall]

/-- Else the first failure is the error, whatever it was to be made into. -/
theorem materialize_of_failsFirst (hthere : s.element.isPresent v = true) (m : Materializer α)
    {e : Error} (h : FailsFirst (s.properties v none).2.1 e) :
    (s.materialize m v).1 = .error e := by
  have hall : s.element.log.allProperties v s.engine.loader.load = .error e :=
    Log.allProperties_eq_error_iff.2 h
  rw [materialize_fst, Element.materialize_of_present hthere, hall]

/-- A present element cannot be made exactly if a property cannot be loaded or the materializer
refuses what it is to be made of. -/
theorem exists_materialize_eq_error_iff (hthere : s.element.isPresent v = true)
    (m : Materializer α) :
    (∃ e, (s.materialize m v).1 = .error e)
      ↔ (∃ e, .error e ∈ (s.properties v none).2.1)
        ∨ ∃ ps e, (s.properties v none).2.1 = ps.map .ok
          ∧ m (s.element.stateWith v ps) v = .error e := by
  by_cases hany : ∃ e, .error e ∈ (s.properties v none).2.1
  · obtain ⟨e, hfirst⟩ := exists_failsFirst_iff.2 hany
    exact iff_of_true ⟨e, materialize_of_failsFirst hthere m hfirst⟩ (Or.inl hany)
  · obtain ⟨ps, hps⟩ := exists_map_ok_of_not_error hany
    have hmade := materialize_of_results_ok hthere m hps
    constructor
    · rintro ⟨e, he⟩
      rw [hmade] at he
      cases hm : m (s.element.stateWith v ps) v with
      | error e' => exact Or.inr ⟨ps, e', hps, hm⟩
      | ok a =>
        rw [hm] at he
        cases he
    · rintro (herror | ⟨ps', e, hps', he⟩)
      · exact absurd herror hany
      · exact ⟨e, by rw [materialize_of_results_ok hthere m hps', he]; rfl⟩

/-- **A failure to load stays with its property.**  A read gives one result for each property that
the view shows, in the order of the identities, also if it is broken off; each is made of its own
property, and stays what it is whatever becomes of the values of the others.  A report of all
properties is the first failure if there is one.  So is a finished element that is present; and if
all properties are loaded, it is what the materializer makes of them. -/
theorem results_isolate (s : Session) (v : View) :
    let log := s.element.log
    let ps := log.properties v .any
    let results := (s.properties v none).2.1
    ps.Pairwise Property.Precedes
      ∧ (∀ i, i ∈ ps.map (·.identity) ↔ log.Presents v i)
      ∧ List.Forall₂ (Property.ComesOut s.engine.loader.load) ps results
      ∧ (∀ n, (s.properties v (some n)).2.1 = results.take n)
      ∧ (∀ (fetch : Load) (k : Nat) (p : Property), ps[k]? = some p →
          (∀ ref, p.value = .ref ref →
            fetch ref p.timestamp = s.engine.loader.load ref p.timestamp) →
          (log.resolved v .any fetch)[k]? = results[k]?)
      ∧ ((∃ e, (s.allProperties v).1 = .error e) ↔ ∃ e, .error e ∈ results)
      ∧ (∀ e, (s.allProperties v).1 = .error e ↔ FailsFirst results e)
      ∧ (s.element.isPresent v = true → ∀ {α : Type} (m : Materializer α),
          ((∃ e, (s.materialize m v).1 = .error e) ↔ (∃ e, .error e ∈ results)
            ∨ ∃ qs e, results = qs.map .ok ∧ m (s.element.stateWith v qs) v = .error e)
          ∧ (∀ e, FailsFirst results e → (s.materialize m v).1 = .error e)
          ∧ ∀ qs, results = qs.map .ok →
              (s.materialize m v).1 = (m (s.element.stateWith v qs) v).map some) := by
  intro log ps results
  have hresults : results = ps.map fun p => p.resolve s.engine.loader.load := rfl
  have hreport : ∀ e, (s.allProperties v).1 = .error e ↔ FailsFirst results e :=
    fun e => Log.allProperties_eq_error_iff
  refine ⟨log.properties_ascending v .any, fun i => ?_, ?_, fun n => ?_,
    fun fetch k p hp hfetch => ?_, ?_, hreport, fun hthere _ m =>
      ⟨exists_materialize_eq_error_iff hthere m, fun e => materialize_of_failsFirst hthere m,
        fun qs => materialize_of_results_ok hthere m⟩⟩
  · rw [Log.mem_identities_properties_iff, PropertyFilter.admits_any]
    exact ⟨fun h => h.2, fun h => ⟨rfl, h⟩⟩
  · exact List.forall₂_map_right_iff.2
      (List.forall₂_same.2 fun p _ => p.comesOut_resolve s.engine.loader.load)
  · exact List.map_take
  · have hresult := Property.resolve_congr hfetch
    have hkth : (log.resolved v .any fetch)[k]? = ps[k]?.map fun p => p.resolve fetch :=
      List.getElem?_map
    rw [hkth, hresults, List.getElem?_map, hp, Option.map_some, hresult, Option.map_some]
  · rw [← exists_failsFirst_iff]
    exact exists_congr hreport

/-- A parcel with a weight, a label that is in a blob, and a photograph that cannot be loaded. -/
def parcel : Session where
  engine := ⟨.manual (.still 0),
    .elsewhere fun ref _ => if ref.id = 1 then .ok (.str "fragile") else .error .notFound,
    none, "", 0⟩
  element := {
    id := ⟨"p", by decide⟩
    kind := .vertex
    log := Log.empty.extend [Mutation.elementTimestamp 1,
      .property
        ⟨2, ⟨"photograph", "k", .empty⟩, .setValue (.ref ⟨2, 9, 0, false⟩) OrderedMap.empty⟩,
      .property ⟨2, ⟨"label", "k", .empty⟩, .setValue (.ref ⟨1, 7, 0, true⟩) OrderedMap.empty⟩,
      .property ⟨3, ⟨"weight", "k", .empty⟩, .setValue (.int 4) OrderedMap.empty⟩] }

/-- Label and weight are read although the photograph between them is not, and the photograph is
what the parcel cannot be made for. -/
theorem results_isolate_parcel :
    let v : View := ⟨.all, none, .all⟩
    let read (name : String) (value : PropValue) (ts : Timestamp) : Except Error Property :=
      .ok ⟨⟨name, "k", .empty⟩, value, OrderedMap.empty, ts, OrderedMap.empty⟩
    let lost : Error := .valueLoad "k" "photograph" 2 .notFound
    (parcel.properties v none).2.1
        = [read "label" (.str "fragile") 2, .error lost, read "weight" (.int 4) 3]
      ∧ parcel.element.isPresent v = true
      ∧ FailsFirst (parcel.properties v none).2.1 lost
      ∧ (parcel.allProperties v).1 = .error lost
      ∧ (parcel.materialize ElementState.toVertex v).1 = .error lost := by
  intro v read lost
  have hthere : parcel.element.isPresent v = true := by decide
  have hresults : (parcel.properties v none).2.1
      = [read "label" (.str "fragile") 2, .error lost, read "weight" (.int 4) 3] := by decide
  have hfirst : FailsFirst (parcel.properties v none).2.1 lost :=
    ⟨[⟨⟨"label", "k", .empty⟩, .str "fragile", OrderedMap.empty, 2, OrderedMap.empty⟩], _, hresults⟩
  obtain ⟨-, -, -, -, -, -, hreport, hmade⟩ := results_isolate parcel v
  exact ⟨hresults, hthere, hfirst, (hreport lost).2 hfirst,
    (hmade hthere ElementState.toVertex).2.1 lost hfirst⟩

/-- An edge that is there and has lanes but no label. -/
def track : Session where
  engine := ⟨.manual (.still 0), .nothing, none, "", 0⟩
  element := {
    id := ⟨"t", by decide⟩
    kind := .edge
    log := Log.empty.extend [Mutation.elementTimestamp 1, Mutation.alterVisibility 1 .empty,
      .property ⟨3, ⟨"lanes", "k", .empty⟩, .setValue (.int 4) OrderedMap.empty⟩] }

/-- Not only failures to load stand in the way of a finished edge: one without a label is refused
although all its properties are loaded. -/
theorem not_materialize_fails_iff_unlabelled :
    ¬∀ (s : Session) (v : View), s.element.kind = .edge → s.element.isPresent v = true →
        ((∃ e, (s.materialize ElementState.toEdge v).1 = .error e)
          ↔ ∃ e, .error e ∈ (s.properties v none).2.1) := by
  intro h
  have hrefused : (track.materialize ElementState.toEdge ⟨.all, none, .all⟩).1
      = .error .edgeWithoutLabel := by decide
  obtain ⟨e, he⟩ := (h track ⟨.all, none, .all⟩ rfl (by decide)).1 ⟨_, hrefused⟩
  have hresults : (track.properties ⟨.all, none, .all⟩ none).2.1
      = [.ok ⟨⟨"lanes", "k", .empty⟩, .int 4, OrderedMap.empty, 3, OrderedMap.empty⟩] := by decide
  rw [hresults] at he
  simp at he

end Session

end Chronicle
