import Chronicle.Report
import Chronicle.Proofs.Log.Presence
import Chronicle.Proofs.Redaction

/-!
# Materialized elements, statuses and single reads

The same facts about an element are computed in several ways: its status looks each of them up from
the end of the log, a finished element gathers them in one scan from its start, up to a moment and
as far as the reader may read, and its properties are read one after the other.  They agree.  The
status tells when a table withholds an element; the reads of the properties tell which error there
is, if any, and what the element has; and for a reader who may read everything the facts of now are
those that are looked up.

* `withholds_status_iff` : the reasons to withhold an element, in terms of its status;
* `facts_of_now` : the scanned facts and those that are looked up;
* `isSome_edgeLabel_facts_iff` : when an edge has a label;
* `read_materializes` : what a table gives of an element.
-/

namespace Chronicle

/-! ## Reasons to withhold -/

/-- By its status the element is withheld from the view. -/
inductive ElementStatus.Withholds (s : ElementStatus) (v : View) : Prop where
  /-- The reader may not read its label. -/
  | unreadable (h : v.reader.canRead s.visibility = false)
  /-- It is hidden, and hidden things are not asked for. -/
  | hidden (hhints : v.hints.includeHidden = false) (h : s.hidden = true)
  /-- The moment looked at is before the element was first there. -/
  | early (asOf first : Timestamp) (hasOf : v.asOf = some asOf)
      (hfirst : s.firstTimestamp = some first) (h : asOf < first)
  /-- It is deleted. -/
  | deleted (h : s.deleted = true)

namespace Element

variable {α : Type} {e : Element} {v : View}

theorem isBeforeStart_iff : e.isBeforeStart v = true
    ↔ ∃ asOf first, v.asOf = some asOf ∧ e.log.firstTimestamp = some first ∧ asOf < first := by
  rw [isBeforeStart]
  cases v.asOf <;> cases e.log.firstTimestamp <;> simp

/-- An element is withheld unless it is visible and present. -/
theorem withholds_status_iff : (e.status v.asOf v.reader).Withholds v
    ↔ ¬(e.isVisible v = true ∧ e.isPresent v = true) := by
  simp only [isVisible, isPresent, Log.isReadable, Bool.and_eq_true, Bool.or_eq_true,
    Bool.not_eq_true']
  constructor
  · rintro (h | ⟨hhints, h⟩ | ⟨asOf, first, hasOf, hfirst, h⟩ | h) ⟨⟨hread, hshown⟩, hbegun, hthere⟩
    · rw [show v.reader.canRead e.log.visibility = false from h] at hread
      cases hread
    · rw [hhints, show e.log.isHidden v.reader = true from h] at hshown
      simp at hshown
    · rw [isBeforeStart_iff.2 ⟨asOf, first, hasOf, hfirst, h⟩] at hbegun
      cases hbegun
    · rw [show e.log.isDeleted v.asOf v.reader = true from h] at hthere
      cases hthere
  · intro hnot
    by_contra hno
    refine hnot ⟨⟨?_, ?_⟩, ?_, ?_⟩
    · rw [← Bool.not_eq_false]
      exact fun h => hno (.unreadable h)
    · rw [or_iff_not_imp_left, Bool.not_eq_true]
      intro hhints
      rw [← Bool.not_eq_true]
      exact fun h => hno (.hidden hhints h)
    · rw [← Bool.not_eq_true, isBeforeStart_iff]
      rintro ⟨asOf, first, hasOf, hfirst, h⟩
      exact hno (.early asOf first hasOf hfirst h)
    · rw [← Bool.not_eq_true]
      exact fun h => hno (.deleted h)

end Element

/-! ## Facts -/

/-- Some record up to the moment that the reader may read labels the edge. -/
def Log.HasReadableLabel (log : Log) (v : View) : Prop :=
  ∃ m ∈ log.entries, v.reaches m.timestamp = true ∧ v.reader.canRead m.visibility = true
    ∧ m.edgeLabel?.isSome = true

namespace Log

/-- A scan finds a label if there is a readable record of one. -/
theorem isSome_edgeLabel_facts_iff {log : Log} {v : View} :
    (log.facts v).edgeLabel.isSome = true ↔ log.HasReadableLabel v := by
  have htold : ∀ m, (Mutation.told v.asOf (Mutation.openTo v.reader Mutation.edgeLabel?) m).isSome
        = true
      ↔ v.reaches m.timestamp = true ∧ v.reader.canRead m.visibility = true
        ∧ m.edgeLabel?.isSome = true := by
    intro m
    rw [Mutation.told, Mutation.openTo, View.reaches]
    cases (TimeRange.upTo v.asOf).contains m.timestamp <;> cases v.reader.canRead m.visibility <;>
      simp
  rw [facts_edgeLabel, List.getLast?_isSome, said, ne_eq, List.filterMap_eq_nil_iff,
    HasReadableLabel]
  push Not
  refine exists_congr fun m => and_congr_right fun _ => ?_
  rw [← htold, Option.isSome_iff_ne_none]

theorem openTo_all {β : Type} (tells : Mutation → Option β) :
    Mutation.openTo .all tells = tells := by
  funext m
  rw [Mutation.openTo, Reader.canRead_all, if_pos rfl]

/-- For a reader who may read everything, a scan of the whole log finds what is looked up. -/
theorem facts_of_now {v : View} (hasOf : v.asOf = none) (hreader : v.reader = .all) (log : Log) :
    log.facts v = ⟨log.visibility, log.latestTimestamp, log.edgeLabel, log.conceptType⟩ := by
  apply ElementFacts.ext
  · rw [facts_visibility, visibility_eq_said, hasOf, Mutation.told_none]
  · rw [facts_timestamp, latestTimestamp_eq_said, hasOf, hreader, Mutation.told_none, openTo_all]
  · rw [facts_edgeLabel, edgeLabel_eq_said, hasOf, hreader, Mutation.told_none, openTo_all]
  · rw [facts_conceptType, conceptType_eq_said, hasOf, hreader, Mutation.told_none, openTo_all]

end Log

/-! ## Finished elements -/

/-- The vertex is made of the element as the view shows it, with these properties. -/
structure Vertex.MadeOf (x : Vertex) (e : Element) (v : View) (ps : List Property) : Prop where
  id : x.id = e.id
  properties : x.properties = ps
  hiders : x.hiders = (e.status v.asOf v.reader).hiders
  current : v.asOf = none → v.reader = .all →
    x.visibility = e.log.visibility ∧ x.timestamp = e.log.latestTimestamp
      ∧ x.conceptType = e.log.conceptType

/-- The edge is made of the element as the view shows it, with these properties. -/
structure Edge.MadeOf (x : Edge) (e : Element) (v : View) (ps : List Property) : Prop where
  id : x.id = e.id
  properties : x.properties = ps
  hiders : x.hiders = (e.status v.asOf v.reader).hiders
  current : v.asOf = none → v.reader = .all →
    x.visibility = e.log.visibility ∧ x.timestamp = e.log.latestTimestamp
      ∧ some x.label = e.log.edgeLabel

/-- The state of the element that the view shows, with these properties. -/
def Element.stateWith (e : Element) (v : View) (ps : List Property) : ElementState :=
  ⟨e.id, e.kind, e.log.facts v, e.log.firstTimestamp, ps, e.log.hiders⟩

namespace Element

variable {α : Type} {e : Element} {v : View} {fetch : Load}

/-- A present element is made of its properties, or the first of them that cannot be loaded is the
error. -/
theorem materialize_of_present (hthere : e.isPresent v = true) (m : Materializer α)
    (fetch : Load) :
    e.materialize m v fetch
      = match e.log.allProperties v fetch with
        | .error err => .error err
        | .ok ps => (m (e.stateWith v ps) v).map some := by
  rw [materialize, if_pos hthere, state]
  cases e.log.allProperties v fetch with
  | error err => rfl
  | ok ps =>
    show (m (e.stateWith v ps) v >>= fun a => pure (some a)) = (m (e.stateWith v ps) v).map some
    cases m (e.stateWith v ps) v <;> rfl

/-- An element that is present is made or there is an error. -/
theorem materialize_ne_none (hthere : e.isPresent v = true) (m : Materializer α) :
    e.materialize m v fetch ≠ .ok none := by
  rw [materialize_of_present hthere]
  cases e.log.allProperties v fetch with
  | error err => exact nofun
  | ok ps =>
    simp only
    cases m (e.stateWith v ps) v <;> exact nofun

/-- A vertex is made of any properties. -/
theorem exists_toVertex (hkind : e.kind = .vertex) (v : View) (ps : List Property) :
    ∃ x, ElementState.toVertex (e.stateWith v ps) v = .ok x ∧ x.MadeOf e v ps := by
  rw [ElementState.toVertex, stateWith, hkind]
  refine ⟨_, rfl, rfl, rfl, rfl, fun hasOf hreader => ?_⟩
  rw [Log.facts_of_now hasOf hreader]
  exact ⟨rfl, rfl, rfl⟩

/-- An edge is made of any properties if the reader may read a label of it. -/
theorem exists_toEdge (hkind : e.kind = .edge) (hlabel : e.log.HasReadableLabel v)
    (ps : List Property) :
    ∃ x, ElementState.toEdge (e.stateWith v ps) v = .ok x ∧ x.MadeOf e v ps := by
  obtain ⟨label, hlabel⟩ := Option.isSome_iff_exists.1 (Log.isSome_edgeLabel_facts_iff.2 hlabel)
  rw [ElementState.toEdge, stateWith, hkind]
  simp only [hlabel]
  refine ⟨_, rfl, rfl, rfl, rfl, fun hasOf hreader => ?_⟩
  rw [Log.facts_of_now hasOf hreader] at hlabel ⊢
  exact ⟨rfl, rfl, hlabel.symm⟩

theorem toEdge_of_unlabelled (hkind : e.kind = .edge) (hlabel : ¬e.log.HasReadableLabel v)
    (ps : List Property) :
    ElementState.toEdge (e.stateWith v ps) v = .error .edgeWithoutLabel := by
  rw [← Log.isSome_edgeLabel_facts_iff, Option.not_isSome_iff_eq_none] at hlabel
  rw [ElementState.toEdge, stateWith, hkind]
  simp only [hlabel]

end Element

/-! ## Reads of a table -/

namespace Table

variable {t : Table} {id : String} {e : Element} {v : View}

/-- A table gives nothing of an element exactly when the view is to be shown nothing of it. -/
theorem read_eq_none_iff {α : Type} (he : t.get? id = some e) (m : Materializer α) :
    (t.read id m v).1 = .ok none ↔ (e.status v.asOf v.reader).Withholds v := by
  rw [read_fst, he, Element.withholds_status_iff]
  cases hvisible : e.isVisible v with
  | false => simp [hvisible]
  | true =>
    simp only [hvisible, if_true, true_and]
    cases hthere : e.isPresent v with
    | true => simpa using Element.materialize_ne_none hthere m
    | false => simp [Element.materialize, hthere, pure, Except.pure]

/-- Of an element that is not withheld a table gives the first failure among its properties, or what
is made of all of them. -/
theorem read_of_not_withholds {α : Type} (he : t.get? id = some e)
    (hshown : ¬(e.status v.asOf v.reader).Withholds v) (m : Materializer α) :
    (∃ err, FailsFirst (e.log.resolved v .any t.engine.loader.load) err
        ∧ (t.read id m v).1 = .error err)
      ∨ ∃ ps : List Property, e.log.resolved v .any t.engine.loader.load = ps.map .ok
        ∧ (t.read id m v).1 = (m (e.stateWith v ps) v).map some := by
  rw [Element.withholds_status_iff, not_not] at hshown
  have hread : (t.read id m v).1 = e.materialize m v t.engine.loader.load := by
    rw [read_fst, he]
    exact if_pos hshown.1
  rw [hread, Element.materialize_of_present hshown.2]
  cases hall : e.log.allProperties v t.engine.loader.load with
  | error err => exact Or.inl ⟨err, Log.allProperties_eq_error_iff.1 hall, rfl⟩
  | ok ps => exact Or.inr ⟨ps, Log.allProperties_eq_ok_iff.1 hall, rfl⟩

/-- **Finished elements agree with the status and with single reads.**  A table gives nothing of an
element exactly when by its status it is withheld.  Else it gives the first failure among the reads
of its properties, if there is one; or, of an edge without a label that the reader may read by then,
that it has none; or the element with exactly the properties read and with the hiders of the status.
For a reader who may read everything its label, its time and its edge label or concept type as of
now are those that are looked up. -/
theorem read_materializes (he : t.get? id = some e) (v : View) :
    let s := e.status v.asOf v.reader
    let results := e.log.resolved v .any t.engine.loader.load
    (∀ {α : Type} (m : Materializer α), (t.read id m v).1 = .ok none ↔ s.Withholds v)
      ∧ (¬s.Withholds v → e.kind = .vertex →
          let read := (t.read id ElementState.toVertex v).1
          (∃ err, FailsFirst results err ∧ read = .error err)
            ∨ ∃ ps x, results = ps.map .ok ∧ read = .ok (some x) ∧ x.MadeOf e v ps)
      ∧ (¬s.Withholds v → e.kind = .edge →
          let read := (t.read id ElementState.toEdge v).1
          (∃ err, FailsFirst results err ∧ read = .error err)
            ∨ (∃ ps : List Property, results = ps.map .ok ∧ ¬e.log.HasReadableLabel v
                ∧ read = .error .edgeWithoutLabel)
            ∨ ∃ ps x, results = ps.map .ok ∧ e.log.HasReadableLabel v ∧ read = .ok (some x)
                ∧ x.MadeOf e v ps) := by
  intro s results
  refine ⟨fun m => read_eq_none_iff he m, fun hshown hkind => ?_, fun hshown hkind => ?_⟩
  · intro read
    rcases read_of_not_withholds he hshown ElementState.toVertex with hfails | ⟨ps, hloaded, hread⟩
    · exact Or.inl hfails
    · obtain ⟨x, hx, hmade⟩ := Element.exists_toVertex hkind v ps
      rw [hx] at hread
      exact Or.inr ⟨ps, x, hloaded, hread, hmade⟩
  · intro read
    rcases read_of_not_withholds he hshown ElementState.toEdge with hfails | ⟨ps, hloaded, hread⟩
    · exact Or.inl hfails
    · by_cases hlabel : e.log.HasReadableLabel v
      · obtain ⟨x, hx, hmade⟩ := Element.exists_toEdge hkind hlabel ps
        rw [hx] at hread
        exact Or.inr (Or.inr ⟨ps, x, hloaded, hlabel, hread, hmade⟩)
      · rw [Element.toEdge_of_unlabelled hkind hlabel] at hread
        exact Or.inr (Or.inl ⟨ps, hloaded, hlabel, hread⟩)

/-- An edge that is there from time 2 on, has lanes from time 3 on, and is given its label at
time 5. -/
def road : Element where
  id := ⟨"a1", by decide⟩
  kind := .edge
  log := Log.empty.extend [Mutation.elementTimestamp 2, Mutation.alterVisibility 2 .empty,
    .property ⟨3, ⟨"lanes", "k", .empty⟩, .setValue (.int 4) OrderedMap.empty⟩,
    Mutation.alterEdgeLabel 5 "road"]

/-- A table in which the road is created and written. -/
def roadMap : Table :=
  let fresh := Table.empty ⟨.manual (.still 0), .nothing, none, "", 0⟩
  match fresh.getOrCreate "a1" .edge .empty (some 2) with
  | .ok (_, t) => t.update "a1" fun s =>
    (s.edit ⟨"lanes", "k", .empty⟩ (.setValue (.int 4) OrderedMap.empty) (some 3)).alterEdgeLabel
      "road" (some 5)
  | .error _ => fresh

/-- The road is not there at time 1, has no label at time 4, and as of now it is made of its label
and its lanes. -/
theorem read_materializes_roadMap :
    let asOf (ts : Option Timestamp) : View := ⟨.all, ts, .all⟩
    let read (ts : Option Timestamp) := (roadMap.read "a1" ElementState.toEdge (asOf ts)).1
    let lanes : Property := ⟨⟨"lanes", "k", .empty⟩, .int 4, OrderedMap.empty, 3, OrderedMap.empty⟩
    let edge : Edge := ⟨road.id, "road", .empty, some 2, [lanes], OrderedMap.empty⟩
    roadMap.get? "a1" = some road ∧ road.kind = .edge
      ∧ (road.status (some 1) .all).Withholds (asOf (some 1)) ∧ read (some 1) = .ok none
      ∧ ¬(road.status (some 4) .all).Withholds (asOf (some 4))
      ∧ read (some 4) = .error .edgeWithoutLabel ∧ ¬road.log.HasReadableLabel (asOf (some 4))
      ∧ ¬(road.status none .all).Withholds (asOf none)
      ∧ read none = .ok (some edge) ∧ edge.MadeOf road (asOf none) [lanes] := by
  intro asOf read lanes edge
  have he : roadMap.get? "a1" = some road := by decide
  have hearly : read (some 1) = .ok none := by decide
  have hunlabelled : read (some 4) = .error .edgeWithoutLabel := by decide
  have hmade : read none = .ok (some edge) := by decide
  obtain ⟨hwithheld, -⟩ := read_materializes he (asOf (some 1))
  obtain ⟨hshown, -, hlabel⟩ := read_materializes he (asOf (some 4))
  obtain ⟨hshown', -, hedge⟩ := read_materializes he (asOf none)
  have hthere : ¬(road.status (some 4) .all).Withholds (asOf (some 4)) := by
    rw [← hshown ElementState.toEdge]
    exact fun h => absurd (hunlabelled.symm.trans h) nofun
  have hthere' : ¬(road.status none .all).Withholds (asOf none) := by
    rw [← hshown' ElementState.toEdge]
    exact fun h => absurd (hmade.symm.trans h) nofun
  refine ⟨he, rfl, (hwithheld ElementState.toEdge).1 hearly, hearly, hthere, hunlabelled, ?_,
    hthere', hmade, ?_⟩
  · rcases hlabel hthere rfl with ⟨err, ⟨before, after, hfails⟩, -⟩ | ⟨-, -, hno, -⟩
      | ⟨ps, x, -, -, h, -⟩
    · have hloaded : road.log.resolved (asOf (some 4)) .any roadMap.engine.loader.load
          = [.ok lanes] := by decide
      rw [hloaded] at hfails
      cases before <;> simp at hfails
    · exact hno
    · cases hunlabelled.symm.trans h
  · rcases hedge hthere' rfl with ⟨err, -, h⟩ | ⟨ps, -, -, h⟩ | ⟨ps, x, hps, -, h, hx⟩
    · cases hmade.symm.trans h
    · cases hmade.symm.trans h
    · cases hmade.symm.trans h
      obtain rfl : ps = [lanes] := hx.properties.symm
      exact hx

end Table

end Chronicle
