import Chronicle.Proofs.Log.Presence
import Chronicle.Proofs.Redaction

/-!
# A read of some properties selects from the read of all

Whether a property is asked for by itself, with some others or with all of them, the answer for it
is the same.  The read of everything gives one result for each identity of which something is shown,
in the strict order of the identities; a read of one property gives the result that stands there for
its identity, a failure to load included.  In a history, where all properties share one list of
slots, the entries of the chosen properties are the same too.

* `history_select` : the history of some properties, from the history of all;
* `reads_select` : all three kinds of reads.
-/

namespace Chronicle

namespace Log

/-- The records of the chosen properties that a history lets in are those of all that it lets
in. -/
theorem admitted_select (log : Log) (s : HistoryScope) (f : PropertyFilter) :
    s.admitted ((log.recordsOf f).map PropertyRecord.guarded)
      = (s.admitted ((log.recordsOf .any).map PropertyRecord.guarded)).filter
          fun r => f.admits r.identity := by
  rw [HistoryScope.admitted_guarded, HistoryScope.admitted_guarded, recordsOf, recordsOf,
    List.filter_filter, List.filter_filter, List.filter_filter]
  refine List.filter_congr fun r _ => ?_
  rw [PropertyFilter.admits_any, Bool.and_true, Bool.and_comm]

/-- If the history of all properties can be read, so can that of some, and it has their entries. -/
theorem history_select {log : Log} {s : HistoryScope} {fetch : Load} {es : List HistoryEntry}
    (h : log.history s .any fetch = .ok es) (f : PropertyFilter) :
    log.history s f fetch = .ok (es.filter fun e => f.admits e.identity) := by
  -- loading a value does not change whose record it is
  have hload : ∀ r : PropertyRecord, f.admits (r.loaded fetch).identity = f.admits r.identity :=
    fun r => by rw [PropertyRecord.identity_loaded]
  exact HistoryScope.history_of_admitted_filter f.admits (fun _ _ => rfl) hload
    (log.admitted_select s f) h

/-- What a read of one property gives is that property. -/
theorem identity_of_property {log : Log} {v : View} {i : PropertyIdentity} {fetch : Load}
    {p : Property} (h : log.property v i fetch = .ok (some p)) : p.identity = i := by
  rw [property_eq_shown?] at h
  cases hshown : log.shown? v i with
  | none =>
    rw [hshown] at h
    cases h
  | some q =>
    rw [hshown] at h
    change (q.resolve fetch).map some = .ok (some p) at h
    cases hq : q.resolve fetch with
    | error e =>
      rw [hq] at h
      cases h
    | ok q' =>
      rw [hq] at h
      cases h
      rw [identity_of_resolve hq, identity_of_shown? hshown]

/-- The results of the read of everything are those of reading each listed property by itself. -/
theorem map_resolved (log : Log) (v : View) (fetch : Load) :
    (log.resolved v .any fetch).map (Except.map some)
      = ((log.properties v .any).map (·.identity)).map fun i => log.property v i fetch := by
  rw [resolved, List.map_map, List.map_map]
  refine List.map_congr_left fun p hp => ?_
  rw [Function.comp_apply, Function.comp_apply, property_eq_shown?, (mem_properties_iff.1 hp).2]

/-- **Filtered reads are the filtered full read.**  The read of everything has one result for each
identity of which something is shown, in strict order, and each is the result of reading that
property by itself; of any other there is nothing to read.  A read of some properties shows those of
the full read, and if the history of everything can be read, the history of some has their
entries. -/
theorem reads_select (log : Log) (v : View) (fetch : Load) :
    (∃ is : List PropertyIdentity, is.Pairwise (fun i j => compare i j = .lt)
        ∧ (∀ i, i ∈ is ↔ log.Presents v i)
        ∧ (log.resolved v .any fetch).map (Except.map some)
            = is.map fun i => log.property v i fetch)
      ∧ (∀ i, log.property v i fetch = .ok none ↔ ¬log.Presents v i)
      ∧ (∀ i p, log.property v i fetch = .ok (some p) → p.identity = i)
      ∧ (∀ f, log.properties v f
          = (log.properties v .any).filter fun p => f.admits p.identity)
      ∧ ∀ s es, log.history s .any fetch = .ok es →
          ∀ f, log.history s f fetch = .ok (es.filter fun e => f.admits e.identity) := by
  refine ⟨⟨(log.properties v .any).map (·.identity), ?_, fun i => ?_, log.map_resolved v fetch⟩,
    fun i => property_eq_none_iff, fun i p => identity_of_property, log.properties_eq_filter v,
    fun s es => history_select⟩
  · exact List.pairwise_map.2 (log.properties_ascending v .any)
  · rw [mem_identities_properties_iff, PropertyFilter.admits_any]
    exact ⟨fun h => h.2, fun h => ⟨rfl, h⟩⟩

/-- Four properties that share two parts of their identities with one another, and whose records are
mixed: two titles with one key under two labels, a title with another key, whose value is in a blob,
and a subtitle.  The first title is deleted and set again. -/
def namesakes : Log :=
  Log.empty.extend [
    .property ⟨1, ⟨"title", "k", .empty⟩, .setValue (.int 1) OrderedMap.empty⟩,
    .property ⟨1, ⟨"title", "k", ⟨"board"⟩⟩, .setValue (.int 2) OrderedMap.empty⟩,
    .property ⟨2, ⟨"title", "l", .empty⟩, .setValue (.ref ⟨1, 8, 0, false⟩) OrderedMap.empty⟩,
    .property ⟨3, ⟨"title", "k", .empty⟩, .softDelete⟩,
    .property ⟨3, ⟨"subtitle", "k", .empty⟩, .setValue (.int 3) OrderedMap.empty⟩,
    .property ⟨4, ⟨"title", "k", ⟨"board"⟩⟩, .annotate OrderedMap.empty⟩,
    .property ⟨5, ⟨"title", "k", .empty⟩, .setValue (.int 4) OrderedMap.empty⟩]

/-- Of the titles with the first key each is read by itself as among all, and the history of both
leaves out the other title and the subtitle.  The reader who may not read the second of them finds
nothing there. -/
theorem reads_select_namesakes :
    let first : PropertyIdentity := ⟨"title", "k", .empty⟩
    let second : PropertyIdentity := ⟨"title", "k", ⟨"board"⟩⟩
    let fetch : Load := fun _ _ => .ok (.int 9)
    let set (i : PropertyIdentity) (n : Int64) (ts : Timestamp) : HistoryEntry :=
      ⟨i, some (.int n), OrderedMap.empty, ts, false⟩
    let s : HistoryScope := ⟨.all, .all, ""⟩
    let stranger : Reader := .holding (.ofLabels [])
    namesakes.history s .any fetch
        = .ok [set first 4 5, set ⟨"subtitle", "k", .empty⟩ 3 3, set ⟨"title", "l", .empty⟩ 9 2,
            set second 2 1, set first 1 1]
      ∧ namesakes.history s ⟨some "k", some "title", none⟩ fetch
        = .ok [set first 4 5, set second 2 1, set first 1 1]
      ∧ (namesakes.properties ⟨.all, none, .all⟩ ⟨some "k", some "title", none⟩).map (·.identity)
        = [first, second]
      ∧ namesakes.property ⟨.all, none, stranger⟩ second fetch = .ok none
      ∧ ¬namesakes.Presents ⟨.all, none, stranger⟩ second := by
  intro first second fetch set s stranger
  have hall : namesakes.history s .any fetch
      = .ok [set first 4 5, set ⟨"subtitle", "k", .empty⟩ 3 3, set ⟨"title", "l", .empty⟩ 9 2,
          set second 2 1, set first 1 1] := by decide
  have hnone : namesakes.property ⟨.all, none, stranger⟩ second fetch = .ok none := by
    decide
  obtain ⟨-, -, -, hproperties, hhistory⟩ := reads_select namesakes ⟨.all, none, .all⟩ fetch
  obtain ⟨-, hunread, -⟩ := reads_select namesakes ⟨.all, none, stranger⟩ fetch
  refine ⟨hall, ?_, ?_, hnone, (hunread second).1 hnone⟩
  · rw [hhistory s _ hall]
    decide
  · rw [hproperties]
    decide

end Log

end Chronicle
