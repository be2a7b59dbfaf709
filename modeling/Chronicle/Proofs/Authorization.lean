import Mathlib.Data.List.Forall2
import Chronicle.Session
import Chronicle.Proofs.Log.Grouping
import Chronicle.Proofs.Property.Narrowing

/-!
# Authorization only filters

Of two readers let `B` be granted all that `A` is granted.  Then `A` reads from a log what `B` reads
of the properties that `A` may read, and nothing else, also when a property is hidden under a label
that only `B` may read.

* `Log.properties_narrower` : the properties, with values as stored;
* `Log.resolved_of_storesInline` : without references there is nothing to load;
* `Session.narrower_reads_sublist` : properties and histories as a session reads them.
-/

namespace Chronicle

variable {A B : Reader}

namespace Log

/-- No value in the log is a reference. -/
def StoresInline (log : Log) : Prop :=
  ∀ r ∈ log.propertyRecords, ∀ v m, r.edit = .setValue v m → v.reference? = none

/-- The property that comes out of a group is the one that the group is of. -/
theorem identity_of_fold_group {hints : FetchHints} {reader : Reader}
    {records : List PropertyRecord} {i : PropertyIdentity} {p : Property}
    (h : Property.fold hints reader (group records i) = some p) : p.identity = i :=
  Property.identity_of_fold (fun _ hr => eq_of_beq (List.mem_filter.1 hr).2) h

theorem filter_fold_group (kept : PropertyIdentity → Bool) (hints : FetchHints) (reader : Reader)
    (records : List PropertyRecord) (i : PropertyIdentity) :
    (Property.fold hints reader (group records i)).filter (fun q => kept q.identity)
      = if kept i then Property.fold hints reader (group records i) else none := by
  cases hq : Property.fold hints reader (group records i) with
  | none => simp
  | some q => rw [Option.filter_some, identity_of_fold_group hq]

/-- What the wider reader is shown of the properties that the narrower one may read comes from the
identities that the narrower one may read. -/
theorem filter_properties (hAB : ∀ l, A.grants l = true → B.grants l = true) (log : Log)
    (hints : FetchHints) (asOf : Option Timestamp) (f : PropertyFilter) :
    (log.properties ⟨hints, asOf, B⟩ f).filter (fun q => A.canRead q.identity.visibility)
      = ((PropertyRecord.identities (log.reached asOf f)).filter
            fun i => A.canRead i.visibility).filterMap
          fun i => Property.fold hints B (group (log.reached asOf f) i) := by
  rw [properties_eq, List.filter_filterMap, List.filterMap_filter, List.filterMap_filter]
  refine congrArg (fun g => List.filterMap g _) (funext fun i => ?_)
  rw [filter_fold_group fun i => A.canRead i.visibility]
  cases hA : A.canRead i.visibility with
  | true => rw [if_pos (Reader.canRead_mono hAB hA)]
  | false => exact ite_self none

/-- The narrower reader is shown, in the same order, what the wider one is shown of the properties
that the narrower one may read. -/
theorem properties_narrower (hAB : ∀ l, A.grants l = true → B.grants l = true) (log : Log)
    (hints : FetchHints) (asOf : Option Timestamp) (f : PropertyFilter) :
    List.Forall₂ (Property.SeenBy A) (log.properties ⟨hints, asOf, A⟩ f)
      ((log.properties ⟨hints, asOf, B⟩ f).filter fun q => A.canRead q.identity.visibility) := by
  rw [filter_properties hAB, properties_eq]
  refine List.rel_filterMap (R := Eq) ?_ (List.forall₂_refl _)
  rintro i _ rfl
  exact Property.fold_seenBy hAB hints (group (log.reached asOf f) i)

/-- The value of a property was set by a record of the log that is not later than the property. -/
theorem exists_setValue_of_mem_properties {log : Log} {v : View} {f : PropertyFilter}
    {p : Property} (hp : p ∈ log.properties v f) :
    ∃ r ∈ log.propertyRecords, ∃ m, r.edit = .setValue p.value m
      ∧ r.timestamp ≤ p.timestamp := by
  rw [properties_eq, List.mem_filterMap] at hp
  obtain ⟨i, -, hfold⟩ := hp
  obtain ⟨o, m, ho, he, -⟩ := Property.standing_fold hfold
  have hmem : o.item ∈ group (log.reached v.asOf f) i := item_mem_of_lastOccurrence? ho
  -- a record that sets a value counts for the property's time, whoever reads
  have hcounts : o.item.timestamp
      ∈ Fold.countedTimes v.reader (group (log.reached v.asOf f) i) := by
    refine ⟨o.item, hmem, ?_, rfl⟩
    intro htoggle
    rw [he] at htoggle
    cases htoggle
  exact ⟨o.item, (List.mem_filter.1 (List.mem_filter.1 hmem).1).1, m, he,
    (Property.timestamp_fold hfold).2 hcounts⟩

end Log

theorem Property.resolve_of_inline {p : Property} (h : p.value.reference? = none) (fetch : Load) :
    p.resolve fetch = .ok p := by
  obtain ⟨i, value, metadata, ts, hidden⟩ := p
  cases value with
  | ref r => cases h
  | _ => rfl

/-- Without references there is nothing to load. -/
theorem Log.resolved_of_storesInline {log : Log} (h : log.StoresInline) (v : View)
    (f : PropertyFilter) (fetch : Load) :
    log.resolved v f fetch = (log.properties v f).map .ok := by
  rw [resolved]
  refine List.map_congr_left fun p hp => ?_
  obtain ⟨r, hr, m, he, -⟩ := exists_setValue_of_mem_properties hp
  exact p.resolve_of_inline (h r hr p.value m he) fetch

namespace Session

theorem history_fst (s : Session) (f : PropertyFilter) (range : TimeRange) (reader : Reader) :
    (s.history f range reader).1
      = s.element.log.history ⟨range, reader, s.engine.marker⟩ f s.engine.loader.load := by
  rw [history]
  split
  · next h => exact h.symm
  · next h => exact h.symm

/-- **Losing an authorization only filters.**  With all values stored inline, the narrower reader is
shown in the same order the properties of the wider one that the narrower one may read.  Whenever
the wider reader's history can be read, so can the narrower one's, with the same choice of
entries. -/
theorem narrower_reads_sublist (s : Session) (hAB : ∀ l, A.grants l = true → B.grants l = true) :
    (s.element.log.StoresInline → ∀ hints asOf, ∃ ps qs : List Property,
        (s.properties ⟨hints, asOf, A⟩ none).2.1 = ps.map .ok
          ∧ (s.properties ⟨hints, asOf, B⟩ none).2.1 = qs.map .ok
          ∧ List.Forall₂ (Property.SeenBy A) ps
              (qs.filter fun q => A.canRead q.identity.visibility))
      ∧ ∀ f range es, (s.history f range B).1 = .ok es →
          (s.history f range A).1 = .ok (es.filter fun e => A.canRead e.identity.visibility) := by
  constructor
  · intro hinline hints asOf
    refine ⟨s.element.log.properties ⟨hints, asOf, A⟩ .any,
      s.element.log.properties ⟨hints, asOf, B⟩ .any, ?_, ?_, ?_⟩
    · exact Log.resolved_of_storesInline hinline ⟨hints, asOf, A⟩ .any s.engine.loader.load
    · exact Log.resolved_of_storesInline hinline ⟨hints, asOf, B⟩ .any s.engine.loader.load
    · exact Log.properties_narrower hAB s.element.log hints asOf .any
  · intro f range es hes
    rw [history_fst] at hes ⊢
    exact HistoryScope.history_narrower hAB hes

/-- A plan that a team may read and a price that only the board may read; the plan is hidden under
the board's label. -/
def boardroom : Session where
  engine := ⟨.manual (.still 0), .nothing, none, "", 0⟩
  element := {
    id := ⟨"e", by decide⟩
    kind := .vertex
    log := Log.empty.extend [
      .property ⟨1, ⟨"plan", "k", ⟨"team"⟩⟩, .setValue (.int 1) OrderedMap.empty⟩,
      .property ⟨2, ⟨"price", "k", ⟨"board"⟩⟩, .setValue (.int 2) OrderedMap.empty⟩,
      .property ⟨9, ⟨"plan", "k", ⟨"team"⟩⟩, .hide ⟨"board"⟩⟩] }

/-- The reader who is granted the team's label. -/
def team : Reader := .holding (.ofLabels ["team"])

/-- The reader who is granted the team's label and the board's. -/
def board : Reader := .holding (.ofLabels ["board", "team"])

/-- The team reads the plan, and not the price. -/
theorem narrower_reads_sublist_boardroom :
    (∀ l, team.grants l = true → board.grants l = true)
      ∧ boardroom.element.log.StoresInline
      ∧ (∃ ps qs : List Property,
          (boardroom.properties ⟨.allIncludingHidden, none, team⟩ none).2.1 = ps.map .ok
            ∧ (boardroom.properties ⟨.allIncludingHidden, none, board⟩ none).2.1 = qs.map .ok
            ∧ List.Forall₂ (Property.SeenBy team) ps
                (qs.filter fun q => team.canRead q.identity.visibility)
            ∧ ps.length = 1 ∧ qs.length = 2)
      ∧ ∃ plan price : HistoryEntry, (boardroom.history .any .all board).1 = .ok [price, plan]
          ∧ (boardroom.history .any .all team).1 = .ok [plan] := by
  have hAB : ∀ l, team.grants l = true → board.grants l = true := by
    intro l hl
    have hteam : l = ⟨"team"⟩ := by
      by_contra hne
      simp [team, Reader.holding, LabelSet.ofLabels, LabelSet.add, OrderedMap.contains,
        OrderedMap.get?_insert, hne] at hl
    rw [hteam]
    decide
  have hinline : boardroom.element.log.StoresInline := by
    have hall : ∀ r ∈ boardroom.element.log.propertyRecords,
        r.edit.value?.all (fun v => v.reference?.isNone) = true := by decide
    intro r hr v m he
    have hv := hall r hr
    rw [he] at hv
    exact Option.isNone_iff_eq_none.1 hv
  obtain ⟨hprops, hhist⟩ := narrower_reads_sublist boardroom hAB
  obtain ⟨ps, qs, hps, hqs, hseen⟩ := hprops hinline .allIncludingHidden none
  refine ⟨hAB, hinline, ⟨ps, qs, hps, hqs, hseen, ?_, ?_⟩, ?_⟩
  · have hlen := congrArg List.length hps
    rw [List.length_map] at hlen
    rw [← hlen]
    decide
  · have hlen := congrArg List.length hqs
    rw [List.length_map] at hlen
    rw [← hlen]
    decide
  · refine ⟨⟨⟨"plan", "k", ⟨"team"⟩⟩, some (.int 1), OrderedMap.empty, 1, false⟩,
      ⟨⟨"price", "k", ⟨"board"⟩⟩, some (.int 2), OrderedMap.empty, 2, false⟩, ?_, ?_⟩
    · rfl
    · exact hhist .any .all _ rfl

end Session

end Chronicle
