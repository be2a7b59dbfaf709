import Chronicle.Proofs.Authorization
import Chronicle.Proofs.Log.Purging
import Chronicle.Proofs.Log.StableOrder
import Chronicle.Proofs.Session.Steps

/-!
# Deleting a property for good

A deletion looks for the first property that it may be about, hidden or not, and purges the log of
that one.  The look and the purge are two different scans; that they agree on the property is what
makes the deletion take all of it and nothing else.  The look finds only what is there: a property
that has ended in a soft deletion, or was never set, is not found, and its records stay.

* `head?_properties_eq_some_iff`, `head?_properties_eq_none_iff` : what the look finds;
* `deleteProperty_cases` : the two things that can come of a deletion;
* `deleteProperty_frame` : what is taken, and that everything else reads as before;
* `SameOf.run` : records of a property that are gone have no part in what comes later;
* `deleteProperty_purges_iff` : when nothing of the property is left.
-/

namespace Chronicle

namespace Log

variable {log : Log} {v : View} {f : PropertyFilter} {p : Property}

/-! ## What a look finds -/

/-- Of the properties that the filter admits, this is the first that the view shows. -/
structure ShowsFirst (log : Log) (v : View) (f : PropertyFilter) (p : Property) : Prop where
  admitted : f.admits p.identity = true
  shown : log.shown? v p.identity = some p
  least (j : PropertyIdentity) : f.admits j = true → log.Presents v j → j ≠ p.identity →
    compare p.identity j = .lt

theorem head?_properties_eq_none_iff :
    (log.properties v f).head? = none ↔ ∀ i, f.admits i = true → ¬log.Presents v i := by
  rw [List.head?_eq_none_iff]
  constructor
  · intro hnil i hi hpresent
    have hmem := mem_identities_properties_iff.2 ⟨hi, hpresent⟩
    rw [hnil] at hmem
    cases hmem
  · intro hnone
    refine List.eq_nil_iff_forall_not_mem.2 fun p hp => ?_
    obtain ⟨hadmits, hpresent⟩ :=
      mem_identities_properties_iff.1 (List.mem_map_of_mem (f := Property.identity) hp)
    exact hnone p.identity hadmits hpresent

/-- At most one property is the first. -/
theorem ShowsFirst.unique {q : Property} (hp : log.ShowsFirst v f p) (hq : log.ShowsFirst v f q) :
    p = q := by
  by_cases heq : p.identity = q.identity
  · have hshown := hp.shown
    rw [heq, hq.shown] at hshown
    exact (Option.some.inj hshown).symm
  · have hlt := hp.least q.identity hq.admitted
      (isSome_shown?_iff.1 (by rw [hq.shown]; rfl)) (Ne.symm heq)
    have hgt := hq.least p.identity hp.admitted
      (isSome_shown?_iff.1 (by rw [hp.shown]; rfl)) heq
    exact absurd (Std.TransCmp.lt_trans hlt hgt) (Std.Irrefl.irrefl (r := Property.Precedes) p)

/-- Properties are listed in order, so the head of the list is the first. -/
theorem showsFirst_of_head? (h : (log.properties v f).head? = some p) : log.ShowsFirst v f p := by
  obtain ⟨rest, hlist⟩ := List.head?_eq_some_iff.1 h
  have hascending := properties_ascending log v f
  rw [hlist, List.pairwise_cons] at hascending
  obtain ⟨hadmits, hshown⟩ := mem_properties_iff.1 (List.mem_of_mem_head? h)
  refine ⟨hadmits, hshown, fun j hj hpresent hne => ?_⟩
  have hmem := mem_identities_properties_iff.2 ⟨hj, hpresent⟩
  rw [hlist, List.map_cons, List.mem_cons] at hmem
  rcases hmem with hself | hrest
  · exact absurd hself hne
  · obtain ⟨q, hq, rfl⟩ := List.mem_map.1 hrest
    exact hascending.1 q hq

theorem head?_properties_eq_some_iff :
    (log.properties v f).head? = some p ↔ log.ShowsFirst v f p := by
  constructor
  · exact showsFirst_of_head?
  · intro h
    cases hhead : (log.properties v f).head? with
    | none =>
      have hpresent := isSome_shown?_iff.1 (by rw [h.shown]; rfl)
      exact absurd hpresent (head?_properties_eq_none_iff.1 hhead p.identity h.admitted)
    | some q => rw [h.unique (showsFirst_of_head? hhead)]

theorem reached_none (log : Log) (f : PropertyFilter) : log.reached none f = log.recordsOf f := by
  rw [reached_eq_filter_recordsOf]
  exact List.filter_eq_self.2 fun _ _ => rfl

/-- A view of all times shows what the records of the identity fold to. -/
theorem ShowsFirst.fold_eq {hints : FetchHints} {reader : Reader}
    (h : log.ShowsFirst ⟨hints, none, reader⟩ f p) :
    Property.fold hints reader (log.recordsOf (.only p.identity)) = some p := by
  rw [← reached_none]
  exact (fold_of_shown? h.shown).2

end Log

/-! ## What comes of a deletion -/

namespace Session

/-- What is asked of `s` is answered by `s'` as well, unless it is asked of the property. -/
structure AnswersApart (i : PropertyIdentity) (s s' : Session) : Prop where
  log : s.element.log.AlikeApart i s'.element.log
  property (v : View) (j : PropertyIdentity) (hj : j ≠ i) :
    (s'.property v j).1 = (s.property v j).1
  history (f : PropertyFilter) (hf : f.admits i = false) (range : TimeRange) (reader : Reader) :
    (s'.history f range reader).1 = (s.history f range reader).1

/-- A deletion finds nothing and only has its look counted, or it purges what it finds. -/
theorem deleteProperty_cases (s : Session) (f : PropertyFilter) (reader : Reader) :
    let v : View := ⟨.allIncludingHidden, none, reader⟩
    ((s.element.log.properties v f).head? = none
        ∧ s.deleteProperty f reader = (.ok none, s.noteFolds v f))
      ∨ ∃ p, (s.element.log.properties v f).head? = some p
        ∧ s.deleteProperty f reader = (.ok (some p),
            ⟨(s.noteFolds v f).engine.note
                (.removed (s.element.log.length - (s.element.log.purge p.identity).length)),
              { s.element with log := s.element.log.purge p.identity }⟩) := by
  intro v
  rw [deleteProperty, peek, Log.firstStored_eq]
  cases hhead : (s.element.log.properties v f).head? with
  | none => exact Or.inl ⟨rfl, rfl⟩
  | some p => exact Or.inr ⟨p, rfl, rfl⟩

/-- If the log is purged and values are loaded as before, all else is answered as before. -/
theorem answersApart_purge (s : Session) (i : PropertyIdentity) {engine : Engine}
    (hloader : engine.loader = s.engine.loader) (hmarker : engine.marker = s.engine.marker) :
    s.AnswersApart i ⟨engine, { s.element with log := s.element.log.purge i }⟩ where
  log := s.element.log.alikeApart_purge i
  property v j hj := by
    show (s.element.log.purge i).property v j engine.loader.load = _
    rw [hloader, Log.property_purge_of_ne s.element.log v hj]
    rfl
  history f hf range reader := by
    rw [history_fst, history_fst, hloader, hmarker]
    exact s.element.log.history_purge _ hf _

/-- **A deletion takes one property and nothing else.**  It never fails, whatever values are loaded
from.  If nothing that it may be about is there, the element stays as it is.  Otherwise it gives the
first such property with its value as stored, drops exactly the records of that property, and
whatever is asked of anything else is answered as before. -/
theorem deleteProperty_frame (s : Session) (f : PropertyFilter) (reader : Reader) :
    let v : View := ⟨.allIncludingHidden, none, reader⟩
    ∃ deleted s', s.deleteProperty f reader = (.ok deleted, s') ∧ match deleted with
      | none => (∀ i, f.admits i = true → ¬s.element.log.Presents v i) ∧ s'.element = s.element
      | some p => s.element.log.ShowsFirst v f p
        ∧ Property.fold .allIncludingHidden reader (s.element.log.recordsOf (.only p.identity))
            = some p
        ∧ s'.element.id = s.element.id ∧ s'.element.kind = s.element.kind
        ∧ s'.element.log.entries = s.element.log.entries.filter (fun m => !m.isOf p.identity)
        ∧ s.AnswersApart p.identity s' := by
  intro v
  rcases s.deleteProperty_cases f reader with ⟨hhead, heq⟩ | ⟨p, hhead, heq⟩
  · exact ⟨none, _, heq, Log.head?_properties_eq_none_iff.1 hhead, rfl⟩
  · have hfirst := Log.head?_properties_eq_some_iff.1 hhead
    have hengine : (s.noteFolds v f).engine.loader = s.engine.loader
        ∧ (s.noteFolds v f).engine.marker = s.engine.marker := by
      rw [noteFolds, Engine.noteAll_eq]
      exact ⟨rfl, rfl⟩
    exact ⟨some p, _, heq, hfirst, hfirst.fold_eq, rfl, rfl, rfl,
      s.answersApart_purge p.identity hengine.1 hengine.2⟩

/-- An attachment under two labels.  The first is hidden, and its value is in a blob that cannot be
loaded. -/
def attachments : Session where
  engine := ⟨.manual (.still 0), .nothing, none, "", 0⟩
  element := {
    id := ⟨"v", by decide⟩
    kind := .vertex
    log := Log.empty.extend [
      .property ⟨1, ⟨"file", "k", .empty⟩, .setValue (.ref ⟨0, 9, 0, false⟩) OrderedMap.empty⟩,
      .property ⟨1, ⟨"file", "k", ⟨"team"⟩⟩, .setValue (.int 2) OrderedMap.empty⟩,
      .property ⟨3, ⟨"file", "k", .empty⟩, .hide ⟨"board"⟩⟩] }

example :
    let (deleted, s) := attachments.deleteProperty ⟨some "k", some "file", none⟩ .all
    deleted = .ok (some ⟨⟨"file", "k", .empty⟩, .ref ⟨0, 9, 0, false⟩, OrderedMap.empty, 3,
        .ofLabels ["board"]⟩)
      ∧ s.element.log.entries
        = [.property ⟨1, ⟨"file", "k", ⟨"team"⟩⟩, .setValue (.int 2) OrderedMap.empty⟩] := by
  decide

end Session

/-! ## Records that are gone -/

/-- The log after some more operations. -/
def LogOp.runFrom (log : Log) (ops : List LogOp) : Log :=
  ops.foldl (fun log op => (op.onLog log).2) log

namespace Log

variable {i : PropertyIdentity} {l l' : Log}

/-- Both logs have the same records of the property, in the same order. -/
def SameOf (i : PropertyIdentity) (l l' : Log) : Prop :=
  l.entries.filter (·.isOf i) = l'.entries.filter (·.isOf i)

/-- One operation on both logs leaves them with the same records of the property. -/
theorem SameOf.onLog (h : SameOf i l l') (op : LogOp) :
    SameOf i (op.onLog l).2 (op.onLog l').2 := by
  cases op with
  | append batch =>
    have hsort : ∀ log : Log, IsStableSort ((log.extend batch).entries.filter (·.isOf i))
        (log.entries.filter (·.isOf i) ++ batch.filter (·.isOf i)) := by
      intro log
      have hself : IsStableSort log.entries log.entries :=
        ⟨log.sorted, List.Perm.refl _, fun _ => rfl⟩
      rw [← List.filter_append]
      exact isStableSort_filter (isStableSort_extend hself batch) (·.isOf i)
    have hl := hsort l
    rw [h] at hl
    exact hl.unique (hsort l')
  | remove p =>
    show (l.entries.filter _).filter _ = (l'.entries.filter _).filter _
    have hcomm : ∀ entries : List Mutation, (entries.filter fun m => !p m).filter (·.isOf i)
        = (entries.filter (·.isOf i)).filter fun m => !p m := by
      intro entries
      rw [List.filter_filter, List.filter_filter]
      exact List.filter_congr fun m _ => Bool.and_comm _ _
    rw [hcomm, hcomm, h]

/-- So do any operations, one after the other. -/
theorem SameOf.run (h : SameOf i l l') (ops : List LogOp) :
    SameOf i (LogOp.runFrom l ops) (LogOp.runFrom l' ops) := by
  induction ops generalizing l l' with
  | nil => exact h
  | cons op rest ih => exact ih (h.onLog op)

theorem SameOf.recordsOf_eq (h : SameOf i l l') :
    l.recordsOf (.only i) = l'.recordsOf (.only i) := by
  have hof : ∀ m r, Mutation.recordOf? i m = some r → m.isOf i = true := by
    intro m r hm
    obtain ⟨rfl, rfl⟩ := Mutation.eq_property_of_recordOf? hm
    exact beq_self_eq_true r.identity
  rw [recordsOf_only, recordsOf_only, group_eq_said, group_eq_said, ← l.said_keep hof,
    ← l'.said_keep hof]
  exact congrArg (List.filterMap (Mutation.recordOf? i)) h

theorem SameOf.history_eq (h : SameOf i l l') (s : HistoryScope) (fetch : Load) :
    l.history s (.only i) fetch = l'.history s (.only i) fetch := by
  rw [history, history, h.recordsOf_eq]

theorem SameOf.property_eq (h : SameOf i l l') (v : View) (fetch : Load) :
    l.property v i fetch = l'.property v i fetch := by
  rw [property_eq_shown?, property_eq_shown?, shown?, shown?, reached_eq_filter_recordsOf,
    reached_eq_filter_recordsOf, h.recordsOf_eq]

theorem sameOf_purge_empty (log : Log) (i : PropertyIdentity) :
    SameOf i (log.purge i) .empty := by
  refine List.filter_eq_nil_iff.2 fun m hm hof => ?_
  have hkept := (List.mem_filter.1 hm).2
  rw [hof] at hkept
  cases hkept

end Log

namespace Session

variable {s : Session} {i : PropertyIdentity}

/-- Nothing is left of the property, and what is read of it after more operations is what those
operations alone would have left. -/
structure Forgets (i : PropertyIdentity) (s : Session) : Prop where
  noRecord : ∀ m ∈ s.element.log.entries, m.isOf i = false
  history (range : TimeRange) (reader : Reader) : (s.history (.only i) range reader).1 = .ok []
  laterHistory (ops : List LogOp) (scope : HistoryScope) (fetch : Load) :
    (LogOp.runFrom s.element.log ops).history scope (.only i) fetch
      = (LogOp.runLog ops).history scope (.only i) fetch
  laterProperty (ops : List LogOp) (v : View) (fetch : Load) :
    (LogOp.runFrom s.element.log ops).property v i fetch
      = (LogOp.runLog ops).property v i fetch

theorem forgets_purge (engine : Engine) (e : Element) (i : PropertyIdentity) :
    Forgets i ⟨engine, { e with log := e.log.purge i }⟩ where
  noRecord m hm := by
    rw [← Bool.not_eq_true']
    exact (List.mem_filter.1 hm).2
  history range reader := by
    rw [history_fst]
    exact (Log.sameOf_purge_empty e.log i).history_eq _ _
  laterHistory ops := ((Log.sameOf_purge_empty e.log i).run ops).history_eq
  laterProperty ops := ((Log.sameOf_purge_empty e.log i).run ops).property_eq

/-- Everything that ends on a value is there for the reader who is granted everything and asks for
what is hidden too. -/
theorem presents_all_iff (log : Log) (i : PropertyIdentity) :
    log.Presents ⟨.allIncludingHidden, none, .all⟩ i ↔ EndsOnValue (log.recordsOf (.only i)) := by
  rw [← Log.reached_none]
  exact ⟨fun h => h.endsOnValue, fun h => ⟨Reader.canRead_all _, h, Or.inl rfl⟩⟩

/-- **What is deleted for good is what ends on a value.**  If the records of the property end on a
value, none of them is left, and it is as if nothing had been recorded of the property before.  If
they do not, because the property was softly deleted or never set, all of them stay. -/
theorem deleteProperty_purges_iff (s : Session) (i : PropertyIdentity) :
    ∃ deleted s', s.deleteProperty (.only i) .all = (.ok deleted, s') ∧ match deleted with
      | none => ¬EndsOnValue (s.element.log.recordsOf (.only i)) ∧ s'.element = s.element
      | some _ => EndsOnValue (s.element.log.recordsOf (.only i)) ∧ s'.Forgets i := by
  rcases s.deleteProperty_cases (.only i) .all with ⟨hhead, heq⟩ | ⟨p, hhead, heq⟩
  · have hnone := Log.head?_properties_eq_none_iff.1 hhead i (PropertyFilter.admits_only.2 rfl)
    rw [presents_all_iff] at hnone
    exact ⟨none, _, heq, hnone, rfl⟩
  · have hfirst := Log.showsFirst_of_head? hhead
    have hi : p.identity = i := PropertyFilter.admits_only.1 hfirst.admitted
    have hpresent := Log.isSome_shown?_iff.1 (by rw [hfirst.shown]; rfl)
    rw [hi, presents_all_iff] at hpresent
    rw [hi] at heq
    exact ⟨some p, _, heq, hpresent, forgets_purge _ s.element i⟩

/-- A vertex whose only property had a value and was softly deleted. -/
def retired : Session where
  engine := ⟨.manual (.still 0), .nothing, none, "", 0⟩
  element := {
    id := ⟨"v", by decide⟩
    kind := .vertex
    log := Log.empty.extend [
      .property ⟨1, ⟨"n", "k", .empty⟩, .setValue (.int 5) OrderedMap.empty⟩,
      .property ⟨2, ⟨"n", "k", .empty⟩, .softDelete⟩] }

/-- Its records are still there after a deletion for good, and so is its value in its history: not
every deletion that finds nothing leaves nothing behind. -/
theorem not_forgets_retired :
    let i : PropertyIdentity := ⟨"n", "k", .empty⟩
    (retired.deleteProperty (.only i) .all).1 = .ok none
      ∧ ((retired.deleteProperty (.only i) .all).2.history (.only i) .all .all).1
        = .ok [⟨i, some (.int 5), OrderedMap.empty, 2, true⟩,
            ⟨i, some (.int 5), OrderedMap.empty, 1, false⟩]
      ∧ ¬∀ (s : Session) (i : PropertyIdentity),
          (s.deleteProperty (.only i) .all).2.element.log.recordsOf (.only i) = [] := by
  intro i
  have hleft : (retired.deleteProperty (.only i) .all).2.element.log.recordsOf (.only i) ≠ [] := by
    decide
  exact ⟨by decide, by decide, fun hall => hleft (hall retired i)⟩

end Session

end Chronicle
