import Chronicle.Proofs.Log.Agreement
import Chronicle.Proofs.Property.Narrowing

/-!
# The newest entry of a history is the current state

A property and its history are made by two different scans, with different ideas of which records
count: one gathers all hiding and folds each group by itself, the other takes in what the reader may
read and drafts all properties into one list of slots.  Still they agree.  Both depend on one record
only, the last that settles the property: if it sets a value, this is the property's value and the
newest entry; if it deletes, there is no property and the newest entry is the deletion; and if there
is none, there is nothing in either.

* `Log.lastSettling` : the record that settles a property last, as a reader sees it;
* `newest_emitted`, `newest_loaded`, `head?_history` : the newest entry is what that record leaves;
* `property_eq_none`, `property_eq_resolve` : the property is what that record sets;
* `property_eq_newest` : so the two agree.
-/

namespace Chronicle

/-! ## The last record that settles -/

/-- The property ends on a value if the last record that settles it sets one. -/
theorem endsOnValue_iff {records : List PropertyRecord} :
    EndsOnValue records ↔ ∃ r, (settled records).getLast? = some r ∧ r.edit.setsValue = true :=
  exists_lastOccurrence?_iff _ records fun r => r.edit.setsValue = true

/-- The record that settles the property last, up to a moment, if the reader may read it. -/
def Log.lastSettling (log : Log) (asOf : Option Timestamp) (reader : Reader)
    (i : PropertyIdentity) : Option PropertyRecord :=
  if reader.canRead i.visibility then (settled (log.reached asOf (.only i))).getLast? else none

/-! ## The newest entry -/

namespace Occurrence

/-- What settles nothing leaves the entries of other records alone. -/
theorem emitted?_extend_of_not_settles {o : Occurrence PropertyRecord} {r : PropertyRecord}
    (hr : r.edit.settles = false) : (o.extend [r]).emitted? = o.emitted? := by
  refine o.emitted?_extend_of_not_revivedBy ?_
  rw [revivedBy, settledBy, hr, Bool.and_false, Bool.and_false, Bool.false_and]

/-- A record that settles leaves an entry if nothing that settles stands behind it. -/
theorem isSome_emitted?_of_last {o : Occurrence PropertyRecord} (hset : o.item.edit.settles = true)
    (hlast : ∀ a ∈ o.after, a.edit.settles = false) : o.emitted?.isSome = true := by
  have hrevived : o.isRevived = false := by
    have hnone : o.after.find? o.settledBy = none := by
      refine List.find?_eq_none.2 fun a ha => ?_
      rw [settledBy, hlast a ha, Bool.and_false]
      exact Bool.false_ne_true
    rw [isRevived, hnone]
    rfl
  unfold emitted?
  cases he : o.item.edit with
  | setValue v m => rfl
  | softDelete =>
    rw [hrevived]
    rfl
  | _ =>
    rw [he] at hset
    cases hset

end Occurrence

/-- The newest entry is that of the last record that settles, whichever property that is of. -/
theorem newest_emitted (records : List PropertyRecord) :
    ((occurrences records).filterMap Occurrence.emitted?).getLast?
      = (lastSettled? records).bind Occurrence.emitted? := by
  induction records using List.reverseRecOn with
  | nil => rfl
  | append_singleton records r ih =>
    rw [occurrences_append_singleton, List.filterMap_append, lastSettled?,
      lastOccurrence?_append_singleton]
    cases hr : r.edit.settles with
    | true =>
      have hsome : (Occurrence.mk records r []).emitted?.isSome = true :=
        Occurrence.isSome_emitted?_of_last hr fun a ha => absurd ha (List.not_mem_nil)
      obtain ⟨e, he⟩ := Option.isSome_iff_exists.1 hsome
      simp [he]
    | false =>
      have hnone : (Occurrence.mk records r []).emitted? = none := by
        cases he : (Occurrence.mk records r []).emitted? with
        | none => rfl
        | some e =>
          rw [HistoryDraft.settles_of_emitted? he] at hr
          cases hr
      have hextend : Occurrence.emitted? ∘ (·.extend [r]) = Occurrence.emitted? :=
        funext fun o => o.emitted?_extend_of_not_settles hr
      rw [if_neg (by simp), Option.bind_map, List.filterMap_map, hextend,
        List.filterMap_cons_none hnone, List.filterMap_nil, List.append_nil]
      exact ih

namespace Occurrence

variable {o : Occurrence PropertyRecord} {e : HistoryEntry}

/-- An entry is a deletion unless its record sets a value. -/
theorem isDeleted_of_emitted? (h : o.emitted? = some e) :
    e.isDeleted = !o.item.edit.setsValue := by
  unfold emitted? at h
  split at h
  · next he =>
    cases h
    rw [he]
    rfl
  · next he =>
    split at h
    · cases h
    · cases h
      rw [he]
      rfl
  · cases h

/-- The entry of a value has that value. -/
theorem value_of_emitted? (h : o.emitted? = some e) (hset : o.item.edit.setsValue = true) :
    e.value = o.item.edit.value? := by
  obtain ⟨v, m, he⟩ := PropertyEdit.setsValue_iff.1 hset
  unfold emitted? at h
  rw [he] at h ⊢
  cases h
  rfl

end Occurrence

theorem settled_loaded (fetch : Load) (records : List PropertyRecord) :
    settled (records.map (PropertyRecord.loaded fetch))
      = (settled records).map (PropertyRecord.loaded fetch) := by
  rw [settled, List.filter_map]
  refine congrArg _ (List.filter_congr fun r _ => ?_)
  exact r.settles_loaded fetch

/-- The newest entry of loaded records is a deletion or has the loaded value. -/
theorem newest_loaded (fetch : Load) (records : List PropertyRecord) :
    match (settled records).getLast? with
    | none =>
      (occurrences (records.map (PropertyRecord.loaded fetch))).filterMap Occurrence.emitted? = []
    | some r =>
      ∃ e, ((occurrences (records.map (PropertyRecord.loaded fetch))).filterMap
          Occurrence.emitted?).getLast? = some e
        ∧ e.isDeleted = !r.edit.setsValue
        ∧ (r.edit.setsValue = true → e.value = (r.loaded fetch).edit.value?) := by
  have hnewest := newest_emitted (records.map (PropertyRecord.loaded fetch))
  have hitem : (lastSettled? (records.map (PropertyRecord.loaded fetch))).map Occurrence.item
      = (settled records).getLast?.map (PropertyRecord.loaded fetch) := by
    rw [lastSettled?, map_item_lastOccurrence?, ← List.getLast?_map, ← settled_loaded]
    rfl
  cases hlast : (settled records).getLast? with
  | none =>
    rw [hlast, Option.map_none, Option.map_eq_none_iff] at hitem
    rw [hitem, Option.bind_none, List.getLast?_eq_none_iff] at hnewest
    exact hnewest
  | some r =>
    rw [hlast] at hitem
    obtain ⟨o, ho, hor⟩ := Option.map_eq_some_iff.1 hitem
    obtain ⟨-, hset, hafter⟩ := lastOccurrence?_eq_some_iff.1 ho
    obtain ⟨e, he⟩ := Option.isSome_iff_exists.1 (Occurrence.isSome_emitted?_of_last hset hafter)
    refine ⟨e, ?_, ?_, fun hvalue => ?_⟩
    · rw [hnewest, ho]
      exact he
    · rw [Occurrence.isDeleted_of_emitted? he, hor, PropertyRecord.setsValue_loaded]
    · rw [← hor]
      refine Occurrence.value_of_emitted? he ?_
      rw [hor, PropertyRecord.setsValue_loaded, hvalue]

namespace Log

variable {log : Log} {asOf : Option Timestamp} {reader : Reader} {i : PropertyIdentity}
  {marker : String} {fetch : Load} {es : List HistoryEntry}

/-- The history of one property up to a moment is made of the records that reach the moment, as far
as the reader may read them. -/
theorem admitted_only (hmarker : marker = "" ∨ i.visibility.mentions marker = false) :
    HistoryScope.admitted ⟨⟨none, asOf⟩, reader, marker⟩
        ((log.recordsOf (.only i)).map PropertyRecord.guarded)
      = (log.reached asOf (.only i)).filter fun r => reader.canRead r.visibility := by
  have hexcludes : HistoryScope.excludes ⟨⟨none, asOf⟩, reader, marker⟩ i.visibility = false := by
    rw [HistoryScope.excludes]
    rcases hmarker with rfl | hmentions
    · rfl
    · rw [hmentions, Bool.and_false]
  rw [HistoryScope.admitted_guarded, recordsOf, reached, List.filter_filter, List.filter_filter]
  refine List.filter_congr fun r _ => ?_
  cases hi : (PropertyFilter.only i).admits r.identity with
  | false => simp
  | true =>
    have hr : r.guarded.record.identity = i := PropertyFilter.admits_only.1 hi
    rw [HistoryScope.admits, hr, hexcludes]
    simp only [PropertyRecord.guarded, TimeRange.upTo, Bool.not_false, Bool.and_true, Bool.true_and]
    exact Bool.and_comm _ _

/-- Of what the reader may read, the same settles the property as of all records if the reader may
read the property, and nothing if not. -/
theorem getLast?_settled_readable (log : Log) (asOf : Option Timestamp) (reader : Reader)
    (i : PropertyIdentity) :
    (settled ((log.reached asOf (.only i)).filter fun r => reader.canRead r.visibility)).getLast?
      = log.lastSettling asOf reader i := by
  have hlabel : ∀ r ∈ settled (log.reached asOf (.only i)), r.visibility = i.visibility := by
    intro r hr
    obtain ⟨hmem, hset⟩ := List.mem_filter.1 hr
    rw [PropertyRecord.visibility_of_not_toggle (PropertyEdit.not_toggle_of_settles hset),
      identity_of_mem_reached hmem]
  have hcomm : settled ((log.reached asOf (.only i)).filter fun r => reader.canRead r.visibility)
      = (settled (log.reached asOf (.only i))).filter fun r => reader.canRead r.visibility := by
    rw [settled, settled, List.filter_filter, List.filter_filter]
    exact List.filter_congr fun r _ => Bool.and_comm _ _
  rw [hcomm, lastSettling]
  split
  · next hi =>
    rw [List.filter_eq_self.2 fun r hr => ?_]
    rw [hlabel r hr, hi]
  · next hi =>
    rw [List.filter_eq_nil_iff.2 fun r hr => ?_]
    · rfl
    · rw [hlabel r hr]
      exact hi

/-- The newest entry of a history is what the record leaves that settles the property last. -/
theorem head?_history (hmarker : marker = "" ∨ i.visibility.mentions marker = false)
    (hes : log.history ⟨⟨none, asOf⟩, reader, marker⟩ (.only i) fetch = .ok es) :
    match log.lastSettling asOf reader i with
    | none => es = []
    | some r => r.refusal? fetch = none
        ∧ ∃ e, es.head? = some e ∧ e.isDeleted = !r.edit.setsValue
          ∧ (r.edit.setsValue = true → e.value = (r.loaded fetch).edit.value?) := by
  rw [history, HistoryScope.history, HistoryScope.reconstruct_eq, admitted_only hmarker] at hes
  rw [← getLast?_settled_readable]
  generalize (log.reached asOf (.only i)).filter (fun r => reader.canRead r.visibility) = records
    at hes ⊢
  cases hrefusal : records.findSome? (PropertyRecord.refusal? fetch) with
  | some e =>
    rw [hrefusal] at hes
    cases hes
  | none =>
    rw [hrefusal] at hes
    cases hes
    have hnewest := newest_loaded fetch records
    cases hlast : (settled records).getLast? with
    | none =>
      rw [hlast] at hnewest
      show List.reverse _ = []
      rw [hnewest, List.reverse_nil]
    | some r =>
      rw [hlast, ← List.head?_reverse] at hnewest
      have hmem : r ∈ records := (List.mem_filter.1 (List.mem_of_getLast? hlast)).1
      exact ⟨List.findSome?_eq_none_iff.1 hrefusal r hmem, hnewest⟩

end Log

/-! ## The current state -/

/-- If hiding does not matter, the value of a property is what the last record that settles it
sets. -/
theorem Property.map_value_fold (hints : FetchHints) (reader : Reader)
    (records : List PropertyRecord) (hhidden : hints.includeHidden = true) :
    (Property.fold hints reader records).map (·.value)
      = (settled records).getLast?.bind fun r => r.edit.value? := by
  cases hfold : Property.fold hints reader records with
  | some p =>
    obtain ⟨o, m, ho, he, -⟩ := standing_fold hfold
    have hlast : (settled records).getLast? = some o.item := by
      rw [settled, ← map_item_lastOccurrence?]
      exact congrArg (Option.map Occurrence.item) ho
    rw [hlast, Option.bind_some, he]
    rfl
  | none =>
    have hends : ¬EndsOnValue records := by
      intro h
      have hsome := (isSome_fold_iff hints reader records).2 ⟨h, Or.inl hhidden⟩
      rw [hfold] at hsome
      cases hsome
    symm
    rw [Option.map_none, Option.bind_eq_none_iff]
    intro r hr
    by_contra hvalue
    exact hends (endsOnValue_iff.2 ⟨r, hr, Option.isSome_iff_ne_none.2 hvalue⟩)

namespace Log

variable {log : Log} {asOf : Option Timestamp} {reader : Reader} {i : PropertyIdentity}

/-- A property, hidden or not, has the value of the record that settles it last. -/
theorem map_value_properties (log : Log) (asOf : Option Timestamp) (reader : Reader)
    (i : PropertyIdentity) :
    (log.properties ⟨.allIncludingHidden, asOf, reader⟩ (.only i)).map (·.value)
      = ((log.lastSettling asOf reader i).bind fun r => r.edit.value?).toList := by
  rw [properties_only, lastSettling]
  cases hread : reader.canRead i.visibility with
  | false => rfl
  | true =>
    rw [if_pos rfl, if_pos rfl, ← Property.map_value_fold .allIncludingHidden reader _ rfl]
    cases Property.fold .allIncludingHidden reader (log.reached asOf (.only i)) <;> rfl

/-- There is no property if what settles it last sets no value. -/
theorem property_eq_none (h : (log.lastSettling asOf reader i).bind (fun r => r.edit.value?) = none)
    (fetch : Load) : log.property ⟨.allIncludingHidden, asOf, reader⟩ i fetch = .ok none := by
  have hvalues := log.map_value_properties asOf reader i
  rw [h, Option.toList_none, List.map_eq_nil_iff] at hvalues
  rw [property, resolved, hvalues]
  rfl

/-- Else it is what the last value set is loaded to. -/
theorem property_eq_resolve {v : PropValue}
    (h : (log.lastSettling asOf reader i).bind (fun r => r.edit.value?) = some v) (fetch : Load) :
    ∃ p : Property, p.value = v
      ∧ log.property ⟨.allIncludingHidden, asOf, reader⟩ i fetch = (p.resolve fetch).map some := by
  have hvalues := log.map_value_properties asOf reader i
  rw [h, Option.toList_some, List.map_eq_singleton_iff] at hvalues
  obtain ⟨p, hp, hv⟩ := hvalues
  refine ⟨p, hv, ?_⟩
  rw [property, resolved, hp]
  rfl

end Log

/-! ## Both at once -/

/-- If loading does not depend on the time, a property is loaded to what the record is that set its
value. -/
theorem Property.resolve_eq_loaded {fetch : Load} (hfetch : ∀ r t t', fetch r t = fetch r t')
    {p : Property} {r : PropertyRecord} (hvalue : r.edit.value? = some p.value)
    (hrefusal : r.refusal? fetch = none) :
    ∃ v, p.resolve fetch = .ok { p with value := v } ∧ (r.loaded fetch).edit.value? = some v := by
  obtain ⟨ts, i, edit⟩ := r
  obtain ⟨w, m, rfl⟩ := PropertyEdit.setsValue_iff.1 (Option.isSome_iff_exists.2 ⟨p.value, hvalue⟩)
  obtain rfl : w = p.value := Option.some.inj hvalue
  rw [resolve]
  cases hp : p.value with
  | ref ref =>
    rw [hp] at hrefusal
    cases hload : fetch ref ts with
    | error e =>
      simp only [PropertyRecord.refusal?, hload] at hrefusal
      cases hrefusal
    | ok v =>
      refine ⟨v, ?_, ?_⟩
      · rw [PropValue.load, hfetch ref p.timestamp ts, hload]
        rfl
      · simp only [PropertyRecord.loaded, hload]
        rfl
  | _ => exact ⟨p.value, by rw [hp]; rfl, by rw [hp]; rfl⟩

namespace Log

variable {log : Log} {asOf : Option Timestamp} {reader : Reader} {i : PropertyIdentity}
  {marker : String} {fetch : Load} {es : List HistoryEntry}

/-- **Current reads and history agree.**  If loading does not depend on the time and the history of
a property up to a moment can be read, the property is there as of that moment exactly when the
newest entry is not a deletion, with the value of that entry; and it is not there exactly when the
history is empty or its newest entry is a deletion. -/
theorem property_eq_newest (hfetch : ∀ r t t', fetch r t = fetch r t')
    (hmarker : marker = "" ∨ i.visibility.mentions marker = false)
    (hes : log.history ⟨⟨none, asOf⟩, reader, marker⟩ (.only i) fetch = .ok es) :
    let read := log.property ⟨.allIncludingHidden, asOf, reader⟩ i fetch
    ((∃ p, read = .ok (some p)) ↔ ∃ e, es.head? = some e ∧ e.isDeleted = false)
      ∧ (∀ p, read = .ok (some p) → ∃ e, es.head? = some e ∧ e.value = some p.value)
      ∧ (read = .ok none ↔ es = [] ∨ ∃ e, es.head? = some e ∧ e.isDeleted = true) := by
  intro read
  have hnewest := head?_history hmarker hes
  cases hlast : log.lastSettling asOf reader i with
  | none =>
    rw [hlast] at hnewest
    have hread : read = .ok none := property_eq_none (by rw [hlast]; rfl) fetch
    rw [hread, hnewest]
    simp
  | some r =>
    rw [hlast] at hnewest
    obtain ⟨hrefusal, e, he, hdeleted, hvalue⟩ := hnewest
    have hne : es ≠ [] := by
      rintro rfl
      cases he
    cases hv : r.edit.value? with
    | none =>
      have hread : read = .ok none := property_eq_none (by rw [hlast]; exact hv) fetch
      have hdel : e.isDeleted = true := by
        rw [hdeleted, PropertyEdit.setsValue, hv]
        rfl
      rw [hread]
      simp [he, hdel]
    | some v =>
      obtain ⟨p, rfl, hread⟩ := property_eq_resolve (by rw [hlast]; exact hv) fetch
      obtain ⟨w, hresolve, hloaded⟩ := Property.resolve_eq_loaded hfetch hv hrefusal
      have hset : r.edit.setsValue = true := by
        rw [PropertyEdit.setsValue, hv]
        rfl
      have hdel : e.isDeleted = false := by
        rw [hdeleted, hset]
        rfl
      have hew : e.value = some w := (hvalue hset).trans hloaded
      rw [hresolve] at hread
      have hthere : read = .ok (some { p with value := w }) := hread
      rw [hthere]
      simp [he, hdel, hew, hne]

/-- A title that is set, deleted, set again to what a blob has, annotated, and hidden by the board;
the records did not come in this order. -/
def draftTitle : Log :=
  Log.empty.extend [
    .property ⟨6, ⟨"title", "k", .empty⟩, .setValue (.ref ⟨1, 8, 0, false⟩) OrderedMap.empty⟩,
    .property ⟨5, ⟨"title", "k", .empty⟩, .softDelete⟩,
    .property ⟨8, ⟨"title", "k", .empty⟩, .hide ⟨"board"⟩⟩,
    .property ⟨2, ⟨"title", "k", .empty⟩, .setValue (.int 1) OrderedMap.empty⟩,
    .property ⟨7, ⟨"title", "k", .empty⟩, .annotate OrderedMap.empty⟩]

/-- In the end the title is what the blob has, and at time 5 it is deleted. -/
theorem property_eq_newest_draftTitle :
    let i : PropertyIdentity := ⟨"title", "k", .empty⟩
    let reader : Reader := .holding (.ofLabels [])
    let fetch : Load := fun _ _ => .ok (.int 9)
    let set (n : Int64) (ts : Timestamp) : HistoryEntry :=
      ⟨i, some (.int n), OrderedMap.empty, ts, false⟩
    (∀ r t t', fetch r t = fetch r t') ∧ i.visibility.mentions "draft" = false
      ∧ draftTitle.history ⟨⟨none, none⟩, reader, "draft"⟩ (.only i) fetch
        = .ok [set 9 6, set 1 2]
      ∧ draftTitle.history ⟨⟨none, some 5⟩, reader, "draft"⟩ (.only i) fetch
        = .ok [{ set 1 5 with isDeleted := true }, set 1 2]
      ∧ (∃ p, draftTitle.property ⟨.allIncludingHidden, none, reader⟩ i fetch = .ok (some p)
          ∧ p.value = .int 9)
      ∧ draftTitle.property ⟨.allIncludingHidden, some 5, reader⟩ i fetch = .ok none := by
  intro i reader fetch set
  have hfetch : ∀ r t t', fetch r t = fetch r t' := fun _ _ _ => rfl
  have hmarker : i.visibility.mentions "draft" = false := by decide
  have hend : draftTitle.history ⟨⟨none, none⟩, reader, "draft"⟩ (.only i) fetch
      = .ok [set 9 6, set 1 2] := by decide
  have hdeleted : draftTitle.history ⟨⟨none, some 5⟩, reader, "draft"⟩ (.only i) fetch
      = .ok [{ set 1 5 with isDeleted := true }, set 1 2] := by decide
  obtain ⟨hthere, hvalue, -⟩ := property_eq_newest hfetch (Or.inr hmarker) hend
  obtain ⟨-, -, hgone⟩ := property_eq_newest hfetch (Or.inr hmarker) hdeleted
  obtain ⟨p, hp⟩ := hthere.2 ⟨set 9 6, rfl, rfl⟩
  obtain ⟨e, he, hep⟩ := hvalue p hp
  cases he
  refine ⟨hfetch, hmarker, hend, hdeleted, ⟨p, hp, (Option.some.inj hep).symm⟩, ?_⟩
  exact hgone.2 (Or.inr ⟨_, rfl, rfl⟩)

end Log

end Chronicle
