import Chronicle.Proofs.Property.Folding
import Chronicle.Proofs.Property.Reconstruction

/-!
# What a narrower reader sees of properties

A reader who is granted less sees less, but never something else.  A property that both readers
can see has the same value and the same metadata for both, since these do not depend on the reader.
Its time may be earlier for the narrower one, who is not told of all hiding, and of the labels that
hide it the narrower one is told those that they may read.

In a history only the records of readable properties leave an entry, so what the narrower reader
gets is what the other gets of the properties that they may read.

* `fold_seenBy` : one property as two readers see it;
* `filterMap_emitted?_filter` : the entries that are left when records are dropped.
-/

namespace Chronicle

theorem Reader.canRead_mono {A B : Reader} (hAB : ∀ l, A.grants l = true → B.grants l = true)
    {v : Visibility} (h : A.canRead v = true) : B.canRead v = true := by
  rw [canRead_iff] at h ⊢
  exact h.imp_right (hAB v)

namespace Property

/-- `p` is the property `q` as far as the reader `A` may see it. -/
structure SeenBy (A : Reader) (p q : Property) : Prop where
  identity : p.identity = q.identity
  value : p.value = q.value
  metadata : p.metadata = q.metadata
  timestamp : p.timestamp ≤ q.timestamp
  hiddenUnder : p.hiddenUnder = q.hiddenUnder.filterKeys A.canRead

variable {A B : Reader} {hints : FetchHints} {records : List PropertyRecord} {p q : Property}

/-- What counts for the time under a reader counts under every reader who is granted more. -/
theorem countedTimes_mono (hAB : ∀ l, A.grants l = true → B.grants l = true)
    (records : List PropertyRecord) :
    Fold.countedTimes A records ⊆ Fold.countedTimes B records := by
  rintro ts ⟨r, hr, hcount, rfl⟩
  exact ⟨r, hr, fun htog => Reader.canRead_mono hAB (hcount htog), rfl⟩

theorem hiddenUnder_eq_filterKeys (hAB : ∀ l, A.grants l = true → B.grants l = true)
    (hp : Property.fold hints A records = some p) (hq : Property.fold hints B records = some q) :
    p.hiddenUnder = q.hiddenUnder.filterKeys A.canRead := by
  refine OrderedMap.ext_keys fun label => ?_
  rw [OrderedMap.keys_filterKeys, List.mem_filter, mem_hiddenUnder_fold hp, mem_hiddenUnder_fold hq]
  constructor
  · rintro ⟨hnet, hread⟩
    exact ⟨⟨hnet, Reader.canRead_mono hAB hread⟩, hread⟩
  · rintro ⟨⟨hnet, -⟩, hread⟩
    exact ⟨hnet, hread⟩

theorem seenBy_of_fold (hAB : ∀ l, A.grants l = true → B.grants l = true)
    (hp : Property.fold hints A records = some p) (hq : Property.fold hints B records = some q) :
    SeenBy A p q := by
  obtain ⟨o, m, ho, hv, hm⟩ := standing_fold hp
  obtain ⟨o', m', ho', hv', hm'⟩ := standing_fold hq
  obtain rfl : o = o' := Option.some.inj (ho.symm.trans ho')
  rw [hv, PropertyEdit.setValue.injEq] at hv'
  obtain ⟨hvalue, rfl⟩ := hv'
  refine ⟨?_, hvalue, hm.trans hm'.symm, ?_, hiddenUnder_eq_filterKeys hAB hp hq⟩
  · exact Option.some.inj ((identity_fold hp).symm.trans (identity_fold hq))
  · exact (timestamp_fold hq).2 (countedTimes_mono hAB records (timestamp_fold hp).1)

/-- The same records are there for both readers or for neither. -/
theorem fold_seenBy (hAB : ∀ l, A.grants l = true → B.grants l = true) (hints : FetchHints)
    (records : List PropertyRecord) :
    Option.Rel (SeenBy A) (Property.fold hints A records) (Property.fold hints B records) := by
  have hsome : (Property.fold hints A records).isSome = (Property.fold hints B records).isSome := by
    rw [Bool.eq_iff_iff, isSome_fold_iff, isSome_fold_iff]
  cases hp : Property.fold hints A records with
  | none =>
    rw [hp, Option.isSome_none, eq_comm, Option.isSome_eq_false_iff, Option.isNone_iff_eq_none]
      at hsome
    rw [hsome]
    exact Option.Rel.none
  | some p =>
    rw [hp, Option.isSome_some, eq_comm, Option.isSome_iff_exists] at hsome
    obtain ⟨q, hq⟩ := hsome
    rw [hq]
    exact Option.Rel.some (seenBy_of_fold hAB hp hq)

end Property

/-! ## Histories -/

namespace Occurrence

variable {p : PropertyRecord → Bool} {kept : PropertyIdentity → Bool}

/-- The entry that a record leaves is one of its property. -/
theorem identity_of_emitted? {o : Occurrence PropertyRecord} {e : HistoryEntry}
    (h : o.emitted? = some e) : e.identity = o.item.identity := by
  unfold emitted? at h
  split at h
  · cases h
    rfl
  · split at h
    · cases h
    · cases h
      rfl
  · cases h

/-- The entry that a record leaves is of the record's time. -/
theorem timestamp_of_emitted? {o : Occurrence PropertyRecord} {e : HistoryEntry}
    (h : o.emitted? = some e) :
    e.timestamp = o.item.timestamp := by
  unfold emitted? at h
  split at h
  · cases h
    rfl
  · split at h
    · cases h
    · cases h
      rfl
  · cases h

/-- Whether a property is revived is not for records of other properties to say. -/
theorem isRevived_filter (hp : ∀ r, r.edit.isToggle = false → p r = kept r.identity)
    {o : Occurrence PropertyRecord} (ho : kept o.item.identity = true) :
    (o.filter p).isRevived = o.isRevived := by
  have hfind : (o.after.filter p).find? o.settledBy = o.after.find? o.settledBy := by
    rw [List.find?_filter]
    refine congrArg (fun q => o.after.find? q) (funext fun a => ?_)
    cases ha : o.settledBy a with
    | false => simp
    | true =>
      rw [settledBy, Bool.and_eq_true] at ha
      have hpa : p a = true := by
        rw [hp a (PropertyEdit.not_toggle_of_settles ha.2), eq_of_beq ha.1, ho]
      simp [hpa]
  rw [isRevived, isRevived, ← hfind]
  rfl

/-- What a kept property had before is left when only other properties' records are dropped. -/
theorem standing_earlier_filter (hp : ∀ r, r.edit.isToggle = false → p r = kept r.identity)
    {o : Occurrence PropertyRecord} (ho : kept o.item.identity = true) :
    valueOf (o.filter p).earlier = valueOf o.earlier
      ∧ metadataOf (o.filter p).earlier = metadataOf o.earlier := by
  have hearlier : (o.filter p).earlier = o.earlier.filter p := by
    rw [earlier, earlier, List.filter_filter]
    show (o.before.filter p).filter (fun a => a.identity == o.item.identity) = _
    rw [List.filter_filter]
    exact List.filter_congr fun a _ => Bool.and_comm _ _
  rw [hearlier]
  refine standing_filter fun r hr hdrop => ?_
  have hid : r.identity = o.item.identity := eq_of_beq (List.mem_filter.1 hr).2
  rw [← Bool.not_eq_false]
  intro hno
  rw [hp r hno, hid, ho] at hdrop
  cases hdrop

/-- A kept record leaves the entry that it would leave among all records. -/
theorem emitted?_filter (hp : ∀ r, r.edit.isToggle = false → p r = kept r.identity)
    {o : Occurrence PropertyRecord} (ho : p o.item = true) :
    (o.filter p).emitted? = o.emitted? := by
  unfold emitted?
  rw [show (o.filter p).item = o.item from rfl]
  cases he : o.item.edit with
  | softDelete =>
    have hkept : kept o.item.identity = true := by
      rw [← hp o.item (by rw [he]; rfl), ho]
    obtain ⟨hv, hm⟩ := standing_earlier_filter hp hkept
    simp only [isRevived_filter hp hkept, hv, hm]
  | _ => rfl

end Occurrence

/-- When the records of some properties are dropped, the entries of the others are left. -/
theorem filterMap_emitted?_filter (p : PropertyRecord → Bool) (kept : PropertyIdentity → Bool)
    (hp : ∀ r, r.edit.isToggle = false → p r = kept r.identity) (records : List PropertyRecord) :
    (occurrences (records.filter p)).filterMap Occurrence.emitted?
      = ((occurrences records).filterMap Occurrence.emitted?).filter fun e => kept e.identity := by
  rw [occurrences_filter, List.filterMap_map, List.filterMap_filter, List.filter_filterMap]
  refine congrArg (fun f => (occurrences records).filterMap f) (funext fun o => ?_)
  -- an entry is one of its record's property, so it is kept exactly when the record is
  have hkept : ∀ e, o.emitted? = some e → kept e.identity = p o.item := by
    intro e he
    have htog := PropertyEdit.not_toggle_of_settles (HistoryDraft.settles_of_emitted? he)
    rw [Occurrence.identity_of_emitted? he, ← hp o.item htog]
  cases ho : p o.item with
  | true =>
    rw [if_pos rfl, Function.comp_apply, Occurrence.emitted?_filter hp ho]
    cases he : o.emitted? with
    | none => rfl
    | some e => rw [Option.filter_some, hkept e he, ho, if_pos rfl]
  | false =>
    rw [if_neg (by simp)]
    cases he : o.emitted? with
    | none => rfl
    | some e => rw [Option.filter_some, hkept e he, ho, if_neg (by simp)]

namespace HistoryScope

variable {A B : Reader}

theorem admitted_guarded (s : HistoryScope) (records : List PropertyRecord) :
    s.admitted (records.map PropertyRecord.guarded)
      = records.filter fun r => s.admits r.guarded := by
  rw [admitted, List.filter_map, List.map_map]
  exact List.map_id _

/-- The narrower reader's history is made of those records of the other's that the narrower reader
may read. -/
theorem admitted_narrower (hAB : ∀ l, A.grants l = true → B.grants l = true) (range : TimeRange)
    (marker : String) (records : List PropertyRecord) :
    admitted ⟨range, A, marker⟩ (records.map PropertyRecord.guarded)
      = (admitted ⟨range, B, marker⟩ (records.map PropertyRecord.guarded)).filter
          fun r => A.canRead r.visibility := by
  rw [admitted_guarded, admitted_guarded, List.filter_filter]
  refine List.filter_congr fun r _ => ?_
  show (_ && A.canRead r.visibility && _)
    = (A.canRead r.visibility && (_ && B.canRead r.visibility && _))
  -- what the narrower reader may read the wider one may read too, so asking both changes nothing
  cases hA : A.canRead r.visibility with
  | false => simp
  | true =>
    rw [Reader.canRead_mono hAB hA]
    rfl

/-- If a history can be read, so can one that is made of some of its records, chosen by property:
it has the entries of the chosen properties. -/
theorem history_of_admitted_filter {s s' : HistoryScope} {fetch : Load}
    {records records' : List PropertyRecord} {es : List HistoryEntry} {p : PropertyRecord → Bool}
    (kept : PropertyIdentity → Bool) (hp : ∀ r, r.edit.isToggle = false → p r = kept r.identity)
    (hload : ∀ r, p (r.loaded fetch) = p r)
    (hadmitted : s'.admitted (records'.map PropertyRecord.guarded)
      = (s.admitted (records.map PropertyRecord.guarded)).filter p)
    (h : s.history fetch records = .ok es) :
    s'.history fetch records' = .ok (es.filter fun e => kept e.identity) := by
  rw [history, reconstruct_eq] at h ⊢
  rw [hadmitted]
  generalize s.admitted (records.map PropertyRecord.guarded) = all at h ⊢
  cases hall : all.findSome? (PropertyRecord.refusal? fetch) with
  | some e =>
    rw [hall] at h
    cases h
  | none =>
    have hsome : (all.filter p).findSome? (PropertyRecord.refusal? fetch) = none := by
      rw [List.findSome?_eq_none_iff] at hall ⊢
      exact fun r hr => hall r (List.mem_filter.1 hr).1
    rw [hall] at h
    cases h
    rw [hsome, PropertyRecord.map_loaded_filter hload, List.filter_reverse,
      filterMap_emitted?_filter p kept hp]

/-- If the history of the one reader can be read, so can that of a narrower one, and it has those
entries whose properties the narrower reader may read. -/
theorem history_narrower (hAB : ∀ l, A.grants l = true → B.grants l = true) {range : TimeRange}
    {marker : String} {fetch : Load} {records : List PropertyRecord} {es : List HistoryEntry}
    (h : history ⟨range, B, marker⟩ fetch records = .ok es) :
    history ⟨range, A, marker⟩ fetch records
      = .ok (es.filter fun e => A.canRead e.identity.visibility) := by
  have hlabel : ∀ r : PropertyRecord, r.edit.isToggle = false →
      A.canRead r.visibility = A.canRead r.identity.visibility :=
    fun r hr => by rw [PropertyRecord.visibility_of_not_toggle hr]
  have hload : ∀ r : PropertyRecord,
      A.canRead (r.loaded fetch).visibility = A.canRead r.visibility :=
    fun r => by rw [PropertyRecord.visibility_loaded]
  exact history_of_admitted_filter (fun i => A.canRead i.visibility) hlabel hload
    (admitted_narrower hAB range marker records) h

end HistoryScope

end Chronicle
