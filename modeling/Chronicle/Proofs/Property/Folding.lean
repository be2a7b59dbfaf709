import Mathlib.Data.Set.Insert
import Mathlib.Order.Bounds.Defs
import Chronicle.Property.Fold
import Chronicle.Proofs.Property.Standing

/-!
# What folding a property gives

Folding takes the records one by one.  `Fold.Summarizes` says what each part of the fold then
knows of all records so far, in terms that do not mention the fold: the value and the metadata
that stand, whether the property was deleted last, the labels that hide it, and the latest time
that counts.

* `summarizes_step`, `summarizes_run` : every record keeps the summary true, hence every run does;
* `fold_closedForm` : when a property comes out, and which.
-/

namespace Chronicle

namespace Fold

/-- The times that count for a reader: those of all records but the hiding and unhiding under
labels that the reader may not read. -/
def countedTimes (reader : Reader) (records : List PropertyRecord) : Set Timestamp :=
  {ts | ∃ r ∈ records, (r.edit.isToggle = true → reader.canRead r.visibility = true)
    ∧ r.timestamp = ts}

/-- What a fold knows of the records that it has taken in. -/
structure Summarizes (f : Fold) (reader : Reader) (records : List PropertyRecord) : Prop where
  identity : f.identity = records.getLast?.map (·.identity)
  value : f.value = valueOf records
  metadata : f.metadata = metadataOf records
  deleted : f.deleted = true ↔ ∃ o, lastSettled? records = some o ∧ o.item.edit = .softDelete
  hiders (label : Visibility) : label ∈ f.hiders.keys ↔ NetHiding records label
  timestamp_none : f.timestamp = none → countedTimes reader records = ∅
  timestamp_some (ts : Timestamp) :
    f.timestamp = some ts → IsGreatest (countedTimes reader records) ts

/-! ## Times -/

theorem countsForTime_iff (reader : Reader) (r : PropertyRecord) :
    countsForTime reader r = true
      ↔ (r.edit.isToggle = true → reader.canRead r.visibility = true) := by
  rw [countsForTime]
  cases r.edit.isToggle <;> simp

theorem countedTimes_append_singleton (reader : Reader) (records : List PropertyRecord)
    (r : PropertyRecord) :
    countedTimes reader (records ++ [r])
      = if countsForTime reader r then insert r.timestamp (countedTimes reader records)
        else countedTimes reader records := by
  ext ts
  by_cases hc : countsForTime reader r = true
  · have hr := (countsForTime_iff reader r).1 hc
    rw [if_pos hc, Set.mem_insert_iff]
    constructor
    · rintro ⟨a, ha, hcount, rfl⟩
      rcases List.mem_append.1 ha with ha | ha
      · exact Or.inr ⟨a, ha, hcount, rfl⟩
      · exact Or.inl (congrArg _ (List.mem_singleton.1 ha))
    · rintro (rfl | ⟨a, ha, hcount, rfl⟩)
      · exact ⟨r, by simp, hr, rfl⟩
      · exact ⟨a, by simp [ha], hcount, rfl⟩
  · rw [if_neg hc]
    constructor
    · rintro ⟨a, ha, hcount, rfl⟩
      rcases List.mem_append.1 ha with ha | ha
      · exact ⟨a, ha, hcount, rfl⟩
      · rw [List.mem_singleton.1 ha] at hcount
        exact absurd ((countsForTime_iff reader r).2 hcount) hc
    · rintro ⟨a, ha, hcount, rfl⟩
      exact ⟨a, by simp [ha], hcount, rfl⟩

/-- The later of the greatest time and a new one is the greatest of both. -/
theorem isGreatest_later {s : Set Timestamp} {before : Option Timestamp} (ts : Timestamp)
    (hnone : before = none → s = ∅) (hsome : ∀ t, before = some t → IsGreatest s t) :
    IsGreatest (insert ts s) (later before ts) := by
  cases before with
  | none =>
    rw [hnone rfl]
    refine ⟨Or.inl rfl, ?_⟩
    rintro t (rfl | ht)
    · exact Int64.le_refl _
    · exact absurd ht (Set.notMem_empty t)
  | some b =>
    obtain ⟨hb, hle⟩ := hsome b rfl
    rw [later]
    split
    · next hlt =>
      refine ⟨Or.inl rfl, ?_⟩
      rintro t (rfl | ht)
      · exact Int64.le_refl _
      · exact Int64.le_trans (hle ht) (Int64.le_of_lt hlt)
    · next hlt =>
      refine ⟨Or.inr hb, ?_⟩
      rintro t (rfl | ht)
      · exact Int64.not_lt.1 hlt
      · exact hle ht

/-! ## One record -/

theorem step_identity (reader : Reader) (f : Fold) (r : PropertyRecord) :
    (f.step reader r).identity = some r.identity := by
  unfold step edited
  cases r.edit <;> rfl

theorem step_timestamp (reader : Reader) (f : Fold) (r : PropertyRecord) :
    (f.step reader r).timestamp
      = if countsForTime reader r then some (later f.timestamp r.timestamp) else f.timestamp := by
  unfold step edited
  cases r.edit <;> rfl

theorem step_value (reader : Reader) (f : Fold) (r : PropertyRecord) :
    (f.step reader r).value
      = match r.edit with
        | .setValue v _ => some v
        | _ => f.value := by
  unfold step edited
  cases r.edit <;> rfl

theorem step_metadata (reader : Reader) (f : Fold) (r : PropertyRecord) :
    (f.step reader r).metadata
      = match r.edit with
        | .setValue _ m => m
        | .annotate m => f.metadata.overlay m
        | _ => f.metadata := by
  unfold step edited
  cases r.edit <;> rfl

theorem step_deleted (reader : Reader) (f : Fold) (r : PropertyRecord) :
    (f.step reader r).deleted
      = match r.edit with
        | .setValue _ _ => false
        | .softDelete => true
        | _ => f.deleted := by
  unfold step edited
  cases r.edit <;> rfl

theorem mem_hiders_step (reader : Reader) (f : Fold) (r : PropertyRecord) (label : Visibility) :
    label ∈ (f.step reader r).hiders.keys
      ↔ r.edit = .hide label ∨ (r.edit ≠ .unhide label ∧ label ∈ f.hiders.keys) := by
  unfold step edited
  cases he : r.edit with
  | hide l =>
    by_cases h : label = l
    · subst h
      simp [OrderedMap.mem_keys_iff, LabelSet.add, noted]
    · simp [OrderedMap.mem_keys_iff, LabelSet.add, noted, OrderedMap.get?_insert, h, Ne.symm h]
  | unhide l =>
    by_cases h : label = l
    · subst h
      simp [OrderedMap.mem_keys_iff, noted, OrderedMap.get?_erase]
    · simp [OrderedMap.mem_keys_iff, noted, OrderedMap.get?_erase, h, Ne.symm h]
  | _ => simp [noted]

/-- One more record settles the property if it sets a value or deletes. -/
theorem deletedLast_append_singleton (records : List PropertyRecord) (r : PropertyRecord) :
    (∃ o, lastSettled? (records ++ [r]) = some o ∧ o.item.edit = .softDelete)
      ↔ r.edit = .softDelete ∨ (r.edit.setsValue = false
          ∧ ∃ o, lastSettled? records = some o ∧ o.item.edit = .softDelete) := by
  rw [lastSettled?, lastSettled?, lastOccurrence?_append_singleton]
  cases he : r.edit <;> simp [PropertyEdit.settles, PropertyEdit.setsValue, PropertyEdit.value?,
    Occurrence.extend, he]

/-- Every record keeps the summary true. -/
theorem summarizes_step {f : Fold} {reader : Reader} {records : List PropertyRecord}
    (h : f.Summarizes reader records) (r : PropertyRecord) :
    (f.step reader r).Summarizes reader (records ++ [r]) where
  identity := by
    rw [step_identity, List.getLast?_concat]
    rfl
  value := by
    refine (step_value reader f r).trans (Eq.trans ?_ (valueOf_append_singleton records r).symm)
    cases r.edit with
    | setValue v m => rfl
    | _ => exact h.value
  metadata := by
    refine (step_metadata reader f r).trans
      (Eq.trans ?_ (metadataOf_append_singleton records r).symm)
    cases r.edit with
    | setValue v m => rfl
    | annotate m => exact congrArg (·.overlay m) h.metadata
    | _ => exact h.metadata
  deleted := by
    rw [deletedLast_append_singleton, ← h.deleted, step_deleted]
    cases r.edit <;> simp [PropertyEdit.setsValue, PropertyEdit.value?]
  hiders label := by
    rw [mem_hiders_step, netHiding_append_singleton, h.hiders]
  timestamp_none hnone := by
    rw [step_timestamp] at hnone
    split at hnone
    · cases hnone
    · next hc => rw [countedTimes_append_singleton, if_neg hc, h.timestamp_none hnone]
  timestamp_some ts hts := by
    rw [step_timestamp] at hts
    rw [countedTimes_append_singleton]
    split at hts
    · next hc =>
      cases hts
      rw [if_pos hc]
      exact isGreatest_later r.timestamp h.timestamp_none h.timestamp_some
    · next hc =>
      rw [if_neg hc]
      exact h.timestamp_some ts hts

/-! ## All records -/

/-- A fold summarizes the records that it has taken in. -/
theorem summarizes_run (reader : Reader) (records : List PropertyRecord) :
    (records.foldl (step reader) start).Summarizes reader records := by
  induction records using List.reverseRecOn with
  | nil =>
    refine ⟨rfl, rfl, rfl, ?_, fun label => ?_, fun _ => ?_, fun ts hts => ?_⟩
    · simp [start, lastSettled?]
    · simp [start, OrderedMap.keys, NetHiding]
    · simp [countedTimes]
    · cases hts
  | append_singleton records r ih =>
    rw [List.foldl_append]
    exact summarizes_step ih r

/-- A fold that ends in a property has the parts of that property. -/
theorem finish_inv {f : Fold} {hints : FetchHints} {reader : Reader} {p : Property}
    (h : f.finish hints reader = some p) :
    f.deleted = false ∧ f.identity = some p.identity ∧ f.value = some p.value
      ∧ f.timestamp = some p.timestamp ∧ p.metadata = hints.metadata f.metadata
      ∧ p.hiddenUnder = f.hiders.filterKeys reader.canRead := by
  unfold finish at h
  split at h
  · cases h
  · next hdel =>
    split at h
    · cases h
    · split at h
      · next identity value timestamp hi hv ht =>
        cases h
        exact ⟨Bool.not_eq_true _ ▸ hdel, hi, hv, ht, rfl, rfl⟩
      · cases h

/-- A fold ends in a property exactly when it is complete, not deleted and not left out. -/
theorem isSome_finish_iff {f : Fold} {hints : FetchHints} {reader : Reader} :
    (f.finish hints reader).isSome = true
      ↔ f.deleted = false ∧ (hints.includeHidden = true ∨ f.hiders.isEmpty = true)
        ∧ f.identity.isSome = true ∧ f.value.isSome = true ∧ f.timestamp.isSome = true := by
  unfold finish
  cases hd : f.deleted with
  | true => simp
  | false =>
    cases hint : hints.includeHidden <;> cases hh : f.hiders.isEmpty <;>
      cases hi : f.identity <;> cases hv : f.value <;> cases ht : f.timestamp <;> simp

end Fold

/-! ## Properties -/

/-- What settled the property last is a value. -/
def EndsOnValue (records : List PropertyRecord) : Prop :=
  ∃ o, lastSettled? records = some o ∧ o.item.edit.setsValue = true

namespace Fold.Summarizes

variable {f : Fold} {reader : Reader} {records : List PropertyRecord}

/-- No label hides the property if the fold has no hiders. -/
theorem isEmpty_hiders_iff (h : f.Summarizes reader records) :
    f.hiders.isEmpty = true ↔ ∀ label, ¬ NetHiding records label := by
  rw [OrderedMap.isEmpty_iff_keys, List.eq_nil_iff_forall_not_mem]
  exact forall_congr' fun label => not_congr (h.hiders label)

/-- A value that is not deleted is what settled the property last. -/
theorem lastSettled_eq_lastValue (h : f.Summarizes reader records) (hdel : f.deleted = false)
    {o : Occurrence PropertyRecord} (ho : lastValue? records = some o) :
    lastSettled? records = some o := by
  have hset := (lastOccurrence?_eq_some_iff.1 ho).2.1
  cases hlast : lastSettled? records with
  | none =>
    have hno := lastOccurrence?_eq_none_iff.1 hlast o.item (item_mem_of_lastOccurrence? ho)
    rw [PropertyEdit.settles_of_setsValue hset] at hno
    cases hno
  | some o' =>
    have hnd : o'.item.edit ≠ .softDelete := by
      intro hd
      rw [h.deleted.2 ⟨o', hlast, hd⟩] at hdel
      cases hdel
    have hset' := PropertyEdit.setsValue_of_settles (lastOccurrence?_eq_some_iff.1 hlast).2.1 hnd
    rw [← ho, lastOccurrence?_setsValue_of_settles hlast hset']

theorem endsOnValue (h : f.Summarizes reader records) (hdel : f.deleted = false)
    (hval : f.value.isSome = true) : EndsOnValue records := by
  obtain ⟨v, hv⟩ := Option.isSome_iff_exists.1 hval
  rw [h.value] at hv
  obtain ⟨o, m, ho, he⟩ := valueOf_eq_some_iff.1 hv
  exact ⟨o, h.lastSettled_eq_lastValue hdel ho, PropertyEdit.setsValue_iff.2 ⟨v, m, he⟩⟩

theorem of_endsOnValue (h : f.Summarizes reader records) (hends : EndsOnValue records) :
    f.deleted = false ∧ f.value.isSome = true := by
  obtain ⟨o, ho, hset⟩ := hends
  obtain ⟨v, m, he⟩ := PropertyEdit.setsValue_iff.1 hset
  constructor
  · rw [← Bool.not_eq_true]
    intro hdel
    obtain ⟨o', ho', hd⟩ := h.deleted.1 hdel
    rw [ho] at ho'
    cases ho'
    rw [he] at hd
    cases hd
  · rw [h.value, valueOf_eq_some_iff.2 ⟨o, m, lastOccurrence?_setsValue_of_settles ho hset, he⟩]
    rfl

/-- Where a value stands, there is the record that set it. -/
theorem exists_setValue (h : f.Summarizes reader records) (hval : f.value.isSome = true) :
    ∃ r ∈ records, r.edit.setsValue = true := by
  obtain ⟨v, hv⟩ := Option.isSome_iff_exists.1 hval
  rw [h.value] at hv
  obtain ⟨o, m, ho, he⟩ := valueOf_eq_some_iff.1 hv
  exact ⟨o.item, item_mem_of_lastOccurrence? ho, PropertyEdit.setsValue_iff.2 ⟨v, m, he⟩⟩

theorem isSome_identity (h : f.Summarizes reader records) (hval : f.value.isSome = true) :
    f.identity.isSome = true := by
  obtain ⟨r, hr, -⟩ := h.exists_setValue hval
  rw [h.identity, Option.isSome_map, List.getLast?_isSome]
  exact List.ne_nil_of_mem hr

/-- A record that sets a value counts for every reader's timestamp. -/
theorem isSome_timestamp (h : f.Summarizes reader records) (hval : f.value.isSome = true) :
    f.timestamp.isSome = true := by
  obtain ⟨r, hr, hset⟩ := h.exists_setValue hval
  obtain ⟨v, m, he⟩ := PropertyEdit.setsValue_iff.1 hset
  rw [Option.isSome_iff_ne_none]
  intro hnone
  have hmem : r.timestamp ∈ countedTimes reader records := by
    refine ⟨r, hr, fun htog => ?_, rfl⟩
    rw [he] at htog
    cases htog
  rw [h.timestamp_none hnone] at hmem
  exact hmem

end Fold.Summarizes

namespace Property

theorem fold_spec {hints : FetchHints} {reader : Reader} {records : List PropertyRecord}
    {p : Property} (h : Property.fold hints reader records = some p) :
    ∃ f : Fold, f.Summarizes reader records ∧ f.finish hints reader = some p :=
  ⟨_, Fold.summarizes_run reader records, h⟩

/-- The property is the one that the last record is of. -/
theorem identity_fold {hints : FetchHints} {reader : Reader} {records : List PropertyRecord}
    {p : Property} (h : Property.fold hints reader records = some p) :
    records.getLast?.map (·.identity) = some p.identity := by
  obtain ⟨f, hf, hfin⟩ := fold_spec h
  obtain ⟨-, hi, -⟩ := Fold.finish_inv hfin
  rw [← hf.identity, hi]

/-- Records of one property make no other. -/
theorem identity_of_fold {hints : FetchHints} {reader : Reader} {records : List PropertyRecord}
    {i : PropertyIdentity} {p : Property} (hi : ∀ r ∈ records, r.identity = i)
    (h : Property.fold hints reader records = some p) : p.identity = i := by
  obtain ⟨r, hr, hrp⟩ := Option.map_eq_some_iff.1 (identity_fold h)
  rw [← hrp, hi r (List.mem_of_getLast? hr)]

/-- The value is the one that stands. -/
theorem value_fold {hints : FetchHints} {reader : Reader} {records : List PropertyRecord}
    {p : Property} (h : Property.fold hints reader records = some p) :
    valueOf records = some p.value := by
  obtain ⟨f, hf, hfin⟩ := fold_spec h
  obtain ⟨-, -, hv, -⟩ := Fold.finish_inv hfin
  rw [← hf.value, hv]

/-- The metadata is what stands, if it is asked for. -/
theorem metadata_fold {hints : FetchHints} {reader : Reader} {records : List PropertyRecord}
    {p : Property} (h : Property.fold hints reader records = some p) :
    p.metadata = hints.metadata (metadataOf records) := by
  obtain ⟨f, hf, hfin⟩ := fold_spec h
  obtain ⟨-, -, -, -, hm, -⟩ := Fold.finish_inv hfin
  rw [hm, hf.metadata]

/-- The value was set by what settled the property last, and the metadata is what came with it
under all annotations since. -/
theorem standing_fold {hints : FetchHints} {reader : Reader} {records : List PropertyRecord}
    {p : Property} (h : Property.fold hints reader records = some p) :
    ∃ o m, lastSettled? records = some o ∧ o.item.edit = .setValue p.value m
      ∧ p.metadata = hints.metadata (overlaid m o.after) := by
  obtain ⟨f, hf, hfin⟩ := fold_spec h
  obtain ⟨hdel, -, hv, -, hm, -⟩ := Fold.finish_inv hfin
  rw [hf.value] at hv
  obtain ⟨o, m, ho, he⟩ := valueOf_eq_some_iff.1 hv
  refine ⟨o, m, hf.lastSettled_eq_lastValue hdel ho, he, ?_⟩
  rw [hm, hf.metadata, metadataOf, ho]
  simp only [he, PropertyEdit.ownMetadata]

/-- The timestamp is the latest time that counts for the reader. -/
theorem timestamp_fold {hints : FetchHints} {reader : Reader} {records : List PropertyRecord}
    {p : Property} (h : Property.fold hints reader records = some p) :
    IsGreatest (Fold.countedTimes reader records) p.timestamp := by
  obtain ⟨f, hf, hfin⟩ := fold_spec h
  obtain ⟨-, -, -, ht, -⟩ := Fold.finish_inv hfin
  exact hf.timestamp_some p.timestamp ht

/-- The labels reported are those that hide the property and that the reader may read. -/
theorem mem_hiddenUnder_fold {hints : FetchHints} {reader : Reader}
    {records : List PropertyRecord} {p : Property}
    (h : Property.fold hints reader records = some p) (label : Visibility) :
    label ∈ p.hiddenUnder.keys ↔ NetHiding records label ∧ reader.canRead label = true := by
  obtain ⟨f, hf, hfin⟩ := fold_spec h
  obtain ⟨-, -, -, -, -, hh⟩ := Fold.finish_inv hfin
  rw [hh, ← hf.hiders label, OrderedMap.keys_filterKeys, List.mem_filter]

/-- A property comes out exactly when it ends on a value and hiding does not leave it out. -/
theorem isSome_fold_iff (hints : FetchHints) (reader : Reader) (records : List PropertyRecord) :
    (Property.fold hints reader records).isSome = true
      ↔ EndsOnValue records
        ∧ (hints.includeHidden = true ∨ ∀ label, ¬ NetHiding records label) := by
  have hf := Fold.summarizes_run reader records
  have hempty := hf.isEmpty_hiders_iff
  rw [Property.fold, Fold.isSome_finish_iff, hempty]
  constructor
  · rintro ⟨hdel, hshown, -, hval, -⟩
    exact ⟨hf.endsOnValue hdel hval, hshown⟩
  · rintro ⟨hends, hshown⟩
    obtain ⟨hdel, hval⟩ := hf.of_endsOnValue hends
    exact ⟨hdel, hshown, hf.isSome_identity hval, hval, hf.isSome_timestamp hval⟩

/-- **The closed form of a property.**  It comes out exactly when it ends on a value and hiding does
not leave it out; then every part of it is read off the records.  Its metadata is known by what
stands under each name. -/
theorem fold_closedForm (hints : FetchHints) (reader : Reader) (i : PropertyIdentity)
    (records : List PropertyRecord) (hi : ∀ r ∈ records, r.identity = i) :
    ((Property.fold hints reader records).isSome = true
        ↔ EndsOnValue records
          ∧ (hints.includeHidden = true ∨ ∀ label, ¬ NetHiding records label))
      ∧ ∀ p, Property.fold hints reader records = some p →
        p.identity = i
          ∧ (∃ before r after m, records = before ++ r :: after
              ∧ (∀ a ∈ after, a.edit.settles = false)
              ∧ r.edit = .setValue p.value m
              ∧ ∀ name, p.metadata.get? name
                  = if hints.includeMetadata then overlaidEntry? m after name else none)
          ∧ IsGreatest (Fold.countedTimes reader records) p.timestamp
          ∧ ∀ label, label ∈ p.hiddenUnder.keys
              ↔ NetHiding records label ∧ reader.canRead label = true := by
  refine ⟨isSome_fold_iff hints reader records, fun p hp => ⟨?_, ?_, ?_, ?_⟩⟩
  · obtain ⟨r, hr, hrp⟩ := Option.map_eq_some_iff.1 (identity_fold hp)
    rw [← hrp, hi r (List.mem_of_getLast? hr)]
  · obtain ⟨o, m, ho, he, hm⟩ := standing_fold hp
    obtain ⟨hlist, -, hafter⟩ := lastOccurrence?_eq_some_iff.1 ho
    refine ⟨o.before, o.item, o.after, m, hlist.symm, hafter, he, fun name => ?_⟩
    rw [hm, FetchHints.get?_metadata, get?_overlaid]
  · exact timestamp_fold hp
  · exact mem_hiddenUnder_fold hp

/-- A property that is set, deleted, annotated too early, set again, annotated twice, and hidden
under two labels; the times do not ascend. -/
def readded : List PropertyRecord :=
  let i : PropertyIdentity := ⟨"n", "k", .empty⟩
  let note (n : Int64) : MetadataEntry := ⟨.int n, .empty⟩
  [⟨5, i, .setValue (.int 1) (.ofList [("by", note 10)])⟩, ⟨9, i, .softDelete⟩,
    ⟨7, i, .annotate (.ofList [("lost", note 20)])⟩,
    ⟨8, i, .setValue (.int 2) (.ofList [("by", note 30), ("for", note 31)])⟩,
    ⟨6, i, .annotate (.ofList [("by", note 40), ("seen", note 41)])⟩,
    ⟨6, i, .annotate (.ofList [("by", note 50)])⟩,
    ⟨30, i, .hide ⟨"y"⟩⟩, ⟨21, i, .hide ⟨"x"⟩⟩, ⟨20, i, .unhide ⟨"z"⟩⟩]

/-- The closed form at `readded`, for a reader who may read one of the two labels.  Under the three
names stand what the last annotation says, what came with the second value, and what only the first
annotation of that value says. -/
theorem fold_closedForm_readded :
    (∀ r ∈ readded, r.identity = ⟨"n", "k", .empty⟩)
      ∧ ∃ p, Property.fold .allIncludingHidden (.holding (.ofLabels ["x"])) readded = some p
        ∧ p.value = .int 2 ∧ p.timestamp = 21
        ∧ p.metadata.entries = [("by", ⟨.int 50, .empty⟩), ("for", ⟨.int 31, .empty⟩),
            ("seen", ⟨.int 41, .empty⟩)]
        ∧ (∃ before r after m, readded = before ++ r :: after
            ∧ (∀ a ∈ after, a.edit.settles = false)
            ∧ r.edit = .setValue p.value m
            ∧ ∀ name, p.metadata.get? name = overlaidEntry? m after name)
        ∧ IsGreatest (Fold.countedTimes (.holding (.ofLabels ["x"])) readded) p.timestamp
        ∧ ∀ label, label ∈ p.hiddenUnder.keys
            ↔ NetHiding readded label
              ∧ (Reader.holding (.ofLabels ["x"])).canRead label = true := by
  have hi : ∀ r ∈ readded, r.identity = ⟨"n", "k", .empty⟩ := by decide
  have hform := fold_closedForm .allIncludingHidden (.holding (.ofLabels ["x"])) _ readded hi
  have hends : EndsOnValue readded := ⟨_, rfl, rfl⟩
  obtain ⟨p, hp⟩ := Option.isSome_iff_exists.1 (hform.1.2 ⟨hends, Or.inl rfl⟩)
  obtain ⟨-, hstands, htime, hlabels⟩ := hform.2 p hp
  have hpart : (Property.fold .allIncludingHidden (.holding (.ofLabels ["x"])) readded).map
      (fun p => (p.value, p.timestamp, p.metadata.entries))
        = some (.int 2, 21, [("by", ⟨.int 50, .empty⟩), ("for", ⟨.int 31, .empty⟩),
            ("seen", ⟨.int 41, .empty⟩)]) := by decide
  rw [hp, Option.map_some, Option.some.injEq, Prod.mk.injEq, Prod.mk.injEq] at hpart
  obtain ⟨hvalue, htimestamp, hmetadata⟩ := hpart
  exact ⟨hi, p, hp, hvalue, htimestamp, hmetadata, hstands, htime, hlabels⟩

end Property

end Chronicle
